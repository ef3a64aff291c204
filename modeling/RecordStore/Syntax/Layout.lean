/-!
Layout of source text on lines of limited width. A layout is a sequence of texts and of gaps where
a line may end, in nested boxes. A box that does not fit ends its lines at every gap when it is
consistent, and only where it has to when it is not.
-/
namespace RecordStore

/-- A place where a line may end. -/
structure Gap where
  /-- Blanks written when the line goes on. -/
  blanks : Nat := 0
  /-- Indentation of the next line beyond that of the box. -/
  offset : Int := 0
  /-- Written before a line's end. -/
  before : String := ""
  /-- Written at the start of the next line. -/
  start : String := ""
  /-- Written when the line goes on. -/
  stay : String := ""
  /-- Dropped when nothing follows it in its box. -/
  inner : Bool := false
  /-- Dropped when its box starts where less than this width is left on the line. -/
  room : Nat := 0
  /-- The line always goes on. -/
  never : Bool := false
  deriving DecidableEq, Repr, Inhabited

inductive Piece where
  | text (s : String)
  /-- Nothing, but wider than any line. -/
  | strut
  | gap (g : Gap)
  | enter (offset : Int) (consistent : Bool)
  | leave
  deriving DecidableEq, Repr, Inhabited

abbrev Layout := List Piece

namespace Layout

/-- The width of a line. -/
def margin : Int := 89

/-- A line has at least this width left after its indentation. -/
def leastSpace : Int := 60

/-- Wider than any line. -/
def unbounded : Nat := 0xffff

def word (s : String) : Layout := [.text s]
def gap (g : Gap) : Layout := [.gap g]
def spaces (n : Nat) : Layout := [.gap { blanks := n }]
def space : Layout := spaces 1
def cut : Layout := spaces 0
def line : Layout := spaces unbounded
def lineIfMore : Layout := [.gap { blanks := unbounded, inner := true }]
def spaceIfMore : Layout := [.gap { blanks := 1, inner := true }]
def noCut : Layout := [.gap { never := true }]

/-- Between items: a comma; after the last one, a comma only where the line ends. -/
def commaAfter (last : Bool) : Layout :=
  if last then [.gap { before := "," }] else word "," ++ space

/-- As `commaAfter`, with a blank after the last item when the line goes on. -/
def commaOrSpaceAfter (last : Bool) : Layout :=
  if last then [.gap { blanks := 1, before := "," }] else word "," ++ space

/-- A box. One that holds a single gap and nothing else is dropped, as is an inner gap at its
end. -/
def box (offset : Int) (consistent : Bool) (body : Layout) : Layout :=
  match body.reverse with
  | [.gap _] => []
  | .gap g :: rest =>
    .enter offset consistent :: (if g.inner then rest.reverse else body) ++ [.leave]
  | _ => .enter offset consistent :: body ++ [.leave]

/-- Ends lines at all gaps or at none. -/
def cbox (offset : Int) (body : Layout) : Layout := box offset true body

/-- Ends lines only where needed. -/
def ibox (offset : Int) (body : Layout) : Layout := box offset false body

def Piece.width : Piece → Nat
  | .text s => s.utf8ByteSize
  | .strut => unbounded
  | .gap g => g.blanks
  | _ => 0

/-- The width on one line. -/
def width (l : Layout) : Nat := l.foldl (fun n p => n + Piece.width p) 0

/-- A box that ends its lines when it is wider than `limit`. -/
def boxWithin (limit : Nat) (offset : Int) (consistent : Bool) (body : Layout) : Layout :=
  box offset consistent (if limit < width body then body ++ [.strut] else body)

/-- Shift the indentation after the last gap. -/
def shiftLast (offset : Int) (l : Layout) : Layout :=
  match l.reverse with
  | .gap g :: rest => (Piece.gap { g with offset := g.offset + offset } :: rest).reverse
  | _ => l

/-! ### Rendering -/

/-- What follows some pieces: their sizes, the width from here to the end, the width that is left
at the gap where the present line could end next, and those widths for the boxes around. -/
structure Measured where
  sized : List (Piece × Nat)
  total : Nat
  next : Nat
  outer : List Nat

/-- A gap is as wide as what stands before the next gap outside boxes that open in between; a box
is as wide as what stands before the next gap after it. -/
def measure : Layout → Measured
  | [] => ⟨[], 0, 0, []⟩
  | p :: rest =>
    let m := measure rest
    match p with
    | .gap g =>
      let total := m.total + g.blanks
      ⟨(p, total - m.next) :: m.sized, total, total, m.outer⟩
    | .leave => ⟨(p, 0) :: m.sized, m.total, m.next, m.next :: m.outer⟩
    | .enter _ _ =>
      let next := m.outer.headD 0
      ⟨(p, m.total - next) :: m.sized, m.total, next, m.outer.drop 1⟩
    | p => ⟨(p, 0) :: m.sized, m.total + Piece.width p, m.next, m.outer⟩

/-- An open box: whether it fits on its line. One that does not keeps the indentation outside it
and what was left on the line at its start. -/
inductive Frame where
  | fits
  | broken (indent : Int) (consistent : Bool) (room : Int)

/-- The state of writing: what is left on the line, and the blanks due before the next text. -/
structure Writer where
  out : String
  space : Int
  indent : Int
  due : Nat
  frames : List Frame

namespace Writer

def start : Writer := ⟨"", margin, 0, 0, []⟩

def put (w : Writer) (s : String) : Writer :=
  { w with
    out := w.out ++ "".pushn ' ' w.due ++ s
    due := 0
    space := w.space - s.utf8ByteSize }

def staysOnLine (w : Writer) (g : Gap) (size : Nat) : Bool :=
  g.never ||
    match w.frames.head? with
    | some .fits => true
    | some (.broken _ true _) => false
    | _ => decide ((size : Int) ≤ w.space)

/-- Whether the innermost box started with less room than a gap asks for. -/
def drops (w : Writer) (g : Gap) : Bool :=
  match w.frames.head? with
  | some (.broken _ _ room) => g.room != 0 && decide (room < (g.room : Int))
  | _ => false

def putGap (w : Writer) (g : Gap) (size : Nat) : Writer :=
  if w.drops g then w
  else if w.staysOnLine g size then
    { w with
      out := w.out ++ g.stay
      due := w.due + g.blanks
      space := w.space - g.blanks - g.stay.utf8ByteSize }
  else
    let w := if g.before.isEmpty then w else w.put g.before
    let indent := w.indent + g.offset
    let w := { w with
      out := w.out ++ "\n"
      due := indent.toNat
      space := max (margin - indent) leastSpace }
    if g.start.isEmpty then w else w.put g.start

def step (w : Writer) : Piece × Nat → Writer
  | (.text s, _) => w.put s
  | (.strut, _) => w.put ""
  | (.gap g, size) => w.putGap g size
  | (.enter offset consistent, size) =>
    if w.space < (size : Int) then
      { w with
        frames := .broken w.indent consistent w.space :: w.frames
        indent := w.indent + offset }
    else { w with frames := .fits :: w.frames }
  | (.leave, _) =>
    match w.frames with
    | .broken indent _ _ :: frames => { w with frames, indent }
    | _ :: frames => { w with frames }
    | [] => w

end Writer

/-- A layout as text. -/
def render (l : Layout) : String :=
  ((measure l).sized.foldl Writer.step Writer.start).out

end Layout
end RecordStore
