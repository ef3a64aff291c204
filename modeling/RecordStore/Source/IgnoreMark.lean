import RecordStore.Text.Utf8

/-!
The mark that takes a source out of generation. It counts in comments only, so the source is cut
into comments, literals and single octets of the rest; text between quotes is never a comment.
-/
namespace RecordStore.IgnoreMark

abbrev Octets := List UInt8

def mark : Octets := Utf8.encode "marlow:ignore"

/-- Whether `part` stands somewhere in a text. -/
def occursIn (part : Octets) : Octets → Bool
  | [] => part.isEmpty
  | b :: rest => part.isPrefixOf (b :: rest) || occursIn part rest

/-! ### Lengths of comments and literals

Each takes the text from the first octet of a comment or literal on. One that does not end reaches
to the end of the text. -/

/-- Up to the end of the line. -/
def lineLength : Octets → Nat
  | [] => 0
  | b :: rest => if b == 0x0A then 0 else lineLength rest + 1

/-- Up to the end of the outermost of nested comments; `depth` of them are open. -/
def blockLength : (depth : Nat) → Octets → Nat
  | depth, 0x2F :: 0x2A :: rest => blockLength (depth + 1) rest + 2
  | depth, 0x2A :: 0x2F :: rest => if depth ≤ 1 then 2 else blockLength (depth - 1) rest + 2
  | depth, _ :: rest => blockLength depth rest + 1
  | _, [] => 0

/-- Behind the first quote of a string, up to behind its last. -/
def stringTail : Octets → Nat
  | [] => 0
  | 0x5C :: _ :: rest => stringTail rest + 2
  | b :: rest => if b == 0x22 then 1 else stringTail rest + 1

def stringLength (text : Octets) : Nat := stringTail (text.drop 1) + 1

/-- Behind the first quote of a raw string, up to behind its last quote and the hashes after it. -/
def rawTail (hashes : Nat) : Octets → Nat
  | [] => 0
  | b :: rest =>
    if b == 0x22 && (rest.take hashes).countP (· == 0x23) == hashes then 1 + hashes
    else rawTail hashes rest + 1

def hashCount (text : Octets) : Nat := (text.takeWhile (· == 0x23)).length

/-- From the letter of a raw string on. -/
def rawLength (text : Octets) : Nat :=
  let hashes := hashCount (text.drop 1)
  rawTail hashes (text.drop (hashes + 2)) + hashes + 2

/-- Up to a single quote, the quote included. -/
def quoteTail (text : Octets) : Nat := (text.takeWhile (· != 0x27)).length + 1

/-- A character's length; a quote that is none stands alone. -/
def charLength (text : Octets) : Nat :=
  match text with
  | _ :: 0x5C :: rest => quoteTail rest + 2
  | _ :: _ :: 0x27 :: _ => 3
  | _ => 1

/-- Whether a raw string starts; after a letter, digit or underscore the `r` belongs to a name. -/
def startsRaw (before : Option UInt8) (text : Octets) : Bool :=
  let inName (b : UInt8) : Bool := (Char.ofNat b.toNat).isAlphanum || b == 0x5F
  !before.any inName && (text.drop 1).drop (hashCount (text.drop 1)) matches 0x22 :: _

/-! ### Pieces of a source -/

structure Piece where
  isComment : Bool
  octets : Octets
  deriving DecidableEq, Repr

/-- Whether a comment starts, and the length of what does. -/
def extent (before : Option UInt8) (text : Octets) : Bool × Nat :=
  match text with
  | 0x2F :: 0x2F :: _ => (true, lineLength text)
  | 0x2F :: 0x2A :: _ => (true, blockLength 0 text)
  | 0x72 :: _ => (false, if startsRaw before text then rawLength text else 1)
  | 0x22 :: _ => (false, stringLength text)
  | 0x27 :: _ => (false, charLength text)
  | _ => (false, 1)

/-- The pieces of a text, of which `before` is the octet in front. Every piece takes an octet at
least, so the text's length bounds their number. -/
def piecesFrom : Nat → Option UInt8 → Octets → List Piece
  | 0, _, _ => []
  | fuel + 1, before, text =>
    match text with
    | [] => []
    | _ :: _ =>
      let (isComment, length) := extent before text
      let octets := text.take length
      ⟨isComment, octets⟩ :: piecesFrom fuel octets.getLast? (text.drop length)

def pieces (source : String) : List Piece :=
  let octets := Utf8.encode source
  piecesFrom octets.length none octets

/-- Whether a comment of the source holds the mark. -/
def isIn (source : String) : Bool :=
  (pieces source).any fun p => p.isComment && occursIn mark p.octets

end RecordStore.IgnoreMark
