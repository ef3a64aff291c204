import RecordStore.Syntax.Snippet

/-!
Types as they are written: paths with generic arguments, references, tuples and the rest. The
expressions inside a type are kept as snippets.
-/
namespace RecordStore

/-- What may stand before the path of a trait bound. -/
inductive BoundModifier where
  | plain
  | optional
  deriving DecidableEq, Inhabited

mutual

inductive Ty where
  | slice (element : Ty)
  | array (element : Ty) (length : Snippet)
  | reference (lifetime : Option String) (mutable : Bool) (target : Ty)
  | pointer (mutable : Bool) (target : Ty)
  | parenthesized (inner : Ty)
  | tuple (elements : List Ty) (trailing : Bool)
  | path (rooted : Bool) (segments : List Segment)
  /-- A path into a type, or into its implementation of the trait that the first `position`
  segments name. -/
  | qualified (owner : Ty) (position : Nat) (rooted : Bool) (segments : List Segment)
  | function (head : Snippet) (inputs : List Input) (trailing : Bool) (variadic : Option Snippet)
      (output : Option Ty)
  | traitObject (explicit : Bool) (bounds : List Bound) (trailing : Bool)
  | implementer (bounds : List Bound) (trailing : Bool)
  | inferred
  | never
  /-- A macro call, or tokens that nothing looks into. -/
  | code (code : Snippet)

inductive Segment where
  | mk (name : String) (arguments : Arguments)

inductive Arguments where
  | none
  | angled (turbofish : Bool) (arguments : List Argument) (trailing : Bool)
  | called (inputs : List Ty) (trailing : Bool) (output : Option Ty)

inductive Argument where
  | lifetime (name : String)
  | type (ty : Ty)
  | constant (value : Snippet)
  | assignment (owner : Segment) (ty : Ty)
  | constantAssignment (owner : Segment) (value : Snippet)
  | constraint (owner : Segment) (bounds : List Bound) (trailing : Bool)

/-- An input of a function type; the label is a name with its colon. -/
inductive Input where
  | mk (attributes : List Attribute) (label : Option String) (ty : Ty)

inductive Bound where
  | trait (parenthesized : Bool) (lifetimes : Snippet) (modifier : BoundModifier) (rooted : Bool)
      (segments : List Segment)
  | lifetime (name : String)
  | other (code : Snippet)

end

instance : Inhabited Ty := ⟨.inferred⟩
instance : Inhabited Segment := ⟨.mk "" .none⟩

namespace Segment

def name : Segment → String
  | .mk n _ => n

def arguments : Segment → Arguments
  | .mk _ a => a

end Segment

/-- Where a path stands decides how its generic arguments are introduced. -/
inductive PathStyle where
  | plain
  | type
  | expression
  deriving DecidableEq

/-- Whether there are no arguments, be there angle brackets or not. -/
def Arguments.isEmpty : Arguments → Bool
  | .none => true
  | .angled _ as _ => as.isEmpty
  | .called _ _ _ => false

def Argument.isLifetime : Argument → Bool
  | .lifetime _ => true
  | _ => false

/-- Lists with commas as they were written. -/
def commaTokens (items : List (List Token)) (trailing : Bool) : List Token :=
  separated comma items ++ (if trailing then comma else [])

/-- Whether a comma ends the arguments once lifetimes stand before the others: one does when it
is written there, or when a lifetime that moves leaves its comma behind. -/
def trailingArgument (as : List Argument) (trailing : Bool) : Bool :=
  trailing || (as.getLast?.any Argument.isLifetime && as.any (!·.isLifetime))

def mutabilityTokens (mutable : Bool) : List Token := if mutable then [.ident "mut"] else []

def plus : List Token := Token.operator "+"

def rootTokens (rooted : Bool) : List Token := if rooted then pathMark else []

/-! ### Tokens -/

mutual

def Ty.tokens : Ty → List Token
  | .slice e => Token.brackets e.tokens
  | .array e n => Token.brackets (e.tokens ++ Token.operator ";" ++ n.tokens)
  | .reference l m t =>
    Token.operator "&" ++ (match l with | some n => [.lifetime n] | none => []) ++
      mutabilityTokens m ++ t.tokens
  | .pointer m t => Token.operator "*" ++ [.ident (if m then "mut" else "const")] ++ t.tokens
  | .parenthesized t => Token.parens t.tokens
  | .tuple es trailing =>
    Token.parens (commaTokens (Ty.listTokens es) (trailing || es.length == 1))
  | .path rooted ss => rootTokens rooted ++ separated pathMark (Segment.listTokens ss)
  | .qualified o position rooted ss =>
    let segments := Segment.listTokens ss
    let before := segments.take position
    let after := segments.drop position
    Token.operator "<" ++ o.tokens ++
      (if position == 0 then Token.operator ">" ++ rootTokens rooted
        else [.ident "as"] ++ rootTokens rooted ++ separated pathMark before ++
          Token.operator ">" ++ pathMark) ++
      separated pathMark after
  | .function head is trailing variadic out =>
    let dots := match variadic with
      | some v => (if is.isEmpty || trailing then [] else comma) ++ v.tokens
      | none => []
    head.tokens ++ Token.parens (commaTokens (Input.listTokens is) trailing ++ dots) ++
      Ty.outputTokens out
  | .traitObject explicit bs trailing =>
    (if explicit then [.ident "dyn"] else []) ++ separated plus (Bound.listTokens bs) ++
      (if trailing then plus else [])
  | .implementer bs trailing =>
    .ident "impl" :: separated plus (Bound.listTokens bs) ++ (if trailing then plus else [])
  | .inferred => [.ident "_"]
  | .never => Token.operator "!"
  | .code code => code.tokens

def Segment.tokens : Segment → List Token
  | .mk n a => .ident n :: a.tokens

def Arguments.tokens : Arguments → List Token
  | .none => []
  | .angled turbofish as trailing =>
    rootTokens turbofish ++ Token.operator "<" ++
      commaTokens (Argument.lifetimeTokens as ++ Argument.otherTokens as)
        (trailingArgument as trailing) ++
      Token.operator ">"
  | .called is trailing out =>
    Token.parens (commaTokens (Ty.listTokens is) trailing) ++ Ty.outputTokens out

def Argument.tokens : Argument → List Token
  | .lifetime n => [.lifetime n]
  | .type t => t.tokens
  | .constant v => v.tokens
  | .assignment o t => o.tokens ++ Token.operator "=" ++ t.tokens
  | .constantAssignment o v => o.tokens ++ Token.operator "=" ++ v.tokens
  | .constraint o bs trailing =>
    o.tokens ++ Token.operator ":" ++ separated plus (Bound.listTokens bs) ++
      (if trailing then plus else [])

def Input.tokens : Input → List Token
  | .mk attrs label t =>
    Attribute.allTokens attrs ++
      (match label with | some n => .ident n :: Token.operator ":" | none => []) ++ t.tokens

def Bound.tokens : Bound → List Token
  | .trait paren ls m rooted ss =>
    let body := ls.tokens ++ (match m with | .plain => [] | .optional => Token.operator "?") ++
      rootTokens rooted ++ separated pathMark (Segment.listTokens ss)
    if paren then Token.parens body else body
  | .lifetime n => [.lifetime n]
  | .other code => code.tokens

def Ty.outputTokens : Option Ty → List Token
  | none => []
  | some t => Token.operator "->" ++ t.tokens

def Ty.listTokens : List Ty → List (List Token)
  | [] => []
  | t :: ts => t.tokens :: Ty.listTokens ts

def Segment.listTokens : List Segment → List (List Token)
  | [] => []
  | s :: ss => s.tokens :: Segment.listTokens ss

def Argument.lifetimeTokens : List Argument → List (List Token)
  | [] => []
  | a :: as =>
    if a.isLifetime then a.tokens :: Argument.lifetimeTokens as else Argument.lifetimeTokens as

def Argument.otherTokens : List Argument → List (List Token)
  | [] => []
  | a :: as =>
    if a.isLifetime then Argument.otherTokens as else a.tokens :: Argument.otherTokens as

def Input.listTokens : List Input → List (List Token)
  | [] => []
  | i :: is => i.tokens :: Input.listTokens is

def Bound.listTokens : List Bound → List (List Token)
  | [] => []
  | b :: bs => b.tokens :: Bound.listTokens bs

end

/-! ### Layout -/

/-- Laid out items with commas, in a box of their own. -/
def commaLayout (ls : List Layout) : Layout := Layout.commaBox id ls

/-- Bounds after a colon: the line may end before each plus sign. -/
def boundLayout (ls : List Layout) : Layout :=
  Layout.ibox indentation
    (match ls with
    | [] => []
    | l :: ls => Layout.word ": " ++ l ++ ls.flatMap fun m => Layout.space ++ Layout.word "+ " ++ m)

def rootLayout (rooted : Bool) : Layout := if rooted then Layout.word "::" else []

/-- Laid out items with a text between neighbours. -/
def joinLayout (mark : String) : List Layout → Layout
  | [] => []
  | [l] => l
  | l :: ls => l ++ Layout.word mark ++ joinLayout mark ls

mutual

def Ty.layout : Ty → Layout
  | .slice e => Layout.word "[" ++ e.layout ++ Layout.word "]"
  | .array e n => Layout.word "[" ++ e.layout ++ Layout.word "; " ++ n.layout ++ Layout.word "]"
  | .reference l m t =>
    Layout.word "&" ++ (match l with | some n => Layout.word n ++ Layout.word " " | none => []) ++
      (if m then Layout.word "mut " else []) ++ t.layout
  | .pointer m t => Layout.word (if m then "*mut " else "*const ") ++ t.layout
  | .parenthesized t => Layout.word "(" ++ t.layout ++ Layout.word ")"
  | .tuple es _ =>
    match es with
    | [e] =>
      Layout.word "(" ++ Layout.cbox indentation
        (Layout.cut ++ e.layout ++ Layout.word "," ++ Layout.shiftLast (-indentation) Layout.cut) ++
        Layout.word ")"
    | es => Layout.word "(" ++ commaLayout (Ty.listLayout es) ++ Layout.word ")"
  | .path rooted ss => rootLayout rooted ++ joinLayout "::" (Segment.listLayout .type ss)
  | .qualified o position rooted ss =>
    let segments := Segment.listLayout .type ss
    Layout.word "<" ++ o.layout ++
      (if position == 0 then []
        else Layout.word " as " ++ rootLayout rooted ++ joinLayout "::" (segments.take position)) ++
      Layout.word ">" ++
      (segments.drop position).flatMap fun s => Layout.word "::" ++ s
  | .function head is _ variadic out =>
    let inputs := Input.listLayout is
    head.layout ++ Layout.word "(" ++
      Layout.cbox indentation
        (Layout.shiftLast (-indentation)
          (Layout.cut ++
            Layout.items (fun l last => l ++ Layout.commaAfter (last && variadic.isNone)) inputs ++
            (match variadic with | some v => v.layout ++ Layout.cut | none => []))) ++
      Layout.word ")" ++ Ty.outputLayout out
  | .traitObject _ bs _ => Layout.word "dyn " ++ joinLayout " + " (Bound.listLayout bs)
  | .implementer bs _ => Layout.word "impl " ++ joinLayout " + " (Bound.listLayout bs)
  | .inferred => Layout.word "_"
  | .never => Layout.word "!"
  | .code code => code.layout

def Segment.layout (style : PathStyle) : Segment → Layout
  | .mk n a => Layout.word n ++ a.layout style

def Arguments.layout (style : PathStyle) : Arguments → Layout
  | .none => []
  | .angled _ as _ =>
    if as.isEmpty || style == .plain then []
    else
      Layout.word (if style == .expression then "::<" else "<") ++
        commaLayout (Argument.lifetimeLayout as ++ Argument.otherLayout as) ++ Layout.word ">"
  | .called is _ out =>
    Layout.cbox indentation
      (Layout.word "(" ++
        Layout.shiftLast (-indentation)
          (Layout.cut ++
            Layout.items (fun l last => l ++ Layout.commaAfter last) (Ty.listLayout is)) ++
        Layout.word ")" ++ Ty.outputLayout out)

def Argument.layout : Argument → Layout
  | .lifetime n => Layout.word n
  | .type t => t.layout
  | .constant v => v.layout
  | .assignment o t => o.layout .type ++ Layout.word " = " ++ t.layout
  | .constantAssignment o v => o.layout .type ++ Layout.word " = " ++ v.layout
  | .constraint o bs _ => o.layout .type ++ boundLayout (Bound.listLayout bs)

def Input.layout : Input → Layout
  | .mk attrs label t =>
    Attribute.outerLayout attrs ++
      (match label with | some n => Layout.word n ++ Layout.word ": " | none => []) ++ t.layout

def Bound.layout : Bound → Layout
  | .trait paren ls m rooted ss =>
    let body := ls.layout ++ (match m with | .plain => [] | .optional => Layout.word "?") ++
      rootLayout rooted ++ joinLayout "::" (Segment.listLayout .type ss)
    if paren then Layout.word "(" ++ body ++ Layout.word ")" else body
  | .lifetime n => Layout.word n
  | .other code => code.layout

def Ty.outputLayout : Option Ty → Layout
  | none => []
  | some t => Layout.word " -> " ++ t.layout

def Ty.listLayout : List Ty → List Layout
  | [] => []
  | t :: ts => t.layout :: Ty.listLayout ts

def Segment.listLayout (style : PathStyle) : List Segment → List Layout
  | [] => []
  | s :: ss => s.layout style :: Segment.listLayout style ss

def Argument.lifetimeLayout : List Argument → List Layout
  | [] => []
  | a :: as =>
    if a.isLifetime then a.layout :: Argument.lifetimeLayout as else Argument.lifetimeLayout as

def Argument.otherLayout : List Argument → List Layout
  | [] => []
  | a :: as =>
    if a.isLifetime then Argument.otherLayout as else a.layout :: Argument.otherLayout as

def Input.listLayout : List Input → List Layout
  | [] => []
  | i :: is => i.layout :: Input.listLayout is

def Bound.listLayout : List Bound → List Layout
  | [] => []
  | b :: bs => b.layout :: Bound.listLayout bs

end

/-- A path, possibly into a type. -/
structure Path where
  /-- The type a path leads into, with the number of segments that name a trait. -/
  owner : Option (Ty × Nat)
  rooted : Bool
  segments : List Segment
  deriving Inhabited

namespace Path

def toTy (p : Path) : Ty :=
  match p.owner with
  | some (o, position) => .qualified o position p.rooted p.segments
  | none => .path p.rooted p.segments

def tokens (p : Path) : List Token := p.toTy.tokens

/-- The layout of a path outside types. -/
def layout (style : PathStyle) (p : Path) : Layout :=
  let segments := Segment.listLayout style p.segments
  match p.owner with
  | none => rootLayout p.rooted ++ joinLayout "::" segments
  | some (o, position) =>
    let named := Segment.listLayout .type (p.segments.take position)
    Layout.word "<" ++ o.layout ++
      (if position == 0 then []
        else Layout.word " as " ++ rootLayout p.rooted ++ joinLayout "::" named) ++
      Layout.word ">" ++ (segments.drop position).flatMap fun s => Layout.word "::" ++ s

def isNone : Arguments → Bool
  | .none => true
  | _ => false

/-- Whether no segment has arguments. -/
def isPlain (p : Path) : Bool := p.segments.all (isNone ·.arguments)

/-- A path of a single word without arguments. -/
def name? (p : Path) : Option String :=
  match p.owner, p.rooted, p.segments with
  | none, false, [.mk n .none] => some n
  | _, _, _ => none

def snippet (style : PathStyle) (p : Path) : Snippet := ⟨p.tokens, p.layout style⟩

end Path
end RecordStore
