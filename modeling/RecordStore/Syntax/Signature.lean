import RecordStore.Syntax.Pattern

/-!
Generic parameters, `where` clauses and function signatures.
-/
namespace RecordStore

open Layout (word space cut line noCut cbox ibox shiftLast commaAfter)

/-- Generic parameters and the conditions upon them. -/
structure Generics where
  lifetimes : List Snippet
  /-- Types and constants; they follow the lifetimes. -/
  others : List Snippet
  /-- Whether a comma ends them: one does when it is written there, or when a lifetime that moves
  leaves its comma behind. -/
  trailing : Bool
  conditions : List Snippet
  trailingCondition : Bool
  deriving Inhabited

namespace Generics

def none : Generics := ⟨[], [], false, [], false⟩

def params (g : Generics) : List Snippet := g.lifetimes ++ g.others

def isEmpty (g : Generics) : Bool := g.params.isEmpty

/-- Empty angle brackets are left out. -/
def tokens (g : Generics) : List Token :=
  if g.isEmpty then []
  else
    Token.operator "<" ++ commaTokens (g.params.map Snippet.tokens) g.trailing ++ Token.operator ">"

def layout (g : Generics) : Layout :=
  if g.isEmpty then []
  else
    word "<" ++
      cbox 0
        (shiftLast (-indentation)
          (cut ++ Layout.items (fun p last => p.layout ++ commaAfter last) g.params)) ++
      word ">"

def whereTokens (g : Generics) : List Token :=
  if g.conditions.isEmpty then []
  else .ident "where" :: commaTokens (g.conditions.map Snippet.tokens) g.trailingCondition

/-- The conditions before a body in braces, or a blank when there are none. -/
def whereBody (g : Generics) : Layout :=
  if g.conditions.isEmpty then word " "
  else
    shiftLast (-indentation) line ++ word "where" ++
      shiftLast (-indentation)
        (line ++ g.conditions.flatMap fun c => c.layout ++ word "," ++ line)

/-- The conditions at the end of an item without a body. -/
def whereEnd (g : Generics) : Layout :=
  if g.conditions.isEmpty then word ";"
  else
    shiftLast (-indentation) line ++ word "where" ++ line ++
      Layout.items (fun c last => c.layout ++ if last then word ";" else word "," ++ line)
        g.conditions

/-- The conditions on the line of what they belong to. -/
def whereLine (g : Generics) : Layout :=
  if g.conditions.isEmpty then word " "
  else
    shiftLast (-indentation) space ++ word "where" ++
      shiftLast (-indentation)
        (space ++
          Layout.items (fun c last => c.layout ++ Layout.commaOrSpaceAfter last) g.conditions)

/-- The conditions on the line that ends with them. -/
def whereLineEnd (g : Generics) : Layout :=
  if g.conditions.isEmpty then word ";"
  else
    shiftLast (-indentation) space ++ word "where" ++ space ++
      Layout.items
        (fun c last => c.layout ++ if last then word ";" else Layout.commaOrSpaceAfter false)
        g.conditions

end Generics

/-- How a method takes the value it is called on. -/
structure Receiver where
  attributes : List Attribute
  /-- By reference, perhaps with a lifetime. -/
  reference : Option (Option String)
  mutable : Bool
  ty : Option Ty

namespace Receiver

def tokens (r : Receiver) : List Token :=
  Attribute.allTokens r.attributes ++
    (match r.reference with
    | some l => Token.operator "&" ++ (match l with | some n => [.lifetime n] | none => [])
    | none => []) ++
    mutabilityTokens r.mutable ++ [.ident "self"] ++
    (match r.ty with | some t => Token.operator ":" ++ t.tokens | none => [])

def layout (r : Receiver) : Layout :=
  Attribute.outerLayout r.attributes ++
    (match r.reference with
    | some l => word "&" ++ (match l with | some n => word (n ++ " ") | none => [])
    | none => []) ++
    (if r.mutable then word "mut " else []) ++ word "self" ++
    (match r.ty with | some t => word ": " ++ t.layout | none => [])

end Receiver

/-- An input of a function. -/
inductive Parameter where
  | receiver (r : Receiver)
  | typed (attributes : List Attribute) (pattern : Pattern) (ty : Ty)

namespace Parameter

def tokens : Parameter → List Token
  | receiver r => r.tokens
  | typed attrs p ty =>
    Attribute.allTokens attrs ++ p.tokens ++ Token.operator ":" ++ ty.tokens

def layout : Parameter → Layout
  | receiver r => r.layout
  | typed attrs p ty => Attribute.outerLayout attrs ++ p.layout ++ word ": " ++ ty.layout

def isReceiver : Parameter → Bool
  | receiver _ => true
  | typed _ _ _ => false

end Parameter

/-- What stands before the body of a function. -/
structure Signature where
  /-- Words before `fn`. -/
  qualifiers : Snippet
  name : String
  generics : Generics
  inputs : List Parameter
  trailing : Bool
  variadic : Option Snippet
  output : Option Ty

namespace Signature

def tokens (s : Signature) : List Token :=
  let dots := match s.variadic with
    | some v => (if s.inputs.isEmpty || s.trailing then [] else comma) ++ v.tokens
    | none => []
  s.qualifiers.tokens ++ [.ident "fn", .ident s.name] ++ s.generics.tokens ++
    Token.parens (commaTokens (s.inputs.map Parameter.tokens) s.trailing ++ dots) ++
    Ty.outputTokens s.output ++ s.generics.whereTokens

/-- The layout without the conditions, which what follows decides about. -/
def layout (s : Signature) : Layout :=
  s.qualifiers.layout ++ word "fn " ++ word s.name ++ s.generics.layout ++ word "(" ++ noCut ++
    cbox 0
      (shiftLast (-indentation)
        (cut ++
          Layout.items (fun p last => p.layout ++ commaAfter (last && s.variadic.isNone))
            s.inputs ++
          (match s.variadic with | some v => v.layout ++ cut | none => []))) ++
    word ")" ++ cbox (-indentation) (Ty.outputLayout s.output)

end Signature
end RecordStore
