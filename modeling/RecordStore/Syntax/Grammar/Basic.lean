import RecordStore.Syntax.Item
import RecordStore.Syntax.Parser

/-!
The grammar of source text, one parser for each kind of phrase that can contain itself. What a
phrase is made of is parsed by the grammar of the next smaller depth, so every phrase is read by
ordinary functions; a text of `n` tokens nests no deeper than a small multiple of `n`.
-/
namespace RecordStore

structure Grammar where
  /-- A type; the flag allows bounds joined by plus signs. -/
  ty : (bounds : Bool) → Parser Ty
  /-- A bound; the flags allow precise captures and constant traits. -/
  bound : (captures constants : Bool) → Parser Bound
  /-- An expression; the flag allows record expressions. -/
  expr : (records : Bool) → Parser Expr
  /-- An expression at the start of a statement or of an arm's body. -/
  early : Parser Expr
  /-- An operand with the operators before it. -/
  operand : (records : Bool) → Parser Expr
  /-- Go on from a left operand with operators that bind at least as tightly. -/
  climb : (records : Bool) → (precedence : Nat) → Expr → Parser Expr
  pattern : Parser Pattern
  block : Parser Block
  item : Parser Item
  useTree : (anyRoot : Bool) → Parser (Option UseTree)

namespace Grammar

open RecordStore.Parser

/-- No phrase at all. -/
def empty : Grammar where
  ty _ := Parser.fail
  bound _ _ := Parser.fail
  expr _ := Parser.fail
  early := Parser.fail
  operand _ := Parser.fail
  climb _ _ _ := Parser.fail
  pattern := Parser.fail
  block := Parser.fail
  item := Parser.fail
  useTree _ := Parser.fail

/-! ### Paths of words -/

/-- Words that lead a path without being names. -/
def seesRoot : Parser Bool := do
  return (← sees "super") || (← sees "self") || (← sees "crate")

def pathWord : Parser String := do
  require ((← seesName) || (← seesRoot) || (← sees "Self"))
  anyWord

/-- A path of words, as attributes and macros are named. -/
def wordPath : Parser Path := do
  let rooted ← op? "::"
  let first ← pathWord
  let more ← whileSees (seesOp "::") (do op "::"; pathWord)
  return ⟨none, rooted, (first :: more).map (Segment.mk · .none)⟩

/-! ### Attributes -/

variable (g : Grammar)

/-- Whether a literal ends where the brackets of an attribute do. -/
def literalEnds (ts : List Token) : Bool :=
  match literalAhead ts, ts with
  | true, .punct _ _ :: _ :: rest => rest.head?.all isClosing
  | true, _ :: rest => rest.head?.all isClosing
  | _, _ => false

def seesWholeLiteral : Parser Bool := return literalEnds (← ahead)

def attributeValue : Parser AttributeValue := do
  if (← next?).any fun t => t matches .opening _ then
    let (d, ts) ← anyGroup
    return .list d ts
  else if ← op? "=" then
    if ← seesWholeLiteral then
      let lit ← literal
      let text := match lit with
        | [.literal t] => Literal.stringValue? t
        | _ => none
      return .value text (Expr.ofLiteral lit).snippet
    else
      require (!(← seesOp "#"))
      let e ← g.expr true
      return .value none e.snippet
  else return .none

/-- What stands in the brackets of an attribute. -/
def attributeBody (inner : Bool) : Parser Attribute := do
  let path ← if ← word? "unsafe" then pure ⟨none, false, [Segment.mk "unsafe" .none]⟩ else wordPath
  let value ← attributeValue g
  return ⟨inner, path.snippet .plain, value⟩

def attributes : Parser (List Attribute) :=
  whileSees (return (← seesOp "#") && !(← seesOpAt 1 "!")) do
    op "#"
    delimited .bracket (attributeBody g false)

def innerAttributes : Parser (List Attribute) :=
  whileSees (return (← seesOp "#") && (← seesOpAt 1 "!") && (← seesOpenAt 2 .bracket)) do
    op "#"
    op "!"
    delimited .bracket (attributeBody g true)

/-- The restriction between parentheses, if there is one: a path, or a single word. -/
inductive Restriction where
  | word
  | path

/-- A restriction is read only where it cannot be a tuple's type. -/
def restriction? : List Token → Option Restriction
  | .opening _ :: .ident w :: .closing _ :: _ =>
    if ["crate", "self", "super"].contains w then some .word else none
  | .opening _ :: .ident "in" :: _ => some .path
  | _ => none

def seesRestriction : Parser (Option Restriction) := return restriction? (← ahead)

/-- Who may use what follows. -/
def visibility : Parser Visibility := do
  if !(← word? "pub") then return .inherited
  if ← seesOpen .parenthesis then
    match ← seesRestriction with
    | some .word =>
      let n ← delimited .parenthesis anyWord
      return .restricted false ⟨none, false, [Segment.mk n .none]⟩
    | some .path =>
      let p ← delimited .parenthesis (do word "in"; wordPath)
      return .restricted true p
    | none => return .everyone
  else return .everyone

end Grammar
end RecordStore
