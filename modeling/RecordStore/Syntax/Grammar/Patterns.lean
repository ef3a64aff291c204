import RecordStore.Syntax.Grammar.Types

/-!
How patterns are read.
-/
namespace RecordStore.Grammar

open RecordStore.Parser

variable (g : Grammar)

def constBlock : Parser Expr := do
  word "const"
  return .wordedBlock .constBlock ["const"] (← g.block)

/-- A position among fields: a whole number without a suffix, below two to the power of 32. -/
def positionOf (text : String) : Option Token :=
  match Literal.wholeNumber? text with
  | some (n, suffix) =>
    if suffix.isEmpty && n < 0x100000000 then some (.literal (toString n)) else none
  | none => none

def position : Parser Token := do
  match ← take with
  | .literal text => StateT.lift (positionOf text)
  | _ => Parser.fail

def isPosition : Token → Bool
  | .literal _ => true
  | _ => false

/-- A field's name or position. -/
def member : Parser Token := do
  if ← seesName then return .ident (← name) else position

/-! ### Ranges -/

/-- The end of a range pattern, where one can follow. -/
def rangeBound : Parser (Option (PatternForm × Expr)) := do
  if (← atEnd) || (← seesOp "|") || (← seesOp "=") || ((← seesOp ":") && !(← seesOp "::")) ||
      (← seesOp ",") || (← seesOp ";") || (← sees "if") then
    return none
  if ← seesLiteral then return some (.literal, .ofLiteral (← literal))
  else if ← seesPath then return some (.other, .ofPath (← path g true))
  else if ← sees "const" then return some (.other, ← constBlock g)
  else Parser.fail

/-- The dots of a range; three of them count as an inclusive range. -/
def rangeMark : Parser String := do
  if (← op? "..=") || (← op? "...") then return "..="
  else
    op ".."
    return ".."

def rangeFrom (first : Expr) : Parser Pattern := do
  let mark ← rangeMark
  let last ← rangeBound g
  require (mark == ".." || last.isSome)
  return .range (some first) mark (last.map Prod.snd)

/-- Two dots alone, or a range without a start. -/
def leadingRange : Parser Pattern := do
  require !(← seesOp "...")
  let mark ← rangeMark
  match ← rangeBound g with
  | some (_, last) => return .range none mark (some last)
  | none =>
    require (mark == "..")
    return .rest

def literalPattern : Parser Pattern := do
  match ← rangeBound g with
  | some (form, first) =>
    if ← seesOp ".." then rangeFrom g first else return .ofExpr form first
  | none => Parser.fail

/-! ### Names and what they hold -/

def alternativesFrom (leading : Bool) : Parser Pattern := do
  let bar : Parser Bool := return (← seesOp "|") && !(← seesOp "||") && !(← seesOp "|=")
  let first ← g.pattern
  if leading || (← bar) then
    let more ← whileSees bar (do op "|"; g.pattern)
    return .alternatives leading (first :: more)
  else return first

/-- Alternatives with bars between them, and perhaps one before the first. -/
def alternatives : Parser Pattern := do alternativesFrom g (← op? "|")

def namePattern : Parser Pattern := do
  let byReference ← word? "ref"
  let mutable ← word? "mut"
  let n ← if ← sees "self" then anyWord else name
  let inside ← optional? (seesOp "@") (do op "@"; g.pattern)
  return .name byReference mutable n inside

/-- A pattern for what a box holds. -/
def boxPattern (p : Parser Unit) : Parser Pattern := do
  let (_, tokens) ← withTokens (do word "box"; p)
  return .boxed tokens

def fieldPattern (attrs : List Attribute) : Parser Pattern.Field := do
  if ← sees "box" then
    let p ← boxPattern do
      let _ ← word? "ref"
      let _ ← word? "mut"
      let _ ← name
    return ⟨attrs, none, p⟩
  let byReference ← word? "ref"
  let mutable ← word? "mut"
  if byReference || mutable then
    return ⟨attrs, none, .name byReference mutable (← name) none⟩
  let m ← member
  if isPosition m || (← seesOp ":") then
    op ":"
    return ⟨attrs, some m, ← alternatives g⟩
  else return ⟨attrs, none, .name false false m.text none⟩

/-- The fields of a record pattern, and the attributes of two dots after them. -/
def recordFields : Parser (List Pattern.Field × Bool × Option (List Attribute)) := do
  let rec go : List Token → Parser (List Pattern.Field × Bool × Option (List Attribute))
    | [] => Parser.fail
    | _ :: n => do
      if ← atEnd then return ([], true, none)
      let attrs ← attributes g
      if ← op? ".." then return ([], true, some attrs)
      let f ← fieldPattern g attrs
      if ← atEnd then return ([f], false, none)
      op ","
      let (fs, trailing, others) ← go n
      return (f :: fs, trailing, others)
  let (fs, trailing, others) ← go (← rounds)
  return (fs, trailing && !fs.isEmpty, others)

/-- A path alone, or a call, record, tuple or range that it starts. -/
def pathPattern : Parser Pattern := do
  let p ← path g true
  if p.owner.isNone && p.isPlain && (← seesBang) then
    return .ofExpr .other (← macroCall p)
  if ← seesOpen .brace then
    let (fs, trailing, others) ← delimited .brace (recordFields g)
    return .record p fs trailing others
  else if ← seesOpen .parenthesis then
    let (ps, trailing) ← delimited .parenthesis (commaList (alternatives g))
    return .tupleOf p ps trailing
  else if ← seesOp ".." then rangeFrom g (.ofPath p)
  else return .ofExpr .other (.ofPath p)

def parenthesizedPattern : Parser Pattern := do
  let (ps, trailing) ← delimited .parenthesis (commaList (alternatives g))
  match ps, trailing with
  | [p], false => return if p.form == .rest then .tuple ps trailing else .parenthesized p
  | _, _ => return .tuple ps trailing

def slicePattern : Parser Pattern := do
  let (ps, trailing) ← delimited .bracket (commaList (alternatives g))
  require (ps.all (·.form != .openRange))
  return .slice ps trailing

/-- Whether a path starts here that is no plain name. -/
def seesPathPattern : Parser Bool := do
  let marks := (← seesOpAt 1 "::") || (← seesOpAt 1 "!") || (← seesOpenAt 1 .brace) ||
    (← seesOpenAt 1 .parenthesis) || (← seesOpAt 1 "..")
  return ((← seesName) && marks) || ((← sees "self") && (← seesOpAt 1 "::")) || (← seesOp "::") ||
    (← seesOp "<") || (← sees "Self") || (← sees "super") || (← sees "crate")

/-- A pattern without alternatives. -/
def patternBody : Parser Pattern := do
  if ← seesPathPattern then pathPattern g
  else if ← word? "_" then return .wildcard
  else if ← sees "box" then boxPattern (do let _ ← g.pattern)
  else if (← seesOp "-") || (← seesLiteral) || (← sees "const") then literalPattern g
  else if (← sees "ref") || (← sees "mut") || (← sees "self") || (← seesName) then namePattern g
  else if ← op? "&" then
    let mutable ← word? "mut"
    return .reference mutable (← g.pattern)
  else if ← seesOpen .parenthesis then parenthesizedPattern g
  else if ← seesOpen .bracket then slicePattern g
  else if ← seesOp ".." then leadingRange g
  else Parser.fail

end RecordStore.Grammar
