import RecordStore.Syntax.Grammar.Expressions

/-!
How statements and blocks are read.
-/
namespace RecordStore.Grammar

open RecordStore.Parser

variable (g : Grammar)

/-- A binding, with a block for what does not match; the block cannot follow a closing brace. -/
def binding (attrs : List Attribute) : Parser Stmt := do
  word "let"
  let p ← g.pattern
  let p ← if ← op? ":" then p.typed <$> g.ty true else pure p
  let value ← optional? (seesOp "=") (do op "="; g.expr true)
  let otherwise ←
    optional? (return value.any (!·.endsInBrace) && (← sees "else")) (do word "else"; plainBlock g)
  op ";"
  return .binding attrs p.snippet value otherwise

/-- Whether an item starts here, given whether a macro definition does. -/
def seesItem : Parser Bool := do
  let closureStart := (← seesAt 1 "async") && ((← seesAt 2 "move") || (← seesOpAt 2 "|"))
  let functionStart (n : Nat) : Parser Bool :=
    return (← seesAt n "unsafe") || (← seesAt n "extern") || (← seesAt n "fn")
  if ← sees "crate" then return !(← seesOpAt 1 "::")
  if ← sees "static" then
    return (← seesAt 1 "mut") || ((← seesNameAt 1) && !closureStart)
  if ← sees "const" then
    return !((← seesOpenAt 1 .brace) || (← seesAt 1 "static") ||
      ((← seesAt 1 "async") && !(← functionStart 2)) || (← seesAt 1 "move") || (← seesOpAt 1 "|"))
  if ← sees "unsafe" then return !(← seesOpenAt 1 .brace)
  if ← sees "async" then functionStart 1
  else if ← sees "union" then return ← seesNameAt 1
  else if ← sees "auto" then return ← seesAt 1 "trait"
  else if ← sees "default" then return (← seesAt 1 "unsafe") || (← seesAt 1 "impl")
  else
    return (← next?).any fun t =>
      ["pub", "extern", "use", "fn", "mod", "type", "struct", "enum", "trait", "impl", "macro"].any
        (wordIs · (some t))

/-- What a macro call at the start of a statement is. -/
inductive Call where
  | none
  | item
  | braced

/-- What a macro call is by what follows its name. Braces end a statement unless a dot or a question
mark follows. -/
def callKind : Parser Call := do
  let _ ← wordPath
  op "!"
  if (← seesName) || (← sees "try") then return .item
  else if ← seesOpen .brace then
    let _ ← anyGroup
    return if (← seesDot) || (← seesOp "?") then .none else .braced
  else return .none

def callAhead : Parser Call := return (← lookahead callKind).getD .none

def bracedCall (attrs : List Attribute) : Parser Stmt := do
  let p ← wordPath
  op "!"
  let (d, body) ← anyGroup
  return .ofMacro attrs p d body (← op? ";")

/-- An expression as a whole after attributes, up to the tokens in `left`. -/
def attributedExpr (left : List Token) : Parser Expr := do
  let attrs ← attributes g
  let e ← g.early
  require ((← ahead).length == left.length)
  return e.withAttributes attrs

/-- An expression with the attributes of a statement. They belong to the operand that they stand
before, but to a range as a whole; it ends at the same place either way. -/
def exprOfStmt : Parser Expr := do
  let start ← ahead
  let attributed ← seesOp "#"
  let e ← g.early
  if attributed && e.form == .range then
    let left ← ahead
    set start
    attributedExpr g left
  else return e

/-- A macro call that stands alone, read as a statement of its own. -/
def callStmt (semicolon : Bool) : Parser Stmt := do
  let attrs ← attributes g
  let p ← wordPath
  op "!"
  let (d, body) ← anyGroup
  return .ofMacro attrs p d body semicolon

/-- An expression as a statement. Macro calls that stand alone are statements of their own. -/
def standing (e : Expr) (semicolon : Bool) (call : Option Stmt) : Stmt :=
  match e.form, call with
  | .invocation d, some s => if semicolon || d == .brace then s else .ofExpr e semicolon
  | _, _ => .ofExpr e semicolon

def exprStmt : Parser Stmt := do
  let start ← ahead
  let e ← exprOfStmt g
  let semicolon ← op? ";"
  return standing e semicolon (((callStmt g semicolon).run start).map Prod.fst)

def itemStmt : Parser Stmt := do return .ofItem (← g.item)

/-- What a statement is by what follows its attributes. -/
inductive StatementKind where
  | call
  | binding
  | item
  | expr

def statementKind : Parser StatementKind := do
  match ← callAhead with
  | .braced => return .call
  | .item => return .item
  | .none =>
    if ← sees "let" then return .binding
    else if ← seesItem then return .item
    else return .expr

/-- Items and expressions are read with their attributes. -/
def statement : Parser Stmt := do
  let start ← ahead
  let attrs ← attributes g
  match ← statementKind with
  | .call => bracedCall attrs
  | .binding => binding g attrs
  | .item =>
    set start
    itemStmt g
  | .expr =>
    set start
    exprStmt g

/-- Statements up to the end of the group. -/
def statements : Parser (List Stmt) :=
  whileSees (return !(← atEnd)) do
    if ← op? ";" then return .empty
    let s ← statement g
    require (!s.needsSemicolon || (← atEnd))
    return s

def blockBody : Parser Block :=
  delimited .brace do
    let inner ← innerAttributes g
    return ⟨inner, ← statements g⟩

end RecordStore.Grammar
