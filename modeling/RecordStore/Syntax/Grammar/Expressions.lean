import RecordStore.Syntax.Grammar.Patterns

/-!
How expressions are read. Operators of higher precedence bind their operands first; operators of
one precedence group to the left, assignments to the right.
-/
namespace RecordStore.Grammar

open RecordStore.Parser

variable (g : Grammar)

/-! ### Precedence -/

namespace Precedence

def least : Nat := 0
def assign : Nat := 1
def range : Nat := 2
def compare : Nat := 6
def cast : Nat := 13

/-- Operators with their precedence; a longer one stands before those it starts with. -/
def table : List (String × Nat) :=
  [("<<=", 1), (">>=", 1), ("+=", 1), ("-=", 1), ("*=", 1), ("/=", 1), ("%=", 1), ("^=", 1),
   ("&=", 1), ("|=", 1), ("&&", 4), ("||", 3), ("<<", 10), (">>", 10), ("==", 6), ("<=", 6),
   ("!=", 6), (">=", 6), ("+", 11), ("-", 11), ("*", 12), ("/", 12), ("%", 12), ("^", 8), ("&", 9),
   ("|", 7), ("<", 6), (">", 6)]

end Precedence

/-- The binary operator ahead, assignment apart. -/
def binaryAhead : Parser (Option (String × Nat)) := do
  let ts ← ahead
  return Precedence.table.find? fun (marks, _) => (afterOperator marks.toList ts).isSome

def seesAssign : Parser Bool := return (← seesOp "=") && !(← seesOp "=>") && !(← seesOp "==")

/-- The precedence of what follows an operand. -/
def nextPrecedence : Parser Nat := do
  match ← binaryAhead with
  | some (_, p) => return p
  | none =>
    if ← seesAssign then return Precedence.assign
    else if ← seesOp ".." then return Precedence.range
    else if ← sees "as" then return Precedence.cast
    else return Precedence.least

/-- A dot that starts no range. -/
def seesDot : Parser Bool := return (← seesOp ".") && !(← seesOp "..")

/-! ### Operators -/

/-- The right operand of an operator: everything that binds more tightly belongs to it. -/
def rightOperand (records : Bool) (precedence : Nat) : Parser Expr := do
  let rec go : List Token → Expr → Parser Expr
    | [], _ => Parser.fail
    | _ :: n, e => do
      let next ← nextPrecedence
      if e.form != .range &&
          (next > precedence || (next == precedence && precedence == Precedence.assign)) then
        go n (← g.climb records next e)
      else return e
  go (← rounds) (← g.operand records)

def anySees (marks : List String) : Parser Bool := do
  let ts ← ahead
  return marks.any fun m => (afterOperator m.toList ts).isSome

/-- Whether a range ends here without a bound. -/
def seesRangeEnd (records : Bool) : Parser Bool := do
  return (← atEnd) ||
    (← anySees
      [",", ";", "?", "=>", "=", "+", "/", "%", "^", ">", "<=", "!=", "-=", "*=", "&=", "|=",
       "<<="]) ||
    (← seesDot) || (!records && (← seesOpen .brace)) || (← sees "as")

def expressionRange (records : Bool) (first : Option Expr) : Parser Expr := do
  if ← op? "..=" then return .range first "..=" (some (← rightOperand g records Precedence.range))
  require !(← seesOp "...")
  op ".."
  if ← seesRangeEnd records then return .range first ".." none
  else return .range first ".." (some (← rightOperand g records Precedence.range))

def isComparison (e : Expr) : Bool := e.form == .binary true false

/-- Further operators after a left operand, as long as they bind as tightly as `base`. A range
takes no further operator, and comparisons do not follow each other. -/
def climbBody (records : Bool) (base : Nat) (left : Expr) : Parser Expr := do
  let rec go : List Token → Expr → Parser Expr
    | [], _ => Parser.fail
    | _ :: n, left => do
      if left.form == .range then return left
      match ← binaryAhead with
      | some (marks, p) =>
        if p < base then return left
        require !(p == Precedence.compare && isComparison left)
        op marks
        go n (.binary left marks (← rightOperand g records p))
      | none =>
        if base ≤ Precedence.assign && (← seesAssign) then
          op "="
          go n (.assignment left (← rightOperand g records Precedence.assign))
        else if base ≤ Precedence.range && (← seesOp "..") then
          go n (← expressionRange g records (some left))
        else if base ≤ Precedence.cast && (← sees "as") then
          word "as"
          let ty ← g.ty false
          require !((← seesDot) || (← seesOp "?") || (← seesOpen .bracket) ||
            (← seesOpen .parenthesis))
          go n (.cast left ty)
        else return left
  go (← rounds) left

/-! ### Operands -/

def arguments : Parser (List Expr × Bool) := delimited .parenthesis (commaList (g.expr true))

/-- Positions joined by dots, as a number with a fraction writes them; the flag tells whether a dot
follows the last one. -/
def joinedPositions (text : String) : Option (List Token × Bool) := do
  let parts := text.splitOn "."
  let (parts, open?) :=
    if parts.getLast? == some "" then (parts.dropLast, true) else (parts, false)
  return (← parts.mapM positionOf, open?)

/-- A field or method after a dot. -/
def memberOf (e : Expr) : Parser Expr := do
  if ← word? "await" then return .awaiting e
  let m ← member
  let turbofish ←
    if !isPosition m && (← seesOp "::") then
      require (← seesOpAt 2 "<")
      angled g
    else pure .none
  if !isPosition m && (!Path.isNone turbofish || (← seesOpen .parenthesis)) then
    let (args, trailing) ← arguments g
    return .methodCall e m.text turbofish args trailing
  else return .field e m

def afterDot (e : Expr) : Parser Expr := do
  op "."
  match ← next? with
  | some (.literal text) =>
    match joinedPositions text with
    | some (positions, open?) =>
      let _ ← take
      let e := positions.foldl Expr.field e
      if open? then memberOf g e else return e
    | none => memberOf g e
  | _ => memberOf g e

/-- Calls, fields, methods, indices and question marks after an operand. -/
def trailers (e : Expr) : Parser Expr := do
  let rec go : List Token → Expr → Parser Expr
    | [], _ => Parser.fail
    | _ :: n, e => do
      if ← seesOpen .parenthesis then
        let (args, trailing) ← arguments g
        go n (.call e args trailing)
      else if (← seesDot) && e.form != .range then go n (← afterDot g e)
      else if ← seesOpen .bracket then go n (.index e (← delimited .bracket (g.expr true)))
      else if (← seesOp "?") && e.form != .range then
        op "?"
        go n (.attempt e)
      else return e
  go (← rounds) e

/-! ### Blocks and control flow -/

/-- A block without attributes inside. -/
def plainBlock : Parser Block := do
  let b ← g.block
  require b.inner.isEmpty
  return b

/-- An expression before a block, where braces start no record. -/
def conditionExpr : Parser Expr := g.expr false

/-- Branches after a first one, and the last block. -/
def otherBranches : Parser (List (Expr × Block) × Option Block) := do
  let rec go : List Token → Parser (List (Expr × Block) × Option Block)
    | [] => Parser.fail
    | _ :: n => do
      if !(← word? "else") then return ([], none)
      if ← word? "if" then
        let c ← conditionExpr g
        let b ← plainBlock g
        let (more, last) ← go n
        return ((c, b) :: more, last)
      else return ([], some (← plainBlock g))
  go (← rounds)

def conditionalExpr : Parser Expr := do
  word "if"
  let c ← conditionExpr g
  let b ← plainBlock g
  let (more, last) ← otherBranches g
  return .conditional c b more last

def whileExpr (label : Option String) : Parser Expr := do
  word "while"
  let c ← conditionExpr g
  return .whileLoop label c (← g.block)

def forExpr (label : Option String) : Parser Expr := do
  word "for"
  let p ← alternatives g
  word "in"
  let source ← conditionExpr g
  return .forLoop label p.snippet source (← g.block)

def loopExpr (label : Option String) : Parser Expr := do
  word "loop"
  return .loop label (← g.block)

def labelledExpr : Parser Expr := do
  let label := some (← lifetime)
  op ":"
  if ← sees "while" then whileExpr g label
  else if ← sees "for" then forExpr g label
  else if ← sees "loop" then loopExpr g label
  else return .ofBlock label (← g.block)

/-- The arms of a selection. -/
def arms : Parser (List Expr.Arm) :=
  whileSees (return !(← atEnd)) do
    let attrs ← attributes g
    let p ← alternatives g
    let guard ← optional? (sees "if") (do word "if"; g.expr true)
    op "=>"
    let body ← g.early
    let comma ← op? ","
    require (comma || body.form.isStatement || (← atEnd))
    return ⟨attrs, p.snippet, guard, body, comma⟩

def selectionExpr : Parser Expr := do
  word "match"
  let scrutinee ← conditionExpr g
  let (inner, arms) ← delimited .brace (do return (← innerAttributes g, ← arms g))
  return .selection scrutinee inner arms

def unsafeBlock : Parser Expr := do
  word "unsafe"
  return .wordedBlock .unsafeBlock ["unsafe"] (← g.block)

def tryBlock : Parser Expr := do
  word "try"
  return .wordedBlock .tryBlock ["try"] (← plainBlock g)

def earlyOperand : Parser Expr := do
  if ← sees "if" then conditionalExpr g
  else if ← sees "while" then whileExpr g none
  else if (← sees "for") && !(← seesForParameters) then forExpr g none
  else if ← sees "loop" then loopExpr g none
  else if ← sees "match" then selectionExpr g
  else if (← sees "try") && (← seesOpenAt 1 .brace) then tryBlock g
  else if ← sees "unsafe" then unsafeBlock g
  else if (← sees "const") && (← seesOpenAt 1 .brace) then constBlock g
  else if ← seesOpen .brace then return .ofBlock none (← g.block)
  else if ← seesLifetime then labelledExpr g
  else g.operand true

/-- What ends in a block ends there, unless a dot or a question mark follows. -/
def earlyBody : Parser Expr := do
  let attrs ← attributes g
  let e ← earlyOperand g
  if !e.form.isStatement then g.climb true Precedence.least (e.withAttributes attrs)
  else if (← seesDot) || (← seesOp "?") then
    g.climb true Precedence.least ((← trailers g e).withAttributes attrs)
  else return e.withAttributes attrs

/-! ### Closures, records and lists -/

/-- Whether an expression can start here, after a word that may stand without one. -/
def seesValue : Parser Bool := do
  let t ← next?
  return (isAnyWord t && !(← sees "as")) || t.any (· matches .opening _) || (← seesLiteral) ||
    ((← seesOp "!") && !(← seesOp "!=")) ||
    ((← seesOp "-") && !(← seesOp "-=") && !(← seesOp "->")) ||
    ((← seesOp "*") && !(← seesOp "*=")) || ((← seesOp "|") && !(← seesOp "|=")) ||
    ((← seesOp "&") && !(← seesOp "&=")) || (← seesOp "..") ||
    ((← seesOp "<") && !(← seesOp "<=") && !(← seesOp "<<=")) || (← seesOp "::") || isLifetime t ||
    (← seesOp "#")

def closureInput : Parser Snippet := do
  let attrs ← attributes g
  let p ← g.pattern
  if ← op? ":" then return ((p.typed (← g.ty true)).withAttributes attrs).snippet
  else return (p.withAttributes attrs).snippet

def closureExpr (records : Bool) : Parser Expr := do
  let lifetimes ← optional? (sees "for") (boundParameters g)
  let constant ← word? "const"
  let immovable ← word? "static"
  let isAsync ← word? "async"
  let moves ← word? "move"
  let head := Snippet.ofOption lifetimes ++ Snippet.keywordIf constant "const" ++
    Snippet.keywordIf immovable "static" ++ Snippet.keywordIf isAsync "async" ++
    Snippet.keywordIf moves "move"
  op "|"
  let (inputs, trailing) ← separatedUntil (seesOp "|") "," (closureInput g)
  op "|"
  if ← op? "->" then
    let ty ← g.ty true
    return .closure head inputs trailing (some ty) (.ofBlock none (← plainBlock g))
  else return .closure head inputs trailing none (← g.expr records)

def fieldValue : Parser Expr.FieldValue := do
  let attrs ← attributes g
  let m ← member
  if isPosition m || (← seesOp ":") then
    op ":"
    return ⟨attrs, m, some (← g.expr true)⟩
  else return ⟨attrs, m, none⟩

/-- The fields of a record expression, and what stands after two dots. -/
def recordValues : Parser (List Expr.FieldValue × Bool × Option (Option Expr)) := do
  let rec go : List Token → Parser (List Expr.FieldValue × Bool × Option (Option Expr))
    | [] => Parser.fail
    | _ :: n => do
      if ← atEnd then return ([], true, none)
      if ← op? ".." then return ([], true, some (← optional? (return !(← atEnd)) (g.expr true)))
      let f ← fieldValue g
      if ← atEnd then return ([f], false, none)
      op ","
      let (fs, trailing, rest) ← go n
      return (f :: fs, trailing, rest)
  let (fs, trailing, rest) ← go (← rounds)
  return (fs, trailing && !fs.isEmpty, rest)

/-- A path alone, or the call or record that it starts. -/
def pathExpr (records : Bool) : Parser Expr := do
  let p ← path g true
  if p.owner.isNone && p.isPlain && (← seesBang) then macroCall p
  else if records && (← seesOpen .brace) then
    let (fs, trailing, rest) ← delimited .brace (recordValues g)
    return .record p fs trailing rest
  else return .ofPath p

def parenthesizedExpr : Parser Expr := do
  let (es, trailing) ← delimited .parenthesis (commaList (g.expr true))
  match es, trailing with
  | [e], false => return .parenthesized e
  | es, trailing => return .tuple es trailing

def bracketedExpr : Parser Expr :=
  delimited .bracket do
    if ← atEnd then return .array [] false
    let first ← g.expr true
    if ← op? ";" then return .repetition first (← g.expr true)
    else if ← op? "," then
      let (es, trailing) ← commaList (g.expr true)
      return .array (first :: es) (trailing || es.isEmpty)
    else return .array [first] false

def letExpr (records : Bool) : Parser Expr := do
  word "let"
  let p ← alternatives g
  op "="
  return .letCondition p.snippet (← g.climb records Precedence.compare (← g.operand records))

def breakExpr (records : Bool) : Parser Expr := do
  word "break"
  let label ← lifetime?
  require (label.isNone || !(← seesOp ":"))
  let value ← optional? (return (← seesValue) && (records || !(← seesOpen .brace))) (g.expr true)
  return .jump .jump "break" label value

def seesClosure : Parser Bool := do
  return (← seesOp "|") || (← sees "move") ||
    (← seesForParameters) ||
    ((← sees "const") && !(← seesOpenAt 1 .brace)) || (← sees "static") ||
    ((← sees "async") && ((← seesOpAt 1 "|") || (← seesAt 1 "move")))

def seesAsyncBlock : Parser Bool := do
  return (← sees "async") &&
    ((← seesOpenAt 1 .brace) || ((← seesAt 1 "move") && (← seesOpenAt 2 .brace)))

def asyncBlock : Parser Expr := do
  word "async"
  let words := if ← word? "move" then ["async", "move"] else ["async"]
  return .wordedBlock .asyncBlock words (← plainBlock g)

/-- An operand before anything is attached to it. -/
def atom (records : Bool) : Parser Expr := do
  if ← seesLiteral then return .ofLiteral (← literal)
  else if ← seesAsyncBlock then asyncBlock g
  else if (← sees "try") && (← seesOpenAt 1 .brace) then tryBlock g
  else if ← seesClosure then closureExpr g records
  else if ← seesBuiltin then return .verbatim (← builtinCall)
  else if (← seesPath) || ((← sees "try") && ((← seesOpAt 1 "!") || (← seesOpAt 1 "::"))) then
    pathExpr g records
  else if ← seesOpen .parenthesis then parenthesizedExpr g
  else if ← sees "break" then breakExpr g records
  else if ← word? "continue" then return .jump .jump "continue" (← lifetime?) none
  else if ← word? "return" then
    return .jump .jump "return" none (← optional? seesValue (g.expr true))
  else if ← sees "become" then
    let (_, tokens) ← withTokens (do word "become"; g.expr true)
    return .verbatim tokens
  else if ← seesOpen .bracket then bracketedExpr g
  else if ← sees "let" then letExpr g records
  else if ← sees "if" then conditionalExpr g
  else if ← sees "while" then whileExpr g none
  else if ← sees "for" then forExpr g none
  else if ← sees "loop" then loopExpr g none
  else if ← sees "match" then selectionExpr g
  else if ← word? "yield" then
    return .jump .yielding "yield" none (← optional? seesValue (g.expr true))
  else if ← sees "unsafe" then unsafeBlock g
  else if ← sees "const" then constBlock g
  else if ← seesOpen .brace then return .ofBlock none (← g.block)
  else if ← seesOp ".." then expressionRange g records none
  else if ← word? "_" then return .placeholder
  else if ← seesLifetime then labelledExpr g
  else Parser.fail

/-- An operand with the operators before it and all that is attached to it. -/
def operandBody (records : Bool) : Parser Expr := do
  let (attrs, before) ← withTokens (attributes g)
  if ← op? "&" then
    if (← sees "raw") && ((← seesAt 1 "mut") || (← seesAt 1 "const")) then
      word "raw"
      let mutable := (← anyWord) == "mut"
      return (Expr.rawAddress mutable (← g.operand records)).withAttributes attrs
    let mutable ← word? "mut"
    return (Expr.reference mutable (← g.operand records)).withAttributes attrs
  else if (← seesOp "*") || (← seesOp "!") || (← seesOp "-") then
    let mark := (← take).text
    return (Expr.unary mark (← g.operand records)).withAttributes attrs
  else
    let (e, tokens) ← withTokens (do trailers g (← atom g records))
    require (attrs.isEmpty || e.form != .range)
    if e.form == .verbatim then return .verbatim (before ++ tokens)
    else return e.withAttributes attrs

def exprBody (records : Bool) : Parser Expr := do
  g.climb records Precedence.least (← g.operand records)

end RecordStore.Grammar
