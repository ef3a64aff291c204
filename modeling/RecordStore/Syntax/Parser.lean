import RecordStore.Syntax.Token

/-!
Parsers take tokens from the front of a sequence or fail. Operators are found inside longer
runs of punctuation, so a parser that cares looks for the longer operator first.
-/
namespace RecordStore

abbrev Parser := StateT (List Token) Option

namespace Parser

variable {α : Type}

/-- Run a parser on a whole sequence. -/
def all? (p : Parser α) (tokens : List Token) : Option α :=
  match p.run tokens with
  | some (a, []) => some a
  | _ => none

/-- Words with a meaning of their own, which name nothing. -/
def keywords : List String :=
  ["_", "abstract", "as", "async", "await", "become", "box", "break", "const", "continue", "crate",
   "do", "dyn", "else", "enum", "extern", "false", "final", "fn", "for", "if", "impl", "in", "let",
   "loop", "macro", "match", "mod", "move", "mut", "override", "priv", "pub", "ref", "return",
   "Self", "self", "static", "struct", "super", "trait", "true", "try", "type", "typeof", "unsafe",
   "unsized", "use", "virtual", "where", "while", "yield"]

/-! ### Looking ahead -/

/-- What follows an operator. -/
def afterOperator : List Char → List Token → Option (List Token)
  | [], ts => some ts
  | [c], .punct d _ :: ts => if c == d then some ts else none
  | c :: cs, .punct d true :: ts => if c == d then afterOperator cs ts else none
  | _, _ => none

/-- Whether a token ends the group or the statement that is being read. -/
def bounds : Token → Bool
  | .closing _ => true
  | .punct ';' _ => true
  | _ => false

/-- The tokens from the one `n` places on. Nothing is looked for past the end of a group or of a
statement. -/
def within : (n : Nat) → List Token → List Token
  | 0, ts => ts
  | _, [] => []
  | n + 1, t :: ts => if bounds t then [] else within n ts

def ahead : Parser (List Token) := get

/-- The token `n` places ahead. -/
def token? (n : Nat) : Parser (Option Token) := return (within n (← get)).head?

def next? : Parser (Option Token) := token? 0

/-- Whether an operator starts `n` tokens ahead. -/
def seesOpAt (n : Nat) (marks : String) : Parser Bool :=
  return (afterOperator marks.toList (within n (← get))).isSome

def seesOp (marks : String) : Parser Bool := seesOpAt 0 marks

/-- What a parser makes of the tokens ahead, without taking any. -/
def lookahead {α : Type} (p : Parser α) : Parser (Option α) :=
  return (p.run (← get)).map Prod.fst

def wordIs (word : String) : Option Token → Bool
  | some (.ident name) => name == word
  | _ => false

def isName : Option Token → Bool
  | some (.ident name) => !keywords.contains name
  | _ => false

def isAnyWord : Option Token → Bool
  | some (.ident _) => true
  | _ => false

def isLifetime : Option Token → Bool
  | some (.lifetime _) => true
  | _ => false

def opens (d : Delimiter) : Option Token → Bool
  | some (.opening e) => d = e
  | _ => false

def seesAt (n : Nat) (word : String) : Parser Bool := return wordIs word (← token? n)
def sees (word : String) : Parser Bool := seesAt 0 word
def seesNameAt (n : Nat) : Parser Bool := return isName (← token? n)
def seesName : Parser Bool := seesNameAt 0
def seesLifetime : Parser Bool := return isLifetime (← next?)
def seesOpenAt (n : Nat) (d : Delimiter) : Parser Bool := return opens d (← token? n)
def seesOpen (d : Delimiter) : Parser Bool := seesOpenAt 0 d

def isClosing : Token → Bool
  | .closing _ => true
  | _ => false

/-- At the end of the sequence, or of the group that is being read. -/
def atEnd : Parser Bool := return (← next?).all isClosing

/-- A literal, a truth value, or a number with a sign. -/
def literalAhead : List Token → Bool
  | .literal _ :: _ => true
  | .ident name :: _ => name == "true" || name == "false"
  | .punct '-' _ :: .literal text :: _ => text.toList.head?.any Char.isDigit
  | _ => false

def seesLiteral : Parser Bool := return literalAhead (← get)

/-! ### Taking tokens -/

def fail : Parser α := failure

def require (b : Bool) : Parser Unit := if b then pure () else fail

def take : Parser Token := do
  match ← get with
  | t :: ts =>
    set ts
    return t
  | [] => fail

/-- Take an operator from the front of a run of punctuation. -/
def op (marks : String) : Parser Unit := do
  match afterOperator marks.toList (← get) with
  | some ts => set ts
  | none => fail

/-- Take an operator if it is there. -/
def op? (marks : String) : Parser Bool := do
  match afterOperator marks.toList (← get) with
  | some ts =>
    set ts
    return true
  | none => return false

def word (w : String) : Parser Unit := do
  require (wordIs w (some (← take)))

def word? (w : String) : Parser Bool := do
  if ← sees w then
    let _ ← take
    return true
  else return false

/-- Any word, keywords included. -/
def anyWord : Parser String := do
  match ← take with
  | .ident name => return name
  | _ => fail

/-- An identifier. -/
def name : Parser String := do
  let n ← anyWord
  require (!keywords.contains n)
  return n

def lifetime : Parser String := do
  match ← take with
  | .lifetime n => return n
  | _ => fail

def lifetime? : Parser (Option String) := do
  if ← seesLifetime then some <$> lifetime else return none

/-- The tokens of a literal. -/
def literal : Parser (List Token) := do
  require (← seesLiteral)
  if ← seesOp "-" then
    op "-"
    return Token.operator "-" ++ [← take]
  else return [← take]

/-- What stands between a pair of delimiters. -/
def delimited (d : Delimiter) (p : Parser α) : Parser α := do
  require (opens d (some (← take)))
  let a ← p
  require ((← take) == .closing d)
  return a

/-- Tokens up to the end of the group that is being read; `depth` counts groups open inside. -/
def groupTokens : (depth : Nat) → List Token → Option (List Token × List Token)
  | _, [] => some ([], [])
  | depth, t :: ts =>
    match t, depth with
    | .closing _, 0 => some ([], t :: ts)
    | .closing _, n + 1 => (groupTokens n ts).map fun (body, rest) => (t :: body, rest)
    | .opening _, n => (groupTokens (n + 1) ts).map fun (body, rest) => (t :: body, rest)
    | _, n => (groupTokens n ts).map fun (body, rest) => (t :: body, rest)

/-- All tokens of the group that is being read. -/
def rest : Parser (List Token) := do
  let (body, left) ← StateT.lift (groupTokens 0 (← get))
  set left
  return body

/-- A whole group of any kind. -/
def anyGroup : Parser (Delimiter × List Token) := do
  match ← take with
  | .opening d =>
    let body ← rest
    require ((← take) == .closing d)
    return (d, body)
  | _ => fail

/-- The tokens that were read on the way from one state to a later one. -/
def tokensBetween (before after : List Token) : List Token :=
  before.take (before.length - after.length)

/-- Keep the tokens that were read. -/
def withTokens (p : Parser α) : Parser (α × List Token) := do
  let before ← get
  let a ← p
  return (a, tokensBetween before (← get))

/-! ### Repetition -/

/-- A bound on the rounds of a loop that takes a token in each but the last. -/
def rounds : Parser (List Token) := return .punct ';' false :: (← get)

/-- Repeat while a condition holds. -/
def whileSees (condition : Parser Bool) (p : Parser α) : Parser (List α) := do
  let rec go : List Token → Parser (List α)
    | [] => fail
    | _ :: n => do
      if ← condition then
        let a ← p
        return a :: (← go n)
      else return []
  go (← rounds)

/-- Items up to `stop` with a separator between them; the flag tells whether one follows the last
item. -/
def separatedUntil (stop : Parser Bool) (separator : String) (p : Parser α) :
    Parser (List α × Bool) := do
  let rec go : List Token → Parser (List α × Bool)
    | [] => fail
    | _ :: n => do
      if ← stop then return ([], true)
      let a ← p
      if ← stop then return ([a], false)
      op separator
      let (as, trailing) ← go n
      return (a :: as, trailing)
  let (items, trailing) ← go (← rounds)
  return (items, trailing && !items.isEmpty)

/-- Items joined by plus signs. The last one may be missing after a plus sign, which the flag
tells, but only where `stop` holds. -/
def joinedUntil (stop : Parser Bool) (p : Parser α) : Parser (List α × Bool) := do
  let rec go : List Token → Parser (List α × Bool)
    | [] => fail
    | _ :: n => do
      if ← stop then return ([], true)
      let a ← p
      if ← op? "+" then
        let (as, trailing) ← go n
        return (a :: as, trailing)
      else return ([a], false)
  let (items, trailing) ← go (← rounds)
  return (items, trailing && !items.isEmpty)

/-- Items up to the end of the group, with commas between them. -/
def commaList (p : Parser α) : Parser (List α × Bool) := separatedUntil atEnd "," p

def optional? (condition : Parser Bool) (p : Parser α) : Parser (Option α) := do
  if ← condition then some <$> p else return none

end Parser
end RecordStore
