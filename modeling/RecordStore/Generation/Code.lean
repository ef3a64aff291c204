import RecordStore.Error
import RecordStore.Syntax.Reading

/-!
Code that is generated, as token sequences put together from fixed texts and from parts. The
characters of an operator are joint and its last one is not, whatever follows.
-/
namespace RecordStore

abbrev Code := List Token

namespace Code

/-- Operators of more than one character; a longer one stands before those it starts with. -/
def operators : List (List Char) :=
  ["<<=", ">>=", "...", "..=", "::", "->", "=>", "==", "!=", "<=", ">=", "&&", "||", "+=", "-=",
    "*=", "/=", "%=", "^=", "&=", "|=", "<<", ">>", ".."].map String.toList

/-- The length of the operator at the start of some marks. -/
def operatorLength (marks : List Char) : Nat :=
  ((operators.find? (·.isPrefixOf marks)).map List.length).getD 1

/-- The marks of a run of joint punctuation. -/
def run : List Token → List Char
  | .punct c true :: ts => c :: run ts
  | .punct c false :: _ => [c]
  | _ => []

/-- Separate the operators from each other; `inside` marks are left of the present one. -/
def respace : (inside : Nat) → List Token → Code
  | _, [] => []
  | inside, .punct c joint :: ts =>
    let left := if inside = 0 then operatorLength (run (.punct c joint :: ts)) else inside
    .punct c (1 < left) :: respace (left - 1) ts
  | _, t :: ts => t :: respace 0 ts

/-- A balanced piece of source text. -/
def ofText (text : String) : Code := respace 0 ((tokens? text).getD [])

def name (n : String) : Code := [.ident n]

def text (s : String) : Code := [.literal (Literal.quote s)]

def number (n : Nat) : Code := [.literal (Literal.decimal n)]

/-- A text with places to fill: its parts stand before, between and behind them. -/
def template (parts : List String) : Code := text ("\x7b\x7d".intercalate parts)

/-- Documentation that is put together. -/
def doc (s : String) : Code := ofText "#" ++ Token.brackets (ofText "doc =" ++ text s)

/-- A line of documentation. -/
def docLine (s : String) : Code :=
  ofText "#" ++ Token.brackets (ofText "doc =" ++ [.literal ("r\"" ++ s ++ "\"")])

/-- Items with commas between them. -/
def commas (items : List Code) : Code := separated comma items

/-- Items with a comma after each. -/
def terminated (items : List Code) : Code := items.flatMap (· ++ comma)

def call (function : String) (arguments : List Code) : Code :=
  ofText function ++ Token.parens (commas arguments)

/-- A statement. -/
def stmt (c : Code) : Code := c ++ ofText ";"

end Code

/-- The identifier that a generated name is. -/
def identifierOf (name : String) : Except Error String :=
  match identifier? name with
  | some n => .ok n
  | none => .error (.format name)

end RecordStore
