/-!
Tokens of source text. Delimiters are tokens of their own; a sequence is balanced when it comes
from the lexer or from one of the builders.
-/
namespace RecordStore

inductive Delimiter where
  | parenthesis
  | bracket
  | brace
  deriving DecidableEq, Repr, Inhabited

/-- A punctuation character is joint when the next one belongs to the same operator or follows it
at once. Lifetimes keep their quote and raw identifiers their mark. -/
inductive Token where
  | ident (name : String)
  | lifetime (name : String)
  | literal (text : String)
  | punct (mark : Char) (joint : Bool)
  | opening (delimiter : Delimiter)
  | closing (delimiter : Delimiter)
  deriving DecidableEq, Repr, Inhabited

namespace Delimiter

def openText : Delimiter → String
  | .parenthesis => "("
  | .bracket => "["
  | .brace => "\x7b"

def closeText : Delimiter → String
  | .parenthesis => ")"
  | .bracket => "]"
  | .brace => "\x7d"

end Delimiter

namespace Token

def text : Token → String
  | ident name => name
  | lifetime name => name
  | literal text => text
  | punct mark _ => mark.toString
  | opening d => d.openText
  | closing d => d.closeText

/-- Whether nothing may stand between a token and the one after it: joint characters stick to
what follows, and only braces have inner padding. -/
def tight : Token → Token → Bool
  | punct _ true, _ => true
  | opening .parenthesis, _ => true
  | opening .bracket, _ => true
  | _, closing .parenthesis => true
  | _, closing .bracket => true
  | _, _ => false

/-- An operator: its characters are joint up to the last one. -/
def operator (marks : String) : List Token :=
  let rec go : List Char → List Token
    | [] => []
    | [c] => [punct c false]
    | c :: cs => punct c true :: go cs
  go marks.toList

def group (d : Delimiter) (body : List Token) : List Token :=
  opening d :: body ++ [closing d]

def parens (body : List Token) : List Token := group .parenthesis body
def brackets (body : List Token) : List Token := group .bracket body
def braces (body : List Token) : List Token := group .brace body

end Token

/-- The text of a token sequence: one blank between tokens that are not tight. -/
def tokenText : List Token → String
  | [] => ""
  | [t] => t.text
  | t :: u :: rest => t.text ++ (if t.tight u then "" else " ") ++ tokenText (u :: rest)

/-- Items with a separator between neighbours. -/
def separated (separator : List Token) : List (List Token) → List Token
  | [] => []
  | [item] => item
  | item :: rest => item ++ separator ++ separated separator rest

def comma : List Token := Token.operator ","
def pathMark : List Token := Token.operator "::"

end RecordStore
