import RecordStore.Text.Cluster
import RecordStore.Text.LetterCase

/-!
Snake case: the words of a name in small letters, joined by underscores. Words end at
underscores, hyphens and blanks, where letters turn to digits or back, and where small letters
turn to capitals; of a run of capitals before a small letter, the last one starts the new word.
-/
namespace RecordStore.SnakeCase

abbrev Glyph := List Char

def isUpper (g : Glyph) : Bool :=
  g.all (!LetterCase.changedByUpper ·) && g.any LetterCase.changedByLower

def isLower (g : Glyph) : Bool :=
  g.all (!LetterCase.changedByLower ·) && g.any LetterCase.changedByUpper

def isDigit (g : Glyph) : Bool := g.all Char.isDigit

def isSeparator (g : Glyph) : Bool := g == ['_'] || g == ['-'] || g == [' ']

/-- Whether a new word starts between `a` and `b`; `next` is what follows `b`. -/
def breaksBetween (a b : Glyph) (next : Option Glyph) : Bool :=
  (isLower a && isUpper b) || (isUpper a && isUpper b && next.any isLower) ||
    ((isLower a || isUpper a) && isDigit b) || (isDigit a && (isLower b || isUpper b))

/-- Put a glyph in front of the first word. -/
def extendFirst (g : Glyph) : List (List Char) → List (List Char)
  | [] => [g]
  | word :: words => (g ++ word) :: words

/-- The words of a name; neighbouring separators leave an empty word between them. -/
def words : List Glyph → List (List Char)
  | [] => [[]]
  | [g] => if isSeparator g then [[], []] else [g]
  | a :: b :: rest =>
    if isSeparator a then [] :: words (b :: rest)
    else if breaksBetween a b rest.head? then a :: words (b :: rest)
    else extendFirst a (words (b :: rest))

end SnakeCase

/-- A name in snake case. -/
def snakeCase (name : String) : String :=
  "_".intercalate
    ((SnakeCase.words (Cluster.split name.toList)).map fun w => LetterCase.lower (String.ofList w))

end RecordStore
