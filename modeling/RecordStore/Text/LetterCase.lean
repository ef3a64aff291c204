import RecordStore.Text.CaseTable

/-!
Lower-case texts. A capital sigma at the end of a word has its own small letter, so the mapping
looks at both neighbours of a character.
-/
namespace RecordStore.LetterCase

/-- ASCII characters stay within ASCII; the table holds the rest, but for the dotted capital I,
whose small form is two characters. -/
def lowerChar (c : Char) : List Char :=
  if c.toNat < 128 then [c.toLower]
  else if c == '\u0130' then ['i', '\u0307']
  else
    match CharRun.lowercase.find? (·.1.contains c) with
    | some (_, distance) => [Char.ofNat (c.toNat + distance).toNat]
    | none => [c]

def changedByUpper (c : Char) : Bool :=
  CharRun.changedByUppercase.any (·.contains c)

def changedByLower (c : Char) : Bool := lowerChar c != [c]

/-- Whether the first character that case rules do not ignore has a case. -/
def reachesCased (cs : List Char) : Bool :=
  match cs.dropWhile CharSet.caseIgnorable.contains with
  | [] => false
  | c :: _ => CharSet.cased.contains c

/-- `before` holds the characters already read, last one first. -/
def lowerAfter (before : List Char) : List Char → List Char
  | [] => []
  | c :: rest =>
    if c == '\u03A3' then
      let final := reachesCased before && !reachesCased rest
      (if final then '\u03C2' else '\u03C3') :: lowerAfter (c :: before) rest
    else lowerChar c ++ lowerAfter (c :: before) rest

def lower (s : String) : String := String.ofList (lowerAfter [] s.toList)

end RecordStore.LetterCase
