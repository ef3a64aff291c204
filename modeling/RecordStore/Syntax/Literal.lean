import RecordStore.Text.CharClass
import RecordStore.Text.ClusterTable
import RecordStore.Text.PrintableTable

/-!
Literals: how a text is written as one, and which text or number a literal stands for.
-/
namespace RecordStore.Literal

/-- Digits of a number in base sixteen. -/
def hexDigits (n : Nat) : String := String.ofList (Nat.toDigits 16 n)

/-- One character inside a quoted literal. Marks that would join the quote, and characters that
cannot be seen, are written by number. -/
def escapeChar (c : Char) (next : Option Char) : String :=
  if c == '\x00' then
    if next.any (fun d => '0' ≤ d && d ≤ '7') then "\\x00" else "\\0"
  else if c == '\t' then "\\t"
  else if c == '\r' then "\\r"
  else if c == '\n' then "\\n"
  else if c == '"' then "\\\""
  else if c == '\\' then "\\\\"
  else if ' ' ≤ c && c ≤ '~' then c.toString
  else if CharSet.graphemeExtend.contains c || CharSet.unprintable.contains c then
    "\\u\x7b" ++ hexDigits c.toNat ++ "\x7d"
  else c.toString

def escape : List Char → String
  | [] => ""
  | c :: rest => escapeChar c rest.head? ++ escape rest

/-- A text as a quoted literal. -/
def quote (s : String) : String := "\"" ++ escape s.toList ++ "\""

/-- A whole number without a suffix. -/
def decimal (n : Nat) : String := toString n

/-- The value of the digits of a braced escape, and what follows the closing brace. -/
def bracedEscape : Nat → List Char → Option (Nat × List Char)
  | _, [] => none
  | value, c :: rest =>
    if c == '\x7d' then some (value, rest)
    else if c == '_' then bracedEscape value rest
    else (CharClass.hexValue? c).bind fun d => bracedEscape (16 * value + d) rest

/-- The text between the quotes of an ordinary literal, given what follows the first quote. A
backslash at the end of a line drops the line's end and the blanks after it. -/
def unescape : Nat → List Char → Option (List Char)
  | 0, _ => none
  | _, [] => none
  | fuel + 1, c :: rest =>
    if c == '"' then some []
    else if c == '\r' then (unescape fuel (rest.drop 1)).map ('\n' :: ·)
    else if c != '\\' then (unescape fuel rest).map (c :: ·)
    else
      match rest with
      | [] => none
      | e :: rest =>
        let one (d : Char) := (unescape fuel rest).map (d :: ·)
        if e == 'n' then one '\n'
        else if e == 'r' then one '\r'
        else if e == 't' then one '\t'
        else if e == '0' then one '\x00'
        else if e == '\n' || e == '\r' then
          unescape fuel (rest.dropWhile fun b => b == ' ' || b == '\t' || b == '\n' || b == '\r')
        else if e == 'x' then
          match rest with
          | h :: l :: rest => do
            let h ← CharClass.hexValue? h
            let l ← CharClass.hexValue? l
            (unescape fuel rest).map (Char.ofNat (16 * h + l) :: ·)
          | _ => none
        else if e == 'u' then do
          let (value, rest) ← bracedEscape 0 (rest.drop 1)
          (unescape fuel rest).map (Char.ofNat value :: ·)
        else one e

/-- The text of a raw literal, given what follows its first quote. -/
def rawText (hashes : List Char) : List Char → List Char
  | [] => []
  | c :: rest => if c == '"' && hashes.isPrefixOf rest then [] else c :: rawText hashes rest

/-- The text that a string literal stands for; other literals stand for none. -/
def stringValue? (text : String) : Option String :=
  match text.toList with
  | '"' :: rest => (unescape (rest.length + 1) rest).map String.ofList
  | 'r' :: rest =>
    let hashes := rest.takeWhile (· == '#')
    match rest.drop hashes.length with
    | '"' :: body => some (String.ofList (rawText hashes body))
    | _ => none
  | _ => none

/-! ### Numbers -/

/-- Whether what follows an `e` makes it the mark of an exponent. -/
def startsExponent (cs : List Char) : Bool :=
  (cs.dropWhile (· == '_')).head?.any fun c => c.isDigit || c == '+' || c == '-'

/-- The value of the digits of a base, and what follows them. A number with a point or an exponent
has none. -/
def wholeDigits (base : Nat) : (value : Nat) → (empty : Bool) → List Char → Option (Nat × List Char)
  | value, empty, [] => if empty then none else some (value, [])
  | value, empty, c :: rest =>
    let stop := if empty then none else some (value, c :: rest)
    if c == '_' then wholeDigits base value empty rest
    else if base == 10 && c == '.' then none
    else if base == 10 && (c == 'e' || c == 'E') then if startsExponent rest then none else stop
    else
      match CharClass.hexValue? c with
      | some d =>
        if d < base then wholeDigits base (base * value + d) false rest
        else if c.isDigit then none
        else stop
      | none => stop

/-- The value of a whole number, and the suffix that names its type. -/
def wholeNumber? (text : String) : Option (Nat × String) :=
  let digits :=
    match text.toList with
    | '0' :: 'x' :: rest => wholeDigits 16 0 true rest
    | '0' :: 'o' :: rest => wholeDigits 8 0 true rest
    | '0' :: 'b' :: rest => wholeDigits 2 0 true rest
    | c :: rest => if c.isDigit then wholeDigits 10 0 true (c :: rest) else none
    | [] => none
  digits.map fun (value, suffix) => (value, String.ofList suffix)

/-- Whether a literal is a whole number, a character, an octet or a truth value. -/
def isScalar (text : String) : Bool :=
  text.startsWith "'" || text.startsWith "b'" || text == "true" || text == "false" ||
    (wholeNumber? text).isSome

/-- Whether a point ends a number, so that another one must not follow at once. -/
def endsInPoint (text : String) : Bool := text.endsWith "."

end RecordStore.Literal
