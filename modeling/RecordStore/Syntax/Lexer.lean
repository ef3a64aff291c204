import RecordStore.Syntax.Literal
import RecordStore.Syntax.Token

/-!
Source text as tokens. Blanks and ordinary comments are dropped; a documentation comment becomes
the attribute it stands for. Every rule takes the characters ahead and gives those it leaves.
-/
namespace RecordStore.Lexer

open CharClass

abbrev Chars := List Char

/-- What follows a fixed text at the start of some characters. -/
def after? : (start : Chars) → Chars → Option Chars
  | [], cs => some cs
  | _ :: _, [] => none
  | s :: start, c :: cs => if s == c then after? start cs else none

def startsWith (start : String) (cs : Chars) : Bool := start.toList.isPrefixOf cs

/-- Direction marks count as blanks. -/
def isSpace (c : Char) : Bool := isBlank c || c == '\u200e' || c == '\u200f'

/-- The rest of a line, and what is left from its end on. A carriage return belongs to the end. -/
def restOfLine : Chars → Chars × Chars
  | [] => ([], [])
  | '\r' :: '\n' :: rest => ([], '\n' :: rest)
  | c :: rest =>
    if c == '\n' then ([], c :: rest)
    else
      let (line, left) := restOfLine rest
      (c :: line, left)

/-- The inside of a block comment and what follows it; comments nest. The first argument counts
the comments open inside this one. -/
def blockComment : Nat → Chars → Option (Chars × Chars)
  | depth, '/' :: '*' :: rest =>
    (blockComment (depth + 1) rest).map fun (body, left) => ('/' :: '*' :: body, left)
  | 0, '*' :: '/' :: rest => some ([], rest)
  | depth + 1, '*' :: '/' :: rest =>
    (blockComment depth rest).map fun (body, left) => ('*' :: '/' :: body, left)
  | depth, c :: rest => (blockComment depth rest).map fun (body, left) => (c :: body, left)
  | _, [] => none

/-- A comment that documents what follows it (or, when inner, what surrounds it). -/
structure DocComment where
  inner : Bool
  text : Chars

/-- Comments are told apart by their first characters. -/
inductive Comment where
  | ordinary (left : Chars)
  | documentation (comment : DocComment) (left : Chars)
  | unclosed

def lineComment (cs : Chars) : Comment :=
  match cs with
  | '/' :: '/' :: '!' :: rest =>
    let (text, left) := restOfLine rest
    .documentation ⟨true, text⟩ left
  | '/' :: '/' :: '/' :: '/' :: rest => .ordinary (restOfLine rest).2
  | '/' :: '/' :: '/' :: rest =>
    let (text, left) := restOfLine rest
    .documentation ⟨false, text⟩ left
  | cs => .ordinary (restOfLine cs).2

def blockCommentAhead (cs : Chars) : Comment :=
  match blockComment 0 (cs.drop 2) with
  | none => .unclosed
  | some (body, left) =>
    match body with
    | '!' :: text => .documentation ⟨true, text⟩ left
    | '*' :: c :: text =>
      if c == '*' then .ordinary left else .documentation ⟨false, c :: text⟩ left
    | _ => .ordinary left

def comment? (cs : Chars) : Option Comment :=
  match cs with
  | '/' :: '/' :: _ => some (lineComment cs)
  | '/' :: '*' :: _ => some (blockCommentAhead cs)
  | _ => none

/-- Skip blanks and ordinary comments; the first argument is at least as long as the second. -/
def skipBlank : Chars → Chars → Chars
  | [], cs => cs
  | _ :: fuel, cs =>
    match comment? cs with
    | some (.ordinary left) => skipBlank fuel left
    | some _ => cs
    | none =>
      match cs with
      | [] => []
      | c :: rest => if isSpace c then skipBlank fuel rest else cs

/-- Skip what separates tokens. -/
def skip (cs : Chars) : Chars := skipBlank cs cs

/-- Whether every carriage return of a text is followed by a line feed. -/
def returnsPaired : Chars → Bool
  | [] => true
  | '\r' :: '\n' :: rest => returnsPaired rest
  | c :: rest => c != '\r' && returnsPaired rest

/-- The attribute that a documentation comment stands for. -/
def DocComment.tokens (d : DocComment) : List Token :=
  Token.punct '#' false :: ((if d.inner then [Token.punct '!' false] else []) ++
    Token.brackets
      [.ident "doc", .punct '=' false, .literal (Literal.quote (String.ofList d.text))])

/-! ### Names -/

/-- A name and what follows it. -/
def name? : Chars → Option (Chars × Chars)
  | [] => none
  | c :: rest =>
    if isIdentifierStart c then
      some (c :: rest.takeWhile isIdentifierContinue, rest.dropWhile isIdentifierContinue)
    else none

/-- A raw name keeps its mark; a few words cannot be raw. -/
def identifier? (cs : Chars) : Option (Chars × Chars) :=
  match after? ['r', '#'] cs with
  | none => name? cs
  | some rest => do
    let (name, left) ← name? rest
    if ["_", "super", "self", "Self", "crate"].contains (String.ofList name) then none
    else some ('r' :: '#' :: name, left)

/-! ### Rules -/

/-- What a rule takes and what it leaves. -/
abbrev Taken := Chars × Chars

/-- Take some characters more in front. -/
def also (front : Chars) (t : Taken) : Taken := (front ++ t.1, t.2)

def andThen (first : Option Taken) (second : Chars → Option Taken) : Option Taken :=
  first.bind fun (front, rest) => (second rest).map (also front)

def fixed (start : Chars) (cs : Chars) : Option Taken :=
  (after? start cs).map fun left => (start, left)

/-- A literal may end in a name that says its type. -/
def suffix (cs : Chars) : Taken := (name? cs).getD ([], cs)

/-! ### Literals -/

/-- What a quoted literal may hold. -/
structure QuoteRules where
  /-- Only ASCII characters. -/
  ascii : Bool
  /-- Escapes by code point. -/
  unicode : Bool
  /-- Octets of 128 and more as escapes. -/
  octets : Bool
  /-- The character NUL, however it is written. -/
  nul : Bool

namespace QuoteRules

def ofText : QuoteRules := ⟨false, true, false, true⟩
def ofOctets : QuoteRules := ⟨true, false, true, true⟩
def ofTerminated : QuoteRules := ⟨false, true, true, false⟩

end QuoteRules

/-- The number between the braces of an escape by code point, with what is taken for it. -/
def codePoint? : (digits value : Nat) → Chars → Option (Nat × Taken)
  | _, _, [] => none
  | digits, value, c :: rest =>
    let more (digits value : Nat) : Option (Nat × Taken) :=
      (codePoint? digits value rest).map fun (n, t) => (n, also [c] t)
    if c == '_' && 0 < digits then more digits value
    else if c == '\x7d' && 0 < digits then
      let valid := value < 0xD800 || (0xE000 ≤ value && value < 0x110000)
      if valid then some (value, [c], rest) else none
    else
      match hexValue? c with
      | some d => if digits == 6 then none else more (digits + 1) (16 * value + d)
      | none => none

/-- An escape without its backslash. -/
def escape? (rules : QuoteRules) : Chars → Option Taken
  | [] => none
  | c :: rest =>
    if ['n', 'r', 't', '\\', '\'', '"'].contains c then some ([c], rest)
    else if c == '0' then if rules.nul then some ([c], rest) else none
    else if c == 'x' then
      match rest with
      | h :: l :: left => do
        let m ← hexValue? h
        let n ← hexValue? l
        if (m < 8 || rules.octets) && (rules.nul || m != 0 || n != 0) then some ([c, h, l], left)
        else none
      | _ => none
    else if c == 'u' && rules.unicode then do
      let rest ← after? ['\x7b'] rest
      let (value, t) ← codePoint? 0 0 rest
      if rules.nul || value != 0 then some (also [c, '\x7b'] t) else none
    else none

/-- A backslash at the end of a line skips the blanks after it; the literal goes on. -/
def continueLine : Chars → Option Taken
  | '\r' :: '\n' :: rest => (continueLine rest).map (also ['\r', '\n'])
  | '\r' :: _ => none
  | [] => none
  | c :: rest =>
    if c == ' ' || c == '\t' || c == '\n' then (continueLine rest).map (also [c])
    else some ([], c :: rest)

/-- A quoted literal after its first quote; the first argument is at least as long as the rest. -/
def quoted (rules : QuoteRules) : Chars → Chars → Option Taken
  | [], _ => none
  | _, [] => none
  | _ :: fuel, c :: rest =>
    let more (first : Option Taken) : Option Taken :=
      (andThen first (quoted rules fuel)).map (also [c])
    if c == '"' then some (also [c] (suffix rest))
    else if c == '\r' then more (fixed ['\n'] rest)
    else if c == '\\' then
      match rest with
      | '\n' :: _ => more (continueLine rest)
      | '\r' :: _ => more (continueLine rest)
      | _ => more (escape? rules rest)
    else if (rules.ascii && 128 ≤ c.toNat) || (!rules.nul && c == '\x00') then none
    else more (some ([], rest))

/-- A raw literal after its first quote. -/
def rawQuoted (rules : QuoteRules) (hashes : Chars) : Chars → Option Taken
  | [] => none
  | '\r' :: '\n' :: rest => (rawQuoted rules hashes rest).map (also ['\r', '\n'])
  | c :: rest =>
    if c == '"' && hashes.isPrefixOf rest then
      some (also (c :: hashes) (suffix (rest.drop hashes.length)))
    else if c == '\r' || (rules.ascii && 128 ≤ c.toNat) || (!rules.nul && c == '\x00') then none
    else (rawQuoted rules hashes rest).map (also [c])

/-- A raw literal from its hashes on. -/
def raw (rules : QuoteRules) (cs : Chars) : Option Taken :=
  let (hashes, rest) := cs.span (· == '#')
  if 255 < hashes.length then none
  else (andThen (fixed ['"'] rest) (rawQuoted rules hashes)).map (also hashes)

def quotedOrRaw (rules : QuoteRules) (mark : Chars) (cs : Chars) : Option Taken :=
  andThen (fixed mark cs) fun rest =>
    match rest with
    | '"' :: body => (quoted rules body body).map (also ['"'])
    | 'r' :: body => (raw rules body).map (also ['r'])
    | _ => none

/-- One character or octet between single quotes, after the first one. -/
def single (rules : QuoteRules) : Chars → Option Taken
  | [] => none
  | c :: rest =>
    let content :=
      if c == '\\' then (escape? rules rest).map (also [c])
      else if rules.ascii && 128 ≤ c.toNat then none
      else some ([c], rest)
    andThen (andThen content (fixed ['\''])) fun left => some (suffix left)

/-- No part of a name may follow a number and its suffix. -/
def numberSuffix (cs : Chars) : Option Taken :=
  let (name, left) := suffix cs
  if left.head?.any isIdentifierContinue then none else some (name, left)

def isDigitOrBlank (c : Char) : Bool := c.isDigit || c == '_'

/-- The sign of an exponent, with underscores around it. -/
def exponentSign (cs : Chars) : Taken :=
  let (blanks, rest) := cs.span (· == '_')
  match rest with
  | '+' :: rest => also (blanks ++ ['+']) (rest.span (· == '_'))
  | '-' :: rest => also (blanks ++ ['-']) (rest.span (· == '_'))
  | _ => (blanks, rest)

/-- The digits of an exponent with their sign. -/
def exponent (cs : Chars) : Option Taken :=
  let (sign, rest) := exponentSign cs
  if rest.head?.any Char.isDigit then some (also sign (rest.span isDigitOrBlank)) else none

def exponentAhead (cs : Chars) : Option Taken :=
  match cs with
  | 'e' :: rest => (exponent rest).map (also ['e'])
  | 'E' :: rest => (exponent rest).map (also ['E'])
  | _ => none

/-- What follows the whole digits of a number with a point or an exponent. -/
def fraction (cs : Chars) : Option Taken :=
  match cs with
  | '.' :: rest =>
    if rest.head?.any (fun c => c == '.' || isIdentifierStart c) then none
    else
      let (digits, rest) := rest.span isDigitOrBlank
      some (also ('.' :: digits) ((exponentAhead rest).getD ([], rest)))
  | _ => exponentAhead cs

/-- A number with a point or an exponent. -/
def float (cs : Chars) : Option Taken := do
  guard (cs.head?.any Char.isDigit)
  andThen (andThen (some (cs.span isDigitOrBlank)) fraction) numberSuffix

/-- Digits of a base, with underscores between them. -/
def digitsOf (base : Nat) : (empty : Bool) → Chars → Option Taken
  | empty, [] => if empty then none else some ([], [])
  | empty, c :: rest =>
    if c == '_' then
      if empty && base == 10 then none else (digitsOf base empty rest).map (also [c])
    else
      match hexValue? c with
      | some d =>
        if d < base then (digitsOf base false rest).map (also [c])
        else if c.isDigit then none
        else if empty then none else some ([], c :: rest)
      | none => if empty then none else some ([], c :: rest)

def int (cs : Chars) : Option Taken :=
  let digits :=
    match cs with
    | '0' :: 'x' :: rest => (digitsOf 16 true rest).map (also ['0', 'x'])
    | '0' :: 'o' :: rest => (digitsOf 8 true rest).map (also ['0', 'o'])
    | '0' :: 'b' :: rest => (digitsOf 2 true rest).map (also ['0', 'b'])
    | _ => digitsOf 10 true cs
  andThen digits numberSuffix

/-- The literal at the start of some characters. -/
def literal? (cs : Chars) : Option Taken :=
  quotedOrRaw .ofText [] cs <|> quotedOrRaw .ofOctets ['b'] cs <|>
    quotedOrRaw .ofTerminated ['c'] cs <|>
    andThen (fixed ['b', '\''] cs) (single .ofOctets) <|>
    andThen (fixed ['\''] cs) (single .ofText) <|> float cs <|> int cs

/-! ### Punctuation -/

def isMark (c : Char) : Bool := "~!@#$%^&*-=+|;:,<.>/?'".toList.contains c

/-- A comment's slash is no mark. -/
def markAhead (cs : Chars) : Bool :=
  match cs with
  | '/' :: '/' :: _ => false
  | '/' :: '*' :: _ => false
  | c :: _ => isMark c
  | [] => false

/-- Starts of literals that are no names even where the literal is broken. -/
def literalStart (cs : Chars) : Bool :=
  ["r\"", "r#\"", "r##", "b\"", "b'", "br\"", "br#", "c\"", "cr\"", "cr#"].any (startsWith · cs)

/-- A name after a single quote, unless the quote turns out to close or to be raw by half. Before
a literal the quote stands alone. -/
def lifetime? (cs : Chars) : Option (Token × Chars) := do
  let (name, left) ← identifier? cs
  let closed := left.head? == some '\'' || (left.head? == some '#' && !startsWith "r#" cs)
  if closed then none
  else if literalStart cs then some (.punct '\'' true, cs)
  else some (.lifetime (String.ofList ('\'' :: name)), left)

def punct? (cs : Chars) : Option (Token × Chars) :=
  match cs with
  | [] => none
  | '\'' :: rest => lifetime? rest
  | c :: rest => if markAhead cs then some (.punct c (markAhead rest), rest) else none

/-- How a literal is written whose text is lost. -/
def lostLiteral : Chars := "(/*ERROR*/)".toList

/-- One token that is no delimiter. -/
def leaf? (cs : Chars) : Option (Token × Chars) :=
  match literal? cs with
  | some (text, left) => some (.literal (String.ofList text), left)
  | none =>
    match punct? cs with
    | some r => some r
    | none =>
      if literalStart cs then none
      else (identifier? cs).map fun (name, left) => (.ident (String.ofList name), left)

def opening? : Char → Option Delimiter
  | '(' => some .parenthesis
  | '[' => some .bracket
  | '\x7b' => some .brace
  | _ => none

def closing? : Char → Option Delimiter
  | ')' => some .parenthesis
  | ']' => some .bracket
  | '\x7d' => some .brace
  | _ => none

/-- Tokens up to the end; `open` holds the delimiters not closed yet, innermost first. -/
def tokensFrom : Nat → List Delimiter → Chars → Option (List Token)
  | 0, _, _ => none
  | fuel + 1, stack, cs =>
    let cs := skip cs
    match comment? cs with
    | some (.documentation d left) =>
      if returnsPaired d.text then (tokensFrom fuel stack left).map (d.tokens ++ ·) else none
    | some _ => none
    | none =>
      match cs with
      | [] => if stack.isEmpty then some [] else none
      | c :: rest =>
        match after? lostLiteral cs, opening? c, closing? c with
        | some left, _, _ =>
          (tokensFrom fuel stack left).map (.literal (String.ofList lostLiteral) :: ·)
        | none, some d, _ => (tokensFrom fuel (d :: stack) rest).map (.opening d :: ·)
        | none, none, some d =>
          match stack with
          | e :: stack =>
            if d = e then (tokensFrom fuel stack rest).map (.closing d :: ·) else none
          | [] => none
        | none, none, none =>
          (leaf? cs).bind fun (t, left) => (tokensFrom fuel stack left).map (t :: ·)

def withoutByteOrderMark (cs : Chars) : Chars :=
  match cs with
  | '\uFEFF' :: rest => rest
  | _ => cs

end Lexer

/-- The tokens of a text, unless it is not lexically sound. One byte order mark may lead it. -/
def tokens? (source : String) : Option (List Token) :=
  let cs := Lexer.withoutByteOrderMark source.toList
  Lexer.tokensFrom (cs.length + 1) [] cs

end RecordStore
