import RecordStore.Syntax.Layout
import RecordStore.Syntax.Literal
import RecordStore.Syntax.Token

/-!
Pieces of source text that nothing looks into: their tokens, and how they are laid out.
-/
namespace RecordStore

/-- Width of one level of indentation. -/
def indentation : Int := 4

structure Snippet where
  tokens : List Token
  layout : Layout
  deriving Inhabited

namespace Snippet

def empty : Snippet := ⟨[], []⟩

/-- A single word. -/
def name (n : String) : Snippet := ⟨[.ident n], Layout.word n⟩

def append (a b : Snippet) : Snippet := ⟨a.tokens ++ b.tokens, a.layout ++ b.layout⟩

instance : Append Snippet := ⟨append⟩

def ofOption : Option Snippet → Snippet
  | some s => s
  | none => empty

/-- A word in the tokens and a text in the layout. -/
def keyword (word text : String) : Snippet := ⟨[.ident word], Layout.word text⟩

/-- A word that stands there or not. -/
def keywordIf (b : Bool) (word : String) : Snippet :=
  if b then keyword word (word ++ " ") else empty

end Snippet

namespace Layout

/-- Items in order; the flag given to each tells whether it is the last one. -/
def items {α : Type} (f : α → Bool → Layout) : List α → Layout
  | [] => []
  | [a] => f a true
  | a :: b :: rest => f a false ++ items f (b :: rest)

/-- Items between delimiters, each on a line of its own when they do not fit on one. -/
def commaBox {α : Type} (f : α → Layout) (as : List α) : Layout :=
  cbox indentation
    (shiftLast (-indentation) (cut ++ items (fun a last => f a ++ commaAfter last) as))

end Layout

/-! ### Tokens of macro calls -/

namespace MacroTokens

/-- What was read before, as far as it decides whether a blank follows. -/
inductive State where
  | start
  | dollar
  | dollarCrate
  | dollarName
  | dollarNameColon
  | dollarGroup
  | dollarSeparator
  | pound
  | poundBang
  | dot
  | colon
  | colonPair
  | name
  | nameBang
  | group
  | other
  deriving DecidableEq

def keywords : List String :=
  ["as", "async", "await", "box", "break", "const", "continue", "crate", "dyn", "else", "enum",
   "extern", "fn", "for", "if", "impl", "in", "let", "loop", "macro", "match", "mod", "move", "mut",
   "pub", "ref", "return", "static", "struct", "trait", "type", "unsafe", "use", "where", "while",
   "yield"]

def isRepeatMark (c : Char) : Bool := c == '+' || c == '*' || c == '?'

/-- Rules that look at what was read before. -/
def special (matcher : Bool) (state : State) (t : Token) : Option State :=
  match state, t with
  | .dollar, .ident n =>
    some (if matcher then .dollarName else if n == "crate" then .dollarCrate else .other)
  | .dollarName, .punct ':' false => some .dollarNameColon
  | .dollarNameColon, .ident _ => some .other
  | .dollarGroup, .punct c joint =>
    some (if joint then .dollarGroup else if isRepeatMark c then .other else .dollarSeparator)
  | .dollarGroup, .ident _ => some .dollarSeparator
  | .dollarGroup, .literal _ => some .dollarSeparator
  | .dollarSeparator, .punct '+' _ => some .other
  | .dollarSeparator, .punct '*' _ => some .other
  | .pound, .punct '!' _ => some .poundBang
  | .dollar, .opening .parenthesis => some .dollarGroup
  | .pound, .opening .bracket => some .other
  | .poundBang, .opening .bracket => some .other
  | .name, .opening .parenthesis => some .group
  | .name, .opening .bracket => some .group
  | .name, .punct '!' false => some .nameBang
  | .nameBang, .opening .parenthesis => some .other
  | .nameBang, .opening .bracket => some .other
  | .colon, .punct ':' _ => some .colonPair
  | _, _ => none

/-- Whether a blank belongs before a token that is no lifetime, and the state after it. -/
def advanceOne (matcher : Bool) (state : State) (t : Token) : Bool × State :=
  match special matcher state t with
  | some next => (false, next)
  | none =>
    match t with
    | .opening .brace => (true, .other)
    | .opening _ => (true, .group)
    | .ident n =>
      if keywords.contains n then (true, .other) else (state != .dot && state != .colonPair, .name)
    | .literal text => (state != .dot, if Literal.endsInPoint text then .other else .name)
    | .punct c joint =>
      if c == ',' || c == ';' then (false, .other)
      else if c == '.' && !matcher then (state != .name && state != .group, .dot)
      else if c == ':' && joint then (state != .name && state != .dollarCrate, .colon)
      else if c == '$' then (true, .dollar)
      else if c == '#' then (true, .pound)
      else (true, .other)
    | _ => (false, .other)

/-- Whether a blank belongs before a token, and the state after it. A lifetime counts as a quote
and a name. -/
def advance (matcher : Bool) (state : State) (t : Token) : Bool × State :=
  match t with
  | .lifetime n =>
    let (wanted, next) := advanceOne matcher state (.punct '\'' true)
    (wanted, (advanceOne matcher next (.ident (n.drop 1).toString)).2)
  | t => advanceOne matcher state t

def isJoint : Token → Bool
  | .punct c joint => joint || c == '$'
  | _ => false

def isDot : Token → Bool
  | .punct '.' _ => true
  | _ => false

/-- Tokens with blanks where they are usual. `outer` holds the states to go on with after the
groups that are open. -/
def spread (matcher : Bool) : (outer : List State) → State → (joint : Bool) → List Token → Layout
  | _, _, _, [] => []
  | outer, state, joint, t :: ts =>
    match t with
    | .closing d =>
      let before := if d == .brace && state != .start then Layout.space else []
      before ++ Layout.word t.text ++
        spread matcher (outer.drop 1) (outer.headD .other) false ts
    | _ =>
      let (wanted, next) := advance matcher state t
      let before :=
        if joint then [] else if wanted then Layout.space else if isDot t then Layout.cut else []
      match t with
      | .opening d =>
        let inside := match ts with
          | .closing _ :: _ => []
          | _ => if d == .brace then Layout.space else []
        before ++ Layout.word t.text ++ inside ++ spread matcher (next :: outer) .start true ts
      | _ => before ++ Layout.word t.text ++ spread matcher outer next (isJoint t) ts

def layout (matcher : Bool) (tokens : List Token) : Layout := spread matcher [] .start true tokens

/-- The layout of a call's delimiters and what stands between them. -/
def delimited (d : Delimiter) (tokens : List Token) : Layout :=
  let gap := if d == .brace then Layout.line else Layout.cut
  let body :=
    if tokens.isEmpty then []
    else
      Layout.cbox indentation
        (Layout.shiftLast (-indentation)
          (gap ++ Layout.ibox 0 (layout false tokens) ++ gap))
  Layout.word ((if d == .brace then " " else "") ++ d.openText) ++ body ++ Layout.word d.closeText

end MacroTokens

/-! ### Attributes -/

/-- What an attribute says besides its path. -/
inductive AttributeValue where
  | none
  | list (d : Delimiter) (tokens : List Token)
  /-- A value; `text` is known when it is a string literal. -/
  | value (text : Option String) (code : Snippet)
  deriving Inhabited

/-- An attribute, inner when it stands inside of what it is about. -/
structure Attribute where
  inner : Bool
  path : Snippet
  value : AttributeValue
  deriving Inhabited

namespace Attribute

def tokens (a : Attribute) : List Token :=
  .punct '#' false :: ((if a.inner then [Token.punct '!' false] else []) ++
    Token.brackets (a.path.tokens ++
      match a.value with
      | .none => []
      | .list d ts => Token.group d ts
      | .value _ code => Token.operator "=" ++ code.tokens))

/-- The path of an attribute when it is a single word. -/
def name? (a : Attribute) : Option String :=
  match a.path.tokens with
  | [.ident n] => some n
  | _ => none

/-- The state of writing an attribute's list: what came last. -/
inductive State where
  | word
  | mark
  | trailingComma
  deriving DecidableEq

/-- A list's tokens; commas separate, and parentheses may be broken over lines. -/
def listLayout : State → List Token → Layout
  | _, [] => []
  | state, t :: ts =>
    match t with
    | .punct c _ =>
      let before := if state == .word && c == '=' then Layout.word " " else []
      match c == ',', ts with
      | true, .closing d :: _ =>
        let offset := if d == .parenthesis then -indentation else 0
        before ++ Layout.shiftLast offset (Layout.commaAfter true) ++ listLayout .trailingComma ts
      | _, _ =>
        before ++ Layout.word c.toString ++
          (if c == '=' then Layout.word " " else if c == ',' then Layout.space else []) ++
          listLayout .mark ts
    | .opening .parenthesis =>
      Layout.word "(" ++ (.enter indentation true :: Layout.cut) ++ listLayout .mark ts
    | .opening d => Layout.word d.openText ++ listLayout .mark ts
    | .closing .parenthesis =>
      let gap := if state == .trailingComma then [] else Layout.shiftLast (-indentation) Layout.cut
      gap ++ [.leave] ++ Layout.word ")" ++ listLayout .mark ts
    | .closing d => Layout.word d.closeText ++ listLayout .mark ts
    | .lifetime n => Layout.word n ++ listLayout .word ts
    | t =>
      (if state == .word then Layout.space else []) ++ Layout.word t.text ++ listLayout .word ts

/-- Drop the blanks at the end of a text. -/
def trimEnd (s : String) : String :=
  String.ofList ((s.toList.reverse.dropWhile (· == ' ')).reverse)

/-- Whether the comment marks in a text are paired, so that it can stand in a block comment. -/
def balanced : (depth : Nat) → List Char → Bool
  | depth, '/' :: '*' :: rest => balanced (depth + 1) rest
  | 0, '*' :: '/' :: _ => false
  | _, ['*', '/'] => false
  | depth + 1, '*' :: '/' :: rest => balanced depth rest
  | depth, [c] => depth == 0 && c != '/'
  | depth, _ :: rest => balanced depth rest
  | depth, [] => depth == 0

/-- Drop the blanks at the ends of all lines but the last. -/
def trimInner (s : String) : String :=
  let lines := s.splitOn "\n"
  "\n".intercalate (lines.dropLast.map trimEnd ++ lines.drop (lines.length - 1))

/-- Documentation is written as a comment where it can be. -/
def comment? (a : Attribute) : Option String :=
  match a.name?, a.value with
  | some name, .value (some text) _ =>
    let cs := text.toList
    let starts (marks : List Char) := cs.head?.any marks.contains
    let onOneLine := !cs.contains '\n'
    let line (mark : String) := some (mark ++ trimEnd text)
    let block (mark : String) := some (mark ++ trimInner text ++ "*/")
    if name == "doc" then
      if onOneLine && (a.inner || !starts ['/']) then line (if a.inner then "//!" else "///")
      else if balanced 0 cs && (a.inner || !starts ['*', '/']) then
        block (if a.inner then "/*!" else "/**")
      else none
    else if name == "comment" then
      if onOneLine then line "//"
      else if balanced 0 cs && !starts ['*', '!'] then block "/*"
      else none
    else none
  | _, _ => none

def layout (a : Attribute) : Layout :=
  match a.comment? with
  | some text => Layout.word text ++ Layout.line
  | none =>
    Layout.word (if a.inner then "#![" else "#[") ++ a.path.layout ++
      (match a.value with
      | .none => []
      | .list d ts => listLayout .mark (Token.group d ts)
      | .value _ code => Layout.word " = " ++ code.layout) ++
      Layout.word "]" ++ Layout.space

def allTokens (attrs : List Attribute) : List Token := attrs.flatMap tokens

def outerLayout (attrs : List Attribute) : Layout :=
  (attrs.filter (!·.inner)).flatMap layout

def innerLayout (attrs : List Attribute) : Layout :=
  (attrs.filter (·.inner)).flatMap layout

end Attribute
end RecordStore
