import RecordStore.Syntax.Expr

/-!
Patterns, built from their parts: the tokens, the layout, and the few forms that their context
asks for.
-/
namespace RecordStore

open Layout (word space cut cbox ibox shiftLast commaAfter)

inductive PatternForm where
  /-- A name, perhaps with a pattern for what it names. -/
  | name (n : String)
  | wildcard
  | literal
  /-- Two dots for what is not listed. -/
  | rest
  | openRange
  /-- What a box holds; nothing looks into it. -/
  | boxed
  | other
  deriving DecidableEq, Inhabited

structure Pattern where
  form : PatternForm
  tokens : List Token
  layout : Layout
  deriving Inhabited

namespace Pattern

def snippet (p : Pattern) : Snippet := ⟨p.tokens, p.layout⟩

def boxed (tokens : List Token) : Pattern := ⟨.boxed, tokens, word (tokenText tokens)⟩

def ofExpr (form : PatternForm) (e : Expr) : Pattern := ⟨form, e.tokens, e.inline⟩

def wildcard : Pattern := ⟨.wildcard, [.ident "_"], word "_"⟩

def rest : Pattern := ⟨.rest, Token.operator "..", word ".."⟩

/-- The attributes in front of a pattern; what a box holds has no place for them. -/
def withAttributes (attrs : List Attribute) (p : Pattern) : Pattern :=
  if p.form == .boxed then p
  else
    { p with
      tokens := Attribute.allTokens attrs ++ p.tokens
      layout := Attribute.outerLayout attrs ++ p.layout }

def name (byReference mutable : Bool) (n : String) (inside : Option Pattern) : Pattern :=
  let head := Snippet.keywordIf byReference "ref" ++ Snippet.keywordIf mutable "mut"
  { form := .name n
    tokens := head.tokens ++ [.ident n] ++
      (match inside with | some p => Token.operator "@" ++ p.tokens | none => [])
    layout := head.layout ++ word n ++
      (match inside with | some p => word " @ " ++ p.layout | none => []) }

def reference (mutable : Bool) (p : Pattern) : Pattern :=
  ⟨.other, Token.operator "&" ++ mutabilityTokens mutable ++ p.tokens,
    word (if mutable then "&mut " else "&") ++ p.layout⟩

def parenthesized (p : Pattern) : Pattern :=
  ⟨.other, Token.parens p.tokens, word "(" ++ p.layout ++ word ")"⟩

def listTokens (ps : List Pattern) (trailing : Bool) : List Token :=
  commaTokens (ps.map tokens) trailing

def tuple (ps : List Pattern) (trailing : Bool) : Pattern :=
  let inside := match ps with
    | [p] =>
      cbox indentation
        (cut ++ p.layout ++ (if trailing then word "," else []) ++ shiftLast (-indentation) cut)
    | ps => Layout.commaBox layout ps
  ⟨.other, Token.parens (listTokens ps trailing), word "(" ++ inside ++ word ")"⟩

def tupleOf (path : Path) (ps : List Pattern) (trailing : Bool) : Pattern :=
  ⟨.other, path.tokens ++ Token.parens (listTokens ps trailing),
    path.layout .expression ++ word "(" ++ Layout.commaBox layout ps ++ word ")"⟩

def slice (ps : List Pattern) (trailing : Bool) : Pattern :=
  ⟨.other, Token.brackets (listTokens ps trailing),
    word "[" ++ Layout.items (fun p last => p.layout ++ commaAfter last) ps ++ word "]"⟩

/-- Alternatives; the flag tells whether a bar leads them. -/
def alternatives (leading : Bool) (ps : List Pattern) : Pattern :=
  let aligned := ps.any fun p => p.form != .literal && p.form != .wildcard
  let body := match ps with
    | [] => []
    | p :: ps => p.layout ++ ps.flatMap fun q => space ++ word "| " ++ q.layout
  ⟨.other,
    (if leading then Token.operator "|" else []) ++
      separated (Token.operator "|") (ps.map tokens),
    Layout.box 0 aligned body⟩

/-- A range; half-open ones lack an end. -/
def range (first : Option Expr) (mark : String) (last : Option Expr) : Pattern :=
  ofExpr (if first.isNone || last.isNone then .openRange else .other) (Expr.range first mark last)

/-- A field of a record pattern; shorthand fields have no member of their own. -/
structure Field where
  attributes : List Attribute
  member : Option Token
  pattern : Pattern

namespace Field

def tokens (f : Field) : List Token :=
  Attribute.allTokens f.attributes ++
    (match f.member with | some m => m :: Token.operator ":" | none => []) ++ f.pattern.tokens

def layout (f : Field) : Layout :=
  Attribute.outerLayout f.attributes ++
    (match f.member with | some m => word m.text ++ word ": " | none => []) ++ f.pattern.layout

end Field

/-- A record pattern; `others` is what stands before the two dots, if they are there. -/
def record (path : Path) (fields : List Field) (trailing : Bool)
    (others : Option (List Attribute)) : Pattern :=
  let restTokens := match others with
    | some attrs => Attribute.allTokens attrs ++ Token.operator ".."
    | none => []
  let comma' := if fields.isEmpty || trailing || others.isNone then [] else comma
  let restLayout := match others with
    | some attrs => Attribute.outerLayout attrs ++ word ".." ++ space
    | none => []
  ⟨.other,
    path.tokens ++
      Token.braces (commaTokens (fields.map Field.tokens) trailing ++ comma' ++ restTokens),
    cbox indentation
      (path.layout .expression ++ word " \x7b" ++
        shiftLast (-indentation)
          (Layout.spaceIfMore ++
            Layout.items
              (fun f last => f.layout ++ Layout.commaOrSpaceAfter (last && others.isNone)) fields ++
            restLayout)) ++
      word "\x7d"⟩

/-- A pattern with the type of what it matches. -/
def typed (p : Pattern) (ty : Ty) : Pattern :=
  ⟨.other, p.tokens ++ Token.operator ":" ++ ty.tokens, p.layout ++ word ": " ++ ty.layout⟩

end Pattern
end RecordStore
