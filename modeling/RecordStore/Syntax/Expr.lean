import RecordStore.Syntax.Type

/-!
Expressions and blocks, built from their parts. An expression carries its tokens and knows how it
is laid out in each place where one can stand; nothing else is kept of its structure.
-/
namespace RecordStore

open Layout (word space cut line noCut cbox ibox shiftLast commaAfter)

/-- Where an expression stands, as far as its layout depends on it. -/
inductive Placement where
  | inline
  | lineStart
  /-- What a further link of a chain is attached to. -/
  | chained (lineStart : Bool)
  /-- The body of a match arm, after what its attributes are laid out as. -/
  | arm (before : Layout)

/-- Forms of expressions. -/
inductive ExprForm where
  | array
  | assignment
  | asyncBlock
  | awaiting
  | binary (comparison compound : Bool)
  | block
  | call
  | cast
  | closure
  | conditional
  | constBlock
  | field
  | index
  | jump
  | loop
  | iteration
  | condition
  | literal (simple : Bool)
  | invocation (d : Delimiter)
  | selection
  | methodCall
  | parenthesized
  | path (short : Bool)
  | placeholder
  | range
  | reference
  | repetition
  | record
  | attempt
  | tryBlock
  | tuple (empty : Bool)
  | unary
  | unsafeBlock
  /-- Tokens that nothing looks into. -/
  | verbatim
  | yielding
  deriving DecidableEq

/-- An expression.

* `attributed`: it has attributes, before it or inside of its braces;
* `splits`: a line may end inside of it, outside of delimiters;
* `startsStatement`: at the start of a statement it is still read as this expression;
* `dropsSemicolon`: it ends a statement by itself. -/
structure Expr where
  form : ExprForm
  attributed : Bool
  splits : Bool
  startsStatement : Bool
  dropsSemicolon : Bool
  tokens : List Token
  layout : Placement → Layout

instance : Inhabited Expr :=
  ⟨.placeholder, false, false, true, false, [], fun _ => []⟩

/-- A statement. The flag tells the layout whether it is the last one of its block; `tail` is the
expression when the statement is one without a semicolon. -/
structure Stmt where
  tokens : List Token
  layout : Bool → Layout
  tail : Option Expr
  needsSemicolon : Bool

instance : Inhabited Stmt := ⟨[], fun _ => [], none, false⟩

structure Block where
  inner : List Attribute
  stmts : List Stmt
  deriving Inhabited

namespace ExprForm

/-- Expressions whose delimiters hold the rest of a call's argument list together. -/
def blockLike : ExprForm → Bool
  | array => true
  | asyncBlock => true
  | block => true
  | closure => true
  | constBlock => true
  | record => true
  | tryBlock => true
  | tuple _ => true
  | unsafeBlock => true
  | _ => false

/-- Expressions that are statements without a semicolon. -/
def isStatement : ExprForm → Bool
  | conditional => true
  | selection => true
  | block => true
  | unsafeBlock => true
  | loop => true
  | iteration => true
  | tryBlock => true
  | constBlock => true
  | _ => false

/-- As a last expression these are written with a semicolon. -/
def addsSemicolon : ExprForm → Bool
  | assignment => true
  | binary _ compound => compound
  | jump => true
  | yielding => true
  | _ => false

end ExprForm

namespace Expr

def inline (e : Expr) : Layout := e.layout .inline
def atLineStart (e : Expr) : Layout := e.layout .lineStart

def snippet (e : Expr) : Snippet := ⟨e.tokens, e.inline⟩

def blockLike (e : Expr) : Bool := e.form.blockLike && !e.attributed

def endsInBrace (e : Expr) : Bool := e.tokens.getLast? == some (.closing .brace)

/-- A number with a point and nothing after it. -/
def endsInPoint (e : Expr) : Bool :=
  match e.tokens with
  | [.literal text] => Literal.endsInPoint text
  | _ => false

/-- A name too short to end a line after. -/
def isShortName (e : Expr) : Bool := e.form == .path true && !e.attributed

/-- Whether a semicolon has to follow when another statement does. -/
def needsSemicolon (e : Expr) : Bool :=
  match e.form with
  | .invocation d => d != .brace
  | form => !form.isStatement

/-- As the body of a match arm, in braces when it takes more than a line. -/
def armLayout (e : Expr) (content : Layout) : Layout :=
  let braced := e.startsStatement
  noCut ++ cbox indentation
    ([.gap { before := if braced then "\x7b" else "(" }] ++ content ++
      [.gap {
        offset := -indentation
        before := if braced && e.form.addsSemicolon then ";" else ""
        start := if braced then "\x7d" else "),"
        stay := if e.form.isStatement then "" else "," }])

/-- Layouts in all places, from the one that most of them share. -/
def placed (e : Expr) (layout : Layout) : Expr :=
  { e with
    layout := fun
      | .inline => layout
      | .lineStart => layout
      | .chained _ => cbox (-indentation) layout
      | .arm before => e.armLayout (before ++ layout) }

/-- An expression that is laid out alike wherever it stands. -/
def simple (form : ExprForm) (tokens : List Token) (layout : Layout) : Expr :=
  placed { (default : Expr) with form, tokens } layout

/-- Tokens that nothing looks into take no attributes. -/
def withAttributes (attrs : List Attribute) (e : Expr) : Expr :=
  if attrs.isEmpty || e.form == .verbatim then e
  else
    { e with
      attributed := true
      tokens := Attribute.allTokens attrs ++ e.tokens
      layout := fun
        | .arm before => e.layout (.arm (before ++ Attribute.outerLayout attrs))
        | place => Attribute.outerLayout attrs ++ e.layout place }

/-! ### Names and literals -/

def ofLiteral (tokens : List Token) : Expr :=
  let text := String.join (tokens.map Token.text)
  simple (.literal (Literal.isScalar text)) tokens (word text)

def ofPath (p : Path) : Expr :=
  simple (.path (p.name?.any fun n => n.utf8ByteSize ≤ 4)) p.tokens (p.layout .expression)

def placeholder : Expr := simple .placeholder [.ident "_"] (word "_")

def verbatim (tokens : List Token) : Expr := simple .verbatim tokens (word (tokenText tokens))

/-- A macro call. -/
def invocation (p : Path) (d : Delimiter) (body : List Token) : Expr :=
  simple (.invocation d) (p.tokens ++ Token.operator "!" ++ Token.group d body)
    (p.layout .plain ++ word "!" ++ MacroTokens.delimited d body)

/-! ### Delimited lists -/

def array (es : List Expr) (trailing : Bool) : Expr :=
  let isSimple (e : Expr) : Bool := e.form == .literal true
  simple .array (Token.brackets (commaTokens (es.map tokens) trailing))
    (if es.isEmpty then word "[]"
    else if es.all isSimple then
      cbox indentation
        (word "[" ++ cut ++
          ibox 0
            (Layout.items (fun e last => e.inline ++ if last then [] else word "," ++ space) es) ++
          shiftLast (-indentation) (commaAfter true) ++ word "]")
    else word "[" ++ Layout.commaBox inline es ++ word "]")

def repetition (e length : Expr) : Expr :=
  simple .repetition (Token.brackets (e.tokens ++ Token.operator ";" ++ length.tokens))
    (word "[" ++ e.inline ++ word "; " ++ length.inline ++ word "]")

def parenthesized (e : Expr) : Expr :=
  { simple .parenthesized (Token.parens e.tokens) (word "(" ++ e.inline ++ word ")") with
    splits := e.splits }

def tuple (es : List Expr) (trailing : Bool) : Expr :=
  let layout := match es with
    | [e] =>
      word "(" ++
        cbox indentation (cut ++ e.inline ++ word "," ++ shiftLast (-indentation) cut) ++ word ")"
    | es => word "(" ++ Layout.commaBox inline es ++ word ")"
  let e := simple (.tuple es.isEmpty)
    (Token.parens (commaTokens (es.map tokens) (trailing || es.length == 1))) layout
  if es.isEmpty then
    { e with
      layout := fun
        | .arm [] => word "\x7b" ++ noCut ++ word "\x7d"
        | place => e.layout place }
  else e

/-- The arguments of a call. A single argument with delimiters of its own needs no box. -/
def argumentLayout (es : List Expr) : Layout :=
  match es with
  | [e] => if e.blockLike then e.inline else Layout.commaBox inline es
  | es => Layout.commaBox inline es

def argumentTokens (es : List Expr) (trailing : Bool) : List Token :=
  Token.parens (commaTokens (es.map tokens) trailing)

/-! ### Chains -/

/-- A line may end before a link of a chain, but not after a short name at its start. The point of
a link must not follow the point of a number at once. -/
def linkCut (lineStart : Bool) (e : Expr) : Layout :=
  if lineStart && e.isShortName then []
  else if e.endsInPoint then space
  else cut

/-- An expression whose links are indented under its start. -/
def chain (e : Expr) (link : Bool → Layout) : Expr :=
  { e with
    layout := fun
      | .inline => cbox indentation (link false)
      | .lineStart => cbox indentation (link true)
      | .chained lineStart => link lineStart
      | .arm before => e.armLayout (before ++ cbox indentation (link true)) }

/-- An expression that continues another one without a place to end the line. -/
def continued (e : Expr) (base : Expr) (tail : Layout) : Expr :=
  { e with
    layout := fun
      | .arm before => e.armLayout (before ++ base.atLineStart ++ tail)
      | place => base.layout place ++ tail }

def call (f : Expr) (args : List Expr) (trailing : Bool) : Expr :=
  let e : Expr := { (default : Expr) with
    form := .call
    splits := f.splits
    startsStatement := !f.form.isStatement && f.startsStatement
    tokens := f.tokens ++ argumentTokens args trailing }
  let tail := word "(" ++ argumentLayout args ++ word ")"
  { e with
    layout := fun
      | .inline => f.inline ++ tail
      | .lineStart => f.inline ++ tail
      | .chained _ => f.layout (.chained false) ++ tail
      | .arm before => e.armLayout (before ++ f.inline ++ tail) }

/-- A method call; `turbofish` holds generic arguments. -/
def methodCall (receiver : Expr) (method : String) (turbofish : Arguments) (args : List Expr)
    (trailing : Bool) : Expr :=
  let e : Expr := { (default : Expr) with
    form := .methodCall
    splits := true
    startsStatement := receiver.startsStatement
    tokens := receiver.tokens ++ Token.operator "." ++ [.ident method] ++ turbofish.tokens ++
      argumentTokens args trailing }
  let link (unindent lineStart : Bool) : Layout :=
    receiver.layout (.chained lineStart) ++ linkCut lineStart receiver ++ word "." ++ word method ++
      turbofish.layout .expression ++
      cbox (if unindent then -indentation else 0) (word "(" ++ argumentLayout args ++ word ")")
  { e with
    layout := fun
      | .inline => cbox indentation (link false false)
      | .lineStart => cbox indentation (link receiver.isShortName true)
      | .chained lineStart => link false lineStart
      | .arm before =>
        e.armLayout (before ++ cbox indentation (link receiver.isShortName true)) }

/-- A field, by name or by position. -/
def field (base : Expr) (member : Token) : Expr :=
  chain { (default : Expr) with
      form := .field
      splits := true
      startsStatement := base.startsStatement
      tokens := base.tokens ++ Token.operator "." ++ [member] }
    fun lineStart => base.layout (.chained lineStart) ++ linkCut lineStart base ++ word "." ++
      word member.text

def awaiting (base : Expr) : Expr :=
  chain { (default : Expr) with
      form := .awaiting
      splits := true
      startsStatement := base.startsStatement
      tokens := base.tokens ++ Token.operator "." ++ [.ident "await"] }
    fun lineStart => base.layout (.chained lineStart) ++ linkCut lineStart base ++ word ".await"

def index (base i : Expr) : Expr :=
  continued { (default : Expr) with
      form := .index
      splits := true
      startsStatement := !base.form.isStatement && base.startsStatement
      tokens := base.tokens ++ Token.brackets i.tokens }
    base (word "[" ++ i.inline ++ word "]")

def attempt (base : Expr) : Expr :=
  continued { (default : Expr) with
      form := .attempt
      splits := base.splits
      startsStatement := base.startsStatement
      tokens := base.tokens ++ Token.operator "?" }
    base (word "?")

/-! ### Operators -/

def unary (mark : String) (e : Expr) : Expr :=
  { simple .unary (Token.operator mark ++ e.tokens) (word mark ++ e.inline) with
    splits := e.splits }

def reference (mutable : Bool) (e : Expr) : Expr :=
  { simple .reference (Token.operator "&" ++ mutabilityTokens mutable ++ e.tokens)
      (word (if mutable then "&mut " else "&") ++ e.inline) with
    splits := e.splits }

def rawAddress (mutable : Bool) (e : Expr) : Expr :=
  let kind := if mutable then "mut" else "const"
  { simple .reference (Token.operator "&" ++ [.ident "raw", .ident kind] ++ e.tokens)
      (word ("&raw " ++ kind ++ " ") ++ e.inline) with
    splits := e.splits }

/-- Whether an expression can be the left operand at the start of a statement. -/
def leadsStatement (e : Expr) : Bool := !e.form.isStatement && e.startsStatement

def isComparison (mark : String) : Bool := ["==", "!=", "<", ">", "<=", ">="].contains mark

def isCompound (mark : String) : Bool :=
  ["+=", "-=", "*=", "/=", "%=", "^=", "&=", "|=", "<<=", ">>="].contains mark

def binary (left : Expr) (mark : String) (right : Expr) : Expr :=
  placed { (default : Expr) with
      form := .binary (isComparison mark) (isCompound mark)
      splits := true
      startsStatement := left.leadsStatement
      tokens := left.tokens ++ Token.operator mark ++ right.tokens }
    (ibox indentation
      (ibox (-indentation) left.inline ++ space ++ word mark ++ word " " ++ right.inline))

def assignment (left right : Expr) : Expr :=
  placed { (default : Expr) with
      form := .assignment
      splits := true
      startsStatement := left.startsStatement
      tokens := left.tokens ++ Token.operator "=" ++ right.tokens }
    (ibox 0 (left.inline ++ word " = " ++ noCut ++ right.inline))

def cast (e : Expr) (ty : Ty) : Expr :=
  placed { (default : Expr) with
      form := .cast
      splits := true
      startsStatement := e.leadsStatement
      tokens := e.tokens ++ [.ident "as"] ++ ty.tokens }
    (ibox indentation (ibox (-indentation) e.inline ++ space ++ word "as " ++ ty.layout))

def range (first : Option Expr) (mark : String) (last : Option Expr) : Expr :=
  let tokensOf (e : Option Expr) : List Token := match e with | some e => e.tokens | none => []
  let layoutOf (e : Option Expr) : Layout := match e with | some e => e.inline | none => []
  placed { (default : Expr) with
      form := .range
      splits := last.any (·.splits)
      startsStatement := first.all leadsStatement
      tokens := tokensOf first ++ Token.operator mark ++ tokensOf last }
    (layoutOf first ++ word mark ++ layoutOf last)

/-- A word, an optional label and an optional value. -/
def jump (form : ExprForm) (w : String) (label : Option String) (value : Option Expr) : Expr :=
  let labelTokens := match label with | some l => [Token.lifetime l] | none => []
  let labelLayout := match label with | some l => word " " ++ word l | none => []
  let valueTokens := match value with | some v => v.tokens | none => []
  let valueLayout := match value with | some v => word " " ++ v.inline | none => []
  { simple form (.ident w :: labelTokens ++ valueTokens)
      (word w ++ labelLayout ++ valueLayout) with
    splits := value.any (·.splits) }

end Expr

/-! ### Blocks -/

namespace Block

def tokens (b : Block) : List Token :=
  Token.braces (Attribute.allTokens b.inner ++ b.stmts.flatMap Stmt.tokens)

def stmtLayout (b : Block) : Layout :=
  Attribute.innerLayout b.inner ++ Layout.items Stmt.layout b.stmts

/-- The expression of a block that holds nothing else. -/
def single? (b : Block) : Option Expr :=
  match b.stmts with
  | [s] => s.tail
  | _ => none

/-- Braces with each statement on a line of its own. -/
def bodyLayout (b : Block) : Layout :=
  cbox indentation (shiftLast (-indentation) (Layout.lineIfMore ++ b.stmtLayout)) ++ word "\x7d"

/-- A block that may stand on one line when it holds a single expression. The box around it is
the caller's. -/
def smallLayout (b : Block) : Layout :=
  word "\x7b" ++
    (if b.inner.isEmpty && b.stmts.isEmpty then []
    else
      shiftLast (-indentation)
        (space ++
          (match b.single? with
          | some e => Attribute.innerLayout b.inner ++ ibox 0 e.atLineStart ++ space
          | none => b.stmtLayout))) ++
    word "\x7d"

end Block

namespace Expr

/-- An expression in braces of its own. -/
def asSmallBlock (offset : Int) (e : Expr) : Layout :=
  word "\x7b" ++ space ++ ibox offset e.atLineStart ++ shiftLast (-indentation) space ++ word "\x7d"

def labelTokens (label : Option String) : List Token :=
  match label with
  | some l => .lifetime l :: Token.operator ":"
  | none => []

def labelLayout (label : Option String) : Layout :=
  match label with
  | some l => word (l ++ ": ")
  | none => []

/-- A block with words before it. -/
def wordedBlock (form : ExprForm) (words : List String) (b : Block) : Expr :=
  { simple form (words.map Token.ident ++ b.tokens)
      (word (String.join (words.map (· ++ " "))) ++ cbox indentation b.smallLayout) with
    attributed := !b.inner.isEmpty }

/-- A block; as the body of an arm it gives way to a single expression inside of it, or else loses
its attributes. -/
def ofBlock (label : Option String) (b : Block) : Expr :=
  let e : Expr := { (default : Expr) with
    form := .block
    attributed := !b.inner.isEmpty
    tokens := labelTokens label ++ b.tokens }
  let layout := labelLayout label ++ cbox indentation b.smallLayout
  let peeled := if label.isNone && b.inner.isEmpty then b.single? else none
  { e with
    layout := fun
      | .inline => layout
      | .lineStart => layout
      | .chained _ => cbox (-indentation) layout
      | .arm before =>
        match before, peeled with
        | [], some inner => inner.layout (.arm [])
        | _, _ => labelLayout label ++ word "\x7b" ++ noCut ++ b.bodyLayout }

/-- The condition of a branch or loop; the line may end after a long one. -/
def conditionLayout (e : Expr) : Layout :=
  cbox 0 (e.inline ++ if e.splits then space else word " ")

def letCondition (pattern : Snippet) (e : Expr) : Expr :=
  { simple .condition ([.ident "let"] ++ pattern.tokens ++ Token.operator "=" ++ e.tokens)
      (word "let " ++ ibox 0 (pattern.layout ++ word " = " ++ noCut ++ e.inline)) with
    splits := e.splits }

/-- Conditions with their blocks, and the block for when none holds. -/
def conditional (condition : Expr) (body : Block) (others : List (Expr × Block))
    (otherwise : Option Block) : Expr :=
  let branchTokens (c : Expr) (b : Block) : List Token := .ident "if" :: c.tokens ++ b.tokens
  let head (c : Expr) : Layout := word "if " ++ cbox (-indentation) c.conditionLayout
  let otherwiseTokens := match otherwise with
    | some b => .ident "else" :: b.tokens
    | none => []
  let otherwiseLayout := match otherwise with
    | some b => word " else " ++ b.smallLayout
    | none => []
  let layout :=
    if others.isEmpty && otherwise.isNone then
      cbox indentation
        (head condition ++
          if body.stmts.isEmpty then word "\x7b\x7d"
          else word "\x7b" ++ shiftLast (-indentation) (line ++ body.stmtLayout) ++ word "\x7d")
    else
      cbox indentation
        (head condition ++ body.smallLayout ++
          others.flatMap (fun (c, b) => word " else " ++ head c ++ b.smallLayout) ++
          otherwiseLayout)
  { simple .conditional
      (branchTokens condition body ++
        others.flatMap (fun (c, b) => .ident "else" :: branchTokens c b) ++ otherwiseTokens)
      layout with
    dropsSemicolon := otherwise.isNone }

def loop (label : Option String) (b : Block) : Expr :=
  simple .loop (labelTokens label ++ [.ident "loop"] ++ b.tokens)
    (labelLayout label ++ word "loop \x7b" ++ b.bodyLayout)

def whileLoop (label : Option String) (condition : Expr) (b : Block) : Expr :=
  { simple .iteration (labelTokens label ++ [.ident "while"] ++ condition.tokens ++ b.tokens)
      (labelLayout label ++ word "while " ++ condition.conditionLayout ++ word "\x7b" ++ noCut ++
        b.bodyLayout) with
    dropsSemicolon := true }

def forLoop (label : Option String) (pattern : Snippet) (source : Expr) (b : Block) : Expr :=
  { simple .iteration
      (labelTokens label ++ [.ident "for"] ++ pattern.tokens ++ [.ident "in"] ++ source.tokens ++
        b.tokens)
      (ibox 0
        (labelLayout label ++ word "for " ++ pattern.layout ++ word " in " ++ noCut ++
          source.conditionLayout ++ word "\x7b" ++ noCut ++ b.bodyLayout)) with
    dropsSemicolon := true }

/-- An arm of a selection; the comma is as it was written. -/
structure Arm where
  attributes : List Attribute
  pattern : Snippet
  guard : Option Expr
  body : Expr
  comma : Bool

namespace Arm

def tokens (a : Arm) : List Token :=
  Attribute.allTokens a.attributes ++ a.pattern.tokens ++
    (match a.guard with | some g => .ident "if" :: g.tokens | none => []) ++
    Token.operator "=>" ++ a.body.tokens ++ if a.comma then RecordStore.comma else []

def layout (a : Arm) : Layout :=
  Attribute.outerLayout a.attributes ++
    ibox 0
      (a.pattern.layout ++
        (match a.guard with | some g => word " if " ++ g.inline | none => []) ++
        word " => " ++ a.body.layout (.arm [])) ++
    line

end Arm

def selection (scrutinee : Expr) (inner : List Attribute) (arms : List Arm) : Expr :=
  { simple .selection
      ([.ident "match"] ++ scrutinee.tokens ++
        Token.braces (Attribute.allTokens inner ++ arms.flatMap Arm.tokens))
      (ibox 0
        (word "match " ++ scrutinee.conditionLayout ++ word "\x7b" ++ noCut ++
          cbox indentation
            (shiftLast (-indentation)
              (Layout.lineIfMore ++ Attribute.innerLayout inner ++ arms.flatMap Arm.layout)) ++
          word "\x7d")) with
    attributed := !inner.isEmpty }

/-! ### Closures and records -/

/-- A closure; `head` is what stands before the inputs. -/
def closure (head : Snippet) (inputs : List Snippet) (trailing : Bool) (output : Option Ty)
    (body : Expr) : Expr :=
  let names :=
    (if inputs.isEmpty then [] else cut) ++
      Layout.items (fun i last => i.layout ++ if last then [] else word "," ++ space) inputs
  let layout := match output with
    | none =>
      let bare := match body.form with
        | .selection => !body.attributed
        | .call => !body.attributed
        | _ => body.blockLike
      let braced := body.startsStatement
      ibox 0
        (head.layout ++
          cbox indentation (word "|" ++ names ++ word "|" ++ shiftLast (-indentation) space) ++
          noCut ++
          if bare then body.inline
          else
            cbox indentation
              ([.gap { before := if braced then "\x7b" else "(" }] ++ body.inline ++
                [.gap {
                  offset := -indentation
                  before := if braced && body.form.addsSemicolon then ";" else ""
                  start := if braced then "\x7d" else ")" }]))
    | some ty =>
      ibox 0
        (head.layout ++
          cbox indentation
            (word "|" ++ names ++
              (if inputs.isEmpty then [] else shiftLast (-indentation) (commaAfter true)) ++
              word "|") ++
          word " -> " ++ ty.layout ++ word " " ++ noCut ++
          if body.form == .block && !body.attributed then body.inline
          else cbox indentation (body.asSmallBlock 0))
  simple .closure
    (head.tokens ++ Token.operator "|" ++
      commaTokens (inputs.map Snippet.tokens) trailing ++ Token.operator "|" ++
      Ty.outputTokens output ++ body.tokens)
    layout

/-- A field with its value; shorthand fields have none. -/
structure FieldValue where
  attributes : List Attribute
  member : Token
  value : Option Expr

namespace FieldValue

def tokens (f : FieldValue) : List Token :=
  Attribute.allTokens f.attributes ++ f.member ::
    match f.value with | some e => Token.operator ":" ++ e.tokens | none => []

def layout (f : FieldValue) : Layout :=
  Attribute.outerLayout f.attributes ++ word f.member.text ++
    match f.value with | some e => word ": " ++ ibox 0 e.inline | none => []

end FieldValue

/-- A record expression; `rest` is what stands after two dots, if they are there. Dots alone are
not laid out. -/
def record (p : Path) (fields : List FieldValue) (trailing : Bool) (rest : Option (Option Expr)) :
    Expr :=
  let restTokens := match rest with
    | some e => Token.operator ".." ++ (match e with | some e => e.tokens | none => [])
    | none => []
  let comma' := if fields.isEmpty || trailing || rest.isNone then [] else comma
  let base := rest.join
  let baseLayout := match base with
    | some e => word ".." ++ e.inline ++ space
    | none => []
  let head := ibox (-indentation) (p.layout .expression) ++ word " \x7b"
  let room := if fields.isEmpty && base.isNone then head.width else 0
  let body :=
    head ++
      shiftLast (-indentation)
        ([.gap { blanks := 1, inner := true, room }] ++
          Layout.items
            (fun f last => f.layout ++ Layout.commaOrSpaceAfter (last && base.isNone)) fields ++
          baseLayout)
  simple .record
    (p.tokens ++
      Token.braces (commaTokens (fields.map FieldValue.tokens) trailing ++ comma' ++ restTokens))
    (Layout.boxWithin 34 indentation true body ++ word "\x7d")

end Expr

/-! ### Statements -/

namespace Stmt

/-- A lone semicolon. -/
def empty : Stmt := ⟨Token.operator ";", fun _ => [], none, false⟩

/-- An expression; with a semicolon it is a statement only. -/
def ofExpr (e : Expr) (semicolon : Bool) : Stmt :=
  { tokens := e.tokens ++ if semicolon then Token.operator ";" else []
    layout := fun _ =>
      let mark := if semicolon then !e.dropsSemicolon else e.form.addsSemicolon
      ibox 0 (e.atLineStart ++ if mark then word ";" else []) ++ line
    tail := if semicolon then none else some e
    needsSemicolon := !semicolon && e.needsSemicolon }

/-- A macro call as a statement. -/
def ofMacro (attrs : List Attribute) (p : Path) (d : Delimiter) (body : List Token)
    (semicolon : Bool) : Stmt :=
  { tokens := Attribute.allTokens attrs ++ (Expr.invocation p d body).tokens ++
      if semicolon then Token.operator ";" else []
    layout := fun last =>
      let mark := (semicolon || (!last && d != .brace)) && d != .brace
      Attribute.outerLayout attrs ++ (Expr.invocation p d body).inline ++
        (if mark then word ";" else []) ++ line
    tail := none
    needsSemicolon := !semicolon && d != .brace }

/-- A binding; with an `else`, its block leaves when the pattern does not match. -/
def binding (attrs : List Attribute) (pattern : Snippet) (value : Option Expr)
    (otherwise : Option Block) : Stmt :=
  let valueTokens := match value with | some e => Token.operator "=" ++ e.tokens | none => []
  let otherwiseTokens := match otherwise with | some b => .ident "else" :: b.tokens | none => []
  let head := word "let " ++ pattern.layout ++
    match value with | some e => word " = " ++ noCut ++ e.inline | none => []
  { tokens := Attribute.allTokens attrs ++ [.ident "let"] ++ pattern.tokens ++ valueTokens ++
      otherwiseTokens ++ Token.operator ";"
    layout := fun _ =>
      Attribute.outerLayout attrs ++
        (match otherwise with
        | none => ibox 0 head
        | some b =>
          ibox 0 (head ++ space ++ word "else ") ++ noCut ++ cbox indentation b.smallLayout) ++
        word ";" ++ line
    tail := none
    needsSemicolon := false }

end Stmt
end RecordStore
