import RecordStore.Syntax.Grammar.Basic

/-!
How types, paths, bounds and generic parameters are read.
-/
namespace RecordStore.Grammar

open RecordStore.Parser

variable (g : Grammar)

/-- A macro call after its path and exclamation mark. -/
def macroCall (p : Path) : Parser Expr := do
  op "!"
  let (d, ts) ← anyGroup
  return .invocation p d ts

/-- An exclamation mark that is no inequality. -/
def seesBang : Parser Bool := return (← seesOp "!") && !(← seesOp "!=")

/-! ### Bounds -/

/-- The output of a function, without joined bounds unless they are allowed. -/
def output (bounds : Bool) : Parser (Option Ty) := do
  if ← seesOp "->" then
    op "->"
    some <$> g.ty bounds
  else return none

/-- Types in parentheses and an output, as function traits have them. -/
def calledArguments : Parser Arguments := do
  let (inputs, trailing) ← delimited .parenthesis (commaList (g.ty true))
  return .called inputs trailing (← output g false)

/-- Parentheses after a path, perhaps past a path mark. -/
def seesCalled : Parser Bool := do
  return (← seesOpen .parenthesis) || ((← seesOp "::") && (← seesOpenAt 2 .parenthesis))

/-- An end of generic parameters or of a list of bounds. -/
def seesListEnd : Parser Bool := return (← seesOp ",") || (← seesOp ">")

/-- A lifetime with those it outlives. -/
def lifetimeParameter : Parser Snippet := do
  let n ← lifetime
  let head : Snippet := ⟨[.lifetime n], Layout.word n⟩
  if (← seesOp ":") && !(← seesOp "::") then
    op ":"
    let (ls, trailing) ← joinedUntil seesListEnd lifetime
    if ls.isEmpty then return head
    let tokens := separated plus (ls.map fun l => [Token.lifetime l])
    let layout :=
      Layout.items (fun l last => Layout.word l ++ if last then [] else Layout.word " + ") ls
    return head ++
      ⟨Token.operator ":" ++ tokens ++ (if trailing then plus else []), Layout.word ": " ++ layout⟩
  else return head

/-- Whether generic arguments start here; in expressions only a path mark leads them. -/
def seesAngle (expression : Bool) : Parser Bool := do
  return (!expression && (← seesOp "<") && !(← seesOp "<=") && !(← seesOp "<<=")) ||
    ((← seesOp "::") && (← seesOpAt 2 "<"))

/-- A value that may stand among generic arguments. -/
def constantArgument : Parser Snippet := do
  if ← seesLiteral then return (Expr.ofLiteral (← literal)).snippet
  else if ← seesOpen .brace then
    return (Expr.ofBlock none (← g.block)).snippet
  else return Snippet.name (← name)

/-- Whether another bound follows a plus sign. -/
def seesBound (constants : Bool) : Parser Bool := do
  return isAnyWord (← next?) || (← seesOp "::") || (← seesOp "?") || (← seesLifetime) ||
    (← seesOpen .parenthesis) || (constants && (← seesOpen .bracket))

/-- Bounds joined by plus signs; the flag tells whether a plus sign ends them. -/
def joinedBounds (joined constants : Bool) (one : Parser Bound) : Parser (List Bound × Bool) := do
  let rec go : List Token → Parser (List Bound × Bool)
    | [] => fail
    | _ :: n => do
      let b ← one
      if joined && (← seesOp "+") then
        op "+"
        if ← seesBound constants then
          let (bs, trailing) ← go n
          return (b :: bs, trailing)
        else return ([b], true)
      else return ([b], false)
  go (← rounds)

/-! ### Generic parameters -/

/-- A lifetime, a type or a constant that stands for any. -/
inductive Parameter where
  | lifetime (s : Snippet)
  | other (s : Snippet)

def Parameter.snippet : Parameter → Snippet
  | .lifetime s => s
  | .other s => s

/-- Bounds after a colon, which needs some, and a value to stand for a missing one. -/
def boundsSnippet (bs : List Bound) (trailing : Bool) (value : Option Ty) : Snippet :=
  let tokens := (if bs.isEmpty then [] else Token.operator ":") ++
    separated plus (Bound.listTokens bs) ++ (if trailing then plus else []) ++
    match value with | some t => Token.operator "=" ++ t.tokens | none => []
  let first := match Bound.listLayout bs with
    | [] => []
    | l :: ls => Layout.word ": " ++ l ++ ls.flatMap fun m => Layout.space ++ Layout.word "+ " ++ m
  let last := match value with
    | some t => Layout.space ++ Layout.word "= " ++ t.layout
    | none => []
  ⟨tokens, Layout.ibox indentation (first ++ last)⟩

/-- A parameter; in some places an underscore may stand for its name. -/
def parameter (wildcard : Bool) : Parser Parameter := do
  let attrs ← attributes g
  let before : Snippet := ⟨Attribute.allTokens attrs, Attribute.outerLayout attrs⟩
  if ← seesLifetime then return .lifetime (before ++ (← lifetimeParameter))
  if ← word? "const" then
    let n ← name
    op ":"
    let ty ← g.ty true
    let value ← optional? (seesOp "=") (do op "="; constantArgument g)
    let tail : Snippet := match value with
      | some v => ⟨Token.operator "=" ++ v.tokens, Layout.word " = " ++ v.layout⟩
      | none => .empty
    return .other
      (before ++ Snippet.keyword "const" "const " ++ Snippet.name n ++
        ⟨Token.operator ":" ++ ty.tokens, Layout.word ": " ++ ty.layout⟩ ++ tail)
  if wildcard && (← word? "_") then return .other (before ++ Snippet.name "_")
  let n ← name
  let mark ← op? ":"
  let (bs, trailing) ←
    if mark then joinedUntil (return (← seesListEnd) || (← seesOp "=")) (g.bound false true)
    else pure ([], false)
  let value ← optional? (seesOp "=") (do op "="; g.ty true)
  return .other (before ++ Snippet.name n ++ boundsSnippet bs trailing value)

/-- Whether generic parameters start here rather than a path into a type. -/
def seesParameters : Parser Bool := do
  let head := isLifetime (← token? 1) || (← seesNameAt 1)
  let next := (← seesOpAt 2 ">") || (← seesOpAt 2 ",") ||
    ((← seesOpAt 2 ":") && !(← seesOpAt 2 "::")) || (← seesOpAt 2 "=")
  return (← seesOp "<") && ((← seesOpAt 1 ">") || (← seesOpAt 1 "#") || (head && next) ||
    (← seesAt 1 "const"))

/-- Whether generic parameters stand after `for`, so that it starts no loop. -/
def seesForParameters : Parser Bool := do
  return (← lookahead (do word "for"; require (← seesParameters))).isSome

/-- Parameters that a type, a bound or a closure is meant for all of. -/
def boundParameters : Parser Snippet := do
  word "for"
  op "<"
  let (ps, trailing) ← separatedUntil (seesOp ">") "," (Parameter.snippet <$> parameter g false)
  op ">"
  return ⟨[.ident "for"] ++ Token.operator "<" ++ commaTokens (ps.map Snippet.tokens) trailing ++
      Token.operator ">",
    Layout.word "for<" ++
      Layout.items (fun p last => p.layout ++ if last then [] else Layout.word ", ") ps ++
      Layout.word "> "⟩

/-! ### Paths -/

/-- One generic argument. A path of one word may turn out to be assigned or bounded. -/
def argument : Parser Argument := do
  if (← seesLifetime) && !(← seesOpAt 1 "+") then return .lifetime (← lifetime)
  if (← seesLiteral) || (← seesOpen .brace) then return .constant (← constantArgument g)
  let ty ← g.ty true
  match ty with
  | .path false [.mk n args] =>
    let isCalled := match args with
      | .called _ _ _ => true
      | _ => false
    if !isCalled && (← seesOp "=") then
      op "="
      if (← seesLiteral) || (← seesOpen .brace) then
        return .constantAssignment (.mk n args) (← constantArgument g)
      else return .assignment (.mk n args) (← g.ty true)
    else if !isCalled && (← seesOp ":") then
      op ":"
      let (bs, trailing) ← joinedUntil seesListEnd (g.bound false true)
      return .constraint (.mk n args) bs trailing
    else return .type ty
  | _ => return .type ty

/-- Generic arguments in angle brackets. -/
def angled : Parser Arguments := do
  let turbofish ← op? "::"
  op "<"
  let (as, trailing) ← separatedUntil (seesOp ">") "," (argument g)
  op ">"
  return .angled turbofish as trailing

def segment (expression : Bool) : Parser Segment := do
  if (← seesRoot) || (← sees "try") then return .mk (← anyWord) .none
  let n ← if ← sees "Self" then anyWord else name
  if ← seesAngle expression then return .mk n (← angled g) else return .mk n .none

/-- Segments after the first; a path mark before parentheses is not theirs. -/
def moreSegments (expression : Bool) : Parser (List Segment) :=
  whileSees (return (← seesOp "::") && !(← seesOpenAt 2 .parenthesis)) do
    op "::"
    segment g expression

def segments (expression : Bool) : Parser (Bool × List Segment) := do
  let rooted ← op? "::"
  let first ← segment g expression
  return (rooted, first :: (← moreSegments g expression))

/-- A path, perhaps into a type. -/
def path (expression : Bool) : Parser Path := do
  if ← seesOp "<" then
    op "<"
    let owner ← g.ty true
    let trait ← optional? (sees "as") (do word "as"; segments g false)
    op ">"
    op "::"
    let first ← segment g expression
    let more ← whileSees (seesOp "::") (do op "::"; segment g expression)
    match trait with
    | some (rooted, ss) => return ⟨some (owner, ss.length), rooted, ss ++ first :: more⟩
    | none => return ⟨some (owner, 0), true, first :: more⟩
  else
    let (rooted, ss) ← segments g expression
    return ⟨none, rooted, ss⟩

/-- Inputs and an output after the last of some segments, in place of empty angle brackets. -/
def callLast (ss : List Segment) : Parser (List Segment) := do
  match ss.reverse with
  | .mk n _ :: before =>
    let _ ← op? "::"
    return (Segment.mk n (← calledArguments g) :: before).reverse
  | [] => fail

/-- Whether the last of some segments has no arguments. -/
def endsPlain (ss : List Segment) : Bool := ss.getLast?.any (·.arguments.isEmpty)

/-! ### Bounds in full -/

/-- Whether a bound asks for a trait that holds at compile time. -/
def constantMark : Parser Bool := do
  if ← seesOpen .bracket then
    delimited .bracket (word "const")
    return true
  else word? "const"

/-- A trait, for which lifetimes and with which modifier. One that has to hold at compile time has
no form. -/
def traitBound (constants parenthesized : Bool) : Parser (Option Bound) := do
  let before ← optional? (sees "for") (boundParameters g)
  let constant ← constantMark
  require (constants || !constant)
  let optional ← op? "?"
  let after ← optional? (return before.isNone && optional && (← sees "for")) (boundParameters g)
  let (rooted, ss) ← segments g false
  let ss ← if endsPlain ss && (← seesCalled) then callLast g ss else pure ss
  require (!(optional && (before.isSome || after.isSome)))
  let lifetimes := Snippet.ofOption before ++ Snippet.ofOption after
  let modifier := if optional then BoundModifier.optional else .plain
  return if constant then none else some (.trait parenthesized lifetimes modifier rooted ss)

/-- Names that an opaque type captures. -/
def captures : Parser Bound := do
  word "use"
  op "<"
  let (ns, trailing) ← separatedUntil (seesOp ">") "," do
    if ← seesLifetime then
      let l ← lifetime
      return (⟨[Token.lifetime l], Layout.word l⟩ : Snippet)
    else if ← sees "Self" then return Snippet.name (← anyWord)
    else return Snippet.name (← name)
  op ">"
  return .other
    ⟨[.ident "use"] ++ Token.operator "<" ++ commaTokens (ns.map Snippet.tokens) trailing ++
        Token.operator ">",
      Layout.word "use<" ++
        Layout.items (fun n last => n.layout ++ if last then [] else Layout.word ", ") ns ++
        Layout.word ">"⟩

def boundBody (allowsCaptures constants : Bool) : Parser Bound := do
  if ← seesLifetime then return .lifetime (← lifetime)
  if ← sees "use" then
    require allowsCaptures
    captures
  else
    let (b, tokens) ← withTokens do
      if ← seesOpen .parenthesis then delimited .parenthesis (traitBound g constants true)
      else traitBound g constants false
    return b.getD (.other ⟨tokens, Layout.word (tokenText tokens)⟩)

/-! ### Types -/

/-- A single colon `n` tokens ahead. -/
def seesColonAt (n : Nat) : Parser Bool := return (← seesOpAt n ":") && !(← seesOpAt n "::")

/-- A name before the type of an input, with its colon. -/
def inputLabel (first : Bool) : Parser (Option String) := do
  let named := (← seesName) || (← sees "_") || (first && (← sees "self"))
  optional? (return named && (← seesColonAt 1)) (do let n ← anyWord; op ":"; return n)

def seesChangingSelf (first : Bool) : Parser Bool :=
  return first && (← sees "mut") && (← seesAt 1 "self")

/-- An input of a function type. Nothing looks into a receiver that may change. -/
def bareInput (attrs : List Attribute) (first : Bool) : Parser Input := do
  let changing ← seesChangingSelf first
  let plain : Parser (Option (Option String × Ty)) := do
    if changing then word "mut"
    let label ← inputLabel first
    if label != some "self" && (← seesChangingSelf first) then
      word "mut"
      word "self"
      return none
    else if changing && label.isNone then
      word "self"
      return none
    else
      let ty ← g.ty true
      return if changing then none else some (label, ty)
  match ← withTokens plain with
  | (some (label, ty), _) => return .mk attrs label ty
  | (none, tokens) => return .mk attrs none (.code ⟨tokens, Layout.word (tokenText tokens)⟩)

/-- The rest of the inputs, given in the surplus. -/
def seesVariadic : Parser Bool := do
  return (← seesOp "...") ||
    (((← seesName) || (← sees "_")) && (← seesOpAt 1 ":") && (← seesOpAt 2 "..."))

def variadic (attrs : List Attribute) : Parser Snippet := do
  let label ← optional? (return !(← seesOp "...")) (do let n ← anyWord; op ":"; return n)
  op "..."
  let trailing ← op? ","
  let labelTokens := match label with | some n => .ident n :: Token.operator ":" | none => []
  let labelLayout := match label with | some n => Layout.word (n ++ ": ") | none => []
  return ⟨Attribute.allTokens attrs ++ labelTokens ++ Token.operator "..." ++
      (if trailing then comma else []),
    Attribute.outerLayout attrs ++ labelLayout ++ Layout.word "..."⟩

/-- Inputs of a function type, and what stands for a surplus of them. -/
def bareInputs : Parser (List Input × Bool × Option Snippet) := do
  let rec go : List Token → Bool → Parser (List Input × Bool × Option Snippet)
    | [], _ => fail
    | _ :: n, first => do
      if ← atEnd then return ([], true, none)
      let attrs ← attributes g
      if ← seesVariadic then return ([], true, some (← variadic attrs))
      let i ← bareInput g attrs first
      if ← atEnd then return ([i], false, none)
      op ","
      let (is, trailing, more) ← go n false
      return (i :: is, trailing, more)
  let (is, trailing, more) ← go (← rounds) true
  return (is, trailing && !is.isEmpty, more)

/-- The interface that a function follows, as a snippet before `fn`. -/
def abi : Parser Snippet := do
  if ← word? "extern" then
    match ← next? with
    | some (.literal t) =>
      require (t.startsWith "\"" || t.startsWith "r")
      let _ ← take
      return ⟨[.ident "extern", .literal t], Layout.word ("extern " ++ t ++ " ")⟩
    | _ => return Snippet.keyword "extern" "extern "
  else return .empty

def functionType (lifetimes : Snippet) : Parser Ty := do
  let isUnsafe ← word? "unsafe"
  let abi ← abi
  word "fn"
  let (is, trailing, more) ← delimited .parenthesis (bareInputs g)
  let head := lifetimes ++ Snippet.keywordIf isUnsafe "unsafe" ++ abi ++ Snippet.keyword "fn" "fn"
  return .function head is trailing more (← output g false)

def isTrait : Bound → Bool
  | .trait _ _ _ _ _ => true
  | _ => false

/-- A trait object needs a trait besides lifetimes. -/
def traitObject (explicit joined : Bool) : Parser Ty := do
  let (bs, trailing) ← joinedBounds joined false (g.bound false false)
  require (bs.any isTrait)
  return .traitObject explicit bs trailing

def isCapture : Bound → Bool
  | .other s => s.tokens.head? == some (.ident "use")
  | _ => false

def isLifetimeBound : Bound → Bool
  | .lifetime _ => true
  | _ => false

def implementer (joined : Bool) : Parser Ty := do
  word "impl"
  let (bs, trailing) ← joinedBounds joined true (g.bound true true)
  require (bs.any fun b => !isCapture b && !isLifetimeBound b)
  return .implementer bs trailing

/-- Bounds after a first one, each behind a plus sign. -/
def furtherBounds : Parser (List Bound) :=
  whileSees (seesOp "+") (do op "+"; g.bound false false)

/-- A first bound made of a parenthesized type, where that type is the name of a trait. -/
def boundOfTy : Ty → Option Bound
  | .path rooted ss => some (.trait true .empty .plain rooted ss)
  | .traitObject false [.trait _ ls m rooted ss] false => some (.trait true ls m rooted ss)
  | .traitObject false [b] false => some b
  | _ => none

/-- What parentheses hold: nothing, a type, or several. -/
inductive Parenthesized where
  | tuple (ts : List Ty) (trailing : Bool)
  | single (t : Ty)
  | optionalBound (b : Bound)

def parenthesizedBody : Parser Parenthesized := do
  if ← atEnd then return .tuple [] false
  if ← seesLifetime then return .single (← traitObject g false true)
  if ← seesOp "?" then
    match ← traitBound g false true with
    | some b => return .optionalBound b
    | none => fail
  let first ← g.ty true
  if ← seesOp "," then
    op ","
    let (more, trailing) ← commaList (g.ty true)
    return .tuple (first :: more) (trailing || more.isEmpty)
  else return .single first

def parenthesizedTy (joined : Bool) : Parser Ty := do
  match ← delimited .parenthesis (parenthesizedBody g) with
  | .tuple ts trailing => return .tuple ts trailing
  | .optionalBound b => return .traitObject false (b :: (← furtherBounds g)) false
  | .single t =>
    if joined && (← seesOp "+") then
      match boundOfTy t with
      | some b => return .traitObject false (b :: (← furtherBounds g)) false
      | none => return .parenthesized t
    else return .parenthesized t

/-- A type that a path starts: the path itself, a macro call, or a trait object. -/
def pathTy (joined : Bool) (lifetimes : Option Snippet) : Parser Ty := do
  let p ← path g false
  if p.owner.isSome then return p.toTy
  if (← seesBang) && p.isPlain then
    let e ← macroCall p
    return .code e.snippet
  if lifetimes.isSome || (joined && (← seesOp "+")) then
    let first := Bound.trait false (Snippet.ofOption lifetimes) .plain p.rooted p.segments
    if joined && (← seesOp "+") then
      op "+"
      if ← seesBound false then
        let (bs, trailing) ← joinedBounds true false (g.bound false false)
        return .traitObject false (first :: bs) trailing
      else return .traitObject false [first] true
    else return .traitObject false [first] false
  else return p.toTy

def seesFunction : Parser Bool := do
  return (← sees "fn") || (← sees "unsafe") || (← sees "extern")

def seesPath : Parser Bool := do
  return (← seesName) || (← seesRoot) || (← sees "Self") || (← seesOp "::") || (← seesOp "<")

/-- A call of something that the language itself provides. -/
def seesBuiltin : Parser Bool := return (← sees "builtin") && (← seesOpAt 1 "#")

/-- The tokens of such a call; nothing looks into its arguments. -/
def builtinCall : Parser (List Token) := do
  let (_, tokens) ← withTokens do
    word "builtin"
    op "#"
    let _ ← name
    delimited .parenthesis rest
  return tokens

/-- Tokens as a type that nothing looks into. -/
def codeOf (tokens : List Token) : Ty := .code ⟨tokens, Layout.word (tokenText tokens)⟩

/-- A trait object behind the word for it. Nothing looks into one with a star. -/
def dynamicTy (joined : Bool) : Parser Ty := do
  let ((star, ty), tokens) ← withTokens do
    word "dyn"
    return (← op? "*", ← traitObject g true joined)
  return if star then codeOf tokens else ty

def tyBody (joined : Bool) : Parser Ty := do
  let (lifetimes, before) ← withTokens (optional? (sees "for") (boundParameters g))
  if lifetimes.isSome then
    require ((← seesName) || (← seesFunction) || (← seesRoot) || (← sees "Self"))
  if ← seesOpen .parenthesis then parenthesizedTy g joined
  else if ← seesFunction then functionType g (Snippet.ofOption lifetimes)
  else if ← seesBuiltin then
    return codeOf (before ++ (← builtinCall))
  else if ← seesPath then pathTy g joined lifetimes
  else if ← sees "dyn" then dynamicTy g joined
  else if ← seesOpen .bracket then
    delimited .bracket do
      let t ← g.ty true
      if ← op? ";" then return .array t (← g.expr true).snippet else return .slice t
  else if ← op? "*" then
    if ← word? "const" then return .pointer false (← g.ty false)
    else
      word "mut"
      return .pointer true (← g.ty false)
  else if ← op? "&" then
    let l ← lifetime?
    let m ← word? "mut"
    return .reference l m (← g.ty false)
  else if ← seesBang then
    op "!"
    return .never
  else if ← sees "impl" then implementer g joined
  else if ← word? "_" then return .inferred
  else if ← seesLifetime then traitObject g false joined
  else fail

/-! ### Generic parameters and conditions -/

/-- Generic parameters without their conditions. -/
def generics : Parser Generics := do
  if !(← seesOp "<") then return .none
  op "<"
  let (ps, trailing) ← separatedUntil (seesOp ">") "," (parameter g true)
  op ">"
  let lifetimes := ps.filterMap fun | .lifetime s => some s | .other _ => none
  let others := ps.filterMap fun | .other s => some s | .lifetime _ => none
  let leavesComma := ps.getLast?.any (· matches .lifetime _) && !others.isEmpty
  return { Generics.none with lifetimes, others, trailing := trailing || leavesComma }

/-- A place where no further condition or bound is read. -/
def seesConditionEnd : Parser Bool := do
  return (← atEnd) || (← seesOpen .brace) || (← seesOp ",") || (← seesOp ";") ||
    ((← seesOp ":") && !(← seesOp "::")) || (← seesOp "=")

def condition : Parser Snippet := do
  if (← seesLifetime) && (← seesOpAt 1 ":") then
    let n ← lifetime
    op ":"
    let (ls, trailing) ← joinedUntil seesConditionEnd lifetime
    let tokens := separated plus (ls.map fun l => [Token.lifetime l])
    let layout := match ls with
      | [] => []
      | l :: ls =>
        Layout.word (" " ++ l) ++ ls.flatMap fun m => Layout.space ++ Layout.word ("+ " ++ m)
    return ⟨[.lifetime n] ++ Token.operator ":" ++ tokens ++ (if trailing then plus else []),
      Layout.word (n ++ ":") ++ Layout.ibox indentation layout⟩
  let lifetimes ← optional? (sees "for") (boundParameters g)
  let ty ← g.ty true
  op ":"
  let (bs, trailing) ← joinedUntil seesConditionEnd (g.bound false true)
  let head : Snippet := ⟨ty.tokens ++ Token.operator ":", ty.layout ++ Layout.word ":"⟩
  let layout := match Bound.listLayout bs with
    | [] => []
    | l :: ls =>
      Layout.word " " ++ l ++ ls.flatMap fun m => Layout.space ++ Layout.word "+ " ++ m
  let tail : Snippet :=
    ⟨separated plus (Bound.listTokens bs) ++ (if trailing then plus else []),
      Layout.ibox (if bs.length == 1 then 0 else indentation) layout⟩
  return Snippet.ofOption lifetimes ++ head ++ tail

/-- Conditions after `where`, if it is there. -/
def conditions (params : Generics) : Parser Generics := do
  if ← word? "where" then
    require !(← seesParameters)
    let (cs, trailing) ← separatedLoose
    return { params with conditions := cs, trailingCondition := trailing }
  else return params
where
  separatedLoose : Parser (List Snippet × Bool) := do
    let rec go : List Token → Parser (List Snippet × Bool)
      | [] => fail
      | _ :: n => do
        if ← seesConditionEnd then return ([], true)
        let c ← condition g
        if ← op? "," then
          let (cs, trailing) ← go n
          return (c :: cs, trailing)
        else return ([c], false)
    let (cs, trailing) ← go (← rounds)
    return (cs, trailing && !cs.isEmpty)

end RecordStore.Grammar
