import RecordStore.Syntax.Grammar.Statements

/-!
How items are read.
-/
namespace RecordStore.Grammar

open RecordStore.Parser Layout

variable (g : Grammar)

/-- An item that has no form of its own keeps the tokens it is written with. -/
def orVerbatim (p : Parser (Option Item)) : Parser Item := do
  let (i, tokens) ← withTokens p
  return i.getD (.verbatim tokens)

/-! ### Functions -/

def receiver (attrs : List Attribute) : Parser Receiver := do
  let reference ← optional? (seesOp "&") (do op "&"; lifetime?)
  let mutable ← word? "mut"
  word "self"
  let ty ←
    optional? (return reference.isNone && (← seesOp ":")) (do op ":"; g.ty true)
  return ⟨attrs, reference, mutable, ty⟩

/-- An input, or what stands for a surplus of them. -/
inductive Argument where
  | parameter (p : RecordStore.Parameter)
  | surplus (s : Snippet)

def surplusComma : Parser (List Token) := do
  if ← atEnd then return []
  op ","
  return comma

def typedArgument (attrs : List Attribute) : Parser Argument := do
  if (← seesName) && (← seesOpAt 1 "<") then
    return .parameter (.typed attrs .wildcard (← g.ty true))
  let p ← g.pattern
  op ":"
  if ← op? "..." then
    return .surplus
      ⟨Attribute.allTokens attrs ++ p.tokens ++ Token.operator ":" ++ Token.operator "..." ++
          (← surplusComma),
        Attribute.outerLayout attrs ++ p.layout ++ Layout.word ": " ++ Layout.word "..."⟩
  else return .parameter (.typed attrs p (← g.ty true))

/-- Whether an input is the value that a function is called on. A path may start with the same
word. -/
def seesReceiver : Parser Bool := do
  let look : Parser Unit := do
    let reference ← optional? (seesOp "&") (do op "&"; lifetime?)
    let _ ← word? "mut"
    word "self"
    require (reference.isSome || !(← seesOp "::"))
  return (← lookahead look).isSome

def functionArgument : Parser Argument := do
  let attrs ← attributes g
  if ← op? "..." then
    return .surplus
      ⟨Attribute.allTokens attrs ++ Token.operator "..." ++ (← surplusComma),
        Attribute.outerLayout attrs ++ Layout.word "..."⟩
  else if ← seesReceiver then return .parameter (.receiver (← receiver g attrs))
  else typedArgument g attrs

/-- Inputs of a function; only the first can be the value it is called on. -/
def functionInputs : Parser (List RecordStore.Parameter × Bool × Option Snippet) := do
  let rec go : List Token → Bool → Parser (List RecordStore.Parameter × Bool × Option Snippet)
    | [], _ => Parser.fail
    | _ :: n, first => do
      if ← atEnd then return ([], true, none)
      match ← functionArgument g with
      | .surplus s => return ([], true, some s)
      | .parameter p =>
        require (first || !p.isReceiver)
        if ← atEnd then return ([p], false, none)
        op ","
        let (ps, trailing, more) ← go n false
        return (p :: ps, trailing, more)
  let (ps, trailing, more) ← go (← rounds) true
  return (ps, trailing && !ps.isEmpty, more)

/-- The word for what is safe to use although it is defined elsewhere. -/
def safeWord (safe : Bool) : Parser Snippet := do
  if safe && (← word? "safe") then return Snippet.keyword "safe" "safe " else return .empty

/-- A signature; the flag allows it to be marked as safe. -/
def signatureWith (safe : Bool) : Parser Signature := do
  let constant ← word? "const"
  let isAsync ← word? "async"
  let isUnsafe ← word? "unsafe"
  let safety ← safeWord (safe && !isUnsafe)
  let abi ← abi
  word "fn"
  let n ← name
  let params ← generics g
  let (inputs, trailing, variadic) ← delimited .parenthesis (functionInputs g)
  let out ← output g true
  let params ← conditions g params
  let qualifiers := Snippet.keywordIf constant "const" ++ Snippet.keywordIf isAsync "async" ++
    Snippet.keywordIf isUnsafe "unsafe" ++ safety ++ abi
  return ⟨qualifiers, n, params, inputs, trailing, variadic, out⟩

def signature : Parser Signature := signatureWith g false

/-- Whether a function's signature starts here. -/
def seesSignature (safe : Bool) : Parser Bool := do
  let look : Parser Unit := do
    let _ ← word? "const"
    let _ ← word? "async"
    let _ ← word? (if safe && (← sees "safe") then "safe" else "unsafe")
    let _ ← abi
    word "fn"
  return (← lookahead look).isSome

/-- A function's signature with its body, or with the end of a declaration. -/
def function (safe : Bool) : Parser (Signature × Option Block) := do
  let s ← signatureWith g safe
  if ← op? ";" then return (s, none) else return (s, some (← g.block))

/-! ### Structs and enums -/

/-- A type of an unnamed field may be a struct without a name. -/
def unnamedStruct (fields : Parser (List FieldItem)) : Parser Ty := do
  let (_, tokens) ← withTokens (do let _ ← anyWord; fields)
  return .code ⟨tokens, Layout.word (tokenText tokens)⟩

/-- A field with a name; `fields` reads those of a struct inside. -/
def namedField (fields : Parser (List FieldItem)) : Parser FieldItem := do
  let attrs ← attributes g
  let vis ← visibility
  let n ← if ← sees "_" then anyWord else name
  op ":"
  let ty ←
    if n == "_" && ((← sees "struct") || ((← sees "union") && (← seesOpenAt 1 .brace))) then
      unnamedStruct fields
    else g.ty true
  return ⟨attrs, vis, some n, ty⟩

def unnamedField : Parser FieldItem := do
  let attrs ← attributes g
  let vis ← visibility
  return ⟨attrs, vis, none, ← g.ty true⟩

/-- Fields in braces; those of a struct inside are read alike. -/
def namedFields : Parser Fields := do
  let rec go : List Token → Parser (List FieldItem × Bool)
    | [] => Parser.fail
    | _ :: n => delimited .brace (commaList (namedField g (Prod.fst <$> go n)))
  let (fields, trailing) ← go (← rounds)
  return .named fields trailing

def unnamedFields : Parser Fields := do
  let (fields, trailing) ← delimited .parenthesis (commaList (unnamedField g))
  return .unnamed fields trailing

/-- A struct after its visibility. -/
def structItem (attrs : List Attribute) (vis : Visibility) : Parser StructItem := do
  word "struct"
  let n ← name
  let params ← generics g
  let hadWhere ← sees "where"
  let params ← conditions g params
  if !hadWhere && (← seesOpen .parenthesis) then
    let fields ← unnamedFields g
    let params ← conditions g params
    op ";"
    return ⟨attrs, vis, n, params, fields⟩
  else if ← seesOpen .brace then return ⟨attrs, vis, n, params, ← namedFields g⟩
  else
    op ";"
    return ⟨attrs, vis, n, params, .unit⟩

def variant : Parser Item.Variant := do
  let attrs ← attributes g
  let _ ← visibility
  let n ← name
  let fields ←
    if ← seesOpen .brace then namedFields g
    else if ← seesOpen .parenthesis then unnamedFields g
    else pure .unit
  return ⟨attrs, n, fields, ← optional? (seesOp "=") (do op "="; g.expr true)⟩

def enumItem (attrs : List Attribute) (vis : Visibility) : Parser Item := do
  word "enum"
  let n ← name
  let params ← conditions g (← generics g)
  let (variants, trailing) ← delimited .brace (commaList (variant g))
  return .ofEnum attrs vis n params variants trailing

def unionItem (attrs : List Attribute) (vis : Visibility) : Parser Item := do
  word "union"
  let n ← name
  let params ← conditions g (← generics g)
  return .ofUnion attrs vis n params (← namedFields g)

/-! ### Names of types and values -/

/-- Bounds after a colon, if it is there. -/
def optionalBounds (stop : Parser Bool) : Parser (Option (List Bound × Bool)) :=
  optional? (return (← seesOp ":") && !(← seesOp "::")) do
    op ":"
    joinedUntil stop (g.bound false true)

def seesDefinition : Parser Bool := return (← sees "where") || (← seesOp "=") || (← seesOp ";")

/-- A type with its bounds and definition, which only some places allow. -/
structure TypeName where
  name : String
  generics : Generics
  bounds : Option (List Bound × Bool)
  ty : Option Ty

/-- Conditions stand before a definition or after it, or on either side. -/
def typeName (whereBefore whereAfter : Bool) : Parser TypeName := do
  word "type"
  let n ← name
  let params ← generics g
  let bounds ← optionalBounds g seesDefinition
  let isBefore := whereBefore && (← sees "where")
  let params ← if isBefore then conditions g params else pure params
  let ty ← optional? (seesOp "=") (do op "="; g.ty true)
  let params ← if whereAfter && !isBefore then conditions g params else pure params
  op ";"
  return ⟨n, params, bounds, ty⟩

/-- A type of a trait or of an implementation. -/
def memberType (attrs : List Attribute) (before : Snippet) (t : TypeName) : Item :=
  let (bounds, trailing) := t.bounds.getD ([], false)
  .ofMemberType attrs before t.name t.generics bounds trailing t.ty

/-- A constant after the words before its name. One with parameters, with conditions or without a
value has no form of its own, unless the last is allowed. -/
def constantItem (valueless : Bool) (attrs : List Attribute) (before : Snippet) :
    Parser (Option Item) := do
  word "const"
  let n ← if ← sees "_" then anyWord else name
  let hasParams ← seesOp "<"
  let params ← generics g
  op ":"
  let ty ← g.ty true
  let value ← optional? (seesOp "=") (do op "="; g.expr true)
  let hasConditions ← sees "where"
  let _ ← conditions g params
  op ";"
  let head := before ++ Snippet.keyword "const" "const " ++ Snippet.name n
  if hasParams || hasConditions || (value.isNone && !valueless) then return none
  else return some (.ofConstant attrs head ty value)

/-- A static with its type and perhaps a value; the flag allows it to have no type, and no form. -/
def staticItem (untyped : Bool) : Parser (Snippet × Option Ty × Option Expr) := do
  word "static"
  let mutable ← word? "mut"
  let n ← name
  let head :=
    Snippet.keyword "static" "static " ++ Snippet.keywordIf mutable "mut" ++ Snippet.name n
  let ty ← optional? (return !untyped || !(← seesOp "=")) (do op ":"; g.ty true)
  let value ← optional? (return ty.isNone || (← seesOp "=")) (do op "="; g.expr true)
  op ";"
  return (head, ty, value)

/-! ### Imports -/

def newName : Parser String := do
  if ← sees "_" then anyWord else name

/-- The tree of an import. A group in which a path starts at the root of all names is no tree. -/
def useTreeBody (anyRoot : Bool) : Parser (Option UseTree) := do
  if (← seesName) || (← seesRoot) || (← sees "try") then
    let n ← anyWord
    if ← op? "::" then
      match ← g.useTree false with
      | some t => return some (.path n t)
      | none => Parser.fail
    else if ← word? "as" then return some (.rename n (← newName))
    else return some (.name n)
  else if ← op? "*" then return some .glob
  else
    let (trees, trailing) ← delimited .brace (commaList do
      let rooted ← if anyRoot then op? "::" else pure false
      let t ← g.useTree (anyRoot && !rooted)
      return if rooted then none else t)
    return (trees.mapM id).map (UseTree.group · trailing)

def useItem (attrs : List Attribute) (vis : Visibility) : Parser (Option Item) := do
  word "use"
  let rooted ← op? "::"
  let tree ← g.useTree !rooted
  op ";"
  return tree.map (Item.ofUse attrs vis rooted)

/-! ### Macros -/

/-- The rules of a macro definition. -/
def macroRule : Parser Item.MacroRule := do
  let (d, matcher) ← anyGroup
  op "=>"
  let (_, expansion) ← anyGroup
  return ⟨d, matcher, expansion⟩

/-- A macro call as an item; the flag allows it to define a name. -/
def macroItem (named : Bool) (attrs : List Attribute) : Parser Item := do
  let p ← wordPath
  op "!"
  let n ← optional? (return named && ((← seesName) || (← sees "try"))) anyWord
  let (d, body) ← anyGroup
  if d != .brace then op ";"
  let rules :=
    if p.name? == some "macro_rules" && n.isSome then
      (all? (separatedUntil atEnd ";" macroRule) body).map Prod.fst
    else none
  return .ofMacro attrs p n d body rules

/-- A macro defined like a function. -/
def declaredMacro : Parser Unit := do
  word "macro"
  let _ ← name
  let _ ← optional? (seesOpen .parenthesis) anyGroup
  require (← seesOpen .brace)
  let _ ← anyGroup

/-- Whether a macro call can start here. -/
def seesCall : Parser Bool := do
  return (← seesName) || (← seesRoot) || (← seesOp "::")

/-! ### Traits and implementations -/

/-- What a trait holds. Anything with a visibility or a default of its own has no form. -/
def traitMember : Parser Item := orVerbatim do
  let attrs ← attributes g
  let vis ← visibility
  let isDefault ← word? "default"
  let isPlain := !isDefault && (vis matches .inherited)
  let formed (i : Item) : Option Item := if isPlain then some i else none
  if ← seesSignature false then
    let (s, b) ← function g false
    return formed (.ofFunction attrs .empty s b)
  else if ← sees "const" then
    let i ← constantItem g true attrs .empty
    return i.bind formed
  else if ← sees "type" then return formed (memberType attrs .empty (← typeName g false true))
  else
    require (isPlain && (← seesCall))
    some <$> macroItem false attrs

/-- What an implementation holds. Anything without a definition has no form. -/
def implMember : Parser Item := orVerbatim do
  let attrs ← attributes g
  let vis ← visibility
  let isDefault ←
    if (← sees "default") && !(← seesOpAt 1 "!") then word? "default" else pure false
  let before := vis.snippet ++ Snippet.keywordIf isDefault "default"
  if ← seesSignature false then
    let (s, b) ← function g false
    return if b.isSome then some (.ofFunction attrs before s b) else none
  else if ← sees "const" then constantItem g false attrs before
  else if ← sees "type" then
    let t ← typeName g false true
    return if t.bounds.isNone && t.ty.isSome then some (memberType attrs before t) else none
  else
    require (!isDefault && (vis matches .inherited) && (← seesCall))
    some <$> macroItem false attrs

/-- Items up to the end of the group, after attributes that stand inside. -/
def itemsWithin (item : Parser Item) : Parser (List Attribute × List Item) :=
  delimited .brace do
    let inner ← innerAttributes g
    return (inner, ← whileSees (return !(← atEnd)) item)

/-- An implementation. One with a visibility, of a constant trait, or of what is no trait has no
form. -/
def implItem (attrs : List Attribute) (vis : Visibility) : Parser (Option Item) := do
  let isDefault ← word? "default"
  let isUnsafe ← word? "unsafe"
  word "impl"
  let params ← if ← seesParameters then generics g else pure Generics.none
  let isConst := (← sees "const") || ((← seesOp "?") && (← seesAt 1 "const"))
  if isConst then
    let _ ← op? "?"
    word "const"
  let negative ← if (← seesOp "!") && !(← seesOpenAt 1 .brace) then op? "!" else pure false
  let first ← g.ty true
  let isFor ← word? "for"
  let ty ← if isFor then g.ty true else pure first
  require (isFor || !negative)
  let trait := match isFor, first with
    | true, .path rooted ss => some (negative, (⟨none, rooted, ss⟩ : Path))
    | _, _ => none
  let params ← conditions g params
  let (inner, items) ← itemsWithin g (implMember g)
  let before := Snippet.keywordIf isDefault "default" ++ Snippet.keywordIf isUnsafe "unsafe"
  if isConst || !(vis matches .inherited) || (isFor && trait.isNone) then return none
  else return some (.ofImpl attrs before params trait ty inner items)

def traitItem (attrs : List Attribute) (vis : Visibility) : Parser Item := do
  let isUnsafe ← word? "unsafe"
  let isAuto ← word? "auto"
  word "trait"
  let n ← name
  let params ← generics g
  if !isUnsafe && !isAuto && (← op? "=") then
    let stop : Parser Bool := return (← sees "where") || (← seesOp ";")
    let (bs, trailing) ← joinedUntil stop (g.bound false true)
    let params ← conditions g params
    op ";"
    return .ofTraitAlias attrs vis n params bs trailing
  let bounds ← optionalBounds g (return (← sees "where") || (← seesOpen .brace))
  let (bs, trailing) := bounds.getD ([], false)
  let params ← conditions g params
  let (inner, items) ← itemsWithin g (traitMember g)
  let before :=
    vis.snippet ++ Snippet.keywordIf isUnsafe "unsafe" ++ Snippet.keywordIf isAuto "auto"
  return .ofTrait attrs before n params bs trailing inner items

/-! ### Modules and foreign items -/

def moduleItem (attrs : List Attribute) (vis : Visibility) : Parser Item := do
  let isUnsafe ← word? "unsafe"
  word "mod"
  let n ← if ← sees "try" then anyWord else name
  let before := vis.snippet ++ Snippet.keywordIf isUnsafe "unsafe"
  if ← op? ";" then return .ofModule attrs before n none
  else return .ofModule attrs before n (some (← itemsWithin g g.item))

def externCrate (attrs : List Attribute) (vis : Visibility) : Parser Item := do
  word "extern"
  word "crate"
  let n ← if ← sees "self" then anyWord else name
  let other ← optional? (sees "as") (do word "as"; newName)
  op ";"
  return .ofCrate attrs vis n other

/-- What is defined elsewhere. Anything marked as safe or unsafe, or defined here, has no form. -/
def foreignItem : Parser Item := orVerbatim do
  let attrs ← attributes g
  let vis ← visibility
  if ← seesSignature true then
    let (s, b) ← function g true
    let isSafe := s.qualifiers.tokens.contains (.ident "safe")
    return if isSafe || b.isSome then none else some (.ofFunction attrs vis.snippet s none)
  else if (← sees "static") ||
      (((← sees "unsafe") || (← sees "safe")) && (← seesAt 1 "static")) then
    let isMarked := !(← sees "static")
    if isMarked then
      let _ ← anyWord
    match ← staticItem g false with
    | (head, some ty, none) =>
      return if isMarked then none else some (.ofConstant attrs (vis.snippet ++ head) ty none)
    | _ => return none
  else if ← sees "type" then
    let t ← typeName g true true
    return if t.bounds.isNone && t.ty.isNone then some (.ofForeignType attrs vis t.name t.generics)
      else none
  else
    require ((vis matches .inherited) && (← seesCall))
    some <$> macroItem false attrs

def foreignItems (attrs : List Attribute) : Parser Item := do
  let isUnsafe ← word? "unsafe"
  let abi ← abi
  let (inner, items) ← itemsWithin g (foreignItem g)
  return .ofItems .other attrs (Snippet.keywordIf isUnsafe "unsafe" ++ abi) inner items

/-! ### Items -/

def itemBody : Parser Item := orVerbatim do
  let attrs ← attributes g
  let vis ← visibility
  let inherited := vis matches .inherited
  if ← seesSignature false then
    let (s, b) ← function g false
    return if b.isSome then some (.ofFunction attrs vis.snippet s b) else none
  else if ← sees "extern" then
    if ← seesAt 1 "crate" then some <$> externCrate attrs vis
    else
      require inherited
      some <$> foreignItems g attrs
  else if ← sees "use" then useItem g attrs vis
  else if ← sees "static" then
    match ← staticItem g true with
    | (head, some ty, some value) =>
      return some (.ofConstant attrs (vis.snippet ++ head) ty (some value))
    | _ => return none
  else if ← sees "const" then constantItem g false attrs vis.snippet
  else if ← sees "unsafe" then
    if (← seesAt 1 "trait") || ((← seesAt 1 "auto") && (← seesAt 2 "trait")) then
      some <$> traitItem g attrs vis
    else if ← seesAt 1 "impl" then implItem g attrs vis
    else if ← seesAt 1 "extern" then
      require inherited
      some <$> foreignItems g attrs
    else some <$> moduleItem g attrs vis
  else if ← sees "mod" then some <$> moduleItem g attrs vis
  else if ← sees "type" then
    let t ← typeName g true false
    match t.bounds, t.ty with
    | none, some ty => return some (.ofAlias attrs vis t.name t.generics ty)
    | _, _ => return none
  else if ← sees "struct" then return some (.ofStruct (← structItem g attrs vis))
  else if ← sees "enum" then some <$> enumItem g attrs vis
  else if (← sees "union") && (← seesNameAt 1) then some <$> unionItem g attrs vis
  else if (← sees "trait") || ((← sees "auto") && (← seesAt 1 "trait")) then
    some <$> traitItem g attrs vis
  else if (← sees "impl") || ((← sees "default") && !(← seesOpAt 1 "!")) then implItem g attrs vis
  else if ← sees "macro" then
    declaredMacro
    return none
  else
    require (inherited && (← seesCall))
    some <$> macroItem true attrs

end RecordStore.Grammar
