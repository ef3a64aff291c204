import RecordStore.Syntax.Signature

/-!
Items of a source file. Of most an item keeps its tokens and its layout only; structs, names of
types and modules, and imports are kept as what they declare.
-/
namespace RecordStore

open Layout (word space cut line noCut cbox ibox shiftLast commaAfter)

/-- Who may use an item. -/
inductive Visibility where
  | inherited
  | everyone
  | restricted (byPath : Bool) (path : Path)
  deriving Inhabited

namespace Visibility

def tokens : Visibility → List Token
  | inherited => []
  | everyone => [.ident "pub"]
  | restricted byPath p =>
    .ident "pub" :: Token.parens ((if byPath then [.ident "in"] else []) ++ p.tokens)

def layout : Visibility → Layout
  | inherited => []
  | everyone => word "pub "
  | restricted _ p =>
    let short := p.name?.any ["self", "super", "crate"].contains
    word (if short then "pub(" else "pub(in ") ++ p.layout .plain ++ word ") "

def snippet (v : Visibility) : Snippet := ⟨v.tokens, v.layout⟩

end Visibility

/-- A field; those of tuples have no name. -/
structure FieldItem where
  attributes : List Attribute
  visibility : Visibility
  name : Option String
  ty : Ty
  deriving Inhabited

namespace FieldItem

def layout (f : FieldItem) : Layout :=
  Attribute.outerLayout f.attributes ++ f.visibility.layout ++
    (match f.name with | some n => word n ++ word ": " | none => []) ++ f.ty.layout

def tokens (f : FieldItem) : List Token :=
  Attribute.allTokens f.attributes ++ f.visibility.tokens ++
    (match f.name with | some n => .ident n :: Token.operator ":" | none => []) ++ f.ty.tokens

end FieldItem

/-- Fields in braces or in parentheses; the flag tells whether a comma follows the last one. -/
inductive Fields where
  | named (fields : List FieldItem) (trailing : Bool)
  | unnamed (fields : List FieldItem) (trailing : Bool)
  | unit

namespace Fields

def tokens : Fields → List Token
  | named fields trailing => Token.braces (commaTokens (fields.map FieldItem.tokens) trailing)
  | unnamed fields trailing => Token.parens (commaTokens (fields.map FieldItem.tokens) trailing)
  | unit => []

/-- The tokens in a struct, where conditions stand on the one side or on the other. -/
def structTokens (generics : Generics) : Fields → List Token
  | named fields trailing => generics.whereTokens ++ (named fields trailing).tokens
  | fields => fields.tokens ++ generics.whereTokens ++ Token.operator ";"

def unnamedLayout (fields : List FieldItem) : Layout :=
  word "(" ++
    shiftLast (-indentation)
      (cut ++ Layout.items (fun f last => f.layout ++ commaAfter last) fields) ++
    word ")"

/-- The layout in a variant of an enum. -/
def variantLayout : Fields → Layout
  | named fields _ =>
    word " \x7b" ++
      cbox indentation
        (shiftLast (-indentation)
          (space ++
            Layout.items (fun f last => f.layout ++ Layout.commaOrSpaceAfter last) fields)) ++
      word "\x7d"
  | unnamed fields _ => cbox indentation (unnamedLayout fields)
  | unit => []

/-- The layout after the head of a struct, whose box is open. -/
def structLayout (head : Layout) (generics : Generics) : Fields → Layout
  | named fields _ =>
    cbox indentation
      (head ++ generics.whereBody ++ word "\x7b" ++
        shiftLast (-indentation)
          (Layout.lineIfMore ++ fields.flatMap fun f => f.layout ++ word "," ++ line)) ++
      word "\x7d"
  | unnamed fields _ => cbox indentation (head ++ unnamedLayout fields ++ generics.whereEnd)
  | unit => cbox indentation (head ++ generics.whereEnd)

end Fields

/-- A struct with all that it declares. -/
structure StructItem where
  attributes : List Attribute
  visibility : Visibility
  name : String
  generics : Generics
  fields : Fields

/-- The tree of an import. In a group, a comma may follow the last tree. -/
inductive UseTree where
  | path (name : String) (tree : UseTree)
  | name (n : String)
  | rename (n newName : String)
  | glob
  | group (trees : List UseTree) (trailing : Bool)
  deriving Inhabited

namespace UseTree

def isGroup : UseTree → Bool
  | path _ t => isGroup t
  | group _ _ => true
  | _ => false

/-- A single name needs no braces, unless it is that of the module itself. -/
def standsAlone : List UseTree → Bool
  | [name n] => n != "self"
  | [rename n _] => n != "self"
  | [_] => true
  | _ => false

mutual

def tokens : UseTree → List Token
  | path n t => .ident n :: pathMark ++ tokens t
  | name n => [.ident n]
  | rename n a => [.ident n, .ident "as", .ident a]
  | glob => Token.operator "*"
  | group ts trailing => Token.braces (commaTokens (listTokens ts) trailing)

def listTokens : List UseTree → List (List Token)
  | [] => []
  | t :: ts => tokens t :: listTokens ts

end

mutual

def layout : UseTree → Layout
  | path n t => word n ++ word "::" ++ layout t
  | name n => word n
  | rename n a => word n ++ word " as " ++ word a
  | glob => word "*"
  | group ts _ =>
    if standsAlone ts then listLayout ts
    else
      word "\x7b" ++
        cbox indentation
          (cut ++ Layout.ibox 0 (listLayout ts) ++ shiftLast (-indentation) (commaAfter true)) ++
        word "\x7d"

def listLayout : List UseTree → Layout
  | [] => []
  | [t] => layout t
  | t :: u :: ts =>
    layout t ++ word "," ++ (if isGroup t then line else space) ++ listLayout (u :: ts)

end

end UseTree

/-- What an item is, as far as anything asks. -/
inductive ItemForm where
  | struct (s : StructItem)
  | enum (name : String)
  | typeName (name : String) (ty : Ty)
  | use (rooted : Bool) (tree : UseTree)
  | module (name : String)
  | other

/-- An item. Its attributes are part of its tokens and of its layout. -/
structure Item where
  form : ItemForm
  tokens : List Token
  layout : Layout

namespace Item

/-- Attributes, then an item in a box, then the end of the line. -/
def ofParts (form : ItemForm) (attrs : List Attribute) (tokens : List Token) (layout : Layout) :
    Item :=
  ⟨form, Attribute.allTokens attrs ++ tokens, Attribute.outerLayout attrs ++ layout ++ line⟩

/-- A body in braces that follows a head; the head decides about what stands before the brace. -/
def body (head : Layout) (inner : List Attribute) (content : Layout) : Layout :=
  cbox indentation
    (head ++ word "\x7b" ++
      shiftLast (-indentation)
        (Layout.lineIfMore ++ Attribute.innerLayout inner ++ content)) ++
    word "\x7d"

/-- A word, a name and generic parameters, after what says who may use them. -/
def head (vis : Visibility) (keyword name : String) (generics : Generics) : Snippet :=
  vis.snippet ++ Snippet.keyword keyword (keyword ++ " ") ++ Snippet.name name ++
    ⟨generics.tokens, generics.layout⟩

def ofStruct (s : StructItem) : Item :=
  let head := head s.visibility "struct" s.name s.generics
  ofParts (.struct s) s.attributes (head.tokens ++ s.fields.structTokens s.generics)
    (s.fields.structLayout head.layout s.generics)

def ofUnion (attrs : List Attribute) (vis : Visibility) (name : String) (generics : Generics)
    (fields : Fields) : Item :=
  let head := head vis "union" name generics
  ofParts .other attrs (head.tokens ++ fields.structTokens generics)
    (fields.structLayout head.layout generics)

/-- A variant of an enum. -/
structure Variant where
  attributes : List Attribute
  name : String
  fields : Fields
  discriminant : Option Expr

namespace Variant

def tokens (v : Variant) : List Token :=
  Attribute.allTokens v.attributes ++ .ident v.name :: v.fields.tokens ++
    match v.discriminant with | some e => Token.operator "=" ++ e.tokens | none => []

def layout (v : Variant) : Layout :=
  Attribute.outerLayout v.attributes ++ word v.name ++ v.fields.variantLayout ++
    match v.discriminant with | some e => word " = " ++ e.inline | none => []

end Variant

def ofEnum (attrs : List Attribute) (vis : Visibility) (name : String) (generics : Generics)
    (variants : List Variant) (trailing : Bool) : Item :=
  let head := head vis "enum" name generics
  ofParts (.enum name) attrs
    (head.tokens ++ generics.whereTokens ++
      Token.braces (commaTokens (variants.map Variant.tokens) trailing))
    (body (head.layout ++ generics.whereBody) []
      (variants.flatMap fun v => v.layout ++ word "," ++ line))

def ofAlias (attrs : List Attribute) (vis : Visibility) (name : String) (generics : Generics)
    (ty : Ty) : Item :=
  let head := head vis "type" name generics
  ofParts (.typeName name ty) attrs
    (head.tokens ++ generics.whereTokens ++ Token.operator "=" ++ ty.tokens ++ Token.operator ";")
    (cbox indentation
      (head.layout ++ generics.whereLine ++ word "= " ++ noCut ++ ibox (-indentation) ty.layout ++
        word ";"))

/-- Bounds on the line of what they belong to, after a mark when there are any. -/
def boundsAfter (mark : Layout) (bounds : List Bound) : Layout :=
  match Bound.listLayout bounds with
  | [] => []
  | l :: ls => mark ++ l ++ ls.flatMap fun m => space ++ word "+ " ++ m

/-- Bounds with the colon before them; without any there is no colon. -/
def boundTokens (bounds : List Bound) (trailing : Bool) : List Token :=
  if bounds.isEmpty then []
  else
    Token.operator ":" ++ separated plus (Bound.listTokens bounds) ++
      if trailing then plus else []

/-- A type of a trait or of an implementation. -/
def ofMemberType (attrs : List Attribute) (before : Snippet) (name : String) (generics : Generics)
    (bounds : List Bound) (trailing : Bool) (ty : Option Ty) : Item :=
  let head := before ++ head .inherited "type" name generics
  let valueTokens := match ty with
    | some ty => Token.operator "=" ++ ty.tokens
    | none => []
  let value := match ty with
    | some ty => word " = " ++ noCut ++ ibox (-indentation) ty.layout
    | none => []
  ofParts .other attrs
    (head.tokens ++ boundTokens bounds trailing ++ valueTokens ++ generics.whereTokens ++
      Token.operator ";")
    (cbox indentation
      (head.layout ++ boundsAfter (word ": ") bounds ++ value ++ generics.whereLineEnd))

/-- A type that is defined elsewhere. -/
def ofForeignType (attrs : List Attribute) (vis : Visibility) (name : String)
    (generics : Generics) : Item :=
  let head := head vis "type" name generics
  ofParts .other attrs (head.tokens ++ generics.whereTokens ++ Token.operator ";")
    (cbox 0 (head.layout ++ word ";"))

def ofUse (attrs : List Attribute) (vis : Visibility) (rooted : Bool) (tree : UseTree) : Item :=
  ofParts (.use rooted tree) attrs
    (vis.tokens ++ .ident "use" :: rootTokens rooted ++ tree.tokens ++ Token.operator ";")
    (vis.layout ++ word "use " ++ rootLayout rooted ++ tree.layout ++ word ";")

/-- A constant or static; `head` holds everything before the type. -/
def ofConstant (attrs : List Attribute) (head : Snippet) (ty : Ty) (value : Option Expr) : Item :=
  let valueTokens := match value with
    | some e => Token.operator "=" ++ e.tokens
    | none => []
  ofParts .other attrs
    (head.tokens ++ Token.operator ":" ++ ty.tokens ++ valueTokens ++ Token.operator ";")
    (cbox 0
      (head.layout ++ word ": " ++ ty.layout ++
        (match value with | some e => word " = " ++ noCut ++ e.inline | none => []) ++ word ";"))

/-- A function; without a body it only declares. -/
def ofFunction (attrs : List Attribute) (before : Snippet) (sig : Signature) (b : Option Block) :
    Item :=
  let head := before.layout ++ sig.layout
  ofParts .other attrs
    (before.tokens ++ sig.tokens ++
      match b with | some b => b.tokens | none => Token.operator ";")
    (match b with
    | some b => body (head ++ sig.generics.whereBody) [] b.stmtLayout
    | none => cbox indentation (head ++ sig.generics.whereEnd))

/-- Items in braces after a head. -/
def ofItems (form : ItemForm) (attrs : List Attribute) (head : Snippet) (inner : List Attribute)
    (items : List Item) : Item :=
  ofParts form attrs
    (head.tokens ++ Token.braces (Attribute.allTokens inner ++ items.flatMap Item.tokens))
    (body head.layout inner (items.flatMap Item.layout))

/-- A module; without a body it stands in a file of its own. -/
def ofModule (attrs : List Attribute) (before : Snippet) (name : String)
    (content : Option (List Attribute × List Item)) : Item :=
  let head := before ++ Snippet.keyword "mod" "mod " ++ Snippet.name name
  match content with
  | some (inner, items) => ofItems (.module name) attrs (head ++ ⟨[], word " "⟩) inner items
  | none =>
    ofParts (.module name) attrs (head.tokens ++ Token.operator ";")
      (cbox indentation (head.layout ++ word ";"))

/-- A crate, perhaps under another name. -/
def ofCrate (attrs : List Attribute) (vis : Visibility) (name : String) (other : Option String) :
    Item :=
  ofParts .other attrs
    (vis.tokens ++ [.ident "extern", .ident "crate", .ident name] ++
      (match other with | some a => [.ident "as", .ident a] | none => []) ++ Token.operator ";")
    (vis.layout ++ word "extern crate " ++ word name ++
      (match other with | some a => word " as " ++ word a | none => []) ++ word ";")

/-- An implementation of a trait, which may be negative, or the methods of a type. -/
def ofImpl (attrs : List Attribute) (before : Snippet) (generics : Generics)
    (trait : Option (Bool × Path)) (ty : Ty) (inner : List Attribute) (items : List Item) : Item :=
  let traitTokens := match trait with
    | some (negative, p) =>
      (if negative then Token.operator "!" else []) ++ p.tokens ++ [.ident "for"]
    | none => []
  let traitLayout := match trait with
    | some (negative, p) =>
      (if negative then word "!" else []) ++ p.layout .type ++ space ++ word "for "
    | none => []
  let head : Snippet :=
    { tokens :=
        before.tokens ++ .ident "impl" :: generics.tokens ++ traitTokens ++ ty.tokens ++
          generics.whereTokens
      layout :=
        ibox (-indentation)
          (cbox indentation (before.layout ++ word "impl" ++ generics.layout) ++ word " " ++
            traitLayout ++ ty.layout) ++
          generics.whereBody }
  ofItems .other attrs head inner items

def ofTrait (attrs : List Attribute) (before : Snippet) (name : String) (generics : Generics)
    (bounds : List Bound) (trailing : Bool) (inner : List Attribute) (items : List Item) : Item :=
  let boundLayout :=
    if bounds.isEmpty then [] else word ": " ++ joinLayout " + " (Bound.listLayout bounds)
  let rest : Snippet :=
    ⟨boundTokens bounds trailing ++ generics.whereTokens, boundLayout ++ generics.whereBody⟩
  ofItems .other attrs (before ++ head .inherited "trait" name generics ++ rest) inner items

/-- Another name for some bounds. -/
def ofTraitAlias (attrs : List Attribute) (vis : Visibility) (name : String) (generics : Generics)
    (bounds : List Bound) (trailing : Bool) : Item :=
  let head := head vis "trait" name generics
  ofParts .other attrs
    (head.tokens ++ Token.operator "=" ++ separated plus (Bound.listTokens bounds) ++
      (if trailing then plus else []) ++ generics.whereTokens ++ Token.operator ";")
    (cbox indentation
      (head.layout ++ word " = " ++ noCut ++ boundsAfter [] bounds ++ generics.whereEnd))

/-- A rule of a macro definition: what it matches and what it stands for. -/
structure MacroRule where
  delimiter : Delimiter
  matcher : List Token
  expansion : List Token

def MacroRule.layout (r : MacroRule) : Layout :=
  let boxed (matcher : Bool) (gap : Layout) (tokens : List Token) : Layout :=
    if tokens.isEmpty then []
    else
      cbox indentation
        (gap ++ ibox 0 (MacroTokens.layout matcher tokens) ++ shiftLast (-indentation) gap)
  word r.delimiter.openText ++ boxed true cut r.matcher ++ word r.delimiter.closeText ++
    word " =" ++ word ">" ++ word " \x7b" ++ noCut ++ boxed false line r.expansion ++ word "\x7d" ++
    word ";" ++ line

/-- A macro call as an item; a name stands in definitions, whose rules are laid out as such. -/
def ofMacro (attrs : List Attribute) (p : Path) (name : Option String) (d : Delimiter)
    (tokens : List Token) (rules : Option (List MacroRule)) : Item :=
  let nameTokens := match name with | some n => [.ident n] | none => []
  let nameLayout := match name with | some n => word (" " ++ n) | none => []
  let ending := if d == .brace then "" else ";"
  ofParts .other attrs
    (p.tokens ++ Token.operator "!" ++ nameTokens ++ Token.group d tokens ++ Token.operator ending)
    (match rules with
    | some rules =>
      p.layout .plain ++ word "!" ++ nameLayout ++ word " \x7b" ++
        cbox indentation
          (shiftLast (-indentation) (Layout.lineIfMore ++ rules.flatMap MacroRule.layout)) ++
        word "\x7d"
    | none =>
      p.layout .plain ++ word "!" ++ nameLayout ++ MacroTokens.delimited d tokens ++
        if d == .brace then [] else word ";")

/-- An item that is passed through as it stands. -/
def verbatim (tokens : List Token) : Item := ⟨.other, tokens, word (tokenText tokens) ++ line⟩

end Item

/-- An item among statements. -/
def Stmt.ofItem (i : Item) : Stmt :=
  { tokens := i.tokens
    layout := fun _ => i.layout
    tail := none
    needsSemicolon := false }

/-- A source file. -/
structure SourceFile where
  /-- A first line for the system that runs the file. -/
  shebang : Option String
  inner : List Attribute
  items : List Item

namespace SourceFile

def layout (f : SourceFile) : Layout :=
  cbox 0
    ((match f.shebang with | some s => word s ++ line | none => []) ++
      Attribute.innerLayout f.inner ++ f.items.flatMap Item.layout)

/-- A file in its usual layout. -/
def render (f : SourceFile) : String := f.layout.render

end SourceFile
end RecordStore
