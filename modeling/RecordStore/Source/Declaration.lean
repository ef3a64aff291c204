import RecordStore.Error
import RecordStore.Source.IgnoreMark
import RecordStore.Source.Scope
import RecordStore.Syntax.Reading

/-!
The records that a source declares: structs with named fields and without parameters, together
with the tags on them and on their fields.
-/
namespace RecordStore

structure FieldDeclaration where
  name : String
  ty : Ty
  tags : List String
  deriving Inhabited

namespace FieldDeclaration

def isTagged (f : FieldDeclaration) : Bool := !f.tags.isEmpty

end FieldDeclaration

structure Declaration where
  name : String
  visibility : Visibility
  tags : List String
  fields : List FieldDeclaration
  deriving Inhabited

namespace Declaration

/-- The name of the attributes that hold tags. -/
def tagAttribute : String := "marlow"

/-- The text of a tag. -/
def tag (a : Attribute) : Except ConfigIssue String :=
  match a.value with
  | .value (some text) _ => .ok text
  | .value none _ => .error (.malformedTag "tag value must be a string literal")
  | _ => .error (.malformedTag "expected #[marlow = \"...\"]")

/-- The tags among some attributes, in order. -/
def tagsOf (attributes : List Attribute) : Except ConfigIssue (List String) :=
  (attributes.filter (·.name? == some tagAttribute)).mapM tag

def field (record : String) (f : FieldItem) : Except Error FieldDeclaration :=
  match f.name with
  | none => .error (.ofRecord record .unnamedFields)
  | some name => do
    let tags ← (tagsOf f.attributes).mapError (Error.ofField record name)
    return { name, ty := f.ty, tags }

def build (s : StructItem) (fields : List FieldItem) : Except Error Declaration := do
  let tags ← (tagsOf s.attributes).mapError (Error.ofRecord s.name)
  let fields ← fields.mapM (field s.name)
  return { name := s.name, visibility := s.visibility, tags, fields }

/-- The record that a struct declares; other structs declare none. -/
def ofStruct? (s : StructItem) : Except Error (Option Declaration) :=
  if !s.generics.isEmpty then .ok none
  else
    match s.fields with
    | .named fields _ => some <$> build s fields
    | _ => .ok none

/-- The record that a type by itself declares. -/
def ofTypeItem (t : TypeItem) : Except Error Declaration :=
  if t.isGeneric then .error (.ofRecord t.name .genericRecord)
  else
    match t.struct with
    | none => .error (.ofRecord t.name .unnamedFields)
    | some s =>
      match s.fields with
      | .named fields _ => build s fields
      | _ => .error (.ofRecord t.name .unnamedFields)

/-- The structs among some items. -/
def structs (items : List Item) : List StructItem :=
  items.filterMap fun i => match i.form with | .struct s => some s | _ => none

/-- Declarations of structs in order, after those seen before; no two share a name. -/
def collect (seen : List Declaration) : List StructItem → Except Error (List Declaration)
  | [] => .ok seen
  | s :: rest => do
    match ← ofStruct? s with
    | none => collect seen rest
    | some d =>
      if seen.any (·.name == d.name) then .error (.ofRecord d.name .duplicateRecord)
      else collect (seen ++ [d]) rest

end Declaration

/-- What generation needs to know of a source. -/
structure SourceUnit where
  isIgnored : Bool
  records : List Declaration
  scope : Scope

namespace SourceUnit

/-- An ignored source is not read at all. -/
def ofSource (source : String) : Except Error SourceUnit := do
  if IgnoreMark.isIn source then return ⟨true, [], .empty⟩
  match SourceFile.read? source with
  | none => throw .parse
  | some file =>
    let records ← Declaration.collect [] (Declaration.structs file.items)
    return ⟨false, records, .ofItems file.items⟩

end SourceUnit
end RecordStore
