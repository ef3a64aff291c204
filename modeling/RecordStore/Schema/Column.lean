import RecordStore.Schema.Category
import RecordStore.Schema.Naming
import RecordStore.Schema.Settings
import RecordStore.Source.Declaration

/-!
Columns: the fields of a record that a table holds.
-/
namespace RecordStore

structure Column where
  /-- The name of the field. -/
  name : String
  column : String
  ty : Ty
  category : Category
  autoIncrement : Bool
  bitmask : Bool
  references : Option String
  /-- The blueprint slot for ranges of numbers and times. -/
  rangeSlot : Option String
  /-- The blueprint slot for patterns of strings. -/
  likeSlot : Option String

namespace Column

/-- The settings that a field's tags make. -/
def settings (record : String) (f : FieldDeclaration) : Except Error FieldSettings :=
  (f.tags.foldlM FieldSettings.applyTag {}).mapError (Error.ofField record f.name)

/-- The column of a tagged field, unless its settings drop it. -/
def ofField (config : Config) (scope : Scope) (record : String) (parts : NameParts)
    (f : FieldDeclaration) : Except Error (Option Column) := do
  let s ← settings record f
  if s.isSkipped then return none
  let column := s.column.getD (LetterCase.lower f.name)
  if !Naming.isSqlName column then throw (.ofField record f.name (.invalidName column))
  let category ← (f.ty.classify config scope).mapError
    (.unsupportedType { record, field := some f.name } f.ty.display)
  if s.bitmask && !category.isUnsigned then throw (.ofField record f.name .bitmaskNotUnsigned)
  return some
    { name := f.name
      column
      ty := f.ty
      category
      autoIncrement := s.autoIncrement
      bitmask := s.bitmask
      references := s.references
      rangeSlot := if category.hasRange then some (Naming.slot f.name parts.range) else none
      likeSlot := if category.hasLike then some (Naming.slot f.name parts.like) else none }

/-- Columns that updates write. -/
def isWritable (c : Column) : Bool := !c.autoIncrement

/-- The blueprint slots of a column; the one for exact values comes first. -/
def slots (c : Column) : List String := c.name :: c.rangeSlot.toList ++ c.likeSlot.toList

def imports (c : Column) : List String := c.ty.imports

end Column
end RecordStore
