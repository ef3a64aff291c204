import RecordStore.Schema.Statement
import RecordStore.Values.FieldType

/-!
Tables: records whose fields have types with values. The types are arbitrary, so that numbers a
program registers itself have their place beside the types known here.
-/
namespace RecordStore

/-- How the values of a type are bound and read. -/
structure Codec where
  Carrier : Type
  bind : Carrier → Value
  read : Value → Except StoreError Carrier
  /-- What a field has when nothing is said about it. -/
  initial : Carrier
  /-- Whether a value is a missing one. -/
  isMissing : Carrier → Bool

namespace Codec

def ofType (t : FieldType) : Codec := ⟨t.Carrier, t.bind, t.read, t.initial, t.isMissing⟩

/-- Fields that hold nothing. -/
def unit : Codec :=
  { Carrier := Unit
    bind := fun _ => .null
    read := fun v => FieldType.mismatch "()" v
    initial := ()
    isMissing := fun _ => false }

/-- The numbers that stores count with. -/
def number : IntegerType := ⟨true, .bits64⟩

end Codec

structure Table where
  record : Record
  /-- The types of the fields, by name. -/
  codec : String → Codec

namespace Table

/-- The values of one field. -/
abbrev Cell (t : Table) (field : String) : Type := (t.codec field).Carrier

/-- One record with values in all fields. -/
abbrev Entity (t : Table) : Type := (field : String) → t.Cell field

def initialEntity (t : Table) : t.Entity := fun field => (t.codec field).initial

/-- The table of a record with types that are known here. -/
def ofTypes (r : Record) (typeOf : String → Option FieldType) : Table :=
  ⟨r, fun field => match typeOf field with
    | some t => .ofType t
    | none => .unit⟩

end Table

/-- What went wrong, if anything. -/
def failure? {α : Type} : Except StoreError α → Option StoreError
  | .ok _ => none
  | .error e => some e

/-- Read something for every field. The first error among some fields is the error of all; other
fields fall back. -/
def collect {β : String → Type} (fields : List String)
    (read : (field : String) → Except StoreError (β field))
    (fallback : (field : String) → β field) : Except StoreError ((field : String) → β field) :=
  match fields.findSome? fun field => failure? (read field) with
  | some e => .error e
  | none => .ok fun field => (read field).toOption.getD (fallback field)

/-! ### Rows -/

/-- A row of a result. -/
structure Row where
  columns : List Value
  deriving DecidableEq, Repr

namespace Row

/-- A column of a row, by its place. -/
def get {α : Type} (row : Row) (read : Value → Except StoreError α) (i : Nat) :
    Except StoreError α :=
  match row.columns[i]? with
  | some v => read v
  | none => .error (.columnOutOfRange i row.columns.length)

/-- The number in the first column. -/
def number (row : Row) : Except StoreError Int :=
  (row.get Codec.number.read 0).map IntegerType.Number.val

end Row

namespace Table

/-- A field of a row that was found: what its column holds, or the initial value of a field without
a column. -/
def readField (t : Table) (row : Row) (field : String) : Except StoreError (t.Cell field) :=
  match t.record.place? field with
  | some i => row.get (t.codec field).read i
  | none => .ok (t.codec field).initial

/-- A row as a record. The first field that cannot be read, as they are declared, is an error. -/
def readEntity (t : Table) (row : Row) : Except StoreError t.Entity :=
  collect t.record.fieldNames (t.readField row) t.initialEntity

end Table
end RecordStore
