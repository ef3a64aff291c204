import RecordStore.Store.Blueprint

/-!
Arguments of a store's methods that are given as plain values. They are read into the types of the
table, slot by slot and field by field; what is not given is as it is by default.
-/
namespace RecordStore.Table

variable (t : Table)

/-- Read the values of a slot. -/
def readList {α : Type} (read : Value → Except StoreError α) (given : Option (List Value)) :
    Except StoreError (Option (List α)) :=
  match given with
  | none => .ok none
  | some vs => (vs.mapM read).map some

/-- Read what is asked of a field from its slots. -/
def readFilter (given : String → Option (List Value)) (field : String) :
    Except StoreError (Filter (t.Cell field)) := do
  let slot (name : Option String) : Option (List Value) := name.bind given
  let c := t.record.column? field
  let exact ← readList (t.codec field).read (given field)
  let range ← readList (t.codec field).read (slot (c.bind Column.rangeSlot))
  let like ← readList FieldType.readString (slot (c.bind Column.likeSlot))
  return { exact, range := range.getD [], like := like.getD [] }

/-- Read what is asked of all columns. -/
def readFilters (given : String → Option (List Value)) :
    Except StoreError ((field : String) → Filter (t.Cell field)) :=
  collect (t.record.columns.map Column.name) (t.readFilter given) fun _ => {}

def readGiven (given : String → Option Value) (field : String) :
    Except StoreError (t.Cell field) :=
  match given field with
  | some v => (t.codec field).read v
  | none => .ok (t.codec field).initial

/-- Read a record. -/
def readGivenEntity (given : String → Option Value) : Except StoreError t.Entity :=
  collect t.record.fieldNames (t.readGiven given) t.initialEntity

end RecordStore.Table
