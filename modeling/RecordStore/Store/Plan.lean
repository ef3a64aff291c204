import RecordStore.Store.Blueprint

/-!
Plans: what a store's methods send to a driver. A plan answers at once, or runs one statement and
uses what it gives. Plans are made without the driver, so their statements can be looked at.
-/
namespace RecordStore

/-- A statement with the values of its placeholders. -/
structure Statement where
  query : String
  params : List Value
  deriving DecidableEq, Repr

/-- What a driver reports about a statement without rows. -/
structure Outcome where
  rowsAffected : Int := 0
  lastInsertId : Int := 0
  deriving DecidableEq, Repr

/-- How rows are used. -/
inductive Reading (α : Type) where
  /-- All rows, one after the other. -/
  | all (start : α) (step : α → Row → Except StoreError α)
  /-- The first row, which has to be there. -/
  | first (read : Row → Except StoreError α)

/-- How a statement is run. -/
inductive Use (α : Type) where
  | execute (result : Outcome → α)
  | query (reading : Reading α)

inductive Plan (α : Type) where
  | answer (result : Except StoreError α)
  | run (s : Statement) (use : Use α)

namespace Reading

/-- All rows in a list. -/
def list {α : Type} (read : Row → Except StoreError α) : Reading (List α) :=
  .all [] fun before row => (read row).map fun a => before ++ [a]

/-- The number in the last row, zero if there are no rows. -/
def lastNumber : Reading Int := .all 0 fun _ row => row.number

end Reading

namespace Table

variable (t : Table)

/-! ### Inserts -/

/-- The placeholders of a row of an insert. -/
def insertRow (count index : Nat) : String :=
  "(" ++ ",".intercalate (t.record.dialect.placeholders (index * count + 1) count) ++ ")"

/-- The values of a row of an insert. -/
def insertValues (columns : List Column) (e : t.Entity) : List Value :=
  columns.map fun c => (t.codec c.name).bind (e c.name)

def insert (entities : List t.Entity) : Statement :=
  let columns := t.record.insertColumns
  let rows := (List.range entities.length).map (t.insertRow columns.length)
  ⟨t.record.insertHead columns ++ ", ".intercalate rows ++ t.record.insertTail,
    entities.flatMap (t.insertValues columns)⟩

/-- Insert records and give the last key; no records need no statement. -/
def create (entities : List t.Entity) : Plan Int :=
  if entities.isEmpty then .answer (.ok 0)
  else .run (t.insert entities)
    (if t.record.dialect.returnsKeys then .query .lastNumber else .execute Outcome.lastInsertId)

/-! ### Updates and deletes -/

/-- The new value of an update is bound first or last, as the dialect has it. -/
def update (a : Assignment) (c : Column) (value : t.Cell c.name) (b : Option (Blueprint t)) :
    Statement :=
  let head := t.record.updateHead a c
  let d := t.record.dialect
  let bound := (t.codec c.name).bind value
  let values := (b.map Blueprint.values).getD []
  let predicate (base : Nat) : String := (b.map fun b => Blueprint.part (b.predicate base)).getD ""
  if d.bindsTargetLast then
    ⟨head ++ d.placeholder (values.length + 1) ++ predicate 1, values ++ [bound]⟩
  else ⟨head ++ d.placeholder 1 ++ predicate 2, bound :: values⟩

def write (a : Assignment) (c : Column) (value : t.Cell c.name) (b : Option (Blueprint t)) :
    Plan Int :=
  .run (t.update a c value b) (.execute Outcome.rowsAffected)

/-- Delete what a blueprint asks for. One that asks for nothing is refused, and so is none. -/
def delete (b : Option (Blueprint t)) : Plan Int :=
  match b.filter Blueprint.hasConditions with
  | none => .answer (.error .unconditionalDelete)
  | some b =>
    .run ⟨t.record.deleteHead ++ " " ++ b.predicate 1 ++ ";", b.values⟩
      (.execute Outcome.rowsAffected)

/-! ### Reads -/

/-- A read without a blueprint is one with the default blueprint. -/
def readStatement (head : String) (b : Option (Blueprint t)) : Statement :=
  let b := b.getD {}
  ⟨head ++ b.tail, b.values⟩

def find (b : Option (Blueprint t)) : Plan (List t.Entity) :=
  .run (t.readStatement t.record.findHead b) (.query (.list t.readEntity))

def select (c : Column) (b : Option (Blueprint t)) : Plan (List (t.Cell c.name)) :=
  .run (t.readStatement (t.record.selectHead c) b)
    (.query (.list fun row => row.get (t.codec c.name).read 0))

def count (b : Option (Blueprint t)) : Plan Int :=
  let b := b.getD {}
  .run ⟨t.record.countHead ++ Blueprint.part (b.predicate 1) ++ ";", b.values⟩
    (.query (.first Row.number))

end Table
end RecordStore
