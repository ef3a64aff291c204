import RecordStore.Store.Clause
import RecordStore.Store.Table

/-!
Blueprints: what a caller asks of a table. Every column has a slot for exact values, and some have
one for ranges or patterns; each slot that asks for something gives a clause. Records that are
deleted softly stay hidden unless they are asked for.
-/
namespace RecordStore

/-- What the list in a slot asks of a column. -/
inductive SlotKind where
  /-- One of some values. -/
  | exact
  /-- The ends of a range. -/
  | range
  /-- Patterns. -/
  | like
  deriving DecidableEq, Repr

/-- A slot of a record's blueprints. -/
structure Slot where
  column : Column
  kind : SlotKind

/-- The kinds of a column's slots; the one for exact values comes first. -/
def Column.slotKinds (c : Column) : List SlotKind :=
  .exact :: c.rangeSlot.toList.map (fun _ => .range) ++ c.likeSlot.toList.map fun _ => .like

/-- The slots of a record's blueprints, column by column. -/
def Record.slots (r : Record) : List Slot := r.columns.flatMap fun c => c.slotKinds.map (⟨c, ·⟩)

/-- What is asked of one column. -/
structure Filter (α : Type) where
  /-- Values of which the column has one. Columns that may lack a value tell no list from an empty
  one. -/
  exact : Option (List α) := none
  range : List α := []
  like : List String := []

/-- What is asked of a table's rows. Slots that a column does not have are not looked at. -/
structure Blueprint (t : Table) where
  filter : (field : String) → Filter (t.Cell field) := fun _ => {}
  /-- Whether one clause is enough. -/
  inclusive : Bool := false
  /-- Whether deleted rows count. -/
  unscoped : Bool := false
  /-- How many rows to read; below one, as many as the table has by default. -/
  limit : Int := 0
  offset : Int := 0
  orderBy : String := ""
  orderDirection : String := ""

namespace Blueprint

variable {t : Table} (b : Blueprint t)

/-! ### Clauses -/

/-- A list of values asks for one of them. Where a value may be lacking, an empty list asks for
rows with a value, and a list with a missing value for rows without one. -/
def exactClause (c : Column) : Option Clause :=
  let column := t.record.qualified c.column
  let k := t.codec c.name
  match (b.filter c.name).exact with
  | none => none
  | some [] => if c.category.isNullable then some (.present column) else none
  | some items =>
    if c.category.isNullable && items.any k.isMissing then some (.absent column)
    else some (.oneOf column (items.map k.bind))

/-- Two values are the ends of a range; any other number of them asks for nothing. -/
def rangeClause (c : Column) : Option Clause :=
  let k := t.codec c.name
  match (b.filter c.name).range with
  | [lower, upper] =>
    some (.between (t.record.qualified c.column) (k.bind lower) (k.bind upper))
  | _ => none

def likeClause (c : Column) : Option Clause :=
  match (b.filter c.name).like with
  | [] => none
  | p :: ps => some (.like (t.record.qualified c.column) (p :: ps))

/-- What a slot asks for, if anything. -/
def clause? (s : Slot) : Option Clause :=
  match s.kind with
  | .exact => b.exactClause s.column
  | .range => b.rangeClause s.column
  | .like => b.likeClause s.column

/-- Add what a slot asks for to the texts and values of the slots before it. Its placeholders come
after theirs. -/
def gather (base : Nat) (before : List String × List Value) (s : Slot) :
    List String × List Value :=
  match b.clause? s with
  | none => before
  | some c =>
    (before.1 ++ [c.text t.record.dialect b.inclusive (base + before.2.length)],
      before.2 ++ c.values)

/-- The texts and values of all slots, with placeholders from an index on. -/
def conditions (base : Nat) : List String × List Value :=
  t.record.slots.foldl (b.gather base) ([], [])

/-- The values of the predicate, in the order of its placeholders. -/
def values : List Value := (b.conditions 1).2

/-- Whether the caller asks for anything; the scope does not count. -/
def hasConditions : Bool := !(b.conditions 1).1.isEmpty

/-! ### Predicate, order and page -/

/-- What the slots ask for in one condition. -/
def condition (base : Nat) : String := (joiner b.inclusive).intercalate (b.conditions base).1

/-- The condition that hides deleted rows, if there is one. -/
def scope? : Option String :=
  if b.unscoped then none
  else t.record.softDeleteColumn.map fun c => Dialect.absent (t.record.qualified c)

/-- The predicate with placeholders from an index on; it is empty if nothing is asked for.
Alternatives are grouped before the scope is added to them. -/
def predicate (base : Nat) : String :=
  match b.scope? with
  | some scope =>
    if (b.conditions base).1.isEmpty then "WHERE " ++ scope
    else if b.inclusive && (b.condition base).contains " OR " then
      "WHERE (" ++ b.condition base ++ ") AND " ++ scope
    else "WHERE " ++ b.condition base ++ " AND " ++ scope
  | none => if (b.conditions base).1.isEmpty then "" else "WHERE " ++ b.condition base

def direction : String :=
  if b.orderDirection.toList.map Char.toLower = "desc".toList then "DESC" else "ASC"

/-- The order; it is empty unless rows are ordered by a column of the table. -/
def orderClause : String :=
  if t.record.orderColumns.contains b.orderBy then
    "ORDER BY " ++ t.record.qualified b.orderBy ++ " " ++ b.direction
  else ""

def effectiveLimit : Int := if b.limit < 1 then t.record.defaultLimit else b.limit

def effectiveOffset : Int := if b.offset < 0 then 0 else b.offset

def page : String :=
  " LIMIT " ++ toString b.effectiveLimit ++ " OFFSET " ++ toString b.effectiveOffset

/-- A part of a statement, with a blank before it if it is not empty. -/
def part (s : String) : String := if s.isEmpty then "" else " " ++ s

/-- What follows the head of a read. -/
def tail : String := part (b.predicate 1) ++ part b.orderClause ++ b.page

end Blueprint
end RecordStore
