import RecordStore.Proofs.Schema.Names
import RecordStore.Store.Plan

/-!
What callers ask of a store: a method of the store with its arguments.
-/
namespace RecordStore

def Plan.statement? {α : Type} : Plan α → Option Statement
  | answer _ => none
  | run s _ => some s

inductive Request (t : Table) where
  | create (entities : List t.Entity)
  | write (a : Assignment) (c : Column) (value : t.Cell c.name) (b : Option (Blueprint t))
  | delete (b : Option (Blueprint t))
  | find (b : Option (Blueprint t))
  | count (b : Option (Blueprint t))
  | select (c : Column) (b : Option (Blueprint t))

namespace Request

variable {t : Table}

/-- The statement that a request sends to a driver, if it sends one. -/
def statement? : Request t → Option Statement
  | create es => (t.create es).statement?
  | write a c value b => (t.write a c value b).statement?
  | delete b => (t.delete b).statement?
  | find b => (t.find b).statement?
  | count b => (t.count b).statement?
  | select c b => (t.select c b).statement?

def action : Request t → Action
  | create _ => .create
  | write a c _ _ => .write a c
  | delete _ => .delete
  | find _ => .find
  | count _ => .count
  | select c _ => .select c

/-- Whether the store has the method. -/
def Offered (q : Request t) : Prop := q.action ∈ t.record.actions

/-- The blueprint of a request that reads rows; one without reads with the default blueprint. -/
def reads? : Request t → Option (Blueprint t)
  | find b => some (b.getD {})
  | count b => some (b.getD {})
  | select _ b => some (b.getD {})
  | _ => none

end Request

/-- The column that an action is about, if it is about one. -/
def Action.column? : Action → Option Column
  | .write _ c => some c
  | .select c => some c
  | _ => none

namespace Record

variable {r : Record} {a : Action}

theorem columns_ne_nil (h : a ∈ r.actions) : r.columns ≠ [] := by
  intro hn
  simp [actions, hn] at h

/-- A store's methods are about the record's columns. -/
theorem mem_columns_of_action (h : a ∈ r.actions) {c : Column} (hc : a.column? = some c) :
    c ∈ r.columns := by
  rcases action_cases h with rfl | rfl | rfl | rfl | ⟨o, ho, rfl | ⟨k, -, rfl⟩⟩
  · cases hc
  · cases hc
  · cases hc
  · cases hc
  · cases hc
    exact ho
  · cases hc
    exact ho

theorem mem_orderColumns {column : String} :
    column ∈ r.orderColumns ↔ ∃ c ∈ r.columns, c.column = column := by
  simp [orderColumns]

end Record
end RecordStore
