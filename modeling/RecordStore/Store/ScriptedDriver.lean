import RecordStore.Store.Driver

/-!
A driver that answers from a script and remembers what it was asked. Every query takes the next
set of rows; a failure that is due is reported once.
-/
namespace RecordStore

/-- What a failure waits for. -/
inductive Stage where
  | prepare
  | execute
  | query
  /-- A cursor without further rows. -/
  | next
  deriving DecidableEq, Repr

namespace Stage

def ofName? : String → Option Stage
  | "prepare" => some prepare
  | "execute" => some execute
  | "query" => some query
  | "next" => some next
  | _ => none

end Stage

inductive CallKind where
  | execute
  | query
  deriving DecidableEq, Repr

namespace CallKind

def name : CallKind → String
  | execute => "execute"
  | query => "query"

end CallKind

structure Call where
  kind : CallKind
  statement : Statement
  deriving DecidableEq, Repr

structure ScriptedDriver where
  /-- Sets of rows for the queries to come. -/
  answers : List (List Row) := []
  outcome : Outcome := {}
  failure : Option (Stage × String) := none
  /-- The statements that ran, failed ones too. -/
  calls : List Call := []
  prepared : Nat := 0
  released : Nat := 0
  deriving DecidableEq, Repr

namespace ScriptedDriver

variable (s : ScriptedDriver)

/-- The failure that is due at a stage, and the driver after it. -/
def fail? (stage : Stage) : Option (StoreError × ScriptedDriver) :=
  match s.failure with
  | some (due, reason) =>
    if due = stage then some (.driver reason, { s with failure := none }) else none
  | none => none

/-- Fail if that is due, else go on. -/
def attempt {α : Type} (stage : Stage) (continuation : Except StoreError α × ScriptedDriver) :
    Except StoreError α × ScriptedDriver :=
  match s.fail? stage with
  | some (e, s) => (.error e, s)
  | none => continuation

def prepare : Except StoreError Unit × ScriptedDriver :=
  s.attempt .prepare (.ok (), { s with prepared := s.prepared + 1 })

def call (kind : CallKind) (statement : Statement) : ScriptedDriver :=
  { s with calls := s.calls ++ [⟨kind, statement⟩] }

def execute (statement : Statement) : Except StoreError Outcome × ScriptedDriver :=
  let s := s.call .execute statement
  s.attempt .execute (.ok s.outcome, s)

/-- The end of a cursor. -/
def endOfRows : Cursor ScriptedDriver :=
  match s.fail? .next with
  | some (e, s) => .stop (some e) s
  | none => .stop none s

def cursor (rows : List Row) : Cursor ScriptedDriver := rows.foldr (fun r => .row r s) s.endOfRows

def query (statement : Statement) : Except StoreError (Cursor ScriptedDriver) × ScriptedDriver :=
  let s := s.call .query statement
  let after := { s with answers := s.answers.tail }
  s.attempt .query (.ok (after.cursor (s.answers.headD [])), after)

def release : ScriptedDriver := { s with released := s.released + 1 }

def driver : Driver ScriptedDriver where
  prepare _ s := s.prepare
  execute statement s := s.execute statement
  query statement s := s.query statement
  release _ s := s.release

end ScriptedDriver
end RecordStore
