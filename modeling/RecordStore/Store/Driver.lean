import RecordStore.Store.Plan
import RecordStore.Store.StatementLog

/-!
Drivers, and how plans run over them. A driver prepares statements, executes them or answers them
with rows, and gets every statement back that it prepared, however the run ends.
-/
namespace RecordStore

/-- Rows to come, with the driver's state after each. A driver may fail instead of ending. -/
inductive Cursor (σ : Type) where
  | row (row : Row) (state : σ) (rest : Cursor σ)
  | stop (failure : Option StoreError) (state : σ)

/-- What drivers do, and how it changes their states. Statements are told apart by their text. -/
structure Driver (σ : Type) where
  prepare : String → σ → Except StoreError Unit × σ
  execute : Statement → σ → Except StoreError Outcome × σ
  query : Statement → σ → Except StoreError (Cursor σ) × σ
  release : String → σ → σ

namespace Reading

/-- Read on from a state until the rows end or something fails. -/
def runAll {α σ : Type} (step : α → Row → Except StoreError α) :
    α → Cursor σ → Except StoreError α × σ
  | a, .stop none state => (.ok a, state)
  | _, .stop (some e) state => (.error e, state)
  | a, .row row state rest =>
    match step a row with
    | .ok a => runAll step a rest
    | .error e => (.error e, state)

def run {α σ : Type} : Reading α → Cursor σ → Except StoreError α × σ
  | all start step, cursor => runAll step start cursor
  | first read, .row row state _ => (read row, state)
  | first _, .stop none state => (.error .noRow, state)
  | first _, .stop (some e) state => (.error e, state)

end Reading

namespace Use

/-- Run a statement that is prepared. -/
def run {α σ : Type} (d : Driver σ) (s : Statement) : Use α → σ → Except StoreError α × σ
  | execute result, state =>
    let (outcome, state) := d.execute s state
    (outcome.map result, state)
  | query reading, state =>
    match d.query s state with
    | (.error e, state) => (.error e, state)
    | (.ok cursor, _) => reading.run cursor

end Use

/-- A store's side of the conversation: the driver's state and the log of statements. -/
structure Session (σ : Type) where
  driver : σ
  log : StatementLog

namespace Plan

/-- Carry out a plan. A statement is logged before it is prepared, and released in the end if it
was prepared. -/
def perform {α σ : Type} (d : Driver σ) (p : Plan α) (session : Session σ) :
    Except StoreError α × Session σ :=
  match p with
  | answer result => (result, session)
  | run s use =>
    let log := session.log.add s.query
    match d.prepare s.query session.driver with
    | (.error e, state) => (.error e, ⟨state, log⟩)
    | (.ok (), state) =>
      let (result, state) := use.run d s state
      (result, ⟨d.release s.query state, log⟩)

end Plan
end RecordStore
