import RecordStore.Proofs.Store.Requests
import RecordStore.Store.Driver

/-!
What plans ask of drivers. A driver that takes every call down answers as it would otherwise, so
what it has taken down in the end is what the plan asks of any driver.
-/
namespace RecordStore

variable {α σ τ : Type}

/-- What a driver is asked, in the order of its methods. -/
inductive DriverCall where
  | prepare (query : String)
  | execute (s : Statement)
  | query (s : Statement)
  | release (query : String)
  deriving DecidableEq, Repr

/-- The statement that a driver is asked about. -/
def DriverCall.text : DriverCall → String
  | prepare q => q
  | execute s => s.query
  | query s => s.query
  | release q => q

def Cursor.map (f : σ → τ) : Cursor σ → Cursor τ
  | row r state rest => row r (f state) (rest.map f)
  | stop failure state => stop failure (f state)

/-- A driver that takes down what it is asked. -/
def Driver.recorded (d : Driver σ) : Driver (σ × List DriverCall) where
  prepare q s :=
    let (result, state) := d.prepare q s.1
    (result, state, s.2 ++ [.prepare q])
  execute q s :=
    let (result, state) := d.execute q s.1
    (result, state, s.2 ++ [.execute q])
  query q s :=
    let calls := s.2 ++ [.query q]
    let (result, state) := d.query q s.1
    (result.map (Cursor.map (·, calls)), state, calls)
  release q s := (d.release q s.1, s.2 ++ [.release q])

/-- What a plan asks of a driver in a state, in order. -/
def Plan.calls (d : Driver σ) (p : Plan α) (state : σ) : List DriverCall :=
  (p.perform d.recorded ⟨(state, []), .discard⟩).2.driver.2

/-- How a prepared statement is run. -/
def Use.call (s : Statement) : Use α → DriverCall
  | execute _ => .execute s
  | query _ => .query s

/-! ### Recorded runs -/

theorem Reading.runAll_map (f : σ → τ) (step : α → Row → Except StoreError α) (a : α)
    (cursor : Cursor σ) : runAll step a (cursor.map f) =
      ((runAll step a cursor).1, f (runAll step a cursor).2) := by
  induction cursor generalizing a with
  | stop failure state => cases failure <;> rfl
  | row r state rest ih =>
    rw [Cursor.map, runAll, runAll]
    cases step a r with
    | ok b => exact ih b
    | error e => rfl

theorem Reading.run_map (f : σ → τ) (reading : Reading α) (cursor : Cursor σ) :
    reading.run (cursor.map f) = ((reading.run cursor).1, f (reading.run cursor).2) := by
  cases reading with
  | all start step => exact runAll_map f step start cursor
  | first read =>
    cases cursor with
    | row r state rest => rfl
    | stop failure state => cases failure <;> rfl

theorem Use.run_recorded (d : Driver σ) (s : Statement) (use : Use α) (state : σ)
    (before : List DriverCall) : use.run d.recorded s (state, before) =
      ((use.run d s state).1, (use.run d s state).2, before ++ [use.call s]) := by
  cases use with
  | execute result => rfl
  | query reading =>
    have hq : d.recorded.query s (state, before) =
        ((d.query s state).1.map (Cursor.map (·, before ++ [.query s])), (d.query s state).2,
          before ++ [.query s]) := rfl
    unfold run
    dsimp only
    rw [hq]
    obtain ⟨result, after⟩ := d.query s state
    cases result with
    | error e => rfl
    | ok cursor => exact reading.run_map _ cursor

namespace Plan

variable {d : Driver σ} {s : Statement} {before after : σ}

theorem perform_of_prepared (use : Use α) (log : StatementLog)
    (h : d.prepare s.query before = (.ok (), after)) :
    (run s use).perform d ⟨before, log⟩ = ((use.run d s after).1,
      ⟨d.release s.query (use.run d s after).2, log.add s.query⟩) := by
  unfold perform
  dsimp only
  rw [h]

theorem perform_of_failed (use : Use α) (log : StatementLog) {e : StoreError}
    (h : d.prepare s.query before = (.error e, after)) :
    (run s use).perform d ⟨before, log⟩ = (.error e, ⟨after, log.add s.query⟩) := by
  unfold perform
  dsimp only
  rw [h]

theorem recorded_prepare {result : Except StoreError Unit} {q : String} (calls : List DriverCall)
    (h : d.prepare q before = (result, after)) :
    d.recorded.prepare q (before, calls) = (result, after, calls ++ [.prepare q]) := by
  have hp : d.recorded.prepare q (before, calls) =
      ((d.prepare q before).1, (d.prepare q before).2, calls ++ [.prepare q]) := rfl
  rw [hp, h]

theorem calls_of_prepared (use : Use α) (h : d.prepare s.query before = (.ok (), after)) :
    (run s use).calls d before = [.prepare s.query, use.call s, .release s.query] := by
  rw [calls, perform_of_prepared use _ (recorded_prepare [] h), use.run_recorded]
  rfl

theorem calls_of_failed (use : Use α) {e : StoreError}
    (h : d.prepare s.query before = (.error e, after)) :
    (run s use).calls d before = [.prepare s.query] := by
  rw [calls, perform_of_failed use _ (recorded_prepare [] h)]
  rfl

/-- Taking calls down does not change what comes of a plan. -/
theorem perform_recorded (d : Driver σ) (p : Plan α) (before : σ) (log : StatementLog) :
    p.perform d.recorded ⟨(before, []), log⟩ =
      ((p.perform d ⟨before, log⟩).1, ⟨((p.perform d ⟨before, log⟩).2.driver, p.calls d before),
        (p.perform d ⟨before, log⟩).2.log⟩) := by
  cases p with
  | answer result => rfl
  | run s use =>
    cases h : d.prepare s.query before with
    | mk result after =>
      cases result with
      | error e =>
        rw [perform_of_failed use log h, calls_of_failed use h,
          perform_of_failed use log (recorded_prepare [] h)]
        rfl
      | ok u =>
        rw [perform_of_prepared use log h, calls_of_prepared use h,
          perform_of_prepared use log (recorded_prepare [] h), use.run_recorded]
        rfl

/-- A driver prepares a statement, and if it can it runs it and gets it back. -/
theorem calls_run (d : Driver σ) (before : σ) (s : Statement) (use : Use α) :
    (run s use).calls d before = [.prepare s.query] ∨
      (run s use).calls d before = [.prepare s.query, use.call s, .release s.query] := by
  cases h : d.prepare s.query before with
  | mk result after =>
    cases result with
    | error e => exact .inl (calls_of_failed use h)
    | ok u => exact .inr (calls_of_prepared use h)

/-- A driver is asked to prepare what the plan runs, and nothing else. -/
theorem prepare_mem_calls {p : Plan α} {q : String} :
    .prepare q ∈ p.calls d before ↔ ∃ s, p.statement? = some s ∧ s.query = q := by
  cases p with
  | answer result => simp [calls, perform, statement?]
  | run s use =>
    have hu : DriverCall.prepare q ≠ use.call s := by
      cases use <;> simp [Use.call]
    rcases calls_run d before s use with h | h
    · simp [h, statement?, eq_comm]
    · simp [h, statement?, hu, eq_comm]

/-- A driver is asked about no other statement than the one that the plan runs. -/
theorem text_of_mem_calls {p : Plan α} {call : DriverCall} (hc : call ∈ p.calls d before) :
    ∃ s, p.statement? = some s ∧ call.text = s.query := by
  cases p with
  | answer result => simp [calls, perform] at hc
  | run s use =>
    have hu : (use.call s).text = s.query := by cases use <;> rfl
    refine ⟨s, rfl, ?_⟩
    rcases calls_run d before s use with h | h
    · obtain rfl : call = .prepare s.query := by simpa [h] using hc
      rfl
    · obtain rfl | rfl | rfl : call = .prepare s.query ∨ call = use.call s ∨
          call = .release s.query := by simpa [h] using hc
      · rfl
      · exact hu
      · rfl

end Plan
end RecordStore
