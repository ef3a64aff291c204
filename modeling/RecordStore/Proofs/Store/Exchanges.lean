import RecordStore.Proofs.Store.Conversation

/-!
What passes between plans and drivers: calls with their answers, and rows as they are asked for,
one by one. A plan has one statement prepared, runs it once, and gives it back whatever comes of it.
-/
namespace RecordStore

variable {α σ : Type}

/-- What a driver answers when the next row is asked for: no row is the end of the rows. -/
abbrev RowAnswer : Type := Except StoreError (Option Row)

/-- A call of a driver with its answer. -/
inductive Exchange where
  | prepare (query : String) (answer : Except StoreError Unit)
  | execute (s : Statement) (answer : Except StoreError Outcome)
  | query (s : Statement) (answer : Except StoreError Unit)
  | nextRow (answer : RowAnswer)
  | release (query : String)

namespace Exchange

/-- The statement that is to be prepared, whether that succeeds or not. -/
def asked? : Exchange → Option String
  | prepare q _ => some q
  | _ => none

def prepared? : Exchange → Option String
  | prepare q (.ok _) => some q
  | _ => none

/-- The statement that is run, whether that succeeds or not. -/
def run? : Exchange → Option Statement
  | execute s _ => some s
  | query s _ => some s
  | _ => none

def released? : Exchange → Option String
  | release q => some q
  | _ => none

def row? : Exchange → Option Row
  | nextRow (.ok row) => row
  | _ => none

/-- The rows among what a driver answers when rows are asked for. -/
def rowsOf (answers : List RowAnswer) : List Row := (answers.map nextRow).filterMap row?

end Exchange

/-- A cursor that notes what it answers, after what has been noted before. -/
def Cursor.noted : List Exchange → Cursor σ → Cursor (σ × List Exchange)
  | notes, row r state rest =>
    let notes := notes ++ [.nextRow (.ok (some r))]
    row r (state, notes) (rest.noted notes)
  | notes, stop none state => stop none (state, notes ++ [.nextRow (.ok none)])
  | notes, stop (some e) state => stop (some e) (state, notes ++ [.nextRow (.error e)])

/-- A driver that notes what it is asked and what it answers. -/
def Driver.noted (d : Driver σ) : Driver (σ × List Exchange) where
  prepare q s :=
    let answer := d.prepare q s.1
    (answer.1, answer.2, s.2 ++ [.prepare q answer.1])
  execute q s :=
    let answer := d.execute q s.1
    (answer.1, answer.2, s.2 ++ [.execute q answer.1])
  query q s :=
    let answer := d.query q s.1
    let notes := s.2 ++ [.query q (answer.1.map fun _ => ())]
    (answer.1.map (Cursor.noted notes), answer.2, notes)
  release q s := (d.release q s.1, s.2 ++ [.release q])

/-! ### How plans end -/

/-- Rows are asked for until there are no more or something fails. -/
inductive AllRead (step : α → Row → Except StoreError α) :
    α → List RowAnswer → Except StoreError α → Prop
  | ended (a : α) : AllRead step a [.ok none] (.ok a)
  | failed (a : α) (e : StoreError) : AllRead step a [.error e] (.error e)
  | refused {a : α} {row : Row} {e : StoreError} (h : step a row = .error e) :
      AllRead step a [.ok (some row)] (.error e)
  | more {a b : α} {row : Row} {answers : List RowAnswer} {result : Except StoreError α}
      (h : step a row = .ok b) (rest : AllRead step b answers result) :
      AllRead step a (.ok (some row) :: answers) result

/-- One row is asked for. -/
inductive FirstRead (read : Row → Except StoreError α) :
    List RowAnswer → Except StoreError α → Prop
  | given (row : Row) : FirstRead read [.ok (some row)] (read row)
  | failed (e : StoreError) : FirstRead read [.error e] (.error e)
  | lacking : FirstRead read [.ok none] (.error .noRow)

/-- What a driver may answer while rows are read, and what comes of it. -/
def Reading.Ends : Reading α → List RowAnswer → Except StoreError α → Prop
  | all start step => AllRead step start
  | first read => FirstRead read

/-- What may pass while a statement is run, and what comes of it. -/
inductive Use.Ends (s : Statement) : Use α → List Exchange → Except StoreError α → Prop
  | executed (result : Outcome → α) (answer : Except StoreError Outcome) :
      Use.Ends s (.execute result) [.execute s answer] (answer.map result)
  | unanswered (reading : Reading α) (e : StoreError) :
      Use.Ends s (.query reading) [.query s (.error e)] (.error e)
  | read {reading : Reading α} {answers : List RowAnswer} {result : Except StoreError α}
      (h : reading.Ends answers result) :
      Use.Ends s (.query reading) (.query s (.ok ()) :: answers.map .nextRow) result

/-- What may pass while a plan is carried out, and what comes of it. -/
inductive Plan.Ends : Plan α → List Exchange → Except StoreError α → Prop
  | answered (result : Except StoreError α) : Plan.Ends (.answer result) [] result
  | unprepared (s : Statement) (use : Use α) (e : StoreError) :
      Plan.Ends (.run s use) [.prepare s.query (.error e)] (.error e)
  | ran {s : Statement} {use : Use α} {xs : List Exchange} {result : Except StoreError α}
      (h : use.Ends s xs result) :
      Plan.Ends (.run s use) (.prepare s.query (.ok ()) :: (xs ++ [.release s.query])) result

/-! ### Calls of a run -/

namespace Use

variable {s : Statement} {use : Use α} {xs : List Exchange} {result : Except StoreError α}

theorem Ends.asked_eq_nil (h : use.Ends s xs result) : xs.filterMap Exchange.asked? = [] := by
  cases h <;> simp [Exchange.asked?]

theorem Ends.prepared_eq_nil (h : use.Ends s xs result) :
    xs.filterMap Exchange.prepared? = [] := by
  cases h <;> simp [Exchange.prepared?]

/-- A statement that is prepared is run once. -/
theorem Ends.run_eq (h : use.Ends s xs result) : xs.filterMap Exchange.run? = [s] := by
  cases h <;> simp [Exchange.run?]

theorem Ends.released_eq_none (h : use.Ends s xs result) : ∀ x ∈ xs, x.released? = none := by
  cases h <;> simp [Exchange.released?]

end Use

namespace Plan

variable {p : Plan α} {xs : List Exchange} {result : Except StoreError α}

/-- What a plan runs is prepared once, successfully or not, and nothing else is. -/
theorem Ends.asked_eq (h : p.Ends xs result) :
    xs.filterMap Exchange.asked? = (p.statement?.map Statement.query).toList := by
  cases h with
  | answered => rfl
  | unprepared => rfl
  | ran h => simp [Exchange.asked?, h.asked_eq_nil, statement?]

theorem Ends.prepared_sublist (h : p.Ends xs result) :
    (xs.filterMap Exchange.prepared?).Sublist (xs.filterMap Exchange.asked?) := by
  cases h with
  | answered => exact .refl _
  | unprepared => exact List.nil_sublist _
  | ran h =>
    simp [List.filterMap_cons, Exchange.prepared?, Exchange.asked?, h.prepared_eq_nil,
      h.asked_eq_nil]

theorem Ends.released_eq (h : p.Ends xs result) :
    xs.filterMap Exchange.released? = xs.filterMap Exchange.prepared? := by
  cases h with
  | answered => rfl
  | unprepared => rfl
  | ran h =>
    have hn := List.filterMap_eq_nil_iff.mpr h.released_eq_none
    simp [List.filterMap_cons, Exchange.released?, Exchange.prepared?, h.prepared_eq_nil, hn]

/-- What has been prepared is run once, and nothing else is run. -/
theorem Ends.run_query (h : p.Ends xs result) :
    (xs.filterMap Exchange.run?).map Statement.query = xs.filterMap Exchange.prepared? := by
  cases h with
  | answered => rfl
  | unprepared => rfl
  | ran h =>
    simp [List.filterMap_cons, Exchange.run?, Exchange.prepared?, h.run_eq, h.prepared_eq_nil]

/-- Nothing follows a release. -/
theorem Ends.released_last (h : p.Ends xs result) :
    xs.Pairwise fun x _ => x.released? = none := by
  cases h with
  | answered => exact .nil
  | unprepared => simp
  | ran h =>
    rw [List.pairwise_cons, List.pairwise_append]
    exact ⟨fun y _ => rfl,
      List.pairwise_of_forall_mem_list fun x hx y _ => h.released_eq_none x hx,
      List.pairwise_singleton .., fun x hx y _ => h.released_eq_none x hx⟩

end Plan

/-! ### What goes wrong -/

/-- What goes wrong with an answer while rows are read: the driver fails, or its row cannot be read,
or the one row that there has to be is lacking. -/
def Reading.error? : Reading α → RowAnswer → Option StoreError
  | _, .error e => some e
  | all start step, .ok (some row) => failure? (step start row)
  | all _ _, .ok none => none
  | first read, .ok (some row) => failure? (read row)
  | first _, .ok none => some .noRow

/-- What goes wrong with an answer while a plan is carried out. -/
def Plan.error? : Plan α → Exchange → Option StoreError
  | _, .prepare _ result => failure? result
  | _, .execute _ result => failure? result
  | _, .query _ result => failure? result
  | run _ (.query reading), .nextRow row => reading.error? row
  | _, .nextRow row => failure? row
  | _, .release _ => none

/-- Whether a row can be read does not depend on the rows before it. -/
def Reading.IsUniform : Reading α → Prop
  | all _ step => ∀ a b row, failure? (step a row) = failure? (step b row)
  | first _ => True

def Plan.IsUniform : Plan α → Prop
  | run _ (.query reading) => reading.IsUniform
  | _ => True

theorem failure?_eq_some {result : Except StoreError α} {e : StoreError} :
    failure? result = some e ↔ result = .error e := by
  cases result <;> simp [failure?]

@[simp]
theorem failure?_map {β : Type} (f : α → β) (result : Except StoreError α) :
    failure? (result.map f) = failure? result := by
  cases result <;> rfl

namespace AllRead

variable {step : α → Row → Except StoreError α} {a : α} {answers : List RowAnswer}
  {result : Except StoreError α}

/-- What goes wrong is the result, and no row is asked for after it. -/
theorem ends (h : AllRead step a answers result) (start : α)
    (hu : (Reading.all start step).IsUniform) :
    (∀ answer ∈ answers, ∀ e, (Reading.all start step).error? answer = some e → result = .error e) ∧
      answers.Pairwise fun answer _ => (Reading.all start step).error? answer = none := by
  induction h with
  | ended a => simp [Reading.error?]
  | failed a e => simp [Reading.error?]
  | @refused a row e hs =>
    have he : failure? (step start row) = some e := by
      rw [hu start a, hs]
      rfl
    simp [Reading.error?, he]
  | @more a b row answers result hs rest ih =>
    have he : failure? (step start row) = none := by
      rw [hu start a, hs]
      rfl
    simpa [Reading.error?, he] using ih

/-- If rows are read at all, all of them are. -/
theorem of_ok {v : α} (h : AllRead step a answers (.ok v)) :
    .ok none ∈ answers ∧ (Exchange.rowsOf answers).foldlM step a = .ok v := by
  generalize hr : Except.ok v = result at h
  induction h with
  | ended a =>
    cases hr
    exact ⟨List.mem_cons_self, rfl⟩
  | failed => cases hr
  | refused => cases hr
  | more hs rest ih =>
    obtain ⟨hm, hf⟩ := ih hr
    refine ⟨List.mem_cons_of_mem _ hm, ?_⟩
    change (_ :: Exchange.rowsOf _).foldlM step _ = _
    rw [List.foldlM_cons, hs]
    exact hf

end AllRead

theorem Reading.Ends.ends {reading : Reading α} {answers : List RowAnswer}
    {result : Except StoreError α} (h : reading.Ends answers result) (hu : reading.IsUniform) :
    (∀ answer ∈ answers, ∀ e, reading.error? answer = some e → result = .error e) ∧
      answers.Pairwise fun answer _ => reading.error? answer = none := by
  cases reading with
  | all start step => exact AllRead.ends h start hu
  | first read => cases h <;> simp [error?, failure?_eq_some]

/-- What goes wrong is the result, and nothing but releases follows it. -/
structure Stops (error? : Exchange → Option StoreError) (xs : List Exchange)
    (result : Except StoreError α) : Prop where
  failed : ∀ x ∈ xs, ∀ e, error? x = some e → result = .error e
  final : xs.Pairwise fun x y => error? x ≠ none → y.released? ≠ none

namespace Stops

variable {error? : Exchange → Option StoreError} {x : Exchange} {xs : List Exchange}
  {result : Except StoreError α}

theorem nil : Stops error? [] result := ⟨nofun, .nil⟩

theorem single (h : ∀ e, error? x = some e → result = .error e) : Stops error? [x] result :=
  ⟨by simpa using h, List.pairwise_singleton ..⟩

theorem cons (hx : error? x = none) (h : Stops error? xs result) : Stops error? (x :: xs) result where
  failed := by
    rw [List.forall_mem_cons]
    exact ⟨fun e he => by simp [hx] at he, h.failed⟩
  final := List.pairwise_cons.mpr ⟨fun y _ hn => absurd hx hn, h.final⟩

theorem release (q : String) (hq : error? (.release q) = none) (h : Stops error? xs result) :
    Stops error? (xs ++ [.release q]) result where
  failed := by
    intro x hx e he
    rcases List.mem_append.mp hx with hx | hx
    · exact h.failed x hx e he
    · rw [List.mem_singleton.mp hx, hq] at he
      cases he
  final := by
    rw [List.pairwise_append]
    exact ⟨h.final, List.pairwise_singleton .., fun x _ y hy _ => by
      rw [List.mem_singleton.mp hy]
      exact Option.some_ne_none q⟩

end Stops

theorem Use.Ends.stops {s : Statement} {use : Use α} {xs : List Exchange}
    {result : Except StoreError α} (h : use.Ends s xs result) (hu : (Plan.run s use).IsUniform) :
    Stops (Plan.run s use).error? xs result := by
  cases h with
  | executed result answer =>
    refine .single fun e he => ?_
    rw [← failure?_eq_some, failure?_map]
    exact he
  | unanswered reading e =>
    refine .single fun o ho => ?_
    rw [← failure?_eq_some]
    exact ho
  | @read reading answers result h =>
    obtain ⟨hf, hp⟩ := h.ends hu
    refine .cons rfl ⟨?_, ?_⟩
    · rw [List.forall_mem_map]
      exact hf
    · rw [List.pairwise_map]
      exact hp.imp fun hn hs => absurd hn hs

/-- Nothing is tried again: what goes wrong is the result of a plan as it is, and a driver is asked
nothing after it but to release. -/
theorem Plan.Ends.stops {p : Plan α} {xs : List Exchange} {result : Except StoreError α}
    (h : p.Ends xs result) (hu : p.IsUniform) : Stops p.error? xs result := by
  cases h with
  | answered => exact .nil
  | unprepared s use e =>
    refine .single fun o ho => ?_
    rw [← failure?_eq_some]
    exact ho
  | @ran s use xs result h => exact .cons rfl ((h.stops hu).release s.query rfl)

/-! ### What is given -/

namespace Plan

variable {s : Statement} {xs : List Exchange} {a : α}

theorem Ends.executed {result : Outcome → α} (h : (run s (.execute result)).Ends xs (.ok a)) :
    ∃ outcome, .execute s (.ok outcome) ∈ xs ∧ a = result outcome := by
  generalize hr : Except.ok a = r at h
  cases h with
  | unprepared => cases hr
  | ran h =>
    cases h with
    | executed result answer =>
      cases answer with
      | error e => cases hr
      | ok outcome => exact ⟨outcome, by simp, Except.ok.inj hr⟩

theorem Ends.read {reading : Reading α} (h : (run s (.query reading)).Ends xs (.ok a)) :
    ∃ answers, reading.Ends answers (.ok a) ∧ (∀ answer ∈ answers, .nextRow answer ∈ xs) ∧
      xs.filterMap Exchange.row? = Exchange.rowsOf answers := by
  generalize hr : Except.ok a = r at h
  cases h with
  | unprepared => cases hr
  | ran h =>
    cases h with
    | unanswered => cases hr
    | @read _ answers _ h =>
      refine ⟨answers, hr ▸ h, fun answer ha => by simp [ha], ?_⟩
      simp [List.filterMap_cons, Exchange.row?, Exchange.rowsOf]

end Plan

/-! ### Noted runs -/

theorem Reading.runAll_noted (step : α → Row → Except StoreError α) (a : α) (cursor : Cursor σ) :
    ∃ answers, AllRead step a answers (runAll step a cursor).1 ∧
      ∀ notes, runAll step a (cursor.noted notes) =
        ((runAll step a cursor).1, (runAll step a cursor).2, notes ++ answers.map .nextRow) := by
  induction cursor generalizing a with
  | stop failure state =>
    cases failure with
    | none => exact ⟨_, .ended a, fun notes => rfl⟩
    | some e => exact ⟨_, .failed a e, fun notes => rfl⟩
  | row r state rest ih =>
    cases hs : step a r with
    | error e =>
      refine ⟨[.ok (some r)], ?_, fun notes => ?_⟩
      · rw [runAll, hs]
        exact .refused hs
      · rw [Cursor.noted, runAll, runAll, hs]
        rfl
    | ok b =>
      obtain ⟨answers, ha, hn⟩ := ih b
      refine ⟨.ok (some r) :: answers, ?_, fun notes => ?_⟩
      · rw [runAll, hs]
        exact .more hs ha
      · have hr := hn (notes ++ [.nextRow (.ok (some r))])
        rw [List.append_assoc] at hr
        rw [Cursor.noted, runAll, runAll, hs]
        exact hr

theorem Reading.run_noted (reading : Reading α) (cursor : Cursor σ) :
    ∃ answers, reading.Ends answers (reading.run cursor).1 ∧
      ∀ notes, reading.run (cursor.noted notes) =
        ((reading.run cursor).1, (reading.run cursor).2, notes ++ answers.map .nextRow) := by
  cases reading with
  | all start step => exact runAll_noted step start cursor
  | first read =>
    cases cursor with
    | row r state rest => exact ⟨_, .given r, fun notes => rfl⟩
    | stop failure state =>
      cases failure with
      | none => exact ⟨_, .lacking, fun notes => rfl⟩
      | some e => exact ⟨_, .failed e, fun notes => rfl⟩

theorem Use.run_noted (d : Driver σ) (s : Statement) (use : Use α) (state : σ) :
    ∃ xs, use.Ends s xs (use.run d s state).1 ∧
      ∀ notes, use.run d.noted s (state, notes) =
        ((use.run d s state).1, (use.run d s state).2, notes ++ xs) := by
  cases use with
  | execute result => exact ⟨_, .executed result (d.execute s state).1, fun notes => rfl⟩
  | query reading =>
    have hq (notes : List Exchange) : d.noted.query s (state, notes) =
        ((d.query s state).1.map (Cursor.noted
            (notes ++ [.query s ((d.query s state).1.map fun _ => ())])),
          (d.query s state).2, notes ++ [.query s ((d.query s state).1.map fun _ => ())]) := rfl
    unfold run
    simp only [hq]
    obtain ⟨answer, after⟩ := d.query s state
    cases answer with
    | error e => exact ⟨_, .unanswered reading e, fun notes => rfl⟩
    | ok cursor =>
      obtain ⟨answers, he, hn⟩ := reading.run_noted cursor
      refine ⟨_, .read he, fun notes => ?_⟩
      have hr := hn (notes ++ [.query s (.ok ())])
      rw [List.append_assoc] at hr
      exact hr

namespace Plan

/-- Taking notes does not change what comes of a plan, and what is noted is an end of the plan. -/
theorem perform_noted (d : Driver σ) (p : Plan α) (before : σ) (log : StatementLog) :
    ∃ xs, p.Ends xs (p.perform d ⟨before, log⟩).1 ∧
      p.perform d.noted ⟨(before, []), log⟩ =
        ((p.perform d ⟨before, log⟩).1, ⟨((p.perform d ⟨before, log⟩).2.driver, xs),
          (p.perform d ⟨before, log⟩).2.log⟩) := by
  cases p with
  | answer result => exact ⟨[], .answered result, rfl⟩
  | run s use =>
    have hp : d.noted.prepare s.query (before, []) = ((d.prepare s.query before).1,
        (d.prepare s.query before).2, [.prepare s.query (d.prepare s.query before).1]) := rfl
    cases h : d.prepare s.query before with
    | mk result after =>
      rw [h] at hp
      cases result with
      | error e =>
        rw [perform_of_failed use log h, perform_of_failed use log hp]
        exact ⟨_, .unprepared s use e, rfl⟩
      | ok u =>
        obtain ⟨xs, he, hn⟩ := use.run_noted d s after
        rw [perform_of_prepared use log h, perform_of_prepared use log hp, hn]
        exact ⟨_, .ran he, rfl⟩

end Plan
end RecordStore
