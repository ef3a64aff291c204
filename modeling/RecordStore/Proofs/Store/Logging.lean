import RecordStore.Proofs.Store.Deletion
import RecordStore.Proofs.Store.Turns
import RecordStore.Proofs.Text.Writing

/-!
What is logged while a store is used, and that it makes no difference. A log holds the lines of the
statements that were to be prepared, cut off where its room ends; whatever log there is, drivers are
asked the same and callers get the same.
-/
namespace RecordStore

namespace StatementLog

/-- The octets of a line. -/
def line (query : String) : List UInt8 := Utf8.encode query ++ Utf8.encode "\n"

theorem add_keep (w : OctetWriter) (query : String) :
    (keep w).add query = keep (w.write (line query)).2 := by
  unfold add line
  dsimp only
  cases h : (w.write (Utf8.encode query)).1 with
  | true => rw [if_pos rfl, w.write_write]
  | false => rw [if_neg Bool.false_ne_true, w.write_of_not_fits _ _ h]

/-- Lines are written as if they were one text. -/
theorem foldl_add_keep (queries : List String) (w : OctetWriter) :
    queries.foldl add (keep w) = keep (w.write (queries.flatMap line)).2 := by
  induction queries generalizing w with
  | nil => rw [List.foldl_nil, List.flatMap_nil, w.write_nil]
  | cons q qs ih => rw [List.foldl_cons, add_keep, ih, w.write_write, List.flatMap_cons]

theorem foldl_add_discard (queries : List String) : queries.foldl add discard = discard := by
  induction queries with
  | nil => rfl
  | cons q qs ih => exact ih

end StatementLog

variable {t : Table} {α σ : Type}

/-- What a plan runs is logged, even if it cannot be prepared; the log makes no other difference. -/
theorem Plan.perform_logged (d : Driver σ) (p : Plan α) (state : σ) :
    ∃ result after, ∀ log, p.perform d ⟨state, log⟩ =
      (result, ⟨after, (p.statement?.map Statement.query).toList.foldl StatementLog.add log⟩) := by
  cases p with
  | answer result => exact ⟨result, state, fun log => rfl⟩
  | run s use =>
    cases h : d.prepare s.query state with
    | mk result after =>
      cases result with
      | error e => exact ⟨_, _, fun log => perform_of_failed use log h⟩
      | ok u => exact ⟨_, _, fun log => perform_of_prepared use log h⟩

/-- Whether a request is over before a driver is asked anything: there is nothing to insert, or
everything would be deleted. -/
def Request.EndsEarly : Request t → Prop
  | create es => es = []
  | delete b => ¬∃ o, b = some o ∧ ∃ s ∈ t.record.slots, o.IsSet s
  | _ => False

theorem Request.text?_eq_none {q : Request t} : q.text? = none ↔ q.EndsEarly := by
  rw [text?, Option.map_eq_none_iff]
  cases q with
  | create es =>
    unfold statement? Table.create EndsEarly
    cases es <;> simp [Plan.statement?]
  | delete b =>
    unfold statement? EndsEarly
    by_cases h : ∃ o, b = some o ∧ ∃ s ∈ t.record.slots, o.IsSet s
    · obtain ⟨o, rfl, ho⟩ := h
      simp [Table.delete_of_isSet ho, Plan.statement?, ho]
    · simp [Table.delete_of_not_isSet h, Plan.statement?, h]
  | write a c value b => simp [statement?, Table.write, Plan.statement?, EndsEarly]
  | find b => simp [statement?, Table.find, Plan.statement?, EndsEarly]
  | count b => simp [statement?, Table.count, Plan.statement?, EndsEarly]
  | select c b => simp [statement?, Table.select, Plan.statement?, EndsEarly]

namespace Session

theorem turn_logged (d : Driver σ) (state : σ) (q : Request t) :
    ∃ (turn : Turn t) (after : σ), turn.request = q ∧ turn.asked = q.text?.toList ∧
      ∀ log, (⟨state, log⟩ : Session σ).turn d q =
        (turn, ⟨after, turn.asked.foldl StatementLog.add log⟩) := by
  obtain ⟨result, after, hp⟩ := q.plan.perform_logged d.noted (state, [])
  obtain ⟨xs, he, ht⟩ := turn_ends d ⟨state, .discard⟩ q
  have hx (log : StatementLog) : (⟨state, log⟩ : Session σ).turn d q =
      (⟨q, result, after.2⟩, ⟨after.1, q.text?.toList.foldl StatementLog.add log⟩) := by
    rw [turn, hp, Request.text?, q.statement?_plan]
  have ha : (⟨q, result, after.2⟩ : Turn t).asked = q.text?.toList := by
    rw [hx] at ht
    rw [(Prod.mk.inj ht).1]
    exact (Turn.settled_of_ends he).asked
  exact ⟨_, _, rfl, ha, fun log => ha ▸ hx log⟩

theorem turns_logged (d : Driver σ) (state : σ) (qs : List (Request t)) :
    ∃ (turns : List (Turn t)) (after : σ), turns.map Turn.request = qs ∧
      (∀ turn ∈ turns, turn.asked = turn.request.text?.toList) ∧
      ∀ log, (⟨state, log⟩ : Session σ).turns d qs =
        (turns, ⟨after, (turns.flatMap Turn.asked).foldl StatementLog.add log⟩) := by
  induction qs generalizing state with
  | nil => exact ⟨[], state, rfl, List.forall_mem_nil _, fun log => rfl⟩
  | cons q qs ih =>
    obtain ⟨turn, next, hq, ha, ht⟩ := turn_logged d state q
    obtain ⟨turns, after, hqs, has, hts⟩ := ih next
    refine ⟨turn :: turns, after, by rw [List.map_cons, hq, hqs], ?_, fun log => ?_⟩
    · rw [List.forall_mem_cons, hq]
      exact ⟨ha, has⟩
    · rw [Session.turns, ht, hts, List.flatMap_cons, List.foldl_append]

/-- Requests one after the other, with a log or without: the same passes, the same comes of them,
and drivers are left the same. A log has got a line for every statement that was to be prepared,
and all requests have one but those that end early; of its lines it holds what fits. -/
theorem turns_same_for_logs (d : Driver σ) (state : σ) (qs : List (Request t)) :
    (∃ (turns : List (Turn t)) (after : σ), turns.map Turn.request = qs ∧
      (∀ turn ∈ turns, turn.asked.length ≤ 1 ∧ (turn.asked = [] ↔ turn.request.EndsEarly)) ∧
      ∀ log, (⟨state, log⟩ : Session σ).turns d qs =
        (turns, ⟨after, (turns.flatMap Turn.asked).foldl StatementLog.add log⟩)) ∧
    ∀ queries : List String, queries.foldl StatementLog.add .discard = .discard ∧
      ∀ w : OctetWriter, ∃ full, queries.foldl StatementLog.add (.keep w) = .keep full ∧
        full.written = w.written ++ w.taken (queries.flatMap StatementLog.line) := by
  obtain ⟨turns, after, hqs, has, hts⟩ := turns_logged d state qs
  refine ⟨⟨turns, after, hqs, fun turn ht => ?_, hts⟩, fun queries => ?_⟩
  · rw [has turn ht, ← Request.text?_eq_none]
    cases turn.request.text? <;> simp
  · exact ⟨StatementLog.foldl_add_discard queries, fun w =>
      ⟨_, StatementLog.foldl_add_keep queries w, w.written_write _⟩⟩

end Session
end RecordStore
