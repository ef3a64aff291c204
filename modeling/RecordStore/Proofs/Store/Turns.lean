import RecordStore.Proofs.Store.Exchanges
import RecordStore.Proofs.Store.Shapes

/-!
Calls of a store in turn, over a driver that may fail whenever it is asked. In every turn one
statement is prepared at most, it is given back before the turn is over, and what goes wrong is all
that the caller gets.
-/
namespace RecordStore

variable {t : Table} {α β σ : Type}

/-! ### Rows that are read one by one -/

namespace Reading

/-- Rows are read as they would be read on their own, and gathered. -/
theorem foldlM_map (gather : α → β → α) (read : Row → Except StoreError β) (rows : List Row)
    (a : α) : rows.foldlM (fun a row => (read row).map (gather a)) a =
      (rows.mapM read).map fun bs => bs.foldl gather a := by
  induction rows generalizing a with
  | nil => rfl
  | cons row rows ih =>
    rw [List.foldlM_cons, List.mapM_cons]
    cases read row with
    | error e => rfl
    | ok b =>
      refine (ih (gather a b)).trans ?_
      cases rows.mapM read <;> rfl

theorem foldl_last (as : List α) (a : α) : as.foldl (fun _ b => b) a = as.getLastD a := by
  induction as generalizing a with
  | nil => rfl
  | cons b bs ih => exact (ih b).trans List.getLastD_cons.symm

theorem list_isUniform (read : Row → Except StoreError α) : (list read).IsUniform := fun a b row => by
  rw [failure?_map, failure?_map]

theorem lastNumber_isUniform : lastNumber.IsUniform := fun _ _ _ => rfl

variable {answers : List RowAnswer} {xs : List Exchange}

theorem list_of_ok {read : Row → Except StoreError α} {as : List α}
    (h : (list read).Ends answers (.ok as)) :
    .ok none ∈ answers ∧ (Exchange.rowsOf answers).mapM read = .ok as := by
  obtain ⟨hm, hf⟩ := AllRead.of_ok h
  rw [foldlM_map] at hf
  refine ⟨hm, ?_⟩
  generalize List.mapM read _ = result at hf ⊢
  cases result with
  | error e => cases hf
  | ok bs =>
    obtain rfl : bs.foldl (fun before b => before ++ [b]) [] = as := Except.ok.inj hf
    rw [List.foldl_append_eq_append, List.nil_append, ← List.flatMap_def, List.flatMap_singleton']

theorem lastNumber_of_ok {n : Int} (h : lastNumber.Ends answers (.ok n)) :
    .ok none ∈ answers ∧
      ∃ ns, (Exchange.rowsOf answers).mapM Row.number = .ok ns ∧ n = ns.getLastD 0 := by
  obtain ⟨hm, hf⟩ := AllRead.of_ok h
  have hs : (fun (_ : Int) (row : Row) => row.number) =
      fun a row => row.number.map ((fun _ n => n) a) := by
    funext a row
    exact (congrFun Except.map_id row.number).symm
  rw [hs, foldlM_map] at hf
  refine ⟨hm, ?_⟩
  generalize List.mapM Row.number _ = result at hf ⊢
  cases result with
  | error e => cases hf
  | ok ns =>
    refine ⟨ns, rfl, (Except.ok.inj hf).symm.trans ?_⟩
    exact foldl_last ns 0

end Reading

/-! ### Requests as plans -/

/-- Whether a key is the last that has been made for some records. Without records there is none. -/
def Table.GivesKey (t : Table) (es : List t.Entity) (key : Int) (xs : List Exchange) : Prop :=
  if es.isEmpty then xs = [] ∧ key = 0
  else if t.record.dialect.returnsKeys then
    .nextRow (.ok none) ∈ xs ∧
      ∃ keys, (xs.filterMap Exchange.row?).mapM Row.number = .ok keys ∧ key = keys.getLastD 0
  else ∃ s outcome, .execute s (.ok outcome) ∈ xs ∧ key = outcome.lastInsertId

theorem Table.givesKey_of_ends {es : List t.Entity} {xs : List Exchange} {key : Int}
    (h : (t.create es).Ends xs (.ok key)) : t.GivesKey es key xs := by
  unfold create at h
  unfold GivesKey
  by_cases he : es.isEmpty
  · rw [if_pos he] at h ⊢
    cases h
    exact ⟨rfl, rfl⟩
  · rw [if_neg he] at h ⊢
    by_cases hk : t.record.dialect.returnsKeys
    · rw [if_pos hk] at h ⊢
      obtain ⟨answers, ha, hm, hr⟩ := h.read
      obtain ⟨hn, hv⟩ := Reading.lastNumber_of_ok ha
      exact ⟨hm _ hn, hr ▸ hv⟩
    · rw [if_neg hk] at h ⊢
      obtain ⟨outcome, hm, hv⟩ := h.executed
      exact ⟨_, outcome, hm, hv⟩

namespace Request

/-- What a method of the store gives. -/
def Value : Request t → Type
  | create _ => Int
  | write _ _ _ _ => Int
  | delete _ => Int
  | find _ => List t.Entity
  | count _ => Int
  | select c _ => List (t.Cell c.name)

def plan : (q : Request t) → Plan q.Value
  | create es => t.create es
  | write a c value b => t.write a c value b
  | delete b => t.delete b
  | find b => t.find b
  | count b => t.count b
  | select c b => t.select c b

theorem statement?_plan (q : Request t) : q.plan.statement? = q.statement? := by
  cases q <;> rfl

theorem plan_isUniform (q : Request t) : q.plan.IsUniform := by
  cases q with
  | create es =>
    unfold plan Table.create
    dsimp only
    split
    · trivial
    · split
      · exact Reading.lastNumber_isUniform
      · trivial
  | write => trivial
  | delete b =>
    unfold plan Table.delete
    dsimp only
    split <;> trivial
  | find b => exact Reading.list_isUniform _
  | count b => trivial
  | select c b => exact Reading.list_isUniform _

/-- Whether all is there that a request asks for: the driver has said that there are no more rows,
and each of its rows is read, or the statement has been executed. -/
def IsWhole : (q : Request t) → q.Value → List Exchange → Prop
  | create es, key, xs => t.GivesKey es key xs
  | write _ _ _ _, n, xs => ∃ s outcome, .execute s (.ok outcome) ∈ xs ∧ n = outcome.rowsAffected
  | delete _, n, xs => ∃ s outcome, .execute s (.ok outcome) ∈ xs ∧ n = outcome.rowsAffected
  | find _, entities, xs => .nextRow (.ok none) ∈ xs ∧
      (xs.filterMap Exchange.row?).mapM t.readEntity = .ok entities
  | count _, n, xs => ∃ row, xs.filterMap Exchange.row? = [row] ∧ row.number = .ok n
  | select c _, cells, xs => .nextRow (.ok none) ∈ xs ∧
      (xs.filterMap Exchange.row?).mapM (fun row => row.get (t.codec c.name).read 0) = .ok cells

/-- Nothing but the whole is given. -/
theorem isWhole_of_ends {q : Request t} {xs : List Exchange} {v : q.Value}
    (h : q.plan.Ends xs (.ok v)) : q.IsWhole v xs := by
  cases q with
  | create es => exact Table.givesKey_of_ends h
  | write a c value b =>
    obtain ⟨outcome, hm, hv⟩ := Plan.Ends.executed h
    exact ⟨_, outcome, hm, hv⟩
  | delete b =>
    change (t.delete b).Ends xs (.ok v) at h
    unfold Table.delete at h
    split at h
    · cases h
    · obtain ⟨outcome, hm, hv⟩ := h.executed
      exact ⟨_, outcome, hm, hv⟩
  | find b =>
    obtain ⟨answers, he, hm, hr⟩ := Plan.Ends.read h
    obtain ⟨hn, hv⟩ := Reading.list_of_ok he
    exact ⟨hm _ hn, hr ▸ hv⟩
  | count b =>
    obtain ⟨answers, he, hm, hr⟩ := Plan.Ends.read h
    generalize hv : Except.ok v = result at he
    cases he with
    | given row => exact ⟨row, hr, hv.symm⟩
    | failed => cases hv
    | lacking => cases hv
  | select c b =>
    obtain ⟨answers, he, hm, hr⟩ := Plan.Ends.read h
    obtain ⟨hn, hv⟩ := Reading.list_of_ok he
    exact ⟨hm _ hn, hr ▸ hv⟩

end Request

/-! ### Turns -/

/-- A request with what has come of it, and what has passed meanwhile. -/
structure Turn (t : Table) where
  request : Request t
  result : Except StoreError request.Value
  exchanges : List Exchange

namespace Turn

/-- The statements that were to be prepared. -/
def asked (turn : Turn t) : List String := turn.exchanges.filterMap Exchange.asked?

/-- The statements that have been prepared. -/
def prepared (turn : Turn t) : List String := turn.exchanges.filterMap Exchange.prepared?

def released (turn : Turn t) : List String := turn.exchanges.filterMap Exchange.released?

/-- How every turn goes, whatever the driver does. -/
structure Settled (turn : Turn t) : Prop where
  /-- A driver is asked to prepare the statement of the request, once, and no other. -/
  asked : turn.asked = turn.request.text?.toList
  /-- It is prepared, or it is not. -/
  prepared : turn.prepared.Sublist turn.request.text?.toList
  /-- What has been prepared is executed or queried, once. -/
  run : (turn.exchanges.filterMap Exchange.run?).map Statement.query = turn.prepared
  /-- What has been prepared is given back, -/
  released : turn.released = turn.prepared
  /-- when everything else is over. -/
  released_last : turn.exchanges.Pairwise fun x _ => x.released? = none
  /-- What goes wrong is the result as it is, and nothing is tried after it. -/
  stops : Stops turn.request.plan.error? turn.exchanges turn.result
  /-- There is no other result than the whole. -/
  whole : ∀ v, turn.result = .ok v → turn.request.IsWhole v turn.exchanges

theorem settled_of_ends {q : Request t} {xs : List Exchange} {result : Except StoreError q.Value}
    (h : q.plan.Ends xs result) : Settled ⟨q, result, xs⟩ where
  asked := by rw [asked, h.asked_eq, q.statement?_plan, Request.text?]
  prepared := by
    rw [Request.text?, ← q.statement?_plan, ← h.asked_eq]
    exact h.prepared_sublist
  run := h.run_query
  released := h.released_eq
  released_last := h.released_last
  stops := h.stops q.plan_isUniform
  whole v hv := Request.isWhole_of_ends (hv ▸ h)

end Turn

namespace Session

/-- A request in its turn, over a driver that notes what passes. -/
def turn (d : Driver σ) (session : Session σ) (q : Request t) : Turn t × Session σ :=
  let done := q.plan.perform d.noted ⟨(session.driver, []), session.log⟩
  (⟨q, done.1, done.2.driver.2⟩, ⟨done.2.driver.1, done.2.log⟩)

def turns (d : Driver σ) (session : Session σ) : List (Request t) → List (Turn t) × Session σ
  | [] => ([], session)
  | q :: qs =>
    let done := session.turn d q
    let rest := done.2.turns d qs
    (done.1 :: rest.1, rest.2)

/-- Requests one after the other, and what comes of them. -/
def results (d : Driver σ) (session : Session σ) :
    List (Request t) → List ((q : Request t) × Except StoreError q.Value) × Session σ
  | [] => ([], session)
  | q :: qs =>
    let done := q.plan.perform d session
    let rest := done.2.results d qs
    (⟨q, done.1⟩ :: rest.1, rest.2)

theorem turn_ends (d : Driver σ) (session : Session σ) (q : Request t) :
    ∃ xs, q.plan.Ends xs (q.plan.perform d session).1 ∧ session.turn d q =
      (⟨q, (q.plan.perform d session).1, xs⟩, (q.plan.perform d session).2) := by
  obtain ⟨xs, he, hn⟩ := q.plan.perform_noted d session.driver session.log
  refine ⟨xs, he, ?_⟩
  rw [turn, hn]

theorem turns_results (d : Driver σ) (session : Session σ) (qs : List (Request t)) :
    ((session.turns d qs).1.map fun turn => ⟨turn.request, turn.result⟩, (session.turns d qs).2) =
      session.results d qs := by
  induction qs generalizing session with
  | nil => rfl
  | cons q qs ih =>
    obtain ⟨xs, -, ht⟩ := session.turn_ends d q
    rw [turns, results, ← ih, ht]
    rfl

theorem settled_of_mem_turns (d : Driver σ) (session : Session σ) (qs : List (Request t)) :
    ∀ turn ∈ (session.turns d qs).1, turn.Settled := by
  induction qs generalizing session with
  | nil => exact List.forall_mem_nil _
  | cons q qs ih =>
    obtain ⟨xs, he, ht⟩ := session.turn_ends d q
    rw [turns, ht, List.forall_mem_cons]
    exact ⟨Turn.settled_of_ends he, ih _⟩

/-- Requests that are made one after the other, of any driver: what comes of them is what came of
them if nothing were noted, every turn is settled, and after each of them all that has been prepared
so far has been given back. -/
theorem turns_settled (d : Driver σ) (session : Session σ) (qs : List (Request t)) :
    let turns := (session.turns d qs).1
    (turns.map fun turn => ⟨turn.request, turn.result⟩, (session.turns d qs).2) =
      session.results d qs ∧
    (∀ turn ∈ turns, turn.Settled) ∧
    ∀ before, before <+: turns →
      before.flatMap Turn.prepared = before.flatMap Turn.released := by
  intro turns
  refine ⟨turns_results d session qs, settled_of_mem_turns d session qs, fun before hb => ?_⟩
  exact List.flatMap_congr fun turn ht =>
    (settled_of_mem_turns d session qs turn (hb.subset ht)).released.symm

end Session
end RecordStore
