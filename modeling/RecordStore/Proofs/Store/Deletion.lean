import RecordStore.Proofs.Store.Conversation
import RecordStore.Proofs.Store.Parameters
import RecordStore.Proofs.Store.Reads
import RecordStore.Store.ScriptedDriver

/-!
What deletes ask of drivers. A delete is refused unless its caller has set a slot, and what is
sent then has the conditions of the slots that are set. Refused deletes leave no trace.
-/
namespace RecordStore

/-- Whether a delete drops a row with these conditions; none if it is no delete. -/
def deletes (truth : Atom → Bool) : List Lexeme → Option Bool
  | .name "DELETE" :: .keyword .from :: table :: ls =>
    if table.name?.isSome then holds truth ls else none
  | _ => none

namespace Clause

variable {truth : Atom → Bool} {d : Dialect} {inclusive : Bool} {n : Nat}

theorem exists_of_mem_texts {cs : List Clause} {x : String} (h : x ∈ texts d inclusive n cs) :
    ∃ c ∈ cs, ∃ m, x = c.text d inclusive m := by
  induction cs generalizing n with
  | nil => cases h
  | cons c cs ih =>
    rcases List.mem_cons.mp h with rfl | h
    · exact ⟨c, List.mem_cons_self, n, rfl⟩
    · obtain ⟨o, ho, m, hx⟩ := ih h
      exact ⟨o, List.mem_cons_of_mem _ ho, m, hx⟩

theorem outcomes_eq_false {cs : List Clause} (h : ∀ c ∈ cs, ∀ m, c.holds truth inclusive m = false)
    (n : Nat) : ∀ v ∈ outcomes truth inclusive n cs, v = false := by
  induction cs generalizing n with
  | nil => nofun
  | cons c cs ih =>
    rw [outcomes, List.forall_mem_cons]
    exact ⟨h c List.mem_cons_self n, ih (fun o ho => h o (List.mem_cons_of_mem _ ho)) _⟩

end Clause

namespace Blueprint

variable {t : Table} {b : Blueprint t}

/-! ### Slots that are set -/

/-- Whether the caller asks for something in a slot. Of values and patterns there has to be one, of
the ends of a range there have to be two; where a value may be lacking, an empty list asks too. -/
def IsSet (b : Blueprint t) (s : Slot) : Prop :=
  let f := b.filter s.column.name
  match s.kind with
  | .exact => if s.column.category.isNullable then f.exact ≠ none else f.exact.getD [] ≠ []
  | .range => f.range.length = 2
  | .like => f.like ≠ []

theorem isSome_exactClause {c : Column} :
    (b.exactClause c).isSome = true ↔ b.IsSet ⟨c, .exact⟩ := by
  unfold exactClause IsSet
  dsimp only
  cases (b.filter c.name).exact with
  | none => simp
  | some vs =>
    cases vs with
    | nil => cases c.category.isNullable <;> simp
    | cons v vs =>
      dsimp only
      split <;> simp

theorem isSome_rangeClause {c : Column} :
    (b.rangeClause c).isSome = true ↔ b.IsSet ⟨c, .range⟩ := by
  unfold rangeClause IsSet
  dsimp only
  split
  next lower upper hr => simp [hr]
  next hr =>
    simp only [Option.isSome_none, Bool.false_eq_true, false_iff]
    intro hl
    match hv : (b.filter c.name).range, hl with
    | [lower, upper], _ => exact hr lower upper hv

theorem isSome_likeClause {c : Column} :
    (b.likeClause c).isSome = true ↔ b.IsSet ⟨c, .like⟩ := by
  unfold likeClause IsSet
  dsimp only
  cases (b.filter c.name).like <;> simp

/-- The slots that give a clause are those that are set. -/
theorem isSome_clause? {s : Slot} : (b.clause? s).isSome = true ↔ b.IsSet s := by
  obtain ⟨c, kind⟩ := s
  cases kind with
  | exact => exact isSome_exactClause
  | range => exact isSome_rangeClause
  | like => exact isSome_likeClause

theorem clauses_ne_nil : b.clauses ≠ [] ↔ ∃ s ∈ t.record.slots, b.IsSet s := by
  rw [clauses, Ne, List.filterMap_eq_nil_iff]
  simp [← isSome_clause?, Option.isSome_iff_ne_none]

theorem isSet_of_mem_clauses {c : Clause} (h : c ∈ b.clauses) :
    ∃ s ∈ t.record.slots, b.IsSet s ∧ b.clause? s = some c := by
  obtain ⟨s, hs, hc⟩ := List.mem_filterMap.mp h
  exact ⟨s, hs, isSome_clause?.mp (by rw [hc]; rfl), hc⟩

/-! ### Conditional deletes -/

/-- A delete of what a blueprint asks for. -/
structure Deletes (b : Blueprint t) (query : String) : Prop where
  text : query = "DELETE FROM " ++ t.record.table ++ " " ++ b.predicate 1 ++ ";"
  /-- The predicate has a condition of a slot that is set, and only such besides the scope. -/
  conditions : ∃ texts : List String, texts ≠ [] ∧
    (∀ x ∈ texts, ∃ s ∈ t.record.slots, b.IsSet s ∧ ∃ c n, b.clause? s = some c ∧
      x = c.text t.record.dialect b.inclusive n) ∧
    let condition := (joiner b.inclusive).intercalate texts
    (b.scope? = none ∧ b.predicate 1 = "WHERE " ++ condition ∨
      ∃ scope, b.scope? = some scope ∧
        (b.predicate 1 = "WHERE " ++ condition ++ " AND " ++ scope ∨
          b.predicate 1 = "WHERE (" ++ condition ++ ") AND " ++ scope))
  /-- It drops the rows that are asked for, among those that the scope keeps. -/
  drops : ∀ truth, deletes truth (lexemes t.record.dialect 1 query.toList) =
    some (b.asks truth 1 && b.keeps truth)
  /-- A row of which no condition holds is spared, whatever the scope says. -/
  spares : ∀ truth, (∀ s ∈ t.record.slots, ∀ c, b.clause? s = some c →
      ∀ n, c.holds truth b.inclusive n = false) →
    deletes truth (lexemes t.record.dialect 1 query.toList) = some false

theorem asks_eq_false {truth : Atom → Bool} (hc : b.clauses ≠ [])
    (h : ∀ c ∈ b.clauses, ∀ n, c.holds truth b.inclusive n = false) (base : Nat) :
    b.asks truth base = false := by
  have ho := Clause.outcomes_eq_false h base
  unfold asks
  cases hcs : b.clauses with
  | nil => exact absurd hcs hc
  | cons c cs =>
    rw [hcs] at ho
    cases hi : b.inclusive with
    | false =>
      rw [hi, Clause.outcomes, List.forall_mem_cons] at ho
      simp [Clause.outcomes, ho.1]
    | true =>
      rw [hi] at ho
      simpa using fun h => ho true h

/-- After its table a delete has the predicate. -/
theorem deletes_predicate (hr : t.record.Built) (truth : Atom → Bool) :
    deletes truth (lexemes t.record.dialect 1
        ("DELETE FROM " ++ t.record.table ++ " " ++ b.predicate 1 ++ ";").toList) =
      some (b.asks truth 1 && b.keeps truth) := by
  have hd : IsWord "DELETE".toList := ⟨by decide, by decide⟩
  have hn : Lexeme.ofWord "DELETE".toList = .name "DELETE" := by decide
  have hl : ("DELETE FROM " ++ t.record.table ++ " " ++ b.predicate 1 ++ ";").toList =
      "DELETE".toList ++ (" FROM ".toList ++
        (t.record.table.toList ++ ' ' :: ((b.predicate 1).toList ++ ";".toList))) := by
    simp
  rw [hl, lexemes_word hd (phrase_from.endsWord _), phrase_from.lexemes_append,
    lexemes_word (isWord_of_isSqlName hr.table_name) endsWord_blank, lexemes_blank, hn]
  have he : EndsWord ";".toList := by simp [isWordChar]
  have hp := b.holds_predicate truth hr 1 he fun n => by cases t.record.dialect <;> rfl
  simpa [deletes, isSome_name?_ofWord] using hp

theorem deletes_of_isSet (hr : t.record.Built) (h : ∃ s ∈ t.record.slots, b.IsSet s) :
    b.Deletes ("DELETE FROM " ++ t.record.table ++ " " ++ b.predicate 1 ++ ";") := by
  have hc : b.clauses ≠ [] := clauses_ne_nil.mpr h
  refine ⟨rfl, ⟨_, ?_, fun x hx => ?_, b.predicate_conditions hc 1⟩, deletes_predicate hr,
    fun truth hf => ?_⟩
  · rw [← List.isEmpty_eq_false_iff, conditions_isEmpty]
    simpa using hc
  · rw [conditions_eq] at hx
    obtain ⟨c, hm, n, hx⟩ := Clause.exists_of_mem_texts hx
    obtain ⟨s, hs, hset, hcs⟩ := isSet_of_mem_clauses hm
    exact ⟨s, hs, hset, c, n, hcs, hx⟩
  · have ha : b.asks truth 1 = false := asks_eq_false hc (fun c hm => by
      obtain ⟨s, hs, -, hcs⟩ := isSet_of_mem_clauses hm
      exact hf s hs c hcs) 1
    rw [deletes_predicate hr, ha, Bool.false_and]

end Blueprint

namespace Table

variable {t : Table} {σ : Type}

theorem delete_of_isSet {b : Blueprint t} (h : ∃ s ∈ t.record.slots, b.IsSet s) :
    t.delete (some b) =
      .run ⟨"DELETE FROM " ++ t.record.table ++ " " ++ b.predicate 1 ++ ";", b.values⟩
        (.execute Outcome.rowsAffected) := by
  have hc : b.hasConditions = true :=
    Request.hasConditions_iff.mpr (Blueprint.clauses_ne_nil.mpr h)
  simp [delete, Option.filter, hc, Record.deleteHead]

theorem delete_of_not_isSet {b : Option (Blueprint t)}
    (h : ¬∃ o, b = some o ∧ ∃ s ∈ t.record.slots, o.IsSet s) :
    t.delete b = .answer (.error .unconditionalDelete) := by
  unfold delete
  split
  · rfl
  next o ho =>
    obtain ⟨rfl, hc⟩ := Option.filter_eq_some_iff.mp ho
    exact absurd ⟨o, rfl, Blueprint.clauses_ne_nil.mp (Request.hasConditions_iff.mp hc)⟩ h

/-- A driver is asked to prepare a delete if, and only if, the caller has set a slot; the delete
has a condition besides the scope then. Otherwise it is refused, and nothing is asked of the driver
or logged: the session stays as it was. -/
theorem delete_guarded {decl : Declaration} {scope : Scope} {config : Config}
    (h : Record.build decl scope config = .ok t.record) (d : Driver σ) (b : Option (Blueprint t))
    (session : Session σ) :
    let calls := (t.delete b).calls d session.driver
    ((∃ q, .prepare q ∈ calls) ↔ ∃ o, b = some o ∧ ∃ s ∈ t.record.slots, o.IsSet s) ∧
    (∀ q, .prepare q ∈ calls → ∃ o, b = some o ∧ o.Deletes q) ∧
    ((¬∃ o, b = some o ∧ ∃ s ∈ t.record.slots, o.IsSet s) → calls = [] ∧
      (t.delete b).perform d session = (.error .unconditionalDelete, session)) := by
  intro calls
  by_cases hs : ∃ o, b = some o ∧ ∃ s ∈ t.record.slots, o.IsSet s
  · obtain ⟨o, rfl, ho⟩ := hs
    have hc (q : String) : .prepare q ∈ calls ↔
        q = "DELETE FROM " ++ t.record.table ++ " " ++ o.predicate 1 ++ ";" := by
      rw [Plan.prepare_mem_calls, delete_of_isSet ho]
      simp [Plan.statement?, eq_comm]
    refine ⟨⟨fun _ => ⟨o, rfl, ho⟩, fun _ => ⟨_, (hc _).mpr rfl⟩⟩, fun q hq => ?_,
      fun hn => absurd ⟨o, rfl, ho⟩ hn⟩
    have hd := o.deletes_of_isSet (Record.built_of_build h) ho
    exact ⟨o, rfl, (hc q).mp hq ▸ hd⟩
  · have hp := delete_of_not_isSet hs
    have hc : calls = [] := by
      change (t.delete b).calls d session.driver = []
      rw [hp]
      rfl
    refine ⟨by simp [hc, hs], by simp [hc], fun _ => ⟨hc, ?_⟩⟩
    rw [hp]
    rfl

/-- A driver that is about to fail. It fails a delete of notes that are asked for; a range of three
ends asks for none, and then the failure is left to what comes next. -/
theorem delete_guarded_note :
    let driver : ScriptedDriver :=
      { answers := [[⟨[.int 7]⟩]], failure := some (.prepare, "locked") }
    let session : Session ScriptedDriver := ⟨driver, .keep { room := some 80 }⟩
    let asked := noteBlueprint .postgres
    let unasked : Blueprint (noteTable .postgres) :=
      { filter := ((noteTable .postgres).readFilters fun
          | "flags_range" => some [.int 1, .int 5, .int 9]
          | _ => none).toOption.getD fun _ => {}
        inclusive := true
        unscoped := true
        limit := 1
        orderBy := "id"
        orderDirection := "desc" }
    let delete (b : Blueprint (noteTable .postgres)) : Plan Int :=
      (noteTable .postgres).delete (some b)
    (∃ q, .prepare q ∈ (delete asked).calls ScriptedDriver.driver driver ∧ asked.Deletes q) ∧
    (delete unasked).calls ScriptedDriver.driver driver = [] ∧
    (delete unasked).perform ScriptedDriver.driver session =
      (.error .unconditionalDelete, session) := by
  intro driver session asked unasked delete
  have hs : ∃ s ∈ (noteTable .postgres).record.slots, asked.IsSet s :=
    Blueprint.clauses_ne_nil.mp (by decide +kernel)
  have hn : ¬∃ o, some unasked = some o ∧ ∃ s ∈ (noteTable .postgres).record.slots, o.IsSet s := by
    rintro ⟨o, ho, hu⟩
    cases ho
    exact Blueprint.clauses_ne_nil.mpr hu (by decide +kernel)
  obtain ⟨hp, hq, -⟩ := delete_guarded (t := noteTable .postgres) (note_build .postgres)
    ScriptedDriver.driver (some asked) session
  obtain ⟨-, -, hr⟩ := delete_guarded (t := noteTable .postgres) (note_build .postgres)
    ScriptedDriver.driver (some unasked) session
  obtain ⟨q, hc⟩ := hp.mpr ⟨asked, rfl, hs⟩
  obtain ⟨o, ho, hd⟩ := hq q hc
  cases ho
  exact ⟨⟨q, hc, hd⟩, hr hn⟩

end Table
end RecordStore
