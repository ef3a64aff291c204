import Mathlib.Data.List.Forall2
import RecordStore.Proofs.Store.Conversation
import RecordStore.Proofs.Store.Parameters

/-!
What the text of a statement depends on. Calls that ask for values in the same way send the same
text, whatever the values are; callers add an order by a column of the table, and two numbers.
-/
namespace RecordStore

variable {t : Table}

/-- Clauses with the same text that bind as many values. -/
structure Clause.SameText (c c' : Clause) : Prop where
  text_eq : ∀ d inclusive base, c.text d inclusive base = c'.text d inclusive base
  length_values : c.values.length = c'.values.length

namespace Clause

theorem SameText.refl (c : Clause) : c.SameText c := ⟨fun _ _ _ => rfl, rfl⟩

theorem sameText_oneOf {vs ws : List Value} (column : String) (h : vs.length = ws.length) :
    (oneOf column vs).SameText (oneOf column ws) where
  text_eq d inclusive base := by rw [text, text, h]
  length_values := h

theorem sameText_like {ps qs : List String} (column : String) (h : ps.length = qs.length) :
    (like column ps).SameText (like column qs) where
  text_eq d inclusive base := by rw [text, text, h]
  length_values := by simpa [values] using h

theorem sameText_between (column : String) (lower upper lower' upper' : Value) :
    (between column lower upper).SameText (between column lower' upper') := ⟨fun _ _ _ => rfl, rfl⟩

theorem length_values_eq {cs cs' : List Clause} (h : List.Forall₂ SameText cs cs') :
    (cs.flatMap values).length = (cs'.flatMap values).length := by
  induction h with
  | nil => rfl
  | cons hc _ ih => rw [List.flatMap_cons, List.flatMap_cons, List.length_append,
      List.length_append, hc.length_values, ih]

theorem texts_eq {cs cs' : List Clause} (h : List.Forall₂ SameText cs cs') (d : Dialect)
    (inclusive : Bool) (n : Nat) : texts d inclusive n cs = texts d inclusive n cs' := by
  induction h generalizing n with
  | nil => rfl
  | cons hc _ ih => rw [texts, texts, hc.text_eq, hc.length_values, ih]

end Clause

namespace Blueprint

variable {b b' : Blueprint t}

/-! ### Slots -/

/-- Lists in a slot that are equally long. Where a value may be lacking, there is also a list in
both or in none, and a missing value in both or in none. -/
def SameSlot (b b' : Blueprint t) (s : Slot) : Prop :=
  let f := b.filter s.column.name
  let f' := b'.filter s.column.name
  let missing := (t.codec s.column.name).isMissing
  match s.kind with
  | .exact => (f.exact.getD []).length = (f'.exact.getD []).length ∧
      (s.column.category.isNullable = true → f.exact.isSome = f'.exact.isSome ∧
        (f.exact.getD []).any missing = (f'.exact.getD []).any missing)
  | .range => f.range.length = f'.range.length
  | .like => f.like.length = f'.like.length

instance decidableSameSlot (b b' : Blueprint t) : (s : Slot) → Decidable (b.SameSlot b' s)
  | ⟨_, .exact⟩ => inferInstanceAs (Decidable (_ ∧ (_ → _ ∧ _)))
  | ⟨_, .range⟩ => inferInstanceAs (Decidable (_ = _))
  | ⟨_, .like⟩ => inferInstanceAs (Decidable (_ = _))

theorem exactClause_eq_ite (b : Blueprint t) (c : Column) :
    let items := (b.filter c.name).exact.getD []
    let column := t.record.qualified c.column
    b.exactClause c =
      if items = [] then
        if c.category.isNullable && (b.filter c.name).exact.isSome then some (.present column)
        else none
      else if c.category.isNullable && items.any (t.codec c.name).isMissing then
        some (.absent column)
      else some (.oneOf column (items.map (t.codec c.name).bind)) := by
  unfold exactClause
  dsimp only
  cases (b.filter c.name).exact with
  | none => simp
  | some vs => cases vs <;> simp

theorem sameText_exactClause {c : Column} (h : b.SameSlot b' ⟨c, .exact⟩) :
    Option.Rel Clause.SameText (b.exactClause c) (b'.exactClause c) := by
  obtain ⟨hl, hn⟩ := h
  have he : (b.filter c.name).exact.getD [] = [] ↔ (b'.filter c.name).exact.getD [] = [] := by
    rw [← List.length_eq_zero_iff, hl, List.length_eq_zero_iff]
  rw [exactClause_eq_ite, exactClause_eq_ite, ite_cond_congr (propext he)]
  cases hk : c.category.isNullable with
  | false =>
    simp only [Bool.false_and, Bool.false_eq_true, if_false]
    split
    · exact .none
    · exact .some (Clause.sameText_oneOf _ (by simpa using hl))
  | true =>
    obtain ⟨hs, hm⟩ := hn hk
    simp only [Bool.true_and, hs, hm]
    split
    · split
      · exact .some (.refl _)
      · exact .none
    · split
      · exact .some (.refl _)
      · exact .some (Clause.sameText_oneOf _ (by simpa using hl))

theorem sameText_rangeClause {c : Column} (h : b.SameSlot b' ⟨c, .range⟩) :
    Option.Rel Clause.SameText (b.rangeClause c) (b'.rangeClause c) := by
  have hl : (b.filter c.name).range.length = (b'.filter c.name).range.length := h
  unfold rangeClause
  dsimp only
  split
  next lower upper hr =>
    obtain ⟨lower', upper', hr'⟩ : ∃ lower' upper', (b'.filter c.name).range = [lower', upper'] :=
      List.length_eq_two.mp (by simpa [hr] using hl.symm)
    rw [hr']
    exact .some (Clause.sameText_between ..)
  next hr =>
    split
    next lower' upper' hr' =>
      obtain ⟨lower, upper, hn⟩ := List.length_eq_two.mp (by simpa [hr'] using hl)
      exact absurd hn (hr lower upper)
    · exact .none

theorem sameText_likeClause {c : Column} (h : b.SameSlot b' ⟨c, .like⟩) :
    Option.Rel Clause.SameText (b.likeClause c) (b'.likeClause c) := by
  have hl : (b.filter c.name).like.length = (b'.filter c.name).like.length := h
  unfold likeClause
  generalize (b.filter c.name).like = ps at hl ⊢
  generalize (b'.filter c.name).like = qs at hl ⊢
  cases ps with
  | nil =>
    obtain rfl : qs = [] := List.length_eq_zero_iff.mp hl.symm
    exact .none
  | cons p ps =>
    cases qs with
    | nil => cases hl
    | cons q qs => exact .some (Clause.sameText_like _ hl)

theorem sameText_clause? {s : Slot} (h : b.SameSlot b' s) :
    Option.Rel Clause.SameText (b.clause? s) (b'.clause? s) := by
  obtain ⟨c, kind⟩ := s
  cases kind with
  | exact => exact sameText_exactClause h
  | range => exact sameText_rangeClause h
  | like => exact sameText_likeClause h

/-! ### Blueprints -/

/-- Blueprints that put their values in the same conditions. -/
structure SameConditions (b b' : Blueprint t) : Prop where
  slots : ∀ s ∈ t.record.slots, b.SameSlot b' s
  inclusive : b.inclusive = b'.inclusive
  unscoped : b.unscoped = b'.unscoped

/-- Blueprints that differ in values, and in words that name no column and no direction. -/
structure SameShape (b b' : Blueprint t) : Prop extends SameConditions b b' where
  limit : b.effectiveLimit = b'.effectiveLimit
  offset : b.effectiveOffset = b'.effectiveOffset
  /-- They order by the same column in the same direction, or by none. -/
  order : b.orderBy = b'.orderBy ∧ b.direction = b'.direction ∨
    ∀ c ∈ t.record.columns, b.orderBy ≠ c.column ∧ b'.orderBy ≠ c.column

theorem SameConditions.clauses (h : b.SameConditions b') :
    List.Forall₂ Clause.SameText b.clauses b'.clauses := by
  have hs : List.Forall₂ (fun s s' => s = s' ∧ b.SameSlot b' s) t.record.slots t.record.slots :=
    List.forall₂_same.mpr fun s hm => ⟨rfl, h.slots s hm⟩
  refine List.rel_filterMap (fun s s' hss => ?_) hs
  obtain ⟨rfl, hss⟩ := hss
  exact sameText_clause? hss

theorem SameConditions.length_values (h : b.SameConditions b') :
    b.values.length = b'.values.length := by
  rw [values_eq, values_eq, Clause.length_values_eq h.clauses]

theorem SameConditions.predicate (h : b.SameConditions b') (base : Nat) :
    b.predicate base = b'.predicate base := by
  have ht : (b.conditions base).1 = (b'.conditions base).1 := by
    rw [conditions_eq, conditions_eq, h.inclusive, Clause.texts_eq h.clauses]
  have hs : b.scope? = b'.scope? := by rw [scope?, scope?, h.unscoped]
  have hc : b.condition base = b'.condition base := by rw [condition, condition, h.inclusive, ht]
  rw [Blueprint.predicate, Blueprint.predicate, hs, ht, hc, h.inclusive]

theorem orderClause_of_forall_ne (h : ∀ c ∈ t.record.columns, b.orderBy ≠ c.column) :
    b.orderClause = "" := by
  have hn : b.orderBy ∉ t.record.orderColumns := by
    rintro hm
    obtain ⟨c, hc, he⟩ := Record.mem_orderColumns.mp hm
    exact h c hc he.symm
  simp [orderClause, hn]

/-- An order is by a column of the table. -/
theorem orderClause_eq (b : Blueprint t) : b.orderClause = "" ∨
    ∃ c ∈ t.record.columns, b.orderBy = c.column ∧
      (b.orderClause = "ORDER BY " ++ t.record.table ++ "." ++ c.column ++ " ASC" ∨
        b.orderClause = "ORDER BY " ++ t.record.table ++ "." ++ c.column ++ " DESC") := by
  by_cases hn : ∀ c ∈ t.record.columns, b.orderBy ≠ c.column
  · exact .inl (orderClause_of_forall_ne hn)
  · push Not at hn
    obtain ⟨c, hc, he⟩ := hn
    have hm : t.record.orderColumns.contains b.orderBy = true :=
      List.contains_iff_mem.mpr (Record.mem_orderColumns.mpr ⟨c, hc, he.symm⟩)
    refine .inr ⟨c, hc, he, ?_⟩
    rw [orderClause, if_pos hm, he, Record.qualified]
    unfold direction
    split
    · right
      simp [String.append_assoc]
    · left
      simp [String.append_assoc]

/-- What a blueprint adds to a read after the conditions. -/
def ending (b : Blueprint t) : String := part b.orderClause ++ b.page

theorem SameShape.ending (h : b.SameShape b') : b.ending = b'.ending := by
  have ho : b.orderClause = b'.orderClause := by
    rcases h.order with ⟨hb, hd⟩ | hn
    · rw [orderClause, orderClause, hb, hd]
    · rw [orderClause_of_forall_ne fun c hc => (hn c hc).1,
        orderClause_of_forall_ne fun c hc => (hn c hc).2]
  rw [Blueprint.ending, Blueprint.ending, ho, page, page, h.limit, h.offset]

theorem SameConditions.hasConditions_eq (h : b.SameConditions b') :
    b.hasConditions = b'.hasConditions := by
  have hl : b.clauses = [] ↔ b'.clauses = [] := by
    rw [← List.length_eq_zero_iff, h.clauses.length_eq, List.length_eq_zero_iff]
  rw [Bool.eq_iff_iff, Request.hasConditions_iff, Request.hasConditions_iff, Ne, hl]

end Blueprint

/-! ### Requests -/

namespace Request

/-- Calls of one method with as many records, and with blueprints that are alike or with none. -/
inductive Similar (p : Blueprint t → Blueprint t → Prop) : Request t → Request t → Prop where
  | create {es es' : List t.Entity} (h : es.length = es'.length) :
    Similar p (.create es) (.create es')
  | write {a : Assignment} {c : Column} {v v' : t.Cell c.name} {b b' : Option (Blueprint t)}
    (h : Option.Rel p b b') : Similar p (.write a c v b) (.write a c v' b')
  | delete {b b' : Option (Blueprint t)} (h : Option.Rel p b b') :
    Similar p (.delete b) (.delete b')
  | find {b b' : Option (Blueprint t)} (h : Option.Rel p b b') : Similar p (.find b) (.find b')
  | count {b b' : Option (Blueprint t)} (h : Option.Rel p b b') : Similar p (.count b) (.count b')
  | select {c : Column} {b b' : Option (Blueprint t)} (h : Option.Rel p b b') :
    Similar p (.select c b) (.select c b')

/-- What a blueprint adds to a statement after the conditions. -/
def ending : Request t → String
  | find b => (b.getD {}).ending
  | select _ b => (b.getD {}).ending
  | _ => ""

/-- What a request asks of a driver in a state, in order. -/
def calls {σ : Type} (d : Driver σ) (before : σ) : Request t → List DriverCall
  | create es => (t.create es).calls d before
  | write a c value b => (t.write a c value b).calls d before
  | delete b => (t.delete b).calls d before
  | find b => (t.find b).calls d before
  | count b => (t.count b).calls d before
  | select c b => (t.select c b).calls d before

def text? (q : Request t) : Option String := q.statement?.map Statement.query

/-- Blueprints that are alike agree on what does not tell them apart; so does a missing one. -/
theorem getD_eq_of_rel {α : Type} {p : Blueprint t → Blueprint t → Prop} {f : Blueprint t → α}
    {b b' : Option (Blueprint t)} (h : Option.Rel p b b') (hf : ∀ o o', p o o' → f o = f o') :
    f (b.getD {}) = f (b'.getD {}) := by
  cases h with
  | none => rfl
  | some h => exact hf _ _ h

theorem map_eq_of_rel {α : Type} {p : Blueprint t → Blueprint t → Prop} {f : Blueprint t → α}
    {b b' : Option (Blueprint t)} (h : Option.Rel p b b') (hf : ∀ o o', p o o' → f o = f o') :
    b.map f = b'.map f := by
  cases h with
  | none => rfl
  | some h => exact congrArg some (hf _ _ h)

theorem update_query {a : Assignment} {c : Column} (v v' : t.Cell c.name)
    {b b' : Option (Blueprint t)} (h : Option.Rel Blueprint.SameConditions b b') :
    (t.update a c v b).query = (t.update a c v' b').query := by
  have hl : ((b.map Blueprint.values).getD []).length =
      ((b'.map Blueprint.values).getD []).length := by
    cases h with
    | none => rfl
    | some h => exact h.length_values
  have hp (base : Nat) : b.map (fun b => Blueprint.part (b.predicate base)) =
      b'.map fun b => Blueprint.part (b.predicate base) :=
    map_eq_of_rel h fun o o' ho => by rw [ho.predicate]
  unfold Table.update
  dsimp only
  split
  · rw [hl, hp]
  · rw [hp]

theorem readStatement_query (head : String) (b : Option (Blueprint t)) :
    (t.readStatement head b).query =
      head ++ Blueprint.part ((b.getD {}).predicate 1) ++ (b.getD {}).ending := by
  simp [Table.readStatement, Blueprint.tail, Blueprint.ending, String.append_assoc]

theorem create_text? {es es' : List t.Entity} (h : es.length = es'.length) :
    (create es).text? = (create es').text? := by
  have he : es.isEmpty = es'.isEmpty := by
    rw [Bool.eq_iff_iff, List.isEmpty_iff_length_eq_zero, h, List.isEmpty_iff_length_eq_zero]
  have hi : (t.insert es).query = (t.insert es').query := by rw [Table.insert, Table.insert, h]
  unfold text? statement? Table.create
  dsimp only
  rw [he]
  split
  · rfl
  · exact congrArg some hi

theorem delete_text? {b b' : Option (Blueprint t)} (h : Option.Rel Blueprint.SameConditions b b') :
    (delete b).text? = (delete b').text? := by
  cases h with
  | none => rfl
  | @some o o' h =>
    unfold text? statement? Table.delete
    dsimp only [Option.filter]
    rw [h.hasConditions_eq]
    cases o'.hasConditions with
    | false => rfl
    | true => simp [Plan.statement?, h.predicate]

/-- Where only the same is asked, statements differ in their endings alone. -/
theorem text?_append {q q' : Request t} (h : q.Similar Blueprint.SameConditions q') :
    ∃ text : Option String,
      q.text? = text.map (· ++ q.ending) ∧ q'.text? = text.map (· ++ q'.ending) := by
  have hp {b b' : Option (Blueprint t)} (h : Option.Rel Blueprint.SameConditions b b') :
      (b.getD {}).predicate 1 = (b'.getD {}).predicate 1 :=
    getD_eq_of_rel h fun o o' ho => ho.predicate 1
  have hn (he : q.ending = "") (he' : q'.ending = "") (ht : q.text? = q'.text?) :
      ∃ text : Option String,
        q.text? = text.map (· ++ q.ending) ∧ q'.text? = text.map (· ++ q'.ending) :=
    ⟨q.text?, by simp [he], by simp [he', ht]⟩
  cases h with
  | create h => exact hn rfl rfl (create_text? h)
  | write h => exact hn rfl rfl (congrArg some (update_query _ _ h))
  | delete h => exact hn rfl rfl (delete_text? h)
  | @find b b' h =>
    refine ⟨some (t.record.findHead ++ Blueprint.part ((b.getD {}).predicate 1)), ?_, ?_⟩
    · exact congrArg some (readStatement_query _ b)
    · rw [hp h]
      exact congrArg some (readStatement_query _ b')
  | count h =>
    refine hn rfl rfl (congrArg some ?_)
    change t.record.countHead ++ Blueprint.part _ ++ ";" =
      t.record.countHead ++ Blueprint.part _ ++ ";"
    rw [hp h]
  | @select c b b' h =>
    refine ⟨some (t.record.selectHead c ++ Blueprint.part ((b.getD {}).predicate 1)), ?_, ?_⟩
    · exact congrArg some (readStatement_query _ b)
    · rw [hp h]
      exact congrArg some (readStatement_query _ b')

theorem Similar.mono {p r : Blueprint t → Blueprint t → Prop} {q q' : Request t}
    (h : q.Similar p q') (hpr : ∀ b b', p b b' → r b b') : q.Similar r q' := by
  have ho {b b' : Option (Blueprint t)} (h : Option.Rel p b b') : Option.Rel r b b' := by
    cases h with
    | none => exact .none
    | some h => exact .some (hpr _ _ h)
  cases h with
  | create h => exact .create h
  | write h => exact .write (ho h)
  | delete h => exact .delete (ho h)
  | find h => exact .find (ho h)
  | count h => exact .count (ho h)
  | select h => exact .select (ho h)

theorem ending_eq {q q' : Request t} (h : q.Similar Blueprint.SameShape q') :
    q.ending = q'.ending := by
  cases h with
  | find h => exact getD_eq_of_rel h fun o o' ho => ho.ending
  | select h => exact getD_eq_of_rel h fun o o' ho => ho.ending
  | _ => rfl

/-- A driver is asked about the statement of the request only. -/
theorem text?_of_mem_calls {σ : Type} {d : Driver σ} {before : σ} {q : Request t}
    {call : DriverCall} (h : call ∈ q.calls d before) : q.text? = some call.text := by
  have ht {α : Type} {p : Plan α} (hc : call ∈ p.calls d before) :
      p.statement?.map Statement.query = some call.text := by
    obtain ⟨s, hs, he⟩ := Plan.text_of_mem_calls hc
    rw [hs, he]
    rfl
  cases q with
  | _ => exact ht h

/-- Calls of the same shape give drivers the same text, whatever is bound and whatever the drivers
answer. A caller adds to it an order by a column of the table and two decimal numbers, at its end,
and nothing else. -/
theorem text_of_shape (t : Table) :
    (∀ q q' : Request t, q.Similar Blueprint.SameShape q' → q.text? = q'.text? ∧
      ∀ {σ τ : Type} (d : Driver σ) (d' : Driver τ) (before : σ) (before' : τ),
        ∀ call ∈ q.calls d before, ∀ call' ∈ q'.calls d' before', call.text = call'.text) ∧
    (∀ q q' : Request t, q.Similar Blueprint.SameConditions q' → ∃ text : Option String,
      q.text? = text.map (· ++ q.ending) ∧ q'.text? = text.map (· ++ q'.ending)) ∧
    ∀ b : Blueprint t, ∃ order : String,
      b.ending = Blueprint.part order ++ " LIMIT " ++ toString b.effectiveLimit ++ " OFFSET " ++
        toString b.effectiveOffset ∧
      (order = "" ∨ ∃ c ∈ t.record.columns, b.orderBy = c.column ∧
        (order = "ORDER BY " ++ t.record.table ++ "." ++ c.column ++ " ASC" ∨
          order = "ORDER BY " ++ t.record.table ++ "." ++ c.column ++ " DESC")) := by
  refine ⟨fun q q' h => ?_, fun q q' h => text?_append h, fun b => ?_⟩
  · have ht : q.text? = q'.text? := by
      obtain ⟨text, hq, hq'⟩ := text?_append (h.mono fun b b' hb => hb.toSameConditions)
      rw [hq, hq', ending_eq h]
    refine ⟨ht, fun d d' before before' call hc call' hc' => ?_⟩
    rw [text?_of_mem_calls hc, text?_of_mem_calls hc'] at ht
    exact Option.some.inj ht
  · exact ⟨b.orderClause, by simp [Blueprint.ending, Blueprint.page, String.append_assoc],
      b.orderClause_eq⟩

/-- Two reads of notes that ask for other values, and by words that are not columns. -/
theorem text_of_shape_note :
    let b : Blueprint (noteTable .postgres) := { noteBlueprint .postgres with orderBy := "rank;" }
    let other : Blueprint (noteTable .postgres) :=
      { filter := ((noteTable .postgres).readFilters fun
          | "id" => some [.int 8, .int (-1)]
          | "title_like" => some [.text "", .text "'; DROP TABLE notes; --", .text "$1"]
          | "rank" => some []
          | "flags_range" => some [.int 200, .int 2]
          | _ => none).toOption.getD fun _ => {}
        inclusive := true
        limit := 5
        offset := -3
        orderBy := "1 DESC"
        orderDirection := "desc" }
    b.values ≠ other.values ∧ b.SameShape other ∧
      (Request.find (some b)).text? = (Request.find (some other)).text? := by
  intro b other
  have hs : b.SameShape other :=
    { slots := by decide +kernel
      inclusive := rfl
      unscoped := rfl
      limit := rfl
      offset := rfl
      order := .inr (by decide +kernel) }
  have ht := (text_of_shape (noteTable .postgres)).1 _ _ (.find (.some hs))
  exact ⟨by decide +kernel, hs, ht.1⟩

end Request
end RecordStore
