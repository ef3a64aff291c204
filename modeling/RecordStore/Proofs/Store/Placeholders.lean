import RecordStore.Proofs.Schema.Built
import RecordStore.Proofs.Sql.Places
import RecordStore.Store.Arguments
import RecordStore.Store.Plan

/-!
The placeholders of predicates. Texts and values of a predicate come from separate passes over the
slots; they stay in step because every clause has as many placeholders as values.
-/
namespace RecordStore

open Dialect Sign

/-! ### Names -/

theorem plain_of_isSqlName {name : String} (h : Naming.isSqlName name = true) :
    Plain name.toList := by
  intro c hc
  have ha : (c.isAlpha || c == '_') = true :=
    List.all_eq_true.mp (Bool.and_eq_true_iff.mp h).2 c hc
  constructor
  · rintro rfl
    revert ha
    decide
  · rintro rfl
    revert ha
    decide

/-- Names of columns with their table. -/
def IsQualified (q : String) : Prop :=
  ∃ table column, Naming.isSqlName table = true ∧ Naming.isSqlName column = true ∧
    q = table ++ "." ++ column

theorem IsQualified.plain {q : String} (h : IsQualified q) : Plain q.toList := by
  obtain ⟨table, column, ht, hc, rfl⟩ := h
  simp [plain_of_isSqlName ht, plain_of_isSqlName hc]

theorem Record.Built.isQualified {r : Record} (h : r.Built) {c : Column} (hc : c ∈ r.columns) :
    IsQualified (r.qualified c.column) :=
  ⟨r.table, c.column, h.table_name, h.column_name c hc, rfl⟩

/-! ### Clauses -/

namespace Clause

def column : Clause → String
  | oneOf column _ => column
  | present column => column
  | absent column => column
  | between column _ _ => column
  | like column _ => column

/-- The lists of a clause are not empty. -/
def Filled : Clause → Prop
  | oneOf _ vs => vs ≠ []
  | like _ ps => ps ≠ []
  | _ => True

/-- Clauses as slots make them. -/
def Proper (c : Clause) : Prop := IsQualified c.column ∧ c.Filled

/-- The texts of clauses, each from the placeholder after those before it. -/
def texts (d : Dialect) (inclusive : Bool) : Nat → List Clause → List String
  | _, [] => []
  | base, c :: rest => c.text d inclusive base :: texts d inclusive (base + c.values.length) rest

/-- Texts that are made from successive placeholders, one from each. -/
theorem readsAll_placeholders (d : Dialect) (f : String → String)
    (hf : ∀ n, Reads d n 1 (f (d.placeholder n)).toList) (n count : Nat) :
    ReadsAll d n count (((d.placeholders n count).map f).map String.toList) := by
  induction count generalizing n with
  | zero => exact .nil
  | succ count ih =>
    have hs := ReadsAll.cons (hf n) (ih (n + 1))
    rwa [Nat.add_comm] at hs

/-- The placeholders of a clause are for its values. -/
theorem reads_text (d : Dialect) (inclusive : Bool) (n : Nat) {c : Clause} (h : c.Proper) :
    Reads d n c.values.length (c.text d inclusive n).toList := by
  obtain ⟨hq, -⟩ := h
  cases c with
  | oneOf column vs =>
    have hp : Plain column.toList := hq.plain
    have hl := (readsAll_placeholders d id (fun n => .placeholder) n vs.length).intercalate
      (s := [',']) (by decide) (by decide) (by decide)
    have hr := (Reads.plain_append (s := (column ++ " IN (").toList) (by simp [hp]) hl).append
      (u := [')']) (.plain (by decide)) (by decide)
    simpa [text, values] using hr
  | present column =>
    have hp : Plain column.toList := hq.plain
    cases d <;> exact .plain (by simp [text, Dialect.present, hp])
  | absent column =>
    have hp : Plain column.toList := hq.plain
    exact .plain (by simp [text, Dialect.absent, hp])
  | between column lower upper =>
    have hp : Plain column.toList := hq.plain
    have hu := (Reads.placeholder (d := d) (n := n + 1)).append (u := [')'])
      (.plain (by decide)) (by decide)
    have hl := (Reads.placeholder (d := d) (n := n)).append
      (.plain_append (s := (" AND " ++ column ++ " < ").toList) (by simp [hp]) hu) (by simp)
    have hr := Reads.plain_append (s := ("(" ++ column ++ " > ").toList) (by simp [hp]) hl
    simpa [text, values] using hr
  | like column patterns =>
    have hp : Plain column.toList := hq.plain
    have hf (n : Nat) : Reads d n 1 (column ++ " LIKE " ++ d.placeholder n).toList := by
      rw [String.toList_append]
      exact .plain_append (by simp [hp]) .placeholder
    have hr := (readsAll_placeholders d _ hf n patterns.length).intercalate
      (s := (joiner inclusive).toList) (by cases inclusive <;> decide)
      (by cases inclusive <;> decide) (by cases inclusive <;> decide)
    simpa [text, values] using hr

theorem readsAll_texts (d : Dialect) (inclusive : Bool) {cs : List Clause}
    (h : ∀ c ∈ cs, c.Proper) (n : Nat) :
    ReadsAll d n (cs.flatMap values).length ((texts d inclusive n cs).map String.toList) := by
  induction cs generalizing n with
  | nil => exact .nil
  | cons c cs ih =>
    rw [List.flatMap_cons, List.length_append]
    exact .cons (reads_text d inclusive n (h c List.mem_cons_self))
      (ih (fun c hc => h c (List.mem_cons_of_mem _ hc)) _)

end Clause

namespace Blueprint

variable {t : Table} (b : Blueprint t)

/-! ### Slots -/

/-- The list in a slot, as it is bound. -/
def items (s : Slot) : List Value :=
  let k := t.codec s.column.name
  match s.kind with
  | .exact => ((b.filter s.column.name).exact.getD []).map k.bind
  | .range => (b.filter s.column.name).range.map k.bind
  | .like => (b.filter s.column.name).like.map .text

/-- What the slots ask for, in their order. -/
def clauses : List Clause := t.record.slots.filterMap b.clause?

theorem mem_slots {r : Record} {s : Slot} (h : s ∈ r.slots) : s.column ∈ r.columns := by
  obtain ⟨c, hc, hs⟩ := List.mem_flatMap.mp h
  obtain ⟨k, -, rfl⟩ := List.mem_map.mp hs
  exact hc

variable {b}

theorem exactClause_eq {c : Column} {cl : Clause} (h : b.exactClause c = some cl) :
    cl.column = t.record.qualified c.column ∧ cl.Filled ∧
      (cl.values = b.items ⟨c, .exact⟩ ∨ cl.values = []) := by
  unfold exactClause at h
  cases he : (b.filter c.name).exact with
  | none => simp [he] at h
  | some vs =>
    cases vs with
    | nil =>
      simp only [he] at h
      obtain ⟨-, h⟩ := Option.ite_none_right_eq_some.mp h
      cases h
      exact ⟨rfl, trivial, .inr rfl⟩
    | cons v vs =>
      simp only [he] at h
      split at h
      · cases h
        exact ⟨rfl, trivial, .inr rfl⟩
      · cases h
        exact ⟨rfl, List.cons_ne_nil _ _, .inl (by simp [Clause.values, items, he])⟩

theorem rangeClause_eq {c : Column} {cl : Clause} (h : b.rangeClause c = some cl) :
    cl.column = t.record.qualified c.column ∧ cl.Filled ∧ cl.values = b.items ⟨c, .range⟩ := by
  unfold rangeClause at h
  dsimp only at h
  split at h
  next lower upper hr =>
    cases h
    exact ⟨rfl, trivial, by simp [Clause.values, items, hr]⟩
  next => cases h

theorem likeClause_eq {c : Column} {cl : Clause} (h : b.likeClause c = some cl) :
    cl.column = t.record.qualified c.column ∧ cl.Filled ∧ cl.values = b.items ⟨c, .like⟩ := by
  unfold likeClause at h
  split at h
  · cases h
  next p ps hl =>
    cases h
    exact ⟨rfl, List.cons_ne_nil _ _, by simp [Clause.values, items, hl]⟩

/-- What a slot asks for is about its column, and binds its list or nothing. -/
theorem clause?_eq {s : Slot} {cl : Clause} (h : b.clause? s = some cl) :
    cl.column = t.record.qualified s.column.column ∧ cl.Filled ∧
      (cl.values = b.items s ∨ cl.values = []) := by
  obtain ⟨c, kind⟩ := s
  cases kind with
  | exact => exact exactClause_eq h
  | range =>
    obtain ⟨hc, hf, hv⟩ := rangeClause_eq h
    exact ⟨hc, hf, .inl hv⟩
  | like =>
    obtain ⟨hc, hf, hv⟩ := likeClause_eq h
    exact ⟨hc, hf, .inl hv⟩

theorem proper_of_mem_clauses (hr : t.record.Built) {cl : Clause} (h : cl ∈ b.clauses) :
    cl.Proper := by
  obtain ⟨s, hs, hcl⟩ := List.mem_filterMap.mp h
  obtain ⟨hc, hf, -⟩ := clause?_eq hcl
  exact ⟨hc ▸ hr.isQualified (mem_slots hs), hf⟩

/-! ### Both passes over the slots -/

theorem foldl_gather (base : Nat) (slots : List Slot) (before : List String × List Value) :
    slots.foldl (b.gather base) before =
      (before.1 ++ Clause.texts t.record.dialect b.inclusive (base + before.2.length)
          (slots.filterMap b.clause?),
        before.2 ++ (slots.filterMap b.clause?).flatMap Clause.values) := by
  induction slots generalizing before with
  | nil => simp [Clause.texts]
  | cons s slots ih =>
    rw [List.foldl_cons, ih]
    cases hc : b.clause? s with
    | none => simp [gather, hc]
    | some c => simp [gather, hc, Clause.texts, Nat.add_assoc]

variable (b)

/-- The texts are those of the clauses that apply, and the values are theirs from any index on. -/
theorem conditions_eq (base : Nat) :
    b.conditions base = (Clause.texts t.record.dialect b.inclusive base b.clauses,
      b.clauses.flatMap Clause.values) := by
  simpa [conditions, clauses] using foldl_gather (b := b) base t.record.slots ([], [])

theorem values_eq : b.values = b.clauses.flatMap Clause.values := by
  rw [values, conditions_eq]

theorem conditions_isEmpty (base : Nat) : (b.conditions base).1.isEmpty = b.clauses.isEmpty := by
  rw [conditions_eq]
  cases b.clauses <;> rfl

/-! ### Reading a predicate -/

theorem joiner_plain (inclusive : Bool) : Plain (joiner inclusive).toList := by
  cases inclusive <;> decide

theorem joiner_endsNumber (inclusive : Bool) : EndsNumber (joiner inclusive).toList := by
  cases inclusive <;> decide

theorem joiner_ne_nil (inclusive : Bool) : (joiner inclusive).toList ≠ [] := by
  cases inclusive <;> decide

variable {b}

theorem reads_condition (hr : t.record.Built) (base : Nat) :
    Reads t.record.dialect base b.values.length (b.condition base).toList := by
  have hp (c : Clause) (hc : c ∈ b.clauses) : c.Proper := proper_of_mem_clauses hr hc
  rw [values_eq, condition, conditions_eq, String.toList_intercalate]
  exact (Clause.readsAll_texts _ b.inclusive hp base).intercalate (joiner_plain _)
    (joiner_endsNumber _) (joiner_ne_nil _)

theorem isQualified_of_scope? (hr : t.record.Built) {scope : String} (h : b.scope? = some scope) :
    ∃ q, IsQualified q ∧ scope = Dialect.absent q := by
  unfold scope? at h
  split at h
  · cases h
  · obtain ⟨c, hc, rfl⟩ := Option.map_eq_some_iff.mp h
    obtain ⟨o, ho, rfl⟩ := Option.map_eq_some_iff.mp hc
    obtain ⟨f, -, hf⟩ := Option.bind_eq_some_iff.mp ho
    exact ⟨_, hr.isQualified (List.mem_of_find?_eq_some hf), rfl⟩

theorem scope?_plain (hr : t.record.Built) {scope : String} (h : b.scope? = some scope) :
    Plain scope.toList := by
  obtain ⟨q, hq, rfl⟩ := isQualified_of_scope? hr h
  simp [absent, hq.plain]

/-- A predicate adds nothing to the condition but the scope. -/
theorem predicate_conditions (hc : b.clauses ≠ []) (base : Nat) :
    b.scope? = none ∧ b.predicate base = "WHERE " ++ b.condition base ∨
      ∃ scope, b.scope? = some scope ∧
        (b.predicate base = "WHERE " ++ b.condition base ++ " AND " ++ scope ∨
          b.predicate base = "WHERE (" ++ b.condition base ++ ") AND " ++ scope) := by
  have he : b.clauses.isEmpty = false := by simpa using hc
  unfold predicate
  rw [conditions_isEmpty, he]
  cases b.scope? with
  | none => exact .inl ⟨rfl, rfl⟩
  | some scope =>
    refine .inr ⟨scope, rfl, ?_⟩
    simp only [Bool.false_eq_true, if_false]
    split
    · exact .inr rfl
    · exact .inl rfl

/-- Around the condition a predicate has no placeholders. -/
theorem predicate_eq (hr : t.record.Built) (base : Nat) (hc : b.clauses ≠ []) :
    ∃ opening closing : String, Plain opening.toList ∧ Plain closing.toList ∧
      EndsNumber closing.toList ∧ b.predicate base = opening ++ b.condition base ++ closing := by
  rcases predicate_conditions hc base with ⟨-, hp⟩ | ⟨scope, hs, hp⟩
  · exact ⟨"WHERE ", "", by decide, by decide, by decide, by simp [hp]⟩
  · have hl := scope?_plain hr hs
    rcases hp with hp | hp
    · exact ⟨"WHERE ", " AND " ++ scope, by decide, by simp [hl], by simp, by
        simp [hp, String.append_assoc]⟩
    · exact ⟨"WHERE (", ") AND " ++ scope, by decide, by simp [hl], by simp, by
        simp [hp, String.append_assoc]⟩

theorem predicate_plain (hr : t.record.Built) (base : Nat) (hc : b.clauses = []) :
    Plain (b.predicate base).toList := by
  unfold predicate
  rw [conditions_isEmpty, hc]
  cases hs : b.scope? with
  | none => exact plain_nil
  | some scope => simp [scope?_plain hr hs]

/-- The placeholders of a predicate are for its values. -/
theorem reads_predicate (hr : t.record.Built) (base : Nat) :
    Reads t.record.dialect base b.values.length (b.predicate base).toList := by
  by_cases hc : b.clauses = []
  · rw [values_eq, hc]
    exact .plain (predicate_plain hr base hc)
  · obtain ⟨opening, closing, ho, hl, he, hp⟩ := predicate_eq hr base hc
    rw [hp, String.toList_append, String.toList_append, List.append_assoc]
    exact .plain_append ho ((reads_condition hr base).append (.plain hl) he)

/-! ### Where a value stands -/

end Blueprint

/-! ### Notes -/

def noteTable (d : Dialect) : Table :=
  .ofTypes (note d) fun field =>
    (noteFields.find? (·.name == field)).bind fun f => FieldType.ofTy? f.ty

/-- Any of: two keys, three patterns, no missing rank, a range of flags. -/
def noteBlueprint (d : Dialect) : Blueprint (noteTable d) where
  filter := ((noteTable d).readFilters fun
    | "id" => some [.int 3, .int 4]
    | "title_like" => some [.text "a%", .text "%b", .text "?$2"]
    | "rank" => some []
    | "flags_range" => some [.int 1, .int 9]
    | _ => none).toOption.getD fun _ => {}
  inclusive := true
  limit := 5

theorem noteBlueprint_values (d : Dialect) : (noteBlueprint d).values =
    [.int 3, .int 4, .text "a%", .text "%b", .text "?$2", .uint 1, .uint 9] := by
  cases d <;> decide +kernel

namespace Blueprint

end Blueprint
end RecordStore
