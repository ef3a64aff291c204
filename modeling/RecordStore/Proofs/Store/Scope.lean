import RecordStore.Proofs.Sql.Condition
import RecordStore.Proofs.Store.Placeholders

/-!
What a predicate means. The slots of a blueprint ask for one condition, and the scope that hides
deleted rows is added to it; parentheses keep alternatives away from the scope.
-/
namespace RecordStore

theorem isWord_of_isSqlName {name : String} (h : Naming.isSqlName name = true) :
    IsWord name.toList := by
  obtain ⟨hn, ha⟩ := Bool.and_eq_true_iff.mp h
  refine ⟨by simpa using hn, List.all_eq_true.mpr fun c hc => ?_⟩
  rcases Bool.or_eq_true_iff.mp (List.all_eq_true.mp ha c hc) with ha | ha
  · simp [isWordChar, Char.isAlphanum, ha]
  · simp [isWordChar, ha]

theorem IsQualified.isWord {q : String} (h : IsQualified q) : IsWord q.toList := by
  obtain ⟨table, column, ht, hc, rfl⟩ := h
  refine ⟨by simp, ?_⟩
  simp [List.all_append, (isWord_of_isSqlName ht).2, (isWord_of_isSqlName hc).2, isWordChar]

theorem IsQualified.isName {q : String} (h : IsQualified q) : IsName q := by
  have hd : '.' ∈ q.toList := by
    obtain ⟨table, column, -, -, rfl⟩ := h
    simp
  intro d n rest hr
  rw [lexemes_word h.isWord hr, ofWord_of_mem hd (by decide), String.ofList_toList]

namespace Clause

/-! ### Clauses -/

/-- Whether a clause holds whose first placeholder has a given index. -/
def holds (truth : Atom → Bool) (inclusive : Bool) (n : Nat) : Clause → Bool
  | oneOf column vs => truth (.oneOf column (List.range' n vs.length))
  | present column => truth (.present column)
  | absent column => truth (.absent column)
  | between column _ _ => truth (.above column n) && truth (.below column (n + 1))
  | like column patterns =>
    let matched (i : Nat) : Bool := truth (.matching column i)
    if inclusive then (List.range' n patterns.length).any matched
    else (List.range' n patterns.length).all matched

/-- Which of some clauses hold, each from the placeholder after those before it. -/
def outcomes (truth : Atom → Bool) (inclusive : Bool) : Nat → List Clause → List Bool
  | _, [] => []
  | n, c :: rest => c.holds truth inclusive n :: outcomes truth inclusive (n + c.values.length) rest

variable {truth : Atom → Bool} {d : Dialect} {n : Nat}

theorem operand_present {q : String} (h : IsName q) :
    Operand truth d n 0 (d.present q).toList (truth (.present q)) := by
  cases d with
  | default =>
    have hp : Operand truth .default n 0 (q ++ " NOT " ++ Keyword.null.text).toList
        (truth (.present q)) :=
      h.operand_null phrase_not fun l outer ls => by rw [List.singleton_append, operand]
    simpa [Dialect.present, Keyword.text, String.append_assoc] using hp
  | postgres =>
    have hp : Operand truth .postgres n 0 (q ++ " IS NOT " ++ Keyword.null.text).toList
        (truth (.present q)) :=
      h.operand_null phrase_isNot fun l outer ls => by
        rw [List.cons_append, List.singleton_append, operand]
    simpa [Dialect.present, Keyword.text, String.append_assoc] using hp

theorem operand_absent {q : String} (h : IsName q) :
    Operand truth d n 0 (Dialect.absent q).toList (truth (.absent q)) := by
  have ha : Operand truth d n 0 (q ++ " IS " ++ Keyword.null.text).toList (truth (.absent q)) :=
    h.operand_null phrase_is fun l outer ls => by rw [List.singleton_append, operand]
  simpa [Dialect.absent, Keyword.text, String.append_assoc] using ha

theorem operand_between {q : String} (h : IsName q) (lower upper : Value) (inclusive : Bool) :
    Operand truth d n 2 ((between q lower upper).text d inclusive n).toList
      (truth (.above q n) && truth (.below q (n + 1))) := by
  have hl : Operand truth d n 1 (q ++ " > " ++ d.placeholder n).toList (truth (.above q n)) :=
    h.operand_placeholder phrase_above fun l outer ls => by rw [operand]
  have hu : Operand truth d (n + 1) 1 (q ++ " < " ++ d.placeholder (n + 1)).toList
      (truth (.below q (n + 1))) :=
    h.operand_placeholder phrase_below fun l outer ls => by rw [operand]
  have hb := (hl.and hu).alternatives.parenthesized
  simpa [text, joiner] using hb

/-- The patterns of a clause, each compared with the column. -/
theorem inTurn_like {q : String} (h : IsName q) (n count : Nat) :
    InTurn (Operand truth d) n count
      ((d.placeholders n count).map fun p => (q ++ " LIKE " ++ p).toList)
      ((List.range' n count).map fun i => truth (.matching q i)) := by
  induction count generalizing n with
  | zero => exact .nil
  | succ count ih =>
    have hp : Operand truth d n 1 (q ++ " LIKE " ++ d.placeholder n).toList
        (truth (.matching q n)) :=
      h.operand_placeholder phrase_like fun l outer ls => by rw [operand]
    have hc := InTurn.cons hp (ih (n + 1))
    rwa [Nat.add_comm] at hc

theorem like_toList (q : String) (ps : List String) (inclusive : Bool) :
    ((like q ps).text d inclusive n).toList = (joiner inclusive).toList.intercalate
      ((d.placeholders n ps.length).map fun p => (q ++ " LIKE " ++ p).toList) := by
  simp [text, String.toList_intercalate, Function.comp_def]

/-- However clauses are joined, a clause is an operand, or it is made of such. -/
theorem operand_or_like (truth : Atom → Bool) (d : Dialect) {c : Clause} (h : c.Proper) :
    (∀ inclusive n, Operand truth d n c.values.length (c.text d inclusive n).toList
      (c.holds truth inclusive n)) ∨
    ∃ q ps, c = like q ps ∧ ∀ n,
      ((d.placeholders n ps.length).map fun p => (q ++ " LIKE " ++ p).toList) ≠ [] ∧
      InTurn (Operand truth d) n ps.length
        ((d.placeholders n ps.length).map fun p => (q ++ " LIKE " ++ p).toList)
        ((List.range' n ps.length).map fun i => truth (.matching q i)) := by
  obtain ⟨hq, hf⟩ := h
  have hn : IsName c.column := hq.isName
  cases c with
  | oneOf q vs =>
    cases vs with
    | nil => exact absurd rfl hf
    | cons v vs => exact .inl fun _ _ => hn.operand_list vs.length
  | present q => exact .inl fun _ _ => operand_present hn
  | absent q => exact .inl fun _ _ => operand_absent hn
  | between q lower upper => exact .inl fun inclusive _ => operand_between hn lower upper inclusive
  | like q ps =>
    have hp : ps ≠ [] := hf
    exact .inr ⟨q, ps, rfl, fun n => ⟨by simpa [Dialect.placeholders] using hp, inTurn_like hn n _⟩⟩

theorem operand_text_of_exclusive {c : Clause} (h : c.Proper) (n : Nat) :
    Operand truth d n c.values.length (c.text d false n).toList (c.holds truth false n) := by
  rcases operand_or_like truth d h with ho | ⟨q, ps, rfl, hl⟩
  · exact ho false n
  · obtain ⟨hn, hi⟩ := hl n
    have hc := hi.conjunction hn
    rw [like_toList]
    simpa [values, holds, List.all_map, Function.comp_def] using hc

theorem alternatives_text_of_inclusive {c : Clause} (h : c.Proper) (n : Nat) :
    Alternatives truth d n c.values.length (c.text d true n).toList (c.holds truth true n) := by
  rcases operand_or_like truth d h with ho | ⟨q, ps, rfl, hl⟩
  · exact (ho true n).alternatives
  · obtain ⟨hn, hi⟩ := hl n
    have hc := (hi.mono fun _ _ _ _ ho => ho.alternatives).alternatives hn
    rw [like_toList]
    simpa [values, holds, List.any_map, Function.comp_def] using hc

theorem single_text {c : Clause} (h : c.Proper) (n : Nat) :
    SingleOperand truth d n c.values.length (c.text d true n).toList (c.holds truth true n) := by
  rcases operand_or_like truth d h with ho | ⟨q, ps, rfl, hl⟩
  · exact fun _ => ho true n
  · obtain ⟨hn, hi⟩ := hl n
    have hc := (hi.mono (q := SingleOperand truth d) fun _ _ _ _ ho _ => ho).single hn
    rw [like_toList]
    simpa [values, holds, List.any_map, Function.comp_def] using hc

theorem inTurn_texts {p : Nat → Nat → List Char → Bool → Prop} {inclusive : Bool}
    {cs : List Clause} (h : ∀ c ∈ cs, ∀ n,
      p n c.values.length (c.text d inclusive n).toList (c.holds truth inclusive n)) (n : Nat) :
    InTurn p n (cs.flatMap values).length ((texts d inclusive n cs).map String.toList)
      (outcomes truth inclusive n cs) := by
  induction cs generalizing n with
  | nil => exact .nil
  | cons c cs ih =>
    rw [List.flatMap_cons, List.length_append]
    exact .cons (h c List.mem_cons_self n) (ih (fun c hc => h c (List.mem_cons_of_mem _ hc)) _)

theorem texts_ne_nil {inclusive : Bool} {cs : List Clause} (h : cs ≠ []) :
    (texts d inclusive n cs).map String.toList ≠ [] := by
  cases cs with
  | nil => exact absurd rfl h
  | cons c cs => simp [texts]

end Clause

namespace Blueprint

open Clause

variable {t : Table} {b : Blueprint t} (truth : Atom → Bool)

/-! ### Predicates -/

/-- What the caller asks of a row: one of the clauses if that is enough, else all of them. No
clauses ask for nothing. -/
def asks (b : Blueprint t) (truth : Atom → Bool) (base : Nat) : Bool :=
  let vs := outcomes truth b.inclusive base b.clauses
  if b.inclusive && !b.clauses.isEmpty then vs.any id else vs.all id

theorem condition_toList (b : Blueprint t) (base : Nat) : (b.condition base).toList =
    (joiner b.inclusive).toList.intercalate
      ((texts t.record.dialect b.inclusive base b.clauses).map String.toList) := by
  rw [condition, conditions_eq, String.toList_intercalate]

theorem operand_condition_of_exclusive (hr : t.record.Built) (base : Nat) (hn : b.clauses ≠ [])
    (hi : b.inclusive = false) : Operand truth t.record.dialect base b.values.length
      (b.condition base).toList (b.asks truth base) := by
  have ht := inTurn_texts (p := Operand truth t.record.dialect)
    (fun c hc n => operand_text_of_exclusive (proper_of_mem_clauses (b := b) hr hc) n) base
  have ho := ht.conjunction (texts_ne_nil hn)
  rw [values_eq, condition_toList, hi]
  simpa [asks, hi] using ho

theorem alternatives_condition (hr : t.record.Built) (base : Nat) (hn : b.clauses ≠ []) :
    Alternatives truth t.record.dialect base b.values.length (b.condition base).toList
      (b.asks truth base) := by
  cases hi : b.inclusive with
  | false => exact (operand_condition_of_exclusive truth hr base hn hi).alternatives
  | true =>
    have ht := inTurn_texts (p := Alternatives truth t.record.dialect)
      (fun c hc n => alternatives_text_of_inclusive (proper_of_mem_clauses (b := b) hr hc) n) base
    have ho := ht.alternatives (texts_ne_nil hn)
    rw [values_eq, condition_toList, hi]
    simpa [asks, hi, hn] using ho

theorem single_condition (hr : t.record.Built) (base : Nat) (hn : b.clauses ≠ [])
    (hi : b.inclusive = true) : SingleOperand truth t.record.dialect base b.values.length
      (b.condition base).toList (b.asks truth base) := by
  have ht := inTurn_texts (p := SingleOperand truth t.record.dialect)
    (fun c hc n => single_text (proper_of_mem_clauses (b := b) hr hc) n) base
  have ho := ht.single (texts_ne_nil hn)
  rw [values_eq, condition_toList, hi]
  simpa [asks, hi, hn] using ho

/-- Whether the scope keeps a row. -/
def keeps (b : Blueprint t) (truth : Atom → Bool) : Bool :=
  b.unscoped || t.record.softDeleteColumn.all fun c => truth (.absent (t.record.qualified c))

theorem operand_scope (hr : t.record.Built) {scope : String} (hs : b.scope? = some scope)
    (n : Nat) : Operand truth t.record.dialect n 0 scope.toList (b.keeps truth) := by
  obtain ⟨q, hq, rfl⟩ := isQualified_of_scope? hr hs
  have hk : b.keeps truth = truth (.absent q) := by
    unfold scope? at hs
    split at hs
    · cases hs
    next hu =>
      obtain ⟨c, hc, hcq⟩ := Option.map_eq_some_iff.mp hs
      have hcq : t.record.qualified c = q := by
        simpa [Dialect.absent, String.ext_iff] using hcq
      simp [keeps, hu, hc, hcq]
  rw [hk]
  exact operand_absent hq.isName

theorem keeps_of_scope?_eq_none (h : b.scope? = none) : b.keeps truth = true := by
  unfold scope? at h
  split at h
  next hu => simp [keeps, hu]
  next hu =>
    have hc : t.record.softDeleteColumn = none := by simpa using h
    simp [keeps, hc]

theorem asks_nil (hc : b.clauses = []) (base : Nat) : b.asks truth base = true := by
  simp [asks, hc, outcomes]

/-- A predicate asks what the caller asks, of the rows that the scope keeps. -/
theorem holds_predicate (hr : t.record.Built) (base : Nat) {rest : List Char} (he : EndsWord rest)
    (ht : ∀ n, isTail (lexemes t.record.dialect n rest) = true) :
    RecordStore.holds truth (lexemes t.record.dialect base ((b.predicate base).toList ++ rest)) =
      some (b.asks truth base && b.keeps truth) := by
  unfold predicate
  rw [conditions_isEmpty]
  by_cases hc : b.clauses = []
  · have hv : b.clauses.isEmpty = true := by simpa using hc
    rw [asks_nil truth hc, Bool.true_and, hv]
    cases hs : b.scope? with
    | none => simpa [keeps_of_scope?_eq_none truth hs] using holds_tail (ht base)
    | some scope =>
      have ha := (operand_scope truth hr hs base).alternatives.holds he (ht _)
      simpa using ha
  · have hv : b.clauses.isEmpty = false := by simpa using hc
    rw [hv]
    cases hs : b.scope? with
    | none =>
      have ha := (alternatives_condition truth hr base hc).holds he (ht _)
      simpa [keeps_of_scope?_eq_none truth hs] using ha
    | some scope =>
      have hk (n : Nat) : Operand truth t.record.dialect n 0 scope.toList (b.keeps truth) :=
        operand_scope truth hr hs n
      simp only [Bool.false_eq_true, if_false]
      split
      · have ho := (alternatives_condition truth hr base hc).parenthesized
        have ha := (ho.and (hk _)).alternatives.holds he (ht _)
        simpa [joiner] using ha
      next hg =>
        have ho : Operand truth t.record.dialect base b.values.length
            (b.condition base).toList (b.asks truth base) := by
          cases hi : b.inclusive with
          | false => exact operand_condition_of_exclusive truth hr base hc hi
          | true =>
            refine single_condition truth hr base hc hi fun hs => hg ?_
            rw [hi, Bool.true_and]
            exact String.contains_string_iff.mpr hs
        have ha := (ho.and (hk _)).alternatives.holds he (ht _)
        simpa [joiner] using ha

end Blueprint
end RecordStore
