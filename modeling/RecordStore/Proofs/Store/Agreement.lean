import RecordStore.Proofs.Schema.ColumnOrder
import RecordStore.Proofs.Sql.Spacing
import RecordStore.Proofs.Store.Deletion
import RecordStore.Proofs.Store.Shapes

/-!
What reads have in common. Of one blueprint, or of none, all reads of a table are about the same
rows: behind their columns they have the same condition and the same values.
-/
namespace RecordStore

variable {t : Table}

namespace Blueprint

variable (b : Blueprint t)

/-! ### Parts -/

theorem part_of_ne {s : String} (h : s ≠ "") : part s = " " ++ s :=
  if_neg fun he => h (String.isEmpty_iff.mp he)

theorem tidy_part {cs : List Char} (h : Tidy cs) {s : String} (hs : s = "" ∨ Tidy s.toList) :
    Tidy (cs ++ (part s).toList) := by
  by_cases hn : s = ""
  · simpa [hn, part] using h
  · rw [part_of_ne hn]
    simpa using h.blank (hs.resolve_left hn)

theorem tidy_condition (hr : t.record.Built) (hc : b.clauses ≠ []) (base : Nat) :
    Tidy (b.condition base).toList := by
  have he := b.conditions_isEmpty base
  rw [condition, String.toList_intercalate]
  refine tidy_intercalate (fun cs ds => tidy_joiner b.inclusive) ?_ fun p hp => ?_
  · intro hn
    rw [List.map_eq_nil_iff.mp hn] at he
    exact hc (List.isEmpty_iff.mp he.symm)
  · obtain ⟨x, hx, rfl⟩ := List.mem_map.mp hp
    rw [conditions_eq] at hx
    obtain ⟨c, hm, n, rfl⟩ := Clause.exists_of_mem_texts hx
    exact Clause.tidy_text _ n b.inclusive (proper_of_mem_clauses hr hm)

/-- A predicate is empty, as nothing is asked for and no rows are hidden, or a tidy condition. -/
theorem predicate_cases (hr : t.record.Built) (base : Nat) :
    b.predicate base = "" ∧ b.scope? = none ∧ b.clauses = [] ∨
      ∃ condition, b.predicate base = "WHERE " ++ condition ∧ Tidy condition.toList := by
  have hs {scope : String} (h : b.scope? = some scope) : Tidy scope.toList := by
    obtain ⟨q, hq, rfl⟩ := isQualified_of_scope? hr h
    exact tidy_absent hq.tidy
  by_cases hc : b.clauses = []
  · cases ho : b.scope? with
    | none =>
      refine .inl ⟨?_, rfl, hc⟩
      rw [b.predicate_eq_empty base ho]
      exact List.filterMap_eq_nil_iff.mp hc
    | some scope =>
      refine .inr ⟨scope, ?_, hs ho⟩
      rw [predicate, ho, conditions_isEmpty, hc]
      rfl
  · have ht := b.tidy_condition hr hc base
    have ha : Tidy "AND".toList := tidy_of_notMem (by decide) (by decide)
    rcases predicate_conditions hc base with ⟨-, hp⟩ | ⟨scope, ho, hp | hp⟩
    · exact .inr ⟨_, hp, ht⟩
    · refine .inr ⟨b.condition base ++ " AND " ++ scope, by simp [hp, String.append_assoc], ?_⟩
      simpa using ht.word (hs ho) ha
    · refine .inr ⟨"(" ++ b.condition base ++ ") AND " ++ scope,
        String.toList_inj.mp (by simp [hp]), ?_⟩
      simpa using ht.parenthesized.word (hs ho) ha

/-- An order is empty, as no column has its name, or it is by a column and one of two words. -/
theorem orderClause_cases : b.orderClause = "" ∧ (∀ c ∈ t.record.columns, b.orderBy ≠ c.column) ∨
    ∃ c ∈ t.record.columns, b.orderBy = c.column ∧ ∃ direction ∈ ["ASC", "DESC"],
      b.orderClause = "ORDER BY " ++ t.record.table ++ "." ++ c.column ++ " " ++ direction := by
  by_cases hm : b.orderBy ∈ t.record.orderColumns
  · obtain ⟨c, hc, he⟩ := Record.mem_orderColumns.mp hm
    refine .inr ⟨c, hc, he.symm, b.direction, ?_, ?_⟩
    · unfold direction
      split <;> decide
    · rw [orderClause, if_pos (List.contains_iff_mem.mpr hm), ← he, Record.qualified]
      simp only [String.append_assoc]
  · have hn : ∀ c ∈ t.record.columns, b.orderBy ≠ c.column := fun c hc he =>
      hm (Record.mem_orderColumns.mpr ⟨c, hc, he.symm⟩)
    exact .inl ⟨orderClause_of_forall_ne hn, hn⟩

theorem tidy_orderClause (hr : t.record.Built) :
    b.orderClause = "" ∨ Tidy b.orderClause.toList := by
  rcases b.orderClause_cases with ⟨hn, -⟩ | ⟨c, hc, -, direction, hd, ho⟩
  · exact .inl hn
  · have hq : Tidy (t.record.qualified c.column).toList := (hr.isQualified hc).tidy
    have hd : Tidy direction.toList := by
      rcases List.mem_pair.mp hd with rfl | rfl <;>
        exact tidy_of_notMem (by decide) (by decide)
    have hf : Tidy "ORDER".toList := tidy_of_notMem (by decide) (by decide)
    have hb : Tidy "BY".toList := tidy_of_notMem (by decide) (by decide)
    have hw : Tidy "ORDER BY".toList := hf.blank hb
    have ht := hw.word hd hq
    refine .inr ?_
    rw [ho]
    simpa [Record.qualified] using ht

theorem tidy_predicate (hr : t.record.Built) (base : Nat) :
    b.predicate base = "" ∨ Tidy (b.predicate base).toList := by
  rcases b.predicate_cases hr base with ⟨hn, -⟩ | ⟨condition, hp, hc⟩
  · exact .inl hn
  · have hw : Tidy ("WHERE".toList ++ ' ' :: condition.toList) :=
      (tidy_of_notMem (by decide) (by decide)).blank hc
    refine .inr ?_
    rw [hp]
    simpa using hw

/-- What follows the head of a read keeps it tidy. -/
theorem tidy_tail (hr : t.record.Built) {cs : List Char} (h : Tidy cs) :
    Tidy (cs ++ b.tail.toList) := by
  have hs := tidy_part (tidy_part h (b.tidy_predicate hr 1)) (b.tidy_orderClause hr)
  have hl : Tidy "LIMIT".toList := tidy_of_notMem (by decide) (by decide)
  have ho : Tidy "OFFSET".toList := tidy_of_notMem (by decide) (by decide)
  have ht := hs.word ((tidy_int b.effectiveLimit).word (tidy_int b.effectiveOffset) ho) hl
  simpa [tail, page] using ht

end Blueprint

/-! ### Reads -/

namespace Table

/-- Whether all reads with a blueprint, or with none, are about the same rows: they have one
condition and the same values, and those that give rows end alike. -/
structure ReadsAlike (t : Table) (b : Option (Blueprint t)) (condition ending : String)
    (values : List Value) : Prop where
  find : (t.find b).statement? = some ⟨"SELECT " ++
    ",".intercalate (t.record.sortedColumns.map Column.column) ++ " FROM " ++ t.record.table ++
      condition ++ ending, values⟩
  select : ∀ c ∈ t.record.columns, (t.select c b).statement? = some ⟨"SELECT " ++
    t.record.table ++ "." ++ c.column ++ " FROM " ++ t.record.table ++ condition ++ ending, values⟩
  count : (t.count b).statement? = some ⟨"SELECT COUNT(*) FROM " ++ t.record.table ++ condition ++
    ";", values⟩

theorem readsAlike (t : Table) (b : Option (Blueprint t)) : t.ReadsAlike b
    (Blueprint.part ((b.getD {}).predicate 1)) (Blueprint.part (b.getD {}).orderClause ++
      (b.getD {}).page) (b.getD {}).values where
  find := by
    simp [find, Plan.statement?, readStatement, Blueprint.tail, Record.findHead,
      Record.columnList, String.append_assoc]
  select c _ := by
    simp [select, Plan.statement?, readStatement, Blueprint.tail, Record.selectHead,
      Record.qualified, String.append_assoc]
  count := rfl

end Table

namespace Request

theorem tidy_head {r : Record} (hr : r.Built) {columns : String} (hc : Tidy columns.toList) :
    Tidy ("SELECT " ++ columns ++ " FROM " ++ r.table).toList := by
  have hs : Tidy "SELECT".toList := tidy_of_notMem (by decide) (by decide)
  have hf : Tidy "FROM".toList := tidy_of_notMem (by decide) (by decide)
  have ht : Tidy r.table.toList := (isWord_of_isSqlName hr.table_name).tidy
  have hw := hs.word (hf.blank ht) hc
  simpa using hw

/-- Reads have no blanks where nothing is. -/
theorem tidy_reads (hr : t.record.Built) {q : Request t} (ho : q.Offered) {b : Blueprint t}
    (hb : q.reads? = some b) {s : Statement} (hs : q.statement? = some s) :
    Tidy s.query.toList := by
  cases q with
  | create es => cases hb
  | write a c value o => cases hb
  | delete o => cases hb
  | find o =>
    cases hb
    cases hs
    have hn : t.record.sortedColumns ≠ [] := fun hn =>
      Record.columns_ne_nil ho (List.perm_nil.mp (hn ▸ t.record.sortedColumns_perm).symm)
    have hc : Tidy (Record.columnList t.record.sortedColumns).toList := by
      rw [Record.columnList, String.toList_intercalate]
      refine tidy_intercalate (fun cs ds hc hd => ?_) (by simpa using hn) fun p hp => ?_
      · exact hc.append (Tidy.append (tidy_of_notMem (by decide) (by decide)) hd)
      · obtain ⟨x, hx, rfl⟩ := List.mem_map.mp hp
        obtain ⟨c, hm, rfl⟩ := List.mem_map.mp hx
        exact (isWord_of_isSqlName
          (hr.column_name c (Record.mem_columns_of_mem_sortedColumns hm))).tidy
    have hh : Tidy t.record.findHead.toList := tidy_head hr hc
    have ht := (o.getD {}).tidy_tail hr hh
    rwa [← String.toList_append] at ht
  | count o =>
    cases hb
    cases hs
    have hc : Tidy "COUNT(*)".toList := tidy_of_notMem (by simp) (by simp)
    have hn : "SELECT " ++ "COUNT(*)" ++ " FROM " = "SELECT COUNT(*) FROM " := by decide +kernel
    have hh : Tidy t.record.countHead.toList := by
      have hh := tidy_head hr hc
      rwa [hn] at hh
    have hp := Blueprint.tidy_part hh ((o.getD {}).tidy_predicate hr 1)
    have he : Tidy ";".toList := tidy_of_notMem (by decide) (by decide)
    have ht := hp.append he
    rwa [← String.toList_append, ← String.toList_append] at ht
  | select c o =>
    cases hb
    cases hs
    have hq : IsQualified (t.record.qualified c.column) :=
      hr.isQualified (Record.mem_columns_of_action ho rfl)
    have hh : Tidy (t.record.selectHead c).toList := tidy_head hr hq.tidy
    have ht := (o.getD {}).tidy_tail hr hh
    rwa [← String.toList_append] at ht

end Request

namespace Table

/-- Of every blueprint, and of none, all reads are about the same rows. Behind their columns they
have the same condition and values, finds and selectors the same order and page too; a part that
does not apply is left out without a trace. The limit is that of the blueprint from one on and else
that of the record, the offset that of the blueprint from zero on and else zero. A read without a
blueprint is one with the default blueprint. -/
theorem reads_agree {d : Declaration} {scope : Scope} {config : Config}
    (h : Record.build d scope config = .ok t.record) (b : Option (Blueprint t)) :
    let used := b.getD {}
    (∃ condition order, t.ReadsAlike b condition (order ++
        " LIMIT " ++ toString (if 1 ≤ used.limit then used.limit else t.record.defaultLimit) ++
        " OFFSET " ++ toString (if 0 ≤ used.offset then used.offset else 0)) used.values ∧
      (condition = "" ∧ used.scope? = none ∧ (∀ s ∈ t.record.slots, used.clause? s = none) ∨
        ∃ text, condition = " WHERE " ++ text ∧ Tidy text.toList) ∧
      (order = "" ∧ (∀ c ∈ t.record.columns, used.orderBy ≠ c.column) ∨
        ∃ c ∈ t.record.columns, used.orderBy = c.column ∧ ∃ direction ∈ ["ASC", "DESC"],
          order = " ORDER BY " ++ t.record.table ++ "." ++ c.column ++ " " ++ direction)) ∧
    (∀ q : Request t, q.Offered → q.reads? = some used →
      ∃ s, q.statement? = some s ∧ Tidy s.query.toList ∧ ∀ truth,
        selects truth (lexemes t.record.dialect 1 s.query.toList) =
          some (used.asks truth 1 && used.keeps truth)) ∧
    t.find none = t.find (some {}) ∧ t.count none = t.count (some {}) ∧
      ∀ c, t.select c none = t.select c (some {}) := by
  intro used
  have hr := Record.built_of_build h
  refine ⟨?texts, fun q ho hb => ?rows, rfl, rfl, fun c => rfl⟩
  case texts =>
    refine ⟨Blueprint.part (used.predicate 1), Blueprint.part used.orderClause, ?_, ?_, ?_⟩
    · have hl : used.effectiveLimit =
          if 1 ≤ used.limit then used.limit else t.record.defaultLimit := by
        unfold Blueprint.effectiveLimit
        split <;> split <;> omega
      have ho : used.effectiveOffset = if 0 ≤ used.offset then used.offset else 0 := by
        unfold Blueprint.effectiveOffset
        split <;> split <;> omega
      have hp := t.readsAlike b
      rw [Blueprint.page, hl, ho] at hp
      simpa only [String.append_assoc] using hp
    · rcases used.predicate_cases hr 1 with ⟨hp, hs, hc⟩ | ⟨text, hp, ht⟩
      · exact .inl ⟨by rw [hp]; rfl, hs, List.filterMap_eq_nil_iff.mp hc⟩
      · refine .inr ⟨text, ?_, ht⟩
        rw [hp, Blueprint.part_of_ne (by simp)]
        exact String.toList_inj.mp (by simp)
    · rcases used.orderClause_cases with ⟨ho, hn⟩ | ⟨c, hc, he, direction, hd, ho⟩
      · exact .inl ⟨by rw [ho]; rfl, hn⟩
      · refine .inr ⟨c, hc, he, direction, hd, ?_⟩
        rw [ho, Blueprint.part_of_ne (by simp)]
        exact String.toList_inj.mp (by simp)
  case rows =>
    have hs : ∀ truth, ∃ s, q.statement? = some s ∧
        selects truth (lexemes t.record.dialect 1 s.query.toList) =
          some (used.asks truth 1 && used.keeps truth) := fun truth =>
      Request.selects_reads truth hr ho hb
    obtain ⟨s, hq, -⟩ := hs fun _ => true
    refine ⟨s, hq, Request.tidy_reads hr ho hb hq, fun truth => ?_⟩
    obtain ⟨o, hqo, hsel⟩ := hs truth
    obtain rfl := Option.some.inj (hq.symm.trans hqo)
    exact hsel

theorem reads_agree_note :
    Record.build (noteDeclaration .postgres) .empty {} = .ok (noteTable .postgres).record ∧
    (∃ text, Tidy text.toList ∧ (noteTable .postgres).ReadsAlike (some (noteBlueprint .postgres))
      (" WHERE " ++ text) " LIMIT 5 OFFSET 0"
      [.int 3, .int 4, .text "a%", .text "%b", .text "?$2", .uint 1, .uint 9]) ∧
    ∃ text, (noteTable .postgres).ReadsAlike none (" WHERE " ++ text) " LIMIT 100 OFFSET 0" [] := by
  have hb := note_build .postgres
  have horder : ∀ c ∈ noteColumns, "" ≠ c.column := by decide
  have hscope (b : Blueprint (noteTable .postgres)) (hu : b.unscoped = false) :
      b.scope? = some "notes.gone_at IS NULL" := by
    rw [Blueprint.scope?, hu]
    decide +kernel
  refine ⟨hb, ?_, ?_⟩
  · obtain ⟨⟨condition, order, ha, hc, ho⟩, -⟩ :=
      reads_agree (t := noteTable .postgres) hb (some (noteBlueprint .postgres))
    obtain ⟨rfl, -⟩ := ho.resolve_right (by
      rintro ⟨c, hc, he, -⟩
      exact horder c hc he)
    obtain ⟨text, rfl, ht⟩ := hc.resolve_left (by
      rintro ⟨-, hs, -⟩
      cases (hscope _ rfl).symm.trans hs)
    refine ⟨text, ht, ?_⟩
    rw [Option.getD_some, noteBlueprint_values] at ha
    exact ha
  · obtain ⟨⟨condition, order, ha, hc, ho⟩, -⟩ := reads_agree (t := noteTable .postgres) hb none
    obtain ⟨rfl, -⟩ := ho.resolve_right (by
      rintro ⟨c, hc, he, -⟩
      exact horder c hc he)
    obtain ⟨text, rfl, -⟩ := hc.resolve_left (by
      rintro ⟨-, hs, -⟩
      cases (hscope _ rfl).symm.trans hs)
    exact ⟨text, ha⟩

end Table
end RecordStore
