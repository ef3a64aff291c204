import RecordStore.Proofs.Store.Requests
import RecordStore.Proofs.Store.Scope

/-!
Which rows reads give. After its head a read has a predicate, and an order and a page that drop no
condition; so the scope of a blueprint decides about deleted rows in every read.
-/
namespace RecordStore

variable {d : Dialect} {n : Nat}

/-! ### Orders and pages -/

theorem isNumber_repr (m : Nat) : isNumber m.repr = true := by
  refine List.all_eq_true.mpr fun c hc => ?_
  rw [Nat.toList_repr] at hc
  exact Nat.isDigit_of_mem_toDigits (by decide) (by decide) hc

theorem afterNumber_int (i : Int) {rest : List Char} (hr : EndsWord rest) :
    afterNumber (lexemes d n ((toString i).toList ++ rest)) = some (lexemes d n rest) := by
  cases i with
  | ofNat m =>
    have ht : toString (Int.ofNat m) = toString m := rfl
    rw [ht, lexemes_number m hr]
    simp [afterNumber, isNumber_repr]
  | negSucc m =>
    have ht : toString (Int.negSucc m) = "-" ++ toString (m + 1) := rfl
    have hm : ("-" ++ toString (m + 1)).toList ++ rest =
        '-' :: ((toString (m + 1)).toList ++ rest) := by
      simp
    rw [ht, hm, lexemes_mark (by decide) (by decide) (by decide), lexemes_number _ hr]
    simp [afterNumber, isNumber_repr]

theorem isTail_of_isPage {ls : List Lexeme} (h : isPage ls = true) : isTail ls = true := by
  unfold isTail
  split
  · simp [isPage, isEnd] at h
  · simp [isPage, isEnd] at h
  · exact h

namespace Blueprint

variable {t : Table} (b : Blueprint t)

theorem isPage_page : isPage (lexemes d n b.page.toList) = true := by
  have ho : (" OFFSET " ++ toString b.effectiveOffset).toList = ' ' ::
      (Keyword.offset.text.toList ++ ' ' :: ((toString b.effectiveOffset).toList ++ [])) := by
    simp [Keyword.text]
  have hp : b.page.toList = ' ' :: (Keyword.limit.text.toList ++
      ' ' :: ((toString b.effectiveLimit).toList ++
        (" OFFSET " ++ toString b.effectiveOffset).toList)) := by
    simp [page, Keyword.text]
  rw [hp, lexemes_blank, lexemes_keyword .limit endsWord_blank, lexemes_blank, isPage, ho,
    afterNumber_int _ endsWord_blank, lexemes_blank, lexemes_keyword .offset endsWord_blank,
    lexemes_blank]
  simp only
  rw [afterNumber_int _ endsWord_nil, lexemes_nil]
  rfl

theorem isQualified_of_mem_orderColumns (hr : t.record.Built) {c : String}
    (h : c ∈ t.record.orderColumns) : IsQualified (t.record.qualified c) := by
  obtain ⟨o, ho, rfl⟩ := Record.mem_orderColumns.mp h
  exact hr.isQualified ho

/-- What follows the predicate of a read. -/
theorem isTail_order_page (hr : t.record.Built) :
    isTail (lexemes d n (part b.orderClause ++ b.page).toList) = true := by
  by_cases ho : b.orderBy ∈ t.record.orderColumns
  · have hn := (isQualified_of_mem_orderColumns hr ho).isName
    obtain ⟨k, hk, ht⟩ : ∃ k : Keyword, (k = .asc ∨ k = .desc) ∧ b.direction = k.text := by
      unfold direction
      split
      · exact ⟨.desc, .inr rfl, rfl⟩
      · exact ⟨.asc, .inl rfl, rfl⟩
    have hc : (part b.orderClause ++ b.page).toList = ' ' :: (Keyword.order.text.toList ++
        ' ' :: (Keyword.by.text.toList ++ ' ' :: ((t.record.qualified b.orderBy).toList ++
          ' ' :: (k.text.toList ++ b.page.toList)))) := by
      simp [orderClause, ho, part, ht, Keyword.text]
    have he : EndsWord b.page.toList := by simp [page, isWordChar]
    rw [hc, lexemes_blank, lexemes_keyword .order endsWord_blank, lexemes_blank,
      lexemes_keyword .by endsWord_blank, lexemes_blank, hn _ _ _ endsWord_blank, lexemes_blank,
      lexemes_keyword k he]
    rcases hk with rfl | rfl
    · exact b.isPage_page
    · exact b.isPage_page
  · have hc : (part b.orderClause ++ b.page).toList = b.page.toList := by
      simp [orderClause, ho, part]
    rw [hc]
    exact isTail_of_isPage b.isPage_page

theorem lexemes_part (s : String) {rest : List Char} :
    lexemes d n ((part s).toList ++ rest) = lexemes d n (s.toList ++ rest) := by
  unfold part
  split
  next hs => simp [String.isEmpty_iff.mp hs]
  next =>
    rw [String.toList_append, List.append_assoc]
    exact lexemes_blank

theorem endsWord_part (s : String) {rest : List Char} (hr : EndsWord rest) :
    EndsWord ((part s).toList ++ rest) := by
  unfold part
  split
  · exact hr
  · rw [String.toList_append, List.append_assoc]
    exact endsWord_blank

end Blueprint

/-! ### Heads -/

theorem phrase_from : Phrase " FROM " [.keyword .from] where
  endsWord _ := endsWord_blank
  lexemes_append d _ _ := by cases d <;> rfl

theorem lexemes_select {rest : List Char} :
    lexemes d n ("SELECT ".toList ++ rest) = .keyword .select :: lexemes d n rest := by
  cases d <;> rfl

/-- After a list of columns comes the table. -/
theorem afterColumns_list {cs : List (List Char)} {table rest : List Char}
    (hc : ∀ c ∈ cs, IsWord c) (hn : cs ≠ []) (ht : IsWord table) (hr : EndsWord rest) :
    afterColumns (lexemes d n ([','].intercalate cs ++ (" FROM ".toList ++ (table ++ rest)))) =
      some (lexemes d n rest) := by
  induction cs with
  | nil => exact absurd rfl hn
  | cons c cs ih =>
    have hw : IsWord c := hc c List.mem_cons_self
    cases cs with
    | nil =>
      rw [List.intercalate_singleton, lexemes_word hw (phrase_from.endsWord _),
        phrase_from.lexemes_append, lexemes_word ht hr]
      simp [afterColumns, isSome_name?_ofWord]
    | cons o cs =>
      have hi := ih (fun c h => hc c (List.mem_cons_of_mem _ h)) (List.cons_ne_nil _ _)
      have he (us : List Char) : EndsWord (',' :: us) := endsWord_cons.mpr ⟨by decide, by decide⟩
      rw [List.intercalate_cons_cons, List.append_assoc, List.append_assoc, List.singleton_append,
        lexemes_word hw (he _), lexemes_mark (by decide) (by decide) (by decide), afterColumns,
        if_pos (isSome_name?_ofWord c), hi]

theorem afterTable_of_afterColumns {ls rest : List Lexeme} (h : afterColumns ls = some rest) :
    afterTable (.keyword .select :: ls) = some rest := by
  unfold afterTable
  split
  next he =>
    cases he
    simp [afterColumns] at h
  next he =>
    cases he
    exact h
  next he => exact absurd rfl (he ls)

/-! ### Reads -/

namespace Request

variable {t : Table} {b : Blueprint t} (truth : Atom → Bool)

/-- Columns of a table, by themselves or with it, and then the table. -/
theorem afterTable_columns (hr : t.record.Built) {cs : List String} (hn : cs ≠ [])
    (hc : ∀ c ∈ cs, IsWord c.toList) {rest : List Char} (he : EndsWord rest) :
    afterTable (lexemes d n (("SELECT " ++ ",".intercalate cs ++ " FROM " ++ t.record.table).toList
      ++ rest)) = some (lexemes d n rest) := by
  have hl : ("SELECT " ++ ",".intercalate cs ++ " FROM " ++ t.record.table).toList ++ rest =
      "SELECT ".toList ++ ([','].intercalate (cs.map String.toList) ++
        (" FROM ".toList ++ (t.record.table.toList ++ rest))) := by
    simp [String.toList_intercalate]
  rw [hl, lexemes_select]
  refine afterTable_of_afterColumns (afterColumns_list ?_ (by simpa using hn)
    (isWord_of_isSqlName hr.table_name) he)
  intro c hm
  obtain ⟨o, ho, rfl⟩ := List.mem_map.mp hm
  exact hc o ho

theorem afterTable_count (hr : t.record.Built) {rest : List Char} (he : EndsWord rest) :
    afterTable (lexemes d n (t.record.countHead.toList ++ rest)) = some (lexemes d n rest) := by
  have hl : t.record.countHead.toList ++ rest = "SELECT ".toList ++ (Keyword.count.text.toList ++
      '(' :: '*' :: ')' :: (" FROM ".toList ++ (t.record.table.toList ++ rest))) := by
    have hc : t.record.countHead.toList =
        "SELECT COUNT(*) FROM ".toList ++ t.record.table.toList := String.toList_append
    rw [hc, List.append_assoc]
    rfl
  have ho (us : List Char) : EndsWord ('(' :: us) := endsWord_cons.mpr ⟨by decide, by decide⟩
  have hm (us : List Char) : lexemes d n ('(' :: '*' :: ')' :: us) =
      .mark '(' :: .mark '*' :: .mark ')' :: lexemes d n us := by
    cases d <;> rfl
  rw [hl, lexemes_select, lexemes_keyword .count (ho _), hm, phrase_from.lexemes_append,
    lexemes_word (isWord_of_isSqlName hr.table_name) he]
  exact if_pos (isSome_name?_ofWord _)

/-- After its head a read has the predicate, and then nothing that concerns a row. -/
theorem selects_of_afterTable (hr : t.record.Built) {head tail : String} (hw : EndsWord tail.toList)
    (ht : ∀ n, isTail (lexemes t.record.dialect n tail.toList) = true)
    (hh : ∀ rest, EndsWord rest → afterTable (lexemes t.record.dialect 1 (head.toList ++ rest)) =
      some (lexemes t.record.dialect 1 rest)) :
    selects truth (lexemes t.record.dialect 1
        (head ++ (Blueprint.part (b.predicate 1) ++ tail)).toList) =
      some (b.asks truth 1 && b.keeps truth) := by
  rw [String.toList_append, String.toList_append, selects,
    hh _ (Blueprint.endsWord_part _ hw), Option.bind_some, Blueprint.lexemes_part]
  exact b.holds_predicate truth hr 1 hw ht

theorem selects_tail (hr : t.record.Built) {head : String}
    (hh : ∀ rest, EndsWord rest → afterTable (lexemes t.record.dialect 1 (head.toList ++ rest)) =
      some (lexemes t.record.dialect 1 rest)) :
    selects truth (lexemes t.record.dialect 1 (head ++ b.tail).toList) =
      some (b.asks truth 1 && b.keeps truth) := by
  have hp : EndsWord b.page.toList := by simp [Blueprint.page, isWordChar]
  have hw : EndsWord (Blueprint.part b.orderClause ++ b.page).toList := by
    rw [String.toList_append]
    exact Blueprint.endsWord_part _ hp
  rw [Blueprint.tail, String.append_assoc]
  exact selects_of_afterTable truth hr hw (fun n => b.isTail_order_page hr) hh

/-- A read gives the rows that its blueprint asks for and its scope keeps. -/
theorem selects_reads (hr : t.record.Built) {q : Request t} (ho : q.Offered)
    (hb : q.reads? = some b) : ∃ s, q.statement? = some s ∧
      selects truth (lexemes t.record.dialect 1 s.query.toList) =
        some (b.asks truth 1 && b.keeps truth) := by
  cases q with
  | create es => cases hb
  | write a c value o => cases hb
  | delete o => cases hb
  | find o =>
    cases hb
    refine ⟨_, rfl, selects_tail truth hr fun rest he => afterTable_columns hr ?_ ?_ he⟩
    · have hn := Record.columns_ne_nil ho
      rw [← List.length_pos_iff] at hn ⊢
      simpa [Record.sortedColumns] using hn
    · intro c hc
      obtain ⟨o, ho, rfl⟩ := List.mem_map.mp hc
      exact isWord_of_isSqlName (hr.column_name o (Record.mem_columns_of_mem_sortedColumns ho))
  | count o =>
    cases hb
    have hw : EndsWord ";".toList := by simp [isWordChar]
    have hs := selects_of_afterTable (b := o.getD {}) truth hr hw
      (fun n => by cases t.record.dialect <;> rfl) fun rest he => afterTable_count hr he
    refine ⟨_, rfl, ?_⟩
    simpa [Table.count, String.append_assoc] using hs
  | select c o =>
    cases hb
    have hq : IsQualified (t.record.qualified c.column) :=
      hr.isQualified (Record.mem_columns_of_action ho rfl)
    refine ⟨_, rfl, selects_tail truth hr fun rest he => ?_⟩
    have hw : ∀ o ∈ [t.record.qualified c.column], IsWord o.toList := by simpa using hq.isWord
    have hc := afterTable_columns (d := t.record.dialect) (n := 1) hr (by simp) hw he
    simpa [Record.selectHead] using hc

end Request

namespace Blueprint

variable {t : Table}

theorem predicate_eq_empty (b : Blueprint t) (base : Nat) (hs : b.scope? = none) :
    b.predicate base = "" ↔ ∀ s ∈ t.record.slots, b.clause? s = none := by
  rw [← List.filterMap_eq_nil_iff]
  change _ ↔ b.clauses = []
  unfold predicate
  rw [hs, conditions_isEmpty]
  cases hc : b.clauses with
  | nil => simp
  | cons c cs => simp

theorem keeps_of_softDeleteColumn {b : Blueprint t} {c : Column} {truth : Atom → Bool}
    (hu : b.unscoped = false) (hc : t.record.softDeleteColumn = some c.column) :
    b.keeps truth = truth (.absent (t.record.qualified c.column)) := by
  simp [keeps, hu, hc]

theorem scope?_eq_none {b : Blueprint t} (h : b.unscoped = true ∨ t.record.softDelete = none) :
    b.scope? = none := by
  rcases h with h | h
  · simp [scope?, h]
  · simp [scope?, Record.softDeleteColumn, h]

/-- Under every truth of its parts a predicate asks what the caller asks; it asks too that a row is
not deleted, unless deleted rows count or rows are not deleted softly. Then alone it is empty if no
slot asks for anything. So reads give no deleted rows unless their blueprint says so. -/
theorem predicate_hides_deleted {d : Declaration} {scope : Scope} {config : Config}
    (h : Record.build d scope config = .ok t.record) (truth : Atom → Bool) :
    (∀ (b : Blueprint t) (base : Nat) (f : String), b.unscoped = false →
      t.record.softDelete = some f → ∃ c ∈ t.record.columns, c.name = f ∧
        RecordStore.holds truth (lexemes t.record.dialect base (b.predicate base).toList) =
          some (b.asks truth base && truth (.absent (t.record.qualified c.column)))) ∧
    (∀ (b : Blueprint t) (base : Nat), b.unscoped = true ∨ t.record.softDelete = none →
      RecordStore.holds truth (lexemes t.record.dialect base (b.predicate base).toList) =
          some (b.asks truth base) ∧
        (b.predicate base = "" ↔ ∀ s ∈ t.record.slots, b.clause? s = none)) ∧
    ∀ (q : Request t) (b : Blueprint t) (f : String), q.Offered → q.reads? = some b →
      b.unscoped = false → t.record.softDelete = some f →
        ∃ c ∈ t.record.columns, c.name = f ∧ ∃ s, q.statement? = some s ∧
          selects truth (lexemes t.record.dialect 1 s.query.toList) =
            some (b.asks truth 1 && truth (.absent (t.record.qualified c.column))) := by
  have hr := Record.built_of_build h
  have hp (b : Blueprint t) (base : Nat) :
      RecordStore.holds truth (lexemes t.record.dialect base (b.predicate base).toList) =
        some (b.asks truth base && b.keeps truth) := by
    have he := b.holds_predicate truth hr base endsWord_nil fun n => by
      rw [lexemes_nil]
      rfl
    rwa [List.append_nil] at he
  refine ⟨fun b base f hu hf => ?_, fun b base hu => ?_, fun q b f ho hb hu hf => ?_⟩
  · obtain ⟨c, hc, hcf, hs⟩ := hr.softDelete_column f hf
    exact ⟨c, hc, hcf, by rw [hp, keeps_of_softDeleteColumn hu hs]⟩
  · have hs : b.scope? = none := scope?_eq_none hu
    refine ⟨?_, b.predicate_eq_empty base hs⟩
    rw [hp, keeps_of_scope?_eq_none truth hs, Bool.and_true]
  · obtain ⟨c, hc, hcf, hs⟩ := hr.softDelete_column f hf
    obtain ⟨s, hq, hsel⟩ := Request.selects_reads truth hr ho hb
    exact ⟨c, hc, hcf, s, hq, by rw [hsel, keeps_of_softDeleteColumn hu hs]⟩

/-- A deleted note of which all else holds that is asked: alone its scope keeps it from being
read. -/
theorem predicate_hides_deleted_note :
    let truth (a : Atom) : Bool := a != .absent "notes.gone_at"
    let b := noteBlueprint .postgres
    let all := { b with unscoped := true }
    b.unscoped = false ∧ (note .postgres).softDelete = some "gone" ∧
      RecordStore.holds truth (lexemes .postgres 3 (b.predicate 3).toList) = some false ∧
      RecordStore.holds truth (lexemes .postgres 3 (all.predicate 3).toList) = some true ∧
      (Request.find (t := noteTable .postgres) none).Offered ∧
      ∃ s, (Request.find (t := noteTable .postgres) none).statement? = some s ∧
        selects truth (lexemes .postgres 1 s.query.toList) = some false := by
  intro truth b all
  obtain ⟨hp, ha, hq⟩ :=
    predicate_hides_deleted (t := noteTable .postgres) (note_build .postgres) truth
  have hk : ∀ c ∈ noteColumns, c.name = "gone" →
      truth (.absent ((noteTable .postgres).record.qualified c.column)) = false := by
    decide
  have hf : (Request.find (t := noteTable .postgres) none).Offered := by
    simp [Request.Offered, Request.action, Record.actions, noteTable, Table.ofTypes, note,
      noteColumns, Capabilities.all]
  refine ⟨rfl, rfl, ?_, ?_, hf, ?_⟩
  · obtain ⟨c, hc, hn, hs⟩ := hp b 3 "gone" rfl rfl
    rw [hk c hc hn, Bool.and_false] at hs
    exact hs
  · have hs := (ha all 3 (.inl rfl)).1
    have hk : all.asks truth 3 = true := by decide +kernel
    rw [hk] at hs
    exact hs
  · obtain ⟨c, hc, hn, s, hs, hsel⟩ := hq (.find none) {} "gone" hf rfl rfl rfl
    rw [hk c hc hn, Bool.and_false] at hsel
    exact ⟨s, hs, hsel⟩

end Blueprint
end RecordStore
