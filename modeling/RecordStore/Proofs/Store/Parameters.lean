import RecordStore.Proofs.Sql.Filling
import RecordStore.Proofs.Store.Placeholders
import RecordStore.Proofs.Store.Requests

/-!
Which placeholder takes which value. A request is written with its values in their places; its
statement says the same once the bound values are put where their numbers stand.
-/
namespace RecordStore

open Dialect Sign

variable {t : Table}

/-- The value of a parameter; parameters count from one. -/
def Statement.param? (s : Statement) : Nat → Option Value
  | 0 => none
  | i + 1 => s.params[i]?

/-- A statement with its values in their places. -/
def Statement.filled (s : Statement) (d : Dialect) : List (Sign (Option Value)) :=
  d.filled s.param? 1 s.query.toList

/-! ### Requests with their values -/

/-- A blueprint's predicate with the blueprint's values in order. -/
def Blueprint.inPlaces (b : Blueprint t) : List (Sign (Option Value)) :=
  inOrder (t.record.dialect.signs 1 (Blueprint.part (b.predicate 1)).toList) b.values

/-- What follows the predicate of a read of rows. -/
def Blueprint.orderAndPage (b : Blueprint t) : String := Blueprint.part b.orderClause ++ b.page

/-- A row of an insert: the values of some columns in their order. -/
def Table.rowInPlaces (t : Table) (columns : List Column) (e : t.Entity) :
    List (Sign (Option Value)) :=
  .char '(' :: ([.char ','].intercalate
    ((t.insertValues columns e).map fun v => [.hole (some v)]) ++ [.char ')'])

/-- What a request says, with every value in the place that it is meant for. -/
def Request.inPlaces : Request t → List (Sign (Option Value))
  | create es =>
    chars (t.record.insertHead t.record.insertColumns).toList ++
      ((chars ", ".toList).intercalate (es.map (t.rowInPlaces t.record.insertColumns)) ++
        chars t.record.insertTail.toList)
  | write a c value b =>
    chars (t.record.updateHead a c).toList ++
      ([.hole (some ((t.codec c.name).bind value))] ++ (b.map Blueprint.inPlaces).getD [])
  | delete b => chars t.record.deleteHead.toList ++ ((b.getD {}).inPlaces ++ chars [';'])
  | find b =>
    chars t.record.findHead.toList ++
      ((b.getD {}).inPlaces ++ chars (b.getD {}).orderAndPage.toList)
  | count b => chars t.record.countHead.toList ++ ((b.getD {}).inPlaces ++ chars [';'])
  | select c b =>
    chars (t.record.selectHead c).toList ++
      ((b.getD {}).inPlaces ++ chars (b.getD {}).orderAndPage.toList)

/-! ### Text without placeholders -/

namespace Record

variable {r : Record}

theorem plain_columnList {cs : List Column} (h : ∀ c ∈ cs, Naming.isSqlName c.column = true) :
    Plain (columnList cs).toList := by
  rw [columnList, String.toList_intercalate]
  refine plain_intercalate (by decide) fun us hu => ?_
  obtain ⟨o, ho, rfl⟩ := List.mem_map.mp hu
  obtain ⟨c, hc, rfl⟩ := List.mem_map.mp ho
  exact plain_of_isSqlName (h c hc)

theorem plain_insertHead (hr : r.Built) : Plain (r.insertHead r.insertColumns).toList := by
  have hc : Plain (columnList r.insertColumns).toList := plain_columnList fun c hc =>
    hr.column_name c (mem_columns_of_mem_insertColumns hc)
  simp [insertHead, plain_of_isSqlName hr.table_name, hc]

theorem plain_insertTail (hr : r.Built) : Plain r.insertTail.toList := by
  unfold insertTail insertSuffix
  split
  next hk => simp [plain_of_isSqlName (hr.primaryKey_name _ hk)]
  · decide

theorem plain_updateHead (hr : r.Built) (a : Assignment) {c : Column} (hc : c ∈ r.columns) :
    Plain (r.updateHead a c).toList := by
  have hp : Plain c.column.toList := plain_of_isSqlName (hr.column_name c hc)
  cases a <;> simp [updateHead, Assignment.sqlText, plain_of_isSqlName hr.table_name, hp]

theorem plain_deleteHead (hr : r.Built) : Plain r.deleteHead.toList := by
  simp [deleteHead, plain_of_isSqlName hr.table_name]

theorem plain_findHead (hr : r.Built) : Plain r.findHead.toList := by
  have hc : Plain (columnList r.sortedColumns).toList := plain_columnList fun c hc =>
    hr.column_name c (mem_columns_of_mem_sortedColumns hc)
  simp [findHead, plain_of_isSqlName hr.table_name, hc]

theorem plain_countHead (hr : r.Built) : Plain r.countHead.toList := by
  have hh : Plain "SELECT COUNT(*) FROM ".toList := by decide
  have hc : r.countHead.toList = "SELECT COUNT(*) FROM ".toList ++ r.table.toList :=
    String.toList_append
  exact hc ▸ plain_append.mpr ⟨hh, plain_of_isSqlName hr.table_name⟩

theorem plain_selectHead (hr : r.Built) {c : Column} (hc : c ∈ r.columns) :
    Plain (r.selectHead c).toList := by
  simp [selectHead, plain_of_isSqlName hr.table_name, (hr.isQualified hc).plain]

end Record

namespace Blueprint

variable {b : Blueprint t}

theorem plain_orderAndPage (hr : t.record.Built) : Plain b.orderAndPage.toList := by
  have hd : Plain b.direction.toList := by
    unfold direction
    split <;> decide
  have ho : Plain b.orderClause.toList := by
    unfold orderClause
    split
    next hc =>
      obtain ⟨o, ho, hb⟩ := Record.mem_orderColumns.mp (List.contains_iff_mem.mp hc)
      have hq : Plain (t.record.qualified b.orderBy).toList := hb ▸ (hr.isQualified ho).plain
      simp [hq, hd]
    · exact plain_nil
  have hp : Plain (part b.orderClause).toList := by
    unfold part
    split
    · exact plain_nil
    · simpa using ho
  simp [orderAndPage, page, hp, plain_repr]

theorem endsNumber_orderAndPage : EndsNumber b.orderAndPage.toList := by
  have hp : EndsNumber b.page.toList := by simp [page]
  rw [orderAndPage, String.toList_append]
  unfold part
  split
  · exact hp
  · simp

/-! ### Predicates -/

theorem reads_part (hr : t.record.Built) (base : Nat) :
    Reads t.record.dialect base b.values.length (part (b.predicate base)).toList := by
  have hp := reads_predicate (b := b) hr base
  unfold part
  split
  next he =>
    rw [String.isEmpty_iff.mp he] at hp
    exact hp
  · rw [String.toList_append]
    exact .plain_append (by decide) hp

theorem endsNumber_part (base : Nat) : EndsNumber (part (b.predicate base)).toList := by
  unfold part
  split
  · exact endsNumber_nil
  · simp

variable (b)

theorem texts_default (inclusive : Bool) (n m : Nat) (cs : List Clause) :
    Clause.texts .default inclusive n cs = Clause.texts .default inclusive m cs := by
  have hp (n m count : Nat) : placeholders .default n count = placeholders .default m count := by
    have hq : placeholder .default = fun _ => "?" := rfl
    simp [placeholders, hq, List.map_const']
  induction cs generalizing n m with
  | nil => rfl
  | cons c cs ih =>
    have hc : c.text .default inclusive n = c.text .default inclusive m := by
      cases c <;> simp only [Clause.text, hp n m, placeholder]
    rw [Clause.texts, Clause.texts, hc, ih]

/-- Question marks do not tell where they count from. -/
theorem predicate_default (hd : t.record.dialect = .default) (n m : Nat) :
    b.predicate n = b.predicate m := by
  have hc : (b.conditions n).1 = (b.conditions m).1 := by
    rw [conditions_eq, conditions_eq, hd]
    exact texts_default b.inclusive n m b.clauses
  rw [predicate, predicate, condition, condition, hc]

theorem inOrder_positional (cs : List Char) (vs : List Value) (n m : Nat) :
    inOrder (positional n cs) vs = inOrder (positional m cs) vs := by
  induction cs generalizing n m vs with
  | nil => rfl
  | cons c cs ih =>
    by_cases hc : c = '?'
    · simp only [positional, hc, if_true, inOrder]
      rw [ih]
    · simp only [positional, hc, if_false, inOrder]
      rw [ih]

/-- From any index on a predicate has its values in the same places; numbered placeholders count
from one. -/
theorem fills_part (hr : t.record.Built) {p : Nat → Option Value} {base : Nat}
    (hb : t.record.dialect = .postgres → base = 1)
    (hp : ∀ j < b.values.length, p (base + j) = b.values[j]?) :
    Fills t.record.dialect p base b.values.length (part (b.predicate base)).toList b.inPlaces := by
  have hf := (reads_part (b := b) hr base).fills hp
  have hi : inOrder (t.record.dialect.signs base (part (b.predicate base)).toList) b.values =
      b.inPlaces := by
    cases hd : t.record.dialect with
    | default =>
      rw [inPlaces, hd, b.predicate_default hd base 1]
      exact inOrder_positional _ _ _ _
    | postgres => rw [inPlaces, hd, hb hd]
  rwa [hi] at hf

end Blueprint

/-! ### Rows of inserts -/

namespace Table

variable {p : Nat → Option Value} (columns : List Column)

theorem fills_row {i : Nat} (e : t.Entity)
    (hp : ∀ j < columns.length, p (i * columns.length + 1 + j) = (t.insertValues columns e)[j]?) :
    Fills t.record.dialect p (i * columns.length + 1) columns.length
      (t.insertRow columns.length i).toList (t.rowInPlaces columns e) := by
  have hl : (t.insertValues columns e).length = columns.length := List.length_map _
  have hf := fills_placeholders (d := t.record.dialect) (hl.symm ▸ hp)
  rw [hl] at hf
  have hr := Fills.plain_append (by decide : Plain ['('])
    (hf.append (.plain (by decide : Plain [')'])) (endsNumber_cons.mpr rfl))
  simpa [insertRow, rowInPlaces, String.toList_intercalate] using hr

theorem fills_rows (i : Nat) (es : List t.Entity)
    (hp : ∀ j < (es.flatMap (t.insertValues columns)).length,
      p (i * columns.length + 1 + j) = (es.flatMap (t.insertValues columns))[j]?) :
    Fills t.record.dialect p (i * columns.length + 1)
      (es.flatMap (t.insertValues columns)).length
      (", ".toList.intercalate
        (((List.range' i es.length).map (t.insertRow columns.length)).map String.toList))
      ((chars ", ".toList).intercalate (es.map (t.rowInPlaces columns))) := by
  induction es generalizing i with
  | nil => exact .nil
  | cons e es ih =>
    have hl : (t.insertValues columns e).length = columns.length := List.length_map _
    rw [List.flatMap_cons, List.length_append, hl] at hp ⊢
    have he : ∀ j < columns.length,
        p (i * columns.length + 1 + j) = (t.insertValues columns e)[j]? := by
      intro j hj
      rw [hp j (by omega), List.getElem?_append_left (by omega)]
    have ht : ∀ j < (es.flatMap (t.insertValues columns)).length,
        p ((i + 1) * columns.length + 1 + j) = (es.flatMap (t.insertValues columns))[j]? := by
      intro j hj
      have hs := hp (columns.length + j) (by omega)
      rw [List.getElem?_append_right (by omega), hl, Nat.add_sub_cancel_left] at hs
      rw [← hs]
      congr 1
      rw [Nat.succ_mul]
      omega
    have hrow := fills_row columns e he
    have hrows := ih (i + 1) ht
    have hn : (i + 1) * columns.length + 1 = i * columns.length + 1 + columns.length := by
      rw [Nat.succ_mul]
      omega
    rw [hn] at hrows
    cases es with
    | nil => simpa using hrow
    | cons o es =>
      have hs := hrow.append (.plain_append (by decide : Plain ", ".toList) hrows) (by simp)
      simpa only [List.length_cons, List.range'_succ, List.map_cons, List.intercalate_cons_cons,
        List.append_assoc] using hs

end Table

/-! ### Statements -/

namespace Request

theorem param?_add (s : Statement) (j : Nat) : s.param? (1 + j) = s.params[j]? := by
  rw [Nat.add_comm]
  rfl

theorem fills_create (hr : t.record.Built) (es : List t.Entity) :
    Fills t.record.dialect (t.insert es).param? 1 (t.insert es).params.length
      (t.insert es).query.toList (create es).inPlaces := by
  have hrows := Table.fills_rows t.record.insertColumns 0 es fun j _ => by
    rw [Nat.zero_mul, Nat.zero_add]
    exact param?_add (t.insert es) j
  rw [Nat.zero_mul, Nat.zero_add] at hrows
  have htail := Record.plain_insertTail hr
  have he : EndsNumber t.record.insertTail.toList := by
    unfold Record.insertTail insertSuffix
    split <;> simp
  have hf := Fills.plain_append (Record.plain_insertHead hr) (hrows.append (.plain htail) he)
  simpa [Table.insert, inPlaces, String.toList_intercalate, List.range_eq_range'] using hf

theorem fills_read (hr : t.record.Built) (b : Blueprint t) {head tail : String}
    (hh : Plain head.toList) (ht : Plain tail.toList) (he : EndsNumber tail.toList) (s : Statement)
    (hs : s = ⟨head ++ (Blueprint.part (b.predicate 1) ++ tail), b.values⟩) :
    Fills t.record.dialect s.param? 1 s.params.length s.query.toList
      (chars head.toList ++ (b.inPlaces ++ chars tail.toList)) := by
  have hp : ∀ j < b.values.length, s.param? (1 + j) = b.values[j]? := by
    intro j _
    rw [param?_add, hs]
  have hf := Fills.plain_append hh ((b.fills_part hr (fun _ => rfl) hp).append (.plain ht) he)
  rw [hs] at hf ⊢
  simpa using hf

theorem readStatement_eq (head : String) (b : Option (Blueprint t)) : t.readStatement head b =
    ⟨head ++ (Blueprint.part ((b.getD {}).predicate 1) ++ (b.getD {}).orderAndPage),
      (b.getD {}).values⟩ := by
  simp [Table.readStatement, Blueprint.tail, Blueprint.orderAndPage, String.append_assoc]

/-- The predicate of an update, if the update has a blueprint. -/
theorem fills_part? (hr : t.record.Built) (b : Option (Blueprint t)) {p : Nat → Option Value}
    {base : Nat} (hb : t.record.dialect = .postgres → base = 1)
    (hp : ∀ j < ((b.map Blueprint.values).getD []).length,
      p (base + j) = ((b.map Blueprint.values).getD [])[j]?) :
    Fills t.record.dialect p base ((b.map Blueprint.values).getD []).length
      ((b.map fun b => Blueprint.part (b.predicate base)).getD "").toList
      ((b.map Blueprint.inPlaces).getD []) := by
  cases b with
  | none => exact .nil
  | some b => exact b.fills_part hr hb hp

theorem endsNumber_part? (b : Option (Blueprint t)) (base : Nat) :
    EndsNumber ((b.map fun b => Blueprint.part (b.predicate base)).getD "").toList := by
  cases b with
  | none => exact endsNumber_nil
  | some b => exact Blueprint.endsNumber_part base

variable {a : Assignment} {c : Column} (value : t.Cell c.name) (b : Option (Blueprint t))

theorem update_default (hd : t.record.dialect = .default) :
    t.update a c value b = ⟨t.record.updateHead a c ++ t.record.dialect.placeholder 1 ++
        (b.map fun b => Blueprint.part (b.predicate 2)).getD "",
      (t.codec c.name).bind value :: (b.map Blueprint.values).getD []⟩ := by
  simp [Table.update, hd, bindsTargetLast]

theorem update_postgres (hd : t.record.dialect = .postgres) :
    t.update a c value b = ⟨t.record.updateHead a c ++
        t.record.dialect.placeholder (((b.map Blueprint.values).getD []).length + 1) ++
        (b.map fun b => Blueprint.part (b.predicate 1)).getD "",
      (b.map Blueprint.values).getD [] ++ [(t.codec c.name).bind value]⟩ := by
  simp [Table.update, hd, bindsTargetLast]

/-- Where question marks take parameters in turn the new value is the first of them. -/
theorem fills_update_default (hr : t.record.Built) (hd : t.record.dialect = .default)
    (hc : c ∈ t.record.columns) {s : Statement} (hs : s = t.update a c value b) :
    Fills t.record.dialect s.param? 1 s.params.length s.query.toList
      (write a c value b).inPlaces := by
  rw [update_default value b hd] at hs
  have hv : s.param? 1 = some ((t.codec c.name).bind value) := by rw [hs]; rfl
  have hp : ∀ j < ((b.map Blueprint.values).getD []).length,
      s.param? (1 + 1 + j) = ((b.map Blueprint.values).getD [])[j]? := by
    intro j _
    rw [Nat.add_assoc, param?_add, hs, Nat.add_comm 1 j]
    rfl
  have hpart := fills_part? hr b (fun h => absurd (hd.symm.trans h) (by decide)) hp
  have hf := Fills.plain_append (Record.plain_updateHead hr a hc)
    ((hv ▸ Fills.placeholder (p := s.param?)).append hpart (endsNumber_part? b _))
  rw [Nat.add_comm 1] at hf
  rw [hs] at hf ⊢
  simpa [inPlaces] using hf

/-- Where parameters have numbers the new value has the last one, and stands first in the text. -/
theorem filled_update_postgres (hr : t.record.Built) (hd : t.record.dialect = .postgres)
    (hc : c ∈ t.record.columns) {s : Statement} (hs : s = t.update a c value b) :
    s.filled t.record.dialect = (write a c value b).inPlaces ∧
      t.record.dialect.places 1 s.query.toList =
        s.params.length :: List.range' 1 ((b.map Blueprint.values).getD []).length := by
  rw [update_postgres value b hd] at hs
  generalize hvs : (b.map Blueprint.values).getD [] = values at hs ⊢
  generalize hpt : (b.map fun b => Blueprint.part (b.predicate 1)).getD "" = part at hs
  have hp : ∀ j < values.length, s.param? (1 + j) = values[j]? := by
    intro j hj
    rw [param?_add, hs]
    exact List.getElem?_append_left hj
  have hm : s.param? (values.length + 1) = some ((t.codec c.name).bind value) := by
    rw [hs]
    simp [Statement.param?]
  have hpart := fills_part? hr b (fun _ => rfl) (hvs ▸ hp)
  have he := endsNumber_part? b 1
  rw [hvs, hpt] at hpart
  rw [hpt] at he
  have hq : s.query.toList = (t.record.updateHead a c).toList ++
      ((t.record.dialect.placeholder (values.length + 1)).toList ++ part.toList) := by
    rw [hs]
    simp
  have hsigns : t.record.dialect.signs 1 s.query.toList = chars (t.record.updateHead a c).toList ++
      .hole (values.length + 1) :: t.record.dialect.signs 1 part.toList := by
    have hn (n m : Nat) (cs : List Char) :
        t.record.dialect.signs n cs = t.record.dialect.signs m cs := by
      rw [hd]
      rfl
    rw [hq, signs_plain (Record.plain_updateHead hr a hc), hn 1 (values.length + 1),
      signs_placeholder he, hn _ 1]
  constructor
  · have hf := hpart.filled_eq
    unfold Dialect.filled at hf
    rw [Statement.filled, Dialect.filled, hsigns, List.map_append, map_chars, List.map_cons, hf,
      map, hm]
    rfl
  · rw [places, hsigns, holes_append, holes_chars, List.nil_append, holes_hole]
    have hl := hpart.places_eq
    unfold places at hl
    rw [hl, hs]
    simp

theorem hasConditions_iff {b : Blueprint t} : b.hasConditions = true ↔ b.clauses ≠ [] := by
  rw [Blueprint.hasConditions, Blueprint.conditions_isEmpty]
  simp

theorem part_predicate {b : Blueprint t} (h : b.clauses ≠ []) (base : Nat) :
    Blueprint.part (b.predicate base) = " " ++ b.predicate base := by
  have he : b.clauses.isEmpty = false := by simpa using h
  have hp : (b.predicate base).isEmpty = false := by
    unfold Blueprint.predicate
    rw [Blueprint.conditions_isEmpty, he]
    split
    · simp only [Bool.false_eq_true, if_false]
      split <;> simp
    · simp
  simp [Blueprint.part, hp]

theorem create_statement {es : List t.Entity} {s : Statement}
    (h : (t.create es).statement? = some s) : t.insert es = s := by
  unfold Table.create at h
  split at h
  · cases h
  · cases h
    rfl

theorem delete_statement {b : Option (Blueprint t)} {s : Statement}
    (h : (t.delete b).statement? = some s) :
    s = ⟨t.record.deleteHead ++ (Blueprint.part ((b.getD {}).predicate 1) ++ ";"),
      (b.getD {}).values⟩ := by
  unfold Table.delete at h
  split at h
  · cases h
  next o ho =>
    obtain ⟨rfl, hc⟩ := Option.filter_eq_some_iff.mp ho
    cases h
    rw [Option.getD_some, part_predicate (hasConditions_iff.mp hc)]
    simp [String.append_assoc]

end Request

/-- How the placeholders of a statement and its parameters go together. -/
structure Statement.Binds (s : Statement) (d : Dialect) (inPlaces : List (Sign (Option Value))) :
    Prop where
  /-- Every value is put in the place that it is meant for. -/
  filled_eq : s.filled d = inPlaces
  /-- Question marks take the parameters in turn, and all of them. -/
  marks : d = .default → s.query.toList.count '?' = s.params.length ∧
    places .default 1 s.query.toList = List.range' 1 s.params.length
  /-- Every parameter has one numbered placeholder. -/
  numbers : d = .postgres →
    (places .postgres 1 s.query.toList).Perm (List.range' 1 s.params.length)

theorem Dialect.Fills.binds {d : Dialect} {s : Statement} {out : List (Sign (Option Value))}
    (h : Fills d s.param? 1 s.params.length s.query.toList out) : s.Binds d out where
  filled_eq := h.filled_eq
  marks hd := by
    have hp := h.places_eq
    rw [hd] at hp
    exact ⟨by rw [← length_places_default 1, hp, List.length_range'], hp⟩
  numbers hd := by
    have hp := h.places_eq
    rw [hd] at hp
    exact .of_eq hp

namespace Request

theorem binds_write (hr : t.record.Built) (a : Assignment) {c : Column} (hc : c ∈ t.record.columns)
    (value : t.Cell c.name) (b : Option (Blueprint t)) :
    (t.update a c value b).Binds t.record.dialect (write a c value b).inPlaces := by
  cases hd : t.record.dialect with
  | default => exact hd ▸ (fills_update_default value b hr hd hc rfl).binds
  | postgres =>
    obtain ⟨hf, hp⟩ := filled_update_postgres value b hr hd hc (a := a) rfl
    rw [hd] at hf hp
    refine ⟨hf, fun h => absurd h (by decide), fun _ => ?_⟩
    rw [hp, update_postgres value b hd, List.length_append, List.length_singleton,
      List.range'_concat]
    simpa [Nat.add_comm] using (List.perm_append_singleton _ _).symm

theorem binds_statement (hr : t.record.Built) {q : Request t} (ho : q.Offered) {s : Statement}
    (hs : q.statement? = some s) : s.Binds t.record.dialect q.inPlaces := by
  have he : EndsNumber ";".toList := by decide
  cases q with
  | create es =>
    exact create_statement hs ▸ (fills_create hr es).binds
  | write a c value b =>
    cases hs
    exact binds_write hr a (Record.mem_columns_of_action ho rfl) value b
  | delete b =>
    exact (fills_read hr _ (Record.plain_deleteHead hr) (by decide) he s
      (delete_statement hs)).binds
  | find b =>
    cases hs
    exact (fills_read hr _ (Record.plain_findHead hr) (Blueprint.plain_orderAndPage hr)
      Blueprint.endsNumber_orderAndPage _ (readStatement_eq _ b)).binds
  | count b =>
    cases hs
    exact (fills_read hr _ (Record.plain_countHead hr) (by decide) he _
      (by simp [String.append_assoc])).binds
  | select c b =>
    cases hs
    have hh := Record.plain_selectHead hr (Record.mem_columns_of_action ho rfl)
    exact (fills_read hr _ hh (Blueprint.plain_orderAndPage hr)
      Blueprint.endsNumber_orderAndPage _ (readStatement_eq _ b)).binds

/-- Every statement that a store sends binds a value for each placeholder, and the value that the
placeholder is meant for. The new value of an update is bound first where placeholders are question
marks, and last where they are numbered; it stands first in the text all the same. -/
theorem statement_binds {d : Declaration} {scope : Scope} {config : Config}
    (h : Record.build d scope config = .ok t.record) {q : Request t} (ho : q.Offered)
    {s : Statement} (hs : q.statement? = some s) :
    s.Binds t.record.dialect q.inPlaces ∧
      ∀ a c value b, q = .write a c value b →
        let bound := (t.codec c.name).bind value
        let values := (b.map Blueprint.values).getD []
        (t.record.dialect = .default → s.params = bound :: values) ∧
        (t.record.dialect = .postgres → s.params = values ++ [bound] ∧
          places .postgres 1 s.query.toList = s.params.length :: List.range' 1 values.length) := by
  have hr := Record.built_of_build h
  refine ⟨binds_statement hr ho hs, ?_⟩
  rintro a c value b rfl bound values
  cases hs
  refine ⟨fun hd => by rw [update_default value b hd], fun hd => ?_⟩
  have hc : c ∈ t.record.columns := Record.mem_columns_of_action ho rfl
  obtain ⟨-, hp⟩ := filled_update_postgres value b hr hd hc (a := a) rfl
  rw [hd] at hp
  exact ⟨by rw [update_postgres value b hd], hp⟩

/-- Adding flags to some notes. -/
theorem statement_binds_note :
    let flags : Column := noteColumns[3]
    let add (d : Dialect) : Request (noteTable d) :=
      .write .add flags ((noteTable d).initialEntity flags.name) (some (noteBlueprint d))
    ∀ d, (add d).Offered ∧ ∃ s, (add d).statement? = some s ∧ s.Binds d (add d).inPlaces ∧
      (d = .default → s.params = .uint 0 :: (noteBlueprint d).values) ∧
      (d = .postgres → s.params = (noteBlueprint d).values ++ [.uint 0] ∧
        places .postgres 1 s.query.toList = [8, 1, 2, 3, 4, 5, 6, 7]) := by
  intro flags add d
  have ho : (add d).Offered := by
    have hf : flags ∈ noteColumns.filter Column.isWritable :=
      List.mem_filter.mpr ⟨List.getElem_mem _, rfl⟩
    have ha : Action.write .add flags ∈ (noteColumns.filter Column.isWritable).flatMap
        fun c => (Assignment.all c).map (.write · c) :=
      List.mem_flatMap.mpr ⟨flags, hf, by simp [flags, noteColumns, Assignment.all]⟩
    exact List.mem_append_left _ (List.mem_append_left _ (List.mem_append_right _ ha))
  obtain ⟨hb, hw⟩ := statement_binds (t := noteTable d) (note_build d) ho (s := _) rfl
  obtain ⟨hd, hp⟩ := hw .add flags _ _ rfl
  have hv : ((noteTable d).codec flags.name).bind ((noteTable d).initialEntity flags.name) =
      .uint 0 := by
    cases d <;> decide +kernel
  rw [hv] at hd hp
  refine ⟨ho, _, rfl, hb, hd, fun h => ?_⟩
  obtain ⟨hs, hn⟩ := hp h
  refine ⟨hs, ?_⟩
  rw [hn, hs]
  simp [noteBlueprint_values, List.range']

end Request
end RecordStore
