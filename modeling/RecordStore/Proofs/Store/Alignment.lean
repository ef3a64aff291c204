import Mathlib.Data.List.Forall2
import RecordStore.Proofs.Schema.ColumnOrder
import RecordStore.Proofs.Store.Exchanges
import RecordStore.Proofs.Store.Placeholders
import RecordStore.Store.ScriptedDriver

/-!
Fields, columns and places. What is bound and what is read goes by the places of columns in lists of
columns, whatever the order in which fields are declared, and rows of bound values are read as the
records that they are from.
-/
namespace RecordStore

variable {σ α : Type}

/-! ### Rows of cursors -/

namespace Cursor

def rows : Cursor σ → List Row
  | row r _ rest => r :: rest.rows
  | stop _ _ => []

/-- What a cursor fails with after its rows, if it does. -/
def failure? : Cursor σ → Option StoreError
  | row _ _ rest => rest.failure?
  | stop failure _ => failure

end Cursor

namespace Reading

variable {read : Row → Except StoreError α} {cursor : Cursor σ}

/-- A list is read exactly if all rows are. -/
theorem runAll_eq_ok {before as : List α} :
    (runAll (fun before row => (read row).map fun a => before ++ [a]) before cursor).1 = .ok as ↔
      cursor.failure? = none ∧ ∃ bs, as = before ++ bs ∧
        List.Forall₂ (fun row a => read row = .ok a) cursor.rows bs := by
  induction cursor generalizing before with
  | stop failure state =>
    cases failure with
    | none => simp [runAll, Cursor.failure?, Cursor.rows, eq_comm]
    | some e => simp [runAll, Cursor.failure?]
  | row r state rest ih =>
    rw [runAll, Cursor.failure?, Cursor.rows]
    cases hr : read r with
    | error e => simp [Except.map, List.forall₂_cons_left_iff, hr]
    | ok a =>
      refine ih.trans (and_congr_right fun _ => ?_)
      constructor
      · rintro ⟨bs, rfl, hbs⟩
        exact ⟨a :: bs, by simp, .cons hr hbs⟩
      · rintro ⟨cs, rfl, hcs⟩
        obtain ⟨b, bs, hb, hbs, rfl⟩ := List.forall₂_cons_left_iff.mp hcs
        obtain rfl : a = b := Except.ok.inj (hr.symm.trans hb)
        exact ⟨bs, by simp, hbs⟩

/-- What goes wrong is that a row, the first one, cannot be read, or that the rows have no end. -/
theorem failure?_runAll (before : List α) :
    RecordStore.failure?
        (runAll (fun before row => (read row).map fun a => before ++ [a]) before cursor).1 =
      (cursor.rows.findSome? fun row => RecordStore.failure? (read row)).or cursor.failure? := by
  induction cursor generalizing before with
  | stop failure state => cases failure <;> rfl
  | row r state rest ih =>
    rw [runAll, Cursor.failure?, Cursor.rows, List.findSome?_cons]
    cases read r with
    | error e => rfl
    | ok a => exact ih (before ++ [a])

end Reading

/-! ### Fields of rows -/

section Collect

variable {β : String → Type} {fields : List String}
  {read : (field : String) → Except StoreError (β field)} {fallback : (field : String) → β field}

theorem collect_eq_ok {values : (field : String) → β field} :
    collect fields read fallback = .ok values ↔ (∀ field ∈ fields, failure? (read field) = none) ∧
      ∀ field, (read field).toOption.getD (fallback field) = values field := by
  rw [← List.findSome?_eq_none_iff]
  unfold collect
  split
  next e he => simp [he]
  next hn => simp [hn, funext_iff]

theorem failure?_collect : failure? (collect fields read fallback) =
    fields.findSome? fun field => failure? (read field) := by
  unfold collect
  split
  next e he => exact he.symm
  next hn => exact hn.symm

end Collect

namespace Table

variable {t : Table} {row : Row}

/-- Whether a row is read as a record: every column of a field from the place that it has among the
columns, and every other field as if nothing were said about it. -/
structure Reads (t : Table) (row : Row) (entity : t.Entity) : Prop where
  column : ∀ i c, t.record.sortedColumns[i]? = some c →
    row.get (t.codec c.name).read i = .ok (entity c.name)
  other : ∀ field, (∀ c ∈ t.record.columns, c.name ≠ field) →
    entity field = (t.codec field).initial

/-- Whether an error is that of the first field, as they are declared, that cannot be read. -/
def Refuses (t : Table) (row : Row) (e : StoreError) : Prop :=
  ∃ before field after, t.record.fieldNames = before ++ field :: after ∧
    (∃ i c, t.record.sortedColumns[i]? = some c ∧ c.name = field ∧
      row.get (t.codec c.name).read i = .error e) ∧
    ∀ i c, t.record.sortedColumns[i]? = some c → c.name ∈ before →
      ∃ x, row.get (t.codec c.name).read i = .ok x

/-- A field has a place, or no column is its own. -/
theorem place_or_other (t : Table) (field : String) :
    (∃ (i : Nat) (c : Column), t.record.sortedColumns[i]? = some c ∧ c.name = field) ∨
      ∀ c ∈ t.record.columns, c.name ≠ field := by
  by_cases h : ∃ c ∈ t.record.columns, c.name = field
  · obtain ⟨c, hc, hn⟩ := h
    obtain ⟨i, hi⟩ := List.mem_iff_getElem?.mp (t.record.sortedColumns_perm.mem_iff.mpr hc)
    exact .inl ⟨i, c, hi, hn⟩
  · exact .inr fun c hc hn => h ⟨c, hc, hn⟩

theorem readField_of_other {field : String} (h : ∀ c ∈ t.record.columns, c.name ≠ field) :
    t.readField row field = .ok (t.codec field).initial := by
  rw [readField, Record.place?_eq_none.mpr h]

variable {d : Declaration} {scope : Scope} {config : Config}

theorem readField_of_place (h : Record.build d scope config = .ok t.record) {i : Nat} {c : Column}
    (hc : t.record.sortedColumns[i]? = some c) :
    t.readField row c.name = row.get (t.codec c.name).read i := by
  rw [readField, (Record.place?_eq_some (Record.columns_of_build h).1).mpr ⟨c, hc, rfl⟩]

/-- A row is read as a record exactly if it is one. -/
theorem readEntity_eq_ok (h : Record.build d scope config = .ok t.record) {entity : t.Entity} :
    t.readEntity row = .ok entity ↔ t.Reads row entity := by
  rw [readEntity, collect_eq_ok]
  constructor
  · rintro ⟨hf, hv⟩
    refine ⟨fun i c hc => ?_, fun field ho => ?_⟩
    · have hm : c ∈ t.record.columns :=
        Record.mem_columns_of_mem_sortedColumns (List.mem_of_getElem? hc)
      have hr := hf c.name (Record.mem_fieldNames_of_build h hm)
      have hv := hv c.name
      rw [readField_of_place h hc] at hr hv
      generalize row.get (t.codec c.name).read i = result at hr hv ⊢
      cases result with
      | error e => cases hr
      | ok x => exact congrArg Except.ok hv
    · have hv := hv field
      rw [readField_of_other ho] at hv
      exact hv.symm
  · intro hr
    have hv (field : String) : t.readField row field = .ok (entity field) := by
      rcases t.place_or_other field with ⟨i, c, hc, rfl⟩ | ho
      · exact (readField_of_place h hc).trans (hr.column i c hc)
      · rw [readField_of_other ho, hr.other field ho]
    exact ⟨fun field _ => by rw [hv]; rfl, fun field => by rw [hv]; rfl⟩

/-- What goes wrong with a row is what goes wrong with the first field of the declaration. -/
theorem failure?_readEntity (h : Record.build d scope config = .ok t.record) {e : StoreError} :
    failure? (t.readEntity row) = some e ↔ t.Refuses row e := by
  rw [readEntity, failure?_collect, List.findSome?_eq_some_iff]
  constructor
  · rintro ⟨before, field, after, hs, he, hb⟩
    refine ⟨before, field, after, hs, ?_, fun i c hc hm => ?_⟩
    · rcases t.place_or_other field with ⟨i, c, hc, rfl⟩ | ho
      · rw [readField_of_place h hc] at he
        exact ⟨i, c, hc, rfl, failure?_eq_some.mp he⟩
      · rw [readField_of_other ho] at he
        cases he
    · have hr := hb c.name hm
      rw [readField_of_place h hc] at hr
      generalize row.get (t.codec c.name).read i = result at hr ⊢
      cases result with
      | error o => cases hr
      | ok x => exact ⟨x, rfl⟩
  · rintro ⟨before, field, after, hs, ⟨i, c, hc, rfl, he⟩, hb⟩
    refine ⟨before, c.name, after, hs, ?_, fun field hf => ?_⟩
    · rw [readField_of_place h hc, he]
      rfl
    · rcases t.place_or_other field with ⟨j, o, ho, rfl⟩ | ho
      · obtain ⟨x, hx⟩ := hb j o ho hf
        rw [readField_of_place h ho, hx]
        rfl
      · rw [readField_of_other ho]
        rfl

/-! ### Rows of bound values -/

/-- What is left of a record that is bound and read again. -/
structure Restores (t : Table) (entity found : t.Entity) : Prop where
  bound : ∀ c ∈ t.record.columns,
    (t.codec c.name).bind (found c.name) = (t.codec c.name).bind (entity c.name)
  exact : ∀ c ∈ t.record.columns, (t.codec c.name).IsExact → found c.name = entity c.name
  other : ∀ field, (∀ c ∈ t.record.columns, c.name ≠ field) →
    found field = (t.codec field).initial

/-- A row that holds what is bound for a record, in the order of what is found. -/
def rowOf (t : Table) (entity : t.Entity) : Row := ⟨t.insertValues t.record.sortedColumns entity⟩

theorem get_rowOf {entity : t.Entity} {i : Nat} {c : Column}
    (hc : t.record.sortedColumns[i]? = some c) : (t.rowOf entity).get (t.codec c.name).read i =
      (t.codec c.name).read ((t.codec c.name).bind (entity c.name)) := by
  have hi : (t.rowOf entity).columns[i]? = some ((t.codec c.name).bind (entity c.name)) := by
    rw [rowOf, insertValues, List.getElem?_map, hc, Option.map_some]
  rw [Row.get, hi]

/-- A row that holds what is bound for a record is read as that record. -/
theorem exists_restored (h : Record.build d scope config = .ok t.record)
    (hf : ∀ c ∈ t.record.columns, (t.codec c.name).IsFaithful) (entity : t.Entity) :
    ∃ found, t.Reads (t.rowOf entity) found ∧ t.Restores entity found := by
  have hm {i : Nat} {c : Column} (hc : t.record.sortedColumns[i]? = some c) :
      c ∈ t.record.columns := Record.mem_columns_of_mem_sortedColumns (List.mem_of_getElem? hc)
  cases hr : t.readEntity (t.rowOf entity) with
  | error e =>
    obtain ⟨-, -, -, -, ⟨i, c, hc, -, he⟩, -⟩ :=
      (failure?_readEntity h).mp (failure?_eq_some.mpr hr)
    obtain ⟨y, hy, -⟩ := hf c (hm hc) (entity c.name)
    rw [get_rowOf hc, hy] at he
    cases he
  | ok found =>
    have hr := (readEntity_eq_ok h).mp hr
    have hv (c : Column) (hc : c ∈ t.record.columns) :
        (t.codec c.name).read ((t.codec c.name).bind (entity c.name)) = .ok (found c.name) := by
      obtain ⟨i, hi⟩ := List.mem_iff_getElem?.mp (t.record.sortedColumns_perm.mem_iff.mpr hc)
      rw [← get_rowOf hi]
      exact hr.column i c hi
    refine ⟨found, hr, fun c hc => ?_, fun c hc he => ?_, hr.other⟩
    · obtain ⟨y, hy, hb⟩ := hf c hc (entity c.name)
      obtain rfl : y = found c.name := Except.ok.inj (hy.symm.trans (hv c hc))
      exact hb
    · exact (Except.ok.inj ((he (entity c.name)).symm.trans (hv c hc))).symm

/-! ### What is inserted and what is found -/

/-- Whether a statement inserts records: the columns are listed, every record has a row of
placeholders, and what is bound for a column of a record stands where its placeholder does. -/
structure Inserts (t : Table) (entities : List t.Entity) (s : Statement) : Prop where
  query : s.query = "INSERT INTO " ++ t.record.table ++ " (" ++
    ",".intercalate (t.record.insertColumns.map Column.column) ++ ") VALUES " ++
    ", ".intercalate ((List.range entities.length).map fun k => "(" ++ ",".intercalate
      ((List.range' (k * t.record.insertColumns.length + 1) t.record.insertColumns.length).map
        t.record.dialect.placeholder) ++ ")") ++ t.record.insertTail
  length : s.params.length = entities.length * t.record.insertColumns.length
  value : ∀ k entity i c, entities[k]? = some entity → t.record.insertColumns[i]? = some c →
    s.params[k * t.record.insertColumns.length + i]? =
      some ((t.codec c.name).bind (entity c.name))

/-- Whether a result is what a driver's rows say. They all have to be read; else the first that
cannot be is what goes wrong, unless the driver fails behind them. Rows that hold what is bound for
records are read as these records. -/
structure Finds (t : Table) (cursor : Cursor σ) (result : Except StoreError (List t.Entity)) :
    Prop where
  found : ∀ entities, result = .ok entities ↔
    cursor.failure? = none ∧ List.Forall₂ t.Reads cursor.rows entities
  all : (∃ entities, result = .ok entities) ↔
    cursor.failure? = none ∧ ∀ row ∈ cursor.rows, ∃ entity, t.Reads row entity
  failed : ∀ e, result = .error e ↔
    (∃ before row after, cursor.rows = before ++ row :: after ∧ t.Refuses row e ∧
      ∀ o ∈ before, ∃ entity, t.Reads o entity) ∨
    (∀ row ∈ cursor.rows, ∃ entity, t.Reads row entity) ∧ cursor.failure? = some e
  restored : ∀ entities, cursor.failure? = none → cursor.rows = entities.map t.rowOf →
    (∀ c ∈ t.record.columns, (t.codec c.name).IsFaithful) →
    ∃ found, result = .ok found ∧ List.Forall₂ t.Restores entities found

/-- Lists of one length, one after the other, have their elements at the places to expect. -/
theorem getElem?_flatMap_of_length {β γ : Type} {f : β → List γ} {n : Nat}
    (hf : ∀ b, (f b).length = n) (bs : List β) (k : Nat) {i : Nat} (hi : i < n) :
    (bs.flatMap f)[k * n + i]? = bs[k]?.bind fun b => (f b)[i]? := by
  induction bs generalizing k with
  | nil => rfl
  | cons b bs ih =>
    rw [List.flatMap_cons]
    cases k with
    | zero =>
      rw [Nat.zero_mul, Nat.zero_add, List.getElem?_append_left (by rw [hf]; exact hi)]
      rfl
    | succ k =>
      have hk : (k + 1) * n + i = (f b).length + (k * n + i) := by
        rw [hf, Nat.succ_mul]
        omega
      rw [hk, List.getElem?_append_right (Nat.le_add_right _ _), Nat.add_sub_cancel_left, ih,
        List.getElem?_cons_succ]

theorem insert_inserts (entities : List t.Entity) : t.Inserts entities (t.insert entities) where
  query := rfl
  length := by
    simp [insert, insertValues, List.length_flatMap]
  value := by
    intro k entity i c he hc
    have hi : i < t.record.insertColumns.length := (List.getElem?_eq_some_iff.mp hc).1
    have hl (e : t.Entity) : (t.insertValues t.record.insertColumns e).length =
        t.record.insertColumns.length := List.length_map _
    have hp := getElem?_flatMap_of_length hl entities k hi
    rw [he, Option.bind_some, insertValues, List.getElem?_map, hc, Option.map_some] at hp
    exact hp

theorem failure?_eq_none {result : Except StoreError α} :
    failure? result = none ↔ ∃ a, result = .ok a := by
  cases result <;> simp [failure?]

theorem finds (h : Record.build d scope config = .ok t.record) (cursor : Cursor σ) :
    t.Finds cursor ((Reading.list t.readEntity).run cursor).1 := by
  have hf (row : Row) : failure? (t.readEntity row) = none ↔ ∃ entity, t.Reads row entity := by
    simp only [failure?_eq_none, readEntity_eq_ok h]
  have ho (entities : List t.Entity) : ((Reading.list t.readEntity).run cursor).1 = .ok entities ↔
      cursor.failure? = none ∧ List.Forall₂ t.Reads cursor.rows entities := by
    refine Reading.runAll_eq_ok.trans (and_congr_right fun _ => ?_)
    simp only [List.nil_append, exists_eq_left', readEntity_eq_ok h]
  have he : failure? ((Reading.list t.readEntity).run cursor).1 =
      (cursor.rows.findSome? fun row => failure? (t.readEntity row)).or cursor.failure? :=
    Reading.failure?_runAll []
  refine ⟨ho, ?all, fun e => ?failed, fun entities hc hr hk => ?restored⟩
  case all =>
    rw [← failure?_eq_none, he, Option.or_eq_none_iff, List.findSome?_eq_none_iff, and_comm]
    simp only [hf]
  case failed =>
    rw [← failure?_eq_some, he, Option.or_eq_some_iff, List.findSome?_eq_some_iff,
      List.findSome?_eq_none_iff]
    simp only [hf, failure?_readEntity h]
  case restored =>
    choose found hreads hrestores using exists_restored h hk
    refine ⟨entities.map found, (ho _).mpr ⟨hc, ?_⟩, ?_⟩
    · rw [hr, List.forall₂_map_left_iff, List.forall₂_map_right_iff, List.forall₂_same]
      exact fun e _ => hreads e
    · rw [List.forall₂_map_right_iff, List.forall₂_same]
      exact fun e _ => hrestores e

/-- Columns are listed by name, each once. Inserts bind, and finds read, every field at the place of
its column, and types that are known bring back what was bound, but for offsets. -/
theorem rows_aligned (h : Record.build d scope config = .ok t.record) :
    (t.record.sortedColumns.Perm t.record.columns ∧
      t.record.sortedColumns.Pairwise (fun a b => a.column < b.column) ∧
      t.record.insertColumns = t.record.sortedColumns.filter fun c => !c.autoIncrement) ∧
    (∀ entities : List t.Entity, entities ≠ [] →
      ∃ s, (t.create entities).statement? = some s ∧ t.Inserts entities s) ∧
    (∀ b : Option (Blueprint t), ∃ s rest, (t.find b).statement? = some s ∧
      s.query = "SELECT " ++ ",".intercalate (t.record.sortedColumns.map Column.column) ++
        " FROM " ++ t.record.table ++ rest ∧
      ∀ {σ : Type} (driver : Driver σ) (session : Session σ) (ready answered : σ)
        (cursor : Cursor σ), driver.prepare s.query session.driver = (.ok (), ready) →
        driver.query s ready = (.ok cursor, answered) →
        t.Finds cursor ((t.find b).perform driver session).1) ∧
    ∀ c ∈ t.record.columns, ∀ ty, FieldType.ofTy? c.ty = some ty → ty.isOpen = false →
      (Codec.ofType ty).IsFaithful ∧ (ty.hasOffset = false → (Codec.ofType ty).IsExact) := by
  refine ⟨⟨t.record.sortedColumns_perm, ?order, rfl⟩, fun entities he => ?inserts, fun b => ?finds,
    fun c hc ty ht ho => ?known⟩
  case order => exact Record.sortedColumns_pairwise (Record.columns_of_build h).1
  case inserts =>
    refine ⟨t.insert entities, ?_, insert_inserts entities⟩
    rw [create, if_neg (by simpa using he)]
    rfl
  case finds =>
    refine ⟨t.readStatement t.record.findHead b, (b.getD {}).tail, rfl, rfl, ?_⟩
    intro σ driver session ready answered cursor hp hq
    have hr := Plan.perform_of_prepared (.query (.list t.readEntity)) session.log hp
    have hu : ((Use.query (.list t.readEntity)).run driver
        (t.readStatement t.record.findHead b) ready).1 =
          ((Reading.list t.readEntity).run cursor).1 := by
      unfold Use.run
      dsimp only
      rw [hq]
    rw [find, hr, hu]
    exact finds h cursor
  case known =>
    have hf := Record.isFlat_of_build h hc ht ho
    exact ⟨Codec.isFaithful_ofType hf, Codec.isExact_ofType hf⟩

/-! ### Rows of notes -/

/-- A row whose flags, key and title are of wrong kinds. The key is declared first. -/
def brokenNote : Row := ⟨[.text "f", .null, .bool true, .null, .int 1]⟩

theorem rows_aligned_note :
    Record.build (noteDeclaration .postgres) .empty {} = .ok (noteTable .postgres).record ∧
    (((noteTable .postgres).find none).perform ScriptedDriver.driver
      ⟨{ answers := [[brokenNote]] }, .discard⟩).1 = .error (.typeMismatch "i64" "bool") ∧
    ∀ entity : (noteTable .postgres).Entity, ∃ found,
      (((noteTable .postgres).find none).perform ScriptedDriver.driver
        ⟨{ answers := [[(noteTable .postgres).rowOf entity]] }, .discard⟩).1 = .ok [found] ∧
      found "id" = entity "id" ∧ found "title" = entity "title" := by
  have hb := note_build .postgres
  obtain ⟨-, -, hfind, hknown⟩ := rows_aligned (t := noteTable .postgres) hb
  obtain ⟨s, rest, hs, -, hfinds⟩ := hfind none
  obtain rfl := Option.some.inj hs
  refine ⟨hb, ?broken, fun entity => ?restored⟩
  case broken =>
    refine ((hfinds ScriptedDriver.driver _ _ _ _ rfl rfl).failed _).mpr
      (.inl ⟨[], brokenNote, [], rfl, ?_, List.forall_mem_nil _⟩)
    have hi : (note .postgres).sortedColumns[2]?.map Column.name = some "id" := by
      simp [Record.sortedColumns, note, noteColumns, List.mergeSort,
        List.MergeSort.Internal.splitInTwo]
    obtain ⟨c, hc, hn⟩ := Option.map_eq_some_iff.mp hi
    refine ⟨[], "id", ["title", "rank", "flags", "gone"], rfl, ⟨2, c, hc, hn, ?_⟩,
      fun _ _ _ hm => absurd hm List.not_mem_nil⟩
    rw [hn]
    rfl
  case restored =>
    have hc : ∀ c ∈ noteColumns, ∃ ty, FieldType.ofTy? c.ty = some ty ∧ ty.isOpen = false ∧
        ty.hasOffset = false ∧ (noteTable .postgres).codec c.name = .ofType ty := by
      simp only [noteColumns, List.forall_mem_cons]
      exact ⟨⟨.integer ⟨true, .bits64⟩, rfl, rfl, rfl, rfl⟩, ⟨.string, rfl, rfl, rfl, rfl⟩,
        ⟨.nullable (.integer ⟨true, .bits64⟩), rfl, rfl, rfl, rfl⟩,
        ⟨.integer ⟨false, .bits8⟩, rfl, rfl, rfl, rfl⟩,
        ⟨.nullable .timestamp, rfl, rfl, rfl, rfl⟩, List.forall_mem_nil _⟩
    have hk : ∀ c ∈ noteColumns, ((noteTable .postgres).codec c.name).IsFaithful ∧
        ((noteTable .postgres).codec c.name).IsExact := by
      intro c hm
      obtain ⟨ty, ht, ho, hz, hcodec⟩ := hc c hm
      obtain ⟨hf, he⟩ := hknown c hm ty ht ho
      rw [hcodec]
      exact ⟨hf, he hz⟩
    have hd := hfinds ScriptedDriver.driver
      ⟨{ answers := [[(noteTable .postgres).rowOf entity]] }, .discard⟩ _ _ _ rfl rfl
    obtain ⟨found, hf, hr⟩ := hd.restored [entity] rfl rfl fun c hm => (hk c hm).1
    obtain ⟨f, fs, hef, hfs, rfl⟩ := List.forall₂_cons_left_iff.mp hr
    obtain rfl := List.forall₂_nil_left_iff.mp hfs
    have hm : ∀ i (h : i < noteColumns.length), noteColumns[i] ∈ noteColumns :=
      fun i h => List.getElem_mem h
    exact ⟨f, hf, hef.exact _ (hm 0 (by decide)) (hk _ (hm 0 (by decide))).2,
      hef.exact _ (hm 1 (by decide)) (hk _ (hm 1 (by decide))).2⟩

end Table
end RecordStore
