import RecordStore.Schema.Record

/-! What holds of a record because its declaration was accepted. -/
namespace RecordStore

theorem bind_eq_ok {ε α β : Type} {x : Except ε α} {f : α → Except ε β} {b : β} :
    (x >>= f) = .ok b ↔ ∃ a, x = .ok a ∧ f a = .ok b := by
  cases x <;> simp [bind, Except.bind]

theorem mapError_eq_ok {ε ε' α : Type} {g : ε → ε'} {x : Except ε α} {a : α} :
    x.mapError g = .ok a ↔ x = .ok a := by
  cases x with
  | ok b => constructor <;> (rintro ⟨⟩; rfl)
  | error e => constructor <;> (rintro ⟨⟩)

namespace Column

variable {config : Config} {scope : Scope} {record : String} {parts : NameParts}
  {f : FieldDeclaration} {c : Column}

/-- What a field is checked for, and the column that comes of it. -/
theorem ofField_eq_some : ofField config scope record parts f = .ok (some c) ↔
    ∃ s k, settings record f = .ok s ∧ s.isSkipped = false ∧
      Naming.isSqlName (s.column.getD (LetterCase.lower f.name)) = true ∧
      f.ty.classify config scope = .ok k ∧ (s.bitmask && !k.isUnsigned) = false ∧
      c = ⟨f.name, s.column.getD (LetterCase.lower f.name), f.ty, k, s.autoIncrement, s.bitmask,
        s.references, if k.hasRange then some (Naming.slot f.name parts.range) else none,
        if k.hasLike then some (Naming.slot f.name parts.like) else none⟩ := by
  constructor
  · intro h
    unfold ofField at h
    obtain ⟨s, hs, h⟩ := bind_eq_ok.mp h
    dsimp only at h
    split at h
    · cases h
    next hk =>
      split at h
      · cases h
      next hn =>
        obtain ⟨k, hc, h⟩ := bind_eq_ok.mp h
        split at h
        · cases h
        next hb =>
          cases h
          exact ⟨s, k, hs, by simpa using hk, by simpa using hn, mapError_eq_ok.mp hc,
            by simpa using hb, rfl⟩
  · rintro ⟨s, k, hs, hk, hn, hc, hb, rfl⟩
    have hm {ε : Type} (g : TypeIssue → ε) : (f.ty.classify config scope).mapError g = .ok k :=
      mapError_eq_ok.mpr hc
    simp [ofField, hs, hk, hn, hm, hb, bind, Except.bind, pure, Except.pure]

theorem isSqlName_of_ofField (h : ofField config scope record parts f = .ok (some c)) :
    Naming.isSqlName c.column := by
  obtain ⟨s, k, -, -, hn, -, -, rfl⟩ := ofField_eq_some.mp h
  exact hn

end Column

namespace Record

theorem mem_insertColumn {columns : List Column} {c o : Column} (h : o ∈ insertColumn columns c) :
    o ∈ columns ∨ o = c := by
  unfold insertColumn at h
  split at h
  · obtain ⟨a, ha, rfl⟩ := List.mem_map.mp h
    split
    · exact .inr rfl
    · exact .inl ha
  · simpa using h

/-- What holds of every field's column holds of all columns of a record. -/
theorem columnsFrom_forall {config : Config} {scope : Scope} {record : String} {parts : NameParts}
    {p : Column → Prop}
    (hp : ∀ f c, Column.ofField config scope record parts f = .ok (some c) → p c)
    {fields : List FieldDeclaration} {used : List String} {columns cs : List Column}
    (h : columnsFrom config scope record parts used columns fields = .ok cs)
    (hc : ∀ c ∈ columns, p c) : ∀ c ∈ cs, p c := by
  induction fields generalizing used columns with
  | nil =>
    cases h
    exact hc
  | cons f rest ih =>
    unfold columnsFrom at h
    split at h
    · exact ih h hc
    obtain ⟨found, hf, h⟩ := bind_eq_ok.mp h
    cases found with
    | none => exact ih h hc
    | some c =>
      dsimp only at h
      split at h
      · cases h
      · refine ih h fun o ho => ?_
        rcases mem_insertColumn ho with ho | rfl
        · exact hc o ho
        · exact hp f o hf

theorem check_eq_ok {record : String} {b : Bool} {issue : ConfigIssue} {u : Unit} :
    check record b issue = .ok u ↔ b = true := by
  cases b <;> simp [check]

theorem forM_check_eq_ok {record : String} {o : Option String} {b : String → Bool}
    {issue : String → ConfigIssue} {u : Unit} :
    o.forM (fun a => check record (b a) (issue a)) = .ok u ↔ ∀ a, o = some a → b a = true := by
  cases o with
  | none => simp [Option.forM, pure, Except.pure]
  | some a => simp [Option.forM, check_eq_ok]

theorem checkIdentifiers_eq_ok {r : Record} {u : Unit} :
    r.checkIdentifiers = .ok u ↔ ∀ n ∈ r.generatedNames, Naming.isIdentifier n = true := by
  unfold checkIdentifiers
  split
  next bad hb =>
    simp only [reduceCtorEq, false_iff]
    intro hn
    have hi := List.find?_some hb
    simp [hn bad (List.mem_of_find?_eq_some hb)] at hi
  next hn => simpa using hn

/-- A field that is a nullable time has a column. -/
theorem find?_of_isNullableTime {columns : List Column} {f : String}
    (h : isNullableTime columns f = true) :
    ∃ c ∈ columns, columns.find? (·.name == f) = some c ∧ c.name = f ∧
      c.category = .nullable .time := by
  unfold isNullableTime at h
  cases hf : columns.find? (·.name == f) with
  | none => simp [hf] at h
  | some c =>
    refine ⟨c, List.mem_of_find?_eq_some hf, rfl, ?_, ?_⟩
    · simpa using List.find?_some hf
    · simpa [hf] using h

theorem softDeleteColumn_of_isNullableTime {r : Record} {f : String} (hs : r.softDelete = some f)
    (h : isNullableTime r.columns f = true) :
    ∃ c ∈ r.columns, c.name = f ∧ r.softDeleteColumn = some c.column := by
  obtain ⟨c, hc, hf, hn, -⟩ := find?_of_isNullableTime h
  exact ⟨c, hc, hn, by simp [softDeleteColumn, column?, hs, hf]⟩

theorem build_eq_ok {d : Declaration} {scope : Scope} {config : Config} {r : Record} :
    build d scope config = .ok r ↔ ∃ s columns, settings d = .ok s ∧
      columnsFrom config scope d.name s.parts [] [] d.fields = .ok columns ∧
      make d s columns = r ∧ Naming.isSqlName r.table = true ∧
      (∀ f, r.softDelete = some f → isNullableTime r.columns f = true) ∧
      (∀ k, r.primaryKey = some k → Naming.isSqlName k = true) ∧
      (!(r.dialect == .postgres && r.capabilities.create && r.primaryKey.isNone)) = true ∧
      r.checkSlots = .ok () ∧ r.checkIdentifiers = .ok () ∧ r.checkMethods = .ok () := by
  unfold build
  simp only [bind_eq_ok, check_eq_ok, forM_check_eq_ok]
  constructor
  · rintro ⟨s, hs, columns, hc, _, ht, _, hd, _, hk, _, hp, _, hl, _, hi, _, hm, h⟩
    cases h
    exact ⟨s, columns, hs, hc, rfl, ht, hd, hk, hp, hl, hi, hm⟩
  · rintro ⟨s, columns, hs, hc, rfl, ht, hd, hk, hp, hl, hi, hm⟩
    exact ⟨s, hs, columns, hc, (), ht, (), hd, (), hk, (), hp, (), hl, (), hi, (), hm, rfl⟩

/-- The checks that a record has passed. -/
structure Built (r : Record) : Prop where
  table_name : Naming.isSqlName r.table = true
  column_name : ∀ c ∈ r.columns, Naming.isSqlName c.column = true
  primaryKey_name : ∀ k, r.primaryKey = some k → Naming.isSqlName k = true
  softDelete_column : ∀ f, r.softDelete = some f →
    ∃ c ∈ r.columns, c.name = f ∧ r.softDeleteColumn = some c.column
  identifiers : ∀ n ∈ r.generatedNames, Naming.isIdentifier n = true

theorem built_of_checks {d : Declaration} {scope : Scope} {config : Config} {s : RecordSettings}
    {columns : List Column}
    (hc : columnsFrom config scope d.name s.parts [] [] d.fields = .ok columns)
    (ht : Naming.isSqlName (make d s columns).table = true)
    (hs : ∀ f, s.softDelete = some f → isNullableTime columns f = true)
    (hk : ∀ k, s.primaryKey = some k → Naming.isSqlName k = true)
    (hi : (make d s columns).checkIdentifiers = .ok ()) : (make d s columns).Built where
  table_name := ht
  column_name := columnsFrom_forall (fun _ _ hf => Column.isSqlName_of_ofField hf) hc
    (List.forall_mem_nil _)
  primaryKey_name := hk
  softDelete_column := fun f hf => softDeleteColumn_of_isNullableTime hf (hs f hf)
  identifiers := checkIdentifiers_eq_ok.mp hi

theorem built_of_build {d : Declaration} {scope : Scope} {config : Config} {r : Record}
    (h : build d scope config = .ok r) : r.Built := by
  obtain ⟨s, columns, -, hc, rfl, ht, hs, hk, -, -, hi, -⟩ := build_eq_ok.mp h
  exact built_of_checks hc ht hs hk hi

variable {r : Record} {c : Column}

theorem mem_columns_of_mem_sortedColumns (h : c ∈ r.sortedColumns) : c ∈ r.columns :=
  List.mem_mergeSort.mp h

theorem mem_columns_of_mem_insertColumns (h : c ∈ r.insertColumns) : c ∈ r.columns :=
  mem_columns_of_mem_sortedColumns (List.mem_filter.mp h).1

end Record

/-! ### An accepted record -/

instance decidableEqExcept {ε α : Type} [DecidableEq ε] [DecidableEq α] :
    DecidableEq (Except ε α)
  | .ok a, .ok b => decidable_of_iff (a = b) (by simp)
  | .error e, .error f => decidable_of_iff (e = f) (by simp)
  | .ok _, .error _ => .isFalse nofun
  | .error _, .ok _ => .isFalse nofun

/-- A column from what its field says. -/
theorem Column.ofField_eq_ok {config : Config} {scope : Scope} {record : String} {parts : NameParts}
    {f : FieldDeclaration} {s : FieldSettings} {c : String} {k : Category} {r l : Option String}
    (h : settings record f = .ok s ∧ s.isSkipped = false ∧
      s.column.getD (LetterCase.lower f.name) = c ∧ Naming.isSqlName c = true ∧
      f.ty.classify config scope = .ok k ∧
      (s.bitmask && !k.isUnsigned) = false ∧
      (if k.hasRange then some (Naming.slot f.name parts.range) else none) = r ∧
      (if k.hasLike then some (Naming.slot f.name parts.like) else none) = l) :
    ofField config scope record parts f = .ok (some ⟨f.name, c, f.ty, k,
      s.autoIncrement, s.bitmask, s.references, r, l⟩) := by
  obtain ⟨hs, hk, rfl, hq, hc, hb, rfl, rfl⟩ := h
  exact ofField_eq_some.mpr ⟨s, k, hs, hk, hq, hc, hb, rfl⟩

def namedType (name : String) : Ty := .path false [.mk name .none]

def optionalType (name : String) : Ty :=
  .path false [.mk "Option" (.angled false [.type (namedType name)] false)]

/-- Notes with columns of every kind that slots tell apart. -/
def noteFields : List FieldDeclaration :=
  [⟨"id", namedType "i64", ["autoIncrement"]⟩, ⟨"title", namedType "String", ["column=title"]⟩,
    ⟨"rank", optionalType "i64", ["column=rank"]⟩, ⟨"flags", namedType "u8", ["bitmask"]⟩,
    ⟨"gone", optionalType "NaiveDateTime", ["column=gone_at"]⟩]

def noteDeclaration (d : Dialect) : Declaration where
  name := "Note"
  visibility := .everyone
  tags := ["softDelete=gone&primaryKey=id&dialect=" ++ d.name]
  fields := noteFields

def noteColumns : List Column :=
  [⟨"id", "id", namedType "i64", .numeric false false, true, false, none, some "id_range", none⟩,
    ⟨"title", "title", namedType "String", .string, false, false, none, none, some "title_like"⟩,
    ⟨"rank", "rank", optionalType "i64", .nullable .numeric, false, false, none, none, none⟩,
    ⟨"flags", "flags", namedType "u8", .numeric false true, false, true, none, some "flags_range",
      none⟩,
    ⟨"gone", "gone_at", optionalType "NaiveDateTime", .nullable .time, false, false, none, none,
      none⟩]

def note (d : Dialect) : Record where
  name := "Note"
  recordName := "Note"
  table := "notes"
  storeName := "NoteStore"
  blueprintName := "NoteBlueprint"
  repositoryName := "NoteRepository"
  defaultLimit := 100
  dialect := d
  primaryKey := some "id"
  softDelete := some "gone"
  parts := {}
  capabilities := .all
  columns := noteColumns
  fieldNames := ["id", "title", "rank", "flags", "gone"]
  visibility := .everyone

/-- Columns cannot be compared, unlike what they are made from. -/
theorem note_columnsFrom :
    Record.columnsFrom {} .empty "Note" {} [] [] noteFields = .ok noteColumns := by
  have h : ∀ p ∈ noteFields.zip noteColumns,
      Column.ofField {} .empty "Note" {} p.1 = .ok (some p.2) := by
    simp only [noteFields, noteColumns, List.zip_cons_cons, List.zip_nil_left,
      List.forall_mem_cons]
    refine ⟨?id, ?title, ?rank, ?flags, ?gone, List.forall_mem_nil _⟩
    case id => exact Column.ofField_eq_ok (s := { autoIncrement := true }) (by decide +kernel)
    case title => exact Column.ofField_eq_ok (s := { column := some "title" }) (by decide +kernel)
    case rank => exact Column.ofField_eq_ok (s := { column := some "rank" }) (by decide +kernel)
    case flags => exact Column.ofField_eq_ok (s := { bitmask := true }) (by decide +kernel)
    case gone => exact Column.ofField_eq_ok (s := { column := some "gone_at" }) (by decide +kernel)
  simp only [noteFields, noteColumns, List.zip_cons_cons, List.forall_mem_cons] at h
  simp [Record.columnsFrom, noteFields, h, Record.insertColumn, noteColumns, Record.tableField,
    FieldDeclaration.isTagged, bind, Except.bind]

theorem note_build (d : Dialect) : Record.build (noteDeclaration d) .empty {} = .ok (note d) := by
  have hs : Record.settings (noteDeclaration d) =
      .ok { softDelete := some "gone", primaryKey := some "id", dialect := d } := by
    cases d <;> decide +kernel
  have hn : Naming.defaultTable "Note" = "notes" := by decide +kernel
  have hi : (note d).checkSlots = .ok () ∧ (note d).checkIdentifiers = .ok () ∧
      (note d).checkMethods = .ok () := by
    cases d <;> decide +kernel
  have ht : Naming.isSqlName "notes" = true := by decide +kernel
  have hg : Record.isNullableTime noteColumns "gone" = true := by decide
  refine Record.build_eq_ok.mpr ⟨_, _, hs, note_columnsFrom, ?_, ht, ?_, ?_, ?_, hi⟩
  · simp [Record.make, noteDeclaration, hn, note, noteFields]
  · rintro f ⟨⟩
    exact hg
  · rintro k ⟨⟩
    decide +kernel
  · cases d <;> rfl

end RecordStore
