import Mathlib.Data.List.Forall2
import RecordStore.Proofs.Schema.Names

/-!
What an accepted declaration says. Its columns are those of the fields that are kept, each as its
own field describes it, and everything that becomes part of SQL text is letters and underscores.
-/
namespace RecordStore

/-! ### Folds over options -/

/-- What a fold starts with and each of its steps keeps holds in the end, if the fold succeeds. -/
theorem foldlM_ok {ε α β : Type} {f : β → α → Except ε β} {p : List α → β → Prop}
    (hf : ∀ seen b a b', p seen b → f b a = .ok b' → p (seen ++ [a]) b') (seen : List α)
    {as : List α} {b b' : β} (hb : p seen b) (h : as.foldlM f b = .ok b') : p (seen ++ as) b' := by
  induction as generalizing seen b with
  | nil =>
    cases h
    simpa using hb
  | cons a as ih =>
    rw [List.foldlM_cons] at h
    obtain ⟨c, hc, h⟩ := bind_eq_ok.mp h
    have hi := ih (seen ++ [a]) (hf seen b a c hb hc) h
    rwa [List.append_assoc, List.singleton_append] at hi

theorem map_eq_ok {ε α β : Type} {g : α → β} {x : Except ε α} {b : β} :
    x.map g = .ok b ↔ ∃ a, x = .ok a ∧ g a = b := by
  cases x <;> simp [Except.map]

theorem map_eq_error {ε α β : Type} {g : α → β} {x : Except ε α} {e : ε} :
    x.map g = .error e ↔ x = .error e := by
  cases x <;> simp [Except.map]

namespace FieldDeclaration

/-- The options of a field, in their order. -/
def options (f : FieldDeclaration) : List (String × String) := f.tags.flatMap Tag.pairs

/-- What the last of some options says about the column. -/
def columnOption? (options : List (String × String)) : Option String :=
  (options.reverse.find? (·.1 == "column")).map Prod.snd

/-- Whether a field has a column: it has tags, which do not drop it. -/
def isKept (f : FieldDeclaration) : Bool :=
  f.name != Record.tableField && f.isTagged && columnOption? f.options != some "-"

/-- The column that a field names; one that names none gives it its own name. -/
def columnName (f : FieldDeclaration) : String :=
  ((columnOption? f.options).filter fun c => !c.isEmpty).getD (LetterCase.lower f.name)

end FieldDeclaration

namespace FieldSettings

open FieldDeclaration

variable {s s' : FieldSettings}

theorem column_apply {key value : String} (h : s.apply key value = .ok s') :
    s'.column = if key == "column" then (if value.isEmpty then none else some value)
      else s.column := by
  obtain ⟨setting, hs, rfl⟩ := map_eq_ok.mp h
  unfold FieldSetting.ofPair at hs
  split at hs
  · cases hs
    rfl
  · obtain ⟨b, -, rfl⟩ := map_eq_ok.mp hs
    rfl
  · obtain ⟨b, -, rfl⟩ := map_eq_ok.mp hs
    rfl
  · cases hs
    rfl
  · cases hs

/-- Settings name the column that the options before name last, if it is a name at all. -/
def NamesLast (options : List (String × String)) (s : FieldSettings) : Prop :=
  s.column = (columnOption? options).filter fun c => !c.isEmpty

theorem namesLast_concat {options : List (String × String)} {option : String × String}
    (hs : NamesLast options s) (h : s.apply option.1 option.2 = .ok s') :
    NamesLast (options ++ [option]) s' := by
  rw [NamesLast, column_apply h, columnOption?, List.reverse_concat, List.find?_cons]
  cases hk : option.1 == "column" with
  | true => cases hv : option.2.isEmpty <;> simp [Option.filter, hv]
  | false => simpa [NamesLast, columnOption?] using hs

theorem namesLast_of_tags {tags : List String} (h : tags.foldlM applyTag {} = .ok s) :
    NamesLast (tags.flatMap Tag.pairs) s := by
  refine foldlM_ok (p := fun tags s => NamesLast (tags.flatMap Tag.pairs) s)
    (fun seen s tag s' hs ht => ?_) [] (b := {}) rfl h
  rw [List.flatMap_append, List.flatMap_singleton]
  exact foldlM_ok (fun _ _ _ _ => namesLast_concat) _ hs ht

end FieldSettings

/-! ### Columns -/

namespace Category

variable {k : Category}

theorem isUnsigned_iff : k.isUnsigned = true ↔ ∃ declared, k = .numeric declared true := by
  cases k <;> simp [isUnsigned]

theorem hasRange_iff :
    k.hasRange = true ↔ (∃ declared unsigned, k = .numeric declared unsigned) ∨ k = .time := by
  cases k <;> simp [hasRange]

theorem hasLike_iff : k.hasLike = true ↔ k = .string := by
  cases k <;> simp [hasLike]

end Category

/-- A column as its field describes it. -/
structure Column.Of (config : Config) (scope : Scope) (f : FieldDeclaration) (c : Column) :
    Prop where
  name : c.name = f.name
  column : c.column = f.columnName
  ty : c.ty = f.ty
  category : f.ty.classify config scope = .ok c.category

namespace Column

variable {config : Config} {scope : Scope} {record : String} {parts : NameParts}
  {f : FieldDeclaration} {c : Column}

theorem isSkipped_of_ofField {s : FieldSettings} (hs : settings record f = .ok s) :
    s.isSkipped = true ↔ FieldDeclaration.columnOption? f.options = some "-" := by
  have hl := FieldSettings.namesLast_of_tags (mapError_eq_ok.mp hs)
  rw [FieldSettings.isSkipped, hl, FieldDeclaration.options]
  generalize FieldDeclaration.columnOption? (f.tags.flatMap Tag.pairs) = o
  cases o with
  | none => simp
  | some v => by_cases hv : v = "-" <;> simp [Option.filter, hv]

theorem ofField_none (h : ofField config scope record parts f = .ok none) :
    FieldDeclaration.columnOption? f.options = some "-" := by
  unfold ofField at h
  obtain ⟨s, hs, h⟩ := bind_eq_ok.mp h
  dsimp only at h
  split at h
  next hk => exact (isSkipped_of_ofField hs).mp hk
  split at h
  · cases h
  obtain ⟨category, -, h⟩ := bind_eq_ok.mp h
  split at h
  · cases h
  · cases h

/-- What holds of a column because its field was accepted. -/
structure Accepted (config : Config) (scope : Scope) (f : FieldDeclaration) (c : Column) : Prop
    extends Column.Of config scope f c where
  kept : FieldDeclaration.columnOption? f.options ≠ some "-"
  bitmask : c.bitmask = true → c.category.isUnsigned = true
  rangeSlot : c.rangeSlot.isSome = c.category.hasRange
  likeSlot : c.likeSlot.isSome = c.category.hasLike

theorem accepted_of_ofField (h : ofField config scope record parts f = .ok (some c)) :
    c.Accepted config scope f := by
  obtain ⟨s, k, hs, hk, -, hc, hb, rfl⟩ := ofField_eq_some.mp h
  have hl : s.column = _ := FieldSettings.namesLast_of_tags (mapError_eq_ok.mp hs)
  exact
    { name := rfl
      column := by rw [FieldDeclaration.columnName, FieldDeclaration.options, hl]
      ty := rfl
      category := hc
      kept := fun hd => Bool.eq_false_iff.mp hk ((isSkipped_of_ofField hs).mpr hd)
      bitmask := by simpa using hb
      rangeSlot := by cases k.hasRange <;> rfl
      likeSlot := by cases k.hasLike <;> rfl }

end Column

namespace Record

open FieldDeclaration

variable {config : Config} {scope : Scope} {record : String} {parts : NameParts}

/-- What one field does to the columns before it: it is left out, or adds a column of its own. -/
theorem columnsFrom_cons {f : FieldDeclaration} {rest : List FieldDeclaration} {used : List String}
    {columns cs : List Column}
    (h : columnsFrom config scope record parts used columns (f :: rest) = .ok cs) :
    (f.isKept = false ∧ columnsFrom config scope record parts used columns rest = .ok cs) ∨
    ∃ c, f.isKept = true ∧ c.Accepted config scope f ∧ c.column ∉ used ∧
      columnsFrom config scope record parts (c.column :: used) (insertColumn columns c) rest =
        .ok cs := by
  unfold columnsFrom at h
  split at h
  next hk =>
    refine .inl ⟨?_, h⟩
    rcases Bool.or_eq_true_iff.mp hk with ht | ht
    · simp [isKept, eq_of_beq ht]
    · have ht : f.isTagged = false := by simpa using ht
      simp [isKept, ht]
  next hk =>
    have hk : f.name ≠ tableField ∧ f.isTagged = true := by simpa using hk
    obtain ⟨found, hf, h⟩ := bind_eq_ok.mp h
    cases found with
    | none => exact .inl ⟨by simp [isKept, Column.ofField_none hf], h⟩
    | some c =>
      dsimp only at h
      split at h
      · cases h
      next hu =>
        have ha := Column.accepted_of_ofField hf
        exact .inr ⟨c, by simp [isKept, hk, ha.kept], ha, by simpa using hu, h⟩

theorem insertColumn_of_forall_ne {columns : List Column} {c : Column}
    (h : c.name ∉ columns.map Column.name) : insertColumn columns c = columns ++ [c] := by
  have hn : columns.any (·.name == c.name) = false := by
    refine List.any_eq_false.mpr fun o ho he => h ?_
    rw [← eq_of_beq he]
    exact List.mem_map_of_mem ho
  rw [insertColumn, hn, if_neg Bool.false_ne_true]

/-- Fields with names of their own add a column for each that is kept, and no column twice. -/
theorem columnsFrom_eq_append {fields : List FieldDeclaration} {used : List String}
    {columns cs : List Column}
    (h : columnsFrom config scope record parts used columns fields = .ok cs)
    (hd : (columns.map Column.name ++ fields.map FieldDeclaration.name).Nodup) :
    ∃ added, cs = columns ++ added ∧
      List.Forall₂ (Column.Accepted config scope) (fields.filter isKept) added ∧
      (added.map Column.column).Nodup ∧ ∀ c ∈ added, c.column ∉ used := by
  induction fields generalizing used columns with
  | nil =>
    cases h
    exact ⟨[], by simp, .nil, .nil, List.forall_mem_nil _⟩
  | cons f rest ih =>
    rcases columnsFrom_cons h with ⟨hk, h⟩ | ⟨c, hk, ha, hc, h⟩
    · have hs : (columns.map Column.name ++ rest.map FieldDeclaration.name).Sublist
          (columns.map Column.name ++ (f :: rest).map FieldDeclaration.name) :=
        .append_left (List.sublist_cons_self _ _) _
      rw [List.filter_cons_of_neg (by simp [hk])]
      exact ih h (hd.sublist hs)
    · rw [List.map_cons, ← ha.name] at hd
      have hn : c.name ∉ columns.map Column.name := fun hm =>
        (List.nodup_append.mp hd).2.2 _ hm _ List.mem_cons_self rfl
      rw [insertColumn_of_forall_ne hn] at h
      obtain ⟨added, rfl, hf, hcs, hu⟩ := ih h (by simpa using hd)
      refine ⟨c :: added, by simp, ?_, ?_, ?_⟩
      · rw [List.filter_cons_of_pos hk]
        exact .cons ha hf
      · refine List.nodup_cons.mpr ⟨fun hm => ?_, hcs⟩
        obtain ⟨o, ho, he⟩ := List.mem_map.mp hm
        exact hu o ho (he ▸ List.mem_cons_self)
      · exact List.forall_mem_cons.mpr ⟨hc, fun o ho hm => hu o ho (List.mem_cons_of_mem _ hm)⟩

end Record

/-! ### Settings of records -/

namespace RecordSetting

theorem limit?_nonneg {text : String} {n : Int} (h : limit? text = some n) : 0 ≤ n := by
  have hn := (Option.filter_eq_some_iff.mp h).2
  simp only [Bool.and_eq_true, decide_eq_true_eq] at hn
  exact hn.1

theorem nonneg_of_ofPair {key value : String} {n : Int}
    (h : ofPair key value = .ok (.defaultLimit n)) : 0 ≤ n := by
  have hf {c : Capability} : (Tag.flag key value).map (capability c) ≠ .ok (.defaultLimit n) :=
    fun hf => by simp [map_eq_ok] at hf
  unfold ofPair at h
  dsimp only at h
  -- Only the limit makes this setting; flags are told apart by what they are mapped to.
  split at h
  all_goals first
    | exact absurd h hf
    | (split at h <;> cases h)
    | cases h
  exact limit?_nonneg ‹_›

end RecordSetting

namespace RecordSettings

variable {s s' : RecordSettings}

theorem nonneg_apply {key value : String} (hs : 0 ≤ s.defaultLimit)
    (h : s.apply key value = .ok s') : 0 ≤ s'.defaultLimit := by
  obtain ⟨setting, hp, rfl⟩ := map_eq_ok.mp h
  cases setting with
  | defaultLimit n => exact RecordSetting.nonneg_of_ofPair hp
  | _ => exact hs

theorem nonneg_of_tags {tags : List String} (hs : 0 ≤ s.defaultLimit)
    (h : tags.foldlM applyTag s = .ok s') : 0 ≤ s'.defaultLimit :=
  foldlM_ok (p := fun _ s => 0 ≤ s.defaultLimit)
    (fun _ _ _ _ hs ht => foldlM_ok (p := fun _ s => 0 ≤ s.defaultLimit)
      (fun _ _ _ _ => nonneg_apply) [] hs ht) [] hs h

end RecordSettings

/-! ### Records -/

/-- Text that is part of SQL as it is: letters and underscores, and not empty. -/
def IsSqlText (s : String) : Prop :=
  s ≠ "" ∧ ∀ c ∈ s.toList, 'a' ≤ c ∧ c ≤ 'z' ∨ 'A' ≤ c ∧ c ≤ 'Z' ∨ c = '_'

theorem isSqlText_of_isSqlName {s : String} (h : Naming.isSqlName s = true) : IsSqlText s := by
  obtain ⟨hn, ha⟩ := Bool.and_eq_true_iff.mp h
  refine ⟨by simpa using hn, fun c hc => ?_⟩
  rcases Bool.or_eq_true_iff.mp (List.all_eq_true.mp ha c hc) with hl | hl
  · rcases Bool.or_eq_true_iff.mp hl with hu | hl
    · exact .inr (.inl (of_decide_eq_true hu))
    · obtain ⟨ha, hz⟩ := Bool.and_eq_true_iff.mp hl
      exact .inl ⟨of_decide_eq_true ha, of_decide_eq_true hz⟩
  · exact .inr (.inr (eq_of_beq hl))

namespace Record

variable {d : Declaration} {scope : Scope} {config : Config} {r : Record}

theorem settings_nonneg {s : RecordSettings} (h : settings d = .ok s) : 0 ≤ s.defaultLimit := by
  unfold settings at h
  obtain ⟨own, ho, h⟩ := bind_eq_ok.mp h
  have hn : 0 ≤ own.defaultLimit :=
    RecordSettings.nonneg_of_tags (s := {}) (by decide) (mapError_eq_ok.mp ho)
  exact RecordSettings.nonneg_of_tags hn (mapError_eq_ok.mp h)

/-- A record that says what its declaration says, and that code can be generated from. -/
structure WellFormed (d : Declaration) (scope : Scope) (config : Config) (r : Record) : Prop where
  /-- The columns are those of the fields that are kept, in their order. -/
  columns :
    List.Forall₂ (Column.Of config scope) (d.fields.filter FieldDeclaration.isKept) r.columns
  columns_nodup : (r.columns.map Column.column).Nodup
  table_text : IsSqlText r.table
  column_text : ∀ c ∈ r.columns, IsSqlText c.column
  primaryKey_text : ∀ k, r.primaryKey = some k → IsSqlText k
  defaultLimit_nonneg : 0 ≤ r.defaultLimit
  softDelete_time : ∀ f, r.softDelete = some f →
    ∃ c ∈ r.columns, c.name = f ∧ c.category = .nullable .time
  primaryKey_postgres : r.dialect = .postgres → r.capabilities.create = true →
    ∃ k, r.primaryKey = some k
  bitmask_unsigned : ∀ c ∈ r.columns, c.bitmask = true →
    ∃ declared, c.category = .numeric declared true
  rangeSlot_iff : ∀ c ∈ r.columns, (∃ s, c.rangeSlot = some s) ↔
    (∃ declared unsigned, c.category = .numeric declared unsigned) ∨ c.category = .time
  likeSlot_iff : ∀ c ∈ r.columns, (∃ s, c.likeSlot = some s) ↔ c.category = .string
  slots_own : ∀ c ∈ r.columns, ∀ s ∈ c.slots,
    s ∉ ["inclusive", "limit", "offset", "order_by", "order_direction", "unscoped"]

/-- Declarations with distinct fields that are accepted give well-formed records. -/
theorem wellFormed_of_build (h : build d scope config = .ok r)
    (hd : (d.fields.map FieldDeclaration.name).Nodup) : r.WellFormed d scope config := by
  have hb := built_of_build h
  obtain ⟨s, columns, hs, hc, rfl, -, hsoft, -, hp, hl, -, -⟩ := build_eq_ok.mp h
  have ha : ∀ c ∈ columns, ∃ f, c.Accepted config scope f :=
    columnsFrom_forall (fun f c hf => ⟨f, Column.accepted_of_ofField hf⟩) hc
      (List.forall_mem_nil _)
  obtain ⟨added, rfl, hf, hn, -⟩ := columnsFrom_eq_append hc (by simpa using hd)
  exact
    { columns := hf.imp fun _ _ ho => ho.toOf
      columns_nodup := hn
      table_text := isSqlText_of_isSqlName hb.table_name
      column_text := fun c hc => isSqlText_of_isSqlName (hb.column_name c hc)
      primaryKey_text := fun k hk => isSqlText_of_isSqlName (hb.primaryKey_name k hk)
      defaultLimit_nonneg := settings_nonneg hs
      softDelete_time := fun f hf => by
        obtain ⟨c, hc, -, hn, ht⟩ := find?_of_isNullableTime (hsoft f hf)
        exact ⟨c, hc, hn, ht⟩
      primaryKey_postgres := fun hd hc => by
        simpa [hd, hc, Option.isSome_iff_exists] using hp
      bitmask_unsigned := fun c hm hk => by
        obtain ⟨f, ho⟩ := ha c hm
        exact Category.isUnsigned_iff.mp (ho.bitmask hk)
      rangeSlot_iff := fun c hm => by
        obtain ⟨f, ho⟩ := ha c hm
        rw [← Option.isSome_iff_exists, ho.rangeSlot, Category.hasRange_iff]
      likeSlot_iff := fun c hm => by
        obtain ⟨f, ho⟩ := ha c hm
        rw [← Option.isSome_iff_exists, ho.likeSlot, Category.hasLike_iff]
      slots_own := fun c hm s hs =>
        (checkSlots_eq_ok.mp hl).2 s (List.mem_flatMap.mpr ⟨c, hm, hs⟩) }

theorem wellFormed_of_build_note :
    ((noteDeclaration .postgres).fields.map FieldDeclaration.name).Nodup ∧
      (note .postgres).WellFormed (noteDeclaration .postgres) .empty {} := by
  have hd : ((noteDeclaration .postgres).fields.map FieldDeclaration.name).Nodup := by decide
  exact ⟨hd, wellFormed_of_build (note_build .postgres) hd⟩

end Record
end RecordStore
