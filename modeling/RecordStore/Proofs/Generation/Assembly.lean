import Mathlib.Data.List.Forall2
import RecordStore.Generation.Companion
import RecordStore.Proofs.Generation.Emitted
import RecordStore.Proofs.Source.Bindings

/-!
How a companion comes about: every declaration of the source becomes a record, every record
becomes code, and the names that the code needs become imports, as far as the source binds them.
-/
namespace RecordStore

theorem mapM_eq_ok {ε α β : Type} {f : α → Except ε β} {as : List α} {bs : List β} :
    as.mapM f = .ok bs ↔ List.Forall₂ (fun a b => f a = .ok b) as bs := by
  induction as generalizing bs with
  | nil =>
    rw [List.mapM_nil, List.forall₂_nil_left_iff]
    exact ⟨fun h => (Except.ok.inj h).symm, fun h => h ▸ rfl⟩
  | cons a as ih =>
    rw [List.mapM_cons, List.forall₂_cons_left_iff]
    simp only [bind_eq_ok, ih]
    constructor
    · rintro ⟨b, hb, cs, hcs, ⟨⟩⟩
      exact ⟨b, cs, hb, hcs, rfl⟩
    · rintro ⟨b, cs, hb, hcs, rfl⟩
      exact ⟨b, hb, cs, hcs, rfl⟩

theorem exists_of_mem_forall₂ {α β : Type} {R : α → β → Prop} {as : List α} {bs : List β}
    (h : List.Forall₂ R as bs) {a : α} (ha : a ∈ as) : ∃ b ∈ bs, R a b := by
  induction h with
  | nil => cases ha
  | cons hab _ ih =>
    rcases List.mem_cons.mp ha with rfl | ha
    · exact ⟨_, List.mem_cons_self, hab⟩
    · obtain ⟨b, hb, hab⟩ := ih ha
      exact ⟨b, List.mem_cons_of_mem _ hb, hab⟩

/-! ### Declarations -/

namespace Declaration

theorem name_of_build {s : StructItem} {fields : List FieldItem} {d : Declaration}
    (h : build s fields = .ok d) : d.name = s.name := by
  unfold build at h
  obtain ⟨tags, -, h⟩ := bind_eq_ok.mp h
  obtain ⟨fs, -, h⟩ := bind_eq_ok.mp h
  cases h
  rfl

/-- No two declarations of a source share a name. -/
theorem nodup_collect {structs : List StructItem} {seen ds : List Declaration}
    (h : collect seen structs = .ok ds) (hs : (seen.map Declaration.name).Nodup) :
    (ds.map Declaration.name).Nodup := by
  induction structs generalizing seen with
  | nil =>
    cases h
    exact hs
  | cons s rest ih =>
    unfold collect at h
    obtain ⟨found, -, h⟩ := bind_eq_ok.mp h
    cases found with
    | none => exact ih h hs
    | some d =>
      dsimp only at h
      split at h
      · cases h
      next hd =>
        refine ih h ?_
        rw [List.map_append, List.map_singleton, List.nodup_append]
        refine ⟨hs, List.pairwise_singleton _ _, fun n hn m hm hnm => hd ?_⟩
        obtain ⟨e, he, rfl⟩ := List.mem_map.mp hn
        rw [List.mem_singleton.mp hm] at hnm
        exact List.any_eq_true.mpr ⟨e, he, beq_iff_eq.mpr hnm⟩

end Declaration

namespace SourceUnit

/-- What a source holds, unless it is ignored. -/
theorem ofSource_eq_ok {source : String} {u : SourceUnit} (h : ofSource source = .ok u) :
    u = ⟨true, [], .empty⟩ ∨ ∃ file, SourceFile.read? source = some file ∧
      Declaration.collect [] (Declaration.structs file.items) = .ok u.records ∧
      u.scope = .ofItems file.items ∧ u.isIgnored = false := by
  unfold ofSource at h
  split at h
  · cases h
    exact .inl rfl
  split at h
  · cases h
  next file hf =>
    obtain ⟨records, hr, h⟩ := bind_eq_ok.mp h
    cases h
    exact .inr ⟨file, hf, hr, rfl, rfl⟩

theorem nodup_records {source : String} {u : SourceUnit} (h : ofSource source = .ok u) :
    (u.records.map Declaration.name).Nodup := by
  rcases ofSource_eq_ok h with rfl | ⟨file, -, hr, -⟩
  · exact List.nodup_nil
  · exact Declaration.nodup_collect hr List.nodup_nil

/-- A name that the source binds is brought in by the path that it stands for. -/
theorem boundName?_of_resolve {source : String} {u : SourceUnit} (h : ofSource source = .ok u)
    {n : String} {p : UsePath} (hn : u.scope.resolve n = some p) (hp : p ≠ ⟨["super"], none⟩) :
    p.boundName? = some n := by
  rcases ofSource_eq_ok h with rfl | ⟨file, -, -, hs, -⟩
  · cases hn
  · rw [hs] at hn
    exact Scope.boundName?_of_resolve hn hp

end SourceUnit

/-! ### Code -/

theorem Record.name_of_build {d : Declaration} {scope : Scope} {config : Config} {r : Record}
    (h : build d scope config = .ok r) : r.name = d.name := by
  obtain ⟨s, columns, -, -, rfl, -⟩ := build_eq_ok.mp h
  rfl

namespace RecordCode

variable {r : Record} {config : Config} {code : RecordCode}

/-- A record without features has no code; that of others is made of what its producers sent. -/
theorem ofRecord_eq_ok (h : ofRecord r config = .ok code) :
    r.capabilities.isEmpty = true ∧ code = ⟨r.name, none, []⟩ ∨
    r.capabilities.isEmpty = false ∧ ∃ ctx is, Context.ofRecord r config = .ok ctx ∧
      items ctx (Packet.sequence (scripts r config)) = .ok is ∧
      code = ⟨r.name, some ("\n".intercalate (is.map tokenText)),
        Arrivals.needs (Packet.sequence (scripts r config))⟩ := by
  unfold ofRecord at h
  split at h
  next hc =>
    cases h
    exact .inl ⟨hc, rfl⟩
  next hc =>
    unfold ofArrivals at h
    split at h
    · cases h
    · obtain ⟨ctx, hctx, h⟩ := bind_eq_ok.mp h
      obtain ⟨is, his, h⟩ := bind_eq_ok.mp h
      cases h
      exact .inr ⟨by simpa using hc, ctx, is, hctx, his, rfl⟩

end RecordCode

namespace Companion

variable {u : SourceUnit} {config : Config} {rs : List (Record × RecordCode)}

/-- A record and its code. -/
def record (scope : Scope) (config : Config) (d : Declaration) :
    Except Error (Record × RecordCode) := do
  let r ← Record.build d scope config
  return (r, ← RecordCode.ofRecord r config)

/-- The records of a source with their code. -/
def records (u : SourceUnit) (config : Config) : Except Error (List (Record × RecordCode)) :=
  u.records.mapM (record u.scope config)

theorem record_eq_ok {scope : Scope} {d : Declaration} {r : Record} {code : RecordCode} :
    record scope config d = .ok (r, code) ↔
      Record.build d scope config = .ok r ∧ RecordCode.ofRecord r config = .ok code := by
  unfold record
  simp only [bind_eq_ok]
  constructor
  · rintro ⟨r, hr, code, hc, ⟨⟩⟩
    exact ⟨hr, hc⟩
  · rintro ⟨hr, hc⟩
    exact ⟨r, hr, code, hc, rfl⟩

/-- Every record with code comes of a declaration, and every declaration becomes one. -/
theorem forall₂_records (h : records u config = .ok rs) : List.Forall₂ (fun d g =>
    Record.build d u.scope config = .ok g.1 ∧ RecordCode.ofRecord g.1 config = .ok g.2)
      u.records rs :=
  (mapM_eq_ok.mp h).imp fun _ _ hg => record_eq_ok.mp hg

theorem declaration_of_mem_records (h : records u config = .ok rs) {g : Record × RecordCode}
    (hg : g ∈ rs) : ∃ d ∈ u.records, Record.build d u.scope config = .ok g.1 ∧
      RecordCode.ofRecord g.1 config = .ok g.2 :=
  exists_of_mem_forall₂ (forall₂_records h).flip hg

theorem names_records (h : records u config = .ok rs) :
    rs.map (·.1.name) = u.records.map Declaration.name := by
  have hf := forall₂_records h
  clear h
  generalize u.records = ds at hf
  induction hf with
  | nil => rfl
  | cons hd _ ih => rw [List.map_cons, List.map_cons, ih, Record.name_of_build hd.1]

/-- Code comes of declarations only by way of their records. -/
theorem exists_records {codes : List RecordCode} (h : (u.records.mapM fun d => do
    let r ← Record.build d u.scope config
    RecordCode.ofRecord r config) = .ok codes) :
    ∃ rs, records u config = .ok rs ∧ rs.map Prod.snd = codes := by
  have hf := mapM_eq_ok.mp h
  simp only [records, mapM_eq_ok]
  clear h
  generalize u.records = ds at hf
  induction hf with
  | nil => exact ⟨[], .nil, rfl⟩
  | cons hd _ ih =>
    obtain ⟨r, hr, hc⟩ := bind_eq_ok.mp hd
    obtain ⟨rs, hrs, rfl⟩ := ih
    exact ⟨(r, _) :: rs, .cons (record_eq_ok.mpr ⟨hr, hc⟩) hrs, rfl⟩

/-- Where all names are identifiers, code comes of all records that are accepted. -/
theorem exists_records_of_build {accepted : List Record}
    (h : u.records.mapM (Record.build · u.scope config) = .ok accepted)
    (hn : ∀ r ∈ accepted, ∀ n ∈ r.name :: r.fieldNames, Naming.isIdentifier n = true)
    (hp : (Path.read? config.runtime).isSome = true) :
    ∃ rs, records u config = .ok rs ∧ rs.map Prod.fst = accepted := by
  have hf := mapM_eq_ok.mp h
  simp only [records, mapM_eq_ok]
  clear h
  generalize u.records = ds at hf
  induction hf with
  | nil => exact ⟨[], .nil, rfl⟩
  | @cons d r _ _ hd _ ih =>
    obtain ⟨hr, hrest⟩ := List.forall_mem_cons.mp hn
    obtain ⟨hname, hfields⟩ := List.forall_mem_cons.mp hr
    obtain ⟨code, hc⟩ :=
      RecordCode.exists_ofRecord (Record.built_of_build hd) hname (fun _ => hfields) hp
    obtain ⟨rs, hrs, rfl⟩ := ih hrest
    exact ⟨(r, code) :: rs, .cons (record_eq_ok.mpr ⟨hd, hc⟩) hrs, rfl⟩

/-- Whether a source is accepted, all names are identifiers, and what it holds is as it should. -/
def accepts (source : String) (p : List Item → List Record → Bool) : Bool :=
  !IgnoreMark.isIn source && (SourceFile.read? source).any fun file =>
    (Declaration.collect [] (Declaration.structs file.items)).toOption.any fun ds =>
      (ds.mapM (Record.build · (.ofItems file.items) {})).toOption.any fun accepted =>
        (accepted.flatMap fun r => r.name :: r.fieldNames).all Naming.isIdentifier &&
          p file.items accepted

theorem toOption_eq_some {ε α : Type} {x : Except ε α} {a : α} (h : x.toOption = some a) :
    x = .ok a := by
  cases x with
  | error e => cases h
  | ok b => exact congrArg _ (Option.some.inj h)

theorem exists_of_accepts {source : String} {p : List Item → List Record → Bool}
    (h : accepts source p = true) : ∃ file u rs, SourceFile.read? source = some file ∧
      SourceUnit.ofSource source = .ok u ∧ u.isIgnored = false ∧
      u.scope = .ofItems file.items ∧ records u {} = .ok rs ∧
      p file.items (rs.map Prod.fst) = true := by
  unfold accepts at h
  obtain ⟨hi, h⟩ := Bool.and_eq_true_iff.mp h
  obtain ⟨file, hf, h⟩ := (Option.any_eq_true _ _).mp h
  obtain ⟨ds, hd, h⟩ := (Option.any_eq_true _ _).mp h
  obtain ⟨accepted, ha, h⟩ := (Option.any_eq_true _ _).mp h
  obtain ⟨hn, hp⟩ := Bool.and_eq_true_iff.mp h
  have hu : SourceUnit.ofSource source = .ok ⟨false, ds, .ofItems file.items⟩ := by
    have hi : ¬IgnoreMark.isIn source = true := by simpa using hi
    rw [SourceUnit.ofSource, if_neg hi, hf]
    dsimp only
    rw [toOption_eq_some hd]
    rfl
  simp only [List.all_eq_true, List.mem_flatMap, forall_exists_index, and_imp] at hn
  obtain ⟨rs, hrs, rfl⟩ := exists_records_of_build
    (u := ⟨false, ds, .ofItems file.items⟩) (toOption_eq_some ha)
    (fun r hr n hm => hn n r hr hm) (by decide +kernel)
  exact ⟨file, _, rs, hf, hu, rfl, rfl, hrs, hp⟩

/-- A type from elsewhere, and a record with the usual names. -/
def daySource : String :=
  "use chrono::NaiveDate;\nstruct Day \x7b\n #[marlow = \"\"]\n on: NaiveDate\n\x7d"

/-- The text of a companion. -/
theorem generate_eq_ok {unit source output : String}
    (h : generate unit source config = .ok output) : ∃ u, SourceUnit.ofSource source = .ok u ∧
      (u.isIgnored = true ∧ output = "" ∨ u.isIgnored = false ∧ ∃ rs texts,
        records u config = .ok rs ∧ (rs.map Prod.snd).mapM recordText = .ok texts ∧
        output = header unit ++ useBlock (uses u.scope (rs.map Prod.snd)) ++
          String.join (texts.map fun t => "\n" ++ t)) := by
  unfold generate at h
  obtain ⟨u, hu, h⟩ := bind_eq_ok.mp h
  refine ⟨u, hu, ?_⟩
  split at h
  next hi =>
    cases h
    exact .inl ⟨hi, rfl⟩
  next hi =>
    obtain ⟨codes, hc, h⟩ := bind_eq_ok.mp h
    unfold assemble at h
    obtain ⟨texts, ht, h⟩ := bind_eq_ok.mp h
    obtain ⟨rs, hrs, rfl⟩ := exists_records hc
    dsimp only at h
    split at h
    · cases h
      exact .inr ⟨by simpa using hi, rs, texts, hrs, ht, rfl⟩
    · cases h

/-- The text of a companion, by the code of its records. -/
theorem text_of_generate {unit source output : String} (hu : SourceUnit.ofSource source = .ok u)
    (h : records u config = .ok rs) (hg : generate unit source config = .ok output) :
    u.isIgnored = true ∧ output = "" ∨
    ∃ texts, (rs.map Prod.snd).mapM recordText = .ok texts ∧
      output = header unit ++ useBlock (uses u.scope (rs.map Prod.snd)) ++
        String.join (texts.map fun t => "\n" ++ t) := by
  obtain ⟨u', hu', hg⟩ := generate_eq_ok hg
  obtain rfl : u' = u := Except.ok.inj (hu'.symm.trans hu)
  refine hg.imp_right ?_
  rintro ⟨-, rs', texts, hrs, ht, ho⟩
  obtain rfl : rs' = rs := Except.ok.inj (hrs.symm.trans h)
  exact ⟨texts, ht, ho⟩

/-! ### Imports -/

/-- The imports of some records: the names that their code needs and the source binds, each once,
with their paths. -/
def imports (scope : Scope) (codes : List RecordCode) : List (String × UsePath) :=
  (Ty.distinctSorted (codes.flatMap RecordCode.needs)).filterMap fun n =>
    (scope.resolve n).map (n, ·)

theorem mem_imports {scope : Scope} {codes : List RecordCode} {n : String} {p : UsePath} :
    (n, p) ∈ imports scope codes ↔ (∃ c ∈ codes, n ∈ c.needs) ∧ scope.resolve n = some p := by
  simp [imports]

theorem nodup_imports (scope : Scope) (codes : List RecordCode) :
    ((imports scope codes).map Prod.fst).Nodup := by
  have hm : (imports scope codes).map Prod.fst =
      (Ty.distinctSorted (codes.flatMap RecordCode.needs)).filter
        fun n => (scope.resolve n).isSome := by
    unfold imports
    rw [List.map_filterMap, ← List.filterMap_eq_filter]
    refine List.filterMap_congr fun n _ => ?_
    cases h : scope.resolve n <;> simp [Option.guard, h]
  rw [hm]
  exact (Ty.nodup_distinctSorted _).filter _

/-- The lines that import something are the texts of the imports. -/
theorem mem_uses {scope : Scope} {codes : List RecordCode} {line : String} :
    line ∈ uses scope codes ↔ ∃ n p, (n, p) ∈ imports scope codes ∧ p.text = line := by
  simp only [uses, mem_imports, Ty.mem_distinctSorted, List.mem_filterMap, List.mem_flatMap,
    Option.map_eq_some_iff]
  constructor
  · rintro ⟨n, hn, p, hp, hl⟩
    exact ⟨n, p, ⟨hn, hp⟩, hl⟩
  · rintro ⟨n, p, ⟨hn, hp⟩, hl⟩
    exact ⟨n, hn, p, hp, hl⟩

end Companion
end RecordStore
