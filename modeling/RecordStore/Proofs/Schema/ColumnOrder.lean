import RecordStore.Proofs.Schema.Accepted
import RecordStore.Proofs.Values.Conversion

/-!
Columns in order. The columns of a record can be told apart by their fields and by their names, so
their order by name is the only one, and every field has one place in it at most.
-/
namespace RecordStore

/-- Whether two columns are of different fields and have different names. -/
def Column.IsApart (a b : Column) : Prop := a.name ≠ b.name ∧ a.column ≠ b.column

namespace Record

/-! ### Columns of declarations -/

theorem pairwise_insertColumn {columns : List Column} {c : Column}
    (h : columns.Pairwise Column.IsApart) (hc : ∀ o ∈ columns, o.column ≠ c.column) :
    (insertColumn columns c).Pairwise Column.IsApart := by
  unfold insertColumn
  split
  next =>
    refine List.pairwise_map.mpr (h.imp_of_mem fun {a b} ha hb hab => ?_)
    by_cases hac : a.name = c.name
    · have hbc : b.name ≠ c.name := fun hbc => hab.1 (hac.trans hbc.symm)
      rw [if_pos (beq_iff_eq.mpr hac), if_neg (mt beq_iff_eq.mp hbc)]
      exact ⟨hbc.symm, (hc b hb).symm⟩
    · rw [if_neg (mt beq_iff_eq.mp hac)]
      split
      · exact ⟨hac, hc a ha⟩
      · exact hab
  next hn =>
    refine List.pairwise_append.mpr ⟨h, List.pairwise_singleton .., fun a ha o ho => ?_⟩
    obtain rfl := List.mem_singleton.mp ho
    refine ⟨fun he => hn (List.any_eq_true.mpr ⟨a, ha, beq_iff_eq.mpr he⟩), hc a ha⟩

variable {d : Declaration} {scope : Scope} {config : Config} {r : Record}

/-- Fields give columns that can be told apart, each of its own field. -/
theorem columnsFrom_apart {record : String} {parts : NameParts} {fields : List FieldDeclaration}
    {used : List String} {columns cs : List Column}
    (h : columnsFrom config scope record parts used columns fields = .ok cs)
    (ha : columns.Pairwise Column.IsApart) (hu : ∀ c ∈ columns, c.column ∈ used) :
    cs.Pairwise Column.IsApart ∧
      ∀ c ∈ cs, c ∈ columns ∨ ∃ f ∈ fields, c.Accepted config scope f := by
  induction fields generalizing used columns with
  | nil =>
    cases h
    exact ⟨ha, fun c hc => .inl hc⟩
  | cons f rest ih =>
    rcases columnsFrom_cons h with ⟨-, h⟩ | ⟨c, -, hf, hc, h⟩
    · obtain ⟨hp, hm⟩ := ih h ha hu
      refine ⟨hp, fun o ho => (hm o ho).imp_right ?_⟩
      rintro ⟨g, hg, hog⟩
      exact ⟨g, List.mem_cons_of_mem f hg, hog⟩
    · have hne : ∀ o ∈ columns, o.column ≠ c.column := fun o ho he => hc (he ▸ hu o ho)
      obtain ⟨hp, hm⟩ := ih h (pairwise_insertColumn ha hne) fun o ho => by
        rcases mem_insertColumn ho with ho | rfl
        · exact List.mem_cons_of_mem _ (hu o ho)
        · exact List.mem_cons_self
      refine ⟨hp, fun o ho => ?_⟩
      rcases hm o ho with ho | ⟨g, hg, hog⟩
      · rcases mem_insertColumn ho with ho | rfl
        · exact .inl ho
        · exact .inr ⟨f, List.mem_cons_self, hf⟩
      · exact .inr ⟨g, List.mem_cons_of_mem f hg, hog⟩

theorem columns_of_build (h : build d scope config = .ok r) :
    r.columns.Pairwise Column.IsApart ∧
      ∀ c ∈ r.columns, ∃ f ∈ d.fields, c.Accepted config scope f := by
  obtain ⟨s, columns, -, hc, rfl, -⟩ := build_eq_ok.mp h
  obtain ⟨hp, hm⟩ := columnsFrom_apart hc .nil (List.forall_mem_nil _)
  exact ⟨hp, fun c hc => (hm c hc).resolve_left List.not_mem_nil⟩

theorem mem_fieldNames_of_build (h : build d scope config = .ok r) {c : Column}
    (hc : c ∈ r.columns) : c.name ∈ r.fieldNames := by
  obtain ⟨f, hf, hcf⟩ := (columns_of_build h).2 c hc
  obtain ⟨s, columns, -, -, rfl, -⟩ := build_eq_ok.mp h
  exact List.mem_map.mpr ⟨f, hf, hcf.name.symm⟩

/-- The type of a column is flat, as long as it is a known one without values of any kind. -/
theorem isFlat_of_build (h : build d scope config = .ok r) {c : Column} (hc : c ∈ r.columns)
    {t : FieldType} (ht : FieldType.ofTy? c.ty = some t) (ho : t.isOpen = false) : t.IsFlat := by
  obtain ⟨f, -, hf⟩ := (columns_of_build h).2 c hc
  have hk : c.ty.classify config scope = .ok c.category := hf.ty ▸ hf.category
  exact (FieldType.suits_of_classify hk ht).2 ho

/-! ### Their order -/

theorem sortedColumns_perm (r : Record) : r.sortedColumns.Perm r.columns :=
  List.mergeSort_perm _ _

theorem sortedColumns_apart (ha : r.columns.Pairwise Column.IsApart) :
    r.sortedColumns.Pairwise Column.IsApart :=
  r.sortedColumns_perm.symm.pairwise ha fun hab => ⟨hab.1.symm, hab.2.symm⟩

theorem sortedColumns_pairwise (ha : r.columns.Pairwise Column.IsApart) :
    r.sortedColumns.Pairwise fun a b => a.column < b.column := by
  have hs : r.sortedColumns.Pairwise fun a b => decide (a.column ≤ b.column) = true := by
    refine List.pairwise_mergeSort (fun x y z hx hy => ?_) (fun x y => ?_) _
    · simpa using String.le_trans (of_decide_eq_true hx) (of_decide_eq_true hy)
    · simpa using String.le_total x.column y.column
  refine (hs.and (sortedColumns_apart ha)).imp ?_
  rintro a b ⟨hle, -, hne⟩
  by_contra hlt
  exact hne (String.le_antisymm (of_decide_eq_true hle) hlt)

/-- A field has the place that its column has. -/
theorem place?_eq_some (ha : r.columns.Pairwise Column.IsApart) {field : String} {i : Nat} :
    r.place? field = some i ↔ ∃ c, r.sortedColumns[i]? = some c ∧ c.name = field := by
  rw [place?, List.findIdx?_eq_some_iff_getElem]
  constructor
  · rintro ⟨hi, hn, -⟩
    exact ⟨_, List.getElem?_eq_getElem hi, beq_iff_eq.mp hn⟩
  · rintro ⟨c, hc, rfl⟩
    obtain ⟨hi, rfl⟩ := List.getElem?_eq_some_iff.mp hc
    refine ⟨hi, beq_self_eq_true _, fun j hj hn => ?_⟩
    exact (List.pairwise_iff_getElem.mp (sortedColumns_apart ha) j i _ hi hj).1 (beq_iff_eq.mp hn)

theorem place?_eq_none {field : String} :
    r.place? field = none ↔ ∀ c ∈ r.columns, c.name ≠ field := by
  rw [place?, List.findIdx?_eq_none_iff]
  simp only [r.sortedColumns_perm.mem_iff, beq_eq_false_iff_ne]

end Record
end RecordStore
