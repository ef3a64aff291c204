import RecordStore.Proofs.Source.Bindings
import RecordStore.Proofs.Syntax.ImportLines

/-!
The paths that a source's names stand for are made of words of the source. A scope writes such a
path as an import that can be read again, and different paths as different texts. The only other
path is the root of all names itself, which no import can name.
-/
namespace RecordStore

open RecordStore.Parser

/-- A word that leads up. -/
theorem Parser.isPathWord_super : IsPathWord Token.IsRead "super" where
  ok := by
    rintro _ ⟨⟩
    exact ⟨"super".toList, [], by decide⟩
  allowed := by decide

/-- The root of all names. -/
def UsePath.root : UsePath := ⟨[""], none⟩

namespace Scope

/-! ### Leaves -/

/-- Behind what leads the import, a leaf has words of the source. A leaf under a new name has one
at least. -/
structure Leaf.IsRead (front : List String) (l : Leaf) : Prop where
  segments : ∃ words, l.segments = front ++ words ∧ (l.newName.isSome → words ≠ []) ∧
    ∀ m ∈ words, IsPathWord Token.IsRead m
  ne_nil : l.segments ≠ []
  newName : ∀ a ∈ l.newName, IsNewName Token.IsRead a

mutual

theorem isRead_leaves {front : List String} (words : List String) {tree : UseTree} {l : Leaf}
    (ht : tree.NamesAre Token.IsRead) (hw : ∀ m ∈ words, IsPathWord Token.IsRead m)
    (h : l ∈ leaves (front ++ words) tree) : l.IsRead front := by
  cases tree with
  | path n t =>
    rw [leaves, List.append_assoc] at h
    obtain ⟨hn, ht⟩ := ht
    exact isRead_leaves _ ht (List.forall_mem_append.mpr ⟨hw, List.forall_mem_singleton.mpr hn⟩) h
  | name n =>
    rw [leaves] at h
    split at h
    · split at h
      next last hl =>
        obtain rfl := List.mem_singleton.mp h
        refine ⟨⟨words, rfl, nofun, hw⟩, ?_, nofun⟩
        rintro hnil
        rw [show front ++ words = [] from hnil] at hl
        cases hl
      next => cases h
    · obtain rfl := List.mem_singleton.mp h
      exact ⟨⟨words ++ [n], List.append_assoc .., nofun,
        List.forall_mem_append.mpr ⟨hw, List.forall_mem_singleton.mpr ht⟩⟩, by simp, nofun⟩
  | rename n a =>
    rw [leaves] at h
    obtain rfl := List.mem_singleton.mp h
    obtain ⟨hn, ha⟩ := ht
    refine ⟨⟨words ++ [n], List.append_assoc .., fun _ => by simp,
      List.forall_mem_append.mpr ⟨hw, List.forall_mem_singleton.mpr hn⟩⟩, by simp, ?_⟩
    rintro _ ⟨⟩
    exact ha
  | glob =>
    rw [leaves] at h
    cases h
  | group ts trailing =>
    rw [leaves] at h
    exact isRead_groupLeaves words ht hw h

theorem isRead_groupLeaves {front : List String} (words : List String) {trees : List UseTree}
    {l : Leaf}
    (ht : UseTree.ListNamesAre Token.IsRead trees) (hw : ∀ m ∈ words, IsPathWord Token.IsRead m)
    (h : l ∈ groupLeaves (front ++ words) trees) : l.IsRead front := by
  cases trees with
  | nil =>
    rw [groupLeaves] at h
    cases h
  | cons t ts =>
    rw [groupLeaves] at h
    obtain ⟨ht, hts⟩ := ht
    rcases List.mem_append.mp h with h | h
    · exact isRead_leaves words ht hw h
    · exact isRead_groupLeaves words hts hw h

end

/-- A leaf of a read import stands behind the root of all names, or behind nothing. -/
theorem isRead_of_mem_bindings {items : List Item} {l : Leaf}
    (hi : ∀ i ∈ items, i.NamesAre Token.IsRead) (h : .leaf l ∈ items.flatMap Item.bindings) :
    l.IsRead [] ∨ l.IsRead [""] := by
  obtain ⟨i, him, h⟩ := List.mem_flatMap.mp h
  have hn := hi i him
  unfold Item.NamesAre at hn
  unfold Item.bindings at h
  split at h
  next rooted tree hf =>
    rw [hf] at hn
    obtain ⟨_, hl, ⟨⟩⟩ := List.mem_map.mp h
    cases rooted with
    | true => exact .inr (isRead_leaves [] hn (List.forall_mem_nil _) hl)
    | false => exact .inl (isRead_leaves [] hn (List.forall_mem_nil _) hl)
  all_goals simp at h

theorem isPathWord_of_declared {items : List Item} {n : String}
    (hi : ∀ i ∈ items, i.NamesAre Token.IsRead) (h : .declared n ∈ items.flatMap Item.bindings) :
    IsPathWord Token.IsRead n := by
  obtain ⟨i, him, h⟩ := List.mem_flatMap.mp h
  have hn := hi i him
  unfold Item.NamesAre at hn
  unfold Item.bindings at h
  split at h
  next => simp at h
  next hf =>
    obtain ⟨⟩ := List.mem_singleton.mp h
    rw [hf] at hn
    exact hn.name
  iterate 2
    next hf =>
      obtain ⟨⟩ := List.mem_singleton.mp h
      rw [hf] at hn
      exact hn
  next => cases h

theorem isPathWord_of_mem_moduleNames {items : List Item} {n : String}
    (hi : ∀ i ∈ items, i.NamesAre Token.IsRead) (h : n ∈ moduleNames items) :
    IsPathWord Token.IsRead n := by
  obtain ⟨i, him, h⟩ := List.mem_filterMap.mp h
  have hn := hi i him
  unfold Item.NamesAre at hn
  split at h
  next hf =>
    cases h
    rw [hf] at hn
    exact hn
  next => cases h

/-! ### Paths of names -/

/-- One level down, a path has the words that it had, and it may lead up first. -/
theorem isWritten_descend {modules front words : List String} {newName : Option String}
    (hm : "" ∉ modules) (hf : front = [] ∨ front = [""]) (hne : words ≠ [])
    (hw : ∀ m ∈ words, IsPathWord Token.IsRead m)
    (ha : ∀ a ∈ newName, IsNewName Token.IsRead a) :
    UsePath.IsWritten ⟨UsePath.descend modules (front ++ words), newName⟩ := by
  refine ⟨?_, ha⟩
  obtain ⟨n, rest, rfl⟩ := List.exists_cons_of_ne_nil hne
  rcases hf with rfl | rfl
  · have hup (rest : List String) (hr : ∀ m ∈ rest, IsPathWord Token.IsRead m) :
        ∀ m ∈ "super" :: rest, IsPathWord Token.IsRead m :=
      List.forall_mem_cons.mpr ⟨isPathWord_super, hr⟩
    dsimp only [List.nil_append]
    unfold UsePath.descend
    split
    next rest' he =>
      obtain ⟨-, rfl⟩ := List.cons.inj he
      exact ⟨_, _, .inl rfl, hup _ (List.forall_mem_cons.mp hw).2⟩
    next => exact ⟨_, _, .inl rfl, hup _ hw⟩
    next =>
      split
      · exact ⟨_, _, .inl rfl, hup _ hw⟩
      · exact ⟨_, _, .inl rfl, hw⟩
    next he => cases he
  · have hd : UsePath.descend modules ([""] ++ n :: rest) = "" :: n :: rest := by
      simp [UsePath.descend, hm]
    exact ⟨n, rest, .inr hd, hw⟩

/-- A name of a source stands for a path of words, or for the root of all names. -/
theorem isWritten_of_resolve {source n : String} {file : SourceFile} {p : UsePath}
    (hf : SourceFile.read? source = some file) (h : (ofItems file.items).resolve n = some p) :
    p.IsWritten ∨ p = .root := by
  have hi := SourceFile.namesAre hf
  obtain ⟨b, hb, -, rfl⟩ := binding_of_resolve h
  have hm : "" ∉ moduleNames file.items := fun he =>
    (isPathWord_of_mem_moduleNames hi he).ne_empty rfl
  cases b with
  | declared m =>
    refine .inl ⟨⟨"super", [m], .inl rfl, ?_⟩, nofun⟩
    exact List.forall_mem_cons.mpr ⟨isPathWord_super,
      List.forall_mem_singleton.mpr (isPathWord_of_declared hi hb)⟩
  | leaf l =>
    obtain ⟨front, hfront, hl⟩ : ∃ front, (front = [] ∨ front = [""]) ∧ l.IsRead front := by
      rcases isRead_of_mem_bindings hi hb with hl | hl
      · exact ⟨[], .inl rfl, hl⟩
      · exact ⟨[""], .inr rfl, hl⟩
    obtain ⟨words, hs, hnew, hw⟩ := hl.segments
    by_cases hne : words = []
    · subst hne
      have hn : l.newName = none := by
        cases ha : l.newName with
        | none => rfl
        | some a => exact absurd rfl (hnew (by rw [ha]; rfl))
      rw [List.append_nil] at hs
      rcases hfront with rfl | rfl
      · exact absurd hs hl.ne_nil
      · right
        rw [Binding.path, hs, hn]
        simp [UsePath.descend, hm, UsePath.root]
    · left
      rw [Binding.path, hs]
      exact isWritten_descend hm hfront hne hw hl.newName

end Scope
end RecordStore
