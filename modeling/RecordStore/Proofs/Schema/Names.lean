import RecordStore.Proofs.Schema.Built

/-!
The names of a record's methods and slots, and what the checks of them find: names that occur
twice.
-/
namespace RecordStore.Record

theorem repeated?_eq_none {used names : List String} :
    repeated? used names = none ↔ names.Nodup ∧ ∀ n ∈ names, n ∉ used := by
  induction names generalizing used with
  | nil => simp [repeated?]
  | cons n names ih =>
    unfold repeated?
    by_cases hn : n ∈ used
    · simp [hn]
    · have hc : used.contains n = false := by simpa using hn
      rw [hc, if_neg Bool.false_ne_true, ih, List.nodup_cons, List.forall_mem_cons]
      constructor
      · rintro ⟨hd, hu⟩
        exact ⟨⟨fun hm => hu n hm List.mem_cons_self, hd⟩, hn,
          fun o ho hm => hu o ho (List.mem_cons_of_mem _ hm)⟩
      · rintro ⟨⟨hm, hd⟩, -, hu⟩
        refine ⟨hd, fun o ho hc => ?_⟩
        rcases List.mem_cons.mp hc with rfl | hc
        · exact hm ho
        · exact hu o ho hc

theorem slotClash_eq_none {used : List String} {slots : List (Column × String)} :
    slotClash used slots = none ↔ repeated? used (slots.map Prod.snd) = none := by
  induction slots generalizing used with
  | nil => simp [slotClash, repeated?]
  | cons s slots ih =>
    obtain ⟨c, slot⟩ := s
    rw [slotClash, List.map_cons, repeated?]
    split
    · simp
    · exact ih

variable {r : Record} {u : Unit}

/-- The slots of a record's blueprints, but for those that every blueprint has. -/
def slotNames (r : Record) : List String := r.columns.flatMap Column.slots

theorem checkSlots_eq_ok : r.checkSlots = .ok u ↔
    r.slotNames.Nodup ∧ ∀ s ∈ r.slotNames, s ∉ Naming.commonSlots := by
  have hs : (r.columns.flatMap fun c => c.slots.map fun s => (c, s)).map Prod.snd =
      r.slotNames := by
    simp [slotNames, List.map_flatMap, Function.comp_def]
  rw [← repeated?_eq_none, ← hs, ← slotClash_eq_none, checkSlots]
  split
  next hc => simp [hc]
  next hc => simp [hc]

theorem checkMethods_eq_ok :
    r.checkMethods = .ok u ↔ (constructorName :: r.storeMethods).Nodup := by
  have hm : (constructorName :: r.storeMethods).Nodup ↔
      repeated? [constructorName] r.storeMethods = none := by
    rw [repeated?_eq_none, List.nodup_cons, and_comm]
    simp [List.forall_mem_ne']
  rw [hm, checkMethods]
  split
  next hc => simp [hc]
  next hc => simp [hc]

/-- A store has methods of its own, and for each column those that read it or write it. -/
theorem action_cases {a : Action} (h : a ∈ r.actions) :
    a = .create ∨ a = .delete ∨ a = .find ∨ a = .count ∨ ∃ c ∈ r.columns,
      a = .select c ∨ ∃ k ∈ Assignment.all c, a = .write k c := by
  unfold actions at h
  split at h
  · cases h
  simp only [List.mem_append] at h
  rcases h with ((h | h) | h) | h
  · obtain ⟨-, rfl⟩ : _ ∧ a = .create := by simpa using h
    exact .inl rfl
  · obtain ⟨-, c, ⟨hc, -⟩, k, hk, rfl⟩ :
        _ ∧ ∃ c, (c ∈ r.columns ∧ _) ∧ ∃ k ∈ Assignment.all c, Action.write k c = a := by
      simpa using h
    exact .inr (.inr (.inr (.inr ⟨c, hc, .inr ⟨k, hk, rfl⟩⟩)))
  · obtain ⟨-, rfl⟩ : _ ∧ a = .delete := by simpa using h
    exact .inr (.inl rfl)
  · obtain ⟨-, rfl | rfl | ⟨c, hc, rfl⟩⟩ :
        _ ∧ (a = .find ∨ a = .count ∨ ∃ c ∈ r.columns, Action.select c = a) := by simpa using h
    · exact .inr (.inr (.inl rfl))
    · exact .inr (.inr (.inr (.inl rfl)))
    · exact .inr (.inr (.inr (.inr ⟨c, hc, .inl rfl⟩)))

end RecordStore.Record
