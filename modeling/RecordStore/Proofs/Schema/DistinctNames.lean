import RecordStore.Schema.Category

/-!
Names in order, each once: what is among them, and that their first order does not matter.
-/
namespace RecordStore

theorem eraseRepsBy_loop_eq {α : Type} (r : α → α → Bool) (a : α) (as acc : List α) :
    List.eraseRepsBy.loop r a as acc = acc.reverse ++ List.eraseRepsBy.loop r a as [] := by
  induction as generalizing a acc with
  | nil => simp [List.eraseRepsBy.loop]
  | cons b as ih =>
    unfold List.eraseRepsBy.loop
    split
    · exact ih a acc
    · rw [ih b (a :: acc), ih b [a]]
      simp

theorem eraseReps_cons_cons (a b : String) (names : List String) :
    (a :: b :: names).eraseReps =
      if a = b then (b :: names).eraseReps else a :: (b :: names).eraseReps := by
  show List.eraseRepsBy.loop _ a (b :: names) [] = _
  unfold List.eraseRepsBy.loop
  by_cases h : a = b
  · subst h
    simp only [beq_self_eq_true, ↓reduceIte]
    rfl
  · have hb : (a == b) = false := by simpa using h
    simp only [hb, h, ↓reduceIte]
    exact eraseRepsBy_loop_eq _ b names [a]

@[simp]
theorem mem_eraseReps {n : String} {names : List String} : n ∈ names.eraseReps ↔ n ∈ names := by
  induction names with
  | nil => rfl
  | cons a names ih =>
    cases names with
    | nil => rfl
    | cons b names =>
      rw [eraseReps_cons_cons]
      split
      next h => simp [ih, h]
      next h => rw [List.mem_cons, ih, List.mem_cons (a := n) (b := a)]

theorem pairwise_eraseReps {names : List String} (h : names.Pairwise (· ≤ ·)) :
    names.eraseReps.Pairwise (· < ·) := by
  induction names with
  | nil => exact List.Pairwise.nil
  | cons a names ih =>
    obtain ⟨ha, hn⟩ := List.pairwise_cons.mp h
    cases names with
    | nil => exact List.pairwise_singleton _ a
    | cons b names =>
      rw [eraseReps_cons_cons]
      split
      · exact ih hn
      next hne =>
        refine List.pairwise_cons.mpr ⟨fun c hc => String.not_le.mp fun hca => ?_, ih hn⟩
        rcases List.mem_cons.mp (mem_eraseReps.mp hc) with rfl | hc
        · exact hne (String.le_antisymm (ha _ List.mem_cons_self) hca)
        · exact hne (String.le_antisymm (ha b List.mem_cons_self)
            (String.le_trans ((List.pairwise_cons.mp hn).1 c hc) hca))

namespace Ty

theorem pairwise_sorted (names : List String) :
    (names.mergeSort fun a b => decide (a ≤ b)).Pairwise (· ≤ ·) := by
  have h : (names.mergeSort fun a b => decide (a ≤ b)).Pairwise
      fun a b => decide (a ≤ b) = true := by
    apply List.pairwise_mergeSort
    · intro x y z hx hy
      simpa using String.le_trans (of_decide_eq_true hx) (of_decide_eq_true hy)
    · intro x y
      simpa using String.le_total x y
  exact h.imp of_decide_eq_true

/-- Sorting forgets the order of names. -/
theorem distinctSorted_perm {a b : List String} (h : a.Perm b) :
    distinctSorted a = distinctSorted b := by
  have hp : (a.mergeSort fun a b => decide (a ≤ b)).Perm (b.mergeSort fun a b => decide (a ≤ b)) :=
    (List.mergeSort_perm a _).trans (h.trans (List.mergeSort_perm b _).symm)
  unfold distinctSorted
  rw [hp.eq_of_pairwise ?_ (pairwise_sorted a) (pairwise_sorted b)]
  intro x y _ _ hx hy
  exact String.le_antisymm hx hy

@[simp]
theorem mem_distinctSorted {n : String} {names : List String} :
    n ∈ distinctSorted names ↔ n ∈ names := by
  rw [distinctSorted, mem_eraseReps, List.mem_mergeSort]

theorem pairwise_distinctSorted (names : List String) :
    (distinctSorted names).Pairwise (· < ·) := pairwise_eraseReps (pairwise_sorted names)

theorem nodup_distinctSorted (names : List String) : (distinctSorted names).Nodup := by
  refine (pairwise_distinctSorted names).imp ?_
  rintro a _ h rfl
  exact String.lt_irrefl a h

end Ty
end RecordStore
