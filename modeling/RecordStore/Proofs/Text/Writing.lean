import RecordStore.Text.OctetWriter

/-!
What a writer holds after some octets were written, however many of them it takes at a time: their
start, as far as there is room.
-/
namespace RecordStore.OctetWriter

variable (w : OctetWriter) (os ps : List UInt8)

/-- What a writer still takes of some octets. -/
def taken : List UInt8 :=
  match w.room with
  | none => os
  | some n => os.take n

/-- Whether there is room for some octets. -/
def fits : Bool := w.room.all fun n => decide (os.length ≤ n)

theorem accept_nil : w.accept [] = w := by
  obtain ⟨room, failsFlush, written, pace⟩ := w
  cases room <;> simp [accept]

theorem accept_accept : (w.accept os).accept ps = w.accept (os ++ ps) := by
  obtain ⟨room, failsFlush, written, pace⟩ := w
  cases room <;> simp [accept, Nat.sub_sub]

theorem portion_le_length : w.portion os ≤ os.length := by
  unfold portion
  cases w.pace <;> cases w.room <;> dsimp only <;> omega

theorem portion_le_room {n : Nat} (h : w.room = some n) : w.portion os ≤ n := by
  simp only [portion, h]
  omega

/-- Of a nonempty offer nothing is taken only if there is no room at all. -/
theorem room_of_portion_eq_zero (ho : os ≠ []) (h : w.portion os = 0) : w.room = some 0 := by
  have hlength : 0 < os.length := List.length_pos_iff.mpr ho
  obtain ⟨room, failsFlush, written, pace⟩ := w
  cases room with
  | none => cases pace <;> simp only [portion] at h <;> omega
  | some n =>
    have hn : n = 0 := by cases pace <;> simp only [portion] at h <;> omega
    rw [hn]

/-- Accepting a portion leaves the rest to be taken. -/
theorem taken_portion {n : Nat} (hn : n = w.portion os) :
    os.take n ++ (w.accept (os.take n)).taken (os.drop n) = w.taken os := by
  have hlength : n ≤ os.length := hn ▸ w.portion_le_length os
  have hroom : ∀ r, w.room = some r → n ≤ r := fun r hr => hn ▸ w.portion_le_room os hr
  unfold taken accept
  cases hr : w.room with
  | none => simp
  | some r =>
    have hle := hroom r hr
    simp only [Option.map_some, List.length_take, Nat.min_eq_left hlength]
    rw [← List.take_add, Nat.add_sub_cancel' hle]

theorem fits_portion {n : Nat} (hn : n = w.portion os) :
    (w.accept (os.take n)).fits (os.drop n) = w.fits os := by
  have hlength : n ≤ os.length := hn ▸ w.portion_le_length os
  have hroom : ∀ r, w.room = some r → n ≤ r := fun r hr => hn ▸ w.portion_le_room os hr
  unfold fits accept
  cases hr : w.room with
  | none => rfl
  | some r =>
    have hle := hroom r hr
    simp only [Option.map_some, Option.all_some, List.length_take, List.length_drop,
      Nat.min_eq_left hlength, decide_eq_decide]
    omega

/-- All offers together come to one: what fits is accepted, whatever the pace. -/
theorem write_eq : w.write os = (w.fits os, w.accept (w.taken os)) := by
  fun_induction write w os with
  | case1 w os h =>
    obtain rfl := List.isEmpty_iff.mp h
    have ht : w.taken [] = [] := by unfold taken; cases w.room <;> simp
    have hf : w.fits [] = true := by unfold fits; cases w.room <;> simp
    rw [ht, accept_nil, hf]
  | case2 w os h n hn =>
    have ho : os ≠ [] := fun he => h (List.isEmpty_iff.mpr he)
    have hr := w.room_of_portion_eq_zero os ho hn
    have hlength : 0 < os.length := List.length_pos_iff.mpr ho
    have ht : w.taken os = [] := by simp [taken, hr]
    have hf : w.fits os = false := by
      simp only [fits, hr, Option.all_some, decide_eq_false_iff_not]
      omega
    rw [ht, accept_nil, hf]
  | case3 w os h n hn ih =>
    rw [ih, fits_portion w os rfl, accept_accept, taken_portion w os rfl]

theorem written_write : (w.write os).2.written = w.written ++ w.taken os := by
  rw [write_eq]
  rfl

theorem write_nil : (w.write []).2 = w := by
  unfold write
  rfl

/-- Octets that are written in two parts are written as one. -/
theorem write_write : ((w.write os).2.write ps).2 = (w.write (os ++ ps)).2 := by
  simp only [write_eq, accept_accept]
  congr 1
  obtain ⟨room, failsFlush, written, pace⟩ := w
  cases room with
  | none => rfl
  | some n =>
    simp only [taken, accept, Option.map_some, List.length_take, List.take_append]
    congr 2
    omega

/-- After what does not fit there is no room for more. -/
theorem write_of_not_fits (h : (w.write os).1 = false) :
    (w.write os).2 = (w.write (os ++ ps)).2 := by
  simp only [write_eq] at h ⊢
  obtain ⟨room, failsFlush, written, pace⟩ := w
  cases room with
  | none => cases h
  | some n =>
    have hn : n < os.length := by simpa [fits] using h
    simp only [taken, List.take_append_of_le_length (Nat.le_of_lt hn)]

end RecordStore.OctetWriter
