import Mathlib.Data.List.Infix
import RecordStore.Text.Utf8

/-!
UTF-8 octets of characters. A character of ASCII is one octet, and its octet is part of no other
character, so texts can be searched for ASCII by their octets.
-/
namespace RecordStore.Utf8

/-- A list of octets is read from the back of what has been read before, `n` octets more. -/
theorem toList_loop (bytes : ByteArray) : ∀ {n i : Nat} (before : List UInt8),
    i + n = bytes.size →
      ByteArray.toList.loop bytes i before = before.reverse ++ bytes.data.toList.drop i
  | 0, i, before, h => by
    rw [ByteArray.toList.loop, if_neg (by omega), List.drop_of_length_le (by simp; omega),
      List.append_nil]
  | n + 1, i, before, h => by
    have hi : i < bytes.size := by omega
    rw [ByteArray.toList.loop, if_pos hi, toList_loop bytes (n := n) _ (by omega),
      List.reverse_cons, List.append_assoc, List.drop_eq_getElem_cons (i := i) (by simpa using hi)]
    simp [ByteArray.get!, hi]

/-- The octets of some characters. -/
def octets (cs : List Char) : List UInt8 := cs.flatMap String.utf8EncodeChar

theorem encode_eq (s : String) : encode s = octets s.toList := by
  rw [encode, String.toUTF8_eq_toByteArray, ← String.utf8Encode_toList, ByteArray.toList,
    toList_loop _ _ (Nat.zero_add _)]
  simp [List.utf8Encode, octets]

@[simp]
theorem octets_nil : octets [] = [] := rfl

@[simp]
theorem octets_append (cs ds : List Char) : octets (cs ++ ds) = octets cs ++ octets ds :=
  List.flatMap_append

theorem octets_cons (c : Char) (cs : List Char) :
    octets (c :: cs) = String.utf8EncodeChar c ++ octets cs :=
  rfl

/-- Characters of one octet. -/
def IsAscii (c : Char) : Prop := c.toNat < 128

instance (c : Char) : Decidable (IsAscii c) := inferInstanceAs (Decidable (c.toNat < 128))

/-- The octet of a character of ASCII. -/
def octet (c : Char) : UInt8 := UInt8.ofNat c.toNat

variable {a b c : Char} {cs : List Char} {o : UInt8}

theorem utf8EncodeChar_of_isAscii (h : IsAscii c) : String.utf8EncodeChar c = [octet c] := by
  have hc : c.val.toNat ≤ 127 := Nat.le_of_lt_succ h
  simp only [String.utf8EncodeChar, hc, if_true]
  rfl

theorem le_of_mem_utf8EncodeChar (h : ¬IsAscii c) (ho : o ∈ String.utf8EncodeChar c) :
    128 ≤ o.toNat := by
  have hc : ¬c.val.toNat ≤ 127 := fun hc => h (Nat.lt_succ_of_le hc)
  simp only [String.utf8EncodeChar, hc, if_false] at ho
  split at ho
  · simp only [List.mem_cons, List.not_mem_nil, or_false] at ho
    rcases ho with rfl | rfl <;> simp only [UInt8.toNat_ofNat'] <;> omega
  split at ho
  · simp only [List.mem_cons, List.not_mem_nil, or_false] at ho
    rcases ho with rfl | rfl | rfl <;> simp only [UInt8.toNat_ofNat'] <;> omega
  · simp only [List.mem_cons, List.not_mem_nil, or_false] at ho
    rcases ho with rfl | rfl | rfl | rfl <;> simp only [UInt8.toNat_ofNat'] <;> omega

theorem utf8EncodeChar_ne_nil (c : Char) : String.utf8EncodeChar c ≠ [] := by
  unfold String.utf8EncodeChar
  dsimp only
  split_ifs <;> simp

theorem octets_ne_nil (h : cs ≠ []) : octets cs ≠ [] := by
  obtain ⟨c, cs, rfl⟩ := List.exists_cons_of_ne_nil h
  rw [octets_cons]
  exact List.append_ne_nil_of_left_ne_nil (utf8EncodeChar_ne_nil c) _

theorem octets_cons_of_isAscii (h : IsAscii c) : octets (c :: cs) = octet c :: octets cs := by
  rw [octets_cons, utf8EncodeChar_of_isAscii h]
  rfl

theorem toNat_octet (h : IsAscii c) : (octet c).toNat = c.toNat :=
  Nat.mod_eq_of_lt (Nat.lt_trans h (by decide))

theorem octet_inj (ha : IsAscii a) (hb : IsAscii b) (h : octet a = octet b) : a = b := by
  have hn := congrArg UInt8.toNat h
  rw [toNat_octet ha, toNat_octet hb] at hn
  exact Char.toNat_inj.mp hn

/-- An octet of ASCII belongs to its own character only. -/
theorem octet_mem_utf8EncodeChar (ha : IsAscii a) : octet a ∈ String.utf8EncodeChar c ↔ c = a := by
  constructor
  · intro h
    by_cases hc : IsAscii c
    · rw [utf8EncodeChar_of_isAscii hc, List.mem_singleton] at h
      exact (octet_inj ha hc h).symm
    · have hl := le_of_mem_utf8EncodeChar hc h
      rw [toNat_octet ha] at hl
      exact absurd ha (Nat.not_lt.mpr hl)
  · rintro rfl
    rw [utf8EncodeChar_of_isAscii ha]
    exact List.mem_cons_self

theorem octet_mem_octets (ha : IsAscii a) : octet a ∈ octets cs ↔ a ∈ cs := by
  simp only [octets, List.mem_flatMap, octet_mem_utf8EncodeChar ha]
  exact ⟨fun ⟨c, hc, he⟩ => he ▸ hc, fun h => ⟨a, h, rfl⟩⟩

/-- The first octet of a text tells whether a character of ASCII comes first. -/
theorem octets_eq_cons {rest : List UInt8} (ha : IsAscii a) (h : octets cs = octet a :: rest) :
    ∃ ds, cs = a :: ds ∧ rest = octets ds := by
  cases cs with
  | nil => cases h
  | cons c cs =>
    have hc : c = a := by
      rw [← octet_mem_utf8EncodeChar ha]
      rw [octets_cons] at h
      cases hn : String.utf8EncodeChar c with
      | nil => exact absurd hn (utf8EncodeChar_ne_nil c)
      | cons o os =>
        rw [hn] at h
        obtain ⟨rfl, -⟩ := List.cons.inj h
        exact List.mem_cons_self
    subst hc
    rw [octets_cons_of_isAscii ha] at h
    exact ⟨cs, rfl, (List.cons.inj h).2.symm⟩

/-! ### Searching for ASCII -/

theorem octets_prefix_octets {part : List Char} (hp : ∀ c ∈ part, IsAscii c) :
    octets part <+: octets cs ↔ part <+: cs := by
  induction part generalizing cs with
  | nil => simp
  | cons a part ih =>
    obtain ⟨ha, hpart⟩ := List.forall_mem_cons.mp hp
    rw [octets_cons_of_isAscii ha]
    constructor
    · rintro ⟨rest, h⟩
      obtain ⟨ds, rfl, hd⟩ := octets_eq_cons ha h.symm
      exact List.cons_prefix_cons.mpr ⟨rfl, (ih hpart).mp ⟨rest, hd⟩⟩
    · intro h
      obtain ⟨rest, rfl⟩ := h
      rw [List.cons_append, octets_cons_of_isAscii ha, List.cons_prefix_cons]
      exact ⟨rfl, (ih hpart).mpr ⟨rest, rfl⟩⟩

/-- A text of ASCII stands in another text where its octets stand in the octets of that. -/
theorem octets_infix_octets {part : List Char} (hp : ∀ c ∈ part, IsAscii c) (hne : part ≠ []) :
    octets part <:+: octets cs ↔ part <:+: cs := by
  obtain ⟨a, part', rfl⟩ := List.exists_cons_of_ne_nil hne
  have ha : IsAscii a := hp a List.mem_cons_self
  -- an occurrence cannot start inside of a character
  have hskip (os rest : List UInt8) (ho : octet a ∉ os) :
      octets (a :: part') <:+: os ++ rest ↔ octets (a :: part') <:+: rest := by
    induction os with
    | nil => rfl
    | cons o os ih =>
      obtain ⟨hne, hos⟩ := not_or.mp (mt List.mem_cons.mpr ho)
      rw [List.cons_append, List.infix_cons_iff, ih hos, octets_cons_of_isAscii ha,
        List.cons_prefix_cons]
      exact or_iff_right fun h => hne h.1
  induction cs with
  | nil => simp [octets_cons_of_isAscii ha]
  | cons c cs ih =>
    rw [List.infix_cons_iff]
    refine Iff.trans ?_ (or_congr (octets_prefix_octets hp) ih)
    by_cases hc : c = a
    · subst hc
      rw [@octets_cons_of_isAscii _ cs ha, List.infix_cons_iff]
    · have hno : octet a ∉ String.utf8EncodeChar c := mt (octet_mem_utf8EncodeChar ha).mp hc
      refine (hskip _ _ hno).trans (or_iff_right fun h => hc ?_).symm
      exact (List.cons_prefix_cons.mp ((octets_prefix_octets hp).mp h)).1.symm

end RecordStore.Utf8
