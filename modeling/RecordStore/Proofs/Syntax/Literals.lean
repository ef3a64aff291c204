import Mathlib.Data.List.TakeWhile
import Mathlib.Data.Option.Basic
import RecordStore.Proofs.Syntax.Separation

/-!
Literals that are written. A text that is written as a literal is read as that literal: every
character is written as itself or as an escape, and the lexer takes either in one round. A number is
read off its digits.
-/
namespace RecordStore.Lexer

open CharClass

theorem hexValue?_digitChar {n : Nat} (h : n < 16) : hexValue? n.digitChar = some n := by
  have hall : ∀ m < 16, hexValue? (Nat.digitChar m) = some m := by decide
  exact hall n h

theorem digitChar_ne {n : Nat} (h : n < 16) : n.digitChar ≠ '_' ∧ n.digitChar ≠ '\x7d' := by
  have hall : ∀ m < 16, Nat.digitChar m ≠ '_' ∧ Nat.digitChar m ≠ '\x7d' := by decide
  exact hall n h

theorem codePoint?_digit {n k v : Nat} {cs : Chars} (h : n < 16) (hk : k < 6) :
    codePoint? k v (n.digitChar :: cs) = (codePoint? (k + 1) (16 * v + n) cs).map fun x =>
      (x.1, also [n.digitChar] x.2) := by
  obtain ⟨h₁, h₂⟩ := digitChar_ne h
  rw [codePoint?]
  simp [h₁, h₂, hexValue?_digitChar h, Nat.ne_of_lt hk]

/-- The digits of a number are read as the number. -/
theorem codePoint?_toDigits {n : Nat} {cs : Chars} (h : (Nat.toDigits 16 n).length ≤ 6) :
    codePoint? 0 0 (Nat.toDigits 16 n ++ cs) =
      (codePoint? (Nat.toDigits 16 n).length n cs).map fun x =>
        (x.1, also (Nat.toDigits 16 n) x.2) := by
  induction n using Nat.strongRecOn generalizing cs with
  | ind n ih =>
    rw [Nat.toDigits_eq_if (by decide)] at h ⊢
    split
    next hn => simpa using codePoint?_digit (v := 0) hn (Nat.succ_pos 5)
    next hn =>
      rw [if_neg hn, List.length_append, List.length_singleton] at h
      have hd : n % 16 < 16 := Nat.mod_lt n (by decide)
      rw [List.append_assoc, ih (n / 16) (by omega) (by omega), List.singleton_append,
        codePoint?_digit hd (by omega), Option.map_map, List.length_append,
        List.length_singleton, Nat.div_add_mod]
      congr 1
      funext x
      simp [also]

/-- An escape by code point. -/
theorem escape?_codePoint (c : Char) (rest : Chars) :
    escape? .ofText ('u' :: '\x7b' :: (Nat.toDigits 16 c.toNat ++ '\x7d' :: rest)) =
      some ('u' :: '\x7b' :: (Nat.toDigits 16 c.toNat ++ ['\x7d']), rest) := by
  have hvalid : c.toNat < 0xD800 ∨ 0xE000 ≤ c.toNat ∧ c.toNat < 0x110000 := by
    have hc := c.valid
    change c.toNat < 0xD800 ∨ 0xDFFF < c.toNat ∧ c.toNat < 0x110000 at hc
    omega
  have hlt : c.toNat < 16 ^ 6 := by
    have : (0x110000 : Nat) < 16 ^ 6 := by decide
    omega
  have hlen := (Nat.length_toDigits_le_iff (by decide) (by decide)).mpr hlt
  have hpos : 0 < (Nat.toDigits 16 c.toNat).length :=
    List.length_pos_of_ne_nil Nat.toDigits_ne_nil
  have hend : codePoint? (Nat.toDigits 16 c.toNat).length c.toNat ('\x7d' :: rest) =
      some (c.toNat, ['\x7d'], rest) := by
    rw [codePoint?]
    simp [hpos, hvalid]
  simp [escape?, after?, codePoint?_toDigits hlen, hend, also, QuoteRules.ofText]

/-- One round of reading a quoted text takes what is written for one character. -/
theorem quoted_escapeChar (c x : Char) (next : Option Char) {fuel rest : Chars} {t : Taken}
    (h : quoted .ofText fuel rest = some t) :
    quoted .ofText (x :: fuel) ((Literal.escapeChar c next).toList ++ rest) =
      some (also (Literal.escapeChar c next).toList t) := by
  have hescape {e : Chars} (he : escape? .ofText (e ++ rest) = some (e, rest))
      (hn : e.head?.all fun c => c != '\n' && c != '\r') (hne : e ≠ []) :
      quoted .ofText (x :: fuel) ('\\' :: (e ++ rest)) = some (also ('\\' :: e) t) := by
    obtain ⟨d, e, rfl⟩ := List.exists_cons_of_ne_nil hne
    have hd : d ≠ '\n' ∧ d ≠ '\r' := by simpa using hn
    rw [List.cons_append] at he ⊢
    unfold quoted
    simp [he, andThen, h, also, hd]
  have hplain {d : Char} (hd : d ≠ '"' ∧ d ≠ '\r' ∧ d ≠ '\\') :
      quoted .ofText (x :: fuel) (d :: rest) = some (also [d] t) := by
    unfold quoted
    have hascii : (QuoteRules.ofText.ascii && 128 ≤ d.toNat) = false := rfl
    have hnul : (!QuoteRules.ofText.nul && d == '\x00') = false := rfl
    simp [hd, hascii, hnul, andThen, h, also]
  unfold Literal.escapeChar
  split
  · split
    · exact hescape (e := ['x', '0', '0']) rfl rfl (List.cons_ne_nil _ _)
    · exact hescape (e := ['0']) rfl rfl (List.cons_ne_nil _ _)
  split
  · exact hescape (e := ['t']) rfl rfl (List.cons_ne_nil _ _)
  split
  · exact hescape (e := ['r']) rfl rfl (List.cons_ne_nil _ _)
  split
  · exact hescape (e := ['n']) rfl rfl (List.cons_ne_nil _ _)
  split
  · exact hescape (e := ['"']) rfl rfl (List.cons_ne_nil _ _)
  split
  · exact hescape (e := ['\\']) rfl rfl (List.cons_ne_nil _ _)
  next h₁ h₂ h₃ h₄ h₅ h₆ =>
    have hc : c ≠ '"' ∧ c ≠ '\r' ∧ c ≠ '\\' := by
      simp only [beq_iff_eq] at h₃ h₅ h₆
      exact ⟨h₅, h₃, h₆⟩
    have hone : c.toString.toList = [c] := by simp
    split
    · rw [hone]
      exact hplain hc
    split
    · have he := hescape (e := 'u' :: '\x7b' :: (Nat.toDigits 16 c.toNat ++ ['\x7d']))
        (by simpa using escape?_codePoint c rest) rfl (List.cons_ne_nil _ _)
      simpa [Literal.hexDigits] using he
    · rw [hone]
      exact hplain hc

theorem quoted_escape (cs : List Char) {fuel : Chars} (h : cs.length < fuel.length) :
    quoted .ofText fuel ((Literal.escape cs).toList ++ ['"']) =
      some ((Literal.escape cs).toList ++ ['"'], []) := by
  induction cs generalizing fuel with
  | nil =>
    obtain ⟨x, fuel, rfl⟩ := List.exists_cons_of_length_pos (Nat.zero_lt_of_lt h)
    rfl
  | cons c cs ih =>
    obtain ⟨x, fuel, rfl⟩ := List.exists_cons_of_length_pos (Nat.zero_lt_of_lt h)
    have hr := quoted_escapeChar c x cs.head? (ih (Nat.lt_of_succ_lt_succ h))
    simpa [Literal.escape, also] using hr

theorem length_le_escape (cs : List Char) : cs.length ≤ (Literal.escape cs).toList.length := by
  induction cs with
  | nil => rfl
  | cons c cs ih =>
    have hc : 0 < (Literal.escapeChar c cs.head?).toList.length := by
      unfold Literal.escapeChar
      repeat' split
      all_goals first | decide | simp
    rw [Literal.escape, String.toList_append, List.length_append, List.length_cons]
    omega

/-- A text in quotes is a literal. -/
theorem leaf?_quote (s : String) :
    leaf? (Literal.quote s).toList = some (.literal (Literal.quote s), []) := by
  have hq : (Literal.quote s).toList = '"' :: ((Literal.escape s.toList).toList ++ ['"']) := by
    simp [Literal.quote]
  have hl : literal? (Literal.quote s).toList = some ((Literal.quote s).toList, []) := by
    rw [hq, literal?_quote (by decide)]
    have hlength : s.toList.length < ((Literal.escape s.toList).toList ++ ['"']).length := by
      simpa [Nat.lt_succ_iff] using length_le_escape s.toList
    simp [quotedOrRaw, andThen, fixed, after?, quoted_escape s.toList hlength, also]
  simp [leaf?, hl]

/-! ### Numbers -/

variable {c : Char} {cs : Chars}

theorem exists_digitChar (h : c.isDigit = true) : ∃ m < 10, c = m.digitChar := by
  have hc : 48 ≤ c.toNat ∧ c.toNat ≤ 57 := by
    have hd : (48 : UInt32) ≤ c.val ∧ c.val ≤ 57 := by simpa [Char.isDigit] using h
    exact ⟨UInt32.le_iff_toNat_le.mp hd.1, UInt32.le_iff_toNat_le.mp hd.2⟩
  have hall : ∀ m < 10, Char.ofNat (48 + m) = Nat.digitChar m := by decide
  refine ⟨c.toNat - 48, by omega, ?_⟩
  rw [← hall _ (by omega), Nat.add_sub_cancel' hc.1, Char.ofNat_toNat]

theorem digitsOf_digits (h : ∀ c ∈ cs, c.isDigit = true) {empty : Bool}
    (he : empty = true → cs ≠ []) : digitsOf 10 empty cs = some (cs, []) := by
  induction cs generalizing empty with
  | nil =>
    cases empty with
    | true => exact absurd rfl (he rfl)
    | false => rfl
  | cons c cs ih =>
    obtain ⟨m, hm, rfl⟩ := exists_digitChar (h c List.mem_cons_self)
    have hrest : digitsOf 10 false cs = some (cs, []) :=
      ih (fun d hd => h d (List.mem_cons_of_mem _ hd)) nofun
    rw [digitsOf]
    simp [(digitChar_ne (by omega : m < 16)).1, hexValue?_digitChar (by omega : m < 16), hm, hrest,
      also]

/-- Digits are read as a number. -/
theorem leaf?_digits (h : ∀ c ∈ cs, c.isDigit = true) (hne : cs ≠ []) :
    leaf? cs = some (.literal (String.ofList cs), []) := by
  have hspan : cs.span isDigitOrBlank = (cs, []) := by
    have hall : ∀ c ∈ cs, isDigitOrBlank c = true := fun c hc => by simp [isDigitOrBlank, h c hc]
    rw [List.span_eq_takeWhile_dropWhile, List.takeWhile_eq_self_iff.mpr hall,
      List.dropWhile_eq_nil_iff.mpr hall]
  have hdigits : digitsOf 10 true cs = some (cs, []) := digitsOf_digits h fun _ => hne
  obtain ⟨c, rest, rfl⟩ := List.exists_cons_of_ne_nil hne
  have hfloat : float (c :: rest) = none := by
    rw [float, hspan]
    simp [h c List.mem_cons_self, andThen, fraction, exponentAhead]
  have hint : int (c :: rest) = some (c :: rest, []) := by
    have hbase (d : Char) (hd : d.isDigit = false) (left : Chars) :
        c :: rest ≠ '0' :: d :: left := by
      rintro he
      cases he
      simp [h d (by simp)] at hd
    rw [int, hdigits]
    · simp [andThen, numberSuffix, suffix, name?, also]
    · exact fun left he => hbase 'x' (by decide) left he
    · exact fun left he => hbase 'o' (by decide) left he
    · exact fun left he => hbase 'b' (by decide) left he
  obtain ⟨m, hm, rfl⟩ := exists_digitChar (h c List.mem_cons_self)
  have hmarks : ∀ m < 10, Nat.digitChar m ≠ '"' ∧ Nat.digitChar m ≠ 'r' ∧ Nat.digitChar m ≠ 'b' ∧
      Nat.digitChar m ≠ 'c' ∧ Nat.digitChar m ≠ '\'' := by decide
  obtain ⟨h₁, h₂, h₃, h₄, h₅⟩ := hmarks m hm
  have hl : literal? (m.digitChar :: rest) = some (m.digitChar :: rest, []) := by
    simp [literal?, quotedOrRaw, andThen, fixed, after?, hfloat, hint, h₁, h₂, h₃.symm, h₄.symm,
      h₅.symm]
  rw [leaf?, hl]

end RecordStore.Lexer
