import Mathlib.Data.Bool.AllAny
import Mathlib.Tactic.SplitIfs
import RecordStore.Proofs.Text.Octets
import RecordStore.Source.IgnoreMark

/-!
How the search for the mark goes over a source. It passes over octets of which none starts
anything one by one, over comments and literals at once, and what lies ahead counts only by the
octet in front of it.
-/
namespace RecordStore.IgnoreMark

open Utf8

theorem occursIn_iff {part text : Octets} : occursIn part text = true ↔ part <:+: text := by
  induction text with
  | nil => simp [occursIn]
  | cons o text ih =>
    rw [occursIn, Bool.or_eq_true, List.isPrefixOf_iff_prefix, ih, List.infix_cons_iff]

/-- The mark by its characters. -/
def markChars : List Char := "marlow:ignore".toList

theorem occursIn_mark {cs : List Char} :
    occursIn mark (octets cs) = true ↔ markChars <:+: cs := by
  rw [occursIn_iff, mark, encode_eq]
  exact octets_infix_octets (List.all_iff_forall_prop.mp (by decide)) (by decide)

/-! ### One piece after the other -/

variable {before : Option UInt8} {text xs ys rest : Octets} {o : UInt8}

theorem extent_pos (ht : text ≠ []) : 0 < (extent before text).2 := by
  unfold extent
  split
  · simp [lineLength]
  · simp [blockLength]
  · dsimp only
    split
    · rw [rawLength]
      omega
    · exact Nat.one_pos
  · exact Nat.succ_pos _
  · dsimp only
    unfold charLength
    split <;> omega
  · exact Nat.one_pos

theorem piecesFrom_of_le {n m : Nat} (hn : text.length ≤ n) (hm : text.length ≤ m) :
    piecesFrom n before text = piecesFrom m before text := by
  induction n generalizing m before text with
  | zero =>
    obtain rfl := List.length_eq_zero_iff.mp (Nat.le_zero.mp hn)
    cases m <;> rfl
  | succ n ih =>
    cases text with
    | nil => cases m <;> rfl
    | cons o text =>
      cases m with
      | zero => exact absurd hm (by simp)
      | succ m =>
        have hl : 0 < (extent before (o :: text)).2 := extent_pos (List.cons_ne_nil o text)
        have hd : ((o :: text).drop (extent before (o :: text)).2).length ≤ text.length := by
          rw [List.length_drop, List.length_cons]
          omega
        rw [piecesFrom, piecesFrom]
        dsimp only
        rw [ih (hd.trans (Nat.le_of_succ_le_succ hn)) (hd.trans (Nat.le_of_succ_le_succ hm))]

/-- Whether a comment with the mark lies ahead, where `before` is the octet in front. -/
def marks (before : Option UInt8) (text : Octets) : Bool :=
  (piecesFrom text.length before text).any fun p => p.isComment && occursIn mark p.octets

theorem isIn_eq (source : String) : isIn source = marks none (octets source.toList) := by
  rw [isIn, pieces, encode_eq]
  rfl

@[simp]
theorem marks_nil : marks before [] = false := rfl

theorem marks_append {isComment : Bool} (h : extent before (xs ++ rest) = (isComment, xs.length))
    (hx : xs ≠ []) :
    marks before (xs ++ rest) = (isComment && occursIn mark xs || marks xs.getLast? rest) := by
  obtain ⟨o, ys, rfl⟩ := List.exists_cons_of_ne_nil hx
  rw [List.cons_append] at h ⊢
  rw [marks, List.length_cons, piecesFrom, h]
  dsimp only
  rw [← List.cons_append, List.take_left, List.drop_left, List.any_cons, marks,
    piecesFrom_of_le (m := rest.length) (by simp) le_rfl]

/-! ### Passing over octets -/

/-- Whether nothing is found in some octets, and the search goes on behind them. -/
def Passes (before : Option UInt8) (xs rest : Octets) : Prop :=
  marks before (xs ++ rest) = marks (xs.getLast?.or before) rest

theorem Passes.nil : Passes before [] rest := rfl

theorem Passes.append (hx : Passes before xs (ys ++ rest))
    (hy : Passes (xs.getLast?.or before) ys rest) : Passes before (xs ++ ys) rest := by
  unfold Passes at hx hy ⊢
  rw [List.append_assoc, hx, hy, List.getLast?_append, Option.or_assoc]

/-- What is no comment is passed over at once. -/
theorem Passes.of_extent (h : extent before (xs ++ rest) = (false, xs.length)) (hx : xs ≠ []) :
    Passes before xs rest := by
  rw [Passes, marks_append h hx, Bool.false_and, Bool.false_or,
    Option.or_of_isSome (by simpa using hx)]

theorem Passes.cons (ho : extent before (o :: (xs ++ rest)) = (false, 1))
    (hx : Passes (some o) xs rest) : Passes before (o :: xs) rest := by
  have hfirst : Passes before [o] (xs ++ rest) := .of_extent ho (List.cons_ne_nil _ _)
  exact hfirst.append hx

/-- Octets that start nothing. -/
def startOctets : List UInt8 := [0x2F, 0x72, 0x22, 0x27]

theorem extent_of_notMem (h : o ∉ startOctets) : extent before (o :: rest) = (false, 1) := by
  simp only [startOctets, List.mem_cons, List.not_mem_nil, or_false, not_or] at h
  obtain ⟨hslash, hr, hdouble, hsingle⟩ := h
  unfold extent
  split <;> simp_all

theorem passes_of_notMem (h : ∀ o ∈ xs, o ∉ startOctets) : Passes before xs rest := by
  induction xs generalizing before with
  | nil => exact .nil
  | cons o xs ih =>
    obtain ⟨ho, hx⟩ := List.forall_mem_cons.mp h
    exact .cons (extent_of_notMem ho) (ih hx)

/-- A slash that starts no comment. -/
theorem extent_slash (h : rest.head? ≠ some 0x2F) (h' : rest.head? ≠ some 0x2A) :
    extent before (0x2F :: rest) = (false, 1) := by
  unfold extent
  split <;> simp_all

/-- An `r` that starts no raw literal. -/
theorem extent_r (h : startsRaw before (0x72 :: rest) = false) :
    extent before (0x72 :: rest) = (false, 1) := by
  simp [extent, h]

/-! ### Lengths -/

theorem lineLength_append (hx : 0x0A ∉ xs) (hr : rest.head? = none ∨ rest.head? = some 0x0A) :
    lineLength (xs ++ rest) = xs.length := by
  induction xs with
  | nil =>
    cases rest with
    | nil => rfl
    | cons o rest =>
      obtain rfl : o = 0x0A := by simpa using hr
      rfl
  | cons o xs ih =>
    obtain ⟨ho, hx⟩ := not_or.mp (mt List.mem_cons.mpr hx)
    have ho : ¬(o == 0x0A) = true := by simpa using Ne.symm ho
    rw [List.cons_append, lineLength, if_neg ho, ih hx, List.length_cons]

theorem blockLength_cons {depth : Nat} (h : o = 0x2F → rest.head? ≠ some 0x2A)
    (h' : o = 0x2A → rest.head? ≠ some 0x2F) :
    blockLength depth (o :: rest) = blockLength depth rest + 1 := by
  cases rest with
  | nil =>
    rw [blockLength]
    · simp
    · simp
  | cons p rest =>
    rw [blockLength]
    · rintro q rfl hq
      exact h rfl (by rw [(List.cons.inj hq).1]; rfl)
    · rintro q rfl hq
      exact h' rfl (by rw [(List.cons.inj hq).1]; rfl)

theorem blockLength_append {depth : Nat} (h : ∀ o ∈ xs, o ≠ 0x2F ∧ o ≠ 0x2A) :
    blockLength depth (xs ++ rest) = blockLength depth rest + xs.length := by
  induction xs with
  | nil => rfl
  | cons o xs ih =>
    obtain ⟨ho, hx⟩ := List.forall_mem_cons.mp h
    rw [List.cons_append, blockLength_cons (fun h => absurd h ho.1) (fun h => absurd h ho.2),
      ih hx, List.length_cons, Nat.add_assoc]

theorem stringTail_append (h : ∀ o ∈ xs, o ≠ 0x22 ∧ o ≠ 0x5C) :
    stringTail (xs ++ rest) = stringTail rest + xs.length := by
  induction xs with
  | nil => rfl
  | cons o xs ih =>
    obtain ⟨⟨hq, hb⟩, hx⟩ := List.forall_mem_cons.mp h
    have hq : ¬(o == 0x22) = true := by simpa using hq
    rw [List.cons_append, stringTail, if_neg hq, ih hx, List.length_cons, Nat.add_assoc]
    exact fun a b c => absurd c hb

theorem rawTail_append {hashes : Nat} (h : 0x22 ∉ xs) :
    rawTail hashes (xs ++ rest) = rawTail hashes rest + xs.length := by
  induction xs with
  | nil => rfl
  | cons o xs ih =>
    obtain ⟨ho, hx⟩ := not_or.mp (mt List.mem_cons.mpr h)
    have ho : (o == 0x22) = false := by simpa using Ne.symm ho
    rw [List.cons_append, rawTail, ho, Bool.false_and, if_neg Bool.false_ne_true, ih hx,
      List.length_cons, Nat.add_assoc]

theorem quoteTail_append (h : 0x27 ∉ xs) : quoteTail (xs ++ 0x27 :: rest) = xs.length + 1 := by
  rw [quoteTail, List.takeWhile_append_of_pos]
  · simp
  · intro o ho
    have hne : o ≠ 0x27 := fun he => h (he ▸ ho)
    simpa using hne

end RecordStore.IgnoreMark
