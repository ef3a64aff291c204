/-!
Double-precision numbers by their bits. Integers are rounded to the nearest double, and doubles to
the nearest one that single precision has too; a tie goes to the even neighbour. Rounding to single
precision twice is rounding once.

The exponent counts steps of `0x10000000000000`, which has 53 digits in base two: what stands below
it are the digits of the number, the first of which is left out. The sign is the digit above.
-/
namespace RecordStore

/-- A power of two. -/
def twoPow (n : Nat) : Nat := Nat.pow 2 n

theorem twoPow_pos (n : Nat) : 0 < twoPow n := Nat.two_pow_pos n

theorem twoPow_eq_mul {n d : Nat} (h : d ≤ n) : twoPow n = twoPow (n - d) * twoPow d := by
  have hadd := Nat.pow_add 2 (n - d) d
  rw [Nat.sub_add_cancel h] at hadd
  exact hadd

namespace Double

/-- The bits from which on a magnitude is infinite. -/
def infinity : Nat := 2047 * 0x10000000000000

/-- How many units a number holds, to the nearest one. -/
def roundUnits (n unit : Nat) : Nat :=
  let q := n / unit
  let r := n % unit
  if unit < 2 * r || (2 * r == unit && q % 2 == 1) then q + 1 else q

/-- The bits of a whole number: its first 53 digits, below the exponent. A carry out of the digits
raises the exponent, as it has to. -/
def ofNat (n : Nat) : Nat :=
  if n = 0 then 0
  else
    let e := n.log2
    let digits := if e ≤ 52 then n * twoPow (52 - e) else roundUnits n (twoPow (e - 52))
    (1022 + e) * 0x10000000000000 + digits

def ofInt (i : Int) : UInt64 :=
  UInt64.ofNat ((if i < 0 then 0x8000000000000000 else 0) + ofNat i.natAbs)

/-- A payload that single precision can keep, marked as quiet. -/
def quietPayload (m : Nat) : Nat :=
  let kept := m / 0x20000000 * 0x20000000
  if kept < 0x8000000000000 then kept + 0x8000000000000 else kept

/-- How many of the last digits single precision lacks: 29, and more where its exponents end. -/
def droppedDigits (exponent : Nat) : Nat := 29 + (897 - exponent)

/-- Digits under an exponent; no digits are zero, and what is too great for single precision is
infinite. -/
def packSingle (exponent digits : Nat) : Nat :=
  let a := if digits = 0 then 0 else (exponent - 1) * 0x10000000000000 + digits
  if 1151 * 0x10000000000000 ≤ a then infinity else a

/-- The magnitude that single precision has for a magnitude. -/
def singleMagnitude (a : Nat) : Nat :=
  let e := a / 0x10000000000000
  let m := a % 0x10000000000000
  if e = 2047 then if m = 0 then a else infinity + quietPayload m
  else
    let d := droppedDigits e
    if e = 0 ∨ 53 < d then 0
    else packSingle e (roundUnits (0x10000000000000 + m) (twoPow d) * twoPow d)

/-- The nearest number of single precision. -/
def toSingle (bits : UInt64) : UInt64 :=
  let n := bits.toNat
  UInt64.ofNat
    (n / 0x8000000000000000 * 0x8000000000000000 + singleMagnitude (n % 0x8000000000000000))

/-! ### Rounding twice -/

theorem roundUnits_mul {k u : Nat} (h : 0 < u) : roundUnits (k * u) u = k := by
  have hu : ¬u < 0 := by omega
  have h0 : ¬(0 = u) := by omega
  simp [roundUnits, Nat.mul_div_cancel _ h, h0]

theorem roundUnits_le {n k u : Nat} (hu : 0 < u) (h : n ≤ k * u) : roundUnits n u ≤ k := by
  have hdm := Nat.div_add_mod n u
  have hm := Nat.mod_lt n hu
  have hq : n / u ≤ k := Nat.div_le_of_le_mul (by rw [Nat.mul_comm]; exact h)
  simp only [roundUnits]
  split
  · rcases Nat.lt_or_eq_of_le hq with hlt | heq
    · omega
    · rw [heq, Nat.mul_comm] at hdm
      simp_all
      omega
  · exact hq

theorem le_roundUnits {n k u : Nat} (hu : 0 < u) (h : k * u ≤ n) : k ≤ roundUnits n u := by
  have hq : k ≤ n / u := (Nat.le_div_iff_mul_le hu).2 h
  simp only [roundUnits]
  split <;> omega

/-- Rounded digits are none, as many as before, or one more of which all others are zero. -/
theorem rounded_digits {s d : Nat} (hs : 0x10000000000000 ≤ s) (hs' : s < 0x20000000000000)
    (hd : d ≤ 53) :
    roundUnits s (twoPow d) * twoPow d = 0 ∨
      0x10000000000000 ≤ roundUnits s (twoPow d) * twoPow d ∧
        roundUnits s (twoPow d) * twoPow d ≤ 0x20000000000000 := by
  have hp := twoPow_pos d
  have h52 : twoPow 52 = 0x10000000000000 := by decide
  have h53 : twoPow 53 = 0x20000000000000 := by decide
  have hle : roundUnits s (twoPow d) ≤ twoPow (53 - d) :=
    roundUnits_le hp (by rw [← twoPow_eq_mul hd]; omega)
  have hmul := Nat.mul_le_mul_right (twoPow d) hle
  rw [← twoPow_eq_mul hd, h53] at hmul
  rcases Nat.lt_or_ge 52 d with h | h
  · obtain rfl : d = 53 := by omega
    rw [h53] at hmul ⊢
    rcases Nat.eq_zero_or_pos (roundUnits s 0x20000000000000) with h0 | h1
    · exact Or.inl (by rw [h0, Nat.zero_mul])
    · exact Or.inr ⟨by omega, hmul⟩
  · have hge : twoPow (52 - d) ≤ roundUnits s (twoPow d) :=
      le_roundUnits hp (by rw [← twoPow_eq_mul h, h52]; exact hs)
    have hmul' := Nat.mul_le_mul_right (twoPow d) hge
    rw [← twoPow_eq_mul h, h52] at hmul'
    exact Or.inr ⟨hmul', hmul⟩

theorem quietPayload_bounds {m : Nat} (h : m < 0x10000000000000) :
    0x8000000000000 ≤ quietPayload m ∧ quietPayload m < 0x10000000000000 := by
  simp only [quietPayload]
  split <;> omega

theorem quietPayload_fixed {m : Nat} (h : m < 0x10000000000000) :
    quietPayload (quietPayload m) = quietPayload m := by
  have hb := quietPayload_bounds h
  have hu : quietPayload m / 0x20000000 * 0x20000000 = quietPayload m := by
    simp only [quietPayload]
    split <;> omega
  generalize quietPayload m = q at *
  simp only [quietPayload, hu]
  rw [if_neg (by omega)]

theorem singleMagnitude_infinity : singleMagnitude infinity = infinity := by decide

theorem singleMagnitude_nan {m : Nat} (h0 : 0 < m) (h : m < 0x10000000000000) :
    singleMagnitude (infinity + m) = infinity + quietPayload m := by
  have he : (infinity + m) / 0x10000000000000 = 2047 := by simp only [infinity]; omega
  have hm : (infinity + m) % 0x10000000000000 = m := by simp only [infinity]; omega
  simp only [singleMagnitude, he, hm, if_true]
  rw [if_neg (by omega)]

theorem singleMagnitude_finite {e m : Nat} (he : e < 2047) (hm : m < 0x10000000000000)
    (hd : droppedDigits e ≤ 53) (h0 : 0 < e) :
    singleMagnitude (e * 0x10000000000000 + m) =
      packSingle e (roundUnits (0x10000000000000 + m) (twoPow (droppedDigits e)) *
        twoPow (droppedDigits e)) := by
  have hq : (e * 0x10000000000000 + m) / 0x10000000000000 = e := by omega
  have hr : (e * 0x10000000000000 + m) % 0x10000000000000 = m := by omega
  simp only [singleMagnitude, hq, hr]
  rw [if_neg (by omega), if_neg (by omega)]

/-- Digits that are whole units already are kept. -/
theorem singleMagnitude_packSingle {e k : Nat} (he : e < 2047) (h0 : 0 < e)
    (hd : droppedDigits e ≤ 53)
    (h : 0x10000000000000 ≤ k * twoPow (droppedDigits e))
    (h' : k * twoPow (droppedDigits e) < 0x20000000000000) :
    singleMagnitude ((e - 1) * 0x10000000000000 + k * twoPow (droppedDigits e)) =
      packSingle e (k * twoPow (droppedDigits e)) := by
  have hk : roundUnits (k * twoPow (droppedDigits e)) (twoPow (droppedDigits e)) = k :=
    roundUnits_mul (twoPow_pos _)
  generalize hD : k * twoPow (droppedDigits e) = D at *
  have hs : (e - 1) * 0x10000000000000 + D = e * 0x10000000000000 + (D - 0x10000000000000) := by
    omega
  have hD' : 0x10000000000000 + (D - 0x10000000000000) = D := by omega
  rw [hs, singleMagnitude_finite he (by omega) hd h0, hD', hk, hD]

theorem singleMagnitude_carry {e : Nat} (he : e < 2046) (hd : droppedDigits (e + 1) ≤ 52)
    (h : (e + 1) * 0x10000000000000 < 1151 * 0x10000000000000) :
    singleMagnitude ((e + 1) * 0x10000000000000) = (e + 1) * 0x10000000000000 := by
  have h52 : twoPow 52 = 0x10000000000000 := by decide
  have hr : roundUnits 0x10000000000000 (twoPow (droppedDigits (e + 1))) *
      twoPow (droppedDigits (e + 1)) = 0x10000000000000 := by
    have hm := twoPow_eq_mul hd
    rw [h52] at hm
    rw [hm, roundUnits_mul (twoPow_pos _)]
  have hs :=
    singleMagnitude_finite (e := e + 1) (m := 0) (by omega) (by omega) (by omega) (by omega)
  rw [show 0x10000000000000 + 0 = 0x10000000000000 from rfl, hr, Nat.add_zero] at hs
  rw [hs]
  simp only [packSingle]
  have h0 : ¬(0x10000000000000 = 0) := by decide
  rw [if_neg h0, if_neg (by omega)]
  omega

theorem singleMagnitude_rounded {e k : Nat} (he : e < 2047) (h0 : 0 < e)
    (hd : droppedDigits e ≤ 53)
    (hr : k * twoPow (droppedDigits e) = 0 ∨
      0x10000000000000 ≤ k * twoPow (droppedDigits e) ∧
        k * twoPow (droppedDigits e) ≤ 0x20000000000000) :
    singleMagnitude (packSingle e (k * twoPow (droppedDigits e))) =
      packSingle e (k * twoPow (droppedDigits e)) := by
  rcases hr with hz | ⟨hlo, hhi⟩
  · rw [hz, show packSingle e 0 = 0 by simp [packSingle]]
    decide
  have hnz : ¬(k * twoPow (droppedDigits e) = 0) := by omega
  by_cases hinf :
      1151 * 0x10000000000000 ≤ (e - 1) * 0x10000000000000 + k * twoPow (droppedDigits e)
  · have : packSingle e (k * twoPow (droppedDigits e)) = infinity := by
      simp only [packSingle]
      rw [if_neg hnz, if_pos hinf]
    rw [this, singleMagnitude_infinity]
  have hp : packSingle e (k * twoPow (droppedDigits e)) =
      (e - 1) * 0x10000000000000 + k * twoPow (droppedDigits e) := by
    simp only [packSingle]
    rw [if_neg hnz, if_neg hinf]
  rcases Nat.lt_or_eq_of_le hhi with hlt | heq
  · rw [hp, singleMagnitude_packSingle he h0 hd hlo hlt, hp]
  · have hs : (e - 1) * 0x10000000000000 + 0x20000000000000 = (e + 1) * 0x10000000000000 := by
      omega
    rw [hp, heq, hs]
    exact singleMagnitude_carry (by omega) (by simp only [droppedDigits] at hd ⊢; omega) (by omega)

theorem singleMagnitude_fixed {a : Nat} (ha : a < 0x8000000000000000) :
    singleMagnitude (singleMagnitude a) = singleMagnitude a := by
  obtain ⟨e, m, hm, rfl⟩ : ∃ e m, m < 0x10000000000000 ∧ a = e * 0x10000000000000 + m :=
    ⟨a / 0x10000000000000, a % 0x10000000000000, by omega, by omega⟩
  by_cases he : e = 2047
  · subst he
    rcases Nat.eq_zero_or_pos m with rfl | h0
    · decide
    · have hq := quietPayload_bounds hm
      rw [show 2047 * 0x10000000000000 = infinity from rfl, singleMagnitude_nan h0 hm,
        singleMagnitude_nan (by omega) hq.2, quietPayload_fixed hm]
  by_cases hz : e = 0 ∨ 53 < droppedDigits e
  · have hq : (e * 0x10000000000000 + m) / 0x10000000000000 = e := by omega
    have : singleMagnitude (e * 0x10000000000000 + m) = 0 := by
      simp only [singleMagnitude, hq, he, hz, if_false, if_true]
    rw [this]
    decide
  · have hd : droppedDigits e ≤ 53 := by omega
    rw [singleMagnitude_finite (by omega) hm hd (by omega)]
    exact singleMagnitude_rounded (by omega) (by omega) hd
      (rounded_digits (s := 0x10000000000000 + m) (by omega) (by omega) hd)

theorem singleMagnitude_lt {a : Nat} (ha : a < 0x8000000000000000) :
    singleMagnitude a < 0x8000000000000000 := by
  simp only [singleMagnitude]
  split
  · split
    · exact ha
    · have := quietPayload_bounds (m := a % 0x10000000000000) (by omega)
      simp only [infinity]
      omega
  · split
    · decide
    · simp only [packSingle, infinity]
      split <;> split <;> omega

theorem toSingle_toSingle (b : UInt64) : toSingle (toSingle b) = toSingle b := by
  have hb : b.toNat < 0x10000000000000000 := b.toNat_lt
  have hm := singleMagnitude_lt (a := b.toNat % 0x8000000000000000) (by omega)
  have hf := singleMagnitude_fixed (a := b.toNat % 0x8000000000000000) (by omega)
  simp only [toSingle]
  generalize singleMagnitude (b.toNat % 0x8000000000000000) = r at *
  have hn : (UInt64.ofNat (b.toNat / 0x8000000000000000 * 0x8000000000000000 + r)).toNat =
      b.toNat / 0x8000000000000000 * 0x8000000000000000 + r := by
    rw [UInt64.toNat_ofNat']
    omega
  have hsign : (b.toNat / 0x8000000000000000 * 0x8000000000000000 + r) / 0x8000000000000000 =
      b.toNat / 0x8000000000000000 := by
    omega
  have hrest : (b.toNat / 0x8000000000000000 * 0x8000000000000000 + r) % 0x8000000000000000 =
      r := by
    omega
  rw [hn, hsign, hrest, hf]

end Double
end RecordStore
