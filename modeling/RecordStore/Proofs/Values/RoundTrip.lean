import RecordStore.Proofs.Schema.Accepted
import RecordStore.Proofs.Values.Conversion

/-!
Which values come back as what they were. A number that is bound for one type is read as another
exactly if it is one of that type's numbers, so nothing wraps. With boxes and one option around them,
all other values come back as they were, and only a missing value is bound as none. A point in time
with an offset comes back at the offset zero.
-/
namespace RecordStore

/-- Every number of a type is bound as a value of one kind. -/
theorem IntegerType.kind_bind (u : IntegerType) (n : u.Number) :
    (u.bind n).kind = if u.isSigned then "int" else "uint" := by
  unfold bind
  split <;> rfl

/-! ### Types inside of boxes and options -/

namespace FieldType

/-- The type inside of boxes and options. -/
def content : FieldType → FieldType
  | nullable t => t.content
  | boxed t => t.content
  | t => t

/-- How many options are around the content. -/
def options : FieldType → Nat
  | nullable t => t.options + 1
  | boxed t => t.options
  | _ => 0

/-- Types without wrappers whose values lose nothing on their way. -/
def IsLossless : FieldType → Prop
  | integer _ => True
  | boolean => True
  | string => True
  | date => True
  | time => True
  | timestamp => True
  | instant .utc => True
  | _ => False

/-- A value that is not there; boxes do not matter. -/
def IsAbsent : (t : FieldType) → t.Carrier → Prop
  | nullable _, x => x = none
  | boxed t, x => t.IsAbsent x
  | _, _ => False

theorem isOption_of_options {t : FieldType} (h : t.options = 0) : t.isOption = false := by
  induction t with
  | nullable t => cases h
  | boxed t ih => exact ih h
  | _ => rfl

theorem isOpen_content (t : FieldType) : t.content.isOpen = t.isOpen := by
  induction t with
  | nullable t ih => exact ih
  | boxed t ih => exact ih
  | _ => rfl

theorem hasOffset_content (t : FieldType) : t.content.hasOffset = t.hasOffset := by
  induction t with
  | nullable t ih => exact ih
  | boxed t ih => exact ih
  | _ => rfl

theorem IsLossless.isOpen {t : FieldType} (h : t.IsLossless) : t.isOpen = false := by
  cases t with
  | nullable t => cases h
  | boxed t => cases h
  | any => cases h
  | _ => rfl

theorem IsLossless.hasOffset {t : FieldType} (h : t.IsLossless) : t.hasOffset = false := by
  cases t with
  | nullable t => cases h
  | boxed t => cases h
  | instant z =>
    cases z with
    | fixed => cases h
    | _ => rfl
  | _ => rfl

variable {t : FieldType}

theorem isFlat_of_options (ho : t.options ≤ 1) (ha : t.isOpen = false) : t.IsFlat := by
  induction t with
  | nullable t =>
    have hz : t.options = 0 := Nat.le_zero.mp (Nat.le_of_succ_le_succ ho)
    exact ⟨isOption_of_options hz, ha⟩
  | boxed t ih => exact ih ho ha
  | _ => trivial

theorem ne_null_of_bind (ho : t.options = 0) (ha : t.isOpen = false) (x : t.Carrier) :
    t.bind x ≠ .null := by
  intro hx
  have hn := t.isNull_bind (isOption_of_options ho) ha x
  rw [hx] at hn
  cases hn

/-- Only what is not there is bound as none. -/
theorem bind_eq_null_iff (ho : t.options ≤ 1) (ha : t.isOpen = false) (x : t.Carrier) :
    t.bind x = .null ↔ t.IsAbsent x := by
  induction t with
  | nullable t =>
    have hz : t.options = 0 := Nat.le_zero.mp (Nat.le_of_succ_le_succ ho)
    cases x with
    | none => simp [bind, IsAbsent]
    | some x => simpa [bind, IsAbsent] using ne_null_of_bind hz ha x
  | boxed t ih => exact ih ho ha x
  | _ => simpa [IsAbsent] using ne_null_of_bind rfl ha x

/-- Options read nothing else as a missing value. -/
theorem read_nullable_eq_none_iff (t : FieldType) (v : Value) :
    (nullable t).read v = .ok none ↔ v = .null := by
  constructor
  · intro h
    cases v with
    | null => rfl
    | _ =>
      obtain ⟨x, -, hx⟩ := map_eq_ok.mp h
      cases hx
  · rintro rfl
    rfl

/-- What is not there is read from none alone, and is among the values of options alone. -/
theorem read_absent_iff (ho : t.options ≤ 1) (v : Value) :
    (∃ x, t.read v = .ok x ∧ t.IsAbsent x) ↔ v = .null ∧ t.options = 1 := by
  induction t with
  | nullable t =>
    have hz : t.options = 0 := Nat.le_zero.mp (Nat.le_of_succ_le_succ ho)
    constructor
    · rintro ⟨x, hr, hx⟩
      obtain rfl : x = none := hx
      exact ⟨(t.read_nullable_eq_none_iff v).mp hr, congrArg (· + 1) hz⟩
    · rintro ⟨rfl, -⟩
      exact ⟨none, rfl, rfl⟩
  | boxed t ih => exact ih ho
  | _ => simp [IsAbsent, options]

theorem read_bind_of_isLossless (h : t.content.IsLossless) (ho : t.options ≤ 1) (x : t.Carrier) :
    t.read (t.bind x) = .ok x := by
  have ha : t.isOpen = false := t.isOpen_content ▸ h.isOpen
  have hz : t.hasOffset = false := t.hasOffset_content ▸ h.hasOffset
  rw [t.read_bind (isFlat_of_options ho ha), t.withoutOffset_eq hz]

/-- Numbers are read as numbers of any type that has them, and as nothing else. Values of types that
lose nothing come back as they were, through boxes and one option; missing ones are bound as none,
and none alone is read as a missing one. Points in time keep all but their offset. -/
theorem conversions_exact :
    (∀ (w u : IntegerType) (x : u.Number),
      (∀ h : w.Holds x.val, (integer w).read ((integer u).bind x) = .ok ⟨x.val, h⟩) ∧
      (¬w.Holds x.val → (integer w).read ((integer u).bind x) =
        .error (.typeMismatch w.name (if u.isSigned then "int" else "uint")))) ∧
    (∀ t : FieldType, t.content.IsLossless → t.options ≤ 1 → ∀ x, t.read (t.bind x) = .ok x) ∧
    (∀ t : FieldType, t.content.IsLossless ∨ t.content = instant .fixed → t.options ≤ 1 →
      (∀ x, t.bind x = .null ↔ t.IsAbsent x) ∧
      ∀ v, (∃ x, t.read v = .ok x ∧ t.IsAbsent x) ↔ v = .null ∧ t.options = 1) ∧
    (∀ t : FieldType, t.content = instant .fixed → t.options ≤ 1 → ∀ x,
      t.read (t.bind x) = .ok (t.withoutOffset x)) ∧
    ∀ x : ZonedTime, (instant .fixed).withoutOffset x = ⟨x.utc, .zero⟩ := by
  have hopen {t : FieldType} (h : t.content.IsLossless ∨ t.content = instant .fixed) :
      t.isOpen = false := by
    rw [← isOpen_content]
    rcases h with h | h
    · exact h.isOpen
    · rw [h]
      rfl
  refine ⟨?numbers, ?values, ?missing, ?offsets, fun x => rfl⟩
  case numbers =>
    intro w u x
    rw [← u.kind_bind x]
    exact ⟨w.read_bind_of_holds u x, w.read_bind_of_not_holds u x⟩
  case values =>
    intro t h ho x
    exact read_bind_of_isLossless h ho x
  case missing =>
    intro t h ho
    exact ⟨bind_eq_null_iff ho (hopen h), read_absent_iff ho⟩
  case offsets =>
    intro t h ho x
    exact t.read_bind (isFlat_of_options ho (hopen (.inr h))) x

example : IntegerType.all.map IntegerType.name =
    ["i8", "i16", "i32", "i64", "isize", "u8", "u16", "u32", "u64", "usize"] := by decide

/-- The number 200 as one of eight bits without a sign. -/
def twoHundred : IntegerType.Number ⟨false, .bits8⟩ := ⟨200, by decide⟩

/-- 200 is too large for eight bits with a sign, but not for sixteen, and boxed it comes back as it
was. An optional point in time that is shown an hour ahead comes back in UTC. -/
theorem conversions_exact_twoHundred :
    (integer ⟨true, .bits8⟩).read ((integer ⟨false, .bits8⟩).bind twoHundred) =
      .error (.typeMismatch "i8" "uint") ∧
    (integer ⟨true, .bits16⟩).read ((integer ⟨false, .bits8⟩).bind twoHundred) =
      .ok ⟨200, by decide⟩ ∧
    (boxed (nullable (boxed (integer ⟨false, .bits8⟩)))).read
      ((boxed (nullable (boxed (integer ⟨false, .bits8⟩)))).bind (some twoHundred)) =
        .ok (some twoHundred) ∧
    (boxed (nullable string)).read .null = .ok none ∧
    (nullable (instant .fixed)).read
      ((nullable (instant .fixed)).bind (some ⟨.epoch, ⟨3600, by decide⟩⟩)) =
        .ok (some ⟨.epoch, .zero⟩) := by
  obtain ⟨numbers, values, missing, offsets, -⟩ := conversions_exact
  refine ⟨(numbers ⟨true, .bits8⟩ ⟨false, .bits8⟩ twoHundred).2 (by decide),
    (numbers ⟨true, .bits16⟩ ⟨false, .bits8⟩ twoHundred).1 (by decide),
    values (boxed (nullable (boxed (integer ⟨false, .bits8⟩)))) trivial (by decide) _, ?_,
    offsets (nullable (instant .fixed)) rfl (by decide) _⟩
  obtain ⟨x, hx, ha⟩ :=
    ((missing (boxed (nullable string)) (.inl trivial) (by decide)).2 .null).mpr ⟨rfl, rfl⟩
  obtain rfl : x = none := ha
  exact hx

end FieldType
end RecordStore
