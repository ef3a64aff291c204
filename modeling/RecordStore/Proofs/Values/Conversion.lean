import RecordStore.Proofs.Schema.Built
import RecordStore.Store.Table

/-!
Values of fields on their way to a driver and back. What is bound is read as what it was, but for
the offsets of points in time; options of options would lose what they hold, and no column has such
a type.
-/
namespace RecordStore

/-! ### Numbers -/

theorem Width.twoPow_bits_le (w : Width) : twoPow (w.bits - 1) ≤ 0x8000000000000000 ∧
    twoPow w.bits ≤ 0x10000000000000000 := by
  cases w <;> decide

namespace IntegerType

variable (w : IntegerType)

/-- What is bound for a number is that number, as wide as it can be. -/
theorem wholeNumber?_bind (n : w.Number) : wholeNumber? (w.bind n) = some n.val := by
  obtain ⟨hs, hu⟩ := w.width.twoPow_bits_le
  have hn := n.holds
  unfold Holds at hn
  unfold bind
  split
  next h =>
    rw [if_pos h] at hn
    have hi : (Int64.ofInt n.val).toInt = n.val :=
      Int64.toInt_ofInt_of_le (by omega) (by omega)
    rw [wholeNumber?, hi]
  next h =>
    rw [if_neg h] at hn
    have hi : (UInt64.ofNat n.val.toNat).toNat = n.val.toNat :=
      UInt64.toNat_ofNat_of_lt' (by rw [UInt64.size]; omega)
    rw [wholeNumber?, hi, Int.toNat_of_nonneg hn.1]

variable (u : IntegerType)

/-- A number of one type is read as one of another if it is among that type's numbers. -/
theorem read_bind_of_holds (n : u.Number) (h : w.Holds n.val) :
    w.read (u.bind n) = .ok ⟨n.val, h⟩ := by
  have hn : w.number? n.val = some ⟨n.val, h⟩ := dif_pos h
  rw [read, wholeNumber?_bind, Option.bind_some, hn]

theorem read_bind_of_not_holds (n : u.Number) (h : ¬w.Holds n.val) :
    w.read (u.bind n) = .error (.typeMismatch w.name (u.bind n).kind) := by
  have hn : w.number? n.val = none := dif_neg h
  rw [read, wholeNumber?_bind, Option.bind_some, hn]

theorem read_bind (n : w.Number) : w.read (w.bind n) = .ok n :=
  w.read_bind_of_holds w n n.holds

end IntegerType

/-! ### Types -/

namespace FieldType

/-- Whether a type is an option, boxed or not. -/
def isOption : FieldType → Bool
  | nullable _ => true
  | boxed t => t.isOption
  | _ => false

/-- Whether values of any kind are among those of a type. -/
def isOpen : FieldType → Bool
  | any => true
  | nullable t => t.isOpen
  | boxed t => t.isOpen
  | _ => false

/-- Whether no value that is there is bound like one that is missing. -/
def IsFlat : FieldType → Prop
  | nullable t => t.isOption = false ∧ t.isOpen = false
  | boxed t => t.IsFlat
  | _ => True

/-- Whether values of a type have offsets of their own. -/
def hasOffset : FieldType → Bool
  | instant .fixed => true
  | nullable t => t.hasOffset
  | boxed t => t.hasOffset
  | _ => false

/-- A value without its offset, if it has any. -/
def withoutOffset : (t : FieldType) → t.Carrier → t.Carrier
  | instant .fixed, x => ⟨x.utc, .zero⟩
  | nullable t, x => x.map t.withoutOffset
  | boxed t, x => t.withoutOffset x
  | _, x => x

theorem withoutOffset_eq (t : FieldType) (h : t.hasOffset = false) (x : t.Carrier) :
    t.withoutOffset x = x := by
  induction t with
  | instant z =>
    cases z with
    | fixed => cases h
    | _ => rfl
  | nullable t ih =>
    cases x with
    | none => rfl
    | some x => exact congrArg some (ih h x)
  | boxed t ih => exact ih h x
  | _ => rfl

/-- Offsets are not bound. -/
theorem bind_withoutOffset (t : FieldType) (x : t.Carrier) :
    t.bind (t.withoutOffset x) = t.bind x := by
  induction t with
  | instant z => cases z <;> rfl
  | nullable t ih =>
    cases x with
    | none => rfl
    | some x => exact ih x
  | boxed t ih => exact ih x
  | _ => rfl

theorem isNull_bind (t : FieldType) (ho : t.isOption = false) (ha : t.isOpen = false)
    (x : t.Carrier) : (t.bind x).isNull = false := by
  induction t with
  | integer w =>
    rw [bind, IntegerType.bind]
    split <;> rfl
  | instant z => cases z <;> rfl
  | nullable t => cases ho
  | boxed t ih => exact ih ho ha x
  | any => cases ha
  | _ => rfl

theorem isFlat_of_isOption {t : FieldType} (h : t.isOption = false) : t.IsFlat := by
  induction t with
  | nullable t => cases h
  | boxed t ih => exact ih h
  | _ => trivial

/-- What is bound for a value is read as that value, at the offset zero if it has one. -/
theorem read_bind (t : FieldType) (h : t.IsFlat) (x : t.Carrier) :
    t.read (t.bind x) = .ok (t.withoutOffset x) := by
  induction t with
  | integer w => exact w.read_bind x
  | single =>
    have hx : Single.round x.bits = x := by
      obtain ⟨bits, hb⟩ := x
      simp only [Single.round, hb]
    exact congrArg Except.ok hx
  | instant z => cases z <;> rfl
  | nullable t ih =>
    cases x with
    | none => rfl
    | some x =>
      have hr : t.read (t.bind x) = .ok (t.withoutOffset x) := ih (isFlat_of_isOption h.1) x
      rw [bind, read, t.isNull_bind h.1 h.2, if_neg Bool.false_ne_true, hr]
      rfl
  | boxed t ih => exact ih h x
  | _ => rfl

/-! ### Types of columns -/

/-- What is known of a type with a category. -/
def Suits (c : Category) (t : FieldType) : Prop :=
  (c.isNullable = false → t.isOption = false) ∧ (t.isOpen = false → t.IsFlat)

theorem isOption_of_ofName? {name : String} {zone : Option Ty} {t : FieldType}
    (h : ofName? name zone = some t) : t.isOption = false := by
  unfold ofName? at h
  split at h
  all_goals first
    | (obtain rfl := Option.some.inj h; rfl)
    | (obtain ⟨-, -, rfl⟩ := Option.map_eq_some_iff.mp h; rfl)

theorem suits_of_isOption {c : Category} {t : FieldType} (h : t.isOption = false) : Suits c t :=
  ⟨fun _ => h, fun _ => isFlat_of_isOption h⟩

/-- An option is a column's type only if what it is an option of is none. -/
theorem Suits.optional {c k : Category} {t : FieldType} (h : Suits c t)
    (hk : Ty.optional c = .ok k) : Suits k (.nullable t) := by
  have hc : c.isNullable = false := by
    cases c with
    | nullable k => cases hk
    | _ => rfl
  have hn : k.isNullable = true := by
    unfold Ty.optional at hk
    split at hk
    · cases hk
      rfl
    · cases hk
  exact ⟨fun h => (Bool.false_ne_true (h.symm.trans hn)).elim, fun ho => ⟨h.1 hc, ho⟩⟩

variable {config : Config} {scope : Scope}

/-- A path with arguments suits its category as its first argument does. -/
theorem suits_of_arguments {alone turbofish trailing : Bool} {text name : String} {s : Segment}
    {as : List Argument} {c : Category} {t : FieldType}
    (hs : s = .mk name (.angled turbofish as trailing))
    (ha : ∀ ty k t, Ty.classifyArguments config scope as = some (ty, .ok k) →
      (ofArguments as).2 = some t → Suits k t)
    (hc : Ty.classifyLast config scope alone text [s] = .ok c) (ht : ofSegment s = some t) :
    Suits c t := by
  have hn : s.name = name := congrArg Segment.name hs
  have hf : Ty.classifyArgument config scope s = Ty.classifyArguments config scope as := by
    rw [hs, Ty.classifyArgument]
  rw [Ty.classifyLast, hf, hn] at hc
  rw [hs, ofSegment] at ht
  generalize Ty.classifyArguments config scope as = argument at ha hc
  by_cases hq : Ty.sequenceNames.contains name = true
  · rw [if_pos hq] at hc
    cases hc
  rw [if_neg hq] at hc
  by_cases hb : name = "Box"
  · subst hb
    obtain ⟨u, hu, rfl⟩ := Option.map_eq_some_iff.mp ht
    cases argument with
    | none => cases hc
    | some p => exact ha p.1 c u (congrArg some (Prod.ext rfl hc)) hu
  by_cases ho : name = "Option"
  · subst ho
    obtain ⟨u, hu, rfl⟩ := Option.map_eq_some_iff.mp ht
    cases argument with
    | none => cases hc
    | some p =>
      obtain ⟨k, hk, hc⟩ := bind_eq_ok.mp hc
      exact (ha p.1 k u (congrArg some (Prod.ext rfl hk)) hu).optional hc
  · have hn : ofName? name (ofArguments as).1 = some t := by simpa [hb, ho] using ht
    exact suits_of_isOption (isOption_of_ofName? hn)

mutual

/-- In types of columns no option is one of options. -/
theorem suits_of_classify {ty : Ty} {c : Category} {t : FieldType}
    (hc : ty.classify config scope = .ok c) (ht : ofTy? ty = some t) : Suits c t := by
  cases ty with
  | parenthesized ty =>
    rw [Ty.classify] at hc
    rw [ofTy?] at ht
    exact suits_of_classify hc ht
  | path rooted ss =>
    rw [Ty.classify] at hc
    rw [ofTy?] at ht
    exact suits_of_classifyLast hc ht
  | _ => simp [ofTy?] at ht

theorem suits_of_classifyLast {alone : Bool} {text : String} {ss : List Segment} {c : Category}
    {t : FieldType} (hc : Ty.classifyLast config scope alone text ss = .ok c)
    (ht : ofSegments ss = some t) : Suits c t := by
  cases ss with
  | nil => simp [ofSegments] at ht
  | cons s rest =>
    cases rest with
    | nil =>
      obtain ⟨name, arguments⟩ := s
      cases arguments with
      | angled turbofish as trailing =>
        rw [ofSegments] at ht
        exact suits_of_arguments rfl (fun _ _ _ => suits_of_classifyArguments) hc ht
      | none =>
        rw [ofSegments, ofSegment] at ht
        · exact suits_of_isOption (isOption_of_ofName? ht)
        · simp
      | called inputs trailing output =>
        rw [ofSegments, ofSegment] at ht
        · exact suits_of_isOption (isOption_of_ofName? ht)
        · simp
    | cons s' rest =>
      rw [Ty.classifyLast] at hc
      · rw [ofSegments] at ht
        · exact suits_of_classifyLast hc ht
        · simp
      · simp

theorem suits_of_classifyArguments {as : List Argument} {ty : Ty} {c : Category} {t : FieldType}
    (hc : Ty.classifyArguments config scope as = some (ty, .ok c))
    (ht : (ofArguments as).2 = some t) : Suits c t := by
  cases as with
  | nil => simp [ofArguments] at ht
  | cons a as =>
    cases a with
    | type ty' =>
      rw [Ty.classifyArguments, Option.some.injEq, Prod.mk.injEq] at hc
      exact suits_of_classify hc.2 ht
    | _ =>
      rw [Ty.classifyArguments] at hc
      · rw [ofArguments] at ht
        · exact suits_of_classifyArguments hc ht
        · simp
      · simp

end

end FieldType

/-! ### Codecs -/

namespace Codec

/-- Whether every value is read as it was bound. -/
def IsExact (k : Codec) : Prop := ∀ x, k.read (k.bind x) = .ok x

/-- Whether every value is read as one that is bound alike. -/
def IsFaithful (k : Codec) : Prop := ∀ x, ∃ y, k.read (k.bind x) = .ok y ∧ k.bind y = k.bind x

variable {t : FieldType}

theorem isFaithful_ofType (h : t.IsFlat) : (ofType t).IsFaithful := fun x =>
  ⟨t.withoutOffset x, t.read_bind h x, t.bind_withoutOffset x⟩

theorem isExact_ofType (h : t.IsFlat) (ho : t.hasOffset = false) : (ofType t).IsExact := by
  have hr (x : t.Carrier) : t.read (t.bind x) = .ok x := by
    rw [t.read_bind h, t.withoutOffset_eq ho]
  exact hr

end Codec
end RecordStore
