import RecordStore.Store.Clause

/-!
How a database reads the placeholders of a statement. A question mark takes the next parameter; a
dollar with digits names one. A text is read together with what follows it, since a digit that
follows would belong to the number.
-/
namespace RecordStore

/-- A sign of a statement: a character of its text, or a place that is filled. -/
inductive Sign (α : Type) where
  | char (c : Char)
  | hole (a : α)
  deriving DecidableEq, Repr

namespace Sign

variable {α β : Type}

def hole? : Sign α → Option α
  | char _ => none
  | hole a => some a

def chars (cs : List Char) : List (Sign α) := cs.map .char

/-- What stands in the places, from left to right. -/
def holes (ss : List (Sign α)) : List α := ss.filterMap hole?

@[simp] theorem chars_nil : (chars [] : List (Sign α)) = [] := rfl

@[simp] theorem chars_cons (c : Char) (cs : List Char) :
    (chars (c :: cs) : List (Sign α)) = .char c :: chars cs := rfl

@[simp] theorem chars_append (cs ds : List Char) :
    (chars (cs ++ ds) : List (Sign α)) = chars cs ++ chars ds := List.map_append

@[simp] theorem holes_nil : holes ([] : List (Sign α)) = [] := rfl

@[simp] theorem holes_char (c : Char) (ss : List (Sign α)) : holes (.char c :: ss) = holes ss := rfl

@[simp] theorem holes_hole (a : α) (ss : List (Sign α)) : holes (.hole a :: ss) = a :: holes ss :=
  rfl

@[simp] theorem holes_append (ss us : List (Sign α)) : holes (ss ++ us) = holes ss ++ holes us :=
  List.filterMap_append

@[simp] theorem holes_chars (cs : List Char) : holes (chars cs : List (Sign α)) = [] := by
  induction cs with
  | nil => rfl
  | cons c cs ih => exact ih

end Sign

namespace Dialect

open Sign

/-- Every question mark takes the next parameter. -/
def positional : Nat → List Char → List (Sign Nat)
  | _, [] => []
  | n, c :: cs => if c = '?' then .hole n :: positional (n + 1) cs else .char c :: positional n cs

/-- What a dollar and the digits after it stand for. -/
def closeNumber : Option (List Char) → List (Sign Nat)
  | none => []
  | some [] => [.char '$']
  | some (d :: ds) => [.hole (Nat.ofDigitChars 10 (d :: ds) 0)]

/-- A dollar and the digits after it name a parameter; `number` are the digits read so far. -/
def numbered : (number : Option (List Char)) → List Char → List (Sign Nat)
  | number, [] => closeNumber number
  | none, c :: cs => if c = '$' then numbered (some []) cs else .char c :: numbered none cs
  | some ds, c :: cs =>
    if c.isDigit then numbered (some (ds ++ [c])) cs
    else closeNumber (some ds) ++
      if c = '$' then numbered (some []) cs else .char c :: numbered none cs

/-- A text as a database reads it; `next` is the parameter of the next question mark. -/
def signs (d : Dialect) (next : Nat) (cs : List Char) : List (Sign Nat) :=
  match d with
  | default => positional next cs
  | postgres => numbered none cs

/-- The parameters that the placeholders of a text take, from left to right. -/
def places (d : Dialect) (next : Nat) (cs : List Char) : List Nat := holes (d.signs next cs)

end Dialect

/-! ### Texts without placeholders -/

/-- Text without a character that placeholders start with. -/
def Plain (cs : List Char) : Prop := ∀ c ∈ cs, c ≠ '?' ∧ c ≠ '$'

/-- Text that no number before it runs into. -/
def EndsNumber (cs : List Char) : Prop := ∀ c ∈ cs.head?, c.isDigit = false

instance (cs : List Char) : Decidable (Plain cs) := List.decidableBAll _ cs

@[simp] theorem plain_nil : Plain [] := by intro c hc; cases hc

@[simp] theorem plain_cons {c : Char} {cs : List Char} :
    Plain (c :: cs) ↔ (c ≠ '?' ∧ c ≠ '$') ∧ Plain cs := List.forall_mem_cons

@[simp] theorem plain_append {cs ds : List Char} : Plain (cs ++ ds) ↔ Plain cs ∧ Plain ds := by
  simp only [Plain, List.mem_append]
  exact ⟨fun h => ⟨fun c hc => h c (.inl hc), fun c hc => h c (.inr hc)⟩,
    fun h c hc => hc.elim (h.1 c) (h.2 c)⟩

theorem plain_intercalate {s : List Char} {parts : List (List Char)} (hs : Plain s)
    (h : ∀ cs ∈ parts, Plain cs) : Plain (s.intercalate parts) := by
  induction parts with
  | nil => exact plain_nil
  | cons cs parts ih =>
    have hc : Plain cs := h cs List.mem_cons_self
    have hp : Plain (s.intercalate parts) := ih fun cs hc => h cs (List.mem_cons_of_mem _ hc)
    cases parts with
    | nil => simpa using hc
    | cons us parts =>
      rw [List.intercalate_cons_cons]
      exact plain_append.mpr ⟨plain_append.mpr ⟨hc, hs⟩, hp⟩

theorem plain_toDigits (m : Nat) : Plain (Nat.toDigits 10 m) := by
  intro c hc
  have hd : c.isDigit = true := Nat.isDigit_of_mem_toDigits (by decide) (by decide) hc
  constructor
  · rintro rfl
    revert hd
    decide
  · rintro rfl
    revert hd
    decide

theorem plain_repr (i : Int) : Plain i.repr.toList := by
  cases i with
  | ofNat m =>
    have hi : (Int.ofNat m).repr = m.repr := rfl
    rw [hi, Nat.toList_repr]
    exact plain_toDigits m
  | negSucc m =>
    have hi : (Int.negSucc m).repr = "-" ++ (m + 1).repr := rfl
    simp [hi, plain_toDigits]

@[simp] theorem endsNumber_nil : EndsNumber [] := by intro c hc; cases hc

@[simp] theorem endsNumber_cons {c : Char} {cs : List Char} :
    EndsNumber (c :: cs) ↔ c.isDigit = false := by
  simp [EndsNumber]

instance : (cs : List Char) → Decidable (EndsNumber cs)
  | [] => .isTrue endsNumber_nil
  | c :: _ => decidable_of_iff (c.isDigit = false) endsNumber_cons.symm

theorem EndsNumber.append {cs ds : List Char} (h : EndsNumber cs) (hd : EndsNumber ds) :
    EndsNumber (cs ++ ds) := by
  cases cs with
  | nil => exact hd
  | cons c cs => exact endsNumber_cons.mpr (endsNumber_cons.mp h)

theorem EndsNumber.append_of_ne_nil {cs ds : List Char} (h : EndsNumber cs) (hn : cs ≠ []) :
    EndsNumber (cs ++ ds) := by
  cases cs with
  | nil => exact absurd rfl hn
  | cons c cs => exact endsNumber_cons.mpr (endsNumber_cons.mp h)

namespace Dialect

open Sign

variable {d : Dialect} {n m : Nat}

theorem signs_plain {cs : List Char} (h : Plain cs) (rest : List Char) :
    d.signs n (cs ++ rest) = chars cs ++ d.signs n rest := by
  induction cs with
  | nil => rfl
  | cons c cs ih =>
    obtain ⟨hq, hd⟩ := h c List.mem_cons_self
    have hs : d.signs n (cs ++ rest) = chars cs ++ d.signs n rest :=
      ih fun c hc => h c (List.mem_cons_of_mem _ hc)
    cases d with
    | default => simpa [signs, positional, hq] using hs
    | postgres => simpa [signs, numbered, hd] using hs

theorem numbered_digits (before ds rest : List Char) (h : ∀ c ∈ ds, c.isDigit = true) :
    numbered (some before) (ds ++ rest) = numbered (some (before ++ ds)) rest := by
  induction ds generalizing before with
  | nil => simp
  | cons c ds ih =>
    have hc : c.isDigit = true := h c List.mem_cons_self
    simp only [List.cons_append, numbered, hc, if_true]
    rw [ih _ fun c hc => h c (List.mem_cons_of_mem _ hc)]
    simp

theorem numbered_close {ds rest : List Char} (h : EndsNumber rest) :
    numbered (some ds) rest = closeNumber (some ds) ++ numbered none rest := by
  cases rest with
  | nil => simp [numbered, closeNumber]
  | cons c rest => simp [numbered, endsNumber_cons.mp h]

theorem closeNumber_toDigits (n : Nat) : closeNumber (some (Nat.toDigits 10 n)) = [.hole n] := by
  have hn : Nat.ofDigitChars 10 (Nat.toDigits 10 n) 0 = n := Nat.ofDigitChars_ten_toDigits
  cases hd : Nat.toDigits 10 n with
  | nil => exact absurd hd Nat.toDigits_ne_nil
  | cons c ds => simpa [closeNumber, hd] using hn

/-- A placeholder is read as the place of its parameter. -/
theorem signs_placeholder {rest : List Char} (h : EndsNumber rest) :
    d.signs n ((d.placeholder n).toList ++ rest) = .hole n :: d.signs (n + 1) rest := by
  cases d with
  | default => simp [placeholder, signs, positional]
  | postgres =>
    have hd : ∀ c ∈ Nat.toDigits 10 n, c.isDigit = true := fun c hc =>
      Nat.isDigit_of_mem_toDigits (by decide) (by decide) hc
    have hs : numbered (some []) (Nat.toDigits 10 n ++ rest) = .hole n :: numbered none rest := by
      rw [numbered_digits [] _ _ hd, List.nil_append, numbered_close h, closeNumber_toDigits]
      rfl
    simpa [placeholder, signs, numbered] using hs

/-! ### Texts that compose -/

/-- A text with a number of placeholders for successive parameters, which is read alike whatever
follows it. -/
structure Reads (d : Dialect) (n count : Nat) (cs : List Char) : Prop where
  signs_append : ∀ {rest : List Char}, EndsNumber rest →
    d.signs n (cs ++ rest) = d.signs n cs ++ d.signs (n + count) rest
  places_eq : d.places n cs = List.range' n count

theorem Reads.plain {s : List Char} (h : Plain s) : Reads d n 0 s where
  signs_append _ := by
    have hs := signs_plain (d := d) (n := n) h []
    rw [List.append_nil] at hs
    rw [signs_plain h, hs]
    cases d <;> simp [signs, positional, numbered, closeNumber]
  places_eq := by
    have hs := signs_plain (d := d) (n := n) h []
    rw [List.append_nil] at hs
    rw [places, hs]
    cases d <;> simp [signs, positional, numbered, closeNumber]

theorem Reads.plain_append {a : Nat} {s u : List Char} (h : Plain s) (hu : Reads d n a u) :
    Reads d n a (s ++ u) where
  signs_append hr := by
    rw [List.append_assoc, signs_plain h, signs_plain h, hu.signs_append hr, List.append_assoc]
  places_eq := by
    rw [places, signs_plain h, holes_append, holes_chars, List.nil_append]
    exact hu.places_eq

theorem Reads.placeholder : Reads d n 1 (d.placeholder n).toList := by
  have hs := signs_placeholder (d := d) (n := n) endsNumber_nil
  have he : d.signs (n + 1) [] = [] := by cases d <;> rfl
  rw [List.append_nil, he] at hs
  refine ⟨fun h => ?_, ?_⟩
  · rw [signs_placeholder h, hs]
    rfl
  · rw [places, hs]
    rfl

theorem Reads.append {a b : Nat} {s u : List Char} (hs : Reads d n a s)
    (hu : Reads d (n + a) b u) (he : EndsNumber u) : Reads d n (a + b) (s ++ u) where
  signs_append h := by
    rw [List.append_assoc, hs.signs_append (he.append h), hu.signs_append h,
      hs.signs_append he, List.append_assoc, Nat.add_assoc]
  places_eq := by
    have ha := hs.places_eq
    have hb := hu.places_eq
    unfold places at ha hb ⊢
    rw [hs.signs_append he, holes_append, ha, hb]
    simp

/-- Texts one after another, each from the parameter after those before it. -/
inductive ReadsAll (d : Dialect) : Nat → Nat → List (List Char) → Prop where
  | nil {n : Nat} : ReadsAll d n 0 []
  | cons {n a b : Nat} {cs : List Char} {rest : List (List Char)} :
      Reads d n a cs → ReadsAll d (n + a) b rest → ReadsAll d n (a + b) (cs :: rest)

/-- Texts with a separator between them read one after another. -/
theorem ReadsAll.intercalate {s : List Char} {parts : List (List Char)}
    (h : ReadsAll d n m parts) (hs : Plain s) (he : EndsNumber s) (hn : s ≠ []) :
    Reads d n m (s.intercalate parts) := by
  induction h with
  | nil => exact .plain plain_nil
  | @cons n a b cs rest hc hr ih =>
    cases rest with
    | nil =>
      cases hr
      simpa using hc
    | cons ds rest =>
      rw [List.intercalate_cons_cons, List.append_assoc]
      exact hc.append (.plain_append hs ih) (he.append_of_ne_nil hn)

/-- Texts with a separator after each read one after another. -/
theorem ReadsAll.flatMap_append {s : List Char} {parts : List (List Char)}
    (h : ReadsAll d n m parts) (hs : Plain s) (he : EndsNumber s) (hn : s ≠ []) :
    Reads d n m (parts.flatMap (· ++ s)) := by
  induction h with
  | nil => exact .plain plain_nil
  | cons hc _ ih =>
    rw [List.flatMap_cons, List.append_assoc]
    exact hc.append (.plain_append hs ih) (he.append_of_ne_nil hn)

theorem ReadsAll.append {a b : Nat} {xs ys : List (List Char)} (hx : ReadsAll d n a xs)
    (hy : ReadsAll d (n + a) b ys) : ReadsAll d n (a + b) (xs ++ ys) := by
  induction hx with
  | nil => simpa using hy
  | @cons n a a' cs rest hc _ ih =>
    rw [← Nat.add_assoc] at hy
    rw [Nat.add_assoc]
    exact .cons hc (ih hy)

/-- As many places are read in a text as it has question marks. -/
theorem length_places_default (n : Nat) (cs : List Char) :
    (places .default n cs).length = cs.count '?' := by
  induction cs generalizing n with
  | nil => rfl
  | cons c cs ih =>
    unfold places signs at *
    by_cases hc : c = '?'
    · simp [positional, hc, ih]
    · simp [positional, hc, ih]

end Dialect
end RecordStore
