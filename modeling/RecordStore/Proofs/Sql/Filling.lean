import RecordStore.Proofs.Sql.Places

/-!
Statements with values in their places. A text is filled by what a numbering of the values gives;
what comes out names no numbers.
-/
namespace RecordStore

variable {α β : Type}

namespace Sign

def map (f : α → β) : Sign α → Sign β
  | char c => char c
  | hole a => hole (f a)

/-- Places that get values one after another, whatever number they have. -/
def inOrder : List (Sign α) → List β → List (Sign (Option β))
  | [], _ => []
  | .char c :: ss, vs => .char c :: inOrder ss vs
  | .hole _ :: ss, vs => .hole vs.head? :: inOrder ss vs.tail

@[simp] theorem map_chars (f : α → β) (cs : List Char) :
    (chars cs).map (map f) = chars cs := by
  induction cs with
  | nil => rfl
  | cons c cs ih => simp [map, ih]

/-- Numbers that count on give places their values in order. -/
theorem map_eq_inOrder {ss : List (Sign Nat)} {n count : Nat} {p : Nat → Option β} {vs : List β}
    (h : holes ss = List.range' n count) (hp : ∀ j < count, p (n + j) = vs[j]?) :
    ss.map (map p) = inOrder ss vs := by
  induction ss generalizing n count vs with
  | nil => rfl
  | cons s ss ih =>
    cases s with
    | char c => rw [List.map_cons, inOrder, ih h hp, map]
    | hole m =>
      cases count with
      | zero => cases h
      | succ count =>
        rw [holes_hole, List.range'_succ, List.cons.injEq] at h
        obtain ⟨rfl, h⟩ := h
        have hv : p m = vs.head? := by simpa [List.head?_eq_getElem?] using hp 0 (by omega)
        have ht : ∀ j < count, p (m + 1 + j) = vs.tail[j]? := by
          intro j hj
          rw [List.getElem?_tail, ← hp (j + 1) (by omega)]
          congr 1
          omega
        rw [List.map_cons, inOrder, ih h ht, map, hv]

end Sign

namespace Dialect

open Sign

/-- A text with its places filled. -/
def filled (d : Dialect) (p : Nat → Option α) (n : Nat) (cs : List Char) :
    List (Sign (Option α)) :=
  (d.signs n cs).map (map p)

/-- A text with placeholders for successive parameters, which is filled alike whatever follows
it. -/
structure Fills (d : Dialect) (p : Nat → Option α) (n count : Nat) (cs : List Char)
    (out : List (Sign (Option α))) : Prop extends Reads d n count cs where
  filled_append : ∀ {rest}, EndsNumber rest →
    d.filled p n (cs ++ rest) = out ++ d.filled p (n + count) rest

section

variable {d : Dialect} {p : Nat → Option α} {n a b : Nat} {cs us : List Char}
  {xs ys : List (Sign (Option α))}

theorem Fills.append (hc : Fills d p n a cs xs) (hu : Fills d p (n + a) b us ys)
    (he : EndsNumber us) : Fills d p n (a + b) (cs ++ us) (xs ++ ys) where
  toReads := hc.toReads.append hu.toReads he
  filled_append hr := by
    rw [List.append_assoc, hc.filled_append (he.append hr), hu.filled_append hr,
      List.append_assoc, Nat.add_assoc]

theorem Fills.plain_append (hp : Plain cs) (hu : Fills d p n b us ys) :
    Fills d p n b (cs ++ us) (chars cs ++ ys) where
  toReads := .plain_append hp hu.toReads
  filled_append hr := by
    have hf := hu.filled_append hr
    unfold filled at hf ⊢
    rw [List.append_assoc, signs_plain hp, List.map_append, map_chars, hf, List.append_assoc]

theorem Fills.nil : Fills d p n 0 [] [] where
  toReads := .plain plain_nil
  filled_append _ := rfl

theorem Fills.plain (hp : Plain cs) : Fills d p n 0 cs (chars cs) := by
  have hf := Fills.plain_append hp (.nil (d := d) (p := p) (n := n))
  rwa [List.append_nil, List.append_nil] at hf

theorem Fills.placeholder : Fills d p n 1 (d.placeholder n).toList [.hole (p n)] where
  toReads := .placeholder
  filled_append hr := by
    rw [filled, signs_placeholder hr]
    rfl

/-- A text with placeholders for successive parameters gets their values in order. -/
theorem Reads.fills (h : Reads d n a cs) {vs : List α} (hp : ∀ j < a, p (n + j) = vs[j]?) :
    Fills d p n a cs (inOrder (d.signs n cs) vs) where
  toReads := h
  filled_append hr := by
    rw [filled, h.signs_append hr, List.map_append, map_eq_inOrder h.places_eq hp, filled]

theorem Fills.filled_eq (h : Fills d p n a cs xs) : d.filled p n cs = xs := by
  have hf := h.filled_append endsNumber_nil
  have hn : d.filled p (n + a) [] = [] := by cases d <;> rfl
  rwa [List.append_nil, hn, List.append_nil] at hf

/-- Placeholders with commas between them get the values of a list. -/
theorem fills_placeholders {vs : List α} (hp : ∀ j < vs.length, p (n + j) = vs[j]?) :
    Fills d p n vs.length
      ([','].intercalate ((d.placeholders n vs.length).map String.toList))
      ([.char ','].intercalate (vs.map fun v => [.hole (some v)])) := by
  induction vs generalizing n with
  | nil => exact .nil
  | cons v vs ih =>
    have hv : p n = some v := hp 0 (Nat.succ_pos _)
    have hf : Fills d p n 1 (d.placeholder n).toList [.hole (some v)] := hv ▸ .placeholder
    have ht : ∀ j < vs.length, p (n + 1 + j) = vs[j]? := by
      intro j hj
      have hs := hp (j + 1) (Nat.succ_lt_succ hj)
      rwa [List.getElem?_cons_succ, ← Nat.add_assoc, Nat.add_right_comm] at hs
    have hi := ih ht
    cases vs with
    | nil => simpa [placeholders] using hf
    | cons w vs =>
      have hc := hf.append (.plain_append (by decide : Plain [',']) hi) (endsNumber_cons.mpr rfl)
      rw [Nat.add_comm] at hc
      simp only [placeholders, List.length_cons, List.range'_succ, List.map_cons,
        List.intercalate_cons_cons, chars_cons, chars_nil] at hc ⊢
      simpa using hc

end
end Dialect
end RecordStore
