import Mathlib.Algebra.BigOperators.Group.List.Basic
import Mathlib.Algebra.Ring.Int.Defs
import RecordStore.Proofs.Source.Scanning

/-!
Where comments and literals end: a nested comment behind the mark that closes the outermost one, a
raw string behind its first quote with hashes enough, a string behind its first quote that no
backslash escapes. What does not end reaches to the end of the text.
-/
namespace RecordStore.IgnoreMark

/-! ### Nested comments -/

/-- What a text is made of for one who looks for the ends of comments. -/
inductive Sign where
  | opening
  | closing
  | other (o : UInt8)
  deriving DecidableEq

namespace Sign

def octets : Sign → Octets
  | opening => [0x2F, 0x2A]
  | closing => [0x2A, 0x2F]
  | other o => [o]

/-- How many comments more are open behind a sign. -/
def change : Sign → Int
  | opening => 1
  | closing => -1
  | other _ => 0

/-- The signs of a text, read from the left; an octet belongs to one sign only. -/
def ofText : Octets → List Sign
  | 0x2F :: 0x2A :: rest => opening :: ofText rest
  | 0x2A :: 0x2F :: rest => closing :: ofText rest
  | o :: rest => other o :: ofText rest
  | [] => []

/-- The text of some signs. -/
def text (signs : List Sign) : Octets := signs.flatMap octets

/-- How many comments some signs open more than they close. -/
def depth (signs : List Sign) : Int := (signs.map change).sum

/-- Whether some signs, of all places in them, leave a comment open where `k` are open in front. -/
def StaysOpen (k : Int) (signs : List Sign) : Prop :=
  ∀ front, front <+: signs → 0 < k + depth front

variable {k : Int} {s : Sign} {signs : List Sign}

theorem text_ofText (octets : Octets) : text (ofText octets) = octets := by
  fun_induction ofText octets with
  | case1 rest ih => rw [text, List.flatMap_cons, ← text, ih]; rfl
  | case2 rest ih => rw [text, List.flatMap_cons, ← text, ih]; rfl
  | case3 o rest _ _ ih => rw [text, List.flatMap_cons, ← text, ih]; rfl
  | case4 => rfl

theorem text_append (front back : List Sign) : text (front ++ back) = text front ++ text back :=
  List.flatMap_append

theorem depth_cons : depth (s :: signs) = s.change + depth signs := by
  rw [depth, List.map_cons, List.sum_cons, ← depth]

theorem staysOpen_nil : StaysOpen k [] ↔ 0 < k := by
  simp [StaysOpen, depth]

theorem staysOpen_cons : StaysOpen k (s :: signs) ↔ 0 < k ∧ StaysOpen (k + s.change) signs := by
  constructor
  · intro h
    refine ⟨by simpa [depth] using h [] List.nil_prefix, fun front hf => ?_⟩
    have hs := h (s :: front) (List.cons_prefix_cons.mpr ⟨rfl, hf⟩)
    rwa [depth_cons, ← add_assoc] at hs
  · rintro ⟨hk, h⟩ front hf
    cases front with
    | nil => simpa [depth] using hk
    | cons t front =>
      obtain ⟨rfl, hfront⟩ := List.cons_prefix_cons.mp hf
      rw [depth_cons, ← add_assoc]
      exact h front hfront

/-- Some signs with a closing one behind them, which is the first that leaves no comment open. -/
structure Closes (k : Int) (signs inside after : List Sign) : Prop where
  split : signs = inside ++ closing :: after
  open_inside : StaysOpen k inside
  none_open : k + depth (inside ++ [closing]) = 0

theorem Closes.cons {inside after : List Sign} (hk : 0 < k)
    (h : Closes (k + s.change) signs inside after) : Closes k (s :: signs) (s :: inside) after where
  split := by rw [h.split, List.cons_append]
  open_inside := staysOpen_cons.mpr ⟨hk, h.open_inside⟩
  none_open := by rw [List.cons_append, depth_cons, ← add_assoc, h.none_open]

end Sign

/-- A nested comment ends where the last of those open is closed; here `k + 1` are open. -/
theorem blockLength_ends (k : Nat) (octets : Octets) :
    (∃ inside after, Sign.Closes (k + 1) (Sign.ofText octets) inside after ∧
        blockLength (k + 1) octets = (Sign.text (inside ++ [.closing])).length) ∨
      Sign.StaysOpen (k + 1) (Sign.ofText octets) ∧ blockLength (k + 1) octets = octets.length := by
  have hk (k : Nat) : 0 < (k : Int) + 1 := by omega
  fun_induction Sign.ofText octets generalizing k with
  | case1 rest ih =>
    rw [blockLength]
    have hopen : ((k + 1 : Nat) : Int) + 1 = (k : Int) + 1 + Sign.opening.change := rfl
    rcases ih (k + 1) with ⟨inside, after, hc, hl⟩ | ⟨ho, hl⟩
    · refine .inl ⟨.opening :: inside, after, .cons (hk k) (hopen ▸ hc), ?_⟩
      rw [hl]
      rfl
    · refine .inr ⟨Sign.staysOpen_cons.mpr ⟨hk k, hopen ▸ ho⟩, ?_⟩
      rw [hl]
      rfl
  | case2 rest ih =>
    rw [blockLength]
    cases k with
    | zero =>
      rw [if_pos (Nat.le_refl 1)]
      exact .inl ⟨[], _, ⟨rfl, Sign.staysOpen_nil.mpr (by decide), rfl⟩, rfl⟩
    | succ k =>
      rw [if_neg (by omega)]
      have hclose : (k : Int) + 1 = ((k + 1 : Nat) : Int) + 1 + Sign.closing.change := by
        simp [Sign.change]
      rcases ih k with ⟨inside, after, hc, hl⟩ | ⟨ho, hl⟩
      · refine .inl ⟨.closing :: inside, after, .cons (hk (k + 1)) (hclose ▸ hc), ?_⟩
        rw [Nat.add_sub_cancel, hl]
        rfl
      · refine .inr ⟨Sign.staysOpen_cons.mpr ⟨hk (k + 1), hclose ▸ ho⟩, ?_⟩
        rw [Nat.add_sub_cancel, hl]
        rfl
  | case3 o rest h₁ h₂ ih =>
    have hsame : (k : Int) + 1 = (k : Int) + 1 + (Sign.other o).change := (add_zero _).symm
    have hlength : blockLength (k + 1) (o :: rest) = blockLength (k + 1) rest + 1 := by
      have hne {p q : UInt8} (h : ∀ r, o = p → rest = q :: r → False) :
          o = p → rest.head? ≠ some q := by
        rintro ho hr
        obtain ⟨r, rfl⟩ := List.head?_eq_some_iff.mp hr
        exact h r ho rfl
      exact blockLength_cons (hne h₁) (hne h₂)
    rw [hlength]
    rcases ih k with ⟨inside, after, hc, hl⟩ | ⟨ho, hl⟩
    · refine .inl ⟨.other o :: inside, after, .cons (hk k) (hsame ▸ hc), ?_⟩
      rw [hl]
      rfl
    · refine .inr ⟨Sign.staysOpen_cons.mpr ⟨hk k, hsame ▸ ho⟩, ?_⟩
      rw [hl]
      rfl
  | case4 => exact .inr ⟨Sign.staysOpen_nil.mpr (hk k), rfl⟩

/-! ### Quotes -/

/-- The first quote of a text that counts as an end; `ends` looks at what is in front of a quote
and behind it. -/
structure FirstQuote (ends : Octets → Octets → Prop) (text inside after : Octets) : Prop where
  split : text = inside ++ 0x22 :: after
  counts : ends inside after
  first : ∀ a b, text = a ++ 0x22 :: b → a.length < inside.length → ¬ends a b

/-- Whether a text has no quote that counts as an end. -/
def NoQuote (ends : Octets → Octets → Prop) (text : Octets) : Prop :=
  ∀ a b, text = a ++ 0x22 :: b → ¬ends a b

variable {ends : Octets → Octets → Prop} {o : UInt8} {text inside after : Octets}

theorem eq_nil_or_cons {a b : Octets} (h : o :: text = a ++ 0x22 :: b) :
    a = [] ∧ o = 0x22 ∧ text = b ∨ ∃ a', a = o :: a' ∧ text = a' ++ 0x22 :: b := by
  cases a with
  | nil =>
    obtain ⟨rfl, rfl⟩ := List.cons.inj h
    exact .inl ⟨rfl, rfl, rfl⟩
  | cons p a =>
    obtain ⟨rfl, ht⟩ := List.cons.inj h
    exact .inr ⟨a, rfl, ht⟩

/-- Behind an octet that is no end, what is looked for is the same. -/
theorem FirstQuote.cons (h : FirstQuote (fun a b => ends (o :: a) b) text inside after)
    (hne : o = 0x22 → ¬ends [] text) : FirstQuote ends (o :: text) (o :: inside) after where
  split := by rw [h.split, List.cons_append]
  counts := h.counts
  first a b ht hl := by
    rcases eq_nil_or_cons ht with ⟨rfl, ho, rfl⟩ | ⟨a, rfl, hrest⟩
    · exact hne ho
    · exact h.first a b hrest (Nat.lt_of_succ_lt_succ hl)

theorem NoQuote.cons (h : NoQuote (fun a b => ends (o :: a) b) text)
    (hne : o = 0x22 → ¬ends [] text) : NoQuote ends (o :: text) := by
  intro a b ht
  rcases eq_nil_or_cons ht with ⟨rfl, ho, rfl⟩ | ⟨a, rfl, hrest⟩
  · exact hne ho
  · exact h a b hrest

theorem noQuote_nil : NoQuote ends [] := by
  intro a b h
  simp at h

/-! ### Raw strings -/

/-- The quotes that end a raw string: hashes follow, as many as there are in front of it. -/
def EndsRaw (hashes : Nat) (_ after : Octets) : Prop := List.replicate hashes 0x23 <+: after

theorem countP_take_eq {hashes : Nat} :
    (text.take hashes).countP (· == 0x23) = hashes ↔ List.replicate hashes 0x23 <+: text := by
  constructor
  · intro h
    have hle := List.countP_le_length (p := (· == 0x23)) (l := text.take hashes)
    have hlen : (text.take hashes).length = hashes :=
      Nat.le_antisymm (List.length_take_le hashes _) (by rwa [h] at hle)
    have hall : ∀ o ∈ text.take hashes, o = 0x23 := fun o ho =>
      eq_of_beq (List.countP_eq_length.mp (h.trans hlen.symm) o ho)
    rw [← List.eq_replicate_iff.mpr ⟨hlen, hall⟩]
    exact List.take_prefix hashes _
  · rintro ⟨rest, rfl⟩
    rw [List.take_left' (List.length_replicate ..), List.countP_replicate, beq_self_eq_true,
      if_pos rfl]

/-- A raw string ends behind its first quote with hashes enough, and behind these. -/
theorem rawTail_ends (hashes : Nat) (text : Octets) :
    (∃ inside after, FirstQuote (EndsRaw hashes) text inside after ∧
        rawTail hashes text = inside.length + 1 + hashes) ∨
      NoQuote (EndsRaw hashes) text ∧ rawTail hashes text = text.length := by
  induction text with
  | nil => exact .inr ⟨noQuote_nil, rfl⟩
  | cons o text ih =>
    rw [rawTail]
    split
    next h =>
      obtain ⟨ho, hc⟩ := Bool.and_eq_true_iff.mp h
      obtain rfl := eq_of_beq ho
      refine .inl ⟨[], text, ⟨rfl, countP_take_eq.mp (eq_of_beq hc), ?_⟩, by simp⟩
      intro a b _ hl
      exact absurd hl (Nat.not_lt_zero _)
    next h =>
      have hne : o = 0x22 → ¬EndsRaw hashes [] text := by
        rintro rfl he
        refine h ?_
        rw [beq_self_eq_true, Bool.true_and, beq_iff_eq]
        exact countP_take_eq.mpr he
      rcases ih with ⟨inside, after, hf, hl⟩ | ⟨hn, hl⟩
      · refine .inl ⟨o :: inside, after, hf.cons hne, ?_⟩
        rw [hl, List.length_cons]
        omega
      · exact .inr ⟨hn.cons hne, by rw [hl, List.length_cons]⟩

/-! ### Strings -/

/-- Whether what follows is escaped: of the backslashes right before it, each second one is escaped
by the one in front. -/
def IsEscaped (front : Octets) : Prop := (front.reverse.takeWhile (· == 0x5C)).length % 2 = 1

/-- The quotes that end a string. -/
def EndsString (front _ : Octets) : Prop := ¬IsEscaped front

instance (front : Octets) : Decidable (IsEscaped front) := Nat.decEq _ _

theorem isEscaped_concat {front : Octets} :
    IsEscaped (front ++ [o]) ↔ o = 0x5C ∧ ¬IsEscaped front := by
  unfold IsEscaped
  rw [List.reverse_append, List.reverse_singleton, List.singleton_append, List.takeWhile_cons]
  split
  next ho =>
    rw [List.length_cons]
    refine ⟨fun h => ⟨eq_of_beq ho, by omega⟩, fun h => ?_⟩
    have := h.2
    omega
  next ho =>
    have hne : o ≠ 0x5C := by simpa using ho
    simp [hne]

/-- A string ends behind its first quote that is not escaped; here `front` was read before. -/
theorem stringTail_ends {front : Octets} (hfront : ¬IsEscaped front) (text : Octets) :
    (∃ inside after, FirstQuote (fun a => EndsString (front ++ a)) text inside after ∧
        stringTail text = inside.length + 1) ∨
      NoQuote (fun a => EndsString (front ++ a)) text ∧ stringTail text = text.length := by
  have happend (front : Octets) (o : UInt8) :
      (fun a => EndsString (front ++ o :: a)) = fun a => EndsString (front ++ [o] ++ a) := by
    funext a
    rw [List.append_assoc, List.singleton_append]
  fun_induction stringTail text generalizing front with
  | case1 => exact .inr ⟨noQuote_nil, rfl⟩
  | case2 c rest ih =>
    have hescaped : IsEscaped (front ++ [0x5C]) := isEscaped_concat.mpr ⟨rfl, hfront⟩
    have hpast : ¬IsEscaped (front ++ [0x5C] ++ [c]) := fun h => (isEscaped_concat.mp h).2 hescaped
    have hback : (0x5C : UInt8) = 0x22 → ¬EndsString (front ++ []) (c :: rest) := by
      intro h
      exact absurd h (by decide)
    have hquote : c = 0x22 → ¬EndsString (front ++ [0x5C] ++ []) rest := by
      intro _ h
      rw [List.append_nil] at h
      exact h hescaped
    rcases ih hpast with ⟨inside, after, hf, hl⟩ | ⟨hn, hl⟩
    · refine .inl ⟨0x5C :: c :: inside, after, ?_, by rw [hl, List.length_cons, List.length_cons]⟩
      refine FirstQuote.cons ?_ hback
      rw [happend]
      refine FirstQuote.cons ?_ hquote
      rwa [happend]
    · refine .inr ⟨?_, by rw [hl, List.length_cons, List.length_cons]⟩
      refine NoQuote.cons ?_ hback
      rw [happend]
      refine NoQuote.cons ?_ hquote
      rwa [happend]
  | case3 b rest _ hb =>
    obtain rfl := eq_of_beq hb
    refine .inl ⟨[], rest, ⟨rfl, by rwa [List.append_nil], fun a b _ hl => ?_⟩, rfl⟩
    exact absurd hl (Nat.not_lt_zero _)
  | case4 b rest hpair hb ih =>
    have hne : b = 0x22 → ¬EndsString (front ++ []) rest := fun h => absurd (by simp [h]) hb
    cases rest with
    | nil => exact .inr ⟨noQuote_nil.cons hne, rfl⟩
    | cons c rest =>
      have hpast : ¬IsEscaped (front ++ [b]) := fun h => hpair c rest (isEscaped_concat.mp h).1 rfl
      rcases ih hpast with ⟨inside, after, hf, hl⟩ | ⟨hn, hl⟩
      · refine .inl ⟨b :: inside, after, ?_, by rw [hl, List.length_cons]⟩
        refine FirstQuote.cons ?_ hne
        rwa [happend]
      · refine .inr ⟨?_, by rw [hl]; rfl⟩
        refine NoQuote.cons ?_ hne
        rwa [happend]

/-! ### Ends -/

theorem hashCount_replicate (hashes : Nat) (rest : Octets) :
    hashCount (List.replicate hashes 0x23 ++ 0x22 :: rest) = hashes := by
  rw [hashCount, List.takeWhile_append_of_pos (by simp), List.takeWhile_cons_of_neg (by decide),
    List.append_nil, List.length_replicate]

theorem rawLength_eq (hashes : Nat) (rest : Octets) :
    rawLength (0x72 :: (List.replicate hashes 0x23 ++ 0x22 :: rest)) =
      rawTail hashes rest + hashes + 2 := by
  have hdrop : (0x72 :: (List.replicate hashes (0x23 : UInt8) ++ 0x22 :: rest)).drop (hashes + 2) =
      rest := by
    simp [List.drop_append]
  rw [rawLength, List.drop_one, List.tail_cons, hashCount_replicate, hdrop]

/-- Nested comments, raw strings and strings reach, from their first octet on, up to behind what
ends them first: the mark behind which no comment is open any more, a quote with as many hashes as
stand in front and these hashes, a quote that is not escaped. Without an end they reach to the end
of the text. -/
theorem ends_first :
    (∀ rest,
      (∃ inside after, Sign.Closes 1 (Sign.ofText rest) inside after ∧
          0x2F :: 0x2A :: rest = Sign.text (.opening :: inside ++ [.closing]) ++ Sign.text after ∧
          blockLength 0 (0x2F :: 0x2A :: rest) =
            (Sign.text (.opening :: inside ++ [.closing])).length) ∨
        Sign.StaysOpen 1 (Sign.ofText rest) ∧
          blockLength 0 (0x2F :: 0x2A :: rest) = rest.length + 2) ∧
    (∀ hashes rest,
      (∃ inside after, FirstQuote (EndsRaw hashes) rest inside after ∧
          rawLength (0x72 :: (List.replicate hashes 0x23 ++ 0x22 :: rest)) =
            hashes + 2 + inside.length + 1 + hashes) ∨
        NoQuote (EndsRaw hashes) rest ∧
          rawLength (0x72 :: (List.replicate hashes 0x23 ++ 0x22 :: rest)) =
            hashes + 2 + rest.length) ∧
    ∀ rest,
      (∃ inside after, FirstQuote EndsString rest inside after ∧
          stringLength (0x22 :: rest) = inside.length + 2) ∨
        NoQuote EndsString rest ∧ stringLength (0x22 :: rest) = rest.length + 1 := by
  refine ⟨fun rest => ?_, fun hashes rest => ?_, fun rest => ?_⟩
  · rw [blockLength]
    rcases blockLength_ends 0 rest with ⟨inside, after, hc, hl⟩ | ⟨ho, hl⟩
    · have htext := Sign.text_ofText rest
      rw [hc.split, ← List.singleton_append, ← List.append_assoc, Sign.text_append] at htext
      refine .inl ⟨inside, after, hc, ?_, by rw [hl]; rfl⟩
      nth_rewrite 1 [← htext]
      rfl
    · exact .inr ⟨ho, by rw [hl]⟩
  · rw [rawLength_eq]
    rcases rawTail_ends hashes rest with ⟨inside, after, hf, hl⟩ | ⟨hn, hl⟩
    · exact .inl ⟨inside, after, hf, by omega⟩
    · exact .inr ⟨hn, by omega⟩
  · have hempty : ¬IsEscaped [] := by decide
    rw [stringLength, List.drop_one, List.tail_cons]
    rcases stringTail_ends hempty rest with ⟨inside, after, hf, hl⟩ | ⟨hn, hl⟩
    · exact .inl ⟨inside, after, hf, by omega⟩
    · exact .inr ⟨hn, by omega⟩

/-- The asterisk of an opening closes nothing, and the slash of a closing opens nothing. -/
example : blockLength 0 (Utf8.octets "/*/ */* */".toList) = 6 := by decide +kernel

end RecordStore.IgnoreMark
