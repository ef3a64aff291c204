import Mathlib.Data.Bool.AllAny
import Mathlib.Data.List.Infix
import RecordStore.Syntax.Lexer

/-!
What the rules of the lexer take: always the start of what is ahead, and for each rule a text of
some form, so that whoever goes over a token need not know how it was found.
-/
namespace RecordStore.Lexer

open CharClass

variable {cs left text : Chars}

/-! ### Fixed texts and names -/

theorem after?_append {start : Chars} (h : after? start cs = some left) : start ++ left = cs := by
  induction start generalizing cs with
  | nil =>
    cases h
    rfl
  | cons s start ih =>
    cases cs with
    | nil => cases h
    | cons c cs =>
      rw [after?] at h
      split at h
      next hs => rw [List.cons_append, ih h, eq_of_beq hs]
      next => cases h

theorem fixed_eq_some {start t : Chars} (h : fixed start cs = some (t, left)) :
    t = start ∧ cs = start ++ left := by
  obtain ⟨l, hl, he⟩ := Option.map_eq_some_iff.mp h
  obtain ⟨rfl, rfl⟩ := Prod.mk.inj he
  exact ⟨rfl, (after?_append hl).symm⟩

theorem andThen_eq_some {first : Option Taken} {second : Chars → Option Taken}
    (h : andThen first second = some (text, left)) : ∃ a rest b,
      first = some (a, rest) ∧ second rest = some (b, left) ∧ text = a ++ b := by
  obtain ⟨⟨a, rest⟩, ha, h⟩ := Option.bind_eq_some_iff.mp h
  obtain ⟨⟨b, l⟩, hb, he⟩ := Option.map_eq_some_iff.mp h
  obtain ⟨rfl, rfl⟩ := Prod.mk.inj he
  exact ⟨a, rest, b, ha, hb, rfl⟩

theorem map_also_eq_some {front : Chars} {t : Option Taken}
    (h : t.map (also front) = some (text, left)) : ∃ b, t = some (b, left) ∧ text = front ++ b := by
  obtain ⟨⟨b, l⟩, hb, he⟩ := Option.map_eq_some_iff.mp h
  obtain ⟨rfl, rfl⟩ := Prod.mk.inj he
  exact ⟨b, hb, rfl⟩

/-- A word: all of it can continue a name. -/
def IsWord (cs : Chars) : Prop := ∀ c ∈ cs, isIdentifierContinue c = true

theorem isIdentifierContinue_of_start {c : Char} (h : isIdentifierStart c = true) :
    isIdentifierContinue c = true := by
  unfold isIdentifierStart at h
  unfold isIdentifierContinue
  split at h
  next hc =>
    rw [if_pos hc]
    rcases Bool.or_eq_true_iff.mp h with ha | hu
    · rw [Char.isAlphanum, ha, Bool.true_or, Bool.true_or]
    · rw [hu, Bool.or_true]
  next hc => rw [if_neg hc, h, Bool.true_or]

theorem isIdentifierStart_r : isIdentifierStart 'r' = true := by decide

/-- A name starts as names do, and nothing that could continue it follows. -/
theorem name?_eq_some {name : Chars} (h : name? cs = some (name, left)) :
    (∃ c rest, name = c :: rest ∧ isIdentifierStart c = true) ∧ IsWord name ∧
      left.head?.any isIdentifierContinue = false ∧ name ++ left = cs := by
  cases cs with
  | nil => cases h
  | cons c rest =>
    rw [name?] at h
    split at h
    next hc =>
      cases h
      refine ⟨⟨c, _, rfl, hc⟩, ?_, ?_, by rw [List.cons_append, List.takeWhile_append_dropWhile]⟩
      · intro d hd
        rcases List.mem_cons.mp hd with rfl | hd
        · exact isIdentifierContinue_of_start hc
        · exact List.all_eq_true.mp List.all_takeWhile d hd
      · cases hl : rest.dropWhile isIdentifierContinue with
        | nil => rfl
        | cons d ds =>
          have hd := List.head?_dropWhile_not isIdentifierContinue rest
          rw [hl] at hd
          simpa using hd
    next => cases h

/-- An identifier is a name, or one behind the mark of raw names. -/
theorem identifier?_eq_some {i : Chars} (h : identifier? cs = some (i, left)) :
    ∃ front name, (front = [] ∨ front = ['r', '#']) ∧ i = front ++ name ∧
      (∃ c rest, name = c :: rest ∧ isIdentifierStart c = true) ∧ IsWord name ∧
      left.head?.any isIdentifierContinue = false ∧ i ++ left = cs := by
  unfold identifier? at h
  split at h
  · obtain ⟨hs, hw, hl, ha⟩ := name?_eq_some h
    exact ⟨[], i, .inl rfl, rfl, hs, hw, hl, ha⟩
  next rest hr =>
    obtain ⟨⟨n, l⟩, hn, h⟩ := Option.bind_eq_some_iff.mp h
    dsimp only at h
    split at h
    · cases h
    · cases h
      obtain ⟨hs, hw, hl, ha⟩ := name?_eq_some hn
      refine ⟨['r', '#'], n, .inr rfl, rfl, hs, hw, hl, ?_⟩
      rw [← after?_append hr, ← ha]
      rfl

theorem identifier?_append {name : Chars} (h : identifier? cs = some (name, left)) :
    name ++ left = cs := by
  obtain ⟨-, -, -, -, -, -, -, ha⟩ := identifier?_eq_some h
  exact ha

/-- What a suffix is: a word, and no `r` follows that would be part of it. -/
theorem suffix_eq {w : Chars} (h : suffix cs = (w, left)) :
    IsWord w ∧ left.head? ≠ some 'r' ∧ w ++ left = cs := by
  unfold suffix at h
  cases hn : name? cs with
  | some t =>
    rw [hn, Option.getD_some] at h
    subst h
    obtain ⟨-, hw, hl, ha⟩ := name?_eq_some hn
    refine ⟨hw, fun hr => ?_, ha⟩
    rw [hr, Option.any_some, isIdentifierContinue_of_start isIdentifierStart_r] at hl
    cases hl
  | none =>
    rw [hn, Option.getD_none] at h
    obtain ⟨rfl, rfl⟩ := Prod.mk.inj h
    refine ⟨fun c hc => absurd hc List.not_mem_nil, fun hr => ?_, rfl⟩
    cases cs with
    | nil => cases hr
    | cons c rest =>
      obtain rfl : c = 'r' := by simpa using hr
      rw [name?, if_pos isIdentifierStart_r] at hn
      cases hn

/-! ### Texts between quotes -/

/-- Characters that mean nothing between quotes. -/
def IsInert (c : Char) : Prop := c ≠ '"' ∧ c ≠ '\\' ∧ c ≠ '\''

instance (c : Char) : Decidable (IsInert c) :=
  inferInstanceAs (Decidable (c ≠ '"' ∧ c ≠ '\\' ∧ c ≠ '\''))

/-- What follows a backslash: any character, and behind one that is no single quote some that mean
nothing. -/
def IsEscape (cs : Chars) : Prop :=
  ∃ c rest, cs = c :: rest ∧ (∀ d ∈ rest, IsInert d) ∧ (rest = [] ∨ c ≠ '\'')

theorem isInert_of_hexValue? {c : Char} {n : Nat} (h : hexValue? c = some n) : IsInert c := by
  refine ⟨?_, ?_, ?_⟩ <;>
  · rintro rfl
    cases h

theorem codePoint?_eq_some {digits value n : Nat} (h : codePoint? digits value cs =
    some (n, text, left)) : (∀ c ∈ text, IsInert c) ∧ text ++ left = cs := by
  induction cs generalizing digits value text with
  | nil => cases h
  | cons c rest ih =>
    have more {d v : Nat} (hc : IsInert c)
        (h : ((codePoint? d v rest).map fun p => (p.1, also [c] p.2)) = some (n, text, left)) :
        (∀ c ∈ text, IsInert c) ∧ text ++ left = c :: rest := by
      obtain ⟨⟨m, t, l⟩, ht, he⟩ := Option.map_eq_some_iff.mp h
      cases he
      obtain ⟨hi, ha⟩ := ih ht
      exact ⟨List.forall_mem_cons.mpr ⟨hc, hi⟩, congrArg (c :: ·) ha⟩
    rw [codePoint?] at h
    dsimp only at h
    split at h
    next hc =>
      obtain ⟨rfl, -⟩ : c = '_' ∧ _ := by simpa using hc
      exact more (by decide) h
    split at h
    next hc =>
      obtain ⟨rfl, -⟩ : c = '\x7d' ∧ _ := by simpa using hc
      split at h
      · cases h
        exact ⟨List.forall_mem_singleton.mpr (by decide), rfl⟩
      · cases h
    split at h
    next hd =>
      split at h
      · cases h
      · exact more (isInert_of_hexValue? hd) h
    next => cases h

theorem escape?_eq_some {rules : QuoteRules} (h : escape? rules cs = some (text, left)) :
    IsEscape text ∧ text ++ left = cs := by
  cases cs with
  | nil => cases h
  | cons c rest =>
    have one : IsEscape [c] ∧ [c] ++ rest = c :: rest :=
      ⟨⟨c, [], rfl, fun d hd => absurd hd List.not_mem_nil, .inl rfl⟩, rfl⟩
    unfold escape? at h
    dsimp only at h
    split at h
    · cases h
      exact one
    split at h
    · split at h
      · cases h
        exact one
      · cases h
    split at h
    next hc =>
      split at h
      next a b l =>
        obtain ⟨m, hm, h⟩ := Option.bind_eq_some_iff.mp h
        obtain ⟨n, hn, h⟩ := Option.bind_eq_some_iff.mp h
        split at h
        · cases h
          obtain rfl := eq_of_beq hc
          refine ⟨⟨'x', [a, b], rfl, ?_, .inr (by decide)⟩, rfl⟩
          simp [isInert_of_hexValue? hm, isInert_of_hexValue? hn]
        · cases h
      next => cases h
    split at h
    next hc =>
      obtain ⟨l, hl, h⟩ := Option.bind_eq_some_iff.mp h
      obtain ⟨⟨n, t, l'⟩, ht, h⟩ := Option.bind_eq_some_iff.mp h
      obtain ⟨hi, ha⟩ := codePoint?_eq_some ht
      dsimp only at h
      split at h
      · cases h
        obtain ⟨rfl, -⟩ : c = 'u' ∧ _ := by simpa using hc
        refine ⟨⟨'u', '\x7b' :: t, rfl, List.forall_mem_cons.mpr ⟨by decide, hi⟩,
          .inr (by decide)⟩, ?_⟩
        rw [← after?_append hl, ← ha]
        rfl
      · cases h
    next => cases h

theorem continueLine_eq_some (h : continueLine cs = some (text, left)) :
    (∀ c ∈ text, IsInert c) ∧ text ++ left = cs := by
  fun_induction continueLine cs generalizing text with
  | case1 rest ih =>
    obtain ⟨t, ht, rfl⟩ := map_also_eq_some h
    obtain ⟨hi, ha⟩ := ih ht
    refine ⟨?_, by rw [← ha]; rfl⟩
    simp only [List.cons_append, List.nil_append, List.forall_mem_cons]
    exact ⟨by decide, by decide, hi⟩
  | case2 => cases h
  | case3 => cases h
  | case4 c rest _ _ hc ih =>
    obtain ⟨t, ht, rfl⟩ := map_also_eq_some h
    obtain ⟨hi, ha⟩ := ih ht
    refine ⟨?_, by rw [← ha]; rfl⟩
    simp only [List.cons_append, List.nil_append, List.forall_mem_cons]
    refine ⟨?_, hi⟩
    have hc : (c = ' ' ∨ c = '\t') ∨ c = '\n' := by simpa using hc
    rcases hc with (rfl | rfl) | rfl <;> decide
  | case5 c rest =>
    cases h
    exact ⟨fun c hc => absurd hc List.not_mem_nil, rfl⟩

/-- The end of a line and the blanks behind it, as what stands behind a backslash. -/
theorem isEscape_continueLine (h : continueLine cs = some (text, left))
    (hcs : ∃ d ds, cs = d :: ds ∧ (d = '\n' ∨ d = '\r')) : IsEscape text := by
  cases text with
  | nil =>
    -- at least the end of the line is taken
    obtain ⟨d, ds, rfl, rfl | rfl⟩ := hcs
    · simp [continueLine, also] at h
    · cases ds with
      | nil => simp [continueLine] at h
      | cons e es =>
        by_cases he : e = '\n'
        · subst he
          simp [continueLine, also] at h
        · simp [continueLine, he] at h
  | cons b text =>
    obtain ⟨hb, ht⟩ := List.forall_mem_cons.mp (continueLine_eq_some h).1
    exact ⟨b, text, rfl, ht, .inr hb.2.2⟩

/-- Texts between double quotes: no quote stands there but behind a backslash. -/
inductive Inside : Chars → Prop where
  | nil : Inside []
  | char {c : Char} {cs : Chars} : c ≠ '"' → c ≠ '\\' → Inside cs → Inside (c :: cs)
  | escape {c : Char} {cs : Chars} : Inside cs → Inside ('\\' :: c :: cs)

theorem Inside.inert_append {cs ds : Chars} (hc : ∀ c ∈ cs, IsInert c) (hd : Inside ds) :
    Inside (cs ++ ds) := by
  induction cs with
  | nil => exact hd
  | cons c cs ih =>
    obtain ⟨h, hcs⟩ := List.forall_mem_cons.mp hc
    exact .char h.1 h.2.1 (ih hcs)

theorem Inside.escape_append {cs ds : Chars} (hc : IsEscape cs) (hd : Inside ds) :
    Inside ('\\' :: (cs ++ ds)) := by
  obtain ⟨c, rest, rfl, hi, -⟩ := hc
  exact .escape (.inert_append hi hd)

/-- The form of a quoted literal behind its first quote. -/
theorem quoted_eq_some {rules : QuoteRules} {fuel : Chars}
    (h : quoted rules fuel cs = some (text, left)) : ∃ inside w, Inside inside ∧
      text = inside ++ '"' :: w ∧ IsWord w ∧ left.head? ≠ some 'r' ∧ text ++ left = cs := by
  induction fuel generalizing cs text with
  | nil => cases h
  | cons f fuel ih =>
    cases cs with
    | nil => cases h
    | cons c rest =>
      -- one character and what belongs to it, then the rest of the literal
      have more {first : Option Taken}
          (h : (andThen first (quoted rules fuel)).map (also [c]) = some (text, left))
          (hf : ∀ {a l : Chars}, first = some (a, l) → a ++ l = rest ∧
            ∀ ds, Inside ds → Inside (c :: (a ++ ds))) :
          ∃ inside w, Inside inside ∧ text = inside ++ '"' :: w ∧ IsWord w ∧
            left.head? ≠ some 'r' ∧ text ++ left = c :: rest := by
        obtain ⟨t, ht, rfl⟩ := map_also_eq_some h
        obtain ⟨a, l, b, ha, hb, rfl⟩ := andThen_eq_some ht
        obtain ⟨hal, hin⟩ := hf ha
        obtain ⟨inside, w, hi, rfl, hw, hl, hcs⟩ := ih hb
        refine ⟨c :: (a ++ inside), w, hin _ hi, by simp, hw, hl, ?_⟩
        rw [← hal, ← hcs]
        simp
      unfold quoted at h
      dsimp only at h
      split at h
      next hc =>
        obtain rfl := eq_of_beq hc
        obtain ⟨⟨w, l⟩, hw⟩ : ∃ t, suffix rest = t := ⟨_, rfl⟩
        rw [hw] at h
        cases h
        obtain ⟨hword, hl, ha⟩ := suffix_eq hw
        exact ⟨[], w, .nil, rfl, hword, hl, by rw [← ha]; rfl⟩
      next hquote =>
      have hquote : c ≠ '"' := by simpa using hquote
      split at h
      next hc =>
        obtain rfl := eq_of_beq hc
        refine more h fun hf => ?_
        obtain ⟨rfl, rfl⟩ := fixed_eq_some hf
        exact ⟨rfl, fun ds hd => .char hquote (by decide) (.char (by decide) (by decide) hd)⟩
      split at h
      next hc =>
        obtain rfl := eq_of_beq hc
        have skips (h : (andThen (continueLine rest) (quoted rules fuel)).map (also ['\\']) =
            some (text, left)) (hr : ∃ d ds, rest = d :: ds ∧ (d = '\n' ∨ d = '\r')) :=
          more h fun hf => ⟨(continueLine_eq_some hf).2,
            fun ds hd => .escape_append (isEscape_continueLine hf hr) hd⟩
        split at h
        next ds => exact skips h ⟨_, _, rfl, .inl rfl⟩
        next ds => exact skips h ⟨_, _, rfl, .inr rfl⟩
        next =>
          refine more h fun hf => ?_
          obtain ⟨he, ha⟩ := escape?_eq_some hf
          exact ⟨ha, fun ds hd => .escape_append he hd⟩
      next hback =>
      have hback : c ≠ '\\' := by simpa using hback
      split at h
      · cases h
      · refine more h fun hf => ?_
        cases hf
        exact ⟨rfl, fun ds hd => .char hquote hback hd⟩

/-! ### Raw texts -/

/-- Whether a raw literal is not closed too early: no quote inside has all its hashes behind it.
`after` is what follows the inside. -/
def Unclosed (hashes inside after : Chars) : Prop :=
  ∀ a b, inside = a ++ '"' :: b → ¬hashes <+: b ++ after

theorem Unclosed.nil {hashes after : Chars} : Unclosed hashes [] after := by
  intro a b h
  cases a <;> cases h

theorem Unclosed.cons {hashes inside after : Chars} {c : Char}
    (hc : c = '"' → ¬hashes <+: inside ++ after) (h : Unclosed hashes inside after) :
    Unclosed hashes (c :: inside) after := by
  intro a b he
  cases a with
  | nil =>
    obtain ⟨rfl, rfl⟩ := List.cons.inj he
    exact hc rfl
  | cons d a =>
    obtain ⟨rfl, rfl⟩ := List.cons.inj he
    exact h a b rfl

/-- The form of a raw literal behind its first quote. -/
theorem rawQuoted_eq_some {rules : QuoteRules} {hashes : Chars}
    (h : rawQuoted rules hashes cs = some (text, left)) : ∃ inside w,
      text = inside ++ '"' :: (hashes ++ w) ∧
        Unclosed hashes inside ('"' :: (hashes ++ w ++ left)) ∧
          IsWord w ∧ left.head? ≠ some 'r' ∧ text ++ left = cs := by
  fun_induction rawQuoted rules hashes cs generalizing text with
  | case1 => cases h
  | case2 rest ih =>
    obtain ⟨t, ht, rfl⟩ := map_also_eq_some h
    obtain ⟨inside, w, rfl, hu, hw, hl, rfl⟩ := ih ht
    exact ⟨'\r' :: '\n' :: inside, w, rfl,
      .cons (fun hc => absurd hc (by decide)) (.cons (fun hc => absurd hc (by decide)) hu), hw, hl,
      rfl⟩
  | case3 c rest _ hc =>
    obtain ⟨hquote, hhashes⟩ := Bool.and_eq_true_iff.mp hc
    obtain rfl := eq_of_beq hquote
    obtain ⟨after, rfl⟩ := List.isPrefixOf_iff_prefix.mp hhashes
    rw [List.drop_left] at h
    obtain ⟨⟨w, l⟩, hw⟩ : ∃ t, suffix after = t := ⟨_, rfl⟩
    rw [hw] at h
    cases h
    obtain ⟨hword, hl, rfl⟩ := suffix_eq hw
    exact ⟨[], w, rfl, .nil, hword, hl, by simp⟩
  | case4 => cases h
  | case5 c rest _ hc _ ih =>
    obtain ⟨t, ht, rfl⟩ := map_also_eq_some h
    obtain ⟨inside, w, rfl, hu, hw, hl, rfl⟩ := ih ht
    refine ⟨c :: inside, w, rfl, .cons ?_ hu, hw, hl, rfl⟩
    rintro rfl hp
    refine hc ?_
    rw [beq_self_eq_true, Bool.true_and, List.isPrefixOf_iff_prefix]
    simpa using hp

/-- The form of a raw literal from its hashes on. -/
theorem raw_eq_some {rules : QuoteRules} (h : raw rules cs = some (text, left)) :
    ∃ hashes inside w, (∀ c ∈ hashes, c = '#') ∧
      text = hashes ++ '"' :: (inside ++ '"' :: (hashes ++ w)) ∧
      Unclosed hashes inside ('"' :: (hashes ++ w ++ left)) ∧ IsWord w ∧ left.head? ≠ some 'r' ∧
      text ++ left = cs := by
  unfold raw at h
  rw [List.span_eq_takeWhile_dropWhile] at h
  dsimp only at h
  split at h
  · cases h
  · obtain ⟨t, ht, rfl⟩ := map_also_eq_some h
    obtain ⟨a, rest, b, ha, hb, rfl⟩ := andThen_eq_some ht
    obtain ⟨rfl, hrest⟩ := fixed_eq_some ha
    obtain ⟨inside, w, rfl, hu, hw, hl, rfl⟩ := rawQuoted_eq_some hb
    refine ⟨_, inside, w, fun c hc => ?_, rfl, hu, hw, hl, ?_⟩
    · exact eq_of_beq (List.all_eq_true.mp List.all_takeWhile c hc)
    · rw [List.append_assoc, List.append_assoc, ← hrest, List.takeWhile_append_dropWhile]

/-! ### Texts between single quotes -/

/-- What stands between single quotes: a character, or an escape. -/
inductive IsContent : Chars → Prop where
  | char {c : Char} : c ≠ '\\' → IsContent [c]
  | escape {cs : Chars} : IsEscape cs → IsContent ('\\' :: cs)

/-- The form of a literal behind its first single quote. -/
theorem single_eq_some {rules : QuoteRules} (h : single rules cs = some (text, left)) :
    ∃ content w, IsContent content ∧ text = content ++ '\'' :: w ∧ IsWord w ∧
      left.head? ≠ some 'r' ∧ text ++ left = cs := by
  have close {content : Option Taken} {c : Char} {rest : Chars}
      (h : andThen (andThen content (fixed ['\''])) (fun left => some (suffix left)) =
        some (text, left))
      (hc : ∀ {a l : Chars}, content = some (a, l) → IsContent a ∧ a ++ l = c :: rest) :
      ∃ content w, IsContent content ∧ text = content ++ '\'' :: w ∧ IsWord w ∧
        left.head? ≠ some 'r' ∧ text ++ left = c :: rest := by
    obtain ⟨a, l, w, ha, hw, rfl⟩ := andThen_eq_some h
    obtain ⟨content, m, q, hcontent, hq, rfl⟩ := andThen_eq_some ha
    obtain ⟨rfl, rfl⟩ := fixed_eq_some hq
    obtain ⟨hi, he⟩ := hc hcontent
    obtain ⟨hword, hl, rfl⟩ := suffix_eq (Option.some.inj hw)
    refine ⟨content, w, hi, by simp, hword, hl, ?_⟩
    rw [← he]
    simp
  cases cs with
  | nil => cases h
  | cons c rest =>
    unfold single at h
    refine close h fun {a l} hcontent => ?_
    split at hcontent
    next hc =>
      obtain rfl := eq_of_beq hc
      obtain ⟨t, ht, rfl⟩ := map_also_eq_some hcontent
      obtain ⟨he, rfl⟩ := escape?_eq_some ht
      exact ⟨.escape he, rfl⟩
    next hc =>
      split at hcontent
      · cases hcontent
      · cases hcontent
        exact ⟨.char (by simpa using hc), rfl⟩

/-! ### Numbers -/

/-- Characters that can start neither a comment nor a literal. -/
def IsQuiet (c : Char) : Prop := c ∉ ['/', '"', '\'', '#']

instance (c : Char) : Decidable (IsQuiet c) :=
  inferInstanceAs (Decidable (c ∉ ['/', '"', '\'', '#']))

theorem isQuiet_of {p : Char → Bool} (hp : ∀ c ∈ ['/', '"', '\'', '#'], p c = false) {c : Char}
    (h : p c = true) : IsQuiet c := fun hc => by
  rw [hp c hc] at h
  cases h

theorem IsWord.isQuiet {w : Chars} (h : IsWord w) : ∀ c ∈ w, IsQuiet c := fun c hc =>
  isQuiet_of (p := isIdentifierContinue) (List.all_iff_forall_prop.mp (by decide)) (h c hc)

theorem span_quiet {p : Char → Bool} (hp : ∀ c ∈ ['/', '"', '\'', '#'], p c = false)
    {front rest : Chars} (h : cs.span p = (front, rest)) :
    (∀ c ∈ front, IsQuiet c) ∧ front ++ rest = cs := by
  rw [List.span_eq_takeWhile_dropWhile] at h
  cases h
  refine ⟨fun c hc => ?_, List.takeWhile_append_dropWhile⟩
  exact isQuiet_of hp (List.all_eq_true.mp List.all_takeWhile c hc)

theorem span_digits {digits rest : Chars} (h : cs.span isDigitOrBlank = (digits, rest)) :
    (∀ c ∈ digits, IsQuiet c) ∧ digits ++ rest = cs :=
  span_quiet (List.all_iff_forall_prop.mp (by decide)) h

theorem span_blanks {blanks rest : Chars} (h : cs.span (· == '_') = (blanks, rest)) :
    (∀ c ∈ blanks, IsQuiet c) ∧ blanks ++ rest = cs :=
  span_quiet (List.all_iff_forall_prop.mp (by decide)) h

/-- What a rule for numbers takes. -/
def TakesQuiet (rule : Chars → Option Taken) : Prop :=
  ∀ {cs text left : Chars}, rule cs = some (text, left) →
    (∀ c ∈ text, IsQuiet c) ∧ text ++ left = cs

theorem TakesQuiet.andThen {first second : Chars → Option Taken} (hf : TakesQuiet first)
    (hs : TakesQuiet second) : TakesQuiet fun cs => andThen (first cs) second := by
  intro cs text left h
  obtain ⟨a, rest, b, ha, hb, rfl⟩ := andThen_eq_some h
  obtain ⟨hqa, rfl⟩ := hf ha
  obtain ⟨hqb, rfl⟩ := hs hb
  exact ⟨List.forall_mem_append.mpr ⟨hqa, hqb⟩, List.append_assoc ..⟩

theorem exponentSign_quiet {sign rest : Chars} (h : exponentSign cs = (sign, rest)) :
    (∀ c ∈ sign, IsQuiet c) ∧ sign ++ rest = cs := by
  unfold exponentSign at h
  obtain ⟨⟨blanks, after⟩, hs⟩ : ∃ t, cs.span (· == '_') = t := ⟨_, rfl⟩
  obtain ⟨hb, rfl⟩ := span_blanks hs
  have signed {mark : Char} {after : Chars} (hm : IsQuiet mark)
      (h : also (blanks ++ [mark]) (after.span (· == '_')) = (sign, rest)) :
      (∀ c ∈ sign, IsQuiet c) ∧ sign ++ rest = blanks ++ mark :: after := by
    obtain ⟨⟨more, l⟩, hl⟩ : ∃ t, after.span (· == '_') = t := ⟨_, rfl⟩
    obtain ⟨hq, rfl⟩ := span_blanks hl
    rw [hl] at h
    cases h
    refine ⟨?_, by simp⟩
    simp only [List.forall_mem_append, List.forall_mem_singleton]
    exact ⟨⟨hb, hm⟩, hq⟩
  rw [hs] at h
  dsimp only at h
  split at h
  · exact signed (by decide) h
  · exact signed (by decide) h
  · cases h
    exact ⟨hb, rfl⟩

theorem takesQuiet_exponent : TakesQuiet exponent := by
  intro cs text left h
  unfold exponent at h
  obtain ⟨⟨sign, rest⟩, hs⟩ : ∃ t, exponentSign cs = t := ⟨_, rfl⟩
  obtain ⟨hq, rfl⟩ := exponentSign_quiet hs
  rw [hs] at h
  dsimp only at h
  split at h
  · obtain ⟨⟨digits, l⟩, hd⟩ : ∃ t, rest.span isDigitOrBlank = t := ⟨_, rfl⟩
    obtain ⟨hqd, rfl⟩ := span_digits hd
    rw [hd] at h
    cases h
    exact ⟨List.forall_mem_append.mpr ⟨hq, hqd⟩, List.append_assoc ..⟩
  · cases h

theorem takesQuiet_exponentAhead : TakesQuiet exponentAhead := by
  intro cs text left h
  unfold exponentAhead at h
  split at h
  · obtain ⟨t, ht, rfl⟩ := map_also_eq_some h
    obtain ⟨hq, rfl⟩ := takesQuiet_exponent ht
    exact ⟨List.forall_mem_cons.mpr ⟨by decide, hq⟩, rfl⟩
  · obtain ⟨t, ht, rfl⟩ := map_also_eq_some h
    obtain ⟨hq, rfl⟩ := takesQuiet_exponent ht
    exact ⟨List.forall_mem_cons.mpr ⟨by decide, hq⟩, rfl⟩
  · cases h

theorem takesQuiet_fraction : TakesQuiet fraction := by
  intro cs text left h
  unfold fraction at h
  split at h
  · split at h
    · cases h
    next rest _ =>
      obtain ⟨⟨digits, after⟩, hd⟩ : ∃ t, rest.span isDigitOrBlank = t := ⟨_, rfl⟩
      obtain ⟨hq, rfl⟩ := span_digits hd
      have hpoint : ∀ c ∈ '.' :: digits, IsQuiet c :=
        List.forall_mem_cons.mpr ⟨by decide, hq⟩
      rw [hd] at h
      dsimp only at h
      cases he : exponentAhead after with
      | none =>
        rw [he, Option.getD_none] at h
        cases h
        rw [List.append_nil]
        exact ⟨hpoint, rfl⟩
      | some t =>
        rw [he, Option.getD_some] at h
        cases h
        obtain ⟨hqe, ha⟩ := takesQuiet_exponentAhead he
        refine ⟨List.forall_mem_append.mpr ⟨hpoint, hqe⟩, ?_⟩
        rw [List.append_assoc, ha]
        rfl
  · exact takesQuiet_exponentAhead h

theorem numberSuffix_eq_some (h : numberSuffix cs = some (text, left)) :
    IsWord text ∧ left.head? ≠ some 'r' ∧ text ++ left = cs := by
  unfold numberSuffix at h
  obtain ⟨⟨w, l⟩, hw⟩ : ∃ t, suffix cs = t := ⟨_, rfl⟩
  rw [hw] at h
  dsimp only at h
  split at h
  · cases h
  · cases h
    exact suffix_eq hw

theorem takesQuiet_digitsOf {base : Nat} {empty : Bool} : TakesQuiet (digitsOf base empty) := by
  intro cs text left h
  fun_induction digitsOf base empty cs generalizing text with
  | case1 => cases h
  | case2 => cases h; exact ⟨fun c hc => absurd hc List.not_mem_nil, rfl⟩
  | case3 => cases h
  | case4 empty c rest hc _ ih =>
    obtain ⟨t, ht, rfl⟩ := map_also_eq_some h
    obtain ⟨hq, rfl⟩ := ih ht
    exact ⟨List.forall_mem_cons.mpr ⟨eq_of_beq hc ▸ by decide, hq⟩, rfl⟩
  | case5 empty c rest hc d hd _ ih =>
    obtain ⟨t, ht, rfl⟩ := map_also_eq_some h
    obtain ⟨hq, rfl⟩ := ih ht
    refine ⟨List.forall_mem_cons.mpr ⟨?_, hq⟩, rfl⟩
    exact isQuiet_of (p := fun c => (hexValue? c).isSome)
      (List.all_iff_forall_prop.mp (by decide)) (by rw [hd]; rfl)
  | case6 => cases h
  | case7 => cases h
  | case8 =>
    cases h
    exact ⟨fun c hc => absurd hc List.not_mem_nil, rfl⟩
  | case9 => cases h
  | case10 =>
    cases h
    exact ⟨fun c hc => absurd hc List.not_mem_nil, rfl⟩

/-- Where digits have to come, something does, and it is no `r`. -/
theorem ne_nil_of_digitsOf {base : Nat} (h : digitsOf base true cs = some (text, left)) :
    text ≠ [] ∧ cs.head? ≠ some 'r' := by
  cases cs with
  | nil => cases h
  | cons c rest =>
    rw [digitsOf] at h
    split at h
    next hc =>
      obtain rfl := eq_of_beq hc
      split at h
      · cases h
      · obtain ⟨t, -, rfl⟩ := map_also_eq_some h
        exact ⟨List.cons_ne_nil _ _, by simp⟩
    next =>
      split at h
      next d hd =>
        split at h
        · obtain ⟨t, -, rfl⟩ := map_also_eq_some h
          refine ⟨List.cons_ne_nil _ _, fun hr => ?_⟩
          obtain rfl : c = 'r' := by simpa using hr
          cases hd
        · split at h <;> cases h
      next => cases h

/-- What the rules for numbers take: no `r` comes first, and none follows. -/
structure IsNumber (text left : Chars) : Prop where
  quiet : ∀ c ∈ text, IsQuiet c
  ne_nil : text ≠ []
  head : text.head? ≠ some 'r'
  after : left.head? ≠ some 'r'

theorem isNumber_of_digits {digits : Option Taken}
    (hd : ∀ {a l : Chars}, digits = some (a, l) → (∀ c ∈ a, IsQuiet c) ∧ a ≠ [] ∧
      cs.head? ≠ some 'r' ∧ a ++ l = cs)
    (h : andThen digits numberSuffix = some (text, left)) :
    IsNumber text left ∧ text ++ left = cs := by
  obtain ⟨a, rest, w, ha, hw, rfl⟩ := andThen_eq_some h
  obtain ⟨hq, hne, hr, hcs⟩ := hd ha
  obtain ⟨hword, hl, rfl⟩ := numberSuffix_eq_some hw
  obtain ⟨c, a, rfl⟩ := List.exists_cons_of_ne_nil hne
  refine ⟨⟨List.forall_mem_append.mpr ⟨hq, hword.isQuiet⟩, List.cons_ne_nil _ _, ?_, hl⟩, ?_⟩
  · rwa [← hcs] at hr
  · rw [List.append_assoc, hcs]

theorem float_eq_some (h : float cs = some (text, left)) :
    IsNumber text left ∧ text ++ left = cs := by
  unfold float at h
  obtain ⟨_, hg, h⟩ := Option.bind_eq_some_iff.mp h
  have hg : cs.head?.any Char.isDigit = true := by
    by_contra hn
    simp [guard, hn] at hg
  refine isNumber_of_digits (fun {a l} ha => ?_) h
  obtain ⟨digits, rest, more, hd, hf, rfl⟩ := andThen_eq_some ha
  obtain ⟨hq, hcs⟩ := span_digits (Option.some.inj hd)
  obtain ⟨hqf, hrest⟩ := takesQuiet_fraction hf
  refine ⟨List.forall_mem_append.mpr ⟨hq, hqf⟩, ?_, ?_, by rw [List.append_assoc, hrest, hcs]⟩
  · cases cs with
    | nil => cases hg
    | cons c cs =>
      have hc : isDigitOrBlank c = true := by
        rw [isDigitOrBlank, show c.isDigit = true by simpa using hg, Bool.true_or]
      rw [List.span_eq_takeWhile_dropWhile, List.takeWhile_cons_of_pos hc] at hd
      cases hd
      exact List.cons_ne_nil _ _
  · intro hr
    rw [hr] at hg
    exact absurd hg (by decide)

theorem int_eq_some (h : int cs = some (text, left)) :
    IsNumber text left ∧ text ++ left = cs := by
  unfold int at h
  have prefixed {mark : Char} {base : Nat} {rest a l : Chars} (hm : IsQuiet mark)
      (ha : (digitsOf base true rest).map (also ['0', mark]) = some (a, l)) :
      (∀ c ∈ a, IsQuiet c) ∧ a ≠ [] ∧ ('0' :: mark :: rest).head? ≠ some 'r' ∧
        a ++ l = '0' :: mark :: rest := by
    obtain ⟨t, ht, rfl⟩ := map_also_eq_some ha
    obtain ⟨hq, rfl⟩ := takesQuiet_digitsOf ht
    exact ⟨List.forall_mem_cons.mpr ⟨by decide, List.forall_mem_cons.mpr ⟨hm, hq⟩⟩,
      List.cons_ne_nil _ _, by simp, rfl⟩
  refine isNumber_of_digits (fun {a l} ha => ?_) h
  split at ha
  · exact prefixed (by decide) ha
  · exact prefixed (by decide) ha
  · exact prefixed (by decide) ha
  · obtain ⟨hq, hcs⟩ := takesQuiet_digitsOf ha
    obtain ⟨hne, hr⟩ := ne_nil_of_digitsOf ha
    exact ⟨hq, hne, hr, hcs⟩

end RecordStore.Lexer
