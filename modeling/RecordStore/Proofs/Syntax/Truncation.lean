import RecordStore.Proofs.Schema.Identifiers
import RecordStore.Proofs.Syntax.Separation

/-!
Tokens by themselves. The rules of the lexer take what they took when the end of what they left is
cut off, so the text of a token is read as that token wherever a character follows that parts.
-/
namespace RecordStore.Lexer

open CharClass

/-! ### Rules that need no more than they take -/

section

variable {α : Type} {tail cs text left : Chars}

/-- Where the end of what the rule leaves is cut off, it takes the same. -/
def Cuts (tail : Chars) (rule : Chars → Option (α × Chars)) : Prop :=
  ∀ {cs x}, rule (cs ++ tail) = some (followed tail x) → rule cs = some x

theorem after?_self (start left : Chars) : after? start (start ++ left) = some left := by
  induction start with
  | nil => rfl
  | cons c start ih => simpa [after?] using ih

theorem after?_cut {start : Chars} (h : after? start (cs ++ tail) = some (left ++ tail)) :
    after? start cs = some left := by
  have ha := after?_append h
  rw [← List.append_assoc] at ha
  rw [← List.append_cancel_right ha, after?_self]

theorem after?_eq_none_of_append {start : Chars} (h : after? start (cs ++ tail) = none) :
    after? start cs = none := by
  cases ha : after? start cs with
  | none => rfl
  | some l =>
    rw [← after?_append ha, List.append_assoc, after?_self] at h
    cases h

theorem cuts_fixed (start : Chars) : Cuts tail (fixed start) := by
  intro cs x h
  obtain ⟨l, hl, he⟩ := Option.map_eq_some_iff.mp h
  obtain ⟨rfl, rfl⟩ : start = x.1 ∧ l = x.2 ++ tail := Prod.mk.inj he
  rw [fixed, after?_cut hl]
  rfl

theorem cuts_map_also {front : Chars} {first first' : Option Taken} {t : Taken}
    (hf : ∀ {x}, first' = some (followed tail x) → first = some x)
    (h : first'.map (also front) = some (followed tail t)) :
    first.map (also front) = some t := by
  obtain ⟨x, hx, he⟩ := Option.map_eq_some_iff.mp h
  obtain ⟨text, left⟩ := t
  obtain ⟨b, l⟩ := x
  obtain ⟨rfl, rfl⟩ : front ++ b = text ∧ l = left ++ tail := Prod.mk.inj he
  rw [hf (x := (b, left)) hx]
  rfl

/-- The second rule takes some characters, so the first one leaves some that are not cut off. -/
theorem cuts_andThen {first first' : Option Taken} {second second' : Chars → Option Taken}
    {t : Taken} (hexact : ∀ {rest b l}, second' rest = some (b, l) → b ++ l = rest)
    (hf : ∀ {x}, first' = some (followed tail x) → first = some x)
    (hs : ∀ {cs x}, second' (cs ++ tail) = some (followed tail x) → second cs = some x)
    (h : andThen first' second' = some (followed tail t)) : andThen first second = some t := by
  obtain ⟨text, left⟩ := t
  obtain ⟨a, rest, b, ha, hb, rfl⟩ := andThen_eq_some h
  have hrest : rest = b ++ left ++ tail := by rw [← hexact hb, List.append_assoc]
  subst hrest
  rw [hf (x := (a, b ++ left)) ha]
  change (second (b ++ left)).map (also a) = _
  rw [hs (x := (b, left)) hb]
  rfl

theorem span_cut {p : Char → Bool} {a r : Chars} (h : (cs ++ tail).span p = (a, r ++ tail)) :
    cs.span p = (a, r) := by
  rw [List.span_eq_takeWhile_dropWhile] at h ⊢
  obtain ⟨ht, hd⟩ := Prod.mk.inj h
  have hcs : cs = a ++ r := by
    have ha := List.takeWhile_append_dropWhile (p := p) (l := cs ++ tail)
    rw [ht, hd, ← List.append_assoc] at ha
    exact (List.append_cancel_right ha).symm
  have hp : ∀ c ∈ a, p c = true := by
    rw [← ht]
    exact fun c hc => List.all_eq_true.mp List.all_takeWhile c hc
  have hr : r.takeWhile p = [] ∧ r.dropWhile p = r := by
    cases r with
    | nil => exact ⟨rfl, rfl⟩
    | cons c r =>
      have hc := List.head?_dropWhile_not p (cs ++ tail)
      rw [hd, List.cons_append, List.head?_cons] at hc
      simp_all
  rw [hcs, List.takeWhile_append_of_pos hp, List.dropWhile_append_of_pos hp, hr.1, hr.2,
    List.append_nil]

/-! ### Names -/

theorem cuts_name? : Cuts tail name? := by
  intro cs x h
  obtain ⟨name, left⟩ := x
  obtain ⟨⟨c, w, rfl, hc⟩, hw, hl, ha⟩ := name?_eq_some h
  rw [← List.append_assoc] at ha
  obtain rfl := List.append_cancel_right ha
  rw [List.cons_append, List.cons_append, name?, if_pos hc] at h
  rw [List.cons_append, name?, if_pos hc]
  obtain ⟨ht, hd⟩ := Prod.mk.inj (Option.some.inj h)
  have hspan : (w ++ left).span isIdentifierContinue = (w, left) :=
    span_cut (by rw [List.span_eq_takeWhile_dropWhile, (List.cons.inj ht).2, hd])
  rw [List.span_eq_takeWhile_dropWhile] at hspan
  obtain ⟨ht, hd⟩ := Prod.mk.inj hspan
  rw [ht, hd]

theorem cuts_identifier? : Cuts tail identifier? := by
  intro cs x h
  obtain ⟨i, left⟩ := x
  have ha := identifier?_append h
  unfold identifier? at h ⊢
  cases hraw : after? ['r', '#'] (cs ++ tail) with
  | none =>
    rw [hraw] at h
    rw [after?_eq_none_of_append hraw]
    exact cuts_name? h
  | some rest =>
    rw [hraw] at h
    obtain ⟨⟨n, l⟩, hn, h⟩ := Option.bind_eq_some_iff.mp h
    dsimp only at h
    split at h
    · cases h
    next hword =>
      cases h
      have hrest : rest = n ++ left ++ tail := by
        obtain ⟨-, -, -, ha⟩ := name?_eq_some hn
        rw [← ha, List.append_assoc]
      subst hrest
      rw [after?_cut hraw]
      dsimp only
      rw [cuts_name? (x := (n, left)) hn]
      exact if_neg hword

theorem suffix_cut {w : Chars} (h : suffix (cs ++ tail) = (w, left ++ tail)) :
    suffix cs = (w, left) := by
  unfold suffix at h ⊢
  cases hn : name? (cs ++ tail) with
  | some x =>
    rw [hn, Option.getD_some] at h
    subst h
    rw [cuts_name? (x := (w, left)) hn, Option.getD_some]
  | none =>
    rw [hn, Option.getD_none] at h
    obtain ⟨rfl, hl⟩ := Prod.mk.inj h
    obtain rfl := List.append_cancel_right hl
    cases cs with
    | nil => rfl
    | cons c rest =>
      rw [List.cons_append, name?] at hn
      split at hn
      · cases hn
      next hc => rw [name?, if_neg hc, Option.getD_none]

theorem head?_cut {p : Char → Bool} (h : (cs ++ tail).head?.any p = false) :
    cs.head?.any p = false := by
  cases cs with
  | nil => rfl
  | cons c cs => exact h

/-! ### Numbers -/

theorem cuts_numberSuffix : Cuts tail numberSuffix := by
  intro cs x h
  obtain ⟨w, left⟩ := x
  unfold numberSuffix at h ⊢
  obtain ⟨⟨w', l⟩, hw⟩ : ∃ t, suffix (cs ++ tail) = t := ⟨_, rfl⟩
  rw [hw] at h
  dsimp only at h
  split at h
  · cases h
  next hl =>
    cases h
    rw [suffix_cut hw]
    dsimp only
    rw [if_neg]
    rw [Bool.not_eq_true] at hl ⊢
    exact head?_cut hl

theorem span_append {p : Char → Bool} {a r : Chars} (h : cs.span p = (a, r)) (hr : r ≠ []) :
    (cs ++ tail).span p = (a, r ++ tail) := by
  rw [List.span_eq_takeWhile_dropWhile] at h ⊢
  obtain ⟨rfl, rfl⟩ := Prod.mk.inj h
  have hne : (cs.dropWhile p).isEmpty = false := by simpa using hr
  have hlen : (cs.takeWhile p).length ≠ cs.length := fun he => hr (by
    have ha := congrArg List.length (List.takeWhile_append_dropWhile (p := p) (l := cs))
    rw [List.length_append, he] at ha
    exact List.eq_nil_of_length_eq_zero (by omega))
  rw [List.dropWhile_append, hne, List.takeWhile_append, if_neg hlen]
  rfl

theorem exponentSign_cut {sign r : Chars} (h : exponentSign (cs ++ tail) = (sign, r ++ tail))
    (hr : r ≠ []) : exponentSign cs = (sign, r) := by
  unfold exponentSign at h ⊢
  obtain ⟨⟨blanks, rest⟩, hs⟩ : ∃ t, (cs ++ tail).span (· == '_') = t := ⟨_, rfl⟩
  -- behind the sign itself more blanks may stand
  have signed {mark : Char} {after : Chars} (hrest : rest = mark :: after)
      (h : also (blanks ++ [mark]) (after.span (· == '_')) = (sign, r ++ tail)) :
      ∃ more, cs.span (· == '_') = (blanks, mark :: more) ∧
        also (blanks ++ [mark]) (more.span (· == '_')) = (sign, r) := by
    obtain ⟨⟨us, l⟩, hl⟩ : ∃ t, after.span (· == '_') = t := ⟨_, rfl⟩
    obtain ⟨-, ha⟩ := span_blanks hl
    rw [hl] at h
    obtain ⟨rfl, rfl⟩ := Prod.mk.inj h
    rw [← List.append_assoc] at ha
    subst ha
    subst hrest
    refine ⟨us ++ r, span_cut hs, ?_⟩
    rw [span_cut hl]
    rfl
  rw [hs] at h
  dsimp only at h
  split at h
  next after =>
    obtain ⟨more, hcs, hmore⟩ := signed rfl h
    rw [hcs]
    exact hmore
  next after =>
    obtain ⟨more, hcs, hmore⟩ := signed rfl h
    rw [hcs]
    exact hmore
  next hplus hminus =>
    obtain ⟨rfl, rfl⟩ := Prod.mk.inj h
    rw [span_cut hs]
    dsimp only
    obtain ⟨c, r, rfl⟩ := List.exists_cons_of_ne_nil hr
    split
    next he => exact (hplus _ (by rw [(List.cons.inj he).1]; rfl)).elim
    next he => exact (hminus _ (by rw [(List.cons.inj he).1]; rfl)).elim
    next => rfl

theorem exponentSign_append {sign r : Chars} (h : exponentSign cs = (sign, r)) (hr : r ≠ []) :
    exponentSign (cs ++ tail) = (sign, r ++ tail) := by
  unfold exponentSign at h ⊢
  obtain ⟨⟨blanks, rest⟩, hs⟩ : ∃ t, cs.span (· == '_') = t := ⟨_, rfl⟩
  have signed {mark : Char} {after : Chars}
      (h : also (blanks ++ [mark]) (after.span (· == '_')) = (sign, r)) :
      also (blanks ++ [mark]) ((after ++ tail).span (· == '_')) = (sign, r ++ tail) := by
    obtain ⟨⟨us, l⟩, hl⟩ : ∃ t, after.span (· == '_') = t := ⟨_, rfl⟩
    rw [hl] at h
    cases h
    rw [span_append hl hr]
    rfl
  rw [hs] at h
  dsimp only at h
  split at h
  · rw [span_append hs (List.cons_ne_nil _ _)]
    exact signed h
  · rw [span_append hs (List.cons_ne_nil _ _)]
    exact signed h
  next hplus hminus =>
    cases h
    rw [span_append hs hr]
    dsimp only
    obtain ⟨c, r, rfl⟩ := List.exists_cons_of_ne_nil hr
    split
    next he => exact (hplus r (by rw [(List.cons.inj he).1])).elim
    next he => exact (hminus r (by rw [(List.cons.inj he).1])).elim
    next => rfl

theorem cuts_exponent : Cuts tail exponent := by
  intro cs x h
  obtain ⟨text, left⟩ := x
  unfold exponent at h ⊢
  obtain ⟨⟨sign, rest⟩, hs⟩ : ∃ t, exponentSign (cs ++ tail) = t := ⟨_, rfl⟩
  obtain ⟨⟨digits, l⟩, hd⟩ : ∃ t, rest.span isDigitOrBlank = t := ⟨_, rfl⟩
  rw [hs] at h
  dsimp only at h
  rw [hd] at h
  split at h
  next hhead =>
    obtain ⟨rfl, rfl⟩ : sign ++ digits = text ∧ l = left ++ tail :=
      Prod.mk.inj (Option.some.inj h)
    obtain ⟨c, hc, hdigit⟩ := (Option.any_eq_true _ _).mp hhead
    obtain ⟨-, ha⟩ := span_digits hd
    have hne : digits ≠ [] := by
      rintro rfl
      rw [List.span_eq_takeWhile_dropWhile] at hd
      cases rest with
      | nil => cases hc
      | cons d rest =>
        obtain rfl : d = c := Option.some.inj hc
        rw [List.takeWhile_cons_of_pos (by rw [isDigitOrBlank, hdigit]; rfl)] at hd
        cases hd
    rw [← List.append_assoc] at ha
    subst ha
    rw [exponentSign_cut hs (List.append_ne_nil_of_left_ne_nil hne left)]
    dsimp only
    rw [span_cut hd, if_pos]
    · rfl
    · obtain ⟨d, digits, rfl⟩ := List.exists_cons_of_ne_nil hne
      exact hhead
  next => cases h

/-- An exponent is found wherever it stands, though it may go on. -/
theorem exponent_append (h : (exponent cs).isSome) : (exponent (cs ++ tail)).isSome := by
  unfold exponent at h ⊢
  obtain ⟨⟨sign, rest⟩, hs⟩ : ∃ t, exponentSign cs = t := ⟨_, rfl⟩
  rw [hs] at h
  dsimp only at h
  split at h
  next hhead =>
    obtain ⟨c, rest, rfl⟩ : ∃ c r, rest = c :: r := by
      cases rest with
      | nil => cases hhead
      | cons c r => exact ⟨c, r, rfl⟩
    rw [exponentSign_append hs (List.cons_ne_nil _ _)]
    dsimp only
    rw [if_pos]
    · rfl
    · exact hhead
  next => cases h

theorem ne_nil_of_exponentAhead (h : exponentAhead cs = some (text, left)) : text ≠ [] := by
  unfold exponentAhead at h
  split at h
  · obtain ⟨t, -, rfl⟩ := map_also_eq_some h
    exact List.cons_ne_nil _ _
  · obtain ⟨t, -, rfl⟩ := map_also_eq_some h
    exact List.cons_ne_nil _ _
  · cases h

theorem cuts_exponentAhead : Cuts tail exponentAhead := by
  intro cs x h
  obtain ⟨text, left⟩ := x
  obtain ⟨-, ha⟩ := takesQuiet_exponentAhead h
  rw [← List.append_assoc] at ha
  obtain rfl := List.append_cancel_right ha
  obtain ⟨c, text, rfl⟩ := List.exists_cons_of_ne_nil (ne_nil_of_exponentAhead h)
  simp only [List.cons_append] at h ⊢
  unfold exponentAhead at h ⊢
  split at h
  next he =>
    cases he
    exact cuts_map_also (fun hx => cuts_exponent hx) h
  next he =>
    cases he
    exact cuts_map_also (fun hx => cuts_exponent hx) h
  next => cases h

theorem exponentAhead_append (h : (exponentAhead cs).isSome) :
    (exponentAhead (cs ++ tail)).isSome := by
  unfold exponentAhead at h
  split at h
  · rw [Option.isSome_map] at h
    simpa [exponentAhead] using exponent_append h
  · rw [Option.isSome_map] at h
    simpa [exponentAhead] using exponent_append h
  · cases h

theorem ne_nil_of_fraction (h : fraction cs = some (text, left)) : text ≠ [] := by
  unfold fraction at h
  split at h
  · split at h
    · cases h
    · obtain ⟨rfl, -⟩ := Prod.mk.inj (Option.some.inj h)
      exact List.cons_ne_nil _ _
  · exact ne_nil_of_exponentAhead h

theorem cuts_fraction : Cuts tail fraction := by
  intro cs x h
  obtain ⟨text, left⟩ := x
  obtain ⟨-, ha⟩ := takesQuiet_fraction h
  rw [← List.append_assoc] at ha
  obtain rfl := List.append_cancel_right ha
  obtain ⟨c, text, rfl⟩ := List.exists_cons_of_ne_nil (ne_nil_of_fraction h)
  simp only [List.cons_append] at h ⊢
  by_cases hc : c = '.'
  · subst hc
    simp only [fraction] at h ⊢
    split at h
    · cases h
    next hhead =>
      rw [Bool.not_eq_true] at hhead
      rw [if_neg (by rw [head?_cut hhead]; exact Bool.false_ne_true)]
      obtain ⟨⟨digits, after⟩, hd⟩ : ∃ t, (text ++ left ++ tail).span isDigitOrBlank = t :=
        ⟨_, rfl⟩
      rw [hd] at h
      dsimp only at h
      cases he : exponentAhead after with
      | none =>
        rw [he, Option.getD_none] at h
        obtain ⟨hdigits, rfl⟩ : '.' :: digits ++ [] = '.' :: text ∧ after = left ++ tail :=
          Prod.mk.inj (Option.some.inj h)
        have hleft : exponentAhead left = none := by
          rw [← Option.not_isSome_iff_eq_none]
          intro hs
          have happend : (exponentAhead (left ++ tail)).isSome := exponentAhead_append hs
          rw [he] at happend
          cases happend
        rw [span_cut hd]
        dsimp only
        rw [hleft, ← hdigits]
        rfl
      | some t =>
        obtain ⟨b, l⟩ := t
        rw [he, Option.getD_some] at h
        obtain ⟨hdigits, rfl⟩ : '.' :: digits ++ b = '.' :: text ∧ l = left ++ tail :=
          Prod.mk.inj (Option.some.inj h)
        obtain ⟨-, ha⟩ := takesQuiet_exponentAhead he
        rw [← List.append_assoc] at ha
        subst ha
        rw [span_cut hd]
        dsimp only
        rw [cuts_exponentAhead (x := (b, left)) he, ← hdigits]
        rfl
  · have hf (cs : Chars) : fraction (c :: cs) = exponentAhead (c :: cs) := by
      simp [fraction, hc]
    rw [hf] at h ⊢
    rw [← List.cons_append] at h
    exact cuts_exponentAhead h

theorem cuts_float : Cuts tail float := by
  intro cs x h
  obtain ⟨text, left⟩ := x
  obtain ⟨hn, ha⟩ := float_eq_some h
  rw [← List.append_assoc] at ha
  obtain rfl := List.append_cancel_right ha
  obtain ⟨c, text, rfl⟩ := List.exists_cons_of_ne_nil hn.ne_nil
  unfold float at h ⊢
  obtain ⟨_, hg, h⟩ := Option.bind_eq_some_iff.mp h
  refine Option.bind_eq_some_iff.mpr ⟨(), hg, ?_⟩
  refine cuts_andThen (fun hx => (numberSuffix_eq_some hx).2.2) (fun hx => ?_)
    (fun hx => cuts_numberSuffix hx) h
  refine cuts_andThen (fun hx => (takesQuiet_fraction hx).2) (fun {x} hx => ?_)
    (fun hx => cuts_fraction hx) hx
  exact congrArg some (span_cut (a := x.1) (r := x.2) (Option.some.inj hx))

theorem cuts_digitsOf (base : Nat) (empty : Bool) : Cuts tail (digitsOf base empty) := by
  intro cs x h
  induction cs generalizing empty x with
  | nil =>
    obtain ⟨text, left⟩ := x
    obtain ⟨-, ha⟩ := takesQuiet_digitsOf h
    rw [← List.append_assoc] at ha
    obtain ⟨rfl, rfl⟩ := List.append_eq_nil_iff.mp (List.append_cancel_right ha)
    cases empty with
    | true => exact absurd rfl (ne_nil_of_digitsOf h).1
    | false => rfl
  | cons c rest ih =>
    rw [List.cons_append, digitsOf] at h
    rw [digitsOf]
    split at h
    next hc =>
      rw [if_pos hc]
      split at h
      · cases h
      next he =>
        rw [if_neg he]
        exact cuts_map_also (fun hx => ih empty hx) h
    next hc =>
      rw [if_neg hc]
      have stop (h : (if empty = true then none else some ([], c :: (rest ++ tail))) =
          some (followed tail x)) :
          (if empty = true then none else some ([], c :: rest)) = some x := by
        cases empty with
        | true => cases h
        | false =>
          obtain ⟨text, left⟩ := x
          obtain ⟨rfl, hl⟩ := Prod.mk.inj (Option.some.inj h)
          rw [(List.append_left_inj tail).mp ((List.cons_append ..).trans hl)]
          rfl
      split at h
      next d hd =>
        split at h
        next hlt =>
          rw [if_pos hlt]
          exact cuts_map_also (fun hx => ih false hx) h
        next hlt =>
          rw [if_neg hlt]
          split at h
          · cases h
          next hdigit =>
            rw [if_neg hdigit]
            exact stop h
      next => exact stop h

/-- The digits of a whole number, with the mark of their base. -/
def intDigits (cs : Chars) : Option Taken :=
  match cs with
  | '0' :: 'x' :: rest => (digitsOf 16 true rest).map (also ['0', 'x'])
  | '0' :: 'o' :: rest => (digitsOf 8 true rest).map (also ['0', 'o'])
  | '0' :: 'b' :: rest => (digitsOf 2 true rest).map (also ['0', 'b'])
  | _ => digitsOf 10 true cs

theorem int_eq (cs : Chars) : int cs = andThen (intDigits cs) numberSuffix := rfl

theorem cuts_intDigits : Cuts tail intDigits := by
  intro cs x h
  obtain ⟨text, left⟩ := x
  have marked {m : Char} {base : Nat} {rest : Chars} (he : cs ++ tail = '0' :: m :: rest)
      (h : (digitsOf base true rest).map (also ['0', m]) = some (text, left ++ tail)) :
      ∃ rest, cs = '0' :: m :: rest ∧
        (digitsOf base true rest).map (also ['0', m]) = some (text, left) := by
    obtain ⟨t, ht, rfl⟩ := map_also_eq_some h
    obtain ⟨-, ha⟩ := takesQuiet_digitsOf ht
    rw [← List.append_assoc] at ha
    subst ha
    refine ⟨t ++ left, (List.append_left_inj tail).mp he, ?_⟩
    rw [cuts_digitsOf base true (x := (t, left)) ht]
    rfl
  unfold intDigits at h
  split at h
  next he =>
    obtain ⟨rest, rfl, hr⟩ := marked he h
    exact hr
  next he =>
    obtain ⟨rest, rfl, hr⟩ := marked he h
    exact hr
  next he =>
    obtain ⟨rest, rfl, hr⟩ := marked he h
    exact hr
  next hx ho hb =>
    unfold intDigits
    split
    · exact (hx _ rfl).elim
    · exact (ho _ rfl).elim
    · exact (hb _ rfl).elim
    · exact cuts_digitsOf 10 true h

theorem cuts_int : Cuts tail int := by
  intro cs x h
  rw [int_eq] at h ⊢
  exact cuts_andThen (fun hx => (numberSuffix_eq_some hx).2.2) (fun hx => cuts_intDigits hx)
    (fun hx => cuts_numberSuffix hx) h

/-! ### Texts between quotes -/

theorem ne_nil_of_codePoint? {digits value n : Nat}
    (h : codePoint? digits value cs = some (n, text, left)) : text ≠ [] := by
  cases cs with
  | nil => cases h
  | cons c rest =>
    have more {digits value : Nat} (h : ((codePoint? digits value rest).map fun x =>
        (x.1, also [c] x.2)) = some (n, text, left)) : text ≠ [] := by
      obtain ⟨x, -, he⟩ := Option.map_eq_some_iff.mp h
      cases he
      exact List.cons_ne_nil _ _
    rw [codePoint?] at h
    dsimp only at h
    split at h
    · exact more h
    split at h
    · split at h
      · cases h
        exact List.cons_ne_nil _ _
      · cases h
    split at h
    · split at h
      · cases h
      · exact more h
    · cases h

theorem codePoint?_cut {digits value n : Nat}
    (h : codePoint? digits value (cs ++ tail) = some (n, text, left ++ tail)) :
    codePoint? digits value cs = some (n, text, left) := by
  induction cs generalizing digits value text with
  | nil =>
    obtain ⟨-, ha⟩ := codePoint?_eq_some h
    rw [← List.append_assoc] at ha
    obtain ⟨hnil, -⟩ := List.append_eq_nil_iff.mp (List.append_left_eq_self.mp ha)
    exact absurd hnil (ne_nil_of_codePoint? h)
  | cons c rest ih =>
    have more {digits value : Nat} (h : ((codePoint? digits value (rest ++ tail)).map fun x =>
        (x.1, also [c] x.2)) = some (n, text, left ++ tail)) :
        ((codePoint? digits value rest).map fun x => (x.1, also [c] x.2)) =
          some (n, text, left) := by
      obtain ⟨⟨m, t, l⟩, hx, he⟩ := Option.map_eq_some_iff.mp h
      obtain ⟨rfl, hp⟩ := Prod.mk.inj he
      obtain ⟨rfl, rfl⟩ : [c] ++ t = text ∧ l = left ++ tail := Prod.mk.inj hp
      rw [ih hx]
      rfl
    rw [List.cons_append, codePoint?] at h
    rw [codePoint?]
    dsimp only at h ⊢
    split at h
    next hc =>
      rw [if_pos hc]
      exact more h
    next hc =>
      rw [if_neg hc]
      split at h
      next hc =>
        rw [if_pos hc]
        split at h
        next hv =>
          rw [if_pos hv]
          obtain ⟨rfl, hp⟩ := Prod.mk.inj (Option.some.inj h)
          obtain ⟨rfl, hl⟩ := Prod.mk.inj hp
          rw [List.append_cancel_right hl]
        next => cases h
      next hc =>
        rw [if_neg hc]
        split at h
        · split at h
          · cases h
          next hd =>
            rw [if_neg hd]
            exact more h
        · cases h

/-- An octet's escape, after its mark. -/
def octetEscape? (rules : QuoteRules) (mark : Char) : Chars → Option Taken
  | h :: l :: left => do
    let m ← hexValue? h
    let n ← hexValue? l
    if (m < 8 || rules.octets) && (rules.nul || m != 0 || n != 0) then
      some ([mark, h, l], left)
    else none
  | _ => none

/-- A character's escape, after its mark. -/
def characterEscape? (rules : QuoteRules) (mark : Char) (cs : Chars) : Option Taken := do
  let rest ← after? ['\x7b'] cs
  let (value, t) ← codePoint? 0 0 rest
  if rules.nul || value != 0 then some (also [mark, '\x7b'] t) else none

theorem escape?_cons (rules : QuoteRules) (c : Char) (rest : Chars) :
    escape? rules (c :: rest) =
      if ['n', 'r', 't', '\\', '\'', '"'].contains c then some ([c], rest)
      else if c == '0' then if rules.nul then some ([c], rest) else none
      else if c == 'x' then octetEscape? rules c rest
      else if c == 'u' && rules.unicode then characterEscape? rules c rest
      else none := by
  rfl

section

variable {rules : QuoteRules} {mark : Char} {w : Chars}

theorem octetEscape?_cut
    (h : octetEscape? rules mark (w ++ left ++ tail) = some (mark :: w, left ++ tail)) :
    octetEscape? rules mark (w ++ left) = some (mark :: w, left) := by
  unfold octetEscape? at h
  split at h
  next he =>
    obtain ⟨m, hm, h⟩ := Option.bind_eq_some_iff.mp h
    obtain ⟨n, hn, h⟩ := Option.bind_eq_some_iff.mp h
    split at h
    next hv =>
      obtain ⟨hw, rfl⟩ := Prod.mk.inj (Option.some.inj h)
      obtain rfl := (List.cons.inj hw).2
      dsimp only [octetEscape?, List.cons_append, List.nil_append]
      rw [hm, hn]
      exact if_pos hv
    next => cases h
  next => cases h

theorem characterEscape?_cut
    (h : characterEscape? rules mark (w ++ left ++ tail) = some (mark :: w, left ++ tail)) :
    characterEscape? rules mark (w ++ left) = some (mark :: w, left) := by
  obtain ⟨rest, hr, h⟩ := Option.bind_eq_some_iff.mp h
  obtain ⟨⟨value, t, l⟩, hv, h⟩ := Option.bind_eq_some_iff.mp h
  dsimp only at h
  split at h
  next hn =>
    obtain ⟨hw, rfl⟩ : [mark, '\x7b'] ++ t = mark :: w ∧ l = left ++ tail :=
      Prod.mk.inj (Option.some.inj h)
    obtain rfl := (List.cons.inj hw).2
    obtain ⟨-, ha⟩ := codePoint?_eq_some hv
    rw [← List.append_assoc] at ha
    subst ha
    rw [characterEscape?, after?_cut hr]
    dsimp only [Option.bind_eq_bind, Option.bind_some]
    rw [codePoint?_cut hv]
    dsimp only [Option.bind_some]
    exact if_pos hn
  next => cases h

end

theorem cuts_escape? (rules : QuoteRules) : Cuts tail (escape? rules) := by
  intro cs x h
  obtain ⟨text, left⟩ := x
  obtain ⟨⟨c, w, rfl, -⟩, ha⟩ := escape?_eq_some h
  rw [← List.append_assoc] at ha
  obtain rfl := List.append_cancel_right ha
  rw [List.cons_append, List.cons_append, escape?_cons] at h
  rw [List.cons_append, escape?_cons]
  -- an escape of a single character
  have one {l : Chars} (h : some ([c], l ++ tail) = some (followed tail (c :: w, left))) :
      some ([c], l) = some (c :: w, left) := by
    obtain ⟨hw, hl⟩ := Prod.mk.inj (Option.some.inj h)
    obtain rfl := (List.cons.inj hw).2
    rw [List.append_cancel_right hl]
  split at h
  next hc =>
    rw [if_pos hc]
    exact one h
  next hc =>
  rw [if_neg hc]
  split at h
  next hc =>
    rw [if_pos hc]
    split at h
    next hn =>
      rw [if_pos hn]
      exact one h
    next => cases h
  next hc =>
  rw [if_neg hc]
  split at h
  next hc =>
    rw [if_pos hc]
    exact octetEscape?_cut h
  next hc =>
  rw [if_neg hc]
  split at h
  next hc =>
    rw [if_pos hc]
    exact characterEscape?_cut h
  next => cases h

/-- Something has to follow the end of a line. -/
theorem continueLine_cut (h : continueLine (text ++ (left ++ tail)) = some (text, left ++ tail))
    (hl : left ≠ []) : continueLine (text ++ left) = some (text, left) := by
  generalize hcs : text ++ (left ++ tail) = cs at h
  fun_induction continueLine cs generalizing text with
  | case1 rest ih =>
    obtain ⟨t, ht, rfl⟩ := map_also_eq_some h
    obtain rfl : t ++ (left ++ tail) = rest := by simpa using hcs
    change (continueLine (t ++ left)).map (also ['\r', '\n']) = _
    rw [ih rfl ht]
    rfl
  | case2 => cases h
  | case3 => cases h
  | case4 c rest _ hr hc ih =>
    obtain ⟨t, ht, rfl⟩ := map_also_eq_some h
    obtain rfl : t ++ (left ++ tail) = rest := by simpa using hcs
    rw [List.append_assoc, List.singleton_append, continueLine, if_pos hc, ih rfl ht]
    · rfl
    · exact fun _ he _ => hr he
    · exact hr
  | case5 c rest _ hr hc =>
    obtain ⟨rfl, -⟩ := Prod.mk.inj (Option.some.inj h)
    obtain ⟨d, left, rfl⟩ := List.exists_cons_of_ne_nil hl
    obtain ⟨rfl, -⟩ := List.cons.inj hcs
    rw [List.nil_append, continueLine, if_neg hc]
    · exact fun _ he _ => hr he
    · exact hr

/-- What belongs to a character between quotes. -/
def belonging? (rules : QuoteRules) (c : Char) (rest : Chars) : Option Taken :=
  if c == '\r' then fixed ['\n'] rest
  else if c == '\\' then
    if rest.head? = some '\n' ∨ rest.head? = some '\r' then continueLine rest
    else escape? rules rest
  else if (rules.ascii && 128 ≤ c.toNat) || (!rules.nul && c == '\x00') then none
  else some ([], rest)

theorem quoted_cons (rules : QuoteRules) (f c : Char) (fuel rest : Chars) :
    quoted rules (f :: fuel) (c :: rest) = if c == '"' then some (also [c] (suffix rest))
      else (andThen (belonging? rules c rest) (quoted rules fuel)).map (also [c]) := by
  rw [belonging?]
  unfold quoted
  dsimp only
  split
  · rfl
  split
  · rfl
  split
  · split
    next => rw [if_pos (.inl rfl)]
    next => rw [if_pos (.inr rfl)]
    next hn hr =>
      rw [if_neg]
      rintro (he | he) <;>
        obtain ⟨ds, rfl⟩ := List.head?_eq_some_iff.mp he
      · exact hn ds rfl
      · exact hr ds rfl
  split <;> rfl

theorem append_of_belonging? {rules : QuoteRules} {c : Char} {rest a l : Chars}
    (h : belonging? rules c rest = some (a, l)) : a ++ l = rest := by
  unfold belonging? at h
  split at h
  · obtain ⟨rfl, he⟩ := fixed_eq_some h
    exact he.symm
  split at h
  · split at h
    · exact (continueLine_eq_some h).2
    · exact (escape?_eq_some h).2
  split at h
  · cases h
  · cases h
    rfl

theorem belonging?_cut {rules : QuoteRules} {c : Char} {rest a l : Chars} (hl : l ≠ [])
    (h : belonging? rules c (rest ++ tail) = some (a, l ++ tail)) :
    belonging? rules c rest = some (a, l) := by
  have ha := append_of_belonging? h
  rw [← List.append_assoc] at ha
  obtain rfl := List.append_cancel_right ha
  unfold belonging? at h ⊢
  rw [List.head?_append_of_ne_nil (a ++ l) (by simp [hl])] at h
  split at h
  next hc =>
    rw [if_pos hc]
    exact cuts_fixed _ h
  next hc =>
  rw [if_neg hc]
  split at h
  next hc =>
    rw [if_pos hc]
    split at h
    next hn =>
      rw [if_pos hn]
      rw [List.append_assoc] at h
      exact continueLine_cut h hl
    next hn =>
      rw [if_neg hn]
      exact cuts_escape? rules h
  next hc =>
  rw [if_neg hc]
  split at h
  · cases h
  next hv =>
    rw [if_neg hv]
    obtain ⟨rfl, -⟩ := Prod.mk.inj (Option.some.inj h)
    rfl

theorem quoted_cut {rules : QuoteRules} {fuel fuel' : Chars}
    (h : quoted rules fuel (cs ++ tail) = some (text, left ++ tail))
    (hf : cs.length ≤ fuel'.length) : quoted rules fuel' cs = some (text, left) := by
  induction fuel generalizing cs fuel' text with
  | nil => cases h
  | cons f fuel ih =>
    obtain ⟨c, rest, rfl⟩ : ∃ c rest, cs = c :: rest := by
      obtain ⟨inside, w, -, rfl, -, -, ha⟩ := quoted_eq_some h
      rw [← List.append_assoc] at ha
      rw [← List.append_cancel_right ha]
      exact List.exists_cons_of_ne_nil (by simp)
    obtain ⟨f', fuel', rfl⟩ : ∃ f' fs, fuel' = f' :: fs :=
      List.exists_cons_of_ne_nil fun he => by simp [he] at hf
    simp only [List.length_cons, Nat.add_le_add_iff_right] at hf
    rw [List.cons_append, quoted_cons] at h
    rw [quoted_cons]
    split at h
    next hc =>
      rw [if_pos hc]
      obtain ⟨⟨w, l⟩, hw⟩ : ∃ t, suffix (rest ++ tail) = t := ⟨_, rfl⟩
      rw [hw] at h
      obtain ⟨rfl, rfl⟩ : [c] ++ w = text ∧ l = left ++ tail := Prod.mk.inj (Option.some.inj h)
      rw [suffix_cut hw]
      rfl
    next hc =>
      rw [if_neg hc]
      obtain ⟨t, ht, rfl⟩ := map_also_eq_some h
      obtain ⟨a, m, b, hm, hb, rfl⟩ := andThen_eq_some ht
      -- the literal ends behind what belongs to the character, so that part leaves something
      obtain ⟨inside, w, -, hin, -, -, ha⟩ := quoted_eq_some hb
      rw [← List.append_assoc] at ha
      subst ha
      have hne : b ++ left ≠ [] := by simp [hin]
      have hrest := append_of_belonging? hm
      rw [← List.append_assoc] at hrest
      obtain rfl := List.append_cancel_right hrest
      rw [belonging?_cut hne hm]
      change ((quoted rules fuel' (b ++ left)).map (also a)).map (also [c]) = _
      rw [ih hb (by rw [List.length_append] at hf; omega)]
      rfl

theorem cuts_rawQuoted (rules : QuoteRules) (hashes : Chars) :
    Cuts tail (rawQuoted rules hashes) := by
  intro cs x h
  obtain ⟨text, left⟩ := x
  generalize hds : cs ++ tail = ds at h
  fun_induction rawQuoted rules hashes ds generalizing cs text with
  | case1 => cases h
  | case2 rest ih =>
    obtain ⟨t, ht, rfl⟩ := map_also_eq_some h
    obtain ⟨inside, w, ht', -, -, -, ha⟩ := rawQuoted_eq_some ht
    rw [← List.append_assoc] at ha
    subst ha
    obtain rfl : cs = '\r' :: '\n' :: (t ++ left) := (List.append_left_inj tail).mp hds
    change (rawQuoted rules hashes (t ++ left)).map (also ['\r', '\n']) = _
    rw [ih _ rfl ht]
    rfl
  | case3 c rest hr hc =>
    obtain rfl : c = '"' := eq_of_beq (Bool.and_eq_true_iff.mp hc).1
    obtain ⟨after, rfl⟩ := List.isPrefixOf_iff_prefix.mp (Bool.and_eq_true_iff.mp hc).2
    rw [List.drop_left] at h
    obtain ⟨⟨w, l⟩, hw⟩ : ∃ t, suffix after = t := ⟨_, rfl⟩
    rw [hw] at h
    obtain ⟨rfl, rfl⟩ : '"' :: hashes ++ w = text ∧ l = left ++ tail :=
      Prod.mk.inj (Option.some.inj h)
    obtain ⟨-, -, ha⟩ := suffix_eq hw
    rw [← List.append_assoc] at ha
    subst ha
    obtain rfl : cs = '"' :: (hashes ++ (w ++ left)) :=
      (List.append_left_inj tail).mp (by simpa using hds)
    have hp : hashes.isPrefixOf (hashes ++ (w ++ left)) = true :=
      List.isPrefixOf_iff_prefix.mpr (List.prefix_append _ _)
    rw [rawQuoted, hp, if_pos (by simp), List.drop_left, suffix_cut hw]
    · rfl
    · exact fun _ he => absurd he (by decide)
  | case4 => cases h
  | case5 c rest hr hc hv ih =>
    obtain ⟨t, ht, rfl⟩ := map_also_eq_some h
    obtain ⟨inside, w, ht', -, -, -, ha⟩ := rawQuoted_eq_some ht
    rw [← List.append_assoc] at ha
    subst ha
    obtain rfl : cs = c :: (t ++ left) := (List.append_left_inj tail).mp hds
    have hopen : ¬(c == '"' && hashes.isPrefixOf (t ++ left)) = true := fun he => hc (by
      obtain ⟨hq, hp⟩ := Bool.and_eq_true_iff.mp he
      rw [hq, Bool.true_and, List.isPrefixOf_iff_prefix]
      exact (List.isPrefixOf_iff_prefix.mp hp).trans (List.prefix_append _ _))
    rw [rawQuoted, if_neg hopen, if_neg hv, ih _ rfl ht]
    · rfl
    · exact fun l he hl => hr (l ++ tail) he (by rw [hl]; rfl)

theorem cuts_raw (rules : QuoteRules) : Cuts tail (raw rules) := by
  intro cs x h
  obtain ⟨text, left⟩ := x
  unfold raw at h ⊢
  obtain ⟨⟨hashes, rest⟩, hs⟩ : ∃ t, (cs ++ tail).span (· == '#') = t := ⟨_, rfl⟩
  rw [hs] at h
  dsimp only at h
  split at h
  · cases h
  next hl =>
    obtain ⟨t, ht, rfl⟩ := map_also_eq_some h
    obtain ⟨a, m, b, ha, hb, rfl⟩ := andThen_eq_some ht
    obtain ⟨rfl, rfl⟩ := fixed_eq_some ha
    obtain ⟨inside, w, -, -, -, -, hm⟩ := rawQuoted_eq_some hb
    rw [← List.append_assoc] at hm
    subst hm
    rw [span_cut (r := ['"'] ++ (b ++ left)) (by simpa using hs)]
    dsimp only
    rw [if_neg hl, fixed, after?_self]
    change ((rawQuoted rules hashes (b ++ left)).map (also ['"'])).map (also hashes) = _
    rw [cuts_rawQuoted rules hashes (x := (b, left)) hb]
    rfl

theorem cuts_quotedOrRaw (rules : QuoteRules) (mark : Chars) :
    Cuts tail (quotedOrRaw rules mark) := by
  intro cs x h
  unfold quotedOrRaw at h ⊢
  refine cuts_andThen (fun {rest b l} hx => ?_) (fun hx => cuts_fixed mark hx)
    (fun {cs x} hx => ?_) h
  · split at hx
    next body =>
      obtain ⟨t, ht, rfl⟩ := map_also_eq_some hx
      obtain ⟨inside, w, -, rfl, -, -, rfl⟩ := quoted_eq_some ht
      rfl
    next body =>
      obtain ⟨t, ht, rfl⟩ := map_also_eq_some hx
      obtain ⟨hashes, inside, w, -, rfl, -, -, -, rfl⟩ := raw_eq_some ht
      rfl
    next => cases hx
  · obtain ⟨text, left⟩ := x
    split at hx
    next body he =>
      obtain ⟨t, ht, rfl⟩ := map_also_eq_some hx
      obtain ⟨inside, w, -, -, -, -, ha⟩ := quoted_eq_some ht
      rw [← List.append_assoc] at ha
      subst ha
      obtain rfl : cs = '"' :: (t ++ left) := (List.append_left_inj tail).mp he
      change (quoted rules (t ++ left) (t ++ left)).map (also ['"']) = _
      rw [quoted_cut ht (Nat.le_refl _)]
      rfl
    next body he =>
      obtain ⟨t, ht, rfl⟩ := map_also_eq_some hx
      obtain ⟨hashes, inside, w, -, -, -, -, -, ha⟩ := raw_eq_some ht
      rw [← List.append_assoc] at ha
      subst ha
      obtain rfl : cs = 'r' :: (t ++ left) := (List.append_left_inj tail).mp he
      change (raw rules (t ++ left)).map (also ['r']) = _
      rw [cuts_raw rules (x := (t, left)) ht]
      rfl
    next => cases hx

theorem cuts_single (rules : QuoteRules) : Cuts tail (single rules) := by
  intro cs x h
  obtain ⟨c, rest, rfl⟩ : ∃ c rest, cs = c :: rest := by
    have hs : single rules (cs ++ tail) = some (x.1, x.2 ++ tail) := h
    obtain ⟨content, w, -, ht, -, -, ha⟩ := single_eq_some hs
    rw [← List.append_assoc] at ha
    rw [← List.append_cancel_right ha, ht]
    exact List.exists_cons_of_ne_nil (by simp)
  rw [List.cons_append] at h
  unfold single at h ⊢
  dsimp only at h ⊢
  refine cuts_andThen (fun hx => ?_) (fun hx => ?_) (fun {cs x} hx => ?_) h
  · exact (suffix_eq (Option.some.inj hx)).2.2
  · refine cuts_andThen (fun hx => ?_) (fun {x} hx => ?_) (fun hx => cuts_fixed _ hx) hx
    · obtain ⟨rfl, he⟩ := fixed_eq_some hx
      exact he.symm
    · split at hx
      next hc =>
        rw [if_pos hc]
        exact cuts_map_also (fun hx => cuts_escape? rules hx) hx
      next hc =>
        rw [if_neg hc]
        split at hx
        · cases hx
        next hv =>
          rw [if_neg hv]
          obtain ⟨text, left⟩ := x
          obtain ⟨rfl, hl⟩ := Prod.mk.inj (Option.some.inj hx)
          rw [List.append_cancel_right hl]
  · exact congrArg some (suffix_cut (show suffix _ = (x.1, x.2 ++ tail) from Option.some.inj hx))

/-- One character or octet behind its mark. -/
theorem cuts_marked (rules : QuoteRules) (mark : Chars) :
    Cuts tail fun cs => andThen (fixed mark cs) (single rules) := fun h =>
  cuts_andThen (fun hx => (single_eq_some hx).elim fun _ ⟨_, _, _, _, _, ha⟩ => ha)
    (fun hx => cuts_fixed mark hx) (fun hx => cuts_single rules hx) h

/-! ### Texts of tokens -/

theorem isWord_of_digitsOf {base : Nat} {empty : Bool}
    (h : digitsOf base empty cs = some (text, left)) : IsWord text := by
  induction cs generalizing empty text with
  | nil =>
    unfold digitsOf at h
    split at h
    · cases h
    · cases h
      exact List.forall_mem_nil _
  | cons c rest ih =>
    rw [digitsOf] at h
    split at h
    next hc =>
      split at h
      · cases h
      · obtain ⟨t, ht, rfl⟩ := map_also_eq_some h
        exact List.forall_mem_cons.mpr ⟨eq_of_beq hc ▸ by decide, ih ht⟩
    next =>
      have stop (h : (if empty = true then none else some ([], c :: rest)) = some (text, left)) :
          IsWord text := by
        split at h
        · cases h
        · cases h
          exact List.forall_mem_nil _
      split at h
      next d hd =>
        split at h
        · obtain ⟨t, ht, rfl⟩ := map_also_eq_some h
          have hc := isIdentifierContinue_of_isAlphanum (isAlphanum_of_hexValue? hd)
          exact List.forall_mem_cons.mpr ⟨hc, ih ht⟩
        · split at h
          · cases h
          · exact stop h
      next => exact stop h

theorem isWord_of_int (h : int cs = some (text, left)) : IsWord text := by
  rw [int_eq] at h
  obtain ⟨a, rest, w, ha, hw, rfl⟩ := andThen_eq_some h
  have marked {m : Char} {base : Nat} {rest l : Chars} (hm : IsWord ['0', m])
      (h : (digitsOf base true rest).map (also ['0', m]) = some (a, l)) : IsWord a := by
    obtain ⟨t, ht, rfl⟩ := map_also_eq_some h
    exact List.forall_mem_append.mpr ⟨hm, isWord_of_digitsOf ht⟩
  have hx : IsWord ['0', 'x'] ∧ IsWord ['0', 'o'] ∧ IsWord ['0', 'b'] := by
    refine ⟨?_, ?_, ?_⟩ <;> exact List.all_iff_forall_prop.mp (by decide)
  have hdigits : IsWord a := by
    unfold intDigits at ha
    split at ha
    · exact marked hx.1 ha
    · exact marked hx.2.1 ha
    · exact marked hx.2.2 ha
    · exact isWord_of_digitsOf ha
  exact List.forall_mem_append.mpr ⟨hdigits, (numberSuffix_eq_some hw).1⟩

/-- A number with a point or an exponent is not taken in the middle of a word. -/
theorem head?_of_float (h : float cs = some (text, left)) :
    left.head?.any isIdentifierContinue = false := by
  unfold float at h
  obtain ⟨_, -, h⟩ := Option.bind_eq_some_iff.mp h
  obtain ⟨a, rest, w, -, hw, -⟩ := andThen_eq_some h
  unfold numberSuffix at hw
  dsimp only at hw
  split at hw
  · cases hw
  next hl =>
    cases hw
    simpa using hl

theorem number_text (h : (float cs <|> int cs) = some (text, left)) :
    (float text <|> int text) = some (text, []) := by
  rcases eq_some_of_orElse h with h | h
  · obtain ⟨-, rfl⟩ := float_eq_some h
    rw [cuts_float (x := (text, [])) h]
    rfl
  · obtain ⟨-, rfl⟩ := int_eq_some h
    cases hf : float text with
    | some x =>
      -- All of the text is a word, so nothing of it is left.
      obtain ⟨t, l⟩ := x
      obtain ⟨-, rfl⟩ := float_eq_some hf
      have hl := head?_of_float hf
      obtain rfl : l = [] := by
        cases l with
        | nil => rfl
        | cons c l =>
          have hc := isWord_of_int h c (by simp)
          rw [List.head?_cons, Option.any_some, hc] at hl
          cases hl
      rw [List.append_nil]
      rfl
    | none =>
      rw [cuts_int (x := (text, [])) h]
      rfl

theorem literal?_text (h : literal? cs = some (text, left)) :
    literal? text = some (text, []) := by
  obtain ⟨hform, rfl⟩ := literal?_hasForm h
  obtain ⟨c, t, rfl⟩ := List.exists_cons_of_ne_nil hform.ne_nil
  rw [List.cons_append] at h
  by_cases hq : c ∈ ['"', 'r']
  · rw [literal?_quote hq] at h ⊢
    exact cuts_quotedOrRaw .ofText [] (x := (c :: t, [])) h
  by_cases hb : c = 'b'
  · subst hb
    rw [literal?_octets] at h ⊢
    rcases eq_some_of_orElse h with h | h
    · rw [cuts_quotedOrRaw .ofOctets ['b'] (x := ('b' :: t, [])) h]
      rfl
    · -- The quote is a single one, so no text starts there.
      have hs := @cuts_marked left .ofOctets ['b', '\''] ('b' :: t) ('b' :: t, []) h
      obtain ⟨x, hx, -⟩ := Option.bind_eq_some_iff.mp hs
      have hx := eq_append_of_fixed hx
      rw [List.cons_append, List.cons_append] at hx
      obtain rfl := (List.cons.inj hx).2
      exact hs
  by_cases hc : c = 'c'
  · subst hc
    rw [literal?_terminated] at h ⊢
    exact cuts_quotedOrRaw .ofTerminated ['c'] (x := ('c' :: t, [])) h
  by_cases hs : c = '\''
  · subst hs
    rw [literal?_single] at h ⊢
    exact @cuts_marked left .ofText ['\''] ('\'' :: t) ('\'' :: t, []) h
  have hhead : c ∉ ['"', 'r', 'b', 'c', '\''] := by
    simp only [List.mem_cons, List.not_mem_nil, or_false, not_or] at hq ⊢
    exact ⟨hq.1, hq.2, hb, hc, hs⟩
  rw [literal?_of_head hhead] at h ⊢
  exact number_text h

theorem literalStart_cut (h : literalStart (cs ++ tail) = false) : literalStart cs = false := by
  rw [literalStart, List.any_eq_false] at h ⊢
  intro w hw hp
  refine h w hw (List.isPrefixOf_iff_prefix.mpr ?_)
  exact (List.isPrefixOf_iff_prefix.mp hp).trans (List.prefix_append _ _)

theorem lifetime?_text {n : String} (h : lifetime? cs = some (.lifetime n, left)) :
    leaf? n.toList = some (.lifetime n, []) := by
  obtain ⟨⟨i, l⟩, hi, h⟩ := Option.bind_eq_some_iff.mp h
  obtain rfl := identifier?_append hi
  dsimp only at h
  split at h
  · cases h
  split at h
  · cases h
  next hstart =>
    cases h
    have hstart := literalStart_cut (Bool.eq_false_iff.mpr hstart)
    have hlife : lifetime? i = some (.lifetime (String.ofList ('\'' :: i)), []) := by
      unfold lifetime?
      rw [cuts_identifier? (x := (i, [])) hi]
      dsimp only [Option.bind_eq_bind, Option.bind_some]
      rw [hstart]
      rfl
    have hpunct : punct? ('\'' :: i) = lifetime? i := rfl
    rw [String.toList_ofList, leaf?, literal?_eq_none_of_lifetime? hlife, hpunct, hlife]

theorem ident_text {n : String} (h : leaf? cs = some (.ident n, left)) :
    leaf? n.toList = some (.ident n, []) := by
  unfold leaf? at h
  split at h
  · cases h
  split at h
  next hp => exact absurd (hp.trans h) punct?_ne_ident
  split at h
  · cases h
  next hstart =>
    obtain ⟨⟨i, l⟩, hi, h⟩ := Option.map_eq_some_iff.mp h
    cases h
    obtain rfl := identifier?_append hi
    have hstart := literalStart_cut (Bool.eq_false_iff.mpr hstart)
    have hid := cuts_identifier? (x := (i, [])) hi
    obtain ⟨c, t, rfl⟩ : ∃ c t, i = c :: t := by
      cases i with
      | nil => cases hid
      | cons c t => exact ⟨c, t, rfl⟩
    have hc := start_of_identifier? hid
    rw [String.toList_ofList, leaf?, literal?_eq_none_of_name hc hstart, punct?_of_start hc, hid,
      hstart]
    rfl

theorem literal_text {s : String} (h : leaf? cs = some (.literal s, left)) :
    leaf? s.toList = some (.literal s, []) := by
  unfold leaf? at h
  split at h
  next hl =>
    cases h
    rw [String.toList_ofList, leaf?, literal?_text hl]
  split at h
  next hp =>
    cases h
    unfold punct? at hp
    split at hp
    · cases hp
    · obtain ⟨x, -, hp⟩ := Option.bind_eq_some_iff.mp hp
      dsimp only at hp
      split at hp
      · cases hp
      · split at hp <;> cases hp
    · split at hp <;> cases hp
  split at h
  · cases h
  · obtain ⟨i, -, h⟩ := Option.map_eq_some_iff.mp h
    cases h

end

end RecordStore.Lexer
