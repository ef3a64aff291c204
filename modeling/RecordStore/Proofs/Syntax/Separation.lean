import RecordStore.Proofs.Syntax.Lexemes

/-!
Tokens and what follows them. Where a character follows that continues nothing, the rules of the
lexer take what they took without it, so a text may be read in parts.
-/
namespace RecordStore.Lexer

open CharClass

/-! ### Characters that part -/

/-- A character that continues no name, number or operator and is no quote. -/
structure Parts (s : Char) : Prop where
  word : isIdentifierContinue s = false
  mark : isMark s = false
  quote : s ≠ '"'

/-- A character of names, numbers and operators, or a quote. -/
def isSign (c : Char) : Bool := isIdentifierContinue c || isMark c || c == '"'

instance : DecidablePred Parts := fun s =>
  decidable_of_iff (isIdentifierContinue s = false ∧ isMark s = false ∧ s ≠ '"')
    ⟨fun h => ⟨h.1, h.2.1, h.2.2⟩, fun h => ⟨h.word, h.mark, h.quote⟩⟩

theorem isIdentifierContinue_of_isAlphanum {c : Char} (h : c.isAlphanum = true) :
    isIdentifierContinue c = true := by
  have hlt : c.toNat < 128 := by
    delta Char.isAlphanum Char.isAlpha Char.isUpper Char.isLower Char.isDigit at h
    simp only [Bool.or_eq_true, Bool.and_eq_true, decide_eq_true_eq, UInt32.le_iff_toNat_le] at h
    have : c.toNat = c.val.toNat := rfl
    have : 'Z'.val.toNat = 90 := rfl
    have : 'z'.val.toNat = 122 := rfl
    have : '9'.val.toNat = 57 := rfl
    omega
  rw [isIdentifierContinue, if_pos hlt, h, Bool.true_or]

theorem isAlphanum_of_hexValue? {c : Char} {n : Nat} (h : hexValue? c = some n) :
    c.isAlphanum = true := by
  delta Char.isAlphanum Char.isAlpha Char.isUpper Char.isLower Char.isDigit
  simp only [Bool.or_eq_true, Bool.and_eq_true, decide_eq_true_eq, UInt32.le_iff_toNat_le]
  unfold hexValue? at h
  simp only [Char.le_def, UInt32.le_iff_toNat_le, Bool.and_eq_true, decide_eq_true_eq] at h
  have h9 : '9'.val.toNat = 57 := rfl
  have h0 : '0'.val.toNat = 48 := rfl
  have ha : 'a'.val.toNat = 97 := rfl
  have hf : 'f'.val.toNat = 102 := rfl
  have hA : 'A'.val.toNat = 65 := rfl
  have hF : 'F'.val.toNat = 70 := rfl
  have hz : 'z'.val.toNat = 122 := rfl
  have hZ : 'Z'.val.toNat = 90 := rfl
  split at h
  · omega
  split at h
  · omega
  split at h
  · omega
  · cases h

namespace Parts

variable {s c : Char}

theorem ne_of_continue (h : Parts s) (hc : isIdentifierContinue c = true) : s ≠ c := by
  rintro rfl
  rw [h.word] at hc
  cases hc

theorem ne_of_isMark (h : Parts s) (hc : isMark c = true) : s ≠ c := by
  rintro rfl
  rw [h.mark] at hc
  cases hc

theorem not_start (h : Parts s) : isIdentifierStart s = false :=
  Bool.eq_false_iff.mpr fun hs => h.ne_of_continue (isIdentifierContinue_of_start hs) rfl

theorem not_digit (h : Parts s) : s.isDigit = false := by
  refine Bool.eq_false_iff.mpr fun hs => h.ne_of_continue ?_ rfl
  exact isIdentifierContinue_of_isAlphanum (by rw [Char.isAlphanum, hs, Bool.or_true])

theorem not_hexDigit (h : Parts s) : hexValue? s = none := by
  cases hv : hexValue? s with
  | none => rfl
  | some n =>
    exact absurd rfl
      (h.ne_of_continue (isIdentifierContinue_of_isAlphanum (isAlphanum_of_hexValue? hv)))

/-- It is none of the characters with which the fixed texts of the rules are written. -/
theorem notMem (h : Parts s) {cs : Chars} (hcs : cs.all isSign = true) : s ∉ cs := by
  intro hs
  have hc := List.all_eq_true.mp hcs s hs
  simp only [isSign, Bool.or_eq_true, beq_iff_eq] at hc
  rcases hc with (hc | hc) | hc
  · exact h.ne_of_continue hc rfl
  · exact h.ne_of_isMark hc rfl
  · exact h.quote hc

end Parts

/-! ### Rules that take the same -/

section

variable {α β : Type} {tail : Chars}

/-- What a rule takes, with more behind what it leaves. -/
def followed (tail : Chars) (x : α × Chars) : α × Chars := (x.1, x.2 ++ tail)

/-- Where some characters follow, the rule takes the same or fails alike. -/
def Steady (tail : Chars) (rule : Chars → Option (α × Chars)) : Prop :=
  ∀ cs, rule (cs ++ tail) = (rule cs).map (followed tail)

/-- What the rule takes it also takes where some characters follow. -/
def Firm (tail : Chars) (rule : Chars → Option (α × Chars)) : Prop :=
  ∀ {cs x}, rule cs = some x → rule (cs ++ tail) = some (followed tail x)

theorem Steady.firm {rule : Chars → Option (α × Chars)} (h : Steady tail rule) :
    Firm tail rule := by
  intro cs x hx
  rw [h cs, hx]
  rfl

theorem also_followed (front : Chars) (t : Taken) :
    also front (followed tail t) = followed tail (also front t) := rfl

theorem map_also_followed (front : Chars) (t : Option Taken) :
    (t.map (followed tail)).map (also front) = (t.map (also front)).map (followed tail) := by
  cases t <;> rfl

theorem andThen_followed {f : Option Taken} {second : Chars → Option Taken}
    (h : Steady tail second) : andThen (f.map (followed tail)) second =
      (andThen f second).map (followed tail) := by
  cases f with
  | none => rfl
  | some t =>
    change (second (t.2 ++ tail)).map (also t.1) = ((second t.2).map (also t.1)).map _
    rw [h, map_also_followed]

theorem Steady.andThen {first second : Chars → Option Taken} (hf : Steady tail first)
    (hs : Steady tail second) : Steady tail fun cs => andThen (first cs) second := by
  intro cs
  dsimp only
  rw [hf cs, andThen_followed hs]

theorem Steady.orElse {first second : Chars → Option (α × Chars)} (hf : Steady tail first)
    (hs : Steady tail second) : Steady tail fun cs => (first cs <|> second cs) := by
  intro cs
  dsimp only
  rw [hf cs, hs cs]
  cases first cs <;> rfl

theorem firm_andThen {first first' : Option Taken} {second second' : Chars → Option Taken}
    {t : Taken} (hf : ∀ {x}, first = some x → first' = some (followed tail x))
    (hs : ∀ {cs x}, second cs = some x → second' (cs ++ tail) = some (followed tail x))
    (h : Lexer.andThen first second = some t) :
    Lexer.andThen first' second' = some (followed tail t) := by
  obtain ⟨text, left⟩ := t
  obtain ⟨a, rest, b, ha, hb, rfl⟩ := andThen_eq_some h
  rw [hf ha]
  change (second' (rest ++ tail)).map (also a) = _
  rw [hs hb]
  rfl

theorem firm_map_also {front : Chars} {first first' : Option Taken} {t : Taken}
    (hf : ∀ {x}, first = some x → first' = some (followed tail x))
    (h : first.map (also front) = some t) :
    first'.map (also front) = some (followed tail t) := by
  obtain ⟨x, hx, rfl⟩ := Option.map_eq_some_iff.mp h
  rw [hf hx]
  rfl

end

variable {s : Char} {b : Chars}

theorem after?_followed {start : Chars} (hs : s ∉ start) (cs : Chars) :
    after? start (cs ++ s :: b) = (after? start cs).map (· ++ s :: b) := by
  induction start generalizing cs with
  | nil => rfl
  | cons c start ih =>
    obtain ⟨hc, hstart⟩ := List.ne_and_not_mem_of_not_mem_cons hs
    cases cs with
    | nil => simp [after?, Ne.symm hc]
    | cons d cs =>
      rw [List.cons_append, after?, after?]
      split
      · exact ih hstart cs
      · rfl

theorem eq_append_of_fixed {start cs : Chars} {x : Taken} (h : fixed start cs = some x) :
    cs = start ++ x.2 := (fixed_eq_some h).2

theorem steady_fixed {start : Chars} (hs : s ∉ start) : Steady (s :: b) (fixed start) := by
  intro cs
  rw [fixed, fixed, after?_followed hs]
  cases after? start cs <;> rfl

theorem span_followed {p : Char → Bool} (hp : p s = false) (cs : Chars) :
    (cs ++ s :: b).span p = followed (s :: b) (cs.span p) := by
  rw [List.span_eq_takeWhile_dropWhile, List.span_eq_takeWhile_dropWhile]
  induction cs with
  | nil => simp [followed, hp]
  | cons c cs ih =>
    simp only [followed, Prod.mk.injEq] at ih ⊢
    rw [List.cons_append, List.takeWhile_cons, List.takeWhile_cons, List.dropWhile_cons,
      List.dropWhile_cons]
    split
    · exact ⟨by rw [ih.1], ih.2⟩
    · exact ⟨rfl, rfl⟩

theorem head?_followed {p : Char → Bool} (hp : p s = false) (cs : Chars) :
    (cs ++ s :: b).head?.any p = cs.head?.any p := by
  cases cs with
  | nil => simp [hp]
  | cons => rfl

/-! ### Names -/

section

variable (hs : Parts s)

include hs

theorem steady_name? : Steady (s :: b) name? := by
  intro cs
  cases cs with
  | nil => simp [name?, hs.not_start]
  | cons c rest =>
    rw [List.cons_append, name?, name?]
    split
    · have h := span_followed (b := b) hs.word rest
      rw [List.span_eq_takeWhile_dropWhile, List.span_eq_takeWhile_dropWhile] at h
      obtain ⟨ht, hd⟩ := Prod.mk.inj h
      rw [ht, hd]
      rfl
    · rfl

theorem steady_identifier? : Steady (s :: b) identifier? := by
  intro cs
  unfold identifier?
  rw [after?_followed (hs.notMem (by decide))]
  cases after? ['r', '#'] cs with
  | none => exact steady_name? hs cs
  | some rest =>
    dsimp only [Option.map_some]
    rw [steady_name? hs rest]
    cases name? rest with
    | none => rfl
    | some x =>
      dsimp only [Option.map_some, Option.bind_eq_bind, Option.bind_some, followed]
      split <;> rfl

theorem suffix_followed (cs : Chars) : suffix (cs ++ s :: b) = followed (s :: b) (suffix cs) := by
  rw [suffix, suffix, steady_name? hs cs]
  cases name? cs <;> rfl

/-! ### Numbers -/

theorem steady_numberSuffix : Steady (s :: b) numberSuffix := by
  intro cs
  unfold numberSuffix
  rw [suffix_followed hs]
  dsimp only [followed]
  rw [head?_followed hs.word]
  split <;> rfl

theorem isDigitOrBlank_parts : isDigitOrBlank s = false := by
  rw [isDigitOrBlank, hs.not_digit, Bool.false_or, beq_eq_false_iff_ne]
  exact hs.ne_of_continue (by decide)

theorem isBlank_parts : (s == '_') = false :=
  beq_eq_false_iff_ne.mpr (hs.ne_of_continue (by decide))

theorem exponentSign_followed (cs : Chars) :
    exponentSign (cs ++ s :: b) = followed (s :: b) (exponentSign cs) := by
  have hplus : s ≠ '+' := hs.ne_of_isMark (by decide)
  have hminus : s ≠ '-' := hs.ne_of_isMark (by decide)
  unfold exponentSign
  rw [span_followed (p := (· == '_')) (isBlank_parts hs)]
  obtain ⟨blanks, rest⟩ := cs.span (· == '_')
  dsimp only [followed]
  cases rest with
  | nil => simp [hplus, hminus]
  | cons c rest =>
    by_cases hp : c = '+'
    · subst hp
      change also (blanks ++ ['+']) ((rest ++ s :: b).span (· == '_')) = _
      rw [span_followed (p := (· == '_')) (isBlank_parts hs)]
      rfl
    by_cases hm : c = '-'
    · subst hm
      change also (blanks ++ ['-']) ((rest ++ s :: b).span (· == '_')) = _
      rw [span_followed (p := (· == '_')) (isBlank_parts hs)]
      rfl
    simp [hp, hm]

theorem steady_exponent : Steady (s :: b) exponent := by
  intro cs
  unfold exponent
  rw [exponentSign_followed hs]
  dsimp only [followed]
  rw [head?_followed hs.not_digit, span_followed (isDigitOrBlank_parts hs)]
  split <;> rfl

theorem steady_exponentAhead : Steady (s :: b) exponentAhead := by
  have he : s ≠ 'e' := hs.ne_of_continue (by decide)
  have hE : s ≠ 'E' := hs.ne_of_continue (by decide)
  intro cs
  cases cs with
  | nil => simp [exponentAhead, he, hE]
  | cons c rest =>
    by_cases h : c = 'e'
    · subst h
      change (exponent (rest ++ s :: b)).map (also ['e']) = ((exponent rest).map _).map _
      rw [steady_exponent hs rest, map_also_followed]
    by_cases h' : c = 'E'
    · subst h'
      change (exponent (rest ++ s :: b)).map (also ['E']) = ((exponent rest).map _).map _
      rw [steady_exponent hs rest, map_also_followed]
    simp [exponentAhead, h, h']

theorem steady_fraction : Steady (s :: b) fraction := by
  have hdot : s ≠ '.' := hs.ne_of_isMark (by decide)
  intro cs
  cases cs with
  | nil =>
    have h := steady_exponentAhead (b := b) hs []
    simpa [fraction, hdot] using h
  | cons c rest =>
    by_cases h : c = '.'
    · subst h
      have hp : (s == '.' || isIdentifierStart s) = false := by
        rw [hs.not_start, Bool.or_false, beq_eq_false_iff_ne]
        exact hdot
      simp only [List.cons_append, fraction]
      rw [head?_followed hp, span_followed (isDigitOrBlank_parts hs)]
      split
      · rfl
      · dsimp only [followed]
        rw [steady_exponentAhead hs]
        cases exponentAhead (rest.span isDigitOrBlank).2 <;> rfl
    · have he := steady_exponentAhead (b := b) hs (c :: rest)
      simpa [fraction, h] using he

theorem steady_float : Steady (s :: b) float := by
  intro cs
  unfold float
  rw [head?_followed hs.not_digit, span_followed (isDigitOrBlank_parts hs)]
  cases cs.head?.any Char.isDigit with
  | false => rfl
  | true =>
    have hf : Steady (s :: b) fun cs => andThen (some (cs.span isDigitOrBlank)) fraction := by
      intro cs
      dsimp only
      rw [span_followed (isDigitOrBlank_parts hs)]
      exact andThen_followed (f := some _) (steady_fraction hs)
    have h := (hf.andThen (steady_numberSuffix hs)) cs
    dsimp only at h
    rw [span_followed (isDigitOrBlank_parts hs)] at h
    exact h

theorem steady_digitsOf (base : Nat) (empty : Bool) : Steady (s :: b) (digitsOf base empty) := by
  intro cs
  induction cs generalizing empty with
  | nil =>
    rw [List.nil_append, digitsOf, digitsOf, if_neg (by simp [isBlank_parts hs]),
      hs.not_hexDigit]
    cases empty <;> rfl
  | cons c rest ih =>
    rw [List.cons_append, digitsOf, digitsOf]
    split
    · split
      · rfl
      · rw [ih, map_also_followed]
    · cases hexValue? c with
      | none =>
        dsimp only
        split <;> rfl
      | some d =>
        dsimp only
        split
        · rw [ih, map_also_followed]
        · split
          · rfl
          · split <;> rfl

theorem steady_int : Steady (s :: b) int := by
  have hx : s ≠ 'x' := hs.ne_of_continue (by decide)
  have ho : s ≠ 'o' := hs.ne_of_continue (by decide)
  have hb : s ≠ 'b' := hs.ne_of_continue (by decide)
  have h0 : s ≠ '0' := hs.ne_of_continue (by decide)
  refine Steady.andThen (fun cs => ?_) (steady_numberSuffix hs)
  have hten := steady_digitsOf (b := b) hs 10 true
  cases cs with
  | nil => simpa [h0] using hten []
  | cons c rest =>
    by_cases hc : c = '0'
    · subst hc
      cases rest with
      | nil => simpa [hx, ho, hb] using hten ['0']
      | cons d rest =>
        by_cases h : d = 'x'
        · subst h
          simp only [List.cons_append]
          rw [steady_digitsOf hs, map_also_followed]
        by_cases h' : d = 'o'
        · subst h'
          simp only [List.cons_append]
          rw [steady_digitsOf hs, map_also_followed]
        by_cases h'' : d = 'b'
        · subst h''
          simp only [List.cons_append]
          rw [steady_digitsOf hs, map_also_followed]
        simpa [h, h', h''] using hten ('0' :: d :: rest)
    · simpa [hc] using hten (c :: rest)

/-! ### Texts between quotes -/

omit hs in
theorem codePoint?_followed {digits value n : Nat} {cs : Chars} {t : Taken}
    (h : codePoint? digits value cs = some (n, t)) :
    codePoint? digits value (cs ++ s :: b) = some (n, followed (s :: b) t) := by
  induction cs generalizing digits value t with
  | nil => cases h
  | cons c rest ih =>
    have hmore {digits value : Nat} (h : ((codePoint? digits value rest).map fun x =>
        (x.1, also [c] x.2)) = some (n, t)) :
        ((codePoint? digits value (rest ++ s :: b)).map fun x => (x.1, also [c] x.2)) =
          some (n, followed (s :: b) t) := by
      obtain ⟨x, hx, he⟩ := Option.map_eq_some_iff.mp h
      cases he
      rw [ih hx]
      rfl
    unfold codePoint? at h
    rw [List.cons_append]
    unfold codePoint?
    dsimp only at h ⊢
    split at h
    next hc =>
      rw [if_pos hc]
      exact hmore h
    next hc =>
      rw [if_neg hc]
      split at h
      next hc =>
        rw [if_pos hc]
        split at h
        next hv =>
          rw [if_pos hv]
          cases h
          rfl
        next => cases h
      next hc =>
        rw [if_neg hc]
        split at h
        · split at h
          · cases h
          next hd =>
            rw [if_neg hd]
            exact hmore h
        · cases h

omit hs in
theorem firm_escape? (rules : QuoteRules) : Firm (s :: b) (escape? rules) := by
  intro cs t h
  cases cs with
  | nil => cases h
  | cons c rest =>
    rw [List.cons_append]
    unfold escape? at h ⊢
    dsimp only at h ⊢
    split at h
    next hc =>
      rw [if_pos hc]
      cases h
      rfl
    next hc =>
    rw [if_neg hc]
    split at h
    next hc =>
      rw [if_pos hc]
      split at h
      next hn =>
        rw [if_pos hn]
        cases h
        rfl
      next => cases h
    next hc =>
    rw [if_neg hc]
    split at h
    next hc =>
      rw [if_pos hc]
      split at h
      next h' l left =>
        obtain ⟨m, hm, h⟩ := Option.bind_eq_some_iff.mp h
        obtain ⟨n, hn, h⟩ := Option.bind_eq_some_iff.mp h
        dsimp only [List.cons_append]
        rw [hm, hn]
        dsimp only [Option.bind_eq_bind, Option.bind_some]
        split at h
        next hv =>
          rw [if_pos hv]
          cases h
          rfl
        next => cases h
      next => cases h
    next hc =>
    rw [if_neg hc]
    split at h
    next hc =>
      rw [if_pos hc]
      cases rest with
      | nil => cases h
      | cons d rest =>
        obtain ⟨left, hl, h⟩ := Option.bind_eq_some_iff.mp h
        obtain ⟨⟨value, t'⟩, hv, h⟩ := Option.bind_eq_some_iff.mp h
        have hl' : after? ['\x7b'] (d :: rest ++ s :: b) = some (left ++ s :: b) := by
          have ha := after?_append hl
          rw [← ha]
          simp [after?]
        rw [hl']
        dsimp only [Option.bind_eq_bind, Option.bind_some]
        rw [codePoint?_followed hv]
        dsimp only [Option.bind_eq_bind, Option.bind_some] at h ⊢
        split at h
        next hn =>
          rw [if_pos hn]
          cases h
          rfl
        next => cases h
    next => cases h

omit hs in
theorem firm_continueLine : Firm (s :: b) continueLine := by
  intro cs t h
  fun_induction continueLine cs generalizing t with
  | case1 rest ih =>
    change (continueLine (rest ++ s :: b)).map (also ['\r', '\n']) = _
    exact firm_map_also (fun hx => ih hx) h
  | case2 => cases h
  | case3 => cases h
  | case4 c rest _ hr hc ih =>
    rw [List.cons_append, continueLine, if_pos hc]
    · exact firm_map_also (fun hx => ih hx) h
    · exact fun _ he _ => hr he
    · exact hr
  | case5 c rest _ hr hc =>
    cases h
    rw [List.cons_append, continueLine, if_neg hc]
    · rfl
    · exact fun _ he _ => hr he
    · exact hr

theorem quoted_followed {rules : QuoteRules} {fuel cs : Chars} {t : Taken} (more : Chars)
    (h : quoted rules fuel cs = some t) :
    quoted rules (fuel ++ more) (cs ++ s :: b) = some (followed (s :: b) t) := by
  induction fuel generalizing cs t with
  | nil => cases h
  | cons f fuel ih =>
    cases cs with
    | nil => cases h
    | cons c rest =>
      -- one character and what belongs to it, then the rest of the literal
      have goesOn {first first' : Option Taken}
          (hf : ∀ {x}, first = some x → first' = some (followed (s :: b) x))
          (h : (andThen first (quoted rules fuel)).map (also [c]) = some t) :
          (andThen first' (quoted rules (fuel ++ more))).map (also [c]) =
            some (followed (s :: b) t) :=
        firm_map_also (firm_andThen hf ih) h
      rw [List.cons_append, List.cons_append]
      unfold quoted at h ⊢
      dsimp only at h ⊢
      split at h
      next hc =>
        rw [if_pos hc, suffix_followed hs]
        cases h
        rfl
      next hc =>
      rw [if_neg hc]
      split at h
      next hc =>
        rw [if_pos hc]
        refine goesOn (fun {x} hx => ?_) h
        obtain ⟨text, left⟩ := x
        obtain ⟨rfl, rfl⟩ := fixed_eq_some hx
        rfl
      next hc =>
      rw [if_neg hc]
      split at h
      next hc =>
        rw [if_pos hc]
        split at h
        next ds =>
          have hline {x} (hx : continueLine ('\n' :: ds) = some x) :
              continueLine ('\n' :: (ds ++ s :: b)) = some (followed (s :: b) x) :=
            firm_continueLine hx
          exact goesOn hline h
        next ds =>
          have hline {x} (hx : continueLine ('\r' :: ds) = some x) :
              continueLine ('\r' :: (ds ++ s :: b)) = some (followed (s :: b) x) :=
            firm_continueLine hx
          exact goesOn hline h
        next hn hr =>
          cases rest with
          | nil =>
            obtain ⟨x, hx, -⟩ := Option.map_eq_some_iff.mp h
            cases hx
          | cons d ds =>
            rw [List.cons_append]
            split
            next he => exact (hn ds (by rw [(List.cons.inj he).1])).elim
            next he => exact (hr ds (by rw [(List.cons.inj he).1])).elim
            next => exact goesOn (fun hx => firm_escape? rules hx) h
      next hc =>
      rw [if_neg hc]
      split at h
      · cases h
      next hv =>
        rw [if_neg hv]
        exact goesOn (fun hx => by cases hx; rfl) h

omit hs in
theorem isPrefixOf_followed {start : Chars} (hs : s ∉ start) (cs : Chars) :
    start.isPrefixOf (cs ++ s :: b) = start.isPrefixOf cs := by
  induction start generalizing cs with
  | nil => simp
  | cons c start ih =>
    obtain ⟨hc, hstart⟩ := List.ne_and_not_mem_of_not_mem_cons hs
    cases cs with
    | nil => simp [List.isPrefixOf_cons_cons, Ne.symm hc]
    | cons d cs =>
      rw [List.cons_append, List.isPrefixOf_cons_cons, List.isPrefixOf_cons_cons, ih hstart]

theorem firm_rawQuoted {rules : QuoteRules} {hashes : Chars} (hh : s ∉ hashes) :
    Firm (s :: b) (rawQuoted rules hashes) := by
  intro cs t h
  fun_induction rawQuoted rules hashes cs generalizing t with
  | case1 => cases h
  | case2 rest ih =>
    change (rawQuoted rules hashes (rest ++ s :: b)).map (also ['\r', '\n']) = _
    exact firm_map_also (fun hx => ih hx) h
  | case3 c rest hr hc =>
    rw [List.cons_append, rawQuoted, isPrefixOf_followed hh, if_pos hc]
    · rw [List.drop_append_of_le_length, suffix_followed hs]
      · cases h
        rfl
      · exact (List.isPrefixOf_iff_prefix.mp (Bool.and_eq_true_iff.mp hc).2).length_le
    · rintro left rfl
      simp at hc
  | case4 => cases h
  | case5 c rest hr hc hv ih =>
    rw [List.cons_append, rawQuoted, isPrefixOf_followed hh, if_neg hc, if_neg hv]
    · exact firm_map_also (fun hx => ih hx) h
    · rintro left rfl
      simp at hv

theorem firm_raw (rules : QuoteRules) : Firm (s :: b) (raw rules) := by
  intro cs t h
  have hhash : (s == '#') = false := beq_eq_false_iff_ne.mpr (hs.ne_of_isMark (by decide))
  unfold raw at h ⊢
  rw [span_followed (p := (· == '#')) hhash]
  dsimp only [followed] at h ⊢
  split at h
  · cases h
  next hl =>
    rw [if_neg hl]
    have hh : s ∉ (cs.span (· == '#')).1 := by
      rw [List.span_eq_takeWhile_dropWhile]
      intro hm
      have := List.all_eq_true.mp List.all_takeWhile s hm
      rw [hhash] at this
      cases this
    refine firm_map_also (firm_andThen (fun hx => ?_) (firm_rawQuoted hs hh)) h
    exact (steady_fixed (hs.notMem (by decide))).firm hx

theorem firm_quotedOrRaw (rules : QuoteRules) {mark : Chars} (hm : s ∉ mark) :
    Firm (s :: b) (quotedOrRaw rules mark) := by
  intro cs t h
  unfold quotedOrRaw at h ⊢
  refine firm_andThen (fun hx => (steady_fixed hm).firm hx) (fun {cs x} hx => ?_) h
  split at hx
  next body => exact firm_map_also (fun hx => quoted_followed hs _ hx) hx
  next body => exact firm_map_also (fun hx => firm_raw hs rules hx) hx
  next => cases hx

theorem firm_single (rules : QuoteRules) : Firm (s :: b) (single rules) := by
  intro cs t h
  cases cs with
  | nil => cases h
  | cons c rest =>
    rw [List.cons_append]
    unfold single at h ⊢
    dsimp only at h ⊢
    have hq : Firm (s :: b) (fixed ['\'']) := (steady_fixed (hs.notMem (by decide))).firm
    refine firm_andThen (firm_andThen (fun {x} hx => ?_) hq) (fun {cs x} hx => ?_) h
    · split at hx
      next hc =>
        rw [if_pos hc]
        exact firm_map_also (fun hx => firm_escape? rules hx) hx
      next hc =>
        rw [if_neg hc]
        split at hx
        · cases hx
        next hv =>
          rw [if_neg hv]
          cases hx
          rfl
    · cases hx
      exact congrArg some (suffix_followed hs cs)

/-! ### Tokens -/

theorem startsWith_followed {start : String} (cs : Chars)
    (h : start.toList.all isSign = true) :
    startsWith start (cs ++ s :: b) = startsWith start cs :=
  isPrefixOf_followed (hs.notMem h) cs

theorem literalStart_followed (cs : Chars) : literalStart (cs ++ s :: b) = literalStart cs := by
  have hall : ∀ w ∈ ["r\"", "r#\"", "r##", "b\"", "b'", "br\"", "br#", "c\"", "cr\"", "cr#"],
      w.toList.all isSign = true := by decide
  have hw : ∀ w ∈ ["r\"", "r#\"", "r##", "b\"", "b'", "br\"", "br#", "c\"", "cr\"", "cr#"],
      startsWith w (cs ++ s :: b) = startsWith w cs := fun w hw =>
    startsWith_followed hs cs (hall w hw)
  unfold literalStart
  rw [Bool.eq_iff_iff, List.any_eq_true, List.any_eq_true]
  exact exists_congr fun w => and_congr_right fun h => by rw [hw w h]

omit hs in
theorem literal?_of_head {c : Char} (hc : c ∉ ['"', 'r', 'b', 'c', '\'']) (rest : Chars) :
    literal? (c :: rest) = (float (c :: rest) <|> int (c :: rest)) := by
  simp only [List.mem_cons, List.not_mem_nil, or_false, not_or] at hc
  obtain ⟨hq, hr, hb, hc, hs⟩ := hc
  simp [literal?, quotedOrRaw, andThen, fixed, after?, hq, hr, Ne.symm hb, Ne.symm hc, Ne.symm hs]

omit hs in
/-- Before what is no literal the marks of literals stand for names. -/
theorem rawAhead_of_raw {rules : QuoteRules} {cs : Chars} {t : Taken}
    (h : raw rules cs = some t) : rawAhead cs = true := by
  unfold raw at h
  rw [List.span_eq_takeWhile_dropWhile] at h
  dsimp only at h
  split at h
  · cases h
  · obtain ⟨x, hx, -⟩ := Option.map_eq_some_iff.mp h
    obtain ⟨x', hx', -⟩ := Option.bind_eq_some_iff.mp hx
    have hd := eq_append_of_fixed hx'
    rw [rawAhead, hd]
    rfl

omit hs in
theorem le_of_hexValue? {c : Char} {n : Nat} (h : hexValue? c = some n) (hc : c.isDigit = false) :
    10 ≤ n := by
  have hd : ¬('0' ≤ c && c ≤ '9') = true := fun hd => by
    have hdigit : c.isDigit = true := by simpa [Char.isDigit, Char.le_def] using hd
    rw [hc] at hdigit
    cases hdigit
  unfold hexValue? at h
  rw [if_neg hd] at h
  split at h
  · cases h
    exact Nat.le_add_left _ _
  split at h
  · cases h
    exact Nat.le_add_left _ _
  · cases h

omit hs in
/-- Numbers start with digits. -/
theorem number_eq_none {c : Char} (hc : c.isDigit = false) (rest : Chars) :
    float (c :: rest) = none ∧ int (c :: rest) = none := by
  have hf : float (c :: rest) = none := by
    unfold float
    rw [List.head?_cons, Option.any_some, hc]
    rfl
  refine ⟨hf, ?_⟩
  have h0 : c ≠ '0' := by
    rintro rfl
    cases hc
  have hd : digitsOf 10 true (c :: rest) = none := by
    rw [digitsOf]
    split
    · rfl
    · split
      next d hv =>
        rw [if_neg (Nat.not_lt.mpr (le_of_hexValue? hv hc)), hc]
        rfl
      next => rfl
  simp [int, h0, hd, andThen]

omit hs in
theorem quotedOrRaw_plain {rules : QuoteRules} {c : Char} (hc : c ≠ '"' ∧ c ≠ 'r')
    (rest : Chars) : quotedOrRaw rules [] (c :: rest) = none := by
  simp [quotedOrRaw, fixed, after?, andThen, hc]

omit hs in
theorem quotedOrRaw_marked {rules : QuoteRules} {c m : Char} (hc : m ≠ c) (mark rest : Chars) :
    quotedOrRaw rules (m :: mark) (c :: rest) = none := by
  simp [quotedOrRaw, fixed, after?, andThen, hc]

omit hs in
theorem fixed_of_ne {c m : Char} (hc : m ≠ c) (mark rest : Chars) :
    fixed (m :: mark) (c :: rest) = none := by
  simp [fixed, after?, hc]

omit hs in
theorem literal?_quote {c : Char} (hc : c ∈ ['"', 'r']) (rest : Chars) :
    literal? (c :: rest) = quotedOrRaw .ofText [] (c :: rest) := by
  have hd : c.isDigit = false ∧ 'b' ≠ c ∧ 'c' ≠ c ∧ '\'' ≠ c := by
    rw [List.mem_pair] at hc
    rcases hc with rfl | rfl <;> decide
  obtain ⟨hd, hb, hc, hs⟩ := hd
  obtain ⟨hf, hi⟩ := number_eq_none hd rest
  rw [literal?, quotedOrRaw_marked hb, quotedOrRaw_marked hc, fixed_of_ne hb, fixed_of_ne hs, hf,
    hi]
  simp [andThen]

omit hs in
theorem literal?_octets (rest : Chars) : literal? ('b' :: rest) =
    (quotedOrRaw .ofOctets ['b'] ('b' :: rest) <|>
      andThen (fixed ['b', '\''] ('b' :: rest)) (single .ofOctets)) := by
  obtain ⟨hf, hi⟩ := number_eq_none (c := 'b') rfl rest
  rw [literal?, quotedOrRaw_plain (by decide), quotedOrRaw_marked (m := 'c') (by decide),
    fixed_of_ne (m := '\'') (by decide), hf, hi]
  simp [andThen]

omit hs in
theorem literal?_terminated (rest : Chars) :
    literal? ('c' :: rest) = quotedOrRaw .ofTerminated ['c'] ('c' :: rest) := by
  obtain ⟨hf, hi⟩ := number_eq_none (c := 'c') rfl rest
  rw [literal?, quotedOrRaw_plain (by decide), quotedOrRaw_marked (m := 'b') (by decide),
    fixed_of_ne (m := 'b') (by decide), fixed_of_ne (m := '\'') (by decide), hf, hi]
  simp [andThen]

omit hs in
theorem literal?_single (rest : Chars) :
    literal? ('\'' :: rest) = andThen (fixed ['\''] ('\'' :: rest)) (single .ofText) := by
  obtain ⟨hf, hi⟩ := number_eq_none (c := '\'') rfl rest
  rw [literal?, quotedOrRaw_plain (by decide), quotedOrRaw_marked (m := 'b') (by decide),
    quotedOrRaw_marked (m := 'c') (by decide), fixed_of_ne (m := 'b') (by decide), hf, hi]
  simp [andThen]

theorem firm_literal? : Firm (s :: b) literal? := by
  intro cs t h
  cases cs with
  | nil => cases h
  | cons c rest =>
    rw [List.cons_append]
    by_cases hq : c ∈ ['"', 'r']
    · rw [literal?_quote hq] at h ⊢
      exact firm_quotedOrRaw hs .ofText List.not_mem_nil h
    by_cases hb : c = 'b'
    · subst hb
      rw [literal?_octets] at h ⊢
      rcases eq_some_of_orElse h with h | h
      · rw [← List.cons_append, firm_quotedOrRaw hs .ofOctets (hs.notMem (by decide)) h]
        rfl
      · -- The quote is a single one, so no text starts there.
        obtain ⟨x, hx, hr⟩ := Option.bind_eq_some_iff.mp h
        have hx := eq_append_of_fixed hx
        cases hx
        exact firm_andThen (steady_fixed (hs.notMem (by decide))).firm (firm_single hs .ofOctets) h
    by_cases hc : c = 'c'
    · subst hc
      rw [literal?_terminated] at h ⊢
      exact firm_quotedOrRaw hs .ofTerminated (hs.notMem (by decide)) h
    by_cases hs' : c = '\''
    · subst hs'
      rw [literal?_single] at h ⊢
      exact firm_andThen (steady_fixed (hs.notMem (by decide))).firm (firm_single hs .ofText) h
    have hhead : c ∉ ['"', 'r', 'b', 'c', '\''] := by
      simp only [List.mem_cons, List.not_mem_nil, or_false, not_or] at hq ⊢
      exact ⟨hq.1, hq.2, hb, hc, hs'⟩
    rw [literal?_of_head hhead] at h ⊢
    exact ((steady_float hs).orElse (steady_int hs)).firm h

omit hs in
/-- A text behind its mark starts with a quote, or with the mark of raw texts. -/
theorem eq_of_quotedOrRaw {rules : QuoteRules} {mark cs : Chars} {t : Taken}
    (h : quotedOrRaw rules mark cs = some t) :
    ∃ body, cs = mark ++ '"' :: body ∨ cs = mark ++ 'r' :: body ∧ rawAhead body = true := by
  obtain ⟨text, left⟩ := t
  obtain ⟨a, rest, r, ha, hr, rfl⟩ := andThen_eq_some h
  obtain ⟨rfl, rfl⟩ := fixed_eq_some ha
  split at hr
  next body => exact ⟨body, .inl rfl⟩
  next body =>
    obtain ⟨x, hx, -⟩ := map_also_eq_some hr
    exact ⟨body, .inr ⟨rfl, rawAhead_of_raw hx⟩⟩
  next => cases hr

omit hs in
theorem eq_of_rawAhead {cs : Chars} (h : rawAhead cs = true) :
    ∃ rest, cs = '"' :: rest ∨ cs = '#' :: rest := by
  cases cs with
  | nil => cases h
  | cons c rest =>
    by_cases hc : c = '#'
    · exact ⟨rest, .inr (by rw [hc])⟩
    · rw [rawAhead, List.dropWhile_cons_of_neg (by simpa using hc)] at h
      exact ⟨rest, .inl (by rw [show c = '"' by simpa using h])⟩

omit hs in
theorem not_start_of_isDigit {c : Char} (h : c.isDigit = true) : isIdentifierStart c = false := by
  simp only [Char.isDigit, Bool.and_eq_true, decide_eq_true_eq, UInt32.le_iff_toNat_le] at h
  have h0 : '0'.val.toNat = 48 := rfl
  have h9 : '9'.val.toNat = 57 := rfl
  have hc : c.toNat = c.val.toNat := rfl
  have hlt : c.toNat < 128 := by omega
  refine Bool.eq_false_iff.mpr fun hs => ?_
  rw [isIdentifierStart, if_pos hlt] at hs
  delta Char.isAlpha Char.isUpper Char.isLower at hs
  simp only [Bool.or_eq_true, Bool.and_eq_true,
    decide_eq_true_eq, UInt32.le_iff_toNat_le, beq_iff_eq] at hs
  have hA : 'A'.val.toNat = 65 := rfl
  have ha : 'a'.val.toNat = 97 := rfl
  rcases hs with (hs | hs) | rfl
  · omega
  · omega
  · exact absurd h.2 (by decide)

omit hs in
/-- A text behind a mark is told by its first characters. -/
theorem literalStart_of_quotedOrRaw {rules : QuoteRules} {m : Char} {cs : Chars} {t : Taken}
    (hm : m ∈ ['b', 'c']) (h : quotedOrRaw rules [m] cs = some t) : literalStart cs = true := by
  obtain ⟨body, rfl | ⟨rfl, hr⟩⟩ := eq_of_quotedOrRaw h
  · simp only [List.mem_cons, List.not_mem_nil, or_false] at hm
    rcases hm with rfl | rfl <;> rfl
  · simp only [List.mem_cons, List.not_mem_nil, or_false] at hm
    obtain ⟨rest, rfl | rfl⟩ := eq_of_rawAhead hr <;> rcases hm with rfl | rfl <;> rfl

omit hs in
/-- A name starts no literal. -/
theorem literal?_eq_none_of_name {c : Char} {rest : Chars} (hc : isIdentifierStart c = true)
    (h : literalStart (c :: rest) = false) : literal? (c :: rest) = none := by
  have hne {d : Char} (hd : isIdentifierStart d = false) : c ≠ d := by
    rintro rfl
    rw [hd] at hc
    cases hc
  cases hl : literal? (c :: rest) with
  | none => rfl
  | some t =>
    have hstart : literalStart (c :: rest) = true := by
      by_cases hq : c ∈ ['"', 'r']
      · rw [literal?_quote hq] at hl
        obtain ⟨body, hb | ⟨hb, hr⟩⟩ := eq_of_quotedOrRaw hl
        · exact absurd (List.cons.inj hb).1 (hne (by decide))
        · rw [List.nil_append] at hb
          rw [hb] at h
          rw [rawAhead_of_literalStart h] at hr
          cases hr
      by_cases hb : c = 'b'
      · subst hb
        rw [literal?_octets] at hl
        rcases eq_some_of_orElse hl with hl | hl
        · exact literalStart_of_quotedOrRaw (by decide) hl
        · obtain ⟨x, hx, -⟩ := Option.bind_eq_some_iff.mp hl
          have hx := eq_append_of_fixed hx
          rw [hx]
          rfl
      by_cases hc' : c = 'c'
      · subst hc'
        rw [literal?_terminated] at hl
        exact literalStart_of_quotedOrRaw (by decide) hl
      have hhead : c ∉ ['"', 'r', 'b', 'c', '\''] := by
        simp only [List.mem_cons, List.not_mem_nil, or_false, not_or] at hq ⊢
        exact ⟨hq.1, hq.2, hb, hc', hne (by decide)⟩
      have hd : c.isDigit = false := Bool.eq_false_iff.mpr fun hd => by
        rw [not_start_of_isDigit hd] at hc
        cases hc
      obtain ⟨hf, hi⟩ := number_eq_none hd rest
      rw [literal?_of_head hhead, hf, hi] at hl
      cases hl
    rw [hstart] at h
    cases h

theorem steady_lifetime? : Steady (s :: b) lifetime? := by
  intro cs
  have hq : (some s == some '\'') = false := by
    simpa using hs.ne_of_isMark (by decide)
  have hh : (some s == some '#') = false := by
    simpa using hs.ne_of_isMark (by decide)
  unfold lifetime?
  rw [steady_identifier? hs cs]
  cases identifier? cs with
  | none => rfl
  | some x =>
    dsimp only [Option.map_some, Option.bind_eq_bind, Option.bind_some, followed]
    rw [literalStart_followed hs, startsWith_followed hs cs (by decide)]
    have hhead : ((x.2 ++ s :: b).head? == some '\'' ||
        (x.2 ++ s :: b).head? == some '#' && !startsWith "r#" cs) =
        (x.2.head? == some '\'' || x.2.head? == some '#' && !startsWith "r#" cs) := by
      cases x.2 with
      | nil => simp only [List.nil_append, List.head?_cons, hq, hh]; rfl
      | cons => rfl
    rw [hhead]
    split
    · rfl
    · split <;> rfl

omit hs in
/-- A single quote that starts a lifetime starts no literal. -/
theorem literal?_eq_none_of_lifetime? {cs : Chars} {x : Token × Chars}
    (h : lifetime? cs = some x) : literal? ('\'' :: cs) = none := by
  obtain ⟨⟨i, l⟩, hi, h⟩ := Option.bind_eq_some_iff.mp h
  obtain ⟨front, name, rfl, hn, rfl⟩ := identifier?_isName hi
  dsimp only at h
  split at h
  · cases h
  next hclosed =>
    have hl : l.head? ≠ some '\'' := fun he => hclosed (by simp [he])
    have hsecond := hn.second hl
    obtain ⟨c, hc, hstart⟩ := hn.head l
    obtain ⟨rest, hrest⟩ : ∃ rest, front ++ name ++ l = c :: rest := by
      cases hcs : front ++ name ++ l with
      | nil =>
        rw [hcs] at hc
        cases hc
      | cons d rest =>
        rw [hcs] at hc
        exact ⟨rest, by rw [Option.some.inj hc]⟩
    rw [hrest] at hsecond ⊢
    have hback : c ≠ '\\' := by
      rintro rfl
      exact absurd hstart (by decide)
    have hfixed : fixed ['\''] rest = none := by
      cases rest with
      | nil => rfl
      | cons d rest => exact fixed_of_ne (fun hd => hsecond (by rw [← hd]; rfl)) [] rest
    have hascii : (QuoteRules.ofText.ascii && 128 ≤ c.toNat) = false := rfl
    have hsingle : single .ofText (c :: rest) = none := by
      unfold single
      dsimp only
      rw [if_neg (by simpa using hback), if_neg (by simp [hascii])]
      change andThen ((fixed ['\''] rest).map (also [c])) _ = none
      rw [hfixed]
      rfl
    rw [literal?_single]
    change (single .ofText (c :: rest)).map _ = none
    rw [hsingle]
    rfl

omit hs in
/-- No other punctuation starts a literal. -/
theorem literal?_eq_none_of_isMark {c : Char} (hc : isMark c = true) (hq : c ≠ '\'')
    (rest : Chars) : literal? (c :: rest) = none := by
  obtain ⟨hn, hi⟩ := isMark_eq hc
  have hne {d : Char} (hd : isIdentifierContinue d = true) : c ≠ d := by
    rintro rfl
    rw [hi] at hd
    cases hd
  have hdigit : c.isDigit = false := Bool.eq_false_iff.mpr fun hd => by
    rw [isIdentifierContinue_of_isAlphanum (by rw [Char.isAlphanum, hd, Bool.or_true])] at hi
    cases hi
  obtain ⟨hf, hint⟩ := number_eq_none hdigit rest
  have hhead : c ∉ ['"', 'r', 'b', 'c', '\''] := by
    simp only [List.mem_cons, List.not_mem_nil, or_false, not_or] at hn ⊢
    exact ⟨hn.1, hn.2, hne (by decide), hne (by decide), hq⟩
  rw [literal?_of_head hhead, hf, hint]
  rfl

theorem markAhead_followed (cs : Chars) : markAhead (cs ++ s :: b) = markAhead cs := by
  have hslash : s ≠ '/' := hs.ne_of_isMark (by decide)
  have hstar : s ≠ '*' := hs.ne_of_isMark (by decide)
  cases cs with
  | nil => simp [markAhead, hslash, hs.mark]
  | cons c rest =>
    by_cases hc : c = '/'
    · subst hc
      cases rest with
      | nil => simp [markAhead, hslash, hstar]
      | cons d rest =>
        by_cases hd : d = '/'
        · subst hd
          rfl
        by_cases hd' : d = '*'
        · subst hd'
          rfl
        simp [markAhead, hd, hd']
    · simp [markAhead, hc]

omit hs in
theorem isMark_of_markAhead {c : Char} {rest : Chars} (h : markAhead (c :: rest) = true) :
    isMark c = true := by
  unfold markAhead at h
  split at h
  · cases h
  · cases h
  next he =>
    cases he
    exact h
  next => cases h

omit hs in
theorem punct?_of_ne {c : Char} (hc : c ≠ '\'') (rest : Chars) : punct? (c :: rest) =
    if markAhead (c :: rest) then some (.punct c (markAhead rest), rest) else none := by
  simp [punct?]

omit hs in
/-- What starts as a name does is no punctuation. -/
theorem punct?_of_start {c : Char} (hc : isIdentifierStart c = true) (rest : Chars) :
    punct? (c :: rest) = none := by
  have hword := isIdentifierContinue_of_start hc
  have hq : c ≠ '\'' := by
    rintro rfl
    exact absurd hc (by decide)
  have hmark : ¬markAhead (c :: rest) = true := fun h => by
    rw [(isMark_eq (isMark_of_markAhead h)).2] at hword
    cases hword
  rw [punct?_of_ne hq, if_neg hmark]

omit hs in
theorem start_of_identifier? {c : Char} {rest : Chars} {x : Taken}
    (h : identifier? (c :: rest) = some x) : isIdentifierStart c = true := by
  obtain ⟨i, left⟩ := x
  obtain ⟨front, name, rfl, hn, ha⟩ := identifier?_isName h
  obtain ⟨d, hd, hs⟩ := hn.head left
  rw [ha] at hd
  rwa [Option.some.inj hd]

/-- Where a character follows that parts, the first token is the same. -/
theorem firm_leaf? : Firm (s :: b) leaf? := by
  intro cs t h
  cases cs with
  | nil => cases h
  | cons c rest =>
    rw [List.cons_append]
    unfold leaf? at h ⊢
    cases hl : literal? (c :: rest) with
    | some x =>
      rw [hl] at h
      rw [← List.cons_append, firm_literal? hs hl]
      cases h
      rfl
    | none =>
      rw [hl] at h
      dsimp only at h
      have hname (h : (if literalStart (c :: rest) then none
          else (identifier? (c :: rest)).map fun x => (Token.ident (String.ofList x.1), x.2)) =
            some t) : isIdentifierStart c = true ∧ literalStart (c :: rest) = false ∧
          ∃ x, identifier? (c :: rest) = some x ∧ (.ident (String.ofList x.1), x.2) = t := by
        split at h
        · cases h
        next hstart =>
          obtain ⟨x, hx, ht⟩ := Option.map_eq_some_iff.mp h
          exact ⟨start_of_identifier? hx, by simpa using hstart, x, hx, ht⟩
      by_cases hq : c = '\''
      · subst hq
        have hpunct (cs : Chars) : punct? ('\'' :: cs) = lifetime? cs := rfl
        rw [hpunct] at h ⊢
        cases ht : lifetime? rest with
        | some x =>
          rw [ht] at h
          cases h
          have hlife : lifetime? (rest ++ s :: b) = some (followed (s :: b) t) := by
            rw [steady_lifetime? hs, ht]
            rfl
          rw [literal?_eq_none_of_lifetime? hlife, hlife]
        | none =>
          rw [ht] at h
          exact absurd (hname h).1 (by decide)
      rw [punct?_of_ne hq] at h ⊢
      by_cases hm : markAhead (c :: rest) = true
      · rw [if_pos hm] at h
        cases h
        rw [literal?_eq_none_of_isMark (isMark_of_markAhead hm) hq, ← List.cons_append,
          markAhead_followed hs, if_pos hm, markAhead_followed hs]
        rfl
      · rw [if_neg hm] at h
        obtain ⟨hc, hstart, x, hx, rfl⟩ := hname h
        have hstart' : literalStart (c :: (rest ++ s :: b)) = false := by
          rw [← List.cons_append, literalStart_followed hs, hstart]
        rw [literal?_eq_none_of_name hc hstart', ← List.cons_append, markAhead_followed hs,
          if_neg hm, literalStart_followed hs, hstart, steady_identifier? hs, hx]
        rfl

end

end RecordStore.Lexer
