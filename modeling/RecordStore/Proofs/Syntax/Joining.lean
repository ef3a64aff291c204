import RecordStore.Proofs.Syntax.Separation

/-!
Texts of several parts. The tokens of a text are found step by step, and each step leaves the end of
the text and the groups that are open there. Where a part ends with its line, the tokens of the
whole are those of the part and those of what follows it.
-/
namespace RecordStore.Lexer

variable {cs left : Chars} {stack stack' : List Delimiter} {ts : List Token}

/-! ### Steps of the lexer -/

/-- The groups that are open behind a token. -/
def advance : List Delimiter → Token → Option (List Delimiter)
  | stack, .opening d => some (d :: stack)
  | e :: stack, .closing d => if d = e then some stack else none
  | [], .closing _ => none
  | stack, _ => some stack

/-- The tokens of what is left of a text where some groups are open. -/
def lex (stack : List Delimiter) (cs : Chars) : Option (List Token) :=
  tokensFrom (cs.length + 1) stack cs

theorem advance_of_leaf? {t : Token} (h : leaf? cs = some (t, left)) :
    advance stack t = some stack := by
  have hpunct (h : punct? cs = some (t, left)) : advance stack t = some stack := by
    unfold punct? at h
    split at h
    · cases h
    · obtain ⟨x, -, h⟩ := Option.bind_eq_some_iff.mp h
      dsimp only at h
      split at h
      · cases h
      · split at h <;> cases h <;> cases stack <;> rfl
    · split at h <;> cases h
      cases stack <;> rfl
  unfold leaf? at h
  split at h
  · cases h
    cases stack <;> rfl
  split at h
  next hp =>
    cases h
    exact hpunct hp
  split at h
  · cases h
  · obtain ⟨i, -, h⟩ := Option.map_eq_some_iff.mp h
    cases h
    cases stack <;> rfl

theorem tokensFrom_documentation {fuel : Nat} {d : DocComment}
    (h : comment? cs = some (.documentation d left)) : tokensFrom (fuel + 1) stack cs =
      if returnsPaired d.text then (tokensFrom fuel stack left).map (d.tokens ++ ·) else none := by
  have hs : skip cs = cs := by
    cases cs with
    | nil => cases h
    | cons => rw [skip, skipBlank, h]
  rw [tokensFrom, hs]
  dsimp only
  rw [h]

theorem tokensFrom_unclosed {fuel : Nat} (h : comment? cs = some .unclosed) :
    tokensFrom fuel stack cs = none := by
  have hs : skip cs = cs := by
    cases cs with
    | nil => cases h
    | cons => rw [skip, skipBlank, h]
  cases fuel with
  | zero => rfl
  | succ fuel =>
    rw [tokensFrom, hs]
    dsimp only
    rw [h]

theorem tokensFrom_eq_token {fuel : Nat} {c : Char} {rest : Chars}
    (h : comment? (c :: rest) = none) (hc : isSpace c = false) :
    tokensFrom (fuel + 1) stack (c :: rest) =
      (token? (c :: rest)).bind fun x => (advance stack x.1).bind fun s =>
        (tokensFrom fuel s x.2).map (x.1 :: ·) := by
  have hs : skip (c :: rest) = c :: rest := by
    rw [skip, skipBlank, h]
    simp [hc]
  rw [tokensFrom, hs]
  dsimp only
  rw [h]
  unfold token?
  dsimp only
  cases hl : after? lostLiteral (c :: rest) with
  | some l => cases stack <;> rfl
  | none =>
    cases ho : opening? c with
    | some d => cases stack <;> rfl
    | none =>
      cases hd : closing? c with
      | some d =>
        cases stack with
        | nil => rfl
        | cons e stack =>
          dsimp only [advance, Option.bind_some]
          split <;> rfl
      | none =>
        cases hf : leaf? (c :: rest) with
        | none => rfl
        | some x =>
          dsimp only [Option.bind_some]
          rw [advance_of_leaf? hf, Option.bind_some]

theorem length_of_token? {x : Token × Chars} (h : token? cs = some x) :
    x.2.length < cs.length := by
  obtain ⟨text, hf, rfl⟩ := token?_hasForm (t := x.1) h
  have := List.length_pos_of_ne_nil hf.ne_nil
  rw [List.length_append]
  omega

theorem tokensFrom_eq {fuel fuel' : Nat} (h : cs.length < fuel) (h' : cs.length < fuel') :
    tokensFrom fuel stack cs = tokensFrom fuel' stack cs := by
  induction hn : cs.length using Nat.strongRecOn generalizing cs fuel fuel' stack with
  | ind n ih =>
    subst hn
    obtain ⟨fuel, rfl⟩ := Nat.exists_eq_add_one_of_ne_zero (Nat.ne_zero_of_lt h)
    obtain ⟨fuel', rfl⟩ := Nat.exists_eq_add_one_of_ne_zero (Nat.ne_zero_of_lt h')
    have step {left : Chars} (stack : List Delimiter) (hl : left.length < cs.length) :
        tokensFrom fuel stack left = tokensFrom fuel' stack left :=
      ih left.length hl (by omega) (by omega) rfl
    cases cs with
    | nil => rfl
    | cons c rest =>
      cases hc : comment? (c :: rest) with
      | some cm =>
        cases cm with
        | ordinary left =>
          have hl := length_of_comment? hc rfl
          rw [tokensFrom_congr (skip_of_ordinary hc), tokensFrom_congr (skip_of_ordinary hc)]
          exact ih left.length hl (by omega) (by omega) rfl
        | documentation d left =>
          rw [tokensFrom_documentation hc, tokensFrom_documentation hc,
            step stack (length_of_comment? hc rfl)]
        | unclosed => rw [tokensFrom_unclosed hc, tokensFrom_unclosed hc]
      | none =>
        cases hs : isSpace c with
        | true =>
          rw [tokensFrom_congr (skip_of_isSpace hc hs), tokensFrom_congr (skip_of_isSpace hc hs)]
          rw [List.length_cons] at h h'
          exact ih rest.length (Nat.lt_succ_self _) (by omega) (by omega) rfl
        | false =>
          rw [tokensFrom_eq_token hc hs, tokensFrom_eq_token hc hs]
          cases ht : token? (c :: rest) with
          | none => rfl
          | some x =>
            dsimp only [Option.bind_some]
            cases advance stack x.1 with
            | none => rfl
            | some s => dsimp only [Option.bind_some]; rw [step s (length_of_token? ht)]

/-- Any bound does that is greater than the length of the text. -/
theorem tokensFrom_eq_lex {fuel : Nat} (h : cs.length < fuel) :
    tokensFrom fuel stack cs = lex stack cs := tokensFrom_eq h (Nat.lt_succ_self _)

theorem lex_nil : lex stack [] = if stack.isEmpty then some [] else none := rfl

theorem lex_ordinary (h : comment? cs = some (.ordinary left)) : lex stack cs = lex stack left := by
  have hl := length_of_comment? h rfl
  rw [lex, tokensFrom_congr (skip_of_ordinary h), tokensFrom_eq_lex (by omega)]

theorem lex_documentation {d : DocComment} (h : comment? cs = some (.documentation d left)) :
    lex stack cs =
      if returnsPaired d.text then (lex stack left).map (d.tokens ++ ·) else none := by
  rw [lex, tokensFrom_documentation h, tokensFrom_eq_lex (length_of_comment? h rfl)]

theorem lex_unclosed (h : comment? cs = some .unclosed) : lex stack cs = none :=
  tokensFrom_unclosed h

theorem lex_space {c : Char} {rest : Chars} (h : comment? (c :: rest) = none)
    (hc : isSpace c = true) : lex stack (c :: rest) = lex stack rest := by
  rw [lex, tokensFrom_congr (skip_of_isSpace h hc), tokensFrom_eq_lex]
  rw [List.length_cons]
  omega

theorem lex_token {c : Char} {rest : Chars} (h : comment? (c :: rest) = none)
    (hc : isSpace c = false) : lex stack (c :: rest) =
      (token? (c :: rest)).bind fun x => (advance stack x.1).bind fun s =>
        (lex s x.2).map (x.1 :: ·) := by
  rw [lex, tokensFrom_eq_token h hc]
  cases ht : token? (c :: rest) with
  | none => rfl
  | some x =>
    dsimp only [Option.bind_some]
    cases advance stack x.1 with
    | none => rfl
    | some s =>
      dsimp only [Option.bind_some]
      rw [tokensFrom_eq_lex (length_of_token? ht)]

theorem tokens?_eq (source : String) :
    tokens? source = lex [] (withoutByteOrderMark source.toList) := rfl

/-! ### Ends of lines -/

section

variable {b : Chars}

theorem parts_newline : Parts '\n' := by decide

theorem notMem_restOfLine (cs : Chars) : '\n' ∉ (restOfLine cs).1 := by
  fun_induction restOfLine cs with
  | case1 => exact List.not_mem_nil
  | case2 => exact List.not_mem_nil
  | case3 => exact List.not_mem_nil
  | case4 c rest _ hc line left he ih =>
    rw [he] at ih
    simp only [List.mem_cons, not_or]
    exact ⟨fun h => hc (by simp [← h]), ih⟩

/-- In a single line every carriage return stands by itself. -/
theorem notMem_of_returnsPaired {line : Chars} (h : returnsPaired line = true)
    (hn : '\n' ∉ line) : '\r' ∉ line := by
  fun_induction returnsPaired line with
  | case1 => exact List.not_mem_nil
  | case2 rest ih => exact absurd (by simp) hn
  | case3 c rest _ ih =>
    obtain ⟨hc, hr⟩ := Bool.and_eq_true_iff.mp h
    simp only [List.mem_cons, not_or] at hn ⊢
    exact ⟨fun he => by simp [← he] at hc, ih hr hn.2⟩

theorem restOfLine_followed (h : '\r' ∉ (restOfLine cs).1) : restOfLine (cs ++ '\n' :: b) =
    ((restOfLine cs).1, (restOfLine cs).2 ++ '\n' :: b) := by
  fun_induction restOfLine cs with
  | case1 => rfl
  | case2 rest => rfl
  | case3 c rest _ hc =>
    obtain rfl := eq_of_beq hc
    rfl
  | case4 c rest hr hc line left he ih =>
    rw [he] at ih
    simp only [List.mem_cons, not_or] at h
    rw [List.cons_append, restOfLine, if_neg hc]
    · dsimp only at ih ⊢
      rw [ih h.2]
    · exact fun r hc' _ => h.1 hc'.symm

theorem left_restOfLine_followed (cs : Chars) :
    (restOfLine (cs ++ '\n' :: b)).2 = (restOfLine cs).2 ++ '\n' :: b := by
  have h := span_followed (p := (· != '\n')) (s := '\n') (b := b) rfl cs
  rw [List.span_eq_takeWhile_dropWhile, List.span_eq_takeWhile_dropWhile] at h
  rw [restOfLine_eq, restOfLine_eq]
  exact (Prod.mk.inj h).2

theorem blockComment_followed {depth : Nat} {body tail : Chars}
    (h : blockComment depth cs = some (body, left)) :
    blockComment depth (cs ++ tail) = some (body, left ++ tail) := by
  have more (front : Chars) {rest : Chars} {depth : Nat} {body : Chars}
      (ih : ∀ {body : Chars}, blockComment depth rest = some (body, left) →
        blockComment depth (rest ++ tail) = some (body, left ++ tail))
      (h : ((blockComment depth rest).map fun p => (front ++ p.1, p.2)) = some (body, left)) :
      ((blockComment depth (rest ++ tail)).map fun p => (front ++ p.1, p.2)) =
        some (body, left ++ tail) := by
    obtain ⟨x, hb, he⟩ := Option.map_eq_some_iff.mp h
    obtain ⟨b, l⟩ := x
    cases he
    rw [ih hb]
    rfl
  fun_induction blockComment depth cs generalizing body with
  | case1 depth rest ih => exact more ['/', '*'] ih h
  | case2 rest =>
    cases h
    rfl
  | case3 depth rest ih => exact more ['*', '/'] ih h
  | case4 depth c rest h₁ h₂ h₃ ih =>
    cases rest with
    | nil =>
      obtain ⟨x, hx, -⟩ := Option.map_eq_some_iff.mp h
      cases hx
    | cons d rest =>
      rw [List.cons_append, blockComment]
      · exact more [c] ih h
      · exact fun r hc he => h₁ rest hc (by rw [(List.cons.inj he).1])
      · exact fun r hd hc he => h₂ rest hd hc (by rw [(List.cons.inj he).1])
      · exact fun n r hd hc he => h₃ n rest hd hc (by rw [(List.cons.inj he).1])
  | case5 => cases h

theorem lineComment_inner (rest : Chars) : lineComment ('/' :: '/' :: '!' :: rest) =
    .documentation ⟨true, (restOfLine rest).1⟩ (restOfLine rest).2 := rfl

theorem lineComment_outer {rest : Chars} (h : rest.head? ≠ some '/') :
    lineComment ('/' :: '/' :: '/' :: rest) =
      .documentation ⟨false, (restOfLine rest).1⟩ (restOfLine rest).2 := by
  cases rest with
  | nil => rfl
  | cons c rest =>
    have hc : c ≠ '/' := fun hc => h (by rw [hc]; rfl)
    simp [lineComment, hc]

theorem lineComment_plain {c : Char} (h : c ≠ '!') (h' : c ≠ '/') (rest : Chars) :
    lineComment ('/' :: '/' :: c :: rest) = .ordinary (restOfLine ('/' :: '/' :: c :: rest)).2 := by
  simp [lineComment, h, h']

/-- The comment with more characters behind it. -/
def Comment.followed (tail : Chars) : Comment → Comment
  | .ordinary left => .ordinary (left ++ tail)
  | .documentation d left => .documentation d (left ++ tail)
  | .unclosed => .unclosed

/-- Whether the lexer goes on behind the comment. -/
def Comment.isSound : Comment → Bool
  | .ordinary _ => true
  | .documentation d _ => returnsPaired d.text
  | .unclosed => false

theorem lineComment_followed {rest : Chars} (h : (lineComment ('/' :: '/' :: rest)).isSound) :
    lineComment ('/' :: '/' :: (rest ++ '\n' :: b)) =
      (lineComment ('/' :: '/' :: rest)).followed ('\n' :: b) := by
  have hline {rest : Chars} (h : returnsPaired (restOfLine rest).1 = true) :
      restOfLine (rest ++ '\n' :: b) = ((restOfLine rest).1, (restOfLine rest).2 ++ '\n' :: b) :=
    restOfLine_followed (notMem_of_returnsPaired h (notMem_restOfLine rest))
  have houter {rest : Chars} (hh : rest.head? ≠ some '/')
      (h : (lineComment ('/' :: '/' :: '/' :: rest)).isSound) :
      lineComment ('/' :: '/' :: '/' :: (rest ++ '\n' :: b)) =
        (lineComment ('/' :: '/' :: '/' :: rest)).followed ('\n' :: b) := by
    have hh' : (rest ++ '\n' :: b).head? ≠ some '/' := by
      cases rest with
      | nil => simp
      | cons => exact hh
    rw [lineComment_outer hh] at h ⊢
    rw [lineComment_outer hh', hline h]
    rfl
  cases rest with
  | nil => rfl
  | cons c rest =>
    rw [List.cons_append]
    by_cases hc : c = '!'
    · subst hc
      rw [lineComment_inner] at h ⊢
      rw [lineComment_inner, hline h]
      rfl
    by_cases hc' : c = '/'
    · subst hc'
      cases rest with
      | nil => exact houter (by simp) h
      | cons d rest =>
        by_cases hd : d = '/'
        · subst hd
          exact congrArg Comment.ordinary (left_restOfLine_followed rest)
        · exact houter (by simpa using hd) h
    · rw [lineComment_plain hc hc', lineComment_plain hc hc']
      exact congrArg Comment.ordinary (left_restOfLine_followed ('/' :: '/' :: c :: rest))

theorem blockCommentAhead_followed {rest tail : Chars}
    (h : (blockCommentAhead ('/' :: '*' :: rest)).isSound) :
    blockCommentAhead ('/' :: '*' :: (rest ++ tail)) =
      (blockCommentAhead ('/' :: '*' :: rest)).followed tail := by
  unfold blockCommentAhead at h ⊢
  simp only [List.drop_succ_cons, List.drop_zero] at h ⊢
  cases hb : blockComment 0 rest with
  | none =>
    rw [hb] at h
    cases h
  | some x =>
    obtain ⟨body, left⟩ := x
    rw [blockComment_followed hb]
    dsimp only
    cases body with
    | nil => rfl
    | cons c body =>
      by_cases hc : c = '!'
      · subst hc
        rfl
      by_cases hc' : c = '*'
      · subst hc'
        cases body with
        | nil => rfl
        | cons d body =>
          by_cases hd : d = '*'
          · subst hd
            rfl
          · simp [hd, Comment.followed]
      · simp [hc, hc', Comment.followed]

/-- A comment of a single line ends with it, whether more lines follow or not. -/
theorem comment?_followed {c : Comment} (hc : comment? cs = some c) (h : c.isSound) :
    comment? (cs ++ '\n' :: b) = some (c.followed ('\n' :: b)) := by
  unfold comment? at hc
  split at hc
  next rest =>
    obtain rfl := Option.some.inj hc
    exact congrArg some (lineComment_followed h)
  next rest =>
    obtain rfl := Option.some.inj hc
    exact congrArg some (blockCommentAhead_followed h)
  next => cases hc

theorem comment?_eq_none_iff : comment? cs = none ↔ ∀ rest, cs ≠ '/' :: '/' :: rest ∧
    cs ≠ '/' :: '*' :: rest := by
  unfold comment?
  split
  · simp
  · simp
  next h h' =>
    simp only [true_iff]
    exact fun rest => ⟨h rest, h' rest⟩

/-- No comment starts at the end of a line. -/
theorem comment?_none_followed {s : Char} (hs : s ≠ '/' ∧ s ≠ '*') (h : comment? cs = none) :
    comment? (cs ++ s :: b) = none := by
  rw [comment?_eq_none_iff] at h ⊢
  intro rest
  cases cs with
  | nil => simp [hs]
  | cons c cs =>
    cases cs with
    | nil => simp [hs]
    | cons d cs =>
      have := h cs
      simp only [List.cons_append, ne_eq, List.cons.injEq, not_and] at this ⊢
      exact ⟨fun hc hd _ => this.1 hc hd trivial, fun hc hd _ => this.2 hc hd trivial⟩

theorem firm_token? {s : Char} (hs : Parts s) (hl : s ∉ lostLiteral) :
    Firm (s :: b) token? := by
  intro cs x h
  cases cs with
  | nil => cases h
  | cons c rest =>
    rw [List.cons_append]
    unfold token? at h ⊢
    dsimp only at h ⊢
    rw [← List.cons_append, after?_followed hl]
    cases hlost : after? lostLiteral (c :: rest) with
    | some left =>
      simp only [hlost] at h
      cases h
      rfl
    | none =>
      cases ho : opening? c with
      | some d =>
        simp only [hlost, ho] at h
        cases h
        rfl
      | none =>
        cases hd : closing? c with
        | some d =>
          simp only [hlost, ho, hd] at h
          cases h
          rfl
        | none =>
          simp only [hlost, ho, hd] at h
          exact firm_leaf? hs h

/-- The tokens of two parts, the first of which ends with its line. -/
theorem lex_append (h : lex stack cs = some ts) :
    lex stack (cs ++ '\n' :: b) = (lex [] b).map (ts ++ ·) := by
  induction hn : cs.length using Nat.strongRecOn generalizing cs stack ts with
  | ind n ih =>
    subst hn
    cases cs with
    | nil =>
      rw [lex_nil] at h
      split at h
      next hs =>
        cases h
        rw [List.isEmpty_iff.mp hs, List.nil_append, lex_space rfl rfl]
        simp
      next => cases h
    | cons c rest =>
      cases hc : comment? (c :: rest) with
      | some cm =>
        cases cm with
        | ordinary left =>
          rw [lex_ordinary hc] at h
          rw [lex_ordinary (comment?_followed hc rfl)]
          exact ih _ (length_of_comment? hc rfl) h rfl
        | documentation d left =>
          rw [lex_documentation hc] at h
          split at h
          next hd =>
            obtain ⟨us, hus, rfl⟩ := Option.map_eq_some_iff.mp h
            rw [lex_documentation (comment?_followed hc hd), if_pos hd,
              ih _ (length_of_comment? hc rfl) hus rfl, Option.map_map]
            congr 1
            funext vs
            exact (List.append_assoc ..).symm
          next => cases h
        | unclosed =>
          rw [lex_unclosed hc] at h
          cases h
      | none =>
        have hc' := comment?_none_followed (b := b) (s := '\n') (by decide) hc
        rw [List.cons_append] at hc' ⊢
        cases hs : isSpace c with
        | true =>
          rw [lex_space hc hs] at h
          rw [lex_space hc' hs]
          exact ih _ (Nat.lt_succ_self _) h rfl
        | false =>
          rw [lex_token hc hs] at h
          obtain ⟨x, hx, h⟩ := Option.bind_eq_some_iff.mp h
          obtain ⟨s, hadv, h⟩ := Option.bind_eq_some_iff.mp h
          obtain ⟨us, hus, rfl⟩ := Option.map_eq_some_iff.mp h
          have hx' : token? (c :: (rest ++ '\n' :: b)) = some (followed ('\n' :: b) x) :=
            firm_token? parts_newline (by decide) hx
          rw [lex_token hc' hs, hx', Option.bind_some]
          dsimp only [followed]
          rw [hadv, Option.bind_some, ih _ (length_of_token? hx) hus rfl, Option.map_map]
          rfl

end

end RecordStore.Lexer
