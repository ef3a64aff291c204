import RecordStore.Proofs.Syntax.Rules

/-!
A text in pieces: its tokens, its comments and the blanks between them. They make up the whole
text, and the lexer's tokens are theirs.
-/
namespace RecordStore.Lexer

open CharClass

variable {cs left text : Chars}

/-! ### Forms of tokens -/

/-- Whether a quote follows, or some hashes and a quote. -/
def rawAhead (cs : Chars) : Bool := (cs.dropWhile (· == '#')).head? == some '"'

/-- A name behind nothing or behind the mark of raw names; no `r` follows. -/
structure IsName (front name left : Chars) : Prop where
  front : front = [] ∨ front = ['r', '#']
  start : ∃ c rest, name = c :: rest ∧ isIdentifierStart c = true
  word : IsWord name
  after : left.head? ≠ some 'r'

/-- The forms that tokens have, given what follows them. -/
inductive TokenForm (left : Chars) : Chars → Prop where
  | quoted {mark inside w : Chars} : mark ∈ [[], ['b'], ['c']] → Inside inside → IsWord w →
      left.head? ≠ some 'r' → TokenForm left (mark ++ '"' :: (inside ++ '"' :: w))
  | raw {mark hashes inside w : Chars} : mark ∈ [[], ['b'], ['c']] → (∀ c ∈ hashes, c = '#') →
      Unclosed hashes inside ('"' :: (hashes ++ w ++ left)) → IsWord w → left.head? ≠ some 'r' →
      TokenForm left (mark ++ 'r' :: (hashes ++ '"' :: (inside ++ '"' :: (hashes ++ w))))
  | single {mark content w : Chars} : mark ∈ [[], ['b']] → IsContent content → IsWord w →
      left.head? ≠ some 'r' → TokenForm left (mark ++ '\'' :: (content ++ '\'' :: w))
  | number {digits : Chars} : IsNumber digits left → TokenForm left digits
  | name {front name : Chars} : IsName front name left →
      (front ++ name = ['r'] → rawAhead left = false) → TokenForm left (front ++ name)
  | lifetime {front name : Chars} : IsName front name left →
      (front ++ name ++ left)[1]? ≠ some '\'' → TokenForm left ('\'' :: (front ++ name))
  | quote : left.head? ≠ some '\\' → left[1]? ≠ some '\'' → TokenForm left ['\'']
  | mark {c : Char} : c ∉ ['"', '\'', 'r'] → isIdentifierContinue c = false →
      (c = '/' → left.head? ≠ some '/' ∧ left.head? ≠ some '*') → TokenForm left [c]
  | lost : TokenForm left lostLiteral

/-- A rule whose tokens have one of the forms. -/
def HasForm (cs text left : Chars) : Prop := TokenForm left text ∧ text ++ left = cs

theorem quotedOrRaw_eq_some {rules : QuoteRules} {mark : Chars} (hm : mark ∈ [[], ['b'], ['c']])
    (h : quotedOrRaw rules mark cs = some (text, left)) : HasForm cs text left := by
  obtain ⟨m, rest, b, hf, hb, rfl⟩ := andThen_eq_some h
  obtain ⟨rfl, rfl⟩ := fixed_eq_some hf
  split at hb
  · obtain ⟨t, ht, rfl⟩ := map_also_eq_some hb
    obtain ⟨inside, w, hi, rfl, hw, hl, rfl⟩ := quoted_eq_some ht
    exact ⟨.quoted hm hi hw hl, List.append_assoc ..⟩
  · obtain ⟨t, ht, rfl⟩ := map_also_eq_some hb
    obtain ⟨hashes, inside, w, hh, rfl, hu, hw, hl, rfl⟩ := raw_eq_some ht
    exact ⟨.raw hm hh hu hw hl, List.append_assoc ..⟩
  · cases hb

theorem single_hasForm {rules : QuoteRules} (mark : Chars) (hm : mark ∈ [[], ['b']])
    (h : andThen (fixed (mark ++ ['\'']) cs) (single rules) = some (text, left)) :
    HasForm cs text left := by
  obtain ⟨m, rest, b, hf, hb, rfl⟩ := andThen_eq_some h
  obtain ⟨rfl, rfl⟩ := fixed_eq_some hf
  obtain ⟨content, w, hc, rfl, hw, hl, rfl⟩ := single_eq_some hb
  exact ⟨by simpa using TokenForm.single hm hc hw hl, by simp⟩

theorem eq_some_of_orElse {α : Type} {a b : Option α} {t : α} (h : (a <|> b) = some t) :
    a = some t ∨ b = some t := by
  cases a with
  | none => exact .inr h
  | some x => exact .inl h

theorem literal?_hasForm (h : literal? cs = some (text, left)) : HasForm cs text left := by
  unfold literal? at h
  rcases eq_some_of_orElse h with h | h
  · exact quotedOrRaw_eq_some (by simp) h
  rcases eq_some_of_orElse h with h | h
  · exact quotedOrRaw_eq_some (by simp) h
  rcases eq_some_of_orElse h with h | h
  · exact quotedOrRaw_eq_some (by simp) h
  rcases eq_some_of_orElse h with h | h
  · exact single_hasForm ['b'] (by simp) h
  rcases eq_some_of_orElse h with h | h
  · exact single_hasForm [] (by simp) h
  rcases eq_some_of_orElse h with h | h
  · obtain ⟨hn, ha⟩ := float_eq_some h
    exact ⟨.number hn, ha⟩
  · obtain ⟨hn, ha⟩ := int_eq_some h
    exact ⟨.number hn, ha⟩

/-- The form of an identifier, but for what may follow. -/
theorem identifier?_isName {i : Chars} (h : identifier? cs = some (i, left)) :
    ∃ front name, i = front ++ name ∧ IsName front name left ∧ i ++ left = cs := by
  obtain ⟨front, name, hf, rfl, hs, hw, hl, ha⟩ := identifier?_eq_some h
  refine ⟨front, name, rfl, ⟨hf, hs, hw, fun hr => ?_⟩, ha⟩
  rw [hr, Option.any_some, isIdentifierContinue_of_start isIdentifierStart_r] at hl
  cases hl

/-- No raw literal is broken: behind an `r` that is a name, none could start. -/
theorem rawAhead_of_literalStart (h : literalStart ('r' :: left) = false) :
    rawAhead left = false := by
  simp only [literalStart, startsWith, List.any_cons, Bool.or_eq_false_iff] at h
  cases left with
  | nil => rfl
  | cons c left =>
    by_cases hq : c = '"'
    · subst hq
      simp at h
    by_cases hh : c = '#'
    · subst hh
      cases left with
      | nil => rfl
      | cons d left =>
        by_cases hd : d = '"'
        · subst hd
          simp at h
        by_cases hd' : d = '#'
        · subst hd'
          simp at h
        simp [rawAhead, hd, hd']
    simp [rawAhead, hq, hh]

theorem IsName.head {front name : Chars} (h : IsName front name left) (cs : Chars) :
    ∃ c, (front ++ name ++ cs).head? = some c ∧ isIdentifierStart c = true := by
  obtain ⟨c, rest, rfl, hc⟩ := h.start
  rcases h.front with rfl | rfl
  · exact ⟨c, rfl, hc⟩
  · exact ⟨'r', rfl, isIdentifierStart_r⟩

/-- A name and what follows it have no quote in second place, unless the name has one letter. -/
theorem IsName.second {front name : Chars} (h : IsName front name left)
    (hl : cs.head? ≠ some '\'') : (front ++ name ++ cs)[1]? ≠ some '\'' := by
  obtain ⟨c, rest, rfl, -⟩ := h.start
  rcases h.front with rfl | rfl
  · cases rest with
    | nil => simpa [← List.head?_eq_getElem?] using hl
    | cons d rest =>
      have hd : isIdentifierContinue d = true := h.word d (by simp)
      intro he
      obtain rfl : d = '\'' := by simpa using he
      exact absurd hd (by decide)
  · simp

theorem lifetime?_hasForm {t : Token} (h : lifetime? cs = some (t, left)) :
    ∃ text, HasForm ('\'' :: cs) text left := by
  obtain ⟨⟨i, l⟩, hi, h⟩ := Option.bind_eq_some_iff.mp h
  obtain ⟨front, name, rfl, hn, rfl⟩ := identifier?_isName hi
  dsimp only at h
  split at h
  · cases h
  next hclosed =>
    have hl : l.head? ≠ some '\'' := fun he => hclosed (by simp [he])
    split at h
    · cases h
      refine ⟨['\''], .quote ?_ (hn.second hl), rfl⟩
      obtain ⟨c, hc, hs⟩ := hn.head l
      rw [hc]
      rintro ⟨⟩
      exact absurd hs (by decide)
    · cases h
      exact ⟨'\'' :: (front ++ name), .lifetime hn (hn.second hl), rfl⟩

theorem isMark_eq {c : Char} (h : isMark c = true) :
    c ∉ ['"', 'r'] ∧ isIdentifierContinue c = false := by
  have hall : ∀ d ∈ "~!@#$%^&*-=+|;:,<.>/?'".toList,
      d ∉ ['"', 'r'] ∧ isIdentifierContinue d = false :=
    List.all_iff_forall_prop.mp (by decide)
  exact hall c (List.contains_iff_mem.mp h)

theorem punct?_hasForm {t : Token} (h : punct? cs = some (t, left)) :
    ∃ text, HasForm cs text left := by
  unfold punct? at h
  split at h
  · cases h
  · exact lifetime?_hasForm h
  next c rest hc =>
    split at h
    next hm =>
      cases h
      have hslash : c = '/' → left.head? ≠ some '/' ∧ left.head? ≠ some '*' := by
        rintro rfl
        constructor <;>
        · intro hl
          obtain ⟨d, ds, rfl⟩ : ∃ d ds, left = d :: ds := by
            cases left with
            | nil => cases hl
            | cons d ds => exact ⟨d, ds, rfl⟩
          obtain rfl := Option.some.inj hl
          cases hm
      have hmark : isMark c = true := by
        unfold markAhead at hm
        split at hm
        · cases hm
        · cases hm
        · rename_i he
          cases he
          exact hm
        · cases hm
      obtain ⟨hn, hi⟩ := isMark_eq hmark
      refine ⟨[c], .mark ?_ hi hslash, rfl⟩
      simp only [List.mem_cons, List.not_mem_nil, or_false, not_or] at hn ⊢
      exact ⟨hn.1, hc, hn.2⟩
    next => cases h

theorem leaf?_hasForm {t : Token} (h : leaf? cs = some (t, left)) :
    ∃ text, HasForm cs text left := by
  unfold leaf? at h
  split at h
  next hl =>
    cases h
    exact ⟨_, literal?_hasForm hl⟩
  split at h
  next hp =>
    cases h
    exact punct?_hasForm hp
  split at h
  · cases h
  next hstart =>
    obtain ⟨⟨i, l⟩, hi, h⟩ := Option.map_eq_some_iff.mp h
    cases h
    obtain ⟨front, name, rfl, hn, rfl⟩ := identifier?_isName hi
    refine ⟨front ++ name, .name hn fun hr => ?_, rfl⟩
    rw [hr] at hstart
    exact rawAhead_of_literalStart (by simpa using hstart)

/-! ### Pieces -/

/-- A piece of a text, with the tokens that it stands for. -/
structure Lexeme where
  isComment : Bool
  text : Chars
  tokens : List Token

/-- What lies in front of the rest of some characters. -/
def taken (cs left : Chars) : Chars := cs.take (cs.length - left.length)

@[simp]
theorem taken_append : taken (text ++ left) left = text := by simp [taken]

/-- The token at the start of some characters, delimiters and lost literals included. -/
def token? (cs : Chars) : Option (Token × Chars) :=
  match cs with
  | [] => none
  | c :: rest =>
    match after? lostLiteral cs, opening? c, closing? c with
    | some left, _, _ => some (.literal (String.ofList lostLiteral), left)
    | none, some d, _ => some (.opening d, rest)
    | none, none, some d => some (.closing d, rest)
    | none, none, none => leaf? cs

theorem token?_hasForm {t : Token} (h : token? cs = some (t, left)) :
    ∃ text, HasForm cs text left := by
  unfold token? at h
  split at h
  · cases h
  next c rest =>
    have delimiter {c : Char} {rest : Chars} (hc : c ∈ ['(', '[', '\x7b', ')', ']', '\x7d']) :
        HasForm (c :: rest) [c] rest := by
      have hall : ∀ c ∈ ['(', '[', '\x7b', ')', ']', '\x7d'],
          c ∉ ['"', '\'', 'r'] ∧ isIdentifierContinue c = false ∧ c ≠ '/' :=
        List.all_iff_forall_prop.mp (by decide)
      obtain ⟨hn, hi, hs⟩ := hall c hc
      exact ⟨.mark hn hi fun he => absurd he hs, rfl⟩
    split at h
    next l hl =>
      cases h
      exact ⟨_, .lost, after?_append hl⟩
    next d _ hd =>
      cases h
      refine ⟨_, delimiter ?_⟩
      unfold opening? at hd
      split at hd <;> first | decide | cases hd
    next d _ _ hd =>
      cases h
      refine ⟨_, delimiter ?_⟩
      unfold closing? at hd
      split at hd <;> first | decide | cases hd
    next => exact leaf?_hasForm h

/-! ### Comments -/

/-- What is left of a line starts with its end. -/
theorem restOfLine_eq (cs : Chars) : (restOfLine cs).2 = cs.dropWhile (· != '\n') := by
  fun_induction restOfLine cs with
  | case1 => rfl
  | case2 rest => rfl
  | case3 c rest _ hc =>
    obtain rfl := eq_of_beq hc
    rfl
  | case4 c rest _ hc line rest' he ih =>
    rw [List.dropWhile_cons_of_pos (by simpa using hc), ← ih, he]

theorem blockComment_append {depth : Nat} {body : Chars}
    (h : blockComment depth cs = some (body, left)) : body ++ '*' :: '/' :: left = cs := by
  have more (front : Chars) {rest : Chars} {depth : Nat} {body : Chars}
      (ih : ∀ {body : Chars}, blockComment depth rest = some (body, left) →
        body ++ '*' :: '/' :: left = rest)
      (h : ((blockComment depth rest).map fun p => (front ++ p.1, p.2)) =
        some (body, left)) : body ++ '*' :: '/' :: left = front ++ rest := by
    obtain ⟨⟨b, l⟩, hb, he⟩ := Option.map_eq_some_iff.mp h
    cases he
    rw [List.append_assoc, ih hb]
  fun_induction blockComment depth cs generalizing body with
  | case1 depth rest ih => exact more ['/', '*'] ih h
  | case2 rest =>
    cases h
    rfl
  | case3 depth rest ih => exact more ['*', '/'] ih h
  | case4 depth c rest _ _ _ ih => exact more [c] ih h
  | case5 => cases h

/-- The forms that comments have, given what follows them. -/
inductive CommentForm (left : Chars) : Chars → Prop where
  | line {rest : Chars} : '\n' ∉ rest → left.head? = none ∨ left.head? = some '\n' →
      CommentForm left ('/' :: '/' :: rest)
  | block {body : Chars} : blockComment 0 (body ++ '*' :: '/' :: left) = some (body, left) →
      CommentForm left ('/' :: '*' :: (body ++ ['*', '/']))

theorem CommentForm.ne_nil (h : CommentForm left text) : text ≠ [] := by
  cases h <;> simp

/-- What documents something in a comment, and what follows the comment. -/
def Comment.ends? : Comment → Option (Option DocComment × Chars)
  | .ordinary left => some (none, left)
  | .documentation d left => some (some d, left)
  | .unclosed => none

/-- A line comment ends where its line does, whatever its first characters are. -/
theorem line_hasForm (front rest : Chars) (hf : '\n' ∉ front) : ∃ text,
    CommentForm (restOfLine rest).2 text ∧
      text ++ (restOfLine rest).2 = '/' :: '/' :: (front ++ rest) := by
  rw [restOfLine_eq]
  refine ⟨'/' :: '/' :: (front ++ rest.takeWhile (· != '\n')), .line ?_ ?_, ?_⟩
  · rw [List.mem_append]
    refine not_or.mpr ⟨hf, fun hm => ?_⟩
    exact absurd (List.all_eq_true.mp List.all_takeWhile _ hm) (by decide)
  · cases hl : rest.dropWhile (· != '\n') with
    | nil => exact .inl rfl
    | cons e es =>
      have he := List.head?_dropWhile_not (· != '\n') rest
      rw [hl] at he
      exact .inr (by simpa using he)
  · simp

theorem lineComment_hasForm {rest : Chars} {d : Option DocComment}
    (h : (lineComment ('/' :: '/' :: rest)).ends? = some (d, left)) :
    ∃ text, CommentForm left text ∧ text ++ left = '/' :: '/' :: rest := by
  unfold lineComment at h
  split at h
  next he =>
    cases he
    cases h
    exact line_hasForm ['!'] _ (by decide)
  next he =>
    cases he
    cases h
    exact line_hasForm ['/', '/'] _ (by decide)
  next he =>
    cases he
    cases h
    exact line_hasForm ['/'] _ (by decide)
  next =>
    cases h
    have hrest : (restOfLine ('/' :: '/' :: rest)).2 = (restOfLine rest).2 := by
      rw [restOfLine_eq, restOfLine_eq]
      rfl
    rw [hrest]
    exact line_hasForm [] _ List.not_mem_nil

theorem blockCommentAhead_hasForm {rest : Chars} {d : Option DocComment}
    (h : (blockCommentAhead ('/' :: '*' :: rest)).ends? = some (d, left)) :
    ∃ text, CommentForm left text ∧ text ++ left = '/' :: '*' :: rest := by
  unfold blockCommentAhead at h
  split at h
  next => cases h
  next body l hb =>
    have hb : blockComment 0 rest = some (body, l) := hb
    have ha := blockComment_append hb
    have hl : l = left := by
      split at h
      · cases h; rfl
      · split at h <;> · cases h; rfl
      · cases h; rfl
    subst hl
    refine ⟨'/' :: '*' :: (body ++ ['*', '/']), .block (by rw [ha, hb]), ?_⟩
    rw [← ha]
    simp

theorem comment?_hasForm {c : Comment} {d : Option DocComment} (hc : comment? cs = some c)
    (h : c.ends? = some (d, left)) : ∃ text, CommentForm left text ∧ text ++ left = cs := by
  unfold comment? at hc
  split at hc
  next =>
    obtain rfl := Option.some.inj hc
    exact lineComment_hasForm h
  next =>
    obtain rfl := Option.some.inj hc
    exact blockCommentAhead_hasForm h
  next => cases hc

/-! ### Texts in pieces -/

/-- The piece at the start of some characters. -/
def lexeme? (cs : Chars) : Option (Lexeme × Chars) :=
  match comment? cs with
  | some c => c.ends?.bind fun (d, left) =>
    if d.all fun d => returnsPaired d.text then
      some (⟨true, taken cs left, d.elim [] DocComment.tokens⟩, left)
    else none
  | none =>
    match cs with
    | [] => none
    | c :: rest =>
      if isSpace c then some (⟨false, [c], []⟩, rest)
      else (token? cs).map fun (t, left) => (⟨false, taken cs left, [t]⟩, left)

/-- The pieces of some characters, at most as many as the first argument says. -/
def lexemesFrom : Nat → Chars → Option (List Lexeme)
  | _, [] => some []
  | 0, _ => none
  | fuel + 1, cs => (lexeme? cs).bind fun (l, left) => (lexemesFrom fuel left).map (l :: ·)

/-- A piece is a comment, a blank or a token, and it is the start of what was ahead. -/
theorem lexeme?_eq_some {l : Lexeme} (h : lexeme? cs = some (l, left)) : l.text ++ left = cs ∧
    (l.isComment = true ∧ CommentForm left l.text ∨
      l.isComment = false ∧ ((∃ c, l.text = [c] ∧ isSpace c = true) ∨ TokenForm left l.text)) := by
  unfold lexeme? at h
  split at h
  next c hc =>
    obtain ⟨⟨d, rest⟩, hd, h⟩ := Option.bind_eq_some_iff.mp h
    dsimp only at h
    split at h
    · cases h
      obtain ⟨text, hf, rfl⟩ := comment?_hasForm hc hd
      simpa using hf
    · cases h
  next =>
    split at h
    · cases h
    next c rest =>
      split at h
      next hs =>
        cases h
        exact ⟨rfl, .inr ⟨rfl, .inl ⟨_, rfl, hs⟩⟩⟩
      next =>
        obtain ⟨⟨t, rest'⟩, ht, h⟩ := Option.map_eq_some_iff.mp h
        cases h
        obtain ⟨text, hf, ha⟩ := token?_hasForm ht
        rw [← ha, taken_append]
        exact ⟨rfl, .inr ⟨rfl, .inr hf⟩⟩

/-- The pieces of a text make it up. -/
theorem flatMap_text {fuel : Nat} {ls : List Lexeme} (h : lexemesFrom fuel cs = some ls) :
    ls.flatMap Lexeme.text = cs := by
  induction fuel generalizing cs ls with
  | zero =>
    cases cs with
    | nil =>
      cases h
      rfl
    | cons => cases h
  | succ fuel ih =>
    cases cs with
    | nil =>
      cases h
      rfl
    | cons c rest =>
      obtain ⟨⟨l, left⟩, hl, h⟩ := Option.bind_eq_some_iff.mp h
      obtain ⟨ls', hls, rfl⟩ := Option.map_eq_some_iff.mp h
      rw [List.flatMap_cons, ih hls, (lexeme?_eq_some hl).1]

theorem length_of_comment? {c : Comment} {d : Option DocComment} (hc : comment? cs = some c)
    (h : c.ends? = some (d, left)) : left.length < cs.length := by
  obtain ⟨text, hf, rfl⟩ := comment?_hasForm hc h
  have := List.length_pos_of_ne_nil hf.ne_nil
  rw [List.length_append]
  omega

theorem skipBlank_eq {fuel fuel' : Chars} (h : cs.length ≤ fuel.length)
    (h' : cs.length ≤ fuel'.length) : skipBlank fuel cs = skipBlank fuel' cs := by
  induction fuel generalizing cs fuel' with
  | nil =>
    obtain rfl := List.length_eq_zero_iff.mp (Nat.le_zero.mp h)
    cases fuel' <;> rfl
  | cons f fuel ih =>
    cases fuel' with
    | nil =>
      obtain rfl := List.length_eq_zero_iff.mp (Nat.le_zero.mp h')
      rfl
    | cons f' fuel' =>
      rw [List.length_cons] at h h'
      unfold skipBlank
      split
      next left hc =>
        have hl := length_of_comment? hc rfl
        exact ih (by omega) (by omega)
      next => rfl
      next =>
        split
        · rfl
        · rw [List.length_cons] at h h'
          split
          · exact ih (by omega) (by omega)
          · rfl

theorem skip_of_ordinary (h : comment? cs = some (.ordinary left)) : skip cs = skip left := by
  have hl := length_of_comment? h rfl
  cases cs with
  | nil => cases h
  | cons c rest =>
    rw [skip, skipBlank, h]
    exact skipBlank_eq (Nat.le_of_lt_succ hl) le_rfl

theorem skip_of_isSpace {c : Char} {rest : Chars} (h : comment? (c :: rest) = none)
    (hc : isSpace c = true) : skip (c :: rest) = skip rest := by
  rw [skip, skipBlank, h]
  dsimp only
  rw [if_pos hc, skip]

theorem tokensFrom_congr {fuel : Nat} {stack : List Delimiter} {ds : Chars}
    (h : skip cs = skip ds) : tokensFrom fuel stack cs = tokensFrom fuel stack ds := by
  cases fuel with
  | zero => rfl
  | succ fuel => rw [tokensFrom, tokensFrom, h]

theorem TokenForm.ne_nil (h : TokenForm left text) : text ≠ [] := by
  cases h with
  | number hn => exact hn.ne_nil
  | name hn =>
    obtain ⟨c, rest, rfl, -⟩ := hn.start
    simp
  | lost => decide
  | _ => simp

theorem length_of_lexeme? {l : Lexeme} (h : lexeme? cs = some (l, left)) :
    left.length < cs.length := by
  obtain ⟨rfl, hf⟩ := lexeme?_eq_some h
  have hne : l.text ≠ [] := by
    rcases hf with ⟨-, hf⟩ | ⟨-, ⟨c, hc, -⟩ | hf⟩
    · exact hf.ne_nil
    · simp [hc]
    · exact hf.ne_nil
  rw [List.length_append]
  have := List.length_pos_of_ne_nil hne
  omega

section

variable {fuel : Nat} {stack : List Delimiter} {ts : List Token} {c : Char} {rest : Chars}

theorem tokensFrom_nil (h : tokensFrom fuel stack [] = some ts) : ts = [] := by
  cases fuel with
  | zero => cases h
  | succ fuel =>
    have hs : tokensFrom (fuel + 1) stack [] = if stack.isEmpty then some [] else none := rfl
    rw [hs] at h
    split at h
    · cases h
      rfl
    · cases h

/-- Where neither a blank nor a comment comes first, a token does. -/
theorem tokensFrom_token (hc : comment? (c :: rest) = none) (hs : skip (c :: rest) = c :: rest)
    (h : tokensFrom (fuel + 1) stack (c :: rest) = some ts) : ∃ t left stack' ts',
      token? (c :: rest) = some (t, left) ∧ tokensFrom fuel stack' left = some ts' ∧
        t :: ts' = ts := by
  rw [tokensFrom, hs] at h
  dsimp only at h
  rw [hc] at h
  dsimp only at h
  unfold token?
  dsimp only
  cases hl : after? lostLiteral (c :: rest) with
  | some left =>
    simp only [hl] at h
    obtain ⟨ts', ht, rfl⟩ := Option.map_eq_some_iff.mp h
    exact ⟨_, _, _, _, rfl, ht, rfl⟩
  | none =>
    cases ho : opening? c with
    | some d =>
      simp only [hl, ho] at h
      obtain ⟨ts', ht, rfl⟩ := Option.map_eq_some_iff.mp h
      exact ⟨_, _, _, _, rfl, ht, rfl⟩
    | none =>
      cases hd : closing? c with
      | some d =>
        simp only [hl, ho, hd] at h
        cases stack with
        | nil => cases h
        | cons e stack =>
          dsimp only at h
          split at h
          · obtain ⟨ts', ht, rfl⟩ := Option.map_eq_some_iff.mp h
            exact ⟨_, _, _, _, rfl, ht, rfl⟩
          · cases h
      | none =>
        simp only [hl, ho, hd] at h
        obtain ⟨⟨t, left⟩, hl, h⟩ := Option.bind_eq_some_iff.mp h
        obtain ⟨ts', ht, rfl⟩ := Option.map_eq_some_iff.mp h
        exact ⟨_, _, _, _, hl, ht, rfl⟩

/-- What is left behind the first piece has the tokens that are left. -/
theorem exists_lexeme (h : tokensFrom fuel stack (c :: rest) = some ts) :
    ∃ l left fuel' stack' ts', lexeme? (c :: rest) = some (l, left) ∧
      tokensFrom fuel' stack' left = some ts' ∧ l.tokens ++ ts' = ts := by
  cases fuel with
  | zero => cases h
  | succ fuel =>
    unfold lexeme?
    cases hc : comment? (c :: rest) with
    | some cm =>
      dsimp only
      cases cm with
      | ordinary left =>
        rw [tokensFrom_congr (skip_of_ordinary hc)] at h
        exact ⟨_, _, _, _, _, rfl, h, rfl⟩
      | documentation d left =>
        have hs : skip (c :: rest) = c :: rest := by rw [skip, skipBlank, hc]
        rw [tokensFrom, hs] at h
        dsimp only at h
        rw [hc] at h
        dsimp only at h
        split at h
        next hr =>
          obtain ⟨ts', ht, rfl⟩ := Option.map_eq_some_iff.mp h
          refine ⟨⟨true, taken (c :: rest) left, d.tokens⟩, _, _, _, _, ?_, ht, rfl⟩
          simp only [Comment.ends?, Option.bind_some, Option.all_some, hr, if_true]
          rfl
        next => cases h
      | unclosed =>
        have hs : skip (c :: rest) = c :: rest := by rw [skip, skipBlank, hc]
        rw [tokensFrom, hs] at h
        dsimp only at h
        rw [hc] at h
        cases h
    | none =>
      dsimp only
      split
      next hs =>
        rw [tokensFrom_congr (skip_of_isSpace hc hs)] at h
        exact ⟨_, _, _, _, _, rfl, h, rfl⟩
      next hs =>
        have hskip : skip (c :: rest) = c :: rest := by
          rw [skip, skipBlank, hc]
          simp [hs]
        obtain ⟨t, left, stack', ts', ht, hl, rfl⟩ := tokensFrom_token hc hskip h
        rw [ht]
        exact ⟨_, _, _, _, _, rfl, hl, rfl⟩

end

/-- A text with tokens has pieces, and the tokens are theirs. -/
theorem exists_lexemes {n fuel : Nat} {stack : List Delimiter} {ts : List Token}
    (h : tokensFrom fuel stack cs = some ts) (hn : cs.length ≤ n) :
    ∃ ls, lexemesFrom n cs = some ls ∧ ls.flatMap Lexeme.tokens = ts := by
  induction n generalizing fuel stack cs ts with
  | zero =>
    obtain rfl := List.length_eq_zero_iff.mp (Nat.le_zero.mp hn)
    exact ⟨[], rfl, (tokensFrom_nil h).symm⟩
  | succ n ih =>
    cases cs with
    | nil => exact ⟨[], rfl, (tokensFrom_nil h).symm⟩
    | cons c rest =>
      obtain ⟨l, left, fuel', stack', ts', hl, ht, rfl⟩ := exists_lexeme h
      have hlt := length_of_lexeme? hl
      obtain ⟨ls, hls, rfl⟩ := ih ht (by omega)
      refine ⟨l :: ls, ?_, rfl⟩
      rw [lexemesFrom, hl, Option.bind_some]
      · dsimp only
        rw [hls]
        rfl
      · simp

end RecordStore.Lexer
