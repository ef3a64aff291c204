import RecordStore.Proofs.Source.Passing
import RecordStore.Syntax.Reading

/-!
Which sources are ignored: those with the mark in a comment, as long as the search takes every
piece of the source for what it is.
-/
namespace RecordStore.IgnoreMark

open Utf8 Lexer

variable {before : Option UInt8} {c : Char} {cs left text front name w : Chars}

/-! ### Tokens -/

/-- Whether a text behind the first quote of a string ends it at the last quote that there is. -/
def endsAtLastQuote : Chars → Bool
  | [] => false
  | '\\' :: _ :: rest => endsAtLastQuote rest
  | c :: rest => if c == '"' then !rest.contains '"' else endsAtLastQuote rest

/-- Whether a text starts as a raw literal behind a letter does. -/
def opensPrefixed (text : Chars) : Bool :=
  ['b', 'r'].isPrefixOf text || ['c', 'r'].isPrefixOf text

/-- What stands behind the first quote of a raw literal behind a letter. -/
def prefixedInside (text : Chars) : Chars := ((text.drop 2).dropWhile (· == '#')).drop 1

/-- Whether the search takes a piece of a source for what it is, given what follows. A word at its
end does not look like the start of a raw literal; its last single quote starts no character; and
a raw literal behind a letter ends where it would if it were not raw. -/
def isPlain (text left : Chars) : Bool :=
  !endsRaw text left && (looseEnd? text).all (fun rest => closesAlone (rest ++ left)) &&
    (!opensPrefixed text || !text.contains '"' || endsAtLastQuote (prefixedInside text))

theorem passes_mark {mark : Chars} {rest : Octets} (h : mark ∈ [[], ['b'], ['c']]) :
    Passes before (octets mark) rest := by
  simp only [List.mem_cons, List.not_mem_nil, or_false] at h
  obtain rfl | rfl | rfl := h
  · exact .nil
  · exact passes_octets (List.forall_mem_singleton.mpr (by decide))
  · exact passes_octets (List.forall_mem_singleton.mpr (by decide))

/-- A word at the start of a piece is passed over, unless it is an `r` in front of what makes it
look like a raw literal. -/
theorem passes_headed (hq : ∀ d ∈ c :: w, IsQuiet d)
    (hr : c = 'r' → w = [] → rawAhead left = false) (he : endsRaw (c :: w) left = false) :
    Passes before (octets (c :: w)) (octets left) := by
  obtain ⟨hc, hw⟩ := List.forall_mem_cons.mp hq
  have hfirst : Passes before (octets [c]) (octets (w ++ left)) := by
    by_cases hcr : c = 'r'
    · subst hcr
      refine passes_word (by simpa using hc) fun v hv hraw => ?_
      cases w with
      | nil => rw [List.nil_append, hr rfl rfl] at hraw; cases hraw
      | cons d w =>
        rw [List.cons_append, rawAhead_of_isQuiet (hw d List.mem_cons_self)] at hraw
        cases hraw
    · refine passes_word (by simpa using hc) fun v hv _ => ?_
      cases v with
      | nil => exact absurd (List.cons.inj hv).1 hcr
      | cons d v => cases v <;> cases hv
  exact hfirst.word (List.cons_ne_nil _ _) hw he

theorem passes_rawMark (hf : front = [] ∨ front = ['r', '#'])
    (hn : ∃ c rest, name = c :: rest ∧ CharClass.isIdentifierStart c = true) (hw : IsWord name) :
    Passes before (octets front) (octets (name ++ left)) := by
  rcases hf with rfl | rfl
  · exact .nil
  · obtain ⟨c, rest, rfl, -⟩ := hn
    have hraw : rawAhead ('#' :: (c :: rest ++ left)) = false := by
      show rawAhead (c :: (rest ++ left)) = false
      exact rawAhead_of_isQuiet (hw.isQuiet c List.mem_cons_self)
    have hhash : ∀ d ∈ ['#'], d = '#' := by simp
    have hstart : startsRaw before (0x72 :: octets ('#' :: (c :: rest ++ left))) = false := by
      rw [startsRaw_octets, hraw, Bool.and_false]
    have hr : Passes before [0x72] (octets ('#' :: (c :: rest ++ left))) :=
      .of_extent (extent_r hstart) (List.cons_ne_nil _ _)
    exact hr.append (passes_hashes hhash)

/-- A comment without the mark is passed over. -/
theorem passes_comment (h : CommentForm left text) (hno : occursIn mark (octets text) = false) :
    Passes before (octets text) (octets left) := by
  have hsome : (octets text).getLast?.isSome = true := by simpa using octets_ne_nil h.ne_nil
  rw [Passes, ← octets_append, marks_comment h, hno, Bool.false_or, Option.or_of_isSome hsome]

theorem mem_of_endsAtLastQuote (h : endsAtLastQuote cs = true) : '"' ∈ cs := by
  fun_induction endsAtLastQuote cs with
  | case1 => cases h
  | case2 c rest ih => exact List.mem_cons_of_mem _ (List.mem_cons_of_mem _ (ih h))
  | case3 c rest _ hc => exact eq_of_beq hc ▸ List.mem_cons_self
  | case4 c rest _ _ ih => exact List.mem_cons_of_mem _ (ih h)

theorem inside_of_endsAtLastQuote {inside rest : Chars} (hr : '"' ∉ rest)
    (h : endsAtLastQuote (inside ++ '"' :: rest) = true) : Inside inside := by
  generalize hcs : inside ++ '"' :: rest = cs at h
  fun_induction endsAtLastQuote cs generalizing inside with
  | case1 => cases h
  | case2 c after ih =>
    match inside with
    | [] => exact absurd (List.cons.inj hcs).1 (by decide)
    | [d] =>
      obtain ⟨-, hcs⟩ := List.cons.inj hcs
      obtain ⟨-, rfl⟩ := List.cons.inj hcs
      exact absurd (mem_of_endsAtLastQuote h) hr
    | d :: e :: inside =>
      obtain ⟨rfl, htail⟩ := List.cons.inj hcs
      exact .escape (ih (List.cons.inj htail).2 h)
  | case3 c after _ hc =>
    cases inside with
    | nil => exact .nil
    | cons d inside =>
      obtain ⟨-, rfl⟩ := List.cons.inj hcs
      simp at h
  | case4 c after hback hc ih =>
    cases inside with
    | nil => exact .nil
    | cons d inside =>
      obtain ⟨rfl, rfl⟩ := List.cons.inj hcs
      refine .char (by simpa using hc) (fun he => ?_) (ih rfl h)
      cases inside with
      | nil => exact hback _ _ he rfl
      | cons e inside => exact hback _ _ he rfl

/-- A plain raw literal behind a letter has the inside of a string. -/
theorem inside_of_isPlain {m : Char} {hashes inside : Chars} (hm : m = 'b' ∨ m = 'c')
    (hh : ∀ c ∈ hashes, c = '#') (hw : IsWord w)
    (hp : isPlain (m :: 'r' :: (hashes ++ '"' :: (inside ++ '"' :: (hashes ++ w)))) left = true) :
    Inside inside := by
  have hopens : opensPrefixed (m :: 'r' :: (hashes ++ '"' :: (inside ++ '"' :: (hashes ++ w)))) =
      true := by
    rcases hm with rfl | rfl <;> rfl
  have hquote : (m :: 'r' :: (hashes ++ '"' :: (inside ++ '"' :: (hashes ++ w)))).contains '"' =
      true := by
    simp
  have hinside : prefixedInside (m :: 'r' :: (hashes ++ '"' :: (inside ++ '"' :: (hashes ++ w)))) =
      inside ++ '"' :: (hashes ++ w) := by
    unfold prefixedInside
    rw [List.drop_succ_cons, List.drop_succ_cons, List.drop_zero, dropWhile_hashes hh (by simp)]
    rfl
  rw [isPlain, hopens, hquote, hinside, Bool.and_eq_true] at hp
  refine inside_of_endsAtLastQuote (fun hm => ?_) hp.2
  rcases List.mem_append.mp hm with hm | hm
  · exact absurd (hh _ hm) (by decide)
  · exact absurd (hw.isQuiet _ hm) (by decide)

theorem passes_lifetime (hn : IsName front name left)
    (hsecond : (front ++ name ++ left)[1]? ≠ some '\'')
    (he : endsRaw ('\'' :: (front ++ name)) left = false) :
    Passes before (octets ('\'' :: (front ++ name))) (octets left) := by
  have halone : closesAlone (front ++ (name ++ left)) = true := by
    obtain ⟨c, hc, hs⟩ := hn.head left
    rw [← List.append_assoc]
    refine closesAlone_of ?_ hsecond
    rw [hc]
    rintro ⟨⟩
    exact absurd hs (by decide)
  have hquote : Passes before [0x27] (octets front ++ octets (name ++ left)) := by
    rw [← octets_append]
    exact passes_quote halone
  have hfront : Passes before (octets ('\'' :: front)) (octets (name ++ left)) := by
    rw [octets_cons_of_isAscii (by decide)]
    exact hquote.append (passes_rawMark hn.front hn.start hn.word)
  exact hfront.word (List.cons_ne_nil _ _) hn.word.isQuiet he

theorem passes_punct (hc : c ∉ ['"', '\'', 'r'])
    (hs : c = '/' → left.head? ≠ some '/' ∧ left.head? ≠ some '*') :
    Passes before (octets [c]) (octets left) := by
  by_cases hslash : c = '/'
  · subst hslash
    obtain ⟨h1, h2⟩ := hs rfl
    exact .of_extent (extent_slash (head?_octets (a := '/') (by decide) h1)
      (head?_octets (a := '*') (by decide) h2)) (List.cons_ne_nil _ _)
  · refine passes_octets (List.forall_mem_singleton.mpr ?_)
    simp only [List.mem_cons, List.not_mem_nil, or_false, not_or] at hc ⊢
    exact ⟨hslash, hc.2.2, hc.1, hc.2.1⟩

/-- A literal that was lost is a comment in parentheses, and it does not hold the mark. -/
theorem passes_lost : Passes before (octets lostLiteral) (octets left) := by
  have hblock : blockComment 0 ("ERROR".toList ++ '*' :: '/' :: ')' :: left) =
      some ("ERROR".toList, ')' :: left) := rfl
  have hsplit : octets lostLiteral = octets ['('] ++
      (octets ('/' :: '*' :: ("ERROR".toList ++ ['*', '/'])) ++ octets [')']) := by
    decide
  have hround {b : Option UInt8} {c : Char} {rest : Octets} (hc : c ∉ ['/', 'r', '"', '\'']) :
      Passes b (octets [c]) rest := passes_octets (List.forall_mem_singleton.mpr hc)
  rw [hsplit]
  refine (hround (by decide)).append (Passes.append ?_ (hround (by decide)))
  rw [← octets_append]
  exact passes_comment (.block hblock) (Bool.eq_false_iff.mpr (mt occursIn_mark.mp (by decide)))

/-- A plain token is passed over. -/
theorem passes_token (hf : TokenForm left text) (hp : isPlain text left = true)
    (hb : text.head? = some 'r' → before.any isNameOctet = false) :
    Passes before (octets text) (octets left) := by
  have hplain := hp
  simp only [isPlain, Bool.and_eq_true, Bool.not_eq_true'] at hplain
  obtain ⟨⟨hends, hloose⟩, -⟩ := hplain
  cases hf with
  | @quoted mark inside w hm hi hw _ =>
    have hfront : mark ++ '"' :: (inside ++ '"' :: w) =
        mark ++ ('"' :: (inside ++ ['"'])) ++ w := by simp
    rw [hfront] at hends ⊢
    refine Passes.word ?_ (by simp) hw.isQuiet hends
    rw [octets_append]
    exact (passes_mark hm).append (passes_string hi)
  | @raw mark hashes inside w hm hh hu hw _ =>
    have hfront : mark ++ 'r' :: (hashes ++ '"' :: (inside ++ '"' :: (hashes ++ w))) =
        mark ++ ('r' :: (hashes ++ '"' :: (inside ++ '"' :: hashes))) ++ w := by simp
    have hopen : Passes before
        (octets (mark ++ ('r' :: (hashes ++ '"' :: (inside ++ '"' :: hashes)))))
        (octets (w ++ left)) := by
      simp only [List.mem_cons, List.not_mem_nil, or_false] at hm
      rcases hm with rfl | rfl | rfl
      · exact passes_raw hh (by simpa using hu) (hb rfl)
      · exact passes_prefixedRaw (.inl rfl) hh (inside_of_isPlain (.inl rfl) hh hw hp)
      · exact passes_prefixedRaw (.inr rfl) hh (inside_of_isPlain (.inr rfl) hh hw hp)
    rw [hfront] at hends ⊢
    exact hopen.word (by simp) hw.isQuiet hends
  | @single mark content w hm hc hw _ =>
    have hfront : mark ++ '\'' :: (content ++ '\'' :: w) =
        mark ++ ('\'' :: (content ++ ['\''])) ++ w := by simp
    have hend : looseEnd? (mark ++ '\'' :: (content ++ '\'' :: w)) =
        looseEnd? ('\'' :: (content ++ '\'' :: w)) := by
      simp only [List.mem_cons, List.not_mem_nil, or_false] at hm
      rcases hm with rfl | rfl <;> rfl
    have hmark : mark ∈ [[], ['b'], ['c']] := List.mem_append_left [['c']] hm
    rw [hend] at hloose
    rw [hfront] at hends ⊢
    refine Passes.word ?_ (by simp) hw.isQuiet hends
    rw [octets_append]
    exact (passes_mark hmark).append (passes_single hc hloose)
  | number hn =>
    obtain ⟨c, w, rfl⟩ := List.exists_cons_of_ne_nil hn.ne_nil
    exact passes_headed hn.quiet (fun hr => absurd (congrArg some hr) hn.head) hends
  | @name front name hn hr =>
    have hmark : Passes before (octets front) (octets (name ++ left)) :=
      passes_rawMark hn.front hn.start hn.word
    rcases hn.front with rfl | rfl
    · obtain ⟨c, rest, rfl, -⟩ := hn.start
      exact passes_headed hn.word.isQuiet (fun hc hw => hr (by rw [hc, hw]; rfl)) hends
    · exact hmark.word (by simp) hn.word.isQuiet hends
  | lifetime hn hsecond => exact passes_lifetime hn hsecond hends
  | quote hslash hquote => exact passes_quote (closesAlone_of hslash hquote)
  | mark hc _ hslash => exact passes_punct hc hslash
  | lost => exact passes_lost

/-! ### Pieces -/

theorem isNameChar_of_isSpace (h : isSpace c = true) : isNameChar c = false := by
  rw [Bool.eq_false_iff]
  intro hc
  have hall : ∀ n < 128, isSpace (Char.ofNat n) = true → isNameChar (Char.ofNat n) = false := by
    decide +kernel
  have := hall c.toNat (isAscii_of_isNameChar hc) (by rwa [Char.ofNat_toNat])
  rw [Char.ofNat_toNat, hc] at this
  cases this

theorem isNameChar_of_isIdentifierContinue (h : CharClass.isIdentifierContinue c = false) :
    isNameChar c = false := by
  rw [Bool.eq_false_iff]
  intro hc
  have hascii : c.toNat < 128 := isAscii_of_isNameChar hc
  rw [CharClass.isIdentifierContinue, if_pos hascii] at h
  exact absurd hc (by rw [isNameChar, h]; decide)

/-- An `r` does not follow a token that ends in the octet of a name. -/
theorem TokenForm.ends (h : TokenForm left text) (hl : left.head? = some 'r') :
    (octets text).getLast?.any isNameOctet = false := by
  have last {c : Char} : (octets [c]).getLast?.any isNameOctet = isNameChar c :=
    any_getLast?_octets [] c
  cases h with
  | quoted _ _ _ ha => exact absurd hl ha
  | raw _ _ _ _ ha => exact absurd hl ha
  | single _ _ _ ha => exact absurd hl ha
  | number hn => exact absurd hl hn.after
  | name hn => exact absurd hl hn.after
  | lifetime hn => exact absurd hl hn.after
  | quote => decide
  | mark _ hc => rw [last, isNameChar_of_isIdentifierContinue hc]
  | lost => decide

theorem CommentForm.ends (h : CommentForm left text) (hl : left.head? = some 'r') :
    (octets text).getLast?.any isNameOctet = false := by
  cases h with
  | line _ ha => rw [hl] at ha; simp at ha
  | @block body =>
    have hlast : '/' :: '*' :: (body ++ ['*', '/']) = '/' :: '*' :: (body ++ ['*']) ++ ['/'] := by
      simp
    rw [hlast, any_getLast?_octets]
    decide

/-- The search takes a plain piece for what it is, and goes on behind it. Before a raw literal it
has to stand behind no name. -/
theorem marks_lexeme {l : Lexeme} (h : lexeme? cs = some (l, left))
    (hp : isPlain l.text left = true) (hb : cs.head? = some 'r' → before.any isNameOctet = false) :
    marks before (octets cs) =
        (l.isComment && occursIn mark (octets l.text) ||
          marks (octets l.text).getLast? (octets left)) ∧
      (left.head? = some 'r' → (octets l.text).getLast?.any isNameOctet = false) := by
  obtain ⟨rfl, hf⟩ := lexeme?_eq_some h
  have passed (hc : l.isComment = false) (hne : l.text ≠ [])
      (hpass : Passes before (octets l.text) (octets left)) :
      marks before (octets (l.text ++ left)) = (l.isComment && occursIn mark (octets l.text) ||
        marks (octets l.text).getLast? (octets left)) := by
    have hsome : (octets l.text).getLast?.isSome = true := by simpa using octets_ne_nil hne
    rw [octets_append, hpass, Option.or_of_isSome hsome, hc, Bool.false_and, Bool.false_or]
  rcases hf with ⟨hc, hf⟩ | ⟨hc, ⟨c, ht, hs⟩ | hf⟩
  · rw [hc, Bool.true_and]
    exact ⟨marks_comment hf, CommentForm.ends hf⟩
  · have hnot : c ∉ ['/', 'r', '"', '\''] := by
      have hall : ∀ d ∈ ['/', 'r', '"', '\''], isSpace d = false :=
        List.all_iff_forall_prop.mp (by decide)
      exact fun hm => by rw [hall c hm] at hs; cases hs
    refine ⟨passed hc (by simp [ht]) ?_, fun _ => ?_⟩
    · rw [ht, octets_cons, octets_nil, List.append_nil]
      exact passes_of_notMem (notMem_startOctets hnot)
    · rw [ht]
      exact (any_getLast?_octets [] c).trans (isNameChar_of_isSpace hs)
  · refine ⟨passed hc hf.ne_nil (passes_token hf hp fun hr => hb ?_), TokenForm.ends hf⟩
    rw [List.head?_append, hr]
    rfl

/-! ### Sources -/

/-- Whether all pieces of a text are plain. -/
def arePlain : List Lexeme → Bool
  | [] => true
  | l :: ls => isPlain l.text (ls.flatMap Lexeme.text) && arePlain ls

/-- The mark is found in a text of plain pieces exactly if one of its comments holds it. -/
theorem marks_lexemesFrom {fuel : Nat} {ls : List Lexeme} (h : lexemesFrom fuel cs = some ls)
    (hp : arePlain ls = true) (hb : cs.head? = some 'r' → before.any isNameOctet = false) :
    marks before (octets cs) = true ↔ ∃ l ∈ ls, l.isComment = true ∧ markChars <:+: l.text := by
  induction fuel generalizing before cs ls with
  | zero =>
    cases cs with
    | nil => cases h; simp
    | cons => cases h
  | succ fuel ih =>
    cases cs with
    | nil => cases h; simp
    | cons c rest =>
      obtain ⟨⟨l, left⟩, hl, h⟩ := Option.bind_eq_some_iff.mp h
      obtain ⟨ls', hls, rfl⟩ := Option.map_eq_some_iff.mp h
      obtain ⟨hplain, hrest⟩ := Bool.and_eq_true_iff.mp hp
      rw [flatMap_text hls] at hplain
      obtain ⟨hm, hr⟩ := marks_lexeme hl hplain hb
      rw [hm, Bool.or_eq_true, Bool.and_eq_true, occursIn_mark, ih hls hrest hr]
      simp

/-- A source behind its byte order mark: a first line for the system that runs it, if there is one,
and the rest. -/
def split (source : String) : Option String × Chars :=
  SourceFile.splitShebang (withoutByteOrderMark source.toList)

/-- The text that is read. -/
def body (source : String) : String := String.ofList (split source).2

/-- The pieces of the text that is read. -/
def lexemes? (source : String) : Option (List Lexeme) :=
  let cs := withoutByteOrderMark (body source).toList
  lexemesFrom cs.length cs

/-- Whether a first line has nothing in it that could start a comment or a literal. -/
def isPlainLine (line : String) : Bool :=
  line.toList.all (fun c => c != '"' && c != '\'') &&
    !decide (['/', '/'] <:+: line.toList) && !decide (['/', '*'] <:+: line.toList)

theorem rawAhead_of_line {line : Chars} (hq : '"' ∉ line) (hl : left.head? ≠ some '"')
    (hh : left.head? ≠ some '#') : rawAhead (line ++ left) = false := by
  induction line with
  | nil =>
    cases left with
    | nil => rfl
    | cons c left =>
      have hc : ¬(c == '#') = true := by simpa using hh
      rw [List.nil_append, rawAhead, List.dropWhile_cons_of_neg (p := (· == '#')) hc]
      simpa using hl
  | cons c line ih =>
    obtain ⟨hc, hline⟩ := not_or.mp (mt List.mem_cons.mpr hq)
    by_cases hhash : c = '#'
    · subst hhash
      exact ih hline
    · have hn : ¬(c == '#') = true := by simpa using hhash
      rw [List.cons_append, rawAhead, List.dropWhile_cons_of_neg (p := (· == '#')) hn]
      simpa using Ne.symm hc

/-- A plain line is passed over up to its end. -/
theorem passes_line {line : Chars} (hq : ∀ c ∈ line, c ≠ '"' ∧ c ≠ '\'')
    (hs : ¬['/', '/'] <:+: line) (hb : ¬['/', '*'] <:+: line)
    (hl : left.head? = none ∨ left.head? = some '\n') :
    Passes before (octets line) (octets left) := by
  have hend {d : Char} (hd : d ≠ '\n') : left.head? ≠ some d := fun he => by
    rw [he] at hl
    rcases hl with hl | hl
    · cases hl
    · exact hd (Option.some.inj hl)
  induction line generalizing before with
  | nil => exact .nil
  | cons c line ih =>
    obtain ⟨⟨hdouble, hsingle⟩, hline⟩ := List.forall_mem_cons.mp hq
    have hrest {b : Option UInt8} : Passes b (octets line) (octets left) :=
      ih hline (fun h => hs (List.infix_cons h)) (fun h => hb (List.infix_cons h))
    rw [octets_cons]
    refine Passes.append ?_ hrest
    by_cases hr : c = 'r'
    · subst hr
      have hstart : startsRaw before (0x72 :: (octets line ++ octets left)) = false := by
        rw [← octets_append, startsRaw_octets, rawAhead_of_line
          (fun hm => (hline _ hm).1 rfl) (hend (by decide)) (hend (by decide)), Bool.and_false]
      exact .of_extent (extent_r hstart) (List.cons_ne_nil _ _)
    by_cases hslash : c = '/'
    · subst hslash
      -- a slash or an asterisk behind it would start a comment
      have hnext {d : Char} (hd : d ≠ '\n') (hn : ¬['/', d] <:+: '/' :: line) :
          (line ++ left).head? ≠ some d := by
        cases line with
        | nil => exact hend hd
        | cons e line =>
          intro he
          obtain rfl := Option.some.inj he
          exact hn (List.prefix_append ['/', e] line).isInfix
      rw [← octets_append]
      exact .of_extent (extent_slash (head?_octets (a := '/') (by decide) (hnext (by decide) hs))
        (head?_octets (a := '*') (by decide) (hnext (by decide) hb))) (List.cons_ne_nil _ _)
    · refine passes_of_notMem (notMem_startOctets ?_)
      simp [hr, hslash, hdouble, hsingle]

/-- A byte order mark is passed over. -/
theorem marks_withoutByteOrderMark (hb : before.any isNameOctet = false) :
    ∃ b : Option UInt8, b.any isNameOctet = false ∧
      marks before (octets cs) = marks b (octets (withoutByteOrderMark cs)) := by
  unfold withoutByteOrderMark
  split
  next rest =>
    have hpass : Passes before (octets ['\uFEFF']) (octets rest) :=
      passes_octets (List.forall_mem_singleton.mpr (by decide))
    refine ⟨some 0xBF, by decide, ?_⟩
    have hcons : octets ('\uFEFF' :: rest) = octets ['\uFEFF'] ++ octets rest :=
      octets_append ['\uFEFF'] rest
    rw [hcons, hpass]
    rfl
  next => exact ⟨before, hb, rfl⟩

theorem splitShebang_eq (cs : Chars) : SourceFile.splitShebang cs = (none, cs) ∨
    ∃ line rest, SourceFile.splitShebang cs = (some (String.ofList line), rest) ∧
      cs = line ++ rest ∧ (rest.head? = none ∨ rest.head? = some '\n') := by
  unfold SourceFile.splitShebang
  split
  next rest =>
    split
    · exact .inl rfl
    · refine .inr ⟨_, _, rfl, (List.takeWhile_append_dropWhile ..).symm, ?_⟩
      cases hd : ('#' :: '!' :: rest).dropWhile (· != '\n') with
      | nil => exact .inl rfl
      | cons c cs =>
        have hc := List.head?_dropWhile_not (· != '\n') ('#' :: '!' :: rest)
        rw [hd] at hc
        exact .inr (by simpa using hc)
  next => exact .inl rfl

/-- The search gets to the text that is read. -/
theorem marks_body {source : String} (hp : (split source).1.all isPlainLine = true) :
    ∃ b : Option UInt8, marks none (octets source.toList) =
        marks b (octets (withoutByteOrderMark (body source).toList)) ∧
      ((withoutByteOrderMark (body source).toList).head? = some 'r' →
        b.any isNameOctet = false) := by
  obtain ⟨b, hb, hm⟩ : ∃ b : Option UInt8, b.any isNameOctet = false ∧
      marks none (octets source.toList) = marks b _ := marks_withoutByteOrderMark rfl
  rw [body, String.toList_ofList, hm]
  unfold split at hp ⊢
  rcases splitShebang_eq (withoutByteOrderMark source.toList) with he | ⟨line, rest, he, ht, hr⟩
  · rw [he]
    obtain ⟨b', hb', hm'⟩ : ∃ b' : Option UInt8, b'.any isNameOctet = false ∧
        marks b (octets (withoutByteOrderMark source.toList)) = marks b' _ :=
      marks_withoutByteOrderMark hb
    exact ⟨b', hm', fun _ => hb'⟩
  · rw [he] at hp ⊢
    have hrest : withoutByteOrderMark rest = rest := by
      unfold withoutByteOrderMark
      split
      · simp at hr
      · rfl
    simp only [Option.all_some, isPlainLine, String.toList_ofList, Bool.and_eq_true,
      List.all_eq_true, bne_iff_ne, Bool.not_eq_true', decide_eq_false_iff_not] at hp
    obtain ⟨⟨hq, hs⟩, hblock⟩ := hp
    have hpass : Passes b (octets line) (octets rest) := passes_line hq hs hblock hr
    dsimp only
    rw [hrest]
    refine ⟨(octets line).getLast?.or b, ?_, fun h => ?_⟩
    · rw [ht, octets_append, hpass]
    · rw [h] at hr
      simp at hr

/-- A source that lexes is made up of tokens, comments and blanks, and its tokens are those that
the lexer gives. If all these pieces are plain, and so is a first line for the system, then the
source is ignored exactly if one of its comments holds the mark. -/
theorem isIn_iff_comment {source : String} {ts : List Token}
    (h : tokens? (body source) = some ts) : ∃ ls, lexemes? source = some ls ∧
      ls.flatMap Lexeme.text = withoutByteOrderMark (body source).toList ∧
      ls.flatMap Lexeme.tokens = ts ∧
      ((split source).1.all isPlainLine = true → arePlain ls = true →
        (isIn source = true ↔ ∃ l ∈ ls, l.isComment = true ∧ markChars <:+: l.text)) := by
  obtain ⟨ls, hls, hts⟩ := exists_lexemes h le_rfl
  refine ⟨ls, hls, flatMap_text hls, hts, fun hline hplain => ?_⟩
  obtain ⟨b, hm, hb⟩ := marks_body hline
  rw [isIn_eq, hm]
  exact marks_lexemesFrom hls hplain hb

/-- A mark in a raw string, a quote between quotes, and a comment with the mark. -/
def quotedSource : String :=
  "const S: (&str, char) = (r#\"// marlow:ignore\"#, '\"'); // marlow:ignore"

theorem isIn_iff_comment_quoted : ∃ ts, tokens? (body quotedSource) = some ts ∧
    isIn quotedSource = true := by
  have hlexes : (tokens? (body quotedSource)).isSome = true := by decide +kernel
  have hpieces : ((lexemes? quotedSource).any fun ls => arePlain ls &&
      ls.any fun l => l.isComment && decide (markChars <:+: l.text)) = true := by
    decide +kernel
  obtain ⟨ts, hts⟩ := Option.isSome_iff_exists.mp hlexes
  obtain ⟨ls, hls, -, -, hiff⟩ := isIn_iff_comment hts
  rw [hls, Option.any_some, Bool.and_eq_true, List.any_eq_true] at hpieces
  obtain ⟨hplain, l, hl, hmark⟩ := hpieces
  have hcomment : l.isComment = true ∧ markChars <:+: l.text := by simpa using hmark
  exact ⟨ts, hts, (hiff (by decide +kernel) hplain).mpr ⟨l, hl, hcomment⟩⟩

/-- A raw literal of octets that ends in a backslash, and a comment with the mark. -/
def backslashSource : String := "const A: &[u8] = br\"\\\"; // marlow:ignore"

theorem not_isIn_of_comment : ∃ ts ls, tokens? (body backslashSource) = some ts ∧
    lexemes? backslashSource = some ls ∧
    (∃ l ∈ ls, l.isComment = true ∧ markChars <:+: l.text) ∧ isIn backslashSource = false := by
  have hlexes : (tokens? (body backslashSource)).isSome = true := by decide +kernel
  have hpieces : ((lexemes? backslashSource).any fun ls =>
      ls.any fun l => l.isComment && decide (markChars <:+: l.text)) = true := by
    decide +kernel
  obtain ⟨ts, hts⟩ := Option.isSome_iff_exists.mp hlexes
  obtain ⟨ls, hls, hmark⟩ := (Option.any_eq_true _ _).mp hpieces
  obtain ⟨l, hl, hmark⟩ := List.any_eq_true.mp hmark
  exact ⟨ts, ls, hts, hls, ⟨l, hl, by simpa using hmark⟩, by decide +kernel⟩

end RecordStore.IgnoreMark
