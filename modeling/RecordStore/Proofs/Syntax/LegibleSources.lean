import Mathlib.Data.List.Infix
import RecordStore.Proofs.Syntax.Legible
import RecordStore.Proofs.Syntax.Literals

/-!
What the lexer reads is legible as far as a reader gets: its tokens lead from the groups that are
open at the start to the end of all groups.
-/
namespace RecordStore

namespace Lexer

open CharClass

variable {cs left rest : Chars} {groups : List Delimiter} {ts : List Token} {t u : Token} {c : Char}

/-! ### Tokens of a text -/

theorem text_ne_nil_of_token? (h : token? cs = some (t, left)) : t.text.toList ≠ [] := by
  intro ht
  have hl := length_of_token? h
  have hs := text_of_token? h
  rw [ht, List.nil_append] at hs
  rw [hs] at hl
  exact Nat.lt_irrefl _ hl

theorem head?_of_token? (h : token? (c :: rest) = some (t, left)) :
    t.text.toList.head? = some c := by
  obtain ⟨d, text, ht⟩ := List.exists_cons_of_ne_nil (text_ne_nil_of_token? h)
  have hs := text_of_token? h
  rw [ht] at hs ⊢
  rw [(List.cons.inj hs).1]
  rfl

/-- A rule for marks finds a single quote in front of a literal, or a mark that is no quote. -/
theorem punct?_eq_some (h : punct? cs = some (t, left)) :
    (t = .punct '\'' true ∧ cs = '\'' :: left ∧ lifetime? left = some (.punct '\'' true, left)) ∨
      (∃ n rest, t = .lifetime n ∧ lifetime? rest = some (.lifetime n, left)) ∨
      ∃ m, m ≠ '\'' ∧ isMark m = true ∧ t = .punct m (markAhead left) := by
  unfold punct? at h
  split at h
  · cases h
  · have hl := h
    obtain ⟨x, -, h⟩ := Option.bind_eq_some_iff.mp h
    dsimp only at h
    split at h
    · cases h
    · split at h <;> cases h
      · exact .inl ⟨rfl, rfl, hl⟩
      · exact .inr (.inl ⟨_, _, rfl, hl⟩)
  next m rest hm =>
    split at h <;> cases h
    next ha => exact .inr (.inr ⟨m, hm, isMark_of_markAhead ha, rfl⟩)

theorem leaf?_of_token? (h : token? cs = some (t, left)) :
    t = .literal (String.ofList lostLiteral) ∨ (∃ d, t = .opening d) ∨ (∃ d, t = .closing d) ∨
      leaf? cs = some (t, left) := by
  unfold token? at h
  split at h
  · cases h
  split at h
  · cases h
    exact .inl rfl
  · cases h
    exact .inr (.inl ⟨_, rfl⟩)
  · cases h
    exact .inr (.inr (.inl ⟨_, rfl⟩))
  · exact .inr (.inr (.inr h))

theorem punct?_of_leaf? {m : Char} {joint : Bool} (h : leaf? cs = some (.punct m joint, left)) :
    punct? cs = some (.punct m joint, left) := by
  unfold leaf? at h
  split at h
  · cases h
  split at h
  next hp => rw [hp, h]
  split at h
  · cases h
  · obtain ⟨x, -, hx⟩ := Option.map_eq_some_iff.mp h
    cases hx

theorem stands_of_token? (h : token? (c :: rest) = some (t, left)) (hs : isSpace c = false) :
    t.Stands := by
  have hleaf (hl : leaf? t.text.toList = some (t, [])) :
      t = .literal (String.ofList lostLiteral) ∨
        t.text.toList.head?.any isSpace = false ∧ leaf? t.text.toList = some (t, []) := by
    refine .inr ⟨?_, hl⟩
    rw [head?_of_token? h]
    exact hs
  rcases leaf?_of_token? h with rfl | ⟨d, rfl⟩ | ⟨d, rfl⟩ | hl
  · exact .inl rfl
  · trivial
  · trivial
  cases t with
  | punct m joint =>
    rcases punct?_eq_some (punct?_of_leaf? hl) with ⟨ht, -⟩ | ⟨n, cs, hn, -⟩ | ⟨d, hd, hm, ht⟩
    · cases ht
      exact ⟨by decide, fun _ => rfl⟩
    · cases hn
    · cases ht
      exact ⟨hm, fun he => absurd he hd⟩
  | ident n => exact hleaf (ident_text hl)
  | lifetime n =>
    have hp : punct? (c :: rest) = some (.lifetime n, left) := by
      unfold leaf? at hl
      split at hl
      · cases hl
      split at hl
      next hp => rw [hp, hl]
      split at hl
      · cases hl
      · obtain ⟨x, -, hx⟩ := Option.map_eq_some_iff.mp hl
        cases hx
    rcases punct?_eq_some hp with ⟨ht, -⟩ | ⟨m, cs, hm, ht⟩ | ⟨d, hd, hm, ht⟩
    · cases ht
    · cases hm
      exact hleaf (lifetime?_text ht)
    · cases ht
  | literal s => exact hleaf (literal_text hl)
  | opening d => trivial
  | closing d => trivial


/-- Texts of literals in front of which a single quote stands alone. -/
def quoteMarks : List Chars := [['r'], ['b'], ['b', 'r'], ['c'], ['c', 'r']]

theorem lifetime?_mark {mark : Chars} (hm : mark ∈ quoteMarks) (rest : Chars) :
    lifetime? (mark ++ '"' :: rest) = some (.punct '\'' true, mark ++ '"' :: rest) := by
  have hcases : mark = ['r'] ∨ mark = ['b'] ∨ mark = ['b', 'r'] ∨ mark = ['c'] ∨
      mark = ['c', 'r'] := by simpa [quoteMarks] using hm
  rcases hcases with rfl | rfl | rfl | rfl | rfl <;> rfl

theorem exists_mark_of_lifetime? (h : lifetime? cs = some (.punct '\'' true, left)) :
    left = cs ∧ literalStart cs = true ∧ ∃ mark ∈ quoteMarks, ∃ rest, cs = mark ++ '"' :: rest := by
  obtain ⟨⟨i, l⟩, hi, h⟩ := Option.bind_eq_some_iff.mp h
  dsimp only at h
  split at h
  · cases h
  next hclosed =>
    split at h
    next hstart =>
      cases h
      refine ⟨rfl, hstart, ?_⟩
      obtain ⟨w, hw, hp⟩ := List.any_eq_true.mp hstart
      obtain ⟨rest, rfl⟩ := List.isPrefixOf_iff_prefix.mp hp
      have hraw (body : Chars) : identifier? ('r' :: '#' :: '"' :: body) = none := rfl
      have hhash (body : Chars) : identifier? ('r' :: '#' :: '#' :: body) = none := rfl
      simp only [List.mem_cons, List.not_mem_nil, or_false] at hw
      rcases hw with rfl | rfl | rfl | rfl | rfl | rfl | rfl | rfl | rfl | rfl
      · exact ⟨['r'], by decide, rest, rfl⟩
      · cases (hraw rest).symm.trans hi
      · cases (hhash rest).symm.trans hi
      · exact ⟨['b'], by decide, rest, rfl⟩
      · have hb : identifier? ('b' :: '\'' :: rest) = some (['b'], '\'' :: rest) := rfl
        cases hb.symm.trans hi
        exact absurd rfl hclosed
      · exact ⟨['b', 'r'], by decide, rest, rfl⟩
      · have hb : identifier? ('b' :: 'r' :: '#' :: rest) = some (['b', 'r'], '#' :: rest) := rfl
        cases hb.symm.trans hi
        exact absurd rfl hclosed
      · exact ⟨['c'], by decide, rest, rfl⟩
      · exact ⟨['c', 'r'], by decide, rest, rfl⟩
      · have hc : identifier? ('c' :: 'r' :: '#' :: rest) = some (['c', 'r'], '#' :: rest) := rfl
        cases hc.symm.trans hi
        exact absurd rfl hclosed
    next => cases h

/-- Such a text is read as a literal, in front of which the quote still stands alone. -/
theorem token?_mark {mark : Chars} (hm : mark ∈ quoteMarks)
    (hs : literalStart (mark ++ '"' :: rest) = true)
    (h : token? (mark ++ '"' :: rest) = some (t, left)) :
    Token.admits (.punct '\'' true) t = true := by
  have hhead : ∀ mark ∈ quoteMarks, ∃ c tail, mark = c :: tail ∧ isIdentifierStart c = true ∧
      c ∉ "()[]\x7b\x7d".toList := by
    simp only [quoteMarks, List.mem_cons, List.not_mem_nil, or_false]
    rintro mark (rfl | rfl | rfl | rfl | rfl) <;> exact ⟨_, _, rfl, by decide, by decide⟩
  have hfront : ∀ mark ∈ quoteMarks, ∀ text ∈ (mark ++ ['"']).inits, literal? text = none := by
    decide +kernel
  obtain ⟨c, tail, hc, hstart, hd⟩ := hhead mark hm
  rw [hc, List.cons_append, token?_eq_leaf? hd, leaf?] at h
  rw [hc, List.cons_append] at hs
  cases hl : literal? (c :: (tail ++ '"' :: rest)) with
  | none =>
    rw [hl, punct?_of_start hstart, hs] at h
    cases h
  | some x =>
    obtain ⟨text, l⟩ := x
    rw [hl] at h
    cases h
    refine decide_eq_true ?_
    rw [String.toList_ofList]
    have hself := literal?_text hl
    have happ : text ++ left = (mark ++ ['"']) ++ rest := by
      rw [(literal?_hasForm hl).2, hc]
      simp
    rcases List.append_eq_append_iff.mp happ with ⟨a, ha, -⟩ | ⟨a, rfl, -⟩
    · rw [hfront mark hm text ((List.mem_inits _ _).mpr ⟨a, ha.symm⟩)] at hself
      cases hself
    · rw [List.append_assoc, List.singleton_append]
      exact lifetime?_mark hm a

/-- What follows a token that awaits something does not change it. -/
theorem exists_admitted (hc : comment? cs = none) (ht : token? cs = some (t, left))
    (ha : t.awaits = true) (h : lex groups left = some ts) :
    ∃ u us, ts = u :: us ∧ t.admits u = true := by
  cases t with
  | punct m joint =>
    have hp : punct? cs = some (.punct m joint, left) := by
      rcases leaf?_of_token? ht with he | ⟨d, he⟩ | ⟨d, he⟩ | hl
      · cases he
      · cases he
      · cases he
      · exact punct?_of_leaf? hl
    have hstep {c : Char} {rest : Chars} (hl : left = c :: rest)
        (hc : comment? left = none) (hs : isSpace c = false) :
        ∃ x us, token? left = some x ∧ ts = x.1 :: us := by
      rw [hl] at h hc ⊢
      rw [lex_token hc hs] at h
      obtain ⟨x, hx, h⟩ := Option.bind_eq_some_iff.mp h
      obtain ⟨s, -, h⟩ := Option.bind_eq_some_iff.mp h
      obtain ⟨us, -, rfl⟩ := Option.map_eq_some_iff.mp h
      exact ⟨x, us, hx, rfl⟩
    rcases punct?_eq_some hp with ⟨he, rfl, hq⟩ | ⟨n, rest, he, -⟩ | ⟨d, hd, hm, he⟩
    · cases he
      obtain ⟨-, hstart, mark, hmark, rest, rfl⟩ := exists_mark_of_lifetime? hq
      have hhead : ∃ c tail, mark = c :: tail ∧ c ≠ '/' ∧ isSpace c = false := by
        simp only [quoteMarks, List.mem_cons, List.not_mem_nil, or_false] at hmark
        rcases hmark with rfl | rfl | rfl | rfl | rfl <;> exact ⟨_, _, rfl, by decide, by decide⟩
      obtain ⟨c, tail, hmc, hslash, hspace⟩ := hhead
      have hcomment : comment? (mark ++ '"' :: rest) = none := by
        rw [hmc, comment?_eq_none_iff]
        exact fun l =>
          ⟨fun he => hslash (List.cons.inj he).1, fun he => hslash (List.cons.inj he).1⟩
      obtain ⟨⟨u, l⟩, us, hx, rfl⟩ := hstep (by rw [hmc]; rfl) hcomment hspace
      exact ⟨u, us, rfl, token?_mark hmark hstart hx⟩
    · cases he
    · cases he
      have hslash : m = '/' ∧ markAhead left = true := by simpa [Token.awaits, hd] using ha
      obtain ⟨rfl, hahead⟩ := hslash
      cases left with
      | nil => cases hahead
      | cons c rest =>
        have hcm := isMark_of_markAhead hahead
        obtain ⟨⟨u, l⟩, us, hx, rfl⟩ := hstep rfl (comment?_of_markAhead hahead)
          (isSpace_of_isMark hcm)
        refine ⟨u, us, rfl, ?_⟩
        have htext : cs = '/' :: c :: rest := by
          rw [← text_of_token? ht]
          simp [Token.text]
        rw [htext, comment?_eq_none_iff] at hc
        have hne : c ≠ '/' ∧ c ≠ '*' :=
          ⟨fun he => (hc rest).1 (by rw [he]), fun he => (hc rest).2 (by rw [he])⟩
        rw [Token.admits, head?_of_token? hx]
        · simp [hcm, hne]
        · simp
        · simp
  | _ => cases ha

theorem isPlain_quote (text : String) : (Token.literal (Literal.quote text)).isPlain = true := by
  have hs : (Token.literal (Literal.quote text)).Stands := by
    refine .inr ⟨?_, leaf?_quote text⟩
    have ht : (Token.literal (Literal.quote text)).text.toList.head? = some '"' := by
      simp [Token.text, Literal.quote]
    rw [ht]
    decide
  simpa [Token.isPlain, Token.awaits] using hs

theorem isPlain_number {cs : Chars} (h : ∀ c ∈ cs, c.isDigit = true) (hne : cs ≠ []) :
    (Token.literal (String.ofList cs)).isPlain = true := by
  have hs : (Token.literal (String.ofList cs)).Stands := by
    obtain ⟨c, rest, rfl⟩ := List.exists_cons_of_ne_nil hne
    obtain ⟨m, hm, rfl⟩ := exists_digitChar (h c List.mem_cons_self)
    have hall : ∀ m < 10, isSpace (Nat.digitChar m) = false := by decide
    exact .inr ⟨by simp [Token.text, hall m hm], by simpa [Token.text] using leaf?_digits h hne⟩
  simpa [Token.isPlain, Token.awaits] using hs

theorem isPlain_decimal (n : Nat) : (Token.literal (toString n)).isPlain = true := by
  have hd : (toString n).toList = Nat.toDigits 10 n := Nat.toList_repr
  rw [← String.ofList_toList (s := toString n), hd]
  exact isPlain_number (fun c hc => Nat.isDigit_of_mem_toDigits (by decide) (by decide) hc)
    Nat.toDigits_ne_nil

theorem isLegible_documentation (d : DocComment) : Code.IsLegible d.tokens := by
  have hmark (inner : Bool) : Code.IsLegible
      (.punct '#' false :: if inner then [Token.punct '!' false] else []) := by
    cases inner <;> exact .of_all (by decide)
  have hdoc : Code.IsLegible [.ident "doc", .punct '=' false] := .of_all (by decide +kernel)
  have htext := Code.isLegible_singleton (isPlain_quote (String.ofList d.text))
  exact (hmark d.inner).append ((hdoc.append htext).group .bracket)

/-- What a lexer reads leads from the groups that are open to the end of all groups. -/
theorem lead_of_lex (h : lex groups cs = some ts) :
    Code.lead ⟨none, groups⟩ ts = some ⟨none, []⟩ := by
  induction hn : cs.length using Nat.strongRecOn generalizing cs groups ts with
  | ind n ih =>
    subst hn
    cases cs with
    | nil =>
      rw [lex_nil] at h
      split at h
      next hg =>
        cases h
        rw [List.isEmpty_iff.mp hg]
        rfl
      next => cases h
    | cons c rest =>
      cases hc : comment? (c :: rest) with
      | some cm =>
        cases cm with
        | ordinary left =>
          rw [lex_ordinary hc] at h
          exact ih _ (length_of_comment? hc rfl) h rfl
        | documentation d left =>
          rw [lex_documentation hc] at h
          split at h
          next hd =>
            obtain ⟨us, hus, rfl⟩ := Option.map_eq_some_iff.mp h
            rw [Code.lead_append, isLegible_documentation d, Option.bind_some]
            exact ih _ (length_of_comment? hc rfl) hus rfl
          next => cases h
        | unclosed =>
          rw [lex_unclosed hc] at h
          cases h
      | none =>
        cases hs : isSpace c with
        | true =>
          rw [lex_space hc hs] at h
          exact ih _ (Nat.lt_succ_self _) h rfl
        | false =>
          rw [lex_token hc hs] at h
          obtain ⟨⟨t, left⟩, hx, h⟩ := Option.bind_eq_some_iff.mp h
          obtain ⟨s, hadv, h⟩ := Option.bind_eq_some_iff.mp h
          obtain ⟨us, hus, rfl⟩ := Option.map_eq_some_iff.mp h
          have hrest := ih _ (length_of_token? hx) hus rfl
          have hnext : Place.next ⟨none, groups⟩ t =
              some ⟨if t.awaits then some t else none, s⟩ := by
            rw [Place.next, if_pos ⟨stands_of_token? hx hs, rfl⟩, hadv]
            rfl
          rw [Code.lead_cons, hnext, Option.bind_some]
          cases ha : t.awaits with
          | false => exact hrest
          | true =>
            obtain ⟨u, us, rfl, hu⟩ := exists_admitted hc hx ha hus
            rw [Code.lead_cons] at hrest ⊢
            rw [if_pos rfl, Code.next_awaiting hu]
            exact hrest

end Lexer
end RecordStore
