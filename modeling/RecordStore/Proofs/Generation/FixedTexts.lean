import Mathlib.Data.List.TakeWhile
import RecordStore.Generation.Blueprint
import RecordStore.Proofs.Syntax.LegibleReading

/-!
Fixed texts, words and lines that code is written with. Code from a text keeps the blanks between
marks but not which marks are joint, so a text is safe if no mark in it awaits what follows: without
slashes, and without single quotes in front of double ones.
-/
namespace RecordStore

open Lexer CharClass

/-! ### Fixed texts -/

namespace Lexer

variable {cs : Chars} {groups : List Delimiter} {ts : List Token}

/-- In a text without slashes there are no comments: every token is read somewhere in it. -/
theorem exists_of_mem_lex {t : Token} (h : lex groups cs = some ts) (hs : '/' ∉ cs) (ht : t ∈ ts) :
    ∃ tail left, tail <:+ cs ∧ token? tail = some (t, left) := by
  induction hn : cs.length using Nat.strongRecOn generalizing cs groups ts with
  | ind n ih =>
    subst hn
    cases cs with
    | nil =>
      rw [lex_nil] at h
      split at h <;> cases h
      cases ht
    | cons d rest =>
      have hcomment : comment? (d :: rest) = none := by
        rw [comment?_eq_none_iff]
        exact fun l => ⟨fun he => hs (by simp [he]), fun he => hs (by simp [he])⟩
      cases hspace : isSpace d with
      | true =>
        rw [lex_space hcomment hspace] at h
        obtain ⟨tail, left, htail, hx⟩ := ih _ (Nat.lt_succ_self _) h
          (fun he => hs (List.mem_cons_of_mem d he)) ht rfl
        exact ⟨tail, left, htail.trans (List.suffix_cons d rest), hx⟩
      | false =>
        rw [lex_token hcomment hspace] at h
        obtain ⟨⟨u, left⟩, hx, h⟩ := Option.bind_eq_some_iff.mp h
        obtain ⟨s, -, h⟩ := Option.bind_eq_some_iff.mp h
        obtain ⟨us, hus, rfl⟩ := Option.map_eq_some_iff.mp h
        have hleft : left <:+ d :: rest := ⟨_, text_of_token? hx⟩
        rcases List.mem_cons.mp ht with rfl | ht
        · exact ⟨_, left, List.suffix_rfl, hx⟩
        · obtain ⟨tail, left', htail, hx'⟩ := ih _ (length_of_token? hx) hus
            (fun he => hs (hleft.mem he)) ht rfl
          exact ⟨tail, left', htail.trans hleft, hx'⟩

/-- A single quote is only a mark in front of a double one. -/
theorem mem_of_token?_quote {tail left : Chars} {joint : Bool}
    (h : token? tail = some (.punct '\'' joint, left)) : '\'' ∈ tail ∧ '"' ∈ tail := by
  have htext := text_of_token? h
  have hp : punct? tail = some (.punct '\'' joint, left) := by
    rcases leaf?_of_token? h with he | ⟨d, he⟩ | ⟨d, he⟩ | hl
    · cases he
    · cases he
    · cases he
    · exact punct?_of_leaf? hl
  have hq : '"' ∈ left := by
    rcases punct?_eq_some hp with ⟨-, -, hq⟩ | ⟨n, rest, he, -⟩ | ⟨d, hd, -, he⟩
    · obtain ⟨-, -, mark, -, rest, rfl⟩ := exists_mark_of_lifetime? hq
      simp
    · cases he
    · cases he
      exact absurd rfl hd
  rw [← htext]
  exact ⟨List.mem_append_left _ (by simp [Token.text]), List.mem_append_right _ hq⟩

end Lexer

/-- A text without comments, and in which no single quote is a mark: none of its marks awaits
anything. -/
structure IsQuiet (s : String) : Prop where
  slash : '/' ∉ s.toList
  quote : '\'' ∉ s.toList ∨ '"' ∉ s.toList

/-- The characters of a text that is written out. -/
theorem IsQuiet.of_chars {s : String} {cs : List Char} (hs : s = String.ofList cs)
    (h : (cs.all (· != '/') && (cs.all (· != '\'') || cs.all (· != '"'))) = true) : IsQuiet s := by
  subst hs
  have hall {c : Char} (h : cs.all (· != c) = true) : c ∉ (String.ofList cs).toList := by
    rw [String.toList_ofList]
    exact fun hc => absurd (List.all_eq_true.mp h c hc) (by simp)
  obtain ⟨hslash, hquote⟩ := Bool.and_eq_true_iff.mp h
  exact ⟨hall hslash, (Bool.or_eq_true_iff.mp hquote).imp hall hall⟩

namespace Code

variable {a b c : Code} {groups : List Delimiter} {s : String}

theorem lead_respace {p : Place} (h : lead ⟨none, groups⟩ c = some p)
    (hc : ∀ m joint, .punct m joint ∈ c → m ≠ '/' ∧ m ≠ '\'') (inside : Nat) :
    lead ⟨none, groups⟩ (respace inside c) = some p := by
  induction c generalizing groups inside with
  | nil => exact h
  | cons t c ih =>
    rw [lead_cons] at h
    obtain ⟨q, hq, h⟩ := Option.bind_eq_some_iff.mp h
    have hrest : ∀ m joint, .punct m joint ∈ c → m ≠ '/' ∧ m ≠ '\'' :=
      fun m joint hm => hc m joint (List.mem_cons_of_mem t hm)
    cases t with
    | punct m joint =>
      obtain ⟨hslash, hquote⟩ := hc m joint List.mem_cons_self
      have hawait (joint : Bool) : (Token.punct m joint).awaits = false := by
        simp [Token.awaits, hslash, hquote]
      have hadvance (joint : Bool) : Lexer.advance groups (.punct m joint) = some groups := by
        cases groups <;> rfl
      obtain ⟨⟨⟨hm, -⟩, -⟩, groups', hg, rfl⟩ := next_eq_some.mp hq
      rw [hadvance] at hg
      cases hg
      rw [hawait] at h
      have hstands (joint : Bool) : (Token.punct m joint).Stands :=
        ⟨hm, fun he => absurd he hquote⟩
      rw [respace, lead_cons, next_of_stands (hstands _) (hawait _), hadvance]
      exact ih h hrest _
    | opening d =>
      rw [respace, lead_cons, hq, Option.bind_some]
      · obtain ⟨-, groups', -, rfl⟩ := next_eq_some.mp hq
        exact ih h hrest _
      · simp
    | closing d =>
      rw [respace, lead_cons, hq, Option.bind_some]
      · obtain ⟨-, groups', -, rfl⟩ := next_eq_some.mp hq
        exact ih h hrest _
      · simp
    | _ =>
      rw [respace, lead_cons, hq, Option.bind_some]
      · obtain ⟨-, groups', -, rfl⟩ := next_eq_some.mp hq
        exact ih h hrest _
      · simp

theorem isLegible_ofText (h : IsQuiet s) : (ofText s).IsLegible := by
  unfold ofText
  cases ht : tokens? s with
  | none => exact .nil
  | some ts =>
    have hl := isLegible_of_tokens? ht
    refine fun groups => lead_respace (hl groups) ?_ 0
    rw [tokens?_eq] at ht
    have hsub : ∀ c ∈ withoutByteOrderMark s.toList, c ∈ s.toList := by
      unfold withoutByteOrderMark
      split
      next rest he => exact fun c hc => he ▸ List.mem_cons_of_mem _ hc
      next => exact fun c hc => hc
    intro m joint hm
    obtain ⟨tail, left, htail, hx⟩ := exists_of_mem_lex ht (fun hc => h.slash (hsub _ hc)) hm
    have hmem {c : Char} (hc : c ∈ tail) : c ∈ s.toList := hsub c (htail.mem hc)
    constructor <;> rintro rfl
    · refine h.slash (hmem ?_)
      rw [← text_of_token? hx]
      exact List.mem_append_left _ (by simp [Token.text])
    · obtain ⟨hq, hd⟩ := mem_of_token?_quote hx
      exact h.quote.elim (fun h => h (hmem hq)) fun h => h (hmem hd)

end Code

/-! ### Words -/

namespace Lexer

variable {w : Chars}

/-- A word that starts as a name does, and as no literal, is an identifier. -/
theorem isPlain_word {c : Char} {rest : Chars} (hc : isIdentifierStart c = true) (hr : IsWord rest)
    (hl : literalStart (c :: rest) = false) (hraw : after? ['r', '#'] (c :: rest) = none)
    (hs : isSpace c = false) : (Token.ident (String.ofList (c :: rest))).isPlain = true := by
  have hn : name? (c :: rest) = some (c :: rest, []) := by
    simp [name?, hc, List.takeWhile_eq_self_iff.mpr hr, List.dropWhile_eq_nil_iff.mpr hr]
  have hi : identifier? (c :: rest) = some (c :: rest, []) := by rw [identifier?, hraw, hn]
  have hleaf : leaf? (c :: rest) = some (.ident (String.ofList (c :: rest)), []) := by
    rw [leaf?, literal?_eq_none_of_name hc hl, punct?_of_start hc, hl, hi]
    rfl
  have hst : (Token.ident (String.ofList (c :: rest))).Stands :=
    .inr ⟨by simp [Token.text, hs], by simpa [Token.text] using hleaf⟩
  simpa [Token.isPlain, Token.awaits] using hst

/-- What follows the mark of a raw name, or the name itself if it has none. -/
theorem isWord_of_legible {n : String} (h : Legible n) :
    (∃ w, n.toList = 'r' :: '#' :: w ∧ IsWord w) ∨ IsWord n.toList := by
  have hs : Token.Stands (.ident n) :=
    Code.Remains.stands (c := []) ⟨[], h.isLegible []⟩
  rcases hs with hs | ⟨-, hl⟩
  · cases hs
  have hl : leaf? n.toList = some (.ident n, []) := hl
  unfold leaf? at hl
  split at hl
  · cases hl
  split at hl
  next hp =>
    cases hl
    exact absurd hp punct?_ne_ident
  split at hl
  · cases hl
  · obtain ⟨⟨i, l⟩, hi, he⟩ := Option.map_eq_some_iff.mp hl
    cases he
    obtain ⟨front, name, rfl, hn, -⟩ := identifier?_isName hi
    rw [String.toList_ofList]
    rcases hn.front with rfl | rfl
    · exact .inr hn.word
    · exact .inl ⟨name, rfl, hn.word⟩

end Lexer

/-- A slot's method is named by an identifier if the slot is. -/
instance BlueprintCode.legible_clauseMethod {slot : String} [h : Legible slot] :
    Legible (clauseMethod slot) := by
  have hclause {w : Chars} (hw : IsWord w) : Legible ("clause_" ++ String.ofList w) := by
    have hp : (Token.ident (String.ofList ('c' :: ("lause_".toList ++ w)))).isPlain = true :=
      isPlain_word (by decide +kernel)
        (List.forall_mem_append.mpr ⟨List.all_eq_true.mp (by decide +kernel), hw⟩)
        rfl rfl (by decide)
    have he : "clause_" ++ String.ofList w = String.ofList ('c' :: ("lause_".toList ++ w)) := by
      simp [← String.toList_inj]
    exact ⟨he ▸ Code.isLegible_singleton hp⟩
  unfold clauseMethod
  rcases isWord_of_legible h with ⟨w, hs, hw⟩ | hw
  · rw [hs]
    exact hclause hw
  · split
    next rest hs =>
      rw [hs] at hw
      exact hclause fun c hc => hw c (List.mem_cons_of_mem _ (List.mem_cons_of_mem _ hc))
    next =>
      have := hclause hw
      rwa [String.ofList_toList] at this

theorem legible_of_identifierOf {n i : String} (h : identifierOf n = .ok i) : Legible i := by
  unfold identifierOf at h
  split at h <;> cases h
  next hi => exact .of_read? (fun _ => inferInstance) hi

/-- Words that code is written with. -/
abbrev codeWords : List String :=
  ["bool", "i64", "items", "base", "joined", "column", "direction", "inclusive", "limit", "offset",
    "order_by", "order_direction", "unscoped", "value", "blueprint", "records"]

instance {n : String} [h : Listed n codeWords] : Legible n := by
  have hw : ∀ n ∈ codeWords, Code.IsLegible [.ident n] := by decide +kernel
  exact ⟨hw n h.mem⟩

/-! ### Lines of documentation -/

/-- A text that stands in a raw literal as it is. -/
structure IsRawLine (s : String) : Prop where
  quote : '"' ∉ s.toList
  ending : '\r' ∉ s.toList

theorem IsRawLine.of_chars {s : String} {cs : List Char} (hs : s = String.ofList cs)
    (h : cs.all (fun c => c != '"' && c != '\r') = true) : IsRawLine s := by
  subst hs
  rw [List.all_eq_true] at h
  constructor <;>
    · rw [String.toList_ofList]
      exact fun hc => absurd (h _ hc) (by decide)

namespace Lexer

theorem rawQuoted_eq {cs : Chars} (hq : '"' ∉ cs) (he : '\r' ∉ cs) :
    rawQuoted .ofText [] (cs ++ ['"']) = some (cs ++ ['"'], []) := by
  induction cs with
  | nil => rfl
  | cons c cs ih =>
    obtain ⟨hqc, hq⟩ := not_or.mp (mt List.mem_cons.mpr hq)
    obtain ⟨hec, he⟩ := not_or.mp (mt List.mem_cons.mpr he)
    rw [List.cons_append, rawQuoted]
    · have hr : (QuoteRules.ofText.ascii = false ∧ QuoteRules.ofText.nul = true) := ⟨rfl, rfl⟩
      simp [ih hq he, Ne.symm hqc, Ne.symm hec, hr, also]
    · rintro rest rfl
      exact absurd rfl hec

theorem isPlain_line {s : String} (h : IsRawLine s) :
    (Token.literal ("r\"" ++ s ++ "\"")).isPlain = true := by
  have ht : ("r\"" ++ s ++ "\"").toList = 'r' :: '"' :: (s.toList ++ ['"']) := by
    rw [String.toList_append, String.toList_append]
    rfl
  have hr : raw .ofText ('"' :: (s.toList ++ ['"'])) = some ('"' :: (s.toList ++ ['"']), []) := by
    rw [raw, List.span_eq_takeWhile_dropWhile]
    simp [andThen, fixed, after?, rawQuoted_eq h.quote h.ending, also]
  have hquoted : quotedOrRaw .ofText [] ('r' :: '"' :: (s.toList ++ ['"'])) =
      some ('r' :: '"' :: (s.toList ++ ['"']), []) := by
    simp [quotedOrRaw, andThen, fixed, after?, hr, also]
  have hl : leaf? ("r\"" ++ s ++ "\"").toList = some (.literal ("r\"" ++ s ++ "\""), []) := by
    rw [leaf?, ht, literal?, hquoted]
    simp only [Option.orElse_eq_orElse, Option.orElse_some]
    rw [← ht, String.ofList_toList]
  have hs : (Token.literal ("r\"" ++ s ++ "\"")).Stands :=
    .inr ⟨by rw [Token.text, ht]; rfl, hl⟩
  simpa [Token.isPlain, Token.awaits] using hs

end Lexer

/-! ### Pieces of code -/

namespace Code

variable {a b c : Code} {groups : List Delimiter} {items : List Code}

instance {s : String} : Legible (text s) := ⟨isLegible_singleton (isPlain_quote s)⟩
instance {n : Nat} : Legible (number n) := ⟨isLegible_singleton (isPlain_decimal n)⟩
instance {parts : List String} : Legible (template parts) := inferInstanceAs (Legible (text _))
instance {n : String} [h : Legible n] : Legible (name n) := ⟨h.isLegible⟩
instance [Legible items] : Legible (commas items) :=
  inferInstanceAs (Legible (separated comma items))
instance [Legible items] : Legible (terminated items) :=
  inferInstanceAs (Legible (items.flatMap (· ++ comma)))

@[simp]
theorem lead_ofText {s : String} (h : IsQuiet s) :
    lead ⟨none, groups⟩ (ofText s) = some ⟨none, groups⟩ := isLegible_ofText h groups

theorem legible_ofText {s : String} (h : IsQuiet s) : Legible (ofText s) := ⟨isLegible_ofText h⟩

instance {s : String} : Legible (doc s) := by
  have hmark := legible_ofText (.of_chars (s := "#") rfl (by decide +kernel))
  have hdoc := legible_ofText (.of_chars (s := "doc =") rfl (by decide +kernel))
  unfold doc
  infer_instance

theorem legible_docLine {s : String} (h : IsRawLine s) : Legible (docLine s) := by
  have hmark := legible_ofText (.of_chars (s := "#") rfl (by decide +kernel))
  have hdoc := legible_ofText (.of_chars (s := "doc =") rfl (by decide +kernel))
  have hline : Legible [Token.literal ("r\"" ++ s ++ "\"")] :=
    ⟨isLegible_singleton (isPlain_line h)⟩
  unfold docLine
  infer_instance

instance [Legible c] : Legible (stmt c) := by
  have hs := legible_ofText (.of_chars (s := ";") rfl (by decide +kernel))
  unfold stmt
  infer_instance

/-- Legible code leads nowhere. -/
@[simp low]
theorem lead_of_legible [h : Legible c] : lead ⟨none, groups⟩ c = some ⟨none, groups⟩ :=
  h.isLegible groups

end Code

end RecordStore
