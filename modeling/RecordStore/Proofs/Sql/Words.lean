import RecordStore.Proofs.Sql.Places

/-!
The words of a statement. Letters, digits, underscores and dots make words, blanks only separate
them, and every other character stands for itself. Keywords may be written in small letters.
-/
namespace RecordStore

/-- Words with a meaning of their own. -/
inductive Keyword where
  | and | asc | by | count | desc | from | in | is | like | limit | not | null | offset | or | order
  | select | where
  deriving DecidableEq, Repr

namespace Keyword

def all : List Keyword :=
  [.and, .asc, .by, .count, .desc, .from, .in, .is, .like, .limit, .not, .null, .offset, .or,
    .order, .select, .where]

def text : Keyword → String
  | .and => "AND"
  | .asc => "ASC"
  | .by => "BY"
  | .count => "COUNT"
  | .desc => "DESC"
  | .from => "FROM"
  | .in => "IN"
  | .is => "IS"
  | .like => "LIKE"
  | .limit => "LIMIT"
  | .not => "NOT"
  | .null => "NULL"
  | .offset => "OFFSET"
  | .or => "OR"
  | .order => "ORDER"
  | .select => "SELECT"
  | .where => "WHERE"

def ofWord? (w : List Char) : Option Keyword :=
  all.find? fun k => k.text.toList == w.map Char.toUpper

end Keyword

inductive Lexeme where
  | keyword (k : Keyword)
  | name (n : String)
  | place (n : Nat)
  | mark (c : Char)
  deriving DecidableEq, Repr

namespace Lexeme

def ofWord (w : List Char) : Lexeme :=
  match Keyword.ofWord? w with
  | some k => .keyword k
  | none => .name (String.ofList w)

/-- Where a name is expected keywords are names. -/
def name? : Lexeme → Option String
  | keyword k => some k.text
  | name n => some n
  | _ => none

end Lexeme

def isWordChar (c : Char) : Bool := c.isAlphanum || c == '_' || c == '.'

/-- The word that has been read so far, if any. -/
def closeWord (word : List Char) : List Lexeme := if word.isEmpty then [] else [.ofWord word]

@[simp] theorem closeWord_nil : closeWord [] = [] := rfl

/-- The lexemes of signs; `word` is the word read so far. -/
def lex (word : List Char) : List (Sign Nat) → List Lexeme
  | [] => closeWord word
  | .hole n :: ss => closeWord word ++ .place n :: lex [] ss
  | .char c :: ss =>
    if isWordChar c then lex (word ++ [c]) ss
    else if c = ' ' then closeWord word ++ lex [] ss
    else closeWord word ++ .mark c :: lex [] ss

/-- The lexemes of a text; `next` is the parameter of the next question mark. -/
def lexemes (d : Dialect) (next : Nat) (cs : List Char) : List Lexeme := lex [] (d.signs next cs)

/-! ### Words and what follows them -/

def IsWord (cs : List Char) : Prop := cs ≠ [] ∧ cs.all isWordChar = true

/-- Text that no word and no number before it runs into. -/
def EndsWord (cs : List Char) : Prop := ∀ c ∈ cs.head?, isWordChar c = false ∧ Plain [c]

@[simp] theorem endsWord_nil : EndsWord [] := by intro c hc; cases hc

@[simp] theorem endsWord_cons {c : Char} {cs : List Char} :
    EndsWord (c :: cs) ↔ isWordChar c = false ∧ Plain [c] := by
  simp [EndsWord]

theorem endsWord_blank {rest : List Char} : EndsWord (' ' :: rest) :=
  endsWord_cons.mpr ⟨by decide, by decide⟩

theorem isWordChar_of_isDigit {c : Char} (h : c.isDigit = true) : isWordChar c = true := by
  simp [isWordChar, Char.isAlphanum, h]

theorem EndsWord.endsNumber {cs : List Char} (h : EndsWord cs) : EndsNumber cs := by
  intro c hc
  cases hd : c.isDigit with
  | false => rfl
  | true =>
    have hw := isWordChar_of_isDigit hd
    simp [(h c hc).1] at hw

theorem IsWord.plain {cs : List Char} (h : IsWord cs) : Plain cs := by
  intro c hc
  have hw : isWordChar c = true := List.all_eq_true.mp h.2 c hc
  constructor
  · rintro rfl
    revert hw
    decide
  · rintro rfl
    revert hw
    decide

section

variable {d : Dialect} {n : Nat}

theorem lex_word (before w : List Char) (ss : List (Sign Nat)) (h : w.all isWordChar = true) :
    lex before (Sign.chars w ++ ss) = lex (before ++ w) ss := by
  induction w generalizing before with
  | nil => simp
  | cons c w ih =>
    obtain ⟨hc, hw⟩ := Bool.and_eq_true_iff.mp h
    rw [Sign.chars_cons, List.cons_append, lex, if_pos hc, ih _ hw]
    simp

theorem signs_cons {c : Char} {rest : List Char} (h : Plain [c]) :
    d.signs n (c :: rest) = .char c :: d.signs n rest :=
  Dialect.signs_plain h rest

theorem lexemes_mark {c : Char} {rest : List Char} (hw : isWordChar c = false) (hp : Plain [c])
    (hb : c ≠ ' ') : lexemes d n (c :: rest) = .mark c :: lexemes d n rest := by
  simp [lexemes, signs_cons hp, lex, hw, hb]

theorem lexemes_blank {rest : List Char} : lexemes d n (' ' :: rest) = lexemes d n rest := by
  have hw : isWordChar ' ' = false := by decide
  simp [lexemes, signs_cons (by decide : Plain [' ']), lex, hw]

theorem lexemes_nil : lexemes d n [] = [] := by cases d <;> rfl

/-- A word is one lexeme. -/
theorem lexemes_word {w rest : List Char} (hw : IsWord w) (hr : EndsWord rest) :
    lexemes d n (w ++ rest) = .ofWord w :: lexemes d n rest := by
  have hc : closeWord w = [.ofWord w] := by simp [closeWord, hw.1]
  rw [lexemes, Dialect.signs_plain hw.plain, lex_word _ _ _ hw.2, List.nil_append]
  cases rest with
  | nil =>
    rw [lexemes_nil, ← hc]
    cases d <;> simp [Dialect.signs, Dialect.positional, Dialect.numbered, Dialect.closeNumber, lex]
  | cons c rest =>
    obtain ⟨hcw, hp⟩ := endsWord_cons.mp hr
    by_cases hb : c = ' '
    · subst hb
      simp [signs_cons hp, lex, hcw, hc, lexemes]
    · simp [signs_cons hp, lex, hcw, hb, hc, lexemes]

theorem lexemes_keyword (k : Keyword) {rest : List Char} (hr : EndsWord rest) :
    lexemes d n (k.text.toList ++ rest) = .keyword k :: lexemes d n rest := by
  have hw : IsWord k.text.toList := by cases k <;> exact ⟨by decide, by decide⟩
  have hk : Lexeme.ofWord k.text.toList = .keyword k := by cases k <;> decide
  rw [lexemes_word hw hr, hk]

theorem lexemes_placeholder {rest : List Char} (h : EndsWord rest) :
    lexemes d n ((d.placeholder n).toList ++ rest) = .place n :: lexemes d (n + 1) rest := by
  rw [lexemes, Dialect.signs_placeholder h.endsNumber]
  rfl

/-- No keyword has a digit or a dot. -/
theorem ofWord_of_mem {w : List Char} {c : Char} (h : c ∈ w)
    (hc : (c.toUpper.isDigit || c.toUpper == '.') = true) :
    Lexeme.ofWord w = .name (String.ofList w) := by
  have hn : Keyword.ofWord? w = none := by
    refine List.find?_eq_none.mpr fun k _ hk => ?_
    have ha : (w.map Char.toUpper).any (fun c => c.isDigit || c == '.') = true :=
      List.any_eq_true.mpr ⟨_, List.mem_map_of_mem h, hc⟩
    rw [← eq_of_beq hk] at ha
    revert ha
    cases k <;> decide
  simp [Lexeme.ofWord, hn]

theorem isSome_name?_ofWord (w : List Char) : (Lexeme.ofWord w).name?.isSome = true := by
  unfold Lexeme.ofWord
  split <;> rfl

theorem toUpper_of_isDigit {c : Char} (h : c.isDigit = true) : c.toUpper = c := by
  have hd : c.val ≤ '9'.val := (by simpa [Char.isDigit] using h : _ ∧ _).2
  unfold Char.toUpper
  rw [dif_neg]
  intro ha
  have hv := UInt32.le_trans ha.1 hd
  revert hv
  decide

/-- A number is a name of its digits. -/
theorem lexemes_number (m : Nat) {rest : List Char} (hr : EndsWord rest) :
    lexemes d n ((toString m).toList ++ rest) = .name (toString m) :: lexemes d n rest := by
  have hd : ∀ c ∈ (toString m).toList, c.isDigit = true := by
    intro c hc
    rw [Nat.toString_eq_repr, Nat.toList_repr] at hc
    exact Nat.isDigit_of_mem_toDigits (by decide) (by decide) hc
  have hw : IsWord (toString m).toList :=
    ⟨by simp, List.all_eq_true.mpr fun c hc => isWordChar_of_isDigit (hd c hc)⟩
  obtain ⟨c, hc⟩ := List.exists_mem_of_ne_nil _ hw.1
  have hu : (c.toUpper.isDigit || c.toUpper == '.') = true := by
    rw [toUpper_of_isDigit (hd c hc), hd c hc, Bool.true_or]
  rw [lexemes_word hw hr, ofWord_of_mem hc hu, String.ofList_toList]

end

/-- A text between words, which is read alike whatever follows it. -/
structure Phrase (p : String) (ls : List Lexeme) : Prop where
  endsWord : ∀ rest, EndsWord (p.toList ++ rest)
  lexemes_append : ∀ d n rest, lexemes d n (p.toList ++ rest) = ls ++ lexemes d n rest

end RecordStore
