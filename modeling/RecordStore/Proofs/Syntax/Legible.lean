import RecordStore.Proofs.Syntax.ImportLines
import RecordStore.Proofs.Syntax.Truncation

/-!
Legible code: code that is read off its own text. Every token has to be read off its text, and what
follows a mark at once must not make something else of it: behind a slash no comment may start, and
a single quote by itself stands in front of a literal. Groups have to be closed that are opened.
-/
namespace RecordStore

open Lexer CharClass

/-! ### Tokens by themselves -/

namespace Token

/-- The token apart from what follows it: a mark is joint to nothing. -/
def alone : Token → Token
  | punct c _ => punct c false
  | t => t

/-- A token that is read off its own text. A single quote is read in front of a literal only. -/
def Stands : Token → Prop
  | punct c joint => isMark c = true ∧ (c = '\'' → joint = true)
  | opening _ => True
  | closing _ => True
  | t => t = literal (String.ofList lostLiteral) ∨
      t.text.toList.head?.any isSpace = false ∧ leaf? t.text.toList = some (t, [])

instance : DecidablePred Stands
  | punct c joint => inferInstanceAs (Decidable (isMark c = true ∧ (c = '\'' → joint = true)))
  | opening _ => inferInstanceAs (Decidable True)
  | closing _ => inferInstanceAs (Decidable True)
  | ident n => inferInstanceAs (Decidable (_ ∨ _ ∧ leaf? n.toList = some (ident n, [])))
  | lifetime n => inferInstanceAs (Decidable (_ ∨ _ ∧ leaf? n.toList = some (lifetime n, [])))
  | literal n => inferInstanceAs (Decidable (_ ∨ _ ∧ leaf? n.toList = some (literal n, [])))

/-- Whether what follows a token at once decides about it. -/
def awaits : Token → Bool
  | punct c joint => c == '\'' || (c == '/' && joint)
  | _ => false

/-- Whether the token is still read where another one follows it at once: behind a slash no comment
may start, and a single quote has to stay one. -/
def admits : Token → Token → Bool
  | punct '\'' _, literal s => decide (lifetime? s.toList = some (punct '\'' true, s.toList))
  | punct '\'' _, _ => false
  | _, t => t.text.toList.head?.any fun c => isMark c && c != '/' && c != '*'

end Token

/-! ### Code -/

/-- How far code has been read: the last token while it awaits the next one, and the groups that are
open. -/
structure Place where
  last : Option Token
  groups : List Delimiter
  deriving DecidableEq

namespace Place

/-- Where code goes on behind a token, if it can stand here. -/
def next (p : Place) (t : Token) : Option Place :=
  if t.Stands ∧ p.last.all (Token.admits · t) then
    (advance p.groups t).map fun groups => ⟨if t.awaits then some t else none, groups⟩
  else none

end Place

namespace Code

/-- Where code leads. -/
def lead (p : Place) (c : Code) : Option Place := c.foldlM Place.next p

/-- Code that is read off its text wherever it stands. -/
def IsLegible (c : Code) : Prop := ∀ groups, c.lead ⟨none, groups⟩ = some ⟨none, groups⟩

variable {a b c : Code} {p q : Place} {t u : Token} {groups : List Delimiter}

@[simp]
theorem lead_nil : lead p [] = some p := rfl

theorem lead_cons : lead p (t :: c) = (p.next t).bind (lead · c) := List.foldlM_cons

/-- A token that awaits nothing. -/
theorem next_of_stands (h : t.Stands) (ha : t.awaits = false) (groups : List Delimiter) :
    Place.next ⟨none, groups⟩ t = (Lexer.advance groups t).map (⟨none, ·⟩) := by
  rw [Place.next, if_pos ⟨h, rfl⟩, ha]
  rfl

theorem next_awaiting (h : t.admits u = true) :
    Place.next ⟨some t, groups⟩ u = Place.next ⟨none, groups⟩ u := by
  simp [Place.next, h]

theorem lead_append : lead p (a ++ b) = (lead p a).bind (lead · b) := List.foldlM_append

end Code

/-! ### Legible code -/

/-- A token that is legible code by itself. -/
def Token.isPlain : Token → Bool
  | opening _ => false
  | closing _ => false
  | t => decide t.Stands && !t.awaits

namespace Code

variable {a b c : Code} {t : Token}

theorem IsLegible.nil : IsLegible [] := fun _ => rfl

theorem IsLegible.append (ha : a.IsLegible) (hb : b.IsLegible) : IsLegible (a ++ b) :=
  fun groups => by rw [lead_append, ha, Option.bind_some, hb]

theorem IsLegible.group (h : c.IsLegible) (d : Delimiter) : IsLegible (Token.group d c) :=
  fun groups => by
    have ho : Place.next ⟨none, groups⟩ (.opening d) = some ⟨none, d :: groups⟩ := by
      rw [next_of_stands (t := .opening d) trivial rfl]
      cases groups <;> rfl
    have hc : Place.next ⟨none, d :: groups⟩ (.closing d) = some ⟨none, groups⟩ := by
      rw [next_of_stands (t := .closing d) trivial rfl, Lexer.advance, if_pos rfl]
      rfl
    rw [Token.group, List.cons_append, lead_cons, ho, Option.bind_some, lead_append, h,
      Option.bind_some, lead_cons, hc]
    rfl

theorem isLegible_singleton (h : t.isPlain = true) : IsLegible [t] := fun groups => by
  have hs : decide t.Stands = true ∧ (!t.awaits) = true := by
    cases t with
    | opening d => cases h
    | closing d => cases h
    | _ => exact Bool.and_eq_true_iff.mp h
  have hg : Lexer.advance groups t = some groups := by
    cases t with
    | opening d => cases h
    | closing d => cases h
    | _ => cases groups <;> rfl
  rw [lead_cons, next_of_stands (of_decide_eq_true hs.1) (by simpa using hs.2), hg]
  rfl

theorem IsLegible.of_all (h : c.all Token.isPlain = true) : c.IsLegible := by
  induction c with
  | nil => exact .nil
  | cons t c ih =>
    obtain ⟨ht, hc⟩ := List.all_cons.symm.trans h |> Bool.and_eq_true_iff.mp
    exact (isLegible_singleton ht).append (ih hc)

end Code

namespace Lexer

variable {cs left tail : Chars} {stack groups : List Delimiter} {t u : Token} {c : Char}

/-! ### What tokens start with -/

theorem leaf?_slash (rest : Chars) : leaf? ('/' :: rest) =
    if markAhead ('/' :: rest) then some (.punct '/' (markAhead rest), rest) else none := by
  have hi : identifier? ('/' :: rest) = none := rfl
  unfold leaf?
  rw [literal?_eq_none_of_isMark (by decide) (by decide), punct?_of_ne (by decide), hi]
  dsimp only
  cases markAhead ('/' :: rest) <;> simp

theorem text_of_leaf? (h : leaf? cs = some (t, left)) : t.text.toList ++ left = cs := by
  unfold leaf? at h
  split at h
  next hl =>
    cases h
    simpa [Token.text] using (literal?_hasForm hl).2
  split at h
  next hp =>
    cases h
    unfold punct? at hp
    split at hp
    · cases hp
    · obtain ⟨⟨i, l⟩, hi, hp⟩ := Option.bind_eq_some_iff.mp hp
      dsimp only at hp
      split at hp
      · cases hp
      · split at hp <;> cases hp
        · rfl
        · simpa [Token.text] using identifier?_append hi
    · split at hp <;> cases hp
      simp [Token.text]
  split at h
  · cases h
  · obtain ⟨⟨i, l⟩, hi, h⟩ := Option.map_eq_some_iff.mp h
    cases h
    simpa [Token.text] using identifier?_append hi

theorem text_of_token? (h : token? cs = some (t, left)) : t.text.toList ++ left = cs := by
  unfold token? at h
  split at h
  · cases h
  split at h
  next hl =>
    cases h
    simpa [Token.text] using after?_append hl
  next ho =>
    cases h
    unfold opening? at ho
    split at ho <;> cases ho <;> rfl
  next ho =>
    cases h
    unfold closing? at ho
    split at ho <;> cases ho <;> rfl
  next => exact text_of_leaf? h


/-- Tokens that stand start with no blank, and but for the slash itself with no slash. -/
theorem head_of_stands (h : t.Stands) : ∃ c rest, t.text.toList = c :: rest ∧
    isSpace c = false ∧ (c = '/' → ∃ joint, t = .punct '/' joint) := by
  have hleaf (hs : t = .literal (String.ofList lostLiteral) ∨
      t.text.toList.head?.any isSpace = false ∧ leaf? t.text.toList = some (t, [])) :
      ∃ c rest, t.text.toList = c :: rest ∧
        isSpace c = false ∧ (c = '/' → ∃ joint, t = .punct '/' joint) := by
    rcases hs with rfl | ⟨hs, hl⟩
    · exact ⟨'(', "/*ERROR*/)".toList, by decide, by decide, fun hc => absurd hc (by decide)⟩
    cases ht : t.text.toList with
    | nil =>
      rw [ht] at hl
      cases hl
    | cons c rest =>
      rw [ht] at hs hl
      refine ⟨c, rest, rfl, hs, ?_⟩
      rintro rfl
      rw [leaf?_slash] at hl
      split at hl
      · cases hl
        exact ⟨_, rfl⟩
      · cases hl
  cases t with
  | punct c joint =>
    exact ⟨c, [], by simp [Token.text], isSpace_of_isMark h.1, fun hc => ⟨joint, by rw [hc]⟩⟩
  | opening d => cases d <;> exact ⟨_, [], rfl, by decide, fun hc => absurd hc (by decide)⟩
  | closing d => cases d <;> exact ⟨_, [], rfl, by decide, fun hc => absurd hc (by decide)⟩
  | _ => exact hleaf h

/-! ### Tokens in front of a text -/

/-- A text that may follow a token at once. -/
def Precedes (tail : Chars) : Token → Prop
  | .punct c _ =>
    if c = '\'' then lifetime? tail = some (.punct '\'' true, tail)
    else c = '/' → tail.head? ≠ some '/' ∧ tail.head? ≠ some '*'
  | .opening _ => comment? tail = none
  | .closing _ => True
  | _ => ∀ c ∈ tail.head?, Parts c

theorem leaf?_delimiter (h : c ∈ "()[]\x7b\x7d".toList) (rest : Chars) :
    leaf? (c :: rest) = none := by
  have hc : c = '(' ∨ c = ')' ∨ c = '[' ∨ c = ']' ∨ c = '\x7b' ∨ c = '\x7d' := by simpa using h
  rcases hc with rfl | rfl | rfl | rfl | rfl | rfl <;> rfl

theorem token?_lost (h : after? lostLiteral cs = some left) :
    token? cs = some (.literal (String.ofList lostLiteral), left) := by
  cases cs with
  | nil => cases h
  | cons c rest => simp only [token?, h]

theorem markAhead_of_isMark (h : isMark c = true)
    (hc : c = '/' → tail.head? ≠ some '/' ∧ tail.head? ≠ some '*') :
    markAhead (c :: tail) = true := by
  unfold markAhead
  split
  next he =>
    cases he
    exact absurd rfl (hc rfl).1
  next he =>
    cases he
    exact absurd rfl (hc rfl).2
  next he =>
    cases he
    exact h
  next he => cases he

theorem leaf?_of_parts {x : Token × Chars} (ht : ∀ c ∈ tail.head?, Parts c)
    (h : leaf? cs = some x) : leaf? (cs ++ tail) = some (followed tail x) := by
  cases tail with
  | nil => simpa [followed] using h
  | cons c tail => exact firm_leaf? (ht c rfl) h

/-- A token is read off its text in front of what may follow it. -/
theorem lex_text (h : t.Stands) (ht : Precedes tail t) : ∃ u, u.alone = t.alone ∧
    lex stack (t.text.toList ++ tail) =
      (advance stack t).bind fun groups => (lex groups tail).map (u :: ·) := by
  have hother (hc : comment? (t.text.toList ++ tail) = none)
      (hl : token? (t.text.toList ++ tail) = some (t, tail)) :
      ∃ u, u.alone = t.alone ∧ lex stack (t.text.toList ++ tail) =
        (advance stack t).bind fun groups => (lex groups tail).map (u :: ·) := by
    obtain ⟨c, rest, htext, hs, -⟩ := head_of_stands h
    rw [htext, List.cons_append] at hc hl ⊢
    exact ⟨t, rfl, by rw [lex_token hc hs, hl, Option.bind_some]⟩
  have hleaf (hs : t = .literal (String.ofList lostLiteral) ∨
      t.text.toList.head?.any isSpace = false ∧ leaf? t.text.toList = some (t, []))
      (ht : ∀ c ∈ tail.head?, Parts c) (hp : ∀ joint, t ≠ .punct '/' joint) :
      ∃ u, u.alone = t.alone ∧ lex stack (t.text.toList ++ tail) =
        (advance stack t).bind fun groups => (lex groups tail).map (u :: ·) := by
    obtain ⟨c, rest, htext, -, hslash⟩ := head_of_stands h
    have hcomment : comment? (t.text.toList ++ tail) = none := by
      rw [htext, comment?_eq_none_iff]
      intro rest'
      constructor <;>
        · intro he
          obtain ⟨joint, hj⟩ := hslash (List.cons.inj he).1
          exact hp joint hj
    refine hother hcomment ?_
    rcases hs with rfl | ⟨-, hl⟩
    · refine token?_lost ?_
      have ht : (Token.literal (String.ofList lostLiteral)).text.toList = lostLiteral := by decide
      rw [ht]
      exact after?_self lostLiteral tail
    · rw [htext] at hl ⊢
      rw [List.cons_append, token?_eq_leaf?, ← List.cons_append, leaf?_of_parts ht hl]
      · rfl
      · intro hd
        rw [leaf?_delimiter hd] at hl
        cases hl
  cases t with
  | punct c joint =>
    have hadvance (joint : Bool) : advance stack (.punct c joint) = some stack := by
      cases stack <;> rfl
    have htext : (Token.punct c joint).text.toList = [c] := by simp [Token.text]
    rw [hadvance, htext, List.singleton_append]
    dsimp only [Option.bind_some]
    by_cases hc : c = '\''
    · subst hc
      have hl : lifetime? tail = some (.punct '\'' true, tail) := by simpa [Precedes] using ht
      have hpunct : punct? ('\'' :: tail) = lifetime? tail := rfl
      have htoken : token? ('\'' :: tail) = some (.punct '\'' true, tail) := by
        rw [token?_eq_leaf? (by decide), leaf?, literal?_eq_none_of_lifetime? hl, hpunct, hl]
      refine ⟨.punct '\'' true, rfl, ?_⟩
      rw [lex_token rfl (by decide), htoken, Option.bind_some, hadvance, Option.bind_some]
    · have hs : c = '/' → tail.head? ≠ some '/' ∧ tail.head? ≠ some '*' := by
        simpa [Precedes, hc] using ht
      exact ⟨.punct c (markAhead tail), rfl, lex_mark (markAhead_of_isMark h.1 hs) hc⟩
  | opening d =>
    have ha : after? lostLiteral ('(' :: tail) = none := by
      cases hl : after? lostLiteral ('(' :: tail) with
      | none => rfl
      | some left =>
        have he := after?_append hl
        obtain rfl := (List.cons.inj he).2
        cases ht
    cases d with
    | parenthesis =>
      refine hother rfl ?_
      change token? ('(' :: tail) = _
      unfold token?
      rw [ha]
      rfl
    | _ => exact hother rfl rfl
  | closing d => cases d <;> exact hother rfl rfl
  | _ => exact hleaf h ht (by simp)


end Lexer

/-! ### Code as text -/

namespace Code

open Lexer

variable {a b c : Code} {p q r : Place} {t u : Token} {groups : List Delimiter}

theorem next_eq_some : p.next t = some q ↔ (t.Stands ∧ p.last.all (Token.admits · t)) ∧
    ∃ groups, advance p.groups t = some groups ∧
      (⟨if t.awaits then some t else none, groups⟩ : Place) = q := by
  rw [Place.next]
  split
  next h => simp only [Option.map_eq_some_iff, h, true_and, and_self]
  next h => simp [h]

/-- What stands between a token and the end of the code. -/
def behind (t : Token) : Code → Chars
  | [] => []
  | u :: c => (if t.tight u then [] else [' ']) ++ (tokenText (u :: c)).toList

theorem tokenText_cons (t : Token) (c : Code) :
    (tokenText (t :: c)).toList = t.text.toList ++ behind t c := by
  cases c with
  | nil => simp [tokenText, behind]
  | cons u c =>
    simp only [tokenText, behind]
    split <;> simp

@[simp]
theorem behind_joint (m : Char) (u : Token) (c : Code) :
    behind (.punct m true) (u :: c) = u.text.toList ++ behind u c := by
  rw [behind, tokenText_cons]
  rfl

section

variable (ho : ∀ d, t ≠ .opening d) (hj : ∀ m, t ≠ .punct m true)
include ho hj

/-- Only the end of a group follows at once a token that neither opens one nor is joint. -/
theorem closing_of_tight {u : Token} (h : t.tight u = true) :
    u = .closing .parenthesis ∨ u = .closing .bracket := by
  rcases u with _ | _ | _ | _ | _ | (_ | _ | _)
  case closing.parenthesis => exact .inl rfl
  case closing.bracket => exact .inr rfl
  all_goals
    cases t with
    | opening d => exact absurd rfl (ho d)
    | punct m joint =>
      cases joint with
      | true => exact absurd rfl (hj m)
      | false => cases h
    | _ => cases h

/-- Behind such a token a blank follows or the end of a group. -/
theorem parts_behind (c : Code) : ∀ d ∈ (behind t c).head?, Parts d := by
  cases c with
  | nil => exact nofun
  | cons u c =>
    rw [behind]
    split
    next ht =>
      rw [List.nil_append, tokenText_cons]
      rcases closing_of_tight ho hj ht with rfl | rfl <;>
        · rintro d ⟨⟩
          decide
    next =>
      rintro d ⟨⟩
      decide

end

/-- No comment starts with a slash. -/
theorem head?_behind_slash {joint : Bool} (hn : p.next (.punct '/' joint) = some q)
    (h : c.lead q = some r) : (behind (.punct '/' joint) c).head? ≠ some '/' ∧
      (behind (.punct '/' joint) c).head? ≠ some '*' := by
  cases joint with
  | false =>
    have hparts := parts_behind (t := .punct '/' false) nofun nofun c
    constructor <;> (intro hd; exact absurd (hparts _ hd) (by decide))
  | true =>
    obtain ⟨-, groups, -, rfl⟩ := next_eq_some.mp hn
    cases c with
    | nil => exact ⟨nofun, nofun⟩
    | cons u c =>
      rw [lead_cons] at h
      obtain ⟨m, hm, -⟩ := Option.bind_eq_some_iff.mp h
      obtain ⟨⟨hu, ha⟩, -⟩ := next_eq_some.mp hm
      obtain ⟨d, rest, htext, -, -⟩ := head_of_stands hu
      have hd : d ≠ '/' ∧ d ≠ '*' := by
        have ha : Token.admits (.punct '/' true) u = true := ha
        rw [Token.admits, htext] at ha
        · simp at ha
          exact ⟨ha.1.2, ha.2⟩
        · simp
        · simp
      rw [behind_joint, htext]
      simpa using hd

/-- No comment starts in code. -/
theorem comment?_tokenText (h : c.lead p = some q) : comment? (tokenText c).toList = none := by
  cases c with
  | nil => rfl
  | cons t c =>
    rw [tokenText_cons]
    rw [lead_cons] at h
    obtain ⟨m, hm, hc⟩ := Option.bind_eq_some_iff.mp h
    obtain ⟨d, rest, htext, -, hslash⟩ := head_of_stands (next_eq_some.mp hm).1.1
    rw [comment?_eq_none_iff]
    by_cases hd : d = '/'
    · obtain ⟨joint, rfl⟩ := hslash hd
      obtain ⟨h₁, h₂⟩ := head?_behind_slash hm hc
      have ht : (Token.punct '/' joint).text.toList = ['/'] := by simp [Token.text]
      rw [ht, List.singleton_append]
      refine fun l => ⟨fun he => h₁ ?_, fun he => h₂ ?_⟩ <;>
        (rw [(List.cons.inj he).2]; rfl)
    · rw [htext]
      exact fun l => ⟨fun he => hd (List.cons.inj he).1, fun he => hd (List.cons.inj he).1⟩

/-- Where code goes on behind a token, its text may stand there. -/
theorem precedes_behind (hn : p.next t = some q) (h : c.lead q = some ⟨none, groups⟩) :
    Precedes (behind t c) t := by
  cases t with
  | punct m joint =>
    rw [Precedes]
    split
    next hm =>
      subst hm
      obtain ⟨⟨⟨-, hj⟩, -⟩, groups', -, rfl⟩ := next_eq_some.mp hn
      obtain rfl := hj rfl
      cases c with
      | nil => cases h
      | cons u c =>
        rw [lead_cons] at h
        obtain ⟨m, hm, -⟩ := Option.bind_eq_some_iff.mp h
        have ha : Token.admits (.punct '\'' true) u = true := (next_eq_some.mp hm).1.2
        rw [behind_joint]
        cases u with
        | literal s =>
          have hl : lifetime? s.toList = some (.punct '\'' true, s.toList) := of_decide_eq_true ha
          have hparts := parts_behind (t := .literal s) nofun nofun c
          cases hb : behind (.literal s) c with
          | nil => simpa [Token.text] using hl
          | cons d rest =>
            have hs := steady_lifetime? (b := rest) (hparts d (by rw [hb]; rfl)) s.toList
            rw [hl] at hs
            exact hs
        | _ => cases ha
    next =>
      rintro rfl
      exact head?_behind_slash hn h
  | opening d =>
    rw [Precedes]
    cases c with
    | nil => rfl
    | cons u c =>
      rw [behind]
      split
      · exact comment?_tokenText h
      · rfl
  | closing d => trivial
  | ident n => exact parts_behind (t := .ident n) nofun nofun c
  | lifetime n => exact parts_behind (t := .lifetime n) nofun nofun c
  | literal s => exact parts_behind (t := .literal s) nofun nofun c

/-- Code is read off its text, up to which marks are joint. -/
theorem exists_lex (h : c.lead p = some ⟨none, []⟩) : ∃ ts,
    lex p.groups (tokenText c).toList = some ts ∧ ts.map Token.alone = c.map Token.alone := by
  induction c generalizing p with
  | nil =>
    cases h
    exact ⟨[], rfl, rfl⟩
  | cons t c ih =>
    rw [lead_cons] at h
    obtain ⟨q, hq, hc⟩ := Option.bind_eq_some_iff.mp h
    obtain ⟨ts, hts, halone⟩ := ih hc
    have hp := precedes_behind hq hc
    obtain ⟨⟨ht, -⟩, groups, hg, rfl⟩ := next_eq_some.mp hq
    obtain ⟨v, hv, hl⟩ := lex_text ht hp
    have hb : lex groups (behind t c) = some ts := by
      cases c with
      | nil => simpa [behind, tokenText] using hts
      | cons u c =>
        rw [behind]
        split
        · exact hts
        · rw [List.singleton_append, lex_space rfl (by decide)]
          exact hts
    refine ⟨v :: ts, ?_, ?_⟩
    · rw [tokenText_cons, hl, hg, Option.bind_some, hb]
      rfl
    · rw [List.map_cons, List.map_cons, hv, halone]

end Code
end RecordStore
