import RecordStore.Proofs.Generation.Balance
import RecordStore.Proofs.Generation.BoundNames

/-!
A reader of passages. Implementations and functions start with a word of their own and end with a
body in braces or with a semicolon. The reader knows nothing of how code is made: it finds a word
outside of groups and looks for the end of what the word starts.
-/
namespace RecordStore

/-- What starts with a word: all that stands before its body, and the body if it has one. -/
structure Passage where
  head : Code
  body : Option Code
  deriving DecidableEq

namespace PassageReader

/-- Where a reader is: between passages with some groups open, in the head of a passage with what
has been read of it, or in a body. -/
inductive Place where
  | between (depth : Nat)
  | head (read : Code) (inside : Brackets)
  | body (head read : Code) (depth : Nat)
  deriving DecidableEq

/-- What a reader has found, and where it is. -/
structure State where
  found : List Passage
  place : Place
  deriving DecidableEq

variable (keyword : String)

def step (s : State) (t : Token) : State :=
  match s.place with
  | .between depth =>
    if depth = 0 ∧ t = .ident keyword then ⟨s.found, .head [t] .start⟩
    else ⟨s.found, .between ((t.nest depth).getD 0)⟩
  | .head read inside =>
    match inside.next t with
    | some next => ⟨s.found, .head (read ++ [t]) next⟩
    | none =>
      match t with
      | .opening _ => ⟨s.found, .body read [] 0⟩
      | .punct ';' _ => ⟨s.found ++ [⟨read, none⟩], .between 0⟩
      | _ => ⟨s.found, .between 0⟩
  | .body head read depth =>
    match t.nest depth with
    | some next => ⟨s.found, .body head (read ++ [t]) next⟩
    | none => ⟨s.found ++ [⟨head, some read⟩], .between 0⟩

def after (s : State) (c : Code) : State := c.foldl (step keyword) s

variable {keyword} {a b c : Code}

theorem after_append (s : State) : after keyword s (a ++ b) = after keyword (after keyword s a) b :=
  List.foldl_append

/-- What was found before does not matter. -/
theorem after_found (found : List Passage) (s : State) (c : Code) :
    after keyword ⟨found ++ s.found, s.place⟩ c =
      ⟨found ++ (after keyword s c).found, (after keyword s c).place⟩ := by
  induction c generalizing s with
  | nil => rfl
  | cons t c ih =>
    have hs : step keyword ⟨found ++ s.found, s.place⟩ t =
        ⟨found ++ (step keyword s t).found, (step keyword s t).place⟩ := by
      unfold step
      dsimp only
      repeat' split
      all_goals simp only [List.append_assoc]
    exact (congrArg (after keyword · c) hs).trans (ih _)

theorem after_head {found : List Passage} {read : Code} {s t : Brackets} (h : c.Leads s t) :
    after keyword ⟨found, .head read s⟩ c = ⟨found, .head (read ++ c) t⟩ := by
  induction c generalizing read s with
  | nil =>
    cases h
    rw [List.append_nil]
    rfl
  | cons x c ih =>
    rw [Code.Leads, List.foldlM_cons] at h
    obtain ⟨u, hx, hc⟩ := Option.bind_eq_some_iff.mp h
    have hs : step keyword ⟨found, .head read s⟩ x = ⟨found, .head (read ++ [x]) u⟩ := by
      simp only [step, hx]
    have hr : after keyword ⟨found, .head (read ++ [x]) u⟩ c =
        ⟨found, .head (read ++ [x] ++ c) t⟩ := ih hc
    rw [List.append_assoc] at hr
    exact (congrArg (after keyword · c) hs).trans hr

theorem after_body {found : List Passage} {head read : Code} {m n : Nat}
    (h : c.depth m = some n) :
    after keyword ⟨found, .body head read m⟩ c = ⟨found, .body head (read ++ c) n⟩ := by
  induction c generalizing read m with
  | nil =>
    cases h
    rw [List.append_nil]
    rfl
  | cons x c ih =>
    rw [Code.depth_cons] at h
    obtain ⟨l, hx, hc⟩ := Option.bind_eq_some_iff.mp h
    have hs : step keyword ⟨found, .body head read m⟩ x = ⟨found, .body head (read ++ [x]) l⟩ := by
      simp only [step, hx]
    have hr : after keyword ⟨found, .body head (read ++ [x]) l⟩ c =
        ⟨found, .body head (read ++ [x] ++ c) n⟩ := ih hc
    rw [List.append_assoc] at hr
    exact (congrArg (after keyword · c) hs).trans hr

/-- In groups no word is looked at. -/
theorem after_between {found : List Passage} {m n : Nat} (h : c.depth m = some n) :
    after keyword ⟨found, .between (m + 1)⟩ c = ⟨found, .between (n + 1)⟩ := by
  induction c generalizing m with
  | nil =>
    cases h
    rfl
  | cons x c ih =>
    rw [Code.depth_cons] at h
    obtain ⟨l, hx, hc⟩ := Option.bind_eq_some_iff.mp h
    have hs : step keyword ⟨found, .between (m + 1)⟩ x = ⟨found, .between (l + 1)⟩ := by
      have hn : x.nest (m + 1) = some (l + 1) := by
        have hw : Code.depth (m + 1) [x] = some (l + 1) :=
          Code.depth_within (by rw [Code.depth_cons, hx]; rfl) 1
        rw [Code.depth_cons] at hw
        simpa using hw
      simp [step, hn]
    exact (congrArg (after keyword · c) hs).trans (ih hc)

end PassageReader

namespace Code

open PassageReader

/-- The passages of a word in some code, outside of all groups. -/
def passages (keyword : String) (c : Code) : List Passage :=
  (after keyword ⟨[], .between 0⟩ c).found

/-- Code that consists of some passages of a word, and of nothing else that the word would start. -/
def Reads (keyword : String) (c : Code) (ps : List Passage) : Prop :=
  after keyword ⟨[], .between 0⟩ c = ⟨ps, .between 0⟩

instance (keyword : String) (c : Code) (ps : List Passage) : Decidable (c.Reads keyword ps) :=
  inferInstanceAs (Decidable (_ = _))

variable {keyword : String} {a b c : Code} {ps qs : List Passage}

theorem Reads.passages (h : c.Reads keyword ps) : c.passages keyword = ps := by
  rw [Code.passages, h]

theorem reads_nil : Reads keyword [] [] := rfl

theorem Reads.append (ha : a.Reads keyword ps) (hb : b.Reads keyword qs) :
    Reads keyword (a ++ b) (ps ++ qs) := by
  have hf : after keyword ⟨ps ++ [], .between 0⟩ b = _ := after_found ps ⟨[], .between 0⟩ b
  rw [hb, List.append_nil] at hf
  rw [Reads, after_append, ha]
  exact hf

theorem Reads.flatMap {α : Type} {l : List α} {f : α → Code} {g : α → Passage}
    (h : ∀ x ∈ l, (f x).Reads keyword [g x]) : Reads keyword (l.flatMap f) (l.map g) := by
  induction l with
  | nil => exact reads_nil
  | cons x l ih =>
    obtain ⟨hx, hl⟩ := List.forall_mem_cons.mp h
    exact hx.append (ih hl)

/-- What follows does not change the first passage. -/
theorem Reads.head?_passages {p : Passage} (h : a.Reads keyword (p :: ps)) (b : Code) :
    (Code.passages keyword (a ++ b)).head? = some p := by
  have hf : after keyword ⟨p :: ps ++ [], .between 0⟩ b = _ :=
    after_found (p :: ps) ⟨[], .between 0⟩ b
  rw [List.append_nil] at hf
  rw [Code.passages, after_append, h, hf]
  rfl

/-- A word that starts no passage. -/
theorem reads_ident {n : String} (h : n ≠ keyword) : Reads keyword [.ident n] [] := by
  simp [Reads, after, step, h, Token.nest]

/-- No passage starts inside of a group. -/
theorem GroupBalanced.reads (h : c.GroupBalanced) (d : Delimiter) :
    Reads keyword (Token.group d c) [] := by
  have hb : after keyword ⟨[], .between 1⟩ c = ⟨[], .between 1⟩ := after_between h
  rw [Reads, Token.group, after_append]
  change after keyword (after keyword ⟨[], .between 1⟩ c) [.closing d] = _
  rw [hb]
  simp [after, step, Token.nest]

/-- The head of a passage: it starts with its word and closes what it opens. -/
def IsHead (keyword : String) (c : Code) : Prop :=
  ∃ rest dash, c = .ident keyword :: rest ∧ Leads rest .start ⟨0, 0, dash⟩

theorem IsHead.after_eq (h : c.IsHead keyword) : ∃ dash,
    after keyword ⟨[], .between 0⟩ c = ⟨[], .head c ⟨0, 0, dash⟩⟩ := by
  obtain ⟨rest, dash, rfl, hr⟩ := h
  have hs : step keyword ⟨[], .between 0⟩ (.ident keyword) =
      ⟨[], .head [.ident keyword] .start⟩ := by
    simp [step]
  exact ⟨dash, (congrArg (after keyword · rest) hs).trans (after_head hr)⟩

/-- A passage with a body. -/
theorem IsHead.reads (h : a.IsHead keyword) (hb : b.GroupBalanced) :
    Reads keyword (a ++ Token.braces b) [⟨a, some b⟩] := by
  obtain ⟨dash, ha⟩ := h.after_eq
  have ho : step keyword ⟨[], .head a ⟨0, 0, dash⟩⟩ (.opening .brace) =
      ⟨[], .body a [] 0⟩ := by
    simp [step, Brackets.next]
  have hr : after keyword ⟨[], .body a [] 0⟩ b = ⟨[], .body a b 0⟩ := after_body hb
  rw [Reads, after_append, ha, Token.braces, Token.group, after_append]
  change after keyword (after keyword (step keyword _ _) b) [.closing .brace] = _
  rw [ho, hr]
  simp [after, step, Token.nest]

/-- A passage without a body. -/
theorem IsHead.reads_semicolon (h : a.IsHead keyword) :
    Reads keyword (a ++ ofText ";") [⟨a, none⟩] := by
  obtain ⟨dash, ha⟩ := h.after_eq
  have hs : ofText ";" = [.punct ';' false] := by decide +kernel
  rw [Reads, after_append, ha, hs]
  simp [after, step, Brackets.next]

theorem IsHead.balanced (h : a.IsHead keyword) : a.GroupBalanced := by
  obtain ⟨rest, dash, rfl, hr⟩ := h
  exact hr.depth

/-! ### Attributes and visibility -/

/-- Attributes, one after another. -/
def IsAttributes (c : Code) : Prop :=
  ∃ contents : List Code, (∀ x ∈ contents, x.GroupBalanced) ∧ c = contents.flatMap outerAttribute

theorem isAttributes_outer (h : c.GroupBalanced) : (outerAttribute c).IsAttributes :=
  ⟨[c], by simpa using h, by simp⟩

theorem isAttributes_doc (s : String) : (doc s).IsAttributes :=
  isAttributes_outer (by simp [GroupBalanced])

theorem IsAttributes.append (ha : a.IsAttributes) (hb : b.IsAttributes) :
    IsAttributes (a ++ b) := by
  obtain ⟨as, ha, rfl⟩ := ha
  obtain ⟨bs, hb, rfl⟩ := hb
  exact ⟨as ++ bs, List.forall_mem_append.mpr ⟨ha, hb⟩, List.flatMap_append.symm⟩

theorem IsAttributes.balanced (h : c.IsAttributes) : c.GroupBalanced := by
  obtain ⟨contents, hc, rfl⟩ := h
  refine .flatMap fun x hx => ?_
  rw [GroupBalanced, outerAttribute]
  simp [hc x hx]

theorem IsAttributes.reads (h : c.IsAttributes) : c.Reads keyword [] := by
  obtain ⟨contents, hc, rfl⟩ := h
  induction contents with
  | nil => exact reads_nil
  | cons x contents ih =>
    obtain ⟨hx, hl⟩ := List.forall_mem_cons.mp hc
    have ho : (outerAttribute x).Reads keyword [] := by
      have hm : Reads keyword [.punct '#' false] [] := by simp [Reads, after, step, Token.nest]
      rw [outerAttribute_eq]
      exact hm.append (hx.reads .bracket)
    exact ho.append (ih hl)

end Code

/-- A visibility whose path closes what it opens. -/
def Visibility.IsBalanced (v : Visibility) : Prop :=
  ∀ byPath p, v = .restricted byPath p → Code.GroupBalanced p.tokens

end RecordStore
