import RecordStore.Generation.Context
import RecordStore.Proofs.Schema.Identifiers

/-!
Balanced code: all groups that are opened are closed, and none besides. Fixed pieces of code are
balanced because the lexer reads nothing else. In types the angle brackets count as well, outside of
groups.
-/
namespace RecordStore

/-! ### Groups -/

/-- The number of groups that are open after a token; none is closed that is not open. -/
def Token.nest (depth : Nat) : Token → Option Nat
  | opening _ => some (depth + 1)
  | closing _ => if depth = 0 then none else some (depth - 1)
  | _ => some depth

/-- The number of groups that are open after some code. -/
def Code.depth (n : Nat) (c : Code) : Option Nat := c.foldlM Token.nest n

/-- Code that closes the groups that it opens. -/
def Code.GroupBalanced (c : Code) : Prop := c.depth 0 = some 0

namespace Code

variable {a b c : Code} {m n : Nat}

@[simp]
theorem depth_nil : depth n [] = some n := rfl

@[simp]
theorem depth_append : depth n (a ++ b) = (depth n a).bind (depth · b) := List.foldlM_append

theorem depth_cons (t : Token) : depth n (t :: c) = (t.nest n).bind (depth · c) := List.foldlM_cons

@[simp]
theorem depth_group (d : Delimiter) : depth n (Token.group d c) =
    (depth (n + 1) c).bind fun m => if m = 0 then none else some (m - 1) := by
  have hc (m : Nat) : depth m [.closing d] = if m = 0 then none else some (m - 1) := by
    rw [depth_cons, Token.nest]
    split <;> rfl
  rw [Token.group, List.cons_append, depth_cons, Token.nest, Option.bind_some, depth_append]
  simp only [hc]

@[simp]
theorem depth_parens : depth n (Token.parens c) =
    (depth (n + 1) c).bind fun m => if m = 0 then none else some (m - 1) := depth_group _

@[simp]
theorem depth_brackets : depth n (Token.brackets c) =
    (depth (n + 1) c).bind fun m => if m = 0 then none else some (m - 1) := depth_group _

@[simp]
theorem depth_braces : depth n (Token.braces c) =
    (depth (n + 1) c).bind fun m => if m = 0 then none else some (m - 1) := depth_group _

/-- Code within groups leaves as many open as it does by itself. -/
theorem depth_within (h : depth m c = some n) (k : Nat) : depth (m + k) c = some (n + k) := by
  induction c generalizing m with
  | nil =>
    cases h
    rfl
  | cons t c ih =>
    rw [depth_cons] at h ⊢
    obtain ⟨l, ht, hc⟩ := Option.bind_eq_some_iff.mp h
    have hk : t.nest (m + k) = some (l + k) := by
      cases t with
      | closing d =>
        simp only [Token.nest] at ht ⊢
        split at ht
        · cases ht
        next hm =>
          cases ht
          rw [if_neg (by omega), Nat.sub_add_comm (Nat.one_le_iff_ne_zero.mpr hm)]
      | opening d =>
        cases ht
        rw [Token.nest, Nat.add_right_comm]
      | _ =>
        cases ht
        rfl
    rw [hk, Option.bind_some]
    exact ih hc

@[simp]
theorem GroupBalanced.depth (h : c.GroupBalanced) (n : Nat) : c.depth n = some n := by
  simpa using depth_within h n

end Code

namespace Lexer

variable {cs left : Chars} {fuel : Nat} {stack : List Delimiter}

theorem nest_of_punct? {t : Token} (h : punct? cs = some (t, left)) (n : Nat) :
    t.nest n = some n := by
  unfold punct? at h
  split at h
  · cases h
  · obtain ⟨⟨name, rest⟩, -, h⟩ := Option.bind_eq_some_iff.mp h
    dsimp only at h
    split at h
    · cases h
    · split at h <;> cases h <;> rfl
  · split at h <;> cases h
    rfl

theorem nest_of_leaf? {t : Token} (h : leaf? cs = some (t, left)) (n : Nat) :
    t.nest n = some n := by
  unfold leaf? at h
  split at h
  · cases h
    rfl
  split at h
  next hp =>
    cases h
    exact nest_of_punct? hp n
  split at h
  · cases h
  · obtain ⟨i, -, h⟩ := Option.map_eq_some_iff.mp h
    cases h
    rfl

theorem depth_documentation (d : DocComment) (n : Nat) : Code.depth n d.tokens = some n := by
  rcases d with ⟨_ | _, text⟩ <;> rfl

/-- The lexer ends where all groups are closed. -/
theorem depth_tokensFrom {ts : List Token} (h : tokensFrom fuel stack cs = some ts) :
    Code.depth stack.length ts = some 0 := by
  induction fuel generalizing stack cs ts with
  | zero => cases h
  | succ fuel ih =>
    have hcons {t : Token} {n : Nat} {rest : List Token} (ht : t.nest stack.length = some n)
        (hr : Code.depth n rest = some 0) : Code.depth stack.length (t :: rest) = some 0 := by
      rw [Code.depth_cons, ht]
      exact hr
    rw [tokensFrom] at h
    dsimp only at h
    split at h
    · split at h
      · obtain ⟨rest, hr, rfl⟩ := Option.map_eq_some_iff.mp h
        rw [Code.depth_append, depth_documentation]
        exact ih hr
      · cases h
    · cases h
    split at h
    · split at h
      next hs =>
        cases h
        rw [List.isEmpty_iff.mp hs]
        rfl
      · cases h
    split at h
    · obtain ⟨rest, hr, rfl⟩ := Option.map_eq_some_iff.mp h
      exact hcons rfl (ih hr)
    · obtain ⟨rest, hr, rfl⟩ := Option.map_eq_some_iff.mp h
      exact hcons rfl (ih hr)
    · split at h
      · split at h
        · obtain ⟨rest, hr, rfl⟩ := Option.map_eq_some_iff.mp h
          exact hcons rfl (ih hr)
        · cases h
      · cases h
    · obtain ⟨⟨t, left⟩, hl, h⟩ := Option.bind_eq_some_iff.mp h
      obtain ⟨rest, hr, rfl⟩ := Option.map_eq_some_iff.mp h
      exact hcons (nest_of_leaf? hl _) (ih hr)

end Lexer

/-! ### Pieces of code -/

namespace Code

variable {a b c : Code} {n : Nat}

theorem depth_respace (inside : Nat) (c : Code) (n : Nat) :
    depth n (respace inside c) = depth n c := by
  induction c generalizing inside n with
  | nil => rfl
  | cons t c ih => cases t <;> simp [respace, depth_cons, Token.nest, ih]

theorem balanced_ofText (s : String) : (ofText s).GroupBalanced := by
  rw [GroupBalanced, ofText, depth_respace]
  cases h : tokens? s with
  | none => rfl
  | some ts =>
    have hd : depth ([] : List Delimiter).length ts = some 0 := Lexer.depth_tokensFrom h
    exact hd

@[simp]
theorem depth_ofText (s : String) : depth n (ofText s) = some n := (balanced_ofText s).depth n

@[simp]
theorem depth_comma : depth n comma = some n := rfl

@[simp]
theorem depth_name (s : String) : depth n (name s) = some n := rfl

@[simp]
theorem depth_text (s : String) : depth n (text s) = some n := rfl

@[simp]
theorem depth_number (m : Nat) : depth n (number m) = some n := rfl

@[simp]
theorem depth_template (parts : List String) : depth n (template parts) = some n := rfl

@[simp]
theorem depth_stmt : depth n (stmt c) = depth n c := by simp [stmt]

@[simp]
theorem depth_commas_nil : depth n (commas []) = some n := rfl

@[simp]
theorem depth_commas_singleton : depth n (commas [a]) = depth n a := rfl

@[simp]
theorem depth_commas_cons (items : List Code) : depth n (commas (a :: b :: items)) =
    (depth n a).bind (depth · (commas (b :: items))) := by
  simp [commas, separated]

@[simp]
theorem depth_call (function : String) (arguments : List Code) :
    depth n (call function arguments) = depth n (Token.parens (commas arguments)) := by
  simp [call]

theorem GroupBalanced.flatMap {α : Type} {l : List α} {f : α → Code}
    (h : ∀ x ∈ l, (f x).GroupBalanced) : GroupBalanced (l.flatMap f) := by
  induction l with
  | nil => rfl
  | cons x l ih =>
    obtain ⟨hx, hl⟩ := List.forall_mem_cons.mp h
    rw [GroupBalanced, List.flatMap_cons, depth_append, hx, Option.bind_some]
    exact ih hl

theorem GroupBalanced.commas {items : List Code} (h : ∀ c ∈ items, c.GroupBalanced) :
    (commas items).GroupBalanced := by
  induction items with
  | nil => rfl
  | cons c items ih =>
    obtain ⟨hc, hi⟩ := List.forall_mem_cons.mp h
    cases items with
    | nil => exact hc
    | cons d items =>
      rw [GroupBalanced, depth_commas_cons, hc, Option.bind_some]
      exact ih hi

theorem GroupBalanced.call {arguments : List Code} (h : ∀ c ∈ arguments, c.GroupBalanced)
    (function : String) : (call function arguments).GroupBalanced := by
  rw [GroupBalanced, depth_call, depth_parens, (commas h).depth]
  rfl

theorem GroupBalanced.terminated {items : List Code} (h : ∀ c ∈ items, c.GroupBalanced) :
    (terminated items).GroupBalanced :=
  flatMap fun c hc => by
    rw [GroupBalanced]
    simp [h c hc]

end Code

/-! ### Angle brackets -/

/-- What is open at a place in code. Angle brackets only count outside of groups, and the end of an
arrow is none. -/
structure Brackets where
  groups : Nat
  angles : Nat
  /-- Whether an arrow may end next. -/
  dash : Bool
  deriving DecidableEq

namespace Brackets

/-- Nothing is open. -/
def start : Brackets := ⟨0, 0, false⟩

/-- What is open after a token. Braces and semicolons outside of all brackets are none of the code
that is looked at, and nothing is closed that is not open. -/
def next (s : Brackets) : Token → Option Brackets
  | .opening d =>
    if s.groups = 0 ∧ s.angles = 0 ∧ d = .brace then none
    else some ⟨s.groups + 1, s.angles, false⟩
  | .closing _ => if s.groups = 0 then none else some ⟨s.groups - 1, s.angles, false⟩
  | .punct c joint =>
    if s.groups = 0 ∧ s.angles = 0 ∧ c = ';' then none
    else if s.groups = 0 ∧ c = '<' then some ⟨0, s.angles + 1, false⟩
    else if s.groups = 0 ∧ c = '>' ∧ s.dash = false then
      if s.angles = 0 then none else some ⟨0, s.angles - 1, false⟩
    else some { s with dash := c == '-' && joint }
  | _ => some { s with dash := false }

end Brackets

namespace Code

variable {a b c : Code}

/-- Code that leads from some brackets to others. -/
def Leads (c : Code) (s t : Brackets) : Prop := c.foldlM Brackets.next s = some t

instance (c : Code) (s t : Brackets) : Decidable (c.Leads s t) :=
  inferInstanceAs (Decidable (c.foldlM Brackets.next s = some t))

theorem Leads.append {s t u : Brackets} (ha : a.Leads s t) (hb : b.Leads t u) :
    Leads (a ++ b) s u := by
  rw [Leads, List.foldlM_append, ha]
  exact hb

/-- Code that may stand in angle brackets: it closes all brackets that it opens, groups and angle
brackets. -/
def AngleBalanced (c : Code) : Prop := c.Leads ⟨0, 1, false⟩ ⟨0, 1, false⟩

instance (c : Code) : Decidable c.AngleBalanced :=
  inferInstanceAs (Decidable (c.Leads _ _))

theorem Leads.depth {s t : Brackets} (h : c.Leads s t) :
    c.depth s.groups = some t.groups := by
  induction c generalizing s with
  | nil =>
    cases h
    rfl
  | cons k c ih =>
    rw [Leads, List.foldlM_cons] at h
    obtain ⟨u, hk, hc⟩ := Option.bind_eq_some_iff.mp h
    have hn : k.nest s.groups = some u.groups := by
      cases k with
      | opening d =>
        simp only [Brackets.next] at hk
        split at hk <;> cases hk
        rfl
      | closing d =>
        simp only [Brackets.next] at hk
        split at hk <;> cases hk
        next hg => exact if_neg hg
      | punct m joint =>
        simp only [Brackets.next] at hk
        split at hk
        · cases hk
        split at hk
        next hg =>
          cases hk
          exact congrArg some hg.1
        split at hk
        next hg =>
          split at hk <;> cases hk
          exact congrArg some hg.1
        · cases hk
          rfl
      | _ =>
        cases hk
        rfl
    rw [depth_cons, hn]
    exact ih hc

theorem AngleBalanced.balanced (h : c.AngleBalanced) : c.GroupBalanced := h.depth

/-- Within more angle brackets code leads to as many more. -/
theorem Leads.within {s t : Brackets} (h : c.Leads s t) (k : Nat) :
    c.Leads { s with angles := s.angles + k } { t with angles := t.angles + k } := by
  induction c generalizing s with
  | nil =>
    cases h
    rfl
  | cons x c ih =>
    rw [Leads, List.foldlM_cons] at h ⊢
    obtain ⟨u, hx, hc⟩ := Option.bind_eq_some_iff.mp h
    have hn : Brackets.next { s with angles := s.angles + k } x =
        some { u with angles := u.angles + k } := by
      cases x with
      | opening d =>
        simp only [Brackets.next] at hx ⊢
        split at hx <;> cases hx
        next hb => rw [if_neg fun h => hb ⟨h.1, by omega, h.2.2⟩]
      | closing d =>
        simp only [Brackets.next] at hx ⊢
        split at hx <;> cases hx
        next hg => rw [if_neg hg]
      | punct m joint =>
        simp only [Brackets.next] at hx ⊢
        split at hx
        · cases hx
        next hsemi =>
          rw [if_neg fun h => hsemi ⟨h.1, by omega, h.2.2⟩]
          split at hx
          next hless =>
            cases hx
            rw [if_pos hless]
            congr 2
            exact Nat.add_right_comm ..
          next hless =>
            rw [if_neg hless]
            split at hx
            next hmore =>
              rw [if_pos hmore]
              split at hx <;> cases hx
              next ha =>
                rw [if_neg (by omega)]
                congr 2
                exact Nat.sub_add_comm (Nat.one_le_iff_ne_zero.mpr ha)
            next hmore =>
              cases hx
              rw [if_neg hmore]
      | _ =>
        cases hx
        rfl
    rw [hn]
    exact ih hc

/-- In groups angle brackets do not count. -/
theorem leads_of_depth {m n : Nat} (h : depth m c = some n) (angles : Nat)
    (dash : Bool) : ∃ dash', c.Leads ⟨m + 1, angles, dash⟩ ⟨n + 1, angles, dash'⟩ := by
  induction c generalizing m dash with
  | nil =>
    cases h
    exact ⟨dash, rfl⟩
  | cons t c ih =>
    rw [depth_cons] at h
    obtain ⟨l, ht, hc⟩ := Option.bind_eq_some_iff.mp h
    have hn : ∃ dash', Brackets.next ⟨m + 1, angles, dash⟩ t = some ⟨l + 1, angles, dash'⟩ := by
      cases t with
      | opening d =>
        cases ht
        exact ⟨false, by simp [Brackets.next]⟩
      | closing d =>
        simp only [Token.nest] at ht
        split at ht <;> cases ht
        next hm =>
          refine ⟨false, ?_⟩
          rw [Brackets.next, if_neg (Nat.succ_ne_zero m), Nat.add_sub_cancel,
            Nat.sub_add_cancel (Nat.one_le_iff_ne_zero.mpr hm)]
      | punct x joint =>
        cases ht
        exact ⟨x == '-' && joint, by simp [Brackets.next]⟩
      | _ =>
        cases ht
        exact ⟨false, rfl⟩
    obtain ⟨dash', hn⟩ := hn
    obtain ⟨last, hl⟩ := ih hc dash'
    refine ⟨last, ?_⟩
    rw [Leads, List.foldlM_cons, hn]
    exact hl

/-- A group that is not one of braces leaves the brackets as they are. -/
theorem GroupBalanced.leads {d : Delimiter} (h : c.GroupBalanced) (hd : d ≠ .brace) (angles : Nat)
    (dash : Bool) : Leads (Token.group d c) ⟨0, angles, dash⟩ ⟨0, angles, false⟩ := by
  obtain ⟨last, hl⟩ := leads_of_depth h angles false
  have ho : Leads [.opening d] ⟨0, angles, dash⟩ ⟨1, angles, false⟩ := by
    simp [Leads, Brackets.next, hd]
  exact (ho.append hl).append rfl

end Code
end RecordStore
