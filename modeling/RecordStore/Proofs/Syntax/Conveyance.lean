import RecordStore.Proofs.Syntax.LegibleSources

/-!
Legible code, read. What stands in legible code is legible again: the judgement says of a parser
that it takes legible code from the front of what is left of such code, and gives something that is
written in legible code. It is a class, so that parsers made of others have it by their structure.
-/
namespace RecordStore

open RecordStore.Parser

/-! ### What is left of legible code -/

namespace Code

variable {a b c : Code} {p q : Place} {t : Token}

theorem next_within (h : p.next t = some q) (outer : List Delimiter) :
    Place.next ⟨p.last, p.groups ++ outer⟩ t = some ⟨q.last, q.groups ++ outer⟩ := by
  obtain ⟨⟨hs, ha⟩, groups, hg, rfl⟩ := next_eq_some.mp h
  refine next_eq_some.mpr ⟨⟨hs, ha⟩, groups ++ outer, ?_, rfl⟩
  obtain ⟨last, inner⟩ := p
  cases t with
  | closing d =>
    cases inner with
    | nil => cases hg
    | cons e inner =>
      dsimp only [Lexer.advance] at hg
      split at hg <;> cases hg
      next hd =>
        dsimp only [List.cons_append, Lexer.advance]
        rw [if_pos hd]
  | _ =>
    cases inner <;> cases hg <;> cases outer <;> rfl

theorem lead_within (h : c.lead p = some q) (outer : List Delimiter) :
    c.lead ⟨p.last, p.groups ++ outer⟩ = some ⟨q.last, q.groups ++ outer⟩ := by
  induction c generalizing p with
  | nil =>
    cases h
    rfl
  | cons t c ih =>
    rw [lead_cons] at h ⊢
    obtain ⟨m, hm, hc⟩ := Option.bind_eq_some_iff.mp h
    rw [next_within hm, Option.bind_some, ih hc]

theorem isLegible_iff : c.IsLegible ↔ c.lead ⟨none, []⟩ = some ⟨none, []⟩ :=
  ⟨fun h => h [], fun h => lead_within h⟩

instance : DecidablePred IsLegible := fun _ => decidable_of_iff _ isLegible_iff.symm

/-- What is left of legible code, which may stand in groups that are open. -/
def Remains (c : Code) : Prop := ∃ groups, c.lead ⟨none, groups⟩ = some ⟨none, []⟩

theorem Remains.of_append (h : Remains (a ++ b)) (ha : a.IsLegible) : Remains b := by
  obtain ⟨groups, hg⟩ := h
  rw [lead_append, ha, Option.bind_some] at hg
  exact ⟨groups, hg⟩

theorem Remains.stands (h : Remains (t :: c)) : t.Stands := by
  obtain ⟨groups, hg⟩ := h
  obtain ⟨m, hm, -⟩ := Option.bind_eq_some_iff.mp (lead_cons.symm.trans hg)
  exact (next_eq_some.mp hm).1.1

end Code

/-! ### What is written in legible code -/

/-- A kind of phrases, with what it is for one to be written in legible code. -/
class Writing (α : Type) where
  IsLegible : α → Prop

/-- A phrase that is written in legible code. -/
class Legible {α : Type} [Writing α] (a : α) : Prop where
  isLegible : Writing.IsLegible a

namespace Legible

open Code

variable {α β : Type} [Writing α] [Writing β] {a : α} {b : β} {as bs : List α} {c d : Code}

instance : Writing Bool := ⟨fun _ => True⟩
instance : Writing Unit := ⟨fun _ => True⟩
instance : Writing Nat := ⟨fun _ => True⟩
instance : Writing Delimiter := ⟨fun _ => True⟩
instance (priority := high) : Writing Code := ⟨Code.IsLegible⟩
instance : Writing Token := ⟨fun t => IsLegible [t]⟩
instance : Writing String := ⟨fun n => IsLegible [.ident n]⟩
instance : Writing (List α) := ⟨fun as => ∀ a ∈ as, Writing.IsLegible a⟩
instance : Writing (Option α) := ⟨fun o => ∀ a ∈ o, Writing.IsLegible a⟩
instance : Writing (α × β) := ⟨fun x => Writing.IsLegible x.1 ∧ Writing.IsLegible x.2⟩

instance (b : Bool) : Legible b := ⟨trivial⟩
instance (u : Unit) : Legible u := ⟨trivial⟩
instance (n : Nat) : Legible n := ⟨trivial⟩
instance (d : Delimiter) : Legible d := ⟨trivial⟩

instance [ha : Legible a] [hb : Legible b] : Legible (a, b) := ⟨ha.isLegible, hb.isLegible⟩

/-- A phrase that comes with what makes it legible. -/
instance (a : {a : α // Legible a}) : Legible a.val := a.property

theorem fst (h : Legible (a, b)) : Legible a := ⟨h.isLegible.1⟩
theorem snd (h : Legible (a, b)) : Legible b := ⟨h.isLegible.2⟩

theorem of_some (h : Legible (some a)) : Legible a := ⟨h.isLegible a rfl⟩

instance {x : α × β} [h : Legible x] : Legible x.1 := ⟨h.isLegible.1⟩
instance {x : α × β} [h : Legible x] : Legible x.2 := ⟨h.isLegible.2⟩

instance : Legible (none : Option α) := ⟨nofun⟩

instance [ha : Legible a] : Legible (some a) := ⟨by
  rintro _ ⟨⟩
  exact ha.isLegible⟩

instance {o : Option α} {f : α → β} [h : Legible o]
    [hf : ∀ a : {a : α // Legible a}, Legible (f a.val)] : Legible (o.map f) := by
  cases o with
  | none => exact ⟨nofun⟩
  | some a =>
    have hfa := hf ⟨a, of_some h⟩
    exact inferInstanceAs (Legible (some (f a)))

instance {o : Option α} [ho : Legible o] [ha : Legible a] : Legible (o.getD a) := by
  cases o with
  | none => exact ha
  | some b => exact of_some ho

instance : Legible ([] : List α) := ⟨nofun⟩

instance [ha : Legible a] [has : Legible as] : Legible (a :: as) := ⟨by
  rintro b hb
  rcases List.mem_cons.mp hb with rfl | hb
  · exact ha.isLegible
  · exact has.isLegible b hb⟩

instance [ha : Legible as] [hb : Legible bs] : Legible (as ++ bs) := ⟨fun a h =>
  (List.mem_append.mp h).elim (ha.isLegible a) (hb.isLegible a)⟩

theorem of_head (h : Legible (a :: as)) : Legible a := ⟨h.isLegible a List.mem_cons_self⟩

theorem of_tail (h : Legible (a :: as)) : Legible as :=
  ⟨fun b hb => h.isLegible b (List.mem_cons_of_mem a hb)⟩

instance {p : Prop} [Decidable p] {a b : α} [ha : Legible a] [hb : Legible b] :
    Legible (if p then a else b) := by
  split
  · exact ha
  · exact hb

/-! ### Code -/

instance : Legible ([] : Code) := ⟨.nil⟩

instance [hc : Legible c] [hd : Legible d] : Legible (c ++ d) := ⟨hc.isLegible.append hd.isLegible⟩

instance {t : Token} [ht : Legible t] [hc : Legible c] : Legible (t :: c) :=
  ⟨IsLegible.append ht.isLegible hc.isLegible⟩

instance {d : Delimiter} [hc : Legible c] : Legible (Token.group d c) := ⟨hc.isLegible.group d⟩

instance [hc : Legible c] : Legible (Token.parens c) := ⟨hc.isLegible.group _⟩

instance [hc : Legible c] : Legible (Token.brackets c) := ⟨hc.isLegible.group _⟩

instance [hc : Legible c] : Legible (Token.braces c) := ⟨hc.isLegible.group _⟩

instance {n : String} [hn : Legible n] : Legible (Token.ident n) := ⟨hn.isLegible⟩

end Legible

/-! ### Words and marks -/

/-- A member of a list, found by going through it. -/
class Listed {α : Type} (a : α) (as : List α) : Prop where
  mem : a ∈ as

namespace Listed

variable {α : Type} {a b : α} {as : List α}

instance instHead : Listed a (a :: as) := ⟨List.mem_cons_self⟩
instance instTail [h : Listed a as] : Listed a (b :: as) := ⟨List.mem_cons_of_mem b h.mem⟩

end Listed

/-- Words that phrases are written with. -/
abbrev phraseWords : List String :=
  ["mut", "const", "as", "for", "unsafe", "fn", "dyn", "impl", "use", "extern", "_", "where",
   "self", "if", "else", "let", "match", "in", "loop", "while", "async", "move", "static", "try",
   "await", "break", "continue", "return", "yield", "raw", "ref", "box", "pub", "struct", "enum",
   "union", "type", "mod", "crate", "trait", "auto", "default", "safe"]

instance {n : String} [h : Listed n phraseWords] : Legible n := by
  have hw : ∀ n ∈ phraseWords, Code.IsLegible [.ident n] := by decide +kernel
  exact ⟨hw n h.mem⟩

/-- The marks of an operator, the last of which may be joint to what follows. -/
def Token.marks (joint : Bool) : List Char → Code
  | [] => []
  | [c] => [.punct c joint]
  | c :: cs => .punct c true :: Token.marks joint cs

/-- Operators that are legible code whatever follows them. -/
abbrev safeOperators : List String :=
  ["::", ",", ":", "<", ">", "=", "+", "!", "?", "#", "&", "*", "-", ";", "->", "=>", "|", "..",
   "...", "..=", "@", "."]

class IsOperator (marks : String) : Prop where
  isLegible : ∀ joint, (Token.marks joint marks.toList).IsLegible

instance {marks : String} [h : Listed marks safeOperators] : IsOperator marks := by
  have hm : ∀ marks ∈ safeOperators, ∀ joint, (Token.marks joint marks.toList).IsLegible := by
    decide +kernel
  exact ⟨hm marks h.mem⟩

theorem Token.operator_eq (marks : String) :
    Token.operator marks = Token.marks false marks.toList := by
  have hgo (cs : List Char) : Token.operator.go cs = Token.marks false cs := by
    induction cs with
    | nil => rfl
    | cons c cs ih =>
      cases cs with
      | nil => rfl
      | cons d cs => simp only [Token.operator.go, Token.marks, ih]
  exact hgo _

instance {marks : String} [h : IsOperator marks] : Legible (Token.operator marks) :=
  ⟨by
    rw [Token.operator_eq]
    exact h.isLegible false⟩

instance {a : Bool} : Legible (rootTokens a) := by
  unfold rootTokens pathMark
  infer_instance

/-! ### The judgement -/

namespace Parser

open Code Extends

section Runs

variable {α : Type} {p : Parser α} {ts us r : List Token} {a : α}

theorem exists_of_afterOperator {cs : List Char} (h : afterOperator cs ts = some r) :
    ∃ joint, ts = Token.marks joint cs ++ r := by
  induction cs generalizing ts with
  | nil =>
    cases h
    exact ⟨false, rfl⟩
  | cons c cs ih =>
    cases ts with
    | nil => cases cs <;> cases h
    | cons t ts =>
      cases t with
      | punct d joint =>
        cases cs with
        | nil =>
          simp only [afterOperator] at h
          split at h <;> cases h
          next hd =>
            rw [beq_iff_eq] at hd
            exact ⟨joint, by rw [hd]; rfl⟩
        | cons c' cs =>
          cases joint with
          | false => cases h
          | true =>
            simp only [afterOperator] at h
            split at h
            next hd =>
              rw [beq_iff_eq] at hd
              obtain ⟨joint, rfl⟩ := ih h
              exact ⟨joint, by rw [hd]; rfl⟩
            next => cases h
      | _ => cases cs <;> cases h

/-- A literal is one token, or a sign and the token behind it. -/
theorem run_literal (h : literal.run ts = some (us, r)) :
    (∃ t, ts = t :: r ∧ us = [t] ∧ ((∃ s, t = .literal s) ∨ ∃ n, t = .ident n)) ∨
      ∃ joint s, ts = .punct '-' joint :: .literal s :: r ∧
        us = Token.operator "-" ++ [.literal s] := by
  let signed : Parser (List Token) := do
    if ← seesOp "-" then
      op "-"
      return Token.operator "-" ++ [← take]
    else return [← take]
  have hrun : literal.run ts = ((require (literalAhead ts)) >>= fun _ => signed).run ts := rfl
  obtain ⟨u, m, hreq, hsigned⟩ := run_bind_eq.mp (hrun.symm.trans h)
  obtain ⟨hahead, rfl⟩ := Completes.run_require_eq.mp hreq
  unfold literalAhead at hahead
  split at hahead
  next s rest =>
    cases hsigned
    exact .inl ⟨_, rfl, rfl, .inl ⟨s, rfl⟩⟩
  next n rest =>
    cases hsigned
    exact .inl ⟨_, rfl, rfl, .inr ⟨n, rfl⟩⟩
  next joint s rest =>
    cases hsigned
    exact .inr ⟨joint, s, rfl, rfl⟩
  next => cases hahead

theorem run_delimited {d : Delimiter} (h : (delimited d p).run ts = some (a, r)) :
    ∃ us, ts = .opening d :: us ∧ p.run us = some (a, .closing d :: r) := by
  unfold delimited at h
  simp only [run_bind_eq] at h
  obtain ⟨t, m, htake, _, m', hreq, a', n, ha, u, r', htake', _, r'', heq, hpure⟩ := h
  cases ts with
  | nil => cases htake
  | cons v us =>
    cases htake
    obtain ⟨hd, rfl⟩ := Completes.run_require_eq.mp hreq
    cases n with
    | nil => cases htake'
    | cons w n =>
      cases htake'
      obtain ⟨he, rfl⟩ := Completes.run_require_eq.mp heq
      cases hpure
      rw [beq_iff_eq] at he
      cases t with
      | opening e =>
        obtain rfl := of_decide_eq_true hd
        exact ⟨_, rfl, he ▸ ha⟩
      | _ => cases hd

end Runs

/-- The parser takes legible code from the front of what is left of such code, and gives what is
written in legible code. -/
class Conveys {α : Type} [Writing α] (p : Parser α) : Prop where
  convey : ∀ {ts a r}, Remains ts → p.run ts = some (a, r) →
    Legible a ∧ ∃ eaten, IsLegible eaten ∧ ts = eaten ++ r

namespace Conveys

variable {α β γ δ : Type} [Writing α] [Writing β] [Writing γ] [Writing δ] {p q : Parser α}
  {ts us r : List Token} {a : α}

theorem remains [hp : Conveys p] (h : Remains ts) (hr : p.run ts = some (a, r)) : Remains r := by
  obtain ⟨-, eaten, he, rfl⟩ := hp.convey h hr
  exact h.of_append he

theorem bind {f : α → Parser β} (hp : Conveys p) (hf : ∀ a, Legible a → Conveys (f a)) :
    Conveys (p >>= f) where
  convey h hr := by
    obtain ⟨a, m, ha, hb⟩ := run_bind_eq.mp hr
    obtain ⟨hl, front, hfront, rfl⟩ := hp.convey h ha
    obtain ⟨hl', back, hback, rfl⟩ := (hf a hl).convey (h.of_append hfront) hb
    exact ⟨hl', front ++ back, hfront.append hback, (List.append_assoc ..).symm⟩

/-- What is read is bound together with what makes it legible, so that instances find it there. -/
instance instBind {f : α → Parser β} [hp : Conveys p]
    [hf : ∀ a : {a : α // Legible a}, Conveys (f a.val)] : Conveys (p >>= f) :=
  hp.bind fun a ha => hf ⟨a, ha⟩

instance instBindPair {p : Parser (α × β)} {f : α × β → Parser γ} [hp : Conveys p]
    [hf : ∀ (a : {a : α // Legible a}) (b : {b : β // Legible b}), Conveys (f (a.val, b.val))] :
    Conveys (p >>= f) :=
  hp.bind fun ⟨a, b⟩ h => hf ⟨a, h.fst⟩ ⟨b, h.snd⟩

instance instBindTriple {p : Parser (α × β × γ)} {f : α × β × γ → Parser δ} [hp : Conveys p]
    [hf : ∀ (a : {a : α // Legible a}) (b : {b : β // Legible b}) (c : {c : γ // Legible c}),
      Conveys (f (a.val, b.val, c.val))] : Conveys (p >>= f) :=
  hp.bind fun ⟨a, b, c⟩ h => hf ⟨a, h.fst⟩ ⟨b, h.snd.fst⟩ ⟨c, h.snd.snd⟩

instance instPure [ha : Legible a] : Conveys (pure a : Parser α) where
  convey _ hr := by
    cases hr
    exact ⟨ha, [], .nil, rfl⟩

instance instFail : Conveys (fail : Parser α) where
  convey _ hr := by cases hr

instance instMap {f : α → β} [hp : Conveys p]
    [hf : ∀ a : {a : α // Legible a}, Legible (f a.val)] : Conveys (f <$> p) := by
  rw [← bind_pure_comp]
  infer_instance

theorem ite {c : Prop} [Decidable c] (hp : Conveys p) (hq : Conveys q) :
    Conveys (if c then p else q) := by
  split
  · exact hp
  · exact hq

instance instIte {c : Prop} [Decidable c] [hp : Conveys p] [hq : Conveys q] :
    Conveys (if c then p else q) := hp.ite hq

/-- What only looks ahead decides how to go on. -/
theorem look_bind {γ : Type} {p : Parser γ} {f : γ → Parser α} (hp : Grammar.Looks p)
    (hf : ∀ a, Conveys (f a)) : Conveys (p >>= f) where
  convey {ts a r} h hr := by
    obtain ⟨b, m, hb, hr⟩ := run_bind_eq.mp hr
    obtain ⟨b', hb'⟩ := hp.look ts
    rw [hb'] at hb
    cases hb
    exact (hf b).convey h hr

instance (priority := high) instLookBind {γ : Type} {p : Parser γ} {f : γ → Parser α}
    [hp : Grammar.Looks p] [hf : ∀ a, Conveys (f a)] : Conveys (p >>= f) := look_bind hp hf

instance instLook {p : Parser Bool} [hp : Grammar.Looks p] : Conveys p where
  convey {ts a r} _ hr := by
    obtain ⟨b, hb⟩ := hp.look ts
    rw [hb] at hr
    cases hr
    exact ⟨inferInstance, [], .nil, rfl⟩

instance instLift {o : Option α} [ho : Legible o] : Conveys (StateT.lift o : Parser α) := by
  cases o with
  | none => exact instFail
  | some a =>
    have ha := Legible.of_some ho
    exact instPure

/-! ### Looking ahead -/

open Grammar in
instance : Looks next? := ⟨fun _ => ⟨_, rfl⟩⟩
instance (w : String) : Grammar.Looks (sees w) := ⟨fun _ => ⟨_, rfl⟩⟩
instance (marks : String) : Grammar.Looks (seesOp marks) := ⟨fun _ => ⟨_, rfl⟩⟩
instance : Grammar.Looks seesName := ⟨fun _ => ⟨_, rfl⟩⟩
instance : Grammar.Looks seesLifetime := ⟨fun _ => ⟨_, rfl⟩⟩
instance (d : Delimiter) : Grammar.Looks (seesOpen d) := ⟨fun _ => ⟨_, rfl⟩⟩
instance : Grammar.Looks atEnd := ⟨fun _ => ⟨_, rfl⟩⟩
instance : Grammar.Looks seesLiteral := ⟨fun _ => ⟨_, rfl⟩⟩
instance : Grammar.Looks ahead := ⟨fun _ => ⟨_, rfl⟩⟩
instance : Grammar.Looks rounds := ⟨fun _ => ⟨_, rfl⟩⟩

/-! ### Taking tokens -/

instance (b : Bool) : Conveys (require b) := by
  unfold require
  infer_instance

/-- A single token that neither belongs to a group nor awaits anything. -/
theorem convey_token {t : Token} (h : Remains (t :: r)) (ho : ∀ d, t ≠ .opening d)
    (hc : ∀ d, t ≠ .closing d) (ha : t.awaits = false) : IsLegible [t] := by
  have hp : t.isPlain = true := by
    have hs := h.stands
    cases t with
    | opening d => exact absurd rfl (ho d)
    | closing d => exact absurd rfl (hc d)
    | _ => simp [Token.isPlain, hs, ha]
  exact isLegible_singleton hp

theorem of_take {f : Token → Parser α}
    (hf : ∀ {t r}, Remains (t :: r) → IsLegible [t] ∧ Conveys (f t) ∨ (f t).run r = none) :
    Conveys (take >>= f) where
  convey {ts a r} h hr := by
    cases ts with
    | nil => cases hr
    | cons t ts =>
      have hr : (f t).run ts = some (a, r) := hr
      rcases hf h with ⟨ht, hc⟩ | hn
      · obtain ⟨ha, eaten, he, rfl⟩ := hc.convey (h.of_append (a := [t]) ht) hr
        exact ⟨ha, t :: eaten, IsLegible.append ht he, rfl⟩
      · rw [hn] at hr
        cases hr

instance (w : String) : Conveys (word w) := by
  unfold word
  refine of_take fun {t r} h => ?_
  cases t with
  | ident n => exact .inl ⟨convey_token h nofun nofun rfl, inferInstance⟩
  | _ => exact .inr rfl

instance (w : String) : Conveys (word? w) where
  convey {ts a r} h hr := by
    cases ts with
    | nil =>
      cases hr
      exact ⟨inferInstance, [], .nil, rfl⟩
    | cons t ts =>
      rw [Surveys.run_word?] at hr
      split at hr <;> cases hr
      next hw =>
        cases t with
        | ident n => exact ⟨inferInstance, [.ident n], convey_token h nofun nofun rfl, rfl⟩
        | _ => cases hw
      next => exact ⟨inferInstance, [], .nil, rfl⟩

instance : Conveys anyWord := by
  unfold anyWord
  refine of_take fun {t r} h => ?_
  cases t with
  | ident n =>
    have hn := convey_token h nofun nofun rfl
    have hl : Legible n := ⟨hn⟩
    exact .inl ⟨hn, instPure⟩
  | _ => exact .inr rfl

instance : Conveys name := by
  unfold name
  infer_instance

/-- Where what is read stands for something legible, it is bound together with that. -/
theorem bind_of_map {γ : Type} {p : Parser γ} {m : γ → α} {f : γ → Parser β}
    (hp : Conveys (m <$> p)) (hf : ∀ x, Legible (m x) → Conveys (f x)) : Conveys (p >>= f) where
  convey {ts b r} h hr := by
    obtain ⟨x, left, hx, hb⟩ := run_bind_eq.mp hr
    have hm : (m <$> p).run ts = some (m x, left) := by
      rw [← bind_pure_comp]
      exact run_bind_eq.mpr ⟨x, left, hx, rfl⟩
    obtain ⟨hl, front, hfront, rfl⟩ := hp.convey h hm
    obtain ⟨hl', back, hback, rfl⟩ := (hf x hl).convey (h.of_append hfront) hb
    exact ⟨hl', front ++ back, hfront.append hback, (List.append_assoc ..).symm⟩

instance : Conveys (Token.lifetime <$> lifetime) := by
  unfold lifetime
  rw [map_bind]
  refine of_take fun {t r} h => ?_
  cases t with
  | lifetime l =>
    have hl := convey_token h nofun nofun rfl
    have ht : Legible (Token.lifetime l) := ⟨hl⟩
    exact .inl ⟨hl, instPure⟩
  | _ => exact .inr rfl

instance (priority := high) instBindLifetime {f : String → Parser α}
    [hf : ∀ l : {l : String // Legible (Token.lifetime l)}, Conveys (f l.val)] :
    Conveys (lifetime >>= f) := bind_of_map inferInstance fun l hl => hf ⟨l, hl⟩

instance (l : {l : String // Legible (Token.lifetime l)}) : Legible (Token.lifetime l.val) :=
  l.property

theorem convey_take {t : Token} (h : Remains (t :: ts)) (ht : IsLegible [t]) (hp : Conveys p)
    (hr : (take >>= fun _ => p).run (t :: ts) = some (a, r)) :
    Legible a ∧ ∃ eaten, IsLegible eaten ∧ t :: ts = eaten ++ r := by
  obtain ⟨ha, eaten, he, rfl⟩ := hp.convey (h.of_append (a := [t]) ht) hr
  exact ⟨ha, t :: eaten, IsLegible.append ht he, rfl⟩

/-- A literal that is seen is known to be legible where it is taken. -/
theorem of_next {f : Option Token → Parser α}
    (hl : ∀ {s ts a r}, Remains (.literal s :: ts) → Legible (Token.literal s) →
      (f (some (.literal s))).run (.literal s :: ts) = some (a, r) →
      Legible a ∧ ∃ eaten, IsLegible eaten ∧ .literal s :: ts = eaten ++ r)
    (ho : ∀ t, (∀ s, t ≠ some (.literal s)) → Conveys (f t)) : Conveys (next? >>= f) where
  convey {ts a r} h hr := by
    have hr : (f ts.head?).run ts = some (a, r) := hr
    by_cases hs : ∃ s, ts.head? = some (.literal s)
    · obtain ⟨s, hs⟩ := hs
      obtain ⟨us, rfl⟩ := List.head?_eq_some_iff.mp hs
      exact hl h ⟨convey_token h nofun nofun rfl⟩ hr
    · exact (ho _ fun s he => hs ⟨s, he⟩).convey h hr

instance {marks : String} [hm : IsOperator marks] : Conveys (op marks) where
  convey _ hr := by
    obtain ⟨joint, rfl⟩ := exists_of_afterOperator (run_op_eq.mp hr)
    exact ⟨inferInstance, _, hm.isLegible joint, rfl⟩

instance {marks : String} [hm : IsOperator marks] : Conveys (op? marks) where
  convey _ hr := by
    rw [run_op?_eq] at hr
    split at hr <;> cases hr
    next ho =>
      obtain ⟨joint, rfl⟩ := exists_of_afterOperator ho
      exact ⟨inferInstance, _, hm.isLegible joint, rfl⟩
    next => exact ⟨inferInstance, [], .nil, rfl⟩

instance : Conveys literal where
  convey {ts lit r} h hr := by
    rcases run_literal hr with ⟨t, rfl, rfl, ht⟩ | ⟨joint, s, rfl, rfl⟩
    · have hl : IsLegible [t] := by
        rcases ht with ⟨s, rfl⟩ | ⟨n, rfl⟩ <;> exact convey_token h nofun nofun rfl
      exact ⟨⟨hl⟩, [t], hl, rfl⟩
    · have hm : IsLegible [.punct '-' joint] := convey_token h nofun nofun rfl
      have hs : IsLegible [.literal s] :=
        convey_token (h.of_append (a := [.punct '-' joint]) hm) nofun nofun rfl
      have ht : Legible (Token.literal s) := ⟨hs⟩
      exact ⟨inferInstance, [.punct '-' joint, .literal s], hm.append hs, rfl⟩

/-! ### Groups -/

theorem convey_group {d : Delimiter} [hp : Conveys p] (h : Remains (.opening d :: ts))
    (hr : p.run ts = some (a, .closing d :: r)) :
    Legible a ∧ ∃ eaten, IsLegible eaten ∧ .opening d :: ts = eaten ++ r := by
  obtain ⟨groups, hg⟩ := h
  have ho : Place.next ⟨none, groups⟩ (.opening d) = some ⟨none, d :: groups⟩ := by
    rw [next_of_stands (t := .opening d) trivial rfl]
    cases groups <;> rfl
  rw [lead_cons, ho, Option.bind_some] at hg
  obtain ⟨ha, eaten, he, rfl⟩ := hp.convey ⟨_, hg⟩ hr
  exact ⟨ha, Token.group d eaten, he.group d, by simp [Token.group]⟩

instance {d : Delimiter} [hp : Conveys p] : Conveys (delimited d p) where
  convey h hr := by
    obtain ⟨us, rfl, hus⟩ := run_delimited hr
    exact convey_group h hus

/-- What awaits something does not stand at the end of a group. -/
theorem last_of_closing {d : Delimiter} {p q : Place} (h : p.next (.closing d) = some q) :
    p.last = none := by
  obtain ⟨⟨-, ha⟩, -⟩ := next_eq_some.mp h
  cases hl : p.last with
  | none => rfl
  | some t =>
    have hn : t.admits (.closing d) = false := by
      unfold Token.admits
      split
      next he => cases he
      next => rfl
      next => cases d <;> decide
    simp [hl, hn] at ha

/-- The tokens up to the end of a group lead from what is open in it to its end. -/
theorem lead_of_groupTokens {n : Nat} {last : Option Token} {inner outer : List Delimiter}
    {body : List Token} (hn : inner.length = n) (h : groupTokens n ts = some (body, r))
    (hl : lead ⟨last, inner ++ outer⟩ ts = some ⟨none, []⟩) :
    ts = body ++ r ∧ lead ⟨last, inner⟩ body = some ⟨none, []⟩ := by
  induction ts generalizing n last inner body with
  | nil =>
    cases h
    obtain ⟨hlast, hg⟩ := Place.mk.inj (Option.some.inj hl)
    obtain ⟨rfl, -⟩ := List.append_eq_nil_iff.mp hg
    rw [hlast]
    exact ⟨rfl, rfl⟩
  | cons t ts ih =>
    rw [lead_cons] at hl
    obtain ⟨q, hq, hl⟩ := Option.bind_eq_some_iff.mp hl
    -- a token that stays inside of the group
    have hstep {k : Nat} {inner' : List Delimiter} (hadv : Lexer.advance inner t = some inner')
        (hk : inner'.length = k)
        (h : (groupTokens k ts).map (fun x => (t :: x.1, x.2)) = some (body, r)) :
        t :: ts = body ++ r ∧ lead ⟨last, inner⟩ body = some ⟨none, []⟩ := by
      obtain ⟨⟨b, r'⟩, hb, he⟩ := Option.map_eq_some_iff.mp h
      cases he
      obtain ⟨hstand, -⟩ := next_eq_some.mp hq
      have hn : Place.next ⟨last, inner⟩ t = some ⟨if t.awaits then some t else none, inner'⟩ :=
        next_eq_some.mpr ⟨hstand, inner', hadv, rfl⟩
      cases (next_within hn outer).symm.trans hq
      obtain ⟨hts, hlead⟩ := ih hk hb hl
      exact ⟨congrArg (t :: ·) hts, by rw [lead_cons, hn, Option.bind_some, hlead]⟩
    unfold groupTokens at h
    split at h
    next d =>
      cases h
      obtain rfl := List.length_eq_zero_iff.mp hn
      obtain rfl : last = none := last_of_closing hq
      exact ⟨rfl, rfl⟩
    next d n =>
      cases inner with
      | nil => cases hn
      | cons e inner =>
        have hd : d = e := by
          obtain ⟨-, groups, hg, -⟩ := next_eq_some.mp hq
          dsimp only [List.cons_append, Lexer.advance] at hg
          split at hg
          · assumption
          · cases hg
        exact hstep (by rw [Lexer.advance, if_pos hd]) (Nat.succ.inj hn) h
    next d =>
      have hadv : Lexer.advance inner (.opening d) = some (d :: inner) := by cases inner <;> rfl
      exact hstep hadv (congrArg (· + 1) hn) h
    next ho hz hs =>
      have hadv : Lexer.advance inner t = some inner := by
        cases t with
        | opening d => exact (ho d rfl).elim
        | closing d =>
          cases n with
          | zero => exact (hz d rfl rfl).elim
          | succ n => exact (hs d n rfl rfl).elim
        | _ => cases inner <;> rfl
      exact hstep hadv hn h

instance : Conveys rest where
  convey h hr := by
    rw [run_rest] at hr
    obtain ⟨groups, hg⟩ := h
    obtain ⟨rfl, hb⟩ := lead_of_groupTokens List.length_nil hr hg
    have hb := isLegible_iff.mpr hb
    exact ⟨⟨hb⟩, _, hb, rfl⟩

instance : Conveys anyGroup where
  convey {ts a r} h hr := by
    cases ts with
    | nil => cases hr
    | cons t ts =>
      cases t with
      | opening d =>
        have hr : (rest >>= fun body => take >>= fun t => require (t == .closing d) >>= fun _ =>
            pure (d, body)).run ts = some (a, r) := hr
        obtain ⟨body, m, hbody, hr⟩ := run_bind_eq.mp hr
        obtain ⟨u, m', htake, hr⟩ := run_bind_eq.mp hr
        obtain ⟨_, m'', hreq, hr⟩ := run_bind_eq.mp hr
        cases m with
        | nil => cases htake
        | cons w m =>
          cases htake
          obtain ⟨he, rfl⟩ := Completes.run_require_eq.mp hreq
          cases hr
          rw [beq_iff_eq] at he
          obtain ⟨hl, eaten⟩ := convey_group h (he ▸ hbody)
          exact ⟨inferInstance, eaten⟩
      | _ => cases hr

theorem tokensBetween_self (eaten r : List Token) : tokensBetween (eaten ++ r) r = eaten := by
  simp [tokensBetween]

instance [hp : Conveys p] : Conveys (withTokens p) where
  convey h hr := by
    obtain ⟨hr, htokens⟩ := run_withTokens_eq.mp hr
    obtain ⟨ha, eaten, he, rfl⟩ := hp.convey h hr
    rw [tokensBetween_self] at htokens
    exact ⟨⟨ha.isLegible, by rw [htokens]; exact he⟩, eaten, he, rfl⟩

/-! ### Repetition -/

-- Instances repeat the parsers that they are about, so they grow with their nesting.
set_option synthInstance.maxSize 100000

instance whileSees_go {c : Parser Bool} [Conveys c] [Conveys p] (n : List Token) :
    Conveys (whileSees.go c p n) := by
  induction n with
  | nil => exact instFail
  | cons t n ih =>
    unfold whileSees.go
    infer_instance

instance {c : Parser Bool} [Conveys c] [Conveys p] : Conveys (whileSees c p) := by
  unfold whileSees
  infer_instance

instance separatedUntil_go {c : Parser Bool} {mark : String} [Conveys c] [Conveys p]
    [IsOperator mark] (n : List Token) : Conveys (separatedUntil.go c mark p n) := by
  induction n with
  | nil => exact instFail
  | cons t n ih =>
    unfold separatedUntil.go
    infer_instance

instance {c : Parser Bool} {mark : String} [Conveys c] [Conveys p] [IsOperator mark] :
    Conveys (separatedUntil c mark p) := by
  unfold separatedUntil
  infer_instance

instance joinedUntil_go {c : Parser Bool} [Conveys c] [Conveys p] (n : List Token) :
    Conveys (joinedUntil.go c p n) := by
  induction n with
  | nil => exact instFail
  | cons t n ih =>
    unfold joinedUntil.go
    infer_instance

instance {c : Parser Bool} [Conveys c] [Conveys p] : Conveys (joinedUntil c p) := by
  unfold joinedUntil
  infer_instance

instance [Conveys p] : Conveys (commaList p) := by
  unfold commaList
  infer_instance

instance {c : Parser Bool} [Conveys c] [Conveys p] : Conveys (optional? c p) := by
  unfold optional?
  infer_instance

/-! ### Lifetimes -/

theorem map_optional? {γ δ : Type} {c : Parser Bool} {p : Parser γ} (m : γ → δ) :
    Option.map m <$> optional? c p = optional? c (m <$> p) := by
  unfold optional?
  rw [map_bind]
  congr 1
  funext b
  cases b <;> simp

instance : Conveys (Option.map Token.lifetime <$> lifetime?) := by
  have h : lifetime? = optional? seesLifetime lifetime := rfl
  rw [h, map_optional?]
  infer_instance

/-- A label is bound together with what makes it legible. -/
instance (priority := high) instBindLabel {f : Option String → Parser α}
    [hf : ∀ l : {l : Option String // Legible (l.map Token.lifetime)}, Conveys (f l.val)] :
    Conveys (lifetime? >>= f) := bind_of_map inferInstance fun l hl => hf ⟨l, hl⟩

instance (l : {l : Option String // Legible (l.map Token.lifetime)}) :
    Legible (l.val.map Token.lifetime) := l.property

theorem map_joinedUntil {γ δ : Type} {c : Parser Bool} {p : Parser γ} (m : γ → δ) :
    (fun x : List γ × Bool => (x.1.map m, x.2)) <$> joinedUntil c p = joinedUntil c (m <$> p) := by
  have hgo (n : List Token) : (fun x : List γ × Bool => (x.1.map m, x.2)) <$> joinedUntil.go c p n =
      joinedUntil.go c (m <$> p) n := by
    induction n with
    | nil => rfl
    | cons t n ih =>
      unfold joinedUntil.go
      rw [map_bind]
      congr 1
      funext b
      cases b
      · simp only [Bool.false_eq_true, if_false, map_bind, bind_map_left]
        congr 1
        funext a
        congr 1
        funext joined
        cases joined
        · simp
        · simp only [if_true, map_bind, ← ih, bind_map_left]
          simp
      · simp
  unfold joinedUntil
  simp only [map_bind, ← hgo, bind_map_left]
  simp

instance {c : Parser Bool} [Conveys c] :
    Conveys ((fun x : List String × Bool => (x.1.map fun l => ([Token.lifetime l] : Code), x.2)) <$>
      joinedUntil c lifetime) := by
  have h : (fun l => ([Token.lifetime l] : Code)) <$> lifetime =
      (fun t => ([t] : Code)) <$> (Token.lifetime <$> lifetime) := by
    rw [Functor.map_map]
  rw [map_joinedUntil, h]
  infer_instance

/-- Lifetimes are bound together with what makes them legible. -/
instance (priority := high) instBindLifetimes {c : Parser Bool} [Conveys c]
    {f : List String × Bool → Parser α}
    [hf : ∀ (ls : {ls : List String // Legible (ls.map fun l => ([Token.lifetime l] : Code))}) b,
      Conveys (f (ls.val, b))] : Conveys (joinedUntil c lifetime >>= f) :=
  bind_of_map
    (m := fun x : List String × Bool => (x.1.map fun l => ([Token.lifetime l] : Code), x.2))
    inferInstance fun ⟨ls, b⟩ hl => hf ⟨ls, hl.fst⟩ b

instance (ls : {ls : List String // Legible (ls.map fun l => ([Token.lifetime l] : Code))}) :
    Legible (ls.val.map fun l => ([Token.lifetime l] : Code)) := ls.property

end Conveys
end Parser

end RecordStore
