import RecordStore.Syntax.Reading

/-!
Parsers and what follows. Parsers take tokens from the front, so what they leave is the end of what
they were given. In text that ends as items do, nothing is looked for past the end: a parser that
leaves something there gives the same when more text follows, and so does a grammar of greater
depth. The judgement is a class, so that parsers made of others have it by their structure.
-/
namespace RecordStore

/-- A token that an item or an attribute can end with. -/
def Token.ends : Token → Bool
  | .closing _ => true
  | .punct ';' joint => !joint
  | _ => false

namespace Parser

/-- Tokens that end as items or groups do, and leave no group open. -/
structure Settled (ts : List Token) : Prop where
  ends : ts.getLast?.any Token.ends = true
  closed : ∀ d s, Token.opening d :: s <:+ ts →
    ∃ body e rest, groupTokens 0 s = some (body, .closing e :: rest)

namespace Settled

variable {t : Token} {ts r us : List Token}

theorem ne_nil (h : Settled ts) : ts ≠ [] := by
  rintro rfl
  cases h.ends

theorem of_suffix (h : Settled ts) (hs : r <:+ ts) (hr : r ≠ []) : Settled r := by
  refine ⟨?_, fun d s ho => h.closed d s (ho.trans hs)⟩
  obtain ⟨before, rfl⟩ := hs
  have he := h.ends
  rwa [List.getLast?_append, List.getLast?_eq_some_getLast hr, Option.some_or,
    ← List.getLast?_eq_some_getLast hr] at he

/-- Only a token that ends an item can stand last. -/
theorem tail (h : Settled (t :: ts)) (ht : t.ends = false) : Settled ts := by
  refine h.of_suffix (List.suffix_cons t ts) ?_
  rintro rfl
  have he : t.ends = true := h.ends
  rw [ht] at he
  cases he

end Settled

/-- What the one parser reads, the other one reads as well, and also where more tokens follow. -/
class Extends {α : Type} (p q : Parser α) : Prop where
  suffix : ∀ {ts a r}, p.run ts = some (a, r) → r <:+ ts
  deepen : ∀ {ts a r}, p.run ts = some (a, r) → q.run ts = some (a, r)
  extend : ∀ {ts a r} us, Settled ts → p.run ts = some (a, r) → r ≠ [] →
    q.run (ts ++ us) = some (a, r ++ us)

namespace Extends

variable {α β γ δ ε : Type} {p q p' q' : Parser α}

theorem run_bind_eq {p : Parser α} {f : α → Parser β} {ts r : List Token} {b : β} :
    (p >>= f).run ts = some (b, r) ↔
      ∃ a m, p.run ts = some (a, m) ∧ (f a).run m = some (b, r) := by
  rw [StateT.run_bind]
  simp [Option.bind_eq_some_iff]

theorem bind {f f' : α → Parser β} (hp : Extends p q) (hf : ∀ a, Extends (f a) (f' a)) :
    Extends (p >>= f) (q >>= f') where
  suffix h := by
    obtain ⟨a, m, ha, hb⟩ := run_bind_eq.mp h
    exact ((hf a).suffix hb).trans (hp.suffix ha)
  deepen h := by
    obtain ⟨a, m, ha, hb⟩ := run_bind_eq.mp h
    exact run_bind_eq.mpr ⟨a, m, hp.deepen ha, (hf a).deepen hb⟩
  extend us hs h hr := by
    obtain ⟨a, m, ha, hb⟩ := run_bind_eq.mp h
    have hm : m ≠ [] := by
      rintro rfl
      exact hr (List.suffix_nil.mp ((hf a).suffix hb))
    have hsm := hs.of_suffix (hp.suffix ha) hm
    exact run_bind_eq.mpr ⟨a, m ++ us, hp.extend us hs ha hm, (hf a).extend us hsm hb hr⟩

instance instBind {f f' : α → Parser β} [hp : Extends p q] [hf : ∀ a, Extends (f a) (f' a)] :
    Extends (p >>= f) (q >>= f') := hp.bind hf

instance instBindPair {p q : Parser (α × β)} {f f' : α × β → Parser γ} [hp : Extends p q]
    [hf : ∀ a b, Extends (f (a, b)) (f' (a, b))] : Extends (p >>= f) (q >>= f') :=
  hp.bind fun ⟨a, b⟩ => hf a b

instance instBindTriple {p q : Parser (α × β × γ)} {f f' : α × β × γ → Parser δ}
    [hp : Extends p q] [hf : ∀ a b c, Extends (f (a, b, c)) (f' (a, b, c))] :
    Extends (p >>= f) (q >>= f') := hp.bind fun ⟨a, b, c⟩ => hf a b c

instance instPure (a : α) : Extends (pure a : Parser α) (pure a) where
  suffix h := by
    cases h
    exact List.suffix_rfl
  deepen h := h
  extend us hs h hr := by
    cases h
    rfl

instance instFail : Extends (fail : Parser α) q where
  suffix h := by cases h
  deepen h := by cases h
  extend us hs h hr := by cases h

instance instMap {f : α → β} [hp : Extends p q] : Extends (f <$> p) (f <$> q) := by
  rw [← bind_pure_comp, ← bind_pure_comp]
  infer_instance

theorem ite {c : Prop} [Decidable c] (hp : Extends p q) (hq : Extends p' q') :
    Extends (if c then p else p') (if c then q else q') := by
  split
  · exact hp
  · exact hq

instance instIte {c : Prop} [Decidable c] [hp : Extends p q] [hq : Extends p' q'] :
    Extends (if c then p else p') (if c then q else q') := hp.ite hq

instance instLift (o : Option α) : Extends (StateT.lift o : Parser α) (StateT.lift o) := by
  cases o with
  | none => exact instFail
  | some a => exact instPure a

/-- A parser that takes nothing and finds out the same where more tokens follow. -/
theorem of_look {f : List Token → α} (h : ∀ ts us, Settled ts → f (ts ++ us) = f ts)
    (hp : ∀ ts, p.run ts = some (f ts, ts)) : Extends p p where
  suffix hr := by
    rw [hp] at hr
    cases hr
    exact List.suffix_rfl
  deepen hr := hr
  extend {ts a r} us hs hr _ := by
    rw [hp] at hr ⊢
    cases hr
    rw [h ts us hs]

end Extends

/-! ### Looking ahead -/

variable {α β : Type} {ts us : List Token}

theorem bounds_of_ends {t : Token} (h : t.ends = true) : bounds t = true := by
  unfold Token.ends at h
  split at h
  · rfl
  · rfl
  · cases h

theorem afterOperator_append (h : Settled ts) (cs : List Char) :
    afterOperator cs (ts ++ us) = (afterOperator cs ts).map (· ++ us) := by
  induction cs generalizing ts with
  | nil => simp [afterOperator]
  | cons c cs ih =>
    cases ts with
    | nil => exact absurd rfl h.ne_nil
    | cons t ts =>
      cases t with
      | punct d joint =>
        cases cs with
        | nil =>
          simp only [List.cons_append, afterOperator]
          split <;> rfl
        | cons c' cs =>
          cases joint with
          | false => rfl
          | true =>
            have hd : (Token.punct d true).ends = false := by
              by_cases hd : d = ';' <;> simp [Token.ends, hd]
            simp only [List.cons_append, afterOperator]
            split
            · exact ih (h.tail hd)
            · rfl
      | _ => cases cs <;> rfl

/-- What is in view is the same where more tokens follow, or nothing is. -/
theorem within_append (us : List Token) (n : Nat) (h : Settled ts) :
    within n (ts ++ us) = [] ∧ within n ts = [] ∨
      within n (ts ++ us) = within n ts ++ us ∧ Settled (within n ts) := by
  induction n generalizing ts with
  | zero => exact .inr ⟨rfl, h⟩
  | succ n ih =>
    cases ts with
    | nil => exact absurd rfl h.ne_nil
    | cons t ts =>
      rw [List.cons_append]
      unfold within
      split
      · exact .inl ⟨rfl, rfl⟩
      next hb =>
        refine ih (h.tail ?_)
        exact Bool.eq_false_iff.mpr fun he => hb (bounds_of_ends he)

theorem head?_within (n : Nat) (h : Settled ts) :
    (within n (ts ++ us)).head? = (within n ts).head? := by
  rcases within_append us n h with ⟨h₁, h₂⟩ | ⟨h₁, h₂⟩
  · rw [h₁, h₂]
  · rw [h₁, List.head?_append, List.head?_eq_some_head h₂.ne_nil, Option.some_or]

theorem isSome_afterOperator_within (n : Nat) (cs : List Char) (h : Settled ts) :
    (afterOperator cs (within n (ts ++ us))).isSome =
      (afterOperator cs (within n ts)).isSome := by
  rcases within_append us n h with ⟨h₁, h₂⟩ | ⟨h₁, h₂⟩
  · rw [h₁, h₂]
  · rw [h₁, afterOperator_append h₂, Option.isSome_map]

namespace Extends

instance (n : Nat) : Extends (token? n) (token? n) :=
  of_look (fun _ _ => head?_within n) fun _ => rfl

instance (n : Nat) (marks : String) : Extends (seesOpAt n marks) (seesOpAt n marks) :=
  of_look (fun _ _ => isSome_afterOperator_within n marks.toList) fun _ => rfl

instance : Extends next? next? := inferInstanceAs (Extends (token? 0) (token? 0))

instance (marks : String) : Extends (seesOp marks) (seesOp marks) :=
  inferInstanceAs (Extends (seesOpAt 0 marks) (seesOpAt 0 marks))

instance (n : Nat) (w : String) : Extends (seesAt n w) (seesAt n w) := by
  unfold seesAt
  infer_instance

instance (w : String) : Extends (sees w) (sees w) :=
  inferInstanceAs (Extends (seesAt 0 w) (seesAt 0 w))

instance (n : Nat) : Extends (seesNameAt n) (seesNameAt n) := by
  unfold seesNameAt
  infer_instance

instance : Extends seesName seesName := inferInstanceAs (Extends (seesNameAt 0) (seesNameAt 0))

instance : Extends seesLifetime seesLifetime := by
  unfold seesLifetime
  infer_instance

instance (n : Nat) (d : Delimiter) : Extends (seesOpenAt n d) (seesOpenAt n d) := by
  unfold seesOpenAt
  infer_instance

instance (d : Delimiter) : Extends (seesOpen d) (seesOpen d) :=
  inferInstanceAs (Extends (seesOpenAt 0 d) (seesOpenAt 0 d))

instance : Extends atEnd atEnd := by
  unfold atEnd
  infer_instance

instance : Extends seesLiteral seesLiteral := by
  refine of_look (f := literalAhead) (fun ts us hs => ?_) fun _ => rfl
  cases ts with
  | nil => exact absurd rfl hs.ne_nil
  | cons t ts =>
    cases t with
    | punct c joint =>
      by_cases hc : c = '-'
      · -- A sign does not end an item, so what it may belong to is there.
        subst hc
        have ht := hs.tail rfl
        cases ts with
        | nil => exact absurd rfl ht.ne_nil
        | cons u ts => cases u <;> rfl
      · simp [literalAhead, hc]
    | _ => rfl

/-! ### Taking tokens -/

instance (b : Bool) : Extends (require b) (require b) := by
  unfold require
  infer_instance

instance : Extends take take where
  suffix {ts a r} h := by
    cases ts with
    | nil => cases h
    | cons t ts =>
      cases h
      exact List.suffix_cons a r
  deepen h := h
  extend {ts a r} us _ h _ := by
    cases ts with
    | nil => cases h
    | cons t ts =>
      cases h
      rfl

theorem suffix_of_afterOperator {cs : List Char} {ts r : List Token}
    (h : afterOperator cs ts = some r) : r <:+ ts := by
  induction cs generalizing ts with
  | nil =>
    cases h
    exact List.suffix_rfl
  | cons c cs ih =>
    cases ts with
    | nil => cases cs <;> cases h
    | cons t ts =>
      cases t with
      | punct d joint =>
        cases cs with
        | nil =>
          simp only [afterOperator] at h
          split at h
          · cases h
            exact List.suffix_cons _ _
          · cases h
        | cons c' cs =>
          cases joint with
          | false => cases h
          | true =>
            simp only [afterOperator] at h
            split at h
            · exact (ih h).trans (List.suffix_cons _ _)
            · cases h
      | _ => cases cs <;> cases h

theorem length_lt_of_afterOperator {cs : List Char} {ts r : List Token} (hc : cs ≠ [])
    (h : afterOperator cs ts = some r) : r.length < ts.length := by
  cases cs with
  | nil => exact absurd rfl hc
  | cons c cs =>
    cases ts with
    | nil => cases cs <;> cases h
    | cons t ts =>
      refine Nat.lt_succ_of_le ?_
      cases t with
      | punct d joint =>
        cases cs with
        | nil =>
          simp only [afterOperator] at h
          split at h
          · cases h
            exact Nat.le_refl _
          · cases h
        | cons c' cs =>
          cases joint with
          | false => cases h
          | true =>
            simp only [afterOperator] at h
            split at h
            · exact (suffix_of_afterOperator h).length_le
            · cases h
      | _ => cases cs <;> cases h

theorem run_op (marks : String) (ts : List Token) :
    (op marks).run ts = (afterOperator marks.toList ts).map fun r => ((), r) := by
  rw [op, StateT.run_bind, StateT.run_get, pure_bind]
  cases afterOperator marks.toList ts <;> rfl

theorem run_op_eq {marks : String} {ts r : List Token} {u : Unit} :
    (op marks).run ts = some (u, r) ↔ afterOperator marks.toList ts = some r := by
  rw [run_op]
  simp

instance (marks : String) : Extends (op marks) (op marks) where
  suffix h := suffix_of_afterOperator (run_op_eq.mp h)
  deepen h := h
  extend us hs h _ := by
    rw [run_op_eq] at h ⊢
    rw [afterOperator_append hs, h]
    rfl

theorem run_op?_eq (marks : String) (ts : List Token) :
    (op? marks).run ts = some (match afterOperator marks.toList ts with
      | some r => (true, r)
      | none => (false, ts)) := by
  change (match afterOperator marks.toList ts with
    | some ts => (do set ts; return true)
    | none => return false : Parser Bool).run ts = _
  cases afterOperator marks.toList ts <;> rfl

instance (marks : String) : Extends (op? marks) (op? marks) where
  suffix {ts a r} h := by
    rw [run_op?_eq] at h
    split at h
    next ho =>
      cases h
      exact suffix_of_afterOperator ho
    next =>
      cases h
      exact List.suffix_rfl
  deepen h := h
  extend {ts a r} us hs h _ := by
    rw [run_op?_eq] at h ⊢
    rw [afterOperator_append hs]
    split at h
    next ho =>
      cases h
      rw [ho]
      rfl
    next ho =>
      cases h
      rw [ho]
      rfl

instance (w : String) : Extends (word w) (word w) := by
  unfold word
  infer_instance

instance (w : String) : Extends (word? w) (word? w) := by
  unfold word?
  infer_instance

instance : Extends anyWord anyWord := by
  unfold anyWord
  refine bind inferInstance fun t => ?_
  cases t <;> infer_instance

instance : Extends name name := by
  unfold name
  infer_instance

instance : Extends lifetime lifetime := by
  unfold lifetime
  refine bind inferInstance fun t => ?_
  cases t <;> infer_instance

instance : Extends lifetime? lifetime? := by
  unfold lifetime?
  infer_instance

instance : Extends literal literal := by
  unfold literal
  infer_instance

variable {p q : Parser α}

instance (d : Delimiter) [Extends p q] : Extends (delimited d p) (delimited d q) := by
  unfold delimited
  infer_instance

instance {c c' : Parser Bool} [Extends c c'] [Extends p q] :
    Extends (optional? c p) (optional? c' q) := by
  unfold optional?
  infer_instance

/-! ### Groups -/

theorem suffix_of_groupTokens {n : Nat} {ts body r : List Token}
    (h : groupTokens n ts = some (body, r)) : r <:+ ts := by
  induction ts generalizing n body with
  | nil =>
    cases h
    exact List.suffix_rfl
  | cons t ts ih =>
    have hm {k : Nat} (h : (groupTokens k ts).map (fun x => (t :: x.1, x.2)) = some (body, r)) :
        r <:+ t :: ts := by
      obtain ⟨⟨b, r'⟩, hb, he⟩ := Option.map_eq_some_iff.mp h
      cases he
      exact (ih hb).trans (List.suffix_cons _ _)
    unfold groupTokens at h
    split at h
    · cases h
      exact List.suffix_rfl
    all_goals exact hm h

theorem groupTokens_append {n : Nat} {ts body r : List Token} (us : List Token)
    (h : groupTokens n ts = some (body, r)) (hr : r ≠ []) :
    groupTokens n (ts ++ us) = some (body, r ++ us) := by
  induction ts generalizing n body with
  | nil =>
    cases h
    exact absurd rfl hr
  | cons t ts ih =>
    have hm {k : Nat} (h : (groupTokens k ts).map (fun x => (t :: x.1, x.2)) = some (body, r)) :
        (groupTokens k (ts ++ us)).map (fun x => (t :: x.1, x.2)) = some (body, r ++ us) := by
      obtain ⟨⟨b, r'⟩, hb, he⟩ := Option.map_eq_some_iff.mp h
      cases he
      rw [ih hb]
      rfl
    unfold groupTokens at h
    rw [List.cons_append]
    unfold groupTokens
    split at h
    · cases h
      rfl
    all_goals exact hm h

theorem run_rest (ts : List Token) : rest.run ts = groupTokens 0 ts := by
  have hr : rest.run ts = (groupTokens 0 ts).bind fun x => some (x.1, x.2) := by
    change ((groupTokens 0 ts).bind fun x => some (x, ts)).bind
      (fun x => some (x.1.1, x.1.2)) = _
    cases groupTokens 0 ts <;> rfl
  rw [hr]
  cases groupTokens 0 ts <;> rfl

instance : Extends rest rest where
  suffix h := suffix_of_groupTokens (by rwa [run_rest] at h)
  deepen h := h
  extend us _ h hr := by
    rw [run_rest] at h ⊢
    exact groupTokens_append us h hr

instance : Extends anyGroup anyGroup := by
  unfold anyGroup
  refine bind inferInstance fun t => ?_
  cases t <;> infer_instance

@[simp] theorem run_take (t : Token) (ts : List Token) : take.run (t :: ts) = some (t, ts) := rfl

theorem run_anyGroup {d e : Delimiter} {ts body r : List Token}
    (h : groupTokens 0 ts = some (body, .closing e :: r)) :
    anyGroup.run (.opening d :: ts) = if e = d then some ((d, body), r) else none := by
  rw [anyGroup, StateT.run_bind, run_take]
  dsimp only [Option.bind_eq_bind, Option.bind_some]
  rw [StateT.run_bind, run_rest, h]
  dsimp only [Option.bind_eq_bind, Option.bind_some]
  rw [StateT.run_bind, run_take]
  dsimp only [Option.bind_eq_bind, Option.bind_some]
  by_cases he : e = d
  · subst he
    simp [require]
  · simp [require, he]
    rfl

/-- Where no group is left open, a group is read alike even if it ends the text. -/
theorem run_anyGroup_append {ts : List Token} (us : List Token) (h : Settled ts) :
    anyGroup.run (ts ++ us) = (anyGroup.run ts).map fun x => (x.1, x.2 ++ us) := by
  cases ts with
  | nil => exact absurd rfl h.ne_nil
  | cons t ts =>
    cases t with
    | opening d =>
      obtain ⟨body, e, r, hg⟩ := h.closed d ts List.suffix_rfl
      rw [List.cons_append, run_anyGroup hg,
        run_anyGroup (groupTokens_append us hg (List.cons_ne_nil _ _))]
      split <;> rfl
    | _ => rfl

/-! ### Tokens that were read -/

theorem tokensBetween_append {ts r : List Token} (us : List Token) (h : r <:+ ts) :
    tokensBetween (ts ++ us) (r ++ us) = tokensBetween ts r := by
  obtain ⟨before, rfl⟩ := h
  simp [tokensBetween]

theorem run_withTokens_eq {ts r : List Token} {x : α × List Token} :
    (withTokens p).run ts = some (x, r) ↔
      p.run ts = some (x.1, r) ∧ x.2 = tokensBetween ts r := by
  have hr : (withTokens p).run ts =
      (p.run ts).bind fun y => some ((y.1, tokensBetween ts y.2), y.2) := rfl
  rw [hr, Option.bind_eq_some_iff]
  obtain ⟨a, tokens⟩ := x
  constructor
  · rintro ⟨⟨b, s⟩, hp, he⟩
    cases he
    exact ⟨hp, rfl⟩
  · rintro ⟨hp, rfl⟩
    exact ⟨(a, r), hp, rfl⟩

instance [hp : Extends p q] : Extends (withTokens p) (withTokens q) where
  suffix h := hp.suffix (run_withTokens_eq.mp h).1
  deepen h := by
    rw [run_withTokens_eq] at h ⊢
    exact ⟨hp.deepen h.1, h.2⟩
  extend us hs h hr := by
    rw [run_withTokens_eq] at h ⊢
    exact ⟨hp.extend us hs h.1 hr, by rw [tokensBetween_append us (hp.suffix h.1), h.2]⟩

/-! ### Repetition -/

/-- More text allows for more rounds. -/
theorem bind_rounds {f f' : List Token → Parser α} (h : ∀ n m, Extends (f n) (f' (n ++ m))) :
    Extends (rounds >>= f) (rounds >>= f') where
  suffix {ts a r} hr := (h (.punct ';' false :: ts) []).suffix hr
  deepen {ts a r} hr := by
    have hd := (h (.punct ';' false :: ts) []).deepen hr
    rwa [List.append_nil] at hd
  extend {ts a r} us hs hr hne := (h (.punct ';' false :: ts) us).extend us hs hr hne

instance whileSees_go {c c' : Parser Bool} [Extends c c'] [Extends p q] (n m : List Token) :
    Extends (whileSees.go c p n) (whileSees.go c' q (n ++ m)) := by
  induction n with
  | nil => exact instFail
  | cons t n ih =>
    rw [List.cons_append]
    unfold whileSees.go
    infer_instance

instance {c c' : Parser Bool} [Extends c c'] [Extends p q] :
    Extends (whileSees c p) (whileSees c' q) :=
  bind_rounds whileSees_go

instance separatedUntil_go {c c' : Parser Bool} {mark : String} [Extends c c'] [Extends p q]
    (n m : List Token) :
    Extends (separatedUntil.go c mark p n) (separatedUntil.go c' mark q (n ++ m)) := by
  induction n with
  | nil => exact instFail
  | cons t n ih =>
    rw [List.cons_append]
    unfold separatedUntil.go
    infer_instance

instance {c c' : Parser Bool} {mark : String} [Extends c c'] [Extends p q] :
    Extends (separatedUntil c mark p) (separatedUntil c' mark q) :=
  bind_rounds fun n m => by infer_instance

instance joinedUntil_go {c c' : Parser Bool} [Extends c c'] [Extends p q] (n m : List Token) :
    Extends (joinedUntil.go c p n) (joinedUntil.go c' q (n ++ m)) := by
  induction n with
  | nil => exact instFail
  | cons t n ih =>
    rw [List.cons_append]
    unfold joinedUntil.go
    infer_instance

instance {c c' : Parser Bool} [Extends c c'] [Extends p q] :
    Extends (joinedUntil c p) (joinedUntil c' q) :=
  bind_rounds fun n m => by infer_instance

instance [Extends p q] : Extends (commaList p) (commaList q) := by
  unfold commaList
  infer_instance

end Extends

/-! ### Looking further ahead -/

/-- A parser that takes nothing that an item can end with; where more tokens follow, it reads the
same or fails alike. -/
class Surveys {α : Type} (p : Parser α) : Prop where
  settled : ∀ {ts a r}, Settled ts → p.run ts = some (a, r) → Settled r
  append : ∀ {ts} us, Settled ts →
    p.run (ts ++ us) = (p.run ts).map fun x => (x.1, x.2 ++ us)

namespace Surveys

variable {p q : Parser α}

instance instBind {f : α → Parser β} [hp : Surveys p] [hf : ∀ a, Surveys (f a)] :
    Surveys (p >>= f) where
  settled hs h := by
    obtain ⟨a, m, ha, hb⟩ := Extends.run_bind_eq.mp h
    exact (hf a).settled (hp.settled hs ha) hb
  append {ts} us hs := by
    rw [StateT.run_bind, StateT.run_bind, hp.append us hs]
    cases ha : p.run ts with
    | none => rfl
    | some x => exact (hf x.1).append us (hp.settled hs ha)

instance instPure (a : α) : Surveys (pure a : Parser α) where
  settled hs h := by
    cases h
    exact hs
  append _ _ := rfl

instance instFail : Surveys (fail : Parser α) where
  settled _ h := by cases h
  append _ _ := rfl

instance instMap {f : α → β} [Surveys p] : Surveys (f <$> p) := by
  rw [← bind_pure_comp]
  infer_instance

instance instIte {c : Prop} [Decidable c] [hp : Surveys p] [hq : Surveys q] :
    Surveys (if c then p else q) := by
  split
  · exact hp
  · exact hq

/-- A parser that takes nothing and finds out the same where more tokens follow. -/
theorem of_look {f : List Token → α} (h : ∀ ts us, Settled ts → f (ts ++ us) = f ts)
    (hp : ∀ ts, p.run ts = some (f ts, ts)) : Surveys p where
  settled hs hr := by
    rw [hp] at hr
    cases hr
    exact hs
  append us hs := by
    rw [hp, hp, h _ us hs]
    rfl

instance (n : Nat) : Surveys (token? n) :=
  of_look (fun _ _ => head?_within n) fun _ => rfl

instance (n : Nat) (marks : String) : Surveys (seesOpAt n marks) :=
  of_look (fun _ _ => isSome_afterOperator_within n marks.toList) fun _ => rfl

instance (marks : String) : Surveys (seesOp marks) :=
  inferInstanceAs (Surveys (seesOpAt 0 marks))

instance (n : Nat) (w : String) : Surveys (seesAt n w) := by
  unfold seesAt
  infer_instance

instance (w : String) : Surveys (sees w) := inferInstanceAs (Surveys (seesAt 0 w))

instance (n : Nat) : Surveys (seesNameAt n) := by
  unfold seesNameAt
  infer_instance

instance : Surveys seesName := inferInstanceAs (Surveys (seesNameAt 0))

instance : Surveys next? := inferInstanceAs (Surveys (token? 0))

instance : Surveys seesLifetime := by
  unfold seesLifetime
  infer_instance

instance (n : Nat) (d : Delimiter) : Surveys (seesOpenAt n d) := by
  unfold seesOpenAt
  infer_instance

instance (d : Delimiter) : Surveys (seesOpen d) := inferInstanceAs (Surveys (seesOpenAt 0 d))

instance (b : Bool) : Surveys (require b) := by
  unfold require
  infer_instance

theorem exists_look [hp : Surveys p] {ts : List Token} (us : List Token) (hs : Settled ts)
    (h : ∃ a, p.run ts = some (a, ts)) :
    ∃ a, p.run ts = some (a, ts) ∧ p.run (ts ++ us) = some (a, ts ++ us) := by
  obtain ⟨a, ha⟩ := h
  exact ⟨a, ha, by rw [hp.append us hs, ha]; rfl⟩

/-- A parser that fails on what an item can end with. -/
theorem of_take {f : Token → Parser β} (hf : ∀ t, t.ends = false → Surveys (f t))
    (he : ∀ t ts, t.ends = true → (f t).run ts = none) : Surveys (take >>= f) where
  settled {ts a r} hs h := by
    cases ts with
    | nil => exact absurd rfl hs.ne_nil
    | cons t ts =>
      have hr : (f t).run ts = some (a, r) := h
      cases ht : t.ends with
      | true =>
        rw [he t ts ht] at hr
        cases hr
      | false => exact (hf t ht).settled (hs.tail ht) hr
  append {ts} us hs := by
    cases ts with
    | nil => exact absurd rfl hs.ne_nil
    | cons t ts =>
      change (f t).run (ts ++ us) = ((f t).run ts).map _
      cases ht : t.ends with
      | true =>
        rw [he t _ ht, he t _ ht]
        rfl
      | false => exact (hf t ht).append us (hs.tail ht)

instance (w : String) : Surveys (word w) := by
  unfold word
  refine of_take (fun t _ => inferInstance) fun t ts ht => ?_
  cases t with
  | ident n => cases ht
  | _ => rfl

instance : Surveys anyWord := by
  unfold anyWord
  refine of_take (fun t _ => ?_) fun t ts ht => ?_
  · cases t <;> infer_instance
  · cases t with
    | ident n => cases ht
    | _ => rfl

instance : Surveys name := by
  unfold name
  infer_instance

instance : Surveys lifetime := by
  unfold lifetime
  refine of_take (fun t _ => ?_) fun t ts ht => ?_
  · cases t <;> infer_instance
  · cases t with
    | lifetime n => cases ht
    | _ => rfl

instance : Surveys lifetime? := by
  unfold lifetime?
  infer_instance

theorem run_word? (w : String) (t : Token) (ts : List Token) :
    (word? w).run (t :: ts) =
      some (if wordIs w (some t) then (true, ts) else (false, t :: ts)) := by
  change (if wordIs w (some t) then (do let _ ← take; return true) else return false :
    Parser Bool).run (t :: ts) = _
  split <;> rfl

instance (w : String) : Surveys (word? w) where
  settled {ts a r} hs h := by
    cases ts with
    | nil => exact absurd rfl hs.ne_nil
    | cons t ts =>
      rw [run_word?] at h
      split at h
      next hw =>
        cases h
        refine hs.tail ?_
        cases t with
        | ident n => rfl
        | _ => cases hw
      next =>
        cases h
        exact hs
  append {ts} us hs := by
    cases ts with
    | nil => exact absurd rfl hs.ne_nil
    | cons t ts =>
      rw [List.cons_append, run_word?, run_word?]
      split <;> rfl

theorem ends_of_ne {c : Char} (hc : c ≠ ';') (joint : Bool) :
    (Token.punct c joint).ends = false := by
  simp [Token.ends, hc]

theorem settled_of_afterOperator {cs : List Char} {ts r : List Token} (hm : ';' ∉ cs)
    (hs : Settled ts) (h : afterOperator cs ts = some r) : Settled r := by
  induction cs generalizing ts with
  | nil =>
    cases h
    exact hs
  | cons c cs ih =>
    have hc : c ≠ ';' := fun hc => hm (hc ▸ List.mem_cons_self)
    cases ts with
    | nil => exact absurd rfl hs.ne_nil
    | cons t ts =>
      cases t with
      | punct d joint =>
        cases cs with
        | nil =>
          simp only [afterOperator] at h
          split at h
          next hd =>
            cases h
            rw [beq_iff_eq] at hd
            subst hd
            exact hs.tail (ends_of_ne hc joint)
          next => cases h
        | cons c' cs =>
          cases joint with
          | false => cases h
          | true =>
            simp only [afterOperator] at h
            split at h
            next hd =>
              rw [beq_iff_eq] at hd
              subst hd
              exact ih (fun hn => hm (List.mem_cons_of_mem _ hn)) (hs.tail (ends_of_ne hc true)) h
            next => cases h
      | _ => cases cs <;> cases h

/-- Operators without a semicolon. -/
theorem of_op {marks : String} (hm : ';' ∉ marks.toList) : Surveys (op marks) where
  settled hs h := settled_of_afterOperator hm hs (Extends.run_op_eq.mp h)
  append {ts} us hs := by
    rw [Extends.run_op, Extends.run_op, afterOperator_append hs]
    cases afterOperator marks.toList ts <;> rfl

theorem of_op? {marks : String} (hm : ';' ∉ marks.toList) : Surveys (op? marks) where
  settled hs h := by
    rw [Extends.run_op?_eq] at h
    split at h
    next ho =>
      cases h
      exact settled_of_afterOperator hm hs ho
    next =>
      cases h
      exact hs
  append {ts} us hs := by
    rw [Extends.run_op?_eq, Extends.run_op?_eq, afterOperator_append hs]
    cases afterOperator marks.toList ts <;> rfl

instance {c : Parser Bool} [Surveys c] [Surveys p] : Surveys (optional? c p) := by
  unfold optional?
  infer_instance

/-- Rounds that each take a token end before they run out. -/
theorem whileSees_go {c : Parser Bool} [hc : Surveys c] [hp : Surveys p]
    (hlook : ∀ ts, ∃ b, c.run ts = some (b, ts))
    (hlt : ∀ {ts a r}, p.run ts = some (a, r) → r.length < ts.length) (us : List Token)
    {n m ts : List Token} (hs : Settled ts) (hn : ts.length < n.length)
    (hm : ts.length < m.length) :
    (∀ as r, (whileSees.go c p n).run ts = some (as, r) → Settled r) ∧
      (whileSees.go c p m).run (ts ++ us) =
        ((whileSees.go c p n).run ts).map fun x => (x.1, x.2 ++ us) := by
  induction n generalizing m ts with
  | nil => cases hn
  | cons t n ih =>
    cases m with
    | nil => cases hm
    | cons u m =>
      unfold whileSees.go
      obtain ⟨b, hb⟩ := hlook ts
      rw [StateT.run_bind, StateT.run_bind, hc.append us hs, hb]
      cases b with
      | false =>
        refine ⟨fun as r h => ?_, rfl⟩
        cases h
        exact hs
      | true =>
        change (∀ as r, (p >>= fun a => whileSees.go c p n >>= fun as => pure (a :: as)).run ts =
            some (as, r) → Settled r) ∧
          (p >>= fun a => whileSees.go c p m >>= fun as => pure (a :: as)).run (ts ++ us) =
            ((p >>= fun a => whileSees.go c p n >>= fun as => pure (a :: as)).run ts).map _
        rw [StateT.run_bind, StateT.run_bind, hp.append us hs]
        cases ha : p.run ts with
        | none => exact ⟨fun _ _ h => (by cases h), rfl⟩
        | some x =>
          obtain ⟨a, left⟩ := x
          have hl := hlt ha
          simp only [List.length_cons] at hn hm
          obtain ⟨hset, happ⟩ := ih (m := m) (hp.settled hs ha) (by omega) (by omega)
          change (∀ as r, (whileSees.go c p n >>= fun as => pure (a :: as)).run left =
              some (as, r) → Settled r) ∧
            (whileSees.go c p m >>= fun as => pure (a :: as)).run (left ++ us) =
              ((whileSees.go c p n >>= fun as => pure (a :: as)).run left).map _
          rw [StateT.run_bind, StateT.run_bind, happ]
          cases hg : (whileSees.go c p n).run left with
          | none => exact ⟨fun _ _ h => (by cases h), rfl⟩
          | some y =>
            refine ⟨fun as r h => ?_, rfl⟩
            cases h
            exact hset _ _ hg

theorem of_whileSees {c : Parser Bool} [Surveys c] [Surveys p]
    (hlook : ∀ ts, ∃ b, c.run ts = some (b, ts))
    (hlt : ∀ {ts a r}, p.run ts = some (a, r) → r.length < ts.length) :
    Surveys (whileSees c p) where
  settled {ts as r} hs h :=
    (whileSees_go hlook hlt [] (n := .punct ';' false :: ts) (m := .punct ';' false :: ts) hs
      (Nat.lt_succ_self _) (Nat.lt_succ_self _)).1 as r h
  append {ts} us hs := by
    refine (whileSees_go hlook hlt us (n := .punct ';' false :: ts)
      (m := .punct ';' false :: (ts ++ us)) hs (Nat.lt_succ_self _) ?_).2
    rw [List.length_cons, List.length_append]
    omega

end Surveys

instance {p : Parser α} [hp : Surveys p] : Extends (lookahead p) (lookahead p) := by
  refine Extends.of_look (f := fun ts => (p.run ts).map Prod.fst) (fun ts us hs => ?_) fun _ => rfl
  rw [hp.append us hs, Option.map_map]
  rfl

end Parser
end RecordStore
