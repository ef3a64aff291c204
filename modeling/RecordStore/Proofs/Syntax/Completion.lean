import RecordStore.Proofs.Syntax.ItemExtension

/-!
Where items end. An item ends with a semicolon or a closing brace, and once that is read, nothing
that follows is looked at: an item that takes all of a text is read alike when more text follows.
-/
namespace RecordStore

/-- A token that completes an item, if nothing of it is left open. -/
def Token.completes : Token → Bool
  | .closing .brace => true
  | .punct ';' _ => true
  | _ => false

namespace Parser

open Extends

variable {α β γ : Type} {ts r us : List Token}

/-- A parser that does not fail and takes nothing. -/
class Returns {α : Type} (p : Parser α) : Prop where
  eq : ∃ a, p = pure a

namespace Returns

variable {p q : Parser α}

instance (a : α) : Returns (pure a : Parser α) := ⟨a, rfl⟩

instance {c : Prop} [Decidable c] [hp : Returns p] [hq : Returns q] :
    Returns (if c then p else q) := by
  split
  · exact hp
  · exact hq

end Returns

/-- The one parser takes something. If that is all of a text, the last token is one that completes
an item, and the other parser reads the same where more tokens follow. -/
class Completes {α : Type} (p q : Parser α) : Prop where
  takes : ∀ {ts a r}, p.run ts = some (a, r) → r.length < ts.length
  last : ∀ {ts a}, p.run ts = some (a, []) → ts.getLast?.any Token.completes = true
  complete : ∀ {ts a} us, Settled ts → p.run ts = some (a, []) → q.run (ts ++ us) = some (a, us)

namespace Completes

variable {p q p' q' : Parser α}

theorem ne_nil (hp : Completes p q) {a : α} (h : p.run ts = some (a, r)) : ts ≠ [] :=
  List.ne_nil_of_length_pos (Nat.zero_lt_of_lt (hp.takes h))

theorem getLast?_of_suffix (h : r <:+ ts) (hr : r ≠ []) : ts.getLast? = r.getLast? := by
  obtain ⟨before, rfl⟩ := h
  rw [List.getLast?_append, List.getLast?_eq_some_getLast hr, Option.some_or]

/-! ### Sequences -/

theorem bind {f f' : α → Parser β} (hp : Extends p q) (hf : ∀ a, Completes (f a) (f' a)) :
    Completes (p >>= f) (q >>= f') where
  takes h := by
    obtain ⟨a, m, ha, hb⟩ := run_bind_eq.mp h
    exact Nat.lt_of_lt_of_le ((hf a).takes hb) (hp.suffix ha).length_le
  last h := by
    obtain ⟨a, m, ha, hb⟩ := run_bind_eq.mp h
    rw [getLast?_of_suffix (hp.suffix ha) ((hf a).ne_nil hb)]
    exact (hf a).last hb
  complete us hs h := by
    obtain ⟨a, m, ha, hb⟩ := run_bind_eq.mp h
    have hm := (hf a).ne_nil hb
    have hsm := hs.of_suffix (hp.suffix ha) hm
    exact run_bind_eq.mpr ⟨a, m ++ us, hp.extend us hs ha hm, (hf a).complete us hsm hb⟩

instance instBind {f f' : α → Parser β} [hp : Extends p q] [hf : ∀ a, Completes (f a) (f' a)] :
    Completes (p >>= f) (q >>= f') := Completes.bind hp hf

instance instBindPair {p q : Parser (α × β)} {f f' : α × β → Parser γ} [hp : Extends p q]
    [hf : ∀ a b, Completes (f (a, b)) (f' (a, b))] : Completes (p >>= f) (q >>= f') :=
  Completes.bind hp fun ⟨a, b⟩ => hf a b

theorem returns {f : α → Parser β} (hp : Completes p q) (hf : ∀ a, Returns (f a)) :
    Completes (p >>= f) (q >>= f) where
  takes h := by
    obtain ⟨a, m, ha, hb⟩ := run_bind_eq.mp h
    obtain ⟨c, hc⟩ := (hf a).eq
    rw [hc] at hb
    cases hb
    exact hp.takes ha
  last h := by
    obtain ⟨a, m, ha, hb⟩ := run_bind_eq.mp h
    obtain ⟨c, hc⟩ := (hf a).eq
    rw [hc] at hb
    cases hb
    exact hp.last ha
  complete us hs h := by
    obtain ⟨a, m, ha, hb⟩ := run_bind_eq.mp h
    obtain ⟨c, hc⟩ := (hf a).eq
    rw [hc] at hb
    cases hb
    refine run_bind_eq.mpr ⟨a, us, hp.complete us hs ha, ?_⟩
    rw [hc]
    rfl

instance instReturns {f : α → Parser β} [hp : Completes p q] [hf : ∀ a, Returns (f a)] :
    Completes (p >>= f) (q >>= f) := hp.returns hf

instance instReturnsPair {p q : Parser (α × β)} {f : α × β → Parser γ} [hp : Completes p q]
    [hf : ∀ a b, Returns (f (a, b))] : Completes (p >>= f) (q >>= f) :=
  hp.returns fun ⟨a, b⟩ => hf a b

instance instMap {f : α → β} [hp : Completes p q] : Completes (f <$> p) (f <$> q) := by
  rw [← bind_pure_comp, ← bind_pure_comp]
  infer_instance

instance instFail : Completes (fail : Parser α) q where
  takes h := by cases h
  last h := by cases h
  complete _ _ h := by cases h

theorem ite {c : Prop} [Decidable c] (hp : Completes p q) (hq : Completes p' q') :
    Completes (if c then p else p') (if c then q else q') := by
  split
  · exact hp
  · exact hq

instance instIte {c : Prop} [Decidable c] [hp : Completes p q] [hq : Completes p' q'] :
    Completes (if c then p else p') (if c then q else q') := hp.ite hq

theorem bind_rounds {f f' : List Token → Parser α} (h : ∀ n m, Completes (f n) (f' (n ++ m))) :
    Completes (rounds >>= f) (rounds >>= f') where
  takes {ts _ _} hr := (h (.punct ';' false :: ts) []).takes hr
  last {ts _} hr := (h (.punct ';' false :: ts) []).last hr
  complete {ts _} us hs hr := (h (.punct ';' false :: ts) us).complete us hs hr

theorem withTokens (hp : Completes p q) : Completes (withTokens p) (withTokens q) where
  takes h := hp.takes (run_withTokens_eq.mp h).1
  last h := hp.last (run_withTokens_eq.mp h).1
  complete us hs h := by
    rw [run_withTokens_eq] at h ⊢
    refine ⟨hp.complete us hs h.1, ?_⟩
    rw [h.2, ← tokensBetween_append us List.nil_suffix]
    rfl

/-! ### Semicolons -/

theorem completes_of_afterOperator (h : afterOperator ";".toList ts = some []) :
    ts.getLast?.any Token.completes = true := by
  cases ts with
  | nil => cases h
  | cons t ts =>
    cases t with
    | punct c joint =>
      change (if ';' == c then some ts else none) = some [] at h
      split at h
      next hc =>
        cases h
        rw [← eq_of_beq hc]
        rfl
      next => cases h
    | _ => cases h

instance : Completes (op ";") (op ";") where
  takes h := length_lt_of_afterOperator (by decide) (run_op_eq.mp h)
  last h := completes_of_afterOperator (run_op_eq.mp h)
  complete us hs h := by
    rw [run_op_eq] at h ⊢
    rw [afterOperator_append hs, h]
    rfl

theorem run_op?_bind {a b : α} : (op? ";" >>= fun c => if c then pure a else p).run ts =
    some (b, r) ↔ (a = b ∧ afterOperator ";".toList ts = some r) ∨
      (afterOperator ";".toList ts = none ∧ p.run ts = some (b, r)) := by
  rw [StateT.run_bind, run_op?_eq]
  cases ho : afterOperator ";".toList ts with
  | some m =>
    change some (a, m) = some (b, r) ↔ _
    simp
  | none =>
    change p.run ts = some (b, r) ↔ _
    simp

/-- A semicolon, or else something that completes an item. -/
theorem of_op? {a : α} (hp : Completes p q) :
    Completes (op? ";" >>= fun b => if b then pure a else p)
      (op? ";" >>= fun b => if b then pure a else q) where
  takes h := by
    rcases run_op?_bind.mp h with ⟨-, ho⟩ | ⟨-, h⟩
    · exact length_lt_of_afterOperator (by decide) ho
    · exact hp.takes h
  last h := by
    rcases run_op?_bind.mp h with ⟨-, ho⟩ | ⟨-, h⟩
    · exact completes_of_afterOperator ho
    · exact hp.last h
  complete us hs h := by
    rw [run_op?_bind, afterOperator_append hs]
    rcases run_op?_bind.mp h with ⟨ha, ho⟩ | ⟨ho, h⟩
    · exact .inl ⟨ha, by rw [ho]; rfl⟩
    · exact .inr ⟨by rw [ho]; rfl, hp.complete us hs h⟩

/-! ### Groups -/

theorem run_require_eq {b : Bool} {u : Unit} :
    (require b).run ts = some (u, r) ↔ b = true ∧ ts = r := by
  unfold require
  cases b with
  | true =>
    refine ⟨fun h => ?_, fun h => ?_⟩
    · cases h
      exact ⟨rfl, rfl⟩
    · rw [h.2]
      rfl
  | false => exact ⟨fun h => (by cases h), fun h => (by cases h.1)⟩

/-- A group is read up to its closing delimiter, and nothing behind that is looked at. -/
theorem run_delimited_append [hp : Extends p q] {d : Delimiter} {a : α} (us : List Token)
    (hs : Settled ts) (h : (delimited d p).run ts = some (a, r)) :
    (delimited d q).run (ts ++ us) = some (a, r ++ us) := by
  unfold delimited at h ⊢
  simp only [run_bind_eq, run_require_eq] at h ⊢
  obtain ⟨t, m, ht, _, _, ⟨ho, rfl⟩, a', n, ha, c, l, hc, _, _, ⟨hd, rfl⟩, hpure⟩ := h
  cases hpure
  cases n with
  | nil => cases hc
  | cons e n =>
    cases hc
    have hm : m ≠ [] := by
      rintro rfl
      exact List.cons_ne_nil _ _ (List.suffix_nil.mp (hp.suffix ha))
    exact ⟨t, m ++ us, Extends.extend us hs ht hm, (), _, ⟨ho, rfl⟩, a, c :: r ++ us,
      hp.extend us (hs.of_suffix (Extends.suffix take ht) hm) ha (List.cons_ne_nil _ _), c, _, rfl,
      (), _, ⟨hd, rfl⟩, rfl⟩

/-- What stands in braces is read up to the closing one. -/
instance [hp : Extends p q] : Completes (delimited .brace p) (delimited .brace q) where
  takes h := by
    have hs := (Grammar.suffix_of_delimited (q := q) h).length_le
    rwa [List.length_cons, Nat.add_one_le_iff] at hs
  last h := by
    rw [getLast?_of_suffix (Grammar.suffix_of_delimited (q := q) h) (List.cons_ne_nil _ _)]
    rfl
  complete us hs h := run_delimited_append us hs h

theorem exists_of_anyGroup {x : Delimiter × List Token} (h : anyGroup.run ts = some (x, r)) :
    ∃ tail, ts = .opening x.1 :: tail ∧ .closing x.1 :: r <:+ tail := by
  cases ts with
  | nil => cases h
  | cons t ts =>
    unfold anyGroup at h
    obtain ⟨u, m, ht, h⟩ := run_bind_eq.mp h
    cases ht
    cases t with
    | opening d =>
      simp only [run_bind_eq, run_require_eq] at h
      obtain ⟨body, n, hb, c, l, hc, _, _, ⟨he, rfl⟩, hpure⟩ := h
      cases hpure
      cases n with
      | nil => cases hc
      | cons c n =>
        cases hc
        exact ⟨ts, rfl, eq_of_beq he ▸ Extends.suffix rest hb⟩
    | _ => cases h

theorem takes_anyGroup {x : Delimiter × List Token} (h : anyGroup.run ts = some (x, r)) :
    r.length < ts.length := by
  obtain ⟨tail, rfl, hs⟩ := exists_of_anyGroup h
  have := hs.length_le
  rw [List.length_cons] at this ⊢
  omega

theorem last_of_anyGroup {x : Delimiter × List Token} (h : anyGroup.run ts = some (x, []))
    (hx : x.1 = .brace) : ts.getLast?.any Token.completes = true := by
  obtain ⟨tail, rfl, hs⟩ := exists_of_anyGroup h
  rw [getLast?_of_suffix (hs.trans (List.suffix_cons _ _)) (List.cons_ne_nil _ _), hx]
  rfl

/-- A group that needs a semicolon behind it, unless it is one of braces. -/
theorem of_anyGroup {f : Delimiter × List Token → α} :
    Completes
      (anyGroup >>= fun x => if x.1 != .brace then op ";" >>= fun _ => pure (f x) else pure (f x))
      (anyGroup >>= fun x => if x.1 != .brace then op ";" >>= fun _ => pure (f x)
        else pure (f x)) where
  takes {ts a r} h := by
    obtain ⟨x, m, hx, h⟩ := run_bind_eq.mp h
    refine Nat.lt_of_le_of_lt ?_ (takes_anyGroup hx)
    split at h
    next => exact (Extends.suffix (op ";" >>= fun _ => pure (f x)) h).length_le
    next =>
      cases h
      exact Nat.le_refl _
  last {ts a} h := by
    obtain ⟨x, m, hx, h⟩ := run_bind_eq.mp h
    split at h
    next =>
      obtain ⟨_, n, ho, hpure⟩ := run_bind_eq.mp h
      cases hpure
      rw [getLast?_of_suffix (Extends.suffix anyGroup hx) (ne_nil (q := op ";") inferInstance ho)]
      exact last (q := op ";") ho
    next hb =>
      cases h
      exact last_of_anyGroup hx (by simpa using hb)
  complete {ts a} us hs h := by
    obtain ⟨x, m, hx, h⟩ := run_bind_eq.mp h
    have hx' : anyGroup.run (ts ++ us) = some (x, m ++ us) := by
      rw [run_anyGroup_append us hs, hx]
      rfl
    refine run_bind_eq.mpr ⟨x, m ++ us, hx', ?_⟩
    split at h
    next hb =>
      rw [if_pos hb]
      have hm := ne_nil (p := op ";" >>= fun _ => pure (f x)) (q := op ";" >>= fun _ => pure (f x))
        inferInstance h
      exact complete (p := op ";" >>= fun _ => pure (f x)) us
        (hs.of_suffix (Extends.suffix anyGroup hx) hm) h
    next hb =>
      rw [if_neg hb]
      cases h
      rfl

/-- A group of braces. -/
theorem of_braces {a : α} :
    Completes (seesOpen .brace >>= fun b => require b >>= fun _ => anyGroup >>= fun _ => pure a)
      (seesOpen .brace >>= fun b => require b >>= fun _ => anyGroup >>= fun _ => pure a) where
  takes {ts u r} h := by
    simp only [run_bind_eq, run_require_eq] at h
    obtain ⟨b, m, hb, _, _, ⟨ho, rfl⟩, x, n, hx, hpure⟩ := h
    cases hpure
    cases hb
    exact takes_anyGroup hx
  last {ts u} h := by
    simp only [run_bind_eq, run_require_eq] at h
    obtain ⟨b, m, hb, _, _, ⟨ho, rfl⟩, x, n, hx, hpure⟩ := h
    cases hpure
    cases hb
    refine last_of_anyGroup hx ?_
    obtain ⟨tail, rfl, -⟩ := exists_of_anyGroup hx
    exact (of_decide_eq_true ho).symm
  complete {ts u} us hs h := by
    simp only [run_bind_eq, run_require_eq] at h ⊢
    obtain ⟨b, m, hb, _, _, ⟨ho, rfl⟩, x, n, hx, hpure⟩ := h
    cases hpure
    obtain rfl : ts = m := by
      cases hb
      rfl
    refine ⟨b, ts ++ us, Extends.extend us hs hb hs.ne_nil, (), _, ⟨ho, rfl⟩, x, us, ?_, rfl⟩
    rw [run_anyGroup_append us hs, hx]
    rfl

end Completes

end Parser

namespace Grammar

open RecordStore.Parser RecordStore.Parser.Completes

set_option synthInstance.maxSize 100000

variable {g g' : Grammar} [Deepens g g']

theorem completes_orVerbatim {p q : Parser (Option Item)} (h : Completes p q) :
    Completes (orVerbatim p) (orVerbatim q) :=
  returns h.withTokens inferInstance

instance : Completes (blockBody g) (blockBody g') := by
  unfold blockBody
  infer_instance

instance : Completes (namedFields g) (namedFields g') := by
  have hgo (n m : List Token) : Completes (namedFields.go g n) (namedFields.go g' (n ++ m)) := by
    cases n with
    | nil => exact instFail
    | cons t n =>
      rw [List.cons_append]
      unfold namedFields.go
      infer_instance
  exact bind_rounds fun n m => by infer_instance

instance (attrs : List Attribute) (vis : Visibility) :
    Completes (structItem g attrs vis) (structItem g' attrs vis) := by
  unfold structItem
  infer_instance

instance (attrs : List Attribute) (vis : Visibility) :
    Completes (enumItem g attrs vis) (enumItem g' attrs vis) := by
  unfold enumItem
  infer_instance

instance (attrs : List Attribute) (vis : Visibility) :
    Completes (unionItem g attrs vis) (unionItem g' attrs vis) := by
  unfold unionItem
  infer_instance

instance (whereBefore whereAfter : Bool) :
    Completes (typeName g whereBefore whereAfter) (typeName g' whereBefore whereAfter) := by
  unfold typeName
  infer_instance

instance (valueless : Bool) (attrs : List Attribute) (before : Snippet) :
    Completes (constantItem g valueless attrs before) (constantItem g' valueless attrs before) := by
  unfold constantItem
  infer_instance

instance (untyped : Bool) : Completes (staticItem g untyped) (staticItem g' untyped) := by
  unfold staticItem
  infer_instance

instance (attrs : List Attribute) (vis : Visibility) :
    Completes (useItem g attrs vis) (useItem g' attrs vis) := by
  unfold useItem
  infer_instance

instance (named : Bool) (attrs : List Attribute) :
    Completes (macroItem named attrs) (macroItem named attrs) := by
  unfold macroItem
  dsimp only
  refine bind inferInstance fun _ => bind inferInstance fun _ => bind inferInstance fun _ => ?_
  exact of_anyGroup

instance : Completes declaredMacro declaredMacro := by
  unfold declaredMacro
  refine bind inferInstance fun _ => bind inferInstance fun _ => bind inferInstance fun _ => ?_
  exact of_braces

instance {item item' : Parser Item} [Extends item item'] :
    Completes (itemsWithin g item) (itemsWithin g' item') := by
  unfold itemsWithin
  infer_instance

instance (attrs : List Attribute) (vis : Visibility) :
    Completes (implItem g attrs vis) (implItem g' attrs vis) := by
  unfold implItem
  infer_instance

instance (attrs : List Attribute) (vis : Visibility) :
    Completes (traitItem g attrs vis) (traitItem g' attrs vis) := by
  unfold traitItem
  infer_instance

instance (attrs : List Attribute) (vis : Visibility) :
    Completes (moduleItem g attrs vis) (moduleItem g' attrs vis) := by
  have htail (before : Snippet) (n : String) :
      Completes
        (op? ";" >>= fun b => if b then pure (Item.ofModule attrs before n none)
          else itemsWithin g g.item >>= fun x => pure (Item.ofModule attrs before n (some x)))
        (op? ";" >>= fun b => if b then pure (Item.ofModule attrs before n none)
          else itemsWithin g' g'.item >>= fun x => pure (Item.ofModule attrs before n (some x))) :=
    of_op? inferInstance
  unfold moduleItem
  dsimp only
  infer_instance

instance (attrs : List Attribute) (vis : Visibility) :
    Completes (externCrate attrs vis) (externCrate attrs vis) := by
  unfold externCrate
  infer_instance

instance (attrs : List Attribute) : Completes (foreignItems g attrs) (foreignItems g' attrs) := by
  unfold foreignItems
  infer_instance

variable [Completes g.block g'.block]

instance (safe : Bool) : Completes (function g safe) (function g' safe) := by
  unfold function
  exact bind inferInstance fun s => of_op? inferInstance

instance : Completes (itemBody g) (itemBody g') := by
  unfold itemBody
  dsimp only
  refine completes_orVerbatim (bind inferInstance fun attrs => bind inferInstance fun vis => ?_)
  refine bind inferInstance fun _ => ite inferInstance (bind inferInstance fun _ => ?_)
  refine ite inferInstance (bind inferInstance fun _ => ite inferInstance ?_)
  refine bind inferInstance fun _ => ite (returns inferInstance fun x => ?_) ?_
  · obtain ⟨head, ty, value⟩ := x
    cases ty <;> cases value <;> infer_instance
  refine bind inferInstance fun _ => ite inferInstance (bind inferInstance fun _ => ?_)
  refine ite inferInstance (bind inferInstance fun _ => ite inferInstance ?_)
  refine bind inferInstance fun _ => ite (returns inferInstance fun t => ?_) inferInstance
  split <;> infer_instance

end Grammar

namespace Grammar

open RecordStore.Parser RecordStore.Parser.Completes

instance completes_block (n k : Nat) : Completes (ofDepth n).block (ofDepth (n + k)).block := by
  cases n with
  | zero => exact instFail
  | succ n =>
    rw [Nat.add_right_comm]
    exact inferInstanceAs (Completes (blockBody (ofDepth n)) (blockBody (ofDepth (n + k))))

/-- An item that takes all of a text is read alike in greater depth, where more text follows. -/
instance completes_item (n k : Nat) : Completes (ofDepth n).item (ofDepth (n + k)).item := by
  cases n with
  | zero => exact instFail
  | succ n =>
    rw [Nat.add_right_comm]
    exact inferInstanceAs (Completes (itemBody (ofDepth n)) (itemBody (ofDepth (n + k))))

end Grammar
end RecordStore
