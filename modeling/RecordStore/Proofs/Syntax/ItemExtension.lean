import RecordStore.Proofs.Syntax.PhraseExtension

/-!
Statements and items are read alike whatever follows the text, and in greater depth. A statement is
looked at up to the end of a macro call before it is read.
-/
namespace RecordStore.Grammar

open RecordStore.Parser RecordStore.Parser.Extends

set_option synthInstance.maxSize 100000

variable {g g' : Grammar} [Deepens g g']

/-! ### Statements -/

instance (attrs : List Attribute) : Extends (binding g attrs) (binding g' attrs) := by
  unfold binding
  infer_instance

instance : Extends seesItem seesItem := by
  unfold seesItem
  infer_instance

instance (attrs : List Attribute) : Extends (bracedCall attrs) (bracedCall attrs) := by
  unfold bracedCall
  infer_instance

instance : Extends (itemStmt g) (itemStmt g') := by
  unfold itemStmt
  infer_instance

/-! ### Macro calls that stand alone -/

/-- The path and the group of a macro call. -/
def callGroup : Parser (Path × Delimiter × List Token) := do
  let p ← wordPath
  op "!"
  return (p, ← anyGroup)

theorem run_callGroup_append {ts : List Token} (us : List Token) (h : Settled ts) :
    callGroup.run (ts ++ us) = (callGroup.run ts).map fun x => (x.1, x.2 ++ us) := by
  have hb : Surveys (op "!") := Surveys.of_op (by decide)
  unfold callGroup
  rw [StateT.run_bind, StateT.run_bind, Surveys.append us h]
  cases hp : wordPath.run ts with
  | none => rfl
  | some x =>
    have hm := Surveys.settled h hp
    dsimp only [Option.bind_eq_bind, Option.map_some, Option.bind_some]
    rw [StateT.run_bind, StateT.run_bind, hb.append us hm]
    cases ho : (op "!").run x.2 with
    | none => rfl
    | some y =>
      have hy := hb.settled hm ho
      dsimp only [Option.bind_eq_bind, Option.map_some, Option.bind_some]
      rw [StateT.run_bind, StateT.run_bind, run_anyGroup_append us hy]
      cases anyGroup.run y.2 <;> rfl

/-- What a call is does not depend on what follows the text, unless the call ends it. -/
theorem run_callKind_append {ts : List Token} (us : List Token) (h : Settled ts) :
    callKind.run (ts ++ us) = (callKind.run ts).map (fun x => (x.1, x.2 ++ us)) ∨
      callKind.run ts = some (.braced, []) ∧ ∃ x, callGroup.run ts = some (x, []) := by
  have hb : Surveys (op "!") := Surveys.of_op (by decide)
  unfold callKind callGroup
  rw [StateT.run_bind, StateT.run_bind, StateT.run_bind, Surveys.append us h]
  cases hp : wordPath.run ts with
  | none => exact .inl rfl
  | some x =>
    obtain ⟨p, m⟩ := x
    have hm := Surveys.settled h hp
    dsimp only [Option.bind_eq_bind, Option.map_some, Option.bind_some]
    rw [StateT.run_bind, StateT.run_bind, StateT.run_bind, hb.append us hm]
    cases ho : (op "!").run m with
    | none => exact .inl rfl
    | some y =>
      obtain ⟨u, n⟩ := y
      have hn := hb.settled hm ho
      obtain ⟨b₁, h₁, h₁'⟩ := Surveys.exists_look us (p := seesName) hn ⟨_, rfl⟩
      obtain ⟨b₂, h₂, h₂'⟩ := Surveys.exists_look us (p := sees "try") hn ⟨_, rfl⟩
      obtain ⟨b₃, h₃, h₃'⟩ := Surveys.exists_look us (p := seesOpen .brace) hn ⟨_, rfl⟩
      simp only [StateT.run_bind, Option.bind_eq_bind, Option.map_some, Option.bind_some, h₁, h₁',
        h₂, h₂']
      cases b₁ || b₂ with
      | true => exact .inl rfl
      | false =>
        simp only [Bool.false_eq_true, if_false, StateT.run_bind, Option.bind_eq_bind,
          Option.bind_some, h₃, h₃']
        cases b₃ with
        | false => exact .inl rfl
        | true =>
          simp only [if_true, StateT.run_bind, Option.bind_eq_bind, run_anyGroup_append us hn]
          cases hg : anyGroup.run n with
          | none => exact .inl rfl
          | some z =>
            obtain ⟨group, r⟩ := z
            by_cases hr : r = []
            · subst hr
              exact .inr ⟨rfl, (p, group), rfl⟩
            · -- There is more text, so what follows the group is there.
              have hs := hn.of_suffix (suffix anyGroup hg) hr
              have hd : Surveys seesDot := by
                unfold seesDot
                infer_instance
              exact .inl (Surveys.append (p := (do
                let d ← seesDot
                let q ← seesOp "?"
                return if d || q then Call.none else Call.braced)) us hs)

/-- An expression with attributes of a statement, not looking at where it ends. -/
def attributedEarly (g : Grammar) : Parser Expr := do
  let attrs ← attributes g
  let e ← g.early
  return e.withAttributes attrs

instance : Extends (attributedEarly g) (attributedEarly g') := by
  unfold attributedEarly
  infer_instance

theorem run_attributedExpr_eq {ts left r : List Token} {e : Expr} :
    (attributedExpr g left).run ts = some (e, r) ↔
      (attributedEarly g).run ts = some (e, r) ∧ r.length = left.length := by
  have hcheck {e' : Expr} {m : List Token} :
      (do require ((← ahead).length == left.length); return e').run m = some (e, r) ↔
        (pure e' : Parser Expr).run m = some (e, r) ∧ r.length = left.length := by
    change ((require (m.length == left.length)) >>= fun _ => pure e').run m = _ ↔ _
    unfold require
    cases hl : m.length == left.length with
    | true =>
      refine ⟨fun h => ⟨h, ?_⟩, And.left⟩
      cases h
      exact eq_of_beq hl
    | false =>
      refine ⟨fun h => (by cases h), fun ⟨h, he⟩ => ?_⟩
      cases h
      simp [he] at hl
  unfold attributedExpr attributedEarly
  simp only [run_bind_eq] at hcheck ⊢
  constructor
  · rintro ⟨attrs, m, ha, e', n, he, hc⟩
    obtain ⟨hp, hl⟩ := hcheck.mp hc
    exact ⟨⟨attrs, m, ha, e', n, he, hp⟩, hl⟩
  · rintro ⟨⟨attrs, m, ha, e', n, he, hp⟩, hl⟩
    exact ⟨attrs, m, ha, e', n, he, hcheck.mpr ⟨hp, hl⟩⟩

theorem run_exprOfStmt (g : Grammar) (ts : List Token) :
    (exprOfStmt g).run ts = (g.early.run ts).bind fun x =>
      if (afterOperator "#".toList ts).isSome && x.1.form == .range then
        (attributedExpr g x.2).run ts
      else some x := by
  change (g.early.run ts).bind _ = _
  congr 1
  funext x
  unfold within
  dsimp only
  split <;> rfl

theorem run_exprOfStmt_eq {ts r : List Token} {e : Expr} :
    (exprOfStmt g).run ts = some (e, r) ↔
      ∃ e' m, g.early.run ts = some (e', m) ∧
        if (afterOperator "#".toList ts).isSome && e'.form == .range then
          (attributedEarly g).run ts = some (e, r) ∧ r.length = m.length
        else (e', m) = (e, r) := by
  rw [run_exprOfStmt, Option.bind_eq_some_iff, Prod.exists]
  refine exists₂_congr fun e' m => and_congr_right fun _ => ?_
  split
  · exact run_attributedExpr_eq
  · exact Option.some_inj

instance : Extends (exprOfStmt g) (exprOfStmt g') where
  suffix {ts a r} h := by
    obtain ⟨e', m, he, h⟩ := run_exprOfStmt_eq.mp h
    split at h
    · exact suffix (attributedEarly g') h.1
    · cases h
      exact suffix g'.early he
  deepen {ts a r} h := by
    obtain ⟨e', m, he, h⟩ := run_exprOfStmt_eq.mp h
    refine run_exprOfStmt_eq.mpr ⟨e', m, deepen (q := g'.early) he, ?_⟩
    split at h
    next hc => exact (if_pos hc).mpr ⟨deepen (q := attributedEarly g') h.1, h.2⟩
    next hc => exact (if_neg hc).mpr h
  extend {ts a r} us hs h hr := by
    obtain ⟨e', m, he, h⟩ := run_exprOfStmt_eq.mp h
    have hop : (afterOperator "#".toList (ts ++ us)).isSome =
        (afterOperator "#".toList ts).isSome := isSome_afterOperator_within 0 _ hs
    split at h
    next hc =>
      obtain ⟨h, hl⟩ := h
      have hm : m ≠ [] := fun hm => hr (List.length_eq_zero_iff.mp (by rw [hl, hm]; rfl))
      refine run_exprOfStmt_eq.mpr ⟨e', m ++ us, extend us hs he hm, ?_⟩
      rw [hop, if_pos hc]
      exact ⟨extend us hs h hr, by rw [List.length_append, List.length_append, hl]⟩
    next hc =>
      cases h
      refine run_exprOfStmt_eq.mpr ⟨a, r ++ us, extend us hs he hr, ?_⟩
      rw [hop, if_neg hc]

/-! ### Attributes do not end an item -/

theorem suffix_of_delimited {α : Type} {d : Delimiter} {p q : Parser α} [hp : Extends p q]
    {ts r : List Token} {a : α} (h : (delimited d p).run ts = some (a, r)) :
    Token.closing d :: r <:+ ts := by
  unfold delimited at h
  simp only [run_bind_eq] at h
  obtain ⟨u, m, hopen, _, m', hreq, a', n, ha, t, r', htake, _, r'', heq, hpure⟩ := h
  have hsuffix := (hp.suffix ha).trans
    ((suffix (require (opens d (some u))) hreq).trans (suffix take hopen))
  cases n with
  | nil => cases htake
  | cons v n =>
    cases htake
    unfold require at heq
    split at heq
    next hc =>
      cases heq
      cases hpure
      rw [beq_iff_eq] at hc
      rwa [← hc]
    next => cases heq

/-- No operand stands behind the last token, so attributes alone are no expression. -/
theorem attributed_of_earlyBody (hn : (g.operand true).run [] = none) {ts r : List Token} {e : Expr}
    (h : (earlyBody g).run ts = some (e, r)) :
    ∃ attrs m, (attributes g).run ts = some (attrs, m) ∧ m ≠ [] := by
  unfold earlyBody at h
  obtain ⟨attrs, m, ha, h⟩ := run_bind_eq.mp h
  refine ⟨attrs, m, ha, ?_⟩
  rintro rfl
  obtain ⟨e', n, ho, -⟩ := run_bind_eq.mp h
  have ho : (g.operand true).run [] = some (e', n) := ho
  rw [hn] at ho
  cases ho

/-- The parser takes nothing and does not fail. -/
class Looks {α : Type} (p : Parser α) : Prop where
  look : ∀ ts, ∃ a, p.run ts = some (a, ts)

namespace Looks

variable {α β : Type} {p q : Parser α}

instance instBind {f : α → Parser β} [hp : Looks p] [hf : ∀ a, Looks (f a)] : Looks (p >>= f) where
  look ts := by
    obtain ⟨a, ha⟩ := hp.look ts
    obtain ⟨b, hb⟩ := (hf a).look ts
    exact ⟨b, run_bind_eq.mpr ⟨a, ts, ha, hb⟩⟩

instance (a : α) : Looks (pure a : Parser α) := ⟨fun _ => ⟨a, rfl⟩⟩

instance {c : Prop} [Decidable c] [hp : Looks p] [hq : Looks q] : Looks (if c then p else q) := by
  split
  · exact hp
  · exact hq

instance (n : Nat) : Looks (token? n) := ⟨fun _ => ⟨_, rfl⟩⟩

instance (n : Nat) (marks : String) : Looks (seesOpAt n marks) := ⟨fun _ => ⟨_, rfl⟩⟩

instance (n : Nat) (w : String) : Looks (seesAt n w) := ⟨fun _ => ⟨_, rfl⟩⟩

instance (n : Nat) : Looks (seesNameAt n) := ⟨fun _ => ⟨_, rfl⟩⟩

instance (n : Nat) (d : Delimiter) : Looks (seesOpenAt n d) := ⟨fun _ => ⟨_, rfl⟩⟩

instance : Looks callAhead := ⟨fun _ => ⟨_, rfl⟩⟩

instance : Looks seesItem := by
  unfold seesItem sees next?
  infer_instance

instance : Looks statementKind := by
  unfold statementKind sees
  refine @instBind _ _ _ _ inferInstance fun c => ?_
  cases c <;> infer_instance

end Looks

/-- What a statement is does not depend on what follows the text, unless it is a call that ends
it. -/
theorem run_statementKind_append {ts : List Token} (us : List Token) (h : Settled ts)
    {k : StatementKind} (hk : statementKind.run ts = some (k, ts)) :
    statementKind.run (ts ++ us) = some (k, ts ++ us) ∨
      k = .call ∧ ∃ x, callGroup.run ts = some (x, []) := by
  obtain ⟨c, m, hc, hk⟩ := run_bind_eq.mp hk
  have hcall (ts : List Token) :
      callAhead.run ts = some (((callKind.run ts).map Prod.fst).getD .none, ts) := rfl
  obtain rfl : ts = m := by
    rw [hcall] at hc
    cases hc
    rfl
  rcases run_callKind_append us h with hsame | ⟨hbraced, hgroup⟩
  · refine .inl (run_bind_eq.mpr ⟨c, ts ++ us, ?_, ?_⟩)
    · rw [hcall] at hc ⊢
      cases hc
      rw [hsame, Option.map_map]
      rfl
    · cases c with
      | none => exact extend us h hk h.ne_nil
      | item | braced =>
        cases hk
        rfl
  · rw [hcall, hbraced] at hc
    cases hc
    cases hk
    exact .inr ⟨rfl, hgroup⟩

/-- An expression as a statement, given the macro call that it may be. -/
def standingExpr (g : Grammar) (call : Bool → Option Stmt) : Parser Stmt := do
  let e ← exprOfStmt g
  let semicolon ← op? ";"
  return standing e semicolon (call semicolon)

instance (call : Bool → Option Stmt) :
    Extends (standingExpr g call) (standingExpr g' call) := by
  unfold standingExpr
  infer_instance

/-- The macro call that stands after attributes. -/
def callAfter (attrs : List Attribute) (ts : List Token) (semicolon : Bool) : Option Stmt :=
  (callGroup.run ts).map fun x => .ofMacro attrs x.1.1 x.1.2.1 x.1.2.2 semicolon

theorem run_exprStmt {ts m : List Token} {attrs : List Attribute}
    (h : (attributes g).run ts = some (attrs, m)) :
    (exprStmt g).run ts = (standingExpr g (callAfter attrs m)).run ts := by
  have hcall : (fun semicolon => ((callStmt g semicolon).run ts).map Prod.fst) =
      callAfter attrs m := by
    funext semicolon
    have hmap : callStmt g semicolon = attributes g >>= fun attrs =>
        (fun x => .ofMacro attrs x.1 x.2.1 x.2.2 semicolon) <$> callGroup := by
      simp [callStmt, callGroup, map_bind]
    rw [hmap, StateT.run_bind, h, callAfter]
    change ((callGroup.run m).bind _).map _ = (callGroup.run m).map _
    cases callGroup.run m <;> rfl
  rw [← hcall]
  rfl

theorem callAfter_append {ts : List Token} (us : List Token) (h : Settled ts)
    (attrs : List Attribute) : callAfter attrs (ts ++ us) = callAfter attrs ts := by
  funext semicolon
  unfold callAfter
  rw [run_callGroup_append us h, Option.map_map]
  rfl

/-- A statement of some kind, given its attributes, what follows them and where it starts. -/
def statementOf (g : Grammar) (attrs : List Attribute) (start after : List Token) :
    StatementKind → Option (Stmt × List Token)
  | .call => (bracedCall attrs).run after
  | .binding => (binding g attrs).run after
  | .item => (itemStmt g).run start
  | .expr => (standingExpr g (callAfter attrs after)).run start

theorem run_statement_eq {ts r : List Token} {s : Stmt} :
    (statement g).run ts = some (s, r) ↔
      ∃ attrs m k, (attributes g).run ts = some (attrs, m) ∧ statementKind.run m = some (k, m) ∧
        statementOf g attrs ts m k = some (s, r) := by
  have hstart : (statement g).run ts = (attributes g >>= fun attrs => statementKind >>= fun k =>
      match k with
      | .call => bracedCall attrs
      | .binding => binding g attrs
      | .item => set ts >>= fun _ => itemStmt g
      | .expr => set ts >>= fun _ => exprStmt g).run ts := rfl
  rw [hstart, run_bind_eq]
  refine exists₂_congr fun attrs m => ?_
  rw [exists_and_left, and_congr_right_iff]
  intro ha
  obtain ⟨k, hk⟩ := Looks.look (p := statementKind) m
  have hexpr := run_exprStmt ha
  rw [run_bind_eq]
  constructor
  · rintro ⟨k', m', hk', h⟩
    rw [hk] at hk'
    cases hk'
    refine ⟨k, hk, ?_⟩
    cases k with
    | expr => exact hexpr.symm.trans h
    | _ => exact h
  · rintro ⟨k', hk', h⟩
    rw [hk] at hk'
    cases hk'
    refine ⟨k, m, hk, ?_⟩
    cases k with
    | expr => exact hexpr.trans h
    | _ => exact h

/-- A call in braces ends where its group does, or after a semicolon. -/
theorem run_bracedCall_nil {attrs : List Attribute} {ts r : List Token} {s : Stmt}
    (h : (bracedCall attrs).run ts = some (s, r)) (hc : ∃ x, callGroup.run ts = some (x, [])) :
    r = [] := by
  obtain ⟨x, hx⟩ := hc
  have hcall : bracedCall attrs = callGroup >>= fun x => op? ";" >>= fun semicolon =>
      pure (.ofMacro attrs x.1 x.2.1 x.2.2 semicolon) := by
    simp [bracedCall, callGroup]
  rw [hcall, StateT.run_bind, hx] at h
  cases h
  rfl

/-- Something stands behind the attributes of a statement. -/
theorem ne_nil_of_statementOf {attrs : List Attribute} {ts m r : List Token} {k : StatementKind}
    {s : Stmt} (ha : (attributes g).run ts = some (attrs, m))
    (hk : statementKind.run m = some (k, m)) (h : statementOf g attrs ts m k = some (s, r))
    (hd : ∀ {e r}, g.early.run ts = some (e, r) →
      ∃ attrs m, (attributes g).run ts = some (attrs, m) ∧ m ≠ []) : m ≠ [] := by
  rintro rfl
  cases hk
  obtain ⟨e, n, he, -⟩ := run_bind_eq.mp h
  obtain ⟨e', n', he, -⟩ := run_exprOfStmt_eq.mp he
  obtain ⟨attrs', m', ha', hm⟩ := hd he
  rw [ha] at ha'
  cases ha'
  exact hm rfl

instance : Extends (statement g) (statement g') where
  suffix {ts a r} h := by
    obtain ⟨attrs, m, k, ha, -, h⟩ := run_statement_eq.mp h
    have hm := suffix (attributes g') ha
    cases k <;> dsimp only [statementOf] at h
    case call => exact (suffix (bracedCall attrs) h).trans hm
    case binding => exact (suffix (binding g' attrs) h).trans hm
    case item => exact suffix (itemStmt g') h
    case expr => exact suffix (standingExpr g' (callAfter attrs m)) h
  deepen {ts a r} h := by
    obtain ⟨attrs, m, k, ha, hk, h⟩ := run_statement_eq.mp h
    refine run_statement_eq.mpr ⟨attrs, m, k, deepen ha, hk, ?_⟩
    cases k <;> dsimp only [statementOf] at h ⊢
    case call => exact h
    all_goals exact deepen h
  extend {ts a r} us hs h hr := by
    obtain ⟨attrs, m, k, ha, hk, h⟩ := run_statement_eq.mp h
    have hne := ne_nil_of_statementOf ha hk h (Deepens.attributed g')
    have hm := hs.of_suffix (suffix (attributes g') ha) hne
    refine run_statement_eq.mpr ⟨attrs, m ++ us, k, extend us hs ha hne, ?_⟩
    rcases run_statementKind_append us hm hk with hk' | ⟨rfl, hc⟩
    · refine ⟨hk', ?_⟩
      cases k <;> dsimp only [statementOf] at h ⊢
      case expr =>
        rw [callAfter_append us hm]
        exact extend us hs h hr
      case item => exact extend us hs h hr
      all_goals exact extend us hm h hr
    · exact absurd (run_bracedCall_nil h hc) hr

instance : Extends (statements g) (statements g') := by
  unfold statements
  infer_instance

instance : Extends (blockBody g) (blockBody g') := by
  unfold blockBody
  infer_instance

/-! ### Items -/

instance instOrVerbatim {p p' : Parser (Option Item)} [Extends p p'] :
    Extends (orVerbatim p) (orVerbatim p') := by
  unfold orVerbatim
  infer_instance

instance (attrs : List Attribute) : Extends (receiver g attrs) (receiver g' attrs) := by
  unfold receiver
  infer_instance

instance : Extends surplusComma surplusComma := by
  unfold surplusComma
  infer_instance

instance (attrs : List Attribute) : Extends (typedArgument g attrs) (typedArgument g' attrs) := by
  unfold typedArgument
  infer_instance

instance : Extends seesReceiver seesReceiver := by
  have ho : Surveys (op "&") := Surveys.of_op (by decide)
  unfold seesReceiver
  infer_instance

instance : Extends (functionArgument g) (functionArgument g') := by
  unfold functionArgument
  infer_instance

instance functionInputs_go (n m : List Token) (first : Bool) :
    Extends (functionInputs.go g n first) (functionInputs.go g' (n ++ m) first) := by
  induction n generalizing first with
  | nil => exact instFail
  | cons t n ih =>
    rw [List.cons_append]
    unfold functionInputs.go
    refine bind inferInstance fun _ => ite inferInstance (bind inferInstance fun a => ?_)
    cases a <;> infer_instance

instance : Extends (functionInputs g) (functionInputs g') :=
  bind_rounds fun n m => by infer_instance

instance (safe : Bool) : Extends (safeWord safe) (safeWord safe) := by
  unfold safeWord
  infer_instance

instance (safe : Bool) : Extends (signatureWith g safe) (signatureWith g' safe) := by
  unfold signatureWith
  infer_instance

instance : Extends (signature g) (signature g') := by
  unfold signature
  infer_instance

instance : Surveys abi := by
  -- The literal that names a calling convention does not end an item.
  have hn {b : String → Bool} {x : String → Snippet} {y : Snippet} : Surveys (do
      match ← next? with
      | some (.literal t) =>
        require (b t)
        let _ ← take
        return x t
      | _ => return y) := by
    refine ⟨fun {ts a r} hs h => ?_, fun {ts} us hs => ?_⟩ <;> cases ts with
    | nil => exact absurd rfl hs.ne_nil
    | cons t ts => ?_
    · cases t with
      | literal s =>
        change ((require (b s)) >>= fun _ => take >>= fun _ => pure (x s)).run _ = _ at h
        unfold require at h
        split at h
        · cases h
          exact hs.tail rfl
        · cases h
      | _ =>
        cases h
        exact hs
    · cases t with
      | literal s =>
        change ((require (b s)) >>= fun _ => take >>= fun _ => pure (x s)).run _ =
          (((require (b s)) >>= fun _ => take >>= fun _ => pure (x s)).run _).map _
        unfold require
        split <;> rfl
      | _ => rfl
  unfold abi
  infer_instance

instance (safe : Bool) : Extends (seesSignature safe) (seesSignature safe) := by
  unfold seesSignature
  infer_instance

instance (safe : Bool) : Extends (function g safe) (function g' safe) := by
  unfold function
  infer_instance

instance {p p' : Parser (List FieldItem)} [Extends p p'] :
    Extends (unnamedStruct p) (unnamedStruct p') := by
  unfold unnamedStruct
  infer_instance

instance {p p' : Parser (List FieldItem)} [Extends p p'] :
    Extends (namedField g p) (namedField g' p') := by
  unfold namedField
  dsimp only
  infer_instance

instance : Extends (unnamedField g) (unnamedField g') := by
  unfold unnamedField
  infer_instance

instance namedFields_go (n m : List Token) :
    Extends (namedFields.go g n) (namedFields.go g' (n ++ m)) := by
  induction n with
  | nil => exact instFail
  | cons t n ih =>
    rw [List.cons_append]
    unfold namedFields.go
    infer_instance

instance : Extends (namedFields g) (namedFields g') :=
  bind_rounds fun n m => by infer_instance

instance : Extends (unnamedFields g) (unnamedFields g') := by
  unfold unnamedFields
  infer_instance

instance (attrs : List Attribute) (vis : Visibility) :
    Extends (structItem g attrs vis) (structItem g' attrs vis) := by
  unfold structItem
  infer_instance

instance : Extends (variant g) (variant g') := by
  unfold variant
  infer_instance

instance (attrs : List Attribute) (vis : Visibility) :
    Extends (enumItem g attrs vis) (enumItem g' attrs vis) := by
  unfold enumItem
  infer_instance

instance (attrs : List Attribute) (vis : Visibility) :
    Extends (unionItem g attrs vis) (unionItem g' attrs vis) := by
  unfold unionItem
  infer_instance

instance {stop stop' : Parser Bool} [Extends stop stop'] :
    Extends (optionalBounds g stop) (optionalBounds g' stop') := by
  unfold optionalBounds
  infer_instance

instance : Extends seesDefinition seesDefinition := by
  unfold seesDefinition
  infer_instance

instance (whereBefore whereAfter : Bool) :
    Extends (typeName g whereBefore whereAfter) (typeName g' whereBefore whereAfter) := by
  unfold typeName
  infer_instance

instance (valueless : Bool) (attrs : List Attribute) (before : Snippet) :
    Extends (constantItem g valueless attrs before) (constantItem g' valueless attrs before) := by
  unfold constantItem
  infer_instance

instance (untyped : Bool) : Extends (staticItem g untyped) (staticItem g' untyped) := by
  unfold staticItem
  infer_instance

instance : Extends newName newName := by
  unfold newName
  infer_instance

instance (anyRoot : Bool) : Extends (useTreeBody g anyRoot) (useTreeBody g' anyRoot) := by
  unfold useTreeBody
  dsimp only
  refine bind inferInstance fun _ => bind inferInstance fun _ => bind inferInstance fun _ => ?_
  refine ite (bind inferInstance fun n => bind inferInstance fun _ => ite ?_ ?_) inferInstance
  · refine bind inferInstance fun t => ?_
    cases t <;> infer_instance
  · infer_instance

instance (attrs : List Attribute) (vis : Visibility) :
    Extends (useItem g attrs vis) (useItem g' attrs vis) := by
  unfold useItem
  infer_instance

instance : Extends macroRule macroRule := by
  unfold macroRule
  infer_instance

instance (named : Bool) (attrs : List Attribute) :
    Extends (macroItem named attrs) (macroItem named attrs) := by
  unfold macroItem
  infer_instance

instance : Extends declaredMacro declaredMacro := by
  unfold declaredMacro
  infer_instance

instance : Extends seesCall seesCall := by
  unfold seesCall
  infer_instance

instance : Extends (traitMember g) (traitMember g') := by
  unfold traitMember
  dsimp only
  refine @instOrVerbatim _ _ ?_
  infer_instance

instance : Extends (implMember g) (implMember g') := by
  unfold implMember
  dsimp only
  refine @instOrVerbatim _ _ ?_
  infer_instance

instance {item item' : Parser Item} [Extends item item'] :
    Extends (itemsWithin g item) (itemsWithin g' item') := by
  unfold itemsWithin
  infer_instance

instance (attrs : List Attribute) (vis : Visibility) :
    Extends (implItem g attrs vis) (implItem g' attrs vis) := by
  unfold implItem
  infer_instance

instance (attrs : List Attribute) (vis : Visibility) :
    Extends (traitItem g attrs vis) (traitItem g' attrs vis) := by
  unfold traitItem
  infer_instance

instance (attrs : List Attribute) (vis : Visibility) :
    Extends (moduleItem g attrs vis) (moduleItem g' attrs vis) := by
  unfold moduleItem
  infer_instance

instance (attrs : List Attribute) (vis : Visibility) :
    Extends (externCrate attrs vis) (externCrate attrs vis) := by
  unfold externCrate
  infer_instance

instance : Extends (foreignItem g) (foreignItem g') := by
  unfold foreignItem
  dsimp only
  refine @instOrVerbatim _ _ ?_
  refine bind inferInstance fun attrs => bind inferInstance fun vis => ?_
  refine bind inferInstance fun _ => ite inferInstance ?_
  refine bind inferInstance fun _ => bind inferInstance fun _ => bind inferInstance fun _ => ?_
  refine bind inferInstance fun _ => ite (bind inferInstance fun _ => ite ?_ ?_) inferInstance
  · refine bind inferInstance fun _ => bind inferInstance fun ⟨head, ty, value⟩ => ?_
    cases ty <;> cases value <;> infer_instance
  · refine bind inferInstance fun ⟨head, ty, value⟩ => ?_
    cases ty <;> cases value <;> infer_instance

instance (attrs : List Attribute) : Extends (foreignItems g attrs) (foreignItems g' attrs) := by
  unfold foreignItems
  infer_instance

instance : Extends (itemBody g) (itemBody g') := by
  unfold itemBody
  dsimp only
  refine @instOrVerbatim _ _ ?_
  refine bind inferInstance fun attrs => bind inferInstance fun vis => ?_
  refine bind inferInstance fun _ => ite inferInstance ?_
  refine bind inferInstance fun _ => ite inferInstance ?_
  refine bind inferInstance fun _ => ite inferInstance ?_
  refine bind inferInstance fun _ => ite ?_ ?_
  · refine bind inferInstance fun ⟨head, ty, value⟩ => ?_
    cases ty <;> cases value <;> infer_instance
  refine bind inferInstance fun _ => ite inferInstance ?_
  refine bind inferInstance fun _ => ite inferInstance ?_
  refine bind inferInstance fun _ => ite inferInstance ?_
  refine bind inferInstance fun _ => ite ?_ inferInstance
  refine bind inferInstance fun t => ?_
  split <;> infer_instance

/-! ### Depth -/

theorem operand_nil_ofDepth (n : Nat) (b : Bool) : ((ofDepth n).operand b).run [] = none := by
  cases n <;> rfl

/-- What is read in some depth is read in any greater one. -/
instance deepens_ofDepth (n k : Nat) : Deepens (ofDepth n) (ofDepth (n + k)) := by
  induction n generalizing k with
  | zero =>
    exact
      { ty := fun _ => instFail
        bound := fun _ _ => instFail
        expr := fun _ => instFail
        early := instFail
        operand := fun _ => instFail
        climb := fun _ _ _ => instFail
        pattern := instFail
        block := instFail
        item := instFail
        useTree := fun _ => instFail
        operand_nil := operand_nil_ofDepth 0
        attributed := fun h => by cases h }
  | succ n ih =>
    have hd := ih k
    have hnext := ih 1
    rw [Nat.add_right_comm]
    exact
      { ty := fun b =>
          inferInstanceAs (Extends (tyBody (ofDepth n) b) (tyBody (ofDepth (n + k)) b))
        bound := fun c b =>
          inferInstanceAs (Extends (boundBody (ofDepth n) c b) (boundBody (ofDepth (n + k)) c b))
        expr := fun b =>
          inferInstanceAs (Extends (exprBody (ofDepth n) b) (exprBody (ofDepth (n + k)) b))
        early := inferInstanceAs (Extends (earlyBody (ofDepth n)) (earlyBody (ofDepth (n + k))))
        operand := fun b =>
          inferInstanceAs (Extends (operandBody (ofDepth n) b) (operandBody (ofDepth (n + k)) b))
        climb := fun b p e =>
          inferInstanceAs
            (Extends (climbBody (ofDepth n) b p e) (climbBody (ofDepth (n + k)) b p e))
        pattern :=
          inferInstanceAs (Extends (patternBody (ofDepth n)) (patternBody (ofDepth (n + k))))
        block := inferInstanceAs (Extends (blockBody (ofDepth n)) (blockBody (ofDepth (n + k))))
        item := inferInstanceAs (Extends (itemBody (ofDepth n)) (itemBody (ofDepth (n + k))))
        useTree := fun b =>
          inferInstanceAs
            (Extends (useTreeBody (ofDepth n) b) (useTreeBody (ofDepth (n + k)) b))
        operand_nil := operand_nil_ofDepth (n + 1)
        attributed := fun h => by
          obtain ⟨attrs, m, ha, hm⟩ := attributed_of_earlyBody (operand_nil_ofDepth n true) h
          exact ⟨attrs, m, deepen ha, hm⟩ }

end RecordStore.Grammar
