import RecordStore.Proofs.Syntax.LegibleItems

/-!
Phrases that are read in legible code. Types, patterns and expressions convey what their nested
phrases convey. A slash alone is no legible code, so the operator of a division is read together
with the operand behind it.
-/
namespace RecordStore

/-- What the grammar reads in legible code is legible. An operand is never empty. -/
class Grammar.IsFaithful (g : Grammar) : Prop where
  ty : ∀ b, Parser.Conveys (g.ty b)
  bound : ∀ c k, Parser.Conveys (g.bound c k)
  expr : ∀ b, Parser.Conveys (g.expr b)
  early : Parser.Conveys g.early
  operand : ∀ b, Parser.Conveys (g.operand b)
  climb : ∀ b p e [Legible e], Parser.Conveys (g.climb b p e)
  pattern : Parser.Conveys g.pattern
  block : Parser.Conveys g.block
  item : Parser.Conveys g.item
  useTree : ∀ b, Parser.Conveys (g.useTree b)
  operand_takes : ∀ {b ts e r}, (g.operand b).run ts = some (e, r) → r.length < ts.length

namespace Grammar

open RecordStore.Parser RecordStore.Parser.Conveys

attribute [instance] IsFaithful.ty IsFaithful.bound IsFaithful.expr IsFaithful.early
  IsFaithful.operand IsFaithful.climb IsFaithful.pattern IsFaithful.block IsFaithful.item
  IsFaithful.useTree

set_option synthInstance.maxSize 100000

variable {g : Grammar} [IsFaithful g] {attrs : List Attribute} {p : Path}

/-! ### Attributes and visibility -/

instance : Looks seesRoot := ⟨fun _ => ⟨_, rfl⟩⟩
instance : Looks seesWholeLiteral := ⟨fun _ => ⟨_, rfl⟩⟩
instance : Looks seesRestriction := ⟨fun _ => ⟨_, rfl⟩⟩

instance : Conveys pathWord := by
  unfold pathWord
  infer_instance

instance : Conveys wordPath := by
  unfold wordPath
  infer_instance

instance : Conveys (attributeValue g) := by
  unfold attributeValue
  infer_instance

instance (inner : Bool) : Conveys (attributeBody g inner) := by
  unfold attributeBody
  infer_instance

instance : Conveys (attributes g) := by
  unfold attributes
  infer_instance

instance : Conveys (innerAttributes g) := by
  unfold innerAttributes
  infer_instance

instance : Conveys visibility := by
  unfold visibility
  refine bind inferInstance fun _ _ => ite inferInstance ?_
  refine look_bind inferInstance fun _ => ite (look_bind inferInstance fun r => ?_) inferInstance
  cases r with
  | none => infer_instance
  | some r => cases r <;> infer_instance

/-! ### Types -/

instance [Legible p] : Conveys (macroCall p) := by
  unfold macroCall
  infer_instance

instance : Looks seesBang := ⟨fun _ => ⟨_, rfl⟩⟩

instance (bounds : Bool) : Conveys (output g bounds) := by
  unfold output
  infer_instance

instance : Conveys (calledArguments g) := by
  unfold calledArguments
  infer_instance

instance : Looks seesCalled := ⟨fun _ => ⟨_, rfl⟩⟩
instance : Looks seesListEnd := ⟨fun _ => ⟨_, rfl⟩⟩

instance : Conveys lifetimeParameter := by
  unfold lifetimeParameter
  infer_instance

instance (expression : Bool) : Looks (seesAngle expression) := ⟨fun _ => ⟨_, rfl⟩⟩

instance : Conveys (constantArgument g) := by
  unfold constantArgument
  infer_instance

instance (constants : Bool) : Looks (seesBound constants) := ⟨fun _ => ⟨_, rfl⟩⟩

instance convey_joinedBounds_go (joined constants : Bool) {one : Parser Bound} [Conveys one]
    (n : List Token) : Conveys (joinedBounds.go joined constants one n) := by
  induction n with
  | nil => exact instFail
  | cons t n ih =>
    unfold joinedBounds.go
    infer_instance

instance (joined constants : Bool) {one : Parser Bound} [Conveys one] :
    Conveys (joinedBounds joined constants one) := by
  unfold joinedBounds
  infer_instance

instance : Writing Parameter := ⟨fun p => Legible p.snippet⟩

instance {s : Snippet} [h : Legible s] : Legible (Parameter.lifetime s) := ⟨h⟩
instance {s : Snippet} [h : Legible s] : Legible (Parameter.other s) := ⟨h⟩
instance {p : Parameter} [h : Legible p] : Legible p.snippet := h.isLegible

instance {bs : List Bound} {trailing : Bool} {value : Option Ty} [Legible bs]
    [h : Legible value] : Legible (boundsSnippet bs trailing value) := by
  unfold boundsSnippet
  cases value with
  | none => infer_instance
  | some ty =>
    have ht := Legible.of_some h
    infer_instance

instance (wildcard : Bool) : Conveys (parameter g wildcard) := by
  have hvalue {v : Option Snippet} [hv : Legible v] : Legible (match v with
      | some v => ⟨Token.operator "=" ++ v.tokens, Layout.word " = " ++ v.layout⟩
      | none => .empty : Snippet) := by
    cases v with
    | none => infer_instance
    | some s =>
      have hs := Legible.of_some hv
      infer_instance
  unfold parameter
  infer_instance

instance : Looks seesParameters := ⟨fun _ => ⟨_, rfl⟩⟩
instance : Looks seesForParameters := ⟨fun _ => ⟨_, rfl⟩⟩

instance : Conveys (boundParameters g) := by
  unfold boundParameters
  infer_instance

instance : Conveys (argument g) := by
  unfold argument
  refine look_bind inferInstance fun _ => look_bind inferInstance fun _ => ite inferInstance ?_
  refine look_bind inferInstance fun _ => look_bind inferInstance fun _ => ite inferInstance ?_
  refine bind inferInstance fun ty hty => ?_
  dsimp only
  split
  next n args =>
    have hs : Legible [Segment.mk n args] := hty.isLegible
    have hs := Legible.of_head hs
    infer_instance
  next => infer_instance

instance : Conveys (angled g) := by
  unfold angled
  infer_instance

instance (expression : Bool) : Conveys (segment g expression) := by
  unfold segment
  infer_instance

instance (expression : Bool) : Conveys (moreSegments g expression) := by
  unfold moreSegments
  infer_instance

instance (expression : Bool) : Conveys (segments g expression) := by
  unfold segments
  infer_instance

instance (expression : Bool) : Conveys (path g expression) := by
  unfold path
  refine look_bind inferInstance fun _ => ite (bind inferInstance fun _ _ => ?_) inferInstance
  refine bind inferInstance fun owner _ => bind inferInstance fun trait ht => ?_
  cases trait with
  | none => infer_instance
  | some x =>
    obtain ⟨rooted, ss⟩ := x
    have hss := (Legible.of_some ht).snd
    infer_instance

theorem legible_name {n : String} {args : Arguments} (h : Legible (Segment.mk n args)) :
    Legible n := by
  have hr : Code.Remains (.ident n :: args.tokens) := ⟨[], h.isLegible []⟩
  exact ⟨convey_token hr (by simp) (by simp) rfl⟩

instance {n : String} [hn : Legible n] : Legible (Token.ident n).text := hn

instance {ss : List Segment} [hs : Legible ss] : Conveys (callLast g ss) := by
  have hrev : Legible ss.reverse := inferInstance
  unfold callLast
  split
  next n args before he =>
    rw [he] at hrev
    have hn := legible_name (Legible.of_head hrev)
    have hb := Legible.of_tail hrev
    infer_instance
  next => infer_instance

instance : Conveys constantMark := by
  unfold constantMark
  infer_instance

instance (constants parenthesized : Bool) : Conveys (traitBound g constants parenthesized) := by
  unfold traitBound
  infer_instance

instance : Conveys captures := by
  unfold captures
  infer_instance

instance (allowsCaptures constants : Bool) : Conveys (boundBody g allowsCaptures constants) := by
  unfold boundBody
  infer_instance

instance (n : Nat) : Looks (seesColonAt n) := ⟨fun _ => ⟨_, rfl⟩⟩

instance (first : Bool) : Conveys (inputLabel first) := by
  unfold inputLabel
  infer_instance

instance (first : Bool) : Looks (seesChangingSelf first) := ⟨fun _ => ⟨_, rfl⟩⟩

instance [Legible attrs] (first : Bool) : Conveys (bareInput g attrs first) := by
  unfold bareInput
  dsimp only
  refine look_bind inferInstance fun _ => bind inferInstance fun x hx => ?_
  obtain ⟨_ | ⟨label, ty⟩, tokens⟩ := x
  · have ht := hx.snd
    infer_instance
  · have hl := (Legible.of_some hx.fst).fst
    have ht := (Legible.of_some hx.fst).snd
    infer_instance

instance : Looks seesVariadic := ⟨fun _ => ⟨_, rfl⟩⟩

instance [Legible attrs] : Conveys (variadic attrs) := by
  have hlabel {l : Option String} [hl : Legible l] : Legible
      (match l with | some n => .ident n :: Token.operator ":" | none => [] : Code) := by
    cases l with
    | none => infer_instance
    | some n =>
      have hn := Legible.of_some hl
      infer_instance
  unfold variadic
  infer_instance

instance convey_bareInputs_go (n : List Token) (first : Bool) :
    Conveys (bareInputs.go g n first) := by
  induction n generalizing first with
  | nil => exact instFail
  | cons t n ih =>
    unfold bareInputs.go
    infer_instance

instance : Conveys (bareInputs g) := by
  unfold bareInputs
  infer_instance

instance : Conveys abi := by
  unfold abi
  refine bind inferInstance fun _ _ => ite ?_ inferInstance
  refine of_next (fun {s ts a r} h hs hr => ?_) fun t ht => ?_
  · obtain ⟨_, m, hreq, hr⟩ := Extends.run_bind_eq.mp hr
    obtain ⟨-, rfl⟩ := Completes.run_require_eq.mp hreq
    exact convey_take h hs.isLegible inferInstance hr
  · split
    next s => exact absurd rfl (ht s)
    next => infer_instance

instance {lifetimes : Snippet} [Legible lifetimes] : Conveys (functionType g lifetimes) := by
  unfold functionType
  infer_instance

instance (explicit joined : Bool) : Conveys (traitObject g explicit joined) := by
  unfold traitObject
  infer_instance

instance (joined : Bool) : Conveys (implementer g joined) := by
  unfold implementer
  infer_instance

instance : Conveys (furtherBounds g) := by
  unfold furtherBounds
  infer_instance

instance : Writing Parenthesized := ⟨fun
  | .tuple ts _ => Legible ts
  | .single t => Legible t
  | .optionalBound b => Legible b⟩

instance {ts : List Ty} {trailing : Bool} [h : Legible ts] :
    Legible (Parenthesized.tuple ts trailing) := ⟨h⟩
instance {t : Ty} [h : Legible t] : Legible (Parenthesized.single t) := ⟨h⟩
instance {b : Bound} [h : Legible b] : Legible (Parenthesized.optionalBound b) := ⟨h⟩

instance : Conveys (parenthesizedBody g) := by
  unfold parenthesizedBody
  refine look_bind inferInstance fun _ => ite inferInstance (look_bind inferInstance fun _ => ?_)
  refine ite inferInstance (look_bind inferInstance fun _ => ite ?_ inferInstance)
  refine bind inferInstance fun b hb => ?_
  cases b with
  | none => infer_instance
  | some b =>
    have hb := Legible.of_some hb
    infer_instance

instance {t : Ty} [h : Legible t] : Legible (boundOfTy t) := by
  unfold boundOfTy
  split
  next rooted ss =>
    have hs : Legible ss := h.isLegible
    infer_instance
  next paren ls m rooted ss =>
    have hb : Legible [Bound.trait paren ls m rooted ss] := h.isLegible
    have hb := Legible.of_head hb
    have hls : Legible ls := hb.isLegible.1
    have hss : Legible ss := hb.isLegible.2
    infer_instance
  next b _ =>
    have hb : Legible [b] := h.isLegible
    have hb := Legible.of_head hb
    infer_instance
  next => infer_instance

instance (joined : Bool) : Conveys (parenthesizedTy g joined) := by
  unfold parenthesizedTy
  refine bind inferInstance fun inside h => ?_
  cases inside with
  | single t =>
    have ht : Legible t := h.isLegible
    have hb : Legible (boundOfTy t) := inferInstance
    refine look_bind inferInstance fun _ => ite ?_ inferInstance
    cases hbt : boundOfTy t with
    | none => infer_instance
    | some b =>
      rw [hbt] at hb
      have hb := Legible.of_some hb
      infer_instance
  | tuple ts trailing =>
    have ht : Legible ts := h.isLegible
    infer_instance
  | optionalBound b =>
    have hb : Legible b := h.isLegible
    infer_instance

instance {lifetimes : Option Snippet} [Legible lifetimes] (joined : Bool) :
    Conveys (pathTy g joined lifetimes) := by
  unfold pathTy
  infer_instance

instance : Looks seesFunction := ⟨fun _ => ⟨_, rfl⟩⟩
instance : Looks seesPath := ⟨fun _ => ⟨_, rfl⟩⟩
instance : Looks seesBuiltin := ⟨fun _ => ⟨_, rfl⟩⟩

instance : Conveys builtinCall := by
  unfold builtinCall
  infer_instance

instance {c : Code} [Legible c] : Legible (codeOf c) := by
  unfold codeOf
  infer_instance

instance (joined : Bool) : Conveys (dynamicTy g joined) := by
  unfold dynamicTy
  refine bind inferInstance fun ⟨⟨star, ty⟩, tokens⟩ h => ?_
  have ht := h.fst.snd
  have htokens := h.snd
  infer_instance

instance (joined : Bool) : Conveys (tyBody g joined) := by
  unfold tyBody
  refine bind inferInstance fun ⟨lifetimes, before⟩ h => ?_
  have hl := h.fst
  have hb := h.snd
  dsimp only
  refine ite ?_ ?_ <;> infer_instance

/-! ### Generic parameters and conditions -/

instance : Conveys (generics g) := by
  have hl (p : {p : Parameter // Legible p}) : Legible (match p.val with
      | .lifetime s => some s
      | .other _ => none) := by
    obtain ⟨p, hp⟩ := p
    cases p with
    | lifetime s =>
      have hs : Legible s := hp.isLegible
      infer_instance
    | other s => infer_instance
  have ho (p : {p : Parameter // Legible p}) : Legible (match p.val with
      | .other s => some s
      | .lifetime _ => none) := by
    obtain ⟨p, hp⟩ := p
    cases p with
    | lifetime s => infer_instance
    | other s =>
      have hs : Legible s := hp.isLegible
      infer_instance
  unfold generics
  infer_instance

instance : Looks seesConditionEnd := ⟨fun _ => ⟨_, rfl⟩⟩

instance : Conveys (condition g) := by
  unfold condition
  infer_instance

instance convey_separatedLoose_go (n : List Token) :
    Conveys (conditions.separatedLoose.go g n) := by
  induction n with
  | nil => exact instFail
  | cons t n ih =>
    unfold conditions.separatedLoose.go
    infer_instance

instance : Conveys (conditions.separatedLoose g) := by
  unfold conditions.separatedLoose
  infer_instance

instance {params : Generics} [Legible params] : Conveys (conditions g params) := by
  unfold conditions
  infer_instance

/-! ### Patterns -/

instance : Conveys (constBlock g) := by
  unfold constBlock
  infer_instance

instance {text : String} : Legible (positionOf text) := by
  unfold positionOf
  split
  next n suffix _ =>
    have hn : Legible (Token.literal (toString n)) :=
      ⟨Code.isLegible_singleton (Lexer.isPlain_decimal n)⟩
    infer_instance
  next => infer_instance

instance : Conveys position := by
  unfold position
  refine of_take fun {t r} h => ?_
  cases t with
  | literal s => exact .inl ⟨convey_token h (by simp) (by simp) rfl, instLift⟩
  | _ => exact .inr rfl

instance : Conveys member := by
  unfold member
  infer_instance

/-- A member is a name or a position. -/
theorem bind_member {α : Type} [Writing α] {f : Token → Parser α}
    (hn : ∀ n, Legible n → Conveys (f (.ident n)))
    (hp : ∀ t, Legible t → isPosition t = true → Conveys (f t)) : Conveys (member >>= f) := by
  have hposition {text : String} {t : Token} (h : positionOf text = some t) :
      Legible t ∧ isPosition t = true := by
    have hl : Legible (positionOf text) := inferInstance
    rw [h] at hl
    refine ⟨Legible.of_some hl, ?_⟩
    unfold positionOf at h
    split at h
    · split at h <;> cases h
      rfl
    · cases h
  have hother : Conveys (position >>= f) := by
    unfold position
    rw [bind_assoc]
    refine of_take fun {t r} h => ?_
    cases t with
    | literal s =>
      refine .inl ⟨convey_token h (by simp) (by simp) rfl, ?_⟩
      dsimp only
      cases hs : positionOf s with
      | none => exact ⟨fun _ hr => by cases hr⟩
      | some t => exact hp t (hposition hs).1 (hposition hs).2
    | _ => exact .inr rfl
  have hname : Conveys (name >>= fun n => f (.ident n)) := bind inferInstance hn
  unfold member
  rw [bind_assoc]
  refine look_bind inferInstance fun b => ?_
  cases b with
  | true => simpa using hname
  | false => simpa using hother

instance : Conveys (rangeBound g) := by
  unfold rangeBound
  infer_instance

instance : Conveys (Token.operator <$> rangeMark) := by
  unfold rangeMark
  simp only [map_bind, map_pure, apply_ite (Functor.map _)]
  infer_instance

/-- The mark of a range is bound together with what makes it legible. -/
instance (priority := high) instBindRangeMark {α : Type} [Writing α] {f : String → Parser α}
    [hf : ∀ m : {m : String // Legible (Token.operator m)}, Conveys (f m.val)] :
    Conveys (rangeMark >>= f) := bind_of_map inferInstance fun m hm => hf ⟨m, hm⟩

instance (m : {m : String // Legible (Token.operator m)}) : Legible (Token.operator m.val) :=
  m.property

instance (first : Expr) [Legible first] : Conveys (rangeFrom g first) := by
  unfold rangeFrom
  infer_instance

instance : Conveys (leadingRange g) := by
  unfold leadingRange
  refine look_bind inferInstance fun _ => bind inferInstance fun _ _ => ?_
  refine bind_of_map (m := Token.operator) inferInstance fun mark hm => ?_
  refine bind inferInstance fun last hl => ?_
  cases last with
  | none => infer_instance
  | some x =>
    obtain ⟨form, last⟩ := x
    have hlast := (Legible.of_some hl).snd
    infer_instance

instance : Conveys (literalPattern g) := by
  unfold literalPattern
  refine bind inferInstance fun first h => ?_
  cases first with
  | none => infer_instance
  | some x =>
    obtain ⟨form, first⟩ := x
    have hf := (Legible.of_some h).snd
    infer_instance

instance (leading : Bool) : Conveys (alternativesFrom g leading) := by
  unfold alternativesFrom
  infer_instance

instance : Conveys (alternatives g) := by
  unfold alternatives
  infer_instance

instance : Conveys (namePattern g) := by
  unfold namePattern
  infer_instance

instance {p : Parser Unit} [Conveys p] : Conveys (boxPattern p) := by
  unfold boxPattern
  infer_instance

instance [Legible attrs] : Conveys (fieldPattern g attrs) := by
  unfold fieldPattern
  refine look_bind inferInstance fun _ => ite inferInstance ?_
  refine bind inferInstance fun _ _ => bind inferInstance fun _ _ => ite inferInstance ?_
  refine bind_member (fun n hn => ?_) fun t ht hp => ?_
  · infer_instance
  · simp only [hp, Bool.true_or, if_true]
    infer_instance

instance convey_recordFields_go (n : List Token) : Conveys (recordFields.go g n) := by
  induction n with
  | nil => exact instFail
  | cons t n ih =>
    unfold recordFields.go
    infer_instance

instance : Conveys (recordFields g) := by
  unfold recordFields
  infer_instance

instance : Conveys (pathPattern g) := by
  unfold pathPattern
  infer_instance

instance : Conveys (parenthesizedPattern g) := by
  unfold parenthesizedPattern
  refine bind inferInstance fun ⟨ps, trailing⟩ h => ?_
  have hps := h.fst
  dsimp only
  split
  next p =>
    have hp := Legible.of_head hps
    infer_instance
  next => infer_instance

instance : Conveys (slicePattern g) := by
  unfold slicePattern
  infer_instance

instance : Looks seesPathPattern := ⟨fun _ => ⟨_, rfl⟩⟩

instance : Conveys (patternBody g) := by
  unfold patternBody
  infer_instance

variable {e : Expr}

/-! ### Operators -/

instance : Looks seesAssign := ⟨fun _ => ⟨_, rfl⟩⟩
instance : Looks binaryAhead := ⟨fun _ => ⟨_, rfl⟩⟩

instance : Looks nextPrecedence := by
  unfold nextPrecedence
  refine @Looks.instBind _ _ _ _ inferInstance fun next => ?_
  cases next <;> infer_instance

instance : Looks seesDot := ⟨fun _ => ⟨_, rfl⟩⟩
instance (marks : List String) : Looks (anySees marks) := ⟨fun _ => ⟨_, rfl⟩⟩
instance (records : Bool) : Looks (seesRangeEnd records) := ⟨fun _ => ⟨_, rfl⟩⟩

instance convey_rightOperand_go (records : Bool) (precedence : Nat) (n : List Token) (e : Expr)
    [he : Legible e] : Conveys (rightOperand.go g records precedence n e) := by
  induction n generalizing e with
  | nil => exact instFail
  | cons t n ih =>
    unfold rightOperand.go
    infer_instance

instance (records : Bool) (precedence : Nat) : Conveys (rightOperand g records precedence) := by
  unfold rightOperand
  infer_instance

instance (records : Bool) (first : Option Expr) [Legible first] :
    Conveys (expressionRange g records first) := by
  unfold expressionRange
  infer_instance

/-- Behind a slash legible code goes on, and with what follows it the slash is legible, too. -/
theorem remains_slash {joint : Bool} {c : Code} (h : Code.Remains (.punct '/' joint :: c)) :
    Code.Remains c ∧ ∀ front left, Code.IsLegible front → front ≠ [] → c = front ++ left →
      Code.IsLegible (.punct '/' joint :: front) := by
  cases joint with
  | false =>
    have hs : Code.IsLegible [.punct '/' false] := .of_all (by decide)
    exact ⟨h.of_append hs, fun front _ hf _ _ => hs.append hf⟩
  | true =>
    have hnext (groups : List Delimiter) : Place.next ⟨none, groups⟩ (.punct '/' true) =
        some ⟨some (.punct '/' true), groups⟩ := by
      cases groups <;> rfl
    obtain ⟨groups, hg⟩ := h
    have hg : Code.lead ⟨none, groups⟩ (.punct '/' true :: c) = some ⟨none, []⟩ := hg
    rw [Code.lead_cons, hnext, Option.bind_some] at hg
    cases c with
    | nil => cases hg
    | cons u c =>
      rw [Code.lead_cons] at hg
      obtain ⟨p, hp, hg⟩ := Option.bind_eq_some_iff.mp hg
      have hu : Token.admits (.punct '/' true) u = true := (Code.next_eq_some.mp hp).1.2
      rw [Code.next_awaiting hu] at hp
      refine ⟨⟨groups, by rw [Code.lead_cons, hp, Option.bind_some, hg]⟩, ?_⟩
      intro front left hf hne hc
      obtain ⟨v, front, rfl⟩ := List.exists_cons_of_ne_nil hne
      obtain rfl := (List.cons.inj hc).1
      intro groups
      rw [Code.lead_cons, hnext, Option.bind_some, Code.lead_cons, Code.next_awaiting hu,
        ← Code.lead_cons, hf]

/-- The slash of a division is read together with the operand, which is never empty. -/
theorem bind_slash {α β : Type} [Writing α] [Writing β] {q : Parser α} {f : α → Parser β}
    (hq : Conveys q) (ht : ∀ {ts a r}, Code.Remains ts → q.run ts = some (a, r) →
      r.length < ts.length) (hf : ∀ a, Legible a → Conveys (f a)) :
    Conveys (op "/" >>= fun _ => q >>= f) where
  convey {ts b r} h hr := by
    obtain ⟨_, m, hop, hr⟩ := Extends.run_bind_eq.mp hr
    obtain ⟨a, m', ha, hb⟩ := Extends.run_bind_eq.mp hr
    obtain ⟨joint, rfl⟩ := exists_of_afterOperator (Extends.run_op_eq.mp hop)
    have h : Code.Remains (.punct '/' joint :: m) := h
    obtain ⟨hm, hslash⟩ := remains_slash h
    obtain ⟨hl, front, hfront, rfl⟩ := hq.convey hm ha
    have hne : front ≠ [] := by
      rintro rfl
      exact absurd (ht hm ha) (Nat.lt_irrefl _)
    obtain ⟨hl', back, hback, rfl⟩ := (hf a hl).convey (hm.of_append hfront) hb
    refine ⟨hl', .punct '/' joint :: front ++ back, ?_, by simp [Token.marks]⟩
    exact (hslash front _ hfront hne rfl).append hback

theorem rightOperand_takes {records : Bool} {precedence : Nat} {ts r : List Token} {e : Expr}
    (hs : Code.Remains ts) (h : (rightOperand g records precedence).run ts = some (e, r)) :
    r.length < ts.length := by
  have h : (g.operand records >>= rightOperand.go g records precedence (.punct ';' false :: ts)).run
      ts = some (e, r) := h
  obtain ⟨e', m, he, hgo⟩ := Extends.run_bind_eq.mp h
  obtain ⟨hl, front, hfront, hts⟩ := Conveys.convey hs he
  have hlt := IsFaithful.operand_takes he
  have hm : Code.Remains m := by
    rw [hts] at hs
    exact hs.of_append hfront
  obtain ⟨-, back, -, hback⟩ := Conveys.convey hm hgo
  rw [hback, List.length_append] at hlt
  omega

/-- Operators of the table are legible, and the slash apart they are read by themselves. -/
theorem legible_of_mem_table {x : String × Nat} (h : x ∈ Precedence.table) :
    Legible (Token.operator x.1) ∧ (x.1 = "/" ∨ IsOperator x.1) := by
  have hall : ∀ x ∈ Precedence.table, Code.IsLegible (Token.operator x.1) ∧
      (x.1 = "/" ∨ ∀ joint, Code.IsLegible (Token.marks joint x.1.toList)) := by decide +kernel
  obtain ⟨hl, ho⟩ := hall x h
  exact ⟨⟨hl⟩, ho.imp id fun h => ⟨h⟩⟩

theorem bind_binaryAhead {α : Type} [Writing α] {f : Option (String × Nat) → Parser α}
    (hn : Conveys (f none)) (hs : ∀ x ∈ Precedence.table, Conveys (f (some x))) :
    Conveys (binaryAhead >>= f) where
  convey {ts a r} h hr := by
    have hr : (f (Precedence.table.find? fun x => (afterOperator x.1.toList ts).isSome)).run ts =
        some (a, r) := hr
    cases hx : Precedence.table.find? fun x => (afterOperator x.1.toList ts).isSome with
    | none => exact hn.convey h (by rwa [hx] at hr)
    | some x => exact (hs x (List.mem_of_find?_eq_some hx)).convey h (by rwa [hx] at hr)

instance convey_climbBody_go (records : Bool) (base : Nat) (n : List Token) (left : Expr)
    [hl : Legible left] : Conveys (climbBody.go g records base n left) := by
  induction n generalizing left with
  | nil => exact instFail
  | cons t n ih =>
    unfold climbBody.go
    refine ite inferInstance (bind_binaryAhead ?_ fun x hx => ?_)
    · infer_instance
    · obtain ⟨marks, p⟩ := x
      obtain ⟨hmarks, hop⟩ := legible_of_mem_table hx
      refine ite inferInstance (bind inferInstance fun _ _ => ?_)
      rcases hop with hslash | hop
      · obtain rfl : marks = "/" := hslash
        exact bind_slash inferInstance rightOperand_takes fun e he => inferInstance
      · infer_instance

instance (records : Bool) (base : Nat) (left : Expr) [Legible left] :
    Conveys (climbBody g records base left) := by
  unfold climbBody
  infer_instance

/-! ### Operands -/

instance : Conveys (arguments g) := by
  unfold arguments
  infer_instance

instance [he : Legible e] : Conveys (memberOf g e) := by
  unfold memberOf
  refine bind inferInstance fun _ _ => ite inferInstance ?_
  refine bind_member (fun n hn => ?_) fun t ht hp => ?_
  · infer_instance
  · simp only [hp, Bool.not_true, Bool.false_and, Bool.false_eq_true, if_false]
    infer_instance

theorem legible_fields {positions : List Token} (he : Legible e) (hp : ∀ t ∈ positions, Legible t) :
    Legible (positions.foldl Expr.field e) := by
  induction positions generalizing e with
  | nil => exact he
  | cons t positions ih =>
    have ht := hp t List.mem_cons_self
    exact ih inferInstance fun u hu => hp u (List.mem_cons_of_mem t hu)

theorem legible_of_mapM {parts : List String} {ts : List Token}
    (h : parts.mapM positionOf = some ts) : ∀ t ∈ ts, Legible t := by
  induction parts generalizing ts with
  | nil =>
    cases h
    exact nofun
  | cons part parts ih =>
    rw [List.mapM_cons] at h
    obtain ⟨u, hu, h⟩ := Option.bind_eq_some_iff.mp h
    obtain ⟨us, hus, h⟩ := Option.bind_eq_some_iff.mp h
    cases h
    have hl : Legible (positionOf part) := inferInstance
    rw [hu] at hl
    intro t ht
    rcases List.mem_cons.mp ht with rfl | ht
    · exact Legible.of_some hl
    · exact ih hus t ht

theorem legible_of_joinedPositions {text : String} {x : List Token × Bool}
    (h : joinedPositions text = some x) : ∀ t ∈ x.1, Legible t := by
  obtain ⟨ts, hts, h⟩ := Option.bind_eq_some_iff.mp h
  cases h
  exact legible_of_mapM hts

instance [he : Legible e] : Conveys (afterDot g e) := by
  unfold afterDot
  refine bind inferInstance fun _ _ => of_next (fun {s ts a r} h hs hr => ?_) fun t ht => ?_
  · dsimp only at hr
    cases hp : joinedPositions s with
    | none =>
      rw [hp] at hr
      exact Conveys.convey h hr
    | some x =>
      obtain ⟨positions, more⟩ := x
      rw [hp] at hr
      have hfields := legible_fields he (legible_of_joinedPositions hp)
      exact convey_take h hs.isLegible inferInstance hr
  · split
    next s => exact absurd rfl (ht s)
    next => infer_instance

instance convey_trailers_go (n : List Token) (e : Expr) [he : Legible e] :
    Conveys (trailers.go g n e) := by
  induction n generalizing e with
  | nil => exact instFail
  | cons t n ih =>
    unfold trailers.go
    infer_instance

instance [Legible e] : Conveys (trailers g e) := by
  unfold trailers
  infer_instance

/-! ### Blocks and control flow -/

instance : Conveys (plainBlock g) := by
  unfold plainBlock
  infer_instance

instance : Conveys (conditionExpr g) := by
  unfold conditionExpr
  infer_instance

instance convey_otherBranches_go (n : List Token) : Conveys (otherBranches.go g n) := by
  induction n with
  | nil => exact instFail
  | cons t n ih =>
    unfold otherBranches.go
    infer_instance

instance : Conveys (otherBranches g) := by
  unfold otherBranches
  infer_instance

instance : Conveys (conditionalExpr g) := by
  unfold conditionalExpr
  infer_instance

section Labels

variable {label : Option String} [Legible (label.map Token.lifetime)]

instance : Conveys (whileExpr g label) := by
  unfold whileExpr
  infer_instance

instance : Conveys (forExpr g label) := by
  unfold forExpr
  infer_instance

instance : Conveys (loopExpr g label) := by
  unfold loopExpr
  infer_instance

end Labels

instance : Conveys (labelledExpr g) := by
  unfold labelledExpr
  infer_instance

instance : Conveys (arms g) := by
  unfold arms
  infer_instance

instance : Conveys (selectionExpr g) := by
  unfold selectionExpr
  infer_instance

instance : Conveys (unsafeBlock g) := by
  unfold unsafeBlock
  infer_instance

instance : Conveys (tryBlock g) := by
  unfold tryBlock
  infer_instance

instance : Conveys (earlyOperand g) := by
  unfold earlyOperand
  infer_instance

instance : Conveys (earlyBody g) := by
  unfold earlyBody
  infer_instance

/-! ### Closures, records and lists -/

instance : Looks seesValue := ⟨fun _ => ⟨_, rfl⟩⟩

instance : Conveys (closureInput g) := by
  unfold closureInput
  infer_instance

instance (records : Bool) : Conveys (closureExpr g records) := by
  unfold closureExpr
  infer_instance

instance : Conveys (fieldValue g) := by
  unfold fieldValue
  infer_instance

instance convey_recordValues_go (n : List Token) : Conveys (recordValues.go g n) := by
  induction n with
  | nil => exact instFail
  | cons t n ih =>
    unfold recordValues.go
    infer_instance

instance : Conveys (recordValues g) := by
  unfold recordValues
  infer_instance

instance (records : Bool) : Conveys (pathExpr g records) := by
  unfold pathExpr
  infer_instance

instance : Conveys (parenthesizedExpr g) := by
  unfold parenthesizedExpr
  refine bind inferInstance fun ⟨es, trailing⟩ h => ?_
  have hes := h.fst
  dsimp only
  split
  next e =>
    have he := Legible.of_head hes
    infer_instance
  next => infer_instance

instance : Conveys (bracketedExpr g) := by
  unfold bracketedExpr
  infer_instance

instance (records : Bool) : Conveys (letExpr g records) := by
  unfold letExpr
  infer_instance

instance (records : Bool) : Conveys (breakExpr g records) := by
  unfold breakExpr
  infer_instance

instance : Looks seesClosure := ⟨fun _ => ⟨_, rfl⟩⟩
instance : Looks seesAsyncBlock := ⟨fun _ => ⟨_, rfl⟩⟩

instance : Conveys (asyncBlock g) := by
  unfold asyncBlock
  infer_instance

instance (records : Bool) : Conveys (atom g records) := by
  unfold atom
  -- one condition after another, down to the last
  repeat first
    | refine look_bind inferInstance fun _ => ?_
    | refine bind inferInstance fun _ _ => ?_
    | refine ite inferInstance ?_
  exact instFail

/-- A mark in front of an operand. -/
theorem bind_unaryMark {α : Type} [Writing α] {f : Token → Parser α} {q : Parser α}
    (hf : ∀ c ∈ ['*', '!', '-'], ∀ joint, Conveys (f (.punct c joint))) (hq : Conveys q) :
    Conveys (do
      let star ← seesOp "*"
      let bang ← seesOp "!"
      let minus ← seesOp "-"
      if star || bang || minus then take >>= f else q) where
  convey {ts a r} h hr := by
    have hr : (if (afterOperator ['*'] ts).isSome || (afterOperator ['!'] ts).isSome ||
        (afterOperator ['-'] ts).isSome then take >>= f else q).run ts = some (a, r) := hr
    split at hr
    next hc =>
      have hmark : ∃ c ∈ ['*', '!', '-'], ∃ m, afterOperator [c] ts = some m := by
        rcases Bool.or_eq_true_iff.mp hc with hc | hc
        · rcases Bool.or_eq_true_iff.mp hc with hc | hc
          · exact ⟨'*', by simp, Option.isSome_iff_exists.mp hc⟩
          · exact ⟨'!', by simp, Option.isSome_iff_exists.mp hc⟩
        · exact ⟨'-', by simp, Option.isSome_iff_exists.mp hc⟩
      obtain ⟨c, hcm, m, hm⟩ := hmark
      obtain ⟨joint, rfl⟩ := exists_of_afterOperator hm
      have ha : (Token.punct c joint).awaits = false := by
        simp only [List.mem_cons, List.not_mem_nil, or_false] at hcm
        rcases hcm with rfl | rfl | rfl <;> rfl
      have ht := convey_token (t := .punct c joint) h (by simp) (by simp) ha
      obtain ⟨hl, eaten, he, rfl⟩ := (hf c hcm joint).convey (h.of_append ht) hr
      exact ⟨hl, .punct c joint :: eaten, Code.IsLegible.append ht he, rfl⟩
    next => exact hq.convey h hr

instance (records : Bool) : Conveys (operandBody g records) := by
  unfold operandBody
  refine bind inferInstance fun ⟨attrs, before⟩ h => ?_
  have ha := h.fst
  have hb := h.snd
  refine bind inferInstance fun _ _ => ite inferInstance (bind_unaryMark (fun c hc joint => ?_) ?_)
  · have hmark : Legible (Token.operator (Token.punct c joint).text) := by
      have hl : Code.IsLegible (Token.operator c.toString) := by
        simp only [List.mem_cons, List.not_mem_nil, or_false] at hc
        rcases hc with rfl | rfl | rfl <;> decide +kernel
      exact ⟨hl⟩
    infer_instance
  · infer_instance

instance (records : Bool) : Conveys (exprBody g records) := by
  unfold exprBody
  infer_instance

end Grammar

end RecordStore
