import RecordStore.Proofs.Syntax.PhraseConveyance

/-!
Items that are read in legible code: statements and blocks, functions, declarations and the items of
a file.
-/
namespace RecordStore

namespace Grammar

open RecordStore.Parser RecordStore.Parser.Conveys

set_option synthInstance.maxSize 100000

variable {g : Grammar} [IsFaithful g] {attrs : List Attribute} {before : Snippet} {v : Visibility}

/-! ### Statements -/

instance [Legible attrs] : Conveys (binding g attrs) := by
  unfold binding
  infer_instance

instance [Legible attrs] : Conveys (bracedCall attrs) := by
  unfold bracedCall
  infer_instance

instance : Conveys (itemStmt g) := by
  unfold itemStmt
  infer_instance

instance : Conveys callGroup := by
  unfold callGroup
  infer_instance

instance : Conveys (attributedEarly g) := by
  unfold attributedEarly
  infer_instance

instance : Conveys (exprOfStmt g) where
  convey h hr := by
    obtain ⟨e', m, he, hr⟩ := run_exprOfStmt_eq.mp hr
    split at hr
    · exact Conveys.convey h hr.1
    · cases hr
      exact Conveys.convey h he

instance {e : Expr} {semicolon : Bool} {call : Option Stmt} [Legible e] [hc : Legible call] :
    Legible (standing e semicolon call) := by
  unfold standing
  split
  next s _ _ =>
    have hs := Legible.of_some hc
    infer_instance
  next => infer_instance

instance {call : Bool → Option Stmt} [∀ b, Legible (call b)] : Conveys (standingExpr g call) := by
  unfold standingExpr
  infer_instance

theorem legible_callAfter [Legible attrs] {ts : List Token} (h : Code.Remains ts) (b : Bool) :
    Legible (callAfter attrs ts b) := by
  unfold callAfter
  cases hx : callGroup.run ts with
  | none => exact inferInstanceAs (Legible (none : Option Stmt))
  | some x =>
    obtain ⟨⟨p, d, body⟩, r⟩ := x
    obtain ⟨hl, -⟩ := Conveys.convey h hx
    have hp := hl.fst
    have hb := hl.snd.snd
    exact inferInstanceAs (Legible (some (Stmt.ofMacro attrs p d body b)))

instance : Conveys (statement g) where
  convey {ts s r} h hr := by
    obtain ⟨attrs, m, k, ha, -, hr⟩ := run_statement_eq.mp hr
    obtain ⟨hl, front, hfront, hts⟩ := Conveys.convey h ha
    have hm : Code.Remains m := Conveys.remains h ha
    have hbehind {p : Parser Stmt} [Conveys p] (hr : p.run m = some (s, r)) :
        Legible s ∧ ∃ eaten, Code.IsLegible eaten ∧ ts = eaten ++ r := by
      obtain ⟨hs, back, hback, hm⟩ := Conveys.convey hm hr
      exact ⟨hs, front ++ back, hfront.append hback, by rw [hts, hm, List.append_assoc]⟩
    cases k with
    | call => exact hbehind (p := bracedCall attrs) hr
    | binding => exact hbehind (p := binding g attrs) hr
    | item => exact Conveys.convey (p := itemStmt g) h hr
    | expr =>
      have hcall (b : Bool) : Legible (callAfter attrs m b) := legible_callAfter hm b
      exact Conveys.convey (p := standingExpr g (callAfter attrs m)) h hr

instance : Conveys (statements g) := by
  unfold statements
  infer_instance

instance : Conveys (blockBody g) := by
  unfold blockBody
  infer_instance

/-! ### Functions -/

theorem convey_orVerbatim {p : Parser (Option Item)} (hp : Conveys p) :
    Conveys (orVerbatim p) := by
  unfold orVerbatim
  infer_instance

instance {p : Parser (Option Item)} [hp : Conveys p] : Conveys (orVerbatim p) :=
  convey_orVerbatim hp

instance [Legible attrs] : Conveys (receiver g attrs) := by
  have href : Conveys (Option.map (Option.map Token.lifetime) <$>
      optional? (seesOp "&") (do op "&"; lifetime?)) := by
    rw [map_optional?, map_bind]
    infer_instance
  unfold receiver
  refine bind_of_map href fun reference _ => ?_
  infer_instance

instance : Conveys surplusComma := by
  unfold surplusComma
  infer_instance

instance : Writing Argument := ⟨fun
  | .parameter p => Legible p
  | .surplus s => Legible s⟩

instance {p : RecordStore.Parameter} [h : Legible p] : Legible (Argument.parameter p) := ⟨h⟩
instance {s : Snippet} [h : Legible s] : Legible (Argument.surplus s) := ⟨h⟩

instance [Legible attrs] : Conveys (typedArgument g attrs) := by
  unfold typedArgument
  infer_instance

instance : Looks seesReceiver := ⟨fun _ => ⟨_, rfl⟩⟩

instance : Conveys (functionArgument g) := by
  unfold functionArgument
  infer_instance

instance convey_functionInputs_go (n : List Token) (first : Bool) :
    Conveys (functionInputs.go g n first) := by
  induction n generalizing first with
  | nil => exact instFail
  | cons t n ih =>
    unfold functionInputs.go
    refine look_bind inferInstance fun _ => ite inferInstance (bind inferInstance fun a ha => ?_)
    cases a with
    | parameter p =>
      have hp : Legible p := ha.isLegible
      infer_instance
    | surplus s =>
      have hs : Legible s := ha.isLegible
      infer_instance

instance : Conveys (functionInputs g) := by
  unfold functionInputs
  infer_instance

instance (safe : Bool) : Conveys (safeWord safe) := by
  unfold safeWord
  infer_instance

instance (safe : Bool) : Conveys (signatureWith g safe) := by
  unfold signatureWith
  infer_instance

instance : Conveys (signature g) := by
  unfold signature
  infer_instance

instance (safe : Bool) : Looks (seesSignature safe) := ⟨fun _ => ⟨_, rfl⟩⟩

instance (safe : Bool) : Conveys (function g safe) := by
  unfold function
  infer_instance

/-! ### Structs and enums -/

instance {p : Parser (List FieldItem)} [Conveys p] : Conveys (unnamedStruct p) := by
  unfold unnamedStruct
  infer_instance

instance {p : Parser (List FieldItem)} [Conveys p] : Conveys (namedField g p) := by
  unfold namedField
  infer_instance

instance : Conveys (unnamedField g) := by
  unfold unnamedField
  infer_instance

instance convey_namedFields_go (n : List Token) : Conveys (namedFields.go g n) := by
  induction n with
  | nil => exact instFail
  | cons t n ih =>
    unfold namedFields.go
    infer_instance

instance : Conveys (namedFields g) := by
  unfold namedFields
  infer_instance

instance : Conveys (unnamedFields g) := by
  unfold unnamedFields
  infer_instance

instance [Legible attrs] [Legible v] : Conveys (structItem g attrs v) := by
  unfold structItem
  infer_instance

instance : Conveys (variant g) := by
  unfold variant
  infer_instance

instance [Legible attrs] [Legible v] : Conveys (enumItem g attrs v) := by
  unfold enumItem
  infer_instance

instance [Legible attrs] [Legible v] : Conveys (unionItem g attrs v) := by
  unfold unionItem
  infer_instance

/-! ### Names of types and values -/

instance {stop : Parser Bool} [Conveys stop] : Conveys (optionalBounds g stop) := by
  unfold optionalBounds
  infer_instance

instance : Looks seesDefinition := ⟨fun _ => ⟨_, rfl⟩⟩

instance : Writing TypeName := ⟨fun t =>
  Legible t.name ∧ Legible t.generics ∧ Legible t.bounds ∧ Legible t.ty⟩

section TypeNames

variable {t : TypeName}

instance {n : String} {params : Generics} {bounds : Option (List Bound × Bool)} {ty : Option Ty}
    [hn : Legible n] [hp : Legible params] [hb : Legible bounds] [ht : Legible ty] :
    Legible (TypeName.mk n params bounds ty) := ⟨hn, hp, hb, ht⟩

instance [h : Legible t] : Legible t.name := h.isLegible.1
instance [h : Legible t] : Legible t.generics := h.isLegible.2.1
instance [h : Legible t] : Legible t.bounds := h.isLegible.2.2.1
instance [h : Legible t] : Legible t.ty := h.isLegible.2.2.2

instance [Legible attrs] [Legible before] [Legible t] : Legible (memberType attrs before t) := by
  unfold memberType
  infer_instance

end TypeNames

instance (whereBefore whereAfter : Bool) : Conveys (typeName g whereBefore whereAfter) := by
  unfold typeName
  infer_instance

instance (valueless : Bool) [Legible attrs] [Legible before] :
    Conveys (constantItem g valueless attrs before) := by
  unfold constantItem
  infer_instance

instance (untyped : Bool) : Conveys (staticItem g untyped) := by
  unfold staticItem
  infer_instance

/-! ### Imports -/

instance : Conveys newName := by
  unfold newName
  infer_instance

instance (anyRoot : Bool) : Conveys (useTreeBody g anyRoot) := by
  unfold useTreeBody
  dsimp only
  refine look_bind inferInstance fun _ => look_bind inferInstance fun _ => ?_
  refine look_bind inferInstance fun _ => ite ?_ ?_
  · refine bind inferInstance fun n hn => bind inferInstance fun _ _ => ite ?_ inferInstance
    refine bind inferInstance fun t ht => ?_
    cases t with
    | none => infer_instance
    | some t =>
      have ht := Legible.of_some ht
      infer_instance
  · infer_instance

instance [Legible attrs] [Legible v] : Conveys (useItem g attrs v) := by
  unfold useItem
  infer_instance

/-! ### Macros -/

instance (named : Bool) [Legible attrs] : Conveys (macroItem named attrs) := by
  unfold macroItem
  infer_instance

instance : Conveys declaredMacro := by
  unfold declaredMacro
  infer_instance

instance : Looks seesCall := ⟨fun _ => ⟨_, rfl⟩⟩

/-! ### Traits and implementations -/

instance {i : Option Item} {plain : Bool} [h : Legible i] :
    Legible (i.bind fun i => if plain = true then some i else none) := by
  cases i with
  | none => exact inferInstanceAs (Legible (none : Option Item))
  | some i =>
    have hi := Legible.of_some h
    exact inferInstanceAs (Legible (if plain = true then some i else none))

instance : Conveys (traitMember g) := by
  unfold traitMember
  dsimp only
  infer_instance

instance : Conveys (implMember g) := by
  unfold implMember
  infer_instance

instance {item : Parser Item} [Conveys item] : Conveys (itemsWithin g item) := by
  unfold itemsWithin
  infer_instance

instance [Legible attrs] [Legible v] : Conveys (implItem g attrs v) := by
  have htrait {isFor negative : Bool} {first : Ty} [hf : Legible first] :
      Legible (match isFor, first with
        | true, .path rooted ss => some (negative, (⟨none, rooted, ss⟩ : Path))
        | _, _ => none) := by
    split
    next rooted ss =>
      have hss : Legible ss := hf.isLegible
      infer_instance
    next => infer_instance
  unfold implItem
  -- what stands in front of the braces is optional in its parts, whatever they hold
  repeat first
    | refine ite ?_ ?_
    | refine bind inferInstance fun _ _ => ?_
  all_goals infer_instance

instance [Legible attrs] [Legible v] : Conveys (traitItem g attrs v) := by
  unfold traitItem
  infer_instance

/-! ### Modules and foreign items -/

instance [Legible attrs] [Legible v] : Conveys (moduleItem g attrs v) := by
  unfold moduleItem
  infer_instance

instance [Legible attrs] [Legible v] : Conveys (externCrate attrs v) := by
  unfold externCrate
  infer_instance

instance : Conveys (foreignItem g) := by
  unfold foreignItem
  refine convey_orVerbatim ?_
  refine bind inferInstance fun attrs _ => bind inferInstance fun vis _ => ?_
  refine look_bind inferInstance fun _ => ite inferInstance ?_
  refine look_bind inferInstance fun _ => look_bind inferInstance fun _ => ?_
  refine look_bind inferInstance fun _ => look_bind inferInstance fun _ => ite ?_ inferInstance
  refine look_bind inferInstance fun _ => ite (bind inferInstance fun _ _ => ?_) ?_
  all_goals
    refine bind inferInstance fun ⟨head, ty, value⟩ h => ?_
    have hh := h.fst
    have ht := h.snd.fst
    cases ty with
    | none => infer_instance
    | some ty =>
      have ht := Legible.of_some ht
      cases value <;> infer_instance

instance [Legible attrs] : Conveys (foreignItems g attrs) := by
  unfold foreignItems
  infer_instance

/-! ### Items -/

instance : Conveys (itemBody g) := by
  unfold itemBody
  refine convey_orVerbatim ?_
  refine bind inferInstance fun attrs _ => bind inferInstance fun vis _ => ?_
  refine look_bind inferInstance fun _ => ite inferInstance ?_
  refine look_bind inferInstance fun _ => ite inferInstance ?_
  refine look_bind inferInstance fun _ => ite inferInstance ?_
  refine look_bind inferInstance fun _ => ite ?_ ?_
  · refine bind inferInstance fun ⟨head, ty, value⟩ h => ?_
    have hh := h.fst
    have ht := h.snd.fst
    have hv := h.snd.snd
    cases ty with
    | none => infer_instance
    | some ty =>
      have ht := Legible.of_some ht
      cases value with
      | none => infer_instance
      | some value =>
        have hv := Legible.of_some hv
        infer_instance
  refine look_bind inferInstance fun _ => ite inferInstance ?_
  refine look_bind inferInstance fun _ => ite inferInstance ?_
  refine look_bind inferInstance fun _ => ite inferInstance ?_
  refine look_bind inferInstance fun _ => ite ?_ inferInstance
  refine bind inferInstance fun t ht => ?_
  have hty : Legible t.ty := inferInstance
  split
  next ty _ he =>
    rw [he] at hty
    have hty := Legible.of_some hty
    infer_instance
  next => infer_instance

end Grammar

end RecordStore
