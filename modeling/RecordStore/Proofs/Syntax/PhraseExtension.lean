import RecordStore.Proofs.Syntax.Extension

/-!
Types, patterns and expressions are read alike whatever follows the text, and in greater depth. Most
parsers are made of others in ways that keep this, so that it is found by their structure; where
they branch on what they have read, the branches are told apart first.
-/
namespace RecordStore

/-- What the one grammar reads, the other one reads as well. Its expressions have something behind
their attributes. -/
class Grammar.Deepens (g g' : Grammar) : Prop where
  ty : ∀ b, Parser.Extends (g.ty b) (g'.ty b)
  bound : ∀ c k, Parser.Extends (g.bound c k) (g'.bound c k)
  expr : ∀ b, Parser.Extends (g.expr b) (g'.expr b)
  early : Parser.Extends g.early g'.early
  operand : ∀ b, Parser.Extends (g.operand b) (g'.operand b)
  climb : ∀ b p e, Parser.Extends (g.climb b p e) (g'.climb b p e)
  pattern : Parser.Extends g.pattern g'.pattern
  block : Parser.Extends g.block g'.block
  item : Parser.Extends g.item g'.item
  useTree : ∀ b, Parser.Extends (g.useTree b) (g'.useTree b)
  operand_nil : ∀ b, (g.operand b).run [] = none
  attributed : ∀ {ts e r}, g.early.run ts = some (e, r) →
    ∃ attrs m, (attributes g).run ts = some (attrs, m) ∧ m ≠ []

namespace Grammar

open RecordStore.Parser RecordStore.Parser.Extends

attribute [instance] Deepens.ty Deepens.bound Deepens.expr Deepens.early Deepens.operand
  Deepens.climb Deepens.pattern Deepens.block Deepens.item Deepens.useTree

-- Instances repeat the parsers that they are about, so they grow with their nesting.
set_option synthInstance.maxSize 100000

variable {g g' : Grammar} [Deepens g g']

/-! ### Attributes and visibility -/

instance : Extends seesRoot seesRoot := by
  unfold seesRoot
  infer_instance

instance : Extends pathWord pathWord := by
  unfold pathWord
  infer_instance

instance : Extends wordPath wordPath := by
  unfold wordPath
  infer_instance

instance : Surveys wordPath := by
  have ho : Surveys (op "::") := .of_op (by decide)
  have ho' : Surveys (op? "::") := .of_op? (by decide)
  have hr : Surveys seesRoot := by
    unfold seesRoot
    infer_instance
  have hw : Surveys pathWord := by
    unfold pathWord
    infer_instance
  have hm : Surveys (whileSees (seesOp "::") (do op "::"; pathWord)) := by
    refine .of_whileSees (fun ts => ⟨_, rfl⟩) fun {ts a r} h => ?_
    obtain ⟨_, m, hop, hword⟩ := run_bind_eq.mp h
    have hlt := length_lt_of_afterOperator (by decide) (run_op_eq.mp hop)
    exact Nat.lt_of_le_of_lt (suffix pathWord hword).length_le hlt
  unfold wordPath
  infer_instance

theorem literalEnds_append {ts : List Token} (us : List Token) (h : Settled ts) :
    literalEnds (ts ++ us) = literalEnds ts := by
  have hn {rs : List Token} (hr : Settled rs) : (rs ++ us).head? = rs.head? := head?_within 0 hr
  cases ts with
  | nil => exact absurd rfl h.ne_nil
  | cons t ts =>
    cases t with
    | literal s =>
      have ht := h.tail rfl
      simp [literalEnds, literalAhead, hn ht]
    | ident n =>
      have ht := h.tail rfl
      cases hw : n == "true" || n == "false" <;> simp [literalEnds, literalAhead, hw, hn ht]
    | punct c joint =>
      by_cases hc : c = '-'
      · subst hc
        have ht := h.tail rfl
        cases ts with
        | nil => exact absurd rfl ht.ne_nil
        | cons u ts =>
          cases u with
          | literal s =>
            have hu := ht.tail rfl
            cases hd : s.toList.head?.any Char.isDigit <;>
              simp [literalEnds, literalAhead, hd, hn hu]
          | _ => rfl
      · simp [literalEnds, literalAhead, hc]
    | _ => rfl

instance : Extends seesWholeLiteral seesWholeLiteral :=
  of_look (fun _ us => literalEnds_append us) fun _ => rfl

instance : Extends (attributeValue g) (attributeValue g') := by
  unfold attributeValue
  infer_instance

instance (inner : Bool) : Extends (attributeBody g inner) (attributeBody g' inner) := by
  unfold attributeBody
  infer_instance

instance : Extends (attributes g) (attributes g') := by
  unfold attributes
  infer_instance

instance : Extends (innerAttributes g) (innerAttributes g') := by
  unfold innerAttributes
  infer_instance

theorem restriction?_append {ts : List Token} (us : List Token) (h : Settled ts) :
    restriction? (ts ++ us) = restriction? ts := by
  cases ts with
  | nil => exact absurd rfl h.ne_nil
  | cons t ts =>
    cases t with
    | opening d =>
      have ht := h.tail rfl
      cases ts with
      | nil => exact absurd rfl ht.ne_nil
      | cons u ts =>
        cases u with
        | ident n =>
          have hu := ht.tail rfl
          cases ts with
          | nil => exact absurd rfl hu.ne_nil
          | cons v ts => by_cases hn : n = "in" <;> cases v <;> simp [restriction?, hn]
        | _ => rfl
    | _ => rfl

instance : Extends seesRestriction seesRestriction :=
  of_look (fun _ us => restriction?_append us) fun _ => rfl

instance : Extends visibility visibility := by
  unfold visibility
  refine bind inferInstance fun _ => ite inferInstance ?_
  refine bind inferInstance fun _ => ite (bind inferInstance fun r => ?_) inferInstance
  cases r with
  | none => infer_instance
  | some r => cases r <;> infer_instance

/-! ### Types -/

instance (p : Path) : Extends (macroCall p) (macroCall p) := by
  unfold macroCall
  infer_instance

instance : Extends seesBang seesBang := by
  unfold seesBang
  infer_instance

instance (bounds : Bool) : Extends (output g bounds) (output g' bounds) := by
  unfold output
  infer_instance

instance : Extends (calledArguments g) (calledArguments g') := by
  unfold calledArguments
  infer_instance

instance : Extends seesCalled seesCalled := by
  unfold seesCalled
  infer_instance

instance : Extends seesListEnd seesListEnd := by
  unfold seesListEnd
  infer_instance

instance : Extends lifetimeParameter lifetimeParameter := by
  unfold lifetimeParameter
  infer_instance

instance (expression : Bool) : Extends (seesAngle expression) (seesAngle expression) := by
  unfold seesAngle
  infer_instance

instance : Extends (constantArgument g) (constantArgument g') := by
  unfold constantArgument
  infer_instance

instance (constants : Bool) : Extends (seesBound constants) (seesBound constants) := by
  unfold seesBound
  infer_instance

instance joinedBounds_go (joined constants : Bool) {one one' : Parser Bound} [Extends one one']
    (n m : List Token) : Extends (joinedBounds.go joined constants one n)
      (joinedBounds.go joined constants one' (n ++ m)) := by
  induction n with
  | nil => exact instFail
  | cons t n ih =>
    rw [List.cons_append]
    unfold joinedBounds.go
    infer_instance

instance (joined constants : Bool) {one one' : Parser Bound} [Extends one one'] :
    Extends (joinedBounds joined constants one) (joinedBounds joined constants one') :=
  bind_rounds fun n m => by infer_instance

instance (wildcard : Bool) : Extends (parameter g wildcard) (parameter g' wildcard) := by
  unfold parameter
  infer_instance

instance : Extends seesParameters seesParameters := by
  unfold seesParameters
  infer_instance

instance : Surveys seesParameters := by
  unfold seesParameters
  infer_instance

instance : Extends seesForParameters seesForParameters := by
  unfold seesForParameters
  infer_instance

instance : Extends (boundParameters g) (boundParameters g') := by
  unfold boundParameters
  infer_instance

instance : Extends (argument g) (argument g') := by
  unfold argument
  refine bind inferInstance fun _ => bind inferInstance fun _ => ite inferInstance ?_
  refine bind inferInstance fun _ => bind inferInstance fun _ => ite inferInstance ?_
  refine bind inferInstance fun ty => ?_
  dsimp only
  split <;> infer_instance

instance : Extends (angled g) (angled g') := by
  unfold angled
  infer_instance

instance (expression : Bool) : Extends (segment g expression) (segment g' expression) := by
  unfold segment
  infer_instance

instance (expression : Bool) :
    Extends (moreSegments g expression) (moreSegments g' expression) := by
  unfold moreSegments
  infer_instance

instance (expression : Bool) : Extends (segments g expression) (segments g' expression) := by
  unfold segments
  infer_instance

instance (expression : Bool) : Extends (path g expression) (path g' expression) := by
  unfold path
  refine bind inferInstance fun _ => ite (bind inferInstance fun _ => ?_) inferInstance
  refine bind inferInstance fun owner => bind inferInstance fun trait => ?_
  cases trait <;> infer_instance

instance (ss : List Segment) : Extends (callLast g ss) (callLast g' ss) := by
  unfold callLast
  split <;> infer_instance

instance : Extends constantMark constantMark := by
  unfold constantMark
  infer_instance

instance (constants parenthesized : Bool) :
    Extends (traitBound g constants parenthesized) (traitBound g' constants parenthesized) := by
  unfold traitBound
  infer_instance

instance : Extends captures captures := by
  unfold captures
  infer_instance

instance (allowsCaptures constants : Bool) :
    Extends (boundBody g allowsCaptures constants) (boundBody g' allowsCaptures constants) := by
  unfold boundBody
  infer_instance

instance (n : Nat) : Extends (seesColonAt n) (seesColonAt n) := by
  unfold seesColonAt
  infer_instance

instance (first : Bool) : Extends (inputLabel first) (inputLabel first) := by
  unfold inputLabel
  infer_instance

instance (first : Bool) : Extends (seesChangingSelf first) (seesChangingSelf first) := by
  unfold seesChangingSelf
  infer_instance

instance (attrs : List Attribute) (first : Bool) :
    Extends (bareInput g attrs first) (bareInput g' attrs first) := by
  unfold bareInput
  dsimp only
  refine bind inferInstance fun _ => bind inferInstance fun x => ?_
  obtain ⟨_ | ⟨label, ty⟩, tokens⟩ := x <;> infer_instance

instance : Extends seesVariadic seesVariadic := by
  unfold seesVariadic
  infer_instance

instance (attrs : List Attribute) : Extends (variadic attrs) (variadic attrs) := by
  unfold variadic
  infer_instance

instance bareInputs_go (n m : List Token) (first : Bool) :
    Extends (bareInputs.go g n first) (bareInputs.go g' (n ++ m) first) := by
  induction n generalizing first with
  | nil => exact instFail
  | cons t n ih =>
    rw [List.cons_append]
    unfold bareInputs.go
    infer_instance

instance : Extends (bareInputs g) (bareInputs g') :=
  bind_rounds fun n m => by infer_instance

instance : Extends abi abi := by
  unfold abi
  refine bind inferInstance fun _ => ite (bind inferInstance fun t => ?_) inferInstance
  split <;> infer_instance

instance (lifetimes : Snippet) :
    Extends (functionType g lifetimes) (functionType g' lifetimes) := by
  unfold functionType
  infer_instance

instance (explicit joined : Bool) :
    Extends (traitObject g explicit joined) (traitObject g' explicit joined) := by
  unfold traitObject
  infer_instance

instance (joined : Bool) : Extends (implementer g joined) (implementer g' joined) := by
  unfold implementer
  infer_instance

instance : Extends (furtherBounds g) (furtherBounds g') := by
  unfold furtherBounds
  infer_instance

instance : Extends (parenthesizedBody g) (parenthesizedBody g') := by
  unfold parenthesizedBody
  refine bind inferInstance fun _ => ite inferInstance (bind inferInstance fun _ => ?_)
  refine ite inferInstance (bind inferInstance fun _ => ite ?_ inferInstance)
  refine bind inferInstance fun b => ?_
  cases b <;> infer_instance

instance (joined : Bool) : Extends (parenthesizedTy g joined) (parenthesizedTy g' joined) := by
  unfold parenthesizedTy
  refine bind inferInstance fun inside => ?_
  cases inside with
  | single t =>
    refine bind inferInstance fun _ => ite ?_ inferInstance
    cases boundOfTy t <;> infer_instance
  | _ => infer_instance

instance (joined : Bool) (lifetimes : Option Snippet) :
    Extends (pathTy g joined lifetimes) (pathTy g' joined lifetimes) := by
  unfold pathTy
  infer_instance

instance : Extends seesFunction seesFunction := by
  unfold seesFunction
  infer_instance

instance : Extends seesPath seesPath := by
  unfold seesPath
  infer_instance

instance : Extends seesBuiltin seesBuiltin := by
  unfold seesBuiltin
  infer_instance

instance : Extends builtinCall builtinCall := by
  unfold builtinCall
  infer_instance

instance (joined : Bool) : Extends (dynamicTy g joined) (dynamicTy g' joined) := by
  unfold dynamicTy
  infer_instance

instance (joined : Bool) : Extends (tyBody g joined) (tyBody g' joined) := by
  unfold tyBody
  refine bind inferInstance fun ⟨lifetimes, before⟩ => ?_
  dsimp only
  refine ite ?_ ?_ <;> infer_instance

instance : Extends (generics g) (generics g') := by
  unfold generics
  infer_instance

instance : Extends seesConditionEnd seesConditionEnd := by
  unfold seesConditionEnd
  infer_instance

instance : Extends (condition g) (condition g') := by
  unfold condition
  infer_instance

instance separatedLoose_go (n m : List Token) :
    Extends (conditions.separatedLoose.go g n) (conditions.separatedLoose.go g' (n ++ m)) := by
  induction n with
  | nil => exact instFail
  | cons t n ih =>
    rw [List.cons_append]
    unfold conditions.separatedLoose.go
    infer_instance

instance : Extends (conditions.separatedLoose g) (conditions.separatedLoose g') :=
  bind_rounds fun n m => by infer_instance

instance (params : Generics) : Extends (conditions g params) (conditions g' params) := by
  unfold conditions
  infer_instance

/-! ### Patterns -/

instance : Extends (constBlock g) (constBlock g') := by
  unfold constBlock
  infer_instance

instance : Extends position position := by
  unfold position
  refine bind inferInstance fun t => ?_
  cases t <;> infer_instance

instance : Extends member member := by
  unfold member
  infer_instance

instance : Extends (rangeBound g) (rangeBound g') := by
  unfold rangeBound
  infer_instance

instance : Extends rangeMark rangeMark := by
  unfold rangeMark
  infer_instance

instance (first : Expr) : Extends (rangeFrom g first) (rangeFrom g' first) := by
  unfold rangeFrom
  infer_instance

instance : Extends (leadingRange g) (leadingRange g') := by
  unfold leadingRange
  refine bind inferInstance fun _ => bind inferInstance fun _ => ?_
  refine bind inferInstance fun mark => bind inferInstance fun last => ?_
  cases last <;> infer_instance

instance : Extends (literalPattern g) (literalPattern g') := by
  unfold literalPattern
  refine bind inferInstance fun first => ?_
  cases first <;> infer_instance

instance (leading : Bool) : Extends (alternativesFrom g leading) (alternativesFrom g' leading) := by
  unfold alternativesFrom
  infer_instance

instance : Extends (alternatives g) (alternatives g') := by
  unfold alternatives
  infer_instance

instance : Extends (namePattern g) (namePattern g') := by
  unfold namePattern
  infer_instance

instance {p p' : Parser Unit} [Extends p p'] : Extends (boxPattern p) (boxPattern p') := by
  unfold boxPattern
  infer_instance

instance (attrs : List Attribute) : Extends (fieldPattern g attrs) (fieldPattern g' attrs) := by
  unfold fieldPattern
  infer_instance

instance recordFields_go (n m : List Token) :
    Extends (recordFields.go g n) (recordFields.go g' (n ++ m)) := by
  induction n with
  | nil => exact instFail
  | cons t n ih =>
    rw [List.cons_append]
    unfold recordFields.go
    infer_instance

instance : Extends (recordFields g) (recordFields g') :=
  bind_rounds fun n m => by infer_instance

instance : Extends (pathPattern g) (pathPattern g') := by
  unfold pathPattern
  infer_instance

instance : Extends (parenthesizedPattern g) (parenthesizedPattern g') := by
  unfold parenthesizedPattern
  refine bind inferInstance fun ⟨ps, trailing⟩ => ?_
  dsimp only
  split <;> infer_instance

instance : Extends (slicePattern g) (slicePattern g') := by
  unfold slicePattern
  infer_instance

instance : Extends seesPathPattern seesPathPattern := by
  unfold seesPathPattern
  infer_instance

instance : Extends (patternBody g) (patternBody g') := by
  unfold patternBody
  infer_instance

/-! ### Expressions -/

theorem isSome_afterOperator_append {ts : List Token} (us : List Token) (h : Settled ts)
    (cs : List Char) : (afterOperator cs (ts ++ us)).isSome = (afterOperator cs ts).isSome :=
  isSome_afterOperator_within 0 cs h

instance : Extends binaryAhead binaryAhead := by
  refine of_look (f := fun ts => Precedence.table.find? fun (marks, _) =>
    (afterOperator marks.toList ts).isSome) (fun ts us h => ?_) fun _ => rfl
  simp only [isSome_afterOperator_append us h]

instance : Extends seesAssign seesAssign := by
  unfold seesAssign
  infer_instance

instance : Extends nextPrecedence nextPrecedence := by
  unfold nextPrecedence
  refine bind inferInstance fun next => ?_
  cases next <;> infer_instance

instance : Extends seesDot seesDot := by
  unfold seesDot
  infer_instance

instance rightOperand_go (records : Bool) (precedence : Nat) (n m : List Token) (e : Expr) :
    Extends (rightOperand.go g records precedence n e)
      (rightOperand.go g' records precedence (n ++ m) e) := by
  induction n generalizing e with
  | nil => exact instFail
  | cons t n ih =>
    rw [List.cons_append]
    unfold rightOperand.go
    infer_instance

instance (records : Bool) (precedence : Nat) :
    Extends (rightOperand g records precedence) (rightOperand g' records precedence) :=
  bind_rounds fun n m => by infer_instance

instance (marks : List String) : Extends (anySees marks) (anySees marks) := by
  refine of_look (f := fun ts => marks.any fun m => (afterOperator m.toList ts).isSome)
    (fun ts us h => ?_) fun _ => rfl
  simp only [isSome_afterOperator_append us h]

instance (records : Bool) : Extends (seesRangeEnd records) (seesRangeEnd records) := by
  unfold seesRangeEnd
  infer_instance

instance (records : Bool) (first : Option Expr) :
    Extends (expressionRange g records first) (expressionRange g' records first) := by
  unfold expressionRange
  infer_instance

instance climbBody_go (records : Bool) (base : Nat) (n m : List Token) (left : Expr) :
    Extends (climbBody.go g records base n left) (climbBody.go g' records base (n ++ m) left) := by
  induction n generalizing left with
  | nil => exact instFail
  | cons t n ih =>
    rw [List.cons_append]
    unfold climbBody.go
    refine ite inferInstance (bind inferInstance fun next => ?_)
    cases next with
    | none => infer_instance
    | some next =>
      obtain ⟨marks, p⟩ := next
      infer_instance

instance (records : Bool) (base : Nat) (left : Expr) :
    Extends (climbBody g records base left) (climbBody g' records base left) :=
  bind_rounds fun n m => by infer_instance

instance : Extends (arguments g) (arguments g') := by
  unfold arguments
  infer_instance

instance (e : Expr) : Extends (memberOf g e) (memberOf g' e) := by
  unfold memberOf
  infer_instance

instance (e : Expr) : Extends (afterDot g e) (afterDot g' e) := by
  unfold afterDot
  refine bind inferInstance fun _ => bind inferInstance fun t => ?_
  split
  next text => cases joinedPositions text <;> infer_instance
  next => infer_instance

instance trailers_go (n m : List Token) (e : Expr) :
    Extends (trailers.go g n e) (trailers.go g' (n ++ m) e) := by
  induction n generalizing e with
  | nil => exact instFail
  | cons t n ih =>
    rw [List.cons_append]
    unfold trailers.go
    infer_instance

instance (e : Expr) : Extends (trailers g e) (trailers g' e) :=
  bind_rounds fun n m => by infer_instance

instance : Extends (plainBlock g) (plainBlock g') := by
  unfold plainBlock
  infer_instance

instance : Extends (conditionExpr g) (conditionExpr g') := by
  unfold conditionExpr
  infer_instance

instance otherBranches_go (n m : List Token) :
    Extends (otherBranches.go g n) (otherBranches.go g' (n ++ m)) := by
  induction n with
  | nil => exact instFail
  | cons t n ih =>
    rw [List.cons_append]
    unfold otherBranches.go
    infer_instance

instance : Extends (otherBranches g) (otherBranches g') :=
  bind_rounds fun n m => by infer_instance

instance : Extends (conditionalExpr g) (conditionalExpr g') := by
  unfold conditionalExpr
  infer_instance

instance (label : Option String) : Extends (whileExpr g label) (whileExpr g' label) := by
  unfold whileExpr
  infer_instance

instance (label : Option String) : Extends (forExpr g label) (forExpr g' label) := by
  unfold forExpr
  infer_instance

instance (label : Option String) : Extends (loopExpr g label) (loopExpr g' label) := by
  unfold loopExpr
  infer_instance

instance : Extends (labelledExpr g) (labelledExpr g') := by
  unfold labelledExpr
  infer_instance

instance : Extends (arms g) (arms g') := by
  unfold arms
  infer_instance

instance : Extends (selectionExpr g) (selectionExpr g') := by
  unfold selectionExpr
  infer_instance

instance : Extends (unsafeBlock g) (unsafeBlock g') := by
  unfold unsafeBlock
  infer_instance

instance : Extends (tryBlock g) (tryBlock g') := by
  unfold tryBlock
  infer_instance

instance : Extends (earlyOperand g) (earlyOperand g') := by
  unfold earlyOperand
  infer_instance

instance : Extends (earlyBody g) (earlyBody g') := by
  unfold earlyBody
  infer_instance

instance : Extends seesValue seesValue := by
  unfold seesValue
  infer_instance

instance : Extends (closureInput g) (closureInput g') := by
  unfold closureInput
  infer_instance

instance (records : Bool) : Extends (closureExpr g records) (closureExpr g' records) := by
  unfold closureExpr
  infer_instance

instance : Extends (fieldValue g) (fieldValue g') := by
  unfold fieldValue
  infer_instance

instance recordValues_go (n m : List Token) :
    Extends (recordValues.go g n) (recordValues.go g' (n ++ m)) := by
  induction n with
  | nil => exact instFail
  | cons t n ih =>
    rw [List.cons_append]
    unfold recordValues.go
    infer_instance

instance : Extends (recordValues g) (recordValues g') :=
  bind_rounds fun n m => by infer_instance

instance (records : Bool) : Extends (pathExpr g records) (pathExpr g' records) := by
  unfold pathExpr
  infer_instance

instance : Extends (parenthesizedExpr g) (parenthesizedExpr g') := by
  unfold parenthesizedExpr
  refine bind inferInstance fun ⟨es, trailing⟩ => ?_
  dsimp only
  split <;> infer_instance

instance : Extends (bracketedExpr g) (bracketedExpr g') := by
  unfold bracketedExpr
  infer_instance

instance (records : Bool) : Extends (letExpr g records) (letExpr g' records) := by
  unfold letExpr
  infer_instance

instance (records : Bool) : Extends (breakExpr g records) (breakExpr g' records) := by
  unfold breakExpr
  infer_instance

instance : Extends seesClosure seesClosure := by
  unfold seesClosure
  infer_instance

instance : Extends seesAsyncBlock seesAsyncBlock := by
  unfold seesAsyncBlock
  infer_instance

instance : Extends (asyncBlock g) (asyncBlock g') := by
  unfold asyncBlock
  infer_instance

instance (records : Bool) : Extends (atom g records) (atom g' records) := by
  unfold atom
  -- one condition after another, down to the last
  repeat first
    | refine bind inferInstance fun _ => ?_
    | refine ite inferInstance ?_
  exact instFail

instance (records : Bool) : Extends (operandBody g records) (operandBody g' records) := by
  unfold operandBody
  infer_instance

instance (records : Bool) : Extends (exprBody g records) (exprBody g' records) := by
  unfold exprBody
  infer_instance

end Grammar
end RecordStore
