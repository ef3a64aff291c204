import RecordStore.Proofs.Syntax.ItemConveyance

/-!
What is read is legible: files, and types and paths by themselves, at any depth. Operands take
tokens, which tells the slash of a division from one in front of a comment.
-/
namespace RecordStore

namespace Parser

open Extends

/-- Whatever the parser reads, it takes a token for it. -/
class Takes {α : Type} (p : Parser α) : Prop where
  takes : ∀ {ts a r}, p.run ts = some (a, r) → r.length < ts.length

namespace Takes

variable {α β γ : Type} {p q : Parser α}

theorem later {f : α → Parser β} (hp : Extends p p) (hf : ∀ a, Takes (f a)) : Takes (p >>= f) where
  takes h := by
    obtain ⟨a, m, ha, hb⟩ := run_bind_eq.mp h
    exact Nat.lt_of_lt_of_le ((hf a).takes hb) (hp.suffix ha).length_le

theorem first {f : α → Parser β} (hp : Takes p) (hf : ∀ a, Extends (f a) (f a)) :
    Takes (p >>= f) where
  takes h := by
    obtain ⟨a, m, ha, hb⟩ := run_bind_eq.mp h
    exact Nat.lt_of_le_of_lt ((hf a).suffix hb).length_le (hp.takes ha)

instance instFirst {f : α → Parser β} [hp : Takes p] [hf : ∀ a, Extends (f a) (f a)] :
    Takes (p >>= f) := first hp hf

instance instFirstPair {p : Parser (α × β)} {f : α × β → Parser γ} [hp : Takes p]
    [hf : ∀ a b, Extends (f (a, b)) (f (a, b))] : Takes (p >>= f) := first hp fun ⟨a, b⟩ => hf a b

instance (priority := low) instLater {f : α → Parser β} [hp : Extends p p]
    [hf : ∀ a, Takes (f a)] : Takes (p >>= f) := later hp hf

instance instFail : Takes (fail : Parser α) := ⟨fun h => by cases h⟩

instance instMap {f : α → β} [hp : Takes p] : Takes (f <$> p) := by
  rw [← bind_pure_comp]
  infer_instance

theorem ite {c : Prop} [Decidable c] (hp : Takes p) (hq : Takes q) :
    Takes (if c then p else q) := by
  split
  · exact hp
  · exact hq

instance instIte {c : Prop} [Decidable c] [hp : Takes p] [hq : Takes q] :
    Takes (if c then p else q) := ite hp hq

theorem of_take {f : Token → Parser α} (hf : ∀ t, Extends (f t) (f t)) : Takes (take >>= f) where
  takes {ts a r} h := by
    cases ts with
    | nil => cases h
    | cons t ts => exact Nat.lt_succ_of_le ((hf t).suffix (show (f t).run ts = _ from h)).length_le

instance (w : String) : Takes (word w) := by
  unfold word
  exact of_take fun _ => inferInstance

/-- A word that may be there is taken if the branch behind it does not see any token. -/
theorem of_word? {w : String} (hp : Extends p p) (hq : Takes q) :
    Takes (word? w >>= fun b => if b then p else q) where
  takes {ts a r} h := by
    obtain ⟨b, m, hb, hr⟩ := run_bind_eq.mp h
    have hm := Extends.suffix (word? w) hb
    cases b with
    | false => exact Nat.lt_of_lt_of_le (hq.takes hr) hm.length_le
    | true =>
      cases ts with
      | nil => cases hb
      | cons t ts =>
        rw [Surveys.run_word?] at hb
        split at hb <;> cases hb
        exact Nat.lt_succ_of_le (hp.suffix hr).length_le

theorem of_op {marks : String} (h : marks.toList ≠ []) : Takes (op marks) where
  takes hr := length_lt_of_afterOperator h (run_op_eq.mp hr)

/-- So is an operator. -/
theorem of_op? {marks : String} (h : marks.toList ≠ []) (hp : Extends p p) (hq : Takes q) :
    Takes (op? marks >>= fun b => if b then p else q) where
  takes {ts a r} hr := by
    obtain ⟨b, m, hb, hr⟩ := run_bind_eq.mp hr
    have hm := Extends.suffix (op? marks) hb
    cases b with
    | false => exact Nat.lt_of_lt_of_le (hq.takes hr) hm.length_le
    | true =>
      rw [run_op?_eq] at hb
      split at hb <;> cases hb
      next ho => exact Nat.lt_of_le_of_lt (hp.suffix hr).length_le (length_lt_of_afterOperator h ho)

instance : Takes anyWord := by
  unfold anyWord
  exact of_take fun t => by cases t <;> infer_instance

instance : Takes name := by
  unfold name
  infer_instance

instance : Takes lifetime := by
  unfold lifetime
  exact of_take fun t => by cases t <;> infer_instance

instance : Takes literal where
  takes h := by
    rcases run_literal h with ⟨t, rfl, -⟩ | ⟨joint, s, rfl, -⟩
    · exact Nat.lt_succ_self _
    · exact Nat.lt_add_of_pos_right (n := _) (by decide : 0 < 2)

instance {d : Delimiter} [hp : Extends p p] : Takes (delimited d p) where
  takes h := by
    obtain ⟨us, rfl, hus⟩ := run_delimited h
    have := (hp.suffix hus).length_le
    simp only [List.length_cons] at this ⊢
    omega

instance [hp : Takes p] : Takes (withTokens p) where
  takes h := hp.takes (run_withTokens_eq.mp h).1

end Takes
end Parser

namespace Grammar

open RecordStore.Parser RecordStore.Parser.Takes

set_option synthInstance.maxSize 100000

/-- Blocks and operands take tokens. -/
class Advances (g : Grammar) : Prop where
  block : Takes g.block
  operand : ∀ b, Takes (g.operand b)

attribute [instance] Advances.block Advances.operand

variable {g : Grammar} [Deepens g g] [Advances g]

instance (e : Bool) : Takes (segment g e) := by
  unfold segment
  infer_instance

instance (e : Bool) : Takes (segments g e) := by
  unfold segments
  infer_instance

instance (e : Bool) : Takes (path g e) := by
  have ho : Takes (op "<") := of_op (by decide)
  have hs (x : Option (Bool × List Segment)) (o : Ty) (f : Segment) (m : List Segment) :
      let p : Parser Path := match x with
        | some (rooted, ss) => pure ⟨some (o, ss.length), rooted, ss ++ f :: m⟩
        | none => pure ⟨some (o, 0), true, f :: m⟩
      Extends p p := by
    cases x <;> infer_instance
  unfold path
  infer_instance

instance (records : Bool) : Takes (pathExpr g records) := by
  unfold pathExpr
  infer_instance

instance : Takes (plainBlock g) := by
  unfold plainBlock
  infer_instance

instance : Takes builtinCall := by
  unfold builtinCall
  infer_instance

instance : Takes (asyncBlock g) := by
  unfold asyncBlock
  infer_instance

instance : Takes (tryBlock g) := by
  unfold tryBlock
  infer_instance

instance (records : Bool) : Takes (closureExpr g records) := by
  have ho : Takes (op "|") := of_op (by decide)
  unfold closureExpr
  infer_instance

instance : Takes (parenthesizedExpr g) := by
  unfold parenthesizedExpr
  refine first inferInstance fun ⟨es, trailing⟩ => ?_
  dsimp only
  split <;> infer_instance

instance (records : Bool) : Takes (breakExpr g records) := by
  unfold breakExpr
  infer_instance

instance : Takes (bracketedExpr g) := by
  unfold bracketedExpr
  infer_instance

instance (records : Bool) : Takes (letExpr g records) := by
  unfold letExpr
  infer_instance

instance : Takes (conditionalExpr g) := by
  unfold conditionalExpr
  infer_instance

instance (label : Option String) : Takes (whileExpr g label) := by
  unfold whileExpr
  infer_instance

instance (label : Option String) : Takes (forExpr g label) := by
  unfold forExpr
  infer_instance

instance (label : Option String) : Takes (loopExpr g label) := by
  unfold loopExpr
  infer_instance

instance : Takes (selectionExpr g) := by
  unfold selectionExpr
  infer_instance

instance : Takes (unsafeBlock g) := by
  unfold unsafeBlock
  infer_instance

instance : Takes (constBlock g) := by
  unfold constBlock
  infer_instance

instance : Takes (labelledExpr g) := by
  unfold labelledExpr
  infer_instance

instance (records : Bool) (e : Option Expr) : Takes (expressionRange g records e) := by
  have ho : Takes (op "..") := of_op (by decide)
  unfold expressionRange
  exact of_op? (by decide) inferInstance inferInstance

instance (records : Bool) : Takes (atom g records) := by
  unfold atom
  repeat first
    | refine of_word? inferInstance ?_
    | refine later inferInstance fun _ => ?_
    | refine ite inferInstance ?_
  exact instFail

instance (records : Bool) : Takes (operandBody g records) := by
  unfold operandBody
  refine later inferInstance fun ⟨attrs, before⟩ => ?_
  refine of_op? (by decide) inferInstance ?_
  refine later inferInstance fun _ => later inferInstance fun _ => later inferInstance fun _ => ?_
  exact ite (of_take inferInstance) inferInstance

instance : Takes (blockBody g) := by
  unfold blockBody
  infer_instance

end Grammar

namespace Grammar

open RecordStore.Parser

instance advances_ofDepth (n : Nat) : Advances (ofDepth n) := by
  induction n with
  | zero =>
    exact { block := Takes.instFail, operand := fun _ => Takes.instFail }
  | succ n ih =>
    have hd : Deepens (ofDepth n) (ofDepth n) := deepens_ofDepth n 0
    exact
      { block := inferInstanceAs (Takes (blockBody (ofDepth n)))
        operand := fun b => inferInstanceAs (Takes (operandBody (ofDepth n) b)) }

instance faithful_ofDepth (n : Nat) : IsFaithful (ofDepth n) := by
  induction n with
  | zero =>
    exact
      { ty := fun _ => Conveys.instFail
        bound := fun _ _ => Conveys.instFail
        expr := fun _ => Conveys.instFail
        early := Conveys.instFail
        operand := fun _ => Conveys.instFail
        climb := fun _ _ _ _ => Conveys.instFail
        pattern := Conveys.instFail
        block := Conveys.instFail
        item := Conveys.instFail
        useTree := fun _ => Conveys.instFail
        operand_takes := fun h => (Advances.operand (g := ofDepth 0) _).takes h }
  | succ n ih =>
    exact
      { ty := fun b => inferInstanceAs (Conveys (tyBody (ofDepth n) b))
        bound := fun c k => inferInstanceAs (Conveys (boundBody (ofDepth n) c k))
        expr := fun b => inferInstanceAs (Conveys (exprBody (ofDepth n) b))
        early := inferInstanceAs (Conveys (earlyBody (ofDepth n)))
        operand := fun b => inferInstanceAs (Conveys (operandBody (ofDepth n) b))
        climb := fun b p e _ => inferInstanceAs (Conveys (climbBody (ofDepth n) b p e))
        pattern := inferInstanceAs (Conveys (patternBody (ofDepth n)))
        block := inferInstanceAs (Conveys (blockBody (ofDepth n)))
        item := inferInstanceAs (Conveys (itemBody (ofDepth n)))
        useTree := fun b => inferInstanceAs (Conveys (useTreeBody (ofDepth n) b))
        operand_takes := fun h => (Advances.operand (g := ofDepth (n + 1)) _).takes h }

end Grammar

/-! ### Texts -/

open RecordStore.Parser

section Texts

variable {α : Type} [Writing α] {source : String} {ts : List Token} {a : α}

theorem isLegible_of_tokens? (h : tokens? source = some ts) : Code.IsLegible ts := by
  rw [Lexer.tokens?_eq] at h
  exact Code.isLegible_iff.mpr (Lexer.lead_of_lex h)

/-- What is read from a text is legible. -/
theorem Legible.of_read? {p : Grammar → Parser α} (hp : ∀ n, Conveys (p (.ofDepth n)))
    (h : read? p source = some a) : Legible a := by
  obtain ⟨ts, hts, h⟩ := Option.bind_eq_some_iff.mp h
  unfold all? at h
  split at h
  next b hb =>
    cases h
    exact ((hp _).convey ⟨[], isLegible_of_tokens? hts []⟩ hb).1
  next => cases h

theorem Path.legible_of_read? {p : Path} (h : Path.read? source = some p) : Legible p :=
  .of_read? (fun _ => inferInstance) h

theorem Ty.legible_of_read? {t : Ty} (h : Ty.read? source = some t) : Legible t :=
  .of_read? (fun _ => inferInstance) h

instance : Writing SourceFile := ⟨fun file => Legible file.items⟩

instance {shebang : Option String} {inner : List Attribute} {items : List Item}
    [h : Legible items] : Legible (SourceFile.mk shebang inner items) := ⟨h⟩

theorem SourceFile.legible_of_read? {file : SourceFile} (h : SourceFile.read? source = some file) :
    Legible file.items := by
  unfold SourceFile.read? at h
  dsimp only at h
  have hf : Legible file := .of_read? (fun _ => inferInstance) h
  exact hf.isLegible

end Texts

end RecordStore
