import RecordStore.Proofs.Syntax.LegibleTypes

/-!
Legible expressions, patterns and signatures: each is legible if its parts are.
-/
namespace RecordStore

namespace Legible

set_option synthInstance.maxSize 100000

/-! ### Expressions -/

instance : Writing Expr := ⟨fun e => Code.IsLegible e.tokens⟩
instance : Writing Stmt := ⟨fun s => Code.IsLegible s.tokens⟩
instance : Writing Block := ⟨fun b => Code.IsLegible b.tokens⟩
instance : Writing Expr.Arm := ⟨fun a => Code.IsLegible a.tokens⟩
instance : Writing Expr.FieldValue := ⟨fun f => Code.IsLegible f.tokens⟩

section Expressions

variable {e u v : Expr} {o w : Option Expr} {es : List Expr} {b trailing : Bool} {c : Code}
  {form : ExprForm} {p : Path} {d : Delimiter} {n : String} {s : Snippet} {t : Token} {ty : Ty}
  {attrs : List Attribute} {block : Block} {label : Option String}

instance [h : Legible e] : Legible e.tokens := ⟨h.isLegible⟩
instance {s : Stmt} [h : Legible s] : Legible s.tokens := ⟨h.isLegible⟩
instance [h : Legible block] : Legible block.tokens := ⟨h.isLegible⟩
instance {a : Expr.Arm} [h : Legible a] : Legible a.tokens := ⟨h.isLegible⟩
instance {f : Expr.FieldValue} [h : Legible f] : Legible f.tokens := ⟨h.isLegible⟩

instance {splits starts drops : Bool} {layout : Placement → Layout} [h : Legible c] :
    Legible (Expr.mk form b splits starts drops c layout) := ⟨h.isLegible⟩

instance [h : Legible c] (layout : Layout) : Legible (Expr.simple form c layout) := ⟨h.isLegible⟩

instance [h : Legible e] (layout : Layout) : Legible (e.placed layout) := ⟨h.isLegible⟩

instance [h : Legible e] (link : Bool → Layout) : Legible (e.chain link) := ⟨h.isLegible⟩

instance [h : Legible e] (base : Expr) (tail : Layout) : Legible (e.continued base tail) :=
  ⟨h.isLegible⟩

instance [h : Legible e] : Legible e.snippet := ⟨h.isLegible⟩

instance [Legible attrs] [Legible e] : Legible (e.withAttributes attrs) := by
  unfold Expr.withAttributes
  infer_instance

instance [Legible c] : Legible (Expr.ofLiteral c) := by
  unfold Expr.ofLiteral
  infer_instance

instance [Legible p] : Legible (Expr.ofPath p) := by
  unfold Expr.ofPath
  infer_instance

instance : Legible Expr.placeholder := by
  unfold Expr.placeholder
  infer_instance

instance [Legible c] : Legible (Expr.verbatim c) := by
  unfold Expr.verbatim
  infer_instance

instance [Legible p] [Legible c] : Legible (Expr.invocation p d c) := by
  unfold Expr.invocation
  infer_instance

instance [Legible es] : Legible (Expr.array es b) := by
  unfold Expr.array
  infer_instance

instance [Legible e] [Legible u] : Legible (Expr.repetition e u) := by
  unfold Expr.repetition
  infer_instance

instance [Legible e] : Legible (Expr.parenthesized e) := by
  unfold Expr.parenthesized
  infer_instance

instance [Legible es] : Legible (Expr.tuple es b) := by
  unfold Expr.tuple
  dsimp only
  infer_instance

instance [Legible es] : Legible (Expr.argumentTokens es b) := by
  unfold Expr.argumentTokens
  infer_instance

instance [Legible e] [Legible es] : Legible (Expr.call e es b) := by
  unfold Expr.call
  infer_instance

instance {args : Arguments} [Legible e] [Legible n] [Legible args] [Legible es] :
    Legible (Expr.methodCall e n args es b) := by
  unfold Expr.methodCall
  infer_instance

instance [Legible e] [Legible t] : Legible (Expr.field e t) := by
  unfold Expr.field
  infer_instance

instance [Legible e] : Legible (Expr.awaiting e) := by
  unfold Expr.awaiting
  infer_instance

instance [Legible e] [Legible u] : Legible (Expr.index e u) := by
  unfold Expr.index
  infer_instance

instance [Legible e] : Legible (Expr.attempt e) := by
  unfold Expr.attempt
  infer_instance

instance [Legible (Token.operator n)] [Legible e] : Legible (Expr.unary n e) := by
  unfold Expr.unary
  infer_instance

instance [Legible e] : Legible (Expr.reference b e) := by
  unfold Expr.reference
  infer_instance

instance [Legible e] : Legible (Expr.rawAddress b e) := by
  unfold Expr.rawAddress
  cases b <;> infer_instance

instance [Legible e] [Legible (Token.operator n)] [Legible u] : Legible (Expr.binary e n u) := by
  unfold Expr.binary
  infer_instance

instance [Legible e] [Legible u] : Legible (Expr.assignment e u) := by
  unfold Expr.assignment
  infer_instance

instance [Legible e] [Legible ty] : Legible (Expr.cast e ty) := by
  unfold Expr.cast
  infer_instance

instance [ho : Legible o] [Legible (Token.operator n)] [hw : Legible w] :
    Legible (Expr.range o n w) := by
  unfold Expr.range
  cases o with
  | none =>
    cases w with
    | none => infer_instance
    | some v =>
      have hv := of_some hw
      infer_instance
  | some e =>
    have he := of_some ho
    cases w with
    | none => infer_instance
    | some v =>
      have hv := of_some hw
      infer_instance

/-- A label stands behind its quote, as lifetimes do. -/
instance [h : Legible (Token.lifetime n)] : Legible ((some n).map Token.lifetime) :=
  inferInstanceAs (Legible (some (Token.lifetime n)))

instance : Legible (Option.map Token.lifetime none) :=
  inferInstanceAs (Legible (none : Option Token))

instance (l : {l : Option String // Legible (l.map Token.lifetime)}) :
    Legible (l.val.map Token.lifetime) := l.property

instance {l : Option String} [h : Legible (l.map Token.lifetime)] [Legible ty] :
    Legible (Ty.reference l b ty) := by
  have ht : Legible (Ty.reference l b ty).tokens := by
    unfold Ty.tokens
    cases l with
    | none => infer_instance
    | some n =>
      have hn := of_some (a := Token.lifetime n) h
      infer_instance
  exact ⟨ht.isLegible⟩

instance [Legible n] [hl : Legible (label.map Token.lifetime)] [ho : Legible o] :
    Legible (Expr.jump form n label o) := by
  have hvalue : Legible (match o with | some v => v.tokens | none => [] : Code) := by
    cases o with
    | none => infer_instance
    | some v =>
      have hv := of_some ho
      infer_instance
  unfold Expr.jump
  cases label with
  | none => infer_instance
  | some l =>
    have hl := of_some (a := Token.lifetime l) hl
    infer_instance

instance [hl : Legible (label.map Token.lifetime)] : Legible (Expr.labelTokens label) := by
  unfold Expr.labelTokens
  cases label with
  | none => infer_instance
  | some l =>
    have hl := of_some (a := Token.lifetime l) hl
    infer_instance

instance {words : List String} [Legible words] [Legible block] :
    Legible (Expr.wordedBlock form words block) := by
  unfold Expr.wordedBlock
  infer_instance

instance [Legible (label.map Token.lifetime)] [Legible block] :
    Legible (Expr.ofBlock label block) := by
  unfold Expr.ofBlock
  infer_instance

instance [Legible s] [Legible e] : Legible (Expr.letCondition s e) := by
  unfold Expr.letCondition
  infer_instance

instance {others : List (Expr × Block)} {otherwise : Option Block} [Legible e] [Legible block]
    [Legible others] [h : Legible otherwise] :
    Legible (Expr.conditional e block others otherwise) := by
  have hbranch (x : {x : Expr × Block // Legible x}) : Legible (match x.val with
      | (c, b) => Token.ident "else" :: (Token.ident "if" :: c.tokens ++ b.tokens) : Code) := by
    obtain ⟨⟨c, b⟩, hx⟩ := x
    have hc := hx.fst
    have hb := hx.snd
    infer_instance
  unfold Expr.conditional
  cases otherwise with
  | none => infer_instance
  | some b =>
    have hb := of_some h
    infer_instance

instance [Legible (label.map Token.lifetime)] [Legible block] :
    Legible (Expr.loop label block) := by
  unfold Expr.loop
  infer_instance

instance [Legible (label.map Token.lifetime)] [Legible e] [Legible block] :
    Legible (Expr.whileLoop label e block) := by
  unfold Expr.whileLoop
  infer_instance

instance [Legible (label.map Token.lifetime)] [Legible s] [Legible e] [Legible block] :
    Legible (Expr.forLoop label s e block) := by
  unfold Expr.forLoop
  infer_instance

instance [Legible attrs] [Legible s] [h : Legible o] [Legible e] :
    Legible (Expr.Arm.mk attrs s o e b) := by
  have ht : Legible (Expr.Arm.mk attrs s o e b).tokens := by
    unfold Expr.Arm.tokens
    cases o with
    | none => infer_instance
    | some g =>
      have hg := of_some h
      infer_instance
  exact ⟨ht.isLegible⟩

instance {arms : List Expr.Arm} [Legible e] [Legible attrs] [Legible arms] :
    Legible (Expr.selection e attrs arms) := by
  unfold Expr.selection
  infer_instance

instance {inputs : List Snippet} {output : Option Ty} [Legible s] [Legible inputs]
    [Legible output] [Legible e] : Legible (Expr.closure s inputs b output e) := by
  unfold Expr.closure
  infer_instance

instance [Legible attrs] [Legible t] [h : Legible o] : Legible (Expr.FieldValue.mk attrs t o) := by
  have ht : Legible (Expr.FieldValue.mk attrs t o).tokens := by
    unfold Expr.FieldValue.tokens
    cases o with
    | none => infer_instance
    | some e =>
      have he := of_some h
      infer_instance
  exact ⟨ht.isLegible⟩

instance {fields : List Expr.FieldValue} {others : Option (Option Expr)} [Legible p]
    [Legible fields] [h : Legible others] : Legible (Expr.record p fields b others) := by
  unfold Expr.record
  cases others with
  | none => infer_instance
  | some o =>
    have ho := of_some h
    cases o with
    | none => infer_instance
    | some e =>
      have he := of_some ho
      infer_instance

/-! ### Statements -/

instance [Legible c] {layout : Bool → Layout} : Legible (Stmt.mk c layout o b) :=
  ⟨(inferInstance : Legible c).isLegible⟩

instance : Legible Stmt.empty := by
  unfold Stmt.empty
  infer_instance

instance [Legible e] : Legible (Stmt.ofExpr e b) := by
  unfold Stmt.ofExpr
  infer_instance

instance [Legible attrs] [Legible p] [Legible c] : Legible (Stmt.ofMacro attrs p d c b) := by
  unfold Stmt.ofMacro
  infer_instance

instance {otherwise : Option Block} [Legible attrs] [Legible s] [ho : Legible o]
    [h : Legible otherwise] : Legible (Stmt.binding attrs s o otherwise) := by
  have hvalue : Legible (match o with
      | some e => Token.operator "=" ++ e.tokens
      | none => [] : Code) := by
    cases o with
    | none => infer_instance
    | some e =>
      have he := of_some ho
      infer_instance
  unfold Stmt.binding
  cases otherwise with
  | none => infer_instance
  | some b =>
    have hb := of_some h
    infer_instance

instance {stmts : List Stmt} [Legible attrs] [Legible stmts] : Legible (Block.mk attrs stmts) := by
  have ht : Legible (Block.mk attrs stmts).tokens := by
    unfold Block.tokens
    infer_instance
  exact ⟨ht.isLegible⟩

end Expressions

/-! ### Patterns -/

instance : Writing PatternForm := ⟨fun _ => True⟩
instance : Writing Pattern := ⟨fun p => Code.IsLegible p.tokens⟩
instance : Writing Pattern.Field := ⟨fun f => Code.IsLegible f.tokens⟩

section Patterns

variable {p q : Pattern} {ps : List Pattern} {b m : Bool} {c : Code} {e : Expr} {o w : Option Expr}
  {n : String} {attrs : List Attribute} {path : Path} {ty : Ty} {t : Token}

instance (form : PatternForm) : Legible form := ⟨trivial⟩
instance [h : Legible p] : Legible p.tokens := ⟨h.isLegible⟩
instance {f : Pattern.Field} [h : Legible f] : Legible f.tokens := ⟨h.isLegible⟩

instance {form : PatternForm} {layout : Layout} [h : Legible c] :
    Legible (Pattern.mk form c layout) :=
  ⟨h.isLegible⟩

instance [h : Legible p] : Legible p.snippet := ⟨h.isLegible⟩

instance [Legible c] : Legible (Pattern.boxed c) := by
  unfold Pattern.boxed
  infer_instance

instance {form : PatternForm} [Legible e] : Legible (Pattern.ofExpr form e) := by
  unfold Pattern.ofExpr
  infer_instance

instance : Legible Pattern.wildcard := by
  unfold Pattern.wildcard
  infer_instance

instance : Legible Pattern.rest := by
  unfold Pattern.rest
  infer_instance

instance [Legible attrs] [Legible p] : Legible (p.withAttributes attrs) := by
  unfold Pattern.withAttributes
  infer_instance

instance {inside : Option Pattern} [Legible n] [h : Legible inside] :
    Legible (Pattern.name b m n inside) := by
  unfold Pattern.name
  cases inside with
  | none => infer_instance
  | some q =>
    have hq := of_some h
    infer_instance

instance [Legible p] : Legible (Pattern.reference b p) := by
  unfold Pattern.reference
  infer_instance

instance [Legible p] : Legible (Pattern.parenthesized p) := by
  unfold Pattern.parenthesized
  infer_instance

instance [Legible ps] : Legible (Pattern.listTokens ps b) := by
  unfold Pattern.listTokens
  infer_instance

instance [Legible ps] : Legible (Pattern.tuple ps b) := by
  unfold Pattern.tuple
  infer_instance

instance [Legible path] [Legible ps] : Legible (Pattern.tupleOf path ps b) := by
  unfold Pattern.tupleOf
  infer_instance

instance [Legible ps] : Legible (Pattern.slice ps b) := by
  unfold Pattern.slice
  infer_instance

instance [Legible ps] : Legible (Pattern.alternatives b ps) := by
  unfold Pattern.alternatives
  infer_instance

instance [Legible o] [Legible (Token.operator n)] [Legible w] : Legible (Pattern.range o n w) := by
  unfold Pattern.range
  infer_instance

instance {member : Option Token} [Legible attrs] [h : Legible member] [Legible p] :
    Legible (Pattern.Field.mk attrs member p) := by
  have ht : Legible (Pattern.Field.mk attrs member p).tokens := by
    unfold Pattern.Field.tokens
    cases member with
    | none => infer_instance
    | some m =>
      have hm := of_some h
      infer_instance
  exact ⟨ht.isLegible⟩

instance {fields : List Pattern.Field} {others : Option (List Attribute)} [Legible path]
    [Legible fields] [h : Legible others] : Legible (Pattern.record path fields b others) := by
  unfold Pattern.record
  cases others with
  | none => infer_instance
  | some attrs =>
    have ha := of_some h
    infer_instance

instance [Legible p] [Legible ty] : Legible (p.typed ty) := by
  unfold Pattern.typed
  infer_instance

end Patterns

/-! ### Generic parameters and signatures -/

instance : Writing Generics := ⟨fun g =>
  Legible g.lifetimes ∧ Legible g.others ∧ Legible g.conditions⟩
instance : Writing Receiver := ⟨fun r => Code.IsLegible r.tokens⟩
instance : Writing RecordStore.Parameter := ⟨fun p => Code.IsLegible p.tokens⟩
instance : Writing Signature := ⟨fun s => Code.IsLegible s.tokens⟩

section Signatures

variable {g : Generics} {b : Bool} {n : String} {ty : Ty} {o : Option Ty} {s : Snippet}
  {attrs : List Attribute} {p : Pattern} {r : Receiver} {ls os cs : List Snippet}

instance [h : Legible g] : Legible g.lifetimes := h.isLegible.1
instance [h : Legible g] : Legible g.others := h.isLegible.2.1
instance [h : Legible g] : Legible g.conditions := h.isLegible.2.2

instance [hl : Legible ls] [ho : Legible os] {trailing : Bool} [hc : Legible cs] :
    Legible (Generics.mk ls os trailing cs b) := ⟨hl, ho, hc⟩

instance : Legible Generics.none := inferInstanceAs (Legible (Generics.mk [] [] false [] false))

instance [Legible g] : Legible g.params := by
  unfold Generics.params
  infer_instance

instance [Legible g] : Legible g.tokens := by
  unfold Generics.tokens
  infer_instance

instance [Legible g] : Legible g.whereTokens := by
  unfold Generics.whereTokens
  infer_instance

instance {reference : Option (Option String)}
    [h : Legible (reference.map (Option.map Token.lifetime))] [Legible attrs] [ho : Legible o] :
    Legible (Receiver.mk attrs reference b o) := by
  have href : Legible (match reference with
      | some l => Token.operator "&" ++ (match l with | some n => [.lifetime n] | none => [])
      | none => [] : Code) := by
    cases reference with
    | none => infer_instance
    | some l =>
      have hl := of_some (a := l.map Token.lifetime) h
      cases l with
      | none => infer_instance
      | some l =>
        have hl := of_some (a := Token.lifetime l) hl
        infer_instance
  have ht : Legible (Receiver.mk attrs reference b o).tokens := by
    unfold Receiver.tokens
    cases o with
    | none => infer_instance
    | some t =>
      have ht := of_some ho
      infer_instance
  exact ⟨ht.isLegible⟩

instance [h : Legible r] : Legible (RecordStore.Parameter.receiver r) := ⟨h.isLegible⟩

instance [Legible attrs] [Legible p] [Legible ty] :
    Legible (RecordStore.Parameter.typed attrs p ty) :=
  ⟨(inferInstance :
    Legible (Attribute.allTokens attrs ++ p.tokens ++ Token.operator ":" ++ ty.tokens)).isLegible⟩

instance {p : RecordStore.Parameter} [h : Legible p] : Legible p.tokens := ⟨h.isLegible⟩
instance {s : Signature} [h : Legible s] : Legible s.tokens := ⟨h.isLegible⟩

instance {inputs : List RecordStore.Parameter} {more : Option Snippet} [Legible s] [Legible n]
    [Legible g] [Legible inputs] [h : Legible more] [Legible o] :
    Legible (Signature.mk s n g inputs b more o) := by
  have ht : Legible (Signature.mk s n g inputs b more o).tokens := by
    unfold Signature.tokens
    cases more with
    | none => infer_instance
    | some m =>
      have hm := of_some h
      infer_instance
  exact ⟨ht.isLegible⟩

end Signatures

end Legible
end RecordStore
