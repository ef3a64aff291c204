import RecordStore.Generation.RecordCode
import RecordStore.Proofs.Generation.FixedTexts

/-!
Legible pieces of generated code. What a record's code takes over from its source is legible, and so
is all that is written around it. Code is read piece by piece from left to right.
-/
namespace RecordStore

open Code

namespace Code

variable {a b c : Code} {groups : List Delimiter} {items : List Code} {d : Delimiter} {s : String}

/-! Legible code is read piece by piece, and groups are entered and left. -/

@[simp]
theorem lead_closing : lead ⟨none, d :: groups⟩ (.closing d :: c) = lead ⟨none, groups⟩ c := by
  have hn : Place.next ⟨none, d :: groups⟩ (.closing d) = some ⟨none, groups⟩ := by
    rw [next_of_stands (t := .closing d) trivial rfl, Lexer.advance, if_pos rfl]
    rfl
  rw [lead_cons, hn, Option.bind_some]

@[simp]
theorem lead_group_append : lead ⟨none, groups⟩ (Token.group d a ++ c) =
    lead ⟨none, d :: groups⟩ (a ++ .closing d :: c) := by
  have ho : Place.next ⟨none, groups⟩ (.opening d) = some ⟨none, d :: groups⟩ := by
    rw [next_of_stands (t := .opening d) trivial rfl]
    cases groups <;> rfl
  rw [Token.group, List.append_assoc, List.cons_append, List.cons_append, lead_cons, ho,
    Option.bind_some]
  rfl

@[simp]
theorem lead_group : lead ⟨none, groups⟩ (Token.group d a) =
    lead ⟨none, d :: groups⟩ (a ++ [.closing d]) := by
  rw [← lead_group_append, List.append_nil]

@[simp]
theorem lead_ofText_append (h : IsQuiet s) :
    lead ⟨none, groups⟩ (ofText s ++ c) = lead ⟨none, groups⟩ c := by
  rw [lead_append, lead_ofText h, Option.bind_some]

@[simp low]
theorem lead_legible_append [h : Legible a] :
    lead ⟨none, groups⟩ (a ++ c) = lead ⟨none, groups⟩ c := by
  rw [lead_append, h.isLegible, Option.bind_some]

@[simp]
theorem lead_docLine_append (h : IsRawLine s) :
    lead ⟨none, groups⟩ (docLine s ++ c) = lead ⟨none, groups⟩ c := by
  rw [lead_append, (legible_docLine h).isLegible, Option.bind_some]

@[simp]
theorem commas_nil : commas [] = [] := rfl

@[simp]
theorem commas_singleton : commas [a] = a := rfl

@[simp]
theorem commas_cons : commas (a :: b :: items) = a ++ comma ++ commas (b :: items) := rfl

@[simp]
theorem lead_parens_append : lead ⟨none, groups⟩ (Token.parens a ++ c) =
    lead ⟨none, .parenthesis :: groups⟩ (a ++ .closing .parenthesis :: c) := lead_group_append

@[simp]
theorem lead_parens : lead ⟨none, groups⟩ (Token.parens a) =
    lead ⟨none, .parenthesis :: groups⟩ (a ++ [.closing .parenthesis]) := lead_group

@[simp]
theorem lead_brackets_append : lead ⟨none, groups⟩ (Token.brackets a ++ c) =
    lead ⟨none, .bracket :: groups⟩ (a ++ .closing .bracket :: c) := lead_group_append

@[simp]
theorem lead_brackets : lead ⟨none, groups⟩ (Token.brackets a) =
    lead ⟨none, .bracket :: groups⟩ (a ++ [.closing .bracket]) := lead_group

@[simp]
theorem lead_braces_append : lead ⟨none, groups⟩ (Token.braces a ++ c) =
    lead ⟨none, .brace :: groups⟩ (a ++ .closing .brace :: c) := lead_group_append

@[simp]
theorem lead_braces : lead ⟨none, groups⟩ (Token.braces a) =
    lead ⟨none, .brace :: groups⟩ (a ++ [.closing .brace]) := lead_group

end Code

instance : Writing Column := ⟨fun c => Legible c.ty⟩

instance {c : Column} [h : Legible c] : Legible c.ty := h.isLegible

/-- What code takes over from sources is legible. -/
class Context.IsLegible (ctx : Context) : Prop where
  runtime : Legible ctx.runtime
  visibility : Legible ctx.visibility
  recordType : Legible ctx.recordType
  storeType : Legible ctx.storeType
  blueprintType : Legible ctx.blueprintType
  columns : Legible ctx.record.columns

namespace Context

attribute [instance] IsLegible.runtime IsLegible.visibility IsLegible.recordType
  IsLegible.storeType IsLegible.blueprintType IsLegible.columns

variable {ctx : Context} [ctx.IsLegible] {c : Code}

theorem legible_runtimeName {rest : String} (h : IsQuiet rest) :
    Legible (ctx.runtimeName rest) := by
  have hq : IsQuiet ("::" ++ rest) := ⟨by simpa using h.slash, by simpa using h.quote⟩
  have ht := legible_ofText hq
  unfold runtimeName
  infer_instance

@[simp]
theorem lead_runtimeName {rest : String} (h : IsQuiet rest) (groups : List Delimiter) :
    lead ⟨none, groups⟩ (ctx.runtimeName rest) = some ⟨none, groups⟩ :=
  (legible_runtimeName h).isLegible groups

@[simp]
theorem lead_runtimeName_append {rest : String} (h : IsQuiet rest) (groups : List Delimiter) :
    lead ⟨none, groups⟩ (ctx.runtimeName rest ++ c) = lead ⟨none, groups⟩ c := by
  rw [lead_append, lead_runtimeName h, Option.bind_some]

instance [Legible c] : Legible (ctx.valueFrom c) := ⟨fun groups => by
  simp (disch := exact IsQuiet.of_chars rfl rfl) [valueFrom]⟩

instance [Legible c] : Legible (ctx.result c) := ⟨fun groups => by
  simp (disch := exact IsQuiet.of_chars rfl rfl) [result]⟩

instance : Legible ctx.blueprintArgument := ⟨fun groups => by
  simp (disch := exact IsQuiet.of_chars rfl rfl) [blueprintArgument]⟩

instance : Legible ctx.resolveBlueprint := ⟨fun groups => by
  simp (disch := exact IsQuiet.of_chars rfl rfl) [resolveBlueprint]⟩

instance : Legible ctx.connection := ⟨fun groups => by
  simp (disch := exact IsQuiet.of_chars rfl rfl) [connection]⟩

instance [Legible c] : Legible (ctx.storeImpl c) := ⟨fun groups => by
  simp (disch := exact IsQuiet.of_chars rfl rfl) [storeImpl]⟩

end Context

instance Code.legible_prepare : Legible prepare := legible_ofText (.of_chars rfl rfl)

section Pieces

variable {ctx : Context} [ctx.IsLegible]

/-! ### Methods -/

/-- A method is legible in its parts. -/
instance : Writing StoreMethod := ⟨fun m =>
  Legible m.name ∧ Legible m.inputs ∧ Legible m.output ∧ Legible m.attributes ∧ Legible m.body⟩

instance : Writing Operation := ⟨fun o =>
  Legible o.name ∧ Legible o.arguments ∧ Legible o.signature⟩

section Methods

variable {m : StoreMethod} {o : Operation} {label n : String} {inputs : List (String × Code)}
  {output attributes body visibility : Code}

instance [hn : Legible n] [hi : Legible inputs] [ho : Legible output] [ha : Legible attributes]
    [hb : Legible body] : Legible (StoreMethod.mk label n inputs output attributes body) :=
  ⟨hn, hi, ho, ha, hb⟩

instance [h : Legible m] : Legible m.name := h.isLegible.1
instance [h : Legible m] : Legible m.inputs := h.isLegible.2.1
instance [h : Legible m] : Legible m.output := h.isLegible.2.2.1
instance [h : Legible m] : Legible m.attributes := h.isLegible.2.2.2.1
instance [h : Legible m] : Legible m.body := h.isLegible.2.2.2.2

instance {i : String × Code} [Legible i] : Legible (StoreMethod.input i) := ⟨fun groups => by
  simp (disch := exact IsQuiet.of_chars rfl rfl) [StoreMethod.input]⟩

instance [Legible m] : Legible m.signature := by
  have hself := legible_ofText (.of_chars (s := "&self") rfl rfl)
  exact ⟨fun groups => by
    simp (disch := exact IsQuiet.of_chars rfl rfl) [StoreMethod.signature]⟩

instance [Legible m] [Legible visibility] : Legible (m.code visibility) := by
  unfold StoreMethod.code
  infer_instance

instance [h : Legible o] : Legible o.name := h.isLegible.1
instance [h : Legible o] : Legible o.arguments := h.isLegible.2.1
instance [h : Legible o] : Legible o.signature := h.isLegible.2.2

instance [Legible m] : Legible m.operation :=
  ⟨(inferInstance : Legible m.name), (inferInstance : Legible (m.inputs.map Prod.fst)),
    (inferInstance : Legible m.signature)⟩

end Methods

/-! ### Deletion and insertion -/

instance : Legible (Deletion.body ctx) := ⟨fun groups => by
  simp (disch := exact IsQuiet.of_chars rfl rfl) [Deletion.body, Deletion.guarded, stmt, call]⟩

namespace Insertion

instance (columns : List Column) : Legible (statement ctx columns) := by
  unfold statement
  infer_instance

instance (count : Nat) : Legible (pushRow ctx count) := by
  have hposition (i : Nat) :
      Legible (ofText "index *" ++ (number count ++ (ofText "+" ++ number (i + 1)))) :=
    ⟨fun groups => by simp (disch := exact IsQuiet.of_chars rfl rfl)⟩
  have hrange : Legible (List.range count) := ⟨fun _ _ => trivial⟩
  refine ⟨fun groups => ?_⟩
  unfold pushRow
  cases ctx.record.dialect <;>
    simp (disch := exact IsQuiet.of_chars rfl rfl) [stmt, call]

instance : Legible (run ctx) := ⟨fun groups => by
  unfold run
  split <;> simp (disch := exact IsQuiet.of_chars rfl rfl)⟩

instance (columns : List Column) (accessors : List String) [Legible accessors] :
    Legible (body ctx columns accessors) := by
  have hvalue (a : {a : String // Legible a}) : Legible (ofText "values.push" ++ (Token.parens
      (ctx.valueFrom (ofText "record." ++ (name a.val ++ ofText ".clone()"))) ++ ofText ";")) := by
    have hrecord : Legible (ofText "record." ++ (name a.val ++ ofText ".clone()")) :=
      ⟨fun groups => by simp (disch := exact IsQuiet.of_chars rfl rfl)⟩
    exact ⟨fun groups => by simp (disch := exact IsQuiet.of_chars rfl rfl)⟩
  refine ⟨fun groups => ?_⟩
  unfold body
  simp (disch := exact IsQuiet.of_chars rfl rfl) [stmt, call, prepare]

end Insertion

/-! ### Updating -/

namespace Updating

instance : Legible appendPredicate := ⟨fun groups => by
  simp (disch := exact IsQuiet.of_chars rfl rfl) [appendPredicate]⟩

instance {c : Code} [Legible c] : Legible (ifBlueprint c) := ⟨fun groups => by
  simp (disch := exact IsQuiet.of_chars rfl rfl) [ifBlueprint]⟩

instance (c : Column) (a : Assignment) : Legible (bind ctx c a) := by
  have hvalue := legible_ofText (.of_chars (s := "value") rfl rfl)
  refine ⟨fun groups => ?_⟩
  unfold bind
  dsimp only
  split <;>
    simp (disch := exact IsQuiet.of_chars rfl rfl) [stmt, call, ifBlueprint]

end Updating

/-! ### Reading -/

namespace Reading

instance : Legible (paging ctx) := ⟨fun groups => by
  simp (disch := exact IsQuiet.of_chars rfl rfl) [paging, stmt, call]⟩

instance {item : Code} [Legible item] : Legible (vector item) := ⟨fun groups => by
  simp (disch := exact IsQuiet.of_chars rfl rfl) [vector]⟩

instance {item : Code} [Legible item] : Legible (vectorResult ctx item) := by
  unfold vectorResult
  infer_instance

instance (head : String) : Legible (readQuery ctx head) := ⟨fun groups => by
  simp (disch := exact IsQuiet.of_chars rfl rfl) [readQuery, stmt, call]⟩

instance : Legible (countBody ctx) := ⟨fun groups => by
  simp (disch := exact IsQuiet.of_chars rfl rfl) [countBody, call]⟩

instance {item : Code} [Legible item] : Legible (rowLoop "records" item) := ⟨fun groups => by
  simp (disch := exact IsQuiet.of_chars rfl rfl) [rowLoop, stmt]⟩

instance : Legible (rowLoop "selected" (ofText "row.get(0)?")) := ⟨fun groups => by
  simp (disch := exact IsQuiet.of_chars rfl rfl) [rowLoop, stmt]⟩

end Reading

/-! ### Blueprints -/

/-- A slot is legible in its parts. -/
instance : Writing SlotCode := ⟨fun s =>
  Legible s.name ∧ Legible s.ty ∧ Legible s.clauseMethod ∧ Legible s.clauseBody⟩

instance : Writing BlueprintCode := ⟨fun b =>
  Legible b.slots ∧ Legible b.predicateBody ∧ Legible b.orderBody⟩

namespace BlueprintCode

section Parts

variable {s : SlotCode} {b : BlueprintCode} {n method : String} {ty body : Code}

instance [hn : Legible n] [ht : Legible ty] [hm : Legible method] [hb : Legible body] :
    Legible (SlotCode.mk n ty method body) := ⟨hn, ht, hm, hb⟩

instance [h : Legible s] : Legible s.name := h.isLegible.1
instance [h : Legible s] : Legible s.ty := h.isLegible.2.1
instance [h : Legible s] : Legible s.clauseMethod := h.isLegible.2.2.1
instance [h : Legible s] : Legible s.clauseBody := h.isLegible.2.2.2

instance [h : Legible b] : Legible b.slots := h.isLegible.1
instance [h : Legible b] : Legible b.predicateBody := h.isLegible.2.1
instance [h : Legible b] : Legible b.orderBody := h.isLegible.2.2

end Parts

/-! #### Slots -/

section Slots

variable {slot column : String} {items c : Code}

instance {d : Dialect} [Legible c] : Legible (placeholder d c) := ⟨fun groups => by
  cases d <;> simp (disch := exact IsQuiet.of_chars rfl rfl) [placeholder, call]⟩

instance [Legible slot] : Legible (slotRef slot) := ⟨fun groups => by
  simp (disch := exact IsQuiet.of_chars rfl rfl) [slotRef]⟩

instance : Legible returnEmpty := ⟨fun groups => by
  simp (disch := exact IsQuiet.of_chars rfl rfl) [returnEmpty, emptyClause, stmt]⟩

instance {s : String} : Legible (returnText s) := ⟨fun groups => by
  simp (disch := exact IsQuiet.of_chars rfl rfl) [returnText, stmt, call]⟩

instance [Legible items] [Legible c] : Legible (ifEmpty items c) := ⟨fun groups => by
  simp (disch := exact IsQuiet.of_chars rfl rfl) [ifEmpty]⟩

instance : Legible baseOffset := legible_ofText (.of_chars rfl rfl)

instance [Legible items] : Legible (inList ctx items column) := by
  have hitem := legible_ofText (.of_chars (s := "item.clone()") rfl rfl)
  exact ⟨fun groups => by
    simp (disch := exact IsQuiet.of_chars rfl rfl) [inList, withCapacity, stmt, call]⟩

instance [Legible slot] : Legible (exactBody ctx slot column) := by
  unfold exactBody
  infer_instance

instance [Legible slot] : Legible (nullableBody ctx slot column) := ⟨fun groups => by
  simp (disch := exact IsQuiet.of_chars rfl rfl) [nullableBody]⟩

instance [Legible slot] : Legible (rangeBody ctx slot column) := by
  have hend (i : Nat) : Legible (slotRef slot ++ (Token.brackets (number i) ++
      ofText ".clone()")) :=
    ⟨fun groups => by simp (disch := exact IsQuiet.of_chars rfl rfl)⟩
  have hnext := legible_ofText (.of_chars (s := "base + 1") rfl rfl)
  exact ⟨fun groups => by
    simp (disch := exact IsQuiet.of_chars rfl rfl) [rangeBody, call]⟩

instance [Legible slot] : Legible (likeBody ctx slot column) := by
  have hpattern := legible_ofText (.of_chars (s := "pattern.clone()") rfl rfl)
  exact ⟨fun groups => by
    simp (disch := exact IsQuiet.of_chars rfl rfl) [likeBody, withCapacity, stmt, call]⟩

instance [Legible c] : Legible (vector c) := ⟨fun groups => by
  simp (disch := exact IsQuiet.of_chars rfl rfl) [vector]⟩

instance [Legible c] : Legible (optionalVector c) := ⟨fun groups => by
  simp (disch := exact IsQuiet.of_chars rfl rfl) [optionalVector]⟩

instance {c : Column} [Legible c] [Legible slot] : Legible (exactSlot ctx c slot) := by
  unfold exactSlot
  infer_instance

instance {c : Column} [Legible c] [Legible slot] : Legible (rangeSlot ctx c slot) := by
  unfold rangeSlot
  infer_instance

instance {c : Column} [Legible slot] : Legible (likeSlot ctx c slot) := by
  have hstring := legible_ofText (.of_chars (s := "::std::string::String") rfl rfl)
  unfold likeSlot
  infer_instance

end Slots

/-! #### Predicate and order -/

instance {column : String} : Legible (scopeBody ctx column) := ⟨fun groups => by
  simp (disch := exact IsQuiet.of_chars rfl rfl) [scopeBody, stmt, call]⟩

instance : Legible (predicateCode ctx) := ⟨fun groups => by
  unfold predicateCode
  cases ctx.record.softDeleteColumn <;>
    simp (disch := exact IsQuiet.of_chars rfl rfl) [call]⟩

instance : Legible (orderCode ctx) := by
  have harm (columns : List String) : Legible (columns.map fun column =>
      text column ++ (ofText "=>" ++ text (ctx.record.qualified column))) :=
    ⟨List.forall_mem_map.mpr fun column _ groups => by
      simp (disch := exact IsQuiet.of_chars rfl rfl)⟩
  exact ⟨fun groups => by
    simp (disch := exact IsQuiet.of_chars rfl rfl) [orderCode, call]⟩

/-! #### The type -/

variable {b : BlueprintCode} {s : SlotCode}

instance [Legible b] : Legible (fieldsCode ctx b) := by
  have hstring := legible_ofText (.of_chars (s := "::std::string::String") rfl rfl)
  have hslot (s : {s : SlotCode // Legible s}) :
      Legible (ctx.visibility ++ name s.val.name ++ ofText ":" ++ s.val.ty) :=
    ⟨fun groups => by simp (disch := exact IsQuiet.of_chars rfl rfl)⟩
  have hcommon : Legible (b.commonFields.flatMap fun f =>
      docLine f.2.1 ++ ctx.visibility ++ name f.1 ++ ofText ":" ++ f.2.2 ++ comma : Code) := by
    unfold commonFields
    refine ⟨fun groups => ?_⟩
    cases b.hasScope <;>
      simp (disch := first | exact IsQuiet.of_chars rfl rfl | exact IsRawLine.of_chars rfl rfl)
  unfold fieldsCode
  infer_instance

instance [Legible s] : Legible (clauseCode ctx s) := ⟨fun groups => by
  simp (disch := exact IsQuiet.of_chars rfl rfl) [clauseCode]⟩

instance {slots : List SlotCode} [Legible slots] : Legible (conditionsCode ctx slots) := by
  have hone (s : {s : SlotCode // Legible s}) :
      Legible (ofText "let (clause, bound) = self." ++ (name s.val.clauseMethod ++
        (ofText "(base + values.len())" ++ (ofText ";" ++ (ofText "if !clause.is_empty()" ++
          Token.braces (ofText "clauses.push(clause); values.extend(bound);")))))) :=
    ⟨fun groups => by simp (disch := exact IsQuiet.of_chars rfl rfl)⟩
  exact ⟨fun groups => by
    simp (disch := exact IsQuiet.of_chars rfl rfl) [conditionsCode, stmt]⟩

instance [Legible b] : Legible (methodsCode ctx b) := ⟨fun groups => by
  unfold methodsCode
  simp (disch := first | exact IsQuiet.of_chars rfl rfl | exact IsRawLine.of_chars rfl rfl)⟩

instance [Legible b] : Legible (b.code ctx) := ⟨fun groups => by
  unfold code
  simp (disch := exact IsQuiet.of_chars rfl rfl)⟩

end BlueprintCode

end Pieces
end RecordStore
