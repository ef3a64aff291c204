import RecordStore.Proofs.Generation.Assembly

/-!
The types of a record's columns in its code: every name that such a type needs is asked for, and
wherever the type stands it stands as the declaration has it.
-/
namespace RecordStore

/-! ### What is asked for and what is written -/

/-- The names that a message asks for. -/
def Message.needed : Message → List String
  | needs n => [n]
  | _ => []

/-- The types that a method's signature writes. -/
def StoreMethod.types (m : StoreMethod) : List Code := m.inputs.map Prod.snd ++ [m.output]

/-- The types that a fragment writes in signatures and slots. -/
def Fragment.types : Fragment → List Code
  | methods ms => ms.flatMap StoreMethod.types
  | blueprint b => b.slots.map SlotCode.ty

def Message.types : Message → List Code
  | fragment f => f.types
  | _ => []

/-- The types of a column's slots. -/
def Column.slotTypes (c : Column) : List Code :=
  (if c.category.isNullable then BlueprintCode.optionalVector c.ty.tokens
    else BlueprintCode.vector c.ty.tokens) ::
    (c.rangeSlot.toList.map fun _ => BlueprintCode.vector c.ty.tokens) ++
    c.likeSlot.toList.map fun _ => BlueprintCode.vector (Code.ofText "::std::string::String")

section

open Producer

variable (ctx : Context) {γ : Type} {view : Message → List γ}

theorem BlueprintCode.says_columnSlots (c : Column) : (columnSlots ctx c).Says view [] fun slots =>
    slots.map SlotCode.ty = c.slotTypes := by
  have hs {slot : String} {make : String → SlotCode} {t : Code} (h : ∀ n, (make n).ty = t) :
      (identifier slot >>= fun n => pure (make n)).Says view [] fun s => s.ty = t :=
    (says_identifier slot).bind fun n _ => says_pure (h n)
  unfold columnSlots
  apply (says_identifier c.name).bind
  intro n _
  apply (says_mapM_nil (g := SlotCode.ty) (k := fun _ => BlueprintCode.vector c.ty.tokens)
    fun s _ => hs fun _ => rfl).bind
  intro range hr
  apply (says_mapM_nil (g := SlotCode.ty)
    (k := fun _ => BlueprintCode.vector (Code.ofText "::std::string::String"))
    fun s _ => hs fun _ => rfl).bind
  intro like hl
  refine says_pure ?_
  have he : (exactSlot ctx c n).ty = if c.category.isNullable then
      BlueprintCode.optionalVector c.ty.tokens else BlueprintCode.vector c.ty.tokens := by
    unfold exactSlot
    dsimp only
    split <;> rfl
  rw [List.map_append, List.map_cons, he, hr, hl]
  rfl

theorem BlueprintCode.says_columnWithNeeds (c : Column) : (columnWithNeeds ctx c).Says view
    (c.imports.flatMap fun n => view (.needs n)) fun slots =>
      slots.map SlotCode.ty = c.slotTypes := by
  unfold columnWithNeeds
  exact (says_need _).silent fun _ _ => says_columnSlots ctx c

theorem BlueprintCode.says_needed : (produce ctx).Says Message.needed
    (ctx.record.columns.flatMap Column.imports) fun _ => True := by
  have hc (c : Column) : (columnWithNeeds ctx c).Says Message.needed _ _ :=
    says_columnWithNeeds ctx c
  have hm := says_mapM (g := List.map SlotCode.ty) (k := Column.slotTypes)
    (l := ctx.record.columns) fun c _ => hc c
  simp only [Message.needed, List.flatMap_singleton'] at hm
  unfold produce
  exact hm.silent fun slots _ => says_send _

theorem BlueprintCode.says_types : (produce ctx).Says Message.types
    (ctx.record.columns.flatMap Column.slotTypes) fun _ => True := by
  have hc (c : Column) : (columnWithNeeds ctx c).Says Message.types [] fun slots =>
      slots.map SlotCode.ty = c.slotTypes :=
    (says_need_nil c.imports fun _ => rfl).bind fun _ _ => says_columnSlots ctx c
  unfold produce
  apply (says_mapM_nil (g := List.map SlotCode.ty) (k := Column.slotTypes) fun c _ => hc c).bind
  intro slots hs
  have ht : slots.flatten.map SlotCode.ty = ctx.record.columns.flatMap Column.slotTypes := by
    rw [List.map_flatten, hs, List.flatMap_def]
  rw [← ht]
  exact says_send _

/-- The types of the method that writes a column: those of the value, the rows and the result. -/
def Updating.methodTypes (c : Column) : List Code :=
  [c.ty.tokens, ctx.blueprintArgument, ctx.result (Code.ofText "i64")]

theorem Updating.says_types : (produce ctx).Says Message.types
    ((ctx.record.columns.filter Column.isWritable).flatMap fun c =>
      (Assignment.all c).flatMap fun _ => methodTypes ctx c) fun _ => True := by
  have hm (c : Column) (a : Assignment) : (method ctx c a).Says Message.types [] fun m =>
      m.types = methodTypes ctx c := by
    unfold method
    apply (says_identifier _).bind
    intro n _
    exact (says_declare _).mono fun m hm => by rw [hm]; rfl
  have hc (c : Column) : (columnMethods ctx c).Says Message.types [] fun ms =>
      ms.map StoreMethod.types = (Assignment.all c).map fun _ => methodTypes ctx c := by
    unfold columnMethods
    exact (says_need_nil c.imports fun _ => rfl).bind fun _ _ => says_mapM_nil fun a _ => hm c a
  unfold produce
  apply (says_mapM_nil (g := List.map StoreMethod.types)
    (k := fun c => (Assignment.all c).map fun _ => methodTypes ctx c) fun c _ => hc c).bind
  intro methods hms
  have ht : methods.flatten.flatMap StoreMethod.types =
      (ctx.record.columns.filter Column.isWritable).flatMap fun c =>
        (Assignment.all c).flatMap fun _ => methodTypes ctx c := by
    rw [List.flatMap_def, List.map_flatten, hms, List.flatten_flatten, List.map_map]
    simp only [List.flatMap_def, Function.comp_def]
  rw [← ht]
  split
  next he =>
    rw [List.isEmpty_iff.mp he]
    exact says_pure trivial
  · exact says_send _

/-- The types of the method that selects a column: that of the rows, and the result's. -/
def Reading.selectTypes (c : Column) : List Code :=
  [ctx.blueprintArgument, vectorResult ctx c.ty.tokens]

theorem Reading.says_method (label : String) (output : Code) (documentation : String)
    (body : Code) : (method ctx label output documentation body).Says Message.types [] fun m =>
      m.types = [ctx.blueprintArgument, output] := by
  unfold method
  apply (says_identifier _).bind
  intro n _
  exact (says_declare _).mono fun m hm => by rw [hm]; rfl

theorem Reading.says_types : (produce ctx).Says Message.types
    ([ctx.blueprintArgument, vectorResult ctx (Code.name ctx.recordType)] ++
      ([ctx.blueprintArgument, ctx.result (Code.ofText "i64")] ++
        ctx.record.columns.flatMap (selectTypes ctx))) fun _ => True := by
  have hsend {m : StoreMethod} {output : Code} (hm : m.types = [ctx.blueprintArgument, output]) :
      (send (.fragment (.methods [m]))).Says Message.types [ctx.blueprintArgument, output]
        fun _ => True := by
    have hs : (send (.fragment (.methods [m]))).Says Message.types _ fun _ => True :=
      says_send _
    rwa [Message.types, Fragment.types, List.flatMap_singleton, hm] at hs
  have hselect (c : Column) : (select ctx c).Says Message.types (selectTypes ctx c)
      fun _ => True := by
    unfold select
    apply (says_need_nil c.imports fun _ => rfl).bind
    intro _ _
    exact (says_method ctx _ _ _ _).bind fun m hm => hsend hm
  have hcount : (count ctx).Says Message.types
      [ctx.blueprintArgument, ctx.result (Code.ofText "i64")] fun _ => True := by
    unfold count
    exact (says_method ctx _ _ _ _).bind fun m hm => hsend hm
  have hfind : (find ctx).Says Message.types
      [ctx.blueprintArgument, vectorResult ctx (Code.name ctx.recordType)] fun _ => True := by
    unfold find
    apply (says_need_nil [ctx.record.name] fun _ => rfl).bind
    intro _ _
    apply (says_each_nil fun field _ => says_fieldInit ctx field).bind
    intro inits _
    exact (says_method ctx _ _ _ _).bind fun m hm => hsend hm
  unfold produce
  apply hfind.append
  intro _ _
  apply hcount.append
  intro _ _
  exact says_forM fun c _ => hselect c

end

/-! ### Code of a record -/

namespace RecordCode

open Arrivals

variable {r : Record} {config : Config} {ctx : Context}

theorem flatMap_messages {γ : Type} {view : Message → List γ} {said : List γ} {f : Feature}
    (hn : failure? (Packet.sequence (scripts r config)) = none)
    (hc : Context.ofRecord r config = .ok ctx) (hf : f.isEnabled r = true)
    (hs : (f.produce ctx).Says view said fun _ => True) :
    (messages f (Packet.sequence (scripts r config))).flatMap view = said := by
  rw [messages_sequence hn, if_pos hf]
  exact Feature.flatMap_script hc ((whole_sequence hn).2 _ (mem_scripts hf)).1 hs

theorem mem_needs {ps : Arrivals} {f : Feature} {n : String}
    (h : n ∈ (messages f ps).flatMap Message.needed) : n ∈ Arrivals.needs ps := by
  obtain ⟨m, hm, hn⟩ := List.mem_flatMap.mp h
  obtain ⟨p, hp, hpm⟩ := List.mem_filterMap.mp hm
  rw [Arrivals.needs, Ty.mem_distinctSorted, List.mem_filterMap]
  refine ⟨p, (List.mem_filter.mp hp).1, ?_⟩
  cases m with
  | needs o =>
    obtain rfl := List.mem_singleton.mp hn
    rw [hpm]
  | fragment g => cases hn
  | method label o => cases hn

theorem mem_types {ps : Arrivals} {f : Feature} {t : Code}
    (h : t ∈ (messages f ps).flatMap Message.types) : ∃ g ∈ fragments ps, t ∈ g.types := by
  obtain ⟨m, hm, ht⟩ := List.mem_flatMap.mp h
  cases m with
  | needs o => cases ht
  | method label o => cases ht
  | fragment g =>
    refine ⟨g, List.mem_filterMap.mpr ⟨.fragment g, List.mem_flatMap.mpr ⟨f, ?_, hm⟩, rfl⟩, ht⟩
    cases f <;> decide

/-- How the code of a record treats a column: it needs all names of the column's type, and slots,
updates and selections write the type as it is. -/
structure Keeps (r : Record) (config : Config) (code : RecordCode) (c : Column) : Prop where
  needs : ∀ n ∈ c.imports, n ∈ code.needs
  slots : ∀ t ∈ c.slotTypes, ∃ g ∈ fragments (Packet.sequence (scripts r config)), t ∈ g.types
  update : r.capabilities.update = true → c.isWritable = true →
    ∃ g ∈ fragments (Packet.sequence (scripts r config)), c.ty.tokens ∈ g.types
  select : r.capabilities.query = true → ∃ ctx, Context.ofRecord r config = .ok ctx ∧
    ∃ g ∈ fragments (Packet.sequence (scripts r config)),
      Reading.vectorResult ctx c.ty.tokens ∈ g.types

theorem keeps_of_ofRecord {code : RecordCode} (h : ofRecord r config = .ok code)
    (hb : code.body ≠ none) {c : Column} (hc : c ∈ r.columns) : code.Keeps r config c := by
  rcases ofRecord_eq_ok h with ⟨-, rfl⟩ | ⟨he, ctx, is, hctx, -, rfl⟩
  · exact absurd rfl hb
  have hn := failure?_of_ofRecord h
  have hr : ctx.record = r := Context.record_eq hctx
  have hcols : (!r.columns.isEmpty) = true := by
    cases hl : r.columns with
    | nil => simp [hl] at hc
    | cons => rfl
  have hblueprint : Feature.blueprint.isEnabled r = true := by
    simp only [Feature.isEnabled, hcols, he, Bool.not_false, Bool.and_self]
  refine ⟨?needs, ?slots, ?update, ?select⟩
  case needs =>
    intro n hnc
    refine mem_needs (f := .blueprint) ?_
    rw [flatMap_messages hn hctx hblueprint (BlueprintCode.says_needed ctx), hr]
    exact List.mem_flatMap.mpr ⟨c, hc, hnc⟩
  case slots =>
    intro t ht
    refine mem_types (f := .blueprint) ?_
    rw [flatMap_messages hn hctx hblueprint (BlueprintCode.says_types ctx), hr]
    exact List.mem_flatMap.mpr ⟨c, hc, ht⟩
  case update =>
    intro hu hw
    refine mem_types (f := .updateable) ?_
    rw [flatMap_messages hn hctx (by simp only [Feature.isEnabled, hcols, hu, Bool.and_self])
      (Updating.says_types ctx), hr]
    refine List.mem_flatMap.mpr ⟨c, List.mem_filter.mpr ⟨hc, hw⟩, List.mem_flatMap.mpr
      ⟨.set, ?_, List.mem_cons_self⟩⟩
    unfold Assignment.all
    split <;> exact List.mem_cons_self
  case select =>
    intro hq
    refine ⟨ctx, hctx, mem_types (f := .queryable) ?_⟩
    rw [flatMap_messages hn hctx (by simp only [Feature.isEnabled, hcols, hq, Bool.and_self])
      (Reading.says_types ctx), hr]
    refine List.mem_append_right _ (List.mem_append_right _ (List.mem_flatMap.mpr ⟨c, hc, ?_⟩))
    simp [Reading.selectTypes]

end RecordCode
end RecordStore
