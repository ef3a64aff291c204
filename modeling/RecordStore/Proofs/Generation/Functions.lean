import RecordStore.Proofs.Generation.Passages

/-!
Functions in the code of fragments. Where the texts that are taken over from sources close what they
open, a reader finds the methods of a store in its implementations, each with the signature that the
method has, and finds none in the code of blueprints.
-/
namespace RecordStore

open Code

/-- Texts that code takes over: the path of the runtime, the visibility and the types of columns
close what they open. -/
structure Context.IsBalanced (ctx : Context) : Prop where
  runtime : AngleBalanced ctx.runtime
  visibility : ∃ v : Visibility, ctx.visibility = v.tokens ∧ v.IsBalanced
  types : ∀ c ∈ ctx.record.columns, AngleBalanced c.ty.tokens

namespace Visibility

variable {v : Visibility} (h : v.IsBalanced)
include h

theorem IsBalanced.inside {byPath : Bool} {p : Path} (hv : v = .restricted byPath p) :
    GroupBalanced ((if byPath then [Token.ident "in"] else []) ++ p.tokens) := by
  have hp : depth 0 p.tokens = some 0 := h byPath p hv
  cases byPath <;> exact hp

theorem IsBalanced.balanced : GroupBalanced v.tokens := by
  cases hv : v with
  | inherited => rfl
  | everyone => rfl
  | restricted byPath p =>
    have hp := (h.inside hv).depth 1
    have hn : depth 0 [Token.ident "pub"] = some 0 := rfl
    have ht : tokens (.restricted byPath p) = [.ident "pub"] ++
        Token.parens ((if byPath then [.ident "in"] else []) ++ p.tokens) := rfl
    rw [GroupBalanced, ht, depth_append, hn, Option.bind_some, depth_parens, hp]
    rfl

theorem IsBalanced.reads {keyword : String} (hk : "pub" ≠ keyword) :
    Reads keyword v.tokens [] := by
  cases hv : v with
  | inherited => exact reads_nil
  | everyone => exact reads_ident hk
  | restricted byPath p => exact (reads_ident hk).append ((h.inside hv).reads _)

end Visibility

namespace Context

theorem isBalanced_of_ofRecord {r : Record} {config : Config} {ctx : Context}
    (h : ofRecord r config = .ok ctx)
    (hp : ∀ p, Path.read? config.runtime = some p → AngleBalanced p.tokens)
    (hv : r.visibility.IsBalanced) (ht : ∀ c ∈ r.columns, AngleBalanced c.ty.tokens) :
    ctx.IsBalanced := by
  obtain ⟨hrecord, ⟨p, hr, hruntime⟩, hvisibility, -⟩ := takenFrom h
  refine ⟨hruntime ▸ hp p hr, ?_, hrecord ▸ ht⟩
  rcases hvisibility with hv' | hv'
  · exact ⟨_, hv', nofun⟩
  · exact ⟨_, hv', hv⟩

variable (ctx : Context)

/-- What stands before the methods of a store. -/
def storeHead : Code :=
  ofText "impl <" ++ ctx.connection ++ ofText ">" ++ name ctx.storeType ++ ofText "<D>"

theorem storeHead_eq : ctx.storeHead = .ident "impl" :: .punct '<' false ::
    (ctx.connection ++ ofText ">" ++ name ctx.storeType ++ ofText "<D>") := by
  have hi : ofText "impl <" = [.ident "impl", .punct '<' false] := by decide +kernel
  simp [storeHead, hi]

variable {ctx} (h : ctx.IsBalanced)
include h

theorem IsBalanced.depth_runtimeName (rest : String) (n : Nat) :
    depth n (ctx.runtimeName rest) = some n := by
  simp [Context.runtimeName, h.runtime.balanced]

theorem IsBalanced.visible : ctx.visibility.GroupBalanced := by
  obtain ⟨v, hv, hb⟩ := h.visibility
  rw [hv]
  exact hb.balanced

/-- The parameter of an implementation. -/
theorem IsBalanced.leads_connection :
    Leads (.punct '<' false :: (ctx.connection ++ ofText ">")) .start .start := by
  have hs : Leads [.punct '<' false] .start ⟨0, 1, false⟩ := rfl
  have hd : (ofText "D:").AngleBalanced := by decide +kernel
  have hn : (ofText ("::" ++ "Connection")).AngleBalanced := by decide +kernel
  have hm : (ofText ">").Leads ⟨0, 1, false⟩ .start := by decide +kernel
  have hc : ctx.connection.AngleBalanced := Leads.append hd (h.runtime.append hn)
  exact hs.append (hc.append hm)

theorem IsBalanced.isHead_store : ctx.storeHead.IsHead "impl" := by
  have hname : (name ctx.storeType).Leads .start .start := rfl
  have he : (ofText "<D>").Leads .start .start := by decide +kernel
  exact ⟨_, false, ctx.storeHead_eq, (h.leads_connection.append hname).append he⟩

/-- The output of a method. -/
theorem IsBalanced.leads_result {ok : Code} (ho : ok.AngleBalanced) :
    (ctx.result ok).Leads .start .start := by
  have hr : (ofText "::core::result::Result <").Leads .start ⟨0, 1, false⟩ := by decide +kernel
  have hc : Leads comma ⟨0, 1, false⟩ ⟨0, 1, false⟩ := rfl
  have he : (ofText ("::" ++ "Error")).AngleBalanced := by decide +kernel
  have hm : (ofText ">").Leads ⟨0, 1, false⟩ .start := by decide +kernel
  exact (((hr.append ho).append hc).append (h.runtime.append he)).append hm

end Context

theorem Code.angleBalanced_name (n : String) : (name n).AngleBalanced := rfl

theorem Reading.angleBalanced_vector {item : Code} (h : item.AngleBalanced) :
    (vector item).AngleBalanced := by
  have hv : (ofText "::std::vec::Vec <").Leads ⟨0, 1, false⟩ ⟨0, 2, false⟩ := by decide +kernel
  have hm : (ofText ">").Leads ⟨0, 2, false⟩ ⟨0, 1, false⟩ := by decide +kernel
  exact (hv.append (h.within 1)).append hm

/-! ### Methods -/

/-- A method in which a reader finds its own signature and no other. -/
structure StoreMethod.IsReadable (m : StoreMethod) : Prop where
  attributes : m.attributes.IsAttributes
  signature : m.signature.IsHead "fn"
  body : m.body.GroupBalanced

namespace StoreMethod

variable {m : StoreMethod} {ctx : Context} (h : ctx.IsBalanced)
include h

theorem isReadable (ok : Code) (ha : m.attributes.IsAttributes)
    (hi : ∀ i ∈ m.inputs, i.2.GroupBalanced) (ho : ok.AngleBalanced) (hr : m.output = ctx.result ok)
    (hb : m.body.GroupBalanced) : m.IsReadable := by
  have hf : ofText "fn" = [.ident "fn"] := by decide +kernel
  have hinputs : (commas (ofText "&self" :: m.inputs.map input)).GroupBalanced := by
    refine .commas (List.forall_mem_cons.mpr ⟨balanced_ofText _, ?_⟩)
    refine List.forall_mem_map.mpr fun i hm => ?_
    rw [GroupBalanced, input]
    simp [hi i hm]
  have hname : (Code.name m.name).Leads .start .start := rfl
  have harrow : (ofText "->").Leads .start .start := by decide +kernel
  have hp := hinputs.leads (d := .parenthesis) (by decide) 0 false
  refine ⟨ha, ⟨_, false, ?_, ((hname.append hp).append harrow).append (h.leads_result ho)⟩, hb⟩
  simp [signature, hf, hr, Token.parens]

theorem IsReadable.balanced (hm : m.IsReadable) : (m.code ctx.visibility).GroupBalanced := by
  rw [GroupBalanced, code]
  simp [hm.attributes.balanced, h.visible, hm.signature.balanced, hm.body]

theorem IsReadable.reads (hm : m.IsReadable) :
    (m.code ctx.visibility).Reads "fn" [⟨m.signature, some m.body⟩] := by
  obtain ⟨v, hv, hb⟩ := h.visibility
  have hp : ctx.visibility.Reads "fn" [] := hv ▸ hb.reads (by decide)
  have hr := (hm.attributes.reads.append hp).append (hm.signature.reads hm.body)
  rwa [← List.append_assoc] at hr

end StoreMethod

/-- The functions that are defined in the store's own implementations in the code of a fragment,
by their signatures. -/
def Fragment.functions (ctx : Context) (f : Fragment) : List Code :=
  ((f.code ctx).passages "impl").flatMap fun p =>
    if p.head = ctx.storeHead then ((p.body.getD []).passages "fn").map Passage.head else []

theorem Fragment.functions_methods {ctx : Context} (h : ctx.IsBalanced) {ms : List StoreMethod}
    (hm : ∀ m ∈ ms, m.IsReadable) :
    (methods ms).functions ctx = ms.map StoreMethod.signature := by
  have hb : GroupBalanced (ms.flatMap (·.code ctx.visibility)) :=
    .flatMap fun m hx => (hm m hx).balanced h
  have hi : ((methods ms).code ctx).passages "impl" =
      [⟨ctx.storeHead, some (ms.flatMap (·.code ctx.visibility))⟩] :=
    (h.isHead_store.reads hb).passages
  have hf := (Reads.flatMap fun m hx => (hm m hx).reads h).passages
  rw [functions, hi, List.flatMap_singleton, if_pos rfl, Option.getD_some, hf, List.map_map]
  rfl

/-! ### Blueprints -/

/-- The code of a blueprint's parts closes what it opens. -/
structure BlueprintCode.IsBalanced (b : BlueprintCode) : Prop where
  slots : ∀ s ∈ b.slots, s.ty.GroupBalanced ∧ s.clauseBody.GroupBalanced
  predicate : b.predicateBody.GroupBalanced
  order : b.orderBody.GroupBalanced

namespace BlueprintCode

variable {ctx : Context} (h : ctx.IsBalanced) {b : BlueprintCode} (hb : b.IsBalanced)

theorem depth_docLine (s : String) (n : Nat) : depth n (docLine s) = some n := by
  have hl (t : String) (n : Nat) : depth n [.literal t] = some n := rfl
  simp [docLine, hl]

include h hb

theorem balanced_fields : (fieldsCode ctx b).GroupBalanced := by
  have hs : GroupBalanced (Code.terminated (b.slots.map fun s =>
      ctx.visibility ++ name s.name ++ ofText ":" ++ s.ty)) := by
    refine .terminated (List.forall_mem_map.mpr fun s hm => ?_)
    rw [GroupBalanced]
    simp [h.visible, (hb.slots s hm).1]
  have hc : ∀ f ∈ b.commonFields, f.2.2.GroupBalanced := by
    unfold commonFields
    cases b.hasScope <;> simp [GroupBalanced]
  rw [GroupBalanced, fieldsCode, depth_append, hs]
  refine GroupBalanced.flatMap (l := b.commonFields) fun f hm => ?_
  rw [GroupBalanced]
  simp [h.visible, hc f hm, depth_docLine]

omit hb in
theorem balanced_conditions (slots : List SlotCode) : (conditionsCode ctx slots).GroupBalanced := by
  have hone : GroupBalanced (slots.flatMap fun s =>
      stmt (ofText "let (clause, bound) = self." ++ name s.clauseMethod ++
        ofText "(base + values.len())") ++ ofText "if !clause.is_empty()" ++
        Token.braces (ofText "clauses.push(clause); values.extend(bound);")) :=
    .flatMap fun s _ => by simp [GroupBalanced]
  unfold GroupBalanced conditionsCode
  simp [-List.append_assoc, h.depth_runtimeName, hone]

theorem balanced_methods : (methodsCode ctx b).GroupBalanced := by
  have hs : GroupBalanced (b.slots.flatMap (clauseCode ctx)) := .flatMap fun s hm => by
    unfold GroupBalanced clauseCode
    simp [h.depth_runtimeName, (hb.slots s hm).2]
  unfold GroupBalanced methodsCode
  simp [hs, balanced_conditions h, h.visible, h.depth_runtimeName, hb.predicate, hb.order,
    depth_docLine]

/-- A blueprint has two implementations, of its own methods and for its display. -/
theorem reads_code (hn : ctx.blueprintType ≠ "impl") : ∃ display, (b.code ctx).Reads "impl"
    [⟨ofText "impl" ++ name ctx.blueprintType, some (methodsCode ctx b)⟩,
      ⟨ofText "impl ::core::fmt::Display for" ++ name ctx.blueprintType, some display⟩] := by
  obtain ⟨v, hv, hvb⟩ := h.visibility
  have hattributes : (doc ("Query blueprint for `" ++ ctx.record.name ++ "` records.") ++
      ofText "#[derive(Debug, Clone, Default)]").Reads "impl" [] := by
    rw [ofText_derive]
    exact ((isAttributes_doc _).append (isAttributes_outer (balanced_ofText _))).reads
  have hp : ctx.visibility.Reads "impl" [] := hv ▸ hvb.reads (by decide)
  have hstruct : (ofText "struct").Reads "impl" [] := by decide +kernel
  have hname : (name ctx.blueprintType).Reads "impl" [] := reads_ident hn
  have hfields : Reads "impl" (Token.braces (fieldsCode ctx b)) [] :=
    (balanced_fields h hb).reads .brace
  have himpl : (ofText "impl" ++ name ctx.blueprintType).IsHead "impl" := by
    have hi : ofText "impl" = [.ident "impl"] := by decide +kernel
    exact ⟨name ctx.blueprintType, false, by rw [hi]; rfl, rfl⟩
  have hdisplay : (ofText "impl ::core::fmt::Display for" ++ name ctx.blueprintType).IsHead
      "impl" := by
    have hd : ofText "impl ::core::fmt::Display for" =
        .ident "impl" :: ofText "::core::fmt::Display for" := by decide +kernel
    have hl : (ofText "::core::fmt::Display for").Leads .start .start := by decide +kernel
    have hn : (name ctx.blueprintType).Leads .start .start := rfl
    exact ⟨_, false, by rw [hd]; rfl, hl.append hn⟩
  have hbody : GroupBalanced (ofText
      "fn fmt(&self, f: &mut ::core::fmt::Formatter<'_>) -> ::core::fmt::Result" ++
        Token.braces (ofText "f.write_str(&self.predicate(1))")) := by
    simp [GroupBalanced]
  have hr := (((((hattributes.append hp).append hstruct).append hname).append hfields).append
    (himpl.reads (balanced_methods h hb))).append (hdisplay.reads hbody)
  simp only [List.append_assoc, List.nil_append, List.cons_append] at hr
  simp only [code, List.append_assoc]
  exact ⟨_, hr⟩

/-- None of them is the store's. -/
theorem functions_eq_nil (hn : ctx.blueprintType ≠ "impl") :
    (Fragment.blueprint b).functions ctx = [] := by
  obtain ⟨display, hr⟩ := reads_code h hb hn
  have hfirst : ofText "impl" ++ name ctx.blueprintType ≠ ctx.storeHead := fun he => by
    have hi : ofText "impl" = [.ident "impl"] := by decide +kernel
    have hs := congrArg (·[1]?) (he.trans ctx.storeHead_eq)
    simp [hi, name] at hs
  have hsecond : ofText "impl ::core::fmt::Display for" ++ name ctx.blueprintType ≠
      ctx.storeHead := fun he => by
    have hm : (ofText "impl ::core::fmt::Display for").take 2 =
        [.ident "impl", .punct ':' true] := by decide +kernel
    have hs := congrArg (List.take 2) (he.trans ctx.storeHead_eq)
    rw [List.take_append_of_le_length (by decide +kernel), hm] at hs
    simp at hs
  have hp : ((Fragment.blueprint b).code ctx).passages "impl" = _ := hr.passages
  rw [Fragment.functions, hp]
  simp [hfirst, hsecond]

end BlueprintCode

end RecordStore
