import Mathlib.Data.List.Nodup
import RecordStore.Proofs.Generation.Assembly

/-!
The names that a companion binds: those that its imports bring in, and those of the types and
traits that the code of its records defines.
-/
namespace RecordStore

/-! ### Types in code -/

namespace Code

def outerAttribute (content : Code) : Code := ofText "#" ++ Token.brackets content

def isImpl (c : Code) : Bool := c.head? == some (.ident "impl")

/-- Code that starts with a type or a trait of a name, behind attributes and a visibility. -/
def Defines (n : String) (c : Code) : Prop :=
  ∃ (attributes : List Code) (v : Visibility) (keyword : String) (rest : Code),
    keyword ∈ ["struct", "trait"] ∧
      c = attributes.flatMap outerAttribute ++ v.tokens ++ .ident keyword :: .ident n :: rest

theorem Defines.of_append {n : String} {c : Code} {attributes : List Code} {v : Visibility}
    {keyword : String} {rest : Code} (hk : keyword ∈ ["struct", "trait"])
    (h : c = attributes.flatMap outerAttribute ++ (v.tokens ++ ([.ident keyword] ++
      (name n ++ rest)))) : c.Defines n :=
  ⟨attributes, v, keyword, rest, hk, by rw [h, List.append_assoc]; rfl⟩

theorem outerAttribute_eq (content : Code) : outerAttribute content =
    .punct '#' false :: .opening .bracket :: content ++ [.closing .bracket] := by
  have h : ofText "#" = [.punct '#' false] := by decide +kernel
  rw [outerAttribute, h]
  rfl

theorem doc_eq (s : String) : doc s = outerAttribute (ofText "doc =" ++ text s) := rfl

theorem ofText_derive : ofText "#[derive(Debug, Clone, Default)]" =
    outerAttribute (ofText "derive(Debug, Clone, Default)") := by
  decide +kernel

theorem ofText_allow :
    ofText "#[allow(dead_code)]" = outerAttribute (ofText "allow(dead_code)") := by
  decide +kernel

theorem ofText_struct : ofText "struct" = [.ident "struct"] := by decide +kernel

theorem ofText_trait : ofText "trait" = [.ident "trait"] := by decide +kernel

theorem Defines.not_isImpl {n : String} {c : Code} (h : c.Defines n) : c.isImpl = false := by
  obtain ⟨attributes, v, keyword, rest, hk, rfl⟩ := h
  cases attributes with
  | cons a as => simp [isImpl, outerAttribute_eq]
  | nil =>
    cases v with
    | inherited =>
      simp only [List.mem_cons, List.not_mem_nil, or_false] at hk
      rcases hk with rfl | rfl <;> simp [isImpl, Visibility.tokens]
    | everyone => simp [isImpl, Visibility.tokens]
    | restricted byPath p => simp [isImpl, Visibility.tokens]

end Code

theorem identifierOf_eq_ok {name n : String} (h : identifierOf name = .ok n) :
    n = Naming.identifier name := by
  unfold identifierOf at h
  split at h
  next i hi =>
    cases h
    rw [Naming.identifier, hi, Option.getD_some]
  next => cases h

/-- What a record's context takes over from it. -/
structure Context.OfRecord (r : Record) (ctx : Context) : Prop where
  record : ctx.record = r
  visibility : ∃ v : Visibility, ctx.visibility = v.tokens
  storeType : ctx.storeType = Naming.identifier r.storeName
  blueprintType : ctx.blueprintType = Naming.identifier r.blueprintName

namespace Context

variable {r : Record} {config : Config} {ctx : Context}

theorem of_ofRecord (h : ofRecord r config = .ok ctx) : ctx.OfRecord r := by
  obtain ⟨hrecord, -, hvisibility, -, hstore, hblueprint⟩ := takenFrom h
  exact ⟨hrecord, hvisibility.elim (fun hv => ⟨_, hv⟩) fun hv => ⟨_, hv⟩,
    identifierOf_eq_ok hstore, identifierOf_eq_ok hblueprint⟩

end Context

section

open Code

variable {r : Record} {ctx : Context} (h : ctx.OfRecord r)
include h

theorem Repository.defines_storeCode (hasMethods : Bool) :
    (storeCode ctx hasMethods).Defines (Naming.identifier r.storeName) := by
  obtain ⟨v, hv⟩ := h.visibility
  let attributes : List Code :=
    (ofText "doc =" ++ text ("Data-access store for `" ++ ctx.record.name ++ "` records.")) ::
      if hasMethods then [] else [ofText "allow(dead_code)"]
  have ha : doc ("Data-access store for `" ++ ctx.record.name ++ "` records.") ++
      (if hasMethods then [] else ofText "#[allow(dead_code)]") =
        attributes.flatMap outerAttribute := by
    cases hasMethods <;> simp [attributes, doc_eq, ofText_allow]
  rw [storeCode, ha, hv, ofText_struct, h.storeType]
  simp only [List.append_assoc]
  exact .of_append (by decide) rfl

theorem BlueprintCode.defines_code (b : BlueprintCode) :
    (b.code ctx).Defines (Naming.identifier r.blueprintName) := by
  obtain ⟨v, hv⟩ := h.visibility
  have ha : doc ("Query blueprint for `" ++ ctx.record.name ++ "` records.") ++
      ofText "#[derive(Debug, Clone, Default)]" =
        [ofText "doc =" ++ text ("Query blueprint for `" ++ ctx.record.name ++ "` records."),
          ofText "derive(Debug, Clone, Default)"].flatMap outerAttribute := by
    simp [doc_eq, ofText_derive]
  rw [code, ha, hv, ofText_struct, h.blueprintType]
  simp only [List.append_assoc]
  exact .of_append (by decide) rfl

/-- A store with methods has a trait. -/
theorem Repository.defines_code? {operations : List Operation} {c : Option Code}
    (hc : code? ctx operations = .ok c) : List.Forall₂ (fun c n => c.Defines n) c.toList
      (if operations.isEmpty then [] else [Naming.identifier r.repositoryName]) := by
  unfold code? at hc
  split at hc
  next he =>
    cases hc
    rw [if_pos he]
    exact .nil
  next he =>
    obtain ⟨trait, ht, hc⟩ := bind_eq_ok.mp hc
    obtain rfl := identifierOf_eq_ok ht
    obtain ⟨v, hv⟩ := h.visibility
    have ha : doc ("Operations of a `" ++ ctx.record.name ++ "` store.") =
        [ofText "doc =" ++ text ("Operations of a `" ++ ctx.record.name ++ "` store.")].flatMap
          outerAttribute := by
      simp [doc_eq]
    rw [ha, hv, ofText_trait, h.record] at hc
    simp only [List.append_assoc] at hc
    cases hc
    rw [if_neg he]
    exact .cons (.of_append (by decide) rfl) .nil

end

/-! ### Types of a record -/

def Fragment.blueprint? : Fragment → Option BlueprintCode
  | methods _ => none
  | blueprint b => some b

def Definition.fields? : Definition → Option (List String)
  | method _ => none
  | blueprint fields => some fields

theorem Fragment.filterMap_blueprint? (fs : List Fragment) :
    (fs.filterMap Fragment.blueprint?).map BlueprintCode.fieldNames =
      (fs.flatMap Fragment.definitions).filterMap Definition.fields? := by
  induction fs with
  | nil => rfl
  | cons f fs ih =>
    rw [List.flatMap_cons, List.filterMap_append, ← ih]
    cases f with
    | methods ms =>
      simp [List.filterMap_cons, blueprint?, definitions, Definition.fields?, Function.comp_def]
    | blueprint b => simp [blueprint?, definitions, Definition.fields?]

/-- Of fragments only blueprints are no implementations. -/
theorem Fragment.filter_code (ctx : Context) (fs : List Fragment)
    (hb : ∀ b : BlueprintCode, (b.code ctx).isImpl = false) :
    (fs.map (·.code ctx)).filter (!·.isImpl) =
      (fs.filterMap Fragment.blueprint?).map (·.code ctx) := by
  have hm (methods : Code) : (ctx.storeImpl methods).isImpl = true := by
    have ht : Code.ofText "impl <" = [.ident "impl", .punct '<' false] := by decide +kernel
    simp [Context.storeImpl, Code.isImpl, ht]
  induction fs with
  | nil => rfl
  | cons f fs ih =>
    rw [List.map_cons, List.filter_cons, ih]
    cases f with
    | methods ms => simp [List.filterMap_cons, Fragment.code, hm, blueprint?]
    | blueprint b => simp [Fragment.code, hb, blueprint?]

/-- The types and traits that the code of a record defines. -/
def Record.typeNames (r : Record) (config : Config) : List String :=
  if r.capabilities.isEmpty then []
  else
    Naming.identifier r.storeName ::
      ((if Feature.blueprint.isEnabled r then [Naming.identifier r.blueprintName] else []) ++
        if (Arrivals.operations (Packet.sequence (RecordCode.scripts r config))).isEmpty then []
        else [Naming.identifier r.repositoryName])

namespace RecordCode

open Arrivals

variable {r : Record} {config : Config} {ctx : Context}

theorem blueprints_sequence (hn : failure? (Packet.sequence (scripts r config)) = none) :
    ((fragments (Packet.sequence (scripts r config))).filterMap Fragment.blueprint?).length =
      if Feature.blueprint.isEnabled r then 1 else 0 := by
  have hd : (definitions (Packet.sequence (scripts r config))).filterMap Definition.fields? = _ :=
    congrArg (List.filterMap Definition.fields?) (definitions_sequence hn)
  rw [definitions, ← Fragment.filterMap_blueprint?] at hd
  have hm : (r.definitionsOf r.actions).filterMap Definition.fields? = [] := by
    simp [Record.definitionsOf, List.filterMap_map, Function.comp_def, Definition.fields?]
  rw [List.filterMap_append, hm, List.nil_append] at hd
  rw [← List.length_map BlueprintCode.fieldNames, hd]
  split <;> rfl

/-- Apart from implementations, the code of a record consists of its types and its trait. -/
theorem items_define {is : List Code} (hn : failure? (Packet.sequence (scripts r config)) = none)
    (hc : r.capabilities.isEmpty = false) (hctx : Context.ofRecord r config = .ok ctx)
    (h : items ctx (Packet.sequence (scripts r config)) = .ok is) :
    List.Forall₂ (fun c n => c.Defines n) (is.filter (!·.isImpl)) (r.typeNames config) := by
  have hr := Context.of_ofRecord hctx
  unfold items at h
  obtain ⟨repository, hrep, h⟩ := bind_eq_ok.mp h
  cases h
  have hstore := Repository.defines_storeCode hr
    (!(operations (Packet.sequence (scripts r config))).isEmpty)
  have htrait := Repository.defines_code? hr hrep
  have hself : repository.toList.filter (!·.isImpl) = repository.toList := by
    refine List.filter_eq_self.mpr fun c hm => ?_
    obtain ⟨n, -, hcn⟩ := exists_of_mem_forall₂ htrait hm
    rw [hcn.not_isImpl, Bool.not_false]
  rw [Record.typeNames, hc, if_neg Bool.false_ne_true, List.cons_append, List.filter_cons,
    hstore.not_isImpl, Bool.not_false, if_pos rfl, List.filter_append, hself,
    Fragment.filter_code ctx _ fun b => (BlueprintCode.defines_code hr b).not_isImpl]
  refine .cons hstore (List.rel_append ?_ htrait)
  have hl := blueprints_sequence hn
  split
  next hb =>
    rw [if_pos hb] at hl
    obtain ⟨b, hb⟩ := List.length_eq_one_iff.mp hl
    rw [hb]
    exact .cons (BlueprintCode.defines_code hr b) .nil
  next hb =>
    rw [if_neg hb] at hl
    rw [List.eq_nil_of_length_eq_zero hl]
    exact .nil

/-- A record's code is that of some items, and apart from implementations these are types and
traits of some names. A record without code defines none. -/
def DefinesTypes (code : RecordCode) (names : List String) : Prop :=
  code.body = none ∧ names = [] ∨ ∃ is : List Code,
    code.body = some ("\n".intercalate (is.map tokenText)) ∧
      List.Forall₂ (fun c n => c.Defines n) (is.filter (!·.isImpl)) names

theorem definesTypes_of_ofRecord {code : RecordCode}
    (h : ofRecord r config = .ok code) : code.DefinesTypes (r.typeNames config) := by
  rcases ofRecord_eq_ok h with ⟨he, rfl⟩ | ⟨he, ctx, is, hctx, his, rfl⟩
  · exact .inl ⟨rfl, by rw [Record.typeNames, if_pos he]⟩
  · exact .inr ⟨is, rfl, items_define (failure?_of_ofRecord h) he hctx his⟩

end RecordCode

/-! ### Types of all records -/

namespace Record

variable {r : Record} {d : Declaration} {scope : Scope} {config : Config}

/-- A record that leaves its types their usual names. -/
structure NamesTypesItself (r : Record) : Prop where
  store : r.storeName = r.name ++ "Store"
  blueprint : r.blueprintName = r.name ++ "Blueprint"
  bare : Lexer.IsBare r.name.toList

/-- What stands behind a record's name in the names of its types. -/
def typeEndings : List String := ["Store", "Blueprint", "Repository"]

theorem isSome_getLast?_ending : ∀ s ∈ typeEndings, s.toList.getLast?.isSome = true := by decide

/-- The endings differ in their last letters. -/
theorem getLast?_ending_inj : ∀ s ∈ typeEndings, ∀ t ∈ typeEndings,
    s.toList.getLast? = t.toList.getLast? → s = t := by
  decide

theorem append_ending_inj {a b s t : String} (hs : s ∈ typeEndings) (ht : t ∈ typeEndings)
    (h : a ++ s = b ++ t) : a = b ∧ s = t := by
  have hl := congrArg (fun n : String => n.toList.getLast?) h
  simp only [String.toList_append, List.getLast?_append] at hl
  rw [Option.or_of_isSome (isSome_getLast?_ending s hs),
    Option.or_of_isSome (isSome_getLast?_ending t ht)] at hl
  obtain rfl := getLast?_ending_inj s hs t ht hl
  exact ⟨(String.append_left_inj s).mp h, rfl⟩

theorem sublist_typeNames (h : build d scope config = .ok r) (hr : r.NamesTypesItself)
    (built : Config) : (r.typeNames built).Sublist (typeEndings.map (r.name ++ ·)) := by
  have hb := built_of_build h
  have hrep : r.repositoryName = r.name ++ "Repository" := by
    obtain ⟨s, columns, -, -, rfl, -⟩ := build_eq_ok.mp h
    rfl
  have hi {n ending : String} (hn : n = r.name ++ ending) (he : Lexer.IsBare ending.toList)
      (hg : n ∈ r.generatedNames) : Naming.identifier n = r.name ++ ending := by
    obtain ⟨i, hi⟩ := Option.isSome_iff_exists.mp (hb.identifiers n hg)
    have hbare : Lexer.IsBare n.toList := by
      rw [hn, String.toList_append]
      exact hr.bare.append he
    rw [Naming.identifier, hi, Option.getD_some, identifier?_of_isBare hbare hi, hn]
  have hs := hi hr.store (by decide) (by simp [generatedNames])
  have hbp := hi hr.blueprint (by decide) (by simp [generatedNames])
  have ht := hi hrep (by decide) (by simp [generatedNames])
  unfold typeNames
  rw [hs, hbp, ht]
  split
  · exact List.nil_sublist _
  · have hb {b : Bool} {a : String} : (if b then [a] else []).Sublist [a] := by
      cases b <;> simp
    have ht {b : Bool} {a : String} : (if b then [] else [a]).Sublist [a] := by
      cases b <;> simp
    exact .cons_cons _ (List.Sublist.append hb ht)

end Record

namespace Companion

variable {u : SourceUnit} {config : Config} {rs : List (Record × RecordCode)}

/-- Records that leave their types the usual names get distinct types. -/
theorem nodup_typeNames {source : String} (hu : SourceUnit.ofSource source = .ok u)
    (h : records u config = .ok rs) (hr : ∀ g ∈ rs, g.1.NamesTypesItself) :
    (rs.flatMap (·.1.typeNames config)).Nodup := by
  have hn : (rs.map (·.1.name)).Nodup := by
    rw [names_records h]
    exact SourceUnit.nodup_records hu
  have hsub : ∀ g ∈ rs,
      (g.1.typeNames config).Sublist (Record.typeEndings.map (g.1.name ++ ·)) := by
    intro g hg
    obtain ⟨d, -, hd, -⟩ := declaration_of_mem_records h hg
    exact Record.sublist_typeNames hd (hr g hg) config
  rw [List.nodup_flatMap]
  constructor
  · intro g hg
    refine List.Nodup.sublist (hsub g hg) ?_
    rw [List.nodup_map_iff_inj_on (by decide)]
    exact fun s hs t ht he => (Record.append_ending_inj hs ht he).2
  · refine ((List.pairwise_map.mp hn).imp_of_mem ?_)
    intro g g' hg hg' hne n hn hn'
    obtain ⟨s, hs, rfl⟩ := List.mem_map.mp ((hsub g hg).subset hn)
    obtain ⟨t, ht, he⟩ := List.mem_map.mp ((hsub g' hg').subset hn')
    exact hne (Record.append_ending_inj ht hs he).1.symm

/-! ### All names -/

/-- The names that a companion binds. -/
def boundNames (scope : Scope) (config : Config) (rs : List (Record × RecordCode)) :
    List String :=
  (imports scope (rs.map Prod.snd)).map Prod.fst ++ rs.flatMap (·.1.typeNames config)

/-- A companion's text consists of the imports and the code of its records. There is one import
for each name that the code needs and the source binds, and it brings in that name. Apart from
implementations, the code defines the types and traits of the records. So the names that are bound
are distinct exactly if no two types share a name and none is imported; and types do not if all
records leave them their usual names. -/
theorem boundNames_nodup {source : String} (hu : SourceUnit.ofSource source = .ok u)
    (h : records u config = .ok rs) :
    (∀ unit output, generate unit source config = .ok output →
      u.isIgnored = true ∧ output = "" ∨
      ∃ texts, (rs.map Prod.snd).mapM recordText = .ok texts ∧
        output = header unit ++ useBlock (uses u.scope (rs.map Prod.snd)) ++
          String.join (texts.map fun t => "\n" ++ t)) ∧
    (∀ line, line ∈ uses u.scope (rs.map Prod.snd) ↔
      ∃ n p, (n, p) ∈ imports u.scope (rs.map Prod.snd) ∧ p.text = line) ∧
    (∀ n p, (n, p) ∈ imports u.scope (rs.map Prod.snd) →
      p = ⟨["super"], none⟩ ∨ p.boundName? = some n) ∧
    (∀ g ∈ rs, g.2.DefinesTypes (g.1.typeNames config)) ∧
    ((boundNames u.scope config rs).Nodup ↔ (rs.flatMap (·.1.typeNames config)).Nodup ∧
      ∀ n p, (n, p) ∈ imports u.scope (rs.map Prod.snd) →
        n ∉ rs.flatMap (·.1.typeNames config)) ∧
    ((∀ g ∈ rs, g.1.NamesTypesItself) → (rs.flatMap (·.1.typeNames config)).Nodup) := by
  refine ⟨fun _ _ => text_of_generate hu h, fun _ => mem_uses, ?bound, ?code, ?distinct,
    nodup_typeNames hu h⟩
  case bound =>
    intro n p hp
    by_cases hs : p = ⟨["super"], none⟩
    · exact .inl hs
    · exact .inr (SourceUnit.boundName?_of_resolve hu (mem_imports.mp hp).2 hs)
  case code =>
    intro g hg
    obtain ⟨d, -, -, hc⟩ := declaration_of_mem_records h hg
    exact RecordCode.definesTypes_of_ofRecord hc
  case distinct =>
    rw [boundNames, List.nodup_append]
    constructor
    · rintro ⟨-, ht, hd⟩
      exact ⟨ht, fun n p hp hn => hd n (List.mem_map.mpr ⟨_, hp, rfl⟩) n hn rfl⟩
    · rintro ⟨ht, hd⟩
      refine ⟨nodup_imports _ _, ht, fun n hn m hm hnm => ?_⟩
      obtain ⟨⟨n, p⟩, hp, rfl⟩ := List.mem_map.mp hn
      subst hnm
      exact hd n p hp hm

theorem boundNames_nodup_day : ∃ u rs, SourceUnit.ofSource daySource = .ok u ∧
    records u {} = .ok rs ∧ rs.map (·.1.name) = ["Day"] ∧ (boundNames u.scope {} rs).Nodup := by
  obtain ⟨file, u, rs, -, hu, -, hs, hrs, hp⟩ := exists_of_accepts
    (show accepts daySource (fun items rs =>
      (Scope.ofItems items).paths.map Prod.fst == ["NaiveDate", "Day"] &&
        (rs.map fun r => [r.name, r.storeName, r.blueprintName]) ==
          [["Day", "DayStore", "DayBlueprint"]]) = true by decide +kernel)
  simp only [Bool.and_eq_true, beq_iff_eq, List.map_map] at hp
  obtain ⟨hscope, hnames⟩ := hp
  obtain ⟨g, rfl, hg⟩ := List.map_eq_singleton_iff.mp hnames
  simp only [Function.comp_apply, List.cons.injEq, and_true] at hg
  obtain ⟨hn, hstore, hb⟩ := hg
  have hself : g.1.NamesTypesItself :=
    ⟨by rw [hstore, hn]; decide, by rw [hb, hn]; decide, by rw [hn]; decide⟩
  obtain ⟨-, -, -, -, hdistinct, htypes⟩ := boundNames_nodup hu hrs
  refine ⟨u, [g], hu, hrs, by simp [hn], hdistinct.mpr ⟨htypes (by simpa using hself), ?_⟩⟩
  intro m p hi ht
  have hm : m ∈ ["NaiveDate", "Day"] := by
    obtain ⟨before, after, hp, -⟩ := List.lookup_eq_some_iff.mp (mem_imports.mp hi).2
    rw [← hscope, ← hs, hp]
    simp
  obtain ⟨d, -, hd, -⟩ := declaration_of_mem_records hrs List.mem_cons_self
  have ht : m ∈ Record.typeEndings.map ("Day" ++ ·) := by
    rw [← hn]
    exact (Record.sublist_typeNames hd hself {}).subset (by simpa using ht)
  have disjoint : ∀ m ∈ ["NaiveDate", "Day"], m ∉ Record.typeEndings.map ("Day" ++ ·) := by
    decide
  exact disjoint m hm ht

/-- A record that calls its store and its blueprints alike. -/
def shelfSource : String :=
  "#[marlow = \"storeName=Shelf&blueprintName=Shelf\"]\n" ++
    "struct Post \x7b\n #[marlow = \"\"]\n no: u8\n\x7d"

theorem boundNames_not_nodup : ∃ u rs, SourceUnit.ofSource shelfSource = .ok u ∧
    records u {} = .ok rs ∧ ¬(boundNames u.scope {} rs).Nodup := by
  obtain ⟨-, u, rs, -, hu, -, -, hrs, hp⟩ := exists_of_accepts
    (show accepts shelfSource (fun _ rs => rs.any fun r =>
      r.storeName == "Shelf" && r.blueprintName == "Shelf" && !r.capabilities.isEmpty &&
        Feature.blueprint.isEnabled r) = true by decide +kernel)
  refine ⟨u, rs, hu, hrs, fun hn => ?_⟩
  obtain ⟨r, hr, hp⟩ := List.any_eq_true.mp hp
  simp only [Bool.and_eq_true, beq_iff_eq, Bool.not_eq_true'] at hp
  obtain ⟨⟨⟨hs, hb⟩, hc⟩, he⟩ := hp
  obtain ⟨g, hg, rfl⟩ := List.mem_map.mp hr
  have ht : (g.1.typeNames {}).Nodup :=
    (List.nodup_flatMap.mp (List.nodup_append.mp hn).2.1).1 g hg
  rw [Record.typeNames, hc, if_neg Bool.false_ne_true, he, if_pos rfl, hs, hb] at ht
  simp at ht

end Companion
end RecordStore
