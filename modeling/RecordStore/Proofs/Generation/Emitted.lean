import RecordStore.Proofs.Generation.Definitions
import RecordStore.Proofs.Schema.Identifiers

/-!
What the code of a record defines. Names are checked as texts, and code is written with the
identifiers that the texts are; where a name has nothing around its identifier both are the same,
and nothing is defined twice.
-/
namespace RecordStore

def Definition.method? : Definition → Option String
  | method name => some name
  | blueprint _ => none

namespace Arrivals

/-- What is defined by the fragments that arrived, as they are written. -/
def definitions (ps : Arrivals) : List Definition := ps.fragments.flatMap Fragment.definitions

theorem definitions_eq (ps : Arrivals) :
    ps.definitions = (ordered ps).flatMap Message.definitions := by
  unfold definitions fragments
  induction ordered ps with
  | nil => rfl
  | cons m ms ih => cases m <;> simpa [Message.definitions] using ih

end Arrivals

/-- What a feature does, each with a method of its own. -/
def Feature.actions (r : Record) : Feature → List Action
  | createable => if r.insertColumns.isEmpty then [] else [.create]
  | updateable => (r.columns.filter Column.isWritable).flatMap fun c =>
      (Assignment.all c).map (.write · c)
  | deleteable => [.delete]
  | queryable => .find :: .count :: r.columns.map .select
  | blueprint => []

namespace Record

variable (r : Record)

/-- Whether an action gets a method; an insert needs a column to insert into. -/
def defines : Action → Bool
  | .create => !r.insertColumns.isEmpty
  | _ => true

/-- Names that are written as the identifiers that they are. -/
def WrittenPlainly : Prop := ∀ n ∈ r.storeMethods ++ r.slotNames, identifier? n = some n

theorem commonFields_subset : r.commonFields ⊆ Naming.commonSlots := by
  unfold commonFields
  cases r.softDelete.isSome <;> decide

theorem commonFields_nodup : r.commonFields.Nodup := by
  unfold commonFields
  cases r.softDelete.isSome <;> decide

variable {r}

theorem WrittenPlainly.identifier_eq (h : r.WrittenPlainly) {n : String}
    (hn : n ∈ r.storeMethods ++ r.slotNames) : Naming.identifier n = n := by
  rw [Naming.identifier, h n hn, Option.getD_some]

/-- What is defined for some actions. -/
def definitionsOf (r : Record) (as : List Action) : List Definition :=
  (as.filter r.defines).map fun a => .method (Naming.identifier (r.methodName a))

theorem filterMap_definitionsOf (as : List Action) :
    (r.definitionsOf as).filterMap Definition.method? =
      (as.filter r.defines).map fun a => Naming.identifier (r.methodName a) := by
  simp [definitionsOf, List.filterMap_map, Function.comp_def, Definition.method?]

theorem filter_ite (b : Bool) (as : List Action) :
    (if b then as else []).filter r.defines = if b then as.filter r.defines else [] := by
  cases b <;> rfl

theorem filter_create : [Action.create].filter r.defines = Feature.createable.actions r := by
  cases hi : r.insertColumns.isEmpty <;> simp [defines, Feature.actions, hi]

theorem filter_write : (Feature.updateable.actions r).filter r.defines =
    Feature.updateable.actions r := by
  refine List.filter_eq_self.mpr fun a ha => ?_
  obtain ⟨c, -, hc⟩ := List.mem_flatMap.mp ha
  obtain ⟨k, -, rfl⟩ := List.mem_map.mp hc
  rfl

theorem filter_read : (Feature.queryable.actions r).filter r.defines =
    Feature.queryable.actions r := by
  refine List.filter_eq_self.mpr fun a ha => ?_
  simp only [Feature.actions, List.mem_cons, List.mem_map] at ha
  rcases ha with rfl | rfl | ⟨c, -, rfl⟩ <;> rfl

theorem actions_of_columns (h : r.columns.isEmpty = false) : r.actions =
    (if r.capabilities.create then [.create] else []) ++
      ((if r.capabilities.update then Feature.updateable.actions r else []) ++
        ((if r.capabilities.delete then Feature.deleteable.actions r else []) ++
          if r.capabilities.query then Feature.queryable.actions r else [])) := by
  rw [actions, h, if_neg Bool.false_ne_true, List.append_assoc, List.append_assoc]
  rfl

/-- The features of a record do what the record does, but for inserts of nothing. -/
theorem actions_features :
    Feature.order.flatMap (fun f => if f.isEnabled r then f.actions r else []) =
      r.actions.filter r.defines := by
  cases hn : r.columns.isEmpty with
  | true => simp [Feature.order, Feature.isEnabled, actions, hn]
  | false =>
    have hd : (Feature.deleteable.actions r).filter r.defines = Feature.deleteable.actions r := rfl
    have hb : Feature.blueprint.actions r = [] := rfl
    rw [actions_of_columns hn]
    simp only [List.filter_append, filter_ite, filter_create, filter_write, hd, filter_read]
    simp [Feature.order, Feature.isEnabled, hn, hb]

theorem definitions_eq_actions {f : Feature} (hf : f ≠ .blueprint) : f.definitions r =
    (f.actions r).map fun a => .method (Naming.identifier (r.methodName a)) := by
  cases f with
  | createable => cases hi : r.insertColumns.isEmpty <;>
      simp [Feature.definitions, Feature.actions, hi, methodName]
  | updateable => simp [Feature.definitions, Feature.actions, methodName, List.map_flatMap,
      Function.comp_def]
  | deleteable => rfl
  | queryable => simp [Feature.definitions, Feature.actions, methodName, Function.comp_def]
  | blueprint => exact absurd rfl hf

/-- The features of a record define its actions in their order, and then its blueprints. -/
theorem definitions_features (r : Record) :
    Feature.order.flatMap (fun f => if f.isEnabled r then f.definitions r else []) =
      r.definitionsOf r.actions ++
        if Feature.blueprint.isEnabled r then
          [.blueprint (r.slotNames.map Naming.identifier ++ r.commonFields)]
        else [] := by
  have hd {f : Feature} (hf : f ≠ .blueprint) := definitions_eq_actions (r := r) hf
  have hb : Feature.blueprint.definitions r =
      [.blueprint (r.slotNames.map Naming.identifier ++ r.commonFields)] := rfl
  have ha : Feature.blueprint.actions r = [] := rfl
  rw [definitionsOf, ← actions_features]
  simp [Feature.order, hd, hb, ha, apply_ite (List.map _)]

end Record

namespace RecordCode

open Arrivals

variable {r : Record} {config : Config}

theorem whole_sequence (hn : failure? (Packet.sequence (scripts r config)) = none) :
    (∀ p ∈ Packet.sequence (scripts r config), p.feature ∈ (scripts r config).map Prod.fst) ∧
    ∀ x ∈ scripts r config, x.2.outcome = .ok () ∧
      ofFeature x.1 (Packet.sequence (scripts r config)) = Packet.ofScript x.1 x.2 := by
  cases Packet.gathered_sequence (nodup_scripts config r) with
  | whole _ origin all => exact ⟨origin, all⟩
  | failed x e first =>
    rw [hn] at first
    cases first

theorem mem_scripts {f : Feature} (hf : f.isEnabled r = true) :
    (f, f.script r config) ∈ scripts r config := by
  refine List.mem_map.mpr ⟨f, List.mem_filter.mpr ⟨?_, hf⟩, rfl⟩
  cases f <;> decide

theorem messages_sequence (hn : failure? (Packet.sequence (scripts r config)) = none)
    (f : Feature) : messages f (Packet.sequence (scripts r config)) =
      if f.isEnabled r then (f.script r config).messages else [] := by
  have hm : messages f (Packet.sequence (scripts r config)) =
      (ofFeature f (Packet.sequence (scripts r config))).filterMap Packet.message? := rfl
  obtain ⟨origin, all⟩ := whole_sequence hn
  rw [hm]
  split
  next hf =>
    rw [(all _ (mem_scripts hf)).2, Packet.ofScript]
    simp [Packet.message?, Function.comp_def]
  next hf =>
    have hs : f ∉ (scripts r config).map Prod.fst := by
      rw [features_scripts]
      simp [hf]
    rw [ofFeature_of_notMem origin hs]
    rfl

/-- Where nothing fails, every feature has sent all that it defines. -/
theorem definitions_sequence (hn : failure? (Packet.sequence (scripts r config)) = none) :
    definitions (Packet.sequence (scripts r config)) = r.definitionsOf r.actions ++
      if Feature.blueprint.isEnabled r then
        [.blueprint (r.slotNames.map Naming.identifier ++ r.commonFields)]
      else [] := by
  have hf (f : Feature) : (messages f (Packet.sequence (scripts r config))).flatMap
      Message.definitions = if f.isEnabled r then f.definitions r else [] := by
    rw [messages_sequence hn]
    split
    next he => exact Feature.definitions_script ((whole_sequence hn).2 _ (mem_scripts he)).1
    next => rfl
  rw [definitions_eq, ← Record.definitions_features, ordered, List.flatMap_assoc]
  simp only [hf]

/-- Code comes of a record only if no producer has failed. -/
theorem failure?_of_ofRecord {code : RecordCode} (h : ofRecord r config = .ok code) :
    failure? (Packet.sequence (scripts r config)) = none := by
  unfold ofRecord at h
  split at h
  next hc =>
    have hs : scripts r config = [] := by
      have he (f : Feature) : f.isEnabled r = false := by
        simp only [Capabilities.isEmpty, Bool.and_eq_true, Bool.not_eq_true'] at hc
        cases f <;> simp [Feature.isEnabled, Capabilities.isEmpty, hc]
      simp [scripts, he]
    rw [hs]
    rfl
  next =>
    unfold ofArrivals at h
    split at h
    · cases h
    · assumption

/-- Names that are written plainly are checked as they are defined. -/
theorem nodup_of_writtenPlainly {d : Declaration} {scope : Scope} {built : Config}
    (h : Record.build d scope built = .ok r) (hp : r.WrittenPlainly) :
    (Record.constructorName :: (r.definitionsOf r.actions).filterMap Definition.method?).Nodup ∧
      (r.slotNames.map Naming.identifier ++ r.commonFields).Nodup := by
  obtain ⟨s, columns, -, -, -, -, -, -, -, hl, -, hm⟩ := Record.build_eq_ok.mp h
  obtain ⟨hs, hc⟩ := Record.checkSlots_eq_ok.mp hl
  have hms := Record.checkMethods_eq_ok.mp hm
  constructor
  · have hd : (r.definitionsOf r.actions).filterMap Definition.method? =
        (r.actions.filter r.defines).map r.methodName := by
      rw [Record.filterMap_definitionsOf]
      refine List.map_congr_left fun a ha => hp.identifier_eq (List.mem_append_left _ ?_)
      exact List.mem_map_of_mem (List.mem_filter.mp ha).1
    rw [hd]
    exact hms.sublist (.cons_cons _ (List.filter_sublist.map _))
  · have he : r.slotNames.map Naming.identifier = r.slotNames :=
      (List.map_congr_left fun n hn => hp.identifier_eq (List.mem_append_right _ hn)).trans
        (List.map_id _)
    rw [he, List.nodup_append]
    exact ⟨hs, r.commonFields_nodup, fun a ha b hb hab =>
      hc a ha (r.commonFields_subset (hab ▸ hb))⟩

/-! ### Code that comes about -/

theorem exists_identifierOf {n : String} (h : Naming.isIdentifier n = true) :
    ∃ i, identifierOf n = .ok i := by
  obtain ⟨i, hi⟩ := Option.isSome_iff_exists.mp h
  exact ⟨i, by rw [identifierOf, hi]⟩

theorem exists_context (h : r.Built) (hn : Naming.isIdentifier r.name = true)
    (hp : (Path.read? config.runtime).isSome = true) :
    ∃ ctx, Context.ofRecord r config = .ok ctx := by
  obtain ⟨p, hp⟩ := Option.isSome_iff_exists.mp hp
  obtain ⟨n, hn⟩ := exists_identifierOf hn
  obtain ⟨s, hs⟩ :=
    exists_identifierOf (h.identifiers r.storeName (by simp [Record.generatedNames]))
  obtain ⟨b, hb⟩ :=
    exists_identifierOf (h.identifiers r.blueprintName (by simp [Record.generatedNames]))
  unfold Context.ofRecord
  rw [hp, hn, hs, hb]
  exact ⟨_, rfl⟩

/-- Where all names that are written are identifiers, code comes of an accepted record; the names
of fields are written where they are read. -/
theorem exists_ofRecord (h : r.Built) (hn : Naming.isIdentifier r.name = true)
    (hf : Feature.queryable.isEnabled r = true → ∀ f ∈ r.fieldNames, Naming.isIdentifier f = true)
    (hp : (Path.read? config.runtime).isSome = true) : ∃ code, ofRecord r config = .ok code := by
  obtain ⟨ctx, hctx⟩ := exists_context h hn hp
  have hr : ctx.record = r := Context.record_eq hctx
  have htotal {f : Feature} (he : f.isEnabled r = true) : (f.produce ctx).Total := by
    by_cases hq : f = .queryable
    · subst hq
      exact Reading.total (hr ▸ h) (hr ▸ hf he)
    · exact Feature.total_produce (hr ▸ h) hq
  have hnone : failure? (Packet.sequence (scripts r config)) = none := by
    cases Packet.gathered_sequence (nodup_scripts config r) with
    | whole none => exact none
    | failed x e _ mem own =>
      obtain ⟨f, hmem, rfl⟩ := List.mem_map.mp mem
      simp [Feature.script, hctx, (htotal (List.mem_filter.mp hmem).2).outcome] at own
  obtain ⟨trait, ht⟩ := exists_identifierOf
    (h.identifiers r.repositoryName (by simp [Record.generatedNames]))
  have hc (operations : List Operation) : ∃ c, Repository.code? ctx operations = .ok c := by
    unfold Repository.code?
    split
    · exact ⟨_, rfl⟩
    · rw [hr, ht]
      exact ⟨_, rfl⟩
  unfold ofRecord
  split
  · exact ⟨_, rfl⟩
  · obtain ⟨c, hc⟩ := hc (operations (Packet.sequence (scripts r config)))
    unfold ofArrivals items
    rw [hnone, hctx]
    simp [hc, bind, Except.bind, pure, Except.pure]

/-! ### Distinct definitions -/

/-- The code of an accepted record defines a method for each action, and the blueprints' type,
under the identifiers that their names are. If these are written plainly, no method is defined
twice or is the constructor, and no blueprint has a field twice. They are whenever the declaration
and its options have no words with blanks, slashes or byte order marks. -/
theorem definitions_distinct {d : Declaration} {scope : Scope} {built : Config}
    (h : Record.build d scope built = .ok r) {code : RecordCode}
    (hc : ofRecord r config = .ok code) :
    let ds := definitions (Packet.sequence (scripts r config))
    ds = ((r.actions.filter r.defines).map fun a =>
        .method (Naming.identifier (r.methodName a))) ++
      (if Feature.blueprint.isEnabled r then
        [.blueprint (r.slotNames.map Naming.identifier ++ r.commonFields)]
      else []) ∧
    (r.WrittenPlainly → (Record.constructorName :: ds.filterMap Definition.method?).Nodup ∧
      ∀ fields, .blueprint fields ∈ ds → fields.Nodup) ∧
    ((∀ w ∈ r.words, Lexer.IsBare w.toList) → r.WrittenPlainly) := by
  intro ds
  have hd : ds = _ := definitions_sequence (failure?_of_ofRecord hc)
  refine ⟨hd, fun hp => ?_, fun hw => Record.identifier?_of_words h hw⟩
  obtain ⟨hm, hf⟩ := nodup_of_writtenPlainly h hp
  rw [hd]
  constructor
  · rw [List.filterMap_append]
    have hb : (if Feature.blueprint.isEnabled r then
        [Definition.blueprint (r.slotNames.map Naming.identifier ++ r.commonFields)]
      else []).filterMap Definition.method? = [] := by
      split <;> rfl
    rwa [hb, List.append_nil]
  · intro fields hmem
    rcases List.mem_append.mp hmem with hmem | hmem
    · simp [Record.definitionsOf] at hmem
    · split at hmem
      · obtain ⟨rfl⟩ : fields = _ := by simpa using hmem
        exact hf
      · cases hmem

theorem definitions_distinct_note :
    let r := note .postgres
    let ds := definitions (Packet.sequence (scripts r {}))
    (∃ code, ofRecord r {} = .ok code) ∧ (∀ w ∈ r.words, Lexer.IsBare w.toList) ∧
      (Record.constructorName :: ds.filterMap Definition.method?).Nodup ∧
      ∀ fields, .blueprint fields ∈ ds → fields.Nodup := by
  intro r ds
  have hw : ∀ w ∈ r.words, Lexer.IsBare w.toList := by decide +kernel
  obtain ⟨code, hc⟩ : ∃ code, ofRecord r {} = .ok code :=
    exists_ofRecord (Record.built_of_build (note_build .postgres)) (by decide +kernel)
      (by decide +kernel) (by decide +kernel)
  obtain ⟨-, hd, hp⟩ := definitions_distinct (note_build .postgres) hc
  exact ⟨⟨code, hc⟩, hw, hd (hp hw)⟩

def postFields : List FieldDeclaration := [⟨"title", namedType "String", ["column=title"]⟩]

/-- Posts whose finders are named like their counters, but for a tab in front. -/
def postDeclaration : Declaration where
  name := "Post"
  visibility := .everyone
  tags := ["storeFindMethodPrefix=%09Count"]
  fields := postFields

def post : Record where
  name := "Post"
  recordName := "Post"
  table := "posts"
  storeName := "PostStore"
  blueprintName := "PostBlueprint"
  repositoryName := "PostRepository"
  defaultLimit := 100
  dialect := .default
  primaryKey := none
  softDelete := none
  parts := { find := "\tCount" }
  capabilities := .all
  columns := [⟨"title", "title", namedType "String", .string, false, false, none, none,
    some "title_like"⟩]
  fieldNames := ["title"]
  visibility := .everyone

theorem post_build : Record.build postDeclaration .empty {} = .ok post := by
  have hs : Record.settings postDeclaration = .ok { parts := { find := "\tCount" } } := by
    decide +kernel
  have hf : Column.ofField {} .empty "Post" { find := "\tCount" } postFields[0] =
      .ok (some post.columns[0]) :=
    Column.ofField_eq_ok (s := { column := some "title" }) (by decide +kernel)
  have hc : Record.columnsFrom {} .empty "Post" { find := "\tCount" } [] [] postFields =
      .ok post.columns := by
    simp only [postFields, post, List.getElem_cons_zero] at hf
    simp [Record.columnsFrom, postFields, hf, Record.insertColumn, post, Record.tableField,
      FieldDeclaration.isTagged, bind, Except.bind]
  have hn : Naming.defaultTable "Post" = "posts" := by decide +kernel
  have hi : post.checkSlots = .ok () ∧ post.checkIdentifiers = .ok () ∧
      post.checkMethods = .ok () := by
    decide +kernel
  have ht : Naming.isSqlName "posts" = true := by decide +kernel
  refine Record.build_eq_ok.mpr ⟨_, _, hs, hc, ?_, ht, ?_, ?_, rfl, hi⟩
  · simp [Record.make, postDeclaration, hn, post, postFields]
  · intro f hf
    cases hf
  · intro k hk
    cases hk

/-- Two names that differ as texts and are the same identifier: the finder of these posts has the
name of their counter. -/
theorem definitions_not_distinct :
    let ds := definitions (Packet.sequence (scripts post {}))
    Record.build postDeclaration .empty {} = .ok post ∧ (∃ code, ofRecord post {} = .ok code) ∧
      ds.filterMap Definition.method? = ["create_posts", "update_post_title", "delete_posts",
        "count_posts", "count_posts", "select_titles"] ∧
      ¬(Record.constructorName :: ds.filterMap Definition.method?).Nodup := by
  intro ds
  obtain ⟨code, hc⟩ : ∃ code, ofRecord post {} = .ok code :=
    exists_ofRecord (Record.built_of_build post_build) (by decide +kernel) (by decide +kernel)
      (by decide +kernel)
  have hm : ds.filterMap Definition.method? = ["create_posts", "update_post_title", "delete_posts",
      "count_posts", "count_posts", "select_titles"] := by
    have hd : ds = _ := definitions_sequence (failure?_of_ofRecord hc)
    rw [hd]
    decide +kernel
  refine ⟨post_build, ⟨code, hc⟩, hm, ?_⟩
  rw [hm]
  decide

end RecordCode
end RecordStore
