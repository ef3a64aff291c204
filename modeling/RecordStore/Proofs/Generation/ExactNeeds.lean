import RecordStore.Proofs.Generation.Declared
import RecordStore.Proofs.Generation.Failure

/-!
Exactly what the code of a record needs. Producers ask for names each on its own; together they ask
for the names of the columns' types, and for the record's own where its type is written. No other
names are asked for, and every one that is stands in a fragment.
-/
namespace RecordStore

/-! ### Names in types -/

theorem mem_separated {separator item : List Token} {items : List (List Token)} {t : Token}
    (hi : item ∈ items) (ht : t ∈ item) : t ∈ separated separator items := by
  induction items with
  | nil => cases hi
  | cons first rest ih =>
    cases rest with
    | nil =>
      obtain rfl := List.mem_singleton.mp hi
      exact ht
    | cons second rest =>
      show t ∈ first ++ separator ++ separated separator (second :: rest)
      rcases List.mem_cons.mp hi with rfl | hi
      · exact List.mem_append_left _ (List.mem_append_left _ ht)
      · exact List.mem_append_right _ (ih hi)

namespace Ty

variable {n : String}

theorem mem_head_of_mem_headName {rooted : Bool} {ss : List Segment}
    (h : n ∈ headName rooted ss) : ∃ a rest, ss = .mk n a :: rest := by
  cases rooted with
  | true => cases h
  | false =>
    cases ss with
    | nil => cases h
    | cons s rest =>
      obtain ⟨m, a⟩ := s
      have hn : n = m := by
        cases rest <;>
        · simp only [headName] at h
          split at h
          · cases h
          · exact List.mem_singleton.mp h
      exact ⟨a, rest, by rw [hn]⟩

/-- What stands in a segment stands in every path with the segment. -/
theorem mem_qualified_tokens {owner : Ty} {position : Nat} {rooted : Bool} {ss : List Segment}
    {t : Token} {item : List Token} (hi : item ∈ Segment.listTokens ss) (ht : t ∈ item) :
    t ∈ (qualified owner position rooted ss).tokens := by
  rw [tokens]
  rw [← List.take_append_drop position (Segment.listTokens ss), List.mem_append] at hi
  rcases hi with hi | hi
  · have hb : t ∈ separated pathMark ((Segment.listTokens ss).take position) := mem_separated hi ht
    by_cases hz : position = 0
    · subst hz
      cases hi
    · rw [if_neg (by simpa using hz)]
      simp only [List.mem_append]
      exact .inl (.inr (.inl (.inl (.inr hb))))
  · exact List.mem_append_right _ (mem_separated hi ht)

theorem mem_listTokens_of_mem_headName {rooted : Bool} {ss : List Segment}
    (h : n ∈ headName rooted ss) : ∃ item ∈ Segment.listTokens ss, .ident n ∈ item := by
  obtain ⟨a, rest, rfl⟩ := mem_head_of_mem_headName h
  rw [Segment.listTokens, Segment.tokens]
  exact ⟨_, List.mem_cons_self, List.mem_cons_self⟩

mutual

/-- All names that a type needs stand in it. -/
theorem mem_tokens {ty : Ty} (h : n ∈ ty.neededNames) : .ident n ∈ ty.tokens := by
  cases ty with
  | reference l m t =>
    rw [neededNames] at h
    rw [tokens.eq_def]
    exact List.mem_append_right _ (mem_tokens h)
  | parenthesized t =>
    rw [neededNames] at h
    rw [tokens]
    exact List.mem_cons_of_mem _ (List.mem_append_left _ (mem_tokens h))
  | path rooted ss =>
    rw [neededNames, List.mem_append] at h
    obtain ⟨item, hi, hn⟩ := h.elim mem_listTokens_of_mem_headName mem_listTokens
    rw [tokens]
    exact List.mem_append_right _ (mem_separated hi hn)
  | qualified o position rooted ss =>
    rw [neededNames, List.mem_append] at h
    obtain ⟨item, hi, hn⟩ := h.elim mem_listTokens_of_mem_headName mem_listTokens
    exact mem_qualified_tokens hi hn
  | _ => simp [neededNames] at h

theorem mem_listTokens {ss : List Segment} (h : n ∈ segmentNames ss) :
    ∃ item ∈ Segment.listTokens ss, .ident n ∈ item := by
  cases ss with
  | nil => simp [segmentNames] at h
  | cons s ss =>
    obtain ⟨m, a⟩ := s
    rw [Segment.listTokens]
    have hrest (h : n ∈ segmentNames ss) :
        ∃ item ∈ (Segment.mk m a).tokens :: Segment.listTokens ss, .ident n ∈ item := by
      obtain ⟨item, hi, hn⟩ := mem_listTokens h
      exact ⟨item, List.mem_cons_of_mem _ hi, hn⟩
    cases a with
    | angled turbofish as trailing =>
      rw [segmentNames, List.mem_append] at h
      refine h.elim (fun h => ?_) hrest
      obtain ⟨item, hi, hn⟩ := mem_otherTokens h
      refine ⟨_, List.mem_cons_self, ?_⟩
      have hc : .ident n ∈ commaTokens (Argument.lifetimeTokens as ++ Argument.otherTokens as)
          (trailingArgument as trailing) :=
        List.mem_append_left _ (mem_separated (List.mem_append_right _ hi) hn)
      rw [Segment.tokens, Arguments.tokens]
      exact List.mem_cons_of_mem _ (List.mem_append_left _ (List.mem_append_right _ hc))
    | none =>
      rw [segmentNames] at h
      · exact hrest h
      · simp
    | called is trailing out =>
      rw [segmentNames] at h
      · exact hrest h
      · simp

theorem mem_otherTokens {as : List Argument} (h : n ∈ argumentNames as) :
    ∃ item ∈ Argument.otherTokens as, .ident n ∈ item := by
  cases as with
  | nil => simp [argumentNames] at h
  | cons a as =>
    rw [Argument.otherTokens]
    cases a with
    | type t =>
      rw [argumentNames, List.mem_append] at h
      rw [if_neg (by simp [Argument.isLifetime]), Argument.tokens]
      rcases h with h | h
      · exact ⟨_, List.mem_cons_self, mem_tokens h⟩
      · obtain ⟨item, hi, hn⟩ := mem_otherTokens h
        exact ⟨item, List.mem_cons_of_mem _ hi, hn⟩
    | _ =>
      simp only [argumentNames] at h
      obtain ⟨item, hi, hn⟩ := mem_otherTokens h
      split
      · exact ⟨item, hi, hn⟩
      · exact ⟨item, List.mem_cons_of_mem _ hi, hn⟩

end

end Ty

/-! ### Names that are asked for -/

/-- The names that the producer of a feature asks for. -/
def Feature.needed (r : Record) : Feature → List String
  | createable => if r.insertColumns.isEmpty then [] else [r.name]
  | updateable => (r.columns.filter Column.isWritable).flatMap Column.imports
  | deleteable => []
  | queryable => r.name :: r.columns.flatMap Column.imports
  | blueprint => r.columns.flatMap Column.imports

namespace Producer

theorem says_need_needed (names : List String) :
    (need names).Says Message.needed names fun _ => True := by
  have hn : (need names).Says Message.needed _ fun _ => True := says_need names
  rwa [show (names.flatMap fun n => Message.needed (.needs n)) = names from
    List.flatMap_singleton' names] at hn

/-- A method that is made and sent asks for nothing. -/
theorem says_method_needed {make : Producer StoreMethod}
    (h : make.Says Message.needed [] fun _ => True) :
    (make >>= fun m => send (.fragment (.methods [m]))).Says Message.needed [] fun _ => True :=
  h.bind fun _ _ => says_send _

end Producer

section

open Producer

variable (ctx : Context)

theorem Insertion.says_needed :
    (produce ctx).Says Message.needed (Feature.createable.needed ctx.record) fun _ => True := by
  unfold produce Feature.needed
  dsimp only
  split
  · exact says_pure trivial
  · apply (says_need_needed [ctx.record.name]).silent
    intro _ _
    apply (says_each_nil fun c _ => (says_identifier c.name).mono fun _ _ => trivial).bind
    intro accessors _
    apply (says_identifier _).bind
    intro n _
    apply (says_declare _).bind
    intro m _
    exact says_send _

theorem Updating.says_needed :
    (produce ctx).Says Message.needed (Feature.updateable.needed ctx.record) fun _ => True := by
  have hm (c : Column) (a : Assignment) : (method ctx c a).Says Message.needed [] fun _ => True := by
    unfold method
    apply (says_identifier _).bind
    intro n _
    exact (says_declare _).mono fun _ _ => trivial
  have hc (c : Column) : (columnMethods ctx c).Says Message.needed c.imports fun _ => True := by
    unfold columnMethods
    exact (says_need_needed c.imports).silent fun _ _ => says_each_nil fun a _ => hm c a
  unfold produce Feature.needed
  apply (says_each fun c _ => hc c).silent
  intro methods _
  split
  · exact says_pure trivial
  · exact says_send _

theorem Deletion.says_needed :
    (produce ctx).Says Message.needed (Feature.deleteable.needed ctx.record) fun _ => True := by
  unfold produce
  apply (says_identifier _).bind
  intro n _
  apply (says_declare _).bind
  intro m _
  exact says_send _

theorem Reading.says_needed :
    (produce ctx).Says Message.needed (Feature.queryable.needed ctx.record) fun _ => True := by
  have hmethod (label : String) (output : Code) (documentation : String) (body : Code) :
      (method ctx label output documentation body).Says Message.needed [] fun _ => True := by
    unfold method
    apply (says_identifier _).bind
    intro n _
    exact (says_declare _).mono fun _ _ => trivial
  have hfind : (find ctx).Says Message.needed [ctx.record.name] fun _ => True := by
    unfold find
    apply (says_need_needed [ctx.record.name]).silent
    intro _ _
    apply (says_each_nil fun field _ => says_fieldInit ctx field).bind
    intro inits _
    exact says_method_needed (hmethod _ _ _ _)
  have hcount : (count ctx).Says Message.needed [] fun _ => True := by
    unfold count
    exact says_method_needed (hmethod _ _ _ _)
  have hselect (c : Column) : (select ctx c).Says Message.needed c.imports fun _ => True := by
    unfold select
    exact (says_need_needed c.imports).silent fun _ _ => says_method_needed (hmethod _ _ _ _)
  unfold produce
  show Says Message.needed _ ([ctx.record.name] ++ ctx.record.columns.flatMap Column.imports) _
  apply hfind.append
  intro _ _
  apply hcount.bind
  intro _ _
  exact says_forM fun c _ => hselect c

theorem Feature.says_needed (f : Feature) :
    (f.produce ctx).Says Message.needed (f.needed ctx.record) fun _ => True := by
  cases f with
  | createable => exact Insertion.says_needed ctx
  | updateable => exact Updating.says_needed ctx
  | deleteable => exact Deletion.says_needed ctx
  | queryable => exact Reading.says_needed ctx
  | blueprint => exact BlueprintCode.says_needed ctx

/-- The types of the method that inserts records. -/
def Insertion.methodTypes : List Code :=
  [Code.ofText "&" ++ Token.brackets (Code.name ctx.recordType), ctx.result (Code.ofText "i64")]

theorem Insertion.says_types : (produce ctx).Says Message.types
    (if ctx.record.insertColumns.isEmpty then [] else methodTypes ctx) fun _ => True := by
  unfold produce
  dsimp only
  split
  · exact says_pure trivial
  · apply (says_need_nil _ fun _ => rfl).bind
    intro _ _
    apply (says_each_nil fun c _ => (says_identifier c.name).mono fun _ _ => trivial).bind
    intro accessors _
    apply (says_identifier _).bind
    intro n _
    apply (says_declare _).bind
    intro m hm
    have ht : Message.types (.fragment (.methods [m])) = methodTypes ctx := by
      rw [hm]
      rfl
    rw [← ht]
    exact says_send _

variable {ctx} in
theorem Insertion.produce_of_insertColumns (h : ctx.record.insertColumns = []) :
    produce ctx = pure () := by
  unfold produce
  dsimp only
  rw [h]
  rfl

end

namespace Arrivals

theorem mem_needs_iff {ps : Arrivals} {n : String} :
    n ∈ needs ps ↔ ∃ f, n ∈ (messages f ps).flatMap Message.needed := by
  constructor
  · intro h
    rw [needs, Ty.mem_distinctSorted, List.mem_filterMap] at h
    obtain ⟨p, hp, h⟩ := h
    cases p with
    | done f o => cases h
    | message f m =>
      cases m with
      | fragment g => cases h
      | method label o => cases h
      | needs o =>
        cases h
        refine ⟨f, List.mem_flatMap.mpr ⟨.needs n, ?_, List.mem_singleton_self n⟩⟩
        exact List.mem_filterMap.mpr ⟨_, List.mem_filter.mpr ⟨hp, decide_eq_true rfl⟩, rfl⟩
  · rintro ⟨f, h⟩
    exact RecordCode.mem_needs h

end Arrivals

/-! ### Code of a record -/

/-- Whether the code of a record writes the record's own type: where records are read, and where
they are inserted. -/
def Record.WritesItself (r : Record) : Prop :=
  r.capabilities.query = true ∨
    r.capabilities.create = true ∧ ∃ c ∈ r.columns, c.autoIncrement = false

theorem Record.insertColumns_ne_nil {r : Record} :
    r.insertColumns ≠ [] ↔ ∃ c ∈ r.columns, c.autoIncrement = false := by
  rw [Ne, insertColumns_eq_nil]
  simp

namespace Feature

variable {r : Record} {f : Feature} {n : String}

theorem columns_of_isEnabled (h : f.isEnabled r = true) : r.columns ≠ [] := by
  intro hc
  unfold isEnabled at h
  rw [hc] at h
  cases h

/-- Together the features of a record ask for the names of its columns' types and, where its own
type is written, for its own. -/
theorem exists_needed (h : r.capabilities.isEmpty = false) :
    (∃ f : Feature, f.isEnabled r = true ∧ n ∈ f.needed r) ↔ r.columns ≠ [] ∧
      ((∃ c ∈ r.columns, n ∈ c.imports) ∨ n = r.name ∧ r.WritesItself) := by
  constructor
  · rintro ⟨f, hf, hn⟩
    refine ⟨columns_of_isEnabled hf, ?_⟩
    have hc := (Bool.and_eq_true_iff.mp hf).2
    cases f with
    | createable =>
      rw [needed] at hn
      split at hn
      · cases hn
      next hi =>
        have hi : r.insertColumns ≠ [] := fun he => hi (List.isEmpty_iff.mpr he)
        exact .inr ⟨List.mem_singleton.mp hn, .inr ⟨hc, Record.insertColumns_ne_nil.mp hi⟩⟩
    | updateable =>
      obtain ⟨c, hm, hn⟩ := List.mem_flatMap.mp hn
      exact .inl ⟨c, (List.mem_filter.mp hm).1, hn⟩
    | deleteable => cases hn
    | queryable =>
      rcases List.mem_cons.mp hn with rfl | hn
      · exact .inr ⟨rfl, .inl hc⟩
      · exact .inl (List.mem_flatMap.mp hn)
    | blueprint => exact .inl (List.mem_flatMap.mp hn)
  · rintro ⟨hc, hn⟩
    have hcols : (!r.columns.isEmpty) = true := by simpa using hc
    rcases hn with hn | ⟨rfl, hq | ⟨hcreate, hi⟩⟩
    · refine ⟨.blueprint, ?_, List.mem_flatMap.mpr hn⟩
      simp only [isEnabled, hcols, h, Bool.not_false, Bool.and_self]
    · refine ⟨.queryable, ?_, List.mem_cons_self⟩
      simp only [isEnabled, hcols, hq, Bool.and_self]
    · refine ⟨.createable, ?_, ?_⟩
      · simp only [isEnabled, hcols, hcreate, Bool.and_self]
      · have hi : ¬r.insertColumns.isEmpty = true := fun he =>
          Record.insertColumns_ne_nil.mpr hi (List.isEmpty_iff.mp he)
        rw [needed, if_neg hi]
        exact List.mem_singleton_self _

end Feature

namespace RecordCode

open Arrivals

variable {r : Record} {config : Config} {ctx : Context} {code : RecordCode} {n : String}

/-- The items of a record in its context, whatever the context is. -/
def itemsIn (ctx : Context) : Except Error (List Code) :=
  items ctx (Packet.sequence
    ((Feature.order.filter (·.isEnabled ctx.record)).map fun f => (f, (f.produce ctx).script)))

theorem itemsIn_eq (h : Context.ofRecord r config = .ok ctx) :
    itemsIn ctx = items ctx (Packet.sequence (scripts r config)) := by
  have hs (f : Feature) : f.script r config = (f.produce ctx).script := by rw [Feature.script, h]
  rw [itemsIn, Context.record_eq h, scripts]
  simp only [hs]

/-- Only readers and inserts look at the record's own type. -/
theorem produce_recordType {f : Feature} (hq : f ≠ .queryable)
    (hc : f = .createable → ctx.record.insertColumns = []) (n : String) :
    f.produce { ctx with recordType := n } = f.produce ctx := by
  cases f with
  | queryable => exact absurd rfl hq
  | createable =>
    show Insertion.produce { ctx with recordType := n } = Insertion.produce ctx
    rw [Insertion.produce_of_insertColumns (hc rfl), Insertion.produce_of_insertColumns]
    exact hc rfl
  | updateable => rfl
  | deleteable => rfl
  | blueprint => rfl

theorem itemsIn_recordType (hw : ctx.record.columns = [] ∨ ¬ctx.record.WritesItself) (n : String) :
    itemsIn { ctx with recordType := n } = itemsIn ctx := by
  have hp {f : Feature} (hf : f.isEnabled ctx.record = true) :
      f.produce { ctx with recordType := n } = f.produce ctx := by
    unfold Feature.isEnabled at hf
    obtain ⟨hcols, hf⟩ := Bool.and_eq_true_iff.mp hf
    have hw : ¬ctx.record.WritesItself := hw.resolve_left fun hn => by
      rw [hn] at hcols
      cases hcols
    refine produce_recordType (fun hq => hw (.inl ?_)) (fun hc => ?_) n
    · subst hq
      exact hf
    · subst hc
      refine Record.insertColumns_eq_nil.mpr fun c hmem => ?_
      by_contra ha
      exact hw (.inr ⟨hf, c, hmem, Bool.eq_false_iff.mpr ha⟩)
  -- So all scripts stay as they are, and nothing around the fragments is written with that type.
  have hs : (Feature.order.filter (·.isEnabled ctx.record)).map
      (fun f => (f, (f.produce { ctx with recordType := n }).script)) =
        (Feature.order.filter (·.isEnabled ctx.record)).map fun f => (f, (f.produce ctx).script) :=
    List.map_congr_left fun f hf => by rw [hp (List.mem_filter.mp hf).2]
  show items ctx (Packet.sequence ((Feature.order.filter (·.isEnabled ctx.record)).map
    fun f => (f, (f.produce { ctx with recordType := n }).script))) = itemsIn ctx
  rw [hs]
  rfl

/-- How the code of a record asks for names: for those that it writes, and for no others. -/
structure NeedsWritten (r : Record) (config : Config) (code : RecordCode) : Prop where
  nodup : code.needs.Nodup
  /-- They are those of the columns' types, and the record's own where its type is written. -/
  mem : ∀ n, n ∈ code.needs ↔ r.capabilities.isEmpty = false ∧ r.columns ≠ [] ∧
    ((∃ c ∈ r.columns, n ∈ c.imports) ∨ n = r.name ∧ r.WritesItself)
  /-- All names that the type of a column needs stand in a fragment. -/
  columns : r.capabilities.isEmpty = false → ∀ c ∈ r.columns, ∀ n ∈ c.imports,
    ∃ g ∈ fragments (Packet.sequence (scripts r config)), .ident n ∈ g.types.flatten
  /-- So does the record's own type, under the identifier that its name is. -/
  own : r.columns ≠ [] → r.WritesItself → ∃ t, identifierOf r.name = .ok t ∧
    ∃ g ∈ fragments (Packet.sequence (scripts r config)), .ident t ∈ g.types.flatten
  /-- Where that is not asked for, the code is the same whatever the type is. -/
  rest : r.columns = [] ∨ ¬r.WritesItself → ∀ ctx, Context.ofRecord r config = .ok ctx → ∀ t,
    itemsIn { ctx with recordType := t } = items ctx (Packet.sequence (scripts r config))

/-- What arrives without failures asks for what the features ask for. -/
theorem mem_needs_sequence (hn : failure? (Packet.sequence (scripts r config)) = none)
    (hc : Context.ofRecord r config = .ok ctx) :
    n ∈ Arrivals.needs (Packet.sequence (scripts r config)) ↔
      ∃ f : Feature, f.isEnabled r = true ∧ n ∈ f.needed r := by
  rw [mem_needs_iff]
  refine exists_congr fun f => ?_
  cases hf : f.isEnabled r with
  | true =>
    rw [flatMap_messages hn hc hf (Feature.says_needed ctx f), Context.record_eq hc]
    exact (and_iff_right rfl).symm
  | false =>
    rw [messages_sequence hn, if_neg (by simp [hf])]
    simp

theorem mem_vectorResult {t : Token} {item : Code} (h : t ∈ item) :
    t ∈ Reading.vectorResult ctx item := by
  unfold Reading.vectorResult Reading.vector Context.result
  simp only [List.mem_append]
  tauto

/-- Where a record's own type is written, a reader or an insert writes it. -/
theorem exists_own (hn : failure? (Packet.sequence (scripts r config)) = none)
    (hc : Context.ofRecord r config = .ok ctx) (hcols : r.columns ≠ []) (hw : r.WritesItself) :
    ∃ g ∈ fragments (Packet.sequence (scripts r config)),
      .ident ctx.recordType ∈ g.types.flatten := by
  have hr : ctx.record = r := Context.record_eq hc
  have hcols : (!r.columns.isEmpty) = true := by simpa using hcols
  rcases hw with hq | ⟨hcreate, hi⟩
  · have ht : Reading.vectorResult ctx (Code.name ctx.recordType) ∈
        (messages .queryable (Packet.sequence (scripts r config))).flatMap Message.types := by
      rw [flatMap_messages hn hc (by simp only [Feature.isEnabled, hcols, hq, Bool.and_self])
        (Reading.says_types ctx)]
      exact List.mem_append_left _ (List.mem_cons_of_mem _ List.mem_cons_self)
    obtain ⟨g, hg, ht⟩ := mem_types ht
    exact ⟨g, hg, List.mem_flatten.mpr ⟨_, ht, mem_vectorResult (List.mem_singleton_self _)⟩⟩
  · have hi : ¬r.insertColumns.isEmpty = true := fun he =>
      Record.insertColumns_ne_nil.mpr hi (List.isEmpty_iff.mp he)
    have ht : Code.ofText "&" ++ Token.brackets (Code.name ctx.recordType) ∈
        (messages .createable (Packet.sequence (scripts r config))).flatMap Message.types := by
      rw [flatMap_messages hn hc (by simp only [Feature.isEnabled, hcols, hcreate, Bool.and_self])
        (Insertion.says_types ctx), hr, if_neg hi]
      exact List.mem_cons_self
    obtain ⟨g, hg, ht⟩ := mem_types ht
    refine ⟨g, hg, List.mem_flatten.mpr ⟨_, ht, List.mem_append_right _ ?_⟩⟩
    exact List.mem_cons_of_mem _ List.mem_cons_self

/-- The type of a column stands in each of its slots, so the names that it needs do. -/
theorem exists_slotType {c : Column} (hn : n ∈ c.imports) :
    ∃ t ∈ c.slotTypes, .ident n ∈ t := by
  have ht : .ident n ∈ c.ty.tokens := Ty.mem_tokens (Ty.mem_distinctSorted.mp hn)
  refine ⟨_, List.mem_append_left _ List.mem_cons_self, ?_⟩
  split
  · unfold BlueprintCode.optionalVector
    exact List.mem_append_left _ (List.mem_append_right _ ht)
  · unfold BlueprintCode.vector
    exact List.mem_append_left _ (List.mem_append_right _ ht)

theorem needsWritten_of_ofRecord (h : ofRecord r config = .ok code) :
    code.NeedsWritten r config := by
  have hn := failure?_of_ofRecord h
  have hrest (hw : r.columns = [] ∨ ¬r.WritesItself) (ctx : Context)
      (hc : Context.ofRecord r config = .ok ctx) (t : String) :
      itemsIn { ctx with recordType := t } = items ctx (Packet.sequence (scripts r config)) := by
    rw [← itemsIn_eq hc]
    rw [← Context.record_eq hc] at hw
    exact itemsIn_recordType hw t
  rcases ofRecord_eq_ok h with ⟨he, rfl⟩ | ⟨he, ctx, is, hctx, -, rfl⟩
  · have hw : ¬r.WritesItself := by
      simp only [Capabilities.isEmpty, Bool.and_eq_true, Bool.not_eq_true'] at he
      rintro (hq | ⟨hc, -⟩)
      · rw [he.1.1.1] at hq
        cases hq
      · rw [he.1.1.2] at hc
        cases hc
    refine ⟨List.nodup_nil, fun n => ?_, fun hne => ?_, fun _ hr => absurd hr hw, hrest⟩
    · simp [he]
    · rw [he] at hne
      cases hne
  · refine ⟨Ty.nodup_distinctSorted _, fun n => ?_, fun _ c hc n hm => ?_, fun hcols hw => ?_, hrest⟩
    · rw [mem_needs_sequence hn hctx, Feature.exists_needed he]
      exact (and_iff_right he).symm
    · obtain ⟨t, ht, hm⟩ := exists_slotType hm
      obtain ⟨g, hg, ht⟩ := (keeps_of_ofRecord h (by simp) hc).slots t ht
      exact ⟨g, hg, List.mem_flatten.mpr ⟨t, ht, hm⟩⟩
    · exact ⟨ctx.recordType, (Context.takenFrom hctx).recordType, exists_own hn hctx hcols hw⟩

/-- Code comes of an accepted record unless a name is at fault. It needs the names of the columns'
types and, where records are read or inserted, the record's own; all of them stand in its fragments,
and no other names are needed. -/
theorem needs_exact {d : Declaration} {scope : Scope} {built : Config}
    (h : Record.build d scope built = .ok r) (config : Config) :
    ((∃ code, ofRecord r config = .ok code) ↔
      r.capabilities.isEmpty = true ∨ r.obstacle? config = none) ∧
    ∀ code, ofRecord r config = .ok code → code.NeedsWritten r config := by
  have hb := Record.built_of_build h
  refine ⟨⟨fun ⟨code, hcode⟩ => ?_, fun ho => ?_⟩, fun code hcode => needsWritten_of_ofRecord hcode⟩
  · cases hc : r.capabilities.isEmpty with
    | true => exact .inl rfl
    | false =>
      cases ho : r.obstacle? config with
      | none => exact .inr rfl
      | some text =>
        rw [ofRecord_of_obstacle hb hc ho] at hcode
        cases hcode
  · rcases ho with hc | ho
    · exact ⟨_, by rw [ofRecord, if_pos hc]⟩
    · exact exists_ofRecord_of_obstacle hb ho

/-- The code of notes needs their own name, and that of the time when they were deleted. -/
theorem needs_exact_note : ∃ code, ofRecord (note .postgres) {} = .ok code ∧
    "Note" ∈ code.needs ∧ "NaiveDateTime" ∈ code.needs ∧ "String" ∉ code.needs := by
  have ho : (note .postgres).obstacle? {} = none := by decide +kernel
  obtain ⟨hiff, hneeds⟩ := needs_exact (note_build .postgres) {}
  obtain ⟨code, hcode⟩ := hiff.mpr (.inr ho)
  have hmem := (hneeds code hcode).mem
  have hgone : "NaiveDateTime" ∈ noteColumns[4].imports := by decide +kernel
  have htext : ∀ c ∈ noteColumns, "String" ∉ c.imports := by decide +kernel
  have hc : noteColumns ≠ [] := List.cons_ne_nil _ _
  refine ⟨code, hcode, (hmem _).mpr ⟨rfl, hc, .inr ⟨rfl, .inl rfl⟩⟩,
    (hmem _).mpr ⟨rfl, hc, .inl ⟨_, List.getElem_mem _, hgone⟩⟩, fun hs => ?_⟩
  obtain ⟨-, -, ⟨c, hm, hs⟩ | ⟨hs, -⟩⟩ := (hmem _).mp hs
  · exact htext c hm hs
  · exact absurd hs (by decide +kernel)

end RecordCode
end RecordStore
