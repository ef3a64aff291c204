import RecordStore.Generation.RecordCode
import RecordStore.Proofs.Generation.Arrivals
import RecordStore.Proofs.Schema.Built

/-!
Which producers of an accepted record can fail: all of them, and then alike, when the names that
they share are not well formed, and otherwise only the one that reads.
-/
namespace RecordStore

namespace Producer

/-- Whatever has been said before, the producer does not fail. -/
def Total {α : Type} (p : Producer α) : Prop := ∀ ms, ∃ a ms', p.run.run ms = (.ok a, ms')

variable {α β : Type}

theorem Total.outcome {p : Producer Unit} (h : p.Total) : p.script.outcome = .ok () := by
  obtain ⟨a, ms, h⟩ := h []
  simp [script, h]

theorem total_pure (a : α) : Total (pure a) := fun ms => ⟨a, ms, rfl⟩

theorem Total.bind {p : Producer α} {f : α → Producer β} (hp : p.Total) (hf : ∀ a, (f a).Total) :
    Total (p >>= f) := by
  intro ms
  obtain ⟨a, ms', ha⟩ := hp ms
  obtain ⟨b, ms'', hb⟩ := hf a ms'
  refine ⟨b, ms'', ?_⟩
  change (ExceptT.bindCont f (p.run.run ms).1).run (p.run.run ms).2 = _
  rw [ha]
  exact hb

theorem total_send (m : Message) : Total (send m) := fun ms => ⟨(), ms ++ [m], rfl⟩

theorem total_identifier {name : String} (h : Naming.isIdentifier name = true) :
    Total (identifier name) := by
  obtain ⟨n, hn⟩ := Option.isSome_iff_exists.mp h
  intro ms
  refine ⟨n, ms, ?_⟩
  show (identifierOf name, ms) = _
  simp [identifierOf, hn]

theorem total_declare (m : StoreMethod) : Total (declare m) :=
  (total_send _).bind fun _ => total_pure m

theorem total_forM {l : List α} {f : α → Producer Unit} (h : ∀ a ∈ l, (f a).Total) :
    Total (l.forM f) := by
  induction l with
  | nil => exact total_pure ()
  | cons a rest ih =>
    show (f a >>= fun _ => rest.forM f).Total
    exact (h a List.mem_cons_self).bind fun _ => ih fun b hb => h b (List.mem_cons_of_mem a hb)

theorem total_mapM {l : List α} {f : α → Producer β} (h : ∀ a ∈ l, (f a).Total) :
    Total (l.mapM f) := by
  induction l with
  | nil => exact total_pure []
  | cons a rest ih =>
    rw [List.mapM_cons]
    have hr := ih fun b hb => h b (List.mem_cons_of_mem a hb)
    exact (h a List.mem_cons_self).bind fun _ => hr.bind fun _ => total_pure _

theorem total_need (names : List String) : Total (need names) :=
  total_forM fun _ _ => total_send _

end Producer

/-! ### Names of an accepted record -/

namespace Record.Built

variable {r : Record} (h : r.Built)
include h

theorem isIdentifier_create : Naming.isIdentifier r.createMethod = true :=
  h.identifiers _ (by simp [generatedNames])

theorem isIdentifier_delete : Naming.isIdentifier r.deleteMethod = true :=
  h.identifiers _ (by simp [generatedNames])

theorem isIdentifier_column {c : Column} (hc : c ∈ r.columns) {n : String}
    (hn : n ∈ c.slots ++ r.selectMethod c :: r.writeMethods c) : Naming.isIdentifier n = true :=
  h.identifiers n (List.mem_append_right _ (List.mem_flatMap.mpr ⟨c, hc, hn⟩))

theorem isIdentifier_slot {c : Column} (hc : c ∈ r.columns) {n : String} (hn : n ∈ c.slots) :
    Naming.isIdentifier n = true :=
  h.isIdentifier_column hc (List.mem_append_left _ hn)

theorem isIdentifier_write {c : Column} (hc : c ∈ r.columns) {a : Assignment}
    (ha : a ∈ Assignment.all c) : Naming.isIdentifier (r.writeMethod c a) = true := by
  apply h.isIdentifier_column hc
  have hw : r.writeMethod c a ∈ r.writeMethods c := List.mem_map_of_mem ha
  simp [hw]

end Record.Built

/-! ### Producers that do not fail -/

section Totality

open Producer

variable {ctx : Context} (h : ctx.record.Built)
include h

theorem Insertion.total : (Insertion.produce ctx).Total := by
  unfold Insertion.produce
  dsimp only
  split
  · exact total_pure ()
  apply (total_need _).bind
  intro _
  apply Total.bind
  · apply total_mapM
    intro c hc
    have hmem : c ∈ ctx.record.columns := Record.mem_columns_of_mem_insertColumns hc
    exact total_identifier (h.isIdentifier_slot hmem (by simp [Column.slots]))
  intro accessors
  apply (total_identifier h.isIdentifier_create).bind
  intro n
  apply (total_declare _).bind
  intro m
  exact total_send _

theorem Updating.total : (Updating.produce ctx).Total := by
  have hm (c : Column) (hc : c ∈ ctx.record.columns) : (Updating.columnMethods ctx c).Total := by
    unfold Updating.columnMethods
    apply (total_need _).bind
    intro _
    apply total_mapM
    intro a ha
    unfold Updating.method
    exact (total_identifier (h.isIdentifier_write hc ha)).bind fun _ => total_declare _
  unfold Updating.produce
  apply Total.bind
  · apply total_mapM
    intro c hc
    exact hm c (List.mem_filter.mp hc).1
  intro methods
  split
  · exact total_pure ()
  · exact total_send _

theorem Deletion.total : (Deletion.produce ctx).Total := by
  unfold Deletion.produce
  apply (total_identifier h.isIdentifier_delete).bind
  intro n
  apply (total_declare _).bind
  intro m
  exact total_send _

theorem BlueprintCode.total_columnSlots {c : Column} (hc : c ∈ ctx.record.columns) :
    (BlueprintCode.columnSlots ctx c).Total := by
  have hs {n : String} (hn : n ∈ c.slots) : (identifier n).Total :=
    total_identifier (h.isIdentifier_slot hc hn)
  unfold BlueprintCode.columnSlots
  apply (hs (by simp [Column.slots])).bind
  intro exact
  apply Total.bind
  · apply total_mapM
    intro n hn
    exact (hs (by simp [Column.slots, hn])).bind fun _ => total_pure _
  intro range
  apply Total.bind
  · apply total_mapM
    intro n hn
    exact (hs (by simp [Column.slots, hn])).bind fun _ => total_pure _
  intro like
  exact total_pure _

theorem BlueprintCode.total : (BlueprintCode.produce ctx).Total := by
  unfold BlueprintCode.produce
  apply Total.bind
  · apply total_mapM
    intro c hc
    exact (total_need _).bind fun _ => BlueprintCode.total_columnSlots h hc
  intro slots
  exact total_send _

/-- Reading writes all fields, columns or not. -/
theorem Reading.total (hf : ∀ f ∈ ctx.record.fieldNames, Naming.isIdentifier f = true) :
    (Reading.produce ctx).Total := by
  have hm {label : String} (hl : Naming.isIdentifier label = true) (output : Code)
      (documentation : String) (body : Code) :
      (Reading.method ctx label output documentation body).Total := by
    unfold Reading.method
    exact (total_identifier hl).bind fun _ => total_declare _
  have hfind : (Reading.find ctx).Total := by
    unfold Reading.find
    apply (total_need _).bind
    intro _
    apply Total.bind
    · apply total_mapM
      intro f hmem
      unfold Reading.fieldInit
      exact (total_identifier (hf f hmem)).bind fun _ => total_pure _
    intro inits
    apply (hm (h.identifiers _ (by simp [Record.generatedNames])) _ _ _).bind
    intro m
    exact total_send _
  have hcount : (Reading.count ctx).Total := by
    unfold Reading.count
    apply (hm (h.identifiers _ (by simp [Record.generatedNames])) _ _ _).bind
    intro m
    exact total_send _
  have hselect (c : Column) (hc : c ∈ ctx.record.columns) : (Reading.select ctx c).Total := by
    unfold Reading.select
    apply (total_need _).bind
    intro _
    apply (hm (h.isIdentifier_column hc (by simp)) _ _ _).bind
    intro m
    exact total_send _
  unfold Reading.produce
  exact hfind.bind fun _ => hcount.bind fun _ => total_forM hselect

/-- Fields that are no columns need not have names of identifiers, and only reading writes them. -/
theorem Feature.total_produce {f : Feature} (hf : f ≠ .queryable) : (f.produce ctx).Total := by
  cases f with
  | createable => exact Insertion.total h
  | updateable => exact Updating.total h
  | deleteable => exact Deletion.total h
  | queryable => exact absurd rfl hf
  | blueprint => exact BlueprintCode.total h

end Totality

namespace Context

/-- What a context takes over from its record and from the configuration. All names are written as
the identifiers that they are. -/
structure TakenFrom (r : Record) (config : Config) (ctx : Context) : Prop where
  record : ctx.record = r
  runtime : ∃ p, Path.read? config.runtime = some p ∧ ctx.runtime = p.tokens
  visibility : ctx.visibility = Visibility.everyone.tokens ∨ ctx.visibility = r.visibility.tokens
  recordType : identifierOf r.name = .ok ctx.recordType
  storeType : identifierOf r.storeName = .ok ctx.storeType
  blueprintType : identifierOf r.blueprintName = .ok ctx.blueprintType

variable {r : Record} {config : Config} {ctx : Context}

theorem takenFrom (h : ofRecord r config = .ok ctx) : ctx.TakenFrom r config := by
  unfold ofRecord at h
  dsimp only at h
  split at h
  next p hp =>
    obtain ⟨runtime, ⟨⟩, h⟩ := bind_eq_ok.mp h
    obtain ⟨recordType, hr, h⟩ := bind_eq_ok.mp h
    obtain ⟨storeType, hs, h⟩ := bind_eq_ok.mp h
    obtain ⟨blueprintType, hb, h⟩ := bind_eq_ok.mp h
    cases h
    refine ⟨rfl, ⟨p, hp, rfl⟩, ?_, hr, hs, hb⟩
    cases config.access with
    | everyone => exact .inl rfl
    | inherited => exact .inr rfl
  · cases h

theorem record_eq (h : ofRecord r config = .ok ctx) : ctx.record = r := (takenFrom h).record

end Context

namespace RecordCode

variable {r : Record} (config : Config)

theorem features_scripts (r : Record) :
    (scripts r config).map Prod.fst = Feature.order.filter (·.isEnabled r) := by
  simp [scripts, Function.comp_def]

theorem nodup_scripts (r : Record) : ((scripts r config).map Prod.fst).Nodup := by
  rw [features_scripts]
  have ho : Feature.order.Nodup := by decide
  exact ho.filter _

/-- Either no producer gets its context, or only the one that reads can fail. -/
theorem failAlike (h : r.Built) : Arrivals.FailAlike (scripts r config) := by
  have hscript {x : Feature × Script} (hx : x ∈ scripts r config) : x.2 = x.1.script r config := by
    obtain ⟨f, -, rfl⟩ := List.mem_map.mp hx
    rfl
  intro x hx y hy e e' he he'
  rw [hscript hx] at he
  rw [hscript hy] at he'
  unfold Feature.script at he he'
  cases hc : Context.ofRecord r config with
  | error e =>
    rw [hc] at he he'
    cases he
    cases he'
    rfl
  | ok ctx =>
    rw [hc] at he he'
    have hb : ctx.record.Built := Context.record_eq hc ▸ h
    have hq {f : Feature} {e : Error} (he : (f.produce ctx).script.outcome = .error e) :
        f = .queryable := by
      apply Classical.byContradiction
      intro hf
      rw [(Feature.total_produce hb hf).outcome] at he
      cases he
    have hxq := hq he
    have hyq := hq he'
    rw [hxq] at he
    rw [hyq, he] at he'
    cases he'
    rfl

end RecordCode
end RecordStore
