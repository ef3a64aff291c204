import RecordStore.Proofs.Generation.Assembly

/-!
What keeps code from coming about for an accepted record. All names that producers write have been
checked but for the record's own and those of fields without columns, so besides these only the path
of the runtime can be at fault, and the failure tells it.
-/
namespace RecordStore

namespace Producer

/-- Whatever has been said before, the producer fails with an error. -/
def Fails {α : Type} (p : Producer α) (e : Error) : Prop :=
  ∀ ms, ∃ ms', p.run.run ms = (.error e, ms')

variable {α β : Type} {e : Error}

theorem Fails.outcome {p : Producer Unit} (h : p.Fails e) : p.script.outcome = .error e := by
  obtain ⟨ms, h⟩ := h []
  simp [script, h]

theorem Fails.bind {p : Producer α} (h : p.Fails e) (f : α → Producer β) :
    Fails (p >>= f) e := by
  intro ms
  obtain ⟨ms', h⟩ := h ms
  refine ⟨ms', ?_⟩
  change (ExceptT.bindCont f (p.run.run ms).1).run (p.run.run ms).2 = _
  rw [h]
  rfl

theorem Total.fails {p : Producer α} {f : α → Producer β} (hp : p.Total)
    (hf : ∀ a, (f a).Fails e) : Fails (p >>= f) e := by
  intro ms
  obtain ⟨a, ms', ha⟩ := hp ms
  obtain ⟨ms'', hb⟩ := hf a ms'
  refine ⟨ms'', ?_⟩
  change (ExceptT.bindCont f (p.run.run ms).1).run (p.run.run ms).2 = _
  rw [ha]
  exact hb

theorem fails_identifier {name : String} (h : Naming.isIdentifier name = false) :
    Fails (identifier name) (.format name) := by
  intro ms
  have hn : identifier? name = none := by
    rw [Naming.isIdentifier] at h
    simpa using h
  refine ⟨ms, ?_⟩
  show (identifierOf name, ms) = _
  simp [identifierOf, hn]

/-- Values are made up to the first that fails. -/
theorem fails_mapM {l : List α} {f : α → Producer β} {bad : α → Bool} {a : α}
    (ha : l.find? bad = some a) (hf : (f a).Fails e)
    (ht : ∀ b ∈ l, bad b = false → (f b).Total) : Fails (l.mapM f) e := by
  induction l with
  | nil => cases ha
  | cons b l ih =>
    rw [List.mapM_cons]
    cases hb : bad b with
    | true =>
      rw [List.find?_cons_of_pos hb] at ha
      cases ha
      exact hf.bind _
    | false =>
      rw [List.find?_cons_of_neg (by simp [hb])] at ha
      have hl := ih ha fun c hc => ht c (List.mem_cons_of_mem b hc)
      exact (ht b List.mem_cons_self hb).fails fun _ => hl.bind _

end Producer

/-- The reader writes all fields, and fails at the first whose name is no identifier. -/
theorem Reading.fails {ctx : Context} {f : String}
    (hf : ctx.record.fieldNames.find? (!Naming.isIdentifier ·) = some f) :
    (Reading.produce ctx).Fails (.format f) := by
  have hfind : (Reading.find ctx).Fails (.format f) := by
    unfold Reading.find
    apply (Producer.total_need _).fails
    intro _
    refine Producer.Fails.bind (Producer.fails_mapM hf ?_ fun g _ hg => ?_) _
    · unfold Reading.fieldInit
      exact (Producer.fails_identifier (by simpa using List.find?_some hf)).bind _
    · unfold Reading.fieldInit
      exact (Producer.total_identifier (by simpa using hg)).bind fun _ => Producer.total_pure _
  unfold Reading.produce
  exact hfind.bind _

/-- What is at fault if no code comes of a record whose features are not all switched off: the path
of the runtime, the record's name, or a field that is to be read. -/
def Record.obstacle? (r : Record) (config : Config) : Option String :=
  if !(Path.read? config.runtime).isSome then some config.runtime
  else if !Naming.isIdentifier r.name then some r.name
  else if Feature.queryable.isEnabled r then r.fieldNames.find? (!Naming.isIdentifier ·)
  else none

namespace RecordCode

open Arrivals

variable {r : Record} {config : Config}

/-- Without a context nothing comes about, whether producers run or not. -/
theorem ofRecord_of_context {e : Error} (hc : r.capabilities.isEmpty = false)
    (h : Context.ofRecord r config = .error e) : ofRecord r config = .error e := by
  have hs {x : Feature × Script} (hx : x ∈ scripts r config) : x.2.outcome = .error e := by
    obtain ⟨f, -, rfl⟩ := List.mem_map.mp hx
    simp [Feature.script, h]
  rw [ofRecord, hc, if_neg Bool.false_ne_true, ofArrivals]
  cases Packet.gathered_sequence (nodup_scripts config r) with
  | whole none =>
    rw [none, h]
    rfl
  | failed x o first mem own =>
    rw [hs mem] at own
    cases own
    rw [first]
    rfl

/-- Code comes about if no name that is written is at fault. -/
theorem exists_ofRecord_of_obstacle (h : r.Built) (hn : r.obstacle? config = none) :
    ∃ code, ofRecord r config = .ok code := by
  unfold Record.obstacle? at hn
  split at hn
  · cases hn
  next hp =>
    split at hn
    · cases hn
    next hi =>
      refine exists_ofRecord h (by simpa using hi) (fun hq f hf => ?_)
        (Option.isSome_iff_ne_none.mpr (by simpa using hp))
      rw [if_pos hq, List.find?_eq_none] at hn
      simpa using hn f hf

/-- If the reader fails, so does the record: no other producer does. -/
theorem ofRecord_of_reading {ctx : Context} {e : Error} (h : r.Built)
    (hc : Context.ofRecord r config = .ok ctx) (hq : Feature.queryable.isEnabled r = true)
    (he : (Reading.produce ctx).Fails e) : ofRecord r config = .error e := by
  have hs : (Feature.queryable.script r config).outcome = .error e := by
    simp [Feature.script, hc, Feature.produce, he.outcome]
  have hf : failure? (Packet.sequence (scripts r config)) = some e := by
    cases Packet.gathered_sequence (nodup_scripts config r) with
    | whole _ _ all =>
      rw [(all _ (mem_scripts hq)).1] at hs
      cases hs
    | failed x o first mem own =>
      rw [first, failAlike config h x mem _ (mem_scripts hq) o e own hs]
  have hn : r.capabilities.isEmpty = false := by
    simp only [Feature.isEnabled, Bool.and_eq_true] at hq
    simp [Capabilities.isEmpty, hq.2]
  rw [ofRecord, hn, if_neg Bool.false_ne_true, ofArrivals, hf]
  rfl

theorem ofRecord_of_obstacle (h : r.Built) (hc : r.capabilities.isEmpty = false) {text : String}
    (ht : r.obstacle? config = some text) : ofRecord r config = .error (.format text) := by
  unfold Record.obstacle? at ht
  split at ht
  next hp =>
    cases ht
    have hn : Path.read? config.runtime = none := by simpa using hp
    refine ofRecord_of_context hc ?_
    rw [Context.ofRecord, hn]
    rfl
  next hp =>
    have hp : (Path.read? config.runtime).isSome = true :=
      Option.isSome_iff_ne_none.mpr (by simpa using hp)
    split at ht
    next hi =>
      cases ht
      obtain ⟨p, hp⟩ := Option.isSome_iff_exists.mp hp
      have hn : identifier? r.name = none := by
        rw [Naming.isIdentifier] at hi
        simpa using hi
      refine ofRecord_of_context hc ?_
      rw [Context.ofRecord, hp, identifierOf, hn]
      rfl
    next hi =>
      split at ht
      next hq =>
        obtain ⟨ctx, hctx⟩ := exists_context h (by simpa using hi) hp
        rw [← Context.record_eq hctx] at ht
        exact ofRecord_of_reading h hctx hq (Reading.fails ht)
      next => cases ht

end RecordCode
end RecordStore
