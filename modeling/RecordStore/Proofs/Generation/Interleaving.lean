import RecordStore.Proofs.Generation.Producers
import RecordStore.Proofs.Generation.Protocol

/-!
The code of a record does not depend on how its producers take turns.
-/
namespace RecordStore.RecordCode

open Channel Arrivals

/-- What can become of a record whose producers run side by side, once a run has come to its
end. -/
inductive Concurrent (r : Record) (config : Config) : Except Error RecordCode → Prop where
  | disabled (off : r.capabilities.isEmpty = true) : Concurrent r config (.ok ⟨r.name, none, []⟩)
  | drained {s : State} (run : r.capabilities.isEmpty = false)
      (reached : Reachable (some Channel.capacity) (scripts r config) s)
      (final : s.isFinal = true) : Concurrent r config (ofArrivals r config s.arrivals)

variable {r : Record}

theorem items_similar (ctx : Context) {a b : Arrivals} (h : Similar a b) :
    items ctx a = items ctx b := by
  unfold items
  rw [h.operations_eq, h.fragments_eq]

/-- Of what arrives only the first failure matters, or the order for each feature. -/
theorem ofArrivals_congr (config : Config) {a b : Arrivals} (hf : failure? a = failure? b)
    (hs : failure? a = none → Similar a b) : ofArrivals r config a = ofArrivals r config b := by
  unfold ofArrivals
  rw [← hf]
  cases h : failure? a with
  | some e => rfl
  | none =>
    have hab := hs h
    simp only [items_similar _ hab, hab.needs_eq]

theorem gathered_sequence (r : Record) (config : Config) :
    Gathered (scripts r config) (Packet.sequence (scripts r config)) :=
  Packet.gathered_sequence (nodup_scripts config r)

theorem ofArrivals_gathered (h : r.Built) {config : Config} {ps : Arrivals}
    (hp : Gathered (scripts r config) ps) :
    ofArrivals r config ps = ofArrivals r config (Packet.sequence (scripts r config)) :=
  ofArrivals_congr config (hp.failure?_eq (gathered_sequence r config) (failAlike config h))
    fun hn => hp.similar (gathered_sequence r config) hn

theorem capacity_pos (n : Nat) (h : some Channel.capacity = some n) : 0 < n := by
  cases h
  decide

theorem concurrent_iff (h : r.Built) (config : Config) (result : Except Error RecordCode) :
    Concurrent r config result ↔ result = ofRecord r config := by
  unfold ofRecord
  constructor
  · intro hc
    cases hc with
    | disabled off => simp [off]
    | drained run reached final =>
      simp only [run, Bool.false_eq_true, ↓reduceIte]
      exact ofArrivals_gathered h (reached.gathered (nodup_scripts config r) final)
  · rintro rfl
    cases hr : r.capabilities.isEmpty with
    | true => exact .disabled hr
    | false =>
      have hstart : Reachable (some Channel.capacity) (scripts r config) _ := .start
      obtain ⟨s, hs, hf⟩ := hstart.exists_final capacity_pos
      simp only [Bool.false_eq_true, ↓reduceIte]
      rw [← ofArrivals_gathered h (hs.gathered (nodup_scripts config r) hf)]
      exact .drained hr hs hf

/-- However the producers of an accepted record and the receiver take turns, they are not stuck
before every producer's end has been taken from the queue, they come to an end, and the code or
the error is that of producers that run one after another, as is the table of methods. -/
theorem interleavings_agree {d : Declaration} {scope : Scope} {built : Config}
    (h : Record.build d scope built = .ok r) (config : Config) :
    (∀ s, Reachable (some Channel.capacity) (scripts r config) s →
      (∀ t, ¬ Step (some Channel.capacity) s t) →
        s.queue = [] ∧ ∀ f ∈ Feature.order.filter (·.isEnabled r), ∃ o, .done f o ∈ s.arrivals) ∧
    (∀ run : Nat → State, run 0 = .start (scripts r config) →
      ¬ ∀ n, Step (some Channel.capacity) (run n) (run (n + 1))) ∧
    (∀ result, Concurrent r config result ↔ result = ofRecord r config) ∧
    ∀ s, Reachable (some Channel.capacity) (scripts r config) s → s.isFinal = true →
      failure? s.arrivals = failure? (Packet.sequence (scripts r config)) ∧
      (failure? s.arrivals = none → firstOfEach (declared s.arrivals) =
        firstOfEach (declared (Packet.sequence (scripts r config)))) := by
  have hb := Record.built_of_build h
  have hn := nodup_scripts config r
  refine ⟨?stuck, ?endless, concurrent_iff hb config, ?tables⟩
  case stuck =>
    intro s hs hstuck
    have hf : s.isFinal = true := by
      apply Classical.byContradiction
      intro hf
      obtain ⟨t, ht⟩ := exists_step capacity_pos (by simpa using hf)
      exact hstuck t ht
    refine ⟨(State.isFinal_iff.mp hf).1, fun f hmem => ?_⟩
    rw [← features_scripts config r] at hmem
    obtain ⟨x, hx, rfl⟩ := List.mem_map.mp hmem
    exact hs.done_mem hn hf hx
  case endless =>
    intro run _
    exact not_forall_step run
  case tables =>
    intro s hs hf
    have hg := hs.gathered hn hf
    have hq := gathered_sequence r config
    refine ⟨hg.failure?_eq hq (failAlike config hb), fun hnone => ?_⟩
    rw [(hg.similar hq hnone).declared_eq]

/-- All producers run for notes. -/
theorem interleavings_agree_note :
    Record.build (noteDeclaration .postgres) .empty {} = .ok (note .postgres) ∧
      (scripts (note .postgres) {}).map Prod.fst = Feature.order ∧
      ∀ result, Concurrent (note .postgres) {} result ↔ result = ofRecord (note .postgres) {} := by
  obtain ⟨-, -, hc, -⟩ := interleavings_agree (note_build .postgres) {}
  refine ⟨note_build .postgres, ?_, hc⟩
  rw [features_scripts]
  decide

end RecordStore.RecordCode
