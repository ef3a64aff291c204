import RecordStore.Generation.Packet
import RecordStore.Proofs.Schema.DistinctNames

/-!
Arrivals mean the same when they differ only in how packets of different features are mixed.
-/
namespace RecordStore

namespace Arrivals

/-- The packets of one feature. -/
def ofFeature (f : Feature) (ps : Arrivals) : Arrivals := ps.filter (·.feature = f)

@[simp]
theorem ofFeature_append (f : Feature) (a b : Arrivals) :
    ofFeature f (a ++ b) = ofFeature f a ++ ofFeature f b := List.filter_append ..

theorem mem_of_mem_ofFeature {f : Feature} {ps : Arrivals} {p : Packet} (h : p ∈ ofFeature f ps) :
    p ∈ ps := (List.mem_filter.mp h).1

theorem ofFeature_eq_self {f : Feature} {ps : Arrivals} (h : ∀ p ∈ ps, p.feature = f) :
    ofFeature f ps = ps :=
  List.filter_eq_self.mpr fun p hp => by simpa using h p hp

theorem ofFeature_eq_nil {f : Feature} {ps : Arrivals} (h : ∀ p ∈ ps, p.feature ≠ f) :
    ofFeature f ps = [] :=
  List.filter_eq_nil_iff.mpr fun p hp => by simpa using h p hp

theorem ofFeature_of_notMem {f : Feature} {ps : Arrivals} {fs : List Feature}
    (h : ∀ p ∈ ps, p.feature ∈ fs) (hf : f ∉ fs) : ofFeature f ps = [] := by
  apply ofFeature_eq_nil
  rintro p hp rfl
  exact hf (h p hp)

@[simp]
theorem failure?_append (a b : Arrivals) : failure? (a ++ b) = (failure? a).or (failure? b) :=
  List.findSome?_append

/-- Every feature's packets arrived in the same order. -/
def Similar (a b : Arrivals) : Prop := ∀ f, ofFeature f a = ofFeature f b

namespace Similar

variable {a b : Arrivals} (h : Similar a b)
include h

theorem ordered_eq : ordered a = ordered b := by
  have hm (f : Feature) : messages f a = messages f b :=
    congrArg (List.filterMap Packet.message?) (h f)
  unfold ordered
  simp only [hm]

theorem fragments_eq : fragments a = fragments b := by
  unfold fragments
  rw [h.ordered_eq]

theorem declared_eq : declared a = declared b := by
  unfold declared
  rw [h.ordered_eq]

theorem operations_eq : operations a = operations b := by
  unfold operations
  rw [h.declared_eq]

/-- Packets can be counted feature by feature. -/
theorem perm : a.Perm b := by
  classical
  refine List.perm_iff_count.mpr fun p => ?_
  have hc (ps : Arrivals) : (ofFeature p.feature ps).count p = ps.count p := by
    unfold ofFeature
    rw [List.count_filter (by simp)]
  rw [← hc a, ← hc b, h p.feature]

theorem needs_eq : needs a = needs b := Ty.distinctSorted_perm (h.perm.filterMap _)

end Similar

/-- What arrives from scripts: either nothing failed and every script is there as a whole, or the
first failure is how one of the scripts ends by itself. -/
inductive Gathered (scripts : List (Feature × Script)) (ps : Arrivals) : Prop where
  | whole (none : failure? ps = none) (origin : ∀ p ∈ ps, p.feature ∈ scripts.map Prod.fst)
      (all : ∀ x ∈ scripts, x.2.outcome = .ok () ∧ ofFeature x.1 ps = Packet.ofScript x.1 x.2)
  | failed (x : Feature × Script) (e : Error) (first : failure? ps = some e) (mem : x ∈ scripts)
      (own : x.2.outcome = .error e)

/-- Scripts that fail, fail alike. -/
def FailAlike (scripts : List (Feature × Script)) : Prop :=
  ∀ x ∈ scripts, ∀ y ∈ scripts, ∀ e e', x.2.outcome = .error e → y.2.outcome = .error e' → e = e'

variable {scripts : List (Feature × Script)} {a b : Arrivals}

theorem Gathered.failure?_eq (ha : Gathered scripts a) (hb : Gathered scripts b)
    (h : FailAlike scripts) : failure? a = failure? b := by
  cases ha with
  | whole hn _ hall =>
    cases hb with
    | whole hn' => rw [hn, hn']
    | failed x e _ hx he => simp [(hall x hx).1] at he
  | failed x e hf hx he =>
    cases hb with
    | whole _ _ hall => simp [(hall x hx).1] at he
    | failed y e' hf' hy he' => rw [hf, hf', h x hx y hy e e' he he']

theorem Gathered.similar (ha : Gathered scripts a) (hb : Gathered scripts b)
    (hn : failure? a = none) : Similar a b := by
  intro f
  cases ha with
  | failed x e hf => simp [hn] at hf
  | whole _ ha hall =>
    cases hb with
    | failed x e _ hx he => simp [(hall x hx).1] at he
    | whole _ hb hall' =>
      by_cases hf : f ∈ scripts.map Prod.fst
      · obtain ⟨x, hx, rfl⟩ := List.mem_map.mp hf
        rw [(hall x hx).2, (hall' x hx).2]
      · rw [ofFeature_of_notMem ha hf, ofFeature_of_notMem hb hf]

end Arrivals

namespace Packet

open Arrivals

theorem feature_of_mem_ofScript {f : Feature} {s : Script} {p : Packet} (h : p ∈ ofScript f s) :
    p.feature = f := by
  unfold ofScript at h
  rcases List.mem_append.mp h with h | h
  · obtain ⟨m, -, rfl⟩ := List.mem_map.mp h
    rfl
  · rw [List.mem_singleton.mp h]
    rfl

/-- Messages are no failures. -/
theorem failure?_messages (f : Feature) (ms : List Message) :
    Arrivals.failure? (ms.map (message f)) = none := by
  induction ms with
  | nil => rfl
  | cons m rest ih => exact ih

theorem failure?_ofScript (f : Feature) (s : Script) :
    Arrivals.failure? (ofScript f s) = (done f s.outcome).failure? := by
  unfold ofScript
  rw [failure?_append, failure?_messages]
  cases h : (done f s.outcome).failure? <;> simp [Arrivals.failure?, h]

/-- Producers that run one after another. -/
theorem gathered_sequence {scripts : List (Feature × Script)} (h : (scripts.map Prod.fst).Nodup) :
    Gathered scripts (sequence scripts) := by
  induction scripts with
  | nil => exact .whole rfl nofun nofun
  | cons x rest ih =>
    obtain ⟨f, s⟩ := x
    obtain ⟨hf, hr⟩ := List.nodup_cons.mp h
    have hs := failure?_ofScript f s
    cases ho : s.outcome with
    | error e =>
      refine .failed (f, s) e ?_ List.mem_cons_self ho
      simp [sequence, hs, ho, failure?]
    | ok u =>
      have hq : sequence ((f, s) :: rest) = ofScript f s ++ sequence rest := by simp [sequence, ho]
      have hn : Arrivals.failure? (ofScript f s) = none := by simp [hs, ho, failure?]
      rw [hq]
      cases ih hr with
      | failed y e hfirst hy he =>
        exact .failed y e (by simp [hn, hfirst]) (List.mem_cons_of_mem _ hy) he
      | whole hnone horigin hall =>
        refine .whole (by simp [hn, hnone]) ?origin ?all
        case origin =>
          intro p hp
          rcases List.mem_append.mp hp with hp | hp
          · simp [feature_of_mem_ofScript hp]
          · exact List.mem_cons_of_mem _ (horigin p hp)
        case all =>
          intro y hy
          rw [ofFeature_append]
          rcases List.mem_cons.mp hy with rfl | hy
          · refine ⟨ho, ?_⟩
            rw [ofFeature_eq_self fun p hp => feature_of_mem_ofScript hp,
              ofFeature_of_notMem horigin hf, List.append_nil]
          · have hne : f ≠ y.1 := by
              intro e
              exact hf (List.mem_map.mpr ⟨y, hy, e.symm⟩)
            rw [ofFeature_eq_nil fun p hp => feature_of_mem_ofScript hp ▸ hne, List.nil_append]
            exact hall y hy

end Packet
end RecordStore
