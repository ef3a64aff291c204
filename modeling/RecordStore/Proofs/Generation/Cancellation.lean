import Mathlib.Data.List.Basic
import Mathlib.Logic.Relation
import RecordStore.Proofs.Generation.Protocol

/-!
What the receiver answers in the end. The flag makes producers fail that have done nothing wrong,
and their failures meet real ones in the same queue; still the first failure to arrive is always
a producer's own, because nobody is refused before it has arrived.
-/
namespace RecordStore.Channel

open Arrivals

variable {capacity : Option Nat} {scripts : List (Feature × Script)} {s t : State}

/-- What can come of a state. -/
abbrev Reaches (capacity : Option Nat) : State → State → Prop :=
  Relation.ReflTransGen (Step capacity)

theorem Reachable.of_reaches (h : Reachable capacity scripts s) (ht : Reaches capacity s t) :
    Reachable capacity scripts t := by
  induction ht with
  | refl => exact h
  | tail _ hst ih => exact ih.next hst

/-! ### The answer -/

theorem failure?_cons (p : Packet) (ps : Arrivals) :
    failure? (p :: ps) = p.failure?.or (failure? ps) := by
  rw [failure?, List.findSome?_cons]
  cases p.failure? <;> rfl

theorem foldl_keep (ps : Arrivals) (kept : Option Error) :
    ps.foldl State.keep kept = kept.or (failure? ps) := by
  induction ps generalizing kept with
  | nil => simp [failure?]
  | cons p rest ih =>
    rw [List.foldl_cons, ih, failure?_cons]
    cases p with
    | message f m => simp [State.keep, Packet.failure?]
    | done f o =>
      cases o with
      | ok u => simp [State.keep, Packet.failure?]
      | error e => cases kept <;> simp [State.keep, Packet.failure?]

/-- The receiver's answer in the end, from what has arrived. -/
def answer (ps : Arrivals) : Except Error Unit :=
  match failure? ps with
  | some e => .error e
  | none => .ok ()

theorem State.drained?_eq_some {result : Except Error Unit} :
    s.drained? = some result ↔ s.isFinal = true ∧ result = answer s.arrivals := by
  rw [drained?, foldl_keep, Option.none_or, answer]
  cases hr : s.raising with
  | true => simp [isFinal, hr]
  | false =>
    cases hq : s.queue with
    | cons p rest => simp [isFinal, hq]
    | nil =>
      simp only [isFinal, hr, hq, Bool.false_eq_true, ↓reduceIte, List.isEmpty_nil, Bool.not_false,
        Bool.true_and]
      split
      next hall =>
        rw [hall]
        cases failure? s.arrivals <;> simp [eq_comm]
      next hall => simp [hall]

theorem answer_eq_ok {ps : Arrivals} : answer ps = .ok () ↔ failure? ps = none := by
  unfold answer
  split <;> simp_all

theorem answer_eq_error {ps : Arrivals} {e : Error} : answer ps = .error e ↔
    ∃ before f after, ps = before ++ .done f (.error e) :: after ∧ failure? before = none := by
  constructor
  · intro h
    unfold answer at h
    split at h
    next e' hf =>
      cases h
      obtain ⟨before, p, after, rfl, hp, hb⟩ := List.findSome?_eq_some_iff.mp hf
      cases p with
      | message f m => cases hp
      | done f o =>
        cases o with
        | ok u => cases hp
        | error e' =>
          cases hp
          exact ⟨before, f, after, rfl, List.findSome?_eq_none_iff.mpr hb⟩
    next => cases h
  · rintro ⟨before, f, after, rfl, hb⟩
    rw [answer, failure?_append, hb, failure?_cons]
    rfl

/-- Nobody can do anything once the receiver has answered. -/
theorem not_step_of_isFinal (h : s.isFinal = true) : ¬ Step capacity s t := by
  obtain ⟨hq, hr, hgone⟩ := State.isFinal_iff.mp h
  intro hst
  cases hst with
  | producer i hi =>
    obtain ⟨x, p, ps, hx, hm, -⟩ := State.advance_eq_some.mp hi
    rw [hgone x (List.mem_of_getElem? hx)] at hm
    cases hm
  | receiver hi =>
    rcases State.receive_eq_some.mp hi with ⟨hr', -⟩ | ⟨-, p, rest, hq', -⟩
    · simp [hr] at hr'
    · simp [hq] at hq'

/-! ### Ends -/

theorem done_notMem_messages {f g : Feature} {o : Except Error Unit} (said : List Message) :
    Packet.done g o ∉ said.map (Packet.message f) := by
  simp

/-- A producer's end is its last packet, and there is no other among its packets. -/
theorem Consistent.done_last (h : Consistent scripts s) {f : Feature} {o : Except Error Unit}
    {before after : Arrivals} (hs : ofFeature f s.sent = before ++ .done f o :: after) :
    after = [] ∧ ∃ said : List Message, before = said.map (.message f) := by
  have hmem : Packet.done f o ∈ s.sent := mem_of_mem_ofFeature (f := f) (by simp [hs])
  obtain ⟨⟨f', sc⟩, hsc, hf⟩ := List.mem_map.mp (h.origin _ hmem)
  obtain rfl : f' = f := hf
  obtain ⟨i, hi⟩ := List.mem_iff_getElem?.mp hsc
  obtain ⟨p, -, hst⟩ := h.stage i _ _ hi
  rw [hs] at hst
  generalize hps : before ++ .done f' o :: after = ps at hst
  have hd : Packet.done f' o ∈ ps := by simp [← hps]
  -- Only a producer that is gone has sent anything but messages.
  cases hst with
  | ready => exact absurd hd (done_notMem_messages _)
  | sending => exact absurd hd (done_notMem_messages _)
  | ending => exact absurd hd (done_notMem_messages _)
  | @gone said o' _ =>
    have hsplit := (List.append_cons_inj_of_notMem (done_notMem_messages said)
      List.not_mem_nil).mp hps.symm
    exact ⟨hsplit.2.2.symm, said, hsplit.1.symm⟩

/-- What a step means for one producer: it has moved, or it has sent nothing. -/
theorem Consistent.sender (h : Consistent scripts s) (hn : (scripts.map Prod.fst).Nodup)
    (hst : Step capacity s t) {i : Nat} {x : Sender} (hx : s.senders[i]? = some x) :
    ∃ p ps, t.senders[i]? = some ⟨x.feature, p⟩ ∧
      ofFeature x.feature t.sent = ofFeature x.feature s.sent ++ ps ∧
      (p = x.phase ∧ ps = [] ∨
        Move x.feature s.cancelled (s.hasRoom capacity) x.phase p ps) := by
  cases hst with
  | producer j hj =>
    obtain ⟨y, q, ps, hy, hm, rfl⟩ := State.advance_eq_some.mp hj
    rw [State.sent_moved, ofFeature_append]
    by_cases hij : j = i
    · subst hij
      obtain rfl : y = x := Option.some.inj (hy.symm.trans hx)
      exact ⟨q, ps, by simp [State.moved, hx], by rw [ofFeature_eq_self hm.feature_eq], .inr hm⟩
    · obtain ⟨sc, hsc, -⟩ := h.script hx
      obtain ⟨sc', hsc', -⟩ := h.script hy
      have hf : y.feature ≠ x.feature := fun he => hij (index_eq hn (he ▸ hsc') hsc)
      have hnil : ofFeature x.feature ps = [] :=
        ofFeature_eq_nil fun z hz => hm.feature_eq z hz ▸ hf
      exact ⟨x.phase, [], by simp [State.moved, hij, hx], by rw [hnil], .inl ⟨rfl, rfl⟩⟩
  | receiver hr =>
    refine ⟨x.phase, [], ?_, ?_, .inl ⟨rfl, rfl⟩⟩
    all_goals rcases State.receive_eq_some.mp hr with ⟨-, rfl⟩ | ⟨-, p, rest, hq, rfl⟩
    · exact hx
    · exact hx
    · rw [List.append_nil]
      rfl
    · simp [State.sent, hq]

theorem Step.cancelled (hst : Step capacity s t) (hc : s.cancelled = true) :
    t.cancelled = true := by
  cases hst with
  | producer i hi =>
    obtain ⟨x, p, ps, -, -, rfl⟩ := State.advance_eq_some.mp hi
    exact hc
  | receiver hr =>
    rcases State.receive_eq_some.mp hr with ⟨-, rfl⟩ | ⟨-, p, rest, -, rfl⟩ <;> trivial

/-- A producer that has a message left while the flag is up, and what it sends from then on. -/
inductive Silenced (f : Feature) (m : Message) (rest : List Message) (o : Except Error Unit) :
    Phase → List Packet → Prop where
  | ready : Silenced f m rest o (.ready (m :: rest) o) []
  | ending : Silenced f m rest o (.ending (.error (.emit .closed))) []
  | gone : Silenced f m rest o .gone [.done f (.error (.emit .closed))]

theorem Silenced.move {f : Feature} {m : Message} {rest : List Message} {o : Except Error Unit}
    {p q : Phase} {ps out : List Packet} {room : Bool} (h : Silenced f m rest o p ps)
    (hm : Move f true room p q out) : Silenced f m rest o q (ps ++ out) := by
  cases h with
  | ready =>
    cases hm with
    | refuse => exact .ending
    | pick _ _ _ flag => cases flag
  | ending =>
    cases hm with
    | close => exact .gone
  | gone => cases hm

theorem Reachable.silenced (h : Reachable capacity scripts s) (hn : (scripts.map Prod.fst).Nodup)
    {i : Nat} {f : Feature} {m : Message} {rest : List Message} {o : Except Error Unit}
    (hc : s.cancelled = true) (hx : s.senders[i]? = some ⟨f, .ready (m :: rest) o⟩)
    (ht : Reaches capacity s t) : t.cancelled = true ∧ ∃ p ps, t.senders[i]? = some ⟨f, p⟩ ∧
      ofFeature f t.sent = ofFeature f s.sent ++ ps ∧ Silenced f m rest o p ps := by
  induction ht with
  | refl => exact ⟨hc, _, [], hx, (List.append_nil _).symm, .ready⟩
  | tail hu hst ih =>
    obtain ⟨hcu, p, ps, hp, hps, hsil⟩ := ih
    refine ⟨hst.cancelled hcu, ?_⟩
    obtain ⟨q, out, hq, hout, hmove⟩ := ((h.of_reaches hu).consistent hn).sender hn hst hp
    refine ⟨q, ps ++ out, hq, by rw [hout, hps, List.append_assoc], ?_⟩
    rcases hmove with ⟨rfl, rfl⟩ | hmove
    · simpa using hsil
    · exact hsil.move (hcu ▸ hmove)

/-! ### The first failure -/

/-- The first failure among some packets is the end of a script that was sent as a whole. -/
def FirstIsOwn (scripts : List (Feature × Script)) (ps : Arrivals) : Prop :=
  ∀ before f e, before ++ [.done f (.error e)] <+: ps → failure? before = none →
    ∃ sc, (f, sc) ∈ scripts ∧ sc.outcome = .error e ∧
      ofFeature f before = sc.messages.map (.message f)

/-- A packet more is the first failure only if it is its producer's own: one that is refused has
seen the flag, and the flag has seen a failure. -/
theorem Consistent.firstIsOwn (h : Consistent scripts s) (hs : FirstIsOwn scripts s.sent)
    {i : Nat} {g : Feature} {p q : Phase} {ps : List Packet} {room : Bool}
    (hx : s.senders[i]? = some ⟨g, p⟩) (hm : Move g s.cancelled room p q ps) :
    FirstIsOwn scripts (s.sent ++ ps) := by
  intro before f e hp hb
  cases hm with
  | finish => exact hs before f e (by simpa using hp) hb
  | refuse => exact hs before f e (by simpa using hp) hb
  | pick => exact hs before f e (by simpa using hp) hb
  | send =>
    rcases List.prefix_concat_iff.mp hp with heq | hp
    · have hlast := (List.append_inj' heq rfl).2
      simp at hlast
    · exact hs before f e hp hb
  | close o =>
    rcases List.prefix_concat_iff.mp hp with heq | hp
    · obtain ⟨rfl, hlast⟩ := List.append_inj' heq rfl
      cases hlast
      obtain ⟨sc, hsc, hst⟩ := h.script hx
      dsimp only at hsc hst
      generalize hsent : ofFeature g s.sent = sent at hst
      cases hst with
      | ending hend =>
        cases hend with
        | own hall ho => exact ⟨sc, List.mem_of_getElem? hsc, ho.symm, by rw [hall]⟩
        | refused hc =>
          have hsome := h.flag_sent hc
          simp [hb] at hsome
    · exact hs before f e hp hb

theorem Reachable.firstIsOwn (h : Reachable capacity scripts s)
    (hn : (scripts.map Prod.fst).Nodup) : FirstIsOwn scripts s.sent := by
  induction h with
  | start =>
    intro before f e hp
    have hlen := hp.length_le
    simp [State.start, State.sent] at hlen
  | next hr hst ih =>
    cases hst with
    | producer i hi =>
      obtain ⟨x, q, ps, hx, hm, rfl⟩ := State.advance_eq_some.mp hi
      rw [State.sent_moved]
      exact (hr.consistent hn).firstIsOwn ih hx hm
    | receiver hi =>
      rcases State.receive_eq_some.mp hi with ⟨-, rfl⟩ | ⟨-, p, rest, hq, rfl⟩
      · exact ih
      · simpa [State.sent, hq] using ih

/-! ### One after another -/

/-- The producers that run when each waits for the one before it, up to the first that fails. -/
def ran : List (Feature × Script) → List (Feature × Script)
  | [] => []
  | x :: rest =>
    x ::
      match x.2.outcome with
      | .ok _ => ran rest
      | .error _ => []

theorem sequence_eq (scripts : List (Feature × Script)) :
    Packet.sequence scripts = (ran scripts).flatMap fun x => Packet.ofScript x.1 x.2 := by
  induction scripts with
  | nil => rfl
  | cons x rest ih =>
    rw [Packet.sequence, ran]
    cases x.2.outcome with
    | ok u => simp [ih]
    | error e => simp

theorem State.moved_moved (i : Nat) (p q : Phase) (ps qs : List Packet) :
    (s.moved i p ps).moved i q qs = s.moved i q (ps ++ qs) := by
  simp [State.moved, List.modify_modify_eq, Function.comp_def]

/-- A producer whose turn it is can send its script. -/
theorem reaches_moved {i : Nat} {f : Feature} {ms : List Message} {o : Except Error Unit}
    (hc : s.cancelled = false) (hx : s.senders[i]? = some ⟨f, .ready ms o⟩) :
    Reaches none s (s.moved i .gone (Packet.ofScript f ⟨ms, o⟩)) := by
  induction ms generalizing s with
  | nil =>
    have hfinish : Step none s (s.moved i (.ending o) []) :=
      .producer i (State.advance_eq_some.mpr ⟨_, _, _, hx, .finish o, rfl⟩)
    have hend : (s.moved i (.ending o) []).senders[i]? = some ⟨f, .ending o⟩ := by
      simp [State.moved, hx]
    have hclose : Step none (s.moved i (.ending o) []) (s.moved i .gone [.done f o]) := by
      refine .producer i (State.advance_eq_some.mpr ⟨_, _, _, hend, .close o rfl, ?_⟩)
      rw [State.moved_moved, List.nil_append]
    exact .head hfinish (.single hclose)
  | cons m ms ih =>
    have hpick : Step none s (s.moved i (.sending m ms o) []) :=
      .producer i (State.advance_eq_some.mpr ⟨_, _, _, hx, .pick m ms o hc, rfl⟩)
    have hsending : (s.moved i (.sending m ms o) []).senders[i]? = some ⟨f, .sending m ms o⟩ := by
      simp [State.moved, hx]
    have hsend : Step none (s.moved i (.sending m ms o) [])
        (s.moved i (.ready ms o) [.message f m]) := by
      refine .producer i (State.advance_eq_some.mpr ⟨_, _, _, hsending, .send m ms o rfl, ?_⟩)
      rw [State.moved_moved, List.nil_append]
    have hrest := ih (s := s.moved i (.ready ms o) [.message f m]) hc (by simp [State.moved, hx])
    rw [State.moved_moved] at hrest
    exact .head hpick (.head hsend hrest)

/-- The receiver can take all that waits. -/
theorem exists_taken (hr : s.raising = false) : ∃ t, Reaches capacity s t ∧ t.queue = [] ∧
    t.raising = false ∧ t.arrivals = s.arrivals ++ s.queue ∧ t.senders = s.senders := by
  induction hq : s.queue generalizing s with
  | nil => exact ⟨s, .refl, hq, hr, (List.append_nil _).symm, rfl⟩
  | cons p rest ih =>
    have htake : Step capacity s _ := Step.receiver
      (State.receive_eq_some.mpr (.inr ⟨hr, p, rest, hq, rfl⟩))
    cases hraise : p.failure?.isSome && s.arrivals.failure?.isNone with
    | false =>
      rw [hraise] at htake
      obtain ⟨t, ht, hempty, hdown, harr, hsend⟩ :=
        ih (s := { s with queue := rest, arrivals := s.arrivals ++ [p], raising := false }) rfl rfl
      exact ⟨t, .head htake ht, hempty, hdown, by simpa using harr, hsend⟩
    | true =>
      rw [hraise] at htake
      have hflag : Step capacity
          { s with queue := rest, arrivals := s.arrivals ++ [p], raising := true } _ :=
        Step.receiver (State.receive_eq_some.mpr (.inl ⟨rfl, rfl⟩))
      obtain ⟨t, ht, hempty, hdown, harr, hsend⟩ :=
        ih (s := { s with
          queue := rest, arrivals := s.arrivals ++ [p], raising := false, cancelled := true })
          rfl rfl
      exact ⟨t, .head htake (.head hflag ht), hempty, hdown, by simpa using harr, hsend⟩

/-- The first `n` producers have had their turn, and the receiver has taken nothing yet. -/
structure AtTurn (scripts : List (Feature × Script)) (n : Nat) (s : State) : Prop where
  senders : ∀ i : Nat, s.senders[i]? = scripts[i]?.map fun x : Feature × Script =>
    Sender.mk x.1 (if i < n then .gone else .ready x.2.messages x.2.outcome)
  queue : s.queue = (scripts.take n).flatMap fun x => Packet.ofScript x.1 x.2
  cancelled : s.cancelled = false
  raising : s.raising = false
  arrivals : s.arrivals = []

theorem exists_atTurn {n : Nat} (hn : n ≤ scripts.length) :
    ∃ s, Reachable none scripts s ∧ AtTurn scripts n s := by
  induction n with
  | zero =>
    refine ⟨.start scripts, .start, fun i => ?_, rfl, rfl, rfl, rfl⟩
    simp [State.start]
  | succ n ih =>
    obtain ⟨s, hs, hturn⟩ := ih (Nat.le_of_succ_le hn)
    have hget : scripts[n]? = some scripts[n] := List.getElem?_eq_getElem hn
    have hx : s.senders[n]? = some ⟨scripts[n].1, .ready scripts[n].2.messages
        scripts[n].2.outcome⟩ := by
      simp [hturn.senders n, hget]
    refine ⟨_, hs.of_reaches (reaches_moved hturn.cancelled hx), fun i => ?_, ?_,
      hturn.cancelled, hturn.raising, hturn.arrivals⟩
    · by_cases hi : n = i
      · subst hi
        simp [State.moved, hx, hget]
      · have hlt : (i < n + 1) = (i < n) := propext (by omega)
        simp only [hlt]
        rw [← hturn.senders i]
        simp [State.moved, hi]
    · rw [List.take_succ_eq_append_getElem hn, List.flatMap_append, ← hturn.queue]
      simp [State.moved]

/-- Producers that run one after another are one of the ways to mix them. -/
theorem exists_sequence (scripts : List (Feature × Script)) :
    ∃ s, Reachable none (ran scripts) s ∧ s.isFinal = true ∧
      s.arrivals = Packet.sequence scripts := by
  obtain ⟨s, hs, hturn⟩ := exists_atTurn (Nat.le_refl (ran scripts).length)
  obtain ⟨t, ht, hq, hr, harr, hsend⟩ : ∃ t, Reaches none s t ∧ _ := exists_taken hturn.raising
  refine ⟨t, hs.of_reaches ht, State.isFinal_iff.mpr ⟨hq, hr, fun x hx => ?_⟩, ?_⟩
  · obtain ⟨i, hi⟩ := List.mem_iff_getElem?.mp hx
    rw [hsend, hturn.senders i] at hi
    obtain ⟨y, hy, rfl⟩ := Option.map_eq_some_iff.mp hi
    have hlt : i < (ran scripts).length := (List.getElem?_eq_some_iff.mp hy).1
    simp [hlt]
  · rw [harr, hturn.arrivals, hturn.queue, List.take_length, List.nil_append, sequence_eq]

/-! ### Answers -/

theorem State.sent_of_isFinal (hf : s.isFinal = true) : s.sent = s.arrivals := by
  simp [State.sent, (State.isFinal_iff.mp hf).1]

/-- An error that the receiver answers with is that of the first failure to arrive, and its
producer has sent its script as if there were no others. -/
theorem Reachable.own_of_answer (h : Reachable capacity scripts s)
    (hn : (scripts.map Prod.fst).Nodup) (hf : s.isFinal = true) {e : Error}
    (he : answer s.arrivals = .error e) : ∃ before f sc after,
      s.arrivals = before ++ .done f (.error e) :: after ∧ failure? before = none ∧
      (f, sc) ∈ scripts ∧ sc.outcome = .error e ∧
      ofFeature f s.arrivals = Packet.ofScript f sc := by
  obtain ⟨before, f, after, heq, hb⟩ := answer_eq_error.mp he
  have hsent := State.sent_of_isFinal hf
  obtain ⟨sc, hsc, ho, hall⟩ := h.firstIsOwn hn before f e
    ⟨after, by rw [hsent, heq, List.append_assoc]; rfl⟩ hb
  have hof : ofFeature f s.sent =
      sc.messages.map (.message f) ++ .done f (.error e) :: ofFeature f after := by
    rw [hsent, heq, ofFeature_append, hall]
    simp [ofFeature, Packet.feature]
  have hlast := ((h.consistent hn).done_last hof).1
  refine ⟨before, f, sc, after, heq, hb, hsc, ho, ?_⟩
  rw [← hsent, hof, hlast, Packet.ofScript, ho]

/-- The receiver is content exactly if every producer has ended well, and then all have done as
they would alone. -/
theorem Reachable.ok_iff (h : Reachable capacity scripts s) (hn : (scripts.map Prod.fst).Nodup)
    (hf : s.isFinal = true) :
    (answer s.arrivals = .ok () ↔ ∀ x ∈ scripts, .done x.1 (.ok ()) ∈ s.arrivals) ∧
    (answer s.arrivals = .ok () ↔ ∀ x ∈ scripts, x.2.outcome = .ok ()) := by
  refine ⟨⟨?done, ?clean⟩, ?own, ?quiet⟩
  case done =>
    intro hok x hx
    cases h.gathered hn hf with
    | failed y e he => simp [answer_eq_ok.mp hok] at he
    | whole _ _ all =>
      obtain ⟨ho, hps⟩ := all x hx
      exact mem_of_mem_ofFeature (f := x.1) (by simp [hps, Packet.ofScript, ho])
  case clean =>
    intro hall
    cases ha : answer s.arrivals with
    | ok u => rfl
    | error e =>
      obtain ⟨_, f, sc, _, -, -, hsc, ho, hps⟩ := h.own_of_answer hn hf ha
      have hmem : Packet.done f (.ok ()) ∈ ofFeature f s.arrivals :=
        List.mem_filter.mpr ⟨hall _ hsc, by simp [Packet.feature]⟩
      simp [hps, Packet.ofScript, ho] at hmem
  case own =>
    intro hok x hx
    cases h.gathered hn hf with
    | failed y e he => simp [answer_eq_ok.mp hok] at he
    | whole _ _ all => exact (all x hx).1
  case quiet =>
    intro hall
    cases h.gathered hn hf with
    | failed y e _ hy he => simp [hall y hy] at he
    | whole hnone => exact answer_eq_ok.mpr hnone

/-- However producers and the receiver take turns: the receiver answers only when nobody is left
that could send, and every producer's end has come last of its packets. It is content exactly if
all producers ended well; else its answer is the first failure to arrive, and that is the own
failure of a producer that sent its whole script, never a refusal. A producer that looks at the
flag while it is up sends nothing more than its end. Producers that run one after another are a
case of it. -/
theorem drained_answer (hn : (scripts.map Prod.fst).Nodup) (h : Reachable capacity scripts s) :
    (∀ result, s.drained? = some result →
      (result = .ok () ↔ ∀ x ∈ scripts, .done x.1 (.ok ()) ∈ s.arrivals) ∧
      (result = .ok () ↔ ∀ x ∈ scripts, x.2.outcome = .ok ()) ∧
      (∀ e, result = .error e → ∃ before f sc after,
        s.arrivals = before ++ .done f (.error e) :: after ∧ failure? before = none ∧
        (f, sc) ∈ scripts ∧ sc.outcome = .error e ∧
        ofFeature f s.arrivals = Packet.ofScript f sc) ∧
      (∀ x ∈ scripts, ∃ (said : List Message) (o : Except Error Unit),
        ofFeature x.1 s.arrivals = said.map (.message x.1) ++ [.done x.1 o]) ∧
      (∀ x ∈ s.senders, x.phase = .gone) ∧ ∀ t, ¬ Step capacity s t) ∧
    (∀ f m rest o, s.cancelled = true → ⟨f, .ready (m :: rest) o⟩ ∈ s.senders →
      ∀ t, Reaches capacity s t → ofFeature f t.sent = ofFeature f s.sent ∨
        ofFeature f t.sent = ofFeature f s.sent ++ [.done f (.error (.emit .closed))]) ∧
    (∀ f o before after, ofFeature f s.sent = before ++ .done f o :: after →
      after = [] ∧ ∃ said : List Message, before = said.map (.message f)) ∧
    ∃ t, Reachable none (ran scripts) t ∧ t.arrivals = Packet.sequence scripts ∧
      t.drained? = some (answer (Packet.sequence scripts)) := by
  refine ⟨?answers, ?silence, ?last, ?sequence⟩
  case answers =>
    intro result hr
    obtain ⟨hf, rfl⟩ := State.drained?_eq_some.mp hr
    obtain ⟨hdone, hown⟩ := h.ok_iff hn hf
    refine ⟨hdone, hown, fun e he => h.own_of_answer hn hf he, fun x hx => ?_,
      (State.isFinal_iff.mp hf).2.2, fun t => not_step_of_isFinal hf⟩
    obtain ⟨said, o, -, hps⟩ := h.ends hn hf hx
    exact ⟨said, o, hps⟩
  case silence =>
    intro f m rest o hc hx t ht
    obtain ⟨i, hi⟩ := List.mem_iff_getElem?.mp hx
    obtain ⟨-, p, ps, -, hps, hsil⟩ := h.silenced hn hc hi ht
    rw [hps]
    cases hsil with
    | ready => exact .inl (List.append_nil _)
    | ending => exact .inl (List.append_nil _)
    | gone => exact .inr rfl
  case last =>
    intro f o before after hs
    exact (h.consistent hn).done_last hs
  case sequence =>
    obtain ⟨t, ht, hf, harr⟩ := exists_sequence scripts
    exact ⟨t, ht, harr, State.drained?_eq_some.mpr ⟨hf, by rw [harr]⟩⟩

/-- An insert that fails after its first message, beside a reader with more to say than the queue
holds: however they are mixed, the insert's failure is the answer. -/
theorem drained_answer_refused :
    let scripts : List (Feature × Script) :=
      [(.createable, ⟨[.needs "A"], .error .parse⟩),
        (.queryable, ⟨[.needs "B", .needs "C"], .ok ()⟩)]
    (scripts.map Prod.fst).Nodup ∧ ∃ s, Reachable (some 1) scripts s ∧
      s.drained? = some (.error .parse) := by
  intro scripts
  have hn : (scripts.map Prod.fst).Nodup := by decide
  have hstart : Reachable (some 1) scripts (.start scripts) := .start
  obtain ⟨s, hs, hf⟩ := hstart.exists_final (by simp)
  have hr : s.drained? = some (answer s.arrivals) := State.drained?_eq_some.mpr ⟨hf, rfl⟩
  obtain ⟨-, hown, herr, -⟩ := (drained_answer hn hs).1 _ hr
  refine ⟨hn, s, hs, ?_⟩
  cases ha : answer s.arrivals with
  | ok u =>
    have hall := hown.mp ha
    simp [scripts] at hall
  | error e =>
    obtain ⟨_, f, sc, _, -, -, hsc, ho, -⟩ := herr e ha
    have he : e = .parse := by
      simp only [scripts, List.mem_cons, Prod.mk.injEq, List.not_mem_nil, or_false] at hsc
      rcases hsc with ⟨-, rfl⟩ | ⟨-, rfl⟩
      · exact (Except.error.inj ho).symm
      · cases ho
    rw [hr, ha, he]

end RecordStore.Channel
