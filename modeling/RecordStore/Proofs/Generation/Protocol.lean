import RecordStore.Generation.Channel
import RecordStore.Proofs.Generation.Arrivals

/-!
Producers and the receiver around their queue: somebody can always go on until all is done, nobody
goes on forever, and whatever the order of their steps, the arrivals in the end are gathered from
the same scripts.
-/
namespace RecordStore.Channel

open Arrivals

variable {capacity : Option Nat} {scripts : List (Feature × Script)} {s t : State}

/-! ### Steps -/

/-- What the producer of a feature can do, with the packets that it sends. -/
inductive Move (f : Feature) (cancelled room : Bool) : Phase → Phase → List Packet → Prop where
  | finish (o : Except Error Unit) : Move f cancelled room (.ready [] o) (.ending o) []
  | refuse (m : Message) (rest : List Message) (o : Except Error Unit) (flag : cancelled = true) :
      Move f cancelled room (.ready (m :: rest) o) (.ending (.error (.emit .closed))) []
  | pick (m : Message) (rest : List Message) (o : Except Error Unit) (flag : cancelled = false) :
      Move f cancelled room (.ready (m :: rest) o) (.sending m rest o) []
  | send (m : Message) (rest : List Message) (o : Except Error Unit) (fits : room = true) :
      Move f cancelled room (.sending m rest o) (.ready rest o) [.message f m]
  | close (o : Except Error Unit) (fits : room = true) :
      Move f cancelled room (.ending o) .gone [.done f o]

/-- A producer has moved on and sent some packets. -/
def State.moved (s : State) (i : Nat) (p : Phase) (ps : List Packet) : State :=
  { s with
    senders := s.senders.modify i fun x => { x with phase := p }
    queue := s.queue ++ ps }

theorem State.moved_nil (i : Nat) (p : Phase) : s.moved i p [] = s.setPhase i p := by
  simp [State.moved, State.setPhase]

theorem State.moved_singleton (i : Nat) (p : Phase) (x : Packet) :
    s.moved i p [x] = (s.push x).setPhase i p := rfl

/-- Producers that have to wait or are gone cannot move. -/
theorem State.advance_eq_some {i : Nat} :
    s.advance capacity i = some t ↔ ∃ x p ps, s.senders[i]? = some x ∧
      Move x.feature s.cancelled (s.hasRoom capacity) x.phase p ps ∧ s.moved i p ps = t := by
  unfold State.advance
  cases hx : s.senders[i]? with
  | none => simp
  | some x =>
    obtain ⟨f, p⟩ := x
    constructor
    · intro h
      refine ⟨⟨f, p⟩, ?_⟩
      cases p with
      | ready rest o =>
        cases rest with
        | nil =>
          cases h
          exact ⟨_, _, rfl, .finish o, State.moved_nil i _⟩
        | cons m rest =>
          dsimp only at h
          split at h
          next hc =>
            cases h
            exact ⟨_, _, rfl, .refuse m rest o hc, State.moved_nil i _⟩
          next hc =>
            cases h
            exact ⟨_, _, rfl, .pick m rest o (by simpa using hc), State.moved_nil i _⟩
      | sending m rest o =>
        dsimp only at h
        split at h
        next hr =>
          cases h
          exact ⟨_, _, rfl, .send m rest o hr, rfl⟩
        next => cases h
      | ending o =>
        dsimp only at h
        split at h
        next hr =>
          cases h
          exact ⟨_, _, rfl, .close o hr, rfl⟩
        next => cases h
      | gone => cases h
    · rintro ⟨x, q, ps, hq, hm, rfl⟩
      cases hq
      cases hm with
      | finish => simp [State.moved_nil]
      | refuse _ _ _ hc => simp [hc, State.moved_nil]
      | pick _ _ _ hc => simp [hc, State.moved_nil]
      | send _ _ _ hr => simp [hr, State.moved_singleton]
      | close _ hr => simp [hr, State.moved_singleton]

theorem State.receive_eq_some :
    s.receive = some t ↔
      (s.raising = true ∧ { s with raising := false, cancelled := true } = t) ∨
      (s.raising = false ∧ ∃ p rest, s.queue = p :: rest ∧
        { s with
          queue := rest
          arrivals := s.arrivals ++ [p]
          raising := p.failure?.isSome && s.arrivals.failure?.isNone } = t) := by
  unfold State.receive
  by_cases hr : s.raising = true
  · simp [hr]
  cases hq : s.queue with
  | nil => simp [hr]
  | cons p rest =>
    simp only [hr, Bool.false_eq_true, ↓reduceIte, false_and, false_or, true_and, Option.some.injEq]
    constructor
    · rintro rfl
      exact ⟨p, rest, rfl, rfl⟩
    · rintro ⟨_, _, ⟨⟩, rfl⟩
      rfl

/-! ### Progress -/

/-- A producer that is not gone can move while there is room. -/
theorem exists_move {f : Feature} {p : Phase} (c : Bool) (h : p ≠ .gone) :
    ∃ q ps, Move f c true p q ps := by
  cases p with
  | ready rest o =>
    cases rest with
    | nil => exact ⟨_, _, .finish o⟩
    | cons m rest =>
      cases c with
      | true => exact ⟨_, _, .refuse m rest o rfl⟩
      | false => exact ⟨_, _, .pick m rest o rfl⟩
  | sending m rest o => exact ⟨_, _, .send m rest o rfl⟩
  | ending o => exact ⟨_, _, .close o rfl⟩
  | gone => exact absurd rfl h

theorem State.isFinal_iff :
    s.isFinal = true ↔ s.queue = [] ∧ s.raising = false ∧ ∀ x ∈ s.senders, x.phase = .gone := by
  unfold State.isFinal
  simp only [Bool.and_eq_true, List.isEmpty_iff, Bool.not_eq_true', List.all_eq_true, and_assoc]
  refine and_congr_right fun _ => and_congr_right fun _ => forall₂_congr fun x _ => ?_
  cases x.phase <;> simp

/-- The receiver empties the queue, and then producers have room. -/
theorem exists_step (hc : ∀ n, capacity = some n → 0 < n) (h : s.isFinal = false) :
    ∃ t, Step capacity s t := by
  by_cases hr : s.raising = true
  · exact ⟨_, .receiver (State.receive_eq_some.mpr (.inl ⟨hr, rfl⟩))⟩
  have hr : s.raising = false := by simpa using hr
  cases hq : s.queue with
  | cons p rest => exact ⟨_, .receiver (State.receive_eq_some.mpr (.inr ⟨hr, p, rest, hq, rfl⟩))⟩
  | nil =>
    have hgone : ¬ ∀ x ∈ s.senders, x.phase = .gone := by
      intro hall
      rw [State.isFinal_iff.mpr ⟨hq, hr, hall⟩] at h
      cases h
    obtain ⟨x, hx, hp⟩ : ∃ x ∈ s.senders, x.phase ≠ .gone := by simpa using hgone
    obtain ⟨i, hi⟩ := List.mem_iff_getElem?.mp hx
    have hroom : s.hasRoom capacity = true := by
      cases capacity with
      | none => rfl
      | some n => simp [State.hasRoom, hq, hc n rfl]
    obtain ⟨p, ps, hm⟩ := exists_move (f := x.feature) s.cancelled hp
    exact ⟨_, .producer i (State.advance_eq_some.mpr ⟨x, p, ps, hi, hroom ▸ hm, rfl⟩)⟩

/-! ### Termination -/

/-- How many steps a producer's phase is good for, those of the receiver with its packets
included. -/
def Phase.work : Phase → Nat
  | .ready rest _ => 4 * rest.length + 4
  | .sending _ rest _ => 4 * rest.length + 7
  | .ending _ => 3
  | .gone => 0

/-- The work of all producers. -/
def totalWork (senders : List Sender) : Nat := senders.foldr (fun x n => x.phase.work + n) 0

/-- How many steps a state can still lead to. -/
def State.work (s : State) : Nat := totalWork s.senders + 2 * s.queue.length + s.raising.toNat

theorem Move.work_lt {f : Feature} {c room : Bool} {p q : Phase} {ps : List Packet}
    (h : Move f c room p q ps) : q.work + 2 * ps.length < p.work := by
  cases h <;> simp only [Phase.work, List.length_nil, List.length_cons] <;> omega

theorem totalWork_modify {senders : List Sender} {i : Nat} {x : Sender} (p : Phase)
    (h : senders[i]? = some x) :
    totalWork (senders.modify i fun x => { x with phase := p }) + x.phase.work =
      totalWork senders + p.work := by
  unfold totalWork
  induction senders generalizing i with
  | nil => cases h
  | cons y rest ih =>
    cases i with
    | zero =>
      cases h
      simp only [List.modify_zero_cons, List.foldr_cons]
      omega
    | succ i =>
      have hi := ih h
      simp only [List.modify_succ_cons, List.foldr_cons]
      omega

theorem Step.work_lt (h : Step capacity s t) : t.work < s.work := by
  unfold State.work
  cases h with
  | producer i h =>
    obtain ⟨x, p, ps, hx, hm, rfl⟩ := State.advance_eq_some.mp h
    have hs := totalWork_modify p hx
    have hw := hm.work_lt
    simp only [State.moved, List.length_append]
    omega
  | receiver h =>
    rcases State.receive_eq_some.mp h with ⟨hr, rfl⟩ | ⟨hr, p, rest, hq, rfl⟩
    · simp [hr]
    · have hb := Bool.toNat_le (p.failure?.isSome && s.arrivals.failure?.isNone)
      simp only [hq, hr, List.length_cons, Bool.toNat_false]
      omega

/-- No run goes on forever. -/
theorem not_forall_step (run : Nat → State) : ¬ ∀ n, Step capacity (run n) (run (n + 1)) := by
  intro h
  have hn (n : Nat) : (run n).work + n ≤ (run 0).work := by
    induction n with
    | zero => exact Nat.le_refl _
    | succ n ih =>
      have hw := (h n).work_lt
      omega
  have hlast := hn ((run 0).work + 1)
  omega

/-- Some run comes to its end. -/
theorem Reachable.exists_final (hc : ∀ n, capacity = some n → 0 < n)
    (h : Reachable capacity scripts s) : ∃ t, Reachable capacity scripts t ∧ t.isFinal = true := by
  induction hw : s.work using Nat.strongRecOn generalizing s with
  | ind n ih =>
    by_cases hf : s.isFinal = true
    · exact ⟨s, h, hf⟩
    · obtain ⟨t, ht⟩ := exists_step hc (by simpa using hf)
      exact ih t.work (hw ▸ ht.work_lt) (h.next ht) rfl

/-! ### What arrives -/

/-- How a script may end once some of its messages are out: with the last one, as it would alone,
or with a refusal while the flag is up. -/
inductive Ends (cancelled : Bool) (sc : Script) (said : List Message) (o : Except Error Unit) :
    Prop where
  | own (all : said = sc.messages) (outcome : o = sc.outcome)
  | refused (flag : cancelled = true) (part : said <+: sc.messages)
      (outcome : o = .error (.emit .closed))

/-- How far a producer is with its script, and what it has sent by then. -/
inductive Stage (cancelled : Bool) (f : Feature) (sc : Script) : Phase → List Packet → Prop where
  | ready {said rest : List Message} (h : said ++ rest = sc.messages) :
      Stage cancelled f sc (.ready rest sc.outcome) (said.map (.message f))
  | sending {said rest : List Message} {m : Message} (h : said ++ m :: rest = sc.messages) :
      Stage cancelled f sc (.sending m rest sc.outcome) (said.map (.message f))
  | ending {said : List Message} {o : Except Error Unit} (h : Ends cancelled sc said o) :
      Stage cancelled f sc (.ending o) (said.map (.message f))
  | gone {said : List Message} {o : Except Error Unit} (h : Ends cancelled sc said o) :
      Stage cancelled f sc .gone (said.map (.message f) ++ [.done f o])

theorem Stage.move {f : Feature} {sc : Script} {c room : Bool} {p q : Phase} {ps out : List Packet}
    (h : Stage c f sc p ps) (hm : Move f c room p q out) : Stage c f sc q (ps ++ out) := by
  cases hm with
  | finish o =>
    cases h with
    | ready h =>
      rw [List.append_nil] at h ⊢
      exact .ending (.own h rfl)
  | refuse m rest o hc =>
    cases h with
    | ready h =>
      rw [List.append_nil]
      exact .ending (.refused hc ⟨_, h⟩ rfl)
  | pick m rest o hc =>
    cases h with
    | ready h =>
      rw [List.append_nil]
      exact .sending h
  | send m rest o =>
    cases h with
    | @sending said _ _ h =>
      have hs : (said ++ [m]) ++ rest = sc.messages := by simp [h]
      have hr : Stage c f sc _ _ := .ready hs
      simpa using hr
  | close o =>
    cases h with
    | ending h => exact .gone h

/-- Refusals that were allowed stay so when the flag goes up. -/
theorem Stage.raise {f : Feature} {sc : Script} {c : Bool} {p : Phase} {ps : List Packet}
    (h : Stage c f sc p ps) : Stage true f sc p ps := by
  have he {said : List Message} {o : Except Error Unit} (h : Ends c sc said o) :
      Ends true sc said o := by
    cases h with
    | own hs ho => exact .own hs ho
    | refused _ hs ho => exact .refused rfl hs ho
  cases h with
  | ready h => exact .ready h
  | sending h => exact .sending h
  | ending h => exact .ending (he h)
  | gone h => exact .gone (he h)

theorem Move.feature_eq {f : Feature} {c room : Bool} {p q : Phase} {ps : List Packet}
    (h : Move f c room p q ps) : ∀ x ∈ ps, x.feature = f := by
  cases h <;> simp [Packet.feature]

/-- Only an end tells of a failure. -/
theorem Move.eq_ending {f : Feature} {c room : Bool} {p q : Phase} {ps : List Packet}
    (h : Move f c room p q ps) {e : Error} (he : failure? ps = some e) :
    p = .ending (.error e) := by
  cases h with
  | close o =>
    cases o with
    | ok u => simp [failure?, Packet.failure?] at he
    | error e' =>
      simp only [failure?, Packet.failure?, List.findSome?_cons, Option.some.injEq] at he
      rw [he]
  | send => simp [failure?, Packet.failure?] at he
  | _ => cases he

/-- All packets sent so far, taken or not. -/
def State.sent (s : State) : Arrivals := s.arrivals ++ s.queue

/-- What holds in every state of a run. -/
structure Consistent (scripts : List (Feature × Script)) (s : State) : Prop where
  length : s.senders.length = scripts.length
  stage : ∀ (i : Nat) (f : Feature) (sc : Script), scripts[i]? = some (f, sc) →
    ∃ p, s.senders[i]? = some ⟨f, p⟩ ∧ Stage s.cancelled f sc p (ofFeature f s.sent)
  origin : ∀ p ∈ s.sent, p.feature ∈ scripts.map Prod.fst
  /-- Nobody is refused before a failure has arrived. -/
  flag : s.cancelled = true ∨ s.raising = true → (failure? s.arrivals).isSome = true
  /-- The first failure is no refusal. -/
  first : ∀ e, failure? s.sent = some e → ∃ x ∈ scripts, x.2.outcome = .error e

theorem consistent_start : Consistent scripts (.start scripts) where
  length := by simp [State.start]
  stage i f sc h := by
    refine ⟨.ready sc.messages sc.outcome, ?_, .ready (List.nil_append _)⟩
    simp [State.start, h]
  origin := nofun
  flag := nofun
  first := nofun

theorem State.sent_moved (i : Nat) (p : Phase) (ps : List Packet) :
    (s.moved i p ps).sent = s.sent ++ ps := by
  simp [State.sent, State.moved]

theorem index_eq (hn : (scripts.map Prod.fst).Nodup) {i j : Nat} {f : Feature} {a b : Script}
    (ha : scripts[i]? = some (f, a)) (hb : scripts[j]? = some (f, b)) : i = j := by
  have hi : (scripts.map Prod.fst)[i]? = some f := by simp [ha]
  have hj : (scripts.map Prod.fst)[j]? = some f := by simp [hb]
  exact (List.getElem?_inj (List.getElem?_eq_some_iff.mp hi).1 hn).mp (hi.trans hj.symm)

theorem Consistent.script (h : Consistent scripts s) {i : Nat} {x : Sender}
    (hx : s.senders[i]? = some x) : ∃ sc, scripts[i]? = some (x.feature, sc) ∧
      Stage s.cancelled x.feature sc x.phase (ofFeature x.feature s.sent) := by
  have hi : i < scripts.length := by
    rw [← h.length]
    exact (List.getElem?_eq_some_iff.mp hx).1
  obtain ⟨p, hp, hs⟩ := h.stage i _ _ (List.getElem?_eq_getElem hi)
  rw [hx] at hp
  cases hp
  exact ⟨_, List.getElem?_eq_getElem hi, hs⟩

theorem Consistent.flag_sent (h : Consistent scripts s) (hc : s.cancelled = true) :
    (failure? s.sent).isSome = true := by
  obtain ⟨e, he⟩ := Option.isSome_iff_exists.mp (h.flag (.inl hc))
  simp [State.sent, he]

/-- A producer's step tells on its own script only, because no other has its feature. -/
theorem Consistent.advance (h : Consistent scripts s) (hn : (scripts.map Prod.fst).Nodup) {i : Nat}
    (ht : s.advance capacity i = some t) : Consistent scripts t := by
  obtain ⟨x, q, ps, hx, hm, rfl⟩ := State.advance_eq_some.mp ht
  obtain ⟨sc, hsc, hst⟩ := h.script hx
  have hmem : (x.feature, sc) ∈ scripts := List.mem_of_getElem? hsc
  constructor
  case length => simpa [State.moved] using h.length
  case stage =>
    intro j f sc' hj
    rw [State.sent_moved, ofFeature_append]
    by_cases hij : i = j
    · subst hij
      rw [hsc] at hj
      cases hj
      refine ⟨q, by simp [State.moved, hx], ?_⟩
      rw [ofFeature_eq_self hm.feature_eq]
      exact hst.move hm
    · obtain ⟨p, hp, hs⟩ := h.stage j f sc' hj
      have hf : x.feature ≠ f := by
        rintro rfl
        exact hij (index_eq hn hsc hj)
      have hnil : ofFeature f ps = [] := ofFeature_eq_nil fun y hy => hm.feature_eq y hy ▸ hf
      refine ⟨p, by simp [State.moved, hij, hp], ?_⟩
      rw [hnil, List.append_nil]
      exact hs
  case origin =>
    intro y hy
    rw [State.sent_moved] at hy
    rcases List.mem_append.mp hy with hy | hy
    · exact h.origin y hy
    · rw [hm.feature_eq y hy]
      exact List.mem_map.mpr ⟨_, hmem, rfl⟩
  case flag => exact h.flag
  case first =>
    intro e he
    rw [State.sent_moved, failure?_append] at he
    cases hs : failure? s.sent with
    | some e' =>
      rw [hs] at he
      cases he
      exact h.first e hs
    | none =>
      rw [hs, Option.none_or] at he
      rw [hm.eq_ending he] at hst
      generalize ofFeature x.feature s.sent = sent at hst
      -- A refusal would have needed an earlier failure.
      cases hst with
      | ending hend =>
        cases hend with
        | own _ ho => exact ⟨_, hmem, ho.symm⟩
        | refused hc =>
          have hsome := h.flag_sent hc
          simp [hs] at hsome

theorem Consistent.receive (h : Consistent scripts s) (ht : s.receive = some t) :
    Consistent scripts t := by
  rcases State.receive_eq_some.mp ht with ⟨hr, rfl⟩ | ⟨hr, p, rest, hq, rfl⟩
  · refine ⟨h.length, ?_, h.origin, fun _ => h.flag (.inr hr), h.first⟩
    intro i f sc hi
    obtain ⟨p, hp, hs⟩ := h.stage i f sc hi
    exact ⟨p, hp, hs.raise⟩
  · have hsent : (s.arrivals ++ [p]) ++ rest = s.sent := by simp [State.sent, hq]
    constructor
    case length => exact h.length
    case stage =>
      unfold State.sent
      rw [hsent]
      exact h.stage
    case origin =>
      unfold State.sent
      rw [hsent]
      exact h.origin
    case flag =>
      intro hc
      rw [failure?_append]
      rcases hc with hc | hc
      · obtain ⟨e, he⟩ := Option.isSome_iff_exists.mp (h.flag (.inl hc))
        simp [he]
      · simp only [Bool.and_eq_true] at hc
        obtain ⟨e, he⟩ := Option.isSome_iff_exists.mp hc.1
        cases hs : failure? s.arrivals <;> simp [failure?, he]
    case first =>
      unfold State.sent
      rw [hsent]
      exact h.first

theorem Reachable.consistent (hn : (scripts.map Prod.fst).Nodup)
    (h : Reachable capacity scripts s) : Consistent scripts s := by
  induction h with
  | start => exact consistent_start
  | next _ hst ih =>
    cases hst with
    | producer i ht => exact ih.advance hn ht
    | receiver ht => exact ih.receive ht

/-- What a producer that is gone has sent, once everything is taken. -/
theorem Reachable.ends (hn : (scripts.map Prod.fst).Nodup) (h : Reachable capacity scripts s)
    (hf : s.isFinal = true) {x : Feature × Script} (hx : x ∈ scripts) :
    ∃ said o, Ends s.cancelled x.2 said o ∧
      ofFeature x.1 s.arrivals = said.map (.message x.1) ++ [.done x.1 o] := by
  obtain ⟨hq, -, hgone⟩ := State.isFinal_iff.mp hf
  obtain ⟨i, hi⟩ := List.mem_iff_getElem?.mp hx
  obtain ⟨p, hp, hs⟩ := (h.consistent hn).stage i x.1 x.2 hi
  have hp : p = .gone := hgone ⟨x.1, p⟩ (List.mem_of_getElem? hp)
  have hsent : s.sent = s.arrivals := by simp [State.sent, hq]
  rw [hsent] at hs
  generalize hps : ofFeature x.1 s.arrivals = ps at hs
  subst hp
  cases hs with
  | gone he => exact ⟨_, _, he, rfl⟩

theorem Reachable.done_mem (hn : (scripts.map Prod.fst).Nodup) (h : Reachable capacity scripts s)
    (hf : s.isFinal = true) {x : Feature × Script} (hx : x ∈ scripts) :
    ∃ o, .done x.1 o ∈ s.arrivals := by
  obtain ⟨said, o, -, hps⟩ := h.ends hn hf hx
  exact ⟨o, mem_of_mem_ofFeature (f := x.1) (by simp [hps])⟩

/-- However the steps were mixed, nothing else than the scripts can arrive. -/
theorem Reachable.gathered (hn : (scripts.map Prod.fst).Nodup) (h : Reachable capacity scripts s)
    (hf : s.isFinal = true) : Gathered scripts s.arrivals := by
  have hc := h.consistent hn
  have hsent : s.sent = s.arrivals := by simp [State.sent, (State.isFinal_iff.mp hf).1]
  cases hfail : failure? s.arrivals with
  | some e =>
    obtain ⟨x, hx, he⟩ := hc.first e (hsent ▸ hfail)
    exact .failed x e hfail hx he
  | none =>
    refine .whole hfail (hsent ▸ hc.origin) fun x hx => ?_
    obtain ⟨said, o, he, hps⟩ := h.ends hn hf hx
    cases he with
    | refused flag =>
      have hsome := hc.flag (.inl flag)
      simp [hfail] at hsome
    | own hs ho =>
      subst hs ho
      refine ⟨?_, hps⟩
      cases ho : x.2.outcome with
      | ok u => rfl
      | error e =>
        have hmem : Packet.done x.1 x.2.outcome ∈ s.arrivals :=
          mem_of_mem_ofFeature (f := x.1) (by simp [hps])
        have hnone := List.findSome?_eq_none_iff.mp hfail _ hmem
        simp [ho, Packet.failure?] at hnone

end RecordStore.Channel
