import RecordStore.Generation.RecordCode

/-!
Producers that run side by side and share a queue of limited capacity. Before each message a
producer looks at a flag; once the flag is up it sends nothing but its end. The receiver takes
packets in order and raises the flag when a producer has failed.
-/
namespace RecordStore.Channel

/-- What a producer does next. -/
inductive Phase where
  /-- Look at the flag, or end when no message is left. -/
  | ready (rest : List Message) (outcome : Except Error Unit)
  /-- Send a message that the flag did not hold back. -/
  | sending (m : Message) (rest : List Message) (outcome : Except Error Unit)
  /-- Send the end. -/
  | ending (outcome : Except Error Unit)
  /-- Nothing more; the producer's side of the queue is closed. -/
  | gone

structure Sender where
  feature : Feature
  phase : Phase

structure State where
  senders : List Sender
  queue : List Packet
  /-- The flag. -/
  cancelled : Bool
  /-- The receiver has seen a failure and is about to raise the flag. -/
  raising : Bool
  arrivals : Arrivals

namespace State

def start (scripts : List (Feature × Script)) : State :=
  { senders := scripts.map fun (f, s) => ⟨f, .ready s.messages s.outcome⟩
    queue := []
    cancelled := false
    raising := false
    arrivals := [] }

def setPhase (s : State) (i : Nat) (p : Phase) : State :=
  { s with senders := s.senders.modify i fun x => { x with phase := p } }

/-- Whether another packet fits; without a limit one always does. -/
def hasRoom (capacity : Option Nat) (s : State) : Bool :=
  capacity.all fun n => decide (s.queue.length < n)

def push (s : State) (p : Packet) : State := { s with queue := s.queue ++ [p] }

/-- The step of a producer, unless it has to wait or is gone. -/
def advance (capacity : Option Nat) (i : Nat) (s : State) : Option State :=
  match s.senders[i]? with
  | none => none
  | some x =>
    match x.phase with
    | .ready [] outcome => some (s.setPhase i (.ending outcome))
    | .ready (m :: rest) outcome =>
      if s.cancelled then some (s.setPhase i (.ending (.error (.emit .closed))))
      else some (s.setPhase i (.sending m rest outcome))
    | .sending m rest outcome =>
      if s.hasRoom capacity then
        some ((s.push (.message x.feature m)).setPhase i (.ready rest outcome))
      else none
    | .ending outcome =>
      if s.hasRoom capacity then some ((s.push (.done x.feature outcome)).setPhase i .gone)
      else none
    | .gone => none

/-- The step of the receiver, unless there is nothing to take. Only the first failure matters. -/
def receive (s : State) : Option State :=
  if s.raising then some { s with raising := false, cancelled := true }
  else
    match s.queue with
    | [] => none
    | p :: rest =>
      let isFirst := p.failure?.isSome && s.arrivals.failure?.isNone
      some { s with queue := rest, arrivals := s.arrivals ++ [p], raising := isFirst }

/-- All producers are gone and all packets are taken. -/
def isFinal (s : State) : Bool :=
  s.queue.isEmpty && !s.raising && s.senders.all fun x => x.phase matches .gone

/-- What the receiver keeps of a packet: the error of the first producer that failed. -/
def keep (kept : Option Error) (p : Packet) : Option Error :=
  match p with
  | .done _ (.error e) => if kept.isSome then kept else some e
  | _ => kept

/-- The receiver's answer. It is given between packets, once the queue is empty and closed: no
producer is left that could send into it. -/
def drained? (s : State) : Option (Except Error Unit) :=
  if s.raising then none
  else
    match s.queue with
    | _ :: _ => none
    | [] =>
      if s.senders.all fun x => x.phase matches .gone then
        match s.arrivals.foldl keep none with
        | some e => some (.error e)
        | none => some (.ok ())
      else none

end State

/-- One step of anyone. -/
inductive Step (capacity : Option Nat) : State → State → Prop where
  | producer {s t : State} (i : Nat) (h : s.advance capacity i = some t) : Step capacity s t
  | receiver {s t : State} (h : s.receive = some t) : Step capacity s t

/-- States that a run of some scripts can be in. -/
inductive Reachable (capacity : Option Nat) (scripts : List (Feature × Script)) : State → Prop where
  | start : Reachable capacity scripts (.start scripts)
  | next {s t : State} : Reachable capacity scripts s → Step capacity s t →
      Reachable capacity scripts t

/-- How many packets wait at most while a record is generated. -/
def capacity : Nat := 64

end RecordStore.Channel
