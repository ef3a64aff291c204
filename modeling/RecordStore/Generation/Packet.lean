import RecordStore.Generation.Message

/-!
What arrives from producers, in order. Of the arrivals only the order among those of one feature
matters, and which failure comes first.
-/
namespace RecordStore

inductive Packet where
  | message (f : Feature) (m : Message)
  /-- The end of a producer. -/
  | done (f : Feature) (outcome : Except Error Unit)

namespace Packet

def feature : Packet → Feature
  | message f _ => f
  | done f _ => f

def message? : Packet → Option Message
  | message _ m => some m
  | done _ _ => none

/-- How a producer failed. -/
def failure? : Packet → Option Error
  | done _ (.error e) => some e
  | _ => none

/-- All that a producer sends. -/
def ofScript (f : Feature) (s : Script) : List Packet :=
  s.messages.map (message f) ++ [done f s.outcome]

/-- The packets of producers that run one after another, up to the first that fails. -/
def sequence : List (Feature × Script) → List Packet
  | [] => []
  | (f, s) :: rest =>
    ofScript f s ++
      match s.outcome with
      | .ok _ => sequence rest
      | .error _ => []

end Packet

/-- Everything that has arrived. -/
abbrev Arrivals := List Packet

namespace Arrivals

def messages (f : Feature) (ps : Arrivals) : List Message :=
  (ps.filter (·.feature = f)).filterMap Packet.message?

/-- Messages by features. -/
def ordered (ps : Arrivals) : List Message := Feature.order.flatMap fun f => messages f ps

def fragments (ps : Arrivals) : List Fragment :=
  (ordered ps).filterMap fun m => match m with | .fragment f => some f | _ => none

def needs (ps : Arrivals) : List String :=
  Ty.distinctSorted (ps.filterMap fun p =>
    match p.message? with
    | some (.needs n) => some n
    | _ => none)

def declared (ps : Arrivals) : List (String × Operation) :=
  (ordered ps).filterMap fun m => match m with | .method label o => some (label, o) | _ => none

/-- Of methods with one name only the first stays. -/
def firstOfEach {α : Type} (entries : List (String × α)) : List (String × α) :=
  entries.foldl (fun kept e => if kept.any (·.1 == e.1) then kept else kept ++ [e]) []

/-- A table by names: an entry keeps its place when a later one takes over. -/
def lastOfEach {α : Type} (entries : List (String × α)) : List (String × α) :=
  entries.foldl
    (fun kept e =>
      if kept.any (·.1 == e.1) then kept.map fun k => if k.1 == e.1 then e else k
      else kept ++ [e])
    []

def operations (ps : Arrivals) : List Operation := (firstOfEach (declared ps)).map Prod.snd

/-- The first failure wins. -/
def failure? (ps : Arrivals) : Option Error := ps.findSome? Packet.failure?

end Arrivals
end RecordStore
