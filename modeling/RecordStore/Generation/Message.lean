import RecordStore.Generation.Method

/-!
What producers of code tell about a record: fragments of code, short names that the fragments
need, and the methods that they define. A producer's messages and its outcome are its script;
how scripts run side by side does not change them.
-/
namespace RecordStore

/-- The producers, each for a feature of the store. -/
inductive Feature where
  | createable
  | updateable
  | deleteable
  | queryable
  | blueprint
  deriving DecidableEq, Repr

namespace Feature

/-- The order in which fragments stand in the output. -/
def order : List Feature := [createable, updateable, deleteable, queryable, blueprint]

def index : Feature → Nat
  | createable => 0
  | updateable => 1
  | deleteable => 2
  | queryable => 3
  | blueprint => 4

def name : Feature → String
  | createable => "createable"
  | updateable => "updateable"
  | deleteable => "deleteable"
  | queryable => "queryable"
  | blueprint => "blueprint"

def ofName? (n : String) : Option Feature := order.find? (·.name == n)

/-- Records without columns have no features. The blueprint belongs to all other features. -/
def isEnabled (r : Record) (f : Feature) : Bool :=
  !r.columns.isEmpty &&
    match f with
    | createable => r.capabilities.create
    | updateable => r.capabilities.update
    | deleteable => r.capabilities.delete
    | queryable => r.capabilities.query
    | blueprint => !r.capabilities.isEmpty

end Feature

/-- A slot of a blueprint: a field, and the method that makes a clause of it. -/
structure SlotCode where
  name : String
  ty : Code
  clauseMethod : String
  clauseBody : Code
  deriving DecidableEq, Repr

/-- The type of a record's blueprints. -/
structure BlueprintCode where
  slots : List SlotCode
  /-- Whether rows can be deleted softly, so that blueprints can ask for deleted ones. -/
  hasScope : Bool
  predicateBody : Code
  orderBody : Code
  deriving DecidableEq, Repr

inductive Fragment where
  /-- Methods of the store. -/
  | methods (ms : List StoreMethod)
  | blueprint (b : BlueprintCode)
  deriving DecidableEq, Repr

inductive Message where
  | fragment (f : Fragment)
  /-- A short name that a fragment needs. -/
  | needs (name : String)
  | method (label : String) (operation : Operation)
  deriving DecidableEq, Repr

/-- All that a producer says, and how it ends. -/
structure Script where
  messages : List Message
  outcome : Except Error Unit

namespace Script

/-- What gets through when nothing is accepted: only a script that says nothing ends as it would,
all others end with their first message. -/
def refused (s : Script) : Except Error Unit :=
  if s.messages.isEmpty then s.outcome else .error (.emit .closed)

/-- What a producer says when its record was given up before it started. -/
def cancelled (s : Script) : Script := ⟨[], s.refused⟩

end Script

/-- A producer sends messages until it is done or fails. -/
abbrev Producer := ExceptT Error (StateM (List Message))

namespace Producer

def send (m : Message) : Producer Unit := modify fun ms => ms ++ [m]

def need (names : List String) : Producer Unit := names.forM fun n => send (.needs n)

/-- Tell about a method. -/
def declare (m : StoreMethod) : Producer StoreMethod := do
  send (.method m.label m.operation)
  return m

def identifier (name : String) : Producer String := ExceptT.mk (pure (identifierOf name))

def script (p : Producer Unit) : Script :=
  let (outcome, messages) := p.run.run []
  ⟨messages, outcome⟩

end Producer
end RecordStore
