import RecordStore.Generation.Blueprint
import RecordStore.Generation.Deletion
import RecordStore.Generation.Insertion
import RecordStore.Generation.Packet
import RecordStore.Generation.Reading
import RecordStore.Generation.Repository
import RecordStore.Generation.Updating

/-!
The code of a record: its store, what its features produce in a fixed order, and its repository.
-/
namespace RecordStore

/-- What a feature produces for a record. -/
def Feature.produce (ctx : Context) : Feature → Producer Unit
  | createable => Insertion.produce ctx
  | updateable => Updating.produce ctx
  | deleteable => Deletion.produce ctx
  | queryable => Reading.produce ctx
  | blueprint => BlueprintCode.produce ctx

/-- The script of a feature's producer. -/
def Feature.script (r : Record) (config : Config) (f : Feature) : Script :=
  match Context.ofRecord r config with
  | .ok ctx => (f.produce ctx).script
  | .error e => ⟨[], .error e⟩

/-- The code of a fragment. -/
def Fragment.code (ctx : Context) : Fragment → Code
  | methods ms => ctx.storeImpl (ms.flatMap (·.code ctx.visibility))
  | blueprint b => b.code ctx

/-- The generated code of a record. A record whose features are all switched off has none. -/
structure RecordCode where
  name : String
  body : Option String
  /-- Short names that the code needs. -/
  needs : List String
  deriving DecidableEq, Repr

namespace RecordCode

/-- The features that run for a record, with their scripts. -/
def scripts (r : Record) (config : Config) : List (Feature × Script) :=
  (Feature.order.filter (·.isEnabled r)).map fun f => (f, f.script r config)

/-- The items of a record, given what its producers sent. -/
def items (ctx : Context) (ps : Arrivals) : Except Error (List Code) := do
  let operations := ps.operations
  let repository ← Repository.code? ctx operations
  return Repository.storeCode ctx (!operations.isEmpty) :: ps.fragments.map (·.code ctx) ++
    repository.toList

/-- The code of a record from what its producers sent. -/
def ofArrivals (r : Record) (config : Config) (ps : Arrivals) : Except Error RecordCode := do
  match ps.failure? with
  | some e => throw e
  | none =>
    let ctx ← Context.ofRecord r config
    let items ← items ctx ps
    return ⟨r.name, some ("\n".intercalate (items.map tokenText)), ps.needs⟩

def ofRecord (r : Record) (config : Config) : Except Error RecordCode :=
  if r.capabilities.isEmpty then .ok ⟨r.name, none, []⟩
  else ofArrivals r config (Packet.sequence (scripts r config))

end RecordCode
end RecordStore
