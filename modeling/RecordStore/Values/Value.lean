import RecordStore.Values.Calendar

/-!
Values as drivers know them: what is bound to a placeholder and what a row holds.
-/
namespace RecordStore

inductive Value where
  | null
  | bool (b : Bool)
  | int (n : Int64)
  | uint (n : UInt64)
  /-- A double by its bits. -/
  | float (bits : UInt64)
  | text (s : String)
  | date (d : Date)
  | time (t : TimeOfDay)
  | timestamp (t : Timestamp)
  /-- A point in time, as a timestamp in UTC. -/
  | instant (utc : Timestamp)
  deriving DecidableEq, Repr

namespace Value

/-- The kind of a value, as messages name it. -/
def kind : Value → String
  | null => "null"
  | bool _ => "bool"
  | int _ => "int"
  | uint _ => "uint"
  | float _ => "float"
  | text _ => "text"
  | date _ => "date"
  | time _ => "time"
  | timestamp _ => "timestamp"
  | instant _ => "timestamptz"

def isNull : Value → Bool
  | null => true
  | _ => false

end Value
end RecordStore
