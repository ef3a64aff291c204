import RecordStore.Schema.Category
import RecordStore.Store.Error
import RecordStore.Values.Double
import RecordStore.Values.Value

/-!
Types of fields whose values can be bound and read. Binding is total; reading fails when a value
is of another kind or out of range. Numbers change their carrier but never wrap.
-/
namespace RecordStore

inductive Width where
  | bits8
  | bits16
  | bits32
  | bits64
  /-- As wide as an address, which is 64 bits. -/
  | address
  deriving DecidableEq, Repr

namespace Width

def bits : Width → Nat
  | bits8 => 8
  | bits16 => 16
  | bits32 => 32
  | bits64 => 64
  | address => 64

def suffix : Width → String
  | bits8 => "8"
  | bits16 => "16"
  | bits32 => "32"
  | bits64 => "64"
  | address => "size"

def all : List Width := [bits8, bits16, bits32, bits64, address]

end Width

structure IntegerType where
  isSigned : Bool
  width : Width
  deriving DecidableEq, Repr

namespace IntegerType

def name (w : IntegerType) : String := (if w.isSigned then "i" else "u") ++ w.width.suffix

def all : List IntegerType := Width.all.map (⟨true, ·⟩) ++ Width.all.map (⟨false, ·⟩)

def ofName? (n : String) : Option IntegerType := all.find? (·.name == n)

/-- Whether a number is one of the type. -/
def Holds (w : IntegerType) (n : Int) : Prop :=
  if w.isSigned then -(twoPow (w.width.bits - 1) : Int) ≤ n ∧ n < twoPow (w.width.bits - 1)
  else 0 ≤ n ∧ n < twoPow w.width.bits

instance (w : IntegerType) (n : Int) : Decidable (w.Holds n) := by
  unfold Holds
  infer_instance

/-- The numbers of a type. -/
structure Number (w : IntegerType) where
  val : Int
  holds : w.Holds val

def number? (w : IntegerType) (n : Int) : Option w.Number :=
  if h : w.Holds n then some ⟨n, h⟩ else none

def zero (w : IntegerType) : w.Number :=
  ⟨0, by
    obtain ⟨s, w⟩ := w
    cases s <;> cases w <;> decide⟩

def bind (w : IntegerType) (n : w.Number) : Value :=
  if w.isSigned then .int (Int64.ofInt n.val) else .uint (UInt64.ofNat n.val.toNat)

/-- The number that a value is, if it is one at all. -/
def wholeNumber? : Value → Option Int
  | .int n => some n.toInt
  | .uint n => some n.toNat
  | _ => none

def read (w : IntegerType) (v : Value) : Except StoreError w.Number :=
  match (wholeNumber? v).bind w.number? with
  | some n => .ok n
  | none => .error (.typeMismatch w.name v.kind)

end IntegerType

/-- A number of single precision, as the double that equals it. -/
structure Single where
  bits : UInt64
  isSingle : Double.toSingle bits = bits

namespace Single

def round (bits : UInt64) : Single := ⟨Double.toSingle bits, Double.toSingle_toSingle bits⟩

def zero : Single := ⟨0, by decide⟩

end Single

/-- Which time zone a point in time is shown in. -/
inductive Zone where
  | utc
  /-- An offset that each value has for itself. -/
  | fixed
  /-- The zone of the machine, which is UTC. -/
  | machine
  deriving DecidableEq, Repr

namespace Zone

def ofName? : String → Option Zone
  | "Utc" => some utc
  | "FixedOffset" => some fixed
  | "Local" => some machine
  | _ => none

end Zone

inductive FieldType where
  | integer (w : IntegerType)
  | single
  | double
  | boolean
  | string
  | date
  | time
  | timestamp
  | instant (z : Zone)
  | nullable (t : FieldType)
  | boxed (t : FieldType)
  /-- Values as they are. -/
  | any
  deriving DecidableEq, Repr

namespace FieldType

/-- The values of a type. -/
@[reducible] def Carrier : FieldType → Type
  | integer w => w.Number
  | single => Single
  | double => UInt64
  | boolean => Bool
  | string => String
  | date => Date
  | time => TimeOfDay
  | timestamp => Timestamp
  | instant .fixed => ZonedTime
  | instant _ => Timestamp
  | nullable t => Option t.Carrier
  | boxed t => t.Carrier
  | any => Value

/-- The value that is bound for a value of a type. -/
def bind : (t : FieldType) → t.Carrier → Value
  | integer w, n => w.bind n
  | single, x => .float x.bits
  | double, bits => .float bits
  | boolean, b => .bool b
  | string, s => .text s
  | date, d => .date d
  | time, t => .time t
  | timestamp, t => .timestamp t
  | instant .utc, t => .instant t
  | instant .fixed, t => .instant t.utc
  | instant .machine, t => .instant t
  | nullable _, none => .null
  | nullable t, some x => bind t x
  | boxed t, x => bind t x
  | any, v => v

def mismatch {α : Type} (expected : String) (v : Value) : Except StoreError α :=
  .error (.typeMismatch expected v.kind)

/-- Doubles; whole numbers are rounded. -/
def readDouble : Value → Except StoreError UInt64
  | .float bits => .ok bits
  | .int n => .ok (Double.ofInt n.toInt)
  | .uint n => .ok (Double.ofInt n.toNat)
  | v => mismatch "f64" v

/-- Truth values; whole numbers are false when zero. -/
def readBoolean : Value → Except StoreError Bool
  | .bool b => .ok b
  | .int n => .ok (n != 0)
  | .uint n => .ok (n != 0)
  | v => mismatch "bool" v

def readString : Value → Except StoreError String
  | .text s => .ok s
  | v => mismatch "String" v

/-- Dates; a timestamp gives its date. -/
def readDate : Value → Except StoreError Date
  | .date d => .ok d
  | .timestamp t => .ok t.date
  | v => mismatch "NaiveDate" v

def readTime : Value → Except StoreError TimeOfDay
  | .time t => .ok t
  | v => mismatch "NaiveTime" v

/-- Timestamps; points in time give theirs in UTC. -/
def readTimestamp : Value → Except StoreError Timestamp
  | .timestamp t => .ok t
  | .instant t => .ok t
  | v => mismatch "NaiveDateTime" v

/-- Points in time; a timestamp is taken as one in UTC. -/
def readInstant : Value → Except StoreError Timestamp
  | .instant t => .ok t
  | .timestamp t => .ok t
  | v => mismatch "DateTime<Utc>" v

/-- The value of a type that a driver's value is. -/
def read : (t : FieldType) → Value → Except StoreError t.Carrier
  | integer w, v => w.read v
  | single, v => (readDouble v).map Single.round
  | double, v => readDouble v
  | boolean, v => readBoolean v
  | string, v => readString v
  | date, v => readDate v
  | time, v => readTime v
  | timestamp, v => readTimestamp v
  | instant .utc, v => readInstant v
  | instant .fixed, v => (readInstant v).map fun t => ⟨t, .zero⟩
  | instant .machine, v => readInstant v
  | nullable t, v => if v.isNull then .ok none else (read t v).map some
  | boxed t, v => read t v
  | any, v => .ok v

/-- What a field has when nothing is said about it. -/
def initial : (t : FieldType) → t.Carrier
  | integer w => w.zero
  | single => Single.zero
  | double => (0 : UInt64)
  | boolean => false
  | string => ""
  | date => Date.epoch
  | time => TimeOfDay.midnight
  | timestamp => Timestamp.epoch
  | instant .utc => Timestamp.epoch
  | instant .fixed => ⟨Timestamp.epoch, .zero⟩
  | instant .machine => Timestamp.epoch
  | nullable _ => none
  | boxed t => initial t
  | any => .null

/-- Whether a value is a missing one. -/
def isMissing : (t : FieldType) → t.Carrier → Bool
  | nullable _, x => x.isNone
  | _, _ => false

/-! ### Types by their names -/

/-- The type of a name without wrappers; `zone` is the type among its arguments. -/
def ofName? (name : String) (zone : Option Ty) : Option FieldType :=
  match name with
  | "f32" => some single
  | "f64" => some double
  | "bool" => some boolean
  | "String" => some string
  | "NaiveDate" => some date
  | "NaiveTime" => some time
  | "NaiveDateTime" => some timestamp
  | "DateTime" => ((zone.bind Ty.lastName?).bind Zone.ofName?).map instant
  | "Value" => some any
  | _ => (IntegerType.ofName? name).map integer

mutual

def ofArguments : List Argument → Option Ty × Option FieldType
  | [] => (none, none)
  | .type t :: _ => (some t, ofTy? t)
  | _ :: rest => ofArguments rest

def ofSegment : Segment → Option FieldType
  | .mk name (.angled _ as _) =>
    let (t, inner) := ofArguments as
    if name == "Option" then inner.map nullable
    else if name == "Box" then inner.map boxed
    else ofName? name t
  | .mk name _ => ofName? name none

def ofSegments : List Segment → Option FieldType
  | [] => none
  | [s] => ofSegment s
  | _ :: rest => ofSegments rest

/-- The type that is written so. -/
def ofTy? : Ty → Option FieldType
  | .parenthesized t => ofTy? t
  | .path _ ss => ofSegments ss
  | _ => none

end
end FieldType
end RecordStore
