import RecordStore.Dialect
import RecordStore.Schema.Tag

/-!
Settings of records and of their fields. An option of a tag is read as the setting that it makes,
without regard to settings made before; making it replaces the value of that setting alone.
-/
namespace RecordStore

/-- What a store can do with its records. -/
inductive Capability where
  | query
  | create
  | update
  | delete
  deriving DecidableEq, Repr

/-- Sets of capabilities. -/
structure Capabilities where
  query : Bool
  create : Bool
  update : Bool
  delete : Bool
  deriving DecidableEq, Repr

namespace Capabilities

def all : Capabilities := ⟨true, true, true, true⟩

def has (c : Capabilities) : Capability → Bool
  | .query => c.query
  | .create => c.create
  | .update => c.update
  | .delete => c.delete

def isEmpty (c : Capabilities) : Bool := !c.query && !c.create && !c.update && !c.delete

def set (c : Capabilities) (capability : Capability) (b : Bool) : Capabilities :=
  match capability with
  | .query => { c with query := b }
  | .create => { c with create := b }
  | .update => { c with update := b }
  | .delete => { c with delete := b }

/-- One bit for each capability. -/
def bits (c : Capabilities) : Nat :=
  (if c.query then 1 else 0) + (if c.create then 2 else 0) + (if c.update then 4 else 0) +
    if c.delete then 8 else 0

end Capabilities

/-! ### Records -/

/-- Words that method and slot names of a record are made of. -/
inductive NamePart where
  | find
  | count
  | select
  | update
  | range
  | like
  deriving DecidableEq, Repr

structure NameParts where
  find : String := "Find"
  count : String := "Count"
  select : String := "Select"
  update : String := "Update"
  range : String := "Range"
  like : String := "Like"
  deriving DecidableEq, Repr

namespace NameParts

def set (n : NameParts) (part : NamePart) (text : String) : NameParts :=
  match part with
  | .find => { n with find := text }
  | .count => { n with count := text }
  | .select => { n with select := text }
  | .update => { n with update := text }
  | .range => { n with range := text }
  | .like => { n with like := text }

end NameParts

structure RecordSettings where
  table : Option String := none
  dialect : Dialect := .default
  primaryKey : Option String := none
  softDelete : Option String := none
  defaultLimit : Int := 100
  store : Option String := none
  record : Option String := none
  blueprint : Option String := none
  parts : NameParts := {}
  capabilities : Capabilities := .all
  deriving DecidableEq, Repr

/-- A setting of a record with its value. -/
inductive RecordSetting where
  | table (name : String)
  | dialect (d : Dialect)
  | primaryKey (column : String)
  | softDelete (field : String)
  | defaultLimit (limit : Int)
  | store (name : String)
  | record (name : String)
  | blueprint (name : String)
  | part (p : NamePart) (text : String)
  | capability (c : Capability) (enabled : Bool)
  deriving DecidableEq, Repr

namespace RecordSetting

/-- A whole number in base ten, perhaps with a sign. -/
def integer? (text : String) : Option Int :=
  let natural? (cs : List Char) : Option Nat :=
    if cs.isEmpty || !cs.all Char.isDigit then none
    else some (cs.foldl (fun n c => 10 * n + (c.toNat - '0'.toNat)) 0)
  match text.toList with
  | '-' :: cs => (natural? cs).map fun n => -(n : Int)
  | '+' :: cs => (natural? cs).map Int.ofNat
  | cs => (natural? cs).map Int.ofNat

/-- A limit is not negative and fits into 64 bits with a sign. -/
def limit? (text : String) : Option Int :=
  (integer? text).filter fun n => 0 ≤ n && n < 0x8000000000000000

/-- The setting that an option makes. -/
def ofPair (key value : String) : Except ConfigIssue RecordSetting :=
  let toggle (c : Capability) : Except ConfigIssue RecordSetting :=
    (Tag.flag key value).map (capability c)
  match key with
  | "tableName" => .ok (table value)
  | "dialect" =>
    match Dialect.ofName? value with
    | some d => .ok (dialect d)
    | none => .error (Tag.invalid key value)
  | "primaryKey" => .ok (primaryKey value)
  | "softDelete" => .ok (softDelete value)
  | "defaultLimit" =>
    match limit? value with
    | some n => .ok (defaultLimit n)
    | none => .error (Tag.invalid key value)
  | "storeName" => .ok (store value)
  | "recordName" => .ok (record value)
  | "blueprintName" => .ok (blueprint value)
  | "storeFindMethodPrefix" => .ok (part .find value)
  | "storeCountMethodPrefix" => .ok (part .count value)
  | "storeSelectMethodPrefix" => .ok (part .select value)
  | "updateFieldMethodPrefix" => .ok (part .update value)
  | "blueprintRangeFieldSuffix" => .ok (part .range value)
  | "blueprintLikeFieldSuffix" => .ok (part .like value)
  | "createable" => toggle .create
  | "updateable" => toggle .update
  | "deleteable" => toggle .delete
  | "queryable" => toggle .query
  | _ => .error (.unknownOption key)

end RecordSetting

namespace RecordSettings

def make (s : RecordSettings) : RecordSetting → RecordSettings
  | .table name => { s with table := some name }
  | .dialect d => { s with dialect := d }
  | .primaryKey column => { s with primaryKey := some column }
  | .softDelete field => { s with softDelete := some field }
  | .defaultLimit limit => { s with defaultLimit := limit }
  | .store name => { s with store := some name }
  | .record name => { s with record := some name }
  | .blueprint name => { s with blueprint := some name }
  | .part p text => { s with parts := s.parts.set p text }
  | .capability c enabled => { s with capabilities := s.capabilities.set c enabled }

def apply (s : RecordSettings) (key value : String) : Except ConfigIssue RecordSettings :=
  (RecordSetting.ofPair key value).map s.make

/-- Make all settings of a tag, up to the first that fails. -/
def applyTag (s : RecordSettings) (tag : String) : Except ConfigIssue RecordSettings :=
  (Tag.pairs tag).foldlM (fun s (key, value) => s.apply key value) s

end RecordSettings

/-! ### Fields -/

structure FieldSettings where
  /-- The column; without one it is named like the field. -/
  column : Option String := none
  autoIncrement : Bool := false
  bitmask : Bool := false
  references : Option String := none
  deriving DecidableEq, Repr

inductive FieldSetting where
  | column (name : Option String)
  | autoIncrement (b : Bool)
  | bitmask (b : Bool)
  | references (record : String)
  deriving DecidableEq, Repr

namespace FieldSetting

def ofPair (key value : String) : Except ConfigIssue FieldSetting :=
  match key with
  | "column" => .ok (column (if value.isEmpty then none else some value))
  | "autoIncrement" => (Tag.flag key value).map autoIncrement
  | "bitmask" => (Tag.flag key value).map bitmask
  | "references" => .ok (references value)
  | _ => .error (.unknownOption key)

end FieldSetting

namespace FieldSettings

def make (s : FieldSettings) : FieldSetting → FieldSettings
  | .column name => { s with column := name }
  | .autoIncrement b => { s with autoIncrement := b }
  | .bitmask b => { s with bitmask := b }
  | .references record => { s with references := some record }

def apply (s : FieldSettings) (key value : String) : Except ConfigIssue FieldSettings :=
  (FieldSetting.ofPair key value).map s.make

def applyTag (s : FieldSettings) (tag : String) : Except ConfigIssue FieldSettings :=
  (Tag.pairs tag).foldlM (fun s (key, value) => s.apply key value) s

/-- A dash for a column drops the field. -/
def isSkipped (s : FieldSettings) : Bool := s.column == some "-"

end FieldSettings
end RecordStore
