/-!
The two families of SQL dialects, told apart by what they can do.
-/
namespace RecordStore

inductive Dialect where
  /-- Placeholders are question marks. -/
  | default
  /-- Placeholders are numbered, and inserts can return keys. -/
  | postgres
  deriving DecidableEq, Repr

namespace Dialect

def name : Dialect → String
  | default => "default"
  | postgres => "postgres"

/-- A dialect by one of its names; small and capital letters are alike. -/
def ofName? (name : String) : Option Dialect :=
  let lowered := String.ofList (name.toList.map Char.toLower)
  if ["", "default", "mysql", "sqlite"].contains lowered then some default
  else if ["postgres", "postgresql", "pg"].contains lowered then some postgres
  else none

/-- The placeholder of the value bound at an index. -/
def placeholder (d : Dialect) (index : Nat) : String :=
  match d with
  | default => "?"
  | postgres => "$" ++ toString index

def present (d : Dialect) (column : String) : String :=
  match d with
  | default => column ++ " NOT NULL"
  | postgres => column ++ " IS NOT NULL"

def absent (column : String) : String := column ++ " IS NULL"

/-- What follows the rows of an insert. -/
def insertSuffix (d : Dialect) (primaryKey : Option String) : String :=
  match d, primaryKey with
  | postgres, some key => " RETURNING " ++ key
  | _, _ => ""

/-- Inserts report keys in rows. -/
def returnsKeys : Dialect → Bool
  | default => false
  | postgres => true

/-- The new value of an update is bound after the values of its predicate. -/
def bindsTargetLast : Dialect → Bool
  | default => false
  | postgres => true

end Dialect
end RecordStore
