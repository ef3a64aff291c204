/-!
What can go wrong when a store is used. Drivers may report any of these.
-/
namespace RecordStore

inductive StoreError where
  /-- A delete without conditions would delete everything. -/
  | unconditionalDelete
  /-- A statement that gives one row gave none. -/
  | noRow
  | typeMismatch (expected found : String)
  | columnOutOfRange (index length : Nat)
  | driver (reason : String)
  deriving DecidableEq, Repr

namespace StoreError

def message : StoreError → String
  | unconditionalDelete =>
    "invalid deletion blueprint: a delete requires at least one predicate"
  | noRow => "invalid scan: the statement returned no rows"
  | typeMismatch expected found => "type mismatch: cannot read " ++ found ++ " as " ++ expected
  | columnOutOfRange index length =>
    "column " ++ toString index ++ " out of range for a row of " ++ toString length ++ " columns"
  | driver reason => "driver error: " ++ reason

end StoreError
end RecordStore
