import RecordStore.Schema.Column

/-!
What updates do to a column: they set it, and to columns of bits they add bits and drop bits.
-/
namespace RecordStore

inductive Assignment where
  | set
  | add
  | drop
  deriving DecidableEq, Repr

namespace Assignment

/-- The assignment in SQL, up to the placeholder of the new value. -/
def sqlText (column : String) : Assignment → String
  | set => column ++ " = "
  | add => column ++ " = " ++ column ++ " | "
  | drop => column ++ " = " ++ column ++ " & ~"

/-- The assignments of a column. -/
def all (c : Column) : List Assignment := if c.bitmask then [set, add, drop] else [set]

end Assignment
end RecordStore
