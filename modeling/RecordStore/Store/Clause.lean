import RecordStore.Dialect
import RecordStore.Values.Value

/-!
Clauses of predicates. A clause is what a blueprint asks of one column; its text has a placeholder
for each value that it binds, in the same order.
-/
namespace RecordStore

inductive Clause where
  /-- The column has one of some values. -/
  | oneOf (column : String) (values : List Value)
  /-- The column has a value. -/
  | present (column : String)
  /-- The column has no value. -/
  | absent (column : String)
  /-- The column lies strictly between two values. -/
  | between (column : String) (lower upper : Value)
  /-- The column matches patterns: any of them when alternatives are asked for, else all. -/
  | like (column : String) (patterns : List String)
  deriving DecidableEq, Repr

/-- What stands between clauses. -/
def joiner (inclusive : Bool) : String := if inclusive then " OR " else " AND "

namespace Dialect

/-- Placeholders of successive values. -/
def placeholders (d : Dialect) (base count : Nat) : List String :=
  (List.range' base count).map d.placeholder

end Dialect

namespace Clause

/-- The values that a clause binds. -/
def values : Clause → List Value
  | oneOf _ vs => vs
  | present _ => []
  | absent _ => []
  | between _ lower upper => [lower, upper]
  | like _ patterns => patterns.map .text

/-- The text of a clause whose first placeholder has a given index. -/
def text (d : Dialect) (inclusive : Bool) (base : Nat) : Clause → String
  | oneOf column vs => column ++ " IN (" ++ ",".intercalate (d.placeholders base vs.length) ++ ")"
  | present column => d.present column
  | absent column => Dialect.absent column
  | between column _ _ =>
    "(" ++ column ++ " > " ++ d.placeholder base ++ " AND " ++ column ++ " < " ++
      d.placeholder (base + 1) ++ ")"
  | like column patterns =>
    (joiner inclusive).intercalate
      ((d.placeholders base patterns.length).map fun p => column ++ " LIKE " ++ p)

end Clause
end RecordStore
