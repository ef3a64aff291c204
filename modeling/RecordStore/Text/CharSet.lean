/-!
Sets of characters, kept as the ascending code points at which membership changes.
-/
namespace RecordStore

/-- A set of characters. `bounds` is ascending: membership starts at its first, third, … code
point and stops at its second, fourth, …. -/
structure CharSet where
  bounds : List Nat

namespace CharSet

/-- A character is in the set when it lies past an odd number of bounds. -/
def contains (s : CharSet) (c : Char) : Bool :=
  (s.bounds.takeWhile (· ≤ c.toNat)).length % 2 == 1

end CharSet
end RecordStore
