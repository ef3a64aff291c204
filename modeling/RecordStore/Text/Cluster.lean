import RecordStore.Text.ClusterTable

/-!
Texts as sequences of user-perceived characters: a letter stays together with the marks upon it.
-/
namespace RecordStore.Cluster

/-- Whether two neighbours belong to one perceived character. -/
def joined (a b : Char) : Bool :=
  let control (c : Char) : Bool := c.toNat < 32 || (127 ≤ c.toNat && c.toNat < 160)
  if a == '\r' && b == '\n' then true
  else if control a || control b then false
  else
    (128 ≤ b.toNat && (CharSet.graphemeExtend.contains b || CharSet.joinsBeforeOnly.contains b)) ||
      (128 ≤ a.toNat && CharSet.joinsAfter.contains a)

/-- The perceived characters of a text, in order. -/
def split : List Char → List (List Char)
  | [] => []
  | c :: rest =>
    match split rest with
    | (d :: ds) :: more => if joined c d then (c :: d :: ds) :: more else [c] :: (d :: ds) :: more
    | more => [c] :: more

end RecordStore.Cluster
