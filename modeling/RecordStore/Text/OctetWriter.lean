/-!
Writers that take octets while there is room. An offer may be taken in part only, and is repeated
with what is left of it; what does not fit is lost, and the writer says so.
-/
namespace RecordStore

structure OctetWriter where
  /-- How many octets are left; no limit if there is none. -/
  room : Option Nat := none
  failsFlush : Bool := false
  written : List UInt8 := []
  /-- How many octets are taken at a time besides the first; no limit if there is none. -/
  pace : Option Nat := none
  deriving DecidableEq, Repr

namespace OctetWriter

/-- How many octets of an offer are taken. -/
def portion (w : OctetWriter) (octets : List UInt8) : Nat :=
  let n := match w.pace with
    | none => octets.length
    | some p => min (p + 1) octets.length
  match w.room with
  | none => n
  | some r => min r n

/-- Take octets for which there is room. -/
def accept (w : OctetWriter) (octets : List UInt8) : OctetWriter :=
  { w with room := w.room.map (· - octets.length), written := w.written ++ octets }

/-- Offer octets until none is left or none is taken, and tell whether they were all taken. -/
def write (w : OctetWriter) (octets : List UInt8) : Bool × OctetWriter :=
  if octets.isEmpty then (true, w)
  else
    let n := w.portion octets
    if n = 0 then (false, w) else (w.accept (octets.take n)).write (octets.drop n)
termination_by octets.length
decreasing_by
  simp only [List.isEmpty_iff] at *
  have : 0 < octets.length := List.length_pos_iff.mpr ‹_›
  simp only [List.length_drop]
  omega

end OctetWriter
end RecordStore
