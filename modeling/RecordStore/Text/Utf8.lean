/-!
UTF-8 octets back to characters. Octets that belong to no character are replaced: each longest
piece that could have begun a character gives one U+FFFD.
-/
namespace RecordStore.Utf8

/-- A character of which `owed` octets are missing; the next one lies from `low` to `high`. -/
structure Pending where
  owed : Nat
  low : Nat
  high : Nat
  value : Nat

/-- What an octet is between characters. -/
inductive Lead where
  | whole (c : Char)
  | opens (p : Pending)
  | invalid

def lead (b : Nat) : Lead :=
  if b < 0x80 then .whole (Char.ofNat b)
  else if 0xC2 ≤ b ∧ b ≤ 0xDF then .opens ⟨1, 0x80, 0xBF, b - 0xC0⟩
  else if b = 0xE0 then .opens ⟨2, 0xA0, 0xBF, 0⟩
  else if b = 0xED then .opens ⟨2, 0x80, 0x9F, b - 0xE0⟩
  else if 0xE1 ≤ b ∧ b ≤ 0xEF then .opens ⟨2, 0x80, 0xBF, b - 0xE0⟩
  else if b = 0xF0 then .opens ⟨3, 0x90, 0xBF, 0⟩
  else if 0xF1 ≤ b ∧ b ≤ 0xF3 then .opens ⟨3, 0x80, 0xBF, b - 0xF0⟩
  else if b = 0xF4 then .opens ⟨3, 0x80, 0x8F, 4⟩
  else .invalid

def replacement : Char := '\uFFFD'

/-- One octet between characters: what it gives at once, and what it leaves pending. -/
def fresh (b : Nat) : List Char × Option Pending :=
  match lead b with
  | .whole c => ([c], none)
  | .opens p => ([], some p)
  | .invalid => ([replacement], none)

/-- One octet. One that does not continue the pending character ends it and starts anew. -/
def step (pending : Option Pending) (b : Nat) : List Char × Option Pending :=
  match pending with
  | none => fresh b
  | some p =>
    if p.low ≤ b ∧ b ≤ p.high then
      let value := p.value * 64 + (b - 0x80)
      if p.owed ≤ 1 then ([Char.ofNat value], none)
      else ([], some ⟨p.owed - 1, 0x80, 0xBF, value⟩)
    else
      let (out, next) := fresh b
      (replacement :: out, next)

def decodeFrom : Option Pending → List UInt8 → List Char
  | none, [] => []
  | some _, [] => [replacement]
  | pending, b :: rest =>
    let (out, next) := step pending b.toNat
    out ++ decodeFrom next rest

/-- The text of some octets, with U+FFFD for what is not UTF-8. -/
def decode (bytes : List UInt8) : String := String.ofList (decodeFrom none bytes)

/-- The octets of a text. -/
def encode (s : String) : List UInt8 := s.toUTF8.toList

end RecordStore.Utf8
