import RecordStore.Text.CharClass
import RecordStore.Text.Utf8

/-!
Form data: key and value pairs with an equals sign between the two and ampersands between pairs.
In both parts a plus sign stands for a blank and a percent sign with two hex digits for an octet.
-/
namespace RecordStore.FormData

def octetValue? (b : UInt8) : Option Nat := CharClass.hexValue? (Char.ofNat b.toNat)

/-- A percent sign without two hex digits stands for itself. -/
def unescape : List UInt8 → List UInt8
  | [] => []
  | 0x2B :: rest => 0x20 :: unescape rest
  | 0x25 :: h :: l :: rest =>
    match octetValue? h, octetValue? l with
    | some h', some l' => UInt8.ofNat (16 * h' + l') :: unescape rest
    | _, _ => 0x25 :: unescape (h :: l :: rest)
  | b :: rest => b :: unescape rest

def decodePart (cs : List Char) : String :=
  Utf8.decode (unescape (Utf8.encode (String.ofList cs)))

/-- A pair without an equals sign has an empty value. -/
def decodePair (cs : List Char) : String × String :=
  (decodePart (cs.takeWhile (· != '=')), decodePart ((cs.dropWhile (· != '=')).drop 1))

/-- Pieces between ampersands. -/
def pieces : List Char → List (List Char)
  | [] => [[]]
  | c :: rest =>
    if c == '&' then [] :: pieces rest
    else
      match pieces rest with
      | [] => [[c]]
      | p :: ps => (c :: p) :: ps

/-- The pairs of a text in order; empty pieces are no pairs. -/
def decode (text : String) : List (String × String) :=
  ((pieces text.toList).filter (!·.isEmpty)).map decodePair

end RecordStore.FormData
