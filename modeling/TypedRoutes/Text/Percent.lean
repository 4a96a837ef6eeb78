import TypedRoutes.Text.Utf8

/-!
# Percent encoding and form-encoded pairs

A percent sign followed by two hexadecimal digits stands for one byte; any other percent sign stands
for itself.  Query strings are lists of pairs in the form encoding, where a plus sign is a space.
-/

namespace TypedRoutes
namespace Text

/-- The value of a hexadecimal digit byte of either case. -/
def hexValue? (b : UInt8) : Option UInt8 :=
  if 48 ≤ b ∧ b ≤ 57 then some (b - 48)
  else if 65 ≤ b ∧ b ≤ 70 then some (b - 55)
  else if 97 ≤ b ∧ b ≤ 102 then some (b - 87)
  else none

/-- Bytes with every complete percent escape replaced by the byte it stands for. -/
def percentDecode : List UInt8 → List UInt8
  | 37 :: a :: b :: rest =>
    match hexValue? a, hexValue? b with
    | some high, some low => (high * 16 + low) :: percentDecode rest
    | _, _ => 37 :: percentDecode (a :: b :: rest)
  | b :: rest => b :: percentDecode rest
  | [] => []

/-- The pieces of a byte sequence between the occurrences of a separator. -/
def bytePieces (separator : UInt8) : List UInt8 → List (List UInt8)
  | [] => [[]]
  | b :: rest =>
    if b == separator then
      [] :: bytePieces separator rest
    else
      match bytePieces separator rest with
      | [] => [[b]]
      | piece :: others => (b :: piece) :: others

/-- One side of a form-encoded pair: a plus sign is a space, then escapes are decoded. -/
def formDecode (bs : List UInt8) : String :=
  ofBytesLossy (percentDecode (bs.map fun b => if b == 43 then 32 else b))

/-- The pairs of a form-encoded text.  Pieces are separated by ampersands, empty ones are dropped,
and the first equals sign of a piece ends its name. -/
def formPairs (s : String) : List (String × String) :=
  ((bytePieces 38 (bytes s)).filter fun piece => !piece.isEmpty).map fun piece =>
    (formDecode (piece.takeWhile (· != 61)), formDecode ((piece.dropWhile (· != 61)).drop 1))

end Text
end TypedRoutes
