import TypedRoutes.Decimal.Binary64
import TypedRoutes.Text.Blank

/-!
# Reading numerals

Decimal and hexadecimal numerals, integers with a sign, and binary64 numbers.  None of the readers
skips blanks; each reads its whole input.
-/

namespace TypedRoutes
namespace Numeral

/-- The value of a digit below ten. -/
def decimalDigit? (c : Char) : Option Nat :=
  if c.isDigit then some (c.toNat - '0'.toNat) else none

/-- The value of a hexadecimal digit of either case. -/
def hexDigit? (c : Char) : Option Nat :=
  if c.isDigit then some (c.toNat - '0'.toNat)
  else if 'a' ≤ c ∧ c ≤ 'f' then some (c.toNat - 'a'.toNat + 10)
  else if 'A' ≤ c ∧ c ≤ 'F' then some (c.toNat - 'A'.toNat + 10)
  else none

/-- The number of a non-empty list of digits. -/
def digits? (digit? : Char → Option Nat) (base : Nat) (cs : List Char) : Option Nat :=
  if cs.isEmpty then none
  else (cs.mapM digit?).map fun ds => ds.foldl (fun n d => n * base + d) 0

/-- A natural number, with or without a plus sign. -/
def nat? (digit? : Char → Option Nat) (base : Nat) : List Char → Option Nat
  | '+' :: cs => digits? digit? base cs
  | cs => digits? digit? base cs

/-- A decimal natural number below `2 ^ 64`. -/
def word? (cs : List Char) : Option Nat :=
  (nat? decimalDigit? 10 cs).filter (· < Nat.pow 2 64)

/-- A hexadecimal natural number below `2 ^ 64`, without a mark in front. -/
def hexWord? (cs : List Char) : Option Nat :=
  (nat? hexDigit? 16 cs).filter (· < Nat.pow 2 64)

/-- A decimal integer with an optional sign. -/
def int? : List Char → Option Int
  | '-' :: cs => (digits? decimalDigit? 10 cs).map fun n => -(n : Int)
  | cs => (nat? decimalDigit? 10 cs).map fun n => (n : Int)

/-- The value of a list of decimal digits, zero for none. -/
def decimalValue (cs : List Char) : Nat :=
  cs.foldl (fun n c => n * 10 + (c.toNat - '0'.toNat)) 0

/-- A decimal exponent: a sign and at least one digit. -/
def exponent? : List Char → Option Int
  | '+' :: cs => (digits? decimalDigit? 10 cs).map fun n => (n : Int)
  | '-' :: cs => (digits? decimalDigit? 10 cs).map fun n => -(n : Int)
  | cs => (digits? decimalDigit? 10 cs).map fun n => (n : Int)

/-- A number without its sign: digits on at least one side of an optional point, then an optional
exponent; or the name of infinity or of no number, in any case. -/
def magnitude? (negative : Bool) (cs : List Char) : Option Float :=
  let word := String.ofList (cs.map Char.toLower)
  if word = "inf" ∨ word = "infinity" then
    some (Binary64.ofMagnitude negative (2047 * Nat.pow 2 52))
  else if word = "nan" then
    some (Float.ofBits 0x7FF8000000000000)
  else
    let whole := cs.takeWhile Char.isDigit
    let afterWhole := cs.dropWhile Char.isDigit
    let afterPoint := match afterWhole with
      | '.' :: rest => rest
      | _ => []
    let fraction := afterPoint.takeWhile Char.isDigit
    let rest := match afterWhole with
      | '.' :: rest => rest.dropWhile Char.isDigit
      | rest => rest
    let exponent : Option Int := match rest with
      | [] => some 0
      | 'e' :: rest | 'E' :: rest => exponent? rest
      | _ => none
    if whole.isEmpty && fraction.isEmpty then none
    else
      exponent.map fun e =>
        Binary64.ofDecimal negative (decimalValue (whole ++ fraction)) (e - fraction.length)

/-- A binary64 number with an optional sign, correctly rounded. -/
def float? : List Char → Option Float
  | '-' :: cs => magnitude? true cs
  | '+' :: cs => magnitude? false cs
  | cs => magnitude? false cs

end Numeral
end TypedRoutes
