/-!
# Binary64 numbers as exact fractions

A finite binary64 number is a signed integer times a power of two.  `ofRatio` reads a quotient of
natural numbers as the nearest binary64 number, a tie going to the even mantissa, in exact integer
arithmetic; `ofDecimal` reads a decimal by it.
-/

namespace TypedRoutes
namespace Binary64

/-- A finite number: `mantissa * 2 ^ exponent`, negated when `negative`. -/
structure Finite where
  negative : Bool
  mantissa : Nat
  exponent : Int

/-- The parts of a finite number, from its bit pattern. -/
def decode (x : Float) : Finite :=
  let bits := x.toBits.toNat
  let biased : Nat := bits / Nat.pow 2 52 % Nat.pow 2 11
  let fraction : Nat := bits % Nat.pow 2 52
  if biased = 0 then
    ⟨Nat.pow 2 63 ≤ bits, fraction, -1074⟩
  else
    ⟨Nat.pow 2 63 ≤ bits, Nat.pow 2 52 + fraction, (biased : Int) - 1075⟩

/-- The number with a bit pattern below infinity's, and infinity above. -/
def ofMagnitude (negative : Bool) (bits : Nat) : Float :=
  let sign := if negative then Nat.pow 2 63 else 0
  Float.ofBits (sign + min bits (2047 * Nat.pow 2 52)).toUInt64

/-- The quotient of two natural numbers to the nearest integer, a tie going to the even one. -/
def roundDiv (num den : Nat) : Nat :=
  let q := num / den
  let r := num % den
  if den < 2 * r ∨ (den = 2 * r ∧ q % 2 = 1) then q + 1 else q

/-- `num / den` divided by `2 ^ exponent`, as a numerator and a denominator. -/
def scale (num den : Nat) (exponent : Int) : Nat × Nat :=
  if 0 ≤ exponent then (num, den * Nat.pow 2 exponent.toNat)
  else (num * Nat.pow 2 (-exponent).toNat, den)

/-- The binary64 number nearest to `num / den`.  The exponent is chosen so that the mantissa has 53
bits, fewer below the normal range; a mantissa that rounds up to 54 bits carries into the
exponent. -/
def ofRatio (negative : Bool) (num den : Nat) : Float :=
  if num = 0 then
    ofMagnitude negative 0
  else
    let low : Int := (num.log2 : Int) - den.log2 - 53
    let (n, d) := scale num den low
    let exponent := max (if Nat.pow 2 53 ≤ n / d then low + 1 else low) (-1074)
    let (n, d) := scale num den exponent
    ofMagnitude negative ((exponent + 1074).toNat * Nat.pow 2 52 + roundDiv n d)

/-- The binary64 number nearest to `mantissa * 10 ^ exponent`.  Decimals far outside the range are
decided by the place of their first digit, without computing the power. -/
def ofDecimal (negative : Bool) (mantissa : Nat) (exponent : Int) : Float :=
  let place := ((Nat.toDigits 10 mantissa).length : Int) + exponent
  if mantissa = 0 ∨ place < -340 then
    ofMagnitude negative 0
  else if 320 < place then
    ofMagnitude negative (2047 * Nat.pow 2 52)
  else if 0 ≤ exponent then
    ofRatio negative (mantissa * Nat.pow 10 exponent.toNat) 1
  else
    ofRatio negative mantissa (Nat.pow 10 (-exponent).toNat)

/-- The binary64 number nearest to an integer. -/
def ofInt (n : Int) : Float :=
  ofRatio (n < 0) n.natAbs 1

/-- The integer that a number is exactly, if it is one. -/
def toInt? (x : Float) : Option Int :=
  if x.isFinite then
    let ⟨negative, mantissa, exponent⟩ := decode x
    let divisor := Nat.pow 2 (-exponent).toNat
    let magnitude : Option Nat :=
      if 0 ≤ exponent then some (mantissa * Nat.pow 2 exponent.toNat)
      else if mantissa % divisor = 0 then some (mantissa / divisor)
      else none
    magnitude.map fun n => if negative then -(n : Int) else n
  else
    none

end Binary64
end TypedRoutes
