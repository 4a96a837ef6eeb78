import TypedRoutes.Decimal.Binary64

/-!
# The shortest decimal text of a binary64 number

A finite number is written with the fewest digits that read back as the same number; of two such
decimals of one length the nearer is taken, an exact tie going to the even digit.  How the digits
are laid out is one `Layout` value.
-/

namespace TypedRoutes
namespace Decimal

/-- The integer digits of a decimal and the place of the first of them: `d.ddd * 10 ^ place`. -/
structure Digits where
  digits : List Char
  place : Int

/-- The place of the first digit of the positive quotient `num / den`. -/
def firstPlace (num den : Nat) : Int :=
  if den ≤ num then
    ((Nat.toDigits 10 (num / den)).length : Int) - 1
  else
    match (List.range 400).find? fun j => den ≤ num * Nat.pow 10 j with
    | some j => -(j : Int)
    | none => -400

/-- The decimal of `count` digits next to `num / den` that reads back as `x`, if there is one. -/
def ofLength (x : Float) (num den : Nat) (place : Int) (count : Nat) : Option (Nat × Int) :=
  let grid := place - count + 1
  let (n, d) :=
    if 0 ≤ grid then (num, den * Nat.pow 10 grid.toNat)
    else (num * Nat.pow 10 (-grid).toNat, den)
  let below := n / d
  let readsBack (m : Nat) : Bool := (Binary64.ofDecimal false m grid).toBits == x.toBits
  let belowNearer : Bool := 2 * (n % d) < d ∨ (2 * (n % d) = d ∧ below % 2 = 0)
  match readsBack below, readsBack (below + 1) with
  | true, true => some (if belowNearer then below else below + 1, grid)
  | true, false => some (below, grid)
  | false, true => some (below + 1, grid)
  | false, false => none

/-- The shortest digits of a positive finite number; seventeen digits always suffice. -/
def shortest (x : Float) : Digits :=
  let ⟨_, mantissa, exponent⟩ := Binary64.decode x
  let num := if 0 ≤ exponent then mantissa * Nat.pow 2 exponent.toNat else mantissa
  let den := if 0 ≤ exponent then 1 else Nat.pow 2 (-exponent).toNat
  let place := firstPlace num den
  match (List.range 17).findSome? fun k => ofLength x num den place (k + 1) with
  | some (m, grid) =>
    let all := Nat.toDigits 10 m
    ⟨(all.reverse.dropWhile (· == '0')).reverse, grid + (all.length : Int) - 1⟩
  | none => ⟨['0'], 0⟩

/-- How the digits of a number are laid out. -/
structure Layout where
  /-- The least and the greatest place of the first digit that is written positionally. -/
  positionalFrom : Int
  positionalTo : Int
  /-- What follows the digits of a number without a fraction. -/
  integralEnd : String
  /-- What stands between the digits and the exponent, by the exponent's sign. -/
  positiveMark : String
  negativeMark : String

/-- The digits of a positive number in a layout. -/
def Layout.write (layout : Layout) (d : Digits) : String :=
  if layout.positionalFrom ≤ d.place ∧ d.place ≤ layout.positionalTo then
    if d.place < 0 then
      "0." ++ String.ofList (List.replicate ((-d.place).toNat - 1) '0' ++ d.digits)
    else
      let whole := d.place.toNat + 1
      if d.digits.length ≤ whole then
        String.ofList (d.digits ++ List.replicate (whole - d.digits.length) '0') ++
          layout.integralEnd
      else
        String.ofList (d.digits.take whole ++ '.' :: d.digits.drop whole)
  else
    let significand := match d.digits with
      | [] => "0"
      | [c] => String.ofList [c]
      | c :: rest => String.ofList (c :: '.' :: rest)
    significand ++ (if d.place < 0 then layout.negativeMark else layout.positiveMark) ++
      toString d.place.natAbs

/-- A finite number in a layout, with its sign; zero is written as an integral number. -/
def Layout.text (layout : Layout) (x : Float) : String :=
  let parts := Binary64.decode x
  (if parts.negative then "-" else "") ++
    (if parts.mantissa = 0 then
      "0" ++ layout.integralEnd
    else
      layout.write (shortest (Binary64.ofMagnitude false (x.toBits.toNat % Nat.pow 2 63))))

end Decimal
end TypedRoutes
