import TypedRoutes.Markup.Document

/-!
# Scalars of settings files

A scalar that is not plain is text.  A plain one may stand for nothing, a truth value, an integer or
a number, and is text otherwise.  A tag of the core schema says which of these a scalar is.
-/

namespace TypedRoutes

/-- A size as it is given: a number, or a text that is still to be read. -/
inductive SizeSetting
  | number (n : Nat)
  | text (s : String)
  deriving DecidableEq

namespace SettingValue

/-- The value of a digit below two. -/
def binaryDigit? (c : Char) : Option Nat :=
  (Numeral.decimalDigit? c).filter (· < 2)

/-- The value of a digit below eight. -/
def octalDigit? (c : Char) : Option Nat :=
  (Numeral.decimalDigit? c).filter (· < 8)

/-- Several digits of which the first is zero; such a scalar is not a number. -/
def isPaddedNumeral (cs : List Char) : Bool :=
  match cs with
  | '0' :: rest => !rest.isEmpty && rest.all Char.isDigit
  | _ => false

/-- A natural number without sign: decimal, or marked as hexadecimal, octal or binary. -/
def natural? : List Char → Option Nat
  | '0' :: 'x' :: rest => Numeral.digits? Numeral.hexDigit? 16 rest
  | '0' :: 'o' :: rest => Numeral.digits? octalDigit? 8 rest
  | '0' :: 'b' :: rest => Numeral.digits? binaryDigit? 2 rest
  | cs => if isPaddedNumeral cs then none else Numeral.digits? Numeral.decimalDigit? 10 cs

/-- A plain scalar's characters without a plus sign. -/
def unsigned (cs : List Char) : List Char :=
  match cs with
  | '+' :: rest => rest
  | _ => cs

/-- A plain scalar's characters without a sign. -/
def unsignedMagnitude (cs : List Char) : List Char :=
  match cs with
  | '+' :: rest | '-' :: rest => rest
  | _ => cs

/-- The integer that a plain scalar stands for, if it fits 128 bits; without a minus sign, the sign
bit counts for the number. -/
def integer? (cs : List Char) : Option Int :=
  match cs with
  | '-' :: rest =>
    ((natural? rest).filter (· ≤ Nat.pow 2 127)).map fun n => -(n : Int)
  | _ => ((natural? (unsigned cs)).filter (· < Nat.pow 2 128)).map fun n => (n : Int)

/-- Whether a plain scalar stands for a number that is not an integer. -/
def isNumber (cs : List Char) : Bool :=
  let magnitude := String.ofList (unsignedMagnitude cs)
  if magnitude ∈ [".inf", ".Inf", ".INF"] then true
  else if String.ofList cs ∈ [".nan", ".NaN", ".NAN"] then true
  else if isPaddedNumeral (unsignedMagnitude cs) then false
  else
    match cs with
    | '+' :: '+' :: _ | '+' :: '-' :: _ => false
    | _ => (Numeral.float? cs).any Float.isFinite

/-- Whether a text stands for nothing. -/
def isNull (s : String) : Bool :=
  s ∈ ["~", "null", "Null", "NULL"]

/-- Whether a scalar stands for nothing; a plain one must, if its tag says so. -/
def isAbsent (scalar : Markup.Scalar) : Except Unit Bool :=
  if scalar.isPlain then
    match scalar.tag with
    | none => .ok (scalar.text.isEmpty || isNull scalar.text)
    | some tag =>
      if tag ≠ Markup.coreTag "null" then .ok false
      else if isNull scalar.text then .ok true
      else .error ()
  else .ok false

/-- Whether a plain scalar stands for a truth value. -/
def isTruth (s : String) : Bool :=
  s ∈ ["true", "True", "TRUE", "false", "False", "FALSE"]

/-- A text where a scalar with any tag may stand. -/
def asText (scalar : Markup.Scalar) : Except Unit (Option String) :=
  (isAbsent scalar).map fun absent => if absent then none else some scalar.text

/-- The size that is a number, which must fit 64 bits. -/
def sizeOf (n : Int) : Except Unit SizeSetting :=
  if 0 ≤ n ∧ n < Int.pow 2 64 then .ok (.number n.toNat) else .error ()

/-- The size that a plain scalar without a tag stands for: an error for a truth value, for an
integer that is negative or too large, and for any other number. -/
def plainSize (s : String) : Except Unit SizeSetting :=
  if isTruth s then .error ()
  else
    match integer? s.toList with
    | some n => sizeOf n
    | none => if isNumber s.toList then .error () else .ok (.text s)

/-- The size that a scalar with a tag stands for: an integer if the tag says so, an error for the
other kinds of the core schema and for a tag of the application, and text for any other tag. -/
def taggedSize (tag s : String) : Except Unit SizeSetting :=
  if tag = Markup.coreTag "int" then
    match integer? s.toList with
    | some n => sizeOf n
    | none => .error ()
  else if tag ∈ ["bool", "float", "null"].map Markup.coreTag ∨ tag.toList.head? = some '!' then
    .error ()
  else .ok (.text s)

/-- The scalar where a size is asked for. -/
def asSize (scalar : Markup.Scalar) : Except Unit (Option SizeSetting) := do
  if ← isAbsent scalar then return none
  match scalar.tag with
  | some tag => return some (← taggedSize tag scalar.text)
  | none =>
    if scalar.isPlain then return some (← plainSize scalar.text)
    else return some (.text scalar.text)

end SettingValue
end TypedRoutes
