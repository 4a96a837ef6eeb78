import TypedRoutes.Decimal.Binary64
import TypedRoutes.Json.Basic
import TypedRoutes.Text.Utf8

/-!
# Reading JSON text

A reader for RFC 8259 text.  Containers nest at most 127 deep, a repeated key keeps its last value,
and a number beyond the binary64 range is malformed.
-/

namespace TypedRoutes
namespace Json

/-- The deepest nesting of containers that is read. -/
def maxNesting : Nat := 127

/-- The blanks between tokens. -/
def isGap (c : Char) : Bool :=
  c == ' ' || c == '\n' || c == '\t' || c == '\r'

/-- The rest of the text from the next token on. -/
def skipGap (cs : List Char) : List Char :=
  cs.dropWhile isGap

/-- The value of a decimal digit. -/
def digitValue (c : Char) : Nat :=
  c.toNat - '0'.toNat

/-- The value of a hexadecimal digit of either case. -/
def hexDigit? (c : Char) : Option Nat :=
  if '0' ≤ c ∧ c ≤ '9' then some (c.toNat - 48)
  else if 'a' ≤ c ∧ c ≤ 'f' then some (c.toNat - 87)
  else if 'A' ≤ c ∧ c ≤ 'F' then some (c.toNat - 55)
  else none

/-! ## Numbers -/

/-- The least integer that needs more than 64 bits. -/
def wordLimit : Nat := Nat.pow 2 64

/-- The leading digits whose value stays below `wordLimit`, appended to `significand`; the first
digit that does not fit ends the significand and stays in the rest. -/
def takeDigits : Nat → List Char → Nat × Nat × List Char
  | significand, [] => (significand, 0, [])
  | significand, c :: rest =>
    if c.isDigit then
      let next := significand * 10 + digitValue c
      if next < wordLimit then
        let (result, count, remaining) := takeDigits next rest
        (result, count + 1, remaining)
      else
        (significand, 0, c :: rest)
    else
      (significand, 0, c :: rest)

/-- A power of ten that a binary64 number is multiplied or divided by, at most `10 ^ 308`. -/
def powerOfTen (n : Nat) : Float :=
  Binary64.ofDecimal false 1 n

/-- `x` scaled by `10 ^ exponent`: divided by `10 ^ 308` while the exponent is below -308, then
multiplied or divided once.  There is no result beyond the binary64 range. -/
def scaleByTen (x : Float) (exponent : Int) : Nat → Option Float
  | 0 => some x
  | steps + 1 =>
    if exponent.natAbs ≤ 308 then
      if 0 ≤ exponent then
        let y := x * powerOfTen exponent.toNat
        if y.isInf then none else some y
      else
        some (x / powerOfTen exponent.natAbs)
    else if x == 0 then some x
    else if 0 ≤ exponent then none
    else scaleByTen (x / powerOfTen 308) (exponent + 308) steps

/-- The number with a 64-bit significand and a decimal exponent.  The significand is rounded first,
then scaled; below `10 ^ -700` nothing but zero remains. -/
def floatOfParts (negative : Bool) (significand : Nat) (exponent : Int) : Option Json :=
  (scaleByTen (Binary64.ofInt significand) (max exponent (-2000)) 8).map fun x =>
    .float (if negative then -x else x)

/-- The greatest exponent that is read as a number. -/
def exponentLimit : Nat := Nat.pow 2 31 - 1

/-- The number after its exponent mark. -/
def readExponent (negative : Bool) (significand : Nat) (start : Int) (cs : List Char) :
    Option (Json × List Char) :=
  let (down, cs) := match cs with
    | '+' :: rest => (false, rest)
    | '-' :: rest => (true, rest)
    | _ => (false, cs)
  let digits := cs.takeWhile Char.isDigit
  let rest := cs.dropWhile Char.isDigit
  if digits.isEmpty then
    none
  else
    let exponent := digits.foldl (fun n c => n * 10 + digitValue c) 0
    if exponentLimit < exponent then
      if significand ≠ 0 ∧ !down then none
      else some (.float (if negative then -0.0 else 0.0), rest)
    else
      (floatOfParts negative significand (if down then start - exponent else start + exponent)).map
        fun x => (x, rest)

/-- The number after its integer digits and an optional fraction, from an exponent mark on. -/
def readScaled (negative : Bool) (significand : Nat) (exponent : Int) (cs : List Char) :
    Option (Json × List Char) :=
  match cs with
  | 'e' :: rest | 'E' :: rest => readExponent negative significand exponent rest
  | _ => (floatOfParts negative significand exponent).map fun x => (x, cs)

/-- The number after its decimal point; digits past the 64-bit significand are skipped. -/
def readFraction (negative : Bool) (significand : Nat) (exponent : Int) (cs : List Char) :
    Option (Json × List Char) :=
  let (significand, count, rest) := takeDigits significand cs
  let skipped := rest.dropWhile Char.isDigit
  if count = 0 ∧ skipped.length = rest.length then
    none
  else
    readScaled negative significand (exponent - count) skipped

/-- The number after its integer digits. -/
def readAfterInteger (negative : Bool) (significand : Nat) (exponent : Int) (cs : List Char) :
    Option (Json × List Char) :=
  match cs with
  | '.' :: rest => readFraction negative significand exponent rest
  | _ => readScaled negative significand exponent cs

/-- A number without its sign.  Digits alone are an integer if they fit 64 bits with the sign; minus
zero is not an integer. -/
def readNumber (negative : Bool) (cs : List Char) : Option (Json × List Char) :=
  match cs with
  | '0' :: c :: rest =>
    if c.isDigit then none
    else if c == '.' || c == 'e' || c == 'E' then readAfterInteger negative 0 0 (c :: rest)
    else some (if negative then .float (-0.0) else .int 0, c :: rest)
  | ['0'] => some (if negative then .float (-0.0) else .int 0, [])
  | c :: _ =>
    if c.isDigit then
      let (significand, _, rest) := takeDigits 0 cs
      let long := rest.dropWhile Char.isDigit
      match long with
      | '.' :: _ | 'e' :: _ | 'E' :: _ =>
        readAfterInteger negative significand ((rest.length : Int) - long.length) long
      | _ =>
        if long.length < rest.length then
          readScaled negative significand ((rest.length : Int) - long.length) long
        else if negative then
          if significand ≤ Nat.pow 2 63 then some (.int (-significand), rest)
          else some (.float (-(Binary64.ofInt significand)), rest)
        else
          some (.int significand, rest)
    else
      none
  | [] => none

/-! ## Strings -/

/-- The number of four hexadecimal digits. -/
def readUnit : List Char → Option (Nat × List Char)
  | a :: b :: c :: d :: rest => do
    let a ← hexDigit? a
    let b ← hexDigit? b
    let c ← hexDigit? c
    let d ← hexDigit? d
    some (a * 4096 + b * 256 + c * 16 + d, rest)
  | _ => none

/-- The character of a `u` escape.  A surrogate is read only as the first half of a pair. -/
def readEscapedUnit (cs : List Char) : Option (Char × List Char) := do
  let (high, rest) ← readUnit cs
  if 0xD800 ≤ high ∧ high ≤ 0xDBFF then
    match rest with
    | '\\' :: 'u' :: rest =>
      let (low, rest) ← readUnit rest
      if 0xDC00 ≤ low ∧ low ≤ 0xDFFF then
        some (Char.ofNat (0x10000 + (high - 0xD800) * 0x400 + (low - 0xDC00)), rest)
      else
        none
    | _ => none
  else if 0xDC00 ≤ high ∧ high ≤ 0xDFFF then
    none
  else
    some (Char.ofNat high, rest)

/-- The character of an escape, after the backslash. -/
def readEscape : List Char → Option (Char × List Char)
  | '"' :: rest => some ('"', rest)
  | '\\' :: rest => some ('\\', rest)
  | '/' :: rest => some ('/', rest)
  | 'b' :: rest => some ('\x08', rest)
  | 'f' :: rest => some ('\x0c', rest)
  | 'n' :: rest => some ('\n', rest)
  | 'r' :: rest => some ('\r', rest)
  | 't' :: rest => some ('\t', rest)
  | 'u' :: rest => readEscapedUnit rest
  | _ => none

/-- The characters of a string up to its closing quote; control characters must be escaped.  Every
step consumes a character, so the length of the text bounds their number. -/
def readString : Nat → List Char → Option (List Char × List Char)
  | 0, _ => none
  | _ + 1, [] => none
  | steps + 1, c :: rest =>
    if c = '"' then
      some ([], rest)
    else if c = '\\' then do
      let (c, rest) ← readEscape rest
      let (cs, rest) ← readString steps rest
      some (c :: cs, rest)
    else if c.toNat < 0x20 then
      none
    else do
      let (cs, rest) ← readString steps rest
      some (c :: cs, rest)

/-- A quoted string. -/
def readQuoted (cs : List Char) : Option (String × List Char) :=
  match cs with
  | '"' :: rest => (readString (rest.length + 1) rest).map fun (s, rest) => (String.ofList s, rest)
  | _ => none

/-! ## Values -/

/-- A literal name. -/
def readWord : List Char → Option (Json × List Char)
  | 'n' :: 'u' :: 'l' :: 'l' :: rest => some (.null, rest)
  | 't' :: 'r' :: 'u' :: 'e' :: rest => some (.bool true, rest)
  | 'f' :: 'a' :: 'l' :: 's' :: 'e' :: rest => some (.bool false, rest)
  | _ => none

mutual

/-- A value at the start of a text.  `steps` bounds the number of tokens, `nesting` the containers
that may still be opened. -/
def readValue (nesting : Nat) : Nat → List Char → Option (Json × List Char)
  | 0, _ => none
  | steps + 1, cs =>
    match skipGap cs with
    | '"' :: rest => (readQuoted ('"' :: rest)).map fun (s, rest) => (.string s, rest)
    | '[' :: rest =>
      if nesting = 0 then none
      else
        match skipGap rest with
        | ']' :: rest => some (.array [], rest)
        | rest => (readItems (nesting - 1) steps rest).map fun (xs, rest) => (.array xs, rest)
    | '\x7b' :: rest =>
      if nesting = 0 then none
      else
        match skipGap rest with
        | '\x7d' :: rest => some (.object [], rest)
        | rest =>
          (readMembers (nesting - 1) steps rest).map fun (ms, rest) =>
            (.object (Members.ofList ms), rest)
    | '-' :: rest => readNumber true rest
    | c :: rest => if c.isDigit then readNumber false (c :: rest) else readWord (c :: rest)
    | [] => none

/-- The items of an array, from the first one to the closing bracket. -/
def readItems (nesting : Nat) : Nat → List Char → Option (List Json × List Char)
  | 0, _ => none
  | steps + 1, cs => do
    let (value, rest) ← readValue nesting steps cs
    match skipGap rest with
    | ',' :: rest =>
      let (values, rest) ← readItems nesting steps rest
      some (value :: values, rest)
    | ']' :: rest => some ([value], rest)
    | _ => none

/-- The members of an object, from the first one to the closing brace. -/
def readMembers (nesting : Nat) : Nat → List Char → Option (List (String × Json) × List Char)
  | 0, _ => none
  | steps + 1, cs => do
    let (key, rest) ← readQuoted (skipGap cs)
    match skipGap rest with
    | ':' :: rest =>
      let (value, rest) ← readValue nesting steps rest
      match skipGap rest with
      | ',' :: rest =>
        let (members, rest) ← readMembers nesting steps rest
        some ((key, value) :: members, rest)
      | '\x7d' :: rest => some ([(key, value)], rest)
      | _ => none
    | _ => none

end

/-- The value of a text that holds one value and blanks around it. -/
def parse? (s : String) : Option Json :=
  let cs := s.toList
  match readValue maxNesting (cs.length + 1) cs with
  | some (value, rest) => if (skipGap rest).isEmpty then some value else none
  | none => none

/-- The value of a byte sequence in UTF-8. -/
def parseBytes? (bytes : List UInt8) : Option Json :=
  (Text.ofBytes? bytes).bind parse?

end Json
end TypedRoutes
