import TypedRoutes.Decimal.Shortest
import TypedRoutes.Json.Basic

/-!
# Compact JSON text

Values are written without spaces, objects in key order.  Numbers that are not integers are written
with the shortest digits that read back.
-/

namespace TypedRoutes
namespace Json

/-- Numbers are positional while their first digit stands between the fifth decimal and the
sixteenth integer place; integral ones end in `.0`, and an exponent carries its sign. -/
def numberLayout : Decimal.Layout where
  positionalFrom := -5
  positionalTo := 15
  integralEnd := ".0"
  positiveMark := "e+"
  negativeMark := "e-"

/-- A character inside a quoted string: quotes, backslashes and control characters are escaped. -/
def escape (c : Char) : List Char :=
  if c = '"' then ['\\', '"']
  else if c = '\\' then ['\\', '\\']
  else if c = '\x08' then ['\\', 'b']
  else if c = '\x0c' then ['\\', 'f']
  else if c = '\n' then ['\\', 'n']
  else if c = '\r' then ['\\', 'r']
  else if c = '\t' then ['\\', 't']
  else if c.toNat < 0x20 then
    ['\\', 'u', '0', '0', Nat.digitChar (c.toNat / 16), Nat.digitChar (c.toNat % 16)]
  else [c]

/-- A string in quotes. -/
def quote (s : String) : String :=
  String.ofList ('"' :: (s.toList.flatMap escape ++ ['"']))

/-- The text of a number or a truth value, as it stands in JSON. -/
def floatText (x : Float) : String :=
  numberLayout.text x

mutual

/-- The compact text of a value. -/
def compact : Json → String
  | .null => "null"
  | .bool true => "true"
  | .bool false => "false"
  | .int n => toString n
  | .float x => floatText x
  | .string s => quote s
  | .array items => "[" ++ ",".intercalate (compactItems items) ++ "]"
  | .object members => "\x7b" ++ ",".intercalate (compactMembers members) ++ "\x7d"

/-- The texts of the items of an array. -/
def compactItems : List Json → List String
  | [] => []
  | item :: rest => compact item :: compactItems rest

/-- The texts of the members of an object. -/
def compactMembers : List (String × Json) → List String
  | [] => []
  | (key, value) :: rest => (quote key ++ ":" ++ compact value) :: compactMembers rest

end

/-- A value as it is quoted in messages: a string as it is, any other value as compact JSON. -/
def display : Json → String
  | .string s => s
  | value => compact value

end Json
end TypedRoutes
