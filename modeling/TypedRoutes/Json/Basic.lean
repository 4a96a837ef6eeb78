import TypedRoutes.Members

/-!
# JSON values

A JSON value keeps integers and binary64 numbers apart: a literal without fraction and exponent is
an integer as long as it fits 64 bits, signed or unsigned.  The members of an object are kept in key
order.
-/

namespace TypedRoutes

/-- A JSON value. -/
inductive Json
  | null
  | bool (b : Bool)
  | int (n : Int)
  | float (x : Float)
  | string (s : String)
  | array (items : List Json)
  | object (members : List (String × Json))
  deriving Inhabited

namespace Json

/-- The members of a JSON object. -/
abbrev Object := Members Json

/-- The empty object. -/
def empty : Json := .object []

/-- An object with the given members, the last of several with one key. -/
def ofPairs (pairs : List (String × Json)) : Json :=
  .object (Members.ofList pairs)

/-- A text, or `null` for none. -/
def ofText? (s : Option String) : Json :=
  match s with
  | some s => .string s
  | none => .null

/-- An array of texts. -/
def ofTexts (texts : List String) : Json :=
  .array (texts.map .string)

/-- A natural number. -/
def ofNat (n : Nat) : Json := .int n

/-- The members of an object; a value of another kind has none. -/
def members : Json → Object
  | .object ms => ms
  | _ => []

/-- The value of a member. -/
def member? (value : Json) (key : String) : Option Json :=
  value.members.find? key

/-- The text of a string value. -/
def text? : Json → Option String
  | .string s => some s
  | _ => none

/-- The items of an array value. -/
def items? : Json → Option (List Json)
  | .array xs => some xs
  | _ => none

/-- What kind of value this is, as a noun phrase. -/
def kindPhrase : Json → String
  | .null => "null"
  | .bool _ => "a boolean"
  | .int _ | .float _ => "a number"
  | .string _ => "a string"
  | .array _ => "an array"
  | .object _ => "an object"

end Json
end TypedRoutes
