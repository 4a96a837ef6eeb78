import TypedRoutes.Json.Writing

/-!
# Indented JSON text

Every item and every member stands on a line of its own, two spaces further in than its container;
empty containers stay on one line.
-/

namespace TypedRoutes
namespace Json

/-- The start of a line at a depth. -/
def margin (depth : Nat) : String :=
  String.ofList ('\n' :: List.replicate (2 * depth) ' ')

/-- Parts between two brackets, each on a line one level below `depth`. -/
def block (depth : Nat) (opening closing : String) (parts : List String) : String :=
  if parts.isEmpty then opening ++ closing
  else
    opening ++ ",".intercalate (parts.map (margin (depth + 1) ++ ·)) ++ margin depth ++ closing

mutual

/-- The indented text of a value at a depth. -/
def indentedAt (depth : Nat) : Json → String
  | .array items => block depth "[" "]" (indentedItems (depth + 1) items)
  | .object members => block depth "\x7b" "\x7d" (indentedMembers (depth + 1) members)
  | .null => "null"
  | .bool b => if b then "true" else "false"
  | .int n => toString n
  | .float x => floatText x
  | .string s => quote s

/-- The indented texts of items at a depth. -/
def indentedItems (depth : Nat) : List Json → List String
  | [] => []
  | item :: rest => indentedAt depth item :: indentedItems depth rest

/-- The indented texts of members at a depth. -/
def indentedMembers (depth : Nat) : List (String × Json) → List String
  | [] => []
  | (key, value) :: rest =>
    (quote key ++ ": " ++ indentedAt depth value) :: indentedMembers depth rest

end

/-- The indented text of a value. -/
def indented (value : Json) : String :=
  indentedAt 0 value

end Json
end TypedRoutes
