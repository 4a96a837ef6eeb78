import TypedRoutes.Text.Blank

/-!
# Headers

Headers are names and values in order.  Names are compared without regard to ASCII case.  Setting a
header removes those of its name before it is appended.
-/

namespace TypedRoutes

/-- Headers in order. -/
abbrev Headers := List (String × String)

namespace Headers

/-- Whether two names are the same header. -/
def sameName (a b : String) : Bool :=
  Text.lowerAscii a == Text.lowerAscii b

/-- The value of the first header of a name. -/
def get? (headers : Headers) (name : String) : Option String :=
  (headers.find? fun (n, _) => sameName n name).map Prod.snd

/-- Replaces every header of a name by one at the end. -/
def set (headers : Headers) (name value : String) : Headers :=
  headers.filter (fun (n, _) => !sameName n name) ++ [(name, value)]

/-- Sets headers one after the other. -/
def setAll (headers additions : Headers) : Headers :=
  additions.foldl (fun headers (name, value) => headers.set name value) headers

/-- A name is the same header as itself. -/
theorem sameName_self (name : String) : sameName name name = true :=
  beq_self_eq_true _

/-- A header that was just set has the value that it was set to. -/
theorem get?_set (headers : Headers) (name value : String) :
    (headers.set name value).get? name = some value := by
  have absent : (headers.filter fun (n, _) => !sameName n name).find?
      (fun (n, _) => sameName n name) = none := by
    simp [List.find?_eq_none]
  simp [get?, set, List.find?_append, absent, sameName_self]

end Headers
end TypedRoutes
