import TypedRoutes.Json.Writing
import TypedRoutes.Request.Zero
import TypedRoutes.Text.Numeral

/-!
# Validation of request values

The rules among the attributes of a field are constraints on its value.  `TypeTable.validate` checks
the fields of a record in order, each field's own rules before those of its nested record, and
reports the first rule that does not hold.  A rule that is unknown, or whose arguments cannot be
read, constrains nothing.
-/

namespace TypedRoutes

/-- A constraint on a value. -/
inductive Constraint
  | required
  | atLeast (bound : Float)
  | atMost (bound : Float)
  /-- The length is at least the first and at most the second number, where they are given. -/
  | lengthWithin (low high : Option Nat)
  | oneOf (choices : List String)

/-- A value that counts as not given. -/
def Json.isEmptyValue : Json → Bool
  | .null => true
  | .string s => Text.isBlankText s
  | .array items => items.isEmpty
  | .object members => members.isEmpty
  | .bool _ | .int _ | .float _ => false

/-- The number that a number or a text stands for. -/
def Json.measure? : Json → Option Float
  | .int n => some (Binary64.ofInt n)
  | .float x => some x
  | .string s => Numeral.float? (Text.strip Text.isBlank s.toList)
  | _ => none

/-- The number of characters, items or members. -/
def Json.length? : Json → Option Nat
  | .string s => some s.length
  | .array items => some items.length
  | .object members => some members.length
  | _ => none

namespace Constraint

/-- Whether a value satisfies a constraint.  Bounds concern numbers only, lengths only values that
have one, and an absent value is one of any choices. -/
def holds : Constraint → Json → Bool
  | .required, value => !value.isEmptyValue
  | .atLeast bound, value =>
    match value.measure? with
    | some x => !(x < bound)
    | none => true
  | .atMost bound, value =>
    match value.measure? with
    | some x => !(bound < x)
    | none => true
  | .lengthWithin low high, value =>
    match value.length? with
    | some n => low.all (fun l => l ≤ n) && high.all (fun h => n ≤ h)
    | none => true
  | .oneOf _, .null => true
  | .oneOf choices, value => choices.contains value.display

end Constraint

namespace Rule

/-- The arguments of a rule, empty where there are none. -/
def argText (rule : Rule) : String :=
  rule.args.getD ""

/-- A count in an argument. -/
def count? (s : String) : Option Nat :=
  Numeral.word? (Text.strip Text.isBlank s.toList)

/-- The constraint that a rule stands for. -/
def constraint? (rule : Rule) : Option Constraint :=
  match rule.name with
  | "required" => some .required
  | "min" => (Numeral.float? (Text.strip Text.isBlank rule.argText.toList)).map .atLeast
  | "max" => (Numeral.float? (Text.strip Text.isBlank rule.argText.toList)).map .atMost
  | "length" =>
    let (low, high) := (Text.splitOnce ',' rule.argText).getD (rule.argText, rule.argText)
    some (.lengthWithin (count? low) (count? high))
  | "min-length" => some (.lengthWithin (count? rule.argText) none)
  | "max-length" => some (.lengthWithin none (count? rule.argText))
  | "in" => some (.oneOf ((Text.split ',' rule.argText).map Text.trim))
  | _ => none

/-- What is said about a field that breaks a rule without a message of its own. -/
def defaultMessage (rule : Rule) (field : String) : String :=
  let subject := "The " ++ field
  match rule.name with
  | "required" => subject ++ " field is required"
  | "min" => subject ++ " value must be at least " ++ rule.argText
  | "max" => subject ++ " value must not exceed " ++ rule.argText
  | "in" => subject ++ " value must be one of: " ++ rule.argText
  | name => subject ++ " length must satisfy " ++ name ++ " " ++ rule.argText

/-- Whether a value satisfies a rule. -/
def holds (rule : Rule) (value : Json) : Bool :=
  rule.constraint?.all fun c => c.holds value

end Rule

/-- A rejected request. -/
structure ValidationError where
  /-- The path of the field, where one is concerned. -/
  field : Option String
  /-- The name of the broken rule, where there is one. -/
  rule : Option String
  message : String
  deriving DecidableEq

/-- Whether the request lacks a required value. -/
def ValidationError.isMissing (e : ValidationError) : Bool :=
  e.rule == some "required"

/-- The first rule of a field that its value breaks. -/
def checkRules (field : String) (rules : List Rule) (value : Json) : Except ValidationError Unit :=
  match rules.find? fun rule => !rule.holds value with
  | none => .ok ()
  | some rule =>
    .error ⟨some field, some rule.name, rule.message.getD (rule.defaultMessage field)⟩

namespace TypeTable

variable (types : TypeTable)

/-- Checks the fields of a record in a value.  Values that are no objects have no fields to check,
nor have records more than `maxDepth` levels down. -/
def validateAt : Nat → Ty → Json → String → Except ValidationError Unit
  | 0, _, _, _ => .ok ()
  | room + 1, t, value, path =>
    match value with
    | .object members =>
      (types.fields t).forM fun f => do
        let name := if path.isEmpty then f.lookupName else path ++ "." ++ f.lookupName
        let current := (Members.find? f.wireName members).getD Json.null
        if current matches .null && f.isOptional then .ok ()
        else
          checkRules name f.attributes.rules current
          if (types.record? f.type).isSome then validateAt room f.target current name
          else .ok ()
    | _ => .ok ()

/-- Checks a request value against the rules of its type. -/
def validate (t : Ty) (value : Json) : Except ValidationError Unit :=
  types.validateAt (maxDepth + 1) t value ""

end TypeTable
end TypedRoutes
