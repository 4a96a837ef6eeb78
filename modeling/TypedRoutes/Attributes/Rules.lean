import TypedRoutes.Attributes.Basic

/-!
# Validation rules among the attributes

The value of the key `v` lists rules separated by bars, then, after the first hash sign, the
messages of those rules in the same order: `required|min:1#name is required|too small`.
-/

namespace TypedRoutes

/-- A validation rule: a name, the text after its colon, and a message of its own. -/
structure Rule where
  name : String
  args : Option String
  message : Option String
  deriving DecidableEq

namespace Attributes

/-- A trimmed text, unless nothing is left of it. -/
def nonBlank? (s : String) : Option String :=
  let trimmed := Text.trim s
  if trimmed.isEmpty then none else some trimmed

/-- The name and the arguments of a trimmed rule text. -/
def ruleParts (text : String) : String × Option String :=
  match Text.splitOnce ':' text with
  | some (name, args) => (Text.trim name, some (Text.trim args))
  | none => (text, none)

/-- Rules with the messages at their positions. -/
def pairRules : List String → List String → List Rule
  | [], _ => []
  | text :: texts, messages =>
    let (name, args) := ruleParts text
    ⟨name, args, messages.head?.bind nonBlank?⟩ :: pairRules texts messages.tail

/-- The rules of a field.  Blank rules are dropped and take no message. -/
def rules (attributes : Attributes) : List Rule :=
  match attributes.get? "v" with
  | none => []
  | some raw =>
    let (texts, messages) := match Text.splitOnce '#' raw with
      | some (texts, messages) => (texts, Text.split '|' messages)
      | none => (raw, [])
    pairRules ((Text.split '|' texts).filterMap nonBlank?) messages

/-- Whether a value is required. -/
def requiresValue (attributes : Attributes) : Bool :=
  attributes.rules.any (·.name == "required")

end Attributes
end TypedRoutes
