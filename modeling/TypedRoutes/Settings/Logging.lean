import TypedRoutes.Settings.Sampling
import TypedRoutes.Text.Numeral

/-!
# Settings of logging

Logging is set up from variables; one that is missing or cannot be read leaves its default.
-/

namespace TypedRoutes

/-- How log lines are written. -/
inductive LogFormat
  | json
  | pretty
  deriving DecidableEq

namespace LogFormat

/-- The format that a text names, in any ASCII case; every format that is not known is JSON. -/
def ofText (s : String) : LogFormat :=
  if Text.lowerAscii (Text.trim s) = "pretty" then pretty else json

/-- The name of a format. -/
def name : LogFormat → String
  | json => "json"
  | pretty => "pretty"

end LogFormat

/-- The settings of logging. -/
structure LogSettings where
  level : String
  format : LogFormat
  samplingMode : SamplingMode
  samplingRate : Float
  /-- Whether lines are written in the background. -/
  async : Bool
  targetFilter : Option String
  includeLocation : Bool

namespace LogSettings

/-- The settings that nobody changed. -/
def default : LogSettings :=
  ⟨"info", .json, .all, 1, true, none, false⟩

/-- Readable, complete and immediate lines. -/
def development : LogSettings :=
  { default with level := "debug", format := .pretty, async := false, includeLocation := true }

/-- A truth value, blanks around it ignored. -/
def truth? (s : String) : Option Bool :=
  match Text.trim s with
  | "true" => some true
  | "false" => some false
  | _ => none

/-- A number, blanks around it ignored. -/
def number? (s : String) : Option Float :=
  Numeral.float? (Text.strip Text.isBlank s.toList)

/-- The settings that variables ask for. -/
def ofVariables (lookup : String → Option String) : LogSettings :=
  let get := fun name => lookup ("METAROUTE_LOG_" ++ name)
  { level := (get "LEVEL").getD default.level
    format := ((get "FORMAT").map LogFormat.ofText).getD default.format
    samplingMode := ((get "SAMPLING_MODE").map SamplingMode.ofText).getD default.samplingMode
    samplingRate := ((get "SAMPLING_RATE").bind number?).getD default.samplingRate
    async := ((get "ASYNC").bind truth?).getD default.async
    targetFilter := get "TARGET_FILTER"
    includeLocation := ((get "INCLUDE_LOCATION").bind truth?).getD default.includeLocation }

end LogSettings
end TypedRoutes
