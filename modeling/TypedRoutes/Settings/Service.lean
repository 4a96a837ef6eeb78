import TypedRoutes.Settings.Value

/-!
# Settings of the service

Settings start from defaults and are overlaid, from a file or from the environment, with those that
are present.  An overlay is applied setting by setting and then checked; what it had changed before
it failed stays changed.
-/

namespace TypedRoutes

/-- The settings of a service. -/
structure ServiceSettings where
  /-- The address to listen on. -/
  bind : String
  /-- In bytes. -/
  stackSize : Nat
  /-- The path under which the document of the API is served. -/
  docsPath : String
  /-- Longer bodies are refused. -/
  maxBodyBytes : Nat
  deriving DecidableEq

/-- What is wrong with a setting. -/
inductive SettingFault
  | blank
  | notRooted
  | notPositive
  | notASize
  deriving DecidableEq

/-- The reason that is given for a fault. -/
def SettingFault.reason : SettingFault → String
  | blank => "must not be empty"
  | notRooted => "must start with `/`"
  | notPositive => "must be positive"
  | notASize => "expected a decimal or 0x-prefixed hexadecimal size"

/-- Why settings cannot be used. -/
inductive SettingsError
  /-- The file cannot be read. -/
  | unreadable
  /-- The file is not a mapping of known keys to scalars of their kind. -/
  | malformed
  | invalid (key value : String) (fault : SettingFault)
  deriving DecidableEq

/-- The message of an error about a single setting; that about a file is not worded here. -/
def SettingsError.message? : SettingsError → Option String
  | .invalid key value fault =>
    some ("invalid " ++ key ++ " `" ++ value ++ "`: " ++ fault.reason)
  | .unreadable | .malformed => none

/-- Where an overlay comes from. -/
inductive SettingsSource
  | file
  | environment
  deriving DecidableEq

/-- The name of a setting in a source. -/
def SettingsSource.key (source : SettingsSource) (name : String) : String :=
  match source with
  | file => name
  | environment => "METAROUTE_" ++ Text.upperAscii name

/-- The settings that a source gives. -/
structure SettingsOverlay where
  source : SettingsSource
  bind : Option String
  stackSize : Option SizeSetting
  docsPath : Option String
  maxBodyBytes : Option SizeSetting

/-- The bytes that a text stands for: a decimal number, or a hexadecimal one after `0x`. -/
def readSize? (raw : String) : Option Nat :=
  match Text.strip Text.isBlank raw.toList with
  | '0' :: 'x' :: digits | '0' :: 'X' :: digits => Numeral.hexWord? digits
  | digits => Numeral.word? digits

namespace ServiceSettings

/-- The settings that nobody changed. -/
def default : ServiceSettings :=
  ⟨"127.0.0.1:8080", 0x4000, "/api.json", 1024 * 1024⟩

/-- The first thing that is wrong with settings. -/
def fault? (s : ServiceSettings) : Option SettingsError :=
  if Text.isBlankText s.bind then some (.invalid "bind" s.bind .blank)
  else if s.docsPath.toList.head? ≠ some '/' then
    some (.invalid "docs_path" s.docsPath .notRooted)
  else if s.stackSize = 0 then some (.invalid "stack_size" "0" .notPositive)
  else none

/-- Whether settings can be used. -/
def IsValid (s : ServiceSettings) : Prop :=
  s.fault? = none

/-- The defaults can be used. -/
theorem default_isValid : default.IsValid := by
  unfold IsValid
  decide +kernel

end ServiceSettings

namespace SettingsOverlay

/-- The value of a size, `current` where none is given. -/
def size (o : SettingsOverlay) (name : String) (current : Nat) :
    Option SizeSetting → Except SettingsError Nat
  | none => .ok current
  | some (.number n) => .ok n
  | some (.text raw) =>
    match readSize? raw with
    | some n => .ok n
    | none => .error (.invalid (o.source.key name) raw .notASize)

/-- Settings under an overlay, and what was wrong.  The settings are changed in the order bind,
stack size, path of the document, body limit, up to a size that cannot be read. -/
def apply (o : SettingsOverlay) (s : ServiceSettings) : ServiceSettings × Option SettingsError :=
  let s := { s with bind := o.bind.getD s.bind }
  match o.size "stack_size" s.stackSize o.stackSize with
  | .error e => (s, some e)
  | .ok n =>
    let s := { s with stackSize := n, docsPath := o.docsPath.getD s.docsPath }
    match o.size "max_body_bytes" s.maxBodyBytes o.maxBodyBytes with
    | .error e => (s, some e)
    | .ok n =>
      let s := { s with maxBodyBytes := n }
      (s, s.fault?)

/-- The overlay of the environment. -/
def ofEnvironment (lookup : String → Option String) : SettingsOverlay :=
  let get := fun name => lookup (SettingsSource.environment.key name)
  ⟨.environment, get "bind", (get "stack_size").map .text, get "docs_path",
    (get "max_body_bytes").map .text⟩

/-- The names of the settings. -/
def names : List String :=
  ["bind", "stack_size", "docs_path", "max_body_bytes"]

/-- The setting with a name among the pairs of a file, as `ask` reads it. -/
def setting {α : Type} (pairs : List (String × Markup.Scalar))
    (ask : Markup.Scalar → Except Unit (Option α)) (name : String) :
    Except SettingsError (Option α) :=
  match pairs.lookup name with
  | some scalar => (ask scalar).mapError fun _ => .malformed
  | none => .ok none

/-- The overlay of the pairs of a file; every key is known and occurs once. -/
def ofPairs (pairs : List (String × Markup.Scalar)) : Except SettingsError SettingsOverlay :=
  let keys := pairs.map Prod.fst
  if keys.all names.contains && decide keys.Nodup then do
    return {
      source := .file
      bind := ← setting pairs SettingValue.asText "bind"
      stackSize := ← setting pairs SettingValue.asSize "stack_size"
      docsPath := ← setting pairs SettingValue.asText "docs_path"
      maxBodyBytes := ← setting pairs SettingValue.asSize "max_body_bytes" }
  else
    .error .malformed

/-- The overlay of a settings file. -/
def ofFile (text : String) : Except SettingsError SettingsOverlay :=
  match Markup.pairs? text with
  | some pairs => ofPairs (pairs.map fun (key, value) => (key.text, value))
  | none => .error .malformed

end SettingsOverlay

namespace ServiceSettings

/-- Settings under those of a file, which changes nothing if it cannot be read as settings. -/
def applyFile (s : ServiceSettings) (text : String) : ServiceSettings × Option SettingsError :=
  match SettingsOverlay.ofFile text with
  | .ok overlay => overlay.apply s
  | .error e => (s, some e)

/-- Settings under those of the environment. -/
def applyEnvironment (s : ServiceSettings) (lookup : String → Option String) :
    ServiceSettings × Option SettingsError :=
  (SettingsOverlay.ofEnvironment lookup).apply s

end ServiceSettings
end TypedRoutes
