import TypedRoutes.Json.Basic
import TypedRoutes.Types.Walk

/-!
# Route metadata of a request type

A request type declares its route in the attributes of its marker field.  The attributes of the
other fields are read too: their keys are collected as extra information, under those of the
marker.
-/

namespace TypedRoutes

/-- Route metadata of a request type. -/
structure RouteMeta where
  path : String
  /-- The method in upper case. -/
  method : String
  summary : String
  description : String
  /-- Comma-separated categories. -/
  tags : String
  extra : Members String
  deriving DecidableEq

namespace RouteMeta

/-- Why a type has no route metadata. -/
inductive Fault
  | notARecord (typeName : String)
  | missingMarker (typeName : String)
  | multipleMarkers (typeName : String)
  | malformed (typeName field : String) (refusal : Attributes.Refusal)
  | missingKey (typeName key : String)
  deriving DecidableEq

/-- The message of a fault. -/
def Fault.message : Fault → String
  | .notARecord t => t ++ " is not a struct and cannot carry route metadata"
  | .missingMarker t => t ++ " has no #[meta(...)] marker field"
  | .multipleMarkers t => t ++ " declares more than one #[meta(...)] marker field"
  | .malformed t field refusal => t ++ "." ++ field ++ ": " ++ refusal.message
  | .missingKey t key => t ++ " marker annotation is missing required key `" ++ key ++ "`"

/-- The refused attribute block behind a fault. -/
def Fault.refusal? : Fault → Option Attributes.Refusal
  | .malformed _ _ refusal => some refusal
  | _ => none

/-- Keys of the marker that have a place of their own. -/
def markerKeys : List String := ["path", "method", "summary", "tags"]

/-- Keys of the other fields that concern those fields alone. -/
def fieldKeys : List String := ["json", "v"]

/-- The extra information with the pairs of one block, less some keys; later pairs win. -/
def addExtra (reserved : List String) (extra : Members String) (attributes : Attributes) :
    Members String :=
  attributes.pairs.foldl
    (fun extra (key, value) => if reserved.contains key then extra else extra.insert key value)
    extra

/-- The attributes of a field of a type, read strictly. -/
def readField (typeName : String) (field : Field) : Except Fault Attributes :=
  (Attributes.read field.attributeText).mapError (.malformed typeName field.name)

/-- A value that has to be given and not be blank, trimmed. -/
def requireKey (typeName : String) (attributes : Attributes) (key : String) :
    Except Fault String :=
  match attributes.get? key with
  | some value => if Text.isBlankText value then .error (.missingKey typeName key)
    else .ok (Text.trim value)
  | none => .error (.missingKey typeName key)

/-- The metadata that a record declares. -/
def ofRecord (r : Record) : Except Fault RouteMeta := do
  match r.fields.filter (·.marker) with
  | [] => .error (.missingMarker r.name)
  | [marker] =>
    let attributes ← readField r.name marker
    let path ← requireKey r.name attributes "path"
    let method ← requireKey r.name attributes "method"
    let others ← (r.fields.filter fun f => !f.marker && !f.attributeText.isEmpty).mapM
      (readField r.name)
    .ok {
      path := path
      method := Text.upperAscii method
      summary := (attributes.get? "summary").getD ""
      description := ((attributes.get? "description").or (attributes.get? "dc")).getD ""
      tags := (attributes.get? "tags").getD ""
      extra := addExtra markerKeys (others.foldl (addExtra fieldKeys) []) attributes }
  | _ => .error (.multipleMarkers r.name)

/-- The categories, trimmed, blank ones dropped. -/
def tagList (info : RouteMeta) : List String :=
  (Text.split ',' info.tags).filterMap Attributes.nonBlank?

/-- The metadata as a JSON object. -/
def toJson (info : RouteMeta) : Json :=
  .ofPairs [
    ("path", .string info.path),
    ("method", .string info.method),
    ("summary", .string info.summary),
    ("description", .string info.description),
    ("tags", .string info.tags),
    ("extra", .object (info.extra.map fun (key, value) => (key, .string value)))]

end RouteMeta

namespace TypeTable

variable (types : TypeTable)

/-- The metadata of a type, optional layers aside. -/
def routeMeta (t : Ty) : Except RouteMeta.Fault RouteMeta :=
  match types.record? t with
  | some (_, r) => RouteMeta.ofRecord r
  | none => .error (.notARecord (types.typeName t.target))

/-- Whether a type declares a route at all. -/
def hasMarker (t : Ty) : Bool :=
  match types.record? t with
  | some (_, r) => r.markerField?.isSome
  | none => false

end TypeTable
end TypedRoutes
