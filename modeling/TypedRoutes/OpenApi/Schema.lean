import TypedRoutes.Members
import TypedRoutes.Types.Walk

/-!
# Schemas

A walk over the description of a type gives its schema.  A position more than `maxSchemaDepth`
levels down is a placeholder, and so is a record that is already being described further up on the
path from the root; so the walk ends for every table of types.
-/

namespace TypedRoutes

/-- The kinds of JSON values that schemas tell apart. -/
inductive SchemaType
  | string
  | number
  | integer
  | boolean
  | array
  | object
  deriving DecidableEq

/-- Why a schema is not described further. -/
inductive Placeholder
  | maxDepth
  | circular
  deriving DecidableEq

/-- The wording of a placeholder. -/
def Placeholder.text : Placeholder → String
  | .maxDepth => "max depth reached"
  | .circular => "circular reference"

/-- The description of a type. -/
inductive Schema
  /-- A value without described components; where there are choices it is one of them. -/
  | value (type : SchemaType) (format : Option String) (choices : List String)
      (description : Option String) (nullable : Bool)
  | array (items : Schema) (description : Option String) (nullable : Bool)
  /-- An object with any keys, whose values are all alike. -/
  | table (values : Schema) (description : Option String) (nullable : Bool)
  | record (properties : List (String × Schema)) (required : List String)
      (description : Option String) (nullable : Bool)
  | placeholder (reason : Placeholder)
  deriving Inhabited

namespace Schema

/-- A value of a type, with an optional format. -/
def plain (type : SchemaType) (format : Option String) : Schema :=
  .value type format [] none false

/-- The placeholder of a schema that is one. -/
def placeholder? : Schema → Option Placeholder
  | .placeholder reason => some reason
  | _ => none

/-- Whether a schema is a placeholder. -/
def isPlaceholder (s : Schema) : Bool :=
  s.placeholder?.isSome

/-- The schema that also admits `null`; a placeholder says nothing about it. -/
def orNull : Schema → Schema
  | .value type format choices description _ => .value type format choices description true
  | .array items description _ => .array items description true
  | .table values description _ => .table values description true
  | .record properties required description _ => .record properties required description true
  | .placeholder reason => .placeholder reason

/-- The schema with a description, unless it has one. -/
def describe (text : Option String) : Schema → Schema
  | .value type format choices description nullable =>
    .value type format choices (description.or text) nullable
  | .array items description nullable => .array items (description.or text) nullable
  | .table values description nullable => .table values (description.or text) nullable
  | .record properties required description nullable =>
    .record properties required (description.or text) nullable
  | .placeholder reason => .placeholder reason

/-- The schema of a property. -/
def property? (name : String) : Schema → Option Schema
  | .record properties _ _ _ => properties.lookup name
  | _ => none

mutual

/-- Whether some position holds a placeholder of a kind. -/
def contains (reason : Placeholder) : Schema → Bool
  | .value _ _ _ _ _ => false
  | .array items _ _ => contains reason items
  | .table values _ _ => contains reason values
  | .record properties _ _ _ => containsAny reason properties
  | .placeholder r => r == reason

/-- Whether some property holds a placeholder of a kind. -/
def containsAny (reason : Placeholder) : List (String × Schema) → Bool
  | [] => false
  | (_, s) :: rest => contains reason s || containsAny reason rest

end

/-- The schema of an answer: a code, a message and the data. -/
def envelope (data : Schema) : Schema :=
  .record (Members.ofList [
      ("code", plain .integer (some "int32")),
      ("message", plain .string none),
      ("data", data)])
    ["code", "message", "data"] none false

end Schema

/-- The greatest depth of a position that is described. -/
def maxSchemaDepth : Nat := 10

/-- The type and the format of a shape without components. -/
def Shape.plainType : Shape → SchemaType × Option String
  | .bool => (.boolean, none)
  | .int _ bits => (.integer, some (if 32 < bits then "int64" else "int32"))
  | .float bits => (.number, some (if 32 < bits then "double" else "float"))
  | .text _ => (.string, none)
  | .char => (.string, some "char")
  | .time .date => (.string, some "date")
  | .time _ => (.string, some "date-time")
  | .any => (.string, none)
  | .marker | .record _ _ | .table _ _ => (.object, none)
  | .sequence _ => (.array, none)
  | .option _ => (.object, none)

/-- A walk over types that keeps track of the records that are being described. -/
abbrev SchemaWalk := StateM (List String)

/-- Walks through the optional layers of a type to what is below them. -/
def SchemaWalk.throughOptions (walk : Ty → SchemaWalk Schema) : Ty → SchemaWalk Schema
  | .option inner => do
    let s ← throughOptions walk inner
    return s.orNull
  | t => walk t

namespace TypeTable

variable (types : TypeTable)

/-- Describes a record by walking the types of its fields, unless it is being described already.  It
is taken back afterwards, since the fields beside it may reach the same record. -/
def walkRecord (walk : Ty → SchemaWalk Schema) (id : String) (r : Record) :
    SchemaWalk Schema := do
  if (← get).contains id then
    return .placeholder .circular
  else
    modify fun active => id :: active
    let fields := types.fieldsOf id r
    let properties ← fields.mapM fun f => do
      let s ← walk f.type
      return (f.wireName, s.describe f.description)
    modify fun active => active.erase id
    return .record (Members.ofList properties)
      ((fields.filter (·.isRequired)).map (·.wireName)) r.doc false

/-- Describes a type where `room` more levels may be described. -/
def walkSchema : Nat → Ty → SchemaWalk Schema
  | 0, _ => return .placeholder .maxDepth
  | room + 1, t =>
    SchemaWalk.throughOptions
      (fun u =>
        match types.shape u with
        | .record id r => types.walkRecord (walkSchema room) id r
        | .sequence element => do
          let items ← walkSchema room element
          return .array items none false
        | .table _ values => do
          let values ← walkSchema room values
          return .table values none false
        | .text choices => return .value .string none choices none false
        | shape => return .plain shape.plainType.1 shape.plainType.2)
      t

/-- The schema of a type. -/
def schema (t : Ty) : Schema :=
  ((types.walkSchema (maxSchemaDepth + 1) t).run []).1

end TypeTable
end TypedRoutes
