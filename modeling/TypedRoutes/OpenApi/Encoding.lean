import TypedRoutes.OpenApi.Document

/-!
# Documents as JSON

Schemas, parameters and documents are written as OpenAPI 3.0.3 objects and read back from them.
Members that say nothing are left out.
-/

namespace TypedRoutes

/-- The name of a schema type. -/
def SchemaType.name : SchemaType → String
  | .string => "string"
  | .number => "number"
  | .integer => "integer"
  | .boolean => "boolean"
  | .array => "array"
  | .object => "object"

/-- The schema type with a name. -/
def SchemaType.ofName? (name : String) : Option SchemaType :=
  [string, number, integer, boolean, array, object].find? fun t => t.name == name

/-- The placeholder with a wording. -/
def Placeholder.ofText? (text : String) : Option Placeholder :=
  [maxDepth, circular].find? fun p => p.text == text

/-- The member of a text that may be missing. -/
def textMember (key : String) (text : Option String) : List (String × Json) :=
  (text.map fun s => (key, Json.string s)).toList

namespace Schema

/-- The members that every kind of schema has. -/
def commonMembers (type : SchemaType) (description : Option String) (nullable : Bool) :
    List (String × Json) :=
  [("type", .string type.name)] ++ textMember "description" description ++
    (if nullable then [("nullable", .bool true)] else [])

mutual

/-- A schema as a JSON object. -/
def toJson : Schema → Json
  | .value type format choices description nullable =>
    .ofPairs (commonMembers type description nullable ++ textMember "format" format ++
      (if choices.isEmpty then [] else [("enum", .ofTexts choices)]))
  | .array items description nullable =>
    .ofPairs (commonMembers .array description nullable ++ [("items", toJson items)])
  | .table values description nullable =>
    .ofPairs (commonMembers .object description nullable ++
      [("additionalProperties", toJson values)])
  | .record properties required description nullable =>
    .ofPairs (commonMembers .object description nullable ++
      [("properties", .object (propertiesJson properties))] ++
      (if required.isEmpty then [] else [("required", .ofTexts required)]))
  | .placeholder reason =>
    .ofPairs (commonMembers .object (some reason.text) false ++
      [("x-placeholder", .string reason.text)])

/-- The properties of a record schema as members. -/
def propertiesJson : List (String × Schema) → List (String × Json)
  | [] => []
  | (name, s) :: rest => (name, toJson s) :: propertiesJson rest

end

/-- The texts of an array member; a missing one has none. -/
def textsOf? (json : Json) (key : String) : Option (List String) :=
  match json.member? key with
  | none => some []
  | some (.array items) => items.mapM Json.text?
  | some _ => none

/-- Reads a schema whose containers nest at most `fuel` deep. -/
def ofJsonAt? : Nat → Json → Option Schema
  | 0, _ => none
  | fuel + 1, json =>
    match (json.member? "x-placeholder").bind Json.text? with
    | some text => (Placeholder.ofText? text).map .placeholder
    | none => do
      let type ← SchemaType.ofName? (← (json.member? "type").bind Json.text?)
      let description := (json.member? "description").bind Json.text?
      let format := (json.member? "format").bind Json.text?
      let nullable := json.member? "nullable" matches some (.bool true)
      match json.member? "items", json.member? "additionalProperties",
          json.member? "properties" with
      | some items, _, _ => do
        let items ← ofJsonAt? fuel items
        some (.array items description nullable)
      | none, some values, _ => do
        let values ← ofJsonAt? fuel values
        some (.table values description nullable)
      | none, none, some (.object members) => do
        let properties ← members.mapM fun ((name, s) : String × Json) =>
          (ofJsonAt? fuel s).map fun s => (name, s)
        let required ← textsOf? json "required"
        some (.record properties required description nullable)
      | _, _, _ => do
        let choices ← textsOf? json "enum"
        some (.value type format choices description nullable)

/-- Reads a schema; those of types are not nested deeper than the limit of the unfolding, and those
of answers one level more. -/
def ofJson? (json : Json) : Option Schema :=
  ofJsonAt? (maxSchemaDepth + 3) json

end Schema

/-- A parameter type as a JSON object. -/
def ParameterSchema.toJson : ParameterSchema → Json
  | .plain type format => .ofPairs ([("type", .string type.name)] ++ textMember "format" format)
  | .list items => .ofPairs [("type", .string "array"), ("items", items.toJson)]

/-- Reads a parameter type whose lists nest at most `fuel` deep. -/
def ParameterSchema.ofJsonAt? : Nat → Json → Option ParameterSchema
  | 0, _ => none
  | fuel + 1, value => do
    let type ← SchemaType.ofName? (← (value.member? "type").bind Json.text?)
    match value.member? "items" with
    | some items => (ofJsonAt? fuel items).map .list
    | none => some (.plain type ((value.member? "format").bind Json.text?))

/-- The name of the place of a parameter. -/
def ParameterPlace.name : ParameterPlace → String
  | .query => "query"
  | .path => "path"

namespace Parameter

/-- A parameter as a JSON object. -/
def toJson (p : Parameter) : Json :=
  .ofPairs ([("name", .string p.name), ("in", .string p.place.name)] ++
    textMember "description" p.description ++
    [("required", .bool p.required), ("schema", p.schema.toJson)])

/-- Reads a parameter. -/
def ofJson? (value : Json) : Option Parameter := do
  let name ← (value.member? "name").bind Json.text?
  let place ← (value.member? "in").bind Json.text?
  let place ← [ParameterPlace.query, ParameterPlace.path].find? fun p => p.name == place
  let schema ← (value.member? "schema").bind (ParameterSchema.ofJsonAt? (maxSchemaDepth + 2))
  match value.member? "required" with
  | some (.bool required) =>
    some ⟨name, place, (value.member? "description").bind Json.text?, required, schema⟩
  | _ => none

end Parameter

/-- A schema as the content of a body. -/
def contentJson (schema : Schema) : Json :=
  .ofPairs [("application/json", .ofPairs [("schema", schema.toJson)])]

/-- The schema of the content of a body. -/
def contentSchema? (value : Json) : Option Schema := do
  let content ← value.member? "content"
  let media ← content.member? "application/json"
  let schema ← media.member? "schema"
  Schema.ofJson? schema

namespace OperationDoc

/-- An operation as a JSON object. -/
def toJson (op : OperationDoc) : Json :=
  .ofPairs ([("operationId", .string op.operationId)] ++ textMember "summary" op.summary ++
    textMember "description" op.description ++
    (if op.tags.isEmpty then [] else [("tags", .ofTexts op.tags)]) ++
    (if op.parameters.isEmpty then []
      else [("parameters", .array (op.parameters.map Parameter.toJson))]) ++
    (op.requestBody.map fun s => ("requestBody",
      Json.ofPairs [("required", .bool true), ("content", contentJson s)])).toList ++
    [("responses", .ofPairs [("200", .ofPairs [
      ("description", .string "Success"), ("content", contentJson op.response)])])])

/-- Reads an operation. -/
def ofJson? (value : Json) : Option OperationDoc := do
  let operationId ← (value.member? "operationId").bind Json.text?
  let tags ← Schema.textsOf? value "tags"
  let parameters ← match value.member? "parameters" with
    | none => some []
    | some (.array items) => items.mapM Parameter.ofJson?
    | some _ => none
  let requestBody ← match value.member? "requestBody" with
    | none => some none
    | some body => (contentSchema? body).map some
  let responses ← value.member? "responses"
  let response ← (responses.member? "200").bind contentSchema?
  some {
    operationId := operationId
    summary := (value.member? "summary").bind Json.text?
    description := (value.member? "description").bind Json.text?
    tags := tags
    parameters := parameters
    requestBody := requestBody
    response := response }

end OperationDoc

namespace ApiDocument

/-- The version of the format. -/
def formatVersion : String := "3.0.3"

/-- A document as a JSON object. -/
def toJson (doc : ApiDocument) : Json :=
  .ofPairs [
    ("openapi", .string formatVersion),
    ("info", .ofPairs ([("title", .string doc.info.title), ("version", .string doc.info.version)] ++
      textMember "description" doc.info.description)),
    ("paths", .object (doc.paths.map fun (path, item) =>
      (path, .object (item.map fun (method, op) => (method, op.toJson)))))]

/-- Reads a document. -/
def ofJson? (value : Json) : Option ApiDocument := do
  let info ← value.member? "info"
  let title ← (info.member? "title").bind Json.text?
  let version ← (info.member? "version").bind Json.text?
  let paths ← value.member? "paths"
  let paths ← paths.members.mapM fun ((path, item) : String × Json) => do
    let item ← item.members.mapM fun ((method, op) : String × Json) =>
      (OperationDoc.ofJson? op).map fun op => (method, op)
    some (path, item)
  some ⟨⟨title, version, (info.member? "description").bind Json.text?⟩, paths⟩

end ApiDocument
end TypedRoutes
