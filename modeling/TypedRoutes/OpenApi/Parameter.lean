import TypedRoutes.OpenApi.Schema

/-!
# Query and path parameters

The parameters of a request type are its fields that are no records, those of nested records
included, since all of them are read from one flat list of names.  Fields named like a variable of
the path are path parameters, and every variable is one.
-/

namespace TypedRoutes

/-- Where a parameter stands. -/
inductive ParameterPlace
  | query
  | path
  deriving DecidableEq

/-- The type of a parameter. -/
inductive ParameterSchema
  | plain (type : SchemaType) (format : Option String)
  | list (items : ParameterSchema)
  deriving DecidableEq

/-- An input of an operation. -/
structure Parameter where
  name : String
  place : ParameterPlace
  description : Option String
  required : Bool
  schema : ParameterSchema
  deriving DecidableEq

namespace TypeTable

variable (types : TypeTable)

/-- The type of a parameter, with the items of a list down to `maxSchemaDepth`. -/
def parameterSchema : Nat → Ty → ParameterSchema
  | depth, .option inner => parameterSchema depth inner
  | depth, .sequence _ element =>
    if depth < maxSchemaDepth then .list (parameterSchema (depth + 1) element)
    else .plain .array none
  | _, t => .plain (types.shape t).plainType.1 (types.shape t).plainType.2

/-- The fields of a record that are no records, with those of nested records in their places.
Records in `ancestors` are not entered again, nor those more than `maxSchemaDepth` levels down. -/
def leafFields : Nat → List String → String → Record → List VisibleField
  | 0, _, _, _ => []
  | room + 1, ancestors, id, r =>
    if ancestors.contains id then []
    else
      (types.fieldsOf id r).flatMap fun f =>
        match types.record? f.type with
        | some (inner, s) => leafFields room (id :: ancestors) inner s
        | none => [f]

/-- The parameter of a field. -/
def parameterOf (pathVars : List String) (f : VisibleField) : Parameter :=
  let inPath := pathVars.contains f.lookupName
  { name := f.lookupName
    place := if inPath then .path else .query
    description := f.description
    required := inPath || f.isRequired
    schema := types.parameterSchema 0 f.target }

end TypeTable

/-- Parameters with one more, unless its name is taken. -/
def addParameter (parameters : List Parameter) (p : Parameter) : List Parameter :=
  if parameters.any (·.name == p.name) then parameters else parameters ++ [p]

/-- The parameter of a path variable without a field. -/
def bareParameter (name : String) : Parameter :=
  ⟨name, .path, none, true, .plain .string none⟩

/-- The parameters of a request type under a path with the given variables. -/
def TypeTable.parameters (types : TypeTable) (t : Ty) (pathVars : List String) : List Parameter :=
  let fields := match types.record? t with
    | some (id, r) => types.leafFields (maxSchemaDepth + 1) [] id r
    | none => []
  (fields.map (types.parameterOf pathVars) ++ pathVars.map bareParameter).foldl addParameter []

end TypedRoutes
