import TypedRoutes.Request.Convert
import TypedRoutes.Query

/-!
# Request values

The value of a request type starts from the zero value and is overlaid with the inputs that the
method reads: the query for GET, the body for POST, PUT and PATCH, the query and then the body for
DELETE, and last, for every method, the path parameters.  Nested records read their fields from the
same flat list of query names.
-/

namespace TypedRoutes

/-- The inputs of one call. -/
structure CallInput where
  query : Query
  body : List UInt8
  pathParams : List (String × String)

/-- The methods that request values can be built for. -/
inductive Verb
  | get
  | post
  | put
  | patch
  | delete
  deriving DecidableEq

namespace Verb

/-- The verb with a method name; names are case-sensitive. -/
def ofName? : String → Option Verb
  | "GET" => some get
  | "POST" => some post
  | "PUT" => some put
  | "PATCH" => some patch
  | "DELETE" => some delete
  | _ => none

/-- Whether the verb reads the query. -/
def readsQuery : Verb → Bool
  | get | delete => true
  | post | put | patch => false

/-- Whether the verb reads the body. -/
def readsBody : Verb → Bool
  | get => false
  | post | put | patch | delete => true

end Verb

/-- The bytes that count as blank in a body. -/
def isBlankByte (b : UInt8) : Bool :=
  b == 32 || b == 9 || b == 10 || b == 12 || b == 13

/-- The members of a body; a blank body has none to offer. -/
def readBody (bytes : List UInt8) : Except BodyFault (Option Json.Object) :=
  if bytes.all isBlankByte then .ok none
  else
    match Json.parseBytes? bytes with
    | some (.object members) => .ok (some members)
    | some other => .error (.notAnObject other)
    | none => .error .malformed

namespace TypeTable

variable (types : TypeTable)

/-- The value that a query gives to a field, if it addresses the field.  `enter` overlays the object
of a nested record and answers nothing if none of its fields is addressed. -/
def queryValue? (room : Nat)
    (enter : String → Record → Json.Object → Except FieldError (Option Json.Object))
    (query : Query) (target : Json.Object) (f : VisibleField) : Except FieldError (Option Json) :=
  let name := f.lookupName
  match types.shape f.target with
  | .record id r => do
    let nested := match target.find? f.wireName with
      | some (.object existing) => existing
      | _ => types.zeroObject (room - 1) id r
    let overlaid ← enter id r nested
    .ok (overlaid.map .object)
  | .sequence element =>
    match query.all name with
    | [] => .ok none
    | values => do
      let items ← values.zipIdx.mapM fun (value, i) =>
        types.convertAt (room + 1) element (.string value) (indexed name (toString i))
      .ok (some (.array items))
  | .table keys values =>
    match query.entries name with
    | [] => .ok none
    | entries => do
      let members ← entries.mapM fun (key, value) => do
        let _ ← types.convertAt (room + 1) keys (.string key) (indexed name key)
        let value ← types.convertAt (room + 1) values (.string value) (indexed name key)
        .ok (key, value)
      .ok (some (.object (Members.ofList members)))
  | _ =>
    match query.last? name with
    | none => .ok none
    | some raw => do
      let value ← types.convertAt (room + 1) f.type (.string raw) name
      .ok (some value)

/-- The fields that a query addresses, put into an object one after the other; and whether there was
any. -/
def overlayFields (room : Nat)
    (enter : String → Record → Json.Object → Except FieldError (Option Json.Object))
    (query : Query) (fields : List VisibleField) (start : Json.Object) :
    Except FieldError (Json.Object × Bool) := do
  let (a, touched) ← fields.foldlM
    (fun (a, touched) f => do
      match ← types.queryValue? room enter query a.target f with
      | some value => .ok (a.put f value, true)
      | none => .ok (a, touched))
    ((⟨start, []⟩ : Assembly), false)
  .ok (types.completeGroups room fields a.groups a.target, touched)

/-- Overlays a query on the object of a record.  A record that is already on `path` is not entered
again, nor one below `room` levels. -/
def overlayQuery : Nat → List String → Query → List VisibleField → Json.Object →
    Except FieldError (Json.Object × Bool)
  | 0, _, query, fields, start => types.overlayFields 0 (fun _ _ _ => .ok none) query fields start
  | room + 1, path, query, fields, start =>
    types.overlayFields (room + 1)
      (fun id r nested =>
        if path.contains id then .ok none
        else do
          let (nested, touched) ← overlayQuery room (id :: path) query (types.fieldsOf id r) nested
          .ok (if touched then some nested else none))
      query fields start

/-- Overlays a body on the object of a record that is not nested. -/
def overlayTop (fields : List VisibleField) (body start : Json.Object) :
    Except FieldError Json.Object := do
  let a ← overlayBody (types.convertAt (maxDepth + 1)) fields body "" start
  .ok (types.completeGroups maxDepth fields a.groups a.target)

/-- The value of a request type for one call. -/
def requestValue (t : Ty) (method : String) (input : CallInput) :
    Except RequestError Json :=
  match types.record? t with
  | none => .error (.notARecord (types.typeName t.target))
  | some (id, r) =>
    let fields := types.fieldsOf id r
    match Verb.ofName? method with
    | none => .error (.unsupportedMethod method)
    | some verb => do
      let start := types.zeroObject maxDepth id r
      let queried ←
        if verb.readsQuery then
          ((types.overlayQuery maxDepth [id] input.query fields start).map
            Prod.fst).mapError .invalidField
        else
          .ok start
      let overlaid ←
        if verb.readsBody then do
          match ← (readBody input.body).mapError .invalidBody with
          | none => .ok queried
          | some body => (types.overlayTop fields body queried).mapError .invalidField
        else
          .ok queried
      let target ← ((types.overlayQuery maxDepth [id] ⟨input.pathParams⟩ fields overlaid).map
        Prod.fst).mapError .invalidField
      .ok (.object target)

end TypeTable
end TypedRoutes
