import TypedRoutes.Request.Assemble

/-!
# Decoded requests

A request value is decoded strictly: integers and keys are read as they are written, arrays have
their length, and every field that is not optional is present.  `TypeTable.decodeAt` gives the
decoded value in its canonical written form: times in UTC, ordered sets sorted and without
repetition, flattened records in line.
-/

namespace TypedRoutes

/-- Whether an item comes before another in an ordered set. -/
def Json.precedes : Json → Json → Bool
  | .int a, .int b => a < b
  | .string a, .string b => a < b
  | _, _ => false

/-- A sorted list of items with one more item, unless it is there already. -/
def insertItem (item : Json) : List Json → List Json
  | [] => [item]
  | head :: rest =>
    if item.precedes head then item :: head :: rest
    else if head.precedes item then head :: insertItem item rest
    else head :: rest

/-- The items of a container as it keeps them, if it admits their number. -/
def Sequence.arrange (container : Sequence) (items : List Json) : Option (List Json) :=
  match container with
  | .orderedSet => some (items.foldl (fun sorted item => insertItem item sorted) [])
  | .array (some length) => if items.length = length then some items else none
  | _ => some items

/-- The decoded form of a value without components. -/
def Shape.decodeLeaf? : Shape → Json → Option Json
  | .bool, .bool b => some (.bool b)
  | .int signed bits, .int n => if Json.fits signed bits n then some (.int n) else none
  | .float _, .float x => some (.float x)
  | .float _, .int n => some (.float (Binary64.ofInt n))
  | .text choices, .string s =>
    if choices.isEmpty || choices.contains s then some (.string s) else none
  | .char, .string s => if s.toList.length = 1 then some (.string s) else none
  | .time kind, .string s =>
    ((Moment.ofText? s.toList).or (Moment.ofSigned? s.toList)).map fun m =>
      .string (match kind with
        | .dateTime => m.utcText
        | .naiveDateTime => m.localText
        | .date => m.dateText)
  | .any, value => some value
  | .marker, .object _ => some (RouteMeta.toJson ⟨"", "", "", "", "", []⟩)
  | _, _ => none

/-- Whether a text is exactly how a key of a shape is written. -/
def Shape.isKeyText : Shape → String → Bool
  | .bool, s => s = "true" || s = "false"
  | .int signed bits, s =>
    match Numeral.int? s.toList with
    | some n => Json.fits signed bits n && toString n = s
    | none => false
  | .char, s => s.toList.length = 1
  | .text choices, s => choices.isEmpty || choices.contains s
  | _, _ => true

namespace TypeTable

variable (types : TypeTable)

/-- The names that the fields of a record take from an object, those of flattened records
included. -/
def takenNames (r : Record) : List String :=
  r.fields.flatMap fun f =>
    if f.flatten then (types.fields f.type).map (·.wireName) else [f.wireName]

/-- The decoded members with those that one declared field contributes.  An optional flattened
record that cannot be decoded is absent; a flattened table takes the names that no other field
takes. -/
def decodeField (decode : Ty → Json → Option Json) (r : Record) (members decoded : Json.Object)
    (f : Field) : Option Json.Object :=
  if f.flatten then
    match types.shape f.type.target with
    | .record _ _ =>
      match decode f.type.target (.object members) with
      | some inner =>
        some (inner.members.foldl (fun d (k, v) => Members.insert k v d) decoded)
      | none => if f.type.isOption then some decoded else none
    | .table _ values =>
      (members.filter fun (k, _) => !(types.takenNames r).contains k).foldlM
        (fun d (k, v) => (decode values v).map fun v => Members.insert k v d) decoded
    | _ => none
  else
    match members.find? f.wireName with
    | some item => (decode f.type item).map fun v => decoded.insert f.wireName v
    | none => if f.type.isOption then some (decoded.insert f.wireName .null) else none

/-- The decoded form of a value. -/
def decodeAt : Nat → Ty → Json → Option Json
  | 0, _, _ => none
  | room + 1, t, value =>
    if t.isOption && value matches .null then some .null
    else
      match t.target, value with
      | .sequence container element, .array items => do
        let items ← items.mapM fun item => decodeAt room element item
        (container.arrange items).map .array
      | .sequence _ _, _ => none
      | .table _ keys values, .object members =>
        if members.all fun ((key, _) : String × Json) => (types.shape keys).isKeyText key then
          (members.mapM fun ((key, item) : String × Json) =>
            (decodeAt room values item).map fun item => (key, item)).map .object
        else
          none
      | .table _ _ _, _ => none
      | t, value =>
        match types.shape t, value with
        | .record _ r, .object members =>
          (r.fields.foldlM
            (types.decodeField (fun t v => decodeAt room t v) r members) []).map .object
        | .record _ _, _ => none
        | shape, value => shape.decodeLeaf? value

end TypeTable

/-- A request value together with its decoded form and the metadata of its route. -/
structure TypedRequest where
  value : Json
  request : Json
  routeMeta : RouteMeta

/-- Builds and decodes the request of one call, and writes the route's metadata into its marker. -/
def TypeTable.typedRequest (types : TypeTable) (t : Ty) (method : String)
    (input : CallInput) : Except RequestError TypedRequest := do
  let value ← types.requestValue t method input
  match types.decodeAt (maxDepth + 1) t value with
  | none => .error (.decoding "the value does not have the declared form")
  | some request =>
    let info ← (types.routeMeta t).mapError .routeMeta
    let marked := match (types.record? t).bind fun (_, r) => r.markerField? with
      | some marker => request.members.insert marker.wireName info.toJson
      | none => request.members
    .ok ⟨value, .object marked, info⟩

end TypedRoutes
