import TypedRoutes.Calendar.Moment
import TypedRoutes.Json.Reading
import TypedRoutes.Json.Writing
import TypedRoutes.Request.Error
import TypedRoutes.Request.Zero
import TypedRoutes.Text.Numeral

/-!
# Conversion of input to the type of a field

`TypeTable.convertAt` converts a JSON value to the form that a type is decoded from.  Texts, numbers
and truth values are converted into each other where the text allows it, a single value becomes a
list of one, and a text that holds an object or a list is opened.  A failure names the path of the
input.
-/

namespace TypedRoutes
namespace Json

/-! ## Values of builtin types -/

/-- The truth value that a value denotes. -/
def boolOf? : Json → Option Bool
  | .bool b => some b
  | .null => some false
  | .int n => some (n != 0)
  | .float x => some (x != 0)
  | .string s =>
    let word := Text.lowerAscii (Text.trim s)
    if ["true", "1", "yes", "on", "t"].contains word then some true
    else if ["false", "0", "no", "off", "f", ""].contains word then some false
    else none
  | _ => none

/-- The integer that a value denotes; a blank text is zero. -/
def intOf? : Json → Option Int
  | .int n => some n
  | .float x => Binary64.toInt? x
  | .string s =>
    let text := Text.strip Text.isBlank s.toList
    if text.isEmpty then some 0
    else (Numeral.int? text).or ((Numeral.float? text).bind Binary64.toInt?)
  | .bool b => some (if b then 1 else 0)
  | .null => some 0
  | _ => none

/-- The binary64 number that a value denotes; a blank text is zero. -/
def floatOf? : Json → Option Float
  | .int n => some (Binary64.ofInt n)
  | .float x => some x
  | .string s =>
    let text := Text.strip Text.isBlank s.toList
    if text.isEmpty then some 0.0 else Numeral.float? text
  | .bool b => some (if b then 1.0 else 0.0)
  | .null => some 0.0
  | _ => none

/-- The text that a value denotes; `null` denotes none. -/
def textOf? : Json → Option String
  | .string s => some s
  | .int n => some (toString n)
  | .float x => some (floatText x)
  | .bool b => some (if b then "true" else "false")
  | _ => none

/-- The single character that a text or a number is written with. -/
def charOf? : Json → Option String
  | .bool _ => none
  | value =>
    match value.textOf?.map String.toList with
    | some [c] => some (String.ofList [c])
    | _ => none

/-- The moment that a value denotes: a time text, or an integer of seconds since 1970. -/
def momentOf? : Json → Option Moment
  | .string s => Moment.ofText? (Text.strip Text.isBlank s.toList)
  | .int n => if n < Int.pow 2 63 then Moment.ofUnixSeconds? n else none
  | _ => none

/-- The time text of a value.  A text with an offset is kept as a date-time; a text without one is
taken as UTC. -/
def timeOf? (kind : TimeKind) (value : Json) : Option String :=
  match value with
  | .null => some kind.epoch
  | _ =>
    (momentOf? value).map fun m =>
      match kind with
      | .naiveDateTime => m.localText
      | .date => m.dateText
      | .dateTime =>
        match value with
        | .string s =>
          if (Moment.ofRfc3339? (Text.strip Text.isBlank s.toList)).isSome then Text.trim s
          else m.utcText
        | _ => m.utcText

/-- Whether an integer fits a width, signed or not. -/
def fits (signed : Bool) (bits : Nat) (n : Int) : Bool :=
  if signed then -(Int.pow 2 (bits - 1)) ≤ n && n ≤ Int.pow 2 (bits - 1) - 1
  else 0 ≤ n && n ≤ Int.pow 2 bits - 1

/-! ## Containers -/

/-- The members of an object, or of a text that holds one. -/
def objectOf? : Json → Option Object
  | .object ms => some ms
  | .string s =>
    match parse? s with
    | some (.object ms) => some ms
    | _ => none
  | _ => none

/-- The items of a list, of a text that begins like one, or the value itself as the only item. -/
def itemsOf? : Json → Option (List Json)
  | .array items => some items
  | .null => some []
  | .string s =>
    if (s.toList.dropWhile Text.isBlank).head? = some '[' then
      match parse? s with
      | some (.array items) => some items
      | _ => none
    else
      some [.string s]
  | value => some [value]

end Json

/-- The value of a type without components that an input denotes. -/
def Shape.leafOf? : Shape → Json → Option Json
  | .bool, value => value.boolOf?.map .bool
  | .int signed bits, value =>
    (value.intOf?.filter (Json.fits signed bits)).map .int
  | .float _, value => (value.floatOf?.filter Float.isFinite).map .float
  | .text choices, value =>
    match value with
    | .null => some (.string (choices.head?.getD ""))
    | _ => (value.textOf?.filter fun s => choices.isEmpty || choices.contains s).map .string
  | .char, value => value.charOf?.map .string
  | .time kind, value => (value.timeOf? kind).map .string
  | _, _ => none

/-- A path extended by a name. -/
def memberPath (path name : String) : String :=
  if path.isEmpty then name else path ++ "." ++ name

/-- A path extended by an index or a key in brackets. -/
def indexed (path key : String) : String :=
  path ++ "[" ++ key ++ "]"

/-- An object under construction, with the optional groups that received a value. -/
structure Assembly where
  target : Json.Object
  groups : List Nat

/-- The assembly after a field received a value. -/
def Assembly.put (a : Assembly) (f : VisibleField) (value : Json) : Assembly where
  target := a.target.insert f.wireName value
  groups := a.groups ++ f.group.toList

/-- The value for a field in a body, under its look-up name or else its name in JSON. -/
def bodyValue? (body : Json.Object) (f : VisibleField) : Option Json :=
  (body.find? f.lookupName).or (body.find? f.wireName)

/-- The fields that a body provides, converted and put into an object one after the other. -/
def overlayBody (convert : Ty → Json → String → Except FieldError Json)
    (fields : List VisibleField) (body : Json.Object) (path : String) (start : Json.Object) :
    Except FieldError Assembly :=
  fields.foldlM
    (fun a f =>
      match bodyValue? body f with
      | none => .ok a
      | some raw => do
        let value ← convert f.type raw (memberPath path f.lookupName)
        .ok (a.put f value))
    ⟨start, []⟩

namespace TypeTable

variable (types : TypeTable)

/-- The value of a type that an input denotes.  `room` bounds the nesting: at zero every input is
refused. -/
def convertAt : Nat → Ty → Json → String → Except FieldError Json
  | 0, _, value, path => .error ⟨path, value.display, "a shallower value"⟩
  | room + 1, t, value, path =>
    let refuse (expected : String) : Except FieldError Json :=
      .error ⟨path, value.display, expected⟩
    if t.isOption && value matches .null then .ok .null
    else
      match types.shape t.target with
      | .any => .ok value
      | .marker => .ok Json.empty
      | .record id r =>
        match value with
        | .null => .ok (types.zeroAt room t.target)
        | _ =>
          match value.objectOf? with
          | none => refuse "object"
          | some body => do
            let fields := types.fieldsOf id r
            let a ← overlayBody (convertAt room) fields body path (types.zeroObject (room - 1) id r)
            .ok (.object (types.completeGroups (room - 1) fields a.groups a.target))
      | .sequence element =>
        match value.itemsOf? with
        | none => refuse "array"
        | some items => do
          let items ← items.zipIdx.mapM fun (item, i) =>
            convertAt room element item (indexed path (toString i))
          .ok (.array items)
      | .table keys values =>
        match value with
        | .null => .ok Json.empty
        | _ =>
          match value.objectOf? with
          | none => refuse "map"
          | some members => do
            let members ← members.mapM fun (key, item) => do
              let _ ← convertAt room keys (.string key) (indexed path key)
              let item ← convertAt room values item (indexed path key)
              .ok (key, item)
            .ok (.object members)
      | shape =>
        match shape.leafOf? value with
        | some leaf => .ok leaf
        | none => refuse shape.kindName

/-- The value of a type that an input denotes. -/
def convert (t : Ty) (value : Json) (path : String) : Except FieldError Json :=
  types.convertAt (maxDepth + 1) t value path

end TypeTable
end TypedRoutes
