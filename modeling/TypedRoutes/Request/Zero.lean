import TypedRoutes.Json.Basic
import TypedRoutes.Types.Walk

/-!
# Zero values

Every type has a value that stands for absent input.  A record's is an object with the zero value of
each visible field; the members of an optional flattened record are left out.  Records nested deeper
than `maxDepth` are empty objects.
-/

namespace TypedRoutes

/-- The greatest depth of records in a zero value, and of containers in converted input. -/
def maxDepth : Nat := 32

/-- The beginning of 1970 as each kind of time text. -/
def TimeKind.epoch : TimeKind → String
  | dateTime => "1970-01-01T00:00:00Z"
  | naiveDateTime => "1970-01-01T00:00:00"
  | date => "1970-01-01"

namespace TypeTable

variable (types : TypeTable)

/-- An object with the marker and every field outside optional groups, given the value of each
type. -/
def zeroObjectWith (zero : Ty → Json) (id : String) (r : Record) : Json.Object :=
  let start : Json.Object := match r.markerField? with
    | some marker => [(marker.wireName, Json.empty)]
    | none => []
  (types.fieldsOf id r).foldl
    (fun target f => if f.group.isSome then target else target.insert f.wireName (zero f.type))
    start

/-- The zero value of a type where `room` more levels of records may be entered. -/
def zeroAt : Nat → Ty → Json
  | room, t =>
    match types.shape t with
    | .bool => .bool false
    | .int _ _ => .int 0
    | .float _ => .float 0.0
    | .text choices => .string (choices.head?.getD "")
    | .char => .string "\x00"
    | .time kind => .string kind.epoch
    | .any => .null
    | .marker => Json.empty
    | .table _ _ => Json.empty
    | .sequence _ => .array []
    | .option _ => .null
    | .record id r =>
      match room with
      | 0 => Json.empty
      | room + 1 => .object (types.zeroObjectWith (zeroAt room) id r)

/-- The zero value of a record's fields. -/
def zeroObject (room : Nat) (id : String) (r : Record) : Json.Object :=
  types.zeroObjectWith (types.zeroAt room) id r

/-- The zero value of a type. -/
def zero (t : Ty) : Json :=
  types.zeroAt maxDepth t

/-- An object with the missing members of some optional groups at their zero values. -/
def completeGroups (room : Nat) (fields : List VisibleField) (groups : List Nat)
    (target : Json.Object) : Json.Object :=
  fields.foldl
    (fun target f =>
      match f.group with
      | some group =>
        if groups.contains group && !target.contains f.wireName then
          target.insert f.wireName (types.zeroAt room f.type)
        else
          target
      | none => target)
    target

end TypeTable
end TypedRoutes
