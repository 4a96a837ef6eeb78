import TypedRoutes.Attributes.Rules
import TypedRoutes.Types.Basic

/-!
# The visible fields of a record

`TypeTable.fields` lists the fields of a record as every reader of it sees them: the marker is left
out, and a flattened field is replaced in place by the fields of its record.  Flattening stops at a
record that is already being flattened and at `maxFlatten` nested records.  The fields that come
through one flattened optional record form a group: either all of them are present or none.
-/

namespace TypedRoutes

/-- The greatest number of records on a path of flattened fields, the outermost one included. -/
def maxFlatten : Nat := 32

/-- A field as seen from the record that is walked. -/
structure VisibleField where
  name : String
  wireName : String
  type : Ty
  attributes : Attributes
  doc : Option String
  /-- Whether the field comes from a flattened record. -/
  embedded : Bool
  /-- The optional flattened record that the field came through, if any. -/
  group : Option Nat
  deriving DecidableEq

/-- Coarse classes of field types. -/
inductive FieldKind
  | scalar
  | record
  | sequence
  | table
  | option
  | time
  deriving DecidableEq

/-- The class of a shape; free-form values and the marker count as scalars. -/
def Shape.fieldKind : Shape → FieldKind
  | .record _ _ => .record
  | .sequence _ => .sequence
  | .table _ _ => .table
  | .option _ => .option
  | .time _ => .time
  | .bool | .int _ _ | .float _ | .text _ | .char | .any | .marker => .scalar

namespace VisibleField

/-- The name under which input is looked up: the `p` attribute, else the name in JSON. -/
def lookupName (f : VisibleField) : String :=
  (f.attributes.get? "p").getD f.wireName

/-- Whether the field may be left out. -/
def isOptional (f : VisibleField) : Bool :=
  f.type.isOption || f.group.isSome

/-- Whether a value has to be given. -/
def isRequired (f : VisibleField) : Bool :=
  !f.isOptional && f.attributes.requiresValue

/-- The description in the attributes, else the doc comment. -/
def description (f : VisibleField) : Option String :=
  (f.attributes.get? "dc").or ((f.attributes.get? "description").or f.doc)

/-- The type below the optional layers. -/
def target (f : VisibleField) : Ty :=
  f.type.target

end VisibleField

/-- How a record is reached: directly, or through flattened fields that may have been optional. -/
structure Crossing where
  embedded : Bool
  group : Option Nat

namespace TypeTable

variable (types : TypeTable)

/-- What a declared field contributes by itself. -/
def visibleField (crossing : Crossing) (field : Field) : VisibleField where
  name := field.name
  wireName := field.wireName
  type := field.type
  attributes := Attributes.completed field.attributeText
  doc := field.doc
  embedded := crossing.embedded
  group := crossing.group

/-- The fields of a record reached along `path`, and the number of groups that exist afterwards.
`fuel` is at least the number of records that may still be entered. -/
def walk : Nat → List String → Crossing → Record → Nat → List VisibleField × Nat
  | 0, _, _, _, groups => ([], groups)
  | fuel + 1, path, crossing, r, groups =>
    r.fields.foldl
      (fun (found, groups) field =>
        if field.marker then (found, groups)
        else if field.type = .marker then (found, groups)
        else
          match if field.flatten then types.record? field.type else none with
          | some (id, inner) =>
            if path.contains id || maxFlatten ≤ path.length then (found, groups)
            else
              let (group, groups) :=
                match crossing.group with
                | some group => (some group, groups)
                | none => if field.type.isOption then (some groups, groups + 1) else (none, groups)
              let (fields, groups) := walk fuel (id :: path) ⟨true, group⟩ inner groups
              (found ++ fields, groups)
          | none => (found ++ [visibleField crossing field], groups))
      ([], groups)

/-- The visible fields of a record that is defined under `id`. -/
def fieldsOf (id : String) (r : Record) : List VisibleField :=
  (types.walk maxFlatten [id] ⟨false, none⟩ r 0).1

/-- The visible fields of a type; a type that is no record has none. -/
def fields (t : Ty) : List VisibleField :=
  match types.record? t with
  | some (id, r) => types.fieldsOf id r
  | none => []

end TypeTable
end TypedRoutes
