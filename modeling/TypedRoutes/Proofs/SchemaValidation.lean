import TypedRoutes.Proofs.ConversionSoundness
import TypedRoutes.Proofs.SchemaUnfolding

/-!
# Validation against a schema

`Schema.accepts` says which JSON values a schema describes.  For a type whose schema has no
placeholders, `TypeTable.Fits` comes down layer by layer to the types of the components.
-/

namespace TypedRoutes

/-- Whether a JSON value is of a schema's type; an integer is a number, too. -/
def SchemaType.admits : SchemaType → Json → Bool
  | .string, .string _ => true
  | .number, .int _ => true
  | .number, .float _ => true
  | .integer, .int _ => true
  | .boolean, .bool _ => true
  | .array, .array _ => true
  | .object, .object _ => true
  | _, _ => false

namespace Schema

/-- Whether a schema admits `null`. -/
def nullable : Schema → Bool
  | .value _ _ _ _ nullable => nullable
  | .array _ _ nullable => nullable
  | .table _ _ nullable => nullable
  | .record _ _ _ nullable => nullable
  | .placeholder _ => false

mutual

/-- Whether a JSON value validates against a schema. -/
def accepts : Schema → Json → Bool
  | .value type _ choices _ nullable, json =>
    match json with
    | .null => nullable
    | _ => type.admits json && (choices.isEmpty || json.text?.any choices.contains)
  | .array items _ nullable, json =>
    match json with
    | .null => nullable
    | .array xs => xs.all fun x => accepts items x
    | _ => false
  | .table values _ nullable, json =>
    match json with
    | .null => nullable
    | .object members => members.all fun entry => accepts values entry.2
    | _ => false
  | .record properties required _ nullable, json =>
    match json with
    | .null => nullable
    | .object members =>
      (required.all fun name => Members.contains name members) && acceptsMembers properties members
    | _ => false
  | .placeholder _, json => SchemaType.object.admits json

/-- Whether the properties that are present validate against their schemas. -/
def acceptsMembers : List (String × Schema) → Json.Object → Bool
  | [], _ => true
  | (name, s) :: rest, members =>
    (members.find? name).all (fun json => accepts s json) && acceptsMembers rest members

end

theorem accepts_null (s : Schema) : s.accepts .null = s.nullable := by
  cases s <;> rfl

theorem accepts_array_iff
    {items : Schema} {text : Option String} {nullable : Bool} {xs : List Json} :
    (Schema.array items text nullable).accepts (.array xs) = true ↔
      ∀ x ∈ xs, items.accepts x = true :=
  List.all_eq_true

theorem accepts_table_iff
    {values : Schema} {text : Option String} {nullable : Bool} {members : Json.Object} :
    (Schema.table values text nullable).accepts (.object members) = true ↔
      ∀ entry ∈ members, values.accepts entry.2 = true :=
  List.all_eq_true

theorem acceptsMembers_iff
    {properties : List (String × Schema)} {members : Json.Object} :
    acceptsMembers properties members = true ↔ ∀ property ∈ properties, ∀ json,
      members.find? property.1 = some json → property.2.accepts json = true := by
  induction properties with
  | nil => simp [acceptsMembers]
  | cons property rest ih =>
      rw [acceptsMembers, Bool.and_eq_true, ih, List.forall_mem_cons, Option.all_eq_true]

theorem accepts_record_iff
    {properties : List (String × Schema)} {required : List String} {text : Option String}
    {nullable : Bool} {members : Json.Object} :
    (Schema.record properties required text nullable).accepts (.object members) = true ↔
      (∀ name ∈ required, members.contains name = true) ∧ ∀ property ∈ properties, ∀ json,
        members.find? property.1 = some json → property.2.accepts json = true := by
  simp [accepts, acceptsMembers_iff]

theorem accepts_describe
    (text : Option String) (s : Schema) (json : Json) :
    (s.describe text).accepts json = s.accepts json := by
  cases s <;> rfl

theorem contains_describe
    (reason : Placeholder) (text : Option String) (s : Schema) :
    (s.describe text).contains reason = s.contains reason := by
  cases s <;> rfl

theorem contains_ofField
    (reason : Placeholder) (optional : Bool) (text : Option String) (s : Schema) :
    (s.ofField optional text).contains reason = s.contains reason := by
  rw [ofField, contains_describe]
  cases optional with
  | false => rfl
  | true => cases s <;> rfl

theorem containsAny_eq_false_iff
    {reason : Placeholder} {properties : List (String × Schema)} :
    containsAny reason properties = false ↔
      ∀ property ∈ properties, property.2.contains reason = false := by
  induction properties with
  | nil => simp [containsAny]
  | cons property rest ih =>
      rw [containsAny, Bool.or_eq_false_iff, ih, List.forall_mem_cons]

theorem nullable_ofField
    {s : Schema} (h : ∀ reason, s.contains reason = false) (text : Option String) :
    (s.ofField true text).nullable = true := by
  cases s with
  | placeholder reason =>
      have hself := h reason
      simp [contains] at hself
  | _ => rfl

end Schema

/-- A value of a shape without components validates against the schema of the shape. -/
theorem Shape.accepts_of_leaf
    {shape : Shape} {json : Json} (h : shape.Leaf json) (hknown : shape ≠ .any) :
    ∃ type format choices, shape.literal? = some (type, format, choices) ∧
      ∀ text nullable,
        (Schema.value type format choices text nullable).accepts json = true := by
  cases h with
  | bool b => exact ⟨_, _, _, rfl, by simp [Schema.accepts, SchemaType.admits]⟩
  | int h => exact ⟨_, _, _, rfl, by simp [Schema.accepts, SchemaType.admits]⟩
  | float h => exact ⟨_, _, _, rfl, by simp [Schema.accepts, SchemaType.admits]⟩
  | text h => exact ⟨_, _, _, rfl, by simpa [Schema.accepts, SchemaType.admits, Json.text?] using h⟩
  | char c => exact ⟨_, _, _, rfl, by simp [Schema.accepts, SchemaType.admits]⟩
  | time h => exact ⟨_, _, _, rfl, by simp [Schema.accepts, SchemaType.admits]⟩
  | any => exact absurd rfl hknown
  | marker => exact ⟨_, _, _, rfl, by simp [Schema.accepts, SchemaType.admits, Json.empty]⟩

namespace TypeTable

/-! ## Values that fit a type -/

/-- A value validates against the unfolding of a type. -/
def Fits (types : TypeTable) (room : Nat) (ancestors : Finset String) (t : Ty) (json : Json) :
    Prop :=
  (types.unfolding room ancestors t).accepts json = true

/-- The required fields of a record are there, and the values of those that are there satisfy
`P`. -/
structure FieldsFit (P : Ty → Json → Prop) (fields : List VisibleField) (members : Json.Object) :
    Prop where
  required : ∀ f ∈ fields, f.isRequired = true → members.contains f.wireName = true
  values : ∀ f ∈ fields, ∀ json, members.find? f.wireName = some json → P f.type json

variable {types : TypeTable} {room : Nat} {ancestors : Finset String} {t : Ty} {json : Json}
  {id : String} {r : Record}

theorem unfolding_succ
    (room : Nat) (ancestors : Finset String) (t : Ty) :
    types.unfolding (room + 1) ancestors t =
      (types.layer (types.unfolding room) ancestors t.target).ofField t.isOption none := by
  rw [unfolding, Schema.ofField, Schema.describe_none]

theorem fits_leaf
    (hknown : types.shape t.target ≠ .any) (h : (types.shape t.target).Leaf json) :
    types.Fits (room + 1) ancestors t json := by
  obtain ⟨type, format, choices, hliteral, haccepts⟩ := Shape.accepts_of_leaf h hknown
  rw [Fits, unfolding_succ, layer_of_literal? hliteral, Schema.ofField_value]
  exact haccepts none t.isOption

theorem fits_array
    {element : Ty} (ht : types.shape t.target = .sequence element) {items : List Json}
    (h : ∀ item ∈ items, types.Fits room ancestors element item) :
    types.Fits (room + 1) ancestors t (.array items) := by
  rw [Fits, unfolding_succ, layer, ht, Schema.ofField_array]
  exact Schema.accepts_array_iff.mpr h

theorem fits_table
    {keys values : Ty} (ht : types.shape t.target = .table keys values) {members : Json.Object}
    (h : ∀ entry ∈ members, types.Fits room ancestors values entry.2) :
    types.Fits (room + 1) ancestors t (.object members) := by
  rw [Fits, unfolding_succ, layer, ht, Schema.ofField_table]
  exact Schema.accepts_table_iff.mpr h

/-- Every field has its property, where the names of fields are distinct. -/
theorem mem_properties
    {fields : List VisibleField} (hnodup : (fields.map VisibleField.wireName).Nodup)
    (schema : Ty → Schema) {f : VisibleField} (hf : f ∈ fields) :
    (f.wireName, (schema f.type).describe f.description) ∈
      Members.ofList
        (fields.map fun f => (f.wireName, (schema f.type).describe f.description)) := by
  apply Members.mem_of_find?_eq_some
  rw [find?_properties]
  obtain ⟨g, hg⟩ : ∃ g, fields.reverse.find? (·.wireName = f.wireName) = some g := by
    rw [← Option.isSome_iff_exists, List.find?_isSome]
    exact ⟨f, List.mem_reverse.mpr hf, by simp⟩
  have hname : g.wireName = f.wireName := by simpa using List.find?_some hg
  have hmem : g ∈ fields := List.mem_reverse.mp (List.mem_of_find?_eq_some hg)
  obtain rfl : g = f := List.inj_on_of_nodup_map hnodup hmem hf hname
  rw [hg, Option.map_some]

/-- An object validates against the schema of a record if its members fit the fields. -/
theorem fits_record_iff
    (ht : types.shape t.target = .record id r) (hid : id ∉ ancestors)
    (hnodup : ((types.fieldsOf id r).map VisibleField.wireName).Nodup) {members : Json.Object} :
    types.Fits (room + 1) ancestors t (.object members) ↔
      FieldsFit (types.Fits room (insert id ancestors)) (types.fieldsOf id r) members := by
  rw [Fits, unfolding_succ, layer, ht]
  simp only [hid, if_false, recordSchema, Schema.ofField_record, Schema.accepts_record_iff]
  constructor
  · rintro ⟨hrequired, hproperties⟩
    constructor
    · intro f hf hrequires
      apply hrequired
      exact List.mem_map_of_mem (List.mem_filter.mpr ⟨hf, hrequires⟩)
    · intro f hf json hjson
      have hproperty := hproperties _ (mem_properties hnodup _ hf) json hjson
      rwa [Schema.accepts_describe] at hproperty
  · rintro ⟨hrequired, hvalues⟩
    constructor
    · intro name hname
      obtain ⟨f, hf, rfl⟩ := List.mem_map.mp hname
      obtain ⟨hf, hrequires⟩ := List.mem_filter.mp hf
      exact hrequired f hf hrequires
    · intro property hproperty json hjson
      obtain ⟨f, hf, rfl⟩ := List.mem_map.mp (Members.mem_of_mem_ofList hproperty)
      rw [Schema.accepts_describe]
      exact hvalues f hf json hjson

/-! ## Types with a complete schema -/

/-- The values of a type are known, and the fields of a record have distinct names in JSON. -/
structure Describable (types : TypeTable) (t : Ty) : Prop where
  known : types.shape t.target ≠ .any
  nodup : ∀ id r, types.shape t.target = .record id r →
    ((types.fieldsOf id r).map VisibleField.wireName).Nodup

/-- No member of an optional group has the name of the marker. -/
def MarkerApart (types : TypeTable) (t : Ty) : Prop :=
  ∀ id r, types.shape t.target = .record id r → ∀ m ∈ r.markerField?,
    ∀ f ∈ types.fieldsOf id r, f.group.isSome = true → f.wireName ≠ m.wireName

/-- Whether a type can be described. -/
def isDescribable (types : TypeTable) (t : Ty) : Bool :=
  match types.shape t.target with
  | .any => false
  | .record id r => ((types.fieldsOf id r).map VisibleField.wireName).Nodup
  | _ => true

theorem isDescribable_iff : types.isDescribable t = true ↔ types.Describable t := by
  unfold isDescribable
  constructor
  · intro h
    constructor
    · intro hshape
      simp [hshape] at h
    · intro id r hshape
      simpa [hshape] using h
  · intro h
    split
    · rename_i hshape
      exact absurd hshape h.known
    · rename_i hshape
      exact decide_eq_true (h.nodup _ _ hshape)
    · rfl

instance : Decidable (types.Describable t) := decidable_of_iff _ isDescribable_iff

/-- Whether no member of an optional group has the name of the marker. -/
def isMarkerApart (types : TypeTable) (t : Ty) : Bool :=
  match types.shape t.target with
  | .record id r => ∀ m ∈ r.markerField?, ∀ f ∈ types.fieldsOf id r, f.group.isSome = true →
      f.wireName ≠ m.wireName
  | _ => true

theorem isMarkerApart_iff : types.isMarkerApart t = true ↔ types.MarkerApart t := by
  unfold isMarkerApart
  constructor
  · intro h id r hshape
    simpa [hshape] using h
  · intro h
    split
    · rename_i hshape
      exact decide_eq_true (h _ _ hshape)
    · rfl

instance : Decidable (types.MarkerApart t) := decidable_of_iff _ isMarkerApart_iff

/-- A type is unfolded without placeholders, and all types that it reaches can be described. -/
structure Documented (types : TypeTable) (room : Nat) (ancestors : Finset String) (t : Ty) :
    Prop where
  complete : ∀ reason, (types.unfolding room ancestors t).contains reason = false
  describable : ∀ u, Relation.ReflTransGen types.Component t u → types.Describable u
  markers : ∀ u, Relation.ReflTransGen types.Component t u → types.MarkerApart u

theorem Documented.exists_succ
    (h : types.Documented room ancestors t) : ∃ n, room = n + 1 := by
  cases room with
  | zero =>
      have hplaceholder := h.complete .maxDepth
      simp [unfolding, Schema.contains] at hplaceholder
  | succ n => exact ⟨n, rfl⟩

theorem Documented.layer_complete
    (h : types.Documented (room + 1) ancestors t) (reason : Placeholder) :
    (types.layer (types.unfolding room) ancestors t.target).contains reason = false := by
  have hcomplete := h.complete reason
  rwa [unfolding_succ, Schema.contains_ofField] at hcomplete

theorem Documented.component
    {u : Ty} (h : types.Documented (room + 1) ancestors t) (hcomponent : types.Component t u)
    {ancestors' : Finset String}
    (hcomplete : ∀ reason, (types.unfolding room ancestors' u).contains reason = false) :
    types.Documented room ancestors' u where
  complete := hcomplete
  describable := fun v hv => h.describable v (.head hcomponent hv)
  markers := fun v hv => h.markers v (.head hcomponent hv)

theorem Documented.element
    {element : Ty} (h : types.Documented (room + 1) ancestors t)
    (ht : types.shape t.target = .sequence element) :
    types.Documented room ancestors element := by
  apply h.component (.element ht)
  intro reason
  have hlayer := h.layer_complete reason
  rwa [layer, ht] at hlayer

theorem Documented.value
    {keys values : Ty} (h : types.Documented (room + 1) ancestors t)
    (ht : types.shape t.target = .table keys values) :
    types.Documented room ancestors values := by
  apply h.component (.value ht)
  intro reason
  have hlayer := h.layer_complete reason
  rwa [layer, ht] at hlayer

theorem Documented.nodup
    (h : types.Documented room ancestors t) (ht : types.shape t.target = .record id r) :
    ((types.fieldsOf id r).map VisibleField.wireName).Nodup :=
  (h.describable t .refl).nodup id r ht

theorem Documented.not_mem
    (h : types.Documented (room + 1) ancestors t) (ht : types.shape t.target = .record id r) :
    id ∉ ancestors := by
  intro hid
  have hlayer := h.layer_complete .circular
  simp [layer, ht, hid, Schema.contains] at hlayer

theorem Documented.field
    (h : types.Documented (room + 1) ancestors t) (ht : types.shape t.target = .record id r)
    {f : VisibleField} (hf : f ∈ types.fieldsOf id r) :
    types.Documented room (insert id ancestors) f.type := by
  apply h.component (.field ht hf)
  intro reason
  have hlayer := h.layer_complete reason
  simp only [layer, ht, h.not_mem ht, if_false, recordSchema, Schema.contains,
    Schema.containsAny_eq_false_iff] at hlayer
  have hproperty := hlayer _ (mem_properties (h.nodup ht) _ hf)
  rwa [Schema.contains_describe] at hproperty

theorem Documented.fits_null
    (h : types.Documented room ancestors t) (hoption : t.isOption = true) :
    types.Fits room ancestors t .null := by
  obtain ⟨n, rfl⟩ := h.exists_succ
  rw [Fits, unfolding_succ, hoption, Schema.accepts_null]
  exact Schema.nullable_ofField h.layer_complete none

end TypeTable
end TypedRoutes
