import Mathlib.Data.Finset.Insert
import Mathlib.Data.Finset.Dedup
import TypedRoutes.OpenApi.Schema
import TypedRoutes.Proofs.ObjectAssembly

/-!
# A schema is the unfolding of its type

The walk that describes a type puts records into a set that all of its branches share, and takes
them out again.  What it comes to is the unfolding of the type in which every position has the
records on its own way from the root as ancestors: `SchemaPosition` collects what a position depends
on, and the positions of a schema are those that can be walked to in the types.
-/

namespace TypedRoutes

/-! ## Components of schemas -/

namespace Schema

@[simp] theorem orNull_orNull (s : Schema) : s.orNull.orNull = s.orNull := by
  cases s <;> rfl

@[simp] theorem describe_none (s : Schema) : s.describe none = s := by
  cases s <;> simp [describe]

/-- The schema of a field, from that of what is below the optional layers of its type. -/
def ofField (optional : Bool) (text : Option String) (s : Schema) : Schema :=
  (if optional then s.orNull else s).describe text

@[simp] theorem ofField_placeholder
    (optional : Bool) (text : Option String) (reason : Placeholder) :
    ofField optional text (.placeholder reason) = .placeholder reason := by
  cases optional <;> rfl

@[simp] theorem ofField_value
    (optional : Bool) (text : Option String) (type : SchemaType) (format : Option String)
    (choices : List String) :
    ofField optional text (.value type format choices none false) =
      .value type format choices text optional := by
  cases optional <;> rfl

@[simp] theorem ofField_array (optional : Bool) (text : Option String) (items : Schema) :
    ofField optional text (.array items none false) = .array items text optional := by
  cases optional <;> rfl

@[simp] theorem ofField_table (optional : Bool) (text : Option String) (values : Schema) :
    ofField optional text (.table values none false) = .table values text optional := by
  cases optional <;> rfl

@[simp] theorem ofField_record
    (optional : Bool) (text doc : Option String) (properties : Members Schema)
    (required : List String) :
    ofField optional text (.record properties required doc false) =
      .record properties required (doc.or text) optional := by
  cases optional <;> rfl

/-- A step from a schema to one of its components. -/
inductive Step
  | items
  | values
  | property (name : String)
  deriving DecidableEq

/-- The component of a schema that a step leads to. -/
def component? : Schema → Step → Option Schema
  | .array items _ _, .items => some items
  | .table values _ _, .values => some values
  | .record properties _ _ _, .property name => Members.find? name properties
  | _, _ => none

/-- The schema at the end of some steps. -/
def at? : Schema → List Step → Option Schema
  | s, [] => some s
  | s, step :: rest => (s.component? step).bind fun inner => inner.at? rest

@[simp] theorem component?_ofField
    (optional : Bool) (text : Option String) (s : Schema) (step : Step) :
    (s.ofField optional text).component? step = s.component? step := by
  cases optional <;> cases s <;> cases step <;> rfl

end Schema

/-- The type, the format and the choices that describe a shape without components. -/
def Shape.literal? : Shape → Option (SchemaType × Option String × List String)
  | .bool => some (.boolean, none, [])
  | .int _ bits => some (.integer, some (if 32 < bits then "int64" else "int32"), [])
  | .float bits => some (.number, some (if 32 < bits then "double" else "float"), [])
  | .text choices => some (.string, none, choices)
  | .char => some (.string, some "char", [])
  | .time kind => some (.string, some (if kind = .date then "date" else "date-time"), [])
  | .any => some (.string, none, [])
  | .marker | .option _ => some (.object, none, [])
  | .record _ _ | .sequence _ | .table _ _ => none

namespace TypeTable

/-! ## The unfolding of a type -/

/-- The schema of a record whose field types have known schemas. -/
def recordSchema (types : TypeTable) (schema : Ty → Schema) (id : String) (r : Record) : Schema :=
  let fields := types.fieldsOf id r
  .record
    (Members.ofList (fields.map fun f => (f.wireName, (schema f.type).describe f.description)))
    ((fields.filter (·.isRequired)).map (·.wireName)) r.doc false

/-- The schema of a type that is not optional, where `inner` describes its components below some
ancestors. -/
def layer (types : TypeTable) (inner : Finset String → Ty → Schema) (ancestors : Finset String)
    (t : Ty) : Schema :=
  match types.shape t with
  | .record id r =>
    if id ∈ ancestors then .placeholder .circular
    else types.recordSchema (inner (insert id ancestors)) id r
  | .sequence element => .array (inner ancestors element) none false
  | .table _ values => .table (inner ancestors values) none false
  | .text choices => .value .string none choices none false
  | shape => .plain shape.plainType.1 shape.plainType.2

/-- The unfolding of a type: `room` more levels are described, and the records among the ancestors
are not described again. -/
def unfolding (types : TypeTable) : Nat → Finset String → Ty → Schema
  | 0, _, _ => .placeholder .maxDepth
  | room + 1, ancestors, t =>
    let s := types.layer (unfolding types room) ancestors t.target
    if t.isOption then s.orNull else s

variable {types : TypeTable}

theorem layer_of_literal?
    {inner : Finset String → Ty → Schema} {ancestors : Finset String} {t : Ty} {type : SchemaType}
    {format : Option String} {choices : List String}
    (h : (types.shape t).literal? = some (type, format, choices)) :
    types.layer inner ancestors t = .value type format choices none false := by
  rw [layer]
  generalize types.shape t = shape at h
  cases shape with
  | record | sequence | table => cases h
  | time kind =>
      obtain ⟨rfl, rfl, rfl⟩ : _ ∧ _ ∧ _ := by simpa [Shape.literal?] using h
      cases kind <;> rfl
  | bool | int | float | text | char | any | marker | option =>
      obtain ⟨rfl, rfl, rfl⟩ : _ ∧ _ ∧ _ := by simpa [Shape.literal?] using h
      rfl

/-! ## The walk restores the set of records -/

theorem run_pure {σ α : Type} (x : α) (s : σ) : (pure x : StateM σ α).run s = (x, s) := rfl

theorem run_bind
    {σ α β : Type} (step : StateM σ α) (next : α → StateM σ β) (s : σ) :
    (step >>= next).run s = (next (step.run s).1).run (step.run s).2 := rfl

theorem run_throughOptions
    {walk : Ty → SchemaWalk Schema} {described : Ty → Schema} {active : List String}
    (hwalk : ∀ u : Ty, u.isOption = false → (walk u).run active = (described u, active)) (t : Ty) :
    (SchemaWalk.throughOptions walk t).run active =
      (if t.isOption then (described t.target).orNull else described t.target, active) := by
  induction t with
  | option inner ih =>
      rw [SchemaWalk.throughOptions, run_bind, ih, run_pure]
      cases inner.isOption <;> simp [Ty.isOption, Ty.target]
  | _ => exact hwalk _ rfl

theorem run_mapM
    {σ α β : Type} {step : α → StateM σ β} {result : α → β} {s : σ}
    (hstep : ∀ x, (step x).run s = (result x, s)) (xs : List α) :
    (xs.mapM step).run s = (xs.map result, s) := by
  induction xs with
  | nil => rfl
  | cons x rest ih =>
      rw [List.mapM_cons, run_bind, hstep, run_bind, ih, run_pure, List.map_cons]

/-- A record that is described is in the set only while its fields are walked. -/
theorem run_walkRecord
    {walk : Ty → SchemaWalk Schema} {schema : Ty → Schema} {id : String} {active : List String}
    (hwalk : ∀ u, (walk u).run (id :: active) = (schema u, id :: active)) (r : Record) :
    (types.walkRecord walk id r).run active =
      (if id ∈ active then .placeholder .circular else types.recordSchema schema id r, active) := by
  have hget : (get : SchemaWalk (List String)).run active = (active, active) := rfl
  rw [walkRecord, run_bind, hget]
  by_cases hid : id ∈ active
  · simp only [List.contains_iff_mem, hid, if_true, run_pure]
  · have hfield : ∀ f : VisibleField, (do
        let s ← walk f.type
        return (f.wireName, s.describe f.description) : SchemaWalk (String × Schema)).run
          (id :: active) =
        ((f.wireName, (schema f.type).describe f.description), id :: active) := by
      intro f
      rw [run_bind, hwalk, run_pure]
    have hfields := run_mapM hfield (types.fieldsOf id r)
    have hput : ∀ (change : List String → List String) (s : List String),
        (modify change : SchemaWalk PUnit).run s = (⟨⟩, change s) := fun _ _ => rfl
    simp only [List.contains_iff_mem, hid, if_false, run_bind, hput, hfields, run_pure,
      List.erase_cons_head, recordSchema]

/-- A walk comes to the unfolding and leaves the set as it was. -/
theorem run_walkSchema
    (room : Nat) (t : Ty) (active : List String) :
    (types.walkSchema room t).run active = (types.unfolding room active.toFinset t, active) := by
  induction room generalizing t active with
  | zero => rfl
  | succ room ih =>
      rw [walkSchema, unfolding]
      apply run_throughOptions
      intro u _
      rw [layer]
      cases hshape : types.shape u with
      | record id r =>
          have hwalk : ∀ v, (types.walkSchema room v).run (id :: active) =
              (types.unfolding room (insert id active.toFinset) v, id :: active) := by
            intro v
            rw [ih, List.toFinset_cons]
          simp only [run_walkRecord hwalk, List.mem_toFinset]
      | sequence element => simp only [run_bind, ih, run_pure]
      | table keys values => simp only [run_bind, ih, run_pure]
      | bool | int | float | text | char | time | any | marker | option => rfl

theorem schema_eq_unfolding (t : Ty) :
    types.schema t = types.unfolding (maxSchemaDepth + 1) ∅ t := by
  rw [schema, run_walkSchema, List.toFinset_nil]

end TypeTable

/-! ## Positions -/

/-- What a position of a schema depends on. -/
structure SchemaPosition where
  type : Ty
  depth : Nat
  /-- The records that are described between the root and the position. -/
  ancestors : Finset String
  /-- The description of the field, where the position belongs to one. -/
  text : Option String
  deriving DecidableEq

namespace TypeTable

variable (types : TypeTable)

/-- The position that a step leads to: into the elements or the values of a container, or to the
last field of a name.  There is none below a position that is too deep, nor below a record that is
its own ancestor. -/
def nextPosition? (p : SchemaPosition) (step : Schema.Step) : Option SchemaPosition :=
  if maxSchemaDepth < p.depth then none
  else
    match types.shape p.type.target, step with
    | .sequence element, .items => some ⟨element, p.depth + 1, p.ancestors, none⟩
    | .table _ values, .values => some ⟨values, p.depth + 1, p.ancestors, none⟩
    | .record id r, .property name =>
      if id ∈ p.ancestors then none
      else
        ((types.fieldsOf id r).reverse.find? (·.wireName = name)).map fun f =>
          ⟨f.type, p.depth + 1, insert id p.ancestors, f.description⟩
    | _, _ => none

/-- The position at the end of some steps from another. -/
def positionFrom? : SchemaPosition → List Schema.Step → Option SchemaPosition
  | p, [] => some p
  | p, step :: rest => (types.nextPosition? p step).bind fun q => positionFrom? q rest

/-- The position at the end of some steps from the root of a type. -/
def position? (t : Ty) (path : List Schema.Step) : Option SchemaPosition :=
  types.positionFrom? ⟨t, 0, ∅, none⟩ path

/-- The schema that stands at a position. -/
def schemaOf (p : SchemaPosition) : Schema :=
  (types.unfolding (maxSchemaDepth + 1 - p.depth) p.ancestors p.type).describe p.text

/-- A schema describes the type of its position down to the next positions, or tells why not. -/
inductive Describes (p : SchemaPosition) : Schema → Prop
  | maxDepth (hdepth : maxSchemaDepth < p.depth) : Describes p (.placeholder .maxDepth)
  | circular {id : String} {r : Record} (hdepth : p.depth ≤ maxSchemaDepth)
      (ht : types.shape p.type.target = .record id r) (hid : id ∈ p.ancestors) :
      Describes p (.placeholder .circular)
  | record {id : String} {r : Record} {properties : Members Schema}
      (hdepth : p.depth ≤ maxSchemaDepth) (ht : types.shape p.type.target = .record id r)
      (hid : id ∉ p.ancestors)
      (hnames : ∀ name, name ∈ properties.keys ↔ ∃ f ∈ types.fieldsOf id r, name = f.wireName) :
      Describes p (.record properties
        (((types.fieldsOf id r).filter (·.isRequired)).map (·.wireName)) (r.doc.or p.text)
        p.type.isOption)
  | array {element : Ty} {items : Schema} (hdepth : p.depth ≤ maxSchemaDepth)
      (ht : types.shape p.type.target = .sequence element) :
      Describes p (.array items p.text p.type.isOption)
  | table {keys values : Ty} {s : Schema} (hdepth : p.depth ≤ maxSchemaDepth)
      (ht : types.shape p.type.target = .table keys values) :
      Describes p (.table s p.text p.type.isOption)
  | value {type : SchemaType} {format : Option String} {choices : List String}
      (hdepth : p.depth ≤ maxSchemaDepth)
      (ht : (types.shape p.type.target).literal? = some (type, format, choices)) :
      Describes p (.value type format choices p.text p.type.isOption)

variable {types} {p : SchemaPosition}

theorem schemaOf_of_lt
    (hdepth : maxSchemaDepth < p.depth) : types.schemaOf p = .placeholder .maxDepth := by
  have hroom : maxSchemaDepth + 1 - p.depth = 0 := by omega
  rw [schemaOf, hroom]
  rfl

theorem schema_eq_schemaOf (t : Ty) : types.schema t = types.schemaOf ⟨t, 0, ∅, none⟩ := by
  rw [schema_eq_unfolding, schemaOf, Schema.describe_none]
  rfl

/-- What is described at a position that is not too deep. -/
def described (types : TypeTable) (p : SchemaPosition) : Schema :=
  types.layer (types.unfolding (maxSchemaDepth - p.depth)) p.ancestors p.type.target

theorem schemaOf_of_le
    (hdepth : p.depth ≤ maxSchemaDepth) :
    types.schemaOf p = (types.described p).ofField p.type.isOption p.text := by
  have hroom : maxSchemaDepth + 1 - p.depth = maxSchemaDepth - p.depth + 1 := by omega
  rw [schemaOf, hroom]
  rfl

/-- The components of a record's schema are those of the last fields of each name. -/
theorem find?_properties
    (schema : Ty → Schema) (fields : List VisibleField) (name : String) :
    (Members.ofList (fields.map fun f =>
        (f.wireName, (schema f.type).describe f.description))).find? name =
      (fields.reverse.find? (·.wireName = name)).map fun f =>
        (schema f.type).describe f.description := by
  rw [Members.find?_ofList, ← List.map_reverse]
  induction fields.reverse with
  | nil => rfl
  | cons f rest ih =>
      rw [List.map_cons, List.lookup_cons, List.find?_cons]
      by_cases hname : f.wireName = name
      · subst hname
        simp
      · have hbeq : (name == f.wireName) = false := by simpa using Ne.symm hname
        simp only [hbeq, hname, decide_false]
        exact ih

/-- A step from the schema at a position leads to the schema at the next position. -/
theorem component?_schemaOf
    (p : SchemaPosition) (step : Schema.Step) :
    (types.schemaOf p).component? step = (types.nextPosition? p step).map types.schemaOf := by
  by_cases hdepth : maxSchemaDepth < p.depth
  · unfold nextPosition?
    rw [schemaOf_of_lt hdepth, if_pos hdepth]
    rfl
  · have hcomponent : (types.schemaOf p).component? step =
        (types.described p).component? step := by
      rw [schemaOf_of_le (by omega), Schema.component?_ofField]
    have hinner : ∀ ancestors t text, types.schemaOf ⟨t, p.depth + 1, ancestors, text⟩ =
        (types.unfolding (maxSchemaDepth - p.depth) ancestors t).describe text := by
      intro ancestors t text
      rw [schemaOf, Nat.add_sub_add_right]
    unfold nextPosition?
    rw [hcomponent, if_neg hdepth, described, layer]
    cases types.shape p.type.target with
    | record id r =>
        by_cases hid : id ∈ p.ancestors
        · cases step <;> simp [hid, Schema.component?]
        · cases step with
          | property name =>
              simp only [hid, if_false, recordSchema, Schema.component?, find?_properties,
                Option.map_map, Function.comp_def, hinner]
          | items | values => simp [hid, recordSchema, Schema.component?]
    | sequence element => cases step <;> simp [Schema.component?, hinner]
    | table keys values => cases step <;> simp [Schema.component?, hinner]
    | bool | int | float | text | char | time | any | marker | option => cases step <;> rfl

theorem at?_schemaOf
    (p : SchemaPosition) (path : List Schema.Step) :
    (types.schemaOf p).at? path = (types.positionFrom? p path).map types.schemaOf := by
  induction path generalizing p with
  | nil => rfl
  | cons step rest ih =>
      rw [Schema.at?, component?_schemaOf, positionFrom?]
      cases types.nextPosition? p step with
      | none => rfl
      | some q => exact ih q

/-! ## What stands at a position -/

theorem depth_nextPosition?
    {p q : SchemaPosition} {step : Schema.Step} (h : types.nextPosition? p step = some q) :
    q.depth = p.depth + 1 ∧ p.depth ≤ maxSchemaDepth := by
  unfold nextPosition? at h
  split at h
  · cases h
  · rename_i hdepth
    refine ⟨?_, by omega⟩
    split at h
    · obtain rfl := Option.some.inj h
      rfl
    · obtain rfl := Option.some.inj h
      rfl
    · split at h
      · cases h
      · obtain ⟨f, -, rfl⟩ := Option.map_eq_some_iff.mp h
        rfl
    · cases h

/-- Each step goes one level down, from a position that is not too deep. -/
theorem depth_positionFrom?
    {p q : SchemaPosition} {path : List Schema.Step} (h : types.positionFrom? p path = some q) :
    q.depth = p.depth + path.length ∧ (path ≠ [] → q.depth ≤ maxSchemaDepth + 1) := by
  induction path generalizing p with
  | nil =>
      obtain rfl := Option.some.inj h
      simp
  | cons step rest ih =>
      obtain ⟨next, hnext, hrest⟩ := Option.bind_eq_some_iff.mp h
      have hstep := depth_nextPosition? hnext
      have hq := ih hrest
      rw [List.length_cons]
      refine ⟨by omega, fun _ => ?_⟩
      cases rest with
      | nil =>
          rw [List.length_nil] at hq
          omega
      | cons step' rest' => exact hq.2 (by simp)

theorem describes_schemaOf (p : SchemaPosition) : types.Describes p (types.schemaOf p) := by
  by_cases hdepth : maxSchemaDepth < p.depth
  · rw [schemaOf_of_lt hdepth]
    exact .maxDepth hdepth
  · have hle : p.depth ≤ maxSchemaDepth := by omega
    rw [schemaOf_of_le hle, described]
    cases hliteral : (types.shape p.type.target).literal? with
    | some literal =>
        obtain ⟨type, format, choices⟩ := literal
        rw [layer_of_literal? hliteral, Schema.ofField_value]
        exact .value hle hliteral
    | none =>
        rw [layer]
        cases hshape : types.shape p.type.target with
        | record id r =>
            by_cases hid : id ∈ p.ancestors
            · simpa [hid] using Describes.circular hle hshape hid
            · simp only [hid, if_false, recordSchema, Schema.ofField_record]
              refine .record hle hshape hid ?_
              intro name
              simp [Members.mem_keys_ofList]
        | sequence element =>
            rw [Schema.ofField_array]
            exact .array hle hshape
        | table keys values =>
            rw [Schema.ofField_table]
            exact .table hle hshape
        | bool | int | float | text | char | time | any | marker | option =>
            rw [hshape] at hliteral
            cases hliteral

theorem placeholder?_of_describes
    {p : SchemaPosition} {s : Schema} (h : types.Describes p s) :
    (s.placeholder? = some .maxDepth ↔ maxSchemaDepth < p.depth) ∧
      (s.placeholder? = some .circular ↔ p.depth ≤ maxSchemaDepth ∧
        ∃ id r, types.shape p.type.target = .record id r ∧ id ∈ p.ancestors) := by
  cases h with
  | maxDepth hdepth =>
      have hle : ¬p.depth ≤ maxSchemaDepth := by omega
      simp [Schema.placeholder?, hdepth, hle]
  | circular hdepth ht hid =>
      have hlt : ¬maxSchemaDepth < p.depth := by omega
      simpa [Schema.placeholder?, hdepth, hlt] using ⟨_, ⟨_, ht⟩, hid⟩
  | record hdepth ht hid hnames =>
      have hlt : ¬maxSchemaDepth < p.depth := by omega
      simp [Schema.placeholder?, hlt, ht, hid]
  | array hdepth ht =>
      have hlt : ¬maxSchemaDepth < p.depth := by omega
      simp [Schema.placeholder?, hlt, ht]
  | table hdepth ht =>
      have hlt : ¬maxSchemaDepth < p.depth := by omega
      simp [Schema.placeholder?, hlt, ht]
  | value hdepth ht =>
      have hlt : ¬maxSchemaDepth < p.depth := by omega
      have hrecord : ∀ id r, types.shape p.type.target ≠ .record id r := by
        intro id r hshape
        rw [hshape] at ht
        cases ht
      simp [Schema.placeholder?, hlt, hrecord]

theorem unfolding_option
    (room : Nat) (ancestors : Finset String) (inner : Ty) :
    types.unfolding room ancestors (.option inner) =
      (types.unfolding room ancestors inner).orNull := by
  cases room with
  | zero => rfl
  | succ room =>
      rw [unfolding, unfolding]
      cases inner.isOption <;> simp [Ty.isOption, Ty.target]

/-- The walk over a type unfolds it, whatever records its surroundings are describing, and has
changed nothing in the end.  The schema has exactly the positions of the unfolding; what stands at
each of them depends on nothing else than the position, which is a placeholder below the greatest
depth and, above it, at a record that is its own ancestor. -/
theorem schema_unfolds_type (types : TypeTable) :
    (∀ room t active,
      (types.walkSchema room t).run active = (types.unfolding room active.toFinset t, active)) ∧
    (∀ room ancestors inner, types.unfolding room ancestors (.option inner) =
      (types.unfolding room ancestors inner).orNull) ∧
    (∀ t path, (types.schema t).at? path = (types.position? t path).map types.schemaOf) ∧
    ∀ t path p, types.position? t path = some p →
      p.depth = path.length ∧ p.depth ≤ maxSchemaDepth + 1 ∧
      types.Describes p (types.schemaOf p) ∧
      ((types.schemaOf p).placeholder? = some .maxDepth ↔ maxSchemaDepth < p.depth) ∧
      ((types.schemaOf p).placeholder? = some .circular ↔ p.depth ≤ maxSchemaDepth ∧
        ∃ id r, types.shape p.type.target = .record id r ∧ id ∈ p.ancestors) := by
  refine ⟨run_walkSchema, unfolding_option, ?_, ?_⟩
  · intro t path
    rw [schema_eq_schemaOf, at?_schemaOf, position?]
  · intro t path p hp
    have hdepth := depth_positionFrom? hp
    have hdescribes : types.Describes p (types.schemaOf p) := describes_schemaOf p
    refine ⟨by simpa using hdepth.1, ?_, hdescribes, placeholder?_of_describes hdescribes⟩
    cases path with
    | nil => simp [hdepth.1]
    | cons step rest => exact hdepth.2 (by simp)

/-! ## A tree of folders -/

/-- The types of folders, which have an owner and an editor. -/
def folderTypes : TypeTable :=
  ⟨[("Folder", .record ⟨"Folder",
      [⟨"parent", "parent", .option (.named "Folder"), "", none, false, false⟩,
        ⟨"owner", "owner", .named "Person", "", none, false, false⟩,
        ⟨"editor", "editor", .option (.named "Person"), "", none, false, false⟩], none⟩),
    ("Person", .record ⟨"Person",
      [⟨"names", "names", .sequence .list (.scalar .string), "", none, false, false⟩], none⟩)]⟩

/-- The parent of a folder is not described again, but its editor is, after its owner. -/
theorem schema_unfolds_type_folder :
    (∃ s, (folderTypes.schema (.named "Folder")).at? [.property "parent"] = some s ∧
      s.placeholder? = some .circular) ∧
    ∃ s, (folderTypes.schema (.named "Folder")).at?
        [.property "editor", .property "names", .items] = some s ∧
      folderTypes.Describes ⟨.scalar .string, 3, {"Person", "Folder"}, none⟩ s := by
  obtain ⟨-, -, hat, hposition⟩ := schema_unfolds_type folderTypes
  have hparent : folderTypes.position? (.named "Folder") [.property "parent"] =
      some ⟨.option (.named "Folder"), 1, {"Folder"}, none⟩ := by decide +kernel
  have hname : folderTypes.position? (.named "Folder")
      [.property "editor", .property "names", .items] =
      some ⟨.scalar .string, 3, {"Person", "Folder"}, none⟩ := by decide +kernel
  refine ⟨⟨_, by rw [hat, hparent, Option.map_some], ?_⟩, _,
    by rw [hat, hname, Option.map_some], (hposition _ _ _ hname).2.2.1⟩
  exact (hposition _ _ _ hparent).2.2.2.2.mpr ⟨by decide, _, _, rfl, by decide⟩

end TypeTable
end TypedRoutes
