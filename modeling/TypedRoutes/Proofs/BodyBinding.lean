import TypedRoutes.Proofs.PathPrecedence
import TypedRoutes.Proofs.SchemaUnfolding

/-!
# Bodies written from a schema

The schema of a record names its properties as JSON does, while a body is looked up by external
names first.  A member of a body therefore goes to the field whose external name it has, and only
otherwise to the field that has its name in JSON.
-/

namespace TypedRoutes
namespace TypeTable

variable {types : TypeTable} {id : String} {r : Record} {f : VisibleField}
  {body start result : Json.Object} {raw : Json}

/-! ## What a field holds after a body -/

/-- A field holds what a value converts to. -/
def Holds (types : TypeTable) (result : Json.Object) (f : VisibleField) (raw : Json) : Prop :=
  ∃ value, types.convert f.type raw f.lookupName = .ok value ∧
    result.find? f.wireName = some value

/-- A field that is provided holds what it is provided with. -/
theorem holds_of_bodyValue?
    (hnodup : ((types.fieldsOf id r).map VisibleField.wireName).Nodup)
    (h : types.overlayTop (types.fieldsOf id r) body start = .ok result)
    (hf : f ∈ types.fieldsOf id r) (hraw : bodyValue? body f = some raw) :
    types.Holds result f raw := by
  obtain ⟨given, hgiven, hoverlaid⟩ := exists_overlaid_of_overlayTop hnodup h
  have hvalue : (types.convertAt (maxDepth + 1) f.type raw (memberPath "" f.lookupName)).map some =
      .ok (given f) := by
    have hfield := hgiven f hf
    rwa [bodyGiven?_of_eq_some hraw] at hfield
  obtain ⟨value, hconverted, hsome⟩ := Results.map_eq_ok_iff.mp hvalue
  refine ⟨value, hconverted, ?_⟩
  rw [hoverlaid.field f hf, ← hsome, Option.some_or, Option.some_or]

/-- A field outside optional groups that is not provided is left alone. -/
theorem find?_of_bodyValue?_eq_none
    (hnodup : ((types.fieldsOf id r).map VisibleField.wireName).Nodup)
    (h : types.overlayTop (types.fieldsOf id r) body start = .ok result)
    (hf : f ∈ types.fieldsOf id r) (hraw : bodyValue? body f = none) (hgroup : f.group = none) :
    result.find? f.wireName = start.find? f.wireName := by
  obtain ⟨given, hgiven, hoverlaid⟩ := exists_overlaid_of_overlayTop hnodup h
  have hnone : given f = none := by
    have hfield := hgiven f hf
    rw [bodyGiven?_of_eq_none hraw] at hfield
    exact (Except.ok.inj hfield).symm
  have hungrouped : groupGiven (types.fieldsOf id r) given f = false := by
    rw [groupGiven, hgroup]
    rfl
  rw [hoverlaid.field f hf, hnone, hungrouped, Option.none_or, if_neg Bool.false_ne_true,
    Option.or_none]

/-! ## The names of properties -/

/-- The properties of a record's schema are named as its fields are in JSON. -/
theorem isSome_property?_schema
    {t : Ty} (hrecord : types.record? t = some (id, r)) (name : String) :
    ((types.schema t).property? name).isSome = true ↔
      ∃ f ∈ types.fieldsOf id r, name = f.wireName := by
  have hshape : types.shape t.target = .record id r := shape_of_record? hrecord
  have hdescribes : types.Describes ⟨t, 0, ∅, none⟩ (types.schema t) := by
    rw [schema_eq_schemaOf]
    exact describes_schemaOf _
  generalize types.schema t = s at hdescribes ⊢
  cases hdescribes with
  | maxDepth hdepth => exact absurd hdepth (Nat.not_lt_zero _)
  | circular hdepth ht hid => exact absurd hid (Finset.notMem_empty _)
  | record hdepth ht hid hnames =>
      obtain ⟨rfl, rfl⟩ := Shape.record.inj (hshape.symm.trans ht)
      rw [← hnames]
      exact Members.contains_eq_true_iff
  | array hdepth ht => cases hshape.symm.trans ht
  | table hdepth ht => cases hshape.symm.trans ht
  | value hdepth ht =>
      rw [hshape] at ht
      cases ht

/-- A body written from the schema of a request.  Let the fields have distinct names in JSON, by
which the schema names its properties.  If a body can be put into an object, a field holds what the
member of its external name converts to; without such a member, what the member of its name in JSON
converts to; and without either, outside optional groups, what it held before. -/
theorem body_binds_fields
    {t : Ty} (hrecord : types.record? t = some (id, r))
    (hnodup : ((types.fieldsOf id r).map VisibleField.wireName).Nodup)
    (h : types.overlayTop (types.fieldsOf id r) body start = .ok result) :
    (∀ name, ((types.schema t).property? name).isSome = true ↔
      ∃ f ∈ types.fieldsOf id r, name = f.wireName) ∧
    ∀ f ∈ types.fieldsOf id r,
      (∀ raw, body.find? f.lookupName = some raw → types.Holds result f raw) ∧
      (∀ raw, body.find? f.lookupName = none → body.find? f.wireName = some raw →
        types.Holds result f raw) ∧
      (body.find? f.lookupName = none → body.find? f.wireName = none → f.group = none →
        result.find? f.wireName = start.find? f.wireName) := by
  refine ⟨isSome_property?_schema hrecord, ?_⟩
  intro f hf
  refine ⟨?_, ?_, ?_⟩
  · intro raw hlookup
    exact holds_of_bodyValue? hnodup h hf (bodyValue?_of_lookupName hlookup)
  · intro raw hlookup hwire
    exact holds_of_bodyValue? hnodup h hf ((bodyValue?_of_wireName hlookup).trans hwire)
  · intro hlookup hwire hgroup
    exact find?_of_bodyValue?_eq_none hnodup h hf ((bodyValue?_of_wireName hlookup).trans hwire)
      hgroup

/-! ## A transfer between accounts -/

/-- A transfer.  Outside, its origin is called the source, and its destination is called as the
origin is in JSON. -/
def transfer : Record where
  name := "Transfer"
  fields := [⟨"from", "from", .scalar .string, "p:\"source\"", none, false, false⟩,
    ⟨"to", "to", .scalar .string, "p:\"from\"", none, false, false⟩,
    plainField "note" (.option (.scalar .string)) false]
  doc := none

/-- The type of a transfer. -/
def transferTypes : TypeTable := ⟨[("Transfer", .record transfer)]⟩

/-- The fields of a transfer. -/
def transferFields : List VisibleField := transferTypes.fieldsOf "Transfer" transfer

/-- A body with names of properties. -/
def transferBody : Json.Object := [("from", .string "alice"), ("to", .string "bob")]

/-- The object of a transfer with a note, once the body was put into it. -/
theorem overlayTop_transferBody :
    ∃ result, transferTypes.overlayTop transferFields transferBody [("note", .string "rent")] =
        .ok result ∧ (result.find? "to").bind Json.text? = some "alice" := by
  have htext : (transferTypes.overlayTop transferFields transferBody
      [("note", .string "rent")]).toOption.map
        (fun result => (result.find? "to").bind Json.text?) = some (some "alice") := by
    decide +kernel
  exact Results.exists_of_toOption_map htext

/-- The origin gets the member of its name in JSON, which does not go by its external name, and the
note is left alone. -/
theorem body_binds_fields_transfer :
    ∃ result, transferTypes.overlayTop transferFields transferBody [("note", .string "rent")] =
        .ok result ∧
      (∃ f ∈ transferFields, f.wireName = "from" ∧
        transferTypes.Holds result f (.string "alice")) ∧
      result.find? "note" = some (.string "rent") := by
  obtain ⟨result, hresult, -⟩ := overlayTop_transferBody
  have hrecord : transferTypes.record? (.named "Transfer") = some ("Transfer", transfer) := rfl
  obtain ⟨-, hbinds⟩ := body_binds_fields hrecord (by decide +kernel) hresult
  have horigin : ∃ f ∈ transferFields, f.wireName = "from" ∧ f.lookupName = "source" := by
    decide +kernel
  have hnote : ∃ f ∈ transferFields,
      f.wireName = "note" ∧ f.lookupName = "note" ∧ f.group = none := by
    decide +kernel
  obtain ⟨origin, hmem, hwire, hlookup⟩ := horigin
  obtain ⟨note, hmem', hwire', hlookup', hgroup⟩ := hnote
  refine ⟨result, hresult, ⟨origin, hmem, hwire, ?_⟩, ?_⟩
  · refine (hbinds origin hmem).2.1 _ ?_ ?_
    · rw [hlookup]
      rfl
    · rw [hwire]
      rfl
  · have hkept := (hbinds note hmem').2.2
    rw [hlookup', hwire'] at hkept
    exact hkept rfl rfl hgroup

/-- A body that is written from the schema may miss its fields: the destination gets what is meant
for the origin. -/
theorem body_misses_field :
    (transferFields.map VisibleField.wireName).Nodup ∧
      (transferFields.map VisibleField.lookupName).Nodup ∧
      (∀ entry ∈ transferBody, ∃ f ∈ transferFields, entry.1 = f.wireName) ∧
      ∃ result, transferTypes.overlayTop transferFields transferBody [("note", .string "rent")] =
          .ok result ∧
        ∃ f ∈ transferFields, ∃ raw, transferBody.find? f.wireName = some raw ∧
          ¬transferTypes.Holds result f raw := by
  have hkeys : ∀ key ∈ transferBody.map Prod.fst, ∃ f ∈ transferFields, key = f.wireName := by
    decide +kernel
  have hdestination : ∃ f ∈ transferFields, f.wireName = "to" ∧
      ((transferTypes.convert f.type (.string "bob") f.lookupName).toOption.bind Json.text?) =
        some "bob" := by
    decide +kernel
  obtain ⟨result, hresult, htext⟩ := overlayTop_transferBody
  obtain ⟨destination, hmem, hwire, hconverted⟩ := hdestination
  refine ⟨by decide +kernel, by decide +kernel, ?_, result, hresult, destination, hmem,
    .string "bob", ?_, ?_⟩
  · intro entry hentry
    exact hkeys entry.1 (List.mem_map_of_mem hentry)
  · rw [hwire]
    rfl
  · rintro ⟨value, hvalue, hheld⟩
    rw [hwire] at hheld
    rw [hvalue] at hconverted
    rw [hheld] at htext
    have halice : value.text? = some "alice" := htext
    have hbob : value.text? = some "bob" := hconverted
    rw [halice] at hbob
    exact absurd hbob (by decide)

end TypeTable
end TypedRoutes
