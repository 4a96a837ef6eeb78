import TypedRoutes.Proofs.QueryReach
import TypedRoutes.Validation

/-!
# What validation accepts

An object is accepted if each of its fields is: an optional field without a value is, and any other
whose rules all hold and whose own fields, if it is a record, are accepted.  So every nested object
that stands in an accepted one is accepted, and holds a value in each field that requires one.
-/

namespace TypedRoutes

theorem checkRules_eq_ok_iff
    {field : String} {rules : List Rule} {value : Json} :
    checkRules field rules value = .ok () ↔ ∀ rule ∈ rules, rule.holds value = true := by
  rw [checkRules]
  cases hfind : rules.find? fun rule => !rule.holds value with
  | none => simpa using hfind
  | some rule =>
      simp only [reduceCtorEq, false_iff]
      intro h
      have hbroken := List.find?_some hfind
      simp [h rule (List.mem_of_find?_eq_some hfind)] at hbroken

/-- The rules of a field that requires a value do not hold of an empty one. -/
theorem Attributes.isEmptyValue_of_holds
    {attributes : Attributes} (hrequires : attributes.requiresValue = true) {value : Json}
    (h : ∀ rule ∈ attributes.rules, rule.holds value = true) : value.isEmptyValue = false := by
  obtain ⟨rule, hrule, hname⟩ : ∃ rule ∈ attributes.rules, rule.name = "required" := by
    simpa [requiresValue] using hrequires
  have hholds := h rule hrule
  simpa [Rule.holds, Rule.constraint?, hname, Constraint.holds] using hholds

namespace TypeTable

variable {types : TypeTable} {limit : Nat} {t : Ty} {members : Json.Object} {place : String}

theorem fields_target (t : Ty) : types.fields t.target = types.fields t := by
  simp [fields, record?]

/-- The check of one field of an object. -/
def checkField (types : TypeTable) (limit : Nat) (members : Json.Object) (place : String)
    (f : VisibleField) : Except ValidationError Unit := do
  let name := memberPath place f.lookupName
  let current := (members.find? f.wireName).getD .null
  if current matches .null && f.isOptional then .ok ()
  else
    checkRules name f.attributes.rules current
    if (types.record? f.type).isSome then types.validateAt limit f.target current name
    else .ok ()

theorem validateAt_object (limit : Nat) (t : Ty) (members : Json.Object) (place : String) :
    types.validateAt (limit + 1) t (.object members) place =
      (types.fields t).forM (types.checkField limit members place) :=
  rfl

theorem checkField_of_skipped
    {f : VisibleField} (hnull : (members.find? f.wireName).getD .null = .null)
    (hoptional : f.isOptional = true) : types.checkField limit members place f = .ok () := by
  simp [checkField, hnull, hoptional]

/-- The rules of a field that is not skipped come before the fields of its record. -/
theorem checkField_of_not_skipped
    {f : VisibleField}
    (h : ¬((members.find? f.wireName).getD .null = .null ∧ f.isOptional = true)) :
    types.checkField limit members place f =
      checkRules (memberPath place f.lookupName) f.attributes.rules
          ((members.find? f.wireName).getD .null) >>= fun _ =>
        if (types.record? f.type).isSome then
          types.validateAt limit f.target ((members.find? f.wireName).getD .null)
            (memberPath place f.lookupName)
        else .ok () := by
  rw [checkField, if_neg]
  generalize (members.find? f.wireName).getD Json.null = current at h
  cases current with
  | null => simpa using h
  | _ => simp

/-- An object is accepted if all its fields are. -/
theorem validateAt_object_eq_ok_iff :
    types.validateAt (limit + 1) t (.object members) place = .ok () ↔
      ∀ f ∈ types.fields t,
        (members.find? f.wireName).getD .null = .null ∧ f.isOptional = true ∨
        (∀ rule ∈ f.attributes.rules,
          rule.holds ((members.find? f.wireName).getD .null) = true) ∧
        ((types.record? f.type).isSome = true →
          types.validateAt limit f.target ((members.find? f.wireName).getD .null)
            (memberPath place f.lookupName) = .ok ()) := by
  rw [validateAt_object, Results.forM_eq_ok_iff]
  refine forall₂_congr fun f _ => ?_
  by_cases hskip : (members.find? f.wireName).getD .null = .null ∧ f.isOptional = true
  · exact iff_of_true (checkField_of_skipped hskip.1 hskip.2) (.inl hskip)
  · rw [checkField_of_not_skipped hskip, Results.bind_unit_eq_ok_iff, checkRules_eq_ok_iff,
      or_iff_right hskip]
    apply and_congr_right'
    cases (types.record? f.type).isSome with
    | true => simp
    | false => simp

/-- An accepted object has a value in each field that requires one. -/
theorem isEmptyValue_of_validateAt
    (hvalid : types.validateAt (limit + 1) t (.object members) place = .ok ()) {f : VisibleField}
    (hf : f ∈ types.fields t) (hrequired : f.isRequired = true) :
    ((members.find? f.wireName).getD .null).isEmptyValue = false := by
  obtain ⟨hoptional, hrequires⟩ : f.isOptional = false ∧ f.attributes.requiresValue = true := by
    simpa [VisibleField.isRequired] using hrequired
  rcases validateAt_object_eq_ok_iff.mp hvalid f hf with ⟨-, hskip⟩ | ⟨hrules, -⟩
  · rw [hoptional] at hskip
    cases hskip
  · exact Attributes.isEmptyValue_of_holds hrequires hrules

/-- Every object that stands in an accepted one, in a place that a query enters, is accepted. -/
theorem Enters.exists_validateAt
    {room : Nat} {path : List String} {fields around : List VisibleField} {room' : Nat}
    {fields' : List VisibleField} (h : types.Enters room path fields around room' fields')
    (ht : types.fields t = fields) (hlimit : around.length ≤ limit)
    (hvalid : types.validateAt (limit + 1) t (.object members) place = .ok ())
    {inner : Json.Object}
    (hat : (Json.object members).at? (around.map VisibleField.wireName) = some (.object inner)) :
    ∃ u place', types.fields u = fields' ∧
      types.validateAt (limit - around.length + 1) u (.object inner) place' = .ok () := by
  induction h generalizing limit t members place with
  | here =>
      obtain rfl : members = inner := by simpa [Json.at?] using hat
      exact ⟨t, place, ht, hvalid⟩
  | @nested room path fields g id r around room' fields' hg hrecord hpath _ ih =>
      rw [List.length_cons] at hlimit ⊢
      obtain ⟨limit, rfl⟩ : ∃ n, limit = n + 1 := ⟨limit - 1, by omega⟩
      rw [Nat.add_sub_add_right]
      obtain ⟨nested, hfind, hat⟩ := Json.exists_of_at?_cons hat
      have hnested : types.fields g.target = types.fieldsOf id r := by
        rw [VisibleField.target, fields_target, TypeTable.fields, hrecord]
      rcases validateAt_object_eq_ok_iff.mp hvalid g (ht ▸ hg) with ⟨hnull, -⟩ | ⟨-, hvalid⟩
      · rw [hfind] at hnull
        cases hnull
      · rw [hrecord, hfind] at hvalid
        exact ih hnested (by omega) (hvalid rfl) hat

end TypeTable
end TypedRoutes
