import TypedRoutes.Proofs.QueryReach
import TypedRoutes.Proofs.SchemaValidation

/-!
# Request values validate against the schema of their type

The schema of a type and the values of the type come from two walks over the same descriptions.
Where the schema has no placeholders, zero values, conversions and overlays of queries and bodies
all keep to it.
-/

namespace TypedRoutes
namespace TypeTable

variable {types : TypeTable} {room n : Nat} {ancestors : Finset String} {t : Ty}
  {fields : List VisibleField} {id : String} {r : Record} {f : VisibleField} {query : Query}

/-! ## Zero values -/

theorem fieldsFit_zeroObject
    {P : Ty → Json → Prop} (hnodup : ((types.fieldsOf id r).map VisibleField.wireName).Nodup)
    (hmarker : ∀ m ∈ r.markerField?, ∀ f ∈ types.fieldsOf id r, f.group.isSome = true →
      f.wireName ≠ m.wireName)
    (hzero : ∀ f ∈ types.fieldsOf id r, P f.type (types.zeroAt room f.type)) :
    FieldsFit P (types.fieldsOf id r) (types.zeroObject room id r) := by
  constructor
  · intro f hf hrequired
    have hgroup : f.group = none := VisibleField.group_eq_none_of_isRequired hrequired
    rw [Members.contains, find?_zeroObject hnodup hf, hgroup]
    rfl
  · intro f hf json hjson
    rw [find?_zeroObject hnodup hf] at hjson
    split at hjson
    · rename_i hgroup
      obtain ⟨m, hm, heq⟩ := mem_markerOnly_iff.mp (Members.mem_of_find?_eq_some hjson)
      exact absurd (Prod.mk.inj heq).1 (hmarker m hm f hf hgroup)
    · obtain rfl := Option.some.inj hjson
      exact hzero f hf

/-- A zero value fits, unless it is cut off above the end of the unfolding. -/
theorem fits_zeroAt
    (hroom : n ≤ room) (h : types.Documented n ancestors t) :
    types.Fits n ancestors t (types.zeroAt room t) := by
  induction n generalizing room t ancestors with
  | zero =>
      obtain ⟨k, hk⟩ := h.exists_succ
      cases hk
  | succ n ih =>
      cases hoption : t.isOption with
      | true =>
          rw [zeroAt_of_isOption hoption]
          exact h.fits_null hoption
      | false =>
          have htarget : t.target = t := target_eq_of_isOption hoption
          have hknown := (h.describable t .refl).known
          cases hshape : types.shape t with
          | record id r =>
              obtain ⟨room, rfl⟩ : ∃ k, room = k + 1 := ⟨room - 1, by omega⟩
              have ht : types.shape t.target = .record id r := by rw [htarget, hshape]
              have hnodup := h.nodup ht
              have hzero : ∀ f ∈ types.fieldsOf id r,
                  types.Fits n (insert id ancestors) f.type (types.zeroAt room f.type) :=
                fun f hf => ih (by omega) (h.field ht hf)
              have hfit : FieldsFit (types.Fits n (insert id ancestors)) (types.fieldsOf id r)
                  (types.zeroObject room id r) :=
                fieldsFit_zeroObject hnodup (h.markers t .refl id r ht) hzero
              simp only [zeroAt, hshape]
              exact (fits_record_iff ht (h.not_mem ht) hnodup).mpr hfit
          | sequence element =>
              simp only [zeroAt, hshape]
              exact fits_array (by rw [htarget, hshape]) (by simp)
          | table keys values =>
              simp only [zeroAt, hshape]
              exact fits_table (by rw [htarget, hshape]) (by simp)
          | _ =>
              apply fits_leaf hknown
              rw [htarget]
              exact leaf_zeroAt hoption (by simp [hshape]) (by simp [hshape]) (by simp [hshape])
                room

/-! ## Overlays -/

/-- Giving fields values that fit keeps the members of an object fitting. -/
theorem FieldsFit.overlaid
    {P : Ty → Json → Prop} {start result : Json.Object} (h : FieldsFit P fields start)
    {given : VisibleField → Option Json} (hoverlaid : types.Overlaid room fields given start result)
    (hgiven : ∀ f ∈ fields, ∀ json, given f = some json → P f.type json)
    (hzero : ∀ f ∈ fields, P f.type (types.zeroAt room f.type)) : FieldsFit P fields result := by
  constructor
  · intro f hf hrequired
    obtain ⟨json, hjson⟩ := Option.isSome_iff_exists.mp (h.required f hf hrequired)
    rw [Members.contains, hoverlaid.field f hf, hjson]
    cases given f <;> rfl
  · exact hoverlaid.values h.values hgiven hzero

/-- A body keeps the members of an object fitting, if what it is converted to fits. -/
theorem FieldsFit.overlayBody
    {P : Ty → Json → Prop} {start : Json.Object} (h : FieldsFit P fields start)
    (hnodup : (fields.map VisibleField.wireName).Nodup)
    {convert : Ty → Json → String → Except FieldError Json}
    (hconvert : ∀ f ∈ fields, ∀ raw path json, convert f.type raw path = .ok json → P f.type json)
    (hzero : ∀ f ∈ fields, P f.type (types.zeroAt room f.type)) {body : Json.Object}
    {path : String} {a : Assembly} (ha : overlayBody convert fields body path start = .ok a) :
    FieldsFit P fields (types.completeGroups room fields a.groups a.target) := by
  obtain ⟨given, hgiven, hoverlaid⟩ := exists_overlaid_of_overlayBody hnodup ha room
  apply h.overlaid hoverlaid ?_ hzero
  intro f hf json hjson
  have hvalue := hgiven f hf
  rw [hjson] at hvalue
  obtain ⟨raw, -, hconverted⟩ := convert_of_bodyGiven? hvalue
  exact hconvert f hf _ _ _ hconverted

/-! ## Conversions -/

/-- What a conversion gives fits, if it may go deeper than the unfolding does. -/
theorem fits_convertAt
    (hroom : n < room) (h : types.Documented n ancestors t) {value result : Json} {path : String}
    (hresult : types.convertAt room t value path = .ok result) :
    types.Fits n ancestors t result := by
  induction n generalizing room t ancestors value result path with
  | zero =>
      obtain ⟨k, hk⟩ := h.exists_succ
      cases hk
  | succ n ih =>
      obtain ⟨room, rfl⟩ : ∃ k, room = k + 1 := ⟨room - 1, by omega⟩
      have hknown := (h.describable t .refl).known
      cases convertStep_of_convertAt hresult with
      | absent => exact h.fits_null rfl
      | any hpresent ht => exact absurd ht hknown
      | marker hpresent ht =>
          apply fits_leaf hknown
          rw [ht]
          exact .marker
      | zeroRecord hpresent ht =>
          rw [target_eq_of_isOption (isOption_eq_false hpresent)]
          exact fits_zeroAt (by omega) h
      | @record _ _ id r body a ht hbody ha =>
          have hnodup := h.nodup ht
          have hzero : ∀ f ∈ types.fieldsOf id r,
              types.Fits n (insert id ancestors) f.type (types.zeroAt (room - 1) f.type) :=
            fun f hf => fits_zeroAt (by omega) (h.field ht hf)
          have hstart : FieldsFit (types.Fits n (insert id ancestors)) (types.fieldsOf id r)
              (types.zeroObject (room - 1) id r) :=
            fieldsFit_zeroObject hnodup (h.markers t .refl id r ht) hzero
          have hconvert : ∀ f ∈ types.fieldsOf id r, ∀ raw path json,
              types.convertAt room f.type raw path = .ok json →
              types.Fits n (insert id ancestors) f.type json :=
            fun f hf raw path json hjson => ih (by omega) (h.field ht hf) hjson
          exact (fits_record_iff ht (h.not_mem ht) hnodup).mpr
            (hstart.overlayBody hnodup hconvert hzero ha)
      | sequence hpresent ht hitems hresults =>
          apply fits_array ht
          intro item hitem
          obtain ⟨entry, -, hentry⟩ := Results.exists_left_of_forall₂ hresults hitem
          exact ih (by omega) (h.element ht) hentry
      | emptyTable hpresent ht => exact fits_table ht (by simp)
      | table ht hmembers hresults =>
          apply fits_table ht
          intro entry hentry
          obtain ⟨_, -, -, hitem, -⟩ := Results.exists_left_of_forall₂ hresults hentry
          exact ih (by omega) (h.value ht) hitem
      | leaf hpresent hleaf => exact fits_leaf hknown (leaf_of_leafOf? hleaf)

/-! ## Queries -/

/-- The value that a query gives to a field that is no record fits. -/
theorem fits_leafValue?
    (hroom : n ≤ room) (h : types.Documented n ancestors f.type)
    (hleaf : types.record? f.type = none) {value : Json}
    (hvalue : types.leafValue? room query f = .ok (some value)) :
    types.Fits n ancestors f.type value := by
  obtain ⟨n, rfl⟩ := h.exists_succ
  cases leafStep_of_leafValue? (shape_ne_record hleaf) hvalue with
  | sequence ht hitems =>
      apply fits_array ht
      intro item hitem
      obtain ⟨text, path, hresult⟩ := hitems item hitem
      exact fits_convertAt (by omega) (h.element ht) hresult
  | table ht hmembers =>
      apply fits_table ht
      intro entry hentry
      obtain ⟨text, path, -, hresult⟩ := hmembers entry hentry
      exact fits_convertAt (by omega) (h.value ht) hresult
  | single hresult => exact fits_convertAt (by omega) h hresult

/-- A query keeps the members of an object fitting, in nested records, too. -/
theorem FieldsFit.overlayQuery
    (hroom : n ≤ room) (hnodup : (fields.map VisibleField.wireName).Nodup)
    (hfields : ∀ f ∈ fields, types.Documented n ancestors f.type) {start result : Json.Object}
    (hstart : FieldsFit (types.Fits n ancestors) fields start) {path : List String} {touched : Bool}
    (h : types.overlayQuery room path query fields start = .ok (result, touched)) :
    FieldsFit (types.Fits n ancestors) fields result := by
  induction room using Nat.strongRecOn generalizing n ancestors path fields start result touched
  rename_i room ih
  obtain ⟨given, hgiven, -, hoverlaid⟩ := exists_overlaid_of_overlayQuery hnodup h
  apply hstart.overlaid hoverlaid
  · intro f hf json hjson
    have hvalue : types.fieldValue? room path query start f = .ok (some json) := by
      rw [hgiven f hf, hjson]
    have hdocumented := hfields f hf
    rcases fieldValue?_eq_some hvalue with ⟨hleaf, hvalue⟩ | ⟨room', id, r, nested, rfl, hrecord,
      hpath, hnested, rfl⟩
    · exact fits_leafValue? hroom hdocumented hleaf hvalue
    obtain ⟨n, rfl⟩ := hdocumented.exists_succ
    have ht : types.shape f.type.target = .record id r := shape_of_record? hrecord
    have hnodup' := hdocumented.nodup ht
    have hfits : ∀ {members : Json.Object},
        types.Fits (n + 1) ancestors f.type (.object members) ↔
          FieldsFit (types.Fits n (insert id ancestors)) (types.fieldsOf id r) members :=
      fits_record_iff ht (hdocumented.not_mem ht) hnodup'
    have hbefore : FieldsFit (types.Fits n (insert id ancestors)) (types.fieldsOf id r)
        (types.nestedObject room' start f id r) := by
      unfold nestedObject
      split
      · rename_i existing hfound
        exact hfits.mp (hstart.values f hf _ hfound)
      · apply fieldsFit_zeroObject hnodup' (hdocumented.markers f.type .refl id r ht)
        intro g hg
        exact fits_zeroAt (by omega) (hdocumented.field ht hg)
    exact hfits.mpr (ih room' (by omega) (by omega) hnodup'
      (fun g hg => hdocumented.field ht hg) hbefore hnested)
  · intro f hf
    exact fits_zeroAt hroom (hfields f hf)

/-! ## The whole request -/

/-- The value of a request validates against the schema of the request type, whatever the method and
the inputs are.  The schema has to be without placeholders, the values of all types that are reached
have to be known, the fields of each record need distinct names in JSON, and no member of an
optional group may have the name of the marker beside it. -/
theorem schema_accepts_requestValue
    (hdescribable : ∀ u, Relation.ReflTransGen types.Component t u → types.Describable u)
    (hmarkers : ∀ u, Relation.ReflTransGen types.Component t u → types.MarkerApart u)
    (hcomplete : ∀ reason, (types.schema t).contains reason = false) {method : String}
    {input : CallInput} {value : Json} (h : types.requestValue t method input = .ok value) :
    (types.schema t).accepts value = true := by
  cases hrecord : types.record? t with
  | none => simp [requestValue, hrecord] at h
  | some found =>
      obtain ⟨id, r⟩ := found
      rw [schema_eq_unfolding] at hcomplete ⊢
      have hdocumented : types.Documented (maxSchemaDepth + 1) ∅ t :=
        ⟨hcomplete, hdescribable, hmarkers⟩
      have ht : types.shape t.target = .record id r := shape_of_record? hrecord
      have hnodup := hdocumented.nodup ht
      have hfields : ∀ f ∈ types.fieldsOf id r,
          types.Documented maxSchemaDepth (insert id ∅) f.type :=
        fun f hf => hdocumented.field ht hf
      have hlimits : maxSchemaDepth ≤ maxDepth := by decide
      have hzero : ∀ f ∈ types.fieldsOf id r,
          types.Fits maxSchemaDepth (insert id ∅) f.type (types.zeroAt maxDepth f.type) :=
        fun f hf => fits_zeroAt hlimits (hfields f hf)
      have hstart : FieldsFit (types.Fits maxSchemaDepth (insert id ∅)) (types.fieldsOf id r)
          (types.zeroObject maxDepth id r) :=
        fieldsFit_zeroObject hnodup (hmarkers t .refl id r ht) hzero
      have hbody : ∀ body start result,
          FieldsFit (types.Fits maxSchemaDepth (insert id ∅)) (types.fieldsOf id r) start →
          types.overlayTop (types.fieldsOf id r) body start = .ok result →
          FieldsFit (types.Fits maxSchemaDepth (insert id ∅)) (types.fieldsOf id r) result := by
        intro body start result hfit hresult
        obtain ⟨a, ha, hresult⟩ := Results.bind_eq_ok_iff.mp hresult
        obtain rfl := Except.ok.inj hresult
        refine hfit.overlayBody hnodup ?_ hzero ha
        intro f hf raw path json hjson
        exact fits_convertAt (by omega) (hfields f hf) hjson
      obtain ⟨members, rfl, hfit⟩ := requestValue_invariant hrecord hstart
        (fun _ _ _ _ hfit hresult => hfit.overlayQuery hlimits hnodup hfields hresult) hbody h
      exact (fits_record_iff ht (hdocumented.not_mem ht) hnodup).mpr hfit

/-- A page that is given a limit only validates, since it gets an offset too. -/
theorem schema_accepts_requestValue_listing :
    ∃ value, listingTypes.requestValue (.named "Listing") "GET"
        ⟨⟨[("tags", "new"), ("limit", "20")]⟩, [], []⟩ = .ok value ∧
      value.compact = "\x7b\"limit\":20,\"offset\":0,\"route\":\x7b\x7d,\"tags\":[\"new\"]\x7d" ∧
      (listingTypes.schema (.named "Listing")).accepts value = true := by
  have hreached : ∀ u, Relation.ReflTransGen listingTypes.Component (.named "Listing") u →
      u ∈ [.named "Listing", .sequence .list (.scalar .string), .scalar .string,
        .scalar (.uint .w8)] :=
    fun u hu => mem_of_reached hu (by decide) (by decide +kernel)
  have hdescribable : ∀ u ∈ [.named "Listing", .sequence .list (.scalar .string), .scalar .string,
      .scalar (.uint .w8)], listingTypes.Describable u := by
    decide +kernel
  have hmarkers : ∀ u ∈ [.named "Listing", .sequence .list (.scalar .string), .scalar .string,
      .scalar (.uint .w8)], listingTypes.MarkerApart u := by
    decide +kernel
  have hcomplete : ∀ reason, (listingTypes.schema (.named "Listing")).contains reason = false := by
    intro reason
    cases reason <;> decide +kernel
  have htext : (listingTypes.requestValue (.named "Listing") "GET"
      ⟨⟨[("tags", "new"), ("limit", "20")]⟩, [], []⟩).toOption.map Json.compact =
      some "\x7b\"limit\":20,\"offset\":0,\"route\":\x7b\x7d,\"tags\":[\"new\"]\x7d" := by
    decide +kernel
  obtain ⟨value, hvalue, hcompact⟩ := Results.exists_of_toOption_map htext
  exact ⟨value, hvalue, hcompact, schema_accepts_requestValue
    (fun u hu => hdescribable u (hreached u hu)) (fun u hu => hmarkers u (hreached u hu)) hcomplete
    hvalue⟩

/-! ## A group with a member that is named as the marker -/

/-- A request with an optional annotation, which has a member with the name of the marker. -/
def annotated : Record where
  name := "Annotated"
  fields := [⟨"meta", "meta", .marker, "", none, false, true⟩,
    plainField "annotation" (.option (.named "Annotation")) true]
  doc := none

/-- The types of an annotated request. -/
def annotatedTypes : TypeTable :=
  ⟨[("Annotated", .record annotated), ("Annotation", .record ⟨"Annotation",
    [plainField "meta" (.scalar .string) false, plainField "note" (.scalar .string) false],
      none⟩)]⟩

/-- The empty object of the marker stands where a note needs a text beside it. -/
theorem schema_rejects_marker_in_group :
    (∀ u, Relation.ReflTransGen annotatedTypes.Component (.named "Annotated") u →
      annotatedTypes.Describable u) ∧
    (∀ reason, (annotatedTypes.schema (.named "Annotated")).contains reason = false) ∧
    ∃ value, annotatedTypes.requestValue (.named "Annotated") "GET"
        ⟨⟨[("note", "1")]⟩, [], []⟩ = .ok value ∧
      (annotatedTypes.schema (.named "Annotated")).accepts value = false := by
  have hdescribable :
      ∀ u ∈ [.named "Annotated", .scalar .string], annotatedTypes.Describable u := by
    decide +kernel
  have hrejected : (annotatedTypes.requestValue (.named "Annotated") "GET"
      ⟨⟨[("note", "1")]⟩, [], []⟩).toOption.map
        (annotatedTypes.schema (.named "Annotated")).accepts = some false := by
    decide +kernel
  refine ⟨?_, ?_, Results.exists_of_toOption_map hrejected⟩
  · intro u hu
    exact hdescribable u (mem_of_reached hu (by decide) (by decide +kernel))
  · intro reason
    cases reason <;> decide +kernel

end TypeTable
end TypedRoutes
