import TypedRoutes.Proofs.PartialBodies
import TypedRoutes.Proofs.RequiredParameters

/-!
# Bodies over queries

A DELETE reads its query first and puts its body on top.  A query is overlaid on the objects of the
nested records that are there, whereas the value of a nested record in a body is converted as a
whole, which starts from a zero object.  So every field that the body provides holds what it is
provided with, at every depth; but a field that it does not provide keeps what the query gave it
only as long as the body says nothing about the outermost record around it: `delete_overlays_body`.
-/

namespace TypedRoutes
namespace TypeTable

variable {types : TypeTable} {room : Nat} {path : String} {id id' : String} {r r' : Record}
  {around : List VisibleField} {f : VisibleField} {body : Json.Object} {held : Json}

/-! ## Fields inside a record -/

/-- Some record fields lead from one record to another, the outermost first. -/
inductive Leads (types : TypeTable) : String → Record → List VisibleField → String → Record → Prop
  | here {id : String} {r : Record} : Leads types id r [] id r
  | nested {id : String} {r : Record} {g : VisibleField} {around : List VisibleField}
      {inner : String} {s : Record} {id' : String} {r' : Record} (hg : g ∈ types.fieldsOf id r)
      (hrecord : types.record? g.type = some (inner, s)) (h : Leads types inner s around id' r') :
      Leads types id r (g :: around) id' r'

/-- A field that is no record, in a record that some record fields lead to. -/
def IsLeaf (types : TypeTable) (id : String) (r : Record) (around : List VisibleField)
    (f : VisibleField) : Prop :=
  ∃ id' r', types.Leads id r around id' r' ∧ f ∈ types.fieldsOf id' r' ∧
    types.record? f.type = none

/-- In every record that record fields lead to, the names in JSON are apart. -/
def LeadsApart (types : TypeTable) (id : String) (r : Record) : Prop :=
  ∀ around id' r', types.Leads id r around id' r' →
    MembersApart r'.markerField? (types.fieldsOf id' r')

theorem LeadsApart.here
    (h : types.LeadsApart id r) : MembersApart r.markerField? (types.fieldsOf id r) :=
  h [] id r .here

theorem LeadsApart.nested
    (h : types.LeadsApart id r) (hf : f ∈ types.fieldsOf id r)
    (hrecord : types.record? f.type = some (id', r')) : types.LeadsApart id' r' :=
  fun around _ _ hleads => h (f :: around) _ _ (.nested hf hrecord hleads)

/-- What holds of some records that contain those nested in them holds wherever record fields lead
to. -/
theorem Leads.of_closed
    {P : String → Record → Prop} {records : List (String × Record)} (hmem : (id, r) ∈ records)
    (hclosed : ∀ entry ∈ records, ∀ f ∈ types.fieldsOf entry.1 entry.2,
      ∀ inner ∈ types.record? f.type, inner ∈ records)
    (hall : ∀ entry ∈ records, P entry.1 entry.2) (h : types.Leads id r around id' r') :
    P id' r' := by
  induction h with
  | here => exact hall _ hmem
  | nested hg hrecord _ ih => exact ih (hclosed _ hmem _ hg _ hrecord)

/-- Names are apart if they are in some records that contain those nested in them. -/
theorem LeadsApart.of_closed
    {records : List (String × Record)} (hmem : (id, r) ∈ records)
    (hclosed : ∀ entry ∈ records, ∀ f ∈ types.fieldsOf entry.1 entry.2,
      ∀ inner ∈ types.record? f.type, inner ∈ records)
    (hapart : ∀ entry ∈ records,
      MembersApart entry.2.markerField? (types.fieldsOf entry.1 entry.2)) :
    types.LeadsApart id r :=
  fun _ _ _ hleads => hleads.of_closed
    (P := fun id r => MembersApart r.markerField? (types.fieldsOf id r)) hmem hclosed hapart

theorem exists_placeOf_eq_cons
    (around : List VisibleField) (f : VisibleField) :
    ∃ key keys, placeOf around f = key :: keys := by
  cases around with
  | nil => exact ⟨_, _, rfl⟩
  | cons g around => exact ⟨_, _, rfl⟩

/-! ## Fields inside a zero value -/

/-- Inside the zero value of a record, something stands in a zero object only. -/
theorem exists_zeroObject_of_at?_zeroAt
    (hrecord : types.record? f.type = some (id, r)) {g : VisibleField}
    (hat : (types.zeroAt room f.type).at? (placeOf around g) = some held) :
    ∃ n, types.zeroAt room f.type = .object (types.zeroObject n id r) := by
  obtain ⟨key, keys, hplace⟩ := exists_placeOf_eq_cons around g
  rw [hplace] at hat
  cases hoption : f.type.isOption with
  | true =>
      rw [zeroAt_of_isOption hoption] at hat
      cases hat
  | false =>
      cases room with
      | zero =>
          have hshape := shape_of_record? hrecord
          rw [target_eq_of_isOption hoption] at hshape
          simp only [zeroAt, hshape] at hat
          cases hat
      | succ n => exact ⟨n, by rw [zeroAt_of_record hrecord, hoption]; rfl⟩

theorem eq_zeroAt_of_find?_zeroObject
    (hapart : MembersApart r.markerField? (types.fieldsOf id r)) (hf : f ∈ types.fieldsOf id r)
    (h : (types.zeroObject room id r).find? f.wireName = some held) :
    held = types.zeroAt room f.type := by
  rw [find?_zeroObject_of_mem hapart hf] at h
  split at h
  · cases h
  · exact (Option.some.inj h).symm

/-- Every field inside a zero object holds its zero value. -/
theorem eq_zero_of_at?_zeroObject
    (hleaf : types.IsLeaf id r around f) (hapart : types.LeadsApart id r)
    (hat : (Json.object (types.zeroObject room id r)).at? (placeOf around f) = some held) :
    held = types.zero f.type := by
  obtain ⟨id', r', hleads, hf, hrecord⟩ := hleaf
  induction hleads generalizing room with
  | here =>
      obtain ⟨value, hfind, hvalue⟩ := Option.bind_eq_some_iff.mp hat
      obtain rfl := Option.some.inj hvalue
      rw [eq_zeroAt_of_find?_zeroObject hapart.here hf hfind, zeroAt_eq_zero hrecord]
  | nested hg hinner _ ih =>
      obtain ⟨value, hfind, hvalue⟩ := Option.bind_eq_some_iff.mp hat
      rw [eq_zeroAt_of_find?_zeroObject hapart.here hg hfind] at hvalue
      obtain ⟨n, hzero⟩ := exists_zeroObject_of_at?_zeroAt hinner hvalue
      rw [hzero] at hvalue
      exact ih (hapart.nested hg hinner) hvalue hf

/-- Every field inside the zero value of a record holds its zero value. -/
theorem eq_zero_of_at?_zeroAt
    {g : VisibleField} (hrecord : types.record? g.type = some (id, r))
    (hleaf : types.IsLeaf id r around f) (hapart : types.LeadsApart id r)
    (hat : (types.zeroAt room g.type).at? (placeOf around f) = some held) :
    held = types.zero f.type := by
  obtain ⟨n, hzero⟩ := exists_zeroObject_of_at?_zeroAt hrecord hat
  rw [hzero] at hat
  exact eq_zero_of_at?_zeroObject hleaf hapart hat

/-! ## Fields that a body provides -/

/-- What a body provides for a field inside it, followed along the record fields around it. -/
def provided? : Json.Object → List VisibleField → VisibleField → Option Json
  | body, [], f => bodyValue? body f
  | body, g :: around, f =>
    ((bodyValue? body g).bind Json.objectOf?).bind fun inner => provided? inner around f

/-- A field holds what it is provided with, else its zero value. -/
def ProvidedOrZero (types : TypeTable) (room : Nat) (f : VisibleField) : Option Json → Json → Prop
  | some raw, held => ∃ path, types.convertAt room f.type raw path = .ok held
  | none, held => held = types.zero f.type

/-- A member of an object with a body on top is what the field is provided with, else it is kept, or
filled in with the group of the field. -/
theorem provided_or_kept
    {fields : List VisibleField} (hnodup : (fields.map VisibleField.wireName).Nodup)
    {convert : Ty → Json → String → Except FieldError Json} {start : Json.Object} {a : Assembly}
    (h : overlayBody convert fields body path start = .ok a) (hf : f ∈ fields) {value : Json}
    (hvalue : (types.completeGroups room fields a.groups a.target).find? f.wireName =
      some value) :
    (∃ raw, bodyValue? body f = some raw ∧
      convert f.type raw (memberPath path f.lookupName) = .ok value) ∨
    (bodyValue? body f = none ∧ (start.find? f.wireName = some value ∨
      (start.find? f.wireName = none ∧ value = types.zeroAt room f.type))) := by
  obtain ⟨given, hgiven, hoverlaid⟩ := exists_overlaid_of_overlayBody hnodup h room
  have hfield := hgiven f hf
  rw [hoverlaid.field f hf] at hvalue
  cases hraw : bodyValue? body f with
  | some raw =>
      left
      rw [bodyGiven?_of_eq_some hraw] at hfield
      obtain ⟨converted, hconverted, hsome⟩ := Results.map_eq_ok_iff.mp hfield
      rw [← hsome] at hvalue
      obtain rfl : converted = value := by simpa using hvalue
      exact ⟨raw, rfl, hconverted⟩
  | none =>
      right
      rw [bodyGiven?_of_eq_none hraw] at hfield
      rw [← Except.ok.inj hfield, Option.none_or, Option.or_eq_some_iff] at hvalue
      rcases hvalue with hkept | ⟨hmissing, hfilled⟩
      · exact ⟨rfl, .inl hkept⟩
      · refine ⟨rfl, .inr ⟨hmissing, ?_⟩⟩
        split at hfilled
        · exact (Option.some.inj hfilled).symm
        · cases hfilled

/-- With a body on top of a zero object, a member that the body does not provide is a zero value. -/
theorem provided_or_zeroAt
    (hapart : MembersApart r.markerField? (types.fieldsOf id r))
    {convert : Ty → Json → String → Except FieldError Json} {a : Assembly}
    (h : overlayBody convert (types.fieldsOf id r) body path (types.zeroObject room id r) = .ok a)
    (hf : f ∈ types.fieldsOf id r) {value : Json}
    (hvalue : (types.completeGroups room (types.fieldsOf id r) a.groups a.target).find? f.wireName =
      some value) :
    (∃ raw, bodyValue? body f = some raw ∧
      convert f.type raw (memberPath path f.lookupName) = .ok value) ∨
    (bodyValue? body f = none ∧ value = types.zeroAt room f.type) := by
  rcases provided_or_kept hapart.nodup h hf hvalue with hprovided | ⟨hraw, hkept | ⟨-, hfilled⟩⟩
  · exact .inl hprovided
  · exact .inr ⟨hraw, eq_zeroAt_of_find?_zeroObject hapart hf hkept⟩
  · exact .inr ⟨hraw, hfilled⟩

/-- A value that is converted to a record and has something in it was an object, which was put on
top of a zero object, or else a zero object comes of it. -/
theorem exists_overlayBody_of_convertAt
    {g : VisibleField} (hrecord : types.record? g.type = some (id, r)) {raw value : Json}
    (h : types.convertAt room g.type raw path = .ok value)
    (hat : value.at? (placeOf around f) = some held) :
    (raw.objectOf? = none ∧ ∃ n, value = .object (types.zeroObject n id r)) ∨
    ∃ n inner a, room = n + 1 ∧ raw.objectOf? = some inner ∧
      overlayBody (types.convertAt n) (types.fieldsOf id r) inner path
        (types.zeroObject (n - 1) id r) = .ok a ∧
      value = .object (types.completeGroups (n - 1) (types.fieldsOf id r) a.groups a.target) := by
  have hshape := shape_of_record? hrecord
  cases room with
  | zero => cases h
  | succ n =>
      generalize ht : g.type = t at h hshape
      cases convertStep_of_convertAt h with
      | absent =>
          obtain ⟨key, keys, hplace⟩ := exists_placeOf_eq_cons around f
          rw [hplace] at hat
          cases hat
      | zeroRecord hpresent _ =>
          left
          rw [target_eq_of_isOption (isOption_eq_false hpresent)] at hat ⊢
          obtain ⟨m, hzero⟩ := exists_zeroObject_of_at?_zeroAt hrecord (ht ▸ hat)
          exact ⟨rfl, m, ht ▸ hzero⟩
      | record ht' hbody ha =>
          obtain ⟨rfl, rfl⟩ := Shape.record.inj (hshape.symm.trans ht')
          exact .inr ⟨n, _, _, rfl, hbody, ha, rfl⟩
      | any hpresent ht' | marker hpresent ht' | sequence hpresent ht' | emptyTable hpresent ht'
      | table ht' => cases hshape.symm.trans ht'
      | leaf hpresent hresult =>
          rw [hshape] at hresult
          cases hresult

/-- Inside a converted record every field holds what the value provides it with, else its zero
value. -/
theorem providedOrZero_of_convertAt
    (hleaf : types.IsLeaf id r around f) (hapart : types.LeadsApart id r) {g : VisibleField}
    (hrecord : types.record? g.type = some (id, r)) {raw value : Json}
    (h : types.convertAt room g.type raw path = .ok value)
    (hat : value.at? (placeOf around f) = some held) :
    types.ProvidedOrZero (room - (around.length + 1)) f
      (raw.objectOf?.bind fun inner => provided? inner around f) held := by
  obtain ⟨id', r', hleads, hf, hnone⟩ := hleaf
  induction hleads generalizing room path g raw value with
  | @here id r =>
      rcases exists_overlayBody_of_convertAt hrecord h hat with
        ⟨hraw, n, rfl⟩ | ⟨n, inner, a, rfl, hraw, ha, rfl⟩
      · rw [hraw]
        exact eq_zero_of_at?_zeroObject ⟨id, r, .here, hf, hnone⟩ hapart hat
      obtain ⟨member, hfind, hmember⟩ := Option.bind_eq_some_iff.mp hat
      obtain rfl := Option.some.inj hmember
      rw [hraw, Option.bind_some, provided?]
      rcases provided_or_zeroAt hapart.here ha hf hfind with
        ⟨given, hgiven, hconverted⟩ | ⟨hmissing, hzero⟩
      · rw [hgiven]
        exact ⟨_, hconverted⟩
      · rw [hmissing, hzero, zeroAt_eq_zero hnone]
        rfl
  | @nested id r g' around inner' s id' r' hg hinner hleads ih =>
      rcases exists_overlayBody_of_convertAt hrecord h hat with
        ⟨hraw, n, rfl⟩ | ⟨n, inner, a, rfl, hraw, ha, rfl⟩
      · rw [hraw]
        exact eq_zero_of_at?_zeroObject ⟨id', r', .nested hg hinner hleads, hf, hnone⟩ hapart hat
      obtain ⟨member, hfind, hmember⟩ := Option.bind_eq_some_iff.mp hat
      rw [hraw, Option.bind_some, provided?, List.length_cons, Nat.add_sub_add_right]
      rcases provided_or_zeroAt hapart.here ha hg hfind with
        ⟨given, hgiven, hconverted⟩ | ⟨hmissing, hzero⟩
      · rw [hgiven, Option.bind_some]
        exact ih (hapart.nested hg hinner) hinner hconverted hmember hf
      · rw [hmissing]
        rw [hzero] at hmember
        exact eq_zero_of_at?_zeroAt hinner ⟨id', r', hleads, hf, hnone⟩ (hapart.nested hg hinner)
          hmember

/-! ## The whole request -/

/-- Without path parameters, a DELETE puts its body on top of the value of the GET. -/
theorem exists_overlayTop_of_requestValue_delete
    {t : Ty} (hrecord : types.record? t = some (id, r)) {bytes : List UInt8}
    (hbody : readBody bytes = .ok (some body)) {query : Query} {value : Json}
    (h : types.requestValue t "DELETE" ⟨query, bytes, []⟩ = .ok value) :
    ∃ queried target, types.requestValue t "GET" ⟨query, bytes, []⟩ = .ok (.object queried) ∧
      types.overlayTop (types.fieldsOf id r) body queried = .ok target ∧
      value = .object target := by
  have hverb : Verb.ofName? "DELETE" = some .delete := rfl
  rw [requestValue_eq hrecord hverb] at h
  obtain ⟨queried, hqueried, h⟩ := Results.bind_eq_ok_iff.mp h
  obtain ⟨target, htarget, h⟩ := Results.bind_eq_ok_iff.mp h
  simp only [afterPath_nil] at h
  obtain ⟨body', hbody', htop⟩ := exists_overlayTop_of_afterBody rfl htarget
  obtain rfl := Except.ok.inj (hbody.symm.trans hbody')
  have hget : types.afterQuery .get query id (types.fieldsOf id r)
      (types.zeroObject maxDepth id r) = .ok queried := hqueried
  refine ⟨queried, target, ?_, htop, (Except.ok.inj h).symm⟩
  rw [requestValue_get hrecord, hget]
  exact Results.bind_eq_ok_iff.mpr ⟨queried, rfl,
    Results.bind_eq_ok_iff.mpr ⟨queried, afterPath_nil id _ queried, rfl⟩⟩

theorem provided?_of_head
    (h : bodyValue? body (around.head?.getD f) = none) : provided? body around f = none := by
  cases around with
  | nil => exact h
  | cons g around =>
      rw [List.head?_cons, Option.getD_some] at h
      rw [provided?, h]
      rfl

/-- With a body on top, a field that is no record holds what it held, unless the body has something
for the outermost record around it. -/
theorem held_of_overlayTop
    (hleaf : types.IsLeaf id r around f) (hapart : types.LeadsApart id r)
    {start target : Json.Object}
    (h : types.overlayTop (types.fieldsOf id r) body start = .ok target)
    (hat : (Json.object target).at? (placeOf around f) = some held) :
    (bodyValue? body (around.head?.getD f) = none ∧
      ((Json.object start).at? (placeOf around f) = some held ∨
        ((Json.object start).at? (placeOf around f) = none ∧ held = types.zero f.type))) ∨
    (bodyValue? body (around.head?.getD f) ≠ none ∧
      types.ProvidedOrZero (maxDepth + 1 - around.length) f (provided? body around f) held) := by
  obtain ⟨a, ha, hresult⟩ := Results.bind_eq_ok_iff.mp h
  obtain rfl := Except.ok.inj hresult
  obtain ⟨id', r', hleads, hf, hnone⟩ := hleaf
  cases hleads with
  | here =>
      obtain ⟨member, hfind, hmember⟩ := Option.bind_eq_some_iff.mp hat
      obtain rfl := Option.some.inj hmember
      rcases provided_or_kept hapart.here.nodup ha hf hfind with
        ⟨raw, hraw, hconverted⟩ | ⟨hraw, hkept | ⟨hmissing, hfilled⟩⟩
      · right
        rw [provided?, List.head?_nil, Option.getD_none, hraw]
        exact ⟨Option.some_ne_none raw, _, hconverted⟩
      · exact .inl ⟨hraw, .inl (Json.at?_of_find? hkept [])⟩
      · exact .inl ⟨hraw, .inr ⟨Json.at?_of_missing hmissing [], by
          rw [hfilled, zeroAt_eq_zero hnone]⟩⟩
  | @nested _ _ g around inner s _ _ hg hinner hleads =>
      obtain ⟨member, hfind, hmember⟩ := Option.bind_eq_some_iff.mp hat
      have hleaf : types.IsLeaf inner s around f := ⟨_, _, hleads, hf, hnone⟩
      rcases provided_or_kept hapart.here.nodup ha hg hfind with
        ⟨raw, hraw, hconverted⟩ | ⟨hraw, hkept | ⟨hmissing, hfilled⟩⟩
      · right
        rw [provided?, List.head?_cons, Option.getD_some, hraw]
        exact ⟨Option.some_ne_none raw, providedOrZero_of_convertAt hleaf
          (hapart.nested hg hinner) hinner hconverted hmember⟩
      · exact .inl ⟨hraw, .inl ((Json.at?_of_find? hkept _).trans hmember)⟩
      · rw [hfilled] at hmember
        exact .inl ⟨hraw, .inr ⟨Json.at?_of_missing hmissing _,
          eq_zero_of_at?_zeroAt hinner hleaf (hapart.nested hg hinner) hmember⟩⟩

/-- The bodies of DELETE, without path parameters.  Let the names in JSON be apart in the records
inside a request type.  If a DELETE with a body gets a request value, then so does the GET with the
same query.  A field inside the value that is no record holds what the body converts to, if the body
provides the field.  Otherwise it holds what it holds in the value of the GET, or its zero value if
the GET leaves it out, as long as the body has nothing for the outermost record around it; and it
holds its zero value if the body has something for that record. -/
theorem delete_overlays_body
    {t : Ty} (hrecord : types.record? t = some (id, r)) (hapart : types.LeadsApart id r)
    {bytes : List UInt8} (hbody : readBody bytes = .ok (some body)) {query : Query} {value : Json}
    (h : types.requestValue t "DELETE" ⟨query, bytes, []⟩ = .ok value) :
    ∃ queried, types.requestValue t "GET" ⟨query, bytes, []⟩ = .ok queried ∧
      ∀ around f held, types.IsLeaf id r around f → value.at? (placeOf around f) = some held →
        (∀ raw, provided? body around f = some raw → ∃ path,
          types.convertAt (maxDepth + 1 - around.length) f.type raw path = .ok held) ∧
        (bodyValue? body (around.head?.getD f) = none →
          queried.at? (placeOf around f) = some held ∨
            (queried.at? (placeOf around f) = none ∧ held = types.zero f.type)) ∧
        (bodyValue? body (around.head?.getD f) ≠ none → provided? body around f = none →
          held = types.zero f.type) := by
  obtain ⟨queried, target, hget, htop, rfl⟩ :=
    exists_overlayTop_of_requestValue_delete hrecord hbody h
  refine ⟨_, hget, ?_⟩
  intro around f held hleaf hat
  rcases held_of_overlayTop hleaf hapart htop hat with ⟨houtermost, hkept⟩ | ⟨houtermost, hheld⟩
  · have hmissing := provided?_of_head houtermost
    refine ⟨?_, fun _ => hkept, fun hne => absurd houtermost hne⟩
    intro raw hraw
    rw [hmissing] at hraw
    cases hraw
  · refine ⟨?_, fun hnone => absurd hnone houtermost, ?_⟩
    · intro raw hraw
      rwa [hraw] at hheld
    · intro _ hmissing
      rwa [hmissing] at hheld

/-! ## A visit to an address -/

/-- An address. -/
def address : Record where
  name := "Address"
  fields := [plainField "city" (.scalar .string) false,
    plainField "zip" (.scalar (.uint .w32)) false]
  doc := none

/-- A visit to an address. -/
def visit : Record where
  name := "Visit"
  fields := [plainField "address" (.named "Address") false,
    plainField "note" (.scalar .string) false]
  doc := none

/-- The types of a visit. -/
def visitTypes : TypeTable := ⟨[("Visit", .record visit), ("Address", .record address)]⟩

/-- In a visit and in its address the names in JSON are distinct, and the external names are the
same. -/
theorem names_visit
    (h : visitTypes.Leads "Visit" visit around id r) :
    MembersApart r.markerField? (visitTypes.fieldsOf id r) ∧
      ∀ f ∈ visitTypes.fieldsOf id r, f.lookupName = f.wireName := by
  exact h.of_closed (P := fun id r => MembersApart r.markerField? (visitTypes.fieldsOf id r) ∧
    ∀ f ∈ visitTypes.fieldsOf id r, f.lookupName = f.wireName)
    (List.mem_cons_self (l := [("Address", address)])) (by decide) (by decide)

theorem visit_leadsApart : visitTypes.LeadsApart "Visit" visit :=
  fun _ _ _ hleads => (names_visit hleads).1

/-- The address of a visit. -/
def visitAddress : VisibleField :=
  visibleField ⟨false, none⟩ (plainField "address" (.named "Address") false)

/-- The note of a visit. -/
def visitNote : VisibleField :=
  visibleField ⟨false, none⟩ (plainField "note" (.scalar .string) false)

/-- The city of an address. -/
def addressCity : VisibleField :=
  visibleField ⟨false, none⟩ (plainField "city" (.scalar .string) false)

theorem isLeaf_visitNote : visitTypes.IsLeaf "Visit" visit [] visitNote :=
  ⟨"Visit", visit, .here, by decide, rfl⟩

theorem isLeaf_addressCity : visitTypes.IsLeaf "Visit" visit [visitAddress] addressCity :=
  ⟨"Address", address, .nested (by decide) rfl .here, by decide, rfl⟩

/-- A call with a city and a note in the query, and with a part of the address in the body. -/
def visitInput : CallInput where
  query := ⟨[("city", "Oslo"), ("note", "late")]⟩
  body := Text.bytes "\x7b\"address\":\x7b\"zip\":7\x7d\x7d"
  pathParams := []

/-- The body of the call has an address, but neither its city nor a note. -/
theorem readBody_visitInput :
    ∃ body inner, readBody visitInput.body = .ok (some body) ∧ bodyValue? body visitNote = none ∧
      bodyValue? body visitAddress = some (.object inner) ∧
      provided? body [visitAddress] addressCity = none := by
  have hgiven : (readBody visitInput.body).toOption.map (fun body => body.map fun body =>
      ((bodyValue? body visitNote).isNone,
        ((bodyValue? body visitAddress).bind fun raw => raw.member? "zip").isSome,
        (provided? body [visitAddress] addressCity).isNone)) = some (some (true, true, true)) := by
    decide +kernel
  obtain ⟨_, hbody, hread⟩ := Results.exists_of_toOption_map hgiven
  obtain ⟨body, rfl, hfields⟩ := Option.map_eq_some_iff.mp hread
  obtain ⟨hnote, hfields⟩ := Prod.mk.inj hfields
  obtain ⟨haddress, hcity⟩ := Prod.mk.inj hfields
  obtain ⟨zip, hzip⟩ := Option.isSome_iff_exists.mp haddress
  obtain ⟨raw, hraw, hmember⟩ := Option.bind_eq_some_iff.mp hzip
  obtain ⟨inner, rfl⟩ := Json.exists_of_member? hmember
  exact ⟨body, inner, hbody, Option.isNone_iff_eq_none.mp hnote, hraw,
    Option.isNone_iff_eq_none.mp hcity⟩

/-- The values of the call as a DELETE and as a GET. -/
theorem requestValue_visitInput :
    ∃ value queried city, visitTypes.requestValue (.named "Visit") "DELETE" visitInput = .ok value ∧
      visitTypes.requestValue (.named "Visit") "GET" visitInput = .ok queried ∧
      (value.at? ["note"]).isSome = true ∧ (queried.at? ["note"]).isSome = true ∧
      value.at? ["address", "city"] = some city ∧ city.text? = some "" ∧
      (queried.at? ["address", "city"]).bind Json.text? = some "Oslo" := by
  have hdelete : (visitTypes.requestValue (.named "Visit") "DELETE" visitInput).toOption.map
      (fun value => ((value.at? ["note"]).isSome,
        (value.at? ["address", "city"]).bind Json.text?)) = some (true, some "") := by
    decide +kernel
  have hget : (visitTypes.requestValue (.named "Visit") "GET" visitInput).toOption.map
      (fun value => ((value.at? ["note"]).isSome,
        (value.at? ["address", "city"]).bind Json.text?)) = some (true, some "Oslo") := by
    decide +kernel
  obtain ⟨value, hvalue, hheld⟩ := Results.exists_of_toOption_map hdelete
  obtain ⟨queried, hqueried, hheld'⟩ := Results.exists_of_toOption_map hget
  obtain ⟨hnote, htext⟩ := Prod.mk.inj hheld
  obtain ⟨hnote', htext'⟩ := Prod.mk.inj hheld'
  obtain ⟨city, hcity, htext⟩ := Option.bind_eq_some_iff.mp htext
  exact ⟨value, queried, city, hvalue, hqueried, hnote, hnote', hcity, htext, htext'⟩

/-- The note is that of the query, and the address has no city. -/
theorem delete_overlays_body_visit :
    ∃ value queried, visitTypes.requestValue (.named "Visit") "DELETE" visitInput = .ok value ∧
      visitTypes.requestValue (.named "Visit") "GET" visitInput = .ok queried ∧
      value.at? ["note"] = queried.at? ["note"] ∧
      value.at? ["address", "city"] = some (.string "") := by
  obtain ⟨body, inner, hbody, hnote, haddress, hcity⟩ := readBody_visitInput
  obtain ⟨value, queried, city, hvalue, hqueried, hsome, hsome', hheld, -, -⟩ :=
    requestValue_visitInput
  obtain ⟨note, hnoteHeld⟩ := Option.isSome_iff_exists.mp hsome
  obtain ⟨queried', hqueried', hfields⟩ := delete_overlays_body rfl visit_leadsApart hbody hvalue
  obtain rfl := Except.ok.inj (hqueried.symm.trans hqueried')
  refine ⟨value, queried, hvalue, hqueried, ?_, ?_⟩
  · rcases (hfields [] visitNote note isLeaf_visitNote hnoteHeld).2.1 hnote with hkept | ⟨hnone, -⟩
    · exact hnoteHeld.trans hkept.symm
    · rw [show queried.at? ["note"] = none from hnone] at hsome'
      cases hsome'
  · have hgiven : bodyValue? body visitAddress ≠ none := by simp [haddress]
    rw [hheld, (hfields [visitAddress] addressCity city isLeaf_addressCity hheld).2.2 hgiven hcity]
    rfl

/-- A field that the body does not provide need not hold what it holds in the value of the GET: with
a part of the address in the body, the city of the query is lost. -/
theorem body_erases_queried_city :
    (∀ around id r, visitTypes.Leads "Visit" visit around id r →
      MembersApart r.markerField? (visitTypes.fieldsOf id r) ∧
        ∀ f ∈ visitTypes.fieldsOf id r, f.lookupName = f.wireName) ∧
      ∃ body inner value queried held, readBody visitInput.body = .ok (some body) ∧
        bodyValue? body visitAddress = some (.object inner) ∧
        visitTypes.requestValue (.named "Visit") "DELETE" visitInput = .ok value ∧
        visitTypes.requestValue (.named "Visit") "GET" visitInput = .ok queried ∧
        visitTypes.IsLeaf "Visit" visit [visitAddress] addressCity ∧
        value.at? (placeOf [visitAddress] addressCity) = some held ∧
        provided? body [visitAddress] addressCity = none ∧
        queried.at? (placeOf [visitAddress] addressCity) = some (.string "Oslo") ∧
        held ≠ .string "Oslo" := by
  obtain ⟨body, inner, hbody, -, haddress, hmissing⟩ := readBody_visitInput
  obtain ⟨value, queried, city, hvalue, hqueried, -, -, hheld, htext, htext'⟩ :=
    requestValue_visitInput
  obtain ⟨city', hheld', hcity'⟩ := Option.bind_eq_some_iff.mp htext'
  have hoslo : city' = .string "Oslo" := by
    cases city' with
    | string s => rw [Option.some.inj hcity']
    | _ => cases hcity'
  refine ⟨fun _ _ _ hleads => names_visit hleads, body, inner, value, queried, city, hbody,
    haddress, hvalue, hqueried, isLeaf_addressCity, hheld, hmissing, hoslo ▸ hheld', ?_⟩
  rintro rfl
  revert htext
  decide

end TypeTable
end TypedRoutes
