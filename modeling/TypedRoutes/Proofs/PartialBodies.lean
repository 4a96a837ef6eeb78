import TypedRoutes.Proofs.BodyBinding

/-!
# Partial bodies leave the rest at zero

Where a method reads no query, a request value is the zero value, overlaid with the body and with
the path.  A field that the body does not provide keeps its zero value, unless a path parameter
addresses it: `unprovided_field_is_zero`.  The parameter need not have the field's name, for the
fields of a nested record read the path as well, and an optional record appears when one of them is
addressed.
-/

namespace TypedRoutes
namespace TypeTable

variable {types : TypeTable} {id : String} {r : Record} {f : VisibleField}

/-! ## Fields that a path parameter addresses -/

/-- A name addresses a field of a request: the field reads it, or a field of a record nested in it
does. -/
def Addresses (types : TypeTable) (id : String) (name : String) (f : VisibleField) : Prop :=
  ∃ around room g, types.Reaches maxDepth [id] [f] around room g ∧ types.reads g name = true

/-- A finite check that a name does not address a field. -/
theorem not_addresses_of_entered
    {name : String} (h : ∀ fields ∈ types.enteredFields maxDepth [id] [f], ∀ g ∈ fields,
      types.reads g name = false) : ¬types.Addresses id name f := by
  rintro ⟨around, room, g, ⟨fields, hentered, hg, -⟩, hreads⟩
  rw [h fields hentered.mem_enteredFields g hg] at hreads
  cases hreads

/-- A field that is not addressed is given nothing. -/
theorem fieldValue?_of_not_addresses
    {query : Query} (h : ∀ pair ∈ query.pairs, ¬types.Addresses id pair.1 f)
    (target : Json.Object) : types.fieldValue? maxDepth [id] query target f = .ok none := by
  have hunread : ∀ around room g, types.Reaches maxDepth [id] [f] around room g →
      types.leafValue? room query g = .ok none := by
    intro around room g hreaches
    rw [leafValue?_eq_none_iff]
    intro pair hpair
    exact Bool.eq_false_iff.mpr fun hreads => h pair hpair ⟨around, room, g, hreaches, hreads⟩
  obtain ⟨a, ha, -⟩ := exists_assembles_of_overlayQuery (overlayQuery_of_unread hunread target)
  exact ha.eq_of_untouched.2 f (by simp)

/-- A path that does not address a field outside optional groups leaves it alone. -/
theorem find?_of_not_addresses
    (hnodup : ((types.fieldsOf id r).map VisibleField.wireName).Nodup) {query : Query}
    {start result : Json.Object} {touched : Bool}
    (h : types.overlayQuery maxDepth [id] query (types.fieldsOf id r) start = .ok (result, touched))
    (hf : f ∈ types.fieldsOf id r) (hgroup : f.group = none)
    (hunread : ∀ pair ∈ query.pairs, ¬types.Addresses id pair.1 f) :
    result.find? f.wireName = start.find? f.wireName := by
  obtain ⟨given, hgiven, -, hoverlaid⟩ := exists_overlaid_of_overlayQuery hnodup h
  have hnone : none = given f :=
    Except.ok.inj ((fieldValue?_of_not_addresses hunread start).symm.trans (hgiven f hf))
  rw [hoverlaid.field f hf, ← hnone, groupGiven, hgroup]
  simp

/-! ## Fields that a body does not provide -/

/-- What a call with a body leaves at zero.  Let a method read no query, as POST, PUT and PATCH do,
and let the visible fields of the request type have distinct names in JSON.  Then every field
outside optional groups holds its zero value, `null` if it is optional, when the body has neither
its external name nor its name in JSON and no path parameter addresses it. -/
theorem unprovided_field_is_zero
    {t : Ty} (hrecord : types.record? t = some (id, r))
    (hnodup : ((types.fieldsOf id r).map VisibleField.wireName).Nodup) {method : String}
    {verb : Verb} (hverb : Verb.ofName? method = some verb) (hquery : verb.readsQuery = false)
    {input : CallInput} {body : Option Json.Object} (hbody : readBody input.body = .ok body)
    {value : Json} (h : types.requestValue t method input = .ok value) :
    ∃ members : Json.Object, value = .object members ∧
      ∀ f ∈ types.fieldsOf id r, f.group = none →
        (body.getD []).find? f.lookupName = none → (body.getD []).find? f.wireName = none →
        (∀ pair ∈ input.pathParams, ¬types.Addresses id pair.1 f) →
        members.find? f.wireName = some (types.zero f.type) ∧
          (f.type.isOption = true → members.find? f.wireName = some .null) := by
  have hreads : verb.readsBody = true := by
    cases verb with
    | get | delete => cases hquery
    | post | put | patch => rfl
  rw [requestValue_eq hrecord hverb, afterQuery, hquery, if_neg Bool.false_ne_true] at h
  obtain ⟨start, hstart, h⟩ := Results.bind_eq_ok_iff.mp h
  obtain rfl := Except.ok.inj hstart
  obtain ⟨overlaid, hoverlaid, h⟩ := Results.bind_eq_ok_iff.mp h
  obtain ⟨target, htarget, h⟩ := Results.bind_eq_ok_iff.mp h
  obtain rfl := Except.ok.inj h
  obtain ⟨body', hbody', htop⟩ := exists_overlayTop_of_afterBody hreads hoverlaid
  obtain rfl := Except.ok.inj (hbody.symm.trans hbody')
  obtain ⟨touched, hpath⟩ := afterPath_eq_ok_iff.mp htarget
  refine ⟨target, rfl, ?_⟩
  intro f hf hgroup hlookup hwire hunread
  have hmissing : bodyValue? (body.getD []) f = none := (bodyValue?_of_wireName hlookup).trans hwire
  have hzero : target.find? f.wireName = some (types.zero f.type) := by
    rw [find?_of_not_addresses hnodup hpath hf hgroup hunread,
      find?_of_bodyValue?_eq_none hnodup htop hf hmissing hgroup, find?_zeroObject hnodup hf,
      hgroup]
    rfl
  refine ⟨hzero, fun hoption => ?_⟩
  rw [hzero, zero, zeroAt_of_isOption hoption]

/-! ## An account with a profile -/

/-- A body without a profile, and a path parameter that no field reads. -/
theorem unprovided_field_is_zero_account :
    ∃ value, accountTypes.requestValue (.named "Account") "PATCH"
        ⟨.empty, Text.bytes "\x7b\"id\":5\x7d", [("tenant", "7")]⟩ = .ok value ∧
      value.compact = "\x7b\"id\":5,\"profile\":null\x7d" ∧
      value.member? "profile" = some .null := by
  have hcompact : (accountTypes.requestValue (.named "Account") "PATCH"
      ⟨.empty, Text.bytes "\x7b\"id\":5\x7d", [("tenant", "7")]⟩).toOption.map Json.compact =
      some "\x7b\"id\":5,\"profile\":null\x7d" := by
    decide +kernel
  have hkeys : (readBody (Text.bytes "\x7b\"id\":5\x7d")).toOption.map
      (fun body => (body.getD []).contains "profile") = some false := by
    decide +kernel
  have hprofile : ∃ f ∈ accountTypes.fieldsOf "Account" account,
      f.wireName = "profile" ∧ f.lookupName = "profile" ∧ f.group = none ∧ f.type.isOption = true ∧
        ∀ fields ∈ accountTypes.enteredFields maxDepth ["Account"] [f], ∀ g ∈ fields,
          accountTypes.reads g "tenant" = false := by
    decide +kernel
  obtain ⟨value, hvalue, htext⟩ := Results.exists_of_toOption_map hcompact
  obtain ⟨body, hbody, hmissing⟩ := Results.exists_of_toOption_map hkeys
  obtain ⟨f, hf, hwire, hlookup, hgroup, hoption, hunread⟩ := hprofile
  have hnone : (body.getD []).find? "profile" = none := by
    simpa [Members.contains] using hmissing
  obtain ⟨members, rfl, hzero⟩ := unprovided_field_is_zero rfl (by decide +kernel)
    (rfl : Verb.ofName? "PATCH" = some .patch) rfl hbody hvalue
  have hpath : ∀ pair ∈ [("tenant", "7")], ¬accountTypes.Addresses "Account" pair.1 f := by
    simpa using not_addresses_of_entered hunread
  have hnull := (hzero f hf hgroup (hlookup ▸ hnone) (hwire ▸ hnone) hpath).2 hoption
  rw [hwire] at hnull
  exact ⟨_, hvalue, htext, hnull⟩

/-- An optional record that the body does not provide need not be left out, though no path parameter
has its name: the number in the path is that of the profile, too. -/
theorem path_parameter_fills_profile :
    ((accountTypes.fieldsOf "Account" account).map VisibleField.wireName).Nodup ∧
      ∃ f ∈ accountTypes.fieldsOf "Account" account, f.group = none ∧
        f.lookupName = "profile" ∧ f.wireName = "profile" ∧
        readBody (Text.bytes "\x7b\x7d") = .ok (some []) ∧
        ∃ value, accountTypes.requestValue (.named "Account") "POST"
            ⟨.empty, Text.bytes "\x7b\x7d", [("id", "7")]⟩ = .ok value ∧
          value.member? f.wireName ≠ some (accountTypes.zero f.type) := by
  have hprofile : ∃ f ∈ accountTypes.fieldsOf "Account" account, f.group = none ∧
      f.lookupName = "profile" ∧ f.wireName = "profile" ∧ f.type.isOption = true := by
    decide +kernel
  have hmembers : (readBody (Text.bytes "\x7b\x7d")).toOption.map
      (fun body => body.map List.length) = some (some 0) := by
    decide +kernel
  have hcompact : (accountTypes.requestValue (.named "Account") "POST"
      ⟨.empty, Text.bytes "\x7b\x7d", [("id", "7")]⟩).toOption.map
        (fun value => (value.member? "profile").map Json.compact) =
      some (some "\x7b\"id\":7,\"name\":\"\"\x7d") := by
    decide +kernel
  obtain ⟨f, hf, hgroup, hlookup, hwire, hoption⟩ := hprofile
  obtain ⟨body, hbody, hlength⟩ := Results.exists_of_toOption_map hmembers
  obtain ⟨body, rfl, hempty⟩ := Option.map_eq_some_iff.mp hlength
  obtain rfl := List.length_eq_zero_iff.mp hempty
  obtain ⟨value, hvalue, htext⟩ := Results.exists_of_toOption_map hcompact
  refine ⟨by decide +kernel, f, hf, hgroup, hlookup, hwire, hbody, value, hvalue, ?_⟩
  rw [hwire, zero, zeroAt_of_isOption hoption]
  intro hnull
  rw [hnull] at htext
  revert htext
  decide

end TypeTable
end TypedRoutes
