import TypedRoutes.Proofs.QueryBodyAgreement

/-!
# Members that are null

A `null` stands for input that is left out: a body that says `null` for a field comes to what it
comes to without that member.  A body is overlaid on the zero value, so this rests on the conversion
of `null`, which gives the zero value of a type.  Single characters are the exception: their zero
value is a text of one character, but `null` is no character and is refused.
-/

namespace TypedRoutes

/-! ## Members without a key -/

namespace Members

variable {α : Type} {key other : String} {value : α} {members : Members α}

/-- The table without a key. -/
def remove (key : String) (members : Members α) : Members α :=
  members.filter fun entry => entry.1 != key

theorem find?_remove_self
    (key : String) (members : Members α) : (members.remove key).find? key = none := by
  refine List.lookup_eq_none_iff.mpr ?_
  intro entry hentry
  have hne : entry.1 ≠ key := by simpa using (List.mem_filter.mp hentry).2
  simpa using hne.symm

theorem find?_remove_of_ne
    (members : Members α) (h : other ≠ key) :
    (members.remove key).find? other = members.find? other := by
  induction members with
  | nil => rfl
  | cons entry rest ih =>
      obtain ⟨k, v⟩ := entry
      by_cases hk : k = key
      · have hother : (other == k) = false := by simpa [hk] using h
        simpa [remove, find?, hk, List.lookup_cons, hk ▸ hother] using ih
      · have hkept : remove key ((k, v) :: rest) = (k, v) :: remove key rest := by
          simp [remove, hk]
        rw [hkept, find?, find?, List.lookup_cons, List.lookup_cons]
        cases other == k with
        | true => rfl
        | false => exact ih

/-- A value that is there already may be inserted again. -/
theorem Sorted.insert_eq_self
    (h : members.Sorted) (hfind : members.find? key = some value) :
    members.insert key value = members := by
  refine (h.insert key value).ext h ?_
  intro name
  by_cases hname : name = key
  · rw [hname, find?_insert_self, hfind]
  · exact find?_insert_of_ne value members hname

end Members

namespace TypeTable

variable {types : TypeTable} {id : String} {r : Record} {f : VisibleField}
  {fields : List VisibleField} {nulled removed : Json.Object}
  {convert : Ty → Json → String → Except FieldError Json} {path : String}

/-! ## What null converts to -/

theorem shape_ne_char {t : Ty} (h : t ≠ .scalar .char) : types.shape t ≠ .char := by
  cases t with
  | scalar kind =>
      cases kind with
      | char => exact absurd rfl h
      | bool | string | int | uint | float32 | float64 => simp [shape, Scalar.shape]
  | named name =>
      rw [shape]
      split <;> simp
  | time | value | unit | marker | option | sequence | table => simp [shape]

theorem leafOf?_null
    {t : Ty} (hoption : t.isOption = false) (hplain : (types.shape t).isPlain = true)
    (hchar : types.shape t ≠ .char) (room : Nat) :
    (types.shape t).leafOf? .null = some (types.zeroAt room t) := by
  have hinner : ∀ inner, types.shape t ≠ .option inner := shape_ne_option hoption
  unfold zeroAt
  generalize types.shape t = shape at hplain hchar hinner
  cases shape with
  | bool | float | text | time => rfl
  | int signed bits =>
      have hfits : Json.fits signed bits 0 = true := fits_of_inRange (inRange_zero signed bits)
      simp [Shape.leafOf?, Json.intOf?, hfits]
  | char => exact absurd rfl hchar
  | option inner => exact absurd rfl (hinner inner)
  | any | marker | record | sequence | table => cases hplain

/-- Every type but that of characters takes `null` for its zero value. -/
theorem convertAt_null
    {t : Ty} (h : t ≠ .scalar .char) (room : Nat) (path : String) :
    types.convertAt (room + 1) t .null path = .ok (types.zeroAt room t) := by
  cases hoption : t.isOption with
  | true =>
      rw [zeroAt_of_isOption hoption]
      cases t with
      | option inner => exact ConvertStep.absent.convertAt_null_eq
      | _ => cases hoption
  | false =>
      have htarget : t.target = t := target_eq_of_isOption hoption
      have hpresent : IsPresent t .null := by simp [IsPresent, hoption]
      apply ConvertStep.convertAt_null_eq
      cases hshape : types.shape t with
      | any =>
          simp only [zeroAt, hshape]
          exact .any hpresent (by rw [htarget, hshape])
      | marker =>
          simp only [zeroAt, hshape]
          exact .marker hpresent (by rw [htarget, hshape])
      | record id r =>
          have hstep : ConvertStep types room path t .null (types.zeroAt room t.target) :=
            .zeroRecord hpresent (by rw [htarget, hshape])
          rwa [htarget] at hstep
      | sequence element =>
          simp only [zeroAt, hshape]
          exact .sequence hpresent (by rw [htarget, hshape]) rfl .nil
      | table keys values =>
          simp only [zeroAt, hshape]
          exact .emptyTable hpresent (by rw [htarget, hshape])
      | bool | int | float | text | char | time | option =>
          refine .leaf hpresent ?_
          rw [htarget]
          exact leafOf?_null hoption (by rw [hshape]; rfl) (shape_ne_char h) room

/-- A character is not left out by `null`. -/
theorem convertAt_null_char (room : Nat) (path : String) :
    types.convertAt (room + 1) (.scalar .char) .null path =
      .error ⟨path, "null", "character"⟩ := by
  rw [convertAt]
  rfl

/-! ## Two bodies that differ in one field -/

/-- The names of a record's fields are apart: no two fields share a name in JSON or an external
name, and no external name is the name in JSON of another field. -/
structure NamesSeparate (fields : List VisibleField) : Prop where
  wireNames : (fields.map VisibleField.wireName).Nodup
  lookupNames : (fields.map VisibleField.lookupName).Nodup
  crossed : ∀ f ∈ fields, ∀ g ∈ fields, f.lookupName = g.wireName → f = g

instance {fields : List VisibleField} : Decidable (NamesSeparate fields) :=
  decidable_of_iff ((fields.map VisibleField.wireName).Nodup ∧
      (fields.map VisibleField.lookupName).Nodup ∧
      ∀ f ∈ fields, ∀ g ∈ fields, f.lookupName = g.wireName → f = g)
    ⟨fun ⟨hwire, hlookup, hcrossed⟩ => ⟨hwire, hlookup, hcrossed⟩,
      fun h => ⟨h.wireNames, h.lookupNames, h.crossed⟩⟩

/-- Two bodies that are the same but for a field: the one says `null` under its external name, the
other has no member for it. -/
structure DifferInNull (f : VisibleField) (nulled removed : Json.Object) : Prop where
  null : nulled.find? f.lookupName = some .null
  missing : bodyValue? removed f = none
  other : ∀ key, key ≠ f.lookupName → nulled.find? key = removed.find? key

theorem differInNull_insert_remove
    {body : Json.Object} (hwire : f.wireName = f.lookupName ∨ body.find? f.wireName = none) :
    DifferInNull f (body.insert f.lookupName .null) (body.remove f.lookupName) where
  null := Members.find?_insert_self _ _ _
  missing := by
    have hlookup : (body.remove f.lookupName).find? f.lookupName = none :=
      Members.find?_remove_self _ _
    rw [bodyValue?_of_wireName hlookup]
    by_cases hname : f.wireName = f.lookupName
    · rw [hname, hlookup]
    · rw [Members.find?_remove_of_ne _ hname]
      exact hwire.resolve_left hname
  other := fun key hkey => by
    rw [Members.find?_insert_of_ne _ _ hkey, Members.find?_remove_of_ne _ hkey]

theorem DifferInNull.bodyGiven?_eq
    (h : DifferInNull f nulled removed) (hnames : NamesSeparate fields) (hf : f ∈ fields)
    {g : VisibleField} (hg : g ∈ fields) (hne : g ≠ f) :
    bodyGiven? convert nulled path g = bodyGiven? convert removed path g := by
  have hlookup : g.lookupName ≠ f.lookupName := fun heq =>
    hne (List.inj_on_of_nodup_map hnames.lookupNames hg hf heq)
  have hwire : g.wireName ≠ f.lookupName := fun heq => hne (hnames.crossed f hf g hg heq.symm).symm
  rw [bodyGiven?, bodyGiven?, bodyValue?, bodyValue?, h.other _ hlookup, h.other _ hwire]

theorem DifferInNull.bodyGiven?_nulled
    (h : DifferInNull f nulled removed) :
    bodyGiven? convert nulled path f =
      (convert f.type .null (memberPath path f.lookupName)).map some :=
  bodyGiven?_of_eq_some (bodyValue?_of_lookupName h.null)

/-- Where `null` gives a field what it holds already, the bodies are put into an object alike. -/
theorem DifferInNull.overlayBody_eq
    (h : DifferInNull f nulled removed) (hnames : NamesSeparate fields) (hf : f ∈ fields)
    (hgroup : f.group = none) {zero : Json}
    (hnull : convert f.type .null (memberPath path f.lookupName) = .ok zero) {start : Json.Object}
    (hsorted : start.Sorted) (hstart : start.find? f.wireName = some zero) :
    overlayBody convert fields nulled path start =
      overlayBody convert fields removed path start := by
  rw [overlayBody_eq_foldlM, overlayBody_eq_foldlM]
  -- The field holds its zero value all the time, for no other field has its name.
  refine Results.foldlM_congr_of_invariant
    (P := fun a => a.target.Sorted ∧ a.target.find? f.wireName = some zero) ?_ ⟨hsorted, hstart⟩
  rintro a ⟨ha, hzero⟩ g hg
  by_cases hne : g = f
  · subst hne
    have hput : a.put g zero = a := by
      rw [Assembly.put, ha.insert_eq_self hzero, hgroup]
      simp
    rw [h.bodyGiven?_nulled, hnull, bodyGiven?_of_eq_none h.missing]
    refine ⟨congrArg Except.ok hput, ?_⟩
    intro b hb
    obtain rfl := Except.ok.inj hb
    rw [show a.give g (some zero) = a from hput]
    exact ⟨ha, hzero⟩
  · refine ⟨by rw [h.bodyGiven?_eq hnames hf hg hne], ?_⟩
    intro b hb
    obtain ⟨given, -, rfl⟩ := Results.map_eq_ok_iff.mp hb
    have hwire : f.wireName ≠ g.wireName := fun heq =>
      hne (List.inj_on_of_nodup_map hnames.wireNames hf hg heq).symm
    cases given with
    | none => exact ⟨ha, hzero⟩
    | some value =>
        exact ⟨ha.insert g.wireName value,
          (Members.find?_insert_of_ne value a.target hwire).trans hzero⟩

/-- Where `null` is refused the body with it fails, unless both fail alike with a field that comes
first. -/
theorem DifferInNull.overlayBody_refused
    (h : DifferInNull f nulled removed) (hnames : NamesSeparate fields) (hf : f ∈ fields)
    {refusal : FieldError}
    (hnull : convert f.type .null (memberPath path f.lookupName) = .error refusal)
    (start : Json.Object) :
    overlayBody convert fields nulled path start = .error refusal ∨
      ∃ e, overlayBody convert fields nulled path start = .error e ∧
        overlayBody convert fields removed path start = .error e := by
  obtain ⟨before, rest, hfields⟩ := List.append_of_mem hf
  have hbefore : ∀ a, ∀ g ∈ before,
      (bodyGiven? convert nulled path g).map (Assembly.give a g) =
        (bodyGiven? convert removed path g).map (Assembly.give a g) := by
    intro a g hg
    have hnodup : (before ++ f :: rest).Nodup := hfields ▸ List.Nodup.of_map _ hnames.wireNames
    have hne : g ≠ f := by
      rintro rfl
      exact (List.nodup_append.mp hnodup).2.2 g hg g (by simp) rfl
    rw [h.bodyGiven?_eq hnames hf (hfields ▸ List.mem_append_left _ hg) hne]
  rw [overlayBody_eq_foldlM, overlayBody_eq_foldlM, hfields, List.foldlM_append,
    List.foldlM_append, Results.foldlM_congr hbefore]
  cases before.foldlM (fun a g => (bodyGiven? convert removed path g).map (a.give g))
      (⟨start, []⟩ : Assembly) with
  | error e => exact .inr ⟨e, rfl, rfl⟩
  | ok a =>
      left
      refine Results.bind_eq_error_iff.mpr (.inr ⟨a, rfl, ?_⟩)
      rw [List.foldlM_cons, h.bodyGiven?_nulled, hnull]
      rfl

/-! ## Requests -/

/-- A `null` means that a field is left out.  Let the names of a request's fields be apart, let a
method read a body but no query, and let a field outside optional groups be looked up by its
external name only.  Then the body that says `null` for the field comes to what the body without it
comes to, be it a value or an error, unless the field is a single character.  For a character `null`
is refused, if no field before it is. -/
theorem null_means_left_out
    {t : Ty} (hrecord : types.record? t = some (id, r))
    (hnames : NamesSeparate (types.fieldsOf id r)) (hf : f ∈ types.fieldsOf id r)
    (hgroup : f.group = none) {method : String} {verb : Verb}
    (hverb : Verb.ofName? method = some verb) (hquery : verb.readsQuery = false)
    {body : Json.Object} (hwire : f.wireName = f.lookupName ∨ body.find? f.wireName = none)
    {nulled removed : List UInt8}
    (hnulled : readBody nulled = .ok (some (body.insert f.lookupName .null)))
    (hremoved : readBody removed = .ok (some (body.remove f.lookupName)))
    (query : Query) (pathParams : List (String × String)) :
    (f.type ≠ .scalar .char →
      types.requestValue t method ⟨query, nulled, pathParams⟩ =
        types.requestValue t method ⟨query, removed, pathParams⟩) ∧
    (f.type = .scalar .char →
      types.requestValue t method ⟨query, nulled, pathParams⟩ =
          .error (.invalidField ⟨f.lookupName, "null", "character"⟩) ∨
        ∃ e, types.requestValue t method ⟨query, nulled, pathParams⟩ = .error e ∧
          types.requestValue t method ⟨query, removed, pathParams⟩ = .error e) := by
  have hdiffer := differInNull_insert_remove hwire
  rw [requestValue_body_finish hrecord hverb hquery query hnulled,
    requestValue_body_finish hrecord hverb hquery query hremoved, overlayTop, overlayTop]
  constructor
  · intro hchar
    have hzero : (types.zeroObject maxDepth id r).find? f.wireName =
        some (types.zeroAt maxDepth f.type) := by
      rw [find?_zeroObject hnames.wireNames hf, hgroup]
      rfl
    rw [hdiffer.overlayBody_eq hnames hf hgroup (convertAt_null hchar maxDepth _)
      (sorted_zeroObject maxDepth id r) hzero]
  · intro hchar
    have hnull : types.convertAt (maxDepth + 1) f.type .null (memberPath "" f.lookupName) =
        .error ⟨f.lookupName, "null", "character"⟩ := by
      rw [hchar]
      exact convertAt_null_char maxDepth f.lookupName
    rcases hdiffer.overlayBody_refused hnames hf hnull (types.zeroObject maxDepth id r) with
      hrefused | ⟨e, he, he'⟩
    · left
      rw [hrefused]
      rfl
    · right
      refine ⟨.invalidField e, ?_, ?_⟩
      · rw [he]
        rfl
      · rw [he']
        rfl

/-! ## A stamp with a place and an initial -/

/-- A stamp: the initial of its owner, a place, and a day that is called `on` outside. -/
def stamp : Record where
  name := "Stamp"
  fields := [plainField "by" (.scalar .char) false, plainField "at" (.named "Place") false,
    ⟨"day", "day", .time .date, "p:\"on\"", none, false, false⟩]
  doc := none

/-- The types of a stamp. -/
def stampTypes : TypeTable :=
  ⟨[("Stamp", .record stamp), ("Place", .record ⟨"Place",
    [plainField "floor" (.scalar (.int .w16)) false, plainField "room" (.scalar .string) false],
      none⟩)]⟩

/-- A `null` for the place gives it at its zero value, as a body without the place does. -/
theorem null_means_left_out_place :
    stampTypes.requestValue (.named "Stamp") "PUT"
        ⟨.empty, Text.bytes "\x7b\"by\":\"A\",\"at\":null\x7d", []⟩ =
      stampTypes.requestValue (.named "Stamp") "PUT"
        ⟨.empty, Text.bytes "\x7b\"by\":\"A\"\x7d", []⟩ ∧
    (stampTypes.requestValue (.named "Stamp") "PUT"
        ⟨.empty, Text.bytes "\x7b\"by\":\"A\"\x7d", []⟩).toOption.map Json.compact =
      some ("\x7b\"at\":\x7b\"floor\":0,\"room\":\"\"\x7d,\"by\":\"A\"," ++
        "\"day\":\"1970-01-01\"\x7d") := by
  have hplace : ∃ f ∈ stampTypes.fieldsOf "Stamp" stamp, f.lookupName = "at" ∧
      f.wireName = "at" ∧ f.group = none ∧ f.type ≠ .scalar .char := by
    decide +kernel
  have hnulled : readBody (Text.bytes "\x7b\"by\":\"A\",\"at\":null\x7d") =
      .ok (some (Members.insert "at" .null [("by", .string "A")])) :=
    readBody_of_sameMembers (by decide +kernel)
  have hremoved : readBody (Text.bytes "\x7b\"by\":\"A\"\x7d") =
      .ok (some (Members.remove "at" [("by", .string "A")])) :=
    readBody_of_sameMembers (by decide +kernel)
  have hrecord : stampTypes.record? (.named "Stamp") = some ("Stamp", stamp) := rfl
  have hverb : Verb.ofName? "PUT" = some .put := rfl
  obtain ⟨f, hf, hlookup, hwire, hgroup, hchar⟩ := hplace
  rw [← hlookup] at hnulled hremoved
  obtain ⟨hsame, -⟩ := null_means_left_out hrecord (by decide +kernel) hf hgroup hverb rfl
    (.inl (hwire.trans hlookup.symm)) hnulled hremoved .empty []
  exact ⟨hsame hchar, by decide +kernel⟩

/-- A `null` for the initial is refused, though a body without one gives the zero character. -/
theorem null_character_refused :
    NamesSeparate (stampTypes.fieldsOf "Stamp" stamp) ∧
      ∃ f ∈ stampTypes.fieldsOf "Stamp" stamp, f.group = none ∧ f.wireName = f.lookupName ∧
        readBody (Text.bytes "\x7b\"by\":null\x7d") =
          .ok (some (Members.insert f.lookupName .null [("by", .string "A")])) ∧
        readBody (Text.bytes "\x7b\x7d") =
          .ok (some (Members.remove f.lookupName [("by", .string "A")])) ∧
        stampTypes.requestValue (.named "Stamp") "POST"
            ⟨.empty, Text.bytes "\x7b\"by\":null\x7d", []⟩ ≠
          stampTypes.requestValue (.named "Stamp") "POST" ⟨.empty, Text.bytes "\x7b\x7d", []⟩ := by
  have hinitial : ∃ f ∈ stampTypes.fieldsOf "Stamp" stamp, f.group = none ∧
      f.wireName = "by" ∧ f.lookupName = "by" := by
    decide +kernel
  have hnulled : (stampTypes.requestValue (.named "Stamp") "POST"
      ⟨.empty, Text.bytes "\x7b\"by\":null\x7d", []⟩).toOption.map Json.compact = none := by
    decide +kernel
  have hremoved : (stampTypes.requestValue (.named "Stamp") "POST"
      ⟨.empty, Text.bytes "\x7b\x7d", []⟩).toOption.map Json.compact =
        some ("\x7b\"at\":\x7b\"floor\":0,\"room\":\"\"\x7d,\"by\":\"\\u0000\"," ++
          "\"day\":\"1970-01-01\"\x7d") := by
    decide +kernel
  obtain ⟨f, hf, hgroup, hwire, hlookup⟩ := hinitial
  refine ⟨by decide +kernel, f, hf, hgroup, hwire.trans hlookup.symm, ?_, ?_, ?_⟩
  · rw [hlookup]
    exact readBody_of_sameMembers (by decide +kernel)
  · rw [hlookup]
    exact readBody_of_sameMembers (by decide +kernel)
  · intro hsame
    rw [hsame, hremoved] at hnulled
    cases hnulled

end TypeTable
end TypedRoutes
