import TypedRoutes.Proofs.QueryReach

/-!
# Requests without nested records

The fields of a flat record take texts from a query one by one.  Such a query is accepted exactly if
the text of every field is, and a member of the object is what its field was given, or else what it
was.  Where the only field holds a natural number that is given in the path, a request is accepted
exactly if all the inputs that the method reads are: a number that the path replaces has to be one
too.
-/

namespace TypedRoutes

/-- The natural number of a width that a value is taken for. -/
def Json.natOf? (bits : Nat) (value : Json) : Option Nat :=
  (value.intOf?.filter (fits false bits)).map Int.toNat

namespace Query

/-- The natural number that the last text of a name is taken for. -/
def nat? (query : Query) (bits : Nat) (name : String) : Option Nat :=
  (query.last? name).bind fun text => (Json.string text).natOf? bits

/-- There is no text of a name, or the last one is taken for a natural number. -/
def AcceptsNat (query : Query) (bits : Nat) (name : String) : Prop :=
  ∀ text, query.last? name = some text → ((Json.string text).natOf? bits).isSome = true

end Query

/-- A body is blank, or an object whose member of a name, where it has one, is taken for a natural
number. -/
def BodyAcceptsNat (bytes : List UInt8) (bits : Nat) (name : String) : Prop :=
  readBody bytes = .ok none ∨
    ∃ members, readBody bytes = .ok (some members) ∧
      ∀ raw, members.find? name = some raw → (raw.natOf? bits).isSome = true

namespace TypeTable

variable {types : TypeTable} {t : Ty} {bits room : Nat} {f : VisibleField}
  {fields : List VisibleField} {query : Query} {start result : Json.Object}

/-! ## Numbers and texts -/

theorem convertAt_nat_eq_ok_iff
    (hshape : types.shape t.target = .int false bits) {value : Json} (hpresent : IsPresent t value)
    {path : String} {result : Json} :
    types.convertAt (room + 1) t value path = .ok result ↔
      ∃ n : Nat, value.natOf? bits = some n ∧ result = .int n := by
  rw [convertAt_eq_ok_iff_of_isPlain hpresent (by rw [hshape]; rfl), hshape, Shape.leafOf?,
    Json.natOf?]
  cases hint : value.intOf?.filter (Json.fits false bits) with
  | none => simp
  | some n =>
      have hnonneg : 0 ≤ n := (inRange_of_fits (Option.filter_eq_some_iff.mp hint).2).1
      simp [Int.toNat_of_nonneg hnonneg, eq_comm]

theorem leafValue?_nat_eq_ok_iff
    (hshape : types.shape f.target = .int false bits) {given : Option Json} :
    types.leafValue? room query f = .ok given ↔
      query.AcceptsNat bits f.lookupName ∧
        given = (query.nat? bits f.lookupName).map fun n => .int n := by
  rw [leafValue?_of_single (by simp [hshape]) (by simp [hshape]) (by simp [hshape])]
  cases hlast : query.last? f.lookupName with
  | none => simp [Query.AcceptsNat, Query.nat?, hlast, eq_comm (a := given)]
  | some text =>
      have hpresent : IsPresent f.type (.string text) := fun _ => Json.noConfusion
      simp only [Results.map_eq_ok_iff, convertAt_nat_eq_ok_iff hshape hpresent]
      cases hnat : (Json.string text).natOf? bits with
      | none => simp [Query.AcceptsNat, hlast, hnat]
      | some n => simp [Query.AcceptsNat, Query.nat?, hlast, hnat, eq_comm (a := given)]

theorem leafValue?_text
    (hshape : types.shape f.target = .text []) :
    types.leafValue? room query f = .ok ((query.last? f.lookupName).map .string) := by
  rw [leafValue?_of_single (by simp [hshape]) (by simp [hshape]) (by simp [hshape])]
  cases query.last? f.lookupName with
  | none => rfl
  | some text =>
      have hpresent : IsPresent f.type (.string text) := fun _ => Json.noConfusion
      refine Results.map_eq_ok_iff.mpr ⟨.string text, ?_, rfl⟩
      have hshape' : types.shape f.type.target = .text [] := hshape
      rw [convertAt_eq_ok_iff_of_isPlain hpresent (by rw [hshape']; rfl), hshape']
      rfl

/-! ## Flat records -/

/-- No field is a record or belongs to a group, and all have names of their own. -/
structure IsFlat (types : TypeTable) (fields : List VisibleField) : Prop where
  record : ∀ f ∈ fields, types.record? f.type = none
  group : ∀ f ∈ fields, f.group = none
  nodup : (fields.map VisibleField.wireName).Nodup

theorem IsFlat.find?_of_overlayQuery
    (hflat : types.IsFlat fields) {path : List String} {touched : Bool}
    (h : types.overlayQuery room path query fields start = .ok (result, touched))
    (hf : f ∈ fields) :
    ∃ given, types.leafValue? room query f = .ok given ∧
      result.find? f.wireName = given.or (start.find? f.wireName) := by
  obtain ⟨given, hgiven, -, hoverlaid⟩ := exists_overlaid_of_overlayQuery hflat.nodup h
  refine ⟨given f, ?_, ?_⟩
  · rw [← fieldValue?_of_leaf (hflat.record f hf), hgiven f hf]
  · have hungrouped : groupGiven fields given f = false := by
      simp [groupGiven, hflat.group f hf]
    rw [hoverlaid.field f hf, hungrouped]
    simp

/-- A query is accepted if what it gives to every field is. -/
theorem IsFlat.exists_overlayQuery_iff
    (hflat : types.IsFlat fields) (path : List String) (start : Json.Object) :
    (∃ overlaid, types.overlayQuery room path query fields start = .ok overlaid) ↔
      ∀ f ∈ fields, ∃ given, types.leafValue? room query f = .ok given := by
  constructor
  · rintro ⟨⟨result, touched⟩, h⟩ f hf
    obtain ⟨given, hgiven, -⟩ := hflat.find?_of_overlayQuery h hf
    exact ⟨given, hgiven⟩
  · intro h
    rw [overlayQuery_eq, overlayFields]
    simp only [Results.bind_eq_ok_iff]
    refine Exists.elim (Results.exists_foldlM_eq_ok ?_ _) fun state hstate =>
      ⟨_, state, hstate, rfl⟩
    rintro ⟨a, touched⟩ f hf
    obtain ⟨given, hgiven⟩ := h f hf
    have hleaf : types.queryValue? room (types.enterQuery room path query) query a.target f =
        .ok given :=
      (fieldValue?_of_leaf (hflat.record f hf) a.target).trans hgiven
    simp only [hleaf]
    cases given with
    | none => exact ⟨_, rfl⟩
    | some value => exact ⟨_, rfl⟩

theorem exists_afterQuery_iff
    {verb : Verb} (hreads : verb.readsQuery = true) (id : String) (start : Json.Object) :
    (∃ result, types.afterQuery verb query id fields start = .ok result) ↔
      ∃ overlaid, types.overlayQuery maxDepth [id] query fields start = .ok overlaid := by
  simp only [afterQuery_eq_ok_iff hreads]
  constructor
  · rintro ⟨result, touched, h⟩
    exact ⟨(result, touched), h⟩
  · rintro ⟨overlaid, h⟩
    exact ⟨overlaid.1, overlaid.2, h⟩

theorem exists_record_of_fields
    (hfields : types.fields t = f :: fields) :
    ∃ id r, types.record? t = some (id, r) ∧ types.fieldsOf id r = f :: fields := by
  cases hrecord : types.record? t with
  | none => simp [TypeTable.fields, hrecord] at hfields
  | some found =>
      exact ⟨found.1, found.2, rfl, by simpa [TypeTable.fields, hrecord] using hfields⟩

/-- A call that reads only a query is accepted if what the query gives to every field is. -/
theorem IsFlat.exists_requestValue_get_iff
    (hflat : types.IsFlat (f :: fields)) (hfields : types.fields t = f :: fields)
    (bytes : List UInt8) :
    (∃ value, types.requestValue t "GET" ⟨query, bytes, []⟩ = .ok value) ↔
      ∀ g ∈ f :: fields, ∃ given, types.leafValue? maxDepth query g = .ok given := by
  obtain ⟨id, r, hrecord, hfieldsOf⟩ := exists_record_of_fields hfields
  simp only [requestValue_get hrecord, hfieldsOf, afterPath_nil, Results.bind_eq_ok_iff]
  rw [← hflat.exists_overlayQuery_iff [id] (types.zeroObject maxDepth id r),
    ← exists_afterQuery_iff (show Verb.get.readsQuery = true from rfl)]
  constructor
  · rintro ⟨_, queried, hqueried, -⟩
    exact ⟨queried, hqueried⟩
  · rintro ⟨queried, hqueried⟩
    exact ⟨.object queried, queried, hqueried, queried, rfl, rfl⟩

/-- Its members are what the query gives, or else zero values. -/
theorem IsFlat.member?_of_requestValue_get
    (hflat : types.IsFlat (f :: fields)) (hfields : types.fields t = f :: fields)
    {bytes : List UInt8} {value : Json}
    (h : types.requestValue t "GET" ⟨query, bytes, []⟩ = .ok value) {g : VisibleField}
    (hg : g ∈ f :: fields) :
    ∃ given, types.leafValue? maxDepth query g = .ok given ∧
      value.member? g.wireName = some (given.getD (types.zeroAt maxDepth g.type)) := by
  obtain ⟨id, r, hrecord, hfieldsOf⟩ := exists_record_of_fields hfields
  simp only [requestValue_get hrecord, hfieldsOf, afterPath_nil, Results.bind_eq_ok_iff] at h
  obtain ⟨queried, hqueried, _, hpath, hvalue⟩ := h
  obtain rfl := Except.ok.inj hpath
  obtain rfl := Except.ok.inj hvalue
  obtain ⟨touched, hoverlaid⟩ := (afterQuery_eq_ok_iff rfl).mp hqueried
  obtain ⟨given, hgiven, hmember⟩ := hflat.find?_of_overlayQuery hoverlaid hg
  have hzero : (types.zeroObject maxDepth id r).find? g.wireName =
      some (types.zeroAt maxDepth g.type) := by
    rw [← hfieldsOf] at hg hflat
    rw [find?_zeroObject hflat.nodup hg, hflat.group g hg]
    rfl
  refine ⟨given, hgiven, ?_⟩
  rw [Json.member?, Json.members, hmember, hzero]
  cases given <;> rfl

/-! ## Requests for a natural number -/

/-- A field holds a natural number, and is looked up under its own name. -/
structure HoldsNat (types : TypeTable) (bits : Nat) (f : VisibleField) : Prop where
  shape : types.shape f.target = .int false bits
  present : f.type.isOption = false
  lookupName : f.lookupName = f.wireName
  group : f.group = none

theorem HoldsNat.isFlat (hf : types.HoldsNat bits f) : types.IsFlat [f] where
  record := by
    have hshape : types.shape f.type.target = .int false bits := hf.shape
    simp [record?, hshape]
  group := by simpa using hf.group
  nodup := List.nodup_singleton _

theorem HoldsNat.exists_overlayQuery_iff
    (hf : types.HoldsNat bits f) (path : List String) (start : Json.Object) :
    (∃ overlaid, types.overlayQuery room path query [f] start = .ok overlaid) ↔
      query.AcceptsNat bits f.wireName := by
  simp [hf.isFlat.exists_overlayQuery_iff, leafValue?_nat_eq_ok_iff hf.shape, hf.lookupName]

theorem HoldsNat.exists_afterQuery_iff
    (hf : types.HoldsNat bits f) (verb : Verb) (query : Query) (id : String) (start : Json.Object) :
    (∃ result, types.afterQuery verb query id [f] start = .ok result) ↔
      (verb.readsQuery = true → query.AcceptsNat bits f.wireName) := by
  cases hreads : verb.readsQuery with
  | false => simp [afterQuery, hreads]
  | true => simp [TypeTable.exists_afterQuery_iff hreads, hf.exists_overlayQuery_iff]

theorem HoldsNat.exists_overlayTop_iff
    (hf : types.HoldsNat bits f) (body start : Json.Object) :
    (∃ result, types.overlayTop [f] body start = .ok result) ↔
      ∀ raw, body.find? f.wireName = some raw → (raw.natOf? bits).isSome = true := by
  have hvalue : bodyValue? body f = body.find? f.wireName := by
    rw [bodyValue?, hf.lookupName, Option.or_self]
  simp only [overlayTop, overlayBody, List.foldlM_cons, List.foldlM_nil, hvalue]
  cases hraw : body.find? f.wireName with
  | none => simp [pure, Except.pure, bind, Except.bind]
  | some raw =>
      have hpresent : IsPresent f.type raw := by simp [IsPresent, hf.present]
      have hconvert : (∃ value, types.convertAt (maxDepth + 1) f.type raw
          (memberPath "" f.lookupName) = .ok value) ↔ (raw.natOf? bits).isSome = true := by
        simp only [convertAt_nat_eq_ok_iff hf.shape hpresent, Option.isSome_iff_exists]
        constructor
        · rintro ⟨_, n, hn, -⟩
          exact ⟨n, hn⟩
        · rintro ⟨n, hn⟩
          exact ⟨_, n, hn, rfl⟩
      simp only [Option.some.injEq, forall_eq', ← hconvert]
      cases types.convertAt (maxDepth + 1) f.type raw (memberPath "" f.lookupName) with
      | error e => simp [bind, Except.bind]
      | ok value => simp [pure, Except.pure, bind, Except.bind]

theorem HoldsNat.exists_afterBody_iff
    (hf : types.HoldsNat bits f) (verb : Verb) (bytes : List UInt8) (start : Json.Object) :
    (∃ result, types.afterBody verb bytes [f] start = .ok result) ↔
      (verb.readsBody = true → BodyAcceptsNat bytes bits f.wireName) := by
  cases hreads : verb.readsBody with
  | false => simp [afterBody, hreads]
  | true =>
      simp only [afterBody, hreads, if_true, Results.bind_eq_ok_iff, Results.mapError_eq_ok_iff,
        BodyAcceptsNat, forall_const]
      constructor
      · rintro ⟨result, body, hread, hresult⟩
        cases body with
        | none => exact .inl hread
        | some members =>
            exact .inr ⟨members, hread, (hf.exists_overlayTop_iff members start).mp
              ⟨result, Results.mapError_eq_ok_iff.mp hresult⟩⟩
      · rintro (hread | ⟨members, hread, haccepts⟩)
        · exact ⟨start, none, hread, rfl⟩
        · obtain ⟨result, hresult⟩ := (hf.exists_overlayTop_iff members start).mpr haccepts
          exact ⟨result, some members, hread, Results.mapError_eq_ok_iff.mpr hresult⟩

theorem HoldsNat.exists_afterPath_iff
    (hf : types.HoldsNat bits f) {pathParams : List (String × String)} {text : String}
    (htext : (⟨pathParams⟩ : Query).last? f.wireName = some text) (id : String)
    (start : Json.Object) (n : Nat) :
    (∃ target, types.afterPath pathParams id [f] start = .ok target ∧
        target.find? f.wireName = some (.int n)) ↔
      (Json.string text).natOf? bits = some n := by
  have hlast : (⟨pathParams⟩ : Query).last? f.lookupName = some text := by
    rw [hf.lookupName, htext]
  simp only [afterPath_eq_ok_iff]
  constructor
  · rintro ⟨target, ⟨touched, h⟩, hfind⟩
    obtain ⟨given, hgiven, hmember⟩ := hf.isFlat.find?_of_overlayQuery h (List.mem_singleton_self f)
    obtain ⟨haccepts, rfl⟩ := (leafValue?_nat_eq_ok_iff hf.shape).mp hgiven
    obtain ⟨m, hm⟩ := Option.isSome_iff_exists.mp (haccepts text hlast)
    rw [Query.nat?, hlast, Option.bind_some, hm, hfind] at hmember
    obtain rfl : n = m := by exact_mod_cast (by simpa using hmember : (n : Int) = m)
    exact hm
  · intro hn
    have haccepts : (⟨pathParams⟩ : Query).AcceptsNat bits f.wireName := by
      intro text' htext'
      obtain rfl := Option.some.inj (htext.symm.trans htext')
      simp [hn]
    obtain ⟨⟨target, touched⟩, h⟩ := (hf.exists_overlayQuery_iff [id] start).mpr haccepts
    obtain ⟨given, hgiven, hmember⟩ := hf.isFlat.find?_of_overlayQuery h (List.mem_singleton_self f)
    obtain ⟨-, rfl⟩ := (leafValue?_nat_eq_ok_iff hf.shape).mp hgiven
    rw [Query.nat?, hlast, Option.bind_some, hn] at hmember
    exact ⟨target, ⟨touched, h⟩, hmember⟩

/-- The only field of a request type holds a natural number and is given in the path.  The number in
the path is the one that counts, but the query and the body have to be accepted too, where the
method reads them. -/
theorem HoldsNat.exists_requestValue_iff
    (hf : types.HoldsNat bits f) (hfields : types.fields t = [f]) {method : String} {verb : Verb}
    (hverb : Verb.ofName? method = some verb) {input : CallInput} {text : String}
    (htext : (⟨input.pathParams⟩ : Query).last? f.wireName = some text) (n : Nat) :
    (∃ value, types.requestValue t method input = .ok value ∧
        value.member? f.wireName = some (.int n)) ↔
      (verb.readsQuery = true → input.query.AcceptsNat bits f.wireName) ∧
      (verb.readsBody = true → BodyAcceptsNat input.body bits f.wireName) ∧
      (Json.string text).natOf? bits = some n := by
  obtain ⟨id, r, hrecord, hfieldsOf⟩ := exists_record_of_fields hfields
  simp only [requestValue_eq hrecord hverb, hfieldsOf, Results.bind_eq_ok_iff]
  constructor
  · rintro ⟨value, ⟨queried, hqueried, overlaid, hoverlaid, target, htarget, hvalue⟩, hmember⟩
    obtain rfl := Except.ok.inj hvalue
    exact ⟨(hf.exists_afterQuery_iff ..).mp ⟨queried, hqueried⟩,
      (hf.exists_afterBody_iff ..).mp ⟨overlaid, hoverlaid⟩,
      (hf.exists_afterPath_iff htext ..).mp ⟨target, htarget, hmember⟩⟩
  · rintro ⟨hquery, hbody, hn⟩
    obtain ⟨queried, hqueried⟩ := (hf.exists_afterQuery_iff verb input.query id
      (types.zeroObject maxDepth id r)).mpr hquery
    obtain ⟨overlaid, hoverlaid⟩ := (hf.exists_afterBody_iff verb input.body queried).mpr hbody
    obtain ⟨target, htarget, hmember⟩ := (hf.exists_afterPath_iff htext id overlaid n).mpr hn
    exact ⟨.object target, ⟨queried, hqueried, overlaid, hoverlaid, target, htarget, rfl⟩, hmember⟩

end TypeTable
end TypedRoutes
