import TypedRoutes.Proofs.ConversionSoundness
import TypedRoutes.Proofs.QueryPairs

/-!
# Request values conform to the request type

The value of a request is a zero object that is overlaid with the query, the body and the path
parameters.  Each overlay keeps the object of a record complete: nested objects that are already
there are taken up again, and the missing members of a group that is touched are filled in.
-/

namespace TypedRoutes
namespace TypeTable

variable {types : TypeTable}

/-! ## The value that a query gives to a field -/

theorem Admits.isComplete
    {P : Ty → Json → Prop} {t : Ty} {members : Json.Object} {id : String} {r : Record}
    (h : types.Admits P t (.object members)) (ht : types.shape t.target = .record id r) :
    IsComplete P r.markerField? (types.fieldsOf id r) members := by
  cases h with
  | leaf hleaf =>
      rw [ht] at hleaf
      cases hleaf
  | table ht' hkeys hvalues =>
      rw [ht] at ht'
      cases ht'
  | record ht' hmembers hvalues =>
      rw [ht] at ht'
      obtain ⟨rfl, rfl⟩ := Shape.record.inj ht'
      exact ⟨hmembers, hvalues⟩

/-- The object of a nested record before the query is applied to it: the one that is there, or a
zero object. -/
theorem isComplete_nested
    {room : Nat} {f : VisibleField} {marker : Option Field} {fields : List VisibleField}
    {target : Json.Object} (htarget : HasMembers (types.ConformsTo (room + 1)) marker fields target)
    (hf : f ∈ fields) (hapart : types.HasNamesApart f.type) {id : String} {r : Record}
    (ht : types.shape f.target = .record id r) :
    IsComplete (types.ConformsTo room) r.markerField? (types.fieldsOf id r)
      (match target.find? f.wireName with
        | some (.object existing) => existing
        | _ => types.zeroObject room id r) := by
  split
  · rename_i existing hfound
    have hvalue := htarget.values f hf _ (Members.mem_of_find?_eq_some hfound)
    exact Admits.isComplete hvalue ht
  · apply isComplete_zeroObjectWith (hapart.record ht)
    intro g hg
    exact conformsTo_zeroAt room (hapart.component (.field ht hg))

/-- What a query gives to a field that is no record: a list or a table of converted texts, or a
converted text. -/
inductive LeafStep (types : TypeTable) (room : Nat) (f : VisibleField) : Json → Prop
  | sequence {element : Ty} {items : List Json} (ht : types.shape f.target = .sequence element)
      (hitems : ∀ item ∈ items, ∃ text path,
        types.convertAt (room + 1) element (.string text) path = .ok item) :
      LeafStep types room f (.array items)
  | table {keys values : Ty} {members : Json.Object}
      (ht : types.shape f.target = .table keys values)
      (hmembers : ∀ entry ∈ members, ∃ text path,
        (∃ key, types.convertAt (room + 1) keys (.string entry.1) path = .ok key) ∧
        types.convertAt (room + 1) values (.string text) path = .ok entry.2) :
      LeafStep types room f (.object members)
  | single {value : Json} {text path : String}
      (h : types.convertAt (room + 1) f.type (.string text) path = .ok value) :
      LeafStep types room f value

theorem leafStep_of_leafValue?
    {room : Nat} {query : Query} {f : VisibleField}
    (hrecord : ∀ id r, types.shape f.target ≠ .record id r) {value : Json}
    (h : types.leafValue? room query f = .ok (some value)) : types.LeafStep room f value := by
  by_cases hsequence : ∃ element, types.shape f.target = .sequence element
  · obtain ⟨element, ht⟩ := hsequence
    obtain ⟨items, rfl, hitems⟩ := leafValue?_of_sequence ht h
    refine .sequence ht ?_
    intro item hitem
    obtain ⟨entry, -, hentry⟩ := Results.exists_left_of_forall₂ hitems hitem
    exact ⟨_, _, hentry⟩
  by_cases htable : ∃ keys values, types.shape f.target = .table keys values
  · obtain ⟨keys, values, ht⟩ := htable
    obtain ⟨members, rfl, hmembers⟩ := leafValue?_of_table ht h
    refine .table ht ?_
    intro entry hentry
    obtain ⟨pair, -, hkey, hitem, hname⟩ :=
      Results.exists_left_of_forall₂ hmembers (Members.mem_of_mem_ofList hentry)
    rw [← hname] at hkey
    exact ⟨_, _, hkey, hname ▸ hitem⟩
  push Not at hsequence htable
  rw [leafValue?_of_single hrecord hsequence htable] at h
  split at h
  · cases h
  · obtain ⟨result, hresult, hvalue⟩ := Results.map_eq_ok_iff.mp h
    obtain rfl := Option.some.inj hvalue
    exact .single hresult

/-- The value that a query gives to a field that is no record conforms to its type. -/
theorem conformsTo_of_leafValue?
    {room : Nat} (hroom : room < maxDepth) {query : Query} {f : VisibleField}
    (hapart : types.HasNamesApart f.type)
    (hrecord : ∀ id r, types.shape f.target ≠ .record id r) {value : Json}
    (h : types.leafValue? (room + 1) query f = .ok (some value)) :
    types.ConformsTo (room + 1) f.type value := by
  have hconvert : ∀ {u : Ty} {raw path result}, types.HasNamesApart u →
      types.convertAt (room + 1 + 1) u raw path = .ok result →
      types.ConformsTo (room + 1) u result :=
    fun hu hresult => conformsTo_of_convertAt (by omega) hu hresult
  cases leafStep_of_leafValue? hrecord h with
  | sequence ht hitems =>
      refine .sequence ht ?_
      intro item hitem
      obtain ⟨text, path, hresult⟩ := hitems item hitem
      have hconforms := hconvert (hapart.component (.element ht)) hresult
      exact hconforms.of_le (by omega)
  | table ht hmembers =>
      refine .table ht ?_ ?_
      · intro entry hentry
        obtain ⟨text, path, ⟨key, hkey⟩, -⟩ := hmembers entry hentry
        exact acceptsKey_of_convertAt (by omega) hkey
      · intro entry hentry
        obtain ⟨text, path, -, hresult⟩ := hmembers entry hentry
        have hconforms := hconvert (hapart.component (.value ht)) hresult
        exact hconforms.of_le (by omega)
  | single hresult => exact hconvert hapart hresult

/-- The value that a query gives to a field conforms to its type, provided that entering a nested
record keeps its object complete. -/
theorem conformsTo_of_queryValue?
    {room : Nat} (hroom : room ≤ maxDepth)
    {enter : String → Record → Json.Object → Except FieldError (Option Json.Object)}
    {query : Query} {marker : Option Field} {fields : List VisibleField} {target : Json.Object}
    (htarget : HasMembers (types.ConformsTo room) marker fields target)
    {f : VisibleField} (hf : f ∈ fields) (hapart : types.HasNamesApart f.type)
    (henter : ∀ n id r nested overlaid, room = n + 1 → types.shape f.target = .record id r →
      IsComplete (types.ConformsTo n) r.markerField? (types.fieldsOf id r) nested →
      enter id r nested = .ok (some overlaid) →
      IsComplete (types.ConformsTo n) r.markerField? (types.fieldsOf id r) overlaid)
    {value : Json} (h : types.queryValue? room enter query target f = .ok (some value)) :
    types.ConformsTo room f.type value := by
  cases room with
  | zero => trivial
  | succ room =>
      by_cases hrecord : ∃ id r, types.shape f.target = .record id r
      · obtain ⟨id, r, ht⟩ := hrecord
        simp only [queryValue?, ht] at h
        obtain ⟨overlaid, hoverlaid, hvalue⟩ := Results.bind_eq_ok_iff.mp h
        cases overlaid with
        | none => cases hvalue
        | some overlaid =>
            obtain rfl := Option.some.inj (Except.ok.inj hvalue)
            have hcomplete := henter room id r _ overlaid rfl ht
              (isComplete_nested htarget hf hapart ht) hoverlaid
            exact .record ht hcomplete.toIsRecord hcomplete.values
      · push Not at hrecord
        rw [queryValue?_of_leaf hrecord] at h
        exact conformsTo_of_leafValue? (by omega) hapart hrecord h

/-! ## Overlaying a query -/

theorem isComplete_overlayFields
    {P : Ty → Json → Prop} {room : Nat}
    {enter : String → Record → Json.Object → Except FieldError (Option Json.Object)}
    {query : Query} {marker : Option Field} {fields : List VisibleField}
    (hnames : NamesApart marker fields)
    (hzero : ∀ f ∈ fields, P f.type (types.zeroAt room f.type))
    (hquery : ∀ f ∈ fields, ∀ target value, HasMembers P marker fields target →
      types.queryValue? room enter query target f = .ok (some value) → P f.type value)
    {start result : Json.Object} {touched : Bool} (hstart : IsComplete P marker fields start)
    (h : types.overlayFields room enter query fields start = .ok (result, touched)) :
    IsComplete P marker fields result := by
  obtain ⟨⟨a, touched'⟩, ha, hresult⟩ := Results.bind_eq_ok_iff.mp h
  have hsound : a.IsSound P marker fields := by
    refine Results.foldlM_invariant (P := fun state : Assembly × Bool =>
      state.1.IsSound P marker fields) ?_ hstart.isSound ha
    rintro ⟨b, touched⟩ f next hf hb hnext
    obtain ⟨value?, hvalue, hnext⟩ := Results.bind_eq_ok_iff.mp hnext
    cases value? with
    | none =>
        obtain rfl := Except.ok.inj hnext
        exact hb
    | some value =>
        obtain rfl := Except.ok.inj hnext
        exact hb.put hnames hf (hquery f hf _ value hb.toHasMembers hvalue)
  obtain rfl := (Prod.mk.inj (Except.ok.inj hresult)).1
  exact isComplete_completeGroups hnames hsound hzero

/-- A query keeps the object of a record complete. -/
theorem isComplete_overlayQuery
    {room : Nat} (hroom : room ≤ maxDepth) {path : List String} {query : Query}
    {marker : Option Field} {fields : List VisibleField} (hnames : NamesApart marker fields)
    (hfields : ∀ f ∈ fields, types.HasNamesApart f.type)
    {start result : Json.Object} {touched : Bool}
    (hstart : IsComplete (types.ConformsTo room) marker fields start)
    (h : types.overlayQuery room path query fields start = .ok (result, touched)) :
    IsComplete (types.ConformsTo room) marker fields result := by
  induction room generalizing path marker fields start result touched with
  | zero =>
      refine isComplete_overlayFields hnames (fun _ _ => trivial) ?_ hstart h
      intro f hf target value htarget hvalue
      exact trivial
  | succ room ih =>
      have hzero : ∀ f ∈ fields,
          types.ConformsTo (room + 1) f.type (types.zeroAt (room + 1) f.type) :=
        fun f hf => conformsTo_zeroAt (room + 1) (hfields f hf)
      refine isComplete_overlayFields hnames hzero ?_ hstart h
      intro f hf target value htarget hvalue
      refine conformsTo_of_queryValue? hroom htarget hf (hfields f hf) ?_ hvalue
      intro n id r nested overlaid hn hshape hnested hentered
      obtain rfl : room = n := by omega
      by_cases hpath : path.contains id = true
      · simp only [hpath, if_true] at hentered
        cases hentered
      · simp only [hpath] at hentered
        obtain ⟨⟨overlaid', touched'⟩, hoverlaid, hresult⟩ := Results.bind_eq_ok_iff.mp hentered
        cases touched' with
        | false => cases hresult
        | true =>
            obtain rfl := Option.some.inj (Except.ok.inj hresult)
            exact ih (by omega) ((hfields f hf).record hshape)
              (fun g hg => (hfields f hf).component (.field hshape hg)) hnested hoverlaid

/-! ## The whole request -/

/-- A body keeps the object of a record complete. -/
theorem isComplete_overlayTop
    {marker : Option Field} {fields : List VisibleField} (hnames : NamesApart marker fields)
    (hfields : ∀ f ∈ fields, types.HasNamesApart f.type) {body start result : Json.Object}
    (hstart : IsComplete (types.ConformsTo maxDepth) marker fields start)
    (h : types.overlayTop fields body start = .ok result) :
    IsComplete (types.ConformsTo maxDepth) marker fields result := by
  obtain ⟨a, ha, hresult⟩ := Results.bind_eq_ok_iff.mp h
  obtain rfl := Except.ok.inj hresult
  have hconvert : ∀ f ∈ fields, ∀ raw path value,
      types.convertAt (maxDepth + 1) f.type raw path = .ok value →
      types.ConformsTo maxDepth f.type value := by
    intro f hf raw path value hvalue
    exact conformsTo_of_convertAt (Nat.le_refl _) (hfields f hf) hvalue
  have hsound := isSound_overlayBody hnames hconvert hstart ha
  exact isComplete_completeGroups hnames hsound
    fun f hf => conformsTo_zeroAt maxDepth (hfields f hf)

theorem shape_of_record?
    {t : Ty} {id : String} {r : Record} (h : types.record? t = some (id, r)) :
    types.shape t.target = .record id r := by
  unfold record? at h
  split at h
  · rename_i id' r' hshape
    obtain ⟨rfl, rfl⟩ := Prod.mk.inj (Option.some.inj h)
    exact hshape
  · cases h

/-- The object of a request after its query, if the verb reads it. -/
def afterQuery (types : TypeTable) (verb : Verb) (query : Query) (id : String)
    (fields : List VisibleField) (start : Json.Object) : Except RequestError Json.Object :=
  if verb.readsQuery then
    ((types.overlayQuery maxDepth [id] query fields start).map Prod.fst).mapError .invalidField
  else
    .ok start

/-- The object of a request after its body, if the verb reads it. -/
def afterBody (types : TypeTable) (verb : Verb) (bytes : List UInt8) (fields : List VisibleField)
    (start : Json.Object) : Except RequestError Json.Object :=
  if verb.readsBody then do
    match ← (readBody bytes).mapError .invalidBody with
    | none => .ok start
    | some body => (types.overlayTop fields body start).mapError .invalidField
  else
    .ok start

/-- The object of a request after its path parameters. -/
def afterPath (types : TypeTable) (pathParams : List (String × String)) (id : String)
    (fields : List VisibleField) (start : Json.Object) : Except RequestError Json.Object :=
  ((types.overlayQuery maxDepth [id] ⟨pathParams⟩ fields start).map Prod.fst).mapError .invalidField

theorem afterQuery_eq_ok_iff
    {verb : Verb} (hverb : verb.readsQuery = true) {query : Query} {id : String}
    {fields : List VisibleField} {start result : Json.Object} :
    types.afterQuery verb query id fields start = .ok result ↔
      ∃ touched, types.overlayQuery maxDepth [id] query fields start = .ok (result, touched) := by
  rw [afterQuery, if_pos hverb, Results.mapError_eq_ok_iff, Results.map_eq_ok_iff]
  simp

theorem afterPath_eq_ok_iff
    {pathParams : List (String × String)} {id : String} {fields : List VisibleField}
    {start result : Json.Object} :
    types.afterPath pathParams id fields start = .ok result ↔
      ∃ touched, types.overlayQuery maxDepth [id] ⟨pathParams⟩ fields start =
        .ok (result, touched) := by
  rw [afterPath, Results.mapError_eq_ok_iff, Results.map_eq_ok_iff]
  simp

theorem afterBody_bind
    {verb : Verb} (hverb : verb.readsBody = true) {α : Type} (bytes : List UInt8)
    (fields : List VisibleField) (start : Json.Object)
    (rest : Json.Object → Except RequestError α) :
    types.afterBody verb bytes fields start >>= rest =
      ((readBody bytes).mapError RequestError.invalidBody >>= fun body =>
        match body with
        | none => .ok start >>= rest
        | some body => (types.overlayTop fields body start).mapError .invalidField >>= rest) := by
  rw [afterBody, if_pos hverb, bind_assoc]
  congr 1
  funext body
  cases body with
  | none => rfl
  | some body => rfl

/-- A request value is built in three stages. -/
theorem requestValue_eq
    {t : Ty} {id : String} {r : Record} (hrecord : types.record? t = some (id, r))
    {method : String} {verb : Verb} (hverb : Verb.ofName? method = some verb) (input : CallInput) :
    types.requestValue t method input =
      (types.afterQuery verb input.query id (types.fieldsOf id r)
        (types.zeroObject maxDepth id r) >>= fun queried =>
      types.afterBody verb input.body (types.fieldsOf id r) queried >>= fun overlaid =>
      types.afterPath input.pathParams id (types.fieldsOf id r) overlaid >>= fun target =>
      .ok (.object target)) := by
  cases hbody : verb.readsBody with
  | false =>
      simp only [requestValue, hrecord, hverb, afterQuery, afterBody, afterPath, hbody]
      cases verb.readsQuery <;> rfl
  | true =>
      simp only [afterBody_bind hbody]
      simp only [requestValue, hrecord, hverb, afterQuery, afterPath, hbody]
      cases verb.readsQuery <;> rfl

theorem requestValue_get
    {t : Ty} {id : String} {r : Record} (hrecord : types.record? t = some (id, r)) (query : Query)
    (bytes : List UInt8) (pathParams : List (String × String)) :
    types.requestValue t "GET" ⟨query, bytes, pathParams⟩ =
      (types.afterQuery .get query id (types.fieldsOf id r) (types.zeroObject maxDepth id r) >>=
        fun queried => types.afterPath pathParams id (types.fieldsOf id r) queried >>= fun target =>
          .ok (.object target)) := by
  have hverb : Verb.ofName? "GET" = some .get := rfl
  rw [requestValue_eq hrecord hverb]
  rfl

theorem requestValue_post
    {t : Ty} {id : String} {r : Record} (hrecord : types.record? t = some (id, r)) (query : Query)
    (bytes : List UInt8) (pathParams : List (String × String)) :
    types.requestValue t "POST" ⟨query, bytes, pathParams⟩ =
      (types.afterBody .post bytes (types.fieldsOf id r) (types.zeroObject maxDepth id r) >>=
        fun overlaid => types.afterPath pathParams id (types.fieldsOf id r) overlaid >>=
          fun target => .ok (.object target)) := by
  have hverb : Verb.ofName? "POST" = some .post := rfl
  rw [requestValue_eq hrecord hverb]
  rfl

/-- What holds of the zero object and is kept by every overlay holds of the object of a request. -/
theorem requestValue_invariant
    {t : Ty} {id : String} {r : Record} (hrecord : types.record? t = some (id, r))
    {P : Json.Object → Prop} (hstart : P (types.zeroObject maxDepth id r))
    (hquery : ∀ query start result touched, P start →
      types.overlayQuery maxDepth [id] query (types.fieldsOf id r) start = .ok (result, touched) →
      P result)
    (hbody : ∀ body start result, P start →
      types.overlayTop (types.fieldsOf id r) body start = .ok result → P result)
    {method : String} {input : CallInput} {value : Json}
    (h : types.requestValue t method input = .ok value) :
    ∃ members, value = .object members ∧ P members := by
  cases hverb : Verb.ofName? method with
  | none => simp [requestValue, hrecord, hverb] at h
  | some verb =>
      rw [requestValue_eq hrecord hverb] at h
      obtain ⟨queried, hqueried, h⟩ := Results.bind_eq_ok_iff.mp h
      obtain ⟨overlaid, hoverlaid, h⟩ := Results.bind_eq_ok_iff.mp h
      obtain ⟨target, htarget, h⟩ := Results.bind_eq_ok_iff.mp h
      obtain rfl := Except.ok.inj h
      have hafterQuery : P queried := by
        cases hreads : verb.readsQuery with
        | true =>
            obtain ⟨touched, hquery'⟩ := (afterQuery_eq_ok_iff hreads).mp hqueried
            exact hquery _ _ _ _ hstart hquery'
        | false =>
            rw [afterQuery, hreads, if_neg Bool.false_ne_true] at hqueried
            rwa [← Except.ok.inj hqueried]
      have hafterBody : P overlaid := by
        unfold afterBody at hoverlaid
        split at hoverlaid
        · obtain ⟨body, -, hbody'⟩ := Results.bind_eq_ok_iff.mp hoverlaid
          cases body with
          | none => rwa [← Except.ok.inj hbody']
          | some body => exact hbody _ _ _ hafterQuery (Results.mapError_eq_ok_iff.mp hbody')
        · rwa [← Except.ok.inj hoverlaid]
      obtain ⟨touched, hpath⟩ := afterPath_eq_ok_iff.mp htarget
      exact ⟨target, rfl, hquery _ _ _ _ hafterBody hpath⟩

/-- The object that a request is decoded from is complete, whatever the inputs are. -/
theorem isComplete_of_requestValue
    {t : Ty} (hapart : types.HasNamesApart t) {method : String} {input : CallInput} {value : Json}
    (h : types.requestValue t method input = .ok value) :
    ∃ id r members, types.shape t.target = .record id r ∧ value = .object members ∧
      IsComplete (types.ConformsTo maxDepth) r.markerField? (types.fieldsOf id r) members := by
  cases hrecord : types.record? t with
  | none => simp [requestValue, hrecord] at h
  | some found =>
      obtain ⟨id, r⟩ := found
      have hshape := shape_of_record? hrecord
      have hnames := hapart.record hshape
      have hfields : ∀ f ∈ types.fieldsOf id r, types.HasNamesApart f.type :=
        fun f hf => hapart.component (.field hshape hf)
      have hstart : IsComplete (types.ConformsTo maxDepth) r.markerField? (types.fieldsOf id r)
          (types.zeroObject maxDepth id r) :=
        isComplete_zeroObjectWith hnames fun f hf => conformsTo_zeroAt maxDepth (hfields f hf)
      obtain ⟨members, hvalue, hcomplete⟩ := requestValue_invariant hrecord hstart
        (fun _ _ _ _ hcomplete =>
          isComplete_overlayQuery (Nat.le_refl _) hnames hfields hcomplete)
        (fun _ _ _ hcomplete => isComplete_overlayTop hnames hfields hcomplete) h
      exact ⟨id, r, members, hshape, hvalue, hcomplete⟩

/-- The value of a request conforms to the request type, whatever the method and the inputs are, as
long as it nests no deeper than zero values do.  The names of fields have to be apart in all records
that the type reaches. -/
theorem requestValue_conforms
    {t : Ty} (hapart : types.HasNamesApart t) {method : String} {input : CallInput} {value : Json}
    (h : types.requestValue t method input = .ok value) (hdepth : value.depth ≤ maxDepth) :
    types.Conforms t.target value := by
  obtain ⟨id, r, members, hshape, rfl, hcomplete⟩ := isComplete_of_requestValue hapart h
  have hconforms : types.ConformsTo (maxDepth + 1) t.target (.object members) := by
    refine Admits.record ?_ hcomplete.toIsRecord hcomplete.values
    rwa [Ty.target_target]
  exact hconforms.conforms (by omega)

/-! ## A listing with an optional page -/

/-- A declared field without attributes. -/
def plainField (name : String) (type : Ty) (flatten : Bool) : Field :=
  ⟨name, name, type, "", none, flatten, false⟩

/-- A request for the items with some tags, all of them or a page. -/
def listing : Record where
  name := "Listing"
  fields := [⟨"route", "route", .marker, "", none, false, true⟩,
    plainField "tags" (.sequence .list (.scalar .string)) false,
    plainField "page" (.option (.named "Page")) true]
  doc := none

/-- The types of a listing. -/
def listingTypes : TypeTable :=
  ⟨[("Listing", .record listing), ("Page", .record ⟨"Page",
    [plainField "limit" (.scalar (.uint .w8)) false,
      plainField "offset" (.scalar (.uint .w8)) false], none⟩)]⟩

theorem listing_hasNamesApart : listingTypes.HasNamesApart (.named "Listing") := by
  intro u hu id r ht
  have hreached : u ∈ [.named "Listing", .sequence .list (.scalar .string), .scalar .string,
      .scalar (.uint .w8)] :=
    mem_of_reached hu (by decide) (by decide +kernel)
  have hshape : listingTypes.shape (Ty.named "Listing").target = .record "Listing" listing := by
    simp [listingTypes, shape, find?, Ty.target]
  simp only [List.mem_cons, List.not_mem_nil, or_false] at hreached
  rcases hreached with rfl | rfl | rfl | rfl
  · obtain ⟨rfl, rfl⟩ := Shape.record.inj (hshape.symm.trans ht)
    exact ⟨by decide +kernel, by decide +kernel⟩
  · cases ht
  · cases ht
  · cases ht

/-- A page that is given a limit only gets an offset too. -/
theorem requestValue_conforms_listing :
    ∃ value, listingTypes.requestValue (.named "Listing") "GET"
        ⟨⟨[("tags", "new"), ("limit", "20")]⟩, [], []⟩ = .ok value ∧
      value.compact = "\x7b\"limit\":20,\"offset\":0,\"route\":\x7b\x7d,\"tags\":[\"new\"]\x7d" ∧
      listingTypes.Conforms (.named "Listing") value := by
  have hcompact : (listingTypes.requestValue (.named "Listing") "GET"
      ⟨⟨[("tags", "new"), ("limit", "20")]⟩, [], []⟩).toOption.map (fun v => (v.compact, v.depth)) =
      some ("\x7b\"limit\":20,\"offset\":0,\"route\":\x7b\x7d,\"tags\":[\"new\"]\x7d", 2) := by
    decide +kernel
  cases hvalue : listingTypes.requestValue (.named "Listing") "GET"
      ⟨⟨[("tags", "new"), ("limit", "20")]⟩, [], []⟩ with
  | error e => simp [hvalue, Except.toOption] at hcompact
  | ok value =>
      obtain ⟨htext, hdepth⟩ : value.compact = _ ∧ value.depth = 2 := by
        simpa [hvalue, Except.toOption] using hcompact
      have hle : value.depth ≤ maxDepth := by
        rw [hdepth]
        decide
      exact ⟨value, rfl, htext, requestValue_conforms listing_hasNamesApart hvalue hle⟩

end TypeTable
end TypedRoutes
