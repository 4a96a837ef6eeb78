import TypedRoutes.Proofs.Acceptance
import TypedRoutes.Proofs.CallStages
import TypedRoutes.Proofs.DocumentedParameters

/-!
# Required parameters are enforced

A field that neither the query nor the path addresses is left at its zero value, in whatever record
it stands.  If the field requires a value and its zero value is empty, then validation notices, as
long as the record itself stands in the request value.  So no GET without a required parameter comes
to its handler, except where the zero value of the field counts as a value or where a record around
the field is left out.
-/

namespace TypedRoutes

namespace TypeTable

variable {types : TypeTable} {room : Nat} {path : List String} {fields around : List VisibleField}
  {room' : Nat} {fields' : List VisibleField} {query : Query} {f : VisibleField} {id : String}
  {r : Record} {x y : Json.Object}

/-! ## Fields that are left alone -/

/-- A field has no value or its zero value in the object of its record, where the missing objects
of the records around it count as zero objects. -/
def LeftAlone (types : TypeTable) (f : VisibleField) : Nat → List VisibleField → Json.Object → Prop
  | room, [], x =>
    x.find? f.wireName = none ∨ x.find? f.wireName = some (types.zeroAt room f.type)
  | 0, _ :: _, _ => True
  | room + 1, g :: around, x => ∀ id r, types.record? g.type = some (id, r) →
    LeftAlone types f room around (types.nestedObject room x g id r)

/-- The zero value of a field that is no record is the same at every level. -/
theorem zeroAt_eq_zero
    (hleaf : types.record? f.type = none) (room : Nat) :
    types.zeroAt room f.type = types.zero f.type := by
  have hshape : ∀ id r, types.shape f.type ≠ .record id r := by
    intro id r hrecord
    cases ht : f.type with
    | option inner => simp [ht, shape] at hrecord
    | _ =>
        apply shape_ne_record hleaf id r
        rw [← hrecord, ht]
        rfl
  rw [zero, zeroAt, zeroAt]
  generalize types.shape f.type = shape at hshape
  cases shape with
  | record id r => exact absurd rfl (hshape id r)
  | _ => rfl

theorem leftAlone_of_isBlank
    (hapart : types.EntersApart room path (types.fieldsOf id r)) (hx : types.IsBlank room id r x)
    (hentered : types.Enters room path (types.fieldsOf id r) around room' fields')
    (hf : f ∈ fields') (hgroup : f.group = none) : types.LeftAlone f room around x := by
  generalize hfields : types.fieldsOf id r = fields at hentered
  induction hentered generalizing id r x with
  | @here room path fields =>
      subst hfields
      have hstart : x.find? f.wireName = none ∨
          x.find? f.wireName = some (types.zeroAt room f.type) := by
        rcases hx with rfl | rfl
        · right
          rw [find?_zeroObject hapart.nodup hf, hgroup]
          rfl
        · exact .inl rfl
      cases room <;> exact hstart
  | nested hg hrecord hpath _ ih =>
      subst hfields
      intro id' r' hrecord'
      obtain ⟨rfl, rfl⟩ := record?_unique hrecord' hrecord
      exact ih (hapart.nested hg hrecord hpath) (hx.nestedObject hapart.nodup hg hrecord) hf rfl

/-- A query that does not address a field leaves it alone. -/
theorem LeftAlone.overlayQuery
    (h : types.LeftAlone f room around x) (hapart : types.EntersApart room path fields)
    (hentered : types.Enters room path fields around room' fields') (hf : f ∈ fields')
    (hleaf : types.record? f.type = none) (hgroup : f.group = none)
    (hunread : types.leafValue? room' query f = .ok none) {touched : Bool}
    (hy : types.overlayQuery room path query fields x = .ok (y, touched)) :
    types.LeftAlone f room around y := by
  induction hentered generalizing x y touched with
  | @here room path fields =>
      obtain ⟨given, hgiven, -, hoverlaid⟩ := exists_overlaid_of_overlayQuery hapart.nodup hy
      have hnone := hgiven f hf
      rw [fieldValue?_of_leaf hleaf, hunread] at hnone
      have hfind : y.find? f.wireName = x.find? f.wireName := by
        rw [hoverlaid.field f hf, ← Except.ok.inj hnone, groupGiven, hgroup]
        simp
      cases room <;> simpa only [LeftAlone, hfind] using h
  | nested hg hrecord hpath _ ih =>
      obtain ⟨touched', hnested⟩ :=
        exists_overlayQuery_nestedObject hapart.nodup hy hg hrecord hpath
      intro id' r' hrecord'
      obtain ⟨rfl, rfl⟩ := record?_unique hrecord' hrecord
      exact ih (h _ _ hrecord) (hapart.nested hg hrecord hpath) hf hunread hnested

/-- A field that is left alone has no value or its zero value in the object of its record, if that
object is there. -/
theorem LeftAlone.find?
    (h : types.LeftAlone f room around x)
    (hentered : types.Enters room path fields around room' fields')
    (hleaf : types.record? f.type = none) {members : Json.Object}
    (hat : (Json.object x).at? (around.map VisibleField.wireName) = some (.object members)) :
    members.find? f.wireName = none ∨ members.find? f.wireName = some (types.zero f.type) := by
  induction hentered generalizing x with
  | @here room path fields =>
      obtain rfl : x = members := by simpa [Json.at?] using hat
      rw [← zeroAt_eq_zero hleaf room]
      cases room <;> exact h
  | @nested room path fields g id r around room' fields' hg hrecord hpath _ ih =>
      obtain ⟨nested, hfind, hat⟩ := Json.exists_of_at?_cons hat
      have hnested := h id r hrecord
      rw [nestedObject, hfind] at hnested
      exact ih hnested hat

/-! ## Requests without a required parameter -/

/-- If a required field has an empty zero value, then validation does not accept the value of a GET
that does not address it, unless the record of the field is left out of that value. -/
theorem validate_ne_ok_of_unaddressed
    {t : Ty} (hrecord : types.record? t = some (id, r))
    (hapart : types.EntersApart maxDepth [id] (types.fieldsOf id r))
    (hinput : types.IsInput id r around room f) (hrequired : f.isRequired = true)
    (hempty : (types.zero f.type).isEmptyValue = true)
    (hquery : query.pairsOf f.lookupName = .empty) {pathParams : List (String × String)}
    (hpath : Query.pairsOf ⟨pathParams⟩ f.lookupName = .empty) {body : List UInt8} {value : Json}
    (hvalue : types.requestValue t "GET" ⟨query, body, pathParams⟩ = .ok value)
    {members : Json.Object}
    (hat : value.at? (around.map VisibleField.wireName) = some (.object members)) :
    types.validate t value ≠ .ok () := by
  intro hvalid
  obtain ⟨queried, _, target, _, rfl, hoverlay, hoverlay'⟩ :=
    exists_overlayQuery_of_requestValue_get hrecord hvalue
  have hleaf := hinput.record?_eq_none
  obtain ⟨fields', hentered, hf, -⟩ := hinput
  have hgroup := VisibleField.group_eq_none_of_isRequired hrequired
  -- Neither the query nor the path addresses the field, so it still is as in the zero object.
  have hzero : types.LeftAlone f maxDepth around (types.zeroObject maxDepth id r) :=
    leftAlone_of_isBlank hapart (.inl rfl) hentered hf hgroup
  have hqueried := hzero.overlayQuery hapart hentered hf hleaf hgroup
    (leafValue?_of_pairsOf_eq_empty hquery room) hoverlay
  have htarget := hqueried.overlayQuery hapart hentered hf hleaf hgroup
    (leafValue?_of_pairsOf_eq_empty hpath room) hoverlay'
  have hfields : types.fields t = types.fieldsOf id r := by rw [fields, hrecord]
  have hlength : around.length ≤ maxDepth := by
    have hadd := hentered.length_add
    omega
  obtain ⟨u, place, hu, haccepted⟩ := hentered.exists_validateAt hfields hlength hvalid hat
  have hgiven := isEmptyValue_of_validateAt haccepted (hu ▸ hf) hrequired
  rcases htarget.find? hentered hleaf hat with hmissing | hfind
  · rw [hmissing] at hgiven
    cases hgiven
  · rw [hfind, Option.getD_some, hempty] at hgiven
    cases hgiven

/-- A parameter is listed for a field that the query of a request type reads. -/
def Documents (types : TypeTable) (t : Ty) (pathVars : List String) (p : Parameter)
    (around : List VisibleField) (f : VisibleField) : Prop :=
  ∃ id r room, types.record? t = some (id, r) ∧ types.IsInput id r around room f ∧
    types.parameterOf pathVars f = p

/-- In all records that the query of a request type enters, the names of fields are apart. -/
def ReadsApart (types : TypeTable) (t : Ty) : Prop :=
  ∀ id r, types.record? t = some (id, r) →
    types.EntersApart maxDepth [id] (types.fieldsOf id r)

theorem exists_documents
    {t : Ty} {pathVars : List String} {p : Parameter} (hp : p ∈ types.parameters t pathVars)
    (hplace : p.place = .query) : ∃ around f, types.Documents t pathVars p around f := by
  rcases exists_isInput_or_variable hp with
    ⟨id, r, around, room, f, hrecord, hinput, -, rfl⟩ | ⟨name, -, rfl⟩
  · exact ⟨around, f, id, r, room, hrecord, hinput, rfl⟩
  · cases hplace

theorem isRequired_of_parameterOf
    {pathVars : List String} (hplace : (types.parameterOf pathVars f).place = .query)
    (hrequired : (types.parameterOf pathVars f).required = true) : f.isRequired = true := by
  by_cases hvar : f.lookupName ∈ pathVars
  · simp [parameterOf, hvar] at hplace
  · simpa [parameterOf, hvar] using hrequired

/-- A finite check that the names of fields are apart. -/
theorem readsApart_of_nodup
    {t : Ty} (hrecord : types.record? t = some (id, r))
    (h : ∀ fields ∈ types.enteredFields maxDepth [id] (types.fieldsOf id r),
      (fields.map VisibleField.wireName).Nodup) : types.ReadsApart t := by
  intro id' r' hrecord' around room fields hentered
  obtain ⟨rfl, rfl⟩ := record?_unique hrecord' hrecord
  exact h fields hentered.mem_enteredFields

end TypeTable

namespace Dispatcher

variable {σ : Type} {d : Dispatcher σ} {calls : List (Registration (Handler σ))} {request : Call}
  {r : RouteMatch (Handler σ)}

theorem Refused.code_ne_ok {code : ErrorCode} (h : d.Refused request code) : code ≠ .ok := by
  cases h <;> exact nofun

theorem app_dispatch_of_early
    {s : DispatchState σ} {response : Response}
    (hearly : (Middleware.beforeAll (d.contextIn request s) s.middlewares).2 = some response) :
    (d.dispatch request s).2.app = s.app := by
  rw [contextIn] at hearly
  rw [dispatch]
  simp only [hearly]

/-- A call that is not ready leaves the application as it is and is answered with a failure. -/
theorem dispatch_of_not_ready
    (hbuild : Router.build (Registry.run d.types calls) = .ok d.router)
    (hready : ∀ r action, ¬d.Ready request r action) (s : DispatchState σ) :
    (d.dispatch request s).2.app = s.app ∧
      ((Middleware.beforeAll (d.contextIn request s) s.middlewares).2 = none →
        (∀ m ∈ s.middlewares, m.KeepsBody) →
        ∃ code, code ≠ .ok ∧ (d.dispatch request s).1.Reports code .null) := by
  cases hearly : (Middleware.beforeAll (d.contextIn request s) s.middlewares).2 with
  | some response => exact ⟨app_dispatch_of_early hearly, nofun⟩
  | none =>
      obtain ⟨ending, hunique, hreports, hending⟩ := exists_ending hbuild request s
      cases (hunique ending).mpr rfl with
      | refused h =>
          refine ⟨(dispatch_eq_of_early hearly).2.trans hending, fun _ hkeeps => ?_⟩
          exact ⟨_, h.code_ne_ok, reports_dispatch hearly hkeeps hreports⟩
      | failed h | answered h => exact absurd h (hready _ _)

/-- Required parameters are enforced where validation can see that they are missing.  Let a GET be
registered, and let a call match its route without any pair of a required query parameter, in the
query or in the path.  The parameter is listed for some field, and if the zero value of such a field
is empty and the records around it stand in the request value, then the call does not come to the
handler and is answered with a failure. -/
theorem required_parameters_enforced
    (hbuild : Router.build (Registry.run d.types calls) = .ok d.router)
    (hvalidate : d.validate = d.types.validate)
    (hroute : d.router.route request.method request.path = some r)
    (hget : r.endpoint.method = .get) (hapart : d.types.ReadsApart r.endpoint.request)
    {p : Parameter} (hp : p ∈ r.endpoint.parameters) (hplace : p.place = .query)
    (hrequired : p.required = true) (hquery : request.query.pairsOf p.name = .empty)
    (hpath : Query.pairsOf ⟨r.pathParams⟩ p.name = .empty) :
    (∃ around f, d.types.Documents r.endpoint.request r.endpoint.pathVars p around f) ∧
      ∀ around f, d.types.Documents r.endpoint.request r.endpoint.pathVars p around f →
        (d.types.zero f.type).isEmptyValue = true →
        (∀ value, d.valueOf request r = .ok value → ∃ members : Json.Object,
          value.at? (around.map VisibleField.wireName) = some (.object members)) →
        (∀ action, ¬d.Ready request r action) ∧
        ∀ s : DispatchState σ, (d.dispatch request s).2.app = s.app ∧
          ((Middleware.beforeAll (d.contextIn request s) s.middlewares).2 = none →
            (∀ m ∈ s.middlewares, m.KeepsBody) →
            ∃ code, code ≠ .ok ∧ (d.dispatch request s).1.Reports code .null) := by
  obtain ⟨-, ⟨hmethod, -⟩, _, _, op, hdeclares⟩ := Router.declares_of_route hbuild hroute
  constructor
  · rw [hdeclares.parameters, ← hdeclares.request] at hp
    exact TypeTable.exists_documents hp hplace
  · rintro around f ⟨id, record, room, hrecord, hinput, rfl⟩ hempty hpresent
    have hready : ∀ action, ¬d.Ready request r action := by
      intro action hready
      obtain ⟨value, hvalue, -, hvalid⟩ := hready.accepted
      obtain ⟨members, hat⟩ := hpresent value hvalue
      have hname : request.method = "GET" := by rw [← hmethod, hget]; rfl
      rw [valueOf, hname] at hvalue
      rw [hvalidate] at hvalid
      exact TypeTable.validate_ne_ok_of_unaddressed hrecord (hapart id record hrecord) hinput
        (TypeTable.isRequired_of_parameterOf hplace hrequired) hempty hquery hpath hvalue hat hvalid
    refine ⟨hready, dispatch_of_not_ready hbuild ?_⟩
    intro r' action h
    obtain rfl := Option.some.inj (h.route.symm.trans hroute)
    exact hready action h

/-! ## A list of items with a filter -/

/-- A required field. -/
def requiredField (name : String) (type : Ty) : Field :=
  ⟨name, name, type, "v:\"required\"", none, false, false⟩

/-- The request type of a GET under a path. -/
def listRequest (path : String) (fields : List Field) : Record where
  name := "Items"
  fields :=
    ⟨"meta", "meta", .marker, "path:\"" ++ path ++ "\" method:\"GET\"", none, false, true⟩ :: fields
  doc := none

/-- A filter by name. -/
def nameFilter : Record :=
  ⟨"Filter", [requiredField "name" (.scalar .string)], none⟩

/-- The types of a list of items with a filter of some type. -/
def filterTypes (filter : Ty) : TypeTable :=
  ⟨[("Items", .record (listRequest "/items" [TypeTable.plainField "filter" filter false])),
    ("Filter", .record nameFilter)]⟩

/-- The registration of the operation that lists the items; its handler notes every run. -/
def listCall : Registration (Handler (List String)) :=
  ⟨"/api", "Items", [⟨"List", .named "Items", .unit,
    ⟨fun _ => .ok fun _ _ log => (.answered .null [], log ++ ["Items.List"])⟩⟩]⟩

/-- A call of the operation that lists the items. -/
def listItems (target : String) : Call :=
  Call.ofTarget "GET" target [] [] ⟨0⟩

/-- The answer to this call and the state afterwards, where the rules of the types are checked. -/
def listed (types : TypeTable) (router : Router (Handler (List String)))
    (middlewares : List Middleware) (target : String) :
    Response × DispatchState (List String) :=
  dispatch ⟨types, router, types.validate⟩ (listItems target) ⟨[], middlewares, 0⟩

theorem exists_routed
    {H : Type} (registry : Registry H) (request : Call) (check : Router H → RouteMatch H → Bool)
    (h : ((Router.build registry).toOption.any fun router =>
      (router.route request.method request.path).any (check router)) = true) :
    ∃ router r, Router.build registry = .ok router ∧
      router.route request.method request.path = some r ∧ check router r = true := by
  cases hbuild : Router.build registry with
  | error fault => simp [hbuild, Except.toOption] at h
  | ok router =>
      cases hroute : router.route request.method request.path with
      | none => simp [hbuild, hroute, Except.toOption] at h
      | some r =>
          refine ⟨router, r, rfl, hroute, ?_⟩
          simpa [hbuild, hroute, Except.toOption] using h

/-- The name of the filter is required, and a list without it is refused. -/
theorem required_parameters_enforced_filter :
    ∃ router, Router.build (Registry.run (filterTypes (.named "Filter")) [listCall]) = .ok router ∧
      (listed (filterTypes (.named "Filter")) router [.newMetrics] "/api/items").2.app = [] ∧
      ∃ code, code ≠ .ok ∧
        (listed (filterTypes (.named "Filter")) router [.newMetrics] "/api/items").1.Reports
          code .null := by
  let types := filterTypes (.named "Filter")
  let f := TypeTable.visibleField ⟨false, none⟩ (requiredField "name" (.scalar .string))
  let g := TypeTable.visibleField ⟨false, none⟩
    (TypeTable.plainField "filter" (.named "Filter") false)
  obtain ⟨router, r, hbuild, hroute, hr⟩ := exists_routed
    (Registry.run types [listCall]) (listItems "/api/items") (fun _ r =>
      r.endpoint.method = .get ∧ r.endpoint.request = .named "Items" ∧
        r.endpoint.pathVars = [] ∧ r.endpoint.parameters = [types.parameterOf [] f] ∧
        r.pathParams = []) (by decide +kernel)
  obtain ⟨hmethod, hrequest, hvars, hparameters, hpathParams⟩ := of_decide_eq_true hr
  let d : Dispatcher (List String) := ⟨types, router, types.validate⟩
  have hapart : types.ReadsApart r.endpoint.request := by
    rw [hrequest]
    exact TypeTable.readsApart_of_nodup rfl (by decide +kernel)
  have hdocuments : types.Documents r.endpoint.request r.endpoint.pathVars
      (types.parameterOf [] f) [g] f := by
    rw [hrequest, hvars]
    refine ⟨_, _, _, rfl, ⟨_, .nested ?_ rfl ?_ .here, ?_, rfl⟩, rfl⟩
    all_goals decide +kernel
  have hempty : (types.zero f.type).isEmptyValue = true := by decide +kernel
  have hpresent : ∀ value, d.valueOf (listItems "/api/items") r = .ok value →
      ∃ members : Json.Object, value.at? ["filter"] = some (.object members) := by
    let request := listItems "/api/items"
    have hcomputed : (types.requestValue (.named "Items") request.method
        ⟨request.query, request.body, []⟩).toOption.map
          (fun value => (value.at? ["filter", "name"]).isSome) = some true := by
      decide +kernel
    obtain ⟨value, hvalue, hsome⟩ := Results.exists_of_toOption_map hcomputed
    intro value' hvalue'
    rw [valueOf, hrequest, hpathParams] at hvalue'
    obtain rfl : value = value' := Except.ok.inj (hvalue.symm.trans hvalue')
    obtain ⟨name, hname⟩ := Option.isSome_iff_exists.mp hsome
    obtain ⟨filter, hfilter, hname⟩ := Option.bind_eq_some_iff.mp hname
    obtain ⟨inner, hinner, -⟩ := Option.bind_eq_some_iff.mp hname
    obtain ⟨members, rfl⟩ := Json.exists_of_member? hinner
    exact ⟨members, Option.bind_eq_some_iff.mpr ⟨.object members, hfilter, rfl⟩⟩
  have hpath : Query.pairsOf ⟨r.pathParams⟩ (types.parameterOf [] f).name = .empty := by
    rw [hpathParams]
    decide +kernel
  obtain ⟨-, henforced⟩ := @required_parameters_enforced _ d _ (listItems "/api/items") r hbuild rfl
    hroute hmethod hapart (types.parameterOf [] f) (by simp [hparameters]) (by decide +kernel)
    (by decide +kernel) (by decide +kernel) hpath
  obtain ⟨-, hdispatch⟩ := henforced [g] f hdocuments hempty hpresent
  obtain ⟨happ, hreports⟩ := hdispatch ⟨[], [.newMetrics], 0⟩
  refine ⟨router, hbuild, happ, hreports rfl ?_⟩
  simp [Middleware.newMetrics, Middleware.KeepsBody]

/-! ## Lists that are answered without a required parameter -/

/-- A call to list the items matches the route of a GET, and its query has no pair of a parameter
that is listed as required.  It is answered with a success all the same, after some handlers were
run. -/
def AnswersWithout (types : TypeTable) (middlewares : List Middleware) (target name : String)
    (runs : List String) : Prop :=
  ∃ router r p, Router.build (Registry.run types [listCall]) = .ok router ∧
    router.route (listItems target).method (listItems target).path = some r ∧
    r.endpoint.method = .get ∧ p ∈ r.endpoint.parameters ∧ p.name = name ∧ p.place = .query ∧
    p.required = true ∧ (listItems target).query.pairsOf name = .empty ∧
    (listed types router middlewares target).2.app = runs ∧
    ∃ data, (listed types router middlewares target).1.Reports .ok data

/-- Without middleware, an answer with the status of a success reports one. -/
theorem reports_ok_of_status
    (hbuild : Router.build (Registry.run d.types calls) = .ok d.router) {app : σ} {n : UInt64}
    (hstatus : (d.dispatch request ⟨app, [], n⟩).1.status = 200) :
    ∃ data, (d.dispatch request ⟨app, [], n⟩).1.Reports .ok data := by
  obtain ⟨ending, -, hreports, -⟩ := exists_ending hbuild request ⟨app, [], n⟩
  have hreports := reports_dispatch (s := ⟨app, [], n⟩) rfl (by simp) hreports
  have hcode : ending.code = .ok := by
    have hclass := hreports.status.symm.trans hstatus
    cases hcode : ending.code with
    | ok => rfl
    | _ => simp [hcode, ErrorCode.status] at hclass
  exact ⟨ending.data, hcode ▸ hreports⟩

theorem answersWithout_of_computed
    {types : TypeTable} {middlewares : List Middleware} {target name : String}
    {runs : List String}
    (h : ((Router.build (Registry.run types [listCall])).toOption.any fun router =>
      (router.route (listItems target).method (listItems target).path).any fun r =>
        r.endpoint.method = .get ∧
        (∃ p ∈ r.endpoint.parameters, p.name = name ∧ p.place = .query ∧ p.required = true) ∧
        (listItems target).query.pairsOf name = .empty ∧
        (listed types router middlewares target).2.app = runs ∧
        (listed types router middlewares target).1.status = 200) = true)
    (hreports : ∀ router, Router.build (Registry.run types [listCall]) = .ok router →
      (listed types router middlewares target).1.status = 200 →
      ∃ data, (listed types router middlewares target).1.Reports .ok data) :
    AnswersWithout types middlewares target name runs := by
  obtain ⟨router, r, hbuild, hroute, hcheck⟩ := exists_routed _ _ _ h
  obtain ⟨hmethod, ⟨p, hp, hname, hplace, hrequired⟩, hquery, hruns, hstatus⟩ :=
    of_decide_eq_true hcheck
  exact ⟨router, r, p, hbuild, hroute, hmethod, hp, hname, hplace, hrequired, hquery, hruns,
    hreports router hbuild hstatus⟩

/-- A required parameter is not enforced if the zero value of its field counts as a value, if an
optional record around the field is left out, if a variable of the path is written as an element of
the parameter, or if another field has the same name in JSON.  Middleware may answer with a success
in place of the handler, and may make a success of a failure. -/
theorem answers_without_required_parameters :
    AnswersWithout ⟨[("Items", .record (listRequest "/items"
        [requiredField "limit" (.scalar (.uint .w32))]))]⟩ [] "/api/items" "limit"
        ["Items.List"] ∧
      AnswersWithout (filterTypes (.option (.named "Filter"))) [] "/api/items" "name"
        ["Items.List"] ∧
      AnswersWithout ⟨[("Items", .record (listRequest "/items/\x7bids[]\x7d"
        [requiredField "ids" (.sequence .list (.scalar .string))]))]⟩ [] "/api/items/7" "ids"
        ["Items.List"] ∧
      AnswersWithout ⟨[("Items", .record (listRequest "/items"
        [⟨"from", "start", .scalar .string, "p:\"from\" v:\"required\"", none, false, false⟩,
          ⟨"since", "start", .option (.scalar .string), "p:\"since\"", none, false, false⟩]))]⟩
        [] "/api/items?since=1" "from" ["Items.List"] ∧
      AnswersWithout (filterTypes (.named "Filter"))
        [.hooks (fun _ => some (.success .null)) fun _ response => response]
        "/api/items" "name" [] ∧
      AnswersWithout (filterTypes (.named "Filter"))
        [.hooks (fun _ => none) fun _ _ => .success .null] "/api/items" "name" [] := by
  have hplain : ∀ types target router,
      Router.build (Registry.run types [listCall]) = .ok router →
      (listed types router [] target).1.status = 200 →
      ∃ data, (listed types router [] target).1.Reports .ok data :=
    fun types _ router hbuild =>
      reports_ok_of_status (d := ⟨types, router, types.validate⟩) hbuild
  refine ⟨answersWithout_of_computed ?_ (hplain _ _), answersWithout_of_computed ?_ (hplain _ _),
    answersWithout_of_computed ?_ (hplain _ _), answersWithout_of_computed ?_ (hplain _ _),
    answersWithout_of_computed ?_ fun _ _ _ => ⟨.null, (Response.reports_success _).of_eq rfl rfl⟩,
    answersWithout_of_computed ?_ fun _ _ _ => ⟨.null, (Response.reports_success _).of_eq rfl rfl⟩⟩
  all_goals decide +kernel

end Dispatcher
end TypedRoutes
