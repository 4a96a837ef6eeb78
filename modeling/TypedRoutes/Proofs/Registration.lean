import Mathlib.Data.List.Induction
import Mathlib.Data.List.Nodup
import TypedRoutes.Proofs.RouteChoice

/-!
# Runs of registrations

A registry is filled by calls, each of which adds a controller or is refused.  The module states
what one call adds and when it succeeds, and derives what holds after any run of calls: endpoints
have distinct names and distinct routes, and each is what the annotations of its request type say.
-/

namespace TypedRoutes

/-! ## Annotations of a request type -/

theorem Verb.ofName?_eq_some_iff
    {name : String} {verb : Verb} : Verb.ofName? name = some verb ↔ name = verb.name := by
  constructor
  · intro h
    unfold Verb.ofName? at h
    split at h <;> simp only [Option.some.injEq, reduceCtorEq] at h
    all_goals
      subst h
      rfl
  · rintro rfl
    cases verb <;> rfl

namespace TypeTable

/-- The value of a key in the attributes that declare the route of a type. -/
def annotation? (types : TypeTable) (t : Ty) (key : String) : Option String := do
  let (_, r) ← types.record? t
  let marker ← r.markerField?
  let attributes ← (Attributes.read marker.attributeText).toOption
  attributes.get? key

end TypeTable

namespace RouteMeta

theorem requireKey_eq_ok_iff
    {typeName key value : String} {attributes : Attributes} :
    requireKey typeName attributes key = .ok value ↔
      ∃ raw, attributes.get? key = some raw ∧ Text.isBlankText raw = false ∧
        value = Text.trim raw := by
  cases hraw : attributes.get? key with
  | none => simp [requireKey, hraw]
  | some raw =>
      cases hblank : Text.isBlankText raw with
      | true => simp [requireKey, hraw, hblank]
      | false =>
          have hcomm : Text.trim raw = value ↔ value = Text.trim raw := eq_comm
          simp [requireKey, hraw, hblank, hcomm]

/-- The blocks of a record: that of its only marker, and those of the other fields that have one. -/
structure Blocks (r : Record) (own : Attributes) (others : List Attributes) : Prop where
  own : ∃ marker, r.fields.filter (·.marker) = [marker] ∧
    Attributes.read marker.attributeText = .ok own
  others : List.Forall₂ (fun f attributes => Attributes.read f.attributeText = .ok attributes)
    (r.fields.filter fun f => !f.marker && !f.attributeText.isEmpty) others

/-- The metadata is what the blocks of a record declare. -/
structure DeclaredBy (info : RouteMeta) (own : Attributes) (others : List Attributes) : Prop where
  path : ∃ raw, own.get? "path" = some raw ∧ Text.isBlankText raw = false ∧
    info.path = Text.trim raw
  method : ∃ raw, own.get? "method" = some raw ∧ Text.isBlankText raw = false ∧
    info.method = Text.upperAscii (Text.trim raw)
  summary : info.summary = (own.get? "summary").getD ""
  description : info.description = ((own.get? "description").or (own.get? "dc")).getD ""
  tags : info.tags = (own.get? "tags").getD ""
  extra : info.extra = addExtra markerKeys (others.foldl (addExtra fieldKeys) []) own

/-- A record has metadata exactly if its blocks can be read and declare it. -/
theorem ofRecord_eq_ok_iff
    {r : Record} {info : RouteMeta} :
    ofRecord r = .ok info ↔ ∃ own others, Blocks r own others ∧ info.DeclaredBy own others := by
  constructor
  · intro h
    unfold ofRecord at h
    split at h
    · cases h
    · rename_i marker hmarkers
      obtain ⟨own, hown, h⟩ := Results.bind_eq_ok_iff.mp h
      obtain ⟨path, hpath, h⟩ := Results.bind_eq_ok_iff.mp h
      obtain ⟨method, hmethod, h⟩ := Results.bind_eq_ok_iff.mp h
      obtain ⟨others, hothers, h⟩ := Results.bind_eq_ok_iff.mp h
      obtain ⟨rawPath, hrawPath, hpathBlank, rfl⟩ := requireKey_eq_ok_iff.mp hpath
      obtain ⟨rawMethod, hrawMethod, hmethodBlank, rfl⟩ := requireKey_eq_ok_iff.mp hmethod
      obtain rfl := Except.ok.inj h
      refine ⟨own, others, ⟨⟨marker, hmarkers, Results.mapError_eq_ok_iff.mp hown⟩, ?_⟩,
        ⟨⟨rawPath, hrawPath, hpathBlank, rfl⟩, ⟨rawMethod, hrawMethod, hmethodBlank, rfl⟩,
          rfl, rfl, rfl, rfl⟩⟩
      exact (Results.mapM_eq_ok_iff.mp hothers).imp fun _ _ => Results.mapError_eq_ok_iff.mp
    · cases h
  · rintro ⟨own, others, ⟨⟨marker, hmarkers, hown⟩, hothers⟩,
      ⟨rawPath, hrawPath, hpathBlank, hpath⟩, ⟨rawMethod, hrawMethod, hmethodBlank, hmethod⟩,
      hsummary, hdescription, htags, hextra⟩
    have hread : readField r.name marker = .ok own := Results.mapError_eq_ok_iff.mpr hown
    have hreads : (r.fields.filter fun f => !f.marker && !f.attributeText.isEmpty).mapM
        (readField r.name) = .ok others :=
      Results.mapM_eq_ok_iff.mpr (hothers.imp fun _ _ => Results.mapError_eq_ok_iff.mpr)
    rw [ofRecord, hmarkers]
    refine Results.bind_eq_ok_iff.mpr ⟨own, hread, Results.bind_eq_ok_iff.mpr ⟨Text.trim rawPath,
      requireKey_eq_ok_iff.mpr ⟨rawPath, hrawPath, hpathBlank, rfl⟩,
      Results.bind_eq_ok_iff.mpr ⟨Text.trim rawMethod,
        requireKey_eq_ok_iff.mpr ⟨rawMethod, hrawMethod, hmethodBlank, rfl⟩,
        Results.bind_eq_ok_iff.mpr ⟨others, hreads, ?_⟩⟩⟩⟩
    obtain ⟨path, method, summary, description, tags, extra⟩ := info
    simp_all

theorem Blocks.exists_markerField?
    {r : Record} {own : Attributes} {others : List Attributes} (h : Blocks r own others) :
    ∃ marker, r.markerField? = some marker ∧ Attributes.read marker.attributeText = .ok own := by
  obtain ⟨marker, hmarkers, hown⟩ := h.own
  refine ⟨marker, ?_, hown⟩
  rw [Record.markerField?, ← List.head?_filter, hmarkers]
  rfl

end RouteMeta

namespace TypeTable

/-- A type with metadata is a record whose blocks declare it, and the annotations of the type are
the attributes of its marker. -/
theorem exists_blocks_of_routeMeta
    {types : TypeTable} {t : Ty} {info : RouteMeta} (h : types.routeMeta t = .ok info) :
    ∃ id r own others, types.record? t = some (id, r) ∧ RouteMeta.Blocks r own others ∧
      info.DeclaredBy own others ∧ ∀ key, types.annotation? t key = own.get? key := by
  cases hrecord : types.record? t with
  | none => simp [routeMeta, hrecord] at h
  | some idRecord =>
      obtain ⟨id, r⟩ := idRecord
      have hof : RouteMeta.ofRecord r = .ok info := by simpa [routeMeta, hrecord] using h
      obtain ⟨own, others, hblocks, hdeclared⟩ := RouteMeta.ofRecord_eq_ok_iff.mp hof
      obtain ⟨marker, hmarker, hread⟩ := hblocks.exists_markerField?
      refine ⟨id, r, own, others, rfl, hblocks, hdeclared, ?_⟩
      intro key
      simp [annotation?, hrecord, hmarker, hread, Except.toOption]

theorem annotations_of_routeMeta
    {types : TypeTable} {t : Ty} {info : RouteMeta} (h : types.routeMeta t = .ok info) :
    ∃ path method, types.annotation? t "path" = some path ∧ info.path = Text.trim path ∧
      types.annotation? t "method" = some method ∧
      info.method = Text.upperAscii (Text.trim method) := by
  obtain ⟨_, _, own, _, -, -, hdeclared, hkey⟩ := exists_blocks_of_routeMeta h
  obtain ⟨path, hpath, -, hinfoPath⟩ := hdeclared.path
  obtain ⟨method, hmethod, -, hinfoMethod⟩ := hdeclared.method
  exact ⟨path, method, (hkey _).trans hpath, hinfoPath, (hkey _).trans hmethod, hinfoMethod⟩

end TypeTable

variable {H : Type}

/-! ## What one call adds -/

/-- The endpoint is the one that an operation of a controller declares under a path. -/
structure Endpoint.Declares (types : TypeTable) (start controller : String) (op : Operation H)
    (e : Endpoint H) : Prop where
  controller : e.controller = controller
  operation : e.operation = op.name
  request : e.request = op.request
  response : e.response = op.response
  handler : e.handler = op.handler
  routeMeta : types.routeMeta op.request = .ok e.routeMeta
  method : e.method.name = e.routeMeta.method
  path : e.path = Path.join start e.routeMeta.path
  pathVars : e.pathVars = Path.variableNames e.path
  parameters : e.parameters = types.parameters op.request e.pathVars
  responseSchema : e.responseSchema = types.schema op.response

/-- Two endpoints that may stand in one registry: their names differ, and so do their routes. -/
def Endpoint.Apart (x y : Endpoint H) : Prop :=
  x.name ≠ y.name ∧ (x.method = y.method → ¬Path.DifferOnlyInNames x.path y.path)

/-- No two endpoints share a name or a route. -/
def Registry.Distinct (endpoints : List (Endpoint H)) : Prop :=
  endpoints.Pairwise Endpoint.Apart

namespace Registry

variable {types : TypeTable} {start controller : String}

theorem distinct_concat_iff
    {endpoints : List (Endpoint H)} {e : Endpoint H} :
    Distinct (endpoints ++ [e]) ↔ Distinct endpoints ∧ ∀ x ∈ endpoints, x.Apart e := by
  rw [Distinct, List.pairwise_append]
  simp [Distinct]

theorem nodup_names
    {endpoints : List (Endpoint H)} (h : Distinct endpoints) :
    (endpoints.map Endpoint.name).Nodup := by
  rw [List.Nodup, List.pairwise_map]
  exact h.imp fun hapart => hapart.1

/-- The endpoint of an operation with a route. -/
def declared (types : TypeTable) (start controller : String) (op : Operation H) (info : RouteMeta)
    (method : Verb) : Endpoint H where
  controller := controller
  operation := op.name
  method := method
  path := Path.join start info.path
  pathVars := Path.variableNames (Path.join start info.path)
  routeMeta := info
  request := op.request
  response := op.response
  parameters := types.parameters op.request (Path.variableNames (Path.join start info.path))
  responseSchema := types.schema op.response
  handler := op.handler

/-- An operation declares one endpoint, if its route is well formed. -/
theorem declares_iff
    {op : Operation H} {e : Endpoint H} :
    e.Declares types start controller op ↔
      ∃ info method, types.routeMeta op.request = .ok info ∧
        Verb.ofName? info.method = some method ∧
        e = declared types start controller op info method := by
  constructor
  · intro h
    refine ⟨e.routeMeta, e.method, h.routeMeta, Verb.ofName?_eq_some_iff.mpr h.method.symm, ?_⟩
    obtain ⟨hcontroller, hoperation, hrequest, hresponse, hhandler, _, _, hpath, hpathVars,
      hparameters, hschema⟩ := h
    cases e
    simp only [declared, Endpoint.mk.injEq] at *
    rw [hpath] at hpathVars
    rw [hpathVars] at hparameters
    exact ⟨hcontroller, hoperation, trivial, hpath, hpathVars, trivial, hrequest, hresponse,
      hparameters, hschema, hhandler⟩
  · rintro ⟨info, method, hinfo, hmethod, rfl⟩
    have hname : info.method = method.name := Verb.ofName?_eq_some_iff.mp hmethod
    constructor <;> simp only [declared, hinfo, hname]

/-- An operation without a route adds nothing. -/
theorem addOperation_of_unmarked
    {op : Operation H} (hop : types.hasMarker op.request = false)
    (earlier endpoints : List (Endpoint H)) :
    addOperation types start controller earlier endpoints op = .ok endpoints := by
  simp [addOperation, hop]

theorem all_apart_iff
    {known : List (Endpoint H)} {e : Endpoint H} :
    (∀ x ∈ known, x.Apart e) ↔
      known.any (fun x => x.name == e.name) = false ∧
        known.find? (fun x => x.method == e.method && Path.sameRoute x.path e.path) = none := by
  rw [List.any_eq_false, List.find?_eq_none]
  simp only [Endpoint.Apart, ← Path.sameRoute_eq_true_iff, beq_iff_eq, Bool.and_eq_true, not_and]
  exact forall₂_and

theorem addOperation_of_declared
    {op : Operation H} (hop : types.hasMarker op.request = true) {info : RouteMeta} {method : Verb}
    (hinfo : types.routeMeta op.request = .ok info)
    (hmethod : Verb.ofName? info.method = some method)
    {earlier endpoints result : List (Endpoint H)} :
    addOperation types start controller earlier endpoints op = .ok result ↔
      (∀ x ∈ earlier ++ endpoints, x.Apart (declared types start controller op info method)) ∧
        endpoints ++ [declared types start controller op info method] = result := by
  rw [all_apart_iff]
  simp only [addOperation, hop, hinfo, hmethod, if_true]
  cases hname : (earlier ++ endpoints).any
      (fun x => x.name == (declared types start controller op info method).name) with
  | true =>
      have hknown : (earlier ++ endpoints).any
          (fun x => x.name == handlerName controller op.name) = true := hname
      simp [hknown]
  | false =>
      have hknown : (earlier ++ endpoints).any
          (fun x => x.name == handlerName controller op.name) = false := hname
      rw [hknown]
      cases hroute : (earlier ++ endpoints).find? (fun x =>
          x.method == (declared types start controller op info method).method &&
            Path.sameRoute x.path (declared types start controller op info method).path) with
      | some existing =>
          have hclash : (earlier ++ endpoints).find? (fun x => x.method == method &&
              Path.sameRoute x.path (Path.join start info.path)) = some existing := hroute
          simp [hclash]
      | none =>
          have hclash : (earlier ++ endpoints).find? (fun x => x.method == method &&
              Path.sameRoute x.path (Path.join start info.path)) = none := hroute
          simp [hclash, declared]

/-- An operation with a route adds the endpoint that it declares, provided that there is one and
that it stands apart from all endpoints before it. -/
theorem addOperation_eq_ok_iff
    {op : Operation H} (hop : types.hasMarker op.request = true)
    {earlier endpoints result : List (Endpoint H)} :
    addOperation types start controller earlier endpoints op = .ok result ↔
      ∃ e : Endpoint H, e.Declares types start controller op ∧
        (∀ x ∈ earlier ++ endpoints, x.Apart e) ∧ endpoints ++ [e] = result := by
  simp only [declares_iff]
  cases hinfo : types.routeMeta op.request with
  | error fault => simp [addOperation, hop, hinfo]
  | ok info =>
      cases hmethod : Verb.ofName? info.method with
      | none => simp [addOperation, hop, hinfo, hmethod]
      | some method =>
          rw [addOperation_of_declared hop hinfo hmethod]
          constructor
          · rintro ⟨hapart, hresult⟩
            exact ⟨_, ⟨info, method, rfl, hmethod, rfl⟩, hapart, hresult⟩
          · rintro ⟨_, ⟨info', method', hinfo', hmethod', rfl⟩, hapart, hresult⟩
            obtain rfl := Except.ok.inj hinfo'
            obtain rfl := Option.some.inj (hmethod.symm.trans hmethod')
            exact ⟨hapart, hresult⟩

/-- The operations whose request type declares a route. -/
def routed (types : TypeTable) (operations : List (Operation H)) : List (Operation H) :=
  operations.filter fun op => types.hasMarker op.request

/-- Adding the operations of a controller one after the other succeeds exactly with the endpoints
that those with a route declare, in order, provided that no two of all endpoints clash. -/
theorem foldlM_addOperation_eq_ok_iff
    {operations : List (Operation H)} {earlier endpoints result : List (Endpoint H)}
    (hdistinct : Distinct (earlier ++ endpoints)) :
    operations.foldlM (addOperation types start controller earlier) endpoints = .ok result ↔
      ∃ added, List.Forall₂ (fun op (e : Endpoint H) => e.Declares types start controller op)
          (routed types operations) added ∧
        Distinct (earlier ++ endpoints ++ added) ∧ endpoints ++ added = result := by
  induction operations generalizing endpoints with
  | nil =>
      constructor
      · intro h
        obtain rfl : endpoints = result := Except.ok.inj h
        exact ⟨[], .nil, by simpa using hdistinct, by simp⟩
      · rintro ⟨added, hadded, _, rfl⟩
        obtain rfl : added = [] := by simpa [routed] using hadded
        rw [List.append_nil]
        rfl
  | cons op operations ih =>
      rw [List.foldlM_cons, Results.bind_eq_ok_iff]
      cases hop : types.hasMarker op.request with
      | false =>
          have hrouted : routed types (op :: operations) = routed types operations := by
            simp [routed, hop]
          simp only [addOperation_of_unmarked hop, Except.ok.injEq, exists_eq_left', hrouted]
          exact ih hdistinct
      | true =>
          have hrouted : routed types (op :: operations) = op :: routed types operations := by
            simp [routed, hop]
          rw [hrouted]
          constructor
          · rintro ⟨next, hnext, hrest⟩
            obtain ⟨e, he, hapart, rfl⟩ := (addOperation_eq_ok_iff hop).mp hnext
            have hdistinct' : Distinct (earlier ++ (endpoints ++ [e])) := by
              rw [← List.append_assoc]
              exact distinct_concat_iff.mpr ⟨hdistinct, hapart⟩
            obtain ⟨added, hadded, hall, rfl⟩ := (ih hdistinct').mp hrest
            exact ⟨e :: added, .cons he hadded, by simpa using hall, by simp⟩
          · rintro ⟨_, hadded, hall, rfl⟩
            cases hadded with
            | @cons _ e _ added he hadded =>
                have hall' : Distinct ((earlier ++ endpoints ++ [e]) ++ added) := by
                  simpa using hall
                have hdistinct' : Distinct (earlier ++ endpoints ++ [e]) :=
                  (List.pairwise_append.mp hall').1
                have hapart := (distinct_concat_iff.mp hdistinct').2
                refine ⟨endpoints ++ [e], ?_, ?_⟩
                · exact (addOperation_eq_ok_iff hop).mpr ⟨e, he, hapart, rfl⟩
                · rw [List.append_assoc] at hdistinct'
                  exact (ih hdistinct').mpr ⟨added, hadded, by simpa using hall, by simp⟩

/-- A call succeeds exactly if its path is not blank, every operation with a route declares an
endpoint, and no two of the old and the new endpoints clash.  It appends the new endpoints. -/
theorem register_eq_ok_iff
    {registry next : Registry H} (hdistinct : Distinct registry.endpoints)
    {start : String} {controller : Controller H} :
    register types registry start controller = .ok next ↔
      Text.isBlankText start = false ∧
        ∃ added, List.Forall₂
            (fun op (e : Endpoint H) => e.Declares types start controller.name op)
            (routed types controller.operations) added ∧
          Distinct (registry.endpoints ++ added) ∧
          next = ⟨registry.controllers ++ [⟨controller.name, added⟩]⟩ := by
  cases hstart : Text.isBlankText start with
  | true => simp [register, hstart]
  | false =>
      have hdistinct' : Distinct (registry.endpoints ++ []) := by simpa using hdistinct
      simp only [register, hstart, Bool.false_eq_true, if_false, true_and]
      rw [Results.map_eq_ok_iff]
      simp only [foldlM_addOperation_eq_ok_iff hdistinct', List.append_nil, List.nil_append]
      constructor
      · rintro ⟨_, ⟨added, hadded, hall, rfl⟩, hnext⟩
        exact ⟨added, hadded, hall, hnext.symm⟩
      · rintro ⟨added, hadded, hall, rfl⟩
        exact ⟨added, ⟨added, hadded, hall, rfl⟩, rfl⟩

theorem endpoints_concat
    (registry : Registry H) (name : String) (added : List (Endpoint H)) :
    endpoints ⟨registry.controllers ++ [⟨name, added⟩]⟩ = registry.endpoints ++ added := by
  simp [endpoints]

end Registry

/-! ## Runs -/

/-- A call that registers a controller under a path. -/
structure Registration (H : Type) where
  start : String
  controller : Controller H

namespace Registry

variable {types : TypeTable}

/-- The registry after a call; one that is refused leaves it as it was. -/
def attempt (types : TypeTable) (registry : Registry H) (call : Registration H) : Registry H :=
  match register types registry call.start call.controller with
  | .ok next => next
  | .error _ => registry

/-- The registry after calls on an empty one, some of which may be refused. -/
def run (types : TypeTable) (calls : List (Registration H)) : Registry H :=
  calls.foldl (attempt types) empty

/-- One of the calls of a run, which was not refused when its turn came. -/
def Accepted (types : TypeTable) (calls : List (Registration H)) (call : Registration H) : Prop :=
  ∃ before after, calls = before ++ call :: after ∧
    ∃ next, register types (run types before) call.start call.controller = .ok next

theorem run_concat (calls : List (Registration H)) (call : Registration H) :
    run types (calls ++ [call]) = attempt types (run types calls) call := by
  simp [run]

theorem attempt_of_ok
    {registry next : Registry H} {call : Registration H}
    (h : register types registry call.start call.controller = .ok next) :
    attempt types registry call = next := by
  simp [attempt, h]

theorem attempt_of_error
    {registry : Registry H} {call : Registration H} {fault : RegistrationError}
    (h : register types registry call.start call.controller = .error fault) :
    attempt types registry call = registry := by
  simp [attempt, h]

theorem Accepted.concat
    {calls : List (Registration H)} {call : Registration H} (h : Accepted types calls call)
    (last : Registration H) : Accepted types (calls ++ [last]) call := by
  obtain ⟨before, after, rfl, hok⟩ := h
  exact ⟨before, after ++ [last], by simp, hok⟩

/-- After a run no two endpoints clash, and an accepted call has declared each of them. -/
structure Accounted (types : TypeTable) (calls : List (Registration H))
    (endpoints : List (Endpoint H)) : Prop where
  distinct : Distinct endpoints
  declared : ∀ e ∈ endpoints, ∃ call, Accepted types calls call ∧
    ∃ op ∈ routed types call.controller.operations,
      e.Declares types call.start call.controller.name op

/-- What holds before a call still holds after it. -/
theorem Accounted.attempt
    {calls : List (Registration H)} (h : Accounted types calls (run types calls).endpoints)
    (call : Registration H) :
    Accounted types (calls ++ [call]) (attempt types (run types calls) call).endpoints := by
  cases hcall : register types (run types calls) call.start call.controller with
  | error fault =>
      rw [attempt_of_error hcall]
      refine ⟨h.distinct, ?_⟩
      intro e he
      obtain ⟨earlier, hearlier, hdeclared⟩ := h.declared e he
      exact ⟨earlier, hearlier.concat call, hdeclared⟩
  | ok next =>
      rw [attempt_of_ok hcall]
      have haccepted : Accepted types (calls ++ [call]) call := ⟨calls, [], rfl, next, hcall⟩
      obtain ⟨_, added, hadded, hall, rfl⟩ := (register_eq_ok_iff h.distinct).mp hcall
      rw [endpoints_concat]
      refine ⟨hall, ?_⟩
      intro e he
      rcases List.mem_append.mp he with he | he
      · obtain ⟨earlier, hearlier, hdeclared⟩ := h.declared e he
        exact ⟨earlier, hearlier.concat call, hdeclared⟩
      · obtain ⟨op, hop, hdeclares⟩ := Results.exists_left_of_forall₂ hadded he
        exact ⟨call, haccepted, op, hop, hdeclares⟩

theorem run_accounted (types : TypeTable) (calls : List (Registration H)) :
    Accounted types calls (run types calls).endpoints := by
  induction calls using List.reverseRecOn with
  | nil => exact ⟨.nil, by simp [run, empty, endpoints]⟩
  | append_singleton calls call ih =>
      rw [run_concat]
      exact ih.attempt call

/-- An endpoint has the method and the path that its request type is annotated with. -/
theorem annotations_of_declares
    {start controller : String} {op : Operation H} {e : Endpoint H}
    (h : e.Declares types start controller op) :
    ∃ path method, types.annotation? e.request "path" = some path ∧
      types.annotation? e.request "method" = some method ∧
      e.method.name = Text.upperAscii (Text.trim method) ∧
      e.path = Path.join start (Text.trim path) := by
  obtain ⟨path, method, hpath, hinfoPath, hmethod, hinfoMethod⟩ :=
    TypeTable.annotations_of_routeMeta h.routeMeta
  rw [← h.request] at hpath hmethod
  refine ⟨path, method, hpath, hmethod, ?_, ?_⟩
  · rw [h.method, hinfoMethod]
  · rw [h.path, hinfoPath]

end Registry

namespace Router

/-! ## Building the router -/

/-- A router can be built exactly if no path has a variable without a name. -/
theorem exists_build_iff (registry : Registry H) :
    (∃ router, build registry = .ok router) ↔
      ∀ e ∈ registry.endpoints, "\x7b\x7d" ∉ Path.segments e.path := by
  have hbuild : (∃ router, build registry = .ok router) ↔
      ∃ routes, registry.endpoints.mapM routeOf = .ok routes := by
    constructor
    · rintro ⟨router, hrouter⟩
      obtain ⟨routes, hroutes, _⟩ := Results.map_eq_ok_iff.mp hrouter
      exact ⟨routes, hroutes⟩
    · rintro ⟨routes, hroutes⟩
      exact ⟨_, Results.map_eq_ok_iff.mpr ⟨routes, hroutes, rfl⟩⟩
  rw [hbuild, Results.exists_mapM_eq_ok_iff]
  apply forall₂_congr
  intro e he
  rw [← Pattern.ofPath?_isSome_iff]
  cases hpattern : Pattern.ofPath? e.path with
  | none => simp [routeOf, hpattern]
  | some pattern => simp [routeOf, hpattern]

/-- Looking up a name finds the endpoint that has it. -/
theorem endpoint?_eq_some_iff
    {router : Router H} (hnames : (router.endpoints.map Endpoint.name).Nodup)
    {name : String} {e : Endpoint H} :
    router.endpoint? name = some e ↔ e ∈ router.endpoints ∧ e.name = name := by
  constructor
  · intro h
    exact ⟨List.mem_of_find?_eq_some h, by simpa using List.find?_some h⟩
  · rintro ⟨he, rfl⟩
    cases hfound : router.endpoint? e.name with
    | none =>
        have hnone := List.find?_eq_none.mp hfound e he
        simp at hnone
    | some found =>
        have hmem : found ∈ router.endpoints := List.mem_of_find?_eq_some hfound
        have hname : found.name = e.name := by simpa using List.find?_some hfound
        rw [List.inj_on_of_nodup_map hnames hmem he hname]

end Router

namespace Registry

/-- After any run of calls, refused ones included: names are distinct, as are the routes of a
method; each endpoint has the method, the path and the variables that an accepted call and the
annotations of its request type give it; a further call appends the endpoints of its operations
with a route, or is refused and changes nothing; a router can be built unless a variable has no
name, and finds each endpoint by its name. -/
theorem run_accounts_for_endpoints (types : TypeTable) (calls : List (Registration H)) :
    ((run types calls).endpoints.map Endpoint.name).Nodup ∧
    ((run types calls).endpoints.Pairwise fun x y =>
      x.method = y.method → ¬Path.DifferOnlyInNames x.path y.path) ∧
    (∀ e ∈ (run types calls).endpoints, ∃ call, Accepted types calls call ∧
      ∃ path method, types.annotation? e.request "path" = some path ∧
        types.annotation? e.request "method" = some method ∧
        e.method.name = Text.upperAscii (Text.trim method) ∧
        e.path = Path.join call.start (Text.trim path) ∧
        e.pathVars = Path.variableNames e.path) ∧
    (∀ call next, register types (run types calls) call.start call.controller = .ok next →
      run types (calls ++ [call]) = next ∧
        ∃ added, List.Forall₂
            (fun op (e : Endpoint H) => e.Declares types call.start call.controller.name op)
            (call.controller.operations.filter fun op => types.hasMarker op.request) added ∧
          next.endpoints = (run types calls).endpoints ++ added ∧
          next.controllers = (run types calls).controllers ++ [⟨call.controller.name, added⟩]) ∧
    (∀ call fault, register types (run types calls) call.start call.controller = .error fault →
      run types (calls ++ [call]) = run types calls) ∧
    ((∃ router, Router.build (run types calls) = .ok router) ↔
      ∀ e ∈ (run types calls).endpoints, "\x7b\x7d" ∉ Path.segments e.path) ∧
    ∀ router, Router.build (run types calls) = .ok router →
      router.endpoints = (run types calls).endpoints ∧
        ∀ name e, router.endpoint? name = some e ↔ e ∈ router.endpoints ∧ e.name = name := by
  have haccounted := run_accounted types calls
  have hnames := nodup_names haccounted.distinct
  refine ⟨hnames, ?_, ?_, ?_, ?_, Router.exists_build_iff _, ?_⟩
  · exact haccounted.distinct.imp fun hapart => hapart.2
  · intro e he
    obtain ⟨call, hcall, op, _, hdeclares⟩ := haccounted.declared e he
    obtain ⟨path, method, hpath, hmethod, hname, hjoin⟩ := annotations_of_declares hdeclares
    exact ⟨call, hcall, path, method, hpath, hmethod, hname, hjoin, hdeclares.pathVars⟩
  · intro call next hnext
    refine ⟨?_, ?_⟩
    · rw [run_concat, attempt_of_ok hnext]
    · obtain ⟨_, added, hadded, _, rfl⟩ := (register_eq_ok_iff haccounted.distinct).mp hnext
      exact ⟨added, hadded, endpoints_concat _ _ _, rfl⟩
  · intro call fault hfault
    rw [run_concat, attempt_of_error hfault]
  · intro router hrouter
    obtain ⟨hendpoints, _⟩ := Router.routes_of_build hrouter
    refine ⟨hendpoints, ?_⟩
    intro name e
    rw [← hendpoints] at hnames
    exact Router.endpoint?_eq_some_iff hnames

end Registry
end TypedRoutes
