import TypedRoutes.Dispatch.Dispatcher
import TypedRoutes.Proofs.RequestSoundness
import TypedRoutes.Proofs.UrlBuilding

/-!
# The stages of a call

A call is routed, its request value is built, decoded and validated, and then the handler is run.
`Refused` says for which calls a stage before the handler fails, and with which outcome class;
`Ready` says for which calls all of them succeed.  Together with the outcome of the handler they
give the ending of every call, and the dispatcher answers with exactly that ending.
-/

namespace TypedRoutes

variable {σ : Type}

/-! ## How calls end -/

/-- The handler did not give an answer that can be written. -/
def Outcome.IsFailure : Outcome → Prop
  | .answered _ _ => False
  | .failed _ | .aborted _ | .unencodable _ => True

/-- How a call ends: the outcome class and the data of the answer, the names of the endpoints whose
handlers were run, and the state of the application afterwards. -/
structure Ending (σ : Type) where
  code : ErrorCode
  data : Json
  runs : List String
  app : σ

namespace Dispatcher

/-- The request value of a matched call. -/
def valueOf (d : Dispatcher σ) (request : Call) (r : RouteMatch (Handler σ)) :
    Except RequestError Json :=
  d.types.requestValue r.endpoint.request request.method
    ⟨request.query, request.body, r.pathParams⟩

/-- A call is matched, and its request value is built, decoded and accepted.  The metadata of the
route, which the decoded request carries, can be read from the request type. -/
structure Ready (d : Dispatcher σ) (request : Call) (r : RouteMatch (Handler σ))
    (action : Action σ) : Prop where
  route : d.router.route request.method request.path = some r
  routeMeta : d.types.routeMeta r.endpoint.request = .ok r.endpoint.routeMeta
  accepted : ∃ value, d.valueOf request r = .ok value ∧
    r.endpoint.handler.decode value = .ok action ∧
    d.validate r.endpoint.request value = .ok ()

/-- A stage before the handler fails, the first that does with this outcome class. -/
inductive Refused (d : Dispatcher σ) (request : Call) : ErrorCode → Prop
  | noRoute
      (hpath : ∀ e ∈ d.router.endpoints, ∀ texts, ¬Path.Matches e.path request.path texts) :
      Refused d request .notFound
  | wrongVerb {e : Endpoint (Handler σ)} {texts : List String}
      (hverb : ∀ x ∈ d.router.endpoints, ¬x.Serves request.method request.path)
      (he : e ∈ d.router.endpoints) (hpath : Path.Matches e.path request.path texts) :
      Refused d request .notSupported
  | badBody {r : RouteMatch (Handler σ)} {fault : BodyFault}
      (hroute : d.router.route request.method request.path = some r)
      (hvalue : d.valueOf request r = .error (.invalidBody fault)) :
      Refused d request .invalidRequest
  | badField {r : RouteMatch (Handler σ)} {e : FieldError}
      (hroute : d.router.route request.method request.path = some r)
      (hvalue : d.valueOf request r = .error (.invalidField e)) :
      Refused d request .invalidParameter
  | undecodable {r : RouteMatch (Handler σ)} {value : Json} {complaint : Complaint}
      (hroute : d.router.route request.method request.path = some r)
      (hvalue : d.valueOf request r = .ok value)
      (hdecode : r.endpoint.handler.decode value = .error complaint) :
      Refused d request .invalidParameter
  | missing {r : RouteMatch (Handler σ)} {value : Json} {action : Action σ} {e : ValidationError}
      (hroute : d.router.route request.method request.path = some r)
      (hvalue : d.valueOf request r = .ok value)
      (hdecode : r.endpoint.handler.decode value = .ok action)
      (hinvalid : d.validate r.endpoint.request value = .error e)
      (hrule : e.rule = some "required") :
      Refused d request .missingParameter
  | invalid {r : RouteMatch (Handler σ)} {value : Json} {action : Action σ} {e : ValidationError}
      (hroute : d.router.route request.method request.path = some r)
      (hvalue : d.valueOf request r = .ok value)
      (hdecode : r.endpoint.handler.decode value = .ok action)
      (hinvalid : d.validate r.endpoint.request value = .error e)
      (hrule : e.rule ≠ some "required") :
      Refused d request .validationFailed

/-- The ending of a call on an application in a given state. -/
inductive Ends (d : Dispatcher σ) (request : Call) (context : CallContext) (app : σ) :
    Ending σ → Prop
  | refused {code : ErrorCode} (h : d.Refused request code) :
      Ends d request context app ⟨code, .null, [], app⟩
  | failed {r : RouteMatch (Handler σ)} {action : Action σ} {outcome : Outcome} {next : σ}
      (h : d.Ready request r action)
      (hrun : action context r.endpoint.routeMeta app = (outcome, next))
      (hfailure : outcome.IsFailure) :
      Ends d request context app ⟨.internal, .null, [r.endpoint.name], next⟩
  | answered {r : RouteMatch (Handler σ)} {action : Action σ} {data : Json} {headers : Headers}
      {next : σ} (h : d.Ready request r action)
      (hrun : action context r.endpoint.routeMeta app = (.answered data headers, next)) :
      Ends d request context app ⟨.ok, data, [r.endpoint.name], next⟩

/-- The state of the application keeps a log of runs, to which every handler adds the name of its
endpoint. -/
def Logs (d : Dispatcher σ) (log : σ → List String) : Prop :=
  ∀ e ∈ d.router.endpoints, ∀ value action, e.handler.decode value = .ok action →
    ∀ context info app, log (action context info app).2 = log app ++ [e.name]

end Dispatcher

/-- The answer is an envelope of an outcome class with some data: exactly a code, the data and a
message, sent with the status of the class. -/
structure Response.Reports (response : Response) (code : ErrorCode) (data : Json) : Prop where
  status : response.status = code.status
  body : ∃ message, response.body =
      .object [("code", .int code.code), ("data", data), ("message", .string message)] ∧
    (code = .ok → message = "Success")

/-- The middleware leaves the status and the body of every answer as they are. -/
def Middleware.KeepsBody : Middleware → Prop
  | .tracing _ | .metrics _ => True
  | .hooks _ after => ∀ context response,
      (after context response).status = response.status ∧
        (after context response).body = response.body

/-! ## Registered endpoints -/

namespace Router

variable {H : Type} {types : TypeTable} {calls : List (Registration H)} {router : Router H}

/-- The methods that are served on a path are those of the routes that match it. -/
theorem mem_allowedMethods_iff
    (router : Router H) (path : String) (verb : Verb) :
    verb ∈ router.allowedMethods path ↔
      ∃ r ∈ router.routes, r.pattern.isMatch path = true ∧ r.endpoint.method = verb := by
  have hfold : ∀ (routes : List (Route H)) (found : List Verb),
      verb ∈ routes.foldl (fun methods r =>
        if methods.contains r.endpoint.method then methods
        else methods ++ [r.endpoint.method]) found ↔
      verb ∈ found ∨ ∃ r ∈ routes, r.endpoint.method = verb := by
    intro routes
    induction routes with
    | nil => simp
    | cons r rest ih =>
        intro found
        rw [List.foldl_cons, ih, List.exists_mem_cons_iff, ← or_assoc]
        apply or_congr_left
        split
        · rename_i hcontains
          have hmem : r.endpoint.method ∈ found := by simpa using hcontains
          constructor
          · exact .inl
          · rintro (h | rfl)
            · exact h
            · exact hmem
        · simp [eq_comm]
  rw [allowedMethods, hfold]
  simp [and_assoc]

/-- No method is served on a path exactly if no endpoint's pattern matches it. -/
theorem allowedMethods_eq_nil_iff
    {registry : Registry H} (hbuild : build registry = .ok router) (path : String) :
    router.allowedMethods path = [] ↔
      ∀ e ∈ router.endpoints, ∀ texts, ¬Path.Matches e.path path texts := by
  obtain ⟨hendpoints, routes, hroutes, hmap, hcompiled⟩ := routes_of_build hbuild
  have hmatch : ∀ r ∈ routes, r.pattern.isMatch path = true ↔
      ∃ texts, Path.Matches r.endpoint.path path texts := by
    intro r hr
    rw [Pattern.isMatch, Option.isSome_iff_exists]
    exact exists_congr fun texts => Pattern.match?_eq_some_iff (hcompiled r hr) path texts
  rw [List.eq_nil_iff_forall_not_mem, hendpoints, ← hmap]
  simp only [mem_allowedMethods_iff, hroutes, mem_tried, List.forall_mem_map]
  constructor
  · intro h r hr texts htexts
    exact h r.endpoint.method ⟨r, hr, (hmatch r hr).mpr ⟨texts, htexts⟩, rfl⟩
  · rintro h verb ⟨r, hr, hismatch, -⟩
    obtain ⟨texts, htexts⟩ := (hmatch r hr).mp hismatch
    exact h r hr texts htexts

/-- A matched endpoint was declared by an operation, and serves the method that it was found
under. -/
theorem declares_of_route
    (hbuild : build (Registry.run types calls) = .ok router) {method path : String}
    {r : RouteMatch H} (h : router.route method path = some r) :
    r.endpoint ∈ router.endpoints ∧ r.endpoint.Serves method path ∧
      ∃ start controller op, r.endpoint.Declares types start controller op := by
  obtain ⟨hchoice, -⟩ := isChoice_of_route hbuild h
  have hmem : r.endpoint ∈ router.endpoints := hchoice.mem
  refine ⟨hmem, hchoice.holds, ?_⟩
  rw [(routes_of_build hbuild).1] at hmem
  obtain ⟨call, -, op, -, hdeclares⟩ := (Registry.run_accounted types calls).declared _ hmem
  exact ⟨call.start, call.controller.name, op, hdeclares⟩

end Router

namespace TypeTable

variable {types : TypeTable}

theorem exists_record?_of_routeMeta
    {t : Ty} {info : RouteMeta} (h : types.routeMeta t = .ok info) :
    ∃ id r, types.record? t = some (id, r) := by
  cases hrecord : types.record? t with
  | none => simp [routeMeta, hrecord] at h
  | some idRecord => exact ⟨idRecord.1, idRecord.2, rfl⟩

/-- For a record and a supported method, only the inputs can keep a request value from being
built. -/
theorem requestValue_eq_error
    {t : Ty} {id : String} {r : Record} (hrecord : types.record? t = some (id, r))
    {method : String} {verb : Verb} (hverb : Verb.ofName? method = some verb) {input : CallInput}
    {e : RequestError} (h : types.requestValue t method input = .error e) :
    (∃ fault, e = .invalidBody fault) ∨ ∃ fieldError, e = .invalidField fieldError := by
  rw [requestValue_eq hrecord hverb] at h
  rcases Results.bind_eq_error_iff.mp h with hquery | ⟨queried, -, h⟩
  · unfold afterQuery at hquery
    split at hquery
    · obtain ⟨fieldError, -, rfl⟩ := Results.mapError_eq_error_iff.mp hquery
      exact .inr ⟨fieldError, rfl⟩
    · cases hquery
  rcases Results.bind_eq_error_iff.mp h with hbody | ⟨overlaid, -, h⟩
  · unfold afterBody at hbody
    split at hbody
    · rcases Results.bind_eq_error_iff.mp hbody with hread | ⟨body, -, hoverlay⟩
      · obtain ⟨fault, -, rfl⟩ := Results.mapError_eq_error_iff.mp hread
        exact .inl ⟨fault, rfl⟩
      · cases body with
        | none => cases hoverlay
        | some body =>
            obtain ⟨fieldError, -, rfl⟩ := Results.mapError_eq_error_iff.mp hoverlay
            exact .inr ⟨fieldError, rfl⟩
    · cases hbody
  rcases Results.bind_eq_error_iff.mp h with hpath | ⟨target, -, h⟩
  · obtain ⟨fieldError, -, rfl⟩ := Results.mapError_eq_error_iff.mp hpath
    exact .inr ⟨fieldError, rfl⟩
  · cases h

end TypeTable

/-! ## Stages and preparation -/

namespace Dispatcher

variable {d : Dispatcher σ} {calls : List (Registration (Handler σ))} {request : Call}

theorem valueOf_eq_error
    (hbuild : Router.build (Registry.run d.types calls) = .ok d.router)
    {r : RouteMatch (Handler σ)} (hroute : d.router.route request.method request.path = some r)
    {e : RequestError} (h : d.valueOf request r = .error e) :
    (∃ fault, e = .invalidBody fault) ∨ ∃ fieldError, e = .invalidField fieldError := by
  obtain ⟨-, ⟨hmethod, -⟩, _, _, op, hdeclares⟩ := Router.declares_of_route hbuild hroute
  obtain ⟨id, record, hrecord⟩ := TypeTable.exists_record?_of_routeMeta hdeclares.routeMeta
  rw [← hdeclares.request] at hrecord
  exact TypeTable.requestValue_eq_error hrecord
    (Verb.ofName?_eq_some_iff.mpr hmethod.symm) h

/-- A matched call is prepared by building, decoding and validating its request value. -/
theorem prepare_eq_ok_iff
    {r : RouteMatch (Handler σ)} {action : Action σ} :
    d.prepare r.endpoint request.method ⟨request.query, request.body, r.pathParams⟩ = .ok action ↔
      ∃ value, d.valueOf request r = .ok value ∧ r.endpoint.handler.decode value = .ok action ∧
        d.validate r.endpoint.request value = .ok () := by
  rw [prepare, Results.bind_eq_ok_iff]
  simp only [Results.bind_eq_ok_iff, Results.mapError_eq_ok_iff, valueOf]
  constructor
  · rintro ⟨value, hvalue, action', hdecode, ⟨⟩, hvalid, haction⟩
    obtain rfl : action' = action := Except.ok.inj haction
    exact ⟨value, hvalue, hdecode, hvalid⟩
  · rintro ⟨value, hvalue, hdecode, hvalid⟩
    exact ⟨value, hvalue, action, hdecode, (), hvalid, rfl⟩

/-- The first of the three steps that fails gives the failure. -/
theorem prepare_eq_error_iff
    {r : RouteMatch (Handler σ)} {failure : CallFailure} :
    d.prepare r.endpoint request.method ⟨request.query, request.body, r.pathParams⟩ =
        .error failure ↔
      (∃ e, d.valueOf request r = .error e ∧ .request e = failure) ∨
      ∃ value, d.valueOf request r = .ok value ∧
        ((∃ complaint, r.endpoint.handler.decode value = .error complaint ∧
            .request (.decoding complaint.message) = failure) ∨
          ∃ action, r.endpoint.handler.decode value = .ok action ∧
            ∃ e, d.validate r.endpoint.request value = .error e ∧ .validation e = failure) := by
  rw [prepare, Results.bind_eq_error_iff]
  simp only [Results.bind_eq_error_iff, Results.mapError_eq_error_iff, Results.mapError_eq_ok_iff,
    valueOf]
  simp [pure, Except.pure]

/-- A matched call is ready exactly if it can be prepared. -/
theorem ready_iff
    (hbuild : Router.build (Registry.run d.types calls) = .ok d.router)
    {r : RouteMatch (Handler σ)} (hroute : d.router.route request.method request.path = some r)
    (action : Action σ) :
    d.Ready request r action ↔ d.prepare r.endpoint request.method
      ⟨request.query, request.body, r.pathParams⟩ = .ok action := by
  rw [prepare_eq_ok_iff]
  constructor
  · intro h
    exact h.accepted
  · intro h
    obtain ⟨-, -, _, _, op, hdeclares⟩ := Router.declares_of_route hbuild hroute
    refine ⟨hroute, ?_, h⟩
    rw [hdeclares.request]
    exact hdeclares.routeMeta

theorem code_validation (e : ValidationError) :
    (CallFailure.validation e).code =
      if e.rule = some "required" then .missingParameter else .validationFailed := by
  simp [CallFailure.code, ValidationError.isMissing]

/-- A matched call is refused exactly if it cannot be prepared, with the class of the failure. -/
theorem refused_iff_of_route
    (hbuild : Router.build (Registry.run d.types calls) = .ok d.router)
    {r : RouteMatch (Handler σ)} (hroute : d.router.route request.method request.path = some r)
    (code : ErrorCode) :
    d.Refused request code ↔ ∃ failure, d.prepare r.endpoint request.method
      ⟨request.query, request.body, r.pathParams⟩ = .error failure ∧ failure.code = code := by
  simp only [prepare_eq_error_iff]
  constructor
  · intro h
    have hserves := Router.declares_of_route hbuild hroute
    cases h with
    | noRoute hpath =>
        obtain ⟨hmem, ⟨-, texts, htexts⟩, -⟩ := hserves
        exact absurd htexts (hpath _ hmem texts)
    | wrongVerb hverb he hpath => exact absurd hserves.2.1 (hverb _ hserves.1)
    | @badBody _ fault hroute' hvalue =>
        obtain rfl := Option.some.inj (hroute'.symm.trans hroute)
        exact ⟨.request (.invalidBody fault), .inl ⟨_, hvalue, rfl⟩, rfl⟩
    | @badField _ e hroute' hvalue =>
        obtain rfl := Option.some.inj (hroute'.symm.trans hroute)
        exact ⟨.request (.invalidField e), .inl ⟨_, hvalue, rfl⟩, rfl⟩
    | @undecodable _ _ complaint hroute' hvalue hdecode =>
        obtain rfl := Option.some.inj (hroute'.symm.trans hroute)
        exact ⟨.request (.decoding complaint.message),
          .inr ⟨_, hvalue, .inl ⟨_, hdecode, rfl⟩⟩, rfl⟩
    | @missing _ _ _ e hroute' hvalue hdecode hinvalid hrule =>
        obtain rfl := Option.some.inj (hroute'.symm.trans hroute)
        refine ⟨.validation e, .inr ⟨_, hvalue, .inr ⟨_, hdecode, _, hinvalid, rfl⟩⟩, ?_⟩
        rw [code_validation, if_pos hrule]
    | @invalid _ _ _ e hroute' hvalue hdecode hinvalid hrule =>
        obtain rfl := Option.some.inj (hroute'.symm.trans hroute)
        refine ⟨.validation e, .inr ⟨_, hvalue, .inr ⟨_, hdecode, _, hinvalid, rfl⟩⟩, ?_⟩
        rw [code_validation, if_neg hrule]
  · rintro ⟨failure, ⟨e, hvalue, rfl⟩ | ⟨value, hvalue, ⟨complaint, hdecode, rfl⟩ |
      ⟨action, hdecode, e, hinvalid, rfl⟩⟩, rfl⟩
    · rcases valueOf_eq_error hbuild hroute hvalue with ⟨fault, rfl⟩ | ⟨fieldError, rfl⟩
      · exact .badBody hroute hvalue
      · exact .badField hroute hvalue
    · exact .undecodable hroute hvalue hdecode
    · rw [code_validation]
      split
      · rename_i hrule
        exact .missing hroute hvalue hdecode hinvalid hrule
      · rename_i hrule
        exact .invalid hroute hvalue hdecode hinvalid hrule

/-- A call that is not matched is refused by its path or by its verb. -/
theorem refused_iff_of_no_route
    (hbuild : Router.build (Registry.run d.types calls) = .ok d.router)
    (hroute : d.router.route request.method request.path = none) (code : ErrorCode) :
    d.Refused request code ↔
      code = if d.router.allowedMethods request.path = [] then .notFound else .notSupported := by
  have hallowed := Router.allowedMethods_eq_nil_iff hbuild request.path
  constructor
  · intro h
    cases h with
    | noRoute hpath => rw [if_pos (hallowed.mpr hpath)]
    | wrongVerb hverb he hpath =>
        rw [if_neg]
        intro hnil
        exact hallowed.mp hnil _ he _ hpath
    | badBody hroute' | badField hroute' | undecodable hroute' | missing hroute'
    | invalid hroute' =>
        rw [hroute] at hroute'
        cases hroute'
  · rintro rfl
    split
    · rename_i hnil
      exact .noRoute (hallowed.mp hnil)
    · rename_i hne
      rw [hallowed] at hne
      push Not at hne
      obtain ⟨e, he, texts, htexts⟩ := hne
      exact .wrongVerb ((Router.route_eq_none_iff hbuild _ _).mp hroute) he htexts

end Dispatcher

/-! ## Answers -/

namespace Response

theorem reports_success (data : Json) : (success data).Reports .ok data where
  status := rfl
  body := ⟨"Success", rfl, fun _ => rfl⟩

theorem reports_failure
    {code : ErrorCode} (hcode : code ≠ .ok) (message : String) :
    (failure code message).Reports code .null where
  status := rfl
  body := ⟨message, rfl, fun h => absurd h hcode⟩

theorem Reports.of_eq
    {response other : Response} {code : ErrorCode} {data : Json} (h : response.Reports code data)
    (hstatus : other.status = response.status) (hbody : other.body = response.body) :
    other.Reports code data where
  status := hstatus.trans h.status
  body := by
    rw [hbody]
    exact h.body

end Response

theorem CallFailure.code_ne_ok (failure : CallFailure) : failure.code ≠ .ok := by
  cases failure with
  | request e => cases e <;> exact nofun
  | validation e =>
      rw [Dispatcher.code_validation]
      split <;> exact nofun
  | handler message => exact nofun
  | encoding reason => exact nofun

namespace Middleware

/-- The middleware leaves what is read of an answer as it is. -/
def Keeps {α : Type} (read : Response → α) : Middleware → Prop
  | .tracing _ | .metrics _ => True
  | .hooks _ after => ∀ context response, read (after context response) = read response

variable {α : Type} {read : Response → α} {context : CallContext}

theorem Keeps.before {m : Middleware} (h : m.Keeps read) : (m.before context).1.Keeps read := by
  cases m with
  | tracing inFlight => trivial
  | metrics counters => trivial
  | hooks before after => exact h

theorem Keeps.after
    {m : Middleware} (h : m.Keeps read) (response : Response) :
    read (m.after context response).2 = read response := by
  cases m with
  | tracing inFlight => rfl
  | metrics counters => rfl
  | hooks before after => exact h context response

theorem Keeps.afterAll
    {middlewares : List Middleware} (h : ∀ m ∈ middlewares, m.Keeps read) (response : Response) :
    read (Middleware.afterAll context middlewares response).2 = read response := by
  induction middlewares generalizing response with
  | nil => rfl
  | cons m rest ih =>
      have hrest := ih (fun m hm => h m (by simp [hm])) (m.after context response).2
      exact hrest.trans ((h m (by simp)).after response)

theorem Keeps.beforeAll
    {middlewares : List Middleware} (h : ∀ m ∈ middlewares, m.Keeps read) :
    ∀ m ∈ (Middleware.beforeAll context middlewares).1, m.Keeps read := by
  intro m hm
  simp only [Middleware.beforeAll, List.map_map, List.mem_map] at hm
  obtain ⟨m', hm', rfl⟩ := hm
  exact (h m' hm').before

theorem keepsBody_iff
    {m : Middleware} :
    m.KeepsBody ↔ m.Keeps fun response => (response.status, response.body) := by
  cases m with
  | tracing inFlight => exact Iff.rfl
  | metrics counters => exact Iff.rfl
  | hooks before after => simp only [KeepsBody, Keeps, Prod.mk.injEq]

theorem KeepsBody.before {m : Middleware} (h : m.KeepsBody) : (m.before context).1.KeepsBody :=
  keepsBody_iff.mpr (keepsBody_iff.mp h).before

theorem KeepsBody.after
    {m : Middleware} (h : m.KeepsBody) (context : CallContext) (response : Response) :
    (m.after context response).2.status = response.status ∧
      (m.after context response).2.body = response.body :=
  Prod.mk.inj ((keepsBody_iff.mp h).after response)

theorem afterAll_keeps
    {middlewares : List Middleware} (h : ∀ m ∈ middlewares, m.KeepsBody) (response : Response) :
    (afterAll context middlewares response).2.status = response.status ∧
      (afterAll context middlewares response).2.body = response.body :=
  Prod.mk.inj (Keeps.afterAll (fun m hm => keepsBody_iff.mp (h m hm)) response)

end Middleware

namespace Dispatcher

variable {d : Dispatcher σ} {calls : List (Registration (Handler σ))} {request : Call}
  {context : CallContext}

/-- The context that a call gets when it is dispatched. -/
def contextIn (d : Dispatcher σ) (request : Call) (s : DispatchState σ) : CallContext :=
  contextOf request (d.router.route request.method request.path) s.nextSeq

/-- The answer to a call before any middleware changes it, and the state of the application
afterwards. -/
def answer (d : Dispatcher σ) (request : Call) (context : CallContext) (app : σ) : Response × σ :=
  match d.router.route request.method request.path with
  | none => (d.unrouted context, app)
  | some r => d.handle r.endpoint context ⟨request.query, request.body, r.pathParams⟩ app

/-- A call that no middleware answers gets its answer, which the middleware then sees. -/
theorem dispatch_eq_of_early
    {s : DispatchState σ}
    (hearly : (Middleware.beforeAll (d.contextIn request s) s.middlewares).2 = none) :
    (d.dispatch request s).1 = (Middleware.afterAll (d.contextIn request s)
        (Middleware.beforeAll (d.contextIn request s) s.middlewares).1
        ((d.answer request (d.contextIn request s) s.app).1.setHeader "x-request-id"
          request.requestId.text)).2 ∧
      (d.dispatch request s).2.app = (d.answer request (d.contextIn request s) s.app).2 := by
  rw [contextIn] at hearly
  rw [dispatch, answer, contextIn]
  simp only [hearly]
  cases hroute : d.router.route request.method request.path with
  | none => exact ⟨rfl, rfl⟩
  | some r => exact ⟨rfl, rfl⟩

/-- Middleware that keeps statuses and bodies lets every report through. -/
theorem reports_dispatch
    {s : DispatchState σ}
    (hearly : (Middleware.beforeAll (d.contextIn request s) s.middlewares).2 = none)
    (hkeeps : ∀ m ∈ s.middlewares, m.KeepsBody) {code : ErrorCode} {data : Json}
    (h : (d.answer request (d.contextIn request s) s.app).1.Reports code data) :
    (d.dispatch request s).1.Reports code data := by
  rw [(dispatch_eq_of_early hearly).1]
  have hbefore : ∀ m ∈ (Middleware.beforeAll (d.contextIn request s) s.middlewares).1,
      m.KeepsBody :=
    fun m hm => Middleware.keepsBody_iff.mpr
      (Middleware.Keeps.beforeAll (fun m hm => Middleware.keepsBody_iff.mp (hkeeps m hm)) m hm)
  obtain ⟨hstatus, hbody⟩ := Middleware.afterAll_keeps hbefore _
  exact h.of_eq hstatus hbody

theorem reports_unrouted
    (context : CallContext) :
    (d.unrouted context).Reports
      (if d.router.allowedMethods context.path = [] then .notFound else .notSupported) .null := by
  rw [unrouted]
  cases hallowed : d.router.allowedMethods context.path with
  | nil =>
      rw [if_pos rfl]
      exact Response.reports_failure (by decide) _
  | cons verb rest =>
      rw [if_neg (List.cons_ne_nil _ _)]
      exact (Response.reports_failure (by decide) _).of_eq rfl rfl

/-! ## Endings -/

theorem Ends.unique_of_refused
    (hready : ∀ r action, ¬d.Ready request r action) {code : ErrorCode}
    (hrefused : ∀ c, d.Refused request c ↔ c = code) (app : σ) (other : Ending σ) :
    d.Ends request context app other ↔ other = ⟨code, .null, [], app⟩ := by
  constructor
  · intro h
    cases h with
    | refused h => rw [(hrefused _).mp h]
    | failed h => exact absurd h (hready _ _)
    | answered h => exact absurd h (hready _ _)
  · rintro rfl
    exact .refused ((hrefused code).mpr rfl)

/-- The ending of a call whose handler is run. -/
def endingOf (r : RouteMatch (Handler σ)) : Outcome × σ → Ending σ
  | (.answered data _, next) => ⟨.ok, data, [r.endpoint.name], next⟩
  | (_, next) => ⟨.internal, .null, [r.endpoint.name], next⟩

theorem app_endingOf (r : RouteMatch (Handler σ)) (result : Outcome × σ) :
    (endingOf r result).app = result.2 := by
  obtain ⟨outcome, next⟩ := result
  cases outcome <;> rfl

theorem endingOf_of_isFailure
    (r : RouteMatch (Handler σ)) {outcome : Outcome} (h : outcome.IsFailure) (next : σ) :
    endingOf r (outcome, next) = ⟨.internal, .null, [r.endpoint.name], next⟩ := by
  cases outcome with
  | answered data headers => exact h.elim
  | failed message => rfl
  | aborted complaint => rfl
  | unencodable complaint => rfl

theorem Ends.unique_of_ready
    {r : RouteMatch (Handler σ)} {action : Action σ} (hready : d.Ready request r action)
    (honly : ∀ r' action', d.Ready request r' action' → r' = r ∧ action' = action)
    (hrefused : ∀ c, ¬d.Refused request c) (app : σ) (other : Ending σ) :
    d.Ends request context app other ↔
      other = endingOf r (action context r.endpoint.routeMeta app) := by
  constructor
  · intro h
    cases h with
    | refused h => exact absurd h (hrefused _)
    | failed h hrun hfailure =>
        obtain ⟨rfl, rfl⟩ := honly _ _ h
        rw [hrun, endingOf_of_isFailure _ hfailure]
    | answered h hrun =>
        obtain ⟨rfl, rfl⟩ := honly _ _ h
        rw [hrun]
        rfl
  · rintro rfl
    cases hrun : action context r.endpoint.routeMeta app with
    | mk outcome next =>
        cases outcome with
        | answered data headers => exact .answered hready hrun
        | failed message => exact .failed hready hrun trivial
        | aborted complaint => exact .failed hready hrun trivial
        | unencodable complaint => exact .failed hready hrun trivial

theorem reports_outcome
    (r : RouteMatch (Handler σ)) (outcome : Outcome) (next : σ) :
    (Response.ofResult outcome.result).Reports (endingOf r (outcome, next)).code
      (endingOf r (outcome, next)).data := by
  cases outcome with
  | answered data headers => exact (Response.reports_success data).of_eq rfl rfl
  | failed message => exact Response.reports_failure (CallFailure.code_ne_ok _) _
  | aborted complaint => exact Response.reports_failure (CallFailure.code_ne_ok _) _
  | unencodable complaint => exact Response.reports_failure (CallFailure.code_ne_ok _) _

/-- Every call has one ending, and its answer reports it. -/
theorem exists_ending
    (hbuild : Router.build (Registry.run d.types calls) = .ok d.router) (request : Call)
    (s : DispatchState σ) :
    ∃ ending,
      (∀ other, d.Ends request (d.contextIn request s) s.app other ↔ other = ending) ∧
      (d.answer request (d.contextIn request s) s.app).1.Reports ending.code ending.data ∧
      (d.answer request (d.contextIn request s) s.app).2 = ending.app := by
  have hpath : (d.contextIn request s).path = request.path := rfl
  have hmethod : (d.contextIn request s).method = request.method := rfl
  generalize d.contextIn request s = context at hpath hmethod
  cases hroute : d.router.route request.method request.path with
  | none =>
      have hready : ∀ r action, ¬d.Ready request r action := by
        intro r action h
        rw [h.route] at hroute
        cases hroute
      have hrefused := refused_iff_of_no_route hbuild hroute
      refine ⟨_, Ends.unique_of_refused hready hrefused s.app, ?_, ?_⟩
      · rw [answer, hroute, ← hpath]
        exact reports_unrouted context
      · rw [answer, hroute]
  | some r =>
      have hrefused := refused_iff_of_route hbuild hroute
      have hready := ready_iff hbuild hroute
      rw [answer, hroute]
      simp only [handle, hmethod]
      cases hprepare : d.prepare r.endpoint request.method
          ⟨request.query, request.body, r.pathParams⟩ with
      | error failure =>
          have hready' : ∀ r' action, ¬d.Ready request r' action := by
            intro r' action h
            obtain rfl := Option.some.inj (h.route.symm.trans hroute)
            rw [hready, hprepare] at h
            cases h
          have hrefused' : ∀ c, d.Refused request c ↔ c = failure.code := by
            intro c
            rw [hrefused, hprepare]
            simp [eq_comm]
          exact ⟨_, Ends.unique_of_refused hready' hrefused' s.app,
            Response.reports_failure failure.code_ne_ok _, rfl⟩
      | ok action =>
          have honly : ∀ r' action', d.Ready request r' action' → r' = r ∧ action' = action := by
            intro r' action' h
            obtain rfl := Option.some.inj (h.route.symm.trans hroute)
            rw [hready, hprepare] at h
            exact ⟨rfl, (Except.ok.inj h).symm⟩
          have hrefused' : ∀ c, ¬d.Refused request c := by
            intro c
            rw [hrefused, hprepare]
            simp
          exact ⟨_, Ends.unique_of_ready ((hready action).mpr hprepare) honly hrefused' s.app,
            reports_outcome r _ _, (app_endingOf r _).symm⟩

theorem log_of_ends
    (hbuild : Router.build (Registry.run d.types calls) = .ok d.router) {log : σ → List String}
    (hlogs : d.Logs log) {app : σ} {ending : Ending σ} (h : d.Ends request context app ending) :
    log ending.app = log app ++ ending.runs := by
  have hran : ∀ {r action outcome next}, d.Ready request r action →
      action context r.endpoint.routeMeta app = (outcome, next) →
      log next = log app ++ [r.endpoint.name] := by
    intro r action outcome next hready hrun
    obtain ⟨hmem, -⟩ := Router.declares_of_route hbuild hready.route
    obtain ⟨value, -, hdecode, -⟩ := hready.accepted
    have hlog := hlogs _ hmem value action hdecode context r.endpoint.routeMeta app
    rwa [hrun] at hlog
  cases h with
  | refused h => simp
  | failed h hrun hfailure => exact hran h hrun
  | answered h hrun => exact hran h hrun

/-- The course of a call that no middleware answers.  It has exactly one ending.  A handler is run
exactly if a route matches and the request value is built, decoded and accepted, and then it is that
of the route, once: so the state of the application is what this one run leaves, and a log of runs
grows by it.  The answer is an envelope that reports the class and the data of the ending: that of
a success exactly if the handler gives an answer that can be written, otherwise without data and
with the class of the first stage that fails.  Middleware sees the answer afterwards, and the caller
gets this envelope unless some of it changes statuses or bodies. -/
theorem dispatch_ends
    (hbuild : Router.build (Registry.run d.types calls) = .ok d.router)
    (request : Call) (s : DispatchState σ)
    (hearly : (Middleware.beforeAll (d.contextIn request s) s.middlewares).2 = none) :
    ∃ ending,
      (∀ other, d.Ends request (d.contextIn request s) s.app other ↔ other = ending) ∧
      (∀ r action, d.Ready request r action → ending.runs = [r.endpoint.name]) ∧
      ((∀ r action, ¬d.Ready request r action) → ending.runs = []) ∧
      (d.dispatch request s).2.app = ending.app ∧
      (∀ log, d.Logs log → log ending.app = log s.app ++ ending.runs) ∧
      (ending.code = .ok ↔ ∃ r action headers, d.Ready request r action ∧
        (action (d.contextIn request s) r.endpoint.routeMeta s.app).1 =
          .answered ending.data headers) ∧
      (ending.code ≠ .ok → ending.data = .null) ∧
      (∃ answer : Response, answer.Reports ending.code ending.data ∧
        (d.dispatch request s).1 = (Middleware.afterAll (d.contextIn request s)
          (Middleware.beforeAll (d.contextIn request s) s.middlewares).1
          (answer.setHeader "x-request-id" request.requestId.text)).2) ∧
      ((∀ m ∈ s.middlewares, m.KeepsBody) →
        (d.dispatch request s).1.Reports ending.code ending.data) := by
  obtain ⟨hanswer, happ⟩ := dispatch_eq_of_early hearly
  obtain ⟨ending, hunique, hreports, hending⟩ :=
    exists_ending hbuild request s
  have hends := (hunique ending).mpr rfl
  refine ⟨ending, hunique, ?_, ?_, happ.trans hending, ?_, ?_, ?_, ⟨_, hreports, hanswer⟩, ?_⟩
  · intro r action hready
    cases hrun : action (d.contextIn request s) r.endpoint.routeMeta s.app with
    | mk outcome next =>
        cases outcome with
        | answered data headers => rw [← (hunique _).mp (.answered hready hrun)]
        | failed message => rw [← (hunique _).mp (.failed hready hrun trivial)]
        | aborted complaint => rw [← (hunique _).mp (.failed hready hrun trivial)]
        | unencodable complaint => rw [← (hunique _).mp (.failed hready hrun trivial)]
  · intro hnot
    cases hends with
    | refused h => rfl
    | failed h hrun hfailure => exact absurd h (hnot _ _)
    | answered h hrun => exact absurd h (hnot _ _)
  · intro log hlogs
    exact log_of_ends hbuild hlogs hends
  · constructor
    · intro hcode
      cases hends with
      | refused h => cases hcode; cases h
      | failed h hrun hfailure => cases hcode
      | @answered r action data headers next h hrun =>
          exact ⟨r, action, headers, h, by rw [hrun]⟩
    · rintro ⟨r, action, headers, hready, hrun⟩
      have hother := (hunique _).mp (.answered hready (Prod.ext hrun rfl))
      rw [← hother]
  · intro hcode
    cases hends with
    | refused h => rfl
    | failed h hrun hfailure => rfl
    | answered h hrun => exact absurd rfl hcode
  · intro hkeeps
    exact reports_dispatch hearly hkeeps hreports

/-! ## A handler that is aborted -/

/-- A handler that notes its run under a name and is aborted without a complaint. -/
def crashing (name : String) : Handler (List String) :=
  ⟨fun _ => .ok fun _ _ log => (.aborted none, log ++ [name])⟩

/-- The registration of an operation whose handler is aborted. -/
def crashCall : Registration (Handler (List String)) :=
  ⟨"/api", "Users", [⟨"Get", .named "GetUser", .unit, crashing "Users.Get"⟩]⟩

/-- A call of this operation. -/
def crashRequest : Call :=
  Call.ofTarget "GET" "/api/users/7" [] [] ⟨0⟩

theorem logs_crash
    {router : Router (Handler (List String))}
    (hbuild : Router.build (Registry.run Router.userTypes [crashCall]) = .ok router)
    (validate : Ty → Json → Except ValidationError Unit) :
    Logs ⟨Router.userTypes, router, validate⟩ id := by
  intro e he value action hdecode context info app
  rw [(Router.routes_of_build hbuild).1] at he
  obtain ⟨call, ⟨before, after, hcalls, -⟩, op, hop, hdeclares⟩ :=
    (Registry.run_accounted Router.userTypes [crashCall]).declared e he
  have hcall : call ∈ [crashCall] := by simp [hcalls]
  obtain rfl := List.mem_singleton.mp hcall
  obtain rfl : op = ⟨"Get", .named "GetUser", .unit, crashing "Users.Get"⟩ :=
    List.mem_singleton.mp (List.mem_of_mem_filter hop)
  rw [hdeclares.handler] at hdecode
  obtain rfl := Except.ok.inj hdecode
  simp [Endpoint.name, hdeclares.controller, hdeclares.operation, crashCall, handlerName]

/-- The handler is run once, and the caller learns no more than that something failed inside. -/
theorem dispatch_ends_of_crash :
    ∃ router, Router.build (Registry.run Router.userTypes [crashCall]) = .ok router ∧
      ∃ ending : Ending (List String), ending.runs = ["Users.Get"] ∧ ending.code = .internal ∧
        (dispatch ⟨Router.userTypes, router, Router.userTypes.validate⟩ crashRequest
          ⟨[], [.newMetrics], 0⟩).1.Reports ending.code ending.data := by
  let crashed (router : Router (Handler (List String))) :=
    dispatch ⟨Router.userTypes, router, Router.userTypes.validate⟩ crashRequest
      ⟨[], [.newMetrics], 0⟩
  have hcomputed : (Router.build (Registry.run Router.userTypes [crashCall])).toOption.map
      (fun router => ((crashed router).1.status, (crashed router).2.app)) =
      some (500, ["Users.Get"]) := by
    decide +kernel
  cases hbuild : Router.build (Registry.run Router.userTypes [crashCall]) with
  | error fault => simp [hbuild, Except.toOption] at hcomputed
  | ok router =>
      obtain ⟨hstatus, happ⟩ : (crashed router).1.status = 500 ∧
          (crashed router).2.app = ["Users.Get"] := by
        simpa [hbuild, Except.toOption] using hcomputed
      obtain ⟨ending, -, -, -, hending, hlog, -, -, -, hreports⟩ :=
        dispatch_ends (d := ⟨Router.userTypes, router, Router.userTypes.validate⟩) hbuild
          crashRequest ⟨[], [.newMetrics], 0⟩ rfl
      have hkept := hreports (by simp [Middleware.newMetrics, Middleware.KeepsBody])
      refine ⟨router, rfl, ending, ?_, ?_, hkept⟩
      · have hruns := hlog id (logs_crash hbuild _)
        rw [← hending] at hruns
        exact (hruns.symm.trans happ : [] ++ ending.runs = ["Users.Get"])
      · have hcode : ending.code.status = 500 := hkept.status.symm.trans hstatus
        cases hclass : ending.code with
        | internal => rfl
        | _ => simp [hclass, ErrorCode.status] at hcode

end Dispatcher
end TypedRoutes
