import TypedRoutes.Proofs.CallStages

/-!
# Calls one after another

Where all middleware only watches, a call gets its own answer and changes the application as its
handler does, or not at all.  This is what runs of a dispatcher are composed of.
-/

namespace TypedRoutes

theorem Headers.get?_set_of_not_sameName
    {name other : String} (h : sameName other name = false) (headers : Headers) (value : String) :
    (headers.set other value).get? name = headers.get? name := by
  have hkeeps : ∀ header : String × String,
      (!sameName header.1 other && sameName header.1 name) = sameName header.1 name := by
    intro header
    cases hname : sameName header.1 name with
    | false => simp
    | true =>
        have hother : sameName header.1 other = false := by
          simp only [sameName, beq_iff_eq, beq_eq_false_iff_ne] at h hname ⊢
          rw [hname]
          exact h.symm
        simp [hother]
  simp [get?, set, List.find?_append, List.find?_filter, hkeeps, h]

/-! ## Answers -/

namespace Response

variable {response : Response} {code : ErrorCode} {data : Json}

theorem Reports.code? (h : response.Reports code data) : response.code? = some code.code := by
  obtain ⟨message, hbody, -⟩ := h.body
  have hnumber : isCodeNumber code.code = true := by cases code <;> decide
  simp [Response.code?, hbody, Json.member?, Json.members, Members.find?, Json.code?, hnumber]

theorem Reports.member?_data
    (h : response.Reports code data) : response.body.member? "data" = some data := by
  obtain ⟨message, hbody, -⟩ := h.body
  simp [hbody, Json.member?, Json.members, Members.find?, List.lookup_cons]

/-- Only successes have the code of a success. -/
theorem Reports.code?_eq_ok_iff
    (h : response.Reports code data) :
    response.code? = some ErrorCode.ok.code ↔ code = .ok := by
  rw [h.code?]
  cases code <;> decide

end Response

/-! ## Middleware that only watches -/

/-- The middleware answers no call and changes no answer. -/
def Middleware.Watches : Middleware → Prop
  | .tracing _ | .metrics _ => True
  | .hooks _ _ => False

namespace Middleware

variable {context : CallContext} {middlewares : List Middleware}

theorem Watches.before
    {m : Middleware} (h : m.Watches) (context : CallContext) :
    (m.before context).2 = none ∧ (m.before context).1.Watches := by
  cases m with
  | tracing inFlight => exact ⟨rfl, trivial⟩
  | metrics counters => exact ⟨rfl, trivial⟩
  | hooks before after => exact h.elim

theorem Watches.after
    {m : Middleware} (h : m.Watches) (context : CallContext) (response : Response) :
    (m.after context response).2 = response ∧ (m.after context response).1.Watches := by
  cases m with
  | tracing inFlight => exact ⟨rfl, trivial⟩
  | metrics counters => exact ⟨rfl, trivial⟩
  | hooks before after => exact h.elim

theorem beforeAll_of_watches
    (h : ∀ m ∈ middlewares, m.Watches) (context : CallContext) :
    (beforeAll context middlewares).2 = none ∧
      ∀ m ∈ (beforeAll context middlewares).1, m.Watches := by
  constructor
  · simp only [beforeAll, List.findSome?_eq_none_iff, List.forall_mem_map]
    exact fun m hm => ((h m hm).before context).1
  · simp only [beforeAll, List.map_map, List.forall_mem_map]
    exact fun m hm => ((h m hm).before context).2

theorem afterAll_of_watches
    (h : ∀ m ∈ middlewares, m.Watches) (response : Response) :
    (afterAll context middlewares response).2 = response ∧
      ∀ m ∈ (afterAll context middlewares response).1, m.Watches := by
  induction middlewares generalizing response with
  | nil => simp [afterAll]
  | cons m rest ih =>
      obtain ⟨hsame, hwatches⟩ := (h m (by simp)).after context response
      obtain ⟨hsame', hwatches'⟩ := ih (fun m hm => h m (by simp [hm])) (m.after context response).2
      exact ⟨hsame'.trans hsame, List.forall_mem_cons.mpr ⟨hwatches, hwatches'⟩⟩

end Middleware

namespace Dispatcher

variable {σ : Type} {d : Dispatcher σ} {request : Call} {s : DispatchState σ}

/-- A call that is watched gets its own answer, under its identifier. -/
theorem dispatch_of_watches
    (h : ∀ m ∈ s.middlewares, m.Watches) (request : Call) :
    (d.dispatch request s).1 =
        (d.answer request (d.contextIn request s) s.app).1.setHeader "x-request-id"
          request.requestId.text ∧
      (d.dispatch request s).2.app = (d.answer request (d.contextIn request s) s.app).2 ∧
      ∀ m ∈ (d.dispatch request s).2.middlewares, m.Watches := by
  obtain ⟨hearly, hbefore⟩ := Middleware.beforeAll_of_watches h (d.contextIn request s)
  obtain ⟨hresponse, happ⟩ := dispatch_eq_of_early hearly
  refine ⟨hresponse.trans (Middleware.afterAll_of_watches hbefore _).1, happ, ?_⟩
  exact (Middleware.afterAll_of_watches hbefore _).2

/-! ## Sequences of calls -/

/-- Calls that are dispatched one after another, with their answers, and the state afterwards. -/
def exchange (d : Dispatcher σ) (start : DispatchState σ) (calls : List Call) :
    List (Call × Response) × DispatchState σ :=
  calls.foldl
    (fun (exchanges, s) request =>
      let (response, s) := d.dispatch request s
      (exchanges ++ [(request, response)], s))
    ([], start)

theorem exchange_concat
    (start : DispatchState σ) (calls : List Call) (request : Call) :
    d.exchange start (calls ++ [request]) =
      ((d.exchange start calls).1 ++
          [(request, (d.dispatch request (d.exchange start calls).2).1)],
        (d.dispatch request (d.exchange start calls).2).2) := by
  simp [exchange, List.foldl_append]

/-- What a call that succeeds or fails before its handler is run leaves behind. -/
inductive Handled (d : Dispatcher σ) (request : Call) (s : DispatchState σ) :
    Response × σ → Prop
  | refused {response : Response} {code : ErrorCode} (hcode : code ≠ .ok)
      (hreports : response.Reports code .null)
      (hprepare : ∀ r, d.router.route request.method request.path = some r →
        ∀ action, d.prepare r.endpoint request.method
          ⟨request.query, request.body, r.pathParams⟩ ≠ .ok action) :
      Handled d request s (response, s.app)
  | run {r : RouteMatch (Handler σ)} {action : Action σ} {outcome : Outcome} {next : σ}
      (hroute : d.router.route request.method request.path = some r)
      (hprepare : d.prepare r.endpoint request.method
        ⟨request.query, request.body, r.pathParams⟩ = .ok action)
      (hrun : action (d.contextIn request s) r.endpoint.routeMeta s.app = (outcome, next)) :
      Handled d request s (.ofResult outcome.result, next)

/-- A call is prepared and its handler is run, or it fails and the application stays as it is. -/
theorem handled_answer
    (d : Dispatcher σ) (request : Call) (s : DispatchState σ) :
    d.Handled request s (d.answer request (d.contextIn request s) s.app) := by
  rw [answer]
  cases hroute : d.router.route request.method request.path with
  | none =>
      refine .refused ?_ (reports_unrouted (d.contextIn request s)) fun r hr => ?_
      · split
        · intro h
          cases h
        · intro h
          cases h
      · rw [hroute] at hr
        cases hr
  | some r =>
      simp only [handle]
      have hmethod : (d.contextIn request s).method = request.method := rfl
      rw [hmethod]
      cases hprepare : d.prepare r.endpoint request.method
          ⟨request.query, request.body, r.pathParams⟩ with
      | error failure =>
          refine .refused failure.code_ne_ok
            (Response.reports_failure failure.code_ne_ok failure.message) ?_
          intro r' hr' action haction
          obtain rfl := Option.some.inj (hroute.symm.trans hr')
          rw [hprepare] at haction
          cases haction
      | ok action => exact .run hroute hprepare rfl

end Dispatcher
end TypedRoutes
