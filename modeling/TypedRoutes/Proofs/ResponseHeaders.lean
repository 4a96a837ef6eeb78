import TypedRoutes.Proofs.CallSequences

/-!
# The headers of an answer

The headers of an answer are set one after the other: the content type with the body, then what the
handler attaches, in order, or the methods of a path, and last the identifier of the call.  A header
that is set replaces those of its name, whatever the case of the letters, so that every name is
there once, with the value that was set last.
-/

namespace TypedRoutes

namespace Headers

variable {headers additions : Headers} {name other value : String}

/-- No two headers have the same name. -/
def Distinct (headers : Headers) : Prop :=
  (headers.map fun header => Text.lowerAscii header.1).Nodup

/-- The value of the last header of a name. -/
def last? (headers : Headers) (name : String) : Option String :=
  get? headers.reverse name

theorem sameName_iff : sameName name other = true ↔ Text.lowerAscii name = Text.lowerAscii other :=
  beq_iff_eq

theorem get?_eq_of_sameName
    (h : sameName name other = true) (headers : Headers) :
    headers.get? name = headers.get? other := by
  have hsame : ∀ header : String × String, sameName header.1 name = sameName header.1 other := by
    intro header
    rw [sameName, sameName, sameName_iff.mp h]
  simp only [get?, hsame]

/-- A header that is set hides those of its name and no others. -/
theorem get?_set_eq
    (headers : Headers) (other value name : String) :
    (headers.set other value).get? name =
      if sameName other name then some value else headers.get? name := by
  cases h : sameName other name with
  | true => rw [if_pos rfl, ← get?_eq_of_sameName h, get?_set]
  | false => rw [if_neg Bool.false_ne_true, get?_set_of_not_sameName h]

theorem last?_cons
    (header : String × String) (headers : Headers) (name : String) :
    last? (header :: headers) name =
      (headers.last? name).or (if sameName header.1 name then some header.2 else none) := by
  rw [last?, last?, List.reverse_cons, get?, get?, List.find?_append]
  cases List.find? (fun header => sameName header.1 name) headers.reverse with
  | some found => rfl
  | none => cases h : sameName header.1 name <;> simp [h]

/-- Of headers that are set one after the other the last of each name counts. -/
theorem get?_setAll
    (headers additions : Headers) (name : String) :
    (headers.setAll additions).get? name = (additions.last? name).or (headers.get? name) := by
  induction additions generalizing headers with
  | nil => rfl
  | cons addition rest ih =>
      have hset : headers.setAll (addition :: rest) =
          (headers.set addition.1 addition.2).setAll rest := rfl
      rw [hset, ih, last?_cons, get?_set_eq, Option.or_assoc]
      cases sameName addition.1 name <;> rfl

theorem Distinct.set
    (h : headers.Distinct) (name value : String) : (headers.set name value).Distinct := by
  rw [Distinct, Headers.set, List.map_append, List.nodup_append]
  refine ⟨h.sublist (List.filter_sublist.map _), List.nodup_singleton _, ?_⟩
  rintro _ hkept _ hnew heq
  obtain ⟨header, hheader, rfl⟩ := List.mem_map.mp hkept
  obtain ⟨-, hother⟩ := List.mem_filter.mp hheader
  have hsame : sameName header.1 name = true :=
    sameName_iff.mpr (heq.trans (List.mem_singleton.mp hnew))
  simp [hsame] at hother

theorem Distinct.setAll
    (h : headers.Distinct) (additions : Headers) : (headers.setAll additions).Distinct := by
  induction additions generalizing headers with
  | nil => exact h
  | cons addition rest ih => exact ih (h.set addition.1 addition.2)

/-- What announces a body as JSON. -/
def json : Headers :=
  [("content-type", "application/json")]

theorem distinct_json : json.Distinct :=
  List.nodup_singleton _

theorem get?_json (name : String) :
    json.get? name = if sameName "content-type" name then some "application/json" else none := by
  cases h : sameName "content-type" name <;> simp [json, get?, h]

end Headers

/-- The headers that an outcome attaches to the answer. -/
def Outcome.attached? : Outcome → Option Headers
  | .answered _ headers => some headers
  | .failed _ | .aborted _ | .unencodable _ => none

theorem Outcome.headers_ofResult (outcome : Outcome) :
    (Response.ofResult outcome.result).headers =
      Headers.json.setAll (outcome.attached?.getD []) := by
  cases outcome <;> rfl

namespace Dispatcher

variable {σ : Type} {d : Dispatcher σ} {request : Call} {s : DispatchState σ}

/-- The headers that the handler of a call attaches, if the call gets to it and it succeeds. -/
def attached? (d : Dispatcher σ) (request : Call) (s : DispatchState σ) : Option Headers := do
  let r ← d.router.route request.method request.path
  let action ← (d.prepare r.endpoint request.method
    ⟨request.query, request.body, r.pathParams⟩).toOption
  (action (d.contextIn request s) r.endpoint.routeMeta s.app).1.attached?

/-- What the headers of an answer are before the identifier of the call is set. -/
theorem headers_answer
    (d : Dispatcher σ) (request : Call) (s : DispatchState σ) :
    (d.answer request (d.contextIn request s) s.app).1.headers =
        Headers.json.setAll ((d.attached? request s).getD []) ∨
      d.attached? request s = none ∧ ∃ methods,
        (d.answer request (d.contextIn request s) s.app).1.headers =
          Headers.json.set "allow" methods := by
  rw [answer, attached?]
  cases hroute : d.router.route request.method request.path with
  | none =>
      simp only [unrouted]
      cases (d.router.allowedMethods (d.contextIn request s).path).map Verb.name with
      | nil => exact .inl rfl
      | cons verb rest => exact .inr ⟨rfl, _, rfl⟩
  | some r =>
      left
      have hmethod : (d.contextIn request s).method = request.method := rfl
      simp only [handle, hmethod, Option.bind_eq_bind, Option.bind_some]
      cases d.prepare r.endpoint request.method ⟨request.query, request.body, r.pathParams⟩ with
      | error failure => rfl
      | ok action => exact Outcome.headers_ofResult _

/-- The headers of the answer to a call, where no middleware answers it or changes headers.  Their
names are distinct, whatever the case of the letters.  The identifier of the call, which the handler
learns from its context, is among them even if the handler sets another.  What else the handler of a
call that succeeds attaches is there with the last value that it gave, and beyond that only the
content type, which is that of JSON unless such a handler sets it. -/
theorem dispatch_headers_form_map
    (hearly : (Middleware.beforeAll (d.contextIn request s) s.middlewares).2 = none)
    (hkeeps : ∀ m ∈ s.middlewares, m.Keeps Response.headers) :
    (d.dispatch request s).1.headers.Distinct ∧
    (d.dispatch request s).1.header? "x-request-id" =
      some (d.contextIn request s).requestId.text ∧
    (∀ headers, d.attached? request s = some headers →
      ∀ name, Headers.sameName "x-request-id" name = false →
        (d.dispatch request s).1.header? name = (headers.last? name).or
          (if Headers.sameName "content-type" name then some "application/json" else none)) ∧
    (((d.attached? request s).bind fun headers => headers.last? "content-type") = none →
      (d.dispatch request s).1.header? "content-type" = some "application/json") := by
  have hheaders : (d.dispatch request s).1.headers =
      (d.answer request (d.contextIn request s) s.app).1.headers.set "x-request-id"
        request.requestId.text := by
    rw [(dispatch_eq_of_early hearly).1]
    exact Middleware.Keeps.afterAll (Middleware.Keeps.beforeAll hkeeps) _
  have hother : ∀ name, Headers.sameName "x-request-id" name = false →
      (d.dispatch request s).1.header? name =
        (d.answer request (d.contextIn request s) s.app).1.headers.get? name := by
    intro name hname
    rw [Response.header?, hheaders, Headers.get?_set_of_not_sameName hname]
  have hanswer := d.headers_answer request s
  refine ⟨?_, ?_, ?_, ?_⟩
  · rw [hheaders]
    apply Headers.Distinct.set
    rcases hanswer with heq | ⟨-, methods, heq⟩
    · rw [heq]
      exact Headers.distinct_json.setAll _
    · rw [heq]
      exact Headers.distinct_json.set _ _
  · rw [Response.header?, hheaders, Headers.get?_set]
    rfl
  · intro headers hattached name hname
    rw [hattached] at hanswer
    rcases hanswer with heq | ⟨hnone, -⟩
    · rw [hother name hname, heq, Headers.get?_setAll, Headers.get?_json]
      rfl
    · cases hnone
  · intro hunset
    rw [hother "content-type" (by decide)]
    rcases hanswer with heq | ⟨-, methods, heq⟩
    · have hlast : ((d.attached? request s).getD []).last? "content-type" = none := by
        cases hattached : d.attached? request s with
        | none => rfl
        | some headers => simpa [hattached] using hunset
      rw [heq, Headers.get?_setAll, hlast]
      rfl
    · rw [heq]
      rfl

/-! ## A handler that sets headers -/

/-- A handler that sets one header twice and tries to set the identifier of the call. -/
def tagging : Handler (List String) :=
  ⟨fun _ => .ok fun _ _ log =>
    (.answered .null [("X-Tag", "a"), ("X-Request-Id", "mine"), ("x-tag", "b")], log)⟩

/-- The registration of an operation with this handler. -/
def taggingCall : Registration (Handler (List String)) :=
  ⟨"/api", "Users", [⟨"Get", .named "GetUser", .unit, tagging⟩]⟩

/-- The second of the two values counts, and the identifier stays that of the call. -/
theorem dispatch_headers_form_map_tagging :
    ∃ router, Router.build (Registry.run Router.userTypes [taggingCall]) = .ok router ∧
      ∃ response, (dispatch ⟨Router.userTypes, router, Router.userTypes.validate⟩ crashRequest
          ⟨[], [.newMetrics], 0⟩).1 = response ∧
        response.headers.Distinct ∧ response.header? "X-TAG" = some "b" ∧
        response.header? "x-request-id" = some crashRequest.requestId.text := by
  have hcomputed : (Router.build (Registry.run Router.userTypes [taggingCall])).toOption.map
      (fun router => (attached? ⟨Router.userTypes, router, Router.userTypes.validate⟩ crashRequest
        ⟨[], [.newMetrics], 0⟩)) =
      some (some [("X-Tag", "a"), ("X-Request-Id", "mine"), ("x-tag", "b")]) := by
    decide +kernel
  obtain ⟨router, hbuild, hattached⟩ := Results.exists_of_toOption_map hcomputed
  have hkeeps : ∀ m ∈ [Middleware.newMetrics], m.Keeps Response.headers := by
    simp [Middleware.newMetrics, Middleware.Keeps]
  have hearly : (Middleware.beforeAll (contextIn ⟨Router.userTypes, router,
      Router.userTypes.validate⟩ crashRequest ⟨[], [.newMetrics], 0⟩) [.newMetrics]).2 = none :=
    rfl
  obtain ⟨hdistinct, hid, hlast, -⟩ :=
    dispatch_headers_form_map (s := ⟨[], [.newMetrics], 0⟩) hearly hkeeps
  exact ⟨router, hbuild, _, rfl, hdistinct, hlast _ hattached "X-TAG" (by decide), hid⟩

end Dispatcher
end TypedRoutes
