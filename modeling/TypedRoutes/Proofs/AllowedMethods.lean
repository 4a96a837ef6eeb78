import TypedRoutes.Proofs.CallSequences

/-!
# The methods that a path is served under

A router lists the methods of the endpoints whose patterns match a path, each once, in the order in
which it tries routes: the method whose first endpoint has fewer variables comes first, and among
equally many the one whose first endpoint was registered first.  A call whose own method is not
among them is answered with this list, or with the news that nothing is found where it is empty.
-/

namespace TypedRoutes

/-! ## The first place of a kind -/

/-- A place in a list, a position with its element, that satisfies `p` and comes before every other
such place. -/
structure IsFirst {α : Type} (before : Nat × α → Nat × α → Prop) (p : α → Prop) (xs : List α)
    (place : Nat × α) : Prop where
  get : xs[place.1]? = some place.2
  holds : p place.2
  first : ∀ other : Nat × α, xs[other.1]? = some other.2 → p other.2 → other.1 ≠ place.1 →
    before place other

/-- Places in the order of a list. -/
def Earlier {α : Type} (a b : Nat × α) : Prop :=
  a.1 < b.1

/-- Places by rank, those of one rank in the order of the list. -/
def EarlierRanked {α : Type} (rank : α → Nat) (a b : Nat × α) : Prop :=
  rank a.2 < rank b.2 ∨ rank a.2 = rank b.2 ∧ a.1 < b.1

theorem EarliestLeast.exists_isFirst
    {α : Type} {rank : α → Nat} {p : α → Prop} {xs : List α} {x : α}
    (h : EarliestLeast rank p xs x) : ∃ i, IsFirst (EarlierRanked rank) p xs (i, x) := by
  obtain ⟨before, after, rfl, hp, hbefore, hafter⟩ := h
  refine ⟨before.length, by simp, hp, ?_⟩
  rintro ⟨j, y⟩ hget hpy hne
  rcases Nat.lt_or_ge j before.length with hlt | hge
  · rw [List.getElem?_append_left hlt] at hget
    exact .inl (hbefore y (List.mem_of_getElem? hget) hpy)
  · have hgt : before.length < j := Nat.lt_of_le_of_ne hge (Ne.symm hne)
    rw [List.getElem?_append_right hge, List.getElem?_cons, if_neg (by omega)] at hget
    have hle : rank x ≤ rank y := hafter y (List.mem_of_getElem? hget) hpy
    rcases Nat.lt_or_eq_of_le hle with hrank | hrank
    · exact .inl hrank
    · exact .inr ⟨hrank, hgt⟩

/-- Where ranks do not fall along the list, the order by rank is that of the list. -/
theorem EarlierRanked.earlier
    {α : Type} {rank : α → Nat} {p : α → Prop} {xs : List α}
    (hsorted : xs.Pairwise fun x y => p x → p y → rank x ≤ rank y) {a b : Nat × α}
    (ha : xs[a.1]? = some a.2) (hb : xs[b.1]? = some b.2) (hpa : p a.2) (hpb : p b.2)
    (h : EarlierRanked rank a b) : Earlier a b := by
  rcases h with hlt | ⟨-, hlt⟩
  · rcases Nat.lt_trichotomy a.1 b.1 with hab | hab | hba
    · exact hab
    · have hsame : a.2 = b.2 := Option.some.inj (ha.symm.trans (hab ▸ hb))
      exact absurd hlt (hsame ▸ Nat.lt_irrefl _)
    · obtain ⟨hbound, hget⟩ := List.getElem?_eq_some_iff.mp ha
      obtain ⟨hbound', hget'⟩ := List.getElem?_eq_some_iff.mp hb
      have hle := List.pairwise_iff_getElem.mp hsorted b.1 a.1 hbound' hbound hba
      rw [hget, hget'] at hle
      have := hle hpb hpa
      omega
  · exact hlt

theorem IsFirst.earlier
    {α : Type} {rank : α → Nat} {p q : α → Prop} {xs : List α}
    (hsorted : xs.Pairwise fun x y => p x → p y → rank x ≤ rank y) {a : Nat × α}
    (hq : ∀ x, q x → p x) (h : IsFirst (EarlierRanked rank) q xs a) :
    IsFirst Earlier q xs a where
  get := h.get
  holds := h.holds
  first other hget hqo hne :=
    (h.first other hget hqo hne).earlier hsorted h.get hget (hq _ h.holds) (hq _ hqo)

/-! ## Endpoints that match a path -/

variable {H : Type}

/-- The path pattern of the endpoint matches the path. -/
def Endpoint.Covers (e : Endpoint H) (path : String) : Prop :=
  ∃ texts, Path.Matches e.path path texts

/-- Methods in the order of the first endpoints of each that match a path. -/
def ListsInOrder (before : Nat × Endpoint H → Nat × Endpoint H → Prop)
    (endpoints : List (Endpoint H)) (path : String) (verbs : List Verb) : Prop :=
  verbs.Pairwise fun v w => ∃ a b,
    IsFirst before (fun e => e.method = v ∧ e.Covers path) endpoints a ∧
      IsFirst before (fun e => e.method = w ∧ e.Covers path) endpoints b ∧ before a b

namespace Router

/-- Whether a route matches a path and has one of two methods. -/
def servesEither (v w : Verb) (path : String) (route : Route H) : Bool :=
  route.pattern.isMatch path && (route.endpoint.method == v || route.endpoint.method == w)

theorem isMatch_eq_true_iff
    {route : Route H} (hroute : IsCompiled route) (path : String) :
    route.pattern.isMatch path = true ↔ route.endpoint.Covers path :=
  Pattern.isMatch_eq_true_iff hroute path

theorem servesEither_eq_true_iff
    {route : Route H} (hroute : IsCompiled route) (v w : Verb) (path : String) :
    servesEither v w path route = true ↔
      (route.endpoint.method = v ∨ route.endpoint.method = w) ∧ route.endpoint.Covers path := by
  rw [servesEither, Bool.and_eq_true, isMatch_eq_true_iff hroute, and_comm]
  simp

theorem allowedMethods_concat
    (controllers : List (RegisteredController H)) (routes : List (Route H)) (route : Route H)
    (path : String) :
    allowedMethods ⟨controllers, routes ++ [route]⟩ path =
      if route.pattern.isMatch path = true ∧
          route.endpoint.method ∉ allowedMethods ⟨controllers, routes⟩ path then
        allowedMethods ⟨controllers, routes⟩ path ++ [route.endpoint.method]
      else allowedMethods ⟨controllers, routes⟩ path := by
  by_cases hmatch : route.pattern.isMatch path = true
  · simp [allowedMethods, List.filter_append, hmatch, ite_not]
  · simp [allowedMethods, List.filter_append, hmatch]

/-- Of two listed methods the earlier is that of the first tried route that has either. -/
theorem allowedMethods_pairwise
    (controllers : List (RegisteredController H)) (routes : List (Route H)) (path : String) :
    (allowedMethods ⟨controllers, routes⟩ path).Pairwise fun v w =>
      v ≠ w ∧ ∃ route, routes.find? (servesEither v w path) = some route ∧
        route.endpoint.method = v := by
  induction routes using List.reverseRecOn with
  | nil => simp [allowedMethods]
  | append_singleton routes last ih =>
      have hkept : (allowedMethods ⟨controllers, routes⟩ path).Pairwise fun v w =>
          v ≠ w ∧ ∃ route, (routes ++ [last]).find? (servesEither v w path) = some route ∧
            route.endpoint.method = v := by
        apply ih.imp
        rintro v w ⟨hne, route, hfind, hmethod⟩
        exact ⟨hne, route, by simp [List.find?_append, hfind], hmethod⟩
      rw [allowedMethods_concat]
      split
      · rename_i hlast
        apply List.pairwise_append.mpr
        refine ⟨hkept, List.pairwise_singleton .., ?_⟩
        rintro v hv w hw
        obtain rfl := List.mem_singleton.mp hw
        refine ⟨fun heq => hlast.2 (heq ▸ hv), ?_⟩
        -- a route of the method `v` was tried before, and none of the last route's method
        obtain ⟨r, hr, hmatch, rfl⟩ := (mem_allowedMethods_iff _ _ _).mp hv
        have hsome : (routes.find?
            (servesEither r.endpoint.method last.endpoint.method path)).isSome = true :=
          List.find?_isSome.mpr ⟨r, hr, by simp [servesEither, hmatch]⟩
        obtain ⟨route, hfind⟩ := Option.isSome_iff_exists.mp hsome
        refine ⟨route, by simp [List.find?_append, hfind], ?_⟩
        have hserves := List.find?_some hfind
        simp only [servesEither, Bool.and_eq_true, Bool.or_eq_true, beq_iff_eq] at hserves
        rcases hserves.2 with hmethod | hmethod
        · exact hmethod
        · exfalso
          exact hlast.2 ((mem_allowedMethods_iff _ _ _).mpr
            ⟨route, List.mem_of_find?_eq_some hfind, hserves.1, hmethod⟩)
      · exact hkept

theorem nodup_allowedMethods (router : Router H) (path : String) :
    (router.allowedMethods path).Nodup :=
  (allowedMethods_pairwise router.controllers router.routes path).imp And.left

variable {registry : Registry H} {router : Router H}

/-- The listed methods are those of the endpoints that match the path. -/
theorem mem_allowedMethods_iff_covers
    (hbuild : build registry = .ok router) {path : String} {verb : Verb} :
    verb ∈ router.allowedMethods path ↔
      ∃ e ∈ router.endpoints, e.method = verb ∧ e.Covers path := by
  obtain ⟨hendpoints, routes, hroutes, hmap, hcompiled⟩ := routes_of_build hbuild
  rw [mem_allowedMethods_iff, hendpoints, ← hmap, hroutes]
  simp only [mem_tried, List.mem_map, exists_exists_and_eq_and]
  apply exists_congr
  intro r
  apply and_congr_right
  intro hr
  rw [isMatch_eq_true_iff (hcompiled r hr), and_comm]

/-- The first tried route that matches a path and has one of two methods is that of the first
endpoint of this kind. -/
theorem exists_isFirst_of_find?
    {routes : List (Route H)} (hcompiled : ∀ r ∈ routes, IsCompiled r) {v w : Verb} {path : String}
    {route : Route H} (h : (tried routes).find? (servesEither v w path) = some route) :
    ∃ i, IsFirst (EarlierRanked Endpoint.rank)
      (fun e => (e.method = v ∨ e.method = w) ∧ e.Covers path) (routes.map Route.endpoint)
      (i, route.endpoint) := by
  apply EarliestLeast.exists_isFirst
  apply (find?_tried h).map
  · intro r hr
    exact rank_eq (hcompiled r hr)
  · intro r hr hserves
    exact (servesEither_eq_true_iff (hcompiled r hr) v w path).mpr hserves
  · have hmem := mem_tried.mp (List.mem_of_find?_eq_some h)
    exact (servesEither_eq_true_iff (hcompiled _ hmem) v w path).mp (List.find?_some h)

theorem listsInOrder_allowedMethods
    (hbuild : build registry = .ok router) (path : String) :
    ListsInOrder (EarlierRanked Endpoint.rank) router.endpoints path
      (router.allowedMethods path) := by
  obtain ⟨hendpoints, routes, hroutes, hmap, hcompiled⟩ := routes_of_build hbuild
  have hpairs := allowedMethods_pairwise router.controllers router.routes path
  apply hpairs.imp_of_mem
  rintro v w - hw ⟨hne, route, hfind, hv⟩
  rw [hroutes] at hfind
  obtain ⟨i, hfirst⟩ := exists_isFirst_of_find? hcompiled hfind
  -- the first endpoint of the method `w` alone
  obtain ⟨r, hr, hmatch, hrw⟩ := (mem_allowedMethods_iff _ _ _).mp hw
  have hsome : ((tried routes).find? (servesEither w w path)).isSome = true :=
    List.find?_isSome.mpr ⟨r, hroutes ▸ hr, by simp [servesEither, hmatch, hrw]⟩
  obtain ⟨route', hfind'⟩ := Option.isSome_iff_exists.mp hsome
  obtain ⟨j, hfirst'⟩ := exists_isFirst_of_find? hcompiled hfind'
  simp only [or_self] at hfirst'
  rw [hendpoints, ← hmap]
  refine ⟨(i, route.endpoint), (j, route'.endpoint), ?_, hfirst', ?_⟩
  · exact ⟨hfirst.get, ⟨hv, hfirst.holds.2⟩,
      fun other hget hother hi => hfirst.first other hget ⟨.inl hother.1, hother.2⟩ hi⟩
  · apply hfirst.first (j, route'.endpoint) hfirst'.get ⟨.inr hfirst'.holds.1, hfirst'.holds.2⟩
    rintro rfl
    have hsame := Option.some.inj (hfirst.get.symm.trans hfirst'.get)
    exact hne (hv.symm.trans ((congrArg Endpoint.method hsame).trans hfirst'.holds.1))

/-- The methods that a path is served under are those of the endpoints that match it, each once.
They stand in the order of the first such endpoint of each, where endpoints with fewer variables
come first and those with equally many as they were registered.  So they stand in the order of
registration where matching endpoints are registered from the fewest variables to the most. -/
theorem allowedMethods_lists_in_order_tried
    (hbuild : build registry = .ok router) (path : String) :
    (router.allowedMethods path).Nodup ∧
    (∀ verb, verb ∈ router.allowedMethods path ↔
      ∃ e ∈ router.endpoints, e.method = verb ∧ e.Covers path) ∧
    ListsInOrder (EarlierRanked Endpoint.rank) router.endpoints path
      (router.allowedMethods path) ∧
    (router.endpoints.Pairwise (fun a b => a.Covers path → b.Covers path → a.rank ≤ b.rank) →
      ListsInOrder Earlier router.endpoints path (router.allowedMethods path)) := by
  have hlists := listsInOrder_allowedMethods hbuild path
  refine ⟨nodup_allowedMethods router path,
    fun _ => mem_allowedMethods_iff_covers hbuild, hlists, ?_⟩
  intro hsorted
  apply hlists.imp
  rintro v w ⟨a, b, ha, hb, hab⟩
  exact ⟨a, b, ha.earlier hsorted fun _ => And.right, hb.earlier hsorted fun _ => And.right,
    hab.earlier hsorted ha.get hb.get ha.holds.2 hb.holds.2⟩

/-! ## A literal path registered last -/

/-- A user is changed by id, and the calling user is shown: the path with a variable is registered
first. -/
def changesRegistry : Registry Unit :=
  ⟨[⟨"Users", [{ getEndpoint "Change" "/users/\x7bid\x7d" with method := .post },
    getEndpoint "Me" "/users/me"]⟩]⟩

theorem exists_build_changesRegistry :
    ∃ router, build changesRegistry = .ok router ∧
      router.allowedMethods "/users/me" = [.get, .post] := by
  have hcomputed : (build changesRegistry).toOption.map (fun router =>
      router.allowedMethods "/users/me") = some [.get, .post] := by
    decide
  cases hbuild : build changesRegistry with
  | error e => simp [hbuild, Except.toOption] at hcomputed
  | ok router => exact ⟨router, rfl, by simpa [hbuild, Except.toOption] using hcomputed⟩

/-- The calling user's path is served under `GET` first, as its endpoint has no variables. -/
theorem allowedMethods_lists_in_order_tried_changes :
    ∃ router, build changesRegistry = .ok router ∧
      ListsInOrder (EarlierRanked Endpoint.rank) router.endpoints "/users/me" [.get, .post] := by
  obtain ⟨router, hbuild, hallowed⟩ := exists_build_changesRegistry
  have hlists := (allowedMethods_lists_in_order_tried hbuild "/users/me").2.2.1
  rw [hallowed] at hlists
  exact ⟨router, hbuild, hlists⟩

/-- The methods do not stand in the order of registration: the endpoint for `POST` was registered
before that for `GET`. -/
theorem allowedMethods_not_in_order_of_registration :
    ∃ router, build changesRegistry = .ok router ∧
      ¬ListsInOrder Earlier router.endpoints "/users/me" (router.allowedMethods "/users/me") := by
  obtain ⟨router, hbuild, hallowed⟩ := exists_build_changesRegistry
  refine ⟨router, hbuild, ?_⟩
  rw [hallowed, (routes_of_build hbuild).1]
  intro hlists
  obtain ⟨⟨i, e⟩, ⟨j, e'⟩, ha, hb, hlt⟩ : ∃ a b : Nat × Endpoint Unit,
      IsFirst Earlier (fun e => e.method = .get ∧ e.Covers "/users/me")
          changesRegistry.endpoints a ∧
        IsFirst Earlier (fun e => e.method = .post ∧ e.Covers "/users/me")
          changesRegistry.endpoints b ∧ Earlier a b := by
    simpa using List.rel_of_pairwise_cons hlists (List.mem_singleton_self _)
  have hi : 1 ≤ i := by
    by_contra hzero
    obtain rfl : i = 0 := by omega
    obtain rfl := Option.some.inj ha.get
    cases ha.holds.1
  have hj : j < 1 := by
    by_contra hone
    match j, hone with
    | 1, _ =>
        obtain rfl := Option.some.inj hb.get
        cases hb.holds.1
    | j + 2, _ => cases hb.get
  exact absurd hlt (by simp only [Earlier]; omega)

end Router

/-! ## Calls that no endpoint serves -/

/-- What the answer to a call that no endpoint serves is told by: its status, its outcome code and
the methods that it names. -/
def Response.refusal (response : Response) : Nat × Option Int × Option String :=
  (response.status, response.code?, response.header? "allow")

namespace Dispatcher

variable {σ : Type} {d : Dispatcher σ} {registry : Registry (Handler σ)} {context : CallContext}

/-- The answer to a call without a route names the methods of its path, where there are any. -/
theorem refusal_unrouted
    (d : Dispatcher σ) (path : String) (hpath : context.path = path) (requestId : String) :
    ((d.unrouted context).setHeader "x-request-id" requestId).refusal =
      if d.router.allowedMethods path = [] then (404, some 65, none)
      else (405, some 59,
        some (", ".intercalate ((d.router.allowedMethods path).map Verb.name))) := by
  subst hpath
  have hname : Headers.sameName "x-request-id" "allow" = false := by decide
  have hheader : ∀ response : Response,
      (response.setHeader "x-request-id" requestId).header? "allow" = response.header? "allow" :=
    fun response => Headers.get?_set_of_not_sameName hname response.headers requestId
  have hreports : ((d.unrouted context).setHeader "x-request-id" requestId).Reports _ .null :=
    (d.reports_unrouted context).of_eq rfl rfl
  rw [Response.refusal, hheader, hreports.status, hreports.code?, unrouted]
  cases hallowed : d.router.allowedMethods context.path with
  | nil => rfl
  | cons verb rest =>
      have hne : verb :: rest ≠ [] := List.cons_ne_nil verb rest
      rw [if_neg hne, if_neg hne]
      simp only [List.map_cons, Response.setHeader, Response.header?, Headers.get?_set]
      rfl

/-- The answers to calls that no endpoint serves and no middleware answers.  The call is answered
with 404 and code 65 and names no methods exactly if no endpoint matches the path; it is answered
with 405 and code 59 and names the methods of the endpoints that match the path exactly if there are
some.  Each of these methods is named once, the call's own is not among them, and under each of them
the path leads to an endpoint.  Middleware sees this answer, and the caller is told the same unless
some of it changes statuses, outcome codes or the named methods. -/
theorem dispatch_refuses_unserved
    (hbuild : Router.build registry = .ok d.router) (request : Call) (s : DispatchState σ)
    (hearly : (Middleware.beforeAll (d.contextIn request s) s.middlewares).2 = none)
    (hunserved : ∀ e ∈ d.router.endpoints, ¬e.Serves request.method request.path) :
    ∃ verbs : List Verb,
      verbs.Nodup ∧
      (∀ verb, verb ∈ verbs ↔
        ∃ e ∈ d.router.endpoints, e.method = verb ∧ e.Covers request.path) ∧
      (∀ verb ∈ verbs, verb.name ≠ request.method ∧
        ∃ r, d.router.route verb.name request.path = some r) ∧
      ∃ answer : Response,
        (d.dispatch request s).1 = (Middleware.afterAll (d.contextIn request s)
          (Middleware.beforeAll (d.contextIn request s) s.middlewares).1 answer).2 ∧
        (answer.refusal = (404, some 65, none) ↔
          ∀ e ∈ d.router.endpoints, ¬e.Covers request.path) ∧
        (answer.refusal = (405, some 59, some (", ".intercalate (verbs.map Verb.name))) ↔
          ∃ e ∈ d.router.endpoints, e.Covers request.path) ∧
        ((∀ m ∈ s.middlewares, m.Keeps Response.refusal) →
          (d.dispatch request s).1.refusal = answer.refusal) := by
  have hroute := (Router.route_eq_none_iff hbuild request.method request.path).mpr hunserved
  have hmem : ∀ verb, verb ∈ d.router.allowedMethods request.path ↔
      ∃ e ∈ d.router.endpoints, e.method = verb ∧ e.Covers request.path :=
    fun verb => Router.mem_allowedMethods_iff_covers hbuild
  have hnil : d.router.allowedMethods request.path = [] ↔
      ∀ e ∈ d.router.endpoints, ¬e.Covers request.path := by
    rw [Router.allowedMethods_eq_nil_iff hbuild]
    simp only [Endpoint.Covers, not_exists]
  have hsome : d.router.allowedMethods request.path ≠ [] ↔
      ∃ e ∈ d.router.endpoints, e.Covers request.path := by
    rw [ne_eq, hnil]
    push Not
    rfl
  have hanswer := (dispatch_eq_of_early hearly).1
  rw [answer, hroute] at hanswer
  have hrefusal : ((d.unrouted (d.contextIn request s)).setHeader "x-request-id"
      request.requestId.text).refusal = _ :=
    d.refusal_unrouted request.path rfl request.requestId.text
  refine ⟨d.router.allowedMethods request.path, Router.nodup_allowedMethods _ _, hmem, ?_,
    _, hanswer, ?_, ?_, ?_⟩
  · intro verb hverb
    obtain ⟨e, he, rfl, hcovers⟩ := (hmem verb).mp hverb
    refine ⟨fun hown => hunserved e he ⟨hown, hcovers⟩, ?_⟩
    apply Option.ne_none_iff_exists'.mp
    intro hnone
    exact (Router.route_eq_none_iff hbuild _ _).mp hnone e he ⟨rfl, hcovers⟩
  · rw [hrefusal, ← hnil]
    by_cases hempty : d.router.allowedMethods request.path = []
    · simp [hempty]
    · simp [hempty]
  · rw [hrefusal, ← hsome]
    by_cases hempty : d.router.allowedMethods request.path = []
    · simp [hempty]
    · simp [hempty]
  · intro hkeeps
    rw [hanswer]
    exact Middleware.Keeps.afterAll (Middleware.Keeps.beforeAll hkeeps) _

/-! ## A call under the wrong method, and a header that is added to every answer -/

/-- A dispatcher over a router that accepts every value. -/
def lenient (router : Router (Handler (List String))) : Dispatcher (List String) :=
  ⟨Router.userTypes, router, fun _ _ => .ok ()⟩

/-- A call to a user's path under a method that only others have. -/
def deleteRequest : Call :=
  Call.ofTarget "DELETE" "/api/users/7" [] [] ⟨0⟩

/-- The caller learns under which methods the path is served, `GET` among them. -/
theorem dispatch_refuses_unserved_delete :
    ∃ router, Router.build (Registry.run Router.userTypes [crashCall]) = .ok router ∧
      ∃ verbs : List Verb, .get ∈ verbs ∧
        ((lenient router).dispatch deleteRequest ⟨[], [.newMetrics], 0⟩).1.refusal =
          (405, some 59, some (", ".intercalate (verbs.map Verb.name))) := by
  have hcomputed : (Router.build (Registry.run Router.userTypes [crashCall])).toOption.map
      (fun router => ((router.route "DELETE" "/api/users/7").isNone,
        router.allowedMethods "/api/users/7")) = some (true, [.get]) := by
    decide
  cases hbuild : Router.build (Registry.run Router.userTypes [crashCall]) with
  | error fault => simp [hbuild, Except.toOption] at hcomputed
  | ok router =>
      obtain ⟨hnone, hallowed⟩ : router.route "DELETE" "/api/users/7" = none ∧
          router.allowedMethods "/api/users/7" = [.get] := by
        simpa [hbuild, Except.toOption] using hcomputed
      have hunserved := (Router.route_eq_none_iff hbuild "DELETE" "/api/users/7").mp hnone
      have hlisted : Verb.get ∈ router.allowedMethods "/api/users/7" := by simp [hallowed]
      obtain ⟨e, he, hget, hcovers⟩ := (Router.mem_allowedMethods_iff_covers hbuild).mp hlisted
      obtain ⟨verbs, -, hmem, -, answer, -, -, hallow, hkeeps⟩ :=
        dispatch_refuses_unserved (d := lenient router) hbuild deleteRequest
          ⟨[], [.newMetrics], 0⟩ rfl hunserved
      refine ⟨router, rfl, verbs, (hmem .get).mpr ⟨e, he, hget, hcovers⟩, ?_⟩
      rw [hkeeps (by simp [Middleware.newMetrics, Middleware.Keeps])]
      exact hallow.mpr ⟨e, he, hcovers⟩

/-- A middleware that answers nothing and sets a header on every answer. -/
def stamping : Middleware :=
  .hooks (fun _ => none) fun _ response => response.setHeader "allow" "GET"

/-- A middleware may add the header to an answer that nothing was found: no endpoint is registered,
no middleware answers early, and still the caller gets the header with status 404. -/
theorem not_found_with_allow_header :
    ∃ router, Router.build Registry.empty = .ok router ∧ router.endpoints = [] ∧
      (Middleware.beforeAll ((lenient router).contextIn deleteRequest ⟨[], [stamping], 0⟩)
        [stamping]).2 = none ∧
      ((lenient router).dispatch deleteRequest ⟨[], [stamping], 0⟩).1.refusal =
        (404, some 65, some "GET") :=
  ⟨⟨[], []⟩, rfl, rfl, rfl, by decide⟩

end Dispatcher
end TypedRoutes
