import Mathlib.Data.List.Induction
import TypedRoutes.Proofs.Matching
import TypedRoutes.Proofs.Results
import TypedRoutes.Routing.Router

/-!
# The choice among routes

A router answers with the endpoint that serves the method on the path and has the fewest variables;
among several of these, with the one that was registered first.  The order in which routes are
tried brings this about, since placing a route keeps the tried routes sorted and never overtakes an
equal one.
-/

namespace TypedRoutes

/-! ## The earliest of the least -/

/-- `x` satisfies `p`, no earlier element that does is as small, and no later one is smaller. -/
def EarliestLeast {α : Type} (rank : α → Nat) (p : α → Prop) (xs : List α) (x : α) : Prop :=
  ∃ before after, xs = before ++ x :: after ∧ p x ∧
    (∀ y ∈ before, p y → rank x < rank y) ∧ ∀ y ∈ after, p y → rank x ≤ rank y

namespace EarliestLeast

variable {α β : Type} {rank : α → Nat} {p : α → Prop} {xs : List α} {x y : α}

theorem holds (h : EarliestLeast rank p xs x) : p x := by
  obtain ⟨_, _, _, hp, _⟩ := h
  exact hp

theorem mem (h : EarliestLeast rank p xs x) : x ∈ xs := by
  obtain ⟨before, after, rfl, _⟩ := h
  simp

/-- At most one element is chosen. -/
theorem unique (hx : EarliestLeast rank p xs x) (hy : EarliestLeast rank p xs y) : x = y := by
  obtain ⟨before, after, rfl, hpx, hbefore, hafter⟩ := hx
  obtain ⟨before', after', heq, hpy, hbefore', hafter'⟩ := hy
  rcases List.append_eq_append_iff.mp heq with ⟨between, rfl, htail⟩ | ⟨between, rfl, htail⟩
  · cases between with
    | nil => simpa using (List.cons.inj htail).1
    | cons z between =>
        -- then `x` stands before `y`
        obtain ⟨rfl, rfl⟩ : x = z ∧ after = between ++ y :: after' := by simpa using htail
        have hlt : rank y < rank x := hbefore' x (by simp) hpx
        have hle : rank x ≤ rank y := hafter y (by simp) hpy
        omega
  · cases between with
    | nil => simpa using (List.cons.inj htail).1.symm
    | cons z between =>
        obtain ⟨rfl, rfl⟩ : y = z ∧ after' = between ++ x :: after := by simpa using htail
        have hlt : rank x < rank y := hbefore y (by simp) hpy
        have hle : rank y ≤ rank x := hafter' x (by simp) hpx
        omega

/-- One more element at the end is chosen only if nothing was, or if it is smaller. -/
theorem concat_of_not (h : EarliestLeast rank p xs x) (hz : p y → rank x ≤ rank y) :
    EarliestLeast rank p (xs ++ [y]) x := by
  obtain ⟨before, after, rfl, hp, hbefore, hafter⟩ := h
  refine ⟨before, after ++ [y], by simp, hp, hbefore, ?_⟩
  intro z hmem hpz
  rcases List.mem_append.mp hmem with hmem | hmem
  · exact hafter z hmem hpz
  · obtain rfl := List.mem_singleton.mp hmem
    exact hz hpz

theorem concat_self (hp : p y) (hlt : ∀ z ∈ xs, p z → rank y < rank z) :
    EarliestLeast rank p (xs ++ [y]) y :=
  ⟨xs, [], rfl, hp, hlt, by simp⟩

theorem rank_le (h : EarliestLeast rank p xs x) (hy : y ∈ xs) (hp : p y) : rank x ≤ rank y := by
  obtain ⟨before, after, rfl, hpx, hbefore, hafter⟩ := h
  rcases List.mem_append.mp hy with hy | hy
  · exact Nat.le_of_lt (hbefore y hy hp)
  · rcases List.mem_cons.mp hy with rfl | hy
    · exact Nat.le_refl _
    · exact hafter y hy hp

/-- A choice among elements is a choice among their images. -/
theorem map {f : α → β} {rank' : β → Nat} {q : β → Prop}
    (hrank : ∀ y ∈ xs, rank y = rank' (f y)) (hp : ∀ y ∈ xs, q (f y) → p y)
    (hq : q (f x)) (h : EarliestLeast rank p xs x) :
    EarliestLeast rank' q (xs.map f) (f x) := by
  obtain ⟨before, after, rfl, _, hbefore, hafter⟩ := h
  have hx : rank x = rank' (f x) := hrank x (by simp)
  refine ⟨before.map f, after.map f, by simp, hq, ?_, ?_⟩
  · intro z hz hqz
    obtain ⟨y, hy, rfl⟩ := List.mem_map.mp hz
    rw [← hx, ← hrank y (by simp [hy])]
    exact hbefore y hy (hp y (by simp [hy]) hqz)
  · intro z hz hqz
    obtain ⟨y, hy, rfl⟩ := List.mem_map.mp hz
    rw [← hx, ← hrank y (by simp [hy])]
    exact hafter y hy (hp y (by simp [hy]) hqz)

end EarliestLeast

namespace Router

variable {H : Type}

/-! ## The order in which routes are tried -/

/-- Routes from the fewest variables to the most. -/
def IsSorted (routes : List (Route H)) : Prop :=
  routes.Pairwise fun a b => a.rank ≤ b.rank

theorem mem_place {route x : Route H} {routes : List (Route H)} :
    x ∈ place route routes ↔ x = route ∨ x ∈ routes := by
  induction routes with
  | nil => simp [place]
  | cons head rest ih =>
      by_cases h : head.rank ≤ route.rank
      · simp only [place, if_pos h, List.mem_cons, ih]
        tauto
      · simp [place, if_neg h]

theorem place_sorted {routes : List (Route H)} (route : Route H) (h : IsSorted routes) :
    IsSorted (place route routes) := by
  induction routes with
  | nil => simp [place, IsSorted]
  | cons head rest ih =>
      obtain ⟨hhead, hrest⟩ := List.pairwise_cons.mp h
      by_cases hle : head.rank ≤ route.rank
      · rw [place, if_pos hle]
        apply List.pairwise_cons.mpr
        refine ⟨?_, ih hrest⟩
        intro x hx
        rcases mem_place.mp hx with rfl | hx
        · exact hle
        · exact hhead x hx
      · rw [place, if_neg hle]
        apply List.pairwise_cons.mpr
        refine ⟨?_, h⟩
        intro x hx
        rcases List.mem_cons.mp hx with rfl | hx
        · omega
        · have := hhead x hx
          omega

/-- A placed route is found first only if none was found before, or one with more variables. -/
theorem find?_place
    {routes : List (Route H)} (hsorted : IsSorted routes) (route : Route H)
    (p : Route H → Bool) :
    (place route routes).find? p =
      match routes.find? p with
      | none => if p route then some route else none
      | some found => if p route && route.rank < found.rank then some route else some found := by
  induction routes with
  | nil =>
      by_cases hp : p route = true
      · simp [place, hp]
      · simp [place, hp]
  | cons head rest ih =>
      obtain ⟨hhead, hrest⟩ := List.pairwise_cons.mp hsorted
      by_cases hle : head.rank ≤ route.rank
      · rw [place, if_pos hle]
        by_cases hp : p head = true
        · have hlt : ¬route.rank < head.rank := by omega
          simp [hp, hlt]
        · simp [hp, ih hrest]
      · rw [place, if_neg hle]
        by_cases hp : p route = true
        · cases hfound : (head :: rest).find? p with
          | none => simp [hp]
          | some found =>
              have hlt : route.rank < found.rank := by
                rcases List.mem_cons.mp (List.mem_of_find?_eq_some hfound) with rfl | hmem
                · omega
                · have := hhead found hmem
                  omega
              simp [hp, hlt]
        · cases hfound : (head :: rest).find? p with
          | none => simpa [hp] using hfound
          | some found => simpa [hp] using hfound

/-- Routes in the order in which a router tries them. -/
def tried (routes : List (Route H)) : List (Route H) :=
  routes.foldl (fun placed route => place route placed) []

theorem tried_concat (routes : List (Route H)) (route : Route H) :
    tried (routes ++ [route]) = place route (tried routes) := by
  simp [tried]

theorem tried_sorted (routes : List (Route H)) : IsSorted (tried routes) := by
  induction routes using List.reverseRecOn with
  | nil => simp [tried, IsSorted]
  | append_singleton routes route ih =>
      rw [tried_concat]
      exact place_sorted route ih

theorem mem_tried {x : Route H} {routes : List (Route H)} : x ∈ tried routes ↔ x ∈ routes := by
  induction routes using List.reverseRecOn with
  | nil => simp [tried]
  | append_singleton routes route ih =>
      rw [tried_concat, mem_place, ih]
      simp [or_comm]

/-- The first tried route with a property is the earliest of those with the fewest variables. -/
theorem find?_tried
    {routes : List (Route H)} {p : Route H → Bool} {route : Route H}
    (h : (tried routes).find? p = some route) :
    EarliestLeast Route.rank (fun r => p r = true) routes route := by
  induction routes using List.reverseRecOn generalizing route with
  | nil => simp [tried] at h
  | append_singleton routes last ih =>
      rw [tried_concat, find?_place (tried_sorted routes)] at h
      cases hfound : (tried routes).find? p with
      | none =>
          simp only [hfound] at h
          obtain ⟨hp, rfl⟩ : p last = true ∧ last = route := by simpa using h
          apply EarliestLeast.concat_self (p := fun r => p r = true) hp
          intro x hx hpx
          exact absurd hpx (List.find?_eq_none.mp hfound x (mem_tried.mpr hx))
      | some found =>
          have hbest := ih hfound
          simp only [hfound] at h
          by_cases hlast : p last = true ∧ last.rank < found.rank
          · obtain rfl : last = route := by simpa [hlast] using h
            apply EarliestLeast.concat_self (p := fun r => p r = true) hlast.1
            intro x hx hpx
            exact Nat.lt_of_lt_of_le hlast.2 (hbest.rank_le hx hpx)
          · obtain rfl : found = route := by
              have hcond : (p last && decide (last.rank < found.rank)) = false := by
                simpa using hlast
              simpa [hcond] using h
            apply hbest.concat_of_not
            intro hp
            by_contra hlt
            exact hlast ⟨hp, by omega⟩

end Router

/-! ## Endpoints that serve a call -/

variable {H : Type}

/-- The number of variables of an endpoint's path. -/
def Endpoint.rank (e : Endpoint H) : Nat :=
  (Path.variableNames e.path).length

/-- The endpoint has the method, and its path pattern matches the path. -/
def Endpoint.Serves (e : Endpoint H) (method path : String) : Prop :=
  e.method.name = method ∧ ∃ texts, Path.Matches e.path path texts

namespace Router

/-- The endpoint that is to serve a call: of those that can, the earliest with the fewest
variables. -/
def IsChoice (endpoints : List (Endpoint H)) (method path : String) (e : Endpoint H) : Prop :=
  EarliestLeast Endpoint.rank (fun x => x.Serves method path) endpoints e

/-- A route whose pattern is that of its endpoint's path. -/
def IsCompiled (route : Route H) : Prop :=
  Pattern.ofPath? route.endpoint.path = some route.pattern

/-- Whether a route serves a call. -/
def serves (method path : String) (route : Route H) : Bool :=
  route.endpoint.method.name == method && route.pattern.isMatch path

theorem serves_eq_true_iff
    {route : Route H} (hroute : IsCompiled route) (method path : String) :
    serves method path route = true ↔ route.endpoint.Serves method path := by
  rw [serves, Bool.and_eq_true, beq_iff_eq, Pattern.isMatch, Option.isSome_iff_exists,
    Endpoint.Serves]
  apply and_congr_right
  intro _
  exact exists_congr fun texts => Pattern.match?_eq_some_iff hroute path texts

theorem rank_eq
    {route : Route H} (hroute : IsCompiled route) : route.rank = route.endpoint.rank := by
  rw [Route.rank, Pattern.variableNames_eq hroute, Endpoint.rank]

theorem routeOf_eq_ok
    {e : Endpoint H} {r : Route H} (h : routeOf e = .ok r) : r.endpoint = e ∧ IsCompiled r := by
  cases hpattern : Pattern.ofPath? e.path with
  | none => simp [routeOf, hpattern] at h
  | some pattern =>
      obtain rfl : ⟨pattern, e⟩ = r := by simpa [routeOf, hpattern] using h
      exact ⟨rfl, hpattern⟩

theorem mapM_routeOf
    {endpoints : List (Endpoint H)} {routes : List (Route H)}
    (h : endpoints.mapM routeOf = .ok routes) :
    routes.map Route.endpoint = endpoints ∧ ∀ r ∈ routes, IsCompiled r := by
  have hall := Results.mapM_eq_ok_iff.mp h
  clear h
  induction hall with
  | nil => simp
  | cons hr hrest ih =>
      obtain ⟨rfl, hcompiled⟩ := routeOf_eq_ok hr
      exact ⟨by simp [ih.1], by simpa using ⟨hcompiled, ih.2⟩⟩

/-- A router tries the routes of the registered endpoints, and keeps the endpoints in order. -/
theorem routes_of_build
    {registry : Registry H} {router : Router H} (hbuild : build registry = .ok router) :
    router.endpoints = registry.endpoints ∧
      ∃ routes : List (Route H), router.routes = tried routes ∧
        routes.map Route.endpoint = registry.endpoints ∧ ∀ r ∈ routes, IsCompiled r := by
  obtain ⟨routes, hroutes, rfl⟩ := Results.map_eq_ok_iff.mp hbuild
  exact ⟨rfl, routes, rfl, mapM_routeOf hroutes⟩

/-- The router answers with the first route that serves the call. -/
theorem route_eq_some_iff_find?
    (router : Router H) (method path : String) (answer : RouteMatch H) :
    router.route method path = some answer ↔
      ∃ r, router.routes.find? (serves method path) = some r ∧
        ∃ texts, r.pattern.match? path = some texts ∧
          answer = ⟨r.endpoint, r.pattern.variableNames.zip (texts.map Pattern.decodeSegment)⟩ := by
  rw [route]
  induction router.routes with
  | nil => simp
  | cons head rest ih =>
      by_cases hmethod : (head.endpoint.method.name == method) = true
      · cases htexts : head.pattern.match? path with
        | none =>
            have hserves : serves method path head = false := by
              simp [serves, Pattern.isMatch, htexts]
            simpa [hmethod, htexts, hserves] using ih
        | some texts =>
            have hserves : serves method path head = true := by
              simp [serves, Pattern.isMatch, htexts, hmethod]
            simp [hmethod, htexts, hserves, eq_comm]
      · have hserves : serves method path head = false := by
          simp [serves, hmethod]
        simpa [hmethod, hserves] using ih

theorem route_eq_none_iff
    {registry : Registry H} {router : Router H} (hbuild : build registry = .ok router)
    (method path : String) :
    router.route method path = none ↔ ∀ e ∈ router.endpoints, ¬e.Serves method path := by
  obtain ⟨hendpoints, routes, hroutes, hmap, hcompiled⟩ := routes_of_build hbuild
  have hfind : router.route method path = none ↔
      router.routes.find? (serves method path) = none := by
    constructor
    · intro h
      by_contra hsome
      obtain ⟨r, hr⟩ := Option.ne_none_iff_exists'.mp hsome
      have hserves := List.find?_some hr
      rw [serves, Bool.and_eq_true, Pattern.isMatch, Option.isSome_iff_exists] at hserves
      obtain ⟨texts, htexts⟩ := hserves.2
      have hanswer := (route_eq_some_iff_find? router method path _).mpr ⟨r, hr, texts, htexts, rfl⟩
      rw [h] at hanswer
      cases hanswer
    · intro h
      by_contra hsome
      obtain ⟨answer, hanswer⟩ := Option.ne_none_iff_exists'.mp hsome
      obtain ⟨r, hr, _⟩ := (route_eq_some_iff_find? router method path answer).mp hanswer
      rw [h] at hr
      cases hr
  rw [hfind, hroutes, List.find?_eq_none, hendpoints, ← hmap]
  simp only [mem_tried, List.forall_mem_map]
  apply forall₂_congr
  intro r hr
  rw [serves_eq_true_iff (hcompiled r hr)]

/-- What a router answers with is the choice, with the texts of its variables. -/
theorem isChoice_of_route
    {registry : Registry H} {router : Router H} (hbuild : build registry = .ok router)
    {method path : String} {answer : RouteMatch H}
    (h : router.route method path = some answer) :
    IsChoice router.endpoints method path answer.endpoint ∧
      ∃ texts, Path.Matches answer.endpoint.path path texts ∧
        answer.pathParams =
          (Path.variableNames answer.endpoint.path).zip (texts.map Pattern.decodeSegment) := by
  obtain ⟨hendpoints, routes, hroutes, hmap, hcompiled⟩ := routes_of_build hbuild
  obtain ⟨r, hfind, texts, htexts, rfl⟩ := (route_eq_some_iff_find? router method path answer).mp h
  rw [hroutes] at hfind
  have hr : IsCompiled r := hcompiled r (mem_tried.mp (List.mem_of_find?_eq_some hfind))
  have hserves : r.endpoint.Serves method path :=
    (serves_eq_true_iff hr method path).mp (List.find?_some hfind)
  refine ⟨?_, texts, (Pattern.match?_eq_some_iff hr path texts).mp htexts, ?_⟩
  · rw [hendpoints, ← hmap]
    apply (find?_tried hfind).map
    · intro x hx
      exact rank_eq (hcompiled x hx)
    · intro x hx hxserves
      exact (serves_eq_true_iff (hcompiled x hx) method path).mpr hxserves
    · exact hserves
  · rw [Pattern.variableNames_eq hr]

/-- A pattern matches a path with one list of texts. -/
theorem texts_unique
    {registry : Registry H} {router : Router H} (hbuild : build registry = .ok router)
    {e : Endpoint H} (he : e ∈ router.endpoints) {path : String} {texts texts' : List String}
    (h : Path.Matches e.path path texts) (h' : Path.Matches e.path path texts') :
    texts = texts' := by
  obtain ⟨hendpoints, routes, _, hmap, hcompiled⟩ := routes_of_build hbuild
  rw [hendpoints, ← hmap] at he
  obtain ⟨r, hr, rfl⟩ := List.mem_map.mp he
  have htexts := (Pattern.match?_eq_some_iff (hcompiled r hr) path texts).mpr h
  have htexts' := (Pattern.match?_eq_some_iff (hcompiled r hr) path texts').mpr h'
  exact Option.some.inj (htexts.symm.trans htexts')

/-- The answer of a router is the choice with the decoded texts of its variables, and nothing else
is. -/
theorem route_eq_some_iff
    {registry : Registry H} {router : Router H} (hbuild : build registry = .ok router)
    (method path : String) (answer : RouteMatch H) :
    router.route method path = some answer ↔
      IsChoice router.endpoints method path answer.endpoint ∧
        ∃ texts, Path.Matches answer.endpoint.path path texts ∧
          answer.pathParams =
            (Path.variableNames answer.endpoint.path).zip (texts.map Pattern.decodeSegment) := by
  constructor
  · exact isChoice_of_route hbuild
  · rintro ⟨hchoice, texts, htexts, hparams⟩
    cases hroute : router.route method path with
    | none =>
        have hnone := (route_eq_none_iff hbuild method path).mp hroute
        exact absurd hchoice.holds (hnone _ hchoice.mem)
    | some other =>
        obtain ⟨hchoice', texts', htexts', hparams'⟩ := isChoice_of_route hbuild hroute
        have hendpoint : other.endpoint = answer.endpoint := hchoice'.unique hchoice
        rw [hendpoint] at htexts' hparams'
        obtain rfl := texts_unique hbuild hchoice.mem htexts htexts'
        have hpathParams : other.pathParams = answer.pathParams := hparams'.trans hparams.symm
        obtain ⟨endpoint, pathParams⟩ := other
        obtain ⟨endpoint', pathParams'⟩ := answer
        simp only at hendpoint hpathParams
        rw [hendpoint, hpathParams]

theorem serves_append_slash_iff
    {path : String} (hne : path ≠ "") (hend : ∀ start, path ≠ start ++ "/")
    (e : Endpoint H) (method : String) :
    e.Serves method (path ++ "/") ↔ e.Serves method path := by
  apply and_congr_right
  intro _
  exact exists_congr fun texts => Path.matches_append_slash_iff hne hend

/-- A router finds the same endpoint and the same texts with and without a slash at the end. -/
theorem route_append_slash
    {registry : Registry H} {router : Router H} (hbuild : build registry = .ok router)
    (method : String) {path : String} (hne : path ≠ "") (hend : ∀ start, path ≠ start ++ "/") :
    router.route method (path ++ "/") = router.route method path := by
  have hserves : (fun e : Endpoint H => e.Serves method (path ++ "/")) =
      fun e => e.Serves method path := by
    funext e
    exact propext (serves_append_slash_iff hne hend e method)
  apply Option.ext
  intro answer
  rw [route_eq_some_iff hbuild, route_eq_some_iff hbuild, IsChoice, IsChoice, hserves]
  simp only [Path.matches_append_slash_iff hne hend]

/-- Routing is the choice that the texts of the patterns describe.  Every endpoint is compiled to a
pattern that matches as its path text says; no endpoint is found exactly if none serves the call;
the one that is found has the fewest variables and was registered first among these, and its
parameters are its variables with the decoded texts; and a slash at the end changes nothing. -/
theorem route_answers_choice
    {registry : Registry H} {router : Router H} (hbuild : build registry = .ok router) :
    (∀ e ∈ router.endpoints, ∃ r ∈ router.routes, r.endpoint = e ∧
      ∀ path texts, r.pattern.match? path = some texts ↔ Path.Matches e.path path texts) ∧
    (∀ method path,
      router.route method path = none ↔ ∀ e ∈ router.endpoints, ¬e.Serves method path) ∧
    (∀ method path answer, router.route method path = some answer ↔
      IsChoice router.endpoints method path answer.endpoint ∧
        ∃ texts, Path.Matches answer.endpoint.path path texts ∧
          answer.pathParams.map Prod.fst = Path.variableNames answer.endpoint.path ∧
          answer.pathParams.map Prod.snd = texts.map Pattern.decodeSegment) ∧
    ∀ method path, path ≠ "" → (∀ start, path ≠ start ++ "/") →
      router.route method (path ++ "/") = router.route method path := by
  obtain ⟨hendpoints, routes, hroutes, hmap, hcompiled⟩ := routes_of_build hbuild
  refine ⟨?_, route_eq_none_iff hbuild, ?_, fun method _ => route_append_slash hbuild method⟩
  · intro e he
    rw [hendpoints, ← hmap] at he
    obtain ⟨r, hr, rfl⟩ := List.mem_map.mp he
    have htried : r ∈ router.routes := by rwa [hroutes, mem_tried]
    exact ⟨r, htried, rfl, Pattern.match?_eq_some_iff (hcompiled r hr)⟩
  · intro method path answer
    rw [route_eq_some_iff hbuild]
    apply and_congr_right
    intro _
    apply exists_congr
    intro texts
    apply and_congr_right
    intro htexts
    have hlength : (Path.variableNames answer.endpoint.path).length =
        (texts.map Pattern.decodeSegment).length := by
      rw [List.length_map, htexts.length_texts]
    constructor
    · intro hparams
      rw [hparams]
      exact ⟨List.map_fst_zip (by omega), List.map_snd_zip (by omega)⟩
    · rintro ⟨hnames, hvalues⟩
      exact List.zip_of_prod hnames hvalues

/-! ## A literal segment before a variable -/

/-- An endpoint for `GET` on a path. -/
def getEndpoint (operation path : String) : Endpoint Unit where
  controller := "Users"
  operation := operation
  method := .get
  path := path
  pathVars := Path.variableNames path
  routeMeta := ⟨path, "GET", "", "", "", []⟩
  request := .unit
  response := .unit
  parameters := []
  responseSchema := .plain .string none
  handler := ()

/-- A user by id, and the calling user. -/
def usersRegistry : Registry Unit :=
  ⟨[⟨"Users", [getEndpoint "Get" "/users/\x7bid\x7d", getEndpoint "Me" "/users/me"]⟩]⟩

/-- The path of the calling user is not taken for that of a user by id, though both match. -/
theorem route_answers_choice_me :
    ∃ router, build usersRegistry = .ok router ∧
      router.route "GET" "/users/me" = some ⟨getEndpoint "Me" "/users/me", []⟩ := by
  have hok : (build usersRegistry).isOk = true := by decide +kernel
  cases hbuild : build usersRegistry with
  | error e =>
      rw [hbuild] at hok
      cases hok
  | ok router =>
      have hendpoints : router.endpoints =
          [getEndpoint "Get" "/users/\x7bid\x7d"] ++ getEndpoint "Me" "/users/me" :: [] :=
        (routes_of_build hbuild).1
      have hsegments : Path.segments "/users/me" = ["users", "me"] := by decide +kernel
      have hmatches : Path.Matches "/users/me" "/users/me" [] := by
        refine ⟨["users", "me"], ?_, .inl (by decide +kernel)⟩
        rw [hsegments]
        exact .literal (by decide +kernel) (.literal (by decide +kernel) .nil)
      have hrank : (getEndpoint "Me" "/users/me").rank <
          (getEndpoint "Get" "/users/\x7bid\x7d").rank := by decide +kernel
      refine ⟨router, rfl, ?_⟩
      apply ((route_answers_choice hbuild).2.2.1 "GET" "/users/me" _).mpr
      refine ⟨⟨_, _, hendpoints, ⟨rfl, [], hmatches⟩, ?_, by simp⟩, [], hmatches, ?_, rfl⟩
      · intro y hy _
        obtain rfl := List.mem_singleton.mp hy
        exact hrank
      · decide +kernel

end Router
end TypedRoutes
