import TypedRoutes.Proofs.PercentCoding
import TypedRoutes.Proofs.Registration

/-!
# Building URLs

The URL of an endpoint is its path with an encoded value in the place of each variable.  Routing the
URL finds the endpoint and the values again: another endpoint that matches the URL either has the
same pattern up to the names of variables, and then it has another method, or has more variables,
and then it is tried later.
-/

namespace TypedRoutes
namespace Path

/-! ## Replacing variables -/

/-- The segments of a pattern with each variable replaced by the next of the texts. -/
def fill : List String → List String → List String
  | [], _ => []
  | s :: rest, texts =>
    if IsVariable s then texts.headD s :: fill rest texts.tail else s :: fill rest texts

/-- A path pattern with each variable replaced by the next of the values, percent-encoded. -/
def url (pattern : String) (values : List String) : String :=
  "/".intercalate (fill (rawSegments pattern) (values.map Text.percentEncode))

theorem fills_fill
    {segs texts : List String} (hlength : texts.length = (segs.filterMap variableName?).length)
    (htexts : ∀ t ∈ texts, IsSegment t) : Fills segs texts (fill segs texts) := by
  induction segs generalizing texts with
  | nil =>
      obtain rfl : texts = [] := by simpa using hlength
      exact .nil
  | cons s segs ih =>
      by_cases hs : IsVariable s
      · rw [length_filterMap_variable hs] at hlength
        cases texts with
        | nil => simp at hlength
        | cons t texts =>
            have hrest : texts.length = (segs.filterMap variableName?).length := by
              simpa using hlength
            rw [fill, if_pos hs]
            have htexts' : ∀ t' ∈ texts, IsSegment t' := fun t' ht' => htexts t' (by simp [ht'])
            exact .replaced hs (htexts t (by simp)) (ih hrest htexts')
      · rw [filterMap_literal hs] at hlength
        rw [fill, if_neg hs]
        exact .literal hs (ih hlength htexts)

theorem fill_afterSlash (segs texts : List String) :
    fill (afterSlash segs) texts = afterSlash (fill segs texts) := by
  cases segs with
  | nil => simp [afterSlash, fill, not_isVariable_empty]
  | cons s segs =>
      have hfill : fill (s :: segs) texts ≠ [] := by
        by_cases hs : IsVariable s
        · simp [fill, hs]
        · simp [fill, hs]
      rw [afterSlash, if_neg (by simp), afterSlash, if_neg hfill]

/-- A path that is its segments, each after a slash. -/
def IsNormal (path : String) : Prop :=
  ofSegments (segments path) = path

theorem rawSegments_of_isNormal
    {path : String} (h : IsNormal path) : rawSegments path = "" :: afterSlash (segments path) := by
  have hsegs : ∀ s ∈ segments path, IsSegment s := fun s hs => isSegment_of_mem_segments hs
  have hraw := rawSegments_ofSegments hsegs
  rwa [h] at hraw

theorem url_eq
    {pattern : String} (h : IsNormal pattern) (values : List String) :
    url pattern values =
      "/" ++ "/".intercalate (fill (segments pattern) (values.map Text.percentEncode)) := by
  rw [slash_intercalate, ← fill_afterSlash, url, rawSegments_of_isNormal h, fill,
    if_neg not_isVariable_empty]

/-- A pattern matches its own URL with the encoded values. -/
theorem matches_url
    {pattern : String} (h : IsNormal pattern) {values : List String}
    (hlength : values.length = (variableNames pattern).length) (hvalues : ∀ v ∈ values, v ≠ "") :
    Matches pattern (url pattern values) (values.map Text.percentEncode) := by
  refine ⟨_, fills_fill ?_ ?_, .inl (url_eq h values)⟩
  · rw [List.length_map, hlength, variableNames_eq_filterMap_segments]
  · intro t ht
    obtain ⟨v, hv, rfl⟩ := List.mem_map.mp ht
    exact isSegment_percentEncode (hvalues v hv)

/-! ## Two patterns that match one path -/

/-- The segments of a matched path are those of the pattern with its variables replaced. -/
theorem Matches.fills_segments
    {pattern path : String} {texts : List String} (h : Matches pattern path texts) :
    Fills (segments pattern) texts (segments path) := by
  obtain ⟨filled, hfills, hraw⟩ := matches_iff_rawSegments.mp h
  have hfilled := hfills.isSegment_of_mem_filled fun _ hs => isSegment_of_mem_segments hs
  have hfilter := filter_afterSlash hfilled
  have hsegments : segments path = filled := by
    rcases hraw with hraw | hraw
    · rw [segments, hraw, hfilter]
    · rw [segments, hraw, List.filter_append, hfilter]
      simp
  rwa [hsegments]

/-- The numbers of variables of two patterns that match one path, where no text of the first is a
literal of the second.  The second has at least as many, and if it has no more it differs only in
names. -/
theorem Fills.length_variables_le
    {segs texts segs' texts' filled : List String} (h : Fills segs texts filled)
    (h' : Fills segs' texts' filled)
    (hliteral : ∀ t ∈ texts, ∀ s ∈ segs', ¬IsVariable s → t ≠ s) :
    (segs.filterMap variableName?).length ≤ (segs'.filterMap variableName?).length ∧
      ((segs'.filterMap variableName?).length ≤ (segs.filterMap variableName?).length →
        List.Forall₂ (fun s t => s = t ∨ (IsVariable s ∧ IsVariable t)) segs' segs) := by
  induction h generalizing segs' texts' with
  | nil =>
      cases h'
      exact ⟨Nat.le_refl _, fun _ => .nil⟩
  | @literal s segs texts filled hs rest ih =>
      cases h' with
      | @literal _ segs' _ _ hs' rest' =>
          obtain ⟨hle, hshape⟩ := ih rest' fun t ht s' hs' => hliteral t ht s' (by simp [hs'])
          rw [filterMap_literal hs, filterMap_literal hs]
          exact ⟨hle, fun hge => .cons (.inl rfl) (hshape hge)⟩
      | @replaced s' _ segs' texts' _ hs' _ rest' =>
          obtain ⟨hle, -⟩ := ih rest' fun t ht s' hs' => hliteral t ht s' (by simp [hs'])
          rw [filterMap_literal hs, length_filterMap_variable hs']
          exact ⟨by omega, fun hge => by omega⟩
  | @replaced s text segs texts filled hs htext rest ih =>
      cases h' with
      | @literal _ segs' _ _ hs' rest' =>
          exact absurd rfl (hliteral text (by simp) text (by simp) hs')
      | @replaced s' _ segs' texts' _ hs' _ rest' =>
          obtain ⟨hle, hshape⟩ :=
            ih rest' fun t ht s' hs' => hliteral t (by simp [ht]) s' (by simp [hs'])
          rw [length_filterMap_variable hs, length_filterMap_variable hs']
          exact ⟨by omega, fun hge => .cons (.inr ⟨hs', hs⟩) (hshape (by omega))⟩

theorem differOnlyInNames_of_segments
    {a b : String} (ha : IsNormal a) (hb : IsNormal b)
    (h : List.Forall₂ (fun s t => s = t ∨ (IsVariable s ∧ IsVariable t)) (segments a)
      (segments b)) : DifferOnlyInNames a b := by
  rw [DifferOnlyInNames, rawSegments_of_isNormal ha, rawSegments_of_isNormal hb]
  apply List.Forall₂.cons (.inl rfl)
  cases hsegments : segments a with
  | nil =>
      rw [hsegments] at h
      cases hother : segments b with
      | nil => exact .cons (.inl rfl) .nil
      | cons t rest =>
          rw [hother] at h
          cases h
  | cons s segs =>
      rw [hsegments] at h
      cases hother : segments b with
      | nil =>
          rw [hother] at h
          cases h
      | cons t rest =>
          rw [hother] at h
          simpa [afterSlash] using h

end Path

variable {H : Type}

/-! ## Routing a URL -/

theorem Verb.name_injective {x y : Verb} (h : x.name = y.name) : x = y := by
  have hx : Verb.ofName? x.name = some x := Verb.ofName?_eq_some_iff.mpr rfl
  have hy : Verb.ofName? x.name = some y := Verb.ofName?_eq_some_iff.mpr h
  exact Option.some.inj (hx.symm.trans hy)

namespace Registry

theorem Accounted.isNormal_path
    {types : TypeTable} {calls : List (Registration H)} {endpoints : List (Endpoint H)}
    (h : Accounted types calls endpoints) {e : Endpoint H} (he : e ∈ endpoints) :
    Path.IsNormal e.path := by
  obtain ⟨call, _, op, _, hdeclares⟩ := h.declared e he
  rw [Path.IsNormal, hdeclares.path]
  exact Path.ofSegments_segments_join _ _

end Registry

namespace Router

variable {types : TypeTable} {calls : List (Registration H)} {router : Router H}

/-- Of all endpoints that match the URL of an endpoint, this one is to serve it. -/
theorem isChoice_url
    (haccounted : Registry.Accounted types calls router.endpoints)
    {d : Endpoint H} (hd : d ∈ router.endpoints) {values : List String}
    (hlength : values.length = (Path.variableNames d.path).length)
    (hvalues : ∀ v ∈ values, v ≠ "")
    (hliteral : ∀ v ∈ values, ∀ x ∈ router.endpoints, ∀ s ∈ Path.segments x.path,
      ¬Path.IsVariable s → Text.percentEncode v ≠ s) :
    IsChoice router.endpoints d.method.name (Path.url d.path values) d := by
  have hmatches := Path.matches_url (haccounted.isNormal_path hd) hlength hvalues
  -- a competitor has at least as many variables, and the same shape if it has no more
  have hcompetitor : ∀ x ∈ router.endpoints, x.Serves d.method.name (Path.url d.path values) →
      d.rank ≤ x.rank ∧ x.method = d.method ∧
        (x.rank ≤ d.rank → Path.DifferOnlyInNames x.path d.path) := by
    rintro x hx ⟨hmethod, texts, htexts⟩
    have hfree : ∀ t ∈ values.map Text.percentEncode, ∀ s ∈ Path.segments x.path,
        ¬Path.IsVariable s → t ≠ s := by
      intro t ht
      obtain ⟨v, hv, rfl⟩ := List.mem_map.mp ht
      exact hliteral v hv x hx
    obtain ⟨hle, hshape⟩ :=
      hmatches.fills_segments.length_variables_le htexts.fills_segments hfree
    rw [Endpoint.rank, Endpoint.rank, Path.variableNames_eq_filterMap_segments,
      Path.variableNames_eq_filterMap_segments]
    refine ⟨hle, Verb.name_injective hmethod, ?_⟩
    intro hge
    exact Path.differOnlyInNames_of_segments (haccounted.isNormal_path hx)
      (haccounted.isNormal_path hd) (hshape hge)
  obtain ⟨before, after, hsplit⟩ := List.append_of_mem hd
  have hdistinct := haccounted.distinct
  rw [hsplit, Registry.Distinct, List.pairwise_append] at hdistinct
  refine ⟨before, after, hsplit, ⟨rfl, _, hmatches⟩, ?_, ?_⟩
  · intro x hx hserves
    obtain ⟨hle, hmethod, hshape⟩ := hcompetitor x (by simp [hsplit, hx]) hserves
    have hapart : x.Apart d := hdistinct.2.2 x hx d (by simp)
    apply Nat.lt_of_le_of_ne hle
    intro heq
    exact hapart.2 hmethod (hshape (Nat.le_of_eq heq.symm))
  · intro x hx hserves
    exact (hcompetitor x (by simp [hsplit, hx]) hserves).1

/-- Routing undoes the building of URLs.  After any run of registrations, a request for the URL of
an endpoint is answered with this endpoint and with the values that were put into the URL, unless
an encoded value looks like a literal segment of some pattern. -/
theorem route_url
    (hbuild : build (Registry.run types calls) = .ok router)
    {d : Endpoint H} (hd : d ∈ router.endpoints) {values : List String}
    (hlength : values.length = (Path.variableNames d.path).length)
    (hvalues : ∀ v ∈ values, v ≠ "")
    (hliteral : ∀ v ∈ values, ∀ x ∈ router.endpoints, ∀ s ∈ Path.segments x.path,
      ¬Path.IsVariable s → Text.percentEncode v ≠ s) :
    router.route d.method.name (Path.url d.path values) =
      some ⟨d, (Path.variableNames d.path).zip values⟩ := by
  have haccounted := Registry.run_accounted types calls
  rw [← (routes_of_build hbuild).1] at haccounted
  rw [route_eq_some_iff hbuild]
  refine ⟨isChoice_url haccounted hd hlength hvalues hliteral, _,
    Path.matches_url (haccounted.isNormal_path hd) hlength hvalues, ?_⟩
  have hdecoded : (values.map Text.percentEncode).map Pattern.decodeSegment = values := by
    simp [List.map_map, Function.comp_def, Pattern.decodeSegment_percentEncode]
  rw [hdecoded]

/-! ## A value with a slash -/

/-- A request type with one field, named by the variable of its route. -/
def getRequest (name path : String) : String × Definition :=
  (name, .record ⟨name, [
    ⟨"meta", "meta", .marker, "path:\"" ++ path ++ "\" method:\"get\"", none, false, true⟩,
    ⟨"id", "id", .scalar .string, "", none, false, false⟩], none⟩)

/-- The request types for a user by id and for the calling user. -/
def userTypes : TypeTable :=
  ⟨[getRequest "GetUser" "/users/\x7bid\x7d", getRequest "GetMe" "/users/me"]⟩

/-- The registration of both operations, once alone and once, in vain, again. -/
def userCalls : List (Registration Unit) :=
  [⟨"/api", "Users", [⟨"Get", .named "GetUser", .unit, ()⟩, ⟨"Me", .named "GetMe", .unit, ()⟩]⟩,
    ⟨"api/", "Members", [⟨"Get", .named "GetUser", .unit, ()⟩]⟩]

/-- The slash in an id is not taken for one between segments. -/
theorem route_url_of_slash :
    ∃ router d, build (Registry.run userTypes userCalls) = .ok router ∧ d ∈ router.endpoints ∧
      d.operation = "Get" ∧
      router.route "GET" "/api/users/a%2Fb" = some ⟨d, [("id", "a/b")]⟩ := by
  have hok : (build (Registry.run userTypes userCalls)).isOk = true := by decide +kernel
  cases hbuild : build (Registry.run userTypes userCalls) with
  | error fault =>
      rw [hbuild] at hok
      cases hok
  | ok router =>
      have hendpoints : router.endpoints.map (fun e => (e.operation, e.method, e.path)) =
          [("Get", .get, "/api/users/\x7bid\x7d"), ("Me", .get, "/api/users/me")] := by
        rw [(routes_of_build hbuild).1]
        decide +kernel
      have hpaths : router.endpoints.map Endpoint.path =
          ["/api/users/\x7bid\x7d", "/api/users/me"] := by
        rw [(routes_of_build hbuild).1]
        decide +kernel
      have hall : ∀ path ∈ ["/api/users/\x7bid\x7d", "/api/users/me"],
          ∀ s ∈ Path.segments path, ¬Path.IsVariable s → Text.percentEncode "a/b" ≠ s := by
        decide +kernel
      obtain ⟨d, rest, hsplit, hd, -⟩ := List.map_eq_cons_iff.mp hendpoints
      obtain ⟨hoperation, hmethod, hpath⟩ : d.operation = "Get" ∧ d.method = .get ∧
          d.path = "/api/users/\x7bid\x7d" := by simpa using hd
      have hmem : d ∈ router.endpoints := by simp [hsplit]
      have hurl : Path.url "/api/users/\x7bid\x7d" ["a/b"] = "/api/users/a%2Fb" := by
        decide +kernel
      have hnames : Path.variableNames "/api/users/\x7bid\x7d" = ["id"] := by decide +kernel
      have hliteral : ∀ v ∈ ["a/b"], ∀ x ∈ router.endpoints, ∀ s ∈ Path.segments x.path,
          ¬Path.IsVariable s → Text.percentEncode v ≠ s := by
        intro v hv x hx
        obtain rfl := List.mem_singleton.mp hv
        have hx : x.path ∈ router.endpoints.map Endpoint.path := List.mem_map_of_mem hx
        rw [hpaths] at hx
        exact hall x.path hx
      have hlength : ["a/b"].length = (Path.variableNames d.path).length := by
        rw [hpath, hnames]
        rfl
      have hroute := route_url hbuild hmem hlength (by simp) hliteral
      rw [hpath, hmethod, hurl, hnames] at hroute
      exact ⟨router, d, rfl, hmem, hoperation, hroute⟩

end Router
end TypedRoutes
