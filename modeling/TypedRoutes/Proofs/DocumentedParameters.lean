import Mathlib.Data.List.Perm.Subperm
import TypedRoutes.OpenApi.Parameter
import TypedRoutes.Proofs.QueryReach

/-!
# The documented parameters are those that a GET reads

The walk that lists the parameters of a request type and the one that overlays a query stop at
records for different reasons.  Where records nest no deeper than the first walk goes, both come to
the same fields: the value of a GET depends on nothing but the pairs of the documented names, and
every documented name is read.
-/

namespace TypedRoutes

/-! ## Lists of parameters -/

theorem exists_name_foldl_addParameter
    (parameters found : List Parameter) (name : String) :
    (∃ p ∈ parameters.foldl addParameter found, p.name = name) ↔
      (∃ p ∈ found, p.name = name) ∨ ∃ p ∈ parameters, p.name = name := by
  induction parameters generalizing found with
  | nil => simp
  | cons p rest ih =>
      rw [List.foldl_cons, ih, List.exists_mem_cons_iff, ← or_assoc]
      apply or_congr_left
      rw [addParameter]
      split
      · rename_i hany
        obtain ⟨p', hp', hname⟩ : ∃ p' ∈ found, p'.name = p.name := by simpa using hany
        constructor
        · exact .inl
        · rintro (h | rfl)
          · exact h
          · exact ⟨p', hp', hname⟩
      · simp [or_and_right, exists_or]

theorem mem_of_mem_foldl_addParameter
    {parameters found : List Parameter} {p : Parameter}
    (h : p ∈ parameters.foldl addParameter found) : p ∈ found ∨ p ∈ parameters := by
  induction parameters generalizing found with
  | nil => exact .inl h
  | cons p' rest ih =>
      rw [List.foldl_cons] at h
      rcases ih h with h | h
      · rw [addParameter] at h
        split at h
        · exact .inl h
        · rcases List.mem_append.mp h with h | h
          · exact .inl h
          · obtain rfl := List.mem_singleton.mp h
            exact .inr (by simp)
      · exact .inr (by simp [h])

namespace TypeTable

variable {types : TypeTable} {t : Ty} {id : String} {r : Record} {query : Query}

/-! ## Two walks over the fields -/

/-- The fields that are listed as parameters are those that a query reaches with as many levels. -/
theorem mem_leafFields_iff
    {room : Nat} {ancestors : List String} {f : VisibleField} :
    f ∈ types.leafFields room ancestors id r ↔
      ∃ n, room = n + 1 ∧ id ∉ ancestors ∧
        ∃ around room', types.Reaches n (id :: ancestors) (types.fieldsOf id r) around room' f := by
  induction room generalizing ancestors id r with
  | zero => simp [leafFields]
  | succ room ih =>
      rw [leafFields]
      by_cases hancestors : id ∈ ancestors
      · simp [hancestors]
      · simp only [List.contains_iff_mem, hancestors, if_false, List.mem_flatMap, not_false_iff,
          true_and, Nat.add_right_cancel_iff, exists_eq_left']
        constructor
        · rintro ⟨g, hg, hf⟩
          cases hrecord : types.record? g.type with
          | none =>
              obtain rfl : f = g := by simpa [hrecord] using hf
              exact ⟨[], room, _, .here, hg, hrecord⟩
          | some inner =>
              simp only [hrecord] at hf
              obtain ⟨n, rfl, hpath, around, room', hreaches⟩ := ih.mp hf
              exact ⟨g :: around, room', hreaches.nested hg hrecord hpath⟩
        · rintro ⟨around, room', fields', hentered, hf, hleaf⟩
          cases hentered with
          | here => exact ⟨f, hf, by simp [hleaf]⟩
          | @nested n _ _ g inner s around _ _ hg hrecord hpath hentered =>
              refine ⟨g, hg, ?_⟩
              simp only [hrecord]
              exact ih.mpr ⟨n, rfl, hpath, around, room', fields', hentered, hf, hleaf⟩

/-- Records nest within a number of levels below a type, as far as a query enters them. -/
def NestsWithin (types : TypeTable) (limit : Nat) (t : Ty) : Prop :=
  ∀ id r, types.record? t = some (id, r) → ∀ around room fields,
    types.Enters maxDepth [id] (types.fieldsOf id r) around room fields → around.length ≤ limit

theorem mem_definitions_of_record?
    (h : types.record? t = some (id, r)) : id ∈ types.definitions.map Prod.fst := by
  have hshape := shape_of_record? h
  generalize t.target = u at hshape
  cases u with
  | named name =>
      rw [shape] at hshape
      cases hfind : types.find? name with
      | none => simp [hfind] at hshape
      | some definition =>
          cases definition with
          | enumeration e => simp [hfind] at hshape
          | record s =>
              obtain ⟨rfl, -⟩ : name = id ∧ s = r := by simpa [hfind] using hshape
              obtain ⟨before, after, hdefinitions, -⟩ := List.lookup_eq_some_iff.mp hfind
              simp [hdefinitions]
  | scalar kind =>
      rw [shape] at hshape
      cases kind <;> simp [Scalar.shape] at hshape
  | _ => simp [shape] at hshape

/-- As no record is entered inside itself, there are at most as many levels as definitions. -/
theorem nestsWithin_of_length_le
    {limit : Nat} (h : types.definitions.length ≤ limit + 1) : types.NestsWithin limit t := by
  have hlength : ∀ {room path fields around room' fields'},
      types.Enters room path fields around room' fields' → path.Nodup →
      path ⊆ types.definitions.map Prod.fst →
      around.length + path.length ≤ types.definitions.length := by
    intro room path fields around room' fields' hentered
    induction hentered with
    | here =>
        intro hnodup hsubset
        simpa using (List.subperm_of_subset hnodup hsubset).length_le
    | nested hg hrecord hpath _ ih =>
        intro hnodup hsubset
        have hrest := ih (List.nodup_cons.mpr ⟨hpath, hnodup⟩)
          (List.cons_subset.mpr ⟨mem_definitions_of_record? hrecord, hsubset⟩)
        simp only [List.length_cons] at hrest ⊢
        omega
  intro id r hrecord around room fields hentered
  have hbound := hlength hentered (List.nodup_singleton id)
    (List.cons_subset.mpr ⟨mem_definitions_of_record? hrecord, List.nil_subset _⟩)
  rw [List.length_singleton] at hbound
  omega

/-- A field that is reached by the query of a request and is listed as a parameter. -/
theorem exists_parameter_of_isInput
    (hrecord : types.record? t = some (id, r)) (hnesting : types.NestsWithin maxSchemaDepth t)
    {around : List VisibleField} {room : Nat} {f : VisibleField}
    (h : types.IsInput id r around room f) :
    ∃ p ∈ types.parameters t [], p.name = f.lookupName := by
  obtain ⟨fields', hentered, hf, hleaf⟩ := h
  have hmem : f ∈ types.leafFields (maxSchemaDepth + 1) [] id r := by
    have hshallow := hentered.of_length_le (hnesting id r hrecord around room fields' hentered)
    exact mem_leafFields_iff.mpr ⟨_, rfl, List.not_mem_nil, around, _, fields', hshallow, hf, hleaf⟩
  rw [parameters, exists_name_foldl_addParameter]
  refine .inr ⟨types.parameterOf [] f, ?_, rfl⟩
  simpa [hrecord] using ⟨f, hmem, rfl⟩

/-- A parameter comes from a field that the query of a request reaches, or else from a variable of
the path. -/
theorem exists_isInput_or_variable
    {pathVars : List String} {p : Parameter} (hp : p ∈ types.parameters t pathVars) :
    (∃ id r around room f, types.record? t = some (id, r) ∧ types.IsInput id r around room f ∧
      around.length ≤ maxSchemaDepth ∧ p = types.parameterOf pathVars f) ∨
    ∃ name ∈ pathVars, p = bareParameter name := by
  rcases mem_of_mem_foldl_addParameter hp with hnil | hp
  · cases hnil
  rcases List.mem_append.mp hp with hfield | hvar
  · left
    obtain ⟨f, hf, rfl⟩ := List.mem_map.mp hfield
    cases hrecord : types.record? t with
    | none => simp [hrecord] at hf
    | some idRecord =>
        obtain ⟨id, r⟩ := idRecord
        simp only [hrecord] at hf
        obtain ⟨n, hn, -, around, room, fields', hentered, hf, hleaf⟩ := mem_leafFields_iff.mp hf
        have hlength : around.length ≤ maxSchemaDepth := by
          have hadd := hentered.length_add
          omega
        have hdeep : around.length ≤ maxDepth := hlength.trans (by decide)
        exact ⟨id, r, around, _, f, rfl, ⟨fields', hentered.of_length_le hdeep, hf, hleaf⟩,
          hlength, rfl⟩
  · right
    obtain ⟨name, hname, rfl⟩ := List.mem_map.mp hvar
    exact ⟨name, hname, rfl⟩

/-! ## What a GET depends on -/

theorem requestValue_get_congr
    (hnesting : types.NestsWithin maxSchemaDepth t) {query' : Query}
    (hsame : ∀ p ∈ types.parameters t [], query.pairsOf p.name = query'.pairsOf p.name)
    (body body' : List UInt8) (pathParams : List (String × String)) :
    types.requestValue t "GET" ⟨query, body, pathParams⟩ =
      types.requestValue t "GET" ⟨query', body', pathParams⟩ := by
  cases hrecord : types.record? t with
  | none => simp [requestValue, hrecord]
  | some idRecord =>
      obtain ⟨id, r⟩ := idRecord
      rw [requestValue_get hrecord, requestValue_get hrecord, afterQuery, afterQuery,
        overlayQuery_congr]
      intro around room f hreaches
      obtain ⟨p, hp, hname⟩ := exists_parameter_of_isInput hrecord hnesting hreaches
      apply leafValue?_eq_of_pairsOf
      rw [← hname]
      exact hsame p hp

/-- A query gives a field the value that stands in its place anyway. -/
def Restates (types : TypeTable) (start : Json.Object) (query : Query) (around : List VisibleField)
    (room : Nat) (f : VisibleField) : Prop :=
  ∃ value, types.leafValue? room query f = .ok (some value) ∧
    (Json.object start).at? (placeOf around f) = some value

/-- The value of a GET is the zero object with the query and then the path parameters overlaid. -/
theorem exists_overlayQuery_of_requestValue_get
    (hrecord : types.record? t = some (id, r)) {body : List UInt8}
    {pathParams : List (String × String)} {value : Json}
    (h : types.requestValue t "GET" ⟨query, body, pathParams⟩ = .ok value) :
    ∃ queried touched target touched', value = .object target ∧
      types.overlayQuery maxDepth [id] query (types.fieldsOf id r)
        (types.zeroObject maxDepth id r) = .ok (queried, touched) ∧
      types.overlayQuery maxDepth [id] ⟨pathParams⟩ (types.fieldsOf id r) queried =
        .ok (target, touched') := by
  rw [requestValue_get hrecord] at h
  obtain ⟨queried, hqueried, h⟩ := Results.bind_eq_ok_iff.mp h
  obtain ⟨target, htarget, h⟩ := Results.bind_eq_ok_iff.mp h
  obtain ⟨touched, hquery⟩ := (afterQuery_eq_ok_iff rfl).mp hqueried
  obtain ⟨touched', hpath⟩ := afterPath_eq_ok_iff.mp htarget
  exact ⟨queried, touched, target, touched', (Except.ok.inj h).symm, hquery, hpath⟩

/-- Without path parameters it is the zero object with the query overlaid. -/
theorem overlayQuery_of_requestValue_get
    (hrecord : types.record? t = some (id, r)) {body : List UInt8} {target : Json.Object}
    (h : types.requestValue t "GET" ⟨query, body, []⟩ = .ok (.object target)) :
    ∃ touched, types.overlayQuery maxDepth [id] query (types.fieldsOf id r)
      (types.zeroObject maxDepth id r) = .ok (target, touched) := by
  obtain ⟨queried, touched, target', _, hvalue, hquery, hpath⟩ :=
    exists_overlayQuery_of_requestValue_get hrecord h
  obtain rfl := Json.object.inj hvalue
  have hunread : types.overlayQuery maxDepth [id] ⟨[]⟩ (types.fieldsOf id r) queried =
      .ok (queried, false) :=
    overlayQuery_of_unread (fun _ _ _ _ => leafValue?_eq_none_iff.mpr (by simp)) queried
  rw [hunread] at hpath
  obtain ⟨rfl, -⟩ := Prod.mk.inj (Except.ok.inj hpath)
  exact ⟨touched, hquery⟩

/-- Without any pairs the value of a GET is the zero value. -/
theorem requestValue_get_empty
    (hrecord : types.record? t = some (id, r)) (body : List UInt8) :
    types.requestValue t "GET" ⟨.empty, body, []⟩ =
      .ok (.object (types.zeroObject maxDepth id r)) := by
  have hunread : ∀ start, types.overlayQuery maxDepth [id] ⟨[]⟩ (types.fieldsOf id r) start =
      .ok (start, false) := by
    apply overlayQuery_of_unread
    intro around room g _
    exact leafValue?_eq_none_iff.mpr (by simp)
  rw [requestValue_get hrecord, afterQuery, Query.empty, hunread]
  simp only [afterPath, hunread]
  rfl

theorem exists_isInput_of_parameter
    {p : Parameter} (hp : p ∈ types.parameters t []) :
    ∃ id r around room f, types.record? t = some (id, r) ∧ types.IsInput id r around room f ∧
      f.lookupName = p.name := by
  rcases exists_isInput_or_variable hp with
    ⟨id, r, around, room, f, hrecord, hinput, -, rfl⟩ | ⟨name, hname, -⟩
  · exact ⟨id, r, around, room, f, hrecord, hinput, rfl⟩
  · cases hname

/-- A documented name is read by a field of that name, if a query has pairs that are written with
the name itself or in a form that such a field reads; unless it names a table that has no entry. -/
theorem exists_reads_or_table
    {p : Parameter} (hp : p ∈ types.parameters t []) (hrecord : types.record? t = some (id, r))
    (hne : query.pairs ≠ [])
    (hquery : ∀ pair ∈ query.pairs, pair.1 = p.name ∨ ∃ around room f,
      types.IsInput id r around room f ∧ f.lookupName = p.name ∧ types.reads f pair.1 = true) :
    (∃ around room f keys values, types.IsInput id r around room f ∧ f.lookupName = p.name ∧
      types.shape f.target = .table keys values ∧
      ∀ pair ∈ query.pairs, ∀ key, key ≠ "" → pair.1 ≠ indexed p.name key) ∨
    ∃ around room f, types.IsInput id r around room f ∧ f.lookupName = p.name ∧
      ∃ pair ∈ query.pairs, types.reads f pair.1 = true := by
  obtain ⟨id', r', around, room, f, hrecord', hinput, hname⟩ := exists_isInput_of_parameter hp
  obtain ⟨rfl, rfl⟩ := record?_unique hrecord' hrecord
  obtain ⟨pair, hpair⟩ := List.exists_mem_of_ne_nil _ hne
  rcases hquery pair hpair with hkey | ⟨around', room', g, hg, hgname, hreads⟩
  · by_cases htable : ∃ keys values, types.shape f.target = .table keys values
    · obtain ⟨keys, values, hshape⟩ := htable
      by_cases hentry : ∃ pair ∈ query.pairs, ∃ key, key ≠ "" ∧ pair.1 = indexed p.name key
      · obtain ⟨pair', hpair', key, hkey', hentry⟩ := hentry
        refine .inr ⟨around, room, f, hinput, hname, pair', hpair', ?_⟩
        have hread : Query.entryKey? f.lookupName pair'.1 = some key := by
          rwa [Query.entryKey?_eq_some_iff, hname]
        simp [reads, hshape, hread, hkey']
      · push Not at hentry
        exact .inl ⟨around, room, f, keys, values, hinput, hname, hshape, hentry⟩
    · refine .inr ⟨around, room, f, hinput, hname, pair, hpair, ?_⟩
      have hleaf := shape_ne_record hinput.record?_eq_none
      rw [hkey, ← hname, reads]
      split
      · rename_i h
        exact absurd h (hleaf _ _)
      · simp
      · rename_i h
        exact absurd ⟨_, _, h⟩ htable
      · simp
  · exact .inr ⟨around', room', g, hg, hgname, pair, hpair, hreads⟩

/-- The documented parameters of a request type are exactly what a GET reads, if records nest no
deeper than parameters are listed.  Two queries with the same pairs of every documented name have
the same outcome, whatever the other pairs are and in whatever order the names alternate.
Conversely, let all pairs of a query be written `p` for one documented name `p`, or in a form that a
field of that name reads.  If the value of the GET is the zero value all the same, then what was
converted is what the zero value holds in its place, or `p` names a table and no pair has the form
`p[key]`.  Where the names in JSON are apart in all records, this goes for every field named `p`. -/
theorem parameters_are_what_get_reads
    (hnesting : types.NestsWithin maxSchemaDepth t) :
    (∀ query query' : Query,
      (∀ p ∈ types.parameters t [], query.pairsOf p.name = query'.pairsOf p.name) →
      ∀ body body' pathParams, types.requestValue t "GET" ⟨query, body, pathParams⟩ =
        types.requestValue t "GET" ⟨query', body', pathParams⟩) ∧
    ∀ p ∈ types.parameters t [], ∃ id r, types.record? t = some (id, r) ∧
      (∀ body, types.requestValue t "GET" ⟨.empty, body, []⟩ =
        .ok (.object (types.zeroObject maxDepth id r))) ∧
      ∀ (query : Query) (body : List UInt8), query.pairs ≠ [] →
        (∀ pair ∈ query.pairs, pair.1 = p.name ∨ ∃ around room f,
          types.IsInput id r around room f ∧ f.lookupName = p.name ∧
            types.reads f pair.1 = true) →
        types.requestValue t "GET" ⟨query, body, []⟩ =
          .ok (.object (types.zeroObject maxDepth id r)) →
        (∃ around room f keys values, types.IsInput id r around room f ∧ f.lookupName = p.name ∧
          types.shape f.target = .table keys values ∧
          ∀ pair ∈ query.pairs, ∀ key, key ≠ "" → pair.1 ≠ indexed p.name key) ∨
        (∃ around room f, types.IsInput id r around room f ∧
          types.Restates (types.zeroObject maxDepth id r) query around room f) ∧
        (∃ around room f, types.IsInput id r around room f ∧ f.lookupName = p.name ∧
          ∃ pair ∈ query.pairs, types.reads f pair.1 = true) ∧
        (types.EntersApart maxDepth [id] (types.fieldsOf id r) →
          ∀ around room f, types.IsInput id r around room f → f.lookupName = p.name →
            (∃ pair ∈ query.pairs, types.reads f pair.1 = true) →
            types.Restates (types.zeroObject maxDepth id r) query around room f) := by
  refine ⟨?_, ?_⟩
  · intro query query' hsame body body' pathParams
    exact requestValue_get_congr hnesting hsame body body' pathParams
  · intro p hp
    obtain ⟨id, r, _, _, _, hrecord, -⟩ := exists_isInput_of_parameter hp
    refine ⟨id, r, hrecord, requestValue_get_empty hrecord, ?_⟩
    intro query body hne hquery hzero
    rcases exists_reads_or_table hp hrecord hne hquery with htable | hread
    · exact .inl htable
    · right
      obtain ⟨touched, hoverlay⟩ := overlayQuery_of_requestValue_get hrecord hzero
      have hvalue : ∀ around room f, types.IsInput id r around room f →
          (∃ pair ∈ query.pairs, types.reads f pair.1 = true) →
          ∃ value, types.leafValue? room query f = .ok (some value) := by
        rintro around room f hinput ⟨pair, hpair, hreads⟩
        obtain ⟨given, hgiven⟩ := exists_leafValue?_of_overlayQuery hoverlay hinput
        cases given with
        | some value => exact ⟨value, hgiven⟩
        | none =>
            rw [leafValue?_eq_none_iff.mp hgiven pair hpair] at hreads
            cases hreads
      refine ⟨?_, hread, ?_⟩
      · cases touched with
        | true =>
            obtain ⟨around, room, f, value, hinput, hvalue, hat⟩ :=
              exists_at?_of_overlayQuery hoverlay
            exact ⟨around, room, f, hinput, value, hvalue, hat⟩
        | false =>
            obtain ⟨around, room, f, hinput, -, hreads⟩ := hread
            obtain ⟨value, hsome⟩ := hvalue around room f hinput hreads
            rw [(overlayQuery_untouched hoverlay).2 around room f hinput] at hsome
            cases hsome
      · intro hapart around room f hinput _ hreads
        obtain ⟨value, hsome⟩ := hvalue around room f hinput hreads
        exact ⟨value, hsome, at?_of_overlayQuery hapart hoverlay hinput hsome⟩

/-! ## Items in a tree -/

/-- The types of items that stand in a tree; an item refers to its parent. -/
def treeTypes : TypeTable :=
  ⟨[("Item", .record ⟨"Item",
      [plainField "name" (.scalar .string) false,
        plainField "parent" (.option (.named "Item")) false,
        plainField "page" (.option (.named "Page")) false], none⟩),
    ("Page", .record ⟨"Page",
      [plainField "limit" (.scalar (.uint .w8)) false,
        plainField "tags" (.sequence .list (.scalar .string)) false], none⟩)]⟩

/-- A pair that is not documented makes no difference, nor does the place of the limit among the
tags. -/
theorem parameters_are_what_get_reads_tree :
    treeTypes.NestsWithin maxSchemaDepth (.named "Item") ∧
      treeTypes.requestValue (.named "Item") "GET"
          ⟨⟨[("tags[]", "a"), ("limit", "5"), ("debug", "1"), ("tags", "b")]⟩, [], []⟩ =
        treeTypes.requestValue (.named "Item") "GET"
          ⟨⟨[("limit", "5"), ("tags[]", "a"), ("tags", "b")]⟩, [], []⟩ := by
  have hnesting : treeTypes.NestsWithin maxSchemaDepth (.named "Item") :=
    nestsWithin_of_length_le (by decide)
  refine ⟨hnesting, ?_⟩
  exact (parameters_are_what_get_reads hnesting).1 _ _ (by decide +kernel) [] [] []

end TypeTable
end TypedRoutes
