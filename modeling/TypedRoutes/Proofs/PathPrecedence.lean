import TypedRoutes.Proofs.QueryReach

/-!
# Path variables win

Whatever the query and the body of a call say under the name of a path variable, the path says last.
Two calls with the same path parameters, which differ only under one of their names, go through
objects that agree off that name: in fields of the name and in records around them, and in whether
the members of their groups are there.  The path parameters erase all of that.
-/

namespace TypedRoutes
namespace TypeTable

variable {types : TypeTable} {name : String} {room : Nat} {path : List String}
  {fields : List VisibleField} {f : VisibleField} {id : String} {r : Record} {query : Query}
  {x y : Json.Object}

/-! ## Fields of a name -/

/-- A query under a name can change a field: it has the name, or it is a record that is entered and
a field in it can be changed. -/
def Carries (types : TypeTable) (name : String) (room : Nat) (path : List String)
    (f : VisibleField) : Prop :=
  ∃ around room' leaf, types.Reaches room path [f] around room' leaf ∧ leaf.lookupName = name

theorem carries_iff_of_leaf
    (hleaf : types.record? f.type = none) :
    types.Carries name room path f ↔ f.lookupName = name := by
  constructor
  · rintro ⟨around, room', leaf, ⟨fields', hentered, hmem, -⟩, hname⟩
    cases hentered with
    | here =>
        obtain rfl := List.mem_singleton.mp hmem
        exact hname
    | nested hg hrecord =>
        obtain rfl := List.mem_singleton.mp hg
        rw [hleaf] at hrecord
        cases hrecord
  · intro hname
    exact ⟨[], room, f, ⟨[f], .here, by simp, hleaf⟩, hname⟩

/-- Two queries that differ only under a name give the same to a field that does not carry it. -/
theorem fieldValue?_eq_of_not_carries
    {query' : Query}
    (hqueries : ∀ around room' leaf, types.Reaches room path fields around room' leaf →
      leaf.lookupName ≠ name →
      types.leafValue? room' query leaf = types.leafValue? room' query' leaf)
    (hf : f ∈ fields) (h : ¬types.Carries name room path f) (target : Json.Object) :
    types.fieldValue? room path query target f = types.fieldValue? room path query' target f := by
  apply fieldValue?_congr
  intro around room' leaf hreaches
  refine hqueries around room' leaf (hreaches.of_mem hf) ?_
  intro hname
  exact h ⟨around, room', leaf, hreaches, hname⟩

/-! ## Objects that agree off a name -/

/-- Neither a field nor another one of its group carries a name. -/
def Unaffected (types : TypeTable) (name : String) (room : Nat) (path : List String)
    (fields : List VisibleField) (f : VisibleField) : Prop :=
  ¬types.Carries name room path f ∧
    ∀ g ∈ fields, ∀ n, f.group = some n → g.group = some n → ¬types.Carries name room path g

/-- Two objects of a record have the same members in fields that do not carry a name, except that
the group of a field that carries it may be missing in one of them. -/
structure Alike (types : TypeTable) (name : String) (room : Nat) (path : List String)
    (fields : List VisibleField) (x y : Json.Object) : Prop where
  sorted_left : x.Sorted
  sorted_right : y.Sorted
  other : ∀ key, (∀ f ∈ fields, key ≠ f.wireName) → x.find? key = y.find? key
  unaffected : ∀ f ∈ fields, types.Unaffected name room path fields f →
    x.find? f.wireName = y.find? f.wireName
  completed : ∀ f ∈ fields, ¬types.Carries name room path f →
    (x.find? f.wireName).getD (types.zeroAt room f.type) =
      (y.find? f.wireName).getD (types.zeroAt room f.type)

/-- Two objects of a record agree off a name, and so do the objects of nested records in them, as
far as these differ. -/
inductive AgreeOff (types : TypeTable) (name : String) :
    Nat → List String → List VisibleField → Json.Object → Json.Object → Prop
  | intro {room : Nat} {path : List String} {fields : List VisibleField} {x y : Json.Object}
      (alike : types.Alike name room path fields x y)
      (nested : ∀ f ∈ fields, ∀ n id r, room = n + 1 → types.record? f.type = some (id, r) →
        id ∉ path → types.nestedObject n x f id r ≠ types.nestedObject n y f id r →
        AgreeOff types name n (id :: path) (types.fieldsOf id r) (types.nestedObject n x f id r)
          (types.nestedObject n y f id r)) :
      AgreeOff types name room path fields x y

theorem Alike.refl
    (h : x.Sorted) : types.Alike name room path fields x x :=
  ⟨h, h, fun _ _ => rfl, fun _ _ _ => rfl, fun _ _ _ => rfl⟩

theorem AgreeOff.refl
    (h : x.Sorted) : types.AgreeOff name room path fields x x :=
  .intro (.refl h) fun _ _ _ _ _ _ _ _ hne => absurd rfl hne

/-- Overlays that give the same to all fields that do not carry the name keep objects alike. -/
theorem Alike.overlaid
    (h : types.Alike name room path fields x y) {given given' : VisibleField → Option Json}
    {x' y' : Json.Object} (hx : types.Overlaid room fields given x x')
    (hy : types.Overlaid room fields given' y y')
    (hgiven : ∀ f ∈ fields, ¬types.Carries name room path f → given f = given' f) :
    types.Alike name room path fields x' y' := by
  refine ⟨hx.sorted h.sorted_left, hy.sorted h.sorted_right, ?_, ?_, ?_⟩
  · intro key hkey
    rw [hx.other key hkey, hy.other key hkey, h.other key hkey]
  · intro f hf hunaffected
    have hgroup : groupGiven fields given f = groupGiven fields given' f :=
      groupGiven_congr fun g hg n hn hgn => hgiven g hg (hunaffected.2 g hg n hn hgn)
    rw [hx.field f hf, hy.field f hf, hgiven f hf hunaffected.1, h.unaffected f hf hunaffected,
      hgroup]
  · intro f hf hcarries
    rw [hx.getD hf, hy.getD hf, hgiven f hf hcarries, h.completed f hf hcarries]

/-- An overlay that gives something to every field that carries the name makes alike objects
equal. -/
theorem Alike.eq_of_overlaid
    (h : types.Alike name room path fields x y) {given given' : VisibleField → Option Json}
    {x' y' : Json.Object} (hx : types.Overlaid room fields given x x')
    (hy : types.Overlaid room fields given' y y') (hgiven : ∀ f ∈ fields, given f = given' f)
    (hcarries : ∀ f ∈ fields, types.Carries name room path f → (given f).isSome = true) :
    x' = y' := by
  apply (hx.sorted h.sorted_left).ext (hy.sorted h.sorted_right)
  intro key
  by_cases hkey : ∀ f ∈ fields, key ≠ f.wireName
  · rw [hx.other key hkey, hy.other key hkey, h.other key hkey]
  push Not at hkey
  obtain ⟨f, hf, rfl⟩ := hkey
  have hgroup : groupGiven fields given f = groupGiven fields given' f :=
    groupGiven_congr fun g hg _ _ _ => hgiven g hg
  rw [hx.field f hf, hy.field f hf, ← hgiven f hf, ← hgroup]
  by_cases hunaffected : types.Unaffected name room path fields f
  · rw [h.unaffected f hf hunaffected]
  by_cases hf' : types.Carries name room path f
  · obtain ⟨value, hvalue⟩ := Option.isSome_iff_exists.mp (hcarries f hf hf')
    rw [hvalue]
    rfl
  · -- Another field of the group carries the name, so the group is completed in both objects.
    obtain ⟨g, hg, n, hfn, hgn, hg'⟩ : ∃ g ∈ fields, ∃ n, f.group = some n ∧ g.group = some n ∧
        types.Carries name room path g := by
      simpa [Unaffected, hf'] using hunaffected
    have htrue : groupGiven fields given f = true :=
      groupGiven_eq_true_iff.mpr ⟨n, hfn, g, hg, hgn, hcarries g hg hg'⟩
    have hcompleted := h.completed f hf hf'
    rw [if_pos htrue]
    cases given f with
    | some value => rfl
    | none => rw [Option.none_or, Option.none_or, Option.or_some, Option.or_some, hcompleted]

/-! ## Overlaying a query -/

theorem alike_overlayQuery
    (hnodup : (fields.map VisibleField.wireName).Nodup) {query' : Query}
    (hqueries : ∀ around room' leaf, types.Reaches room path fields around room' leaf →
      leaf.lookupName ≠ name →
      types.leafValue? room' query leaf = types.leafValue? room' query' leaf)
    {start : Json.Object} (hstart : start.Sorted) {touched touched' : Bool}
    (hx : types.overlayQuery room path query fields start = .ok (x, touched))
    (hy : types.overlayQuery room path query' fields start = .ok (y, touched')) :
    types.Alike name room path fields x y := by
  obtain ⟨given, hgiven, -, hoverlaid⟩ := exists_overlaid_of_overlayQuery hnodup hx
  obtain ⟨given', hgiven', -, hoverlaid'⟩ := exists_overlaid_of_overlayQuery hnodup hy
  refine Alike.overlaid (.refl hstart) hoverlaid hoverlaid' ?_
  intro f hf hcarries
  have hsame := fieldValue?_eq_of_not_carries hqueries hf hcarries start
  rw [hgiven f hf, hgiven' f hf] at hsame
  exact Except.ok.inj hsame

/-- Two queries that differ only under a name lead from a blank object to objects that agree off the
name. -/
theorem agreeOff_overlayQuery
    (hapart : types.EntersApart room path (types.fieldsOf id r)) {query' : Query}
    (hqueries : ∀ around room' leaf,
      types.Reaches room path (types.fieldsOf id r) around room' leaf → leaf.lookupName ≠ name →
      types.leafValue? room' query leaf = types.leafValue? room' query' leaf)
    {start : Json.Object} (hstart : types.IsBlank room id r start) {touched touched' : Bool}
    (hx : types.overlayQuery room path query (types.fieldsOf id r) start = .ok (x, touched))
    (hy : types.overlayQuery room path query' (types.fieldsOf id r) start = .ok (y, touched')) :
    types.AgreeOff name room path (types.fieldsOf id r) x y := by
  have halike := alike_overlayQuery hapart.nodup hqueries hstart.sorted hx hy
  induction room generalizing path id r start x y touched touched' with
  | zero => exact .intro halike fun _ _ _ _ _ hroom => by cases hroom
  | succ room ih =>
      refine .intro halike ?_
      intro f hf n id' r' hn hrecord hpath _
      obtain rfl : room = n := by omega
      obtain ⟨_, hnested⟩ := exists_overlayQuery_nestedObject hapart.nodup hx hf hrecord hpath
      obtain ⟨_, hnested'⟩ := exists_overlayQuery_nestedObject hapart.nodup hy hf hrecord hpath
      have hapart' := hapart.nested hf hrecord hpath
      have hblank := hstart.nestedObject hapart.nodup hf hrecord
      have hqueries' : ∀ around room' leaf,
          types.Reaches room (id' :: path) (types.fieldsOf id' r') around room' leaf →
          leaf.lookupName ≠ name →
          types.leafValue? room' query leaf = types.leafValue? room' query' leaf :=
        fun _ _ _ hreaches => hqueries _ _ _ (hreaches.nested hf hrecord hpath)
      exact ih hapart' hqueries' hblank hnested hnested'
        (alike_overlayQuery hapart'.nodup hqueries' hblank.sorted hnested hnested')

/-! ## Overlaying a body -/

theorem exists_overlaid_of_overlayTop
    (hnodup : (fields.map VisibleField.wireName).Nodup) {body start result : Json.Object}
    (h : types.overlayTop fields body start = .ok result) :
    ∃ given : VisibleField → Option Json,
      (∀ f ∈ fields, bodyGiven? (types.convertAt (maxDepth + 1)) body "" f = .ok (given f)) ∧
      types.Overlaid maxDepth fields given start result := by
  obtain ⟨a, ha, hresult⟩ := Results.bind_eq_ok_iff.mp h
  obtain rfl := Except.ok.inj hresult
  exact exists_overlaid_of_overlayBody hnodup ha maxDepth

/-- Two bodies that differ only under a name keep objects that agree off the name.  The fields that
are named so have to be no records, and the name has to be no name in JSON of another field. -/
theorem AgreeOff.overlayTop
    (h : types.AgreeOff name maxDepth path fields x y)
    (hnodup : (fields.map VisibleField.wireName).Nodup)
    (hleaf : ∀ f ∈ fields, f.lookupName = name → types.record? f.type = none)
    (hwire : ∀ f ∈ fields, f.wireName = name → f.lookupName = name) {body body' : Json.Object}
    (hbodies : ∀ key, key ≠ name → body.find? key = body'.find? key) {x' y' : Json.Object}
    (hx : types.overlayTop fields body x = .ok x') (hy : types.overlayTop fields body' y = .ok y') :
    types.AgreeOff name maxDepth path fields x' y' := by
  obtain ⟨given, hgiven, hoverlaid⟩ := exists_overlaid_of_overlayTop hnodup hx
  obtain ⟨given', hgiven', hoverlaid'⟩ := exists_overlaid_of_overlayTop hnodup hy
  have hsame : ∀ f ∈ fields, f.lookupName ≠ name → given f = given' f := by
    intro f hf hname
    have hvalue : bodyValue? body f = bodyValue? body' f := by
      rw [bodyValue?, bodyValue?, hbodies _ hname, hbodies _ fun hw => hname (hwire f hf hw)]
    have heq : bodyGiven? (types.convertAt (maxDepth + 1)) body "" f =
        bodyGiven? (types.convertAt (maxDepth + 1)) body' "" f := by
      rw [bodyGiven?, bodyGiven?, hvalue]
    rw [hgiven f hf, hgiven' f hf] at heq
    exact Except.ok.inj heq
  obtain ⟨halike, hnested⟩ := h
  refine .intro (halike.overlaid hoverlaid hoverlaid' ?_) ?_
  · intro f hf hcarries
    apply hsame f hf
    intro hname
    exact hcarries ((carries_iff_of_leaf (hleaf f hf hname)).mpr hname)
  · intro f hf n id r hn hrecord hpath hne
    have hname : f.lookupName ≠ name := by
      intro hname
      rw [hleaf f hf hname] at hrecord
      cases hrecord
    have hx' := hoverlaid.getD hf
    have hy' := hoverlaid'.getD hf
    rw [← hsame f hf hname] at hy'
    rw [hn] at hx' hy'
    cases hvalue : given f with
    | some value =>
        rw [hvalue] at hx' hy'
        exact absurd (nestedObject_congr hrecord (hx'.trans hy'.symm)) hne
    | none =>
        rw [hvalue] at hx' hy'
        have hkept := nestedObject_congr hrecord hx'
        have hkept' := nestedObject_congr hrecord hy'
        rw [hkept, hkept'] at hne ⊢
        exact hnested f hf n id r hn hrecord hpath hne

/-! ## Overlaying the path parameters -/

theorem isSome_of_carries
    (haddressed : ∀ around room' leaf, types.Reaches room path [f] around room' leaf →
      leaf.lookupName = name → types.leafValue? room' query leaf ≠ .ok none)
    (hcarries : types.Carries name room path f) {given : Option Json}
    (h : types.fieldValue? room path query x f = .ok given) : given.isSome = true := by
  cases hgiven : given with
  | some value => rfl
  | none =>
      rw [hgiven] at h
      obtain ⟨around, room', leaf, hreaches, hname⟩ := hcarries
      refine absurd ?_ (haddressed around room' leaf hreaches hname)
      obtain ⟨fields', hentered, hmem, hleaf⟩ := hreaches
      cases hentered with
      | here =>
          obtain rfl := List.mem_singleton.mp hmem
          rw [← h, fieldValue?_of_leaf hleaf]
      | nested hg hrecord hpath hentered =>
          obtain rfl := List.mem_singleton.mp hg
          rw [fieldValue?_of_entered hrecord hpath] at h
          obtain ⟨⟨nested, touched⟩, hnested, htouched⟩ := Results.map_eq_ok_iff.mp h
          cases touched with
          | true => cases htouched
          | false => exact (overlayQuery_untouched hnested).2 _ _ _ ⟨_, hentered, hmem, hleaf⟩

/-- A query that addresses all fields of a name erases what differs only under the name. -/
theorem AgreeOff.eq_of_overlayQuery
    (h : types.AgreeOff name room path fields x y) (hapart : types.EntersApart room path fields)
    (haddressed : ∀ around room' leaf, types.Reaches room path fields around room' leaf →
      leaf.lookupName = name → types.leafValue? room' query leaf ≠ .ok none)
    {x' y' : Json.Object} {touched touched' : Bool}
    (hx : types.overlayQuery room path query fields x = .ok (x', touched))
    (hy : types.overlayQuery room path query fields y = .ok (y', touched')) : x' = y' := by
  induction h generalizing x' y' touched touched' with
  | @intro room path fields x y halike hnested ih =>
      obtain ⟨given, hgiven, -, hoverlaid⟩ := exists_overlaid_of_overlayQuery hapart.nodup hx
      obtain ⟨given', hgiven', -, hoverlaid'⟩ := exists_overlaid_of_overlayQuery hapart.nodup hy
      have hcarries : ∀ f ∈ fields, types.Carries name room path f →
          (given f).isSome = true ∧ (given' f).isSome = true := by
        intro f hf hcarries
        have haddressed' : ∀ around room' leaf, types.Reaches room path [f] around room' leaf →
            leaf.lookupName = name → types.leafValue? room' query leaf ≠ .ok none :=
          fun _ _ _ hreaches => haddressed _ _ _ (hreaches.of_mem hf)
        exact ⟨isSome_of_carries haddressed' hcarries (hgiven f hf),
          isSome_of_carries haddressed' hcarries (hgiven' f hf)⟩
      refine halike.eq_of_overlaid hoverlaid hoverlaid' ?_ fun f hf h => (hcarries f hf h).1
      intro f hf
      have hx' := hgiven f hf
      have hy' := hgiven' f hf
      cases hrecord : types.record? f.type with
      | none =>
          rw [fieldValue?_of_leaf hrecord] at hx' hy'
          exact Except.ok.inj (hx'.symm.trans hy')
      | some idRecord =>
          obtain ⟨id, r⟩ := idRecord
          by_cases hclosed : room = 0 ∨ id ∈ path
          · rw [fieldValue?_of_closed hrecord hclosed] at hx' hy'
            exact Except.ok.inj (hx'.symm.trans hy')
          obtain ⟨hroom, hpath⟩ := not_or.mp hclosed
          obtain ⟨n, rfl⟩ := Nat.exists_eq_succ_of_ne_zero hroom
          rw [fieldValue?_of_entered hrecord hpath] at hx' hy'
          by_cases hne : types.nestedObject n x f id r = types.nestedObject n y f id r
          · rw [hne] at hx'
            exact Except.ok.inj (hx'.symm.trans hy')
          -- The nested objects differ, so the record carries the name and is touched in both.
          have hf' : types.Carries name (n + 1) path f := by
            by_contra hf'
            exact hne (nestedObject_congr hrecord (halike.completed f hf hf'))
          obtain ⟨hsome, hsome'⟩ := hcarries f hf hf'
          obtain ⟨⟨nested, touched₁⟩, hnested₁, hgiven₁⟩ := Results.map_eq_ok_iff.mp hx'
          obtain ⟨⟨nested', touched₂⟩, hnested₂, hgiven₂⟩ := Results.map_eq_ok_iff.mp hy'
          have heq : nested = nested' :=
            ih f hf n id r rfl hrecord hpath hne (hapart.nested hf hrecord hpath)
              (fun _ _ _ hreaches => haddressed _ _ _ (hreaches.nested hf hrecord hpath))
              hnested₁ hnested₂
          have htouched₁ : touched₁ = true := by
            by_contra hfalse
            rw [← hgiven₁, if_neg hfalse] at hsome
            cases hsome
          have htouched₂ : touched₂ = true := by
            by_contra hfalse
            rw [← hgiven₂, if_neg hfalse] at hsome'
            cases hsome'
          rw [← hgiven₁, ← hgiven₂, heq, htouched₁, htouched₂]

/-! ## The whole request -/

/-- Bodies that differ only in the member of a name, as far as they can be read. -/
def BodiesAgreeOff (name : String) (bytes bytes' : List UInt8) : Prop :=
  ∀ body body', readBody bytes = .ok body → readBody bytes' = .ok body' →
    ∀ key, key ≠ name → (body.getD []).find? key = (body'.getD []).find? key

theorem overlayTop_nil (start : Json.Object) : types.overlayTop fields [] start = .ok start := by
  have hbody : overlayBody (types.convertAt (maxDepth + 1)) fields [] "" start =
      .ok ⟨start, []⟩ := by
    apply Results.foldlM_eq_of_fixed
    intro f _
    rfl
  rw [overlayTop, hbody]
  show Except.ok (types.completeGroups maxDepth fields [] start) = .ok start
  rw [completeGroups_nil]

/-- A body is overlaid with its members; a blank one has none. -/
theorem exists_overlayTop_of_afterBody
    {verb : Verb} (hverb : verb.readsBody = true) {bytes : List UInt8} {start result : Json.Object}
    (h : types.afterBody verb bytes fields start = .ok result) :
    ∃ body, readBody bytes = .ok body ∧
      types.overlayTop fields (body.getD []) start = .ok result := by
  rw [afterBody, if_pos hverb] at h
  obtain ⟨body, hbody, h⟩ := Results.bind_eq_ok_iff.mp h
  refine ⟨body, Results.mapError_eq_ok_iff.mp hbody, ?_⟩
  cases body with
  | none =>
      obtain rfl := Except.ok.inj h
      exact overlayTop_nil start
  | some body => exact Results.mapError_eq_ok_iff.mp h

/-- A request type in which a name can be that of a path variable.  Names in JSON are apart, names
of inputs have no opening bracket, fields of the name are neither records nor tables, and no other
field has the name in JSON. -/
structure AdmitsPathName (types : TypeTable) (id : String) (r : Record) (name : String) : Prop where
  apart : types.EntersApart maxDepth [id] (types.fieldsOf id r)
  brackets : ∀ around room f, types.IsInput id r around room f → '[' ∉ f.lookupName.toList
  single : ∀ around room fields,
    types.Enters maxDepth [id] (types.fieldsOf id r) around room fields →
    ∀ f ∈ fields, f.lookupName = name →
      types.record? f.type = none ∧ ∀ keys values, types.shape f.target ≠ .table keys values
  wireName : ∀ f ∈ types.fieldsOf id r, f.wireName = name → f.lookupName = name

/-- Two queries are the same but for the pairs `name` and `name[]`. -/
def QueriesAgreeOff (name : String) (query query' : Query) : Prop :=
  query.restrict (fun key => key ≠ name && key ≠ indexed name "") =
    query'.restrict fun key => key ≠ name && key ≠ indexed name ""

instance (name : String) (query query' : Query) : Decidable (QueriesAgreeOff name query query') :=
  inferInstanceAs (Decidable (_ = _))

theorem leafValue?_eq_of_queriesAgreeOff
    {query' : Query} (h : QueriesAgreeOff name query query') (hname : '[' ∉ name.toList)
    (hf : '[' ∉ f.lookupName.toList) (hne : f.lookupName ≠ name) :
    types.leafValue? room query f = types.leafValue? room query' f := by
  have hother : ∀ q : Query, types.leafValue? room q f =
      types.leafValue? room (q.restrict fun key => key ≠ name && key ≠ indexed name "") f := by
    intro q
    refine (leafValue?_restrict ?_).symm
    intro key hkey
    simpa using ne_of_reads hf hname hne hkey
  rw [hother query, hother query', h]

theorem AdmitsPathName.addressed
    (h : types.AdmitsPathName id r name) {pathParams : List (String × String)}
    (hname : name ∈ pathParams.map Prod.fst) {around : List VisibleField}
    (hinput : types.IsInput id r around room f) (hf : f.lookupName = name) :
    types.leafValue? room ⟨pathParams⟩ f ≠ .ok none := by
  obtain ⟨fields', hentered, hmem, -⟩ := hinput
  obtain ⟨hleaf, htable⟩ := h.single _ _ _ hentered f hmem hf
  obtain ⟨pair, hpair, hkey⟩ := List.mem_map.mp hname
  intro hnone
  have hunread := leafValue?_eq_none_iff.mp hnone pair hpair
  rw [reads] at hunread
  split at hunread
  · rename_i hshape
    exact shape_ne_record hleaf _ _ hshape
  · simp [hkey, hf] at hunread
  · rename_i hshape
    exact htable _ _ hshape
  · simp [hkey, hf] at hunread

/-- Values of types without components do not depend on the room that is left. -/
theorem convertAt_eq_of_single
    {t : Ty} (hrecord : ∀ id r, types.shape t.target ≠ .record id r)
    (hsequence : ∀ element, types.shape t.target ≠ .sequence element)
    (htable : ∀ keys values, types.shape t.target ≠ .table keys values) (room room' : Nat)
    (value : Json) (place : String) :
    types.convertAt (room + 1) t value place = types.convertAt (room' + 1) t value place := by
  by_cases hnull : value = .null
  · subst hnull
    rw [convertAt, convertAt]
    generalize types.shape t.target = shape at hrecord hsequence htable
    cases shape with
    | record id r => exact absurd rfl (hrecord id r)
    | sequence element => exact absurd rfl (hsequence element)
    | table keys values => exact absurd rfl (htable keys values)
    | _ => rfl
  · rw [convertAt.eq_3 _ _ _ _ _ hnull, convertAt.eq_3 _ _ _ _ _ hnull]
    generalize types.shape t.target = shape at hrecord hsequence htable
    cases shape with
    | record id r => exact absurd rfl (hrecord id r)
    | sequence element => exact absurd rfl (hsequence element)
    | table keys values => exact absurd rfl (htable keys values)
    | _ => rfl

/-- The value that the path parameters give to a field of one of their names: for a list those of
all parameters of the name, otherwise that of the last one. -/
theorem leafValue?_of_pathName
    (h : types.AdmitsPathName id r name) {pathParams : List (String × String)}
    {around : List VisibleField} (hinput : types.IsInput id r around room f)
    (hf : f.lookupName = name) {value : Json}
    (hvalue : types.leafValue? room ⟨pathParams⟩ f = .ok (some value)) :
    (∀ element, types.shape f.target = .sequence element → ∃ items, value = .array items ∧
      List.Forall₂ (fun (entry : String × Nat) item =>
          types.convertAt (room + 1) element (.string entry.1)
            (indexed name (toString entry.2)) = .ok item)
        (Query.all ⟨pathParams⟩ name).zipIdx items) ∧
    ((∀ element, types.shape f.target ≠ .sequence element) → ∃ raw,
      Query.last? ⟨pathParams⟩ name = some raw ∧
        types.convert f.type (.string raw) name = .ok value) := by
  subst hf
  constructor
  · intro element hshape
    exact leafValue?_of_sequence hshape hvalue
  · intro hsequence
    obtain ⟨fields', hentered, hmem, -⟩ := hinput
    obtain ⟨hleaf, htable⟩ := h.single _ _ _ hentered f hmem rfl
    have hrecord := shape_ne_record hleaf
    rw [leafValue?_of_single hrecord hsequence htable] at hvalue
    cases hlast : Query.last? ⟨pathParams⟩ f.lookupName with
    | none => simp [hlast] at hvalue
    | some raw =>
        simp only [hlast] at hvalue
        obtain ⟨converted, hconverted, hsome⟩ := Results.map_eq_ok_iff.mp hvalue
        obtain rfl := Option.some.inj hsome
        refine ⟨raw, rfl, ?_⟩
        rw [convert, convertAt_eq_of_single hrecord hsequence htable maxDepth room]
        exact hconverted

/-- The queries of two calls that differ only under a name leave objects that agree off the name. -/
theorem agreeOff_afterQuery
    (h : types.AdmitsPathName id r name) (hname : '[' ∉ name.toList) {verb : Verb} {query' : Query}
    (hqueries : QueriesAgreeOff name query query')
    (hx : types.afterQuery verb query id (types.fieldsOf id r) (types.zeroObject maxDepth id r) =
      .ok x)
    (hy : types.afterQuery verb query' id (types.fieldsOf id r) (types.zeroObject maxDepth id r) =
      .ok y) :
    types.AgreeOff name maxDepth [id] (types.fieldsOf id r) x y := by
  cases hverb : verb.readsQuery with
  | true =>
      obtain ⟨touched, hoverlay⟩ := (afterQuery_eq_ok_iff hverb).mp hx
      obtain ⟨touched', hoverlay'⟩ := (afterQuery_eq_ok_iff hverb).mp hy
      refine agreeOff_overlayQuery h.apart ?_ (.inl rfl) hoverlay hoverlay'
      intro around room f hinput hne
      exact leafValue?_eq_of_queriesAgreeOff hqueries hname (h.brackets _ _ _ hinput) hne
  | false =>
      simp only [afterQuery, hverb, Bool.false_eq_true, if_false] at hx hy
      obtain rfl := Except.ok.inj hx
      obtain rfl := Except.ok.inj hy
      exact .refl (sorted_zeroObject maxDepth id r)

/-- The bodies of two calls that differ only under a name keep objects that agree off the name. -/
theorem agreeOff_afterBody
    (h : types.AdmitsPathName id r name) {verb : Verb} {bytes bytes' : List UInt8}
    (hbodies : BodiesAgreeOff name bytes bytes')
    (hxy : types.AgreeOff name maxDepth path (types.fieldsOf id r) x y) {x' y' : Json.Object}
    (hx : types.afterBody verb bytes (types.fieldsOf id r) x = .ok x')
    (hy : types.afterBody verb bytes' (types.fieldsOf id r) y = .ok y') :
    types.AgreeOff name maxDepth path (types.fieldsOf id r) x' y' := by
  cases hverb : verb.readsBody with
  | true =>
      obtain ⟨body, hbody, hx⟩ := exists_overlayTop_of_afterBody hverb hx
      obtain ⟨body', hbody', hy⟩ := exists_overlayTop_of_afterBody hverb hy
      have hleaf : ∀ f ∈ types.fieldsOf id r, f.lookupName = name → types.record? f.type = none :=
        fun f hf hname => (h.single [] maxDepth _ .here f hf hname).1
      exact hxy.overlayTop h.apart.nodup hleaf h.wireName (hbodies body body' hbody hbody') hx hy
  | false =>
      simp only [afterBody, hverb, Bool.false_eq_true, if_false] at hx hy
      obtain rfl := Except.ok.inj hx
      obtain rfl := Except.ok.inj hy
      exact hxy

/-- Path variables win, under every method.  Let a request type admit the name of a path variable,
which itself has no opening bracket, and let two calls have the same path parameters, which contain
the name, and differ only in the pairs `name` and `name[]` of their queries and in the member `name`
of their bodies.  If both calls get a request value then they get the same one, and every field of
the name holds what the path says: the last value of the name, or all of them for a list. -/
theorem path_variables_win
    (hadmits : types.AdmitsPathName id r name) (hname : '[' ∉ name.toList) {t : Ty}
    (hrecord : types.record? t = some (id, r)) {method : String} {query' : Query}
    {body body' : List UInt8} {pathParams : List (String × String)}
    (hpath : name ∈ pathParams.map Prod.fst) (hqueries : QueriesAgreeOff name query query')
    (hbodies : BodiesAgreeOff name body body') {value value' : Json}
    (h : types.requestValue t method ⟨query, body, pathParams⟩ = .ok value)
    (h' : types.requestValue t method ⟨query', body', pathParams⟩ = .ok value') :
    value = value' ∧
      ∀ around room f, types.IsInput id r around room f → f.lookupName = name →
        ∃ held, value.at? (placeOf around f) = some held ∧
          (∀ element, types.shape f.target = .sequence element → ∃ items, held = .array items ∧
            List.Forall₂ (fun (entry : String × Nat) item =>
                types.convertAt (room + 1) element (.string entry.1)
                  (indexed name (toString entry.2)) = .ok item)
              (Query.all ⟨pathParams⟩ name).zipIdx items) ∧
          ((∀ element, types.shape f.target ≠ .sequence element) → ∃ raw,
            Query.last? ⟨pathParams⟩ name = some raw ∧
              types.convert f.type (.string raw) name = .ok held) := by
  cases hverb : Verb.ofName? method with
  | none => simp [requestValue, hrecord, hverb] at h
  | some verb =>
      rw [requestValue_eq hrecord hverb] at h h'
      obtain ⟨queried, hqueried, h⟩ := Results.bind_eq_ok_iff.mp h
      obtain ⟨overlaid, hoverlaid, h⟩ := Results.bind_eq_ok_iff.mp h
      obtain ⟨target, htarget, h⟩ := Results.bind_eq_ok_iff.mp h
      obtain rfl := Except.ok.inj h
      obtain ⟨queried', hqueried', h'⟩ := Results.bind_eq_ok_iff.mp h'
      obtain ⟨overlaid', hoverlaid', h'⟩ := Results.bind_eq_ok_iff.mp h'
      obtain ⟨target', htarget', h'⟩ := Results.bind_eq_ok_iff.mp h'
      obtain rfl := Except.ok.inj h'
      have hagree := agreeOff_afterQuery hadmits hname hqueries hqueried hqueried'
      have hagree := agreeOff_afterBody hadmits hbodies hagree hoverlaid hoverlaid'
      obtain ⟨touched, hlast⟩ := afterPath_eq_ok_iff.mp htarget
      obtain ⟨touched', hlast'⟩ := afterPath_eq_ok_iff.mp htarget'
      constructor
      · congr 1
        exact hagree.eq_of_overlayQuery hadmits.apart
          (fun _ _ _ hinput hf => hadmits.addressed hpath hinput hf) hlast hlast'
      · intro around room f hinput hf
        obtain ⟨given, hgiven⟩ := exists_leafValue?_of_overlayQuery hlast hinput
        cases given with
        | none => exact absurd hgiven (hadmits.addressed hpath hinput hf)
        | some held =>
            exact ⟨held, at?_of_overlayQuery hadmits.apart hlast hinput hgiven,
              leafValue?_of_pathName hadmits hinput hf hgiven⟩

/-- A finite check that a request type admits the name of a path variable. -/
theorem admitsPathName_of_entered
    (hfields : ∀ fields ∈ types.enteredFields maxDepth [id] (types.fieldsOf id r),
      (fields.map VisibleField.wireName).Nodup ∧ ∀ f ∈ fields, '[' ∉ f.lookupName.toList ∧
        (f.lookupName = name →
          types.record? f.type = none ∧ (types.shape f.target).fieldKind ≠ .table))
    (hwire : ∀ f ∈ types.fieldsOf id r, f.wireName = name → f.lookupName = name) :
    types.AdmitsPathName id r name where
  apart := fun _ _ _ hentered => (hfields _ hentered.mem_enteredFields).1
  brackets := fun _ _ f ⟨_, hentered, hf, _⟩ =>
    ((hfields _ hentered.mem_enteredFields).2 f hf).1
  single := by
    intro around room fields hentered f hf hname
    obtain ⟨hleaf, hkind⟩ := ((hfields _ hentered.mem_enteredFields).2 f hf).2 hname
    refine ⟨hleaf, ?_⟩
    intro keys values hshape
    rw [hshape] at hkind
    exact hkind rfl
  wireName := hwire

/-! ## An account with a profile -/

/-- An account; its number stands in the profile as well. -/
def account : Record where
  name := "Account"
  fields := [plainField "id" (.scalar (.uint .w32)) false,
    plainField "profile" (.option (.named "Profile")) false]
  doc := none

/-- The types of an account. -/
def accountTypes : TypeTable :=
  ⟨[("Account", .record account), ("Profile", .record ⟨"Profile",
    [plainField "id" (.scalar (.uint .w32)) false, plainField "name" (.scalar .string) false],
      none⟩)]⟩

/-- Neither the query nor the body of a DELETE replaces the number in the path. -/
theorem path_variables_win_account :
    ∃ value, accountTypes.requestValue (.named "Account") "DELETE"
        ⟨⟨[("id", "1")]⟩, Text.bytes "\x7b\"id\":5\x7d", [("id", "7")]⟩ = .ok value ∧
      accountTypes.requestValue (.named "Account") "DELETE" ⟨.empty, [], [("id", "7")]⟩ =
        .ok value ∧
      value.compact = "\x7b\"id\":7,\"profile\":\x7b\"id\":7,\"name\":\"\"\x7d\x7d" := by
  have hadmits : accountTypes.AdmitsPathName "Account" account "id" :=
    admitsPathName_of_entered (by decide +kernel) (by decide +kernel)
  have hqueries : QueriesAgreeOff "id" ⟨[("id", "1")]⟩ .empty := by decide +kernel
  have hbodies : BodiesAgreeOff "id" (Text.bytes "\x7b\"id\":5\x7d") [] := by
    intro body body' hbody hbody' key hkey
    have hkeys : (readBody (Text.bytes "\x7b\"id\":5\x7d")).toOption.map
        (fun body => (body.getD []).map Prod.fst) = some ["id"] := by
      decide +kernel
    rw [hbody] at hkeys
    have hids : (body.getD []).map Prod.fst = ["id"] := Option.some.inj hkeys
    obtain rfl : none = body' := Except.ok.inj hbody'
    refine List.lookup_eq_none_iff.mpr ?_
    intro pair hpair
    have hid : pair.1 ∈ ["id"] := hids ▸ List.mem_map_of_mem hpair
    simpa [List.mem_singleton.mp hid] using hkey
  have hcompact : (accountTypes.requestValue (.named "Account") "DELETE"
      ⟨⟨[("id", "1")]⟩, Text.bytes "\x7b\"id\":5\x7d", [("id", "7")]⟩).toOption.map Json.compact =
      some "\x7b\"id\":7,\"profile\":\x7b\"id\":7,\"name\":\"\"\x7d\x7d" := by
    decide +kernel
  have hsucceeds : (accountTypes.requestValue (.named "Account") "DELETE"
      ⟨.empty, [], [("id", "7")]⟩).toOption.map Json.compact =
      some "\x7b\"id\":7,\"profile\":\x7b\"id\":7,\"name\":\"\"\x7d\x7d" := by
    decide +kernel
  obtain ⟨value, hvalue, htext⟩ := Results.exists_of_toOption_map hcompact
  obtain ⟨value', hvalue', -⟩ := Results.exists_of_toOption_map hsucceeds
  obtain ⟨rfl, -⟩ :=
    path_variables_win hadmits (by decide) rfl (by decide) hqueries hbodies hvalue hvalue'
  exact ⟨value, hvalue, hvalue', htext⟩

/-! ## A path variable with a bracket -/

/-- A request with labels by key. -/
def labelled : Record where
  name := "Labelled"
  fields := [plainField "m" (.table .ordered (.scalar .string) (.scalar .string)) false]
  doc := none

/-- The type of a request with labels. -/
def labelledTypes : TypeTable := ⟨[("Labelled", .record labelled)]⟩

/-- The pair `m[[]` is the list form of the name `m[`, but also an entry of the table `m`, which a
path variable named `m[` does not replace. -/
theorem path_variable_with_bracket_loses :
    labelledTypes.AdmitsPathName "Labelled" labelled "m[" ∧
      labelledTypes.record? (.named "Labelled") = some ("Labelled", labelled) ∧
      QueriesAgreeOff "m[" ⟨[("m[[]", "1")]⟩ .empty ∧ BodiesAgreeOff "m[" [] [] ∧
      ∃ value value',
        labelledTypes.requestValue (.named "Labelled") "GET"
          ⟨⟨[("m[[]", "1")]⟩, [], [("m[", "x")]⟩ = .ok value ∧
        labelledTypes.requestValue (.named "Labelled") "GET" ⟨.empty, [], [("m[", "x")]⟩ =
          .ok value' ∧ value ≠ value' := by
  have hadmits : labelledTypes.AdmitsPathName "Labelled" labelled "m[" :=
    admitsPathName_of_entered (by decide +kernel) (by decide +kernel)
  have hbodies : BodiesAgreeOff "m[" [] [] := by
    intro body body' hbody hbody' key _
    rw [Except.ok.inj (hbody.symm.trans hbody')]
  refine ⟨hadmits, rfl, by decide +kernel, hbodies, ?_⟩
  have hcompact : (labelledTypes.requestValue (.named "Labelled") "GET"
      ⟨⟨[("m[[]", "1")]⟩, [], [("m[", "x")]⟩).toOption.map Json.compact =
      some "\x7b\"m\":\x7b\"[\":\"1\"\x7d\x7d" := by
    decide +kernel
  have hcompact' : (labelledTypes.requestValue (.named "Labelled") "GET"
      ⟨.empty, [], [("m[", "x")]⟩).toOption.map Json.compact = some "\x7b\"m\":\x7b\x7d\x7d" := by
    decide +kernel
  obtain ⟨value, hvalue, htext⟩ := Results.exists_of_toOption_map hcompact
  obtain ⟨value', hvalue', htext'⟩ := Results.exists_of_toOption_map hcompact'
  refine ⟨value, value', hvalue, hvalue', ?_⟩
  rintro rfl
  rw [htext] at htext'
  revert htext'
  decide

end TypeTable
end TypedRoutes
