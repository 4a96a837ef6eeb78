import TypedRoutes.Proofs.BodyOverQuery

/-!
# Optional records appear when they are addressed

The value of a GET starts from the zero value, in which optional records are `null` and the members
of optional groups are left out.  A query puts an object in the place of an optional record exactly
if some field inside it reads a pair, however deep, and completes a group exactly if some member or
a field inside one does.  The parameters of the path are overlaid like a second query, so their
pairs count as well.
-/

namespace TypedRoutes
namespace TypeTable

variable {types : TypeTable} {room : Nat} {path : List String} {fields around : List VisibleField}
  {query : Query} {pairs : List (String × String)} {f g : VisibleField} {id id' : String}
  {r r' : Record} {x y : Json.Object}

/-! ## Addressed fields -/

/-- Some pair is read inside the field that stands within some record fields: by the field itself,
or by one that is reached through it. -/
def AddressedIn (types : TypeTable) (room : Nat) (path : List String)
    (fields : List VisibleField) (pairs : List (String × String)) (around : List VisibleField)
    (f : VisibleField) : Prop :=
  ∃ around' room' leaf, types.Reaches room path fields around' room' leaf ∧
    (around ++ [f]) <+: (around' ++ [leaf]) ∧ ∃ pair ∈ pairs, types.reads leaf pair.1 = true

theorem not_addressedIn_nil : ¬types.AddressedIn room path fields [] around f := by
  rintro ⟨_, _, _, _, _, _, hpair, _⟩
  cases hpair

theorem addressedIn_append_iff
    {more : List (String × String)} :
    types.AddressedIn room path fields (pairs ++ more) around f ↔
      types.AddressedIn room path fields pairs around f ∨
        types.AddressedIn room path fields more around f := by
  constructor
  · rintro ⟨around', room', leaf, hreaches, hprefix, pair, hpair, hreads⟩
    rcases List.mem_append.mp hpair with hpair | hpair
    · exact .inl ⟨around', room', leaf, hreaches, hprefix, pair, hpair, hreads⟩
    · exact .inr ⟨around', room', leaf, hreaches, hprefix, pair, hpair, hreads⟩
  · rintro (⟨around', room', leaf, hreaches, hprefix, pair, hpair, hreads⟩ |
      ⟨around', room', leaf, hreaches, hprefix, pair, hpair, hreads⟩)
    · exact ⟨around', room', leaf, hreaches, hprefix, pair, by simp [hpair], hreads⟩
    · exact ⟨around', room', leaf, hreaches, hprefix, pair, by simp [hpair], hreads⟩

theorem exists_reads_iff
    (room : Nat) : (∃ pair ∈ query.pairs, types.reads f pair.1 = true) ↔
      types.leafValue? room query f ≠ .ok none := by
  rw [ne_eq, leafValue?_eq_none_iff]
  push Not
  simp only [ne_eq, Bool.not_eq_false]

/-- A field is given a value by a query exactly if it is addressed. -/
theorem isSome_fieldValue?_iff
    (hf : f ∈ fields) {given : Option Json}
    (h : types.fieldValue? room path query x f = .ok given) :
    given.isSome = true ↔ types.AddressedIn room path fields query.pairs [] f := by
  constructor
  · intro hsome
    obtain ⟨value, rfl⟩ := Option.isSome_iff_exists.mp hsome
    rcases fieldValue?_eq_some h with
      ⟨hleaf, hread⟩ | ⟨room', id, r, nested, rfl, hrecord, hpath, hnested, -⟩
    · refine ⟨[], room, f, ⟨fields, .here, hf, hleaf⟩, List.prefix_refl _, ?_⟩
      exact (exists_reads_iff room).mpr (by simp [hread])
    · obtain ⟨around, room'', leaf, value, hreaches, hread, -⟩ := exists_at?_of_overlayQuery hnested
      refine ⟨f :: around, room'', leaf, hreaches.nested hf hrecord hpath, ?_, ?_⟩
      · exact ⟨around ++ [leaf], by simp⟩
      · exact (exists_reads_iff room'').mpr (by simp [hread])
  · rintro ⟨around, room', leaf, ⟨fields', hentered, hleaf, hrecord⟩, hprefix, hread⟩
    rw [exists_reads_iff room'] at hread
    by_contra hnone
    obtain rfl := Option.not_isSome_iff_eq_none.mp hnone
    cases hentered with
    | here =>
        obtain rfl : f = leaf := by simpa using hprefix
        rw [fieldValue?_of_leaf hrecord] at h
        exact hread h
    | @nested _ _ _ g id r around _ _ hg hrecord' hpath hentered =>
        obtain rfl : f = g := by
          obtain ⟨rest, hrest⟩ := hprefix
          simpa using (List.cons.inj hrest).1
        rw [fieldValue?_of_entered hrecord' hpath] at h
        obtain ⟨⟨nested, touched⟩, hnested, hsome⟩ := Results.map_eq_ok_iff.mp h
        cases touched with
        | true => cases hsome
        | false => exact hread ((overlayQuery_untouched hnested).2 _ _ _
            ⟨fields', hentered, hleaf, hrecord⟩)

/-- Nothing inside a record that is not entered is addressed. -/
theorem not_addressedIn_of_closed
    (hf : f ∈ fields) (hrecord : types.record? f.type = some (id, r)) (hpath : id ∈ path) :
    ¬types.AddressedIn room path fields pairs [] f := by
  have hgiven : types.fieldValue? room path ⟨pairs⟩ [] f = .ok none :=
    fieldValue?_of_closed hrecord (.inr hpath) []
  rw [← isSome_fieldValue?_iff hf hgiven]
  simp

/-- Inside a record that is entered, the fields are addressed that its own fields lead to. -/
theorem addressedIn_cons_iff
    (hg : g ∈ fields) (hrecord : types.record? g.type = some (id, r)) :
    types.AddressedIn (room + 1) path fields pairs (g :: around) f ↔
      id ∉ path ∧ types.AddressedIn room (id :: path) (types.fieldsOf id r) pairs around f := by
  constructor
  · rintro ⟨around', room', leaf, ⟨fields', hentered, hleaf, hnone⟩, hprefix, hread⟩
    cases hentered with
    | here => simp [List.cons_append, List.prefix_cons_iff] at hprefix
    | @nested _ _ _ g' id' r' around'' _ _ _ hrecord' hpath hentered =>
        obtain ⟨rfl, htail⟩ := List.cons_prefix_cons.mp hprefix
        obtain ⟨rfl, rfl⟩ := record?_unique hrecord hrecord'
        exact ⟨hpath, around'', room', leaf, ⟨fields', hentered, hleaf, hnone⟩, htail, hread⟩
  · rintro ⟨hpath, around', room', leaf, hreaches, hprefix, hread⟩
    exact ⟨g :: around', room', leaf, hreaches.nested hg hrecord hpath,
      List.cons_prefix_cons.mpr ⟨rfl, hprefix⟩, hread⟩

/-! ## Objects in which some fields were addressed -/

/-- The object of a record some of whose fields were addressed.  These have a value, which is an
object where the field is a record.  The others have their zero value, or are left out if they
belong to a group none of which was addressed. -/
structure Settled (types : TypeTable) (room : Nat) (fields : List VisibleField)
    (P : VisibleField → Prop) (x : Json.Object) : Prop where
  addressed : ∀ f ∈ fields, P f → ∃ value, x.find? f.wireName = some value ∧
    ((types.record? f.type).isSome = true → ∃ members, value = .object members)
  zero : ∀ f ∈ fields, ¬P f → (f.group = none ∨ ∃ g ∈ fields, g.group = f.group ∧ P g) →
    x.find? f.wireName = some (types.zeroAt room f.type)
  absent : ∀ f ∈ fields, f.group ≠ none → (∀ g ∈ fields, g.group = f.group → ¬P g) →
    x.find? f.wireName = none

theorem Settled.congr
    {P Q : VisibleField → Prop} (h : types.Settled room fields P x) (hPQ : ∀ f, P f ↔ Q f) :
    types.Settled room fields Q x := by
  obtain rfl : P = Q := funext fun f => propext (hPQ f)
  exact h

/-- An object in the place of a record that was not addressed is a zero object. -/
theorem Settled.eq_zeroObject
    {P : VisibleField → Prop} (h : types.Settled (room + 1) fields P x) (hf : f ∈ fields)
    (hrecord : types.record? f.type = some (id, r)) (hnot : ¬P f) {nested : Json.Object}
    (hfind : x.find? f.wireName = some (.object nested)) :
    nested = types.zeroObject room id r := by
  by_cases hplace : f.group = none ∨ ∃ g ∈ fields, g.group = f.group ∧ P g
  · rw [h.zero f hf hnot hplace, zeroAt_of_record hrecord] at hfind
    split at hfind
    · cases hfind
    · exact (Json.object.inj (Option.some.inj hfind)).symm
  · obtain ⟨hgroup, hfresh⟩ := not_or.mp hplace
    push Not at hfresh
    rw [h.absent f hf hgroup hfresh] at hfind
    cases hfind

/-- In a zero object nothing was addressed. -/
theorem settled_zeroObject
    (hapart : MembersApart r.markerField? (types.fieldsOf id r)) (room : Nat) :
    types.Settled room (types.fieldsOf id r) (fun _ => False) (types.zeroObject room id r) where
  addressed _ _ h := h.elim
  zero f hf _ hplace := by
    rw [find?_zeroObject_of_mem hapart hf, if_neg]
    rcases hplace with hnone | ⟨_, _, _, hfalse⟩
    · simp [hnone]
    · exact hfalse.elim
  absent f hf hgroup _ := by
    rw [find?_zeroObject_of_mem hapart hf, if_pos]
    exact Option.isSome_iff_ne_none.mpr hgroup

/-- A query adds what it addresses. -/
theorem Settled.overlayQuery
    {P : VisibleField → Prop} (h : types.Settled room fields P x)
    (hnodup : (fields.map VisibleField.wireName).Nodup) {touched : Bool}
    (hy : types.overlayQuery room path query fields x = .ok (y, touched)) :
    types.Settled room fields
      (fun f => P f ∨ types.AddressedIn room path fields query.pairs [] f) y := by
  obtain ⟨given, hgiven, -, hoverlaid⟩ := exists_overlaid_of_overlayQuery hnodup hy
  have hsome : ∀ f ∈ fields, (given f).isSome = true ↔
      types.AddressedIn room path fields query.pairs [] f :=
    fun f hf => isSome_fieldValue?_iff hf (hgiven f hf)
  have hnone : ∀ f ∈ fields, ¬types.AddressedIn room path fields query.pairs [] f →
      given f = none := by
    intro f hf hnot
    rwa [← hsome f hf, Option.not_isSome_iff_eq_none] at hnot
  refine ⟨?_, ?_, ?_⟩
  · intro f hf hP
    by_cases haddressed : types.AddressedIn room path fields query.pairs [] f
    · obtain ⟨value, hvalue⟩ := Option.isSome_iff_exists.mp ((hsome f hf).mpr haddressed)
      refine ⟨value, by rw [hoverlaid.field f hf, hvalue]; rfl, fun hrecord => ?_⟩
      rcases fieldValue?_eq_some ((hgiven f hf).trans (congrArg _ hvalue)) with
        ⟨hleaf, -⟩ | ⟨_, _, _, nested, -, -, -, -, rfl⟩
      · simp [hleaf] at hrecord
      · exact ⟨nested, rfl⟩
    · obtain ⟨value, hvalue, hobject⟩ := h.addressed f hf (hP.resolve_right haddressed)
      exact ⟨value, by rw [hoverlaid.field f hf, hnone f hf haddressed, hvalue]; rfl, hobject⟩
  · intro f hf hnot hplace
    obtain ⟨hnotP, haddressed⟩ := not_or.mp hnot
    by_cases hbefore : f.group = none ∨ ∃ g ∈ fields, g.group = f.group ∧ P g
    · rw [hoverlaid.field f hf, hnone f hf haddressed, h.zero f hf hnotP hbefore]
      rfl
    · -- the group is addressed by this query for the first time
      obtain ⟨hgroup, hfresh⟩ := not_or.mp hbefore
      push Not at hfresh
      obtain ⟨g, hg, hgf, hPg⟩ := hplace.resolve_left hgroup
      obtain ⟨n, hn⟩ := Option.ne_none_iff_exists'.mp hgroup
      have hcompleted : groupGiven fields given f = true :=
        groupGiven_eq_true_iff.mpr ⟨n, hn, g, hg, hgf.trans hn,
          (hsome g hg).mpr (hPg.resolve_left (hfresh g hg hgf))⟩
      rw [hoverlaid.field f hf, hnone f hf haddressed, h.absent f hf hgroup hfresh, hcompleted]
      rfl
  · intro f hf hgroup hall
    have hnotP : ∀ g ∈ fields, g.group = f.group → ¬P g :=
      fun g hg hgf hPg => hall g hg hgf (.inl hPg)
    have hungiven : groupGiven fields given f = false := by
      rw [Bool.eq_false_iff, ne_eq, groupGiven_eq_true_iff]
      rintro ⟨n, hn, g, hg, hgn, hgiven'⟩
      exact hall g hg (hgn.trans hn.symm) (.inr ((hsome g hg).mp hgiven'))
    rw [hoverlaid.field f hf, hnone f hf fun haddressed => hall f hf rfl (.inr haddressed),
      h.absent f hf hgroup hnotP, hungiven]
    rfl

/-! ## Queries one after the other -/

/-- Queries that are overlaid one after the other lead from one object of a record to another. -/
inductive OverlaidBy (types : TypeTable) (room : Nat) (path : List String)
    (fields : List VisibleField) : List Query → Json.Object → Json.Object → Prop
  | nil {x : Json.Object} : OverlaidBy types room path fields [] x x
  | cons {query : Query} {queries : List Query} {x y z : Json.Object} {touched : Bool}
      (h : types.overlayQuery room path query fields x = .ok (y, touched))
      (rest : OverlaidBy types room path fields queries y z) :
      OverlaidBy types room path fields (query :: queries) x z

/-- A run of queries adds what they address. -/
theorem OverlaidBy.settled
    {queries : List Query} (h : types.OverlaidBy room path fields queries x y)
    (hnodup : (fields.map VisibleField.wireName).Nodup) {P : VisibleField → Prop}
    (hx : types.Settled room fields P x) :
    types.Settled room fields (fun f => P f ∨
      types.AddressedIn room path fields (queries.flatMap Query.pairs) [] f) y := by
  induction h generalizing P with
  | nil => exact hx.congr fun f => by simp [not_addressedIn_nil]
  | cons hquery _ ih =>
      refine (ih (hx.overlayQuery hnodup hquery)).congr fun f => ?_
      rw [List.flatMap_cons, addressedIn_append_iff, or_assoc]

/-- A run of queries on an object is one on the objects of the nested records that are entered. -/
theorem OverlaidBy.nested
    {queries : List Query} (h : types.OverlaidBy (room + 1) path fields queries x y)
    (hnodup : (fields.map VisibleField.wireName).Nodup) (hf : f ∈ fields)
    (hrecord : types.record? f.type = some (id, r)) (hpath : id ∉ path) :
    types.OverlaidBy room (id :: path) (types.fieldsOf id r) queries
      (types.nestedObject room x f id r) (types.nestedObject room y f id r) := by
  induction h with
  | nil => exact .nil
  | cons hquery _ ih =>
      obtain ⟨touched, hnested⟩ :=
        exists_overlayQuery_nestedObject hnodup hquery hf hrecord hpath
      exact .cons hnested ih

/-- The object of a nested record in a zero object is a zero object. -/
theorem nestedObject_zeroObject
    (hapart : MembersApart r.markerField? (types.fieldsOf id r)) (hf : f ∈ types.fieldsOf id r)
    (hrecord : types.record? f.type = some (id', r')) :
    types.nestedObject room (types.zeroObject (room + 1) id r) f id' r' =
      types.zeroObject room id' r' := by
  rw [nestedObject, find?_zeroObject_of_mem hapart hf, zeroAt_of_record hrecord]
  cases f.group.isSome with
  | true => rfl
  | false => cases f.type.isOption <;> rfl

/-- What a run of queries on a zero object leaves in the objects inside it. -/
theorem settled_of_leads
    (hleads : types.Leads id r around id' r') (hapart : types.LeadsApart id r)
    (hroom : around.length ≤ room) {queries : List Query}
    (hrun : types.OverlaidBy room path (types.fieldsOf id r) queries (types.zeroObject room id r) x)
    (hx : (Json.object x).at? (around.map VisibleField.wireName) = some (.object y)) :
    types.Settled (room - around.length) (types.fieldsOf id' r')
      (types.AddressedIn room path (types.fieldsOf id r) (queries.flatMap Query.pairs) around)
      y := by
  induction hleads generalizing room path queries x with
  | here =>
      obtain rfl : x = y := Json.object.inj (Option.some.inj hx)
      have hsettled := hrun.settled hapart.here.nodup (settled_zeroObject hapart.here room)
      exact hsettled.congr fun f => by rw [false_or]
  | @nested id r g around inner s id' r' hg hrecord _ ih =>
      obtain ⟨room, rfl⟩ : ∃ n, room = n + 1 := ⟨room - 1, by simp at hroom; omega⟩
      rw [List.length_cons, Nat.add_le_add_iff_right] at hroom
      rw [List.length_cons, Nat.add_sub_add_right]
      obtain ⟨nested, hfind, hat⟩ := Json.exists_of_at?_cons hx
      by_cases hpath : inner ∈ path
      · -- the record is not entered, and its object is a zero object without any queries
        have hsettled := hrun.settled hapart.here.nodup (settled_zeroObject hapart.here (room + 1))
        have hclosed : ¬types.AddressedIn (room + 1) path (types.fieldsOf id r)
            (queries.flatMap Query.pairs) [] g := not_addressedIn_of_closed hg hrecord hpath
        obtain rfl : nested = types.zeroObject room inner s :=
          hsettled.eq_zeroObject hg hrecord (by rwa [false_or]) hfind
        have hblank : types.OverlaidBy room path (types.fieldsOf inner s) []
            (types.zeroObject room inner s) (types.zeroObject room inner s) := .nil
        refine (ih (hapart.nested hg hrecord) hroom hblank hat).congr fun f => ?_
        rw [addressedIn_cons_iff hg hrecord]
        simp [hpath, not_addressedIn_nil]
      · have hinner := hrun.nested hapart.here.nodup hg hrecord hpath
        rw [nestedObject_zeroObject hapart.here hg hrecord] at hinner
        have hnested : types.nestedObject room x g inner s = nested := by
          rw [nestedObject, hfind]
        rw [hnested] at hinner
        refine (ih (hapart.nested hg hrecord) hroom hinner hat).congr fun f => ?_
        rw [addressedIn_cons_iff hg hrecord]
        simp [hpath]

/-! ## Requests -/

/-- Some of the pairs of a request are read inside a field that stands within some record fields of
its type: by the field itself, or by one that the query reaches through it. -/
def Addressed (types : TypeTable) (id : String) (r : Record) (pairs : List (String × String))
    (around : List VisibleField) (f : VisibleField) : Prop :=
  types.AddressedIn maxDepth [id] (types.fieldsOf id r) pairs around f

/-- Optional records are filled when they are addressed, and only then.  Let the names in JSON be
apart in every record of the request type, and take an object that stands in the value of a GET
within at most 32 record fields.  There an optional record outside optional groups, or in a group
that is addressed, is `null` exactly if nothing inside it is addressed by a pair of the query or by
a parameter of the path; one that is addressed is an object.  The members of a group are all left
out exactly if none is addressed, nor anything inside one; once one is addressed, every member that
is not has its zero value. -/
theorem optional_records_filled_when_addressed
    {t : Ty} (hrecord : types.record? t = some (id, r)) (hapart : types.LeadsApart id r)
    {body : List UInt8} {pathParams : List (String × String)} {value : Json}
    (h : types.requestValue t "GET" ⟨query, body, pathParams⟩ = .ok value)
    (hleads : types.Leads id r around id' r') (hdepth : around.length ≤ maxDepth)
    {members : Json.Object}
    (hmembers : value.at? (around.map VisibleField.wireName) = some (.object members)) :
    (∀ f ∈ types.fieldsOf id' r', f.type.isOption = true → (types.record? f.type).isSome = true →
      ((f.group = none ∨ ∃ g ∈ types.fieldsOf id' r', g.group = f.group ∧
          types.Addressed id r (query.pairs ++ pathParams) around g) →
        (members.find? f.wireName = some .null ↔
          ¬types.Addressed id r (query.pairs ++ pathParams) around f)) ∧
      (types.Addressed id r (query.pairs ++ pathParams) around f →
        ∃ inner : Json.Object, members.find? f.wireName = some (.object inner))) ∧
    ∀ group,
      ((∀ f ∈ types.fieldsOf id' r', f.group = some group → members.find? f.wireName = none) ↔
        ∀ f ∈ types.fieldsOf id' r', f.group = some group →
          ¬types.Addressed id r (query.pairs ++ pathParams) around f) ∧
      ∀ f ∈ types.fieldsOf id' r', f.group = some group →
        types.Addressed id r (query.pairs ++ pathParams) around f →
        ∀ g ∈ types.fieldsOf id' r', g.group = some group →
          ¬types.Addressed id r (query.pairs ++ pathParams) around g →
          members.find? g.wireName = some (types.zeroAt (maxDepth - around.length) g.type) := by
  obtain ⟨queried, _, target, _, rfl, hquery, hpath⟩ :=
    exists_overlayQuery_of_requestValue_get hrecord h
  have hrun : types.OverlaidBy maxDepth [id] (types.fieldsOf id r) [query, ⟨pathParams⟩]
      (types.zeroObject maxDepth id r) target := .cons hquery (.cons hpath .nil)
  have hpairs : [query, ⟨pathParams⟩].flatMap Query.pairs = query.pairs ++ pathParams := by simp
  have hsettled := settled_of_leads hleads hapart hdepth hrun hmembers
  rw [hpairs] at hsettled
  refine ⟨?_, fun group => ⟨⟨?_, ?_⟩, ?_⟩⟩
  · intro f hf hoption hisRecord
    have hfilled : types.Addressed id r (query.pairs ++ pathParams) around f →
        ∃ inner : Json.Object, members.find? f.wireName = some (.object inner) := by
      intro haddressed
      obtain ⟨held, hheld, hobject⟩ := hsettled.addressed f hf haddressed
      obtain ⟨inner, rfl⟩ := hobject hisRecord
      exact ⟨inner, hheld⟩
    refine ⟨fun hplace => ⟨fun hnull haddressed => ?_, fun hnot => ?_⟩, hfilled⟩
    · obtain ⟨inner, hinner⟩ := hfilled haddressed
      rw [hnull] at hinner
      cases hinner
    · rw [hsettled.zero f hf hnot hplace, zeroAt_of_isOption hoption]
  · intro hall f hf hgroup haddressed
    obtain ⟨value, hvalue, -⟩ := hsettled.addressed f hf haddressed
    rw [hall f hf hgroup] at hvalue
    cases hvalue
  · intro hnone f hf hgroup
    refine hsettled.absent f hf (by simp [hgroup]) fun g hg hgf => ?_
    exact hnone g hg (hgf.trans hgroup)
  · intro f hf hgroup haddressed g hg hgroup' hnot
    exact hsettled.zero g hg hnot (.inr ⟨f, hf, hgroup.trans hgroup'.symm, haddressed⟩)

/-! ## A search with an optional filter and an optional page -/

/-- A search; its filter may be left out, and so may the members of the page. -/
def search : Record where
  name := "Search"
  fields := [plainField "filter" (.option (.named "Filter")) false,
    plainField "page" (.option (.named "Page")) true]
  doc := none

/-- What a search asks for. -/
def searchParts : List (String × Record) :=
  [("Filter", ⟨"Filter", [plainField "colour" (.scalar .string) false,
      plainField "owner" (.option (.named "Owner")) false], none⟩),
    ("Owner", ⟨"Owner", [plainField "login" (.scalar .string) false], none⟩),
    ("Page", ⟨"Page", [plainField "limit" (.scalar (.uint .w8)) false,
      plainField "offset" (.scalar (.uint .w8)) false], none⟩)]

/-- The types of a search. -/
def searchTypes : TypeTable :=
  ⟨(("Search", search) :: searchParts).map fun entry => (entry.1, .record entry.2)⟩

/-- The filter of a search. -/
def searchFilter : VisibleField :=
  visibleField ⟨false, none⟩ (plainField "filter" (.option (.named "Filter")) false)

theorem search_leadsApart : searchTypes.LeadsApart "Search" search :=
  .of_closed (List.mem_cons_self (l := searchParts)) (by decide) (by decide)

/-- A login addresses the filter, by its owner, and no member of the page. -/
theorem optional_records_filled_when_addressed_search :
    ∃ value, searchTypes.requestValue (.named "Search") "GET" ⟨⟨[("login", "ann")]⟩, [], []⟩ =
        .ok value ∧
      searchTypes.Addressed "Search" search [("login", "ann")] [] searchFilter ∧
      ∀ f ∈ searchTypes.fieldsOf "Search" search, f.group = some 0 →
        ¬searchTypes.Addressed "Search" search [("login", "ann")] [] f := by
  have hcomputed : (searchTypes.requestValue (.named "Search") "GET"
      ⟨⟨[("login", "ann")]⟩, [], []⟩).toOption.map (fun value => (value.kindPhrase,
        (value.member? "filter").map Json.kindPhrase,
        (searchTypes.fieldsOf "Search" search).all fun f =>
          f.group != some 0 || (value.member? f.wireName).isNone)) =
      some ("an object", some "an object", true) := by
    decide
  obtain ⟨value, hvalue, hheld⟩ := Results.exists_of_toOption_map hcomputed
  obtain ⟨hkind, hheld⟩ := Prod.mk.inj hheld
  obtain ⟨hfilter, hpage⟩ := Prod.mk.inj hheld
  obtain ⟨members, rfl⟩ := Json.exists_of_kindPhrase hkind
  obtain ⟨hrecords, hgroups⟩ := optional_records_filled_when_addressed (t := .named "Search") rfl
    search_leadsApart hvalue .here (Nat.zero_le _) rfl
  refine ⟨_, hvalue, ?_, (hgroups 0).1.mp fun f hf hgroup => ?_⟩
  · have hnull := (hrecords searchFilter (by decide) rfl rfl).1 (.inl rfl)
    by_contra hnot
    rw [show (Json.object members).member? "filter" = some .null from hnull.mpr hnot] at hfilter
    revert hfilter
    decide
  · have hleft := List.all_eq_true.mp hpage f hf
    simp only [hgroup, bne_self_eq_false, Bool.false_or, Option.isNone_iff_eq_none] at hleft
    exact hleft

/-! ## A chain without an end, and an account with a number in the path -/

/-- A link of a chain that has no last one, with an optional note. -/
def chain : Record where
  name := "Chain"
  fields := [plainField "rest" (.named "Chain") false,
    plainField "note" (.option (.named "Note")) false]
  doc := none

/-- A note. -/
def note : Record where
  name := "Note"
  fields := [plainField "text" (.scalar .string) false]
  doc := none

/-- The types of a chain. -/
def chainTypes : TypeTable :=
  ⟨[("Chain", .record chain), ("Note", .record note)]⟩

/-- The rest of a chain. -/
def chainRest : VisibleField :=
  visibleField ⟨false, none⟩ (plainField "rest" (.named "Chain") false)

/-- The note of a link. -/
def chainNote : VisibleField :=
  visibleField ⟨false, none⟩ (plainField "note" (.option (.named "Note")) false)

theorem chain_leadsApart : chainTypes.LeadsApart "Chain" chain :=
  .of_closed (List.mem_cons_self (l := [("Note", note)])) (by decide) (by decide)

/-- The rest of a chain leads to chains. -/
theorem leads_chains (n : Nat) :
    chainTypes.Leads "Chain" chain (List.replicate n chainRest) "Chain" chain := by
  induction n with
  | zero => exact .here
  | succ n ih => exact .nested (by decide) rfl ih

/-- Below 32 record fields the objects in the value of a GET have no members. -/
theorem exists_last_chain :
    ∃ value, ∃ last : Json.Object,
      chainTypes.requestValue (.named "Chain") "GET" ⟨.empty, [], []⟩ = .ok value ∧
      value.at? ((List.replicate 33 chainRest).map VisibleField.wireName) = some (.object last) ∧
      last.find? chainNote.wireName = none := by
  have hcomputed : (chainTypes.requestValue (.named "Chain") "GET" ⟨.empty, [], []⟩).toOption.map
      (fun value => (value.at? ((List.replicate 33 chainRest).map VisibleField.wireName)).map
        fun last => (last.kindPhrase, (last.member? chainNote.wireName).isNone)) =
      some (some ("an object", true)) := by
    decide
  obtain ⟨value, hvalue, hheld⟩ := Results.exists_of_toOption_map hcomputed
  obtain ⟨last, hlast, hheld⟩ := Option.map_eq_some_iff.mp hheld
  obtain ⟨hkind, hnone⟩ := Prod.mk.inj hheld
  obtain ⟨members, rfl⟩ := Json.exists_of_kindPhrase hkind
  exact ⟨value, members, hvalue, hlast, Option.isNone_iff_eq_none.mp hnone⟩

/-- The profile of an account. -/
def accountProfile : VisibleField :=
  visibleField ⟨false, none⟩ (plainField "profile" (.option (.named "Profile")) false)

/-- A profile. -/
def profile : Record where
  name := "Profile"
  fields := [plainField "id" (.scalar (.uint .w32)) false,
    plainField "name" (.scalar .string) false]
  doc := none

theorem account_leadsApart : accountTypes.LeadsApart "Account" account :=
  .of_closed (List.mem_cons_self (l := [("Profile", profile)])) (by decide)
    (by decide)

/-- A number in the path is written into the profile of an account. -/
theorem exists_profile_of_path :
    ∃ members inner : Json.Object,
      accountTypes.requestValue (.named "Account") "GET" ⟨.empty, [], [("id", "7")]⟩ =
        .ok (.object members) ∧
      members.find? accountProfile.wireName = some (.object inner) := by
  have hcomputed : (accountTypes.requestValue (.named "Account") "GET"
      ⟨.empty, [], [("id", "7")]⟩).toOption.map (fun value => (value.kindPhrase,
        (value.member? accountProfile.wireName).map Json.kindPhrase)) =
      some ("an object", some "an object") := by
    decide
  obtain ⟨value, hvalue, hheld⟩ := Results.exists_of_toOption_map hcomputed
  obtain ⟨hkind, hheld⟩ := Prod.mk.inj hheld
  obtain ⟨held, hfind, hkind'⟩ := Option.map_eq_some_iff.mp hheld
  obtain ⟨members, rfl⟩ := Json.exists_of_kindPhrase hkind
  obtain ⟨inner, rfl⟩ := Json.exists_of_kindPhrase hkind'
  exact ⟨members, inner, hvalue, hfind⟩

/-- An optional record that the query does not address need not be `null`.  Below 32 record fields
it is not there at all, and a number in the path is written into a profile that the query does not
mention. -/
theorem unaddressed_record_not_null :
    (chainTypes.LeadsApart "Chain" chain ∧
      chainTypes.Leads "Chain" chain (List.replicate 33 chainRest) "Chain" chain ∧
      chainNote ∈ chainTypes.fieldsOf "Chain" chain ∧ chainNote.type.isOption = true ∧
      (chainTypes.record? chainNote.type).isSome = true ∧ chainNote.group = none ∧
      ¬chainTypes.Addressed "Chain" chain [] (List.replicate 33 chainRest) chainNote ∧
      ∃ value, ∃ last : Json.Object,
        chainTypes.requestValue (.named "Chain") "GET" ⟨.empty, [], []⟩ = .ok value ∧
        value.at? ((List.replicate 33 chainRest).map VisibleField.wireName) =
          some (.object last) ∧
        last.find? chainNote.wireName ≠ some .null) ∧
    accountTypes.LeadsApart "Account" account ∧
      accountProfile ∈ accountTypes.fieldsOf "Account" account ∧
      accountProfile.type.isOption = true ∧
      (accountTypes.record? accountProfile.type).isSome = true ∧ accountProfile.group = none ∧
      ¬accountTypes.Addressed "Account" account [] [] accountProfile ∧
      ∃ members : Json.Object,
        accountTypes.requestValue (.named "Account") "GET" ⟨.empty, [], [("id", "7")]⟩ =
          .ok (.object members) ∧
        members.find? accountProfile.wireName ≠ some .null := by
  obtain ⟨value, last, hvalue, hlast, hnote⟩ := exists_last_chain
  obtain ⟨members, inner, hvalue', hprofile⟩ := exists_profile_of_path
  refine ⟨⟨chain_leadsApart, leads_chains 33, by decide, rfl, rfl, rfl,
      not_addressedIn_nil, value, last, hvalue, hlast, by simp [hnote]⟩,
    account_leadsApart, by decide, rfl, rfl, rfl, not_addressedIn_nil, members, hvalue', ?_⟩
  rw [hprofile]
  simp

end TypeTable
end TypedRoutes
