import TypedRoutes.Proofs.Overlays
import TypedRoutes.Proofs.QueryPairs
import TypedRoutes.Proofs.RequestSoundness

/-!
# The fields that a query reaches

A query is read by the fields of a record that are no records, and by those of the records nested in
it, except where a record stands inside itself or too deep.  `TypeTable.Reaches` names these fields.
What they read is all that a query does: an overlay depends on nothing else, it leaves an object
alone if none of them is addressed, and each that is addressed finds its value in its place.
-/

namespace TypedRoutes

/-- The value under nested keys. -/
def Json.at? : Json → List String → Option Json
  | value, [] => some value
  | value, key :: rest => (value.member? key).bind fun inner => inner.at? rest

/-- The keys under which a field stands, where some record fields are around it, the outermost
first. -/
def placeOf (around : List VisibleField) (f : VisibleField) : List String :=
  (around ++ [f]).map VisibleField.wireName

@[simp] theorem placeOf_nil (f : VisibleField) : placeOf [] f = [f.wireName] := rfl

@[simp] theorem placeOf_cons
    (g : VisibleField) (around : List VisibleField) (f : VisibleField) :
    placeOf (g :: around) f = g.wireName :: placeOf around f := rfl

theorem Json.at?_of_find?
    {members : Json.Object} {key : String} {value : Json} (h : members.find? key = some value)
    (rest : List String) : (Json.object members).at? (key :: rest) = value.at? rest := by
  simp [Json.at?, Json.member?, Json.members, h]

theorem Json.at?_of_missing
    {members : Json.Object} {key : String} (h : members.find? key = none) (rest : List String) :
    (Json.object members).at? (key :: rest) = none := by
  simp [Json.at?, Json.member?, Json.members, h]

theorem Json.exists_of_member?
    {value inner : Json} {key : String} (h : value.member? key = some inner) :
    ∃ members, value = .object members := by
  cases value with
  | object members => exact ⟨members, rfl⟩
  | _ => cases h

/-- An object from what complaints call it. -/
theorem Json.exists_of_kindPhrase
    {value : Json} (h : value.kindPhrase = "an object") : ∃ members, value = .object members := by
  cases value with
  | object members => exact ⟨members, rfl⟩
  | _ => simp [Json.kindPhrase] at h

theorem Json.exists_of_at?
    {value : Json} {keys : List String} {inner : Json.Object}
    (h : value.at? keys = some (.object inner)) : ∃ members, value = .object members := by
  cases keys with
  | nil => exact ⟨inner, Option.some.inj h⟩
  | cons key rest =>
      cases value with
      | object members => exact ⟨members, rfl⟩
      | _ => cases h

/-- An object under nested keys stands in an object under the first of them. -/
theorem Json.exists_of_at?_cons
    {members inner : Json.Object} {key : String} {rest : List String}
    (h : (Json.object members).at? (key :: rest) = some (.object inner)) :
    ∃ nested, members.find? key = some (.object nested) ∧
      (Json.object nested).at? rest = some (.object inner) := by
  obtain ⟨value, hfind, hat⟩ := Option.bind_eq_some_iff.mp h
  obtain ⟨nested, rfl⟩ := Json.exists_of_at? hat
  exact ⟨nested, hfind, hat⟩

namespace TypeTable

/-- The fields of the records that a query enters, each with the record fields around them and the
number of levels that are left. -/
inductive Enters (types : TypeTable) : Nat → List String → List VisibleField →
    List VisibleField → Nat → List VisibleField → Prop
  | here {room : Nat} {path : List String} {fields : List VisibleField} :
      Enters types room path fields [] room fields
  | nested {room : Nat} {path : List String} {fields : List VisibleField} {g : VisibleField}
      {id : String} {r : Record} {around : List VisibleField} {room' : Nat}
      {fields' : List VisibleField} (hg : g ∈ fields)
      (hrecord : types.record? g.type = some (id, r)) (hpath : id ∉ path)
      (h : Enters types room (id :: path) (types.fieldsOf id r) around room' fields') :
      Enters types (room + 1) path fields (g :: around) room' fields'

/-- A field that is no record, in one of the records that a query enters. -/
def Reaches (types : TypeTable) (room : Nat) (path : List String)
    (fields around : List VisibleField) (room' : Nat) (f : VisibleField) : Prop :=
  ∃ fields', types.Enters room path fields around room' fields' ∧ f ∈ fields' ∧
    types.record? f.type = none

/-- A field that is no record and that the query of a request reaches, where the request type is a
record. -/
def IsInput (types : TypeTable) (id : String) (r : Record) (around : List VisibleField)
    (room : Nat) (f : VisibleField) : Prop :=
  types.Reaches maxDepth [id] (types.fieldsOf id r) around room f

/-- In every record that a query enters the names of fields are apart. -/
def EntersApart (types : TypeTable) (room : Nat) (path : List String)
    (fields : List VisibleField) : Prop :=
  ∀ around room' fields', types.Enters room path fields around room' fields' →
    (fields'.map VisibleField.wireName).Nodup

/-- How a query is overlaid on the object of a nested record. -/
def enterQuery (types : TypeTable) : Nat → List String → Query → String → Record → Json.Object →
    Except FieldError (Option Json.Object)
  | 0, _, _ => fun _ _ _ => .ok none
  | room + 1, path, query => fun id r nested =>
    if path.contains id then .ok none
    else do
      let (nested, touched) ←
        types.overlayQuery room (id :: path) query (types.fieldsOf id r) nested
      .ok (if touched then some nested else none)

/-- What a query gives to a field in an object. -/
def fieldValue? (types : TypeTable) (room : Nat) (path : List String) (query : Query)
    (target : Json.Object) (f : VisibleField) : Except FieldError (Option Json) :=
  types.queryValue? room (types.enterQuery room path query) query target f

/-- The object of a nested record that a query is overlaid on: the one that is there, or a zero
object. -/
def nestedObject (types : TypeTable) (room : Nat) (target : Json.Object) (f : VisibleField)
    (id : String) (r : Record) : Json.Object :=
  match target.find? f.wireName with
  | some (.object existing) => existing
  | _ => types.zeroObject room id r

/-- The zero object of a record or an empty object, as the objects nested in it are, too. -/
def IsBlank (types : TypeTable) (room : Nat) (id : String) (r : Record) (x : Json.Object) : Prop :=
  x = types.zeroObject room id r ∨ x = []

variable {types : TypeTable} {room : Nat} {path : List String} {fields : List VisibleField}
  {query : Query} {f : VisibleField} {id : String} {r : Record}

/-! ## Records that are entered -/

theorem EntersApart.nodup
    (h : types.EntersApart room path fields) : (fields.map VisibleField.wireName).Nodup :=
  h [] room fields .here

theorem EntersApart.nested
    (h : types.EntersApart (room + 1) path fields) (hf : f ∈ fields)
    (hrecord : types.record? f.type = some (id, r)) (hpath : id ∉ path) :
    types.EntersApart room (id :: path) (types.fieldsOf id r) := by
  intro around room' fields' hentered
  exact h (f :: around) room' fields' (.nested hf hrecord hpath hentered)

theorem Enters.length_add
    {around : List VisibleField} {room' : Nat} {fields' : List VisibleField}
    (h : types.Enters room path fields around room' fields') : room = around.length + room' := by
  induction h with
  | here => simp
  | nested hg hrecord hpath h ih =>
      rw [List.length_cons]
      omega

/-- A query that starts with more levels enters the same records, as far as it has enough. -/
theorem Enters.of_length_le
    {around : List VisibleField} {room' : Nat} {fields' : List VisibleField}
    (h : types.Enters room path fields around room' fields') {limit : Nat}
    (hlimit : around.length ≤ limit) :
    types.Enters limit path fields around (limit - around.length) fields' := by
  induction h generalizing limit with
  | here => exact .here
  | nested hg hrecord hpath h ih =>
      rw [List.length_cons] at hlimit ⊢
      obtain ⟨limit, rfl⟩ : ∃ n, limit = n + 1 := ⟨limit - 1, by omega⟩
      rw [Nat.add_sub_add_right]
      exact .nested hg hrecord hpath (ih (by omega))

theorem Reaches.nested
    {around : List VisibleField} {room' : Nat} {g : VisibleField} (hf : f ∈ fields)
    (hrecord : types.record? f.type = some (id, r)) (hpath : id ∉ path)
    (h : types.Reaches room (id :: path) (types.fieldsOf id r) around room' g) :
    types.Reaches (room + 1) path fields (f :: around) room' g := by
  obtain ⟨fields', hentered, hg, hleaf⟩ := h
  exact ⟨fields', .nested hf hrecord hpath hentered, hg, hleaf⟩

theorem Reaches.of_mem
    {around : List VisibleField} {room' : Nat} {g : VisibleField} (hf : f ∈ fields)
    (h : types.Reaches room path [f] around room' g) :
    types.Reaches room path fields around room' g := by
  obtain ⟨fields', hentered, hg, hleaf⟩ := h
  cases hentered with
  | here =>
      obtain rfl := List.mem_singleton.mp hg
      exact ⟨fields, .here, hf, hleaf⟩
  | nested hg' hrecord hpath hentered =>
      obtain rfl := List.mem_singleton.mp hg'
      exact ⟨fields', .nested hf hrecord hpath hentered, hg, hleaf⟩

theorem IsInput.record?_eq_none
    {around : List VisibleField} (h : types.IsInput id r around room f) :
    types.record? f.type = none := by
  obtain ⟨fields', -, -, hleaf⟩ := h
  exact hleaf

/-- The fields of all records that a query enters. -/
def enteredFields (types : TypeTable) : Nat → List String → List VisibleField →
    List (List VisibleField)
  | 0, _, fields => [fields]
  | room + 1, path, fields =>
    fields :: fields.flatMap fun f =>
      match types.record? f.type with
      | some (id, r) =>
        if id ∈ path then [] else enteredFields types room (id :: path) (types.fieldsOf id r)
      | none => []

theorem Enters.mem_enteredFields
    {around : List VisibleField} {room' : Nat} {fields' : List VisibleField}
    (h : types.Enters room path fields around room' fields') :
    fields' ∈ types.enteredFields room path fields := by
  induction h with
  | @here room path fields => cases room <;> simp [enteredFields]
  | nested hg hrecord hpath _ ih =>
      rw [enteredFields]
      refine List.mem_cons_of_mem _ (List.mem_flatMap.mpr ⟨_, hg, ?_⟩)
      simpa [hrecord, hpath] using ih

/-! ## What a query gives to a field -/

theorem record?_unique
    {t : Ty} {id' : String} {r' : Record} (h : types.record? t = some (id, r))
    (h' : types.record? t = some (id', r')) : id = id' ∧ r = r' :=
  Prod.mk.inj (Option.some.inj (h.symm.trans h'))

theorem shape_ne_record
    {t : Ty} (h : types.record? t = none) (id : String) (r : Record) :
    types.shape t.target ≠ .record id r := by
  intro hshape
  rw [record?, hshape] at h
  cases h

theorem fieldValue?_of_leaf
    (hleaf : types.record? f.type = none) (target : Json.Object) :
    types.fieldValue? room path query target f = types.leafValue? room query f :=
  queryValue?_of_leaf (shape_ne_record hleaf) _ target

/-- A record at the lowest level is not entered, nor one that stands inside itself. -/
theorem fieldValue?_of_closed
    (hrecord : types.record? f.type = some (id, r)) (hclosed : room = 0 ∨ id ∈ path)
    (target : Json.Object) : types.fieldValue? room path query target f = .ok none := by
  have hshape : types.shape f.target = .record id r := shape_of_record? hrecord
  have henter : ∀ nested, types.enterQuery room path query id r nested = .ok none := by
    intro nested
    cases room with
    | zero => rfl
    | succ room =>
        have hpath : id ∈ path := by simpa using hclosed
        simp [enterQuery, hpath]
  simp only [fieldValue?, queryValue?, hshape, henter]
  rfl

theorem fieldValue?_of_entered
    (hrecord : types.record? f.type = some (id, r)) (hpath : id ∉ path) (target : Json.Object) :
    types.fieldValue? (room + 1) path query target f =
      (types.overlayQuery room (id :: path) query (types.fieldsOf id r)
        (types.nestedObject room target f id r)).map fun result =>
          if result.2 then some (.object result.1) else none := by
  have hshape : types.shape f.target = .record id r := shape_of_record? hrecord
  simp only [fieldValue?, queryValue?, hshape, enterQuery, List.contains_iff_mem, hpath, if_false,
    nestedObject, Nat.add_sub_cancel]
  generalize types.overlayQuery room (id :: path) query (types.fieldsOf id r) _ = overlaid
  rcases overlaid with e | ⟨nested, touched⟩
  · rfl
  · cases touched <;> rfl

theorem fieldValue?_local
    {x y : Json.Object} (h : x.find? f.wireName = y.find? f.wireName) :
    types.fieldValue? room path query x f = types.fieldValue? room path query y f := by
  simp only [fieldValue?, queryValue?, h]

/-- A field is given a value either because it is addressed itself or because a field of its record
is. -/
theorem fieldValue?_eq_some
    {target : Json.Object} {value : Json}
    (h : types.fieldValue? room path query target f = .ok (some value)) :
    (types.record? f.type = none ∧ types.leafValue? room query f = .ok (some value)) ∨
      ∃ room' id r nested, room = room' + 1 ∧ types.record? f.type = some (id, r) ∧ id ∉ path ∧
        types.overlayQuery room' (id :: path) query (types.fieldsOf id r)
          (types.nestedObject room' target f id r) = .ok (nested, true) ∧
        .object nested = value := by
  cases hrecord : types.record? f.type with
  | none =>
      rw [fieldValue?_of_leaf hrecord] at h
      exact .inl ⟨rfl, h⟩
  | some idRecord =>
      obtain ⟨id, r⟩ := idRecord
      by_cases hclosed : room = 0 ∨ id ∈ path
      · rw [fieldValue?_of_closed hrecord hclosed] at h
        cases h
      · obtain ⟨hroom, hpath⟩ := not_or.mp hclosed
        obtain ⟨room, rfl⟩ := Nat.exists_eq_succ_of_ne_zero hroom
        rw [fieldValue?_of_entered hrecord hpath] at h
        obtain ⟨⟨nested, touched⟩, hnested, hvalue⟩ := Results.map_eq_ok_iff.mp h
        cases touched with
        | false => cases hvalue
        | true => exact .inr ⟨room, id, r, nested, rfl, rfl, hpath, hnested, Option.some.inj hvalue⟩

/-! ## Overlays as runs over the fields -/

theorem exists_assembles_of_foldlM
    {value? : Json.Object → VisibleField → Except FieldError (Option Json)} {a b : Assembly}
    {touched touched' : Bool}
    (h : fields.foldlM (fun (a, touched) f => do
      match ← value? a.target f with
      | some value => .ok (a.put f value, true)
      | none => .ok (a, touched)) (a, touched) = (.ok (b, touched') : Except FieldError _)) :
    ∃ given, Assembles value? fields a b given ∧ touched' = (touched || given) := by
  induction fields generalizing a touched with
  | nil =>
      obtain ⟨rfl, rfl⟩ := Prod.mk.inj (Except.ok.inj h)
      exact ⟨false, .nil, by simp⟩
  | cons f rest ih =>
      rw [List.foldlM_cons] at h
      obtain ⟨⟨next, touched''⟩, hnext, hrest⟩ := Results.bind_eq_ok_iff.mp h
      obtain ⟨value, hvalue, hnext⟩ := Results.bind_eq_ok_iff.mp hnext
      cases value with
      | none =>
          obtain ⟨rfl, rfl⟩ := Prod.mk.inj (Except.ok.inj hnext)
          obtain ⟨given, hgiven, rfl⟩ := ih hrest
          exact ⟨_, .cons hvalue hgiven, by simp⟩
      | some value =>
          obtain ⟨rfl, rfl⟩ := Prod.mk.inj (Except.ok.inj hnext)
          obtain ⟨given, hgiven, rfl⟩ := ih hrest
          exact ⟨_, .cons hvalue hgiven, by simp⟩

theorem overlayQuery_eq
    (start : Json.Object) : types.overlayQuery room path query fields start =
      types.overlayFields room (types.enterQuery room path query) query fields start := by
  cases room <;> rfl

/-- A query goes through the fields of a record and completes the groups. -/
theorem exists_assembles_of_overlayQuery
    {start result : Json.Object} {touched : Bool}
    (h : types.overlayQuery room path query fields start = .ok (result, touched)) :
    ∃ a, Assembles (types.fieldValue? room path query) fields ⟨start, []⟩ a touched ∧
      result = types.completeGroups room fields a.groups a.target := by
  rw [overlayQuery_eq] at h
  obtain ⟨⟨a, touched'⟩, hfold, hresult⟩ := Results.bind_eq_ok_iff.mp h
  obtain ⟨rfl, rfl⟩ := Prod.mk.inj (Except.ok.inj hresult)
  obtain ⟨given, hassembles, rfl⟩ := exists_assembles_of_foldlM hfold
  exact ⟨a, hassembles, rfl⟩

/-- Where names are apart a query overlays an object field by field. -/
theorem exists_overlaid_of_overlayQuery
    (hnodup : (fields.map VisibleField.wireName).Nodup) {start result : Json.Object}
    {touched : Bool}
    (h : types.overlayQuery room path query fields start = .ok (result, touched)) :
    ∃ given : VisibleField → Option Json,
      (∀ f ∈ fields, types.fieldValue? room path query start f = .ok (given f)) ∧
      (touched = true ↔ ∃ f ∈ fields, (given f).isSome) ∧
      types.Overlaid room fields given start result := by
  obtain ⟨a, ha, rfl⟩ := exists_assembles_of_overlayQuery h
  exact exists_overlaid ha hnodup fun f _ x y hxy => fieldValue?_local hxy

/-! ## Only the reached fields matter -/

/-- Overlays that give every field the same have the same outcome. -/
theorem overlayQuery_congr_of_fields
    {query' : Query} (h : ∀ f ∈ fields, ∀ x, types.fieldValue? room path query x f =
      types.fieldValue? room path query' x f) (start : Json.Object) :
    types.overlayQuery room path query fields start =
      types.overlayQuery room path query' fields start := by
  rw [overlayQuery_eq, overlayQuery_eq, overlayFields, overlayFields]
  congr 1
  apply Results.foldlM_congr
  rintro ⟨a, touched⟩ f hf
  have hvalue : types.queryValue? room (types.enterQuery room path query) query a.target f =
      types.queryValue? room (types.enterQuery room path query') query' a.target f :=
    h f hf a.target
  simp only [hvalue]

/-- What a query gives to a field depends on what the fields that it reaches there read. -/
theorem fieldValue?_congr
    {query' : Query} (h : ∀ around room' g, types.Reaches room path [f] around room' g →
      types.leafValue? room' query g = types.leafValue? room' query' g) (target : Json.Object) :
    types.fieldValue? room path query target f = types.fieldValue? room path query' target f := by
  induction room generalizing path f target with
  | zero =>
      cases hrecord : types.record? f.type with
      | none =>
          rw [fieldValue?_of_leaf hrecord, fieldValue?_of_leaf hrecord]
          exact h [] 0 f ⟨[f], .here, by simp, hrecord⟩
      | some idRecord =>
          rw [fieldValue?_of_closed hrecord (.inl rfl), fieldValue?_of_closed hrecord (.inl rfl)]
  | succ room ih =>
      cases hrecord : types.record? f.type with
      | none =>
          rw [fieldValue?_of_leaf hrecord, fieldValue?_of_leaf hrecord]
          exact h [] (room + 1) f ⟨[f], .here, by simp, hrecord⟩
      | some idRecord =>
          obtain ⟨id, r⟩ := idRecord
          by_cases hpath : id ∈ path
          · rw [fieldValue?_of_closed hrecord (.inr hpath),
              fieldValue?_of_closed hrecord (.inr hpath)]
          · rw [fieldValue?_of_entered hrecord hpath, fieldValue?_of_entered hrecord hpath]
            congr 1
            apply overlayQuery_congr_of_fields
            intro g hg x
            refine ih ?_ x
            intro around room' leaf hreaches
            exact h _ _ _ (.nested (by simp) hrecord hpath (hreaches.of_mem hg))

/-- An overlay depends on nothing but what the fields that it reaches read. -/
theorem overlayQuery_congr
    {query' : Query} (h : ∀ around room' g, types.Reaches room path fields around room' g →
      types.leafValue? room' query g = types.leafValue? room' query' g) (start : Json.Object) :
    types.overlayQuery room path query fields start =
      types.overlayQuery room path query' fields start := by
  apply overlayQuery_congr_of_fields
  intro f hf x
  exact fieldValue?_congr (fun _ _ _ hreaches => h _ _ _ (hreaches.of_mem hf)) x

theorem overlayQuery_of_fields
    {start : Json.Object}
    (h : ∀ f ∈ fields, types.fieldValue? room path query start f = .ok none) :
    types.overlayQuery room path query fields start = .ok (start, false) := by
  rw [overlayQuery_eq, overlayFields, Results.foldlM_eq_of_fixed]
  · show Except.ok (types.completeGroups room fields [] start, false) = .ok (start, false)
    rw [completeGroups_nil]
  · intro f hf
    have hvalue : types.queryValue? room (types.enterQuery room path query) query start f =
        .ok none := h f hf
    simp only [hvalue]
    rfl

/-- A query that none of the reached fields reads leaves every object as it is. -/
theorem overlayQuery_of_unread
    (h : ∀ around room' g, types.Reaches room path fields around room' g →
      types.leafValue? room' query g = .ok none) (start : Json.Object) :
    types.overlayQuery room path query fields start = .ok (start, false) := by
  induction room generalizing path fields start with
  | zero =>
      apply overlayQuery_of_fields
      intro f hf
      cases hrecord : types.record? f.type with
      | none =>
          rw [fieldValue?_of_leaf hrecord]
          exact h [] 0 f ⟨fields, .here, hf, hrecord⟩
      | some idRecord => exact fieldValue?_of_closed hrecord (.inl rfl) start
  | succ room ih =>
      apply overlayQuery_of_fields
      intro f hf
      cases hrecord : types.record? f.type with
      | none =>
          rw [fieldValue?_of_leaf hrecord]
          exact h [] (room + 1) f ⟨fields, .here, hf, hrecord⟩
      | some idRecord =>
          obtain ⟨id, r⟩ := idRecord
          by_cases hpath : id ∈ path
          · exact fieldValue?_of_closed hrecord (.inr hpath) start
          · rw [fieldValue?_of_entered hrecord hpath, ih]
            · rfl
            · intro around room' g hreaches
              exact h _ _ _ (hreaches.nested hf hrecord hpath)

/-- A path without variables changes nothing. -/
theorem afterPath_nil
    (id : String) (fields : List VisibleField) (start : Json.Object) :
    types.afterPath [] id fields start = .ok start := by
  refine afterPath_eq_ok_iff.mpr ⟨false, overlayQuery_of_unread ?_ start⟩
  intro around room g _
  exact leafValue?_eq_none_iff.mpr (by simp)

/-! ## Fields that are addressed -/

/-- If an overlay succeeds then all fields that it reaches are read. -/
theorem exists_leafValue?_of_overlayQuery
    {start result : Json.Object} {touched : Bool}
    (h : types.overlayQuery room path query fields start = .ok (result, touched))
    {around : List VisibleField} {room' : Nat} {leaf : VisibleField}
    (hreaches : types.Reaches room path fields around room' leaf) :
    ∃ given, types.leafValue? room' query leaf = .ok given := by
  obtain ⟨fields', hentered, hleaf, hrecord⟩ := hreaches
  induction hentered generalizing start result touched with
  | here =>
      obtain ⟨a, ha, -⟩ := exists_assembles_of_overlayQuery h
      obtain ⟨x, given, hgiven⟩ := ha.exists_of_mem hleaf
      rw [fieldValue?_of_leaf hrecord] at hgiven
      exact ⟨given, hgiven⟩
  | nested hg hrecord' hpath _ ih =>
      obtain ⟨a, ha, -⟩ := exists_assembles_of_overlayQuery h
      obtain ⟨x, given, hgiven⟩ := ha.exists_of_mem hg
      rw [fieldValue?_of_entered hrecord' hpath] at hgiven
      obtain ⟨⟨nested, touched'⟩, hnested, -⟩ := Results.map_eq_ok_iff.mp hgiven
      exact ih hnested hleaf

/-- A query that gives nothing to any field leaves the object as it is, and none of the fields that
it reaches is addressed. -/
theorem overlayQuery_untouched
    {start result : Json.Object}
    (h : types.overlayQuery room path query fields start = .ok (result, false)) :
    result = start ∧ ∀ around room' leaf, types.Reaches room path fields around room' leaf →
      types.leafValue? room' query leaf = .ok none := by
  constructor
  · obtain ⟨a, ha, rfl⟩ := exists_assembles_of_overlayQuery h
    rw [ha.eq_of_untouched.1, completeGroups_nil]
  · rintro around room' leaf ⟨fields', hentered, hleaf, hrecord⟩
    induction hentered generalizing start result with
    | here =>
        obtain ⟨a, ha, -⟩ := exists_assembles_of_overlayQuery h
        rw [← ha.eq_of_untouched.2 leaf hleaf, fieldValue?_of_leaf hrecord]
    | nested hg hrecord' hpath _ ih =>
        obtain ⟨a, ha, -⟩ := exists_assembles_of_overlayQuery h
        have hgiven := ha.eq_of_untouched.2 _ hg
        rw [fieldValue?_of_entered hrecord' hpath] at hgiven
        obtain ⟨⟨nested, touched⟩, hnested, htouched⟩ := Results.map_eq_ok_iff.mp hgiven
        cases touched with
        | true => cases htouched
        | false => exact ih hnested hleaf

/-- A query that gives something to a field leaves in some place what the field there read. -/
theorem exists_at?_of_overlayQuery
    {start result : Json.Object}
    (h : types.overlayQuery room path query fields start = .ok (result, true)) :
    ∃ around room' leaf value, types.Reaches room path fields around room' leaf ∧
      types.leafValue? room' query leaf = .ok (some value) ∧
      (Json.object result).at? (placeOf around leaf) = some value := by
  induction room generalizing path fields start result with
  | zero =>
      obtain ⟨a, ha, rfl⟩ := exists_assembles_of_overlayQuery h
      obtain ⟨f, hf, x, value, hvalue, hfind⟩ := ha.exists_last
      rcases fieldValue?_eq_some hvalue with ⟨hleaf, hread⟩ | ⟨room, _, _, _, hroom, -⟩
      · refine ⟨[], 0, f, value, ⟨fields, .here, hf, hleaf⟩, hread, ?_⟩
        exact Json.at?_of_find? (find?_completeGroups_of_some hfind) []
      · cases hroom
  | succ room ih =>
      obtain ⟨a, ha, rfl⟩ := exists_assembles_of_overlayQuery h
      obtain ⟨f, hf, x, value, hvalue, hfind⟩ := ha.exists_last
      have hfound : (types.completeGroups (room + 1) fields a.groups a.target).find? f.wireName =
          some value := find?_completeGroups_of_some hfind
      rcases fieldValue?_eq_some hvalue with
        ⟨hleaf, hread⟩ | ⟨room', id, r, nested, hroom, hrecord, hpath, hnested, rfl⟩
      · refine ⟨[], room + 1, f, value, ⟨fields, .here, hf, hleaf⟩, hread, ?_⟩
        exact Json.at?_of_find? hfound []
      · obtain rfl : room = room' := by omega
        obtain ⟨around, room', leaf, value, hreaches, hread, hat⟩ := ih hnested
        refine ⟨f :: around, room', leaf, value, hreaches.nested hf hrecord hpath, hread, ?_⟩
        rw [placeOf_cons, Json.at?_of_find? hfound, hat]

/-- Where names are apart, every field that is addressed finds in its place what it read. -/
theorem at?_of_overlayQuery
    (hapart : types.EntersApart room path fields) {start result : Json.Object} {touched : Bool}
    (h : types.overlayQuery room path query fields start = .ok (result, touched))
    {around : List VisibleField} {room' : Nat} {leaf : VisibleField}
    (hreaches : types.Reaches room path fields around room' leaf) {value : Json}
    (hvalue : types.leafValue? room' query leaf = .ok (some value)) :
    (Json.object result).at? (placeOf around leaf) = some value := by
  obtain ⟨fields', hentered, hleaf, hrecord⟩ := hreaches
  induction hentered generalizing start result touched with
  | here =>
      obtain ⟨given, hgiven, -, hoverlaid⟩ := exists_overlaid_of_overlayQuery hapart.nodup h
      have hleaf' := hgiven leaf hleaf
      rw [fieldValue?_of_leaf hrecord, hvalue] at hleaf'
      apply Json.at?_of_find?
      rw [hoverlaid.field leaf hleaf, ← Except.ok.inj hleaf']
      rfl
  | @nested room path fields g id r around room' fields' hg hrecord' hpath hentered ih =>
      obtain ⟨given, hgiven, -, hoverlaid⟩ := exists_overlaid_of_overlayQuery hapart.nodup h
      have hg' := hgiven g hg
      rw [fieldValue?_of_entered hrecord' hpath] at hg'
      obtain ⟨⟨nested, touched'⟩, hnested, hsome⟩ := Results.map_eq_ok_iff.mp hg'
      cases touched' with
      | false =>
          have hnone := (overlayQuery_untouched hnested).2 _ _ _ ⟨_, hentered, hleaf, hrecord⟩
          rw [hvalue] at hnone
          cases hnone
      | true =>
          have hfind : result.find? g.wireName = some (.object nested) := by
            rw [hoverlaid.field g hg, ← hsome]
            rfl
          rw [placeOf_cons, Json.at?_of_find? hfind]
          exact ih (hapart.nested hg hrecord' hpath) hnested hvalue hleaf

/-! ## Nested objects -/

theorem zeroAt_of_record
    (hrecord : types.record? f.type = some (id, r)) :
    types.zeroAt (room + 1) f.type =
      if f.type.isOption then .null else .object (types.zeroObject room id r) := by
  have hshape := shape_of_record? hrecord
  cases hoption : f.type.isOption with
  | true =>
      obtain ⟨inner, ht⟩ : ∃ inner, f.type = .option inner := by
        cases ht : f.type with
        | option inner => exact ⟨inner, rfl⟩
        | _ => simp [ht, Ty.isOption] at hoption
      simp [zeroAt, ht, shape]
  | false =>
      rw [target_eq_of_isOption hoption] at hshape
      simp [zeroAt, hshape, zeroObject]

/-- The members of an object, or else those given. -/
def membersOr (start : Json.Object) : Json → Json.Object
  | .object members => members
  | _ => start

/-- Where the object of a nested record is missing, it counts as that of the zero value. -/
theorem nestedObject_congr
    (hrecord : types.record? f.type = some (id, r)) {x y : Json.Object}
    (h : (x.find? f.wireName).getD (types.zeroAt (room + 1) f.type) =
      (y.find? f.wireName).getD (types.zeroAt (room + 1) f.type)) :
    types.nestedObject room x f id r = types.nestedObject room y f id r := by
  have hnested : ∀ z : Json.Object, types.nestedObject room z f id r =
      membersOr (types.zeroObject room id r)
        ((z.find? f.wireName).getD (types.zeroAt (room + 1) f.type)) := by
    intro z
    rw [nestedObject]
    cases hz : z.find? f.wireName with
    | some value => cases value <;> rfl
    | none =>
        rw [Option.getD_none, zeroAt_of_record hrecord]
        cases f.type.isOption <;> rfl
  rw [hnested, hnested, h]

theorem IsBlank.sorted {x : Json.Object} (h : types.IsBlank room id r x) : x.Sorted := by
  rcases h with rfl | rfl
  · exact sorted_zeroObject room id r
  · exact List.Pairwise.nil

theorem IsBlank.nestedObject
    {x : Json.Object} (h : types.IsBlank (room + 1) id r x)
    (hnodup : ((types.fieldsOf id r).map VisibleField.wireName).Nodup)
    (hf : f ∈ types.fieldsOf id r) {id' : String} {r' : Record}
    (hrecord : types.record? f.type = some (id', r')) :
    types.IsBlank room id' r' (types.nestedObject room x f id' r') := by
  have hmember : x.find? f.wireName = none ∨ x.find? f.wireName = some Json.empty ∨
      x.find? f.wireName = some (types.zeroAt (room + 1) f.type) := by
    rcases h with rfl | rfl
    · rw [find?_zeroObject hnodup hf]
      split
      · cases r.markerField? with
        | none => exact .inl rfl
        | some m =>
            rw [markerOnly, Members.find?, List.lookup_cons]
            split
            · exact .inr (.inl rfl)
            · exact .inl rfl
      · exact .inr (.inr rfl)
    · exact .inl rfl
  rw [TypeTable.nestedObject]
  rcases hmember with hmissing | hempty | hzero
  · rw [hmissing]
    exact .inl rfl
  · rw [hempty]
    exact .inr rfl
  · rw [hzero, zeroAt_of_record hrecord]
    cases f.type.isOption with
    | true => exact .inl rfl
    | false => exact .inl rfl

theorem Overlaid.getD
    {given : VisibleField → Option Json} {start result : Json.Object}
    (h : types.Overlaid room fields given start result) (hf : f ∈ fields) :
    (result.find? f.wireName).getD (types.zeroAt room f.type) =
      (given f).getD ((start.find? f.wireName).getD (types.zeroAt room f.type)) := by
  rw [h.field f hf]
  cases given f with
  | some value => rfl
  | none =>
      cases start.find? f.wireName with
      | some value => rfl
      | none =>
          split <;> rfl

/-- The object of a nested record that is entered is overlaid as well. -/
theorem exists_overlayQuery_nestedObject
    (hnodup : (fields.map VisibleField.wireName).Nodup) {start result : Json.Object}
    {touched : Bool}
    (h : types.overlayQuery (room + 1) path query fields start = .ok (result, touched))
    (hf : f ∈ fields) (hrecord : types.record? f.type = some (id, r)) (hpath : id ∉ path) :
    ∃ touched', types.overlayQuery room (id :: path) query (types.fieldsOf id r)
        (types.nestedObject room start f id r) =
      .ok (types.nestedObject room result f id r, touched') := by
  obtain ⟨given, hgiven, -, hoverlaid⟩ := exists_overlaid_of_overlayQuery hnodup h
  have hf' := hgiven f hf
  rw [fieldValue?_of_entered hrecord hpath] at hf'
  obtain ⟨⟨nested, touched'⟩, hnested, hsome⟩ := Results.map_eq_ok_iff.mp hf'
  have hfilled := hoverlaid.getD hf
  refine ⟨touched', ?_⟩
  rw [hnested]
  cases touched' with
  | false =>
      rw [← hsome] at hfilled
      rw [nestedObject_congr hrecord hfilled, (overlayQuery_untouched hnested).1]
  | true =>
      have hfind : result.find? f.wireName = some (.object nested) := by
        rw [hoverlaid.field f hf, ← hsome]
        rfl
      rw [nestedObject, hfind]

end TypeTable
end TypedRoutes
