import TypedRoutes.Proofs.DocumentedParameters

/-!
# Failures of a query

A query fails with the first of the fields that it reaches whose texts cannot be converted, in the
order in which the fields are gone through.  Whether a field can be read depends on the texts that
it reads, and the error names the field, or the value or the entry among its texts that is at fault.
So a query is accepted exactly if the pairs of every visited name are accepted by themselves.
-/

namespace TypedRoutes

/-! ## Paths -/

/-- A path, or one that continues it with names, indices and keys. -/
inductive Below (place : String) : String → Prop
  | here : Below place place
  | member {path : String} (name : String) (h : Below place path) :
      Below place (memberPath path name)
  | indexed {path : String} (key : String) (h : Below place path) :
      Below place (indexed path key)

namespace Below

variable {place path : String}

theorem trans {other : String} (h : Below place path) (h' : Below path other) :
    Below place other := by
  induction h' with
  | here => exact h
  | member name _ ih => exact .member name ih
  | indexed key _ ih => exact .indexed key ih

theorem of_member {name : String} (h : Below (memberPath place name) path) : Below place path :=
  trans (.member name .here) h

theorem of_indexed {key : String} (h : Below (TypedRoutes.indexed place key) path) :
    Below place path :=
  trans (.indexed key .here) h

end Below

/-- A path belongs to a name in a query: it is the name, or that of one of its values or entries, or
of a part of these. -/
def Query.Blames (query : Query) (name field : String) : Prop :=
  field = name ∨
    (∃ i < (query.all name).length, Below (indexed name (toString i)) field) ∨
      ∃ entry ∈ query.entries name, Below (indexed name entry.1) field

namespace TypeTable

/-! ## The first field that cannot be read -/

/-- The fields that a query reaches, each with the levels that are left there, in the order in which
they are gone through. -/
def inputsIn (types : TypeTable) : Nat → List String → List VisibleField →
    List (Nat × VisibleField)
  | 0, _, fields =>
    fields.flatMap fun f => if (types.record? f.type).isNone then [(0, f)] else []
  | room + 1, path, fields =>
    fields.flatMap fun f =>
      match types.record? f.type with
      | some (id, r) =>
        if id ∈ path then [] else inputsIn types room (id :: path) (types.fieldsOf id r)
      | none => [(room + 1, f)]

/-- Whether a field can be read, and how that fails. -/
def readField (types : TypeTable) (query : Query) (input : Nat × VisibleField) :
    Except FieldError PUnit :=
  (types.leafValue? input.1 query input.2).map fun _ => ()

variable {types : TypeTable} {room : Nat} {path : List String} {fields : List VisibleField}
  {query : Query} {f : VisibleField} {id : String} {r : Record} {t : Ty} {e : FieldError}

theorem mem_inputsIn_iff
    {room' : Nat} {leaf : VisibleField} :
    (room', leaf) ∈ types.inputsIn room path fields ↔
      ∃ around, types.Reaches room path fields around room' leaf := by
  constructor
  · intro h
    induction room generalizing path fields with
    | zero =>
        obtain ⟨f, hf, hinput⟩ := List.mem_flatMap.mp h
        split at hinput
        · rename_i hleaf
          obtain ⟨rfl, rfl⟩ := Prod.mk.inj (List.mem_singleton.mp hinput)
          exact ⟨[], fields, .here, hf, Option.isNone_iff_eq_none.mp hleaf⟩
        · cases hinput
    | succ room ih =>
        obtain ⟨f, hf, hinput⟩ := List.mem_flatMap.mp h
        cases hrecord : types.record? f.type with
        | none =>
            simp only [hrecord] at hinput
            obtain ⟨rfl, rfl⟩ := Prod.mk.inj (List.mem_singleton.mp hinput)
            exact ⟨[], fields, .here, hf, hrecord⟩
        | some idRecord =>
            simp only [hrecord] at hinput
            split at hinput
            · cases hinput
            · rename_i hpath
              obtain ⟨around, hreaches⟩ := ih hinput
              exact ⟨f :: around, hreaches.nested hf hrecord hpath⟩
  · rintro ⟨around, fields', hentered, hf, hleaf⟩
    induction hentered with
    | @here room path fields =>
        cases room with
        | zero => exact List.mem_flatMap.mpr ⟨leaf, hf, by simp [hleaf]⟩
        | succ room => exact List.mem_flatMap.mpr ⟨leaf, hf, by simp [hleaf]⟩
    | nested hg hrecord hpath _ ih =>
        refine List.mem_flatMap.mpr ⟨_, hg, ?_⟩
        simp only [hrecord, if_neg hpath]
        exact ih hf

theorem map_map_unit
    {α β : Type} (x : Except FieldError α) (g : α → β) :
    (x.map g).map (fun _ => ()) = x.map fun _ => () := by
  cases x <;> rfl

/-- An overlay fails as its fields do, if that does not depend on the object. -/
theorem overlayQuery_map_unit_of_fields
    {check : VisibleField → Except FieldError PUnit}
    (h : ∀ f ∈ fields, ∀ x, (types.fieldValue? room path query x f).map (fun _ => ()) = check f)
    (start : Json.Object) :
    (types.overlayQuery room path query fields start).map (fun _ => ()) = fields.forM check := by
  rw [overlayQuery_eq, overlayFields, Results.bind_ok_eq_map, map_map_unit]
  refine Results.foldlM_map_unit (fun state f hf => ?_) _
  obtain ⟨a, touched⟩ := state
  rw [← h f hf a.target, fieldValue?]
  cases hvalue : types.queryValue? room (types.enterQuery room path query) query a.target f with
  | error e =>
      simp only [hvalue]
      rfl
  | ok value =>
      simp only [hvalue]
      cases value <;> rfl

/-- Whatever object a query is overlaid on, that fails as the first field does that cannot be
read. -/
theorem overlayQuery_map_unit
    (start : Json.Object) :
    (types.overlayQuery room path query fields start).map (fun _ => ()) =
      (types.inputsIn room path fields).forM (types.readField query) := by
  have hone : ∀ input, List.forM [input] (types.readField query) = types.readField query input := by
    intro input
    cases h : types.readField query input with
    | error e => simp [List.forM, h, bind, Except.bind]
    | ok _ => simp [List.forM, h, bind, Except.bind, pure, Except.pure]
  induction room generalizing path fields start with
  | zero =>
      rw [inputsIn, Results.forM_flatMap]
      apply overlayQuery_map_unit_of_fields
      intro f hf x
      cases hrecord : types.record? f.type with
      | none =>
          rw [fieldValue?_of_leaf hrecord, if_pos (by rfl), hone]
          rfl
      | some idRecord =>
          rw [fieldValue?_of_closed hrecord (.inl rfl), if_neg (by simp)]
          rfl
  | succ room ih =>
      rw [inputsIn, Results.forM_flatMap]
      apply overlayQuery_map_unit_of_fields
      intro f hf x
      cases hrecord : types.record? f.type with
      | none =>
          rw [fieldValue?_of_leaf hrecord]
          exact (hone (room + 1, f)).symm
      | some idRecord =>
          obtain ⟨id, r⟩ := idRecord
          by_cases hpath : id ∈ path
          · rw [fieldValue?_of_closed hrecord (.inr hpath)]
            simp only [if_pos hpath]
            rfl
          · rw [fieldValue?_of_entered hrecord hpath]
            simp only [if_neg hpath, ← ih (types.nestedObject room x f id r)]
            exact map_map_unit ..

/-! ## Where a conversion fails -/

/-- What fails at the outermost layer of a type: the value itself, or what stands in it. -/
inductive FailStep (types : TypeTable) (room : Nat) (path : String) (t : Ty) (e : FieldError) :
    Prop
  | here (hfield : e.field = path)
  | member {id : String} {r : Record} {f : VisibleField} {raw : Json}
      (ht : types.shape t.target = .record id r)
      (h : types.convertAt room f.type raw (memberPath path f.lookupName) = .error e)
  | item {element : Ty} {value : Json} {i : Nat} (ht : types.shape t.target = .sequence element)
      (h : types.convertAt room element value (indexed path (toString i)) = .error e)
  | entry {keys values u : Ty} {value : Json} {key : String}
      (ht : types.shape t.target = .table keys values)
      (h : types.convertAt room u value (indexed path key) = .error e)

/-- A body that cannot be put into an object has a value that cannot be converted. -/
theorem exists_of_overlayBody_eq_error
    {convert : Ty → Json → String → Except FieldError Json} {body start : Json.Object}
    {place : String} (h : overlayBody convert fields body place start = .error e) :
    ∃ f ∈ fields, ∃ raw, convert f.type raw (memberPath place f.lookupName) = .error e := by
  rw [overlayBody_eq_foldlM] at h
  obtain ⟨a, f, hf, hstep⟩ := Results.exists_of_foldlM_eq_error h
  have hgiven : bodyGiven? convert body place f = .error e := Results.map_eq_error_iff.mp hstep
  cases hraw : bodyValue? body f with
  | none =>
      rw [bodyGiven?_of_eq_none hraw] at hgiven
      cases hgiven
  | some raw =>
      rw [bodyGiven?_of_eq_some hraw] at hgiven
      exact ⟨f, hf, raw, Results.map_eq_error_iff.mp hgiven⟩

theorem failStep_of_convertAt_null
    {place : String} (h : types.convertAt (room + 1) t .null place = .error e) :
    FailStep types room place t e := by
  rw [convertAt] at h
  cases hoption : t.isOption with
  | true => simp [hoption] at h
  | false =>
      simp only [hoption, Bool.false_and, Bool.false_eq_true, if_false] at h
      cases hshape : types.shape t.target with
      | any | marker | record | table =>
          simp only [hshape] at h
          cases h
      | sequence element =>
          simp only [hshape, Json.itemsOf?] at h
          cases h
      | bool | int | float | text | char | time | option =>
          simp only [hshape] at h
          split at h
          · cases h
          · obtain rfl := Except.error.inj h
            exact .here rfl

theorem failStep_of_convertAt
    {place : String} {value : Json} (h : types.convertAt (room + 1) t value place = .error e) :
    FailStep types room place t e := by
  by_cases hnull : value = .null
  · subst hnull
    exact failStep_of_convertAt_null h
  · rw [convertAt.eq_3 _ _ _ _ _ hnull] at h
    simp only [Bool.and_false, Bool.false_eq_true, if_false] at h
    cases hshape : types.shape t.target with
    | any | marker =>
        simp only [hshape] at h
        cases h
    | record id r =>
        simp only [hshape] at h
        cases hbody : value.objectOf? with
        | none =>
            simp only [hbody] at h
            obtain rfl := Except.error.inj h
            exact .here rfl
        | some body =>
            simp only [hbody] at h
            rcases Results.bind_eq_error_iff.mp h with h | ⟨_, -, h⟩
            · obtain ⟨f, -, raw, hfailed⟩ := exists_of_overlayBody_eq_error h
              exact .member hshape hfailed
            · cases h
    | sequence element =>
        simp only [hshape] at h
        cases hitems : value.itemsOf? with
        | none =>
            simp only [hitems] at h
            obtain rfl := Except.error.inj h
            exact .here rfl
        | some items =>
            simp only [hitems] at h
            rcases Results.bind_eq_error_iff.mp h with h | ⟨_, -, h⟩
            · obtain ⟨⟨item, i⟩, -, hfailed⟩ := Results.exists_of_mapM_eq_error h
              exact .item hshape hfailed
            · cases h
    | table keys values =>
        simp only [hshape] at h
        cases hmembers : value.objectOf? with
        | none =>
            simp only [hmembers] at h
            obtain rfl := Except.error.inj h
            exact .here rfl
        | some members =>
            simp only [hmembers] at h
            rcases Results.bind_eq_error_iff.mp h with h | ⟨_, -, h⟩
            · obtain ⟨⟨key, item⟩, -, hfailed⟩ := Results.exists_of_mapM_eq_error h
              rcases Results.bind_eq_error_iff.mp hfailed with hkey | ⟨_, -, hfailed⟩
              · exact .entry hshape hkey
              · rcases Results.bind_eq_error_iff.mp hfailed with hitem | ⟨_, -, hfailed⟩
                · exact .entry hshape hitem
                · cases hfailed
            · cases h
    | bool | int | float | text | char | time | option =>
        simp only [hshape] at h
        split at h
        · cases h
        · obtain rfl := Except.error.inj h
          exact .here rfl

/-- A conversion fails at the path that it was given, or below it. -/
theorem below_of_convertAt
    {place : String} {value : Json} (h : types.convertAt room t value place = .error e) :
    Below place e.field := by
  induction room generalizing t value place with
  | zero =>
      obtain rfl := Except.error.inj h
      exact .here
  | succ room ih =>
      cases failStep_of_convertAt h with
      | here hfield =>
          rw [hfield]
          exact .here
      | member ht hfailed => exact (ih hfailed).of_member
      | item ht hfailed => exact (ih hfailed).of_indexed
      | entry ht hfailed => exact (ih hfailed).of_indexed

/-! ## The texts that a field reads -/

/-- The shape of a type without components. -/
def IsWhole (types : TypeTable) (t : Ty) : Prop :=
  (∀ id r, types.shape t.target ≠ .record id r) ∧
    (∀ element, types.shape t.target ≠ .sequence element) ∧
      ∀ keys values, types.shape t.target ≠ .table keys values

/-- A field reads a text of a query at some path, and converts it to a type. -/
inductive Consumes (types : TypeTable) (query : Query) (f : VisibleField) :
    String → Ty → String → Prop
  | whole {text : String} (hwhole : types.IsWhole f.type)
      (h : query.last? f.lookupName = some text) :
      Consumes types query f f.lookupName f.type text
  | item {element : Ty} {i : Nat} {text : String} (ht : types.shape f.target = .sequence element)
      (h : (query.all f.lookupName)[i]? = some text) :
      Consumes types query f (indexed f.lookupName (toString i)) element text
  | key {keys values : Ty} {entry : String × String}
      (ht : types.shape f.target = .table keys values) (h : entry ∈ query.entries f.lookupName) :
      Consumes types query f (indexed f.lookupName entry.1) keys entry.1
  | value {keys values : Ty} {entry : String × String}
      (ht : types.shape f.target = .table keys values) (h : entry ∈ query.entries f.lookupName) :
      Consumes types query f (indexed f.lookupName entry.1) values entry.2

/-- How a pair of a query is converted for a table. -/
def convertPair (types : TypeTable) (room : Nat) (keys values : Ty) (place : String)
    (entry : String × String) : Except FieldError (String × Json) := do
  let _ ← types.convertAt room keys (.string entry.1) (indexed place entry.1)
  let value ← types.convertAt room values (.string entry.2) (indexed place entry.1)
  .ok (entry.1, value)

theorem leafValue?_eq_of_sequence
    {element : Ty} (ht : types.shape f.target = .sequence element) :
    types.leafValue? room query f =
      ((query.all f.lookupName).zipIdx.mapM fun entry =>
        types.convertAt (room + 1) element (.string entry.1)
          (indexed f.lookupName (toString entry.2))).map fun items =>
            if query.all f.lookupName = [] then none else some (.array items) := by
  simp only [leafValue?, queryValue?, ht]
  cases query.all f.lookupName with
  | nil => rfl
  | cons first rest =>
      simp only [reduceCtorEq, if_false]
      exact Results.bind_ok_eq_map ..

theorem leafValue?_eq_of_table
    {keys values : Ty} (ht : types.shape f.target = .table keys values) :
    types.leafValue? room query f =
      ((query.entries f.lookupName).mapM
        (types.convertPair (room + 1) keys values f.lookupName)).map fun members =>
          if query.entries f.lookupName = [] then none
          else some (.object (Members.ofList members)) := by
  simp only [leafValue?, queryValue?, ht]
  cases query.entries f.lookupName with
  | nil => rfl
  | cons first rest =>
      simp only [reduceCtorEq, if_false]
      exact Results.bind_ok_eq_map ..

/-- A field is a record, a list, a table, or has a type without components. -/
theorem isWhole_or
    (types : TypeTable) (f : VisibleField) :
    (∃ id r, types.shape f.target = .record id r) ∨
      (∃ element, types.shape f.target = .sequence element) ∨
        (∃ keys values, types.shape f.target = .table keys values) ∨ types.IsWhole f.type := by
  cases h : types.shape f.target with
  | record id r => exact .inl ⟨id, r, rfl⟩
  | sequence element => exact .inr (.inl ⟨element, rfl⟩)
  | table keys values => exact .inr (.inr (.inl ⟨keys, values, rfl⟩))
  | _ =>
      rw [VisibleField.target] at h
      exact .inr (.inr (.inr (by simp [IsWhole, h])))

/-- The text can be converted to the type, wherever it occurs. -/
def AcceptsText (types : TypeTable) (room : Nat) (t : Ty) (text : String) : Prop :=
  ∀ place, ∃ value, types.convertAt room t (.string text) place = .ok value

theorem acceptsText_of_convertAt
    {text place : String} {value : Json}
    (h : types.convertAt room t (.string text) place = .ok value) : types.AcceptsText room t text :=
  fun place' => exists_convertAt_of_le (Nat.le_refl room) h place'

theorem acceptsText_of_table
    {keys values : Ty} (ht : types.shape f.target = .table keys values) {given : Option Json}
    (h : types.leafValue? room query f = .ok given) {entry : String × String}
    (hentry : entry ∈ query.entries f.lookupName) :
    types.AcceptsText (room + 1) keys entry.1 ∧ types.AcceptsText (room + 1) values entry.2 := by
  rw [leafValue?_eq_of_table ht] at h
  obtain ⟨members, hmembers, -⟩ := Results.map_eq_ok_iff.mp h
  obtain ⟨member, hmember⟩ := Results.exists_mapM_eq_ok_iff.mp ⟨members, hmembers⟩ _ hentry
  obtain ⟨key, hkey, hmember⟩ := Results.bind_eq_ok_iff.mp hmember
  obtain ⟨value, hvalue, -⟩ := Results.bind_eq_ok_iff.mp hmember
  exact ⟨acceptsText_of_convertAt hkey, acceptsText_of_convertAt hvalue⟩

/-- A field can be read exactly if every text that it reads can be converted. -/
theorem exists_leafValue?_iff :
    (∃ given, types.leafValue? room query f = .ok given) ↔
      ∀ place t text, types.Consumes query f place t text →
        types.AcceptsText (room + 1) t text := by
  constructor
  · rintro ⟨given, hgiven⟩ place t text hconsumes
    cases hconsumes with
    | whole hwhole hlast =>
        rw [leafValue?_of_single hwhole.1 hwhole.2.1 hwhole.2.2, hlast] at hgiven
        obtain ⟨value, hvalue, -⟩ := Results.map_eq_ok_iff.mp hgiven
        exact acceptsText_of_convertAt hvalue
    | @item element i text ht hall =>
        rw [leafValue?_eq_of_sequence ht] at hgiven
        obtain ⟨items, hitems, -⟩ := Results.map_eq_ok_iff.mp hgiven
        have hmem : (text, i) ∈ (query.all f.lookupName).zipIdx :=
          List.mem_zipIdx_iff_getElem?.mpr hall
        obtain ⟨value, hvalue⟩ := Results.exists_mapM_eq_ok_iff.mp ⟨items, hitems⟩ _ hmem
        exact acceptsText_of_convertAt hvalue
    | key ht hentry => exact (acceptsText_of_table ht hgiven hentry).1
    | value ht hentry => exact (acceptsText_of_table ht hgiven hentry).2
  · intro h
    rcases types.isWhole_or f with ⟨id, r, ht⟩ | ⟨element, ht⟩ | ⟨keys, values, ht⟩ | hwhole
    · exact ⟨none, by simp [leafValue?, queryValue?, ht, bind, Except.bind]⟩
    · have hitems : ∀ entry ∈ (query.all f.lookupName).zipIdx, ∃ value,
          types.convertAt (room + 1) element (.string entry.1)
            (indexed f.lookupName (toString entry.2)) = .ok value := by
        intro entry hentry
        exact h _ _ _ (.item ht (List.mem_zipIdx_iff_getElem?.mp hentry)) _
      obtain ⟨items, hmapM⟩ := Results.exists_mapM_eq_ok_iff.mpr hitems
      rw [leafValue?_eq_of_sequence ht, hmapM]
      exact ⟨_, rfl⟩
    · have hmembers : ∀ entry ∈ query.entries f.lookupName, ∃ member,
          types.convertPair (room + 1) keys values f.lookupName entry = .ok member := by
        intro entry hentry
        obtain ⟨key, hkey⟩ := h _ _ _ (.key ht hentry) (indexed f.lookupName entry.1)
        obtain ⟨value, hvalue⟩ := h _ _ _ (.value ht hentry) (indexed f.lookupName entry.1)
        exact ⟨(entry.1, value), by simp [convertPair, hkey, hvalue, bind, Except.bind]⟩
      obtain ⟨members, hmapM⟩ := Results.exists_mapM_eq_ok_iff.mpr hmembers
      rw [leafValue?_eq_of_table ht, hmapM]
      exact ⟨_, rfl⟩
    · rw [leafValue?_of_single hwhole.1 hwhole.2.1 hwhole.2.2]
      cases hlast : query.last? f.lookupName with
      | none => exact ⟨none, rfl⟩
      | some text =>
          obtain ⟨value, hvalue⟩ := h _ _ _ (.whole hwhole hlast) f.lookupName
          exact ⟨some value, by simp [hvalue, Except.map]⟩

/-- A field that cannot be read has a text that cannot be converted, and the error names it. -/
theorem exists_consumes_of_leafValue?_eq_error
    (h : types.leafValue? room query f = .error e) :
    ∃ place t text, types.Consumes query f place t text ∧
      types.convertAt (room + 1) t (.string text) place = .error e := by
  rcases types.isWhole_or f with ⟨id, r, ht⟩ | ⟨element, ht⟩ | ⟨keys, values, ht⟩ | hwhole
  · simp [leafValue?, queryValue?, ht, bind, Except.bind] at h
  · rw [leafValue?_eq_of_sequence ht, Results.map_eq_error_iff] at h
    obtain ⟨entry, hentry, hfailed⟩ := Results.exists_of_mapM_eq_error h
    exact ⟨_, _, _, .item ht (List.mem_zipIdx_iff_getElem?.mp hentry), hfailed⟩
  · rw [leafValue?_eq_of_table ht, Results.map_eq_error_iff] at h
    obtain ⟨entry, hentry, hfailed⟩ := Results.exists_of_mapM_eq_error h
    rcases Results.bind_eq_error_iff.mp hfailed with hkey | ⟨_, -, hfailed⟩
    · exact ⟨_, _, _, .key ht hentry, hkey⟩
    · rcases Results.bind_eq_error_iff.mp hfailed with hvalue | ⟨_, -, hfailed⟩
      · exact ⟨_, _, _, .value ht hentry, hvalue⟩
      · cases hfailed
  · rw [leafValue?_of_single hwhole.1 hwhole.2.1 hwhole.2.2] at h
    cases hlast : query.last? f.lookupName with
    | none =>
        rw [hlast] at h
        cases h
    | some text =>
        rw [hlast] at h
        exact ⟨_, _, _, .whole hwhole hlast, Results.map_eq_error_iff.mp h⟩

/-- What a field reads of the kept pairs it reads of all pairs. -/
theorem Consumes.of_restrict
    {keep : String → Bool} {place text : String}
    (h : types.Consumes (query.restrict keep) f place t text) :
    ∃ place', types.Consumes query f place' t text := by
  cases h with
  | whole hwhole hlast => exact ⟨_, .whole hwhole (Query.last?_of_restrict hlast)⟩
  | item ht hall =>
      have hmem := Query.mem_all_of_restrict (List.mem_of_getElem? hall)
      obtain ⟨i, hi⟩ := List.mem_iff_getElem?.mp hmem
      exact ⟨_, .item ht hi⟩
  | key ht hentry => exact ⟨_, .key ht (Query.mem_entries_of_restrict hentry)⟩
  | value ht hentry => exact ⟨_, .value ht (Query.mem_entries_of_restrict hentry)⟩

/-- Leaving out pairs by their names makes no field unreadable. -/
theorem exists_leafValue?_restrict
    (keep : String → Bool) (h : ∃ given, types.leafValue? room query f = .ok given) :
    ∃ given, types.leafValue? room (query.restrict keep) f = .ok given := by
  rw [exists_leafValue?_iff] at h ⊢
  intro place t text hconsumes
  obtain ⟨place', hconsumes'⟩ := hconsumes.of_restrict
  exact h place' t text hconsumes'

theorem leafValue?_pairsOf
    (types : TypeTable) (room : Nat) (query : Query) (f : VisibleField) :
    types.leafValue? room (query.pairsOf f.lookupName) f = types.leafValue? room query f :=
  leafValue?_eq_of_pairsOf (Query.pairsOf_pairsOf query f.lookupName) room

/-! ## The name that is to blame -/

theorem blames_of_consumes
    {place text : String} (hconsumes : types.Consumes query f place t text)
    (h : types.convertAt (room + 1) t (.string text) place = .error e) :
    query.Blames f.lookupName e.field := by
  have hbelow := below_of_convertAt h
  cases hconsumes with
  | whole hwhole hlast =>
      cases failStep_of_convertAt h with
      | here hfield => exact .inl hfield
      | member ht => exact absurd ht (hwhole.1 _ _)
      | item ht => exact absurd ht (hwhole.2.1 _)
      | entry ht => exact absurd ht (hwhole.2.2 _ _)
  | item ht hall =>
      obtain ⟨hlt, -⟩ := List.getElem?_eq_some_iff.mp hall
      exact .inr (.inl ⟨_, hlt, hbelow⟩)
  | key ht hentry | value ht hentry => exact .inr (.inr ⟨_, hentry, hbelow⟩)

/-- A field that a query goes through, in one of the records that it enters. -/
def Visits (types : TypeTable) (id : String) (r : Record) (f : VisibleField) : Prop :=
  ∃ around room fields, types.Enters maxDepth [id] (types.fieldsOf id r) around room fields ∧
    f ∈ fields

/-- The fields that the query of a request reaches, in order. -/
def inputsOf (types : TypeTable) (id : String) (r : Record) : List (Nat × VisibleField) :=
  types.inputsIn maxDepth [id] (types.fieldsOf id r)

theorem visits_of_mem_inputsOf
    {input : Nat × VisibleField} (h : input ∈ types.inputsOf id r) : types.Visits id r input.2 := by
  obtain ⟨around, fields, hentered, hf, -⟩ := mem_inputsIn_iff.mp h
  exact ⟨around, input.1, fields, hentered, hf⟩

theorem readField_eq_ok_iff
    {input : Nat × VisibleField} :
    types.readField query input = .ok () ↔
      ∃ given, types.leafValue? input.1 query input.2 = .ok given := by
  simp [readField, Results.map_eq_ok_iff]

/-- The query of a GET without path parameters decides whether there is a value, and the error. -/
theorem requestValue_get_map_unit
    (hrecord : types.record? t = some (id, r)) (query : Query) (body : List UInt8) :
    (types.requestValue t "GET" ⟨query, body, []⟩).map (fun _ => ()) =
      ((types.inputsOf id r).forM (types.readField query)).mapError .invalidField := by
  rw [requestValue_get hrecord, inputsOf, ← overlayQuery_map_unit (types.zeroObject maxDepth id r),
    afterQuery]
  have hverb : Verb.get.readsQuery = true := rfl
  simp only [hverb, if_true, afterPath_nil]
  cases types.overlayQuery maxDepth [id] query (types.fieldsOf id r)
    (types.zeroObject maxDepth id r) <;> rfl

theorem exists_requestValue_get_iff
    (hrecord : types.record? t = some (id, r)) (query : Query) (body : List UInt8) :
    (∃ value, types.requestValue t "GET" ⟨query, body, []⟩ = .ok value) ↔
      ∀ input ∈ types.inputsOf id r,
        ∃ given, types.leafValue? input.1 query input.2 = .ok given := by
  have hunit : (∃ value, types.requestValue t "GET" ⟨query, body, []⟩ = .ok value) ↔
      (types.requestValue t "GET" ⟨query, body, []⟩).map (fun _ => ()) = .ok () := by
    simp [Results.map_eq_ok_iff]
  rw [hunit, requestValue_get_map_unit hrecord, Results.mapError_eq_ok_iff, Results.forM_eq_ok_iff]
  exact forall₂_congr fun input _ => readField_eq_ok_iff

theorem requestValue_get_eq_error_iff
    (hrecord : types.record? t = some (id, r)) (query : Query) (body : List UInt8)
    {e : RequestError} :
    types.requestValue t "GET" ⟨query, body, []⟩ = .error e ↔
      ∃ fault, (types.inputsOf id r).forM (types.readField query) = .error fault ∧
        .invalidField fault = e := by
  rw [← Results.map_eq_error_iff, requestValue_get_map_unit hrecord,
    Results.mapError_eq_error_iff]

/-- The pairs of the name that is to blame fail alike without the others. -/
theorem forM_readField_pairsOf
    (h : (types.inputsOf id r).forM (types.readField query) = .error e) :
    ∃ input ∈ types.inputsOf id r, types.leafValue? input.1 query input.2 = .error e ∧
      (types.inputsOf id r).forM (types.readField (query.pairsOf input.2.lookupName)) =
        .error e := by
  obtain ⟨i, input, hinput, hfailed, hbefore⟩ := Results.exists_of_forM_eq_error h
  refine ⟨input, List.mem_of_getElem? hinput, Results.map_eq_error_iff.mp hfailed, ?_⟩
  apply Results.forM_eq_error_of_first hinput
  · rw [readField, leafValue?_pairsOf]
    exact hfailed
  · intro j hj other hother
    have hread := readField_eq_ok_iff.mp (hbefore j hj other hother)
    exact readField_eq_ok_iff.mpr (exists_leafValue?_restrict _ hread)

/-- Failures of a query are those of single names.  A GET without path parameters succeeds exactly
if it does with the pairs of every visited name alone, so it does without any pairs.  Where it
fails, the error is that of a field, and its path belongs to a visited name that has pairs in the
query; with the pairs of this name alone it fails with the same error. -/
theorem query_failures_are_local
    (hrecord : types.record? t = some (id, r)) (query : Query) (body : List UInt8) :
    ((∃ value, types.requestValue t "GET" ⟨query, body, []⟩ = .ok value) ↔
      ∀ f, types.Visits id r f →
        ∃ value, types.requestValue t "GET" ⟨query.pairsOf f.lookupName, body, []⟩ = .ok value) ∧
    (∃ value, types.requestValue t "GET" ⟨.empty, body, []⟩ = .ok value) ∧
    ∀ e, types.requestValue t "GET" ⟨query, body, []⟩ = .error e →
      ∃ f fault, types.Visits id r f ∧ e = .invalidField fault ∧
        (query.pairsOf f.lookupName).pairs ≠ [] ∧ query.Blames f.lookupName fault.field ∧
        types.requestValue t "GET" ⟨query.pairsOf f.lookupName, body, []⟩ = .error e := by
  refine ⟨⟨?_, ?_⟩, ⟨_, requestValue_get_empty hrecord body⟩, ?_⟩
  · intro h f _
    rw [exists_requestValue_get_iff hrecord] at h ⊢
    exact fun input hinput => exists_leafValue?_restrict _ (h input hinput)
  · intro h
    rw [exists_requestValue_get_iff hrecord]
    intro input hinput
    have hname := h input.2 (visits_of_mem_inputsOf hinput)
    rw [exists_requestValue_get_iff hrecord] at hname
    rw [← leafValue?_pairsOf]
    exact hname input hinput
  · intro e h
    obtain ⟨fault, hfailed, rfl⟩ := (requestValue_get_eq_error_iff hrecord query body).mp h
    obtain ⟨input, hinput, hleaf, hlocal⟩ := forM_readField_pairsOf hfailed
    obtain ⟨place, u, text, hconsumes, hconverted⟩ := exists_consumes_of_leafValue?_eq_error hleaf
    refine ⟨input.2, fault, visits_of_mem_inputsOf hinput, rfl, ?_,
      blames_of_consumes hconsumes hconverted,
      (requestValue_get_eq_error_iff hrecord _ body).mpr ⟨fault, hlocal, rfl⟩⟩
    intro hnone
    have hempty : query.pairsOf input.2.lookupName = .empty := congrArg Query.mk hnone
    rw [leafValue?_of_pairsOf_eq_empty hempty] at hleaf
    cases hleaf

/-! ## A limit that is too large -/

/-- An item whose page has a limit beyond its width. -/
def largePage : CallInput :=
  ⟨⟨[("name", "root"), ("limit", "300"), ("tags[]", "new")]⟩, [], []⟩

/-- The limit is to blame, though it stands in a page below the item, and fails without the others,
too. -/
theorem query_failures_are_local_tree :
    ∃ (f : VisibleField) (fault : FieldError),
      treeTypes.requestValue (.named "Item") "GET" largePage = .error (.invalidField fault) ∧
      fault.field = "limit" ∧ largePage.query.Blames f.lookupName "limit" ∧
      treeTypes.requestValue (.named "Item") "GET"
        ⟨largePage.query.pairsOf f.lookupName, [], []⟩ = .error (.invalidField fault) := by
  have hcomputed : (match treeTypes.requestValue (.named "Item") "GET" largePage with
      | .ok _ => none
      | .error e => e.field?) = some "limit" := by
    decide
  cases hvalue : treeTypes.requestValue (.named "Item") "GET" largePage with
  | ok value => simp [hvalue] at hcomputed
  | error e =>
      obtain ⟨f, fault, -, rfl, -, hblames, hlocal⟩ :=
        (query_failures_are_local rfl largePage.query []).2.2 e hvalue
      have hfield : fault.field = "limit" := by
        simpa [hvalue, RequestError.field?] using hcomputed
      exact ⟨f, fault, rfl, hfield, hfield ▸ hblames, hlocal⟩

end TypeTable
end TypedRoutes
