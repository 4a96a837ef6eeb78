import Mathlib.Data.List.Nodup
import Mathlib.Data.Option.Basic
import TypedRoutes.Proofs.PathPrecedence

/-!
# A query and a body with the same texts

The fields of a flat request hold single values, or lists or tables of them.  Texts for some of
them can be written as a query, where the pairs of a field share its name, or as a body, where they
are the strings of one member.  A GET with the one and a POST with the other come to the same value
or both fail in a field.
-/

namespace TypedRoutes

/-- Whether the values of a shape are no containers. -/
def Shape.isSingle : Shape → Bool
  | .record _ _ => false
  | .sequence _ => false
  | .table _ _ => false
  | _ => true

theorem Shape.ne_of_isSingle
    {shape : Shape} (h : shape.isSingle = true) :
    (∀ id r, shape ≠ .record id r) ∧ (∀ element, shape ≠ .sequence element) ∧
      ∀ keys values, shape ≠ .table keys values := by
  refine ⟨?_, ?_, ?_⟩
  · rintro id r rfl
    cases h
  · rintro element rfl
    cases h
  · rintro keys values rfl
    cases h

/-- What is written for a field: a text, some texts, or some texts under distinct keys. -/
inductive Texts
  | one (text : String)
  | list (first : String) (rest : List String)
  | table (entries : List (String × String)) (hne : entries ≠ [])
      (hkeys : ∀ entry ∈ entries, entry.1 ≠ "") (hnodup : (entries.map Prod.fst).Nodup)

namespace Texts

/-- The pairs of a query that write texts under a name. -/
def pairs (name : String) : Texts → List (String × String)
  | one text => [(name, text)]
  | list first rest => (first :: rest).map fun text => (name, text)
  | table entries _ _ _ => entries.map fun entry => (indexed name entry.1, entry.2)

/-- The member of a body that writes texts. -/
def json : Texts → Json
  | one text => .string text
  | list first rest => .ofTexts (first :: rest)
  | table entries _ _ _ => .ofPairs (entries.map fun entry => (entry.1, .string entry.2))

/-- Whether texts have the form that a shape takes. -/
def suits : Texts → Shape → Bool
  | one _, shape => shape.isSingle
  | list _ _, .sequence _ => true
  | table _ _ _ _, .table _ _ => true
  | _, _ => false

end Texts

namespace TypeTable

/-- Whether a field holds single values, or lists or tables of them. -/
def isFlat (types : TypeTable) (f : VisibleField) : Bool :=
  match types.shape f.target with
  | .record _ _ => false
  | .sequence element => (types.shape element.target).isSingle
  | .table keys values =>
    (types.shape keys.target).isSingle && (types.shape values.target).isSingle
  | _ => true

variable {types : TypeTable} {room : Nat} {f : VisibleField} {t : Ty} {path : String}

/-! ## Conversions of containers -/

theorem convertAt_eq_of_isSingle
    (h : (types.shape t.target).isSingle = true) (room room' : Nat) (value : Json)
    (place : String) :
    types.convertAt (room + 1) t value place = types.convertAt (room' + 1) t value place := by
  obtain ⟨hrecord, hsequence, htable⟩ := Shape.ne_of_isSingle h
  exact convertAt_eq_of_single hrecord hsequence htable room room' value place

theorem convertAt_array
    {element : Ty} (ht : types.shape t.target = .sequence element) (items : List Json) :
    types.convertAt (room + 1) t (.array items) path =
      (items.zipIdx.mapM fun entry =>
        types.convertAt room element entry.1 (indexed path (toString entry.2))).map .array := by
  rw [convertAt.eq_3 _ _ _ _ _ (by simp)]
  simp only [Bool.and_false, Bool.false_eq_true, if_false, ht, Json.itemsOf?]
  exact Results.bind_ok_eq_map _ _

/-- How an entry of a table is converted. -/
def convertEntry (types : TypeTable) (room : Nat) (keys values : Ty) (path : String)
    (entry : String × Json) : Except FieldError (String × Json) := do
  let _ ← types.convertAt room keys (.string entry.1) (indexed path entry.1)
  let item ← types.convertAt room values entry.2 (indexed path entry.1)
  .ok (entry.1, item)

theorem convertAt_object
    {keys values : Ty} (ht : types.shape t.target = .table keys values) (members : Json.Object) :
    types.convertAt (room + 1) t (.object members) path =
      (members.mapM (types.convertEntry room keys values path)).map .object := by
  rw [convertAt.eq_3 _ _ _ _ _ (by simp)]
  simp only [Bool.and_false, Bool.false_eq_true, if_false, ht, Json.objectOf?]
  exact Results.bind_ok_eq_map _ _

/-! ## One field -/

theorem leafValue?_one
    (h : (types.shape f.target).isSingle = true) (text : String) :
    types.leafValue? room ⟨(Texts.one text).pairs f.lookupName⟩ f =
      (types.convertAt (room + 1) f.type (.string text) f.lookupName).map some := by
  obtain ⟨hrecord, hsequence, htable⟩ := Shape.ne_of_isSingle h
  rw [leafValue?_of_single hrecord hsequence htable, Texts.pairs, Query.last?_singleton]

theorem leafValue?_list
    {element : Ty} (ht : types.shape f.target = .sequence element) (first : String)
    (rest : List String) :
    types.leafValue? room ⟨(Texts.list first rest).pairs f.lookupName⟩ f =
      ((first :: rest).zipIdx.mapM fun entry =>
        types.convertAt (room + 1) element (.string entry.1)
          (indexed f.lookupName (toString entry.2))).map fun items => some (.array items) := by
  simp only [leafValue?, queryValue?, ht, Texts.pairs, Query.all_map_pair]
  exact Results.bind_ok_eq_map _ _

theorem leafValue?_table
    {keys values : Ty} (ht : types.shape f.target = .table keys values)
    {entries : List (String × String)} (hne : entries ≠ [])
    (hkeys : ∀ entry ∈ entries, entry.1 ≠ "") (hnodup : (entries.map Prod.fst).Nodup) :
    types.leafValue? room ⟨(Texts.table entries hne hkeys hnodup).pairs f.lookupName⟩ f =
      ((entries.map fun entry => (entry.1, Json.string entry.2)).mapM
        (types.convertEntry (room + 1) keys values f.lookupName)).map
          fun members => some (.object (Members.ofList members)) := by
  obtain ⟨first, rest, rfl⟩ := List.exists_cons_of_ne_nil hne
  simp only [leafValue?, queryValue?, ht, Texts.pairs, Query.entries_map_indexed _ hkeys hnodup,
    List.mapM_map]
  exact Results.bind_ok_eq_map _ _

/-- Converting pairs with distinct keys commutes with putting them in order. -/
theorem toOption_mapM_ofList
    {step : String × Json → Except FieldError (String × Json)}
    (hstep : ∀ entry result, step entry = .ok result → result.1 = entry.1)
    {pairs : List (String × Json)} (hnodup : (pairs.map Prod.fst).Nodup) :
    ((Members.ofList pairs).mapM step).toOption =
      (pairs.mapM step).toOption.map Members.ofList := by
  by_cases hall : ∀ entry ∈ pairs, ∃ result, step entry = .ok result
  · let value (entry : String × Json) : Json := ((step entry).toOption.map Prod.snd).getD default
    have hvalue : ∀ entry ∈ pairs, step entry = .ok (entry.1, value entry) := by
      intro entry hentry
      obtain ⟨result, hresult⟩ := hall entry hentry
      have hkey : result.1 = entry.1 := hstep entry result hresult
      simp [value, hresult, Except.toOption, ← hkey]
    have hvalue' : ∀ entry ∈ Members.ofList pairs, step entry = .ok (entry.1, value entry) :=
      fun entry hentry => hvalue entry (Members.mem_of_mem_ofList hentry)
    rw [Results.mapM_eq_ok_of_forall hvalue, Results.mapM_eq_ok_of_forall hvalue',
      Members.map_ofList]
    rfl
  · have hnone : ∀ entries : List (String × Json), (∀ entry, entry ∈ entries ↔ entry ∈ pairs) →
        (entries.mapM step).toOption = none := by
      intro entries hsame
      cases hresults : entries.mapM step with
      | error e => rfl
      | ok results =>
          refine absurd ?_ hall
          intro entry hentry
          have hentry' : entry ∈ entries := (hsame entry).mpr hentry
          exact Results.exists_mapM_eq_ok_iff.mp ⟨results, hresults⟩ entry hentry'
    rw [hnone _ fun _ => Members.mem_ofList_iff hnodup, hnone _ fun _ => Iff.rfl, Option.map_none]

theorem convertEntry_key
    {keys values : Ty} {entry result : String × Json}
    (h : types.convertEntry room keys values path entry = .ok result) : result.1 = entry.1 := by
  obtain ⟨_, -, h⟩ := Results.bind_eq_ok_iff.mp h
  obtain ⟨_, -, h⟩ := Results.bind_eq_ok_iff.mp h
  obtain rfl := Except.ok.inj h
  rfl

theorem convertEntry_eq_of_isSingle
    {keys values : Ty} (hkeys : (types.shape keys.target).isSingle = true)
    (hvalues : (types.shape values.target).isSingle = true) (room room' : Nat) :
    types.convertEntry (room + 1) keys values path =
      types.convertEntry (room' + 1) keys values path := by
  funext entry
  rw [convertEntry, convertEntry, convertAt_eq_of_isSingle hkeys room room',
    convertAt_eq_of_isSingle hvalues room room']

/-- A field makes of its texts in a query what the conversion of their JSON makes of them. -/
theorem toOption_leafValue?
    (hflat : types.isFlat f = true) {texts : Texts}
    (hsuits : texts.suits (types.shape f.target) = true) :
    (types.leafValue? (room + 1) ⟨texts.pairs f.lookupName⟩ f).toOption =
      ((types.convertAt (room + 1 + 1) f.type texts.json f.lookupName).map some).toOption := by
  generalize hshape : types.shape f.target = shape at hsuits
  rw [isFlat, hshape] at hflat
  cases texts with
  | one text =>
      have hsingle : (types.shape f.target).isSingle = true := by
        rw [hshape]
        exact hsuits
      rw [leafValue?_one hsingle, Texts.json]
  | list first rest =>
      cases shape with
      | sequence element =>
          have hitems : ∀ entry : String × Nat,
              types.convertAt (room + 1 + 1) element (.string entry.1)
                (indexed f.lookupName (toString entry.2)) =
              types.convertAt (room + 1) element (.string entry.1)
                (indexed f.lookupName (toString entry.2)) :=
            fun entry => convertAt_eq_of_isSingle hflat (room + 1) room _ _
          rw [leafValue?_list hshape, Texts.json, Json.ofTexts, convertAt_array hshape,
            List.zipIdx_map, List.mapM_map]
          simp only [hitems, Results.toOption_map, Option.map_map]
          rfl
      | _ => exact absurd hsuits Bool.false_ne_true
  | table entries hne hkeys hnodup =>
      cases shape with
      | table keys values =>
          obtain ⟨hsingle, hsingle'⟩ := Bool.and_eq_true_iff.mp hflat
          have hpairs : ((entries.map fun entry =>
              (entry.1, Json.string entry.2)).map Prod.fst).Nodup := by
            simpa [Function.comp_def] using hnodup
          rw [leafValue?_table hshape, Texts.json, Json.ofPairs, convertAt_object hshape,
            convertEntry_eq_of_isSingle hsingle hsingle' (room + 1) room]
          simp only [Results.toOption_map,
            toOption_mapM_ofList (fun _ _ => convertEntry_key) hpairs, Option.map_map]
          rfl
      | _ => exact absurd hsuits Bool.false_ne_true

/-! ## All fields -/

/-- Going through fields that are given values without regard to each other. -/
def assemble? (given? : VisibleField → Option (Option Json)) (fields : List VisibleField)
    (a : Assembly) : Option Assembly :=
  fields.foldlM (fun a f => (given? f).map (a.give f)) a

variable {fields : List VisibleField} {query : Query} {body start : Json.Object}

theorem assemble?_cons
    (given? : VisibleField → Option (Option Json)) (rest : List VisibleField) (a : Assembly) :
    assemble? given? (f :: rest) a =
      (given? f).bind fun given => assemble? given? rest (a.give f given) := by
  rw [assemble?, List.foldlM_cons]
  exact Option.bind_map

theorem assemble?_congr
    {given? given?' : VisibleField → Option (Option Json)}
    (h : ∀ f ∈ fields, given? f = given?' f) (a : Assembly) :
    assemble? given? fields a = assemble? given?' fields a := by
  induction fields generalizing a with
  | nil => rfl
  | cons f rest ih =>
      rw [assemble?_cons, assemble?_cons, h f (by simp)]
      congr 1
      funext given
      exact ih (fun g hg => h g (by simp [hg])) _

theorem toOption_overlayBody
    (convert : Ty → Json → String → Except FieldError Json) (fields : List VisibleField)
    (body start : Json.Object) (path : String) :
    (overlayBody convert fields body path start).toOption =
      assemble? (fun f => (bodyGiven? convert body path f).toOption) fields ⟨start, []⟩ := by
  rw [overlayBody_eq_foldlM]
  generalize (⟨start, []⟩ : Assembly) = a
  induction fields generalizing a with
  | nil => rfl
  | cons f rest ih =>
      rw [List.foldlM_cons, assemble?_cons, Results.toOption_bind, Results.toOption_map,
        Option.bind_map]
      simp only [ih]
      rfl

theorem toOption_foldlM_put
    {value? : Json.Object → VisibleField → Except FieldError (Option Json)}
    {given? : VisibleField → Option (Option Json)}
    (h : ∀ f ∈ fields, ∀ x, (value? x f).toOption = given? f) (a : Assembly) (touched : Bool) :
    (fields.foldlM (fun (a, touched) f => do
      match ← value? a.target f with
      | some value => .ok (a.put f value, true)
      | none => .ok (a, touched)) (a, touched) : Except FieldError _).toOption.map Prod.fst =
      assemble? given? fields a := by
  induction fields generalizing a touched with
  | nil => rfl
  | cons f rest ih =>
      have hrest := ih fun g hg => h g (by simp [hg])
      rw [List.foldlM_cons, assemble?_cons, Results.toOption_bind, Results.toOption_bind,
        ← h f (by simp) a.target]
      cases (value? a.target f).toOption with
      | none => rfl
      | some given =>
          cases given with
          | none => exact hrest a touched
          | some value => exact hrest (a.put f value) true

theorem toOption_overlayQuery
    (hleaf : ∀ f ∈ fields, types.record? f.type = none) (path : List String) (query : Query)
    (start : Json.Object) :
    ((types.overlayQuery room path query fields start).map Prod.fst).toOption =
      (assemble? (fun f => (types.leafValue? room query f).toOption) fields ⟨start, []⟩).map
        fun a => types.completeGroups room fields a.groups a.target := by
  have hvalue : ∀ f ∈ fields, ∀ x, (types.fieldValue? room path query x f).toOption =
      (types.leafValue? room query f).toOption := by
    intro f hf x
    rw [fieldValue?_of_leaf (hleaf f hf)]
  rw [← toOption_foldlM_put hvalue ⟨start, []⟩ false, Option.map_map, overlayQuery_eq,
    overlayFields, Results.toOption_map, Results.toOption_bind, Option.map_bind]
  exact Option.map_eq_bind.symm

theorem toOption_overlayTop
    (fields : List VisibleField) (body start : Json.Object) :
    (types.overlayTop fields body start).toOption =
      (assemble? (fun f => (bodyGiven? (types.convertAt (maxDepth + 1)) body "" f).toOption) fields
        ⟨start, []⟩).map fun a => types.completeGroups maxDepth fields a.groups a.target := by
  rw [overlayTop, Results.bind_ok_eq_map, Results.toOption_map, toOption_overlayBody]

/-! ## Texts for the fields of a request -/

/-- The pairs of a field, if it is given texts. -/
def pairsOfTexts (given : VisibleField → Option Texts) (f : VisibleField) :
    List (String × String) :=
  (given f).elim [] fun texts => texts.pairs f.lookupName

/-- The query that writes the texts of the fields one after the other. -/
def queryOf (fields : List VisibleField) (given : VisibleField → Option Texts) : Query :=
  ⟨fields.flatMap (pairsOfTexts given)⟩

/-- The body that writes the texts of the fields under their external names. -/
def bodyOf (fields : List VisibleField) (given : VisibleField → Option Texts) : Json.Object :=
  Members.ofList (fields.filterMap fun f => (given f).map fun texts => (f.lookupName, texts.json))

/-- A query has the pairs that write the texts of the fields, those of each field in order. -/
def Spells (query : Query) (fields : List VisibleField) (given : VisibleField → Option Texts) :
    Prop :=
  ∀ f ∈ fields, query.pairsOf f.lookupName = ⟨pairsOfTexts given f⟩

/-- The fields of a request are flat, and their names lead to one field each. -/
structure IsFlatRequest (types : TypeTable) (fields : List VisibleField) : Prop where
  flat : ∀ f ∈ fields, types.isFlat f = true
  nodup : (fields.map VisibleField.lookupName).Nodup
  brackets : ∀ f ∈ fields, '[' ∉ f.lookupName.toList
  apart : ∀ f ∈ fields, ∀ g ∈ fields, f.wireName = g.lookupName → f = g

variable {given : VisibleField → Option Texts}

theorem IsFlatRequest.eq_of_lookupName_eq
    (h : types.IsFlatRequest fields) {f g : VisibleField} (hf : f ∈ fields) (hg : g ∈ fields)
    (hname : f.lookupName = g.lookupName) : f = g :=
  List.inj_on_of_nodup_map h.nodup hf hg hname

theorem record?_of_isFlat (h : types.isFlat f = true) : types.record? f.type = none := by
  unfold record?
  split
  · rename_i id r hshape
    rw [isFlat, VisibleField.target, hshape] at h
    cases h
  · rfl

/-! ### The query -/

theorem Texts.mem_pairs
    {name : String} {texts : Texts} {pair : String × String} (h : pair ∈ texts.pairs name) :
    pair.1 = name ∨ ∃ key, pair.1 = indexed name key := by
  cases texts with
  | one text =>
      obtain rfl := List.mem_singleton.mp h
      exact .inl rfl
  | list first rest =>
      obtain ⟨text, -, rfl⟩ := List.mem_map.mp h
      exact .inl rfl
  | table entries hne hkeys hnodup =>
      obtain ⟨entry, -, rfl⟩ := List.mem_map.mp h
      exact .inr ⟨entry.1, rfl⟩

theorem mem_pairsOfTexts
    {pair : String × String} (h : pair ∈ pairsOfTexts given f) :
    pair.1 = f.lookupName ∨ ∃ key, pair.1 = indexed f.lookupName key := by
  unfold pairsOfTexts at h
  cases hgiven : given f with
  | none =>
      rw [hgiven] at h
      cases h
  | some texts =>
      rw [hgiven] at h
      exact Texts.mem_pairs h

theorem mem_pairsOf_iff
    {name : String} {pair : String × String} :
    pair ∈ (query.pairsOf name).pairs ↔
      pair ∈ query.pairs ∧ (pair.1 = name ∨ ∃ key, pair.1 = indexed name key) := by
  simp [Query.pairsOf, Query.restrict, Option.isSome_iff_exists, Query.entryKey?_eq_some_iff]

theorem pairsOf_pairsOfTexts :
    Query.pairsOf ⟨pairsOfTexts given f⟩ f.lookupName = ⟨pairsOfTexts given f⟩ := by
  rw [Query.pairsOf, Query.restrict, List.filter_eq_self.mpr]
  intro pair hpair
  have hmem : pair ∈ (Query.pairsOf ⟨pairsOfTexts given f⟩ f.lookupName).pairs :=
    mem_pairsOf_iff.mpr ⟨hpair, mem_pairsOfTexts hpair⟩
  exact (List.mem_filter.mp hmem).2

/-- The pairs of another field have other names. -/
theorem pairsOf_of_ne
    {g : VisibleField} (hf : '[' ∉ f.lookupName.toList) (hg : '[' ∉ g.lookupName.toList)
    (hne : g.lookupName ≠ f.lookupName) :
    (Query.pairsOf ⟨pairsOfTexts given g⟩ f.lookupName).pairs = [] := by
  have hbracket : ∀ name key : String, '[' ∈ (indexed name key).toList := by
    intro name key
    simp [indexed]
  rw [List.eq_nil_iff_forall_not_mem]
  intro pair hpair
  obtain ⟨hpair, hname⟩ := mem_pairsOf_iff.mp hpair
  rcases mem_pairsOfTexts hpair with hkey | ⟨key, hkey⟩
  · rcases hname with hname | ⟨key', hname⟩
    · exact hne (hkey.symm.trans hname)
    · exact hg (hkey ▸ hname ▸ hbracket f.lookupName key')
  · rcases hname with hname | ⟨key', hname⟩
    · exact hf (hname ▸ hkey ▸ hbracket g.lookupName key)
    · exact hne (eq_of_indexed_eq hg hf (hkey.symm.trans hname))

theorem pairsOf_queryOf
    (fields : List VisibleField) (given : VisibleField → Option Texts) (name : String) :
    ((queryOf fields given).pairsOf name).pairs =
      fields.flatMap fun g => (Query.pairsOf ⟨pairsOfTexts given g⟩ name).pairs :=
  List.filter_flatMap

theorem spells_queryOf
    (h : types.IsFlatRequest fields) (given : VisibleField → Option Texts) :
    Spells (queryOf fields given) fields given := by
  intro f hf
  have hother : ∀ g ∈ fields, g ≠ f →
      (Query.pairsOf ⟨pairsOfTexts given g⟩ f.lookupName).pairs = [] := by
    intro g hg hne
    apply pairsOf_of_ne (h.brackets f hf) (h.brackets g hg)
    exact fun hname => hne (h.eq_of_lookupName_eq hg hf hname)
  have hfields : fields.Nodup := List.Nodup.of_map _ h.nodup
  have hpairs := pairsOf_queryOf fields given f.lookupName
  obtain ⟨before, after, rfl⟩ := List.append_of_mem hf
  obtain ⟨hfresh, -⟩ := List.nodup_cons.mp (List.nodup_middle.mp hfields)
  have hbefore : before.flatMap (fun g =>
      (Query.pairsOf ⟨pairsOfTexts given g⟩ f.lookupName).pairs) = [] := by
    rw [List.flatMap_eq_nil_iff]
    intro g hg
    exact hother g (by simp [hg]) fun heq => hfresh (by simp [← heq, hg])
  have hafter : after.flatMap (fun g =>
      (Query.pairsOf ⟨pairsOfTexts given g⟩ f.lookupName).pairs) = [] := by
    rw [List.flatMap_eq_nil_iff]
    intro g hg
    exact hother g (by simp [hg]) fun heq => hfresh (by simp [← heq, hg])
  rw [List.flatMap_append, List.flatMap_cons, hbefore, hafter, List.nil_append, List.append_nil,
    pairsOf_pairsOfTexts] at hpairs
  exact congrArg Query.mk hpairs

/-- A field makes of a query what it makes of its texts. -/
theorem toOption_leafValue?_of_spells
    (hf : f ∈ fields) (hflat : types.isFlat f = true) (hquery : Spells query fields given)
    (hsuits : ∀ texts ∈ given f, texts.suits (types.shape f.target) = true) :
    (types.leafValue? maxDepth query f).toOption =
      match given f with
      | none => some none
      | some texts =>
        ((types.convertAt (maxDepth + 1) f.type texts.json f.lookupName).map some).toOption := by
  have hpairs : query.pairsOf f.lookupName =
      Query.pairsOf ⟨pairsOfTexts given f⟩ f.lookupName := by
    rw [hquery f hf, pairsOf_pairsOfTexts]
  rw [leafValue?_eq_of_pairsOf hpairs]
  cases hgiven : given f with
  | none =>
      have hempty : pairsOfTexts given f = [] := by
        rw [pairsOfTexts, hgiven]
        rfl
      rw [hempty, leafValue?_eq_none_iff.mpr (by simp)]
      rfl
  | some texts =>
      have htexts : pairsOfTexts given f = texts.pairs f.lookupName := by
        rw [pairsOfTexts, hgiven]
        rfl
      rw [htexts]
      exact toOption_leafValue? hflat (hsuits texts hgiven)

/-! ### The body -/

theorem nodup_bodyKeys
    (hnodup : (fields.map VisibleField.lookupName).Nodup) (given : VisibleField → Option Texts) :
    ((fields.filterMap fun f => (given f).map fun texts =>
      (f.lookupName, texts.json)).map Prod.fst).Nodup := by
  have hkeys : (fields.filterMap fun f => (given f).map fun texts =>
      (f.lookupName, texts.json)).map Prod.fst =
        (fields.filter fun f => (given f).isSome).map VisibleField.lookupName := by
    induction fields with
    | nil => rfl
    | cons f rest ih =>
        have hrest := ih (List.nodup_cons.mp hnodup).2
        cases hgiven : given f <;> simp [hgiven, hrest]
  rw [hkeys]
  exact hnodup.sublist (List.filter_sublist.map _)

/-- A body provides each field with its texts. -/
theorem bodyValue?_bodyOf
    (h : types.IsFlatRequest fields) (given : VisibleField → Option Texts) (hf : f ∈ fields) :
    bodyValue? (bodyOf fields given) f = (given f).map Texts.json := by
  cases hgiven : given f with
  | some texts =>
      have hmem : (f.lookupName, texts.json) ∈ bodyOf fields given := by
        rw [bodyOf, Members.mem_ofList_iff (nodup_bodyKeys h.nodup given)]
        exact List.mem_filterMap.mpr ⟨f, hf, by rw [hgiven]; rfl⟩
      have hfind : (bodyOf fields given).find? f.lookupName = some texts.json :=
        (Members.sorted_ofList _).find?_eq_some_iff.mpr hmem
      exact bodyValue?_of_lookupName hfind
  | none =>
      have hmissing : ∀ name, (∀ g ∈ fields, name = g.lookupName → f = g) →
          (bodyOf fields given).find? name = none := by
        intro name hname
        rw [← Option.not_isSome_iff_eq_none]
        intro hcontains
        obtain ⟨pair, hpair, rfl⟩ :=
          Members.mem_keys_ofList.mp (Members.contains_eq_true_iff.mp hcontains)
        obtain ⟨g, hg, hpair⟩ := List.mem_filterMap.mp hpair
        obtain ⟨texts, htexts, rfl⟩ := Option.map_eq_some_iff.mp hpair
        obtain rfl := hname g hg rfl
        rw [hgiven] at htexts
        cases htexts
      have hlookup : (bodyOf fields given).find? f.lookupName = none :=
        hmissing f.lookupName fun g hg hname => h.eq_of_lookupName_eq hf hg hname
      have hwire : (bodyOf fields given).find? f.wireName = none :=
        hmissing f.wireName fun g hg hname => h.apart f hf g hg hname
      exact (bodyValue?_of_wireName hlookup).trans hwire

theorem toOption_bodyGiven?_bodyOf
    (h : types.IsFlatRequest fields) (given : VisibleField → Option Texts) (hf : f ∈ fields) :
    (bodyGiven? (types.convertAt (maxDepth + 1)) (bodyOf fields given) "" f).toOption =
      match given f with
      | none => some none
      | some texts =>
        ((types.convertAt (maxDepth + 1) f.type texts.json f.lookupName).map some).toOption := by
  rw [bodyGiven?, bodyValue?_bodyOf h given hf]
  cases given f <;> rfl

/-! ## The whole request -/

/-- Two calls come to the same value, or both fail in a field. -/
def ComeToTheSame (x y : Except RequestError Json) : Prop :=
  (∃ value, x = .ok value ∧ y = .ok value) ∨
    ∃ e e', x = .error (.invalidField e) ∧ y = .error (.invalidField e')

variable {id : String} {r : Record}

/-- The value of a request, once the path parameters are overlaid as well. -/
def finish (types : TypeTable) (id : String) (r : Record) (pathParams : List (String × String))
    (target : Json.Object) : Except RequestError Json :=
  types.afterPath pathParams id (types.fieldsOf id r) target >>= fun target => .ok (.object target)

theorem comeToTheSame_of_toOption
    {x y : Except FieldError Json.Object} (h : x.toOption = y.toOption)
    (pathParams : List (String × String)) :
    ComeToTheSame (x.mapError .invalidField >>= types.finish id r pathParams)
      (y.mapError .invalidField >>= types.finish id r pathParams) := by
  cases x with
  | error e =>
      cases y with
      | error e' => exact .inr ⟨e, e', rfl, rfl⟩
      | ok b => cases h
  | ok a =>
      cases y with
      | error e' => cases h
      | ok b =>
          obtain rfl := Option.some.inj h
          show ComeToTheSame (types.finish id r pathParams a) (types.finish id r pathParams a)
          rw [finish, afterPath]
          cases types.overlayQuery maxDepth [id] ⟨pathParams⟩ (types.fieldsOf id r) a with
          | error e => exact .inr ⟨e, e, rfl, rfl⟩
          | ok overlaid => exact .inl ⟨_, rfl, rfl⟩

theorem requestValue_get_finish
    (hrecord : types.record? t = some (id, r)) (query : Query) (bytes : List UInt8)
    (pathParams : List (String × String)) :
    types.requestValue t "GET" ⟨query, bytes, pathParams⟩ =
      (((types.overlayQuery maxDepth [id] query (types.fieldsOf id r)
        (types.zeroObject maxDepth id r)).map Prod.fst).mapError .invalidField >>=
          types.finish id r pathParams) :=
  requestValue_get hrecord query bytes pathParams

/-- Where a method reads a body but no query, its request value starts from the zero value. -/
theorem requestValue_body_finish
    (hrecord : types.record? t = some (id, r)) {method : String} {verb : Verb}
    (hverb : Verb.ofName? method = some verb) (hquery : verb.readsQuery = false) (query : Query)
    {bytes : List UInt8} (hbytes : readBody bytes = .ok (some body))
    (pathParams : List (String × String)) :
    types.requestValue t method ⟨query, bytes, pathParams⟩ =
      ((types.overlayTop (types.fieldsOf id r) body (types.zeroObject maxDepth id r)).mapError
        .invalidField >>= types.finish id r pathParams) := by
  have hreads : verb.readsBody = true := by
    cases verb with
    | get | delete => cases hquery
    | post | put | patch => rfl
  have hstart : types.afterQuery verb query id (types.fieldsOf id r)
      (types.zeroObject maxDepth id r) = .ok (types.zeroObject maxDepth id r) := by
    rw [afterQuery, hquery, if_neg Bool.false_ne_true]
  rw [requestValue_eq hrecord hverb, hstart]
  show types.afterBody verb bytes _ _ >>= _ = _
  rw [afterBody_bind hreads, hbytes]
  rfl

theorem requestValue_post_finish
    (hrecord : types.record? t = some (id, r)) (query : Query) {bytes : List UInt8}
    (hbytes : readBody bytes = .ok (some body)) (pathParams : List (String × String)) :
    types.requestValue t "POST" ⟨query, bytes, pathParams⟩ =
      ((types.overlayTop (types.fieldsOf id r) body (types.zeroObject maxDepth id r)).mapError
        .invalidField >>= types.finish id r pathParams) := by
  have hverb : Verb.ofName? "POST" = some .post := rfl
  exact requestValue_body_finish hrecord hverb rfl query hbytes pathParams

/-- A query and a body with the same texts mean the same.  Let the fields of a request be flat, with
distinct external names that have no opening bracket and that are no names in JSON of other fields,
and let some of the fields be given texts of the form that they take.  A query that has these texts,
such as the one that goes field by field, comes under GET to what the body that has them comes to
under POST, or both fail in a field. -/
theorem query_and_body_agree
    (hrecord : types.record? t = some (id, r)) (h : types.IsFlatRequest (types.fieldsOf id r))
    (hsuits : ∀ f ∈ types.fieldsOf id r, ∀ texts ∈ given f,
      texts.suits (types.shape f.target) = true) :
    Spells (queryOf (types.fieldsOf id r) given) (types.fieldsOf id r) given ∧
    ∀ query query' bytes bytes' pathParams, Spells query (types.fieldsOf id r) given →
      readBody bytes = .ok (some (bodyOf (types.fieldsOf id r) given)) →
      ComeToTheSame (types.requestValue t "GET" ⟨query, bytes', pathParams⟩)
        (types.requestValue t "POST" ⟨query', bytes, pathParams⟩) := by
  refine ⟨spells_queryOf h given, ?_⟩
  intro query query' bytes bytes' pathParams hquery hbytes
  rw [requestValue_get_finish hrecord, requestValue_post_finish hrecord _ hbytes]
  apply comeToTheSame_of_toOption
  have hleaf : ∀ f ∈ types.fieldsOf id r, types.record? f.type = none :=
    fun f hf => record?_of_isFlat (h.flat f hf)
  rw [toOption_overlayQuery hleaf, toOption_overlayTop]
  congr 1
  apply assemble?_congr
  intro f hf
  rw [toOption_leafValue?_of_spells hf (h.flat f hf) hquery (hsuits f hf),
    toOption_bodyGiven?_bodyOf h given hf]

/-- What is read from a body can be compared with members that are given. -/
theorem readBody_of_sameMembers {bytes : List UInt8} {members : Json.Object}
    (h : (readBody bytes).toOption.map (fun body => body.map fun read =>
      Json.sameMembers read members) = some (some true)) :
    readBody bytes = .ok (some members) := by
  obtain ⟨body, hbody, hread⟩ := Results.exists_of_toOption_map h
  obtain ⟨read, rfl, hsame⟩ := Option.map_eq_some_iff.mp hread
  rw [hbody, Json.eq_of_sameMembers hsame]

/-! ## A selection with an optional page -/

/-- A request for some items, with weights by key and an optional page. -/
def selection : Record where
  name := "Selection"
  fields := [plainField "ids" (.sequence .list (.scalar (.uint .w8))) false,
    plainField "by" (.table .ordered (.scalar .string) (.scalar (.int .w32))) false,
    plainField "page" (.option (.named "Page")) true]
  doc := none

/-- The types of a selection. -/
def selectionTypes : TypeTable :=
  ⟨[("Selection", .record selection), ("Page", .record ⟨"Page",
    [⟨"number", "number", .scalar (.uint .w8), "p:\"n\"", none, false, false⟩,
      plainField "size" (.scalar (.uint .w8)) false], none⟩)]⟩

/-- Texts for a selection. -/
def selectionTexts (f : VisibleField) : Option Texts :=
  match f.lookupName with
  | "ids" => some (.list "1" ["2"])
  | "by" => some (.table [("a", "5")] (by decide) (by decide) (by decide))
  | "n" => some (.one "9")
  | _ => none

/-- A query with these texts, where the pairs of the list do not stand together. -/
def selectionQuery : Query :=
  ⟨[("ids", "1"), ("n", "9"), ("by[a]", "5"), ("ids", "2")]⟩

/-- A body with these texts. -/
def selectionBytes : List UInt8 :=
  Text.bytes "\x7b\"n\":\"9\",\"ids\":[\"1\",\"2\"],\"by\":\x7b\"a\":\"5\"\x7d\x7d"

theorem query_and_body_agree_selection :
    ∃ value,
      selectionTypes.requestValue (.named "Selection") "GET" ⟨selectionQuery, [], []⟩ =
        .ok value ∧
      selectionTypes.requestValue (.named "Selection") "POST" ⟨.empty, selectionBytes, []⟩ =
        .ok value ∧
      value.compact =
        "\x7b\"by\":\x7b\"a\":5\x7d,\"ids\":[1,2],\"number\":9,\"size\":0\x7d" := by
  have hrecord : selectionTypes.record? (.named "Selection") = some ("Selection", selection) := rfl
  have hflat : selectionTypes.IsFlatRequest (selectionTypes.fieldsOf "Selection" selection) :=
    ⟨by decide +kernel, by decide +kernel, by decide +kernel, by decide +kernel⟩
  have hsuits : ∀ f ∈ selectionTypes.fieldsOf "Selection" selection,
      ∀ texts ∈ selectionTexts f, texts.suits (selectionTypes.shape f.target) = true := by
    decide +kernel
  have hquery : Spells selectionQuery (selectionTypes.fieldsOf "Selection" selection)
      selectionTexts := by
    unfold Spells
    decide +kernel
  have hbytes : readBody selectionBytes =
      .ok (some (bodyOf (selectionTypes.fieldsOf "Selection" selection) selectionTexts)) :=
    readBody_of_sameMembers (by decide +kernel)
  have htext : (selectionTypes.requestValue (.named "Selection") "GET"
      ⟨selectionQuery, [], []⟩).toOption.map Json.compact =
      some "\x7b\"by\":\x7b\"a\":5\x7d,\"ids\":[1,2],\"number\":9,\"size\":0\x7d" := by
    decide +kernel
  obtain ⟨value, hvalue, hcompact⟩ := Results.exists_of_toOption_map htext
  obtain ⟨-, hagree⟩ := query_and_body_agree hrecord hflat hsuits
  rcases hagree _ .empty _ [] [] hquery hbytes with ⟨value', hget, hpost⟩ | ⟨e, e', hget, -⟩
  · obtain rfl := Except.ok.inj (hget.symm.trans hvalue)
    exact ⟨value', hget, hpost, hcompact⟩
  · rw [hvalue] at hget
    cases hget

end TypeTable
end TypedRoutes
