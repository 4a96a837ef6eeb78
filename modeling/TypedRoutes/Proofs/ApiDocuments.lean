import Mathlib.Data.List.Nodup
import TypedRoutes.OpenApi.Document
import TypedRoutes.Proofs.DocumentedParameters
import TypedRoutes.Proofs.UrlBuilding

/-!
# What a document lists

A document is a table of tables that is filled endpoint by endpoint; an operation under a path and
a method that are taken would replace the one before it.  The routes of a registry exclude that, so
the document lists every endpoint exactly once.  The parameters of an operation come from the
fields of its request type, and yet those in the path are the variables of the path.
-/

namespace TypedRoutes

/-! ## Parameters and path variables -/

theorem nodup_names_foldl_addParameter
    {found : List Parameter} (h : (found.map Parameter.name).Nodup) (parameters : List Parameter) :
    ((parameters.foldl addParameter found).map Parameter.name).Nodup := by
  refine List.foldlRecOn (motive := fun ps : List Parameter => (ps.map Parameter.name).Nodup)
    _ _ h ?_
  intro ps hps p _
  rw [addParameter]
  split
  · exact hps
  · rename_i hany
    have hfresh : p.name ∉ ps.map Parameter.name := by simpa using hany
    rw [List.map_append, List.map_singleton, ← List.concat_eq_append]
    exact List.Nodup.concat hfresh hps

theorem Path.mem_variableNames_iff
    {path name : String} :
    name ∈ variableNames path ↔ "\x7b" ++ name ++ "\x7d" ∈ segments path := by
  simp only [variableNames_eq_filterMap_segments, List.mem_filterMap, variableName?_eq_some_iff,
    exists_eq_right]

/-- Parameters of which those in the path are the given variables.  No two share a name, and a
parameter in the path is required. -/
structure ListsVariables (pathVars : List String) (parameters : List Parameter) : Prop where
  nodup : (parameters.map Parameter.name).Nodup
  mem_iff : ∀ name, (∃ p ∈ parameters, p.place = .path ∧ p.name = name) ↔ name ∈ pathVars
  required : ∀ p ∈ parameters, p.place = .path → p.required = true

/-- The parameters in the path list the variables by themselves. -/
theorem ListsVariables.filter_path
    {pathVars : List String} {parameters : List Parameter}
    (h : ListsVariables pathVars parameters) :
    ListsVariables pathVars (parameters.filter (·.place == .path)) := by
  refine ⟨?_, ?_, ?_⟩
  · exact h.nodup.sublist (List.filter_sublist.map _)
  · intro name
    rw [← h.mem_iff name]
    simp [and_assoc]
  · intro p hp
    exact h.required p (List.mem_of_mem_filter hp)

namespace TypeTable

variable {types : TypeTable} {t : Ty} {pathVars : List String} {p : Parameter}

/-- A parameter is in the path if its name is a variable, whichever field it comes from; and then
it is required. -/
theorem place_of_mem_parameters
    (hp : p ∈ types.parameters t pathVars) :
    (p.place = .path ↔ p.name ∈ pathVars) ∧ (p.place = .path → p.required = true) := by
  rcases exists_isInput_or_variable hp with ⟨_, _, _, _, f, _, _, _, rfl⟩ | ⟨name, hname, rfl⟩
  · by_cases hvar : f.lookupName ∈ pathVars <;> simp [parameterOf, hvar]
  · simpa [bareParameter] using hname

theorem listsVariables_parameters (types : TypeTable) (t : Ty) (pathVars : List String) :
    ListsVariables pathVars (types.parameters t pathVars) := by
  have hnil : (([] : List Parameter).map Parameter.name).Nodup := List.nodup_nil
  refine ⟨nodup_names_foldl_addParameter hnil _, ?_, ?_⟩
  · intro name
    constructor
    · rintro ⟨p, hp, hplace, rfl⟩
      exact (place_of_mem_parameters hp).1.mp hplace
    · intro hname
      obtain ⟨p, hp, rfl⟩ : ∃ p ∈ types.parameters t pathVars, p.name = name := by
        rw [parameters, exists_name_foldl_addParameter]
        refine .inr ⟨bareParameter name, ?_, rfl⟩
        exact List.mem_append_right _ (List.mem_map_of_mem hname)
      exact ⟨p, hp, (place_of_mem_parameters hp).1.mpr hname, rfl⟩
  · intro p hp
    exact (place_of_mem_parameters hp).2

end TypeTable

/-! ## The description of one endpoint -/

/-- The key of a verb in a document. -/
def Verb.key (verb : Verb) : String :=
  Text.lowerAscii verb.name

theorem Verb.ofName?_upperAscii_key (verb : Verb) :
    ofName? (Text.upperAscii verb.key) = some verb := by
  cases verb <;> decide +kernel

theorem Verb.key_injective {x y : Verb} (h : x.key = y.key) : x = y := by
  have hx := x.ofName?_upperAscii_key
  rw [h, y.ofName?_upperAscii_key] at hx
  exact (Option.some.inj hx).symm

theorem Verb.hasBody_iff (verb : Verb) :
    verb.hasBody = true ↔ verb.key ∈ ["post", "put", "patch"] := by
  cases verb <;> decide +kernel

/-- What holds of an operation under a path and a lower-case method, whatever its request type:
each variable of the path is a path parameter, once and required, and there are no others; the
verbs that come with a body have one described and no query parameters, the others have none. -/
structure OperationDoc.Describes (path method : String) (op : OperationDoc) : Prop where
  names : (op.parameters.map Parameter.name).Nodup
  inPath : ∀ name, (∃ p ∈ op.parameters, p.place = .path ∧ p.name = name) ↔
    "\x7b" ++ name ++ "\x7d" ∈ Path.segments path
  required : ∀ p ∈ op.parameters, p.place = .path → p.required = true
  withBody : method ∈ ["post", "put", "patch"] →
    op.requestBody.isSome = true ∧ ∀ p ∈ op.parameters, p.place ≠ .query
  withoutBody : method ∉ ["post", "put", "patch"] → op.requestBody = none

variable {H : Type} {types : TypeTable}

theorem Endpoint.describes_operationDoc
    {e : Endpoint H} {t : Ty} (hvars : e.pathVars = Path.variableNames e.path)
    (hparameters : e.parameters = types.parameters t e.pathVars) :
    (e.operationDoc types).Describes e.path e.method.key := by
  have hlists : ListsVariables e.pathVars e.parameters := by
    rw [hparameters]
    exact types.listsVariables_parameters t _
  have hdoc : ListsVariables e.pathVars (e.operationDoc types).parameters := by
    rw [operationDoc]
    split
    · exact hlists.filter_path
    · exact hlists
  refine ⟨hdoc.nodup, ?_, hdoc.required, ?_, ?_⟩
  · intro name
    rw [hdoc.mem_iff, hvars, Path.mem_variableNames_iff]
  · intro hmethod
    rw [← Verb.hasBody_iff] at hmethod
    refine ⟨by simp [operationDoc, hmethod], ?_⟩
    intro p hp
    have hplace : p.place = .path := by
      simp only [operationDoc, hmethod, if_true, List.mem_filter, beq_iff_eq] at hp
      exact hp.2
    simp [hplace]
  · intro hmethod
    rw [← Verb.hasBody_iff] at hmethod
    simp [operationDoc, hmethod]

namespace ApiDocument

variable {paths : Members (Members OperationDoc)} {path method : String} {op : OperationDoc}

/-! ## The table of operations -/

/-- An operation with the path and the method that it stands under. -/
structure Entry where
  path : String
  method : String
  operation : OperationDoc

/-- The operations of a table of paths. -/
def entries (paths : Members (Members OperationDoc)) : List Entry :=
  paths.flatMap fun (path, item) => item.map fun (method, op) => ⟨path, method, op⟩

/-- The operation under a path and a lower-case method. -/
def at? (paths : Members (Members OperationDoc)) (path method : String) : Option OperationDoc :=
  (paths.find? path).bind fun item => item.find? method

/-- The paths increase, and so do the methods of each path. -/
structure InOrder (paths : Members (Members OperationDoc)) : Prop where
  outer : paths.Sorted
  inner : ∀ path item, (path, item) ∈ paths → Members.Sorted item

theorem InOrder.mem_entries_iff
    (h : InOrder paths) : ⟨path, method, op⟩ ∈ entries paths ↔ at? paths path method = some op := by
  simp only [entries, List.mem_flatMap, List.mem_map, Prod.exists, Entry.mk.injEq, at?,
    Option.bind_eq_some_iff, h.outer.find?_eq_some_iff]
  constructor
  · rintro ⟨_, item, hitem, _, _, hop, rfl, rfl, rfl⟩
    exact ⟨item, hitem, (h.inner _ item hitem).find?_eq_some_iff.mpr hop⟩
  · rintro ⟨item, hitem, hop⟩
    exact ⟨path, item, hitem, method, op, (h.inner path item hitem).find?_eq_some_iff.mp hop,
      rfl, rfl, rfl⟩

theorem InOrder.nodup_entries (h : InOrder paths) : (entries paths).Nodup := by
  rw [entries, List.nodup_flatMap]
  refine ⟨?_, ?_⟩
  · rintro ⟨path, item⟩ hitem
    refine (h.inner path item hitem).nodup.map ?_
    rintro ⟨method, op⟩ ⟨method', op'⟩ heq
    obtain ⟨-, rfl, rfl⟩ := Entry.mk.inj heq
    rfl
  · refine h.outer.imp ?_
    rintro ⟨path, item⟩ ⟨path', item'⟩ hlt entry hentry hentry'
    obtain ⟨_, _, rfl⟩ := List.mem_map.mp hentry
    obtain ⟨_, _, heq⟩ := List.mem_map.mp hentry'
    exact hlt.ne (Entry.mk.inj heq).1.symm

/-! ## One more endpoint -/

theorem InOrder.addEndpoint
    (h : InOrder paths) (e : Endpoint H) : InOrder (addEndpoint types paths e) := by
  have hitem : Members.Sorted ((paths.find? e.path).getD []) := by
    cases hfind : paths.find? e.path with
    | none => exact List.Pairwise.nil
    | some item => exact h.inner e.path item (h.outer.find?_eq_some_iff.mp hfind)
  refine ⟨h.outer.insert _ _, ?_⟩
  intro path item hmem
  rcases Members.eq_or_mem_of_mem_insert hmem with heq | hmem
  · obtain ⟨-, rfl⟩ := Prod.mk.inj heq
    exact hitem.insert _ _
  · exact h.inner path item hmem

/-- Where an endpoint stands in a document. -/
def position (e : Endpoint H) : String × String :=
  (e.path, e.method.key)

theorem at?_addEndpoint_self (e : Endpoint H) :
    at? (addEndpoint types paths e) e.path e.method.key = some (e.operationDoc types) := by
  simp only [at?, addEndpoint, Members.find?_insert_self, Option.bind_some]
  exact Members.find?_insert_self _ _ _

theorem at?_addEndpoint_of_ne
    {e : Endpoint H} (h : position e ≠ (path, method)) :
    at? (addEndpoint types paths e) path method = at? paths path method := by
  by_cases hpath : path = e.path
  · subst hpath
    have hmethod : method ≠ e.method.key := by
      rintro rfl
      exact h rfl
    simp only [at?, addEndpoint, Members.find?_insert_self, Option.bind_some]
    rw [← Verb.key, Members.find?_insert_of_ne _ _ hmethod]
    cases paths.find? e.path <;> rfl
  · simp only [at?, addEndpoint, Members.find?_insert_of_ne _ _ hpath]

/-! ## All endpoints -/

theorem inOrder_foldl_addEndpoint (endpoints : List (Endpoint H)) :
    InOrder (endpoints.foldl (addEndpoint types) []) := by
  refine List.foldlRecOn (motive := InOrder) _ _ ⟨List.Pairwise.nil, by simp⟩ ?_
  intro paths hpaths e _
  exact hpaths.addEndpoint e

/-- If no two endpoints have the same position, each is found where it stands, and nothing else
is. -/
theorem at?_foldl_addEndpoint
    {endpoints : List (Endpoint H)} (h : (endpoints.map position).Nodup) :
    at? (endpoints.foldl (addEndpoint types) []) path method = some op ↔
      ∃ e ∈ endpoints, position e = (path, method) ∧ e.operationDoc types = op := by
  induction endpoints using List.reverseRecOn with
  | nil => simp [at?, Members.find?]
  | append_singleton endpoints last ih =>
      rw [List.map_append, List.map_singleton, ← List.concat_eq_append, List.nodup_concat] at h
      have hsplit : ∀ P : Endpoint H → Prop,
          (∃ e ∈ endpoints ++ [last], P e) ↔ (∃ e ∈ endpoints, P e) ∨ P last := by
        simp [or_and_right, exists_or]
      rw [List.foldl_append, List.foldl_cons, List.foldl_nil, hsplit]
      by_cases hlast : position last = (path, method)
      · -- the last endpoint takes the place, which no other one had
        have hfresh :
            ¬∃ e ∈ endpoints, position e = (path, method) ∧ e.operationDoc types = op := by
          rintro ⟨e, he, hposition, -⟩
          exact h.1 (hlast.trans hposition.symm ▸ List.mem_map_of_mem he)
        obtain ⟨rfl, rfl⟩ := Prod.mk.inj hlast
        rw [at?_addEndpoint_self, Option.some.injEq, or_iff_right hfresh]
        exact (and_iff_right rfl).symm
      · rw [at?_addEndpoint_of_ne hlast, ih h.2, or_iff_left]
        exact fun hop => hlast hop.1

/-- The entry of an endpoint. -/
def entryOf (types : TypeTable) (e : Endpoint H) : Entry :=
  ⟨e.path, e.method.key, e.operationDoc types⟩

theorem entries_perm
    {endpoints : List (Endpoint H)} (h : (endpoints.map position).Nodup) :
    (entries (endpoints.foldl (addEndpoint types) [])).Perm (endpoints.map (entryOf types)) := by
  have horder : InOrder (endpoints.foldl (addEndpoint types) []) :=
    inOrder_foldl_addEndpoint endpoints
  have hnodup : (endpoints.map (entryOf types)).Nodup := by
    have hposition : endpoints.map position =
        (endpoints.map (entryOf types)).map fun entry => (entry.path, entry.method) := by
      rw [List.map_map]
      rfl
    rw [hposition] at h
    exact h.of_map _
  rw [List.perm_ext_iff_of_nodup horder.nodup_entries hnodup]
  rintro ⟨path, method, op⟩
  rw [horder.mem_entries_iff, at?_foldl_addEndpoint h, List.mem_map]
  simp only [position, entryOf, Prod.mk.injEq, Entry.mk.injEq, and_assoc]

end ApiDocument

/-! ## The document of a router -/

/-- Endpoints that stand apart have different positions. -/
theorem Endpoint.Apart.position_ne
    {x y : Endpoint H} (h : x.Apart y) : ApiDocument.position x ≠ ApiDocument.position y := by
  intro heq
  obtain ⟨hpath, hmethod⟩ := Prod.mk.inj heq
  have hrefl : Path.DifferOnlyInNames x.path x.path :=
    List.forall₂_same.mpr fun _ _ => .inl rfl
  rw [hpath] at hrefl
  exact h.2 (Verb.key_injective hmethod) (hpath ▸ hrefl)

namespace ApiDocument

theorem describes_of_accounted
    {calls : List (Registration H)} {endpoints : List (Endpoint H)}
    (h : Registry.Accounted types calls endpoints) {e : Endpoint H} (he : e ∈ endpoints) :
    (e.operationDoc types).Describes e.path e.method.key := by
  obtain ⟨call, _, op, _, hdeclares⟩ := h.declared e he
  exact Endpoint.describes_operationDoc hdeclares.pathVars hdeclares.parameters

/-- The document of a router that is built after any run of registrations has one operation for
each endpoint and no other.  Each is found under the path and the method of its endpoint and has
the endpoint's name for its id, and no two ids are the same.  Every operation describes the
variables of its path and, if its verb comes with one, the body. -/
theorem generate_lists_endpoints
    {calls : List (Registration H)} {router : Router H}
    (hbuild : Router.build (Registry.run types calls) = .ok router) (info : DocumentInfo) :
    (entries (generate types router info).paths).length = router.endpoints.length ∧
    (entries (generate types router info).paths).Perm (router.endpoints.map (entryOf types)) ∧
    (∀ e ∈ router.endpoints, ∃ op,
      (generate types router info).operation? e.path e.method.name = some op ∧
        op.operationId = e.name) ∧
    ((entries (generate types router info).paths).map (·.operation.operationId)).Nodup ∧
    ∀ entry ∈ entries (generate types router info).paths,
      entry.operation.Describes entry.path entry.method := by
  have haccounted := Registry.run_accounted types calls
  rw [← (Router.routes_of_build hbuild).1] at haccounted
  have hpositions : (router.endpoints.map position).Nodup := by
    rw [List.Nodup, List.pairwise_map]
    exact haccounted.distinct.imp Endpoint.Apart.position_ne
  have hperm : (entries (generate types router info).paths).Perm
      (router.endpoints.map (entryOf types)) := entries_perm hpositions
  refine ⟨?_, hperm, ?_, ?_, ?_⟩
  · rw [hperm.length_eq, List.length_map]
  · intro e he
    exact ⟨e.operationDoc types, (at?_foldl_addEndpoint hpositions).mpr ⟨e, he, rfl, rfl⟩, rfl⟩
  · rw [(hperm.map _).nodup_iff, List.map_map]
    exact Registry.nodup_names haccounted.distinct
  · intro entry hentry
    obtain ⟨e, he, rfl⟩ := List.mem_map.mp (hperm.mem_iff.mp hentry)
    exact describes_of_accounted haccounted he

/-! ## Notes by id -/

/-- The request types for reading and for writing a note. -/
def noteTypes : TypeTable :=
  ⟨[("GetNote", .record ⟨"GetNote", [
      ⟨"meta", "meta", .marker, "path:\"/notes/\x7bid\x7d\" method:\"get\"", none, false, true⟩,
      TypeTable.plainField "id" (.scalar .string) false,
      TypeTable.plainField "page" (.option (.scalar (.uint .w32))) false], none⟩),
    ("PutNote", .record ⟨"PutNote", [
      ⟨"meta", "meta", .marker, "path:\"/notes/\x7bid\x7d\" method:\"put\"", none, false, true⟩,
      TypeTable.plainField "text" (.scalar .string) false], none⟩)]⟩

/-- The registration of both operations; the second call is refused, as its route is taken. -/
def noteCalls : List (Registration Unit) :=
  [⟨"/api", "Notes", [⟨"Get", .named "GetNote", .unit, ()⟩, ⟨"Put", .named "PutNote", .unit, ()⟩]⟩,
    ⟨"api/", "Archive", [⟨"Put", .named "PutNote", .unit, ()⟩]⟩]

/-- Reading and writing share a path, and neither replaces the other. -/
theorem generate_lists_endpoints_notes :
    ∃ router, Router.build (Registry.run noteTypes noteCalls) = .ok router ∧
      (entries (generate noteTypes router .default).paths).length = 2 ∧
      ∃ op, (generate noteTypes router .default).operation? "/api/notes/\x7bid\x7d" "PUT" =
        some op ∧ op.operationId = "Notes.Put" := by
  have hok : (Router.build (Registry.run noteTypes noteCalls)).isOk = true := by decide +kernel
  cases hbuild : Router.build (Registry.run noteTypes noteCalls) with
  | error fault =>
      rw [hbuild] at hok
      cases hok
  | ok router =>
      have hendpoints : router.endpoints.map (fun e => (e.name, e.method, e.path)) =
          [("Notes.Get", .get, "/api/notes/\x7bid\x7d"),
            ("Notes.Put", .put, "/api/notes/\x7bid\x7d")] := by
        rw [(Router.routes_of_build hbuild).1]
        decide +kernel
      obtain ⟨hlength, -, hfound, -⟩ := generate_lists_endpoints hbuild .default
      refine ⟨router, rfl, ?_, ?_⟩
      · rw [hlength, ← List.length_map (f := fun e => (e.name, e.method, e.path)), hendpoints]
        rfl
      · have hmem : ("Notes.Put", Verb.put, "/api/notes/\x7bid\x7d") ∈
            router.endpoints.map (fun e => (e.name, e.method, e.path)) := by
          simp [hendpoints]
        obtain ⟨e, he, heq⟩ := List.mem_map.mp hmem
        simp only [Prod.mk.injEq] at heq
        obtain ⟨op, hop, hid⟩ := hfound e he
        rw [heq.2.1, heq.2.2] at hop
        exact ⟨op, hop, hid.trans heq.1⟩

end ApiDocument
end TypedRoutes
