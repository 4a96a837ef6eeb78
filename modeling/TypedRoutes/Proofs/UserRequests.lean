import TypedRoutes.Proofs.CallStages
import TypedRoutes.Proofs.FlatRequests
import TypedRoutes.Proofs.ValidationReach
import TypedRoutes.Users.Api

/-!
# What calls of the users API ask for

Each operation of the API is carried out as a command, if all inputs of the call are accepted.  This
module says for which inputs that is so and which command they give.
-/

namespace TypedRoutes

/-- Values are accepted where the fields have no rules and are no records. -/
theorem TypeTable.validate_of_no_rules
    {types : TypeTable} {t : Ty}
    (h : ∀ f ∈ types.fields t, f.attributes.rules = [] ∧ types.record? f.type = none)
    (value : Json) : types.validate t value = .ok () := by
  rw [validate]
  by_cases hobject : ∃ members, value = .object members
  · obtain ⟨members, rfl⟩ := hobject
    refine validateAt_object_eq_ok_iff.mpr fun f hf => .inr ⟨?_, ?_⟩
    · simp [(h f hf).1]
    · simp [(h f hf).2]
  · exact validateAt_of_no_object fun members hmembers => hobject ⟨members, hmembers⟩

namespace UsersApi

/-- A command as the action of a handler. -/
def Command.act (command : Command) : Action UserStore :=
  fun _ _ store => command.run store

theorem decode_handler_eq_ok_iff
    {command? : Json → Option Command} {value : Json} {action : Action UserStore} :
    (handler command?).decode value = .ok action ↔
      ∃ command, command? value = some command ∧ action = command.act := by
  simp only [handler]
  cases hcommand : command? value with
  | none => simp
  | some command =>
      constructor
      · intro h
        exact ⟨command, rfl, (Except.ok.inj h).symm⟩
      · rintro ⟨_, hsame, rfl⟩
        obtain rfl := Option.some.inj hsame
        rfl

variable {router : Router (Handler UserStore)} {request : Call}
  {r : RouteMatch (Handler UserStore)} {action : Action UserStore}

/-! ## The operation that a call is matched with -/

theorem build_of_router
    (hrouter : UsersApi.router "/api" = .ok router) :
    Router.build (Registry.run types [⟨"/api", controller⟩]) = .ok router := by
  obtain ⟨registry, hregister, hbuild⟩ := Results.bind_eq_ok_iff.mp hrouter
  rw [Registry.run, List.foldl_cons, List.foldl_nil, Registry.attempt, hregister]
  exact hbuild

/-- A matched endpoint was declared by one of the operations. -/
theorem exists_operation
    (hrouter : UsersApi.router "/api" = .ok router)
    (hroute : router.route request.method request.path = some r) :
    ∃ op ∈ controller.operations, r.endpoint.Declares types "/api" "Users" op ∧
      r.endpoint.name = handlerName "Users" op.name := by
  have hbuild := build_of_router hrouter
  obtain ⟨hmem, -, -⟩ := Router.declares_of_route hbuild hroute
  rw [(Router.routes_of_build hbuild).1] at hmem
  obtain ⟨call, ⟨before, after, hcalls, -⟩, op, hop, hdeclares⟩ :=
    (Registry.run_accounted types [⟨"/api", controller⟩]).declared _ hmem
  have hcall : call ∈ [(⟨"/api", controller⟩ : Registration (Handler UserStore))] := by
    simp [hcalls]
  obtain rfl := List.mem_singleton.mp hcall
  refine ⟨op, List.mem_of_mem_filter hop, hdeclares, ?_⟩
  rw [Endpoint.name, hdeclares.controller, hdeclares.operation]
  rfl

/-- It is the operation of its name. -/
theorem declares_of_name
    (hrouter : UsersApi.router "/api" = .ok router)
    (hroute : router.route request.method request.path = some r)
    {op : Operation (Handler UserStore)} (hop : op ∈ controller.operations)
    (hname : r.endpoint.name = handlerName "Users" op.name) :
    r.endpoint.Declares types "/api" "Users" op := by
  obtain ⟨declared, hdeclared, hdeclares, hname'⟩ := exists_operation hrouter hroute
  have hnodup : (controller.operations.map Operation.name).Nodup := by decide
  have hsame : declared.name = op.name := by simpa [handlerName] using hname'.symm.trans hname
  rwa [← List.inj_on_of_nodup_map hnodup hdeclared hop hsame]

theorem name_of_route
    (hrouter : UsersApi.router "/api" = .ok router)
    (hroute : router.route request.method request.path = some r) :
    r.endpoint.name ∈ ["Users.List", "Users.Get", "Users.Create", "Users.Delete"] := by
  obtain ⟨op, hop, -, hname⟩ := exists_operation hrouter hroute
  have hnames : controller.operations.map (fun op => handlerName "Users" op.name) =
      ["Users.List", "Users.Get", "Users.Create", "Users.Delete"] := by decide
  rw [← hnames, hname]
  exact List.mem_map_of_mem hop

/-- The method of a matched call, and what the variables of the path are bound to. -/
theorem pathParams_of_route
    (hrouter : UsersApi.router "/api" = .ok router)
    (hroute : router.route request.method request.path = some r)
    {op : Operation (Handler UserStore)} (hdeclares : r.endpoint.Declares types "/api" "Users" op)
    {method : String} {vars : List String}
    (hmeta : (types.routeMeta op.request).toOption.map (fun info =>
      (info.method, Path.variableNames (Path.join "/api" info.path))) = some (method, vars)) :
    request.method = method ∧
      ∃ texts, texts.length = vars.length ∧ r.pathParams = vars.zip texts := by
  have hbuild := build_of_router hrouter
  obtain ⟨-, ⟨hserves, -⟩, -⟩ := Router.declares_of_route hbuild hroute
  obtain ⟨-, texts, htexts, hparams⟩ := Router.isChoice_of_route hbuild hroute
  have hlength := htexts.length_texts
  rw [hdeclares.routeMeta] at hmeta
  obtain ⟨hmethod, hvars⟩ := Prod.mk.inj (Option.some.inj hmeta)
  rw [← hdeclares.path] at hvars
  rw [hvars] at hlength hparams
  refine ⟨?_, texts.map Pattern.decodeSegment, by simp [hlength], hparams⟩
  rw [← hserves, hdeclares.method, hmethod]

/-! ## Looking up and deleting a user -/

/-- The number that the path of a call gives to a user, where it is taken for one. -/
def pathId? (r : RouteMatch (Handler UserStore)) : Option UInt64 :=
  (Query.nat? ⟨r.pathParams⟩ 64 "id").bind word?

/-- The number of a user, as a field of a request. -/
def idField : VisibleField :=
  ⟨"id", "id", idType, Attributes.completed "", none, false, none⟩

theorem holdsNat_idField : types.HoldsNat 64 idField where
  shape := rfl
  present := rfl
  lookupName := by decide
  group := rfl

theorem natMember?_eq_some_iff
    {value : Json} {name : String} {n : Nat} :
    natMember? value name = some n ↔ value.member? name = some (.int n) := by
  rw [natMember?]
  split
  · rename_i m hm
    rw [hm]
    cases m with
    | ofNat m =>
        simp only [Int.toNat?, Option.some.injEq, Json.int.injEq, Int.ofNat_eq_natCast,
          Int.ofNat_inj]
    | negSucc m => simp [Int.toNat?]
  · rename_i hother
    constructor
    · simp
    · intro h
      exact absurd h (hother _)

theorem word?_eq_some_iff {n : Nat} {word : UInt64} : word? n = some word ↔ n = word.toNat := by
  rw [word?]
  split
  · rename_i h
    rw [Option.some_inj, ← UInt64.toNat_inj, UInt64.toNat_ofNatLT]
  · rename_i h
    constructor
    · intro hnone
      cases hnone
    · rintro rfl
      exact absurd word.toNat_lt_size h

theorem bind_word?_eq_some_iff {n? : Option Nat} {word : UInt64} :
    n?.bind word? = some word ↔ n? = some word.toNat := by
  simp only [Option.bind_eq_some_iff, word?_eq_some_iff, exists_eq_right]

theorem wordMember?_eq_some_iff
    {value : Json} {name : String} {word : UInt64} :
    wordMember? value name = some word ↔ value.member? name = some (.int word.toNat) :=
  bind_word?_eq_some_iff.trans natMember?_eq_some_iff

/-- An operation whose request has only a number, which the path gives, is prepared if the inputs
that its method reads are accepted and the path has a number. -/
theorem prepare_numbered_eq_ok_iff
    (verb : Verb) (hrouter : UsersApi.router "/api" = .ok router)
    (hroute : router.route request.method request.path = some r)
    {op : Operation (Handler UserStore)} (hdeclares : r.endpoint.Declares types "/api" "Users" op)
    {make : UInt64 → Command}
    (hhandler : op.handler = handler fun value => do return make (← wordMember? value "id"))
    (hfields : types.fields op.request = [idField])
    (hmeta : (types.routeMeta op.request).toOption.map (fun info =>
      (info.method, Path.variableNames (Path.join "/api" info.path))) = some (verb.name, ["id"])) :
    (dispatcher router).prepare r.endpoint request.method
        ⟨request.query, request.body, r.pathParams⟩ = .ok action ↔
      (verb.readsQuery = true → request.query.AcceptsNat 64 "id") ∧
      (verb.readsBody = true → BodyAcceptsNat request.body 64 "id") ∧
      ∃ id, pathId? r = some id ∧ action = (make id).act := by
  obtain ⟨hmethod, texts, hlength, hparams⟩ := pathParams_of_route hrouter hroute hdeclares hmeta
  obtain ⟨text, rfl⟩ := List.length_eq_one_iff.mp hlength
  have htext : (⟨r.pathParams⟩ : Query).last? idField.wireName = some text := by
    simp [hparams, Query.last?, idField]
  have hpath : ∀ id, pathId? r = some id ↔ (Json.string text).natOf? 64 = some id.toNat := by
    intro id
    have htext' : (⟨r.pathParams⟩ : Query).last? "id" = some text := htext
    rw [pathId?, bind_word?_eq_some_iff, Query.nat?, htext', Option.bind_some]
  have hvalue := holdsNat_idField.exists_requestValue_iff hfields
    (Verb.ofName?_eq_some_iff.mpr hmethod)
    (show Query.last? ⟨(⟨request.query, request.body, r.pathParams⟩ : CallInput).pathParams⟩ _ = _
      from htext)
  have hvalid : ∀ value, types.validate op.request value = .ok () :=
    TypeTable.validate_of_no_rules (by rw [hfields]; decide)
  simp only [Dispatcher.prepare_eq_ok_iff, Dispatcher.valueOf, dispatcher, hdeclares.request,
    hdeclares.handler, hhandler, hvalid, decode_handler_eq_ok_iff, Option.bind_eq_bind,
    Option.bind_eq_some_iff, Option.pure_def, Option.some.injEq, hpath]
  constructor
  · rintro ⟨value, hbuilt, ⟨_, ⟨id, hid, rfl⟩, rfl⟩, -⟩
    obtain ⟨hquery, hbody, hnat⟩ :=
      (hvalue id.toNat).mp ⟨value, hbuilt, wordMember?_eq_some_iff.mp hid⟩
    exact ⟨hquery, hbody, id, hnat, rfl⟩
  · rintro ⟨hquery, hbody, id, hnat, rfl⟩
    obtain ⟨value, hbuilt, hmember⟩ := (hvalue id.toNat).mpr ⟨hquery, hbody, hnat⟩
    exact ⟨value, hbuilt, ⟨_, ⟨id, wordMember?_eq_some_iff.mpr hmember, rfl⟩, rfl⟩, trivial⟩

theorem prepare_get_eq_ok_iff
    (hrouter : UsersApi.router "/api" = .ok router)
    (hroute : router.route request.method request.path = some r)
    (hname : r.endpoint.name = "Users.Get") :
    (dispatcher router).prepare r.endpoint request.method
        ⟨request.query, request.body, r.pathParams⟩ = .ok action ↔
      request.query.AcceptsNat 64 "id" ∧
        ∃ id, pathId? r = some id ∧ action = (Command.get id).act := by
  have hdeclares : r.endpoint.Declares types "/api" "Users"
      ⟨"Get", .named "GetUserReq", .named "User", handler fun value => do
        return .get (← wordMember? value "id")⟩ :=
    declares_of_name hrouter hroute (by simp [controller]) (hname.trans (by decide))
  refine (prepare_numbered_eq_ok_iff .get hrouter hroute hdeclares rfl (by decide)
    (by decide)).trans ?_
  simp [Verb.readsQuery, Verb.readsBody]

theorem prepare_delete_eq_ok_iff
    (hrouter : UsersApi.router "/api" = .ok router)
    (hroute : router.route request.method request.path = some r)
    (hname : r.endpoint.name = "Users.Delete") :
    (dispatcher router).prepare r.endpoint request.method
        ⟨request.query, request.body, r.pathParams⟩ = .ok action ↔
      request.query.AcceptsNat 64 "id" ∧ BodyAcceptsNat request.body 64 "id" ∧
        ∃ id, pathId? r = some id ∧ action = (Command.delete id).act := by
  have hdeclares : r.endpoint.Declares types "/api" "Users"
      ⟨"Delete", .named "DeleteUserReq", .unit, handler fun value => do
        return .delete (← wordMember? value "id")⟩ :=
    declares_of_name hrouter hroute (by simp [controller]) (hname.trans (by decide))
  refine (prepare_numbered_eq_ok_iff .delete hrouter hroute hdeclares rfl (by decide)
    (by decide)).trans ?_
  simp [Verb.readsQuery, Verb.readsBody]

/-! ## Listing users -/

/-- The name filter of a listing, as a field of a request. -/
def nameFilter : VisibleField :=
  ⟨"name", "name", .scalar .string, Attributes.completed "",
    some "Exact name filter; empty lists everyone", false, none⟩

/-- The age filter of a listing, as a field of a request. -/
def ageFilter : VisibleField :=
  ⟨"age", "age", .option ageType, Attributes.completed "dc:\"Only users of this age\"", none, false,
    none⟩

theorem isFlat_filters : types.IsFlat [nameFilter, ageFilter] where
  record := by decide
  group := by decide
  nodup := by decide

theorem leafValue?_nameFilter
    (query : Query) :
    types.leafValue? maxDepth query nameFilter = .ok ((query.last? "name").map .string) := by
  have hname : nameFilter.lookupName = "name" := by decide
  rw [TypeTable.leafValue?_text rfl, hname]

theorem leafValue?_ageFilter_eq_ok_iff
    {query : Query} {given : Option Json} :
    types.leafValue? maxDepth query ageFilter = .ok given ↔
      query.AcceptsNat 32 "age" ∧ given = (query.nat? 32 "age").map fun n => .int n := by
  have hname : ageFilter.lookupName = "age" := by decide
  have hshape : types.shape ageFilter.target = .int false 32 := rfl
  rw [TypeTable.leafValue?_nat_eq_ok_iff hshape, hname]

/-- The filters of a listing that a query gives. -/
theorem filters_of_requestValue
    {query : Query} {bytes : List UInt8} {value : Json}
    (h : types.requestValue (.named "ListUsersReq") "GET" ⟨query, bytes, []⟩ = .ok value) :
    textMember? value "name" = some ((query.last? "name").getD "") ∧
      natMember? value "age" = query.nat? 32 "age" := by
  have hfields : types.fields (.named "ListUsersReq") = [nameFilter, ageFilter] := by
    decide
  obtain ⟨name, hname, hmember⟩ : ∃ given, types.leafValue? maxDepth query nameFilter = .ok given ∧
      value.member? "name" = some (given.getD (.string "")) :=
    isFlat_filters.member?_of_requestValue_get hfields h (by simp)
  obtain ⟨age, hage, hmember'⟩ : ∃ given, types.leafValue? maxDepth query ageFilter = .ok given ∧
      value.member? "age" = some (given.getD .null) :=
    isFlat_filters.member?_of_requestValue_get hfields h (by simp)
  obtain rfl := Except.ok.inj ((leafValue?_nameFilter query).symm.trans hname)
  obtain ⟨-, rfl⟩ := leafValue?_ageFilter_eq_ok_iff.mp hage
  constructor
  · rw [textMember?, hmember]
    cases query.last? "name" <;> rfl
  · rw [natMember?, hmember']
    cases query.nat? 32 "age" with
    | none => rfl
    | some n => simp [Int.toNat?]

theorem prepare_list_eq_ok_iff
    (hrouter : UsersApi.router "/api" = .ok router)
    (hroute : router.route request.method request.path = some r)
    (hname : r.endpoint.name = "Users.List") :
    (dispatcher router).prepare r.endpoint request.method
        ⟨request.query, request.body, r.pathParams⟩ = .ok action ↔
      request.query.AcceptsNat 32 "age" ∧
        action = (Command.list ((request.query.last? "name").getD "")
          (request.query.nat? 32 "age")).act := by
  have hdeclares : r.endpoint.Declares types "/api" "Users"
      ⟨"List", .named "ListUsersReq", .named "ListUsersRes", handler fun value => do
        return .list (← textMember? value "name") (natMember? value "age")⟩ :=
    declares_of_name hrouter hroute (by simp [controller]) (hname.trans (by decide))
  have hmeta : (types.routeMeta (.named "ListUsersReq")).toOption.map (fun info =>
      (info.method, Path.variableNames (Path.join "/api" info.path))) = some ("GET", []) := by
    decide +kernel
  obtain ⟨hmethod, texts, hlength, hparams⟩ := pathParams_of_route hrouter hroute hdeclares hmeta
  obtain rfl := List.length_eq_zero_iff.mp hlength
  have hfields : types.fields (.named "ListUsersReq") = [nameFilter, ageFilter] := by
    decide
  have hvalid : ∀ value, types.validate (.named "ListUsersReq") value = .ok () :=
    TypeTable.validate_of_no_rules (by rw [hfields]; decide)
  have haccepts : (∃ value, types.requestValue _ "GET" ⟨request.query, request.body, []⟩ =
      .ok value) ↔ _ := isFlat_filters.exists_requestValue_get_iff hfields request.body
  simp only [List.mem_cons, List.not_mem_nil, or_false, forall_eq_or_imp, forall_eq,
    leafValue?_nameFilter, leafValue?_ageFilter_eq_ok_iff] at haccepts
  rw [Dispatcher.prepare_eq_ok_iff]
  simp only [Dispatcher.valueOf, dispatcher, hdeclares.request, hdeclares.handler, hvalid,
    decode_handler_eq_ok_iff, hmethod, hparams, List.zip_nil_left]
  constructor
  · rintro ⟨value, hbuilt, ⟨command, hcommand, rfl⟩, -⟩
    obtain ⟨hnameMember, hageMember⟩ := filters_of_requestValue hbuilt
    obtain ⟨-, given, hage, -⟩ := haccepts.mp ⟨value, hbuilt⟩
    obtain rfl : Command.list _ _ = command := by simpa [hnameMember, hageMember] using hcommand
    exact ⟨hage, rfl⟩
  · rintro ⟨hage, rfl⟩
    obtain ⟨value, hbuilt⟩ := haccepts.mpr ⟨⟨_, rfl⟩, _, hage, rfl⟩
    obtain ⟨hnameMember, hageMember⟩ := filters_of_requestValue hbuilt
    exact ⟨value, hbuilt, ⟨_, by simp [hnameMember, hageMember], rfl⟩, trivial⟩

/-! ## The command of a call -/

/-- A matched call has a command: what the operation of its route does with the inputs that it
takes.  A new user has the name and the age of the request value. -/
inductive Asks (router : Router (Handler UserStore)) (request : Call)
    (r : RouteMatch (Handler UserStore)) : Command → Prop
  | list (hname : r.endpoint.name = "Users.List")
      (hage : request.query.AcceptsNat 32 "age") :
      Asks router request r
        (.list ((request.query.last? "name").getD "") (request.query.nat? 32 "age"))
  | get {id : UInt64} (hname : r.endpoint.name = "Users.Get")
      (hquery : request.query.AcceptsNat 64 "id") (hpath : pathId? r = some id) :
      Asks router request r (.get id)
  | create {value : Json} {name : String} {age : Nat} (hname : r.endpoint.name = "Users.Create")
      (hvalue : (dispatcher router).valueOf request r = .ok value)
      (hvalid : types.validate (.named "CreateUserReq") value = .ok ())
      (hnameMember : textMember? value "name" = some name)
      (hageMember : natMember? value "age" = some age) :
      Asks router request r (.create name age)
  | delete {id : UInt64} (hname : r.endpoint.name = "Users.Delete")
      (hquery : request.query.AcceptsNat 64 "id")
      (hbody : BodyAcceptsNat request.body 64 "id") (hpath : pathId? r = some id) :
      Asks router request r (.delete id)

theorem prepare_create_eq_ok_iff
    (hrouter : UsersApi.router "/api" = .ok router)
    (hroute : router.route request.method request.path = some r)
    (hname : r.endpoint.name = "Users.Create") :
    (dispatcher router).prepare r.endpoint request.method
        ⟨request.query, request.body, r.pathParams⟩ = .ok action ↔
      ∃ value name age, (dispatcher router).valueOf request r = .ok value ∧
        types.validate (.named "CreateUserReq") value = .ok () ∧
        textMember? value "name" = some name ∧ natMember? value "age" = some age ∧
        action = (Command.create name age).act := by
  have hdeclares : r.endpoint.Declares types "/api" "Users"
      ⟨"Create", .named "CreateUserReq", .named "CreateUserRes", handler fun value => do
        return .create (← textMember? value "name") (← natMember? value "age")⟩ :=
    declares_of_name hrouter hroute (by simp [controller]) (hname.trans (by decide))
  have hvalidate : (dispatcher router).validate r.endpoint.request =
      types.validate (.named "CreateUserReq") := by rw [hdeclares.request]; rfl
  rw [Dispatcher.prepare_eq_ok_iff]
  simp only [hdeclares.handler, hvalidate, decode_handler_eq_ok_iff, Option.bind_eq_bind,
    Option.bind_eq_some_iff, Option.pure_def, Option.some.injEq]
  constructor
  · rintro ⟨value, hvalue, ⟨_, ⟨name, hnameMember, age, hageMember, rfl⟩, rfl⟩, hvalid⟩
    exact ⟨value, name, age, hvalue, hvalid, hnameMember, hageMember, rfl⟩
  · rintro ⟨value, name, age, hvalue, hvalid, hnameMember, hageMember, rfl⟩
    exact ⟨value, hvalue, ⟨_, ⟨name, hnameMember, age, hageMember, rfl⟩, rfl⟩, hvalid⟩

/-- A matched call is prepared exactly if it has a command, which is what its handler carries
out. -/
theorem prepare_eq_ok_iff_asks
    (hrouter : UsersApi.router "/api" = .ok router)
    (hroute : router.route request.method request.path = some r) :
    (dispatcher router).prepare r.endpoint request.method
        ⟨request.query, request.body, r.pathParams⟩ = .ok action ↔
      ∃ command, Asks router request r command ∧ action = command.act := by
  constructor
  · intro h
    have hname := name_of_route hrouter hroute
    simp only [List.mem_cons, List.not_mem_nil, or_false] at hname
    rcases hname with hname | hname | hname | hname
    · obtain ⟨hage, rfl⟩ := (prepare_list_eq_ok_iff hrouter hroute hname).mp h
      exact ⟨_, .list hname hage, rfl⟩
    · obtain ⟨hquery, id, hpath, rfl⟩ := (prepare_get_eq_ok_iff hrouter hroute hname).mp h
      exact ⟨_, .get hname hquery hpath, rfl⟩
    · obtain ⟨value, name, age, hvalue, hvalid, hnameMember, hageMember, rfl⟩ :=
        (prepare_create_eq_ok_iff hrouter hroute hname).mp h
      exact ⟨_, .create hname hvalue hvalid hnameMember hageMember, rfl⟩
    · obtain ⟨hquery, hbody, id, hpath, rfl⟩ :=
        (prepare_delete_eq_ok_iff hrouter hroute hname).mp h
      exact ⟨_, .delete hname hquery hbody hpath, rfl⟩
  · rintro ⟨command, hasks, rfl⟩
    cases hasks with
    | list hname hage => exact (prepare_list_eq_ok_iff hrouter hroute hname).mpr ⟨hage, rfl⟩
    | get hname hquery hpath =>
        exact (prepare_get_eq_ok_iff hrouter hroute hname).mpr ⟨hquery, _, hpath, rfl⟩
    | create hname hvalue hvalid hnameMember hageMember =>
        exact (prepare_create_eq_ok_iff hrouter hroute hname).mpr
          ⟨_, _, _, hvalue, hvalid, hnameMember, hageMember, rfl⟩
    | delete hname hquery hbody hpath =>
        exact (prepare_delete_eq_ok_iff hrouter hroute hname).mpr
          ⟨hquery, hbody, _, hpath, rfl⟩

end UsersApi
end TypedRoutes
