import Mathlib.Data.List.Induction
import TypedRoutes.Proofs.CallSequences
import TypedRoutes.Proofs.UserRequests
import TypedRoutes.Proofs.Words

/-!
# The users after a run

Calls create and delete users, and which users there are can be told from the calls and their
answers alone.  After every run from the empty store, the next answer agrees with this history: a
new user gets the next number, a listing has exactly the users that stand, and one of them is found
and deleted by its number.

Numbers are 64-bit words.  Up to `2 ^ 64` users have distinct numbers; then numbers are given again,
and the users who have them no longer stand.
-/

namespace TypedRoutes
namespace UsersApi

/-! ## Histories -/

/-- What a call changed about the users. -/
inductive Change
  | created (user : User)
  | deleted (id : UInt64)
  deriving DecidableEq

/-- The user that was created, if one was. -/
def Change.user? : Change → Option User
  | .created user => some user
  | .deleted _ => none

/-- The number that a change is about. -/
def Change.id : Change → UInt64
  | .created user => user.id
  | .deleted id => id

/-- The users that were created, in order. -/
def created (changes : List Change) : List User :=
  changes.filterMap Change.user?

/-- A user was created, and the number was neither deleted nor given again since. -/
def Stands (changes : List Change) (user : User) : Prop :=
  ∃ before after, changes = before ++ .created user :: after ∧ ∀ change ∈ after, change.id ≠ user.id

/-- A user was created, and not deleted since. -/
def Remains (changes : List Change) (user : User) : Prop :=
  ∃ before after, changes = before ++ .created user :: after ∧ .deleted user.id ∉ after

/-- The user that an object stands for. -/
def userOf? (data : Json) : Option User := do
  return ⟨← wordMember? data "id", ← textMember? data "name", ← natMember? data "age"⟩

/-- The change that a call made, as its answer tells: a success of the operation that creates users
created the user that is answered, and one of the operation that deletes users deleted the one that
the path names. -/
def change? (router : Router (Handler UserStore)) (exchange : Call × Response) : Option Change :=
  match router.route exchange.1.method exchange.1.path with
  | some r =>
    if exchange.2.code? = some ErrorCode.ok.code then
      if r.endpoint.name = "Users.Create" then
        ((exchange.2.body.member? "data").bind userOf?).map .created
      else if r.endpoint.name = "Users.Delete" then
        (pathId? r).map .deleted
      else none
    else none
  | none => none

theorem userOf?_userJson (u : User) : userOf? (userJson u) = some u := by
  have hid : wordMember? (userJson u) "id" = some u.id :=
    wordMember?_eq_some_iff.mpr (by rfl)
  have hname : textMember? (userJson u) "name" = some u.name := rfl
  have hage : natMember? (userJson u) "age" = some u.age :=
    natMember?_eq_some_iff.mpr (by rfl)
  simp [userOf?, hid, hname, hage]

/-- After one more change those users stand whose number it is not about, and the one that it
created. -/
theorem stands_concat
    {changes : List Change} {change : Change} {v : User} :
    Stands (changes ++ [change]) v ↔
      (Stands changes v ∧ v.id ≠ change.id) ∨ change = .created v := by
  constructor
  · rintro ⟨before, after, hchanges, hafter⟩
    rcases List.eq_nil_or_concat after with rfl | ⟨after, last, rfl⟩
    · have hlast := (List.append_inj' hchanges rfl).2
      exact .inr (by simpa using hlast)
    · rw [List.concat_eq_append, ← List.cons_append, ← List.append_assoc] at hchanges
      obtain ⟨rfl, hlast⟩ := List.append_inj' hchanges rfl
      obtain rfl : change = last := by simpa using hlast
      simp only [List.concat_eq_append, List.forall_mem_append, List.forall_mem_singleton] at hafter
      exact .inl ⟨⟨before, after, rfl, hafter.1⟩, hafter.2.symm⟩
  · rintro (⟨⟨before, after, rfl, hafter⟩, hne⟩ | rfl)
    · refine ⟨before, after ++ [change], by simp, ?_⟩
      simpa only [List.forall_mem_append, List.forall_mem_singleton] using ⟨hafter, hne.symm⟩
    · exact ⟨changes, [], rfl, by simp⟩

/-- A user stands exactly as long as it remains, where no number is given twice. -/
theorem stands_iff_remains
    {changes : List Change} (h : ((created changes).map User.id).Nodup) (u : User) :
    Stands changes u ↔ Remains changes u := by
  refine exists_congr fun before => exists_congr fun after => and_congr_right ?_
  rintro rfl
  constructor
  · exact fun hafter hmem => hafter _ hmem rfl
  · intro hafter change hchange hid
    cases change with
    | created v =>
        simp only [created, Change.user?, List.filterMap_append, List.filterMap_cons,
          List.map_append, List.map_cons] at h
        refine (List.nodup_cons.mp (List.nodup_append.mp h).2.1).1 ?_
        exact List.mem_map.mpr ⟨v, List.mem_filterMap.mpr ⟨_, hchange, rfl⟩, hid⟩
    | deleted id =>
        obtain rfl : id = u.id := hid
        exact hafter hchange

/-! ## Stores and histories -/

/-- A new user stands between those of smaller and those of larger numbers. -/
theorem place_eq
    {users : List User} (h : users.Pairwise fun u v => u.id < v.id) (user : User) :
    UserStore.place user users =
      users.filter (·.id < user.id) ++ user :: users.filter (user.id < ·.id) := by
  induction users with
  | nil => rfl
  | cons head rest ih =>
      obtain ⟨hhead, hrest⟩ := List.pairwise_cons.mp h
      rw [UserStore.place]
      split
      · rename_i hlt
        have hge : ¬user.id < head.id := UInt64.not_lt.mpr (UInt64.le_of_lt hlt)
        rw [ih hrest, List.filter_cons, List.filter_cons]
        simp [hlt, hge]
      · rename_i hge
        have hle : user.id ≤ head.id := UInt64.not_lt.mp hge
        have hlarger : ∀ v ∈ rest, user.id < v.id :=
          fun v hv => UInt64.lt_of_le_of_lt hle (hhead v hv)
        have hsmaller : rest.filter (·.id < user.id) = [] := by
          rw [List.filter_eq_nil_iff]
          exact fun v hv => by simpa using UInt64.le_of_lt (hlarger v hv)
        have hrest : rest.filter (user.id < ·.id) = rest := by
          rw [List.filter_eq_self]
          exact fun v hv => decide_eq_true (hlarger v hv)
        rw [List.filter_cons, List.filter_cons, hsmaller, hrest]
        split
        · rename_i heq
          simp [heq]
        · rename_i hne
          have hlt : user.id < head.id := UInt64.lt_of_le_of_ne hle (Ne.symm hne)
          simp [hge, hlt]

theorem pairwise_place
    {users : List User} (h : users.Pairwise fun u v => u.id < v.id) (user : User) :
    (UserStore.place user users).Pairwise fun u v => u.id < v.id := by
  rw [place_eq h]
  refine List.pairwise_append.mpr ⟨h.filter _, List.pairwise_cons.mpr ⟨?_, h.filter _⟩, ?_⟩
  · exact fun v hv => of_decide_eq_true (List.mem_filter.mp hv).2
  · intro u hu v hv
    have hlt : u.id < user.id := of_decide_eq_true (List.mem_filter.mp hu).2
    rcases List.mem_cons.mp hv with rfl | hv
    · exact hlt
    · exact UInt64.lt_trans hlt (of_decide_eq_true (List.mem_filter.mp hv).2)

/-- Of the users before those are left that have other numbers. -/
theorem mem_place_iff
    {users : List User} (h : users.Pairwise fun u v => u.id < v.id) {user v : User} :
    v ∈ UserStore.place user users ↔ (v ∈ users ∧ v.id ≠ user.id) ∨ v = user := by
  have hne : v.id ≠ user.id ↔ v.id < user.id ∨ user.id < v.id := by
    rw [Ne, ← UInt64.toNat_inj, UInt64.lt_iff_toNat_lt, UInt64.lt_iff_toNat_lt]
    omega
  rw [place_eq h, List.mem_append, List.mem_cons, List.mem_filter, List.mem_filter, hne,
    decide_eq_true_iff, decide_eq_true_iff]
  tauto

/-- The store has the users that stand, in ascending order of their numbers, and the created users
were numbered from one on. -/
structure Reflects (changes : List Change) (store : UserStore) : Prop where
  numbered : (created changes).map User.id = wordsFrom 1 (created changes).length
  lastId : store.lastId = .ofNat (created changes).length
  ascending : store.users.Pairwise fun u v => u.id < v.id
  mem_users : ∀ u, u ∈ store.users ↔ Stands changes u

namespace Reflects

variable {changes : List Change} {store : UserStore}

theorem of_empty : Reflects [] .empty where
  numbered := rfl
  lastId := rfl
  ascending := .nil
  mem_users := by
    intro u
    simp [UserStore.empty, Stands]

/-- As many users as there are words have distinct numbers. -/
theorem nodup_ids (h : Reflects changes store) (hfew : (created changes).length ≤ 2 ^ 64) :
    ((created changes).map User.id).Nodup := by
  rw [h.numbered]
  exact nodup_wordsFrom 1 hfew

theorem toNat_next (h : Reflects changes store) :
    (store.lastId + 1).toNat = ((created changes).length + 1) % 2 ^ 64 := by
  rw [h.lastId, ← UInt64.ofNat_one, ← UInt64.ofNat_add, UInt64.toNat_ofNat']

/-- The next number is larger than all before, unless all words have been given. -/
theorem id_lt_next (h : Reflects changes store) (hfew : (created changes).length + 1 < 2 ^ 64)
    {u : User} (hu : u ∈ created changes) : u.id < store.lastId + 1 := by
  have hmem : u.id ∈ (created changes).map User.id := List.mem_map_of_mem hu
  rw [h.numbered, mem_wordsFrom] at hmem
  obtain ⟨i, hi, hid⟩ := hmem
  rw [h.lastId, ← hid, UInt64.lt_iff_toNat_lt]
  simp only [UInt64.toNat_add, UInt64.toNat_ofNat', UInt64.toNat_one]
  omega

/-- The number of the last user that was created is the last one that was given. -/
theorem next_id (h : Reflects changes store) :
    store.lastId + 1 = ((created changes).getLast?.map fun u => u.id + 1).getD 1 := by
  have hlastId := h.lastId
  have hnumbered := h.numbered
  rcases List.eq_nil_or_concat (created changes) with hnone | ⟨before, last, hcreated⟩
  · rw [hnone] at hlastId ⊢
    rw [hlastId]
    rfl
  · rw [hcreated, List.concat_eq_append, List.length_append, List.length_singleton] at hlastId
    rw [hcreated, List.concat_eq_append, List.length_append, List.length_singleton, wordsFrom_succ,
      List.map_append] at hnumbered
    have hid : [last.id] = [1 + .ofNat before.length] := (List.append_inj' hnumbered rfl).2
    rw [hcreated, List.concat_eq_append, List.getLast?_concat, Option.map_some, Option.getD_some,
      List.singleton_inj.mp hid, hlastId, UInt64.ofNat_add, UInt64.ofNat_one, UInt64.add_comm 1]

/-- A user is found by its number. -/
theorem find?_eq_some_iff (h : Reflects changes store) {id : UInt64} {u : User} :
    store.find? id = some u ↔ u ∈ store.users ∧ u.id = id := by
  have hnodup : (store.users.map User.id).Nodup := by
    rw [List.Nodup, List.pairwise_map]
    exact h.ascending.imp fun hlt => UInt64.ne_of_lt hlt
  rw [UserStore.find?]
  constructor
  · intro hfind
    exact ⟨List.mem_of_find?_eq_some hfind, by simpa using List.find?_some hfind⟩
  · rintro ⟨hu, rfl⟩
    cases hfind : store.users.find? (·.id == u.id) with
    | none => exact absurd (List.find?_eq_none.mp hfind u hu) (by simp)
    | some v =>
        have hid : v.id = u.id := by simpa using List.find?_some hfind
        rw [List.inj_on_of_nodup_map hnodup (List.mem_of_find?_eq_some hfind) hu hid]

/-- If no user has a number then none has the number of a path that gives it. -/
theorem not_named_of_find?_eq_none
    (h : Reflects changes store) {id : UInt64} (hfind : store.find? id = none)
    {path : Option UInt64} (hpath : path = some id) : ¬∃ u ∈ store.users, path = some u.id := by
  rintro ⟨u, hu, hid⟩
  obtain rfl := Option.some.inj (hpath.symm.trans hid)
  rw [h.find?_eq_some_iff.mpr ⟨hu, rfl⟩] at hfind
  cases hfind

theorem stands_iff_remains
    (h : Reflects changes store) (hfew : (created changes).length ≤ 2 ^ 64) (u : User) :
    Stands changes u ↔ Remains changes u :=
  UsersApi.stands_iff_remains (h.nodup_ids hfew) u

theorem insert (h : Reflects changes store) (name : String) (age : Nat) :
    Reflects (changes ++ [.created (store.insert name age).1]) (store.insert name age).2 := by
  have hcreated : created (changes ++ [.created (store.insert name age).1]) =
      created changes ++ [(store.insert name age).1] := List.filterMap_append
  have hlastId : (store.insert name age).2.lastId = .ofNat (created changes).length + 1 :=
    congrArg (· + 1) h.lastId
  refine ⟨?_, ?_, pairwise_place h.ascending _, fun u => ?_⟩
  · rw [hcreated, List.length_append, List.length_singleton, wordsFrom_succ, List.map_append,
      h.numbered, UInt64.add_comm 1, ← hlastId]
    rfl
  · rw [hcreated, List.length_append, List.length_singleton, hlastId, UInt64.ofNat_add,
      UInt64.ofNat_one]
  · rw [stands_concat, ← h.mem_users, Change.created.injEq, eq_comm (b := u)]
    exact mem_place_iff h.ascending

theorem erase (h : Reflects changes store) (id : UInt64) :
    Reflects (changes ++ [.deleted id]) (store.erase id) := by
  have hcreated : created (changes ++ [.deleted id]) = created changes := by
    rw [created, List.filterMap_append]
    exact List.append_nil _
  refine ⟨hcreated ▸ h.numbered, hcreated ▸ h.lastId, h.ascending.filter _, fun u => ?_⟩
  rw [stands_concat, ← h.mem_users]
  simp [UserStore.erase, Change.id]

end Reflects

/-! ## What an answer says -/

variable {router : Router (Handler UserStore)} {changes : List Change} {request : Call}
  {response : Response} {data : Json} {store next : UserStore}

/-- The call is matched with the operation of a name. -/
def Targets (router : Router (Handler UserStore)) (request : Call) (name : String)
    (r : RouteMatch (Handler UserStore)) : Prop :=
  router.route request.method request.path = some r ∧ r.endpoint.name = name

/-- The answer has the code of a success. -/
def Succeeds (response : Response) : Prop :=
  response.code? = some ErrorCode.ok.code

/-- The data of a listing. -/
def listing (users : List User) : Json :=
  .ofPairs [("users", .array (users.map userJson)), ("total", .ofNat users.length)]

/-- A user has the name that a query filters by, unless it is empty, and the age. -/
def Passes (query : Query) (user : User) : Prop :=
  (∀ name, query.last? "name" = some name → name = "" ∨ user.name = name) ∧
    ∀ age, query.nat? 32 "age" = some age → user.age = age

/-- What the answer to a call says of the users, after some changes to the empty store, and what the
call leaves behind. -/
structure Serves (router : Router (Handler UserStore)) (changes : List Change) (request : Call)
    (response : Response) (store next : UserStore) : Prop where
  stored : ∀ u, u ∈ store.users ↔ Stands changes u
  /-- Unless all words have been given, the users that stand are those that were created and not
  deleted since. -/
  stands : (created changes).length ≤ 2 ^ 64 → ∀ u, Stands changes u ↔ Remains changes u
  /-- A new user has the number after that of the user before, the first has 1, and `location` names
  it; unless all words have been given, no user had it before.  Its name and age are those of the
  request. -/
  creates : ∀ r, Targets router request "Users.Create" r → Succeeds response →
    ∃ u value, response.Reports .ok (userJson u) ∧
      u.id = ((created changes).getLast?.map fun v => v.id + 1).getD 1 ∧
      u.id.toNat = ((created changes).length + 1) % 2 ^ 64 ∧
      ((created changes).length + 1 < 2 ^ 64 → ∀ v ∈ created changes, v.id < u.id) ∧
      response.header? "location" = some ("/api/users/" ++ toString u.id) ∧
      (dispatcher router).valueOf request r = .ok value ∧
      textMember? value "name" = some u.name ∧ natMember? value "age" = some u.age ∧
      ∀ v, v ∈ next.users ↔ (v ∈ store.users ∧ v.id ≠ u.id) ∨ v = u
  /-- A listing has the users that pass its filters, in ascending order of their numbers. -/
  lists : ∀ r, Targets router request "Users.List" r →
    (Succeeds response ↔ request.query.AcceptsNat 32 "age") ∧
    (Succeeds response → ∃ users, response.Reports .ok (listing users) ∧
      (users.Pairwise fun u v => u.id < v.id) ∧
      ∀ u, u ∈ users ↔ Stands changes u ∧ Passes request.query u)
  /-- A user is found exactly by the number that is stored, where the query is accepted. -/
  finds : ∀ r, Targets router request "Users.Get" r →
    (Succeeds response ↔ request.query.AcceptsNat 64 "id" ∧
      ∃ u ∈ store.users, pathId? r = some u.id) ∧
    (Succeeds response → ∃ u ∈ store.users, pathId? r = some u.id ∧
      response.Reports .ok (userJson u))
  /-- A user is deleted exactly by the number that is stored, where the query and the body are
  accepted, and no other user is. -/
  deletes : ∀ r, Targets router request "Users.Delete" r →
    (Succeeds response ↔ request.query.AcceptsNat 64 "id" ∧ BodyAcceptsNat request.body 64 "id" ∧
      ∃ u ∈ store.users, pathId? r = some u.id) ∧
    (Succeeds response → next.lastId = store.lastId ∧
      ∀ u, u ∈ next.users ↔ u ∈ store.users ∧ pathId? r ≠ some u.id)
  /-- Failures, listings and look-ups change nothing. -/
  keeps : (¬Succeeds response ∨ ∃ r, Targets router request "Users.List" r ∨
    Targets router request "Users.Get" r) → next = store

/-- The answer to a call that was carried out, under an identifier. -/
def answerTo (outcome : Outcome) (requestId : RequestId) : Response :=
  (Response.ofResult outcome.result).setHeader "x-request-id" requestId.text

theorem reports_answerTo
    (data : Json) (headers : Headers) (requestId : RequestId) :
    (answerTo (.answered data headers) requestId).Reports .ok data :=
  (Response.reports_success data).of_eq rfl rfl

/-- The answer has the header that the handler sets. -/
theorem header?_answerTo
    {name : String} (hname : Headers.sameName "x-request-id" name = false) (data : Json)
    (value : String) (requestId : RequestId) :
    (answerTo (.answered data [(name, value)]) requestId).header? name = some value := by
  show ((Headers.setAll _ [(name, value)]).set "x-request-id" _).get? name = _
  rw [Headers.get?_set_of_not_sameName hname]
  exact Headers.get?_set ..

theorem succeeds_of_reports (h : response.Reports .ok data) : Succeeds response :=
  h.code?_eq_ok_iff.mpr rfl

theorem not_succeeds_of_reports
    {code : ErrorCode} (hcode : code ≠ .ok) (h : response.Reports code data) : ¬Succeeds response :=
  fun hsucceeds => hcode (h.code?_eq_ok_iff.mp hsucceeds)

theorem not_succeeds_failed
    (message : String) (requestId : RequestId) :
    ¬Succeeds (answerTo (.failed message) requestId) := by
  have hreports : (answerTo (.failed message) requestId).Reports .internal .null :=
    (Response.reports_failure (by decide) message).of_eq rfl rfl
  exact not_succeeds_of_reports (by decide) hreports

/-- How a call is answered: it has no command and fails, or its command is carried out. -/
inductive Answered (router : Router (Handler UserStore)) (request : Call) (store : UserStore) :
    Response → UserStore → Prop
  | refused {response : Response} (hfails : ¬Succeeds response)
      (hasks : ∀ r, router.route request.method request.path = some r →
        ∀ command, ¬Asks router request r command) :
      Answered router request store response store
  | run {r : RouteMatch (Handler UserStore)} {command : Command} {outcome : Outcome}
      {next : UserStore} (hroute : router.route request.method request.path = some r)
      (hasks : Asks router request r command) (hrun : command.run store = (outcome, next)) :
      Answered router request store (answerTo outcome request.requestId) next

theorem answered_dispatch
    (hrouter : UsersApi.router "/api" = .ok router) (request : Call) {s : DispatchState UserStore}
    (hwatch : ∀ m ∈ s.middlewares, m.Watches) :
    Answered router request s.app ((dispatcher router).dispatch request s).1
      ((dispatcher router).dispatch request s).2.app := by
  obtain ⟨hresponse, hnext, -⟩ :=
    Dispatcher.dispatch_of_watches (d := dispatcher router) hwatch request
  rw [hresponse, hnext]
  have hhandled := (dispatcher router).handled_answer request s
  generalize (dispatcher router).answer request ((dispatcher router).contextIn request s) s.app =
    result at hhandled ⊢
  cases hhandled with
  | refused hcode hreports hprepare =>
      refine .refused (not_succeeds_of_reports hcode (hreports.of_eq rfl rfl)) ?_
      intro r hroute command hasks
      exact hprepare r hroute _ ((prepare_eq_ok_iff_asks hrouter hroute).mpr ⟨_, hasks, rfl⟩)
  | run hroute hprepare hrun =>
      obtain ⟨command, hasks, rfl⟩ := (prepare_eq_ok_iff_asks hrouter hroute).mp hprepare
      exact .run hroute hasks hrun

/-- A matched call targets the operation of its route only. -/
theorem Targets.eq_of_route
    {name name' : String} {r r' : RouteMatch (Handler UserStore)}
    (hroute : router.route request.method request.path = some r) (hname : r.endpoint.name = name)
    (h : Targets router request name' r') : r' = r ∧ name' = name := by
  obtain ⟨hroute', hname'⟩ := h
  obtain rfl := Option.some.inj (hroute.symm.trans hroute')
  exact ⟨rfl, hname'.symm.trans hname⟩

theorem passes_iff
    {query : Query} {u : User} :
    (((query.last? "name").getD "").isEmpty || u.name == (query.last? "name").getD "") = true ∧
        (query.nat? 32 "age").all (· == u.age) = true ↔ Passes query u := by
  rw [Passes]
  apply and_congr
  · cases query.last? "name" with
    | none => simp
    | some name => simp
  · cases query.nat? 32 "age" with
    | none => simp
    | some age => simp [eq_comm (a := age)]

/-- A refused call agrees with every history. -/
theorem Serves.of_refused
    (h : Reflects changes store) (hfails : ¬Succeeds response)
    (hasks : ∀ r, router.route request.method request.path = some r →
      ∀ command, ¬Asks router request r command) :
    Serves router changes request response store store where
  stored := h.mem_users
  stands := h.stands_iff_remains
  creates := fun r _ hsucceeds => absurd hsucceeds hfails
  lists := by
    rintro r ⟨hroute, hname⟩
    refine ⟨⟨fun hsucceeds => absurd hsucceeds hfails, fun hage => ?_⟩,
      fun hsucceeds => absurd hsucceeds hfails⟩
    exact absurd (.list hname hage) (hasks r hroute _)
  finds := by
    rintro r ⟨hroute, hname⟩
    refine ⟨⟨fun hsucceeds => absurd hsucceeds hfails, ?_⟩,
      fun hsucceeds => absurd hsucceeds hfails⟩
    rintro ⟨hquery, u, -, hpath⟩
    exact absurd (.get hname hquery hpath) (hasks r hroute _)
  deletes := by
    rintro r ⟨hroute, hname⟩
    refine ⟨⟨fun hsucceeds => absurd hsucceeds hfails, ?_⟩,
      fun hsucceeds => absurd hsucceeds hfails⟩
    rintro ⟨hquery, hbody, u, -, hpath⟩
    exact absurd (.delete hname hquery hbody hpath) (hasks r hroute _)
  keeps := fun _ => rfl

theorem Serves.of_list
    (h : Reflects changes store) {r : RouteMatch (Handler UserStore)}
    (hroute : router.route request.method request.path = some r)
    (hname : r.endpoint.name = "Users.List") (hage : request.query.AcceptsNat 32 "age") :
    Serves router changes request
      (answerTo ((Command.list ((request.query.last? "name").getD "")
        (request.query.nat? 32 "age")).run store).1 request.requestId) store store where
  stored := h.mem_users
  stands := h.stands_iff_remains
  creates := fun r' h' => absurd (h'.eq_of_route hroute hname).2 (by decide)
  lists := by
    rintro r' -
    have hreports := reports_answerTo (listing (store.select
      ((request.query.last? "name").getD "") (request.query.nat? 32 "age"))) [] request.requestId
    refine ⟨⟨fun _ => hage, fun _ => succeeds_of_reports hreports⟩, fun _ => ⟨_, hreports, ?_, ?_⟩⟩
    · exact h.ascending.filter _
    · intro u
      rw [UserStore.select, List.mem_filter, Bool.and_eq_true, passes_iff, h.mem_users]
  finds := fun r' h' => absurd (h'.eq_of_route hroute hname).2 (by decide)
  deletes := fun r' h' => absurd (h'.eq_of_route hroute hname).2 (by decide)
  keeps := fun _ => rfl

theorem Serves.of_get
    (h : Reflects changes store) {r : RouteMatch (Handler UserStore)}
    (hroute : router.route request.method request.path = some r)
    (hname : r.endpoint.name = "Users.Get") (hquery : request.query.AcceptsNat 64 "id")
    {id : UInt64} (hpath : pathId? r = some id) :
    Serves router changes request
      (answerTo ((Command.get id).run store).1 request.requestId) store store where
  stored := h.mem_users
  stands := h.stands_iff_remains
  creates := fun r' h' => absurd (h'.eq_of_route hroute hname).2 (by decide)
  lists := fun r' h' => absurd (h'.eq_of_route hroute hname).2 (by decide)
  finds := by
    intro r' h'
    obtain ⟨rfl, -⟩ := h'.eq_of_route hroute hname
    cases hfind : store.find? id with
    | none =>
        have hrun : (Command.get id).run store = (notFound id, store) := by
          simp [Command.run, hfind]
        have hfails := not_succeeds_failed ("user " ++ toString id ++ " not found")
          request.requestId
        rw [hrun]
        exact ⟨⟨fun hsucceeds => absurd hsucceeds hfails,
          fun hstored => absurd hstored.2 (h.not_named_of_find?_eq_none hfind hpath)⟩,
          fun hsucceeds => absurd hsucceeds hfails⟩
    | some u =>
        have hrun : (Command.get id).run store = (.answered (userJson u) [], store) := by
          simp [Command.run, hfind]
        have hreports := reports_answerTo (userJson u) [] request.requestId
        obtain ⟨hu, rfl⟩ := h.find?_eq_some_iff.mp hfind
        rw [hrun]
        exact ⟨⟨fun _ => ⟨hquery, u, hu, hpath⟩, fun _ => succeeds_of_reports hreports⟩,
          fun _ => ⟨u, hu, hpath, hreports⟩⟩
  deletes := fun r' h' => absurd (h'.eq_of_route hroute hname).2 (by decide)
  keeps := fun _ => rfl

theorem Serves.of_create
    (h : Reflects changes store) {r : RouteMatch (Handler UserStore)}
    (hroute : router.route request.method request.path = some r)
    (hname : r.endpoint.name = "Users.Create") {value : Json} {name : String} {age : Nat}
    (hvalue : (dispatcher router).valueOf request r = .ok value)
    (hnameMember : textMember? value "name" = some name)
    (hageMember : natMember? value "age" = some age) :
    Serves router changes request
      (answerTo ((Command.create name age).run store).1 request.requestId) store
      (store.insert name age).2 where
  stored := h.mem_users
  stands := h.stands_iff_remains
  creates := by
    intro r' h' _
    obtain ⟨rfl, -⟩ := h'.eq_of_route hroute hname
    refine ⟨(store.insert name age).1, value, reports_answerTo _ _ _, h.next_id, h.toNat_next, ?_,
      ?_, hvalue, hnameMember, hageMember, ?_⟩
    · exact fun hfew v hv => h.id_lt_next hfew hv
    · exact header?_answerTo (by decide) _ _ _
    · exact fun v => mem_place_iff h.ascending
  lists := fun r' h' => absurd (h'.eq_of_route hroute hname).2 (by decide)
  finds := fun r' h' => absurd (h'.eq_of_route hroute hname).2 (by decide)
  deletes := fun r' h' => absurd (h'.eq_of_route hroute hname).2 (by decide)
  keeps := by
    rintro (hfails | ⟨r', h' | h'⟩)
    · exact absurd (succeeds_of_reports (reports_answerTo _ _ _)) hfails
    · exact absurd (h'.eq_of_route hroute hname).2 (by decide)
    · exact absurd (h'.eq_of_route hroute hname).2 (by decide)

theorem Serves.of_delete
    (h : Reflects changes store) {r : RouteMatch (Handler UserStore)}
    (hroute : router.route request.method request.path = some r)
    (hname : r.endpoint.name = "Users.Delete") (hquery : request.query.AcceptsNat 64 "id")
    (hbody : BodyAcceptsNat request.body 64 "id") {id : UInt64} (hpath : pathId? r = some id) :
    Serves router changes request
      (answerTo ((Command.delete id).run store).1 request.requestId) store
      ((Command.delete id).run store).2 := by
  have hname' : ∀ {name r'}, Targets router request name r' → r' = r ∧ name = "Users.Delete" :=
    fun h' => h'.eq_of_route hroute hname
  cases hfind : store.find? id with
  | none =>
      have hrun : (Command.delete id).run store = (notFound id, store) := by
        simp [Command.run, hfind]
      have hfails := not_succeeds_failed ("user " ++ toString id ++ " not found") request.requestId
      rw [hrun]
      refine ⟨h.mem_users, h.stands_iff_remains, fun r' _ hsucceeds => absurd hsucceeds hfails,
        fun r' h' => absurd (hname' h').2 (by decide),
        fun r' h' => absurd (hname' h').2 (by decide), fun r' h' => ?_, fun _ => rfl⟩
      obtain ⟨rfl, -⟩ := hname' h'
      exact ⟨⟨fun hsucceeds => absurd hsucceeds hfails,
        fun hstored => absurd hstored.2.2 (h.not_named_of_find?_eq_none hfind hpath)⟩,
        fun hsucceeds => absurd hsucceeds hfails⟩
  | some u =>
      have hrun : (Command.delete id).run store = (.answered .null [], store.erase id) := by
        simp [Command.run, hfind]
      have hsucceeds : Succeeds (answerTo (.answered .null []) request.requestId) :=
        succeeds_of_reports (reports_answerTo .null [] request.requestId)
      obtain ⟨hu, rfl⟩ := h.find?_eq_some_iff.mp hfind
      rw [hrun]
      refine ⟨h.mem_users, h.stands_iff_remains, fun r' h' => absurd (hname' h').2 (by decide),
        fun r' h' => absurd (hname' h').2 (by decide),
        fun r' h' => absurd (hname' h').2 (by decide), fun r' h' => ?_, ?_⟩
      · obtain ⟨rfl, -⟩ := hname' h'
        refine ⟨⟨fun _ => ⟨hquery, hbody, u, hu, hpath⟩, fun _ => hsucceeds⟩, fun _ => ⟨rfl, ?_⟩⟩
        intro v
        simp [UserStore.erase, hpath, eq_comm (a := u.id)]
      · rintro (hfails | ⟨r', h' | h'⟩)
        · exact absurd hsucceeds hfails
        · exact absurd (hname' h').2 (by decide)
        · exact absurd (hname' h').2 (by decide)

theorem run_get (store : UserStore) (id : UInt64) : ((Command.get id).run store).2 = store := by
  cases hfind : store.find? id <;> simp [Command.run, hfind]

/-- Every answer agrees with the history before it. -/
theorem Serves.of_answered
    (h : Reflects changes store) (hanswered : Answered router request store response next) :
    Serves router changes request response store next := by
  cases hanswered with
  | refused hfails hasks => exact .of_refused h hfails hasks
  | @run r command outcome _ hroute hasks hrun =>
      obtain rfl : outcome = (command.run store).1 := by rw [hrun]
      obtain rfl : next = (command.run store).2 := by rw [hrun]
      cases hasks with
      | list hname hage => exact .of_list h hroute hname hage
      | get hname hquery hpath =>
          rw [run_get]
          exact .of_get h hroute hname hquery hpath
      | create hname hvalue hvalid hnameMember hageMember =>
          exact .of_create h hroute hname hvalue hnameMember hageMember
      | delete hname hquery hbody hpath => exact .of_delete h hroute hname hquery hbody hpath

theorem change?_of_not_succeeds
    (h : ¬Succeeds response) : change? router (request, response) = none := by
  rw [Succeeds] at h
  cases hroute : router.route request.method request.path <;> simp [change?, hroute, h]

theorem change?_of_name
    {r : RouteMatch (Handler UserStore)}
    (hroute : router.route request.method request.path = some r)
    (hcreate : r.endpoint.name ≠ "Users.Create") (hdelete : r.endpoint.name ≠ "Users.Delete")
    (response : Response) : change? router (request, response) = none := by
  simp [change?, hroute, hcreate, hdelete]

theorem change?_of_create
    {r : RouteMatch (Handler UserStore)} {u : User}
    (hroute : router.route request.method request.path = some r)
    (hname : r.endpoint.name = "Users.Create") (h : response.Reports .ok (userJson u)) :
    change? router (request, response) = some (.created u) := by
  have hcode : response.code? = some ErrorCode.ok.code := succeeds_of_reports h
  simp [change?, hroute, hname, hcode, h.member?_data, userOf?_userJson]

theorem change?_of_delete
    {r : RouteMatch (Handler UserStore)} {id : UInt64}
    (hroute : router.route request.method request.path = some r)
    (hname : r.endpoint.name = "Users.Delete") (hpath : pathId? r = some id)
    (h : response.Reports .ok data) :
    change? router (request, response) = some (.deleted id) := by
  have hcode : response.code? = some ErrorCode.ok.code := succeeds_of_reports h
  simp [change?, hroute, hname, hcode, hpath]

/-- What an answer tells is what its call did. -/
theorem Reflects.of_answered
    (h : Reflects changes store) (hanswered : Answered router request store response next) :
    Reflects (changes ++ (change? router (request, response)).toList) next := by
  cases hanswered with
  | refused hfails hasks => simpa [change?_of_not_succeeds hfails] using h
  | @run r command outcome _ hroute hasks hrun =>
      cases hasks with
      | list hname hage =>
          obtain ⟨-, rfl⟩ := Prod.mk.inj hrun
          simpa [change?_of_name hroute (hname ▸ by decide) (hname ▸ by decide)] using h
      | @get id hname hquery hpath =>
          obtain rfl : store = next := by rw [← run_get store id, hrun]
          simpa [change?_of_name hroute (hname ▸ by decide) (hname ▸ by decide)] using h
      | @create value name age hname hvalue hvalid hnameMember hageMember =>
          obtain ⟨rfl, rfl⟩ := Prod.mk.inj hrun
          show Reflects (changes ++ (change? router (request, answerTo (.answered
            (userJson (store.insert name age).1) _) request.requestId)).toList)
            (store.insert name age).2
          rw [change?_of_create hroute hname (reports_answerTo _ _ _)]
          exact h.insert name age
      | @delete id hname hquery hbody hpath =>
          cases hfind : store.find? id with
          | none =>
              obtain ⟨rfl, rfl⟩ : notFound id = outcome ∧ store = next := by
                simpa [Command.run, hfind] using hrun
              have hfails : ¬Succeeds (answerTo (notFound id) request.requestId) :=
                not_succeeds_failed _ _
              simpa [change?_of_not_succeeds hfails] using h
          | some u =>
              obtain ⟨rfl, rfl⟩ : Outcome.answered .null [] = outcome ∧ store.erase id = next := by
                simpa [Command.run, hfind] using hrun
              rw [change?_of_delete hroute hname hpath (reports_answerTo _ _ _)]
              exact h.erase id

/-! ## Whole runs -/

/-- The store after a run reflects the history that the calls and their answers tell. -/
theorem reflects_of_run
    (hrouter : UsersApi.router "/api" = .ok router) {middlewares : List Middleware}
    (hwatch : ∀ m ∈ middlewares, m.Watches) (nextSeq : UInt64) (calls : List Call) :
    Reflects ((((dispatcher router).exchange ⟨.empty, middlewares, nextSeq⟩ calls).1).filterMap
        (change? router))
      ((dispatcher router).exchange ⟨.empty, middlewares, nextSeq⟩ calls).2.app ∧
    ∀ m ∈ ((dispatcher router).exchange ⟨.empty, middlewares, nextSeq⟩ calls).2.middlewares,
      m.Watches := by
  induction calls using List.reverseRecOn with
  | nil => exact ⟨.of_empty, hwatch⟩
  | append_singleton calls request ih =>
      obtain ⟨hreflects, hwatching⟩ := ih
      have hlast : ∀ exchange, [exchange].filterMap (change? router) =
          (change? router exchange).toList := by
        intro exchange
        cases hchange : change? router exchange <;> simp [hchange]
      rw [Dispatcher.exchange_concat, List.filterMap_append, hlast]
      exact ⟨hreflects.of_answered (answered_dispatch hrouter request hwatching),
        (Dispatcher.dispatch_of_watches hwatching request).2.2⟩

theorem exists_router : ∃ router, UsersApi.router "/api" = .ok router := by
  have hbuilds : (UsersApi.router "/api").toOption.map (fun _ => ()) = some () := by
    decide +kernel
  obtain ⟨router, hrouter, -⟩ := Results.exists_of_toOption_map hbuilds
  exact ⟨router, hrouter⟩

/-- After any run from the empty store, the answer to the next call agrees with the history that the
calls and their answers tell. -/
theorem serves_of_run
    {middlewares : List Middleware} (hwatch : ∀ m ∈ middlewares, m.Watches) (nextSeq : UInt64)
    (calls : List Call) (request : Call) :
    ∃ router, UsersApi.router "/api" = .ok router ∧
      let d := dispatcher router
      let (exchanges, s) := d.exchange ⟨.empty, middlewares, nextSeq⟩ calls
      let (response, next) := d.dispatch request s
      Serves router (exchanges.filterMap (change? router)) request response s.app next.app := by
  obtain ⟨router, hrouter⟩ := exists_router
  obtain ⟨hreflects, hwatching⟩ := reflects_of_run hrouter hwatch nextSeq calls
  exact ⟨router, hrouter, .of_answered hreflects (answered_dispatch hrouter request hwatching)⟩

/-! ## The first users -/

/-- A call that creates a user from a body. -/
def creating (body : String) : Call :=
  Call.ofTarget "POST" "/api/users" [] (body.toList.flatMap String.utf8EncodeChar) ⟨0⟩

def creatingAnn : Call := creating "\x7b\"name\":\"Ann\",\"age\":34\x7d"

def deletingFirst : Call := Call.ofTarget "DELETE" "/api/users/1" [] [] ⟨0⟩

/-- The path names the first user, but the query has a text that is no number. -/
def findingFirst : Call := Call.ofTarget "GET" "/api/users/1?id=abc" [] [] ⟨0⟩

/-- The state after calls to an empty store. -/
def after (router : Router (Handler UserStore)) (calls : List Call) : DispatchState UserStore :=
  ((dispatcher router).exchange ⟨.empty, [.newTracing, .newMetrics], 0⟩ calls).2

/-- The address of a user who comes after the first has left; and what is looked up, what is stored
and which code is answered when the first user is looked up with a faulty query. -/
theorem first_users_computed :
    (UsersApi.router "/api").toOption.map (fun router =>
      let created :=
        ((dispatcher router).dispatch creatingAnn (after router [creatingAnn, deletingFirst])).1
      let found := ((dispatcher router).dispatch findingFirst (after router [creatingAnn])).1
      (created.header? "location",
        (router.route findingFirst.method findingFirst.path).map
          fun r => (r.endpoint.name, pathId? r),
        (after router [creatingAnn]).app.users.map User.id, found.code?)) =
    some (some "/api/users/2", some ("Users.Get", some 1), [1],
      some ErrorCode.invalidParameter.code) := by
  decide +kernel

/-- The number of a deleted user is not given again. -/
theorem serves_of_run_after_deletion :
    ∃ router, UsersApi.router "/api" = .ok router ∧
      let d := dispatcher router
      let (exchanges, s) := d.exchange ⟨.empty, [.newTracing, .newMetrics], 0⟩
        [creatingAnn, deletingFirst]
      let (response, next) := d.dispatch creatingAnn s
      Serves router (exchanges.filterMap (change? router)) creatingAnn response s.app next.app ∧
        response.header? "location" = some "/api/users/2" := by
  obtain ⟨router, hrouter, hcomputed⟩ := Results.exists_of_toOption_map first_users_computed
  obtain ⟨router', hrouter', hserves⟩ := @serves_of_run [.newTracing, .newMetrics]
    (by simp [Middleware.newTracing, Middleware.newMetrics, Middleware.Watches]) 0
    [creatingAnn, deletingFirst] creatingAnn
  obtain rfl : router' = router := Except.ok.inj (hrouter'.symm.trans hrouter)
  exact ⟨router', hrouter, hserves, (Prod.mk.inj hcomputed).1⟩

/-- The first user is stored, and is not found under the number that the path gives. -/
theorem stored_user_not_found :
    ∃ router r, UsersApi.router "/api" = .ok router ∧
      Targets router findingFirst "Users.Get" r ∧ pathId? r = some 1 ∧
      (∃ u ∈ (after router [creatingAnn]).app.users, u.id = 1) ∧
      ¬Succeeds ((dispatcher router).dispatch findingFirst (after router [creatingAnn])).1 := by
  obtain ⟨router, hrouter, hcomputed⟩ := Results.exists_of_toOption_map first_users_computed
  simp only [Prod.mk.injEq] at hcomputed
  obtain ⟨-, hroute, husers, hcode⟩ := hcomputed
  obtain ⟨r, hr, hmatched⟩ := Option.map_eq_some_iff.mp hroute
  obtain ⟨hname, hpath⟩ := Prod.mk.inj hmatched
  refine ⟨router, r, hrouter, ⟨hr, hname⟩, hpath, ?_, ?_⟩
  · exact List.mem_map.mp (husers ▸ List.mem_singleton_self 1)
  · rw [Succeeds, hcode]
    decide

end UsersApi
end TypedRoutes
