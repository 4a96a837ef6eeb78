import TypedRoutes.Dispatch.Dispatcher
import TypedRoutes.Users.Store

/-!
# An API over a store of users

Four operations list, fetch, create and delete users.  Their request and response types are declared
here, with the attribute blocks that give each operation its route.
-/

namespace TypedRoutes
namespace UsersApi

/-! ## Types -/

/-- The type of user numbers. -/
def idType : Ty := .scalar (.uint .w64)

/-- The type of ages. -/
def ageType : Ty := .scalar (.uint .w32)

/-- A field with an attribute block, which may be empty. -/
def field (name : String) (type : Ty) (attributes : String) : Field where
  name := name
  wireName := name
  type := type
  attributeText := attributes
  doc := none
  flatten := false
  marker := false

/-- The field that declares the route of a request type. -/
def route (attributes : String) : Field :=
  { field "meta" .marker attributes with marker := true }

/-- A record under its own name. -/
def record (name : String) (fields : List Field) : String × Definition :=
  (name, .record ⟨name, fields, none⟩)

/-- The types of the API. -/
def types : TypeTable := ⟨[
  record "User" [
    field "id" idType "", field "name" (.scalar .string) "", field "age" ageType ""],
  record "ListUsersReq" [
    route ("path:\"/users\" method:\"GET\" summary:\"List users\" tags:\"users\" " ++
      "dc:\"Lists users, optionally filtered by name and age\""),
    { field "name" (.scalar .string) "" with
      doc := some "Exact name filter; empty lists everyone" },
    field "age" (.option ageType) "dc:\"Only users of this age\""],
  record "ListUsersRes" [
    field "users" (.sequence .list (.named "User")) "",
    field "total" (.scalar (.uint .word)) ""],
  record "GetUserReq" [
    route "path:\"/users/\x7bid\x7d\" method:\"GET\" summary:\"Fetch one user\" tags:\"users\"",
    field "id" idType ""],
  record "CreateUserReq" [
    route "path:\"/users\" method:\"POST\" summary:\"Create a user\" tags:\"users\"",
    field "name" (.scalar .string) "v:\"required|max-length:64\"",
    field "age" ageType "v:\"max:150\""],
  record "CreateUserRes" [{ field "user" (.named "User") "" with flatten := true }],
  record "DeleteUserReq" [
    route "path:\"/users/\x7bid\x7d\" method:\"DELETE\" summary:\"Remove a user\" tags:\"users\"",
    field "id" idType ""]]⟩

/-! ## Operations -/

/-- What a client asks for. -/
inductive Command
  | list (name : String) (age : Option Nat)
  | get (id : UInt64)
  | create (name : String) (age : Nat)
  | delete (id : UInt64)
  deriving DecidableEq

/-- A user as an object. -/
def userJson (u : User) : Json :=
  .ofPairs [("id", .ofNat u.id.toNat), ("name", .string u.name), ("age", .ofNat u.age)]

/-- The outcome for a number that no user has. -/
def notFound (id : UInt64) : Outcome :=
  .failed ("user " ++ toString id ++ " not found")

/-- Carries out a command.  A new user's address is given in the `location` header. -/
def Command.run (store : UserStore) : Command → Outcome × UserStore
  | list name age =>
    let users := store.select name age
    (.answered (.ofPairs [("users", .array (users.map userJson)), ("total", .ofNat users.length)])
      [], store)
  | get id =>
    match store.find? id with
    | some u => (.answered (userJson u) [], store)
    | none => (notFound id, store)
  | create name age =>
    let (u, store) := store.insert name age
    (.answered (userJson u) [("location", "/api/users/" ++ toString u.id)], store)
  | delete id =>
    match store.find? id with
    | some _ => (.answered .null [], store.erase id)
    | none => (notFound id, store)

/-- The natural number of a member of a request value. -/
def natMember? (value : Json) (name : String) : Option Nat :=
  match value.member? name with
  | some (.int n) => n.toNat?
  | _ => none

/-- A natural number as a 64-bit word, if it is one. -/
def word? (n : Nat) : Option UInt64 :=
  if h : n < UInt64.size then some (.ofNatLT n h) else none

/-- The word of a member of a request value. -/
def wordMember? (value : Json) (name : String) : Option UInt64 :=
  (natMember? value name).bind word?

/-- The text of a member of a request value. -/
def textMember? (value : Json) (name : String) : Option String :=
  (value.member? name).bind Json.text?

/-- The handler that reads a command from a request value and carries it out. -/
def handler (command? : Json → Option Command) : Handler UserStore where
  decode value :=
    match command? value with
    | some command => .ok fun _ _ store => command.run store
    | none => .error ⟨"the request does not have the declared form", none⟩

/-- The operations of the API. -/
def controller : Controller (Handler UserStore) where
  name := "Users"
  operations := [
    ⟨"List", .named "ListUsersReq", .named "ListUsersRes", handler fun value => do
      return .list (← textMember? value "name") (natMember? value "age")⟩,
    ⟨"Get", .named "GetUserReq", .named "User", handler fun value => do
      return .get (← wordMember? value "id")⟩,
    ⟨"Create", .named "CreateUserReq", .named "CreateUserRes", handler fun value => do
      return .create (← textMember? value "name") (← natMember? value "age")⟩,
    ⟨"Delete", .named "DeleteUserReq", .unit, handler fun value => do
      return .delete (← wordMember? value "id")⟩]

/-- The router of the API under a path. -/
def router (start : String) : Except RegistrationError (Router (Handler UserStore)) := do
  Router.build (← Registry.empty.register types start controller)

/-- The dispatcher of a router, which validates by rules. -/
def dispatcher (router : Router (Handler UserStore)) : Dispatcher UserStore :=
  ⟨types, router, types.validate⟩

end UsersApi
end TypedRoutes
