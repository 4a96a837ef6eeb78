/-!
# A store of users

Users are numbered in the order of their creation, from one on.  Numbers are 64-bit words: after the
greatest they start over, and a user whose number is given again makes way for the new one.
-/

namespace TypedRoutes

/-- A user. -/
structure User where
  id : UInt64
  name : String
  age : Nat
  deriving DecidableEq

/-- The users in ascending order of their numbers. -/
structure UserStore where
  /-- The number that was given last, zero before the first. -/
  lastId : UInt64
  users : List User

namespace UserStore

/-- The store without users. -/
def empty : UserStore := ⟨0, []⟩

/-- Users with one more, which takes the place of the one with its number. -/
def place (user : User) : List User → List User
  | [] => [user]
  | head :: rest =>
    if head.id < user.id then head :: place user rest
    else if head.id = user.id then user :: rest
    else user :: head :: rest

/-- Adds a user under the next number. -/
def insert (store : UserStore) (name : String) (age : Nat) : User × UserStore :=
  let user : User := ⟨store.lastId + 1, name, age⟩
  (user, ⟨user.id, place user store.users⟩)

/-- The user with a number. -/
def find? (store : UserStore) (id : UInt64) : Option User :=
  store.users.find? (·.id == id)

/-- The store without the user of a number. -/
def erase (store : UserStore) (id : UInt64) : UserStore :=
  { store with users := store.users.filter (·.id != id) }

/-- The users of a name, or of any if it is empty, and of an age, if one is given. -/
def select (store : UserStore) (name : String) (age : Option Nat) : List User :=
  store.users.filter fun u => (name.isEmpty || u.name == name) && age.all (· == u.age)

/-- The store with two users to begin with. -/
def seeded : UserStore :=
  ((empty.insert "Ann" 34).2.insert "Bob" 27).2

end UserStore
end TypedRoutes
