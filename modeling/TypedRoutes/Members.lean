/-!
# Members: association lists in key order

JSON objects and the other string-keyed tables of the library are association lists whose keys
strictly increase in code point order.  `insert` keeps that order and replaces the value of a key
that is already there.
-/

namespace TypedRoutes

/-- A table of string keys, kept in increasing key order by `Members.insert`. -/
abbrev Members (α : Type) := List (String × α)

namespace Members

variable {α : Type}

/-- The value under a key. -/
def find? (key : String) (members : Members α) : Option α :=
  members.lookup key

/-- Whether a key is present. -/
def contains (key : String) (members : Members α) : Bool :=
  (members.find? key).isSome

/-- The table with `value` under `key`, all other keys as before. -/
def insert (key : String) (value : α) : Members α → Members α
  | [] => [(key, value)]
  | (k, v) :: rest =>
    if key = k then (k, value) :: rest
    else if key < k then (key, value) :: (k, v) :: rest
    else (k, v) :: insert key value rest

/-- The table of a list of pairs; of several pairs with one key the last counts. -/
def ofList (pairs : List (String × α)) : Members α :=
  pairs.foldl (fun members (key, value) => members.insert key value) []

/-- The keys in increasing order. -/
def keys (members : Members α) : List String :=
  members.map Prod.fst

theorem find?_insert_self
    (key : String) (value : α) (members : Members α) :
    (members.insert key value).find? key = some value := by
  induction members with
  | nil => simp [insert, find?]
  | cons head rest ih =>
    obtain ⟨k, v⟩ := head
    by_cases h : key = k
    · subst h; simp [insert, find?]
    · by_cases hlt : key < k
      · simp [insert, find?, h, hlt]
      · have hk : (key == k) = false := by simpa using h
        simpa [insert, find?, h, hlt, List.lookup_cons, hk] using ih

theorem find?_insert_of_ne
    {key other : String} (value : α) (members : Members α) (h : other ≠ key) :
    (members.insert key value).find? other = members.find? other := by
  induction members with
  | nil =>
    have ho : (other == key) = false := by simpa using h
    simp [insert, find?, List.lookup_cons, ho]
  | cons head rest ih =>
    obtain ⟨k, v⟩ := head
    have ho : (other == key) = false := by simpa using h
    by_cases hk : key = k
    · subst hk; simp [insert, find?, List.lookup_cons, ho]
    · by_cases hlt : key < k
      · simp [insert, find?, List.lookup_cons, hk, hlt, ho]
      · simp only [insert, hk, hlt, find?, List.lookup_cons, if_false]
        cases other == k
        · exact ih
        · rfl

end Members
end TypedRoutes
