import TypedRoutes.Text.Blank
import TypedRoutes.Text.Percent

/-!
# Query values

The decoded pairs of a query string in arrival order.  A single value is the last one of its name,
a list takes all values of `name` and `name[]`, and a table takes the entries `name[key]`.
-/

namespace TypedRoutes

/-- Query pairs in arrival order; names may repeat. -/
structure Query where
  pairs : List (String × String)
  deriving DecidableEq

namespace Query

/-- The query without pairs. -/
def empty : Query := ⟨[]⟩

/-- Reads a form-encoded query string, with or without its question mark. -/
def parse (s : String) : Query :=
  ⟨Text.formPairs (String.ofList ((Text.dropStart? ['?'] s.toList).getD s.toList))⟩

/-- The query of a request target: what follows its first question mark. -/
def ofTarget (target : String) : Query :=
  match Text.splitOnce '?' target with
  | some (_, query) => parse query
  | none => empty

/-- The query with one more pair at the end. -/
def push (query : Query) (name value : String) : Query :=
  ⟨query.pairs ++ [(name, value)]⟩

/-- The key of a pair name `name[key]`; the key may be empty. -/
def entryKey? (name pairName : String) : Option String := do
  let rest ← Text.dropStart? name.toList pairName.toList
  let rest ← Text.dropStart? ['['] rest
  let key ← Text.dropEnd? [']'] rest
  some (String.ofList key)

/-- The last value of a name. -/
def last? (query : Query) (name : String) : Option String :=
  query.pairs.reverse.lookup name

/-- The values of `name` and `name[]` in arrival order. -/
def all (query : Query) (name : String) : List String :=
  (query.pairs.filter fun (k, _) => k = name ∨ entryKey? name k = some "").map Prod.snd

/-- Pairs with the value of a key replaced, or with a new pair at the end. -/
def putEntry (key value : String) : List (String × String) → List (String × String)
  | [] => [(key, value)]
  | (k, v) :: rest => if k = key then (k, value) :: rest else (k, v) :: putEntry key value rest

/-- The entries `name[key]` with a non-empty key, in the order in which the keys first arrive, each
with its last value. -/
def entries (query : Query) (name : String) : List (String × String) :=
  query.pairs.foldl
    (fun found (k, v) =>
      match entryKey? name k with
      | some key => if key = "" then found else putEntry key v found
      | none => found)
    []

/-- Whether some pair has exactly this name. -/
def contains (query : Query) (name : String) : Bool :=
  query.pairs.any fun (k, _) => k = name

end Query
end TypedRoutes
