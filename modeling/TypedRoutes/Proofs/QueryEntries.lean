import Mathlib.Data.List.Nodup
import Mathlib.Data.List.Perm.Basic
import TypedRoutes.Proofs.QueryPairs

/-!
# The entries of a name

A name takes pairs of a query in two ways: those of `name` and `name[]` are the values of a list,
those of `name[key]` with a key that is not empty are the entries of a table.  No pair is taken in
both ways.  The entries have each key that arrives, once, in the order in which the keys first
arrive and with the last value of each.  So a table that is written as pairs in any order, among
pairs that have no key of its name, is read back as it is.
-/

namespace TypedRoutes
namespace Query

variable {query : Query} {name key value : String} {pairs : List (String × String)}

/-! ## Keys in the order of arrival -/

/-- The position of the first pair with a name. -/
def arrival (query : Query) (name : String) : Nat :=
  (query.pairs.map Prod.fst).idxOf name

theorem arrival_concat_of_mem
    (h : name ∈ pairs.map Prod.fst) (pair : String × String) :
    arrival ⟨pairs ++ [pair]⟩ name = arrival ⟨pairs⟩ name := by
  rw [arrival, arrival, List.map_append, List.idxOf_append_of_mem h]

/-- A name that arrives for the first time arrives after all the others. -/
theorem arrival_lt_concat
    {pair : String × String} (h : name ∈ pairs.map Prod.fst) (hnew : pair.1 ∉ pairs.map Prod.fst) :
    arrival ⟨pairs ++ [pair]⟩ name < arrival ⟨pairs ++ [pair]⟩ pair.1 := by
  have hlt := List.idxOf_lt_length_of_mem h
  rw [arrival_concat_of_mem h, arrival, arrival, List.map_append, List.idxOf_append_of_notMem hnew]
  exact Nat.lt_of_lt_of_le hlt (Nat.le_add_right _ _)

theorem exists_last?_iff :
    (∃ value, query.last? name = some value) ↔ name ∈ query.pairs.map Prod.fst := by
  rw [← Option.ne_none_iff_exists', Ne, last?_eq_none_iff]
  simp

/-- The keys of the entries are those that arrive, but for the empty one. -/
theorem mem_keys_entries_iff :
    key ∈ (query.entries name).map Prod.fst ↔
      key ≠ "" ∧ indexed name key ∈ query.pairs.map Prod.fst := by
  rw [← @exists_last?_iff query, List.mem_map]
  constructor
  · rintro ⟨entry, hentry, rfl⟩
    obtain ⟨hne, hlast⟩ := ((entries_spec query name).2 entry).mp hentry
    exact ⟨hne, entry.2, hlast⟩
  · rintro ⟨hne, value, hlast⟩
    exact ⟨(key, value), ((entries_spec query name).2 _).mpr ⟨hne, hlast⟩, rfl⟩

/-- One more pair leaves the keys as they are, or it is the first with its name and adds a key. -/
theorem keys_entries_concat
    (pairs : List (String × String)) (pair : String × String) (name : String) :
    (entries ⟨pairs ++ [pair]⟩ name).map Prod.fst = (entries ⟨pairs⟩ name).map Prod.fst ∨
      ∃ key, pair.1 = indexed name key ∧ pair.1 ∉ pairs.map Prod.fst ∧
        (entries ⟨pairs ++ [pair]⟩ name).map Prod.fst =
          (entries ⟨pairs⟩ name).map Prod.fst ++ [key] := by
  rw [entries_concat]
  cases hkey : entryKey? name pair.1 with
  | none => exact .inl rfl
  | some key =>
      have hname : pair.1 = indexed name key := entryKey?_eq_some_iff.mp hkey
      rw [Option.elim_some]
      by_cases hempty : key = ""
      · rw [if_pos hempty]
        exact .inl rfl
      · rw [if_neg hempty, keys_putEntry]
        by_cases hmem : key ∈ (entries ⟨pairs⟩ name).map Prod.fst
        · rw [if_pos hmem]
          exact .inl rfl
        · have hnew : pair.1 ∉ pairs.map Prod.fst := by
            intro h
            rw [hname] at h
            exact hmem (mem_keys_entries_iff.mpr ⟨hempty, h⟩)
          rw [if_neg hmem]
          exact .inr ⟨key, hname, hnew, rfl⟩

/-- The keys of the entries are in the order in which they first arrive. -/
theorem pairwise_arrival_entries (pairs : List (String × String)) (name : String) :
    ((entries ⟨pairs⟩ name).map Prod.fst).Pairwise fun key key' =>
      arrival ⟨pairs⟩ (indexed name key) < arrival ⟨pairs⟩ (indexed name key') := by
  induction pairs using List.reverseRecOn with
  | nil => simp [entries]
  | append_singleton rest pair ih =>
      have harrived : ∀ key ∈ (entries ⟨rest⟩ name).map Prod.fst,
          indexed name key ∈ rest.map Prod.fst :=
        fun key hkey => (mem_keys_entries_iff.mp hkey).2
      -- A pair at the end leaves the arrivals of earlier keys as they are.
      have hkept : ((entries ⟨rest⟩ name).map Prod.fst).Pairwise fun key key' =>
          arrival ⟨rest ++ [pair]⟩ (indexed name key) <
            arrival ⟨rest ++ [pair]⟩ (indexed name key') := by
        refine ih.imp_of_mem ?_
        intro key key' hkey hkey' hlt
        rwa [arrival_concat_of_mem (harrived key hkey), arrival_concat_of_mem (harrived key' hkey')]
      rcases keys_entries_concat rest pair name with hsame | ⟨key, hname, hnew, hadded⟩
      · rwa [hsame]
      · rw [hadded, List.pairwise_append]
        refine ⟨hkept, List.pairwise_singleton _ _, ?_⟩
        intro earlier hearlier last hlast
        rw [List.mem_singleton.mp hlast, ← hname]
        exact arrival_lt_concat (harrived earlier hearlier) hnew

/-! ## The last value of a name -/

/-- A value of a pair with a name after which no other pair has the name. -/
def IsLast (query : Query) (name value : String) : Prop :=
  ∃ before after, query.pairs = before ++ (name, value) :: after ∧ ∀ pair ∈ after, pair.1 ≠ name

theorem last?_eq_some_iff : query.last? name = some value ↔ query.IsLast name value := by
  rw [last?, List.lookup_eq_some_iff]
  constructor
  · rintro ⟨after, before, hpairs, hafter⟩
    refine ⟨before.reverse, after.reverse, ?_, ?_⟩
    · simpa using congrArg List.reverse hpairs
    · intro pair hpair
      exact (bne_iff_ne.mp (hafter pair (List.mem_reverse.mp hpair))).symm
  · rintro ⟨before, after, hpairs, hafter⟩
    refine ⟨after.reverse, before.reverse, ?_, ?_⟩
    · simp [hpairs]
    · intro pair hpair
      exact bne_iff_ne.mpr (hafter pair (List.mem_reverse.mp hpair)).symm

theorem IsLast.mem (h : query.IsLast name value) : (name, value) ∈ query.pairs := by
  obtain ⟨before, after, hpairs, -⟩ := h
  simp [hpairs]

/-- If all pairs with a name have one value, it is the last one. -/
theorem last?_eq_some_iff_mem
    (h : ∀ value value', (name, value) ∈ query.pairs → (name, value') ∈ query.pairs →
      value = value') :
    query.last? name = some value ↔ (name, value) ∈ query.pairs := by
  constructor
  · intro hlast
    exact (last?_eq_some_iff.mp hlast).mem
  · intro hmem
    obtain ⟨value', hlast⟩ := exists_last?_iff.mpr (List.mem_map_of_mem (f := Prod.fst) hmem)
    rwa [h value value' hmem (last?_eq_some_iff.mp hlast).mem]

/-! ## Tables written as pairs -/

theorem indexed_injective (name : String) : Function.Injective (indexed name) := by
  intro key key' h
  have hkey : entryKey? name (indexed name key) = some key := entryKey?_eq_some_iff.mpr rfl
  have hkey' : entryKey? name (indexed name key) = some key' := entryKey?_eq_some_iff.mpr h
  simpa [hkey] using hkey'

/-- A table that is written as pairs in any order, among pairs that are none of its name, is read
back as it is. -/
theorem entries_perm
    {table others : List (String × String)} (hkeys : ∀ entry ∈ table, entry.1 ≠ "")
    (hnodup : (table.map Prod.fst).Nodup)
    (hothers : ∀ pair ∈ others, ∀ key, pair.1 ≠ indexed name key)
    (hpairs : pairs.Perm ((table.map fun entry => (indexed name entry.1, entry.2)) ++ others)) :
    (entries ⟨pairs⟩ name).Perm table := by
  obtain ⟨hdistinct, hspec⟩ := entries_spec ⟨pairs⟩ name
  have hmem : ∀ key value, (indexed name key, value) ∈ pairs ↔ (key, value) ∈ table := by
    intro key value
    rw [hpairs.mem_iff, List.mem_append]
    constructor
    · rintro (h | h)
      · obtain ⟨entry, hentry, heq⟩ := List.mem_map.mp h
        obtain ⟨hkey, rfl⟩ := Prod.mk.inj heq
        rwa [← indexed_injective name hkey]
      · exact absurd rfl (hothers _ h key)
    · intro h
      exact .inl (List.mem_map_of_mem (f := fun entry => (indexed name entry.1, entry.2)) h)
  rw [List.perm_ext_iff_of_nodup hdistinct.of_map hnodup.of_map]
  rintro ⟨key, value⟩
  rw [hspec, last?_eq_some_iff_mem, hmem]
  · exact and_iff_right_of_imp fun h => hkeys _ h
  · intro value value' h h'
    rw [hmem] at h h'
    exact congrArg Prod.snd (List.inj_on_of_nodup_map hnodup h h' rfl)

/-! ## Lists and tables -/

/-- Whether a pair with a name is read as a value of a list. -/
def listsName (name pairName : String) : Bool :=
  pairName = name ∨ pairName = indexed name ""

theorem indexed_ne_self (name key : String) : indexed name key ≠ name := by
  intro h
  have hlength := congrArg String.length h
  simp only [indexed, String.length_append] at hlength
  have hbracket : "[".length = 1 := rfl
  omega

theorem listsName_indexed_iff : listsName name (indexed name key) = true ↔ key = "" := by
  simp [listsName, indexed_ne_self, (indexed_injective name).eq_iff]

theorem all_eq_map_restrict (query : Query) (name : String) :
    query.all name = (query.restrict (listsName name)).pairs.map Prod.snd := by
  simp only [all, restrict, listsName, entryKey?_eq_some_iff]

/-- The pairs that are read as values of a list hold no entries, and all the others hold no value of
the list. -/
theorem restrict_listsName (query : Query) (name : String) :
    (query.restrict (listsName name)).all name = query.all name ∧
    (query.restrict (listsName name)).entries name = [] ∧
    (query.restrict fun key => !listsName name key).entries name = query.entries name ∧
    (query.restrict fun key => !listsName name key).all name = [] := by
  refine ⟨all_restrict ?_ ?_, ?_, entries_restrict ?_, ?_⟩
  · simp [listsName]
  · simp [listsName]
  · rw [entries_eq_nil_iff]
    rintro ⟨pairName, value⟩ hpair key hkey rfl
    exact hkey (listsName_indexed_iff.mp (List.mem_filter.mp hpair).2)
  · intro key hkey
    rwa [Bool.not_eq_true', ← Bool.not_eq_true, listsName_indexed_iff]
  · rw [all_eq_nil_iff]
    intro pair hpair
    simpa [listsName] using (List.mem_filter.mp hpair).2

/-! ## What a name reads -/

/-- The entries of a name as its pairs `name[key]` tell them: one for each key that is not empty and
arrives, in the order in which the keys first arrive, with the value of the last pair. -/
structure Tabulates (query : Query) (name : String) (found : List (String × String)) : Prop where
  nodup_keys : (found.map Prod.fst).Nodup
  in_order : (found.map Prod.fst).Pairwise fun key key' =>
    query.arrival (indexed name key) < query.arrival (indexed name key')
  mem_keys_iff : ∀ key, key ∈ found.map Prod.fst ↔
    key ≠ "" ∧ indexed name key ∈ query.pairs.map Prod.fst
  isLast : ∀ entry ∈ found, query.IsLast (indexed name entry.1) entry.2

theorem tabulates_entries (query : Query) (name : String) :
    query.Tabulates name (query.entries name) where
  nodup_keys := (entries_spec query name).1
  in_order := pairwise_arrival_entries query.pairs name
  mem_keys_iff _ := mem_keys_entries_iff
  isLast entry hentry := last?_eq_some_iff.mp (((entries_spec query name).2 entry).mp hentry).2

/-- The entries of a name lose and repeat nothing.  In every query they are what its pairs
`name[key]` tell.  The values of the list are those of the pairs `name` and `name[]`, in order, and
no pair is read in both ways: either reading keeps what it gives without the pairs of the other, and
gives nothing from those alone.  A table with distinct keys, none of them empty, that is written as
pairs in any order and mixed with pairs that are not of the form `name[key]`, is read as it is. -/
theorem entries_lose_and_repeat_nothing (name : String) :
    (∀ query : Query,
      query.Tabulates name (query.entries name) ∧
      query.all name =
        (query.pairs.filter fun pair => pair.1 = name ∨ pair.1 = indexed name "").map Prod.snd ∧
      (query.restrict (listsName name)).all name = query.all name ∧
      (query.restrict (listsName name)).entries name = [] ∧
      (query.restrict fun key => !listsName name key).entries name = query.entries name ∧
      (query.restrict fun key => !listsName name key).all name = []) ∧
    ∀ table others pairs : List (String × String),
      (∀ entry ∈ table, entry.1 ≠ "") → (table.map Prod.fst).Nodup →
      (∀ pair ∈ others, ∀ key, pair.1 ≠ indexed name key) →
      pairs.Perm ((table.map fun entry => (indexed name entry.1, entry.2)) ++ others) →
      (entries ⟨pairs⟩ name).Perm table := by
  constructor
  · intro query
    exact ⟨tabulates_entries query name, all_eq_map_restrict query name,
      restrict_listsName query name⟩
  · intro table others pairs hkeys hdistinct hothers hpairs
    exact entries_perm hkeys hdistinct hothers hpairs

/-- A table with a key in brackets of its own, in reverse order and among the pairs of a list, of
longer names and of a name that goes on after its brackets. -/
theorem entries_lose_and_repeat_nothing_nested :
    (entries ⟨[("m", "0"), ("m[b][c]", "2"), ("mx[a]", "3"), ("m[a]", "1"), ("m[a]s", "4")]⟩
      "m").Perm [("a", "1"), ("b][c", "2")] := by
  have hothers : ∀ pair ∈ [("m", "0"), ("mx[a]", "3"), ("m[a]s", "4")], ∀ key,
      pair.1 ≠ indexed "m" key := by
    intro pair hpair key h
    have hkey : entryKey? "m" pair.1 = some key := entryKey?_eq_some_iff.mpr h
    have hnone : ∀ pair ∈ [("m", "0"), ("mx[a]", "3"), ("m[a]s", "4")],
        entryKey? "m" pair.1 = none := by decide
    simp [hnone pair hpair] at hkey
  exact (entries_lose_and_repeat_nothing "m").2 [("a", "1"), ("b][c", "2")]
    [("m", "0"), ("mx[a]", "3"), ("m[a]s", "4")] _ (by decide) (by decide) hothers (by decide)

end Query
end TypedRoutes
