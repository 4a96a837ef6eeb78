import Mathlib.Data.List.Induction
import TypedRoutes.Proofs.Results
import TypedRoutes.Proofs.Segments
import TypedRoutes.Request.Assemble

/-!
# The pairs that a field reads

A field that is no record reads the pairs of a query whose names have a certain form, which depends
on the shape of its type: its own name for a single value, also `name[]` for a list, and `name[key]`
for a table.  The value that a query gives to the field depends on these pairs only, and there is
one exactly if there are such pairs.
-/

namespace TypedRoutes

namespace Query

variable {query : Query} {name key value : String} {keep : String → Bool}
  {found : List (String × String)}

theorem entryKey?_eq_some_iff
    {pairName key : String} : entryKey? name pairName = some key ↔ pairName = indexed name key := by
  rw [← String.toList_inj]
  simp only [entryKey?, Option.bind_eq_bind, Option.bind_eq_some_iff, Text.dropStart?_eq_some_iff,
    Text.dropEnd?_eq_some_iff, Option.some.injEq, indexed, String.toList_append]
  constructor
  · rintro ⟨rest, hrest, rest', rfl, cs, rfl, rfl⟩
    simpa using hrest
  · intro h
    exact ⟨'[' :: (key.toList ++ [']']), by simpa using h, key.toList ++ [']'], rfl, key.toList,
      rfl, String.ofList_toList⟩

/-- The pairs whose names a predicate keeps. -/
def restrict (query : Query) (keep : String → Bool) : Query :=
  ⟨query.pairs.filter fun pair => keep pair.1⟩

/-- The pairs of a name: `name`, `name[]` or `name[key]`. -/
def pairsOf (query : Query) (name : String) : Query :=
  query.restrict fun key => key = name || (entryKey? name key).isSome

theorem last?_restrict
    (h : keep name = true) : (query.restrict keep).last? name = query.last? name := by
  rw [last?, last?, restrict, ← List.filter_reverse]
  induction query.pairs.reverse with
  | nil => rfl
  | cons pair rest ih =>
      obtain ⟨k, v⟩ := pair
      by_cases hk : name = k
      · subst hk
        simp [h]
      · have hbeq : (name == k) = false := by simpa using hk
        rw [List.lookup_cons, hbeq, List.filter_cons]
        split
        · rw [List.lookup_cons, hbeq, ih]
        · exact ih

theorem all_restrict
    (h : keep name = true) (hentry : keep (indexed name "") = true) :
    (query.restrict keep).all name = query.all name := by
  rw [all, all, restrict, List.filter_filter]
  congr 2
  funext pair
  by_cases hread : pair.1 = name ∨ entryKey? name pair.1 = some ""
  · have hkeep : keep pair.1 = true := by
      rcases hread with hname | hempty
      · rwa [hname]
      · rwa [entryKey?_eq_some_iff.mp hempty]
    simp [hread, hkeep]
  · simp [hread]

theorem entries_restrict
    (h : ∀ key, key ≠ "" → keep (indexed name key) = true) :
    (query.restrict keep).entries name = query.entries name := by
  rw [entries, entries, restrict, List.foldl_filter]
  congr 1
  funext found ⟨pairName, value⟩
  split
  · rfl
  · rename_i hkeep
    cases hkey : entryKey? name pairName with
    | none => simp [hkey]
    | some key =>
        by_cases hempty : key = ""
        · simp [hkey, hempty]
        · simp only [entryKey?_eq_some_iff.mp hkey] at hkeep
          exact absurd (h key hempty) hkeep

theorem last?_eq_none_iff : query.last? name = none ↔ ∀ pair ∈ query.pairs, pair.1 ≠ name := by
  simp only [last?, List.lookup_eq_none_iff, List.mem_reverse, bne_iff_ne]
  exact forall₂_congr fun pair _ => ne_comm

theorem all_eq_nil_iff :
    query.all name = [] ↔
      ∀ pair ∈ query.pairs, pair.1 ≠ name ∧ pair.1 ≠ indexed name "" := by
  simp [all, List.filter_eq_nil_iff, entryKey?_eq_some_iff]

theorem putEntry_ne_nil
    (key value : String) (found : List (String × String)) : putEntry key value found ≠ [] := by
  cases found with
  | nil => simp [putEntry]
  | cons pair rest =>
      rw [putEntry]
      split <;> simp

theorem foldl_eq_nil_iff
    {α β : Type} {step : List β → α → List β} {p : α → Prop}
    (hstep : ∀ found x, step found x = [] ↔ found = [] ∧ ¬p x) (xs : List α) (found : List β) :
    xs.foldl step found = [] ↔ found = [] ∧ ∀ x ∈ xs, ¬p x := by
  induction xs generalizing found with
  | nil => simp
  | cons x rest ih => rw [List.foldl_cons, ih, hstep, List.forall_mem_cons, and_assoc]

theorem entries_eq_nil_iff :
    query.entries name = [] ↔
      ∀ pair ∈ query.pairs, ∀ key, key ≠ "" → pair.1 ≠ indexed name key := by
  rw [entries]
  refine (foldl_eq_nil_iff
    (p := fun pair => ∃ key, key ≠ "" ∧ entryKey? name pair.1 = some key) ?_ _ _).trans ?_
  · intro found pair
    obtain ⟨pairName, value⟩ := pair
    cases hkey : entryKey? name pairName with
    | none => simp [hkey]
    | some key =>
        by_cases hempty : key = ""
        · simp [hkey, hempty]
        · simp [hkey, hempty, putEntry_ne_nil]
  · simp [entryKey?_eq_some_iff]

/-! ### The entries of a name -/

theorem keys_putEntry
    (key value : String) (found : List (String × String)) :
    (putEntry key value found).map Prod.fst =
      if key ∈ found.map Prod.fst then found.map Prod.fst else found.map Prod.fst ++ [key] := by
  induction found with
  | nil => simp [putEntry]
  | cons pair rest ih =>
      obtain ⟨k, v⟩ := pair
      by_cases hk : k = key
      · simp [putEntry, hk]
      · rw [putEntry, if_neg hk, List.map_cons, ih]
        by_cases hmem : key ∈ rest.map Prod.fst
        · simp [hmem]
        · simp [hmem, Ne.symm hk]

theorem nodup_keys_putEntry
    (h : (found.map Prod.fst).Nodup) (key value : String) :
    ((putEntry key value found).map Prod.fst).Nodup := by
  rw [keys_putEntry]
  split
  · exact h
  · rename_i hmem
    simpa [List.nodup_append] using ⟨h, fun k v hk => ne_of_mem_of_not_mem
      (List.mem_map_of_mem hk) hmem⟩

/-- Among pairs with distinct keys one pair is put under its key. -/
theorem mem_putEntry_iff
    (h : (found.map Prod.fst).Nodup) {entry : String × String} :
    entry ∈ putEntry key value found ↔
      entry = (key, value) ∨ (entry.1 ≠ key ∧ entry ∈ found) := by
  induction found with
  | nil => simp [putEntry]
  | cons pair rest ih =>
      obtain ⟨k, v⟩ := pair
      obtain ⟨hfresh, hrest⟩ := List.nodup_cons.mp h
      by_cases hk : k = key
      · subst hk
        have hne : ∀ entry ∈ rest, entry.1 ≠ k :=
          fun entry hentry heq => hfresh (List.mem_map.mpr ⟨entry, hentry, heq⟩)
        rw [putEntry, if_pos rfl, List.mem_cons, List.mem_cons]
        apply or_congr_right
        constructor
        · intro hentry
          exact ⟨hne entry hentry, .inr hentry⟩
        · rintro ⟨hentry, rfl | hmem⟩
          · exact absurd rfl hentry
          · exact hmem
      · rw [putEntry, if_neg hk, List.mem_cons, ih hrest, List.mem_cons]
        constructor
        · rintro (rfl | rfl | ⟨hentry, hmem⟩)
          · exact .inr ⟨hk, .inl rfl⟩
          · exact .inl rfl
          · exact .inr ⟨hentry, .inr hmem⟩
        · rintro (rfl | ⟨hentry, rfl | hmem⟩)
          · exact .inr (.inl rfl)
          · exact .inl rfl
          · exact .inr (.inr ⟨hentry, hmem⟩)

theorem last?_concat
    (pairs : List (String × String)) (pair : String × String) (name : String) :
    last? ⟨pairs ++ [pair]⟩ name = if name = pair.1 then some pair.2 else last? ⟨pairs⟩ name := by
  obtain ⟨k, v⟩ := pair
  by_cases hname : name = k
  · simp [last?, hname]
  · have hbeq : (name == k) = false := by simpa using hname
    simp [last?, List.lookup_cons, hname, hbeq]

/-- One more pair puts its value under its key, if it has a key that is not empty. -/
theorem entries_concat
    (pairs : List (String × String)) (pair : String × String) (name : String) :
    entries ⟨pairs ++ [pair]⟩ name =
      (entryKey? name pair.1).elim (entries ⟨pairs⟩ name) fun key =>
        if key = "" then entries ⟨pairs⟩ name else putEntry key pair.2 (entries ⟨pairs⟩ name) := by
  rw [entries, List.foldl_append]
  cases hkey : entryKey? name pair.1 with
  | none => simp [hkey, entries]
  | some key => simp [hkey, entries]

/-- The entries of a name have distinct keys, none of them empty, and each has the last value that
the query gives it. -/
theorem entries_spec
    (query : Query) (name : String) :
    ((query.entries name).map Prod.fst).Nodup ∧
      ∀ entry, entry ∈ query.entries name ↔
        entry.1 ≠ "" ∧ query.last? (indexed name entry.1) = some entry.2 := by
  obtain ⟨pairs⟩ := query
  induction pairs using List.reverseRecOn with
  | nil => simp [entries, last?]
  | append_singleton rest pair ih =>
      obtain ⟨hnodup, hmem⟩ := ih
      have hindexed : ∀ key, indexed name key = pair.1 ↔ entryKey? name pair.1 = some key :=
        fun key => by rw [entryKey?_eq_some_iff, eq_comm]
      rw [entries_concat]
      simp only [last?_concat, hindexed]
      cases hkey : entryKey? name pair.1 with
      | none =>
          simp only [Option.elim_none, reduceCtorEq, if_false]
          exact ⟨hnodup, hmem⟩
      | some key =>
          rw [Option.elim_some]
          by_cases hempty : key = ""
          · subst hempty
            refine ⟨by simpa using hnodup, fun entry => ?_⟩
            simp only [if_true, hmem, Option.some.injEq]
            apply and_congr_right
            intro hentry
            rw [if_neg (Ne.symm hentry)]
          · simp only [if_neg hempty, Option.some.injEq]
            refine ⟨nodup_keys_putEntry hnodup key pair.2, fun entry => ?_⟩
            rw [mem_putEntry_iff hnodup, hmem]
            by_cases hentry : entry.1 = key
            · obtain ⟨k, v⟩ := entry
              obtain rfl : k = key := hentry
              simp [hempty, eq_comm]
            · have hne : entry ≠ (key, pair.2) := fun heq => hentry (congrArg Prod.fst heq)
              simp [hentry, hne, Ne.symm hentry]

/-! ### Kept pairs -/

theorem last?_of_restrict (h : (query.restrict keep).last? name = some value) :
    query.last? name = some value := by
  cases hkeep : keep name with
  | true => rwa [last?_restrict hkeep] at h
  | false =>
      have hnone : (query.restrict keep).last? name = none := by
        rw [last?_eq_none_iff]
        intro pair hpair hname
        have hkept := (List.mem_filter.mp hpair).2
        rw [hname, hkeep] at hkept
        cases hkept
      rw [hnone] at h
      cases h

theorem mem_all_of_restrict (h : value ∈ (query.restrict keep).all name) :
    value ∈ query.all name := by
  obtain ⟨pair, hpair, rfl⟩ := List.mem_map.mp h
  obtain ⟨hkept, hread⟩ := List.mem_filter.mp hpair
  exact List.mem_map_of_mem (List.mem_filter.mpr ⟨List.mem_of_mem_filter hkept, hread⟩)

theorem mem_entries_of_restrict
    {entry : String × String} (h : entry ∈ (query.restrict keep).entries name) :
    entry ∈ query.entries name := by
  rw [(entries_spec _ _).2] at h ⊢
  exact ⟨h.1, last?_of_restrict h.2⟩

theorem pairsOf_pairsOf (query : Query) (name : String) :
    (query.pairsOf name).pairsOf name = query.pairsOf name := by
  rw [pairsOf, pairsOf, restrict, restrict, List.filter_filter]
  simp only [Bool.and_self]

/-! ### Queries that write texts under one name -/

theorem last?_singleton (name text : String) : last? ⟨[(name, text)]⟩ name = some text := by
  simp [last?]

theorem all_map_pair
    (name : String) (texts : List String) :
    all ⟨texts.map fun text => (name, text)⟩ name = texts := by
  have hkept : ∀ pair ∈ texts.map (fun text => (name, text)),
      decide (pair.1 = name ∨ entryKey? name pair.1 = some "") = true := by
    simp
  rw [all, List.filter_eq_self.mpr hkept, List.map_map]
  exact List.map_id texts

theorem putEntry_of_notMem
    {key : String} {found : List (String × String)} (h : key ∉ found.map Prod.fst)
    (value : String) : putEntry key value found = found ++ [(key, value)] := by
  induction found with
  | nil => rfl
  | cons pair rest ih =>
      rw [List.map_cons, List.mem_cons, not_or] at h
      rw [putEntry, if_neg (Ne.symm h.1), ih h.2, List.cons_append]

theorem entries_map_indexed
    (name : String) {entries : List (String × String)} (hkeys : ∀ entry ∈ entries, entry.1 ≠ "")
    (hnodup : (entries.map Prod.fst).Nodup) :
    Query.entries ⟨entries.map fun entry => (indexed name entry.1, entry.2)⟩ name = entries := by
  induction entries using List.reverseRecOn with
  | nil => rfl
  | append_singleton rest entry ih =>
      rw [List.map_append, List.nodup_append] at hnodup
      obtain ⟨hrest, -, hapart⟩ := hnodup
      have hfresh : entry.1 ∉ rest.map Prod.fst := fun hmem => hapart _ hmem _ (by simp) rfl
      have hbefore := ih (fun e he => hkeys e (by simp [he])) hrest
      have hkey : entryKey? name (indexed name entry.1) = some entry.1 :=
        entryKey?_eq_some_iff.mpr rfl
      rw [List.map_append, List.map_singleton, entries_concat, hbefore, hkey, Option.elim_some,
        if_neg (hkeys entry (by simp))]
      exact putEntry_of_notMem hfresh entry.2

end Query

namespace TypeTable

/-- What a query gives to a field that is no record. -/
def leafValue? (types : TypeTable) (room : Nat) (query : Query) (f : VisibleField) :
    Except FieldError (Option Json) :=
  types.queryValue? room (fun _ _ _ => .ok none) query [] f

/-- Whether a field reads the pairs with a name. -/
def reads (types : TypeTable) (f : VisibleField) (pairName : String) : Bool :=
  match types.shape f.target with
  | .record _ _ => false
  | .sequence _ => pairName = f.lookupName || pairName = indexed f.lookupName ""
  | .table _ _ => (Query.entryKey? f.lookupName pairName).any (· ≠ "")
  | _ => pairName = f.lookupName

variable {types : TypeTable} {room : Nat} {query : Query} {f : VisibleField}

theorem eq_or_eq_indexed_of_reads
    {pairName : String} (h : types.reads f pairName = true) :
    pairName = f.lookupName ∨ ∃ key, pairName = indexed f.lookupName key := by
  rw [reads] at h
  generalize types.shape f.target = shape at h
  cases shape with
  | record id r => cases h
  | sequence element =>
      rcases Bool.or_eq_true_iff.mp h with h | h
      · exact .inl (of_decide_eq_true h)
      · exact .inr ⟨"", of_decide_eq_true h⟩
  | table keys values =>
      cases hkey : Query.entryKey? f.lookupName pairName with
      | none => simp [hkey] at h
      | some key => exact .inr ⟨key, Query.entryKey?_eq_some_iff.mp hkey⟩
  | _ => exact .inl (of_decide_eq_true h)

/-- Names without an opening bracket are told apart by what follows them. -/
theorem eq_of_indexed_eq
    {name other key key' : String} (hname : '[' ∉ name.toList) (hother : '[' ∉ other.toList)
    (h : indexed name key = indexed other key') : name = other := by
  have hprefix : ∀ (s k : String), '[' ∉ s.toList →
      (indexed s k).toList.takeWhile (· ≠ '[') = s.toList := by
    intro s k hs
    simp only [indexed, String.toList_append, List.append_assoc]
    rw [List.takeWhile_append_of_pos]
    · simp
    · intro c hc
      simpa using fun heq : c = '[' => hs (heq ▸ hc)
  rw [← String.toList_inj, ← hprefix name key hname, ← hprefix other key' hother, h]

/-- A field whose name is another one reads neither `name` nor `name[]`, if there are no brackets in
the two names. -/
theorem ne_of_reads
    {name pairName : String} (hf : '[' ∉ f.lookupName.toList) (hname : '[' ∉ name.toList)
    (hne : f.lookupName ≠ name) (h : types.reads f pairName = true) :
    pairName ≠ name ∧ pairName ≠ indexed name "" := by
  have hbracket : ∀ s k : String, '[' ∈ (indexed s k).toList := by
    intro s k
    simp [indexed]
  rcases eq_or_eq_indexed_of_reads h with rfl | ⟨key, rfl⟩
  · refine ⟨hne, ?_⟩
    intro heq
    exact hf (heq ▸ hbracket name "")
  · constructor
    · rintro rfl
      exact hname (hbracket _ _)
    · intro heq
      exact hne (eq_of_indexed_eq hf hname heq)

/-- How nested records are entered makes no difference to a field that is no record. -/
theorem queryValue?_of_leaf
    (hrecord : ∀ id r, types.shape f.target ≠ .record id r)
    (enter : String → Record → Json.Object → Except FieldError (Option Json.Object))
    (target : Json.Object) :
    types.queryValue? room enter query target f = types.leafValue? room query f := by
  rw [leafValue?, queryValue?, queryValue?]
  split
  · rename_i id r h
    exact absurd h (hrecord id r)
  · rfl
  · rfl
  · rfl

theorem leafValue?_of_single
    (hrecord : ∀ id r, types.shape f.target ≠ .record id r)
    (hsequence : ∀ element, types.shape f.target ≠ .sequence element)
    (htable : ∀ keys values, types.shape f.target ≠ .table keys values) :
    types.leafValue? room query f =
      match query.last? f.lookupName with
      | none => .ok none
      | some raw => (types.convertAt (room + 1) f.type (.string raw) f.lookupName).map some := by
  rw [leafValue?, queryValue?]
  split
  · rename_i h
    exact absurd h (hrecord _ _)
  · rename_i h
    exact absurd h (hsequence _)
  · rename_i h
    exact absurd h (htable _ _)
  · cases query.last? f.lookupName with
    | none => rfl
    | some raw =>
        cases types.convertAt (room + 1) f.type (.string raw) f.lookupName <;> rfl

theorem leafValue?_of_sequence
    {element : Ty} (hshape : types.shape f.target = .sequence element) {value : Json}
    (h : types.leafValue? room query f = .ok (some value)) :
    ∃ items, value = .array items ∧
      List.Forall₂ (fun (entry : String × Nat) item =>
          types.convertAt (room + 1) element (.string entry.1)
            (indexed f.lookupName (toString entry.2)) = .ok item)
        (query.all f.lookupName).zipIdx items := by
  simp only [leafValue?, queryValue?, hshape] at h
  cases hvalues : query.all f.lookupName with
  | nil => simp [hvalues] at h
  | cons first rest =>
      simp only [hvalues] at h
      obtain ⟨items, hitems, hvalue⟩ := Results.bind_eq_ok_iff.mp h
      obtain rfl := Option.some.inj (Except.ok.inj hvalue)
      exact ⟨items, rfl, Results.mapM_eq_ok_iff.mp hitems⟩

theorem leafValue?_of_table
    {keys values : Ty} (hshape : types.shape f.target = .table keys values) {value : Json}
    (h : types.leafValue? room query f = .ok (some value)) :
    ∃ members, value = .object (Members.ofList members) ∧
      List.Forall₂ (fun (entry : String × String) (member : String × Json) =>
          (∃ key, types.convertAt (room + 1) keys (.string entry.1)
            (indexed f.lookupName entry.1) = .ok key) ∧
          types.convertAt (room + 1) values (.string entry.2)
            (indexed f.lookupName entry.1) = .ok member.2 ∧ member.1 = entry.1)
        (query.entries f.lookupName) members := by
  simp only [leafValue?, queryValue?, hshape] at h
  cases hentries : query.entries f.lookupName with
  | nil => simp [hentries] at h
  | cons first rest =>
      simp only [hentries] at h
      obtain ⟨members, hmembers, hvalue⟩ := Results.bind_eq_ok_iff.mp h
      obtain rfl := Option.some.inj (Except.ok.inj hvalue)
      refine ⟨members, rfl, (Results.mapM_eq_ok_iff.mp hmembers).imp ?_⟩
      rintro ⟨key, text⟩ member hmember
      obtain ⟨key', hkey, hmember⟩ := Results.bind_eq_ok_iff.mp hmember
      obtain ⟨item, hitem, hmember⟩ := Results.bind_eq_ok_iff.mp hmember
      obtain rfl := Except.ok.inj hmember
      exact ⟨⟨key', hkey⟩, hitem, rfl⟩

/-- A field is given nothing exactly if it reads none of the pairs. -/
theorem leafValue?_eq_none_iff :
    types.leafValue? room query f = .ok none ↔
      ∀ pair ∈ query.pairs, types.reads f pair.1 = false := by
  have hlast : (∀ pair ∈ query.pairs, decide (pair.1 = f.lookupName) = false) ↔
      query.last? f.lookupName = none := by
    simp [Query.last?_eq_none_iff]
  rw [leafValue?, queryValue?]
  simp only [reads]
  generalize types.shape f.target = shape
  cases shape with
  | record id r => simp [bind, Except.bind]
  | sequence element =>
      have hall : (∀ pair ∈ query.pairs, (decide (pair.1 = f.lookupName) ||
          decide (pair.1 = indexed f.lookupName "")) = false) ↔ query.all f.lookupName = [] := by
        simp [Query.all_eq_nil_iff]
      rw [hall]
      cases query.all f.lookupName with
      | nil => simp
      | cons first rest => simp [Results.bind_eq_ok_iff]
  | table keys values =>
      have hentries : (∀ pair ∈ query.pairs,
          (Query.entryKey? f.lookupName pair.1).any (· ≠ "") = false) ↔
          query.entries f.lookupName = [] := by
        rw [Query.entries_eq_nil_iff]
        refine forall₂_congr fun pair _ => ?_
        simp only [ne_eq, ← Query.entryKey?_eq_some_iff]
        cases Query.entryKey? f.lookupName pair.1 with
        | none => simp
        | some key =>
            simp only [Option.any_some, Option.some.injEq, decide_eq_false_iff_not, not_not]
            constructor
            · rintro rfl other hother rfl
              exact hother rfl
            · intro h
              by_contra hkey
              exact h key hkey rfl
      rw [hentries]
      cases query.entries f.lookupName with
      | nil => simp
      | cons first rest => simp [Results.bind_eq_ok_iff]
  | _ =>
      rw [hlast]
      cases query.last? f.lookupName with
      | none => simp
      | some raw => simp [Results.bind_eq_ok_iff]

/-- The pairs that a field does not read make no difference to it. -/
theorem leafValue?_restrict
    {keep : String → Bool} (h : ∀ key, types.reads f key = true → keep key = true) :
    types.leafValue? room (query.restrict keep) f = types.leafValue? room query f := by
  rw [leafValue?, leafValue?, queryValue?, queryValue?]
  simp only [reads] at h
  generalize types.shape f.target = shape at h
  cases shape with
  | record id r => rfl
  | sequence element =>
      simp only [Query.all_restrict (h f.lookupName (by simp)) (h _ (by simp))]
  | table keys values =>
      have hentries : (query.restrict keep).entries f.lookupName = query.entries f.lookupName := by
        apply Query.entries_restrict
        intro key hkey
        apply h
        simp [Query.entryKey?_eq_some_iff.mpr rfl, hkey]
      simp only [hentries]
  | _ => simp only [Query.last?_restrict (h f.lookupName (by simp))]

theorem leafValue?_eq_of_pairsOf
    {query' : Query}
    (h : query.pairsOf f.lookupName = query'.pairsOf f.lookupName) (room : Nat) :
    types.leafValue? room query f = types.leafValue? room query' f := by
  have hpairs : ∀ q : Query, types.leafValue? room q f =
      types.leafValue? room (q.pairsOf f.lookupName) f := by
    intro q
    refine (leafValue?_restrict ?_).symm
    intro key hkey
    rcases eq_or_eq_indexed_of_reads hkey with rfl | ⟨k, rfl⟩
    · simp
    · simp [Query.entryKey?_eq_some_iff.mpr rfl]
  rw [hpairs query, hpairs query', h]

theorem leafValue?_of_pairsOf_eq_empty
    (h : query.pairsOf f.lookupName = .empty) (room : Nat) :
    types.leafValue? room query f = .ok none := by
  have hpairs : query.pairsOf f.lookupName = Query.empty.pairsOf f.lookupName := by
    rw [h]
    rfl
  rw [leafValue?_eq_of_pairsOf hpairs]
  exact leafValue?_eq_none_iff.mpr (by simp [Query.empty])

end TypeTable
end TypedRoutes
