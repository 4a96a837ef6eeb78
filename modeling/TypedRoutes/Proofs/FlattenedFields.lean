import Mathlib.Data.List.Lex
import TypedRoutes.Proofs.RequestSoundness

/-!
# Flattening in order

Flattening replaces a field by the fields of its record, in place.  A listed field is therefore told
by its trail: the flattened fields that lead to it, and last the field itself, each with its
position.  Which trails there are is a matter of the types alone, `Shows`, and the fields are listed
in the lexicographic order of positions, each once.  Two fields are of one group if their trails
enter the same optional record first.
-/

namespace TypedRoutes

/-! ## Trails -/

/-- A field, with its position in its record, and before it the flattened fields that it is reached
through. -/
abbrev Trail := List (Field × Nat)

namespace Trail

/-- The positions of the fields on a trail. -/
def positions (trail : Trail) : List Nat :=
  trail.map Prod.snd

/-- The positions down to the outermost optional record that a trail enters. -/
def crossed? : Trail → Option (List Nat)
  | [] | [_] => none
  | entry :: next :: rest =>
    if entry.1.type.isOption then some [entry.2]
    else (crossed? (next :: rest)).map (entry.2 :: ·)

variable {entry : Field × Nat} {trail : Trail}

theorem crossed?_of_isOption
    (h : trail ≠ []) (hoption : entry.1.type.isOption = true) :
    crossed? (entry :: trail) = some [entry.2] := by
  cases trail with
  | nil => exact absurd rfl h
  | cons next rest => rw [crossed?, if_pos hoption]

theorem crossed?_of_not_isOption
    (h : trail ≠ []) (hoption : entry.1.type.isOption = false) :
    crossed? (entry :: trail) = (crossed? trail).map (entry.2 :: ·) := by
  cases trail with
  | nil => exact absurd rfl h
  | cons next rest => rw [crossed?, hoption, if_neg Bool.false_ne_true]

/-- A trail enters no optional record if no field before the last one is optional. -/
theorem crossed?_eq_none_iff :
    crossed? trail = none ↔ ∀ entry ∈ trail.dropLast, entry.1.type.isOption = false := by
  induction trail with
  | nil => simp [crossed?]
  | cons entry rest ih =>
      cases rest with
      | nil => simp [crossed?]
      | cons next rest =>
          rw [List.dropLast_cons_cons, List.forall_mem_cons, ← ih]
          cases hoption : entry.1.type.isOption with
          | true => simp [crossed?_of_isOption (List.cons_ne_nil next rest) hoption]
          | false => simp [crossed?_of_not_isOption (List.cons_ne_nil next rest) hoption]

/-- An optional record that a trail enters is found by the position of its first field. -/
theorem head?_of_crossed?
    {positions : List Nat} (h : crossed? (entry :: trail) = some positions) :
    positions.head? = some entry.2 := by
  cases trail with
  | nil => cases h
  | cons next rest =>
      rw [crossed?] at h
      split at h
      · obtain rfl := Option.some.inj h
        rfl
      · obtain ⟨inner, -, rfl⟩ := Option.map_eq_some_iff.mp h
        rfl

end Trail

/-! ## The fields that a record shows -/

/-- A field that carries no route. -/
def Field.IsPlain (field : Field) : Prop :=
  field.marker = false ∧ field.type ≠ .marker

namespace VisibleField

variable {f : VisibleField}

theorem isOptional_iff : f.isOptional = true ↔ f.type.isOption = true ∨ f.group ≠ none := by
  rw [isOptional, Bool.or_eq_true, Option.isSome_iff_ne_none]

theorem isOptional_eq_false_of_isRequired (h : f.isRequired = true) : f.isOptional = false := by
  rw [isRequired, Bool.and_eq_true, Bool.not_eq_true'] at h
  exact h.1

end VisibleField

namespace TypeTable

variable {types : TypeTable} {path : List String} {crossing : Crossing} {field : Field}
  {entry : Field × Nat} {entries : List (Field × Nat)} {trail : Trail} {id : String} {r : Record}
  {before middle after : Nat} {found : List VisibleField}

/-- A field is replaced by the fields of a record. -/
def Flattens (types : TypeTable) (field : Field) (id : String) (r : Record) : Prop :=
  field.flatten = true ∧ types.record? field.type = some (id, r)

/-- A trail leads from some fields to one that is shown.  It enters no record that is already on
`path`, and none once the path has `maxFlatten` records. -/
inductive Shows (types : TypeTable) : List String → List (Field × Nat) → Trail → Prop
  | own {path : List String} {entries : List (Field × Nat)} {entry : Field × Nat}
      (hentry : entry ∈ entries) (hplain : entry.1.IsPlain)
      (hown : ∀ id r, ¬types.Flattens entry.1 id r) : Shows types path entries [entry]
  | flattened {path : List String} {entries : List (Field × Nat)} {entry : Field × Nat}
      {id : String} {r : Record} {trail : Trail} (hentry : entry ∈ entries)
      (hplain : entry.1.IsPlain) (hflattens : types.Flattens entry.1 id r) (hid : id ∉ path)
      (hlength : path.length < maxFlatten)
      (htrail : Shows types (id :: path) r.fields.zipIdx trail) :
      Shows types path entries (entry :: trail)

theorem Shows.exists_head
    (h : types.Shows path entries trail) : ∃ entry ∈ entries, ∃ rest, trail = entry :: rest := by
  cases h with
  | own hentry => exact ⟨_, hentry, _, rfl⟩
  | flattened hentry => exact ⟨_, hentry, _, rfl⟩

theorem Shows.ne_nil (h : types.Shows path entries trail) : trail ≠ [] := by
  obtain ⟨entry, -, rest, rfl⟩ := h.exists_head
  exact List.cons_ne_nil entry rest

/-- The last field of a trail is shown itself. -/
theorem Shows.exists_last
    (h : types.Shows path entries trail) :
    ∃ entry, trail.getLast? = some entry ∧ ∀ id r, ¬types.Flattens entry.1 id r := by
  induction h with
  | own hentry hplain hown => exact ⟨_, rfl, hown⟩
  | flattened hentry hplain hflattens hid hlength htrail ih =>
      obtain ⟨last, hlast, hown⟩ := ih
      refine ⟨last, ?_, hown⟩
      rw [List.getLast?_cons_of_ne_nil htrail.ne_nil, hlast]

theorem Shows.mono
    (h : types.Shows path entries trail) {entries' : List (Field × Nat)}
    (hsubset : entries ⊆ entries') : types.Shows path entries' trail := by
  cases h with
  | own hentry hplain hown => exact .own (hsubset hentry) hplain hown
  | flattened hentry hplain hflattens hid hlength htrail =>
      exact .flattened (hsubset hentry) hplain hflattens hid hlength htrail

theorem Shows.exists_single
    (h : types.Shows path entries trail) : ∃ entry ∈ entries, types.Shows path [entry] trail := by
  cases h with
  | own hentry hplain hown => exact ⟨_, hentry, .own (List.mem_singleton_self _) hplain hown⟩
  | flattened hentry hplain hflattens hid hlength htrail =>
      exact ⟨_, hentry,
        .flattened (List.mem_singleton_self _) hplain hflattens hid hlength htrail⟩

theorem shows_cons_iff :
    types.Shows path (entry :: entries) trail ↔
      types.Shows path [entry] trail ∨ types.Shows path entries trail := by
  constructor
  · intro h
    obtain ⟨first, hfirst, hsingle⟩ := h.exists_single
    rcases List.mem_cons.mp hfirst with rfl | hfirst
    · exact .inl hsingle
    · exact .inr (hsingle.mono (by simpa using hfirst))
  · rintro (h | h)
    · exact h.mono (by simp)
    · exact h.mono (List.subset_cons_self entry entries)

theorem not_shows_nil : ¬types.Shows path [] trail := by
  intro h
  obtain ⟨entry, hentry, -⟩ := h.exists_head
  cases hentry

/-! ## One step of the walk -/

/-- What the walk over a record does with one of its fields. -/
def walkStep (types : TypeTable) (fuel : Nat) (path : List String) (crossing : Crossing)
    (walked : List VisibleField × Nat) (field : Field) : List VisibleField × Nat :=
  let (found, groups) := walked
  if field.marker then (found, groups)
  else if field.type = .marker then (found, groups)
  else
    match if field.flatten then types.record? field.type else none with
    | some (id, inner) =>
      if path.contains id || maxFlatten ≤ path.length then (found, groups)
      else
        let (group, groups) :=
          match crossing.group with
          | some group => (some group, groups)
          | none => if field.type.isOption then (some groups, groups + 1) else (none, groups)
        let (fields, groups) := types.walk fuel (id :: path) ⟨true, group⟩ inner groups
        (found ++ fields, groups)
    | none => (found ++ [visibleField crossing field], groups)

theorem walk_succ (fuel : Nat) :
    types.walk (fuel + 1) path crossing r before =
      r.fields.foldl (types.walkStep fuel path crossing) ([], before) :=
  rfl

/-- The group of the fields that a flattened field is replaced by, and the number of groups with
it. -/
def openedGroup (crossing : Crossing) (field : Field) (groups : Nat) : Option Nat × Nat :=
  match crossing.group with
  | some group => (some group, groups)
  | none => if field.type.isOption then (some groups, groups + 1) else (none, groups)

variable {fuel : Nat}

theorem walkStep_of_not_isPlain
    (h : ¬field.IsPlain) :
    types.walkStep fuel path crossing (found, before) field = (found, before) := by
  by_cases hmarker : field.marker = true
  · simp [walkStep, hmarker]
  · have htype : field.type = .marker := by
      simpa [Field.IsPlain, hmarker] using h
    simp [walkStep, hmarker, htype]

theorem walkStep_of_own
    (hplain : field.IsPlain) (hown : ∀ id r, ¬types.Flattens field id r) :
    types.walkStep fuel path crossing (found, before) field =
      (found ++ [visibleField crossing field], before) := by
  have hentered : (if field.flatten then types.record? field.type else none) = none := by
    split
    · rename_i hflatten
      rw [Option.eq_none_iff_forall_ne_some]
      exact fun inner hinner => hown inner.1 inner.2 ⟨hflatten, hinner⟩
    · rfl
  simp [walkStep, hplain.1, hplain.2, hentered]

theorem walkStep_of_closed
    (hplain : field.IsPlain) (hflattens : types.Flattens field id r)
    (hclosed : id ∈ path ∨ maxFlatten ≤ path.length) :
    types.walkStep fuel path crossing (found, before) field = (found, before) := by
  simp [walkStep, hplain.1, hplain.2, hflattens.1, hflattens.2, hclosed]

theorem walkStep_of_entered
    (hplain : field.IsPlain) (hflattens : types.Flattens field id r) (hid : id ∉ path)
    (hlength : path.length < maxFlatten) {listed : List VisibleField}
    (hwalk : types.walk fuel (id :: path) ⟨true, (openedGroup crossing field before).1⟩ r
      (openedGroup crossing field before).2 = (listed, after)) :
    types.walkStep fuel path crossing (found, before) field = (found ++ listed, after) := by
  have hopen : ¬(id ∈ path ∨ maxFlatten ≤ path.length) := by
    rintro (h | h)
    · exact hid h
    · omega
  simp only [walkStep, hplain.1, hplain.2, hflattens.1, hflattens.2, List.contains_iff_mem,
    Bool.or_eq_true, decide_eq_true_eq, hopen, if_true, if_false, Bool.false_eq_true]
  rw [openedGroup] at hwalk
  rw [hwalk]

/-! ## Groups -/

variable {listed listed' : List (VisibleField × Trail)} {x y : VisibleField × Trail}

/-- Fields that were found outside optional records have groups that were opened in the meantime,
one for each optional record that their trails enter. -/
structure IsNumbered (before after : Nat) (listed : List (VisibleField × Trail)) : Prop where
  range : ∀ x ∈ listed, ∀ n, x.1.group = some n → before ≤ n ∧ n < after
  crossed : ∀ x ∈ listed, x.1.group = none ↔ x.2.crossed? = none
  same : ∀ x ∈ listed, ∀ y ∈ listed, x.1.group = y.1.group ↔ x.2.crossed? = y.2.crossed?

theorem IsNumbered.same_iff_of_apart
    (h : IsNumbered before middle listed) (h' : IsNumbered middle after listed')
    (hx : x ∈ listed) (hy : y ∈ listed')
    (hapart : ∀ place, x.2.crossed? = some place → y.2.crossed? ≠ some place) :
    x.1.group = y.1.group ↔ x.2.crossed? = y.2.crossed? := by
  -- Groups below `middle` and from `middle` on differ, as the optional records do.
  cases hgroup : x.1.group with
  | none =>
      rw [(h.crossed x hx).mp hgroup, eq_comm, h'.crossed y hy, eq_comm]
  | some n =>
      constructor
      · intro hsame
        have hbelow := h.range x hx n hgroup
        have habove := h'.range y hy n hsame.symm
        omega
      · intro hsame
        cases hcrossed : x.2.crossed? with
        | none =>
            rw [(h.crossed x hx).mpr hcrossed] at hgroup
            cases hgroup
        | some place => exact absurd (hsame.symm.trans hcrossed) (hapart place hcrossed)

theorem IsNumbered.append
    (h : IsNumbered before middle listed) (h' : IsNumbered middle after listed')
    (hle : before ≤ middle) (hle' : middle ≤ after)
    (hapart : ∀ x ∈ listed, ∀ y ∈ listed', ∀ place, x.2.crossed? = some place →
      y.2.crossed? ≠ some place) :
    IsNumbered before after (listed ++ listed') := by
  have hsame : ∀ x ∈ listed, ∀ y ∈ listed',
      (x.1.group = y.1.group ↔ x.2.crossed? = y.2.crossed?) :=
    fun x hx y hy => h.same_iff_of_apart h' hx hy (hapart x hx y hy)
  refine ⟨?_, ?_, ?_⟩
  · intro x hx n hn
    rcases List.mem_append.mp hx with hx | hx
    · have hrange := h.range x hx n hn
      omega
    · have hrange := h'.range x hx n hn
      omega
  · intro x hx
    rcases List.mem_append.mp hx with hx | hx
    · exact h.crossed x hx
    · exact h'.crossed x hx
  · intro x hx y hy
    rcases List.mem_append.mp hx with hx | hx <;> rcases List.mem_append.mp hy with hy | hy
    · exact h.same x hx y hy
    · exact hsame x hx y hy
    · rw [eq_comm, hsame y hy x hx, eq_comm]
    · exact h'.same x hx y hy

/-- The fields that come through one optional record are a group. -/
theorem isNumbered_of_isOption
    (hgroup : ∀ x ∈ listed, x.1.group = some before) (htrail : ∀ x ∈ listed, x.2 ≠ [])
    (hlt : before < after) (hoption : entry.1.type.isOption = true) :
    IsNumbered before after (listed.map fun x => (x.1, entry :: x.2)) := by
  have hcrossed : ∀ x ∈ listed, Trail.crossed? (entry :: x.2) = some [entry.2] :=
    fun x hx => Trail.crossed?_of_isOption (htrail x hx) hoption
  constructor
  · rw [List.forall_mem_map]
    intro x hx n hn
    obtain rfl := Option.some.inj ((hgroup x hx).symm.trans hn)
    exact ⟨le_rfl, hlt⟩
  · rw [List.forall_mem_map]
    intro x hx
    simp [hgroup x hx, hcrossed x hx]
  · simp only [List.forall_mem_map]
    intro x hx y hy
    simp [hgroup x hx, hcrossed x hx, hgroup y hy, hcrossed y hy]

/-- A flattened record that is not optional keeps the groups of its fields apart. -/
theorem IsNumbered.cons
    (h : IsNumbered before after listed) (htrail : ∀ x ∈ listed, x.2 ≠ [])
    (hoption : entry.1.type.isOption = false) :
    IsNumbered before after (listed.map fun x => (x.1, entry :: x.2)) := by
  have hcrossed : ∀ x ∈ listed, Trail.crossed? (entry :: x.2) =
      x.2.crossed?.map (entry.2 :: ·) :=
    fun x hx => Trail.crossed?_of_not_isOption (htrail x hx) hoption
  constructor
  · rw [List.forall_mem_map]
    exact h.range
  · rw [List.forall_mem_map]
    intro x hx
    rw [hcrossed x hx, Option.map_eq_none_iff]
    exact h.crossed x hx
  · simp only [List.forall_mem_map]
    intro x hx y hy
    rw [hcrossed x hx, hcrossed y hy, (Option.map_injective List.cons_injective).eq_iff]
    exact h.same x hx y hy

/-! ## What the walk lists -/

/-- Fields are listed with their trails, where `before` groups exist before the walk over them and
`after` groups afterwards. -/
structure Walked (types : TypeTable) (path : List String) (crossing : Crossing)
    (entries : List (Field × Nat)) (before after : Nat) (listed : List (VisibleField × Trail)) :
    Prop where
  complete : ∀ trail, trail ∈ listed.map Prod.snd ↔ types.Shows path entries trail
  ordered : (listed.map Prod.snd).Pairwise fun a b => a.positions < b.positions
  view : ∀ x ∈ listed, ∃ entry, x.2.getLast? = some entry ∧
    x.1 = visibleField ⟨crossing.embedded || decide (1 < x.2.length), x.1.group⟩ entry.1
  le : before ≤ after
  inherited : ∀ group, crossing.group = some group → ∀ x ∈ listed, x.1.group = some group
  numbered : crossing.group = none → IsNumbered before after listed

theorem Walked.shows
    (h : types.Walked path crossing entries before after listed) (hx : x ∈ listed) :
    types.Shows path entries x.2 :=
  (h.complete x.2).mp (List.mem_map_of_mem hx)

theorem walked_of_not_shows
    (h : ∀ trail, ¬types.Shows path entries trail) :
    types.Walked path crossing entries before before [] where
  complete := by simpa using h
  ordered := .nil
  view := by simp
  le := le_rfl
  inherited := by simp
  numbered := fun _ => ⟨by simp, by simp, by simp⟩

theorem walked_own
    (hplain : entry.1.IsPlain) (hown : ∀ id r, ¬types.Flattens entry.1 id r) :
    types.Walked path crossing [entry] before before
      [(visibleField crossing entry.1, [entry])] where
  complete trail := by
    rw [List.map_singleton, List.mem_singleton]
    constructor
    · rintro rfl
      exact .own (List.mem_singleton_self _) hplain hown
    · intro h
      cases h with
      | own hentry => rw [List.mem_singleton.mp hentry]
      | flattened hentry _ hflattens =>
          obtain rfl := List.mem_singleton.mp hentry
          exact absurd hflattens (hown _ _)
  ordered := List.pairwise_singleton _ _
  view x hx := by
    rw [List.mem_singleton.mp hx]
    exact ⟨entry, rfl, by simp [visibleField]⟩
  le := le_rfl
  inherited := by simp [visibleField]
  numbered hnone := by
    have hgroup : (visibleField crossing entry.1).group = none := hnone
    exact ⟨by simp [hgroup], by simp [hgroup, Trail.crossed?], by simp⟩

/-- Replacing a flattened field by the fields of its record puts it in front of their trails. -/
theorem Walked.entered
    (h : types.Walked (id :: path) ⟨true, (openedGroup crossing entry.1 before).1⟩ r.fields.zipIdx
      (openedGroup crossing entry.1 before).2 after listed)
    (hplain : entry.1.IsPlain) (hflattens : types.Flattens entry.1 id r) (hid : id ∉ path)
    (hlength : path.length < maxFlatten) :
    types.Walked path crossing [entry] before after
      (listed.map fun x => (x.1, entry :: x.2)) := by
  have htrail : ∀ x ∈ listed, x.2 ≠ [] := fun x hx => (h.shows hx).ne_nil
  have hsnd : (listed.map fun x => (x.1, entry :: x.2)).map Prod.snd =
      (listed.map Prod.snd).map (entry :: ·) := by
    simp
  have hle := h.le
  refine ⟨?_, ?_, ?_, ?_, ?_, ?_⟩
  · intro trail
    rw [hsnd, List.mem_map]
    constructor
    · rintro ⟨rest, hrest, rfl⟩
      exact .flattened (List.mem_singleton_self _) hplain hflattens hid hlength
        ((h.complete rest).mp hrest)
    · intro hshows
      cases hshows with
      | own hentry _ hown =>
          obtain rfl := List.mem_singleton.mp hentry
          exact absurd hflattens (hown _ _)
      | flattened hentry _ hflattens' _ _ hrest =>
          obtain rfl := List.mem_singleton.mp hentry
          obtain ⟨rfl, rfl⟩ := Prod.mk.inj
            (Option.some.inj (hflattens.2.symm.trans hflattens'.2))
          exact ⟨_, (h.complete _).mpr hrest, rfl⟩
  · rw [hsnd, List.pairwise_map]
    refine h.ordered.imp ?_
    intro a b hab
    exact List.cons_lt_cons_iff.mpr (.inr ⟨rfl, hab⟩)
  · rw [List.forall_mem_map]
    intro x hx
    obtain ⟨last, hlast, hview⟩ := h.view x hx
    have hlong : 1 < (entry :: x.2).length := by
      simpa using List.length_pos_of_ne_nil (htrail x hx)
    refine ⟨last, ?_, ?_⟩
    · rw [List.getLast?_cons_of_ne_nil (htrail x hx), hlast]
    · rw [decide_eq_true hlong, Bool.or_true]
      exact hview
  · rw [openedGroup] at hle
    split at hle
    · exact hle
    · split at hle
      · exact Nat.le_of_succ_le hle
      · exact hle
  · intro group hgroup
    rw [List.forall_mem_map]
    exact h.inherited group (by simp [openedGroup, hgroup])
  · intro hgroup
    -- An optional record opens the group `before` for all of its fields, whatever is inside.
    cases hoption : entry.1.type.isOption with
    | true =>
        have hopened : openedGroup crossing entry.1 before = (some before, before + 1) := by
          simp [openedGroup, hgroup, hoption]
        rw [hopened] at h hle
        exact isNumbered_of_isOption (h.inherited before rfl) htrail hle hoption
    | false =>
        have hopened : openedGroup crossing entry.1 before = (none, before) := by
          simp [openedGroup, hgroup, hoption]
        rw [hopened] at h
        exact (h.numbered rfl).cons htrail hoption

/-- The trails of different fields do not meet. -/
theorem Walked.cons
    (h : types.Walked path crossing [entry] before middle listed)
    (h' : types.Walked path crossing entries middle after listed')
    (hlt : ∀ other ∈ entries, entry.2 < other.2) :
    types.Walked path crossing (entry :: entries) before after (listed ++ listed') := by
  have hhead : ∀ x ∈ listed, ∃ rest, x.2 = entry :: rest := by
    intro x hx
    obtain ⟨first, hfirst, rest, htrail⟩ := (h.shows hx).exists_head
    rw [List.mem_singleton.mp hfirst] at htrail
    exact ⟨rest, htrail⟩
  refine ⟨?_, ?_, ?_, h.le.trans h'.le, ?_, ?_⟩
  · intro trail
    rw [List.map_append, List.mem_append, h.complete, h'.complete]
    exact shows_cons_iff.symm
  · rw [List.map_append, List.pairwise_append]
    refine ⟨h.ordered, h'.ordered, ?_⟩
    intro a ha b hb
    obtain ⟨x, hx, rfl⟩ := List.mem_map.mp ha
    obtain ⟨y, hy, rfl⟩ := List.mem_map.mp hb
    obtain ⟨rest, hrest⟩ := hhead x hx
    obtain ⟨other, hother, rest', hrest'⟩ := (h'.shows hy).exists_head
    rw [hrest, hrest']
    exact List.cons_lt_cons_iff.mpr (.inl (hlt other hother))
  · intro x hx
    rcases List.mem_append.mp hx with hx | hx
    · exact h.view x hx
    · exact h'.view x hx
  · intro group hgroup x hx
    rcases List.mem_append.mp hx with hx | hx
    · exact h.inherited group hgroup x hx
    · exact h'.inherited group hgroup x hx
  · intro hgroup
    refine (h.numbered hgroup).append (h'.numbered hgroup) h.le h'.le ?_
    intro x hx y hy place hcrossed hcrossed'
    obtain ⟨rest, hrest⟩ := hhead x hx
    obtain ⟨other, hother, rest', hrest'⟩ := (h'.shows hy).exists_head
    rw [hrest] at hcrossed
    rw [hrest'] at hcrossed'
    have hsame := (Trail.head?_of_crossed? hcrossed).symm.trans (Trail.head?_of_crossed? hcrossed')
    exact (hlt other hother).ne (Option.some.inj hsame)

/-- If the fields of a record are gone through one by one, they are listed in order. -/
theorem exists_walked_of_steps
    (hstep : ∀ entry ∈ entries, ∀ before, ∃ listed after,
      (∀ found, types.walkStep fuel path crossing (found, before) entry.1 =
        (found ++ listed.map Prod.fst, after)) ∧
      types.Walked path crossing [entry] before after listed)
    (hsorted : entries.Pairwise fun a b => a.2 < b.2) (found : List VisibleField) (before : Nat) :
    ∃ listed after,
      entries.foldl (fun walked entry => types.walkStep fuel path crossing walked entry.1)
        (found, before) = (found ++ listed.map Prod.fst, after) ∧
      types.Walked path crossing entries before after listed := by
  induction entries generalizing found before with
  | nil =>
      exact ⟨[], before, by simp, walked_of_not_shows fun _ => not_shows_nil⟩
  | cons entry entries ih =>
      obtain ⟨hlt, hsorted⟩ := List.pairwise_cons.mp hsorted
      obtain ⟨listed, middle, hfirst, hwalked⟩ := hstep entry (by simp) before
      obtain ⟨listed', after, hrest, hwalked'⟩ :=
        ih (fun other hother => hstep other (by simp [hother])) hsorted
          (found ++ listed.map Prod.fst) middle
      refine ⟨listed ++ listed', after, ?_, hwalked.cons hwalked' hlt⟩
      rw [List.foldl_cons, hfirst, hrest, List.map_append, List.append_assoc]

/-- One field is left out, listed or replaced by the fields of its record. -/
theorem exists_walked_step
    (hwalk : ∀ id r crossing before, path.length < maxFlatten → ∃ listed after,
      types.walk fuel (id :: path) crossing r before = (listed.map Prod.fst, after) ∧
      types.Walked (id :: path) crossing r.fields.zipIdx before after listed)
    (crossing : Crossing) (entry : Field × Nat) (before : Nat) :
    ∃ listed after,
      (∀ found, types.walkStep fuel path crossing (found, before) entry.1 =
        (found ++ listed.map Prod.fst, after)) ∧
      types.Walked path crossing [entry] before after listed := by
  by_cases hplain : entry.1.IsPlain
  · by_cases hflattens : ∃ id r, types.Flattens entry.1 id r
    · obtain ⟨id, r, hflattens⟩ := hflattens
      by_cases hclosed : id ∈ path ∨ maxFlatten ≤ path.length
      · refine ⟨[], before, fun found => ?_, walked_of_not_shows fun trail hshows => ?_⟩
        · rw [walkStep_of_closed hplain hflattens hclosed, List.map_nil, List.append_nil]
        · cases hshows with
          | own hentry _ hown =>
              obtain rfl := List.mem_singleton.mp hentry
              exact hown id r hflattens
          | flattened hentry _ hflattens' hid hlength =>
              obtain rfl := List.mem_singleton.mp hentry
              obtain ⟨rfl, rfl⟩ := Prod.mk.inj
                (Option.some.inj (hflattens.2.symm.trans hflattens'.2))
              rcases hclosed with hclosed | hclosed
              · exact hid hclosed
              · omega
      · obtain ⟨hid, hlength⟩ := not_or.mp hclosed
        obtain ⟨listed, after, hlisted, hwalked⟩ := hwalk id r
          ⟨true, (openedGroup crossing entry.1 before).1⟩ (openedGroup crossing entry.1 before).2
          (not_le.mp hlength)
        refine ⟨listed.map fun x => (x.1, entry :: x.2), after, fun found => ?_,
          hwalked.entered hplain hflattens hid (not_le.mp hlength)⟩
        rw [walkStep_of_entered hplain hflattens hid (not_le.mp hlength) hlisted, List.map_map]
        rfl
    · have hown : ∀ id r, ¬types.Flattens entry.1 id r := by simpa using hflattens
      exact ⟨_, before, fun found => walkStep_of_own hplain hown, walked_own hplain hown⟩
  · refine ⟨[], before, fun found => ?_, walked_of_not_shows fun trail hshows => ?_⟩
    · rw [walkStep_of_not_isPlain hplain, List.map_nil, List.append_nil]
    · cases hshows with
      | own hentry hplain' | flattened hentry hplain' =>
          obtain rfl := List.mem_singleton.mp hentry
          exact hplain hplain'

/-- The walk over a record lists the fields that it shows.  The fuel suffices, since a path has at
most `maxFlatten` records. -/
theorem exists_walked
    (hpath : path.length ≤ maxFlatten) (hfuel : maxFlatten < fuel + path.length)
    (crossing : Crossing) (r : Record) (before : Nat) :
    ∃ listed after, types.walk fuel path crossing r before = (listed.map Prod.fst, after) ∧
      types.Walked path crossing r.fields.zipIdx before after listed := by
  induction fuel generalizing path crossing r before with
  | zero => omega
  | succ fuel ih =>
      have hsorted : r.fields.zipIdx.Pairwise fun a b => a.2 < b.2 := by
        rw [← List.pairwise_map (f := Prod.snd) (R := (· < ·)), List.zipIdx_map_snd]
        exact List.pairwise_lt_range'
      have hwalk : ∀ id r crossing before, path.length < maxFlatten → ∃ listed after,
          types.walk fuel (id :: path) crossing r before = (listed.map Prod.fst, after) ∧
          types.Walked (id :: path) crossing r.fields.zipIdx before after listed := by
        intro id r crossing before hlength
        -- What the fuel loses the path gains.
        refine ih ?_ ?_ crossing r before
        · exact hlength
        · rw [List.length_cons]
          omega
      obtain ⟨listed, after, hlisted, hwalked⟩ :=
        exists_walked_of_steps
          (fun entry _ before => exists_walked_step hwalk crossing entry before) hsorted [] before
      refine ⟨listed, after, ?_, hwalked⟩
      rw [walk_succ, ← List.zipIdx_map_fst 0 r.fields, List.foldl_map, hlisted, List.nil_append]

/-- The fields of a record are its flattening in order.  They belong to the trails that the record
shows, and are listed by the positions on these; what a field is like is told by the last field of
its trail, which is not flattened itself.  Two fields are of the same group if their trails enter
the same optional record first, and a field is in no group if its trail enters none.  A field may be
left out if it is optional itself or in a group, and is not required then. -/
theorem fields_flatten_in_order
    {t : Ty} (hrecord : types.record? t = some (id, r)) :
    ∃ listed : List (VisibleField × Trail),
      listed.map Prod.fst = types.fields t ∧
      (∀ trail, trail ∈ listed.map Prod.snd ↔ types.Shows [id] r.fields.zipIdx trail) ∧
      ((listed.map Prod.snd).Pairwise fun a b => a.positions < b.positions) ∧
      (∀ x ∈ listed, ∃ entry, x.2.getLast? = some entry ∧
        ¬(entry.1.flatten = true ∧ (types.record? entry.1.type).isSome = true) ∧
        x.1 = visibleField ⟨decide (1 < x.2.length), x.1.group⟩ entry.1) ∧
      (∀ x ∈ listed, ∀ y ∈ listed, x.1.group = y.1.group ↔ x.2.crossed? = y.2.crossed?) ∧
      (∀ x ∈ listed, x.1.group = none ↔
        ∀ entry ∈ x.2.dropLast, entry.1.type.isOption = false) ∧
      ∀ f ∈ types.fields t,
        (f.isOptional = true ↔ f.type.isOption = true ∨ f.group ≠ none) ∧
        (f.isRequired = true → f.isOptional = false) := by
  have hpath : [id].length ≤ maxFlatten := by
    rw [List.length_singleton]
    decide
  have hfuel : maxFlatten < maxFlatten + [id].length := Nat.lt_succ_self maxFlatten
  obtain ⟨listed, after, hlisted, hwalked⟩ := exists_walked hpath hfuel ⟨false, none⟩ r 0
  have hfields : types.fields t = listed.map Prod.fst := by
    rw [fields, hrecord]
    exact congrArg Prod.fst hlisted
  have hnumbered := hwalked.numbered rfl
  refine ⟨listed, hfields.symm, hwalked.complete, hwalked.ordered, ?_, hnumbered.same, ?_, ?_⟩
  · intro x hx
    obtain ⟨entry, hlast, hview⟩ := hwalked.view x hx
    obtain ⟨entry', hlast', hown⟩ := (hwalked.shows hx).exists_last
    obtain rfl := Option.some.inj (hlast.symm.trans hlast')
    refine ⟨entry, hlast, ?_, hview⟩
    rintro ⟨hflatten, hrecord⟩
    obtain ⟨inner, hinner⟩ := Option.isSome_iff_exists.mp hrecord
    exact hown inner.1 inner.2 ⟨hflatten, hinner⟩
  · intro x hx
    rw [hnumbered.crossed x hx, Trail.crossed?_eq_none_iff]
  · intro f _
    exact ⟨VisibleField.isOptional_iff, VisibleField.isOptional_eq_false_of_isRequired⟩

/-! ## A booking with two spans -/

/-- A span of days in a booking; its way back to the booking is not followed. -/
def span : Record where
  name := "Span"
  fields := [plainField "first" (.time .date) false, plainField "booking" (.named "Booking") true]
  doc := none

/-- A booking with two spans of days, each of which may be left out. -/
def booking : Record where
  name := "Booking"
  fields := [plainField "stay" (.option (.named "Span")) true,
    plainField "guests" (.scalar (.uint .w8)) false,
    plainField "parking" (.option (.named "Span")) true]
  doc := none

/-- The types of a booking. -/
def bookingTypes : TypeTable := ⟨[("Booking", .record booking), ("Span", .record span)]⟩

/-- The first days of both spans are listed, in different groups. -/
theorem fields_flatten_in_order_booking :
    bookingTypes.record? (.named "Booking") = some ("Booking", booking) ∧
      ∃ f ∈ bookingTypes.fields (.named "Booking"), ∃ g ∈ bookingTypes.fields (.named "Booking"),
        f.name = "first" ∧ g.name = "first" ∧ f.group ≠ none ∧ g.group ≠ none ∧
          f.group ≠ g.group := by
  have hshows : ∀ field position, (field, position) ∈ booking.fields.zipIdx →
      field.IsPlain → bookingTypes.Flattens field "Span" span →
      bookingTypes.Shows ["Booking"] booking.fields.zipIdx
        [(field, position), (plainField "first" (.time .date) false, 0)] := by
    intro field position hmem hplain hflattens
    refine .flattened hmem hplain hflattens (by decide) (by decide) ?_
    refine .own (by decide) ⟨rfl, by decide⟩ ?_
    rintro id r ⟨hflatten, -⟩
    cases hflatten
  have hrecord : bookingTypes.record? (.named "Booking") = some ("Booking", booking) := rfl
  obtain ⟨listed, hfields, hcomplete, -, hview, hsame, hnone, -⟩ := fields_flatten_in_order hrecord
  have hstay := (hcomplete _).mpr (hshows (plainField "stay" (.option (.named "Span")) true) 0
    (by decide) ⟨rfl, by decide⟩ ⟨rfl, rfl⟩)
  have hparking := (hcomplete _).mpr (hshows (plainField "parking" (.option (.named "Span")) true) 2
    (by decide) ⟨rfl, by decide⟩ ⟨rfl, rfl⟩)
  obtain ⟨x, hx, htrail⟩ := List.mem_map.mp hstay
  obtain ⟨y, hy, htrail'⟩ := List.mem_map.mp hparking
  have hname : ∀ z ∈ listed, ∀ entry, z.2.getLast? = some entry → z.1.name = entry.1.name := by
    intro z hz entry hlast
    obtain ⟨entry', hlast', -, hvisible⟩ := hview z hz
    obtain rfl := Option.some.inj (hlast.symm.trans hlast')
    rw [hvisible]
    rfl
  have hgrouped : ∀ z ∈ listed, ∀ entry ∈ z.2.dropLast, entry.1.type.isOption = true →
      z.1.group ≠ none := by
    intro z hz entry hentry hoption hgroup
    rw [(hnone z hz).mp hgroup entry hentry] at hoption
    cases hoption
  rw [← hfields]
  refine ⟨hrecord, x.1, List.mem_map_of_mem hx, y.1, List.mem_map_of_mem hy, ?_, ?_, ?_, ?_, ?_⟩
  · exact hname x hx (plainField "first" (.time .date) false, 0) (by rw [htrail]; rfl)
  · exact hname y hy (plainField "first" (.time .date) false, 0) (by rw [htrail']; rfl)
  · exact hgrouped x hx (plainField "stay" (.option (.named "Span")) true, 0)
      (by rw [htrail]; decide) rfl
  · exact hgrouped y hy (plainField "parking" (.option (.named "Span")) true, 2)
      (by rw [htrail']; decide) rfl
  · rw [Ne, hsame x hx y hy, htrail, htrail']
    decide

/-- The way back from a span to the booking is left out. -/
example : (bookingTypes.fields (.named "Booking")).map (fun f => (f.name, f.group)) =
    [("first", some 0), ("guests", none), ("first", some 1)] := by
  decide +kernel

end TypeTable
end TypedRoutes
