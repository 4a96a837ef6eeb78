import Mathlib.Data.List.Induction
import Mathlib.Data.List.Nodup
import TypedRoutes.Proofs.Conformance
import TypedRoutes.Proofs.Results

/-!
# Objects under construction

The object of a record is built by putting values of visible fields into it, one after the other.
Every such step keeps what is said of single members.  The members of an optional group may be
incomplete until the end, when the missing ones of the groups that received a value are filled in.
-/

namespace TypedRoutes

/-! ## Members after an insertion -/

namespace Members

variable {α : Type} {key : String} {value : α} {members : Members α}

theorem mem_insert_self (key : String) (value : α) (members : Members α) :
    (key, value) ∈ members.insert key value := by
  induction members with
  | nil => simp [insert]
  | cons head rest ih =>
      obtain ⟨k, v⟩ := head
      by_cases h : key = k
      · simp [insert, h]
      · by_cases hlt : key < k
        · simp [insert, h, hlt]
        · simp [insert, h, hlt, ih]

theorem eq_or_mem_of_mem_insert
    {entry : String × α} (h : entry ∈ members.insert key value) :
    entry = (key, value) ∨ entry ∈ members := by
  induction members with
  | nil =>
      left
      simpa [insert] using h
  | cons head rest ih =>
      obtain ⟨k, v⟩ := head
      by_cases hk : key = k
      · simp only [insert, hk, if_true, List.mem_cons] at h ⊢
        tauto
      · by_cases hlt : key < k
        · simpa [insert, hk, hlt] using h
        · simp only [insert, hk, hlt, if_false, List.mem_cons] at h ⊢
          tauto

theorem mem_insert_of_ne
    {entry : String × α} (h : entry ∈ members) (hne : entry.1 ≠ key) :
    entry ∈ members.insert key value := by
  induction members with
  | nil => cases h
  | cons head rest ih =>
      obtain ⟨k, v⟩ := head
      by_cases hk : key = k
      · have hhead : entry ≠ (k, v) := by
          rintro rfl
          exact hne hk.symm
        have hrest : entry ∈ rest := by simpa [hhead] using h
        simp [insert, hk, hrest]
      · by_cases hlt : key < k
        · simpa [insert, hk, hlt] using Or.inr h
        · simp only [insert, hk, hlt, if_false, List.mem_cons] at h ⊢
          tauto

theorem mem_keys_insert {name : String} :
    name ∈ (members.insert key value).keys ↔ name = key ∨ name ∈ members.keys := by
  constructor
  · intro h
    obtain ⟨entry, hentry, rfl⟩ := List.mem_map.mp h
    rcases eq_or_mem_of_mem_insert hentry with rfl | hentry
    · exact .inl rfl
    · exact .inr (List.mem_map_of_mem hentry)
  · intro h
    by_cases hkey : name = key
    · rw [hkey]
      exact List.mem_map.mpr ⟨(key, value), mem_insert_self key value members, rfl⟩
    · obtain ⟨entry, hentry, rfl⟩ := List.mem_map.mp (h.resolve_left hkey)
      exact List.mem_map_of_mem (mem_insert_of_ne hentry hkey)

theorem mem_of_find?_eq_some (h : members.find? key = some value) : (key, value) ∈ members := by
  induction members with
  | nil => cases h
  | cons head rest ih =>
      obtain ⟨k, v⟩ := head
      rw [find?, List.lookup_cons] at h
      by_cases hk : (key == k) = true
      · simp only [hk, Option.some.injEq] at h
        have hkey : key = k := by simpa using hk
        simp [hkey, h]
      · simp only [hk] at h
        exact List.mem_cons_of_mem _ (ih h)

theorem contains_eq_true_iff : members.contains key = true ↔ key ∈ members.keys := by
  rw [contains, find?, keys]
  induction members with
  | nil => simp
  | cons head rest ih =>
      obtain ⟨k, v⟩ := head
      rw [List.lookup_cons, List.map_cons, List.mem_cons]
      by_cases hk : key = k
      · simp [hk]
      · have hbeq : (key == k) = false := by simpa using hk
        simp [hbeq, hk, ih]

theorem mem_of_mem_ofList
    {pairs : List (String × α)} {entry : String × α} (h : entry ∈ ofList pairs) :
    entry ∈ pairs := by
  have hall : ∀ e ∈ ofList pairs, e ∈ pairs := by
    refine List.foldlRecOn (motive := fun found => ∀ e ∈ found, e ∈ pairs) pairs _ ?_ ?_
    · simp
    · intro found hfound pair hpair e he
      rcases eq_or_mem_of_mem_insert he with rfl | he
      · exact hpair
      · exact hfound e he
  exact hall entry h

theorem ofList_concat
    (pairs : List (String × α)) (pair : String × α) :
    ofList (pairs ++ [pair]) = (ofList pairs).insert pair.1 pair.2 := by
  simp [ofList]

theorem find?_ofList
    (key : String) (pairs : List (String × α)) :
    (ofList pairs).find? key = pairs.reverse.lookup key := by
  induction pairs using List.reverseRecOn with
  | nil => rfl
  | append_singleton rest pair ih =>
      rw [ofList_concat, List.reverse_append, List.reverse_singleton, List.singleton_append,
        List.lookup_cons]
      by_cases hk : key = pair.1
      · subst hk
        simp [find?_insert_self]
      · have hbeq : (key == pair.1) = false := by simpa using hk
        rw [hbeq, find?_insert_of_ne pair.2 _ hk, ih]

theorem mem_keys_ofList
    {pairs : List (String × α)} {name : String} :
    name ∈ (ofList pairs).keys ↔ ∃ pair ∈ pairs, name = pair.1 := by
  induction pairs using List.reverseRecOn with
  | nil => simp [ofList, keys]
  | append_singleton rest pair ih =>
      rw [ofList_concat, mem_keys_insert, ih]
      simp [or_and_right, exists_or, or_comm]

/-- Of pairs with distinct keys each is a member. -/
theorem mem_ofList_iff
    {pairs : List (String × α)} (hnodup : (pairs.map Prod.fst).Nodup) {entry : String × α} :
    entry ∈ ofList pairs ↔ entry ∈ pairs := by
  refine ⟨mem_of_mem_ofList, ?_⟩
  intro h
  induction pairs using List.reverseRecOn with
  | nil => cases h
  | append_singleton rest pair ih =>
      rw [List.map_append, List.nodup_append] at hnodup
      obtain ⟨hrest, -, hapart⟩ := hnodup
      rw [ofList_concat]
      rcases List.mem_append.mp h with h | h
      · have hne : entry.1 ≠ pair.1 := hapart _ (List.mem_map_of_mem h) _ (by simp)
        exact mem_insert_of_ne (ih hrest h) hne
      · obtain rfl := List.mem_singleton.mp h
        exact mem_insert_self entry.1 entry.2 _

theorem map_insert
    {β : Type} (g : String × α → β) (key : String) (value : α) (members : Members α) :
    (members.insert key value).map (fun entry => (entry.1, g entry)) =
      Members.insert key (g (key, value)) (members.map fun entry => (entry.1, g entry)) := by
  induction members with
  | nil => rfl
  | cons head rest ih =>
      obtain ⟨k, v⟩ := head
      by_cases hk : key = k
      · simp [insert, hk]
      · by_cases hlt : key < k
        · simp [insert, hk, hlt]
        · simp [insert, hk, hlt, ih]

/-- Changing the values commutes with putting pairs in order. -/
theorem map_ofList
    {β : Type} (g : String × α → β) (pairs : List (String × α)) :
    (ofList pairs).map (fun entry => (entry.1, g entry)) =
      ofList (pairs.map fun entry => (entry.1, g entry)) := by
  induction pairs using List.reverseRecOn with
  | nil => rfl
  | append_singleton rest pair ih =>
      rw [ofList_concat, map_insert, ih, List.map_append, List.map_singleton, ofList_concat]

end Members

variable {P : Ty → Json → Prop} {marker : Option Field} {fields : List VisibleField}
  {members : Json.Object}

/-! ## Putting values of fields into an object -/

/-- Every member of an object is that of a visible field, with a value that satisfies `P`, or the
marker. -/
structure HasMembers (P : Ty → Json → Prop) (marker : Option Field) (fields : List VisibleField)
    (members : Json.Object) : Prop where
  keys : ∀ entry ∈ members,
    (∃ f ∈ fields, entry.1 = f.wireName) ∨ ∃ m ∈ marker, entry = (m.wireName, Json.empty)
  marker : ∀ m ∈ marker, (m.wireName, Json.empty) ∈ members
  values : ∀ f ∈ fields, ∀ value, (f.wireName, value) ∈ members → P f.type value

theorem NamesApart.eq_of_wireName_eq
    (hapart : NamesApart marker fields) {f g : VisibleField} (hf : f ∈ fields) (hg : g ∈ fields)
    (h : f.wireName = g.wireName) : f = g :=
  List.inj_on_of_nodup_map hapart.nodup hf hg h

theorem HasMembers.insert
    (hapart : NamesApart marker fields) (h : HasMembers P marker fields members)
    {f : VisibleField} (hf : f ∈ fields) {value : Json} (hvalue : P f.type value) :
    HasMembers P marker fields (members.insert f.wireName value) := by
  constructor
  · intro entry hentry
    rcases Members.eq_or_mem_of_mem_insert hentry with rfl | hentry
    · exact .inl ⟨f, hf, rfl⟩
    · exact h.keys entry hentry
  · intro m hm
    exact Members.mem_insert_of_ne (h.marker m hm) (hapart.marker m hm f hf).symm
  · intro g hg w hw
    rcases Members.eq_or_mem_of_mem_insert hw with heq | hw
    · obtain ⟨hname, rfl⟩ := Prod.mk.inj heq
      rwa [hapart.eq_of_wireName_eq hg hf hname]
    · exact h.values g hg w hw

/-- The object of a record whose fields have values that satisfy `P`. -/
structure IsComplete (P : Ty → Json → Prop) (marker : Option Field) (fields : List VisibleField)
    (members : Json.Object) : Prop extends IsRecord marker fields members where
  values : ∀ f ∈ fields, ∀ value, (f.wireName, value) ∈ members → P f.type value

/-- An object under construction: a group may be incomplete if it is one of those that received a
value. -/
structure Assembly.IsSound (P : Ty → Json → Prop) (marker : Option Field)
    (fields : List VisibleField) (a : Assembly) : Prop
    extends HasMembers P marker fields a.target where
  present : ∀ f ∈ fields, f.group = none → f.wireName ∈ a.target.keys
  grouped : ∀ f ∈ fields, ∀ g ∈ fields, f.group = g.group → f.wireName ∈ a.target.keys →
    g.wireName ∈ a.target.keys ∨ ∃ n ∈ a.groups, f.group = some n

theorem IsComplete.isSound
    (h : IsComplete P marker fields members) :
    Assembly.IsSound P marker fields ⟨members, []⟩ where
  keys := h.keys
  marker := h.marker
  values := h.values
  present := h.present
  grouped := fun f hf g hg hgroup hkey => .inl (h.grouped f hf g hg hgroup hkey)

theorem Assembly.IsSound.put
    (hapart : NamesApart marker fields) {a : Assembly} (h : a.IsSound P marker fields)
    {f : VisibleField} (hf : f ∈ fields) {value : Json} (hvalue : P f.type value) :
    (a.put f value).IsSound P marker fields := by
  have hkept : ∀ {name : String}, name ∈ a.target.keys → name ∈ (a.put f value).target.keys :=
    fun hname => Members.mem_keys_insert.mpr (.inr hname)
  refine ⟨h.toHasMembers.insert hapart hf hvalue, ?_, ?_⟩
  · intro g hg hgroup
    exact hkept (h.present g hg hgroup)
  · intro x hx y hy hgroup hkey
    rcases Members.mem_keys_insert.mp hkey with hname | hkey
    · obtain rfl := hapart.eq_of_wireName_eq hx hf hname
      cases hxgroup : x.group with
      | none =>
          left
          exact hkept (h.present y hy (by rw [← hgroup, hxgroup]))
      | some n =>
          right
          exact ⟨n, by simp [Assembly.put, hxgroup], rfl⟩
    · rcases h.grouped x hx y hy hgroup hkey with hpresent | ⟨n, hn, hxgroup⟩
      · exact .inl (hkept hpresent)
      · exact .inr ⟨n, by simp [Assembly.put, hn], hxgroup⟩

/-- The keys after some fields were put into an object. -/
theorem mem_keys_foldl
    {step : Json.Object → VisibleField → Json.Object} {selected : VisibleField → Prop}
    (hstep : ∀ target f name, name ∈ (step target f).keys ↔
      name ∈ target.keys ∨ (selected f ∧ name = f.wireName))
    (fields : List VisibleField) (start : Json.Object) (name : String) :
    name ∈ (fields.foldl step start).keys ↔
      name ∈ start.keys ∨ ∃ f ∈ fields, selected f ∧ name = f.wireName := by
  induction fields generalizing start with
  | nil => simp
  | cons f rest ih =>
      rw [List.foldl_cons, ih, hstep, List.exists_mem_cons_iff, or_assoc]

namespace TypeTable

variable {types : TypeTable}

/-! ## Zero objects -/

/-- The object that holds the marker and nothing else. -/
def markerOnly : Option Field → Json.Object
  | some m => [(m.wireName, Json.empty)]
  | none => []

theorem zeroObjectWith_eq
    (zero : Ty → Json) (id : String) (r : Record) :
    types.zeroObjectWith zero id r =
      (types.fieldsOf id r).foldl
        (fun target f => if f.group.isSome then target else target.insert f.wireName (zero f.type))
        (markerOnly r.markerField?) := rfl

theorem mem_markerOnly_iff
    {marker : Option Field} {entry : String × Json} :
    entry ∈ markerOnly marker ↔ ∃ m ∈ marker, entry = (m.wireName, Json.empty) := by
  cases marker with
  | none => simp [markerOnly]
  | some m => simp [markerOnly]

theorem hasMembers_markerOnly
    (hapart : NamesApart marker fields) : HasMembers P marker fields (markerOnly marker) := by
  constructor
  · intro entry hentry
    exact .inr (mem_markerOnly_iff.mp hentry)
  · intro m hm
    exact mem_markerOnly_iff.mpr ⟨m, hm, rfl⟩
  · intro f hf value hvalue
    obtain ⟨m, hm, heq⟩ := mem_markerOnly_iff.mp hvalue
    exact absurd (Prod.mk.inj heq).1 (hapart.marker m hm f hf)

theorem mem_keys_zeroObjectWith
    {zero : Ty → Json} {id : String} {r : Record} {name : String} :
    name ∈ (types.zeroObjectWith zero id r).keys ↔
      name ∈ (markerOnly r.markerField?).keys ∨
        ∃ f ∈ types.fieldsOf id r, f.group = none ∧ name = f.wireName := by
  rw [zeroObjectWith_eq]
  apply mem_keys_foldl
  intro target f name
  cases hgroup : f.group with
  | none => simp [Members.mem_keys_insert, or_comm]
  | some n => simp

/-- A zero object is complete. -/
theorem isComplete_zeroObjectWith
    {id : String} {r : Record} {zero : Ty → Json}
    (hapart : NamesApart r.markerField? (types.fieldsOf id r))
    (hzero : ∀ f ∈ types.fieldsOf id r, P f.type (zero f.type)) :
    IsComplete P r.markerField? (types.fieldsOf id r) (types.zeroObjectWith zero id r) := by
  have hmembers : HasMembers P r.markerField? (types.fieldsOf id r)
      (types.zeroObjectWith zero id r) := by
    rw [zeroObjectWith_eq]
    refine List.foldlRecOn (motive := HasMembers P r.markerField? (types.fieldsOf id r)) _ _
      (hasMembers_markerOnly hapart) ?_
    intro target htarget f hf
    split
    · exact htarget
    · exact htarget.insert hapart hf (hzero f hf)
  refine ⟨⟨hmembers.keys, hmembers.marker, ?_, ?_⟩, hmembers.values⟩
  · intro f hf hgroup
    exact mem_keys_zeroObjectWith.mpr (.inr ⟨f, hf, hgroup, rfl⟩)
  · intro f hf g hg hgroup hkey
    rcases mem_keys_zeroObjectWith.mp hkey with hstart | ⟨f', hf', hnone, hname⟩
    · obtain ⟨entry, hentry, hname⟩ := List.mem_map.mp hstart
      obtain ⟨m, hm, rfl⟩ := mem_markerOnly_iff.mp hentry
      exact absurd hname.symm (hapart.marker m hm f hf)
    · obtain rfl := hapart.eq_of_wireName_eq hf hf' hname
      exact mem_keys_zeroObjectWith.mpr (.inr ⟨g, hg, by rw [← hgroup, hnone], rfl⟩)

/-! ## Completing groups -/

theorem mem_keys_completeGroups
    {room : Nat} {groups : List Nat} {target : Json.Object} {name : String} :
    name ∈ (types.completeGroups room fields groups target).keys ↔
      name ∈ target.keys ∨
        ∃ f ∈ fields, (∃ n ∈ groups, f.group = some n) ∧ name = f.wireName := by
  rw [completeGroups]
  apply mem_keys_foldl
  intro target f name
  cases hgroup : f.group with
  | none => simp
  | some n =>
      by_cases hn : n ∈ groups
      · by_cases hname : f.wireName ∈ target.keys
        · have hcontains : target.contains f.wireName = true :=
            Members.contains_eq_true_iff.mpr hname
          simp only [hcontains, Bool.not_true, Bool.and_false, Bool.false_eq_true, if_false]
          constructor
          · exact .inl
          · rintro (h | ⟨_, rfl⟩)
            · exact h
            · exact hname
        · have hcontains : target.contains f.wireName = false := by
            simpa [← Members.contains_eq_true_iff] using hname
          simp [hcontains, hn, Members.mem_keys_insert, or_comm]
      · simp [hn]

/-- Filling in the missing members of the groups that received a value completes an object. -/
theorem isComplete_completeGroups
    (hapart : NamesApart marker fields) {a : Assembly} (h : a.IsSound P marker fields)
    {room : Nat} (hzero : ∀ f ∈ fields, P f.type (types.zeroAt room f.type)) :
    IsComplete P marker fields (types.completeGroups room fields a.groups a.target) := by
  have hmembers : HasMembers P marker fields
      (types.completeGroups room fields a.groups a.target) := by
    refine List.foldlRecOn (motive := HasMembers P marker fields) _ _ h.toHasMembers ?_
    intro target htarget f hf
    split
    · split
      · exact htarget.insert hapart hf (hzero f hf)
      · exact htarget
    · exact htarget
  refine ⟨⟨hmembers.keys, hmembers.marker, ?_, ?_⟩, hmembers.values⟩
  · intro f hf hgroup
    exact mem_keys_completeGroups.mpr (.inl (h.present f hf hgroup))
  · intro f hf g hg hgroup hkey
    rcases mem_keys_completeGroups.mp hkey with hkey | ⟨f', hf', ⟨n, hn, hf'group⟩, hname⟩
    · rcases h.grouped f hf g hg hgroup hkey with hpresent | ⟨n, hn, hfgroup⟩
      · exact mem_keys_completeGroups.mpr (.inl hpresent)
      · exact mem_keys_completeGroups.mpr
          (.inr ⟨g, hg, ⟨n, hn, by rw [← hgroup, hfgroup]⟩, rfl⟩)
    · obtain rfl := hapart.eq_of_wireName_eq hf hf' hname
      exact mem_keys_completeGroups.mpr
        (.inr ⟨g, hg, ⟨n, hn, by rw [← hgroup, hf'group]⟩, rfl⟩)

end TypeTable

/-! ## Overlaying a body -/

/-- The assembly after a field was gone through. -/
def Assembly.give (a : Assembly) (f : VisibleField) : Option Json → Assembly
  | some value => a.put f value
  | none => a

namespace TypeTable

section

variable {convert : Ty → Json → String → Except FieldError Json} {body : Json.Object}
  {path : String} {f : VisibleField} {raw value : Json}

theorem bodyValue?_of_lookupName
    (h : body.find? f.lookupName = some raw) : bodyValue? body f = some raw := by
  rw [bodyValue?, h, Option.some_or]

theorem bodyValue?_of_wireName
    (hlookup : body.find? f.lookupName = none) : bodyValue? body f = body.find? f.wireName := by
  rw [bodyValue?, hlookup, Option.none_or]

/-- What a body gives to a field. -/
def bodyGiven? (convert : Ty → Json → String → Except FieldError Json) (body : Json.Object)
    (path : String) (f : VisibleField) : Except FieldError (Option Json) :=
  match bodyValue? body f with
  | none => .ok none
  | some raw => (convert f.type raw (memberPath path f.lookupName)).map some

theorem bodyGiven?_of_eq_none
    (h : bodyValue? body f = none) : bodyGiven? convert body path f = .ok none := by
  rw [bodyGiven?, h]

theorem bodyGiven?_of_eq_some
    (h : bodyValue? body f = some raw) :
    bodyGiven? convert body path f =
      (convert f.type raw (memberPath path f.lookupName)).map some := by
  rw [bodyGiven?, h]

theorem convert_of_bodyGiven?
    (h : bodyGiven? convert body path f = .ok (some value)) :
    ∃ raw, bodyValue? body f = some raw ∧
      convert f.type raw (memberPath path f.lookupName) = .ok value := by
  cases hraw : bodyValue? body f with
  | none =>
      rw [bodyGiven?_of_eq_none hraw] at h
      cases h
  | some raw =>
      rw [bodyGiven?_of_eq_some hraw] at h
      obtain ⟨converted, hconverted, hsome⟩ := Results.map_eq_ok_iff.mp h
      obtain rfl := Option.some.inj hsome
      exact ⟨raw, rfl, hconverted⟩

theorem overlayBody_eq_foldlM
    (convert : Ty → Json → String → Except FieldError Json) (fields : List VisibleField)
    (body start : Json.Object) (path : String) :
    overlayBody convert fields body path start =
      fields.foldlM (fun a f => (bodyGiven? convert body path f).map (a.give f)) ⟨start, []⟩ := by
  rw [overlayBody]
  congr 1
  funext a f
  cases hraw : bodyValue? body f with
  | none =>
      rw [bodyGiven?_of_eq_none hraw]
      rfl
  | some raw =>
      rw [bodyGiven?_of_eq_some hraw]
      show (convert f.type raw (memberPath path f.lookupName) >>= fun value =>
        .ok (a.put f value)) = _
      cases convert f.type raw (memberPath path f.lookupName) <;> rfl

end

end TypeTable

theorem isSound_overlayBody
    (hapart : NamesApart marker fields)
    {convert : Ty → Json → String → Except FieldError Json}
    (hconvert : ∀ f ∈ fields, ∀ raw path value, convert f.type raw path = .ok value →
      P f.type value)
    {body start : Json.Object} {path : String} {a : Assembly}
    (hstart : IsComplete P marker fields start)
    (h : overlayBody convert fields body path start = .ok a) : a.IsSound P marker fields := by
  rw [TypeTable.overlayBody_eq_foldlM] at h
  refine Results.foldlM_invariant ?_ hstart.isSound h
  intro a f next hf ha hnext
  obtain ⟨given, hgiven, rfl⟩ := Results.map_eq_ok_iff.mp hnext
  cases given with
  | none => exact ha
  | some value =>
      obtain ⟨raw, -, hvalue⟩ := TypeTable.convert_of_bodyGiven? hgiven
      exact ha.put hapart hf (hconvert f hf _ _ value hvalue)

end TypedRoutes
