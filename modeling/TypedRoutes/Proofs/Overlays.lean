import Mathlib.Data.String.Basic
import Mathlib.Logic.Function.Basic
import TypedRoutes.Proofs.ObjectAssembly

/-!
# What an overlay does to single members

Queries and bodies are overlaid alike: the fields of a record are gone through in order, each may be
given a value, and the groups of the fields that were given one are completed.  Where the names of
the fields are apart they do not interfere, so that every member of the result is told from what its
own field was given.  Objects are kept in key order, hence they are equal if their members are.
-/

namespace TypedRoutes

/-! ## Members in key order -/

namespace Members

variable {α : Type} {key : String} {value : α} {members other : Members α}

/-- The keys strictly increase. -/
def Sorted (members : Members α) : Prop :=
  members.Pairwise fun a b => a.1 < b.1

theorem Sorted.insert
    (h : members.Sorted) (key : String) (value : α) : (members.insert key value).Sorted := by
  induction members with
  | nil => exact List.pairwise_singleton _ _
  | cons head rest ih =>
      obtain ⟨k, v⟩ := head
      obtain ⟨hhead, hrest⟩ := List.pairwise_cons.mp h
      by_cases hk : key = k
      · subst hk
        simpa [Members.insert, Sorted] using h
      · by_cases hlt : key < k
        · simp only [Members.insert, hk, hlt, if_true, if_false]
          refine List.pairwise_cons.mpr ⟨?_, h⟩
          intro entry hentry
          rcases List.mem_cons.mp hentry with rfl | hentry
          · exact hlt
          · exact lt_trans hlt (hhead entry hentry)
        · simp only [Members.insert, hk, hlt, if_false]
          refine List.pairwise_cons.mpr ⟨?_, ih hrest⟩
          intro entry hentry
          rcases eq_or_mem_of_mem_insert hentry with rfl | hentry
          · exact lt_of_le_of_ne (not_lt.mp hlt) (Ne.symm hk)
          · exact hhead entry hentry

theorem sorted_ofList (pairs : List (String × α)) : (ofList pairs).Sorted := by
  refine List.foldlRecOn (motive := Sorted) _ _ List.Pairwise.nil ?_
  intro found hfound pair _
  exact hfound.insert pair.1 pair.2

theorem Sorted.find?_eq_some_iff
    (h : members.Sorted) : members.find? key = some value ↔ (key, value) ∈ members := by
  refine ⟨mem_of_find?_eq_some, ?_⟩
  intro hmem
  induction members with
  | nil => cases hmem
  | cons head rest ih =>
      obtain ⟨k, v⟩ := head
      obtain ⟨hhead, hrest⟩ := List.pairwise_cons.mp h
      rcases List.mem_cons.mp hmem with heq | hmem
      · obtain ⟨rfl, rfl⟩ := Prod.mk.inj heq
        simp [find?]
      · have hne : (key == k) = false := by simpa using (hhead _ hmem).ne'
        rw [find?, List.lookup_cons, hne]
        exact ih hrest hmem

theorem Sorted.nodup (h : members.Sorted) : members.Nodup :=
  h.imp fun hlt heq => hlt.ne (congrArg Prod.fst heq)

/-- Objects in key order with the same members are equal. -/
theorem Sorted.ext
    (h : members.Sorted) (hother : other.Sorted)
    (hfind : ∀ key, members.find? key = other.find? key) : members = other := by
  have hperm : members.Perm other := by
    rw [List.perm_ext_iff_of_nodup h.nodup hother.nodup]
    rintro ⟨key, value⟩
    rw [← h.find?_eq_some_iff, ← hother.find?_eq_some_iff, hfind]
  refine hperm.eq_of_pairwise ?_ h hother
  intro a b _ _ hab hba
  exact absurd hab hba.asymm

end Members

/-! ## Going through the fields of a record -/

/-- Going through fields leads from one assembly to another; and whether any of them was given a
value.  What a field is given may depend on the object so far. -/
inductive Assembles (value? : Json.Object → VisibleField → Except FieldError (Option Json)) :
    List VisibleField → Assembly → Assembly → Bool → Prop
  | nil {a : Assembly} : Assembles value? [] a a false
  | cons {f : VisibleField} {rest : List VisibleField} {a b : Assembly} {given : Option Json}
      {touched : Bool} (hgiven : value? a.target f = .ok given)
      (hrest : Assembles value? rest (a.give f given) b touched) :
      Assembles value? (f :: rest) a b (given.isSome || touched)

section

variable {value? : Json.Object → VisibleField → Except FieldError (Option Json)}
  {fields : List VisibleField} {a b : Assembly} {touched : Bool} {key : String}

theorem find?_give_of_ne
    (a : Assembly) {f : VisibleField} (given : Option Json) (h : key ≠ f.wireName) :
    (a.give f given).target.find? key = a.target.find? key := by
  cases given with
  | none => rfl
  | some value => exact Members.find?_insert_of_ne value a.target h

theorem find?_give_self
    (a : Assembly) (f : VisibleField) (given : Option Json) :
    (a.give f given).target.find? f.wireName = given.or (a.target.find? f.wireName) := by
  cases given with
  | none => rfl
  | some value => exact Members.find?_insert_self f.wireName value a.target

theorem mem_groups_give
    (a : Assembly) (f : VisibleField) (given : Option Json) (n : Nat) :
    n ∈ (a.give f given).groups ↔ n ∈ a.groups ∨ (f.group = some n ∧ given.isSome = true) := by
  cases given with
  | none => simp [Assembly.give]
  | some value => simp [Assembly.give, Assembly.put]

theorem Assembles.find?_of_ne
    (h : Assembles value? fields a b touched) (hkey : ∀ f ∈ fields, key ≠ f.wireName) :
    b.target.find? key = a.target.find? key := by
  induction h with
  | nil => rfl
  | cons hgiven hrest ih =>
      rw [ih fun f hf => hkey f (by simp [hf]), find?_give_of_ne _ _ (hkey _ (by simp))]

theorem Assembles.sorted
    (h : Assembles value? fields a b touched) (ha : a.target.Sorted) : b.target.Sorted := by
  induction h with
  | nil => exact ha
  | @cons f rest a b given touched hgiven hrest ih =>
      cases given with
      | none => exact ih ha
      | some value => exact ih (ha.insert f.wireName value)

/-- Going through fields that are given nothing changes nothing. -/
theorem Assembles.eq_of_untouched
    (h : Assembles value? fields a b false) :
    b = a ∧ ∀ f ∈ fields, value? a.target f = .ok none := by
  generalize htouched : false = touched at h
  induction h with
  | nil => simp
  | @cons f rest a b given touched hgiven hrest ih =>
      cases given with
      | some value => cases htouched
      | none =>
          obtain ⟨rfl, hall⟩ := ih htouched
          refine ⟨rfl, ?_⟩
          intro g hg
          rcases List.mem_cons.mp hg with rfl | hg
          · exact hgiven
          · exact hall g hg

theorem Assembles.exists_of_mem
    (h : Assembles value? fields a b touched) {f : VisibleField} (hf : f ∈ fields) :
    ∃ x given, value? x f = .ok given := by
  induction h with
  | nil => cases hf
  | cons hgiven hrest ih =>
      rcases List.mem_cons.mp hf with rfl | hf
      · exact ⟨_, _, hgiven⟩
      · exact ih hf

/-- The field that was given a value last keeps it. -/
theorem Assembles.exists_last
    (h : Assembles value? fields a b true) :
    ∃ f ∈ fields, ∃ x value, value? x f = .ok (some value) ∧
      b.target.find? f.wireName = some value := by
  generalize htouched : true = touched at h
  induction h with
  | nil => cases htouched
  | @cons f rest a b given touched hgiven hrest ih =>
      cases touched with
      | true =>
          obtain ⟨g, hg, hlast⟩ := ih rfl
          exact ⟨g, by simp [hg], hlast⟩
      | false =>
          cases given with
          | none => cases htouched
          | some value =>
              refine ⟨f, by simp, _, value, hgiven, ?_⟩
              rw [hrest.eq_of_untouched.1, find?_give_self]
              rfl

/-- Fields whose names are apart do not interfere. -/
theorem Assembles.exists_given
    (h : Assembles value? fields a b touched)
    (hnodup : (fields.map VisibleField.wireName).Nodup)
    (hlocal : ∀ f ∈ fields, ∀ x y : Json.Object, x.find? f.wireName = y.find? f.wireName →
      value? x f = value? y f) :
    ∃ given : VisibleField → Option Json,
      (∀ f ∈ fields, value? a.target f = .ok (given f)) ∧
      (∀ f ∈ fields, b.target.find? f.wireName = (given f).or (a.target.find? f.wireName)) ∧
      (∀ n, n ∈ b.groups ↔ n ∈ a.groups ∨ ∃ f ∈ fields, f.group = some n ∧ (given f).isSome) ∧
      (touched = true ↔ ∃ f ∈ fields, (given f).isSome) := by
  induction h with
  | nil => exact ⟨fun _ => none, by simp⟩
  | @cons f rest a b v touched hgiven hrest ih =>
      obtain ⟨hf, hnodup⟩ := List.nodup_cons.mp hnodup
      have hne : ∀ g ∈ rest, g.wireName ≠ f.wireName := by
        intro g hg heq
        exact hf (heq ▸ List.mem_map_of_mem hg)
      obtain ⟨given, hvalues, hfind, hgroups, htouched⟩ :=
        ih hnodup fun g hg => hlocal g (by simp [hg])
      have hupdate : ∀ g ∈ rest, Function.update given f v g = given g := by
        intro g hg
        have hgf : g ≠ f := by
          rintro rfl
          exact hne g hg rfl
        simp [hgf]
      have hsome : (∃ g ∈ rest, (Function.update given f v g).isSome) ↔
          ∃ g ∈ rest, (given g).isSome :=
        exists_congr fun g => and_congr_right fun hg => by rw [hupdate g hg]
      have hsome' : ∀ n, (∃ g ∈ rest, g.group = some n ∧ (Function.update given f v g).isSome) ↔
          ∃ g ∈ rest, g.group = some n ∧ (given g).isSome :=
        fun n => exists_congr fun g => and_congr_right fun hg => by rw [hupdate g hg]
      refine ⟨Function.update given f v, ?_, ?_, ?_, ?_⟩
      · intro g hg
        rcases List.mem_cons.mp hg with rfl | hg
        · simpa using hgiven
        · rw [hupdate g hg, ← hvalues g hg]
          exact hlocal g (by simp [hg]) _ _ (find?_give_of_ne a v (hne g hg)).symm
      · intro g hg
        rcases List.mem_cons.mp hg with rfl | hg
        · rw [hrest.find?_of_ne fun f' hf' => (hne f' hf').symm, find?_give_self]
          simp
        · rw [hupdate g hg, hfind g hg, find?_give_of_ne a v (hne g hg)]
      · intro n
        rw [hgroups, mem_groups_give, List.exists_mem_cons_iff, hsome', or_assoc]
        simp
      · rw [List.exists_mem_cons_iff, hsome, ← htouched]
        simp

end

theorem VisibleField.group_eq_none_of_isRequired
    {f : VisibleField} (h : f.isRequired = true) : f.group = none := by
  cases hgroup : f.group with
  | none => rfl
  | some n => simp [isRequired, isOptional, hgroup] at h

/-- A member of a record's object that may be missing is that of one field, and not the marker. -/
structure MembersApart (marker : Option Field) (fields : List VisibleField) : Prop where
  nodup : (fields.map VisibleField.wireName).Nodup
  grouped : ∀ m ∈ marker, ∀ f ∈ fields, f.group.isSome = true → f.wireName ≠ m.wireName

instance {marker : Option Field} {fields : List VisibleField} :
    Decidable (MembersApart marker fields) :=
  decidable_of_iff ((fields.map VisibleField.wireName).Nodup ∧
      ∀ m ∈ marker, ∀ f ∈ fields, f.group.isSome = true → f.wireName ≠ m.wireName)
    ⟨fun ⟨hnodup, hgrouped⟩ => ⟨hnodup, hgrouped⟩, fun h => ⟨h.nodup, h.grouped⟩⟩

namespace TypeTable

variable {types : TypeTable} {room : Nat} {fields : List VisibleField} {groups : List Nat}
  {target : Json.Object} {key : String}

/-! ## Zero objects -/

theorem sorted_zeroObject
    (room : Nat) (id : String) (r : Record) : (types.zeroObject room id r).Sorted := by
  rw [zeroObject, zeroObjectWith_eq]
  refine List.foldlRecOn (motive := Members.Sorted) _ _ ?_ ?_
  · cases r.markerField? with
    | none => exact List.Pairwise.nil
    | some m => exact List.pairwise_singleton _ _
  · intro target htarget f _
    split
    · exact htarget
    · exact htarget.insert f.wireName _

/-- A field outside optional groups has its zero value; the others are left out. -/
theorem find?_zeroObject
    {id : String} {r : Record} (hnodup : ((types.fieldsOf id r).map VisibleField.wireName).Nodup)
    {f : VisibleField} (hf : f ∈ types.fieldsOf id r) :
    (types.zeroObject room id r).find? f.wireName =
      if f.group.isSome then (markerOnly r.markerField?).find? f.wireName
      else some (types.zeroAt room f.type) := by
  rw [zeroObject, zeroObjectWith_eq]
  generalize markerOnly r.markerField? = start
  generalize types.fieldsOf id r = fields at hnodup hf
  induction fields generalizing start with
  | nil => cases hf
  | cons g rest ih =>
      obtain ⟨hg, hnodup⟩ := List.nodup_cons.mp hnodup
      rw [List.foldl_cons]
      rcases List.mem_cons.mp hf with rfl | hf
      · have hrest : ∀ target : Json.Object, (rest.foldl (fun target f =>
            if f.group.isSome then target
            else target.insert f.wireName (types.zeroAt room f.type)) target).find? f.wireName =
            target.find? f.wireName := by
          intro target
          refine List.foldlRecOn
            (motive := fun z => Members.find? f.wireName z = target.find? f.wireName) _ _ rfl ?_
          intro z hz f' hf'
          have hne : f.wireName ≠ f'.wireName := fun heq => hg (heq ▸ List.mem_map_of_mem hf')
          split
          · exact hz
          · rw [Members.find?_insert_of_ne _ _ hne, hz]
        rw [hrest]
        split
        · rfl
        · exact Members.find?_insert_self _ _ _
      · have hne : f.wireName ≠ g.wireName := fun heq => hg (heq ▸ List.mem_map_of_mem hf)
        rw [ih _ hnodup hf]
        split
        · split
          · rfl
          · exact Members.find?_insert_of_ne _ _ hne
        · rfl

theorem find?_markerOnly_of_ne
    {marker : Option Field} {key : String} (h : ∀ m ∈ marker, key ≠ m.wireName) :
    (markerOnly marker).find? key = none := by
  cases marker with
  | none => rfl
  | some m =>
      have hne : (key == m.wireName) = false := by simpa using h m rfl
      simp [markerOnly, Members.find?, List.lookup_cons, hne]

/-- Names of no field are those of the marker in a zero object. -/
theorem find?_zeroObject_of_ne
    {id : String} {r : Record}
    (hkey : ∀ f ∈ types.fieldsOf id r, key ≠ f.wireName) :
    (types.zeroObject room id r).find? key = (markerOnly r.markerField?).find? key := by
  rw [zeroObject, zeroObjectWith_eq]
  refine List.foldlRecOn
    (motive := fun z => Members.find? key z = (markerOnly r.markerField?).find? key) _ _ rfl ?_
  intro z hz f hf
  split
  · exact hz
  · rw [Members.find?_insert_of_ne _ _ (hkey f hf), hz]

/-- A field outside optional groups has its zero value in a zero object, the others have none. -/
theorem find?_zeroObject_of_mem
    {id : String} {r : Record} (hapart : MembersApart r.markerField? (types.fieldsOf id r))
    {f : VisibleField} (hf : f ∈ types.fieldsOf id r) :
    (types.zeroObject room id r).find? f.wireName =
      if f.group.isSome then none else some (types.zeroAt room f.type) := by
  rw [find?_zeroObject hapart.nodup hf]
  split
  · rename_i hgroup
    exact find?_markerOnly_of_ne fun m hm => hapart.grouped m hm f hf hgroup
  · rfl

/-! ## Completing groups -/

theorem completeGroups_cons
    (f : VisibleField) (rest : List VisibleField) :
    types.completeGroups room (f :: rest) groups target =
      types.completeGroups room rest groups
        (if (∃ n ∈ groups, f.group = some n) ∧ target.find? f.wireName = none then
          target.insert f.wireName (types.zeroAt room f.type)
        else target) := by
  rw [completeGroups, List.foldl_cons, ← completeGroups]
  congr 1
  cases hgroup : f.group with
  | none => simp
  | some n => simp [Members.contains]

@[simp] theorem completeGroups_nil (fields : List VisibleField) :
    types.completeGroups room fields [] target = target := by
  induction fields with
  | nil => rfl
  | cons f rest ih =>
      rw [completeGroups_cons, if_neg (by simp)]
      exact ih

theorem sorted_completeGroups
    (h : target.Sorted) : (types.completeGroups room fields groups target).Sorted := by
  induction fields generalizing target with
  | nil => exact h
  | cons f rest ih =>
      rw [completeGroups_cons]
      split
      · exact ih (h.insert f.wireName _)
      · exact ih h

/-- Members that are there already stay as they are. -/
theorem find?_completeGroups_of_some
    {value : Json} (h : target.find? key = some value) :
    (types.completeGroups room fields groups target).find? key = some value := by
  induction fields generalizing target with
  | nil => exact h
  | cons f rest ih =>
      rw [completeGroups_cons]
      split
      · rename_i hmissing
        apply ih
        rw [Members.find?_insert_of_ne]
        · exact h
        · rintro rfl
          rw [h] at hmissing
          cases hmissing.2
      · exact ih h

theorem find?_completeGroups_of_ne
    (hkey : ∀ f ∈ fields, key ≠ f.wireName) :
    (types.completeGroups room fields groups target).find? key = target.find? key := by
  induction fields generalizing target with
  | nil => rfl
  | cons f rest ih =>
      rw [completeGroups_cons, ih fun g hg => hkey g (by simp [hg])]
      split
      · exact Members.find?_insert_of_ne _ _ (hkey f (by simp))
      · rfl

/-- A missing member is filled in if its field belongs to one of the groups. -/
theorem find?_completeGroups
    (hnodup : (fields.map VisibleField.wireName).Nodup) {f : VisibleField} (hf : f ∈ fields) :
    (types.completeGroups room fields groups target).find? f.wireName =
      (target.find? f.wireName).or
        (if ∃ n ∈ groups, f.group = some n then some (types.zeroAt room f.type) else none) := by
  induction fields generalizing target with
  | nil => cases hf
  | cons g rest ih =>
      obtain ⟨hg, hnodup⟩ := List.nodup_cons.mp hnodup
      rw [completeGroups_cons]
      rcases List.mem_cons.mp hf with rfl | hf
      · have hne : ∀ f' ∈ rest, f.wireName ≠ f'.wireName := by
          intro f' hf' heq
          exact hg (heq ▸ List.mem_map_of_mem hf')
        rw [find?_completeGroups_of_ne hne]
        cases hfind : target.find? f.wireName with
        | some value => simp [hfind]
        | none =>
            by_cases hgroup : ∃ n ∈ groups, f.group = some n
            · simp [hgroup, Members.find?_insert_self]
            · simp [hgroup, hfind]
      · have hne : f.wireName ≠ g.wireName := fun heq => hg (heq ▸ List.mem_map_of_mem hf)
        rw [ih hnodup hf]
        split
        · rw [Members.find?_insert_of_ne _ _ hne]
        · rfl

/-! ## Overlays member by member -/

/-- Whether some field of a field's group was given a value. -/
def groupGiven (fields : List VisibleField) (given : VisibleField → Option Json)
    (f : VisibleField) : Bool :=
  f.group.isSome && fields.any fun g => g.group == f.group && (given g).isSome

/-- An object that is made from another by giving values to some fields: a member is what its field
was given, else it is kept, else it is filled in if its group was given a value. -/
structure Overlaid (types : TypeTable) (room : Nat) (fields : List VisibleField)
    (given : VisibleField → Option Json) (start result : Json.Object) : Prop where
  field : ∀ f ∈ fields, result.find? f.wireName =
    ((given f).or (start.find? f.wireName)).or
      (if groupGiven fields given f then some (types.zeroAt room f.type) else none)
  other : ∀ key, (∀ f ∈ fields, key ≠ f.wireName) → result.find? key = start.find? key
  sorted : start.Sorted → result.Sorted

theorem groupGiven_eq_true_iff
    {given : VisibleField → Option Json} {f : VisibleField} :
    groupGiven fields given f = true ↔
      ∃ n, f.group = some n ∧ ∃ g ∈ fields, g.group = some n ∧ (given g).isSome = true := by
  cases hgroup : f.group with
  | none => simp [groupGiven, hgroup]
  | some n => simp [groupGiven, hgroup]

/-- Whether a field's group was given a value depends on the fields of the group only. -/
theorem groupGiven_congr
    {given given' : VisibleField → Option Json} {f : VisibleField}
    (h : ∀ g ∈ fields, ∀ n, f.group = some n → g.group = some n → given g = given' g) :
    groupGiven fields given f = groupGiven fields given' f := by
  rw [Bool.eq_iff_iff, groupGiven_eq_true_iff, groupGiven_eq_true_iff]
  refine exists_congr fun n => and_congr_right fun hn => exists_congr fun g =>
    and_congr_right fun hg => and_congr_right fun hgn => ?_
  rw [h g hg n hn hgn]

/-- What holds of the members of an object, of what is given and of zero values, holds of the
members of the object that is overlaid. -/
theorem Overlaid.values
    {P : Ty → Json → Prop} {given : VisibleField → Option Json} {start result : Json.Object}
    (h : types.Overlaid room fields given start result)
    (hstart : ∀ f ∈ fields, ∀ json, start.find? f.wireName = some json → P f.type json)
    (hgiven : ∀ f ∈ fields, ∀ json, given f = some json → P f.type json)
    (hzero : ∀ f ∈ fields, P f.type (types.zeroAt room f.type)) :
    ∀ f ∈ fields, ∀ json, result.find? f.wireName = some json → P f.type json := by
  intro f hf json hjson
  rw [h.field f hf] at hjson
  rcases Option.or_eq_some_iff.mp hjson with hjson | ⟨-, hjson⟩
  · rcases Option.or_eq_some_iff.mp hjson with hjson | ⟨-, hjson⟩
    · exact hgiven f hf json hjson
    · exact hstart f hf json hjson
  · split at hjson
    · obtain rfl := Option.some.inj hjson
      exact hzero f hf
    · cases hjson

/-- A member of an object that was overlaid on a zero object was given or is a zero value. -/
theorem Overlaid.given_or_zeroAt
    {id : String} {r : Record} (hapart : MembersApart r.markerField? (types.fieldsOf id r))
    {given : VisibleField → Option Json} {members : Json.Object}
    (h : types.Overlaid room (types.fieldsOf id r) given (types.zeroObject room id r) members)
    {f : VisibleField} (hf : f ∈ types.fieldsOf id r) {value : Json}
    (hvalue : members.find? f.wireName = some value) :
    given f = some value ∨ value = types.zeroAt room f.type := by
  rw [h.field f hf, find?_zeroObject_of_mem hapart hf] at hvalue
  cases hgiven : given f with
  | some w =>
      left
      simpa [hgiven] using hvalue
  | none =>
      right
      rw [hgiven, Option.none_or, Option.or_eq_some_iff] at hvalue
      rcases hvalue with hvalue | ⟨-, hvalue⟩
      · split at hvalue
        · cases hvalue
        · exact (Option.some.inj hvalue).symm
      · split at hvalue
        · exact (Option.some.inj hvalue).symm
        · cases hvalue

/-- Going through fields whose names are apart and completing the groups overlays an object. -/
theorem exists_overlaid
    {value? : Json.Object → VisibleField → Except FieldError (Option Json)} {start : Json.Object}
    {a : Assembly} {touched : Bool} (h : Assembles value? fields ⟨start, []⟩ a touched)
    (hnodup : (fields.map VisibleField.wireName).Nodup)
    (hlocal : ∀ f ∈ fields, ∀ x y : Json.Object, x.find? f.wireName = y.find? f.wireName →
      value? x f = value? y f) :
    ∃ given : VisibleField → Option Json,
      (∀ f ∈ fields, value? start f = .ok (given f)) ∧
      (touched = true ↔ ∃ f ∈ fields, (given f).isSome) ∧
      types.Overlaid room fields given start
        (types.completeGroups room fields a.groups a.target) := by
  obtain ⟨given, hvalues, hfind, hgroups, htouched⟩ := h.exists_given hnodup hlocal
  refine ⟨given, hvalues, htouched, ?_, ?_, ?_⟩
  · intro f hf
    rw [find?_completeGroups hnodup hf, hfind f hf]
    congr 2
    rw [groupGiven_eq_true_iff, eq_iff_iff]
    simp only [hgroups, List.not_mem_nil, false_or]
    exact exists_congr fun n => and_comm
  · intro key hkey
    rw [find?_completeGroups_of_ne hkey, h.find?_of_ne hkey]
  · intro hsorted
    exact sorted_completeGroups (h.sorted hsorted)

/-! ## Bodies -/

theorem exists_assembles_of_overlayBody
    {convert : Ty → Json → String → Except FieldError Json} {body start : Json.Object}
    {path : String} {a : Assembly} (h : overlayBody convert fields body path start = .ok a) :
    ∃ touched, Assembles (fun _ => bodyGiven? convert body path) fields ⟨start, []⟩ a touched := by
  rw [overlayBody_eq_foldlM] at h
  generalize (⟨start, []⟩ : Assembly) = first at h ⊢
  induction fields generalizing first with
  | nil =>
      obtain rfl : first = a := Except.ok.inj h
      exact ⟨false, .nil⟩
  | cons f rest ih =>
      rw [List.foldlM_cons] at h
      obtain ⟨next, hnext, hrest⟩ := Results.bind_eq_ok_iff.mp h
      obtain ⟨given, hgiven, rfl⟩ := Results.map_eq_ok_iff.mp hnext
      obtain ⟨touched, htouched⟩ := ih _ hrest
      exact ⟨_, .cons hgiven htouched⟩

/-- Where names are apart a body overlays an object field by field. -/
theorem exists_overlaid_of_overlayBody
    (hnodup : (fields.map VisibleField.wireName).Nodup)
    {convert : Ty → Json → String → Except FieldError Json} {body start : Json.Object}
    {path : String} {a : Assembly} (h : overlayBody convert fields body path start = .ok a)
    (room : Nat) :
    ∃ given : VisibleField → Option Json,
      (∀ f ∈ fields, bodyGiven? convert body path f = .ok (given f)) ∧
      types.Overlaid room fields given start
        (types.completeGroups room fields a.groups a.target) := by
  obtain ⟨touched, hassembles⟩ := exists_assembles_of_overlayBody h
  obtain ⟨given, hgiven, -, hoverlaid⟩ := exists_overlaid hassembles hnodup fun _ _ _ _ _ => rfl
  exact ⟨given, hgiven, hoverlaid⟩

end TypeTable
end TypedRoutes
