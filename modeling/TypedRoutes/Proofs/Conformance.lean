import Mathlib.Algebra.Group.Int.Defs
import Mathlib.Logic.Relation
import TypedRoutes.Request.Convert

/-!
# Values that conform to a type

The relation `Conforms` says which JSON values are values of a type.  It is the least relation with
one rule for each layer of a type, `Admits`.  A value under construction is only known to conform
down to a number of containers, which `ConformsTo` counts; for a value that nests no deeper the two
relations agree.
-/

namespace TypedRoutes

/-! ## Nesting -/

namespace Json

mutual

/-- The greatest number of containers inside each other. -/
def depth : Json → Nat
  | .array items => depthItems items + 1
  | .object members => depthMembers members + 1
  | .null | .bool _ | .int _ | .float _ | .string _ => 0

/-- The depth of the deepest of some items. -/
def depthItems : List Json → Nat
  | [] => 0
  | item :: rest => max (depth item) (depthItems rest)

/-- The depth of the deepest of some members. -/
def depthMembers : List (String × Json) → Nat
  | [] => 0
  | (_, value) :: rest => max (depth value) (depthMembers rest)

end

theorem depth_lt_of_mem_items
    {items : List Json} {item : Json} (h : item ∈ items) : item.depth < (array items).depth := by
  have hle : item.depth ≤ depthItems items := by
    induction items with
    | nil => cases h
    | cons head rest ih =>
        rw [depthItems]
        rcases List.mem_cons.mp h with rfl | h
        · exact Nat.le_max_left _ _
        · exact Nat.le_trans (ih h) (Nat.le_max_right _ _)
  rw [depth]
  omega

theorem depth_lt_of_mem_members
    {members : List (String × Json)} {key : String} {value : Json} (h : (key, value) ∈ members) :
    value.depth < (object members).depth := by
  have hle : value.depth ≤ depthMembers members := by
    induction members with
    | nil => cases h
    | cons head rest ih =>
        obtain ⟨key', value'⟩ := head
        rw [depthMembers]
        rcases List.mem_cons.mp h with heq | h
        · obtain ⟨rfl, rfl⟩ := Prod.mk.inj heq
          exact Nat.le_max_left _ _
        · exact Nat.le_trans (ih h) (Nat.le_max_right _ _)
  rw [depth]
  omega

/-! ## Comparing values -/

mutual

/-- Whether two values are found to be the same; numbers in binary64 never are. -/
def isSame : Json → Json → Bool
  | .null, .null => true
  | .bool b, .bool b' => b == b'
  | .int n, .int n' => n == n'
  | .string s, .string s' => s == s'
  | .array items, .array items' => sameItems items items'
  | .object members, .object members' => sameMembers members members'
  | _, _ => false

/-- Whether some items are found to be the same, one by one. -/
def sameItems : List Json → List Json → Bool
  | [], [] => true
  | item :: rest, item' :: rest' => isSame item item' && sameItems rest rest'
  | _, _ => false

/-- Whether some members are found to be the same, one by one. -/
def sameMembers : List (String × Json) → List (String × Json) → Bool
  | [], [] => true
  | (key, value) :: rest, (key', value') :: rest' =>
    key == key' && isSame value value' && sameMembers rest rest'
  | _, _ => false

end

mutual

theorem eq_of_isSame : ∀ {value value' : Json}, isSame value value' = true → value = value'
  | .null, .null, _ => rfl
  | .bool _, .bool _, h => congrArg bool (eq_of_beq h)
  | .int _, .int _, h => congrArg int (eq_of_beq h)
  | .string _, .string _, h => congrArg string (eq_of_beq h)
  | .array _, .array _, h => congrArg array (eq_of_sameItems h)
  | .object _, .object _, h => congrArg object (eq_of_sameMembers h)

theorem eq_of_sameItems :
    ∀ {items items' : List Json}, sameItems items items' = true → items = items'
  | [], [], _ => rfl
  | _ :: _, _ :: _, h => by
      obtain ⟨hitem, hrest⟩ := Bool.and_eq_true_iff.mp h
      rw [eq_of_isSame hitem, eq_of_sameItems hrest]

theorem eq_of_sameMembers :
    ∀ {members members' : List (String × Json)}, sameMembers members members' = true →
      members = members'
  | [], [], _ => rfl
  | (_, _) :: _, (_, _) :: _, h => by
      obtain ⟨hhead, hrest⟩ := Bool.and_eq_true_iff.mp h
      obtain ⟨hkey, hvalue⟩ := Bool.and_eq_true_iff.mp hhead
      rw [eq_of_beq hkey, eq_of_isSame hvalue, eq_of_sameMembers hrest]

end

end Json

/-! ## One layer of a type -/

/-- A text that denotes a moment or a day: one that is written for some moment, or an RFC 3339 text
where an offset is kept. -/
def TimeKind.IsText : TimeKind → String → Prop
  | .dateTime, s => (∃ m : Moment, s = m.utcText) ∨ (Moment.ofRfc3339? s.toList).isSome = true
  | .naiveDateTime, s => ∃ m : Moment, s = m.localText
  | .date, s => ∃ m : Moment, s = m.dateText

/-- An integer within the range of a width, signed or not. -/
def InRange (signed : Bool) (bits : Nat) (n : Int) : Prop :=
  if signed then -(2 ^ (bits - 1)) ≤ n ∧ n < 2 ^ (bits - 1) else 0 ≤ n ∧ n < 2 ^ bits

/-- The values of the shapes without components. -/
inductive Shape.Leaf : Shape → Json → Prop
  | bool (b : Bool) : Leaf .bool (.bool b)
  | int {signed : Bool} {bits : Nat} {n : Int} (h : InRange signed bits n) :
      Leaf (.int signed bits) (.int n)
  | float {bits : Nat} {x : Float} (h : x.isFinite = true) : Leaf (.float bits) (.float x)
  | text {choices : List String} {s : String} (h : choices = [] ∨ s ∈ choices) :
      Leaf (.text choices) (.string s)
  | char (c : Char) : Leaf .char (.string (String.ofList [c]))
  | time {kind : TimeKind} {s : String} (h : kind.IsText s) : Leaf (.time kind) (.string s)
  | any (value : Json) : Leaf .any value
  | marker : Leaf .marker Json.empty

/-- No two fields of a record have one name in JSON, and none has that of the marker. -/
structure NamesApart (marker : Option Field) (fields : List VisibleField) : Prop where
  nodup : (fields.map VisibleField.wireName).Nodup
  marker : ∀ m ∈ marker, ∀ f ∈ fields, f.wireName ≠ m.wireName

/-- The members of a record's object: visible fields and the marker, which has no content.  All
fields outside optional groups are there, and all or none of each group. -/
structure IsRecord (marker : Option Field) (fields : List VisibleField) (members : Json.Object) :
    Prop where
  keys : ∀ entry ∈ members,
    (∃ f ∈ fields, entry.1 = f.wireName) ∨ ∃ m ∈ marker, entry = (m.wireName, Json.empty)
  marker : ∀ m ∈ marker, (m.wireName, Json.empty) ∈ members
  present : ∀ f ∈ fields, f.group = none → f.wireName ∈ members.keys
  grouped : ∀ f ∈ fields, ∀ g ∈ fields, f.group = g.group →
    f.wireName ∈ members.keys → g.wireName ∈ members.keys

namespace TypeTable

/-- A text is accepted as a key, wherever it occurs. -/
def AcceptsKey (types : TypeTable) (keys : Ty) (key : String) : Prop :=
  ∀ path, ∃ value, types.convert keys (.string key) path = .ok value

/-- The outermost layer of a value is one of a type, and its components satisfy `P`. -/
inductive Admits (types : TypeTable) (P : Ty → Json → Prop) : Ty → Json → Prop
  | absent {inner : Ty} : Admits types P (.option inner) .null
  | leaf {t : Ty} {value : Json} (h : (types.shape t.target).Leaf value) : Admits types P t value
  | sequence {t element : Ty} {items : List Json} (ht : types.shape t.target = .sequence element)
      (hitems : ∀ item ∈ items, P element item) : Admits types P t (.array items)
  | table {t keys values : Ty} {members : Json.Object}
      (ht : types.shape t.target = .table keys values)
      (hkeys : ∀ entry ∈ members, types.AcceptsKey keys entry.1)
      (hvalues : ∀ entry ∈ members, P values entry.2) : Admits types P t (.object members)
  | record {t : Ty} {id : String} {r : Record} {members : Json.Object}
      (ht : types.shape t.target = .record id r)
      (hmembers : IsRecord r.markerField? (types.fieldsOf id r) members)
      (hvalues : ∀ f ∈ types.fieldsOf id r, ∀ value, (f.wireName, value) ∈ members →
        P f.type value) : Admits types P t (.object members)

/-- A JSON value is a value of a type. -/
inductive Conforms (types : TypeTable) : Ty → Json → Prop
  | intro {t : Ty} {value : Json} (h : Admits types (Conforms types) t value) :
      Conforms types t value

/-- A JSON value is a value of a type as far as its outermost `limit` containers tell. -/
def ConformsTo (types : TypeTable) : Nat → Ty → Json → Prop
  | 0 => fun _ _ => True
  | limit + 1 => types.Admits (ConformsTo types limit)

variable {types : TypeTable} {P Q : Ty → Json → Prop}

theorem Admits.imp
    {t : Ty} {value : Json} (h : types.Admits P t value)
    (hcomponent : ∀ u w, w.depth < value.depth → P u w → Q u w) : types.Admits Q t value := by
  cases h with
  | absent => exact .absent
  | leaf h => exact .leaf h
  | sequence ht hitems =>
      refine .sequence ht ?_
      intro item hitem
      exact hcomponent _ item (Json.depth_lt_of_mem_items hitem) (hitems item hitem)
  | table ht hkeys hvalues =>
      refine .table ht hkeys ?_
      intro entry hentry
      exact hcomponent _ entry.2 (Json.depth_lt_of_mem_members hentry) (hvalues entry hentry)
  | record ht hmembers hvalues =>
      refine .record ht hmembers ?_
      intro f hf w hw
      exact hcomponent _ w (Json.depth_lt_of_mem_members hw) (hvalues f hf w hw)

/-- Optional layers only add `null`. -/
theorem Admits.of_target
    {t : Ty} {value : Json} (h : types.Admits P t.target value) : types.Admits P t value := by
  have hoption : t.target.isOption = false := Ty.isOption_target t
  have htarget : t.target.target = t.target := Ty.target_target t
  generalize hu : t.target = u at h hoption htarget
  rw [← hu] at htarget
  cases h with
  | absent => cases hoption
  | leaf h => exact .leaf (by rwa [← hu, htarget] at h)
  | sequence ht hitems => exact .sequence (by rwa [← hu, htarget] at ht) hitems
  | table ht hkeys hvalues => exact .table (by rwa [← hu, htarget] at ht) hkeys hvalues
  | record ht hmembers hvalues => exact .record (by rwa [← hu, htarget] at ht) hmembers hvalues

theorem ConformsTo.of_le
    {limit limit' : Nat} (hle : limit ≤ limit') {t : Ty} {value : Json}
    (h : types.ConformsTo limit' t value) : types.ConformsTo limit t value := by
  induction limit generalizing limit' t value with
  | zero => trivial
  | succ limit ih =>
      obtain ⟨limit', rfl⟩ : ∃ n, limit' = n + 1 := ⟨limit' - 1, by omega⟩
      apply Admits.imp h
      intro u w _ hw
      exact ih (by omega) hw

/-- Conforming deeper than a value nests is conforming. -/
theorem ConformsTo.conforms
    {limit : Nat} {t : Ty} {value : Json} (h : types.ConformsTo limit t value)
    (hdepth : value.depth < limit) : types.Conforms t value := by
  induction limit generalizing t value with
  | zero => omega
  | succ limit ih =>
      constructor
      apply Admits.imp h
      intro u w hw hconforms
      exact ih hconforms (by omega)

/-! ## Types whose field names are apart -/

/-- The types of the values directly inside the values of a type. -/
inductive Component (types : TypeTable) : Ty → Ty → Prop
  | field {t : Ty} {id : String} {r : Record} (ht : types.shape t.target = .record id r)
      {f : VisibleField} (hf : f ∈ types.fieldsOf id r) : Component types t f.type
  | element {t element : Ty} (ht : types.shape t.target = .sequence element) :
      Component types t element
  | value {t keys values : Ty} (ht : types.shape t.target = .table keys values) :
      Component types t values

/-- The components of a type. -/
def components (types : TypeTable) (t : Ty) : List Ty :=
  match types.shape t.target with
  | .record id r => (types.fieldsOf id r).map VisibleField.type
  | .sequence element => [element]
  | .table _ values => [values]
  | _ => []

theorem mem_components {t u : Ty} (h : types.Component t u) : u ∈ types.components t := by
  unfold components
  cases h with
  | field ht hf =>
      rw [ht]
      exact List.mem_map_of_mem hf
  | element ht => simp [ht]
  | value ht => simp [ht]

/-- Types that include their components include all types that are reached from one of them. -/
theorem mem_of_reached
    {ts : List Ty} {t u : Ty} (h : Relation.ReflTransGen types.Component t u) (ht : t ∈ ts)
    (hclosed : ∀ v ∈ ts, ∀ w ∈ types.components v, w ∈ ts) : u ∈ ts := by
  induction h with
  | refl => exact ht
  | tail _ hcomponent ih => exact hclosed _ ih _ (mem_components hcomponent)

/-- In every record that is reached from a type the names of fields are apart. -/
def HasNamesApart (types : TypeTable) (t : Ty) : Prop :=
  ∀ u, Relation.ReflTransGen types.Component t u → ∀ id r,
    types.shape u.target = .record id r → NamesApart r.markerField? (types.fieldsOf id r)

theorem HasNamesApart.component
    {t u : Ty} (h : types.HasNamesApart t) (hcomponent : types.Component t u) :
    types.HasNamesApart u := by
  intro v hv
  exact h v (.head hcomponent hv)

theorem HasNamesApart.record
    {t : Ty} (h : types.HasNamesApart t) {id : String} {r : Record}
    (ht : types.shape t.target = .record id r) :
    NamesApart r.markerField? (types.fieldsOf id r) :=
  h t .refl id r ht

end TypeTable
end TypedRoutes
