import TypedRoutes.Proofs.DocumentedParameters
import TypedRoutes.Proofs.SchemaUnfolding

/-!
# Documented formats of integers

A schema gives an integer the format of its width, with or without a sign; what is converted is in
the range of its type.  So an integer in a request value is in the signed range of the format that
is documented for its position, unless its type is unsigned and as wide as the format: then it may
be up to twice as large.  Positions of the schema are followed into values step by step, and so are
the places of parameters.
-/

namespace TypedRoutes

/-! ## Formats -/

/-- The formats that integers are described with. -/
inductive IntegerFormat
  | int32
  | int64
  deriving DecidableEq

namespace IntegerFormat

/-- How a format is written. -/
def name : IntegerFormat → String
  | int32 => "int32"
  | int64 => "int64"

/-- The number of bits of the signed integers that a format stands for. -/
def bits : IntegerFormat → Nat
  | int32 => 32
  | int64 => 64

end IntegerFormat

namespace Width

/-- The format of the integers of a width, signed or not. -/
def format : Width → IntegerFormat
  | w8 | w16 | w32 => .int32
  | w64 | word => .int64

theorem name_format (w : Width) : w.format.name = if 32 < w.bits then "int64" else "int32" := by
  cases w <;> rfl

end Width

/-- The integer type of a width. -/
def Scalar.integer (signed : Bool) (w : Width) : Scalar :=
  if signed then .int w else .uint w

/-- An integer of a type, against the format of its width.  It is in the signed range of the format
unless the type is unsigned and as wide as the format, and less than twice as large then. -/
structure FitsFormat (signed : Bool) (w : Width) (n : Int) : Prop where
  inType : InRange signed w.bits n
  inFormat : signed = true ∨ w.bits < w.format.bits → InRange true w.format.bits n
  bounds : -(2 ^ (w.format.bits - 1)) ≤ n ∧ n < 2 ^ w.format.bits

theorem fitsFormat_of_inRange
    {signed : Bool} {w : Width} {n : Int} (h : InRange signed w.bits n) :
    FitsFormat signed w n := by
  constructor
  · exact h
  · cases signed <;> cases w <;>
      simp [InRange, Width.bits, Width.format, IntegerFormat.bits] at h ⊢ <;> omega
  · cases signed <;> cases w <;>
      simp [InRange, Width.bits, Width.format, IntegerFormat.bits] at h ⊢ <;> omega

/-- The parameter schema at the end of some steps. -/
def ParameterSchema.at? : ParameterSchema → List Schema.Step → Option ParameterSchema
  | s, [] => some s
  | .list items, .items :: rest => items.at? rest
  | _, _ :: _ => none

/-! ## Positions in values -/

/-- A value stands at a position in another one: steps lead into any item of a list, to any value of
an object, or to the value under a name. -/
inductive Json.HoldsAt : Json → List Schema.Step → Json → Prop
  | here (value : Json) : HoldsAt value [] value
  | item {items : List Json} {item value : Json} {path : List Schema.Step} (hitem : item ∈ items)
      (h : HoldsAt item path value) : HoldsAt (.array items) (.items :: path) value
  | entry {members : Json.Object} {entry : String × Json} {value : Json}
      {path : List Schema.Step} (hentry : entry ∈ members) (h : HoldsAt entry.2 path value) :
      HoldsAt (.object members) (.values :: path) value
  | member {members : Json.Object} {name : String} {inner value : Json}
      {path : List Schema.Step} (hfind : members.find? name = some inner)
      (h : HoldsAt inner path value) : HoldsAt (.object members) (.property name :: path) value

/-- The integer that a value is. -/
def Json.integer? : Json → Option Int
  | .int n => some n
  | _ => none

theorem Json.eq_int_of_integer? {value : Json} {n : Int} (h : value.integer? = some n) :
    value = .int n := by
  cases value with
  | int m => rw [Option.some.inj h]
  | _ => cases h

/-- What is found under nested keys stands at the position that they name. -/
theorem Json.holdsAt_of_at?
    {value inner : Json} {keys : List String} (h : value.at? keys = some inner) :
    value.HoldsAt (keys.map .property) inner := by
  induction keys generalizing value with
  | nil =>
      obtain rfl := Option.some.inj h
      exact .here _
  | cons key rest ih =>
      obtain ⟨next, hnext, hrest⟩ := Option.bind_eq_some_iff.mp h
      obtain ⟨members, rfl⟩ := Json.exists_of_member? hnext
      exact .member hnext (ih hrest)

/-- Nothing stands in an object without members. -/
theorem Json.holdsAt_empty {path : List Schema.Step} {value : Json}
    (h : Json.empty.HoldsAt path value) : value = Json.empty := by
  generalize hempty : Json.empty = outer at h
  cases h with
  | here => rfl
  | item => cases hempty
  | entry hentry =>
      obtain rfl := Json.object.inj hempty
      cases hentry
  | member hfind =>
      obtain rfl := Json.object.inj hempty
      cases hfind

namespace TypeTable

variable {types : TypeTable} {t u : Ty} {id : String} {r : Record} {room : Nat}
  {fields : List VisibleField} {f : VisibleField} {query : Query} {path : List Schema.Step}

/-- Steps that lead from a type to the type of a component. -/
inductive LeadsTo (types : TypeTable) : Ty → List Schema.Step → Ty → Prop
  | here (t : Ty) : LeadsTo types t [] t
  | items {t element u : Ty} {path : List Schema.Step}
      (ht : types.shape t.target = .sequence element) (h : LeadsTo types element path u) :
      LeadsTo types t (.items :: path) u
  | values {t keys values u : Ty} {path : List Schema.Step}
      (ht : types.shape t.target = .table keys values) (h : LeadsTo types values path u) :
      LeadsTo types t (.values :: path) u
  | property {t u : Ty} {id : String} {r : Record} {f : VisibleField} {path : List Schema.Step}
      (ht : types.shape t.target = .record id r) (hf : f ∈ types.fieldsOf id r)
      (h : LeadsTo types f.type path u) : LeadsTo types t (.property f.wireName :: path) u

/-- Positions of a schema are led to. -/
theorem leadsTo_of_positionFrom?
    {p q : SchemaPosition} (h : types.positionFrom? p path = some q) :
    types.LeadsTo p.type path q.type := by
  induction path generalizing p with
  | nil =>
      obtain rfl := Option.some.inj h
      exact .here _
  | cons step rest ih =>
      obtain ⟨next, hnext, hrest⟩ := Option.bind_eq_some_iff.mp h
      have hlead := ih hrest
      unfold nextPosition? at hnext
      split at hnext
      · cases hnext
      · split at hnext
        · rename_i ht
          obtain rfl := Option.some.inj hnext
          exact .items ht hlead
        · rename_i ht
          obtain rfl := Option.some.inj hnext
          exact .values ht hlead
        · rename_i ht
          split at hnext
          · cases hnext
          · obtain ⟨f, hf, rfl⟩ := Option.map_eq_some_iff.mp hnext
            obtain rfl : f.wireName = _ := by simpa using List.find?_some hf
            exact .property ht (List.mem_reverse.mp (List.mem_of_find?_eq_some hf)) hlead
        · cases hnext

/-! ## Values whose integers are in range -/

/-- Every integer of a value is in the range of the type that leads to its position. -/
def KeepsRanges (types : TypeTable) (t : Ty) (value : Json) : Prop :=
  ∀ path u n signed bits, types.LeadsTo t path u → types.shape u.target = .int signed bits →
    value.HoldsAt path (.int n) → InRange signed bits n

/-- The members of an object keep the ranges of their fields. -/
def MembersKeepRanges (types : TypeTable) (fields : List VisibleField) (members : Json.Object) :
    Prop :=
  ∀ f ∈ fields, ∀ json, members.find? f.wireName = some json → types.KeepsRanges f.type json

theorem keepsRanges_null (t : Ty) : types.KeepsRanges t .null := by
  rintro path u n signed bits - - ⟨⟩

theorem keepsRanges_empty (t : Ty) : types.KeepsRanges t Json.empty := by
  intro path u n signed bits _ _ hholds
  cases Json.holdsAt_empty hholds

theorem keepsRanges_leaf
    {value : Json} (h : (types.shape t.target).Leaf value) : types.KeepsRanges t value := by
  intro path u n signed bits hlead hshape hholds
  cases hlead with
  | here =>
      cases hholds
      rw [hshape] at h
      cases h with
      | int h => exact h
  | items ht | values ht | property ht =>
      rw [ht] at h
      cases h

theorem keepsRanges_array
    {element : Ty} {items : List Json} (ht : types.shape t.target = .sequence element)
    (h : ∀ item ∈ items, types.KeepsRanges element item) : types.KeepsRanges t (.array items) := by
  intro path u n signed bits hlead hshape hholds
  obtain _ | ⟨hitem, hinner⟩ := hholds
  obtain _ | ⟨ht', hrest⟩ := hlead
  obtain rfl := Shape.sequence.inj (ht.symm.trans ht')
  exact h _ hitem _ u n signed bits hrest hshape hinner

theorem keepsRanges_table
    {keys values : Ty} {members : Json.Object} (ht : types.shape t.target = .table keys values)
    (h : ∀ entry ∈ members, types.KeepsRanges values entry.2) :
    types.KeepsRanges t (.object members) := by
  intro path u n signed bits hlead hshape hholds
  cases hholds with
  | entry hentry hinner =>
      obtain _ | _ | ⟨ht', hrest⟩ := hlead
      obtain ⟨-, rfl⟩ := Shape.table.inj (ht.symm.trans ht')
      exact h _ hentry _ u n signed bits hrest hshape hinner
  | member hfind hinner =>
      obtain _ | _ | _ | ⟨ht', hf, hrest⟩ := hlead
      cases ht.symm.trans ht'

theorem keepsRanges_record_iff
    {members : Json.Object} (ht : types.shape t.target = .record id r) :
    types.KeepsRanges t (.object members) ↔
      types.MembersKeepRanges (types.fieldsOf id r) members := by
  constructor
  · intro h f hf json hjson path u n signed bits hlead hshape hholds
    exact h _ u n signed bits (.property ht hf hlead) hshape (.member hjson hholds)
  · intro h path u n signed bits hlead hshape hholds
    cases hholds with
    | entry hentry hinner =>
        obtain _ | _ | ⟨ht', hrest⟩ := hlead
        cases ht.symm.trans ht'
    | member hfind hinner =>
        obtain _ | _ | _ | ⟨ht', hf, hrest⟩ := hlead
        obtain ⟨rfl, rfl⟩ := Shape.record.inj (ht.symm.trans ht')
        exact h _ hf _ hfind _ u n signed bits hrest hshape hinner

/-! ## Names that mean one field -/

/-- In every record that is reached from a type the fields have distinct names in JSON. -/
def HasDistinctNames (types : TypeTable) (t : Ty) : Prop :=
  ∀ u, Relation.ReflTransGen types.Component t u → ∀ id r,
    types.shape u.target = .record id r →
    ((types.fieldsOf id r).map VisibleField.wireName).Nodup

theorem HasDistinctNames.component
    (h : types.HasDistinctNames t) (hcomponent : types.Component t u) :
    types.HasDistinctNames u := by
  intro v hv
  exact h v (.head hcomponent hv)

theorem HasDistinctNames.record
    (h : types.HasDistinctNames t) (ht : types.shape t.target = .record id r) :
    ((types.fieldsOf id r).map VisibleField.wireName).Nodup :=
  h t .refl id r ht

/-! ## Zero values and conversions -/

theorem membersKeepRanges_zeroObject
    (hnodup : ((types.fieldsOf id r).map VisibleField.wireName).Nodup)
    (hzero : ∀ f ∈ types.fieldsOf id r, types.KeepsRanges f.type (types.zeroAt room f.type)) :
    types.MembersKeepRanges (types.fieldsOf id r) (types.zeroObject room id r) := by
  intro f hf json hjson
  rw [find?_zeroObject hnodup hf] at hjson
  split at hjson
  · obtain ⟨m, -, heq⟩ := mem_markerOnly_iff.mp (Members.mem_of_find?_eq_some hjson)
    rw [(Prod.mk.inj heq).2]
    exact keepsRanges_empty f.type
  · obtain rfl := Option.some.inj hjson
    exact hzero f hf

theorem keepsRanges_zeroAt_of_not_record
    (hrecord : ∀ id r, types.shape t ≠ .record id r) (room : Nat) :
    types.KeepsRanges t (types.zeroAt room t) := by
  cases hoption : t.isOption with
  | true =>
      rw [zeroAt_of_isOption hoption]
      exact keepsRanges_null t
  | false =>
      have htarget : t.target = t := target_eq_of_isOption hoption
      cases hshape : types.shape t with
      | sequence element =>
          simp only [zeroAt, hshape]
          exact keepsRanges_array (by rw [htarget, hshape]) (by simp)
      | table keys values =>
          simp only [zeroAt, hshape]
          exact keepsRanges_empty t
      | _ =>
          apply keepsRanges_leaf
          rw [htarget]
          exact leaf_zeroAt hoption hrecord (by simp [hshape]) (by simp [hshape]) room

theorem keepsRanges_zeroAt
    (room : Nat) (h : types.HasDistinctNames t) : types.KeepsRanges t (types.zeroAt room t) := by
  induction room generalizing t with
  | zero =>
      by_cases hrecord : ∃ id r, types.shape t = .record id r
      · obtain ⟨id, r, hshape⟩ := hrecord
        simp only [zeroAt, hshape]
        exact keepsRanges_empty t
      · push Not at hrecord
        exact keepsRanges_zeroAt_of_not_record hrecord 0
  | succ room ih =>
      by_cases hrecord : ∃ id r, types.shape t = .record id r
      · obtain ⟨id, r, hshape⟩ := hrecord
        have htarget : t.target = t := by
          cases t with
          | option inner => cases hshape
          | _ => rfl
        have ht : types.shape t.target = .record id r := by rw [htarget, hshape]
        simp only [zeroAt, hshape]
        exact (keepsRanges_record_iff ht).mpr
          (membersKeepRanges_zeroObject (h.record ht) fun f hf => ih (h.component (.field ht hf)))
      · push Not at hrecord
        exact keepsRanges_zeroAt_of_not_record hrecord (room + 1)

/-- A body keeps the ranges of an object if what it is converted to does. -/
theorem MembersKeepRanges.overlayBody
    {start : Json.Object} (hstart : types.MembersKeepRanges fields start)
    (hnodup : (fields.map VisibleField.wireName).Nodup)
    {convert : Ty → Json → String → Except FieldError Json}
    (hconvert : ∀ f ∈ fields, ∀ raw place json, convert f.type raw place = .ok json →
      types.KeepsRanges f.type json)
    (hzero : ∀ f ∈ fields, types.KeepsRanges f.type (types.zeroAt room f.type))
    {body : Json.Object} {place : String} {a : Assembly}
    (ha : overlayBody convert fields body place start = .ok a) :
    types.MembersKeepRanges fields (types.completeGroups room fields a.groups a.target) := by
  obtain ⟨given, hgiven, hoverlaid⟩ := exists_overlaid_of_overlayBody hnodup ha room
  apply hoverlaid.values hstart ?_ hzero
  intro f hf json hjson
  have hvalue := hgiven f hf
  rw [hjson] at hvalue
  obtain ⟨raw, -, hconverted⟩ := convert_of_bodyGiven? hvalue
  exact hconvert f hf _ _ _ hconverted

theorem keepsRanges_convertAt
    (h : types.HasDistinctNames t) {value result : Json} {place : String}
    (hresult : types.convertAt room t value place = .ok result) : types.KeepsRanges t result := by
  induction room generalizing t value result place with
  | zero => cases hresult
  | succ room ih =>
      cases convertStep_of_convertAt hresult with
      | absent => exact keepsRanges_null _
      | any hpresent ht =>
          apply keepsRanges_leaf
          rw [ht]
          exact .any _
      | marker hpresent ht => exact keepsRanges_empty t
      | zeroRecord hpresent ht =>
          rw [target_eq_of_isOption (isOption_eq_false hpresent)]
          exact keepsRanges_zeroAt room h
      | @record _ _ id r body a ht hbody ha =>
          have hnodup := h.record ht
          have hfields : ∀ f ∈ types.fieldsOf id r, types.HasDistinctNames f.type :=
            fun f hf => h.component (.field ht hf)
          have hzero : ∀ f ∈ types.fieldsOf id r,
              types.KeepsRanges f.type (types.zeroAt (room - 1) f.type) :=
            fun f hf => keepsRanges_zeroAt (room - 1) (hfields f hf)
          exact (keepsRanges_record_iff ht).mpr
            ((membersKeepRanges_zeroObject hnodup hzero).overlayBody hnodup
              (fun f hf _ _ _ hconverted => ih (hfields f hf) hconverted) hzero ha)
      | sequence hpresent ht hitems hresults =>
          apply keepsRanges_array ht
          intro item hitem
          obtain ⟨entry, -, hentry⟩ := Results.exists_left_of_forall₂ hresults hitem
          exact ih (h.component (.element ht)) hentry
      | emptyTable hpresent ht => exact keepsRanges_empty t
      | table ht hmembers hresults =>
          apply keepsRanges_table ht
          intro entry hentry
          obtain ⟨_, -, -, hitem, -⟩ := Results.exists_left_of_forall₂ hresults hentry
          exact ih (h.component (.value ht)) hitem
      | leaf hpresent hleaf => exact keepsRanges_leaf (leaf_of_leafOf? hleaf)

/-! ## Queries -/

/-- What a query gives to a field that is no record keeps the ranges. -/
theorem keepsRanges_leafValue?
    (h : types.HasDistinctNames f.type) (hleaf : types.record? f.type = none) {value : Json}
    (hvalue : types.leafValue? room query f = .ok (some value)) :
    types.KeepsRanges f.type value := by
  cases leafStep_of_leafValue? (shape_ne_record hleaf) hvalue with
  | sequence ht hitems =>
      apply keepsRanges_array ht
      intro item hitem
      obtain ⟨text, path, hresult⟩ := hitems item hitem
      exact keepsRanges_convertAt (h.component (.element ht)) hresult
  | table ht hmembers =>
      apply keepsRanges_table ht
      intro entry hentry
      obtain ⟨text, path, -, hresult⟩ := hmembers entry hentry
      exact keepsRanges_convertAt (h.component (.value ht)) hresult
  | single hresult => exact keepsRanges_convertAt h hresult

/-- A query keeps the ranges of an object, those of nested objects too. -/
theorem MembersKeepRanges.overlayQuery
    (hnodup : (fields.map VisibleField.wireName).Nodup)
    (hfields : ∀ f ∈ fields, types.HasDistinctNames f.type) {start result : Json.Object}
    (hstart : types.MembersKeepRanges fields start) {ancestors : List String} {touched : Bool}
    (h : types.overlayQuery room ancestors query fields start = .ok (result, touched)) :
    types.MembersKeepRanges fields result := by
  induction room using Nat.strongRecOn generalizing ancestors fields start result touched
  rename_i room ih
  obtain ⟨given, hgiven, -, hoverlaid⟩ := exists_overlaid_of_overlayQuery hnodup h
  apply hoverlaid.values hstart
  · intro f hf json hjson
    have hvalue : types.fieldValue? room ancestors query start f = .ok (some json) := by
      rw [hgiven f hf, hjson]
    rcases fieldValue?_eq_some hvalue with ⟨hleaf, hvalue⟩ | ⟨room', id, r, nested, rfl, hrecord,
      -, hnested, rfl⟩
    · exact keepsRanges_leafValue? (hfields f hf) hleaf hvalue
    have ht : types.shape f.type.target = .record id r := shape_of_record? hrecord
    have hnodup' := (hfields f hf).record ht
    have hfields' : ∀ g ∈ types.fieldsOf id r, types.HasDistinctNames g.type :=
      fun g hg => (hfields f hf).component (.field ht hg)
    have hbefore : types.MembersKeepRanges (types.fieldsOf id r)
        (types.nestedObject room' start f id r) := by
      unfold nestedObject
      split
      · rename_i existing hfound
        exact (keepsRanges_record_iff ht).mp (hstart f hf _ hfound)
      · exact membersKeepRanges_zeroObject hnodup'
          fun g hg => keepsRanges_zeroAt room' (hfields' g hg)
    exact (keepsRanges_record_iff ht).mpr
      (ih room' (by omega) hnodup' hfields' hbefore hnested)
  · intro f hf
    exact keepsRanges_zeroAt room (hfields f hf)

/-- The integers of a request value are in range, whatever the method and the inputs are. -/
theorem keepsRanges_requestValue
    (h : types.HasDistinctNames t) {method : String} {input : CallInput} {value : Json}
    (hvalue : types.requestValue t method input = .ok value) : types.KeepsRanges t value := by
  cases hrecord : types.record? t with
  | none => simp [requestValue, hrecord] at hvalue
  | some found =>
      obtain ⟨id, r⟩ := found
      have ht : types.shape t.target = .record id r := shape_of_record? hrecord
      have hnodup := h.record ht
      have hfields : ∀ f ∈ types.fieldsOf id r, types.HasDistinctNames f.type :=
        fun f hf => h.component (.field ht hf)
      have hzero : ∀ f ∈ types.fieldsOf id r,
          types.KeepsRanges f.type (types.zeroAt maxDepth f.type) :=
        fun f hf => keepsRanges_zeroAt maxDepth (hfields f hf)
      have hbody : ∀ body start result, types.MembersKeepRanges (types.fieldsOf id r) start →
          types.overlayTop (types.fieldsOf id r) body start = .ok result →
          types.MembersKeepRanges (types.fieldsOf id r) result := by
        intro body start result hstart hresult
        obtain ⟨a, ha, hresult⟩ := Results.bind_eq_ok_iff.mp hresult
        obtain rfl := Except.ok.inj hresult
        exact hstart.overlayBody hnodup
          (fun f hf _ _ _ hconverted => keepsRanges_convertAt (hfields f hf) hconverted) hzero ha
      obtain ⟨members, rfl, hmembers⟩ := requestValue_invariant hrecord
        (membersKeepRanges_zeroObject hnodup hzero)
        (fun _ _ _ _ hstart hresult => hstart.overlayQuery hnodup hfields hresult) hbody hvalue
      exact (keepsRanges_record_iff ht).mpr hmembers

/-! ## Described integers -/

theorem exists_width_of_shape
    {signed : Bool} {bits : Nat} (h : types.shape t = .int signed bits) :
    ∃ w : Width, t = .scalar (.integer signed w) ∧ bits = w.bits := by
  cases t with
  | scalar kind =>
      cases kind with
      | int w | uint w =>
          obtain ⟨rfl, rfl⟩ := Shape.int.inj h
          exact ⟨w, rfl, rfl⟩
      | _ => cases h
  | named name =>
      rw [shape] at h
      split at h <;> cases h
  | _ => cases h

theorem exists_int_of_plainType
    {shape : Shape} {format : Option String}
    (h : shape.plainType = (.integer, format)) :
    ∃ signed bits, shape = .int signed bits ∧
      format = some (if 32 < bits then "int64" else "int32") := by
  cases shape with
  | int signed bits => exact ⟨signed, bits, rfl, (Prod.mk.inj h).2.symm⟩
  | time kind => cases kind <;> cases h
  | _ => cases h

/-- An integer is described at a position of an integer type. -/
theorem exists_width_of_describes
    {p : SchemaPosition} {format : Option String} {choices : List String}
    {text : Option String} {nullable : Bool}
    (h : types.Describes p (.value .integer format choices text nullable)) :
    ∃ signed, ∃ w : Width, p.type.target = .scalar (.integer signed w) ∧
      format = some w.format.name := by
  cases h with
  | value hdepth ht =>
      cases hshape : types.shape p.type.target with
      | int signed bits =>
          rw [hshape] at ht
          obtain ⟨w, hw, rfl⟩ := exists_width_of_shape hshape
          obtain ⟨hformat, -⟩ := Prod.mk.inj (Prod.mk.inj (Option.some.inj ht)).2
          exact ⟨signed, w, hw, by rw [w.name_format, ← hformat]⟩
      | _ =>
          rw [hshape] at ht
          cases ht

theorem shape_integer (signed : Bool) (w : Width) :
    types.shape (.scalar (.integer signed w)) = .int signed w.bits := by
  cases signed <;> rfl

theorem leadsTo_of_target
    (h : types.LeadsTo t.target path u) :
    ∃ v, types.LeadsTo t path v ∧ v.target = u.target := by
  cases h with
  | here => exact ⟨t, .here t, (Ty.target_target t).symm⟩
  | items ht h => exact ⟨u, .items (by rwa [Ty.target_target] at ht) h, rfl⟩
  | values ht h => exact ⟨u, .values (by rwa [Ty.target_target] at ht) h, rfl⟩
  | property ht hf h => exact ⟨u, .property (by rwa [Ty.target_target] at ht) hf h, rfl⟩

theorem leadsTo_option
    (h : types.LeadsTo t path u) : ∃ v, types.LeadsTo (.option t) path v ∧ v.target = u.target := by
  cases h with
  | here => exact ⟨.option t, .here _, rfl⟩
  | items ht h => exact ⟨u, .items ht h, rfl⟩
  | values ht h => exact ⟨u, .values ht h, rfl⟩
  | property ht hf h => exact ⟨u, .property ht hf h, rfl⟩

theorem eq_of_at?_plain
    {type type' : SchemaType} {format format' : Option String}
    (h : (ParameterSchema.plain type format).at? path = some (.plain type' format')) :
    path = [] ∧ type = type' ∧ format = format' := by
  cases path with
  | nil =>
      obtain ⟨rfl, rfl⟩ := ParameterSchema.plain.inj (Option.some.inj h)
      exact ⟨rfl, rfl, rfl⟩
  | cons step rest => simp [ParameterSchema.at?] at h

/-- An integer is documented for a parameter whose type leads to an integer type. -/
theorem leadsTo_of_parameterSchema
    {depth : Nat} {format : Option String}
    (h : (types.parameterSchema depth t).at? path = some (.plain .integer format)) :
    ∃ u signed, ∃ w : Width, types.LeadsTo t path u ∧ u.target = .scalar (.integer signed w) ∧
      format = some w.format.name := by
  induction depth, t using parameterSchema.induct generalizing path with
  | case1 depth inner ih =>
      rw [parameterSchema] at h
      obtain ⟨u, signed, w, hlead, hu, hformat⟩ := ih h
      obtain ⟨v, hlead', hv⟩ := leadsTo_option hlead
      exact ⟨v, signed, w, hlead', hv.trans hu, hformat⟩
  | case2 depth container element hdepth ih =>
      rw [parameterSchema, if_pos hdepth] at h
      obtain _ | ⟨step, rest⟩ := path
      · cases h
      · cases step with
        | items =>
            obtain ⟨u, signed, w, hlead, hu, hformat⟩ := ih h
            exact ⟨u, signed, w, .items rfl hlead, hu, hformat⟩
        | values | property => cases h
  | case3 depth container element hdepth =>
      rw [parameterSchema, if_neg hdepth] at h
      obtain ⟨-, ⟨⟩, -⟩ := eq_of_at?_plain h
  | case4 depth t hoption hsequence =>
      rw [parameterSchema.eq_3 _ _ _ hoption hsequence] at h
      obtain ⟨rfl, htype, rfl⟩ := eq_of_at?_plain h
      obtain ⟨signed, bits, hshape, hformat⟩ :=
        exists_int_of_plainType (Prod.ext htype rfl : (types.shape t).plainType = (.integer, _))
      obtain ⟨w, rfl, rfl⟩ := exists_width_of_shape hshape
      exact ⟨_, signed, w, .here _, rfl, hformat.trans (by rw [w.name_format])⟩

/-- The place of a field that a query reaches leads to its type. -/
theorem leadsTo_placeOf
    {id : String} {r : Record} {around : List VisibleField} {ancestors : List String}
    {room' : Nat} (ht : types.shape t.target = .record id r)
    (h : types.Reaches room ancestors (types.fieldsOf id r) around room' f)
    (hrest : types.LeadsTo f.type path u) :
    types.LeadsTo t ((placeOf around f).map .property ++ path) u := by
  obtain ⟨fields', hentered, hf, -⟩ := h
  induction around generalizing t id r room ancestors with
  | nil =>
      cases hentered
      exact .property ht hf hrest
  | cons g around ih =>
      obtain _ | ⟨hg, hrecord, hpath, hentered⟩ := hentered
      exact .property ht hg (ih (shape_of_record? hrecord) hentered)

/-- A field whose values a parameter describes: one of its name and its schema, among those that the
query of a request type reaches. -/
def DescribesField (types : TypeTable) (t : Ty) (p : Parameter) (around : List VisibleField)
    (f : VisibleField) : Prop :=
  ∃ id r room, types.record? t = some (id, r) ∧ types.IsInput id r around room f ∧
    f.lookupName = p.name ∧ types.parameterSchema 0 f.target = p.schema

/-- A parameter describes a field, unless it is a text that stands in the path only. -/
theorem exists_describesField
    {pathVars : List String} {p : Parameter} (hp : p ∈ types.parameters t pathVars)
    {format : Option String} (h : p.schema.at? path = some (.plain .integer format)) :
    ∃ around f, types.DescribesField t p around f := by
  rcases exists_isInput_or_variable hp with
    ⟨id, r, around, room, f, hrecord, hinput, -, rfl⟩ | ⟨name, -, rfl⟩
  · exact ⟨around, f, id, r, room, hrecord, hinput, rfl, rfl⟩
  · obtain ⟨-, ⟨⟩, -⟩ := eq_of_at?_plain h

/-- Every integer in a request value fits the format that is documented for its position, by the
schema of the request type and by the parameters that describe its fields, whatever the method and
the inputs are.  The fields of each record need distinct names in JSON. -/
theorem integers_fit_documented_formats
    (hnames : types.HasDistinctNames t) {method : String} {input : CallInput} {value : Json}
    (h : types.requestValue t method input = .ok value) :
    (∀ path n format choices text nullable, value.HoldsAt path (.int n) →
      (types.schema t).at? path = some (.value .integer format choices text nullable) →
      ∃ p signed, ∃ w : Width, types.position? t path = some p ∧
        p.type.target = .scalar (.integer signed w) ∧ format = some w.format.name ∧
        FitsFormat signed w n) ∧
    ∀ pathVars, ∀ p ∈ types.parameters t pathVars, ∀ path format,
      p.schema.at? path = some (.plain .integer format) →
      (∃ around f, types.DescribesField t p around f) ∧
      ∀ around f, types.DescribesField t p around f → ∀ n,
        value.HoldsAt ((placeOf around f).map .property ++ path) (.int n) →
        ∃ u signed, ∃ w : Width, types.LeadsTo f.target path u ∧
          u.target = .scalar (.integer signed w) ∧ format = some w.format.name ∧
          FitsFormat signed w n := by
  have hranges := keepsRanges_requestValue hnames h
  have hfits : ∀ {path u signed n} {w : Width}, types.LeadsTo t path u →
      u.target = .scalar (.integer signed w) → value.HoldsAt path (.int n) →
      FitsFormat signed w n := by
    intro path u signed n w hlead hu hholds
    apply fitsFormat_of_inRange
    exact hranges _ _ _ _ _ hlead (by rw [hu, shape_integer]) hholds
  refine ⟨?_, ?_⟩
  · intro path n format choices text nullable hholds hat
    rw [schema_eq_schemaOf, at?_schemaOf] at hat
    obtain ⟨p, hp, hschema⟩ := Option.map_eq_some_iff.mp hat
    have hdescribes : types.Describes p (types.schemaOf p) := describes_schemaOf p
    rw [hschema] at hdescribes
    obtain ⟨signed, w, hw, hformat⟩ := exists_width_of_describes hdescribes
    exact ⟨p, signed, w, hp, hw, hformat, hfits (leadsTo_of_positionFrom? hp) hw hholds⟩
  · intro pathVars p hp path format hat
    refine ⟨exists_describesField hp hat, ?_⟩
    rintro around f ⟨id, r, room, hrecord, hinput, -, hschema⟩ n hholds
    rw [← hschema] at hat
    obtain ⟨u, signed, w, hlead, hu, hformat⟩ := leadsTo_of_parameterSchema hat
    obtain ⟨v, hlead', hv⟩ := leadsTo_of_target hlead
    have hplace := leadsTo_placeOf (shape_of_record? hrecord) hinput hlead'
    exact ⟨u, signed, w, hlead, hu, hformat, hfits hplace (hv.trans hu) hholds⟩

/-! ## Uploads -/

/-- An upload, with its size, the sizes of its parts and its priority. -/
def upload : Record where
  name := "Upload"
  fields := [plainField "size" (.scalar (.uint .w32)) false,
    plainField "parts" (.sequence .list (.scalar (.uint .w16))) false,
    plainField "priority" (.option (.scalar (.int .w64))) false]
  doc := none

/-- The types of an upload. -/
def uploadTypes : TypeTable := ⟨[("Upload", .record upload)]⟩

theorem upload_hasDistinctNames : uploadTypes.HasDistinctNames (.named "Upload") := by
  intro u hu id r ht
  have hreached :
      u ∈ [.named "Upload", .scalar (.uint .w32), .sequence .list (.scalar (.uint .w16)),
        .scalar (.uint .w16), .option (.scalar (.int .w64))] :=
    mem_of_reached hu (by decide) (by decide +kernel)
  have hshape : uploadTypes.shape (Ty.named "Upload").target = .record "Upload" upload := by
    simp [uploadTypes, shape, find?, Ty.target]
  simp only [List.mem_cons, List.not_mem_nil, or_false] at hreached
  rcases hreached with rfl | rfl | rfl | rfl | rfl
  · obtain ⟨rfl, rfl⟩ := Shape.record.inj (hshape.symm.trans ht)
    decide +kernel
  · cases ht
  · cases ht
  · cases ht
  · cases ht

/-- The largest size and the largest size of a part. -/
def uploadInput : CallInput :=
  ⟨⟨[("size", "4294967295"), ("parts", "65535")]⟩, [], []⟩

theorem requestValue_upload :
    uploadTypes.requestValue (.named "Upload") "GET" uploadInput =
      .ok (.object [("parts", .array [.int 65535]), ("priority", .null),
        ("size", .int 4294967295)]) := by
  rfl

theorem eq_of_integer_eq_uint
    {signed : Bool} {w w' : Width} (h : Scalar.uint w' = .integer signed w) :
    signed = false ∧ w = w' := by
  cases signed with
  | true => cases h
  | false => exact ⟨rfl, (Scalar.uint.inj h).symm⟩

/-- The size of a part, in the schema, and the size of the upload, as a parameter. -/
theorem integers_fit_documented_formats_upload :
    FitsFormat false .w16 65535 ∧ ∃ p ∈ uploadTypes.parameters (.named "Upload") [],
      p.schema = .plain .integer (some "int32") ∧ FitsFormat false .w32 4294967295 := by
  obtain ⟨hschema, hparameters⟩ :=
    integers_fit_documented_formats upload_hasDistinctNames requestValue_upload
  refine ⟨?_, ?_⟩
  · have hposition : uploadTypes.position? (.named "Upload") [.property "parts", .items] =
        some ⟨.scalar (.uint .w16), 2, {"Upload"}, none⟩ := by
      decide +kernel
    obtain ⟨p, signed, w, hp, hw, -, hfits⟩ := hschema [.property "parts", .items] 65535 _ _ _ _
      (.member rfl (.item (by simp) (.here _))) rfl
    obtain rfl := Option.some.inj (hposition.symm.trans hp)
    obtain ⟨rfl, rfl⟩ := eq_of_integer_eq_uint (Ty.scalar.inj hw)
    exact hfits
  · have hlisted : (⟨"size", .query, none, false, .plain .integer (some "int32")⟩ : Parameter) ∈
        uploadTypes.parameters (.named "Upload") [] := by
      decide +kernel
    refine ⟨_, hlisted, rfl, ?_⟩
    obtain ⟨-, hfields⟩ := hparameters [] _ hlisted [] _ rfl
    have hsize : uploadTypes.DescribesField (.named "Upload")
        ⟨"size", .query, none, false, .plain .integer (some "int32")⟩ []
        (visibleField ⟨false, none⟩ (plainField "size" (.scalar (.uint .w32)) false)) :=
      ⟨"Upload", upload, maxDepth, rfl, ⟨_, .here, by decide +kernel, rfl⟩, by decide +kernel, rfl⟩
    obtain ⟨u, signed, w, hlead, hu, -, hfits⟩ :=
      hfields [] _ hsize 4294967295 (.member rfl (.here _))
    cases hlead
    obtain ⟨rfl, rfl⟩ := eq_of_integer_eq_uint (Ty.scalar.inj hu)
    exact hfits

/-! ## Integers beyond their formats -/

/-- A ticket with two numbers of one name in JSON. -/
def ticket : Record where
  name := "Ticket"
  fields := [⟨"serial", "number", .scalar (.int .w64), "p:\"serial\"", none, false, false⟩,
    ⟨"seat", "number", .scalar (.int .w32), "p:\"seat\"", none, false, false⟩]
  doc := none

/-- A member of a team, each with a number of the same name. -/
def teamMember : Record where
  name := "Member"
  fields := [plainField "id" (.scalar (.int .w32)) false, plainField "team" (.named "Team") false]
  doc := none

/-- The types of a ticket and of a member. -/
def numberTypes : TypeTable :=
  ⟨[("Ticket", .record ticket), ("Member", .record teamMember), ("Team", .record ⟨"Team",
    [plainField "id" (.scalar (.int .w64)) false], none⟩)]⟩

/-- The body with the number of a team. -/
def memberInput : CallInput :=
  ⟨.empty, Text.bytes "\x7b\"team\":\x7b\"id\":5000000000\x7d\x7d", []⟩

theorem holdsAt_memberInput :
    ∃ value, numberTypes.requestValue (.named "Member") "POST" memberInput = .ok value ∧
      value.HoldsAt [.property "team", .property "id"] (.int 5000000000) := by
  have heval : (numberTypes.requestValue (.named "Member") "POST" memberInput).toOption.map
      (fun value => (value.at? ["team", "id"]).bind Json.integer?) = some (some 5000000000) := by
    decide +kernel
  obtain ⟨value, hvalue, hat⟩ := Results.exists_of_toOption_map heval
  obtain ⟨inner, hinner, hint⟩ := Option.bind_eq_some_iff.mp hat
  obtain rfl := Json.eq_int_of_integer? hint
  exact ⟨value, hvalue, Json.holdsAt_of_at? hinner⟩

/-- The format `int32` is documented for an unsigned integer beyond its signed range.  It is also
documented where two fields have one name in JSON, and for a parameter with the name of another
field, although an integer there is signed and of 64 bits. -/
theorem integers_beyond_documented_formats :
    (∃ value, uploadTypes.requestValue (.named "Upload") "GET" uploadInput = .ok value ∧
      value.HoldsAt [.property "size"] (.int 4294967295) ∧
      (∀ reason, (uploadTypes.schema (.named "Upload")).contains reason = false) ∧
      (uploadTypes.schema (.named "Upload")).at? [.property "size"] =
        some (.value .integer (some "int32") [] none false) ∧ ¬InRange true 32 4294967295) ∧
    (∃ value, numberTypes.requestValue (.named "Ticket") "GET"
        ⟨⟨[("serial", "5000000000")]⟩, [], []⟩ = .ok value ∧
      value.HoldsAt [.property "number"] (.int 5000000000) ∧
      (∀ reason, (numberTypes.schema (.named "Ticket")).contains reason = false) ∧
      (numberTypes.schema (.named "Ticket")).at? [.property "number"] =
        some (.value .integer (some "int32") [] none false) ∧ ¬InRange true 32 5000000000) ∧
    ∃ value, numberTypes.requestValue (.named "Member") "POST" memberInput = .ok value ∧
      value.HoldsAt [.property "team", .property "id"] (.int 5000000000) ∧
      (∀ reason, (numberTypes.schema (.named "Member")).contains reason = false) ∧
      numberTypes.parameters (.named "Member") [] =
        [⟨"id", .query, none, false, .plain .integer (some "int32")⟩] := by
  refine ⟨⟨_, requestValue_upload, .member rfl (.here _), ?_, rfl, by simp [InRange]⟩,
    ⟨_, rfl, .member rfl (.here _), ?_, rfl, by simp [InRange]⟩, ?_⟩
  · intro reason
    cases reason <;> decide +kernel
  · intro reason
    cases reason <;> decide +kernel
  · obtain ⟨value, hvalue, hholds⟩ := holdsAt_memberInput
    refine ⟨value, hvalue, hholds, ?_, by decide +kernel⟩
    intro reason
    cases reason <;> decide +kernel

end TypeTable
end TypedRoutes
