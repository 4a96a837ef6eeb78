import TypedRoutes.Proofs.Acceptance
import TypedRoutes.Proofs.BodyOverQuery
import TypedRoutes.Proofs.Utf8

/-!
# How far validation reaches

Validation and conversion both stop at `maxDepth`, but count levels differently: for validation the
request itself is level 0, for conversion the objects in its fields are.  So an object of a body may
stand one level below the last one that is validated.  An accepted value obeys all rules down to
level `maxDepth`, and whatever stands lower is blank: nothing was put into it, and nothing of it was
checked.
-/

namespace TypedRoutes

/-! ## Rules as statements -/

/-- What a constraint says of a value. -/
def Constraint.Satisfied : Constraint → Json → Prop
  | .required, value => value ≠ .null ∧ value ≠ .array [] ∧ value ≠ .object [] ∧
      ∀ s, value = .string s → ∃ c ∈ s.toList, Text.isBlank c = false
  | .atLeast bound, value => ∀ x, value.measure? = some x → ¬x < bound
  | .atMost bound, value => ∀ x, value.measure? = some x → ¬bound < x
  | .lengthWithin low high, value => ∀ n, value.length? = some n →
      (∀ l ∈ low, l ≤ n) ∧ ∀ h ∈ high, n ≤ h
  | .oneOf choices, value => value = .null ∨ value.display ∈ choices

theorem Json.isEmptyValue_eq_false_iff (value : Json) :
    value.isEmptyValue = false ↔ Constraint.required.Satisfied value := by
  cases value <;> simp [isEmptyValue, Constraint.Satisfied, Text.isBlankText]

theorem Constraint.holds_iff
    (c : Constraint) (value : Json) : c.holds value = true ↔ c.Satisfied value := by
  cases c with
  | required => rw [← Json.isEmptyValue_eq_false_iff, holds, Bool.not_eq_true']
  | atLeast bound => cases h : value.measure? <;> simp [holds, Satisfied, h]
  | atMost bound => cases h : value.measure? <;> simp [holds, Satisfied, h]
  | lengthWithin low high =>
      cases h : value.length? with
      | none => simp [holds, Satisfied, h]
      | some n => simp [holds, Satisfied, h, Option.all_eq_true]
  | oneOf choices => cases value <;> simp [holds, Satisfied]

/-- What a rule says of a value; rules that are unknown or cannot be read say nothing. -/
def Rule.Satisfied (rule : Rule) (value : Json) : Prop :=
  ∀ c ∈ rule.constraint?, c.Satisfied value

theorem Rule.holds_iff
    (rule : Rule) (value : Json) : rule.holds value = true ↔ rule.Satisfied value := by
  simp only [holds, Option.all_eq_true, Constraint.holds_iff, Satisfied, Option.mem_def]

/-- The value of a field in an object satisfies the rules of the field, or the field is optional
and there is no value. -/
def VisibleField.Obeyed (f : VisibleField) (members : Json.Object) : Prop :=
  (members.find? f.wireName).getD .null = .null ∧ f.isOptional = true ∨
    ∀ rule ∈ f.attributes.rules, rule.Satisfied ((members.find? f.wireName).getD .null)

namespace TypeTable

variable {types : TypeTable} {t : Ty} {id : String} {r : Record} {members : Json.Object}
  {room level : Nat} {place : String} {value : Json}

/-! ## What is validated -/

theorem record?_target (t : Ty) : types.record? t.target = types.record? t := by
  simp [record?]

/-- Only objects have fields to check. -/
theorem validateAt_of_no_object
    (h : ∀ members, value ≠ .object members) : types.validateAt room t value place = .ok () := by
  cases room with
  | zero => rfl
  | succ room =>
      cases value with
      | object members => exact absurd rfl (h members)
      | _ => rfl

/-- A value is accepted exactly if every object in it obeys the rules, in the records that are
reached within the given number of levels. -/
theorem validateAt_eq_ok_iff
    (hrecord : types.record? t = some (id, r)) :
    types.validateAt room t value place = .ok () ↔
      ∀ around id' r' members, types.Leads id r around id' r' → around.length < room →
        value.at? (around.map VisibleField.wireName) = some (.object members) →
        ∀ f ∈ types.fieldsOf id' r', f.Obeyed members := by
  induction room generalizing t id r value place with
  | zero => simp [validateAt]
  | succ room ih =>
      -- a value that is no object has nothing to check, and nothing is reached in it either
      by_cases hobject : ∃ members, value = .object members
      · obtain ⟨members, rfl⟩ := hobject
        have hfields : types.fields t = types.fieldsOf id r := by rw [fields, hrecord]
        rw [validateAt_object_eq_ok_iff, hfields]
        constructor
        · intro h around id' r' inner hleads hlength hat
          cases hleads with
          | here =>
              obtain rfl : members = inner := by simpa [Json.at?] using hat
              intro f hf
              rcases h f hf with hskip | ⟨hrules, -⟩
              · exact .inl hskip
              · exact .inr fun rule hrule => (rule.holds_iff _).mp (hrules rule hrule)
          | nested hg hinner hleads =>
              obtain ⟨nested, hfind, hat⟩ := Json.exists_of_at?_cons hat
              rcases h _ hg with ⟨hnull, -⟩ | ⟨-, hvalid⟩
              · rw [hfind] at hnull
                cases hnull
              · rw [hinner, hfind] at hvalid
                have htarget := (record?_target _).trans hinner
                exact (ih htarget).mp (hvalid rfl) _ _ _ _ hleads (Nat.lt_of_succ_lt_succ hlength)
                  hat
        · intro h f hf
          by_cases hskip :
              (Members.find? f.wireName members).getD .null = .null ∧ f.isOptional = true
          · exact .inl hskip
          · refine .inr ⟨?_, ?_⟩
            · have hobeyed := h [] id r members .here (Nat.succ_pos room) rfl f hf
              intro rule hrule
              exact (rule.holds_iff _).mpr (hobeyed.resolve_left hskip rule hrule)
            · intro hsome
              obtain ⟨⟨inner, s⟩, hinner⟩ := Option.isSome_iff_exists.mp hsome
              refine (ih ((record?_target _).trans hinner)).mpr ?_
              intro around id' r' nested hleads hlength hat
              refine h (f :: around) id' r' nested (.nested hf hinner hleads)
                (Nat.succ_lt_succ hlength) ?_
              cases hfind : Members.find? f.wireName members with
              | some current =>
                  rw [hfind] at hat
                  exact (Json.at?_of_find? hfind _).trans hat
              | none =>
                  rw [hfind] at hat
                  obtain ⟨_, hnull⟩ := Json.exists_of_at? hat
                  cases hnull
      · have hnone : ∀ members, value ≠ .object members := fun members h => hobject ⟨members, h⟩
        refine iff_of_true (validateAt_of_no_object hnone) ?_
        intro around id' r' inner _ _ hat
        exact absurd (Json.exists_of_at? hat) hobject

/-! ## Blank objects -/

/-- From a level on, the objects of the records in an object are blank. -/
def BlankFrom (types : TypeTable) (level : Nat) (id : String) (r : Record)
    (members : Json.Object) : Prop :=
  ∀ around id' r' inner, types.Leads id r around id' r' → level ≤ around.length →
    (Json.object members).at? (around.map VisibleField.wireName) = some (.object inner) →
    types.IsBlank 0 id' r' inner

/-- The same of a value of a type, which need not be a record or an object. -/
def HeldBlankFrom (types : TypeTable) (level : Nat) (t : Ty) (value : Json) : Prop :=
  ∀ id r members, types.record? t = some (id, r) → value = .object members →
    types.BlankFrom level id r members

theorem BlankFrom.mono
    {level' : Nat} (h : types.BlankFrom level id r members) (hle : level ≤ level') :
    types.BlankFrom level' id r members :=
  fun around id' r' inner hleads hlength =>
    h around id' r' inner hleads (hle.trans hlength)

theorem blankFrom_succ_iff :
    types.BlankFrom (level + 1) id r members ↔
      ∀ g ∈ types.fieldsOf id r, ∀ value, members.find? g.wireName = some value →
        types.HeldBlankFrom level g.type value := by
  constructor
  · rintro h g hg _ hfind inner s nested hinner rfl around id' r' deep hleads hlength hat
    exact h (g :: around) id' r' deep (.nested hg hinner hleads) (Nat.succ_le_succ hlength)
      ((Json.at?_of_find? hfind _).trans hat)
  · intro h around id' r' deep hleads hlength hat
    cases hleads with
    | here => cases hlength
    | nested hg hinner hleads =>
        obtain ⟨nested, hfind, hat⟩ := Json.exists_of_at?_cons hat
        exact h _ hg _ hfind _ _ _ hinner rfl _ _ _ _ hleads (Nat.le_of_succ_le_succ hlength) hat

theorem blankFrom_nil (level : Nat) (id : String) (r : Record) :
    types.BlankFrom level id r [] := by
  intro around id' r' inner hleads _ hat
  cases hleads with
  | here =>
      obtain rfl : [] = inner := by simpa [Json.at?] using hat
      exact .inr rfl
  | nested => cases hat

/-- The object that is the zero value of a record is empty or the zero object of a level less. -/
theorem eq_nil_or_zeroObject_of_zeroAt
    (hrecord : types.record? t = some (id, r)) (h : types.zeroAt room t = .object members) :
    members = [] ∨ ∃ n, room = n + 1 ∧ members = types.zeroObject n id r := by
  cases hoption : t.isOption with
  | true =>
      rw [zeroAt_of_isOption hoption] at h
      cases h
  | false =>
      have hshape := shape_of_record? hrecord
      rw [target_eq_of_isOption hoption] at hshape
      cases room with
      | zero =>
          simp only [zeroAt, hshape] at h
          exact .inl (Json.object.inj h).symm
      | succ n =>
          simp only [zeroAt, hshape] at h
          exact .inr ⟨n, rfl, (Json.object.inj h).symm⟩

/-- A zero object is blank from the level on at which its zero values end. -/
theorem blankFrom_zeroObject
    (hapart : types.LeadsApart id r) (level : Nat) :
    types.BlankFrom level id r (types.zeroObject level id r) := by
  induction level generalizing id r with
  | zero =>
      intro around id' r' deep hleads _ hat
      cases hleads with
      | here =>
          obtain rfl : types.zeroObject 0 id r = deep := by simpa [Json.at?] using hat
          exact .inl rfl
      | nested hg hinner hleads =>
          obtain ⟨nested, hfind, hat⟩ := Json.exists_of_at?_cons hat
          have hzero := eq_zeroAt_of_find?_zeroObject hapart.here hg hfind
          rcases eq_nil_or_zeroObject_of_zeroAt hinner hzero.symm with rfl | ⟨n, hn, -⟩
          · exact blankFrom_nil 0 _ _ _ _ _ _ hleads (Nat.zero_le _) hat
          · cases hn
  | succ level ih =>
      refine blankFrom_succ_iff.mpr ?_
      rintro g hg _ hfind inner s nested hinner rfl
      have hzero := eq_zeroAt_of_find?_zeroObject hapart.here hg hfind
      rcases eq_nil_or_zeroObject_of_zeroAt hinner hzero.symm with rfl | ⟨n, hn, rfl⟩
      · exact blankFrom_nil level inner s
      · obtain rfl := Nat.succ.inj hn
        exact ih (hapart.nested hg hinner)

/-- The names in JSON are apart in every record inside a type. -/
def HoldsApart (types : TypeTable) (t : Ty) : Prop :=
  ∀ id r, types.record? t = some (id, r) → types.LeadsApart id r

theorem LeadsApart.holdsApart
    (h : types.LeadsApart id r) {f : VisibleField} (hf : f ∈ types.fieldsOf id r) :
    types.HoldsApart f.type :=
  fun _ _ hrecord => h.nested hf hrecord

theorem HoldsApart.target (h : types.HoldsApart t) : types.HoldsApart t.target :=
  fun id r hrecord => h id r ((record?_target t).symm.trans hrecord)

theorem heldBlankFrom_zeroAt
    (hapart : types.HoldsApart t) (hroom : room ≤ level + 1) :
    types.HeldBlankFrom level t (types.zeroAt room t) := by
  intro id r members hrecord hmembers
  rcases eq_nil_or_zeroObject_of_zeroAt hrecord hmembers with rfl | ⟨n, rfl, rfl⟩
  · exact blankFrom_nil level id r
  · exact (blankFrom_zeroObject (hapart id r hrecord) n).mono (Nat.le_of_succ_le_succ hroom)

/-! ## Overlays of blank objects -/

/-- Overlaying an object keeps it blank below a level, if what its fields are given is. -/
theorem BlankFrom.overlaid
    {start result : Json.Object} (h : types.BlankFrom (level + 1) id r start)
    (hapart : types.LeadsApart id r) {given : VisibleField → Option Json}
    (hoverlaid : types.Overlaid room (types.fieldsOf id r) given start result)
    (hroom : room ≤ level + 1)
    (hgiven : ∀ f ∈ types.fieldsOf id r, ∀ value, given f = some value →
      types.HeldBlankFrom level f.type value) :
    types.BlankFrom (level + 1) id r result := by
  refine blankFrom_succ_iff.mpr ?_
  intro f hf value hvalue
  rw [hoverlaid.field f hf] at hvalue
  rcases Option.or_eq_some_iff.mp hvalue with hvalue | ⟨-, hfilled⟩
  · rcases Option.or_eq_some_iff.mp hvalue with hvalue | ⟨-, hkept⟩
    · exact hgiven f hf value hvalue
    · exact blankFrom_succ_iff.mp h f hf value hkept
  · split at hfilled
    · obtain rfl := Option.some.inj hfilled
      exact heldBlankFrom_zeroAt (hapart.holdsApart hf) hroom
    · cases hfilled

theorem BlankFrom.overlayBody
    {start : Json.Object} (h : types.BlankFrom (level + 1) id r start)
    (hapart : types.LeadsApart id r) {convert : Ty → Json → String → Except FieldError Json}
    (hconvert : ∀ f ∈ types.fieldsOf id r, ∀ raw path value,
      convert f.type raw path = .ok value → types.HeldBlankFrom level f.type value)
    (hroom : room ≤ level + 1) {body : Json.Object} {path : String} {a : Assembly}
    (ha : overlayBody convert (types.fieldsOf id r) body path start = .ok a) :
    types.BlankFrom (level + 1) id r
      (types.completeGroups room (types.fieldsOf id r) a.groups a.target) := by
  obtain ⟨given, hgiven, hoverlaid⟩ := exists_overlaid_of_overlayBody hapart.here.nodup ha room
  refine h.overlaid hapart hoverlaid hroom ?_
  intro f hf value hvalue
  have hfield := hgiven f hf
  rw [hvalue] at hfield
  obtain ⟨raw, -, hconverted⟩ := convert_of_bodyGiven? hfield
  exact hconvert f hf raw _ value hconverted

/-- A record that is converted is a zero value or a zero object with a body on top. -/
theorem zeroAt_or_overlayBody_of_convertAt
    (hrecord : types.record? t = some (id, r)) {raw : Json} {path : String}
    (h : types.convertAt (room + 1) t raw path = .ok (.object members)) :
    types.zeroAt room t.target = .object members ∨
      ∃ body a, overlayBody (types.convertAt room) (types.fieldsOf id r) body path
          (types.zeroObject (room - 1) id r) = .ok a ∧
        types.completeGroups (room - 1) (types.fieldsOf id r) a.groups a.target = members := by
  have hshape := shape_of_record? hrecord
  generalize hvalue : Json.object members = value at h
  cases convertStep_of_convertAt h with
  | zeroRecord => exact .inl rfl
  | record ht _ ha =>
      obtain ⟨rfl, rfl⟩ := Shape.record.inj (ht.symm.trans hshape)
      exact .inr ⟨_, _, ha, (Json.object.inj hvalue).symm⟩
  | leaf _ hleaf =>
      rw [hshape] at hleaf
      cases hleaf
  | absent => cases hvalue
  | _ => simp_all

/-- At the lowest level no body has anything for a record. -/
theorem eq_start_of_overlayBody
    {fields : List VisibleField} {body start : Json.Object} {path : String} {a : Assembly}
    (h : overlayBody (types.convertAt 0) fields body path start = .ok a) : a = ⟨start, []⟩ := by
  refine Results.foldlM_invariant (P := fun a => a = ⟨start, []⟩) ?_ rfl h
  intro b f b' _ hb hstep
  split at hstep
  · exact (Except.ok.inj hstep).symm.trans hb
  · cases hstep

/-- A record that is converted is blank from the level on at which conversions are refused. -/
theorem heldBlankFrom_convertAt
    (hapart : types.HoldsApart t) {raw : Json} {path : String}
    (h : types.convertAt (level + 1) t raw path = .ok value) :
    types.HeldBlankFrom level t value := by
  induction level using Nat.strongRecOn generalizing t raw path value
  rename_i level ih
  rintro id r members hrecord rfl
  rcases zeroAt_or_overlayBody_of_convertAt hrecord h with hzero | ⟨body, a, ha, rfl⟩
  · exact heldBlankFrom_zeroAt hapart.target (Nat.le_succ level) id r members
      ((record?_target t).trans hrecord) hzero
  · have happart := hapart id r hrecord
    cases level with
    | zero =>
        -- at the lowest level no member of the body is converted, and the zero object stays
        obtain rfl := eq_start_of_overlayBody ha
        rw [completeGroups_nil]
        exact blankFrom_zeroObject happart 0
    | succ level =>
        have hstart := (blankFrom_zeroObject happart level).mono (Nat.le_succ level)
        refine hstart.overlayBody happart ?_ (Nat.le_succ level) ha
        intro f hf raw path value hvalue
        exact ih level (Nat.lt_succ_self level) (happart.holdsApart hf) hvalue

/-- A query enters no record below `room` levels, so what is blank below them stays so. -/
theorem BlankFrom.overlayQuery
    {path : List String} {query : Query} {start result : Json.Object} {touched : Bool}
    (hstart : types.BlankFrom (room + 1) id r start) (hapart : types.LeadsApart id r)
    (h : types.overlayQuery room path query (types.fieldsOf id r) start = .ok (result, touched)) :
    types.BlankFrom (room + 1) id r result := by
  induction room using Nat.strongRecOn generalizing path id r start result touched
  rename_i room ih
  obtain ⟨given, hgiven, -, hoverlaid⟩ := exists_overlaid_of_overlayQuery hapart.here.nodup h
  refine hstart.overlaid hapart hoverlaid (Nat.le_succ _) ?_
  rintro f hf value hvalue inner s members hinner rfl
  have hfield : types.fieldValue? room path query start f = .ok (some (.object members)) := by
    rw [hgiven f hf, hvalue]
  rcases fieldValue?_eq_some hfield with ⟨hleaf, -⟩ | ⟨room', id', r', nested, rfl, hrecord, -,
    hnested, hobject⟩
  · rw [hleaf] at hinner
    cases hinner
  · obtain ⟨rfl, rfl⟩ := record?_unique hrecord hinner
    obtain rfl := Json.object.inj hobject
    have happart := hapart.nested hf hrecord
    have hbefore :
        types.BlankFrom (room' + 1) id' r' (types.nestedObject room' start f id' r') := by
      unfold nestedObject
      split
      · rename_i existing hfound
        exact blankFrom_succ_iff.mp hstart f hf _ hfound id' r' existing hrecord rfl
      · exact (blankFrom_zeroObject happart room').mono (Nat.le_succ _)
    exact ih room' (Nat.lt_succ_self _) hbefore happart hnested

/-- In the value of a request all objects below level `maxDepth` are blank. -/
theorem blankFrom_of_requestValue
    (hrecord : types.record? t = some (id, r)) (hapart : types.LeadsApart id r) {method : String}
    {input : CallInput} (h : types.requestValue t method input = .ok value) :
    ∃ members, value = .object members ∧ types.BlankFrom (maxDepth + 1) id r members := by
  have hstart := (blankFrom_zeroObject hapart maxDepth).mono (Nat.le_succ _)
  refine requestValue_invariant hrecord hstart ?_ ?_ h
  · intro query start result touched hblank hresult
    exact hblank.overlayQuery hapart hresult
  · intro body start result hblank hresult
    obtain ⟨a, ha, hresult⟩ := Results.bind_eq_ok_iff.mp hresult
    obtain rfl := Except.ok.inj hresult
    refine hblank.overlayBody hapart ?_ (Nat.le_succ _) ha
    intro f hf raw path value hvalue
    exact heldBlankFrom_convertAt (hapart.holdsApart hf) hvalue

/-! ## Accepted requests -/

/-- The value of a request is accepted exactly if the objects in it obey all rules down to level
`maxDepth`, counted in record fields from the request itself.  If the names in JSON are apart in the
records inside the request type, then every object below that level is a zero object or empty, so
nothing that escapes validation was given by a query, a body or a path. -/
theorem accepted_values_obey_rules
    (hrecord : types.record? t = some (id, r)) {method : String} {input : CallInput}
    (h : types.requestValue t method input = .ok value) :
    (types.validate t value = .ok () ↔
      ∀ around id' r' members, types.Leads id r around id' r' → around.length ≤ maxDepth →
        value.at? (around.map VisibleField.wireName) = some (.object members) →
        ∀ f ∈ types.fieldsOf id' r', f.Obeyed members) ∧
    (types.LeadsApart id r →
      ∀ around id' r' members, types.Leads id r around id' r' → maxDepth < around.length →
        value.at? (around.map VisibleField.wireName) = some (.object members) →
        types.IsBlank 0 id' r' members) := by
  constructor
  · rw [validate, validateAt_eq_ok_iff hrecord]
    simp only [Nat.lt_succ_iff]
  · intro hapart around id' r' inner hleads hlength hat
    obtain ⟨members, rfl, hblank⟩ := blankFrom_of_requestValue hrecord hapart h
    exact hblank around id' r' inner hleads hlength hat

/-! ## Nodes in a row -/

/-- The members of an object that is written with some characters. -/
def writtenObject? (cs : List Char) : Option Json.Object :=
  match Json.readValue Json.maxNesting (cs.length + 1) cs with
  | some (.object members, []) => some members
  | _ => none

/-- A body is read character by character; its bytes need not be computed. -/
theorem readBody_of_writtenObject?
    {cs : List Char} (h : writtenObject? ('\x7b' :: cs) = some members) :
    readBody (Text.bytes (String.ofList ('\x7b' :: cs))) = .ok (some members) := by
  have hread : Json.readValue Json.maxNesting (('\x7b' :: cs).length + 1) ('\x7b' :: cs) =
      some (.object members, []) := by
    rw [writtenObject?] at h
    split at h
    · rename_i hread
      rw [hread, Option.some.inj h]
    · cases h
  have hparse : Json.parseBytes? (Text.bytes (String.ofList ('\x7b' :: cs))) =
      some (.object members) := by
    rw [Json.parseBytes?, Text.ofBytes?_bytes, Option.bind_some, Json.parse?, String.toList_ofList,
      hread]
    rfl
  have hbrace : (String.utf8EncodeChar '\x7b').all isBlankByte = false := by decide
  have hblank : (Text.bytes (String.ofList ('\x7b' :: cs))).all isBlankByte = false := by
    rw [Text.bytes_eq, String.toList_ofList, List.flatMap_cons, List.all_append, hbrace,
      Bool.false_and]
  rw [readBody, hblank, hparse]
  rfl

/-- A POST without a query and path parameters puts its body on top of the zero object. -/
theorem requestValue_post_of_readBody
    (hrecord : types.record? t = some (id, r)) {bytes : List UInt8} {body target : Json.Object}
    (hbody : readBody bytes = .ok (some body))
    (htarget : types.overlayTop (types.fieldsOf id r) body (types.zeroObject maxDepth id r) =
      .ok target) :
    types.requestValue t "POST" ⟨.empty, bytes, []⟩ = .ok (.object target) := by
  have hafter : types.afterBody .post bytes (types.fieldsOf id r) (types.zeroObject maxDepth id r) =
      .ok target := by
    rw [afterBody, hbody]
    exact Results.mapError_eq_ok_iff.mpr htarget
  rw [requestValue_post hrecord, hafter]
  simp only [afterPath_nil]
  rfl

/-- A node with a label, and perhaps the next node. -/
def node : Record where
  name := "Node"
  fields := [⟨"label", "label", .scalar .string, "v:\"required\"", none, false, false⟩,
    plainField "next" (.option (.named "Node")) false]
  doc := none

/-- The type of nodes. -/
def nodeTypes : TypeTable := ⟨[("Node", .record node)]⟩

/-- The label of a node. -/
def nodeLabel : VisibleField :=
  visibleField ⟨false, none⟩
    ⟨"label", "label", .scalar .string, "v:\"required\"", none, false, false⟩

/-- The field for the next node. -/
def nodeNext : VisibleField :=
  visibleField ⟨false, none⟩ (plainField "next" (.option (.named "Node")) false)

theorem fieldsOf_node : nodeTypes.fieldsOf "Node" node = [nodeLabel, nodeNext] := by
  decide +kernel

theorem node_leadsApart : nodeTypes.LeadsApart "Node" node :=
  .of_closed (List.mem_singleton_self _) (by decide) (by decide)

/-- From every node the next ones lead to nodes. -/
theorem leads_nodes (n : Nat) :
    nodeTypes.Leads "Node" node (List.replicate n nodeNext) "Node" node := by
  induction n with
  | zero => exact .here
  | succ n ih =>
      have hnext : nodeNext ∈ nodeTypes.fieldsOf "Node" node := by
        rw [fieldsOf_node]
        exact List.mem_cons_of_mem _ (List.mem_singleton_self _)
      exact .nested hnext rfl ih

/-- What follows the opening brace of a labelled node in a row of them; the last one has no
members. -/
def nodeChars : Nat → List Char
  | 0 => ['\x7d']
  | n + 1 => "\"label\":\"a\",\"next\":\x7b".toList ++ nodeChars n ++ ['\x7d']

/-- A body with a row of nodes that is one longer than validation follows. -/
def nodeInput : CallInput :=
  ⟨.empty, Text.bytes (String.ofList ('\x7b' :: nodeChars (maxDepth + 1))), []⟩

/-- A text in a value stands in an object. -/
theorem exists_object_of_text
    {keys : List String} {key text : String}
    (h : (value.at? (keys ++ [key])).bind Json.text? = some text) :
    ∃ members : Json.Object, value.at? keys = some (.object members) ∧
      members.find? key = some (.string text) := by
  have hat : value.at? (keys ++ [key]) = (value.at? keys).bind fun inner => inner.at? [key] := by
    clear h
    induction keys generalizing value with
    | nil => rfl
    | cons first keys ih => simp [Json.at?, ih, Option.bind_assoc]
  obtain ⟨held, hheld, htext⟩ := Option.bind_eq_some_iff.mp h
  rw [hat] at hheld
  obtain ⟨inner, hinner, hkey⟩ := Option.bind_eq_some_iff.mp hheld
  obtain ⟨member, hmember, hsame⟩ := Option.bind_eq_some_iff.mp hkey
  obtain rfl : member = held := Option.some.inj hsame
  obtain ⟨members, rfl⟩ := Json.exists_of_member? hmember
  have hstring : member = .string text := by
    cases member with
    | string s => rw [Option.some.inj htext]
    | _ => cases htext
  exact ⟨members, hinner, hstring ▸ hmember⟩

/-- The row is accepted, although its last node gets an empty label. -/
theorem requestValue_nodeInput :
    ∃ value, ∃ second last : Json.Object,
      nodeTypes.requestValue (.named "Node") "POST" nodeInput = .ok value ∧
      nodeTypes.validate (.named "Node") value = .ok () ∧
      value.at? ["next"] = some (.object second) ∧
      value.at? (List.replicate (maxDepth + 1) "next") = some (.object last) ∧
      last.find? "label" = some (.string "") := by
  have hcomputed : ((writtenObject? ('\x7b' :: nodeChars (maxDepth + 1))).bind fun body =>
      (nodeTypes.overlayTop (nodeTypes.fieldsOf "Node" node) body
        (nodeTypes.zeroObject maxDepth "Node" node)).toOption.map fun target =>
          ((nodeTypes.validate (.named "Node") (.object target)).toOption,
            ((Json.object target).at? (["next"] ++ ["label"])).bind Json.text?,
            ((Json.object target).at? (List.replicate (maxDepth + 1) "next" ++ ["label"])).bind
              Json.text?)) = some (some (), some "a", some "") := by
    decide +kernel
  obtain ⟨body, hbody, hcomputed⟩ := Option.bind_eq_some_iff.mp hcomputed
  obtain ⟨target, htarget, hheld⟩ := Results.exists_of_toOption_map hcomputed
  obtain ⟨hvalid, hheld⟩ := Prod.mk.inj hheld
  obtain ⟨hsecond, hlast⟩ := Prod.mk.inj hheld
  obtain ⟨second, hsecond, -⟩ := exists_object_of_text hsecond
  obtain ⟨last, hlast, hlabel⟩ := exists_object_of_text hlast
  have hvalue : nodeTypes.requestValue (.named "Node") "POST" nodeInput = .ok (.object target) :=
    requestValue_post_of_readBody rfl (readBody_of_writtenObject? hbody) htarget
  refine ⟨.object target, second, last, hvalue, ?_, hsecond, hlast, hlabel⟩
  cases hresult : nodeTypes.validate (.named "Node") (.object target) with
  | ok _ => rfl
  | error fault =>
      rw [hresult] at hvalid
      cases hvalid

/-- In the row the label of the second node obeys its rule, and the last node is blank. -/
theorem accepted_values_obey_rules_nodes :
    ∃ value, ∃ second last : Json.Object,
      nodeTypes.requestValue (.named "Node") "POST" nodeInput = .ok value ∧
      value.at? ["next"] = some (.object second) ∧ nodeLabel.Obeyed second ∧
      value.at? (List.replicate (maxDepth + 1) "next") = some (.object last) ∧
      nodeTypes.IsBlank 0 "Node" node last := by
  obtain ⟨value, second, last, hvalue, hvalid, hsecond, hlast, -⟩ := requestValue_nodeInput
  obtain ⟨hobeyed, hblank⟩ := accepted_values_obey_rules (t := .named "Node") rfl hvalue
  have hlabel : nodeLabel ∈ nodeTypes.fieldsOf "Node" node := by simp [fieldsOf_node]
  have hnames : ∀ n, (List.replicate n nodeNext).map VisibleField.wireName =
      List.replicate n "next" := fun n => List.map_replicate
  refine ⟨value, second, last, hvalue, hsecond, ?_, hlast, ?_⟩
  · exact hobeyed.mp hvalid _ _ _ second (leads_nodes 1) (by decide) hsecond nodeLabel hlabel
  · refine hblank node_leadsApart _ _ _ last (leads_nodes (maxDepth + 1)) ?_ ?_
    · rw [List.length_replicate]
      exact Nat.lt_succ_self _
    · rw [hnames, hlast]

/-- One level below the last one that is validated a required label may be empty. -/
theorem accepted_node_without_label :
    ∃ value, ∃ last : Json.Object,
      nodeTypes.requestValue (.named "Node") "POST" nodeInput = .ok value ∧
      nodeTypes.validate (.named "Node") value = .ok () ∧
      nodeTypes.Leads "Node" node (List.replicate (maxDepth + 1) nodeNext) "Node" node ∧
      value.at? ((List.replicate (maxDepth + 1) nodeNext).map VisibleField.wireName) =
        some (.object last) ∧
      nodeLabel ∈ nodeTypes.fieldsOf "Node" node ∧ ¬nodeLabel.Obeyed last := by
  obtain ⟨value, second, last, hvalue, hvalid, -, hlast, hempty⟩ := requestValue_nodeInput
  refine ⟨value, last, hvalue, hvalid, leads_nodes _, ?_, by simp [fieldsOf_node], ?_⟩
  · rw [List.map_replicate]
    exact hlast
  · have hlabel : last.find? nodeLabel.wireName = some (.string "") := hempty
    rw [VisibleField.Obeyed, hlabel, Option.getD_some]
    rintro (⟨hnull, -⟩ | hrules)
    · cases hnull
    · have hbroken : (nodeLabel.attributes.rules.all (·.holds (.string ""))) = false := by
        decide +kernel
      have hholds : (nodeLabel.attributes.rules.all (·.holds (.string ""))) = true :=
        List.all_eq_true.mpr fun rule hrule => (rule.holds_iff _).mpr (hrules rule hrule)
      rw [hholds] at hbroken
      cases hbroken

end TypeTable
end TypedRoutes
