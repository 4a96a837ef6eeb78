import Mathlib.Data.List.Lex
import TypedRoutes.Proofs.RuleMessages
import TypedRoutes.Proofs.ValidationReach

/-!
# What a validation error says

Validation demands that the values of the fields of a record satisfy their rules, and goes through
these demands in the order of declaration: depth first, the rules of a field before those of its own
record.  An error is about the first demand that is not met: it names the fields that lead to the
value, the rule, and the message of that rule.  Messages decide nothing: without them the same
demand is reported.
-/

namespace TypedRoutes

/-! ## Demands -/

/-- A rule that is due for a value, with the external names of the fields that lead to the value,
the outermost first. -/
structure Demand where
  names : List String
  rule : Rule
  value : Json

namespace Demand

/-- The value satisfies the rule. -/
def Met (d : Demand) : Prop :=
  d.rule.Satisfied d.value

/-- The names with dots between them; empty names at the start take no dot. -/
def path (d : Demand) : String :=
  ".".intercalate (d.names.dropWhile String.isEmpty)

/-- The rejection of a value under a path. -/
def errorAt (d : Demand) (path : String) : ValidationError :=
  ⟨some path, some d.rule.name, d.rule.message.getD (d.rule.defaultMessage path)⟩

/-- The rejection of the value. -/
def error (d : Demand) : ValidationError :=
  d.errorAt d.path

end Demand

/-- Where a rule stands: the numbers of the fields that lead to it, the outermost first, and its
number among the rules of the last of them. -/
structure RuleSite where
  fields : List Nat
  rule : Nat

namespace RuleSite

/-- One site precedes another in depth-first order: a field precedes those of its record. -/
def Before (a b : RuleSite) : Prop :=
  a.fields < b.fields ∨ a.fields = b.fields ∧ a.rule < b.rule

theorem before_trichotomy (a b : RuleSite) : a.Before b ∨ a = b ∨ b.Before a := by
  obtain ⟨fields, rule⟩ := a
  obtain ⟨fields', rule'⟩ := b
  rcases lt_trichotomy fields fields' with hlt | rfl | hgt
  · exact .inl (.inl hlt)
  · rcases Nat.lt_trichotomy rule rule' with hlt | rfl | hgt
    · exact .inl (.inr ⟨rfl, hlt⟩)
    · exact .inr (.inl rfl)
    · exact .inr (.inr (.inr ⟨rfl, hgt⟩))
  · exact .inr (.inr (.inl hgt))

theorem before_cons_iff
    {i j rule rule' : Nat} {fields fields' : List Nat} :
    Before ⟨i :: fields, rule⟩ ⟨j :: fields', rule'⟩ ↔
      i < j ∨ i = j ∧ Before ⟨fields, rule⟩ ⟨fields', rule'⟩ := by
  simp only [Before, List.cons_lt_cons_iff, List.cons.injEq]
  tauto

theorem Before.head_le
    {a b : RuleSite} (h : a.Before b) {i j : Nat} (ha : a.fields.head? = some i)
    (hb : b.fields.head? = some j) : i < j ∨ i = j := by
  obtain ⟨_, ha⟩ := List.head?_eq_some_iff.mp ha
  obtain ⟨_, hb⟩ := List.head?_eq_some_iff.mp hb
  obtain ⟨fields, rule⟩ := a
  obtain ⟨fields', rule'⟩ := b
  obtain rfl : fields = _ := ha
  obtain rfl : fields' = _ := hb
  exact (before_cons_iff.mp h).imp_right And.left

end RuleSite

/-- The value of a field in an object. -/
def VisibleField.valueIn (f : VisibleField) (members : Json.Object) : Json :=
  (members.find? f.wireName).getD .null

namespace TypeTable

variable {types fewer : TypeTable} {t : Ty} {value : Json} {members : Json.Object}
  {site : RuleSite} {d : Demand} {room : Nat} {place : String}

/-- The demands on a value of a type: the rules of the fields of its record, unless a field is
optional and there is no value, and the demands on the values of these fields.  Other values than
objects are not asked for anything, nor are types other than records. -/
inductive Demands (types : TypeTable) : Ty → Json → RuleSite → Demand → Prop
  | own {t : Ty} {members : Json.Object} {f : VisibleField} {rule : Rule} {i j : Nat}
      (hf : (types.fields t)[i]? = some f)
      (hgiven : ¬(f.valueIn members = .null ∧ f.isOptional = true))
      (hrule : f.attributes.rules[j]? = some rule) :
      Demands types t (.object members) ⟨[i], j⟩ ⟨[f.lookupName], rule, f.valueIn members⟩
  | nested {t : Ty} {members : Json.Object} {f : VisibleField} {i j : Nat} {fields : List Nat}
      {d : Demand} (hf : (types.fields t)[i]? = some f)
      (h : Demands types f.target (f.valueIn members) ⟨fields, j⟩ d) :
      Demands types t (.object members) ⟨i :: fields, j⟩ { d with names := f.lookupName :: d.names }

/-- A demand that is not met, while all before it are. -/
def FirstUnmet (types : TypeTable) (t : Ty) (value : Json) (d : Demand) : Prop :=
  ∃ site, types.Demands t value site d ∧ ¬d.Met ∧
    ∀ site' d', types.Demands t value site' d' → site'.Before site → d'.Met

theorem Demands.exists_head (h : types.Demands t value site d) :
    ∃ i f, site.fields.head? = some i ∧ (types.fields t)[i]? = some f := by
  cases h with
  | own hf => exact ⟨_, _, rfl, hf⟩
  | nested hf => exact ⟨_, _, rfl, hf⟩

theorem Demands.unique
    {d' : Demand} (h : types.Demands t value site d) (h' : types.Demands t value site d') :
    d = d' := by
  induction h generalizing d' with
  | own hf hgiven hrule =>
      cases h' with
      | own hf' _ hrule' =>
          obtain rfl := Option.some.inj (hf.symm.trans hf')
          rw [Option.some.inj (hrule.symm.trans hrule')]
      | nested _ h' =>
          obtain ⟨_, _, hnil, -⟩ := h'.exists_head
          cases hnil
  | nested hf h ih =>
      cases h' with
      | own =>
          obtain ⟨_, _, hnil, -⟩ := h.exists_head
          cases hnil
      | nested hf' h' =>
          obtain rfl := Option.some.inj (hf.symm.trans hf')
          rw [ih h']

theorem FirstUnmet.unique
    {d' : Demand} (h : types.FirstUnmet t value d) (h' : types.FirstUnmet t value d') : d = d' := by
  obtain ⟨site, hdemand, hunmet, hbefore⟩ := h
  obtain ⟨site', hdemand', hunmet', hbefore'⟩ := h'
  rcases site.before_trichotomy site' with hlt | rfl | hgt
  · exact absurd (hbefore' site d hdemand hlt) hunmet
  · exact hdemand.unique hdemand'
  · exact absurd (hbefore site' d' hdemand' hgt) hunmet'

/-! ## Paths -/

theorem foldl_memberPath_of_ne {base : String} (hbase : base ≠ "") (names : List String) :
    names.foldl memberPath base = ".".intercalate (base :: names) := by
  induction names generalizing base with
  | nil => rw [List.foldl_nil, String.intercalate_singleton]
  | cons name names ih =>
      have hpath : memberPath base name = base ++ "." ++ name := by
        rw [memberPath, if_neg (by simpa using hbase)]
      rw [List.foldl_cons, hpath, ih (by simp [hbase]), String.intercalate_cons_cons,
        String.intercalate_cons_append]

theorem foldl_memberPath (names : List String) :
    names.foldl memberPath "" = ".".intercalate (names.dropWhile String.isEmpty) := by
  induction names with
  | nil => rfl
  | cons name names ih =>
      have hpath : memberPath "" name = name := rfl
      rw [List.foldl_cons, hpath]
      by_cases hname : name = ""
      · rw [hname, ih]
        rfl
      · rw [foldl_memberPath_of_ne hname, List.dropWhile_cons_of_neg (by simpa using hname)]

/-! ## What a check finds -/

/-- A check agrees with some demands: it succeeds if all are met, and fails with the first that is
not.  Paths start with the place of the value that is checked. -/
def Judges (demands : RuleSite → Demand → Prop) (place : String) :
    Except ValidationError Unit → Prop
  | .ok _ => ∀ site d, demands site d → d.Met
  | .error e => ∃ site d, demands site d ∧ ¬d.Met ∧
      (∀ site' d', demands site' d' → site'.Before site → d'.Met) ∧
      e = d.errorAt (d.names.foldl memberPath place)

/-- The demands on an object that concern one of its fields. -/
def DemandsOf (types : TypeTable) (t : Ty) (members : Json.Object) (i : Nat) (site : RuleSite)
    (d : Demand) : Prop :=
  types.Demands t (.object members) site d ∧ site.fields.head? = some i

/-- Rules are checked in order. -/
theorem exists_of_checkRules_eq_error
    {field : String} {rules : List Rule} {e : ValidationError}
    (h : checkRules field rules value = .error e) :
    ∃ (j : Nat) (rule : Rule), rules[j]? = some rule ∧ ¬rule.Satisfied value ∧
      (∀ k < j, ∀ rule', rules[k]? = some rule' → rule'.Satisfied value) ∧
      e = ⟨some field, some rule.name, rule.message.getD (rule.defaultMessage field)⟩ := by
  rw [checkRules] at h
  split at h
  · cases h
  · rename_i rule hfind
    obtain ⟨hbroken, j, hj, rfl, hbefore⟩ := List.find?_eq_some_iff_getElem.mp hfind
    refine ⟨j, _, List.getElem?_eq_getElem hj, ?_, ?_, (Except.error.inj h).symm⟩
    · rw [← Rule.holds_iff]
      simpa using hbroken
    · intro k hk rule' hrule'
      obtain ⟨hlength, rfl⟩ := List.getElem?_eq_some_iff.mp hrule'
      rw [← Rule.holds_iff]
      simpa using hbefore k hk

/-- The demands of one field are its own rules, or stand in its value. -/
theorem DemandsOf.own_or_nested
    {i : Nat} {f : VisibleField} (h : types.DemandsOf t members i site d)
    (hf : (types.fields t)[i]? = some f) :
    (¬(f.valueIn members = .null ∧ f.isOptional = true) ∧
      ∃ j rule, f.attributes.rules[j]? = some rule ∧ site = ⟨[i], j⟩ ∧
        d = ⟨[f.lookupName], rule, f.valueIn members⟩) ∨
    ∃ inner d', types.Demands f.target (f.valueIn members) inner d' ∧
      site = ⟨i :: inner.fields, inner.rule⟩ ∧
      d = { d' with names := f.lookupName :: d'.names } := by
  obtain ⟨hdemand, hhead⟩ := h
  cases hdemand with
  | own hf' hgiven hrule =>
      obtain rfl := Option.some.inj hhead
      obtain rfl := Option.some.inj (hf.symm.trans hf')
      exact .inl ⟨hgiven, _, _, hrule, rfl, rfl⟩
  | nested hf' h =>
      obtain rfl := Option.some.inj hhead
      obtain rfl := Option.some.inj (hf.symm.trans hf')
      exact .inr ⟨_, _, h, rfl, rfl⟩

theorem not_demands_null : ¬types.Demands t .null site d :=
  nofun

/-- The rules of a field are checked before what its value holds. -/
theorem judges_bind_checkRules
    {f : VisibleField} {i : Nat} (hf : (types.fields t)[i]? = some f)
    (hgiven : ¬(f.valueIn members = .null ∧ f.isOptional = true))
    {outcome : Except ValidationError Unit}
    (houtcome : Judges (types.Demands f.target (f.valueIn members))
      (memberPath place f.lookupName) outcome) :
    Judges (types.DemandsOf t members i) place
      (checkRules (memberPath place f.lookupName) f.attributes.rules (f.valueIn members) >>=
        fun _ => outcome) := by
  cases hrules : checkRules (memberPath place f.lookupName) f.attributes.rules
      (f.valueIn members) with
  | error e =>
      obtain ⟨j, rule, hrule, hbroken, hbefore, rfl⟩ := exists_of_checkRules_eq_error hrules
      refine ⟨⟨[i], j⟩, _, ⟨.own hf hgiven hrule, rfl⟩, hbroken, ?_, rfl⟩
      intro site' d' hd' hsite'
      rcases hd'.own_or_nested hf with ⟨-, k, rule', hrule', rfl, rfl⟩ | ⟨inner, _, hinner, rfl, -⟩
      · have hk : k < j := by simpa [RuleSite.Before] using hsite'
        exact hbefore k hk rule' hrule'
      · -- what stands in the value of a field comes after the rules of the field
        obtain ⟨_, _, hhead, -⟩ := hinner.exists_head
        have hnil : inner.fields = [] := by
          rcases RuleSite.before_cons_iff.mp hsite' with hlt | ⟨-, hlt | ⟨hnil, -⟩⟩
          · exact absurd hlt (lt_irrefl i)
          · exact absurd hlt (List.not_lt_nil _)
          · exact hnil
        rw [hnil] at hhead
        cases hhead
  | ok =>
      have hown : ∀ {j : Nat} {rule}, f.attributes.rules[j]? = some rule →
          rule.Satisfied (f.valueIn members) := by
        intro j rule hrule
        exact (rule.holds_iff _).mp
          (checkRules_eq_ok_iff.mp hrules rule (List.mem_of_getElem? hrule))
      cases outcome with
      | ok =>
          intro site d hd
          rcases hd.own_or_nested hf with ⟨-, j, rule, hrule, -, rfl⟩ | ⟨inner, d', hinner, -, rfl⟩
          · exact hown hrule
          · exact houtcome inner d' hinner
      | error e =>
          obtain ⟨site, d, hdemand, hunmet, hbefore, rfl⟩ := houtcome
          refine ⟨⟨i :: site.fields, site.rule⟩, _, ⟨.nested hf hdemand, rfl⟩, hunmet, ?_, rfl⟩
          intro site' d' hd' hsite'
          rcases hd'.own_or_nested hf with
            ⟨-, j, rule, hrule, -, rfl⟩ | ⟨inner, d', hinner, rfl, rfl⟩
          · exact hown hrule
          · have hfirst : inner.Before site := by
              simpa [RuleSite.before_cons_iff] using hsite'
            exact hbefore inner d' hinner hfirst

theorem judges_checkField
    {f : VisibleField} {i : Nat} (hf : (types.fields t)[i]? = some f)
    (hnested : ∀ place, Judges (types.Demands f.target (f.valueIn members)) place
      (if (types.record? f.type).isSome then
        types.validateAt room f.target (f.valueIn members) place else .ok ())) :
    Judges (types.DemandsOf t members i) place (types.checkField room members place f) := by
  by_cases hskip : f.valueIn members = .null ∧ f.isOptional = true
  · rw [checkField_of_skipped hskip.1 hskip.2]
    intro site d hd
    rcases hd.own_or_nested hf with ⟨hgiven, -⟩ | ⟨inner, d', hd', -, -⟩
    · exact absurd hskip hgiven
    · rw [hskip.1] at hd'
      exact absurd hd' not_demands_null
  · rw [checkField_of_not_skipped hskip]
    exact judges_bind_checkRules hf hskip (hnested _)

theorem depth_valueIn_lt (f : VisibleField) (members : Json.Object) :
    (f.valueIn members).depth < (Json.object members).depth := by
  rw [VisibleField.valueIn]
  cases hfind : members.find? f.wireName with
  | none => simp [Json.depth]
  | some value => exact Json.depth_lt_of_mem_members (Members.mem_of_find?_eq_some hfind)

theorem not_demands_of_record?_eq_none
    (h : types.record? t = none) : ¬types.Demands t value site d := by
  intro hdemand
  obtain ⟨i, f, -, hf⟩ := hdemand.exists_head
  simp [fields, h] at hf

/-- The check of a value that nests less deep than there is room agrees with the demands on it. -/
theorem judges_validateAt
    (hdepth : value.depth < room) (place : String) :
    Judges (types.Demands t value) place (types.validateAt room t value place) := by
  induction room generalizing t value place with
  | zero => exact absurd hdepth (Nat.not_lt_zero _)
  | succ room ih =>
      by_cases hobject : ∃ members, value = .object members
      · obtain ⟨members, rfl⟩ := hobject
        have hfield : ∀ {i f}, (types.fields t)[i]? = some f →
            Judges (types.DemandsOf t members i) place
              (types.checkField room members place f) := by
          intro i f hf
          refine judges_checkField hf fun place => ?_
          split
          · have hlt := depth_valueIn_lt f members
            exact ih (by omega) place
          · rename_i hrecord
            have hnone : types.record? f.target = none :=
              (record?_target f.type).trans (by simpa using hrecord)
            exact fun _ _ hd => absurd hd (not_demands_of_record?_eq_none hnone)
        rw [validateAt_object]
        cases hresult : (types.fields t).forM (types.checkField room members place) with
        | ok =>
            intro site d hd
            obtain ⟨i, f, hhead, hf⟩ := hd.exists_head
            have hjudged := hfield hf
            rw [Results.forM_eq_ok_iff.mp hresult f (List.mem_of_getElem? hf)] at hjudged
            exact hjudged site d ⟨hd, hhead⟩
        | error e =>
            obtain ⟨i, f, hf, herror, hfields⟩ := Results.exists_of_forM_eq_error hresult
            have hjudged := hfield hf
            rw [herror] at hjudged
            obtain ⟨site, d, ⟨hd, hhead⟩, hunmet, hbefore, rfl⟩ := hjudged
            refine ⟨site, d, hd, hunmet, ?_, rfl⟩
            intro site' d' hd' hsite'
            obtain ⟨i', f', hhead', hf'⟩ := hd'.exists_head
            rcases hsite'.head_le hhead' hhead with hlt | rfl
            · have hjudged := hfield hf'
              rw [hfields i' hlt f' hf'] at hjudged
              exact hjudged site' d' ⟨hd', hhead'⟩
            · exact hbefore site' d' ⟨hd', hhead'⟩ hsite'
      · have hnone : ∀ members, value ≠ .object members := fun members h => hobject ⟨members, h⟩
        rw [validateAt_of_no_object hnone]
        intro site d hd
        cases hd <;> exact absurd rfl (hnone _)

/-- Validation reports the first demand that is not met. -/
theorem validate_eq_error_iff (hdepth : value.depth ≤ maxDepth) {e : ValidationError} :
    types.validate t value = .error e ↔ ∃ d, types.FirstUnmet t value d ∧ e = d.error := by
  have hpath : ∀ d : Demand, d.errorAt (d.names.foldl memberPath "") = d.error := by
    intro d
    rw [foldl_memberPath]
    rfl
  have hjudges : Judges (types.Demands t value) "" (types.validate t value) :=
    judges_validateAt (Nat.lt_succ_of_le hdepth) ""
  constructor
  · intro h
    rw [h] at hjudges
    obtain ⟨site, d, hdemand, hunmet, hbefore, rfl⟩ := hjudges
    exact ⟨d, ⟨site, hdemand, hunmet, hbefore⟩, hpath d⟩
  · rintro ⟨d, hfirst, rfl⟩
    cases hresult : types.validate t value with
    | ok =>
        rw [hresult] at hjudges
        obtain ⟨site, hdemand, hunmet, -⟩ := hfirst
        exact absurd (hjudges site d hdemand) hunmet
    | error e =>
        rw [hresult] at hjudges
        obtain ⟨site, d', hdemand, hunmet, hbefore, rfl⟩ := hjudges
        rw [hfirst.unique ⟨site, hdemand, hunmet, hbefore⟩, hpath]

end TypeTable

/-! ## Messages decide nothing -/

/-- What an error says besides its message. -/
def ValidationError.subject (e : ValidationError) : Option String × Option String :=
  (e.field, e.rule)

theorem mapError_checkRules (field : String) (rules : List Rule) (value : Json) :
    (checkRules field rules value).mapError ValidationError.subject =
      (checkRules field (rules.map Rule.bare) value).mapError ValidationError.subject := by
  have hbare : (fun rule : Rule => !rule.holds value) ∘ Rule.bare =
      fun rule => !rule.holds value := rfl
  rw [checkRules, checkRules, List.find?_map, hbare]
  cases rules.find? fun rule => !rule.holds value with
  | none => rfl
  | some rule => rfl

namespace TypeTable

variable {types fewer : TypeTable}

theorem DropsMessages.isSome_record?
    (h : types.DropsMessages fewer) (t : Ty) :
    (fewer.record? t).isSome = (types.record? t).isSome := by
  have hrecord := h.record? t
  generalize types.record? t = found at hrecord ⊢
  generalize fewer.record? t = found' at hrecord ⊢
  cases hrecord <;> rfl

theorem DropsMessages.mapError_checkField
    (h : types.DropsMessages fewer) {room : Nat}
    (hnested : ∀ t value place,
      (types.validateAt room t value place).mapError ValidationError.subject =
        (fewer.validateAt room t value place).mapError ValidationError.subject)
    (members : Json.Object) (place : String) {f f' : VisibleField} (hf : f.DropsMessages f') :
    (types.checkField room members place f).mapError ValidationError.subject =
      (fewer.checkField room members place f').mapError ValidationError.subject := by
  have hname := hf.lookupName_eq
  obtain ⟨attributes, rfl, hattributes⟩ := hf
  by_cases hskip : f.valueIn members = .null ∧ f.isOptional = true
  · rw [checkField_of_skipped hskip.1 hskip.2,
      checkField_of_skipped (f := { f with attributes := attributes }) hskip.1 hskip.2]
  · rw [checkField_of_not_skipped hskip,
      checkField_of_not_skipped (f := { f with attributes := attributes }) hskip,
      Results.mapError_bind, Results.mapError_bind, mapError_checkRules, hname,
      ← hattributes.bare_rules_eq, ← mapError_checkRules]
    refine bind_congr fun _ => ?_
    dsimp only
    rw [h.isSome_record?]
    split
    · exact hnested _ _ _
    · rfl

/-- Without messages the same field and rule are reported. -/
theorem DropsMessages.mapError_validateAt
    (h : types.DropsMessages fewer) (room : Nat) (t : Ty) (value : Json) (place : String) :
    (types.validateAt room t value place).mapError ValidationError.subject =
      (fewer.validateAt room t value place).mapError ValidationError.subject := by
  induction room generalizing t value place with
  | zero => rfl
  | succ room ih =>
      by_cases hobject : ∃ members, value = .object members
      · obtain ⟨members, rfl⟩ := hobject
        rw [validateAt_object, validateAt_object]
        exact Results.mapError_forM_congr (h.fields t) fun f f' hf =>
          h.mapError_checkField ih members place hf
      · have hnone : ∀ members, value ≠ .object members := fun members h => hobject ⟨members, h⟩
        rw [validateAt_of_no_object hnone, validateAt_of_no_object hnone]

/-- For a value whose containers nest at most `maxDepth` deep, validation fails exactly if a demand
is not met, and then the error is about the first one in depth-first order.  If messages are left
out of the definitions then validation succeeds as before, or fails with the same field and rule.
The message of a rule is the one at its position, if that is not blank. -/
theorem validate_reports_first_unmet
    {t : Ty} {value : Json} (hdepth : value.depth ≤ maxDepth) :
    (∀ e, types.validate t value = .error e ↔ ∃ d, types.FirstUnmet t value d ∧ e = d.error) ∧
    (∀ fewer, types.DropsMessages fewer →
      (types.validate t value).mapError ValidationError.subject =
        (fewer.validate t value).mapError ValidationError.subject) ∧
    ∀ (attributes : Attributes) (texts messages : List String),
      attributes.ListsRules texts messages → ∀ i : Nat,
        attributes.rules[i]? = (texts.filterMap Attributes.nonBlank?)[i]?.map fun text =>
          ⟨(Attributes.ruleParts text).1, (Attributes.ruleParts text).2,
            messages[i]?.bind Attributes.nonBlank?⟩ :=
  ⟨fun _ => validate_eq_error_iff hdepth, fun _ h => h.mapError_validateAt _ t value "",
    fun _ _ _ h i => h.getElem?_rules i⟩

/-! ## Labels and colours -/

/-- A paint with a label, perhaps a note, and a shade. -/
def paint (labelRules : String) : Record where
  name := "Paint"
  fields := [⟨"name", "name", .scalar .string, labelRules, none, false, false⟩,
    ⟨"note", "note", .option (.scalar .string), "v:\"required\"", none, false, false⟩,
    plainField "shade" (.named "Shade") false]
  doc := none

/-- A shade of some colour. -/
def shade (colourRules : String) : Record where
  name := "Shade"
  fields := [⟨"colour", "colour", .scalar .string, colourRules, none, false, false⟩]
  doc := none

/-- The types of paints and shades. -/
def paintTypes (labelRules colourRules : String) : TypeTable :=
  ⟨[("Paint", .record (paint labelRules)), ("Shade", .record (shade colourRules))]⟩

/-- The rules of a label, of which only the last has a message. -/
def labelRules : String := "p:\"label\" v:\"required||max-length:8#|too long\""

/-- The rule of a colour, with a message. -/
def colourRules : String := "v:\"in:red,green#red or green\""

/-- A paint with a colour that is not offered. -/
def bluePaint : Json :=
  .object [("name", .string "sky"), ("note", .null),
    ("shade", .object [("colour", .string "blue")])]

theorem dropsMessages_paintTypes :
    (paintTypes labelRules colourRules).DropsMessages
      (paintTypes "p:\"label\" v:\"required||max-length:8\"" "v:\"in:red,green\"") := by
  refine .cons ⟨rfl, .record ⟨_, rfl, .cons ⟨_, rfl, ?_⟩ (.cons ⟨_, rfl, ?_⟩ (.cons ⟨_, rfl, ?_⟩
    .nil))⟩⟩ (.cons ⟨rfl, .record ⟨_, rfl, .cons ⟨_, rfl, ?_⟩ .nil⟩⟩ .nil)
  · decide
  · decide
  · decide
  · decide

/-- The colour is reported with its message, and without messages it still is. -/
theorem validate_reports_first_unmet_colour :
    bluePaint.depth ≤ maxDepth ∧
    (∃ d, (paintTypes labelRules colourRules).FirstUnmet (.named "Paint") bluePaint d ∧
      d.error = ⟨some "shade.colour", some "in", "red or green"⟩) ∧
    ((paintTypes "p:\"label\" v:\"required||max-length:8\"" "v:\"in:red,green\"").validate
      (.named "Paint") bluePaint).mapError ValidationError.subject =
        .error (some "shade.colour", some "in") ∧
    (Attributes.completed labelRules).rules[1]? =
      some ⟨"max-length", some "8", some "too long"⟩ := by
  have hdepth : bluePaint.depth ≤ maxDepth := by decide
  obtain ⟨hreports, hdrops, hmessages⟩ :=
    @validate_reports_first_unmet (paintTypes labelRules colourRules) (.named "Paint") _ hdepth
  have hresult : (paintTypes labelRules colourRules).validate (.named "Paint") bluePaint =
      .error ⟨some "shade.colour", some "in", "red or green"⟩ := by
    decide +kernel
  have hlisted : (Attributes.completed labelRules).ListsRules ["required", "", "max-length:8"]
      ["", "too long"] :=
    ⟨by decide +kernel, by decide, by decide, by decide, by decide⟩
  refine ⟨hdepth, ?_, ?_, ?_⟩
  · obtain ⟨d, hfirst, herror⟩ := (hreports _).mp hresult
    exact ⟨d, hfirst, herror.symm⟩
  · rw [← hdrops _ dropsMessages_paintTypes, hresult]
    rfl
  · exact (hmessages _ _ _ hlisted 1).trans (by decide +kernel)

/-- A field with an empty external name, and a shade as its value. -/
def unnamedShade : VisibleField :=
  visibleField ⟨false, none⟩ ⟨"shade", "shade", .named "Shade", "p:\"\"", none, false, false⟩

/-- A colour that has to be given. -/
def requiredColour : VisibleField :=
  visibleField ⟨false, none⟩
    ⟨"colour", "colour", .scalar .string, "v:\"required\"", none, false, false⟩

/-- The types of frames and shades. -/
def frameTypes : TypeTable :=
  ⟨[("Frame", .record ⟨"Frame",
      [⟨"shade", "shade", .named "Shade", "p:\"\"", none, false, false⟩], none⟩),
    ("Shade", .record (shade "v:\"required\""))]⟩

/-- A shade without a colour. -/
def blankShade : Json.Object :=
  [("colour", .string "")]

/-- A frame with such a shade. -/
def blankFrame : Json.Object :=
  [("shade", .object blankShade)]

theorem names_of_demands_blankShade
    {site : RuleSite} {d : Demand}
    (h : frameTypes.Demands (.named "Shade") (.object blankShade) site d) :
    d.names = ["colour"] := by
  have hfields : frameTypes.fields (.named "Shade") = [requiredColour] := by decide
  have hname : requiredColour.lookupName = "colour" := by decide
  obtain ⟨i, f, hhead, hf⟩ := h.exists_head
  have hdemand : frameTypes.DemandsOf (.named "Shade") blankShade i site d := ⟨h, hhead⟩
  obtain rfl := List.mem_singleton.mp (hfields ▸ List.mem_of_getElem? hf)
  rcases hdemand.own_or_nested hf with ⟨-, j, rule, -, -, rfl⟩ | ⟨inner, d', hinner, -⟩
  · rw [hname]
  · have hvalue : requiredColour.valueIn blankShade = .string "" := rfl
    rw [hvalue] at hinner
    cases hinner

theorem names_of_demands_blankFrame
    {site : RuleSite} {d : Demand}
    (h : frameTypes.Demands (.named "Frame") (.object blankFrame) site d) :
    d.names = ["", "colour"] := by
  have hfields : frameTypes.fields (.named "Frame") = [unnamedShade] := by decide
  have hname : unnamedShade.lookupName = "" := by decide
  have hrules : unnamedShade.attributes.rules = [] := by decide
  obtain ⟨i, f, hhead, hf⟩ := h.exists_head
  have hdemand : frameTypes.DemandsOf (.named "Frame") blankFrame i site d := ⟨h, hhead⟩
  obtain rfl := List.mem_singleton.mp (hfields ▸ List.mem_of_getElem? hf)
  rcases hdemand.own_or_nested hf with ⟨-, j, rule, hrule, -⟩ | ⟨inner, d', hinner, -, rfl⟩
  · simp [hrules] at hrule
  · have hinner : frameTypes.Demands (.named "Shade") (.object blankShade) inner d' := hinner
    rw [hname, names_of_demands_blankShade hinner]

/-- An empty name at the start of a path takes no dot. -/
theorem reported_path_without_dot :
    ∃ e, (Json.object blankFrame).depth ≤ maxDepth ∧
      frameTypes.validate (.named "Frame") (.object blankFrame) = .error e ∧
      ∀ site d, frameTypes.Demands (.named "Frame") (.object blankFrame) site d →
        e.field ≠ some (".".intercalate d.names) := by
  refine ⟨⟨some "colour", some "required", "The colour field is required"⟩, by decide,
    by decide +kernel, ?_⟩
  intro site d hd
  rw [names_of_demands_blankFrame hd]
  decide

end TypeTable
end TypedRoutes
