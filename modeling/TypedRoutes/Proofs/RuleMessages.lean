import Mathlib.Data.List.Forall2
import Mathlib.Data.List.TakeWhile
import TypedRoutes.Proofs.Segments
import TypedRoutes.Types.Walk

/-!
# Messages of rules

The messages after the hash sign of a list of rules belong to the rules by position.  Which rules
there are does not depend on them: a list that ends before its hash sign has the same rules, without
messages.  So if messages are left out anywhere in the definitions of types, all records keep their
visible fields, and the fields their names and rules.
-/

namespace TypedRoutes

namespace Text

/-- A text is split at the first separator. -/
theorem splitOnce_eq_some_iff
    {separator : Char} {s before after : String} :
    splitOnce separator s = some (before, after) ↔
      s = before ++ String.ofList [separator] ++ after ∧ separator ∉ before.toList := by
  constructor
  · intro h
    simp only [splitOnce] at h
    split at h
    · cases h
    · rename_i c rest hdrop
      obtain ⟨rfl, rfl⟩ := Prod.mk.inj (Option.some.inj h)
      have hs : s.toList = s.toList.takeWhile (· != separator) ++ c :: rest := by
        rw [← hdrop, List.takeWhile_append_dropWhile]
      have hc : c = separator := by
        have hhead := List.head?_dropWhile_not (· != separator) s.toList
        simpa [hdrop] using hhead
      constructor
      · rw [← String.toList_inj]
        simpa [hc] using hs
      · rw [String.toList_ofList]
        intro hmem
        simpa using List.mem_takeWhile_imp hmem
  · rintro ⟨rfl, hbefore⟩
    have hkept : ∀ c ∈ before.toList, (c != separator) = true := by
      intro c hc
      simpa using ne_of_mem_of_not_mem hc hbefore
    simp [splitOnce, List.dropWhile_append_of_pos hkept, List.takeWhile_append_of_pos hkept]

theorem splitOnce_eq_none_iff
    {separator : Char} {s : String} : splitOnce separator s = none ↔ separator ∉ s.toList := by
  have hdrop : s.toList.dropWhile (· != separator) = [] ↔ separator ∉ s.toList := by
    rw [List.dropWhile_eq_nil_iff]
    constructor
    · intro h hmem
      simpa using h separator hmem
    · intro h c hc
      simpa using ne_of_mem_of_not_mem hc h
  rw [← hdrop, splitOnce]
  cases s.toList.dropWhile (· != separator) with
  | nil => simp
  | cons c rest => simp

/-- Joined texts lack a character that the separator lacks if all of them do. -/
theorem not_mem_intercalate_iff
    {c : Char} {separator : String} {texts : List String} (hseparator : c ∉ separator.toList) :
    c ∉ (separator.intercalate texts).toList ↔ ∀ text ∈ texts, c ∉ text.toList := by
  induction texts with
  | nil => simp
  | cons text rest ih =>
      rw [List.forall_mem_cons, ← ih]
      cases rest with
      | nil => simp
      | cons next rest => simp [String.intercalate_cons_cons, hseparator]

end Text

/-- A rule without its message. -/
def Rule.bare (rule : Rule) : Rule :=
  { rule with message := none }

namespace Attributes

/-! ## Messages by position -/

theorem getElem?_pairRules (texts messages : List String) (i : Nat) :
    (pairRules texts messages)[i]? = texts[i]?.map fun text =>
      ⟨(ruleParts text).1, (ruleParts text).2, messages[i]?.bind nonBlank?⟩ := by
  induction texts generalizing messages i with
  | nil => rfl
  | cons text texts ih =>
      cases i with
      | zero =>
          rw [pairRules, List.getElem?_cons_zero, List.head?_eq_getElem?]
          rfl
      | succ i =>
          rw [pairRules, List.getElem?_cons_succ, ih, List.getElem?_tail]
          rfl

/-- Without messages there are the same rules. -/
theorem bare_pairRules (texts messages : List String) :
    (pairRules texts messages).map Rule.bare = pairRules texts [] := by
  refine List.ext_getElem? fun i => ?_
  rw [List.getElem?_map, getElem?_pairRules, getElem?_pairRules, Option.map_map]
  rfl

/-- The attributes list rules as some texts, with messages after a hash sign. -/
structure ListsRules (attributes : Attributes) (texts messages : List String) : Prop where
  written : attributes.get? "v" = some ("|".intercalate texts ++ "#" ++ "|".intercalate messages)
  texts_ne_nil : texts ≠ []
  messages_ne_nil : messages ≠ []
  apart : ∀ text ∈ texts, '|' ∉ text.toList ∧ '#' ∉ text.toList
  messages_apart : ∀ message ∈ messages, '|' ∉ message.toList

theorem ListsRules.rules_eq
    {attributes : Attributes} {texts messages : List String}
    (h : attributes.ListsRules texts messages) :
    attributes.rules = pairRules (texts.filterMap nonBlank?) messages := by
  have hhash : '#' ∉ ("|".intercalate texts).toList :=
    (Text.not_mem_intercalate_iff (by decide)).mpr fun text htext => (h.apart text htext).2
  have hbefore : Text.split '|' ("|".intercalate texts) = texts :=
    (Text.split_eq_iff h.texts_ne_nil fun text htext => (h.apart text htext).1).mpr rfl
  have hafter : Text.split '|' ("|".intercalate messages) = messages :=
    (Text.split_eq_iff h.messages_ne_nil h.messages_apart).mpr rfl
  have hsplit : Text.splitOnce '#' ("|".intercalate texts ++ "#" ++ "|".intercalate messages) =
      some ("|".intercalate texts, "|".intercalate messages) :=
    Text.splitOnce_eq_some_iff.mpr ⟨rfl, hhash⟩
  simp only [rules, h.written, hsplit, hbefore, hafter]

/-- The message at a position belongs to the rule at the same position among those that are not
blank; a blank message is none. -/
theorem ListsRules.getElem?_rules
    {attributes : Attributes} {texts messages : List String}
    (h : attributes.ListsRules texts messages) (i : Nat) :
    attributes.rules[i]? = (texts.filterMap nonBlank?)[i]?.map fun text =>
      ⟨(ruleParts text).1, (ruleParts text).2, messages[i]?.bind nonBlank?⟩ := by
  rw [h.rules_eq, getElem?_pairRules]

/-! ## Leaving messages out -/

/-- A list of rules up to its messages. -/
def listed (raw : String) : String :=
  match Text.splitOnce '#' raw with
  | some (texts, _) => texts
  | none => raw

/-- The rules of a field, but for their messages, are those of its list up to the messages. -/
theorem bare_rules (attributes : Attributes) :
    attributes.rules.map Rule.bare =
      ((attributes.get? "v").map fun raw =>
        pairRules ((Text.split '|' (listed raw)).filterMap nonBlank?) []).getD [] := by
  rw [rules]
  cases attributes.get? "v" with
  | none => rfl
  | some raw =>
      simp only [Option.map_some, Option.getD_some, listed]
      cases Text.splitOnce '#' raw with
      | none => exact bare_pairRules _ _
      | some parts => exact bare_pairRules _ _

theorem listed_listed (raw : String) : listed (listed raw) = listed raw := by
  cases hraw : Text.splitOnce '#' raw with
  | none =>
      have hlisted : listed raw = raw := by rw [listed, hraw]
      rw [hlisted, hlisted]
  | some parts =>
      have hlisted : listed raw = parts.1 := by rw [listed, hraw]
      rw [hlisted, listed,
        Text.splitOnce_eq_none_iff.mpr (Text.splitOnce_eq_some_iff.mp hraw).2]

/-- Some attributes, and the same with the messages of some lists of rules left out. -/
def DropsMessages (attributes fewer : Attributes) : Prop :=
  List.Forall₂ (fun pair pair' => pair' = pair ∨ pair.1 = "v" ∧ pair' = ("v", listed pair.2))
    attributes.pairs fewer.pairs

instance (attributes fewer : Attributes) : Decidable (attributes.DropsMessages fewer) :=
  inferInstanceAs (Decidable (List.Forall₂ _ _ _))

namespace DropsMessages

variable {attributes fewer : Attributes}

/-- What is found under a key stays, or loses its messages. -/
theorem get?_eq (h : attributes.DropsMessages fewer) (key : String) :
    fewer.get? key = attributes.get? key ∨
      key = "v" ∧ fewer.get? key = (attributes.get? key).map listed := by
  rw [DropsMessages] at h
  simp only [get?]
  generalize attributes.pairs = pairs at h ⊢
  generalize fewer.pairs = pairs' at h ⊢
  induction h with
  | nil => exact .inl rfl
  | @cons pair pair' rest rest' hpair _ ih =>
      have hkeys : pair'.1 = pair.1 := by
        rcases hpair with rfl | ⟨hkey, rfl⟩
        · rfl
        · exact hkey.symm
      rw [List.lookup_cons, List.lookup_cons, hkeys]
      cases hfound : key == pair.1 with
      | false => exact ih
      | true =>
          rcases hpair with rfl | ⟨hkey, rfl⟩
          · exact .inl rfl
          · exact .inr ⟨(eq_of_beq hfound).trans hkey, rfl⟩

theorem get?_of_ne (h : attributes.DropsMessages fewer) {key : String} (hkey : key ≠ "v") :
    fewer.get? key = attributes.get? key :=
  (h.get?_eq key).resolve_right fun hdropped => hkey hdropped.1

theorem bare_rules_eq (h : attributes.DropsMessages fewer) :
    fewer.rules.map Rule.bare = attributes.rules.map Rule.bare := by
  rw [bare_rules, bare_rules]
  rcases h.get?_eq "v" with hsame | ⟨-, hlisted⟩
  · rw [hsame]
  · rw [hlisted, Option.map_map]
    simp only [Function.comp_def, listed_listed]

end DropsMessages
end Attributes

/-! ## Definitions without messages -/

/-- The same field, or with messages of its rules left out. -/
def Field.DropsMessages (f fewer : Field) : Prop :=
  ∃ text, fewer = { f with attributeText := text } ∧
    (Attributes.completed f.attributeText).DropsMessages (Attributes.completed text)

/-- The same record, but messages of the rules of its fields may be left out. -/
def Record.DropsMessages (r fewer : Record) : Prop :=
  ∃ fields, fewer = { r with fields := fields } ∧
    List.Forall₂ Field.DropsMessages r.fields fields

inductive Definition.DropsMessages : Definition → Definition → Prop
  | record {r fewer : Record} (h : r.DropsMessages fewer) :
      DropsMessages (.record r) (.record fewer)
  | enumeration (e : Enumeration) : DropsMessages (.enumeration e) (.enumeration e)

/-- The same definitions, but messages of rules may be left out. -/
def TypeTable.DropsMessages (types fewer : TypeTable) : Prop :=
  List.Forall₂ (fun entry entry' => entry'.1 = entry.1 ∧ entry.2.DropsMessages entry'.2)
    types.definitions fewer.definitions

/-- The same visible field, or with messages of its rules left out. -/
def VisibleField.DropsMessages (f fewer : VisibleField) : Prop :=
  ∃ attributes, fewer = { f with attributes := attributes } ∧ f.attributes.DropsMessages attributes

theorem VisibleField.DropsMessages.lookupName_eq
    {f fewer : VisibleField} (h : f.DropsMessages fewer) : fewer.lookupName = f.lookupName := by
  obtain ⟨attributes, rfl, hattributes⟩ := h
  rw [lookupName, lookupName, hattributes.get?_of_ne (by decide)]

namespace TypeTable

variable {types fewer : TypeTable}

theorem DropsMessages.find? (h : types.DropsMessages fewer) (name : String) :
    Option.Rel Definition.DropsMessages (types.find? name) (fewer.find? name) := by
  rw [DropsMessages] at h
  simp only [TypeTable.find?]
  generalize types.definitions = definitions at h ⊢
  generalize fewer.definitions = definitions' at h ⊢
  induction h with
  | nil => exact .none
  | @cons entry entry' _ _ hentry _ ih =>
      rw [List.lookup_cons, List.lookup_cons, hentry.1]
      cases name == entry.1 with
      | false => exact ih
      | true => exact .some hentry.2

theorem DropsMessages.record? (h : types.DropsMessages fewer) (t : Ty) :
    Option.Rel (fun found found' => found'.1 = found.1 ∧ found.2.DropsMessages found'.2)
      (types.record? t) (fewer.record? t) := by
  simp only [TypeTable.record?]
  cases t.target with
  | named name =>
      have hfound := h.find? name
      simp only [shape]
      generalize types.find? name = found at hfound ⊢
      generalize fewer.find? name = found' at hfound ⊢
      cases hfound with
      | none => exact .none
      | some hdefinition =>
          cases hdefinition with
          | record hr => exact .some ⟨rfl, hr⟩
          | enumeration => exact .none
  | scalar kind => cases kind <;> exact .none
  | _ => exact .none

/-- Two walks found the same fields, but for messages, and the same number of groups. -/
def FindAlike (found found' : List VisibleField × Nat) : Prop :=
  List.Forall₂ VisibleField.DropsMessages found.1 found'.1 ∧ found'.2 = found.2

theorem DropsMessages.walk
    (h : types.DropsMessages fewer) {r r' : Record} (hr : r.DropsMessages r') (fuel : Nat)
    (path : List String) (crossing : Crossing) (groups : Nat) :
    FindAlike (types.walk fuel path crossing r groups)
      (fewer.walk fuel path crossing r' groups) := by
  induction fuel generalizing path crossing r r' groups with
  | zero => exact ⟨.nil, rfl⟩
  | succ fuel ih =>
      obtain ⟨fields, rfl, hfields⟩ := hr
      rw [TypeTable.walk, TypeTable.walk]
      refine List.rel_foldl (P := FindAlike) ?_ ⟨.nil, rfl⟩ hfields
      rintro ⟨found, groups⟩ ⟨found', _⟩ ⟨hfound, rfl⟩ f _ ⟨text, rfl, htext⟩
      -- both walks enter the record of a flattened field, or neither does
      have hentered : Option.Rel (fun a b => b.1 = a.1 ∧ a.2.DropsMessages b.2)
          (if f.flatten then types.record? f.type else none)
          (if f.flatten then fewer.record? f.type else none) := by
        split
        · exact h.record? f.type
        · exact .none
      dsimp only
      generalize (if f.flatten then types.record? f.type else none) = entered at hentered ⊢
      generalize (if f.flatten then fewer.record? f.type else none) = entered' at hentered ⊢
      split
      · exact ⟨hfound, rfl⟩
      · split
        · exact ⟨hfound, rfl⟩
        · cases hentered with
          | none => exact ⟨List.rel_append hfound (.cons ⟨_, rfl, htext⟩ .nil), rfl⟩
          | @some a b hinner =>
              obtain ⟨id, inner⟩ := a
              obtain ⟨_, inner'⟩ := b
              obtain ⟨rfl, hinner⟩ := hinner
              dsimp only
              split
              · exact ⟨hfound, rfl⟩
              · obtain ⟨hfields, hgroups⟩ := ih hinner _ _ _
                exact ⟨List.rel_append hfound hfields, hgroups⟩

/-- A type has the same visible fields, but for messages. -/
theorem DropsMessages.fields (h : types.DropsMessages fewer) (t : Ty) :
    List.Forall₂ VisibleField.DropsMessages (types.fields t) (fewer.fields t) := by
  have hrecord := h.record? t
  simp only [TypeTable.fields]
  generalize types.record? t = found at hrecord ⊢
  generalize fewer.record? t = found' at hrecord ⊢
  cases hrecord with
  | none => exact .nil
  | @some a b hr =>
      obtain ⟨id, r⟩ := a
      obtain ⟨_, r'⟩ := b
      obtain ⟨rfl, hr⟩ := hr
      exact (h.walk hr _ _ _ _).1

end TypeTable
end TypedRoutes
