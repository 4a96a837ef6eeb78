import TypedRoutes.Proofs.ConversionSoundness
import TypedRoutes.Proofs.Overlays
import TypedRoutes.Proofs.TimeTexts

/-!
# Conversion is a projection

What comes out of a conversion is left as it is by a second one: `convert_projects`.  Values without
components and zero values are fixed, and the object of a record is read back member by member,
since each field finds its own member and no other.  The one text that is not read back is a moment
in UTC whose year does not have four digits, because such a year is written with a sign.
-/

namespace TypedRoutes

/-! ## Values without components -/

/-- The year that a text begins with, if it begins with one, has four digits. -/
def HasFourDigitYear (s : String) : Prop :=
  ∀ year rest, Moment.takeYear? s.toList = some (year, rest) → 0 ≤ year ∧ year ≤ 9999

instance (s : String) : Decidable (HasFourDigitYear s) :=
  decidable_of_iff (∀ read ∈ Moment.takeYear? s.toList, 0 ≤ read.1 ∧ read.1 ≤ 9999)
    ⟨fun h year rest hread => h (year, rest) hread, fun h read hread => h read.1 read.2 hread⟩

theorem momentOf?_of_strip
    {s : String} (h : Text.strip Text.isBlank s.toList = s.toList) :
    (Json.string s).momentOf? = Moment.ofText? s.toList := by
  rw [Json.momentOf?, h]

theorem isProper_of_momentOf?
    {value : Json} {m : Moment} (h : value.momentOf? = some m) : m.IsProper := by
  cases value with
  | string s => exact Moment.isProper_of_ofText? h
  | int n =>
      rw [Json.momentOf?] at h
      split at h
      · exact Moment.isProper_of_ofUnixSeconds? h
      · cases h
  | null | bool | float | array | object => cases h

theorem timeOf?_epoch
    (kind : TimeKind) : (Json.string kind.epoch).timeOf? kind = some kind.epoch := by
  cases kind <;> decide +kernel

theorem timeOf?_localText
    {m : Moment} (hm : m.IsProper) :
    (Json.string m.localText).timeOf? .naiveDateTime = some m.localText := by
  have hstrip := Text.strip_of_forall fun _ hc => Moment.not_isBlank_of_mem_localText (m := m) hc
  have hmoment := momentOf?_of_strip hstrip
  rw [hm.ofText?_localText] at hmoment
  simp [Json.timeOf?, hmoment]

theorem timeOf?_dateText
    {m : Moment} (hm : m.IsProper) :
    (Json.string m.dateText).timeOf? .date = some m.dateText := by
  have hstrip := Text.strip_of_forall fun _ hc => Moment.not_isBlank_of_mem_dateText (m := m) hc
  have hmoment := momentOf?_of_strip hstrip
  rw [hm.ofText?_dateText] at hmoment
  have hdate : (⟨m.day, 0, 0⟩ : Moment).dateText = m.dateText := rfl
  simp [Json.timeOf?, hmoment, hdate]

/-- A text with an offset is kept. -/
theorem timeOf?_of_rfc3339
    {s : String} (hstrip : Text.strip Text.isBlank s.toList = s.toList)
    (h : (Moment.ofRfc3339? s.toList).isSome = true) :
    (Json.string s).timeOf? .dateTime = some s := by
  have hmoment := momentOf?_of_strip hstrip
  obtain ⟨m, hm⟩ := Option.isSome_iff_exists.mp h
  rw [Moment.ofText?, hm, Option.some_or] at hmoment
  simp [Json.timeOf?, hmoment, hstrip, hm, Text.trim]

theorem timeOf?_utcText
    {m : Moment} (hm : m.IsProper) (hyear : HasFourDigitYear m.utcText) :
    (Json.string m.utcText).timeOf? .dateTime = some m.utcText := by
  have hstrip := Text.strip_of_forall fun _ hc => Moment.not_isBlank_of_mem_utcText (m := m) hc
  obtain ⟨rest, hread⟩ := Moment.takeYear?_utcText m
  apply timeOf?_of_rfc3339 hstrip
  rw [hm.ofRfc3339?_utcText (hyear _ _ hread)]
  rfl

theorem timeOf?_trim
    {s : String} (h : (Moment.ofRfc3339? (Text.strip Text.isBlank s.toList)).isSome = true) :
    (Json.string (Text.trim s)).timeOf? .dateTime = some (Text.trim s) := by
  have htrim : (Text.trim s).toList = Text.strip Text.isBlank s.toList := String.toList_ofList
  apply timeOf?_of_rfc3339
  · rw [htrim, Text.strip_strip]
  · rw [htrim]
    exact h

/-- A time text is its own. -/
theorem timeOf?_timeOf?
    {kind : TimeKind} {value : Json} {s : String} (h : value.timeOf? kind = some s)
    (hyear : kind = .dateTime → HasFourDigitYear s) : (Json.string s).timeOf? kind = some s := by
  by_cases hnull : value = .null
  · subst hnull
    obtain rfl : kind.epoch = s := Option.some.inj h
    exact timeOf?_epoch kind
  · obtain ⟨m, hm⟩ : ∃ m, value.momentOf? = some m := by
      cases hm : value.momentOf? with
      | none => simp [Json.timeOf?, hm] at h
      | some m => exact ⟨m, rfl⟩
    have hproper := isProper_of_momentOf? hm
    cases kind with
    | naiveDateTime =>
        obtain rfl : m.localText = s := by simpa [Json.timeOf?, hm] using h
        exact timeOf?_localText hproper
    | date =>
        obtain rfl : m.dateText = s := by simpa [Json.timeOf?, hm] using h
        exact timeOf?_dateText hproper
    | dateTime =>
        have hutc : m.utcText = s → (Json.string s).timeOf? .dateTime = some s := by
          rintro rfl
          exact timeOf?_utcText hproper (hyear rfl)
        cases value with
        | null => exact absurd rfl hnull
        | string text =>
            by_cases hkept : (Moment.ofRfc3339? (Text.strip Text.isBlank text.toList)).isSome
            · obtain rfl : Text.trim text = s := by simpa [Json.timeOf?, hm, hkept] using h
              exact timeOf?_trim hkept
            · exact hutc (by simpa [Json.timeOf?, hm, hkept] using h)
        | _ => exact hutc (by simpa [Json.timeOf?, hm] using h)

/-- A converted value without components is converted to itself. -/
theorem leafOf?_leafOf?
    {shape : Shape} {value leaf : Json} (h : shape.leafOf? value = some leaf)
    (hyear : ∀ s, shape = .time .dateTime → leaf = .string s → HasFourDigitYear s) :
    shape.leafOf? leaf = some leaf := by
  cases shape with
  | bool =>
      obtain ⟨b, -, rfl⟩ := Option.map_eq_some_iff.mp h
      rfl
  | int signed bits =>
      obtain ⟨n, hn, rfl⟩ := Option.map_eq_some_iff.mp h
      have hfits := (Option.filter_eq_some_iff.mp hn).2
      simp [Shape.leafOf?, Json.intOf?, hfits]
  | float bits =>
      obtain ⟨x, hx, rfl⟩ := Option.map_eq_some_iff.mp h
      have hfinite := (Option.filter_eq_some_iff.mp hx).2
      simp [Shape.leafOf?, Json.floatOf?, hfinite]
  | text choices =>
      obtain ⟨s, hs, rfl⟩ : ∃ s, (choices = [] ∨ s ∈ choices) ∧ leaf = .string s := by
        cases leaf_of_leafOf? h with
        | text hs => exact ⟨_, hs, rfl⟩
      simp [Shape.leafOf?, Json.textOf?, hs]
  | char =>
      obtain ⟨s, hs, rfl⟩ := Option.map_eq_some_iff.mp h
      obtain ⟨c, rfl⟩ := exists_char_of_charOf? hs
      simp [Shape.leafOf?, Json.charOf?, Json.textOf?]
  | time kind =>
      obtain ⟨s, hs, rfl⟩ := Option.map_eq_some_iff.mp h
      have hkind : kind = .dateTime → HasFourDigitYear s := by
        rintro rfl
        exact hyear s rfl rfl
      rw [Shape.leafOf?, timeOf?_timeOf? hs hkind, Option.map_some]
  | any => cases h
  | marker => cases h
  | record id r => cases h
  | sequence element => cases h
  | table keys values => cases h
  | option inner => cases h

/-! ## Names that mean one field -/

/-- What a record's object holds under a name is what the field of that name reads: a field that is
looked up under another name reads no member by it. -/
structure NamesUnambiguous (marker : Option Field) (fields : List VisibleField) : Prop
    extends MembersApart marker fields where
  lookup : ∀ f ∈ fields, ∀ g ∈ fields, f.lookupName = g.wireName → f = g
  lookup_marker : ∀ m ∈ marker, ∀ f ∈ fields, f.lookupName ≠ m.wireName

namespace TypeTable

variable {types : TypeTable}

/-- In every record that is reached from a type a name means one field. -/
def HasUnambiguousNames (types : TypeTable) (t : Ty) : Prop :=
  ∀ u, Relation.ReflTransGen types.Component t u → ∀ id r,
    types.shape u.target = .record id r → NamesUnambiguous r.markerField? (types.fieldsOf id r)

theorem HasUnambiguousNames.component
    {t u : Ty} (h : types.HasUnambiguousNames t) (hcomponent : types.Component t u) :
    types.HasUnambiguousNames u := by
  intro v hv
  exact h v (.head hcomponent hv)

theorem HasUnambiguousNames.record
    {t : Ty} (h : types.HasUnambiguousNames t) {id : String} {r : Record}
    (ht : types.shape t.target = .record id r) :
    NamesUnambiguous r.markerField? (types.fieldsOf id r) :=
  h t .refl id r ht

/-! ## Fixed values -/

/-- A value is converted to itself, wherever it occurs. -/
def IsFixed (types : TypeTable) (room : Nat) (t : Ty) (value : Json) : Prop :=
  ∀ path, types.convertAt room t value path = .ok value

/-- In an object that was made from a zero object each field finds its own member. -/
theorem bodyValue?_of_overlaid
    {id : String} {r : Record} (hnames : NamesUnambiguous r.markerField? (types.fieldsOf id r))
    {room : Nat} {given : VisibleField → Option Json} {members : Json.Object}
    (h : types.Overlaid room (types.fieldsOf id r) given (types.zeroObject room id r) members)
    {f : VisibleField} (hf : f ∈ types.fieldsOf id r) :
    bodyValue? members f = members.find? f.wireName := by
  by_cases hsame : f.lookupName = f.wireName
  · rw [bodyValue?, hsame, Option.or_self]
  · apply bodyValue?_of_wireName
    have hother : ∀ g ∈ types.fieldsOf id r, f.lookupName ≠ g.wireName := by
      intro g hg heq
      obtain rfl := hnames.lookup f hf g hg heq
      exact hsame heq
    rw [h.other _ hother, find?_zeroObject_of_ne hother]
    exact find?_markerOnly_of_ne fun m hm => hnames.lookup_marker m hm f hf

/-- Fields of a group that is absent from such an object are absent. -/
theorem groupGiven_find?_of_overlaid
    {id : String} {r : Record} (hnames : NamesUnambiguous r.markerField? (types.fieldsOf id r))
    {room : Nat} {given : VisibleField → Option Json} {members : Json.Object}
    (h : types.Overlaid room (types.fieldsOf id r) given (types.zeroObject room id r) members)
    {f : VisibleField} (hf : f ∈ types.fieldsOf id r) (hmissing : members.find? f.wireName = none) :
    groupGiven (types.fieldsOf id r) (fun g => members.find? g.wireName) f = false := by
  rw [← Bool.not_eq_true, groupGiven_eq_true_iff]
  rintro ⟨n, hn, g, hg, hgn, hpresent⟩
  have hgiven : groupGiven (types.fieldsOf id r) given f = false := by
    rw [h.field f hf] at hmissing
    cases hgroup : groupGiven (types.fieldsOf id r) given f with
    | false => rfl
    | true => simp [hgroup] at hmissing
  have hzero : (types.zeroObject room id r).find? g.wireName = none := by
    rw [find?_zeroObject_of_mem hnames.toMembersApart hg, hgn]
    rfl
  have hsame : groupGiven (types.fieldsOf id r) given g = false := by
    rw [← hgiven, groupGiven, groupGiven, hgn, hn]
  rw [h.field g hg, hzero, hsame] at hpresent
  have hgiven' : groupGiven (types.fieldsOf id r) given f = true :=
    groupGiven_eq_true_iff.mpr ⟨n, hn, g, hg, hgn, by simpa using hpresent⟩
  rw [hgiven] at hgiven'
  cases hgiven'

theorem exists_overlayBody_of_forall
    {convert : Ty → Json → String → Except FieldError Json} {fields : List VisibleField}
    {body : Json.Object} {path : String}
    (h : ∀ f ∈ fields, ∃ given, bodyGiven? convert body path f = .ok given)
    (start : Json.Object) : ∃ a, overlayBody convert fields body path start = .ok a := by
  rw [overlayBody_eq_foldlM]
  generalize (⟨start, []⟩ : Assembly) = a
  induction fields generalizing a with
  | nil => exact ⟨a, rfl⟩
  | cons f rest ih =>
      obtain ⟨given, hgiven⟩ := h f (by simp)
      obtain ⟨b, hb⟩ := ih (fun g hg => h g (by simp [hg])) (a.give f given)
      refine ⟨b, ?_⟩
      rw [List.foldlM_cons, hgiven]
      exact hb

/-- An object that was made from a zero object is fixed if its members are. -/
theorem isFixed_record
    {t : Ty} {id : String} {r : Record} (ht : types.shape t.target = .record id r)
    (hnames : NamesUnambiguous r.markerField? (types.fieldsOf id r))
    {room : Nat} {given : VisibleField → Option Json} {members : Json.Object}
    (h : types.Overlaid room (types.fieldsOf id r) given (types.zeroObject room id r) members)
    (hfixed : ∀ f ∈ types.fieldsOf id r, ∀ value, members.find? f.wireName = some value →
      types.IsFixed (room + 1) f.type value) :
    types.IsFixed (room + 2) t (.object members) := by
  intro path
  have hgiven : ∀ f ∈ types.fieldsOf id r,
      bodyGiven? (types.convertAt (room + 1)) members path f = .ok (members.find? f.wireName) := by
    intro f hf
    have hbody := bodyValue?_of_overlaid hnames h hf
    cases hvalue : members.find? f.wireName with
    | none => exact bodyGiven?_of_eq_none (hbody.trans hvalue)
    | some value =>
        rw [bodyGiven?_of_eq_some (hbody.trans hvalue), hfixed f hf value hvalue]
        rfl
  obtain ⟨a, ha⟩ := exists_overlayBody_of_forall (fun f hf => ⟨_, hgiven f hf⟩)
    (types.zeroObject room id r)
  obtain ⟨given', hgiven', hagain⟩ := exists_overlaid_of_overlayBody hnames.nodup ha room
  have hsame : types.completeGroups room (types.fieldsOf id r) a.groups a.target = members := by
    have hstart : (types.zeroObject room id r).Sorted := sorted_zeroObject room id r
    refine (hagain.sorted hstart).ext (h.sorted hstart) fun key => ?_
    by_cases hkey : ∃ f ∈ types.fieldsOf id r, key = f.wireName
    · obtain ⟨f, hf, rfl⟩ := hkey
      have heq : ∀ g ∈ types.fieldsOf id r, given' g = members.find? g.wireName :=
        fun g hg => Except.ok.inj ((hgiven' g hg).symm.trans (hgiven g hg))
      rw [hagain.field f hf, heq f hf]
      cases hvalue : members.find? f.wireName with
      | some value => simp
      | none =>
          have habsent := groupGiven_find?_of_overlaid hnames h hf hvalue
          have hzero : (types.zeroObject room id r).find? f.wireName = none := by
            rw [h.field f hf, Option.or_eq_none_iff, Option.or_eq_none_iff] at hvalue
            exact hvalue.1.2
          rw [groupGiven_congr fun g hg _ _ _ => heq g hg, habsent, hzero]
          rfl
    · have hother : ∀ f ∈ types.fieldsOf id r, key ≠ f.wireName :=
        fun f hf heq => hkey ⟨f, hf, heq⟩
      rw [hagain.other key hother, h.other key hother]
  rw [← hsame] at ha ⊢
  exact (ConvertStep.record ht rfl ha).convertAt_eq

theorem leafOf?_ne_null {shape : Shape} {value : Json} : shape.leafOf? value ≠ some .null := by
  intro h
  have hplain := isPlain_of_leafOf? h
  cases leaf_of_leafOf? h
  cases hplain

theorem isFixed_leaf
    {t : Ty} {leaf : Json} (h : (types.shape t.target).leafOf? leaf = some leaf) (room : Nat) :
    types.IsFixed (room + 1) t leaf := by
  intro path
  have hpresent : IsPresent t leaf := by
    rintro - rfl
    exact leafOf?_ne_null h
  exact (ConvertStep.leaf hpresent h).convertAt_eq

theorem isFixed_sequence
    {t element : Ty} (ht : types.shape t.target = .sequence element) {room : Nat}
    {items : List Json} (hitems : ∀ item ∈ items, types.IsFixed room element item) :
    types.IsFixed (room + 1) t (.array items) := by
  intro path
  refine (ConvertStep.sequence (by rintro - ⟨⟩) ht rfl ?_).convertAt_eq
  generalize 0 = start
  induction items generalizing start with
  | nil => exact .nil
  | cons item rest ih =>
      rw [List.zipIdx_cons]
      exact .cons (hitems item (by simp) _) (ih (fun item hitem => hitems item (by simp [hitem])) _)

theorem isFixed_table
    {t keys values : Ty} (ht : types.shape t.target = .table keys values) {room : Nat}
    {members : Json.Object}
    (hkeys : ∀ entry ∈ members, ∀ path,
      ∃ key, types.convertAt room keys (.string entry.1) path = .ok key)
    (hvalues : ∀ entry ∈ members, types.IsFixed room values entry.2) :
    types.IsFixed (room + 1) t (.object members) := by
  intro path
  refine (ConvertStep.table ht rfl ?_).convertAt_eq
  rw [List.forall₂_same]
  intro entry hentry
  exact ⟨hkeys entry hentry _, hvalues entry hentry _, rfl⟩

/-! ## Zero values -/

theorem leafOf?_zeroAt
    {t : Ty} (hoption : t.isOption = false) (hplain : (types.shape t).isPlain = true)
    (room : Nat) : (types.shape t).leafOf? (types.zeroAt room t) = some (types.zeroAt room t) := by
  have hinner : ∀ inner, types.shape t ≠ .option inner := shape_ne_option hoption
  unfold zeroAt
  generalize types.shape t = shape at hplain hinner
  cases shape with
  | bool => rfl
  | int signed bits =>
      have hfits : Json.fits signed bits 0 = true := fits_of_inRange (inRange_zero signed bits)
      simp [Shape.leafOf?, Json.intOf?, hfits]
  | float bits => rfl
  | text choices => simp [Shape.leafOf?, Json.textOf?, head?_getD_mem]
  | char => rfl
  | time kind => simp [Shape.leafOf?, timeOf?_epoch]
  | option inner => exact absurd rfl (hinner inner)
  | any | marker | record | sequence | table => cases hplain

theorem isFixed_zeroAt_of_ne_record
    {t : Ty} (hrecord : ∀ id r, types.shape t ≠ .record id r) (room : Nat) :
    types.IsFixed (room + 1) t (types.zeroAt room t) := by
  cases hoption : t.isOption with
  | true =>
      rw [zeroAt_of_isOption hoption]
      intro path
      cases t with
      | option inner => exact ConvertStep.absent.convertAt_eq
      | _ => cases hoption
  | false =>
      have htarget : t.target = t := target_eq_of_isOption hoption
      cases hshape : types.shape t with
      | record id r => exact absurd hshape (hrecord id r)
      | any =>
          intro path
          simp only [zeroAt, hshape]
          exact (ConvertStep.any (by simp [IsPresent, hoption])
            (by rw [htarget, hshape])).convertAt_eq
      | marker =>
          intro path
          simp only [zeroAt, hshape]
          exact (ConvertStep.marker (by rintro - ⟨⟩) (by rw [htarget, hshape])).convertAt_eq
      | sequence element =>
          simp only [zeroAt, hshape]
          exact isFixed_sequence (by rw [htarget, hshape]) (by simp)
      | table keys values =>
          simp only [zeroAt, hshape]
          exact isFixed_table (by rw [htarget, hshape]) (by simp) (by simp)
      | bool | int | float | text | char | time | option =>
          exact isFixed_leaf (by
            rw [htarget]
            exact leafOf?_zeroAt hoption (by rw [hshape]; rfl) room) room

theorem overlaid_none
    (room : Nat) (fields : List VisibleField) (start : Json.Object) :
    types.Overlaid room fields (fun _ => none) start start where
  field := by simp [groupGiven]
  other := fun _ _ => rfl
  sorted := id

/-- A zero value is fixed down to the records that are cut off. -/
theorem isFixed_zeroAt
    (room : Nat) {t : Ty} (hnames : types.HasUnambiguousNames t)
    (hdepth : (types.zeroAt room t).depth ≤ room) :
    types.IsFixed (room + 1) t (types.zeroAt room t) := by
  induction room generalizing t with
  | zero =>
      apply isFixed_zeroAt_of_ne_record
      intro id r hshape
      simp [zeroAt, hshape, Json.empty, Json.depth] at hdepth
  | succ room ih =>
      by_cases hrecord : ∃ id r, types.shape t = .record id r
      · obtain ⟨id, r, hshape⟩ := hrecord
        have hoption : t.isOption = false := by
          cases t with
          | option inner => cases hshape
          | _ => rfl
        have ht : types.shape t.target = .record id r := by
          rw [target_eq_of_isOption hoption, hshape]
        have hzero : types.zeroAt (room + 1) t = .object (types.zeroObject room id r) := by
          rw [zeroAt]
          simp only [hshape]
          rfl
        rw [hzero] at hdepth ⊢
        refine isFixed_record ht (hnames.record ht) (overlaid_none _ _ _) ?_
        intro f hf value hvalue
        have hlt := Json.depth_lt_of_mem_members (Members.mem_of_find?_eq_some hvalue)
        rw [find?_zeroObject_of_mem (hnames.record ht).toMembersApart hf] at hvalue
        split at hvalue
        · cases hvalue
        · obtain rfl := Option.some.inj hvalue
          exact ih (hnames.component (.field ht hf)) (by omega)
      · exact isFixed_zeroAt_of_ne_record (fun id r hshape => hrecord ⟨id, r, hshape⟩) _

/-! ## Converted values -/

/-- Where a value of a type holds the text of a moment with an offset. -/
inductive HoldsDateTime (types : TypeTable) : Ty → Json → String → Prop
  | here {t : Ty} {s : String} (ht : types.shape t.target = .time .dateTime) :
      HoldsDateTime types t (.string s) s
  | field {t : Ty} {id : String} {r : Record} {members : Json.Object} {s : String}
      (ht : types.shape t.target = .record id r) {f : VisibleField}
      (hf : f ∈ types.fieldsOf id r) {value : Json} (hvalue : (f.wireName, value) ∈ members)
      (hinner : HoldsDateTime types f.type value s) : HoldsDateTime types t (.object members) s
  | element {t element : Ty} {items : List Json} {s : String}
      (ht : types.shape t.target = .sequence element) {item : Json} (hitem : item ∈ items)
      (hinner : HoldsDateTime types element item s) : HoldsDateTime types t (.array items) s
  | value {t keys values : Ty} {members : Json.Object} {s : String}
      (ht : types.shape t.target = .table keys values) {entry : String × Json}
      (hentry : entry ∈ members) (hinner : HoldsDateTime types values entry.2 s) :
      HoldsDateTime types t (.object members) s

/-- What a conversion gives is fixed, down to the room it had. -/
theorem isFixed_of_convertAt
    {room : Nat} {t : Ty} (hnames : types.HasUnambiguousNames t) {value result : Json}
    {path : String} (h : types.convertAt room t value path = .ok result)
    (hdepth : result.depth < room)
    (hyears : ∀ s, types.HoldsDateTime t result s → HasFourDigitYear s) :
    types.IsFixed room t result := by
  induction room generalizing t value result path with
  | zero => cases h
  | succ room ih =>
      cases convertStep_of_convertAt h with
      | absent => exact fun path => ConvertStep.absent.convertAt_eq
      | any hpresent ht => exact fun path => (ConvertStep.any hpresent ht).convertAt_eq
      | marker hpresent ht =>
          exact fun path => (ConvertStep.marker (by rintro - ⟨⟩) ht).convertAt_eq
      | zeroRecord hpresent ht =>
          rw [target_eq_of_isOption (isOption_eq_false hpresent)] at hdepth ⊢
          exact isFixed_zeroAt room hnames (by omega)
      | @record _ _ id r body a ht hbody ha =>
          cases room with
          | zero =>
              rw [Json.depth] at hdepth
              omega
          | succ room =>
              obtain ⟨given, hgiven, hoverlaid⟩ :=
                exists_overlaid_of_overlayBody (hnames.record ht).nodup ha room
              refine isFixed_record ht (hnames.record ht) hoverlaid ?_
              intro f hf w hw
              have hmem := Members.mem_of_find?_eq_some hw
              have hlt := Json.depth_lt_of_mem_members hmem
              have hfield := hnames.component (.field ht hf)
              rcases hoverlaid.given_or_zeroAt (hnames.record ht).toMembersApart hf hw with
                hsome | rfl
              · obtain ⟨raw, -, hraw⟩ := convert_of_bodyGiven? ((hgiven f hf).trans (by rw [hsome]))
                exact ih hfield hraw (by omega) fun s hs => hyears s (.field ht hf hmem hs)
              · exact isFixed_zeroAt room hfield (by omega)
      | sequence hpresent ht hitems hresults =>
          refine isFixed_sequence ht ?_
          intro item hitem
          obtain ⟨entry, -, hentry⟩ := Results.exists_left_of_forall₂ hresults hitem
          have hlt := Json.depth_lt_of_mem_items hitem
          exact ih (hnames.component (.element ht)) hentry (by omega)
            fun s hs => hyears s (.element ht hitem hs)
      | emptyTable hpresent ht => exact isFixed_table ht (by simp) (by simp)
      | table ht hmembers hresults =>
          refine isFixed_table ht ?_ ?_
          · intro entry hentry path'
            obtain ⟨_, -, ⟨key, hkey⟩, -, hname⟩ := Results.exists_left_of_forall₂ hresults hentry
            rw [hname]
            exact exists_convertAt_of_le (Nat.le_refl _) hkey path'
          · intro entry hentry
            obtain ⟨_, -, -, hitem, -⟩ := Results.exists_left_of_forall₂ hresults hentry
            have hlt := Json.depth_lt_of_mem_members hentry
            exact ih (hnames.component (.value ht)) hitem (by omega)
              fun s hs => hyears s (.value ht hentry hs)
      | leaf hpresent hresult =>
          refine isFixed_leaf (leafOf?_leafOf? hresult ?_) room
          rintro s ht rfl
          exact hyears s (.here ht)

/-- What a conversion gives is given again for it, wherever it occurs, as long as it nests no deeper
than zero values do, names mean one field in all records that the type reaches, and the years of its
moments have four digits. -/
theorem convert_projects
    {t : Ty} (hnames : types.HasUnambiguousNames t) {value result : Json} {path : String}
    (h : types.convert t value path = .ok result) (hdepth : result.depth ≤ maxDepth)
    (hyears : ∀ s, types.HoldsDateTime t result s → HasFourDigitYear s) (path' : String) :
    types.convert t result path' = .ok result :=
  isFixed_of_convertAt hnames h (by omega) hyears path'

/-- A year of five digits is written with a sign, and with an offset a sign is not read. -/
example :
    (Json.string "+12345-01-31 08:00:00").timeOf? .dateTime = some "+12345-01-31T08:00:00Z" ∧
      (Json.string "+12345-01-31T08:00:00Z").timeOf? .dateTime = none := by
  decide +kernel

/-! ## A meeting in a room -/

/-- A meeting, with the room it takes place in if there is one. -/
def meeting : Record where
  name := "Meeting"
  fields := [⟨"at", "at", .time .dateTime, "p:\"when\"", none, false, false⟩,
    ⟨"seats", "seats", .scalar (.uint .w8), "", none, false, false⟩,
    ⟨"tags", "tags", .sequence .list (.scalar .string), "", none, false, false⟩,
    ⟨"room", "room", .option (.named "Room"), "", none, true, false⟩]
  doc := none

/-- The types of a meeting. -/
def meetingTypes : TypeTable :=
  ⟨[("Meeting", .record meeting), ("Room", .record ⟨"Room",
    [⟨"floor", "floor", .scalar (.int .w8), "", none, false, false⟩,
      ⟨"name", "name", .scalar .string, "", none, false, false⟩], none⟩)]⟩

theorem shape_meeting :
    meetingTypes.shape (Ty.named "Meeting").target = .record "Meeting" meeting := by
  simp [meetingTypes, shape, find?, Ty.target]

theorem meeting_hasUnambiguousNames : meetingTypes.HasUnambiguousNames (.named "Meeting") := by
  intro u hu id r ht
  have hreached : u ∈ [.named "Meeting", .time .dateTime, .scalar (.uint .w8),
      .sequence .list (.scalar .string), .scalar (.int .w8), .scalar .string] :=
    mem_of_reached hu (by decide) (by decide +kernel)
  simp only [List.mem_cons, List.not_mem_nil, or_false] at hreached
  rcases hreached with rfl | rfl | rfl | rfl | rfl | rfl
  · obtain ⟨rfl, rfl⟩ := Shape.record.inj (shape_meeting.symm.trans ht)
    exact ⟨⟨by decide +kernel, by decide +kernel⟩, by decide +kernel, by decide +kernel⟩
  all_goals cases ht

/-- The meeting that an input in loose form is converted to. -/
def convertedMeeting : Json :=
  .object [("at", .string "2024-05-01T10:30:00Z"), ("floor", .int 3), ("name", .string ""),
    ("seats", .int 12), ("tags", .array [.string "weekly"])]

theorem wireNames_meeting :
    (meetingTypes.fieldsOf "Meeting" meeting).map (fun f => (f.wireName, f.type)) =
      [("at", .time .dateTime), ("seats", .scalar (.uint .w8)),
        ("tags", .sequence .list (.scalar .string)), ("floor", .scalar (.int .w8)),
        ("name", .scalar .string)] := by
  decide +kernel

theorem eq_of_holdsDateTime_meeting
    {s : String} (h : meetingTypes.HoldsDateTime (.named "Meeting") convertedMeeting s) :
    s = "2024-05-01T10:30:00Z" := by
  cases h with
  | value ht => cases shape_meeting.symm.trans ht
  | @field _ _ _ _ _ ht f hf value hvalue hinner =>
      obtain ⟨rfl, rfl⟩ := Shape.record.inj (shape_meeting.symm.trans ht)
      have hpair := List.mem_map_of_mem (f := fun f => (f.wireName, f.type)) hf
      rw [wireNames_meeting] at hpair
      simp only [List.mem_cons, Prod.mk.injEq, List.not_mem_nil, or_false] at hpair hvalue
      rcases hpair with ⟨hname, htype⟩ | ⟨hname, htype⟩ | ⟨hname, htype⟩ | ⟨hname, htype⟩ |
        ⟨hname, htype⟩
      all_goals
        simp only [hname, String.reduceEq, false_and, true_and, false_or, or_false] at hvalue
      all_goals rw [htype, hvalue] at hinner
      · cases hinner
        rfl
      · cases hinner
      · cases hinner with
        | element ht hitem hinner =>
            obtain rfl := List.mem_singleton.mp hitem
            cases hinner with
            | here ht' => cases ht; cases ht'
      · cases hinner
      · cases hinner with
        | here ht => cases ht

/-- A time without an offset, a number in a text, a single tag and half a room. -/
theorem convert_projects_meeting :
    meetingTypes.convert (.named "Meeting") (.object [("floor", .int 3), ("seats", .string " 12 "),
        ("tags", .string "weekly"), ("when", .string "2024-05-01 10:30:00")]) "" =
        .ok convertedMeeting ∧
      meetingTypes.convert (.named "Meeting") convertedMeeting "" = .ok convertedMeeting := by
  have h : meetingTypes.convert (.named "Meeting") (.object [("floor", .int 3),
      ("seats", .string " 12 "), ("tags", .string "weekly"),
      ("when", .string "2024-05-01 10:30:00")]) "" = .ok convertedMeeting := rfl
  exact ⟨h, convert_projects meeting_hasUnambiguousNames h (by decide)
    (fun s hs => eq_of_holdsDateTime_meeting hs ▸ by decide +kernel) ""⟩

end TypeTable
end TypedRoutes
