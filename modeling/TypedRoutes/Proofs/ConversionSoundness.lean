import TypedRoutes.Proofs.ObjectAssembly

/-!
# Conversion gives values of the type

A conversion is opened one layer at a time by `ConvertStep`.  From it follow by induction on the
remaining room that more room never hurts, and that what comes out of a conversion conforms to the
type, down to the depth at which records in zero values are cut off.
-/

namespace TypedRoutes

/-! ## Values without components -/

theorem intPow_two
    (k : Nat) : Int.pow 2 k = 2 ^ k := rfl

theorem inRange_of_fits
    {signed : Bool} {bits : Nat} {n : Int} (h : Json.fits signed bits n = true) :
    InRange signed bits n := by
  cases signed with
  | true =>
      have hbounds : -(2 ^ (bits - 1)) ≤ n ∧ n ≤ 2 ^ (bits - 1) - 1 := by
        simpa [Json.fits, intPow_two] using h
      exact ⟨hbounds.1, by omega⟩
  | false =>
      have hbounds : 0 ≤ n ∧ n ≤ 2 ^ bits - 1 := by
        simpa [Json.fits, intPow_two] using h
      exact ⟨hbounds.1, by omega⟩

theorem fits_of_inRange
    {signed : Bool} {bits : Nat} {n : Int} (h : InRange signed bits n) :
    Json.fits signed bits n = true := by
  cases signed with
  | true =>
      have hbounds : -(2 ^ (bits - 1)) ≤ n ∧ n < 2 ^ (bits - 1) := h
      have hfits : -(2 ^ (bits - 1)) ≤ n ∧ n ≤ 2 ^ (bits - 1) - 1 := ⟨hbounds.1, by omega⟩
      simpa [Json.fits, intPow_two] using hfits
  | false =>
      have hbounds : 0 ≤ n ∧ n < 2 ^ bits := h
      have hfits : 0 ≤ n ∧ n ≤ 2 ^ bits - 1 := ⟨hbounds.1, by omega⟩
      simpa [Json.fits, intPow_two] using hfits

theorem isText_epoch (kind : TimeKind) : kind.IsText kind.epoch := by
  cases kind with
  | dateTime => exact .inl ⟨⟨0, 0, 0⟩, by decide⟩
  | naiveDateTime => exact ⟨⟨0, 0, 0⟩, by decide⟩
  | date => exact ⟨⟨0, 0, 0⟩, by decide⟩

theorem isText_of_timeOf?
    {kind : TimeKind} {value : Json} {s : String} (h : value.timeOf? kind = some s) :
    kind.IsText s := by
  by_cases hnull : value = .null
  · subst hnull
    obtain rfl : kind.epoch = s := Option.some.inj h
    exact isText_epoch kind
  · have hmoment : ∃ m, value.momentOf? = some m := by
      cases hm : value.momentOf? with
      | none => simp [Json.timeOf?, hm] at h
      | some m => exact ⟨m, rfl⟩
    obtain ⟨m, hm⟩ := hmoment
    cases kind with
    | naiveDateTime => exact ⟨m, by simpa [Json.timeOf?, hm, eq_comm] using h⟩
    | date => exact ⟨m, by simpa [Json.timeOf?, hm, eq_comm] using h⟩
    | dateTime =>
        cases value with
        | null => exact absurd rfl hnull
        | string text =>
            by_cases hkept : (Moment.ofRfc3339? (Text.strip Text.isBlank text.toList)).isSome
            · right
              obtain rfl : Text.trim text = s := by simpa [Json.timeOf?, hm, hkept] using h
              rwa [Text.trim, String.toList_ofList]
            · left
              exact ⟨m, by simpa [Json.timeOf?, hm, hkept, eq_comm] using h⟩
        | _ =>
            left
            exact ⟨m, by simpa [Json.timeOf?, hm, eq_comm] using h⟩

theorem exists_char_of_charOf?
    {value : Json} {s : String} (h : value.charOf? = some s) : ∃ c, s = String.ofList [c] := by
  unfold Json.charOf? at h
  split at h
  · cases h
  · split at h
    · rename_i c _
      exact ⟨c, (Option.some.inj h).symm⟩
    · cases h

theorem head?_getD_mem
    (choices : List String) : choices = [] ∨ choices.head?.getD "" ∈ choices := by
  cases choices with
  | nil => exact .inl rfl
  | cons s rest => exact .inr (by simp)

/-- A converted value without components is one of its shape. -/
theorem leaf_of_leafOf?
    {shape : Shape} {value leaf : Json} (h : shape.leafOf? value = some leaf) :
    shape.Leaf leaf := by
  cases shape with
  | bool =>
      obtain ⟨b, _, rfl⟩ := Option.map_eq_some_iff.mp h
      exact .bool b
  | int signed bits =>
      obtain ⟨n, hn, rfl⟩ := Option.map_eq_some_iff.mp h
      exact .int (inRange_of_fits (Option.filter_eq_some_iff.mp hn).2)
  | float bits =>
      obtain ⟨x, hx, rfl⟩ := Option.map_eq_some_iff.mp h
      exact .float (Option.filter_eq_some_iff.mp hx).2
  | text choices =>
      by_cases hnull : value = .null
      · subst hnull
        obtain rfl : Json.string (choices.head?.getD "") = leaf := Option.some.inj h
        exact .text (head?_getD_mem choices)
      · have htext : (value.textOf?.filter fun s =>
            choices.isEmpty || choices.contains s).map Json.string = some leaf := by
          cases value <;> first | exact absurd rfl hnull | exact h
        obtain ⟨s, hs, rfl⟩ := Option.map_eq_some_iff.mp htext
        exact .text (by simpa using (Option.filter_eq_some_iff.mp hs).2)
  | char =>
      obtain ⟨s, hs, rfl⟩ := Option.map_eq_some_iff.mp h
      obtain ⟨c, rfl⟩ := exists_char_of_charOf? hs
      exact .char c
  | time kind =>
      obtain ⟨s, hs, rfl⟩ := Option.map_eq_some_iff.mp h
      exact .time (isText_of_timeOf? hs)
  | any => cases h
  | marker => cases h
  | record id r => cases h
  | sequence element => cases h
  | table keys values => cases h
  | option inner => cases h

/-- Whether the values of a shape are those that `leafOf?` gives. -/
def Shape.isPlain : Shape → Bool
  | .bool | .int _ _ | .float _ | .text _ | .char | .time _ | .option _ => true
  | .any | .marker | .record _ _ | .sequence _ | .table _ _ => false

theorem isPlain_of_leafOf?
    {shape : Shape} {value leaf : Json} (h : shape.leafOf? value = some leaf) :
    shape.isPlain = true := by
  cases shape with
  | any | marker | record | sequence | table => cases h
  | bool | int | float | text | char | time | option => rfl

namespace TypeTable

variable {types : TypeTable}

/-! ## Zero values -/

theorem target_eq_of_isOption
    {t : Ty} (h : t.isOption = false) : t.target = t := by
  cases t with
  | option inner => cases h
  | _ => rfl

theorem shape_ne_option
    {t : Ty} (h : t.isOption = false) (inner : Ty) : types.shape t ≠ .option inner := by
  intro hshape
  cases t with
  | option inner => cases h
  | scalar kind =>
      rw [shape] at hshape
      cases kind <;> simp [Scalar.shape] at hshape
  | named name =>
      rw [shape] at hshape
      split at hshape <;> cases hshape
  | time | value | unit | marker | sequence | table => simp [shape] at hshape

theorem inRange_zero
    (signed : Bool) (bits : Nat) : InRange signed bits 0 := by
  cases signed with
  | true =>
      have hpos : (0 : Int) < 2 ^ (bits - 1) := Int.pow_pos (by decide)
      exact ⟨by omega, by omega⟩
  | false =>
      have hpos : (0 : Int) < 2 ^ bits := Int.pow_pos (by decide)
      exact ⟨by omega, by omega⟩

theorem HasNamesApart.target
    {t : Ty} (h : types.HasNamesApart t) : types.HasNamesApart t.target := by
  intro u hu
  rcases Relation.ReflTransGen.cases_head hu with rfl | ⟨v, hv, hrest⟩
  · intro id r hshape
    rw [Ty.target_target] at hshape
    exact h t .refl id r hshape
  · have hcomponent : types.Component t v := by
      generalize htarget : t.target = w at hv
      have hidem : w.target = w := by rw [← htarget, Ty.target_target]
      cases hv with
      | field ht hf => exact .field (by rwa [htarget, ← hidem]) hf
      | element ht => exact .element (by rwa [htarget, ← hidem])
      | value ht => exact .value (by rwa [htarget, ← hidem])
    exact h u (.head hcomponent hrest)

theorem zeroAt_of_isOption
    {t : Ty} (h : t.isOption = true) (room : Nat) : types.zeroAt room t = .null := by
  cases t with
  | option inner => simp only [zeroAt, shape]
  | _ => cases h

/-- The zero value of a type without components is one of its shape. -/
theorem leaf_zeroAt
    {t : Ty} (hoption : t.isOption = false) (hrecord : ∀ id r, types.shape t ≠ .record id r)
    (hsequence : ∀ element, types.shape t ≠ .sequence element)
    (htable : ∀ keys values, types.shape t ≠ .table keys values) (room : Nat) :
    (types.shape t).Leaf (types.zeroAt room t) := by
  have hinner : ∀ inner, types.shape t ≠ .option inner := shape_ne_option hoption
  unfold zeroAt
  generalize types.shape t = shape at hrecord hsequence htable hinner
  cases shape with
  | record id r => exact absurd rfl (hrecord id r)
  | sequence element => exact absurd rfl (hsequence element)
  | table keys values => exact absurd rfl (htable keys values)
  | option inner => exact absurd rfl (hinner inner)
  | bool => exact .bool false
  | int signed bits => exact .int (inRange_zero signed bits)
  | float bits => exact .float rfl
  | text choices => exact .text (head?_getD_mem choices)
  | char => exact .char '\x00'
  | time kind => exact .time (isText_epoch kind)
  | any => exact .any .null
  | marker => exact .marker

/-- A zero value conforms down to the records that are cut off. -/
theorem conformsTo_zeroAt
    (room : Nat) {t : Ty} (hapart : types.HasNamesApart t) :
    types.ConformsTo room t (types.zeroAt room t) := by
  induction room generalizing t with
  | zero => trivial
  | succ room ih =>
      rw [ConformsTo]
      cases hoption : t.isOption with
      | true =>
          rw [zeroAt_of_isOption hoption]
          cases t with
          | option inner => exact .absent
          | _ => cases hoption
      | false =>
          have htarget : t.target = t := target_eq_of_isOption hoption
          cases hshape : types.shape t with
          | record id r =>
              have ht : types.shape t.target = .record id r := by rw [htarget, hshape]
              have hcomplete := isComplete_zeroObjectWith (hapart.record ht)
                fun f hf => ih (hapart.component (.field ht hf))
              simp only [zeroAt, hshape]
              exact .record ht hcomplete.toIsRecord hcomplete.values
          | sequence element =>
              simp only [zeroAt, hshape]
              exact .sequence (by rw [htarget, hshape]) (by simp)
          | table keys values =>
              simp only [zeroAt, hshape]
              exact .table (by rw [htarget, hshape]) (by simp) (by simp)
          | _ =>
              exact .leaf (by
                rw [htarget]
                exact leaf_zeroAt hoption (by simp [hshape]) (by simp [hshape]) (by simp [hshape])
                  (room + 1))

/-! ## One layer of a conversion -/

/-- A value that is not left out. -/
def IsPresent (t : Ty) (value : Json) : Prop :=
  t.isOption = true → value ≠ .null

theorem isOption_eq_false
    {t : Ty} (hpresent : IsPresent t .null) : t.isOption = false := by
  cases hoption : t.isOption with
  | false => rfl
  | true => exact absurd rfl (hpresent hoption)

theorem convertAt_eq_ok_iff_of_isPlain
    {room : Nat} {t : Ty} {value result : Json} {path : String} (hpresent : IsPresent t value)
    (hplain : (types.shape t.target).isPlain = true) :
    types.convertAt (room + 1) t value path = .ok result ↔
      (types.shape t.target).leafOf? value = some result := by
  by_cases hnull : value = .null
  · subst hnull
    rw [convertAt]
    simp only [isOption_eq_false hpresent, Bool.false_and, Bool.false_eq_true, if_false]
    generalize types.shape t.target = shape at hplain
    cases hleaf : shape.leafOf? .null with
    | none => cases shape <;> simp_all [Shape.isPlain]
    | some leaf => cases shape <;> simp_all [Shape.isPlain]
  · rw [convertAt.eq_3 _ _ _ _ _ hnull]
    simp only [Bool.and_false, Bool.false_eq_true, if_false]
    generalize types.shape t.target = shape at hplain
    cases hleaf : shape.leafOf? value with
    | none => cases shape <;> simp_all [Shape.isPlain]
    | some leaf => cases shape <;> simp_all [Shape.isPlain]

/-- What converting a value does at the outermost layer of its type. -/
inductive ConvertStep (types : TypeTable) (room : Nat) (path : String) : Ty → Json → Json → Prop
  | absent {inner : Ty} : ConvertStep types room path (.option inner) .null .null
  | any {t : Ty} {value : Json} (hpresent : IsPresent t value)
      (ht : types.shape t.target = .any) : ConvertStep types room path t value value
  | marker {t : Ty} {value : Json} (hpresent : IsPresent t value)
      (ht : types.shape t.target = .marker) : ConvertStep types room path t value Json.empty
  | zeroRecord {t : Ty} {id : String} {r : Record} (hpresent : IsPresent t .null)
      (ht : types.shape t.target = .record id r) :
      ConvertStep types room path t .null (types.zeroAt room t.target)
  | record {t : Ty} {value : Json} {id : String} {r : Record} {body : Json.Object} {a : Assembly}
      (ht : types.shape t.target = .record id r) (hbody : value.objectOf? = some body)
      (ha : overlayBody (types.convertAt room) (types.fieldsOf id r) body path
        (types.zeroObject (room - 1) id r) = .ok a) :
      ConvertStep types room path t value
        (.object (types.completeGroups (room - 1) (types.fieldsOf id r) a.groups a.target))
  | sequence {t element : Ty} {value : Json} {items results : List Json}
      (hpresent : IsPresent t value) (ht : types.shape t.target = .sequence element)
      (hitems : value.itemsOf? = some items)
      (hresults : List.Forall₂ (fun (entry : Json × Nat) result =>
          types.convertAt room element entry.1 (indexed path (toString entry.2)) = .ok result)
        items.zipIdx results) :
      ConvertStep types room path t value (.array results)
  | emptyTable {t keys values : Ty} (hpresent : IsPresent t .null)
      (ht : types.shape t.target = .table keys values) :
      ConvertStep types room path t .null Json.empty
  | table {t keys values : Ty} {value : Json} {members results : Json.Object}
      (ht : types.shape t.target = .table keys values) (hmembers : value.objectOf? = some members)
      (hresults : List.Forall₂ (fun (entry result : String × Json) =>
          (∃ key, types.convertAt room keys (.string entry.1) (indexed path entry.1) = .ok key) ∧
            types.convertAt room values entry.2 (indexed path entry.1) = .ok result.2 ∧
            result.1 = entry.1)
        members results) :
      ConvertStep types room path t value (.object results)
  | leaf {t : Ty} {value result : Json} (hpresent : IsPresent t value)
      (hresult : (types.shape t.target).leafOf? value = some result) :
      ConvertStep types room path t value result

theorem convertStep_of_convertAt_null
    {room : Nat} {t : Ty} {result : Json} {path : String}
    (h : types.convertAt (room + 1) t .null path = .ok result) :
    ConvertStep types room path t .null result := by
  cases hoption : t.isOption with
  | true =>
      rw [convertAt] at h
      obtain rfl : Json.null = result := by simpa [hoption] using h
      cases t with
      | option inner => exact .absent
      | _ => cases hoption
  | false =>
      have hpresent : IsPresent t .null := by simp [IsPresent, hoption]
      have hleaf := fun hplain => (convertAt_eq_ok_iff_of_isPlain hpresent hplain).mp h
      rw [convertAt] at h
      simp only [hoption, Bool.false_and, Bool.false_eq_true, if_false] at h
      cases hshape : types.shape t.target with
      | any =>
          simp only [hshape] at h
          obtain rfl := Except.ok.inj h
          exact .any hpresent hshape
      | marker =>
          simp only [hshape] at h
          obtain rfl := Except.ok.inj h
          exact .marker hpresent hshape
      | record id r =>
          simp only [hshape] at h
          obtain rfl := Except.ok.inj h
          exact .zeroRecord hpresent hshape
      | sequence element =>
          simp only [hshape] at h
          obtain rfl := Except.ok.inj h
          exact .sequence hpresent hshape rfl .nil
      | table keys values =>
          simp only [hshape] at h
          obtain rfl := Except.ok.inj h
          exact .emptyTable hpresent hshape
      | bool | int | float | text | char | time | option =>
          exact .leaf hpresent (hleaf (by rw [hshape]; rfl))

theorem convertStep_of_convertAt
    {room : Nat} {t : Ty} {value result : Json} {path : String}
    (h : types.convertAt (room + 1) t value path = .ok result) :
    ConvertStep types room path t value result := by
  by_cases hnull : value = .null
  · subst hnull
    exact convertStep_of_convertAt_null h
  · have hpresent : IsPresent t value := fun _ => hnull
    have hleaf := fun hplain => (convertAt_eq_ok_iff_of_isPlain hpresent hplain).mp h
    rw [convertAt.eq_3 _ _ _ _ _ hnull] at h
    simp only [Bool.and_false, Bool.false_eq_true, if_false] at h
    cases hshape : types.shape t.target with
    | any =>
        simp only [hshape] at h
        obtain rfl := Except.ok.inj h
        exact .any hpresent hshape
    | marker =>
        simp only [hshape] at h
        obtain rfl := Except.ok.inj h
        exact .marker hpresent hshape
    | record id r =>
        simp only [hshape] at h
        cases hbody : value.objectOf? with
        | none => simp [hbody] at h
        | some body =>
            simp only [hbody] at h
            obtain ⟨a, ha, hresult⟩ := Results.bind_eq_ok_iff.mp h
            obtain rfl := Except.ok.inj hresult
            exact .record hshape hbody ha
    | sequence element =>
        simp only [hshape] at h
        cases hitems : value.itemsOf? with
        | none => simp [hitems] at h
        | some items =>
            simp only [hitems] at h
            obtain ⟨results, hresults, hresult⟩ := Results.bind_eq_ok_iff.mp h
            obtain rfl := Except.ok.inj hresult
            exact .sequence hpresent hshape hitems (Results.mapM_eq_ok_iff.mp hresults)
    | table keys values =>
        simp only [hshape] at h
        cases hmembers : value.objectOf? with
        | none => simp [hmembers] at h
        | some members =>
            simp only [hmembers] at h
            obtain ⟨results, hresults, hresult⟩ := Results.bind_eq_ok_iff.mp h
            obtain rfl := Except.ok.inj hresult
            refine .table hshape hmembers ?_
            refine (Results.mapM_eq_ok_iff.mp hresults).imp ?_
            intro entry result hentry
            obtain ⟨key, hkey, hentry⟩ := Results.bind_eq_ok_iff.mp hentry
            obtain ⟨item, hitem, hentry⟩ := Results.bind_eq_ok_iff.mp hentry
            obtain rfl := Except.ok.inj hentry
            exact ⟨⟨key, hkey⟩, hitem, rfl⟩
    | bool | int | float | text | char | time | option =>
        exact .leaf hpresent (hleaf (by rw [hshape]; rfl))

theorem ConvertStep.convertAt_null_eq
    {room : Nat} {t : Ty} {result : Json} {path : String}
    (h : ConvertStep types room path t .null result) :
    types.convertAt (room + 1) t .null path = .ok result := by
  cases h with
  | absent => simp [convertAt, Ty.isOption]
  | any hpresent ht => simp [convertAt, isOption_eq_false hpresent, ht]
  | marker hpresent ht => simp [convertAt, isOption_eq_false hpresent, ht]
  | zeroRecord hpresent ht => simp [convertAt, isOption_eq_false hpresent, ht]
  | record ht hbody ha => cases hbody
  | sequence hpresent ht hitems hresults =>
      obtain rfl := Option.some.inj hitems
      cases hresults
      simp [convertAt, isOption_eq_false hpresent, ht, Json.itemsOf?]
  | emptyTable hpresent ht => simp [convertAt, isOption_eq_false hpresent, ht]
  | table ht hmembers hresults => cases hmembers
  | leaf hpresent hresult =>
      exact (convertAt_eq_ok_iff_of_isPlain hpresent (isPlain_of_leafOf? hresult)).mpr hresult

theorem ConvertStep.convertAt_eq
    {room : Nat} {t : Ty} {value result : Json} {path : String}
    (h : ConvertStep types room path t value result) :
    types.convertAt (room + 1) t value path = .ok result := by
  by_cases hnull : value = .null
  · subst hnull
    exact h.convertAt_null_eq
  · have hopened := convertAt.eq_3 types t value path room hnull
    simp only [Bool.and_false, Bool.false_eq_true, if_false] at hopened
    cases h with
    | absent => exact absurd rfl hnull
    | any hpresent ht => simp [hopened, ht]
    | marker hpresent ht => simp [hopened, ht]
    | zeroRecord hpresent ht => exact absurd rfl hnull
    | record ht hbody ha =>
        simp only [hopened, ht, hbody, ha]
        rfl
    | sequence hpresent ht hitems hresults =>
        have hmapM := Results.mapM_eq_ok_iff.mpr hresults
        simp only [hopened, ht, hitems, hmapM]
        rfl
    | emptyTable hpresent ht => exact absurd rfl hnull
    | table ht hmembers hresults =>
        simp only [hopened, ht, hmembers]
        rw [Results.bind_eq_ok_iff]
        refine ⟨_, Results.mapM_eq_ok_iff.mpr (hresults.imp ?_), rfl⟩
        rintro entry ⟨name, item⟩ ⟨⟨key, hkey⟩, hitem, rfl⟩
        rw [hkey, hitem]
        rfl
    | leaf hpresent hresult =>
        exact (convertAt_eq_ok_iff_of_isPlain hpresent (isPlain_of_leafOf? hresult)).mpr hresult

/-! ## More room -/

/-- A body can be put into one object if it can be into another. -/
theorem exists_overlayBody
    {convert convert' : Ty → Json → String → Except FieldError Json}
    (hconvert : ∀ t raw path path' value, convert t raw path = .ok value →
      ∃ value', convert' t raw path' = .ok value')
    {fields : List VisibleField} {body start : Json.Object} {path : String} {a : Assembly}
    (h : overlayBody convert fields body path start = .ok a) (start' : Json.Object)
    (path' : String) : ∃ a', overlayBody convert' fields body path' start' = .ok a' := by
  have hgiven? : ∀ f given, bodyGiven? convert body path f = .ok given →
      ∃ given', bodyGiven? convert' body path' f = .ok given' := by
    intro f given hgiven
    cases hraw : bodyValue? body f with
    | none => exact ⟨none, bodyGiven?_of_eq_none hraw⟩
    | some raw =>
        rw [bodyGiven?_of_eq_some hraw] at hgiven ⊢
        obtain ⟨value, hvalue, -⟩ := Results.map_eq_ok_iff.mp hgiven
        obtain ⟨value', hvalue'⟩ := hconvert _ _ _ (memberPath path' f.lookupName) _ hvalue
        exact ⟨some value', Results.map_eq_ok_iff.mpr ⟨value', hvalue', rfl⟩⟩
  rw [overlayBody_eq_foldlM] at h ⊢
  generalize (⟨start, []⟩ : Assembly) = b at h
  generalize (⟨start', []⟩ : Assembly) = b'
  induction fields generalizing b b' with
  | nil => exact ⟨b', rfl⟩
  | cons f rest ih =>
      rw [List.foldlM_cons] at h ⊢
      obtain ⟨next, hnext, hrest⟩ := Results.bind_eq_ok_iff.mp h
      obtain ⟨given, hgiven, rfl⟩ := Results.map_eq_ok_iff.mp hnext
      obtain ⟨given', hgiven'⟩ := hgiven? f given hgiven
      obtain ⟨a', ha'⟩ := ih _ hrest (b'.give f given')
      have hnext' : (bodyGiven? convert' body path' f).map (b'.give f) = .ok (b'.give f given') :=
        Results.map_eq_ok_iff.mpr ⟨given', hgiven', rfl⟩
      exact ⟨a', Results.bind_eq_ok_iff.mpr ⟨_, hnext', ha'⟩⟩

/-- What can be converted can be converted with more room, wherever it occurs. -/
theorem exists_convertAt_of_le
    {room room' : Nat} (hle : room ≤ room') {t : Ty} {value result : Json} {path : String}
    (h : types.convertAt room t value path = .ok result) (path' : String) :
    ∃ result', types.convertAt room' t value path' = .ok result' := by
  induction room generalizing room' t value result path path' with
  | zero => cases h
  | succ room ih =>
      obtain ⟨room', rfl⟩ : ∃ n, room' = n + 1 := ⟨room' - 1, by omega⟩
      have hconvert : ∀ u raw path path' w, types.convertAt room u raw path = .ok w →
          ∃ w', types.convertAt room' u raw path' = .ok w' :=
        fun u raw path path' w hw => ih (by omega) hw path'
      have hstep : ∃ result', ConvertStep types room' path' t value result' := by
        cases convertStep_of_convertAt h with
        | absent => exact ⟨_, .absent⟩
        | any hpresent ht => exact ⟨_, .any hpresent ht⟩
        | marker hpresent ht => exact ⟨_, .marker hpresent ht⟩
        | zeroRecord hpresent ht => exact ⟨_, .zeroRecord hpresent ht⟩
        | @record _ _ id r _ _ ht hbody ha =>
            obtain ⟨a', ha'⟩ :=
              exists_overlayBody hconvert ha (types.zeroObject (room' - 1) id r) path'
            exact ⟨_, .record ht hbody ha'⟩
        | sequence hpresent ht hitems hresults =>
            obtain ⟨results', hresults'⟩ := Results.exists_forall₂_of_imp hresults
              fun entry w hw => hconvert _ _ _ (indexed path' (toString entry.2)) _ hw
            exact ⟨_, .sequence hpresent ht hitems hresults'⟩
        | emptyTable hpresent ht => exact ⟨_, .emptyTable hpresent ht⟩
        | @table _ keys values _ _ _ ht hmembers hresults =>
            obtain ⟨results', hresults'⟩ := Results.exists_forall₂_of_imp hresults
              (S := fun (entry result : String × Json) =>
                (∃ key, types.convertAt room' keys (.string entry.1) (indexed path' entry.1) =
                  .ok key) ∧
                  types.convertAt room' values entry.2 (indexed path' entry.1) = .ok result.2 ∧
                  result.1 = entry.1) (by
              rintro entry w ⟨⟨key, hkey⟩, hitem, _⟩
              obtain ⟨item', hitem'⟩ := hconvert _ _ _ (indexed path' entry.1) _ hitem
              exact ⟨(entry.1, item'), hconvert _ _ _ _ _ hkey, hitem', rfl⟩)
            exact ⟨_, .table ht hmembers hresults'⟩
        | leaf hpresent hresult => exact ⟨_, .leaf hpresent hresult⟩
      obtain ⟨result', hresult'⟩ := hstep
      exact ⟨result', hresult'.convertAt_eq⟩

theorem acceptsKey_of_convertAt
    {room : Nat} (hroom : room ≤ maxDepth + 1) {keys : Ty} {key path : String} {result : Json}
    (h : types.convertAt room keys (.string key) path = .ok result) :
    types.AcceptsKey keys key :=
  fun path' => exists_convertAt_of_le hroom h path'

/-! ## Soundness -/

/-- What a conversion gives conforms to the type, down to one level above the room it had. -/
theorem conformsTo_of_convertAt
    {room : Nat} (hroom : room ≤ maxDepth + 1) {t : Ty} (hapart : types.HasNamesApart t)
    {value result : Json} {path : String} (h : types.convertAt room t value path = .ok result) :
    types.ConformsTo (room - 1) t result := by
  induction room generalizing t value result path with
  | zero => trivial
  | succ room ih =>
      cases room with
      | zero => trivial
      | succ room =>
          have hroom' : room + 1 ≤ maxDepth + 1 := by omega
          show types.Admits (types.ConformsTo room) t result
          cases convertStep_of_convertAt h with
          | absent => exact .absent
          | any hpresent ht => exact .leaf (by rw [ht]; exact .any _)
          | marker hpresent ht => exact .leaf (by rw [ht]; exact .marker)
          | zeroRecord hpresent ht => exact .of_target (conformsTo_zeroAt (room + 1) hapart.target)
          | @record _ _ id r body a ht hbody ha =>
              have hnames := hapart.record ht
              have hzero : ∀ f ∈ types.fieldsOf id r,
                  types.ConformsTo room f.type (types.zeroAt room f.type) :=
                fun f hf => conformsTo_zeroAt room (hapart.component (.field ht hf))
              have hsound := isSound_overlayBody hnames
                (fun f hf raw path w hw => ih hroom' (hapart.component (.field ht hf)) hw)
                (isComplete_zeroObjectWith hnames hzero) ha
              have hcomplete := isComplete_completeGroups hnames hsound hzero
              exact .record ht hcomplete.toIsRecord hcomplete.values
          | sequence hpresent ht hitems hresults =>
              refine .sequence ht ?_
              intro item hitem
              obtain ⟨entry, _, hentry⟩ := Results.exists_left_of_forall₂ hresults hitem
              exact ih hroom' (hapart.component (.element ht)) hentry
          | emptyTable hpresent ht => exact .table ht (by simp) (by simp)
          | table ht hmembers hresults =>
              refine .table ht ?_ ?_
              · intro entry hentry
                obtain ⟨_, _, ⟨key, hkey⟩, _, hname⟩ :=
                  Results.exists_left_of_forall₂ hresults hentry
                rw [hname]
                exact acceptsKey_of_convertAt hroom' hkey
              · intro entry hentry
                obtain ⟨_, _, _, hitem, _⟩ := Results.exists_left_of_forall₂ hresults hentry
                exact ih hroom' (hapart.component (.value ht)) hitem
          | leaf hpresent hresult => exact .leaf (leaf_of_leafOf? hresult)

end TypeTable
end TypedRoutes
