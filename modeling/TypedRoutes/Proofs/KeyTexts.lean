import TypedRoutes.Proofs.ConversionSoundness
import TypedRoutes.Proofs.DecimalTexts
import TypedRoutes.Proofs.QueryPairs
import TypedRoutes.Request.Decode

/-!
# Keys that are accepted and keys that are decoded

A table is accepted if each of its keys can be converted to the type of keys, and it keeps the keys
as they arrived.  It is decoded only if each key is exactly how a key of that type is written.  So
an accepted key denotes a key of the type, and it is decoded if and only if it is that key's own
text: `accepted_keys_denote_keys`.
-/

namespace TypedRoutes

/-! ## How keys are written -/

/-- The shapes of keys that are not texts of any form: truth values, integers and characters. -/
def Shape.IsKey : Shape → Prop
  | .bool | .int _ _ | .char => True
  | _ => False

/-- A text is how a key of a shape is written. -/
inductive Shape.KeyText : Shape → String → Prop
  | bool (b : Bool) : KeyText .bool (if b then "true" else "false")
  | int {signed : Bool} {bits : Nat} {n : Int} (h : InRange signed bits n) :
      KeyText (.int signed bits) (toString n)
  | char (c : Char) : KeyText .char (String.ofList [c])

namespace Shape

variable {shape : Shape} {s : String}

theorem IsKey.isPlain (h : shape.IsKey) : shape.isPlain = true := by
  cases shape with
  | bool | int | char => rfl
  | _ => cases h

/-- A text is read as a key if it is how a key is written. -/
theorem isKeyText_iff (h : shape.IsKey) : shape.isKeyText s = true ↔ shape.KeyText s := by
  cases shape with
  | bool =>
      constructor
      · intro hs
        have hs' : s = "true" ∨ s = "false" := by simpa [isKeyText] using hs
        rcases hs' with rfl | rfl
        · exact .bool true
        · exact .bool false
      · rintro ⟨_ | _⟩ <;> rfl
  | int signed bits =>
      constructor
      · intro hs
        rw [isKeyText] at hs
        split at hs
        · rename_i n hn
          obtain ⟨hfits, rfl⟩ : Json.fits signed bits n = true ∧ toString n = s := by
            simpa using hs
          exact .int (inRange_of_fits hfits)
        · cases hs
      · rintro ⟨⟩
        rename_i n hn
        rw [isKeyText, Numeral.int?_toString]
        simp [fits_of_inRange hn]
  | char =>
      constructor
      · intro hs
        have hlength : s.toList.length = 1 := by simpa [isKeyText] using hs
        obtain ⟨c, hc⟩ := List.length_eq_one_iff.mp hlength
        rw [← String.ofList_toList (s := s), hc]
        exact .char c
      · rintro ⟨c⟩
        simp [isKeyText]
  | _ => cases h

theorem leafOf?_bool_text (b : Bool) :
    Shape.bool.leafOf? (.string (if b then "true" else "false")) = some (.bool b) := by
  have hbool : (Json.string (if b then "true" else "false")).boolOf? = some b := by
    cases b <;> decide +kernel
  rw [leafOf?, hbool, Option.map_some]

theorem intOf?_toString (n : Int) : (Json.string (toString n)).intOf? = some n := by
  have hstrip := Text.strip_of_forall fun _ hc => Numeral.not_isBlank_of_mem_toString (n := n) hc
  have hread := Numeral.int?_toString n
  have hempty : (toString n).toList.isEmpty = false := by
    rw [List.isEmpty_eq_false_iff]
    intro hnil
    rw [hnil] at hread
    cases hread
  rw [Json.intOf?, hstrip, hempty, hread]
  rfl

/-- How a key is written denotes that key. -/
theorem KeyText.exists_leaf
    (h : shape.KeyText s) :
    ∃ leaf, shape.leafOf? (.string s) = some leaf ∧ leaf.textOf? = some s := by
  cases h with
  | bool b => exact ⟨_, leafOf?_bool_text b, rfl⟩
  | int hn =>
      rename_i signed bits n
      refine ⟨.int n, ?_, rfl⟩
      rw [leafOf?, intOf?_toString]
      simp [fits_of_inRange hn]
  | char c =>
      exact ⟨.string (String.ofList [c]), by simp [leafOf?, Json.charOf?, Json.textOf?], rfl⟩

/-- What a text denotes as a key has a text that is how a key is written. -/
theorem exists_keyText_of_leafOf?
    (h : shape.IsKey) {value leaf : Json} (hleaf : shape.leafOf? value = some leaf) :
    ∃ text, leaf.textOf? = some text ∧ shape.KeyText text := by
  cases leaf_of_leafOf? hleaf with
  | bool b => exact ⟨_, rfl, .bool b⟩
  | int hn => exact ⟨_, rfl, .int hn⟩
  | char c => exact ⟨_, rfl, .char c⟩
  | _ => cases h

end Shape

/-! ## Tables that are accepted -/

namespace TypeTable

variable {types : TypeTable}

/-- A text denotes a key, and the key is written as `text`. -/
def DenotesKey (types : TypeTable) (keys : Ty) (key text : String) : Prop :=
  ∃ leaf, (types.shape keys).leafOf? (.string key) = some leaf ∧ leaf.textOf? = some text

/-- The members of a table are accepted: they are what a value is converted to, or what a query
gives to a field of the type. -/
inductive AcceptedTable (types : TypeTable) (t : Ty) : Json.Object → Prop
  | value {room : Nat} {value : Json} {path : String} {members : Json.Object}
      (h : types.convertAt room t value path = .ok (.object members)) :
      AcceptedTable types t members
  | query {room : Nat}
      {enter : String → Record → Json.Object → Except FieldError (Option Json.Object)}
      {query : Query} {target : Json.Object} {f : VisibleField} {members : Json.Object}
      (hf : f.type = t)
      (h : types.queryValue? room enter query target f = .ok (some (.object members))) :
      AcceptedTable types t members

theorem exists_denotesKey_of_convertAt
    {keys : Ty} (hkeys : (types.shape keys).IsKey) {room : Nat} {key path : String} {result : Json}
    (h : types.convertAt room keys (.string key) path = .ok result) :
    ∃ text, types.DenotesKey keys key text := by
  cases room with
  | zero => cases h
  | succ room =>
      have hoption : keys.isOption = false := by
        cases keys with
        | option inner => cases hkeys
        | _ => rfl
      have htarget : keys.target = keys := target_eq_of_isOption hoption
      have hleaf := (convertAt_eq_ok_iff_of_isPlain (by simp [IsPresent])
        (by rw [htarget]; exact hkeys.isPlain)).mp h
      rw [htarget] at hleaf
      obtain ⟨text, htext, -⟩ := Shape.exists_keyText_of_leafOf? hkeys hleaf
      exact ⟨text, result, hleaf, htext⟩

/-- Every key of an accepted table denotes a key. -/
theorem AcceptedTable.exists_denotesKey
    {t keys values : Ty} {container : Table} (ht : t.target = .table container keys values)
    (hkeys : (types.shape keys).IsKey) {members : Json.Object} (h : types.AcceptedTable t members) :
    ∀ entry ∈ members, ∃ text, types.DenotesKey keys entry.1 text := by
  have hshape : types.shape t.target = .table keys values := by rw [ht, shape]
  intro entry hentry
  cases h with
  | @value room value path _ h =>
      cases room with
      | zero => cases h
      | succ room =>
          generalize hresult : Json.object members = result at h
          cases convertStep_of_convertAt h with
          | absent => cases hresult
          | any _ hany => cases hany.symm.trans hshape
          | marker _ hmarker => cases hmarker.symm.trans hshape
          | zeroRecord _ hrecord => cases hrecord.symm.trans hshape
          | record hrecord _ _ => cases hrecord.symm.trans hshape
          | sequence _ hsequence _ _ => cases hsequence.symm.trans hshape
          | emptyTable _ _ =>
              obtain rfl := Json.object.inj hresult
              cases hentry
          | table htable hmembers hresults =>
              obtain rfl := Json.object.inj hresult
              obtain ⟨rfl, rfl⟩ := Shape.table.inj (htable.symm.trans hshape)
              obtain ⟨source, -, ⟨key, hkey⟩, -, hname⟩ :=
                Results.exists_left_of_forall₂ hresults hentry
              rw [hname]
              exact exists_denotesKey_of_convertAt hkeys hkey
          | leaf _ hleaf =>
              rw [hshape] at hleaf
              cases hleaf
  | @query room enter query target f _ hf h =>
      have hfield : types.shape f.target = .table keys values := by
        rw [VisibleField.target, hf, hshape]
      rw [queryValue?_of_leaf (by simp [hfield])] at h
      obtain ⟨pairs, hpairs, hresults⟩ := leafValue?_of_table hfield h
      obtain rfl := Json.object.inj hpairs
      obtain ⟨source, -, ⟨key, hkey⟩, -, hname⟩ :=
        Results.exists_left_of_forall₂ hresults (Members.mem_of_mem_ofList hentry)
      rw [hname]
      exact exists_denotesKey_of_convertAt hkeys hkey

/-! ## Tables that are decoded -/

theorem DenotesKey.keyText
    {keys : Ty} (hkeys : (types.shape keys).IsKey) {key text : String}
    (h : types.DenotesKey keys key text) : (types.shape keys).KeyText text := by
  obtain ⟨leaf, hleaf, htext⟩ := h
  obtain ⟨text', htext', hkey⟩ := Shape.exists_keyText_of_leafOf? hkeys hleaf
  rwa [Option.some.inj (htext.symm.trans htext')]

/-- A text that denotes a key is how a key is written if and only if it is that key's text. -/
theorem DenotesKey.keyText_iff
    {keys : Ty} (hkeys : (types.shape keys).IsKey) {key text : String}
    (h : types.DenotesKey keys key text) : (types.shape keys).KeyText key ↔ key = text := by
  constructor
  · intro hkey
    obtain ⟨leaf, hleaf, htext⟩ := h
    obtain ⟨leaf', hleaf', hown⟩ := hkey.exists_leaf
    obtain rfl := Option.some.inj (hleaf.symm.trans hleaf')
    exact Option.some.inj (hown.symm.trans htext)
  · rintro rfl
    exact h.keyText hkeys

/-- A character is its own text. -/
theorem DenotesKey.eq_of_char
    {keys : Ty} (hkeys : types.shape keys = .char) {key text : String}
    (h : types.DenotesKey keys key text) : key = text := by
  obtain ⟨leaf, hleaf, htext⟩ := h
  rw [hkeys] at hleaf
  obtain ⟨s, hs, rfl⟩ := Option.map_eq_some_iff.mp hleaf
  obtain rfl : s = text := Option.some.inj htext
  unfold Json.charOf? at hs
  split at hs
  · cases hs
  · split at hs
    · rename_i c hc
      rw [← Option.some.inj hs, ← Option.some.inj hc, String.ofList_toList]
    · cases hs

theorem isSome_mapM_iff
    {α β : Type} {f : α → Option β} {xs : List α} :
    (xs.mapM f).isSome = true ↔ ∀ x ∈ xs, (f x).isSome = true := by
  induction xs with
  | nil => simp
  | cons x rest ih =>
      rw [List.forall_mem_cons, ← ih, List.mapM_cons]
      cases f x <;> cases rest.mapM f <;> simp

/-- A table is decoded if its keys are exactly how keys are written and its values are decoded. -/
theorem isSome_decodeAt_iff
    {t keys values : Ty} {container : Table} (ht : t.target = .table container keys values)
    (hkeys : (types.shape keys).IsKey) (room : Nat) (members : Json.Object) :
    (types.decodeAt (room + 1) t (.object members)).isSome = true ↔
      (∀ entry ∈ members, (types.shape keys).KeyText entry.1) ∧
        ∀ entry ∈ members, (types.decodeAt room values entry.2).isSome = true := by
  rw [decodeAt.eq_5 types t room keys values members container ht]
  simp only [Bool.and_false, Bool.false_eq_true, if_false]
  have hall : (members.all fun entry => (types.shape keys).isKeyText entry.1) = true ↔
      ∀ entry ∈ members, (types.shape keys).KeyText entry.1 := by
    rw [List.all_eq_true]
    exact forall₂_congr fun entry _ => Shape.isKeyText_iff hkeys
  split
  · rename_i hread
    rw [and_iff_right (hall.mp hread), Option.isSome_map, isSome_mapM_iff]
    exact forall₂_congr fun entry _ => by rw [Option.isSome_map]
  · rename_i hread
    exact iff_of_false (by simp) fun h => hread (hall.mpr h.1)

/-- Every key of an accepted table denotes a key of its type, but only a character is always written
as the key it denotes.  The table is decoded if and only if all its keys are written so and all its
values are decoded. -/
theorem accepted_keys_denote_keys
    {t keys values : Ty} {container : Table} (ht : t.target = .table container keys values)
    (hkeys : (types.shape keys).IsKey) {members : Json.Object} (h : types.AcceptedTable t members) :
    (∀ entry ∈ members, ∃ text, types.DenotesKey keys entry.1 text ∧
        (types.shape keys).KeyText text ∧ ((types.shape keys).KeyText entry.1 ↔ entry.1 = text)) ∧
      (types.shape keys = .char → ∀ entry ∈ members, (types.shape keys).KeyText entry.1) ∧
      ∀ room, (types.decodeAt (room + 1) t (.object members)).isSome = true ↔
        (∀ entry ∈ members, (types.shape keys).KeyText entry.1) ∧
          ∀ entry ∈ members, (types.decodeAt room values entry.2).isSome = true := by
  have hdenotes := h.exists_denotesKey ht hkeys
  refine ⟨?_, ?_, fun room => isSome_decodeAt_iff ht hkeys room members⟩
  · intro entry hentry
    obtain ⟨text, htext⟩ := hdenotes entry hentry
    exact ⟨text, htext, htext.keyText hkeys, htext.keyText_iff hkeys⟩
  · intro hchar entry hentry
    obtain ⟨text, htext⟩ := hdenotes entry hentry
    rw [htext.keyText_iff hkeys]
    exact htext.eq_of_char hchar

/-! ## Seats by row -/

/-- Numbers of seats under numbers of rows. -/
def seatsByRow : Ty := .table .general (.scalar (.uint .w8)) (.scalar (.uint .w8))

/-- A row that is given with leading zeros is kept so, and the table is not decoded. -/
theorem accepted_keys_denote_keys_rows :
    TypeTable.convert ⟨[]⟩ seatsByRow (.object [("007", .string "1"), ("12", .int 2)]) "seats" =
        .ok (.object [("007", .int 1), ("12", .int 2)]) ∧
      TypeTable.DenotesKey ⟨[]⟩ (.scalar (.uint .w8)) "007" "7" ∧
      ∀ room, TypeTable.decodeAt ⟨[]⟩ (room + 1) seatsByRow
        (.object [("007", .int 1), ("12", .int 2)]) = none := by
  have h : TypeTable.convert ⟨[]⟩ seatsByRow (.object [("007", .string "1"), ("12", .int 2)])
      "seats" = .ok (.object [("007", .int 1), ("12", .int 2)]) := rfl
  have hseven : TypeTable.DenotesKey ⟨[]⟩ (.scalar (.uint .w8)) "007" "7" := ⟨.int 7, rfl, rfl⟩
  have hrow : (TypeTable.shape ⟨[]⟩ (.scalar (.uint .w8))).IsKey := trivial
  obtain ⟨-, -, hdecode⟩ := accepted_keys_denote_keys (t := seatsByRow) rfl hrow (.value h)
  refine ⟨h, hseven, fun room => ?_⟩
  rw [← Option.not_isSome_iff_eq_none, hdecode]
  rintro ⟨hkeys, -⟩
  have hkey := (hseven.keyText_iff hrow).mp (hkeys ("007", .int 1) (by simp))
  exact absurd hkey (by decide)

/-- The type of a request with numbers of seats. -/
def hallTypes : TypeTable :=
  ⟨[("Hall", .record ⟨"Hall", [⟨"seats", "seats", seatsByRow, "", none, false, false⟩], none⟩)]⟩

/-- A row with blanks around it is accepted as it is, from a value and from a query, though it is
not how a row is written, and the request is not decoded. -/
theorem accepted_key_with_blanks :
    hallTypes.convert seatsByRow (.object [(" 7 ", .int 1)]) "seats" =
        .ok (.object [(" 7 ", .int 1)]) ∧
      hallTypes.requestValue (.named "Hall") "GET" ⟨⟨[("seats[ 7 ]", "1")]⟩, [], []⟩ =
        .ok (.object [("seats", .object [(" 7 ", .int 1)])]) ∧
      ¬Shape.KeyText (.int false 8) " 7 " ∧
      hallTypes.typedRequest (.named "Hall") "GET" ⟨⟨[("seats[ 7 ]", "1")]⟩, [], []⟩ =
        .error (.decoding "the value does not have the declared form") := by
  have hrow : (Shape.int false 8).IsKey := trivial
  refine ⟨rfl, rfl, ?_, rfl⟩
  rw [← Shape.isKeyText_iff hrow]
  decide +kernel

end TypeTable
end TypedRoutes
