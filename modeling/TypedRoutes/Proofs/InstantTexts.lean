import TypedRoutes.Proofs.ConversionProjection
import TypedRoutes.Request.Decode

/-!
# The instant of a date-time

A date-time is written from a time text, from seconds or from `null`, and every text that is written
stands for the same instant as what it was written from.  It is an RFC 3339 text unless its year, as
counted in UTC, takes a sign.  A text with a sign is not accepted where it came from, although a
request with it is decoded.
-/

namespace TypedRoutes

/-! ## The instant of a value -/

/-- The instant that a value stands for where a date-time is asked for: 1970 begins with `null`,
an integer counts seconds from there, a text has an offset of its own or else is in UTC. -/
inductive Json.StandsFor : Json → Moment → Prop
  | epoch : StandsFor .null ⟨0, 0, 0⟩
  | seconds {n : Int} {m : Moment} (hcount : m.day * 86400 + m.second = n) (hlt : m.second < 86400)
      (hnano : m.nano = 0) : StandsFor (.int n) m
  | offset {s : String} {m : Moment}
      (h : Moment.ofRfc3339? (Text.strip Text.isBlank s.toList) = some m) : StandsFor (.string s) m
  | utc {s : String} {m : Moment}
      (hoffset : Moment.ofRfc3339? (Text.strip Text.isBlank s.toList) = none)
      (h : Moment.ofLocal? (Text.strip Text.isBlank s.toList) = some m) : StandsFor (.string s) m

/-- A text with an offset of its own. -/
def Json.HasOffset : Json → Prop
  | .string s => (Moment.ofRfc3339? (Text.strip Text.isBlank s.toList)).isSome = true
  | _ => False

theorem Moment.eq_of_count
    {m m' : Moment} (hlt : m.second < 86400) (hlt' : m'.second < 86400)
    (hcount : m.day * 86400 + m.second = m'.day * 86400 + m'.second) (hnano : m.nano = m'.nano) :
    m = m' := by
  obtain ⟨day, second, nano⟩ := m
  obtain ⟨day', second', nano'⟩ := m'
  dsimp only at hlt hlt' hcount hnano
  rw [Moment.mk.injEq]
  omega

/-- A value stands for one instant. -/
theorem Json.StandsFor.unique
    {value : Json} {m m' : Moment} (h : value.StandsFor m) (h' : value.StandsFor m') : m = m' := by
  cases h with
  | epoch =>
      cases h'
      rfl
  | seconds hcount hlt hnano =>
      obtain _ | ⟨hcount', hlt', hnano'⟩ := h'
      exact Moment.eq_of_count hlt hlt' (hcount.trans hcount'.symm) (hnano.trans hnano'.symm)
  | offset h =>
      obtain _ | _ | h' | ⟨hoffset', -⟩ := h'
      · exact Option.some.inj (h.symm.trans h')
      · rw [hoffset'] at h
        cases h
  | utc hoffset h =>
      obtain _ | _ | h' | ⟨-, h'⟩ := h'
      · rw [hoffset] at h'
        cases h'
      · exact Option.some.inj (h.symm.trans h')

theorem standsFor_of_ofUnixSeconds?
    {n : Int} {m : Moment} (h : Moment.ofUnixSeconds? n = some m) : (Json.int n).StandsFor m := by
  unfold Moment.ofUnixSeconds? at h
  dsimp only at h
  split at h
  · obtain rfl := Option.some.inj h
    apply Json.StandsFor.seconds
    · dsimp only
      omega
    · dsimp only
      omega
    · rfl
  · cases h

theorem standsFor_of_momentOf?
    {value : Json} {m : Moment} (h : value.momentOf? = some m) : value.StandsFor m := by
  cases value with
  | string s =>
      rcases Option.or_eq_some_iff.mp h with h | ⟨hoffset, h⟩
      · exact .offset h
      · exact .utc hoffset h
  | int n =>
      rw [Json.momentOf?] at h
      split at h
      · exact standsFor_of_ofUnixSeconds? h
      · cases h
  | null | bool | float | array | object => cases h

/-- A text with an offset is kept as it is, without the blanks around it; anything else is written
in UTC. -/
theorem exists_of_timeOf?_dateTime
    {value : Json} {s : String} (h : value.timeOf? .dateTime = some s) :
    ∃ m : Moment, m.IsProper ∧ value.StandsFor m ∧
      (value.HasOffset ∧ Moment.ofRfc3339? s.toList = some m ∧
          Text.strip Text.isBlank s.toList = s.toList ∨
        ¬value.HasOffset ∧ s = m.utcText) := by
  by_cases hnull : value = .null
  · subst hnull
    obtain rfl : TimeKind.dateTime.epoch = s := Option.some.inj h
    refine ⟨⟨0, 0, 0⟩, ⟨by decide, by decide, by decide, by decide⟩, .epoch, .inr ⟨id, ?_⟩⟩
    decide +kernel
  · obtain ⟨m, hm⟩ : ∃ m, value.momentOf? = some m := by
      cases hm : value.momentOf? with
      | none => simp [Json.timeOf?, hm] at h
      | some m => exact ⟨m, rfl⟩
    refine ⟨m, isProper_of_momentOf? hm, standsFor_of_momentOf? hm, ?_⟩
    cases value with
    | null => exact absurd rfl hnull
    | string text =>
        cases hread : Moment.ofRfc3339? (Text.strip Text.isBlank text.toList) with
        | some m' =>
            obtain rfl : Text.trim text = s := by simpa [Json.timeOf?, hm, hread] using h
            have htrim : (Text.trim text).toList = Text.strip Text.isBlank text.toList :=
              String.toList_ofList
            have hsame : m' = m := by
              rw [Json.momentOf?, Moment.ofText?, hread, Option.some_or] at hm
              exact Option.some.inj hm
            refine .inl ⟨by simp [Json.HasOffset, hread], ?_, ?_⟩
            · rw [htrim, hread, hsame]
            · rw [htrim, Text.strip_strip]
        | none =>
            refine .inr ⟨by simp [Json.HasOffset, hread], ?_⟩
            simpa [Json.timeOf?, hm, hread, eq_comm] using h
    | bool | int | float | array | object =>
        exact .inr ⟨id, by simpa [Json.timeOf?, hm, eq_comm] using h⟩

/-! ## Years with a sign -/

namespace Moment

variable {m : Moment}

/-- A moment whose year in UTC is written with four digits. -/
def HasFourDigitYear (m : Moment) : Prop :=
  0 ≤ (CalendarDate.ofDay m.day).year ∧ (CalendarDate.ofDay m.day).year ≤ 9999

instance (m : Moment) : Decidable m.HasFourDigitYear :=
  inferInstanceAs (Decidable (_ ∧ _))

theorem toList_utcText
    (m : Moment) : m.utcText.toList = m.dateText.toList ++ 'T' :: (m.timeText.toList ++ ['Z']) := by
  rw [utcText, String.toList_append, toList_localText]
  rfl

theorem ofRfc3339?_utcText_of_signed
    (h : ¬m.HasFourDigitYear) : ofRfc3339? m.utcText.toList = none := by
  rw [toList_utcText, toList_dateText]
  exact ofRfc3339?_of_signed h _

/-- A text without an offset does not end with the mark of UTC. -/
theorem IsProper.ofLocal?_utcText (h : m.IsProper) : ofLocal? m.utcText.toList = none := by
  have hdate := takeDate?_dateText m ('T' :: (m.timeText.toList ++ ['Z']))
  have hmarked : ofDateAndTime? (CalendarDate.ofDay m.day) (m.timeText.toList ++ ['Z']) = none := by
    rw [ofDateAndTime?, h.takeTime?_timeText endsTime_utc]
    rfl
  have hletter : ofDateAndTime? (CalendarDate.ofDay m.day)
      (skipBlanks ('T' :: (m.timeText.toList ++ ['Z']))) = none := rfl
  rw [toList_utcText, ofLocal?, hdate]
  simp [expect?, hmarked, hletter]

/-- Every proper moment is read back from its text in UTC where the year may have a sign. -/
theorem IsProper.ofSigned?_utcText (h : m.IsProper) : ofSigned? m.utcText.toList = some m := by
  have hdate := takeDate?_dateText m ('T' :: (m.timeText.toList ++ ['Z']))
  have htime := h.takeTime?_timeText endsTime_utc
  rw [toList_utcText, ofSigned?, hdate]
  simp [expect?, htime, takeOffset?, h.ofParts?_eq]

theorem IsProper.ofText?_utcText_of_signed
    (h : m.IsProper) (hyear : ¬m.HasFourDigitYear) : ofText? m.utcText.toList = none := by
  rw [ofText?, ofRfc3339?_utcText_of_signed hyear, h.ofLocal?_utcText, Option.none_or]

end Moment

theorem timeOf?_utcText_of_signed
    {m : Moment} (hm : m.IsProper) (hyear : ¬m.HasFourDigitYear) :
    (Json.string m.utcText).timeOf? .dateTime = none := by
  have hstrip := Text.strip_of_forall fun _ hc => Moment.not_isBlank_of_mem_utcText (m := m) hc
  have hmoment := momentOf?_of_strip hstrip
  rw [hm.ofText?_utcText_of_signed hyear] at hmoment
  simp [Json.timeOf?, hmoment]

namespace TypeTable

variable {types : TypeTable} {t : Ty}

/-! ## Converted date-times -/

theorem convert_dateTime_iff
    {value result : Json} {path : String} (ht : t.target = .time .dateTime)
    (hpresent : IsPresent t value) :
    types.convert t value path = .ok result ↔
      ∃ s, value.timeOf? .dateTime = some s ∧ result = .string s := by
  have hshape : types.shape t.target = .time .dateTime := by
    rw [ht, shape]
  have hplain : (types.shape t.target).isPlain = true := by
    rw [hshape, Shape.isPlain]
  rw [convert, convertAt_eq_ok_iff_of_isPlain hpresent hplain, hshape, Shape.leafOf?,
    Option.map_eq_some_iff]
  simp only [eq_comm]

theorem decodeAt_dateTime
    {s : String} {m : Moment} (ht : t.target = .time .dateTime)
    (h : (Moment.ofText? s.toList).or (Moment.ofSigned? s.toList) = some m) (room : Nat) :
    types.decodeAt (room + 1) t (.string s) = some (.string m.utcText) := by
  have hshape : types.shape t.target = .time .dateTime := by
    rw [ht, shape]
  rw [decodeAt.eq_9 _ _ _ _ (by simp [ht]) (by simp [ht]) (by simp [hshape]) (by simp) (by simp)
    (by simp) (by simp), hshape]
  simp [Shape.decodeLeaf?, h]

/-- What is accepted as a date-time is emitted as a text for the same instant, and decoded as it.
The text is one of RFC 3339, and converted to itself, if the input has an offset of its own or if
its year in UTC has four digits.  Any other year is written with a sign, in a text which is not of
RFC 3339 and not accepted again. -/
theorem convert_dateTime_instant
    {value result : Json} {path : String} (ht : t.target = .time .dateTime)
    (hpresent : IsPresent t value) (h : types.convert t value path = .ok result) :
    ∃ (m : Moment) (s : String), value.StandsFor m ∧ result = .string s ∧
      (∀ room, types.decodeAt (room + 1) t result = some (.string m.utcText)) ∧
      (value.HasOffset ∨ m.HasFourDigitYear →
        Moment.ofRfc3339? s.toList = some m ∧
          ∀ path', types.convert t result path' = .ok result) ∧
      (¬value.HasOffset → ¬m.HasFourDigitYear →
        s = m.utcText ∧ Moment.ofRfc3339? s.toList = none ∧
          ∀ path' result', types.convert t result path' ≠ .ok result') := by
  obtain ⟨s, hs, rfl⟩ := (convert_dateTime_iff ht hpresent).mp h
  obtain ⟨m, hm, hstands, hemitted⟩ := exists_of_timeOf?_dateTime hs
  have hagain : IsPresent t (.string s) := by
    rintro - ⟨⟩
  refine ⟨m, s, hstands, rfl, ?_, ?_, ?_⟩
  · apply decodeAt_dateTime ht
    rcases hemitted with ⟨-, hread, -⟩ | ⟨-, rfl⟩
    · rw [Moment.ofText?, hread, Option.some_or, Option.some_or]
    · by_cases hyear : m.HasFourDigitYear
      · rw [Moment.ofText?, hm.ofRfc3339?_utcText hyear, Option.some_or, Option.some_or]
      · rw [hm.ofText?_utcText_of_signed hyear, hm.ofSigned?_utcText, Option.none_or]
  · intro hkept
    have hread : Moment.ofRfc3339? s.toList = some m ∧
        Text.strip Text.isBlank s.toList = s.toList := by
      rcases hemitted with ⟨-, hread, hstrip⟩ | ⟨hoffset, rfl⟩
      · exact ⟨hread, hstrip⟩
      · exact ⟨hm.ofRfc3339?_utcText (hkept.resolve_left hoffset),
          Text.strip_of_forall fun _ hc => Moment.not_isBlank_of_mem_utcText hc⟩
    refine ⟨hread.1, ?_⟩
    intro path'
    have hsame := timeOf?_of_rfc3339 hread.2 (by rw [hread.1, Option.isSome_some])
    exact (convert_dateTime_iff ht hagain).mpr ⟨s, hsame, rfl⟩
  · intro hoffset hyear
    rcases hemitted with ⟨hoffset', -, -⟩ | ⟨-, rfl⟩
    · exact absurd hoffset' hoffset
    · refine ⟨rfl, Moment.ofRfc3339?_utcText_of_signed hyear, ?_⟩
      intro path' result' hresult
      obtain ⟨s, hs', -⟩ := (convert_dateTime_iff ht hagain).mp hresult
      rw [timeOf?_utcText_of_signed hm hyear] at hs'
      cases hs'

/-- The last second of the year 9999 is emitted, read and converted to itself. -/
theorem convert_dateTime_instant_9999 :
    Moment.ofRfc3339? "9999-12-31T23:59:59Z".toList = some ⟨2932896, 86399, 0⟩ ∧
      ∀ path', convert ⟨[]⟩ (.time .dateTime) (.string "9999-12-31T23:59:59Z") path' =
        .ok (.string "9999-12-31T23:59:59Z") := by
  have hlast : convert ⟨[]⟩ (.time .dateTime) (.int 253402300799) "at" =
      .ok (.string "9999-12-31T23:59:59Z") := by
    rfl
  obtain ⟨m, s, hstands, hs, -, hread, -⟩ := convert_dateTime_instant rfl (by rintro ⟨⟩) hlast
  obtain rfl := Json.string.inj hs
  obtain rfl : m = ⟨2932896, 86399, 0⟩ :=
    hstands.unique (.seconds (by decide) (by decide) rfl)
  exact hread (.inr (by decide +kernel))

/-- Seconds are accepted, and their text is not. -/
theorem emitted_dateTime_refused :
    convert ⟨[]⟩ (.time .dateTime) (.int 253402300800) "at" =
        .ok (.string "+10000-01-01T00:00:00Z") ∧
      (Json.int 253402300800).StandsFor ⟨2932897, 0, 0⟩ ∧
      Moment.ofRfc3339? "+10000-01-01T00:00:00Z".toList = none ∧
      convert ⟨[]⟩ (.time .dateTime) (.string "+10000-01-01T00:00:00Z") "at" =
        .error ⟨"at", "+10000-01-01T00:00:00Z", "date-time"⟩ := by
  refine ⟨by rfl, .seconds (by decide) (by decide) rfl, by decide +kernel, by rfl⟩

end TypeTable
end TypedRoutes
