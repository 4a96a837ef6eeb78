import TypedRoutes.Proofs.CalendarDates
import TypedRoutes.Proofs.DecimalTexts

/-!
# Time texts are read back

Every moment that is read is proper: its parts are those of a time of day and its year is
represented.  A proper moment is read back from the text that is written for it without an offset,
its day from that of its date, and with the mark of UTC it is read as an RFC 3339 text as long as
its year has four digits.
-/

namespace TypedRoutes

theorem CalendarDate.year_ofDay_bounds
    (day : Int) :
    (day + 719468) / 146097 * 400 ≤ (ofDay day).year ∧
      (ofDay day).year ≤ (day + 719468) / 146097 * 400 + 400 := by
  have hyear := yearOfEra_bounds (n := (day + 719468) % 146097) (by omega)
  unfold yearOfEra at hyear
  unfold ofDay
  dsimp only
  split <;> omega

namespace Moment

/-! ## Proper moments -/

/-- A time of day on a day whose year is represented.  Only the last second of a minute may be a
leap second. -/
structure IsProper (m : Moment) : Prop where
  second_lt : m.second < 86400
  nano_lt : m.nano < 2000000000
  leap : 1000000000 ≤ m.nano → m.second % 60 = 59
  year : CalendarDate.firstYear ≤ (CalendarDate.ofDay m.day).year ∧
    (CalendarDate.ofDay m.day).year ≤ CalendarDate.lastYear

section

variable {date : CalendarDate} {hour minute second nano : Nat} {offset : Int} {m : Moment}

/-- A moment is counted in seconds from its parts; a second 60 is a second 59 a billion nanoseconds
later. -/
theorem ofParts?_eq_some_iff :
    ofParts? date hour minute second nano offset = some m ↔
      (date.isValid = true ∧ hour ≤ 23 ∧ minute ≤ 59 ∧ second ≤ 60) ∧
      m.day * 86400 + m.second =
        date.toDay * 86400 + hour * 3600 + minute * 60 + min second 59 - offset * 60 ∧
      m.second < 86400 ∧ m.nano = if second = 60 then nano + 1000000000 else nano := by
  obtain ⟨day, secondOfDay, nano'⟩ := m
  unfold ofParts?
  by_cases hparts : date.isValid = true ∧ hour ≤ 23 ∧ minute ≤ 59 ∧ second ≤ 60
  · rw [if_pos hparts, and_iff_right hparts]
    by_cases hleap : second = 60
    · simp only [hleap, if_true, Option.some.injEq, mk.injEq]
      constructor
      · rintro ⟨hday, hsecond, hnano⟩
        omega
      · rintro ⟨hutc, hlt, hnano⟩
        omega
    · simp only [hleap, if_false, Option.some.injEq, mk.injEq]
      constructor
      · rintro ⟨hday, hsecond, hnano⟩
        omega
      · rintro ⟨hutc, hlt, hnano⟩
        omega
  · simp [hparts]

/-- What is read with an offset has a year of four digits, so that the offset does not move it out
of the years that are represented. -/
theorem isProper_of_ofParts?
    (h : ofParts? date hour minute second nano offset = some m) (hnano : nano < 1000000000)
    (hoffset : offset = 0 ∨
      ((-1440 < offset ∧ offset < 1440) ∧ 0 ≤ date.year ∧ date.year ≤ 9999)) :
    m.IsProper := by
  obtain ⟨⟨hvalid, hhour, hminute, hsecond⟩, hutc, hlt, hm⟩ := ofParts?_eq_some_iff.mp h
  obtain ⟨hyear, hexists⟩ := CalendarDate.isValid_iff.mp hvalid
  have hdate : (CalendarDate.ofDay date.toDay).year = date.year := by
    rw [CalendarDate.ofDay_toDay hexists]
  refine ⟨hlt, ?_, ?_, ?_⟩
  · split at hm <;> omega
  · intro hleap
    split at hm <;> omega
  · rcases hoffset with rfl | ⟨hoffset, hfour⟩
    · have hday : m.day = date.toDay := by omega
      rwa [hday, hdate]
    · have hbefore := CalendarDate.year_ofDay_bounds date.toDay
      have hafter := CalendarDate.year_ofDay_bounds m.day
      unfold CalendarDate.firstYear CalendarDate.lastYear
      omega

/-- The parts of a proper moment are those of a date and of a time of day. -/
theorem IsProper.ofParts?_eq
    (h : m.IsProper) :
    ofParts? (CalendarDate.ofDay m.day) (m.second / 3600) (m.second / 60 % 60)
      (m.second % 60 + m.nano / 1000000000) (m.nano % 1000000000) 0 = some m := by
  have hsecond := h.second_lt
  have hnano := h.nano_lt
  have hleap := h.leap
  have hvalid : (CalendarDate.ofDay m.day).isValid = true :=
    CalendarDate.isValid_iff.mpr ⟨h.year, CalendarDate.exists_ofDay m.day⟩
  rw [ofParts?_eq_some_iff, CalendarDate.toDay_ofDay]
  refine ⟨⟨hvalid, by omega, by omega, by omega⟩, by omega, hsecond, ?_⟩
  split <;> omega

theorem isProper_midnight (h : m.IsProper) : IsProper ⟨m.day, 0, 0⟩ where
  second_lt := by simp
  nano_lt := by simp
  leap := by simp
  year := h.year

end

/-! ## What is read is proper -/

section

variable {date : CalendarDate} {nano : Nat} {offset : Int} {m : Moment} {cs rest : List Char}

theorem nano_lt_of_takeFraction?
    (h : takeFraction? cs = some (nano, rest)) : nano < 1000000000 := by
  simp only [takeFraction?, Option.bind_eq_bind, Option.bind_eq_some_iff, Prod.exists,
    Option.some.injEq, Prod.mk.injEq] at h
  obtain ⟨n, rest', hn, rfl, -⟩ := h
  obtain ⟨digits, rfl, hdenotes, -, hmost⟩ := exists_of_takeNumber? hn
  have hlength : digits.length ≤ 9 := hmost 9 rfl
  have hcount : (digits ++ rest').length - rest'.length = digits.length := by simp
  rw [hcount]
  calc n * 10 ^ (9 - digits.length)
      < 10 ^ digits.length * 10 ^ (9 - digits.length) :=
        Nat.mul_lt_mul_of_pos_right hdenotes.lt (by positivity)
    _ = 10 ^ 9 := by rw [← Nat.pow_add, Nat.add_sub_cancel' hlength]

theorem nano_lt_of_optionalFraction?
    (h : optionalFraction? cs = some (nano, rest)) : nano < 1000000000 := by
  unfold optionalFraction? at h
  split at h
  · exact nano_lt_of_takeFraction? h
  · obtain ⟨rfl, -⟩ := Prod.mk.inj (Option.some.inj h)
    decide

theorem offset_bounds_of_takeOffset?
    (h : takeOffset? cs = some (offset, rest)) : -1440 < offset ∧ offset < 1440 := by
  unfold takeOffset? at h
  split at h
  · cases h
  · split at h
    · obtain ⟨rfl, -⟩ := Prod.mk.inj (Option.some.inj h)
      decide
    · split at h
      · simp only [Option.bind_eq_bind, Option.bind_eq_some_iff, Prod.exists] at h
        obtain ⟨hours, _, -, _, -, minutes, _, -, h⟩ := h
        split at h
        · obtain ⟨rfl, -⟩ := Prod.mk.inj (Option.some.inj h)
          split <;> omega
        · cases h
      · cases h

theorem isProper_of_ofRfc3339? (h : ofRfc3339? cs = some m) : m.IsProper := by
  obtain ⟨⟨year, _⟩, hyear, h⟩ := Option.bind_eq_some_iff.mp h
  obtain ⟨_, -, h⟩ := Option.bind_eq_some_iff.mp h
  obtain ⟨⟨month, _⟩, -, h⟩ := Option.bind_eq_some_iff.mp h
  obtain ⟨_, -, h⟩ := Option.bind_eq_some_iff.mp h
  obtain ⟨⟨day, _⟩, -, h⟩ := Option.bind_eq_some_iff.mp h
  obtain ⟨_, -, h⟩ := Option.bind_eq_some_iff.mp h
  obtain ⟨⟨hour, _⟩, -, h⟩ := Option.bind_eq_some_iff.mp h
  obtain ⟨_, -, h⟩ := Option.bind_eq_some_iff.mp h
  obtain ⟨⟨minute, _⟩, -, h⟩ := Option.bind_eq_some_iff.mp h
  obtain ⟨_, -, h⟩ := Option.bind_eq_some_iff.mp h
  obtain ⟨⟨second, _⟩, -, h⟩ := Option.bind_eq_some_iff.mp h
  obtain ⟨⟨nano, _⟩, hnano, h⟩ := Option.bind_eq_some_iff.mp h
  obtain ⟨⟨offset, _⟩, hoffset, h⟩ := Option.bind_eq_some_iff.mp h
  dsimp only at h
  obtain ⟨digits, -, hdenotes, -, hmost⟩ := exists_of_takeNumber? hyear
  have hfour : year < 10 ^ 4 :=
    hdenotes.lt.trans_le (Nat.pow_le_pow_right (by decide) (hmost 4 rfl))
  split at h
  · refine isProper_of_ofParts? h (nano_lt_of_optionalFraction? hnano) (.inr ⟨?_, ?_⟩)
    · exact offset_bounds_of_takeOffset? hoffset
    · dsimp only
      omega
  · cases h

theorem isProper_of_ofDateAndTime? (h : ofDateAndTime? date cs = some m) : m.IsProper := by
  simp only [ofDateAndTime?, takeTime?, Option.bind_eq_bind, Option.bind_eq_some_iff, Prod.exists,
    Option.some.injEq, Prod.mk.injEq] at h
  obtain ⟨hour, minute, second, nano, _, ⟨_, _, -, _, -, _, _, -, _, -, _, _, -, _, _, hnano,
    ⟨rfl, rfl, rfl, rfl⟩, rfl⟩, h⟩ := h
  split at h
  · exact isProper_of_ofParts? h (nano_lt_of_optionalFraction? hnano) (.inl rfl)
  · cases h

theorem isProper_of_ofLocal? (h : ofLocal? cs = some m) : m.IsProper := by
  simp only [ofLocal?, Option.bind_eq_bind, Option.bind_eq_some_iff, Prod.exists,
    Option.or_eq_some_iff] at h
  obtain ⟨date, _, -, h⟩ := h
  rcases h with ⟨_, -, h⟩ | ⟨-, h | ⟨-, h⟩⟩
  · exact isProper_of_ofDateAndTime? h
  · exact isProper_of_ofDateAndTime? h
  · split at h
    · exact isProper_of_ofParts? h (by decide) (.inl rfl)
    · cases h

/-- What is read off a text is proper. -/
theorem isProper_of_ofText? (h : ofText? cs = some m) : m.IsProper := by
  rcases Option.or_eq_some_iff.mp h with h | ⟨-, h⟩
  · exact isProper_of_ofRfc3339? h
  · exact isProper_of_ofLocal? h

theorem isProper_of_ofUnixSeconds? {seconds : Int} (h : ofUnixSeconds? seconds = some m) :
    m.IsProper := by
  unfold ofUnixSeconds? at h
  dsimp only at h
  split at h
  · rename_i hyear
    obtain rfl := Option.some.inj h
    refine ⟨?_, by simp, by simp, hyear⟩
    dsimp only
    omega
  · cases h

end

/-! ## What is written is read -/

section

variable {year : Int} {width n nano : Nat} {m : Moment} {c : Char} {rest : List Char}

theorem endsNumber_cons (h : c.isDigit = false) : EndsNumber (c :: rest) := by
  rintro d ⟨⟩
  exact h

theorem exists_cons_padded
    (width n : Nat) : ∃ d ds, (padded width n).toList = d :: ds ∧ d.isDigit = true := by
  have hdenotes := denotes_padded width n
  cases hdigits : (padded width n).toList with
  | nil => exact absurd hdigits hdenotes.ne_nil
  | cons d ds => exact ⟨d, ds, rfl, hdenotes.isDigit d (by simp [hdigits])⟩

theorem skipBlanks_padded
    (width n : Nat) (rest : List Char) :
    skipBlanks ((padded width n).toList ++ rest) = (padded width n).toList ++ rest := by
  obtain ⟨d, ds, hdigits, hd⟩ := exists_cons_padded width n
  rw [hdigits, List.cons_append, skipBlanks,
    List.dropWhile_cons_of_neg (by simp [Text.isBlank_of_isDigit hd])]

theorem takePart?_padded
    (hn : n < 100) (rest : List Char) :
    takePart? ((padded 2 n).toList ++ rest) = some (n, rest) := by
  rw [takePart?, skipBlanks_padded]
  exact takeNumber?_of_length (denotes_padded 2 n) (length_padded (by decide) hn) (by decide) rest

theorem takeNumber?_padded
    (hwidth : 0 < width) (hn : n < 10 ^ width) (rest : List Char) :
    takeNumber? width (some width) ((padded width n).toList ++ rest) = some (n, rest) :=
  takeNumber?_of_length (denotes_padded width n) (length_padded hwidth hn) (le_refl width) rest

theorem toList_yearText_of_four
    (h : 0 ≤ year ∧ year ≤ 9999) : (yearText year).toList = (padded 4 year.toNat).toList := by
  rw [yearText, if_pos h]

theorem toList_yearText_of_signed
    (h : ¬(0 ≤ year ∧ year ≤ 9999)) :
    (yearText year).toList =
      (if year < 0 then '-' else '+') :: (padded 4 year.natAbs).toList := by
  rw [yearText, if_neg h, String.toList_append]
  split <;> rfl

theorem takeYear?_of_four
    (h : 0 ≤ year ∧ year ≤ 9999) (rest : List Char) :
    takeYear? ((yearText year).toList ++ rest) = some (year, rest) := by
  have hread : takeNumber? 1 (some 4) ((padded 4 year.toNat).toList ++ rest) =
      some (year.toNat, rest) :=
    takeNumber?_of_length (denotes_padded 4 _) (length_padded (by decide) (by omega)) (by decide)
      rest
  have hyear : (year.toNat : Int) = year := Int.toNat_of_nonneg h.1
  rw [toList_yearText_of_four h, takeYear?, skipBlanks_padded]
  obtain ⟨d, ds, hdigits, hd⟩ := exists_cons_padded 4 year.toNat
  rw [hdigits] at hread ⊢
  split
  · rename_i hminus
    obtain ⟨rfl, -⟩ := List.cons.inj hminus
    cases hd
  · rename_i hplus
    obtain ⟨rfl, -⟩ := List.cons.inj hplus
    cases hd
  · rw [hread, Option.map_some]
    dsimp only
    rw [hyear]

theorem takeYear?_minus
    (cs : List Char) :
    takeYear? ('-' :: cs) = (takeNumber? 1 none cs).map fun (n, rest) => (-(n : Int), rest) := by
  have hblank : ¬Text.isBlank '-' = true := by decide
  simp only [takeYear?, skipBlanks, List.dropWhile_cons_of_neg hblank]

theorem takeYear?_plus
    (cs : List Char) :
    takeYear? ('+' :: cs) = (takeNumber? 1 none cs).map fun (n, rest) => ((n : Int), rest) := by
  have hblank : ¬Text.isBlank '+' = true := by decide
  simp only [takeYear?, skipBlanks, List.dropWhile_cons_of_neg hblank]

/-- A year is read back where it ends. -/
theorem takeYear?_yearText
    (year : Int) (hrest : EndsNumber rest) :
    takeYear? ((yearText year).toList ++ rest) = some (year, rest) := by
  by_cases hfour : 0 ≤ year ∧ year ≤ 9999
  · exact takeYear?_of_four hfour rest
  · have hdenotes := denotes_padded 4 year.natAbs
    have hread : takeNumber? 1 none ((padded 4 year.natAbs).toList ++ rest) =
        some (year.natAbs, rest) :=
      takeNumber?_of_endsNumber hdenotes (List.length_pos_of_ne_nil hdenotes.ne_nil) (by simp) hrest
    rw [toList_yearText_of_signed hfour, List.cons_append]
    by_cases hneg : year < 0
    · have hyear : -(year.natAbs : Int) = year := by omega
      rw [if_pos hneg, takeYear?_minus, hread, Option.map_some]
      dsimp only
      rw [hyear]
    · have hyear : (year.natAbs : Int) = year := by omega
      rw [if_neg hneg, takeYear?_plus, hread, Option.map_some]
      dsimp only
      rw [hyear]

theorem toList_dateText
    (m : Moment) (rest : List Char) :
    m.dateText.toList ++ rest =
      (yearText (CalendarDate.ofDay m.day).year).toList ++
        '-' :: ((padded 2 (CalendarDate.ofDay m.day).month).toList ++
          '-' :: ((padded 2 (CalendarDate.ofDay m.day).day).toList ++ rest)) := by
  simp [dateText]

theorem lt_hundred_ofDay
    (day : Int) : (CalendarDate.ofDay day).month < 100 ∧ (CalendarDate.ofDay day).day < 100 := by
  have hexists := CalendarDate.exists_ofDay day
  have hmonth := hexists.month_le
  have hday := hexists.day_le
  have hdays : CalendarDate.daysInMonth (CalendarDate.ofDay day).year
      (CalendarDate.ofDay day).month ≤ 31 := by
    unfold CalendarDate.daysInMonth
    split <;> split <;> decide
  omega

theorem takeDate?_dateText
    (m : Moment) (rest : List Char) :
    takeDate? (m.dateText.toList ++ rest) = some (CalendarDate.ofDay m.day, rest) := by
  obtain ⟨hmonth, hday⟩ := lt_hundred_ofDay m.day
  rw [toList_dateText, takeDate?, takeYear?_yearText _ (endsNumber_cons (by decide))]
  simp [expect?, takePart?_padded hmonth, takePart?_padded hday]

/-- The time of day of a moment, as it is written after the date. -/
def timeText (m : Moment) : String :=
  padded 2 (m.second / 3600) ++ ":" ++ padded 2 (m.second / 60 % 60) ++ ":" ++
    padded 2 (m.second % 60 + m.nano / 1000000000) ++ fractionText (m.nano % 1000000000)

theorem localText_eq (m : Moment) : m.localText = m.dateText ++ "T" ++ m.timeText := by
  simp [localText, timeText, String.append_assoc]

theorem toList_timeText
    (m : Moment) (rest : List Char) :
    m.timeText.toList ++ rest =
      (padded 2 (m.second / 3600)).toList ++ ':' :: ((padded 2 (m.second / 60 % 60)).toList ++
        ':' :: ((padded 2 (m.second % 60 + m.nano / 1000000000)).toList ++
          ((fractionText (m.nano % 1000000000)).toList ++ rest))) := by
  simp [timeText]

/-- What may follow the time of day: neither a digit nor a point. -/
def EndsTime (rest : List Char) : Prop :=
  EndsNumber rest ∧ rest.head? ≠ some '.'

theorem endsTime_nil : EndsTime [] := by
  simp [EndsTime, EndsNumber]

theorem endsTime_utc : EndsTime ['Z'] := by
  refine ⟨endsNumber_cons (by decide), by decide⟩

theorem takeFraction?_padded
    (hwidth : 0 < width ∧ width ≤ 9) (hn : n < 10 ^ width) (hrest : EndsNumber rest) :
    takeFraction? ((padded width n).toList ++ rest) = some (n * 10 ^ (9 - width), rest) := by
  have hlength := length_padded hwidth.1 hn
  have hread : takeNumber? 1 (some 9) ((padded width n).toList ++ rest) = some (n, rest) := by
    refine takeNumber?_of_endsNumber (denotes_padded width n) (by omega) ?_ hrest
    rintro k ⟨⟩
    omega
  have hskip : rest.dropWhile Char.isDigit = rest := by
    cases rest with
    | nil => rfl
    | cons d ds => simp [hrest d rfl]
  simp [takeFraction?, hread, hskip, hlength]

/-- A fraction is read back where it ends. -/
theorem optionalFraction?_fractionText
    (hnano : nano < 1000000000) (hrest : EndsTime rest) :
    optionalFraction? ((fractionText nano).toList ++ rest) = some (nano, rest) := by
  unfold fractionText
  split
  · rename_i hzero
    rw [hzero]
    show optionalFraction? rest = _
    unfold optionalFraction?
    split
    · exact absurd rfl hrest.2
    · rfl
  · have hpoint : ∀ width n, n < 10 ^ width → 0 < width ∧ width ≤ 9 →
        n * 10 ^ (9 - width) = nano →
        optionalFraction? (("." ++ padded width n).toList ++ rest) = some (nano, rest) := by
      intro width n hn hwidth heq
      rw [← heq, ← takeFraction?_padded hwidth hn hrest.1, String.toList_append, List.append_assoc,
        show ".".toList = ['.'] from rfl, List.singleton_append, optionalFraction?]
    split
    · exact hpoint 3 _ (by omega) (by decide) (by omega)
    · split
      · exact hpoint 6 _ (by omega) (by decide) (by omega)
      · exact hpoint 9 _ (by omega) (by decide) (by omega)

/-! ## Moments are read back -/

theorem IsProper.lt_hundred
    (h : m.IsProper) :
    m.second / 3600 < 100 ∧ m.second / 60 % 60 < 100 ∧
      m.second % 60 + m.nano / 1000000000 < 100 := by
  have hsecond := h.second_lt
  have hnano := h.nano_lt
  omega

theorem IsProper.takeTime?_timeText
    (h : m.IsProper) (hrest : EndsTime rest) :
    takeTime? (m.timeText.toList ++ rest) =
      some ((m.second / 3600, m.second / 60 % 60, m.second % 60 + m.nano / 1000000000,
        m.nano % 1000000000), rest) := by
  obtain ⟨hhour, hminute, hsecond⟩ := h.lt_hundred
  have hfraction := optionalFraction?_fractionText
    (Nat.mod_lt m.nano (by decide : 0 < 1000000000)) hrest
  rw [toList_timeText, takeTime?]
  simp [expect?, takePart?_padded hhour, takePart?_padded hminute, takePart?_padded hsecond,
    hfraction]

theorem toList_localText
    (m : Moment) (rest : List Char) :
    m.localText.toList ++ rest = m.dateText.toList ++ 'T' :: (m.timeText.toList ++ rest) := by
  simp [localText_eq]

/-- Without an offset a moment is read back from its text. -/
theorem IsProper.ofLocal?_localText (h : m.IsProper) : ofLocal? m.localText.toList = some m := by
  have htime := h.takeTime?_timeText endsTime_nil
  have hrest : ofDateAndTime? (CalendarDate.ofDay m.day) m.timeText.toList = some m := by
    rw [List.append_nil] at htime
    rw [ofDateAndTime?, htime]
    exact h.ofParts?_eq
  have hdate := takeDate?_dateText m ('T' :: m.timeText.toList)
  have htext := toList_localText m []
  rw [List.append_nil, List.append_nil] at htext
  simp [htext, ofLocal?, hdate, expect?, hrest]

/-- A day is read back from the text of its date. -/
theorem IsProper.ofLocal?_dateText
    (h : m.IsProper) : ofLocal? m.dateText.toList = some ⟨m.day, 0, 0⟩ := by
  have hdate := takeDate?_dateText m []
  rw [List.append_nil] at hdate
  have hrest : ofDateAndTime? (CalendarDate.ofDay m.day) (skipBlanks []) = none := rfl
  have hparts := (isProper_midnight h).ofParts?_eq
  simpa [ofLocal?, hdate, expect?, hrest] using hparts

/-- An RFC 3339 text begins with a year of four digits. -/
theorem ofRfc3339?_of_signed
    (h : ¬(0 ≤ year ∧ year ≤ 9999)) (rest : List Char) :
    ofRfc3339? ((yearText year).toList ++ rest) = none := by
  rw [toList_yearText_of_signed h]
  split <;> rfl

theorem bind_of_eq_some
    {α β : Type} {x : Option α} {a : α} (h : x = some a) (f : α → Option β) :
    x.bind f = f a := by
  rw [h, Option.bind_some]

theorem expect?_self (c : Char) (rest : List Char) : expect? c (c :: rest) = some rest := by
  rw [expect?, if_pos rfl]

theorem ofRfc3339?_of_parts
    {cs csMonth csDay csHour csMinute csSecond csNano : List Char}
    {year month day hour minute second : Nat}
    (hyear : takeNumber? 4 (some 4) cs = some (year, '-' :: csMonth))
    (hmonth : takeNumber? 2 (some 2) csMonth = some (month, '-' :: csDay))
    (hday : takeNumber? 2 (some 2) csDay = some (day, 'T' :: csHour))
    (hhour : takeNumber? 2 (some 2) csHour = some (hour, ':' :: csMinute))
    (hminute : takeNumber? 2 (some 2) csMinute = some (minute, ':' :: csSecond))
    (hsecond : takeNumber? 2 (some 2) csSecond = some (second, csNano))
    (hnano : optionalFraction? csNano = some (nano, rest)) :
    ofRfc3339? cs = (takeOffset? rest).bind fun (offset, rest) =>
      if rest.isEmpty then ofParts? ⟨year, month, day⟩ hour minute second nano offset
      else none := by
  have hT : (expect? 'T' ('T' :: csHour)).or
      ((expect? 't' ('T' :: csHour)).or (expect? ' ' ('T' :: csHour))) = some csHour := rfl
  refine (bind_of_eq_some hyear _).trans ?_
  refine (bind_of_eq_some (expect?_self '-' csMonth) _).trans ?_
  refine (bind_of_eq_some hmonth _).trans ?_
  refine (bind_of_eq_some (expect?_self '-' csDay) _).trans ?_
  refine (bind_of_eq_some hday _).trans ?_
  refine (bind_of_eq_some hT _).trans ?_
  refine (bind_of_eq_some hhour _).trans ?_
  refine (bind_of_eq_some (expect?_self ':' csMinute) _).trans ?_
  refine (bind_of_eq_some hminute _).trans ?_
  refine (bind_of_eq_some (expect?_self ':' csSecond) _).trans ?_
  refine (bind_of_eq_some hsecond _).trans ?_
  exact bind_of_eq_some hnano _

/-- Where the year has four digits, a date and a time of day are read up to the offset. -/
theorem IsProper.ofRfc3339?_append
    (h : m.IsProper) (hyear : 0 ≤ (CalendarDate.ofDay m.day).year ∧
      (CalendarDate.ofDay m.day).year ≤ 9999) (hrest : EndsTime rest) :
    ofRfc3339? (m.localText.toList ++ rest) =
      (takeOffset? rest).bind fun (offset, rest) =>
        if rest.isEmpty then
          ofParts? (CalendarDate.ofDay m.day) (m.second / 3600) (m.second / 60 % 60)
            (m.second % 60 + m.nano / 1000000000) (m.nano % 1000000000) offset
        else
          none := by
  obtain ⟨hmonth, hday⟩ := lt_hundred_ofDay m.day
  obtain ⟨hhour, hminute, hsecond⟩ := h.lt_hundred
  have hfour : (CalendarDate.ofDay m.day).year.toNat < 10 ^ 4 := by omega
  have hnat : ((CalendarDate.ofDay m.day).year.toNat : Int) = (CalendarDate.ofDay m.day).year :=
    Int.toNat_of_nonneg hyear.1
  have htwo : ∀ n < 100, ∀ rest : List Char,
      takeNumber? 2 (some 2) ((padded 2 n).toList ++ rest) = some (n, rest) :=
    fun n hn => takeNumber?_padded (by decide) hn
  have hfraction := optionalFraction?_fractionText
    (Nat.mod_lt m.nano (by decide : 0 < 1000000000)) hrest
  have hread := ofRfc3339?_of_parts (takeNumber?_padded (by decide) hfour _) (htwo _ hmonth _)
    (htwo _ hday _) (htwo _ hhour _) (htwo _ hminute _) (htwo _ hsecond _) hfraction
  rw [toList_localText, toList_dateText, toList_timeText, toList_yearText_of_four hyear, hread,
    hnat]

/-- A moment whose year has four digits is read back from its text as an RFC 3339 text. -/
theorem IsProper.ofRfc3339?_utcText
    (h : m.IsProper) (hyear : 0 ≤ (CalendarDate.ofDay m.day).year ∧
      (CalendarDate.ofDay m.day).year ≤ 9999) : ofRfc3339? m.utcText.toList = some m := by
  have hread := h.ofRfc3339?_append hyear endsTime_utc
  rw [h.ofParts?_eq.symm, utcText, String.toList_append]
  exact hread

theorem IsProper.ofRfc3339?_localText
    (h : m.IsProper) : ofRfc3339? m.localText.toList = none := by
  by_cases hyear : 0 ≤ (CalendarDate.ofDay m.day).year ∧ (CalendarDate.ofDay m.day).year ≤ 9999
  · have hread := h.ofRfc3339?_append hyear endsTime_nil
    rwa [List.append_nil] at hread
  · have htext := toList_localText m []
    rw [toList_dateText, List.append_nil] at htext
    rw [htext]
    exact ofRfc3339?_of_signed hyear _

theorem ofRfc3339?_of_date
    {cs csMonth csDay : List Char} {year month day : Nat}
    (hyear : takeNumber? 4 (some 4) cs = some (year, '-' :: csMonth))
    (hmonth : takeNumber? 2 (some 2) csMonth = some (month, '-' :: csDay))
    (hday : takeNumber? 2 (some 2) csDay = some (day, [])) : ofRfc3339? cs = none := by
  refine (bind_of_eq_some hyear _).trans ?_
  refine (bind_of_eq_some (expect?_self '-' csMonth) _).trans ?_
  refine (bind_of_eq_some hmonth _).trans ?_
  refine (bind_of_eq_some (expect?_self '-' csDay) _).trans ?_
  exact bind_of_eq_some hday _

theorem ofRfc3339?_dateText (m : Moment) : ofRfc3339? m.dateText.toList = none := by
  have htext := toList_dateText m []
  rw [List.append_nil] at htext
  rw [htext]
  by_cases hyear : 0 ≤ (CalendarDate.ofDay m.day).year ∧ (CalendarDate.ofDay m.day).year ≤ 9999
  · obtain ⟨hmonth, hday⟩ := lt_hundred_ofDay m.day
    rw [toList_yearText_of_four hyear]
    have hfour : (CalendarDate.ofDay m.day).year.toNat < 10 ^ 4 := by omega
    exact ofRfc3339?_of_date (takeNumber?_padded (by decide) hfour _)
      (takeNumber?_padded (by decide) hmonth _) (takeNumber?_padded (by decide) hday [])
  · exact ofRfc3339?_of_signed hyear _

theorem IsProper.ofText?_localText (h : m.IsProper) : ofText? m.localText.toList = some m := by
  rw [ofText?, h.ofRfc3339?_localText, h.ofLocal?_localText, Option.none_or]

theorem IsProper.ofText?_dateText
    (h : m.IsProper) : ofText? m.dateText.toList = some ⟨m.day, 0, 0⟩ := by
  rw [ofText?, ofRfc3339?_dateText, h.ofLocal?_dateText, Option.none_or]

/-- The year that the text of a moment begins with. -/
theorem takeYear?_utcText
    (m : Moment) :
    ∃ rest, takeYear? m.utcText.toList = some ((CalendarDate.ofDay m.day).year, rest) := by
  rw [utcText, String.toList_append, toList_localText, toList_dateText]
  exact ⟨_, takeYear?_yearText _ (endsNumber_cons (by decide))⟩

/-! ## Blanks -/

theorem not_isBlank_of_mem_padded
    (hc : c ∈ (padded width n).toList) : Text.isBlank c = false :=
  Text.isBlank_of_isDigit ((denotes_padded width n).isDigit c hc)

theorem not_isBlank_of_mem_fractionText
    (hc : c ∈ (fractionText nano).toList) : Text.isBlank c = false := by
  have hpoint : ∀ width n, c ∈ ("." ++ padded width n).toList → Text.isBlank c = false := by
    intro width n hc
    rw [String.toList_append] at hc
    rcases List.mem_append.mp hc with hc | hc
    · obtain rfl : c = '.' := by simpa using hc
      decide
    · exact not_isBlank_of_mem_padded hc
  unfold fractionText at hc
  split at hc
  · cases hc
  · split at hc
    · exact hpoint _ _ hc
    · split at hc <;> exact hpoint _ _ hc

theorem not_isBlank_of_mem_yearText
    (hc : c ∈ (yearText year).toList) : Text.isBlank c = false := by
  by_cases hfour : 0 ≤ year ∧ year ≤ 9999
  · rw [toList_yearText_of_four hfour] at hc
    exact not_isBlank_of_mem_padded hc
  · rw [toList_yearText_of_signed hfour] at hc
    rcases List.mem_cons.mp hc with rfl | hc
    · split <;> decide
    · exact not_isBlank_of_mem_padded hc

theorem not_isBlank_of_mem_dateText
    (hc : c ∈ m.dateText.toList) : Text.isBlank c = false := by
  have htext := toList_dateText m []
  rw [List.append_nil, List.append_nil] at htext
  simp only [htext, List.mem_append, List.mem_cons] at hc
  rcases hc with hc | rfl | hc | rfl | hc
  · exact not_isBlank_of_mem_yearText hc
  · decide
  · exact not_isBlank_of_mem_padded hc
  · decide
  · exact not_isBlank_of_mem_padded hc

theorem not_isBlank_of_mem_localText
    (hc : c ∈ m.localText.toList) : Text.isBlank c = false := by
  have htext := toList_localText m []
  rw [toList_timeText, List.append_nil, List.append_nil] at htext
  simp only [htext, List.mem_append, List.mem_cons] at hc
  rcases hc with hc | rfl | hc | rfl | hc | rfl | hc | hc
  · exact not_isBlank_of_mem_dateText hc
  · decide
  · exact not_isBlank_of_mem_padded hc
  · decide
  · exact not_isBlank_of_mem_padded hc
  · decide
  · exact not_isBlank_of_mem_padded hc
  · exact not_isBlank_of_mem_fractionText hc

theorem not_isBlank_of_mem_utcText
    (hc : c ∈ m.utcText.toList) : Text.isBlank c = false := by
  rw [utcText, String.toList_append] at hc
  rcases List.mem_append.mp hc with hc | hc
  · exact not_isBlank_of_mem_localText hc
  · obtain rfl : c = 'Z' := by simpa using hc
    decide

end

end Moment
end TypedRoutes
