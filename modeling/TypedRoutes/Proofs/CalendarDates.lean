import Mathlib.Algebra.Order.SuccPred
import Mathlib.Order.Monotone.Basic
import Mathlib.Tactic.IntervalCases
import TypedRoutes.Calendar.Date

/-!
# Dates and day numbers

A date has one day number and a day number one date: `ofDay_toDay` and `toDay_ofDay`.  Both go over
the year that begins on 1 March, in which a day is counted from zero.  In such years the lengths of
the months before the last do not vary, and the leap day is the last day of all.
-/

namespace TypedRoutes
namespace CalendarDate

/-! ## Years of an era -/

/-- The year of an era in which one of its days falls; years begin on 1 March. -/
def yearOfEra (n : Int) : Int :=
  (n - n / 1460 + n / 36524 - n / 146096) / 365

/-- The first day of a year of an era. -/
def firstDay (y : Int) : Int :=
  365 * y + y / 4 - y / 100

/-- The last day of a year that begins on 1 March, the first being zero.  The leap day is that of
the next civil year. -/
def lastOfYear (year : Int) : Int :=
  if isLeap (year + 1) then 365 else 364

theorem lastOfYear_bounds (year : Int) : 364 ≤ lastOfYear year ∧ lastOfYear year ≤ 365 := by
  unfold lastOfYear
  split <;> omega

theorem isLeap_mod (year : Int) : isLeap (year % 400 + 1) = isLeap (year + 1) := by
  have h4 : (year % 400 + 1) % 4 = (year + 1) % 4 := by omega
  have h100 : (year % 400 + 1) % 100 = (year + 1) % 100 := by omega
  have h400 : (year % 400 + 1) % 400 = (year + 1) % 400 := by omega
  rw [isLeap, isLeap, h4, h100, h400]

/-- Every era has the same leap years. -/
theorem lastOfYear_mod (year : Int) : lastOfYear (year % 400) = lastOfYear year := by
  rw [lastOfYear, lastOfYear, isLeap_mod]

theorem yearOfEra_bounds
    {n : Int} (hn : 0 ≤ n ∧ n < 146097) : 0 ≤ yearOfEra n ∧ yearOfEra n < 400 := by
  unfold yearOfEra
  omega

theorem yearOfEra_le_yearOfEra
    {m n : Int} (h : m ≤ n) : yearOfEra m ≤ yearOfEra n := by
  have hmono : Monotone yearOfEra := by
    refine monotone_int_of_le_succ fun k => ?_
    unfold yearOfEra
    apply Int.ediv_le_ediv (by decide)
    omega
  exact hmono h

/-- The 400 years of an era follow one after the other, and the last one ends with the era. -/
theorem yearOfEra_ends : ∀ y : Fin 400,
    yearOfEra (firstDay y) = y ∧ yearOfEra (firstDay y + lastOfYear y) = y ∧
      firstDay y + lastOfYear y = if (y : Int) = 399 then 146096 else firstDay (y + 1) - 1 := by
  decide +kernel

theorem exists_fin {y : Int} (hy : 0 ≤ y ∧ y < 400) : ∃ i : Fin 400, (i : Int) = y :=
  ⟨⟨y.toNat, by omega⟩, by simp [hy.1]⟩

theorem yearOfEra_eq_iff
    {n y : Int} (hn : 0 ≤ n ∧ n < 146097) (hy : 0 ≤ y ∧ y < 400) :
    yearOfEra n = y ↔ firstDay y ≤ n ∧ n ≤ firstDay y + lastOfYear y := by
  obtain ⟨i, rfl⟩ := exists_fin hy
  obtain ⟨hfirst, hlast, hnext⟩ := yearOfEra_ends i
  constructor
  · intro h
    constructor
    · -- An earlier day falls in an earlier year.
      by_contra hbefore
      by_cases hzero : (i : Int) = 0
      · rw [hzero] at hbefore
        exact hbefore hn.1
      · obtain ⟨j, hj⟩ := exists_fin (y := (i : Int) - 1) (by omega)
        obtain ⟨-, hlast', hnext'⟩ := yearOfEra_ends j
        rw [if_neg (by omega), show (j : Int) + 1 = i by omega] at hnext'
        have hle : yearOfEra n ≤ yearOfEra (firstDay j + lastOfYear j) :=
          yearOfEra_le_yearOfEra (by omega)
        omega
    · by_contra hafter
      split at hnext
      · omega
      · obtain ⟨j, hj⟩ := exists_fin (y := (i : Int) + 1) (by omega)
        obtain ⟨hfirst', -, -⟩ := yearOfEra_ends j
        rw [hj] at hfirst'
        have hle : yearOfEra (firstDay (i + 1)) ≤ yearOfEra n := yearOfEra_le_yearOfEra (by omega)
        omega
  · rintro ⟨hafter, hbefore⟩
    have hle := yearOfEra_le_yearOfEra hafter
    have hge := yearOfEra_le_yearOfEra hbefore
    omega

/-! ## Days of a year -/

/-- The day number of a day of a year that begins on 1 March. -/
def yearDay (year k : Int) : Int :=
  year / 400 * 146097 + (firstDay (year % 400) + k) - 719468

/-- The first day of a month, counted from March, in a year that begins on 1 March. -/
def firstOfMonth (month : Int) : Int :=
  (153 * month + 2) / 5

/-- The date of a day of a year that begins on 1 March. -/
def ofYearDay (year k : Int) : CalendarDate :=
  let month := (5 * k + 2) / 153
  { year := if month < 10 then year else year + 1
    month := (if month < 10 then month + 3 else month - 9).toNat
    day := (k - firstOfMonth month + 1).toNat }

/-- The year of a date, where years begin on 1 March. -/
def marchYear (date : CalendarDate) : Int :=
  if date.month ≤ 2 then date.year - 1 else date.year

/-- The month of a date, counted from March. -/
def marchMonth (date : CalendarDate) : Int :=
  if date.month ≤ 2 then date.month + 9 else (date.month : Int) - 3

/-- The day of a date in its year, where years begin on 1 March. -/
def marchDay (date : CalendarDate) : Int :=
  firstOfMonth date.marchMonth + date.day - 1

theorem toDay_eq (date : CalendarDate) : date.toDay = yearDay date.marchYear date.marchDay := by
  have hday : date.toDay = date.marchYear / 400 * 146097 +
      (date.marchYear % 400 * 365 + date.marchYear % 400 / 4 - date.marchYear % 400 / 100 +
        date.marchDay) - 719468 := rfl
  rw [hday, yearDay, firstDay]
  omega

theorem eraDay_bounds
    {year k : Int} (hk : 0 ≤ k ∧ k ≤ lastOfYear year) :
    0 ≤ firstDay (year % 400) + k ∧ firstDay (year % 400) + k < 146097 := by
  have hlast := lastOfYear_mod year
  obtain ⟨i, hi⟩ := exists_fin (y := year % 400) (by omega)
  obtain ⟨-, -, hnext⟩ := yearOfEra_ends i
  rw [hi] at hnext
  unfold firstDay at hnext ⊢
  split at hnext <;> omega

theorem ofDay_yearDay
    {year k : Int} (hk : 0 ≤ k ∧ k ≤ lastOfYear year) :
    ofDay (yearDay year k) = ofYearDay year k := by
  have hlast := lastOfYear_mod year
  have hbounds := eraDay_bounds hk
  have hyear : yearOfEra (firstDay (year % 400) + k) = year % 400 :=
    (yearOfEra_eq_iff hbounds (by omega)).mpr (by omega)
  have hera : (yearDay year k + 719468) / 146097 = year / 400 := by
    unfold yearDay
    omega
  have hday : (yearDay year k + 719468) % 146097 = firstDay (year % 400) + k := by
    unfold yearDay
    omega
  have hrest : firstDay (year % 400) + k - firstDay (year % 400) = k := by omega
  have hsum : year / 400 * 400 + year % 400 = year := by omega
  rw [yearOfEra] at hyear
  simp only [ofDay, hera, hday, hyear]
  rw [firstDay] at hrest ⊢
  rw [hrest, hsum]
  rfl

theorem exists_yearDay
    (day : Int) : ∃ year k, (0 ≤ k ∧ k ≤ lastOfYear year) ∧ day = yearDay year k := by
  have hn : 0 ≤ (day + 719468) % 146097 ∧ (day + 719468) % 146097 < 146097 := by omega
  have hsplit : day = (day + 719468) / 146097 * 146097 + (day + 719468) % 146097 - 719468 := by
    omega
  generalize (day + 719468) / 146097 = era at hsplit
  generalize (day + 719468) % 146097 = n at hn hsplit
  have hy := yearOfEra_bounds hn
  obtain ⟨hfirst, hlast⟩ := (yearOfEra_eq_iff hn hy).mp rfl
  generalize yearOfEra n = y at hy hfirst hlast
  have hyear : (era * 400 + y) % 400 = y := by omega
  have hera : (era * 400 + y) / 400 = era := by omega
  have hend := lastOfYear_mod (era * 400 + y)
  rw [hyear] at hend
  refine ⟨era * 400 + y, n - firstDay y, by omega, ?_⟩
  rw [yearDay, hyear, hera]
  omega

/-! ## Months of a year -/

theorem month_eq_iff
    {k month : Int} :
    (5 * k + 2) / 153 = month ↔ firstOfMonth month ≤ k ∧ k < firstOfMonth (month + 1) := by
  unfold firstOfMonth
  omega

theorem marchYear_ofYearDay
    {year k : Int} (hk : 0 ≤ k ∧ k ≤ 365) : (ofYearDay year k).marchYear = year := by
  unfold marchYear ofYearDay
  dsimp only
  split <;> split <;> omega

theorem marchMonth_ofYearDay
    {year k : Int} (hk : 0 ≤ k ∧ k ≤ 365) : (ofYearDay year k).marchMonth = (5 * k + 2) / 153 := by
  unfold marchMonth ofYearDay
  dsimp only
  split <;> split <;> omega

theorem marchDay_ofYearDay
    {year k : Int} (hk : 0 ≤ k ∧ k ≤ 365) : (ofYearDay year k).marchDay = k := by
  obtain ⟨hfirst, -⟩ := month_eq_iff.mp (rfl : (5 * k + 2) / 153 = _)
  have hday : ((ofYearDay year k).day : Int) = k - firstOfMonth ((5 * k + 2) / 153) + 1 :=
    Int.toNat_of_nonneg (by omega)
  rw [marchDay, marchMonth_ofYearDay hk, hday]
  omega

theorem toDay_ofYearDay
    {year k : Int} (hk : 0 ≤ k ∧ k ≤ 365) : (ofYearDay year k).toDay = yearDay year k := by
  rw [toDay_eq, marchYear_ofYearDay hk, marchDay_ofYearDay hk]

/-- The date of a day has its number. -/
theorem toDay_ofDay (day : Int) : (ofDay day).toDay = day := by
  obtain ⟨year, k, hk, rfl⟩ := exists_yearDay day
  have hlast := (lastOfYear_bounds year).2
  rw [ofDay_yearDay hk, toDay_ofYearDay (by omega)]

/-! ## Dates that exist -/

/-- The month and the day of a date exist. -/
structure Exists (date : CalendarDate) : Prop where
  one_le_month : 1 ≤ date.month
  month_le : date.month ≤ 12
  one_le_day : 1 ≤ date.day
  day_le : date.day ≤ daysInMonth date.year date.month

theorem isValid_iff
    {date : CalendarDate} :
    date.isValid = true ↔ (firstYear ≤ date.year ∧ date.year ≤ lastYear) ∧ date.Exists := by
  simp only [isValid, Bool.and_eq_true, decide_eq_true_eq]
  constructor
  · rintro ⟨⟨⟨⟨hyear, hmonth⟩, hmonth'⟩, hday⟩, hday'⟩
    exact ⟨hyear, hmonth, hmonth', hday, hday'⟩
  · rintro ⟨hyear, hmonth, hmonth', hday, hday'⟩
    exact ⟨⟨⟨⟨hyear, hmonth⟩, hmonth'⟩, hday⟩, hday'⟩

/-- A month ends where the next one begins, and February with the year. -/
theorem firstOfMonth_add_daysInMonth
    {date : CalendarDate} (h : 1 ≤ date.month ∧ date.month ≤ 12) :
    firstOfMonth date.marchMonth + daysInMonth date.year date.month =
      if date.month = 2 then lastOfYear date.marchYear + 1
      else firstOfMonth (date.marchMonth + 1) := by
  obtain ⟨year, month, day⟩ := date
  obtain ⟨hmonth, hmonth'⟩ := h
  dsimp only at hmonth hmonth'
  by_cases hfebruary : month = 2
  · subst hfebruary
    have hyear : year - 1 + 1 = year := by omega
    simp only [marchYear, marchMonth, daysInMonth, lastOfYear, firstOfMonth, if_true, le_refl,
      hyear]
    split <;> rfl
  · simp only [marchMonth, daysInMonth, firstOfMonth, hfebruary, if_false]
    interval_cases month <;> first | rfl | exact absurd rfl hfebruary

theorem Exists.marchMonth_bounds
    {date : CalendarDate} (h : date.Exists) : 0 ≤ date.marchMonth ∧ date.marchMonth ≤ 11 := by
  have hmonth := h.one_le_month
  have hmonth' := h.month_le
  unfold marchMonth
  split <;> omega

theorem Exists.marchDay_bounds
    {date : CalendarDate} (h : date.Exists) :
    firstOfMonth date.marchMonth ≤ date.marchDay ∧
      date.marchDay < firstOfMonth (date.marchMonth + 1) ∧
      date.marchDay ≤ lastOfYear date.marchYear := by
  have hends := firstOfMonth_add_daysInMonth ⟨h.one_le_month, h.month_le⟩
  have hlast := lastOfYear_bounds date.marchYear
  have hbounds := h.marchMonth_bounds
  have hday : date.marchDay = firstOfMonth date.marchMonth + date.day - 1 := rfl
  have hpositive := h.one_le_day
  have hle := h.day_le
  split at hends
  · rename_i hfebruary
    have hmonth : date.marchMonth = 11 := by simp [marchMonth, hfebruary]
    rw [hmonth] at hday hends ⊢
    simp only [firstOfMonth] at hday hends ⊢
    omega
  · rename_i hfebruary
    have hmonth : date.marchMonth ≠ 11 := by
      have hrange : 1 ≤ date.month ∧ date.month ≤ 12 := ⟨h.one_le_month, h.month_le⟩
      unfold marchMonth
      split <;> omega
    simp only [firstOfMonth] at hday hends ⊢
    omega

/-- A date is that of its day in its year. -/
theorem ofYearDay_march
    {date : CalendarDate} (h : date.Exists) :
    ofYearDay date.marchYear date.marchDay = date := by
  obtain ⟨hfirst, hnext, -⟩ := h.marchDay_bounds
  have hmonth : (5 * date.marchDay + 2) / 153 = date.marchMonth :=
    month_eq_iff.mpr ⟨hfirst, hnext⟩
  have hbounds : 1 ≤ date.month ∧ date.month ≤ 12 ∧ 1 ≤ date.day :=
    ⟨h.one_le_month, h.month_le, h.one_le_day⟩
  have hday : date.marchDay = firstOfMonth date.marchMonth + date.day - 1 := rfl
  obtain ⟨year, month, day⟩ := date
  dsimp only at hbounds hday
  rw [ofYearDay, hmonth, hday]
  unfold marchYear marchMonth
  dsimp only
  congr 1
  · split <;> split <;> omega
  · split <;> split <;> omega
  · omega

theorem exists_ofYearDay
    {year k : Int} (hk : 0 ≤ k ∧ k ≤ lastOfYear year) : (ofYearDay year k).Exists := by
  have hlast := (lastOfYear_bounds year).2
  have hk' : 0 ≤ k ∧ k ≤ 365 := by omega
  obtain ⟨hfirst, hnext⟩ := month_eq_iff.mp (rfl : (5 * k + 2) / 153 = _)
  have hmonth : 1 ≤ (ofYearDay year k).month ∧ (ofYearDay year k).month ≤ 12 := by
    unfold ofYearDay
    dsimp only
    split <;> omega
  have hday : ((ofYearDay year k).day : Int) = k - firstOfMonth ((5 * k + 2) / 153) + 1 :=
    Int.toNat_of_nonneg (by omega)
  have hends := firstOfMonth_add_daysInMonth hmonth
  rw [marchYear_ofYearDay hk', marchMonth_ofYearDay hk'] at hends
  refine ⟨hmonth.1, hmonth.2, by omega, ?_⟩
  split at hends <;> omega

/-- The date of a day exists. -/
theorem exists_ofDay (day : Int) : (ofDay day).Exists := by
  obtain ⟨year, k, hk, rfl⟩ := exists_yearDay day
  rw [ofDay_yearDay hk]
  exact exists_ofYearDay hk

/-- A date is that of its day number. -/
theorem ofDay_toDay {date : CalendarDate} (h : date.Exists) : ofDay date.toDay = date := by
  obtain ⟨hfirst, -, hlast⟩ := h.marchDay_bounds
  have hnonneg : 0 ≤ firstOfMonth date.marchMonth := by
    have hmonth := h.marchMonth_bounds
    unfold firstOfMonth
    omega
  rw [toDay_eq, ofDay_yearDay ⟨by omega, hlast⟩, ofYearDay_march h]

end CalendarDate
end TypedRoutes
