import DetectorFirmware.Library.Gregorian
import DetectorFirmware.Proofs.Calendar

/-! The two loops of `RTC_Get` against the civil calendar. The year loop takes whole years
off the day count and the month loop whole months. On the last day of a leap year the year
loop stops one year too late, and the month loop then runs past December. -/

namespace Detector

open Gregorian

theorem isLeapYear_iff (year : ℕ) : isLeapYear year = true ↔ IsLeap year := by
  unfold isLeapYear IsLeap
  split_ifs <;> simp_all

/-! The year loop. -/

/-- What is left of `temp` days from the first of `year` on, and the year they end in: the
year of the day or, on the last day of a leap year, the one after it. -/
def YearLoopEnds (temp year : ℕ) (r : ℕ × ℕ) : Prop :=
  (r.1 < 365 ∧ temp = daysBefore year r.2 + r.1) ∨
    ∃ last, year ≤ last ∧ IsLeap last ∧ temp = daysBefore year last + 365 ∧ r = (365, last + 1)

/-- One year comes off in front of what the rest of the loop takes off. -/
theorem YearLoopEnds.year {temp year days : ℕ} {r : ℕ × ℕ} (hlen : yearLength year = days)
    (hle : days ≤ temp) (hlater : year + 1 ≤ r.2) (h : YearLoopEnds (temp - days) (year + 1) r) :
    YearLoopEnds temp year r := by
  rcases h with ⟨hlt, hsum⟩ | ⟨last, hlast, hleap, hsum, hr⟩
  · refine Or.inl ⟨hlt, ?_⟩
    rw [daysBefore_head (by omega), hlen]
    omega
  · refine Or.inr ⟨last, by omega, hleap, ?_, hr⟩
    rw [daysBefore_head (by omega), hlen]
    omega

theorem yearLoop_spec (temp temp1 : ℕ) : YearLoopEnds temp temp1 (yearLoop temp temp1) := by
  induction temp, temp1 using yearLoop.induct with
  | case1 temp temp1 h hleap h366 ih =>
    have hlen : yearLength temp1 = 366 := if_pos ((isLeapYear_iff temp1).mp hleap)
    rw [yearLoop]
    simp only [h, hleap, h366, if_true]
    exact ih.year hlen h366 (yearLoop_year _ _).1
  | case2 temp temp1 h hleap h366 =>
    obtain rfl : temp = 365 := by omega
    refine Or.inr ⟨temp1, le_rfl, (isLeapYear_iff temp1).mp hleap, ?_, ?_⟩
    · rw [daysBefore_self]
    · rw [yearLoop]
      simp only [hleap, if_true, le_refl, Nat.reduceLeDiff, if_false]
  | case3 temp temp1 h hleap ih =>
    have hlen : yearLength temp1 = 365 := if_neg (mt (isLeapYear_iff temp1).mpr hleap)
    rw [yearLoop]
    simp only [h, hleap, if_true, Bool.false_eq_true, if_false]
    exact ih.year hlen h (yearLoop_year _ _).1
  | case4 temp temp1 h =>
    rw [yearLoop]
    simp only [h, if_false]
    refine Or.inl ⟨by omega, ?_⟩
    rw [daysBefore_self, Nat.zero_add]

/-! The month loop. -/

/-- One round compares with the length of the month. The guard `28 ≤ temp` of the source
never ends the loop where this comparison would not. -/
theorem monthLoop_cons (year : ℕ) {days : ℕ} {months : List ℕ} {i : ℕ}
    (h : days :: months = monTable.drop i) (temp : ℕ) :
    monthLoop (isLeapYear year) (days :: months) temp i =
      if monthLength year (i + 1) ≤ temp then
        monthLoop (isLeapYear year) months (temp - monthLength year (i + 1)) (i + 1)
      else (temp, i) := by
  have hi : i < 12 := by
    by_contra hno
    rw [List.drop_eq_nil_of_le (Nat.le_of_not_lt hno)] at h
    exact List.cons_ne_nil _ _ h
  have hshort := (monthLength_bounds year (i + 1)).1
  have hlen : (if isLeapYear year && i == 1 then 29 else days) = monthLength year (i + 1) := by
    interval_cases i
    all_goals
      simp only [monTable, List.drop_zero, List.drop_succ_cons, List.cons.injEq] at h
      simp [h.1, monthLength, isLeapYear_iff]
  rw [monthLoop, ← hlen]
  rw [← hlen] at hshort
  split_ifs at hshort ⊢ <;> first | rfl | omega

/-- A day of the year lies in one of its months. -/
theorem month_lt {year month rest : ℕ} (h : monthStart year (month + 1) + rest < yearLength year) :
    month < 12 := by
  by_contra hno
  have hend := monthStart_mono year (show 13 ≤ month + 1 by omega)
  rw [monthStart_thirteen] at hend
  omega

/-- The loop stops in the month of the day. -/
theorem monthLoop_spec (year : ℕ) {months : List ℕ} {i temp : ℕ} (h : months = monTable.drop i)
    (hlt : monthStart year (i + 1) + temp < yearLength year) :
    monthStart year (i + 1) + temp =
        monthStart year ((monthLoop (isLeapYear year) months temp i).2 + 1) +
          (monthLoop (isLeapYear year) months temp i).1 ∧
      (monthLoop (isLeapYear year) months temp i).2 < 12 ∧
      (monthLoop (isLeapYear year) months temp i).1 <
        monthLength year ((monthLoop (isLeapYear year) months temp i).2 + 1) := by
  have hi : i < 12 := month_lt hlt
  induction months generalizing i temp with
  | nil =>
    have hlen := congrArg List.length h
    rw [List.length_drop] at hlen
    change 0 = 12 - i at hlen
    omega
  | cons days months ih =>
    rw [monthLoop_cons year h]
    by_cases hle : monthLength year (i + 1) ≤ temp
    · rw [if_pos hle]
      have hnext : months = monTable.drop (i + 1) := by
        rw [← List.tail_drop, ← h, List.tail_cons]
      have hsum := monthStart_succ year (Nat.le_add_left 1 i)
      have hlt' : monthStart year (i + 1 + 1) + (temp - monthLength year (i + 1)) <
          yearLength year := by omega
      obtain ⟨heq, hmonth, hday⟩ := ih hnext hlt' (month_lt hlt')
      exact ⟨by omega, hmonth, hday⟩
    · rw [if_neg hle]
      exact ⟨rfl, hi, Nat.lt_of_not_le hle⟩

/-! The date of a day number. -/

/-- What the loops make of a day number: its civil date, or the first of a thirteenth month. -/
theorem dateOfDays_cases (temp : ℕ) : ∃ d : Date, 1970 ≤ d.year ∧ d.number 1970 = temp ∧
    ((¬ d.LeapYearEnd ∧
        dateOfDays temp = (UInt16.ofNat d.year, UInt8.ofNat d.month, UInt8.ofNat d.day)) ∨
      (d.LeapYearEnd ∧ dateOfDays temp = (UInt16.ofNat (d.year + 1), 13, 1))) := by
  rcases yearLoop_spec temp 1970 with ⟨hlt, hsum⟩ | ⟨year, hyear, hleap, hsum, hloop⟩
  · set year := (yearLoop temp 1970).2 with hyear
    have hstart : monthStart year (0 + 1) + (yearLoop temp 1970).1 < yearLength year := by
      have := le_yearLength year
      rw [monthStart_one]
      omega
    obtain ⟨hday, hmonth, hlen⟩ := monthLoop_spec year (List.drop_zero (l := monTable)).symm hstart
    rw [monthStart_one, Nat.zero_add] at hday
    set m := monthLoop (isLeapYear year) monTable (yearLoop temp 1970).1 0 with hm
    have hvalid : IsDate year (m.2 + 1) (m.1 + 1) := ⟨by omega, by omega, by omega, hlen⟩
    refine ⟨⟨year, m.2 + 1, m.1 + 1, hvalid⟩, (yearLoop_year temp 1970).1, ?_, Or.inl ⟨?_, rfl⟩⟩
    · rw [Date.number, dayOfYear]
      dsimp only
      omega
    · rw [Date.leapYearEnd_iff, dayOfYear]
      dsimp only
      omega
  · have hvalid : IsDate year 12 31 := ⟨by decide, le_rfl, by decide, le_rfl⟩
    refine ⟨⟨year, 12, 31, hvalid⟩, hyear, ?_, Or.inr ⟨⟨hleap, rfl, rfl⟩, ?_⟩⟩
    · rw [Date.number, dayOfYear_end hleap, hsum]
    · have hcommon : isLeapYear (year + 1) = false := by
        rw [Bool.eq_false_iff]
        exact mt (isLeapYear_iff (year + 1)).mp (not_isLeap_succ hleap)
      rw [dateOfDays, hloop]
      dsimp only
      rw [hcommon]
      rfl

end Detector
