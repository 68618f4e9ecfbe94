import DetectorFirmware.Proofs.ClockReading

/-! The weekday of a reading. `RTC_Get_Week` counts from the turn of the century in place of
1970, and its result counts from Sunday; `week` is meant to count from Monday. -/

namespace Detector

open EventLog Gregorian

variable {r : Rtc} {d : Date}

/-! The congruence of `RTC_Get_Week`. -/

/-- The days in front of a month: those of a common year, and the leap day. -/
theorem monthStart_eq (year : ℕ) {month : ℕ} (h1 : 1 ≤ month) (h12 : month ≤ 12) :
    monthStart year month = [0, 31, 59, 90, 120, 151, 181, 212, 243, 273, 304, 334].getD (month - 1) 0 +
      if IsLeap year ∧ 3 ≤ month then 1 else 0 := by
  induction month, h1 using Nat.le_induction with
  | base => rw [monthStart_one, if_neg (by omega)]; rfl
  | succ month h1 ih =>
    have h11 : month ≤ 11 := by omega
    rw [monthStart_succ year h1, ih (by omega)]
    by_cases hleap : IsLeap year
    · interval_cases month <;> simp [monthLength, hleap]
    · interval_cases month <;> simp [monthLength, hleap]

/-- The table gives the same days modulo seven. -/
theorem tableWeekAt_eq (r : Rtc) {month : ℕ} (h1 : 1 ≤ month) (h12 : month ≤ 12) :
    (r.tableWeekAt ((month : ℤ) - 1)).toNat =
      [0, 31, 59, 90, 120, 151, 181, 212, 243, 273, 304, 334].getD (month - 1) 0 % 7 := by
  interval_cases month <;> rfl

/-- The sum of `RTC_Get_Week`, for a year that is `k` years after 1970, is the number of days
since then but for whole weeks. -/
theorem week_sum {k day : ℕ} (hday : 1 ≤ day) (start : ℕ) (leapDay : Prop) [Decidable leapDay]
    (h : leapDay → (1970 + k) % 4 = 0) :
    (70 + k + (70 + k) / 4 + day + start - if (1970 + k) % 4 = 0 ∧ ¬ leapDay then 1 else 0) % 7 =
      (365 * k + (k + 1) / 4 + (start + if leapDay then 1 else 0) + (day - 1) + 4) % 7 := by
  have hquarter : (70 + k) / 4 = 17 + (k + 1) / 4 + if (1970 + k) % 4 = 0 then 1 else 0 := by
    split_ifs <;> omega
  rw [hquarter]
  generalize (k + 1) / 4 = quarters
  by_cases hleap : (1970 + k) % 4 = 0
  · by_cases hmarch : leapDay
    · simp only [hleap, hmarch, not_true, and_false, if_true, if_false]
      omega
    · simp only [hleap, hmarch, not_false_eq_true, and_self, if_true, if_false]
      omega
  · have hmarch : ¬ leapDay := mt h hleap
    simp only [hleap, hmarch, false_and, if_false]
    omega

/-- Reducing the summands first makes no difference, and the 16-bit decrement does not wrap. -/
theorem week_reduced {day : ℕ} (h1 : 1 ≤ day) (h31 : day ≤ 31) (a start : ℕ) (back : Prop)
    [Decidable back] :
    (if back then (a % 7 + day + start % 7 + 65535) % 65536 else a % 7 + day + start % 7) % 7 % 256 =
      (a + day + start - if back then 1 else 0) % 7 := by
  have hpred : (a % 7 + day + start % 7 + 65535) % 65536 = a % 7 + day + start % 7 - 1 := by omega
  rw [hpred]
  split_ifs <;> omega

/-- `RTC_Get_Week` finds the weekday of a date of the supported range. -/
theorem rtcGetWeek_eq (r : Rtc) (hlow : 1970 ≤ d.year) (hhigh : d.year ≤ 2099) :
    (rtcGetWeek r (UInt16.ofNat d.year) (UInt8.ofNat d.month) (UInt8.ofNat d.day)).toNat =
      (d.number 1970 + 4) % 7 := by
  obtain ⟨h1, h12, hd1, hlen⟩ := d.valid
  have hshort := (monthLength_bounds d.year d.month).2
  have hyear := year_ofNat (show d.year < 65536 by omega)
  have hmonth := month_ofNat d
  have hday := day_ofNat d
  have hleap := isLeap_iff hlow (by omega)
  have htable := tableWeekAt_eq r h1 h12
  have hstart := monthStart_eq d.year h1 h12
  obtain ⟨k, hk⟩ := Nat.exists_eq_add_of_le hlow
  -- both branches of the century test leave the years since 1900
  have hcentury : (if d.year / 100 % 256 > 19 then d.year % 100 + 100 else d.year % 100) =
      70 + k := by
    split_ifs <;> omega
  have hsum := week_sum (k := k) hd1
    ([0, 31, 59, 90, 120, 151, 181, 212, 243, 273, 304, 334].getD (d.month - 1) 0)
    (IsLeap d.year ∧ 3 ≤ d.month) (fun h => by rw [← hk]; exact hleap.mp h.1)
  rw [Date.number, daysBefore_1970 hlow (by omega), dayOfYear, hstart,
    show d.year - 1970 = k by omega, show d.year - 1969 = k + 1 by omega, ← Nat.add_assoc (365 * k + _),
    ← hsum, ← hk]
  have hcond : ((70 + k) % 4 = 0 ∧ d.month < 3) ↔
      (d.year % 4 = 0 ∧ ¬ (IsLeap d.year ∧ 3 ≤ d.month)) := by
    rw [hleap]
    omega
  unfold rtcGetWeek
  simp only [hyear, hmonth, hday, hcentury, htable, hcond, UInt8.toNat_ofNat']
  exact week_reduced hd1 (hlen.trans hshort) _ _ _

/-! The weekday of a reading. -/

/-- The index of `table_week` that `RTC_Get_Week` reads. -/
def weekIndex (month : UInt8) : ℤ := (month.toNat : ℤ) - 1

/-- It reads no other one. -/
theorem rtcGetWeek_reads {r r' : Rtc} (year : UInt16) (month day : UInt8)
    (h : r.tableWeekAt (weekIndex month) = r'.tableWeekAt (weekIndex month)) :
    rtcGetWeek r year month day = rtcGetWeek r' year month day := by
  unfold weekIndex at h
  unfold rtcGetWeek
  rw [h]

/-- The weekday of a reading is that of the counter's day, counted from Sunday; the table is
read inside its bounds; and `week` is the same weekday counted from Monday. -/
structure WeekdayRight (r : Rtc) : Prop where
  wday : (rtcGet r).rtcDateTime.rtcWday.toNat = (r.counter.toNat / 86400 + 4) % 7
  in_table : 0 ≤ weekIndex (rtcGet r).rtcDateTime.month ∧ weekIndex (rtcGet r).rtcDateTime.month < 12
  week : (rtcGet r).rtcDateTime.week.toNat < 7 ∧
    (rtcGet r).rtcDateTime.week.toNat = ((rtcGet r).rtcDateTime.rtcWday.toNat + 6) % 7

theorem rtcGet_wday (r : Rtc) : (rtcGet r).rtcDateTime.rtcWday = rtcGetWeek r
    (rtcGet r).rtcDateTime.date.1 (rtcGet r).rtcDateTime.date.2.1 (rtcGet r).rtcDateTime.date.2.2 := rfl

theorem rtcGet_week (r : Rtc) :
    (rtcGet r).rtcDateTime.week = (rtcGet r).rtcDateTime.rtcWday.toUInt32 - 1 := rfl

/-- Going one day back works for every weekday but Sunday. -/
theorem week_of_wday {wday : UInt8} (h : wday.toNat < 7) :
    ((wday.toUInt32 - 1).toNat < 7 ∧ (wday.toUInt32 - 1).toNat = (wday.toNat + 6) % 7) ↔
      wday.toNat ≠ 0 := by
  have hsub : (wday.toUInt32 - 1).toNat = (wday.toNat + 4294967295) % 4294967296 := by
    rw [UInt32.toNat_sub, UInt8.toNat_toUInt32]
    simp [Nat.add_comm]
  rw [hsub]
  generalize wday.toNat = n at h
  interval_cases n <;> simp

theorem weekdayRight_iff (h : r.counter.toNat < 4102444800) (hday : r.day ≠ r.daycnt.toNat) :
    WeekdayRight r ↔ (r.counter.toNat / 86400 + 4) % 7 ≠ 0 ∧ ¬ LeapYearEndDay r.day := by
  obtain ⟨d, hd, hnumber, -⟩ := dateOfDays_cases r.day
  have hhigh : d.year ≤ 2099 := by
    by_contra hno
    have hlast : daysBefore 1970 2100 = 47482 := daysBefore_1970 (by decide) le_rfl
    have hmono := daysBefore_mono 1970 (show 2100 ≤ d.year by omega)
    rw [Date.number, Rtc.day] at hnumber
    omega
  rw [← hnumber, leapYearEndDay_iff hd]
  rcases rtcGet_cases hday hd hnumber with ⟨hend, hdate⟩ | ⟨hend, hdate⟩
  · have hwday : (rtcGet r).rtcDateTime.rtcWday.toNat = (r.counter.toNat / 86400 + 4) % 7 := by
      rw [rtcGet_wday, hdate, rtcGetWeek_eq r hd hhigh, hnumber, Rtc.day]
    have hmonth : weekIndex (rtcGet r).rtcDateTime.month = d.month - 1 := by
      have hfield : (rtcGet r).rtcDateTime.month = UInt8.ofNat d.month :=
        congrArg (fun date => date.2.1) hdate
      rw [weekIndex, hfield, month_ofNat]
    have hlt : (rtcGet r).rtcDateTime.rtcWday.toNat < 7 := by
      rw [hwday]
      exact Nat.mod_lt _ (by decide)
    have hweek := week_of_wday hlt
    rw [← rtcGet_week, hwday] at hweek
    constructor
    · intro hright
      exact ⟨hweek.mp (by rw [← hwday]; exact hright.week), hend⟩
    · rintro ⟨hsunday, -⟩
      have h1 := d.valid.1
      have h12 := d.valid.2.1
      exact ⟨hwday, by rw [hmonth]; omega, by rw [hwday]; exact hweek.mpr hsunday⟩
  · refine iff_of_false (fun hright => ?_) fun hno => hno.2 hend
    have hin := hright.in_table.2
    rw [show (rtcGet r).rtcDateTime.month = 13 from congrArg (fun date => date.2.1) hdate] at hin
    exact absurd hin (by decide)

/-- The second day of 1970, a Friday. -/
def fridayRtc : Rtc := coldStart 86400 (fun _ => 0) (fun _ => 0)

theorem fridayRtc_uncached : fridayRtc.day ≠ fridayRtc.daycnt.toNat := by
  rw [Rtc.day]
  decide

theorem weekdayRight_friday_iff : WeekdayRight fridayRtc ↔
    (fridayRtc.counter.toNat / 86400 + 4) % 7 ≠ 0 ∧ ¬ LeapYearEndDay fridayRtc.day :=
  weekdayRight_iff (by decide) fridayRtc_uncached

/-- The fourth day of 1970, a Sunday. -/
def sundayRtc : Rtc := coldStart 259200 (fun _ => 0) (fun _ => 0)

theorem not_weekdayRight_sunday : 86400 ≤ sundayRtc.counter.toNat ∧
    sundayRtc.counter.toNat < 4102444800 ∧ sundayRtc.day ≠ sundayRtc.daycnt.toNat ∧
      ¬ WeekdayRight sundayRtc := by
  refine ⟨by decide, by decide, by rw [Rtc.day]; decide, fun hright => ?_⟩
  have hwday : (rtcGet sundayRtc).rtcDateTime.rtcWday.toNat = 0 := hright.wday
  have hweek := hright.week
  rw [rtcGet_week, week_of_wday (by omega)] at hweek
  exact hweek hwday

end Detector
