import DetectorFirmware.Proofs.SetClock

/-! What `RTC_Get` shows on a day that is not the cached one: the civil date and time of the
counter, and a weekday. The date is wrong on the last day of a leap year, and the weekday
has no place in a week that begins on Monday when it is a Sunday. -/

namespace Detector

open EventLog Gregorian

variable {r : Rtc} {d : Date} {s : TimeOfDay}

/-- The calendar shows the date and the time. -/
structure Shows (t : TsRtcDateTime) (d : Date) (s : TimeOfDay) : Prop where
  year : t.year.toNat = d.year
  month : t.month.toNat = d.month
  day : t.day.toNat = d.day
  hour : t.hour.toNat = s.hour
  minute : t.minute.toNat = s.minute
  second : t.second.toNat = s.second

/-- A reading shows the civil date and time of the counter. -/
def ReadsRight (r : Rtc) : Prop :=
  ∃ d s, Shows (rtcGet r).rtcDateTime d s ∧ 1970 ≤ d.year ∧ d.number 1970 = r.counter.toNat / 86400 ∧
    s.seconds = r.counter.toNat % 86400

/-- The day number is that of a thirty-first of December in a leap year. -/
def LeapYearEndDay (n : ℕ) : Prop := ∃ d : Date, 1970 ≤ d.year ∧ d.number 1970 = n ∧ d.LeapYearEnd

theorem leapYearEndDay_iff (hd : 1970 ≤ d.year) : LeapYearEndDay (d.number 1970) ↔ d.LeapYearEnd := by
  constructor
  · rintro ⟨e, he, hnumber, hend⟩
    rwa [← Date.number_inj he hd hnumber]
  · exact fun hend => ⟨d, hd, rfl, hend⟩

/-- The time in the seconds of a day. -/
def timeOf (secs : ℕ) (h : secs < 86400) : TimeOfDay :=
  ⟨secs / 3600, secs % 3600 / 60, secs % 3600 % 60, by omega, by omega, by omega⟩

theorem timeOf_seconds (secs : ℕ) (h : secs < 86400) : (timeOf secs h).seconds = secs := by
  unfold TimeOfDay.seconds timeOf
  dsimp only
  omega

theorem year_lt (hd : 1970 ≤ d.year) (hnumber : d.number 1970 = r.day) : d.year < 2150 := by
  have hday := day_lt r
  have hyears := le_daysBefore hd
  rw [Date.number] at hnumber
  omega

/-! A date in the fields of the calendar. -/

theorem year_ofNat (h : d.year < 65536) : (UInt16.ofNat d.year).toNat = d.year := by
  rw [UInt16.toNat_ofNat', Nat.mod_eq_of_lt h]

theorem month_ofNat (d : Date) : (UInt8.ofNat d.month).toNat = d.month := by
  have h12 := d.valid.2.1
  rw [UInt8.toNat_ofNat', Nat.mod_eq_of_lt (by omega)]

theorem day_ofNat (d : Date) : (UInt8.ofNat d.day).toNat = d.day := by
  have hlen := d.valid.2.2.2
  have hshort := (monthLength_bounds d.year d.month).2
  rw [UInt8.toNat_ofNat', Nat.mod_eq_of_lt (by omega)]

/-- The date that a reading computes. -/
theorem rtcGet_cases (hday : r.day ≠ r.daycnt.toNat) (hd : 1970 ≤ d.year)
    (hnumber : d.number 1970 = r.day) :
    (¬ d.LeapYearEnd ∧ (rtcGet r).rtcDateTime.date =
        (UInt16.ofNat d.year, UInt8.ofNat d.month, UInt8.ofNat d.day)) ∨
      (d.LeapYearEnd ∧ (rtcGet r).rtcDateTime.date = (UInt16.ofNat (d.year + 1), 13, 1)) := by
  obtain ⟨e, he, hnumber', hcases⟩ := dateOfDays_cases r.day
  obtain rfl := Date.number_inj hd he (hnumber.trans hnumber'.symm)
  rwa [rtcGet_date, if_pos hday.symm]

theorem shows_iff (hday : r.day ≠ r.daycnt.toNat) (hd : 1970 ≤ d.year)
    (hnumber : d.number 1970 = r.day) (hsecs : s.seconds = r.counter.toNat % 86400) :
    Shows (rtcGet r).rtcDateTime d s ↔ ¬ d.LeapYearEnd := by
  rcases rtcGet_cases hday hd hnumber with ⟨hend, hdate⟩ | ⟨hend, hdate⟩
  · refine iff_of_true ?_ hend
    have hyear := year_lt hd hnumber
    obtain ⟨hh, hm, hs⟩ := s.valid
    unfold TimeOfDay.seconds at hsecs
    constructor
    · exact (congrArg (fun date => date.1.toNat) hdate).trans (year_ofNat (by omega))
    · exact (congrArg (fun date => date.2.1.toNat) hdate).trans (month_ofNat d)
    · exact (congrArg (fun date => date.2.2.toNat) hdate).trans (day_ofNat d)
    · change (UInt8.ofNat (r.counter.toNat % 86400 / 3600)).toNat = s.hour
      rw [UInt8.toNat_ofNat']
      omega
    · change (UInt8.ofNat (r.counter.toNat % 86400 % 3600 / 60)).toNat = s.minute
      rw [UInt8.toNat_ofNat']
      omega
    · change (UInt8.ofNat (r.counter.toNat % 86400 % 3600 % 60)).toNat = s.second
      rw [UInt8.toNat_ofNat']
      omega
  · refine iff_of_false (fun hshows => ?_) (not_not.mpr hend)
    have hmonth := hshows.month
    rw [show (rtcGet r).rtcDateTime.month = 13 from congrArg (fun date => date.2.1) hdate] at hmonth
    have h12 := d.valid.2.1
    have h13 : (13 : UInt8).toNat = 13 := rfl
    omega

theorem readsRight_iff (hday : r.day ≠ r.daycnt.toNat) :
    ReadsRight r ↔ ¬ LeapYearEndDay r.day := by
  obtain ⟨e, he, hnumber, -⟩ := dateOfDays_cases r.day
  rw [← hnumber, leapYearEndDay_iff he]
  have hlt : r.counter.toNat % 86400 < 86400 := Nat.mod_lt _ (by decide)
  constructor
  · rintro ⟨d, s, hshows, hd, hd', hs⟩
    obtain rfl := Date.number_inj hd he (hd'.trans hnumber.symm)
    exact (shows_iff hday hd hd' hs).mp hshows
  · intro hend
    have hs := timeOf_seconds _ hlt
    exact ⟨e, _, (shows_iff hday he hnumber hs).mpr hend, he, hnumber, hs⟩

theorem div_seconds (n : ℕ) {secs : ℕ} (h : secs < 86400) : (n * 86400 + secs) / 86400 = n := by
  omega

theorem mod_seconds (n : ℕ) {secs : ℕ} (h : secs < 86400) : (n * 86400 + secs) % 86400 = secs := by
  omega

/-- The first reading after `RTC_Set` shows the date and time that were set. -/
theorem shows_set_iff {t : SetTime} (hname : t.Names d s) (hlow : 1970 ≤ d.year)
    (hhigh : d.year ≤ 2099) (hday : d.number 1970 ≠ r.daycnt.toNat) :
    Shows (rtcGet (t.call r).2).rtcDateTime d s ↔ ¬ d.LeapYearEnd := by
  have hyear : ¬ t.Rejected := by
    rw [SetTime.Rejected, hname.year]
    omega
  have hsecs := s.seconds_lt
  have hcounter : (t.call r).2.counter.toNat = d.number 1970 * 86400 + s.seconds := by
    rw [call_state hyear]
    exact counter_of_names hname r hlow hhigh
  have hnumber : d.number 1970 = (t.call r).2.day := by
    rw [Rtc.day, hcounter, div_seconds _ hsecs]
  have hcached : (t.call r).2.day ≠ (t.call r).2.daycnt.toNat := by
    rw [← hnumber, call_state hyear]
    exact hday
  exact shows_iff hcached hlow hnumber (by rw [hcounter, mod_seconds _ hsecs])

/-- On a day that is not the cached one a reading is right, and shows what `RTC_Set` has
set, exactly if the day is not the last one of a leap year. -/
theorem clock_reading_iff (r : Rtc) :
    (r.day ≠ r.daycnt.toNat → (ReadsRight r ↔ ¬ LeapYearEndDay r.day)) ∧
    (∀ (t : SetTime) (d : Date) (s : TimeOfDay), t.Names d s → 1970 ≤ d.year → d.year ≤ 2099 →
      d.number 1970 ≠ r.daycnt.toNat →
        (Shows (rtcGet (t.call r).2).rtcDateTime d s ↔ ¬ d.LeapYearEnd)) :=
  ⟨readsRight_iff, fun _ _ _ hname hlow hhigh hday => shows_set_iff hname hlow hhigh hday⟩

/-- The last day of 1972. -/
def newYearsEve : Date := ⟨1972, 12, 31, by decide⟩

theorem newYearsEve_number : newYearsEve.number 1970 = 1095 := by
  have hyears : daysBefore 1970 1972 = 730 := daysBefore_1970 (by decide) (by decide)
  have hday : dayOfYear 1972 12 31 = 365 := dayOfYear_end (by decide)
  rw [Date.number, newYearsEve, hyears, hday]

/-- Midnight of that day. -/
def newYearsEveRtc : Rtc := coldStart 94608000 (fun _ => 0) (fun _ => 0)

theorem not_readsRight_newYearsEve : 86400 ≤ newYearsEveRtc.counter.toNat ∧
    newYearsEveRtc.day ≠ newYearsEveRtc.daycnt.toNat ∧ ¬ ReadsRight newYearsEveRtc := by
  have hday : newYearsEveRtc.day = 1095 := by
    rw [Rtc.day]
    decide
  have hcached : newYearsEveRtc.day ≠ newYearsEveRtc.daycnt.toNat := by
    rw [hday]
    decide
  refine ⟨by decide, hcached, ?_⟩
  rw [readsRight_iff hcached, not_not, hday, ← newYearsEve_number]
  exact (leapYearEndDay_iff (by decide)).mpr ⟨by decide, rfl, rfl⟩

end Detector
