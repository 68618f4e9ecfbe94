import DetectorFirmware.Proofs.SetTime

/-! The static day count of `RTC_Get`. The date is computed only when the counter's day
differs from it, and two things break the cache: it starts on day 0 without a date,
and a set-time command writes into the date before it knows whether the day changes. -/

namespace Detector

open EventLog

variable {r : Rtc}

/-! Day numbers and the years they fall in. -/

theorem day_lt (r : Rtc) : r.day < 65536 := by
  have := r.counter.toNat_lt
  rw [Rtc.day]
  omega

theorem yearLoop_year (temp temp1 : ℕ) :
    temp1 ≤ (yearLoop temp temp1).2 ∧ (yearLoop temp temp1).2 ≤ temp1 + temp / 365 := by
  induction temp, temp1 using yearLoop.induct with
  | case1 temp temp1 h hleap h366 ih =>
    rw [yearLoop]
    simp only [h, hleap, h366, if_true]
    omega
  | case2 temp temp1 h hleap h366 =>
    rw [yearLoop]
    simp only [h, hleap, h366, if_true, if_false]
    omega
  | case3 temp temp1 h hleap ih =>
    rw [yearLoop]
    simp only [h, hleap, if_true, Bool.false_eq_true, if_false]
    omega
  | case4 temp temp1 h =>
    rw [yearLoop]
    simp only [h, if_false]
    omega

/-- The date computation starts in 1970. -/
theorem dateOfDays_year {temp : ℕ} (h : temp < 65536) : 1970 ≤ (dateOfDays temp).1.toNat := by
  obtain ⟨hlow, hhigh⟩ := yearLoop_year temp 1970
  simp only [dateOfDays, UInt16.toNat_ofNat']
  omega

theorem dateOfDays_zero : dateOfDays 0 = (1970, 1, 1) := by
  have hyear : yearLoop 0 1970 = (0, 1970) := by
    rw [yearLoop]
    simp
  rw [dateOfDays, hyear]
  rfl

/-! Runs. -/

/-- The events of a run; `command` is a set-time frame that `HR_ProcessData` handles. -/
inductive RtcEvent where
  | tick
  | set (syear : UInt16) (smon sday hour min sec : UInt8)
  | command (c1 : UInt8) (data : Vector UInt8 7) (heap : ℕ → UInt8) (f : Flash)
  | get

def setTimeFrame (c1 : UInt8) (data : Vector UInt8 7) : TsFrameData :=
  ⟨c1, 0x0A, 7, data.toList, by simp⟩

instance : System Rtc RtcEvent where
  step r
    | .tick => { r with counter := r.counter + 1 }
    | .set syear smon sday hour min sec => (rtcSet r syear smon sday hour min sec).2
    | .command c1 data heap f => ((hrProcessData heap (setTimeFrame c1 data) r).result f).2
    | .get => rtcGet r

/-- The reported date is the one that the date computation gives for the counter's day. -/
def Coherent (r : Rtc) : Prop := r.rtcDateTime.date = dateOfDays r.day

/-- Every event that reads the calendar leaves the right date. -/
def ReportsRight (r : Rtc) (e : RtcEvent) : Prop :=
  match e with
  | .tick => True
  | .set _ _ _ _ _ _ => True
  | .command _ _ _ _ => Coherent (System.step r e)
  | .get => Coherent (System.step r e)

/-- The date and time in the data field of a set-time frame. -/
def SetTime.ofData (data : Vector UInt8 7) : SetTime :=
  ⟨halfWord data[1] data[0], data[2], data[3], data[4], data[5], data[6]⟩

/-- The calendar has been read before, or the counter is past its first day; and a command
for the day of the last reading repeats the date of that reading. -/
def DateSafe (r : Rtc) (e : RtcEvent) : Prop :=
  match e with
  | .tick => True
  | .set _ _ _ _ _ _ => True
  | .command _ data _ _ =>
    (SetTime.ofData data).dayAfter r ≠ r.daycnt.toNat ∨
      (SetTime.ofData data).date =
        (if r.rtcDateTime.year = 0 then (1970, 1, 1) else r.rtcDateTime.date)
  | .get => r.rtcDateTime.year ≠ 0 ∨ r.day ≠ 0

/-! The invariant: what the static day count says about the date in `RtcDateTime`. -/

/-- The date is the one of the cached day, or nothing has been read yet. -/
def Cached (r : Rtc) : Prop :=
  (r.rtcDateTime.year ≠ 0 ∧ r.rtcDateTime.date = dateOfDays r.daycnt.toNat) ∨
    (r.rtcDateTime.year = 0 ∧ r.daycnt = 0)

/-- The date that a reading of the cached day would have to show. -/
theorem Cached.date_eq (h : Cached r) : dateOfDays r.daycnt.toNat =
    if r.rtcDateTime.year = 0 then (1970, 1, 1) else r.rtcDateTime.date := by
  rcases h with ⟨hyear, hdate⟩ | ⟨hyear, hzero⟩
  · rw [if_neg hyear, hdate]
  · rw [if_pos hyear, hzero]
    exact dateOfDays_zero

theorem rtcGet_day (r : Rtc) : (rtcGet r).day = r.day := rfl

/-- A reading is right if it recomputes the date or finds the right one. -/
theorem coherent_rtcGet (r : Rtc) : Coherent (rtcGet r) ↔
    r.day ≠ r.daycnt.toNat ∨ r.rtcDateTime.date = dateOfDays r.day := by
  rw [Coherent, rtcGet_date, rtcGet_day]
  by_cases hday : r.daycnt.toNat = r.day
  · rw [if_neg (not_not.mpr hday), or_iff_right (not_not.mpr hday.symm)]
  · rw [if_pos hday]
    exact iff_of_true rfl (Or.inl (Ne.symm hday))

/-- A right reading caches the date it shows. -/
theorem Coherent.cached (h : Coherent (rtcGet r)) : Cached (rtcGet r) := by
  have hcnt : (rtcGet r).daycnt.toNat = r.day := by
    change (UInt16.ofNat r.day).toNat = r.day
    rw [UInt16.toNat_ofNat', Nat.mod_eq_of_lt (day_lt r)]
  rw [Coherent, rtcGet_day] at h
  refine Or.inl ⟨fun hzero => ?_, by rw [hcnt, h]⟩
  have hyear := dateOfDays_year (day_lt r)
  rw [← h] at hyear
  change 1970 ≤ (rtcGet r).rtcDateTime.year.toNat at hyear
  rw [hzero] at hyear
  exact absurd hyear (by decide)

theorem ofFrame_setTimeFrame (c1 : UInt8) (data : Vector UInt8 7) (heap : ℕ → UInt8) :
    SetTime.ofFrame (setTimeFrame c1 data) heap = SetTime.ofData data := by
  have hbyte : ∀ i (hi : i < 7), (setTimeFrame c1 data).byte heap i = data[i] := by
    intro i hi
    rw [TsFrameData.byte, setTimeFrame, List.getD_eq_getElem?_getD,
      List.getElem?_eq_getElem (by simpa using hi), Option.getD_some, Vector.getElem_toList]
  rw [SetTime.ofFrame, SetTime.ofData, TsFrameData.bigEndian, hbyte 0 (by decide),
    hbyte 1 (by decide), hbyte 2 (by decide), hbyte 3 (by decide), hbyte 4 (by decide),
    hbyte 5 (by decide), hbyte 6 (by decide)]

theorem step_command (r : Rtc) (c1 : UInt8) (data : Vector UInt8 7) (heap : ℕ → UInt8) (f : Flash) :
    System.step r (RtcEvent.command c1 data heap f) = rtcGet ((SetTime.ofData data).apply r) := by
  have htype : TeFrameC2.ofByte (setTimeFrame c1 data).c2 = some .kSetCurrentTime := rfl
  rw [← ofFrame_setTimeFrame c1 data heap, ← setCurrentTime_eq]
  exact calendar_setCurrentTime htype heap r f

/-! One event. -/

theorem reportsRight_step (e : RtcEvent) (h : Cached r) : ReportsRight r e ↔ DateSafe r e := by
  cases e with
  | tick => exact Iff.rfl
  | set syear smon sday hour min sec => exact Iff.rfl
  | command c1 data heap f =>
    have hstep : ReportsRight r (.command c1 data heap f) ↔
        Coherent (rtcGet ((SetTime.ofData data).apply r)) := by
      rw [← step_command r c1 data heap f]
      rfl
    rw [hstep, coherent_rtcGet, SetTime.apply_day, SetTime.apply_date, SetTime.apply_daycnt, DateSafe,
      ← h.date_eq]
    by_cases hday : (SetTime.ofData data).dayAfter r = r.daycnt.toNat
    · rw [hday]
    · exact iff_of_true (Or.inl hday) (Or.inl hday)
  | get =>
    have hstep : ReportsRight r .get ↔ Coherent (rtcGet r) := Iff.rfl
    rw [hstep, coherent_rtcGet, DateSafe]
    rcases h with ⟨hyear, hdate⟩ | ⟨hyear, hzero⟩
    · refine iff_of_true ?_ (Or.inl hyear)
      by_cases hday : r.day = r.daycnt.toNat
      · exact Or.inr (by rw [hdate, hday])
      · exact Or.inl hday
    · rw [hzero, UInt16.toNat_zero, or_iff_right (not_not.mpr hyear)]
      refine or_iff_left fun hdate => ?_
      have hlow := dateOfDays_year (day_lt r)
      rw [← hdate] at hlow
      change 1970 ≤ r.rtcDateTime.year.toNat at hlow
      rw [hyear] at hlow
      exact absurd hlow (by decide)

theorem cached_step (e : RtcEvent) (h : Cached r) (hright : ReportsRight r e) :
    Cached (System.step r e) := by
  cases e with
  | tick => exact h
  | set syear smon sday hour min sec =>
    change Cached (rtcSet r syear smon sday hour min sec).2
    rw [rtcSet_eq]
    exact h
  | command c1 data heap f =>
    have hcoherent : Coherent (System.step r (RtcEvent.command c1 data heap f)) := hright
    rw [step_command] at hcoherent ⊢
    exact hcoherent.cached
  | get =>
    have hcoherent : Coherent (rtcGet r) := hright
    exact hcoherent.cached

theorem cached_coldStart (counter : UInt32) (besideTableWeek : ℤ → UInt8)
    (besideMonTable : ℕ → UInt8) : Cached (coldStart counter besideTableWeek besideMonTable) :=
  Or.inr ⟨rfl, rfl⟩

/-- In every run from start-up the reported dates are right exactly as long as the
readings and the commands are safe ones. -/
theorem reportsRight_iff (counter : UInt32) (besideTableWeek : ℤ → UInt8)
    (besideMonTable : ℕ → UInt8) (run : List RtcEvent) :
    Steps ReportsRight (coldStart counter besideTableWeek besideMonTable) run ↔
      Steps DateSafe (coldStart counter besideTableWeek besideMonTable) run := by
  have hiff : ∀ r e, Cached r → (ReportsRight r e ↔ DateSafe r e) :=
    fun _ e h => reportsRight_step e h
  have hstep : ∀ r e, Cached r → ReportsRight r e → Cached (System.step r e) :=
    fun _ e h => cached_step e h
  exact Steps.iff_of_invariant hiff hstep (cached_coldStart counter besideTableWeek besideMonTable)

/-- Day 1 is read, then a command for the year 2100 comes, which `RTC_Set` rejects. -/
def rejectedRun : List RtcEvent :=
  [.get, .command 0 #v[0x08, 0x34, 3, 25, 0, 0, 0] (fun _ => 0) blankFlash]

theorem not_reportsRight_rejected :
    ¬ Steps ReportsRight (coldStart 86400 (fun _ => 0) (fun _ => 0)) rejectedRun := by
  rintro ⟨hget, hcommand, -⟩
  set r := System.step (coldStart 86400 (fun _ => 0) (fun _ => 0)) RtcEvent.get with hr
  have hcached : Cached r := cached_step .get (cached_coldStart _ _ _) hget
  have hday : r.day = 1 := by
    change (86400 : UInt32).toNat / 86400 = 1
    decide
  have hcnt : r.daycnt.toNat = 1 := by
    change (UInt16.ofNat r.day).toNat = 1
    rw [hday]
    rfl
  have hreject : (SetTime.ofData #v[0x08, 0x34, 3, 25, 0, 0, 0]).dayAfter r = 1 := by
    rw [SetTime.dayAfter, if_pos (by decide), hday]
  have hsafe := (reportsRight_step _ hcached).mp hcommand
  rcases hsafe with hne | hdate
  · exact hne (hreject.trans hcnt.symm)
  · rw [← hcached.date_eq, hcnt] at hdate
    have hyear := yearLoop_year 1 1970
    have hfirst : (2100 : UInt16) = UInt16.ofNat (yearLoop 1 1970).2 := congrArg Prod.fst hdate
    have := congrArg UInt16.toNat hfirst
    rw [UInt16.toNat_ofNat'] at this
    change 2100 = _ at this
    omega

end Detector
