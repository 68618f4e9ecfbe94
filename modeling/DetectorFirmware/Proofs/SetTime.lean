import DetectorFirmware.Model.Protocol

/-! The set-time command. Its bytes overwrite the date and time in `RtcDateTime`, then
`RTC_Set` sets the counter or rejects the year, and the calendar is read again. -/

namespace Detector

open EventLog

/-- The date and time of a set-time command. -/
structure SetTime where
  year : UInt16
  month : UInt8
  day : UInt8
  hour : UInt8
  minute : UInt8
  second : UInt8

variable {r : Rtc} {t : SetTime}

namespace SetTime

def ofFrame (frame : TsFrameData) (heap : ℕ → UInt8) : SetTime :=
  ⟨frame.bigEndian heap, frame.byte heap 2, frame.byte heap 3, frame.byte heap 4,
    frame.byte heap 5, frame.byte heap 6⟩

def date (t : SetTime) : UInt16 × UInt8 × UInt8 := (t.year, t.month, t.day)

/-- `RTC_Set` returns 1. -/
def Rejected (t : SetTime) : Prop := t.year.toNat < 1970 ∨ 2099 < t.year.toNat

instance (t : SetTime) : Decidable t.Rejected := by unfold Rejected; infer_instance

def seconds (t : SetTime) (r : Rtc) : UInt32 :=
  rtcSetSeconds r t.year t.month t.day t.hour t.minute t.second

/-- The day that the counter shows after the command. -/
def dayAfter (t : SetTime) (r : Rtc) : ℕ :=
  if t.Rejected then r.day else (t.seconds r).toNat / 86400

/-- The calendar that the command hands to `RTC_Set`. -/
def overwrite (t : SetTime) (r : Rtc) : Rtc :=
  { r with
    rtcDateTime := { r.rtcDateTime with
      hour := t.hour, minute := t.minute, second := t.second
      day := t.day, month := t.month, year := t.year } }

/-- The calendar that the command reads again. -/
def apply (t : SetTime) (r : Rtc) : Rtc :=
  (rtcSet (t.overwrite r) t.year t.month t.day t.hour t.minute t.second).2

end SetTime

theorem setCurrentTime_eq (frame : TsFrameData) (heap : ℕ → UInt8) (rtc : Rtc) :
    setCurrentTime frame heap rtc = rtcGet ((SetTime.ofFrame frame heap).apply rtc) := rfl

theorem calendar_setCurrentTime {frame : TsFrameData}
    (htype : TeFrameC2.ofByte frame.c2 = some .kSetCurrentTime) (heap : ℕ → UInt8) (rtc : Rtc)
    (f : Flash) :
    ((hrProcessData heap frame rtc).result f).2 = setCurrentTime frame heap rtc := by
  simp only [hrProcessData, hrSwitch, htype, Prog.result_bind, Prog.result_pure]

/-- The sum of `RTC_Set` looks at the table only. -/
theorem rtcSetSeconds_congr {r r' : Rtc} (h : r.besideMonTable = r'.besideMonTable) (syear : UInt16)
    (smon sday hour min sec : UInt8) :
    rtcSetSeconds r syear smon sday hour min sec = rtcSetSeconds r' syear smon sday hour min sec := by
  unfold rtcSetSeconds Rtc.monTableAt
  rw [h]

/-- `RTC_Set` changes the counter only. -/
theorem rtcSet_eq (r : Rtc) (syear : UInt16) (smon sday hour min sec : UInt8) :
    (rtcSet r syear smon sday hour min sec).2 =
      { r with counter := if syear.toNat < 1970 ∨ 2099 < syear.toNat then r.counter
                else rtcSetSeconds r syear smon sday hour min sec } := by
  by_cases hyear : syear.toNat < 1970 ∨ 2099 < syear.toNat
  · rw [rtcSet, if_pos hyear, if_pos hyear]
  · rw [rtcSet, if_neg hyear, if_neg hyear]

theorem SetTime.apply_eq (t : SetTime) (r : Rtc) : t.apply r =
    { t.overwrite r with counter := if t.Rejected then r.counter else t.seconds r } := by
  have hseconds : t.seconds r =
      rtcSetSeconds (t.overwrite r) t.year t.month t.day t.hour t.minute t.second :=
    rtcSetSeconds_congr rfl _ _ _ _ _ _
  rw [SetTime.apply, rtcSet_eq, hseconds]
  rfl

theorem SetTime.apply_counter (t : SetTime) (r : Rtc) :
    (t.apply r).counter = if t.Rejected then r.counter else t.seconds r := by
  rw [t.apply_eq]

theorem SetTime.apply_date (t : SetTime) (r : Rtc) : (t.apply r).rtcDateTime.date = t.date := by
  rw [t.apply_eq]
  rfl

theorem SetTime.apply_daycnt (t : SetTime) (r : Rtc) : (t.apply r).daycnt = r.daycnt := by
  rw [t.apply_eq]
  rfl

theorem SetTime.apply_day (t : SetTime) (r : Rtc) : (t.apply r).day = t.dayAfter r := by
  rw [Rtc.day, SetTime.apply_counter, SetTime.dayAfter]
  split_ifs
  · rfl
  · rfl

end Detector
