import Mathlib.Algebra.Order.Ring.Int
import DetectorFirmware.Library.ReadLog

/-! The calendar of `bsp_rtc.c`: the 32-bit seconds counter, the broken-down time
in the global `RtcDateTime`, and the static day count that lets `RTC_Get` skip the
date computation. -/

namespace Detector

open EventLog

/-- `week` is the enumeration's integer, `rtc_wday - 1` wrapping below zero. -/
structure TsRtcDateTime where
  second : UInt8
  minute : UInt8
  hour : UInt8
  day : UInt8
  month : UInt8
  year : UInt16
  rtcWday : UInt8
  week : UInt32
  deriving DecidableEq, Repr

/-- The hardware counter, the statics of `bsp_rtc.c`, and what the image holds
beside its two constant tables, which an index out of range reads. -/
structure Rtc where
  counter : UInt32
  daycnt : UInt16
  rtcDateTime : TsRtcDateTime
  besideTableWeek : ℤ → UInt8
  besideMonTable : ℕ → UInt8

/-- Statics as the start-up code leaves them. -/
def TsRtcDateTime.zero : TsRtcDateTime := ⟨0, 0, 0, 0, 0, 0, 0, 0⟩

/-- Start-up with any counter and any image around the tables. -/
def coldStart (counter : UInt32) (besideTableWeek : ℤ → UInt8) (besideMonTable : ℕ → UInt8) : Rtc :=
  ⟨counter, 0, .zero, besideTableWeek, besideMonTable⟩

def tableWeek : List UInt8 := [0, 3, 3, 6, 1, 4, 6, 2, 5, 0, 3, 5]

def monTable : List ℕ := [31, 28, 31, 30, 31, 30, 31, 31, 30, 31, 30, 31]

def Rtc.tableWeekAt (r : Rtc) (i : ℤ) : UInt8 :=
  if 0 ≤ i then tableWeek.getD i.toNat (r.besideTableWeek i) else r.besideTableWeek i

def Rtc.monTableAt (r : Rtc) (t : ℕ) : UInt8 :=
  (monTable.map UInt8.ofNat).getD t (r.besideMonTable t)

def isLeapYear (year : ℕ) : Bool :=
  if year % 4 = 0 then
    if year % 100 = 0 then
      if year % 400 = 0 then true else false
    else true
  else false

def rtcGetWeek (r : Rtc) (year : UInt16) (month day : UInt8) : UInt8 :=
  let yearH := year.toNat / 100 % 256
  let yearL := year.toNat % 100
  let yearL := if yearH > 19 then yearL + 100 else yearL
  let temp2 := (yearL + yearL / 4) % 7
  let temp2 := temp2 + day.toNat + (r.tableWeekAt ((month.toNat : ℤ) - 1)).toNat
  -- `temp2` is an unsigned 16-bit value when it is decremented
  let temp2 := if yearL % 4 = 0 ∧ month.toNat < 3 then (temp2 + 65535) % 65536 else temp2
  UInt8.ofNat (temp2 % 7)

/-- The year loop of `RTC_Get`: days left over and the year they fall in. -/
def yearLoop (temp temp1 : ℕ) : ℕ × ℕ :=
  if 365 ≤ temp then
    if isLeapYear temp1 then
      if 366 ≤ temp then yearLoop (temp - 366) (temp1 + 1)
      else (temp, temp1 + 1)
    else yearLoop (temp - 365) (temp1 + 1)
  else (temp, temp1)
termination_by temp
decreasing_by all_goals omega

/-- The month loop of `RTC_Get`, over the table entries from `temp1` on. The empty
list is the end of the table, which `monthLoop_exit` shows the loop never overruns. -/
def monthLoop (leap : Bool) : List ℕ → ℕ → ℕ → ℕ × ℕ
  | [], temp, temp1 => (temp, temp1)
  | days :: months, temp, temp1 =>
    if 28 ≤ temp then
      if leap && temp1 == 1 then
        if 29 ≤ temp then monthLoop leap months (temp - 29) (temp1 + 1) else (temp, temp1)
      else
        if days ≤ temp then monthLoop leap months (temp - days) (temp1 + 1) else (temp, temp1)
    else (temp, temp1)

/-- The date `RTC_Get` computes from scratch for a day number: year, month, day. -/
def dateOfDays (temp : ℕ) : UInt16 × UInt8 × UInt8 :=
  let y := yearLoop temp 1970
  let m := monthLoop (isLeapYear y.2) monTable y.1 0
  (UInt16.ofNat y.2, UInt8.ofNat (m.2 + 1), UInt8.ofNat (m.1 + 1))

def TsRtcDateTime.date (t : TsRtcDateTime) : UInt16 × UInt8 × UInt8 := (t.year, t.month, t.day)

def Rtc.day (r : Rtc) : ℕ := r.counter.toNat / 86400

def rtcGet (r : Rtc) : Rtc :=
  let temp := r.day
  let date := if r.daycnt.toNat ≠ temp then dateOfDays temp else r.rtcDateTime.date
  let secs := r.counter.toNat % 86400
  let wday := rtcGetWeek r date.1 date.2.1 date.2.2
  { r with
    daycnt := UInt16.ofNat temp
    rtcDateTime :=
      { year := date.1, month := date.2.1, day := date.2.2
        hour := UInt8.ofNat (secs / 3600)
        minute := UInt8.ofNat (secs % 3600 / 60)
        second := UInt8.ofNat (secs % 3600 % 60)
        rtcWday := wday, week := wday.toUInt32 - 1 } }

theorem rtcGet_date (r : Rtc) : (rtcGet r).rtcDateTime.date =
    if r.daycnt.toNat ≠ r.day then dateOfDays r.day else r.rtcDateTime.date := rfl

/-- The seconds `RTC_Set` sums up, in 32-bit arithmetic. -/
def rtcSetSeconds (r : Rtc) (syear : UInt16) (smon sday hour min sec : UInt8) : UInt32 :=
  let years := (List.range' 1970 (syear.toNat - 1970)).foldl
    (fun (s : UInt32) t => if isLeapYear t then s + 31622400 else s + 31536000) 0
  let months := (List.range (smon - 1).toNat).foldl
    (fun (s : UInt32) t =>
      let s := s + (r.monTableAt t).toUInt32 * 86400
      if isLeapYear syear.toNat && t == 1 then s + 86400 else s) years
  months + (sday.toUInt32 - 1) * 86400 + hour.toUInt32 * 3600 + min.toUInt32 * 60 + sec.toUInt32

/-- The returned status and the calendar afterwards. -/
def rtcSet (r : Rtc) (syear : UInt16) (smon sday hour min sec : UInt8) : UInt8 × Rtc :=
  if syear.toNat < 1970 ∨ 2099 < syear.toNat then (1, r)
  else (0, { r with counter := rtcSetSeconds r syear smon sday hour min sec })

/-- The month loop of `RTC_Set` as a program over `mon_table` and what lies behind it, from
index `t` with `n` rounds to go. -/
def rtcSetMonths (syear : UInt16) : ℕ → ℕ → UInt32 → ReadM UInt32
  | _, 0, seccount => pure seccount
  | t, n + 1, seccount => do
    let days ← ReadM.load t
    let seccount := seccount + days.toUInt32 * 86400
    rtcSetMonths syear (t + 1) n
      (if isLeapYear syear.toNat && t == 1 then seccount + 86400 else seccount)

/-- `RTC_Set` with the indices of `mon_table` that it reads; `none` if it returns 1. -/
def rtcSetRead (syear : UInt16) (smon sday hour min sec : UInt8) : ReadM (Option UInt32) :=
  if syear.toNat < 1970 ∨ 2099 < syear.toNat then pure none
  else do
    let years := (List.range' 1970 (syear.toNat - 1970)).foldl
      (fun (s : UInt32) t => if isLeapYear t then s + 31622400 else s + 31536000) 0
    let months ← rtcSetMonths syear 0 (smon - 1).toNat years
    pure (some (months + (sday.toUInt32 - 1) * 86400 + hour.toUInt32 * 3600 + min.toUInt32 * 60 +
      sec.toUInt32))

def bspGetRtcTime (r : Rtc) : Rtc := rtcGet r

/-- The year loop leaves at most 365 days. -/
theorem yearLoop_le (temp temp1 : ℕ) : (yearLoop temp temp1).1 ≤ 365 := by
  induction temp, temp1 using yearLoop.induct with
  | case1 temp temp1 h hleap h366 ih => rw [yearLoop]; simp only [h, hleap, h366, if_true]; exact ih
  | case2 temp temp1 h hleap h366 => rw [yearLoop]; simp only [h, hleap, h366, if_true, if_false]; omega
  | case3 temp temp1 h hleap ih => rw [yearLoop]; simp only [h, hleap, if_true]; exact ih
  | case4 temp temp1 h => rw [yearLoop]; simp only [h, if_false]; omega

/-- The month loop ends by one of its own exits, at the latest after December. -/
theorem monthLoop_exit (leap : Bool) (temp : ℕ) (h : temp ≤ 365) :
    (monthLoop leap monTable temp 0).1 < 28 ∨ (monthLoop leap monTable temp 0).2 < 12 := by
  have all : ∀ leap : Bool, ∀ temp ∈ List.range 366,
      (monthLoop leap monTable temp 0).1 < 28 ∨ (monthLoop leap monTable temp 0).2 < 12 := by
    decide +kernel
  exact all leap temp (List.mem_range.mpr (by omega))

/-- So the table is long enough for every day number. -/
theorem dateOfDays_in_table (temp : ℕ) :
    let y := yearLoop temp 1970
    let m := monthLoop (isLeapYear y.2) monTable y.1 0
    m.1 < 28 ∨ m.2 < 12 :=
  monthLoop_exit _ _ (yearLoop_le temp 1970)

end Detector
