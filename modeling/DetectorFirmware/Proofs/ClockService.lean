import DetectorFirmware.Proofs.ClockReading
import DetectorFirmware.Proofs.HostSession

/-! The clock as a host sees it: set over the wire, running on, read by other parts of the program,
and asked for over the wire. -/

namespace Detector

open EventLog Gregorian TeFrameC2

variable {r : Rtc} {d : Date} {s : TimeOfDay}

/-! Readings. -/

/-- The date is the one of the cached day, except on the last day of a leap year. -/
def HoldsDay (r : Rtc) : Prop :=
  ¬ LeapYearEndDay r.daycnt.toNat → r.rtcDateTime.date = dateOfDays r.daycnt.toNat

theorem rtcGet_daycnt (r : Rtc) : (rtcGet r).daycnt.toNat = r.day := by
  change (UInt16.ofNat r.day).toNat = r.day
  rw [UInt16.toNat_ofNat', Nat.mod_eq_of_lt (day_lt r)]

theorem HoldsDay.coherent (h : HoldsDay r) (hend : ¬ LeapYearEndDay r.day) : Coherent (rtcGet r) := by
  refine (coherent_rtcGet r).mpr ?_
  by_cases hday : r.day = r.daycnt.toNat
  · rw [hday] at hend ⊢
    exact Or.inr (h hend)
  · exact Or.inl hday

theorem holdsDay_rtcGet (h : ¬ LeapYearEndDay r.day → Coherent (rtcGet r)) : HoldsDay (rtcGet r) := by
  intro hend
  rw [rtcGet_daycnt] at hend ⊢
  exact h hend

/-- A coherent reading is the one that a cache of another day would have led to. -/
theorem Coherent.recomputed (h : Coherent (rtcGet r)) : ∃ r' : Rtc,
    r'.day ≠ r'.daycnt.toNat ∧ r'.counter = r.counter ∧
      (rtcGet r').rtcDateTime = (rtcGet r).rtcDateTime := by
  have hother : r.day ≠ (UInt16.ofNat (r.day + 1)).toNat := by
    have := day_lt r
    rw [UInt16.toNat_ofNat']
    omega
  refine ⟨{ r with daycnt := UInt16.ofNat (r.day + 1) }, hother, rfl, ?_⟩
  have hdate : (if r.daycnt.toNat ≠ r.day then dateOfDays r.day else r.rtcDateTime.date) =
      dateOfDays r.day := h
  have hdate' : (if (UInt16.ofNat (r.day + 1)).toNat ≠ r.day then dateOfDays r.day
      else r.rtcDateTime.date) = dateOfDays r.day := if_pos hother.symm
  unfold rtcGet
  dsimp only
  rw [hdate, ← hdate']
  rfl

theorem shows_coherent (h : Coherent (rtcGet r)) (hd : 1970 ≤ d.year)
    (hnow : unixSeconds d s = r.counter.toNat) (hend : ¬ d.LeapYearEnd) :
    Shows (rtcGet r).rtcDateTime d s := by
  obtain ⟨r', hday, hcounter, hsame⟩ := h.recomputed
  have hsecs := s.seconds_lt
  rw [unixSeconds, ← hcounter] at hnow
  have hnumber : d.number 1970 = r'.day := by
    rw [Rtc.day, ← hnow, div_seconds _ hsecs]
  have htime : s.seconds = r'.counter.toNat % 86400 := by
    rw [← hnow, mod_seconds _ hsecs]
  rw [← hsame]
  exact (shows_iff hday hd hnumber htime).mpr hend

/-! Dates and times as the bytes of a frame. -/

def civilBytes (d : Date) (s : TimeOfDay) : List UInt8 :=
  [highByte (UInt16.ofNat d.year), lowByte (UInt16.ofNat d.year), UInt8.ofNat d.month,
    UInt8.ofNat d.day, UInt8.ofNat s.hour, UInt8.ofNat s.minute, UInt8.ofNat s.second]

theorem Shows.bytes {t : TsRtcDateTime} (h : Shows t d s) : t.bytes ++ [t.second] = civilBytes d s := by
  rw [civilBytes, ← h.year, ← h.month, ← h.day, ← h.hour, ← h.minute, ← h.second]
  simp only [UInt16.ofNat_toNat, UInt8.ofNat_toNat]
  rfl

/-- A request that sets the clock to a date and time that exist. -/
structure ClockSetting where
  exchange : Exchange
  date : Date
  time : TimeOfDay
  command : TeFrameC2.ofByte exchange.request.c2 = some kSetCurrentTime
  payload : exchange.request.payload = civilBytes date time
  year : 1970 ≤ date.year ∧ date.year ≤ 2099

namespace ClockSetting

variable (q : ClockSetting)

/-- The arguments that reach `RTC_Set`. -/
def args : SetTime := SetTime.ofFrame q.exchange.request.asFrame q.exchange.heap

theorem names : q.args.Names q.date q.time := by
  have hbyte (i : ℕ) : q.exchange.request.asFrame.byte q.exchange.heap i =
      (civilBytes q.date q.time).getD i (q.exchange.heap i) := by
    rw [TsFrameData.byte, ← q.payload]
    rfl
  have hyear : q.args.year = UInt16.ofNat q.date.year := by
    change halfWord _ _ = _
    rw [hbyte, hbyte]
    exact halfWord_bytes _
  obtain ⟨hh, hm, hs⟩ := q.time.valid
  have hyear' := q.year.2
  constructor
  · rw [hyear]
    exact year_ofNat (by omega)
  · exact (congrArg UInt8.toNat (hbyte 2)).trans (month_ofNat q.date)
  · exact (congrArg UInt8.toNat (hbyte 3)).trans (day_ofNat q.date)
  · exact (congrArg UInt8.toNat (hbyte 4)).trans (UInt8.toNat_ofNat_of_lt' (Nat.lt_trans hh (by decide)))
  · exact (congrArg UInt8.toNat (hbyte 5)).trans (UInt8.toNat_ofNat_of_lt' (Nat.lt_trans hm (by decide)))
  · exact (congrArg UInt8.toNat (hbyte 6)).trans (UInt8.toNat_ofNat_of_lt' (Nat.lt_trans hs (by decide)))

theorem accepted : ¬ q.args.Rejected := by
  rw [SetTime.Rejected, q.names.year]
  have := q.year
  omega

/-- The counter that the request leaves. -/
theorem counter (r : Rtc) : (q.args.apply r).counter.toNat = unixSeconds q.date q.time := by
  rw [SetTime.apply_counter, if_neg q.accepted]
  exact counter_of_names q.names r q.year.1 q.year.2

theorem day (r : Rtc) : (q.args.apply r).day = q.date.number 1970 := by
  rw [Rtc.day, q.counter, unixSeconds, div_seconds _ q.time.seconds_lt]

/-- Whatever the cache held, a setting makes the next readings right: either the day is not the
cached one, or the date of the cached day is the one that was set. -/
theorem coherent (r : Rtc) (hend : ¬ LeapYearEndDay (q.args.apply r).day) :
    Coherent (rtcGet (q.args.apply r)) := by
  refine (coherent_rtcGet _).mpr ?_
  by_cases hday : (q.args.apply r).day = (q.args.apply r).daycnt.toNat
  · right
    rw [q.day, leapYearEndDay_iff q.year.1] at hend
    obtain ⟨e, he, hsame, hcases⟩ := dateOfDays_cases (q.date.number 1970)
    obtain rfl := Date.number_inj he q.year.1 hsame
    have hdate : dateOfDays (q.date.number 1970) = q.args.date := by
      rw [(hcases.resolve_right fun h => hend h.1).2, ← q.names.year, ← q.names.month, ← q.names.day]
      simp only [UInt16.ofNat_toNat, UInt8.ofNat_toNat]
      rfl
    rw [SetTime.apply_date, q.day, hdate]
  · exact Or.inl hday

end ClockSetting

/-! Runs. -/

inductive ClockEvent where
  /-- A second passes. -/
  | tick
  /-- Another part of the program reads the calendar. -/
  | read
  | set (q : ClockSetting)
  /-- Any other request. -/
  | ask (x : Exchange) (other : TeFrameC2.ofByte x.request.c2 ≠ some kSetCurrentTime)

/-- The bytes that the host hears. -/
def HrDevice.reply (dev : HrDevice) (x : Exchange) : Option (List UInt8) :=
  (hrRound dev x.round).bind fun out => out.1.1

def HrDevice.exchanged (dev : HrDevice) (x : Exchange) : HrDevice :=
  ((hrRound dev x.round).map Prod.snd).getD dev

instance : System HrDevice ClockEvent where
  step dev
    | .tick => { dev with rtc := { dev.rtc with counter := dev.rtc.counter + 1 } }
    | .read => { dev with rtc := bspGetRtcTime dev.rtc }
    | .set q => dev.exchanged q.exchange
    | .ask x _ => dev.exchanged x

/-- A clock that counts the seconds from the first of January 1970 on. -/
def civilSeconds : ℕ → ClockEvent → ℕ
  | n, .tick => n + 1
  | _, .set q => unixSeconds q.date q.time
  | n, .read | n, .ask _ _ => n

variable {dev : HrDevice} {n : ℕ} {x : Exchange}

/-- An exchange is a call. -/
theorem exchanged_eq (h : Ready dev) (x : Exchange) :
    dev.reply x = ((hrProcessData x.heap x.request.asFrame dev.rtc).result dev.flash).1 ∧
      (dev.exchanged x).rtc = ((hrProcessData x.heap x.request.asFrame dev.rtc).result dev.flash).2 ∧
      Ready (dev.exchanged x) := by
  obtain ⟨thread, hround, hready⟩ := hrRound_exchange h x
  have hafter : dev.exchanged x = ⟨thread,
      ((hrProcessData x.heap x.request.asFrame dev.rtc).result dev.flash).2,
      (hrProcessData x.heap x.request.asFrame dev.rtc).final dev.flash⟩ := by
    rw [HrDevice.exchanged, hround]
    rfl
  refine ⟨?_, by rw [hafter], hafter ▸ hready⟩
  rw [HrDevice.reply, hround]
  rfl

/-- Other requests read the calendar at most. -/
theorem calendar_other (frame : TsFrameData) (h : TeFrameC2.ofByte frame.c2 ≠ some kSetCurrentTime)
    (heap : ℕ → UInt8) (rtc : Rtc) (f : Flash) :
    ((hrProcessData heap frame rtc).result f).2 = rtc ∨
      ((hrProcessData heap frame rtc).result f).2 = rtcGet rtc := by
  rw [hrProcessData, Prog.result_bind, Prog.result_pure]
  cases htype : TeFrameC2.ofByte frame.c2 with
  | none => exact Or.inl (by simp only [hrSwitch, htype, Prog.result_pure])
  | some type =>
    cases type with
    | kSetCurrentTime => exact absurd htype h
    | kGetCurrentTime | kGetCurrentTimeSecond =>
      exact Or.inr (by simp only [hrSwitch, htype, Prog.result_pure]; rfl)
    | _ =>
      exact Or.inl (by simp only [hrSwitch, htype, Prog.result_bind, Prog.result_gets, Prog.result_pure])

/-- What a run keeps once the clock is set. -/
structure KeepsTime (n : ℕ) (dev : HrDevice) : Prop where
  ready : Ready dev
  day : HoldsDay dev.rtc
  counter : dev.rtc.counter = UInt32.ofNat n

theorem keepsTime_set (h : Ready dev) (q : ClockSetting) :
    KeepsTime (unixSeconds q.date q.time) (System.step dev (ClockEvent.set q)) := by
  obtain ⟨-, hrtc, hready⟩ := exchanged_eq h q.exchange
  have hset : (dev.exchanged q.exchange).rtc = rtcGet (q.args.apply dev.rtc) := by
    rw [hrtc]
    exact calendar_setCurrentTime q.command q.exchange.heap dev.rtc dev.flash
  refine ⟨hready, ?_, ?_⟩
  · change HoldsDay (dev.exchanged q.exchange).rtc
    rw [hset]
    exact holdsDay_rtcGet (q.coherent dev.rtc)
  · change (dev.exchanged q.exchange).rtc.counter = _
    rw [hset, ← q.counter dev.rtc]
    exact (UInt32.ofNat_toNat).symm

theorem KeepsTime.step (h : KeepsTime n dev) (e : ClockEvent) :
    KeepsTime (civilSeconds n e) (System.step dev e) := by
  obtain ⟨hready, hday, hcounter⟩ := h
  cases e with
  | tick =>
    refine ⟨hready, hday, ?_⟩
    change dev.rtc.counter + 1 = UInt32.ofNat (n + 1)
    rw [hcounter, UInt32.ofNat_add]
    rfl
  | read => exact ⟨hready, holdsDay_rtcGet hday.coherent, hcounter⟩
  | set q => exact keepsTime_set hready q
  | ask x other =>
    obtain ⟨-, hrtc, hready'⟩ := exchanged_eq hready x
    have hcalendar := calendar_other x.request.asFrame other x.heap dev.rtc dev.flash
    rw [← hrtc] at hcalendar
    refine ⟨hready', ?_, ?_⟩
    · change HoldsDay (dev.exchanged x).rtc
      rcases hcalendar with hsame | hread
      · rw [hsame]
        exact hday
      · rw [hread]
        exact holdsDay_rtcGet hday.coherent
    · change (dev.exchanged x).rtc.counter = UInt32.ofNat n
      rw [← hcounter]
      rcases hcalendar with hsame | hread
      · rw [hsame]
      · rw [hread]
        rfl

theorem KeepsTime.run (h : KeepsTime n dev) (es : List ClockEvent) :
    KeepsTime (es.foldl civilSeconds n) (replay dev es) := by
  induction es generalizing n dev with
  | nil => exact h
  | cons e es ih => exact ih (h.step e)

/-! Answers. -/

/-- The answers that tell the time are not among those that are cleared. -/
theorem clock_c2 {c2 : UInt8} {type : TeFrameC2}
    (hclock : type ∈ [kGetCurrentTime, kGetCurrentTimeSecond, kSetCurrentTime])
    (htype : TeFrameC2.ofByte c2 = some type) : ¬ c2.toNat < 7 := by
  intro hlt
  obtain ⟨hin, hget⟩ := List.getElem?_eq_some_iff.mp htype
  have hnone : ∀ i : Fin 7, TeFrameC2.all[i] ∉
      [kGetCurrentTime, kGetCurrentTimeSecond, kSetCurrentTime] := by decide
  exact hnone ⟨c2.toNat, hlt⟩ (by rw [Fin.getElem_fin, hget]; exact hclock)

theorem clock_answer (frame : TsFrameData) {heap : ℕ → UInt8} {rtc rtc' : Rtc} {f : Flash}
    {type : TeFrameC2} (hclock : type ∈ [kGetCurrentTime, kGetCurrentTimeSecond, kSetCurrentTime])
    (htype : TeFrameC2.ofByte frame.c2 = some type) {dataLen : UInt8} {payload : List UInt8}
    (h : (hrSwitch heap frame rtc).result f = ⟨frame.c1, dataFieldWith payload, dataLen, rtc'⟩)
    (hlen : dataLen.toNat = payload.length) (h64 : dataLen.toNat ≤ 64) :
    ((hrProcessData heap frame rtc).result f).1 = some (wireFrame frame.c1 frame.c2 payload) := by
  rw [hrProcessData_payload h hlen h64, if_neg fun hzero => clock_c2 hclock htype hzero.2.2]

theorem asked_answer (frame : TsFrameData)
    (hask : TeFrameC2.ofByte frame.c2 = some kGetCurrentTime ∨
      TeFrameC2.ofByte frame.c2 = some kGetCurrentTimeSecond) {rtc : Rtc}
    (hshows : Shows (rtcGet rtc).rtcDateTime d s) (heap : ℕ → UInt8) (f : Flash) :
    ((hrProcessData heap frame rtc).result f).1 =
      some (wireFrame frame.c1 frame.c2 ((civilBytes d s).take (replyLen frame.c2))) := by
  rcases hask with htype | htype
  · have hswitch : (hrSwitch heap frame rtc).result f =
        ⟨frame.c1, dataFieldWith (rtcGet rtc).rtcDateTime.bytes, 6, rtcGet rtc⟩ := by
      simp only [hrSwitch, htype, Prog.result_pure]
      rfl
    rw [clock_answer frame (by decide) htype hswitch rfl (by decide), replyLen, htype, ← hshows.bytes]
    rfl
  · have hswitch : (hrSwitch heap frame rtc).result f =
        ⟨frame.c1, dataFieldWith ((rtcGet rtc).rtcDateTime.bytes ++ [(rtcGet rtc).rtcDateTime.second]), 7,
          rtcGet rtc⟩ := by
      simp only [hrSwitch, htype, Prog.result_pure]
      rfl
    rw [clock_answer frame (by decide) htype hswitch rfl (by decide), replyLen, htype, hshows.bytes]
    rfl

theorem KeepsTime.told (h : KeepsTime n dev) (hask : TeFrameC2.ofByte x.request.c2 = some kGetCurrentTime ∨
      TeFrameC2.ofByte x.request.c2 = some kGetCurrentTimeSecond) (hlow : 1970 ≤ d.year)
    (hnow : unixSeconds d s = n) (hlt : n < UInt32.size) (hend : ¬ d.LeapYearEnd) :
    dev.reply x =
      some (wireFrame x.request.c1 x.request.c2 ((civilBytes d s).take (replyLen x.request.c2))) := by
  obtain ⟨hready, hday, hcounter⟩ := h
  have hseconds : unixSeconds d s = dev.rtc.counter.toNat := by
    rw [hcounter, hnow, UInt32.toNat_ofNat_of_lt' hlt]
  have hnumber : d.number 1970 = dev.rtc.day := by
    rw [Rtc.day, ← hseconds, unixSeconds, div_seconds _ s.seconds_lt]
  have hcoherent : Coherent (rtcGet dev.rtc) := by
    refine hday.coherent ?_
    rwa [← hnumber, leapYearEndDay_iff hlow]
  rw [(exchanged_eq hready x).1]
  exact asked_answer x.request.asFrame hask (shows_coherent hcoherent hlow hseconds hend) _ _

/-- A setting is answered with the date and time that it set. -/
theorem set_answer (h : Ready dev) (q : ClockSetting) (hend : ¬ q.date.LeapYearEnd) :
    dev.reply q.exchange =
      some (wireFrame q.exchange.request.c1 q.exchange.request.c2 (civilBytes q.date q.time)) := by
  have hcoherent := q.coherent dev.rtc
  rw [q.day, leapYearEndDay_iff q.year.1] at hcoherent
  have hshows : Shows (rtcGet (q.args.apply dev.rtc)).rtcDateTime q.date q.time :=
    shows_coherent (hcoherent hend) q.year.1 (q.counter dev.rtc).symm hend
  have hswitch : (hrSwitch q.exchange.heap q.exchange.request.asFrame dev.rtc).result dev.flash =
      ⟨q.exchange.request.c1, dataFieldWith (civilBytes q.date q.time), 7,
        rtcGet (q.args.apply dev.rtc)⟩ := by
    rw [← hshows.bytes]
    have htype : TeFrameC2.ofByte q.exchange.request.asFrame.c2 = some kSetCurrentTime := q.command
    simp only [hrSwitch, htype, Prog.result_pure]
    rfl
  rw [(exchanged_eq h q.exchange).1]
  exact clock_answer q.exchange.request.asFrame (by decide) q.command hswitch rfl (by decide)

/-- A setting to a date and time that exist is answered with them; and once it is made, every later
question for the time, after any seconds, readings and other requests, and after settings of
the same kind, is answered with the date and time that the seconds since the last setting lead
to. The last day of a leap year is excepted. -/
theorem clock_told (h : Ready dev) (q : ClockSetting) :
    (¬ q.date.LeapYearEnd → dev.reply q.exchange =
      some (wireFrame q.exchange.request.c1 q.exchange.request.c2 (civilBytes q.date q.time))) ∧
    ∀ (es : List ClockEvent) (x : Exchange) (d : Date) (s : TimeOfDay),
      TeFrameC2.ofByte x.request.c2 = some kGetCurrentTime ∨
          TeFrameC2.ofByte x.request.c2 = some kGetCurrentTimeSecond →
        1970 ≤ d.year → unixSeconds d s = es.foldl civilSeconds (unixSeconds q.date q.time) →
        unixSeconds d s < UInt32.size → ¬ d.LeapYearEnd →
          (replay dev (.set q :: es)).reply x = some (wireFrame x.request.c1 x.request.c2
            ((civilBytes d s).take (replyLen x.request.c2))) :=
  ⟨set_answer h q, fun es _ _ _ hask hlow hnow hlt hend =>
    ((keepsTime_set h q).run es).told hask hlow hnow (hnow ▸ hlt) hend⟩

/-- Two seconds before the twenty-ninth of February. -/
def februarySetting : ClockSetting where
  exchange := ⟨⟨0, 0x0A, civilBytes ⟨2024, 2, 28, by decide⟩ ⟨23, 59, 58, by decide⟩, by decide⟩,
    [0xAA], fun _ => 0, by decide⟩
  date := ⟨2024, 2, 28, by decide⟩
  time := ⟨23, 59, 58, by decide⟩
  command := rfl
  payload := rfl
  year := by decide

/-- Three seconds pass, with a reading and another command between them. -/
def februaryEvents : List ClockEvent := [.tick, .read, .tick, .ask alarmExchange (by decide), .tick]

theorem no_payload_le : ([] : List UInt8).length ≤ 255 := Nat.zero_le _

def timeQuestion : Exchange := ⟨⟨0, 0x09, [], no_payload_le⟩, [], fun _ => 0, by decide⟩

theorem february_seconds : unixSeconds ⟨2024, 2, 29, by decide⟩ ⟨0, 0, 1, by decide⟩ =
    februaryEvents.foldl civilSeconds (unixSeconds februarySetting.date februarySetting.time) := by
  have hnumber : Date.number 1970 ⟨2024, 2, 29, by decide⟩ = februarySetting.date.number 1970 + 1 := rfl
  have hstep (n : ℕ) : (n + 1) * 86400 + 1 = n * 86400 + 86398 + 1 + 1 + 1 := by omega
  rw [unixSeconds, hnumber]
  exact hstep _

theorem clock_told_february :
    (replay readyDevice (.set februarySetting :: februaryEvents)).reply timeQuestion =
      some (wireFrame 0 0x09 (civilBytes ⟨2024, 2, 29, by decide⟩ ⟨0, 0, 1, by decide⟩)) := by
  have hyears : daysBefore 1970 2024 = 19723 := daysBefore_1970 (by decide) (by decide)
  have hlt : unixSeconds ⟨2024, 2, 29, by decide⟩ ⟨0, 0, 1, by decide⟩ < UInt32.size := by
    change (daysBefore 1970 2024 + dayOfYear 2024 2 29) * 86400 + 1 < 4294967296
    have hday : dayOfYear 2024 2 29 = 59 := by decide
    omega
  exact (clock_told ready_readyDevice februarySetting).2 februaryEvents timeQuestion _ _ (Or.inr rfl)
    (by decide) february_seconds hlt fun h => absurd h.2.1 (by decide)

end Detector
