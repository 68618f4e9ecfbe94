import DetectorFirmware.Proofs.ConfigPage
import DetectorFirmware.Proofs.Response
import DetectorFirmware.Proofs.SetTime

/-! Which commands depend on their own bytes only. The heap block of a frame has room
for the data bytes that were sent, but the four set commands look at a fixed number
of them, so that a short frame makes the heap behind the block part of the command. -/

namespace Detector

open EventLog TeFrameC2

variable {frame : TsFrameData} {f : Flash} {rtc : Rtc}

/-- Two heaps behind the block give the same response, flash, counter and calendar. -/
structure SameEffect (heap heap' : ℕ → UInt8) (frame : TsFrameData) (rtc : Rtc) (f : Flash) :
    Prop where
  response : ((hrProcessData heap frame rtc).result f).1 = ((hrProcessData heap' frame rtc).result f).1
  flash : (hrProcessData heap frame rtc).final f = (hrProcessData heap' frame rtc).final f
  counter : ((hrProcessData heap frame rtc).result f).2.counter =
    ((hrProcessData heap' frame rtc).result f).2.counter
  calendar : ((hrProcessData heap frame rtc).result f).2.rtcDateTime =
    ((hrProcessData heap' frame rtc).result f).2.rtcDateTime

/-- The year in the first two data bytes. -/
def frameYear (frame : TsFrameData) : UInt16 := halfWord (frame.data.getD 1 0) (frame.data.getD 0 0)

/-- The set commands that carry as many bytes as they are asked for. A set-time command
with a year that `RTC_Set` rejects needs the date only. -/
def OwnBytes (frame : TsFrameData) : Prop :=
  match TeFrameC2.ofByte frame.c2 with
  | some kSetCurrentTime => 7 ≤ frame.len.toNat ∨
      (4 ≤ frame.len.toNat ∧ ((frameYear frame).toNat < 1970 ∨ 2099 < (frameYear frame).toNat))
  | some kSetFactoryTime => 7 ≤ frame.len.toNat
  | some kSetExpirationTime => 7 ≤ frame.len.toNat
  | some kSetAlarmValue => 2 ≤ frame.len.toNat
  | _ => True

/-! Bytes of the frame and bytes behind it. -/

theorem byte_own (heap heap' : ℕ → UInt8) {i : ℕ} (h : i < frame.len.toNat) :
    frame.byte heap i = frame.byte heap' i := by
  have hi : i < frame.data.length := by rw [frame.data_length]; exact h
  rw [TsFrameData.byte, TsFrameData.byte, List.getD_eq_getElem?_getD, List.getD_eq_getElem?_getD,
    List.getElem?_eq_getElem hi, Option.getD_some, Option.getD_some]

theorem byte_behind (heap : ℕ → UInt8) {i : ℕ} (h : frame.len.toNat ≤ i) :
    frame.byte heap i = heap i := by
  rw [TsFrameData.byte, List.getD_eq_default _ _ (by rw [frame.data_length]; exact h)]

theorem bigEndian_own (heap heap' : ℕ → UInt8) (h : 2 ≤ frame.len.toNat) :
    frame.bigEndian heap = frame.bigEndian heap' := by
  rw [TsFrameData.bigEndian, TsFrameData.bigEndian, byte_own heap heap' (by omega : 0 < _),
    byte_own heap heap' (by omega : 1 < _)]

theorem bigEndian_zero (frame : TsFrameData) : frame.bigEndian (fun _ => 0) = frameYear frame := rfl

/-! Enough bytes. -/

/-- A reading overwrites all of the calendar but its date. -/
theorem rtcGet_congr {r r' : Rtc} (hcounter : r.counter = r'.counter) (hcnt : r.daycnt = r'.daycnt)
    (hweek : r.besideTableWeek = r'.besideTableWeek) (hmon : r.besideMonTable = r'.besideMonTable)
    (hdate : r.rtcDateTime.date = r'.rtcDateTime.date) : rtcGet r = rtcGet r' := by
  obtain ⟨counter, daycnt, time, week, mon⟩ := r
  obtain ⟨counter', daycnt', time', week', mon'⟩ := r'
  dsimp only at hcounter hcnt hweek hmon hdate
  subst hcounter hcnt hweek hmon
  unfold rtcGet
  dsimp only
  rw [hdate]
  rfl

theorem setCurrentTime_own (heap heap' : ℕ → UInt8) (rtc : Rtc)
    (h : 7 ≤ frame.len.toNat ∨ (4 ≤ frame.len.toNat ∧
      ((frameYear frame).toNat < 1970 ∨ 2099 < (frameYear frame).toNat))) :
    setCurrentTime frame heap rtc = setCurrentTime frame heap' rtc := by
  have h0 : frame.bigEndian heap = frame.bigEndian heap' := bigEndian_own heap heap' (by omega)
  have h2 : frame.byte heap 2 = frame.byte heap' 2 := byte_own heap heap' (by omega)
  have h3 : frame.byte heap 3 = frame.byte heap' 3 := byte_own heap heap' (by omega)
  rw [setCurrentTime_eq, setCurrentTime_eq]
  rcases h with h7 | ⟨h4, hyear⟩
  · have h4 : frame.byte heap 4 = frame.byte heap' 4 := byte_own heap heap' (by omega)
    have h5 : frame.byte heap 5 = frame.byte heap' 5 := byte_own heap heap' (by omega)
    have h6 : frame.byte heap 6 = frame.byte heap' 6 := byte_own heap heap' (by omega)
    rw [SetTime.ofFrame, h0, h2, h3, h4, h5, h6, SetTime.ofFrame]
  · have hrejected : ∀ heap, (SetTime.ofFrame frame heap).Rejected := by
      intro heap
      rw [← bigEndian_zero, bigEndian_own _ heap (by omega)] at hyear
      exact hyear
    apply rtcGet_congr
    · rw [SetTime.apply_counter, SetTime.apply_counter, if_pos (hrejected heap),
        if_pos (hrejected heap')]
    · rw [SetTime.apply_daycnt, SetTime.apply_daycnt]
    · rw [SetTime.apply_eq, SetTime.apply_eq]
      rfl
    · rw [SetTime.apply_eq, SetTime.apply_eq]
      rfl
    · rw [SetTime.apply_date, SetTime.apply_date, SetTime.date, SetTime.date]
      exact Prod.ext h0 (Prod.ext h2 h3)

theorem hrSwitch_own (heap heap' : ℕ → UInt8) (rtc : Rtc) (h : OwnBytes frame) :
    hrSwitch heap frame rtc = hrSwitch heap' frame rtc := by
  have hset : 7 ≤ frame.len.toNat → ∀ id, setTimeLimit frame heap id = setTimeLimit frame heap' id := by
    intro h7 id
    have hbyte : ∀ i < 7, frame.byte heap i = frame.byte heap' i :=
      fun i hi => byte_own heap heap' (by omega)
    have hyear : frame.bigEndian heap = frame.bigEndian heap' := bigEndian_own heap heap' (by omega)
    simp only [setTimeLimit, hyear, hbyte 2 (by decide), hbyte 3 (by decide), hbyte 4 (by decide),
      hbyte 5 (by decide), hbyte 6 (by decide)]
  unfold OwnBytes at h
  unfold hrSwitch
  cases htype : TeFrameC2.ofByte frame.c2 with
  | none => rfl
  | some type =>
    rw [htype] at h
    cases type with
    | kSetCurrentTime => simp only [setCurrentTime_own heap heap' rtc h]
    | kSetFactoryTime => simp only [hset h]
    | kSetExpirationTime => simp only [hset h]
    | kSetAlarmValue => simp only [bigEndian_own heap heap' h]
    | _ => rfl

theorem sameEffect_own (heap heap' : ℕ → UInt8) (rtc : Rtc) (f : Flash) (h : OwnBytes frame) :
    SameEffect heap heap' frame rtc f := by
  have hsame : hrProcessData heap frame rtc = hrProcessData heap' frame rtc := by
    rw [hrProcessData, hrSwitch_own heap heap' rtc h, hrProcessData]
  exact ⟨by rw [hsame], by rw [hsame], by rw [hsame], by rw [hsame]⟩

/-! Too few bytes: one byte behind the block is enough to make a difference. -/

/-- A heap of zeros but for byte `i`. -/
def poke (i : ℕ) : ℕ → UInt8 := Function.update (fun _ => 0) i 1

theorem byte_poke_ne {i j : ℕ} (h : i ≠ j) : frame.byte (poke j) i = frame.byte (fun _ => 0) i := by
  rw [TsFrameData.byte, TsFrameData.byte, poke, Function.update_of_ne h]

theorem byte_poke_self {i : ℕ} (h : frame.len.toNat ≤ i) : frame.byte (poke i) i = 1 := by
  rw [byte_behind _ h, poke, Function.update_self]

theorem bigEndian_poke {i : ℕ} (h : 2 ≤ i) :
    frame.bigEndian (poke i) = frame.bigEndian (fun _ => 0) := by
  rw [TsFrameData.bigEndian, TsFrameData.bigEndian, byte_poke_ne (by omega), byte_poke_ne (by omega)]

/-- The answers of the set commands are not among those that are cleared. -/
theorem set_c2 {type : TeFrameC2}
    (hset : type ∈ [kSetCurrentTime, kSetFactoryTime, kSetExpirationTime, kSetAlarmValue])
    (htype : TeFrameC2.ofByte frame.c2 = some type) : ¬ frame.c2.toNat < 7 := by
  intro hlt
  obtain ⟨hin, hget⟩ := List.getElem?_eq_some_iff.mp htype
  have hnone : ∀ i : Fin 7, TeFrameC2.all[i] ∉
      [kSetCurrentTime, kSetFactoryTime, kSetExpirationTime, kSetAlarmValue] := by decide
  exact hnone ⟨frame.c2.toNat, hlt⟩ (by rw [Fin.getElem_fin, hget]; exact hset)

/-- They send what they leave in the data field. -/
theorem response_set {type : TeFrameC2}
    (hset : type ∈ [kSetCurrentTime, kSetFactoryTime, kSetExpirationTime, kSetAlarmValue])
    (htype : TeFrameC2.ofByte frame.c2 = some type) {heap : ℕ → UInt8} {rtc : Rtc} {f : Flash}
    {payload : List UInt8} {dataLen : UInt8}
    (h : (hrSwitch heap frame rtc).result f =
      ⟨frame.c1, dataFieldWith payload, dataLen, rtc⟩)
    (hlen : dataLen.toNat = payload.length) (h64 : dataLen.toNat ≤ 64) :
    ((hrProcessData heap frame rtc).result f).1 = some (wireFrame frame.c1 frame.c2 payload) := by
  have hc2 := set_c2 hset htype
  rw [hrProcessData_payload h hlen h64, if_neg fun hzero => hc2 hzero.2.2]

theorem response_setAlarm (htype : TeFrameC2.ofByte frame.c2 = some kSetAlarmValue)
    (heap : ℕ → UInt8) (rtc : Rtc) (f : Flash) :
    ((hrProcessData heap frame rtc).result f).1 = some (wireFrame frame.c1 frame.c2
      [highByte (frame.bigEndian heap), lowByte (frame.bigEndian heap)]) := by
  have hswitch : (hrSwitch heap frame rtc).result f = ⟨frame.c1, dataFieldWith
      [highByte (frame.bigEndian heap), lowByte (frame.bigEndian heap)], 2, rtc⟩ := by
    simp only [hrSwitch, htype, Prog.result_bind, Prog.result_pure]
  exact response_set (by decide) htype hswitch rfl (Nat.le_of_ble_eq_true rfl)

theorem not_sameEffect_setAlarm (htype : TeFrameC2.ofByte frame.c2 = some kSetAlarmValue)
    (hlen : frame.len.toNat < 2) (rtc : Rtc) (f : Flash) :
    ¬ SameEffect (fun _ => 0) (poke 1) frame rtc f := by
  intro h
  have hsame := h.response
  rw [response_setAlarm htype, response_setAlarm htype] at hsame
  have hpayload := wireFrame_inj (Option.some.inj hsame)
  injection hpayload with _ hrest
  injection hrest with hlow _
  simp only [TsFrameData.bigEndian, lowByte_halfWord] at hlow
  rw [byte_poke_self (by omega), byte_behind _ (by omega)] at hlow
  exact absurd hlow (by decide)

theorem lastTime_self (year : UInt16) (mon day hour min second : UInt8)
    (id : TeFlashProductTimeLimitId) :
    lastTime id [.timeLimit year mon day hour min second id] =
      some (timeLimitFrame year mon day hour min second) := by
  have hset : (ConfigSet.timeLimit year mon day hour min second id).timeOf id =
      some (timeLimitFrame year mon day hour min second) := by
    rw [ConfigSet.timeOf]
    exact if_pos Iff.rfl
  rw [lastTime, List.filterMap_cons_some hset]
  rfl

theorem replay_timeLimit (f : Flash) (year : UInt16) (mon day hour min second : UInt8)
    (id : TeFlashProductTimeLimitId) :
    replay f [ConfigSet.timeLimit year mon day hour min second id] =
      (flashSetProductTimeLimit year mon day hour min second id).final f := by
  rw [replay_cons, replay_nil]
  rfl

/-- A setter answers with the time limit that it has just stored. -/
theorem setTimeLimit_result (frame : TsFrameData) (heap : ℕ → UInt8)
    {id : TeFlashProductTimeLimitId} (hid : id ≠ .other) (f : Flash) :
    (setTimeLimit frame heap id).result f = timeLimitFrame (frame.bigEndian heap) (frame.byte heap 2)
      (frame.byte heap 3) (frame.byte heap 4) (frame.byte heap 5) (frame.byte heap 6) := by
  have hget := getProductTimeLimit_replay ⟨0, 0, 0, 0, 0, 0, 0⟩ hid f
    [.timeLimit (frame.bigEndian heap) (frame.byte heap 2) (frame.byte heap 3) (frame.byte heap 4)
      (frame.byte heap 5) (frame.byte heap 6) id]
  rw [lastTime_self, replay_timeLimit] at hget
  simp only [setTimeLimit, Prog.result_bind, Prog.result_gets, Prog.result_pure]
  rw [hget]

theorem response_setTimeLimit {type : TeFrameC2} {id : TeFlashProductTimeLimitId}
    (hid : (type = kSetFactoryTime ∧ id = .kFactoryTimeId) ∨
      (type = kSetExpirationTime ∧ id = .kExpirationTimeId))
    (htype : TeFrameC2.ofByte frame.c2 = some type) (heap : ℕ → UInt8) (rtc : Rtc) (f : Flash) :
    ((hrProcessData heap frame rtc).result f).1 = some (wireFrame frame.c1 frame.c2
      ((setTimeLimit frame heap id).result f).bytes) := by
  have hswitch : (hrSwitch heap frame rtc).result f = ⟨frame.c1,
      dataFieldWith ((setTimeLimit frame heap id).result f).bytes, 7, rtc⟩ := by
    rcases hid with ⟨rfl, rfl⟩ | ⟨rfl, rfl⟩
    · simp only [hrSwitch, htype, Prog.result_bind, Prog.result_pure]
    · simp only [hrSwitch, htype, Prog.result_bind, Prog.result_pure]
  have hset : type ∈ [kSetCurrentTime, kSetFactoryTime, kSetExpirationTime, kSetAlarmValue] := by
    rcases hid with ⟨rfl, -⟩ | ⟨rfl, -⟩ <;> decide
  exact response_set hset htype hswitch rfl (Nat.le_of_ble_eq_true rfl)

theorem not_sameEffect_setTimeLimit {type : TeFrameC2}
    (hset : type = kSetFactoryTime ∨ type = kSetExpirationTime)
    (htype : TeFrameC2.ofByte frame.c2 = some type) (hlen : frame.len.toNat < 7) (rtc : Rtc)
    (f : Flash) : ¬ SameEffect (fun _ => 0) (poke 6) frame rtc f := by
  intro h
  obtain ⟨id, hne, hid⟩ : ∃ id : TeFlashProductTimeLimitId, id ≠ .other ∧
      ((type = kSetFactoryTime ∧ id = .kFactoryTimeId) ∨
        (type = kSetExpirationTime ∧ id = .kExpirationTimeId)) := by
    rcases hset with rfl | rfl
    · exact ⟨.kFactoryTimeId, by decide, Or.inl ⟨rfl, rfl⟩⟩
    · exact ⟨.kExpirationTimeId, by decide, Or.inr ⟨rfl, rfl⟩⟩
  have hsame := h.response
  rw [response_setTimeLimit hid htype, response_setTimeLimit hid htype,
    setTimeLimit_result _ _ hne, setTimeLimit_result _ _ hne] at hsame
  have hpayload := wireFrame_inj (Option.some.inj hsame)
  have hsecond : frame.byte (fun _ => 0) 6 = frame.byte (poke 6) 6 :=
    congrArg (List.getD · 6 0) hpayload
  rw [byte_poke_self (by omega), byte_behind _ (by omega)] at hsecond
  exact absurd hsecond (by decide)

/-! The set-time command. -/

/-- The sum of `RTC_Set` without its last summand. -/
theorem rtcSetSeconds_sec (r : Rtc) (syear : UInt16) (smon sday hour min sec : UInt8) :
    rtcSetSeconds r syear smon sday hour min sec =
      rtcSetSeconds r syear smon sday hour min 0 + sec.toUInt32 := by
  unfold rtcSetSeconds
  simp

theorem counter_accepted (heap : ℕ → UInt8) (rtc : Rtc)
    (hyear : ¬ (SetTime.ofFrame frame heap).Rejected) :
    (setCurrentTime frame heap rtc).counter =
      rtcSetSeconds rtc (frame.bigEndian heap) (frame.byte heap 2) (frame.byte heap 3)
        (frame.byte heap 4) (frame.byte heap 5) 0 + (frame.byte heap 6).toUInt32 := by
  have hcounter : (setCurrentTime frame heap rtc).counter =
      ((SetTime.ofFrame frame heap).apply rtc).counter := rfl
  rw [hcounter, SetTime.apply_counter, if_neg hyear, ← rtcSetSeconds_sec]
  rfl

/-- On the day of the last reading a rejected command leaves its own day in place. -/
theorem day_rejected (heap : ℕ → UInt8) (rtc : Rtc) (hday : rtc.daycnt.toNat = rtc.day)
    (hyear : (SetTime.ofFrame frame heap).Rejected) :
    (setCurrentTime frame heap rtc).rtcDateTime.date =
      (frame.bigEndian heap, frame.byte heap 2, frame.byte heap 3) := by
  rw [setCurrentTime_eq, rtcGet_date, SetTime.apply_day, SetTime.apply_daycnt, SetTime.dayAfter,
    if_pos hyear, if_neg (not_not.mpr hday), SetTime.apply_date]
  rfl

theorem year_poke {i : ℕ} (h : 2 ≤ i) : (SetTime.ofFrame frame (poke i)).year = frameYear frame := by
  rw [← bigEndian_zero, ← bigEndian_poke h]
  rfl

/-- A command with a year that is taken sets the seconds from behind its block. -/
theorem not_sameEffect_accepted (htype : TeFrameC2.ofByte frame.c2 = some kSetCurrentTime)
    (hlen : frame.len.toNat < 7) (hyear : ¬ (SetTime.ofFrame frame fun _ => 0).Rejected) (rtc : Rtc)
    (f : Flash) : ¬ SameEffect (fun _ => 0) (poke 6) frame rtc f := by
  intro h
  have hpoke : ¬ (SetTime.ofFrame frame (poke 6)).Rejected := by
    rw [SetTime.Rejected, year_poke (by decide)]
    exact hyear
  have hcounter := h.counter
  rw [calendar_setCurrentTime htype, calendar_setCurrentTime htype, counter_accepted _ _ hyear,
    counter_accepted _ _ hpoke, bigEndian_poke (by decide), byte_poke_ne (by decide),
    byte_poke_ne (by decide), byte_poke_ne (by decide), byte_poke_ne (by decide)] at hcounter
  have hsecond := (UInt32.add_right_inj _).mp hcounter
  rw [byte_poke_self (by omega), byte_behind _ (by omega)] at hsecond
  exact absurd hsecond (by decide)

/-- One that is rejected leaves the day from behind its block in the calendar. -/
theorem not_sameEffect_rejected (htype : TeFrameC2.ofByte frame.c2 = some kSetCurrentTime)
    (hlen : frame.len.toNat < 4) (hyear : (SetTime.ofFrame frame fun _ => 0).Rejected) {rtc : Rtc}
    (hday : rtc.daycnt.toNat = rtc.day) (f : Flash) :
    ¬ SameEffect (fun _ => 0) (poke 3) frame rtc f := by
  intro h
  have hpoke : (SetTime.ofFrame frame (poke 3)).Rejected := by
    rw [SetTime.Rejected, year_poke (by decide)]
    exact hyear
  have hdate := congrArg TsRtcDateTime.date h.calendar
  rw [calendar_setCurrentTime htype, calendar_setCurrentTime htype, day_rejected _ rtc hday hyear,
    day_rejected _ rtc hday hpoke] at hdate
  have hthird : frame.byte (fun _ => 0) 3 = frame.byte (poke 3) 3 :=
    congrArg (fun date => date.2.2) hdate
  rw [byte_poke_self (by omega), byte_behind _ (by omega)] at hthird
  exact absurd hthird (by decide)

theorem not_sameEffect_setCurrentTime (htype : TeFrameC2.ofByte frame.c2 = some kSetCurrentTime)
    (hown : ¬ OwnBytes frame) (f : Flash) :
    ∃ i, ¬ SameEffect (fun _ => 0) (poke i) frame (coldStart 0 (fun _ => 0) (fun _ => 0)) f := by
  rw [OwnBytes, htype] at hown
  obtain ⟨hlen, hshort⟩ := not_or.mp hown
  by_cases hyear : (SetTime.ofFrame frame fun _ => 0).Rejected
  · refine ⟨3, not_sameEffect_rejected htype ?_ hyear ?_ f⟩
    · apply Nat.lt_of_not_le
      intro hle
      exact hshort ⟨hle, hyear⟩
    · rw [Rtc.day]
      decide
  · exact ⟨6, not_sameEffect_accepted htype (Nat.lt_of_not_le hlen) hyear _ f⟩

/-- The commands that depend on their own bytes only are those with enough of them. -/
theorem sameEffect_iff (frame : TsFrameData) :
    (∀ (heap heap' : ℕ → UInt8) (rtc : Rtc) (f : Flash), SameEffect heap heap' frame rtc f) ↔
      OwnBytes frame := by
  constructor
  · intro h
    by_contra hown
    cases htype : TeFrameC2.ofByte frame.c2 with
    | none => exact hown (by rw [OwnBytes, htype]; trivial)
    | some type =>
      have hshort := hown
      rw [OwnBytes, htype] at hshort
      cases type with
      | kSetCurrentTime =>
        obtain ⟨i, hdiff⟩ := not_sameEffect_setCurrentTime htype hown blankFlash
        exact hdiff (h _ _ _ _)
      | kSetFactoryTime | kSetExpirationTime =>
        apply not_sameEffect_setTimeLimit (by decide) htype (Nat.lt_of_not_le hshort)
          (coldStart 0 (fun _ => 0) (fun _ => 0)) blankFlash
        exact h _ _ _ _
      | kSetAlarmValue =>
        apply not_sameEffect_setAlarm htype (Nat.lt_of_not_le hshort)
          (coldStart 0 (fun _ => 0) (fun _ => 0)) blankFlash
        exact h _ _ _ _
      | _ => exact hshort trivial
  · intro h heap heap' rtc f
    exact sameEffect_own heap heap' rtc f h

/-- A set-alarm frame without data bytes stores the two bytes behind its block. -/
def emptySetAlarm : TsFrameData := bareFrame 0 0x0D

theorem not_sameEffect_emptySetAlarm :
    ¬ SameEffect (fun _ => 0) (poke 1) emptySetAlarm (coldStart 0 (fun _ => 0) (fun _ => 0))
      blankFlash :=
  not_sameEffect_setAlarm rfl (by decide) _ _

end Detector
