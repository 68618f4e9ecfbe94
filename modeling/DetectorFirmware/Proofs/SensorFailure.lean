import DetectorFirmware.Proofs.History

/-! The sensor-failure query. The record's date is put at the start of the data field, where
the flag that says whether there is a record overwrites its first byte. -/

namespace Detector

open EventLog EraseAheadRing

variable {f : Flash} {n : ℕ}

/-! What is read. -/

/-- The one page of the type: the newest record is read, whatever its number. -/
theorem flashReadRecord_sensor (hmax : flashGetMaxIndexRecords .kRecordSensoEndOfLife f = n)
    (hn : 1 ≤ n) : flashReadRecord .kRecordSensoEndOfLife 1 f =
      flashRead f (2 * readCell .kRecordSensoEndOfLife n) 10 := by
  have hpage : ∀ k, pageOffset .kRecordSensoEndOfLife k = 0 := by
    intro k
    have := pageOffset_lt .kRecordSensoEndOfLife k
    exact Nat.lt_one_iff.mp this
  have haddr : ∀ k, hrStartAddr .kRecordSensoEndOfLife + FLASH_PAGE_SIZE * 0 + inPageOffset k =
      2 * readCell .kRecordSensoEndOfLife k := by
    intro k
    rw [readCell, hpage, inPageOffset_slot, slotAddr_eq]
  have hcap : hrRecordMaxNum .kRecordSensoEndOfLife = 1 := rfl
  simp only [flashReadRecord, hmax, if_pos hn, hcap, gt_iff_lt, ne_eq, not_true_eq_false, if_false,
    hpage]
  split_ifs with hone
  · simp only [haddr, HR_RECORD_FRAME_LEN]
  · obtain rfl : n = 1 := by omega
    simp only [haddr, HR_RECORD_FRAME_LEN]

theorem queryTime_sensor (clock : ℕ → Rtc) (hf : Blank .kRecordSensoEndOfLife f) (h1 : 1 ≤ n)
    (hn : n ≤ 65535) :
    (queryTime .kRecordSensoEndOfLife 1 (logAfter .kRecordSensoEndOfLife clock f n)).buf =
      (stamp (clock (n - 1))).bytes := by
  have hmax := maxIndex_logAfter clock hf hn
  rw [queryTime, UInt8.toNat_one, flashReadRecord_sensor hmax h1, ofBuf_flashRead,
    bodyAt_live clock hf hn (live_self h1), stamps, timeBytes_bodyOf]

/-! What is sent. -/

/-- A frame that asks for the sensor failure. -/
def AsksSensor (frame : TsFrameData) : Prop := frame.c2 = 7

theorem sensor_record : TeFrameC2.kSensorFailureRecord.record = some .kRecordSensoEndOfLife := rfl

theorem sensorFailureField_length (c1 : UInt8) (f : Flash) : (sensorFailureField c1 f).length = 64 := by
  rw [sensorFailureField, recordField_eq sensor_record]
  split_ifs
  all_goals rw [storeBytes_length, dataFieldWith_length]

theorem response_sensor {frame : TsFrameData} (h : AsksSensor frame) (heap : ℕ → UInt8) (rtc : Rtc)
    (f : Flash) : ((hrProcessData heap frame rtc).result f).1 =
      some (wireFrame frame.c1 frame.c2 ((sensorFailureField frame.c1 f).take 7)) := by
  have htype : TeFrameC2.ofByte frame.c2 = some .kSensorFailureRecord := by
    rw [show frame.c2 = 7 from h]
    rfl
  have hc2 : ¬ frame.c2.toNat < 7 := by
    rw [show frame.c2 = 7 from h]
    decide
  have hswitch : (hrSwitch heap frame rtc).result f =
      ⟨frame.c1, sensorFailureField frame.c1 f, 7, rtc⟩ := by
    simp only [hrSwitch, htype, Prog.result_bind, Prog.result_gets, Prog.result_pure]
  unfold hrProcessData
  rw [Prog.result_bind, Prog.result_pure, hswitch,
    hrSend_eq frame.c2 _ (sensorFailureField_length frame.c1 f) (Nat.le_of_ble_eq_true rfl),
    if_neg fun hzero => hc2 hzero.2.2]
  rfl

/-- The seven bytes, by what was read. -/
theorem sensorFailureField_take (c1 : UInt8) (f : Flash) {yh yl month day hour minute : UInt8}
    (ht : (queryTime .kRecordSensoEndOfLife 1 f).buf = [yh, yl, month, day, hour, minute]) :
    (sensorFailureField c1 f).take 7 =
      if c1 ≠ 0 ∨ yl = 0 then List.replicate 7 0 else [1, yl, month, day, hour, minute, 0] := by
  have hfield : recordField .kSensorFailureRecord 1 f =
      dataFieldWith [yh, yl, month, day, hour, minute] := by
    rw [recordField_eq sensor_record, ht]
  have hyear : (dataFieldWith [yh, yl, month, day, hour, minute]).getD 1 0 = yl := rfl
  rw [sensorFailureField, hfield, hyear]
  by_cases hc1 : c1 = 0
  · by_cases hzero : yl = 0
    · rw [if_neg (not_not.mpr hc1), if_pos hzero, if_pos (Or.inr hzero)]
      rfl
    · rw [if_neg (not_not.mpr hc1), if_neg hzero, if_neg (by simp [hc1, hzero])]
      rfl
  · rw [if_pos hc1, if_pos (Or.inl hc1)]
    rfl

/-! When it is right. -/

/-- The seven bytes that are asked for. -/
def sensorField (clock : ℕ → Rtc) (n : ℕ) (c1 : UInt8) : List UInt8 :=
  if c1 ≠ 0 ∨ n = 0 then List.replicate 7 0 else 1 :: (stamp (clock (n - 1))).bytes

/-- After `n` records the query gets the flag and the date of the newest one. -/
def SensorRight (clock : ℕ → Rtc) (f : Flash) (n : ℕ) (frame : TsFrameData) : Prop :=
  ∀ heap rtc,
    ((hrProcessData heap frame rtc).result (logAfter .kRecordSensoEndOfLife clock f n)).1 =
      some (wireFrame frame.c1 frame.c2 (sensorField clock n frame.c1))

/-- The years of a run. -/
def YearsInRange (clock : ℕ → Rtc) (n : ℕ) : Prop :=
  ∀ i < n, 1970 ≤ (stamp (clock i)).year.toNat ∧ (stamp (clock i)).year.toNat ≤ 2099

theorem yearsFrom256_of_inRange {clock : ℕ → Rtc} (h : YearsInRange clock n) :
    YearsFrom256 clock n :=
  fun i hi => by have := (h i hi).1; omega

/-- Without the high byte of the year the date is not the one asked for, neither shifted
to the front nor cleared. -/
theorem sent_ne {t : TsRtcDateTime} (hyear : highByte t.year ≠ 0) :
    (if (0 : UInt8) ≠ 0 ∨ lowByte t.year = 0 then List.replicate 7 0
      else [1, lowByte t.year, t.month, t.day, t.hour, t.minute, 0]) ≠ 1 :: t.bytes := by
  rw [TsRtcDateTime.bytes]
  split_ifs with hzero
  · intro h
    exact absurd (List.cons_eq_cons.mp h).1 (by decide)
  · intro h
    simp only [List.cons.injEq, true_and, and_true] at h
    obtain ⟨h0, h1, h2, h3, h4, h5⟩ := h
    exact hyear (by rw [← h0, ← h1, ← h2, ← h3, ← h4, ← h5])

theorem not_sensorRight (clock : ℕ → Rtc) (hf : Blank .kRecordSensoEndOfLife f) (h1 : 1 ≤ n)
    (hn : n ≤ 65535) (hyears : YearsFrom256 clock n) {frame : TsFrameData} (hask : AsksSensor frame)
    (hc1 : frame.c1 = 0) : ¬ SensorRight clock f n frame := by
  intro h
  have hasked : sensorField clock n frame.c1 = 1 :: (stamp (clock (n - 1))).bytes := by
    refine if_neg ?_
    rintro (hne | rfl)
    · exact hne hc1
    · exact absurd h1 (by decide)
  have hsent := h (fun _ => 0) startupRtc
  rw [response_sensor hask, sensorFailureField_take _ _ (queryTime_sensor clock hf h1 hn),
    hasked] at hsent
  have hyear := highByte_ne_zero (hyears (n - 1) (by omega))
  have hfield := wireFrame_inj (Option.some.inj hsent)
  rw [hc1] at hfield
  exact sent_ne hyear hfield

/-- The query is right for a wrong control byte and for an empty log, and whenever it has a
date to send it drops the first byte of it. -/
theorem sensorRight_iff (clock : ℕ → Rtc) (hf : Blank .kRecordSensoEndOfLife f) (hn : n ≤ 65535)
    (hyears : YearsInRange clock n) {frame : TsFrameData} (hask : AsksSensor frame) :
    SensorRight clock f n frame ↔ frame.c1 ≠ 0 ∨ n = 0 := by
  by_cases hc1 : frame.c1 = 0
  · rcases Nat.eq_zero_or_pos n with rfl | h1
    · refine iff_of_true (fun heap rtc => ?_) (Or.inr rfl)
      have hgt : 0 < (1 : UInt8).toNat := Nat.one_pos
      have hempty := queryTime_gt (maxIndex_logAfter clock hf hn) hgt
      rw [response_sensor hask, sensorFailureField_take _ _ hempty, sensorField,
        if_pos (Or.inr rfl), if_pos (Or.inr rfl)]
    · refine iff_of_false ?_ (by simp [hc1, Nat.ne_of_gt h1])
      exact not_sensorRight clock hf h1 hn (yearsFrom256_of_inRange hyears) hask hc1
  · refine iff_of_true (fun heap rtc => ?_) (Or.inl hc1)
    rw [response_sensor hask, sensorFailureField_take _ _ rfl, sensorField, if_pos (Or.inl hc1),
      if_pos (Or.inl hc1)]

/-- The command AA 00 07 00. -/
def sensorQuery : TsFrameData := bareFrame 0 7

/-- A calendar that was read on the twenty-fifth of March 2024. -/
def marchRtc : Rtc where
  counter := 0
  daycnt := 0
  rtcDateTime := { TsRtcDateTime.zero with year := 2024, month := 3, day := 25 }
  besideTableWeek _ := 0
  besideMonTable _ := 0

theorem yearsInRange_marchRtc (n : ℕ) : YearsInRange (fun _ => marchRtc) n := by
  intro i _
  have hdate := stamp_cached (r := marchRtc) (by simp [Rtc.day, marchRtc])
  have hyear : (stamp marchRtc).year = 2024 := congrArg Prod.fst hdate
  rw [hyear]
  decide

theorem sensorRight_march_iff :
    SensorRight (fun _ => marchRtc) blankFlash 1 sensorQuery ↔ sensorQuery.c1 ≠ 0 ∨ 1 = 0 :=
  sensorRight_iff _ (blank_blankFlash _) (by decide) (yearsInRange_marchRtc 1) rfl

theorem not_sensorRight_march : YearsInRange (fun _ => marchRtc) 1 ∧
    ¬ SensorRight (fun _ => marchRtc) blankFlash 1 sensorQuery :=
  ⟨yearsInRange_marchRtc 1, not_sensorRight _ (blank_blankFlash _) le_rfl (by decide)
    (yearsFrom256_of_inRange (yearsInRange_marchRtc 1)) rfl rfl⟩

end Detector
