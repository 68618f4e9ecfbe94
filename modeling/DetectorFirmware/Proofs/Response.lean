import DetectorFirmware.Model.Protocol
import DetectorFirmware.Proofs.FrameRoundTrip

/-! What `HR_ProcessData` puts on the wire: the data field of an answer as a wire
frame, and for the record queries the timestamp that was read. -/

namespace Detector

open EventLog

/-- A command without data bytes. -/
def bareFrame (c1 c2 : UInt8) : TsFrameData := ⟨c1, c2, 0, [], rfl⟩

theorem dataFieldWith_take {bytes : List UInt8} (h : bytes.length ≤ 64) :
    (dataFieldWith bytes).take bytes.length = bytes := by
  rw [dataFieldWith, storeBytes_eq (by rwa [List.length_replicate, Nat.zero_add]), List.take_zero,
    List.nil_append]
  exact List.take_left

theorem dataFieldWith_length (bytes : List UInt8) : (dataFieldWith bytes).length = 64 := by
  rw [dataFieldWith, storeBytes_length, List.length_replicate]

/-- Only the first `srcLen` bytes of the source reach the frame. -/
theorem hrGenerateRawFrame_take (c1 c2 : UInt8) (src : List UInt8) (srcLen : UInt8) :
    hrGenerateRawFrame c1 c2 (src.take srcLen.toNat) srcLen = hrGenerateRawFrame c1 c2 src srcLen := by
  simp only [hrGenerateRawFrame, List.take_take, Nat.min_self]

/-- The answer goes out as a wire frame; a record query for record 0 as zeros. -/
theorem hrSend_eq (c2 : UInt8) (a : Answer) (hlen : a.dataField.length = 64)
    (hdata : a.dataLen.toNat ≤ 64) :
    hrSend c2 a = some (wireFrame a.c1 c2
      (if a.c1 = 0 ∧ 0 < c2.toNat ∧ c2.toNat < 7 then List.replicate a.dataLen.toNat 0
        else a.dataField.take a.dataLen.toNat)) := by
  have hwire : ∀ field : List UInt8, field.length = 64 →
      (hrGenerateRawFrame a.c1 c2 field a.dataLen).map TsRawFrameData.sent =
        some (wireFrame a.c1 c2 (field.take a.dataLen.toNat)) := by
    intro field hfield
    have htake : (field.take a.dataLen.toNat).length = a.dataLen.toNat := by
      rw [List.length_take, hfield, Nat.min_eq_left hdata]
    obtain ⟨raw, hraw, -, hsent⟩ :=
      hrGenerateRawFrame_eq a.c1 c2 (field.take a.dataLen.toNat) (by omega)
    rw [htake, UInt8.ofNat_toNat, hrGenerateRawFrame_take] at hraw
    rw [hraw, Option.map_some, hsent]
  unfold hrSend
  by_cases h0 : a.c1 = 0 ∧ 0 < c2.toNat ∧ c2.toNat < 7
  · simp only [if_pos h0]
    have hzero : storeBytes a.dataField 0 (List.replicate a.dataLen.toNat 0) =
        List.replicate a.dataLen.toNat 0 ++ a.dataField.drop a.dataLen.toNat := by
      rw [storeBytes_eq (by rw [List.length_replicate]; omega), List.take_zero, List.nil_append,
        List.length_replicate, Nat.zero_add]
    rw [hwire _ (by rw [storeBytes_length, hlen]), hzero]
    congr 2
    exact List.take_left' (List.length_replicate ..)
  · simp only [if_neg h0]
    exact hwire _ hlen

/-- An answer of `payload.length` bytes sends those. -/
theorem hrSend_payload (c1 c2 : UInt8) (rtc : Rtc) {payload : List UInt8} {dataLen : UInt8}
    (hlen : dataLen.toNat = payload.length) (h64 : dataLen.toNat ≤ 64) :
    hrSend c2 ⟨c1, dataFieldWith payload, dataLen, rtc⟩ = some (wireFrame c1 c2
      (if c1 = 0 ∧ 0 < c2.toNat ∧ c2.toNat < 7 then List.replicate payload.length 0
        else payload)) := by
  rw [hrSend_eq _ _ (dataFieldWith_length _) h64]
  dsimp only
  rw [hlen, dataFieldWith_take (hlen ▸ h64)]

theorem hrProcessData_payload {frame : TsFrameData} {heap : ℕ → UInt8} {rtc rtc' : Rtc} {f : Flash}
    {c1 dataLen : UInt8} {payload : List UInt8}
    (h : (hrSwitch heap frame rtc).result f = ⟨c1, dataFieldWith payload, dataLen, rtc'⟩)
    (hlen : dataLen.toNat = payload.length) (h64 : dataLen.toNat ≤ 64) :
    ((hrProcessData heap frame rtc).result f).1 = some (wireFrame c1 frame.c2
      (if c1 = 0 ∧ 0 < frame.c2.toNat ∧ frame.c2.toNat < 7 then List.replicate payload.length 0
        else payload)) := by
  unfold hrProcessData
  rw [Prog.result_bind, Prog.result_pure, h]
  exact hrSend_payload c1 frame.c2 rtc' hlen h64

/-! Record queries. -/

/-- The timestamp read for a query. -/
def queryTime (record : TeRecord) (c1 : UInt8) (f : Flash) : TsRecordsTime :=
  (TsFlashHrRecordFrame.ofBuf (flashReadRecord record c1.toNat f)).time

theorem recordField_eq {recordType : TeFrameC2} {record : TeRecord}
    (h : recordType.record = some record) (c1 : UInt8) (f : Flash) :
    recordField recordType c1 f = dataFieldWith (queryTime record c1 f).buf := by
  rw [recordField, flashGetRecord, h, queryTime]

/-- The frame asks for records of a type, the sensor failure excepted. -/
def Queries (frame : TsFrameData) (record : TeRecord) : Prop :=
  ∃ recordType, TeFrameC2.ofByte frame.c2 = some recordType ∧ recordType.record = some record ∧
    record ≠ .kRecordSensoEndOfLife

theorem record_c2 (record : TeRecord) (h : record ≠ .kRecordSensoEndOfLife) :
    ∀ i : Fin 23, TeFrameC2.all[i].record = some record → 0 < i.val ∧ i.val < 7 := by
  cases record with
  | kRecordSensoEndOfLife => exact absurd rfl h
  | _ => decide

theorem Queries.c2_bounds {frame : TsFrameData} {record : TeRecord} (h : Queries frame record) :
    0 < frame.c2.toNat ∧ frame.c2.toNat < 7 := by
  obtain ⟨recordType, htype, hrec, hne⟩ := h
  obtain ⟨hlt, hget⟩ := List.getElem?_eq_some_iff.mp htype
  exact record_c2 record hne ⟨frame.c2.toNat, hlt⟩ (by rw [Fin.getElem_fin, hget, hrec])

theorem dataFieldWith_first (time : TsRecordsTime) :
    (dataFieldWith time.buf).getD 0 0 = time.yearH := rfl

theorem storeBytes_zeros :
    storeBytes (dataFieldWith (List.replicate 6 0)) 0 (List.replicate 6 0) =
      dataFieldWith (List.replicate 6 0) := by
  decide

/-- A query leaves the timestamp in the data field. The alarm case clears the field
when the year starts with a zero byte, which no other timestamp than the zero one may. -/
theorem hrSwitch_record {frame : TsFrameData} {record : TeRecord} (h : Queries frame record)
    (heap : ℕ → UInt8) (rtc : Rtc) (f : Flash)
    (hyear : (queryTime record frame.c1 f).yearH = 0 →
      (queryTime record frame.c1 f).buf = List.replicate 6 0) :
    (hrSwitch heap frame rtc).result f =
      ⟨frame.c1, dataFieldWith (queryTime record frame.c1 f).buf, 6, rtc⟩ := by
  obtain ⟨recordType, htype, hrec, hne⟩ := h
  cases recordType with
  | kAlarmRecord =>
    simp only [hrSwitch, htype, Prog.result_bind, Prog.result_gets, Prog.result_pure,
      recordField_eq hrec, dataFieldWith_first]
    split_ifs with h0
    · rw [hyear h0, storeBytes_zeros]
    · rfl
  | kSensorFailureRecord =>
    injection hrec with hrec
    exact absurd hrec.symm hne
  | kAlarmRcyRecord | kFaultRecord | kFaultRcyRecord | kPowerFailureRecord | kPowerOnRecord =>
    simp only [hrSwitch, htype, Prog.result_bind, Prog.result_gets, Prog.result_pure,
      recordField_eq hrec]
  | _ => cases hrec

theorem hrProcessData_record {frame : TsFrameData} {record : TeRecord} (h : Queries frame record)
    (heap : ℕ → UInt8) (rtc : Rtc) (f : Flash)
    (hyear : (queryTime record frame.c1 f).yearH = 0 →
      (queryTime record frame.c1 f).buf = List.replicate 6 0) :
    ((hrProcessData heap frame rtc).result f).1 = some (wireFrame frame.c1 frame.c2
      (if frame.c1 = 0 then List.replicate 6 0 else (queryTime record frame.c1 f).buf)) := by
  have hc2 := h.c2_bounds
  have hlen : (6 : UInt8).toNat = (queryTime record frame.c1 f).buf.length := rfl
  rw [hrProcessData_payload (hrSwitch_record h heap rtc f hyear) hlen (Nat.le_of_ble_eq_true rfl),
    ← hlen]
  simp only [hc2.1, hc2.2, and_true, UInt8.reduceToNat]

/-- The count query sends the seven counts. -/
theorem hrProcessData_numOfRecords {frame : TsFrameData} (h : frame.c2 = 0) (heap : ℕ → UInt8)
    (rtc : Rtc) (f : Flash) :
    ((hrProcessData heap frame rtc).result f).1 =
      some (wireFrame 0 0 (flashGetTotalRecord f)) := by
  have htype : TeFrameC2.ofByte frame.c2 = some .kNumOfRecords := by rw [h]; rfl
  have hlen : (7 : UInt8).toNat = (flashGetTotalRecord f).length := rfl
  have hswitch : (hrSwitch heap frame rtc).result f =
      ⟨0, dataFieldWith (flashGetTotalRecord f), 7, rtc⟩ := by
    simp only [hrSwitch, htype, Prog.result_bind, Prog.result_gets, Prog.result_pure]
  rw [hrProcessData_payload hswitch hlen (Nat.le_of_ble_eq_true rfl), h, if_neg]
  intro hzero
  exact absurd hzero.2.1 (by decide)

end Detector
