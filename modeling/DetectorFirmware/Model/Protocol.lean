import DetectorFirmware.Model.Config
import DetectorFirmware.Model.Frame

/-! `HR_ProcessData`: what the device does with a received frame, and what it sends
back. -/

namespace Detector

open EventLog

inductive TeFrameC2 where
  | kNumOfRecords
  | kAlarmRecord
  | kAlarmRcyRecord
  | kFaultRecord
  | kFaultRcyRecord
  | kPowerFailureRecord
  | kPowerOnRecord
  | kSensorFailureRecord
  | kGetCurrentTime
  | kGetCurrentTimeSecond
  | kSetCurrentTime
  | kSetFactoryTime
  | kSetExpirationTime
  | kSetAlarmValue
  | kOutSysStatus
  | kGetAlarmValue
  | kGetMqVoltage
  | kSetSysStatus
  | kGetSysStatus
  | kEraseRecords
  | kGetFactoryTime
  | kGetExpirationTime
  | kReboot
  deriving DecidableEq, Repr

open TeFrameC2

/-- The enumerators in the order of their values, which start at zero. -/
def TeFrameC2.all : List TeFrameC2 :=
  [kNumOfRecords, kAlarmRecord, kAlarmRcyRecord, kFaultRecord, kFaultRcyRecord,
    kPowerFailureRecord, kPowerOnRecord, kSensorFailureRecord, kGetCurrentTime,
    kGetCurrentTimeSecond, kSetCurrentTime, kSetFactoryTime, kSetExpirationTime, kSetAlarmValue,
    kOutSysStatus, kGetAlarmValue, kGetMqVoltage, kSetSysStatus, kGetSysStatus, kEraseRecords,
    kGetFactoryTime, kGetExpirationTime, kReboot]

def TeFrameC2.ofByte (c2 : UInt8) : Option TeFrameC2 := TeFrameC2.all[c2.toNat]?

/-- `record_type - 1`, for the types between `kNumOfRecords` and `kGetCurrentTime`. -/
def TeFrameC2.record : TeFrameC2 → Option TeRecord
  | kAlarmRecord => some .kRecordAlarm
  | kAlarmRcyRecord => some .kRecordAlarmRcy
  | kFaultRecord => some .kRecordFault
  | kFaultRcyRecord => some .kRecordFaultRcy
  | kPowerFailureRecord => some .kRecordPowerDown
  | kPowerOnRecord => some .kRecordPowerOn
  | kSensorFailureRecord => some .kRecordSensoEndOfLife
  | _ => none

/-- The seven counts of `TsTotalRecords`, in the order of its fields. -/
def flashGetTotalRecord (f : Flash) : List UInt8 :=
  TeRecord.all.map fun record => UInt8.ofNat (flashGetNumRecords record f)

structure TsRecordsTime where
  yearH : UInt8
  yearL : UInt8
  month : UInt8
  day : UInt8
  hour : UInt8
  minute : UInt8
  deriving DecidableEq, Repr

def TsRecordsTime.buf (t : TsRecordsTime) : List UInt8 :=
  [t.yearH, t.yearL, t.month, t.day, t.hour, t.minute]

def TsFlashHrRecordFrame.time (r : TsFlashHrRecordFrame) : TsRecordsTime :=
  ⟨highByte r.year, lowByte r.year, r.month, r.day, r.hour, r.minute⟩

/-- `none` is `NoREADY`, which leaves the caller's `TsRecordsTime` alone. -/
def flashGetRecord (recordType : TeFrameC2) (index : UInt8) (f : Flash) : Option TsRecordsTime :=
  match recordType.record with
  | some record => some (TsFlashHrRecordFrame.ofBuf (flashReadRecord record index.toNat f)).time
  | none => none

/-- Data byte `i` of the frame; past the block it is whatever the heap holds there. -/
def TsFrameData.byte (frame : TsFrameData) (heap : ℕ → UInt8) (i : ℕ) : UInt8 :=
  frame.data.getD i (heap i)

/-- `data[0] << 8 | data[1]`. -/
def TsFrameData.bigEndian (frame : TsFrameData) (heap : ℕ → UInt8) : UInt16 :=
  halfWord (frame.byte heap 1) (frame.byte heap 0)

/-- The year, month, day, hour and minute fields that the time responses share. -/
def TsRtcDateTime.bytes (t : TsRtcDateTime) : List UInt8 :=
  [highByte t.year, lowByte t.year, t.month, t.day, t.hour, t.minute]

def TsFlashProductTimeLimitFrame.bytes (t : TsFlashProductTimeLimitFrame) : List UInt8 :=
  [highByte t.year, lowByte t.year, t.month, t.day, t.hour, t.minute, t.second]

/-- The `kSetCurrentTime` case: the global is overwritten, then the clock is set and
read again, and the status of `RTC_Set` is dropped. -/
def setCurrentTime (frame : TsFrameData) (heap : ℕ → UInt8) (rtc : Rtc) : Rtc :=
  let rtc := { rtc with
    rtcDateTime := { rtc.rtcDateTime with
      hour := frame.byte heap 4
      minute := frame.byte heap 5
      second := frame.byte heap 6
      day := frame.byte heap 3
      month := frame.byte heap 2
      year := frame.bigEndian heap } }
  let t := rtc.rtcDateTime
  bspGetRtcTime (rtcSet rtc t.year t.month t.day t.hour t.minute t.second).2

/-- The cases `kSetFactoryTime` and `kSetExpirationTime`. -/
def setTimeLimit (frame : TsFrameData) (heap : ℕ → UInt8) (id : TeFlashProductTimeLimitId) :
    FlashM TsFlashProductTimeLimitFrame := do
  flashSetProductTimeLimit (frame.bigEndian heap) (frame.byte heap 2) (frame.byte heap 3)
    (frame.byte heap 4) (frame.byte heap 5) (frame.byte heap 6) id
  let read ← Prog.gets (flashGetProductTimeLimit ⟨0, 0, 0, 0, 0, 0, 0⟩ id)
  pure read.2

/-- What the `switch` of `HR_ProcessData` leaves in its locals and in the calendar. -/
structure Answer where
  c1 : UInt8
  dataField : List UInt8
  dataLen : UInt8
  rtc : Rtc

/-- `data_field`, 64 zero bytes, after a write to its first bytes. -/
def dataFieldWith (bytes : List UInt8) : List UInt8 := storeBytes (List.replicate 64 0) 0 bytes

/-- `data_field` after a record query. -/
def recordField (recordType : TeFrameC2) (index : UInt8) (f : Flash) : List UInt8 :=
  match flashGetRecord recordType index f with
  | some time => dataFieldWith time.buf
  | none => dataFieldWith []

def sensorFailureField (c1 : UInt8) (f : Flash) : List UInt8 :=
  let dataField := recordField kSensorFailureRecord 1 f
  if c1 ≠ 0 then storeBytes dataField 0 (List.replicate 7 0)
  else if dataField.getD 1 0 = 0 then storeBytes dataField 0 (List.replicate 7 0)
  else storeBytes dataField 0 [1]

def hrSwitch (heap : ℕ → UInt8) (frame : TsFrameData) (rtc : Rtc) : FlashM Answer :=
  match TeFrameC2.ofByte frame.c2 with
  | some kNumOfRecords => do
    let total ← Prog.gets flashGetTotalRecord
    pure ⟨0, dataFieldWith total, 7, rtc⟩
  | some kAlarmRecord => do
    let dataField ← Prog.gets (recordField kAlarmRecord frame.c1)
    -- only this case clears the field when the high byte of the year is zero
    let dataField := if dataField.getD 0 0 = 0 then storeBytes dataField 0 (List.replicate 6 0)
      else dataField
    pure ⟨frame.c1, dataField, 6, rtc⟩
  | some kAlarmRcyRecord => do
    pure ⟨frame.c1, ← Prog.gets (recordField kAlarmRcyRecord frame.c1), 6, rtc⟩
  | some kFaultRecord => do
    pure ⟨frame.c1, ← Prog.gets (recordField kFaultRecord frame.c1), 6, rtc⟩
  | some kFaultRcyRecord => do
    pure ⟨frame.c1, ← Prog.gets (recordField kFaultRcyRecord frame.c1), 6, rtc⟩
  | some kPowerFailureRecord => do
    pure ⟨frame.c1, ← Prog.gets (recordField kPowerFailureRecord frame.c1), 6, rtc⟩
  | some kPowerOnRecord => do
    pure ⟨frame.c1, ← Prog.gets (recordField kPowerOnRecord frame.c1), 6, rtc⟩
  | some kSensorFailureRecord => do
    pure ⟨frame.c1, ← Prog.gets (sensorFailureField frame.c1), 7, rtc⟩
  | some kGetCurrentTime =>
    let rtc := bspGetRtcTime rtc
    pure ⟨frame.c1, dataFieldWith rtc.rtcDateTime.bytes, 6, rtc⟩
  | some kGetCurrentTimeSecond =>
    let rtc := bspGetRtcTime rtc
    pure ⟨frame.c1, dataFieldWith (rtc.rtcDateTime.bytes ++ [rtc.rtcDateTime.second]), 7, rtc⟩
  | some kSetCurrentTime =>
    let rtc := setCurrentTime frame heap rtc
    pure ⟨frame.c1, dataFieldWith (rtc.rtcDateTime.bytes ++ [rtc.rtcDateTime.second]), 7, rtc⟩
  | some kSetFactoryTime => do
    let limitTime ← setTimeLimit frame heap .kFactoryTimeId
    pure ⟨frame.c1, dataFieldWith limitTime.bytes, 7, rtc⟩
  | some kSetExpirationTime => do
    let limitTime ← setTimeLimit frame heap .kExpirationTimeId
    pure ⟨frame.c1, dataFieldWith limitTime.bytes, 7, rtc⟩
  | some kSetAlarmValue => do
    let value := frame.bigEndian heap
    flashSetAlarmLel value
    pure ⟨frame.c1, dataFieldWith [highByte value, lowByte value], 2, rtc⟩
  | some kGetAlarmValue => do
    let value ← Prog.gets flashGetAlarmLel
    pure ⟨frame.c1, dataFieldWith [highByte value, lowByte value], 2, rtc⟩
  | _ => pure ⟨frame.c1, dataFieldWith [], 0, rtc⟩

/-- The code at `send:`, up to the bytes handed to the serial device. -/
def hrSend (c2 : UInt8) (a : Answer) : Option (List UInt8) :=
  let dataField := if a.c1 = 0 ∧ 0 < c2.toNat ∧ c2.toNat < 7 then
    storeBytes a.dataField 0 (List.replicate a.dataLen.toNat 0) else a.dataField
  (hrGenerateRawFrame a.c1 c2 dataField a.dataLen).map TsRawFrameData.sent

/-- The response, and the calendar afterwards. -/
def hrProcessData (heap : ℕ → UInt8) (frame : TsFrameData) (rtc : Rtc) :
    FlashM (Option (List UInt8) × Rtc) := do
  let a ← hrSwitch heap frame rtc
  pure (hrSend frame.c2 a, a.rtc)

end Detector
