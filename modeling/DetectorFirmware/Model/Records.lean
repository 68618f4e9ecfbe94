import DetectorFirmware.Model.Flash
import DetectorFirmware.Model.Rtc

/-! The seven record logs of `bsp_flash.c`. Integer expressions follow the C
conversions: an index is promoted to `int`, a division by an unsigned constant is
unsigned, and a page or slot offset is stored in eight bits. -/

namespace Detector

open EventLog

def FLASH_PAGE_SIZE : ℕ := 256
def FLASH_PAGE_HR_RECORD_NUM : ℕ := 25
def FLASH_HR_ONE_RECORD_SIZE : ℕ := 10
def HR_RECORD_FRAME_HEADER : UInt16 := 0xAA55
def HR_RECORD_FRAME_LEN : ℕ := 10
def FLASH_START_ADDR : ℕ := 0x08000000
def FALSH_SIZE_KB : ℕ := 256
def FLASH_LAST_PAGE_START_ADDR : ℕ := FLASH_START_ADDR + FALSH_SIZE_KB * 1024 - FLASH_PAGE_SIZE

inductive TeRecord where
  | kRecordAlarm
  | kRecordAlarmRcy
  | kRecordFault
  | kRecordFaultRcy
  | kRecordPowerDown
  | kRecordPowerOn
  | kRecordSensoEndOfLife
  deriving DecidableEq, Repr

open TeRecord

def TeRecord.all : List TeRecord :=
  [kRecordAlarm, kRecordAlarmRcy, kRecordFault, kRecordFaultRcy, kRecordPowerDown,
    kRecordPowerOn, kRecordSensoEndOfLife]

def hrRecordMaxNum : TeRecord → ℕ
  | kRecordAlarm => 200
  | kRecordAlarmRcy => 200
  | kRecordFault => 100
  | kRecordFaultRcy => 100
  | kRecordPowerDown => 50
  | kRecordPowerOn => 50
  | kRecordSensoEndOfLife => 1

def hrRecordPages : TeRecord → ℕ
  | kRecordAlarm => 9
  | kRecordAlarmRcy => 9
  | kRecordFault => 5
  | kRecordFaultRcy => 5
  | kRecordPowerDown => 3
  | kRecordPowerOn => 3
  | kRecordSensoEndOfLife => 1

/-! The regions are laid out backwards from the configuration page. -/

def FLASH_CONFIG_INFO_START_ADDR : ℕ := FLASH_LAST_PAGE_START_ADDR
def FLASH_HR_SENSOR_FAILURE_START_ADDR : ℕ := FLASH_CONFIG_INFO_START_ADDR - FLASH_PAGE_SIZE
def FLASH_HR_POWER_ON_START_ADDR : ℕ :=
  FLASH_HR_SENSOR_FAILURE_START_ADDR - FLASH_PAGE_SIZE * hrRecordPages kRecordPowerOn
def FLASH_HR_POWER_FAILURE_START_ADDR : ℕ :=
  FLASH_HR_POWER_ON_START_ADDR - FLASH_PAGE_SIZE * hrRecordPages kRecordPowerDown
def FLASH_HR_FAULT_RCY_START_ADDR : ℕ :=
  FLASH_HR_POWER_FAILURE_START_ADDR - FLASH_PAGE_SIZE * hrRecordPages kRecordFaultRcy
def FLASH_HR_FAULT_START_ADDR : ℕ :=
  FLASH_HR_FAULT_RCY_START_ADDR - FLASH_PAGE_SIZE * hrRecordPages kRecordFault
def FLASH_HR_ALARM_RCY_START_ADDR : ℕ :=
  FLASH_HR_FAULT_START_ADDR - FLASH_PAGE_SIZE * hrRecordPages kRecordAlarmRcy
def FLASH_HR_ALARM_START_ADDR : ℕ :=
  FLASH_HR_ALARM_RCY_START_ADDR - FLASH_PAGE_SIZE * hrRecordPages kRecordAlarm

def hrStartAddr : TeRecord → ℕ
  | kRecordAlarm => FLASH_HR_ALARM_START_ADDR
  | kRecordAlarmRcy => FLASH_HR_ALARM_RCY_START_ADDR
  | kRecordFault => FLASH_HR_FAULT_START_ADDR
  | kRecordFaultRcy => FLASH_HR_FAULT_RCY_START_ADDR
  | kRecordPowerDown => FLASH_HR_POWER_FAILURE_START_ADDR
  | kRecordPowerOn => FLASH_HR_POWER_ON_START_ADDR
  | kRecordSensoEndOfLife => FLASH_HR_SENSOR_FAILURE_START_ADDR

/-- `TsFlashHrRecordFrame`, packed. -/
structure TsFlashHrRecordFrame where
  header : UInt16
  index : UInt16
  year : UInt16
  month : UInt8
  day : UInt8
  hour : UInt8
  minute : UInt8
  deriving DecidableEq, Repr

def TsFlashHrRecordFrame.buf (r : TsFlashHrRecordFrame) : List UInt8 :=
  [lowByte r.header, highByte r.header, lowByte r.index, highByte r.index,
    lowByte r.year, highByte r.year, r.month, r.day, r.hour, r.minute]

/-- The union `TuFlashHrRecordFrame` read as a structure. -/
def TsFlashHrRecordFrame.ofBuf (b : List UInt8) : TsFlashHrRecordFrame where
  header := halfWord (b.getD 0 0) (b.getD 1 0)
  index := halfWord (b.getD 2 0) (b.getD 3 0)
  year := halfWord (b.getD 4 0) (b.getD 5 0)
  month := b.getD 6 0
  day := b.getD 7 0
  hour := b.getD 8 0
  minute := b.getD 9 0

inductive ErrorStatus where
  | NoREADY
  | READY
  deriving DecidableEq, Repr

/-- Conversion of an `int` to `unsigned int`. -/
def u32 (z : ℤ) : ℕ := (z % 4294967296).toNat

/-- `((index - 1) / FLASH_PAGE_HR_RECORD_NUM) % hr_record_pages[record]` as `rt_uint8_t`. -/
def pageOffset (record : TeRecord) (index : ℕ) : ℕ :=
  u32 ((index : ℤ) - 1) / FLASH_PAGE_HR_RECORD_NUM % hrRecordPages record % 256

/-- `(index - 1) % FLASH_PAGE_HR_RECORD_NUM` as `rt_uint8_t`. -/
def slotOffset (index : ℕ) : ℕ := u32 ((index : ℤ) - 1) % FLASH_PAGE_HR_RECORD_NUM % 256

/-- `((index - 1) % FLASH_PAGE_HR_RECORD_NUM) * FLASH_HR_ONE_RECORD_SIZE` as `rt_uint8_t`. -/
def inPageOffset (index : ℕ) : ℕ :=
  u32 ((index : ℤ) - 1) % FLASH_PAGE_HR_RECORD_NUM * FLASH_HR_ONE_RECORD_SIZE % 256

def flashErasePageRecords (record : TeRecord) (pageOffset : ℕ) : FlashM ErrorStatus := do
  let erasePage := if pageOffset ≤ hrRecordPages record - 1 then pageOffset
    else hrRecordPages record - 1
  let addr := hrStartAddr record + FLASH_PAGE_SIZE * erasePage
  bspFlashFastUnLock
  flashErasePageFast addr
  bspFlashFastLock
  Prog.gets fun f =>
    (List.range (FLASH_PAGE_SIZE / 2)).foldl
      (fun flag i => if f.halfWordAt (addr + 2 * i) ≠ 0xE339 then .NoREADY else flag) .READY

def flashEraseRecords (record : TeRecord) : FlashM Unit :=
  (List.range (hrRecordPages record)).forM fun erasePage => do
    let _ ← flashErasePageRecords record erasePage
    pure ()

def LWUTIL_MAX (x y : ℕ) : ℕ := if x > y then x else y

/-- The scan of one page, `index_max` threaded through. -/
def maxIndexInPage (record : TeRecord) (f : Flash) (page indexMax : ℕ) : ℕ :=
  (List.range FLASH_PAGE_HR_RECORD_NUM).foldl (fun indexMax i =>
    let addr := hrStartAddr record + FLASH_PAGE_SIZE * page + FLASH_HR_ONE_RECORD_SIZE * i
    if f.halfWordAt addr = HR_RECORD_FRAME_HEADER then
      LWUTIL_MAX indexMax (f.halfWordAt (addr + 2)).toNat
    else indexMax) indexMax

def flashGetMaxIndexRecords (record : TeRecord) (f : Flash) : ℕ :=
  (List.range (hrRecordPages record)).foldl
    (fun indexMax page => maxIndexInPage record f page indexMax) 0

def flashGetNumRecords (record : TeRecord) (f : Flash) : ℕ :=
  let numMax := flashGetMaxIndexRecords record f
  if numMax ≤ hrRecordMaxNum record then numMax % 256 else hrRecordMaxNum record

/-- The ten bytes `Flash_Read_Record` leaves in the caller's buffer. -/
def flashReadRecord (record : TeRecord) (index : ℕ) (f : Flash) : List UInt8 :=
  let indexMax := flashGetMaxIndexRecords record f
  if index ≤ indexMax then
    let (page, inPage) :=
      if indexMax > hrRecordMaxNum record then
        if record ≠ kRecordSensoEndOfLife then
          let indexRedirect := (((indexMax : ℤ) - (50 - (index : ℤ))) % 65536).toNat
          (pageOffset record indexRedirect, inPageOffset indexRedirect)
        else (0, inPageOffset indexMax)
      else (pageOffset record index, inPageOffset index)
    flashRead f (hrStartAddr record + FLASH_PAGE_SIZE * page + inPage) HR_RECORD_FRAME_LEN
  else List.replicate HR_RECORD_FRAME_LEN 0

/-- The read-back at the end of the source function feeds its debug log only. -/
def flashWriteRecordIndex (hrRecord : TsFlashHrRecordFrame) (record : TeRecord) (index : ℕ) :
    FlashM Unit := do
  let addr := hrStartAddr record + FLASH_PAGE_SIZE * pageOffset record index + inPageOffset index
  let _ ← flashWrite addr hrRecord.buf
  pure ()

/-- The page offset of the oldest kept record; eight bits, as the source has it. -/
def indexStartPageOffset (record : TeRecord) (indexMax : ℕ) : ℕ :=
  if indexMax ≤ hrRecordMaxNum record then 0
  else pageOffset record
    (((indexMax : ℤ) - ((hrRecordMaxNum record : ℤ) - 1)) % 65536).toNat

/-- The erase-ahead of `Flash_Write_Record`. -/
def eraseAhead (record : TeRecord) (indexMax : ℕ) : FlashM Unit := do
  let indexMaxPageOffset := pageOffset record indexMax
  if slotOffset indexMax + 1 = FLASH_PAGE_HR_RECORD_NUM - 1
      ∧ indexMaxPageOffset = hrRecordPages record - 1 then
    let _ ← flashErasePageRecords record 0
    pure ()
  else if slotOffset indexMax + 1 = FLASH_PAGE_HR_RECORD_NUM - 1
      ∧ (indexMaxPageOffset : ℤ) = (indexStartPageOffset record indexMax : ℤ) - 1 then
    let _ ← flashErasePageRecords record ((indexMaxPageOffset + 1) % 256)
    pure ()
  else pure ()

/-- The record that a calendar gives, with the index it is stored under. -/
def recordFrame (index : ℕ) (t : TsRtcDateTime) : TsFlashHrRecordFrame where
  header := HR_RECORD_FRAME_HEADER
  index := UInt16.ofNat index
  year := t.year
  month := t.month
  day := t.day
  hour := t.hour
  minute := t.minute

/-- Appends a record and returns the calendar, which the call brings up to date. -/
def flashWriteRecord (record : TeRecord) (rtc : Rtc) : FlashM Rtc := do
  let indexMax ← Prog.gets (flashGetMaxIndexRecords record)
  let indexNew := (indexMax + 1) % 65536
  eraseAhead record indexMax
  let rtc := bspGetRtcTime rtc
  flashWriteRecordIndex (recordFrame indexNew rtc.rtcDateTime) record indexNew
  pure rtc

end Detector
