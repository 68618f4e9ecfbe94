import DetectorFirmware.Model.Records

/-! The configuration page of `bsp_flash.c` and the boot-time initialisation. The
page holds two time limits, the alarm threshold and, in its last half-word, the
flag that `BSP_Flash_Init` looks at. -/

namespace Detector

open EventLog

def FLASH_FIRST_INIT_VALUE : UInt16 := 0xA2A2
def FLASH_CONFIG_INFO_FRAME_HEADER : UInt16 := 0xA5A5
def FLASH_PRODUCT_TIME_FRAME_HEADER : UInt8 := 0xA5

/-- `other` stands for the remaining integers, which the shell command passes on. -/
inductive TeFlashProductTimeLimitId where
  | kFactoryTimeId
  | kExpirationTimeId
  | other
  deriving DecidableEq, Repr

open TeFlashProductTimeLimitId

/-- `TsFlashProductTimeLimitFrame`, packed. -/
structure TsFlashProductTimeLimitFrame where
  header : UInt8
  year : UInt16
  month : UInt8
  day : UInt8
  hour : UInt8
  minute : UInt8
  second : UInt8
  deriving DecidableEq, Repr

def TsFlashProductTimeLimitFrame.buf (t : TsFlashProductTimeLimitFrame) : List UInt8 :=
  [t.header, lowByte t.year, highByte t.year, t.month, t.day, t.hour, t.minute, t.second]

def TsFlashProductTimeLimitFrame.ofBuf (b : List UInt8) : TsFlashProductTimeLimitFrame where
  header := b.getD 0 0
  year := halfWord (b.getD 1 0) (b.getD 2 0)
  month := b.getD 3 0
  day := b.getD 4 0
  hour := b.getD 5 0
  minute := b.getD 6 0
  second := b.getD 7 0

/-- `sizeof(TuFlashProductTimeLimitFrame)`. -/
def PRODUCT_TIME_LIMIT_SIZE : ℕ := 8

/-- `TsFlashMqAlarmFrame`, packed. -/
structure TsFlashMqAlarmFrame where
  header : UInt16
  value : UInt16
  deriving DecidableEq, Repr

def TsFlashMqAlarmFrame.buf (a : TsFlashMqAlarmFrame) : List UInt8 :=
  [lowByte a.header, highByte a.header, lowByte a.value, highByte a.value]

def TsFlashMqAlarmFrame.ofBuf (b : List UInt8) : TsFlashMqAlarmFrame where
  header := halfWord (b.getD 0 0) (b.getD 1 0)
  value := halfWord (b.getD 2 0) (b.getD 3 0)

/-- `sizeof(TuFlashMqAlarmFrame)`. -/
def MQ_ALARM_SIZE : ℕ := 4

def FLASH_FACTORY_TIME_START_ADDR : ℕ := FLASH_CONFIG_INFO_START_ADDR
def FLASH_EXPIRATION_TIME_START_ADDR : ℕ := FLASH_FACTORY_TIME_START_ADDR + PRODUCT_TIME_LIMIT_SIZE
def FLASH_ALARM_VALUE_ADDR : ℕ := FLASH_EXPIRATION_TIME_START_ADDR + PRODUCT_TIME_LIMIT_SIZE
def FLASH_INIT_FLAG_ADDR : ℕ := FLASH_CONFIG_INFO_START_ADDR + 254

def flashErasePageConfigInfo : FlashM Unit := do
  bspFlashFastUnLock
  flashErasePageFast FLASH_CONFIG_INFO_START_ADDR
  bspFlashFastLock

/-- Saves the page before erasing it. -/
def flashErasePageReadConfigInfo : FlashM (List UInt8) := do
  let pageBuf ← Prog.gets (flashRead · FLASH_CONFIG_INFO_START_ADDR FLASH_PAGE_SIZE)
  flashErasePageConfigInfo
  pure pageBuf

def flashWriteConfigInfo (pageBuf : List UInt8) : FlashM Unit := do
  let _ ← flashWrite FLASH_CONFIG_INFO_START_ADDR pageBuf
  pure ()

/-- `page_buf[in_page_offset + i] = buf[i]` for every `i`. -/
def storeBytes : List UInt8 → ℕ → List UInt8 → List UInt8
  | page, _, [] => page
  | page, off, b :: bs => storeBytes (page.set off b) (off + 1) bs

@[simp] theorem storeBytes_length (page : List UInt8) (off : ℕ) (bs : List UInt8) :
    (storeBytes page off bs).length = page.length := by
  induction bs generalizing page off with
  | nil => rfl
  | cons b bs ih => rw [storeBytes, ih, List.length_set]

theorem storeBytes_eq {page : List UInt8} {off : ℕ} {bs : List UInt8}
    (h : off + bs.length ≤ page.length) :
    storeBytes page off bs = page.take off ++ bs ++ page.drop (off + bs.length) := by
  induction bs generalizing page off with
  | nil => rw [storeBytes, List.append_nil, List.length_nil, Nat.add_zero, List.take_append_drop]
  | cons b bs ih =>
    rw [List.length_cons] at h
    have htake : (page.set off b).take (off + 1) = page.take off ++ [b] := by
      rw [List.take_add_one, List.take_set_of_le le_rfl, List.getElem?_set_self (by omega)]
      rfl
    have hdrop : (page.set off b).drop (off + 1 + bs.length) = page.drop (off + 1 + bs.length) :=
      List.drop_set_of_lt (by omega)
    rw [storeBytes, ih (by rw [List.length_set]; omega), htake, hdrop, List.length_cons,
      Nat.add_assoc off 1, Nat.add_comm 1, List.append_assoc (page.take off), List.singleton_append]

/-- Status and the frame that ends up in the caller's `pLimitTime`. -/
def flashGetProductTimeLimit (limitTime : TsFlashProductTimeLimitFrame)
    (id : TeFlashProductTimeLimitId) (f : Flash) : ErrorStatus × TsFlashProductTimeLimitFrame :=
  let addr := match id with
    | kFactoryTimeId => FLASH_FACTORY_TIME_START_ADDR
    | kExpirationTimeId => FLASH_EXPIRATION_TIME_START_ADDR
    | other => 0
  if addr ≠ 0 then
    let limitTime := .ofBuf (flashRead f addr PRODUCT_TIME_LIMIT_SIZE)
    if limitTime.header = FLASH_PRODUCT_TIME_FRAME_HEADER then (.READY, limitTime)
    else (.NoREADY, limitTime)
  else (.NoREADY, limitTime)

/-- The frame that `Flash_SetProductTimeLimit` stores. -/
def timeLimitFrame (year : UInt16) (mon day hour min second : UInt8) :
    TsFlashProductTimeLimitFrame :=
  ⟨FLASH_PRODUCT_TIME_FRAME_HEADER, year, mon, day, hour, min, second⟩

def timeLimitOffset : TeFlashProductTimeLimitId → ℕ
  | kFactoryTimeId => (FLASH_FACTORY_TIME_START_ADDR - FLASH_CONFIG_INFO_START_ADDR) % 256
  | kExpirationTimeId => (FLASH_EXPIRATION_TIME_START_ADDR - FLASH_CONFIG_INFO_START_ADDR) % 256
  | other => 0

/-- The final `Flash_GetProductTimeLimit` of the source function is for its log only. -/
def flashSetProductTimeLimit (year : UInt16) (mon day hour min second : UInt8)
    (id : TeFlashProductTimeLimitId) : FlashM Unit := do
  let pageBuf ← flashErasePageReadConfigInfo
  flashWriteConfigInfo
    (storeBytes pageBuf (timeLimitOffset id) (timeLimitFrame year mon day hour min second).buf)

def flashGetAlarmLel (f : Flash) : UInt16 :=
  let sensorCal := TsFlashMqAlarmFrame.ofBuf (flashRead f FLASH_ALARM_VALUE_ADDR MQ_ALARM_SIZE)
  if sensorCal.header = FLASH_CONFIG_INFO_FRAME_HEADER then sensorCal.value else 0

def alarmOffset : ℕ := (FLASH_ALARM_VALUE_ADDR - FLASH_CONFIG_INFO_START_ADDR) % 256

def alarmFrame (value : UInt16) : TsFlashMqAlarmFrame := ⟨FLASH_CONFIG_INFO_FRAME_HEADER, value⟩

def flashSetAlarmLel (value : UInt16) : FlashM Unit := do
  let pageBuf ← flashErasePageReadConfigInfo
  flashWriteConfigInfo (storeBytes pageBuf alarmOffset (alarmFrame value).buf)

def bspFlashEraseRecodrs : FlashM Unit := do
  TeRecord.all.forM flashEraseRecords
  flashErasePageConfigInfo

/-- The two bytes of `flash_init_flag`. -/
def flashInitFlag : List UInt8 := [lowByte FLASH_FIRST_INIT_VALUE, highByte FLASH_FIRST_INIT_VALUE]

def bspFlashInit : FlashM Unit := do
  let flag ← Prog.gets (Flash.halfWordAt · FLASH_INIT_FLAG_ADDR)
  if flag ≠ FLASH_FIRST_INIT_VALUE then
    bspFlashEraseRecodrs
    let _ ← flashWrite FLASH_INIT_FLAG_ADDR flashInitFlag
    flashSetProductTimeLimit 2023 3 22 13 58 20 kFactoryTimeId
    flashSetProductTimeLimit 2028 3 22 13 58 20 kExpirationTimeId
  else pure ()

end Detector
