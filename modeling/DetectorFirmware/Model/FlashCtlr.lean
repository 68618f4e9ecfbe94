import DetectorFirmware.Model.Config

/-! What the HAL calls of the flash driver do outside the memory: the two lock bits of
`FLASH->CTLR`, `mstatus` of the core, and the static `interrupt_value` in which
`bsp_flash.c` keeps the level it has to restore. -/

namespace Detector

open EventLog

structure FlashCtlr where
  LOCK : Bool
  FLOCK : Bool
  mstatus : UInt32
  interruptValue : UInt32
  deriving DecidableEq, Repr

/-- What `rt_hw_interrupt_disable` writes to `mstatus`. -/
def MSTATUS_DISABLED : UInt32 := 0x7800

/-- `FLASH_Unlock_Fast` writes the keys to `KEYR` and to `MODEKEYR`; `FLASH_Lock_Fast` sets
`CR_FLOCK_Set` alone. -/
instance : System FlashCtlr FlashOp where
  step c
    | .interruptDisable => { c with interruptValue := c.mstatus, mstatus := MSTATUS_DISABLED }
    | .interruptEnable => { c with mstatus := c.interruptValue }
    | .unlock => { c with LOCK := false }
    | .lock => { c with LOCK := true }
    | .unlockFast => { c with LOCK := false, FLOCK := false }
    | .lockFast => { c with FLOCK := true }
    | .erasePageFast _ => c
    | .programHalfWord _ _ => c

/-- The memory with the controller in front of it. -/
structure FlashDevice where
  memory : Flash
  ctlr : FlashCtlr

instance : System FlashDevice FlashOp where
  step d op := ⟨System.step d.memory op, System.step d.ctlr op⟩

/-- The calls that the rest of the firmware makes to change the flash. -/
inductive FlashCall where
  | writeRecord (record : TeRecord) (rtc : Rtc)
  | eraseRecords (record : TeRecord)
  | setProductTimeLimit (year : UInt16) (mon day hour min second : UInt8)
      (id : TeFlashProductTimeLimitId)
  | setAlarmLel (value : UInt16)
  | init

def FlashCall.run : FlashCall → FlashM Unit
  | writeRecord record rtc => do
    let _ ← flashWriteRecord record rtc
    pure ()
  | eraseRecords record => flashEraseRecords record
  | setProductTimeLimit year mon day hour min second id =>
    flashSetProductTimeLimit year mon day hour min second id
  | setAlarmLel value => flashSetAlarmLel value
  | init => bspFlashInit

/-- The device once a call has returned. -/
instance : System FlashDevice FlashCall where
  step d call := replay d (call.run.events d.memory)

end Detector
