import DetectorFirmware.Library.WhileLoop
import DetectorFirmware.Model.Records

/-! The shell command of `bsp_flash.c` that fills a log for testing. -/

namespace Detector

open EventLog

/-- The loop variable of `TEST_Flash_Write_Record`, with the calls made so far and the
calendar that the next one finds. -/
structure TestWriteRecord where
  i : UInt8
  calls : ℕ
  rtc : Rtc

/-- One round: a record, then `rt_thread_mdelay(2)`, in which the clock runs on. -/
def testFlashWriteRecordRound (record : TeRecord) (mdelay : ℕ → Rtc → Rtc) (v : TestWriteRecord) :
    FlashM TestWriteRecord := do
  let rtc ← flashWriteRecord record v.rtc
  pure { i := v.i + 1, calls := v.calls + 1, rtc := mdelay v.calls rtc }

/-- `for (rt_uint8_t i = 0; i < num; i++)`, followed for at most `fuel` tests of the condition. -/
def testFlashWriteRecord (record : TeRecord) (num : ℤ) (mdelay : ℕ → Rtc → Rtc) (rtc : Rtc)
    (fuel : ℕ) : FlashM (Option TestWriteRecord) :=
  Prog.whileLoop (fun v => decide ((v.i.toNat : ℤ) < num)) (testFlashWriteRecordRound record mdelay)
    fuel ⟨0, 0, rtc⟩

end Detector
