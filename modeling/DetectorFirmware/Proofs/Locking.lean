import DetectorFirmware.Library.Observer
import DetectorFirmware.Model.FlashCtlr
import DetectorFirmware.Proofs.RecordLog

/-! The lock bits and the interrupt level around the calls of the flash driver. Both
unlock/lock pairs restore `FLOCK` and `mstatus`, a `Flash_Write` sets `LOCK`, and a
fast page erase leaves it clear. A call therefore leaves the controller as its last
pair does, whatever the memory holds and whether or not a read-back agrees. -/

namespace Detector

open EventLog TeRecord

variable {level : UInt32}

/-! The states a controller passes through. -/

/-- What every call finds and leaves: fast mode locked, and `mstatus` as the caller has it. -/
def AtRest (level : UInt32) (c : FlashCtlr) : Prop := c.FLOCK = true ∧ c.mstatus = level

def Locked (level : UInt32) (c : FlashCtlr) : Prop := c.LOCK = true ∧ AtRest level c

def LeftOpen (level : UInt32) (c : FlashCtlr) : Prop := c.LOCK = false ∧ AtRest level c

/-- Inside a pair: interrupts off, the caller's level saved. -/
structure Unlocked (level : UInt32) (fast : Bool) (c : FlashCtlr) : Prop where
  lock : c.LOCK = false
  flock : c.FLOCK = !fast
  disabled : c.mstatus = MSTATUS_DISABLED
  saved : c.interruptValue = level

/-- What the part asks of the HAL calls that change the memory: the lock bits of their mode
cleared, and no interrupt in between. -/
def Guarded (c : FlashCtlr) : FlashOp → Prop
  | .erasePageFast _ => c.LOCK = false ∧ c.FLOCK = false ∧ c.mstatus = MSTATUS_DISABLED
  | .programHalfWord _ _ => c.LOCK = false ∧ c.mstatus = MSTATUS_DISABLED
  | _ => True

/-! The two pairs. -/

theorem guides_unLock : Prog.Guides Guarded (AtRest level) (Unlocked level false) bspFlashUnLock := by
  intro f c ⟨hflock, hlevel⟩
  exact ⟨⟨trivial, trivial, trivial⟩, rfl, hflock, rfl, hlevel⟩

theorem guides_lock : Prog.Guides Guarded (Unlocked level false) (Locked level) bspFlashLock := by
  intro f c h
  exact ⟨⟨trivial, trivial, trivial⟩, rfl, h.flock, h.saved⟩

theorem guides_fastUnLock :
    Prog.Guides Guarded (AtRest level) (Unlocked level true) bspFlashFastUnLock := by
  intro f c ⟨hflock, hlevel⟩
  exact ⟨⟨trivial, trivial, trivial⟩, rfl, rfl, rfl, hlevel⟩

/-- Only `FLOCK` is set again. -/
theorem guides_fastLock :
    Prog.Guides Guarded (Unlocked level true) (LeftOpen level) bspFlashFastLock := by
  intro f c h
  exact ⟨⟨trivial, trivial, trivial⟩, h.lock, rfl, h.saved⟩

/-! What runs inside them. -/

theorem guides_erasePageFast (addr : ℕ) : Prog.Guides Guarded (Unlocked level true)
    (Unlocked level true) (flashErasePageFast addr) := by
  apply Prog.guides_emit
  · intro c h
    exact ⟨h.lock, h.flock, h.disabled⟩
  · intro c h
    exact h

/-- The loop leaves the controller alone, at the end of the data as at a read-back that differs. -/
theorem guides_writeLoop (addr : ℕ) (ws : List UInt16) : Prog.Guides Guarded (Unlocked level false)
    (Unlocked level false) (flashWriteLoop addr ws) := by
  induction ws generalizing addr with
  | nil => exact Prog.guides_pure true
  | cons w ws ih =>
    have hprogram : Prog.Guides Guarded (Unlocked level false) (Unlocked level false)
        (flashProgramHalfWord addr w) := by
      apply Prog.guides_emit
      · intro c h
        exact ⟨h.lock, h.disabled⟩
      · intro c h
        exact h
    apply hprogram.bind
    intro _
    apply (Prog.guides_gets _).bind
    intro back
    exact Prog.guides_ite (Prog.guides_pure false) (ih (addr + 2))

/-! The driver functions. -/

/-- The early return of `Flash_Write` is for odd addresses, which no caller passes. -/
theorem guides_flashWrite {addr : ℕ} (h : addr % 2 = 0) (buf : List UInt8) :
    Prog.Guides Guarded (AtRest level) (Locked level) (flashWrite addr buf) := by
  rw [flashWrite, if_neg (not_not.mpr h)]
  apply guides_unLock.bind
  intro _
  apply (guides_writeLoop addr (halfWords buf)).bind
  intro ok
  apply guides_lock.bind
  intro _
  exact Prog.guides_pure _

theorem guides_erasePageRecords (record : TeRecord) (page : ℕ) :
    Prog.Guides Guarded (AtRest level) (LeftOpen level) (flashErasePageRecords record page) := by
  apply guides_fastUnLock.bind
  intro _
  apply (guides_erasePageFast _).bind
  intro _
  apply guides_fastLock.bind
  intro _
  exact Prog.guides_gets _

theorem guides_erasePageConfigInfo :
    Prog.Guides Guarded (AtRest level) (LeftOpen level) flashErasePageConfigInfo := by
  apply guides_fastUnLock.bind
  intro _
  apply (guides_erasePageFast _).bind
  intro _
  exact guides_fastLock

/-- Every region has a page, so `Flash_Erase_Records` always ends with a fast lock. -/
theorem guides_eraseRecords (record : TeRecord) :
    Prog.Guides Guarded (AtRest level) (LeftOpen level) (flashEraseRecords record) := by
  apply Prog.guides_forM_last
  · have hpages := hrRecordPages_pos record
    intro hnil
    rw [List.range_eq_nil] at hnil
    omega
  · intro page _
    apply (guides_erasePageRecords record page).bind
    intro _
    exact Prog.guides_pure ()
  · intro c h
    exact h.2

theorem guides_eraseAhead (record : TeRecord) (indexMax : ℕ) :
    Prog.Guides Guarded (AtRest level) (AtRest level) (eraseAhead record indexMax) := by
  have herase : ∀ page, Prog.Guides Guarded (AtRest level) (AtRest level) (do
      let _ ← flashErasePageRecords record page
      pure ()) := by
    intro page
    apply ((guides_erasePageRecords record page).post fun _ h => h.2).bind
    intro _
    exact Prog.guides_pure ()
  apply Prog.guides_ite (herase 0)
  exact Prog.guides_ite (herase _) (Prog.guides_pure ())

theorem recordIndexAddr_even (record : TeRecord) (index : ℕ) :
    (hrStartAddr record + FLASH_PAGE_SIZE * pageOffset record index + inPageOffset index) % 2 = 0 := by
  rw [inPageOffset_slot, slotAddr_eq]
  omega

theorem guides_writeRecord (record : TeRecord) (rtc : Rtc) :
    Prog.Guides Guarded (AtRest level) (Locked level) (flashWriteRecord record rtc) := by
  apply (Prog.guides_gets _).bind
  intro indexMax
  apply (guides_eraseAhead record indexMax).bind
  intro _
  apply Prog.Guides.bind (Q := Locked level)
  · apply (guides_flashWrite (recordIndexAddr_even record _) _).bind
    intro _
    exact Prog.guides_pure ()
  · intro _
    exact Prog.guides_pure _

theorem guides_writeConfigInfo (pageBuf : List UInt8) :
    Prog.Guides Guarded (AtRest level) (Locked level) (flashWriteConfigInfo pageBuf) := by
  apply (guides_flashWrite (by decide) pageBuf).bind
  intro _
  exact Prog.guides_pure ()

/-- Both setters rewrite the configuration page, and the write comes last. -/
theorem guides_rewriteConfigInfo (edit : List UInt8 → List UInt8) :
    Prog.Guides Guarded (AtRest level) (Locked level) (do
      let pageBuf ← flashErasePageReadConfigInfo
      flashWriteConfigInfo (edit pageBuf)) := by
  apply Prog.Guides.bind (Q := AtRest level)
  · apply (Prog.guides_gets _).bind
    intro pageBuf
    apply (guides_erasePageConfigInfo.post fun _ h => h.2).bind
    intro _
    exact Prog.guides_pure pageBuf
  · intro pageBuf
    exact guides_writeConfigInfo _

theorem guides_eraseRecodrs :
    Prog.Guides Guarded (AtRest level) (LeftOpen level) bspFlashEraseRecodrs := by
  apply Prog.Guides.bind (Q := AtRest level)
  · apply Prog.guides_forM
    intro record _
    exact (guides_eraseRecords record).post fun _ h => h.2
  · intro _
    exact guides_erasePageConfigInfo

/-- A boot formats the part or does nothing. -/
theorem guides_init {P Q : FlashCtlr → Prop} (hP : ∀ c, P c → AtRest level c)
    (hQ : ∀ c, Locked level c → Q c) (hidle : ∀ c, P c → Q c) :
    Prog.Guides Guarded P Q bspFlashInit := by
  have hformat : Prog.Guides Guarded (AtRest level) (Locked level) (do
      bspFlashEraseRecodrs
      let _ ← flashWrite FLASH_INIT_FLAG_ADDR flashInitFlag
      flashSetProductTimeLimit 2023 3 22 13 58 20 .kFactoryTimeId
      flashSetProductTimeLimit 2028 3 22 13 58 20 .kExpirationTimeId) := by
    apply (guides_eraseRecodrs.post fun _ h => h.2).bind
    intro _
    apply ((guides_flashWrite (by decide) flashInitFlag).post fun _ h => h.2).bind
    intro _
    apply ((guides_rewriteConfigInfo _).post fun _ h => h.2).bind
    intro _
    exact guides_rewriteConfigInfo _
  apply (Prog.guides_gets _).bind
  intro flag
  apply Prog.guides_ite
  · exact (hformat.pre hP).post hQ
  · exact (Prog.guides_pure ()).post hidle

/-! The calls, one by one and in any order. -/

/-- Whether a call ends with a fast lock. -/
def FlashCall.endsFast : FlashCall → Bool
  | eraseRecords _ => true
  | _ => false

theorem guides_call (call : FlashCall) :
    Prog.Guides Guarded (AtRest level) (AtRest level) call.run := by
  cases call with
  | writeRecord record rtc =>
    apply (guides_writeRecord record rtc).bind
    intro _
    exact (Prog.guides_pure ()).post fun _ h => h.2
  | eraseRecords record => exact (guides_eraseRecords record).post fun _ h => h.2
  | setProductTimeLimit year mon day hour min second id =>
    exact (guides_rewriteConfigInfo _).post fun _ h => h.2
  | setAlarmLel value => exact (guides_rewriteConfigInfo _).post fun _ h => h.2
  | init => exact guides_init (fun _ h => h) (fun _ h => h.2) fun _ h => h

theorem guides_call_locked {call : FlashCall} (h : call.endsFast = false) :
    Prog.Guides Guarded (Locked level) (Locked level) call.run := by
  cases call with
  | writeRecord record rtc =>
    apply ((guides_writeRecord record rtc).pre fun _ h => h.2).bind
    intro _
    exact Prog.guides_pure ()
  | eraseRecords record => cases h
  | setProductTimeLimit year mon day hour min second id =>
    exact (guides_rewriteConfigInfo _).pre fun _ h => h.2
  | setAlarmLel value => exact (guides_rewriteConfigInfo _).pre fun _ h => h.2
  | init => exact guides_init (fun _ h => h.2) (fun _ h => h) fun _ h => h

variable {d : FlashDevice}

theorem replay_memory (d : FlashDevice) (t : List FlashOp) :
    (replay d t).memory = replay d.memory t :=
  replay_simulates FlashDevice.memory (fun _ _ => rfl) d t

theorem replay_ctlr (d : FlashDevice) (t : List FlashOp) : (replay d t).ctlr = replay d.ctlr t :=
  replay_simulates FlashDevice.ctlr (fun _ _ => rfl) d t

/-- The memory after a call is the one the calls were modelled on. -/
theorem step_call_memory (d : FlashDevice) (call : FlashCall) :
    (System.step d call).memory = call.run.final d.memory :=
  replay_memory d _

theorem step_call_ctlr (d : FlashDevice) (call : FlashCall) :
    (System.step d call).ctlr = replay d.ctlr (call.run.events d.memory) :=
  replay_ctlr d _

theorem atRest_step (d : FlashDevice) (call : FlashCall) (h : AtRest level d.ctlr) :
    AtRest level (System.step d call).ctlr := by
  rw [step_call_ctlr]
  exact (guides_call call d.memory d.ctlr h).2

/-- Whatever the order of the calls, fast mode ends locked and `mstatus` as it was. -/
theorem atRest_replay (h : AtRest level d.ctlr) (calls : List FlashCall) :
    AtRest level (replay d calls).ctlr :=
  replay_invariant (I := fun d : FlashDevice => AtRest level d.ctlr) atRest_step h calls

/-- No event of a run programs or erases with its lock bits set or interrupts on. -/
theorem steps_guarded (h : AtRest level d.ctlr) (calls : List FlashCall) :
    Steps (fun d (call : FlashCall) => Steps Guarded d.ctlr (call.run.events d.memory)) d calls := by
  induction calls generalizing d with
  | nil => trivial
  | cons call calls ih => exact ⟨(guides_call call d.memory d.ctlr h).1, ih (atRest_step d call h)⟩

/-- What a call owes its caller once it has returned. -/
def LeavesLocked (d : FlashDevice) (call : FlashCall) : Prop :=
  (System.step d call).ctlr.LOCK = true ∧ (System.step d call).ctlr.FLOCK = true ∧
    (System.step d call).ctlr.mstatus = d.ctlr.mstatus

theorem leavesLocked_call (h : Locked level d.ctlr) (call : FlashCall) :
    LeavesLocked d call ↔ call.endsFast = false := by
  rw [LeavesLocked, step_call_ctlr]
  cases hfast : call.endsFast with
  | false =>
    obtain ⟨hlock, hflock, hlevel⟩ := (guides_call_locked hfast d.memory d.ctlr h).2
    exact iff_of_true ⟨hlock, hflock, hlevel.trans h.2.2.symm⟩ rfl
  | true =>
    refine iff_of_false (fun hleft => ?_) Bool.noConfusion
    cases call with
    | eraseRecords record =>
      have hopen := ((guides_eraseRecords record) d.memory d.ctlr h.2).2.1
      exact Bool.noConfusion (hopen.symm.trans hleft.1)
    | _ => cases hfast

theorem locked_step (h : Locked level d.ctlr) {call : FlashCall} (hfast : call.endsFast = false) :
    Locked level (System.step d call).ctlr := by
  rw [step_call_ctlr]
  exact (guides_call_locked hfast d.memory d.ctlr h).2

theorem endsFast_iff (call : FlashCall) :
    call.endsFast = true ↔ ∃ record, call = .eraseRecords record := by
  cases call <;> simp [FlashCall.endsFast]

/-- From a locked controller every call of a run leaves it locked, with the interrupts as
they were, exactly when none of them is `Flash_Erase_Records`. -/
theorem leftLocked_iff {d : FlashDevice} (hlock : d.ctlr.LOCK = true) (hflock : d.ctlr.FLOCK = true)
    (calls : List FlashCall) :
    Steps LeavesLocked d calls ↔ ∀ record, FlashCall.eraseRecords record ∉ calls := by
  have hlocked : Locked d.ctlr.mstatus d.ctlr := ⟨hlock, hflock, rfl⟩
  have hruns : Steps LeavesLocked d calls ↔
      Steps (fun _ (call : FlashCall) => call.endsFast = false) d calls := by
    apply Steps.iff_of_invariant (I := fun e : FlashDevice => Locked d.ctlr.mstatus e.ctlr)
    · intro e call he
      exact leavesLocked_call he call
    · intro e call he hleft
      exact locked_step he ((leavesLocked_call he call).mp hleft)
    · exact hlocked
  rw [hruns, steps_iff_forall_mem fun call : FlashCall => call.endsFast = false]
  constructor
  · intro h record hmem
    cases h _ hmem
  · intro h call hmem
    rw [← Bool.not_eq_true, endsFast_iff]
    rintro ⟨record, rfl⟩
    exact h record hmem

/-- Both modes locked and interrupts on, in front of an erased memory. -/
def lockedDevice : FlashDevice := ⟨blankFlash, ⟨true, true, 0x1888, 0⟩⟩

theorem leftLocked_lockedDevice_iff :
    Steps LeavesLocked lockedDevice [.setAlarmLel 20, .eraseRecords .kRecordFault] ↔
      ∀ record, FlashCall.eraseRecords record ∉
        [FlashCall.setAlarmLel 20, FlashCall.eraseRecords .kRecordFault] :=
  leftLocked_iff rfl rfl _

theorem not_leftLocked_eraseRecords :
    lockedDevice.ctlr.LOCK = true ∧ lockedDevice.ctlr.FLOCK = true ∧
      ¬ Steps LeavesLocked lockedDevice [.eraseRecords .kRecordFault] := by
  refine ⟨rfl, rfl, fun h => ?_⟩
  have hlocked : Locked 0x1888 lockedDevice.ctlr := ⟨rfl, rfl, rfl⟩
  exact Bool.noConfusion ((leavesLocked_call hlocked _).mp h.1)

end Detector
