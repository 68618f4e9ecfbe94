import DetectorFirmware.Model.Protocol
import DetectorFirmware.Proofs.ConfigCut
import DetectorFirmware.Proofs.Regions
import DetectorFirmware.Proofs.Retention

/-! `BSP_Flash_Init`. A part without the init flag is formatted: all pages are erased, the
flag is written, and two updates of the configuration page store the default time limits.
No operation of the running device takes the flag away again, so that a later boot changes
nothing. -/

namespace Detector

open EventLog TeFlashProductTimeLimitId

variable {f : Flash}

/-! What the boot does. -/

def Initialised (f : Flash) : Prop := f.halfWordAt FLASH_INIT_FLAG_ADDR = FLASH_FIRST_INIT_VALUE

instance (f : Flash) : Decidable (Initialised f) := by unfold Initialised; infer_instance

/-- The half-word of the flag, the last one of its page. -/
def flagCell : ℕ := configCell + 127

theorem initialised_iff : Initialised f ↔ f.cells flagCell = FLASH_FIRST_INIT_VALUE := Iff.rfl

theorem flag_addr : FLASH_INIT_FLAG_ADDR = 2 * flagCell := rfl

/-- The two calls that end the initialisation. -/
def defaultLimits : List ConfigSet :=
  [.timeLimit 2023 3 22 13 58 20 kFactoryTimeId, .timeLimit 2028 3 22 13 58 20 kExpirationTimeId]

/-- The flash after the erasure and the flag write. -/
def formatted (f : Flash) : Flash :=
  (flashWrite FLASH_INIT_FLAG_ADDR flashInitFlag).final (bspFlashEraseRecodrs.final f)

theorem bspFlashInit_final (f : Flash) : bspFlashInit.final f =
    if Initialised f then f else replay (formatted f) defaultLimits := by
  have hlimits : replay (formatted f) defaultLimits =
      (flashSetProductTimeLimit 2028 3 22 13 58 20 kExpirationTimeId).final
        ((flashSetProductTimeLimit 2023 3 22 13 58 20 kFactoryTimeId).final (formatted f)) := by
    rw [defaultLimits, replay_cons, replay_cons, replay_nil]
    rfl
  simp only [bspFlashInit, Prog.final_bind, Prog.final_gets, Prog.result_gets, Prog.final_ite,
    Prog.final_pure]
  rw [hlimits]
  by_cases hflag : Initialised f
  · rw [if_pos hflag]
    exact if_neg (not_not.mpr hflag)
  · rw [if_neg hflag]
    exact if_pos hflag

theorem bspFlashInit_idle (h : Initialised f) : bspFlashInit.final f = f := by
  rw [bspFlashInit_final, if_pos h]

theorem bspFlashInit_first (h : ¬ Initialised f) :
    bspFlashInit.final f = replay (formatted f) defaultLimits := by
  rw [bspFlashInit_final, if_neg h]

/-! The formatted flash. -/

theorem eraseRecodrs_config (f : Flash) {j : ℕ} (hj : j < 128) :
    (bspFlashEraseRecodrs.final f).cells (configCell + j) = ERASED := by
  rw [Prog.final, bspFlashEraseRecodrs_events, replay_erases, if_pos]
  refine ⟨FLASH_CONFIG_INFO_START_ADDR, List.mem_append_right _ (List.mem_singleton_self _), ?_⟩
  have := config_page
  omega

theorem eraseRecodrs_flag (f : Flash) : (bspFlashEraseRecodrs.final f).cells flagCell = ERASED := by
  rw [flagCell]
  exact eraseRecodrs_config f (Nat.lt_succ_self 127)

theorem flagWrite_events (h : f.cells flagCell = ERASED) :
    (flashWrite FLASH_INIT_FLAG_ADDR flashInitFlag).events f =
      writeOps (programOps flagCell [FLASH_FIRST_INIT_VALUE]) := by
  have hwords : halfWords flashInitFlag = [FLASH_FIRST_INIT_VALUE] := rfl
  have hclean : ∀ j < (halfWords flashInitFlag).length, f.cells (flagCell + j) = ERASED := by
    intro j hj
    rw [hwords, List.length_singleton, Nat.lt_one_iff] at hj
    rw [hj]
    exact h
  rw [flag_addr, (flashWrite_clean hclean).1, hwords]

theorem formatted_eq (f : Flash) : formatted f =
    (bspFlashEraseRecodrs.final f).program FLASH_INIT_FLAG_ADDR FLASH_FIRST_INIT_VALUE := by
  rw [formatted, Prog.final, flagWrite_events (eraseRecodrs_flag f), replay_writeOps, flag_addr]
  rfl

theorem formatted_flag (f : Flash) : Initialised (formatted f) := by
  rw [initialised_iff, formatted_eq, flag_addr]
  exact program_cells_self (eraseRecodrs_flag f) _

theorem formatted_config (f : Flash) {j : ℕ} (hj : j < 127) :
    (formatted f).cells (configCell + j) = ERASED := by
  have hne : configCell + j ≠ flagCell := by
    unfold flagCell
    omega
  rw [formatted_eq, flag_addr, program_cells_other _ hne, eraseRecodrs_config f (by omega)]

/-- An erased frame has no header. -/
theorem formatted_alarm (f : Flash) : flashGetAlarmLel (formatted f) = 0 := by
  have hwords : (formatted f).words (configCell + 8) 2 = List.replicate 2 ERASED := by
    refine words_erased fun j hj => ?_
    rw [Nat.add_assoc]
    exact formatted_config f (by omega)
  have hread : flashRead (formatted f) FLASH_ALARM_VALUE_ADDR MQ_ALARM_SIZE =
      (List.replicate 2 ERASED).flatMap wordBytes := by
    rw [← hwords, ← flashRead_words]
    rfl
  have hheader : (TsFlashMqAlarmFrame.ofBuf ((List.replicate 2 ERASED).flatMap wordBytes)).header ≠
      FLASH_CONFIG_INFO_FRAME_HEADER := by decide
  unfold flashGetAlarmLel
  rw [hread]
  exact if_neg hheader

/-! The invariant of the running device. -/

/-- What runs after the boot. `command` is a received frame of any kind, the queries
included; the getters beside it are functions of the memory. -/
inductive StoreOp where
  | write (record : TeRecord) (rtc : Rtc)
  | erase (record : TeRecord)
  | set (s : ConfigSet)
  | command (heap : ℕ → UInt8) (frame : TsFrameData) (rtc : Rtc)

instance : System Flash StoreOp where
  step f
    | .write record rtc => (flashWriteRecord record rtc).final f
    | .erase record => (flashEraseRecords record).final f
    | .set s => s.run.final f
    | .command heap frame rtc => (hrProcessData heap frame rtc).final f

theorem config_ne (record : TeRecord) : FlashPart.config ≠ .records record := nofun

theorem initialised_of_same {g : Flash} (h : FlashPart.config.Same f g) (hg : Initialised g) :
    Initialised f :=
  (h.halfWordAt (contains_configPage (by decide : 254 < 256))).trans hg

theorem initialised_set (s : ConfigSet) (h : Initialised f) : Initialised (s.run.final f) :=
  (initFlag_replay f [s]).trans h

/-- A frame leaves the flash alone or sets one field of the configuration page. -/
theorem hrProcessData_final (heap : ℕ → UInt8) (frame : TsFrameData) (rtc : Rtc) (f : Flash) :
    (hrProcessData heap frame rtc).final f = f ∨
      ∃ s : ConfigSet, (hrProcessData heap frame rtc).final f = s.run.final f := by
  have hset : ∀ id, (setTimeLimit frame heap id).final f = (ConfigSet.timeLimit (frame.bigEndian heap)
      (frame.byte heap 2) (frame.byte heap 3) (frame.byte heap 4) (frame.byte heap 5)
      (frame.byte heap 6) id).run.final f := by
    intro id
    rw [setTimeLimit, Prog.final_bind, Prog.final_bind, Prog.final_gets, Prog.final_pure]
    rfl
  have hswitch : (hrProcessData heap frame rtc).final f = (hrSwitch heap frame rtc).final f := by
    rw [hrProcessData, Prog.final_bind, Prog.final_pure]
  rw [hswitch, hrSwitch]
  cases htype : TeFrameC2.ofByte frame.c2 with
  | none => exact Or.inl rfl
  | some type =>
    cases type with
    | kSetFactoryTime =>
      refine Or.inr ⟨_, Eq.trans ?_ (hset kFactoryTimeId)⟩
      dsimp only
      rw [Prog.final_bind, Prog.final_pure]
    | kSetExpirationTime =>
      refine Or.inr ⟨_, Eq.trans ?_ (hset kExpirationTimeId)⟩
      dsimp only
      rw [Prog.final_bind, Prog.final_pure]
    | kSetAlarmValue =>
      refine Or.inr ⟨.alarmLel (frame.bigEndian heap), ?_⟩
      dsimp only
      rw [Prog.final_bind, Prog.final_pure]
      rfl
    | _ => exact Or.inl rfl

theorem initialised_step (f : Flash) (op : StoreOp) (h : Initialised f) :
    Initialised (System.step f op) := by
  cases op with
  | write record rtc =>
    exact initialised_of_same ((local_flashWriteRecord record rtc).final_frame (config_ne record) f) h
  | erase record =>
    exact initialised_of_same ((local_flashEraseRecords record).final_frame (config_ne record) f) h
  | set s => exact initialised_set s h
  | command heap frame rtc =>
    change Initialised ((hrProcessData heap frame rtc).final f)
    rcases hrProcessData_final heap frame rtc f with hsame | ⟨s, hs⟩
    · rwa [hsame]
    · rw [hs]
      exact initialised_set s h

/-! The first boot, and every later one. -/

theorem blank_first_boot (h : ¬ Initialised f) (record : TeRecord) :
    Blank record (bspFlashInit.final f) := by
  intro c hlow hhigh
  rw [bspFlashInit_region ⟨hlow, hhigh⟩]
  exact if_neg h

theorem numRecords_blank {record : TeRecord} (h : Blank record f) : flashGetNumRecords record f = 0 := by
  have hmax : flashGetMaxIndexRecords record f = 0 :=
    (logAt_blank h fun _ => (0, 0, 0)).maxIndex (by decide)
  rw [numRecords_of_maxIndex hmax, Nat.zero_min]

/-- The first boot leaves empty logs, the default time limits, no alarm threshold and the
flag; whatever is done then, a further boot leaves the flash as it is. -/
theorem first_boot (h : f.halfWordAt FLASH_INIT_FLAG_ADDR ≠ FLASH_FIRST_INIT_VALUE) :
    (∀ record, flashGetNumRecords record (bspFlashInit.final f) = 0) ∧
    (∀ limitTime, flashGetProductTimeLimit limitTime kFactoryTimeId (bspFlashInit.final f) =
      (.READY,
        { header := 0xA5, year := 2023, month := 3, day := 22, hour := 13, minute := 58
          second := 20 })) ∧
    (∀ limitTime, flashGetProductTimeLimit limitTime kExpirationTimeId (bspFlashInit.final f) =
      (.READY,
        { header := 0xA5, year := 2028, month := 3, day := 22, hour := 13, minute := 58
          second := 20 })) ∧
    flashGetAlarmLel (bspFlashInit.final f) = 0 ∧
    (bspFlashInit.final f).halfWordAt FLASH_INIT_FLAG_ADDR = FLASH_FIRST_INIT_VALUE ∧
    (∀ run : List StoreOp, bspFlashInit.final (replay (bspFlashInit.final f) run) =
      replay (bspFlashInit.final f) run) := by
  have hfirst := bspFlashInit_first h
  have hflag : Initialised (bspFlashInit.final f) := by
    rw [hfirst, Initialised, initFlag_replay]
    exact formatted_flag f
  refine ⟨fun record => numRecords_blank (blank_first_boot h record), fun limitTime => ?_,
    fun limitTime => ?_, ?_, hflag, fun run => ?_⟩
  · rw [hfirst, getProductTimeLimit_replay limitTime (by decide)]
    rfl
  · rw [hfirst, getProductTimeLimit_replay limitTime (by decide)]
    rfl
  · rw [hfirst, getAlarmLel_replay, formatted_alarm]
    rfl
  · exact bspFlashInit_idle (replay_invariant initialised_step hflag run)

theorem first_boot_blankFlash :
    (∀ record, flashGetNumRecords record (bspFlashInit.final blankFlash) = 0) ∧
    (∀ limitTime, flashGetProductTimeLimit limitTime kFactoryTimeId (bspFlashInit.final blankFlash) =
      (.READY,
        { header := 0xA5, year := 2023, month := 3, day := 22, hour := 13, minute := 58
          second := 20 })) ∧
    (∀ limitTime,
      flashGetProductTimeLimit limitTime kExpirationTimeId (bspFlashInit.final blankFlash) =
        (.READY,
          { header := 0xA5, year := 2028, month := 3, day := 22, hour := 13, minute := 58
            second := 20 })) ∧
    flashGetAlarmLel (bspFlashInit.final blankFlash) = 0 ∧
    (bspFlashInit.final blankFlash).halfWordAt FLASH_INIT_FLAG_ADDR = FLASH_FIRST_INIT_VALUE ∧
    (∀ run : List StoreOp, bspFlashInit.final (replay (bspFlashInit.final blankFlash) run) =
      replay (bspFlashInit.final blankFlash) run) :=
  first_boot (by decide)

end Detector
