import DetectorFirmware.Proofs.ConfigPage
import DetectorFirmware.Proofs.RecordLog

/-! A power cut inside a configuration update, followed by `BSP_Flash_Init`. The update
erases the page with the init flag first and programs the flag last, so that every cut
in between makes the next boot erase all seven record regions. -/

namespace Detector

open EventLog

variable {f : Flash} {t : List FlashOp}

/-! What the initialisation does to the regions. -/

/-- The half-word belongs to the region of a record type. -/
def InRegion (record : TeRecord) (c : ℕ) : Prop :=
  hrStartAddr record / 2 ≤ c ∧ c < hrStartAddr record / 2 + 128 * hrRecordPages record

theorem InRegion.below_config {record : TeRecord} {c : ℕ} (h : InRegion record c) :
    c < configCell := by
  have hend : hrStartAddr record / 2 + 128 * hrRecordPages record ≤ configCell := by
    cases record <;> decide
  exact h.2.trans_le hend

/-- The pages that `BSP_Flash_EraseRecodrs` erases before the configuration page. -/
def recordPageAddrs : List ℕ :=
  TeRecord.all.flatMap fun record => (List.range (hrRecordPages record)).map (pageAddr record)

theorem bspFlashEraseRecodrs_events (f : Flash) : bspFlashEraseRecodrs.events f =
    (recordPageAddrs ++ [FLASH_CONFIG_INFO_START_ADDR]).flatMap eraseOps := by
  have hrecord : ∀ record ∈ TeRecord.all, ∀ g, (flashEraseRecords record).events g =
      (List.range (hrRecordPages record)).flatMap fun page => eraseOps (pageAddr record page) := by
    intro record _ g
    refine Prog.events_forM (fun page hpage h => ?_) g
    rw [Prog.events_bind, Prog.events_pure, List.append_nil,
      flashErasePageRecords_events record (List.mem_range.mp hpage)]
  rw [bspFlashEraseRecodrs, Prog.events_bind, Prog.events_forM hrecord,
    flashErasePageConfigInfo_events, recordPageAddrs, List.flatMap_append, List.flatMap_assoc,
    List.flatMap_singleton]
  simp only [List.flatMap_map]

theorem replay_erases (f : Flash) (addrs : List ℕ) (c : ℕ) :
    (replay f (addrs.flatMap eraseOps)).cells c =
      if ∃ addr ∈ addrs, c / 128 = addr / 256 then ERASED else f.cells c := by
  induction addrs generalizing f with
  | nil => simp
  | cons addr addrs ih =>
    rw [List.flatMap_cons, replay_append, replay_eraseOps, ih, erasePage_cells]
    simp only [List.exists_mem_cons_iff]
    by_cases hrest : ∃ a ∈ addrs, c / 128 = a / 256
    · rw [if_pos hrest, if_pos (Or.inr hrest)]
    · rw [if_neg hrest]
      by_cases haddr : c / 128 = addr / 256
      · rw [if_pos haddr, if_pos (Or.inl haddr)]
      · rw [if_neg haddr, if_neg (not_or.mpr ⟨haddr, hrest⟩)]

theorem eraseRecodrs_region {record : TeRecord} {c : ℕ} (h : InRegion record c) (f : Flash) :
    (bspFlashEraseRecodrs.final f).cells c = ERASED := by
  obtain ⟨hlow, hhigh⟩ := h
  have hstart := hrStartAddr_eq record
  rw [Prog.final, bspFlashEraseRecodrs_events, replay_erases, if_pos]
  refine ⟨pageAddr record (c / 128 - hrStartAddr record / 256), ?_, ?_⟩
  · refine List.mem_append_left _ (List.mem_flatMap.mpr ⟨record, ?_, ?_⟩)
    · cases record <;> decide
    · exact List.mem_map_of_mem (List.mem_range.mpr (by omega))
  · unfold pageAddr FLASH_PAGE_SIZE
    omega

/-- The flag and the two default time limits stay on the configuration page. -/
theorem bspFlashInit_region {record : TeRecord} {c : ℕ} (h : InRegion record c) (f : Flash) :
    (bspFlashInit.final f).cells c =
      if f.halfWordAt FLASH_INIT_FLAG_ADDR = FLASH_FIRST_INIT_VALUE then f.cells c else ERASED := by
  have hbelow := h.below_config
  have hset : ∀ (g : Flash) year mon day hour min second id,
      ((flashSetProductTimeLimit year mon day hour min second id).final g).cells c = g.cells c := by
    intro g year mon day hour min second id
    have hrun : flashSetProductTimeLimit year mon day hour min second id =
        (ConfigSet.timeLimit year mon day hour min second id).run := rfl
    rw [hrun]
    exact ConfigSet.outside g _ (Or.inl hbelow)
  have hwrite : ∀ g : Flash, ((flashWrite FLASH_INIT_FLAG_ADDR flashInitFlag).final g).cells c =
      g.cells c := by
    intro g
    have haddr : FLASH_INIT_FLAG_ADDR = 2 * (configCell + 127) := rfl
    obtain ⟨k, -, -, hloop⟩ := flashWriteLoop_events g (configCell + 127) (halfWords flashInitFlag)
    rw [haddr, Prog.final, flashWrite_events, hloop, replay_writeOps]
    exact replay_programOps_outside g (Or.inl (by omega))
  simp only [bspFlashInit, Prog.final_bind, Prog.final_gets, Prog.result_gets, Prog.final_ite,
    Prog.final_pure]
  by_cases hflag : f.halfWordAt FLASH_INIT_FLAG_ADDR = FLASH_FIRST_INIT_VALUE
  · rw [if_pos hflag, if_neg (not_not.mpr hflag)]
  · rw [if_neg hflag, if_pos hflag, hset, hset, hwrite, eraseRecodrs_region h]

/-! The cut. -/

/-- The record regions hold the same half-words. -/
def SameRecords (f g : Flash) : Prop := ∀ record c, InRegion record c → g.cells c = f.cells c

/-- The erases and half-word programs of a run. -/
def operations (t : List FlashOp) : ℕ := (memoryOps t).length

theorem set_events (f : Flash) (s : ConfigSet) : s.run.events f =
    eraseOps FLASH_CONFIG_INFO_START_ADDR ++
      writeOps (programOps configCell (updatedWords f s.offset s.bytes)) := by
  rw [s.run_eq, configUpdate_events]

/-- The memory after a cut: as before, or the page erased and programmed up to a point. -/
theorem replay_cut {s : ConfigSet} (ht : t <+: s.run.events f) :
    (operations t = 0 ∧ replay f t = f) ∨
      ∃ k ≤ 128, operations t = k + 1 ∧
        replay f t = replay (f.erasePage FLASH_CONFIG_INFO_START_ADDR)
          (programOps configCell ((updatedWords f s.offset s.bytes).take k)) := by
  have hpre : memoryOps t <+: memoryOps (s.run.events f) := ht.filter FlashOp.changesMemory
  rw [set_events, memoryOps_append, memoryOps_eraseOps, memoryOps_writeOps, memoryOps_programOps,
    List.singleton_append] at hpre
  unfold operations
  rw [← replay_memoryOps]
  cases hm : memoryOps t with
  | nil => exact Or.inl ⟨rfl, rfl⟩
  | cons op u =>
    rw [hm, List.cons_prefix_cons] at hpre
    obtain ⟨rfl, hu⟩ := hpre
    refine Or.inr ⟨u.length, ?_, rfl, ?_⟩
    · have := hu.length_le
      rwa [programOps_length, updatedWords_length] at this
    · rw [replay_cons, step_erase, ← programOps_take, ← List.prefix_iff_eq_take.mp hu]

/-- All 129 operations make a complete update. -/
theorem replay_cut_complete {s : ConfigSet} (ht : t <+: s.run.events f) (h : operations t = 129) :
    replay f t = s.run.final f := by
  rcases replay_cut ht with ⟨h0, -⟩ | ⟨k, -, hops, hcut⟩
  · omega
  · have hall : (updatedWords f s.offset s.bytes).take k = updatedWords f s.offset s.bytes :=
      List.take_of_length_le (by rw [updatedWords_length]; omega)
    rw [hcut, hall, ← configUpdate_final, ← s.run_eq]

theorem replay_cut_region {s : ConfigSet} (ht : t <+: s.run.events f) : SameRecords f (replay f t) := by
  intro record c hc
  have hbelow := hc.below_config
  rcases replay_cut ht with ⟨-, hsame⟩ | ⟨k, -, -, hcut⟩
  · rw [hsame]
  · have hpage : c / 128 ≠ FLASH_CONFIG_INFO_START_ADDR / 256 := by
      have := config_page
      omega
    rw [hcut, replay_programOps_outside _ (Or.inl hbelow), erasePage_cells, if_neg hpage]

/-- The flag is there again only after the last half-word. -/
theorem flag_after_cut {s : ConfigSet} (hflag : f.halfWordAt FLASH_INIT_FLAG_ADDR = FLASH_FIRST_INIT_VALUE)
    (ht : t <+: s.run.events f) :
    (replay f t).halfWordAt FLASH_INIT_FLAG_ADDR = FLASH_FIRST_INIT_VALUE ↔
      operations t = 0 ∨ operations t = 129 := by
  rcases replay_cut ht with ⟨h0, hsame⟩ | ⟨k, hk, hops, hcut⟩
  · rw [hsame]
    exact iff_of_true hflag (Or.inl h0)
  · rcases Nat.eq_or_lt_of_le hk with rfl | hlt
    · have hdone : replay f t = replay f [s] := replay_cut_complete ht hops
      rw [hdone, initFlag_replay]
      exact iff_of_true hflag (Or.inr hops)
    · have hcell : (replay f t).halfWordAt FLASH_INIT_FLAG_ADDR = ERASED := by
        have haddr : FLASH_INIT_FLAG_ADDR / 2 = configCell + 127 := rfl
        rw [Flash.halfWordAt, haddr, hcut, replay_programOps_outside]
        · exact erased_configCell f (by decide)
        · rw [List.length_take, updatedWords_length]
          omega
      rw [hcell]
      exact iff_of_false (by decide) (by omega)

/-- The next boot keeps the records exactly when the cut fell before the erase or after
the last half-word, or there were no records to lose. -/
theorem records_kept_iff (hflag : f.halfWordAt FLASH_INIT_FLAG_ADDR = FLASH_FIRST_INIT_VALUE)
    (s : ConfigSet) (ht : t <+: s.run.events f) :
    SameRecords f (bspFlashInit.final (replay f t)) ↔
      operations t = 0 ∨ operations t = 129 ∨ ∀ record, Blank record f := by
  have hcut := flag_after_cut hflag ht
  have hregion := replay_cut_region ht
  by_cases hkept : operations t = 0 ∨ operations t = 129
  · refine iff_of_true (fun record c hc => ?_) (or_assoc.mp (Or.inl hkept))
    rw [bspFlashInit_region hc, if_pos (hcut.mpr hkept), hregion record c hc]
  · have hlost : ∀ record c, InRegion record c →
        (bspFlashInit.final (replay f t)).cells c = ERASED := by
      intro record c hc
      rw [bspFlashInit_region hc, if_neg (fun h => hkept (hcut.mp h))]
    rw [← or_assoc, or_iff_right hkept]
    constructor
    · intro h record c hlow hhigh
      rw [← h record c ⟨hlow, hhigh⟩, hlost record c ⟨hlow, hhigh⟩]
    · intro h record c hc
      rw [hlost record c hc, h record c hc.1 hc.2]

/-- An initialised part with one alarm header in it. -/
def alarmedFlash : Flash where
  cells c :=
    if c = configCell + 127 then FLASH_FIRST_INIT_VALUE
    else if c = hrStartAddr .kRecordAlarm / 2 then HR_RECORD_FRAME_HEADER
    else ERASED
  overprogram _ _ data := data

theorem alarmedFlash_flag :
    alarmedFlash.halfWordAt FLASH_INIT_FLAG_ADDR = FLASH_FIRST_INIT_VALUE := rfl

/-- A set-alarm command cut after the page erase. -/
def eraseCut : List FlashOp :=
  [.interruptDisable, .unlockFast, .erasePageFast FLASH_CONFIG_INFO_START_ADDR]

theorem eraseCut_prefix : eraseCut <+: (ConfigSet.alarmLel 3000).run.events alarmedFlash := by
  rw [set_events]
  exact ⟨_, rfl⟩

theorem records_kept_eraseCut_iff :
    SameRecords alarmedFlash (bspFlashInit.final (replay alarmedFlash eraseCut)) ↔
      operations eraseCut = 0 ∨ operations eraseCut = 129 ∨ ∀ record, Blank record alarmedFlash :=
  records_kept_iff alarmedFlash_flag (.alarmLel 3000) eraseCut_prefix

theorem not_records_kept_eraseCut :
    alarmedFlash.halfWordAt FLASH_INIT_FLAG_ADDR = FLASH_FIRST_INIT_VALUE ∧
      eraseCut <+: (ConfigSet.alarmLel 3000).run.events alarmedFlash ∧
      ¬ SameRecords alarmedFlash (bspFlashInit.final (replay alarmedFlash eraseCut)) := by
  refine ⟨alarmedFlash_flag, eraseCut_prefix, fun h => ?_⟩
  have hin : InRegion .kRecordAlarm (hrStartAddr .kRecordAlarm / 2) := ⟨le_rfl, by decide⟩
  have hcell := h _ _ hin
  have hflag : ¬ (operations eraseCut = 0 ∨ operations eraseCut = 129) := by decide
  rw [bspFlashInit_region hin,
    if_neg (fun he => hflag ((flag_after_cut alarmedFlash_flag eraseCut_prefix).mp he))] at hcell
  exact absurd hcell (by decide)

end Detector
