import DetectorFirmware.Proofs.Boot

/-! Power cuts in a first boot. The flag is written before the default time limits are
stored, and each of the two updates that store them takes it away and brings it back. A
boot that is cut where the flag is there already leaves a part that no later boot completes. -/

namespace Detector

open EventLog TeFlashProductTimeLimitId

variable {f : Flash} {t : List FlashOp} {limitTime : TsFlashProductTimeLimitFrame}

/-- Both time limits can be read. -/
def TimesReady (limitTime : TsFlashProductTimeLimitFrame) (f : Flash) : Prop :=
  (flashGetProductTimeLimit limitTime kFactoryTimeId f).1 = .READY ∧
    (flashGetProductTimeLimit limitTime kExpirationTimeId f).1 = .READY

/-- A boot that loses power after some of its HAL calls. -/
structure PowerCut where
  calls : ℕ

/-- The calls that a cut boot still makes. -/
def PowerCut.made (c : PowerCut) (f : Flash) : List FlashOp := (bspFlashInit.events f).take c.calls

instance : System Flash PowerCut where
  step f c := replay f (c.made f)

/-- The cut falls neither right after the flag write nor right after the first update. -/
def CutElsewhere (f : Flash) (c : PowerCut) : Prop :=
  operations (c.made f) ≠ 37 ∧ operations (c.made f) ≠ 166

/-! The calls of a first boot. -/

def factorySet : ConfigSet := .timeLimit 2023 3 22 13 58 20 kFactoryTimeId

def expirationSet : ConfigSet := .timeLimit 2028 3 22 13 58 20 kExpirationTimeId

/-- The flash after the first of the two updates. -/
def dated (f : Flash) : Flash := factorySet.run.final (formatted f)

theorem bspFlashInit_events (h : ¬ Initialised f) : bspFlashInit.events f =
    bspFlashEraseRecodrs.events f ++ (writeOps (programOps flagCell [FLASH_FIRST_INIT_VALUE]) ++
      (factorySet.run.events (formatted f) ++ expirationSet.run.events (dated f))) := by
  have hflag : f.halfWordAt FLASH_INIT_FLAG_ADDR ≠ FLASH_FIRST_INIT_VALUE := h
  have hfactory : flashSetProductTimeLimit 2023 3 22 13 58 20 kFactoryTimeId = factorySet.run := rfl
  have hexpiration : flashSetProductTimeLimit 2028 3 22 13 58 20 kExpirationTimeId =
      expirationSet.run := rfl
  rw [bspFlashInit, Prog.events_bind, Prog.events_gets, Prog.result_gets, Prog.final_gets,
    List.nil_append, if_pos hflag, Prog.events_bind, Prog.events_bind,
    flagWrite_events (eraseRecodrs_flag f), Prog.events_bind, ← formatted, hfactory, hexpiration,
    ← dated]

theorem bspFlashInit_final_dated (h : ¬ Initialised f) :
    bspFlashInit.final f = expirationSet.run.final (dated f) := by
  rw [bspFlashInit_first h, defaultLimits, replay_cons, replay_cons, replay_nil]
  rfl

theorem bspFlashInit_events_idle (h : Initialised f) : bspFlashInit.events f = [] := by
  have hflag : ¬ f.halfWordAt FLASH_INIT_FLAG_ADDR ≠ FLASH_FIRST_INIT_VALUE := not_not.mpr h
  simp only [bspFlashInit, Prog.events_bind, Prog.events_gets, Prog.result_gets, if_neg hflag,
    Prog.events_pure, List.append_nil]

theorem operations_append (t u : List FlashOp) :
    operations (t ++ u) = operations t + operations u := by
  rw [operations, memoryOps_append, List.length_append]
  rfl

theorem operations_prefix {u : List FlashOp} (h : t <+: u) : operations t ≤ operations u :=
  (h.filter FlashOp.changesMemory).length_le

theorem operations_erases (addrs : List ℕ) : operations (addrs.flatMap eraseOps) = addrs.length := by
  induction addrs with
  | nil => rfl
  | cons addr addrs ih =>
    rw [List.flatMap_cons, operations_append, ih, List.length_cons, Nat.add_comm]
    rfl

theorem operations_eraseRecodrs (f : Flash) : operations (bspFlashEraseRecodrs.events f) = 36 := by
  rw [bspFlashEraseRecodrs_events, operations_erases]
  rfl

theorem operations_set (f : Flash) (s : ConfigSet) : operations (s.run.events f) = 129 := by
  rw [set_events, operations, memoryOps_append, memoryOps_eraseOps, memoryOps_writeOps,
    memoryOps_programOps, List.length_append, programOps_length, updatedWords_length]
  rfl

/-! Which states a later boot completes. -/

/-- The next boot formats the part, or there is nothing left for it to do. -/
def Bootable (limitTime : TsFlashProductTimeLimitFrame) (f : Flash) : Prop :=
  Initialised f → TimesReady limitTime f

theorem byte_configPage (f : Flash) {i : ℕ} (hi : i < 256) :
    (configPage f).getD i 0 = f.byte (FLASH_CONFIG_INFO_START_ADDR + i) := by
  rw [configPage, flashRead, List.getD_eq_getElem?_getD, List.getElem?_map,
    List.getElem?_range (show i < FLASH_PAGE_SIZE from hi)]
  rfl

theorem time_header {id : TeFlashProductTimeLimitId} (hid : id ≠ other) (f : Flash) :
    ((configInfo f).time id).header =
      f.byte (FLASH_CONFIG_INFO_START_ADDR + timeLimitOffset id) := by
  have hfirst : ∀ off, (slice (configPage f) off 8).getD 0 0 = (configPage f).getD off 0 := by
    intro off
    rw [List.getD_eq_getElem?_getD, slice_getElem?, if_pos (by decide), Nat.add_zero,
      List.getD_eq_getElem?_getD]
  cases id with
  | kFactoryTimeId => exact (hfirst 0).trans (byte_configPage f (by decide))
  | kExpirationTimeId => exact (hfirst 8).trans (byte_configPage f (by decide))
  | other => exact absurd rfl hid

/-- A time limit whose header cell is erased is not ready. -/
theorem limit_erased {id : TeFlashProductTimeLimitId} (hid : id ≠ other)
    (h : f.cells (configCell + timeLimitOffset id / 2) = ERASED) :
    (flashGetProductTimeLimit limitTime id f).1 ≠ .READY := by
  have hoffset : timeLimitOffset id % 2 = 0 := by cases id <;> rfl
  have haddr := config_addr
  have heven : (FLASH_CONFIG_INFO_START_ADDR + timeLimitOffset id) % 2 = 0 := by omega
  have hcell : (FLASH_CONFIG_INFO_START_ADDR + timeLimitOffset id) / 2 =
      configCell + timeLimitOffset id / 2 := by omega
  have hheader : lowByte ERASED ≠ FLASH_PRODUCT_TIME_FRAME_HEADER := by decide
  rw [getProductTimeLimit_eq limitTime hid, time_header hid, Flash.byte, if_pos heven, hcell, h,
    if_neg hheader]
  intro hready
  cases hready

/-! One cut boot. -/

theorem not_ready_formatted (f : Flash) {id : TeFlashProductTimeLimitId} (hid : id ≠ other) :
    (flashGetProductTimeLimit limitTime id (formatted f)).1 ≠ .READY := by
  have hoffset : timeLimitOffset id / 2 < 127 := by cases id <;> decide
  exact limit_erased hid (formatted_config f hoffset)

theorem not_timesReady_formatted (f : Flash) : ¬ TimesReady limitTime (formatted f) :=
  fun h => not_ready_formatted f (by decide) h.1

/-- The first update does not touch the expiration time. -/
theorem not_timesReady_dated (f : Flash) : ¬ TimesReady limitTime (dated f) := by
  have hdated : dated f = replay (formatted f) [factorySet] := by
    rw [replay_cons, replay_nil]
    rfl
  have hget := getProductTimeLimit_replay limitTime (by decide : kExpirationTimeId ≠ other)
    (formatted f) [factorySet]
  have hlast : lastTime kExpirationTimeId [factorySet] = none := rfl
  rw [hlast, ← hdated] at hget
  intro h
  have hready := h.2
  rw [hget] at hready
  exact not_ready_formatted f (by decide) hready

theorem timesReady_first_boot (limitTime : TsFlashProductTimeLimitFrame) (h : ¬ Initialised f) :
    TimesReady limitTime (bspFlashInit.final f) := by
  rw [bspFlashInit_first h]
  refine ⟨?_, ?_⟩
  · rw [getProductTimeLimit_replay limitTime (by decide)]
    rfl
  · rw [getProductTimeLimit_replay limitTime (by decide)]
    rfl

theorem initialised_dated (f : Flash) : Initialised (dated f) :=
  initialised_set factorySet (formatted_flag f)

/-- Erasing does not set the flag. -/
theorem not_initialised_erase (h : ¬ Initialised f)
    (ht : ∀ op ∈ t, ∀ addr data, op ≠ .programHalfWord addr data) : ¬ Initialised (replay f t) := by
  induction t generalizing f with
  | nil => exact h
  | cons op t ih =>
    obtain ⟨hop, ht⟩ := List.forall_mem_cons.mp ht
    refine ih ?_ ht
    cases op with
    | programHalfWord addr data => exact absurd rfl (hop addr data)
    | erasePageFast addr =>
      rw [step_erase, initialised_iff, erasePage_cells]
      split_ifs
      · decide
      · exact h
    | _ => exact h

/-- A boot cut within the erasure leaves a part without the flag. -/
theorem bootable_erase_cut (h : ¬ Initialised f) (ht : t <+: bspFlashEraseRecodrs.events f) :
    ¬ Initialised (replay f t) ∧ operations t ≤ 36 := by
  refine ⟨not_initialised_erase h fun op hop addr data => ?_, ?_⟩
  · rintro rfl
    have hmem := ht.subset hop
    rw [bspFlashEraseRecodrs_events, List.mem_flatMap] at hmem
    obtain ⟨page, -, hmem⟩ := hmem
    simp [eraseOps] at hmem
  · rw [← operations_eraseRecodrs f]
    exact operations_prefix ht

/-- A cut of an update leaves the flag in place before its erase and after its last
half-word only. -/
theorem bootable_set_cut {s : ConfigSet} {g : Flash} (hg : Initialised g)
    (hbefore : ¬ TimesReady limitTime g) (ht : t <+: s.run.events g) :
    Bootable limitTime (replay g t) ↔
      operations t ≠ 0 ∧ (operations t = 129 → TimesReady limitTime (s.run.final g)) := by
  have hflag := flag_after_cut hg ht
  by_cases h0 : operations t = 0
  · have hsame : replay g t = g := by
      rcases replay_cut ht with ⟨-, hsame⟩ | ⟨k, -, hops, -⟩
      · exact hsame
      · omega
    rw [hsame]
    exact iff_of_false (fun h => hbefore (h hg)) fun h => h.1 h0
  · by_cases hall : operations t = 129
    · rw [replay_cut_complete ht hall]
      have hdone : Initialised (s.run.final g) := initialised_set s hg
      exact ⟨fun h => ⟨h0, fun _ => h hdone⟩, fun h _ => h.2 hall⟩
    · have hcut : ¬ Initialised (replay g t) := fun h => (hflag.mp h).elim h0 hall
      exact iff_of_true (fun h => absurd h hcut) ⟨h0, fun h => absurd h hall⟩

/-- The flag write is one operation. -/
theorem replay_flagWrite_cut (ht : t <+: writeOps (programOps flagCell [FLASH_FIRST_INIT_VALUE])) :
    (operations t = 0 ∧ replay f t = f) ∨
      (operations t = 1 ∧ replay f t = f.program FLASH_INIT_FLAG_ADDR FLASH_FIRST_INIT_VALUE) := by
  have hpre : memoryOps t <+: memoryOps (writeOps (programOps flagCell [FLASH_FIRST_INIT_VALUE])) :=
    ht.filter FlashOp.changesMemory
  rw [memoryOps_writeOps, memoryOps_programOps, programOps_cons, programOps_nil] at hpre
  rw [operations, ← replay_memoryOps]
  cases hm : memoryOps t with
  | nil => exact Or.inl ⟨rfl, rfl⟩
  | cons op u =>
    rw [hm, List.cons_prefix_cons] at hpre
    obtain ⟨rfl, hu⟩ := hpre
    obtain rfl := List.prefix_nil.mp hu
    exact Or.inr ⟨rfl, by rw [flag_addr, replay_cons, replay_nil, step_program]⟩

/-- A later boot completes what a cut leaves, unless the flag is there too early. -/
theorem bootable_cut (limitTime : TsFlashProductTimeLimitFrame) (h : ¬ Initialised f)
    (ht : t <+: bspFlashInit.events f) : Bootable limitTime (replay f t) ↔
      operations t ≠ 37 ∧ operations t ≠ 166 := by
  have hflagged : replay (bspFlashEraseRecodrs.final f)
      (writeOps (programOps flagCell [FLASH_FIRST_INIT_VALUE])) = formatted f := by
    rw [formatted_eq, replay_writeOps, flag_addr, programOps_cons, programOps_nil, replay_cons,
      replay_nil, step_program]
  have herase : replay f (bspFlashEraseRecodrs.events f) = bspFlashEraseRecodrs.final f := rfl
  have hwrite : operations (writeOps (programOps flagCell [FLASH_FIRST_INIT_VALUE])) = 1 := rfl
  rw [bspFlashInit_events h] at ht
  rcases prefix_append_cases ht with ht | ⟨u, hu, rfl⟩
  · obtain ⟨hcut, hops⟩ := bootable_erase_cut h ht
    exact iff_of_true (fun hflag => absurd hflag hcut) (by omega)
  · rw [operations_append, operations_eraseRecodrs, replay_append, herase]
    rcases prefix_append_cases hu with hu | ⟨v, hv, rfl⟩
    · rcases replay_flagWrite_cut hu with ⟨hops, hcut⟩ | ⟨hops, hcut⟩
      · have herased : ¬ Initialised (bspFlashEraseRecodrs.final f) := by
          rw [initialised_iff, eraseRecodrs_flag]
          decide
        rw [hcut]
        exact iff_of_true (fun hflag => absurd hflag herased) (by omega)
      · rw [hcut, ← formatted_eq]
        refine iff_of_false (fun hready => ?_) (by omega)
        exact not_timesReady_formatted f (hready (formatted_flag f))
    · rw [operations_append, hwrite, replay_append, hflagged]
      rcases prefix_append_cases hv with hv | ⟨w, hw, rfl⟩
      · rw [bootable_set_cut (formatted_flag f) (not_timesReady_formatted f) hv]
        have hnot : ¬ TimesReady limitTime (factorySet.run.final (formatted f)) :=
          not_timesReady_dated f
        have hle := operations_prefix hv
        rw [operations_set] at hle
        simp only [hnot, imp_false]
        omega
      · have hdated : replay (formatted f) (factorySet.run.events (formatted f)) = dated f := rfl
        rw [operations_append, operations_set, replay_append, hdated,
          bootable_set_cut (initialised_dated f) (not_timesReady_dated f) hw,
          ← bspFlashInit_final_dated h]
        have hready := timesReady_first_boot limitTime h
        simp only [hready, implies_true, and_true]
        omega

/-! Runs of cut boots. -/

theorem bootable_iff (limitTime : TsFlashProductTimeLimitFrame) (f : Flash) :
    Bootable limitTime f ↔ TimesReady limitTime (bspFlashInit.final f) := by
  by_cases h : Initialised f
  · rw [bspFlashInit_idle h]
    exact ⟨fun hboot => hboot h, fun hready _ => hready⟩
  · exact iff_of_true (fun hflag => absurd hflag h) (timesReady_first_boot limitTime h)

theorem step_cut_idle (h : Initialised f) (c : PowerCut) : c.made f = [] := by
  rw [PowerCut.made, bspFlashInit_events_idle h, List.take_nil]

theorem bootable_step (f : Flash) (c : PowerCut) (h : Bootable limitTime f) :
    Bootable limitTime (System.step f c) ↔ CutElsewhere f c := by
  change Bootable limitTime (replay f (c.made f)) ↔ _
  by_cases hflag : Initialised f
  · rw [CutElsewhere, step_cut_idle hflag, replay_nil]
    exact iff_of_true h (by decide)
  · exact bootable_cut limitTime hflag (List.take_prefix _ _)

theorem not_bootable_step (f : Flash) (c : PowerCut) (h : ¬ Bootable limitTime f) :
    ¬ Bootable limitTime (System.step f c) := by
  have hflag : Initialised f := by
    by_contra hno
    exact h fun hflag => absurd hflag hno
  change ¬ Bootable limitTime (replay f (c.made f))
  rwa [step_cut_idle hflag, replay_nil]

/-- After any run of cut boots the next complete one leaves both time limits ready exactly
if no boot was cut right after the flag write or right after the first of the updates. -/
theorem restartable_iff (limitTime : TsFlashProductTimeLimitFrame)
    (h : f.halfWordAt FLASH_INIT_FLAG_ADDR ≠ FLASH_FIRST_INIT_VALUE) (cuts : List PowerCut) :
    TimesReady limitTime (bspFlashInit.final (replay f cuts)) ↔ Steps CutElsewhere f cuts := by
  rw [← bootable_iff]
  have hboot : Bootable limitTime f := fun hflag => absurd hflag h
  exact replay_iff_steps bootable_step not_bootable_step hboot cuts

/-- The cut after the flag write: 36 erases of five calls each, two calls to unlock the
flash and the programming of the flag. -/
def flagCut : PowerCut := ⟨183⟩

theorem restartable_flagCut_iff :
    TimesReady ⟨0, 0, 0, 0, 0, 0, 0⟩ (bspFlashInit.final (replay blankFlash [⟨5⟩, flagCut])) ↔
      Steps CutElsewhere blankFlash [⟨5⟩, flagCut] :=
  restartable_iff _ (by decide) _

theorem flagCut_made (h : ¬ Initialised f) : operations (flagCut.made f) = 37 := by
  have hlen : (bspFlashEraseRecodrs.events f).length = 180 := by
    rw [bspFlashEraseRecodrs_events]
    rfl
  have htake : flagCut.made f = bspFlashEraseRecodrs.events f ++
      [.interruptDisable, .unlock, .programHalfWord FLASH_INIT_FLAG_ADDR FLASH_FIRST_INIT_VALUE] := by
    rw [PowerCut.made, bspFlashInit_events h, List.take_append, hlen,
      List.take_of_length_le (by rw [hlen]; decide)]
    rfl
  rw [htake, operations_append, operations_eraseRecodrs]
  rfl

theorem not_restartable_flagCut : ¬ TimesReady ⟨0, 0, 0, 0, 0, 0, 0⟩
    (bspFlashInit.final (replay blankFlash [flagCut])) := by
  have hblank : ¬ Initialised blankFlash := by decide
  have hcut := bootable_cut ⟨0, 0, 0, 0, 0, 0, 0⟩ hblank (List.take_prefix flagCut.calls _)
  rw [← bootable_iff, replay_cons, replay_nil]
  intro h
  exact (hcut.mp h).1 (flagCut_made hblank)

end Detector
