import DetectorFirmware.Library.Footprint
import DetectorFirmware.Proofs.ConfigPage
import DetectorFirmware.Proofs.RecordLog

/-! The layout of the flash: seven record regions and the configuration page. Whatever the
flash holds, an operation on one of these parts reads and changes that part only, so that
operations on different parts may be interleaved. -/

namespace Detector

open EventLog Division

/-! The parts. -/

inductive FlashPart where
  | records (record : TeRecord)
  | config
  deriving DecidableEq

namespace FlashPart

def all : List FlashPart := TeRecord.all.map records ++ [config]

def start : FlashPart → ℕ
  | records record => hrStartAddr record
  | config => FLASH_CONFIG_INFO_START_ADDR

def pages : FlashPart → ℕ
  | records record => hrRecordPages record
  | config => 1

/-- The first address behind the part. -/
def stop (part : FlashPart) : ℕ := part.start + 256 * part.pages

def Contains (part : FlashPart) (addr : ℕ) : Prop := part.start ≤ addr ∧ addr < part.stop

theorem mem_all (part : FlashPart) : part ∈ all := by
  cases part with
  | records record => cases record <;> decide
  | config => decide

theorem start_eq (part : FlashPart) : part.start = 256 * (part.start / 256) := by
  cases part with
  | records record => exact hrStartAddr_eq record
  | config => rfl

theorem apart : ∀ p ∈ all, ∀ q ∈ all, p ≠ q → p.stop ≤ q.start ∨ q.stop ≤ p.start := by
  decide

theorem disjoint {p q : FlashPart} (h : p ≠ q) {addr : ℕ} (hp : p.Contains addr) :
    ¬ q.Contains addr := by
  intro hq
  obtain ⟨hp1, hp2⟩ := hp
  obtain ⟨hq1, hq2⟩ := hq
  rcases apart p p.mem_all q q.mem_all h with h | h <;> omega

/-- A part that has an address has all of its page. -/
theorem contains_page {part : FlashPart} {addr : ℕ} (h : part.Contains addr) {a : ℕ}
    (ha : a / 256 = addr / 256) : part.Contains a := by
  have := part.start_eq
  unfold Contains stop at *
  omega

theorem contains_halfWord {part : FlashPart} {addr : ℕ} (h : part.Contains addr) {a : ℕ}
    (ha : a / 2 = addr / 2) : part.Contains a :=
  contains_page h (by omega)

end FlashPart

/-! What belongs to a part. -/

/-- The operation erases or programs the byte at `a`. -/
def FlashOp.Touches (a : ℕ) : FlashOp → Prop
  | .erasePageFast addr => a / 256 = addr / 256
  | .programHalfWord addr _ => a / 2 = addr / 2
  | _ => False

/-- The operation stays within the part. -/
def FlashPart.Owns (part : FlashPart) (op : FlashOp) : Prop := ∀ a, op.Touches a → part.Contains a

/-- The part holds the same in both memories. -/
def FlashPart.Same (part : FlashPart) (f g : Flash) : Prop :=
  f.overprogram = g.overprogram ∧ ∀ c, part.Contains (2 * c) → f.cells c = g.cells c

variable {part : FlashPart} {record : TeRecord} {f g : Flash} {addr : ℕ} {op : FlashOp}

theorem FlashPart.Same.halfWordAt (h : part.Same f g) (haddr : part.Contains addr) :
    f.halfWordAt addr = g.halfWordAt addr :=
  h.2 _ (FlashPart.contains_halfWord haddr (by omega))

theorem FlashPart.Same.byte (h : part.Same f g) (haddr : part.Contains addr) :
    f.byte addr = g.byte addr := by
  have hcell : f.cells (addr / 2) = g.cells (addr / 2) := h.halfWordAt haddr
  rw [Flash.byte, hcell, Flash.byte]

theorem owns_erase (h : part.Contains addr) : part.Owns (.erasePageFast addr) :=
  fun _ ha => FlashPart.contains_page h ha

theorem owns_program (h : part.Contains addr) (data : UInt16) :
    part.Owns (.programHalfWord addr data) :=
  fun _ ha => FlashPart.contains_halfWord h ha

theorem owns_idle (h : ∀ a, ¬ op.Touches a) : part.Owns op := fun a ha => absurd ha (h a)

/-- Erasing and programming change what they touch, as a function of what was there. -/
theorem step_untouched (f : Flash) {c : ℕ} (h : ¬ op.Touches (2 * c)) :
    (System.step f op).cells c = f.cells c := by
  cases op with
  | erasePageFast addr =>
    have hpage : ¬ c / 128 = addr / 256 := fun hc => h (show 2 * c / 256 = addr / 256 by omega)
    rw [step_erase, erasePage_cells, if_neg hpage]
  | programHalfWord addr data =>
    have hcell : c ≠ addr / 2 := fun hc => h (show 2 * c / 2 = addr / 2 by omega)
    rw [step_program, program_cells, if_neg hcell]
  | _ => rfl

theorem step_overprogram (f : Flash) (op : FlashOp) :
    (System.step f op).overprogram = f.overprogram := by
  cases op <;> rfl

theorem same_step (h : part.Same f g) (hop : part.Owns op) :
    part.Same (System.step f op) (System.step g op) := by
  refine ⟨by rw [step_overprogram, step_overprogram, h.1], fun c hc => ?_⟩
  cases op with
  | erasePageFast addr =>
    rw [step_erase, step_erase, erasePage_cells, erasePage_cells, h.2 c hc]
  | programHalfWord addr data =>
    have haddr : f.cells (addr / 2) = g.cells (addr / 2) := h.halfWordAt (hop addr rfl)
    rw [step_program, step_program, program_cells, program_cells, haddr, h.1, h.2 c hc]
  | _ => exact h.2 c hc

/-- The flash falls into its parts. -/
def flashDivision : Division Flash FlashOp FlashPart where
  Agree := FlashPart.Same
  Own := FlashPart.Owns
  equivalence _ :=
    { refl := fun _ => ⟨rfl, fun _ _ => rfl⟩
      symm := fun h => ⟨h.1.symm, fun c hc => (h.2 c hc).symm⟩
      trans := fun h h' => ⟨h.1.trans h'.1, fun c hc => (h.2 c hc).trans (h'.2 c hc)⟩ }
  congr := same_step
  frame hop hne f :=
    ⟨step_overprogram f _, fun _ hc => step_untouched f fun ht =>
      FlashPart.disjoint hne hc (hop _ ht)⟩

abbrev LocalTo (part : FlashPart) {α : Type} (x : FlashM α) : Prop := flashDivision.Local part x

/-! The operations of the driver. -/

theorem local_lock : LocalTo part bspFlashLock :=
  local_bind (local_emit (owns_idle fun _ h => h)) fun _ => local_emit (owns_idle fun _ h => h)

theorem local_unlock : LocalTo part bspFlashUnLock :=
  local_bind (local_emit (owns_idle fun _ h => h)) fun _ => local_emit (owns_idle fun _ h => h)

theorem local_fastLock : LocalTo part bspFlashFastLock :=
  local_bind (local_emit (owns_idle fun _ h => h)) fun _ => local_emit (owns_idle fun _ h => h)

theorem local_fastUnlock : LocalTo part bspFlashFastUnLock :=
  local_bind (local_emit (owns_idle fun _ h => h)) fun _ => local_emit (owns_idle fun _ h => h)

theorem local_erasePageFast (h : part.Contains addr) : LocalTo part (flashErasePageFast addr) :=
  local_emit (owns_erase (FlashPart.contains_page h (by omega)))

theorem local_flashRead {len : ℕ} (h : ∀ i < len, part.Contains (addr + i)) :
    LocalTo part (Prog.gets (flashRead · addr len) : FlashM _) :=
  local_gets fun hsame => List.map_congr_left fun i hi => hsame.byte (h i (List.mem_range.mp hi))

theorem local_flashWriteLoop {ws : List UInt16} (hlow : part.start ≤ addr)
    (hhigh : addr + 2 * ws.length ≤ part.stop) : LocalTo part (flashWriteLoop addr ws) := by
  induction ws generalizing addr with
  | nil => exact local_pure true
  | cons w ws ih =>
    rw [List.length_cons] at hhigh
    have haddr : part.Contains addr := ⟨hlow, by omega⟩
    refine local_bind (local_emit (owns_program haddr w)) fun _ => ?_
    refine local_bind (local_gets fun hsame => hsame.halfWordAt haddr) fun _ => ?_
    exact local_ite (fun _ => local_pure false) fun _ => ih (by omega) (by omega)

theorem local_flashWrite {buf : List UInt8} (hlow : part.start ≤ addr)
    (hhigh : addr + buf.length ≤ part.stop) : LocalTo part (flashWrite addr buf) := by
  have hlen := halfWords_length buf
  have hloop : LocalTo part (flashWriteLoop addr (halfWords buf)) :=
    local_flashWriteLoop hlow (by omega)
  refine local_ite (fun _ => local_pure 0) fun _ => ?_
  exact local_bind local_unlock fun _ => local_bind hloop fun _ => local_bind local_lock fun _ =>
    local_pure _

/-! The operations of the record logs, with any index. -/

theorem contains_recordPage {page i : ℕ} (hpage : page < hrRecordPages record) (hi : i < 256) :
    (FlashPart.records record).Contains (hrStartAddr record + FLASH_PAGE_SIZE * page + i) := by
  have hstop : (FlashPart.records record).stop = hrStartAddr record + 256 * hrRecordPages record := rfl
  have hstart : (FlashPart.records record).start = hrStartAddr record := rfl
  unfold FlashPart.Contains FLASH_PAGE_SIZE
  omega

theorem inPageOffset_le (index : ℕ) : inPageOffset index ≤ 240 := by
  have hslot := slotOffset_lt index
  rw [inPageOffset_slot]
  omega

/-- The clamp of `Flash_ErasePage_Records` keeps any page offset in the region. -/
theorem local_flashErasePageRecords (record : TeRecord) (pageOffset : ℕ) :
    LocalTo (.records record) (flashErasePageRecords record pageOffset) := by
  have hpages := hrRecordPages_pos record
  have hpage : (if pageOffset ≤ hrRecordPages record - 1 then pageOffset
      else hrRecordPages record - 1) < hrRecordPages record := by
    split_ifs <;> omega
  refine local_bind local_fastUnlock fun _ => ?_
  refine local_bind (local_erasePageFast (contains_recordPage hpage (by decide : 0 < 256))) fun _ => ?_
  refine local_bind local_fastLock fun _ => local_gets fun hsame => ?_
  refine List.foldl_ext _ _ _ fun flag i hi => ?_
  have hword := hsame.halfWordAt (contains_recordPage hpage (i := 2 * i) (by
    have : i < 128 := List.mem_range.mp hi
    omega))
  rw [hword]

theorem local_flashEraseRecords (record : TeRecord) :
    LocalTo (.records record) (flashEraseRecords record) :=
  local_forM fun page _ => local_bind (local_flashErasePageRecords record page) fun _ => local_pure ()

theorem maxIndex_congr (h : (FlashPart.records record).Same f g) :
    flashGetMaxIndexRecords record f = flashGetMaxIndexRecords record g := by
  have hslot : ∀ page < hrRecordPages record, ∀ slot < 25, ∀ j < 5,
      f.cells (slotCell record page slot + j) = g.cells (slotCell record page slot + j) := by
    intro page hpage slot hslot j hj
    have haddr := slotAddr_eq record page slot
    refine h.2 _ ?_
    rw [Nat.mul_add, ← haddr, Nat.add_assoc]
    exact contains_recordPage hpage (by omega)
  refine eq_of_forall_ge_iff fun N => ?_
  rw [maxIndex_le_iff, maxIndex_le_iff]
  refine forall₄_congr fun page hpage slot hs => ?_
  rw [← Nat.add_zero (slotCell record page slot), hslot page hpage slot hs 0 (by decide),
    Nat.add_zero, hslot page hpage slot hs 1 (by decide)]

theorem local_eraseAhead (record : TeRecord) (indexMax : ℕ) :
    LocalTo (.records record) (eraseAhead record indexMax) := by
  have hpage : ∀ page, LocalTo (.records record) (do
      let _ ← flashErasePageRecords record page
      pure ()) :=
    fun page => local_bind (local_flashErasePageRecords record page) fun _ => local_pure ()
  exact local_ite (fun _ => hpage _) fun _ => local_ite (fun _ => hpage _) fun _ => local_pure ()

theorem local_flashWriteRecordIndex (hrRecord : TsFlashHrRecordFrame) (record : TeRecord)
    (index : ℕ) : LocalTo (.records record) (flashWriteRecordIndex hrRecord record index) := by
  have hin := inPageOffset_le index
  have hpage := pageOffset_lt record index
  have hlow := contains_recordPage hpage (i := inPageOffset index) (by omega)
  have hhigh := contains_recordPage hpage (i := inPageOffset index + 9) (by omega)
  refine local_bind (local_flashWrite hlow.1 ?_) fun _ => local_pure ()
  have hlen : hrRecord.buf.length = 10 := rfl
  rw [hlen]
  exact hhigh.2

theorem local_flashWriteRecord (record : TeRecord) (rtc : Rtc) :
    LocalTo (.records record) (flashWriteRecord record rtc) := by
  refine local_bind (local_gets maxIndex_congr) fun _ => ?_
  refine local_bind (local_eraseAhead record _) fun _ => ?_
  exact local_bind (local_flashWriteRecordIndex _ record _) fun _ => local_pure _

/-! The operations of the configuration page. -/

theorem contains_configPage {i : ℕ} (hi : i < 256) :
    FlashPart.config.Contains (FLASH_CONFIG_INFO_START_ADDR + i) :=
  ⟨Nat.le_add_right _ i, Nat.add_lt_add_left hi _⟩

theorem local_erasePageConfigInfo : LocalTo .config flashErasePageConfigInfo :=
  local_bind local_fastUnlock fun _ =>
    local_bind (local_erasePageFast (contains_configPage (by decide : 0 < 256))) fun _ =>
      local_fastLock

theorem local_erasePageReadConfigInfo : LocalTo .config flashErasePageReadConfigInfo :=
  local_bind (local_flashRead fun _ => contains_configPage) fun _ =>
    local_bind local_erasePageConfigInfo fun _ => local_pure _

theorem local_writeConfigInfo {pageBuf : List UInt8} (h : pageBuf.length = 256) :
    LocalTo .config (flashWriteConfigInfo pageBuf) :=
  local_bind (local_flashWrite le_rfl (by rw [h]; exact le_rfl)) fun _ => local_pure ()

theorem local_configSet (s : ConfigSet) : LocalTo .config s.run := by
  rw [s.run_eq]
  refine local_bind local_erasePageReadConfigInfo fun f => local_writeConfigInfo ?_
  rw [storeBytes_length, flashErasePageReadConfigInfo, Prog.result_bind, Prog.result_gets,
    Prog.result_bind, Prog.result_pure]
  exact configPage_length f

/-! Interleavings. -/

/-- A whole operation on one part. -/
inductive PartOp where
  | write (record : TeRecord) (rtc : Rtc)
  | erase (record : TeRecord)
  | set (s : ConfigSet)
  | eraseConfig
  | writeConfig (pageBuf : Vector UInt8 256)

def PartOp.owner : PartOp → FlashPart
  | write record _ => .records record
  | erase record => .records record
  | _ => .config

def PartOp.run : PartOp → FlashM Unit
  | write record rtc => do
    let _ ← flashWriteRecord record rtc
    pure ()
  | erase record => flashEraseRecords record
  | set s => s.run
  | eraseConfig => flashErasePageConfigInfo
  | writeConfig pageBuf => flashWriteConfigInfo pageBuf.toList

instance : System Flash PartOp where
  step f op := op.run.final f

theorem PartOp.local_run (op : PartOp) : LocalTo op.owner op.run := by
  cases op with
  | write record rtc => exact local_bind (local_flashWriteRecord record rtc) fun _ => local_pure ()
  | erase record => exact local_flashEraseRecords record
  | set s => exact local_configSet s
  | eraseConfig => exact local_erasePageConfigInfo
  | writeConfig pageBuf => exact local_writeConfigInfo pageBuf.length_toList

/-- Every address that an operation on a record log erases or programs is in its region,
whatever the flash holds; slots do not cross pages; the parts share no address and the
last of them ends with the flash; and each part ends as if only its own operations had
been run. -/
theorem parts_independent :
    (∀ record rtc f op, op ∈ (flashWriteRecord record rtc).events f ∨
        op ∈ (flashEraseRecords record).events f → ∀ addr, op.Touches addr →
      hrStartAddr record ≤ addr ∧ addr < hrStartAddr record + 256 * hrRecordPages record) ∧
    (∀ record index,
      let addr := hrStartAddr record + FLASH_PAGE_SIZE * pageOffset record index + inPageOffset index
      (addr + 9) / 256 = addr / 256) ∧
    (∀ p q : FlashPart, p ≠ q → ∀ addr, p.Contains addr → ¬ q.Contains addr) ∧
    (∀ p : FlashPart, FLASH_START_ADDR ≤ p.start ∧ p.stop ≤ FLASH_START_ADDR + 256 * 1024) ∧
    FlashPart.config.stop = FLASH_START_ADDR + 256 * 1024 ∧
    (∀ (f : Flash) (ops : List PartOp) (p : FlashPart),
      p.Same (replay f ops) (replay f (ops.filter fun op => op.owner = p))) := by
  refine ⟨?_, ?_, fun p q h _ => FlashPart.disjoint h, ?_, rfl, ?_⟩
  · rintro record rtc f op (hop | hop)
    · exact (local_flashWriteRecord record rtc).owned f op hop
    · exact (local_flashEraseRecords record).owned f op hop
  · intro record index
    have hin := inPageOffset_le index
    have hstart := hrStartAddr_eq record
    unfold FLASH_PAGE_SIZE
    dsimp only
    omega
  · have hbounds : ∀ p ∈ FlashPart.all,
        FLASH_START_ADDR ≤ p.start ∧ p.stop ≤ FLASH_START_ADDR + 256 * 1024 := by decide
    exact fun p => hbounds p p.mem_all
  · intro f ops p
    exact replay_projection (D := flashDivision) (fun _ _ => rfl) PartOp.local_run p f ops

end Detector
