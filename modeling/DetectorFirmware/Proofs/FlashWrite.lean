import Mathlib.Tactic.SplitIfs
import DetectorFirmware.Model.Flash

/-! What `Flash_Write` and a page erase do to the memory: which half-words they
touch, that cells found erased hold the data afterwards, and that the read-back
then agrees. A run of the programming loop is a prefix of `programOps`. -/

namespace Detector

open EventLog

/-! Events, one by one. -/

@[simp] theorem step_erase (f : Flash) (addr : ℕ) :
    System.step f (FlashOp.erasePageFast addr) = f.erasePage addr := rfl

@[simp] theorem step_program (f : Flash) (addr : ℕ) (data : UInt16) :
    System.step f (FlashOp.programHalfWord addr data) = f.program addr data := rfl

theorem step_idle (f : Flash) (op : FlashOp) (h : op.changesMemory = false) :
    System.step f op = f := by
  cases op with
  | erasePageFast addr => cases h
  | programHalfWord addr data => cases h
  | _ => rfl

/-- The operations between which a power cut can fall. -/
def memoryOps (t : List FlashOp) : List FlashOp := t.filter FlashOp.changesMemory

@[simp] theorem memoryOps_append (t u : List FlashOp) :
    memoryOps (t ++ u) = memoryOps t ++ memoryOps u := List.filter_append t u

theorem replay_memoryOps (f : Flash) (t : List FlashOp) : replay f (memoryOps t) = replay f t :=
  replay_filter FlashOp.changesMemory step_idle f t

theorem erasePage_cells (f : Flash) (addr c : ℕ) :
    (f.erasePage addr).cells c = if c / 128 = addr / 256 then ERASED else f.cells c := rfl

theorem program_cells (f : Flash) (addr : ℕ) (data : UInt16) (c : ℕ) :
    (f.program addr data).cells c =
      if c = addr / 2 then
        if f.cells (addr / 2) = ERASED then data
        else f.overprogram addr (f.cells (addr / 2)) data
      else f.cells c :=
  Function.update_apply ..

theorem program_cells_self {f : Flash} {c : ℕ} (h : f.cells c = ERASED) (w : UInt16) :
    (f.program (2 * c) w).cells c = w := by
  rw [Flash.program, Nat.mul_div_cancel_left c (by decide : 0 < 2)]
  simp [h]

theorem program_cells_other (f : Flash) {c c' : ℕ} (h : c' ≠ c) (w : UInt16) :
    (f.program (2 * c) w).cells c' = f.cells c' := by
  rw [Flash.program, Nat.mul_div_cancel_left c (by decide : 0 < 2)]
  exact Function.update_of_ne h _ _

/-- Programming a half-word that reads erased. -/
def CleanProgram (f : Flash) : FlashOp → Prop
  | .programHalfWord addr _ => f.cells (addr / 2) = ERASED
  | _ => True

/-- The read-back of `Flash_Write` finds the data just programmed. -/
def ReadsBack (f : Flash) : FlashOp → Prop
  | .programHalfWord addr data => (f.program addr data).halfWordAt addr = data
  | _ => True

theorem readsBack_of_clean {f : Flash} {op : FlashOp} (h : CleanProgram f op) : ReadsBack f op := by
  cases op with
  | programHalfWord addr data =>
    have hclean : f.cells (addr / 2) = ERASED := h
    simp [ReadsBack, Flash.halfWordAt, Flash.program, hclean]
  | _ => trivial

/-! Bytes of consecutive half-words. -/

def wordBytes (w : UInt16) : List UInt8 := [lowByte w, highByte w]

theorem flashRead_words (f : Flash) (c n : ℕ) :
    flashRead f (2 * c) (2 * n) = (f.words c n).flatMap wordBytes := by
  have hlow : ∀ i, f.byte (2 * c + 2 * i) = lowByte (f.cells (c + i)) := by
    intro i
    rw [← Nat.mul_add, Flash.byte, if_pos (Nat.mul_mod_right 2 _), Nat.mul_div_cancel_left _ Nat.two_pos]
  have hhigh : ∀ i, f.byte (2 * c + (2 * i + 1)) = highByte (f.cells (c + i)) := by
    intro i
    rw [Flash.byte, if_neg (by omega), show (2 * c + (2 * i + 1)) / 2 = c + i by omega]
  induction n with
  | zero => rfl
  | succ n ih =>
    unfold flashRead Flash.words at ih ⊢
    rw [Nat.mul_succ, List.range_succ, List.range_succ, List.range_succ]
    simp only [List.map_append, List.map_cons, List.map_nil, List.flatMap_append,
      List.flatMap_cons, List.flatMap_nil, ih, hlow, hhigh, wordBytes, List.append_assoc,
      List.append_nil, List.singleton_append]

theorem flatMap_wordBytes_halfWords (bs : List UInt8) (h : bs.length % 2 = 0) :
    (halfWords bs).flatMap wordBytes = bs := by
  induction bs using halfWords.induct with
  | case1 b0 b1 bs ih =>
    have hbs : bs.length % 2 = 0 := by
      simp only [List.length_cons] at h
      omega
    rw [halfWords, List.flatMap_cons, ih hbs, wordBytes, lowByte_halfWord, highByte_halfWord]
    rfl
  | case2 bs hne =>
    rcases bs with _ | ⟨b0, _ | ⟨b1, bs⟩⟩
    · rfl
    · simp at h
    · exact absurd rfl (hne b0 b1 bs)

theorem halfWords_flatMap_wordBytes (ws : List UInt16) : halfWords (ws.flatMap wordBytes) = ws := by
  induction ws with
  | nil => rfl
  | cons w ws ih =>
    rw [List.flatMap_cons, wordBytes, List.cons_append, List.cons_append, List.nil_append,
      halfWords, ih, halfWord_bytes]

theorem words_erased {f : Flash} {c n : ℕ} (h : ∀ j < n, f.cells (c + j) = ERASED) :
    f.words c n = List.replicate n ERASED := by
  refine List.eq_replicate_iff.mpr ⟨by simp [Flash.words], fun w hw => ?_⟩
  obtain ⟨j, hj, rfl⟩ := List.mem_map.mp hw
  exact h j (List.mem_range.mp hj)

/-! The programming loop. -/

/-- Programming `ws` into the half-words from number `c` on. -/
def programOps : ℕ → List UInt16 → List FlashOp
  | _, [] => []
  | c, w :: ws => .programHalfWord (2 * c) w :: programOps (c + 1) ws

@[simp] theorem programOps_nil (c : ℕ) : programOps c [] = [] := rfl

@[simp] theorem programOps_cons (c : ℕ) (w : UInt16) (ws : List UInt16) :
    programOps c (w :: ws) = .programHalfWord (2 * c) w :: programOps (c + 1) ws := rfl

@[simp] theorem programOps_length (c : ℕ) (ws : List UInt16) :
    (programOps c ws).length = ws.length := by
  induction ws generalizing c with
  | nil => rfl
  | cons w ws ih => simp [ih]

theorem programOps_take (c k : ℕ) (ws : List UInt16) :
    (programOps c ws).take k = programOps c (ws.take k) := by
  induction ws generalizing c k with
  | nil => simp
  | cons w ws ih =>
    cases k with
    | zero => rfl
    | succ k => rw [programOps_cons, List.take_succ_cons, List.take_succ_cons, ih, programOps_cons]

@[simp] theorem memoryOps_programOps (c : ℕ) (ws : List UInt16) :
    memoryOps (programOps c ws) = programOps c ws := by
  induction ws generalizing c with
  | nil => rfl
  | cons w ws ih =>
    rw [memoryOps, programOps_cons, List.filter_cons_of_pos rfl]
    exact congrArg _ (ih (c + 1))

theorem replay_programOps_outside (f : Flash) {c c' : ℕ} {ws : List UInt16}
    (h : c' < c ∨ c + ws.length ≤ c') : (replay f (programOps c ws)).cells c' = f.cells c' := by
  induction ws generalizing f c with
  | nil => rfl
  | cons w ws ih =>
    rw [List.length_cons] at h
    rw [programOps_cons, replay_cons, step_program, ih _ (by omega),
      program_cells_other f (by omega)]

theorem replay_programOps_inside {f : Flash} {c : ℕ} {ws : List UInt16}
    (h : ∀ j < ws.length, f.cells (c + j) = ERASED) {j : ℕ} (hj : j < ws.length) :
    (replay f (programOps c ws)).cells (c + j) = ws[j] := by
  induction ws generalizing f c j with
  | nil => exact absurd hj (Nat.not_lt_zero j)
  | cons w ws ih =>
    rw [programOps_cons, replay_cons, step_program]
    have h0 : f.cells c = ERASED := h 0 (Nat.succ_pos _)
    cases j with
    | zero =>
      rw [replay_programOps_outside _ (by omega), Nat.add_zero, program_cells_self h0]
      rfl
    | succ j =>
      have hrest : ∀ i < ws.length, (f.program (2 * c) w).cells (c + 1 + i) = ERASED := by
        intro i hi
        rw [program_cells_other f (by omega), Nat.add_assoc, Nat.add_comm 1]
        exact h (i + 1) (Nat.succ_lt_succ hi)
      rw [show c + (j + 1) = c + 1 + j by omega, ih hrest (Nat.lt_of_succ_lt_succ hj)]
      rfl

/-- Over erased cells the whole of `ws` can be read back. -/
theorem words_replay_programOps {f : Flash} {c : ℕ} {ws : List UInt16}
    (h : ∀ j < ws.length, f.cells (c + j) = ERASED) :
    (replay f (programOps c ws)).words c ws.length = ws := by
  refine List.ext_getElem (by simp [Flash.words]) fun j hj hj' => ?_
  simp only [Flash.words, List.getElem_map, List.getElem_range]
  exact replay_programOps_inside h hj'

theorem steps_programOps {f : Flash} {c : ℕ} {ws : List UInt16}
    (h : ∀ j < ws.length, f.cells (c + j) = ERASED) : Steps CleanProgram f (programOps c ws) := by
  induction ws generalizing f c with
  | nil => trivial
  | cons w ws ih =>
    have h0 : f.cells c = ERASED := h 0 (Nat.succ_pos _)
    refine ⟨?_, ih fun i hi => ?_⟩
    · rw [CleanProgram, Nat.mul_div_cancel_left c (by decide : 0 < 2)]
      exact h0
    · rw [step_program, program_cells_other f (by omega), Nat.add_assoc, Nat.add_comm 1]
      exact h (i + 1) (Nat.succ_lt_succ hi)

/-- Over any cells the loop stops after the first read-back that differs. -/
theorem flashWriteLoop_events (f : Flash) (c : ℕ) (ws : List UInt16) :
    ∃ k, min 1 ws.length ≤ k ∧ k ≤ ws.length ∧
      (flashWriteLoop (2 * c) ws).events f = programOps c (ws.take k) := by
  induction ws generalizing f c with
  | nil => exact ⟨0, Nat.le_refl 0, Nat.le_refl 0, rfl⟩
  | cons w ws ih =>
    simp only [flashWriteLoop, flashProgramHalfWord, Prog.events_bind, Prog.events_emit,
      Prog.events_gets, Prog.result_gets, Prog.final_emit, Prog.final_gets, Prog.events_ite,
      Prog.events_pure, List.nil_append, step_program]
    split_ifs with hback
    · exact ⟨1, Nat.min_le_left 1 _, Nat.succ_le_succ (Nat.zero_le _), rfl⟩
    · obtain ⟨k, -, hk, hev⟩ := ih (f.program (2 * c) w) (c + 1)
      refine ⟨k + 1, by omega, Nat.succ_le_succ hk, ?_⟩
      rw [show 2 * c + 2 = 2 * (c + 1) by omega, hev]
      rfl

theorem flashWriteLoop_clean {f : Flash} {c : ℕ} {ws : List UInt16}
    (h : ∀ j < ws.length, f.cells (c + j) = ERASED) :
    (flashWriteLoop (2 * c) ws).events f = programOps c ws ∧
      (flashWriteLoop (2 * c) ws).result f = true := by
  induction ws generalizing f c with
  | nil => exact ⟨rfl, Prog.result_pure true f⟩
  | cons w ws ih =>
    have h0 : f.cells c = ERASED := h 0 (Nat.succ_pos _)
    have hback : (f.program (2 * c) w).halfWordAt (2 * c) = w := by
      rw [Flash.halfWordAt, Nat.mul_div_cancel_left c (by decide : 0 < 2), program_cells_self h0]
    have hrest : ∀ i < ws.length, (f.program (2 * c) w).cells (c + 1 + i) = ERASED := by
      intro i hi
      rw [program_cells_other f (by omega), Nat.add_assoc, Nat.add_comm 1]
      exact h (i + 1) (Nat.succ_lt_succ hi)
    obtain ⟨hev, hres⟩ := ih hrest
    rw [show 2 * (c + 1) = 2 * c + 2 by omega] at hev hres
    simp only [flashWriteLoop, flashProgramHalfWord, Prog.events_bind, Prog.events_emit,
      Prog.events_gets, Prog.result_gets, Prog.final_emit, Prog.final_gets, Prog.result_bind,
      step_program, hback, ne_eq, not_true_eq_false, if_false, hev, hres, programOps_cons,
      List.nil_append, and_true]
    rfl

/-! `Flash_Write` as a whole. -/

/-- The events of a write that programs `ops`. -/
def writeOps (ops : List FlashOp) : List FlashOp :=
  [.interruptDisable, .unlock] ++ ops ++ [.lock, .interruptEnable]

@[simp] theorem memoryOps_writeOps (ops : List FlashOp) :
    memoryOps (writeOps ops) = memoryOps ops := by
  simp [writeOps, memoryOps, FlashOp.changesMemory]

@[simp] theorem replay_writeOps (f : Flash) (ops : List FlashOp) :
    replay f (writeOps ops) = replay f ops := by
  rw [← replay_memoryOps, memoryOps_writeOps, replay_memoryOps]

theorem steps_writeOps {R : Flash → FlashOp → Prop}
    (hR : ∀ f op, op.changesMemory = false → R f op) {f : Flash} {ops : List FlashOp}
    (h : Steps R f ops) : Steps R f (writeOps ops) := by
  simp only [writeOps, steps_append, steps_cons, steps_nil, and_true]
  exact ⟨⟨⟨hR _ _ rfl, hR _ _ rfl⟩, h⟩, hR _ _ rfl, hR _ _ rfl⟩

theorem flashWrite_events (f : Flash) (c : ℕ) (buf : List UInt8) :
    (flashWrite (2 * c) buf).events f =
      writeOps ((flashWriteLoop (2 * c) (halfWords buf)).events f) := by
  have heven : ¬ 2 * c % 2 ≠ 0 := by omega
  simp only [flashWrite, if_neg heven, bspFlashUnLock, bspFlashLock, Prog.events_bind,
    Prog.events_emit, Prog.final_bind, Prog.final_emit, Prog.events_pure, List.append_nil,
    List.cons_append, List.nil_append, writeOps]
  rfl

/-- Over erased cells `Flash_Write` programs all of the buffer and returns its length. -/
theorem flashWrite_clean {f : Flash} {c : ℕ} {buf : List UInt8}
    (h : ∀ j < (halfWords buf).length, f.cells (c + j) = ERASED) :
    (flashWrite (2 * c) buf).events f = writeOps (programOps c (halfWords buf)) ∧
      (flashWrite (2 * c) buf).result f = buf.length := by
  obtain ⟨hev, hres⟩ := flashWriteLoop_clean h
  refine ⟨by rw [flashWrite_events, hev], ?_⟩
  have heven : ¬ 2 * c % 2 ≠ 0 := by omega
  have hlocked : bspFlashUnLock.final f = f := rfl
  simp only [flashWrite, if_neg heven, Prog.result_bind, hlocked, Prog.result_pure, hres, if_true]

/-! Page erasure. -/

/-- The events of an erase of the page at `addr`. -/
def eraseOps (addr : ℕ) : List FlashOp :=
  [.interruptDisable, .unlockFast, .erasePageFast addr, .lockFast, .interruptEnable]

@[simp] theorem memoryOps_eraseOps (addr : ℕ) :
    memoryOps (eraseOps addr) = [.erasePageFast addr] := rfl

@[simp] theorem replay_eraseOps (f : Flash) (addr : ℕ) :
    replay f (eraseOps addr) = f.erasePage addr := rfl

theorem steps_eraseOps {R : Flash → FlashOp → Prop}
    (hR : ∀ f op, op.changesMemory = false → R f op) {f : Flash} {addr : ℕ}
    (h : R f (.erasePageFast addr)) : Steps R f (eraseOps addr) :=
  ⟨hR _ _ rfl, hR _ _ rfl, h, hR _ _ rfl, hR _ _ rfl, trivial⟩

end Detector
