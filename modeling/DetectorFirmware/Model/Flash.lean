import Mathlib.Logic.Function.Basic
import DetectorFirmware.Library.EventLog

/-! The on-chip flash, the two HAL operations that change it, and the byte-level
`Flash_Read` and `Flash_Write` of `bsp_flash.c`. Half-word `c` of the memory holds
the bytes `2 * c` and `2 * c + 1`, the low one first. -/

namespace Detector

open EventLog

/-- What an erased half-word reads. -/
def ERASED : UInt16 := 0xE339

/-- The memory, together with what the part makes of a half-word that is
programmed without having been erased. -/
structure Flash where
  cells : ℕ → UInt16
  overprogram : ℕ → UInt16 → UInt16 → UInt16

/-- A part fresh from the factory, which stores what it is given whatever the half-word held. -/
def blankFlash : Flash := ⟨fun _ => ERASED, fun _ _ data => data⟩

/-- The HAL calls of the flash driver, in the order it makes them. The lock bits
and the interrupt state are outside `Flash`, so their events leave it alone. -/
inductive FlashOp where
  | interruptDisable
  | interruptEnable
  | unlock
  | lock
  | unlockFast
  | lockFast
  | erasePageFast (addr : ℕ)
  | programHalfWord (addr : ℕ) (data : UInt16)
  deriving DecidableEq, Repr

def Flash.erasePage (f : Flash) (addr : ℕ) : Flash :=
  { f with cells := fun c => if c / 128 = addr / 256 then ERASED else f.cells c }

def Flash.program (f : Flash) (addr : ℕ) (data : UInt16) : Flash :=
  { f with
    cells := Function.update f.cells (addr / 2)
      (if f.cells (addr / 2) = ERASED then data
       else f.overprogram addr (f.cells (addr / 2)) data) }

instance : System Flash FlashOp where
  step f
    | .erasePageFast addr => f.erasePage addr
    | .programHalfWord addr data => f.program addr data
    | _ => f

/-- The operations that change the memory: those a power cut can fall between. -/
def FlashOp.changesMemory : FlashOp → Bool
  | .erasePageFast _ => true
  | .programHalfWord _ _ => true
  | _ => false

abbrev FlashM := Prog Flash FlashOp

/-! Bytes and half-words. -/

def lowByte (w : UInt16) : UInt8 := UInt8.ofNat w.toNat

def highByte (w : UInt16) : UInt8 := UInt8.ofNat (w.toNat / 256)

/-- The half-word that `rt_memcpy` makes of two consecutive bytes. -/
def halfWord (b0 b1 : UInt8) : UInt16 := UInt16.ofNat (b0.toNat + 256 * b1.toNat)

def halfWords : List UInt8 → List UInt16
  | b0 :: b1 :: bs => halfWord b0 b1 :: halfWords bs
  | _ => []

@[simp] theorem lowByte_halfWord (b0 b1 : UInt8) : lowByte (halfWord b0 b1) = b0 := by
  have h0 := b0.toNat_lt
  have h1 := b1.toNat_lt
  apply UInt8.toNat_inj.mp
  simp only [lowByte, halfWord, UInt8.toNat_ofNat', UInt16.toNat_ofNat']
  omega

@[simp] theorem highByte_halfWord (b0 b1 : UInt8) : highByte (halfWord b0 b1) = b1 := by
  have h0 := b0.toNat_lt
  have h1 := b1.toNat_lt
  apply UInt8.toNat_inj.mp
  simp only [highByte, halfWord, UInt8.toNat_ofNat', UInt16.toNat_ofNat']
  omega

@[simp] theorem halfWord_bytes (w : UInt16) : halfWord (lowByte w) (highByte w) = w := by
  have h := w.toNat_lt
  apply UInt16.toNat_inj.mp
  simp only [lowByte, highByte, halfWord, UInt8.toNat_ofNat', UInt16.toNat_ofNat']
  omega

def Flash.byte (f : Flash) (addr : ℕ) : UInt8 :=
  if addr % 2 = 0 then lowByte (f.cells (addr / 2)) else highByte (f.cells (addr / 2))

/-- `*(rt_uint16_t *)addr`; every address the driver dereferences so is even. -/
def Flash.halfWordAt (f : Flash) (addr : ℕ) : UInt16 := f.cells (addr / 2)

/-- The `n` half-words from number `c` on. -/
def Flash.words (f : Flash) (c n : ℕ) : List UInt16 := (List.range n).map fun j => f.cells (c + j)

/-! The driver. -/

def bspFlashUnLock : FlashM Unit := do
  Prog.emit .interruptDisable
  Prog.emit .unlock

def bspFlashLock : FlashM Unit := do
  Prog.emit .lock
  Prog.emit .interruptEnable

def bspFlashFastUnLock : FlashM Unit := do
  Prog.emit .interruptDisable
  Prog.emit .unlockFast

def bspFlashFastLock : FlashM Unit := do
  Prog.emit .lockFast
  Prog.emit .interruptEnable

/-- The page address is masked with `0xFFFFFF00` by the HAL. -/
def flashErasePageFast (pageAddress : ℕ) : FlashM Unit :=
  Prog.emit (.erasePageFast (pageAddress / 256 * 256))

def flashProgramHalfWord (addr : ℕ) (data : UInt16) : FlashM Unit :=
  Prog.emit (.programHalfWord addr data)

def flashRead (f : Flash) (addr len : ℕ) : List UInt8 :=
  (List.range len).map fun i => f.byte (addr + i)

/-- The programming loop of `Flash_Write`; `false` when a read-back differs. -/
def flashWriteLoop : ℕ → List UInt16 → FlashM Bool
  | _, [] => pure true
  | addr, w :: ws => do
    flashProgramHalfWord addr w
    let back ← Prog.gets (Flash.halfWordAt · addr)
    if back ≠ w then pure false else flashWriteLoop (addr + 2) ws

/-- `Flash_Write` of the whole of `buf`, whose length is even for every caller. -/
def flashWrite (addr : ℕ) (buf : List UInt8) : FlashM ℕ := do
  if addr % 2 ≠ 0 then pure 0 else
    bspFlashUnLock
    let ok ← flashWriteLoop addr (halfWords buf)
    bspFlashLock
    pure (if ok then buf.length else 0)

end Detector
