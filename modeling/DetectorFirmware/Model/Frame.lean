import Mathlib.Algebra.Order.Ring.Int
import DetectorFirmware.Library.ReadLog

/-! The frames of the history-reading protocol in `bsp_hr.c`: a header byte, two
control bytes, the length of the data field, the data field, a checksum over all
of these, and a tail byte. -/

namespace Detector

open EventLog

def FRAME_HEADER : UInt8 := 0xAA
def FRAME_TAIL : UInt8 := 0x55

/-- A received frame, in a heap block that has room for exactly `len` data bytes. -/
structure TsFrameData where
  c1 : UInt8
  c2 : UInt8
  len : UInt8
  data : List UInt8
  data_length : data.length = len.toNat
  deriving DecidableEq

def hrCheckSumLoop : ℕ → ℕ → UInt8 → ReadM UInt8
  | _, 0, sum => pure sum
  | i, n + 1, sum => do
    let b ← ReadM.load i
    hrCheckSumLoop (i + 1) n (sum + b)

/-- The sum of the `len` bytes at `data`, in eight bits. -/
def hrCheckSum (data len : ℕ) : ReadM UInt8 := hrCheckSumLoop data len 0

/-- The rest of the scan, from index `i` with `n` indices to go. The heap is asked
for a block with as many data bytes as the frame has. -/
def hrGetFrameDataLoop (rtMalloc : UInt8 → Bool) : ℕ → ℕ → ReadM (Option TsFrameData)
  | _, 0 => pure none
  | i, n + 1 => do
    let b ← ReadM.load i
    if b = FRAME_HEADER then
      let dataFieldLen ← ReadM.load (i + 3)
      let tail ← ReadM.load (i + 3 + dataFieldLen.toNat + 2)
      if tail = FRAME_TAIL then
        let checkSum ← hrCheckSum i (4 + dataFieldLen.toNat)
        let sent ← ReadM.load (i + 3 + dataFieldLen.toNat + 1)
        if sent = checkSum then
          if rtMalloc dataFieldLen then
            let c1 ← ReadM.load (i + 1)
            let c2 ← ReadM.load (i + 2)
            let data ← ReadM.loads (i + 4) dataFieldLen.toNat
            pure (some ⟨c1, c2, dataFieldLen, data.toList, by simp⟩)
          else pure none
        else hrGetFrameDataLoop rtMalloc (i + 1) n
      else hrGetFrameDataLoop rtMalloc (i + 1) n
    else hrGetFrameDataLoop rtMalloc (i + 1) n

def hrGetFrameData (rtMalloc : UInt8 → Bool) (srcLen : UInt8) : ReadM (Option TsFrameData) :=
  hrGetFrameDataLoop rtMalloc 0 srcLen.toNat

structure TsRawFrameData where
  len : UInt8
  buf : Vector UInt8 256

/-- `buf[i] = b`; a store outside the array is an error. -/
def store (buf : Vector UInt8 256) (i : ℤ) (b : UInt8) : Option (Vector UInt8 256) :=
  if h : 0 ≤ i ∧ i < 256 then some (buf.set i.toNat b (by omega)) else none

def storeAll (buf : Vector UInt8 256) (i : ℤ) : List UInt8 → Option (Vector UInt8 256)
  | [] => some buf
  | b :: bs => do
    let buf ← store buf i b
    storeAll buf (i + 1) bs

/-- `none` when a store misses the buffer. The length byte wraps, so that
`len - 2` and `len - 1` may be negative. -/
def hrGenerateRawFrame (c1 c2 : UInt8) (src : List UInt8) (srcLen : UInt8) :
    Option TsRawFrameData := do
  let len := srcLen + 6
  let buf ← store (Vector.replicate 256 0) 0 FRAME_HEADER
  let buf ← store buf 1 c1
  let buf ← store buf 2 c2
  let buf ← store buf 3 srcLen
  let buf ← storeAll buf 4 (src.take srcLen.toNat)
  let checkSum := (hrCheckSum 0 (len.toNat - 2)).result fun i => buf.toList.getD i 0
  let buf ← store buf ((len.toNat : ℤ) - 2) checkSum
  let buf ← store buf ((len.toNat : ℤ) - 1) FRAME_TAIL
  pure ⟨len, buf⟩

/-- The bytes `rt_device_write` is given. -/
def TsRawFrameData.sent (raw : TsRawFrameData) : List UInt8 := raw.buf.toList.take raw.len.toNat

end Detector
