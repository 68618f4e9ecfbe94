import Mathlib.Tactic.SplitIfs
import DetectorFirmware.Library.RingWindow
import DetectorFirmware.Model.Frame

/-! The receive side of the host link: the ring of `lwrb.c` and the loop of
`hr_thread_entry` that empties it into its buffer on the stack. -/

namespace Detector

open EventLog RingWindow

/-- `lwrb_t` after `lwrb_init`; one place of `buff` stays free. -/
structure Lwrb where
  buff : ℕ → UInt8
  size : ℕ
  r : ℕ
  w : ℕ
  r_lt : r < size
  w_lt : w < size

/-- `lwrb_init` for a buffer that is not empty. It also leaves `evt_fn` at `NULL`, and the
firmware never sets it. -/
def lwrbInit (buffdata : ℕ → UInt8) (size : ℕ) (h : 0 < size) : Lwrb := ⟨buffdata, size, 0, 0, h, h⟩

def lwrbGetFull (rb : Lwrb) : ℕ := if rb.w ≥ rb.r then rb.w - rb.r else rb.size - (rb.r - rb.w)

def lwrbGetFree (rb : Lwrb) : ℕ :=
  (if rb.w ≥ rb.r then rb.size - (rb.w - rb.r) else rb.r - rb.w) - 1

/-- Where a pointer stands once `btx` bytes were moved, `tocopy` of them before the end of
the buffer. -/
def lwrbAdvance (rb : Lwrb) (ptr tocopy btx : ℕ) : ℕ :=
  let ptr := if btx - tocopy > 0 then btx - tocopy else ptr + tocopy
  if ptr ≥ rb.size then 0 else ptr

theorem lwrbAdvance_lt (rb : Lwrb) (ptr tocopy btx : ℕ) :
    lwrbAdvance rb ptr tocopy btx < rb.size := by
  have := rb.r_lt
  simp only [lwrbAdvance]
  split_ifs <;> omega

/-- The bytes copied out, and the ring without them. -/
def lwrbRead (rb : Lwrb) (btr : ℕ) : List UInt8 × Lwrb :=
  let full := lwrbGetFull rb
  if btr = 0 ∨ full = 0 then ([], rb)
  else
    let btr := min full btr
    let tocopy := min (rb.size - rb.r) btr
    (copy rb.buff rb.r tocopy ++ copy rb.buff 0 (btr - tocopy),
      { rb with
        r := lwrbAdvance rb rb.r tocopy btr
        r_lt := lwrbAdvance_lt rb rb.r tocopy btr })

/-- The ring with as much of `data` as it has room for. -/
def lwrbWrite (rb : Lwrb) (data : List UInt8) : Lwrb :=
  let free := lwrbGetFree rb
  if data.length = 0 ∨ free = 0 then rb
  else
    let btw := min free data.length
    let tocopy := min (rb.size - rb.w) btw
    { rb with
      buff := blit (blit rb.buff rb.w (data.take tocopy)) 0 ((data.take btw).drop tocopy)
      w := lwrbAdvance rb rb.w tocopy btw
      w_lt := lwrbAdvance_lt rb rb.w tocopy btw }

def HOST_FRAME_MIN_LEN : UInt8 := 6

/-- What the thread keeps between two wake-ups: the ring, and the stack from its `buf` on,
of which the first 32 bytes are `buf`. -/
structure HrThread where
  uart2RxRb : Lwrb
  stack : ℕ → UInt8

/-- What a wake-up meets in code that is not part of the repository: what `UART2_RxCheck`
does to the ring, and the lengths for which the heap has a block. -/
structure Wake where
  uart2RxCheck : Lwrb → Lwrb
  rtMalloc : UInt8 → Bool

/-- What one wake-up does with the ring and the buffer. -/
structure HandOver where
  /-- What `lwrb_read` stores from `buf` on. -/
  copied : List UInt8
  /-- The length `HR_GetFrameData` is called with, if it is called. -/
  passed : Option UInt8
  /-- The frame for `HR_ProcessData`. -/
  hostFrameData : Option TsFrameData

/-- One round of the loop in `hr_thread_entry`, after the semaphore was taken. -/
def hrThreadEntry (s : HrThread) (wake : Wake) : HandOver × HrThread :=
  let rb := wake.uart2RxCheck s.uart2RxRb
  let bufLen := UInt8.ofNat (lwrbGetFull rb)
  let (copied, rb) := lwrbRead rb bufLen.toNat
  let stack := blit s.stack 0 copied
  let handOver : HandOver :=
    if bufLen ≥ HOST_FRAME_MIN_LEN then
      ⟨copied, some bufLen, (hrGetFrameData wake.rtMalloc bufLen).result stack⟩
    else ⟨copied, none, none⟩
  (handOver, ⟨rb, stack⟩)

instance : System HrThread Wake where
  step s wake := (hrThreadEntry s wake).2

end Detector
