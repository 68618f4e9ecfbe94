import DetectorFirmware.Model.Ring

/-! The ring between two parties. `lwrb.c` lets one of them write and the other read at the
same time, an interrupt and a thread for instance; here both calls are cut into the accesses
that the other party can see: the loads of `w` and `r`, each byte that is copied, and the
store of the pointer at the end. -/

namespace Detector

open EventLog

/-- `lwrb_get_free` and `lwrb_get_full` with what they loaded. -/
def lwrbFreeOf (size w r : ℕ) : ℕ := (if w ≥ r then size - (w - r) else r - w) - 1

def lwrbFullOf (size w r : ℕ) : ℕ := if w ≥ r then w - r else size - (r - w)

/-- The place of byte `k` of a copy in two steps that starts at `ptr`. -/
def lwrbCopyPos (ptr tocopy k : ℕ) : ℕ := if k < tocopy then ptr + k else k - tocopy

def Lwrb.poke (rb : Lwrb) (pos : ℕ) (b : UInt8) : Lwrb :=
  { rb with buff := Function.update rb.buff pos b }

/-- The store of `w` by a call that copied `n` bytes from `ptr` on. -/
def Lwrb.storeW (rb : Lwrb) (ptr n : ℕ) : Lwrb :=
  { rb with
    w := lwrbAdvance rb ptr (min (rb.size - ptr) n) n
    w_lt := lwrbAdvance_lt rb ptr (min (rb.size - ptr) n) n }

/-- The store of `r`. -/
def Lwrb.storeR (rb : Lwrb) (ptr n : ℕ) : Lwrb :=
  { rb with
    r := lwrbAdvance rb ptr (min (rb.size - ptr) n) n
    r_lt := lwrbAdvance_lt rb ptr (min (rb.size - ptr) n) n }

/-- Where a call of `lwrb_write_ex` stands, with its local variables. -/
inductive Producer where
  | idle
  /-- About to load `w` in `lwrb_get_free`. -/
  | getFree (data : List UInt8) (flags : Bool)
  /-- About to load `r`. -/
  | loadedW (data : List UInt8) (flags : Bool) (w : ℕ)
  /-- About to load `w` as `buff_w_ptr`; `data` is cut to `btw`. -/
  | granted (data : List UInt8)
  /-- `k` bytes are copied. -/
  | copying (data : List UInt8) (buffWPtr k : ℕ)

/-- Where a call of `lwrb_read_ex` stands. -/
inductive Consumer where
  | idle
  | getFull (btr : ℕ) (flags : Bool)
  | loadedW (btr : ℕ) (flags : Bool) (w : ℕ)
  | granted (btr : ℕ)
  /-- `data` has the bytes copied so far. -/
  | copying (btr buffRPtr : ℕ) (data : List UInt8)

/-- The ring, both parties, and the data of the calls that returned 1. -/
structure LwrbShared where
  rb : Lwrb
  producer : Producer
  consumer : Consumer
  writes : List (List UInt8)
  reads : List (List UInt8)

/-- The next access of the producer, which calls `lwrb_write_ex(data, flags)` when it is idle. -/
def lwrbWriteStep (s : LwrbShared) (data : List UInt8) (flags : Bool) : LwrbShared :=
  match s.producer with
  | .idle => if data.length = 0 then s else { s with producer := .getFree data flags }
  | .getFree data flags => { s with producer := .loadedW data flags s.rb.w }
  | .loadedW data flags w =>
    let free := lwrbFreeOf s.rb.size w s.rb.r
    if free = 0 ∨ (free < data.length ∧ flags) then { s with producer := .idle }
    else { s with producer := .granted (data.take (min free data.length)) }
  | .granted data => { s with producer := .copying data s.rb.w 0 }
  | .copying data ptr k =>
    let tocopy := min (s.rb.size - ptr) data.length
    if h : k < data.length then
      { s with
        rb := s.rb.poke (lwrbCopyPos ptr tocopy k) data[k]
        producer := .copying data ptr (k + 1) }
    else
      { s with
        rb := s.rb.storeW ptr data.length
        producer := .idle
        writes := s.writes ++ [data] }

/-- The next access of the consumer, which calls `lwrb_read_ex(btr, flags)` when it is idle. -/
def lwrbReadStep (s : LwrbShared) (btr : ℕ) (flags : Bool) : LwrbShared :=
  match s.consumer with
  | .idle => if btr = 0 then s else { s with consumer := .getFull btr flags }
  | .getFull btr flags => { s with consumer := .loadedW btr flags s.rb.w }
  | .loadedW btr flags w =>
    let full := lwrbFullOf s.rb.size w s.rb.r
    if full = 0 ∨ (full < btr ∧ flags) then { s with consumer := .idle }
    else { s with consumer := .granted (min full btr) }
  | .granted btr => { s with consumer := .copying btr s.rb.r [] }
  | .copying btr ptr data =>
    let tocopy := min (s.rb.size - ptr) btr
    if data.length < btr then
      { s with consumer := .copying btr ptr (data ++ [s.rb.buff (lwrbCopyPos ptr tocopy data.length)]) }
    else
      { s with
        rb := s.rb.storeR ptr btr
        consumer := .idle
        reads := s.reads ++ [data] }

/-- Which party goes on, with the arguments of its call if it starts one. -/
inductive LwrbAccess where
  | producer (data : List UInt8) (flags : Bool)
  | consumer (btr : ℕ) (flags : Bool)

instance : System LwrbShared LwrbAccess where
  step s
    | .producer data flags => lwrbWriteStep s data flags
    | .consumer btr flags => lwrbReadStep s btr flags

/-- No call has been made yet. -/
def lwrbShare (rb : Lwrb) : LwrbShared := ⟨rb, .idle, .idle, [], []⟩

end Detector
