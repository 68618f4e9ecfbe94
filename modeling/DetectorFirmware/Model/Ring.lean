import DetectorFirmware.Model.Receive

/-! The rest of `lwrb.c`: the calls with flags, the ones that look at or give up bytes in
place, the two linear blocks for a DMA channel, and the search. A size variable has 32 bits;
a ring lies in memory, so a position and a length in it add up without wrapping. Only the
search adds an offset that the caller chooses. -/

namespace Detector

open RingWindow

/-- What `evt_fn` is called with. -/
inductive LwrbEvt where
  | read (bp : ℕ)
  | write (bp : ℕ)
  | reset
  deriving DecidableEq

/-- What a call returns and leaves, and what it sends to `evt_fn` if one is set. -/
structure LwrbRet (α : Type) where
  ret : α
  rb : Lwrb
  evt : Option LwrbEvt

theorem lwrbAdvance_r_lt (rb : Lwrb) (tocopy btr : ℕ) : lwrbAdvance rb rb.r tocopy btr < rb.size :=
  lwrbAdvance_lt rb rb.r tocopy btr

theorem lwrbAdvance_w_lt (rb : Lwrb) (tocopy btw : ℕ) : lwrbAdvance rb rb.w tocopy btw < rb.size :=
  lwrbAdvance_lt rb rb.w tocopy btw

/-- `flags` is `LWRB_FLAG_WRITE_ALL`; `none` is the return value 0, `some` the number in `bw`. -/
def lwrbWriteEx (rb : Lwrb) (data : List UInt8) (flags : Bool) : LwrbRet (Option ℕ) :=
  let btw := data.length
  let free := lwrbGetFree rb
  if btw = 0 ∨ free = 0 ∨ (free < btw ∧ flags) then ⟨none, rb, none⟩
  else
    let btw := min free btw
    let tocopy := min (rb.size - rb.w) btw
    { ret := some btw
      rb :=
        { rb with
          buff := blit (blit rb.buff rb.w (data.take tocopy)) 0 ((data.take btw).drop tocopy)
          w := lwrbAdvance rb rb.w tocopy btw
          w_lt := lwrbAdvance_w_lt rb tocopy btw }
      evt := some (.write btw) }

/-- `flags` is `LWRB_FLAG_READ_ALL`; what is stored to `data`, `br` being its length. -/
def lwrbReadEx (rb : Lwrb) (btr : ℕ) (flags : Bool) : LwrbRet (Option (List UInt8)) :=
  let full := lwrbGetFull rb
  if btr = 0 ∨ full = 0 ∨ (full < btr ∧ flags) then ⟨none, rb, none⟩
  else
    let btr := min full btr
    let tocopy := min (rb.size - rb.r) btr
    { ret := some (copy rb.buff rb.r tocopy ++ copy rb.buff 0 (btr - tocopy))
      rb :=
        { rb with
          r := lwrbAdvance rb rb.r tocopy btr
          r_lt := lwrbAdvance_r_lt rb tocopy btr }
      evt := some (.read btr) }

/-- A position moved on by less than the size. -/
def lwrbWrap (rb : Lwrb) (ptr : ℕ) : ℕ := if ptr ≥ rb.size then ptr - rb.size else ptr

def lwrbPeek (rb : Lwrb) (skipCount btp : ℕ) : List UInt8 :=
  if btp = 0 then []
  else
    let full := lwrbGetFull rb
    if skipCount ≥ full then []
    else
      let r := lwrbWrap rb (rb.r + skipCount)
      let btp := min (full - skipCount) btp
      if btp = 0 then []
      else
        let tocopy := min (rb.size - r) btp
        copy rb.buff r tocopy ++ copy rb.buff 0 (btp - tocopy)

def lwrbReset (rb : Lwrb) : LwrbRet Unit :=
  have h : 0 < rb.size := Nat.lt_of_le_of_lt (Nat.zero_le _) rb.r_lt
  ⟨(), { rb with w := 0, w_lt := h, r := 0, r_lt := h }, some .reset⟩

theorem lwrbWrap_lt (rb : Lwrb) {ptr n : ℕ} (hptr : ptr < rb.size) (hn : n < rb.size) :
    lwrbWrap rb (ptr + n) < rb.size := by
  unfold lwrbWrap
  split_ifs <;> omega

theorem lwrbGetFull_lt (rb : Lwrb) : lwrbGetFull rb < rb.size := by
  have hr := rb.r_lt
  have hw := rb.w_lt
  unfold lwrbGetFull
  split_ifs <;> omega

theorem lwrbGetFree_lt (rb : Lwrb) : lwrbGetFree rb < rb.size := by
  have hr := rb.r_lt
  have hw := rb.w_lt
  unfold lwrbGetFree
  split_ifs <;> omega

def lwrbSkip (rb : Lwrb) (len : ℕ) : LwrbRet ℕ :=
  if len = 0 then ⟨0, rb, none⟩
  else
    let n := min len (lwrbGetFull rb)
    have hn : n < rb.size := Nat.lt_of_le_of_lt (Nat.min_le_right _ _) (lwrbGetFull_lt rb)
    ⟨n, { rb with r := lwrbWrap rb (rb.r + n), r_lt := lwrbWrap_lt rb rb.r_lt hn }, some (.read n)⟩

/-- `lwrb_advance`. -/
def lwrbAdvanceWrite (rb : Lwrb) (len : ℕ) : LwrbRet ℕ :=
  if len = 0 then ⟨0, rb, none⟩
  else
    let n := min len (lwrbGetFree rb)
    have hn : n < rb.size := Nat.lt_of_le_of_lt (Nat.min_le_right _ _) (lwrbGetFree_lt rb)
    ⟨n, { rb with w := lwrbWrap rb (rb.w + n), w_lt := lwrbWrap_lt rb rb.w_lt hn }, some (.write n)⟩

def lwrbGetLinearBlockReadLength (rb : Lwrb) : ℕ :=
  if rb.w > rb.r then rb.w - rb.r else if rb.r > rb.w then rb.size - rb.r else 0

def lwrbGetLinearBlockWriteLength (rb : Lwrb) : ℕ :=
  if rb.w ≥ rb.r then
    let len := rb.size - rb.w
    if rb.r = 0 then len - 1 else len
  else rb.r - rb.w - 1

/-! The two blocks as a DMA channel uses them, at the addresses `&buff[r]` and `&buff[w]`. -/

/-- The channel takes the linear block, and its end is acknowledged with `lwrb_skip`. -/
def lwrbDmaOut (rb : Lwrb) : List UInt8 × LwrbRet ℕ :=
  let len := lwrbGetLinearBlockReadLength rb
  (copy rb.buff rb.r len, lwrbSkip rb len)

/-- The channel stores what it has into the linear block, and `lwrb_advance` takes it over. -/
def lwrbDmaIn (rb : Lwrb) (data : List UInt8) : LwrbRet ℕ :=
  let bytes := data.take (lwrbGetLinearBlockWriteLength rb)
  lwrbAdvanceWrite { rb with buff := blit rb.buff rb.w bytes } bytes.length

/-! The event function. -/

/-- A ring, whether `evt_fn` is set, and what it was called with. -/
structure LwrbListened where
  rb : Lwrb
  evtFn : Bool
  evts : List LwrbEvt

/-- `lwrb_init` with `evt_fn`, which it leaves at `NULL`. -/
def lwrbInitListened (buffdata : ℕ → UInt8) (size : ℕ) (h : 0 < size) : LwrbListened :=
  ⟨lwrbInit buffdata size h, false, []⟩

def lwrbSetEvtFn (s : LwrbListened) (set : Bool) : LwrbListened := { s with evtFn := set }

/-- `BUF_SEND_EVT` at the end of a call. -/
def bufSendEvt {α : Type} (s : LwrbListened) (c : LwrbRet α) : LwrbListened :=
  { s with rb := c.rb, evts := if s.evtFn then s.evts ++ c.evt.toList else s.evts }

/-! The search. -/

/-- A sum in `lwrb_sz_t`. -/
def lwrbSz (n : ℕ) : ℕ := n % 4294967296

/-- The inner loop of `lwrb_find`, with the rest of the needle. -/
def lwrbMatches (rb : Lwrb) (r : ℕ) : List UInt8 → Bool
  | [] => true
  | b :: needle =>
    if rb.buff r ≠ b then false else lwrbMatches rb (if r + 1 ≥ rb.size then 0 else r + 1) needle

/-- The outer loop, with the number of rounds left. -/
def lwrbFindLoop (rb : Lwrb) (needle : List UInt8) (skipX : ℕ) : ℕ → Option ℕ
  | 0 => none
  | left + 1 =>
    if lwrbMatches rb (lwrbWrap rb (lwrbSz (rb.r + skipX))) needle then some skipX
    else lwrbFindLoop rb needle (skipX + 1) left

/-- The index in `found_idx`, or `none` for the return value 0. -/
def lwrbFind (rb : Lwrb) (bts : List UInt8) (startOffset : ℕ) : Option ℕ :=
  if bts.length = 0 then none
  else
    let full := lwrbGetFull rb
    if full < lwrbSz (bts.length + startOffset) then none
    else
      let maxX := lwrbSz (full + 4294967296 - bts.length)
      lwrbFindLoop rb bts startOffset (maxX + 1 - startOffset)

end Detector
