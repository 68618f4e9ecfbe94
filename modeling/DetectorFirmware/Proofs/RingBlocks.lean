import Mathlib.Data.Nat.Find
import DetectorFirmware.Proofs.RingQueue

/-! Access to the ring in place. A linear block ends with the bytes or with the memory, so the
second block has what the first one left; and the search compares the needle with what a
reader would get at each offset. -/

namespace Detector

open EventLog RingWindow BoundedQueue

/-! Taking the bytes out. -/

/-- The block for reading holds everything, or reaches to the end of the memory. -/
theorem linearRead_cases (rb : Lwrb) :
    lwrbGetLinearBlockReadLength rb ≤ lwrbGetFull rb ∧
      (lwrbGetLinearBlockReadLength rb = lwrbGetFull rb ∨
        rb.r + lwrbGetLinearBlockReadLength rb = rb.size) := by
  have hr := rb.r_lt
  have hw := rb.w_lt
  unfold lwrbGetLinearBlockReadLength lwrbGetFull
  split_ifs <;> omega

theorem linearRead_le (rb : Lwrb) : rb.r + lwrbGetLinearBlockReadLength rb ≤ rb.size := by
  have hr := rb.r_lt
  have hw := rb.w_lt
  unfold lwrbGetLinearBlockReadLength
  split_ifs <;> omega

/-- From the start of the memory the bytes do not go round. -/
theorem linearRead_of_start {rb : Lwrb} (h : rb.r = 0) :
    lwrbGetLinearBlockReadLength rb = lwrbGetFull rb := by
  unfold lwrbGetLinearBlockReadLength lwrbGetFull
  split_ifs <;> omega

theorem lwrbDmaOut_spec (rb : Lwrb) :
    (lwrbDmaOut rb).1 = rb.queue.take (lwrbGetLinearBlockReadLength rb) ∧
      (lwrbDmaOut rb).2.rb.asQueue = rb.asQueue.pop (lwrbGetLinearBlockReadLength rb) := by
  obtain ⟨hle, -⟩ := linearRead_cases rb
  refine ⟨?_, (lwrbSkip_spec rb _).2⟩
  rw [Lwrb.queue, window_take hle]
  exact copy_eq_window (linearRead_le rb)

/-- Once a block reached to the end of the memory, the next one starts at its beginning. -/
theorem lwrbSkip_wraps {rb : Lwrb} {len : ℕ} (hlen : len ≤ lwrbGetFull rb)
    (hend : rb.r + len = rb.size) : (lwrbSkip rb len).rb.r = 0 := by
  have hr := rb.r_lt
  have hne : len ≠ 0 := by omega
  simp only [lwrbSkip, if_neg hne, Nat.min_eq_left hlen, hend, lwrbWrap, ge_iff_le, le_refl, if_true,
    Nat.sub_self]

/-- Two blocks are what `lwrb_read` gives of everything in the ring. -/
theorem linear_read_all (rb : Lwrb) :
    let first := lwrbDmaOut rb
    let second := lwrbDmaOut first.2.rb
    first.1 ++ second.1 = (lwrbRead rb (lwrbGetFull rb)).1 ∧
      second.2.rb.asQueue = (lwrbRead rb (lwrbGetFull rb)).2.asQueue := by
  intro first second
  obtain ⟨hfirst, hleft⟩ := lwrbDmaOut_spec rb
  obtain ⟨hsecond, hrest⟩ := lwrbDmaOut_spec first.2.rb
  obtain ⟨hle, hcases⟩ := linearRead_cases rb
  have hqueue : first.2.rb.queue = rb.queue.drop (lwrbGetLinearBlockReadLength rb) :=
    congrArg BQueue.items hleft
  have hlen : lwrbGetFull first.2.rb = lwrbGetFull rb - lwrbGetLinearBlockReadLength rb := by
    rw [← Lwrb.queue_length, hqueue, List.length_drop, Lwrb.queue_length]
  have hall : lwrbGetLinearBlockReadLength first.2.rb = lwrbGetFull first.2.rb := by
    rcases hcases with hwhole | hend
    · have hnone := (linearRead_cases first.2.rb).1
      omega
    · exact linearRead_of_start (lwrbSkip_wraps hle hend)
  rw [(lwrbRead_spec rb _).1, lwrbRead_asQueue]
  refine ⟨?_, ?_⟩
  · show first.1 ++ (lwrbDmaOut first.2.rb).1 = _
    rw [hsecond, show first.1 = _ from hfirst, hqueue, hall, hlen, ← List.take_add,
      Nat.add_sub_cancel' hle]
  · show (lwrbDmaOut first.2.rb).2.rb.asQueue = _
    rw [hrest, show first.2.rb.asQueue = _ from hleft, BQueue.pop_pop, hall, hlen,
      Nat.add_sub_cancel' hle]

/-! Storing into it. -/

/-- The block for writing has all the room, or reaches to the end of the memory. -/
theorem linearWrite_cases (rb : Lwrb) :
    lwrbGetLinearBlockWriteLength rb ≤ lwrbGetFree rb ∧
      (lwrbGetLinearBlockWriteLength rb = lwrbGetFree rb ∨
        rb.w + lwrbGetLinearBlockWriteLength rb = rb.size) := by
  have hr := rb.r_lt
  have hw := rb.w_lt
  simp only [lwrbGetLinearBlockWriteLength, lwrbGetFree]
  split_ifs <;> omega

theorem linearWrite_le (rb : Lwrb) : rb.w + lwrbGetLinearBlockWriteLength rb ≤ rb.size := by
  have hr := rb.r_lt
  have hw := rb.w_lt
  simp only [lwrbGetLinearBlockWriteLength]
  split_ifs <;> omega

theorem linearWrite_of_start {rb : Lwrb} (h : rb.w = 0) :
    lwrbGetLinearBlockWriteLength rb = lwrbGetFree rb := by
  simp only [lwrbGetLinearBlockWriteLength, lwrbGetFree]
  split_ifs <;> omega

/-- Bytes stored behind the write pointer and taken over by `lwrb_advance`. -/
theorem advance_queue (rb : Lwrb) {bs : List UInt8} (hne : bs.length ≠ 0)
    (hfree : bs.length ≤ lwrbGetFree rb) (hlinear : rb.w + bs.length ≤ rb.size) :
    let c := lwrbAdvanceWrite { rb with buff := blit rb.buff rb.w bs } bs.length
    c.ret = bs.length ∧ c.rb.w = lwrbWrap rb (rb.w + bs.length) ∧
      c.rb.asQueue = rb.asQueue.push bs := by
  have hlt := lwrbGetFree_lt rb
  have hfull := lwrbGetFull_lt rb
  have hroom := lwrbGetFree_eq rb
  have hmin : min bs.length (lwrbGetFree rb) = bs.length := Nat.min_eq_left hfree
  have hbuff : blit rb.buff rb.w bs =
      blit (blit rb.buff rb.w (bs.take (rb.size - rb.w))) 0 (bs.drop (rb.size - rb.w)) := by
    rw [List.take_of_length_le (by omega), List.drop_eq_nil_of_le (by omega), blit_nil]
  intro c
  have hret : c.ret = bs.length := by
    simp only [c, lwrbAdvanceWrite, if_neg hne]
    exact hmin
  have hw : c.rb.w = lwrbWrap rb (rb.w + bs.length) := by
    simp only [c, lwrbAdvanceWrite, if_neg hne]
    exact congrArg (fun n => lwrbWrap rb (rb.w + n)) hmin
  have hrest : c.rb.buff = blit rb.buff rb.w bs ∧ c.rb.size = rb.size ∧ c.rb.r = rb.r := by
    simp only [c, lwrbAdvanceWrite, if_neg hne, and_self]
  obtain ⟨hc, hsize, hr⟩ := hrest
  refine ⟨hret, hw, asQueue_ext (congrArg (· - 1) hsize) ?_⟩
  rw [BQueue.push_items, asQueue_room, List.take_of_length_le hfree]
  refine queue_append (by omega) (hc.trans hbuff) hsize hr ?_
  rw [hw]
  exact lwrbWrap_eq rb rb.w_lt (by omega)

theorem lwrbDmaIn_spec (rb : Lwrb) (data : List UInt8) :
    (lwrbDmaIn rb data).ret = min (lwrbGetLinearBlockWriteLength rb) data.length ∧
      (lwrbDmaIn rb data).rb.asQueue =
        rb.asQueue.push (data.take (lwrbGetLinearBlockWriteLength rb)) := by
  obtain ⟨hle, -⟩ := linearWrite_cases rb
  have hlinear := linearWrite_le rb
  have hlen : (data.take (lwrbGetLinearBlockWriteLength rb)).length =
      min (lwrbGetLinearBlockWriteLength rb) data.length := List.length_take
  rw [← hlen]
  by_cases hne : (data.take (lwrbGetLinearBlockWriteLength rb)).length = 0
  · have hnil := List.length_eq_zero_iff.mp hne
    simp only [lwrbDmaIn, hnil, lwrbAdvanceWrite, List.length_nil, if_true, blit_nil, BQueue.push_nil,
      and_self]
  · obtain ⟨hret, -, hqueue⟩ := advance_queue rb hne (by omega) (by omega)
    exact ⟨hret, hqueue⟩

/-- A block that was filled up to the end of the memory leaves the write pointer at its start. -/
theorem lwrbDmaIn_wraps {rb : Lwrb} {data : List UInt8}
    (hlen : lwrbGetLinearBlockWriteLength rb ≤ data.length)
    (hend : rb.w + lwrbGetLinearBlockWriteLength rb = rb.size) : (lwrbDmaIn rb data).rb.w = 0 := by
  have hw := rb.w_lt
  obtain ⟨hle, -⟩ := linearWrite_cases rb
  have htake : (data.take (lwrbGetLinearBlockWriteLength rb)).length =
      lwrbGetLinearBlockWriteLength rb := List.length_take_of_le hlen
  have hne : (data.take (lwrbGetLinearBlockWriteLength rb)).length ≠ 0 := by omega
  obtain ⟨-, hptr, -⟩ := advance_queue rb hne (by omega) (by omega)
  rw [lwrbDmaIn, hptr, htake, hend, lwrbWrap, if_pos (Nat.le_refl _), Nat.sub_self]

/-- Two blocks take as much of `data` as `lwrb_write` does. -/
theorem linear_write_all (rb : Lwrb) (data : List UInt8) :
    let first := lwrbDmaIn rb data
    let second := lwrbDmaIn first.rb (data.drop first.ret)
    first.ret + second.ret = min (lwrbGetFree rb) data.length ∧
      second.rb.asQueue = (lwrbWrite rb data).asQueue := by
  intro first second
  obtain ⟨hret, hqueue⟩ := lwrbDmaIn_spec rb data
  obtain ⟨hret', hqueue'⟩ := lwrbDmaIn_spec first.rb (data.drop first.ret)
  obtain ⟨hle, hcases⟩ := linearWrite_cases rb
  have hroom : lwrbGetFree first.rb =
      lwrbGetFree rb - min (lwrbGetLinearBlockWriteLength rb) data.length := by
    rw [← asQueue_room, ← asQueue_room, show first.rb.asQueue = _ from hqueue, BQueue.push_room,
      List.length_take]
  have hsecond : second.rb.asQueue = rb.asQueue.push
      (data.take (lwrbGetLinearBlockWriteLength rb) ++
        (data.drop first.ret).take (lwrbGetLinearBlockWriteLength first.rb)) := by
    rw [show second.rb.asQueue = _ from hqueue', show first.rb.asQueue = _ from hqueue,
      BQueue.push_push]
  rw [lwrbWrite_asQueue, hsecond, show first.ret = _ from hret, show second.ret = _ from hret',
    show first.ret = _ from hret, List.length_drop]
  rcases Nat.lt_or_ge data.length (lwrbGetLinearBlockWriteLength rb) with hshort | hlong
  · -- the first block has room for everything
    rw [Nat.min_eq_right (Nat.le_of_lt hshort), List.take_of_length_le (Nat.le_of_lt hshort),
      List.drop_length, List.take_nil, List.append_nil]
    exact ⟨by omega, rfl⟩
  · have hnext : lwrbGetLinearBlockWriteLength first.rb =
        lwrbGetFree rb - lwrbGetLinearBlockWriteLength rb := by
      have hsmall := (linearWrite_cases first.rb).1
      rcases hcases with hall | hend
      · omega
      · have hstart : lwrbGetLinearBlockWriteLength first.rb = lwrbGetFree first.rb :=
          linearWrite_of_start (lwrbDmaIn_wraps hlong hend)
        omega
    rw [Nat.min_eq_left hlong, hnext, ← List.take_add, Nat.add_sub_cancel' hle]
    refine ⟨by omega, BQueue.push_take _ ?_ _⟩
    rw [asQueue_room]

/-! The search. -/

/-- The inner loop compares the needle with what lies from `r` on. -/
theorem lwrbMatches_iff (rb : Lwrb) {r : ℕ} (hr : r < rb.size) (needle : List UInt8) :
    lwrbMatches rb r needle = true ↔ window rb.buff rb.size r needle.length = needle := by
  induction needle generalizing r with
  | nil => exact iff_of_true rfl rfl
  | cons b needle ih =>
    have hnext : (if r + 1 ≥ rb.size then 0 else r + 1) = (r + 1) % rb.size := by
      split_ifs with h
      · rw [show r + 1 = rb.size by omega, Nat.mod_self]
      · rw [Nat.mod_eq_of_lt (by omega)]
    have hfirst : window rb.buff rb.size r 1 = [rb.buff r] := by
      rw [← copy_eq_window (by omega)]
      rfl
    have hlt : (r + 1) % rb.size < rb.size := Nat.mod_lt _ (by omega)
    rw [lwrbMatches, hnext, List.length_cons, Nat.add_comm needle.length 1, window_add, hfirst,
      List.singleton_append, List.cons.injEq, ← window_mod, ← ih hlt]
    by_cases hb : rb.buff r = b
    · rw [if_neg (not_not.mpr hb)]
      exact (and_iff_right hb).symm
    · rw [if_pos hb]
      exact iff_of_false Bool.false_ne_true fun h => hb h.1

/-- A round of the outer loop finds the needle where the queue goes on with it. -/
theorem lwrbMatches_skip (rb : Lwrb) {needle : List UInt8} {skipX : ℕ} (hsize : rb.size ≤ 2147483648)
    (hne : needle ≠ []) (hin : skipX + needle.length ≤ lwrbGetFull rb) :
    lwrbMatches rb (lwrbWrap rb (lwrbSz (rb.r + skipX))) needle = true ↔
      needle <+: rb.queue.drop skipX := by
  have hr := rb.r_lt
  have hfull := lwrbGetFull_lt rb
  have hpos : 0 < needle.length := List.length_pos_of_ne_nil hne
  have hsz : lwrbSz (rb.r + skipX) = rb.r + skipX := Nat.mod_eq_of_lt (by omega)
  have hskip : skipX < rb.size := by omega
  have hpart : window rb.buff rb.size (rb.r + skipX) needle.length =
      (rb.queue.drop skipX).take needle.length := by
    rw [Lwrb.queue, window_drop (by omega), window_take (by omega)]
  rw [hsz, lwrbMatches_iff rb (lwrbWrap_lt rb hr hskip), lwrbWrap_eq rb hr hskip, window_mod, hpart,
    List.prefix_iff_eq_take, eq_comm]

/-- `i` is the first of the offsets from `skipX` on at which the queue goes on with the needle. -/
def FirstMatch (rb : Lwrb) (needle : List UInt8) (skipX i : ℕ) : Prop :=
  skipX ≤ i ∧ needle <+: rb.queue.drop i ∧ ∀ j, skipX ≤ j → j < i → ¬ needle <+: rb.queue.drop j

theorem exists_firstMatch {rb : Lwrb} {needle : List UInt8} {skipX j : ℕ} (hj : skipX ≤ j)
    (hat : needle <+: rb.queue.drop j) : ∃ i, FirstMatch rb needle skipX i := by
  classical
  have hex : ∃ i, skipX ≤ i ∧ needle <+: rb.queue.drop i := ⟨j, hj, hat⟩
  obtain ⟨hle, hfound⟩ := Nat.find_spec hex
  exact ⟨Nat.find hex, hle, hfound, fun k hk hlt hmatch => Nat.find_min hex hlt ⟨hk, hmatch⟩⟩

/-- A match leaves room for the needle. -/
theorem matches_in_queue {rb : Lwrb} {needle : List UInt8} {i : ℕ} (hne : needle ≠ [])
    (h : needle <+: rb.queue.drop i) : i + needle.length ≤ lwrbGetFull rb := by
  have hpos : 0 < needle.length := List.length_pos_of_ne_nil hne
  have hlen := h.length_le
  rw [List.length_drop, Lwrb.queue_length] at hlen
  omega

theorem lwrbFindLoop_iff (rb : Lwrb) {needle : List UInt8} (hsize : rb.size ≤ 2147483648)
    (hne : needle ≠ []) {skipX left : ℕ}
    (hleft : skipX + left + needle.length = lwrbGetFull rb + 1) (i : ℕ) :
    lwrbFindLoop rb needle skipX left = some i ↔ FirstMatch rb needle skipX i := by
  induction left generalizing skipX with
  | zero =>
    refine iff_of_false (by simp [lwrbFindLoop]) fun hfirst => ?_
    obtain ⟨hle, hat, -⟩ := hfirst
    have := matches_in_queue hne hat
    omega
  | succ left ih =>
    have hhere := lwrbMatches_skip rb hsize hne (show skipX + needle.length ≤ lwrbGetFull rb by omega)
    rw [lwrbFindLoop]
    split_ifs with hmatch
    · have hat := hhere.mp hmatch
      rw [Option.some.injEq]
      constructor
      · rintro rfl
        exact ⟨Nat.le_refl _, hat, fun j hle hlt => absurd hle (Nat.not_le.mpr hlt)⟩
      · rintro ⟨hle, -, hnone⟩
        by_contra hdiff
        exact hnone skipX (Nat.le_refl _) (by omega) hat
    · have hnot : ¬ needle <+: rb.queue.drop skipX := mt hhere.mpr hmatch
      rw [ih (by omega)]
      constructor
      · rintro ⟨hle, hat, hnone⟩
        refine ⟨by omega, hat, fun j hj hlt => ?_⟩
        rcases Nat.eq_or_lt_of_le hj with rfl | hj
        · exact hnot
        · exact hnone j hj hlt
      · rintro ⟨hle, hat, hnone⟩
        have hdiff : skipX ≠ i := fun h => hnot (h ▸ hat)
        exact ⟨by omega, hat, fun j hj hlt => hnone j (by omega) hlt⟩

/-- `lwrb_find` returns the first offset from `start_offset` on at which the bytes are in
the ring, and 0 when there is none. -/
theorem lwrbFind_iff (rb : Lwrb) (bts : List UInt8) (startOffset : ℕ)
    (hsize : rb.size ≤ 2147483648) (hne : bts ≠ []) (hsum : bts.length + startOffset < 4294967296) :
    (∀ i, lwrbFind rb bts startOffset = some i ↔ FirstMatch rb bts startOffset i) ∧
      (lwrbFind rb bts startOffset = none ↔
        ∀ j, startOffset ≤ j → ¬ bts <+: rb.queue.drop j) := by
  have hfull := lwrbGetFull_lt rb
  have hlen : bts.length ≠ 0 := mt List.length_eq_zero_iff.mp hne
  have hfirst : ∀ i, lwrbFind rb bts startOffset = some i ↔ FirstMatch rb bts startOffset i := by
    intro i
    have hsz : lwrbSz (bts.length + startOffset) = bts.length + startOffset := Nat.mod_eq_of_lt hsum
    simp only [lwrbFind, if_neg hlen, hsz]
    split_ifs with hshort
    · refine iff_of_false (by simp) fun hmatch => ?_
      obtain ⟨hle, hat, -⟩ := hmatch
      have := matches_in_queue hne hat
      omega
    · have hmax : lwrbSz (lwrbGetFull rb + 4294967296 - bts.length) = lwrbGetFull rb - bts.length := by
        rw [lwrbSz, Nat.sub_add_comm (by omega), Nat.add_mod_right, Nat.mod_eq_of_lt (by omega)]
      rw [hmax]
      exact lwrbFindLoop_iff rb hsize hne (by omega) i
  refine ⟨hfirst, ?_⟩
  constructor
  · intro hnone j hj hat
    obtain ⟨i, hi⟩ := exists_firstMatch hj hat
    rw [(hfirst i).mpr hi] at hnone
    cases hnone
  · intro hno
    cases hres : lwrbFind rb bts startOffset with
    | none => rfl
    | some i =>
      obtain ⟨hle, hat, -⟩ := (hfirst i).mp hres
      exact absurd hat (hno i hle)

/-- A ring whose bytes `AA 55 00` go round the end of its memory. -/
theorem lwrbFind_iff_wrapped :
    let rb : Lwrb := ⟨fun i => [0x55, 0x00, 0x10, 0xAA].getD i 0, 4, 3, 2, by omega, by omega⟩
    lwrbFind rb [0x55, 0x00] 0 = some 1 ↔ FirstMatch rb [0x55, 0x00] 0 1 :=
  (lwrbFind_iff ⟨fun i => [0x55, 0x00, 0x10, 0xAA].getD i 0, 4, 3, 2, by omega, by omega⟩ [0x55, 0x00] 0
    (by decide) (by decide) (by decide)).1 1

end Detector
