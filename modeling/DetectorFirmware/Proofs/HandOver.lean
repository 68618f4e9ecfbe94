import Mathlib.Algebra.Order.Ring.Int
import Mathlib.Data.Nat.ModEq
import DetectorFirmware.Model.Receive

/-! The receive ring is a queue, and `hr_thread_entry` takes a piece of it into `buf[32]`.
The piece is as long as the queue in eight bits, which may be more than the buffer holds. -/

namespace Detector

open EventLog RingWindow

/-- The bytes in the ring, oldest first. -/
def Lwrb.queue (rb : Lwrb) : List UInt8 := window rb.buff rb.size rb.r (lwrbGetFull rb)

@[simp] theorem Lwrb.queue_length (rb : Lwrb) : rb.queue.length = lwrbGetFull rb := window_length

/-- The write pointer is where the queue ends. -/
theorem lwrbGetFull_spec (rb : Lwrb) :
    lwrbGetFull rb < rb.size ∧ (rb.r + lwrbGetFull rb) % rb.size = rb.w := by
  have hr := rb.r_lt
  have hw := rb.w_lt
  unfold lwrbGetFull
  split_ifs with h
  · refine ⟨by omega, ?_⟩
    rw [Nat.add_sub_cancel' h, Nat.mod_eq_of_lt hw]
  · have hround : rb.r + (rb.size - (rb.r - rb.w)) = rb.w + rb.size := by omega
    refine ⟨by omega, ?_⟩
    rw [hround, Nat.add_mod_right, Nat.mod_eq_of_lt hw]

/-- A ring that ends `n` places after its read pointer holds `n` bytes. -/
theorem lwrbGetFull_unique {rb : Lwrb} {n : ℕ} (hn : n < rb.size)
    (hw : (rb.r + n) % rb.size = rb.w) : lwrbGetFull rb = n := by
  obtain ⟨hlt, hend⟩ := lwrbGetFull_spec rb
  have hmod : lwrbGetFull rb ≡ n [MOD rb.size] := Nat.ModEq.add_left_cancel' rb.r (hend.trans hw.symm)
  exact hmod.eq_of_lt_of_lt hlt hn

theorem lwrbGetFree_eq (rb : Lwrb) : lwrbGetFree rb = rb.size - 1 - lwrbGetFull rb := by
  have hr := rb.r_lt
  have hw := rb.w_lt
  unfold lwrbGetFree lwrbGetFull
  split_ifs <;> omega

/-- A pointer that moves by `n` places goes round once at most. -/
theorem lwrbAdvance_eq (rb : Lwrb) {ptr n : ℕ} (hptr : ptr < rb.size) (hn : n < rb.size) :
    lwrbAdvance rb ptr (min (rb.size - ptr) n) n = (ptr + n) % rb.size := by
  simp only [lwrbAdvance]
  rcases Nat.lt_or_ge (ptr + n) rb.size with h | h
  · rw [Nat.mod_eq_of_lt h]
    split_ifs <;> omega
  · rw [Nat.mod_eq_sub_mod h, Nat.mod_eq_of_lt (by omega)]
    split_ifs <;> omega

/-- A ring whose read pointer was moved over `n` queued bytes. -/
theorem queue_drop {rb rb' : Lwrb} {n : ℕ} (hn : n ≤ lwrbGetFull rb) (hbuff : rb'.buff = rb.buff)
    (hsize : rb'.size = rb.size) (hr : rb'.r = (rb.r + n) % rb.size) (hw : rb'.w = rb.w) :
    rb'.queue = rb.queue.drop n := by
  obtain ⟨hlt, hend⟩ := lwrbGetFull_spec rb
  have hfull : lwrbGetFull rb' = lwrbGetFull rb - n := by
    apply lwrbGetFull_unique
    · omega
    · rw [hr, hsize, hw, Nat.mod_add_mod, Nat.add_assoc, Nat.add_sub_cancel' hn, hend]
  rw [Lwrb.queue, Lwrb.queue, hfull, hbuff, hsize, hr, window_mod, window_drop hn]

/-- `lwrb_read` takes the oldest bytes, as many as there are or as are asked for. -/
theorem lwrbRead_spec (rb : Lwrb) (n : ℕ) :
    (lwrbRead rb n).1 = rb.queue.take n ∧ (lwrbRead rb n).2.queue = rb.queue.drop n := by
  have htake : rb.queue.take n = rb.queue.take (min (lwrbGetFull rb) n) := by
    rw [List.take_eq_take_min, Lwrb.queue_length, Nat.min_comm]
  have hdrop : rb.queue.drop n = rb.queue.drop (min (lwrbGetFull rb) n) := by
    rw [List.drop_eq_drop_min, Lwrb.queue_length, Nat.min_comm]
  obtain ⟨hlt, -⟩ := lwrbGetFull_spec rb
  have hmin : min (lwrbGetFull rb) n ≤ lwrbGetFull rb := Nat.min_le_left _ _
  simp only [lwrbRead]
  split_ifs with h
  · have hnone : min (lwrbGetFull rb) n = 0 := by omega
    rw [htake, hdrop, hnone]
    exact ⟨rfl, rfl⟩
  · refine ⟨?_, ?_⟩
    · rw [copy_round rb.buff rb.r_lt (by omega), htake, Lwrb.queue, window_take hmin]
    · rw [hdrop]
      exact queue_drop hmin rfl rfl (lwrbAdvance_eq rb rb.r_lt (by omega)) rfl

/-- What lies in the ring is not touched by a store behind the write pointer. -/
theorem window_blit_free (rb : Lwrb) {bs : List UInt8} (h : bs.length + lwrbGetFull rb < rb.size) :
    window (blit (blit rb.buff rb.w (bs.take (rb.size - rb.w))) 0 (bs.drop (rb.size - rb.w))) rb.size
      rb.r (lwrbGetFull rb) = rb.queue := by
  obtain ⟨-, hend⟩ := lwrbGetFull_spec rb
  refine window_congr fun i hi => ?_
  have hpos : (rb.r + i) % rb.size = (rb.w + (rb.size - lwrbGetFull rb + i)) % rb.size := by
    have hturn : rb.r + lwrbGetFull rb + (rb.size - lwrbGetFull rb + i) = rb.r + i + rb.size := by
      omega
    rw [← hend, Nat.mod_add_mod, hturn, Nat.add_mod_right]
  rw [hpos]
  exact blit_round_outside rb.buff rb.w_lt (by omega) (by omega)

/-- A ring whose write pointer was moved over the bytes stored behind it. -/
theorem queue_append {rb rb' : Lwrb} {bs : List UInt8} (h : bs.length + lwrbGetFull rb < rb.size)
    (hbuff : rb'.buff =
      blit (blit rb.buff rb.w (bs.take (rb.size - rb.w))) 0 (bs.drop (rb.size - rb.w)))
    (hsize : rb'.size = rb.size) (hr : rb'.r = rb.r) (hw : rb'.w = (rb.w + bs.length) % rb.size) :
    rb'.queue = rb.queue ++ bs := by
  obtain ⟨-, hend⟩ := lwrbGetFull_spec rb
  have hfull : lwrbGetFull rb' = lwrbGetFull rb + bs.length := by
    apply lwrbGetFull_unique
    · omega
    · rw [hr, hsize, hw, ← hend, Nat.mod_add_mod, Nat.add_assoc]
  have hnew : window rb'.buff rb.size (rb.r + lwrbGetFull rb) bs.length = bs := by
    rw [← window_mod, hend, hbuff]
    exact window_blit_round rb.buff rb.w_lt (by omega)
  rw [Lwrb.queue, hfull, hsize, hr, window_add, hnew, hbuff, window_blit_free rb h]

/-- `lwrb_write` appends as much as there is room for. -/
theorem lwrbWrite_spec (rb : Lwrb) (data : List UInt8) :
    (lwrbWrite rb data).queue = rb.queue ++ data.take (lwrbGetFree rb) := by
  obtain ⟨hlt, -⟩ := lwrbGetFull_spec rb
  have hroom := lwrbGetFree_eq rb
  simp only [lwrbWrite]
  split_ifs with h
  · rcases h with h | h
    · simp [List.length_eq_zero_iff.mp h]
    · simp [h]
  · have hlen : (data.take (min (lwrbGetFree rb) data.length)).length =
        min (lwrbGetFree rb) data.length := by rw [List.length_take]; omega
    rw [List.take_eq_take_min (i := lwrbGetFree rb)]
    refine queue_append (by omega) ?_ rfl rfl ?_
    · rw [List.take_take, List.drop_eq_drop_min (i := rb.size - rb.w), hlen]
    · rw [hlen]
      exact lwrbAdvance_eq rb rb.w_lt (by omega)

/-! One wake-up. -/

/-- At most 32 bytes go into `buf`, and `HR_GetFrameData` is told how many. -/
def HandOverRight (h : HandOver) : Prop :=
  h.copied.length ≤ 32 ∧ ∀ bufLen ∈ h.passed, bufLen.toNat = h.copied.length

/-- The bytes in the ring, counted in eight bits, fit into `buf`. -/
def FitsBuf (rb : Lwrb) : Prop := rb.queue.length % 256 ≤ 32

/-- A wake-up copies as many of the oldest bytes as the eight bits of `buf_len` say, and
passes that number on. -/
theorem hrThreadEntry_spec (s : HrThread) (wake : Wake) :
    let rb := wake.uart2RxCheck s.uart2RxRb
    let h := (hrThreadEntry s wake).1
    h.copied = rb.queue.take (rb.queue.length % 256) ∧
      ∀ bufLen ∈ h.passed, bufLen.toNat = rb.queue.length % 256 := by
  have hlen (n : ℕ) : (UInt8.ofNat n).toNat = n % 256 := UInt8.toNat_ofNat
  simp only [hrThreadEntry, Lwrb.queue_length]
  split_ifs with h
  · refine ⟨?_, ?_⟩
    · rw [(lwrbRead_spec _ _).1, hlen]
    · rintro bufLen ⟨⟩
      exact hlen _
  · refine ⟨?_, ?_⟩
    · rw [(lwrbRead_spec _ _).1, hlen]
    · rintro bufLen ⟨⟩

theorem handOverRight_step (s : HrThread) (wake : Wake) :
    HandOverRight (hrThreadEntry s wake).1 ↔ FitsBuf (wake.uart2RxCheck s.uart2RxRb) := by
  obtain ⟨hcopied, hpassed⟩ := hrThreadEntry_spec s wake
  have hlen : (hrThreadEntry s wake).1.copied.length =
      (wake.uart2RxCheck s.uart2RxRb).queue.length % 256 := by
    rw [hcopied, List.length_take]
    exact Nat.min_eq_left (Nat.mod_le _ _)
  rw [HandOverRight, FitsBuf, hlen]
  exact and_iff_left hpassed

/-- In every run of wake-ups, each hands its bytes over within bounds exactly when each finds
at most 32 bytes in the ring, counted modulo 256. -/
theorem handOver_iff (s : HrThread) (wakes : List Wake) :
    Steps (fun s wake => HandOverRight (hrThreadEntry s wake).1) s wakes ↔
      Steps (fun s wake => FitsBuf (wake.uart2RxCheck s.uart2RxRb)) s wakes :=
  ⟨Steps.mono fun s wake => (handOverRight_step s wake).mp,
    Steps.mono fun s wake => (handOverRight_step s wake).mpr⟩

/-- Seven requests for the record counts, sent before the thread runs. -/
def sevenRequests : List UInt8 := (List.replicate 7 [0xAA, 0x00, 0x00, 0x00, 0xAA, 0x55]).flatten

def sevenRequestsWake : Wake := ⟨fun rb => lwrbWrite rb sevenRequests, fun _ => true⟩

/-- They are 42 bytes, more than `buf[32]` holds. -/
theorem not_handOver_sevenRequests :
    ¬ Steps (fun s wake => HandOverRight (hrThreadEntry s wake).1)
      (⟨lwrbInit (fun _ => 0) 128 (by omega), fun _ => 0⟩ : HrThread) [sevenRequestsWake] := by
  rw [steps_cons, handOverRight_step, FitsBuf, sevenRequestsWake, lwrbWrite_spec]
  rintro ⟨hfits, -⟩
  revert hfits
  decide

end Detector
