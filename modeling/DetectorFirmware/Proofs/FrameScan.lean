import Mathlib.Algebra.BigOperators.Intervals
import Mathlib.Order.Bounds.Basic
import Mathlib.Tactic.SplitIfs
import DetectorFirmware.Model.Frame

/-! What `HR_GetFrameData` accepts and which bytes of the receive buffer it looks
at. The scan stops at the first index where the bytes happen to form a frame
(`Hit`), whether or not they were received; it is right exactly when no header
byte announces a frame that runs past the received bytes. -/

namespace Detector

open EventLog

/-- The bytes from `i` on read as a frame with the right tail and checksum. -/
def Hit (m : ℕ → UInt8) (i : ℕ) : Prop :=
  m i = FRAME_HEADER ∧ m (i + 5 + (m (i + 3)).toNat) = FRAME_TAIL ∧
    (m (i + 4 + (m (i + 3)).toNat)).toNat =
      (∑ j ∈ Finset.range (4 + (m (i + 3)).toNat), (m (i + j)).toNat) % 256

instance (m : ℕ → UInt8) (i : ℕ) : Decidable (Hit m i) := by unfold Hit; infer_instance

/-- A frame from `i` on that lies within the first `n` bytes. -/
def Complete (m : ℕ → UInt8) (n i : ℕ) : Prop := Hit m i ∧ i + 6 + (m (i + 3)).toNat ≤ n

instance (m : ℕ → UInt8) (n i : ℕ) : Decidable (Complete m n i) := by
  unfold Complete; infer_instance

/-- The frame whose header is at `i`. -/
def frameAt (m : ℕ → UInt8) (i : ℕ) : TsFrameData where
  c1 := m (i + 1)
  c2 := m (i + 2)
  len := m (i + 3)
  data := (List.range (m (i + 3)).toNat).map fun j => m (i + 4 + j)
  data_length := by simp

theorem hrCheckSumLoop_result (m : ℕ → UInt8) (i n : ℕ) (sum : UInt8) :
    ((hrCheckSumLoop i n sum).result m).toNat =
      (sum.toNat + ∑ j ∈ Finset.range n, (m (i + j)).toNat) % 256 := by
  induction n generalizing i sum with
  | zero =>
    have := sum.toNat_lt
    rw [hrCheckSumLoop, Prog.result_pure, Finset.sum_range_zero]
    omega
  | succ n ih =>
    have hshift : ∑ j ∈ Finset.range n, (m (i + (j + 1))).toNat =
        ∑ j ∈ Finset.range n, (m (i + 1 + j)).toNat :=
      Finset.sum_congr rfl fun j _ => by rw [Nat.add_right_comm, Nat.add_assoc]
    rw [hrCheckSumLoop, Prog.result_bind, ReadM.final_eq, ih, ReadM.result_load, UInt8.toNat_add,
      Finset.sum_range_succ', hshift, add_zero]
    generalize ∑ j ∈ Finset.range n, (m (i + 1 + j)).toNat = rest
    generalize (m i).toNat = b
    omega

/-- `HR_CheckSum` is the sum of its bytes modulo 256. -/
theorem hrCheckSum_result (m : ℕ → UInt8) (i n : ℕ) :
    ((hrCheckSum i n).result m).toNat = (∑ j ∈ Finset.range n, (m (i + j)).toNat) % 256 := by
  rw [hrCheckSum, hrCheckSumLoop_result, UInt8.toNat_zero, Nat.zero_add]

theorem hrCheckSumLoop_events (m : ℕ → UInt8) (i n : ℕ) (sum : UInt8) :
    (hrCheckSumLoop i n sum).events m = List.range' i n := by
  induction n generalizing i sum with
  | zero => rfl
  | succ n ih =>
    simp only [hrCheckSumLoop, Prog.events_bind, ReadM.events_load, ReadM.final_eq, ih,
      List.range'_succ, List.singleton_append]

@[simp] theorem hrCheckSum_events (m : ℕ → UInt8) (i n : ℕ) :
    (hrCheckSum i n).events m = List.range' i n := hrCheckSumLoop_events m i n 0

/-- The read log of the checksum is complete. -/
theorem honest_hrCheckSum (i n : ℕ) : ReadM.Honest (hrCheckSum i n) := by
  suffices h : ∀ sum, ReadM.Honest (hrCheckSumLoop i n sum) from h 0
  induction n generalizing i with
  | zero => exact fun sum => ReadM.honest_pure sum
  | succ n ih => exact fun sum => ReadM.honest_bind (ReadM.honest_load i) fun _ => ih (i + 1) _

/-! One index of the scan. -/

/-- The indices that the scan looks at on account of index `i`. -/
def looks (m : ℕ → UInt8) (i : ℕ) : List ℕ :=
  let len := (m (i + 3)).toNat
  if m i = FRAME_HEADER then
    [i, i + 3, i + 3 + len + 2] ++
      if m (i + 3 + len + 2) = FRAME_TAIL then
        List.range' i (4 + len) ++ [i + 3 + len + 1] ++
          if m (i + 3 + len + 1) = (hrCheckSum i (4 + len)).result m then
            [i + 1, i + 2] ++ List.range' (i + 4) len
          else []
      else []
  else [i]

theorem hit_iff (m : ℕ → UInt8) (i : ℕ) :
    Hit m i ↔ m i = FRAME_HEADER ∧ m (i + 3 + (m (i + 3)).toNat + 2) = FRAME_TAIL ∧
      m (i + 3 + (m (i + 3)).toNat + 1) = (hrCheckSum i (4 + (m (i + 3)).toNat)).result m := by
  have h5 : i + 3 + (m (i + 3)).toNat + 2 = i + 5 + (m (i + 3)).toNat := by omega
  have h4 : i + 3 + (m (i + 3)).toNat + 1 = i + 4 + (m (i + 3)).toNat := by omega
  rw [Hit, h5, h4, ← hrCheckSum_result, UInt8.toNat_inj]

theorem result_of_hit {m : ℕ → UInt8} {i n : ℕ} (h : Hit m i) :
    (hrGetFrameDataLoop (fun _ => true) i (n + 1)).result m = some (frameAt m i) := by
  obtain ⟨h0, htail, hsum⟩ := (hit_iff m i).mp h
  simp only [hrGetFrameDataLoop, Prog.result_bind, ReadM.result_load, ReadM.final_eq,
    Prog.result_pure, h0, htail, ← hsum, if_true, ReadM.result_loads, frameAt,
    Option.some.injEq, TsFrameData.mk.injEq, true_and]
  rw [Vector.toList_ofFn, ← List.map_coe_finRange_eq_range, List.map_map, List.ofFn_eq_map]
  rfl

theorem result_of_not_hit {m : ℕ → UInt8} {i n : ℕ} (h : ¬ Hit m i) :
    (hrGetFrameDataLoop (fun _ => true) i (n + 1)).result m =
      (hrGetFrameDataLoop (fun _ => true) (i + 1) n).result m := by
  rw [hit_iff] at h
  simp only [hrGetFrameDataLoop, Prog.result_bind, ReadM.result_load, ReadM.final_eq,
    Prog.result_ite]
  split_ifs with h0 htail hsum <;> try rfl
  exact absurd ⟨h0, htail, hsum⟩ h

theorem events_loop {m : ℕ → UInt8} (i n : ℕ) :
    (hrGetFrameDataLoop (fun _ => true) i (n + 1)).events m =
      looks m i ++
        if Hit m i then [] else (hrGetFrameDataLoop (fun _ => true) (i + 1) n).events m := by
  simp only [hrGetFrameDataLoop, looks, Prog.events_bind, ReadM.events_load, ReadM.result_load,
    ReadM.final_eq, Prog.events_ite, Prog.events_pure, hrCheckSum_events, ReadM.events_loads,
    hit_iff]
  by_cases h0 : m i = FRAME_HEADER
  · by_cases htail : m (i + 3 + (m (i + 3)).toNat + 2) = FRAME_TAIL
    · by_cases hsum : m (i + 3 + (m (i + 3)).toNat + 1) =
          (hrCheckSum i (4 + (m (i + 3)).toNat)).result m
      · simp [h0, htail, ← hsum]
      · simp [h0, htail, hsum]
    · simp [h0, htail]
  · simp [h0]

theorem looks_of_not_header {m : ℕ → UInt8} {i : ℕ} (h : m i ≠ FRAME_HEADER) : looks m i = [i] := by
  simp only [looks, if_neg h]

/-- A header byte makes the scan look where it expects the tail. -/
theorem tail_mem_looks {m : ℕ → UInt8} {i : ℕ} (h : m i = FRAME_HEADER) :
    i + 5 + (m (i + 3)).toNat ∈ looks m i := by
  simp only [looks, if_pos h, List.mem_append, List.mem_cons]
  left
  omega

/-- It never looks beyond that tail. -/
theorem looks_le (m : ℕ → UInt8) (i : ℕ) : ∀ j ∈ looks m i, j ≤ i + 5 + (m (i + 3)).toNat := by
  intro j hj
  simp only [looks] at hj
  split_ifs at hj <;>
    simp only [List.mem_append, List.mem_cons, List.not_mem_nil, List.mem_range'_1,
      or_false] at hj <;> omega

/-! The whole scan. -/

theorem result_of_first_hit {m : ℕ → UInt8} {i n : ℕ} (hit : Hit m i) :
    ∀ k, k ≤ i → i < k + n → (∀ j, k ≤ j → j < i → ¬ Hit m j) →
      (hrGetFrameDataLoop (fun _ => true) k n).result m = some (frameAt m i) := by
  induction n with
  | zero => intro k h1 h2; omega
  | succ n ih =>
    intro k h1 h2 hno
    rcases Nat.eq_or_lt_of_le h1 with rfl | hlt
    · exact result_of_hit hit
    · rw [result_of_not_hit (hno k le_rfl hlt)]
      exact ih (k + 1) hlt (by omega) fun j hj => hno j (by omega)

theorem result_of_no_hit {m : ℕ → UInt8} {n : ℕ} :
    ∀ k, (∀ j, k ≤ j → j < k + n → ¬ Hit m j) →
      (hrGetFrameDataLoop (fun _ => true) k n).result m = none := by
  induction n with
  | zero => intro k _; rfl
  | succ n ih =>
    intro k hno
    rw [result_of_not_hit (hno k le_rfl (by omega))]
    exact ih (k + 1) fun j h1 h2 => hno j (by omega) (by omega)

/-- Every index before the first hit is looked at. -/
theorem looks_subset_events {m : ℕ → UInt8} {i n : ℕ} :
    ∀ k, k ≤ i → i < k + n → (∀ j, k ≤ j → j < i → ¬ Hit m j) →
      ∀ x ∈ looks m i, x ∈ (hrGetFrameDataLoop (fun _ => true) k n).events m := by
  induction n with
  | zero => intro k h1 h2; omega
  | succ n ih =>
    intro k h1 h2 hno x hx
    rw [events_loop, List.mem_append]
    rcases Nat.eq_or_lt_of_le h1 with rfl | hlt
    · exact Or.inl hx
    · right
      rw [if_neg (hno k le_rfl hlt)]
      exact ih (k + 1) hlt (by omega) (fun j hj => hno j (by omega)) x hx

/-- And nothing but what those indices account for. -/
theorem events_subset_looks {m : ℕ → UInt8} {n x : ℕ} :
    ∀ k, x ∈ (hrGetFrameDataLoop (fun _ => true) k n).events m →
      ∃ i, k ≤ i ∧ i < k + n ∧ (∀ j, k ≤ j → j < i → ¬ Hit m j) ∧ x ∈ looks m i := by
  induction n with
  | zero => intro k hx; exact absurd hx (List.not_mem_nil)
  | succ n ih =>
    intro k hx
    rw [events_loop, List.mem_append] at hx
    rcases hx with hx | hx
    · exact ⟨k, le_rfl, by omega, fun j h1 h2 => by omega, hx⟩
    · by_cases hit : Hit m k
      · rw [if_pos hit] at hx
        exact absurd hx (List.not_mem_nil)
      · rw [if_neg hit] at hx
        obtain ⟨i, h1, h2, hno, hx⟩ := ih (k + 1) hx
        refine ⟨i, by omega, by omega, fun j hkj hji => ?_, hx⟩
        rcases Nat.eq_or_lt_of_le hkj with rfl | hlt
        · exact hit
        · exact hno j hlt hji

/-- The read log of the scan is complete: the result depends on those bytes only. -/
theorem honest_hrGetFrameDataLoop (rtMalloc : UInt8 → Bool) (i n : ℕ) :
    ReadM.Honest (hrGetFrameDataLoop rtMalloc i n) := by
  induction n generalizing i with
  | zero => exact ReadM.honest_pure none
  | succ n ih =>
    refine ReadM.honest_bind (ReadM.honest_load i) fun b => ReadM.honest_ite ?_ (ih _)
    refine ReadM.honest_bind (ReadM.honest_load _) fun len => ?_
    refine ReadM.honest_bind (ReadM.honest_load _) fun tail => ReadM.honest_ite ?_ (ih _)
    refine ReadM.honest_bind (honest_hrCheckSum _ _) fun checkSum => ?_
    refine ReadM.honest_bind (ReadM.honest_load _) fun sent => ReadM.honest_ite ?_ (ih _)
    refine ReadM.honest_ite ?_ (ReadM.honest_pure none)
    refine ReadM.honest_bind (ReadM.honest_load _) fun c1 => ?_
    refine ReadM.honest_bind (ReadM.honest_load _) fun c2 => ?_
    exact ReadM.honest_bind (ReadM.honest_loads _ _) fun data => ReadM.honest_pure _

/-- What is asked of a scan of the first `srcLen` bytes of `m`. -/
structure ScanRight (m : ℕ → UInt8) (srcLen : UInt8) : Prop where
  reads : ∀ x ∈ (hrGetFrameData (fun _ => true) srcLen).events m, x < srcLen.toNat
  found : (hrGetFrameData (fun _ => true) srcLen).result m ≠ none ↔
    ∃ i, Complete m srcLen.toNat i
  least : ∀ i, IsLeast {i | Complete m srcLen.toNat i} i →
    (hrGetFrameData (fun _ => true) srcLen).result m = some (frameAt m i)

/-- No header byte before the end of the first complete frame announces a frame
that is longer than what was received. -/
def NoOverrun (m : ℕ → UInt8) (n : ℕ) : Prop :=
  ∀ i < n, m i = FRAME_HEADER → (∃ j < i, Complete m n j) ∨ i + 6 + (m (i + 3)).toNat ≤ n

/-- The first hit is then a complete frame. -/
theorem complete_of_first_hit {m : ℕ → UInt8} {n i : ℕ} (h : NoOverrun m n) (hi : i < n)
    (hit : Hit m i) (hno : ∀ j < i, ¬ Hit m j) : Complete m n i := by
  rcases h i hi hit.1 with ⟨j, hj, hc⟩ | hle
  · exact absurd hc.1 (hno j hj)
  · exact ⟨hit, hle⟩

theorem scanRight_of_noOverrun {m : ℕ → UInt8} {srcLen : UInt8} (h : NoOverrun m srcLen.toNat) :
    ScanRight m srcLen := by
  have least : ∀ i, IsLeast {i | Complete m srcLen.toNat i} i →
      (hrGetFrameData (fun _ => true) srcLen).result m = some (frameAt m i) := by
    intro i hleast
    have hc : Complete m srcLen.toNat i := hleast.1
    refine result_of_first_hit hc.1 0 (Nat.zero_le i) (by have := hc.2; omega) ?_
    intro j _ hji
    induction j using Nat.strong_induction_on with
    | _ j ih =>
      intro hit
      have hj := complete_of_first_hit h (by have := hc.2; omega) hit
        fun k hk => ih k hk (Nat.zero_le k) (hk.trans hji)
      exact absurd (hleast.2 hj) (by omega)
  refine ⟨?_, ?_, least⟩
  · intro x hx
    obtain ⟨i, -, hi, hno, hx⟩ := events_subset_looks 0 hx
    have hle := looks_le m i x hx
    by_cases h0 : m i = FRAME_HEADER
    · rcases h i (by omega) h0 with ⟨j, hj, hc⟩ | hfit
      · exact absurd hc.1 (hno j (Nat.zero_le j) hj)
      · omega
    · rw [looks_of_not_header h0, List.mem_singleton] at hx
      omega
  · constructor
    · intro hsome
      by_contra hnone
      apply hsome
      refine result_of_no_hit 0 fun j _ hj => ?_
      induction j using Nat.strong_induction_on with
      | _ j ih =>
        intro hit
        exact hnone ⟨j, complete_of_first_hit h (by omega) hit
          fun k hk => ih k hk (Nat.zero_le k) (by omega)⟩
    · intro hex
      rw [least (Nat.find hex) ⟨Nat.find_spec hex, fun j hj => Nat.find_min' hex hj⟩]
      exact Option.some_ne_none _

theorem noOverrun_of_scanRight {m : ℕ → UInt8} {srcLen : UInt8} (h : ScanRight m srcLen) :
    NoOverrun m srcLen.toNat := by
  intro i
  induction i using Nat.strong_induction_on with
  | _ i ih =>
    intro hi h0
    by_contra hne
    rw [not_or, not_le] at hne
    obtain ⟨hnone, hlong⟩ := hne
    -- the scan gets as far as `i` and looks for the tail beyond the received bytes
    have hno : ∀ j, 0 ≤ j → j < i → ¬ Hit m j := by
      intro j _ hj hit
      rcases ih j hj (by omega) hit.1 with ⟨k, hk, hc⟩ | hfit
      · exact hnone ⟨k, by omega, hc⟩
      · exact hnone ⟨j, hj, hit, hfit⟩
    have hx := h.reads _ (looks_subset_events 0 (Nat.zero_le i) (by omega) hno _
      (tail_mem_looks h0))
    omega

/-- `HR_GetFrameData` is right on exactly the buffers without an overrun. -/
theorem scanRight_iff_noOverrun (m : ℕ → UInt8) (srcLen : UInt8) :
    ScanRight m srcLen ↔ NoOverrun m srcLen.toNat :=
  ⟨noOverrun_of_scanRight, scanRight_of_noOverrun⟩

/-- A set-time command left in the receive buffer by an earlier wake-up. -/
def staleBuffer : List UInt8 :=
  [0xAA, 0x00, 0x0A, 0x07, 0x07, 0xE8, 0x03, 0x19, 0x11, 0x22, 0x38, 0x31, 0x55]

/-- Its first six bytes are completed by the leftovers and accepted. -/
theorem not_scanRight_stale : ¬ ScanRight (staleBuffer.getD · 0) 6 := by
  intro h
  have hsome : (hrGetFrameData (fun _ => true) 6).result (staleBuffer.getD · 0) ≠ none := by
    decide
  obtain ⟨i, hi⟩ := h.found.mp hsome
  have hle : i + 6 ≤ 6 := (Nat.le_add_right _ _).trans hi.2
  obtain rfl : i = 0 := by omega
  exact absurd hi.2 (by decide)

end Detector
