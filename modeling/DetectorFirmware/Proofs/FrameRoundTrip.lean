import Mathlib.Data.List.GetD
import DetectorFirmware.Proofs.FrameScan

/-! `HR_GetFrameData` finds what `HR_GenerateRawFrame` built, behind any bytes that
are not header bytes and in front of any bytes at all. -/

namespace Detector

open EventLog

/-! The generator fills its zeroed buffer from the front. -/

theorem store_next {buf : Vector UInt8 256} {pre : List UInt8} {k : ℕ}
    (h : buf.toList = pre ++ List.replicate (k + 1) 0) (b : UInt8) :
    ∃ buf', store buf pre.length b = some buf' ∧
      buf'.toList = (pre ++ [b]) ++ List.replicate k 0 := by
  have hlen : pre.length + (k + 1) = 256 := by
    have := congrArg List.length h
    simpa using this.symm
  have hin : (0 : ℤ) ≤ pre.length ∧ (pre.length : ℤ) < 256 := by omega
  refine ⟨buf.set pre.length b (by omega), ?_, ?_⟩
  · rw [store, dif_pos hin]
    rfl
  · rw [Vector.toList_set, h, List.set_append_right _ _ le_rfl, Nat.sub_self,
      List.replicate_succ, List.set_cons_zero, List.append_assoc, List.singleton_append]

theorem storeAll_next {buf : Vector UInt8 256} {pre : List UInt8} (bs : List UInt8) {k : ℕ}
    (h : buf.toList = pre ++ List.replicate (bs.length + k) 0) :
    ∃ buf', storeAll buf pre.length bs = some buf' ∧
      buf'.toList = (pre ++ bs) ++ List.replicate k 0 := by
  induction bs generalizing buf pre with
  | nil => exact ⟨buf, rfl, by simpa using h⟩
  | cons b bs ih =>
    rw [List.length_cons, Nat.add_right_comm] at h
    obtain ⟨buf1, h1, hbuf1⟩ := store_next h b
    obtain ⟨buf2, h2, hbuf2⟩ := ih hbuf1
    refine ⟨buf2, ?_, by simpa using hbuf2⟩
    rw [List.length_append, List.length_singleton, Nat.cast_add, Nat.cast_one] at h2
    simp only [storeAll, h1, Option.bind_eq_bind, Option.bind_some, h2]

/-- The frame without its checksum and tail. -/
def frameHead (c1 c2 : UInt8) (payload : List UInt8) : List UInt8 :=
  [FRAME_HEADER, c1, c2, UInt8.ofNat payload.length] ++ payload

def checkSumOf (bytes : List UInt8) : UInt8 :=
  (hrCheckSum 0 bytes.length).result fun i => bytes.getD i 0

/-- The bytes of a frame on the wire. -/
def wireFrame (c1 c2 : UInt8) (payload : List UInt8) : List UInt8 :=
  frameHead c1 c2 payload ++ [checkSumOf (frameHead c1 c2 payload), FRAME_TAIL]

@[simp] theorem frameHead_length (c1 c2 : UInt8) (payload : List UInt8) :
    (frameHead c1 c2 payload).length = payload.length + 4 := by
  rw [frameHead, List.length_append, Nat.add_comm]
  rfl

@[simp] theorem wireFrame_length (c1 c2 : UInt8) (payload : List UInt8) :
    (wireFrame c1 c2 payload).length = payload.length + 6 := by
  simp [wireFrame]

theorem wireFrame_inj {c1 c2 : UInt8} {p q : List UInt8}
    (h : wireFrame c1 c2 p = wireFrame c1 c2 q) : p = q := by
  have hhead : frameHead c1 c2 p = frameHead c1 c2 q := List.append_inj_left' h rfl
  exact List.append_inj_right hhead rfl

/-- Two buffers that agree on the summed bytes have the same checksum. -/
theorem hrCheckSum_congr {m m' : ℕ → UInt8} {i i' n : ℕ} (h : ∀ j < n, m (i + j) = m' (i' + j)) :
    (hrCheckSum i n).result m = (hrCheckSum i' n).result m' := by
  apply UInt8.toNat_inj.mp
  rw [hrCheckSum_result, hrCheckSum_result]
  congr 1
  exact Finset.sum_congr rfl fun j hj => by rw [h j (Finset.mem_range.mp hj)]

/-- For payloads that leave the length byte room, no store misses the buffer. -/
theorem hrGenerateRawFrame_eq (c1 c2 : UInt8) (payload : List UInt8)
    (h : payload.length + 6 ≤ 255) :
    ∃ raw, hrGenerateRawFrame c1 c2 payload (UInt8.ofNat payload.length) = some raw ∧
      raw.len.toNat = payload.length + 6 ∧ raw.sent = wireFrame c1 c2 payload := by
  set n := payload.length with hn
  have hsrc : (UInt8.ofNat n).toNat = n := by rw [UInt8.toNat_ofNat']; omega
  have hlen : (UInt8.ofNat n + 6).toNat = n + 6 := by
    rw [UInt8.toNat_add, hsrc, show (6 : UInt8).toNat = 6 from rfl]
    omega
  have hzero : (Vector.replicate 256 (0 : UInt8)).toList = [] ++ List.replicate (255 + 1) 0 := by
    rw [Vector.toList_replicate, List.nil_append]
  obtain ⟨b0, e0, h0⟩ := store_next hzero FRAME_HEADER
  obtain ⟨b1, e1, h1⟩ := store_next h0 c1
  obtain ⟨b2, e2, h2⟩ := store_next h1 c2
  obtain ⟨b3, e3, h3⟩ := store_next h2 (UInt8.ofNat n)
  obtain ⟨b4, e4, h4⟩ := storeAll_next payload (k := 250 - n + 1 + 1)
    (by rw [h3, ← hn, show n + (250 - n + 1 + 1) = 252 by omega])
  have hhead : ([] ++ [FRAME_HEADER] ++ [c1] ++ [c2] ++ [UInt8.ofNat n] ++ payload) =
      frameHead c1 c2 payload := rfl
  rw [hhead] at h4
  obtain ⟨b5, e5, h5⟩ := store_next h4 (checkSumOf (frameHead c1 c2 payload))
  obtain ⟨b6, e6, h6⟩ := store_next h5 FRAME_TAIL
  have hsum : (hrCheckSum 0 (n + 6 - 2)).result (fun i => b4.toList.getD i 0) =
      checkSumOf (frameHead c1 c2 payload) := by
    rw [checkSumOf, frameHead_length, ← hn]
    refine hrCheckSum_congr fun j hj => ?_
    rw [h4, List.getD_append _ _ _ _ (by rw [frameHead_length]; omega)]
  rw [frameHead_length, ← hn] at e5
  rw [List.length_append, frameHead_length, ← hn, List.length_singleton] at e6
  refine ⟨⟨UInt8.ofNat n + 6, b6⟩, ?_, hlen, ?_⟩
  · have i5 : ((n + 6 : ℕ) : ℤ) - 2 = ((n + 4 : ℕ) : ℤ) := by omega
    have i6 : ((n + 6 : ℕ) : ℤ) - 1 = ((n + 4 + 1 : ℕ) : ℤ) := by omega
    simp only [hrGenerateRawFrame, hsrc, hlen, i5, i6, List.take_of_length_le hn.ge]
    simp only [List.length_nil, List.length_append, List.length_singleton, Nat.cast_zero,
      Nat.zero_add, Nat.cast_one, Nat.cast_ofNat, Nat.reduceAdd] at e0 e1 e2 e3 e4
    simp only [e0, e1, e2, e3, e4, Option.bind_eq_bind, Option.bind_some]
    rw [hsum, e5, Option.bind_some, e6, Option.bind_some]
    rfl
  · have hwire : frameHead c1 c2 payload ++ [checkSumOf (frameHead c1 c2 payload)] ++ [FRAME_TAIL] =
        wireFrame c1 c2 payload := by
      rw [wireFrame, List.append_assoc, List.singleton_append]
    rw [TsRawFrameData.sent, h6, hlen, hwire]
    exact List.take_left' (wireFrame_length c1 c2 payload)

/-! The scanner on a buffer with a frame in it. -/

/-- A wire frame at `i` is a hit, and the frame there is the one that was encoded. -/
theorem hit_of_wireFrame {m : ℕ → UInt8} {i : ℕ} {c1 c2 : UInt8} {payload : List UInt8}
    (hlen : payload.length < 256)
    (hm : ∀ j < payload.length + 6, m (i + j) = (wireFrame c1 c2 payload).getD j 0) :
    Hit m i ∧ m (i + 1) = c1 ∧ m (i + 2) = c2 ∧ (m (i + 3)).toNat = payload.length ∧
      (frameAt m i).data = payload := by
  have h0 : m i = FRAME_HEADER := hm 0 (by omega)
  have h1 : m (i + 1) = c1 := hm 1 (by omega)
  have h2 : m (i + 2) = c2 := hm 2 (by omega)
  have h3 : (m (i + 3)).toNat = payload.length := by
    rw [hm 3 (by omega), show (wireFrame c1 c2 payload).getD 3 0 = UInt8.ofNat payload.length from rfl,
      UInt8.toNat_ofNat', Nat.mod_eq_of_lt hlen]
  have hhead : ∀ j < payload.length + 4, m (i + j) = (frameHead c1 c2 payload).getD j 0 := by
    intro j hj
    rw [hm j (by omega), wireFrame, List.getD_append _ _ _ _ (by rwa [frameHead_length])]
  have htail : ∀ j, (wireFrame c1 c2 payload).getD (payload.length + 4 + j) 0 =
      [checkSumOf (frameHead c1 c2 payload), FRAME_TAIL].getD j 0 := by
    intro j
    rw [wireFrame, List.getD_append_right _ _ _ _ (by rw [frameHead_length]; omega),
      frameHead_length, Nat.add_sub_cancel_left]
  have hdata : ∀ j < payload.length, m (i + 4 + j) = payload.getD j 0 := by
    intro j hj
    rw [show i + 4 + j = i + (4 + j) by omega, hhead (4 + j) (by omega), Nat.add_comm 4 j]
    rfl
  refine ⟨(hit_iff m i).mpr ⟨h0, ?_, ?_⟩, h1, h2, h3, ?_⟩
  · rw [h3, show i + 3 + payload.length + 2 = i + (payload.length + 4 + 1) by omega,
      hm _ (by omega), htail 1]
    rfl
  · rw [h3, show i + 3 + payload.length + 1 = i + (payload.length + 4 + 0) by omega,
      hm _ (by omega), htail 0]
    change checkSumOf (frameHead c1 c2 payload) = _
    rw [checkSumOf, frameHead_length, Nat.add_comm payload.length 4]
    exact hrCheckSum_congr fun j hj => by rw [Nat.zero_add, hhead j (by omega)]
  · refine List.ext_getElem (by simp [frameAt, h3]) fun j hj hj' => ?_
    simp only [frameAt, List.getElem_map, List.getElem_range]
    rw [hdata j hj', List.getD_eq_getElem _ _ hj']

/-- Decoding undoes encoding, whatever follows the frame and whatever precedes it
that does not look like a header. -/
theorem frame_roundtrip (c1 c2 : UInt8) (payload pre post : List UInt8) (rest : ℕ → UInt8)
    (hpre : ∀ b ∈ pre, b ≠ FRAME_HEADER)
    (hlen : pre.length + payload.length + 6 + post.length ≤ 255) :
    ∃ raw, hrGenerateRawFrame c1 c2 payload (UInt8.ofNat payload.length) = some raw ∧
      raw.len.toNat = payload.length + 6 ∧
      ∃ frame, (hrGetFrameData (fun _ => true) (UInt8.ofNat (pre ++ raw.sent ++ post).length)).result
          (fun i => (pre ++ raw.sent ++ post).getD i (rest i)) = some frame ∧
        frame.c1 = c1 ∧ frame.c2 = c2 ∧ frame.len.toNat = payload.length ∧
        frame.data = payload := by
  obtain ⟨raw, hraw, hrawlen, hsent⟩ := hrGenerateRawFrame_eq c1 c2 payload (by omega)
  refine ⟨raw, hraw, hrawlen, ?_⟩
  rw [hsent]
  set m : ℕ → UInt8 := fun i => (pre ++ wireFrame c1 c2 payload ++ post).getD i (rest i) with hm
  have hframe : ∀ j < payload.length + 6,
      m (pre.length + j) = (wireFrame c1 c2 payload).getD j 0 := by
    intro j hj
    have hj' : j < (wireFrame c1 c2 payload).length := by rwa [wireFrame_length]
    simp only [hm, List.append_assoc]
    rw [List.getD_append_right _ _ _ _ (by omega), Nat.add_sub_cancel_left,
      List.getD_append _ _ _ _ hj', List.getD_eq_getElem _ _ hj', List.getD_eq_getElem _ _ hj']
  have hbefore : ∀ j < pre.length, ¬ Hit m j := by
    intro j hj hit
    have h0 := hit.1
    simp only [hm, List.append_assoc] at h0
    rw [List.getD_append _ _ _ _ hj, List.getD_eq_getElem _ _ hj] at h0
    exact hpre _ (List.getElem_mem hj) h0
  obtain ⟨hit, h1, h2, h3, hdata⟩ := hit_of_wireFrame (by omega) hframe
  have hsrc : (UInt8.ofNat (pre ++ wireFrame c1 c2 payload ++ post).length).toNat =
      pre.length + payload.length + 6 + post.length := by
    simp only [List.length_append, wireFrame_length, UInt8.toNat_ofNat']
    omega
  refine ⟨frameAt m pre.length, ?_, h1, h2, h3, hdata⟩
  rw [hrGetFrameData, hsrc]
  exact result_of_first_hit hit 0 (Nat.zero_le _) (by omega) fun j _ hj => hbefore j hj

/-- A set-alarm command behind two stray bytes and before a second header byte. -/
theorem frame_roundtrip_setAlarm :
    ∃ raw, hrGenerateRawFrame 0 0x0D [0x0B, 0xB8] (UInt8.ofNat [(0x0B : UInt8), 0xB8].length) =
        some raw ∧ raw.len.toNat = [(0x0B : UInt8), 0xB8].length + 6 ∧
      ∃ frame, (hrGetFrameData (fun _ => true)
            (UInt8.ofNat ([0x55, 0x00] ++ raw.sent ++ [0xAA]).length)).result
          (fun i => ([0x55, 0x00] ++ raw.sent ++ [0xAA]).getD i ((fun _ => 0xFF) i)) = some frame ∧
        frame.c1 = 0 ∧ frame.c2 = 0x0D ∧ frame.len.toNat = [(0x0B : UInt8), 0xB8].length ∧
        frame.data = [0x0B, 0xB8] := by
  have hstray : ∀ b ∈ [(0x55 : UInt8), 0x00], b ≠ FRAME_HEADER := by
    rw [List.forall_mem_cons, List.forall_mem_singleton]
    decide
  exact frame_roundtrip 0 0x0D [0x0B, 0xB8] [0x55, 0x00] [0xAA] (fun _ => 0xFF) hstray (by decide)

end Detector
