import DetectorFirmware.Proofs.Append

/-! What the log keeps, and for how long. Up to 65535 calls every write finds erased
half-words and the newest records are all there; after that the sixteen-bit index
is used up and no further record can become the newest. -/

namespace Detector

open EventLog EraseAheadRing

variable {record : TeRecord} {f : Flash} {n : ℕ}

/-- The ring keeps as many records as the type promises. -/
theorem live_of_capacity (record : TeRecord) {k : ℕ} (hk : k ≤ n)
    (hcap : n - min n (hrRecordMaxNum record) < k) : k ∈ LiveRecords record n := by
  rcases capacity_eq record with h | ⟨h, -⟩
  · exact live_of_recent (by decide) (by omega) hk (by omega)
  · obtain rfl : k = n := by omega
    exact live_self (by omega)

theorem recorded_logAfter (clock : ℕ → Rtc) (hf : Blank record f) (hn : n ≤ 65535) {k : ℕ}
    (hk : k ∈ LiveRecords record n) :
    Recorded record k (stamp (clock (k - 1))) (logAfter record clock f n) :=
  recorded_iff.mpr ((logAt_logAfter clock hf hn).holds.stored k hk)

theorem maxIndex_logAfter (clock : ℕ → Rtc) (hf : Blank record f) (hn : n ≤ 65535) :
    flashGetMaxIndexRecords record (logAfter record clock f n) = n :=
  (logAt_logAfter clock hf hn).maxIndex (by omega)

theorem numRecords_of_maxIndex (h : flashGetMaxIndexRecords record f = n) :
    flashGetNumRecords record f = min n (hrRecordMaxNum record) := by
  have hcap : hrRecordMaxNum record < 256 := by cases record <;> decide
  rw [flashGetNumRecords, h]
  by_cases hle : n ≤ hrRecordMaxNum record
  · rw [if_pos hle, Nat.min_eq_left hle]
    exact Nat.mod_eq_of_lt (by omega)
  · rw [if_neg hle, Nat.min_eq_right (by omega)]

/-- Every write of a run finds erased half-words, the counts are right, and the last
records of the type are complete in their slots. -/
theorem log_retention (record : TeRecord) (clock : ℕ → Rtc) {f : Flash} (hf : Blank record f)
    {n : ℕ} (h1 : 1 ≤ n) (hn : n ≤ 65535) :
    (∀ i < n,
      Steps CleanProgram (logAfter record clock f i)
        ((flashWriteRecord record (clock i)).events (logAfter record clock f i)) ∧
      Steps ReadsBack (logAfter record clock f i)
        ((flashWriteRecord record (clock i)).events (logAfter record clock f i))) ∧
    flashGetMaxIndexRecords record (logAfter record clock f n) = n ∧
    flashGetNumRecords record (logAfter record clock f n) = min n (hrRecordMaxNum record) ∧
    ∀ k, n - min n (hrRecordMaxNum record) < k → k ≤ n →
      Recorded record k (stamp (clock (k - 1))) (logAfter record clock f n) := by
  have hmax := maxIndex_logAfter clock hf hn
  refine ⟨?_, hmax, numRecords_of_maxIndex hmax, ?_⟩
  · intro i hi
    have hclean := (logAt_logAfter clock hf (by omega : i ≤ 65535)).append_clean (by omega) (clock i)
    exact ⟨hclean, hclean.mono fun _ _ => readsBack_of_clean⟩
  · intro k hcap hk
    exact recorded_logAfter clock hf hn (live_of_capacity record hk hcap)

theorem blank_blankFlash (record : TeRecord) : Blank record blankFlash := fun _ _ _ => rfl

/-- One hour after the counter's origin. -/
def startupRtc : Rtc := coldStart 3600 (fun _ => 0) (fun _ => 0)

theorem log_retention_wrapped :
    (∀ i < 300,
      Steps CleanProgram (logAfter .kRecordAlarm (fun _ => startupRtc) blankFlash i)
        ((flashWriteRecord .kRecordAlarm startupRtc).events
          (logAfter .kRecordAlarm (fun _ => startupRtc) blankFlash i)) ∧
      Steps ReadsBack (logAfter .kRecordAlarm (fun _ => startupRtc) blankFlash i)
        ((flashWriteRecord .kRecordAlarm startupRtc).events
          (logAfter .kRecordAlarm (fun _ => startupRtc) blankFlash i))) ∧
    flashGetMaxIndexRecords .kRecordAlarm (logAfter .kRecordAlarm (fun _ => startupRtc) blankFlash 300)
      = 300 ∧
    flashGetNumRecords .kRecordAlarm (logAfter .kRecordAlarm (fun _ => startupRtc) blankFlash 300)
      = 200 ∧
    ∀ k, 100 < k → k ≤ 300 →
      Recorded .kRecordAlarm k (stamp startupRtc)
        (logAfter .kRecordAlarm (fun _ => startupRtc) blankFlash 300) :=
  log_retention .kRecordAlarm (fun _ => startupRtc) (blank_blankFlash _) (by decide) (by decide)

/-! The end of the index. -/

/-- The call stores the frame of record `index`, which was not there before, and
makes it the newest. -/
structure MakesNewest (record : TeRecord) (index : ℕ) (t : TsRtcDateTime) (before after : Flash) :
    Prop where
  stored : Recorded record index t after
  new : ¬ Recorded record index t before
  newest : flashGetMaxIndexRecords record after = index

/-- Call `n + 1` makes a record with the current date the newest one and keeps the
records before it that the type still has room for. -/
def KeepsWorking (record : TeRecord) (clock : ℕ → Rtc) (f : Flash) (n : ℕ) : Prop :=
  (∃ index, MakesNewest record index (stamp (clock n)) (logAfter record clock f n)
    (logAfter record clock f (n + 1))) ∧
  ∀ k, n - min n (hrRecordMaxNum record - 1) < k → k ≤ n →
    Recorded record k (stamp (clock (k - 1))) (logAfter record clock f (n + 1))

theorem le_maxIndex_of_words {k : ℕ} {b : RecordBody} (hk : k < 65536)
    (h : f.words (recordCell record k) 5 = slotWords k b) : k ≤ flashGetMaxIndexRecords record f := by
  obtain ⟨h0, h1⟩ := header_of_words h
  have := (maxIndex_le_iff record f _).mp le_rfl _ (recordPage_lt record k) _ (recordSlot_lt k) h0
  rw [h1, UInt16.toNat_ofNat'] at this
  omega

theorem keepsWorking_of_lt (clock : ℕ → Rtc) (hf : Blank record f) (hn : n < 65535) :
    KeepsWorking record clock f n := by
  have hsucc : n + 1 ≤ 65535 := hn
  refine ⟨⟨n + 1, ?_, ?_, maxIndex_logAfter clock hf hsucc⟩, ?_⟩
  · exact recorded_logAfter clock hf hsucc (live_self (Nat.succ_pos n))
  · intro h
    have hle := le_maxIndex_of_words (by omega) (recorded_iff.mp h)
    rw [maxIndex_logAfter clock hf hn.le] at hle
    omega
  · intro k hcap hk
    exact recorded_logAfter clock hf hsucc (live_of_capacity record (by omega) (by omega))

theorem maxIndex_le (record : TeRecord) (f : Flash) : flashGetMaxIndexRecords record f ≤ 65535 :=
  (maxIndex_le_iff record f 65535).mpr fun _ _ _ _ _ => Nat.le_of_lt_succ (UInt16.toNat_lt _)

theorem maxIndex_of_full {b : RecordBody}
    (h : f.words (recordCell record 65535) 5 = slotWords 65535 b) :
    flashGetMaxIndexRecords record f = 65535 :=
  le_antisymm (maxIndex_le record f) (le_maxIndex_of_words (by decide) h)

/-- The index after 65535 is 0, which the source puts into slot 20 of some page. -/
theorem flashWriteRecord_full (rtc : Rtc) (hmax : flashGetMaxIndexRecords record f = 65535) :
    ∃ page ws, ws.length ≤ 5 ∧ (flashWriteRecord record rtc).final f =
      replay f (programOps (slotCell record page 20) ws) := by
  have hahead : aheadOps record 65535 = [] := by
    rw [aheadOps, aheadPage, if_neg (by simp)]
  have haddr : hrStartAddr record + FLASH_PAGE_SIZE * pageOffset record 0 + inPageOffset 0 =
      2 * slotCell record (pageOffset record 0) 20 := slotAddr_eq record _ 20
  obtain ⟨k, -, hk, hloop⟩ := flashWriteLoop_events f (slotCell record (pageOffset record 0) 20)
    (slotWords 0 (bodyOf (stamp rtc)))
  refine ⟨pageOffset record 0, (slotWords 0 (bodyOf (stamp rtc))).take k,
    (List.length_take_le k _).trans hk, ?_⟩
  rw [Prog.final, flashWriteRecord_events hmax (by decide), hahead, List.nil_append, replay_nil]
  simp only [flashWriteRecordIndex, Nat.reduceAdd, Nat.reduceMod, Prog.events_bind,
    Prog.events_pure, List.append_nil, haddr, flashWrite_events, halfWords_recordFrame, hloop,
    replay_writeOps]

/-- The record with the largest index is in slot 9, so it stays. -/
theorem full_append {b : RecordBody} (rtc : Rtc)
    (h : f.words (recordCell record 65535) 5 = slotWords 65535 b) :
    ((flashWriteRecord record rtc).final f).words (recordCell record 65535) 5 =
      slotWords 65535 b := by
  obtain ⟨page, ws, hlen, hfinal⟩ := flashWriteRecord_full rtc (maxIndex_of_full h)
  rw [hfinal, ← h]
  refine words_congr fun j hj => replay_programOps_outside _ ?_
  have hslot : recordSlot 65535 ≠ 20 := by decide
  rcases slotCell_outside record (recordSlot_lt 65535) (by decide : 20 < 25) hj
    (fun he => hslot he.2 : ¬ (recordPage record 65535 = page ∧ recordSlot 65535 = 20)) with h | h
  · exact Or.inl h
  · exact Or.inr ((Nat.add_le_add_left hlen _).trans h)

theorem full_logAfter (clock : ℕ → Rtc) (hf : Blank record f) (hn : 65535 ≤ n) :
    (logAfter record clock f n).words (recordCell record 65535) 5 =
      slotWords 65535 (stamps clock 65535) := by
  induction n, hn using Nat.le_induction with
  | base => exact (logAt_logAfter clock hf le_rfl).holds.stored _ (live_self (by decide))
  | succ n hn ih => exact full_append (clock n) ih

theorem not_keepsWorking (clock : ℕ → Rtc) (hf : Blank record f) (hn : 65535 ≤ n) :
    ¬ KeepsWorking record clock f n := by
  rintro ⟨⟨index, hstored, hnew, hnewest⟩, -⟩
  have hbefore := full_logAfter clock hf hn
  have hafter := full_logAfter clock hf (Nat.le_succ_of_le hn)
  obtain rfl : 65535 = index := (maxIndex_of_full hafter).symm.trans hnewest
  apply hnew
  rw [recorded_iff] at hstored ⊢
  rw [hbefore, ← hafter, hstored]

/-- The log keeps working until its index is used up, and then never again. -/
theorem keepsWorking_iff (record : TeRecord) (clock : ℕ → Rtc) {f : Flash} (hf : Blank record f)
    (n : ℕ) : KeepsWorking record clock f n ↔ n < 65535 := by
  constructor
  · intro h
    by_contra hn
    exact not_keepsWorking clock hf (Nat.le_of_not_lt hn) h
  · exact keepsWorking_of_lt clock hf

theorem keepsWorking_first : KeepsWorking .kRecordFault (fun _ => startupRtc) blankFlash 0 :=
  (keepsWorking_iff .kRecordFault (fun _ => startupRtc) (blank_blankFlash _) 0).mpr (by decide)

theorem not_keepsWorking_full :
    ¬ KeepsWorking .kRecordPowerOn (fun _ => startupRtc) blankFlash 65535 :=
  not_keepsWorking _ (blank_blankFlash _) le_rfl

end Detector
