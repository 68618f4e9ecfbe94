import DetectorFirmware.Proofs.RecordLog

/-! One call of `Flash_Write_Record` on a log that holds record `n`, and any number of
calls on an erased region. `LogAt` is the invariant; the erase-ahead takes records out
of it and the write puts record `n + 1` in. -/

namespace Detector

open EventLog EraseAheadRing

variable {record : TeRecord} {A : Set ℕ} {body : ℕ → RecordBody} {f g : Flash} {n : ℕ}

/-! The two operations on the set of records. -/

theorem erasePage_slot (record : TeRecord) (f : Flash) (q : ℕ) {p s j : ℕ} (hs : s < 25)
    (hj : j < 5) : (f.erasePage (pageAddr record q)).cells (slotCell record p s + j) =
      if p = q then ERASED else f.cells (slotCell record p s + j) := by
  have hpage : pageAddr record q / 256 = hrStartAddr record / 256 + q := by
    have := hrStartAddr_eq record
    unfold pageAddr FLASH_PAGE_SIZE
    omega
  rw [erasePage_cells, slotCell_div record hs hj, hpage]
  simp only [Nat.add_left_cancel_iff]

theorem Holds.erase (h : Holds record A body f) (q : ℕ) :
    Holds record {k ∈ A | recordPage record k ≠ q} body (f.erasePage (pageAddr record q)) := by
  refine ⟨?_, ?_⟩
  · rintro k ⟨hk, hne⟩
    rw [← h.stored k hk]
    refine words_congr fun j hj => ?_
    rw [erasePage_slot record f q (recordSlot_lt k) hj, if_neg hne]
  · intro p hp s hs hfree j hj
    rw [erasePage_slot record f q hs hj]
    by_cases hpq : p = q
    · rw [if_pos hpq]
    · rw [if_neg hpq]
      refine h.blank p hp s hs (fun k hk he => ?_) j hj
      exact hfree k ⟨hk, fun hkq => hpq (he.1.symm.trans hkq)⟩ he

/-- A record written to a free slot joins the others. -/
theorem Holds.insert (h : Holds record A body f) {k : ℕ} {b : RecordBody}
    (hfree : ∀ i ∈ A, ¬ (recordPage record i = recordPage record k ∧ recordSlot i = recordSlot k))
    (hother : ∀ c, (c < recordCell record k ∨ recordCell record k + 5 ≤ c) →
      g.cells c = f.cells c)
    (hstored : g.words (recordCell record k) 5 = slotWords k b) :
    Holds record (insert k A) (Function.update body k b) g := by
  have hout : ∀ p s, s < 25 → ¬ (p = recordPage record k ∧ s = recordSlot k) →
      ∀ j < 5, g.cells (slotCell record p s + j) = f.cells (slotCell record p s + j) := by
    intro p s hs hps j hj
    exact hother _ (slotCell_outside record hs (recordSlot_lt k) hj hps)
  refine ⟨?_, ?_⟩
  · rintro i (rfl | hi)
    · rw [Function.update_self, hstored]
    · have hik : i ≠ k := by
        rintro rfl
        exact hfree i hi ⟨rfl, rfl⟩
      rw [Function.update_of_ne hik, ← h.stored i hi]
      exact words_congr (hout _ _ (recordSlot_lt i) (hfree i hi))
  · intro p hp s hs hno j hj
    have hk := hno k (Set.mem_insert k A)
    rw [hout p s hs (fun he => hk ⟨he.1.symm, he.2.symm⟩) j hj]
    exact h.blank p hp s hs (fun i hi => hno i (Set.mem_insert_of_mem k hi)) j hj

/-! The erase-ahead turns the page that the ring turns. -/

theorem aheadPage_eq_some {q : ℕ} (h : aheadPage record n = some q) :
    25 ∣ n + 1 ∧ (n + 1) / 25 % hrRecordPages record = q := by
  unfold aheadPage at h
  split_ifs at h with hturn
  injection h with hq
  exact ⟨by omega, hq⟩

theorem turns_iff {k : ℕ} (hk : k ∈ LiveRecords record n) :
    Turns 25 (hrRecordPages record) (n + 1) k ↔ aheadPage record n = some (recordPage record k) := by
  constructor
  · intro h
    have hround : ¬ (n + 1) / 25 < hrRecordPages record :=
      fun hlt => not_turns_of_first_round (by decide) hk.1 hk.2.1 hlt h
    obtain ⟨hdvd, hpage⟩ := h
    rw [aheadPage, if_pos ⟨by omega, Nat.le_of_not_lt hround⟩, hpage]
  · intro h
    exact aheadPage_eq_some h

/-- After the erase-ahead the region holds what the ring keeps of it. -/
theorem Holds.ahead (h : Holds record A body f) (hA : A ⊆ LiveRecords record n) :
    Holds record (A ∩ LiveRecords record (n + 1)) body (replay f (aheadOps record n)) := by
  have hkeep : ∀ k ∈ A, k ∈ LiveRecords record (n + 1) ↔
      aheadPage record n ≠ some (recordPage record k) := by
    intro k hk
    have hle : k ≤ n := (hA hk).2.1
    rw [LiveRecords, live_succ, turns_iff (hA hk)]
    constructor
    · rintro (rfl | ⟨-, hne⟩)
      · omega
      · exact hne
    · intro hne
      exact Or.inr ⟨hA hk, hne⟩
  cases hq : aheadPage record n with
  | none =>
    have hall : A ∩ LiveRecords record (n + 1) = A :=
      Set.inter_eq_left.mpr fun k hk => (hkeep k hk).mpr (by rw [hq]; exact Option.some_ne_none _ |>.symm)
    rw [hall, aheadOps, hq]
    exact h
  | some q =>
    have hsome : A ∩ LiveRecords record (n + 1) = {k ∈ A | recordPage record k ≠ q} := by
      ext k
      refine and_congr_right fun hk => ?_
      rw [hkeep k hk, hq]
      exact ⟨fun hne he => hne (congrArg some he.symm), fun hne he => hne (Option.some.inj he).symm⟩
    rw [hsome, aheadOps, hq]
    exact h.erase q

/-! The invariant. -/

/-- The region holds the records of `A`, the newest of which is record `n`. -/
structure LogAt (record : TeRecord) (n : ℕ) (A : Set ℕ) (body : ℕ → RecordBody) (f : Flash) :
    Prop where
  holds : Holds record A body f
  live : A ⊆ LiveRecords record n
  newest : 0 < n → n ∈ A

theorem logAt_blank (h : Blank record f) (body : ℕ → RecordBody) : LogAt record 0 ∅ body f :=
  ⟨holds_of_blank h body, Set.empty_subset _, fun h0 => absurd h0 (Nat.lt_irrefl 0)⟩

theorem LogAt.maxIndex (h : LogAt record n A body f) (hn : n < 65536) :
    flashGetMaxIndexRecords record f = n :=
  h.holds.maxIndex_eq (fun _ hk => (h.live hk).2.1) h.newest hn

/-- After the erase-ahead the slot of the next record is free. -/
theorem LogAt.free (h : LogAt record n A body f) (k : ℕ)
    (hk : k ∈ A ∩ LiveRecords record (n + 1)) :
    ¬ (recordPage record k = recordPage record (n + 1) ∧ recordSlot k = recordSlot (n + 1)) := by
  rintro ⟨hpage, hslot⟩
  obtain ⟨hkA, hkL⟩ := hk
  have hle : k ≤ n := (h.live hkA).2.1
  have hturn : ¬ Turns 25 (hrRecordPages record) (n + 1) k := hkL.2.2 (n + 1) (by omega) le_rfl
  exact slot_free (by decide) (h.live hkA) hturn hpage hslot

theorem LogAt.erased (h : LogAt record n A body f) (j : ℕ) (hj : j < 5) :
    (replay f (aheadOps record n)).cells (recordCell record (n + 1) + j) = ERASED :=
  (h.holds.ahead h.live).blank _ (recordPage_lt record (n + 1)) _ (recordSlot_lt (n + 1)) h.free
    j hj

/-- Record `n + 1`, once its five half-words are there, is the newest. -/
theorem LogAt.insert (h : LogAt record n A body f) {b : RecordBody}
    (hother : ∀ c, (c < recordCell record (n + 1) ∨ recordCell record (n + 1) + 5 ≤ c) →
      g.cells c = (replay f (aheadOps record n)).cells c)
    (hstored : g.words (recordCell record (n + 1)) 5 = slotWords (n + 1) b) :
    LogAt record (n + 1) (insert (n + 1) (A ∩ LiveRecords record (n + 1)))
      (Function.update body (n + 1) b) g := by
  refine ⟨(h.holds.ahead h.live).insert h.free hother hstored, ?_, fun _ => Set.mem_insert _ _⟩
  rintro k (rfl | hk)
  · exact live_self (Nat.succ_pos n)
  · exact hk.2

/-! The call. -/

/-- The date that the call gives the record. -/
def stamp (rtc : Rtc) : TsRtcDateTime := (bspGetRtcTime rtc).rtcDateTime

/-- The events of the write of record `k`. -/
def recordOps (record : TeRecord) (k : ℕ) (b : RecordBody) : List FlashOp :=
  writeOps (programOps (recordCell record k) (slotWords k b))

theorem recordAddr_eq (record : TeRecord) {k : ℕ} (h0 : 0 < k) (hk : k ≤ 65536) :
    hrStartAddr record + FLASH_PAGE_SIZE * pageOffset record k + inPageOffset k =
      2 * recordCell record k := by
  rw [pageOffset_eq record h0 hk, inPageOffset_eq h0 hk, slotAddr_eq]

/-- Over erased cells the whole frame is programmed. -/
theorem flashWriteRecordIndex_events (record : TeRecord) {k : ℕ} (h0 : 0 < k) (hk : k ≤ 65536)
    (t : TsRtcDateTime) (h : ∀ j < 5, f.cells (recordCell record k + j) = ERASED) :
    (flashWriteRecordIndex (recordFrame k t) record k).events f = recordOps record k (bodyOf t) := by
  have hwords := halfWords_recordFrame k t
  have hclean : ∀ j < (halfWords (recordFrame k t).buf).length,
      f.cells (recordCell record k + j) = ERASED := by
    rw [hwords]
    exact h
  simp only [flashWriteRecordIndex, recordAddr_eq record h0 hk, Prog.events_bind,
    (flashWrite_clean hclean).1, hwords, Prog.events_pure, List.append_nil, recordOps]

/-- What the call does once the largest index is known; the next index has 16 bits. -/
theorem flashWriteRecord_events (hmax : flashGetMaxIndexRecords record f = n) (hn : n < 65536)
    (rtc : Rtc) :
    (flashWriteRecord record rtc).events f = aheadOps record n ++
      (flashWriteRecordIndex (recordFrame ((n + 1) % 65536) (stamp rtc)) record
        ((n + 1) % 65536)).events (replay f (aheadOps record n)) := by
  have hahead : (eraseAhead record n).final f = replay f (aheadOps record n) := by
    rw [Prog.final, eraseAhead_events record hn]
  simp only [flashWriteRecord, Prog.events_bind, Prog.events_gets, Prog.result_gets,
    Prog.final_gets, List.nil_append, hmax, eraseAhead_events record hn, hahead, Prog.events_pure,
    List.append_nil, stamp]

theorem LogAt.append_events (h : LogAt record n A body f) (hn : n < 65535) (rtc : Rtc) :
    (flashWriteRecord record rtc).events f =
      aheadOps record n ++ recordOps record (n + 1) (bodyOf (stamp rtc)) := by
  have hnew : (n + 1) % 65536 = n + 1 := Nat.mod_eq_of_lt (by omega)
  rw [flashWriteRecord_events (h.maxIndex (by omega)) (by omega), hnew,
    flashWriteRecordIndex_events record (Nat.succ_pos n) (by omega) _ h.erased]

/-- Every half-word of the call is programmed into an erased one. -/
theorem LogAt.append_clean (h : LogAt record n A body f) (hn : n < 65535) (rtc : Rtc) :
    Steps CleanProgram f ((flashWriteRecord record rtc).events f) := by
  have hidle : ∀ (f : Flash) (op : FlashOp), op.changesMemory = false → CleanProgram f op := by
    intro f op hop
    cases op with
    | programHalfWord addr data => cases hop
    | _ => trivial
  rw [h.append_events hn, steps_append]
  refine ⟨?_, steps_writeOps hidle (steps_programOps h.erased)⟩
  rw [aheadOps]
  cases aheadPage record n with
  | none => trivial
  | some q => exact steps_eraseOps hidle trivial

theorem LogAt.append (h : LogAt record n A body f) (hn : n < 65535) (rtc : Rtc) :
    LogAt record (n + 1) (Insert.insert (n + 1) (A ∩ LiveRecords record (n + 1)))
      (Function.update body (n + 1) (bodyOf (stamp rtc))) ((flashWriteRecord record rtc).final f) := by
  have hfinal : (flashWriteRecord record rtc).final f = replay (replay f (aheadOps record n))
      (programOps (recordCell record (n + 1)) (slotWords (n + 1) (bodyOf (stamp rtc)))) := by
    rw [Prog.final, h.append_events hn, replay_append, recordOps, replay_writeOps]
  rw [hfinal]
  refine h.insert (fun c hc => replay_programOps_outside _ hc) ?_
  exact words_replay_programOps h.erased

/-! Runs. -/

/-- The flash after `n` calls; `clock i` is the calendar that call `i + 1` finds. -/
def logAfter (record : TeRecord) (clock : ℕ → Rtc) (f : Flash) : ℕ → Flash
  | 0 => f
  | n + 1 => (flashWriteRecord record (clock n)).final (logAfter record clock f n)

/-- What the records of a run carry. -/
def stamps (clock : ℕ → Rtc) (k : ℕ) : RecordBody := bodyOf (stamp (clock (k - 1)))

/-- After `n` calls on an erased region it holds the live records. -/
theorem logAt_logAfter (clock : ℕ → Rtc) (hf : Blank record f) (hn : n ≤ 65535) :
    LogAt record n (LiveRecords record n) (stamps clock) (logAfter record clock f n) := by
  induction n with
  | zero =>
    rw [LiveRecords, live_zero]
    exact logAt_blank hf (stamps clock)
  | succ n ih =>
    have hn' : n < 65535 := by omega
    have hset : Insert.insert (n + 1) (LiveRecords record n ∩ LiveRecords record (n + 1)) =
        LiveRecords record (n + 1) := by
      ext k
      constructor
      · rintro (rfl | hk)
        · exact live_self (Nat.succ_pos n)
        · exact hk.2
      · intro hk
        rcases live_succ.mp hk with rfl | hk'
        · exact Set.mem_insert _ _
        · exact Set.mem_insert_of_mem _ ⟨hk'.1, hk⟩
    have hbody : Function.update (stamps clock) (n + 1) (bodyOf (stamp (clock n))) = stamps clock :=
      Function.update_eq_self_iff.mpr rfl
    have happ := (ih hn'.le).append hn' (clock n)
    rwa [hset, hbody] at happ

end Detector
