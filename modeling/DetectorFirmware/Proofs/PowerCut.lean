import DetectorFirmware.Proofs.Retention

/-! A power cut inside `Flash_Write_Record`. Only the erase and the five half-word
programs change the memory, so a cut leaves the log untouched, the page erased, or
the page erased and a few half-words of the new record programmed. The state after
the header alone is the one the next boot misreads: the erased index word reads 58169. -/

namespace Detector

open EventLog EraseAheadRing

variable {record : TeRecord} {A : Set ℕ} {body : ℕ → RecordBody} {f : Flash} {n : ℕ}
  {t : List FlashOp} {b : RecordBody}

def FlashOp.isProgram : FlashOp → Bool
  | .programHalfWord _ _ => true
  | _ => false

/-- How many half-words a run has programmed. -/
def programs (t : List FlashOp) : ℕ := t.countP FlashOp.isProgram

theorem programs_memoryOps (t : List FlashOp) : programs (memoryOps t) = programs t := by
  rw [programs, memoryOps, List.countP_filter, programs]
  refine List.countP_congr fun op _ => ?_
  cases op <;> rfl

theorem programs_programOps (c : ℕ) (ws : List UInt16) : programs (programOps c ws) = ws.length := by
  induction ws generalizing c with
  | nil => rfl
  | cons w ws ih =>
    rw [programOps_cons, programs, List.countP_cons_of_pos rfl]
    exact congrArg (· + 1) (ih (c + 1))

theorem mem_memoryOps {addr : ℕ} :
    FlashOp.erasePageFast addr ∈ memoryOps t ↔ FlashOp.erasePageFast addr ∈ t := by
  simp [memoryOps, FlashOp.changesMemory]

theorem not_mem_programOps {addr c : ℕ} {ws : List UInt16} :
    FlashOp.erasePageFast addr ∉ programOps c ws := by
  induction ws generalizing c with
  | nil => exact List.not_mem_nil
  | cons w ws ih => simp [ih]

/-! The states a cut can leave. -/

/-- The erase-ahead has run and `j` half-words of record `n + 1` are programmed. -/
def cutAfter (record : TeRecord) (n : ℕ) (b : RecordBody) (j : ℕ) (f : Flash) : Flash :=
  replay (replay f (aheadOps record n))
    (programOps (recordCell record (n + 1)) ((slotWords (n + 1) b).take j))

theorem memoryOps_aheadOps (record : TeRecord) (n : ℕ) : memoryOps (aheadOps record n) = [] ∨
    ∃ q, aheadPage record n = some q ∧
      memoryOps (aheadOps record n) = [.erasePageFast (pageAddr record q)] := by
  rw [aheadOps]
  cases hq : aheadPage record n with
  | none => exact Or.inl rfl
  | some q => exact Or.inr ⟨q, rfl, rfl⟩

theorem programs_ahead (record : TeRecord) (n : ℕ) : programs (memoryOps (aheadOps record n)) = 0 := by
  rcases memoryOps_aheadOps record n with h | ⟨q, -, h⟩ <;> rw [h] <;> rfl

/-- Programming cut short is programming of the first half-words. -/
theorem prefix_programOps {c : ℕ} {ws : List UInt16} {u : List FlashOp} (hu : u <+: programOps c ws) :
    u = programOps c (ws.take (programs u)) ∧ programs u ≤ ws.length := by
  obtain ⟨j, hj, rfl⟩ : ∃ j ≤ ws.length, u = programOps c (ws.take j) := by
    refine ⟨u.length, ?_, ?_⟩
    · have := hu.length_le
      rwa [programOps_length] at this
    · rw [← programOps_take]
      exact List.prefix_iff_eq_take.mp hu
  rw [programs_programOps, List.length_take, Nat.min_eq_left hj]
  exact ⟨rfl, hj⟩

/-- A cut comes before the erase, or after it and after `j` half-words. -/
theorem cut_forms (ht : t <+: aheadOps record n ++ recordOps record (n + 1) b) :
    (memoryOps t = [] ∧ programs t = 0) ∨
      (memoryOps t = memoryOps (aheadOps record n) ++
        programOps (recordCell record (n + 1)) ((slotWords (n + 1) b).take (programs t)) ∧
        programs t ≤ 5) := by
  have hpre : memoryOps t <+: memoryOps (aheadOps record n ++ recordOps record (n + 1) b) :=
    ht.filter FlashOp.changesMemory
  rw [memoryOps_append, recordOps, memoryOps_writeOps, memoryOps_programOps] at hpre
  have hafter : ∀ u, u <+: programOps (recordCell record (n + 1)) (slotWords (n + 1) b) →
      memoryOps t = memoryOps (aheadOps record n) ++ u →
      memoryOps t = memoryOps (aheadOps record n) ++
        programOps (recordCell record (n + 1)) ((slotWords (n + 1) b).take (programs t)) ∧
        programs t ≤ 5 := by
    intro u hu heq
    obtain ⟨hform, hle⟩ := prefix_programOps hu
    have hcount : programs t = programs u := by
      rw [← programs_memoryOps, heq, programs, List.countP_append, ← programs, ← programs,
        programs_ahead, Nat.zero_add]
    rw [hcount, heq, ← hform]
    exact ⟨rfl, hle⟩
  rcases memoryOps_aheadOps record n with h | ⟨q, -, h⟩
  · right
    rw [h, List.nil_append] at hpre
    exact hafter _ hpre (by rw [h, List.nil_append])
  · rw [h] at hpre
    cases hm : memoryOps t with
    | nil =>
      refine Or.inl ⟨rfl, ?_⟩
      rw [← programs_memoryOps, hm]
      rfl
    | cons op u =>
      rw [hm, List.singleton_append, List.cons_prefix_cons] at hpre
      obtain ⟨rfl, hu⟩ := hpre
      refine Or.inr ?_
      rw [← hm]
      exact hafter u hu (by rw [hm, h, List.singleton_append])

/-- Half-words of a slot that the cut left unprogrammed read erased. -/
theorem words_replay_take {c j : ℕ} {ws : List UInt16} (hj : j ≤ ws.length)
    (h : ∀ i < ws.length, f.cells (c + i) = ERASED) :
    (replay f (programOps c (ws.take j))).words c ws.length =
      ws.take j ++ List.replicate (ws.length - j) ERASED := by
  have hlen : (ws.take j).length = j := by rw [List.length_take, Nat.min_eq_left hj]
  refine List.ext_getElem (by simp [Flash.words, hj]) fun i hi hi' => ?_
  have hi5 : i < ws.length := by simpa [Flash.words] using hi
  simp only [Flash.words, List.getElem_map, List.getElem_range]
  by_cases hij : i < j
  · have hi2 : i < (ws.take j).length := hlen.symm ▸ hij
    rw [List.getElem_append_left hi2,
      replay_programOps_inside (fun i hi => h i (by omega)) hi2]
  · rw [List.getElem_append_right (by omega), List.getElem_replicate,
      replay_programOps_outside _ (by omega)]
    exact h i hi5

theorem cutAfter_outside {c : ℕ} {j : ℕ}
    (h : c < recordCell record (n + 1) ∨ recordCell record (n + 1) + 5 ≤ c) :
    (cutAfter record n b j f).cells c = (replay f (aheadOps record n)).cells c := by
  refine replay_programOps_outside _ ?_
  have hlen : ((slotWords (n + 1) b).take j).length ≤ 5 := List.length_take_le' j _
  omega

theorem LogAt.cutAfter_words (h : LogAt record n A body f) {j : ℕ} (hj : j ≤ 5) :
    (cutAfter record n b j f).words (recordCell record (n + 1)) 5 =
      (slotWords (n + 1) b).take j ++ List.replicate (5 - j) ERASED :=
  words_replay_take hj h.erased

/-! What a cut must leave. -/

/-- The next append stores its record, with the index after the maximum, into erased
half-words. -/
structure Appends (record : TeRecord) (g : Flash) (rtc : Rtc) : Prop where
  clean : Steps CleanProgram g ((flashWriteRecord record rtc).events g)
  stored : Recorded record (flashGetMaxIndexRecords record g + 1) (stamp rtc)
    ((flashWriteRecord record rtc).final g)
  newest : flashGetMaxIndexRecords record ((flashWriteRecord record rtc).final g) =
    flashGetMaxIndexRecords record g + 1

/-- The append after record `n` may be cut after the events `t`. -/
structure CutSafe (record : TeRecord) (n : ℕ) (f : Flash) (t : List FlashOp) : Prop where
  index : flashGetMaxIndexRecords record (replay f t) = n ∨
    flashGetMaxIndexRecords record (replay f t) = n + 1 ∨
    (record = .kRecordSensoEndOfLife ∧ (∃ addr, FlashOp.erasePageFast addr ∈ t) ∧
      flashGetMaxIndexRecords record (replay f t) = 0)
  unchanged : ∀ k, n - min n (hrRecordMaxNum record) < k → k ≤ n →
    FlashOp.erasePageFast (pageAddr record (recordPage record k)) ∉ t →
      flashRead (replay f t) (recordAddr record k) HR_RECORD_FRAME_LEN =
        flashRead f (recordAddr record k) HR_RECORD_FRAME_LEN
  next : ∀ rtc, Appends record (replay f t) rtc

theorem LogAt.appends (h : LogAt record n A body f) (hn : n < 65535) (rtc : Rtc) :
    Appends record f rtc := by
  have hmax := h.maxIndex (by omega)
  have hafter := h.append hn rtc
  refine ⟨h.append_clean hn rtc, ?_, ?_⟩
  · rw [hmax, recorded_iff, hafter.holds.stored (n + 1) (Set.mem_insert _ _), Function.update_self]
  · rw [hmax]
    exact hafter.maxIndex (by omega)

/-- Outside the page just erased the last records are as they were. -/
theorem cut_unchanged {j k : ℕ} (hk : k ≤ n)
    (hcap : n - min n (hrRecordMaxNum record) < k)
    (hpage : aheadPage record n ≠ some (recordPage record k)) :
    flashRead (cutAfter record n b j f) (recordAddr record k) HR_RECORD_FRAME_LEN =
      flashRead f (recordAddr record k) HR_RECORD_FRAME_LEN := by
  have hlive := live_of_capacity record hk hcap
  have hslot : ¬ (recordPage record k = recordPage record (n + 1) ∧ recordSlot k = recordSlot (n + 1)) :=
    fun he => slot_free (by decide) hlive (fun ht => hpage ((turns_iff hlive).mp ht)) he.1 he.2
  have haddr : recordAddr record k = 2 * recordCell record k := slotAddr_eq record _ _
  rw [haddr, show HR_RECORD_FRAME_LEN = 2 * 5 from rfl, flashRead_words, flashRead_words]
  congr 1
  refine words_congr fun i hi => ?_
  rw [cutAfter_outside (slotCell_outside record (recordSlot_lt k) (recordSlot_lt (n + 1)) hi hslot),
    aheadOps]
  cases hq : aheadPage record n with
  | none => rfl
  | some q =>
    rw [replay_eraseOps, erasePage_slot record f q (recordSlot_lt k) hi, if_neg]
    rintro rfl
    exact hpage hq

/-- The erase of the only page takes the newest record with it, any other does not. -/
theorem LogAt.turn_cases (h : LogAt record n A body f) :
    (record = .kRecordSensoEndOfLife ∧ (∃ q, aheadPage record n = some q) ∧
        A ∩ LiveRecords record (n + 1) = ∅) ∨
      (0 < n → aheadPage record n ≠ some (recordPage record n)) := by
  by_cases hturn : aheadPage record n = some (recordPage record n) ∧ 0 < n
  · left
    obtain ⟨hq, h0⟩ := hturn
    obtain ⟨hdvd, hpage⟩ := aheadPage_eq_some hq
    have hone : record = .kRecordSensoEndOfLife := by
      cases record with
      | kRecordSensoEndOfLife => rfl
      | _ =>
        simp only [recordPage, pageOf, hrRecordPages] at hpage
        omega
    subst hone
    refine ⟨rfl, ⟨_, hq⟩, Set.eq_empty_of_forall_notMem fun k hk => ?_⟩
    obtain ⟨hkA, hkL⟩ := hk
    have hkn : k < n + 1 := Nat.lt_succ_of_le (h.live hkA).2.1
    refine hkL.2.2 (n + 1) hkn le_rfl ⟨hdvd, ?_⟩
    rw [pageOf, hrRecordPages, Nat.mod_one, Nat.mod_one]
  · right
    intro h0 hq
    exact hturn ⟨hq, h0⟩

theorem LogAt.ahead (h : LogAt record n A body f)
    (hturn : 0 < n → aheadPage record n ≠ some (recordPage record n)) :
    LogAt record n (A ∩ LiveRecords record (n + 1)) body (replay f (aheadOps record n)) := by
  refine ⟨h.holds.ahead h.live, fun k hk => h.live hk.1, fun h0 => ⟨h.newest h0, ?_⟩⟩
  have hlive := h.live (h.newest h0)
  exact live_succ.mpr (Or.inr ⟨hlive, fun ht => hturn h0 ((turns_iff hlive).mp ht)⟩)

theorem LogAt.ahead_empty (h : LogAt record n A body f)
    (hnone : A ∩ LiveRecords record (n + 1) = ∅) :
    LogAt record 0 ∅ body (replay f (aheadOps record n)) := by
  have hholds := h.holds.ahead h.live
  rw [hnone] at hholds
  exact ⟨hholds, Set.empty_subset _, fun h0 => absurd h0 (Nat.lt_irrefl 0)⟩

/-! Cuts after two half-words or more: the record counts, with a torn date. -/

/-- The date of a record of which `j` half-words are programmed. -/
def tornBody (b : RecordBody) (j : ℕ) : RecordBody :=
  (if 2 < j then b.1 else ERASED, if 3 < j then b.2.1 else ERASED, if 4 < j then b.2.2 else ERASED)

theorem take_slotWords (k : ℕ) (b : RecordBody) {j : ℕ} (h2 : 2 ≤ j) (h5 : j ≤ 5) :
    (slotWords k b).take j ++ List.replicate (5 - j) ERASED = slotWords k (tornBody b j) := by
  interval_cases j <;> rfl

theorem LogAt.cut_torn (h : LogAt record n A body f) {j : ℕ} (h2 : 2 ≤ j) (h5 : j ≤ 5) :
    LogAt record (n + 1) (Insert.insert (n + 1) (A ∩ LiveRecords record (n + 1)))
      (Function.update body (n + 1) (tornBody b j)) (cutAfter record n b j f) :=
  h.insert (fun _ hc => cutAfter_outside hc) ((h.cutAfter_words h5).trans (take_slotWords _ b h2 h5))

/-! Cuts after the header alone: the erased index word is taken for an index. -/

/-- It is the right one for one record only. -/
theorem LogAt.cut_header_lucky (h : LogAt record 58168 A body f) :
    LogAt record 58169 (Insert.insert 58169 (A ∩ LiveRecords record 58169))
      (Function.update body 58169 (ERASED, ERASED, ERASED)) (cutAfter record 58168 b 1 f) :=
  h.insert (fun _ hc => cutAfter_outside hc) (h.cutAfter_words (by decide))

theorem LogAt.cut_header_cells (h : LogAt record n A body f) :
    (cutAfter record n b 1 f).cells (recordCell record (n + 1)) = HR_RECORD_FRAME_HEADER ∧
      (cutAfter record n b 1 f).cells (recordCell record (n + 1) + 1) = ERASED := by
  have hw := h.cutAfter_words (b := b) (j := 1) (by decide)
  rw [words_five] at hw
  injection hw with h0 hw
  injection hw with h1 hw
  exact ⟨h0, h1⟩

theorem LogAt.le_maxIndex_cut_header (h : LogAt record n A body f) :
    58169 ≤ flashGetMaxIndexRecords record (cutAfter record n b 1 f) := by
  obtain ⟨h0, h1⟩ := h.cut_header_cells (b := b)
  have hle := (maxIndex_le_iff record _ _).mp le_rfl _ (recordPage_lt record (n + 1)) _
    (recordSlot_lt (n + 1)) h0
  rw [h1] at hle
  exact hle

theorem LogAt.maxIndex_cut_header_le (h : LogAt record n A body f) {N : ℕ} (hN : 58169 ≤ N)
    (hle : ∀ k ∈ A ∩ LiveRecords record (n + 1), k ≤ N) :
    flashGetMaxIndexRecords record (cutAfter record n b 1 f) ≤ N := by
  obtain ⟨h0, h1⟩ := h.cut_header_cells (b := b)
  have hholds := h.holds.ahead h.live
  have hout : ∀ p s, s < 25 → ¬ (p = recordPage record (n + 1) ∧ s = recordSlot (n + 1)) →
      ∀ j < 5, (cutAfter record n b 1 f).cells (slotCell record p s + j) =
        (replay f (aheadOps record n)).cells (slotCell record p s + j) := fun p s hs hps j hj =>
    cutAfter_outside (slotCell_outside record hs (recordSlot_lt (n + 1)) hj hps)
  rw [maxIndex_le_iff]
  intro p hp s hs hhead
  by_cases hps : p = recordPage record (n + 1) ∧ s = recordSlot (n + 1)
  · obtain ⟨rfl, rfl⟩ := hps
    rw [h1]
    exact hN
  · rw [← Nat.add_zero (slotCell record p s), hout p s hs hps 0 (by decide)] at hhead
    obtain ⟨k, hk, rfl, rfl⟩ := hholds.of_header hp hs hhead
    rw [hout _ _ (recordSlot_lt k) hps 1 (by decide), (hholds.header hk).2, UInt16.toNat_ofNat']
    exact (Nat.mod_le k _).trans (hle k hk)

/-- The erase-ahead never erases the slot that the append fills, unless it erases all. -/
theorem recordPage_succ_ne (h : 0 < n → aheadPage record n ≠ some (recordPage record n)) (h0 : 0 < n) :
    aheadPage record n ≠ some (recordPage record (n + 1)) := by
  intro hq
  have hdvd := (aheadPage_eq_some hq).1
  have hsame : recordPage record (n + 1) = recordPage record n := by
    rw [recordPage, recordPage, pageOf, pageOf, show (n + 1 - 1) / 25 = (n - 1) / 25 by omega]
  exact h h0 (hsame ▸ hq)

/-- An append into erased half-words needs an erased slot after its erase-ahead. -/
theorem Appends.erased {g : Flash} {rtc : Rtc} (h : Appends record g rtc)
    (hmax : flashGetMaxIndexRecords record g = n) (hn : n < 65535) :
    (replay g (aheadOps record n)).cells (recordCell record (n + 1)) = ERASED := by
  have hclean := h.clean
  have hnew : (n + 1) % 65536 = n + 1 := Nat.mod_eq_of_lt (by omega)
  obtain ⟨k, hk1, -, hloop⟩ := flashWriteLoop_events (replay g (aheadOps record n))
    (recordCell record (n + 1)) (slotWords (n + 1) (bodyOf (stamp rtc)))
  obtain ⟨j, rfl⟩ : ∃ j, k = j + 1 := ⟨k - 1, by simp only [slotWords, List.length_cons] at hk1; omega⟩
  rw [flashWriteRecord_events hmax (by omega), hnew, steps_append] at hclean
  obtain ⟨-, hwrite⟩ := hclean
  simp only [flashWriteRecordIndex, recordAddr_eq record (Nat.succ_pos n) (by omega : n + 1 ≤ 65536),
    Prog.events_bind, Prog.events_pure, List.append_nil, flashWrite_events, halfWords_recordFrame,
    hloop] at hwrite
  simp only [writeOps, slotWords, List.take_succ_cons, programOps_cons, List.cons_append,
    List.nil_append, steps_cons] at hwrite
  obtain ⟨-, -, hfirst, -⟩ := hwrite
  have hcell : 2 * recordCell record (n + 1) / 2 = recordCell record (n + 1) :=
    Nat.mul_div_cancel_left _ Nat.two_pos
  rw [CleanProgram, hcell] at hfirst
  exact hfirst

/-- A cut after the header alone is never safe, that one record excepted. -/
theorem LogAt.not_cutSafe_header (h : LogAt record n A body f) (hn : n < 65535) (hne : n ≠ 58168)
    (ht : replay f t = cutAfter record n b 1 f) : ¬ CutSafe record n f t := by
  rintro ⟨hindex, -, hnext⟩
  rw [ht] at hindex hnext
  have hlow := h.le_maxIndex_cut_header (b := b)
  have hle : ∀ k ∈ A ∩ LiveRecords record (n + 1), k ≤ n := fun k hk => (h.live hk.1).2.1
  rcases hindex with hmax | hmax | ⟨-, -, hmax⟩
  · rcases h.turn_cases with ⟨-, ⟨q, hq⟩, hnone⟩ | hturn
    · -- nothing but the torn slot is left, so `n` is the erased index
      have hup := h.maxIndex_cut_header_le (b := b) (N := 58169) le_rfl (by simp [hnone])
      have hdvd := (aheadPage_eq_some hq).1
      omega
    · have h0 : 0 < n := by omega
      have hcell := (hnext startupRtc).erased hmax hn
      have hhead := (h.cut_header_cells (b := b)).1
      rw [aheadOps] at hcell
      cases hq : aheadPage record n with
      | none =>
        rw [hq, replay_nil, hhead] at hcell
        exact absurd hcell (by decide)
      | some q =>
        have hpq : recordPage record (n + 1) ≠ q := by
          rintro rfl
          exact recordPage_succ_ne hturn h0 hq
        have hkeep := erasePage_slot record (cutAfter record n b 1 f) q (p := recordPage record (n + 1))
          (recordSlot_lt (n + 1)) (by decide : 0 < 5)
        rw [if_neg hpq, Nat.add_zero, hhead] at hkeep
        rw [hq, replay_eraseOps, hkeep] at hcell
        exact absurd hcell (by decide)
  · have hup := h.maxIndex_cut_header_le (b := b) (N := n) (by omega) hle
    omega
  · omega

/-! The theorem. -/

/-- The cuts that the log survives: not the one after the header alone, unless the
erased index word happens to be the right index, and at the last index none that
leaves a record behind. -/
def SafePoint (n : ℕ) (t : List FlashOp) : Prop :=
  (programs t = 1 → n = 58168) ∧ (2 ≤ programs t → n ≠ 65534)

/-- The logs that appends and safe cuts make of an erased region. `n` is the largest
index, which is how the source counts the records. -/
inductive Reach (record : TeRecord) : ℕ → Flash → Prop
  | blank {f : Flash} (h : Blank record f) : Reach record 0 f
  | append {n : ℕ} {f : Flash} (h : Reach record n f) (hn : n < 65535) (rtc : Rtc) :
      Reach record (n + 1) ((flashWriteRecord record rtc).final f)
  | cut {n : ℕ} {f : Flash} (h : Reach record n f) (hn : n < 65535) (rtc : Rtc) {t : List FlashOp}
      (ht : t <+: (flashWriteRecord record rtc).events f) (hsafe : SafePoint n t) :
      Reach record (flashGetMaxIndexRecords record (replay f t)) (replay f t)

/-- What the memory is after a cut. -/
theorem LogAt.replay_cut (h : LogAt record n A body f) (hn : n < 65535) {rtc : Rtc}
    (ht : t <+: (flashWriteRecord record rtc).events f) :
    (memoryOps t = [] ∧ programs t = 0) ∨
      (programs t ≤ 5 ∧ (∀ addr, FlashOp.erasePageFast addr ∈ t ↔
          FlashOp.erasePageFast addr ∈ aheadOps record n) ∧
        replay f t = cutAfter record n (bodyOf (stamp rtc)) (programs t) f) := by
  rw [h.append_events hn] at ht
  rcases cut_forms ht with hnone | ⟨hops, hle⟩
  · exact Or.inl hnone
  · refine Or.inr ⟨hle, fun addr => ?_, ?_⟩
    · rw [← mem_memoryOps, hops, List.mem_append, mem_memoryOps]
      exact or_iff_left not_mem_programOps
    · rw [← replay_memoryOps, hops, replay_append, replay_memoryOps, cutAfter]

/-- A safe cut leaves a log: of `n` records, of `n + 1`, or an empty one. -/
theorem LogAt.cut (h : LogAt record n A body f) (hn : n < 65535) {rtc : Rtc}
    (ht : t <+: (flashWriteRecord record rtc).events f) (hsafe : SafePoint n t) :
    ∃ n' A' body', LogAt record n' A' body' (replay f t) ∧ n' < 65535 ∧
      (n' = n ∨ n' = n + 1 ∨
        (record = .kRecordSensoEndOfLife ∧ (∃ addr, FlashOp.erasePageFast addr ∈ t) ∧ n' = 0)) := by
  rcases h.replay_cut hn ht with ⟨hnone, -⟩ | ⟨hle, herase, hcut⟩
  · rw [← replay_memoryOps, hnone, replay_nil]
    exact ⟨n, A, body, h, hn, Or.inl rfl⟩
  · rw [hcut]
    obtain h0 | h1 | h2 : programs t = 0 ∨ programs t = 1 ∨ 2 ≤ programs t := by omega
    · rw [h0]
      rcases h.turn_cases with ⟨hrec, ⟨q, hq⟩, hnone⟩ | hturn
      · have hmem : FlashOp.erasePageFast (pageAddr record q) ∈ t := by
          rw [herase, aheadOps, hq]
          simp [eraseOps]
        exact ⟨0, ∅, body, h.ahead_empty hnone, by decide, Or.inr (Or.inr ⟨hrec, ⟨_, hmem⟩, rfl⟩)⟩
      · exact ⟨n, _, body, h.ahead hturn, hn, Or.inl rfl⟩
    · obtain rfl := hsafe.1 h1
      rw [h1]
      exact ⟨58169, _, _, h.cut_header_lucky, by decide, Or.inr (Or.inl rfl)⟩
    · have hlast := hsafe.2 h2
      exact ⟨n + 1, _, _, h.cut_torn h2 hle, by omega, Or.inr (Or.inl rfl)⟩

theorem LogAt.cutSafe (h : LogAt record n A body f) (hn : n < 65535) {rtc : Rtc}
    (ht : t <+: (flashWriteRecord record rtc).events f) (hsafe : SafePoint n t) :
    CutSafe record n f t := by
  obtain ⟨n', A', body', hlog, hn', hindex⟩ := h.cut hn ht hsafe
  have hmax := hlog.maxIndex (by omega)
  refine ⟨by rw [hmax]; exact hindex, fun k hcap hk hpage => ?_, hlog.appends hn'⟩
  rcases h.replay_cut hn ht with ⟨hnone, -⟩ | ⟨-, herase, hcut⟩
  · rw [← replay_memoryOps, hnone, replay_nil]
  · rw [hcut]
    refine cut_unchanged hk hcap fun hq => hpage ?_
    rw [herase, aheadOps, hq]
    simp [eraseOps]

theorem Reach.logAt (h : Reach record n f) : n ≤ 65535 ∧ ∃ A body, LogAt record n A body f := by
  induction h with
  | blank hf => exact ⟨Nat.zero_le _, ∅, fun _ => (0, 0, 0), logAt_blank hf _⟩
  | append _ hn rtc ih =>
    obtain ⟨-, A, body, hlog⟩ := ih
    exact ⟨hn, _, _, hlog.append hn rtc⟩
  | cut _ hn rtc ht hsafe ih =>
    obtain ⟨-, A, body, hlog⟩ := ih
    obtain ⟨n', A', body', hlog', hn', -⟩ := hlog.cut hn ht hsafe
    rw [hlog'.maxIndex (by omega)]
    exact ⟨hn'.le, A', body', hlog'⟩

/-- At the last index a record left behind leaves no index for the next. -/
theorem LogAt.not_cutSafe_last (h : LogAt record 65534 A body f) {rtc : Rtc}
    (ht : t <+: (flashWriteRecord record rtc).events f) (h2 : 2 ≤ programs t) :
    ¬ CutSafe record 65534 f t := by
  intro hsafe
  rcases h.replay_cut (by decide) ht with ⟨-, h0⟩ | ⟨hle, -, hcut⟩
  · omega
  · have hmax := (h.cut_torn (b := bodyOf (stamp rtc)) h2 hle).maxIndex (by decide)
    have hnext := (hsafe.next startupRtc).newest
    rw [hcut, hmax] at hnext
    have hbound : flashGetMaxIndexRecords record
        ((flashWriteRecord record startupRtc).final (cutAfter record 65534 (bodyOf (stamp rtc))
          (programs t) f)) ≤ 65535 := maxIndex_le record _
    omega

/-- In every log that appends and safe cuts can make, a cut is survived exactly when
it is a safe one. -/
theorem cutSafe_iff {record : TeRecord} {n : ℕ} {f : Flash} (h : Reach record n f) (hn : n < 65535)
    (rtc : Rtc) {t : List FlashOp} (ht : t <+: (flashWriteRecord record rtc).events f) :
    CutSafe record n f t ↔ SafePoint n t := by
  obtain ⟨-, A, body, hlog⟩ := h.logAt
  constructor
  · intro hsafe
    refine ⟨fun h1 => ?_, fun h2 hlast => ?_⟩
    · by_contra hne
      rcases hlog.replay_cut hn ht with ⟨-, h0⟩ | ⟨-, -, hcut⟩
      · omega
      · rw [h1] at hcut
        exact hlog.not_cutSafe_header hn hne hcut hsafe
    · subst hlast
      exact hlog.not_cutSafe_last ht h2 hsafe
  · exact hlog.cutSafe hn ht

/-- The first alarm record, cut after its header. -/
def headerCut : List FlashOp :=
  [.interruptDisable, .unlock, .programHalfWord FLASH_HR_ALARM_START_ADDR HR_RECORD_FRAME_HEADER]

theorem headerCut_prefix :
    headerCut <+: (flashWriteRecord .kRecordAlarm startupRtc).events blankFlash := by
  have hlog := logAt_blank (blank_blankFlash .kRecordAlarm) fun _ => (0, 0, 0)
  rw [hlog.append_events (by decide)]
  exact ⟨_, rfl⟩

theorem cutSafe_headerCut_iff :
    CutSafe .kRecordAlarm 0 blankFlash headerCut ↔ SafePoint 0 headerCut :=
  cutSafe_iff (Reach.blank (blank_blankFlash _)) (by decide) startupRtc headerCut_prefix

theorem not_cutSafe_headerCut :
    Reach .kRecordAlarm 0 blankFlash ∧
      headerCut <+: (flashWriteRecord .kRecordAlarm startupRtc).events blankFlash ∧
      ¬ CutSafe .kRecordAlarm 0 blankFlash headerCut := by
  have hlog := logAt_blank (blank_blankFlash .kRecordAlarm) fun _ => (0, 0, 0)
  refine ⟨Reach.blank (blank_blankFlash _), headerCut_prefix, ?_⟩
  rcases hlog.replay_cut (by decide) headerCut_prefix with ⟨hnone, -⟩ | ⟨-, -, hcut⟩
  · cases hnone
  · exact hlog.not_cutSafe_header (by decide) (by decide) hcut

end Detector
