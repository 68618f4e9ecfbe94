import DetectorFirmware.Proofs.Retention

/-! How often the pages of a record type are erased. -/

namespace Detector

open EventLog EraseAheadRing

variable {record : TeRecord} {f : Flash} {n : ℕ}

/-- The events of `n` calls. -/
def logOps (record : TeRecord) (clock : ℕ → Rtc) (f : Flash) : ℕ → List FlashOp
  | 0 => []
  | n + 1 => logOps record clock f n ++
      (flashWriteRecord record (clock n)).events (logAfter record clock f n)

theorem programOps_no_erase (c : ℕ) (ws : List UInt16) (addr : ℕ) :
    .erasePageFast addr ∉ programOps c ws := by
  induction ws generalizing c with
  | nil => exact List.not_mem_nil
  | cons w ws ih => simpa using ih (c + 1)

theorem recordOps_no_erase (record : TeRecord) (k : ℕ) (b : RecordBody) (addr : ℕ) :
    .erasePageFast addr ∉ recordOps record k b := by
  have hprogram := programOps_no_erase (recordCell record k) (slotWords k b) addr
  simp [recordOps, writeOps, hprogram]

/-- The erase of each append, counted. -/
theorem aheadOps_count (record : TeRecord) (n q : ℕ) :
    (aheadOps record n).count (.erasePageFast (pageAddr record q)) =
      if aheadPage record n = some q then 1 else 0 := by
  unfold aheadOps
  cases aheadPage record n with
  | none => rfl
  | some page =>
    have haddr : pageAddr record page = pageAddr record q ↔ page = q := by
      unfold pageAddr FLASH_PAGE_SIZE
      omega
    have hcount : (eraseOps (pageAddr record page)).count (.erasePageFast (pageAddr record q)) =
        if pageAddr record page = pageAddr record q then 1 else 0 := by
      simp [eraseOps, List.count_cons]
    rw [hcount]
    exact if_congr (haddr.trans (by rw [Option.some.injEq])) rfl rfl

theorem aheadPage_eq_some_iff {q : ℕ} (hmod : n % 25 = 24) : aheadPage record n = some q ↔
    hrRecordPages record ≤ n / 25 + 1 ∧ (n / 25 + 1) % hrRecordPages record = q := by
  have hdiv : (n + 1) / 25 = n / 25 + 1 := by omega
  rw [aheadPage, hdiv]
  split_ifs with h
  · rw [Option.some.injEq]
    exact ⟨fun hq => ⟨h.2, hq⟩, fun hq => hq.2⟩
  · exact iff_of_false (by simp) fun hq => h ⟨hmod, hq.1⟩

/-- What one more append adds. -/
theorem turned_append (record : TeRecord) (n : ℕ) {q : ℕ} (hq : q < hrRecordPages record) :
    ((n + 1) / 25 - q) / hrRecordPages record =
      (n / 25 - q) / hrRecordPages record + if aheadPage record n = some q then 1 else 0 := by
  by_cases hmod : n % 25 = 24
  · rw [show (n + 1) / 25 = n / 25 + 1 by omega, turned_succ hq]
    congr 1
    exact if_congr (aheadPage_eq_some_iff hmod).symm rfl rfl
  · have hnone : aheadPage record n = none := by rw [aheadPage, if_neg fun h => hmod h.1]
    rw [show (n + 1) / 25 = n / 25 by omega, hnone, if_neg (Option.some_ne_none q).symm, Nat.add_zero]

theorem logOps_count (clock : ℕ → Rtc) (hf : Blank record f) (hn : n ≤ 65535) {q : ℕ}
    (hq : q < hrRecordPages record) :
    (logOps record clock f n).count (.erasePageFast (pageAddr record q)) =
      (n / 25 - q) / hrRecordPages record := by
  induction n with
  | zero => rw [Nat.zero_div, Nat.zero_sub, Nat.zero_div]; rfl
  | succ n ih =>
    have hlog := logAt_logAfter clock hf (show n ≤ 65535 by omega)
    rw [logOps, List.count_append, ih (by omega), hlog.append_events (by omega), List.count_append,
      aheadOps_count, List.count_eq_zero_of_not_mem (recordOps_no_erase record _ _ _),
      turned_append record n hq]
    rfl

theorem logOps_erases (clock : ℕ → Rtc) (hf : Blank record f) (hn : n ≤ 65535) {addr : ℕ}
    (h : .erasePageFast addr ∈ logOps record clock f n) :
    ∃ q < hrRecordPages record, addr = pageAddr record q := by
  induction n with
  | zero => exact absurd h List.not_mem_nil
  | succ n ih =>
    have hlog := logAt_logAfter clock hf (show n ≤ 65535 by omega)
    rw [logOps, hlog.append_events (by omega), List.mem_append, List.mem_append] at h
    rcases h with hbefore | hahead | hrecord
    · exact ih (by omega) hbefore
    · unfold aheadOps at hahead
      cases hpage : aheadPage record n with
      | none =>
        rw [hpage] at hahead
        exact absurd hahead List.not_mem_nil
      | some page =>
        rw [hpage] at hahead
        have hlt : page < hrRecordPages record := by
          rw [← (aheadPage_eq_some hpage).2]
          exact Nat.mod_lt _ (hrRecordPages_pos record)
        exact ⟨page, hlt, by simpa [eraseOps] using hahead⟩
    · exact absurd hrecord (recordOps_no_erase record _ _ addr)

/-- In `n` calls on an erased region each of its pages is erased `(n / 25 - q) / pages` times, `q`
being its place in the region, and nothing else is: no page has more than one erase more than
another. -/
theorem log_wear (record : TeRecord) (clock : ℕ → Rtc) {f : Flash} (hf : Blank record f) {n : ℕ}
    (hn : n ≤ 65535) :
    (∀ q < hrRecordPages record,
      (logOps record clock f n).count (.erasePageFast (pageAddr record q)) =
        (n / 25 - q) / hrRecordPages record) ∧
    (∀ q < hrRecordPages record, ∀ q' < hrRecordPages record,
      (logOps record clock f n).count (.erasePageFast (pageAddr record q)) ≤
        (logOps record clock f n).count (.erasePageFast (pageAddr record q')) + 1) ∧
    ∀ addr, .erasePageFast addr ∈ logOps record clock f n →
      ∃ q < hrRecordPages record, addr = pageAddr record q := by
  refine ⟨fun q hq => logOps_count clock hf hn hq, fun q hq q' hq' => ?_,
    fun addr h => logOps_erases clock hf hn h⟩
  rw [logOps_count clock hf hn hq, logOps_count clock hf hn hq']
  exact turned_even hq' (n / 25)

/-- The most calls there can be. -/
theorem log_wear_full :
    (∀ q < 9, (logOps .kRecordAlarm (fun _ => startupRtc) blankFlash 65535).count
        (.erasePageFast (pageAddr .kRecordAlarm q)) = (65535 / 25 - q) / 9) ∧
    (∀ q < 9, ∀ q' < 9,
      (logOps .kRecordAlarm (fun _ => startupRtc) blankFlash 65535).count
          (.erasePageFast (pageAddr .kRecordAlarm q)) ≤
        (logOps .kRecordAlarm (fun _ => startupRtc) blankFlash 65535).count
          (.erasePageFast (pageAddr .kRecordAlarm q')) + 1) ∧
    ∀ addr, .erasePageFast addr ∈ logOps .kRecordAlarm (fun _ => startupRtc) blankFlash 65535 →
      ∃ q < 9, addr = pageAddr .kRecordAlarm q :=
  log_wear .kRecordAlarm (fun _ => startupRtc) (blank_blankFlash _) le_rfl

end Detector
