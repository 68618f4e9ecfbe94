import DetectorFirmware.Model.Console
import DetectorFirmware.Proofs.PowerCut

/-! The command that fills a log. Each round is one append, so the log grows by the
number of rounds; the loop variable has eight bits, so it passes every number below 256
and no other. A command for 256 records or more never ends. -/

namespace Detector

open EventLog

variable {record : TeRecord} {num : ℤ} {mdelay : ℕ → Rtc → Rtc} {v : TestWriteRecord} {n : ℕ}
  {f : Flash} {rtc : Rtc}

theorem result_testRound (record : TeRecord) (mdelay : ℕ → Rtc → Rtc) (v : TestWriteRecord)
    (f : Flash) :
    ((testFlashWriteRecordRound record mdelay v).result f).i = v.i + 1 ∧
      ((testFlashWriteRecordRound record mdelay v).result f).calls = v.calls + 1 := by
  rw [testFlashWriteRecordRound, Prog.result_bind, Prog.result_pure]
  exact ⟨rfl, rfl⟩

theorem final_testRound (v : TestWriteRecord) (f : Flash) :
    (testFlashWriteRecordRound record mdelay v).final f = (flashWriteRecord record v.rtc).final f := by
  rw [testFlashWriteRecordRound, Prog.final_bind, Prog.final_pure]

/-- With `left` of `total` rounds to go, the log has grown by the records of the others. -/
structure Appending (record : TeRecord) (n total left : ℕ) (v : TestWriteRecord) (f : Flash) :
    Prop where
  counted : v.calls + left = total
  log : ∃ A body, LogAt record (n + v.calls) A body f

theorem Appending.round {total left : ℕ} (h : Appending record n total (left + 1) v f)
    (hroom : n + total ≤ 65535) :
    Appending record n total left ((testFlashWriteRecordRound record mdelay v).result f)
      ((testFlashWriteRecordRound record mdelay v).final f) := by
  obtain ⟨-, hcalls⟩ := result_testRound record mdelay v f
  have hcounted := h.counted
  obtain ⟨A, body, hlog⟩ := h.log
  refine ⟨by omega, ?_⟩
  rw [hcalls, final_testRound, ← Nat.add_assoc]
  exact ⟨_, _, hlog.append (by omega) v.rtc⟩

/-- The loop variable counts the calls, as long as it can. -/
structure Filling (record : TeRecord) (n total left : ℕ) (v : TestWriteRecord) (f : Flash) : Prop
    extends Appending record n total left v f where
  index : v.i.toNat = v.calls

theorem Filling.round {total left : ℕ} (h : Filling record n total (left + 1) v f)
    (hbyte : total ≤ 255) (hroom : n + total ≤ 65535) :
    Filling record n total left ((testFlashWriteRecordRound record mdelay v).result f)
      ((testFlashWriteRecordRound record mdelay v).final f) := by
  obtain ⟨hi, hcalls⟩ := result_testRound record mdelay v f
  have hcounted := h.counted
  have hindex := h.index
  refine ⟨h.toAppending.round hroom, ?_⟩
  rw [hi, hcalls, UInt8.toNat_add, UInt8.toNat_one, hindex]
  exact Nat.mod_eq_of_lt (by omega)

/-- The command ends, after as many calls of `Flash_Write_Record` as records were asked
for, and the log is longer by as many. -/
def FillsExactly (record : TeRecord) (num : ℤ) (mdelay : ℕ → Rtc → Rtc) (rtc : Rtc) (n : ℕ)
    (f : Flash) : Prop :=
  ∃ fuel v, (testFlashWriteRecord record num mdelay rtc fuel).result f = some v ∧
    (v.calls : ℤ) = max num 0 ∧
    (flashGetMaxIndexRecords record ((testFlashWriteRecord record num mdelay rtc fuel).final f) : ℤ) =
      n + max num 0

theorem fillsExactly_of_byte (h : ∃ A body, LogAt record n A body f)
    (hroom : (n : ℤ) + max num 0 ≤ 65535) (hbyte : num ≤ 255) (mdelay : ℕ → Rtc → Rtc) (rtc : Rtc) :
    FillsExactly record num mdelay rtc n f := by
  obtain ⟨total, htotal⟩ : ∃ total : ℕ, (total : ℤ) = max num 0 := ⟨num.toNat, by omega⟩
  have hstart : Filling record n total total ⟨0, 0, rtc⟩ f := ⟨⟨Nat.zero_add total, h⟩, rfl⟩
  have hdone : ∀ (v : TestWriteRecord) (g : Flash), Filling record n total 0 v g →
      decide ((v.i.toNat : ℤ) < num) = false := by
    intro v g hfill
    have hcounted := hfill.counted
    have hindex := hfill.index
    exact decide_eq_false (by omega)
  have hround : ∀ (left : ℕ) (v : TestWriteRecord) (g : Flash), Filling record n total (left + 1) v g →
      decide ((v.i.toNat : ℤ) < num) = true ∧
        Filling record n total left ((testFlashWriteRecordRound record mdelay v).result g)
          ((testFlashWriteRecordRound record mdelay v).final g) := by
    intro left v g hfill
    have hcounted := hfill.counted
    have hindex := hfill.index
    exact ⟨decide_eq_true (by omega), hfill.round (by omega) (by omega)⟩
  obtain ⟨v, hrun, hend⟩ := Prog.whileLoop_ends hdone hround hstart
  have hcalls : v.calls = total := hend.counted
  obtain ⟨A, body, hlog⟩ := hend.log
  have hmax := hlog.maxIndex (by omega)
  refine ⟨total + 1, v, hrun, by omega, ?_⟩
  rw [testFlashWriteRecord, hmax]
  omega

/-- The loop variable stays below 256 whatever is written. -/
theorem testFlashWriteRecord_never_ends (hnum : 256 ≤ num) (fuel : ℕ) :
    (testFlashWriteRecord record num mdelay rtc fuel).result f = none := by
  apply Prog.whileLoop_never (I := fun _ _ => True)
  · intro v g _
    have hi := v.i.toNat_lt
    exact decide_eq_true (by omega)
  · intro v g _
    trivial
  · trivial

/-- Meanwhile every round adds a record. -/
theorem testFlashWriteRecord_keeps_writing (hnum : 256 ≤ num)
    (h : ∃ A body, LogAt record n A body f) {k : ℕ} (hk : n + k ≤ 65535) :
    flashGetMaxIndexRecords record ((testFlashWriteRecord record num mdelay rtc k).final f) = n + k := by
  have hround : ∀ (left : ℕ) (v : TestWriteRecord) (g : Flash),
      Appending record n k (left + 1) v g → decide ((v.i.toNat : ℤ) < num) = true ∧
        Appending record n k left ((testFlashWriteRecordRound record mdelay v).result g)
          ((testFlashWriteRecordRound record mdelay v).final g) := by
    intro left v g hgrow
    have hi := v.i.toNat_lt
    exact ⟨decide_eq_true (by omega), hgrow.round hk⟩
  have hstart : Appending record n k k ⟨0, 0, rtc⟩ f := ⟨Nat.zero_add k, h⟩
  obtain ⟨v, hend⟩ := Prog.whileLoop_rounds hround hstart
  have hcalls : v.calls = k := hend.counted
  obtain ⟨A, body, hlog⟩ := hend.log
  rw [testFlashWriteRecord, hlog.maxIndex (by omega), hcalls]

/-- The command ends as it should exactly when the loop variable can reach `num`. -/
theorem fillsExactly_iff {record : TeRecord} {num : ℤ} {n : ℕ} {f : Flash} (h : Reach record n f)
    (hroom : (n : ℤ) + max num 0 ≤ 65535) (mdelay : ℕ → Rtc → Rtc) (rtc : Rtc) :
    FillsExactly record num mdelay rtc n f ↔ num ≤ 255 := by
  constructor
  · rintro ⟨fuel, v, hrun, -⟩
    by_contra hbig
    rw [testFlashWriteRecord_never_ends (by omega)] at hrun
    cases hrun
  · intro hbyte
    exact fillsExactly_of_byte h.logAt.2 hroom hbyte mdelay rtc

theorem fillsExactly_blankFlash_iff :
    FillsExactly .kRecordAlarm 255 (fun _ rtc => rtc) startupRtc 0 blankFlash ↔ (255 : ℤ) ≤ 255 :=
  fillsExactly_iff (Reach.blank (blank_blankFlash .kRecordAlarm)) (by decide) _ startupRtc

theorem not_fillsExactly_256 :
    Reach .kRecordAlarm 0 blankFlash ∧
      ¬ FillsExactly .kRecordAlarm 256 (fun _ rtc => rtc) startupRtc 0 blankFlash := by
  refine ⟨Reach.blank (blank_blankFlash .kRecordAlarm), ?_⟩
  rintro ⟨fuel, v, hrun, -⟩
  rw [testFlashWriteRecord_never_ends (by decide)] at hrun
  cases hrun

end Detector
