import DetectorFirmware.Proofs.Response
import DetectorFirmware.Proofs.Retention

/-! The history query: which slot `Flash_Read_Record` reads for a queried number, and
when the answer is the record asked for. Once a type has more records than it
reports, the reader counts back from the newest one by the constant 50, which is
the capacity of two of the types only. -/

namespace Detector

open EventLog EraseAheadRing

variable {record : TeRecord} {f : Flash} {n : ℕ}

/-! Where the reader looks. -/

/-- `index_redirect`, or the queried number where the source does not redirect it. -/
def readIndex (record : TeRecord) (n c1 : ℕ) : ℕ :=
  if hrRecordMaxNum record < n then (((n : ℤ) - (50 - (c1 : ℤ))) % 65536).toNat else c1

/-- The slot that is read for record `k`, which may be beyond the newest record. -/
abbrev readCell (record : TeRecord) (k : ℕ) : ℕ :=
  slotCell record (pageOffset record k) (slotOffset k)

theorem flashReadRecord_le (hne : record ≠ .kRecordSensoEndOfLife)
    (hmax : flashGetMaxIndexRecords record f = n) {c1 : ℕ} (hc1 : c1 ≤ n) :
    flashReadRecord record c1 f = flashRead f (2 * readCell record (readIndex record n c1)) 10 := by
  have haddr : ∀ k, hrStartAddr record + FLASH_PAGE_SIZE * pageOffset record k + inPageOffset k =
      2 * readCell record k := by
    intro k
    rw [inPageOffset_slot, slotAddr_eq]
  simp only [flashReadRecord, hmax, if_pos hc1, gt_iff_lt, if_pos hne, readIndex]
  split_ifs <;> simp only [haddr, HR_RECORD_FRAME_LEN]

theorem queryTime_gt (hmax : flashGetMaxIndexRecords record f = n) {c1 : UInt8}
    (hc1 : n < c1.toNat) : (queryTime record c1 f).buf = List.replicate 6 0 := by
  have hno : ¬ c1.toNat ≤ n := by omega
  simp only [queryTime, flashReadRecord, hmax, if_neg hno]
  rfl

/-- The timestamp in the half-words behind header and index. -/
def timeBytes (b : RecordBody) : List UInt8 :=
  [highByte b.1, lowByte b.1, lowByte b.2.1, highByte b.2.1, lowByte b.2.2, highByte b.2.2]

theorem timeBytes_bodyOf (t : TsRtcDateTime) : timeBytes (bodyOf t) = t.bytes := by
  simp only [timeBytes, bodyOf, lowByte_halfWord, highByte_halfWord, TsRtcDateTime.bytes]

/-- The date part of a slot. -/
def bodyAt (f : Flash) (c : ℕ) : RecordBody := (f.cells (c + 2), f.cells (c + 3), f.cells (c + 4))

theorem ofBuf_flashRead (f : Flash) (c : ℕ) :
    (TsFlashHrRecordFrame.ofBuf (flashRead f (2 * c) 10)).time.buf = timeBytes (bodyAt f c) := by
  rw [show 10 = 2 * 5 from rfl, flashRead_words, words_five]
  simp only [List.flatMap_cons, List.flatMap_nil, wordBytes, List.cons_append, List.nil_append,
    TsFlashHrRecordFrame.ofBuf, TsFlashHrRecordFrame.time, TsRecordsTime.buf, List.getD_cons_succ,
    List.getD_cons_zero, halfWord_bytes, timeBytes, bodyAt]

theorem queryTime_le (hne : record ≠ .kRecordSensoEndOfLife)
    (hmax : flashGetMaxIndexRecords record f = n) {c1 : UInt8} (hc1 : c1.toNat ≤ n) :
    (queryTime record c1 f).buf =
      timeBytes (bodyAt f (readCell record (readIndex record n c1.toNat))) := by
  rw [queryTime, flashReadRecord_le hne hmax hc1, ofBuf_flashRead]

/-! What a slot shows. -/

theorem bodyAt_of_words {c k : ℕ} {b : RecordBody} (h : f.words c 5 = slotWords k b) :
    bodyAt f c = b := by
  rw [words_five, slotWords] at h
  injection h with h0 h
  injection h with h1 h
  injection h with h2 h
  injection h with h3 h
  injection h with h4 h
  rw [bodyAt, h2, h3, h4]

/-- A slot of the region is erased or shows a stored record that belongs there. -/
theorem Holds.bodyAt_cases {A : Set ℕ} {body : ℕ → RecordBody} (h : Holds record A body f)
    {p s : ℕ} (hp : p < hrRecordPages record) (hs : s < 25) :
    bodyAt f (slotCell record p s) = (ERASED, ERASED, ERASED) ∨
      ∃ k ∈ A, recordPage record k = p ∧ recordSlot k = s ∧
        bodyAt f (slotCell record p s) = body k := by
  by_cases hex : ∃ k ∈ A, recordPage record k = p ∧ recordSlot k = s
  · obtain ⟨k, hk, rfl, rfl⟩ := hex
    exact Or.inr ⟨k, hk, rfl, rfl, bodyAt_of_words (h.stored k hk)⟩
  · left
    have hblank := h.blank p hp s hs fun k hk he => hex ⟨k, hk, he⟩
    rw [bodyAt, hblank 2 (by decide), hblank 3 (by decide), hblank 4 (by decide)]

/-! The answer that is asked for. -/

/-- The data field that a query for record `c1` of the last `m` should get. -/
def expectedField (clock : ℕ → Rtc) (n m c1 : ℕ) : List UInt8 :=
  if 1 ≤ c1 ∧ c1 ≤ m then (stamp (clock (n - m + c1 - 1))).bytes else List.replicate 6 0

/-- After `n` records the query gets the record it asks for, and the count is right. -/
structure HistoryRight (record : TeRecord) (clock : ℕ → Rtc) (f : Flash) (n : ℕ)
    (frame : TsFrameData) : Prop where
  answer : ∀ heap rtc, ((hrProcessData heap frame rtc).result (logAfter record clock f n)).1 =
    some (wireFrame frame.c1 frame.c2
      (expectedField clock n (min n (hrRecordMaxNum record)) frame.c1.toNat))
  count : ∀ heap rtc (ask : TsFrameData), ask.c2 = 0 → ∃ counts : List UInt8,
    ((hrProcessData heap ask rtc).result (logAfter record clock f n)).1 =
        some (wireFrame 0 0 counts) ∧
      counts[TeRecord.all.idxOf record]? = some (UInt8.ofNat (min n (hrRecordMaxNum record)))

/-- The dates of a run: every year is at least 256. -/
def YearsFrom256 (clock : ℕ → Rtc) (n : ℕ) : Prop :=
  ∀ i < n, 256 ≤ (stamp (clock i)).year.toNat

theorem total_getElem (record : TeRecord) (f : Flash) :
    (flashGetTotalRecord f)[TeRecord.all.idxOf record]? =
      some (UInt8.ofNat (flashGetNumRecords record f)) := by
  cases record <;> rfl

theorem count_right (clock : ℕ → Rtc) (hf : Blank record f) (hn : n ≤ 65535) (heap : ℕ → UInt8)
    (rtc : Rtc) (ask : TsFrameData) (hask : ask.c2 = 0) : ∃ counts : List UInt8,
      ((hrProcessData heap ask rtc).result (logAfter record clock f n)).1 =
          some (wireFrame 0 0 counts) ∧
        counts[TeRecord.all.idxOf record]? = some (UInt8.ofNat (min n (hrRecordMaxNum record))) := by
  refine ⟨_, hrProcessData_numOfRecords hask heap rtc _, ?_⟩
  rw [total_getElem, numRecords_of_maxIndex (maxIndex_logAfter clock hf hn)]

theorem highByte_ne_zero {w : UInt16} (h : 256 ≤ w.toNat) : highByte w ≠ 0 := by
  intro h0
  have hlt := w.toNat_lt
  have := congrArg UInt8.toNat h0
  rw [highByte, UInt8.toNat_ofNat', UInt8.toNat_zero] at this
  omega

/-- What is read for a number up to the newest index never starts with a zero byte. -/
theorem year_of_slot (clock : ℕ → Rtc) (hf : Blank record f) (hn : n ≤ 65535)
    (hyears : YearsFrom256 clock n) (k : ℕ) :
    highByte (bodyAt (logAfter record clock f n) (readCell record k)).1 ≠ 0 := by
  have hlog := logAt_logAfter clock hf hn
  rcases hlog.holds.bodyAt_cases (pageOffset_lt record k) (slotOffset_lt k) with
    herased | ⟨i, hi, -, -, hbody⟩
  · rw [herased]
    decide
  · rw [hbody]
    exact highByte_ne_zero (hyears (i - 1) (by have := hi.1; have := hi.2.1; omega))

/-- What the code answers, number 0 apart. -/
theorem answer_eq (clock : ℕ → Rtc) (hf : Blank record f) (hn : n ≤ 65535)
    (hyears : YearsFrom256 clock n) {frame : TsFrameData} (hq : Queries frame record)
    (heap : ℕ → UInt8) (rtc : Rtc) :
    ((hrProcessData heap frame rtc).result (logAfter record clock f n)).1 =
      some (wireFrame frame.c1 frame.c2
        (if frame.c1 = 0 then List.replicate 6 0
          else if frame.c1.toNat ≤ n then timeBytes (bodyAt (logAfter record clock f n)
            (readCell record (readIndex record n frame.c1.toNat)))
          else List.replicate 6 0)) := by
  have hmax := maxIndex_logAfter clock hf hn
  have hne : record ≠ .kRecordSensoEndOfLife := by
    obtain ⟨_, -, -, hne⟩ := hq
    exact hne
  by_cases hc1 : frame.c1.toNat ≤ n
  · have hbuf := queryTime_le hne hmax hc1
    rw [hrProcessData_record hq, hbuf, if_pos hc1]
    intro h0
    have hyear := year_of_slot clock hf hn hyears (readIndex record n frame.c1.toNat)
    have hfirst : (queryTime record frame.c1 (logAfter record clock f n)).yearH =
        highByte (bodyAt (logAfter record clock f n)
          (readCell record (readIndex record n frame.c1.toNat))).1 :=
      (List.cons_eq_cons.mp hbuf).1
    exact absurd (hfirst.symm.trans h0) hyear
  · have hbuf := queryTime_gt hmax (Nat.lt_of_not_le hc1)
    rw [hrProcessData_record hq _ _ _ fun _ => hbuf, hbuf, if_neg hc1]

/-! When it is right. -/

/-- The numbers that are answered right after `n` records: all of them until the type is
full, and after that those that are not redirected, or redirected by the capacity. -/
def AnswersRight (record : TeRecord) (n c1 : ℕ) : Prop :=
  c1 = 0 ∨ n ≤ hrRecordMaxNum record ∨ n < c1 ∨ (hrRecordMaxNum record = 50 ∧ c1 ≤ 50)

theorem bodyAt_live (clock : ℕ → Rtc) (hf : Blank record f) (hn : n ≤ 65535) {k : ℕ}
    (hk : k ∈ LiveRecords record n) :
    bodyAt (logAfter record clock f n) (readCell record k) = stamps clock k := by
  have hle : k ≤ 65536 := by have := hk.2.1; omega
  rw [readCell, pageOffset_eq record hk.1 hle, slotOffset_eq hk.1 hle]
  exact bodyAt_of_words ((logAt_logAfter clock hf hn).holds.stored k hk)

theorem answer_right (clock : ℕ → Rtc) (hf : Blank record f) (hn : n ≤ 65535)
    (hyears : YearsFrom256 clock n) {frame : TsFrameData} (hq : Queries frame record)
    (hright : AnswersRight record n frame.c1.toNat) (heap : ℕ → UInt8) (rtc : Rtc) :
    ((hrProcessData heap frame rtc).result (logAfter record clock f n)).1 =
      some (wireFrame frame.c1 frame.c2
        (expectedField clock n (min n (hrRecordMaxNum record)) frame.c1.toNat)) := by
  rw [answer_eq clock hf hn hyears hq]
  congr 2
  unfold expectedField
  by_cases h0 : frame.c1 = 0
  · rw [if_pos h0, h0, if_neg]
    rintro ⟨h1, -⟩
    exact absurd h1 (by decide)
  · have h1 : frame.c1.toNat ≠ 0 := fun hz => h0 (UInt8.toNat_inj.mp hz)
    rw [if_neg h0]
    by_cases hle : frame.c1.toNat ≤ n
    · obtain ⟨hindex, hm⟩ : readIndex record n frame.c1.toNat =
          n - min n (hrRecordMaxNum record) + frame.c1.toNat ∧
          frame.c1.toNat ≤ min n (hrRecordMaxNum record) := by
        unfold readIndex
        rcases hright with hz | hcap | hgt | ⟨h50, hc50⟩
        · exact absurd hz h1
        · rw [if_neg (by omega)]
          omega
        · omega
        · split_ifs <;> omega
      rw [if_pos hle, if_pos ⟨by omega, hm⟩, hindex,
        bodyAt_live clock hf hn (live_of_capacity record (by omega) (by omega)), stamps,
        timeBytes_bodyOf]
    · rw [if_neg hle, if_neg (by omega)]

/-! When it is wrong. -/

theorem timeBytes_inj {b b' : RecordBody} (h : timeBytes b = timeBytes b') : b = b' := by
  have hhalf : ∀ {w w' : UInt16}, highByte w = highByte w' → lowByte w = lowByte w' → w = w' := by
    intro w w' hhigh hlow
    rw [← halfWord_bytes w, hhigh, hlow, halfWord_bytes]
  unfold timeBytes at h
  injection h with h0 h
  injection h with h1 h
  injection h with h2 h
  injection h with h3 h
  injection h with h4 h
  injection h with h5 h
  exact Prod.ext (hhalf h0 h1) (Prod.ext (hhalf h3 h2) (hhalf h5 h4))

/-- A different date for every call. -/
def datedClock (i : ℕ) : Rtc where
  counter := 0
  daycnt := 0
  rtcDateTime := { TsRtcDateTime.zero with
    year := 1000, month := lowByte (UInt16.ofNat i), day := highByte (UInt16.ofNat i) }
  besideTableWeek _ := 0
  besideMonTable _ := 0

/-- On the cached day the record gets the date that the calendar shows. -/
theorem stamp_cached {r : Rtc} (h : r.daycnt.toNat = r.day) : (stamp r).date = r.rtcDateTime.date := by
  rw [stamp, bspGetRtcTime, rtcGet_date, if_neg (not_not.mpr h)]

theorem datedClock_date (i : ℕ) : (stamp (datedClock i)).date =
    (1000, lowByte (UInt16.ofNat i), highByte (UInt16.ofNat i)) :=
  stamp_cached (by simp [Rtc.day, datedClock])

theorem bodyOf_datedClock (i : ℕ) : bodyOf (stamp (datedClock i)) = (1000, UInt16.ofNat i, 0) := by
  have hdate := datedClock_date i
  have hhour : (stamp (datedClock i)).hour = 0 := by
    simp [stamp, bspGetRtcTime, rtcGet, datedClock]
  have hminute : (stamp (datedClock i)).minute = 0 := by
    simp [stamp, bspGetRtcTime, rtcGet, datedClock]
  simp only [TsRtcDateTime.date, Prod.mk.injEq] at hdate
  obtain ⟨hyear, hmonth, hday⟩ := hdate
  rw [bodyOf, hyear, hmonth, hday, hhour, hminute, halfWord_bytes]
  rfl

theorem yearsFrom256_datedClock (n : ℕ) : YearsFrom256 datedClock n := by
  intro i _
  have hyear : (stamp (datedClock i)).year = 1000 := congrArg Prod.fst (datedClock_date i)
  rw [hyear]
  decide

/-- The types that are redirected by less than their capacity. -/
theorem larger_types (hne : record ≠ .kRecordSensoEndOfLife) (h50 : hrRecordMaxNum record ≠ 50) :
    (hrRecordMaxNum record = 200 ∧ hrRecordPages record = 9) ∨
      (hrRecordMaxNum record = 100 ∧ hrRecordPages record = 5) := by
  revert hne h50
  cases record <;> decide

theorem slotOffset_add_pageOffset (record : TeRecord) (k : ℕ) :
    slotOffset k + 25 * pageOffset record k = u32 ((k : ℤ) - 1) % (25 * hrRecordPages record) := by
  have hP : hrRecordPages record < 256 := by cases record <;> decide
  have hpage : u32 ((k : ℤ) - 1) / 25 % hrRecordPages record % 256 =
      u32 ((k : ℤ) - 1) / 25 % hrRecordPages record :=
    Nat.mod_eq_of_lt ((Nat.mod_lt _ (hrRecordPages_pos record)).trans hP)
  have hslot : u32 ((k : ℤ) - 1) % 25 % 256 = u32 ((k : ℤ) - 1) % 25 :=
    Nat.mod_eq_of_lt ((Nat.mod_lt _ (by decide)).trans (by decide))
  unfold slotOffset pageOffset FLASH_PAGE_HR_RECORD_NUM
  rw [hpage, hslot, Nat.mod_mul]

/-- The ring position that the reader computes from a redirected index. -/
theorem u32_redirect (z : ℤ) (h0 : 0 < z) (hz : z < 131072) :
    (u32 (((z % 65536).toNat : ℤ) - 1) : ℤ) = z - 1 ∨
      (z = 65536 ∧ u32 (((z % 65536).toNat : ℤ) - 1) = 4294967295) ∨
      (65536 < z ∧ (u32 (((z % 65536).toNat : ℤ) - 1) : ℤ) = z - 65537) := by
  unfold u32
  omega

/-- For the larger types the redirected slot is not that of the record asked for. -/
theorem redirect_ne (hne : record ≠ .kRecordSensoEndOfLife) (h50 : hrRecordMaxNum record ≠ 50)
    (hfull : hrRecordMaxNum record < n) (hn : n ≤ 65535) {c1 : ℕ} (h1 : 1 ≤ c1)
    (hc1 : c1 ≤ hrRecordMaxNum record) :
    ¬ (recordPage record (n - hrRecordMaxNum record + c1) =
        pageOffset record (readIndex record n c1) ∧
      recordSlot (n - hrRecordMaxNum record + c1) = slotOffset (readIndex record n c1)) := by
  rintro ⟨hpage, hslot⟩
  have hasked := slot_add_page 25 (hrRecordPages record) (n - hrRecordMaxNum record + c1)
  have hread := slotOffset_add_pageOffset record (readIndex record n c1)
  rw [← hpage, ← hslot] at hread
  have hpos := hasked.symm.trans hread
  rw [readIndex, if_pos hfull] at hpos
  have hbig : 100 ≤ hrRecordMaxNum record := by
    rcases larger_types hne h50 with ⟨hmax, -⟩ | ⟨hmax, -⟩ <;> omega
  have hz := u32_redirect ((n : ℤ) - (50 - (c1 : ℤ))) (by omega) (by omega)
  generalize u32 ((((n : ℤ) - (50 - (c1 : ℤ))) % 65536).toNat - 1) = q at hz hpos
  rcases larger_types hne h50 with ⟨hmax, hpages⟩ | ⟨hmax, hpages⟩
  · rw [hmax, hpages] at hpos
    rw [hmax] at hfull hc1
    rcases hz with hq | ⟨hq, rfl⟩ | ⟨-, hq⟩ <;> omega
  · rw [hmax, hpages] at hpos
    rw [hmax] at hfull hc1
    rcases hz with hq | ⟨hq, rfl⟩ | ⟨-, hq⟩ <;> omega

/-- With a date for every call, the redirected slot holds another date than the one asked for:
that of another record, or none where it is erased. -/
theorem bodyAt_redirect_ne (hf : Blank record f) (hn : n ≤ 65535)
    (hne : record ≠ .kRecordSensoEndOfLife) (h50 : hrRecordMaxNum record ≠ 50)
    (hfull : hrRecordMaxNum record < n) {c1 : ℕ} (h1 : 1 ≤ c1) (hc1 : c1 ≤ hrRecordMaxNum record) :
    bodyAt (logAfter record datedClock f n) (readCell record (readIndex record n c1)) ≠
      stamps datedClock (n - hrRecordMaxNum record + c1) := by
  have hslot := redirect_ne hne h50 hfull hn h1 hc1
  intro hbody
  rw [stamps, bodyOf_datedClock] at hbody
  rcases (logAt_logAfter datedClock hf hn).holds.bodyAt_cases
      (pageOffset_lt record (readIndex record n c1)) (slotOffset_lt (readIndex record n c1)) with
    herased | ⟨k, hk, hpage, hks, hb⟩
  · rw [herased] at hbody
    have hyear : ERASED = 1000 := congrArg Prod.fst hbody
    exact absurd hyear (by decide)
  · rw [hb, stamps, bodyOf_datedClock] at hbody
    have hi : (UInt16.ofNat (k - 1)).toNat =
        (UInt16.ofNat (n - hrRecordMaxNum record + c1 - 1)).toNat :=
      congrArg (fun b => b.2.1.toNat) hbody
    rw [UInt16.toNat_ofNat', UInt16.toNat_ofNat'] at hi
    obtain rfl : k = n - hrRecordMaxNum record + c1 := by
      have hk0 := hk.1
      have hkn := hk.2.1
      omega
    exact hslot ⟨hpage, hks⟩

theorem answer_wrong (hf : Blank record f) (hn : n ≤ 65535) {frame : TsFrameData}
    (hq : Queries frame record) (hwrong : ¬ AnswersRight record n frame.c1.toNat)
    (heap : ℕ → UInt8) (rtc : Rtc) :
    ((hrProcessData heap frame rtc).result (logAfter record datedClock f n)).1 ≠
      some (wireFrame frame.c1 frame.c2
        (expectedField datedClock n (min n (hrRecordMaxNum record)) frame.c1.toNat)) := by
  have hne : record ≠ .kRecordSensoEndOfLife := by
    obtain ⟨_, -, -, hne⟩ := hq
    exact hne
  simp only [AnswersRight, not_or, not_and, not_le, not_lt] at hwrong
  obtain ⟨h0, hfull, hle, h50⟩ := hwrong
  have hyears := yearsFrom256_datedClock n
  have hzero : frame.c1 ≠ 0 := fun hz => h0 (by rw [hz]; rfl)
  rw [answer_eq datedClock hf hn hyears hq, if_neg hzero, if_pos hle, Nat.min_eq_right hfull.le]
  intro hsame
  have hfield := wireFrame_inj (Option.some.inj hsame)
  unfold expectedField at hfield
  by_cases hc1 : frame.c1.toNat ≤ hrRecordMaxNum record
  · have hcap : hrRecordMaxNum record ≠ 50 := fun he => absurd hc1 (by have := h50 he; omega)
    rw [if_pos ⟨by omega, hc1⟩, ← timeBytes_bodyOf] at hfield
    exact bodyAt_redirect_ne hf hn hne hcap hfull (by omega) hc1 (timeBytes_inj hfield)
  · -- beyond the capacity something is read where zeros are due
    rw [if_neg (fun h => hc1 h.2)] at hfield
    exact year_of_slot datedClock hf hn hyears _ (List.cons_eq_cons.mp hfield).1

/-- Whatever the dates, the history query is right for exactly these numbers. -/
theorem historyRight_iff (record : TeRecord) {f : Flash} (hf : Blank record f) {n : ℕ}
    (hn : n ≤ 65535) {frame : TsFrameData} (hq : Queries frame record) :
    (∀ clock, YearsFrom256 clock n → HistoryRight record clock f n frame) ↔
      AnswersRight record n frame.c1.toNat := by
  constructor
  · intro h
    by_contra hwrong
    have hright := h datedClock (yearsFrom256_datedClock n)
    exact answer_wrong hf hn hq hwrong (fun _ => 0) startupRtc (hright.answer _ _)
  · intro hright clock hyears
    exact ⟨answer_right clock hf hn hyears hq hright, count_right clock hf hn⟩

/-- The command AA 01 01 00: the first alarm record. -/
def firstAlarmQuery : TsFrameData := bareFrame 1 1

theorem firstAlarmQuery_queries : Queries firstAlarmQuery .kRecordAlarm :=
  ⟨.kAlarmRecord, rfl, rfl, by decide⟩

theorem historyRight_firstAlarm_iff :
    (∀ clock, YearsFrom256 clock 201 →
        HistoryRight .kRecordAlarm clock blankFlash 201 firstAlarmQuery) ↔
      AnswersRight .kRecordAlarm 201 firstAlarmQuery.c1.toNat :=
  historyRight_iff .kRecordAlarm (blank_blankFlash _) (by decide) firstAlarmQuery_queries

/-- With 201 alarms the oldest one reported is number 2, but number 152 is read. -/
theorem not_historyRight_firstAlarm :
    YearsFrom256 datedClock 201 ∧
      ¬ HistoryRight .kRecordAlarm datedClock blankFlash 201 firstAlarmQuery := by
  refine ⟨yearsFrom256_datedClock 201, fun h => ?_⟩
  have hwrong : ¬ AnswersRight .kRecordAlarm 201 firstAlarmQuery.c1.toNat := by
    unfold AnswersRight
    decide
  exact answer_wrong (blank_blankFlash _) (by decide) firstAlarmQuery_queries hwrong (fun _ => 0)
    startupRtc (h.answer _ _)

end Detector
