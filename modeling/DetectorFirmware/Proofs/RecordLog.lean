import Mathlib.Data.Set.Insert
import Mathlib.Tactic.IntervalCases
import DetectorFirmware.Library.EraseAheadRing
import DetectorFirmware.Model.Records
import DetectorFirmware.Proofs.FlashWrite

/-! One append of `Flash_Write_Record` as a step of the erase-ahead ring. `Holds`
says that the region of a record type stores a given set of records, each in the
slot the ring gives it, and that every other slot is erased. -/

namespace Detector

open EventLog EraseAheadRing

/-! Where the C expressions put a record. -/

abbrev recordPage (record : TeRecord) (k : ℕ) : ℕ := pageOf 25 (hrRecordPages record) k

abbrev recordSlot (k : ℕ) : ℕ := slotOf 25 k

/-- The records of a type that `n` appends leave. -/
abbrev LiveRecords (record : TeRecord) (n : ℕ) : Set ℕ := Live 25 (hrRecordPages record) n

/-- The first half-word of a slot. -/
def slotCell (record : TeRecord) (page slot : ℕ) : ℕ :=
  hrStartAddr record / 2 + 128 * page + 5 * slot

/-- The first half-word of the slot of record `k`. -/
abbrev recordCell (record : TeRecord) (k : ℕ) : ℕ :=
  slotCell record (recordPage record k) (recordSlot k)

theorem hrRecordPages_pos (record : TeRecord) : 0 < hrRecordPages record := by
  cases record <;> decide

theorem hrStartAddr_eq (record : TeRecord) : hrStartAddr record = 256 * (hrStartAddr record / 256) := by
  cases record <;> rfl

/-- A type keeps one page more than its capacity needs, the one-page type excepted. -/
theorem capacity_eq (record : TeRecord) :
    hrRecordMaxNum record = 25 * (hrRecordPages record - 1) ∨
      (hrRecordMaxNum record = 1 ∧ hrRecordPages record = 1) := by
  cases record <;> decide

theorem recordPage_lt (record : TeRecord) (k : ℕ) : recordPage record k < hrRecordPages record :=
  Nat.mod_lt _ (hrRecordPages_pos record)

theorem recordSlot_lt (k : ℕ) : recordSlot k < 25 := Nat.mod_lt _ (by decide)

theorem u32_pred {k : ℕ} (h0 : 0 < k) (hk : k ≤ 65536) : u32 ((k : ℤ) - 1) = k - 1 := by
  unfold u32
  omega

theorem pageOffset_eq (record : TeRecord) {k : ℕ} (h0 : 0 < k) (hk : k ≤ 65536) :
    pageOffset record k = recordPage record k := by
  have hlt := recordPage_lt record k
  have hP : hrRecordPages record < 256 := by cases record <;> decide
  rw [pageOffset, u32_pred h0 hk]
  exact Nat.mod_eq_of_lt (hlt.trans hP)

theorem slotOffset_lt (k : ℕ) : slotOffset k < 25 :=
  (Nat.mod_le _ 256).trans_lt (Nat.mod_lt _ (by decide))

theorem pageOffset_lt (record : TeRecord) (k : ℕ) : pageOffset record k < hrRecordPages record :=
  (Nat.mod_le _ 256).trans_lt (Nat.mod_lt _ (hrRecordPages_pos record))

theorem inPageOffset_slot (k : ℕ) : inPageOffset k = 10 * slotOffset k := by
  have hlt : u32 ((k : ℤ) - 1) % 25 < 25 := Nat.mod_lt _ (by decide)
  unfold inPageOffset slotOffset FLASH_PAGE_HR_RECORD_NUM FLASH_HR_ONE_RECORD_SIZE
  rw [Nat.mod_eq_of_lt (by omega : u32 ((k : ℤ) - 1) % 25 * 10 < 256),
    Nat.mod_eq_of_lt (by omega : u32 ((k : ℤ) - 1) % 25 < 256), Nat.mul_comm]

theorem slotOffset_eq {k : ℕ} (h0 : 0 < k) (hk : k ≤ 65536) : slotOffset k = recordSlot k := by
  have hlt := recordSlot_lt k
  rw [slotOffset, u32_pred h0 hk]
  exact Nat.mod_eq_of_lt (hlt.trans (by decide))

theorem inPageOffset_eq {k : ℕ} (h0 : 0 < k) (hk : k ≤ 65536) :
    inPageOffset k = 10 * recordSlot k := by
  rw [inPageOffset_slot, slotOffset_eq h0 hk]

theorem slotAddr_eq (record : TeRecord) (page slot : ℕ) :
    hrStartAddr record + FLASH_PAGE_SIZE * page + 10 * slot = 2 * slotCell record page slot := by
  have := hrStartAddr_eq record
  simp only [slotCell, FLASH_PAGE_SIZE]
  omega

theorem slotCell_div (record : TeRecord) {page slot j : ℕ} (hs : slot < 25) (hj : j < 5) :
    (slotCell record page slot + j) / 128 = hrStartAddr record / 256 + page := by
  have := hrStartAddr_eq record
  rw [slotCell]
  omega

/-- A half-word of one slot lies outside every other slot. -/
theorem slotCell_outside (record : TeRecord) {p p' s s' j : ℕ} (hs : s < 25) (hs' : s' < 25)
    (hj : j < 5) (h : ¬ (p = p' ∧ s = s')) :
    slotCell record p s + j < slotCell record p' s' ∨
      slotCell record p' s' + 5 ≤ slotCell record p s + j := by
  simp only [slotCell]
  rcases Nat.lt_trichotomy p p' with hp | rfl | hp <;> omega

/-! What a slot holds. -/

/-- The half-words that carry the date and time of a record. -/
abbrev RecordBody := UInt16 × UInt16 × UInt16

def bodyOf (t : TsRtcDateTime) : RecordBody := (t.year, halfWord t.month t.day, halfWord t.hour t.minute)

/-- The five half-words of record `k`. -/
def slotWords (k : ℕ) (b : RecordBody) : List UInt16 :=
  [HR_RECORD_FRAME_HEADER, UInt16.ofNat k, b.1, b.2.1, b.2.2]

theorem halfWords_recordFrame (k : ℕ) (t : TsRtcDateTime) :
    halfWords (recordFrame k t).buf = slotWords k (bodyOf t) := by
  simp only [recordFrame, TsFlashHrRecordFrame.buf, halfWords, halfWord_bytes, slotWords, bodyOf]

/-- The address of the slot of record `k`. -/
def recordAddr (record : TeRecord) (k : ℕ) : ℕ :=
  hrStartAddr record + FLASH_PAGE_SIZE * ((k - 1) / 25 % hrRecordPages record) + 10 * ((k - 1) % 25)

/-- The complete frame of record `k` is in its slot: the header, the index, and the date and time
without the seconds. -/
def Recorded (record : TeRecord) (k : ℕ) (t : TsRtcDateTime) (f : Flash) : Prop :=
  flashRead f (recordAddr record k) 10 =
    [0x55, 0xAA, lowByte (UInt16.ofNat k), highByte (UInt16.ofNat k), lowByte t.year, highByte t.year,
      t.month, t.day, t.hour, t.minute]

theorem recorded_iff {record : TeRecord} {k : ℕ} {t : TsRtcDateTime} {f : Flash} :
    Recorded record k t f ↔ f.words (recordCell record k) 5 = slotWords k (bodyOf t) := by
  have haddr : recordAddr record k = 2 * recordCell record k := slotAddr_eq record _ _
  have heven : (recordFrame k t).buf.length % 2 = 0 := by
    simp only [TsFlashHrRecordFrame.buf, List.length_cons, List.length_nil, Nat.reduceAdd,
      Nat.reduceMod]
  have hheader : lowByte HR_RECORD_FRAME_HEADER = 0x55 ∧ highByte HR_RECORD_FRAME_HEADER = 0xAA := by
    decide
  have hframe : Recorded record k t f ↔
      flashRead f (recordAddr record k) (2 * 5) = (recordFrame k t).buf := by
    rw [TsFlashHrRecordFrame.buf, recordFrame, hheader.1, hheader.2]
    rfl
  rw [hframe, haddr, flashRead_words, ← halfWords_recordFrame]
  constructor
  · intro h
    rw [← h, halfWords_flatMap_wordBytes]
  · intro h
    rw [h, flatMap_wordBytes_halfWords _ heven]

/-- The region of `record` stores the records of `A` and nothing else. -/
structure Holds (record : TeRecord) (A : Set ℕ) (body : ℕ → RecordBody) (f : Flash) : Prop where
  stored : ∀ k ∈ A, f.words (recordCell record k) 5 = slotWords k (body k)
  blank : ∀ p < hrRecordPages record, ∀ s < 25,
    (∀ k ∈ A, ¬ (recordPage record k = p ∧ recordSlot k = s)) →
      ∀ j < 5, f.cells (slotCell record p s + j) = ERASED

/-- A region without any records. -/
def Blank (record : TeRecord) (f : Flash) : Prop :=
  ∀ c, hrStartAddr record / 2 ≤ c → c < hrStartAddr record / 2 + 128 * hrRecordPages record →
    f.cells c = ERASED

theorem holds_of_blank {record : TeRecord} {f : Flash} (h : Blank record f)
    (body : ℕ → RecordBody) : Holds record ∅ body f := by
  refine ⟨fun k hk => absurd hk (Set.notMem_empty k), fun p hp s hs _ j hj => h _ ?_ ?_⟩
  · rw [slotCell]
    omega
  · rw [slotCell]
    omega

theorem words_five (f : Flash) (c : ℕ) : f.words c 5 =
    [f.cells c, f.cells (c + 1), f.cells (c + 2), f.cells (c + 3), f.cells (c + 4)] := rfl

theorem header_of_words {f : Flash} {c k : ℕ} {b : RecordBody} (h : f.words c 5 = slotWords k b) :
    f.cells c = HR_RECORD_FRAME_HEADER ∧ f.cells (c + 1) = UInt16.ofNat k := by
  rw [words_five, slotWords] at h
  injection h with h0 h
  injection h with h1 h
  exact ⟨h0, h1⟩

theorem words_congr {f g : Flash} {c n : ℕ} (h : ∀ j < n, g.cells (c + j) = f.cells (c + j)) :
    g.words c n = f.words c n :=
  List.map_congr_left fun j hj => h j (List.mem_range.mp hj)

/-! The scan for the largest index. -/

theorem foldl_max_le_iff (l : List ℕ) (c : ℕ → Prop) [DecidablePred c] (v : ℕ → ℕ) (m N : ℕ) :
    l.foldl (fun m i => if c i then LWUTIL_MAX m (v i) else m) m ≤ N ↔
      m ≤ N ∧ ∀ i ∈ l, c i → v i ≤ N := by
  induction l generalizing m with
  | nil => simp
  | cons a l ih =>
    rw [List.foldl_cons, ih, List.forall_mem_cons]
    by_cases hc : c a
    · simp only [hc, if_true, LWUTIL_MAX, true_imp_iff]
      constructor
      · rintro ⟨h1, h2⟩
        split_ifs at h1 with hlt <;> exact ⟨by omega, by omega, h2⟩
      · rintro ⟨h1, h2, h3⟩
        split_ifs with hlt <;> exact ⟨by omega, h3⟩
    · simp only [hc, if_false, false_imp_iff, true_and]

/-- The maximum is a bound on the indices of all slots with a header, and the least one. -/
theorem maxIndex_le_iff (record : TeRecord) (f : Flash) (N : ℕ) :
    flashGetMaxIndexRecords record f ≤ N ↔ ∀ p < hrRecordPages record, ∀ s < 25,
      f.cells (slotCell record p s) = HR_RECORD_FRAME_HEADER →
        (f.cells (slotCell record p s + 1)).toNat ≤ N := by
  have haddr : ∀ p s, f.halfWordAt (hrStartAddr record + FLASH_PAGE_SIZE * p +
      FLASH_HR_ONE_RECORD_SIZE * s) = f.cells (slotCell record p s) := by
    intro p s
    rw [Flash.halfWordAt, FLASH_HR_ONE_RECORD_SIZE, slotAddr_eq,
      Nat.mul_div_cancel_left _ (by decide : 0 < 2)]
  have haddr2 : ∀ p s, f.halfWordAt (hrStartAddr record + FLASH_PAGE_SIZE * p +
      FLASH_HR_ONE_RECORD_SIZE * s + 2) = f.cells (slotCell record p s + 1) := by
    intro p s
    rw [Flash.halfWordAt, FLASH_HR_ONE_RECORD_SIZE, slotAddr_eq]
    congr 1
    omega
  have hpage : ∀ p m, maxIndexInPage record f p m ≤ N ↔
      m ≤ N ∧ ∀ s < 25, f.cells (slotCell record p s) = HR_RECORD_FRAME_HEADER →
        (f.cells (slotCell record p s + 1)).toNat ≤ N := by
    intro p m
    simp only [maxIndexInPage, foldl_max_le_iff, List.mem_range, haddr, haddr2,
      FLASH_PAGE_HR_RECORD_NUM]
  suffices h : ∀ (l : List ℕ) (m : ℕ),
      l.foldl (fun indexMax page => maxIndexInPage record f page indexMax) m ≤ N ↔
        m ≤ N ∧ ∀ p ∈ l, ∀ s < 25, f.cells (slotCell record p s) = HR_RECORD_FRAME_HEADER →
          (f.cells (slotCell record p s + 1)).toNat ≤ N by
    rw [flashGetMaxIndexRecords, h]
    simp only [Nat.zero_le, true_and, List.mem_range]
  intro l
  induction l with
  | nil => intro m; simp
  | cons p l ih =>
    intro m
    rw [List.foldl_cons, ih, hpage, List.forall_mem_cons, and_assoc]

theorem Holds.header {record : TeRecord} {A : Set ℕ} {body : ℕ → RecordBody} {f : Flash}
    (h : Holds record A body f) {k : ℕ} (hk : k ∈ A) :
    f.cells (recordCell record k) = HR_RECORD_FRAME_HEADER ∧
      f.cells (recordCell record k + 1) = UInt16.ofNat k :=
  header_of_words (h.stored k hk)

/-- A slot with a header belongs to a stored record. -/
theorem Holds.of_header {record : TeRecord} {A : Set ℕ} {body : ℕ → RecordBody} {f : Flash}
    (h : Holds record A body f) {p s : ℕ} (hp : p < hrRecordPages record) (hs : s < 25)
    (hh : f.cells (slotCell record p s) = HR_RECORD_FRAME_HEADER) :
    ∃ k ∈ A, recordPage record k = p ∧ recordSlot k = s := by
  by_contra hno
  have hno' : ∀ k ∈ A, ¬ (recordPage record k = p ∧ recordSlot k = s) :=
    fun k hk he => hno ⟨k, hk, he⟩
  have := h.blank p hp s hs hno' 0 (by decide)
  rw [Nat.add_zero, hh] at this
  exact absurd this (by decide)

/-- `Flash_GetMaxIndex_Records` finds the newest record. -/
theorem Holds.maxIndex_eq {record : TeRecord} {A : Set ℕ} {body : ℕ → RecordBody} {f : Flash}
    {n : ℕ} (h : Holds record A body f) (hle : ∀ k ∈ A, k ≤ n) (hn : 0 < n → n ∈ A)
    (hlt : n < 65536) : flashGetMaxIndexRecords record f = n := by
  have htoNat : ∀ k ≤ n, (UInt16.ofNat k).toNat = k := by
    intro k hk
    rw [UInt16.toNat_ofNat']
    omega
  apply le_antisymm
  · rw [maxIndex_le_iff]
    intro p hp s hs hh
    obtain ⟨k, hk, rfl, rfl⟩ := h.of_header hp hs hh
    rw [(h.header hk).2, htoNat k (hle k hk)]
    exact hle k hk
  · rcases Nat.eq_zero_or_pos n with rfl | h0
    · exact Nat.zero_le _
    · have hmem := hn h0
      have := (maxIndex_le_iff record f _).mp le_rfl _ (recordPage_lt record n) _
        (recordSlot_lt n) (h.header hmem).1
      rwa [(h.header hmem).2, htoNat n le_rfl] at this

/-! The erase-ahead. -/

/-- The page that the append after record `n` erases, if it erases one. -/
def aheadPage (record : TeRecord) (n : ℕ) : Option ℕ :=
  if n % 25 = 24 ∧ hrRecordPages record ≤ (n + 1) / 25 then
    some ((n + 1) / 25 % hrRecordPages record)
  else none

def pageAddr (record : TeRecord) (page : ℕ) : ℕ := hrStartAddr record + FLASH_PAGE_SIZE * page

/-- The events of the erase-ahead after record `n`. -/
def aheadOps (record : TeRecord) (n : ℕ) : List FlashOp :=
  match aheadPage record n with
  | some page => eraseOps (pageAddr record page)
  | none => []

theorem flashErasePageRecords_events (record : TeRecord) {page : ℕ}
    (h : page < hrRecordPages record) (f : Flash) :
    (flashErasePageRecords record page).events f = eraseOps (pageAddr record page) := by
  have hle : page ≤ hrRecordPages record - 1 := by omega
  have haddr : pageAddr record page / 256 * 256 = pageAddr record page := by
    have := hrStartAddr_eq record
    simp only [pageAddr, FLASH_PAGE_SIZE]
    omega
  simp only [flashErasePageRecords, if_pos hle, bspFlashFastUnLock, bspFlashFastLock,
    flashErasePageFast, Prog.events_bind, Prog.events_emit, Prog.events_gets]
  rw [← pageAddr, haddr]
  rfl

/-- Going back all pages but one is going one page ahead. -/
theorem page_ahead {P q : ℕ} (hP : 0 < P) (hq : P - 1 ≤ q) (hlast : q % P ≠ P - 1) :
    (q - (P - 1)) % P = q % P + 1 := by
  have hlt := Nat.mod_lt q hP
  have hround : q + 1 = q - (P - 1) + P := by omega
  rw [← Nat.add_mod_right, ← hround, ← Nat.mod_add_mod]
  exact Nat.mod_eq_of_lt (by omega)

theorem oldest_index {n m : ℕ} (h0 : 0 < m) (hm : m < n) (hn : n < 65536) :
    (((n : ℤ) - ((m : ℤ) - 1)) % 65536).toNat = n - m + 1 := by omega

/-- Past the first branch of the source, its second branch is taken exactly when the
log has been round once. -/
theorem start_page_iff (record : TeRecord) {n : ℕ} (hn : n < 65536) (h24 : n % 25 = 24)
    (hlast : recordPage record n ≠ hrRecordPages record - 1) :
    (recordPage record n : ℤ) = (indexStartPageOffset record n : ℤ) - 1 ↔
      hrRecordPages record ≤ (n + 1) / 25 := by
  have hP := hrRecordPages_pos record
  have hlt := recordPage_lt record n
  have hpage : recordPage record n = n / 25 % hrRecordPages record := by
    rw [recordPage, pageOf, show (n - 1) / 25 = n / 25 by omega]
  have hcap : hrRecordMaxNum record = 25 * (hrRecordPages record - 1) := by
    rcases capacity_eq record with h | ⟨-, hone⟩
    · exact h
    · omega
  rcases Nat.lt_or_ge (hrRecordMaxNum record) n with hfull | hroom
  · have hz := oldest_index (by omega) hfull hn
    have hdiv : (n - hrRecordMaxNum record) / 25 = n / 25 - (hrRecordPages record - 1) := by omega
    have hstart : indexStartPageOffset record n = recordPage record n + 1 := by
      rw [indexStartPageOffset, if_neg (by omega), hz, pageOffset_eq record (by omega) (by omega),
        recordPage, pageOf, Nat.add_sub_cancel, hdiv, hpage]
      rw [hpage] at hlast
      exact page_ahead hP (by omega) hlast
    rw [hstart]
    exact iff_of_true (by omega) (by omega)
  · rw [indexStartPageOffset, if_pos hroom]
    exact iff_of_false (by omega) (by omega)

/-- The two conditions of the source, each of which asks for the last but one slot,
select the page that the ring turns to. -/
theorem eraseAhead_events (record : TeRecord) {n : ℕ} (hn : n < 65536) (f : Flash) :
    (eraseAhead record n).events f = aheadOps record n := by
  have hP := hrRecordPages_pos record
  simp only [eraseAhead, Prog.events_ite, Prog.events_bind, Prog.events_pure, List.append_nil]
  simp only [FLASH_PAGE_HR_RECORD_NUM]
  rcases Nat.eq_zero_or_pos n with rfl | h0
  · have h20 : slotOffset 0 = 20 := rfl
    simp [h20, aheadOps, aheadPage]
  · have hslot : recordSlot n + 1 = 24 ↔ n % 25 = 24 := by
      unfold recordSlot slotOf
      omega
    simp only [slotOffset_eq h0 hn.le, pageOffset_eq record h0 hn.le, Nat.reduceSub, hslot]
    by_cases h24 : n % 25 = 24
    · have hdiv : (n + 1) / 25 % hrRecordPages record =
          (recordPage record n + 1) % hrRecordPages record := by
        rw [show (n + 1) / 25 = (n - 1) / 25 + 1 by omega, Nat.add_mod, recordPage, pageOf]
        simp
      by_cases hlast : recordPage record n = hrRecordPages record - 1
      · have hround : hrRecordPages record ≤ (n + 1) / 25 := by
          have := Nat.mod_le ((n - 1) / 25) (hrRecordPages record)
          simp only [recordPage, pageOf] at hlast
          omega
        have hpage : (n + 1) / 25 % hrRecordPages record = 0 := by
          rw [hdiv, hlast, Nat.sub_add_cancel hP, Nat.mod_self]
        rw [if_pos ⟨h24, hlast⟩, aheadOps, aheadPage, if_pos ⟨h24, hround⟩, hpage,
          flashErasePageRecords_events record hP]
      · have hlt : recordPage record n + 1 < hrRecordPages record := by
          have := recordPage_lt record n
          omega
        have hbyte : (recordPage record n + 1) % 256 = recordPage record n + 1 :=
          Nat.mod_eq_of_lt (hlt.trans (by cases record <;> decide))
        have hstart := start_page_iff record hn h24 hlast
        rw [if_neg (fun h => hlast h.2), aheadOps, aheadPage]
        by_cases hround : hrRecordPages record ≤ (n + 1) / 25
        · rw [if_pos ⟨h24, hstart.mpr hround⟩, if_pos ⟨h24, hround⟩, hbyte, hdiv,
            Nat.mod_eq_of_lt hlt, flashErasePageRecords_events record hlt]
        · rw [if_neg (fun h => hround (hstart.mp h.2)), if_neg (fun h => hround h.2)]
    · rw [if_neg (fun h => h24 h.1), if_neg (fun h => h24 h.1), aheadOps, aheadPage,
        if_neg (fun h => h24 h.1)]

end Detector
