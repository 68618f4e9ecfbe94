import Mathlib.Data.List.Chain
import DetectorFirmware.Library.Gestures
import DetectorFirmware.Model.Button

/-! What a user of a key is told. The state of a button, with its counters of 16 bits, follows
the gestures that are told by counters without bound, so long as nobody clicks 65536 times
in a row; the callbacks are the signs of those gestures. -/

namespace Detector

open Gestures FlexButtonEvent FlexBtnStage

/-- The scans of one button, and its callbacks. -/
def flexButtonRun : FlexButton → List Bool → FlexButton × List FlexBtnCall
  | target, [] => (target, [])
  | target, pressed :: rest =>
    let (target', call) := flexButtonStep target pressed
    let r := flexButtonRun target' rest
    (r.1, call.toList ++ r.2)

/-- The callback for a sign. -/
def signCall : Sign → FlexBtnCall
  | .down => ⟨FLEX_BTN_PRESS_DOWN, 0⟩
  | .clicks n => ⟨flexClicks (UInt16.ofNat n), UInt16.ofNat n⟩
  | .shortStart => ⟨FLEX_BTN_PRESS_SHORT_START, 0⟩
  | .shortUp => ⟨FLEX_BTN_PRESS_SHORT_UP, 0⟩
  | .longStart => ⟨FLEX_BTN_PRESS_LONG_START, 0⟩
  | .longUp => ⟨FLEX_BTN_PRESS_LONG_UP, 0⟩
  | .hold => ⟨FLEX_BTN_PRESS_LONG_HOLD, 0⟩
  | .holdUp => ⟨FLEX_BTN_PRESS_LONG_HOLD_UP, 0⟩

/-- The thresholds of a button with a callback, as numbers. -/
structure HasTimes (T : Times) (b : FlexButton) : Prop where
  cb : b.cb = true
  interval : b.maxMultipleClicksInterval.toNat = T.interval
  short : b.shortPressStartTick.toNat = T.short
  long : b.longPressStartTick.toNat = T.long
  hold : b.longHoldStartTick.toNat = T.hold
  hold_lt : T.hold < 65535

variable {T : Times} {b : FlexButton}

/-- The counter is the number of scans, until it starts again and again at the hold. -/
def Counts (T : Times) (b : FlexButton) (t : ℕ) : Prop :=
  b.scanCnt.toNat < 65535 ∧
    (b.scanCnt.toNat = t ∨ (T.hold ≤ t ∧ T.hold ≤ b.scanCnt.toNat))

/-- The last event tells which stage has been announced. -/
def Announced (T : Times) (b : FlexButton) (t : ℕ) : Prop :=
  if T.hold ≤ t then b.event = FLEX_BTN_PRESS_LONG_HOLD
  else if T.long ≤ t then b.event = FLEX_BTN_PRESS_LONG_START
  else if T.short ≤ t then b.event = FLEX_BTN_PRESS_SHORT_START
  else b.event ≠ FLEX_BTN_PRESS_SHORT_START

/-- What a button knows of a gesture. -/
def Tracks (T : Times) (b : FlexButton) : Phase → Prop
  | .up => b.status = FLEX_BTN_STAGE_DEFAULT
  | .down t => b.status = FLEX_BTN_STAGE_DOWN ∧ b.clickCnt = 0 ∧ Counts T b t ∧ Announced T b t
  | .between n t => b.status = FLEX_BTN_STAGE_MULTIPLE_CLICK ∧ b.clickCnt = UInt16.ofNat n ∧
      0 < n ∧ n < 65536 ∧ b.scanCnt.toNat = t ∧ t < T.short
  | .again n t => b.status = FLEX_BTN_STAGE_DOWN ∧ b.clickCnt = UInt16.ofNat n ∧
      0 < n ∧ n < 65536 ∧ b.scanCnt.toNat = t ∧ t ≤ T.interval

/-! One scan. -/

/-- A button whose counter was just counted up. -/
structure Counted (T : Times) (b b' : FlexButton) : Prop where
  times : HasTimes T b'
  status : b'.status = b.status
  clickCnt : b'.clickCnt = b.clickCnt
  event : b'.event = b.event

theorem counted (h : HasTimes T b) : Counted T b (flexButtonCount b) := by
  unfold flexButtonCount
  split_ifs <;> exact ⟨⟨h.cb, h.interval, h.short, h.long, h.hold, h.hold_lt⟩, rfl, rfl, rfl⟩

/-- No scan changes what a user sets. -/
theorem hasTimes_step (h : HasTimes T b) (pressed : Bool) : HasTimes T (flexButtonStep b pressed).1 := by
  obtain ⟨hcb, hinterval, hshort, hlong, hhold, hlt⟩ := (counted h).times
  unfold flexButtonStep flexButtonStage
  split
  all_goals split_ifs <;> exact ⟨hcb, hinterval, hshort, hlong, hhold, hlt⟩

theorem count_toNat (h : HasTimes T b) (hs : b.status ≠ FLEX_BTN_STAGE_DEFAULT)
    (hlt : b.scanCnt.toNat < 65535) : (flexButtonCount b).scanCnt.toNat =
      if b.scanCnt.toNat + 1 = 65535 then T.hold else b.scanCnt.toNat + 1 := by
  have hsum : (b.scanCnt + 1).toNat = b.scanCnt.toNat + 1 := by
    rw [UInt16.toNat_add, UInt16.toNat_one]
    exact Nat.mod_eq_of_lt (by omega)
  have hge : b.scanCnt + 1 ≥ 65535 ↔ b.scanCnt.toNat + 1 = 65535 := by
    rw [ge_iff_le, UInt16.le_iff_toNat_le, hsum]
    show 65535 ≤ _ ↔ _
    omega
  rw [flexButtonCount, if_pos hs]
  by_cases hend : b.scanCnt.toNat + 1 = 65535
  · rw [if_pos hend, ← h.hold]
    exact congrArg UInt16.toNat (if_pos (hge.mpr hend))
  · rw [if_neg hend, ← hsum]
    exact congrArg UInt16.toNat (if_neg (mt hge.mp hend))

/-- A short time is counted exactly. -/
theorem count_short (h : HasTimes T b) (hs : b.status ≠ FLEX_BTN_STAGE_DEFAULT) {t : ℕ}
    (ht : b.scanCnt.toNat = t) (hlt : t < T.hold) : (flexButtonCount b).scanCnt.toNat = t + 1 := by
  have hhold := h.hold_lt
  rw [count_toNat h hs (by omega), if_neg (by omega), ht]

theorem counts_zero (h : b.scanCnt = 0) : Counts T b 0 := by
  rw [Counts, h]
  exact ⟨Nat.zero_lt_succ _, Or.inl rfl⟩

/-- The time of a press is counted as far as the stages need it. -/
theorem count_press (h : HasTimes T b) (hs : b.status ≠ FLEX_BTN_STAGE_DEFAULT) {t : ℕ}
    (ht : Counts T b t) : Counts T (flexButtonCount b) (t + 1) := by
  have hhold := h.hold_lt
  obtain ⟨hlt, ht⟩ := ht
  rw [Counts, count_toNat h hs hlt]
  split_ifs <;> omega

/-- The thresholds of a press are passed when the gesture says so. -/
theorem stages_iff (h : HasTimes T b) {t : ℕ} (hc : Counts T b t) :
    (b.scanCnt ≥ b.longHoldStartTick ↔ T.hold ≤ t) ∧
      (b.scanCnt ≥ b.longPressStartTick ↔ T.long ≤ t) ∧
      (b.scanCnt ≥ b.shortPressStartTick ↔ T.short ≤ t) := by
  have hshort := T.short_lt
  have hlong := T.long_lt
  have hc := hc.2
  simp only [ge_iff_le, UInt16.le_iff_toNat_le, h.short, h.long, h.hold]
  omega

/-- A stage is announced once. -/
theorem announce_eq (h : b.cb = true) (hclicks : b.clickCnt = 0) (e : FlexButtonEvent) :
    (if b.event ≠ e then eventSetAndExecCb b e else (b, none)) =
      ({ b with event := e }, if b.event = e then none else some ⟨e, 0⟩) := by
  by_cases he : b.event = e
  · rw [if_neg (not_not.mpr he), if_pos he, ← he]
  · rw [if_pos he, if_neg he, eventSetAndExecCb, if_pos h, hclicks]

section
variable {t : ℕ} {e : FlexButtonEvent}

theorem announced_hold (h : T.hold ≤ t) : Announced T b t ↔ b.event = FLEX_BTN_PRESS_LONG_HOLD := by
  rw [Announced, if_pos h]

theorem announced_long (h : T.long ≤ t) (h' : t < T.hold) :
    Announced T b t ↔ b.event = FLEX_BTN_PRESS_LONG_START := by
  rw [Announced, if_neg (by omega), if_pos h]

theorem announced_short (h : T.short ≤ t) (h' : t < T.long) :
    Announced T b t ↔ b.event = FLEX_BTN_PRESS_SHORT_START := by
  have := T.long_lt
  rw [Announced, if_neg (by omega), if_neg (by omega), if_pos h]

theorem announced_none (h : t < T.short) :
    Announced T b t ↔ b.event ≠ FLEX_BTN_PRESS_SHORT_START := by
  have := T.short_lt
  have := T.long_lt
  rw [Announced, if_neg (by omega), if_neg (by omega), if_neg (by omega)]

/-- What the first stage, a later one and no stage at all leave for the next scan. -/
theorem call_once (h : b.event = e) :
    (if b.event = e then none else some (⟨e, 0⟩ : FlexBtnCall)) = none := if_pos h

theorem call_first (h : b.event ≠ e) :
    (if b.event = e then none else some (⟨e, 0⟩ : FlexBtnCall)) = some ⟨e, 0⟩ := if_neg h

end

/-- The stages of a press, at its scan `t + 1`. -/
theorem stage_pressed (h : HasTimes T b) {t : ℕ} (hstatus : b.status = FLEX_BTN_STAGE_DOWN)
    (hclicks : b.clickCnt = 0) (hcounts : Counts T b (t + 1)) (hevent : Announced T b t) :
    Tracks T (flexButtonStage b true).1 (.down (t + 1)) ∧
      (flexButtonStage b true).2 = (startAt T (t + 1)).map signCall := by
  have hshort := T.short_lt
  have hlong := T.long_lt
  obtain ⟨hholds, hlongs, hshorts⟩ := stages_iff h hcounts
  have hnone : ¬ b.clickCnt > 0 := by rw [hclicks]; decide
  simp only [flexButtonStage, hstatus, if_true, if_neg hnone, announce_eq h.cb hclicks]
  by_cases h3 : T.hold ≤ t + 1
  · rw [if_pos (hholds.mpr h3)]
    refine ⟨⟨rfl, hclicks, hcounts, (announced_hold h3).mpr rfl⟩, ?_⟩
    rcases Nat.lt_or_eq_of_le h3 with hlater | hnow
    · rw [startAt_none (by omega) (by omega) (by omega)]
      exact call_once ((announced_hold (by omega)).mp hevent)
    · have hbefore := (announced_long (by omega) (by omega)).mp hevent
      rw [← hnow, startAt_hold]
      exact call_first (by rw [hbefore]; decide)
  · rw [if_neg (mt hholds.mp h3)]
    by_cases h2 : T.long ≤ t + 1
    · rw [if_pos (hlongs.mpr h2)]
      refine ⟨⟨rfl, hclicks, hcounts, (announced_long h2 (by omega)).mpr rfl⟩, ?_⟩
      rcases Nat.lt_or_eq_of_le h2 with hlater | hnow
      · rw [startAt_none (by omega) (by omega) (by omega)]
        exact call_once ((announced_long (by omega) (by omega)).mp hevent)
      · have hbefore := (announced_short (by omega) (by omega)).mp hevent
        rw [← hnow, startAt_long]
        exact call_first (by rw [hbefore]; decide)
    · rw [if_neg (mt hlongs.mp h2)]
      by_cases h1 : T.short ≤ t + 1
      · rw [if_pos (hshorts.mpr h1)]
        refine ⟨⟨rfl, hclicks, hcounts, (announced_short h1 (by omega)).mpr rfl⟩, ?_⟩
        rcases Nat.lt_or_eq_of_le h1 with hlater | hnow
        · rw [startAt_none (by omega) (by omega) (by omega)]
          exact call_once ((announced_short (by omega) (by omega)).mp hevent)
        · have hbefore := (announced_none (by omega)).mp hevent
          rw [← hnow, startAt_short]
          exact call_first hbefore
      · rw [if_neg (mt hshorts.mp h1), startAt_none (by omega) (by omega) (by omega)]
        have hbefore := (announced_none (by omega)).mp hevent
        exact ⟨⟨hstatus, hclicks, hcounts, (announced_none (by omega)).mpr hbefore⟩, rfl⟩

/-- The key is let go in a press. -/
theorem stage_released (h : HasTimes T b) {t : ℕ} (hclicks : b.clickCnt = 0)
    (hstatus : b.status = FLEX_BTN_STAGE_DOWN) (hcounts : Counts T b (t + 1)) :
    Tracks T (flexButtonStage b false).1 (if T.short ≤ t + 1 then .up else .between 1 (t + 1)) ∧
      (flexButtonStage b false).2 = (endAt T (t + 1)).map signCall := by
  have hshort := T.short_lt
  have hlong := T.long_lt
  obtain ⟨hholds, hlongs, hshorts⟩ := stages_iff h hcounts
  simp only [flexButtonStage, hstatus, Bool.false_eq_true, if_false, eventSetAndExecCb, if_pos h.cb,
    hclicks, endAt]
  by_cases h3 : T.hold ≤ t + 1
  · rw [if_pos (hholds.mpr h3), if_pos h3, if_pos (by omega)]
    exact ⟨rfl, rfl⟩
  · rw [if_neg (mt hholds.mp h3), if_neg h3]
    by_cases h2 : T.long ≤ t + 1
    · rw [if_pos (hlongs.mpr h2), if_pos h2, if_pos (by omega)]
      exact ⟨rfl, rfl⟩
    · rw [if_neg (mt hlongs.mp h2), if_neg h2]
      by_cases h1 : T.short ≤ t + 1
      · rw [if_pos (hshorts.mpr h1), if_pos h1, if_pos h1]
        exact ⟨rfl, rfl⟩
      · rw [if_neg (mt hshorts.mp h1), if_neg h1, if_neg h1]
        have hcount : b.scanCnt.toNat = t + 1 := by
          have := hcounts.2
          omega
        exact ⟨⟨rfl, rfl, Nat.one_pos, by omega, hcount, by omega⟩, rfl⟩

/-- The key is let go during a press that follows a click. -/
theorem stage_released_again (h : HasTimes T b) {n t : ℕ} (hstatus : b.status = FLEX_BTN_STAGE_DOWN)
    (hclicks : b.clickCnt = UInt16.ofNat n) (hn : n < 65535) (hcount : b.scanCnt.toNat = t)
    (ht : t < T.short) :
    Tracks T (flexButtonStage b false).1 (.between (n + 1) t) ∧ (flexButtonStage b false).2 = none := by
  have hcounts : Counts T b t := by
    have := T.short_lt
    have := T.long_lt
    have := h.hold_lt
    exact ⟨by omega, Or.inl hcount⟩
  have hshort := T.short_lt
  have hlong := T.long_lt
  obtain ⟨hholds, hlongs, hshorts⟩ := stages_iff h hcounts
  have hadd : UInt16.ofNat n + 1 = UInt16.ofNat (n + 1) := (UInt16.ofNat_add n 1).symm
  simp only [flexButtonStage, hstatus, Bool.false_eq_true, if_false]
  rw [if_neg (mt hholds.mp (by omega)), if_neg (mt hlongs.mp (by omega)),
    if_neg (mt hshorts.mp (by omega))]
  refine ⟨⟨rfl, ?_, Nat.succ_pos n, by omega, hcount, ht⟩, rfl⟩
  exact (congrArg (· + 1) hclicks).trans hadd

/-- The end of a series is told when more than the interval has passed. -/
theorem interval_iff (h : HasTimes T b) {t : ℕ} (hcount : b.scanCnt.toNat = t) :
    b.scanCnt > b.maxMultipleClicksInterval ↔ T.interval < t := by
  rw [gt_iff_lt, UInt16.lt_iff_toNat_lt, h.interval, hcount]

theorem flexClicks_ne_short (clickCnt : UInt16) : flexClicks clickCnt ≠ FLEX_BTN_PRESS_SHORT_START := by
  unfold flexClicks
  split_ifs <;> decide

theorem stage_pressed_again (h : HasTimes T b) {n t : ℕ} (hstatus : b.status = FLEX_BTN_STAGE_DOWN)
    (hclicks : b.clickCnt = UInt16.ofNat n) (hpos : 0 < n) (hn : n < 65536)
    (hcount : b.scanCnt.toNat = t) :
    Tracks T (flexButtonStage b true).1 (if T.interval < t then .down 0 else .again n t) ∧
      (flexButtonStage b true).2 =
        (if T.interval < t then some (Sign.clicks n) else none).map signCall := by
  have hinterval := T.interval_lt
  have hsome : b.clickCnt > 0 := by
    rw [hclicks, gt_iff_lt, UInt16.lt_iff_toNat_lt, UInt16.toNat_ofNat_of_lt' hn]
    exact hpos
  simp only [flexButtonStage, hstatus, if_true, if_pos hsome]
  by_cases hend : T.interval < t
  · rw [if_pos ((interval_iff h hcount).mpr hend), if_pos hend, if_pos hend]
    refine ⟨⟨rfl, rfl, counts_zero rfl, ?_⟩, ?_⟩
    · exact (announced_none (by omega)).mpr (flexClicks_ne_short _)
    · simp only [eventSetAndExecCb, if_pos h.cb, hclicks]
      rfl
  · rw [if_neg (mt (interval_iff h hcount).mp hend), if_neg hend, if_neg hend]
    exact ⟨⟨hstatus, hclicks, hpos, hn, hcount, by omega⟩, rfl⟩

/-- One scan is one sample of the gesture. -/
theorem step_tracks (h : HasTimes T b) {p : Phase} (hp : Tracks T b p) (hfew : p.clicks < 65535)
    (pressed : Bool) :
    Tracks T (flexButtonStep b pressed).1 (sample T p pressed).1 ∧
      (flexButtonStep b pressed).2 = (sample T p pressed).2.map signCall := by
  obtain ⟨htimes, hstatus, hclicks, hevent⟩ := counted h
  have hinterval := T.interval_lt
  have hshort := T.short_lt
  have hlong := T.long_lt
  cases p with
  | up =>
    have hup : (flexButtonCount b).status = FLEX_BTN_STAGE_DEFAULT := hstatus.trans hp
    cases pressed with
    | false =>
      simp only [flexButtonStep, flexButtonStage, hup, Bool.false_eq_true, if_false]
      exact ⟨rfl, rfl⟩
    | true =>
      simp only [flexButtonStep, flexButtonStage, hup, if_true, eventSetAndExecCb, if_pos htimes.cb]
      refine ⟨⟨rfl, rfl, counts_zero rfl, ?_⟩, rfl⟩
      exact (announced_none (by omega)).mpr (show FLEX_BTN_PRESS_DOWN ≠ _ by decide)
  | down t =>
    obtain ⟨hdown, hnone, hcounts, hannounced⟩ := hp
    have hcounts' := count_press h (by rw [hdown]; decide) hcounts
    rw [← hstatus] at hdown
    rw [← hclicks] at hnone
    have hannounced' : Announced T (flexButtonCount b) t := by
      rw [Announced, hevent]
      exact hannounced
    cases pressed with
    | false => exact stage_released htimes hnone hdown hcounts'
    | true => exact stage_pressed htimes hdown hnone hcounts' hannounced'
  | between n t =>
    obtain ⟨hbetween, hn, hpos, hlt, hcount, ht⟩ := hp
    have hcount' := count_short h (by rw [hbetween]; decide) hcount (by omega)
    rw [← hstatus] at hbetween
    rw [← hclicks] at hn
    cases pressed with
    | true =>
      simp only [flexButtonStep, flexButtonStage, hbetween, if_true]
      exact ⟨⟨rfl, hn, hpos, hlt, rfl, Nat.zero_le _⟩, rfl⟩
    | false =>
      simp only [flexButtonStep, flexButtonStage, hbetween, Bool.false_eq_true, if_false, sample]
      by_cases hend : T.interval < t + 1
      · rw [if_pos ((interval_iff htimes hcount').mpr hend), if_pos hend]
        simp only [eventSetAndExecCb, if_pos htimes.cb, hn]
        exact ⟨rfl, rfl⟩
      · rw [if_neg (mt (interval_iff htimes hcount').mp hend), if_neg hend]
        exact ⟨⟨hbetween, hn, hpos, hlt, hcount', by omega⟩, rfl⟩
  | again n t =>
    obtain ⟨hdown, hn, hpos, hlt, hcount, ht⟩ := hp
    have hcount' := count_short h (by rw [hdown]; decide) hcount (by omega)
    rw [← hstatus] at hdown
    rw [← hclicks] at hn
    cases pressed with
    | false => exact stage_released_again htimes hdown hn hfew hcount' (by omega)
    | true =>
      have htracks := stage_pressed_again htimes hdown hn hpos hlt hcount'
      rw [flexButtonStep, sample]
      split_ifs at htracks ⊢ <;> exact htracks

/-- The scans are the samples of the gesture, and the callbacks its signs. -/
theorem tracks_run {p : Phase} (h : HasTimes T b) (hp : Tracks T b p) {samples : List Bool}
    (hfew : FewClicks T 65535 p samples) :
    Tracks T (flexButtonRun b samples).1 (run T p samples).1 ∧
      (flexButtonRun b samples).2 = (run T p samples).2.map signCall := by
  induction samples generalizing b p with
  | nil => exact ⟨hp, rfl⟩
  | cons pressed rest ih =>
    obtain ⟨hstep, hcall⟩ := step_tracks h hp hfew.1 pressed
    obtain ⟨hrest, hcalls⟩ := ih (hasTimes_step h pressed) hstep hfew.2
    refine ⟨hrest, ?_⟩
    simp only [flexButtonRun, run, hcall, hcalls, List.map_append]
    cases (sample T p pressed).2 <;> rfl

/-! `user_button[0]`, as it is registered. -/

def registeredButton0 : FlexButton := flexButtonRegistered userButton0

/-- 0.3 s between clicks; a short press from 1.5 s, a long one from 3 s, a hold from 4.5 s. -/
def times0 : Times where
  interval := 15
  short := 75
  long := 150
  hold := 225
  interval_lt := by decide
  short_lt := by decide
  long_lt := by decide

theorem hasTimes_button0 : HasTimes times0 registeredButton0 :=
  ⟨rfl, rfl, rfl, rfl, rfl, by decide⟩

/-! What is called back. -/

/-- Only a button that is up is at the start of a gesture. -/
theorem tracks_up_iff {p : Phase} (hp : Tracks T b p) : b.status = FLEX_BTN_STAGE_DEFAULT ↔ p = .up := by
  cases p with
  | up => exact iff_of_true hp rfl
  | down t => exact iff_of_false (by rw [hp.1]; decide) Phase.noConfusion
  | between n t => exact iff_of_false (by rw [hp.1]; decide) Phase.noConfusion
  | again n t => exact iff_of_false (by rw [hp.1]; decide) Phase.noConfusion

/-- The callbacks of a button that was up are the signs of the gesture that its samples make,
for any samples with no series of 65535 clicks, and the button is up when the gesture is over. -/
theorem flexButton_refines_gestures (h : HasTimes T b) (hup : b.status = FLEX_BTN_STAGE_DEFAULT)
    {samples : List Bool} (hfew : FewClicks T 65535 .up samples) :
    (flexButtonRun b samples).2 = (run T .up samples).2.map signCall ∧
      ((flexButtonRun b samples).1.status = FLEX_BTN_STAGE_DEFAULT ↔ (run T .up samples).1 = .up) := by
  obtain ⟨htracks, hcalls⟩ := tracks_run (p := .up) h hup hfew
  exact ⟨hcalls, tracks_up_iff htracks⟩

/-- One click of `user_button[0]` and the start of the next. -/
theorem flexButton_refines_gestures_button0 :
    (flexButtonRun registeredButton0 [true, false, true]).2 =
        (run times0 .up [true, false, true]).2.map signCall ∧
      ((flexButtonRun registeredButton0 [true, false, true]).1.status = FLEX_BTN_STAGE_DEFAULT ↔
        (run times0 .up [true, false, true]).1 = .up) :=
  flexButton_refines_gestures hasTimes_button0 rfl ⟨by decide, by decide, by decide, trivial⟩

/-- A press of `d` scans that is no click: the callbacks of the stages it reached, in order and
each once, and one callback for its end. -/
theorem flexButton_press (h : HasTimes T b) (hup : b.status = FLEX_BTN_STAGE_DEFAULT) {d : ℕ}
    (hd : T.short ≤ d) :
    (flexButtonRun b (List.replicate d true ++ [false])).2 =
        (.down :: begun T (d - 1) ++ (endAt T d).toList).map signCall ∧
      (flexButtonRun b (List.replicate d true ++ [false])).1.status = FLEX_BTN_STAGE_DEFAULT := by
  have hdown := fewClicks_pressed T (p := .up) (m := 65535) (Nat.zero_lt_succ _) d
  have hlast := Nat.lt_of_le_of_lt (clicks_run_pressed T .up d) (show 0 < 65535 by decide)
  have hfew : FewClicks T 65535 .up (List.replicate d true ++ [false]) :=
    fewClicks_append T hdown ⟨hlast, trivial⟩
  obtain ⟨htracks, hcalls⟩ := tracks_run (p := .up) h hup hfew
  rw [run_press T hd] at htracks hcalls
  exact ⟨hcalls, htracks⟩

/-- Two seconds. -/
theorem flexButton_press_button0 :
    (flexButtonRun registeredButton0 (List.replicate 100 true ++ [false])).2 =
        [⟨FLEX_BTN_PRESS_DOWN, 0⟩, ⟨FLEX_BTN_PRESS_SHORT_START, 0⟩, ⟨FLEX_BTN_PRESS_SHORT_UP, 0⟩] ∧
      (flexButtonRun registeredButton0 (List.replicate 100 true ++ [false])).1.status =
        FLEX_BTN_STAGE_DEFAULT :=
  flexButton_press hasTimes_button0 rfl (d := 100) (by decide)

/-- A series of clicks, each soon after the one before: the callback of the first press, and one
callback with their number when the series is over. -/
theorem flexButton_clicks (h : HasTimes T b) (hup : b.status = FLEX_BTN_STAGE_DEFAULT)
    {cs : List Click} (hcs : ∀ c ∈ cs, c.Quick T) (hmany : cs.length < 65534) {pressed pause : ℕ}
    (hpressed : 0 < pressed) (hle : pressed ≤ T.interval + 1) (hpause : 2 ≤ pause)
    (hend : T.interval + 1 < pressed + pause) :
    (flexButtonRun b (cs.flatMap Click.samples ++ Click.samples ⟨pressed, pause⟩)).2 =
        [⟨FLEX_BTN_PRESS_DOWN, 0⟩,
          ⟨flexClicks (UInt16.ofNat (cs.length + 1)), UInt16.ofNat (cs.length + 1)⟩] ∧
      (flexButtonRun b (cs.flatMap Click.samples ++ Click.samples ⟨pressed, pause⟩)).1.status =
        FLEX_BTN_STAGE_DEFAULT := by
  have hfew := fewClicks_clicks T (m := 65535) (c := ⟨pressed, pause⟩) hcs hpressed hle (by omega)
  obtain ⟨htracks, hcalls⟩ := tracks_run (p := .up) h hup hfew
  rw [run_clicks T hcs hpressed hle hpause hend] at htracks hcalls
  exact ⟨hcalls, htracks⟩

/-- A double click. -/
theorem flexButton_clicks_button0 :
    (flexButtonRun registeredButton0 (Click.samples ⟨4, 5⟩ ++ Click.samples ⟨4, 20⟩)).2 =
        [⟨FLEX_BTN_PRESS_DOWN, 0⟩, ⟨FLEX_BTN_PRESS_DOUBLE_CLICK, 2⟩] ∧
      (flexButtonRun registeredButton0 (Click.samples ⟨4, 5⟩ ++ Click.samples ⟨4, 20⟩)).1.status =
        FLEX_BTN_STAGE_DEFAULT :=
  have hquick : ∀ c ∈ [(⟨4, 5⟩ : Click)], c.Quick times0 :=
    fun _ hc => List.mem_singleton.mp hc ▸ ⟨by decide, by decide, by decide⟩
  flexButton_clicks hasTimes_button0 rfl hquick (by decide) (by decide) (by decide) (by decide) (by decide)

/-! The order of the callbacks. -/

/-- Which event may be called back next. -/
def eventFollows : FlexButtonEvent → FlexButtonEvent → Bool
  | FLEX_BTN_PRESS_DOWN, e => e ∈ [FLEX_BTN_PRESS_SHORT_START, FLEX_BTN_PRESS_SHORT_UP,
      FLEX_BTN_PRESS_CLICK, FLEX_BTN_PRESS_DOUBLE_CLICK, FLEX_BTN_PRESS_REPEAT_CLICK]
  | FLEX_BTN_PRESS_CLICK, e | FLEX_BTN_PRESS_DOUBLE_CLICK, e | FLEX_BTN_PRESS_REPEAT_CLICK, e =>
      e ∈ [FLEX_BTN_PRESS_DOWN, FLEX_BTN_PRESS_SHORT_START, FLEX_BTN_PRESS_SHORT_UP,
        FLEX_BTN_PRESS_CLICK, FLEX_BTN_PRESS_DOUBLE_CLICK, FLEX_BTN_PRESS_REPEAT_CLICK]
  | FLEX_BTN_PRESS_SHORT_START, e =>
      e ∈ [FLEX_BTN_PRESS_LONG_START, FLEX_BTN_PRESS_LONG_UP, FLEX_BTN_PRESS_SHORT_UP]
  | FLEX_BTN_PRESS_LONG_START, e =>
      e ∈ [FLEX_BTN_PRESS_LONG_HOLD, FLEX_BTN_PRESS_LONG_HOLD_UP, FLEX_BTN_PRESS_LONG_UP]
  | FLEX_BTN_PRESS_LONG_HOLD, e => e = FLEX_BTN_PRESS_LONG_HOLD_UP
  | FLEX_BTN_PRESS_SHORT_UP, e | FLEX_BTN_PRESS_LONG_UP, e | FLEX_BTN_PRESS_LONG_HOLD_UP, e =>
      e = FLEX_BTN_PRESS_DOWN
  | FLEX_BTN_PRESS_MAX, _ | FLEX_BTN_PRESS_NONE, _ => false

theorem flexClicks_cases {n : ℕ} (hpos : 0 < n) (hn : n < 65536) :
    flexClicks (UInt16.ofNat n) = FLEX_BTN_PRESS_CLICK ∨
      flexClicks (UInt16.ofNat n) = FLEX_BTN_PRESS_DOUBLE_CLICK ∨
      flexClicks (UInt16.ofNat n) = FLEX_BTN_PRESS_REPEAT_CLICK := by
  have hne : UInt16.ofNat n ≠ 0 := by
    intro hzero
    have := congrArg UInt16.toNat hzero
    rw [UInt16.toNat_ofNat_of_lt' hn] at this
    exact Nat.ne_of_gt hpos this
  unfold flexClicks
  rw [if_neg hne]
  split_ifs
  · exact Or.inl rfl
  · exact Or.inr (Or.inl rfl)
  · exact Or.inr (Or.inr rfl)

/-- A number of clicks that a callback can tell. -/
def Told : Sign → Prop
  | .clicks n => 0 < n ∧ n < 65536
  | _ => True

theorem signCall_follows {s s' : Sign} (h : Follows s s') (hs : Told s) (hs' : Told s') :
    eventFollows (signCall s).event (signCall s').event = true := by
  cases s with
  | down =>
    rcases h with rfl | rfl | ⟨n, -, rfl⟩
    · rfl
    · rfl
    · rcases flexClicks_cases hs'.1 hs'.2 with h' | h' | h' <;> rw [signCall, signCall, h'] <;> rfl
  | clicks m =>
    have hm := flexClicks_cases hs.1 hs.2
    rcases h with rfl | rfl | rfl | ⟨n, -, rfl⟩
    · rcases hm with h | h | h <;> rw [signCall, signCall, h] <;> rfl
    · rcases hm with h | h | h <;> rw [signCall, signCall, h] <;> rfl
    · rcases hm with h | h | h <;> rw [signCall, signCall, h] <;> rfl
    · rcases hm with h | h | h <;> rcases flexClicks_cases hs'.1 hs'.2 with h' | h' | h' <;>
        rw [signCall, signCall, h, h'] <;> rfl
  | shortStart => rcases h with rfl | rfl | rfl <;> rfl
  | longStart => rcases h with rfl | rfl | rfl <;> rfl
  | hold => obtain rfl := h; rfl
  | shortUp => obtain rfl := h; rfl
  | longUp => obtain rfl := h; rfl
  | holdUp => obtain rfl := h; rfl

theorem told_startAt {t : ℕ} {s : Sign} (h : startAt T t = some s) : Told s := by
  unfold startAt at h
  split_ifs at h <;> (cases h; trivial)

theorem told_endAt {t : ℕ} {s : Sign} (h : endAt T t = some s) : Told s := by
  unfold endAt at h
  split_ifs at h <;> (cases h; trivial)

/-- A button counts the clicks that it tells. -/
theorem told_sample {p : Phase} (hp : Tracks T b p) {pressed : Bool} {s : Sign}
    (h : (sample T p pressed).2 = some s) : Told s := by
  cases p with
  | up =>
    cases pressed with
    | false => cases h
    | true => cases h; trivial
  | down t =>
    cases pressed with
    | false => exact told_endAt h
    | true => exact told_startAt h
  | between n t =>
    obtain ⟨-, -, hpos, hlt, -, -⟩ := hp
    cases pressed with
    | true => cases h
    | false =>
      rw [sample] at h
      split_ifs at h
      cases h
      exact ⟨hpos, hlt⟩
  | again n t =>
    obtain ⟨-, -, hpos, hlt, -, -⟩ := hp
    cases pressed with
    | false => cases h
    | true =>
      rw [sample] at h
      split_ifs at h
      cases h
      exact ⟨hpos, hlt⟩

theorem told_run {p : Phase} (h : HasTimes T b) (hp : Tracks T b p) {samples : List Bool}
    (hfew : FewClicks T 65535 p samples) : ∀ s ∈ (run T p samples).2, Told s := by
  induction samples generalizing b p with
  | nil => exact fun s hs => absurd hs List.not_mem_nil
  | cons pressed rest ih =>
    intro s hs
    rcases List.mem_append.mp hs with hfirst | hrest
    · exact told_sample hp (Option.mem_toList.mp hfirst)
    · exact ih (hasTimes_step h pressed) (step_tracks h hp hfew.1 pressed).1 hfew.2 s hrest

/-- The presses that end with a callback. -/
def FlexBtnCall.ended (call : FlexBtnCall) : ℕ :=
  match call.event with
  | FLEX_BTN_PRESS_CLICK | FLEX_BTN_PRESS_DOUBLE_CLICK | FLEX_BTN_PRESS_REPEAT_CLICK =>
    call.clickCnt.toNat
  | FLEX_BTN_PRESS_SHORT_UP | FLEX_BTN_PRESS_LONG_UP | FLEX_BTN_PRESS_LONG_HOLD_UP => 1
  | _ => 0

/-- The press that is going on, and the clicks before it that no callback has told yet. -/
def FlexButton.pending (b : FlexButton) : ℕ :=
  match b.status with
  | FLEX_BTN_STAGE_DEFAULT => 0
  | FLEX_BTN_STAGE_DOWN => b.clickCnt.toNat + 1
  | FLEX_BTN_STAGE_MULTIPLE_CLICK => b.clickCnt.toNat

theorem signCall_ended {s : Sign} (hs : Told s) : (signCall s).ended = s.ended := by
  cases s with
  | clicks n =>
    have hcount : (UInt16.ofNat n).toNat = n := UInt16.toNat_ofNat_of_lt' hs.2
    rcases flexClicks_cases hs.1 hs.2 with h | h | h <;>
      simp only [FlexBtnCall.ended, signCall, h, hcount, Sign.ended]
  | _ => rfl

theorem tracks_pending {p : Phase} (hp : Tracks T b p) : b.pending = p.pending := by
  cases p with
  | up =>
    have hup : b.status = FLEX_BTN_STAGE_DEFAULT := hp
    rw [FlexButton.pending, hup]
    rfl
  | down t =>
    rw [FlexButton.pending, hp.1, hp.2.1]
    rfl
  | between n t =>
    obtain ⟨hstatus, hclicks, -, hlt, -, -⟩ := hp
    rw [FlexButton.pending, hstatus, hclicks]
    exact UInt16.toNat_ofNat_of_lt' hlt
  | again n t =>
    obtain ⟨hstatus, hclicks, -, hlt, -, -⟩ := hp
    rw [FlexButton.pending, hstatus, hclicks]
    exact congrArg (· + 1) (UInt16.toNat_ofNat_of_lt' hlt)

/-- The callbacks of a button that was up come in order, as after the end of a press: a stage
begins only after the one before it, and nothing is called back that the documented events do
not name. And every time the key went down, that press has ended with one callback, or is
pending. -/
theorem flexButton_order (h : HasTimes T b) (hup : b.status = FLEX_BTN_STAGE_DEFAULT)
    {samples : List Bool} (hfew : FewClicks T 65535 .up samples) :
    List.IsChain (fun e e' => eventFollows e e' = true)
        (FLEX_BTN_PRESS_SHORT_UP :: (flexButtonRun b samples).2.map FlexBtnCall.event) ∧
      presses false samples =
        ((flexButtonRun b samples).2.map FlexBtnCall.ended).sum +
          (flexButtonRun b samples).1.pending := by
  have hlast : After T .up .shortUp := Or.inl rfl
  have hsigns := run_ordered T hlast samples
  have htold := told_run (p := .up) h hup hfew
  obtain ⟨htracks, hcalls⟩ := tracks_run (p := .up) h hup hfew
  constructor
  · have hchain : List.IsChain
        (fun s s' => eventFollows (signCall s).event (signCall s').event = true)
        (.shortUp :: (run T .up samples).2) := by
      refine hsigns.imp_of_mem_imp fun s s' hs hs' hfollows => signCall_follows hfollows ?_ ?_
      · rcases List.mem_cons.mp hs with rfl | hmem
        · trivial
        · exact htold s hmem
      · rcases List.mem_cons.mp hs' with rfl | hmem
        · trivial
        · exact htold s' hmem
    rw [hcalls, List.map_map]
    exact (List.isChain_cons_map (R := fun e e' => eventFollows e e' = true)
      fun s => (signCall s).event).mpr hchain
  · have hended := run_ended T .up samples
    have hsame : (run T .up samples).2.map (FlexBtnCall.ended ∘ signCall) =
        (run T .up samples).2.map Sign.ended :=
      List.map_congr_left fun s hs => signCall_ended (htold s hs)
    rw [hcalls, List.map_map, hsame, tracks_pending htracks, ← hended]
    exact (Nat.zero_add _).symm

/-- A double click and the press after it. -/
theorem flexButton_order_button0 :
    List.IsChain (fun e e' => eventFollows e e' = true)
        (FLEX_BTN_PRESS_SHORT_UP :: (flexButtonRun registeredButton0
          [true, false, true, false, true, true, true]).2.map FlexBtnCall.event) ∧
      presses false [true, false, true, false, true, true, true] =
        ((flexButtonRun registeredButton0
          [true, false, true, false, true, true, true]).2.map FlexBtnCall.ended).sum +
          (flexButtonRun registeredButton0 [true, false, true, false, true, true, true]).1.pending :=
  flexButton_order hasTimes_button0 rfl
    ⟨by decide, by decide, by decide, by decide, by decide, by decide, by decide, trivial⟩

end Detector
