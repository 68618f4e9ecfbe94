import Mathlib.Algebra.BigOperators.Ring.Finset
import DetectorFirmware.Proofs.DateLoops

/-! `RTC_Set` against the civil calendar. It looks at the year only: for a year of the
supported range it sets the counter, to the right value if the other fields name a date and
time that exist, and to some value if they do not. -/

namespace Detector

open EventLog Gregorian

variable {r : Rtc} {t : SetTime}

/-! The indices that are read. -/

theorem rtcSetMonths_events (syear : UInt16) (i n : ℕ) (s : UInt32) (m : ℕ → UInt8) :
    (rtcSetMonths syear i n s).events m = List.range' i n := by
  induction n generalizing i s with
  | zero => rfl
  | succ n ih =>
    rw [rtcSetMonths, Prog.events_bind, ReadM.events_load, ReadM.final_eq, ih, List.range'_succ,
      List.singleton_append]

theorem rtcSetMonths_result (syear : UInt16) (i n : ℕ) (s : UInt32) (m : ℕ → UInt8) :
    (rtcSetMonths syear i n s).result m = (List.range' i n).foldl
      (fun (s : UInt32) t =>
        let s := s + (m t).toUInt32 * 86400
        if isLeapYear syear.toNat && t == 1 then s + 86400 else s) s := by
  induction n generalizing i s with
  | zero => rw [rtcSetMonths, Prog.result_pure, List.range'_zero, List.foldl_nil]
  | succ n ih =>
    rw [rtcSetMonths, Prog.result_bind, ReadM.result_load, ReadM.final_eq, ih, List.range'_succ,
      List.foldl_cons]

/-- The program with its reads is the function of the model. -/
theorem rtcSet_eq_read (r : Rtc) (syear : UInt16) (smon sday hour min sec : UInt8) :
    rtcSet r syear smon sday hour min sec =
      match (rtcSetRead syear smon sday hour min sec).result r.monTableAt with
      | none => (1, r)
      | some seccount => (0, { r with counter := seccount }) := by
  unfold rtcSet rtcSetRead
  split_ifs with hyear
  · rw [Prog.result_pure]
  · rw [Prog.result_bind, Prog.result_pure, rtcSetMonths_result, ← List.range_eq_range']
    rfl

theorem rtcSetRead_events (syear : UInt16) (smon sday hour min sec : UInt8) (m : ℕ → UInt8) :
    (rtcSetRead syear smon sday hour min sec).events m =
      if syear.toNat < 1970 ∨ 2099 < syear.toNat then [] else List.range' 0 (smon - 1).toNat := by
  unfold rtcSetRead
  split_ifs with hyear
  · rfl
  · rw [Prog.events_bind, Prog.events_pure, rtcSetMonths_events, List.append_nil]

/-! The sum. -/

/-- The rounds of the two loops of `RTC_Set`. -/
def yearRound (s : UInt32) (t : ℕ) : UInt32 :=
  if isLeapYear t then s + 31622400 else s + 31536000

def monthRound (r : Rtc) (syear : ℕ) (s : UInt32) (t : ℕ) : UInt32 :=
  let s := s + (r.monTableAt t).toUInt32 * 86400
  if isLeapYear syear && t == 1 then s + 86400 else s

theorem rtcSetSeconds_eq (r : Rtc) (syear : UInt16) (smon sday hour min sec : UInt8) :
    rtcSetSeconds r syear smon sday hour min sec =
      (List.range (smon - 1).toNat).foldl (monthRound r syear.toNat)
          ((List.range' 1970 (syear.toNat - 1970)).foldl yearRound 0) +
        (sday.toUInt32 - 1) * 86400 + hour.toUInt32 * 3600 + min.toUInt32 * 60 + sec.toUInt32 := rfl

/-- A running 32-bit sum that starts at the image of a natural number stays one. -/
theorem foldl_ofNat {l : List ℕ} {step : UInt32 → ℕ → UInt32} {part : ℕ → ℕ}
    (h : ∀ n, ∀ i ∈ l, step (UInt32.ofNat n) i = UInt32.ofNat (n + part i)) (n : ℕ) :
    l.foldl step (UInt32.ofNat n) = UInt32.ofNat (n + (l.map part).sum) := by
  induction l generalizing n with
  | nil => rfl
  | cons i l ih =>
    have hrest : ∀ n, ∀ i ∈ l, step (UInt32.ofNat n) i = UInt32.ofNat (n + part i) :=
      fun n j hj => h n j (List.mem_cons_of_mem i hj)
    rw [List.foldl_cons, h n i List.mem_cons_self, ih hrest, List.map_cons, List.sum_cons,
      Nat.add_assoc]

theorem sum_range' (f : ℕ → ℕ) (i n : ℕ) :
    ((List.range' i n).map f).sum = ∑ j ∈ Finset.Ico i (i + n), f j := by
  induction n with
  | zero => simp
  | succ n ih =>
    rw [List.range'_1_concat, List.map_append, List.sum_append, ih, ← Nat.add_assoc,
      Finset.sum_Ico_succ_top (Nat.le_add_right i n)]
    simp

theorem yearRound_ofNat (n i : ℕ) :
    yearRound (UInt32.ofNat n) i = UInt32.ofNat (n + 86400 * yearLength i) := by
  rw [yearRound, yearLength, UInt32.ofNat_add]
  by_cases hleap : IsLeap i
  · rw [if_pos ((isLeapYear_iff i).mpr hleap), if_pos hleap]
    rfl
  · rw [if_neg (mt (isLeapYear_iff i).mp hleap), if_neg hleap]
    rfl

theorem years_sum {syear : ℕ} (h : 1970 ≤ syear) :
    (List.range' 1970 (syear - 1970)).foldl yearRound 0 =
      UInt32.ofNat (86400 * daysBefore 1970 syear) := by
  have hsum := foldl_ofNat (l := List.range' 1970 (syear - 1970)) (fun n i _ => yearRound_ofNat n i) 0
  rw [sum_range', Nat.add_sub_cancel' h, Nat.zero_add, ← Finset.mul_sum] at hsum
  exact hsum

theorem toUInt32_eq (b : UInt8) : b.toUInt32 = UInt32.ofNat b.toNat := by
  apply UInt32.toNat_inj.mp
  have := b.toNat_lt
  rw [UInt8.toNat_toUInt32, UInt32.toNat_ofNat', Nat.mod_eq_of_lt (by omega)]

/-- The table has the lengths of the months of a common year. -/
theorem monTableAt_length (r : Rtc) (year : ℕ) {i : ℕ} (hi : i < 12) :
    monthLength year (i + 1) = (r.monTableAt i).toNat + if isLeapYear year && i == 1 then 1 else 0 := by
  interval_cases i
  all_goals simp [monthLength, Rtc.monTableAt, monTable, isLeapYear_iff]
  split_ifs <;> rfl

theorem monthRound_ofNat (r : Rtc) (syear n : ℕ) {i : ℕ} (hi : i < 12) :
    monthRound r syear (UInt32.ofNat n) i =
      UInt32.ofNat (n + 86400 * monthLength syear (i + 1)) := by
  have hday : UInt32.ofNat n + (r.monTableAt i).toUInt32 * 86400 =
      UInt32.ofNat (n + 86400 * (r.monTableAt i).toNat) := by
    rw [UInt32.ofNat_add, UInt32.ofNat_mul, toUInt32_eq, UInt32.mul_comm]
    rfl
  rw [monthRound, monTableAt_length r syear hi, hday]
  split_ifs
  · rw [Nat.mul_add, ← Nat.add_assoc, UInt32.ofNat_add _ (86400 * 1)]
    rfl
  · rfl

theorem months_sum (r : Rtc) (syear start : ℕ) {n : ℕ} (hn : n < 12) :
    (List.range n).foldl (monthRound r syear) (UInt32.ofNat start) =
      UInt32.ofNat (start + 86400 * monthStart syear (n + 1)) := by
  have hround : ∀ s, ∀ i ∈ List.range n, monthRound r syear (UInt32.ofNat s) i =
      UInt32.ofNat (s + 86400 * monthLength syear (i + 1)) :=
    fun s i hi => monthRound_ofNat r syear s ((List.mem_range.mp hi).trans hn)
  have hshift : ∑ j ∈ Finset.Ico 0 (0 + n), monthLength syear (j + 1) = monthStart syear (n + 1) := by
    rw [Finset.sum_Ico_add' (monthLength syear) 0 (0 + n) 1, Nat.zero_add, Nat.zero_add, monthStart]
  rw [foldl_ofNat hround, List.range_eq_range', sum_range', ← Finset.mul_sum, hshift]

/-! Dates and times that exist. -/

/-- The arguments are those of a civil date and time. -/
structure SetTime.Names (t : SetTime) (d : Date) (s : TimeOfDay) : Prop where
  year : t.year.toNat = d.year
  month : t.month.toNat = d.month
  day : t.day.toNat = d.day
  hour : t.hour.toNat = s.hour
  minute : t.minute.toNat = s.minute
  second : t.second.toNat = s.second

/-- Seconds since the first of January 1970. -/
def unixSeconds (d : Date) (s : TimeOfDay) : ℕ := d.number 1970 * 86400 + s.seconds

theorem unixSeconds_lt {d : Date} (s : TimeOfDay) (hlow : 1970 ≤ d.year) (hhigh : d.year ≤ 2099) :
    unixSeconds d s < 4102444800 := by
  have hnumber := d.number_lt hlow
  have hend : daysBefore 1970 (d.year + 1) ≤ daysBefore 1970 2100 := daysBefore_mono 1970 (by omega)
  have hlast : daysBefore 1970 2100 = 47482 := daysBefore_1970 (by decide) le_rfl
  have hsecs := s.seconds_lt
  unfold unixSeconds
  omega

theorem pred_toNat {b : UInt8} (h : 1 ≤ b.toNat) : (b - 1).toNat = b.toNat - 1 := by
  have hle : 1 ≤ b := UInt8.le_iff_toNat_le.mpr h
  rw [UInt8.toNat_sub_of_le _ _ hle]
  rfl

theorem seconds_of_names {d : Date} {s : TimeOfDay} (h : t.Names d s) (r : Rtc) (hlow : 1970 ≤ d.year) :
    t.seconds r = UInt32.ofNat (unixSeconds d s) := by
  obtain ⟨h1, h12, hd1, -⟩ := d.valid
  have hmonth : (t.month - 1).toNat = d.month - 1 := by
    rw [pred_toNat (by rw [h.month]; exact h1), h.month]
  have hday : t.day.toUInt32 - 1 = UInt32.ofNat (d.day - 1) := by
    rw [toUInt32_eq, h.day, UInt32.ofNat_sub hd1]
    rfl
  rw [SetTime.seconds, rtcSetSeconds_eq, h.year, years_sum hlow, hmonth,
    months_sum r d.year _ (by omega), hday, toUInt32_eq, toUInt32_eq, toUInt32_eq, h.hour, h.minute,
    h.second, Nat.sub_add_cancel h1]
  have hsum : unixSeconds d s = 86400 * daysBefore 1970 d.year + 86400 * monthStart d.year d.month +
      (d.day - 1) * 86400 + s.hour * 3600 + s.minute * 60 + s.second := by
    rw [unixSeconds, Date.number, dayOfYear, TimeOfDay.seconds]
    omega
  rw [hsum]
  simp only [UInt32.ofNat_add, UInt32.ofNat_mul]
  rfl

theorem counter_of_names {d : Date} {s : TimeOfDay} (h : t.Names d s) (r : Rtc)
    (hlow : 1970 ≤ d.year) (hhigh : d.year ≤ 2099) : (t.seconds r).toNat = unixSeconds d s := by
  have := unixSeconds_lt s hlow hhigh
  rw [seconds_of_names h r hlow, UInt32.toNat_ofNat', Nat.mod_eq_of_lt (by omega)]

/-- `RTC_Set` with the arguments of a command. -/
def SetTime.call (t : SetTime) (r : Rtc) : UInt8 × Rtc :=
  rtcSet r t.year t.month t.day t.hour t.minute t.second

theorem call_rejected (h : t.Rejected) (r : Rtc) : t.call r = (1, r) := if_pos h

theorem call_accepted (h : ¬ t.Rejected) (r : Rtc) :
    t.call r = (0, { r with counter := t.seconds r }) := if_neg h

theorem call_state (h : ¬ t.Rejected) (r : Rtc) :
    (t.call r).2 = { r with counter := t.seconds r } := congrArg Prod.snd (call_accepted h r)

/-- The indices of `mon_table` that the call reads. -/
def SetTime.reads (t : SetTime) (r : Rtc) : List ℕ :=
  (rtcSetRead t.year t.month t.day t.hour t.minute t.second).events r.monTableAt

/-- The call sets the counter to the date and time it is given, or does nothing and says so. -/
structure SetExact (t : SetTime) (r : Rtc) : Prop where
  in_table : ∀ i ∈ t.reads r, i < 12
  exact : ∀ d s, t.Names d s → 1970 ≤ d.year → d.year ≤ 2099 → (t.call r).1 = 0 ∧
    (t.call r).2.counter.toNat = unixSeconds d s ∧ unixSeconds d s < 2 ^ 32
  rejects : (¬ ∃ d s, t.Names d s ∧ 1970 ≤ d.year ∧ d.year ≤ 2099) →
    (t.call r).1 = 1 ∧ (t.call r).2.counter = r.counter

/-- The fields are those of a date and time that exist. -/
def SetTime.Civil (t : SetTime) : Prop :=
  IsDate t.year.toNat t.month.toNat t.day.toNat ∧ IsTime t.hour.toNat t.minute.toNat t.second.toNat

instance (t : SetTime) : Decidable t.Civil := inferInstanceAs (Decidable (_ ∧ _))

theorem civil_iff (t : SetTime) : t.Civil ↔ ∃ d s, t.Names d s := by
  constructor
  · rintro ⟨hdate, htime⟩
    exact ⟨⟨_, _, _, hdate⟩, ⟨_, _, _, htime⟩, ⟨rfl, rfl, rfl, rfl, rfl, rfl⟩⟩
  · rintro ⟨d, s, h⟩
    rw [SetTime.Civil, h.year, h.month, h.day, h.hour, h.minute, h.second]
    exact ⟨d.valid, s.valid⟩

theorem reads_eq (t : SetTime) (r : Rtc) :
    t.reads r = if t.Rejected then [] else List.range' 0 (t.month - 1).toNat :=
  rtcSetRead_events ..

theorem setExact_rejected (h : t.Rejected) (r : Rtc) : SetExact t r where
  in_table i hi := by
    rw [reads_eq, if_pos h] at hi
    exact absurd hi List.not_mem_nil
  exact d s hname hlow hhigh := by
    rw [SetTime.Rejected, hname.year] at h
    omega
  rejects _ := by
    rw [call_rejected h]
    exact ⟨rfl, rfl⟩

theorem setExact_civil (hyear : ¬ t.Rejected) (h : t.Civil) (r : Rtc) : SetExact t r where
  in_table i hi := by
    have h1 : 1 ≤ t.month.toNat := h.1.1
    have h12 : t.month.toNat ≤ 12 := h.1.2.1
    rw [reads_eq, if_neg hyear, List.mem_range'_1, pred_toNat h1] at hi
    omega
  exact d s hname hlow hhigh := by
    have hlt := unixSeconds_lt s hlow hhigh
    rw [call_accepted hyear]
    exact ⟨rfl, counter_of_names hname r hlow hhigh, by omega⟩
  rejects hno := by
    obtain ⟨d, s, hname⟩ := (civil_iff t).mp h
    rw [SetTime.Rejected, hname.year] at hyear
    exact absurd ⟨d, s, hname, by omega, by omega⟩ hno

theorem not_setExact (hyear : ¬ t.Rejected) (h : ¬ t.Civil) (r : Rtc) : ¬ SetExact t r := by
  intro hexact
  have hstatus : (t.call r).1 = 0 := by rw [call_accepted hyear]
  have hnone : ¬ ∃ d s, t.Names d s ∧ 1970 ≤ d.year ∧ d.year ≤ 2099 := by
    rintro ⟨d, s, hname, -⟩
    exact h ((civil_iff t).mpr ⟨d, s, hname⟩)
  rw [(hexact.rejects hnone).1] at hstatus
  exact absurd hstatus (by decide)

/-- `RTC_Set` is exact or without effect for the years it rejects and for the dates and
times that exist, and for no other arguments. -/
theorem setExact_iff (t : SetTime) (r : Rtc) : SetExact t r ↔ t.Rejected ∨ t.Civil := by
  by_cases hyear : t.Rejected
  · exact iff_of_true (setExact_rejected hyear r) (Or.inl hyear)
  · rw [or_iff_right hyear]
    by_cases h : t.Civil
    · exact iff_of_true (setExact_civil hyear h r) h
    · exact iff_of_false (not_setExact hyear h r) h

/-- Midnight of day 1 of month 0 of 2024, for which `RTC_Set` reads the table up to index
254. -/
def monthZero : SetTime := ⟨2024, 0, 1, 0, 0, 0⟩

theorem not_setExact_monthZero :
    ¬ SetExact monthZero (coldStart 0 (fun _ => 0) (fun _ => 0)) ∧
      254 ∈ monthZero.reads (coldStart 0 (fun _ => 0) (fun _ => 0)) := by
  refine ⟨not_setExact (by decide) (by decide) _, ?_⟩
  rw [reads_eq, if_neg (by decide), List.mem_range'_1]
  decide

end Detector
