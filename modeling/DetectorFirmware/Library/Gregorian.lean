import Mathlib.Algebra.BigOperators.Intervals
import Mathlib.Algebra.Order.BigOperators.Group.Finset
import Mathlib.Tactic.IntervalCases

/-! The civil calendar: leap years, the lengths of years and months, dates that exist, and
the number of days from the first of January of an epoch. -/

namespace Gregorian

open Finset

def IsLeap (year : ℕ) : Prop := year % 4 = 0 ∧ (year % 100 ≠ 0 ∨ year % 400 = 0)

instance (year : ℕ) : Decidable (IsLeap year) := inferInstanceAs (Decidable (_ ∧ _))

def yearLength (year : ℕ) : ℕ := if IsLeap year then 366 else 365

def monthLength (year : ℕ) : ℕ → ℕ
  | 2 => if IsLeap year then 29 else 28
  | 4 | 6 | 9 | 11 => 30
  | _ => 31

def IsDate (year month day : ℕ) : Prop :=
  1 ≤ month ∧ month ≤ 12 ∧ 1 ≤ day ∧ day ≤ monthLength year month

instance (year month day : ℕ) : Decidable (IsDate year month day) :=
  inferInstanceAs (Decidable (_ ∧ _))

/-- A date that exists. -/
structure Date where
  year : ℕ
  month : ℕ
  day : ℕ
  valid : IsDate year month day

def IsTime (hour minute second : ℕ) : Prop := hour < 24 ∧ minute < 60 ∧ second < 60

instance (hour minute second : ℕ) : Decidable (IsTime hour minute second) :=
  inferInstanceAs (Decidable (_ ∧ _))

structure TimeOfDay where
  hour : ℕ
  minute : ℕ
  second : ℕ
  valid : IsTime hour minute second

/-- Days from the first of January of `epoch` to the first of January of `year`. -/
def daysBefore (epoch year : ℕ) : ℕ := ∑ y ∈ Ico epoch year, yearLength y

/-- Days from the first of January to the first day of a month. -/
def monthStart (year month : ℕ) : ℕ := ∑ m ∈ Ico 1 month, monthLength year m

/-- The day of the year, counted from zero. -/
def dayOfYear (year month day : ℕ) : ℕ := monthStart year month + (day - 1)

/-- Days since the first of January of `epoch`. -/
def Date.number (epoch : ℕ) (d : Date) : ℕ :=
  daysBefore epoch d.year + dayOfYear d.year d.month d.day

def TimeOfDay.seconds (t : TimeOfDay) : ℕ := t.hour * 3600 + t.minute * 60 + t.second

/-! Years. -/

theorem daysBefore_self (year : ℕ) : daysBefore year year = 0 := by simp [daysBefore]

theorem daysBefore_succ {epoch year : ℕ} (h : epoch ≤ year) :
    daysBefore epoch (year + 1) = daysBefore epoch year + yearLength year :=
  sum_Ico_succ_top h yearLength

/-- The year at the start comes off first. -/
theorem daysBefore_head {epoch year : ℕ} (h : epoch < year) :
    daysBefore epoch year = yearLength epoch + daysBefore (epoch + 1) year :=
  sum_eq_sum_Ico_succ_bot h yearLength

theorem daysBefore_mono (epoch : ℕ) {m n : ℕ} (h : m ≤ n) : daysBefore epoch m ≤ daysBefore epoch n :=
  sum_le_sum_of_subset (Ico_subset_Ico_right h)

theorem le_yearLength (year : ℕ) : 365 ≤ yearLength year := by
  unfold yearLength
  split_ifs <;> omega

theorem le_daysBefore {epoch year : ℕ} (h : epoch ≤ year) :
    365 * (year - epoch) ≤ daysBefore epoch year := by
  induction year, h using Nat.le_induction with
  | base => rw [daysBefore_self, Nat.sub_self]
  | succ year h ih =>
    have := le_yearLength year
    rw [daysBefore_succ h]
    omega

theorem not_isLeap_succ {year : ℕ} (h : IsLeap year) : ¬ IsLeap (year + 1) := by
  unfold IsLeap at *
  omega

/-- No century year but 2000 is near. -/
theorem isLeap_iff {year : ℕ} (hlow : 1970 ≤ year) (hhigh : year < 2100) :
    IsLeap year ↔ year % 4 = 0 := by
  unfold IsLeap
  omega

theorem daysBefore_1970 {year : ℕ} (hlow : 1970 ≤ year) (hhigh : year ≤ 2100) :
    daysBefore 1970 year = 365 * (year - 1970) + (year - 1969) / 4 := by
  induction year, hlow using Nat.le_induction with
  | base => exact daysBefore_self 1970
  | succ year hlow ih =>
    rw [daysBefore_succ hlow, ih (by omega), yearLength]
    have hleap := isLeap_iff hlow (by omega)
    split_ifs with h
    · have := hleap.mp h
      omega
    · have := mt hleap.mpr h
      omega

/-! Months. -/

theorem monthStart_one (year : ℕ) : monthStart year 1 = 0 := by simp [monthStart]

theorem monthStart_succ (year : ℕ) {month : ℕ} (h : 1 ≤ month) :
    monthStart year (month + 1) = monthStart year month + monthLength year month :=
  sum_Ico_succ_top h (monthLength year)

theorem monthLength_bounds (year month : ℕ) : 28 ≤ monthLength year month ∧
    monthLength year month ≤ 31 := by
  unfold monthLength
  split
  · split_ifs <;> omega
  all_goals omega

/-- The twelve months make up the year. -/
theorem monthStart_thirteen (year : ℕ) : monthStart year 13 = yearLength year := by
  simp only [monthStart, sum_Ico_succ_top, monthLength, yearLength, Nat.reduceLeDiff, Nat.reduceAdd,
    Ico_self, sum_empty]
  split_ifs <;> rfl

theorem monthStart_mono (year : ℕ) {m n : ℕ} (h : m ≤ n) : monthStart year m ≤ monthStart year n :=
  sum_le_sum_of_subset (Ico_subset_Ico_right h)

theorem dayOfYear_lt {year month day : ℕ} (h : IsDate year month day) :
    dayOfYear year month day < yearLength year := by
  obtain ⟨h1, h12, hd, hlen⟩ := h
  have hend := monthStart_mono year (Nat.succ_le_succ h12)
  rw [monthStart_succ year h1, monthStart_thirteen] at hend
  unfold dayOfYear
  omega

theorem Date.number_lt {epoch : ℕ} {d : Date} (h : epoch ≤ d.year) :
    d.number epoch < daysBefore epoch (d.year + 1) := by
  rw [daysBefore_succ h]
  exact Nat.add_lt_add_left (dayOfYear_lt d.valid) _

/-! A number names one date. -/

/-- A position in a row of blocks determines the block and the place in it. -/
theorem block_unique {f : ℕ → ℕ} {e a b r s : ℕ} (ha : e ≤ a) (hb : e ≤ b) (hr : r < f a)
    (hs : s < f b) (h : ∑ i ∈ Ico e a, f i + r = ∑ i ∈ Ico e b, f i + s) : a = b ∧ r = s := by
  have hle : ∀ {a b : ℕ}, e ≤ a → a < b → ∑ i ∈ Ico e a, f i + f a ≤ ∑ i ∈ Ico e b, f i := by
    intro a b ha hab
    rw [← sum_Ico_succ_top ha]
    exact sum_le_sum_of_subset (Ico_subset_Ico_right hab)
  rcases Nat.lt_trichotomy a b with hab | rfl | hab
  · have := hle ha hab
    omega
  · exact ⟨rfl, by omega⟩
  · have := hle hb hab
    omega

theorem Date.ext {d e : Date} (hy : d.year = e.year) (hm : d.month = e.month) (hd : d.day = e.day) :
    d = e := by
  obtain ⟨y, m, a, hv⟩ := d
  obtain ⟨y', m', a', hv'⟩ := e
  dsimp only at hy hm hd
  subst hy hm hd
  rfl

theorem Date.number_inj {epoch : ℕ} {d e : Date} (hd : epoch ≤ d.year) (he : epoch ≤ e.year)
    (h : d.number epoch = e.number epoch) : d = e := by
  obtain ⟨hyear, hday⟩ := block_unique hd he (dayOfYear_lt d.valid) (dayOfYear_lt e.valid) h
  rw [hyear] at hday
  have hlen : ∀ x : Date, x.day - 1 < monthLength x.year x.month := by
    intro x
    obtain ⟨-, -, h1, h2⟩ := x.valid
    omega
  have hlend := hlen d
  rw [hyear] at hlend
  obtain ⟨hmonth, hd'⟩ := block_unique d.valid.1 e.valid.1 hlend (hlen e) hday
  have hd1 := d.valid.2.2.1
  have he1 := e.valid.2.2.1
  exact Date.ext hyear hmonth (by omega)

theorem TimeOfDay.seconds_lt (t : TimeOfDay) : t.seconds < 86400 := by
  obtain ⟨h1, h2, h3⟩ := t.valid
  unfold TimeOfDay.seconds
  omega

/-- The thirty-first of December of a leap year. -/
def Date.LeapYearEnd (d : Date) : Prop := IsLeap d.year ∧ d.month = 12 ∧ d.day = 31

theorem dayOfYear_end {year : ℕ} (h : IsLeap year) : dayOfYear year 12 31 = 365 := by
  have hend := monthStart_thirteen year
  rw [monthStart_succ year (by decide), yearLength, if_pos h] at hend
  have hdec : monthLength year 12 = 31 := rfl
  rw [dayOfYear]
  omega

/-- It is the only day of any year with 365 days before it. -/
theorem Date.leapYearEnd_iff (d : Date) :
    d.LeapYearEnd ↔ dayOfYear d.year d.month d.day = 365 := by
  have hlt := dayOfYear_lt d.valid
  constructor
  · rintro ⟨hleap, hmonth, hday⟩
    rw [hmonth, hday, dayOfYear_end hleap]
  · intro h
    have hleap : IsLeap d.year := by
      by_contra hno
      rw [yearLength, if_neg hno] at hlt
      omega
    have hvalid : IsDate d.year 12 31 := ⟨by decide, le_rfl, by decide, le_rfl⟩
    have hsame : d = ⟨d.year, 12, 31, hvalid⟩ := by
      refine Date.number_inj (le_refl d.year) le_rfl ?_
      rw [Date.number, Date.number, h, dayOfYear_end hleap]
    exact ⟨hleap, congrArg Date.month hsame, congrArg Date.day hsame⟩

end Gregorian
