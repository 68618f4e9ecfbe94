import Mathlib.Logic.Function.Iterate
import Mathlib.Tactic.SplitIfs

/-! A counter that runs down to zero and starts again from its reload value, and a
sampler that reads it now and then. Between two readings the sampler counts the
difference, one period more when the counter has gone up: it never counts more
decrements than there were, and it counts all of them when less than a period passed. -/

namespace DownCounter

variable {reload c t : ℕ}

def next (reload c : ℕ) : ℕ := if c = 0 then reload else c - 1

/-- The counter `t` clocks later. -/
def after (reload c t : ℕ) : ℕ := (next reload)^[t] c

/-- How many of `t` clocks start the counter again. -/
def restarts (reload : ℕ) : ℕ → ℕ → ℕ
  | _, 0 => 0
  | c, t + 1 => (if c = 0 then 1 else 0) + restarts reload (next reload c) t

/-- How many of `t` clocks take the counter down by one. -/
def decrements (reload : ℕ) : ℕ → ℕ → ℕ
  | _, 0 => 0
  | c, t + 1 => (if c = 0 then 0 else 1) + decrements reload (next reload c) t

@[simp] theorem after_zero (reload c : ℕ) : after reload c 0 = c := rfl

@[simp] theorem after_succ (reload c t : ℕ) :
    after reload c (t + 1) = after reload (next reload c) t := rfl

theorem next_le (h : c ≤ reload) : next reload c ≤ reload := by
  unfold next
  split <;> omega

theorem next_ne (h : 1 ≤ reload) : next reload c ≠ c := by
  unfold next
  split <;> omega

theorem after_le (h : c ≤ reload) (t : ℕ) : after reload c t ≤ reload := by
  induction t generalizing c with
  | zero => exact h
  | succ t ih => exact ih (next_le h)

/-- Until it reaches zero the counter just counts. -/
theorem after_eq_sub (h : t ≤ c) : after reload c t = c - t := by
  induction t generalizing c with
  | zero => rfl
  | succ t ih =>
    have hnext : next reload c = c - 1 := if_neg (by omega)
    rw [after_succ, hnext, ih (by omega)]
    omega

theorem decrements_add_restarts (reload c t : ℕ) :
    decrements reload c t + restarts reload c t = t := by
  induction t generalizing c with
  | zero => rfl
  | succ t ih =>
    have := ih (next reload c)
    simp only [decrements, restarts]
    split <;> omega

theorem decrements_le (reload c t : ℕ) : decrements reload c t ≤ t := by
  have := decrements_add_restarts reload c t
  omega

/-- What the decrements take away the restarts give back. -/
theorem after_add_decrements (reload c t : ℕ) :
    after reload c t + decrements reload c t = c + reload * restarts reload c t := by
  induction t generalizing c with
  | zero => simp [decrements, restarts]
  | succ t ih =>
    have hrest := ih (next reload c)
    rw [after_succ, decrements, restarts]
    by_cases hc : c = 0
    · have hnext : next reload c = reload := if_pos hc
      rw [hnext] at hrest ⊢
      rw [if_pos hc, if_pos hc, Nat.mul_add]
      omega
    · have hnext : next reload c = c - 1 := if_neg hc
      rw [if_neg hc, if_neg hc, Nat.zero_add]
      omega

theorem decrements_add (reload c s t : ℕ) :
    decrements reload c (s + t) = decrements reload c s + decrements reload (after reload c s) t := by
  induction s generalizing c with
  | zero => simp [decrements]
  | succ s ih => rw [Nat.succ_add, decrements, decrements, ih, after_succ, Nat.add_assoc]

/-- From its reload value the counter starts again at most once in `reload + 1` clocks. -/
theorem restarts_le (reload t : ℕ) : (reload + 1) * restarts reload reload t ≤ t := by
  have hbalance := after_add_decrements reload reload t
  have hclocks := decrements_add_restarts reload reload t
  have hlast := after_le (Nat.le_refl reload) t
  rw [Nat.add_mul, Nat.one_mul]
  omega

theorem le_two_mul_decrements (h : 1 ≤ reload) (t : ℕ) : t ≤ 2 * decrements reload reload t := by
  have hclocks := decrements_add_restarts reload reload t
  have hfew : 2 * restarts reload reload t ≤ t :=
    Nat.le_trans (Nat.mul_le_mul_right _ (Nat.succ_le_succ h)) (restarts_le reload t)
  omega

/-! The sampler. -/

/-- What a sampler adds when it reads `new` after `old`. -/
def seen (reload old new : ℕ) : ℕ :=
  if new < old then old - new else if old < new then reload - new + old else 0

theorem seen_le_decrements (h : c ≤ reload) (t : ℕ) :
    seen reload c (after reload c t) ≤ decrements reload c t := by
  have hbalance := after_add_decrements reload c t
  have hlast := after_le h t
  unfold seen
  split_ifs with hdown hup
  · omega
  · have hsome : restarts reload c t ≠ 0 := by
      intro hnone
      rw [hnone] at hbalance
      omega
    have hperiod : reload ≤ reload * restarts reload c t :=
      Nat.le_mul_of_pos_right reload (Nat.pos_of_ne_zero hsome)
    omega
  · exact Nat.zero_le _

theorem seen_eq_decrements (h : c ≤ reload) (ht : t ≤ reload) :
    seen reload c (after reload c t) = decrements reload c t := by
  have hbalance := after_add_decrements reload c t
  have hclocks := decrements_add_restarts reload c t
  have hlast := after_le h t
  have honce : restarts reload c t = 0 ∨ restarts reload c t = 1 := by
    by_contra hmany
    have htwo : reload * 2 ≤ reload * restarts reload c t := Nat.mul_le_mul_left reload (by omega)
    omega
  unfold seen
  rcases honce with hnone | hone
  · rw [hnone] at hbalance
    split_ifs <;> omega
  · rw [hone] at hbalance hclocks
    split_ifs <;> omega

/-- The readings of a sampler, given the clocks from each reading to the next. -/
def readings (reload : ℕ) : ℕ → List ℕ → List ℕ
  | _, [] => []
  | c, gap :: gaps => after reload c gap :: readings reload (after reload c gap) gaps

@[simp] theorem readings_cons (reload c gap : ℕ) (gaps : List ℕ) : readings reload c (gap :: gaps) =
    after reload c gap :: readings reload (after reload c gap) gaps := rfl

end DownCounter
