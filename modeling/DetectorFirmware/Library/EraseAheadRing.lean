import Mathlib.Data.Set.Function
import Mathlib.Data.Nat.ModEq
import Mathlib.Tactic.Ring

/-! A log of numbered records 1, 2, 3, … in a ring of `P` pages of `S` slots. The
append that fills the last slot of a page also erases the page the next append
needs. `Live n` is the set of records such a ring still holds after `n` appends,
and the lemmas are what a writer (a free slot for the next record) and a reader
(one record in a slot, the last `S * (P - 1)` all there) rely on. -/

namespace EraseAheadRing

variable {S P : ℕ}

def pageOf (S P k : ℕ) : ℕ := (k - 1) / S % P

def slotOf (S k : ℕ) : ℕ := (k - 1) % S

/-- Page and slot together are the position in the ring. -/
theorem slot_add_page (S P k : ℕ) : slotOf S k + S * pageOf S P k = (k - 1) % (S * P) := by
  rw [slotOf, pageOf, Nat.mod_mul]

/-- Append number `n` erases the page that holds record `k`. -/
def Turns (S P n k : ℕ) : Prop := S ∣ n ∧ n / S % P = pageOf S P k

/-- The records present after `n` appends: no append after theirs turned their page. -/
def Live (S P n : ℕ) : Set ℕ := {k | 0 < k ∧ k ≤ n ∧ ∀ m, k < m → m ≤ n → ¬ Turns S P m k}

theorem live_zero : Live S P 0 = ∅ := by
  refine Set.eq_empty_of_forall_notMem fun k hk => ?_
  obtain ⟨h0, hk0, -⟩ := hk
  omega

theorem live_self {n : ℕ} (hn : 0 < n) : n ∈ Live S P n :=
  ⟨hn, le_rfl, fun m h1 h2 => absurd h2 (by omega)⟩

theorem live_succ {n k : ℕ} :
    k ∈ Live S P (n + 1) ↔ k = n + 1 ∨ (k ∈ Live S P n ∧ ¬ Turns S P (n + 1) k) := by
  constructor
  · rintro ⟨h0, hk, ht⟩
    rcases Nat.lt_or_ge n k with h | h
    · exact Or.inl (by omega)
    · exact Or.inr ⟨⟨h0, h, fun m h1 h2 => ht m h1 (by omega)⟩, ht (n + 1) (by omega) le_rfl⟩
  · rintro (rfl | ⟨⟨h0, hk, ht⟩, hn⟩)
    · exact live_self (by omega)
    · refine ⟨h0, by omega, fun m h1 h2 => ?_⟩
      rcases Nat.lt_or_ge n m with h | h
      · obtain rfl : m = n + 1 := by omega
        exact hn
      · exact ht m h1 h

/-- The ring keeps the last `S * (P - 1)` records. -/
theorem live_of_recent (hS : 0 < S) {n k : ℕ} (h0 : 0 < k) (hk : k ≤ n)
    (hn : n < k + S * (P - 1)) : k ∈ Live S P n := by
  refine ⟨h0, hk, ?_⟩
  rintro m hkm hmn ⟨⟨t, rfl⟩, hpage⟩
  rw [Nat.mul_div_cancel_left t hS, pageOf] at hpage
  set q := (k - 1) / S with hq
  have hlow : S * q ≤ k - 1 := Nat.mul_div_le (k - 1) S
  have hup : k - 1 < S * (q + 1) := by
    have := Nat.lt_mul_div_succ (k - 1) hS
    simpa [hq] using this
  have hqt : q < t := by
    by_contra hle
    have := Nat.mul_le_mul_left S (Nat.le_of_not_lt hle)
    omega
  have hP : 0 < P - 1 := by
    rcases Nat.eq_zero_or_pos (P - 1) with h | h
    · rw [h, Nat.mul_zero] at hn
      omega
    · exact h
  have htP : t < q + P := by
    by_contra hle
    have h1 := Nat.mul_le_mul_left S (Nat.le_of_not_lt hle)
    have h2 : S * (q + P) = S * (q + 1) + S * (P - 1) := by
      rw [← Nat.mul_add]
      congr 1
      omega
    omega
  -- `t` and `q` are congruent modulo `P` and less than `P` apart
  have hdvd : P ∣ t - q := (Nat.modEq_iff_dvd' hqt.le).mp hpage.symm
  exact absurd (Nat.le_of_dvd (by omega) hdvd) (by omega)

/-- Two records in one slot of one page lie whole rounds apart. -/
theorem page_of_same_slot {n k : ℕ} (h0 : 0 < k) (hk : k ≤ n)
    (hslot : slotOf S k = slotOf S (n + 1)) :
    (k - 1) / S < n / S ∧ S * (n / S) + slotOf S k = n ∧ S * ((k - 1) / S) + slotOf S k = k - 1 := by
  have h1 : S * (n / S) + slotOf S k = n := by
    rw [hslot, slotOf, Nat.add_sub_cancel]
    exact Nat.div_add_mod n S
  have h2 : S * ((k - 1) / S) + slotOf S k = k - 1 := Nat.div_add_mod (k - 1) S
  refine ⟨?_, h1, h2⟩
  by_contra hle
  have := Nat.mul_le_mul_left S (Nat.le_of_not_lt hle)
  omega

/-- Once the append has turned its page, the slot of the next record is free. -/
theorem slot_free (hS : 0 < S) {n k : ℕ} (hk : k ∈ Live S P n)
    (hturn : ¬ Turns S P (n + 1) k) (hpage : pageOf S P k = pageOf S P (n + 1)) :
    slotOf S k ≠ slotOf S (n + 1) := by
  intro hslot
  obtain ⟨h0, hkn, hlive⟩ := hk
  obtain ⟨hlt, hn, hk1⟩ := page_of_same_slot h0 hkn hslot
  have hi : slotOf S k < S := Nat.mod_lt _ hS
  simp only [pageOf, Nat.add_sub_cancel] at hpage
  have hle : S * ((k - 1) / S) + S ≤ S * (n / S) := by
    rw [← Nat.mul_succ]
    exact Nat.mul_le_mul_left S hlt
  by_cases hlast : k = S * (n / S)
  · -- the record before in a one-page ring: its page turns with this append
    apply hturn
    have hi' : slotOf S k = S - 1 := by omega
    have hn1 : n + 1 = S * (n / S + 1) := by rw [Nat.mul_succ]; omega
    refine ⟨⟨_, hn1⟩, ?_⟩
    have hq : (k - 1) / S + 1 = n / S := by
      have h2 : S * ((k - 1) / S + 1) = S * (n / S) := by rw [Nat.mul_succ]; omega
      exact Nat.eq_of_mul_eq_mul_left hS h2
    have hP : P ∣ 1 := by
      have hdvd : P ∣ n / S - (k - 1) / S := (Nat.modEq_iff_dvd' hlt.le).mp hpage
      rwa [show n / S - (k - 1) / S = 1 by omega] at hdvd
    obtain rfl : P = 1 := Nat.dvd_one.mp hP
    rw [pageOf, Nat.mod_one, Nat.mod_one]
  · have hS' : S * (n / S) / S = n / S := Nat.mul_div_cancel_left _ hS
    refine hlive (S * (n / S)) (by omega) (by omega) ⟨Nat.dvd_mul_right _ _, ?_⟩
    rw [hS', pageOf, hpage]

/-- Before the log has gone round once, no append has anything to erase. -/
theorem not_turns_of_first_round (hS : 0 < S) {n k : ℕ} (h0 : 0 < k) (hk : k ≤ n)
    (hn : (n + 1) / S < P) : ¬ Turns S P (n + 1) k := by
  rintro ⟨⟨t, ht⟩, hpage⟩
  have hdiv : (n + 1) / S = t := by rw [ht, Nat.mul_div_cancel_left t hS]
  have hq : (k - 1) / S < t := by
    rw [Nat.div_lt_iff_lt_mul hS, Nat.mul_comm]
    omega
  rw [pageOf, Nat.mod_eq_of_lt hn, Nat.mod_eq_of_lt (by omega), hdiv] at hpage
  omega

/-! Wear. The appends turn round `t` of the ring for each `t ≥ P`; of the rounds up to `m`,
`(m - q) / P` turn page `q`. -/

theorem turned_succ {q : ℕ} (hq : q < P) (m : ℕ) : (m + 1 - q) / P =
    (m - q) / P + if P ≤ m + 1 ∧ (m + 1) % P = q then 1 else 0 := by
  rcases Nat.lt_or_ge m q with hlt | hge
  · have hsoon : ¬ (P ≤ m + 1 ∧ (m + 1) % P = q) := fun h => by omega
    rw [if_neg hsoon, Nat.sub_eq_zero_of_le hlt, Nat.sub_eq_zero_of_le hlt.le, Nat.add_zero]
  · have hpage : P ∣ m + 1 - q ↔ (m + 1) % P = q := by
      rw [← Nat.modEq_iff_dvd' (Nat.le_succ_of_le hge), Nat.ModEq, Nat.mod_eq_of_lt hq]
      exact eq_comm
    rw [Nat.succ_sub hge]
    rw [Nat.succ_sub hge] at hpage
    by_cases hturn : (m + 1) % P = q
    · have hdvd := hpage.mpr hturn
      have hround : P ≤ m + 1 := (Nat.le_of_dvd (Nat.succ_pos _) hdvd).trans (by omega)
      rw [if_pos ⟨hround, hturn⟩, Nat.succ_div_of_dvd hdvd]
    · rw [if_neg fun h => hturn h.2, Nat.succ_div_of_not_dvd (mt hpage.mp hturn)]
      rfl

/-- No page is turned more than once more than another. -/
theorem turned_even {q q' : ℕ} (hq' : q' < P) (m : ℕ) : (m - q) / P ≤ (m - q') / P + 1 := by
  rw [← Nat.add_div_right _ (Nat.zero_lt_of_lt hq')]
  exact Nat.div_le_div_right (by omega)

end EraseAheadRing
