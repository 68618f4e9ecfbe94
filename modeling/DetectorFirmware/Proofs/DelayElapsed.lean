import Mathlib.Algebra.BigOperators.Group.List.Basic
import Mathlib.Algebra.GroupWithZero.Nat
import DetectorFirmware.Model.Delay

/-! How long `rt_hw_us_delay` waits. `tcnt` never runs ahead of the timer, however its
readings fall, so the loop is as long as `ticks` says; and `ticks` is what it should be
as long as `us * reload` fits 32 bits. Beyond that there are readings that end it early. -/

namespace Detector

open DownCounter

/-! One round, in numbers. -/

theorem toNat_ofNat32 {n : ℕ} (h : n < 4294967296) : (UInt32.ofNat n).toNat = n :=
  UInt32.toNat_ofNat_of_lt' h

theorem toNat_sub32 {a b : ℕ} (hb : b ≤ a) (ha : a < 4294967296) :
    (UInt32.ofNat a - UInt32.ofNat b).toNat = a - b := by
  rw [← UInt32.ofNat_sub hb, toNat_ofNat32 (by omega)]

variable {reload told tnow : ℕ} {ticks tcnt : UInt32}

/-- What a round adds to `tcnt`. -/
def roundAdds (reload told tnow : ℕ) : UInt32 :=
  if UInt32.ofNat tnow < UInt32.ofNat told then UInt32.ofNat told - UInt32.ofNat tnow
  else UInt32.ofNat reload - UInt32.ofNat tnow + UInt32.ofNat told

theorem ofNat_lt32 (hold : told < 4294967296) (hnow : tnow < 4294967296) :
    UInt32.ofNat tnow < UInt32.ofNat told ↔ tnow < told := by
  rw [UInt32.lt_iff_toNat_lt, toNat_ofNat32 hnow, toNat_ofNat32 hold]

theorem roundAdds_down (hold : told < 4294967296) (h : tnow < told) :
    (roundAdds reload told tnow).toNat = told - tnow := by
  rw [roundAdds, if_pos ((ofNat_lt32 hold (Nat.lt_trans h hold)).mpr h),
    toNat_sub32 (Nat.le_of_lt h) hold]

theorem roundAdds_toNat (hr : reload < 4294967296) (hold : told ≤ reload) (hnow : tnow ≤ reload)
    (hne : tnow ≠ told) : (roundAdds reload told tnow).toNat = seen reload told tnow := by
  unfold seen
  by_cases hdown : tnow < told
  · rw [roundAdds_down (by omega) hdown, if_pos hdown]
  · have hup : told < tnow := by omega
    rw [roundAdds, if_neg (mt (ofNat_lt32 (by omega) (by omega)).mp hdown), if_neg hdown, if_pos hup,
      UInt32.toNat_add, toNat_sub32 hnow hr, toNat_ofNat32 (by omega)]
    exact Nat.mod_eq_of_lt (by omega)

theorem delayRound_same (reload ticks : UInt32) (s : DelayLoop) :
    delayRound reload ticks s s.told = (s, false) := by
  rw [delayRound, if_neg (not_not.mpr rfl)]

theorem delayRound_moved (hold : told < 4294967296) (hnow : tnow < 4294967296) (hne : tnow ≠ told) :
    delayRound (UInt32.ofNat reload) ticks ⟨UInt32.ofNat told, tcnt⟩ (UInt32.ofNat tnow) =
      (⟨UInt32.ofNat tnow, tcnt + roundAdds reload told tnow⟩,
        decide (ticks ≤ tcnt + roundAdds reload told tnow)) := by
  have hmoved : UInt32.ofNat tnow ≠ UInt32.ofNat told := by
    rw [ne_eq, ← UInt32.toNat_inj, toNat_ofNat32 hnow, toNat_ofNat32 hold]
    exact hne
  rw [delayRound, if_pos hmoved]
  have hadds : (if UInt32.ofNat tnow < UInt32.ofNat told then
      tcnt + (UInt32.ofNat told - UInt32.ofNat tnow)
      else tcnt + (UInt32.ofNat reload - UInt32.ofNat tnow + UInt32.ofNat told)) =
      tcnt + roundAdds reload told tnow := by
    unfold roundAdds
    split <;> rfl
  simp only [hadds, ge_iff_le]

/-! The loop over a sampled counter. -/

/-- The readings of the counter as the loop sees them. -/
def cntReadings (reload c : ℕ) (gaps : List ℕ) : List UInt32 :=
  (readings reload c gaps).map UInt32.ofNat

theorem cntReadings_cons (reload c gap : ℕ) (gaps : List ℕ) : cntReadings reload c (gap :: gaps) =
    UInt32.ofNat (after reload c gap) :: cntReadings reload (after reload c gap) gaps := rfl

variable {c n : ℕ} {gaps : List ℕ}

theorem delayLoop_cons_same {rest : List UInt32} : delayLoop (UInt32.ofNat reload) ticks
    ⟨UInt32.ofNat c, tcnt⟩ (UInt32.ofNat c :: rest) =
      (delayLoop (UInt32.ofNat reload) ticks ⟨UInt32.ofNat c, tcnt⟩ rest).map (· + 1) := by
  have hround := delayRound_same (UInt32.ofNat reload) ticks ⟨UInt32.ofNat c, tcnt⟩
  rw [delayLoop, hround]

theorem delayLoop_cons_moved (hold : told < 4294967296) (hnow : tnow < 4294967296)
    (hne : tnow ≠ told) {rest : List UInt32} :
    delayLoop (UInt32.ofNat reload) ticks ⟨UInt32.ofNat told, tcnt⟩ (UInt32.ofNat tnow :: rest) =
      if ticks ≤ tcnt + roundAdds reload told tnow then some 1
      else (delayLoop (UInt32.ofNat reload) ticks
        ⟨UInt32.ofNat tnow, tcnt + roundAdds reload told tnow⟩ rest).map (· + 1) := by
  rw [delayLoop, delayRound_moved hold hnow hne]
  by_cases hstop : ticks ≤ tcnt + roundAdds reload told tnow
  · rw [if_pos hstop, decide_eq_true hstop]
  · rw [if_neg hstop, decide_eq_false hstop]

/-- However the readings fall, a round counts no more than there were decrements. -/
theorem tcnt_add_le (tcnt : UInt32) (hr : reload < 4294967296) (hc : c ≤ reload) {gap : ℕ}
    (hne : after reload c gap ≠ c) : (tcnt + roundAdds reload c (after reload c gap)).toNat ≤
      tcnt.toNat + decrements reload c gap := by
  have hadds := roundAdds_toNat hr hc (after_le hc gap) hne
  have hseen := seen_le_decrements hc gap
  rw [UInt32.toNat_add, hadds]
  exact Nat.le_trans (Nat.mod_le _ _) (by omega)

/-- Reading at every clock it counts all of them. -/
theorem tcnt_add_one (tcnt : UInt32) (hr : reload < 4294967296) (h1 : 1 ≤ reload)
    (hc : c ≤ reload) (hfits : tcnt.toNat + 1 < 4294967296) :
    (tcnt + roundAdds reload c (after reload c 1)).toNat = tcnt.toNat + decrements reload c 1 := by
  have hadds := roundAdds_toNat hr hc (after_le hc 1) (next_ne h1)
  have hle := decrements_le reload c 1
  rw [seen_eq_decrements hc h1] at hadds
  rw [UInt32.toNat_add, hadds]
  exact Nat.mod_eq_of_lt (by omega)

/-- `tcnt` never runs ahead of the timer, so the loop ends no earlier than it should. -/
theorem delayLoop_never_early (hr : reload < 4294967296) (hc : c ≤ reload)
    (h : delayLoop (UInt32.ofNat reload) ticks ⟨UInt32.ofNat c, tcnt⟩ (cntReadings reload c gaps) =
      some n) : ticks.toNat ≤ tcnt.toNat + decrements reload c (gaps.take n).sum := by
  induction gaps generalizing c tcnt n with
  | nil => cases h
  | cons gap gaps ih =>
    have hnow := after_le hc gap
    rw [cntReadings_cons] at h
    by_cases hne : after reload c gap = c
    · rw [hne, delayLoop_cons_same] at h
      obtain ⟨m, hm, rfl⟩ := Option.map_eq_some_iff.mp h
      have hrest := ih hc hm
      rw [List.take_succ_cons, List.sum_cons, decrements_add, hne]
      omega
    · rw [delayLoop_cons_moved (by omega) (by omega) hne] at h
      have hcnt := tcnt_add_le tcnt hr hc hne
      split at h
      · rename_i hstop
        injection h with h
        have hticks := UInt32.le_iff_toNat_le.mp hstop
        rw [← h, List.take_succ_cons, List.take_zero, List.sum_singleton]
        omega
      · obtain ⟨m, hm, rfl⟩ := Option.map_eq_some_iff.mp h
        have hrest := ih hnow hm
        rw [List.take_succ_cons, List.sum_cons, decrements_add]
        omega

/-- Read at every clock the loop does end, as soon as the decrements make up the delay. -/
theorem delayLoop_everyClock (hr : reload < 4294967296) (h1 : 1 ≤ reload) (hc : c ≤ reload) {N : ℕ}
    (hN : 1 ≤ N) (hreach : ticks.toNat ≤ tcnt.toNat + decrements reload c N)
    (hfits : tcnt.toNat + N < 4294967296) :
    ∃ n ≤ N, delayLoop (UInt32.ofNat reload) ticks ⟨UInt32.ofNat c, tcnt⟩
      (cntReadings reload c (List.replicate N 1)) = some n := by
  induction N generalizing c tcnt with
  | zero => exact absurd hN (Nat.not_succ_le_zero 0)
  | succ N ih =>
    have hnow := after_le hc 1
    have hmoved : after reload c 1 ≠ c := next_ne h1
    have hle := decrements_le reload c 1
    have hcnt := tcnt_add_one tcnt hr h1 hc (by omega)
    rw [List.replicate_succ, cntReadings_cons, delayLoop_cons_moved (by omega) (by omega) hmoved]
    rw [Nat.add_comm N 1, decrements_add] at hreach
    split
    · exact ⟨1, by omega, rfl⟩
    · rename_i hgo
      rw [UInt32.le_iff_toNat_le, hcnt] at hgo
      have hmore : 1 ≤ N := by
        by_contra hnone
        have hN0 : N = 0 := by omega
        rw [hN0, decrements, Nat.add_zero] at hreach
        exact hgo hreach
      have hleft : ticks.toNat ≤ (tcnt + roundAdds reload c (after reload c 1)).toNat +
          decrements reload (after reload c 1) N := by omega
      obtain ⟨n, hn, hrun⟩ := ih hnow hmore hleft (by omega)
      rw [hrun]
      exact ⟨n + 1, Nat.succ_le_succ hn, rfl⟩

/-! The number of ticks. -/

theorem delayTicks_toNat (us : UInt32) (cmp : UInt64) :
    (delayTicks us cmp.toUInt32).toNat = us.toNat * cmp.toNat % 4294967296 / 1000 := by
  have hdiv : (1000000 / RT_TICK_PER_SECOND : UInt32).toNat = 1000 := rfl
  rw [delayTicks, UInt32.toNat_div, hdiv, UInt32.toNat_mul, UInt64.toNat_toUInt32, Nat.mul_mod_mod]

/-- However the timer is read, the loop ends only after the counts asked for. What passes in
`t` clocks from `c` on counts as `passed c t`. -/
def NeverEarly (passed : ℕ → ℕ → ℕ) (cmp : UInt64) (us : UInt32) : Prop :=
  ∀ c ≤ cmp.toNat, ∀ gaps : List ℕ, ∀ n,
    rtHwUsDelayRounds cmp us (UInt64.ofNat c) ((readings cmp.toNat c gaps).map UInt64.ofNat) =
      some n → us.toNat * cmp.toNat / 1000 ≤ passed c (gaps.take n).sum

theorem rtHwUsDelayRounds_eq (cmp : UInt64) (us : UInt32) (c : ℕ) (gaps : List ℕ) :
    rtHwUsDelayRounds cmp us (UInt64.ofNat c) ((readings cmp.toNat c gaps).map UInt64.ofNat) =
      delayLoop cmp.toUInt32 (delayTicks us cmp.toUInt32) ⟨UInt32.ofNat c, 0⟩
        (cntReadings cmp.toNat c gaps) := by
  have hword : UInt64.toUInt32 ∘ UInt64.ofNat = UInt32.ofNat := by
    funext k
    exact UInt64.toUInt32_ofNat' k
  rw [rtHwUsDelayRounds, List.map_map, hword, UInt64.toUInt32_ofNat', cntReadings]

variable {cmp : UInt64} {us : UInt32}

theorem cmp_toUInt32 (cmp : UInt64) : cmp.toUInt32 = UInt32.ofNat cmp.toNat := by
  rw [← UInt64.toUInt32_ofNat', UInt64.ofNat_toNat]

theorem neverEarly_of_fits (h : us.toNat * cmp.toNat < 4294967296) :
    NeverEarly (decrements cmp.toNat) cmp us := by
  intro c hc gaps n hrun
  rcases Nat.eq_zero_or_pos us.toNat with hus | hus
  · rw [hus, Nat.zero_mul, Nat.zero_div]
    exact Nat.zero_le _
  · have hr : cmp.toNat < 4294967296 := Nat.lt_of_le_of_lt (Nat.le_mul_of_pos_left _ hus) h
    rw [rtHwUsDelayRounds_eq, cmp_toUInt32] at hrun
    have hticks := delayTicks_toNat us cmp
    have hcount := delayLoop_never_early hr hc hrun
    rw [← cmp_toUInt32, hticks, Nat.mod_eq_of_lt h] at hcount
    simpa using hcount

/-! Readings that end it early. -/

/-- The asked-for counts lie far above what is left of a product that does not fit. -/
theorem ticks_short {product : ℕ} (h : 4294967296 ≤ product) :
    max 1 (2 * (product % 4294967296 / 1000) - 1) < product / 1000 := by
  omega

/-- Some readings end the loop too soon, even by the clock. -/
def EndsEarly (cmp : UInt64) (us : UInt32) : Prop :=
  ∃ c ≤ cmp.toNat, ∃ gaps : List ℕ, ∃ n,
    rtHwUsDelayRounds cmp us (UInt64.ofNat c) ((readings cmp.toNat c gaps).map UInt64.ofNat) =
      some n ∧ (gaps.take n).sum < us.toNat * cmp.toNat / 1000

/-- With a reload value beyond 32 bits one pair of readings is enough. -/
theorem endsEarly_jump (hr : 4294967296 ≤ cmp.toNat) (h : 4294967296 ≤ us.toNat * cmp.toNat) :
    EndsEarly cmp us := by
  have hticks := delayTicks_toNat us cmp
  have hshort := ticks_short h
  obtain ⟨d, hd⟩ : ∃ d, d = max 1 (us.toNat * cmp.toNat % 4294967296 / 1000) := ⟨_, rfl⟩
  have hlast : after cmp.toNat 4294967295 d = 4294967295 - d := after_eq_sub (by omega)
  have hstop : delayTicks us cmp.toUInt32 ≤
      0 + roundAdds cmp.toNat 4294967295 (4294967295 - d) := by
    rw [UInt32.le_iff_toNat_le, UInt32.zero_add, roundAdds_down (by omega) (by omega), hticks]
    omega
  refine ⟨4294967295, by omega, [d], 1, ?_, ?_⟩
  · rw [rtHwUsDelayRounds_eq, cntReadings_cons, hlast]
    nth_rewrite 1 [cmp_toUInt32]
    rw [delayLoop_cons_moved (by omega) (by omega) (by omega), if_pos hstop]
  · rw [List.take_succ_cons, List.take_zero, List.sum_singleton]
    omega

/-- With a smaller one the counter is read at every clock from the reload value on. -/
theorem endsEarly_everyClock (hr : cmp.toNat < 4294967296) (h1 : 1 ≤ cmp.toNat)
    (h : 4294967296 ≤ us.toNat * cmp.toNat) : EndsEarly cmp us := by
  have hticks := delayTicks_toNat us cmp
  have hshort := ticks_short h
  obtain ⟨N, hN⟩ : ∃ N, N = max 1 (2 * (us.toNat * cmp.toNat % 4294967296 / 1000) - 1) := ⟨_, rfl⟩
  have hhalf := le_two_mul_decrements h1 N
  have hreach : (delayTicks us cmp.toUInt32).toNat ≤
      (0 : UInt32).toNat + decrements cmp.toNat cmp.toNat N := by
    rw [hticks, UInt32.toNat_zero]
    omega
  have hfits : (0 : UInt32).toNat + N < 4294967296 := by
    rw [UInt32.toNat_zero]
    omega
  obtain ⟨n, hn, hrun⟩ := delayLoop_everyClock hr h1 (Nat.le_refl _) (by omega) hreach hfits
  refine ⟨cmp.toNat, Nat.le_refl _, List.replicate N 1, n, ?_, ?_⟩
  · rw [rtHwUsDelayRounds_eq]
    nth_rewrite 1 [cmp_toUInt32]
    exact hrun
  · rw [List.take_replicate, List.sum_replicate_nat, Nat.mul_one]
    omega

theorem NeverEarly.mono {passed passed' : ℕ → ℕ → ℕ} (hle : ∀ c t, passed c t ≤ passed' c t)
    (h : NeverEarly passed cmp us) : NeverEarly passed' cmp us := by
  intro c hc gaps n hrun
  exact Nat.le_trans (h c hc gaps n hrun) (hle c _)

theorem not_neverEarly_of_endsEarly (h : EndsEarly cmp us) : ¬ NeverEarly (fun _ t => t) cmp us := by
  obtain ⟨c, hc, gaps, n, hrun, hsoon⟩ := h
  intro hnever
  exact absurd (hnever c hc gaps n hrun) (Nat.not_le.mpr hsoon)

/-- The delay is never cut short exactly when `us * reload` fits 32 bits, whether or not
the clocks that start the counter again are counted. -/
theorem neverEarly_iff (cmp : UInt64) (us : UInt32) (h1 : 1 ≤ cmp.toNat) :
    (NeverEarly (decrements cmp.toNat) cmp us ↔ us.toNat * cmp.toNat < 4294967296) ∧
      (NeverEarly (fun _ t => t) cmp us ↔ us.toNat * cmp.toNat < 4294967296) := by
  have hclock : NeverEarly (decrements cmp.toNat) cmp us → NeverEarly (fun _ t => t) cmp us :=
    NeverEarly.mono (decrements_le cmp.toNat)
  have hfits : NeverEarly (fun _ t => t) cmp us → us.toNat * cmp.toNat < 4294967296 := by
    intro hnever
    by_contra hover
    have hbig : 4294967296 ≤ us.toNat * cmp.toNat := Nat.le_of_not_lt hover
    rcases Nat.lt_or_ge cmp.toNat 4294967296 with hr | hr
    · exact not_neverEarly_of_endsEarly (endsEarly_everyClock hr h1 hbig) hnever
    · exact not_neverEarly_of_endsEarly (endsEarly_jump hr hbig) hnever
  constructor
  · exact ⟨fun h => hfits (hclock h), neverEarly_of_fits⟩
  · exact ⟨hfits, fun h => hclock (neverEarly_of_fits h)⟩

theorem sysTickConfig_toNat {ticks : UInt32} (h : 1 ≤ ticks.toNat) :
    (sysTickConfig ticks).toNat = ticks.toNat - 1 := by
  have hle : (1 : UInt32) ≤ ticks := UInt32.le_iff_toNat_le.mpr h
  rw [sysTickConfig, UInt32.toNat_toUInt64, UInt32.toNat_sub_of_le _ _ hle]
  rfl

/-- At 144 MHz the longest delay kept is one of 29826 us. -/
theorem neverEarly_144MHz_iff :
    (NeverEarly (decrements (sysTickConfig 144000).toNat) (sysTickConfig 144000) 29826 ↔
        (29826 : UInt32).toNat * (sysTickConfig 144000).toNat < 4294967296) ∧
      (NeverEarly (fun _ t => t) (sysTickConfig 144000) 29826 ↔
        (29826 : UInt32).toNat * (sysTickConfig 144000).toNat < 4294967296) :=
  neverEarly_iff (sysTickConfig 144000) 29826 (by rw [sysTickConfig_toNat] <;> decide)

/-- One microsecond more, and 90 decrements are enough to end it. -/
theorem not_neverEarly_144MHz :
    ¬ NeverEarly (decrements (sysTickConfig 144000).toNat) (sysTickConfig 144000) 29827 ∧
      ¬ NeverEarly (fun _ t => t) (sysTickConfig 144000) 29827 := by
  have hclock : ¬ NeverEarly (fun _ t => t) (sysTickConfig 144000) 29827 := by
    have hcnt : readings (sysTickConfig 144000).toNat 143999 [90] = [143909] := by
      rw [readings_cons, after_eq_sub (by decide)]
      rfl
    have hrun : rtHwUsDelayRounds (sysTickConfig 144000) 29827 (UInt64.ofNat 143999)
        [UInt64.ofNat 143909] = some 1 := by decide
    apply not_neverEarly_of_endsEarly
    refine ⟨143999, by decide, [90], 1, ?_, by decide⟩
    rw [hcnt]
    exact hrun
  exact ⟨fun h => hclock (h.mono (decrements_le _)), hclock⟩

end Detector
