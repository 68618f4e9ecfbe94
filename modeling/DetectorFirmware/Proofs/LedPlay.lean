import Mathlib.Order.Monotone.Basic
import Mathlib.Tactic.Ring
import DetectorFirmware.Library.Playback
import DetectorFirmware.Model.Led

/-! What a light shows. From its start on it shows the times of its pattern, loop after loop,
none of them too short, and its callback comes once, when all loops are over. -/

namespace Detector

open Playback

/-! One visit. -/

/-- The time that the light waits for is over, by reading `n` of the tick. -/
abbrev Over (tick : ℕ → UInt32) (v : AgileLed) (n : ℕ) : Prop :=
  tick n - v.tickTimeout < RT_TICK_MAX / 2

/-- The end of a loop. -/
def AgileLed.wrapped (v : AgileLed) : AgileLed :=
  { v with arrIndex := 0, loopCnt := if v.loopCnt > 0 then v.loopCnt - 1 else v.loopCnt }

/-- The next light, which is element `i`. -/
def AgileLed.lit (v : AgileLed) (i : ℕ) (tickTimeout : UInt32) : AgileLed :=
  { v with tickTimeout := tickTimeout, arrIndex := i + 1 }

/-- What a visit may do, with the elements that are left of the pattern: after `j` of them
that are zero it is at element `i`, with reading `m` of the tick. -/
inductive LedVisit (tick : ℕ → UInt32) (v : AgileLed) (n : ℕ) :
    List UInt32 → ℕ × AgileLed × List LedEvent → Prop where
  | early (j : ℕ) (rest : List UInt32) {i m : ℕ} (hi : i = v.arrIndex + j) (hm : m = n + j)
      (h : ¬ Over tick v m) :
    LedVisit tick v n (List.replicate j 0 ++ rest) (m + 1, { v with arrIndex := i }, [])
  | wrap (j : ℕ) {m : ℕ} (hm : m = n + j) (h : Over tick v m) :
    LedVisit tick v n (List.replicate j 0) (m + 1, v.wrapped, [])
  | light (j : ℕ) {ms : UInt32} (rest : List UInt32) {i m : ℕ} (hi : i = v.arrIndex + j)
      (hm : m = n + j) (h : Over tick v m) (hms : ms ≠ 0) :
    LedVisit tick v n (List.replicate j 0 ++ ms :: rest)
      (m + 2, v.lit i (tick (m + 1) + rtTickFromMillisecond ms), [.light (i % 2 = 0) m (m + 1)])

variable {tick : ℕ → UInt32}

theorem LedVisit.skip {v : AgileLed} {n : ℕ} {rest : List UInt32} {x : ℕ × AgileLed × List LedEvent}
    (h : LedVisit tick { v with arrIndex := v.arrIndex + 1 } (n + 1) rest x) :
    LedVisit tick v n (0 :: rest) x := by
  cases h with
  | early j rest hi hm h =>
    dsimp only at hi
    exact .early (j + 1) rest (by omega) (by omega) h
  | wrap j hm h => exact .wrap (j + 1) (by omega) h
  | light j rest hi hm h hms =>
    dsimp only at hi
    exact .light (j + 1) rest (by omega) (by omega) h hms

/-- Every visit reads the tick. -/
theorem LedVisit.reads_lt {v : AgileLed} {n : ℕ} {rest : List UInt32} {x : ℕ × AgileLed × List LedEvent}
    (h : LedVisit tick v n rest x) : n < x.1 := by
  cases h <;> (dsimp only; omega)

theorem LedVisit.active {v : AgileLed} {n : ℕ} {rest : List UInt32} {x : ℕ × AgileLed × List LedEvent}
    (h : LedVisit tick v n rest x) : x.2.1.active = v.active := by
  cases h <;> rfl

theorem repeat_visit (tick : ℕ → UInt32) (rest : List UInt32) (n : ℕ) (v : AgileLed) :
    LedVisit tick v n rest (agileLedRepeat tick rest n v) := by
  induction rest generalizing n v with
  | nil =>
    by_cases h : Over tick v n
    · rw [agileLedRepeat, if_pos h]
      exact .wrap 0 rfl h
    · rw [agileLedRepeat, if_neg h]
      exact .early 0 [] rfl rfl h
  | cons ms rest ih =>
    by_cases h : Over tick v n
    · rw [agileLedRepeat, if_pos h]
      by_cases hms : ms = 0
      · subst hms
        exact (ih (n + 1) _).skip
      · simp only [if_neg hms]
        exact .light 0 rest rfl rfl h hms
    · rw [agileLedRepeat, if_neg h]
      exact .early 0 (ms :: rest) rfl rfl h

/-! The beats of a pattern. -/

/-- The elements from index `i` on. The even ones are on; those of no time are left out. -/
def beatsFrom : ℕ → List UInt32 → List (Beat Bool)
  | _, [] => []
  | i, ms :: rest =>
    if ms = 0 then beatsFrom (i + 1) rest
    else ⟨i % 2 = 0, ms.toNat⟩ :: beatsFrom (i + 1) rest

/-- `k` loops. -/
def loopBeats (lightArr : List UInt32) (k : ℕ) : List (Beat Bool) :=
  (List.replicate k (beatsFrom 0 lightArr)).flatten

/-- What a light has left, with `k` loops to go. -/
def beatsLeft (v : AgileLed) : ℕ → List (Beat Bool)
  | 0 => []
  | k + 1 => beatsFrom v.arrIndex (v.lightArr.drop v.arrIndex) ++ loopBeats v.lightArr k

theorem beatsFrom_skip (i j : ℕ) (rest : List UInt32) :
    beatsFrom i (List.replicate j 0 ++ rest) = beatsFrom (i + j) rest := by
  induction j generalizing i with
  | zero => rfl
  | succ j ih =>
    rw [List.replicate_succ, List.cons_append, beatsFrom, if_pos rfl, ih]
    congr 1
    omega

theorem beatsFrom_light (i : ℕ) {ms : UInt32} (hms : ms ≠ 0) (rest : List UInt32) :
    beatsFrom i (ms :: rest) = ⟨i % 2 = 0, ms.toNat⟩ :: beatsFrom (i + 1) rest := by
  rw [beatsFrom, if_neg hms]

theorem beatsLeft_first {v : AgileLed} (h : v.arrIndex = 0) (k : ℕ) :
    beatsLeft v k = loopBeats v.lightArr k := by
  cases k with
  | zero => rfl
  | succ k => rw [beatsLeft, h, List.drop_zero, loopBeats, loopBeats, List.replicate_succ, List.flatten_cons]

/-! Times. Reading `n` of the tick is made at time `T n`, and shows it in 32 bits. -/

def ticks (T : ℕ → ℕ) (n : ℕ) : UInt32 := UInt32.ofNat (T n)

theorem rtTick_eq {ms : UInt32} (h : ms.toNat < 2 ^ 31) : rtTickFromMillisecond ms = ms := by
  have hsign : ¬ ms.toInt32 < 0 := by
    rw [Int32.lt_iff_toInt_lt]
    show ¬ ms.toBitVec.toInt < 0
    rw [BitVec.toInt_eq_toNat_of_lt (by rw [UInt32.toNat_toBitVec]; omega)]
    exact Int.not_lt.mpr (Int.natCast_nonneg _)
  have hseconds : 1000 * (ms.toNat / 1000) < 2 ^ 32 := by omega
  have hrest : 1000 * (ms.toNat % 1000) + 999 < 2 ^ 32 := by omega
  have hsum : 1000 * (ms.toNat / 1000) + (1000 * (ms.toNat % 1000) + 999) / 1000 = ms.toNat := by omega
  rw [rtTickFromMillisecond, if_neg hsign]
  apply UInt32.toNat_inj.mp
  simp only [UInt32.toNat_add, UInt32.toNat_mul, UInt32.toNat_div, UInt32.toNat_mod, UInt32.reduceToNat]
  rw [Nat.mod_eq_of_lt hseconds, Nat.mod_eq_of_lt (Nat.lt_of_le_of_lt (Nat.le_add_right _ 999) hrest),
    Nat.mod_eq_of_lt hrest, hsum, Nat.mod_eq_of_lt (by omega)]

theorem over_iff {T : ℕ → ℕ} {v : AgileLed} {n r : ℕ} (hr : v.tickTimeout = UInt32.ofNat r)
    (hearly : r < T n + 2 ^ 31) : Over (ticks T) v n ↔ r ≤ T n ∧ (T n - r) % 2 ^ 32 < 2 ^ 31 - 1 := by
  have hhalf : (RT_TICK_MAX / 2).toNat = 2 ^ 31 - 1 := rfl
  rw [Over, hr, UInt32.lt_iff_toNat_lt, hhalf, ticks, UInt32.toNat_sub, UInt32.toNat_ofNat',
    UInt32.toNat_ofNat']
  omega

/-! One light. -/

/-- The pin is set for a beat, and not by a call or at the end. -/
def LedEvent.IsLight : LedEvent → Prop
  | .light _ _ _ => True
  | .write _ | .compelete => False

/-- What was shown, at its times. -/
def shownAt (T : ℕ → ℕ) : LedEvent → Option (Shown Bool)
  | .light on before after => some ⟨on, T before, T after⟩
  | .write _ | .compelete => none

def lightsShown (T : ℕ → ℕ) (events : List LedEvent) : List (Shown Bool) := events.filterMap (shownAt T)

/-- A light in the middle of its beats `bs`, which began at time `start`, after `m` readings of
the tick and with `k` loops to go; it waits for time `r`. -/
structure Playing (T : ℕ → ℕ) (start : ℕ) (bs : List (Beat Bool)) (v : AgileLed) (k m : ℕ)
    (log : List (Shown Bool)) (r : ℕ) : Prop where
  plays : Plays start bs log (beatsLeft v k) r
  loops : v.loopCnt = k ∨ v.loopCnt < 0
  timeout : v.tickTimeout = UInt32.ofNat r
  soon : r < T m + 2 ^ 31
  ended : k = 0 → r ≤ T m
  short : ∀ ms ∈ v.lightArr, ms.toNat < 2 ^ 31

variable {T : ℕ → ℕ} {start k m r : ℕ} {bs : List (Beat Bool)} {v : AgileLed} {log : List (Shown Bool)}

theorem drop_split {l pre rest : List UInt32} {i : ℕ} (h : l.drop i = pre ++ rest) :
    l.drop (i + pre.length) = rest := by
  rw [← List.drop_drop, h, List.drop_left]

/-- The beats left when empty elements are passed, when a loop ends, and when a light is shown. -/
theorem beatsLeft_early (k : ℕ) {j : ℕ} {rest : List UInt32}
    (hrest : v.lightArr.drop v.arrIndex = List.replicate j 0 ++ rest) :
    beatsLeft { v with arrIndex := v.arrIndex + j } k = beatsLeft v k := by
  have hdrop := drop_split hrest
  rw [List.length_replicate] at hdrop
  cases k with
  | zero => rfl
  | succ k =>
    rw [beatsLeft, beatsLeft, hrest, beatsFrom_skip]
    dsimp only
    rw [hdrop]

theorem beatsLeft_wrap (k : ℕ) {j : ℕ} (hrest : v.lightArr.drop v.arrIndex = List.replicate j 0) :
    beatsLeft v.wrapped k = beatsLeft v (k + 1) := by
  rw [beatsLeft_first rfl, beatsLeft, hrest, ← List.append_nil (List.replicate j 0), beatsFrom_skip]
  rfl

theorem beatsLeft_light (k : ℕ) (timeout : UInt32) {j : ℕ} {ms : UInt32} {rest : List UInt32}
    (hrest : v.lightArr.drop v.arrIndex = List.replicate j 0 ++ ms :: rest) (hms : ms ≠ 0) :
    beatsLeft v (k + 1) = ⟨(v.arrIndex + j) % 2 = 0, ms.toNat⟩ ::
      beatsLeft (v.lit (v.arrIndex + j) timeout) (k + 1) := by
  have hdrop : v.lightArr.drop (v.arrIndex + j + 1) = rest := by
    have hsplit : v.lightArr.drop v.arrIndex = (List.replicate j 0 ++ [ms]) ++ rest := by
      rw [hrest, List.append_assoc]
      rfl
    have := drop_split hsplit
    rwa [List.length_append, List.length_replicate, List.length_singleton, ← Nat.add_assoc] at this
  rw [beatsLeft, beatsLeft, hrest, beatsFrom_skip, beatsFrom_light _ hms, AgileLed.lit]
  dsimp only
  rw [hdrop]
  rfl

theorem soon_later (h : Playing T start bs v k m log r) {m' : ℕ} (hm : T m ≤ T m') : r < T m' + 2 ^ 31 :=
  Nat.lt_of_lt_of_le h.soon (Nat.add_le_add_right hm _)

theorem playing_early (h : Playing T start bs v (k + 1) m log r) {j : ℕ} {rest : List UInt32}
    (hrest : v.lightArr.drop v.arrIndex = List.replicate j 0 ++ rest) {m' : ℕ} (hm : T m ≤ T m') :
    Playing T start bs { v with arrIndex := v.arrIndex + j } (k + 1) m' log r :=
  ⟨beatsLeft_early (k + 1) hrest ▸ h.plays, h.loops, h.timeout, soon_later h hm,
    fun hzero => absurd hzero (Nat.succ_ne_zero k), h.short⟩

theorem playing_wrap (h : Playing T start bs v (k + 1) m log r) {j : ℕ}
    (hrest : v.lightArr.drop v.arrIndex = List.replicate j 0) {m' : ℕ} (hm : T m ≤ T m')
    (hr : r ≤ T m') : Playing T start bs v.wrapped k m' log r := by
  refine ⟨beatsLeft_wrap k hrest ▸ h.plays, ?_, h.timeout, soon_later h hm, fun _ => hr, h.short⟩
  show (if v.loopCnt > 0 then v.loopCnt - 1 else v.loopCnt) = k ∨
    (if v.loopCnt > 0 then v.loopCnt - 1 else v.loopCnt) < 0
  have hloops := h.loops
  split_ifs <;> omega

theorem playing_light (hT : Monotone T) (h : Playing T start bs v (k + 1) m log r) {j : ℕ} {ms : UInt32}
    {rest : List UInt32} (hrest : v.lightArr.drop v.arrIndex = List.replicate j 0 ++ ms :: rest)
    (hms : ms ≠ 0) {n : ℕ} (hr : r ≤ T n) :
    Playing T start bs (v.lit (v.arrIndex + j) (ticks T (n + 1) + rtTickFromMillisecond ms)) (k + 1)
      (n + 2) (log ++ [⟨(v.arrIndex + j) % 2 = 0, T n, T (n + 1)⟩]) (T (n + 1) + ms.toNat) := by
  have hmem : ms ∈ v.lightArr := List.mem_of_mem_drop (i := v.arrIndex) (by rw [hrest]; simp)
  have hplays := h.plays
  rw [beatsLeft_light k _ hrest hms] at hplays
  refine ⟨hplays.snoc hr (hT (Nat.le_succ n)) rfl, h.loops, ?_, ?_, fun hzero => absurd hzero (Nat.succ_ne_zero k),
    h.short⟩
  · rw [AgileLed.lit, ticks, rtTick_eq (h.short ms hmem)]
    dsimp only
    rw [UInt32.ofNat_add, UInt32.ofNat_toNat]
  · have hshort := h.short ms hmem
    have hlater : T (n + 1) ≤ T (n + 2) := hT (Nat.le_succ (n + 1))
    omega

/-- How far a visit that makes the readings from `n` to `n'` brings a light that has `k + 1` loops
to go: it waits, a loop ends, or a beat is shown. -/
inductive Progress (T : ℕ → ℕ) (n n' : ℕ) (v : AgileLed) (k r : ℕ) (v' : AgileLed) : ℕ → ℕ → Prop where
  | waits {m : ℕ} (hn : n ≤ m) (hm : m < n') (hearly : ¬ Over (ticks T) v m)
    (hleft : beatsLeft v' (k + 1) = beatsLeft v (k + 1)) : Progress T n n' v k r v' (k + 1) r
  | loops (hfirst : v'.arrIndex = 0) (hleft : beatsLeft v' k = beatsLeft v (k + 1)) :
    Progress T n n' v k r v' k r
  | shows {m : ℕ} {b : Beat Bool} (hn : n ≤ m) (hm : m + 1 < n')
    (hleft : beatsLeft v (k + 1) = b :: beatsLeft v' (k + 1)) :
    Progress T n n' v k r v' (k + 1) (T (m + 1) + b.time)

theorem Progress.le {v' : AgileLed} {n n' k' r' : ℕ} (h : Progress T n n' v k r v' k' r') : k ≤ k' := by
  cases h with
  | waits => exact Nat.le_succ k
  | loops => exact Nat.le_refl k
  | shows => exact Nat.le_succ k

theorem wrapped_neg (h : v.wrapped.loopCnt < 0) : v.loopCnt < 0 := by
  change (if v.loopCnt > 0 then v.loopCnt - 1 else v.loopCnt) < 0 at h
  split_ifs at h <;> omega

/-- A visit to a light that has loops to go: the callback stays silent, and the pin is set for
beats only. -/
theorem playing_visit (hT : Monotone T) (h : Playing T start bs v (k + 1) m log r) {n : ℕ} (hm : m ≤ n) :
    let x := agileLedRepeat (ticks T) (v.lightArr.drop v.arrIndex) n v
    (∀ e ∈ x.2.2, e.IsLight) ∧ x.2.1.compelete = v.compelete ∧ x.2.1.lightArr = v.lightArr ∧
      (x.2.1.loopCnt < 0 → v.loopCnt < 0) ∧
      ∃ k' r', Progress T n x.1 v k r x.2.1 k' r' ∧
        Playing T start bs x.2.1 k' x.1 (log ++ lightsShown T x.2.2) r' := by
  have hsoon : ∀ j, r < T (n + j) + 2 ^ 31 := fun j =>
    soon_later h (hT (Nat.le_trans hm (Nat.le_add_right n j)))
  generalize hrest : v.lightArr.drop v.arrIndex = rest
  intro x
  have hvisit : LedVisit (ticks T) v n rest x := repeat_visit (ticks T) rest n v
  generalize x = y at hvisit
  cases hvisit with
  | early j rest hi hn hearly =>
    subst hi hn
    refine ⟨List.forall_mem_nil _, rfl, rfl, id, k + 1, r,
      .waits (by omega) (by omega) hearly (beatsLeft_early (k + 1) hrest), ?_⟩
    rw [show lightsShown T [] = [] from rfl, List.append_nil]
    exact playing_early h hrest (hT (by omega))
  | wrap j hn hover =>
    subst hn
    have hready := ((over_iff h.timeout (hsoon j)).mp hover).1
    refine ⟨List.forall_mem_nil _, rfl, rfl, wrapped_neg, k, r, .loops rfl (beatsLeft_wrap k hrest), ?_⟩
    rw [show lightsShown T [] = [] from rfl, List.append_nil]
    exact playing_wrap h hrest (hT (by omega)) (Nat.le_trans hready (hT (Nat.le_succ _)))
  | @light j ms rest i n' hi hn hover hms =>
    subst hi hn
    have hready := ((over_iff h.timeout (hsoon j)).mp hover).1
    refine ⟨List.forall_mem_singleton.mpr trivial, rfl, rfl, id, k + 1, T (n + j + 1) + ms.toNat,
      .shows (Nat.le_add_right n j) (by omega) (beatsLeft_light k _ hrest hms), ?_⟩
    exact playing_light hT h hrest hms hready

/-! Runs of visits. -/

/-- A visit of `agile_led_process` to a light of its list. -/
def lightTouch (tick : ℕ → UInt32) (v : AgileLed) (n : ℕ) : ℕ × AgileLed × List LedEvent :=
  if v.loopCnt = 0 then
    (n, { v with active := false }, if v.compelete then [.compelete] else [])
  else agileLedRepeat tick (v.lightArr.drop v.arrIndex) n v

/-- Visits to a light while it is active, at the readings `ns`; the others are made elsewhere. -/
inductive Touched (tick : ℕ → UInt32) :
    AgileLed → ℕ → List ℕ → List LedEvent → AgileLed → ℕ → Prop where
  | idle {v : AgileLed} {m m' : ℕ} (hm : m ≤ m') : Touched tick v m [] [] v m'
  | touch {v v' : AgileLed} {m n m' : ℕ} {ns : List ℕ} {events : List LedEvent} (hm : m ≤ n)
      (hactive : v.active = true)
      (hrest : Touched tick (lightTouch tick v n).2.1 (lightTouch tick v n).1 ns events v' m') :
    Touched tick v m (n :: ns) ((lightTouch tick v n).2.2 ++ events) v' m'

theorem touch_reads (tick : ℕ → UInt32) (v : AgileLed) (n : ℕ) : n ≤ (lightTouch tick v n).1 := by
  by_cases hcnt : v.loopCnt = 0
  · rw [lightTouch, if_pos hcnt]
  · rw [lightTouch, if_neg hcnt]
    exact Nat.le_of_lt (repeat_visit tick _ n v).reads_lt

theorem Touched.le {v' : AgileLed} {ns : List ℕ} {events : List LedEvent} {m' : ℕ}
    {tick : ℕ → UInt32} (h : Touched tick v m ns events v' m') : m ≤ m' := by
  induction h with
  | idle hm => exact hm
  | touch hm _ _ ih => exact Nat.le_trans hm (Nat.le_trans (touch_reads tick _ _) ih)

/-- A light that is not active is not visited. -/
theorem touched_inactive {v' : AgileLed} {ns : List ℕ} {events : List LedEvent} {m' : ℕ}
    {tick : ℕ → UInt32} (hactive : v.active = false) (h : Touched tick v m ns events v' m') :
    v' = v ∧ events = [] ∧ m ≤ m' := by
  cases h with
  | idle hm => exact ⟨rfl, rfl, hm⟩
  | touch hm hactive' => exact absurd hactive' (by rw [hactive]; exact Bool.false_ne_true)

end Detector
