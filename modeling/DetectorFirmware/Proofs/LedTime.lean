import Mathlib.Data.List.Chain
import DetectorFirmware.Proofs.LedShow

/-! A light ends in time. When the walks come often enough, each beat is at most so much longer
than its time, and a light with a number of loops to go has stopped after the sum of them. -/

namespace Detector

open EventLog Playback

/-- Each reading is made at most `P` after the one before it. -/
def Spaced (T : ℕ → ℕ) (P : ℕ) (ns : List ℕ) : Prop := List.IsChain (fun n n' => T n' ≤ T n + P) ns

/-- The time for beats and `k` ends of loops, with visits at most `P` apart: a beat is seen to be
over by one visit, and its reading for the next beat is made before the visit after it. -/
def timeLeft (P : ℕ) (bs : List (Beat Bool)) (k : ℕ) : ℕ := (bs.map fun b => b.time + 2 * P).sum + k * P

variable {T : ℕ → ℕ} {start k m r P p B : ℕ} {bs : List (Beat Bool)} {v : AgileLed} {log : List (Shown Bool)}

theorem timeLeft_loop (P : ℕ) (bs : List (Beat Bool)) (k : ℕ) :
    timeLeft P bs (k + 1) = timeLeft P bs k + P := by
  rw [timeLeft, timeLeft, Nat.add_mul k, Nat.one_mul, Nat.add_assoc]

theorem timeLeft_beat (P : ℕ) (b : Beat Bool) (bs : List (Beat Bool)) (k : ℕ) :
    timeLeft P (b :: bs) k = b.time + 2 * P + timeLeft P bs k := by
  rw [timeLeft, timeLeft, List.map_cons, List.sum_cons, Nat.add_assoc]

theorem timeLeft_loops (P : ℕ) (lightArr : List UInt32) (k : ℕ) :
    timeLeft P (loopBeats lightArr k) k = k * timeLeft P (beatsFrom 0 lightArr) 1 := by
  induction k with
  | zero => rw [Nat.zero_mul, timeLeft, Nat.zero_mul]; rfl
  | succ k ih =>
    have hone : loopBeats lightArr (k + 1) = beatsFrom 0 lightArr ++ loopBeats lightArr k := by
      rw [loopBeats, loopBeats, List.replicate_succ, List.flatten_cons]
    rw [Nat.succ_mul, ← ih, timeLeft_loop, hone, timeLeft, timeLeft, timeLeft, List.map_append,
      List.sum_append]
    omega

/-! One visit. -/

theorem beatsFrom_ne_nil {l : List UInt32} (h : ∃ ms ∈ l, ms ≠ 0) (i : ℕ) : beatsFrom i l ≠ [] := by
  induction l generalizing i with
  | nil =>
    obtain ⟨ms, hmem, -⟩ := h
    exact absurd hmem List.not_mem_nil
  | cons x l ih =>
    by_cases hx : x = 0
    · obtain ⟨ms, hmem, hne⟩ := h
      rw [beatsFrom, if_pos hx]
      exact ih ⟨ms, (List.mem_cons.mp hmem).resolve_left fun heq => hne (heq.trans hx), hne⟩ (i + 1)
    · rw [beatsFrom_light i hx]
      exact List.cons_ne_nil _ _

theorem loopBeats_length (lightArr : List UInt32) (k : ℕ) :
    (loopBeats lightArr k).length = k * (beatsFrom 0 lightArr).length := by
  rw [loopBeats, List.length_flatten, List.map_replicate, List.sum_replicate_nat]

/-- The last visit was not after the time that the light waits for; or a loop has ended then, and
the first of its beats is still to come. -/
def Punctual (T : ℕ → ℕ) (P : ℕ) (v : AgileLed) (p r : ℕ) : Prop :=
  T p ≤ r ∨ (v.arrIndex = 0 ∧ T p ≤ r + P)

section
variable {n n₁ n' k' r' : ℕ} {v' : AgileLed}

/-- A visit that finds the time not over, and is not so late that the tick has turned round. -/
theorem early_lt (h : Playing T start bs v k m log r) {i : ℕ} (hm : m ≤ i) (hT : Monotone T)
    (hlate : T i + 1 < r + 2 ^ 31) (hearly : ¬ Over (ticks T) v i) : T i < r := by
  rw [over_iff h.timeout (soon_later h (hT hm))] at hearly
  by_contra hr
  exact hearly ⟨by omega, by omega⟩

/-- What a light waits for is never long over, since a loop with a beat does not end twice. -/
theorem punctual_visit (hT : Monotone T) (h : Playing T start bs v (k + 1) m log r) (hm : m ≤ n)
    (hp : Punctual T P v p r) (hvisit : T n ≤ T p + P) (hn : n₁ ≤ n') (hlate : T n' + 1 < r + 2 ^ 31)
    (hbeat : ∃ ms ∈ v.lightArr, ms ≠ 0) (hsame : v'.lightArr = v.lightArr)
    (hprogress : Progress T n n₁ v k r v' k' r') : Punctual T P v' n r' := by
  cases hprogress with
  | @waits i hni hi hearly hleft =>
    have hlast : T i ≤ T n' := hT (by omega)
    have hwait := early_lt h (Nat.le_trans hm hni) hT (by omega) hearly
    have hfirst : T n ≤ T i := hT hni
    exact Or.inl (by omega)
  | loops hfirst hleft =>
    rcases hp with hp | ⟨hzero, -⟩
    · exact Or.inr ⟨hfirst, by omega⟩
    · -- both were at the beginning of a loop, one loop apart
      have hlen := congrArg List.length hleft
      rw [beatsLeft_first hfirst, beatsLeft_first hzero, hsame, loopBeats_length, loopBeats_length,
        Nat.succ_mul] at hlen
      have hpos := List.length_pos_iff.mpr (beatsFrom_ne_nil hbeat 0)
      omega
  | @shows i b hni hi hleft =>
    have hfirst : T n ≤ T (i + 1) := hT (Nat.le_succ_of_le hni)
    exact Or.inl (by omega)

/-- A visit to a light that goes on, at `n`, when the next one is at `n'`: the later of the time
it waits for and the last visit, with the time for what is left, grows no further. -/
theorem progress_in_time (hT : Monotone T) (h : Playing T start bs v (k + 1) m log r) (hm : m ≤ n)
    (hvisit : T n ≤ T p + P) (hnext : T n' ≤ T n + P) (hn : n₁ ≤ n') (hlate : T n' + 1 < r + 2 ^ 31)
    (hprogress : Progress T n n₁ v k r v' k' r') :
    max (T n) r' + timeLeft P (beatsLeft v' k') k' ≤ max (T p) r + timeLeft P (beatsLeft v (k + 1)) (k + 1) := by
  cases hprogress with
  | @waits i hni hi hearly hleft =>
    have hlast : T i ≤ T n' := hT (by omega)
    have hwait := early_lt h (Nat.le_trans hm hni) hT (by omega) hearly
    have hfirst : T n ≤ T i := hT hni
    rw [hleft]
    omega
  | loops hfirst hleft =>
    rw [hleft, timeLeft_loop]
    omega
  | @shows i b hni hi hleft =>
    have hlast : T (i + 1) ≤ T n' := hT (by omega)
    rw [hleft, timeLeft_beat]
    omega

end

/-- The visits to a light that is still active in the end come no later than what was left for
it, when they come often enough. -/
theorem touched_in_time (hT : Monotone T) {v' : AgileLed} {ns : List ℕ} {events : List LedEvent} {m' : ℕ}
    (hrun : Touched (ticks T) v m ns events v' m') (h : Playing T start bs v k m log r)
    (hcnt : v.loopCnt = k) (hstill : v'.active = true) (hspaced : Spaced T P (p :: ns))
    (hp : Punctual T P v p r) (hbeat : ∃ ms ∈ v.lightArr, ms ≠ 0)
    (hbound : max (T p) r + timeLeft P (beatsLeft v k) k ≤ B) (hlimit : 3 * P + 1 < 2 ^ 31) :
    ∀ n ∈ ns, T n ≤ B := by
  induction hrun generalizing k log r p with
  | idle => exact fun n hn => absurd hn List.not_mem_nil
  | @touch v v' m n m' ns events hm _ hrest ih =>
    obtain ⟨hvisit, hothers⟩ := List.isChain_cons_cons.mp hspaced
    by_cases hover : v.loopCnt = 0
    · -- the light is stopped here
      have htouch : lightTouch (ticks T) v n = (n, { v with active := false },
          if v.compelete then [LedEvent.compelete] else []) := if_pos hover
      rw [htouch] at hrest
      obtain ⟨rfl, -, -⟩ := touched_inactive rfl hrest
      exact absurd hstill Bool.false_ne_true
    · obtain ⟨k, rfl⟩ : ∃ k₀, k = k₀ + 1 := ⟨k - 1, by omega⟩
      have htouch : lightTouch (ticks T) v n = agileLedRepeat (ticks T) (v.lightArr.drop v.arrIndex) n v :=
        if_neg hover
      obtain ⟨-, -, hsame, hneg, k', r', hprogress, hplaying⟩ := playing_visit hT h hm
      rw [htouch] at hrest ih
      have hnow : T n ≤ B := by
        have := timeLeft_loop P (beatsLeft v (k + 1)) k
        omega
      cases hrest with
      | idle => simpa using hnow
      | @touch _ _ _ n' _ ns events hm' hactive' hrest' =>
        have hnext : T n' ≤ T n + P := (List.isChain_cons_cons.mp hothers).1
        have hcnt' : (agileLedRepeat (ticks T) (v.lightArr.drop v.arrIndex) n v).2.1.loopCnt = k' := by
          have := hplaying.loops
          omega
        have hlate : T n' + 1 < r + 2 ^ 31 := by
          have hlast : T p ≤ r + P := hp.elim Nat.le_add_right_of_le And.right
          omega
        have hbound' := progress_in_time hT h hm hvisit hnext hm' hlate hprogress
        have hp' := punctual_visit hT h hm hp hvisit hm' hlate hbeat hsame hprogress
        have hbeat' : ∃ ms ∈ (agileLedRepeat (ticks T) (v.lightArr.drop v.arrIndex) n v).2.1.lightArr,
            ms ≠ 0 := by rwa [hsame]
        exact List.forall_mem_cons.mpr ⟨hnow,
          ih hplaying hcnt' hstill hothers hp' hbeat' (Nat.le_trans hbound' hbound)⟩

/-! The walks of a run. -/

/-- The readings with which the walks of a run begin, and the one after its end. -/
def walkStarts (tick : ℕ → UInt32) : AgileLeds → List LedOp → List ℕ
  | s, [] => [s.reads]
  | s, op :: ops =>
    let later := (ledOp tick s op).elim [] fun r => walkStarts tick r.1 ops
    if op.target = none then s.reads :: later else later

variable {tick : ℕ → UInt32} {s s' : AgileLeds} {led : ℕ}

theorem run_cons {op : LedOp} {ops : List LedOp} {log : List (ℕ × LedEvent)}
    (hrun : ledRun tick s (op :: ops) = some (s', log)) : ∃ s₁ first rest,
      ledOp tick s op = some (s₁, first) ∧ ledRun tick s₁ ops = some (s', rest) ∧ log = first ++ rest ∧
        walkStarts tick s (op :: ops) =
          if op.target = none then s.reads :: walkStarts tick s₁ ops else walkStarts tick s₁ ops := by
  simp only [ledRun, Option.bind_eq_bind, Option.bind_eq_some_iff, Prod.exists] at hrun
  obtain ⟨s₁, first, hop, s₂, rest, hrest, hlast⟩ := hrun
  cases hlast
  refine ⟨s₁, first, rest, hop, hrest, rfl, ?_⟩
  rw [walkStarts, hop]
  rfl

theorem walkStarts_cons {ops : List LedOp} {log : List (ℕ × LedEvent)} (h : Listed s)
    (hrun : ledRun tick s ops = some (s', log)) :
    ∃ w ws, walkStarts tick s ops = w :: ws ∧ s.reads ≤ w := by
  induction ops generalizing s log with
  | nil => exact ⟨s.reads, [], rfl, Nat.le_refl _⟩
  | cons op ops ih =>
    obtain ⟨s₁, first, rest, hop, hrest, -, hwalks⟩ := run_cons hrun
    obtain ⟨hlisted, hreads, -⟩ := op_sees h hop
    obtain ⟨w, ws, hw, hlater⟩ := ih hlisted hrest
    rw [hwalks, hw]
    split_ifs
    · exact ⟨s.reads, w :: ws, rfl, Nat.le_refl _⟩
    · exact ⟨w, ws, rfl, Nat.le_trans hreads hlater⟩

theorem Touched.between {v' : AgileLed} {ns : List ℕ} {events : List LedEvent} {m' : ℕ}
    (h : Touched tick v m ns events v' m') : ∀ n ∈ ns, m ≤ n ∧ n ≤ m' := by
  induction h with
  | idle => exact fun n hn => absurd hn List.not_mem_nil
  | @touch v v' m n m' ns events hm _ hrest ih =>
    have hvisit := touch_reads tick v n
    have hlast := hrest.le
    refine List.forall_mem_cons.mpr ⟨⟨hm, Nat.le_trans hvisit hlast⟩, fun i hi => ?_⟩
    exact ⟨Nat.le_trans hm (Nat.le_trans hvisit (ih i hi).1), (ih i hi).2⟩

/-- The visits of one operation, before those of the others. -/
theorem spaced_block {w w' : ℕ} {ns ns' : List ℕ} (hstep : T w' ≤ T w + P) (hwp : T w ≤ T p)
    (hns : ∀ n ∈ ns, T w' ≤ T n ∧ T n ≤ T w' + P) (hfirst : ns ≠ [] ∨ w' = w)
    (hrest : ∀ q, T w' ≤ T q → Spaced T (2 * P) (q :: ns')) : Spaced T (2 * P) (p :: (ns ++ ns')) := by
  induction ns generalizing p w with
  | nil =>
    obtain rfl : w' = w := hfirst.resolve_left fun hne => hne rfl
    exact hrest p hwp
  | cons n ns ih =>
    obtain ⟨hn, hothers⟩ := List.forall_mem_cons.mp hns
    refine List.isChain_cons_cons.mpr ⟨by omega, ?_⟩
    exact ih (Nat.le_add_right _ P) hn.1 hothers (Or.inr rfl)

/-- In a run whose walks come at most `P` apart, the visits to a light that is active to the end
come at most `2 * P` apart. -/
theorem run_spaced (hT : Monotone T) {ops : List LedOp} {log : List (ℕ × LedEvent)} (h : Listed s)
    (hrun : ledRun tick s ops = some (s', log)) (hops : ∀ op ∈ ops, op.target ≠ some led)
    (hstill : (s'.leds led).active = true) {w : ℕ} (hw : w ≤ s.reads)
    (hspaced : Spaced T P (w :: walkStarts tick s ops)) :
    ∃ ns, Sees tick led s ns log s' ∧ ∀ p, T w ≤ T p →
      Spaced T (2 * P) (p :: ns) ∧ ∃ q ∈ p :: ns, T s'.reads ≤ T q + P := by
  induction ops generalizing s w log with
  | nil =>
    cases hrun
    have hend : T s'.reads ≤ T w + P := (List.isChain_cons_cons.mp hspaced).1
    exact ⟨[], .idle (Nat.le_refl _), fun p hp =>
      ⟨List.isChain_singleton p, p, List.mem_singleton_self p, Nat.le_trans hend (Nat.add_le_add_right hp P)⟩⟩
  | cons op ops ih =>
    have hactive : (s.leds led).active = true := by
      obtain ⟨-, hsees⟩ := run_sees h hrun
      obtain ⟨ns, hns⟩ := hsees led hops
      by_contra hoff
      rw [Bool.not_eq_true] at hoff
      exact absurd ((touched_inactive hoff hns).1 ▸ hstill) (by rw [hoff]; exact Bool.false_ne_true)
    obtain ⟨hop, hops⟩ := List.forall_mem_cons.mp hops
    obtain ⟨s₁, first, rest, hfirst, hrest, rfl, hwalks⟩ := run_cons hrun
    obtain ⟨hlisted, hreads, hsees⟩ := op_sees h hfirst
    obtain ⟨ns, hns, hvisited⟩ := hsees led hop
    obtain ⟨w₁, ws, hw₁, hlater⟩ := walkStarts_cons hlisted hrest
    -- the start of the last walk, when the operation is over
    obtain ⟨w', hw', hstep, hbegin, hspaced'⟩ : ∃ w', w' ≤ s.reads ∧ T w' ≤ T w + P ∧ (ns ≠ [] ∨ w' = w) ∧
        Spaced T P (w' :: walkStarts tick s₁ ops) := by
      rw [hwalks] at hspaced
      split_ifs at hspaced with hwalk
      · obtain ⟨fuel, rfl⟩ : ∃ fuel, op = .process fuel := by
          cases op with
          | process fuel => exact ⟨fuel, rfl⟩
          | _ => exact absurd hwalk (by simp [LedOp.target])
        obtain ⟨hgap, hothers⟩ := List.isChain_cons_cons.mp hspaced
        exact ⟨s.reads, Nat.le_refl _, hgap, Or.inl (hvisited fuel rfl ((h.mem_iff led).mpr hactive)),
          hothers⟩
      · exact ⟨w, hw, Nat.le_add_right _ P, Or.inr rfl, hspaced⟩
    obtain ⟨ns', hns', hvisits⟩ := ih hlisted hrest hops (Nat.le_trans hw' hreads) hspaced'
    have hend : T s₁.reads ≤ T w' + P := by
      rw [hw₁] at hspaced'
      exact Nat.le_trans (hT hlater) (List.isChain_cons_cons.mp hspaced').1
    have hblock : ∀ n ∈ ns, T w' ≤ T n ∧ T n ≤ T w' + P := fun n hn =>
      have hbetween := hns.between n hn
      ⟨hT (Nat.le_trans hw' hbetween.1), Nat.le_trans (hT hbetween.2) hend⟩
    refine ⟨ns ++ ns', ?_, fun p hp => ⟨spaced_block hstep hp hblock hbegin fun q hq => (hvisits q hq).1, ?_⟩⟩
    · rw [Sees, ofMember_append]
      exact hns.append hns'
    · obtain ⟨q₀, hq₀, hle⟩ : ∃ q₀ ∈ p :: ns, T w' ≤ T q₀ := by
        cases ns with
        | nil => exact ⟨p, List.mem_singleton_self p, (hbegin.resolve_left fun hne => hne rfl) ▸ hp⟩
        | cons n ns =>
          exact ⟨n, List.mem_cons_of_mem p List.mem_cons_self, (hblock n List.mem_cons_self).1⟩
      obtain ⟨-, q, hq, hlast⟩ := hvisits q₀ hle
      refine ⟨q, ?_, hlast⟩
      rw [← List.cons_append]
      rcases List.mem_cons.mp hq with rfl | hq
      · exact List.mem_append_left ns' hq₀
      · exact List.mem_append_right (p :: ns) hq

/-- The longest that a number of loops may take: a beat may be `4 * P` longer than its time, and
the end of a loop takes `2 * P`. -/
def loopsTime (P : ℕ) (lightArr : List UInt32) (loops : ℕ) : ℕ :=
  loops * (((beatsFrom 0 lightArr).map fun b => b.time + 4 * P).sum + 2 * P)

/-- A light that was started with a number of loops to go, and is not called since. Walks that
come at most `P` ms apart, whatever else is done between them, have stopped it when the longest
time of its loops is over. -/
theorem light_ends_in_time (hT : Monotone T) (h : Listed s)
    (hstart : (agileLedStart (ticks T) s led).1 = true)
    (hshort : ∀ ms ∈ (s.leds led).lightArr, ms.toNat < 2 ^ 31)
    (hbeat : ∃ ms ∈ (s.leds led).lightArr, ms ≠ 0) {loops : ℕ}
    (hloops : (s.leds led).loopInit = loops) {ops : List LedOp} (hops : ∀ op ∈ ops, op.target ≠ some led)
    {log : List (ℕ × LedEvent)}
    (hrun : ledRun (ticks T) (agileLedStart (ticks T) s led).2 ops = some (s', log))
    (hspaced : Spaced T P (s.reads :: walkStarts (ticks T) (agileLedStart (ticks T) s led).2 ops))
    (hlimit : 6 * P + 1 < 2 ^ 31)
    (hlate : T s.reads + loopsTime P (s.leds led).lightArr loops + P < T s'.reads) :
    (s'.leds led).active = false ∧ led ∉ s'.slist := by
  have hoff : (s'.leds led).active = false := by
    by_contra hstill
    rw [Bool.not_eq_false] at hstill
    obtain ⟨hfresh, -⟩ := start_fresh hT hstart
    have hplaying := hfresh.playing hshort (Or.inl hloops)
    have hcnt := hfresh.loopCnt.trans hloops
    have hreads : s.reads ≤ (agileLedStart (ticks T) s led).2.reads := (apart_start (ticks T) s led).reads
    obtain ⟨ns, hns, hvisits⟩ := run_spaced hT (listed_start h led) hrun hops hstill hreads hspaced
    obtain ⟨hapart, q, hq, hlast⟩ := hvisits s.reads (Nat.le_refl _)
    have hfirst : beatsLeft ((agileLedStart (ticks T) s led).2.leds led) loops =
        loopBeats (s.leds led).lightArr loops := by
      rw [beatsLeft_first hfresh.first, hfresh.lightArr]
    have hbound : max (T s.reads) (T s.reads) +
        timeLeft (2 * P) (beatsLeft ((agileLedStart (ticks T) s led).2.leds led) loops) loops ≤
          T s.reads + loopsTime P (s.leds led).lightArr loops := by
      rw [hfirst, timeLeft_loops, loopsTime, timeLeft, ← Nat.mul_assoc, Nat.one_mul, Nat.max_self]
    have hall := touched_in_time hT hns hplaying hcnt hstill hapart (Or.inl (Nat.le_refl _))
      (hfresh.lightArr.symm ▸ hbeat) hbound (by omega)
    have hearly : T q ≤ T s.reads + loopsTime P (s.leds led).lightArr loops := by
      rcases List.mem_cons.mp hq with rfl | hq
      · exact Nat.le_add_right _ _
      · exact hall q hq
    omega
  have hlisted : Listed s' := (run_sees (listed_start h led) hrun).1
  refine ⟨hoff, fun hmem => ?_⟩
  have hactive := (hlisted.mem_iff led).mp hmem
  rw [hoff] at hactive
  exact Bool.false_ne_true hactive

/-- Walks that come 250 to 750 ms apart. -/
def lazyWalks : List LedOp := (List.replicate 40 [.process 1, .staticChange 1 [] 0]).flatten

theorem light_ends_in_time_lazy : ∃ s' log, ledRun (ticks fun n => 250 * n)
      (agileLedStart (ticks fun n => 250 * n) idleLights 0).2 lazyWalks = some (s', log) ∧
    (s'.leds 0).active = false ∧ 0 ∉ s'.slist := by
  obtain ⟨⟨s', log⟩, hrun, hreads⟩ := (Option.any_eq_true (fun r : AgileLeds × List (ℕ × LedEvent) =>
      decide (36 ≤ r.1.reads)) _).mp (show (ledRun (ticks fun n => 250 * n)
      (agileLedStart (ticks fun n => 250 * n) idleLights 0).2 lazyWalks).any _ = true by decide +kernel)
  have hT : Monotone fun n => 250 * n := fun _ _ h => Nat.mul_le_mul_left 250 h
  have hstart : (agileLedStart (ticks fun n => 250 * n) idleLights 0).1 = true := by decide
  have hops : ∀ op ∈ lazyWalks, op.target ≠ some 0 := by
    simp [lazyWalks, LedOp.target]
  have hspaced : Spaced (fun n => 250 * n) 750 (idleLights.reads ::
      walkStarts (ticks fun n => 250 * n) (agileLedStart (ticks fun n => 250 * n) idleLights 0).2 lazyWalks) := by
    unfold Spaced
    decide +kernel
  have hlate : 36 ≤ s'.reads := of_decide_eq_true hreads
  have hloops : (idleLights.leds 0).loopInit = (1 : ℕ) := rfl
  refine ⟨s', log, hrun, light_ends_in_time hT listed_idle hstart ?_ ?_ hloops hops hrun hspaced ?_ ?_⟩
  · simp [idleLights]
  · simp [idleLights]
  · omega
  · show 250 * 0 + loopsTime 750 [250, 250] 1 + 750 < 250 * s'.reads
    have htime : loopsTime 750 [250, 250] 1 = 8000 := by decide
    omega

end Detector
