import Mathlib.Data.List.Nodup
import DetectorFirmware.Library.EventLog
import DetectorFirmware.Proofs.LedPlay

/-! The list of lights. A light is in it exactly while it is active, so the walk that begins
again after every light it stops comes to an end, and each light sees a run of visits of its
own, whatever is done to the others. -/

namespace Detector

open EventLog Playback

/-- The list holds the active lights, each once. -/
structure Listed (s : AgileLeds) : Prop where
  nodup : s.slist.Nodup
  mem_iff : ∀ led, led ∈ s.slist ↔ (s.leds led).active = true

variable {tick : ℕ → UInt32} {s s' : AgileLeds} {led : ℕ}

theorem set_leds (s : AgileLeds) (led : ℕ) (v : AgileLed) (a : ℕ) :
    (s.set led v).leds a = if a = led then v else s.leds a :=
  Function.update_apply s.leds led v a

/-- A light that is neither stopped nor started keeps its place. -/
theorem listed_set (h : Listed s) {v : AgileLed} (hactive : v.active = (s.leds led).active) (reads : ℕ) :
    Listed { s.set led v with reads := reads } := by
  refine ⟨h.nodup, fun a => ?_⟩
  show a ∈ s.slist ↔ ((s.set led v).leds a).active = true
  rw [set_leds, h.mem_iff a]
  split_ifs with ha
  · rw [hactive, ha]
  · rfl

theorem listed_stop (h : Listed s) (led : ℕ) : Listed (agileLedStop s led) := by
  unfold agileLedStop
  split_ifs with hactive
  · refine ⟨h.nodup.erase led, fun a => ?_⟩
    show a ∈ s.slist.erase led ↔ ((s.set led _).leds a).active = true
    rw [h.nodup.mem_erase_iff, set_leds, h.mem_iff a]
    split_ifs with ha
    · simp [ha]
    · simp [ha]
  · exact h

theorem listed_start (h : Listed s) (led : ℕ) : Listed (agileLedStart tick s led).2 := by
  unfold agileLedStart
  split_ifs with hactive hempty
  · exact h
  · exact h
  · have hnew : led ∉ s.slist := fun hmem => hactive ((h.mem_iff led).mp hmem)
    refine ⟨?_, fun a => ?_⟩
    · show (s.slist ++ [led]).Nodup
      refine List.nodup_append.mpr ⟨h.nodup, List.nodup_singleton led, fun a ha b hb => ?_⟩
      rintro rfl
      exact hnew (List.mem_singleton.mp hb ▸ ha)
    · show a ∈ s.slist ++ [led] ↔ ((s.set led _).leds a).active = true
      rw [set_leds, List.mem_append, h.mem_iff a, List.mem_singleton]
      split_ifs with ha
      · simp [ha]
      · simp [ha]

/-! The walk. -/

/-- What a round does with a light that goes on. -/
def AgileLeds.visited (tick : ℕ → UInt32) (s : AgileLeds) (led : ℕ) : AgileLeds :=
  let x := agileLedRepeat tick ((s.leds led).lightArr.drop (s.leds led).arrIndex) s.reads (s.leds led)
  { s.set led x.2.1 with reads := x.1 }

theorem processLoop_stop {fuel : ℕ} {next : List ℕ} (h : (s.leds led).loopCnt = 0) :
    agileLedProcessLoop tick (fuel + 1) (led :: next) s =
      (agileLedProcessLoop tick fuel (agileLedStop s led).slist (agileLedStop s led)).map fun r =>
        (r.1, ((if (s.leds led).compelete then [LedEvent.compelete] else []).map fun e => (led, e)) ++
          r.2) := by
  have hcompelete : ((agileLedStop s led).leds led).compelete = (s.leds led).compelete := by
    unfold agileLedStop
    split_ifs
    · simp [set_leds]
    · rfl
  rw [agileLedProcessLoop, if_pos h]
  simp only [hcompelete]
  cases agileLedProcessLoop tick fuel (agileLedStop s led).slist (agileLedStop s led) with
  | none => rfl
  | some r => cases hc : (s.leds led).compelete <;> rfl

theorem processLoop_visit {fuel : ℕ} {next : List ℕ} (h : (s.leds led).loopCnt ≠ 0) :
    agileLedProcessLoop tick (fuel + 1) (led :: next) s =
      (agileLedProcessLoop tick fuel next (s.visited tick led)).map fun r =>
        (r.1, ((lightTouch tick (s.leds led) s.reads).2.2.map fun e => (led, e)) ++ r.2) := by
  rw [agileLedProcessLoop, if_neg h, lightTouch, if_neg h]
  simp only [AgileLeds.visited]
  cases agileLedProcessLoop tick fuel next _ with
  | none => rfl
  | some r => rfl

theorem reads_visited (s : AgileLeds) (led : ℕ) : s.reads < (s.visited tick led).reads :=
  (repeat_visit tick _ s.reads (s.leds led)).reads_lt

theorem listed_visited (h : Listed s) (led : ℕ) : Listed (s.visited tick led) :=
  listed_set h (repeat_visit tick _ s.reads (s.leds led)).active _

/-- The walk ends: it makes no more rounds than its first pass and one more pass for each light
that it stops. -/
theorem processLoop_total {fuel : ℕ} {walk : List ℕ} (h : Listed s) (hwalk : walk ⊆ s.slist)
    (hfuel : walk.length + s.slist.length * s.slist.length ≤ fuel) :
    (agileLedProcessLoop tick fuel walk s).isSome = true := by
  induction fuel generalizing walk s with
  | zero =>
    obtain rfl : walk = [] := List.eq_nil_of_length_eq_zero (by omega)
    rfl
  | succ fuel ih =>
    cases walk with
    | nil => rfl
    | cons led next =>
      have hmem : led ∈ s.slist := hwalk List.mem_cons_self
      rw [List.length_cons] at hfuel
      by_cases hcnt : (s.leds led).loopCnt = 0
      · rw [processLoop_stop hcnt, Option.isSome_map]
        have hstop : (agileLedStop s led).slist = s.slist.erase led := by
          rw [agileLedStop, if_pos ((h.mem_iff led).mp hmem)]
        refine ih (listed_stop h led) (List.Subset.refl _) ?_
        obtain ⟨p, hp⟩ : ∃ p, s.slist.length = p + 1 :=
          Nat.exists_eq_succ_of_ne_zero (List.length_pos_of_mem hmem).ne'
        rw [hstop, List.length_erase_of_mem hmem, hp, Nat.add_sub_cancel]
        rw [hp] at hfuel
        have hsquare : (p + 1) * (p + 1) = p * p + p + p + 1 := by
          rw [Nat.add_mul, Nat.mul_add, Nat.one_mul, Nat.mul_one]
          omega
        omega
      · rw [processLoop_visit hcnt, Option.isSome_map]
        refine ih (listed_visited h led) (fun a ha => hwalk (List.mem_cons_of_mem led ha)) ?_
        show next.length + s.slist.length * s.slist.length ≤ fuel
        omega

/-! What one light sees. -/

theorem Touched.earlier {v v' : AgileLed} {k m m' : ℕ} {ns : List ℕ} {events : List LedEvent}
    (h : Touched tick v m ns events v' m') (hk : k ≤ m) : Touched tick v k ns events v' m' := by
  cases h with
  | idle hm => exact .idle (Nat.le_trans hk hm)
  | touch hm hactive hrest => exact .touch (Nat.le_trans hk hm) hactive hrest

theorem Touched.append {v₀ v₁ v₂ : AgileLed} {m₀ m₁ m₂ : ℕ} {ns ns' : List ℕ} {es es' : List LedEvent}
    (h : Touched tick v₀ m₀ ns es v₁ m₁) (h' : Touched tick v₁ m₁ ns' es' v₂ m₂) :
    Touched tick v₀ m₀ (ns ++ ns') (es ++ es') v₂ m₂ := by
  induction h with
  | idle hm => exact h'.earlier hm
  | touch hm hactive _ ih =>
    rw [List.cons_append, List.append_assoc]
    exact .touch hm hactive (ih h')

/-- Light `a` between two states of the system. -/
def Sees (tick : ℕ → UInt32) (a : ℕ) (s : AgileLeds) (ns : List ℕ) (log : List (ℕ × LedEvent))
    (s' : AgileLeds) : Prop :=
  Touched tick (s.leds a) s.reads ns (ofMember a log) (s'.leds a) s'.reads

theorem stop_leds (h : (s.leds led).active = true) (a : ℕ) : (agileLedStop s led).leds a =
    if a = led then { s.leds led with active := false } else s.leds a := by
  rw [agileLedStop, if_pos h]
  exact set_leds s led _ a

/-- The walk visits every light that it meets, and shows each light visits of its own only. -/
theorem processLoop_sees {fuel : ℕ} {walk : List ℕ} {log : List (ℕ × LedEvent)} (h : Listed s)
    (hwalk : walk ⊆ s.slist) (hrun : agileLedProcessLoop tick fuel walk s = some (s', log)) :
    Listed s' ∧ s.reads ≤ s'.reads ∧
      ∀ a, ∃ ns, Sees tick a s ns log s' ∧ (a ∈ walk → ns ≠ []) := by
  induction fuel generalizing walk s log with
  | zero =>
    cases walk with
    | nil =>
      cases hrun
      exact ⟨h, Nat.le_refl _, fun a => ⟨[], .idle (Nat.le_refl _), fun ha => absurd ha List.not_mem_nil⟩⟩
    | cons led next => exact absurd hrun (by simp [agileLedProcessLoop])
  | succ fuel ih =>
    cases walk with
    | nil =>
      cases hrun
      exact ⟨h, Nat.le_refl _, fun a => ⟨[], .idle (Nat.le_refl _), fun ha => absurd ha List.not_mem_nil⟩⟩
    | cons led next =>
      have hactive := (h.mem_iff led).mp (hwalk List.mem_cons_self)
      by_cases hcnt : (s.leds led).loopCnt = 0
      · rw [processLoop_stop hcnt, Option.map_eq_some_iff] at hrun
        obtain ⟨⟨s₂, log'⟩, hrest, heq⟩ := hrun
        cases heq
        obtain ⟨hlisted, hreads, hsees⟩ := ih (listed_stop h led) (List.Subset.refl _) hrest
        have hsame : (agileLedStop s led).reads = s.reads := by
          rw [agileLedStop, if_pos hactive]
          rfl
        rw [hsame] at hreads
        refine ⟨hlisted, hreads, fun a => ?_⟩
        obtain ⟨ns, ha, hvisited⟩ := hsees a
        rw [Sees, stop_leds hactive, hsame] at ha
        by_cases hal : a = led
        · subst hal
          rw [if_pos rfl] at ha
          refine ⟨s.reads :: ns, ?_, fun _ => List.cons_ne_nil _ _⟩
          have htouch : lightTouch tick (s.leds a) s.reads = (s.reads, { s.leds a with active := false },
              if (s.leds a).compelete then [LedEvent.compelete] else []) := if_pos hcnt
          rw [Sees, ofMember_append, ofMember_own]
          have hlater : Touched tick (lightTouch tick (s.leds a) s.reads).2.1
              (lightTouch tick (s.leds a) s.reads).1 ns (ofMember a log') (s₂.leds a) s₂.reads := by
            rw [htouch]
            exact ha
          have hfirst := Touched.touch (Nat.le_refl s.reads) hactive hlater
          rwa [htouch] at hfirst
        · rw [if_neg hal] at ha
          refine ⟨ns, ?_, fun hmem => hvisited ?_⟩
          · rw [Sees, ofMember_append, ofMember_other (Ne.symm hal), List.nil_append]
            exact ha
          · have hin : a ∈ s.slist := hwalk hmem
            rw [agileLedStop, if_pos hactive]
            exact (h.nodup.mem_erase_iff).mpr ⟨hal, hin⟩
      · rw [processLoop_visit hcnt, Option.map_eq_some_iff] at hrun
        obtain ⟨⟨s₂, log'⟩, hrest, heq⟩ := hrun
        cases heq
        have hreads : s.reads < (s.visited tick led).reads := reads_visited s led
        obtain ⟨hlisted, hreads', hsees⟩ := ih (listed_visited h led)
          (fun a ha => hwalk (List.mem_cons_of_mem led ha)) hrest
        refine ⟨hlisted, by omega, fun a => ?_⟩
        obtain ⟨ns, ha, hvisited⟩ := hsees a
        rw [Sees, show (s.visited tick led).leds a = _ from set_leds s led _ a] at ha
        have htouch : lightTouch tick (s.leds led) s.reads = agileLedRepeat tick
            ((s.leds led).lightArr.drop (s.leds led).arrIndex) s.reads (s.leds led) := if_neg hcnt
        by_cases hal : a = led
        · subst hal
          rw [if_pos rfl] at ha
          refine ⟨s.reads :: ns, ?_, fun _ => List.cons_ne_nil _ _⟩
          rw [Sees, ofMember_append, ofMember_own]
          exact Touched.touch (Nat.le_refl s.reads) hactive (htouch ▸ ha)
        · rw [if_neg hal] at ha
          refine ⟨ns, ?_, fun hmem => hvisited ?_⟩
          · rw [Sees, ofMember_append, ofMember_other (Ne.symm hal), List.nil_append]
            exact ha.earlier (Nat.le_of_lt hreads)
          · exact (List.mem_cons.mp hmem).resolve_left hal

/-! Runs. -/

/-- What an operation on light `led` leaves alone. -/
structure Apart (led : ℕ) (s s' : AgileLeds) : Prop where
  reads : s.reads ≤ s'.reads
  others : ∀ a, a ≠ led → s'.leds a = s.leds a

theorem apart_set (s : AgileLeds) (led : ℕ) (v : AgileLed) {s' : AgileLeds} (hreads : s.reads ≤ s'.reads)
    (hleds : s'.leds = (s.set led v).leds) : Apart led s s' := by
  refine ⟨hreads, fun a ha => ?_⟩
  rw [hleds, set_leds, if_neg ha]

theorem apart_refl (led : ℕ) (s : AgileLeds) : Apart led s s := ⟨Nat.le_refl _, fun _ _ => rfl⟩

theorem Apart.trans {s₁ s₂ : AgileLeds} (h : Apart led s s₁) (h' : Apart led s₁ s₂) : Apart led s s₂ :=
  ⟨Nat.le_trans h.reads h'.reads, fun a ha => (h'.others a ha).trans (h.others a ha)⟩

theorem apart_stop (s : AgileLeds) (led : ℕ) : Apart led s (agileLedStop s led) := by
  unfold agileLedStop
  split_ifs
  · exact apart_set s led _ (Nat.le_refl _) rfl
  · exact apart_refl led s

theorem apart_start (tick : ℕ → UInt32) (s : AgileLeds) (led : ℕ) :
    Apart led s (agileLedStart tick s led).2 := by
  unfold agileLedStart
  split_ifs
  · exact apart_refl led s
  · exact apart_refl led s
  · exact apart_set s led _ (Nat.le_succ _) rfl

theorem apart_change (tick : ℕ → UInt32) (s : AgileLeds) (led : ℕ) (lightArr : List UInt32) (loopCnt : ℤ) :
    Apart led s (agileLedChange tick s led lightArr loopCnt) :=
  apart_set s led _ (Nat.le_succ _) rfl

theorem listed_change (h : Listed s) (led : ℕ) (lightArr : List UInt32) (loopCnt : ℤ) :
    Listed (agileLedChange tick s led lightArr loopCnt) := by
  refine listed_set h ?_ _
  rfl

theorem dynamicChange_quiet (h : Listed s) {led : ℕ} {rtMalloc : ℕ → Bool} {before : Char}
    {lightMode : Option (List Char)} {loopCnt : ℤ} {r : Bool × AgileLeds}
    (hrun : agileLedDynamicChange tick rtMalloc before s led lightMode loopCnt = some r) :
    Listed r.2 ∧ Apart led s r.2 := by
  unfold agileLedDynamicChange at hrun
  cases lightMode with
  | none =>
    cases hrun
    exact ⟨listed_change h .., apart_change ..⟩
  | some lightMode =>
    obtain ⟨parsed, -, hparsed⟩ := Option.map_eq_some_iff.mp hrun
    cases parsed with
    | none =>
      cases hparsed
      have hset : Listed (s.set led { s.leds led with lightArr := [] }) := by
        refine listed_set h ?_ s.reads
        rfl
      have hapart : Apart led s (s.set led { s.leds led with lightArr := [] }) :=
        apart_set s led _ (Nat.le_refl _) rfl
      exact ⟨listed_stop hset led, hapart.trans (apart_stop (s.set led _) led)⟩
    | some lightArr =>
      cases hparsed
      exact ⟨listed_change h .., apart_change ..⟩

/-- An operation that is called with one light leaves the others alone. -/
theorem op_sees {op : LedOp} {log : List (ℕ × LedEvent)} (h : Listed s)
    (hop : ledOp tick s op = some (s', log)) :
    Listed s' ∧ s.reads ≤ s'.reads ∧ ∀ a, op.target ≠ some a → ∃ ns, Sees tick a s ns log s' ∧
      (∀ fuel, op = .process fuel → a ∈ s.slist → ns ≠ []) := by
  -- what all operations but the walk have in common
  have hquiet : ∀ led, op.target = some led → Listed s' ∧ Apart led s s' →
      (∀ a, a ≠ led → ofMember a log = []) →
      Listed s' ∧ s.reads ≤ s'.reads ∧ ∀ a, op.target ≠ some a → ∃ ns, Sees tick a s ns log s' ∧
        (∀ fuel, op = .process fuel → a ∈ s.slist → ns ≠ []) := by
    intro led hled hapart hlog
    refine ⟨hapart.1, hapart.2.reads, fun a ha => ⟨[], ?_, ?_⟩⟩
    · have hal : a ≠ led := fun heq => ha (heq ▸ hled)
      rw [Sees, hlog a hal, hapart.2.others a hal]
      exact .idle hapart.2.reads
    · rintro fuel rfl
      exact absurd hled (by simp [LedOp.target])
  cases op with
  | start led =>
    cases hop
    exact hquiet led rfl ⟨listed_start h led, apart_start tick s led⟩ fun _ _ => rfl
  | stop led =>
    cases hop
    exact hquiet led rfl ⟨listed_stop h led, apart_stop s led⟩ fun _ _ => rfl
  | staticChange led lightArr loopCnt =>
    cases hop
    exact hquiet led rfl ⟨listed_change h led lightArr loopCnt, apart_change tick s led lightArr loopCnt⟩
      fun _ _ => rfl
  | dynamicChange led rtMalloc before lightMode loopCnt =>
    obtain ⟨r, hr, heq⟩ := Option.map_eq_some_iff.mp hop
    cases heq
    exact hquiet led rfl (dynamicChange_quiet h hr) fun _ _ => rfl
  | setCompelete led compelete =>
    cases hop
    refine hquiet led rfl ⟨?_, apart_set s led _ (Nat.le_refl _) rfl⟩ fun _ _ => rfl
    refine listed_set h ?_ s.reads
    rfl
  | write led on =>
    cases hop
    exact hquiet led rfl ⟨h, apart_refl led s⟩
      fun a ha => ofMember_cons_other (Ne.symm ha) (LedEvent.write on) []
  | process fuel =>
    obtain ⟨hlisted, hreads, hsees⟩ := processLoop_sees h (List.Subset.refl _) hop
    refine ⟨hlisted, hreads, fun a _ => ?_⟩
    obtain ⟨ns, ha, hvisited⟩ := hsees a
    exact ⟨ns, ha, fun _ _ hmem => hvisited hmem⟩

theorem run_sees {ops : List LedOp} {log : List (ℕ × LedEvent)} (h : Listed s)
    (hrun : ledRun tick s ops = some (s', log)) :
    Listed s' ∧ ∀ a, (∀ op ∈ ops, op.target ≠ some a) → ∃ ns, Sees tick a s ns log s' := by
  induction ops generalizing s log with
  | nil =>
    cases hrun
    exact ⟨h, fun a _ => ⟨[], .idle (Nat.le_refl _)⟩⟩
  | cons op ops ih =>
    simp only [ledRun, Option.bind_eq_bind, Option.bind_eq_some_iff, Prod.exists] at hrun
    obtain ⟨s₁, first, hop, s₂, rest, hrest, hlast⟩ := hrun
    cases hlast
    obtain ⟨hlisted, -, hsees⟩ := op_sees h hop
    obtain ⟨hlisted', hsees'⟩ := ih hlisted hrest
    refine ⟨hlisted', fun a ha => ?_⟩
    obtain ⟨ns, hfirst, -⟩ := hsees a (ha op List.mem_cons_self)
    obtain ⟨ns', hthen⟩ := hsees' a fun op' hop' => ha op' (List.mem_cons_of_mem op hop')
    refine ⟨ns ++ ns', ?_⟩
    rw [Sees, ofMember_append]
    exact hfirst.append hthen

/-- In every state that a run reaches, the list holds the active lights, each once, and a walk
over it comes to its end, however many lights it stops, after having visited every light. -/
theorem lights_listed (h : Listed s) {ops : List LedOp} {log : List (ℕ × LedEvent)}
    (hrun : ledRun tick s ops = some (s', log)) :
    s'.slist.Nodup ∧ (∀ a, a ∈ s'.slist ↔ (s'.leds a).active = true) ∧
      ∀ fuel, s'.slist.length + s'.slist.length * s'.slist.length ≤ fuel →
        ∃ s'' log', agileLedProcess tick fuel s' = some (s'', log') ∧
          ∀ a ∈ s'.slist, ∃ ns, ns ≠ [] ∧ Sees tick a s' ns log' s'' := by
  obtain ⟨hlisted, -⟩ := run_sees h hrun
  refine ⟨hlisted.nodup, hlisted.mem_iff, fun fuel hfuel => ?_⟩
  obtain ⟨⟨s'', log'⟩, hwalk⟩ :=
    Option.isSome_iff_exists.mp (processLoop_total hlisted (List.Subset.refl _) hfuel)
  refine ⟨s'', log', hwalk, fun a ha => ?_⟩
  obtain ⟨-, -, hsees⟩ := processLoop_sees hlisted (List.Subset.refl _) hwalk
  obtain ⟨ns, hns, hvisited⟩ := hsees a
  exact ⟨ns, hvisited ha, hns⟩

/-- Lights that are off, and play 250 ms on and 250 ms off, once. -/
def idleLights : AgileLeds where
  leds _ := ⟨false, false, [250, 250], 0, 1, 1, 0, true⟩
  slist := []
  reads := 0

theorem listed_idle : Listed idleLights := ⟨List.nodup_nil, fun led => by simp [idleLights]⟩

theorem lights_listed_two : ∃ s' log, ledRun (ticks fun n => 100 * n) idleLights
      [.start 0, .start 1, .process 10, .process 10, .stop 0] = some (s', log) ∧
    (s'.slist.Nodup ∧ (∀ a, a ∈ s'.slist ↔ (s'.leds a).active = true) ∧
      ∀ fuel, s'.slist.length + s'.slist.length * s'.slist.length ≤ fuel →
        ∃ s'' log', agileLedProcess (ticks fun n => 100 * n) fuel s' = some (s'', log') ∧
          ∀ a ∈ s'.slist, ∃ ns, ns ≠ [] ∧ Sees (ticks fun n => 100 * n) a s' ns log' s'') := by
  obtain ⟨⟨s', log⟩, hrun⟩ := Option.isSome_iff_exists.mp (show
    (ledRun (ticks fun n => 100 * n) idleLights
      [.start 0, .start 1, .process 10, .process 10, .stop 0]).isSome = true by decide +kernel)
  exact ⟨s', log, hrun, lights_listed listed_idle hrun⟩

end Detector
