import Mathlib.Data.List.Nodup
import Mathlib.Tactic.IntervalCases
import DetectorFirmware.Library.SevenSegment
import DetectorFirmware.Model.Lcd

/-! The fields of the display. Digits and icons are lamps on the glass, no two in one place;
every drawing function switches its own lamps and no other bit of the buffer that has a
segment, so that each field shows the last value drawn in it. -/

namespace Detector

open EventLog SevenSegment TeLcdSegmentShowControl

def TeLcdCom.bit : TeLcdCom → UInt8
  | kLcdCom1 => 8
  | kLcdCom2 => 4
  | kLcdCom3 => 2
  | kLcdCom4 => 1

def TeLcdSegmentShowControl.on (mode : TeLcdSegmentShowControl) : Bool := mode = kShowOpen

/-- Whether the segment on two lines of the glass is lit. -/
def LcdBuffer.lit (buf : LcdBuffer) (p : TeLcdSeg × TeLcdCom) : Bool := buf p.1 &&& p.2.bit ≠ 0

/-- What is drawn on the glass. -/
inductive Lamp where
  | bar (index : TeLcdNumIndex) (bar : Bar)
  | icon (index : TeLcdIconIndex)
  deriving DecidableEq

def Lamp.place : Lamp → TeLcdSeg × TeLcdCom
  | .bar index .a => (index.seg, .kLcdCom4)
  | .bar index .b => (index.nextSeg, .kLcdCom4)
  | .bar index .c => (index.nextSeg, .kLcdCom2)
  | .bar index .d => (index.seg, .kLcdCom1)
  | .bar index .e => (index.seg, .kLcdCom2)
  | .bar index .f => (index.seg, .kLcdCom3)
  | .bar index .g => (index.nextSeg, .kLcdCom3)
  | .icon index => index.segment

def TeLcdNumIndex.all : List TeLcdNumIndex := [kKpaNum1, kKpaNum2, kKpaNum3, kMinNum1, kMinNum2]

def TeLcdIconIndex.all : List TeLcdIconIndex :=
  [kS1OverPress, kS2UnderPress, kS3OverCurrent, kS4Leakage, kS5PressTimingValves, kS6Network,
    kS7LeakHunting, kS8FFault, kS9Alarm, kL1Line, kL2Line, kL3Line, kL4Line,
    kK1SelfCloseingValveOn, kK2SelfCloseingValveOff, kK3HandValveOn, kK4HandValveOff, kIconPoint,
    kIconKpa, kIconMin]

def Lamp.all : List Lamp :=
  (TeLcdNumIndex.all.flatMap fun index => Bar.all.map (.bar index)) ++ TeLcdIconIndex.all.map .icon

theorem Lamp.mem_all (lamp : Lamp) : lamp ∈ Lamp.all := by
  cases lamp with
  | bar index bar =>
    have hindex : index ∈ TeLcdNumIndex.all := by cases index <;> decide
    exact List.mem_append_left _
      (List.mem_flatMap.mpr ⟨index, hindex, List.mem_map_of_mem (Bar.mem_all bar)⟩)
  | icon index =>
    have hindex : index ∈ TeLcdIconIndex.all := by cases index <;> decide
    exact List.mem_append_right _ (List.mem_map_of_mem hindex)

/-- No two lamps share a segment. -/
theorem Lamp.place_injective : Function.Injective Lamp.place := by
  have hnodup : (Lamp.all.map Lamp.place).Nodup := by decide +kernel
  intro lamp lamp' h
  exact List.inj_on_of_nodup_map hnodup lamp.mem_all lamp'.mem_all h

/-! One segment. -/

theorem TeLcdCom.bit_and (com com' : TeLcdCom) :
    com.bit &&& com'.bit = if com' = com then com'.bit else 0 := by
  cases com <;> cases com' <;> rfl

theorem TeLcdCom.not_bit_and (com com' : TeLcdCom) :
    ~~~com.bit &&& com'.bit = if com' = com then 0 else com'.bit := by
  cases com <;> cases com' <;> rfl

theorem TeLcdCom.bit_ne (com : TeLcdCom) : com.bit ≠ 0 := by cases com <;> decide

theorem lcdShowSegment_final (seg : TeLcdSeg) (com : TeLcdCom) (mode : TeLcdSegmentShowControl)
    (buf : LcdBuffer) :
    (lcdShowSegment seg com mode).final buf =
      buf.store seg (if mode.on then buf seg ||| com.bit else buf seg &&& ~~~com.bit) := by
  cases mode <;> cases com <;> rfl

theorem UInt8.or_and_right (a b c : UInt8) : (a ||| b) &&& c = a &&& c ||| b &&& c := by
  apply UInt8.toBitVec_inj.1
  ext i hi
  simp [Bool.and_or_distrib_right]

/-- One call switches one segment. -/
theorem lcdShowSegment_lit (seg : TeLcdSeg) (com : TeLcdCom) (mode : TeLcdSegmentShowControl)
    (buf : LcdBuffer) :
    ((lcdShowSegment seg com mode).final buf).lit = Function.update buf.lit (seg, com) mode.on := by
  funext ⟨seg', com'⟩
  rw [lcdShowSegment_final]
  by_cases hseg : seg' = seg
  · subst hseg
    have hplace : ((seg', com') = (seg', com)) = (com' = com) := by simp
    simp only [LcdBuffer.lit, LcdBuffer.store, if_true, Function.update_apply, hplace]
    cases mode.on
    · rw [if_neg Bool.false_ne_true, UInt8.and_assoc, TeLcdCom.not_bit_and]
      split <;> simp
    · rw [if_pos rfl, UInt8.or_and_right, TeLcdCom.bit_and]
      split <;> simp [TeLcdCom.bit_ne]
  · have hplace : (seg', com') ≠ (seg, com) := fun h => hseg (Prod.ext_iff.mp h).1
    simp only [LcdBuffer.lit, LcdBuffer.store, if_neg hseg, Function.update_of_ne hplace]

/-! Whole drawings. -/

/-- The program returns `a`, whatever the buffer, and switches the lamps of `w` in order. -/
def Draws {α : Type} (x : LcdM α) (a : α) (w : List (Lamp × Bool)) : Prop :=
  ∀ buf, x.result buf = a ∧
    (x.final buf).lit = replay buf.lit (w.map fun e => (e.1.place, e.2))

variable {α β : Type} {x : LcdM α} {a : α} {v w : List (Lamp × Bool)}

theorem draws_pure (a : α) : Draws (pure a) a [] := fun buf => ⟨Prog.result_pure a buf, rfl⟩

theorem draws_bind {f : α → LcdM β} {b : β} (hx : Draws x a v) (hf : Draws (f a) b w) :
    Draws (x >>= f) b (v ++ w) := by
  intro buf
  obtain ⟨hxa, hxv⟩ := hx buf
  obtain ⟨hfb, hfw⟩ := hf (x.final buf)
  rw [Prog.result_bind, Prog.final_bind, hxa]
  exact ⟨hfb, by rw [hfw, hxv, List.map_append, replay_append]⟩

theorem draws_pure_bind {f : α → LcdM β} {b : β} (hf : Draws (f a) b w) :
    Draws (pure a >>= f) b w := draws_bind (draws_pure a) hf

theorem draws_ite {c : Prop} [Decidable c] {y : LcdM α} (hx : c → Draws x a v)
    (hy : ¬ c → Draws y a v) : Draws (if c then x else y) a v := by
  split
  · exact hx ‹c›
  · exact hy ‹¬ c›

theorem draws_segment (lamp : Lamp) (mode : TeLcdSegmentShowControl) :
    Draws (lcdShowSegment lamp.place.1 lamp.place.2 mode) () [(lamp, mode.on)] :=
  fun buf => ⟨rfl, lcdShowSegment_lit _ _ mode buf⟩

theorem draws_icon (index : TeLcdIconIndex) (mode : TeLcdSegmentShowControl) :
    Draws (lcdShowIcon index mode) () [(.icon index, mode.on)] := draws_segment (.icon index) mode

theorem draws_numSegments (index : TeLcdNumIndex) (a b c d e f g : TeLcdSegmentShowControl) :
    Draws (lcdShowNumSegments index a b c d e f g) ()
      [(.bar index .a, a.on), (.bar index .b, b.on), (.bar index .c, c.on), (.bar index .d, d.on),
        (.bar index .e, e.on), (.bar index .f, f.on), (.bar index .g, g.on)] :=
  draws_bind (draws_segment (.bar index .a) a) (draws_bind (draws_segment (.bar index .b) b)
    (draws_bind (draws_segment (.bar index .c) c) (draws_bind (draws_segment (.bar index .d) d)
      (draws_bind (draws_segment (.bar index .e) e) (draws_bind (draws_segment (.bar index .f) f)
        (draws_segment (.bar index .g) g))))))

/-- All bars of a digit. -/
def glyphWrites (index : TeLcdNumIndex) (glyph : Glyph) : List (Lamp × Bool) :=
  Bar.all.map fun bar => (.bar index bar, glyph.lit bar)

def shown (mode : TeLcdSegmentShowControl) (glyph : Glyph) : Glyph :=
  if mode.on then glyph else .blank

theorem draws_num (index : TeLcdNumIndex) {num : UInt8} {n : ℕ} (mode : TeLcdSegmentShowControl)
    (hnum : num.toNat = n) (hn : n < 10) :
    Draws (lcdShowNum index num mode) () (glyphWrites index (shown mode (.digit n))) := by
  unfold lcdShowNum
  rw [hnum]
  cases mode with
  | kShowClose => exact draws_numSegments index _ _ _ _ _ _ _
  | kShowOpen => interval_cases n <;> exact draws_numSegments index _ _ _ _ _ _ _

theorem draws_blank (index : TeLcdNumIndex) :
    Draws (lcdShowNum index 0 kShowClose) () (glyphWrites index .blank) :=
  draws_numSegments index _ _ _ _ _ _ _

theorem replay_glyph_other (s : Panel Lamp) {index : TeLcdNumIndex} (glyph : Glyph) {lamp : Lamp}
    (h : ∀ bar, lamp ≠ .bar index bar) : replay s (glyphWrites index glyph) lamp = s lamp := by
  refine replay_untouched fun e he hlamp => ?_
  obtain ⟨bar, -, rfl⟩ := List.mem_map.mp he
  exact h bar hlamp.symm

@[simp] theorem replay_glyph_icon (s : Panel Lamp) (index : TeLcdNumIndex) (glyph : Glyph)
    (icon : TeLcdIconIndex) : replay s (glyphWrites index glyph) (.icon icon) = s (.icon icon) :=
  replay_glyph_other s glyph (by simp)

@[simp] theorem replay_glyph_bar (s : Panel Lamp) (index index' : TeLcdNumIndex) (glyph : Glyph)
    (bar : Bar) :
    replay s (glyphWrites index glyph) (.bar index' bar) =
      if index' = index then glyph.lit bar else s (.bar index' bar) := by
  split_ifs with h
  · subst h
    have hbars : glyphWrites index' glyph =
        (Bar.all.map fun bar => (bar, glyph.lit bar)).map fun e => (Lamp.bar index' e.1, e.2) := by
      rw [List.map_map]
      rfl
    have hinj : Function.Injective (Lamp.bar index') := fun bar bar' h => (Lamp.bar.inj h).2
    rw [hbars, replay_named hinj, replay_each, if_pos (Bar.mem_all bar)]
  · exact replay_glyph_other s glyph (by simp [h])

/-- The calls that draw a field or an icon, with the numbers they are meant for. -/
inductive LcdCall where
  | showPressure (pressure : UInt32) (h : pressure.toNat ≤ 99999) (mode : TeLcdSegmentShowControl)
  | showTime (time : UInt8) (h : time.toNat ≤ 99) (mode : TeLcdSegmentShowControl)
  | showIcon (index : TeLcdIconIndex) (mode : TeLcdSegmentShowControl)

def LcdCall.run : LcdCall → LcdM Unit
  | showPressure pressure _ mode => lcdShowPressure pressure mode
  | showTime time _ mode => lcdShowTime time mode
  | showIcon index mode => lcdShowIcon index mode

instance : System LcdBuffer LcdCall where
  step buf call := call.run.final buf

/-- The glyph that a call is to show in a digit, if it addresses it. -/
def LcdCall.glyph : LcdCall → TeLcdNumIndex → Option Glyph
  | showPressure p _ mode, .kKpaNum1 =>
    some (if p.toNat < 10000 then .blank else shown mode (.digit (p.toNat / 10000)))
  | showPressure p _ mode, .kKpaNum2 => some (shown mode (.digit (p.toNat / 1000 % 10)))
  | showPressure p _ mode, .kKpaNum3 => some (shown mode (.digit (p.toNat / 100 % 10)))
  | showTime t _ mode, .kMinNum1 =>
    some (if t.toNat < 10 then .blank else shown mode (.digit (t.toNat / 10)))
  | showTime t _ mode, .kMinNum2 => some (shown mode (.digit (t.toNat % 10)))
  | _, _ => none

/-- The state that a call is to give an icon, if it addresses it. -/
def LcdCall.icon : LcdCall → TeLcdIconIndex → Option TeLcdSegmentShowControl
  | showPressure _ _ mode, .kIconPoint => some mode
  | showPressure _ _ mode, .kIconKpa => some mode
  | showTime _ _ mode, .kIconMin => some mode
  | showIcon index mode, index' => if index' = index then some mode else none
  | _, _ => none

/-- What becomes of a lamp. -/
def LcdCall.sets (call : LcdCall) : Lamp → Option Bool
  | .bar index bar => (call.glyph index).map fun glyph => glyph.lit bar
  | .icon index => (call.icon index).map fun mode => mode.on

/-- The lamps that a call switches, in order. -/
def LcdCall.writes : LcdCall → List (Lamp × Bool)
  | showPressure p _ mode =>
    [(.icon .kIconPoint, mode.on)] ++ [(.icon .kIconKpa, mode.on)] ++
      glyphWrites .kKpaNum1 .blank ++
      (if p.toNat < 10000 then []
        else glyphWrites .kKpaNum1 (shown mode (.digit (p.toNat / 10000)))) ++
      glyphWrites .kKpaNum2 (shown mode (.digit (p.toNat / 1000 % 10))) ++
      glyphWrites .kKpaNum3 (shown mode (.digit (p.toNat / 100 % 10)))
  | showTime t _ mode =>
    [(.icon .kIconMin, mode.on)] ++
      glyphWrites .kMinNum1 (if t.toNat < 10 then .blank else shown mode (.digit (t.toNat / 10))) ++
      glyphWrites .kMinNum2 (shown mode (.digit (t.toNat % 10)))
  | showIcon index mode => [(.icon index, mode.on)]

/-- They leave every lamp as the call is to set it. -/
theorem replay_writes (call : LcdCall) (s : Panel Lamp) (lamp : Lamp) :
    replay s call.writes lamp = (call.sets lamp).getD (s lamp) := by
  cases call with
  | showIcon index mode =>
    cases lamp with
    | bar => rfl
    | icon index' =>
      by_cases h : index' = index <;> simp [LcdCall.writes, LcdCall.sets, LcdCall.icon, h]
  | showTime t ht mode =>
    cases lamp with
    | bar index bar => cases index <;> simp [LcdCall.writes, LcdCall.sets, LcdCall.glyph]
    | icon index => cases index <;> simp [LcdCall.writes, LcdCall.sets, LcdCall.icon]
  | showPressure p hp mode =>
    by_cases hp : p.toNat < 10000
    · cases lamp with
      | bar index bar => cases index <;> simp [LcdCall.writes, LcdCall.sets, LcdCall.glyph, hp]
      | icon index => cases index <;> simp [LcdCall.writes, LcdCall.sets, LcdCall.icon, hp]
    · cases lamp with
      | bar index bar => cases index <;> simp [LcdCall.writes, LcdCall.sets, LcdCall.glyph, hp]
      | icon index => cases index <;> simp [LcdCall.writes, LcdCall.sets, LcdCall.icon, hp]

theorem draws_time {t : UInt8} (ht : t.toNat ≤ 99) (mode : TeLcdSegmentShowControl) :
    Draws (lcdShowTime t mode) () (LcdCall.showTime t ht mode).writes := by
  have hle : t ≥ 10 ↔ 10 ≤ t.toNat := by simp [UInt8.le_iff_toNat_le]
  have hunits : Draws (lcdShowNum .kMinNum2 (t % 10) mode) ()
      (glyphWrites .kMinNum2 (shown mode (.digit (t.toNat % 10)))) :=
    draws_num _ mode (by simp) (by omega)
  rw [LcdCall.writes, List.append_assoc]
  refine draws_bind (draws_icon _ mode) (draws_ite (fun h => ?_) fun h => ?_)
  · rw [hle] at h
    rw [if_neg (by omega)]
    exact draws_bind (draws_num _ mode (by simp) (by omega)) hunits
  · rw [hle] at h
    rw [if_pos (by omega)]
    exact draws_bind (draws_blank _) hunits

theorem draws_pressure {p : UInt32} (hp : p.toNat ≤ 99999) (mode : TeLcdSegmentShowControl) :
    Draws (lcdShowPressure p mode) () (LcdCall.showPressure p hp mode).writes := by
  have h10k : p ≥ 10000 ↔ 10000 ≤ p.toNat := by simp [UInt32.le_iff_toNat_le]
  have h1k : p ≥ 1000 ↔ 1000 ≤ p.toNat := by simp [UInt32.le_iff_toNat_le]
  have h100 : p ≥ 100 ↔ 100 ≤ p.toNat := by simp [UInt32.le_iff_toNat_le]
  have hlow {num2 num3 : UInt8} (h2 : num2.toNat = p.toNat / 1000 % 10)
      (h3 : num3.toNat = p.toNat / 100 % 10) :
      Draws (do lcdShowNum .kKpaNum2 num2 mode; lcdShowNum .kKpaNum3 num3 mode) ()
        (glyphWrites .kKpaNum2 (shown mode (.digit (p.toNat / 1000 % 10))) ++
          glyphWrites .kKpaNum3 (shown mode (.digit (p.toNat / 100 % 10)))) :=
    draws_bind (draws_num _ mode h2 (by omega)) (draws_num _ mode h3 (by omega))
  simp only [LcdCall.writes, List.append_assoc]
  refine draws_bind (draws_icon _ mode) (draws_bind (draws_icon _ mode) (draws_bind (draws_blank _)
    (draws_ite (fun h => ?_) fun h => ?_)))
  · rw [h10k] at h
    rw [if_neg (by omega)]
    refine draws_bind (draws_num _ mode ?_ ?_) (draws_pure_bind (hlow ?_ ?_))
    · simp; omega
    · omega
    · simp; omega
    · simp; omega
  · rw [h10k] at h
    rw [if_pos (show p.toNat < 10000 by omega), List.nil_append]
    refine draws_ite (fun h' => ?_) fun h' => draws_ite (fun h'' => ?_) fun h'' => ?_
    · rw [h1k] at h'
      refine draws_pure_bind (hlow ?_ ?_)
      · simp; omega
      · simp; omega
    · rw [h1k] at h'
      rw [h100] at h''
      refine draws_pure_bind (hlow ?_ ?_)
      · simp; omega
      · simp; omega
    · rw [h100] at h''
      refine draws_pure_bind (hlow ?_ ?_)
      · simp; omega
      · simp; omega

theorem draws_run (call : LcdCall) : Draws call.run () call.writes := by
  cases call with
  | showPressure p hp mode => exact draws_pressure hp mode
  | showTime t ht mode => exact draws_time ht mode
  | showIcon index mode => exact draws_icon index mode

/-- A call sets its lamps. -/
theorem run_lit (call : LcdCall) (buf : LcdBuffer) (lamp : Lamp) :
    (call.run.final buf).lit lamp.place = (call.sets lamp).getD (buf.lit lamp.place) := by
  rw [((draws_run call) buf).2, replay_named Lamp.place_injective, replay_writes]
  rfl

/-- The segment belongs to a lamp that the call sets. -/
def LcdCall.Addresses (call : LcdCall) (p : TeLcdSeg × TeLcdCom) : Prop :=
  ∃ lamp, Lamp.place lamp = p ∧ (call.sets lamp).isSome

/-- It changes no other segment. -/
theorem run_frame (call : LcdCall) (buf : LcdBuffer) {p : TeLcdSeg × TeLcdCom}
    (h : ¬ call.Addresses p) : (call.run.final buf).lit p = buf.lit p := by
  by_cases hlamp : ∃ lamp, Lamp.place lamp = p
  · obtain ⟨lamp, rfl⟩ := hlamp
    have hsets : call.sets lamp = none :=
      Option.not_isSome_iff_eq_none.mp fun hs => h ⟨lamp, rfl, hs⟩
    rw [run_lit, hsets, Option.getD_none]
  · rw [((draws_run call) buf).2]
    refine replay_untouched fun e he hp => ?_
    obtain ⟨w, -, rfl⟩ := List.mem_map.mp he
    exact hlamp ⟨w.1, hp⟩

/-- What is seen in a digit. -/
def LcdBuffer.glyph (buf : LcdBuffer) (index : TeLcdNumIndex) : Option Glyph :=
  decode fun bar => buf.lit (Lamp.bar index bar).place

/-- Each digit and each icon shows what the last call that addresses it gave it, and the
segments that no call addresses are as they were. -/
structure ShowsLast (calls : List LcdCall) (before after : LcdBuffer) : Prop where
  digits : ∀ index glyph, (calls.filterMap fun call => call.glyph index).getLast? = some glyph →
    after.glyph index = some glyph
  icons : ∀ index mode, (calls.filterMap fun call => call.icon index).getLast? = some mode →
    after.lit (Lamp.icon index).place = mode.on
  others : ∀ p, (∀ call ∈ calls, ¬ call.Addresses p) → after.lit p = before.lit p

theorem glyph_mem_all {call : LcdCall} {index : TeLcdNumIndex} {glyph : Glyph}
    (h : call.glyph index = some glyph) : glyph ∈ Glyph.all := by
  have hshown (mode : TeLcdSegmentShowControl) {n : ℕ} (hn : n < 10) :
      shown mode (.digit n) ∈ Glyph.all := by
    unfold shown
    split
    · exact digit_mem_all hn
    · exact List.mem_cons_self
  have hblank : Glyph.blank ∈ Glyph.all := List.mem_cons_self
  cases call with
  | showPressure p hp mode =>
    cases index <;> simp only [LcdCall.glyph, Option.some.injEq, reduceCtorEq] at h
    · subst h
      split_ifs
      · exact hblank
      · exact hshown mode (by omega)
    · subst h; exact hshown mode (by omega)
    · subst h; exact hshown mode (by omega)
  | showTime t ht mode =>
    cases index <;> simp only [LcdCall.glyph, Option.some.injEq, reduceCtorEq] at h
    · subst h
      split_ifs
      · exact hblank
      · exact hshown mode (by omega)
    · subst h; exact hshown mode (by omega)
  | showIcon => cases h

/-- A lamp after any calls. -/
theorem replay_lit (calls : List LcdCall) (buf : LcdBuffer) (lamp : Lamp) :
    (replay buf calls).lit lamp.place =
      (calls.filterMap fun call => call.sets lamp).getLast?.getD (buf.lit lamp.place) :=
  replay_last (fun buf : LcdBuffer => buf.lit lamp.place) (fun call => call.sets lamp)
    (fun buf call => run_lit call buf lamp) buf calls

/-- After any sequence of calls that show a pressure, a time or an icon. -/
theorem lcd_fields (buf : LcdBuffer) (calls : List LcdCall) :
    ShowsLast calls buf (replay buf calls) where
  digits index glyph h := by
    have hlit (bar : Bar) :
        (replay buf calls).lit (Lamp.bar index bar).place = glyph.lit bar := by
      have hsets : (calls.filterMap fun call => call.sets (.bar index bar)) =
          (calls.filterMap fun call => call.glyph index).map fun glyph => glyph.lit bar := by
        rw [List.map_filterMap]
        rfl
      rw [replay_lit, hsets, List.getLast?_map, h, Option.map_some, Option.getD_some]
    obtain ⟨call, -, hcall⟩ := List.mem_filterMap.mp (List.mem_of_getLast? h)
    rw [LcdBuffer.glyph, funext hlit]
    exact decode_lit (glyph_mem_all hcall)
  icons index mode h := by
    have hsets : (calls.filterMap fun call => call.sets (.icon index)) =
        (calls.filterMap fun call => call.icon index).map fun mode => mode.on := by
      rw [List.map_filterMap]
      rfl
    rw [replay_lit, hsets, List.getLast?_map, h, Option.map_some, Option.getD_some]
  others p h := by
    induction calls generalizing buf with
    | nil => rfl
    | cons call calls ih =>
      rw [replay_cons, ih _ fun c hc => h c (List.mem_cons_of_mem call hc)]
      exact run_frame call buf (h call List.mem_cons_self)

end Detector
