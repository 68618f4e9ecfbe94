import DetectorFirmware.Proofs.LedList
import DetectorFirmware.Proofs.LedPattern

/-! What a light shows that was given a pattern, and what the patterns of `bsp_led.c` show. -/

namespace Detector

open EventLog Playback

variable {T : ℕ → ℕ} {s s' : AgileLeds} {led : ℕ}

/-- A light at the beginning of its pattern. -/
structure Fresh (T : ℕ → ℕ) (start : ℕ) (lightArr : List UInt32) (loopInit : ℤ) (v : AgileLed)
    (m : ℕ) : Prop where
  active : v.active = true
  lightArr : v.lightArr = lightArr
  first : v.arrIndex = 0
  loopCnt : v.loopCnt = loopInit
  timeout : v.tickTimeout = UInt32.ofNat start
  began : start ≤ T m

theorem Fresh.playing {start : ℕ} {lightArr : List UInt32} {loopInit : ℤ} {v : AgileLed} {m : ℕ}
    (h : Fresh T start lightArr loopInit v m) (hshort : ∀ ms ∈ lightArr, ms.toNat < 2 ^ 31) {loops : ℕ}
    (hloops : loopInit = loops ∨ loopInit < 0) :
    Playing T start (loopBeats lightArr loops) v loops m [] start := by
  have hbegan := h.began
  refine ⟨?_, h.loopCnt ▸ hloops, h.timeout, by omega, fun _ => hbegan, h.lightArr ▸ hshort⟩
  rw [beatsLeft_first h.first, h.lightArr]
  exact .idle _ _

theorem start_fresh (hT : Monotone T) (hstart : (agileLedStart (ticks T) s led).1 = true) :
    let s₁ := (agileLedStart (ticks T) s led).2
    Fresh T (T s.reads) (s.leds led).lightArr (s.leds led).loopInit (s₁.leds led) s₁.reads ∧
      (s₁.leds led).compelete = (s.leds led).compelete := by
  unfold agileLedStart at hstart ⊢
  split_ifs at hstart ⊢ with hactive hempty
  have hled : ∀ v, (s.set led v).leds led = v := fun v => by rw [set_leds, if_pos rfl]
  dsimp only
  rw [hled]
  exact ⟨⟨rfl, rfl, rfl, rfl, rfl, hT (Nat.le_succ _)⟩, rfl⟩

end Detector
