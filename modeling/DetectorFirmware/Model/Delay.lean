import DetectorFirmware.Library.DownCounter

/-! The busy wait of `board.c` on the system timer. `CMP` and `CNT` have 64 bits and are
read into 32-bit variables; the arithmetic is that of `rt_uint32_t`. -/

namespace Detector

def RT_TICK_PER_SECOND : UInt32 := 1000

/-- What `_SysTick_Config` leaves in `CMP`. The counter is set to count down. -/
def sysTickConfig (ticks : UInt32) : UInt64 := (ticks - 1).toUInt64

/-- The variables of the loop of `rt_hw_us_delay`. -/
structure DelayLoop where
  told : UInt32
  tcnt : UInt32

/-- One round, with `tnow` just read; the flag is the `break`. -/
def delayRound (reload ticks : UInt32) (s : DelayLoop) (tnow : UInt32) : DelayLoop × Bool :=
  if tnow ≠ s.told then
    let tcnt := if tnow < s.told then s.tcnt + (s.told - tnow) else s.tcnt + (reload - tnow + s.told)
    (⟨tnow, tcnt⟩, decide (tcnt ≥ ticks))
  else (s, false)

/-- How many rounds the loop makes; `none` while the given readings do not end it. -/
def delayLoop (reload ticks : UInt32) : DelayLoop → List UInt32 → Option ℕ
  | _, [] => none
  | s, tnow :: rest =>
    match delayRound reload ticks s tnow with
    | (_, true) => some 1
    | (s', false) => (delayLoop reload ticks s' rest).map (· + 1)

/-- The delay in counts of the timer. -/
def delayTicks (us reload : UInt32) : UInt32 := us * reload / (1000000 / RT_TICK_PER_SECOND)

/-- The rounds that a call of `rt_hw_us_delay` makes. `first` is the reading of `CNT` before
the loop, `cnt` has those of its rounds. -/
def rtHwUsDelayRounds (cmp : UInt64) (us : UInt32) (first : UInt64) (cnt : List UInt64) : Option ℕ :=
  let reload := cmp.toUInt32
  let ticks := delayTicks us reload
  delayLoop reload ticks ⟨first.toUInt32, 0⟩ (cnt.map UInt64.toUInt32)

end Detector
