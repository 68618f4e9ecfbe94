import DetectorFirmware.Model.Protocol
import DetectorFirmware.Model.Receive

/-! Whole rounds of `hr_thread_entry`: the bytes that arrived are taken from the ring, and a
frame among them goes to `HR_ProcessData`. -/

namespace Detector

open EventLog

/-- What the rounds work on. -/
structure HrDevice where
  thread : HrThread
  rtc : Rtc
  flash : Flash

/-- What a round meets: the wake-up, and the heap behind the block of its frame. -/
structure HrRound where
  wake : Wake
  heap : ℕ → UInt8

/-- One round: the bytes for the serial device, if there are any, the operations on the flash,
and the device afterwards. `none` when the copy out of the ring misses `buf[32]`. -/
def hrRound (d : HrDevice) (r : HrRound) : Option ((Option (List UInt8) × List FlashOp) × HrDevice) :=
  let (handOver, thread) := hrThreadEntry d.thread r.wake
  if handOver.copied.length ≤ 32 then
    match handOver.hostFrameData with
    | some frame =>
      let x := hrProcessData r.heap frame d.rtc
      let (response, rtc) := x.result d.flash
      some ((response, x.events d.flash), ⟨thread, rtc, x.final d.flash⟩)
    | none => some ((none, []), { d with thread := thread })
  else none

/-- The rounds of a run, in order. -/
def hrRounds (d : HrDevice) : List HrRound → Option (List (Option (List UInt8) × List FlashOp) × HrDevice)
  | [] => some ([], d)
  | r :: rs => do
    let (out, d) ← hrRound d r
    let (outs, d) ← hrRounds d rs
    pure (out :: outs, d)

end Detector
