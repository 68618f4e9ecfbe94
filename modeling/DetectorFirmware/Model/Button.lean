import Mathlib.Data.Int.Notation
import Mathlib.Logic.Function.Basic
import DetectorFirmware.Library.EventLog

/-! The keys: `flexible_button.c`, which is called every 20 ms and turns the levels of the
pins into presses, and the thresholds of `bsp_button.c`. The buttons are in a linked list,
the one registered last in front, and each has a bit in two registers. -/

namespace Detector

open EventLog

inductive FlexButtonEvent where
  | FLEX_BTN_PRESS_DOWN
  | FLEX_BTN_PRESS_CLICK
  | FLEX_BTN_PRESS_DOUBLE_CLICK
  | FLEX_BTN_PRESS_REPEAT_CLICK
  | FLEX_BTN_PRESS_SHORT_START
  | FLEX_BTN_PRESS_SHORT_UP
  | FLEX_BTN_PRESS_LONG_START
  | FLEX_BTN_PRESS_LONG_UP
  | FLEX_BTN_PRESS_LONG_HOLD
  | FLEX_BTN_PRESS_LONG_HOLD_UP
  | FLEX_BTN_PRESS_MAX
  | FLEX_BTN_PRESS_NONE
  deriving DecidableEq

inductive FlexBtnStage where
  | FLEX_BTN_STAGE_DEFAULT
  | FLEX_BTN_STAGE_DOWN
  | FLEX_BTN_STAGE_MULTIPLE_CLICK
  deriving DecidableEq

open FlexButtonEvent FlexBtnStage

/-- `flex_button_t` without its link; of the two function pointers, whether they are set. -/
structure FlexButton where
  usrButtonRead : Bool
  cb : Bool
  scanCnt : UInt16
  clickCnt : UInt16
  maxMultipleClicksInterval : UInt16
  shortPressStartTick : UInt16
  longPressStartTick : UInt16
  longHoldStartTick : UInt16
  pressedLogicLevel : Bool
  event : FlexButtonEvent
  status : FlexBtnStage

/-- The event of a callback, and the number of clicks that it finds. -/
structure FlexBtnCall where
  event : FlexButtonEvent
  clickCnt : UInt16
  deriving DecidableEq

/-- `FLEX_MS_TO_SCAN_CNT`, with `FLEX_BTN_SCAN_FREQ_HZ` 50. -/
def flexMsToScanCnt (ms : ℕ) : ℕ := ms / (1000 / 50)

def MAX_MULTIPLE_CLICKS_INTERVAL : UInt16 := UInt16.ofNat (flexMsToScanCnt 300)

def eventSetAndExecCb (btn : FlexButton) (evt : FlexButtonEvent) : FlexButton × Option FlexBtnCall :=
  ({ btn with event := evt }, if btn.cb then some ⟨evt, btn.clickCnt⟩ else none)

/-- The event whose number is the number of clicks, or `FLEX_BTN_PRESS_REPEAT_CLICK`. -/
def flexClicks (clickCnt : UInt16) : FlexButtonEvent :=
  if clickCnt < 3 then
    if clickCnt = 0 then FLEX_BTN_PRESS_DOWN
    else if clickCnt = 1 then FLEX_BTN_PRESS_CLICK
    else FLEX_BTN_PRESS_DOUBLE_CLICK
  else FLEX_BTN_PRESS_REPEAT_CLICK

/-- The counter of a button that is not up. Before it goes round it starts again where a
hold begins. -/
def flexButtonCount (target : FlexButton) : FlexButton :=
  if target.status ≠ FLEX_BTN_STAGE_DEFAULT then
    let scanCnt := target.scanCnt + 1
    { target with scanCnt := if scanCnt ≥ 65535 then target.longHoldStartTick else scanCnt }
  else target

/-- The `switch` of `flex_button_process`. -/
def flexButtonStage (target : FlexButton) (pressed : Bool) : FlexButton × Option FlexBtnCall :=
  match target.status with
  | FLEX_BTN_STAGE_DEFAULT =>
    if pressed then
      let c := eventSetAndExecCb { target with scanCnt := 0, clickCnt := 0 } FLEX_BTN_PRESS_DOWN
      ({ c.1 with status := FLEX_BTN_STAGE_DOWN }, c.2)
    else ({ target with event := FLEX_BTN_PRESS_NONE }, none)
  | FLEX_BTN_STAGE_DOWN =>
    if pressed then
      if target.clickCnt > 0 then
        if target.scanCnt > target.maxMultipleClicksInterval then
          let c := eventSetAndExecCb target (flexClicks target.clickCnt)
          ({ c.1 with status := FLEX_BTN_STAGE_DOWN, scanCnt := 0, clickCnt := 0 }, c.2)
        else (target, none)
      else if target.scanCnt ≥ target.longHoldStartTick then
        if target.event ≠ FLEX_BTN_PRESS_LONG_HOLD then
          eventSetAndExecCb target FLEX_BTN_PRESS_LONG_HOLD
        else (target, none)
      else if target.scanCnt ≥ target.longPressStartTick then
        if target.event ≠ FLEX_BTN_PRESS_LONG_START then
          eventSetAndExecCb target FLEX_BTN_PRESS_LONG_START
        else (target, none)
      else if target.scanCnt ≥ target.shortPressStartTick then
        if target.event ≠ FLEX_BTN_PRESS_SHORT_START then
          eventSetAndExecCb target FLEX_BTN_PRESS_SHORT_START
        else (target, none)
      else (target, none)
    else if target.scanCnt ≥ target.longHoldStartTick then
      let c := eventSetAndExecCb target FLEX_BTN_PRESS_LONG_HOLD_UP
      ({ c.1 with status := FLEX_BTN_STAGE_DEFAULT }, c.2)
    else if target.scanCnt ≥ target.longPressStartTick then
      let c := eventSetAndExecCb target FLEX_BTN_PRESS_LONG_UP
      ({ c.1 with status := FLEX_BTN_STAGE_DEFAULT }, c.2)
    else if target.scanCnt ≥ target.shortPressStartTick then
      let c := eventSetAndExecCb target FLEX_BTN_PRESS_SHORT_UP
      ({ c.1 with status := FLEX_BTN_STAGE_DEFAULT }, c.2)
    else
      ({ target with
          status := FLEX_BTN_STAGE_MULTIPLE_CLICK
          clickCnt := target.clickCnt + 1 }, none)
  | FLEX_BTN_STAGE_MULTIPLE_CLICK =>
    if pressed then ({ target with status := FLEX_BTN_STAGE_DOWN, scanCnt := 0 }, none)
    else if target.scanCnt > target.maxMultipleClicksInterval then
      let c := eventSetAndExecCb target (flexClicks target.clickCnt)
      ({ c.1 with status := FLEX_BTN_STAGE_DEFAULT }, c.2)
    else (target, none)

/-- What a scan does to one button. -/
def flexButtonStep (target : FlexButton) (pressed : Bool) : FlexButton × Option FlexBtnCall :=
  flexButtonStage (flexButtonCount target) pressed

/-! All buttons. -/

/-- The variables of `flexible_button.c`, and the structures at their addresses. -/
structure FlexButtons where
  mem : ℕ → FlexButton
  /-- The addresses in the list, from `btn_head` on. -/
  btnHead : List ℕ
  buttonCnt : UInt8
  gLogicLevel : BitVec 32
  gBtnStatusReg : BitVec 32

/-- What `flex_button_register` sets in a button. -/
def flexButtonRegistered (button : FlexButton) : FlexButton :=
  { button with
    status := FLEX_BTN_STAGE_DEFAULT
    event := FLEX_BTN_PRESS_NONE
    scanCnt := 0
    clickCnt := 0
    maxMultipleClicksInterval := MAX_MULTIPLE_CLICKS_INTERVAL }

/-- `none` is a null pointer. -/
def flexButtonRegister (s : FlexButtons) (button : Option ℕ) : ℤ × FlexButtons :=
  match button with
  | none => (-1, s)
  | some button =>
    if s.buttonCnt > 32 then (-1, s)
    else if button ∈ s.btnHead then (-1, s)
    else
      let level := if (s.mem button).pressedLogicLevel then 1#32 else 0#32
      ((s.buttonCnt + 1).toNat,
        { s with
          mem := Function.update s.mem button (flexButtonRegistered (s.mem button))
          btnHead := button :: s.btnHead
          gLogicLevel := s.gLogicLevel ||| (level <<< s.buttonCnt.toNat)
          buttonCnt := s.buttonCnt + 1 })

/-- The loop of `flex_button_read`, which ends at a button without a read function. -/
def flexButtonReadLoop (mem : ℕ → FlexButton) (usrButtonRead : ℕ → UInt8) :
    List ℕ → UInt8 → BitVec 32 → BitVec 32
  | [], _, rawData => rawData
  | target :: next, i, rawData =>
    if (mem target).usrButtonRead then
      flexButtonReadLoop mem usrButtonRead next (i - 1)
        (rawData ||| (BitVec.ofNat 32 (usrButtonRead target).toNat <<< i.toNat))
    else rawData

def flexButtonRead (s : FlexButtons) (usrButtonRead : ℕ → UInt8) : FlexButtons :=
  let rawData := flexButtonReadLoop s.mem usrButtonRead s.btnHead (s.buttonCnt - 1) 0
  { s with gBtnStatusReg := ~~~rawData ^^^ s.gLogicLevel }

def btnIsPressed (gBtnStatusReg : BitVec 32) (i : UInt8) : Bool :=
  decide (gBtnStatusReg &&& (1#32 <<< i.toNat) ≠ 0#32)

/-- What `flex_button_process` has done so far. -/
structure FlexProcess where
  mem : ℕ → FlexButton
  activeBtnCnt : UInt8
  /-- The callbacks, each with its button. -/
  calls : List (ℕ × FlexBtnCall)

def flexButtonProcessLoop (gBtnStatusReg : BitVec 32) :
    List ℕ → UInt8 → FlexProcess → FlexProcess
  | [], _, p => p
  | target :: next, i, p =>
    let (button, call) := flexButtonStep (p.mem target) (btnIsPressed gBtnStatusReg i)
    flexButtonProcessLoop gBtnStatusReg next (i - 1)
      { mem := Function.update p.mem target button
        activeBtnCnt :=
          if button.status ≠ FLEX_BTN_STAGE_DEFAULT then p.activeBtnCnt + 1 else p.activeBtnCnt
        calls := p.calls ++ call.toList.map fun c => (target, c) }

/-- `flex_button_scan`: the buttons, and the return value with the callbacks. -/
def flexButtonScan (s : FlexButtons) (usrButtonRead : ℕ → UInt8) : FlexButtons × FlexProcess :=
  let s := flexButtonRead s usrButtonRead
  let p := flexButtonProcessLoop s.gBtnStatusReg s.btnHead (s.buttonCnt - 1) ⟨s.mem, 0, []⟩
  ({ s with mem := p.mem }, p)

/-- What `BSP_Button_Init` sets before it registers `user_button[0]`. -/
def userButton0 : FlexButton where
  usrButtonRead := true
  cb := true
  scanCnt := 0
  clickCnt := 0
  maxMultipleClicksInterval := 0
  shortPressStartTick := UInt16.ofNat (flexMsToScanCnt 1500)
  longPressStartTick := UInt16.ofNat (flexMsToScanCnt 3000)
  longHoldStartTick := UInt16.ofNat (flexMsToScanCnt 4500)
  pressedLogicLevel := false
  event := FLEX_BTN_PRESS_DOWN
  status := FLEX_BTN_STAGE_DEFAULT

end Detector
