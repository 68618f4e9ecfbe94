import DetectorFirmware.Library.EventLog

/-! The driver of the CS1621 display controller, `bsp_lcd_1621.c`: a buffer with one byte for
each segment line of the glass, whose low four bits are the common lines, the functions
that draw in it, and the transfer over the pins. -/

namespace Detector

open EventLog

abbrev LCD_BUFFER_LEN : ℕ := 14

/-- `kLcdSeg0` to `kLcdSeg13`, by their values. -/
abbrev TeLcdSeg : Type := Fin LCD_BUFFER_LEN

inductive TeLcdCom where
  | kLcdCom1
  | kLcdCom2
  | kLcdCom3
  | kLcdCom4
  deriving DecidableEq, Repr

inductive TeLcdIconIndex where
  | kS1OverPress
  | kS2UnderPress
  | kS3OverCurrent
  | kS4Leakage
  | kS5PressTimingValves
  | kS6Network
  | kS7LeakHunting
  | kS8FFault
  | kS9Alarm
  | kL1Line
  | kL2Line
  | kL3Line
  | kL4Line
  | kK1SelfCloseingValveOn
  | kK2SelfCloseingValveOff
  | kK3HandValveOn
  | kK4HandValveOff
  | kIconPoint
  | kIconKpa
  | kIconMin
  deriving DecidableEq, Repr

inductive TeLcdNumIndex where
  | kKpaNum1
  | kKpaNum2
  | kKpaNum3
  | kMinNum1
  | kMinNum2
  deriving DecidableEq, Repr

/-- The value of the enumerator, as a segment. -/
def TeLcdNumIndex.seg : TeLcdNumIndex → TeLcdSeg
  | kKpaNum1 => 1
  | kKpaNum2 => 3
  | kKpaNum3 => 5
  | kMinNum1 => 9
  | kMinNum2 => 11

/-- `(TeLcdSeg)(index + 1)`. -/
def TeLcdNumIndex.nextSeg (index : TeLcdNumIndex) : TeLcdSeg := index.seg + 1

inductive TeLcdSegmentShowControl where
  | kShowClose
  | kShowOpen
  deriving DecidableEq, Repr

open TeLcdSegmentShowControl

inductive LcdPin where
  | LCD_CS_PIN
  | LCD_DATA_PIN
  | LCD_WR_PIN
  deriving DecidableEq, Repr

open LcdPin

def PIN_LOW : Bool := false
def PIN_HIGH : Bool := true

/-- What the driver does: stores to its buffer, and calls for the pins. -/
inductive LcdEvent where
  | store (seg : TeLcdSeg) (byte : UInt8)
  | rtMemset
  | rtPinMode (pin : LcdPin)
  | rtPinWrite (pin : LcdPin) (level : Bool)
  | rtHwUsDelay (us : ℕ)
  deriving DecidableEq, Repr

/-- `_lcd_buffer`. -/
abbrev LcdBuffer : Type := TeLcdSeg → UInt8

def LcdBuffer.store (buf : LcdBuffer) (seg : TeLcdSeg) (byte : UInt8) : LcdBuffer :=
  fun i => if i = seg then byte else buf i

/-- The pins are not part of the state. -/
instance : System LcdBuffer LcdEvent where
  step buf
    | .store seg byte => buf.store seg byte
    | .rtMemset => fun _ => 0
    | _ => buf

abbrev LcdM : Type → Type := Prog LcdBuffer LcdEvent

def rtPinMode (pin : LcdPin) : LcdM Unit := Prog.emit (.rtPinMode pin)

def rtPinWrite (pin : LcdPin) (level : Bool) : LcdM Unit := Prog.emit (.rtPinWrite pin level)

def rtHwUsDelay (us : ℕ) : LcdM Unit := Prog.emit (.rtHwUsDelay us)

def WR_CMD : UInt8 := 0x80
def WR_DATA : UInt8 := 0xA0

/-- The upper `num` bits of a byte. The shift is one of `int`, so that no bit is lost. -/
def lcdWriteBit (byte : UInt8) (num : ℕ) : LcdM Unit :=
  (List.range num).forM fun i => do
    rtPinWrite LCD_WR_PIN PIN_LOW
    rtHwUsDelay 1
    if (byte.toNat <<< i) &&& 0x80 ≠ 0 then rtPinWrite LCD_DATA_PIN PIN_HIGH
    else rtPinWrite LCD_DATA_PIN PIN_LOW
    rtHwUsDelay 1
    rtPinWrite LCD_WR_PIN PIN_HIGH
    rtHwUsDelay 5

def lcdWriteSeg (seg6bit com4bit : UInt8) : LcdM Unit := do
  rtPinWrite LCD_CS_PIN PIN_LOW
  rtHwUsDelay 1
  lcdWriteBit WR_DATA 3
  lcdWriteBit (seg6bit <<< 2) 6
  lcdWriteBit (com4bit <<< 4) 4
  rtPinWrite LCD_CS_PIN PIN_HIGH

def lcdWriteCmd (cmd : UInt8) : LcdM Unit := do
  rtPinWrite LCD_CS_PIN PIN_LOW
  rtHwUsDelay 1
  lcdWriteBit WR_CMD 3
  lcdWriteBit cmd 8
  lcdWriteBit 0 1
  rtPinWrite LCD_CS_PIN PIN_HIGH

def lcdRefresh : LcdM Unit :=
  (List.finRange LCD_BUFFER_LEN).forM fun i => do
    let byte ← Prog.gets fun buf => buf i
    lcdWriteSeg (UInt8.ofNat i) byte

def lcdClear : LcdM Unit := do
  Prog.emit .rtMemset
  lcdRefresh

def lcdShowSegment (seg : TeLcdSeg) (com : TeLcdCom) (mode : TeLcdSegmentShowControl) :
    LcdM Unit := do
  let byte ← Prog.gets fun buf => buf seg
  match mode, com with
  | kShowClose, .kLcdCom1 => Prog.emit (.store seg (byte &&& 0b11110111))
  | kShowClose, .kLcdCom2 => Prog.emit (.store seg (byte &&& 0b11111011))
  | kShowClose, .kLcdCom3 => Prog.emit (.store seg (byte &&& 0b11111101))
  | kShowClose, .kLcdCom4 => Prog.emit (.store seg (byte &&& 0b11111110))
  | kShowOpen, .kLcdCom1 => Prog.emit (.store seg (byte ||| 0b00001000))
  | kShowOpen, .kLcdCom2 => Prog.emit (.store seg (byte ||| 0b00000100))
  | kShowOpen, .kLcdCom3 => Prog.emit (.store seg (byte ||| 0b00000010))
  | kShowOpen, .kLcdCom4 => Prog.emit (.store seg (byte ||| 0b00000001))

/-- The segment of each case of the `switch` in `LCD_ShowIcon`. -/
def TeLcdIconIndex.segment : TeLcdIconIndex → TeLcdSeg × TeLcdCom
  | kS1OverPress => (0, .kLcdCom4)
  | kS2UnderPress => (0, .kLcdCom3)
  | kS3OverCurrent => (0, .kLcdCom2)
  | kS4Leakage => (0, .kLcdCom1)
  | kS5PressTimingValves => (2, .kLcdCom1)
  | kS6Network => (7, .kLcdCom3)
  | kS7LeakHunting => (7, .kLcdCom2)
  | kS8FFault => (8, .kLcdCom4)
  | kS9Alarm => (13, .kLcdCom4)
  | kL1Line => (6, .kLcdCom1)
  | kL2Line => (10, .kLcdCom1)
  | kL3Line => (8, .kLcdCom1)
  | kL4Line => (13, .kLcdCom1)
  | kK1SelfCloseingValveOn => (8, .kLcdCom2)
  | kK2SelfCloseingValveOff => (8, .kLcdCom3)
  | kK3HandValveOn => (13, .kLcdCom2)
  | kK4HandValveOff => (13, .kLcdCom3)
  | kIconPoint => (4, .kLcdCom1)
  | kIconKpa => (7, .kLcdCom4)
  | kIconMin => (12, .kLcdCom1)

def lcdShowIcon (index : TeLcdIconIndex) (mode : TeLcdSegmentShowControl) : LcdM Unit :=
  lcdShowSegment index.segment.1 index.segment.2 mode

/-- The seven calls of each branch of `LCD_ShowNum`, for the segments A to G. -/
def lcdShowNumSegments (index : TeLcdNumIndex) (a b c d e f g : TeLcdSegmentShowControl) :
    LcdM Unit := do
  lcdShowSegment index.seg .kLcdCom4 a
  lcdShowSegment index.nextSeg .kLcdCom4 b
  lcdShowSegment index.nextSeg .kLcdCom2 c
  lcdShowSegment index.seg .kLcdCom1 d
  lcdShowSegment index.seg .kLcdCom2 e
  lcdShowSegment index.seg .kLcdCom3 f
  lcdShowSegment index.nextSeg .kLcdCom3 g

/-- A number above 9 is not drawn at all. -/
def lcdShowNum (index : TeLcdNumIndex) (num : UInt8) (mode : TeLcdSegmentShowControl) :
    LcdM Unit :=
  let show7 := lcdShowNumSegments index
  match mode, num.toNat with
  | kShowOpen, 0 =>
    show7 kShowOpen kShowOpen kShowOpen kShowOpen kShowOpen kShowOpen kShowClose
  | kShowOpen, 1 =>
    show7 kShowClose kShowOpen kShowOpen kShowClose kShowClose kShowClose kShowClose
  | kShowOpen, 2 =>
    show7 kShowOpen kShowOpen kShowClose kShowOpen kShowOpen kShowClose kShowOpen
  | kShowOpen, 3 =>
    show7 kShowOpen kShowOpen kShowOpen kShowOpen kShowClose kShowClose kShowOpen
  | kShowOpen, 4 =>
    show7 kShowClose kShowOpen kShowOpen kShowClose kShowClose kShowOpen kShowOpen
  | kShowOpen, 5 =>
    show7 kShowOpen kShowClose kShowOpen kShowOpen kShowClose kShowOpen kShowOpen
  | kShowOpen, 6 =>
    show7 kShowOpen kShowClose kShowOpen kShowOpen kShowOpen kShowOpen kShowOpen
  | kShowOpen, 7 =>
    show7 kShowOpen kShowOpen kShowOpen kShowClose kShowClose kShowClose kShowClose
  | kShowOpen, 8 =>
    show7 kShowOpen kShowOpen kShowOpen kShowOpen kShowOpen kShowOpen kShowOpen
  | kShowOpen, 9 =>
    show7 kShowOpen kShowOpen kShowOpen kShowOpen kShowClose kShowOpen kShowOpen
  | kShowOpen, _ => pure ()
  | kShowClose, _ =>
    show7 kShowClose kShowClose kShowClose kShowClose kShowClose kShowClose kShowClose

def lcdShowPressure (pressure : UInt32) (mode : TeLcdSegmentShowControl) : LcdM Unit := do
  lcdShowIcon .kIconPoint mode
  lcdShowIcon .kIconKpa mode
  lcdShowNum .kKpaNum1 0 kShowClose
  let (num2, num3) ←
    if pressure ≥ 10000 then do
      lcdShowNum .kKpaNum1 (pressure / 10000).toUInt8 mode
      pure ((pressure / 1000 % 10).toUInt8, (pressure / 100 % 10).toUInt8)
    else if pressure ≥ 1000 then
      pure ((pressure / 1000).toUInt8, (pressure / 100 % 10).toUInt8)
    else if pressure ≥ 100 then pure (0, (pressure / 100).toUInt8)
    else pure (0, 0)
  lcdShowNum .kKpaNum2 num2 mode
  lcdShowNum .kKpaNum3 num3 mode

def lcdShowTime (time : UInt8) (mode : TeLcdSegmentShowControl) : LcdM Unit := do
  lcdShowIcon .kIconMin mode
  if time ≥ 10 then lcdShowNum .kMinNum1 (time / 10) mode
  else lcdShowNum .kMinNum1 0 kShowClose
  lcdShowNum .kMinNum2 (time % 10) mode

def SYS_EN : UInt8 := 0x01
def LCD_ON : UInt8 := 0x03
def WDT_DIS : UInt8 := 0x05
def XTAL_32K : UInt8 := 0x17
def BIAS_3_4COM : UInt8 := 0x2B

def lcdInit : LcdM Unit := do
  rtPinMode LCD_CS_PIN
  rtPinMode LCD_WR_PIN
  rtPinMode LCD_DATA_PIN
  rtPinWrite LCD_CS_PIN PIN_HIGH
  rtPinWrite LCD_WR_PIN PIN_HIGH
  rtPinWrite LCD_DATA_PIN PIN_HIGH
  rtHwUsDelay 1
  lcdWriteCmd SYS_EN
  lcdWriteCmd BIAS_3_4COM
  lcdWriteCmd XTAL_32K
  lcdWriteCmd WDT_DIS
  lcdWriteCmd LCD_ON
  lcdClear
  rtHwUsDelay 1
  lcdShowIcon .kS5PressTimingValves kShowOpen
  lcdRefresh

end Detector
