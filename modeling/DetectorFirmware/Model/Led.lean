import Mathlib.Data.Int.Notation
import Mathlib.Data.Nat.Notation
import Mathlib.Logic.Function.Basic

/-! The lights: `agile_led.c`, which plays a pattern of times on a pin, and the patterns of
`bsp_led.c`. The lights that are playing are in a singly linked list. -/

namespace Detector

/-! The pattern string. -/

def isspace (c : Char) : Bool := c = ' ' || (9 ≤ c.toNat && c.toNat ≤ 13)

def atoiDigits (s : List Char) : ℕ := Nat.ofDigitChars 10 (s.takeWhile Char.isDigit) 0

def atoiSigned (s : List Char) : ℤ :=
  match s.dropWhile isspace with
  | '-' :: t => -atoiDigits t
  | '+' :: t => atoiDigits t
  | t => atoiDigits t

/-- `atoi`, which is `strtol` with a `long` of 32 bits: a number beyond its range is cut to the
end of the range. -/
def atoi (s : List Char) : ℤ := max (-2147483648) (min (atoiSigned s) 2147483647)

/-- `strchr`: the string from the first `c` on. -/
def strchr (s : List Char) (c : Char) : Option (List Char) :=
  match s.dropWhile (· ≠ c) with
  | [] => none
  | t => some t

/-- `arr_num`: the commas, and one more when the last character is none. The character before
an empty string is not part of it. -/
def lightArrNum (before : Char) (lightMode : List Char) : ℕ :=
  lightMode.count ',' + if lightMode.getLastD before ≠ ',' then 1 else 0

/-- The loop that fills the array. `none` is `atoi` of a null pointer. -/
def lightArrLoop : ℕ → Option (List Char) → Option (List UInt32)
  | 0, _ => some []
  | _ + 1, none => none
  | n + 1, some ptr => do
    let rest ← lightArrLoop n ((strchr ptr ',').map List.tail)
    pure (UInt32.ofInt (atoi ptr) :: rest)

/-- `agile_led_get_light_arr`: the array, or none when it is empty or there is no room for it. -/
def agileLedGetLightArr (rtMalloc : ℕ → Bool) (before : Char) (lightMode : List Char) :
    Option (Option (List UInt32)) :=
  let arrNum := lightArrNum before lightMode
  if arrNum = 0 then some none
  else if rtMalloc arrNum then (lightArrLoop arrNum (some lightMode)).map some
  else some none

/-! The lights. -/

def RT_TICK_MAX : UInt32 := 0xFFFFFFFF

/-- `rt_tick_from_millisecond`, with 1000 ticks in a second. The argument is an `int`. -/
def rtTickFromMillisecond (ms : UInt32) : UInt32 :=
  if ms.toInt32 < 0 then 0xFFFFFFFF
  else 1000 * (ms / 1000) + (1000 * (ms % 1000) + 999) / 1000

/-- `agile_led_t`. A null `light_arr` is an array of no elements. -/
structure AgileLed where
  active : Bool
  activeLogic : Bool
  lightArr : List UInt32
  arrIndex : ℕ
  loopInit : ℤ
  loopCnt : ℤ
  tickTimeout : UInt32
  compelete : Bool

/-- What others see of a light. -/
inductive LedEvent where
  /-- Its pin is set to on or off, between two readings of the tick. -/
  | light (on : Bool) (before after : ℕ)
  /-- Its pin is set by `agile_led_on` or `agile_led_off`. -/
  | write (on : Bool)
  | compelete

/-- `__repeat`, with the elements from `arr_index` on, up to the next light or the end of a
loop. Reading number `n` of the tick is `tick n`. -/
def agileLedRepeat (tick : ℕ → UInt32) : List UInt32 → ℕ → AgileLed → ℕ × AgileLed × List LedEvent
  | rest, n, led =>
    if tick n - led.tickTimeout < RT_TICK_MAX / 2 then
      match rest with
      | [] =>
        (n + 1, { led with arrIndex := 0, loopCnt := if led.loopCnt > 0 then led.loopCnt - 1 else led.loopCnt }, [])
      | ms :: rest =>
        if ms = 0 then agileLedRepeat tick rest (n + 1) { led with arrIndex := led.arrIndex + 1 }
        else
          (n + 2,
            { led with
              tickTimeout := tick (n + 1) + rtTickFromMillisecond ms
              arrIndex := led.arrIndex + 1 },
            [.light (led.arrIndex % 2 = 0) n (n + 1)])
    else (n + 1, led, [])

/-- All lights, the list of those that play, and the number of readings of the tick so far. -/
structure AgileLeds where
  leds : ℕ → AgileLed
  slist : List ℕ
  reads : ℕ

def AgileLeds.set (s : AgileLeds) (led : ℕ) (v : AgileLed) : AgileLeds :=
  { s with leds := Function.update s.leds led v }

def agileLedStop (s : AgileLeds) (led : ℕ) : AgileLeds :=
  if (s.leds led).active then
    { s.set led { s.leds led with active := false } with slist := s.slist.erase led }
  else s

/-- `false` is an error. -/
def agileLedStart (tick : ℕ → UInt32) (s : AgileLeds) (led : ℕ) : Bool × AgileLeds :=
  if (s.leds led).active then (false, s)
  else if (s.leds led).lightArr = [] then (false, s)
  else
    (true,
      { s.set led
          { s.leds led with
            arrIndex := 0
            loopCnt := (s.leds led).loopInit
            tickTimeout := tick s.reads
            active := true } with
        slist := s.slist ++ [led]
        reads := s.reads + 1 })

/-- `agile_led_static_change_light_mode`, and what the dynamic one does with an array. -/
def agileLedChange (tick : ℕ → UInt32) (s : AgileLeds) (led : ℕ) (lightArr : List UInt32)
    (loopCnt : ℤ) : AgileLeds :=
  { s.set led
      { s.leds led with
        lightArr := lightArr
        arrIndex := 0
        loopInit := loopCnt
        loopCnt := loopCnt
        tickTimeout := tick s.reads } with
    reads := s.reads + 1 }

/-- `agile_led_dynamic_change_light_mode`, the error as `false`. Without an array the light is
stopped; `none` is `atoi` of a null pointer. -/
def agileLedDynamicChange (tick : ℕ → UInt32) (rtMalloc : ℕ → Bool) (before : Char) (s : AgileLeds)
    (led : ℕ) (lightMode : Option (List Char)) (loopCnt : ℤ) : Option (Bool × AgileLeds) :=
  match lightMode with
  | none => some (true, agileLedChange tick s led (s.leds led).lightArr loopCnt)
  | some lightMode =>
    (agileLedGetLightArr rtMalloc before lightMode).map fun
      | none => (false, agileLedStop (s.set led { s.leds led with lightArr := [] }) led)
      | some lightArr => (true, agileLedChange tick s led lightArr loopCnt)

/-- The loop of `agile_led_process` over the rest of the list; it begins again at the head
after a light is stopped. `none` when it takes more rounds than `fuel`. -/
def agileLedProcessLoop (tick : ℕ → UInt32) :
    ℕ → List ℕ → AgileLeds → Option (AgileLeds × List (ℕ × LedEvent))
  | _, [], s => some (s, [])
  | 0, _ :: _, _ => none
  | fuel + 1, led :: next, s =>
    if (s.leds led).loopCnt = 0 then do
      let s := agileLedStop s led
      let called := if (s.leds led).compelete then [(led, LedEvent.compelete)] else []
      let (s, log) ← agileLedProcessLoop tick fuel s.slist s
      pure (s, called ++ log)
    else do
      let (reads, v, events) :=
        agileLedRepeat tick ((s.leds led).lightArr.drop (s.leds led).arrIndex) s.reads (s.leds led)
      let (s, log) ← agileLedProcessLoop tick fuel next { s.set led v with reads := reads }
      pure (s, events.map (fun e => (led, e)) ++ log)

def agileLedProcess (tick : ℕ → UInt32) (fuel : ℕ) (s : AgileLeds) :
    Option (AgileLeds × List (ℕ × LedEvent)) :=
  agileLedProcessLoop tick fuel s.slist s

/-! The calls that threads make, in the order in which they get the lock. -/

inductive LedOp where
  | start (led : ℕ)
  | stop (led : ℕ)
  | staticChange (led : ℕ) (lightArr : List UInt32) (loopCnt : ℤ)
  | dynamicChange (led : ℕ) (rtMalloc : ℕ → Bool) (before : Char) (lightMode : Option (List Char))
    (loopCnt : ℤ)
  | setCompelete (led : ℕ) (compelete : Bool)
  | write (led : ℕ) (on : Bool)
  | process (fuel : ℕ)

/-- The light that an operation is called with. -/
def LedOp.target : LedOp → Option ℕ
  | .start led | .stop led | .staticChange led _ _ | .dynamicChange led _ _ _ _ | .setCompelete led _
  | .write led _ => some led
  | .process _ => none

/-- `none` when a walk is not given enough rounds, or a null pointer is followed. -/
def ledOp (tick : ℕ → UInt32) (s : AgileLeds) : LedOp → Option (AgileLeds × List (ℕ × LedEvent))
  | .start led => some ((agileLedStart tick s led).2, [])
  | .stop led => some (agileLedStop s led, [])
  | .staticChange led lightArr loopCnt => some (agileLedChange tick s led lightArr loopCnt, [])
  | .dynamicChange led rtMalloc before lightMode loopCnt =>
    (agileLedDynamicChange tick rtMalloc before s led lightMode loopCnt).map fun r => (r.2, [])
  | .setCompelete led compelete => some (s.set led { s.leds led with compelete := compelete }, [])
  | .write led on => some (s, [(led, .write on)])
  | .process fuel => agileLedProcess tick fuel s

def ledRun (tick : ℕ → UInt32) : AgileLeds → List LedOp → Option (AgileLeds × List (ℕ × LedEvent))
  | s, [] => some (s, [])
  | s, op :: ops => do
    let (s, first) ← ledOp tick s op
    let (s, rest) ← ledRun tick s ops
    pure (s, first ++ rest)

/-! The patterns of `bsp_led.c`. -/

end Detector
