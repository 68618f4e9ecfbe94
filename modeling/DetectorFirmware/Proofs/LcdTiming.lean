import DetectorFirmware.Library.Observer
import DetectorFirmware.Proofs.LcdSerial

/-! The times on the lines of the display controller. A delay of the driver is taken to last at
least as many microseconds as it is called with, and everything else to take none. -/

namespace Detector

open EventLog LcdPin

/-- The levels of the lines, and for how many microseconds they have had them. -/
structure LcdBus where
  cs : Bool
  wr : Bool
  data : Bool
  csFor : ℕ
  wrFor : ℕ
  dataFor : ℕ
  /-- The time since the last bit was clocked in, of this selection. -/
  rose : Option ℕ

def LcdBus.write (bus : LcdBus) : LcdPin → Bool → LcdBus
  | LCD_CS_PIN, level =>
    if level = bus.cs then bus else { bus with cs := level, csFor := 0, rose := none }
  | LCD_WR_PIN, level =>
    if level = bus.wr then bus
    else { bus with wr := level, wrFor := 0, rose := if level && !bus.cs then some 0 else bus.rose }
  | LCD_DATA_PIN, level => if level = bus.data then bus else { bus with data := level, dataFor := 0 }

def LcdBus.wait (bus : LcdBus) (us : ℕ) : LcdBus :=
  { bus with
    csFor := bus.csFor + us
    wrFor := bus.wrFor + us
    dataFor := bus.dataFor + us
    rose := bus.rose.map (· + us) }

instance : System LcdBus LcdEvent where
  step bus
    | .rtPinWrite pin level => bus.write pin level
    | .rtHwUsDelay us => bus.wait us
    | _ => bus

/-- What an edge has to find, while the controller is selected: a clock that was low for 2 µs, with
data that stood for 1 µs, before a bit is clocked in; a clock that was high for 5 µs after it;
data that stays for 6 µs after it, and changes while the clock is low; and a selection that
begins 1 µs before the first bit and ends 5 µs after the last, with the clock high. -/
def Timed (bus : LcdBus) : LcdEvent → Prop
  | .rtPinWrite LCD_CS_PIN level =>
    level = bus.cs ∨ ((level = PIN_LOW → bus.wr = true) ∧ ∀ t ∈ bus.rose, 5 ≤ t ∧ bus.wr = true)
  | .rtPinWrite LCD_WR_PIN level =>
    bus.cs = true ∨ level = bus.wr ∨
      if level = PIN_HIGH then 2 ≤ bus.wrFor ∧ 1 ≤ bus.dataFor
      else 1 ≤ bus.csFor ∧ ∀ t ∈ bus.rose, 5 ≤ t
  | .rtPinWrite LCD_DATA_PIN level =>
    bus.cs = true ∨ level = bus.data ∨ (bus.wr = false ∧ 1 ≤ bus.wrFor ∧ ∀ t ∈ bus.rose, 6 ≤ t)
  | _ => True

/-! The states that a bus passes through. -/

/-- Between two words. -/
structure BetweenWords (bus : LcdBus) : Prop where
  cs : bus.cs = true
  wr : bus.wr = true
  rose : bus.rose = none

/-- Between two bits of a word. -/
structure BetweenBits (bus : LcdBus) : Prop where
  cs : bus.cs = false
  wr : bus.wr = true
  csFor : 1 ≤ bus.csFor
  rose : ∀ t ∈ bus.rose, 5 ≤ t

/-- The clock is low, `us` microseconds long. -/
structure ClockLow (us : ℕ) (bus : LcdBus) : Prop where
  cs : bus.cs = false
  wr : bus.wr = false
  csFor : 1 ≤ bus.csFor
  wrFor : us ≤ bus.wrFor
  rose : ∀ t ∈ bus.rose, 5 + us ≤ t

/-- The bit is on the line. -/
structure BitSetUp (bus : LcdBus) : Prop where
  cs : bus.cs = false
  wr : bus.wr = false
  csFor : 1 ≤ bus.csFor
  wrFor : 2 ≤ bus.wrFor
  dataFor : 1 ≤ bus.dataFor

/-- The bit is clocked in. -/
structure BitTaken (bus : LcdBus) : Prop where
  cs : bus.cs = false
  wr : bus.wr = true
  csFor : 1 ≤ bus.csFor
  rose : bus.rose = some 0

/-! One bit. -/

variable {P Q : LcdBus → Prop}

theorem timed_pin {pin : LcdPin} {level : Bool}
    (h : ∀ bus, P bus → Timed bus (.rtPinWrite pin level) ∧ Q (bus.write pin level)) :
    Prog.Guides Timed P Q (rtPinWrite pin level) :=
  Prog.guides_emit (fun bus hP => (h bus hP).1) fun bus hP => (h bus hP).2

theorem timed_wait {us : ℕ} (h : ∀ bus, P bus → Q (bus.wait us)) :
    Prog.Guides Timed P Q (rtHwUsDelay us) :=
  Prog.guides_emit (fun _ _ => trivial) h

theorem waited {bus : LcdBus} {us n : ℕ} (h : ∀ t ∈ bus.rose, n ≤ t) :
    ∀ t ∈ (bus.wait us).rose, n + us ≤ t := by
  intro t ht
  obtain ⟨t₀, ht₀, rfl⟩ := Option.map_eq_some_iff.mp ht
  exact Nat.add_le_add_right (h t₀ ht₀) us

theorem timed_clockLow : Prog.Guides Timed BetweenBits (ClockLow 0) (rtPinWrite LCD_WR_PIN PIN_LOW) := by
  apply timed_pin
  intro bus h
  have hfall : ¬ PIN_LOW = bus.wr := by
    rw [h.wr]
    decide
  refine ⟨Or.inr (Or.inr ⟨h.csFor, h.rose⟩), ?_⟩
  rw [LcdBus.write, if_neg hfall]
  exact ⟨h.cs, rfl, h.csFor, Nat.zero_le _, h.rose⟩

theorem timed_data (level : Bool) :
    Prog.Guides Timed (ClockLow 1) (ClockLow 1) (rtPinWrite LCD_DATA_PIN level) := by
  apply timed_pin
  intro bus h
  refine ⟨Or.inr (Or.inr ⟨h.wr, h.wrFor, h.rose⟩), ?_⟩
  rw [LcdBus.write]
  split_ifs
  · exact h
  · exact ⟨h.cs, h.wr, h.csFor, h.wrFor, h.rose⟩

theorem timed_clockHigh : Prog.Guides Timed BitSetUp BitTaken (rtPinWrite LCD_WR_PIN PIN_HIGH) := by
  apply timed_pin
  intro bus h
  have hrise : ¬ PIN_HIGH = bus.wr := by
    rw [h.wr]
    decide
  refine ⟨Or.inr (Or.inr ⟨h.wrFor, h.dataFor⟩), ?_⟩
  rw [LcdBus.write, if_neg hrise]
  refine ⟨h.cs, rfl, h.csFor, ?_⟩
  rw [h.cs]
  rfl

theorem timed_bit (byte : UInt8) (i : ℕ) : Prog.Guides Timed BetweenBits BetweenBits (do
    rtPinWrite LCD_WR_PIN PIN_LOW
    rtHwUsDelay 1
    if (byte.toNat <<< i) &&& 0x80 ≠ 0 then rtPinWrite LCD_DATA_PIN PIN_HIGH
    else rtPinWrite LCD_DATA_PIN PIN_LOW
    rtHwUsDelay 1
    rtPinWrite LCD_WR_PIN PIN_HIGH
    rtHwUsDelay 5 : LcdM Unit) := by
  have hlow : Prog.Guides Timed (ClockLow 0) (ClockLow 1) (rtHwUsDelay 1) :=
    timed_wait fun bus h => ⟨h.cs, h.wr, Nat.le_add_right_of_le h.csFor, Nat.le_add_left 1 _,
      waited h.rose⟩
  have hsetUp : Prog.Guides Timed (ClockLow 1) BitSetUp (rtHwUsDelay 1) :=
    timed_wait fun bus h => ⟨h.cs, h.wr, Nat.le_add_right_of_le h.csFor, Nat.add_le_add_right h.wrFor 1,
      Nat.le_add_left 1 _⟩
  have hready : Prog.Guides Timed BitTaken BetweenBits (rtHwUsDelay 5) :=
    timed_wait fun bus h => ⟨h.cs, h.wr, Nat.le_add_right_of_le h.csFor,
      waited (n := 0) fun t _ => Nat.zero_le t⟩
  have hrest (level : Bool) : Prog.Guides Timed (ClockLow 1) BetweenBits (do
      rtPinWrite LCD_DATA_PIN level
      rtHwUsDelay 1
      rtPinWrite LCD_WR_PIN PIN_HIGH
      rtHwUsDelay 5 : LcdM Unit) :=
    (timed_data level).bind fun _ => hsetUp.bind fun _ => timed_clockHigh.bind fun _ => hready
  exact timed_clockLow.bind fun _ => hlow.bind fun _ => Prog.guides_ite (hrest _) (hrest _)

theorem timed_writeBit (byte : UInt8) (num : ℕ) :
    Prog.Guides Timed BetweenBits BetweenBits (lcdWriteBit byte num) :=
  Prog.guides_forM fun i _ => timed_bit byte i

/-! Words. -/

/-- Selected, with no bit yet. -/
structure WordBegun (bus : LcdBus) : Prop where
  cs : bus.cs = false
  wr : bus.wr = true
  rose : bus.rose = none

theorem timed_select : Prog.Guides Timed BetweenWords WordBegun (rtPinWrite LCD_CS_PIN PIN_LOW) := by
  apply timed_pin
  intro bus h
  have hfall : ¬ PIN_LOW = bus.cs := by
    rw [h.cs]
    decide
  refine ⟨Or.inr ⟨fun _ => h.wr, fun t ht => ?_⟩, ?_⟩
  · rw [h.rose] at ht
    cases ht
  · rw [LcdBus.write, if_neg hfall]
    exact ⟨rfl, h.wr, rfl⟩

theorem timed_selected : Prog.Guides Timed WordBegun BetweenBits (rtHwUsDelay 1) := by
  apply timed_wait
  intro bus h
  refine ⟨h.cs, h.wr, Nat.le_add_left 1 _, fun t ht => ?_⟩
  rw [LcdBus.wait, h.rose] at ht
  cases ht

theorem timed_deselect : Prog.Guides Timed BetweenBits BetweenWords (rtPinWrite LCD_CS_PIN PIN_HIGH) := by
  apply timed_pin
  intro bus h
  have hrise : ¬ PIN_HIGH = bus.cs := by
    rw [h.cs]
    decide
  refine ⟨Or.inr ⟨fun hlow => absurd hlow (by decide), fun t ht => ⟨h.rose t ht, h.wr⟩⟩, ?_⟩
  rw [LcdBus.write, if_neg hrise]
  exact ⟨rfl, h.wr, rfl⟩

/-- A word of three parts. -/
theorem timed_word (a b c : UInt8) (k m n : ℕ) : Prog.Guides Timed BetweenWords BetweenWords (do
    rtPinWrite LCD_CS_PIN PIN_LOW
    rtHwUsDelay 1
    lcdWriteBit a k
    lcdWriteBit b m
    lcdWriteBit c n
    rtPinWrite LCD_CS_PIN PIN_HIGH : LcdM Unit) :=
  timed_select.bind fun _ => timed_selected.bind fun _ => (timed_writeBit a k).bind fun _ =>
    (timed_writeBit b m).bind fun _ => (timed_writeBit c n).bind fun _ => timed_deselect

theorem timed_refresh : Prog.Guides Timed BetweenWords BetweenWords lcdRefresh :=
  Prog.guides_forM fun i _ => (Prog.guides_gets _).bind fun byte =>
    timed_word WR_DATA (UInt8.ofNat i <<< 2) (byte <<< 4) 3 6 4

theorem timed_clear : Prog.Guides Timed BetweenWords BetweenWords lcdClear := by
  have hmemset : Prog.Guides Timed BetweenWords BetweenWords (Prog.emit .rtMemset : LcdM Unit) :=
    Prog.guides_emit (fun _ _ => trivial) fun _ h => h
  exact hmemset.bind fun _ => timed_refresh

theorem timed_writeCmd (cmd : UInt8) : Prog.Guides Timed BetweenWords BetweenWords (lcdWriteCmd cmd) :=
  timed_word WR_CMD cmd 0 3 8 1

/-! The driver. -/

theorem timed_segment (seg : TeLcdSeg) (com : TeLcdCom) (mode : TeLcdSegmentShowControl) :
    Prog.Guides Timed BetweenWords BetweenWords (lcdShowSegment seg com mode) := by
  have hstore (byte : UInt8) :
      Prog.Guides Timed BetweenWords BetweenWords (Prog.emit (.store seg byte) : LcdM Unit) :=
    Prog.guides_emit (fun _ _ => trivial) fun _ h => h
  apply (Prog.guides_gets _).bind
  intro byte
  cases mode <;> cases com <;> exact hstore _

/-- The levels at power-up may be any; no bit was clocked in. -/
theorem timed_init : Prog.Guides Timed (fun bus => bus.rose = none) BetweenWords lcdInit := by
  have hmode (pin : LcdPin) : Prog.Guides Timed (fun bus => bus.rose = none) (fun bus => bus.rose = none)
      (rtPinMode pin) := Prog.guides_emit (fun _ _ => trivial) fun _ h => h
  have hcs : Prog.Guides Timed (fun bus => bus.rose = none) (fun bus => bus.cs = true ∧ bus.rose = none)
      (rtPinWrite LCD_CS_PIN PIN_HIGH) := by
    apply timed_pin
    intro bus h
    refine ⟨Or.inr ⟨fun hlow => absurd hlow (by decide), fun t ht => ?_⟩, ?_⟩
    · rw [h] at ht
      cases ht
    · rw [LcdBus.write]
      split_ifs with hsame
      · exact ⟨hsame.symm, h⟩
      · exact ⟨rfl, rfl⟩
  have hwr : Prog.Guides Timed (fun bus => bus.cs = true ∧ bus.rose = none) BetweenWords
      (rtPinWrite LCD_WR_PIN PIN_HIGH) := by
    apply timed_pin
    rintro bus ⟨hcs, hrose⟩
    refine ⟨Or.inl hcs, ?_⟩
    by_cases hsame : PIN_HIGH = bus.wr
    · rw [LcdBus.write, if_pos hsame]
      exact ⟨hcs, hsame.symm, hrose⟩
    · rw [LcdBus.write, if_neg hsame]
      refine ⟨hcs, rfl, ?_⟩
      show (if PIN_HIGH && !bus.cs then some 0 else bus.rose) = none
      rw [hcs]
      exact hrose
  have hdata : Prog.Guides Timed BetweenWords BetweenWords (rtPinWrite LCD_DATA_PIN PIN_HIGH) := by
    apply timed_pin
    intro bus h
    refine ⟨Or.inl h.cs, ?_⟩
    rw [LcdBus.write]
    split_ifs
    · exact h
    · exact ⟨h.cs, h.wr, h.rose⟩
  have hwait : Prog.Guides Timed BetweenWords BetweenWords (rtHwUsDelay 1) :=
    timed_wait fun bus h => ⟨h.cs, h.wr, by rw [LcdBus.wait, h.rose]; rfl⟩
  exact (hmode _).bind fun _ => (hmode _).bind fun _ => (hmode _).bind fun _ => hcs.bind fun _ =>
    hwr.bind fun _ => hdata.bind fun _ => hwait.bind fun _ => (timed_writeCmd _).bind fun _ =>
    (timed_writeCmd _).bind fun _ => (timed_writeCmd _).bind fun _ => (timed_writeCmd _).bind fun _ =>
    (timed_writeCmd _).bind fun _ => timed_clear.bind fun _ => hwait.bind fun _ =>
    (timed_segment _ _ _).bind fun _ => timed_refresh

theorem timed_op (op : LcdOp) : Prog.Guides Timed BetweenWords BetweenWords op.run := by
  have hguides := Prog.closed_guides (σ := LcdBuffer) (ε := LcdEvent) Timed BetweenWords
  cases op with
  | init => exact timed_init.pre fun _ h => h.rose
  | refresh => exact timed_refresh
  | clear => exact timed_clear
  | showSegment seg com mode => exact timed_segment seg com mode
  | showIcon index mode => exact timed_segment _ _ mode
  | showNum index num mode => exact drawn_num hguides timed_segment index num mode
  | showPressure pressure mode => exact drawn_pressure hguides timed_segment pressure mode
  | showTime time mode => exact drawn_time hguides timed_segment time mode

/-- From power-up on, whatever the levels of the pins are then and whatever is drawn: every edge that
the driver makes keeps the times of the lines. -/
theorem lcd_lines_timed (cs wr data : Bool) (csFor wrFor dataFor : ℕ) (buf : LcdBuffer)
    (ops : List LcdOp) : Steps Timed ⟨cs, wr, data, csFor, wrFor, dataFor, none⟩
      (((LcdOp.init :: ops).forM LcdOp.run).events buf) := by
  have hops : Prog.Guides Timed BetweenWords BetweenWords (ops.forM LcdOp.run) :=
    Prog.guides_forM fun op _ => timed_op op
  exact ((timed_init.bind fun _ => hops) buf ⟨cs, wr, data, csFor, wrFor, dataFor, none⟩ rfl).1

/-- A clock that was low for a microsecond only must not rise. -/
example : ¬ Timed ⟨false, false, true, 1, 1, 1, none⟩ (.rtPinWrite LCD_WR_PIN PIN_HIGH) := by
  simp [Timed, PIN_HIGH]

end Detector
