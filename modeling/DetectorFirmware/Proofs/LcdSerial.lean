import Mathlib.Data.Nat.Bitwise
import DetectorFirmware.Library.SerialLine
import DetectorFirmware.Proofs.LcdFields

/-! What the display controller receives. `LCD_Refresh` sends one word for each byte of the
buffer; the words carry the low four bits only, which is all that the drawing functions
ever set. -/

namespace Detector

open EventLog SerialLine LcdPin TeLcdSegmentShowControl

/-- What an event does to the three wires. -/
def LcdEvent.wire : LcdEvent → Option (Wire × Bool)
  | .rtPinWrite LCD_CS_PIN level => some (.select, level)
  | .rtPinWrite LCD_WR_PIN level => some (.clock, level)
  | .rtPinWrite LCD_DATA_PIN level => some (.data, level)
  | _ => none

/-- The pin trace of a run. -/
def wave {α : Type} (x : LcdM α) (buf : LcdBuffer) : List (Wire × Bool) :=
  (x.events buf).filterMap LcdEvent.wire

/-- The word for one byte of the buffer: `101`, the address, the data. -/
def lcdWord (seg byte : ℕ) : List Bool := [true, false, true] ++ msbFirst 6 seg ++ msbFirst 4 byte

/-! Sending. -/

/-- A byte whose bit 7 is looked at after `i` shifts. -/
theorem shifted_bit (byte : UInt8) {i : ℕ} (h : i < 8) :
    (byte.toNat <<< i) &&& 0x80 ≠ 0 ↔ byte.toNat.testBit (7 - i) = true := by
  have hand := Nat.and_two_pow (byte.toNat <<< i) 7
  rw [Nat.testBit_shiftLeft, decide_eq_true (show i ≤ 7 by omega), Bool.true_and] at hand
  rw [show 0x80 = 2 ^ 7 from rfl, hand]
  cases byte.toNat.testBit (7 - i) <;> simp

/-- Every round of `LCD_WriteBit` sends one bit. -/
theorem writeBit_wave (byte : UInt8) {num : ℕ} (h : num ≤ 8) (buf : LcdBuffer) :
    wave (lcdWriteBit byte num) buf =
      ((List.range num).map fun i => byte.toNat.testBit (7 - i)).flatMap bitWave := by
  have hround (i : ℕ) (hi : i ∈ List.range num) (s : LcdBuffer) :
      (do rtPinWrite LCD_WR_PIN PIN_LOW
          rtHwUsDelay 1
          if (byte.toNat <<< i) &&& 0x80 ≠ 0 then rtPinWrite LCD_DATA_PIN PIN_HIGH
          else rtPinWrite LCD_DATA_PIN PIN_LOW
          rtHwUsDelay 1
          rtPinWrite LCD_WR_PIN PIN_HIGH
          rtHwUsDelay 5 : LcdM Unit).events s =
        [.rtPinWrite LCD_WR_PIN PIN_LOW, .rtHwUsDelay 1,
          .rtPinWrite LCD_DATA_PIN (byte.toNat.testBit (7 - i)), .rtHwUsDelay 1,
          .rtPinWrite LCD_WR_PIN PIN_HIGH, .rtHwUsDelay 5] := by
    have hbit := shifted_bit byte (show i < 8 by have := List.mem_range.mp hi; omega)
    by_cases hset : byte.toNat.testBit (7 - i) = true
    · rw [if_pos (hbit.mpr hset), hset]
      rfl
    · rw [if_neg (mt hbit.mp hset), Bool.eq_false_iff.mpr hset]
      rfl
  rw [wave, lcdWriteBit, Prog.events_forM hround, List.filterMap_flatMap, List.flatMap_map]
  rfl

/-- The upper bits of a byte moved to the left are its lower bits. -/
theorem shiftLeft_bits (byte k : UInt8) {n : ℕ} (h : n + k.toNat = 8) (hn : 0 < n) :
    ((List.range n).map fun i => (byte <<< k).toNat.testBit (7 - i)) = msbFirst n byte.toNat := by
  refine List.map_congr_left fun i hi => ?_
  have hi : i < n := List.mem_range.mp hi
  have hk : k.toNat % 8 = k.toNat := Nat.mod_eq_of_lt (by omega)
  have hpos : 7 - i - k.toNat = n - 1 - i := by omega
  rw [UInt8.toNat_shiftLeft, Nat.testBit_mod_two_pow, Nat.testBit_shiftLeft, hk, hpos,
    decide_eq_true (show 7 - i < 8 by omega), decide_eq_true (show k.toNat ≤ 7 - i by omega),
    Bool.true_and, Bool.true_and]

theorem wave_bind {α β : Type} (x : LcdM α) (f : α → LcdM β) (buf : LcdBuffer) :
    wave (x >>= f) buf = wave x buf ++ wave (f (x.result buf)) (x.final buf) := by
  rw [wave, Prog.events_bind, List.filterMap_append, wave, wave]

/-- `LCD_WriteSeg` sends one word. -/
theorem writeSeg_wave (seg byte : UInt8) (buf : LcdBuffer) :
    wave (lcdWriteSeg seg byte) buf = wordWave (lcdWord seg.toNat byte.toNat) := by
  have hcommand : ((List.range 3).map fun i => WR_DATA.toNat.testBit (7 - i)) =
      [true, false, true] := by decide
  have haddress : ((List.range 6).map fun i => (seg <<< 2).toNat.testBit (7 - i)) =
      msbFirst 6 seg.toNat := shiftLeft_bits seg 2 rfl (by omega)
  have hdata : ((List.range 4).map fun i => (byte <<< 4).toNat.testBit (7 - i)) =
      msbFirst 4 byte.toNat := shiftLeft_bits byte 4 rfl (by omega)
  have hlow (s : LcdBuffer) : wave (rtPinWrite LCD_CS_PIN PIN_LOW) s = [(.select, false)] := rfl
  have hdelay (s : LcdBuffer) : wave (rtHwUsDelay 1) s = [] := rfl
  have hhigh (s : LcdBuffer) : wave (rtPinWrite LCD_CS_PIN PIN_HIGH) s = [(.select, true)] := rfl
  rw [lcdWriteSeg, wave_bind, wave_bind, wave_bind, wave_bind, wave_bind, hlow, hdelay, hhigh,
    writeBit_wave _ (by omega), writeBit_wave _ (by omega), writeBit_wave _ (by omega), hcommand,
    haddress, hdata]
  simp [wordWave, lcdWord, List.flatMap_append]

/-! Sending leaves the buffer alone. -/

theorem idle_pinWrite (buf : LcdBuffer) (pin : LcdPin) (level : Bool) :
    (rtPinWrite pin level).Keeps (· = buf) := Prog.keeps_emit fun _ h => h

theorem idle_delay (buf : LcdBuffer) (us : ℕ) : (rtHwUsDelay us).Keeps (· = buf) :=
  Prog.keeps_emit fun _ h => h

theorem idle_writeBit (buf : LcdBuffer) (byte : UInt8) (num : ℕ) :
    (lcdWriteBit byte num).Keeps (· = buf) := by
  have hpin := idle_pinWrite buf
  have hdelay := idle_delay buf
  have hround (level : Bool) : Prog.Keeps (· = buf) (do
      rtPinWrite LCD_DATA_PIN level
      rtHwUsDelay 1
      rtPinWrite LCD_WR_PIN PIN_HIGH
      rtHwUsDelay 5 : LcdM Unit) :=
    Prog.keeps_bind (hpin _ _) fun _ => Prog.keeps_bind (hdelay _) fun _ =>
      Prog.keeps_bind (hpin _ _) fun _ => hdelay _
  exact Prog.keeps_forM fun i _ => Prog.keeps_bind (hpin _ _) fun _ =>
    Prog.keeps_bind (hdelay _) fun _ => Prog.keeps_ite (hround _) (hround _)

/-- The frame of a data word and of a command. -/
theorem idle_word (buf : LcdBuffer) (a b c : UInt8) (k m n : ℕ) : Prog.Keeps (· = buf) (do
    rtPinWrite LCD_CS_PIN PIN_LOW
    rtHwUsDelay 1
    lcdWriteBit a k
    lcdWriteBit b m
    lcdWriteBit c n
    rtPinWrite LCD_CS_PIN PIN_HIGH : LcdM Unit) :=
  Prog.keeps_bind (idle_pinWrite buf _ _) fun _ => Prog.keeps_bind (idle_delay buf _) fun _ =>
    Prog.keeps_bind (idle_writeBit buf a k) fun _ => Prog.keeps_bind (idle_writeBit buf b m) fun _ =>
      Prog.keeps_bind (idle_writeBit buf c n) fun _ => idle_pinWrite buf _ _

theorem idle_writeSeg (buf : LcdBuffer) (seg byte : UInt8) :
    (lcdWriteSeg seg byte).Keeps (· = buf) := idle_word buf _ _ _ _ _ _

theorem idle_writeCmd (buf : LcdBuffer) (cmd : UInt8) : (lcdWriteCmd cmd).Keeps (· = buf) :=
  idle_word buf _ _ _ _ _ _

theorem idle_refreshRound (buf : LcdBuffer) (k : TeLcdSeg) : Prog.Keeps (· = buf) (do
    let byte ← Prog.gets fun buf => buf k
    lcdWriteSeg (UInt8.ofNat k) byte : LcdM Unit) :=
  Prog.keeps_bind (fun _ h => h) fun _ => idle_writeSeg buf _ _

theorem idle_refresh (buf : LcdBuffer) : lcdRefresh.Keeps (· = buf) :=
  Prog.keeps_forM fun k _ => idle_refreshRound buf k

/-- `LCD_Refresh` sends the bytes of the buffer in order. -/
theorem refresh_wave (buf : LcdBuffer) :
    wave lcdRefresh buf =
      ((List.finRange LCD_BUFFER_LEN).map fun k => lcdWord k.val (buf k).toNat).flatMap wordWave := by
  have hevents : lcdRefresh.events buf = (List.finRange LCD_BUFFER_LEN).flatMap fun (k : TeLcdSeg) =>
      (lcdWriteSeg (UInt8.ofNat k) (buf k)).events buf :=
    Prog.events_forM_of_keeps (fun k _ => idle_refreshRound buf k) (by rintro k - s rfl; rfl) rfl
  have hseg (k : TeLcdSeg) : (UInt8.ofNat k.val).toNat = k.val := by
    have hk : k.val < 14 := k.isLt
    exact UInt8.toNat_ofNat_of_lt' (Nat.lt_trans hk (by decide))
  rw [wave, hevents, List.filterMap_flatMap, List.flatMap_map]
  refine List.flatMap_congr fun k _ => ?_
  rw [← wave, writeSeg_wave, hseg]

/-! The drawing functions are made of calls of `LCD_ShowSegment`, so they share what
sequencing preserves of it. -/

section
variable {K : ∀ α : Type, LcdM α → Prop} (hK : Prog.Closed K)
  (hsegment : ∀ seg com mode, K Unit (lcdShowSegment seg com mode))
include hK hsegment

theorem drawn_numSegments (index : TeLcdNumIndex) (a b c d e f g : TeLcdSegmentShowControl) :
    K Unit (lcdShowNumSegments index a b c d e f g) :=
  hK.bind (hsegment _ _ a) fun _ => hK.bind (hsegment _ _ b) fun _ =>
    hK.bind (hsegment _ _ c) fun _ => hK.bind (hsegment _ _ d) fun _ =>
      hK.bind (hsegment _ _ e) fun _ => hK.bind (hsegment _ _ f) fun _ => hsegment _ _ g

theorem drawn_num (index : TeLcdNumIndex) (num : UInt8) (mode : TeLcdSegmentShowControl) :
    K Unit (lcdShowNum index num mode) := by
  unfold lcdShowNum
  split <;> first | exact drawn_numSegments hK hsegment index _ _ _ _ _ _ _ | exact hK.pure ()

theorem drawn_pressure (pressure : UInt32) (mode : TeLcdSegmentShowControl) :
    K Unit (lcdShowPressure pressure mode) := by
  have hnum := drawn_num hK hsegment
  have hicon (index : TeLcdIconIndex) : K Unit (lcdShowIcon index mode) := hsegment _ _ mode
  have hdigits (num2 num3 : UInt8) : K Unit (do
      lcdShowNum .kKpaNum2 num2 mode
      lcdShowNum .kKpaNum3 num3 mode) :=
    hK.bind (hnum _ num2 mode) fun _ => hnum _ num3 mode
  refine hK.bind (hicon _) fun _ => hK.bind (hicon _) fun _ =>
    hK.bind (hnum _ 0 kShowClose) fun _ => ?_
  split
  · exact hK.bind (hnum _ _ mode) fun _ => hK.bind (hK.pure _) fun nums => hdigits nums.1 nums.2
  · split
    · exact hK.bind (hK.pure _) fun nums => hdigits nums.1 nums.2
    · split
      · exact hK.bind (hK.pure _) fun nums => hdigits nums.1 nums.2
      · exact hK.bind (hK.pure _) fun nums => hdigits nums.1 nums.2

theorem drawn_time (time : UInt8) (mode : TeLcdSegmentShowControl) :
    K Unit (lcdShowTime time mode) := by
  have hnum := drawn_num hK hsegment
  refine hK.bind (hsegment _ _ mode) fun _ => ?_
  split
  · exact hK.bind (hnum _ _ mode) fun _ => hnum _ _ mode
  · exact hK.bind (hnum _ _ kShowClose) fun _ => hnum _ _ mode

end

/-! The buffers that the driver reaches. -/

/-- The functions of the driver, with any arguments. -/
inductive LcdOp where
  | init
  | refresh
  | clear
  | showSegment (seg : TeLcdSeg) (com : TeLcdCom) (mode : TeLcdSegmentShowControl)
  | showIcon (index : TeLcdIconIndex) (mode : TeLcdSegmentShowControl)
  | showNum (index : TeLcdNumIndex) (num : UInt8) (mode : TeLcdSegmentShowControl)
  | showPressure (pressure : UInt32) (mode : TeLcdSegmentShowControl)
  | showTime (time : UInt8) (mode : TeLcdSegmentShowControl)

def LcdOp.run : LcdOp → LcdM Unit
  | init => lcdInit
  | refresh => lcdRefresh
  | clear => lcdClear
  | showSegment seg com mode => lcdShowSegment seg com mode
  | showIcon index mode => lcdShowIcon index mode
  | showNum index num mode => lcdShowNum index num mode
  | showPressure pressure mode => lcdShowPressure pressure mode
  | showTime time mode => lcdShowTime time mode

instance : System LcdBuffer LcdOp where
  step buf op := op.run.final buf

/-- Only the four bits of the common lines are ever set. -/
def LowNibbles (buf : LcdBuffer) : Prop := ∀ seg, (buf seg).toNat < 16

theorem low_segment (seg : TeLcdSeg) (com : TeLcdCom) (mode : TeLcdSegmentShowControl) :
    (lcdShowSegment seg com mode).Keeps LowNibbles := by
  intro buf h seg'
  rw [lcdShowSegment_final, LcdBuffer.store]
  split_ifs with hseg hmode
  · rw [UInt8.toNat_or]
    exact Nat.or_lt_two_pow (n := 4) (h seg) (by cases com <;> decide)
  · rw [UInt8.toNat_and]
    exact Nat.lt_of_le_of_lt Nat.and_le_left (h seg)
  · exact h seg'

/-- A program that leaves every buffer alone keeps any property of it. -/
theorem keeps_of_idle {α : Type} {x : LcdM α} (h : ∀ buf, x.Keeps (· = buf)) (I : LcdBuffer → Prop) :
    x.Keeps I := fun buf hI => by rw [h buf buf rfl]; exact hI

theorem low_refresh : lcdRefresh.Keeps LowNibbles := keeps_of_idle idle_refresh LowNibbles

theorem low_clear : lcdClear.Keeps LowNibbles :=
  Prog.keeps_bind (Prog.keeps_emit fun _ _ _ => Nat.zero_lt_succ 15) fun _ => low_refresh

theorem low_init : lcdInit.Keeps LowNibbles := by
  have hmode (pin : LcdPin) : (rtPinMode pin).Keeps LowNibbles := Prog.keeps_emit fun _ h => h
  have hpin (pin : LcdPin) (level : Bool) : (rtPinWrite pin level).Keeps LowNibbles :=
    Prog.keeps_emit fun _ h => h
  have hdelay (us : ℕ) : (rtHwUsDelay us).Keeps LowNibbles := Prog.keeps_emit fun _ h => h
  have hcmd (cmd : UInt8) : (lcdWriteCmd cmd).Keeps LowNibbles :=
    keeps_of_idle (idle_writeCmd · cmd) LowNibbles
  exact Prog.keeps_bind (hmode _) fun _ => Prog.keeps_bind (hmode _) fun _ =>
    Prog.keeps_bind (hmode _) fun _ => Prog.keeps_bind (hpin _ _) fun _ =>
    Prog.keeps_bind (hpin _ _) fun _ => Prog.keeps_bind (hpin _ _) fun _ =>
    Prog.keeps_bind (hdelay _) fun _ => Prog.keeps_bind (hcmd _) fun _ =>
    Prog.keeps_bind (hcmd _) fun _ => Prog.keeps_bind (hcmd _) fun _ =>
    Prog.keeps_bind (hcmd _) fun _ => Prog.keeps_bind (hcmd _) fun _ =>
    Prog.keeps_bind low_clear fun _ => Prog.keeps_bind (hdelay _) fun _ =>
    Prog.keeps_bind (low_segment _ _ _) fun _ => low_refresh

theorem low_step (buf : LcdBuffer) (op : LcdOp) (h : LowNibbles buf) :
    LowNibbles (System.step buf op) := by
  have hkeep := Prog.closed_keeps (ε := LcdEvent) LowNibbles
  cases op with
  | init => exact low_init buf h
  | refresh => exact low_refresh buf h
  | clear => exact low_clear buf h
  | showSegment seg com mode => exact low_segment seg com mode buf h
  | showIcon index mode => exact low_segment _ _ mode buf h
  | showNum index num mode => exact drawn_num hkeep low_segment index num mode buf h
  | showPressure pressure mode => exact drawn_pressure hkeep low_segment pressure mode buf h
  | showTime time mode => exact drawn_time hkeep low_segment time mode buf h

/-- The contents of `_lcd_buffer` after any calls since it was zero. -/
theorem low_reached (ops : List LcdOp) : LowNibbles (replay (fun _ => 0) ops) := by
  have hzero : LowNibbles fun _ => 0 := fun _ => Nat.zero_lt_succ 15
  exact replay_invariant low_step hzero ops

/-! Receiving. -/

/-- A controller stores the data of a word that starts with `101` at its address. -/
def storeWord (ram : ℕ → ℕ) (word : List Bool) : ℕ → ℕ :=
  if word.take 3 = [true, false, true] then
    Function.update ram (ofBits ((word.drop 3).take 6)) (ofBits (word.drop 9))
  else ram

theorem storeWord_lcdWord (ram : ℕ → ℕ) {seg : ℕ} (hseg : seg < 2 ^ 6) (byte : ℕ) :
    storeWord ram (lcdWord seg byte) = Function.update ram seg (byte % 16) := by
  have hcommand : (lcdWord seg byte).take 3 = [true, false, true] := rfl
  have haddress : ((lcdWord seg byte).drop 3).take 6 = msbFirst 6 seg :=
    List.take_left' (msbFirst_length 6 seg)
  have hdata : (lcdWord seg byte).drop 9 = msbFirst 4 byte :=
    List.drop_left' (by rw [List.length_append, msbFirst_length]; rfl)
  rw [storeWord, if_pos hcommand, haddress, hdata, ofBits_msbFirst, ofBits_msbFirst,
    Nat.mod_eq_of_lt hseg]
  rfl

/-- What the words for some lines leave in the memory at another address. -/
theorem ram_other (buf : LcdBuffer) {l : List TeLcdSeg} {a : ℕ} (h : ∀ k ∈ l, k.val ≠ a)
    (ram : ℕ → ℕ) :
    (l.map fun k => lcdWord k.val (buf k).toNat).foldl storeWord ram a = ram a := by
  induction l generalizing ram with
  | nil => rfl
  | cons k l ih =>
    have hk : k.val < 14 := k.isLt
    rw [List.map_cons, List.foldl_cons, ih fun k' hk' => h k' (List.mem_cons_of_mem k hk'),
      storeWord_lcdWord ram (by omega), Function.update_of_ne (h k List.mem_cons_self).symm]

/-- At their own addresses they leave the bytes of the buffer. -/
theorem ram_sent (buf : LcdBuffer) {l : List TeLcdSeg} {k : TeLcdSeg} (h : k ∈ l) (ram : ℕ → ℕ) :
    (l.map fun k => lcdWord k.val (buf k).toNat).foldl storeWord ram k.val =
      (buf k).toNat % 16 := by
  induction l generalizing ram with
  | nil => cases h
  | cons k' l ih =>
    rw [List.map_cons, List.foldl_cons]
    by_cases hl : k ∈ l
    · exact ih hl _
    · have hk : k = k' := (List.mem_cons.mp h).resolve_right hl
      have hlt : k.val < 14 := k.isLt
      have hother : ∀ j ∈ l, j.val ≠ k.val := fun j hj hjk => hl (by rwa [← Fin.ext hjk])
      rw [ram_other buf hother, ← hk, storeWord_lcdWord ram (by omega), Function.update_self]

/-- The trace of `LCD_Refresh`, sampled from any levels of the pins, is one word for each
segment line, and a controller that stores them holds exactly the buffer. -/
theorem refresh_serial (ops : List LcdOp) (select clock data : Bool) (ram : ℕ → ℕ) :
    let buf : LcdBuffer := replay (fun _ => 0) ops
    let words := sample select clock data (wave lcdRefresh buf)
    words = (List.finRange LCD_BUFFER_LEN).map (fun k =>
        [true, false, true] ++ msbFirst 6 k.val ++ msbFirst 4 (buf k).toNat) ∧
      ∀ a, words.foldl storeWord ram a =
        if h : a < LCD_BUFFER_LEN then (buf ⟨a, h⟩).toNat else ram a := by
  intro buf words
  have hwords : words = (List.finRange LCD_BUFFER_LEN).map fun k => lcdWord k.val (buf k).toNat := by
    show sample select clock data (wave lcdRefresh buf) = _
    rw [refresh_wave, sample_wordWaves]
  refine ⟨hwords, fun a => ?_⟩
  rw [hwords]
  split_ifs with h
  · have hlow : (buf ⟨a, h⟩).toNat < 16 := low_reached ops ⟨a, h⟩
    rw [← Nat.mod_eq_of_lt hlow]
    exact ram_sent buf (List.mem_finRange ⟨a, h⟩) ram
  · have hother : ∀ k ∈ List.finRange LCD_BUFFER_LEN, k.val ≠ a := fun k _ hk => h (hk ▸ k.isLt)
    exact ram_other buf hother ram

end Detector
