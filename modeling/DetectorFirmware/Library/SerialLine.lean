import Mathlib.Tactic.Ring
import DetectorFirmware.Library.EventLog

/-! Words on three wires: a select wire that is low while a word is sent, a clock that takes
one bit over at each rising edge, and the bit itself on a data wire. -/

namespace SerialLine

open EventLog

inductive Wire where
  | select | clock | data
  deriving DecidableEq, Repr

/-- The levels of the wires, the bits of the word under way, and the words complete. -/
structure Receiver where
  select : Bool
  clock : Bool
  data : Bool
  word : List Bool
  words : List (List Bool)
  deriving DecidableEq, Repr

/-- A word ends where the select wire goes high; a bit is taken where the clock goes high
while the select wire is low. -/
instance : System Receiver (Wire × Bool) where
  step r
    | (.select, level) =>
      if r.select = false ∧ level = true then
        { r with select := level, word := [], words := r.words ++ [r.word] }
      else { r with select := level }
    | (.clock, level) =>
      if r.clock = false ∧ level = true ∧ r.select = false then
        { r with clock := level, word := r.word ++ [r.data] }
      else { r with clock := level }
    | (.data, level) => { r with data := level }

/-- The words in a waveform, from any levels before it. -/
def sample (select clock data : Bool) (wave : List (Wire × Bool)) : List (List Bool) :=
  (replay (⟨select, clock, data, [], []⟩ : Receiver) wave).words

/-- The waveform of one bit. -/
def bitWave (b : Bool) : List (Wire × Bool) := [(.clock, false), (.data, b), (.clock, true)]

def wordWave (bs : List Bool) : List (Wire × Bool) :=
  (.select, false) :: bs.flatMap bitWave ++ [(.select, true)]

/-- It has one rising edge, with the bit on the data wire. -/
theorem replay_bitWave {r : Receiver} (h : r.select = false) (b : Bool) :
    replay r (bitWave b) = { r with clock := true, data := b, word := r.word ++ [b] } := by
  simp [bitWave, System.step, h]

theorem replay_bitWaves {r : Receiver} (h : r.select = false) (bs : List Bool) :
    let r' := replay r (bs.flatMap bitWave)
    r'.select = false ∧ r'.word = r.word ++ bs ∧ r'.words = r.words := by
  induction bs generalizing r with
  | nil => simp [h]
  | cons b bs ih =>
    obtain ⟨hselect, hword, hwords⟩ := @ih { r with clock := true, data := b, word := r.word ++ [b] } h
    simp only [List.flatMap_cons, replay_append, replay_bitWave h]
    exact ⟨hselect, by rw [hword, List.append_assoc, List.singleton_append], hwords⟩

/-- The select wire goes high. -/
theorem step_select {r : Receiver} (h : r.select = false) :
    System.step r (Wire.select, true) =
      { r with select := true, word := [], words := r.words ++ [r.word] } := by
  simp [System.step, h]

theorem replay_wordWave {r : Receiver} (h : r.word = []) (bs : List Bool) :
    (replay r (wordWave bs)).word = [] ∧ (replay r (wordWave bs)).words = r.words ++ [bs] := by
  have hlow : System.step r (Wire.select, false) = { r with select := false } := by
    simp [System.step]
  obtain ⟨hselect, hword, hwords⟩ := replay_bitWaves (r := { r with select := false }) rfl bs
  rw [wordWave, List.cons_append, replay_cons, replay_append, hlow, replay_cons, replay_nil,
    step_select hselect]
  exact ⟨rfl, by rw [hword, hwords, h, List.nil_append]⟩

/-- Words sent one after the other are sampled as they are. -/
theorem sample_wordWaves (select clock data : Bool) (ws : List (List Bool)) :
    sample select clock data (ws.flatMap wordWave) = ws := by
  suffices h : ∀ r : Receiver, r.word = [] →
      (replay r (ws.flatMap wordWave)).words = r.words ++ ws from h _ rfl
  induction ws with
  | nil => simp
  | cons bs ws ih =>
    intro r hr
    obtain ⟨hword, hwords⟩ := replay_wordWave hr bs
    rw [List.flatMap_cons, replay_append, ih _ hword, hwords, List.append_assoc,
      List.singleton_append]

/-! Numbers, most significant bit first. -/

/-- The lower `n` bits of a number. -/
def msbFirst (n v : ℕ) : List Bool := (List.range n).map fun i => v.testBit (n - 1 - i)

def ofBits (bs : List Bool) : ℕ := bs.foldl (fun v b => 2 * v + b.toNat) 0

@[simp] theorem msbFirst_length (n v : ℕ) : (msbFirst n v).length = n := by simp [msbFirst]

theorem msbFirst_succ (n v : ℕ) : msbFirst (n + 1) v = v.testBit n :: msbFirst n v := by
  simp only [msbFirst, List.range_succ_eq_map, List.map_cons, List.map_map]
  refine congrArg₂ List.cons rfl (List.map_congr_left fun i _ => ?_)
  show v.testBit (n + 1 - 1 - (i + 1)) = v.testBit (n - 1 - i)
  congr 1
  omega

theorem ofBits_msbFirst (n v : ℕ) : ofBits (msbFirst n v) = v % 2 ^ n := by
  suffices h : ∀ acc, (msbFirst n v).foldl (fun v b => 2 * v + b.toNat) acc =
      acc * 2 ^ n + v % 2 ^ n by
    rw [ofBits, h, Nat.zero_mul, Nat.zero_add]
  induction n with
  | zero => simp [msbFirst, Nat.mod_one]
  | succ n ih =>
    intro acc
    rw [msbFirst_succ, List.foldl_cons, ih, Nat.mod_pow_succ, Nat.toNat_testBit, pow_succ]
    ring

end SerialLine
