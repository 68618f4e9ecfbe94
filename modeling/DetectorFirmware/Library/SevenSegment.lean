import Mathlib.Logic.Function.Basic
import Mathlib.Data.List.Basic
import DetectorFirmware.Library.EventLog

/-! Panels of lamps that are switched one at a time, and the seven-segment digits drawn
on them. -/

namespace SevenSegment

open EventLog

/-- Which lamps are lit. -/
abbrev Panel (κ : Type) : Type := κ → Bool

variable {κ ι : Type} [DecidableEq κ] [DecidableEq ι]

/-- An event switches one lamp. -/
instance : System (Panel κ) (κ × Bool) where
  step s e := Function.update s e.1 e.2

@[simp] theorem step_eq (s : Panel κ) (e : κ × Bool) : System.step s e = Function.update s e.1 e.2 :=
  rfl

/-- A lamp that is not switched stays as it is. -/
theorem replay_untouched {s : Panel κ} {t : List (κ × Bool)} {k : κ} (h : ∀ e ∈ t, e.1 ≠ k) :
    replay s t k = s k := by
  induction t generalizing s with
  | nil => rfl
  | cons e t ih =>
    rw [replay_cons, ih fun e' he' => h e' (List.mem_cons_of_mem e he'), step_eq,
      Function.update_of_ne (h e List.mem_cons_self).symm]

/-- Lamps that have names may be followed by their names. -/
theorem replay_named {f : ι → κ} (hf : Function.Injective f) (s : Panel κ) (t : List (ι × Bool))
    (i : ι) : replay s (t.map fun e => (f e.1, e.2)) (f i) = replay (s ∘ f) t i := by
  induction t generalizing s with
  | nil => rfl
  | cons e t ih =>
    have hstep : Function.update s (f e.1) e.2 ∘ f = Function.update (s ∘ f) e.1 e.2 :=
      Function.update_comp_eq_of_injective s hf e.1 e.2
    rw [List.map_cons, replay_cons, ih, replay_cons, step_eq, step_eq, hstep]

/-- After each of some lamps was switched, whether a lamp was among them or not. -/
theorem replay_each (s : Panel κ) (l : List κ) (v : κ → Bool) (k : κ) :
    replay s (l.map fun i => (i, v i)) k = if k ∈ l then v k else s k := by
  induction l generalizing s with
  | nil => simp
  | cons i l ih =>
    rw [List.map_cons, replay_cons, ih, step_eq]
    by_cases hk : k = i
    · simp [hk]
    · simp [hk]

/-! Digits. -/

/-- The seven bars of a digit: the upper bar, clockwise round to the upper left one, and
the bar in the middle. -/
inductive Bar where
  | a | b | c | d | e | f | g
  deriving DecidableEq, Repr

open Bar

def Bar.all : List Bar := [a, b, c, d, e, f, g]

@[simp] theorem Bar.mem_all (bar : Bar) : bar ∈ Bar.all := by cases bar <;> decide

inductive Glyph where
  | blank
  | digit (n : ℕ)
  deriving DecidableEq, Repr

/-- The bars that are lit. -/
def Glyph.bars : Glyph → List Bar
  | .digit 0 => [a, b, c, d, e, f]
  | .digit 1 => [b, c]
  | .digit 2 => [a, b, d, e, g]
  | .digit 3 => [a, b, c, d, g]
  | .digit 4 => [b, c, f, g]
  | .digit 5 => [a, c, d, f, g]
  | .digit 6 => [a, c, d, e, f, g]
  | .digit 7 => [a, b, c]
  | .digit 8 => [a, b, c, d, e, f, g]
  | .digit 9 => [a, b, c, d, f, g]
  | _ => []

def Glyph.lit (glyph : Glyph) (bar : Bar) : Bool := bar ∈ glyph.bars

def Glyph.all : List Glyph := .blank :: (List.range 10).map .digit

/-- The glyph a reader sees, if the lit bars form one. -/
def decode (lit : Bar → Bool) : Option Glyph :=
  Glyph.all.find? fun glyph => Bar.all.all fun bar => lit bar == glyph.lit bar

/-- Every glyph is read as itself: no two share their bars. -/
theorem decode_lit {glyph : Glyph} (h : glyph ∈ Glyph.all) : decode glyph.lit = some glyph := by
  revert glyph
  decide

theorem digit_mem_all {n : ℕ} (h : n < 10) : Glyph.digit n ∈ Glyph.all :=
  List.mem_cons_of_mem _ (List.mem_map_of_mem (List.mem_range.mpr h))

end SevenSegment
