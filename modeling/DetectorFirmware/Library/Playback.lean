import Mathlib.Data.List.Basic
import Mathlib.Data.Nat.Notation

/-! Showing a list of values, each for a time. A value is shown between two moments, of which
the player knows the first and the last; the next one may be shown when the time of the one
before it is over, counted from its last moment. -/

namespace Playback

/-- A value, and how long it lasts. -/
structure Beat (α : Type) where
  value : α
  time : ℕ

/-- A value that was shown, between two moments. -/
structure Shown (α : Type) where
  value : α
  before : ℕ
  after : ℕ

variable {α : Type}

/-- From moment `r` on, the first of the beats are shown; what is left may go on from `r'`. -/
inductive Plays : ℕ → List (Beat α) → List (Shown α) → List (Beat α) → ℕ → Prop where
  | idle (r : ℕ) (bs : List (Beat α)) : Plays r bs [] bs r
  | beat {r r' : ℕ} {b : Beat α} {bs rest : List (Beat α)} {w : Shown α} {log : List (Shown α)}
      (hready : r ≤ w.before) (horder : w.before ≤ w.after) (hvalue : w.value = b.value)
      (hrest : Plays (w.after + b.time) bs log rest r') : Plays r (b :: bs) (w :: log) rest r'

variable {r r' : ℕ} {bs rest : List (Beat α)} {log : List (Shown α)}

/-- One more beat. -/
theorem Plays.snoc {b : Beat α} (h : Plays r bs log (b :: rest) r') {w : Shown α}
    (hready : r' ≤ w.before) (horder : w.before ≤ w.after) (hvalue : w.value = b.value) :
    Plays r bs (log ++ [w]) rest (w.after + b.time) := by
  generalize hleft : b :: rest = left at h
  induction h with
  | idle r bs =>
    subst hleft
    exact .beat hready horder hvalue (.idle _ _)
  | beat h1 h2 h3 _ ih => exact .beat h1 h2 h3 (ih hready hleft)

end Playback
