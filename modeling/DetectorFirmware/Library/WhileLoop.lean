import DetectorFirmware.Library.EventLog

/-! Loops of unbounded length. `whileLoop` is given the number of rounds it may make and
has no result while it is still running, so a loop ends when some number is enough for
it and never ends when none is. -/

namespace EventLog

namespace Prog

variable {σ ε β : Type} [System σ ε] {cond : β → Bool} {body : β → Prog σ ε β}

def whileLoop (cond : β → Bool) (body : β → Prog σ ε β) : ℕ → β → Prog σ ε (Option β)
  | 0, _ => pure none
  | fuel + 1, b => if cond b then body b >>= whileLoop cond body fuel else pure (some b)

theorem whileLoop_done {b : β} (h : cond b = false) (fuel : ℕ) :
    whileLoop cond body (fuel + 1) b = pure (some b) := by
  rw [whileLoop, h, if_neg Bool.false_ne_true]

theorem whileLoop_round {b : β} (h : cond b = true) (fuel : ℕ) :
    whileLoop cond body (fuel + 1) b = body b >>= whileLoop cond body fuel := by
  rw [whileLoop, if_pos h]

/-- An invariant that counts the rounds left down to zero: the loop makes exactly so many. -/
theorem whileLoop_ends {I : ℕ → β → σ → Prop} (hdone : ∀ b s, I 0 b s → cond b = false)
    (hround : ∀ k b s, I (k + 1) b s →
      cond b = true ∧ I k ((body b).result s) ((body b).final s))
    {k : ℕ} {b : β} {s : σ} (h : I k b s) :
    ∃ b', (whileLoop cond body (k + 1) b).result s = some b' ∧
      I 0 b' ((whileLoop cond body (k + 1) b).final s) := by
  induction k generalizing b s with
  | zero =>
    rw [whileLoop_done (hdone b s h)]
    exact ⟨b, result_pure _ s, h⟩
  | succ k ih =>
    obtain ⟨hcond, hnext⟩ := hround k b s h
    rw [whileLoop_round hcond, result_bind, final_bind]
    exact ih hnext

/-- The same invariant seen after the rounds but before the last test. -/
theorem whileLoop_rounds {I : ℕ → β → σ → Prop}
    (hround : ∀ k b s, I (k + 1) b s →
      cond b = true ∧ I k ((body b).result s) ((body b).final s))
    {k : ℕ} {b : β} {s : σ} (h : I k b s) :
    ∃ b', I 0 b' ((whileLoop cond body k b).final s) := by
  induction k generalizing b s with
  | zero => exact ⟨b, h⟩
  | succ k ih =>
    obtain ⟨hcond, hnext⟩ := hround k b s h
    rw [whileLoop_round hcond, final_bind]
    exact ih hnext

/-- An invariant under which the loop goes on: it never ends. -/
theorem whileLoop_never {I : β → σ → Prop} (hcond : ∀ b s, I b s → cond b = true)
    (hround : ∀ b s, I b s → I ((body b).result s) ((body b).final s)) {b : β} {s : σ} (h : I b s)
    (fuel : ℕ) : (whileLoop cond body fuel b).result s = none := by
  induction fuel generalizing b s with
  | zero => exact result_pure none s
  | succ fuel ih =>
    rw [whileLoop_round (hcond b s h), result_bind]
    exact ih (hround b s h)

end Prog

end EventLog
