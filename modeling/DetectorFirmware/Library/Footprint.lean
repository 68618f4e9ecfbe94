import DetectorFirmware.Library.EventLog

/-! Environments that fall into parts. An event belongs to a part when it changes nothing
outside it and its effect there depends on that part only; a program is local to a part
when it looks at nothing else and causes only events of that part. Runs of local programs
may then be interleaved in any way: every part sees its own runs only. -/

namespace EventLog

variable {σ ε ω κ α β : Type} [System σ ε]

/-- `Agree k s s'` says that part `k` is the same in both environments. -/
structure Division (σ ε κ : Type) [System σ ε] where
  Agree : κ → σ → σ → Prop
  Own : κ → ε → Prop
  equivalence : ∀ k, Equivalence (Agree k)
  congr : ∀ {k s s' e}, Agree k s s' → Own k e → Agree k (System.step s e) (System.step s' e)
  frame : ∀ {k k' e}, Own k e → k' ≠ k → ∀ s, Agree k' (System.step s e) s

namespace Division

variable (D : Division σ ε κ) {k k' : κ} {s s' : σ} {t : List ε}

theorem replay_congr (h : D.Agree k s s') (ht : ∀ e ∈ t, D.Own k e) :
    D.Agree k (replay s t) (replay s' t) := by
  induction t generalizing s s' with
  | nil => exact h
  | cons e t ih =>
    obtain ⟨he, ht⟩ := List.forall_mem_cons.mp ht
    exact ih (D.congr h he) ht

theorem replay_frame (ht : ∀ e ∈ t, D.Own k e) (hne : k' ≠ k) (s : σ) :
    D.Agree k' (replay s t) s := by
  induction t generalizing s with
  | nil => exact (D.equivalence k').refl s
  | cons e t ih =>
    obtain ⟨he, ht⟩ := List.forall_mem_cons.mp ht
    exact (D.equivalence k').trans (ih ht _) (D.frame he hne s)

/-- The program looks at part `k` only and causes only events that belong to it. -/
structure Local (k : κ) (x : Prog σ ε α) : Prop where
  owned : ∀ s, ∀ e ∈ x.events s, D.Own k e
  result_congr : ∀ {s s'}, D.Agree k s s' → x.result s = x.result s'
  events_congr : ∀ {s s'}, D.Agree k s s' → x.events s = x.events s'

variable {D} {x y : Prog σ ε α}

theorem Local.final_congr (hx : D.Local k x) (h : D.Agree k s s') :
    D.Agree k (x.final s) (x.final s') := by
  rw [Prog.final, Prog.final, ← hx.events_congr h]
  exact D.replay_congr h (hx.owned s)

theorem Local.final_frame (hx : D.Local k x) (hne : k' ≠ k) (s : σ) :
    D.Agree k' (x.final s) s :=
  D.replay_frame (hx.owned s) hne s

/-! Local programs are closed under the constructors of programs. -/

theorem local_pure (a : α) : D.Local k (pure a : Prog σ ε α) where
  owned _ _ he := absurd he List.not_mem_nil
  result_congr _ := by rw [Prog.result_pure, Prog.result_pure]
  events_congr _ := rfl

theorem local_emit {e : ε} (he : D.Own k e) : D.Local k (Prog.emit e : Prog σ ε Unit) where
  owned s e' he' := by
    rw [Prog.events_emit, List.mem_singleton] at he'
    rwa [he']
  result_congr _ := rfl
  events_congr _ := rfl

theorem local_gets {f : σ → α} (hf : ∀ {s s'}, D.Agree k s s' → f s = f s') :
    D.Local k (Prog.gets f : Prog σ ε α) where
  owned _ _ he := absurd he List.not_mem_nil
  result_congr h := by rw [Prog.result_gets, Prog.result_gets, hf h]
  events_congr _ := rfl

/-- What follows has to be local for the results that can occur. -/
theorem local_bind {f : α → Prog σ ε β} (hx : D.Local k x)
    (hf : ∀ s, D.Local k (f (x.result s))) : D.Local k (x >>= f) where
  owned s e he := by
    rw [Prog.events_bind, List.mem_append] at he
    rcases he with he | he
    · exact hx.owned s e he
    · exact (hf s).owned _ e he
  result_congr {s s'} h := by
    rw [Prog.result_bind, Prog.result_bind, hx.result_congr h]
    exact (hf s').result_congr (hx.final_congr h)
  events_congr {s s'} h := by
    rw [Prog.events_bind, Prog.events_bind, hx.result_congr h, hx.events_congr h]
    exact congrArg _ ((hf s').events_congr (hx.final_congr h))

theorem local_ite {c : Prop} [Decidable c] (hx : c → D.Local k x) (hy : ¬ c → D.Local k y) :
    D.Local k (if c then x else y) := by
  split
  · next h => exact hx h
  · next h => exact hy h

theorem local_forM {l : List α} {body : α → Prog σ ε Unit} (h : ∀ a ∈ l, D.Local k (body a)) :
    D.Local k (l.forM body) := by
  induction l with
  | nil => exact local_pure ()
  | cons a l ih =>
    obtain ⟨ha, hl⟩ := List.forall_mem_cons.mp h
    exact local_bind ha fun _ => ih hl

/-! Interleavings. -/

/-- A part ends as if only its own programs had run, in their order. -/
theorem replay_projection [System σ ω] [DecidableEq κ] {owner : ω → κ} {run : ω → Prog σ ε Unit}
    (hstep : ∀ (s : σ) (o : ω), System.step s o = (run o).final s)
    (hlocal : ∀ o, D.Local (owner o) (run o)) (k : κ) (s : σ) (ops : List ω) :
    D.Agree k (replay s ops) (replay s (ops.filter fun o => owner o = k)) := by
  suffices h : ∀ s', D.Agree k s s' →
      D.Agree k (replay s ops) (replay s' (ops.filter fun o => owner o = k)) from
    h s ((D.equivalence k).refl s)
  induction ops generalizing s with
  | nil => exact fun _ h => h
  | cons o ops ih =>
    intro s' h
    by_cases ho : owner o = k
    · rw [List.filter_cons_of_pos (by simpa using ho), replay_cons, replay_cons, hstep, hstep]
      subst ho
      exact ih _ _ ((hlocal o).final_congr h)
    · rw [List.filter_cons_of_neg (by simpa using ho), replay_cons, hstep]
      exact ih _ _ ((D.equivalence k).trans ((hlocal o).final_frame (Ne.symm ho) s) h)

end Division

end EventLog
