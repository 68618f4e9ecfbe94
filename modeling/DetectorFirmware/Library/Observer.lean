import DetectorFirmware.Library.EventLog

/-! A program seen by an observer of its events. The observer's state is one the program
never reads, such as a lock bit or an access right, so the events of the program are the
same whatever that state is. `Guides` is the triple for it: a precondition and a
postcondition of the observer, and what each event has to find. -/

namespace EventLog

namespace Prog

variable {σ τ ε α β : Type} [System τ ε]

/-- Wherever the program starts, its events take an observer in `P` to one in `Q`, and
each of them meets `R` where it happens. -/
def Guides (R : τ → ε → Prop) (P Q : τ → Prop) (x : Prog σ ε α) : Prop :=
  ∀ s t, P t → Steps R t (x.events s) ∧ Q (replay t (x.events s))

variable {R : τ → ε → Prop} {P P' Q Q' : τ → Prop} {x : Prog σ ε α}

theorem guides_of_no_events (h : ∀ s, x.events s = []) : Guides R P P x := by
  intro s t ht
  rw [h s]
  exact ⟨trivial, ht⟩

theorem guides_gets (f : σ → α) : Guides R P P (gets f : Prog σ ε α) :=
  guides_of_no_events fun _ => rfl

theorem guides_emit {e : ε} (hR : ∀ t, P t → R t e) (hQ : ∀ t, P t → Q (System.step t e)) :
    Guides R P Q (emit e : Prog σ ε Unit) :=
  fun _ t ht => ⟨⟨hR t ht, trivial⟩, hQ t ht⟩

theorem Guides.pre (h : Guides R P Q x) (hP : ∀ t, P' t → P t) : Guides R P' Q x := by
  intro s t ht
  exact h s t (hP t ht)

theorem Guides.post (h : Guides R P Q x) (hQ : ∀ t, Q t → Q' t) : Guides R P Q' x := by
  intro s t ht
  obtain ⟨hsteps, hlast⟩ := h s t ht
  exact ⟨hsteps, hQ _ hlast⟩

theorem guides_ite {c : Prop} [Decidable c] {y : Prog σ ε α} (hx : Guides R P Q x)
    (hy : Guides R P Q y) : Guides R P Q (if c then x else y) := by
  split
  · exact hx
  · exact hy

variable [System σ ε]

theorem guides_pure (a : α) : Guides R P P (pure a : Prog σ ε α) := guides_of_no_events fun _ => rfl

theorem Guides.bind {f : α → Prog σ ε β} (hx : Guides R P Q x) (hf : ∀ a, Guides R Q Q' (f a)) :
    Guides R P Q' (x >>= f) := by
  intro s t ht
  obtain ⟨hfirst, hmid⟩ := hx s t ht
  obtain ⟨hsecond, hlast⟩ := hf (x.result s) (x.final s) _ hmid
  rw [events_bind, steps_append, replay_append]
  exact ⟨⟨hfirst, hsecond⟩, hlast⟩

theorem closed_guides (R : τ → ε → Prop) (P : τ → Prop) :
    Closed (σ := σ) (ε := ε) fun _ x => Guides R P P x where
  pure := guides_pure
  bind := Guides.bind

theorem guides_forM {l : List α} {body : α → Prog σ ε Unit} (h : ∀ a ∈ l, Guides R P P (body a)) :
    Guides R P P (l.forM body) := (closed_guides R P).forM h

/-- A loop that runs at all leaves what its last round leaves. -/
theorem guides_forM_last {l : List α} {body : α → Prog σ ε Unit} (hl : l ≠ [])
    (h : ∀ a ∈ l, Guides R P Q (body a)) (hQ : ∀ t, Q t → P t) : Guides R P Q (l.forM body) := by
  cases l with
  | nil => exact absurd rfl hl
  | cons a l =>
    apply (h a List.mem_cons_self).bind
    intro _
    apply guides_forM
    intro b hb
    exact (h b (List.mem_cons_of_mem a hb)).pre hQ

end Prog

end EventLog
