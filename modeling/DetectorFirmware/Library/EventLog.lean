import Mathlib.Data.List.Basic
import Mathlib.Order.Basic

/-! Programs whose every effect on their environment is a recorded event. A
program maps the environment it starts in to a result and the list of events it
causes; the environment afterwards is the replay of that list. Since the list is
explicit, "at every step" is a statement about its elements and "interrupted
anywhere" is a statement about its prefixes. -/

namespace EventLog

/-- What one event does to the environment. -/
class System (σ ε : Type) where
  step : σ → ε → σ

/-- A program over the environment `σ` with events `ε`. -/
def Prog (σ ε α : Type) : Type := σ → α × List ε

variable {σ ε α β : Type}

namespace Prog

def result (x : Prog σ ε α) (s : σ) : α := (x s).1

def events (x : Prog σ ε α) (s : σ) : List ε := (x s).2

/-- Cause one event. -/
def emit (e : ε) : Prog σ ε Unit := fun _ => ((), [e])

/-- Look at the environment without an event. -/
def gets (f : σ → α) : Prog σ ε α := fun s => (f s, [])

@[simp] theorem result_emit (e : ε) (s : σ) : result (emit e : Prog σ ε Unit) s = () := rfl

@[simp] theorem events_emit (e : ε) (s : σ) : events (emit e : Prog σ ε Unit) s = [e] := rfl

@[simp] theorem result_gets (f : σ → α) (s : σ) : result (gets f : Prog σ ε α) s = f s := by
  rw [result, gets]

@[simp] theorem events_gets (f : σ → α) (s : σ) : events (gets f : Prog σ ε α) s = [] := rfl

theorem result_ite (c : Prop) [Decidable c] (x y : Prog σ ε α) (s : σ) :
    result (if c then x else y) s = if c then result x s else result y s := by
  split <;> rfl

theorem events_ite (c : Prop) [Decidable c] (x y : Prog σ ε α) (s : σ) :
    events (if c then x else y) s = if c then events x s else events y s := by
  split <;> rfl

end Prog

variable [System σ ε]

/-- The environment after a list of events. -/
def replay (s : σ) (t : List ε) : σ := t.foldl System.step s

@[simp] theorem replay_nil (s : σ) : replay s ([] : List ε) = s := rfl

@[simp] theorem replay_cons (s : σ) (e : ε) (t : List ε) :
    replay s (e :: t) = replay (System.step s e) t := rfl

@[simp] theorem replay_append (s : σ) (t u : List ε) :
    replay s (t ++ u) = replay (replay s t) u := List.foldl_append

/-- What every event keeps up holds after any number of them. -/
theorem replay_invariant {I : σ → Prop} (hstep : ∀ (s : σ) (e : ε), I s → I (System.step s e))
    {s : σ} (hs : I s) (t : List ε) : I (replay s t) := by
  induction t generalizing s with
  | nil => exact hs
  | cons e t ih => exact ih (hstep s e hs)

theorem replay_idle (h : ∀ (s : σ) (e : ε), System.step s e = s) (s : σ) (t : List ε) :
    replay s t = s := by
  induction t with
  | nil => rfl
  | cons e t ih => rw [replay_cons, h, ih]

/-- A view of the environment that every event changes as the abstract system does. -/
theorem replay_simulates {τ : Type} [System τ ε] (view : σ → τ)
    (h : ∀ (s : σ) (e : ε), view (System.step s e) = System.step (view s) e) (s : σ) (t : List ε) :
    view (replay s t) = replay (view s) t := by
  induction t generalizing s with
  | nil => rfl
  | cons e t ih => rw [replay_cons, ih, h, replay_cons]

/-- An observation that events either set or leave alone shows the last value set. -/
theorem replay_last {γ : Type} (observe : σ → γ) (sets : ε → Option γ)
    (h : ∀ (s : σ) (e : ε), observe (System.step s e) = (sets e).getD (observe s)) (s : σ)
    (t : List ε) : observe (replay s t) = (t.filterMap sets).getLast?.getD (observe s) := by
  induction t generalizing s with
  | nil => rfl
  | cons e t ih =>
    rw [replay_cons, ih, h]
    cases he : sets e with
    | none => rw [List.filterMap_cons_none he, Option.getD_none]
    | some v =>
      rw [List.filterMap_cons_some he, List.getLast?_cons, Option.getD_some, Option.getD_some]

namespace Prog

/-- The environment a completed run leaves. -/
def final (x : Prog σ ε α) (s : σ) : σ := replay s (x.events s)

instance : Monad (Prog σ ε) where
  pure a := fun _ => (a, [])
  bind x f := fun s =>
    let r := f (x s).1 (replay s (x s).2)
    (r.1, (x s).2 ++ r.2)

@[simp] theorem result_pure (a : α) (s : σ) : result (pure a : Prog σ ε α) s = a := by
  rw [result]
  rfl

@[simp] theorem events_pure (a : α) (s : σ) : events (pure a : Prog σ ε α) s = [] := rfl

@[simp] theorem final_pure (a : α) (s : σ) : final (pure a : Prog σ ε α) s = s := rfl

@[simp] theorem final_emit (e : ε) (s : σ) :
    final (emit e : Prog σ ε Unit) s = System.step s e := rfl

@[simp] theorem final_gets (f : σ → α) (s : σ) : final (gets f : Prog σ ε α) s = s := rfl

@[simp] theorem result_bind (x : Prog σ ε α) (f : α → Prog σ ε β) (s : σ) :
    result (x >>= f) s = result (f (x.result s)) (x.final s) := by
  rw [result]
  rfl

@[simp] theorem events_bind (x : Prog σ ε α) (f : α → Prog σ ε β) (s : σ) :
    events (x >>= f) s = x.events s ++ events (f (x.result s)) (x.final s) := by
  rw [events]
  rfl

@[simp] theorem final_bind (x : Prog σ ε α) (f : α → Prog σ ε β) (s : σ) :
    final (x >>= f) s = final (f (x.result s)) (x.final s) := by
  simp only [final, events_bind, replay_append]

theorem final_ite (c : Prop) [Decidable c] (x y : Prog σ ε α) (s : σ) :
    final (if c then x else y) s = if c then final x s else final y s := by
  split <;> rfl

/-! Properties that carry over from the parts of a program to the whole. -/

/-- A property of programs that sequencing preserves. -/
structure Closed (K : ∀ α : Type, Prog σ ε α → Prop) : Prop where
  pure : ∀ {α : Type} (a : α), K α (pure a)
  bind : ∀ {α β : Type} {x : Prog σ ε α} {f : α → Prog σ ε β},
    K α x → (∀ a, K β (f a)) → K β (x >>= f)

theorem Closed.forM {K : ∀ α : Type, Prog σ ε α → Prop} (hK : Closed K) {l : List α}
    {body : α → Prog σ ε Unit} (h : ∀ a ∈ l, K Unit (body a)) : K Unit (l.forM body) := by
  induction l with
  | nil => exact hK.pure ()
  | cons a l ih =>
    exact hK.bind (h a List.mem_cons_self) fun _ => ih fun b hb => h b (List.mem_cons_of_mem a hb)

/-! What a program keeps. -/

/-- Wherever `I` holds before the program, it holds after it. -/
def Keeps (I : σ → Prop) (x : Prog σ ε α) : Prop := ∀ s, I s → I (x.final s)

variable {I : σ → Prop}

theorem keeps_emit {e : ε} (h : ∀ s, I s → I (System.step s e)) :
    Keeps I (emit e : Prog σ ε Unit) := h

theorem closed_keeps (I : σ → Prop) : Closed (σ := σ) (ε := ε) fun _ x => Keeps I x where
  pure a s hs := by rwa [final_pure]
  bind hx hf s hs := by
    rw [final_bind]
    exact hf _ _ (hx s hs)

theorem keeps_pure (a : α) : Keeps I (pure a : Prog σ ε α) := (closed_keeps I).pure a

theorem keeps_bind {x : Prog σ ε α} {f : α → Prog σ ε β} (hx : Keeps I x)
    (hf : ∀ a, Keeps I (f a)) : Keeps I (x >>= f) := (closed_keeps I).bind hx hf

theorem keeps_ite {c : Prop} [Decidable c] {x y : Prog σ ε α} (hx : Keeps I x) (hy : Keeps I y) :
    Keeps I (if c then x else y) := by
  split
  · exact hx
  · exact hy

theorem keeps_forM {l : List α} {body : α → Prog σ ε Unit} (h : ∀ a ∈ l, Keeps I (body a)) :
    Keeps I (l.forM body) := (closed_keeps I).forM h

/-- A loop whose rounds cause the same events wherever they start from what they keep. -/
theorem events_forM_of_keeps {l : List α} {body : α → Prog σ ε Unit} {ev : α → List ε}
    (hkeep : ∀ a ∈ l, Keeps I (body a)) (h : ∀ a ∈ l, ∀ s, I s → events (body a) s = ev a)
    {s : σ} (hs : I s) : events (l.forM body) s = l.flatMap ev := by
  induction l generalizing s with
  | nil => rfl
  | cons a l ih =>
    have hloop : (a :: l).forM body = (body a >>= fun _ => l.forM body) := rfl
    rw [hloop, events_bind, h a List.mem_cons_self s hs, List.flatMap_cons,
      ih (fun b hb => hkeep b (List.mem_cons_of_mem a hb))
        (fun b hb => h b (List.mem_cons_of_mem a hb)) (hkeep a List.mem_cons_self s hs)]

/-- A loop whose rounds cause the same events in every environment. -/
theorem events_forM {l : List α} {body : α → Prog σ ε Unit} {ev : α → List ε}
    (h : ∀ a ∈ l, ∀ s, events (body a) s = ev a) (s : σ) :
    events (l.forM body) s = l.flatMap ev :=
  events_forM_of_keeps (I := fun _ => True) (fun _ _ _ _ => trivial) (fun a ha s _ => h a ha s) trivial

end Prog

/-! Statements about every event of a run, each judged in the environment it
happens in. -/

/-- Every event of `t`, replayed from `s`, meets `R` where it happens. -/
def Steps (R : σ → ε → Prop) : σ → List ε → Prop
  | _, [] => True
  | s, e :: t => R s e ∧ Steps R (System.step s e) t

@[simp] theorem steps_nil (R : σ → ε → Prop) (s : σ) : Steps R s [] := trivial

@[simp] theorem steps_cons (R : σ → ε → Prop) (s : σ) (e : ε) (t : List ε) :
    Steps R s (e :: t) ↔ R s e ∧ Steps R (System.step s e) t := Iff.rfl

@[simp] theorem steps_append (R : σ → ε → Prop) (s : σ) (t u : List ε) :
    Steps R s (t ++ u) ↔ Steps R s t ∧ Steps R (replay s t) u := by
  induction t generalizing s with
  | nil => simp
  | cons e t ih => simp only [List.cons_append, steps_cons, ih, replay_cons, and_assoc]

theorem Steps.mono {R R' : σ → ε → Prop} (h : ∀ s e, R s e → R' s e) {s : σ} {t : List ε}
    (ht : Steps R s t) : Steps R' s t := by
  induction t generalizing s with
  | nil => trivial
  | cons e t ih => exact ⟨h s e ht.1, ih ht.2⟩

/-- A condition on the events alone. -/
theorem steps_iff_forall_mem (p : ε → Prop) (s : σ) (t : List ε) :
    Steps (fun _ e => p e) s t ↔ ∀ e ∈ t, p e := by
  induction t generalizing s with
  | nil => simp
  | cons e t ih => simp only [steps_cons, ih, List.forall_mem_cons]

/-- Two conditions that agree wherever an invariant holds, which the first one keeps up,
allow the same runs. -/
theorem Steps.iff_of_invariant {R R' : σ → ε → Prop} {I : σ → Prop}
    (hiff : ∀ s e, I s → (R s e ↔ R' s e)) (hstep : ∀ s e, I s → R s e → I (System.step s e))
    {s : σ} {t : List ε} (hs : I s) : Steps R s t ↔ Steps R' s t := by
  induction t generalizing s with
  | nil => exact Iff.rfl
  | cons e t ih =>
    rw [steps_cons, steps_cons, ← hiff s e hs]
    exact and_congr_right fun he => ih (hstep s e hs he)

/-- Where one condition decides each step out of a set of environments, and none leads
back, a run ends in the set exactly when every step meets the condition. -/
theorem replay_iff_steps {I : σ → Prop} {R : σ → ε → Prop}
    (hstep : ∀ (s : σ) (e : ε), I s → (I (System.step s e) ↔ R s e))
    (hlost : ∀ (s : σ) (e : ε), ¬ I s → ¬ I (System.step s e)) {s : σ} (hs : I s) (t : List ε) :
    I (replay s t) ↔ Steps R s t := by
  induction t generalizing s with
  | nil => exact iff_of_true hs trivial
  | cons e t ih =>
    rw [replay_cons, steps_cons, ← hstep s e hs]
    by_cases he : I (System.step s e)
    · rw [ih he, and_iff_right he]
    · exact iff_of_false (replay_invariant hlost he t) fun h => he h.1

/-- A cut falls into the first part of a run or into the second. -/
theorem prefix_append_cases {t u v : List ε} (h : t <+: u ++ v) :
    t <+: u ∨ ∃ w, w <+: v ∧ t = u ++ w := by
  rcases Nat.le_total t.length u.length with hle | hle
  · exact Or.inl (List.prefix_of_prefix_length_le h (List.prefix_append u v) hle)
  · obtain ⟨w, rfl⟩ := List.prefix_of_prefix_length_le (List.prefix_append u v) h hle
    exact Or.inr ⟨w, (List.prefix_append_right_inj u).mp h, rfl⟩

/-- Events that never change the environment may be left out of a replay. -/
theorem replay_filter (p : ε → Bool) (h : ∀ (s : σ) (e : ε), p e = false → System.step s e = s)
    (s : σ) (t : List ε) : replay s (t.filter p) = replay s t := by
  induction t generalizing s with
  | nil => rfl
  | cons e t ih =>
    cases hp : p e
    · rw [List.filter_cons_of_neg (by simp [hp]), ih, replay_cons, h s e hp]
    · rw [List.filter_cons_of_pos hp, replay_cons, replay_cons, ih]

/-! One log of many members. -/

section
variable {μ γ : Type} [DecidableEq μ]

/-- What the log says of one of them. -/
def ofMember (a : μ) (log : List (μ × γ)) : List γ :=
  log.filterMap fun e => if e.1 = a then some e.2 else none

theorem ofMember_append (a : μ) (xs ys : List (μ × γ)) :
    ofMember a (xs ++ ys) = ofMember a xs ++ ofMember a ys := List.filterMap_append

@[simp] theorem ofMember_cons_own (a : μ) (e : γ) (log : List (μ × γ)) :
    ofMember a ((a, e) :: log) = e :: ofMember a log := by simp [ofMember]

@[simp] theorem ofMember_cons_other {a b : μ} (h : b ≠ a) (e : γ) (log : List (μ × γ)) :
    ofMember a ((b, e) :: log) = ofMember a log := by simp [ofMember, h]

theorem ofMember_own (a : μ) (es : List γ) : ofMember a (es.map fun e => (a, e)) = es := by
  induction es with
  | nil => rfl
  | cons e es ih => rw [List.map_cons, ofMember_cons_own, ih]

theorem ofMember_other {a b : μ} (h : b ≠ a) (es : List γ) : ofMember a (es.map fun e => (b, e)) = [] := by
  induction es with
  | nil => rfl
  | cons e es ih => rw [List.map_cons, ofMember_cons_other h, ih]

/-- When every member of a list adds something to the log, each finds its own. -/
theorem ofMember_flatMap (a : μ) (own : μ → List γ) {l : List μ} (h : l.Nodup) :
    ofMember a (l.flatMap fun b => (own b).map fun e => (b, e)) = if a ∈ l then own a else [] := by
  induction l with
  | nil => rfl
  | cons b next ih =>
    obtain ⟨hb, hnext⟩ := List.nodup_cons.mp h
    rw [List.flatMap_cons, ofMember_append, ih hnext]
    by_cases heq : b = a
    · subst heq
      rw [if_neg hb, if_pos List.mem_cons_self, ofMember_own, List.append_nil]
    · rw [ofMember_other heq, List.nil_append]
      exact if_congr (by simp [Ne.symm heq]) rfl rfl

end

end EventLog
