import DetectorFirmware.Library.EventLog
import Mathlib.Logic.Function.Basic
import Mathlib.Logic.Relation

/-! Parties that call an object at the same time. What can be seen of them is a history of
calls and returns; it is linearizable when an object that serves one call at a time has the
same history, every call taking effect at one moment between its call and its return. What a
call may do is a relation on the object as the call finds it and as it was when it was called,
so that a call of several steps may also fall short of what it would do at once. -/

namespace AtomicObject

inductive Event (ι Op Out : Type) where
  | call (i : ι) (op : Op)
  | ret (i : ι) (out : Out)

inductive Phase (Op Out σ : Type) where
  | idle
  /-- `since` is the object when the call was made. -/
  | called (op : Op) (since : σ)
  /-- The call has taken effect. -/
  | done (out : Out)

/-- An object that serves one call at a time. -/
structure Atomic (ι Op Out σ : Type) where
  obj : σ
  phase : ι → Phase Op Out σ
  history : List (Event ι Op Out)

variable {ι Op Out σ : Type}

/-- No party has called yet. -/
def Atomic.start (obj : σ) : Atomic ι Op Out σ := ⟨obj, fun _ => .idle, []⟩

variable [DecidableEq ι]

namespace Atomic

variable (a : Atomic ι Op Out σ) (i : ι)

def call (op : Op) : Atomic ι Op Out σ where
  obj := a.obj
  phase := Function.update a.phase i (.called op a.obj)
  history := a.history ++ [.call i op]

def effect (out : Out) (obj : σ) : Atomic ι Op Out σ where
  obj := obj
  phase := Function.update a.phase i (.done out)
  history := a.history

def ret (out : Out) : Atomic ι Op Out σ where
  obj := a.obj
  phase := Function.update a.phase i .idle
  history := a.history ++ [.ret i out]

/-- A call that takes effect and returns. -/
def serve (out : Out) (obj : σ) : Atomic ι Op Out σ := (a.effect i out obj).ret i out

@[simp] theorem serve_obj (out : Out) (obj : σ) : (a.serve i out obj).obj = obj := rfl

@[simp] theorem ret_history (out : Out) : (a.ret i out).history = a.history ++ [.ret i out] := rfl

@[simp] theorem call_history (op : Op) : (a.call i op).history = a.history ++ [.call i op] := rfl

@[simp] theorem serve_history (out : Out) (obj : σ) :
    (a.serve i out obj).history = a.history ++ [.ret i out] := rfl

@[simp] theorem effect_history (out : Out) (obj : σ) : (a.effect i out obj).history = a.history := rfl

theorem call_phase (op : Op) : (a.call i op).phase i = .called op a.obj := Function.update_self ..

theorem effect_phase (out : Out) (obj : σ) : (a.effect i out obj).phase i = .done out :=
  Function.update_self ..

theorem ret_phase (out : Out) : (a.ret i out).phase i = .idle := Function.update_self ..

theorem serve_phase (out : Out) (obj : σ) : (a.serve i out obj).phase i = .idle :=
  ret_phase ..

variable {a i} {j : ι}

theorem call_phase_of_ne (h : j ≠ i) (op : Op) : (a.call i op).phase j = a.phase j :=
  Function.update_of_ne h ..

theorem effect_phase_of_ne (h : j ≠ i) (out : Out) (obj : σ) :
    (a.effect i out obj).phase j = a.phase j := Function.update_of_ne h ..

theorem ret_phase_of_ne (h : j ≠ i) (out : Out) : (a.ret i out).phase j = a.phase j :=
  Function.update_of_ne h ..

theorem serve_phase_of_ne (h : j ≠ i) (out : Out) (obj : σ) :
    (a.serve i out obj).phase j = a.phase j :=
  (ret_phase_of_ne h out).trans (effect_phase_of_ne h out obj)

end Atomic

section
variable (spec : Op → σ → σ → Out → σ → Prop)

inductive AtomicStep (a : Atomic ι Op Out σ) : Atomic ι Op Out σ → Prop
  | call (i : ι) (op : Op) (h : a.phase i = .idle) : AtomicStep a (a.call i op)
  | effect (i : ι) {op : Op} {since : σ} {out : Out} {obj : σ} (h : a.phase i = .called op since)
    (hspec : spec op since a.obj out obj) : AtomicStep a (a.effect i out obj)
  | ret (i : ι) {out : Out} (h : a.phase i = .done out) : AtomicStep a (a.ret i out)

abbrev AtomicRun : Atomic ι Op Out σ → Atomic ι Op Out σ → Prop := Relation.ReflTransGen (AtomicStep spec)

def Linearizable (obj : σ) (history : List (Event ι Op Out)) : Prop :=
  ∃ a, AtomicRun spec (Atomic.start obj) a ∧ a.history = history

end

variable {spec : Op → σ → σ → Out → σ → Prop} {a : Atomic ι Op Out σ}

theorem run_serve (i : ι) {op : Op} {since : σ} {out : Out} {obj : σ}
    (h : a.phase i = .called op since) (hspec : spec op since a.obj out obj) :
    AtomicRun spec a (a.serve i out obj) :=
  (Relation.ReflTransGen.single (.effect i h hspec)).tail (.ret i (a.effect_phase i out obj))

/-- A call that is served at once. -/
theorem run_call_serve {i : ι} (h : a.phase i = .idle) {op : Op} {out : Out} {obj : σ}
    (hspec : spec op a.obj a.obj out obj) : AtomicRun spec a ((a.call i op).serve i out obj) :=
  (Relation.ReflTransGen.single (.call i op h)).trans (run_serve i (a.call_phase i op) hspec)

/-- A system whose every step an atomic object can follow, with the same calls and returns. -/
theorem of_simulation {τ ε : Type} [EventLog.System τ ε] {R : τ → Atomic ι Op Out σ → Prop}
    {seen : τ → List (Event ι Op Out)} (hseen : ∀ s a, R s a → a.history = seen s)
    (hstep : ∀ (s : τ) (e : ε) a, R s a → ∃ a', AtomicRun spec a a' ∧ R (EventLog.System.step s e) a')
    {s : τ} {obj : σ} (hstart : R s (Atomic.start obj)) (t : List ε) :
    Linearizable spec obj (seen (EventLog.replay s t)) := by
  have hrun : ∃ a, AtomicRun spec (Atomic.start obj) a ∧ R (EventLog.replay s t) a := by
    refine EventLog.replay_invariant (I := fun s => ∃ a, AtomicRun spec (Atomic.start obj) a ∧ R s a)
      ?_ ⟨_, .refl, hstart⟩ t
    rintro s e ⟨a, hrun, h⟩
    obtain ⟨a', hnext, h'⟩ := hstep s e a h
    exact ⟨a', hrun.trans hnext, h'⟩
  obtain ⟨a, hrun, h⟩ := hrun
  exact ⟨a, hrun, hseen _ a h⟩

end AtomicObject
