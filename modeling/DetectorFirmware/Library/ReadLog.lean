import DetectorFirmware.Library.EventLog

/-! Programs that only read a byte buffer, with every index they read recorded.
`Honest` says that the record is complete: bytes that are not in it do not matter. -/

namespace EventLog

/-- Reading leaves a buffer as it is. -/
instance : System (ℕ → UInt8) ℕ where
  step m _ := m

abbrev ReadM := Prog (ℕ → UInt8) ℕ

namespace ReadM

variable {α β : Type}

def load (i : ℕ) : ReadM UInt8 := fun m => (m i, [i])

/-- `n` consecutive bytes from index `i`. -/
def loads (i n : ℕ) : ReadM (Vector UInt8 n) :=
  fun m => (Vector.ofFn fun j => m (i + j), List.range' i n)

@[simp] theorem final_eq (x : ReadM α) (m : ℕ → UInt8) : x.final m = m :=
  replay_idle (fun _ _ => rfl) m _

@[simp] theorem result_load (i : ℕ) (m : ℕ → UInt8) : (load i).result m = m i := by
  rw [Prog.result, load]

@[simp] theorem events_load (i : ℕ) (m : ℕ → UInt8) : (load i).events m = [i] := rfl

@[simp] theorem result_loads (i n : ℕ) (m : ℕ → UInt8) :
    (loads i n).result m = Vector.ofFn fun j => m (i + j) := by
  rw [Prog.result, loads]

@[simp] theorem events_loads (i n : ℕ) (m : ℕ → UInt8) :
    (loads i n).events m = List.range' i n := rfl

/-- Buffers that agree on the indices read give the same run. -/
def Honest (x : ReadM α) : Prop :=
  ∀ m m' : ℕ → UInt8, (∀ i ∈ x.events m, m i = m' i) → x m' = x m

theorem honest_pure (a : α) : Honest (pure a : ReadM α) := fun _ _ _ => rfl

theorem honest_load (i : ℕ) : Honest (load i) := by
  intro m m' h
  have hi : m i = m' i := h i (by simp)
  simp only [load, hi]

theorem honest_loads (i n : ℕ) : Honest (loads i n) := by
  intro m m' h
  have hj (j : Fin n) : m' (i + j) = m (i + j) :=
    (h _ (by simp only [events_loads, List.mem_range'_1]; omega)).symm
  simp only [loads, hj]

theorem honest_bind {x : ReadM α} {f : α → ReadM β} (hx : Honest x) (hf : ∀ a, Honest (f a)) :
    Honest (x >>= f) := by
  intro m m' h
  simp only [Prog.events_bind, List.mem_append, final_eq] at h
  have hxm : x m' = x m := hx m m' fun i hi => h i (Or.inl hi)
  have hfm : f (x.result m) m' = f (x.result m) m := hf _ m m' fun i hi => h i (Or.inr hi)
  have bind_eq (k : ℕ → UInt8) : (x >>= f) k =
      (((f (x k).1) k).1, (x k).2 ++ ((f (x k).1) k).2) := by
    have hk : replay k (x k).2 = k := final_eq x k
    show ((f (x k).1 (replay k (x k).2)).1, (x k).2 ++ (f (x k).1 (replay k (x k).2)).2) = _
    rw [hk]
  rw [bind_eq, bind_eq, hxm]
  exact congrArg (fun r => (r.1, (x m).2 ++ r.2)) hfm

theorem honest_ite {c : Prop} [Decidable c] {x y : ReadM α} (hx : Honest x) (hy : Honest y) :
    Honest (if c then x else y) := by
  split
  · exact hx
  · exact hy

end ReadM

end EventLog
