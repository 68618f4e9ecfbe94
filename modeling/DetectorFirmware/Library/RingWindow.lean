import Mathlib.Data.List.Basic
import Mathlib.Data.List.GetD
import Mathlib.Data.Nat.ModEq

/-! A memory read and written in a circle. `window` is what lies between two positions of
the circle; a linear copy is a window that does not go round. -/

namespace RingWindow

variable {α : Type} {cells cells' : ℕ → α} {size r m n : ℕ}

/-- `n` cells from position `r` on, going round after `size`. -/
def window (cells : ℕ → α) (size r n : ℕ) : List α :=
  (List.range n).map fun i => cells ((r + i) % size)

/-- `n` cells from position `p` on. -/
def copy (cells : ℕ → α) (p n : ℕ) : List α := (List.range n).map fun i => cells (p + i)

/-- The memory with `bs` stored from position `p` on. -/
def blit (cells : ℕ → α) (p : ℕ) (bs : List α) : ℕ → α :=
  fun i => if p ≤ i then bs.getD (i - p) (cells i) else cells i

@[simp] theorem window_length : (window cells size r n).length = n := by simp [window]

@[simp] theorem copy_zero (p : ℕ) : copy cells p 0 = [] := rfl

theorem window_congr (h : ∀ i < n, cells ((r + i) % size) = cells' ((r + i) % size)) :
    window cells size r n = window cells' size r n :=
  List.map_congr_left fun i hi => h i (List.mem_range.mp hi)

theorem window_mod : window cells size (r % size) n = window cells size r n :=
  List.map_congr_left fun i _ => by rw [Nat.mod_add_mod]

/-- A window in two pieces. -/
theorem window_add (cells : ℕ → α) (size r m n : ℕ) :
    window cells size r (m + n) = window cells size r m ++ window cells size (r + m) n := by
  simp only [window, List.range_add, List.map_append, List.map_map]
  simp [Function.comp_def, Nat.add_assoc]

/-- A copy is a window that does not reach the end. -/
theorem copy_eq_window (h : r + n ≤ size) : copy cells r n = window cells size r n := by
  refine List.map_congr_left fun i hi => ?_
  rw [Nat.mod_eq_of_lt (by have := List.mem_range.mp hi; omega)]

theorem window_take (h : m ≤ n) : (window cells size r n).take m = window cells size r m := by
  obtain ⟨k, rfl⟩ := Nat.exists_eq_add_of_le h
  rw [window_add, List.take_left' window_length]

theorem window_drop (h : m ≤ n) :
    (window cells size r n).drop m = window cells size (r + m) (n - m) := by
  obtain ⟨k, rfl⟩ := Nat.exists_eq_add_of_le h
  rw [window_add, List.drop_left' window_length, Nat.add_sub_cancel_left]

/-- Copying to the end and then on from the start goes round once. -/
theorem copy_round (cells : ℕ → α) (hr : r < size) (hn : n ≤ size) :
    copy cells r (min (size - r) n) ++ copy cells 0 (n - min (size - r) n) =
      window cells size r n := by
  have hfirst : r + min (size - r) n ≤ size := by omega
  rw [copy_eq_window hfirst]
  rcases Nat.le_total n (size - r) with hle | hle
  · simp [Nat.min_eq_right hle]
  · have hsplit : n = (size - r) + (n - (size - r)) := by omega
    have hstart : window cells size (r + (size - r)) (n - (size - r)) =
        window cells size 0 (n - (size - r)) := by
      rw [← window_mod, Nat.add_sub_cancel' (Nat.le_of_lt hr), Nat.mod_self]
    rw [Nat.min_eq_left hle, copy_eq_window (show 0 + (n - (size - r)) ≤ size by omega), ← hstart,
      ← window_add, ← hsplit]

/-- Places of the circle less than a round apart differ. -/
theorem round_ne {i j : ℕ} (hij : i < j) (hj : j < i + size) : (r + i) % size ≠ (r + j) % size := by
  intro h
  have hmod : i ≡ j [MOD size] := Nat.ModEq.add_left_cancel' r h
  have hle := Nat.le_of_dvd (by omega) ((Nat.modEq_iff_dvd' (Nat.le_of_lt hij)).mp hmod)
  omega

/-! Stores. -/

theorem window_update_outside {p : ℕ} (b : α) (h : ∀ i < n, (r + i) % size ≠ p) :
    window (Function.update cells p b) size r n = window cells size r n :=
  window_congr fun i hi => Function.update_of_ne (h i hi) b cells

/-- A store right behind a window makes it longer. -/
theorem window_update_succ (cells : ℕ → α) (b : α) (hn : n < size) :
    window (Function.update cells ((r + n) % size) b) size r (n + 1) = window cells size r n ++ [b] := by
  have hlast : window (Function.update cells ((r + n) % size) b) size (r + n) 1 = [b] := by
    simp [window]
  rw [window_add, hlast, window_update_outside b fun i hi => round_ne hi (by omega)]

@[simp] theorem blit_nil (cells : ℕ → α) (p : ℕ) : blit cells p [] = cells := by
  funext i
  rw [blit, List.getD_nil, ite_self]

theorem blit_outside {p i : ℕ} {bs : List α} (h : i < p ∨ p + bs.length ≤ i) :
    blit cells p bs i = cells i := by
  unfold blit
  split_ifs with hp
  · exact List.getD_eq_default _ _ (by omega)
  · rfl

theorem blit_inside {p i : ℕ} {bs : List α} (h : i < bs.length) : blit cells p bs (p + i) = bs[i] := by
  rw [blit, if_pos (Nat.le_add_right p i), Nat.add_sub_cancel_left, List.getD_eq_getElem _ _ h]

/-- Storing to the end and then on from the start fills a window. -/
theorem window_blit_round (cells : ℕ → α) {bs : List α} (hr : r < size) (hn : bs.length ≤ size) :
    window (blit (blit cells r (bs.take (size - r))) 0 (bs.drop (size - r))) size r bs.length = bs := by
  refine List.ext_getElem window_length fun i hi hi' => ?_
  rw [window_length] at hi
  simp only [window, List.getElem_map, List.getElem_range]
  rcases Nat.lt_or_ge (r + i) size with hlow | hhigh
  · have hin : i < (bs.take (size - r)).length := by rw [List.length_take]; omega
    have hout : 0 + (bs.drop (size - r)).length ≤ r + i := by rw [List.length_drop]; omega
    rw [Nat.mod_eq_of_lt hlow, blit_outside (Or.inr hout), blit_inside hin, List.getElem_take]
  · have hmod : (r + i) % size = 0 + (i - (size - r)) := by
      rw [Nat.mod_eq_sub_mod hhigh, Nat.mod_eq_of_lt (by omega)]
      omega
    have hin : i - (size - r) < (bs.drop (size - r)).length := by rw [List.length_drop]; omega
    rw [hmod, blit_inside hin, List.getElem_drop]
    congr 1
    omega

/-- It leaves the rest of the circle alone. -/
theorem blit_round_outside (cells : ℕ → α) {bs : List α} {i : ℕ} (hr : r < size)
    (hlow : bs.length ≤ i) (hi : i < size) :
    blit (blit cells r (bs.take (size - r))) 0 (bs.drop (size - r)) ((r + i) % size) =
      cells ((r + i) % size) := by
  rcases Nat.lt_or_ge (r + i) size with hend | hend
  · rw [Nat.mod_eq_of_lt hend, blit_outside (Or.inr (by rw [List.length_drop]; omega)),
      blit_outside (Or.inr (by rw [List.length_take]; omega))]
  · have hmod : (r + i) % size = r + i - size := by
      rw [Nat.mod_eq_sub_mod hend, Nat.mod_eq_of_lt (by omega)]
    rw [hmod, blit_outside (Or.inr (by rw [List.length_drop]; omega)),
      blit_outside (Or.inl (by omega))]

end RingWindow
