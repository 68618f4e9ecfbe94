import Mathlib.Data.List.Basic

/-! A queue with room for `cap` elements, as a user of it sees it. Writing drops what there
is no room for; reading more than there is empties it. -/

namespace BoundedQueue

@[ext] structure BQueue (α : Type) where
  cap : ℕ
  items : List α
  bound : items.length ≤ cap

variable {α : Type}

namespace BQueue

def room (q : BQueue α) : ℕ := q.cap - q.items.length

def push (q : BQueue α) (bs : List α) : BQueue α where
  cap := q.cap
  items := q.items ++ bs.take q.room
  bound := by
    have := q.bound
    simp only [room, List.length_append, List.length_take]
    omega

def pop (q : BQueue α) (n : ℕ) : BQueue α where
  cap := q.cap
  items := q.items.drop n
  bound := by
    have := q.bound
    simp only [List.length_drop]
    omega

def clear (q : BQueue α) : BQueue α := ⟨q.cap, [], Nat.zero_le _⟩

@[simp] theorem push_items (q : BQueue α) (bs : List α) :
    (q.push bs).items = q.items ++ bs.take q.room := rfl

@[simp] theorem pop_items (q : BQueue α) (n : ℕ) : (q.pop n).items = q.items.drop n := rfl

theorem push_room (q : BQueue α) (bs : List α) : (q.push bs).room = q.room - bs.length := by
  simp only [room, push, List.length_append, List.length_take]
  omega

/-- What is written in two parts is written as a whole, the second part in what room is left. -/
theorem push_push (q : BQueue α) (as bs : List α) : (q.push as).push bs = q.push (as ++ bs) := by
  ext1
  · rfl
  · rw [push_items, push_items, push_items, push_room, List.take_append, List.append_assoc]

theorem push_nil (q : BQueue α) : q.push [] = q := by
  ext1
  · rfl
  · rw [push_items, List.take_nil, List.append_nil]

/-- Nothing is lost by offering only as much as there is room for. -/
theorem push_take (q : BQueue α) {n : ℕ} (h : q.room ≤ n) (bs : List α) :
    q.push (bs.take n) = q.push bs := by
  ext1
  · rfl
  · rw [push_items, push_items, List.take_take, Nat.min_eq_left h]

theorem pop_pop (q : BQueue α) (m n : ℕ) : (q.pop m).pop n = q.pop (m + n) := by
  ext1
  · rfl
  · exact List.drop_drop

end BQueue

end BoundedQueue
