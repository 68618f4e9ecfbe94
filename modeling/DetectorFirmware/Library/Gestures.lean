import Mathlib.Algebra.Order.Ring.Nat
import Mathlib.Data.List.Basic
import Mathlib.Tactic.SplitIfs

/-! Presses of a key that is sampled at a steady rate. A press is told by how many samples it
lasts: a short one, a long one and a hold are announced when they begin and when they end,
and presses that follow each other quickly are counted as clicks. The counters here have no
bound. -/

namespace Gestures

/-- Numbers of samples. The clicks of a series are closer together than a short press is long. -/
structure Times where
  interval : ℕ
  short : ℕ
  long : ℕ
  hold : ℕ
  interval_lt : interval + 1 < short
  short_lt : short < long
  long_lt : long < hold

/-- What is announced. -/
inductive Sign where
  | down
  | clicks (n : ℕ)
  | shortStart
  | shortUp
  | longStart
  | longUp
  | hold
  | holdUp
  deriving DecidableEq

/-- What is going on, with the samples since the last time the key went down and the clicks
counted so far. -/
inductive Phase where
  | up
  | down (t : ℕ)
  /-- Up, but the series of clicks may go on. -/
  | between (n t : ℕ)
  /-- Down again in a series. -/
  | again (n t : ℕ)

variable (T : Times)

/-- What begins with sample `t` of a press. -/
def startAt (t : ℕ) : Option Sign :=
  if t = T.hold then some .hold
  else if t = T.long then some .longStart
  else if t = T.short then some .shortStart
  else none

/-- What ends with a press of `t` samples; a shorter one is a click. -/
def endAt (t : ℕ) : Option Sign :=
  if T.hold ≤ t then some .holdUp
  else if T.long ≤ t then some .longUp
  else if T.short ≤ t then some .shortUp
  else none

/-- One sample. -/
def sample (p : Phase) (pressed : Bool) : Phase × Option Sign :=
  match p, pressed with
  | .up, true => (.down 0, some .down)
  | .up, false => (.up, none)
  | .down t, true => (.down (t + 1), startAt T (t + 1))
  | .down t, false => (if T.short ≤ t + 1 then .up else .between 1 (t + 1), endAt T (t + 1))
  | .between n _, true => (.again n 0, none)
  | .between n t, false =>
    if T.interval < t + 1 then (.up, some (.clicks n)) else (.between n (t + 1), none)
  | .again n t, true =>
    if T.interval < t + 1 then (.down 0, some (.clicks n)) else (.again n (t + 1), none)
  | .again n t, false => (.between (n + 1) (t + 1), none)

/-- The phase after some samples and the signs they gave. -/
def run : Phase → List Bool → Phase × List Sign
  | p, [] => (p, [])
  | p, pressed :: rest =>
    let (p', sign) := sample T p pressed
    let r := run p' rest
    (r.1, sign.toList ++ r.2)

theorem run_append (p : Phase) (xs ys : List Bool) :
    run T p (xs ++ ys) =
      ((run T (run T p xs).1 ys).1, (run T p xs).2 ++ (run T (run T p xs).1 ys).2) := by
  induction xs generalizing p with
  | nil => rfl
  | cons x xs ih => simp only [List.cons_append, run, ih, List.append_assoc]

/-! One press. -/

/-- What a press has announced by its sample `t`. -/
def begun (t : ℕ) : List Sign :=
  (if T.short ≤ t then [.shortStart] else []) ++ (if T.long ≤ t then [.longStart] else []) ++
    (if T.hold ≤ t then [.hold] else [])

theorem begun_succ (t : ℕ) : begun T (t + 1) = begun T t ++ (startAt T (t + 1)).toList := by
  have := T.interval_lt
  have := T.short_lt
  have := T.long_lt
  unfold begun startAt
  split_ifs <;> first | omega | rfl

theorem run_pressed (d : ℕ) :
    run T .up (List.replicate (d + 1) true) = (.down d, .down :: begun T d) := by
  induction d with
  | zero =>
    have := T.interval_lt
    have := T.short_lt
    have := T.long_lt
    rw [begun, if_neg (by omega), if_neg (by omega), if_neg (by omega)]
    rfl
  | succ d ih =>
    rw [List.replicate_succ', run_append, ih, begun_succ]
    simp [run, sample]

/-- A press of `d` samples that is no click: everything it reached begins once, and one sign
ends it. -/
theorem run_press {d : ℕ} (hd : T.short ≤ d) :
    run T .up (List.replicate d true ++ [false]) =
      (.up, .down :: begun T (d - 1) ++ (endAt T d).toList) := by
  have := T.interval_lt
  obtain ⟨k, rfl⟩ : ∃ k, d = k + 1 := ⟨d - 1, by omega⟩
  rw [run_append, run_pressed, Nat.add_sub_cancel]
  simp [run, sample, hd]

/-! Clicks. -/

/-- Samples without the key, not yet enough to end a series. -/
theorem run_waiting (n t k : ℕ) (h : t + k ≤ T.interval) :
    run T (.between n t) (List.replicate k false) = (.between n (t + k), []) := by
  induction k with
  | zero => rfl
  | succ k ih =>
    rw [List.replicate_succ', run_append, ih (by omega)]
    simp only [run, sample]
    rw [if_neg (by omega)]
    rfl

theorem run_pressed_again (n d : ℕ) (h : d ≤ T.interval) :
    run T (.again n 0) (List.replicate d true) = (.again n d, []) := by
  induction d with
  | zero => rfl
  | succ d ih =>
    rw [List.replicate_succ', run_append, ih (by omega)]
    simp only [run, sample]
    rw [if_neg (by omega)]
    rfl

theorem run_idle (k : ℕ) : run T .up (List.replicate k false) = (.up, []) := by
  induction k with
  | zero => rfl
  | succ k ih => rw [List.replicate_succ', run_append, ih]; rfl

/-- The end of a series: the clicks are announced, however long the key stays up. -/
theorem run_series_end (n t k : ℕ) (h : T.interval < t + (k + 1)) :
    run T (.between n t) (List.replicate (k + 1) false) = (.up, [.clicks n]) := by
  induction k generalizing t with
  | zero =>
    simp only [Nat.zero_add, List.replicate_one, run, sample]
    rw [if_pos (by omega)]
    rfl
  | succ k ih =>
    rw [List.replicate_succ, run, sample]
    split_ifs with hend
    · simp only [run_idle]
      rfl
    · simp only [ih (t + 1) (by omega)]
      rfl

/-- A press and the pause after it, in samples. -/
structure Click where
  pressed : ℕ
  pause : ℕ

def Click.samples (c : Click) : List Bool := List.replicate c.pressed true ++ List.replicate c.pause false

/-- Quick enough for the next press to belong to the same series. -/
def Click.Quick (c : Click) : Prop := 0 < c.pressed ∧ 0 < c.pause ∧ c.pressed + c.pause ≤ T.interval + 1

/-- The key goes down and up once, out of a series or to begin one. -/
theorem run_click_up {d : ℕ} (hd : d ≤ T.interval) :
    run T .up (List.replicate (d + 1) true ++ [false]) = (.between 1 (d + 1), [.down]) := by
  have := T.interval_lt
  have := T.short_lt
  have := T.long_lt
  have hbegun : begun T d = [] := by
    rw [begun, if_neg (by omega), if_neg (by omega), if_neg (by omega)]
    rfl
  have hend : endAt T (d + 1) = none := by
    rw [endAt, if_neg (by omega), if_neg (by omega), if_neg (by omega)]
  rw [run_append, run_pressed, hbegun]
  simp only [run, sample, hend]
  rw [if_neg (by omega)]
  rfl

theorem run_click_between {d : ℕ} (hd : d ≤ T.interval) (n t : ℕ) :
    run T (.between n t) (List.replicate (d + 1) true ++ [false]) = (.between (n + 1) (d + 1), []) := by
  rw [List.replicate_succ, List.cons_append, run, sample]
  simp only [run_append, run_pressed_again T n d hd]
  rfl

/-- The phases in which a series of `n` clicks may go on. -/
def InSeries (n : ℕ) (p : Phase) : Prop :=
  (n = 0 ∧ p = .up) ∨ (0 < n ∧ ∃ t, p = .between n t)

/-- What the first press of a series announces. -/
def opening (n : ℕ) : List Sign := if n = 0 then [.down] else []

theorem run_click {n d : ℕ} {p : Phase} (hp : InSeries n p) (hd : d ≤ T.interval) :
    run T p (List.replicate (d + 1) true ++ [false]) = (.between (n + 1) (d + 1), opening n) := by
  rcases hp with ⟨rfl, rfl⟩ | ⟨hn, t, rfl⟩
  · exact run_click_up T hd
  · rw [run_click_between T hd, opening, if_neg (Nat.ne_of_gt hn)]

/-- A quick click keeps the series open. -/
theorem run_quick {n : ℕ} {p : Phase} (hp : InSeries n p) {c : Click} (hc : c.Quick T) :
    ∃ p', run T p c.samples = (p', opening n) ∧ InSeries (n + 1) p' := by
  obtain ⟨pressed, pause⟩ := c
  obtain ⟨hpressed, hpause, hsum⟩ : 0 < pressed ∧ 0 < pause ∧ pressed + pause ≤ T.interval + 1 := hc
  obtain ⟨d, rfl⟩ : ∃ d, pressed = d + 1 := ⟨pressed - 1, by omega⟩
  obtain ⟨k, rfl⟩ : ∃ k, pause = k + 1 := ⟨pause - 1, by omega⟩
  have hsplit : Click.samples ⟨d + 1, k + 1⟩ =
      (List.replicate (d + 1) true ++ [false]) ++ List.replicate k false := by
    rw [Click.samples, List.replicate_succ (n := k), List.append_assoc, List.singleton_append]
  refine ⟨.between (n + 1) (d + 1 + k), ?_, Or.inr ⟨Nat.succ_pos n, _, rfl⟩⟩
  rw [hsplit, run_append, run_click T hp (by omega), run_waiting T _ _ _ (by omega), List.append_nil]

theorem run_quicks {n : ℕ} {p : Phase} (hp : InSeries n p) {cs : List Click}
    (hcs : ∀ c ∈ cs, c.Quick T) :
    ∃ p', run T p (cs.flatMap Click.samples) = (p', if cs = [] then [] else opening n) ∧
      InSeries (n + cs.length) p' := by
  induction cs generalizing n p with
  | nil => exact ⟨p, rfl, hp⟩
  | cons c cs ih =>
    obtain ⟨p₁, hrun₁, hp₁⟩ := run_quick T hp (hcs c List.mem_cons_self)
    obtain ⟨p₂, hrun₂, hp₂⟩ := ih hp₁ fun c' hc' => hcs c' (List.mem_cons_of_mem c hc')
    have hquiet : (if cs = [] then [] else opening (n + 1)) = ([] : List Sign) := by
      rw [opening, if_neg (Nat.succ_ne_zero n), ite_self]
    refine ⟨p₂, ?_, by rwa [List.length_cons, Nat.add_comm cs.length, ← Nat.add_assoc]⟩
    rw [List.flatMap_cons, run_append, hrun₁, hrun₂, hquiet, if_neg (List.cons_ne_nil c cs),
      List.append_nil]

/-- A series of quick clicks, the last of them followed by a longer pause: one sign when the
key first goes down, and one with the number of clicks. -/
theorem run_clicks {cs : List Click} (hcs : ∀ c ∈ cs, c.Quick T) {pressed pause : ℕ}
    (hpressed : 0 < pressed) (hle : pressed ≤ T.interval + 1) (hpause : 2 ≤ pause)
    (hend : T.interval + 1 < pressed + pause) :
    run T .up (cs.flatMap Click.samples ++ Click.samples ⟨pressed, pause⟩) =
      (.up, [.down, .clicks (cs.length + 1)]) := by
  obtain ⟨p, hrun, hp⟩ := run_quicks T (n := 0) (Or.inl ⟨rfl, rfl⟩) hcs
  rw [Nat.zero_add] at hp
  obtain ⟨d, rfl⟩ : ∃ d, pressed = d + 1 := ⟨pressed - 1, by omega⟩
  obtain ⟨k, rfl⟩ : ∃ k, pause = k + 1 + 1 := ⟨pause - 2, by omega⟩
  have hsplit : Click.samples ⟨d + 1, k + 1 + 1⟩ =
      (List.replicate (d + 1) true ++ [false]) ++ List.replicate (k + 1) false := by
    rw [Click.samples, List.replicate_succ (n := k + 1), List.append_assoc, List.singleton_append]
  rw [run_append, hrun, hsplit, run_append, run_click T hp (by omega), run_series_end T _ _ k (by omega)]
  cases cs with
  | nil => rfl
  | cons c cs => rfl

/-! Counting with a bound. -/

def Phase.clicks : Phase → ℕ
  | .up => 0
  | .down _ => 0
  | .between n _ => n
  | .again n _ => n

/-- In every phase that the samples meet, fewer than `m` clicks are counted. -/
def FewClicks (m : ℕ) : Phase → List Bool → Prop
  | _, [] => True
  | p, pressed :: rest => p.clicks < m ∧ FewClicks m (sample T p pressed).1 rest

theorem fewClicks_append {m : ℕ} {p : Phase} {xs ys : List Bool} (hx : FewClicks T m p xs)
    (hy : FewClicks T m (run T p xs).1 ys) : FewClicks T m p (xs ++ ys) := by
  induction xs generalizing p with
  | nil => exact hy
  | cons x xs ih => exact ⟨hx.1, ih hx.2 hy⟩

/-- A key that is down adds no click. -/
theorem clicks_sample_pressed (p : Phase) : (sample T p true).1.clicks ≤ p.clicks := by
  cases p with
  | up => exact Nat.le_refl _
  | down t => exact Nat.le_refl _
  | between n t => exact Nat.le_refl _
  | again n t =>
    rw [sample]
    split_ifs
    · exact Nat.zero_le _
    · exact Nat.le_refl _

theorem clicks_run_pressed (p : Phase) (k : ℕ) :
    (run T p (List.replicate k true)).1.clicks ≤ p.clicks := by
  induction k with
  | zero => exact Nat.le_refl _
  | succ k ih =>
    rw [List.replicate_succ', run_append]
    exact Nat.le_trans (clicks_sample_pressed T _) ih

theorem fewClicks_pressed {m : ℕ} {p : Phase} (hp : p.clicks < m) (k : ℕ) :
    FewClicks T m p (List.replicate k true) := by
  induction k generalizing p with
  | zero => trivial
  | succ k ih => exact ⟨hp, ih (Nat.lt_of_le_of_lt (clicks_sample_pressed T p) hp)⟩

/-- Nor does one that stays up. -/
theorem fewClicks_waiting {m n : ℕ} {p : Phase} (hp : InSeries n p) (hn : n < m) (k : ℕ) :
    FewClicks T m p (List.replicate k false) := by
  induction k generalizing n p with
  | zero => trivial
  | succ k ih =>
    rcases hp with ⟨rfl, rfl⟩ | ⟨hpos, t, rfl⟩
    · exact ⟨hn, ih (Or.inl ⟨rfl, rfl⟩) hn⟩
    · refine ⟨hn, ?_⟩
      rw [sample]
      split_ifs
      · exact ih (Or.inl ⟨rfl, rfl⟩) (Nat.zero_lt_of_lt hn)
      · exact ih (Or.inr ⟨hpos, t + 1, rfl⟩) hn

theorem InSeries.clicks_eq {n : ℕ} {p : Phase} (hp : InSeries n p) : p.clicks = n := by
  rcases hp with ⟨rfl, rfl⟩ | ⟨-, t, rfl⟩ <;> rfl

theorem fewClicks_click {m n : ℕ} {p : Phase} (hp : InSeries n p) (hn : n + 1 < m) {c : Click}
    (hpressed : 0 < c.pressed) (hle : c.pressed ≤ T.interval + 1) : FewClicks T m p c.samples := by
  obtain ⟨d, hd⟩ : ∃ d, c.pressed = d + 1 := ⟨c.pressed - 1, by omega⟩
  rw [Click.samples, hd]
  cases hk : c.pause with
  | zero =>
    rw [List.replicate_zero, List.append_nil]
    exact fewClicks_pressed T (by rw [hp.clicks_eq]; omega) _
  | succ k =>
    have hrun := run_click T hp (show d ≤ T.interval by omega)
    have hbefore : p.clicks < m := by rw [hp.clicks_eq]; omega
    have hlast := Nat.lt_of_le_of_lt (clicks_run_pressed T p (d + 1)) hbefore
    refine fewClicks_append T (fewClicks_pressed T hbefore _) ⟨hlast, ?_⟩
    have hreleased : (sample T (run T p (List.replicate (d + 1) true)).1 false).1 =
        .between (n + 1) (d + 1) := by
      rw [run_append] at hrun
      exact congrArg Prod.fst hrun
    rw [hreleased]
    exact fewClicks_waiting T (Or.inr ⟨Nat.succ_pos n, _, rfl⟩) hn k

theorem fewClicks_quicks {m n : ℕ} {p : Phase} (hp : InSeries n p) {cs : List Click}
    (hcs : ∀ c ∈ cs, c.Quick T) (hn : n + cs.length < m) : FewClicks T m p (cs.flatMap Click.samples) := by
  induction cs generalizing n p with
  | nil => trivial
  | cons c cs ih =>
    rw [List.length_cons] at hn
    have hc := hcs c List.mem_cons_self
    obtain ⟨p', hrun, hp'⟩ := run_quick T hp hc
    rw [List.flatMap_cons]
    refine fewClicks_append T (fewClicks_click T hp (by omega) hc.1 (by have := hc.2; omega)) ?_
    rw [hrun]
    exact ih hp' (fun c' hc' => hcs c' (List.mem_cons_of_mem c hc')) (by omega)

/-- The samples of a series count as many clicks as it has. -/
theorem fewClicks_clicks {m : ℕ} {cs : List Click} (hcs : ∀ c ∈ cs, c.Quick T) {c : Click}
    (hpressed : 0 < c.pressed) (hle : c.pressed ≤ T.interval + 1) (hm : cs.length + 1 < m) :
    FewClicks T m .up (cs.flatMap Click.samples ++ c.samples) := by
  obtain ⟨p, hrun, hp⟩ := run_quicks T (n := 0) (Or.inl ⟨rfl, rfl⟩) hcs
  refine fewClicks_append T (fewClicks_quicks T (Or.inl ⟨rfl, rfl⟩) hcs (by omega)) ?_
  rw [hrun]
  exact fewClicks_click T hp (by omega) hpressed hle

/-! The order of the signs, for any samples. -/

/-- Which sign may come next. A press that is let go just when a stage would begin ends in
that stage without having begun it. -/
def Follows : Sign → Sign → Prop
  | .down, s => s = .shortStart ∨ s = .shortUp ∨ ∃ n > 0, s = .clicks n
  | .clicks _, s => s = .down ∨ s = .shortStart ∨ s = .shortUp ∨ ∃ n > 0, s = .clicks n
  | .shortStart, s => s = .longStart ∨ s = .longUp ∨ s = .shortUp
  | .longStart, s => s = .hold ∨ s = .holdUp ∨ s = .longUp
  | .hold, s => s = .holdUp
  | .shortUp, s => s = .down
  | .longUp, s => s = .down
  | .holdUp, s => s = .down

/-- The sign that was given last, as far as the phase tells it. -/
def After : Phase → Sign → Prop
  | .up, s => s = .shortUp ∨ s = .longUp ∨ s = .holdUp ∨ ∃ n, s = .clicks n
  | .down t, s =>
    if T.hold ≤ t then s = .hold
    else if T.long ≤ t then s = .longStart
    else if T.short ≤ t then s = .shortStart
    else s = .down ∨ ∃ n, s = .clicks n
  | .between n _, s => 0 < n ∧ (s = .down ∨ ∃ n, s = .clicks n)
  | .again n _, s => 0 < n ∧ (s = .down ∨ ∃ n, s = .clicks n)

section
variable {T} {t : ℕ} {s : Sign}

theorem after_fresh (h : t < T.short) : After T (.down t) s ↔ s = .down ∨ ∃ n, s = .clicks n := by
  have := T.short_lt
  have := T.long_lt
  rw [After, if_neg (by omega), if_neg (by omega), if_neg (by omega)]

theorem after_short (h : T.short ≤ t) (h' : t < T.long) : After T (.down t) s ↔ s = .shortStart := by
  have := T.long_lt
  rw [After, if_neg (by omega), if_neg (by omega), if_pos h]

theorem after_long (h : T.long ≤ t) (h' : t < T.hold) : After T (.down t) s ↔ s = .longStart := by
  rw [After, if_neg (by omega), if_pos h]

theorem after_hold (h : T.hold ≤ t) : After T (.down t) s ↔ s = .hold := by
  rw [After, if_pos h]

/-- Only at its three moments does a stage begin. -/
theorem startAt_none (h : t ≠ T.short) (h' : t ≠ T.long) (h'' : t ≠ T.hold) : startAt T t = none := by
  rw [startAt, if_neg h'', if_neg h', if_neg h]

theorem startAt_short : startAt T T.short = some .shortStart := by
  have := T.short_lt
  have := T.long_lt
  rw [startAt, if_neg (by omega), if_neg (by omega), if_pos rfl]

theorem startAt_long : startAt T T.long = some .longStart := by
  have := T.long_lt
  rw [startAt, if_neg (by omega), if_pos rfl]

theorem startAt_hold : startAt T T.hold = some .hold := if_pos rfl

/-- A sign that ends a press, or counts a series, leaves the key up. -/
theorem after_down_or_clicks {last : Sign} (h : last = .down ∨ ∃ n, last = .clicks n) {n : ℕ}
    (hn : 0 < n) : Follows last (.clicks n) ∧ Follows last .shortStart ∧ Follows last .shortUp := by
  rcases h with rfl | ⟨m, rfl⟩
  · exact ⟨Or.inr (Or.inr ⟨n, hn, rfl⟩), Or.inl rfl, Or.inr (Or.inl rfl)⟩
  · exact ⟨Or.inr (Or.inr (Or.inr ⟨n, hn, rfl⟩)), Or.inr (Or.inl rfl), Or.inr (Or.inr (Or.inl rfl))⟩

end

/-- What one sample keeps: it gives no sign, or one that may come next. -/
def Ordered (last : Sign) (r : Phase × Option Sign) : Prop :=
  (r.2 = none ∧ After T r.1 last) ∨ ∃ s, r.2 = some s ∧ Follows last s ∧ After T r.1 s

theorem ordered_pressed {t : ℕ} {last : Sign} (h : After T (.down t) last) :
    Ordered T last (sample T (.down t) true) := by
  have hshort := T.short_lt
  have hlong := T.long_lt
  rw [sample]
  rcases Nat.lt_or_ge t T.short with h1 | h1
  · rw [after_fresh h1] at h
    rcases Nat.lt_or_eq_of_le (Nat.succ_le_of_lt h1) with h2 | h2
    · have hnone := startAt_none (T := T) (t := t + 1) (by omega) (by omega) (by omega)
      exact Or.inl ⟨hnone, (after_fresh h2).mpr h⟩
    · rw [show t + 1 = T.short from h2]
      refine Or.inr ⟨_, startAt_short, (after_down_or_clicks h Nat.one_pos).2.1, ?_⟩
      exact (after_short (Nat.le_refl _) hshort).mpr rfl
  · rcases Nat.lt_or_ge t T.long with h2 | h2
    · obtain rfl := (after_short h1 h2).mp h
      rcases Nat.lt_or_eq_of_le (Nat.succ_le_of_lt h2) with h3 | h3
      · have hnone := startAt_none (T := T) (t := t + 1) (by omega) (by omega) (by omega)
        exact Or.inl ⟨hnone, (after_short (by omega) h3).mpr rfl⟩
      · rw [show t + 1 = T.long from h3]
        exact Or.inr ⟨_, startAt_long, Or.inl rfl, (after_long (Nat.le_refl _) hlong).mpr rfl⟩
    · rcases Nat.lt_or_ge t T.hold with h3 | h3
      · obtain rfl := (after_long h2 h3).mp h
        rcases Nat.lt_or_eq_of_le (Nat.succ_le_of_lt h3) with h4 | h4
        · have hnone := startAt_none (T := T) (t := t + 1) (by omega) (by omega) (by omega)
          exact Or.inl ⟨hnone, (after_long (by omega) h4).mpr rfl⟩
        · rw [show t + 1 = T.hold from h4]
          exact Or.inr ⟨_, startAt_hold, Or.inl rfl, (after_hold (Nat.le_refl _)).mpr rfl⟩
      · obtain rfl := (after_hold h3).mp h
        have hnone := startAt_none (T := T) (t := t + 1) (by omega) (by omega) (by omega)
        exact Or.inl ⟨hnone, (after_hold (by omega)).mpr rfl⟩

theorem ordered_released {t : ℕ} {last : Sign} (h : After T (.down t) last) :
    Ordered T last (sample T (.down t) false) := by
  have hshort := T.short_lt
  have hlong := T.long_lt
  rw [sample]
  rcases Nat.lt_or_ge (t + 1) T.short with h1 | h1
  · have hend : endAt T (t + 1) = none := by
      rw [endAt, if_neg (by omega), if_neg (by omega), if_neg (by omega)]
    rw [if_neg (by omega)]
    exact Or.inl ⟨hend, Nat.one_pos, (after_fresh (by omega)).mp h⟩
  · rw [if_pos h1]
    rcases Nat.lt_or_ge (t + 1) T.long with h2 | h2
    · have hend : endAt T (t + 1) = some .shortUp := by
        rw [endAt, if_neg (by omega), if_neg (by omega), if_pos h1]
      refine Or.inr ⟨_, hend, ?_, Or.inl rfl⟩
      rcases Nat.lt_or_ge t T.short with h3 | h3
      · exact (after_down_or_clicks ((after_fresh h3).mp h) Nat.one_pos).2.2
      · obtain rfl := (after_short h3 (by omega)).mp h
        exact Or.inr (Or.inr rfl)
    · rcases Nat.lt_or_ge (t + 1) T.hold with h3 | h3
      · have hend : endAt T (t + 1) = some .longUp := by
          rw [endAt, if_neg (by omega), if_pos h2]
        refine Or.inr ⟨_, hend, ?_, Or.inr (Or.inl rfl)⟩
        rcases Nat.lt_or_ge t T.long with h4 | h4
        · obtain rfl := (after_short (by omega) h4).mp h
          exact Or.inr (Or.inl rfl)
        · obtain rfl := (after_long h4 (by omega)).mp h
          exact Or.inr (Or.inr rfl)
      · have hend : endAt T (t + 1) = some .holdUp := if_pos h3
        refine Or.inr ⟨_, hend, ?_, Or.inr (Or.inr (Or.inl rfl))⟩
        rcases Nat.lt_or_ge t T.hold with h4 | h4
        · obtain rfl := (after_long (by omega) h4).mp h
          exact Or.inr (Or.inl rfl)
        · obtain rfl := (after_hold h4).mp h
          rfl

theorem ordered_sample {p : Phase} {last : Sign} (h : After T p last) (pressed : Bool) :
    Ordered T last (sample T p pressed) := by
  have hfirst := T.interval_lt
  cases p with
  | up =>
    cases pressed with
    | false => exact Or.inl ⟨rfl, h⟩
    | true =>
      refine Or.inr ⟨.down, rfl, ?_, (after_fresh (by omega)).mpr (Or.inl rfl)⟩
      rcases h with rfl | rfl | rfl | ⟨n, rfl⟩
      · rfl
      · rfl
      · rfl
      · exact Or.inl rfl
  | down t =>
    cases pressed with
    | false => exact ordered_released T h
    | true => exact ordered_pressed T h
  | between n t =>
    obtain ⟨hn, hlast⟩ := h
    cases pressed with
    | true => exact Or.inl ⟨rfl, hn, hlast⟩
    | false =>
      rw [sample]
      split_ifs
      · exact Or.inr ⟨_, rfl, (after_down_or_clicks hlast hn).1, Or.inr (Or.inr (Or.inr ⟨n, rfl⟩))⟩
      · exact Or.inl ⟨rfl, hn, hlast⟩
  | again n t =>
    obtain ⟨hn, hlast⟩ := h
    cases pressed with
    | false => exact Or.inl ⟨rfl, Nat.succ_pos n, hlast⟩
    | true =>
      rw [sample]
      split_ifs
      · exact Or.inr ⟨_, rfl, (after_down_or_clicks hlast hn).1,
          (after_fresh (by omega)).mpr (Or.inr ⟨n, rfl⟩)⟩
      · exact Or.inl ⟨rfl, hn, hlast⟩

/-- The signs of a run come in order. -/
theorem run_ordered {p : Phase} {last : Sign} (h : After T p last) (samples : List Bool) :
    List.IsChain Follows (last :: (run T p samples).2) := by
  induction samples generalizing p last with
  | nil => exact List.IsChain.singleton _
  | cons pressed rest ih =>
    rw [run]
    rcases ordered_sample T h pressed with ⟨hnone, hafter⟩ | ⟨s, hsome, hfollows, hafter⟩
    · simp only [hnone]
      exact ih hafter
    · simp only [hsome]
      exact List.IsChain.cons_cons hfollows (ih hafter)

/-! Every press ends. -/

def Phase.pressed : Phase → Bool
  | .up => false
  | .down _ => true
  | .between _ _ => false
  | .again _ _ => true

/-- How often the key goes down. -/
def presses : Bool → List Bool → ℕ
  | _, [] => 0
  | before, pressed :: rest => (if pressed ∧ ¬ before then 1 else 0) + presses pressed rest

/-- The presses that end with a sign. -/
def Sign.ended : Sign → ℕ
  | .clicks n => n
  | .shortUp | .longUp | .holdUp => 1
  | .down | .shortStart | .longStart | .hold => 0

/-- The presses that have begun and of which no sign has told the end. -/
def Phase.pending : Phase → ℕ
  | .up => 0
  | .down _ => 1
  | .between n _ => n
  | .again n _ => n + 1

theorem ended_startAt {t : ℕ} {s : Sign} (h : startAt T t = some s) : s.ended = 0 := by
  unfold startAt at h
  split_ifs at h <;> (cases h; rfl)

theorem ended_endAt {t : ℕ} (h : T.short ≤ t) : ((endAt T t).map Sign.ended).toList.sum = 1 := by
  unfold endAt
  split_ifs <;> rfl

theorem pressed_sample (p : Phase) (pressed : Bool) : (sample T p pressed).1.pressed = pressed := by
  cases p with
  | up => cases pressed <;> rfl
  | down t =>
    cases pressed with
    | true => rfl
    | false => rw [sample]; split_ifs <;> rfl
  | between n t =>
    cases pressed with
    | true => rfl
    | false => rw [sample]; split_ifs <;> rfl
  | again n t =>
    cases pressed with
    | true => rw [sample]; split_ifs <;> rfl
    | false => rfl

/-- A press that begins is pending, and what is pending ends once. -/
theorem pending_sample (p : Phase) (pressed : Bool) :
    p.pending + (if pressed ∧ ¬ p.pressed then 1 else 0) =
      ((sample T p pressed).2.map Sign.ended).toList.sum + (sample T p pressed).1.pending := by
  have hshort := T.short_lt
  have hlong := T.long_lt
  cases p with
  | up => cases pressed <;> rfl
  | down t =>
    cases pressed with
    | true =>
      cases hs : startAt T (t + 1) with
      | none => simp [sample, hs, Phase.pending, Phase.pressed]
      | some s => simp [sample, hs, ended_startAt T hs, Phase.pending, Phase.pressed]
    | false =>
      by_cases h : T.short ≤ t + 1
      · simp [sample, h, ended_endAt T h, Phase.pending]
      · have hend : endAt T (t + 1) = none := by
          rw [endAt, if_neg (by omega), if_neg (by omega), if_neg h]
        simp [sample, h, hend, Phase.pending]
  | between n t =>
    cases pressed with
    | true => simp [sample, Phase.pending, Phase.pressed]
    | false => by_cases h : T.interval < t + 1 <;> simp [sample, h, Phase.pending, Sign.ended]
  | again n t =>
    cases pressed with
    | true =>
      by_cases h : T.interval < t + 1 <;> simp [sample, h, Phase.pending, Phase.pressed, Sign.ended]
    | false => simp [sample, Phase.pending]

/-- Every press of a run has ended with one sign, or is pending. -/
theorem run_ended (p : Phase) (samples : List Bool) :
    p.pending + presses p.pressed samples =
      ((run T p samples).2.map Sign.ended).sum + (run T p samples).1.pending := by
  induction samples generalizing p with
  | nil => simp [run, presses]
  | cons pressed rest ih =>
    have hone := pending_sample T p pressed
    have hrest := ih (sample T p pressed).1
    rw [pressed_sample] at hrest
    simp only [run, presses, List.map_append, List.sum_append]
    have hsigns : ((sample T p pressed).2.toList.map Sign.ended).sum =
        ((sample T p pressed).2.map Sign.ended).toList.sum := by
      cases (sample T p pressed).2 <;> rfl
    omega

end Gestures
