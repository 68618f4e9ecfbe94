import DetectorFirmware.Library.AtomicObject
import DetectorFirmware.Proofs.RingCalls

/-! The two parties see a queue that serves one call at a time. A write takes effect with the
store of `w` and a read with the store of `r`; a refused write with the load of `r`, a refused
read with the load of `w`. Only a call without its flag can do less than the queue would do at
that moment, as the other party may have gone on since the pointers were loaded. -/

namespace Detector

open EventLog BoundedQueue AtomicObject

/-! What a call may do. -/

/-- `since` is the queue when the call was made, `now` the one it finds. -/
inductive LwrbOp.Effect : LwrbOp → BQueue UInt8 → BQueue UInt8 → LwrbOut → BQueue UInt8 → Prop
  | exact (op : LwrbOp) (since now : BQueue UInt8) : Effect op since now (op.spec now).1 (op.spec now).2.1
  | less_write {data : List UInt8} {since now : BQueue UInt8} {n : ℕ} (hpos : 0 < n)
    (hlow : min since.room data.length ≤ n) (hhigh : n ≤ min now.room data.length) :
    Effect (.writeEx data false) since now (some n, []) (now.push (data.take n))
  | less_read {btr : ℕ} {since now : BQueue UInt8} {n : ℕ} (hpos : 0 < n)
    (hlow : min since.items.length btr ≤ n) (hhigh : n ≤ min now.items.length btr) :
    Effect (.readEx btr false) since now (some n, now.items.take n) (now.pop n)

variable {since now : BQueue UInt8} {flags : Bool}

/-- `bs` is what a write moves of its data. -/
theorem effect_write {data bs : List UInt8} (hbs : bs <+: data) (hpos : 0 < bs.length)
    (hlow : min since.room data.length ≤ bs.length) (hfit : bs.length ≤ now.room)
    (hall : flags = true → bs.length = data.length) :
    LwrbOp.Effect (.writeEx data flags) since now (some bs.length, []) (now.push bs) := by
  have hle := hbs.length_le
  cases flags with
  | false =>
    have hpush : LwrbOp.Effect (.writeEx data false) since now (some bs.length, [])
        (now.push (data.take bs.length)) := .less_write hpos hlow (Nat.le_min.mpr ⟨hfit, hle⟩)
    rwa [← List.prefix_iff_eq_take.mp hbs] at hpush
  | true =>
    obtain rfl : bs = data := hbs.eq_of_length (hall rfl)
    have hmin : min now.room bs.length = bs.length := Nat.min_eq_right hfit
    have hexact := LwrbOp.Effect.exact (.writeEx bs true) since now
    rwa [LwrbOp.spec, hmin, if_neg (by omega)] at hexact

theorem effect_read {btr n : ℕ} (hn : n ≤ btr) (hpos : 0 < n)
    (hlow : min since.items.length btr ≤ n) (hthere : n ≤ now.items.length)
    (hall : flags = true → n = btr) :
    LwrbOp.Effect (.readEx btr flags) since now (some n, now.items.take n) (now.pop n) := by
  cases flags with
  | false => exact .less_read hpos hlow (Nat.le_min.mpr ⟨hthere, hn⟩)
  | true =>
    obtain rfl : n = btr := hall rfl
    have hmin : min now.items.length n = n := Nat.min_eq_right hthere
    have hexact := LwrbOp.Effect.exact (.readEx n true) since now
    rwa [LwrbOp.spec, hmin, if_neg (by omega)] at hexact

/-- A call that is refused is refused by the queue as well. -/
theorem effect_write_refused {data : List UInt8}
    (h : data.length = 0 ∨ now.room = 0 ∨ (now.room < data.length ∧ flags)) :
    LwrbOp.Effect (.writeEx data flags) since now (none, []) now := by
  have hexact := LwrbOp.Effect.exact (.writeEx data flags) since now
  rwa [LwrbOp.spec, if_pos (refused_iff.mp h)] at hexact

theorem effect_read_refused {btr : ℕ}
    (h : btr = 0 ∨ now.items.length = 0 ∨ (now.items.length < btr ∧ flags)) :
    LwrbOp.Effect (.readEx btr flags) since now (none, []) now := by
  have hexact := LwrbOp.Effect.exact (.readEx btr flags) since now
  rwa [LwrbOp.spec, if_pos (refused_iff.mp h)] at hexact

/-! What can be seen of the two parties. -/

inductive LwrbParty where
  | producer
  | consumer
  deriving DecidableEq

abbrev LwrbEvent := Event LwrbParty LwrbOp LwrbOut

abbrev LwrbAtomic := Atomic LwrbParty LwrbOp LwrbOut (BQueue UInt8)

/-- The shared ring, with the calls and returns so far. -/
structure LwrbObserved where
  shared : LwrbShared
  history : List LwrbEvent

def Producer.calls (op : LwrbOp) : Producer → List LwrbEvent
  | idle => [.call .producer op]
  | _ => []

def Producer.returns (out : LwrbOut) : Producer → List LwrbEvent
  | idle => [.ret .producer out]
  | _ => []

def Consumer.calls (op : LwrbOp) : Consumer → List LwrbEvent
  | idle => [.call .consumer op]
  | _ => []

def Consumer.returns (out : LwrbOut) : Consumer → List LwrbEvent
  | idle => [.ret .consumer out]
  | _ => []

/-- A party that is idle before an access makes a call, and one that is idle after it has
returned, with what it has written or read if the return value is 1. -/
instance : System LwrbObserved LwrbAccess where
  step s access :=
    let shared := System.step s.shared access
    let events := match access with
      | .producer data flags =>
        let written := (shared.writes.drop s.shared.writes.length).head?
        s.shared.producer.calls (.writeEx data flags) ++
          shared.producer.returns (written.map List.length, [])
      | .consumer btr flags =>
        let taken := (shared.reads.drop s.shared.reads.length).head?
        s.shared.consumer.calls (.readEx btr flags) ++
          shared.consumer.returns (taken.map List.length, taken.getD [])
    ⟨shared, s.history ++ events⟩

/-! Each party and its call of the queue. -/

abbrev LwrbPhase := Phase LwrbOp LwrbOut (BQueue UInt8)

/-- A write that has at least the room there was when it was called. -/
def WriteCalled (phase : LwrbPhase) (data : List UInt8) (flags : Bool) (free : ℕ) : Prop :=
  ∃ since, phase = .called (.writeEx data flags) since ∧ data.length ≠ 0 ∧ since.room ≤ free

/-- A write that moves `bs`, at least as much as it would have moved when it was called. -/
def WriteGranted (phase : LwrbPhase) (bs : List UInt8) : Prop :=
  ∃ data flags since, phase = .called (.writeEx data flags) since ∧ bs <+: data ∧ 0 < bs.length ∧
    min since.room data.length ≤ bs.length ∧ (flags = true → bs.length = data.length)

def ReadCalled (phase : LwrbPhase) (btr : ℕ) (flags : Bool) (full : ℕ) : Prop :=
  ∃ since, phase = .called (.readEx btr flags) since ∧ btr ≠ 0 ∧ since.items.length ≤ full

def ReadGranted (phase : LwrbPhase) (n : ℕ) : Prop :=
  ∃ btr flags since, phase = .called (.readEx btr flags) since ∧ n ≤ btr ∧ 0 < n ∧
    min since.items.length btr ≤ n ∧ (flags = true → n = btr)

/-- A call that is not refused is granted what was promised to it. -/
theorem WriteCalled.granted {phase : LwrbPhase} {data : List UInt8} {free : ℕ}
    (h : WriteCalled phase data flags free) (hno : ¬ (free = 0 ∨ (free < data.length ∧ flags))) :
    WriteGranted phase (data.take (min free data.length)) := by
  obtain ⟨since, hphase, hne, hroom⟩ := h
  obtain ⟨hzero, hshort⟩ := not_or.mp hno
  have hlen : (data.take (min free data.length)).length = min free data.length := by
    rw [List.length_take]
    omega
  refine ⟨data, flags, since, hphase, List.take_prefix _ _, by omega, by omega, fun hflag => ?_⟩
  have hfits : ¬ free < data.length := fun hlt => hshort ⟨hlt, hflag⟩
  omega

theorem ReadCalled.granted {phase : LwrbPhase} {btr full : ℕ} (h : ReadCalled phase btr flags full)
    (hno : ¬ (full = 0 ∨ (full < btr ∧ flags))) : ReadGranted phase (min full btr) := by
  obtain ⟨since, hphase, hne, hitems⟩ := h
  obtain ⟨hzero, hshort⟩ := not_or.mp hno
  refine ⟨btr, flags, since, hphase, Nat.min_le_right _ _, by omega, by omega, fun hflag => ?_⟩
  have hthere : ¬ full < btr := fun hlt => hshort ⟨hlt, hflag⟩
  omega

def Producer.Follows (rb : Lwrb) (phase : LwrbPhase) : Producer → Prop
  | idle => phase = .idle
  | getFree data flags => WriteCalled phase data flags (lwrbGetFree rb)
  | loadedW data flags _ => WriteCalled phase data flags (lwrbGetFree rb)
  | granted bs => WriteGranted phase bs
  | copying bs _ _ => WriteGranted phase bs

def Consumer.Follows (rb : Lwrb) (phase : LwrbPhase) : Consumer → Prop
  | idle => phase = .idle
  | getFull btr flags => ReadCalled phase btr flags (lwrbGetFull rb)
  | loadedW btr flags w =>
      let full := lwrbFullOf rb.size w rb.r
      -- a read that is going to be refused has been so since it loaded `w`
      if full = 0 ∨ (full < btr ∧ flags) then phase = .done (none, [])
      else ReadCalled phase btr flags full
  | granted n => ReadGranted phase n
  | copying n _ _ => ReadGranted phase n

structure Followed (s : LwrbShared) (a : LwrbAtomic) : Prop where
  sound : Sound s
  queue : a.obj = s.rb.asQueue
  producer : s.producer.Follows s.rb (a.phase .producer)
  consumer : s.consumer.Follows s.rb (a.phase .consumer)

/-- Room that is made leaves what a write has been promised. -/
theorem Producer.Follows.of_free {p : Producer} {rb rb' : Lwrb} {phase : LwrbPhase}
    (h : p.Follows rb phase) (hfree : lwrbGetFree rb ≤ lwrbGetFree rb') : p.Follows rb' phase := by
  have hcalled {data : List UInt8} {flags : Bool} (h : WriteCalled phase data flags (lwrbGetFree rb)) :
      WriteCalled phase data flags (lwrbGetFree rb') := by
    obtain ⟨since, hphase, hne, hroom⟩ := h
    exact ⟨since, hphase, hne, Nat.le_trans hroom hfree⟩
  cases p with
  | idle => exact h
  | getFree data flags => exact hcalled h
  | loadedW data flags w => exact hcalled h
  | granted bs => exact h
  | copying bs ptr k => exact h

/-- Bytes that are added leave what a read has been promised. -/
theorem Consumer.Follows.of_full {c : Consumer} {rb rb' : Lwrb} {phase : LwrbPhase}
    (h : c.Follows rb phase) (hsize : rb'.size = rb.size) (hr : rb'.r = rb.r)
    (hfull : lwrbGetFull rb ≤ lwrbGetFull rb') : c.Follows rb' phase := by
  cases c with
  | idle => exact h
  | getFull btr flags =>
    obtain ⟨since, hphase, hne, hitems⟩ := h
    exact ⟨since, hphase, hne, Nat.le_trans hitems hfull⟩
  | loadedW btr flags w =>
    unfold Consumer.Follows at h ⊢
    rwa [hsize, hr]
  | granted n => exact h
  | copying n ptr data => exact h

/-! The producer's accesses. -/

/-- The consumer finds more bytes, and its pointer where it was. -/
theorem write_step_frame {s : LwrbShared} (h : Sound s) (data : List UInt8) (flags : Bool) :
    (lwrbWriteStep s data flags).consumer = s.consumer ∧
      (lwrbWriteStep s data flags).rb.size = s.rb.size ∧ (lwrbWriteStep s data flags).rb.r = s.rb.r ∧
      lwrbGetFull s.rb ≤ lwrbGetFull (lwrbWriteStep s data flags).rb := by
  have hp := h.producer
  unfold lwrbWriteStep
  split
  · split_ifs <;> exact ⟨rfl, rfl, rfl, Nat.le_refl _⟩
  · exact ⟨rfl, rfl, rfl, Nat.le_refl _⟩
  · dsimp only
    split_ifs <;> exact ⟨rfl, rfl, rfl, Nat.le_refl _⟩
  · exact ⟨rfl, rfl, rfl, Nat.le_refl _⟩
  · next data ptr k heq =>
    rw [heq] at hp
    obtain ⟨rfl, hlen, hk, hwin⟩ := hp
    dsimp only
    split_ifs with hmore
    · have hqueue := congrArg BQueue.items (copyByte_spec s.rb hlen hmore hwin).1
      refine ⟨rfl, rfl, rfl, ?_⟩
      rw [← Lwrb.queue_length, ← Lwrb.queue_length]
      exact (congrArg List.length hqueue).ge
    · obtain rfl : k = data.length := by omega
      rw [List.take_length] at hwin
      have hqueue := (publish_spec s.rb hlen hwin).1
      refine ⟨rfl, rfl, rfl, ?_⟩
      rw [← Lwrb.queue_length, ← Lwrb.queue_length, hqueue, List.length_append]
      exact Nat.le_add_right _ _

/-- `a'` follows a step of the producer from `s` to `s'`. -/
structure WriteFollowed (s s' : LwrbShared) (a a' : LwrbAtomic) (op : LwrbOp) : Prop where
  run : AtomicRun LwrbOp.Effect a a'
  queue : a'.obj = s'.rb.asQueue
  producer : s'.producer.Follows s'.rb (a'.phase .producer)
  consumer : a'.phase .consumer = a.phase .consumer
  history : a'.history = a.history ++ (s.producer.calls op ++
    s'.producer.returns (((s'.writes.drop s.writes.length).head?).map List.length, []))

section
variable {s : LwrbShared} {a : LwrbAtomic}

theorem Followed.room_eq (h : Followed s a) : a.obj.room = lwrbGetFree s.rb := by
  rw [h.queue, asQueue_room]

/-- A call is made, and returns at once if there is nothing to write. -/
theorem write_call_followed (h : Followed s a) (data : List UInt8) (flags : Bool)
    (hp : s.producer = .idle) :
    ∃ a', WriteFollowed s (lwrbWriteStep s data flags) a a' (.writeEx data flags) := by
  have hidle : a.phase .producer = .idle := by
    have hfollows := h.producer
    rw [hp] at hfollows
    exact hfollows
  have hother : LwrbParty.consumer ≠ .producer := LwrbParty.noConfusion
  by_cases hempty : data.length = 0
  · have hstep : lwrbWriteStep s data flags = s := by
      rw [lwrbWriteStep, hp]
      exact if_pos hempty
    have hrefused : LwrbOp.Effect (.writeEx data flags) a.obj a.obj (none, []) a.obj :=
      effect_write_refused (Or.inl hempty)
    rw [hstep]
    refine ⟨_, run_call_serve hidle hrefused, h.queue, ?_, ?_, ?_⟩
    · rw [hp]
      exact Atomic.serve_phase ..
    · rw [Atomic.serve_phase_of_ne hother, Atomic.call_phase_of_ne hother]
    · simp [hp, Producer.calls, Producer.returns]
  · rw [writeStep_idle hp hempty]
    refine ⟨_, .single (.call _ (.writeEx data flags) hidle), h.queue, ?_,
      Atomic.call_phase_of_ne hother _, ?_⟩
    · exact ⟨a.obj, a.call_phase .producer _, hempty, h.room_eq.le⟩
    · simp [hp, Producer.calls, Producer.returns]

theorem write_followed (h : Followed s a) (data : List UInt8) (flags : Bool) :
    ∃ a', WriteFollowed s (lwrbWriteStep s data flags) a a' (.writeEx data flags) := by
  have hsound := h.sound.producer
  have hfollows := h.producer
  have hother : LwrbParty.consumer ≠ .producer := LwrbParty.noConfusion
  cases hp : s.producer with
  | idle => exact write_call_followed h data flags hp
  | getFree data' flags' =>
    rw [hp] at hfollows
    rw [writeStep_getFree hp]
    exact ⟨a, .refl, h.queue, hfollows, rfl, by simp [hp, Producer.calls, Producer.returns]⟩
  | loadedW data' flags' w =>
    rw [hp] at hsound hfollows
    obtain rfl : w = s.rb.w := hsound
    by_cases hno : lwrbGetFree s.rb = 0 ∨ (lwrbGetFree s.rb < data'.length ∧ flags')
    · rw [writeStep_refused hp hno]
      obtain ⟨since, hcalled, -, -⟩ := hfollows
      have hrefused : LwrbOp.Effect (.writeEx data' flags') since a.obj (none, []) a.obj :=
        effect_write_refused (Or.inr (h.room_eq.symm ▸ hno))
      refine ⟨_, run_serve .producer hcalled hrefused, h.queue, ?_, ?_, ?_⟩
      · exact Atomic.serve_phase ..
      · exact Atomic.serve_phase_of_ne hother ..
      · simp [hp, Producer.calls, Producer.returns]
    · rw [writeStep_granted hp hno]
      have hgranted : WriteCalled (a.phase .producer) data' flags' (lwrbGetFree s.rb) := hfollows
      exact ⟨a, .refl, h.queue, hgranted.granted hno, rfl,
        by simp [hp, Producer.calls, Producer.returns]⟩
  | granted bs =>
    rw [hp] at hfollows
    rw [writeStep_load hp]
    exact ⟨a, .refl, h.queue, hfollows, rfl, by simp [hp, Producer.calls, Producer.returns]⟩
  | copying bs ptr k =>
    rw [hp] at hsound hfollows
    obtain ⟨rfl, hlen, hk, hwin⟩ := hsound
    rcases Nat.lt_or_eq_of_le hk with hmore | rfl
    · rw [writeStep_copy hp hmore]
      have hsame := (copyByte_spec s.rb hlen hmore hwin).1
      exact ⟨a, .refl, h.queue.trans hsame.symm, hfollows, rfl,
        by simp [hp, Producer.calls, Producer.returns]⟩
    · -- the store of `w`
      rw [writeStep_store hp]
      rw [List.take_length] at hwin
      obtain ⟨data', flags', since, hcalled, hbs, hpos, hlow, hall⟩ := hfollows
      have heffect := effect_write hbs hpos hlow (hlen.trans_eq h.room_eq.symm) hall
      refine ⟨_, run_serve .producer hcalled heffect, ?_, ?_, ?_, ?_⟩
      · rw [Atomic.serve_obj, h.queue]
        exact (publish_spec s.rb hlen hwin).2.symm
      · exact Atomic.serve_phase ..
      · exact Atomic.serve_phase_of_ne hother ..
      · simp [hp, Producer.calls, Producer.returns]

end

/-! The consumer's accesses. -/

/-- `a'` follows a step of the consumer from `s` to `s'`. -/
structure ReadFollowed (s s' : LwrbShared) (a a' : LwrbAtomic) (op : LwrbOp) : Prop where
  run : AtomicRun LwrbOp.Effect a a'
  queue : a'.obj = s'.rb.asQueue
  consumer : s'.consumer.Follows s'.rb (a'.phase .consumer)
  producer : a'.phase .producer = a.phase .producer
  history : a'.history = a.history ++ (s.consumer.calls op ++
    s'.consumer.returns (((s'.reads.drop s.reads.length).head?).map List.length,
      ((s'.reads.drop s.reads.length).head?).getD []))

section
variable {s : LwrbShared} {a : LwrbAtomic}

theorem Followed.items_eq (h : Followed s a) : a.obj.items.length = lwrbGetFull s.rb := by
  rw [h.queue, asQueue_items, Lwrb.queue_length]

/-- A call is made, and returns at once if there is nothing to read. -/
theorem read_call_followed (h : Followed s a) (btr : ℕ) (flags : Bool) (hc : s.consumer = .idle) :
    ∃ a', ReadFollowed s (lwrbReadStep s btr flags) a a' (.readEx btr flags) := by
  have hidle : a.phase .consumer = .idle := by
    have hfollows := h.consumer
    rw [hc] at hfollows
    exact hfollows
  have hother : LwrbParty.producer ≠ .consumer := LwrbParty.noConfusion
  by_cases hempty : btr = 0
  · have hstep : lwrbReadStep s btr flags = s := by
      rw [lwrbReadStep, hc]
      exact if_pos hempty
    have hrefused : LwrbOp.Effect (.readEx btr flags) a.obj a.obj (none, []) a.obj :=
      effect_read_refused (Or.inl hempty)
    rw [hstep]
    refine ⟨_, run_call_serve hidle hrefused, h.queue, ?_, ?_, ?_⟩
    · rw [hc]
      exact Atomic.serve_phase ..
    · rw [Atomic.serve_phase_of_ne hother, Atomic.call_phase_of_ne hother]
    · simp [hc, Consumer.calls, Consumer.returns]
  · rw [readStep_idle hc hempty]
    refine ⟨_, .single (.call _ (.readEx btr flags) hidle), h.queue, ?_,
      Atomic.call_phase_of_ne hother _, ?_⟩
    · exact ⟨a.obj, a.call_phase .consumer _, hempty, h.items_eq.le⟩
    · simp [hc, Consumer.calls, Consumer.returns]

/-- The load of `w` decides whether a read is refused, though the call goes on to the load of `r`. -/
theorem read_load_followed (h : Followed s a) (btr : ℕ) (flags : Bool) {btr' : ℕ} {flags' : Bool}
    (hc : s.consumer = .getFull btr' flags') :
    ∃ a', ReadFollowed s (lwrbReadStep s btr flags) a a' (.readEx btr flags) := by
  have hfollows := h.consumer
  rw [hc] at hfollows
  obtain ⟨since, hcalled, hne, hsince⟩ := hfollows
  have hloaded : lwrbFullOf s.rb.size s.rb.w s.rb.r = lwrbGetFull s.rb := by
    rw [← (lwrbGetFull_spec s.rb).2, lwrbFullOf_eq s.rb (Nat.le_refl _)]
  rw [readStep_getFull hc]
  by_cases hno : lwrbGetFull s.rb = 0 ∨ (lwrbGetFull s.rb < btr' ∧ flags')
  · have hrefused : LwrbOp.Effect (.readEx btr' flags') since a.obj (none, []) a.obj :=
      effect_read_refused (Or.inr (h.items_eq.symm ▸ hno))
    refine ⟨_, .single (.effect .consumer hcalled hrefused), h.queue, ?_, ?_, ?_⟩
    · rw [Consumer.Follows, hloaded, if_pos hno]
      exact Atomic.effect_phase ..
    · exact Atomic.effect_phase_of_ne LwrbParty.noConfusion ..
    · simp [hc, Consumer.calls, Consumer.returns]
  · refine ⟨a, .refl, h.queue, ?_, rfl, by simp [hc, Consumer.calls, Consumer.returns]⟩
    rw [Consumer.Follows, hloaded, if_neg hno]
    exact ⟨since, hcalled, hne, hsince⟩

theorem read_followed (h : Followed s a) (btr : ℕ) (flags : Bool) :
    ∃ a', ReadFollowed s (lwrbReadStep s btr flags) a a' (.readEx btr flags) := by
  have hsound := h.sound.consumer
  have hfollows := h.consumer
  have hother : LwrbParty.producer ≠ .consumer := LwrbParty.noConfusion
  cases hc : s.consumer with
  | idle => exact read_call_followed h btr flags hc
  | getFull btr' flags' => exact read_load_followed h btr flags hc
  | loadedW btr' flags' w =>
    have hstep : lwrbReadStep s btr flags = if lwrbFullOf s.rb.size w s.rb.r = 0 ∨
        (lwrbFullOf s.rb.size w s.rb.r < btr' ∧ flags') then { s with consumer := .idle }
        else { s with consumer := .granted (min (lwrbFullOf s.rb.size w s.rb.r) btr') } := by
      rw [lwrbReadStep, hc]
    rw [hc] at hfollows
    unfold Consumer.Follows at hfollows
    dsimp only at hfollows
    split_ifs at hfollows hstep with hno
    · have hret : AtomicStep LwrbOp.Effect a (a.ret .consumer (none, [])) := .ret _ hfollows
      rw [hstep]
      refine ⟨_, .single hret, h.queue, ?_, ?_, ?_⟩
      · exact Atomic.ret_phase ..
      · exact Atomic.ret_phase_of_ne hother ..
      · simp [hc, Consumer.calls, Consumer.returns]
    · rw [hstep]
      exact ⟨a, .refl, h.queue, hfollows.granted hno, rfl,
        by simp [hc, Consumer.calls, Consumer.returns]⟩
  | granted n =>
    rw [hc] at hfollows
    rw [readStep_load hc]
    exact ⟨a, .refl, h.queue, hfollows, rfl, by simp [hc, Consumer.calls, Consumer.returns]⟩
  | copying n ptr data =>
    rw [hc] at hsound hfollows
    obtain ⟨rfl, hn, hdata, htake⟩ := hsound
    rcases Nat.lt_or_eq_of_le hdata with hmore | rfl
    · rw [readStep_copy hc hmore]
      exact ⟨a, .refl, h.queue, hfollows, rfl, by simp [hc, Consumer.calls, Consumer.returns]⟩
    · -- the store of `r`
      rw [readStep_store hc]
      obtain ⟨btr', flags', since, hcalled, hbtr, hpos, hlow, hall⟩ := hfollows
      have hthere : data.length ≤ a.obj.items.length := by rwa [h.queue]
      have heffect := effect_read hbtr hpos hlow hthere hall
      have htaken : a.obj.items.take data.length = data := by rw [h.queue, asQueue_items, ← htake]
      rw [htaken] at heffect
      rw [Lwrb.queue_length] at hn
      refine ⟨_, run_serve .consumer hcalled heffect, ?_, ?_, ?_, ?_⟩
      · rw [Atomic.serve_obj, h.queue]
        exact (giveUp_spec s.rb hn).2.symm
      · exact Atomic.serve_phase ..
      · exact Atomic.serve_phase_of_ne hother ..
      · simp [hc, Consumer.calls, Consumer.returns]

end

/-! Runs. -/

theorem observed_step (s : LwrbObserved) (access : LwrbAccess) (a : LwrbAtomic)
    (h : Followed s.shared a ∧ a.history = s.history) :
    let s' : LwrbObserved := System.step s access
    ∃ a', AtomicRun LwrbOp.Effect a a' ∧ Followed s'.shared a' ∧ a'.history = s'.history := by
  obtain ⟨hfollowed, hhistory⟩ := h
  have hsound := (sound_step s.shared access hfollowed.sound).1
  cases access with
  | producer data flags =>
    obtain ⟨a', hrun, hqueue, hproducer, hconsumer, hseen⟩ := write_followed hfollowed data flags
    obtain ⟨hsame, hsize, hr, hfull⟩ := write_step_frame hfollowed.sound data flags
    refine ⟨a', hrun, ⟨hsound, hqueue, hproducer, ?_⟩, by rw [hseen, hhistory]; rfl⟩
    have hkept := hfollowed.consumer.of_full hsize hr hfull
    rw [← hsame, ← hconsumer] at hkept
    exact hkept
  | consumer btr flags =>
    obtain ⟨a', hrun, hqueue, hconsumer, hproducer, hseen⟩ := read_followed hfollowed btr flags
    obtain ⟨hsame, -, hfree⟩ := read_step_frame hfollowed.sound btr flags
    refine ⟨a', hrun, ⟨hsound, hqueue, ?_, hconsumer⟩, by rw [hseen, hhistory]; rfl⟩
    have hkept := hfollowed.producer.of_free hfree
    rw [← hsame, ← hproducer] at hkept
    exact hkept

/-- In whatever order the two parties make their accesses, the calls and what they return are
those of a queue that serves one call at a time. -/
theorem lwrb_linearizable (rb : Lwrb) (accesses : List LwrbAccess) :
    Linearizable LwrbOp.Effect rb.asQueue
      (replay (⟨lwrbShare rb, []⟩ : LwrbObserved) accesses).history := by
  have hstart : Followed (lwrbShare rb) (Atomic.start rb.asQueue) := ⟨sound_start rb, rfl, rfl, rfl⟩
  exact of_simulation (R := fun (s : LwrbObserved) a => Followed s.shared a ∧ a.history = s.history)
    (fun _ _ h => h.2) observed_step ⟨hstart, rfl⟩ accesses

end Detector
