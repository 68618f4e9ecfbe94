import DetectorFirmware.Library.BoundedQueue
import DetectorFirmware.Model.Ring
import DetectorFirmware.Proofs.HandOver

/-! The ring of `lwrb.c` is a bounded queue: each call does to the bytes in it what a queue
would do, returns what a queue would return and reports it to `evt_fn`. The linear blocks
are the queue in at most two pieces, and the search finds the first occurrence. -/

namespace Detector

open EventLog RingWindow BoundedQueue

/-- The queue that a ring is. One place of `buff` stays free. -/
def Lwrb.asQueue (rb : Lwrb) : BQueue UInt8 where
  cap := rb.size - 1
  items := rb.queue
  bound := by
    have := lwrbGetFull_lt rb
    rw [Lwrb.queue_length]
    omega

@[simp] theorem asQueue_items (rb : Lwrb) : rb.asQueue.items = rb.queue := rfl

theorem asQueue_room (rb : Lwrb) : rb.asQueue.room = lwrbGetFree rb := by
  rw [lwrbGetFree_eq, BQueue.room, Lwrb.asQueue, Lwrb.queue_length]

/-- Rings of one size are the same queue when they hold the same bytes. -/
theorem asQueue_ext {rb : Lwrb} {q : BQueue UInt8} (hcap : rb.size - 1 = q.cap)
    (hqueue : rb.queue = q.items) : rb.asQueue = q := BQueue.ext hcap hqueue

theorem lwrbWrap_eq (rb : Lwrb) {ptr n : ℕ} (hptr : ptr < rb.size) (hn : n < rb.size) :
    lwrbWrap rb (ptr + n) = (ptr + n) % rb.size := by
  unfold lwrbWrap
  split_ifs with h
  · rw [Nat.mod_eq_sub_mod h, Nat.mod_eq_of_lt (by omega)]
  · rw [Nat.mod_eq_of_lt (by omega)]

/-! Each call. -/

/-- `lwrb_write` is `lwrb_write_ex` without the flag. -/
theorem lwrbWrite_eq (rb : Lwrb) (data : List UInt8) :
    lwrbWrite rb data = (lwrbWriteEx rb data false).rb := by
  simp only [lwrbWrite, lwrbWriteEx, Bool.false_eq_true, and_false, or_false]
  split_ifs <;> rfl

/-- `lwrb_read` is `lwrb_read_ex` without the flag. -/
theorem lwrbRead_eq (rb : Lwrb) (btr : ℕ) :
    lwrbRead rb btr = (((lwrbReadEx rb btr false).ret).getD [], (lwrbReadEx rb btr false).rb) := by
  simp only [lwrbRead, lwrbReadEx, Bool.false_eq_true, and_false, or_false]
  split_ifs <;> rfl

theorem lwrbWriteEx_none {rb : Lwrb} {data : List UInt8} {flags : Bool}
    (h : data.length = 0 ∨ lwrbGetFree rb = 0 ∨ (lwrbGetFree rb < data.length ∧ flags)) :
    lwrbWriteEx rb data flags = ⟨none, rb, none⟩ := if_pos h

theorem lwrbWriteEx_some {rb : Lwrb} {data : List UInt8} {flags : Bool}
    (h : ¬ (data.length = 0 ∨ lwrbGetFree rb = 0 ∨ (lwrbGetFree rb < data.length ∧ flags))) :
    (lwrbWriteEx rb data flags).ret = some (min (lwrbGetFree rb) data.length) ∧
      (lwrbWriteEx rb data flags).evt = some (.write (min (lwrbGetFree rb) data.length)) ∧
      (lwrbWriteEx rb data flags).rb = lwrbWrite rb data := by
  have hwrite : (lwrbWriteEx rb data flags).rb = (lwrbWriteEx rb data false).rb := by
    have hplain : ¬ (data.length = 0 ∨ lwrbGetFree rb = 0 ∨
        (lwrbGetFree rb < data.length ∧ (false : Bool) = true)) := by
      simp only [Bool.false_eq_true, and_false, or_false]
      exact fun hor => h (hor.imp_right Or.inl)
    simp only [lwrbWriteEx, if_neg h, if_neg hplain]
  rw [lwrbWrite_eq, hwrite]
  simp only [lwrbWriteEx, if_neg h, and_self]

theorem lwrbReadEx_none {rb : Lwrb} {btr : ℕ} {flags : Bool}
    (h : btr = 0 ∨ lwrbGetFull rb = 0 ∨ (lwrbGetFull rb < btr ∧ flags)) :
    lwrbReadEx rb btr flags = ⟨none, rb, none⟩ := if_pos h

theorem lwrbReadEx_some {rb : Lwrb} {btr : ℕ} {flags : Bool}
    (h : ¬ (btr = 0 ∨ lwrbGetFull rb = 0 ∨ (lwrbGetFull rb < btr ∧ flags))) :
    (lwrbReadEx rb btr flags).ret = some (lwrbRead rb btr).1 ∧
      (lwrbReadEx rb btr flags).evt = some (.read (min (lwrbGetFull rb) btr)) ∧
      (lwrbReadEx rb btr flags).rb = (lwrbRead rb btr).2 := by
  have hplain : ¬ (btr = 0 ∨ lwrbGetFull rb = 0) := fun hor => h (hor.imp_right Or.inl)
  simp only [lwrbReadEx, lwrbRead, if_neg h, if_neg hplain, and_self]

theorem lwrbWrite_asQueue (rb : Lwrb) (data : List UInt8) :
    (lwrbWrite rb data).asQueue = rb.asQueue.push data := by
  apply asQueue_ext
  · simp only [lwrbWrite]
    split_ifs <;> rfl
  · rw [lwrbWrite_spec, BQueue.push_items, asQueue_room, asQueue_items]

theorem lwrbRead_asQueue (rb : Lwrb) (btr : ℕ) :
    (lwrbRead rb btr).2.asQueue = rb.asQueue.pop btr := by
  apply asQueue_ext
  · simp only [lwrbRead]
    split_ifs <;> rfl
  · exact (lwrbRead_spec rb btr).2

/-- `lwrb_peek` shows what a read would give after a skip. -/
theorem lwrbPeek_spec (rb : Lwrb) (skipCount btp : ℕ) :
    lwrbPeek rb skipCount btp = (rb.queue.drop skipCount).take btp := by
  have hlt := lwrbGetFull_lt rb
  simp only [lwrbPeek]
  split_ifs with hbtp hskip hmin
  · rw [hbtp, List.take_zero]
  · rw [List.drop_eq_nil_of_le (rb.queue_length.trans_le hskip), List.take_nil]
  · omega
  · have hskip : skipCount < lwrbGetFull rb := Nat.lt_of_not_ge hskip
    have hwrap := lwrbWrap_eq rb rb.r_lt (show skipCount < rb.size by omega)
    have hround := copy_round rb.buff (lwrbWrap_lt rb rb.r_lt (show skipCount < rb.size by omega))
      (show min (lwrbGetFull rb - skipCount) btp ≤ rb.size by omega)
    rw [hround, hwrap, window_mod, Lwrb.queue, window_drop (Nat.le_of_lt hskip),
      List.take_eq_take_min, window_length, Nat.min_comm btp, window_take (Nat.min_le_left _ _)]

theorem lwrbSkip_spec (rb : Lwrb) (len : ℕ) :
    (lwrbSkip rb len).ret = min len rb.queue.length ∧
      (lwrbSkip rb len).rb.asQueue = rb.asQueue.pop len := by
  have hlt := lwrbGetFull_lt rb
  have hmin : min len (lwrbGetFull rb) ≤ lwrbGetFull rb := Nat.min_le_right _ _
  have hn : min len (lwrbGetFull rb) < rb.size := by omega
  have hdrop : Lwrb.queue { rb with
      r := lwrbWrap rb (rb.r + min len (lwrbGetFull rb))
      r_lt := lwrbWrap_lt rb rb.r_lt hn } = rb.queue.drop (min len (lwrbGetFull rb)) :=
    queue_drop hmin rfl rfl (lwrbWrap_eq rb rb.r_lt hn) rfl
  simp only [lwrbSkip]
  split_ifs with h
  · refine ⟨by simp [h], asQueue_ext rfl ?_⟩
    rw [h]
    rfl
  · refine ⟨by rw [Lwrb.queue_length], asQueue_ext rfl ?_⟩
    rw [hdrop, BQueue.pop_items, asQueue_items, List.drop_eq_drop_min (i := len), Lwrb.queue_length]

theorem lwrbReset_asQueue (rb : Lwrb) : (lwrbReset rb).rb.asQueue = rb.asQueue.clear :=
  asQueue_ext rfl rfl

/-! Runs of calls. -/

/-- The calls that a queue has too. `lwrb_advance` is not one of them: what it adds is what
the caller has put into `buff`. -/
inductive LwrbOp where
  | writeEx (data : List UInt8) (flags : Bool)
  | readEx (btr : ℕ) (flags : Bool)
  | peek (skipCount btp : ℕ)
  | skip (len : ℕ)
  | getFull
  | getFree
  | reset

/-- The number a call returns and the bytes it hands out. -/
abbrev LwrbOut := Option ℕ × List UInt8

def LwrbOp.call (rb : Lwrb) : LwrbOp → LwrbRet LwrbOut
  | writeEx data flags =>
    let c := lwrbWriteEx rb data flags
    ⟨(c.ret, []), c.rb, c.evt⟩
  | readEx btr flags =>
    let c := lwrbReadEx rb btr flags
    ⟨(c.ret.map List.length, c.ret.getD []), c.rb, c.evt⟩
  | peek skipCount btp =>
    let bytes := lwrbPeek rb skipCount btp
    ⟨(some bytes.length, bytes), rb, none⟩
  | skip len =>
    let c := lwrbSkip rb len
    ⟨(some c.ret, []), c.rb, c.evt⟩
  | getFull => ⟨(some (lwrbGetFull rb), []), rb, none⟩
  | getFree => ⟨(some (lwrbGetFree rb), []), rb, none⟩
  | reset =>
    let c := lwrbReset rb
    ⟨(none, []), c.rb, c.evt⟩

/-- What the same call does to a bounded queue. -/
def LwrbOp.spec (q : BQueue UInt8) : LwrbOp → LwrbOut × BQueue UInt8 × Option LwrbEvt
  | writeEx data flags =>
    let n := min q.room data.length
    if n = 0 ∨ (n < data.length ∧ flags) then ((none, []), q, none)
    else ((some n, []), q.push data, some (.write n))
  | readEx btr flags =>
    let n := min q.items.length btr
    if n = 0 ∨ (n < btr ∧ flags) then ((none, []), q, none)
    else ((some n, q.items.take btr), q.pop btr, some (.read n))
  | peek skipCount btp =>
    let bytes := (q.items.drop skipCount).take btp
    ((some bytes.length, bytes), q, none)
  | skip len =>
    let n := min len q.items.length
    ((some n, []), q.pop len, if len = 0 then none else some (.read n))
  | getFull => ((some q.items.length, []), q, none)
  | getFree => ((some q.room, []), q, none)
  | reset => ((none, []), q.clear, some .reset)

/-- A call is refused when it would move nothing, or with the flag less than asked for. -/
theorem refused_iff {available asked : ℕ} {flags : Prop} :
    (asked = 0 ∨ available = 0 ∨ (available < asked ∧ flags)) ↔
      (min available asked = 0 ∨ (min available asked < asked ∧ flags)) := by
  by_cases h : flags
  · simp only [h, and_true]
    omega
  · simp only [h, and_false, or_false]
    omega

/-- One call agrees with the queue in all it returns, leaves and reports. -/
theorem call_spec (rb : Lwrb) (op : LwrbOp) :
    ((op.call rb).ret, (op.call rb).rb.asQueue, (op.call rb).evt) = op.spec rb.asQueue := by
  have hroom := asQueue_room rb
  have hlen : rb.asQueue.items.length = lwrbGetFull rb := rb.queue_length
  cases op with
  | writeEx data flags =>
    simp only [LwrbOp.call, LwrbOp.spec, hroom]
    by_cases h : data.length = 0 ∨ lwrbGetFree rb = 0 ∨ (lwrbGetFree rb < data.length ∧ flags)
    · rw [lwrbWriteEx_none h, if_pos (refused_iff.mp h)]
    · obtain ⟨hret, hevt, hrb⟩ := lwrbWriteEx_some h
      rw [hret, hevt, hrb, lwrbWrite_asQueue, if_neg (mt refused_iff.mpr h)]
  | readEx btr flags =>
    simp only [LwrbOp.call, LwrbOp.spec, hlen]
    by_cases h : btr = 0 ∨ lwrbGetFull rb = 0 ∨ (lwrbGetFull rb < btr ∧ flags)
    · rw [lwrbReadEx_none h, if_pos (refused_iff.mp h)]
      rfl
    · obtain ⟨hret, hevt, hrb⟩ := lwrbReadEx_some h
      rw [hret, hevt, hrb, lwrbRead_asQueue, (lwrbRead_spec rb btr).1, if_neg (mt refused_iff.mpr h)]
      simp [Nat.min_comm]
  | peek skipCount btp =>
    simp only [LwrbOp.call, LwrbOp.spec, lwrbPeek_spec, asQueue_items]
  | skip len =>
    obtain ⟨hret, hrb⟩ := lwrbSkip_spec rb len
    simp only [LwrbOp.call, LwrbOp.spec, hret, hrb, asQueue_items]
    by_cases h : len = 0
    · simp [lwrbSkip, h]
    · simp [lwrbSkip, h]
  | getFull => simp only [LwrbOp.call, LwrbOp.spec, hlen]
  | getFree => simp only [LwrbOp.call, LwrbOp.spec, hroom]
  | reset => rw [LwrbOp.call, LwrbOp.spec, ← lwrbReset_asQueue]; rfl

/-- What a user of the ring, whose `evt_fn` is set, has seen so far. -/
structure LwrbSeen (σ : Type) where
  buffer : σ
  outs : List LwrbOut
  evts : List LwrbEvt

instance : System (LwrbSeen Lwrb) LwrbOp where
  step s op :=
    let c := op.call s.buffer
    ⟨c.rb, s.outs ++ [c.ret], s.evts ++ c.evt.toList⟩

instance : System (LwrbSeen (BQueue UInt8)) LwrbOp where
  step s op :=
    let (out, q, evt) := op.spec s.buffer
    ⟨q, s.outs ++ [out], s.evts ++ evt.toList⟩

def LwrbSeen.asQueue (s : LwrbSeen Lwrb) : LwrbSeen (BQueue UInt8) := ⟨s.buffer.asQueue, s.outs, s.evts⟩

theorem asQueue_step (s : LwrbSeen Lwrb) (op : LwrbOp) :
    (System.step s op : LwrbSeen Lwrb).asQueue = System.step s.asQueue op := by
  have hcall := call_spec s.buffer op
  simp only [System.step, LwrbSeen.asQueue, ← hcall]

/-- Whatever is called in whatever order, a ring and a bounded queue that hold the same
bytes return and report the same. -/
theorem lwrb_refines_queue (rb : Lwrb) (ops : List LwrbOp) :
    (replay (⟨rb, [], []⟩ : LwrbSeen Lwrb) ops).asQueue =
      replay (⟨rb.asQueue, [], []⟩ : LwrbSeen (BQueue UInt8)) ops :=
  replay_simulates LwrbSeen.asQueue asQueue_step ⟨rb, [], []⟩ ops

/-- The fill level that a listener of `evt_fn` works out. -/
def LwrbEvt.level (n : ℤ) : LwrbEvt → ℤ
  | read bp => n - bp
  | write bp => n + bp
  | reset => 0

/-- One call of the queue changes its level by what it reports. -/
theorem spec_level (q : BQueue UInt8) (op : LwrbOp) :
    ((op.spec q).2.1.items.length : ℤ) = (op.spec q).2.2.toList.foldl LwrbEvt.level q.items.length := by
  have hroom : q.room = q.cap - q.items.length := rfl
  cases op with
  | writeEx data flags =>
    simp only [LwrbOp.spec]
    split_ifs with hno
    · rfl
    · simp only [BQueue.push_items, List.length_append, List.length_take, Option.toList_some,
        List.foldl_cons, List.foldl_nil, LwrbEvt.level]
      omega
  | readEx btr flags =>
    simp only [LwrbOp.spec]
    split_ifs with hno
    · rfl
    · simp only [BQueue.pop_items, List.length_drop, Option.toList_some, List.foldl_cons,
        List.foldl_nil, LwrbEvt.level]
      omega
  | peek skipCount btp => rfl
  | skip len =>
    simp only [LwrbOp.spec]
    split_ifs with hno
    · simp [hno]
    · simp only [BQueue.pop_items, List.length_drop, Option.toList_some, List.foldl_cons,
        List.foldl_nil, LwrbEvt.level]
      omega
  | getFull => rfl
  | getFree => rfl
  | reset => rfl

theorem call_level (rb : Lwrb) (op : LwrbOp) :
    (lwrbGetFull (op.call rb).rb : ℤ) = (op.call rb).evt.toList.foldl LwrbEvt.level (lwrbGetFull rb) := by
  have hlevel := spec_level rb.asQueue op
  rw [← call_spec, asQueue_items, asQueue_items, Lwrb.queue_length, Lwrb.queue_length] at hlevel
  exact hlevel

theorem advance_level (rb : Lwrb) (len : ℕ) :
    (lwrbGetFull (lwrbAdvanceWrite rb len).rb : ℤ) =
      (lwrbAdvanceWrite rb len).evt.toList.foldl LwrbEvt.level (lwrbGetFull rb) := by
  have hlt := lwrbGetFree_lt rb
  have hroom := lwrbGetFree_eq rb
  obtain ⟨hfull, hend⟩ := lwrbGetFull_spec rb
  simp only [lwrbAdvanceWrite]
  split_ifs with hno
  · rfl
  · have hn : min len (lwrbGetFree rb) < rb.size := by omega
    have hmoved : lwrbGetFull { rb with
        w := lwrbWrap rb (rb.w + min len (lwrbGetFree rb))
        w_lt := lwrbWrap_lt rb rb.w_lt hn } = lwrbGetFull rb + min len (lwrbGetFree rb) := by
      apply lwrbGetFull_unique
      · show lwrbGetFull rb + min len (lwrbGetFree rb) < rb.size
        omega
      · show (rb.r + (lwrbGetFull rb + min len (lwrbGetFree rb))) % rb.size =
          lwrbWrap rb (rb.w + min len (lwrbGetFree rb))
        rw [lwrbWrap_eq rb rb.w_lt hn, ← hend, Nat.mod_add_mod, Nat.add_assoc]
    exact (congrArg Nat.cast hmoved).trans (Nat.cast_add _ _)

/-- What the owner of a ring calls, `lwrb_advance` and `lwrb_set_evt_fn` included. -/
inductive LwrbCall where
  | op (op : LwrbOp)
  | advance (len : ℕ)
  | setEvtFn (set : Bool)

instance : System LwrbListened LwrbCall where
  step s
    | .op op => bufSendEvt s (op.call s.rb)
    | .advance len => bufSendEvt s (lwrbAdvanceWrite s.rb len)
    | .setEvtFn set => lwrbSetEvtFn s set

/-- What a listener who came when the level was `start` works out from the events since. -/
def LevelKnown (start : ℕ) (past : List LwrbEvt) (s : LwrbListened) : Prop :=
  s.evtFn = true ∧ ∃ evts, s.evts = past ++ evts ∧
    (lwrbGetFull s.rb : ℤ) = evts.foldl LwrbEvt.level start

theorem levelKnown_send {start : ℕ} {past : List LwrbEvt} {s : LwrbListened} {α : Type}
    (h : LevelKnown start past s) (c : LwrbRet α)
    (hc : (lwrbGetFull c.rb : ℤ) = c.evt.toList.foldl LwrbEvt.level (lwrbGetFull s.rb)) :
    LevelKnown start past (bufSendEvt s c) := by
  obtain ⟨hfn, evts, hevts, hlevel⟩ := h
  refine ⟨hfn, evts ++ c.evt.toList, ?_, ?_⟩
  · rw [bufSendEvt, if_pos hfn, hevts, List.append_assoc]
  · rw [List.foldl_append, ← hlevel]
    exact hc

theorem levelKnown_step {start : ℕ} {past : List LwrbEvt} {s : LwrbListened}
    (h : LevelKnown start past s) {c : LwrbCall} (hc : c ≠ .setEvtFn false) :
    LevelKnown start past (System.step s c) := by
  cases c with
  | op op => exact levelKnown_send h _ (call_level s.rb op)
  | advance len => exact levelKnown_send h _ (advance_level s.rb len)
  | setEvtFn set =>
    obtain rfl : set = true := by simpa using hc
    exact ⟨rfl, h.2⟩

theorem levelKnown_run {start : ℕ} {past : List LwrbEvt} {s : LwrbListened}
    (h : LevelKnown start past s) {calls : List LwrbCall}
    (hcalls : LwrbCall.setEvtFn false ∉ calls) : LevelKnown start past (replay s calls) := by
  induction calls generalizing s with
  | nil => exact h
  | cons c calls ih =>
    rw [List.mem_cons, not_or] at hcalls
    exact ih (levelKnown_step h (Ne.symm hcalls.1)) hcalls.2

/-- From the moment `evt_fn` is set, the events it gets add up to the fill level. -/
theorem lwrb_events_level (buffdata : ℕ → UInt8) (size : ℕ) (hsize : 0 < size)
    (before after : List LwrbCall) (hafter : LwrbCall.setEvtFn false ∉ after) :
    let s := replay (lwrbInitListened buffdata size hsize) before
    let s' := replay s (LwrbCall.setEvtFn true :: after)
    ∃ evts, s'.evts = s.evts ++ evts ∧
      (lwrbGetFull s'.rb : ℤ) = evts.foldl LwrbEvt.level (lwrbGetFull s.rb) := by
  intro s s'
  have hset : LevelKnown (lwrbGetFull s.rb) s.evts (lwrbSetEvtFn s true) :=
    ⟨rfl, [], (List.append_nil _).symm, rfl⟩
  exact (levelKnown_run hset hafter).2

theorem lwrb_events_level_four :
    let s := replay (lwrbInitListened (fun _ => 0) 4 (by decide))
      [LwrbCall.op (.writeEx [0xAA, 0x55] false)]
    let s' := replay s
      [LwrbCall.setEvtFn true, LwrbCall.op (.readEx 1 false), LwrbCall.advance 4]
    ∃ evts, s'.evts = s.evts ++ evts ∧
      (lwrbGetFull s'.rb : ℤ) = evts.foldl LwrbEvt.level (lwrbGetFull s.rb) :=
  lwrb_events_level (fun _ => 0) 4 (by decide) [LwrbCall.op (.writeEx [0xAA, 0x55] false)]
    [LwrbCall.op (.readEx 1 false), LwrbCall.advance 4] (by simp)

end Detector
