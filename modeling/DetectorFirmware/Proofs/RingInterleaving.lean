import DetectorFirmware.Model.RingSteps
import DetectorFirmware.Proofs.RingQueue

/-! One party writes and one reads, with their accesses in any order. Each pointer has one
party that moves it, and what a party loaded of the other one's pointer only gets more
favourable with time: so the bytes published and not yet taken are never written to, and
every call takes effect at once, with the store of its pointer. -/

namespace Detector

open EventLog RingWindow BoundedQueue

/-! The positions of a copy. -/

/-- The two steps of a copy go round once. -/
theorem lwrbCopyPos_eq {size ptr n k : ℕ} (hptr : ptr < size) (hk : k < n) (hn : n < size) :
    lwrbCopyPos ptr (min (size - ptr) n) k = (ptr + k) % size := by
  unfold lwrbCopyPos
  split_ifs with h
  · rw [Nat.mod_eq_of_lt (by omega)]
  · rw [Nat.mod_eq_sub_mod (by omega), Nat.mod_eq_of_lt (by omega)]
    omega

theorem queue_take (rb : Lwrb) {n : ℕ} (h : n ≤ lwrbGetFull rb) :
    rb.queue.take n = window rb.buff rb.size rb.r n := window_take h

/-- A ring whose write pointer was moved over what lies behind it. -/
theorem queue_publish {rb rb' : Lwrb} {n : ℕ} (hn : n ≤ lwrbGetFree rb) (hbuff : rb'.buff = rb.buff)
    (hsize : rb'.size = rb.size) (hr : rb'.r = rb.r) (hw : rb'.w = (rb.w + n) % rb.size) :
    rb'.queue = rb.queue ++ window rb.buff rb.size rb.w n := by
  obtain ⟨hlt, hend⟩ := lwrbGetFull_spec rb
  have hroom := lwrbGetFree_eq rb
  have hfull : lwrbGetFull rb' = lwrbGetFull rb + n := by
    apply lwrbGetFull_unique
    · omega
    · rw [hr, hsize, hw, ← hend, Nat.mod_add_mod, Nat.add_assoc]
  rw [Lwrb.queue, hfull, hbuff, hsize, hr, window_add, Lwrb.queue]
  congr 1
  rw [← window_mod, hend]

/-- The places behind the write pointer that are free. -/
theorem free_place_ne (rb : Lwrb) {i k : ℕ} (hi : i < lwrbGetFull rb) (hk : k ≤ lwrbGetFree rb) :
    (rb.r + i) % rb.size ≠ (rb.w + k) % rb.size := by
  obtain ⟨hlt, hend⟩ := lwrbGetFull_spec rb
  have hroom := lwrbGetFree_eq rb
  have hplace : (rb.w + k) % rb.size = (rb.r + (lwrbGetFull rb + k)) % rb.size := by
    rw [← hend, Nat.mod_add_mod, Nat.add_assoc]
  rw [hplace]
  exact round_ne (by omega) (by omega)

/-! What each party knows. -/

def Producer.Sound (rb : Lwrb) : Producer → Prop
  | idle => True
  | getFree _ _ => True
  | loadedW _ _ w => w = rb.w
  | granted data => data.length ≤ lwrbGetFree rb
  | copying data ptr k => ptr = rb.w ∧ data.length ≤ lwrbGetFree rb ∧ k ≤ data.length ∧
      window rb.buff rb.size rb.w k = data.take k

def Consumer.Sound (rb : Lwrb) : Consumer → Prop
  | idle => True
  | getFull _ _ => True
  -- bytes may have been published since `w` was loaded
  | loadedW _ _ w => ∃ n ≤ rb.queue.length, (rb.r + n) % rb.size = w
  | granted btr => btr ≤ rb.queue.length
  | copying btr ptr data => ptr = rb.r ∧ btr ≤ rb.queue.length ∧ data.length ≤ btr ∧
      data = rb.queue.take data.length

structure Sound (s : LwrbShared) : Prop where
  producer : s.producer.Sound s.rb
  consumer : s.consumer.Sound s.rb

/-- What one party leaves of the ring for the other: the producer leaves `r` and what is in
the ring, the consumer leaves `w`, the memory and the room there is. -/
theorem Consumer.Sound.of_queue {c : Consumer} {rb rb' : Lwrb} (h : c.Sound rb)
    (hsize : rb'.size = rb.size) (hr : rb'.r = rb.r) (hqueue : rb.queue <+: rb'.queue) :
    c.Sound rb' := by
  have hlen := hqueue.length_le
  cases c with
  | idle => trivial
  | getFull btr flags => trivial
  | loadedW btr flags w =>
    obtain ⟨n, hn, hw⟩ := h
    exact ⟨n, Nat.le_trans hn hlen, by rwa [hr, hsize]⟩
  | granted btr => exact Nat.le_trans h hlen
  | copying btr ptr data =>
    obtain ⟨hptr, hbtr, hdata, htake⟩ := h
    refine ⟨hptr.trans hr.symm, Nat.le_trans hbtr hlen, hdata, ?_⟩
    obtain ⟨bs, hbs⟩ := hqueue
    rw [← hbs, List.take_append_of_le_length (Nat.le_trans hdata hbtr)]
    exact htake

theorem Producer.Sound.of_free {p : Producer} {rb rb' : Lwrb} (h : p.Sound rb)
    (hbuff : rb'.buff = rb.buff) (hsize : rb'.size = rb.size) (hw : rb'.w = rb.w)
    (hfree : lwrbGetFree rb ≤ lwrbGetFree rb') : p.Sound rb' := by
  cases p with
  | idle => trivial
  | getFree data flags => trivial
  | loadedW data flags w => exact h.trans hw.symm
  | granted data => exact Nat.le_trans h hfree
  | copying data ptr k =>
    obtain ⟨hptr, hlen, hk, hwin⟩ := h
    refine ⟨hptr.trans hw.symm, Nat.le_trans hlen hfree, hk, ?_⟩
    rw [hbuff, hsize, hw]
    exact hwin

/-! What the queue sees of a step. -/

/-- The queue with the data of the calls that have taken effect. -/
structure QueueSeen where
  queue : BQueue UInt8
  writes : List (List UInt8)
  reads : List (List UInt8)

def LwrbShared.seen (s : LwrbShared) : QueueSeen := ⟨s.rb.asQueue, s.writes, s.reads⟩

/-- Nothing happens, or a call takes effect as a whole: all it writes has room, and all it
reads is there. -/
inductive QueueStep : QueueSeen → QueueSeen → Prop
  | idle (q : QueueSeen) : QueueStep q q
  | write (q : QueueSeen) (bs : List UInt8) (h : bs.length ≤ q.queue.room) :
    QueueStep q ⟨q.queue.push bs, q.writes ++ [bs], q.reads⟩
  | read (q : QueueSeen) (n : ℕ) (h : n ≤ q.queue.items.length) :
    QueueStep q ⟨q.queue.pop n, q.writes, q.reads ++ [q.queue.items.take n]⟩

/-- A byte goes to a free place, so the queue is the same. -/
theorem copyByte_spec (rb : Lwrb) {data : List UInt8} {k : ℕ} (hlen : data.length ≤ lwrbGetFree rb)
    (hk : k < data.length) (hwin : window rb.buff rb.size rb.w k = data.take k) :
    let pos := lwrbCopyPos rb.w (min (rb.size - rb.w) data.length) k
    let rb' := rb.poke pos data[k]
    rb'.asQueue = rb.asQueue ∧ window rb'.buff rb.size rb.w (k + 1) = data.take (k + 1) := by
  intro pos rb'
  have hlt := lwrbGetFree_lt rb
  have hpos : pos = (rb.w + k) % rb.size :=
    lwrbCopyPos_eq rb.w_lt hk (Nat.lt_of_le_of_lt hlen hlt)
  have hbuff : rb'.buff = Function.update rb.buff ((rb.w + k) % rb.size) data[k] := by
    rw [← hpos]
    rfl
  refine ⟨asQueue_ext rfl ?_, ?_⟩
  · rw [Lwrb.queue, hbuff]
    exact window_update_outside _ fun i hi => free_place_ne rb hi (by omega)
  · rw [hbuff, window_update_succ _ _ (by omega), hwin, List.take_succ_eq_append_getElem hk]

/-- The store of `w` publishes everything that was copied. -/
theorem publish_spec (rb : Lwrb) {data : List UInt8} (hlen : data.length ≤ lwrbGetFree rb)
    (hwin : window rb.buff rb.size rb.w data.length = data) :
    let rb' := rb.storeW rb.w data.length
    rb'.queue = rb.queue ++ data ∧ rb'.asQueue = rb.asQueue.push data := by
  intro rb'
  have hlt := lwrbGetFree_lt rb
  have hqueue : rb'.queue = rb.queue ++ data := by
    have hw : rb'.w = (rb.w + data.length) % rb.size := lwrbAdvance_eq rb rb.w_lt (by omega)
    have hpublish : rb'.queue = rb.queue ++ window rb.buff rb.size rb.w data.length :=
      queue_publish hlen rfl rfl rfl hw
    rw [hpublish, hwin]
  refine ⟨hqueue, asQueue_ext rfl ?_⟩
  rw [hqueue, BQueue.push_items, asQueue_room, List.take_of_length_le hlen, asQueue_items]

/-- An access of the producer. -/
theorem write_step {s : LwrbShared} (h : Sound s) (data : List UInt8) (flags : Bool) :
    Sound (lwrbWriteStep s data flags) ∧ QueueStep s.seen (lwrbWriteStep s data flags).seen := by
  obtain ⟨hp, hc⟩ := h
  unfold lwrbWriteStep
  split
  · split_ifs
    · exact ⟨⟨hp, hc⟩, .idle _⟩
    · exact ⟨⟨trivial, hc⟩, .idle _⟩
  · exact ⟨⟨rfl, hc⟩, .idle _⟩
  · next data flags w heq =>
    rw [heq] at hp
    have hw : w = s.rb.w := hp
    have hfree : lwrbFreeOf s.rb.size w s.rb.r = lwrbGetFree s.rb := by rw [hw]; rfl
    have hcut : (data.take (min (lwrbGetFree s.rb) data.length)).length ≤ lwrbGetFree s.rb := by
      rw [List.length_take]
      omega
    simp only [hfree]
    split_ifs
    · exact ⟨⟨trivial, hc⟩, .idle _⟩
    · exact ⟨⟨hcut, hc⟩, .idle _⟩
  · next data heq =>
    rw [heq] at hp
    exact ⟨⟨⟨rfl, hp, Nat.zero_le _, rfl⟩, hc⟩, .idle _⟩
  · next data ptr k heq =>
    rw [heq] at hp
    obtain ⟨rfl, hlen, hk, hwin⟩ := hp
    dsimp only
    split_ifs with hmore
    · obtain ⟨hsame, hwin'⟩ := copyByte_spec s.rb hlen hmore hwin
      have hqueue := congrArg BQueue.items hsame
      refine ⟨⟨⟨rfl, hlen, hmore, hwin'⟩, hc.of_queue rfl rfl ?_⟩, ?_⟩
      · exact ⟨[], (List.append_nil _).trans hqueue.symm⟩
      · simp only [LwrbShared.seen, hsame]
        exact .idle _
    · obtain rfl : k = data.length := by omega
      rw [List.take_length] at hwin
      obtain ⟨hqueue, hpush⟩ := publish_spec s.rb hlen hwin
      refine ⟨⟨trivial, hc.of_queue rfl rfl ?_⟩, ?_⟩
      · exact ⟨data, hqueue.symm⟩
      · have hseen := QueueStep.write s.seen data ((asQueue_room s.rb).symm ▸ hlen)
        simp only [LwrbShared.seen, hpush]
        exact hseen

/-- A byte is copied from its place in the queue. -/
theorem takeByte_spec (rb : Lwrb) {data : List UInt8} {btr : ℕ} (hbtr : btr ≤ lwrbGetFull rb)
    (hmore : data.length < btr) (htake : data = rb.queue.take data.length) :
    data ++ [rb.buff (lwrbCopyPos rb.r (min (rb.size - rb.r) btr) data.length)] =
      rb.queue.take (data.length + 1) := by
  have hlt := lwrbGetFull_lt rb
  have hone : window rb.buff rb.size (rb.r + data.length) 1 =
      [rb.buff ((rb.r + data.length) % rb.size)] := by simp [window]
  rw [lwrbCopyPos_eq rb.r_lt hmore (by omega), queue_take rb (by omega), window_add, hone,
    ← queue_take rb (by omega), ← htake]

/-- The store of `r` gives up everything that was copied. -/
theorem giveUp_spec (rb : Lwrb) {btr : ℕ} (hbtr : btr ≤ lwrbGetFull rb) :
    let rb' := rb.storeR rb.r btr
    lwrbGetFree rb ≤ lwrbGetFree rb' ∧ rb'.asQueue = rb.asQueue.pop btr := by
  intro rb'
  have hlt := lwrbGetFull_lt rb
  have hr : rb'.r = (rb.r + btr) % rb.size := lwrbAdvance_eq rb rb.r_lt (by omega)
  have hqueue : rb'.queue = rb.queue.drop btr := queue_drop hbtr rfl rfl hr rfl
  have hfull : lwrbGetFull rb' = lwrbGetFull rb - btr := by
    rw [← Lwrb.queue_length, hqueue, List.length_drop, Lwrb.queue_length]
  have hsize : rb'.size = rb.size := rfl
  refine ⟨?_, asQueue_ext rfl hqueue⟩
  rw [lwrbGetFree_eq, lwrbGetFree_eq, hfull, hsize]
  omega

/-- What the consumer works out is what was in the ring when it loaded `w`. -/
theorem lwrbFullOf_eq (rb : Lwrb) {n : ℕ} (hn : n ≤ lwrbGetFull rb) :
    lwrbFullOf rb.size ((rb.r + n) % rb.size) rb.r = n := by
  have hr := rb.r_lt
  have hlt := lwrbGetFull_lt rb
  unfold lwrbFullOf
  rcases Nat.lt_or_ge (rb.r + n) rb.size with h | h
  · rw [Nat.mod_eq_of_lt h]
    split_ifs <;> omega
  · rw [Nat.mod_eq_sub_mod h, Nat.mod_eq_of_lt (by omega)]
    split_ifs <;> omega

/-- An access of the consumer. -/
theorem read_step {s : LwrbShared} (h : Sound s) (btr : ℕ) (flags : Bool) :
    Sound (lwrbReadStep s btr flags) ∧ QueueStep s.seen (lwrbReadStep s btr flags).seen := by
  obtain ⟨hp, hc⟩ := h
  have hlen := s.rb.queue_length
  unfold lwrbReadStep
  split
  · split_ifs
    · exact ⟨⟨hp, hc⟩, .idle _⟩
    · exact ⟨⟨hp, trivial⟩, .idle _⟩
  · refine ⟨⟨hp, ?_⟩, .idle _⟩
    exact ⟨lwrbGetFull s.rb, hlen.ge, (lwrbGetFull_spec s.rb).2⟩
  · next btr flags w heq =>
    rw [heq] at hc
    obtain ⟨n, hn, rfl⟩ := hc
    rw [lwrbFullOf_eq s.rb (hn.trans_eq hlen)]
    dsimp only
    split_ifs
    · exact ⟨⟨hp, trivial⟩, .idle _⟩
    · exact ⟨⟨hp, Nat.le_trans (Nat.min_le_left _ _) hn⟩, .idle _⟩
  · next btr heq =>
    rw [heq] at hc
    exact ⟨⟨hp, ⟨rfl, hc, Nat.zero_le _, rfl⟩⟩, .idle _⟩
  · next btr ptr data heq =>
    rw [heq] at hc
    obtain ⟨rfl, hbtr, hdata, htake⟩ := hc
    dsimp only
    split_ifs with hmore
    · have hbyte := takeByte_spec s.rb (hbtr.trans_eq hlen) hmore htake
      refine ⟨⟨hp, ⟨rfl, hbtr, ?_, ?_⟩⟩, .idle _⟩
      · rw [List.length_append]
        exact hmore
      · rw [List.length_append]
        exact hbyte
    · obtain rfl : btr = data.length := by omega
      obtain ⟨hfree, hpop⟩ := giveUp_spec s.rb (hbtr.trans_eq hlen)
      refine ⟨⟨hp.of_free rfl rfl rfl hfree, trivial⟩, ?_⟩
      have hseen := QueueStep.read s.seen data.length hbtr
      have htaken : s.seen.queue.items.take data.length = data := htake.symm
      rw [htaken] at hseen
      simp only [LwrbShared.seen, hpop]
      exact hseen

/-! Runs. -/

theorem sound_step (s : LwrbShared) (access : LwrbAccess) (h : Sound s) :
    Sound (System.step s access) ∧ QueueStep s.seen (System.step s access : LwrbShared).seen := by
  cases access with
  | producer data flags => exact write_step h data flags
  | consumer btr flags => exact read_step h btr flags

theorem sound_start (rb : Lwrb) : Sound (lwrbShare rb) := ⟨trivial, trivial⟩

theorem sound_reached (rb : Lwrb) (accesses : List LwrbAccess) :
    Sound (replay (lwrbShare rb) accesses) :=
  replay_invariant (fun s access h => (sound_step s access h).1) (sound_start rb) accesses

/-- What went in is what came out and what is still there. -/
def Conserved (start : List UInt8) (q : QueueSeen) : Prop :=
  start ++ q.writes.flatten = q.reads.flatten ++ q.queue.items

theorem QueueStep.conserved {start : List UInt8} {q q' : QueueSeen} (h : QueueStep q q')
    (hq : Conserved start q) : Conserved start q' := by
  unfold Conserved at hq ⊢
  cases h with
  | idle => exact hq
  | write bs hfit =>
    rw [List.flatten_append, ← List.append_assoc, hq, BQueue.push_items,
      List.take_of_length_le hfit, List.append_assoc, List.flatten_singleton]
  | read n hn =>
    rw [hq, List.flatten_append, List.flatten_singleton, List.append_assoc, BQueue.pop_items,
      List.take_append_drop]

/-- What an unfinished read has copied. -/
def Consumer.copied : Consumer → List UInt8
  | copying _ _ data => data
  | _ => []

/-- No byte is lost, doubled or reordered, and a read that is under way has nothing but the
next bytes, whatever was written meanwhile. -/
theorem lwrb_stream (rb : Lwrb) (accesses : List LwrbAccess) :
    let s := replay (lwrbShare rb) accesses
    rb.queue ++ s.writes.flatten = s.reads.flatten ++ s.rb.queue ∧
      s.reads.flatten ++ s.consumer.copied <+: rb.queue ++ s.writes.flatten := by
  intro s
  have hsound : Sound s := sound_reached rb accesses
  have hconserved : Conserved rb.queue s.seen := by
    have hstart : Conserved rb.queue (lwrbShare rb).seen := by
      show rb.queue ++ [].flatten = [].flatten ++ rb.queue
      simp
    have hboth : Sound s ∧ Conserved rb.queue s.seen :=
      replay_invariant (I := fun s => Sound s ∧ Conserved rb.queue s.seen)
        (fun s access h => ⟨(sound_step s access h.1).1, (sound_step s access h.1).2.conserved h.2⟩)
        ⟨sound_start rb, hstart⟩ accesses
    exact hboth.2
  have hstream : rb.queue ++ s.writes.flatten = s.reads.flatten ++ s.rb.queue := hconserved
  refine ⟨hstream, ?_⟩
  rw [hstream, List.prefix_append_right_inj]
  have hconsumer := hsound.consumer
  cases hc : s.consumer with
  | copying btr ptr data =>
    rw [hc] at hconsumer
    obtain ⟨-, -, -, htake⟩ := hconsumer
    show data <+: s.rb.queue
    rw [htake]
    exact List.take_prefix _ _
  | _ => exact List.nil_prefix

end Detector
