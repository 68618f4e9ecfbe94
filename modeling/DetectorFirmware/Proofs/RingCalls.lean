import DetectorFirmware.Proofs.RingInterleaving

/-! Whole calls on the shared ring. A call that is not interrupted is the function of
`lwrb.c`; one that is gets at least what it would have got alone, since the other party only
makes room for it. -/

namespace Detector

open EventLog RingWindow BoundedQueue

section
variable {s : LwrbShared} {data : List UInt8} {flags : Bool} {w k : ℕ}

theorem writeStep_idle (hp : s.producer = .idle) (hne : data.length ≠ 0) :
    lwrbWriteStep s data flags = { s with producer := .getFree data flags } := by
  rw [lwrbWriteStep, hp]
  exact if_neg hne

theorem writeStep_getFree (hp : s.producer = .getFree data flags) (next : List UInt8) (more : Bool) :
    lwrbWriteStep s next more = { s with producer := .loadedW data flags s.rb.w } := by
  rw [lwrbWriteStep, hp]

theorem writeStep_refused (hp : s.producer = .loadedW data flags s.rb.w)
    (h : lwrbGetFree s.rb = 0 ∨ (lwrbGetFree s.rb < data.length ∧ flags)) (next : List UInt8)
    (more : Bool) : lwrbWriteStep s next more = { s with producer := .idle } := by
  rw [lwrbWriteStep, hp]
  exact if_pos h

theorem writeStep_granted (hp : s.producer = .loadedW data flags s.rb.w)
    (h : ¬ (lwrbGetFree s.rb = 0 ∨ (lwrbGetFree s.rb < data.length ∧ flags))) (next : List UInt8)
    (more : Bool) : lwrbWriteStep s next more =
      { s with producer := .granted (data.take (min (lwrbGetFree s.rb) data.length)) } := by
  rw [lwrbWriteStep, hp]
  exact if_neg h

theorem writeStep_load (hp : s.producer = .granted data) (next : List UInt8) (more : Bool) :
    lwrbWriteStep s next more = { s with producer := .copying data s.rb.w 0 } := by
  rw [lwrbWriteStep, hp]

theorem writeStep_copy (hp : s.producer = .copying data s.rb.w k) (h : k < data.length)
    (next : List UInt8) (more : Bool) : lwrbWriteStep s next more =
      { s with
        rb := s.rb.poke (lwrbCopyPos s.rb.w (min (s.rb.size - s.rb.w) data.length) k) data[k]
        producer := .copying data s.rb.w (k + 1) } := by
  rw [lwrbWriteStep, hp]
  exact dif_pos h

theorem writeStep_store (hp : s.producer = .copying data s.rb.w data.length) (next : List UInt8)
    (more : Bool) : lwrbWriteStep s next more =
      { s with
        rb := s.rb.storeW s.rb.w data.length
        producer := .idle
        writes := s.writes ++ [data] } := by
  rw [lwrbWriteStep, hp]
  exact dif_neg (Nat.lt_irrefl _)

end

/-- A copy that is not interrupted ends with the store of `w`. -/
theorem copy_uninterrupted {s : LwrbShared} {data : List UInt8} (left : ℕ) {k : ℕ} (h : Sound s)
    (hp : s.producer = .copying data s.rb.w k) (hleft : k + left = data.length)
    (next : List UInt8) (more : Bool) :
    ∃ rb' : Lwrb, rb'.asQueue = s.rb.asQueue.push data ∧ rb'.r = s.rb.r ∧
      rb'.w = (s.rb.storeW s.rb.w data.length).w ∧
      replay s (List.replicate (left + 1) (LwrbAccess.producer next more)) =
        { s with rb := rb', producer := .idle, writes := s.writes ++ [data] } := by
  have hsound := h.producer
  rw [hp] at hsound
  obtain ⟨-, hlen, -, hwin⟩ := hsound
  induction left generalizing s k with
  | zero =>
    obtain rfl : k = data.length := hleft
    rw [List.take_length] at hwin
    exact ⟨_, (publish_spec s.rb hlen hwin).2, rfl, rfl, writeStep_store hp next more⟩
  | succ left ih =>
    have hmore : k < data.length := by omega
    have hsame := (copyByte_spec s.rb hlen hmore hwin).1
    have hstep := writeStep_copy hp hmore next more
    have hnext := (write_step h next more).1
    rw [hstep] at hnext
    obtain ⟨-, hlen', -, hwin'⟩ := hnext.producer
    obtain ⟨rb', hqueue, hr, hw, hrun⟩ := ih hnext rfl (by omega) hlen' hwin'
    refine ⟨rb', hqueue.trans (by rw [hsame]), hr, hw, ?_⟩
    rw [List.replicate_succ, replay_cons]
    show replay (lwrbWriteStep s next more) _ = _
    rw [hstep]
    exact hrun

/-- Two accesses take a call to the load of `r`. -/
theorem write_enters {s : LwrbShared} {data : List UInt8} (hp : s.producer = .idle)
    (hne : data.length ≠ 0) (flags : Bool) :
    replay s (List.replicate 2 (LwrbAccess.producer data flags)) =
      { s with producer := .loadedW data flags s.rb.w } := by
  show lwrbWriteStep (lwrbWriteStep s data flags) data flags = _
  rw [writeStep_idle hp hne]
  exact writeStep_getFree rfl data flags

/-- Without accesses of the consumer in between, a call is `lwrb_write_ex`. -/
theorem write_uninterrupted {s : LwrbShared} (h : Sound s) (hp : s.producer = .idle)
    (data : List UInt8) (flags : Bool) :
    let c := lwrbWriteEx s.rb data flags
    ∃ n > 0, ∃ rb' : Lwrb, rb'.asQueue = c.rb.asQueue ∧ rb'.r = c.rb.r ∧ rb'.w = c.rb.w ∧
      replay s (List.replicate n (LwrbAccess.producer data flags)) =
        { s with
          rb := rb'
          producer := .idle
          writes := s.writes ++ (c.ret.map fun n => data.take n).toList } := by
  intro c
  by_cases hno : data.length = 0 ∨ lwrbGetFree s.rb = 0 ∨ (lwrbGetFree s.rb < data.length ∧ flags)
  · have hc : c = ⟨none, s.rb, none⟩ := lwrbWriteEx_none hno
    have hend : ∃ n > 0, replay s (List.replicate n (LwrbAccess.producer data flags)) =
        { s with producer := .idle } := by
      by_cases hempty : data.length = 0
      · have hstep : lwrbWriteStep s data flags = s := by
          rw [lwrbWriteStep, hp]
          exact if_pos hempty
        exact ⟨1, by omega, hstep.trans (by rw [← hp])⟩
      · refine ⟨2 + 1, by omega, ?_⟩
        rw [List.replicate_add, replay_append, write_enters hp hempty]
        exact writeStep_refused (s := { s with producer := .loadedW data flags s.rb.w }) rfl
          (hno.resolve_left hempty) data flags
    obtain ⟨n, hn, hrun⟩ := hend
    refine ⟨n, hn, s.rb, by rw [hc], by rw [hc], by rw [hc], ?_⟩
    rw [hrun, hc, Option.map_none, Option.toList_none, List.append_nil]
  · obtain ⟨hret, -, hrb⟩ := lwrbWriteEx_some hno
    obtain ⟨hempty, hgranted⟩ := not_or.mp hno
    obtain ⟨cut, hcut⟩ : ∃ cut, cut = data.take (min (lwrbGetFree s.rb) data.length) := ⟨_, rfl⟩
    have hlen : cut.length = min (lwrbGetFree s.rb) data.length := by
      rw [hcut, List.length_take]
      omega
    have hcr : c.rb.r = s.rb.r := by simp only [c, lwrbWriteEx, if_neg hno]
    have hcw : c.rb.w = (s.rb.storeW s.rb.w (min (lwrbGetFree s.rb) data.length)).w := by
      simp only [c, lwrbWriteEx, if_neg hno, Lwrb.storeW]
    have hcopying : replay s (List.replicate 4 (LwrbAccess.producer data flags)) =
        { s with producer := .copying cut s.rb.w 0 } := by
      rw [show 4 = 2 + (1 + 1) from rfl, List.replicate_add, replay_append, write_enters hp hempty]
      show lwrbWriteStep (lwrbWriteStep _ data flags) data flags = _
      rw [writeStep_granted (s := { s with producer := .loadedW data flags s.rb.w }) rfl hgranted, hcut]
      exact writeStep_load rfl data flags
    have hsound : Sound { s with producer := .copying cut s.rb.w 0 } := by
      rw [← hcopying]
      exact replay_invariant (fun s access h => (sound_step s access h).1) h _
    obtain ⟨rb', hqueue, hr, hw, hrun⟩ :=
      copy_uninterrupted cut.length hsound rfl (Nat.zero_add _) data flags
    refine ⟨4 + (cut.length + 1), by omega, rb', ?_, ?_, ?_, ?_⟩
    · rw [hqueue, hcut, show c.rb = _ from hrb, lwrbWrite_asQueue, ← List.take_eq_take_min]
      exact BQueue.push_take _ (asQueue_room s.rb).le data
    · rw [hr, hcr]
    · rw [hw, hcw, hlen]
    · rw [List.replicate_add, replay_append, hcopying, hrun, show c.ret = _ from hret, hcut]
      rfl

section
variable {s : LwrbShared} {btr : ℕ} {flags : Bool} {w : ℕ} {data : List UInt8}

theorem readStep_idle (hc : s.consumer = .idle) (hne : btr ≠ 0) :
    lwrbReadStep s btr flags = { s with consumer := .getFull btr flags } := by
  rw [lwrbReadStep, hc]
  exact if_neg hne

theorem readStep_getFull (hc : s.consumer = .getFull btr flags) (next : ℕ) (more : Bool) :
    lwrbReadStep s next more = { s with consumer := .loadedW btr flags s.rb.w } := by
  rw [lwrbReadStep, hc]

theorem readStep_refused (hc : s.consumer = .loadedW btr flags s.rb.w)
    (h : lwrbGetFull s.rb = 0 ∨ (lwrbGetFull s.rb < btr ∧ flags)) (next : ℕ) (more : Bool) :
    lwrbReadStep s next more = { s with consumer := .idle } := by
  rw [lwrbReadStep, hc]
  exact if_pos h

theorem readStep_granted (hc : s.consumer = .loadedW btr flags s.rb.w)
    (h : ¬ (lwrbGetFull s.rb = 0 ∨ (lwrbGetFull s.rb < btr ∧ flags))) (next : ℕ) (more : Bool) :
    lwrbReadStep s next more = { s with consumer := .granted (min (lwrbGetFull s.rb) btr) } := by
  rw [lwrbReadStep, hc]
  exact if_neg h

theorem readStep_load (hc : s.consumer = .granted btr) (next : ℕ) (more : Bool) :
    lwrbReadStep s next more = { s with consumer := .copying btr s.rb.r [] } := by
  rw [lwrbReadStep, hc]

theorem readStep_copy (hc : s.consumer = .copying btr s.rb.r data) (h : data.length < btr) (next : ℕ)
    (more : Bool) : lwrbReadStep s next more =
      { s with
        consumer := .copying btr s.rb.r
          (data ++ [s.rb.buff (lwrbCopyPos s.rb.r (min (s.rb.size - s.rb.r) btr) data.length)]) } := by
  rw [lwrbReadStep, hc]
  exact if_pos h

theorem readStep_store (hc : s.consumer = .copying data.length s.rb.r data) (next : ℕ) (more : Bool) :
    lwrbReadStep s next more =
      { s with
        rb := s.rb.storeR s.rb.r data.length
        consumer := .idle
        reads := s.reads ++ [data] } := by
  rw [lwrbReadStep, hc]
  exact if_neg (Nat.lt_irrefl _)

end

/-- A copy that is not interrupted ends with the store of `r`. -/
theorem take_uninterrupted {s : LwrbShared} {btr : ℕ} (left : ℕ) {data : List UInt8} (h : Sound s)
    (hc : s.consumer = .copying btr s.rb.r data) (hleft : data.length + left = btr)
    (next : ℕ) (more : Bool) :
    replay s (List.replicate (left + 1) (LwrbAccess.consumer next more)) =
      { s with
        rb := s.rb.storeR s.rb.r btr
        consumer := .idle
        reads := s.reads ++ [s.rb.queue.take btr] } := by
  induction left generalizing s data with
  | zero =>
    have hsound := h.consumer
    rw [hc] at hsound
    obtain ⟨-, -, -, htake⟩ := hsound
    obtain rfl : data.length = btr := hleft
    rw [← htake]
    exact readStep_store hc next more
  | succ left ih =>
    have hmore : data.length < btr := by omega
    have hstep := readStep_copy hc hmore next more
    have hnext := (read_step h next more).1
    rw [hstep] at hnext
    rw [List.replicate_succ, replay_cons]
    show replay (lwrbReadStep s next more) _ = _
    rw [hstep]
    refine (ih hnext rfl ?_).trans rfl
    rw [List.length_append, List.length_singleton]
    omega

/-- Two accesses take a call to the load of `r`. -/
theorem read_enters {s : LwrbShared} {btr : ℕ} (hc : s.consumer = .idle) (hne : btr ≠ 0) (flags : Bool) :
    replay s (List.replicate 2 (LwrbAccess.consumer btr flags)) =
      { s with consumer := .loadedW btr flags s.rb.w } := by
  show lwrbReadStep (lwrbReadStep s btr flags) btr flags = _
  rw [readStep_idle hc hne]
  exact readStep_getFull rfl btr flags

/-- Without accesses of the producer in between, a call is `lwrb_read_ex`. -/
theorem read_uninterrupted {s : LwrbShared} (h : Sound s) (hc : s.consumer = .idle) (btr : ℕ)
    (flags : Bool) :
    let c := lwrbReadEx s.rb btr flags
    ∃ n > 0, replay s (List.replicate n (LwrbAccess.consumer btr flags)) =
      { s with rb := c.rb, consumer := .idle, reads := s.reads ++ c.ret.toList } := by
  intro c
  by_cases hno : btr = 0 ∨ lwrbGetFull s.rb = 0 ∨ (lwrbGetFull s.rb < btr ∧ flags)
  · have hcall : c = ⟨none, s.rb, none⟩ := lwrbReadEx_none hno
    rw [hcall, Option.toList_none, List.append_nil]
    by_cases hempty : btr = 0
    · have hstep : lwrbReadStep s btr flags = s := by
        rw [lwrbReadStep, hc]
        exact if_pos hempty
      exact ⟨1, by omega, hstep.trans (by rw [← hc])⟩
    · refine ⟨2 + 1, by omega, ?_⟩
      rw [List.replicate_add, replay_append, read_enters hc hempty]
      exact readStep_refused (s := { s with consumer := .loadedW btr flags s.rb.w }) rfl
        (hno.resolve_left hempty) btr flags
  · obtain ⟨hret, -, hrb⟩ := lwrbReadEx_some hno
    obtain ⟨hempty, hgranted⟩ := not_or.mp hno
    obtain ⟨cut, hcut⟩ : ∃ cut, cut = min (lwrbGetFull s.rb) btr := ⟨_, rfl⟩
    have hcr : c.rb = s.rb.storeR s.rb.r cut := by
      simp only [c, lwrbReadEx, if_neg hno, Lwrb.storeR, hcut]
    have hcret : c.ret = some (s.rb.queue.take cut) := by
      rw [show c.ret = _ from hret, (lwrbRead_spec s.rb btr).1, hcut, List.take_eq_take_min,
        Lwrb.queue_length, Nat.min_comm]
    have hcopying : replay s (List.replicate 4 (LwrbAccess.consumer btr flags)) =
        { s with consumer := .copying cut s.rb.r [] } := by
      rw [show 4 = 2 + (1 + 1) from rfl, List.replicate_add, replay_append, read_enters hc hempty]
      show lwrbReadStep (lwrbReadStep _ btr flags) btr flags = _
      rw [readStep_granted (s := { s with consumer := .loadedW btr flags s.rb.w }) rfl hgranted, hcut]
      exact readStep_load rfl btr flags
    have hsound : Sound { s with consumer := .copying cut s.rb.r [] } := by
      rw [← hcopying]
      exact replay_invariant (fun s access h => (sound_step s access h).1) h _
    refine ⟨4 + (cut + 1), by omega, ?_⟩
    rw [List.replicate_add, replay_append, hcopying,
      take_uninterrupted cut hsound rfl (Nat.zero_add _) btr flags, hcr, hcret]
    rfl

/-- The two levels agree: a call that runs from start to end without the other party does what
the function does. -/
theorem lwrb_uninterrupted (rb : Lwrb) (accesses : List LwrbAccess) :
    let s := replay (lwrbShare rb) accesses
    (s.producer = .idle → ∀ data flags,
      let c := lwrbWriteEx s.rb data flags
      ∃ n > 0, ∃ rb' : Lwrb, rb'.asQueue = c.rb.asQueue ∧ rb'.r = c.rb.r ∧ rb'.w = c.rb.w ∧
        replay s (List.replicate n (LwrbAccess.producer data flags)) =
          { s with
            rb := rb'
            producer := .idle
            writes := s.writes ++ (c.ret.map fun n => data.take n).toList }) ∧
    (s.consumer = .idle → ∀ btr flags,
      let c := lwrbReadEx s.rb btr flags
      ∃ n > 0, replay s (List.replicate n (LwrbAccess.consumer btr flags)) =
        { s with rb := c.rb, consumer := .idle, reads := s.reads ++ c.ret.toList }) :=
  ⟨fun hp data flags => write_uninterrupted (sound_reached rb accesses) hp data flags,
    fun hc btr flags => read_uninterrupted (sound_reached rb accesses) hc btr flags⟩

/-- A write of two bytes, and then the start of a read or of a second write. -/
def readUnderWay : List LwrbAccess :=
  List.replicate 7 (.producer [0xAA, 0x55] true) ++ List.replicate 2 (.consumer 2 true)

def writeUnderWay : List LwrbAccess :=
  List.replicate 7 (.producer [0xAA, 0x55] true) ++ List.replicate 2 (.producer [0x16] true)

/-- A call of one party while a call of the other one is under way. -/
theorem lwrb_uninterrupted_midway :
    let s := replay (lwrbShare (lwrbInit (fun _ => 0) 8 (by omega))) readUnderWay
    let t := replay (lwrbShare (lwrbInit (fun _ => 0) 8 (by omega))) writeUnderWay
    (∃ n > 0, ∃ rb' : Lwrb, rb'.asQueue = (lwrbWriteEx s.rb [0x16] true).rb.asQueue ∧
      rb'.r = (lwrbWriteEx s.rb [0x16] true).rb.r ∧ rb'.w = (lwrbWriteEx s.rb [0x16] true).rb.w ∧
      replay s (List.replicate n (LwrbAccess.producer [0x16] true)) =
        { s with rb := rb', producer := .idle, writes := [[0xAA, 0x55], [0x16]] }) ∧
    ∃ n > 0, replay t (List.replicate n (LwrbAccess.consumer 1 true)) =
      { t with rb := (lwrbReadEx t.rb 1 true).rb, consumer := .idle, reads := [[0xAA]] } := by
  intro s t
  have hwrites : s.writes ++ ((lwrbWriteEx s.rb [0x16] true).ret.map fun n =>
      [0x16].take n).toList = [[0xAA, 0x55], [0x16]] := rfl
  have hreads : t.reads ++ (lwrbReadEx t.rb 1 true).ret.toList = [[0xAA]] := rfl
  rw [← hwrites, ← hreads]
  exact ⟨(lwrb_uninterrupted _ readUnderWay).1 rfl [0x16] true,
    (lwrb_uninterrupted _ writeUnderWay).2 rfl 1 true⟩

/-- A call of `lwrb_write_ex` that has room for `m` bytes is under way with at least as many,
or has written a first part of its data that is no shorter. -/
def Promised (done : List (List UInt8)) (data : List UInt8) (flags : Bool) (m : ℕ)
    (s : LwrbShared) : Prop :=
  (∃ bs, done ++ [bs] <+: s.writes ∧ m ≤ bs.length ∧ bs <+: data) ∨
    s.writes = done ∧ match s.producer with
      | .idle => False
      | .getFree data' flags' => data' = data ∧ flags' = flags ∧ m ≤ lwrbGetFree s.rb
      | .loadedW data' flags' _ => data' = data ∧ flags' = flags ∧ m ≤ lwrbGetFree s.rb
      | .granted bs => m ≤ bs.length ∧ bs <+: data
      | .copying bs _ _ => m ≤ bs.length ∧ bs <+: data

/-- The consumer only makes room. -/
theorem read_step_frame {s : LwrbShared} (h : Sound s) (btr : ℕ) (flags : Bool) :
    (lwrbReadStep s btr flags).producer = s.producer ∧ (lwrbReadStep s btr flags).writes = s.writes ∧
      lwrbGetFree s.rb ≤ lwrbGetFree (lwrbReadStep s btr flags).rb := by
  have hc := h.consumer
  unfold lwrbReadStep
  split
  · split_ifs <;> exact ⟨rfl, rfl, Nat.le_refl _⟩
  · exact ⟨rfl, rfl, Nat.le_refl _⟩
  · dsimp only
    split_ifs <;> exact ⟨rfl, rfl, Nat.le_refl _⟩
  · exact ⟨rfl, rfl, Nat.le_refl _⟩
  · next btr ptr data heq =>
    rw [heq] at hc
    obtain ⟨rfl, hbtr, -, -⟩ := hc
    rw [Lwrb.queue_length] at hbtr
    dsimp only
    split_ifs
    · exact ⟨rfl, rfl, Nat.le_refl _⟩
    · exact ⟨rfl, rfl, (giveUp_spec s.rb hbtr).1⟩

theorem promised_read {done : List (List UInt8)} {data : List UInt8} {flags : Bool} {m : ℕ}
    {s : LwrbShared} (h : Sound s) (hm : Promised done data flags m s) (btr : ℕ) (all : Bool) :
    Promised done data flags m (lwrbReadStep s btr all) := by
  obtain ⟨hp, hw, hfree⟩ := read_step_frame h btr all
  unfold Promised at hm ⊢
  rw [hp, hw]
  refine hm.imp_right fun ⟨hdone, hstate⟩ => ⟨hdone, ?_⟩
  cases hs : s.producer with
  | idle =>
    rw [hs] at hstate
    exact hstate
  | getFree data' flags' =>
    rw [hs] at hstate
    exact ⟨hstate.1, hstate.2.1, Nat.le_trans hstate.2.2 hfree⟩
  | loadedW data' flags' w =>
    rw [hs] at hstate
    exact ⟨hstate.1, hstate.2.1, Nat.le_trans hstate.2.2 hfree⟩
  | granted bs =>
    rw [hs] at hstate
    exact hstate
  | copying bs ptr k =>
    rw [hs] at hstate
    exact hstate

theorem write_step_writes (s : LwrbShared) (data : List UInt8) (flags : Bool) :
    s.writes <+: (lwrbWriteStep s data flags).writes := by
  unfold lwrbWriteStep
  split
  · split_ifs <;> exact List.prefix_rfl
  · exact List.prefix_rfl
  · dsimp only
    split_ifs <;> exact List.prefix_rfl
  · exact List.prefix_rfl
  · dsimp only
    split_ifs
    · exact List.prefix_rfl
    · exact List.prefix_append _ _

theorem promised_write {done : List (List UInt8)} {data : List UInt8} {flags : Bool} {m : ℕ}
    {s : LwrbShared} (h : Sound s) (hpos : 0 < m) (hlen : m ≤ data.length)
    (hall : flags = true → data.length ≤ m) (hm : Promised done data flags m s)
    (next : List UInt8) (more : Bool) : Promised done data flags m (lwrbWriteStep s next more) := by
  rcases hm with ⟨bs, hdone, hbs⟩ | ⟨hdone, hstate⟩
  · exact Or.inl ⟨bs, hdone.trans (write_step_writes s next more), hbs⟩
  · cases hs : s.producer with
    | idle =>
      rw [hs] at hstate
      exact hstate.elim
    | getFree data' flags' =>
      rw [hs] at hstate
      rw [writeStep_getFree hs]
      exact Or.inr ⟨hdone, hstate⟩
    | loadedW data' flags' w =>
      rw [hs] at hstate
      obtain ⟨rfl, rfl, hfree⟩ := hstate
      have hw := h.producer
      rw [hs] at hw
      obtain rfl : w = s.rb.w := hw
      -- the call is not refused, as there is room for what was promised
      have hgranted : ¬ (lwrbGetFree s.rb = 0 ∨ (lwrbGetFree s.rb < data'.length ∧ flags' = true)) := by
        rintro (hzero | ⟨hshort, hflag⟩)
        · omega
        · have := hall hflag
          omega
      rw [writeStep_granted hs hgranted]
      refine Or.inr ⟨hdone, ?_, List.take_prefix _ _⟩
      rw [List.length_take]
      omega
    | granted bs =>
      rw [hs] at hstate
      rw [writeStep_load hs]
      exact Or.inr ⟨hdone, hstate⟩
    | copying bs ptr k =>
      rw [hs] at hstate
      have hsound := h.producer
      rw [hs] at hsound
      obtain ⟨rfl, -, hk, -⟩ := hsound
      rcases Nat.lt_or_eq_of_le hk with hmore | rfl
      · rw [writeStep_copy hs hmore]
        exact Or.inr ⟨hdone, hstate⟩
      · rw [writeStep_store hs]
        exact Or.inl ⟨bs, hdone ▸ List.prefix_rfl, hstate⟩

/-- A call of `lwrb_write_ex` that would write `n` bytes to the ring as it finds it writes no
less in any interleaving: once the producer is idle again, the call has succeeded. -/
theorem lwrb_write_promise (rb : Lwrb) (before : List LwrbAccess) (data : List UInt8) (flags : Bool)
    {n : ℕ} (hidle : (replay (lwrbShare rb) before).producer = .idle)
    (hret : (lwrbWriteEx (replay (lwrbShare rb) before).rb data flags).ret = some n)
    (after : List LwrbAccess) :
    let s := replay (lwrbShare rb) before
    let s' := replay s (LwrbAccess.producer data flags :: after)
    s'.producer = .idle → ∃ bs, s.writes ++ [bs] <+: s'.writes ∧ n ≤ bs.length ∧ bs <+: data := by
  intro s s'
  have hsound : Sound s := sound_reached rb before
  by_cases hno : data.length = 0 ∨ lwrbGetFree s.rb = 0 ∨ (lwrbGetFree s.rb < data.length ∧ flags)
  · rw [lwrbWriteEx_none hno] at hret
    cases hret
  · rw [(lwrbWriteEx_some hno).1] at hret
    obtain rfl : min (lwrbGetFree s.rb) data.length = n := Option.some.inj hret
    obtain ⟨hempty, hfree⟩ := not_or.mp hno
    obtain ⟨hroom, hshort⟩ := not_or.mp hfree
    have hall : flags = true → data.length ≤ min (lwrbGetFree s.rb) data.length := by
      intro hflag
      have hfits : ¬ lwrbGetFree s.rb < data.length := fun h => hshort ⟨h, hflag⟩
      omega
    have hboth : Sound s' ∧ Promised s.writes data flags (min (lwrbGetFree s.rb) data.length) s' := by
      refine replay_invariant (I := fun s' => Sound s' ∧ Promised s.writes data flags _ s') ?_ ?_ after
      · intro s' access h
        refine ⟨(sound_step s' access h.1).1, ?_⟩
        cases access with
        | producer next more => exact promised_write h.1 (by omega) (by omega) hall h.2 next more
        | consumer btr all => exact promised_read h.1 h.2 btr all
      · refine ⟨(write_step hsound data flags).1, ?_⟩
        show Promised _ _ _ _ (lwrbWriteStep s data flags)
        rw [writeStep_idle hidle hempty]
        exact Or.inr ⟨rfl, rfl, rfl, Nat.min_le_left _ _⟩
    intro hback
    rcases hboth.2 with hdone | ⟨-, hstate⟩
    · exact hdone
    · rw [hback] at hstate
      exact hstate.elim

/-- The rest of a call for two bytes, with a read in between that finds nothing yet. -/
def interleavedWrite : List LwrbAccess :=
  [.consumer 1 false, .producer [] true, .consumer 1 false, .producer [] true, .producer [] true,
    .producer [] true, .consumer 1 false, .producer [] true, .producer [] true]

theorem lwrb_write_promise_interleaved :
    let s := lwrbShare (lwrbInit (fun _ => 0) 8 (by omega))
    ∃ bs, [] ++ [bs] <+: (replay s (LwrbAccess.producer [0xAA, 0x55] true :: interleavedWrite)).writes ∧
      2 ≤ bs.length ∧ bs <+: [0xAA, 0x55] :=
  lwrb_write_promise (lwrbInit (fun _ => 0) 8 (by omega)) [] [0xAA, 0x55] true rfl rfl interleavedWrite rfl

end Detector
