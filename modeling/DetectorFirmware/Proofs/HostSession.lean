import DetectorFirmware.Model.HostLink
import DetectorFirmware.Proofs.HandOver
import DetectorFirmware.Proofs.Regions
import DetectorFirmware.Proofs.Response
import DetectorFirmware.Proofs.SensorFailure

/-! The host link from end to end. A request that arrives in a wake-up of its own is answered
once, from the state that the requests before it left, and every answer is a frame that the
scanner accepts. No host can reach the records. -/

namespace Detector

open EventLog Division TeFrameC2

/-! Answers. -/

/-- The length of the data field of an answer. -/
def replyLen (c2 : UInt8) : ℕ :=
  match TeFrameC2.ofByte c2 with
  | some kNumOfRecords | some kSensorFailureRecord | some kGetCurrentTimeSecond
  | some kSetCurrentTime | some kSetFactoryTime | some kSetExpirationTime => 7
  | some kAlarmRecord | some kAlarmRcyRecord | some kFaultRecord | some kFaultRcyRecord
  | some kPowerFailureRecord | some kPowerOnRecord | some kGetCurrentTime => 6
  | some kSetAlarmValue | some kGetAlarmValue => 2
  | _ => 0

/-- Its first control byte. -/
def replyC1 (frame : TsFrameData) : UInt8 := if frame.c2 = 0 then 0 else frame.c1

variable {frame : TsFrameData} {heap : ℕ → UInt8} {rtc : Rtc} {f : Flash}

/-- What the `switch` leaves behind fits the answer that is announced. -/
structure Prepared (frame : TsFrameData) (a : Answer) : Prop where
  c1 : a.c1 = replyC1 frame
  field : a.dataField.length = 64
  len : a.dataLen.toNat = replyLen frame.c2

theorem recordField_length (recordType : TeFrameC2) (index : UInt8) (f : Flash) :
    (recordField recordType index f).length = 64 := by
  unfold recordField
  split <;> exact dataFieldWith_length _

/-- The first enumerator is zero. -/
theorem ofByte_first {c2 : UInt8} : TeFrameC2.ofByte c2 = some kNumOfRecords ↔ c2 = 0 := by
  refine ⟨fun h => ?_, fun h => h ▸ rfl⟩
  obtain ⟨hlt, hget⟩ := List.getElem?_eq_some_iff.mp h
  have hfirst : ∀ i : Fin 23, TeFrameC2.all[i] = kNumOfRecords → i.val = 0 := by decide
  exact UInt8.toNat_inj.mp (hfirst ⟨c2.toNat, hlt⟩ hget)

theorem replyC1_other {type : Option TeFrameC2} (htype : TeFrameC2.ofByte frame.c2 = type)
    (hne : type ≠ some kNumOfRecords) : frame.c1 = replyC1 frame := by
  rw [replyC1, if_neg]
  exact fun hzero => hne (htype.symm.trans (ofByte_first.mpr hzero))

theorem prepared_hrSwitch (heap : ℕ → UInt8) (frame : TsFrameData) (rtc : Rtc) (f : Flash) :
    Prepared frame ((hrSwitch heap frame rtc).result f) := by
  cases htype : TeFrameC2.ofByte frame.c2 with
  | none =>
    simp only [hrSwitch, htype, Prog.result_pure]
    exact ⟨replyC1_other htype (by decide), dataFieldWith_length _, by rw [replyLen, htype]; rfl⟩
  | some type =>
    cases type with
    | kNumOfRecords =>
      simp only [hrSwitch, htype, Prog.result_bind, Prog.result_gets, Prog.result_pure]
      refine ⟨?_, dataFieldWith_length _, by rw [replyLen, htype]; rfl⟩
      rw [replyC1, if_pos (ofByte_first.mp htype)]
    | kAlarmRecord =>
      simp only [hrSwitch, htype, Prog.result_bind, Prog.result_gets, Prog.result_pure]
      refine ⟨replyC1_other htype (by decide), ?_, by rw [replyLen, htype]; rfl⟩
      split_ifs
      · rw [storeBytes_length, recordField_length]
      · exact recordField_length kAlarmRecord frame.c1 f
    | kAlarmRcyRecord | kFaultRecord | kFaultRcyRecord | kPowerFailureRecord | kPowerOnRecord =>
      simp only [hrSwitch, htype, Prog.result_bind, Prog.result_gets, Prog.result_pure]
      refine ⟨replyC1_other htype (by decide), ?_, by rw [replyLen, htype]; rfl⟩
      dsimp only
      rw [recordField_length]
    | kSensorFailureRecord =>
      simp only [hrSwitch, htype, Prog.result_bind, Prog.result_gets, Prog.result_pure]
      exact ⟨replyC1_other htype (by decide), sensorFailureField_length frame.c1 f,
        by rw [replyLen, htype]; rfl⟩
    | _ =>
      simp only [hrSwitch, htype, Prog.result_bind, Prog.result_gets, Prog.result_pure]
      exact ⟨replyC1_other htype (by decide), dataFieldWith_length _, by rw [replyLen, htype]; rfl⟩

theorem replyLen_le (c2 : UInt8) : replyLen c2 ≤ 7 := by
  unfold replyLen
  split <;> decide

/-- The answer is one wire frame. -/
theorem hrProcessData_reply (heap : ℕ → UInt8) (frame : TsFrameData) (rtc : Rtc) (f : Flash) :
    ∃ payload, ((hrProcessData heap frame rtc).result f).1 =
        some (wireFrame (replyC1 frame) frame.c2 payload) ∧ payload.length = replyLen frame.c2 := by
  obtain ⟨hc1, hfield, hlen⟩ := prepared_hrSwitch heap frame rtc f
  have hle := replyLen_le frame.c2
  have h64 : ((hrSwitch heap frame rtc).result f).dataLen.toNat ≤ 64 := by omega
  unfold hrProcessData
  rw [Prog.result_bind, Prog.result_pure, hrSend_eq _ _ hfield h64, hc1]
  refine ⟨_, rfl, ?_⟩
  split_ifs
  · rw [List.length_replicate, hlen]
  · rw [List.length_take, hfield, hlen]
    omega

/-! The scanner at the start of a wire frame. -/

/-- A frame as its sender means it. -/
structure HostFrame where
  c1 : UInt8
  c2 : UInt8
  payload : List UInt8
  payload_le : payload.length ≤ 255

/-- The bytes on the wire. -/
def HostFrame.sent (q : HostFrame) : List UInt8 := wireFrame q.c1 q.c2 q.payload

theorem sent_length (q : HostFrame) : q.sent.length = q.payload.length + 6 := wireFrame_length ..

/-- What the other side should make of them. -/
def HostFrame.asFrame (q : HostFrame) : TsFrameData where
  c1 := q.c1
  c2 := q.c2
  len := UInt8.ofNat q.payload.length
  data := q.payload
  data_length := by rw [UInt8.toNat_ofNat', Nat.mod_eq_of_lt (Nat.lt_succ_of_le q.payload_le)]

theorem frame_ext {a b : TsFrameData} (hc1 : a.c1 = b.c1) (hc2 : a.c2 = b.c2)
    (hdata : a.data = b.data) : a = b := by
  obtain ⟨c1, c2, len, data, h⟩ := a
  obtain ⟨c1', c2', len', data', h'⟩ := b
  obtain rfl : len = len' := by
    refine UInt8.toNat_inj.mp ?_
    rw [← h, ← h']
    exact congrArg List.length hdata
  cases hc1
  cases hc2
  cases hdata
  rfl

theorem ofNat_ne_zero {n : ℕ} (hpos : 0 < n) (hlt : n < 256) : UInt8.ofNat n ≠ 0 := by
  intro hzero
  have hn := congrArg UInt8.toNat hzero
  rw [UInt8.toNat_ofNat', Nat.mod_eq_of_lt hlt] at hn
  exact Nat.ne_of_gt hpos hn

/-- A request at the start of a buffer is found, whatever the buffer holds behind it. -/
theorem scan_request (q : HostFrame) {m : ℕ → UInt8} {n : UInt8} (hn : n ≠ 0)
    (hm : ∀ j < q.payload.length + 6, m j = q.sent.getD j 0) :
    (hrGetFrameData (fun _ => true) n).result m = some q.asFrame := by
  obtain ⟨hit, h1, h2, -, hdata⟩ := hit_of_wireFrame (m := m) (i := 0)
    (Nat.lt_succ_of_le q.payload_le) fun j hj => by rw [Nat.zero_add]; exact hm j hj
  have hpos : 0 < n.toNat := Nat.pos_of_ne_zero fun h => hn (UInt8.toNat_inj.mp h)
  rw [hrGetFrameData, result_of_first_hit hit 0 (Nat.le_refl _) (by omega)
    fun j _ hj => absurd hj (Nat.not_lt_zero j)]
  exact congrArg some (frame_ext h1 h2 hdata)

/-- Whatever frame is received, with whatever behind it in the heap, and whatever the flash and
the clock hold, the device sends one frame, with the control byte that was asked for and as
many data bytes as the command has; a host that scans as the device does finds it. -/
theorem reply_heard (heap : ℕ → UInt8) (frame : TsFrameData) (rtc : Rtc) (f : Flash) :
    ∃ q : HostFrame, ((hrProcessData heap frame rtc).result f).1 = some q.sent ∧
      q.c1 = replyC1 frame ∧ q.c2 = frame.c2 ∧ q.payload.length = replyLen frame.c2 ∧
      ∀ rest : ℕ → UInt8, (hrGetFrameData (fun _ => true) (UInt8.ofNat q.sent.length)).result
        (fun j => q.sent.getD j (rest j)) = some q.asFrame := by
  obtain ⟨payload, hsent, hlen⟩ := hrProcessData_reply heap frame rtc f
  have hshort := replyLen_le frame.c2
  have hle : payload.length ≤ 255 := by omega
  refine ⟨⟨replyC1 frame, frame.c2, payload, hle⟩, hsent, rfl, rfl, hlen, fun rest => ?_⟩
  refine scan_request _ (ofNat_ne_zero ?_ ?_) fun j hj => ?_
  · rw [sent_length]
    exact Nat.succ_pos _
  · rw [sent_length]
    show payload.length + 6 < 256
    omega
  · have hj' : j < (HostFrame.sent ⟨replyC1 frame, frame.c2, payload, hle⟩).length := by
      rw [sent_length]
      exact hj
    rw [List.getD_eq_getElem _ _ hj', List.getD_eq_getElem _ _ hj']

/-! Sessions. -/

/-- A request that arrives in a wake-up of its own, with what comes behind it in the same
wake-up and what the heap holds behind the block of its frame. -/
structure Exchange where
  request : HostFrame
  behind : List UInt8
  heap : ℕ → UInt8
  fits : request.payload.length + 6 + behind.length ≤ 32

def Exchange.round (x : Exchange) : HrRound :=
  ⟨⟨fun rb => lwrbWrite rb (x.request.sent ++ x.behind), fun _ => true⟩, x.heap⟩

/-- A server without a wire: what it keeps are the clock and the flash. -/
def serve : Rtc × Flash → List Exchange →
    List (Option (List UInt8) × List FlashOp) × (Rtc × Flash)
  | s, [] => ([], s)
  | (rtc, f), x :: xs =>
    let y := hrProcessData x.heap x.request.asFrame rtc
    let rest := serve ((y.result f).2, y.final f) xs
    (((y.result f).1, y.events f) :: rest.1, rest.2)

/-- Ready for the next wake-up: an empty ring with room for what `buf[32]` can take. -/
def Ready (d : HrDevice) : Prop := d.thread.uart2RxRb.queue = [] ∧ 32 < d.thread.uart2RxRb.size

theorem lwrbRead_size (rb : Lwrb) (n : ℕ) : (lwrbRead rb n).2.size = rb.size := by
  unfold lwrbRead
  dsimp only
  split_ifs <;> rfl

theorem lwrbWrite_size (rb : Lwrb) (data : List UInt8) : (lwrbWrite rb data).size = rb.size := by
  unfold lwrbWrite
  dsimp only
  split_ifs <;> rfl

/-- A wake-up that finds six bytes or more, and not too many to count, hands them all over. -/
theorem hrThreadEntry_all (s : HrThread) (wake : Wake) {bytes : List UInt8}
    (hqueue : (wake.uart2RxCheck s.uart2RxRb).queue = bytes) (hmin : 6 ≤ bytes.length)
    (hmax : bytes.length ≤ 255) :
    hrThreadEntry s wake =
      (⟨bytes, some (UInt8.ofNat bytes.length),
          (hrGetFrameData wake.rtMalloc (UInt8.ofNat bytes.length)).result
            (RingWindow.blit s.stack 0 bytes)⟩,
        ⟨(lwrbRead (wake.uart2RxCheck s.uart2RxRb) bytes.length).2,
          RingWindow.blit s.stack 0 bytes⟩) := by
  have hfull : lwrbGetFull (wake.uart2RxCheck s.uart2RxRb) = bytes.length := by
    rw [← Lwrb.queue_length, hqueue]
  have hlen : (UInt8.ofNat bytes.length).toNat = bytes.length := by
    rw [UInt8.toNat_ofNat', Nat.mod_eq_of_lt (Nat.lt_succ_of_le hmax)]
  have henough : UInt8.ofNat bytes.length ≥ HOST_FRAME_MIN_LEN := by
    rw [ge_iff_le, UInt8.le_iff_toNat_le, hlen]
    exact hmin
  have hcopied : (lwrbRead (wake.uart2RxCheck s.uart2RxRb) bytes.length).1 = bytes := by
    rw [(lwrbRead_spec _ _).1, hqueue, List.take_length]
  simp only [hrThreadEntry, hfull, hlen, hcopied, if_pos henough]

/-- One exchange: what a server without a wire does, and the device is ready again. -/
theorem hrRound_exchange {d : HrDevice} (h : Ready d) (x : Exchange) :
    let y := hrProcessData x.heap x.request.asFrame d.rtc
    ∃ thread, hrRound d x.round =
        some (((y.result d.flash).1, y.events d.flash),
          ⟨thread, (y.result d.flash).2, y.final d.flash⟩) ∧
      Ready ⟨thread, (y.result d.flash).2, y.final d.flash⟩ := by
  obtain ⟨hempty, hsize⟩ := h
  have hfits := x.fits
  have hlen : (x.request.sent ++ x.behind).length = x.request.payload.length + 6 + x.behind.length := by
    rw [List.length_append, sent_length]
  have hqueue : (x.round.wake.uart2RxCheck d.thread.uart2RxRb).queue = x.request.sent ++ x.behind := by
    have hfree := lwrbGetFree_eq d.thread.uart2RxRb
    rw [← Lwrb.queue_length, hempty, List.length_nil] at hfree
    have hwrite := lwrbWrite_spec d.thread.uart2RxRb (x.request.sent ++ x.behind)
    rwa [hempty, List.nil_append, List.take_of_length_le (by omega)] at hwrite
  have hentry := hrThreadEntry_all d.thread x.round.wake hqueue (by omega) (by omega)
  have hscan : (hrGetFrameData (fun _ => true) (UInt8.ofNat (x.request.sent ++ x.behind).length)).result
      (RingWindow.blit d.thread.stack 0 (x.request.sent ++ x.behind)) = some x.request.asFrame := by
    refine scan_request x.request (ofNat_ne_zero (by omega) (by omega)) fun j hj => ?_
    have hj' : j < (x.request.sent ++ x.behind).length := by omega
    have hsent : j < x.request.sent.length := by rw [sent_length]; exact hj
    have hblit : RingWindow.blit d.thread.stack 0 (x.request.sent ++ x.behind) (0 + j) = _ :=
      RingWindow.blit_inside hj'
    rw [Nat.zero_add] at hblit
    rw [hblit, List.getElem_append_left hsent, List.getD_eq_getElem _ _ hsent]
  refine ⟨⟨(lwrbRead (x.round.wake.uart2RxCheck d.thread.uart2RxRb)
      (x.request.sent ++ x.behind).length).2,
      RingWindow.blit d.thread.stack 0 (x.request.sent ++ x.behind)⟩, ?_, ?_, ?_⟩
  · simp only [hrRound, hentry]
    rw [if_pos (by omega)]
    simp only [Exchange.round, hscan]
  · rw [(lwrbRead_spec _ _).2, hqueue, List.drop_length]
  · dsimp only
    rw [lwrbRead_size]
    exact Nat.lt_of_lt_of_eq hsize (lwrbWrite_size _ _).symm

/-- A session over the wire is the server without a wire: every request that arrives in a
wake-up of its own is answered, once and in order, from the state that the requests before it
left; what comes behind it in the same wake-up is dropped. -/
theorem host_session {d : HrDevice} (h : Ready d) (xs : List Exchange) :
    ∃ thread, hrRounds d (xs.map Exchange.round) =
        some ((serve (d.rtc, d.flash) xs).1,
          ⟨thread, (serve (d.rtc, d.flash) xs).2.1, (serve (d.rtc, d.flash) xs).2.2⟩) ∧
      thread.uart2RxRb.queue = [] := by
  induction xs generalizing d with
  | nil => exact ⟨d.thread, rfl, h.1⟩
  | cons x xs ih =>
    obtain ⟨thread, hround, hready⟩ := hrRound_exchange h x
    obtain ⟨thread', hrest, hempty⟩ := ih hready
    refine ⟨thread', ?_, hempty⟩
    simp only [List.map_cons, hrRounds, hround, serve, Option.bind_eq_bind, Option.bind_some]
    rw [hrest]
    rfl

/-- A set-alarm command with a stray header byte behind it. -/
def alarmExchange : Exchange := ⟨⟨0, 0x0D, [0x0B, 0xB8], by decide⟩, [0xAA], fun _ => 0, by decide⟩

/-- It, and the question for the value. -/
def alarmExchanges : List Exchange :=
  [alarmExchange, ⟨⟨0, 0x0F, [], by decide⟩, [], fun _ => 0, by decide⟩]

def readyDevice : HrDevice :=
  ⟨⟨lwrbInit (fun _ => 0) 64 (by decide), fun _ => 0⟩, coldStart 0 (fun _ => 0) (fun _ => 0), blankFlash⟩

theorem ready_readyDevice : Ready readyDevice := ⟨rfl, by decide⟩

theorem host_session_alarm :
    ∃ thread, hrRounds readyDevice (alarmExchanges.map Exchange.round) =
        some ((serve (readyDevice.rtc, readyDevice.flash) alarmExchanges).1,
          ⟨thread, (serve (readyDevice.rtc, readyDevice.flash) alarmExchanges).2.1,
            (serve (readyDevice.rtc, readyDevice.flash) alarmExchanges).2.2⟩) ∧
      thread.uart2RxRb.queue = [] :=
  host_session ready_readyDevice alarmExchanges

/-! The records. -/

/-- Whatever frame is processed, only the configuration page is erased or programmed. -/
theorem events_hrProcessData (heap : ℕ → UInt8) (frame : TsFrameData) (rtc : Rtc) (f : Flash) :
    ∀ op ∈ (hrProcessData heap frame rtc).events f, FlashPart.config.Owns op := by
  have hlimit : ∀ id, ∀ op ∈ (setTimeLimit frame heap id).events f, FlashPart.config.Owns op := by
    intro id op hop
    rw [setTimeLimit, Prog.events_bind, Prog.events_bind, Prog.events_gets, Prog.events_pure,
      List.append_nil, List.append_nil] at hop
    exact (local_configSet (.timeLimit _ _ _ _ _ _ id)).owned f op hop
  have halarm : ∀ op ∈ (flashSetAlarmLel (frame.bigEndian heap)).events f, FlashPart.config.Owns op :=
    (local_configSet (.alarmLel _)).owned f
  intro op hop
  rw [hrProcessData, Prog.events_bind, Prog.events_pure, List.append_nil] at hop
  cases htype : TeFrameC2.ofByte frame.c2 with
  | none =>
    simp only [hrSwitch, htype, Prog.events_pure, List.not_mem_nil] at hop
  | some type =>
    cases type with
    | kSetFactoryTime =>
      simp only [hrSwitch, htype, Prog.events_bind, Prog.events_pure, List.append_nil] at hop
      exact hlimit _ op hop
    | kSetExpirationTime =>
      simp only [hrSwitch, htype, Prog.events_bind, Prog.events_pure, List.append_nil] at hop
      exact hlimit _ op hop
    | kSetAlarmValue =>
      simp only [hrSwitch, htype, Prog.events_bind, Prog.events_pure, List.append_nil] at hop
      exact halarm op hop
    | _ =>
      simp only [hrSwitch, htype, Prog.events_bind, Prog.events_gets, Prog.events_pure,
        List.append_nil, List.not_mem_nil] at hop

/-- What a record query reads depends on the pages of its records only. -/
theorem flashReadRecord_congr {record : TeRecord} {g : Flash} (h : (FlashPart.records record).Same f g)
    (index : ℕ) : flashReadRecord record index f = flashReadRecord record index g := by
  have hread : ∀ page < hrRecordPages record, ∀ k,
      flashRead f (hrStartAddr record + FLASH_PAGE_SIZE * page + inPageOffset k) HR_RECORD_FRAME_LEN =
        flashRead g (hrStartAddr record + FLASH_PAGE_SIZE * page + inPageOffset k)
          HR_RECORD_FRAME_LEN := by
    intro page hpage k
    have hin := inPageOffset_le k
    refine List.map_congr_left fun i hi => h.byte ?_
    have hi : i < 10 := List.mem_range.mp hi
    rw [Nat.add_assoc]
    exact contains_recordPage hpage (by omega)
  have hpages := hrRecordPages_pos record
  simp only [flashReadRecord, maxIndex_congr h]
  split_ifs
  · exact hread _ (pageOffset_lt record _) _
  · exact hread 0 hpages _
  · exact hread _ (pageOffset_lt record _) _
  · rfl

/-- The records of a flash, as all queries see them. -/
def SameReadings (f g : Flash) : Prop :=
  ∀ record, flashGetNumRecords record f = flashGetNumRecords record g ∧
    ∀ index, flashReadRecord record index f = flashReadRecord record index g

theorem sameReadings_of_same {g : Flash} (h : ∀ record, (FlashPart.records record).Same f g) :
    SameReadings f g :=
  fun record => ⟨by rw [flashGetNumRecords, maxIndex_congr (h record), flashGetNumRecords],
    flashReadRecord_congr (h record)⟩

theorem hrRound_records {d d' : HrDevice} {r : HrRound} {out : Option (List UInt8) × List FlashOp}
    (h : hrRound d r = some (out, d')) :
    (∀ op ∈ out.2, FlashPart.config.Owns op) ∧
      ∀ record, (FlashPart.records record).Same d'.flash d.flash := by
  simp only [hrRound] at h
  split_ifs at h
  cases hframe : (hrThreadEntry d.thread r.wake).1.hostFrameData with
  | none =>
    rw [hframe] at h
    cases h
    exact ⟨fun op hop => absurd hop List.not_mem_nil, fun record => (flashDivision.equivalence _).refl _⟩
  | some frame =>
    rw [hframe] at h
    cases h
    have hops := events_hrProcessData r.heap frame d.rtc d.flash
    refine ⟨hops, fun record => ?_⟩
    exact flashDivision.replay_frame (k := .config) hops (show FlashPart.records record ≠ .config by simp) _

/-- Whatever bytes arrive, in whatever wake-ups, so long as they do not overrun the buffer: only
the configuration page is erased or programmed, and all records read as before. -/
theorem host_keeps_records {d d' : HrDevice} {rs : List HrRound}
    {outs : List (Option (List UInt8) × List FlashOp)} (h : hrRounds d rs = some (outs, d')) :
    (∀ out ∈ outs, ∀ op ∈ out.2, FlashPart.config.Owns op) ∧ SameReadings d'.flash d.flash := by
  suffices hrun : (∀ out ∈ outs, ∀ op ∈ out.2, FlashPart.config.Owns op) ∧
      ∀ record, (FlashPart.records record).Same d'.flash d.flash from
    ⟨hrun.1, sameReadings_of_same hrun.2⟩
  induction rs generalizing d outs with
  | nil =>
    cases h
    exact ⟨fun out hout => absurd hout List.not_mem_nil, fun record => (flashDivision.equivalence _).refl _⟩
  | cons r rs ih =>
    simp only [hrRounds, Option.bind_eq_bind, Option.bind_eq_some_iff, Prod.exists] at h
    obtain ⟨response, ops, d₁, hround, outs', d₂, hrest, hlast⟩ := h
    cases hlast
    obtain ⟨hfirst, hsame⟩ := hrRound_records hround
    obtain ⟨hops, hsame'⟩ := ih hrest
    exact ⟨List.forall_mem_cons.mpr ⟨hfirst, hops⟩,
      fun record => (flashDivision.equivalence _).trans (hsame' record) (hsame record)⟩

/-- A set-alarm command, which rewrites the configuration page. -/
theorem host_keeps_records_alarm :
    ∃ outs d', hrRounds readyDevice [alarmExchange.round] = some (outs, d') ∧
      (∀ out ∈ outs, ∀ op ∈ out.2, FlashPart.config.Owns op) ∧
      SameReadings d'.flash readyDevice.flash := by
  obtain ⟨thread, hround, -⟩ := hrRound_exchange ready_readyDevice alarmExchange
  obtain ⟨outs, d', hrun⟩ : ∃ outs d', hrRounds readyDevice [alarmExchange.round] = some (outs, d') := by
    rw [hrRounds, hround]
    exact ⟨_, _, rfl⟩
  exact ⟨outs, d', hrun, host_keeps_records hrun⟩

end Detector
