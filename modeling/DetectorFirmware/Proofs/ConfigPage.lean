import DetectorFirmware.Model.Config
import DetectorFirmware.Proofs.FlashWrite

/-! The read-modify-write of the configuration page. `ConfigInfo` is what the page is
for: two time limits, the alarm threshold and bytes that belong to neither. A setter
changes one of them, and any run of setters leaves the last value of each. -/

namespace Detector

open EventLog TeFlashProductTimeLimitId

variable {f : Flash} {page bs : List UInt8} {off : ℕ}

/-! Fields of a page. -/

/-- The `len` bytes of a page from `off` on. -/
def slice (page : List UInt8) (off len : ℕ) : List UInt8 := (page.drop off).take len

theorem storeBytes_getElem? (h : off + bs.length ≤ page.length) (i : ℕ) :
    (storeBytes page off bs)[i]? =
      if off ≤ i ∧ i < off + bs.length then bs[i - off]? else page[i]? := by
  have htake : (page.take off).length = off := List.length_take_of_le (by omega)
  rw [storeBytes_eq h, List.append_assoc]
  by_cases hlow : i < off
  · rw [if_neg (by omega), List.getElem?_append_left (by omega), List.getElem?_take_of_lt hlow]
  · rw [List.getElem?_append_right (by omega), htake]
    by_cases hin : i < off + bs.length
    · rw [if_pos ⟨by omega, hin⟩, List.getElem?_append_left (by omega)]
    · rw [if_neg (by omega), List.getElem?_append_right (by omega), List.getElem?_drop]
      congr 1
      omega

theorem slice_getElem? (page : List UInt8) (off len i : ℕ) :
    (slice page off len)[i]? = if i < len then page[off + i]? else none := by
  rw [slice, List.getElem?_take, List.getElem?_drop]

theorem slice_storeBytes_self (h : off + bs.length ≤ page.length) :
    slice (storeBytes page off bs) off bs.length = bs := by
  refine List.ext_getElem? fun i => ?_
  rw [slice_getElem?]
  by_cases hi : i < bs.length
  · rw [if_pos hi, storeBytes_getElem? h, if_pos ⟨by omega, by omega⟩, Nat.add_sub_cancel_left]
  · rw [if_neg hi, List.getElem?_eq_none (by omega)]

theorem slice_storeBytes_disjoint (h : off + bs.length ≤ page.length) {o n : ℕ}
    (hd : o + n ≤ off ∨ off + bs.length ≤ o) :
    slice (storeBytes page off bs) o n = slice page o n := by
  refine List.ext_getElem? fun i => ?_
  rw [slice_getElem?, slice_getElem?]
  by_cases hi : i < n
  · rw [if_pos hi, if_pos hi, storeBytes_getElem? h, if_neg (by omega)]
  · rw [if_neg hi, if_neg hi]

/-! One setter. -/

/-- The configuration page as bytes. -/
def configPage (f : Flash) : List UInt8 := flashRead f FLASH_CONFIG_INFO_START_ADDR FLASH_PAGE_SIZE

@[simp] theorem configPage_length (f : Flash) : (configPage f).length = 256 := by
  rw [configPage, flashRead, List.length_map, List.length_range]
  rfl

theorem flashRead_slice (f : Flash) {len : ℕ} (h : off + len ≤ 256) :
    flashRead f (FLASH_CONFIG_INFO_START_ADDR + off) len = slice (configPage f) off len := by
  refine List.ext_getElem? fun i => ?_
  rw [slice_getElem?, configPage, flashRead, flashRead, List.getElem?_map, List.getElem?_map]
  by_cases hi : i < len
  · have hoff : off + i < FLASH_PAGE_SIZE := by
      change off + i < 256
      omega
    rw [if_pos hi, List.getElem?_range hi, List.getElem?_range hoff, Option.map_some,
      Option.map_some, Nat.add_assoc]
  · rw [if_neg hi, List.getElem?_eq_none (by rw [List.length_range]; omega), Option.map_none]

/-- The first half-word of the page. -/
def configCell : ℕ := FLASH_CONFIG_INFO_START_ADDR / 2

theorem config_addr : FLASH_CONFIG_INFO_START_ADDR = 2 * configCell := rfl

theorem config_page : configCell = 128 * (FLASH_CONFIG_INFO_START_ADDR / 256) := rfl

theorem halfWords_length (bs : List UInt8) : (halfWords bs).length = bs.length / 2 := by
  induction bs using halfWords.induct with
  | case1 b0 b1 bs ih =>
    rw [halfWords, List.length_cons, ih, List.length_cons, List.length_cons]
    omega
  | case2 bs hne =>
    rcases bs with _ | ⟨b0, _ | ⟨b1, bs⟩⟩
    · rfl
    · simp [halfWords]
    · exact absurd rfl (hne b0 b1 bs)

/-- What both setters do with the page. -/
def configUpdate (off : ℕ) (bytes : List UInt8) : FlashM Unit := do
  let pageBuf ← flashErasePageReadConfigInfo
  flashWriteConfigInfo (storeBytes pageBuf off bytes)

/-- The half-words that are written back. -/
def updatedWords (f : Flash) (off : ℕ) (bytes : List UInt8) : List UInt16 :=
  halfWords (storeBytes (configPage f) off bytes)

@[simp] theorem updatedWords_length (f : Flash) (off : ℕ) (bytes : List UInt8) :
    (updatedWords f off bytes).length = 128 := by
  rw [updatedWords, halfWords_length, storeBytes_length, configPage_length]

theorem erased_configCell (f : Flash) {j : ℕ} (hj : j < 128) :
    (f.erasePage FLASH_CONFIG_INFO_START_ADDR).cells (configCell + j) = ERASED := by
  have hpage : (configCell + j) / 128 = FLASH_CONFIG_INFO_START_ADDR / 256 := by
    have := config_page
    omega
  rw [erasePage_cells, if_pos hpage]

theorem flashErasePageConfigInfo_events (f : Flash) :
    flashErasePageConfigInfo.events f = eraseOps FLASH_CONFIG_INFO_START_ADDR := by
  have hmask : FLASH_CONFIG_INFO_START_ADDR / 256 * 256 = FLASH_CONFIG_INFO_START_ADDR := rfl
  simp only [flashErasePageConfigInfo, bspFlashFastUnLock, bspFlashFastLock, flashErasePageFast,
    Prog.events_bind, Prog.events_emit, hmask]
  rfl

theorem configUpdate_events (f : Flash) (off : ℕ) (bytes : List UInt8) :
    (configUpdate off bytes).events f = eraseOps FLASH_CONFIG_INFO_START_ADDR ++
      writeOps (programOps configCell (updatedWords f off bytes)) := by
  have hfinal : flashErasePageConfigInfo.final f = f.erasePage FLASH_CONFIG_INFO_START_ADDR := by
    rw [Prog.final, flashErasePageConfigInfo_events, replay_eraseOps]
  have herased : ∀ j < (halfWords (storeBytes (configPage f) off bytes)).length,
      (f.erasePage FLASH_CONFIG_INFO_START_ADDR).cells (configCell + j) = ERASED := by
    intro j hj
    rw [← updatedWords, updatedWords_length] at hj
    exact erased_configCell f hj
  have hclean := (flashWrite_clean herased).1
  simp only [configUpdate, flashErasePageReadConfigInfo, flashWriteConfigInfo, Prog.events_bind,
    Prog.events_gets, Prog.result_bind, Prog.result_gets, Prog.result_pure, Prog.final_bind,
    Prog.final_gets, Prog.final_pure, Prog.events_pure, List.nil_append, List.append_nil,
    flashErasePageConfigInfo_events, hfinal]
  rw [← configPage, updatedWords, ← hclean]
  rfl

theorem configUpdate_final (f : Flash) (off : ℕ) (bytes : List UInt8) :
    (configUpdate off bytes).final f = replay (f.erasePage FLASH_CONFIG_INFO_START_ADDR)
      (programOps configCell (updatedWords f off bytes)) := by
  rw [Prog.final, configUpdate_events, replay_append, replay_eraseOps, replay_writeOps]

/-- The page afterwards is the page before with the new bytes in it. -/
theorem configPage_update (f : Flash) (off : ℕ) (bytes : List UInt8) :
    configPage ((configUpdate off bytes).final f) = storeBytes (configPage f) off bytes := by
  have hwords : ((configUpdate off bytes).final f).words configCell 128 = updatedWords f off bytes := by
    rw [configUpdate_final]
    have herased : ∀ j < (updatedWords f off bytes).length,
        (f.erasePage FLASH_CONFIG_INFO_START_ADDR).cells (configCell + j) = ERASED := by
      intro j hj
      rw [updatedWords_length] at hj
      exact erased_configCell f hj
    have hwords := words_replay_programOps herased
    rwa [updatedWords_length] at hwords
  rw [configPage, config_addr, show FLASH_PAGE_SIZE = 2 * 128 from rfl, flashRead_words, hwords,
    updatedWords]
  refine flatMap_wordBytes_halfWords _ ?_
  rw [storeBytes_length, configPage_length]

/-- Outside the page nothing changes. -/
theorem configUpdate_outside (f : Flash) (off : ℕ) (bytes : List UInt8) {c : ℕ}
    (h : c < configCell ∨ configCell + 128 ≤ c) :
    ((configUpdate off bytes).final f).cells c = f.cells c := by
  have hpage : c / 128 ≠ FLASH_CONFIG_INFO_START_ADDR / 256 := by
    have := config_page
    omega
  rw [configUpdate_final, replay_programOps_outside _ (by rwa [updatedWords_length]),
    erasePage_cells, if_neg hpage]

/-! The setters, and what they are for. -/

/-- A call of `Flash_SetProductTimeLimit` or of `Flash_Set_AlarmLel`. -/
inductive ConfigSet where
  | timeLimit (year : UInt16) (mon day hour min second : UInt8) (id : TeFlashProductTimeLimitId)
  | alarmLel (value : UInt16)

def ConfigSet.run : ConfigSet → FlashM Unit
  | timeLimit year mon day hour min second id =>
    flashSetProductTimeLimit year mon day hour min second id
  | alarmLel value => flashSetAlarmLel value

instance : System Flash ConfigSet where
  step f s := s.run.final f

def ConfigSet.offset : ConfigSet → ℕ
  | timeLimit _ _ _ _ _ _ id => timeLimitOffset id
  | alarmLel _ => alarmOffset

def ConfigSet.bytes : ConfigSet → List UInt8
  | timeLimit year mon day hour min second _ => (timeLimitFrame year mon day hour min second).buf
  | alarmLel value => (alarmFrame value).buf

theorem ConfigSet.run_eq (s : ConfigSet) : s.run = configUpdate s.offset s.bytes := by
  cases s <;> rfl

theorem ConfigSet.outside (f : Flash) (s : ConfigSet) {c : ℕ}
    (h : c < configCell ∨ configCell + 128 ≤ c) : (s.run.final f).cells c = f.cells c := by
  rw [s.run_eq]
  exact configUpdate_outside f s.offset s.bytes h

/-- The fields of the configuration page. -/
structure ConfigInfo where
  factoryTime : TsFlashProductTimeLimitFrame
  expirationTime : TsFlashProductTimeLimitFrame
  alarm : TsFlashMqAlarmFrame
  rest : List UInt8

def ConfigInfo.ofPage (page : List UInt8) : ConfigInfo where
  factoryTime := .ofBuf (slice page 0 8)
  expirationTime := .ofBuf (slice page 8 8)
  alarm := .ofBuf (slice page 16 4)
  rest := slice page 20 236

def configInfo (f : Flash) : ConfigInfo := .ofPage (configPage f)

/-- An id that is neither of the two sets the factory time, whose offset is zero. -/
def ConfigInfo.set (c : ConfigInfo) : ConfigSet → ConfigInfo
  | .timeLimit year mon day hour min second kExpirationTimeId =>
    { c with expirationTime := timeLimitFrame year mon day hour min second }
  | .timeLimit year mon day hour min second _ =>
    { c with factoryTime := timeLimitFrame year mon day hour min second }
  | .alarmLel value => { c with alarm := alarmFrame value }

instance : System ConfigInfo ConfigSet where
  step := ConfigInfo.set

theorem ofBuf_timeLimit (t : TsFlashProductTimeLimitFrame) :
    TsFlashProductTimeLimitFrame.ofBuf t.buf = t := by
  simp [TsFlashProductTimeLimitFrame.ofBuf, TsFlashProductTimeLimitFrame.buf]

theorem ofBuf_alarm (a : TsFlashMqAlarmFrame) : TsFlashMqAlarmFrame.ofBuf a.buf = a := by
  simp [TsFlashMqAlarmFrame.ofBuf, TsFlashMqAlarmFrame.buf]

theorem ofPage_storeBytes (page : List UInt8) (h : page.length = 256) (s : ConfigSet) :
    ConfigInfo.ofPage (storeBytes page s.offset s.bytes) = (ConfigInfo.ofPage page).set s := by
  have hself : ∀ off n (bs : List UInt8), bs.length = n → off + n ≤ 20 →
      slice (storeBytes page off bs) off n = bs := by
    rintro off n bs rfl hoff
    exact slice_storeBytes_self (by omega)
  have hother : ∀ off n o k (bs : List UInt8), bs.length = n → off + n ≤ 20 →
      (o + k ≤ off ∨ off + n ≤ o) → slice (storeBytes page off bs) o k = slice page o k := by
    rintro off n o k bs rfl hoff hd
    exact slice_storeBytes_disjoint (by omega) hd
  cases s with
  | timeLimit year mon day hour min second id =>
    have hlen : (timeLimitFrame year mon day hour min second).buf.length = 8 := rfl
    cases id with
    | kExpirationTimeId =>
      have hoff : timeLimitOffset kExpirationTimeId = 8 := rfl
      simp (disch := first | exact hlen | omega) only [ConfigInfo.ofPage, ConfigSet.offset,
        ConfigSet.bytes, ConfigInfo.set, hoff, hself, hother, ofBuf_timeLimit]
    | kFactoryTimeId | other =>
      have hoff : timeLimitOffset kFactoryTimeId = 0 := rfl
      have hoff' : timeLimitOffset other = 0 := rfl
      simp (disch := first | exact hlen | omega) only [ConfigInfo.ofPage, ConfigSet.offset,
        ConfigSet.bytes, ConfigInfo.set, hoff, hoff', hself, hother, ofBuf_timeLimit]
  | alarmLel value =>
    have hlen : (alarmFrame value).buf.length = 4 := rfl
    have hoff : alarmOffset = 16 := rfl
    simp (disch := first | exact hlen | omega) only [ConfigInfo.ofPage, ConfigSet.offset,
      ConfigSet.bytes, ConfigInfo.set, hoff, hself, hother, ofBuf_alarm]

/-- Each setter of the source sets one field. -/
theorem configInfo_step (f : Flash) (s : ConfigSet) :
    configInfo (System.step f s) = System.step (configInfo f) s := by
  have hpage : configPage (s.run.final f) = storeBytes (configPage f) s.offset s.bytes := by
    rw [s.run_eq, configPage_update]
  change configInfo (s.run.final f) = (configInfo f).set s
  rw [configInfo, hpage, ofPage_storeBytes _ (configPage_length f), configInfo]

/-! The getters, and the last value set. -/

def ConfigInfo.time (c : ConfigInfo) : TeFlashProductTimeLimitId → TsFlashProductTimeLimitFrame
  | kExpirationTimeId => c.expirationTime
  | _ => c.factoryTime

/-- What a setter leaves to be read under `id`. An id that is neither of the two counts as the
factory time. -/
def ConfigSet.timeOf (id : TeFlashProductTimeLimitId) :
    ConfigSet → Option TsFlashProductTimeLimitFrame
  | timeLimit year mon day hour min second id' =>
    if id' = kExpirationTimeId ↔ id = kExpirationTimeId then
      some
        { header := 0xA5
          year := year
          month := mon
          day := day
          hour := hour
          minute := min
          second := second }
    else none
  | alarmLel _ => none

def ConfigSet.alarmOf : ConfigSet → Option UInt16
  | alarmLel value => some value
  | timeLimit _ _ _ _ _ _ _ => none

/-- The last time limit that a run sets for `id`. -/
def lastTime (id : TeFlashProductTimeLimitId) (sets : List ConfigSet) :
    Option TsFlashProductTimeLimitFrame := (sets.filterMap (ConfigSet.timeOf id)).getLast?

def lastAlarm (sets : List ConfigSet) : Option UInt16 := (sets.filterMap ConfigSet.alarmOf).getLast?

theorem time_set (id : TeFlashProductTimeLimitId) (c : ConfigInfo) (s : ConfigSet) :
    (c.set s).time id = (s.timeOf id).getD (c.time id) := by
  cases s with
  | alarmLel value => cases id <;> rfl
  | timeLimit year mon day hour min second id' => cases id <;> cases id' <;> rfl

theorem alarm_set (c : ConfigInfo) (s : ConfigSet) :
    (c.set s).alarm = (s.alarmOf.map alarmFrame).getD c.alarm := by
  cases s with
  | alarmLel value => rfl
  | timeLimit year mon day hour min second id => cases id <;> rfl

theorem rest_set (c : ConfigInfo) (s : ConfigSet) : (c.set s).rest = c.rest := by
  cases s with
  | alarmLel value => rfl
  | timeLimit year mon day hour min second id => cases id <;> rfl

/-- `READY` exactly for a stored frame with the right header. -/
theorem getProductTimeLimit_eq (limitTime : TsFlashProductTimeLimitFrame)
    {id : TeFlashProductTimeLimitId} (hid : id ≠ other) (f : Flash) :
    flashGetProductTimeLimit limitTime id f =
      (if ((configInfo f).time id).header = FLASH_PRODUCT_TIME_FRAME_HEADER then .READY
        else .NoREADY, (configInfo f).time id) := by
  have hfactory : flashRead f FLASH_FACTORY_TIME_START_ADDR PRODUCT_TIME_LIMIT_SIZE =
      slice (configPage f) 0 8 := flashRead_slice f (by decide : 0 + 8 ≤ 256)
  have hexpiration : flashRead f FLASH_EXPIRATION_TIME_START_ADDR PRODUCT_TIME_LIMIT_SIZE =
      slice (configPage f) 8 8 := flashRead_slice f (by decide : 8 + 8 ≤ 256)
  unfold flashGetProductTimeLimit
  cases id with
  | kFactoryTimeId =>
    have hne : FLASH_FACTORY_TIME_START_ADDR ≠ 0 := by decide
    simp only [if_pos hne, hfactory, configInfo, ConfigInfo.ofPage, ConfigInfo.time]
    split_ifs with h <;> simp only [h, if_true, if_false]
  | kExpirationTimeId =>
    have hne : FLASH_EXPIRATION_TIME_START_ADDR ≠ 0 := by decide
    simp only [if_pos hne, hexpiration, configInfo, ConfigInfo.ofPage, ConfigInfo.time]
    split_ifs with h <;> simp only [h, if_true, if_false]
  | other => exact absurd rfl hid

theorem getAlarmLel_eq (f : Flash) : flashGetAlarmLel f =
    if (configInfo f).alarm.header = FLASH_CONFIG_INFO_FRAME_HEADER then (configInfo f).alarm.value
    else 0 := by
  have halarm : flashRead f FLASH_ALARM_VALUE_ADDR MQ_ALARM_SIZE = slice (configPage f) 16 4 :=
    flashRead_slice f (by decide : 16 + 4 ≤ 256)
  rw [flashGetAlarmLel, halarm]
  rfl

theorem header_of_timeOf {id : TeFlashProductTimeLimitId} {s : ConfigSet}
    {frame : TsFlashProductTimeLimitFrame} (h : s.timeOf id = some frame) :
    frame.header = FLASH_PRODUCT_TIME_FRAME_HEADER := by
  cases s with
  | alarmLel value => cases h
  | timeLimit year mon day hour min second id' =>
    rw [ConfigSet.timeOf] at h
    split_ifs at h
    injection h with h
    rw [← h]
    rfl

theorem header_of_lastTime {id : TeFlashProductTimeLimitId} {sets : List ConfigSet}
    {frame : TsFlashProductTimeLimitFrame} (h : lastTime id sets = some frame) :
    frame.header = FLASH_PRODUCT_TIME_FRAME_HEADER := by
  obtain ⟨s, -, hs⟩ := List.mem_filterMap.mp (List.mem_of_getLast? h)
  exact header_of_timeOf hs

/-! Runs of setters. -/

theorem configInfo_replay (f : Flash) (sets : List ConfigSet) :
    configInfo (replay f sets) = replay (configInfo f) sets :=
  replay_simulates configInfo configInfo_step f sets

theorem getProductTimeLimit_replay (limitTime : TsFlashProductTimeLimitFrame)
    {id : TeFlashProductTimeLimitId} (hid : id ≠ other) (f : Flash) (sets : List ConfigSet) :
    flashGetProductTimeLimit limitTime id (replay f sets) =
      match lastTime id sets with
      | some frame => (.READY, frame)
      | none => flashGetProductTimeLimit limitTime id f := by
  have htime : (configInfo (replay f sets)).time id =
      (lastTime id sets).getD ((configInfo f).time id) := by
    rw [configInfo_replay]
    exact replay_last (ConfigInfo.time · id) (ConfigSet.timeOf id) (fun c s => time_set id c s) _ _
  rw [getProductTimeLimit_eq limitTime hid, getProductTimeLimit_eq limitTime hid, htime]
  cases hlast : lastTime id sets with
  | none => rfl
  | some frame =>
    rw [Option.getD_some, if_pos (header_of_lastTime hlast)]

theorem getAlarmLel_replay (f : Flash) (sets : List ConfigSet) :
    flashGetAlarmLel (replay f sets) = (lastAlarm sets).getD (flashGetAlarmLel f) := by
  have halarm : (configInfo (replay f sets)).alarm =
      ((sets.filterMap fun s => s.alarmOf.map alarmFrame).getLast?).getD (configInfo f).alarm := by
    rw [configInfo_replay]
    exact replay_last ConfigInfo.alarm _ alarm_set _ _
  rw [getAlarmLel_eq, getAlarmLel_eq, halarm, ← List.map_filterMap, List.getLast?_map, lastAlarm]
  cases (sets.filterMap ConfigSet.alarmOf).getLast? with
  | none => rfl
  | some value => rfl

theorem rest_replay (f : Flash) (sets : List ConfigSet) :
    (configInfo (replay f sets)).rest = (configInfo f).rest := by
  rw [configInfo_replay]
  exact (replay_last ConfigInfo.rest (fun _ => none) (fun c s => rest_set c s) _ _).trans (by simp)

theorem byte_of_rest (f : Flash) {i : ℕ} (hi : i < 236) :
    f.byte (FLASH_ALARM_VALUE_ADDR + MQ_ALARM_SIZE + i) = (configInfo f).rest.getD i 0 := by
  have hrest : flashRead f (FLASH_ALARM_VALUE_ADDR + MQ_ALARM_SIZE) 236 = (configInfo f).rest :=
    flashRead_slice f (by decide : 20 + 236 ≤ 256)
  rw [← hrest, flashRead, List.getD_eq_getElem?_getD, List.getElem?_map, List.getElem?_range hi]
  rfl

theorem halfWordAt_bytes (f : Flash) {addr : ℕ} (h : addr % 2 = 0) :
    f.halfWordAt addr = halfWord (f.byte addr) (f.byte (addr + 1)) := by
  rw [Flash.byte, if_pos h, Flash.byte, if_neg (by omega), show (addr + 1) / 2 = addr / 2 by omega,
    halfWord_bytes, Flash.halfWordAt]

/-- The bytes behind the three fields stay as they are. -/
theorem byte_replay (f : Flash) (sets : List ConfigSet) {addr : ℕ}
    (hlow : FLASH_ALARM_VALUE_ADDR + MQ_ALARM_SIZE ≤ addr)
    (hhigh : addr < FLASH_CONFIG_INFO_START_ADDR + FLASH_PAGE_SIZE) :
    (replay f sets).byte addr = f.byte addr := by
  have hend : FLASH_ALARM_VALUE_ADDR + MQ_ALARM_SIZE + 236 =
      FLASH_CONFIG_INFO_START_ADDR + FLASH_PAGE_SIZE := rfl
  obtain ⟨i, rfl⟩ := Nat.exists_eq_add_of_le hlow
  rw [byte_of_rest _ (by omega), byte_of_rest _ (by omega), rest_replay]

theorem initFlag_replay (f : Flash) (sets : List ConfigSet) :
    (replay f sets).halfWordAt FLASH_INIT_FLAG_ADDR = f.halfWordAt FLASH_INIT_FLAG_ADDR := by
  have heven : FLASH_INIT_FLAG_ADDR % 2 = 0 := by decide
  rw [halfWordAt_bytes _ heven, halfWordAt_bytes _ heven,
    byte_replay f sets (by decide) (by decide), byte_replay f sets (by decide) (by decide)]

/-- Every getter shows what was set last, and nothing else of the page changes. The
time limits stay `READY` on a page where they were. -/
theorem config_last_set (f : Flash) (sets : List ConfigSet)
    (limitTime : TsFlashProductTimeLimitFrame) :
    (∀ id ∈ [kFactoryTimeId, kExpirationTimeId],
      flashGetProductTimeLimit limitTime id (replay f sets) =
          (match lastTime id sets with
          | some frame => (.READY, frame)
          | none => flashGetProductTimeLimit limitTime id f) ∧
        ((flashGetProductTimeLimit limitTime id f).1 = .READY →
          (flashGetProductTimeLimit limitTime id (replay f sets)).1 = .READY)) ∧
    flashGetAlarmLel (replay f sets) = (lastAlarm sets).getD (flashGetAlarmLel f) ∧
    (∀ addr, FLASH_ALARM_VALUE_ADDR + MQ_ALARM_SIZE ≤ addr →
      addr < FLASH_CONFIG_INFO_START_ADDR + FLASH_PAGE_SIZE →
        (replay f sets).byte addr = f.byte addr) ∧
    (replay f sets).halfWordAt FLASH_INIT_FLAG_ADDR = f.halfWordAt FLASH_INIT_FLAG_ADDR := by
  refine ⟨?_, getAlarmLel_replay f sets, fun addr => byte_replay f sets, initFlag_replay f sets⟩
  intro id hid
  have hne : id ≠ other := by
    rintro rfl
    revert hid
    decide
  have hget := getProductTimeLimit_replay limitTime hne f sets
  refine ⟨hget, fun hready => ?_⟩
  rw [hget]
  cases lastTime id sets with
  | none => exact hready
  | some frame => rfl

end Detector
