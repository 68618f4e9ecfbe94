import Mathlib.Data.List.Perm.Subperm
import DetectorFirmware.Proofs.ButtonPresses

/-! All keys. Each button has its place in the list and its bit in the registers, so a scan
gives every button its own level, and what a button does is what it would do alone. -/

namespace Detector

open EventLog FlexButtonEvent FlexBtnStage

/-- The levels of the pins, as the read functions give them. -/
def pinLevel (level : ℕ → Bool) (button : ℕ) : UInt8 := if level button then 1 else 0

/-! Bits. -/

/-- One bit is set, if at all. -/
theorem orBit (reg : BitVec 32) (v : Bool) (i : ℕ) {j : ℕ} (hj : j < 32) :
    (reg ||| ((if v then 1#32 else 0#32) <<< i)).getLsbD j =
      (reg.getLsbD j || (v && decide (j = i))) := by
  rw [BitVec.getLsbD_or, BitVec.getLsbD_shiftLeft]
  congr 1
  cases v with
  | false => simp
  | true =>
    rw [if_pos rfl, BitVec.getLsbD_one]
    by_cases hlt : j < i
    · simp [hlt, Nat.ne_of_lt hlt]
    · simp only [hj, hlt, decide_true, decide_false, Bool.not_false, Bool.true_and, Nat.zero_lt_succ]
      exact decide_eq_decide.mpr (by omega)

theorem pinLevel_bits (level : ℕ → Bool) (button : ℕ) :
    BitVec.ofNat 32 (pinLevel level button).toNat = if level button then 1#32 else 0#32 := by
  cases hlevel : level button <;> simp [pinLevel, hlevel]

theorem btnIsPressed_eq (reg : BitVec 32) {i : UInt8} (hi : i.toNat < 32) :
    btnIsPressed reg i = reg.getLsbD i.toNat := by
  rw [btnIsPressed, ← BitVec.twoPow_eq, BitVec.and_twoPow]
  have hne : BitVec.twoPow 32 i.toNat ≠ 0#32 := by
    intro hzero
    have hbit := congrArg (fun x => x.getLsbD i.toNat) hzero
    simp [hi] at hbit
  cases hbit : reg.getLsbD i.toNat <;> simp [hne]

/-! The place of a button in the list is the number of buttons behind it. -/

/-- The counter of a loop over the list. -/
def AtPlace (i : UInt8) (l : List ℕ) : Prop := l ≠ [] → i.toNat + 1 = l.length

theorem atPlace_next {i : UInt8} {a : ℕ} {next : List ℕ} (h : AtPlace i (a :: next)) :
    i.toNat = next.length ∧ AtPlace (i - 1) next := by
  have hi := h (List.cons_ne_nil a next)
  rw [List.length_cons] at hi
  refine ⟨by omega, fun hne => ?_⟩
  have hpos := List.length_pos_iff.mpr hne
  have hle : (1 : UInt8) ≤ i := by
    rw [UInt8.le_iff_toNat_le]
    show 1 ≤ i.toNat
    omega
  rw [UInt8.toNat_sub_of_le _ _ hle]
  show i.toNat - 1 + 1 = _
  omega

section
variable {mem : ℕ → FlexButton} (level : ℕ → Bool)

/-- Each button's level comes to its bit, and no other bit changes. -/
theorem readLoop_bits {l : List ℕ} {i : UInt8} (raw : BitVec 32) (hi : AtPlace i l)
    (hlen : l.length ≤ 32) (hread : ∀ a ∈ l, (mem a).usrButtonRead = true) :
    (∀ a post, a :: post <:+ l →
      (flexButtonReadLoop mem (pinLevel level) l i raw).getLsbD post.length =
        (raw.getLsbD post.length || level a)) ∧
    ∀ j, l.length ≤ j → j < 32 →
      (flexButtonReadLoop mem (pinLevel level) l i raw).getLsbD j = raw.getLsbD j := by
  induction l generalizing i raw with
  | nil => exact ⟨fun a post h => absurd (List.suffix_nil.mp h) (List.cons_ne_nil a post), fun j _ _ => rfl⟩
  | cons b next ih =>
    obtain ⟨hplace, hnext⟩ := atPlace_next hi
    rw [List.length_cons] at hlen
    obtain ⟨hbits, hrest⟩ := ih (raw ||| (BitVec.ofNat 32 (pinLevel level b).toNat <<< i.toNat)) hnext
      (by omega) fun a ha => hread a (List.mem_cons_of_mem b ha)
    rw [flexButtonReadLoop, if_pos (hread b List.mem_cons_self)]
    refine ⟨fun a post h => ?_, fun j hj hlt => ?_⟩
    · rcases List.suffix_cons_iff.mp h with heq | hsuffix
      · obtain ⟨rfl, rfl⟩ := List.cons.inj heq
        rw [hrest post.length (Nat.le_refl _) (by omega), pinLevel_bits, orBit _ _ _ (by omega), hplace]
        simp
      · have hlt : post.length < next.length := hsuffix.length_le
        rw [hbits a post hsuffix, pinLevel_bits, orBit _ _ _ (by omega), hplace]
        simp [Nat.ne_of_lt hlt]
    · rw [List.length_cons] at hj
      rw [hrest j (by omega) hlt, pinLevel_bits, orBit _ _ _ hlt, hplace]
      simp [Nat.ne_of_gt (show next.length < j by omega)]

/-- The buttons of the list step each with its own level; their callbacks come in the order of
the list. -/
theorem processLoop_eq {reg : BitVec 32} {pressed : ℕ → Bool} {l : List ℕ} {i : UInt8}
    (hi : AtPlace i l) (hlen : l.length ≤ 32) (hnodup : l.Nodup)
    (hbits : ∀ a post, a :: post <:+ l → reg.getLsbD post.length = pressed a) (p : FlexProcess) :
    flexButtonProcessLoop reg l i p =
      { mem := fun a => if a ∈ l then (flexButtonStep (p.mem a) (pressed a)).1 else p.mem a
        activeBtnCnt := p.activeBtnCnt + UInt8.ofNat (l.countP fun a =>
          (flexButtonStep (p.mem a) (pressed a)).1.status ≠ FLEX_BTN_STAGE_DEFAULT)
        calls := p.calls ++ l.flatMap fun a =>
          (flexButtonStep (p.mem a) (pressed a)).2.toList.map fun c => (a, c) } := by
  induction l generalizing i p with
  | nil => simp [flexButtonProcessLoop]
  | cons b next ih =>
    obtain ⟨hplace, hnext⟩ := atPlace_next hi
    rw [List.length_cons] at hlen
    obtain ⟨hb, hnodup⟩ := List.nodup_cons.mp hnodup
    have hne : ∀ a ∈ next, a ≠ b := fun a ha heq => hb (heq ▸ ha)
    have hpressed : btnIsPressed reg i = pressed b := by
      rw [btnIsPressed_eq reg (by omega), hplace, hbits b next List.suffix_rfl]
    have hsuffix : ∀ a post, a :: post <:+ next → reg.getLsbD post.length = pressed a :=
      fun a post h => hbits a post (h.trans (List.suffix_cons b next))
    rw [flexButtonProcessLoop, hpressed]
    dsimp only
    rw [ih hnext (by omega) hnodup hsuffix]
    congr 1
    · funext a
      by_cases hab : a = b
      · simp [hab, hb]
      · simp [hab]
    · rw [List.countP_cons]
      have hcount : next.countP (fun a => (flexButtonStep (Function.update p.mem b
            (flexButtonStep (p.mem b) (pressed b)).1 a) (pressed a)).1.status ≠ FLEX_BTN_STAGE_DEFAULT) =
          next.countP fun a => (flexButtonStep (p.mem a) (pressed a)).1.status ≠ FLEX_BTN_STAGE_DEFAULT :=
        List.countP_congr fun a ha => by rw [Function.update_of_ne (hne a ha)]
      rw [hcount]
      by_cases hup : (flexButtonStep (p.mem b) (pressed b)).1.status = FLEX_BTN_STAGE_DEFAULT
      · simp [hup]
      · simp [hup, UInt8.ofNat_add, UInt8.add_assoc, UInt8.add_comm]
    · have hcalls : next.flatMap (fun a => (flexButtonStep (Function.update p.mem b
            (flexButtonStep (p.mem b) (pressed b)).1 a) (pressed a)).2.toList.map fun c => (a, c)) =
          next.flatMap fun a => (flexButtonStep (p.mem a) (pressed a)).2.toList.map fun c => (a, c) :=
        List.flatMap_congr fun a ha => by rw [Function.update_of_ne (hne a ha)]
      rw [hcalls, List.flatMap_cons, List.append_assoc]

end

/-! The registry. -/

/-- What the registrations leave behind. -/
structure Registry (s : FlexButtons) : Prop where
  nodup : s.btnHead.Nodup
  count : s.buttonCnt.toNat = s.btnHead.length
  few : s.btnHead.length ≤ 32
  read : ∀ a ∈ s.btnHead, (s.mem a).usrButtonRead = true
  levels : ∀ a post, a :: post <:+ s.btnHead →
    s.gLogicLevel.getLsbD post.length = (s.mem a).pressedLogicLevel
  free : ∀ j, s.btnHead.length ≤ j → j < 32 → s.gLogicLevel.getLsbD j = false

variable {s : FlexButtons}

/-- The first counter of both loops. -/
theorem atPlace_first (h : Registry s) : AtPlace (s.buttonCnt - 1) s.btnHead := by
  intro hne
  have hpos := List.length_pos_iff.mpr hne
  have hcount := h.count
  have hle : (1 : UInt8) ≤ s.buttonCnt := by
    rw [UInt8.le_iff_toNat_le]
    show 1 ≤ s.buttonCnt.toNat
    omega
  rw [UInt8.toNat_sub_of_le _ _ hle]
  show s.buttonCnt.toNat - 1 + 1 = _
  omega

theorem read_status (h : Registry s) (level : ℕ → Bool) {a : ℕ} {post : List ℕ}
    (hsuffix : a :: post <:+ s.btnHead) :
    (flexButtonRead s (pinLevel level)).gBtnStatusReg.getLsbD post.length =
      (level a == (s.mem a).pressedLogicLevel) := by
  have hlt : post.length < 32 := Nat.lt_of_lt_of_le hsuffix.length_le h.few
  obtain ⟨hbits, -⟩ := readLoop_bits level 0 (atPlace_first h) h.few h.read
  rw [flexButtonRead, BitVec.getLsbD_xor, BitVec.getLsbD_not, hbits a post hsuffix,
    h.levels a post hsuffix]
  cases level a <;> cases (s.mem a).pressedLogicLevel <;> simp [hlt]

/-- What a scan does. -/
theorem flexButtonScan_eq (h : Registry s) (level : ℕ → Bool) :
    (flexButtonScan s (pinLevel level)).2 =
      { mem := fun a =>
          if a ∈ s.btnHead then (flexButtonStep (s.mem a) (level a == (s.mem a).pressedLogicLevel)).1 else s.mem a
        activeBtnCnt := 0 + UInt8.ofNat (s.btnHead.countP fun a =>
          (flexButtonStep (s.mem a) (level a == (s.mem a).pressedLogicLevel)).1.status ≠ FLEX_BTN_STAGE_DEFAULT)
        calls := [] ++ s.btnHead.flatMap fun a =>
          (flexButtonStep (s.mem a) (level a == (s.mem a).pressedLogicLevel)).2.toList.map
            fun c => (a, c) } :=
  processLoop_eq (atPlace_first h) h.few h.nodup (fun _ _ => read_status h level) ⟨s.mem, 0, []⟩

/-- What a user sets stays. -/
theorem flexButtonStep_keeps (b : FlexButton) (pressed : Bool) :
    (flexButtonStep b pressed).1.usrButtonRead = b.usrButtonRead ∧
      (flexButtonStep b pressed).1.pressedLogicLevel = b.pressedLogicLevel := by
  have hcount : (flexButtonCount b).usrButtonRead = b.usrButtonRead ∧
      (flexButtonCount b).pressedLogicLevel = b.pressedLogicLevel := by
    unfold flexButtonCount
    split_ifs <;> exact ⟨rfl, rfl⟩
  unfold flexButtonStep flexButtonStage
  split
  all_goals split_ifs <;> exact hcount

theorem registry_scan (h : Registry s) (level : ℕ → Bool) :
    Registry (flexButtonScan s (pinLevel level)).1 := by
  have hmem : (flexButtonScan s (pinLevel level)).1.mem = _ :=
    congrArg FlexProcess.mem (flexButtonScan_eq h level)
  refine ⟨h.nodup, h.count, h.few, fun a ha => ?_, fun a post hsuffix => ?_, h.free⟩
  · rw [hmem]
    simp only [if_pos (show a ∈ s.btnHead from ha)]
    exact (flexButtonStep_keeps _ _).1.trans (h.read a ha)
  · rw [hmem]
    simp only [if_pos (show a ∈ s.btnHead from hsuffix.subset List.mem_cons_self)]
    exact (h.levels a post hsuffix).trans (flexButtonStep_keeps _ _).2.symm

theorem registry_register (h : Registry s) {button : ℕ} (hnew : button ∉ s.btnHead)
    (hfew : s.btnHead.length < 32) (hread : (s.mem button).usrButtonRead = true) :
    Registry (flexButtonRegister s (some button)).2 := by
  have hcount := h.count
  have hguard : ¬ s.buttonCnt > 32 := by
    rw [gt_iff_lt, UInt8.lt_iff_toNat_lt]
    show ¬ 32 < s.buttonCnt.toNat
    omega
  have hsum : (s.buttonCnt + 1).toNat = s.buttonCnt.toNat + 1 := by
    rw [UInt8.toNat_add]
    exact Nat.mod_eq_of_lt (show s.buttonCnt.toNat + 1 < 256 by omega)
  rw [flexButtonRegister, if_neg hguard, if_neg hnew]
  dsimp only
  have hold : ∀ a ∈ s.btnHead, a ≠ button := fun a ha heq => hnew (heq ▸ ha)
  refine ⟨List.nodup_cons.mpr ⟨hnew, h.nodup⟩, ?_, Nat.succ_le_of_lt hfew, fun a ha => ?_,
    fun a post hsuffix => ?_, fun j hj hlt => ?_⟩
  · rw [List.length_cons, ← hcount]
    exact hsum
  · rcases List.mem_cons.mp ha with rfl | hmem
    · simp only [Function.update_self]
      exact hread
    · simp only [Function.update_of_ne (hold a hmem)]
      exact h.read a hmem
  · dsimp only at hsuffix ⊢
    rcases List.suffix_cons_iff.mp hsuffix with heq | hsuffix
    · obtain ⟨rfl, rfl⟩ := List.cons.inj heq
      rw [orBit _ _ _ hfew, hcount, h.free _ (Nat.le_refl _) hfew]
      simp [flexButtonRegistered]
    · have hlt : post.length < s.btnHead.length := hsuffix.length_le
      have hmem : a ∈ s.btnHead := hsuffix.subset List.mem_cons_self
      rw [orBit _ _ _ (by omega), hcount, h.levels a post hsuffix, Function.update_of_ne (hold a hmem)]
      simp [Nat.ne_of_lt hlt]
  · rw [List.length_cons] at hj
    dsimp only
    rw [orBit _ _ _ hlt, h.free j (by omega) hlt, hcount]
    simp [Nat.ne_of_gt (show s.btnHead.length < j by omega)]

/-! Runs: buttons are registered and scanned in any order. -/

inductive FlexOp where
  | register (button : Option ℕ)
  /-- A scan, with the level of every pin. -/
  | scan (level : ℕ → Bool)

def flexOp (s : FlexButtons) : FlexOp → FlexButtons × List (ℕ × FlexBtnCall)
  | .register button => ((flexButtonRegister s button).2, [])
  | .scan level =>
    let r := flexButtonScan s (pinLevel level)
    (r.1, r.2.calls)

def flexRun : FlexButtons → List FlexOp → FlexButtons × List (ℕ × FlexBtnCall)
  | s, [] => (s, [])
  | s, op :: ops =>
    let r := flexOp s op
    let rest := flexRun r.1 ops
    (rest.1, r.2 ++ rest.2)

/-- The samples of one button: its own levels, in the scans after it was registered. -/
def samplesOf (button : ℕ) (pressedLogicLevel : Bool) : Bool → List FlexOp → List Bool
  | _, [] => []
  | registered, .register other :: ops =>
    samplesOf button pressedLogicLevel (registered || decide (other = some button)) ops
  | true, .scan level :: ops =>
    (level button == pressedLogicLevel) :: samplesOf button pressedLogicLevel true ops
  | false, .scan _ :: ops => samplesOf button pressedLogicLevel false ops

/-- A button as it is, or as it will be registered. -/
def buttonNow (s : FlexButtons) (button : ℕ) : FlexButton :=
  if button ∈ s.btnHead then s.mem button else flexButtonRegistered (s.mem button)

/-- A program that has the buttons `B`. -/
def FlexOp.Among (B : List ℕ) : FlexOp → Prop
  | .register button => ∀ b ∈ button, b ∈ B
  | .scan _ => True

structure Within (B : List ℕ) (s : FlexButtons) : Prop where
  registry : Registry s
  among : s.btnHead ⊆ B
  read : ∀ b ∈ B, (s.mem b).usrButtonRead = true

variable {B : List ℕ}

/-- There is room for a button that is not registered yet. -/
theorem room_of_new (hB : B.length ≤ 32) (h : Within B s) {button : ℕ} (hbutton : button ∈ B)
    (hnew : button ∉ s.btnHead) : s.btnHead.length < 32 := by
  have hnodup : (button :: s.btnHead).Nodup := List.nodup_cons.mpr ⟨hnew, h.registry.nodup⟩
  have hsub : button :: s.btnHead ⊆ B := List.cons_subset.mpr ⟨hbutton, h.among⟩
  exact Nat.lt_of_lt_of_le (hnodup.subperm hsub).length_le hB

/-- What a registration does. -/
theorem register_cases (hB : B.length ≤ 32) (h : Within B s) {button : Option ℕ}
    (hop : (FlexOp.register button).Among B) :
    (flexButtonRegister s button).2 = s ∧ (∀ b ∈ button, b ∈ s.btnHead) ∨
    ∃ b ∈ button, b ∉ s.btnHead ∧ Within B (flexButtonRegister s button).2 ∧
      (flexButtonRegister s button).2.btnHead = b :: s.btnHead ∧
      (flexButtonRegister s button).2.mem =
        Function.update s.mem b (flexButtonRegistered (s.mem b)) := by
  cases button with
  | none => exact Or.inl ⟨rfl, fun b hb => absurd hb (Option.not_mem_none b)⟩
  | some b =>
    have hb : b ∈ B := hop b rfl
    by_cases hold : b ∈ s.btnHead
    · refine Or.inl ⟨?_, fun c hc => Option.mem_some_iff.mp hc ▸ hold⟩
      rw [flexButtonRegister, if_pos hold, ite_self]
    · have hroom := room_of_new hB h hb hold
      have hregistry := registry_register h.registry hold hroom (h.read b hb)
      have hguard : ¬ s.buttonCnt > 32 := by
        rw [gt_iff_lt, UInt8.lt_iff_toNat_lt, h.registry.count]
        show ¬ 32 < s.btnHead.length
        omega
      have heq : (flexButtonRegister s (some b)).2.btnHead = b :: s.btnHead ∧
          (flexButtonRegister s (some b)).2.mem =
            Function.update s.mem b (flexButtonRegistered (s.mem b)) := by
        rw [flexButtonRegister, if_neg hguard, if_neg hold]
        exact ⟨rfl, rfl⟩
      refine Or.inr ⟨b, rfl, hold, ⟨hregistry, ?_, fun c hc => ?_⟩, heq⟩
      · rw [heq.1]
        exact List.cons_subset.mpr ⟨hb, h.among⟩
      · rw [heq.2]
        by_cases hcb : c = b
        · rw [hcb, Function.update_self]
          exact h.read b hb
        · rw [Function.update_of_ne hcb]
          exact h.read c hc

theorem within_scan (h : Within B s) (level : ℕ → Bool) :
    Within B (flexButtonScan s (pinLevel level)).1 := by
  refine ⟨registry_scan h.registry level, h.among, fun b hb => ?_⟩
  have hmem : (flexButtonScan s (pinLevel level)).1.mem = _ :=
    congrArg FlexProcess.mem (flexButtonScan_eq h.registry level)
  rw [hmem]
  dsimp only
  split_ifs
  · exact (flexButtonStep_keeps _ _).1.trans (h.read b hb)
  · exact h.read b hb

/-- A button that is registered steps alone; one that is not stays as it is. -/
theorem scan_button (h : Registry s) (level : ℕ → Bool) (a : ℕ) :
    (flexButtonScan s (pinLevel level)).1.mem a =
        (if a ∈ s.btnHead then
          (flexButtonStep (s.mem a) (level a == (s.mem a).pressedLogicLevel)).1 else s.mem a) ∧
      ofMember a (flexButtonScan s (pinLevel level)).2.calls =
        if a ∈ s.btnHead then
          (flexButtonStep (s.mem a) (level a == (s.mem a).pressedLogicLevel)).2.toList else [] := by
  have hscan := flexButtonScan_eq h level
  refine ⟨congrFun (congrArg FlexProcess.mem hscan) a, ?_⟩
  rw [show (flexButtonScan s (pinLevel level)).2.calls = _ from congrArg FlexProcess.calls hscan]
  exact ofMember_flatMap a _ h.nodup

/-- Over a run each button does what it would do alone. -/
theorem flexRun_button (hB : B.length ≤ 32) (h : Within B s) {ops : List FlexOp}
    (hops : ∀ op ∈ ops, op.Among B) (a : ℕ) :
    ofMember a (flexRun s ops).2 = (flexButtonRun (buttonNow s a)
      (samplesOf a (s.mem a).pressedLogicLevel (decide (a ∈ s.btnHead)) ops)).2 := by
  induction ops generalizing s with
  | nil => rfl
  | cons op ops ih =>
    have hrest : ∀ op ∈ ops, op.Among B := fun op hop => hops op (List.mem_cons_of_mem _ hop)
    rw [flexRun, ofMember_append]
    cases op with
    | register button =>
      have hop := hops _ List.mem_cons_self
      rcases register_cases hB h hop with ⟨hsame, hold⟩ | ⟨b, hb, hnew, hwithin, hhead, hmem⟩
      · have hwas : (decide (a ∈ s.btnHead) || decide (button = some a)) = decide (a ∈ s.btnHead) := by
          by_cases hbutton : button = some a
          · simp [hold a hbutton]
          · simp [hbutton]
        simp only [flexOp, hsame, samplesOf, hwas]
        exact ih h hrest
      · obtain rfl := Option.mem_def.mp hb
        have hkept : ((flexButtonRegister s (some b)).2.mem a).pressedLogicLevel =
            (s.mem a).pressedLogicLevel := by
          rw [hmem]
          by_cases hab : a = b
          · rw [hab, Function.update_self]
            rfl
          · rw [Function.update_of_ne hab]
        have hnow : buttonNow (flexButtonRegister s (some b)).2 a = buttonNow s a := by
          rw [buttonNow, buttonNow, hhead, hmem]
          by_cases hab : a = b
          · subst hab
            rw [if_pos List.mem_cons_self, if_neg hnew, Function.update_self]
          · rw [Function.update_of_ne hab]
            exact if_congr (by simp [hab]) rfl rfl
        have hthen : decide (a ∈ b :: s.btnHead) =
            (decide (a ∈ s.btnHead) || decide (some b = some a)) := by
          by_cases hab : a = b <;> simp [hab, eq_comm]
        simp only [flexOp, samplesOf]
        rw [ih hwithin hrest, hnow, hkept, hhead, hthen]
        rfl
    | scan level =>
      have hwithin := within_scan h level
      obtain ⟨hmem, hcalls⟩ := scan_button h.registry level a
      simp only [flexOp]
      rw [ih hwithin hrest, hcalls, buttonNow, hmem]
      by_cases hin : a ∈ s.btnHead
      · have hstill : a ∈ (flexButtonScan s (pinLevel level)).1.btnHead := hin
        rw [if_pos hin, if_pos hstill, if_pos hin, (flexButtonStep_keeps _ _).2, decide_eq_true hin,
          decide_eq_true hstill, buttonNow, if_pos hin, samplesOf, flexButtonRun]
      · have hstill : a ∉ (flexButtonScan s (pinLevel level)).1.btnHead := hin
        rw [if_neg hin, if_neg hstill, if_neg hin, decide_eq_false hin, decide_eq_false hstill,
          buttonNow, if_neg hin, samplesOf, List.nil_append]

/-- In a program with at most 32 buttons, whatever is registered and scanned in whatever order,
the callbacks of a button are those it would have alone, of its own levels since it was
registered. -/
theorem flexButtons_independent (hhead : s.btnHead = []) (hcnt : s.buttonCnt = 0)
    (hlevels : s.gLogicLevel = 0) (hB : B.length ≤ 32)
    (hread : ∀ b ∈ B, (s.mem b).usrButtonRead = true) {ops : List FlexOp}
    (hops : ∀ op ∈ ops, op.Among B) (button : ℕ) :
    ofMember button (flexRun s ops).2 =
      (flexButtonRun (flexButtonRegistered (s.mem button))
        (samplesOf button (s.mem button).pressedLogicLevel false ops)).2 := by
  have hregistry : Registry s := by
    refine ⟨?_, ?_, ?_, ?_, fun a post h => ?_, fun j _ hj => ?_⟩
    · rw [hhead]
      exact List.nodup_nil
    · rw [hhead, hcnt]
      rfl
    · rw [hhead]
      exact Nat.zero_le _
    · rw [hhead]
      exact fun a ha => absurd ha List.not_mem_nil
    · rw [hhead] at h
      exact absurd (List.suffix_nil.mp h) (List.cons_ne_nil a post)
    · rw [hlevels]
      exact BitVec.getLsbD_zero
  have hwithin : Within B s := ⟨hregistry, by rw [hhead]; exact List.nil_subset B, hread⟩
  have hnot : button ∉ s.btnHead := by rw [hhead]; exact List.not_mem_nil
  have hrun := flexRun_button hB hwithin hops button
  rwa [buttonNow, if_neg hnot, decide_eq_false hnot] at hrun

/-- Two buttons, of which the second is pressed and let go while the first stays up. -/
theorem flexButtons_independent_two :
    ofMember 1 (flexRun ⟨fun _ => userButton0, [], 0, 0, 0⟩
        [.register (some 0), .register (some 1), .scan (· = 0), .scan fun _ => true]).2 =
      (flexButtonRun (flexButtonRegistered userButton0)
        (samplesOf 1 false false
          [.register (some 0), .register (some 1), .scan (· = 0), .scan fun _ => true])).2 :=
  flexButtons_independent (B := [0, 1]) rfl rfl rfl (by decide) (fun _ _ => rfl)
    (by simp [FlexOp.Among]) 1

end Detector
