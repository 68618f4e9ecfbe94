import Mathlib.Data.List.Basic
import Mathlib.Data.List.TakeWhile
import Mathlib.Tactic.Ring
import DetectorFirmware.Model.Led

/-! Pattern strings. The array has the numbers at the beginning of the fields between the commas,
and a list of times written in decimals is read back. -/

namespace Detector

/-- The fields between the commas. One that is empty at the end is left out. -/
def modeFields (lightMode : List Char) : List (List Char) :=
  if lightMode.getLast? = some ',' then (lightMode.splitOn ',').dropLast else lightMode.splitOn ','

/-! Each string is one field, or a first field and the rest. -/

variable {f t : List Char}

theorem modeFields_one (hf : ',' ∉ f) : modeFields f = [f] := by
  rw [modeFields, if_neg fun hlast => hf (List.mem_of_getLast? hlast), List.splitOn_eq_singleton hf]

theorem modeFields_first (hf : ',' ∉ f) (t : List Char) :
    modeFields (f ++ ',' :: t) = f :: if t = [] then [] else modeFields t := by
  rw [modeFields, List.splitOn_append_cons_self_of_not_mem hf]
  by_cases ht : t = []
  · subst ht
    simp
  · have hlast : (f ++ ',' :: t).getLast? = t.getLast? := by
      rw [List.getLast?_append_of_ne_nil f (List.cons_ne_nil ',' t), List.getLast?_cons_of_ne_nil ht]
    rw [hlast, if_neg ht, modeFields]
    split_ifs
    · rw [List.dropLast_cons_of_ne_nil (List.splitOn_ne_nil ',' t)]
    · rfl

theorem lightArrNum_one (before : Char) (hf : ',' ∉ f) (hne : f ≠ []) : lightArrNum before f = 1 := by
  cases f with
  | nil => exact absurd rfl hne
  | cons c u =>
    have hlast : u.getLastD c ≠ ',' := fun hcomma => hf (hcomma ▸ List.getLastD_mem_cons)
    rw [lightArrNum, List.count_eq_zero_of_not_mem hf, List.getLastD_cons, if_pos hlast]

theorem lightArrNum_first (before : Char) (hf : ',' ∉ f) (t : List Char) :
    lightArrNum before (f ++ ',' :: t) = lightArrNum ',' t + 1 := by
  have hlast : (f ++ ',' :: t).getLastD before = t.getLastD ',' := by
    rw [List.getLastD_eq_getLast?, List.getLast?_append_of_ne_nil f (List.cons_ne_nil ',' t),
      ← List.getLastD_eq_getLast?, List.getLastD_cons]
  rw [lightArrNum, lightArrNum, hlast, List.count_append, List.count_eq_zero_of_not_mem hf,
    List.count_cons_self]
  omega

theorem strchr_one (hf : ',' ∉ f) : strchr f ',' = none := by
  have hall : f.dropWhile (· ≠ ',') = [] := by
    refine List.dropWhile_eq_nil_iff.mpr fun c hc => decide_eq_true ?_
    rintro rfl
    exact hf hc
  rw [strchr, hall]

theorem strchr_first (hf : ',' ∉ f) (t : List Char) : strchr (f ++ ',' :: t) ',' = some (',' :: t) := by
  have hfirst : (f ++ ',' :: t).dropWhile (· ≠ ',') = ',' :: t := by
    rw [List.dropWhile_append_of_pos, List.dropWhile_cons_of_neg (by decide)]
    refine fun c hc => decide_eq_true ?_
    rintro rfl
    exact hf hc
  rw [strchr, hfirst]

/-! Numbers. -/

theorem atoiDigits_first (u t : List Char) : atoiDigits (u ++ ',' :: t) = atoiDigits u := by
  have hstop : (',' :: t).takeWhile Char.isDigit = [] := List.takeWhile_cons_of_neg (by decide)
  rw [atoiDigits, atoiDigits, List.takeWhile_append, hstop]
  split_ifs with h
  · rw [List.append_nil, (List.takeWhile_prefix _).eq_of_length h]
  · rfl

theorem atoiSigned_plain {s u : List Char} {c : Char} (hs : s.dropWhile isspace = c :: u) (hminus : c ≠ '-')
    (hplus : c ≠ '+') : atoiSigned s = atoiDigits (c :: u) := by
  rw [atoiSigned, hs]
  split
  · next heq => exact absurd (List.cons.inj heq).1 hminus
  · next heq => exact absurd (List.cons.inj heq).1 hplus
  · rfl

theorem atoiSigned_first (f t : List Char) : atoiSigned (f ++ ',' :: t) = atoiSigned f := by
  have hstop : (',' :: t).dropWhile isspace = ',' :: t := List.dropWhile_cons_of_neg (by decide)
  have hspace : (f ++ ',' :: t).dropWhile isspace = f.dropWhile isspace ++ ',' :: t := by
    rw [List.dropWhile_append, hstop]
    cases f.dropWhile isspace <;> rfl
  cases hf : f.dropWhile isspace with
  | nil =>
    rw [hf] at hspace
    rw [atoiSigned_plain hspace (by decide) (by decide), atoiSigned, hf]
    exact congrArg Int.ofNat (atoiDigits_first [] t)
  | cons c u =>
    rw [hf] at hspace
    by_cases hminus : c = '-'
    · subst hminus
      rw [atoiSigned, atoiSigned, hspace, hf]
      exact congrArg (fun n : ℕ => -(n : ℤ)) (atoiDigits_first u t)
    · by_cases hplus : c = '+'
      · subst hplus
        rw [atoiSigned, atoiSigned, hspace, hf]
        exact congrArg Int.ofNat (atoiDigits_first u t)
      · rw [atoiSigned_plain hspace hminus hplus, atoiSigned_plain hf hminus hplus]
        exact congrArg Int.ofNat (atoiDigits_first (c :: u) t)

/-- `atoi` does not read behind a comma. -/
theorem atoi_first (f t : List Char) : atoi (f ++ ',' :: t) = atoi f := by
  rw [atoi, atoi, atoiSigned_first]

/-- The loop never follows a null pointer. -/
theorem lightArrLoop_fields (before : Char) {lightMode : List Char} (hne : lightMode ≠ []) :
    lightArrLoop (lightArrNum before lightMode) (some lightMode) =
      some ((modeFields lightMode).map fun f => UInt32.ofInt (atoi f)) := by
  induction hlen : lightMode.length using Nat.strong_induction_on generalizing lightMode before with
  | _ n ih =>
    by_cases hcomma : ',' ∈ lightMode
    · obtain ⟨f, t, rfl, hf⟩ := List.eq_append_cons_of_mem hcomma
      have hrest : lightArrLoop (lightArrNum ',' t) (some t) =
          some ((if t = [] then [] else modeFields t).map fun f => UInt32.ofInt (atoi f)) := by
        split_ifs with ht
        · subst ht
          rfl
        · refine ih t.length ?_ ',' ht rfl
          rw [← hlen, List.length_append, List.length_cons]
          omega
      rw [lightArrNum_first before hf, lightArrLoop, strchr_first hf, atoi_first, modeFields_first hf]
      simp only [Option.map_some, List.tail_cons, hrest]
      rfl
    · rw [lightArrNum_one before hcomma hne, lightArrLoop, strchr_one hcomma, modeFields_one hcomma]
      rfl

theorem modeFields_cons (lightMode : List Char) : ∃ f fs, modeFields lightMode = f :: fs := by
  by_cases hcomma : ',' ∈ lightMode
  · obtain ⟨f, t, rfl, hf⟩ := List.eq_append_cons_of_mem hcomma
    exact ⟨f, _, modeFields_first hf t⟩
  · exact ⟨lightMode, [], modeFields_one hcomma⟩

theorem lightArrLoop_length {n : ℕ} {ptr : Option (List Char)} {arr : List UInt32}
    (h : lightArrLoop n ptr = some arr) : arr.length = n := by
  induction n generalizing ptr arr with
  | zero =>
    cases h
    rfl
  | succ n ih =>
    cases ptr with
    | none => exact absurd h (by simp [lightArrLoop])
    | some s =>
      simp only [lightArrLoop, Option.bind_eq_bind, Option.bind_eq_some_iff] at h
      obtain ⟨rest, hrest, hlast⟩ := h
      cases hlast
      rw [List.length_cons, ih hrest]

theorem getLightArr_full (rtMalloc : ℕ → Bool) (before : Char) {lightMode : List Char}
    (hne : lightMode ≠ []) :
    agileLedGetLightArr rtMalloc before lightMode =
      some (if rtMalloc (modeFields lightMode).length = true then
        some ((modeFields lightMode).map fun f => UInt32.ofInt (atoi f)) else none) := by
  have hloop := lightArrLoop_fields before hne
  have hnum : lightArrNum before lightMode = (modeFields lightMode).length := by
    rw [← lightArrLoop_length hloop, List.length_map]
  obtain ⟨f, fs, hfields⟩ := modeFields_cons lightMode
  have hpos : lightArrNum before lightMode ≠ 0 := by
    rw [hnum, hfields]
    exact Nat.succ_ne_zero _
  rw [agileLedGetLightArr, if_neg hpos, hloop, hnum]
  split_ifs <;> rfl

/-- Every pattern string gives an array of what `atoi` reads in its fields, in order, and no null pointer
is followed; the empty string gives one zero, or an error when there happens to be a comma before it. -/
theorem light_arr_fields (rtMalloc : ℕ → Bool) (before : Char) (lightMode : List Char) :
    agileLedGetLightArr rtMalloc before lightMode =
      some (if lightMode = [] ∧ before = ',' then none
        else if rtMalloc (modeFields lightMode).length = true then
          some ((modeFields lightMode).map fun f => UInt32.ofInt (atoi f)) else none) := by
  by_cases hempty : lightMode = []
  · subst hempty
    by_cases hbefore : before = ','
    · rw [if_pos ⟨rfl, hbefore⟩, agileLedGetLightArr, if_pos]
      rw [lightArrNum, List.getLastD_nil, if_neg (not_not.mpr hbefore), List.count_nil]
    · have hone : lightArrNum before [] = 1 := by
        rw [lightArrNum, List.getLastD_nil, if_pos hbefore, List.count_nil]
      rw [if_neg fun hboth => hbefore hboth.2, agileLedGetLightArr, hone, if_neg Nat.one_ne_zero,
        show (modeFields []).length = 1 from rfl]
      split_ifs <;> rfl
  · rw [if_neg fun hboth => hempty hboth.1]
    exact getLightArr_full rtMalloc before hempty

/-! Times in decimals. -/

theorem toDigits_no_comma (n : ℕ) : ',' ∉ Nat.toDigits 10 n := fun hmem =>
  absurd (Nat.isDigit_of_mem_toDigits (by decide) (by decide) hmem) (by decide)

theorem isspace_digit {c : Char} (h : c.isDigit = true) : isspace c = false := by
  have hdigit : 48 ≤ c.toNat := (Char.isDigit_iff_toNat.mp h).1
  have hblank : c ≠ ' ' := by
    rintro rfl
    exact absurd hdigit (by decide)
  rw [isspace, decide_eq_false hblank, Bool.false_or, Bool.and_eq_false_iff]
  exact Or.inr (decide_eq_false (by omega))

theorem atoiSigned_toDigits (n : ℕ) : atoiSigned (Nat.toDigits 10 n) = n := by
  have hdigits : ∀ c ∈ Nat.toDigits 10 n, c.isDigit = true := fun c hc =>
    Nat.isDigit_of_mem_toDigits (by decide) (by decide) hc
  have hall : atoiDigits (Nat.toDigits 10 n) = n := by
    rw [atoiDigits, List.takeWhile_eq_self_iff.mpr hdigits, Nat.ofDigitChars_ten_toDigits]
  cases hs : Nat.toDigits 10 n with
  | nil => exact absurd hs Nat.toDigits_ne_nil
  | cons c u =>
    rw [hs] at hdigits hall
    have hc := hdigits c List.mem_cons_self
    have hspace : (c :: u).dropWhile isspace = c :: u :=
      List.dropWhile_cons_of_neg (by rw [isspace_digit hc]; exact Bool.false_ne_true)
    rw [atoiSigned_plain hspace (by rintro rfl; exact absurd hc (by decide))
      (by rintro rfl; exact absurd hc (by decide)), hall]

theorem atoi_toDigits {n : ℕ} (h : n < 2 ^ 31) : atoi (Nat.toDigits 10 n) = n := by
  rw [atoi, atoiSigned_toDigits]
  omega

/-- Fields without commas, of which none is empty, are the fields of the string that they make. -/
theorem modeFields_intercalate {fs : List (List Char)} (hcomma : ∀ f ∈ fs, ',' ∉ f)
    (hfull : ∀ f ∈ fs, f ≠ []) (hne : fs ≠ []) : modeFields ([','].intercalate fs) = fs := by
  have hsplit := List.splitOn_intercalate ',' hcomma hne
  have hlast : ([','].intercalate fs).getLast? ≠ some ',' := by
    intro hlast
    obtain ⟨s, hs⟩ := List.getLast?_eq_some_iff.mp hlast
    rw [hs, List.splitOn_append_cons_self] at hsplit
    have hmem : [] ∈ fs := by
      rw [← hsplit]
      simp
    exact hfull [] hmem rfl
  rw [modeFields, if_neg hlast, hsplit]

/-- Times that an `int` can hold, written in decimals with commas between them, are read back. -/
theorem light_arr_round_trip (rtMalloc : ℕ → Bool) (before : Char) {times : List ℕ} (hne : times ≠ [])
    (hint : ∀ n ∈ times, n < 2 ^ 31) (hroom : rtMalloc times.length = true) :
    ∃ lightArr, agileLedGetLightArr rtMalloc before ([','].intercalate (times.map (Nat.toDigits 10))) =
      some (some lightArr) ∧ lightArr.map UInt32.toNat = times := by
  have hfields : modeFields ([','].intercalate (times.map (Nat.toDigits 10))) =
      times.map (Nat.toDigits 10) := by
    apply modeFields_intercalate
    · exact List.forall_mem_map.mpr fun n _ => toDigits_no_comma n
    · exact List.forall_mem_map.mpr fun n _ => Nat.toDigits_ne_nil
    · exact fun hnil => hne (List.map_eq_nil_iff.mp hnil)
  have hne' : [','].intercalate (times.map (Nat.toDigits 10)) ≠ [] := by
    intro hnil
    rw [hnil] at hfields
    obtain ⟨n, ns, rfl⟩ := List.exists_cons_of_ne_nil hne
    exact Nat.toDigits_ne_nil (List.cons.inj hfields).1.symm
  refine ⟨times.map fun n => UInt32.ofInt (atoi (Nat.toDigits 10 n)), ?_, ?_⟩
  · rw [getLightArr_full rtMalloc before hne', hfields, List.length_map, if_pos hroom, List.map_map]
    rfl
  · rw [List.map_map]
    refine (List.map_congr_left fun n hn => ?_).trans (List.map_id times)
    have hn := hint n hn
    have hmod : ((n : ℤ) % 2 ^ 32).toNat = n := by omega
    rw [Function.comp_apply, atoi_toDigits hn, UInt32.ofInt, hmod, UInt32.toNat_ofNat',
      Nat.mod_eq_of_lt (by omega)]
    rfl

theorem light_arr_round_trip_pair : ∃ lightArr, agileLedGetLightArr (fun _ => true) ' '
      ([','].intercalate ([3200, 10].map (Nat.toDigits 10))) = some (some lightArr) ∧
    lightArr.map UInt32.toNat = [3200, 10] :=
  light_arr_round_trip (fun _ => true) ' ' (List.cons_ne_nil _ _) (by decide) rfl

end Detector
