import MyBooks.JsonText
import Mathlib.Data.List.Lex
import Mathlib.Data.List.Flatten

/-!
# Strings by code units and by code points

A string is compared and searched by its code units of UTF-16 and measured by its code points, a
pair of surrogates being one. Where every surrogate is in a pair (`Paired`), as in any text of
characters, a prefix by code units is one by code points (`codePoints_append`).
-/

namespace MyBooks

/-- A string, as code units of UTF-16. -/
abbrev CodeUnits := List ℕ

/-- The code units of a text. -/
def units (t : Text) : CodeUnits := t.flatMap utf16

/-- `Array.from` of a string. -/
def codePoints : CodeUnits → List CodeUnits
  | [] => []
  | [u] => [[u]]
  | u :: v :: us =>
    if isHighSurrogate u && isLowSurrogate v then [u, v] :: codePoints us
    else [u] :: codePoints (v :: us)

/-- The string cut to `n` code points. -/
def cutTo (n : ℕ) (s : CodeUnits) : CodeUnits := ((codePoints s).take n).flatten

/-- No surrogate stands alone. -/
inductive Paired : CodeUnits → Prop
  | nil : Paired []
  | unit {u : ℕ} {us : CodeUnits} : isHighSurrogate u = false → isLowSurrogate u = false →
      Paired us → Paired (u :: us)
  | pair {u v : ℕ} {us : CodeUnits} : isHighSurrogate u = true → isLowSurrogate v = true →
      Paired us → Paired (u :: v :: us)

variable {s t : CodeUnits} {u v : ℕ}

@[simp] theorem codePoints_nil : codePoints [] = [] := by rw [codePoints]

theorem codePoints_pair (hu : isHighSurrogate u = true) (hv : isLowSurrogate v = true) :
    codePoints (u :: v :: s) = [u, v] :: codePoints s := by
  rw [codePoints, hu, hv]
  rfl

/-- A unit that the next one does not complete is a code point. -/
theorem codePoints_cons (h : ∀ v ∈ s.head?, (isHighSurrogate u && isLowSurrogate v) = false) :
    codePoints (u :: s) = [u] :: codePoints s := by
  cases s with
  | nil => simp [codePoints]
  | cons v us =>
    rw [codePoints, h v rfl]
    rfl

theorem codePoints_unit (hu : isHighSurrogate u = false) :
    codePoints (u :: s) = [u] :: codePoints s :=
  codePoints_cons fun v _ => by rw [hu, Bool.false_and]

/-- A string read code point by code point. -/
@[elab_as_elim]
theorem codePoints_induction {P : CodeUnits → Prop} (nil : P [])
    (unit : ∀ u us, (∀ v ∈ us.head?, (isHighSurrogate u && isLowSurrogate v) = false) → P us →
      P (u :: us))
    (pair : ∀ u v us, isHighSurrogate u = true → isLowSurrogate v = true → P us →
      P (u :: v :: us)) (s : CodeUnits) : P s := by
  induction s using codePoints.induct with
  | case1 => exact nil
  | case2 u => exact unit u [] (fun v hv => by simp at hv) nil
  | case3 u v us h ih =>
    have huv := Bool.and_eq_true_iff.mp h
    exact pair u v us huv.1 huv.2 ih
  | case4 u v us h ih =>
    refine unit u (v :: us) (fun w hw => ?_) ih
    obtain rfl := Option.some.inj hw
    exact Bool.eq_false_iff.mpr h

theorem flatten_codePoints (s : CodeUnits) : (codePoints s).flatten = s := by
  induction s using codePoints_induction with
  | nil => simp
  | unit u us h ih => rw [codePoints_cons h, List.flatten_cons, ih, List.singleton_append]
  | pair u v us hu hv ih =>
    rw [codePoints_pair hu hv, List.flatten_cons, ih]
    rfl

theorem cutTo_prefix (n : ℕ) (s : CodeUnits) : cutTo n s <+: s :=
  ⟨((codePoints s).drop n).flatten, by
    rw [cutTo, ← List.flatten_append, List.take_append_drop, flatten_codePoints]⟩

/-- Cutting keeps the code points there are. -/
theorem codePoints_cutTo (n : ℕ) (s : CodeUnits) :
    codePoints (cutTo n s) = (codePoints s).take n := by
  unfold cutTo
  induction s using codePoints_induction generalizing n with
  | nil => simp
  | unit u us h ih =>
    rw [codePoints_cons h]
    cases n with
    | zero => simp
    | succ n =>
      have hhead : ∀ v ∈ (((codePoints us).take n).flatten).head?, v ∈ us.head? := fun v hv => by
        obtain ⟨rest, hrest⟩ := cutTo_prefix n us
        rw [cutTo] at hrest
        rw [← hrest, List.head?_append, Option.mem_def.mp hv]
        rfl
      rw [List.take_succ_cons, List.flatten_cons, List.singleton_append,
        codePoints_cons fun v hv => h v (hhead v hv), ih]
  | pair u v us hu hv ih =>
    rw [codePoints_pair hu hv]
    cases n with
    | zero => simp
    | succ n =>
      rw [List.take_succ_cons, List.flatten_cons, List.cons_append, List.singleton_append,
        codePoints_pair hu hv, ih]

theorem length_codePoints_le_append (s t : CodeUnits) :
    (codePoints s).length ≤ (codePoints (s ++ t)).length := by
  induction s using codePoints.induct with
  | case1 => simp
  | case2 u =>
    have : (codePoints (u :: t)).length ≠ 0 := fun h => by
      have hflat := flatten_codePoints (u :: t)
      rw [List.length_eq_zero_iff.mp h] at hflat
      exact absurd hflat (by simp)
    have hone : (codePoints [u]).length = 1 := by simp [codePoints]
    rw [hone, List.singleton_append]
    omega
  | case3 u v us h ih =>
    have huv := Bool.and_eq_true_iff.mp h
    rw [List.cons_append, List.cons_append, codePoints_pair huv.1 huv.2,
      codePoints_pair huv.1 huv.2]
    simpa using ih
  | case4 u v us h ih =>
    have hsplit (w : CodeUnits) : codePoints (u :: v :: w) = [u] :: codePoints (v :: w) :=
      codePoints_cons fun x hx => Option.some.inj hx ▸ Bool.eq_false_iff.mpr h
    rw [List.cons_append, List.cons_append, hsplit, hsplit]
    simpa using ih

theorem length_codePoints_le (h : s <+: t) : (codePoints s).length ≤ (codePoints t).length := by
  obtain ⟨r, rfl⟩ := h
  exact length_codePoints_le_append s r

/-! ## Paired surrogates -/

theorem Paired.codePoints_append (h : Paired s) (t : CodeUnits) :
    codePoints (s ++ t) = codePoints s ++ codePoints t := by
  induction h with
  | nil => simp
  | unit hu _ _ ih =>
    rw [List.cons_append, codePoints_unit hu, codePoints_unit hu, ih, List.cons_append]
  | pair hu hv _ ih =>
    rw [List.cons_append, List.cons_append, codePoints_pair hu hv, codePoints_pair hu hv, ih,
      List.cons_append]

/-- A prefix without lone surrogates is what cutting to its length leaves. -/
theorem Paired.cutTo_length (h : Paired s) (t : CodeUnits) :
    cutTo (codePoints s).length (s ++ t) = s := by
  rw [cutTo, h.codePoints_append, List.take_left, flatten_codePoints]

theorem Paired.append (hs : Paired s) (ht : Paired t) : Paired (s ++ t) := by
  induction hs with
  | nil => exact ht
  | unit hu hv _ ih => exact .unit hu hv ih
  | pair hu hv _ ih => exact .pair hu hv ih

theorem paired_utf16 (c : Char) : Paired (utf16 c) := by
  have hvalid := c.valid
  rw [UInt32.isValidChar, Nat.isValidChar] at hvalid
  have hnat : c.val.toNat = c.toNat := rfl
  unfold utf16
  split_ifs with h
  · refine .unit ?_ ?_ .nil
    all_goals
      simp only [isHighSurrogate, isLowSurrogate, Bool.and_eq_false_iff, decide_eq_false_iff_not]
      omega
  · refine .pair ?_ ?_ .nil
    all_goals
      simp only [isHighSurrogate, isLowSurrogate, Bool.and_eq_true_iff, decide_eq_true_eq]
      omega

theorem paired_units (t : Text) : Paired (units t) := by
  induction t with
  | nil => exact .nil
  | cons c t ih =>
    rw [units, List.flatMap_cons]
    exact (paired_utf16 c).append ih

theorem Paired.cutTo (n : ℕ) (h : Paired s) : Paired (cutTo n s) := by
  unfold MyBooks.cutTo
  induction h generalizing n with
  | nil => simpa using Paired.nil
  | unit hu hv _ ih =>
    rw [codePoints_unit hu]
    cases n with
    | zero => simpa using Paired.nil
    | succ n =>
      rw [List.take_succ_cons, List.flatten_cons]
      exact .unit hu hv (ih n)
  | pair hu hv _ ih =>
    rw [codePoints_pair hu hv]
    cases n with
    | zero => simpa using Paired.nil
    | succ n =>
      rw [List.take_succ_cons, List.flatten_cons]
      exact .pair hu hv (ih n)

example : (codePoints (units "aé😀b".toList)).length = 4 ∧
    units "😀b".toList = [0xD83D, 0xDE00, 98] := by
  decide

end MyBooks
