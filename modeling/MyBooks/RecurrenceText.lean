import MyBooks.JsonText
import MyBooks.PaddedText
import MyBooks.Recurrence
import MyBooks.Result

/-!
# Recurring dates as texts

The schedule computes with `YYYY-MM-DD` texts and compares them as texts. With years of four digits
that is the arithmetic of `nextRecurrenceDate` on days (`nextRecurrence_eq`). Counted from the
anchor, dates neither drift nor skip (`nextRecurrence_anchored`).
-/

namespace MyBooks

inductive RecurrenceError
  /-- `RangeError: not a YYYY-MM-DD date`. -/
  | notADate (s : Text)
  /-- The loop needs more tries. -/
  | outOfTries
  deriving DecidableEq

/-- `String(n)`. -/
def intText (n : ℤ) : Text :=
  if n < 0 then '-' :: Nat.toDigits 10 n.natAbs else Nat.toDigits 10 n.toNat

def fmtDate (year month day : ℤ) : Text :=
  padStart 4 (intText year) ++ '-' :: padStart 2 (intText month) ++
    '-' :: padStart 2 (intText day)

/-- The date in the first ten characters. -/
def parseIsoDate (s : Text) : Except RecurrenceError CivilDate :=
  match s.take 10 with
  | [a, b, c, d, '-', e, f, '-', g, h] =>
    if [a, b, c, d, e, f, g, h].all Char.isDigit then
      .ok ⟨digitsValue [a, b, c, d], digitsValue [e, f], digitsValue [g, h]⟩
    else .error (.notADate s)
  | _ => .error (.notADate s)

/-- The year that `Date.UTC` takes a number for. -/
def utcYear (year : ℤ) : ℤ := if 0 ≤ year ∧ year ≤ 99 then 1900 + year else year

/-- `new Date(Date.UTC(year, month, 0)).getUTCDate()`, up to the last year of a `Date`. -/
def daysInMonthUtc (year month : ℤ) : ℤ := daysInMonth (utcYear year) month

def addDays (d : CivilDate) (n : ℤ) : Text :=
  let t := civil (dayNumber (utcYear d.y) d.m 1 + (d.d - 1 + n))
  fmtDate t.y t.m t.d

/-- `clampAddMonths` on the texts' own numbers; `%` keeps the sign of what it divides. -/
def movedText (anchor : CivilDate) (months : ℤ) : Text :=
  let idx := anchor.y * 12 + (anchor.m - 1) + months
  let year := idx / 12
  let month := idx.tmod 12 + 1
  fmtDate year month (min anchor.d (daysInMonthUtc year month))

/-- The loop of `anchoredAfter` from the `k`-th candidate on. -/
def anchoredLoop (date : Text) (anchor : CivilDate) (stepMonths : ℤ) :
    ℕ → ℤ → Except RecurrenceError Text
  | 0, _ => .error .outOfTries
  | tries + 1, k =>
    let candidate := movedText anchor (k * stepMonths)
    if ¬date < candidate then anchoredLoop date anchor stepMonths tries (k + 1) else .ok candidate

def anchoredAfterText (tries : ℕ) (d anchor : CivilDate) (stepMonths : ℤ) :
    Except RecurrenceError Text :=
  let distance := (d.y - anchor.y) * 12 + (d.m - anchor.m)
  anchoredLoop (fmtDate d.y d.m d.d) anchor stepMonths tries (max 0 (distance / stepMonths))

/-- `nextRecurrenceDate`, its loop with `tries` tries. -/
def nextRecurrence (tries : ℕ) (date : Text) (frequency : String) (interval : ℤ)
    (anchor : Option Text) : Except RecurrenceError Text := do
  let step := max 1 interval
  let d ← parseIsoDate date
  let anchorText := match anchor with
    | some a => if a = [] then date else a
    | none => date
  match frequency with
  | "daily" => return addDays d step
  | "weekly" => return addDays d (7 * step)
  | "biweekly" => return addDays d (14 * step)
  | "semimonthly" =>
    if 15 ≤ d.d then
      if d.m = 12 then return fmtDate (d.y + 1) 1 1 else return fmtDate d.y (d.m + 1) 1
    else return fmtDate d.y d.m 15
  | "quarterly" => anchoredAfterText tries d (← parseIsoDate anchorText) (3 * step)
  | "annually" => anchoredAfterText tries d (← parseIsoDate anchorText) (12 * step)
  | _ => anchoredAfterText tries d (← parseIsoDate anchorText) step

example : nextRecurrence 2 "2026-01-31".toList "monthly" 1 (some "2026-01-31".toList) =
      .ok "2026-02-28".toList ∧
    nextRecurrence 2 "2026-02-28".toList "monthly" 1 (some "2026-01-31".toList) =
      .ok "2026-03-31".toList := by
  decide +kernel

/-! ## Dates and their texts -/

theorem civil_dayNumber {y m d : ℤ} (hm : 1 ≤ m ∧ m ≤ 12) (hd : 1 ≤ d ∧ d ≤ daysInMonth y m) :
    civil (dayNumber y m d) = ⟨y, m, d⟩ := by
  have hmonth := monthIndex_dayNumber hm hd
  rw [monthIndex_civil] at hmonth
  obtain ⟨hm', -⟩ := civil_range (dayNumber y m d)
  have hy : (civil (dayNumber y m d)).y = y := by omega
  have hmeq : (civil (dayNumber y m d)).m = m := by omega
  have hday := dayNumber_civil (dayNumber y m d)
  rw [hy, hmeq] at hday
  have hdeq : (civil (dayNumber y m d)).d = d := by
    unfold dayNumber at hday ⊢
    simp only at hday ⊢
    omega
  cases hc : civil (dayNumber y m d)
  rw [hc] at hy hmeq hdeq
  simp only at hy hmeq hdeq
  rw [hy, hmeq, hdeq]

def dateText (n : ℤ) : Text := fmtDate (civil n).y (civil n).m (civil n).d

/-- The date has a text of four, two and two digits. -/
def HasText (n : ℤ) : Prop := 1 ≤ (civil n).y ∧ (civil n).y ≤ 9999

theorem padStart_intText {w : ℕ} {n : ℤ} (hn : 0 ≤ n) :
    padStart w (intText n) = padded w n.toNat := by
  rw [intText, if_neg (not_lt.mpr hn), padded]

theorem dateText_eq {n : ℤ} (h : HasText n) :
    dateText n = padded 4 (civil n).y.toNat ++ '-' :: padded 2 (civil n).m.toNat ++
      '-' :: padded 2 (civil n).d.toNat := by
  obtain ⟨hm, hd⟩ := civil_range n
  obtain ⟨hy, -⟩ := h
  rw [dateText, fmtDate, padStart_intText (by omega), padStart_intText (by omega),
    padStart_intText (by omega)]

/-- The digits of the date, and what they read as. -/
theorem dateText_digits {n : ℤ} (h : HasText n) :
    (padded 4 (civil n).y.toNat).length = 4 ∧ (padded 2 (civil n).m.toNat).length = 2 ∧
      (padded 2 (civil n).d.toNat).length = 2 := by
  obtain ⟨hm, hd⟩ := civil_range n
  obtain ⟨hy, hy'⟩ := h
  exact ⟨length_padded (by decide) (by omega), length_padded (by decide) (by omega),
    length_padded (by decide) (by omega)⟩

/-- Days are ordered as their dates. -/
theorem civil_lt_iff {a b : ℤ} :
    a < b ↔ (civil a).y < (civil b).y ∨ (civil a).y = (civil b).y ∧
      ((civil a).m < (civil b).m ∨ (civil a).m = (civil b).m ∧ (civil a).d < (civil b).d) := by
  have hra := civil_range a
  have hrb := civil_range b
  have hma := monthIndex_civil a
  have hmb := monthIndex_civil b
  rcases lt_trichotomy (monthIndex a) (monthIndex b) with hlt | heq | hgt
  · have := lt_of_monthIndex hlt
    omega
  · have hy : (civil a).y = (civil b).y := by omega
    have hm : (civil a).m = (civil b).m := by omega
    have ha := dayNumber_civil a
    have hb := dayNumber_civil b
    rw [hy, hm] at ha
    unfold dayNumber at ha hb
    simp only at ha hb
    omega
  · have := lt_of_monthIndex hgt
    omega

theorem dateText_lt_iff {a b : ℤ} (ha : HasText a) (hb : HasText b) :
    dateText a < dateText b ↔ a < b := by
  obtain ⟨ha4, ham, had⟩ := dateText_digits ha
  obtain ⟨hb4, hbm, hbd⟩ := dateText_digits hb
  have hra := civil_range a
  have hrb := civil_range b
  have hya := ha
  have hyb := hb
  unfold HasText at hya hyb
  have hinj : padded 4 (civil a).y.toNat ++ '-' :: padded 2 (civil a).m.toNat =
      padded 4 (civil b).y.toNat ++ '-' :: padded 2 (civil b).m.toNat ↔
        (civil a).y.toNat = (civil b).y.toNat ∧ (civil a).m.toNat = (civil b).m.toNat := by
    constructor
    · intro h
      obtain ⟨hyear, hmonth⟩ := List.append_inj h (ha4.trans hb4.symm)
      exact ⟨padded_inj.mp hyear, padded_inj.mp (List.cons.inj hmonth).2⟩
    · rintro ⟨hyear, hmonth⟩
      rw [hyear, hmonth]
  rw [dateText_eq ha, dateText_eq hb, append_lt_append_iff (by simp [ha4, hb4, ham, hbm]),
    append_lt_append_iff (ha4.trans hb4.symm), hinj, List.cons_lt_cons_self, List.cons_lt_cons_self,
    padded_inj, padded_lt_iff (by decide) (by omega) (by omega),
    padded_lt_iff (by decide) (by omega) (by omega),
    padded_lt_iff (by decide) (by omega) (by omega), civil_lt_iff]
  omega

theorem parseIsoDate_dateText {n : ℤ} (h : HasText n) :
    parseIsoDate (dateText n) = .ok (civil n) := by
  obtain ⟨h4, hm, hd⟩ := dateText_digits h
  obtain ⟨hrm, hrd⟩ := civil_range n
  obtain ⟨hy, hy'⟩ := h
  have hyear := digits_padded (w := 4) (n := (civil n).y.toNat)
  have hmonth := digits_padded (w := 2) (n := (civil n).m.toNat)
  have hday := digits_padded (w := 2) (n := (civil n).d.toNat)
  have hyv := digitsValue_padded (w := 4) (n := (civil n).y.toNat)
  have hmv := digitsValue_padded (w := 2) (n := (civil n).m.toNat)
  have hdv := digitsValue_padded (w := 2) (n := (civil n).d.toNat)
  rw [dateText_eq ⟨hy, hy'⟩]
  obtain ⟨a, b, c, d, habcd⟩ := List.length_eq_four.mp h4
  obtain ⟨e, f, hef⟩ := List.length_eq_two.mp hm
  obtain ⟨g, k, hgk⟩ := List.length_eq_two.mp hd
  rw [habcd] at hyear hyv ⊢
  rw [hef] at hmonth hmv ⊢
  rw [hgk] at hday hdv ⊢
  have hall : ([a, b, c, d] ++ [e, f] ++ [g, k]).all Char.isDigit = true := by
    rw [List.all_append, List.all_append, List.all_eq_true.mpr hyear, List.all_eq_true.mpr hmonth,
      List.all_eq_true.mpr hday]
    rfl
  show (if ([a, b, c, d] ++ [e, f] ++ [g, k]).all Char.isDigit then _ else _) = _
  rw [if_pos hall, hyv, hmv, hdv, Int.toNat_of_nonneg (by omega), Int.toNat_of_nonneg (by omega),
    Int.toNat_of_nonneg (by omega)]

/-! ## Moving an anchor -/

theorem daysInMonthUtc_eq {year : ℤ} (hyear : 1 ≤ year) (month : ℤ) :
    daysInMonthUtc year month = daysInMonth year month := by
  have hleap : isLeap (utcYear year) = isLeap year := by
    unfold isLeap utcYear
    split_ifs <;> grind
  rw [daysInMonthUtc, daysInMonth, daysInMonth, hleap]

theorem civil_clampAddMonths (anchor months : ℤ) :
    civil (clampAddMonths anchor months) =
      let idx := (civil anchor).y * 12 + ((civil anchor).m - 1) + months
      ⟨idx / 12, idx % 12 + 1,
        min (civil anchor).d (daysInMonth (idx / 12) (idx % 12 + 1))⟩ := by
  obtain ⟨-, hd, -⟩ := civil_range anchor
  have hlast := daysInMonth_range
    (((civil anchor).y * 12 + ((civil anchor).m - 1) + months) / 12)
    (((civil anchor).y * 12 + ((civil anchor).m - 1) + months) % 12 + 1)
  exact civil_dayNumber (by omega) ⟨le_min hd (by omega), min_le_right _ _⟩

theorem movedText_eq {anchor months : ℤ} (h : 1 ≤ (civil (clampAddMonths anchor months)).y) :
    movedText (civil anchor) months = dateText (clampAddMonths anchor months) := by
  rw [civil_clampAddMonths] at h
  dsimp only at h
  rw [movedText, dateText, civil_clampAddMonths]
  dsimp only
  rw [Int.tmod_eq_emod_of_nonneg (by omega), daysInMonthUtc_eq h]

/-! ## The sequence of an anchor -/

section Sequence

variable {date anchor stepMonths : ℤ}

/-- A date's day is one of its month. -/
theorem civil_d_le (n : ℤ) : (civil n).d ≤ daysInMonth (civil n).y (civil n).m := by
  obtain ⟨hs, he, -⟩ := marchYear_spec (n + 719468)
  have hday : marchDay n = n + 719468 - yearStart (marchYear (n + 719468)) := rfl
  rw [yearStart_succ] at he
  have hmonth : marchMonth n = (5 * marchDay n + 2) / 153 := rfl
  obtain ⟨h0, h11⟩ := marchMonth_range n
  have hd : (civil n).d = marchDay n - (153 * marchMonth n + 2) / 5 + 1 := rfl
  rcases lt_or_ge (marchMonth n) 10 with hlt | hge
  · have hm : (civil n).m = marchMonth n + 3 := by simp only [civil, if_pos hlt]
    unfold daysInMonth
    split_ifs <;> omega
  · have hm : (civil n).m = marchMonth n + -9 := by
      simp only [civil, if_neg (not_lt.mpr hge)]
    have hy : (civil n).y = marchYear (n + 719468) + 1 := by
      simp only [civil, if_neg (not_lt.mpr hge)]
    unfold daysInMonth
    rw [hy]
    split_ifs at he ⊢ <;> omega

theorem clampAddMonths_zero (anchor : ℤ) : clampAddMonths anchor 0 = anchor := by
  obtain ⟨hm, -⟩ := civil_range anchor
  have hyear : ((civil anchor).y * 12 + ((civil anchor).m - 1) + 0) / 12 = (civil anchor).y := by
    omega
  have hmonth :
      ((civil anchor).y * 12 + ((civil anchor).m - 1) + 0) % 12 + 1 = (civil anchor).m := by
    omega
  unfold clampAddMonths
  dsimp only
  rw [hyear, hmonth, min_eq_left (civil_d_le anchor)]
  exact dayNumber_civil anchor

theorem clampAddMonths_lt (anchor : ℤ) {a b : ℤ} (h : a < b) :
    clampAddMonths anchor a < clampAddMonths anchor b := by
  apply lt_of_monthIndex
  rw [monthIndex_clampAddMonths, monthIndex_clampAddMonths]
  omega

/-- The candidate before the first one tried is not later than the date. -/
theorem clampAddMonths_le (date anchor k : ℤ) (hstep : 0 < stepMonths)
    (hk : k < max 0 ((((civil date).y - (civil anchor).y) * 12 +
      ((civil date).m - (civil anchor).m)) / stepMonths)) (hk0 : 0 ≤ k) :
    clampAddMonths anchor (k * stepMonths) ≤ date := by
  set distance := ((civil date).y - (civil anchor).y) * 12 +
    ((civil date).m - (civil anchor).m) with hdistance
  have hk1 : k + 1 ≤ distance / stepMonths := by omega
  have hle : (k + 1) * stepMonths ≤ distance := (Int.le_ediv_iff_mul_le hstep).mp hk1
  refine (lt_of_monthIndex ?_).le
  rw [monthIndex_clampAddMonths, monthIndex_civil, monthIndex_civil]
  have : (k + 1) * stepMonths = k * stepMonths + stepMonths := by ring
  omega

/-- The candidate behind the first one tried is later than the date. -/
theorem lt_clampAddMonths (date anchor : ℤ) (hstep : 0 < stepMonths) :
    date < clampAddMonths anchor ((max 0 ((((civil date).y - (civil anchor).y) * 12 +
      ((civil date).m - (civil anchor).m)) / stepMonths) + 1) * stepMonths) := by
  set distance := ((civil date).y - (civil anchor).y) * 12 +
    ((civil date).m - (civil anchor).m) with hdistance
  have hfloor := Int.lt_ediv_add_one_mul_self distance hstep
  have hle : (distance / stepMonths + 1) * stepMonths ≤
      (max 0 (distance / stepMonths) + 1) * stepMonths :=
    Int.mul_le_mul_of_nonneg_right (by omega) hstep.le
  apply lt_of_monthIndex
  rw [monthIndex_clampAddMonths, monthIndex_civil, monthIndex_civil]
  omega

/-- The first date of the sequence behind `date` is its `k`-th. -/
def FirstAfter (date anchor stepMonths : ℤ) (k : ℕ) : Prop :=
  date < clampAddMonths anchor (k * stepMonths) ∧
    ∀ j : ℕ, j < k → clampAddMonths anchor (j * stepMonths) ≤ date

/-- The loop starts at the result or right before it. -/
theorem FirstAfter.start {k : ℕ} (h : FirstAfter date anchor stepMonths k)
    (hstep : 0 < stepMonths) :
    (k : ℤ) = max 0 ((((civil date).y - (civil anchor).y) * 12 +
        ((civil date).m - (civil anchor).m)) / stepMonths) ∨
      (k : ℤ) = max 0 ((((civil date).y - (civil anchor).y) * 12 +
        ((civil date).m - (civil anchor).m)) / stepMonths) + 1 := by
  obtain ⟨hlt, hle⟩ := h
  have hlast := lt_clampAddMonths date anchor hstep
  have hbefore := fun k => clampAddMonths_le date anchor k hstep
  set start := max 0 ((((civil date).y - (civil anchor).y) * 12 +
    ((civil date).m - (civil anchor).m)) / stepMonths) with hstart
  rcases lt_trichotomy (k : ℤ) (start + 1) with hk | hk | hk
  · refine .inl (le_antisymm (by omega) (not_lt.mp fun hk' => ?_))
    exact absurd (hbefore k hk' (by omega)) (not_le.mpr hlt)
  · exact .inr hk
  · have hj := hle (start + 1).toNat (by omega)
    rw [Int.toNat_of_nonneg (by omega)] at hj
    exact absurd hj (not_le.mpr hlast)

theorem anchoredAfter_eq (hstep : 0 < stepMonths) {k : ℕ}
    (h : FirstAfter date anchor stepMonths k) :
    anchoredAfter date anchor stepMonths = clampAddMonths anchor (k * stepMonths) := by
  unfold anchoredAfter anchoredFrom anchoredFrom
  dsimp only
  rcases h.start hstep with hk | hk
  · rw [← hk, if_neg (not_le.mpr h.1)]
  · have hfirst := h.2 (k - 1) (by omega)
    have hcast : ((k - 1 : ℕ) : ℤ) = max 0 ((((civil date).y - (civil anchor).y) * 12 +
        ((civil date).m - (civil anchor).m)) / stepMonths) := by omega
    rw [hcast] at hfirst
    rw [if_pos hfirst, ← hk]

theorem HasText.between {a b c : ℤ} (ha : HasText a) (hc : HasText c) (hab : a ≤ b) (hbc : b ≤ c) :
    HasText b := by
  have hya : (civil a).y ≤ (civil b).y := not_lt.mp fun hlt =>
    absurd (civil_lt_iff.mpr (.inl hlt)) (not_lt.mpr hab)
  have hyb : (civil b).y ≤ (civil c).y := not_lt.mp fun hlt =>
    absurd (civil_lt_iff.mpr (.inl hlt)) (not_lt.mpr hbc)
  exact ⟨ha.1.trans hya, hyb.trans hc.2⟩

theorem anchor_le {k : ℤ} (hk : 0 ≤ k) (hstep : 0 < stepMonths) :
    anchor ≤ clampAddMonths anchor (k * stepMonths) := by
  rcases hk.eq_or_lt with rfl | hk
  · rw [zero_mul, clampAddMonths_zero]
  · have := clampAddMonths_lt anchor (mul_pos hk hstep)
    rw [clampAddMonths_zero] at this
    exact this.le

/-- On texts the loop finds the same date, in two tries. -/
theorem anchoredAfterText_eq (hstep : 0 < stepMonths) {k tries : ℕ} (htries : 2 ≤ tries)
    (h : FirstAfter date anchor stepMonths k) (hanchor : HasText anchor) (hdate : HasText date)
    (hresult : HasText (clampAddMonths anchor (k * stepMonths))) :
    anchoredAfterText tries (civil date) (civil anchor) stepMonths =
      .ok (dateText (clampAddMonths anchor (k * stepMonths))) := by
  obtain ⟨tries, rfl⟩ := Nat.exists_eq_add_of_le' htries
  have hlast : dateText date < dateText (clampAddMonths anchor (k * stepMonths)) :=
    (dateText_lt_iff hdate hresult).mpr h.1
  unfold anchoredAfterText
  dsimp only
  rw [← dateText, anchoredLoop]
  rcases h.start hstep with hk | hk
  · rw [← hk, movedText_eq hresult.1, if_neg (not_not.mpr hlast)]
  · have hfirst := h.2 (k - 1) (by omega)
    have hcast : ((k - 1 : ℕ) : ℤ) = max 0 ((((civil date).y - (civil anchor).y) * 12 +
        ((civil date).m - (civil anchor).m)) / stepMonths) := by omega
    have hk0 : 0 ≤ max 0 ((((civil date).y - (civil anchor).y) * 12 +
        ((civil date).m - (civil anchor).m)) / stepMonths) := le_max_left _ _
    rw [hcast] at hfirst
    have htext := hanchor.between hdate (anchor_le hk0 hstep) hfirst
    rw [movedText_eq htext.1, if_pos fun hlt =>
      absurd ((dateText_lt_iff hdate htext).mp hlt) (not_lt.mpr hfirst), anchoredLoop]
    rw [← hk, movedText_eq hresult.1, if_neg (not_not.mpr hlast)]

theorem exists_firstAfter (date anchor : ℤ) (hstep : 0 < stepMonths) :
    ∃ k, FirstAfter date anchor stepMonths k := by
  have hsome : ∃ k : ℕ, date < clampAddMonths anchor (k * stepMonths) := by
    have hlt := lt_clampAddMonths date anchor hstep
    set start := max 0 ((((civil date).y - (civil anchor).y) * 12 +
      ((civil date).m - (civil anchor).m)) / stepMonths) with hstart
    exact ⟨(start + 1).toNat, by rwa [Int.toNat_of_nonneg (by omega)]⟩
  exact ⟨Nat.find hsome, Nat.find_spec hsome, fun j hj => not_lt.mp (Nat.find_min hsome hj)⟩

/-- Behind a date of the sequence the next one comes first. -/
theorem firstAfter_succ (anchor : ℤ) (hstep : 0 < stepMonths) (n : ℕ) :
    FirstAfter (clampAddMonths anchor (n * stepMonths)) anchor stepMonths (n + 1) := by
  have hmono : ∀ {i j : ℕ}, i < j →
      clampAddMonths anchor (i * stepMonths) < clampAddMonths anchor (j * stepMonths) :=
    fun hij => clampAddMonths_lt anchor (Int.mul_lt_mul_of_pos_right (by exact_mod_cast hij) hstep)
  refine ⟨hmono n.lt_succ_self, fun j hj => ?_⟩
  rcases (Nat.lt_succ_iff.mp hj).lt_or_eq with hjn | rfl
  · exact (hmono hjn).le
  · exact le_rfl

end Sequence

/-! ## Anchored cadences -/

def Frequency.name : Frequency → String
  | .daily => "daily"
  | .weekly => "weekly"
  | .biweekly => "biweekly"
  | .semimonthly => "semimonthly"
  | .monthly => "monthly"
  | .quarterly => "quarterly"
  | .annually => "annually"

/-- The months that a cadence counts from the anchor. -/
def Frequency.months : Frequency → Option ℤ
  | .monthly => some 1
  | .quarterly => some 3
  | .annually => some 12
  | _ => none

section Anchored

variable {f : Frequency} {months interval anchor date : ℤ} {tries : ℕ}

theorem Frequency.months_pos (hf : f.months = some months) (hinterval : 1 ≤ interval) :
    0 < months * interval := by
  cases f <;> simp only [Frequency.months, Option.some.injEq, reduceCtorEq] at hf <;> subst hf <;>
    omega

theorem nextRecurrence_eq_anchored (hf : f.months = some months) (hinterval : 1 ≤ interval)
    (hanchor : HasText anchor) (hdate : HasText date) :
    nextRecurrence tries (dateText date) f.name interval (some (dateText anchor)) =
      anchoredAfterText tries (civil date) (civil anchor) (months * interval) := by
  have hne : dateText anchor ≠ [] := by
    rw [dateText_eq hanchor]
    simp
  have hstep : max 1 interval = interval := max_eq_right hinterval
  unfold nextRecurrence
  rw [parseIsoDate_dateText hdate, ok_bind, hstep]
  dsimp only
  rw [if_neg hne, parseIsoDate_dateText hanchor]
  simp only [ok_bind]
  cases f <;> simp only [Frequency.months, Option.some.injEq, reduceCtorEq] at hf <;> subst hf
  case monthly => rw [one_mul]; rfl
  case quarterly => rfl
  case annually => rfl

theorem nextRecurrenceDate_eq_anchored (hf : f.months = some months) (hinterval : 1 ≤ interval) :
    nextRecurrenceDate date f interval anchor = anchoredAfter date anchor (months * interval) := by
  have hstep : max 1 interval = interval := max_eq_right hinterval
  unfold nextRecurrenceDate
  cases f <;> simp only [Frequency.months, Option.some.injEq, reduceCtorEq] at hf <;> subst hf <;>
    simp only [hstep, one_mul]

/-- The schedule of texts is the schedule of days, as long as the next date has a text. -/
theorem nextRecurrence_eq (hf : f.months = some months) (hinterval : 1 ≤ interval)
    (htries : 2 ≤ tries) (hanchor : HasText anchor) (hdate : HasText date)
    (hresult : HasText (nextRecurrenceDate date f interval anchor)) :
    nextRecurrence tries (dateText date) f.name interval (some (dateText anchor)) =
      .ok (dateText (nextRecurrenceDate date f interval anchor)) := by
  have hstep := Frequency.months_pos hf hinterval
  obtain ⟨k, hk⟩ := exists_firstAfter date anchor hstep
  rw [nextRecurrenceDate_eq_anchored hf hinterval, anchoredAfter_eq hstep hk] at hresult ⊢
  rw [nextRecurrence_eq_anchored hf hinterval hanchor hdate]
  exact anchoredAfterText_eq hstep htries hk hanchor hdate hresult

/-- The anchor and the dates behind it, each computed from the one before. -/
def recurrenceAt (tries : ℕ) (f : Frequency) (interval : ℤ) (anchor : Text) :
    ℕ → Except RecurrenceError Text
  | 0 => .ok anchor
  | n + 1 => do
    nextRecurrence tries (← recurrenceAt tries f interval anchor n) f.name interval (some anchor)

theorem recurrenceAt_eq (hf : f.months = some months) (hinterval : 1 ≤ interval)
    (htries : 2 ≤ tries) (hanchor : HasText anchor) : ∀ n : ℕ,
    (civil (clampAddMonths anchor (n * (months * interval)))).y ≤ 9999 →
      recurrenceAt tries f interval (dateText anchor) n =
        .ok (dateText (clampAddMonths anchor (n * (months * interval))))
  | 0, _ => by
    rw [recurrenceAt, Nat.cast_zero, zero_mul, clampAddMonths_zero]
  | n + 1, hyear => by
    have hstep := Frequency.months_pos hf hinterval
    have hnext := firstAfter_succ anchor hstep n
    have hresult : HasText (clampAddMonths anchor (↑(n + 1) * (months * interval))) := by
      refine ⟨hanchor.1.trans ?_, hyear⟩
      exact not_lt.mp fun hlt => absurd (civil_lt_iff.mpr (.inl hlt))
        (not_lt.mpr (anchor_le (by omega) hstep))
    have hdate := hanchor.between hresult (anchor_le (by omega) hstep) hnext.1.le
    rw [recurrenceAt, recurrenceAt_eq hf hinterval htries hanchor n hdate.2, ok_bind,
      nextRecurrence_eq_anchored hf hinterval hanchor hdate]
    exact anchoredAfterText_eq hstep htries hnext hanchor hdate hresult

/-- Recurrences neither drift nor skip: the `n`-th date is the anchor moved by `n` steps, and the
next date is the first of these behind the date, found in two tries, where its year has four
digits. -/
theorem nextRecurrence_anchored (hf : f.months = some months) (hinterval : 1 ≤ interval)
    (htries : 2 ≤ tries) (hanchor : HasText anchor) :
    (∀ n : ℕ, (civil (clampAddMonths anchor (n * (months * interval)))).y ≤ 9999 →
      recurrenceAt tries f interval (dateText anchor) n =
        .ok (dateText (clampAddMonths anchor (n * (months * interval))))) ∧
      (∀ date, HasText date → ∃ k, FirstAfter date anchor (months * interval) k ∧
        ((civil (clampAddMonths anchor (k * (months * interval)))).y ≤ 9999 →
          nextRecurrence tries (dateText date) f.name interval (some (dateText anchor)) =
            .ok (dateText (clampAddMonths anchor (k * (months * interval)))))) ∧
        ∀ date, HasText date → date < anchor →
          nextRecurrence tries (dateText date) f.name interval (some (dateText anchor)) =
            .ok (dateText anchor) := by
  have hstep := Frequency.months_pos hf hinterval
  refine ⟨recurrenceAt_eq hf hinterval htries hanchor, fun date hdate => ?_,
    fun date hdate hlt => ?_⟩
  · obtain ⟨k, hk⟩ := exists_firstAfter date anchor hstep
    refine ⟨k, hk, fun hyear => ?_⟩
    have hresult : HasText (clampAddMonths anchor (k * (months * interval))) := by
      refine ⟨hanchor.1.trans ?_, hyear⟩
      exact not_lt.mp fun hlt => absurd (civil_lt_iff.mpr (.inl hlt))
        (not_lt.mpr (anchor_le (by omega) hstep))
    rw [nextRecurrence_eq_anchored hf hinterval hanchor hdate]
    exact anchoredAfterText_eq hstep htries hk hanchor hdate hresult
  · have hzero : clampAddMonths anchor ((0 : ℕ) * (months * interval)) = anchor := by
      rw [Nat.cast_zero, zero_mul, clampAddMonths_zero]
    have hk : FirstAfter date anchor (months * interval) 0 :=
      ⟨hzero.symm ▸ hlt, fun j hj => absurd hj (Nat.not_lt_zero j)⟩
    have hresult := anchoredAfterText_eq hstep htries hk hanchor hdate (hzero.symm ▸ hanchor)
    rw [nextRecurrence_eq_anchored hf hinterval hanchor hdate, hresult, hzero]

theorem nextRecurrence_anchored_january :
    (∀ n : ℕ, (civil (clampAddMonths (dayNumber 2026 1 31) (n * (3 * 2)))).y ≤ 9999 →
      recurrenceAt 2 .quarterly 2 (dateText (dayNumber 2026 1 31)) n =
        .ok (dateText (clampAddMonths (dayNumber 2026 1 31) (n * (3 * 2))))) ∧
      (∀ date, HasText date → ∃ k, FirstAfter date (dayNumber 2026 1 31) (3 * 2) k ∧
        ((civil (clampAddMonths (dayNumber 2026 1 31) (k * (3 * 2)))).y ≤ 9999 →
          nextRecurrence 2 (dateText date) "quarterly" 2 (some (dateText (dayNumber 2026 1 31))) =
            .ok (dateText (clampAddMonths (dayNumber 2026 1 31) (k * (3 * 2)))))) ∧
        ∀ date, HasText date → date < dayNumber 2026 1 31 →
          nextRecurrence 2 (dateText date) "quarterly" 2 (some (dateText (dayNumber 2026 1 31))) =
            .ok (dateText (dayNumber 2026 1 31)) :=
  nextRecurrence_anchored (f := .quarterly) rfl (by decide) le_rfl ⟨by decide, by decide⟩

/-- A year of five digits is ordered before years of four, and the loop goes on past it. -/
theorem nextRecurrence_fiveDigits :
    (civil (dayNumber 9000 1 31)).y = 9000 ∧
      recurrenceAt 100 .annually 1000 (dateText (dayNumber 9000 1 31)) 1 =
        .ok "90000-01-31".toList ∧
      dateText (clampAddMonths (dayNumber 9000 1 31) (1 * (12 * 1000))) = "10000-01-31".toList := by
  decide +kernel

end Anchored

end MyBooks
