import MyBooks.EnglishNumber
import MyBooks.Books
import MyBooks.Result
import Mathlib.Tactic.IntervalCases

/-!
# The amount in words on a check

`numberToWords` cuts an amount into dollars, their groups of three digits and cents, each by itself.
Cents are rounded after the dollars are cut off, so from half a cent below a dollar on the text has
100 hundredths (`numberToWords_reads`).
-/

namespace MyBooks

section Words

def ones : List (List Char) :=
  ["", "One", "Two", "Three", "Four", "Five", "Six", "Seven", "Eight", "Nine", "Ten", "Eleven",
    "Twelve", "Thirteen", "Fourteen", "Fifteen", "Sixteen", "Seventeen", "Eighteen",
    "Nineteen"].map String.toList

def tens : List (List Char) :=
  ["", "", "Twenty", "Thirty", "Forty", "Fifty", "Sixty", "Seventy", "Eighty", "Ninety"].map
    String.toList

def convertGroup (n : ℕ) : List Char :=
  if n = 0 then []
  else if n < 20 then ones.getD n []
  else if n < 100 then
    tens.getD (n / 10) [] ++ if n % 10 ≠ 0 then '-' :: ones.getD (n % 10) [] else []
  else
    ones.getD (n / 100) [] ++ " Hundred".toList ++
      if n % 100 ≠ 0 then ' ' :: convertGroup (n % 100) else []

/-- The text of an amount. Numbers are exact. -/
def numberToWords (num : Dec) : List Char :=
  if num < 0 then []
  else if 999999999.99 < num then "Amount too large".toList
  else
    let dollars := ⌊num⌋.toNat
    let cents := ⌊(num - dollars) * 100 + 1 / 2⌋.toNat
    let centsStr := padded 2 cents
    if dollars = 0 then "Zero and ".toList ++ centsStr ++ "/100".toList
    else
      let millions := dollars / 1000000
      let thousands := dollars % 1000000 / 1000
      let remainder := dollars % 1000
      let parts :=
        (if 0 < millions then [convertGroup millions ++ " Million".toList] else []) ++
          (if 0 < thousands then [convertGroup thousands ++ " Thousand".toList] else []) ++
            if 0 < remainder then [convertGroup remainder] else []
      [' '].intercalate parts ++ " and ".toList ++ centsStr ++ "/100".toList

end Words

section Check

structure CheckLine where
  accountId : Id
  amount : Dec
  isBillable : Bool
  contactId : Option Id
  deriving DecidableEq, Repr

structure CheckInput where
  amount : Dec
  lines : List CheckLine
  bankAccountId : Id
  deriving DecidableEq, Repr

structure CheckEntry where
  accountId : Id
  debit : Dec
  credit : Dec
  contactId : Option Id
  isBillable : Bool
  deriving DecidableEq, Repr

/-- Why a check is refused: a field that is no amount, an amount not greater than zero, lines that
come to something else, or a billable line without a customer. -/
inductive CheckRefusal where
  | noAmount (field : String)
  | notPositive
  | linesDiffer (sum amount : Dec)
  | billable (line : ℕ)
  deriving DecidableEq, Repr

/-- A money amount has at most fifteen digits before the point and four behind it. -/
def exactMoney (value : Dec) (field : String) : Except CheckRefusal Dec :=
  if |value| < 10 ^ 15 ∧ round4 value = value then .ok value else .error (.noAmount field)

/-- The journal lines of a check. -/
def buildCheckLines (input : CheckInput) : Except CheckRefusal (List CheckEntry) := do
  let amount ← exactMoney input.amount "amount"
  if ¬0 < amount then
    .error .notPositive
  else
    let lineAmounts ← input.lines.zipIdx.mapM fun (l, i) =>
      exactMoney l.amount s!"lines[{i}].amount"
    let sum := lineAmounts.foldl plus 0
    if sum ≠ amount then
      .error (.linesDiffer sum amount)
    else
      match input.lines.zipIdx.find? fun (l, _) =>
          l.isBillable ∧ (l.contactId.filter (· ≠ "")).isNone with
      | some (_, i) => .error (.billable (i + 1))
      | none =>
        return input.lines.map (fun l => ⟨l.accountId, l.amount, 0, l.contactId, l.isBillable⟩) ++
          [⟨input.bankAccountId, 0, amount, none, false⟩]

theorem buildCheckLines_amount {input : CheckInput} {entries : List CheckEntry}
    (h : buildCheckLines input = .ok entries) : 0 < input.amount ∧ Places 4 input.amount := by
  unfold buildCheckLines at h
  obtain ⟨amount, hamount, h⟩ := bind_eq_ok.mp h
  unfold exactMoney at hamount
  split_ifs at hamount with hmoney
  obtain rfl := Except.ok.inj hamount
  split_ifs at h with hpos
  exact ⟨hpos, hmoney.2 ▸ places_toPlaces 4 _⟩

end Check

section Groups

/-- `convertGroup` below a hundred. -/
def belowHundred (n : ℕ) : List Char :=
  if n = 0 then []
  else if n < 20 then ones.getD n []
  else tens.getD (n / 10) [] ++ if n % 10 ≠ 0 then '-' :: ones.getD (n % 10) [] else []

theorem convertGroup_of_lt {n : ℕ} (h : n < 100) : convertGroup n = belowHundred n := by
  rw [convertGroup, belowHundred]
  simp [h]

theorem convertGroup_of_le {n : ℕ} (h : 100 ≤ n) : convertGroup n =
    ones.getD (n / 100) [] ++ " Hundred".toList ++
      if n % 100 ≠ 0 then ' ' :: belowHundred (n % 100) else [] := by
  rw [convertGroup, if_neg (by omega), if_neg (by omega), if_neg (by omega),
    convertGroup_of_lt (Nat.mod_lt n (by decide))]

/-- The word of a number from 1 to 99. -/
structure SmallWord (n : ℕ) (w : List Char) : Prop where
  reads : readSmall w = some n
  no_blank : ' ' ∉ w
  no_scale : w ≠ "Million".toList ∧ w ≠ "Thousand".toList
  ne_zero : w ≠ "Zero".toList

theorem belowHundred_word {n : ℕ} (h0 : 0 < n) (h : n < 100) : SmallWord n (belowHundred n) := by
  have hall : ∀ k : Fin 100, 0 < k.val → readSmall (belowHundred k) = some k.val ∧
      ' ' ∉ belowHundred k ∧ (belowHundred k ≠ "Million".toList ∧
        belowHundred k ≠ "Thousand".toList) ∧ belowHundred k ≠ "Zero".toList := by
    decide +kernel
  obtain ⟨hreads, hblank, hscale, hzero⟩ := hall ⟨n, h⟩ h0
  exact ⟨hreads, hblank, hscale, hzero⟩

theorem readDigit_ones {d : ℕ} (h0 : 0 < d) (h : d < 10) : readDigit (ones.getD d []) = some d := by
  interval_cases d <;> decide

theorem ones_word {d : ℕ} (h0 : 0 < d) (h : d < 10) : SmallWord d (ones.getD d []) := by
  have hbelow : belowHundred d = ones.getD d [] := by
    rw [belowHundred, if_neg (by omega), if_pos (by omega)]
  exact hbelow ▸ belowHundred_word h0 (by omega)

/-- The words of a group. -/
theorem exists_groupWords {n : ℕ} (h0 : 0 < n) (h : n < 1000) :
    ∃ ws, GroupWords n ws ∧ convertGroup n = [' '].intercalate ws := by
  rcases Nat.lt_or_ge n 100 with hlt | hge
  · have hw := belowHundred_word h0 hlt
    refine ⟨[belowHundred n], ⟨hw.reads, ?_, ?_, ?_⟩, ?_⟩
    · rintro w (_ | ⟨_, ⟨⟩⟩)
      exact hw.no_blank
    · rintro w (_ | ⟨_, ⟨⟩⟩)
      exact hw.no_scale
    · exact fun h => hw.ne_zero (List.cons.inj h).1
    · rw [convertGroup_of_lt hlt, List.intercalate_singleton]
  · have hd0 : 0 < n / 100 := Nat.div_pos hge (by decide)
    have hd : n / 100 < 10 := by omega
    have hdigit := readDigit_ones hd0 hd
    have hhead := ones_word hd0 hd
    rw [convertGroup_of_le hge]
    rcases Nat.eq_zero_or_pos (n % 100) with hr | hr
    · refine ⟨[ones.getD (n / 100) [], "Hundred".toList], ⟨?_, ?_, ?_, by simp⟩, ?_⟩
      · rw [readGroup, if_pos rfl, hdigit, Option.map_some, Option.some_inj]
        omega
      · rintro w (_ | ⟨_, _ | ⟨_, ⟨⟩⟩⟩)
        · exact hhead.no_blank
        · decide
      · rintro w (_ | ⟨_, _ | ⟨_, ⟨⟩⟩⟩)
        · exact hhead.no_scale
        · decide
      · rw [List.intercalate_cons_cons, List.intercalate_singleton, hr, if_neg (by simp)]
        simp
    · have hw := belowHundred_word hr (Nat.mod_lt n (by decide))
      refine ⟨[ones.getD (n / 100) [], "Hundred".toList, belowHundred (n % 100)],
        ⟨?_, ?_, ?_, by simp⟩, ?_⟩
      · rw [readGroup, if_pos rfl, hdigit, Option.bind_some, hw.reads, Option.map_some,
          Option.some_inj]
        omega
      · rintro w (_ | ⟨_, _ | ⟨_, _ | ⟨_, ⟨⟩⟩⟩⟩)
        · exact hhead.no_blank
        · decide
        · exact hw.no_blank
      · rintro w (_ | ⟨_, _ | ⟨_, _ | ⟨_, ⟨⟩⟩⟩⟩)
        · exact hhead.no_scale
        · decide
        · exact hw.no_scale
      · rw [List.intercalate_cons_cons, List.intercalate_cons_cons, List.intercalate_singleton,
          if_pos hr.ne']
        simp

end Groups

section Parts

/-- Words are a part of the text where there are any. -/
def wordsPart (ws : List (List Char)) : List (List (List Char)) := if ws = [] then [] else [ws]

theorem flatten_wordsPart (ws : List (List Char)) : (wordsPart ws).flatten = ws := by
  unfold wordsPart
  split_ifs with h
  · exact h.symm
  · simp

theorem ne_nil_of_mem_wordsPart {ws p : List (List Char)} (h : p ∈ wordsPart ws) : p ≠ [] := by
  unfold wordsPart at h
  split_ifs at h with hnil
  · cases h
  · exact List.mem_singleton.mp h ▸ hnil

theorem exists_scaled (scale : List Char) {n : ℕ} (h : n < 1000) : ∃ ws, Scaled scale n ws ∧
    (if 0 < n then [convertGroup n ++ ' ' :: scale] else []) =
      (wordsPart ws).map [' '].intercalate := by
  rcases Nat.eq_zero_or_pos n with rfl | h0
  · exact ⟨[], .inl ⟨rfl, rfl⟩, rfl⟩
  · obtain ⟨gs, hg, htext⟩ := exists_groupWords h0 h
    refine ⟨gs ++ [scale], .inr ⟨gs, hg, rfl⟩, ?_⟩
    rw [if_pos h0, htext, wordsPart, if_neg (by simp), List.map_singleton,
      intercalate_append (by simp) hg.ne_nil, List.intercalate_singleton]

theorem exists_last {n : ℕ} (h : n < 1000) : ∃ ws, Last n ws ∧ (∀ w ∈ ws, ' ' ∉ w) ∧
    (if 0 < n then [convertGroup n] else []) = (wordsPart ws).map [' '].intercalate := by
  rcases Nat.eq_zero_or_pos n with rfl | h0
  · exact ⟨[], .inl ⟨rfl, rfl⟩, (by simp), rfl⟩
  · obtain ⟨gs, hg, htext⟩ := exists_groupWords h0 h
    refine ⟨gs, .inr hg, hg.no_blank, ?_⟩
    rw [if_pos h0, htext, wordsPart, if_neg hg.ne_nil, List.map_singleton]

/-- Texts put together from words are one text of all of them. -/
theorem intercalate_flatten {x : Char} : ∀ {ps : List (List (List Char))}, (∀ p ∈ ps, p ≠ []) →
    [x].intercalate (ps.map [x].intercalate) = [x].intercalate ps.flatten
  | [], _ => rfl
  | [p], _ => by simp [List.intercalate_singleton]
  | p :: q :: ps, h => by
    have hrest := intercalate_flatten (x := x) fun r hr => h r (List.mem_cons_of_mem p hr)
    have hflat : (q :: ps).flatten ≠ [] := by
      rw [List.flatten_cons]
      exact List.append_ne_nil_of_left_ne_nil (h q (by simp)) _
    rw [List.map_cons, List.map_cons, List.intercalate_cons_cons, ← List.map_cons, hrest,
      show (p :: q :: ps).flatten = p ++ (q :: ps).flatten from rfl,
      intercalate_append hflat (h p List.mem_cons_self)]
    simp

end Parts

/-- The text is read as the dollars and the cents that it is made of. -/
theorem readAmount_numberToWords {num : Dec} (h0 : 0 ≤ num) (h : num ≤ 999999999.99) :
    readAmount (numberToWords num) =
      some (⌊num⌋.toNat, ⌊(num - (⌊num⌋.toNat : ℕ)) * 100 + 1 / 2⌋.toNat) := by
  have hd : ⌊num⌋.toNat < 1000000000 := by
    have hle : (⌊num⌋ : ℚ) ≤ 999999999.99 := (Int.floor_le num).trans h
    have hlt : ⌊num⌋ < 1000000000 := by
      have : ((⌊num⌋ : ℤ) : ℚ) < ((1000000000 : ℤ) : ℚ) := hle.trans_lt (by norm_num)
      exact_mod_cast this
    omega
  rw [numberToWords, if_neg (not_lt.mpr h0), if_neg (not_lt.mpr h)]
  dsimp only
  generalize ⌊num⌋.toNat = d at hd ⊢
  generalize ⌊(num - (d : ℕ)) * 100 + 1 / 2⌋.toNat = c
  by_cases hzero : d = 0
  · subst hzero
    have hread : readAmount ([' '].intercalate ["Zero".toList] ++ " and ".toList ++ padded 2 c ++
        "/100".toList) = some (0, c) := readAmount_join rfl (by decide)
    rw [List.intercalate_singleton] at hread
    rw [if_pos rfl]
    exact hread
  · rw [if_neg hzero]
    have hm : d / 1000000 < 1000 := by omega
    have ht : d % 1000000 / 1000 < 1000 := by omega
    have hr : d % 1000 < 1000 := by omega
    obtain ⟨ms, hms, hmtext⟩ := exists_scaled "Million".toList hm
    obtain ⟨ts, hts, httext⟩ := exists_scaled "Thousand".toList ht
    obtain ⟨rs, hrs, hrblank, hrtext⟩ := exists_last hr
    have hsum : d / 1000000 * 1000000 + d % 1000000 / 1000 * 1000 + d % 1000 = d := by omega
    have hreads := readWords_groups hms hts hrs (by omega)
    rw [hsum] at hreads
    have hparts : ∀ p ∈ wordsPart ms ++ wordsPart ts ++ wordsPart rs, p ≠ [] := by
      intro p hp
      rcases List.mem_append.mp hp with hp | hp
      · rcases List.mem_append.mp hp with hp | hp
        · exact ne_nil_of_mem_wordsPart hp
        · exact ne_nil_of_mem_wordsPart hp
      · exact ne_nil_of_mem_wordsPart hp
    have hblank : ∀ w ∈ ms ++ ts ++ rs, ' ' ∉ w := by
      intro w hw
      rcases List.mem_append.mp hw with hw | hw
      · rcases List.mem_append.mp hw with hw | hw
        · exact hms.no_blank (by decide) w hw
        · exact hts.no_blank (by decide) w hw
      · exact hrblank w hw
    rw [show " Million".toList = ' ' :: "Million".toList from rfl,
      show " Thousand".toList = ' ' :: "Thousand".toList from rfl, hmtext, httext, hrtext,
      ← List.map_append, ← List.map_append, intercalate_flatten hparts,
      List.flatten_append, List.flatten_append, flatten_wordsPart, flatten_wordsPart,
      flatten_wordsPart]
    exact readAmount_join hreads hblank

/-- The text says an amount: its hundredths are two digits, and whole part and hundredths come to
the amount. -/
def SaysAmount (text : List Char) (amount : Dec) : Prop :=
  ∃ d c, readAmount text = some (d, c) ∧ c ≤ 99 ∧ (d : Dec) + c / 100 = amount

section Rounded

variable {num : Dec}

/-- The cents of an amount are those of the rounded amount. -/
theorem round2_eq (h0 : 0 ≤ num) : round2 num =
    (⌊num⌋.toNat : ℕ) + (⌊(num - (⌊num⌋.toNat : ℕ)) * 100 + 1 / 2⌋.toNat : ℕ) / 100 := by
  have hfloor : ((⌊num⌋.toNat : ℕ) : ℤ) = ⌊num⌋ := Int.toNat_of_nonneg (Int.floor_nonneg.mpr h0)
  have hdollars : ((⌊num⌋.toNat : ℕ) : ℚ) = ⌊num⌋ := by exact_mod_cast hfloor
  have hfract : 0 ≤ (num - ⌊num⌋) * 100 + 1 / 2 := by
    have := Int.fract_nonneg num
    unfold Int.fract at this
    linarith
  have hcents : ((⌊(num - ⌊num⌋) * 100 + 1 / 2⌋.toNat : ℕ) : ℤ) =
      ⌊(num - ⌊num⌋) * 100 + 1 / 2⌋ := Int.toNat_of_nonneg (Int.floor_nonneg.mpr hfract)
  have hcents' : ((⌊(num - ⌊num⌋) * 100 + 1 / 2⌋.toNat : ℕ) : ℚ) =
      (⌊(num - ⌊num⌋) * 100 + 1 / 2⌋ : ℤ) := by exact_mod_cast hcents
  have hsplit : num * 10 ^ 2 + 1 / 2 = (num - ⌊num⌋) * 100 + 1 / 2 + ((⌊num⌋ * 100 : ℤ) : ℚ) := by
    push_cast
    ring
  rw [hdollars, hcents', round2, toPlaces, roundHalfUp, if_pos (by positivity), hsplit,
    Int.floor_add_intCast]
  push_cast
  ring

theorem cents_le_iff (h0 : 0 ≤ num) :
    ⌊(num - (⌊num⌋.toNat : ℕ)) * 100 + 1 / 2⌋.toNat ≤ 99 ↔ Int.fract num < 0.995 := by
  have hfloor : ((⌊num⌋.toNat : ℕ) : ℤ) = ⌊num⌋ := Int.toNat_of_nonneg (Int.floor_nonneg.mpr h0)
  have hdollars : ((⌊num⌋.toNat : ℕ) : ℚ) = ⌊num⌋ := by exact_mod_cast hfloor
  rw [hdollars, show num - ⌊num⌋ = Int.fract num from rfl, Int.toNat_le, ← Int.lt_add_one_iff,
    Int.floor_lt]
  constructor
  · intro h
    push_cast at h
    norm_num at h ⊢
    linarith
  · intro h
    push_cast
    norm_num at h ⊢
    linarith

end Rounded

/-- The text of an amount says the amount rounded to the cent, as long as less than 99.5 cents are
over the dollars. Texts differ wherever the rounded amounts do. -/
theorem numberToWords_reads {input other : CheckInput} {entries others : List CheckEntry}
    (h : buildCheckLines input = .ok entries) (hmax : input.amount ≤ 999999999.99)
    (h' : buildCheckLines other = .ok others) (hmax' : other.amount ≤ 999999999.99) :
    (SaysAmount (numberToWords input.amount) (round2 input.amount) ↔
      Int.fract input.amount < 0.995) ∧
    (numberToWords input.amount = numberToWords other.amount →
      round2 input.amount = round2 other.amount) := by
  have h0 := (buildCheckLines_amount h).1.le
  have h0' := (buildCheckLines_amount h').1.le
  have hread := readAmount_numberToWords h0 hmax
  have hread' := readAmount_numberToWords h0' hmax'
  constructor
  · rw [← cents_le_iff h0]
    constructor
    · rintro ⟨d, c, hdc, hc, -⟩
      rw [hread] at hdc
      obtain ⟨rfl, rfl⟩ := Prod.mk.inj (Option.some.inj hdc)
      exact hc
    · exact fun hc => ⟨_, _, hread, hc, (round2_eq h0).symm⟩
  · intro htext
    rw [htext, hread'] at hread
    obtain ⟨hd, hc⟩ := Prod.mk.inj (Option.some.inj hread)
    rw [round2_eq h0, round2_eq h0', ← hc, hd]

theorem numberToWords_reads_office :
    SaysAmount (numberToWords 12345.67) (round2 12345.67) :=
  have h : buildCheckLines ⟨12345.67, [⟨"office", 12345.67, false, none⟩], "bank"⟩ =
      .ok [⟨"office", 12345.67, 0, none, false⟩, ⟨"bank", 0, 12345.67, none, false⟩] := by
    decide +kernel
  (numberToWords_reads h (by norm_num) h (by norm_num)).1.mpr (by decide +kernel)

/-- Half a cent below a dollar: the text has 100 hundredths. -/
theorem numberToWords_hundred :
    buildCheckLines ⟨0.995, [⟨"office", 0.995, false, none⟩], "bank"⟩ =
        .ok [⟨"office", 0.995, 0, none, false⟩, ⟨"bank", 0, 0.995, none, false⟩] ∧
      numberToWords 0.995 = "Zero and 100/100".toList ∧
      ¬SaysAmount (numberToWords 0.995) (round2 0.995) := by
  have htext : numberToWords 0.995 = "Zero and 100/100".toList := by decide +kernel
  refine ⟨by decide +kernel, htext, ?_⟩
  rintro ⟨d, c, hread, hc, -⟩
  rw [htext, show readAmount "Zero and 100/100".toList = some (0, 100) by decide +kernel] at hread
  obtain ⟨-, rfl⟩ := Prod.mk.inj (Option.some.inj hread)
  exact absurd hc (by decide)

end MyBooks
