import Mathlib.Data.List.TakeWhile
import MyBooks.PaddedText
import MyBooks.Separated

/-!
# Numbers in English words

Reading a number below a billion from its words. A word below a hundred may join its tens and its
units with a hyphen, a group of words says a number below a thousand, and groups come with their
scales from the largest on. An amount has its hundredths behind `and`, as a fraction of 100.
-/

namespace MyBooks

def unitNames : List (List Char) :=
  ["One", "Two", "Three", "Four", "Five", "Six", "Seven", "Eight", "Nine", "Ten", "Eleven",
    "Twelve", "Thirteen", "Fourteen", "Fifteen", "Sixteen", "Seventeen", "Eighteen",
    "Nineteen"].map String.toList

def decadeNames : List (List Char) :=
  ["Twenty", "Thirty", "Forty", "Fifty", "Sixty", "Seventy", "Eighty", "Ninety"].map String.toList

def readUnit (w : List Char) : Option ℕ := (unitNames.idxOf? w).map (· + 1)
def readDecade (w : List Char) : Option ℕ := (decadeNames.idxOf? w).map fun i => 10 * (i + 2)

/-- A unit below ten. -/
def readDigit (w : List Char) : Option ℕ := (readUnit w).filter (· < 10)

/-- A number from 1 to 99. -/
def readSmall (w : List Char) : Option ℕ :=
  match w.splitOn '-' with
  | [u] => readUnit u <|> readDecade u
  | [d, u] => (readDecade d).bind fun d => (readDigit u).map (d + ·)
  | _ => none

/-- A number from 1 to 999. -/
def readGroup : List (List Char) → Option ℕ
  | [w] => readSmall w
  | [h, c] => if c = "Hundred".toList then (readDigit h).map (100 * ·) else none
  | [h, c, w] =>
    if c = "Hundred".toList then
      (readDigit h).bind fun h => (readSmall w).map (100 * h + ·)
    else none
  | _ => none

/-- The group before a scale and the words behind it. -/
def readScaled (scale : List Char) (ws : List (List Char)) : Option (ℕ × List (List Char)) :=
  match ws.dropWhile (· ≠ scale) with
  | [] => some (0, ws)
  | _ :: rest => (readGroup (ws.takeWhile (· ≠ scale))).map (·, rest)

def readWords (ws : List (List Char)) : Option ℕ :=
  if ws = ["Zero".toList] then some 0
  else if ws = [] then none
  else
    (readScaled "Million".toList ws).bind fun (m, ws) =>
      (readScaled "Thousand".toList ws).bind fun (t, ws) =>
        (if ws = [] then some 0 else readGroup ws).map (m * 1000000 + t * 1000 + ·)

/-- The number before the fraction line of hundredths. -/
def readHundredths (w : List Char) : Option ℕ :=
  match w.splitOn '/' with
  | [c, h] => if h = "100".toList ∧ c ≠ [] ∧ c.all Char.isDigit then some (digitsValue c) else none
  | _ => none

/-- The whole part and the hundredths of an amount. -/
def readAmount (t : List Char) : Option (ℕ × ℕ) :=
  match (t.splitOn ' ').reverse with
  | c :: a :: ws =>
    if a = "and".toList then
      (readWords ws.reverse).bind fun d => (readHundredths c).map (d, ·)
    else none
  | _ => none

/-- Words of a group, which are none of a scale's. -/
structure GroupWords (n : ℕ) (ws : List (List Char)) : Prop where
  reads : readGroup ws = some n
  no_blank : ∀ w ∈ ws, ' ' ∉ w
  no_scale : ∀ w ∈ ws, w ≠ "Million".toList ∧ w ≠ "Thousand".toList
  ne_zero : ws ≠ ["Zero".toList]

variable {n m t r : ℕ} {ws ms ts rs : List (List Char)}

theorem GroupWords.ne_nil (h : GroupWords n ws) : ws ≠ [] := by
  rintro rfl
  cases h.reads

/-- The words before the first `scale`, and what comes behind it. -/
theorem readScaled_append {scale : List Char} (h : readGroup ws = some n)
    (hws : ∀ w ∈ ws, w ≠ scale) (rest : List (List Char)) :
    readScaled scale (ws ++ scale :: rest) = some (n, rest) := by
  have hbefore : ∀ w ∈ ws, decide (w ≠ scale) = true := fun w hw => decide_eq_true (hws w hw)
  have htake : (ws ++ scale :: rest).takeWhile (· ≠ scale) = ws := by
    rw [List.takeWhile_append_of_pos hbefore, List.takeWhile_cons_of_neg (by simp), List.append_nil]
  have hdrop : (ws ++ scale :: rest).dropWhile (· ≠ scale) = scale :: rest := by
    rw [List.dropWhile_append_of_pos hbefore, List.dropWhile_cons_of_neg (by simp)]
  rw [readScaled, hdrop, htake, h]
  rfl

theorem readScaled_of_notMem {scale : List Char} (h : scale ∉ ws) :
    readScaled scale ws = some (0, ws) := by
  have hdrop : ws.dropWhile (· ≠ scale) = [] :=
    List.dropWhile_eq_nil_iff.mpr fun w hw => decide_eq_true fun heq => h (heq ▸ hw)
  rw [readScaled, hdrop]

/-- The words of a scaled group, none where the group is zero. -/
def Scaled (scale : List Char) (n : ℕ) (ws : List (List Char)) : Prop :=
  (n = 0 ∧ ws = []) ∨ ∃ gs, GroupWords n gs ∧ ws = gs ++ [scale]

theorem Scaled.no_blank {scale : List Char} (h : Scaled scale n ws) (hscale : ' ' ∉ scale) :
    ∀ w ∈ ws, ' ' ∉ w := by
  obtain ⟨-, rfl⟩ | ⟨gs, hg, rfl⟩ := h
  · intro w hw
    cases hw
  · intro w hw
    rcases List.mem_append.mp hw with hw | hw
    · exact hg.no_blank w hw
    · exact List.mem_singleton.mp hw ▸ hscale

theorem Scaled.reads {scale : List Char} (h : Scaled scale n ws)
    (hgroup : ∀ w ∈ ws.dropLast, w ≠ scale) (hrs : scale ∉ rs) :
    readScaled scale (ws ++ rs) = some (n, rs) := by
  obtain ⟨rfl, rfl⟩ | ⟨gs, hg, rfl⟩ := h
  · exact readScaled_of_notMem hrs
  · rw [List.dropLast_concat] at hgroup
    rw [List.append_assoc]
    exact readScaled_append hg.reads hgroup rs

/-- The last group, none where it is zero. -/
def Last (n : ℕ) (ws : List (List Char)) : Prop := (n = 0 ∧ ws = []) ∨ GroupWords n ws

/-- Three groups with their scales are read as the number they say. -/
theorem readWords_groups (hm : Scaled "Million".toList m ms) (ht : Scaled "Thousand".toList t ts)
    (hr : Last r rs) (hpos : 0 < m * 1000000 + t * 1000 + r) :
    readWords (ms ++ ts ++ rs) = some (m * 1000000 + t * 1000 + r) := by
  have hrs : ∀ w ∈ rs, w ≠ "Million".toList ∧ w ≠ "Thousand".toList := by
    obtain ⟨-, rfl⟩ | h := hr
    · intro w hw
      cases hw
    · exact h.no_scale
  have hts : "Million".toList ∉ ts := by
    obtain ⟨-, rfl⟩ | ⟨gs, hg, rfl⟩ := ht
    · exact List.not_mem_nil
    · intro h
      rcases List.mem_append.mp h with h | h
      · exact (hg.no_scale _ h).1 rfl
      · exact absurd (List.mem_singleton.mp h) (by decide)
  have hmillion : readScaled "Million".toList (ms ++ (ts ++ rs)) = some (m, ts ++ rs) := by
    refine hm.reads (fun w hw => ?_) fun h => ?_
    · obtain ⟨-, rfl⟩ | ⟨gs, hg, rfl⟩ := hm
      · cases hw
      · rw [List.dropLast_concat] at hw
        exact (hg.no_scale w hw).1
    · rcases List.mem_append.mp h with h | h
      · exact hts h
      · exact (hrs _ h).1 rfl
  have hthousand : readScaled "Thousand".toList (ts ++ rs) = some (t, rs) := by
    refine ht.reads (fun w hw => ?_) fun h => (hrs _ h).2 rfl
    obtain ⟨-, rfl⟩ | ⟨gs, hg, rfl⟩ := ht
    · cases hw
    · rw [List.dropLast_concat] at hw
      exact (hg.no_scale w hw).2
  have hlast : (if rs = [] then some 0 else readGroup rs) = some r := by
    obtain ⟨rfl, rfl⟩ | h := hr
    · rfl
    · rw [if_neg h.ne_nil, h.reads]
  have hne : ms ++ (ts ++ rs) ≠ [] := by
    intro h
    obtain ⟨hms, h⟩ := List.append_eq_nil_iff.mp h
    obtain ⟨hts, hrs⟩ := List.append_eq_nil_iff.mp h
    obtain ⟨rfl, -⟩ | ⟨gs, -, rfl⟩ := hm
    · obtain ⟨rfl, -⟩ | ⟨gs, -, rfl⟩ := ht
      · obtain ⟨rfl, -⟩ | h := hr
        · exact absurd hpos (by decide)
        · exact h.ne_nil hrs
      · simp at hts
    · simp at hms
  have hzero : ms ++ (ts ++ rs) ≠ ["Zero".toList] := by
    intro h
    obtain ⟨rfl, rfl⟩ | ⟨gs, hg, rfl⟩ := hm
    · obtain ⟨rfl, rfl⟩ | ⟨gs, hg, rfl⟩ := ht
      · obtain ⟨rfl, rfl⟩ | hr := hr
        · exact absurd hpos (by decide)
        · exact hr.ne_zero h
      · rw [List.nil_append, List.append_assoc] at h
        obtain ⟨g, gs, rfl⟩ := List.exists_cons_of_ne_nil hg.ne_nil
        simp at h
    · rw [List.append_assoc] at h
      obtain ⟨g, gs, rfl⟩ := List.exists_cons_of_ne_nil hg.ne_nil
      simp at h
  rw [List.append_assoc, readWords, if_neg hzero, if_neg hne, hmillion, Option.bind_some]
  dsimp only
  rw [hthousand, Option.bind_some]
  dsimp only
  rw [hlast]
  rfl

/-- Words with the hundredths behind them are read as the amount. -/
theorem readAmount_join {d c : ℕ} (hws : readWords ws = some d) (hblank : ∀ w ∈ ws, ' ' ∉ w) :
    readAmount ([' '].intercalate ws ++ " and ".toList ++ padded 2 c ++ "/100".toList) =
      some (d, c) := by
  have hne : ws ≠ [] := by
    rintro rfl
    cases hws
  have hdigit : ∀ x ∈ padded 2 c, x.isDigit = true := digits_padded
  have hcents : ∀ x : Char, x.isDigit = false → x ∉ padded 2 c := fun x hx h => by
    rw [hdigit x h] at hx
    cases hx
  have htext : [' '].intercalate ws ++ " and ".toList ++ padded 2 c ++ "/100".toList =
      [' '].intercalate (ws ++ ["and".toList, padded 2 c ++ "/100".toList]) := by
    rw [intercalate_append (by simp) hne]
    simp [List.intercalate_cons_cons, List.intercalate_singleton]
  have hsplit : ([' '].intercalate (ws ++ ["and".toList, padded 2 c ++ "/100".toList])).splitOn
      ' ' = ws ++ ["and".toList, padded 2 c ++ "/100".toList] := by
    refine List.splitOn_intercalate ' ' (fun w hw => ?_) (by simp)
    rcases List.mem_append.mp hw with hw | hw
    · exact hblank w hw
    · rcases List.mem_cons.mp hw with rfl | hw
      · decide
      · rw [List.mem_singleton.mp hw]
        exact fun h => (List.mem_append.mp h).elim (hcents _ (by decide)) (by decide)
  have hslash : (padded 2 c ++ "/100".toList).splitOn '/' = [padded 2 c, "100".toList] := by
    have h : (['/'].intercalate [padded 2 c, "100".toList]).splitOn '/' =
        [padded 2 c, "100".toList] := by
      refine List.splitOn_intercalate '/' (fun w hw => ?_) (by simp)
      rcases List.mem_cons.mp hw with rfl | hw
      · exact hcents _ (by decide)
      · rw [List.mem_singleton.mp hw]
        decide
    rw [← h]
    simp [List.intercalate_cons_cons, List.intercalate_singleton]
  have hhundredths : readHundredths (padded 2 c ++ "/100".toList) = some c := by
    have hnil : padded 2 c ≠ [] := by
      intro h
      have hlen := congrArg List.length h
      rw [padded, padStart, List.length_append, List.length_replicate, List.length_nil] at hlen
      omega
    rw [readHundredths, hslash]
    simp only [if_true, hnil, ne_eq, not_false_eq_true, true_and, List.all_eq_true.mpr hdigit]
    rw [digitsValue_padded]
  rw [htext, readAmount, hsplit, List.reverse_append]
  simp only [List.reverse_cons, List.reverse_nil, List.nil_append, List.cons_append, if_true,
    List.reverse_reverse, hws, Option.bind_some, hhundredths]
  rfl

end MyBooks
