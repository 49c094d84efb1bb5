import MyBooks.JsonText
import Mathlib.Data.List.DropRight

/-!
# The text of a number

A finite number prints as the shortest decimal that reads back as it: as it stands, with zeros, or
with an exponent, by where its point is. Different decimals have different texts
(`ShortDecimal.text_inj`).
-/

namespace MyBooks

/-- The decimal `0.d₁…dₖ · 10ⁿ`, of which no digit can be left out. -/
structure ShortDecimal where
  negative : Bool
  digits : Text
  point : ℤ
  areDigits : ∀ c ∈ digits, c.isDigit = true
  ne_nil : digits ≠ []
  head : digits.head? ≠ some '0'
  last : digits.getLast? ≠ some '0'

theorem ShortDecimal.ext {x y : ShortDecimal} (hnegative : x.negative = y.negative)
    (hdigits : x.digits = y.digits) (hpoint : x.point = y.point) : x = y := by
  cases x
  cases y
  simp only at hnegative hdigits hpoint
  subst hnegative hdigits hpoint
  rfl

instance : DecidableEq ShortDecimal := fun x y =>
  decidable_of_iff (x.negative = y.negative ∧ x.digits = y.digits ∧ x.point = y.point)
    ⟨fun ⟨hnegative, hdigits, hpoint⟩ => ShortDecimal.ext hnegative hdigits hpoint, by
      rintro rfl
      exact ⟨rfl, rfl, rfl⟩⟩

/-- The parts of a number's text: before and behind the point, and the exponent with its sign. -/
structure NumberParts where
  whole : Text
  frac : Text
  expo : Text
  deriving DecidableEq

def NumberParts.text (p : NumberParts) : Text :=
  p.whole ++ (if p.frac = [] then [] else '.' :: p.frac) ++ if p.expo = [] then [] else 'e' :: p.expo

/-- `Number::toString` for a positive number. -/
def ShortDecimal.parts (x : ShortDecimal) : NumberParts :=
  let n := x.point
  if -5 ≤ n ∧ n ≤ 21 then
    if x.digits.length ≤ n then
      ⟨x.digits ++ List.replicate (n - x.digits.length).toNat '0', [], []⟩
    else if 0 < n then ⟨x.digits.take n.toNat, x.digits.drop n.toNat, []⟩
    else ⟨['0'], List.replicate (-n).toNat '0' ++ x.digits, []⟩
  else ⟨x.digits.take 1, x.digits.drop 1,
    (if n < 0 then '-' else '+') :: Nat.toDigits 10 (n - 1).natAbs⟩

def ShortDecimal.text (x : ShortDecimal) : Text :=
  (if x.negative then ['-'] else []) ++ x.parts.text

inductive JsNumber
  | zero
  | finite (x : ShortDecimal)
  | infinite (negative : Bool)
  deriving DecidableEq

/-- The text of a finite number; zero has no sign. -/
def JsNumber.text : JsNumber → Option Text
  | zero => some ['0']
  | finite x => some x.text
  | infinite _ => none

example : [(⟨false, "15".toList, 1, List.all_eq_true.mp rfl, by decide, by decide, by decide⟩ :
      ShortDecimal),
    ⟨true, "1".toList, 22, List.all_eq_true.mp rfl, by decide, by decide, by decide⟩,
    ⟨false, "12".toList, -6, List.all_eq_true.mp rfl, by decide, by decide, by decide⟩].map
      ShortDecimal.text =
      ["1.5".toList, "-1e+21".toList, "1.2e-7".toList] := by
  decide

section Parts

variable {p q : NumberParts} {x y : ShortDecimal}

/-- Digits before and behind the point, the first of them before. -/
structure NumberParts.Wf (p : NumberParts) : Prop where
  whole : ∀ c ∈ p.whole, c.isDigit = true
  frac : ∀ c ∈ p.frac, c.isDigit = true
  ne_nil : p.whole ≠ []

/-- Digits up to what is none are read off a text. -/
theorem digits_append_inj : ∀ {s t u v : Text}, (∀ c ∈ s, c.isDigit = true) →
    (∀ c ∈ t, c.isDigit = true) → (∀ c ∈ u.head?, c.isDigit = false) →
    (∀ c ∈ v.head?, c.isDigit = false) → s ++ u = t ++ v → s = t ∧ u = v
  | [], [], u, v, _, _, _, _, h => ⟨rfl, h⟩
  | [], c :: t, u, v, _, ht, hu, _, h => by
    rw [List.nil_append, List.cons_append] at h
    have hc := ht c List.mem_cons_self
    rw [hu c (by rw [h]; rfl)] at hc
    cases hc
  | c :: s, [], u, v, hs, _, _, hv, h => by
    rw [List.nil_append, List.cons_append] at h
    have hc := hs c List.mem_cons_self
    rw [hv c (by rw [← h]; rfl)] at hc
    cases hc
  | c :: s, d :: t, u, v, hs, ht, hu, hv, h => by
    obtain ⟨hcd, htail⟩ := List.cons.inj h
    obtain ⟨hst, huv⟩ := digits_append_inj (fun c hc => hs c (List.mem_cons_of_mem _ hc))
      (fun c hc => ht c (List.mem_cons_of_mem _ hc)) hu hv htail
    exact ⟨by rw [hcd, hst], huv⟩

theorem expo_head (t : Text) : ∀ c ∈ (if t = [] then [] else 'e' :: t).head?, c.isDigit = false := by
  intro c hc
  split_ifs at hc
  · cases hc
  · obtain rfl := Option.mem_some.mp hc
    rfl

theorem frac_head (s t : Text) : ∀ c ∈ ((if s = [] then [] else '.' :: s) ++
    if t = [] then [] else 'e' :: t).head?, c.isDigit = false := by
  intro c hc
  by_cases hs : s = []
  · rw [if_pos hs, List.nil_append] at hc
    exact expo_head t c hc
  · rw [if_neg hs] at hc
    obtain rfl := Option.mem_some.mp hc
    rfl

theorem expo_inj {s t : Text} (h : (if s = [] then [] else 'e' :: s) =
    if t = [] then [] else 'e' :: t) : s = t := by
  by_cases hs : s = [] <;> by_cases ht : t = []
  · rw [hs, ht]
  · rw [if_pos hs, if_neg ht] at h
    cases h
  · rw [if_neg hs, if_pos ht] at h
    cases h
  · rw [if_neg hs, if_neg ht] at h
    exact List.tail_eq_of_cons_eq h

/-- The parts are read off the text. -/
theorem NumberParts.text_inj (hp : p.Wf) (hq : q.Wf) (h : p.text = q.text) : p = q := by
  obtain ⟨pw, pf, pe⟩ := p
  obtain ⟨qw, qf, qe⟩ := q
  rw [NumberParts.text, NumberParts.text, List.append_assoc, List.append_assoc] at h
  obtain ⟨hwhole, hbehind⟩ :=
    digits_append_inj hp.whole hq.whole (frac_head _ _) (frac_head _ _) h
  simp only at hwhole hbehind
  have hrest : pf = qf ∧ pe = qe := by
    by_cases hpf : pf = [] <;> by_cases hqf : qf = []
    · rw [if_pos hpf, if_pos hqf] at hbehind
      exact ⟨hpf.trans hqf.symm, expo_inj hbehind⟩
    · rw [if_pos hpf, if_neg hqf, List.nil_append] at hbehind
      split_ifs at hbehind <;> cases hbehind
    · rw [if_neg hpf, if_pos hqf, List.nil_append] at hbehind
      split_ifs at hbehind <;> cases hbehind
    · rw [if_neg hpf, if_neg hqf, List.cons_append, List.cons_append] at hbehind
      obtain ⟨hfrac, hexpo⟩ := digits_append_inj hp.frac hq.frac (expo_head _) (expo_head _)
        (List.tail_eq_of_cons_eq hbehind)
      exact ⟨hfrac, expo_inj hexpo⟩
  rw [hwhole, hrest.1, hrest.2]

/-- Digits with zeros around them, and how many stand ahead. -/
structure Padded (x : ShortDecimal) (ahead : ℕ) (s : Text) : Prop where
  eq : ∃ n, s = List.replicate ahead '0' ++ x.digits ++ List.replicate n '0'

/-- The digits are what is left without the zeros. -/
theorem Padded.stripped {m : ℕ} {s : Text} (h : Padded x m s) :
    (s.takeWhile (· = '0')).length = m ∧
      (s.dropWhile (· = '0')).rdropWhile (· = '0') = x.digits := by
  obtain ⟨n, rfl⟩ := h
  obtain ⟨c, ds, hds⟩ := List.exists_cons_of_ne_nil x.ne_nil
  have hc : c ≠ '0' := fun hzero => x.head (by rw [hds, hzero]; rfl)
  have hkeep : x.digits.rdropWhile (· = '0') = x.digits := by
    refine List.rdropWhile_eq_self_iff.mpr fun hne hlast => x.last ?_
    rw [List.getLast?_eq_some_getLast hne]
    simpa using hlast
  have hbehind : ∀ n, (x.digits ++ List.replicate n '0').rdropWhile (· = '0') = x.digits := by
    intro n
    induction n with
    | zero => rw [List.replicate_zero, List.append_nil, hkeep]
    | succ n ih =>
      rw [List.replicate_succ', ← List.append_assoc, List.rdropWhile_concat_pos _ _ _ (by simp), ih]
  rw [List.append_assoc, List.takeWhile_append_of_pos (by simp),
    List.dropWhile_append_of_pos (by simp)]
  constructor
  · rw [hds, List.cons_append, List.takeWhile_cons_of_neg (by simpa using hc), List.append_nil,
      List.length_replicate]
  · have hstays : (x.digits ++ List.replicate n '0').dropWhile (· = '0') =
        x.digits ++ List.replicate n '0' := by
      rw [hds, List.cons_append, List.dropWhile_cons_of_neg (by simpa using hc)]
    rw [hstays, hbehind]

theorem Padded.unique {m n : ℕ} {s : Text} (hx : Padded x m s) (hy : Padded y n s) :
    m = n ∧ x.digits = y.digits :=
  ⟨hx.stripped.1.symm.trans hy.stripped.1, hx.stripped.2.symm.trans hy.stripped.2⟩

theorem parts_plain (h : -5 ≤ x.point ∧ x.point ≤ 21) : x.parts.expo = [] ∧
    ∃ m, Padded x m (x.parts.whole ++ x.parts.frac) ∧ x.point = x.parts.whole.length - m := by
  unfold ShortDecimal.parts
  dsimp only
  rw [if_pos h]
  split_ifs with hlong hpos
  · refine ⟨rfl, 0, ⟨⟨(x.point - x.digits.length).toNat, by simp⟩⟩, ?_⟩
    rw [List.length_append, List.length_replicate]
    omega
  · refine ⟨rfl, 0, ⟨⟨0, by simp⟩⟩, ?_⟩
    rw [List.length_take]
    omega
  · refine ⟨rfl, (-x.point).toNat + 1, ⟨⟨0, by simp [List.replicate_succ]⟩⟩, ?_⟩
    rw [List.length_singleton]
    omega

theorem parts_expo (h : ¬(-5 ≤ x.point ∧ x.point ≤ 21)) :
    x.parts.expo = (if x.point < 0 then '-' else '+') :: Nat.toDigits 10 (x.point - 1).natAbs ∧
      x.parts.whole ++ x.parts.frac = x.digits := by
  unfold ShortDecimal.parts
  dsimp only
  rw [if_neg h]
  exact ⟨rfl, List.take_append_drop 1 _⟩

theorem toDigits_inj {m n : ℕ} (h : Nat.toDigits 10 m = Nat.toDigits 10 n) : m = n := by
  have hm := Nat.ofDigitChars_toDigits (n := m) (b := 10) (by decide) (by decide)
  rw [h, Nat.ofDigitChars_toDigits (by decide) (by decide)] at hm
  exact hm.symm

theorem ShortDecimal.parts_inj (h : x.parts = y.parts) : x.digits = y.digits ∧ x.point = y.point := by
  by_cases hx : -5 ≤ x.point ∧ x.point ≤ 21 <;> by_cases hy : -5 ≤ y.point ∧ y.point ≤ 21
  · obtain ⟨-, m, hpadded, hpoint⟩ := parts_plain hx
    obtain ⟨-, n, hpadded', hpoint'⟩ := parts_plain hy
    rw [h] at hpadded hpoint
    obtain ⟨rfl, hdigits⟩ := hpadded.unique hpadded'
    exact ⟨hdigits, hpoint.trans hpoint'.symm⟩
  · have hexpo := (parts_plain hx).1
    rw [h, (parts_expo hy).1] at hexpo
    cases hexpo
  · have hexpo := (parts_plain hy).1
    rw [← h, (parts_expo hx).1] at hexpo
    cases hexpo
  · obtain ⟨hexpo, hdigits⟩ := parts_expo hx
    obtain ⟨hexpo', hdigits'⟩ := parts_expo hy
    rw [h] at hexpo hdigits
    refine ⟨hdigits.symm.trans hdigits', ?_⟩
    obtain ⟨hsign, hsize⟩ := List.cons.inj (hexpo.symm.trans hexpo')
    have habs := toDigits_inj hsize
    split_ifs at hsign
    · omega
    · exact absurd hsign (by decide)
    · exact absurd hsign (by decide)
    · omega

theorem parts_wf (x : ShortDecimal) : x.parts.Wf := by
  have hne : 0 < x.digits.length := List.length_pos_iff.mpr x.ne_nil
  have hzeros : ∀ n : ℕ, ∀ c ∈ List.replicate n '0', c.isDigit = true := by
    intro n c hc
    rw [List.eq_of_mem_replicate hc]
    rfl
  unfold ShortDecimal.parts
  simp only
  split_ifs
  · refine ⟨fun c hc => ?_, by simp, by simp [x.ne_nil]⟩
    exact (List.mem_append.mp hc).elim (x.areDigits c) (hzeros _ c)
  · refine ⟨fun c hc => x.areDigits c (List.mem_of_mem_take hc),
      fun c hc => x.areDigits c (List.mem_of_mem_drop hc), fun hnil => ?_⟩
    have hlen := congrArg List.length hnil
    rw [List.length_take, List.length_nil] at hlen
    omega
  · refine ⟨fun c hc => ?_, fun c hc => ?_, List.cons_ne_nil _ _⟩
    · rw [List.mem_singleton.mp hc]
      rfl
    · exact (List.mem_append.mp hc).elim (hzeros _ c) (x.areDigits c)
  all_goals
    refine ⟨fun c hc => x.areDigits c (List.mem_of_mem_take hc),
      fun c hc => x.areDigits c (List.mem_of_mem_drop hc), fun hnil => ?_⟩
    have hlen := congrArg List.length hnil
    rw [List.length_take, List.length_nil] at hlen
    omega

theorem NumberParts.text_head (hp : p.Wf) : ∃ c ∈ p.text.head?, c.isDigit = true := by
  obtain ⟨c, s, hs⟩ := List.exists_cons_of_ne_nil hp.ne_nil
  refine ⟨c, ?_, hp.whole c (by rw [hs]; exact List.mem_cons_self)⟩
  rw [NumberParts.text, hs]
  rfl

theorem ShortDecimal.text_inj (h : x.text = y.text) : x = y := by
  have hsigned : ∀ {x y : ShortDecimal}, '-' :: x.parts.text ≠ y.parts.text := by
    intro x y heq
    obtain ⟨c, hc, hdigit⟩ := NumberParts.text_head (parts_wf y)
    rw [← heq] at hc
    obtain rfl := Option.mem_some.mp hc
    cases hdigit
  have hparts : x.negative = y.negative ∧ x.parts.text = y.parts.text := by
    unfold ShortDecimal.text at h
    cases hx : x.negative <;> cases hy : y.negative <;> rw [hx, hy] at h
    · exact ⟨rfl, h⟩
    · exact absurd h.symm hsigned
    · exact absurd h hsigned
    · exact ⟨rfl, List.tail_eq_of_cons_eq h⟩
  obtain ⟨hdigits, hpoint⟩ :=
    ShortDecimal.parts_inj (NumberParts.text_inj (parts_wf x) (parts_wf y) hparts.2)
  exact ShortDecimal.ext hparts.1 hdigits hpoint

theorem parts_ne_zero (x : ShortDecimal) : x.parts ≠ ⟨['0'], [], []⟩ := by
  intro h
  by_cases hx : -5 ≤ x.point ∧ x.point ≤ 21
  · obtain ⟨-, m, ⟨n, hpadded⟩, -⟩ := parts_plain hx
    rw [h] at hpadded
    obtain ⟨c, ds, hds⟩ := List.exists_cons_of_ne_nil x.ne_nil
    have hc : c ∈ ['0'] ++ [] := by
      rw [hpadded, hds]
      simp
    refine x.head ?_
    rw [hds, List.head?_cons, List.mem_singleton.mp hc]
  · have hexpo := (parts_expo hx).1
    rw [h] at hexpo
    cases hexpo

theorem JsNumber.text_inj {m n : JsNumber} {t : Text} (hm : m.text = some t) (hn : n.text = some t) :
    m = n := by
  have hzero : NumberParts.Wf ⟨['0'], [], []⟩ :=
    ⟨List.all_eq_true.mp rfl, List.all_eq_true.mp rfl, List.cons_ne_nil _ _⟩
  have hne : ∀ x : ShortDecimal, x.text ≠ ['0'] := by
    intro x h
    cases hx : x.negative <;> rw [ShortDecimal.text, hx] at h
    · exact parts_ne_zero x (NumberParts.text_inj (parts_wf x) hzero h)
    · cases h
  cases m <;> cases n <;> simp only [JsNumber.text, Option.some.injEq, reduceCtorEq] at hm hn
  · rfl
  · exact absurd (hn.trans hm.symm) (hne _)
  · exact absurd (hm.trans hn.symm) (hne _)
  · rw [ShortDecimal.text_inj (hm.trans hn.symm)]

/-- The characters of a number. -/
theorem NumberParts.text_literal (hp : p.Wf) (hexpo : ∀ c ∈ p.expo, isLiteralChar c = true) :
    p.text.all isLiteralChar = true := by
  have hdigit : ∀ c : Char, c.isDigit = true → isLiteralChar c = true := by
    intro c hc
    rw [isLiteralChar, Char.isAlphanum, hc]
    simp
  rw [List.all_eq_true]
  intro c hc
  simp only [NumberParts.text, List.mem_append] at hc
  rcases hc with (hc | hc) | hc
  · exact hdigit c (hp.whole c hc)
  · split_ifs at hc
    · cases hc
    · rcases List.mem_cons.mp hc with rfl | hc
      · rfl
      · exact hdigit c (hp.frac c hc)
  · split_ifs at hc
    · cases hc
    · rcases List.mem_cons.mp hc with rfl | hc
      · rfl
      · exact hexpo c hc

theorem JsNumber.text_literal {n : JsNumber} {t : Text} (h : n.text = some t) :
    t.all isLiteralChar = true ∧ ∃ c r, t = c :: r ∧ (c = '-' ∨ c.isDigit = true) := by
  cases n with
  | zero =>
    obtain rfl := Option.some.inj h
    exact ⟨by decide, _, _, rfl, .inr rfl⟩
  | infinite negative => cases h
  | finite x =>
    obtain rfl := Option.some.inj h
    have hexpo : ∀ c ∈ x.parts.expo, isLiteralChar c = true := by
      intro c hc
      by_cases hx : -5 ≤ x.point ∧ x.point ≤ 21
      · rw [(parts_plain hx).1] at hc
        cases hc
      · rw [(parts_expo hx).1] at hc
        rcases List.mem_cons.mp hc with rfl | hc
        · split_ifs <;> rfl
        · rw [isLiteralChar, Char.isAlphanum,
            Nat.isDigit_of_mem_toDigits (by decide) (by decide) hc]
          simp
    have hparts := NumberParts.text_literal (parts_wf x) hexpo
    obtain ⟨c, hc, hdigit⟩ := NumberParts.text_head (parts_wf x)
    cases hx : x.negative with
    | false =>
      have htext : x.text = x.parts.text := by rw [ShortDecimal.text, hx]; rfl
      rw [htext]
      obtain ⟨r, hr⟩ := List.head?_eq_some_iff.mp hc
      exact ⟨hparts, c, r, hr, .inr hdigit⟩
    | true =>
      have htext : x.text = '-' :: x.parts.text := by rw [ShortDecimal.text, hx]; rfl
      rw [htext, List.all_cons, hparts]
      exact ⟨rfl, _, _, rfl, .inl rfl⟩

end Parts

end MyBooks
