import MyBooks.Expression
import MyBooks.Separated
import Mathlib.Tactic.IntervalCases

/-!
# The tokens of the calculator

What texts a sequence of tokens has: numbers with their thousands in groups or not, operators in
their glyphs, and blanks between them. `tokenize` finds the tokens of such a text and of no other
(`tokenize_iff`).
-/

namespace MyBooks

namespace Expression

def Digits (t : List Char) : Prop := ∀ c ∈ t, c.isDigit = true

/-- The text of a whole number with its digits: these alone, or in groups of three behind the
first. -/
inductive Whole : List Char → List Char → Prop
  | plain {digits : List Char} (h : Digits digits) : Whole digits digits
  | grouped {p : List Char} {ps : List (List Char)} (hp : Digits p) (hlow : 1 ≤ p.length)
    (hhigh : p.length ≤ 3) (hne : ps ≠ []) (hps : ∀ q ∈ ps, Digits q ∧ q.length = 3) :
    Whole ([','].intercalate (p :: ps)) (p ++ ps.flatten)

/-- The text of a number. Digits stand before the point or behind it. -/
structure NumberText (raw : List Char) (v : ℚ) (whole digits frac : List Char) : Prop where
  isWhole : Whole whole digits
  areDigits : Digits frac
  ne_nil : ¬(whole = [] ∧ frac = [])
  raw : raw = whole ++ '.' :: frac ∨ frac = [] ∧ raw = whole
  value : v = digitsValue (digits ++ frac) / 10 ^ frac.length

/-- The texts of a sequence of tokens. A currency sign stands right before its number, and a number
goes as far as it can. -/
inductive Lexes : List Char → List Tok → Prop
  | nil : Lexes [] []
  | blank {c s ts} (hc : isBlank c = true) (h : Lexes s ts) : Lexes (c :: s) ts
  | op {c o s ts} (hc : opOf c = some o) (h : Lexes s ts) : Lexes (c :: s) (.op o :: ts)
  | num {raw v whole digits frac s ts} (dollar : Bool)
    (hraw : NumberText raw v whole digits frac) (hend : ∀ c ∈ s.head?, isNumeral c = false)
    (h : Lexes s ts) :
    Lexes ((if dollar then ['$'] else []) ++ (raw ++ s)) (.num (ofRat v) :: ts)

/-! ## Numbers -/

theorem Digits.notMem {t : List Char} (h : Digits t) {c : Char} (hc : c.isDigit = false) :
    c ∉ t := fun hmem => by
  rw [h c hmem] at hc
  cases hc

/-- The digits of a whole number are what stands between its commas. -/
theorem isWhole_iff {t digits : List Char} :
    Whole t digits ↔ isWhole t = true ∧ digits = t.filter (· ≠ ',') := by
  have hcomma : (',' : Char).isDigit = false := by decide
  constructor
  · rintro (h | ⟨hp, hlow, hhigh, hne, hps⟩)
    · have hnot := Digits.notMem h hcomma
      refine ⟨?_, (filter_eq_self_of_notMem hnot).symm⟩
      rw [isWhole, List.splitOn_eq_singleton hnot]
      exact List.all_eq_true.mpr h
    · rename_i p ps
      have hnot : ∀ q ∈ p :: ps, ',' ∉ q := by
        intro q hq
        rcases List.mem_cons.mp hq with rfl | hq
        · exact Digits.notMem hp hcomma
        · exact Digits.notMem (hps q hq).1 hcomma
      refine ⟨?_, (filter_intercalate hnot).symm⟩
      rw [isWhole, List.splitOn_intercalate ',' hnot (List.cons_ne_nil _ _)]
      obtain ⟨q, ps, rfl⟩ := List.exists_cons_of_ne_nil hne
      simp only [Bool.and_eq_true, List.all_eq_true, decide_eq_true_eq]
      exact ⟨⟨⟨hp, hlow⟩, hhigh⟩, fun r hr => ⟨(hps r hr).1, (hps r hr).2⟩⟩
  · rintro ⟨h, rfl⟩
    rw [isWhole] at h
    have ht : [','].intercalate (t.splitOn ',') = t := List.intercalate_splitOn ','
    generalize t.splitOn ',' = parts at h ht
    match parts, h with
    | [p], h =>
      have hp : Digits p := List.all_eq_true.mp h
      rw [List.intercalate_singleton] at ht
      rw [← ht, filter_eq_self_of_notMem (Digits.notMem hp hcomma)]
      exact .plain hp
    | p :: q :: ps, h =>
      simp only [Bool.and_eq_true, List.all_eq_true, decide_eq_true_eq] at h
      obtain ⟨⟨⟨hp, hlow⟩, hhigh⟩, hps⟩ := h
      have hnot : ∀ r ∈ p :: q :: ps, ',' ∉ r := by
        intro r hr
        rcases List.mem_cons.mp hr with rfl | hr
        · exact Digits.notMem hp hcomma
        · exact Digits.notMem (hps r hr).1 hcomma
      rw [← ht, filter_intercalate hnot]
      exact .grouped hp hlow hhigh (List.cons_ne_nil q ps) hps

theorem Whole.mem {t digits : List Char} (h : Whole t digits) :
    ∀ c ∈ t, c = ',' ∨ c.isDigit = true := by
  cases h with
  | plain h => exact fun c hc => .inr (h c hc)
  | grouped hp _ _ _ hps =>
    intro c hc
    refine (mem_intercalate hc).imp_right ?_
    rintro ⟨q, hq, hcq⟩
    rcases List.mem_cons.mp hq with rfl | hq
    · exact hp c hcq
    · exact (hps q hq).1 c hcq

theorem Whole.dot_notMem {t digits : List Char} (h : Whole t digits) : '.' ∉ t := fun hdot => by
  rcases h.mem '.' hdot with h | h
  · cases h
  · cases h

theorem takeWhile_dot {t u : List Char} (h : '.' ∉ t) :
    (t ++ '.' :: u).takeWhile (· ≠ '.') = t ∧ (t ++ '.' :: u).dropWhile (· ≠ '.') = '.' :: u := by
  have hall : ∀ c ∈ t, decide (c ≠ '.') = true :=
    fun c hc => decide_eq_true fun heq => h (heq ▸ hc)
  constructor
  · rw [List.takeWhile_append_of_pos hall]
    simp
  · rw [List.dropWhile_append_of_pos hall]
    simp

theorem takeWhile_noDot {t : List Char} (h : '.' ∉ t) :
    t.takeWhile (· ≠ '.') = t ∧ t.dropWhile (· ≠ '.') = [] := by
  have hall : ∀ c ∈ t, decide (c ≠ '.') = true :=
    fun c hc => decide_eq_true fun heq => h (heq ▸ hc)
  exact ⟨List.takeWhile_eq_self_iff.mpr hall, List.dropWhile_eq_nil_iff.mpr hall⟩

/-- A text in front of its first point and behind it. -/
theorem eq_around_dot (t : List Char) :
    t = t.takeWhile (· ≠ '.') ++ '.' :: (t.dropWhile (· ≠ '.')).tail ∨
      (t.dropWhile (· ≠ '.')).tail = [] ∧ t = t.takeWhile (· ≠ '.') := by
  have happ : t.takeWhile (· ≠ '.') ++ t.dropWhile (· ≠ '.') = t := List.takeWhile_append_dropWhile
  cases hdrop : t.dropWhile (· ≠ '.') with
  | nil =>
    rw [hdrop, List.append_nil] at happ
    exact .inr ⟨rfl, happ.symm⟩
  | cons c u =>
    have hc : c = '.' := by
      have := List.head?_dropWhile_not (fun c : Char => decide (c ≠ '.')) t
      rw [hdrop] at this
      simpa using this
    rw [hdrop, hc] at happ
    exact .inl happ.symm

theorem parseNumberToken_iff {raw : List Char} {r : Rational} : parseNumberToken raw = .ok r ↔
    ∃ v whole digits frac, NumberText raw v whole digits frac ∧ r = ofRat v := by
  have hnorm : ∀ (n : ℕ) (k : ℕ), norm n (10 ^ k) = ofRat (n / 10 ^ k) := fun n k => by
    rw [norm_eq (pow_ne_zero k (by decide))]
    push_cast
    rfl
  have hcond : ∀ whole frac : List Char, (isWhole whole && frac.all Char.isDigit &&
      !(decide (whole = []) && decide (frac = []))) = true ↔
        isWhole whole = true ∧ Digits frac ∧ ¬(whole = [] ∧ frac = []) := fun whole frac => by
    rw [Bool.and_eq_true, Bool.and_eq_true, List.all_eq_true, and_assoc, Digits]
    simp only [Bool.not_eq_true', Bool.and_eq_false_iff, decide_eq_false_iff_not, not_and_or]
  unfold parseNumberToken
  dsimp only
  constructor
  · intro h
    split_ifs at h with hok
    obtain rfl := Except.ok.inj h
    obtain ⟨hwhole, hfrac, hne⟩ := (hcond _ _).mp hok
    exact ⟨_, _, _, _, ⟨isWhole_iff.mpr ⟨hwhole, rfl⟩, hfrac, hne, eq_around_dot raw, rfl⟩,
      hnorm _ _⟩
  · rintro ⟨v, whole, digits, frac, ⟨hwhole, hfrac, hne, hraw, rfl⟩, rfl⟩
    obtain ⟨his, rfl⟩ := isWhole_iff.mp hwhole
    have hparts : raw.takeWhile (· ≠ '.') = whole ∧ (raw.dropWhile (· ≠ '.')).tail = frac := by
      rcases hraw with rfl | ⟨rfl, rfl⟩
      · obtain ⟨h1, h2⟩ := takeWhile_dot (u := frac) hwhole.dot_notMem
        exact ⟨h1, by rw [h2]; rfl⟩
      · obtain ⟨h1, h2⟩ := takeWhile_noDot hwhole.dot_notMem
        exact ⟨h1, by rw [h2]; rfl⟩
    rw [hparts.1, hparts.2, if_pos ((hcond _ _).mpr ⟨his, hfrac, hne⟩), hnorm]

/-! ## The text of tokens -/

theorem isNumeral_of_isDigit {c : Char} (h : c.isDigit = true) : isNumeral c = true := by
  rw [isNumeral, h]
  rfl

theorem NumberText.isNumeral {raw whole digits frac : List Char} {v : ℚ}
    (h : NumberText raw v whole digits frac) : ∀ c ∈ raw, isNumeral c = true := by
  have hwhole : ∀ c ∈ whole, Expression.isNumeral c = true := fun c hc => by
    rcases h.isWhole.mem c hc with rfl | hd
    · rfl
    · exact isNumeral_of_isDigit hd
  rcases h.raw with hraw | ⟨-, hraw⟩
  · intro c hc
    rw [hraw] at hc
    rcases List.mem_append.mp hc with hc | hc
    · exact hwhole c hc
    · rcases List.mem_cons.mp hc with rfl | hc
      · rfl
      · exact isNumeral_of_isDigit (h.areDigits c hc)
  · rwa [hraw]

theorem Whole.head {t digits : List Char} (h : Whole t digits) :
    ∀ c ∈ t.head?, c.isDigit = true := by
  cases h with
  | plain h => exact fun c hc => h c (List.mem_of_head? hc)
  | grouped hp hlow _ hne _ =>
    rename_i p ps
    obtain ⟨d, p, rfl⟩ := List.exists_cons_of_length_pos hlow
    obtain ⟨q, ps, rfl⟩ := List.exists_cons_of_ne_nil hne
    intro c hc
    rw [List.intercalate_cons_cons] at hc
    obtain rfl : d = c := Option.some.inj hc
    exact hp d List.mem_cons_self

/-- A number starts with a digit or its point. -/
theorem NumberText.head {raw whole digits frac : List Char} {v : ℚ}
    (h : NumberText raw v whole digits frac) :
    ∃ c t, raw = c :: t ∧ (c.isDigit = true ∨ c = '.') := by
  cases hw : whole with
  | nil =>
    rcases h.raw with hraw | ⟨hfrac, hraw⟩
    · exact ⟨'.', frac, by rw [hraw, hw]; rfl, .inr rfl⟩
    · exact absurd ⟨hw, hfrac⟩ h.ne_nil
  | cons c t =>
    have hc : c.isDigit = true := h.isWhole.head c (by rw [hw]; rfl)
    rcases h.raw with hraw | ⟨-, hraw⟩
    · exact ⟨c, t ++ '.' :: frac, by rw [hraw, hw]; rfl, .inl hc⟩
    · exact ⟨c, t, by rw [hraw, hw], .inl hc⟩

theorem mem_of_isDigit {c : Char} (h : c.isDigit = true) :
    c ∈ ['0', '1', '2', '3', '4', '5', '6', '7', '8', '9'] := by
  obtain ⟨hlow, hhigh⟩ := digit_range h
  have hlow' : 48 ≤ c.toNat := hlow
  have hhigh' : c.toNat ≤ 57 := hhigh
  rw [← Char.ofNat_toNat c]
  generalize c.toNat = n at hlow' hhigh'
  interval_cases n <;> decide

/-- The first character of a number is no blank, no operator and no sign of a currency. -/
theorem head_plain {c : Char} (h : c.isDigit = true ∨ c = '.') :
    isBlank c = false ∧ opOf c = none ∧ c ≠ '$' ∧ c ≠ ',' ∧ isNumeral c = true := by
  rcases h with h | rfl
  · have hall : ['0', '1', '2', '3', '4', '5', '6', '7', '8', '9'].all (fun c => isBlank c = false ∧
        opOf c = none ∧ c ≠ '$' ∧ c ≠ ',' ∧ isNumeral c = true) = true := by decide
    exact of_decide_eq_true (List.all_eq_true.mp hall c (mem_of_isDigit h))
  · decide

theorem glyph_plain {c : Char} {o : Op} (h : opOf c = some o) :
    isBlank c = false ∧ c ≠ '$' ∧ isNumeral c = false := by
  unfold opOf at h
  split at h
  all_goals first
    | decide
    | cases h

/-- What starts with a digit or a point starts with a number. -/
theorem Lexes.dollar {c : Char} {s : List Char} {ts : List Tok} (hc : c.isDigit = true ∨ c = '.')
    (h : Lexes (c :: s) ts) : Lexes ('$' :: c :: s) ts := by
  obtain ⟨hblank, hop, hdollar, -, -⟩ := head_plain hc
  generalize hs : c :: s = u at h
  cases h with
  | nil => cases hs
  | blank hb h =>
    obtain ⟨rfl, -⟩ := List.cons.inj hs
    rw [hblank] at hb
    cases hb
  | op ho h =>
    obtain ⟨rfl, -⟩ := List.cons.inj hs
    rw [hop] at ho
    cases ho
  | num dollar hraw hend h =>
    cases dollar with
    | true => exact absurd (List.cons.inj hs).1 hdollar
    | false => exact .num true hraw hend h

theorem tokenize_sound : ∀ {i : ℕ} {s : List Char} {ts : List Tok}, s.length ≤ i →
    tokenize i s = .ok ts → Lexes s ts
  | _, [], ts, _, h => by
    rw [tokenize] at h
    obtain rfl := Except.ok.inj h
    exact .nil
  | 0, c :: src, ts, hlen, _ => absurd hlen (by simp)
  | i + 1, c :: src, ts, hlen, h => by
    have hi : src.length ≤ i := Nat.le_of_succ_le_succ hlen
    rw [tokenize] at h
    split_ifs at h with hblank hdollar hhead hnumeral hcomma
    · exact .blank hblank (tokenize_sound hi h)
    · obtain ⟨d, hd, hdigit⟩ := (Option.any_eq_true ..).mp hhead
      obtain ⟨src, rfl⟩ := List.head?_eq_some_iff.mp hd
      rw [hdollar]
      refine (tokenize_sound hi h).dollar ?_
      simpa using hdigit
    · obtain ⟨v, hv, h⟩ := bind_eq_ok.mp h
      obtain ⟨out, hout, h⟩ := bind_eq_ok.mp h
      obtain rfl := Except.ok.inj h
      obtain ⟨v, whole, digits, frac, hraw, rfl⟩ := parseNumberToken_iff.mp hv
      have hbehind := tokenize_sound
        ((List.dropWhile_suffix _).length_le.trans hi) hout
      have heq : c :: src = c :: src.takeWhile isNumeral ++ src.dropWhile isNumeral := by
        rw [List.cons_append, List.takeWhile_append_dropWhile]
      rw [heq]
      refine .num false hraw (fun d hd => ?_) hbehind
      have := List.head?_dropWhile_not isNumeral src
      rw [hd] at this
      simpa using this
    · split at h
      · cases h
      · next op hop =>
        obtain ⟨out, hout, h⟩ := bind_eq_ok.mp h
        obtain rfl := Except.ok.inj h
        exact .op hop (tokenize_sound hi hout)

theorem tokenize_number {raw whole digits frac s : List Char} {v : ℚ} {ts : List Tok} {i : ℕ}
    (hraw : NumberText raw v whole digits frac) (hend : ∀ c ∈ s.head?, isNumeral c = false)
    (hbehind : tokenize i s = .ok ts) :
    tokenize (i + 1) (raw ++ s) = .ok (.num (ofRat v) :: ts) := by
  obtain ⟨c, t, rfl, hc⟩ := hraw.head
  obtain ⟨hblank, -, hdollar, hcomma, hnumeral⟩ := head_plain hc
  have ht : ∀ d ∈ t, isNumeral d = true :=
    fun d hd => hraw.isNumeral d (List.mem_cons_of_mem c hd)
  have htake : (t ++ s).takeWhile isNumeral = t ∧ (t ++ s).dropWhile isNumeral = s := by
    rw [List.takeWhile_append_of_pos ht, List.dropWhile_append_of_pos ht]
    cases s with
    | nil => simp
    | cons d s =>
      have hd : isNumeral d = false := hend d rfl
      simp [hd]
  rw [List.cons_append, tokenize, if_neg (by simp [hblank]), if_neg hdollar, if_pos hnumeral]
  dsimp only
  rw [if_neg hcomma, htake.1, htake.2,
    parseNumberToken_iff.mpr ⟨v, whole, digits, frac, hraw, rfl⟩, ok_bind, hbehind, ok_bind]

theorem tokenize_complete {s : List Char} {ts : List Tok} (h : Lexes s ts) :
    ∀ {i : ℕ}, s.length ≤ i → tokenize i s = .ok ts := by
  induction h with
  | nil => intro i _; cases i <;> rfl
  | blank hc _ ih =>
    intro i hi
    obtain ⟨i, rfl⟩ : ∃ i', i = i' + 1 := ⟨i - 1, by simp only [List.length_cons] at hi; omega⟩
    rw [tokenize, if_pos hc]
    exact ih (Nat.le_of_succ_le_succ hi)
  | op hc _ ih =>
    intro i hi
    obtain ⟨i, rfl⟩ : ∃ i', i = i' + 1 := ⟨i - 1, by simp only [List.length_cons] at hi; omega⟩
    obtain ⟨hblank, hdollar, hnumeral⟩ := glyph_plain hc
    rw [tokenize, if_neg (by simp [hblank]), if_neg hdollar, if_neg (by simp [hnumeral]), hc]
    dsimp only
    rw [ih (Nat.le_of_succ_le_succ hi), ok_bind]
  | num dollar hraw hend _ ih =>
    rename_i raw v whole digits frac s ts _
    intro i hi
    obtain ⟨c, t, ht, hc⟩ := hraw.head
    have hlen : s.length + 1 ≤ (raw ++ s).length := by
      rw [ht]
      simp
    cases dollar with
    | false =>
      have hi' : (raw ++ s).length ≤ i := hi
      obtain ⟨i, rfl⟩ : ∃ i', i = i' + 1 := ⟨i - 1, by omega⟩
      show tokenize (i + 1) (raw ++ s) = _
      exact tokenize_number hraw hend (ih (by omega))
    | true =>
      have hi' : (raw ++ s).length + 1 ≤ i := hi
      obtain ⟨i, rfl⟩ : ∃ i', i = i' + 2 := ⟨i - 2, by omega⟩
      have hnumber := tokenize_number hraw hend (ih (show s.length ≤ i by omega))
      show tokenize (i + 2) ('$' :: (raw ++ s)) = _
      rw [tokenize, if_neg (by decide), if_pos rfl, if_pos, hnumber]
      rw [ht]
      rcases hc with hc | rfl
      · simp [hc]
      · rfl

theorem tokenize_iff {i : ℕ} {s : List Char} {ts : List Tok} (hlen : s.length ≤ i) :
    tokenize i s = .ok ts ↔ Lexes s ts :=
  ⟨tokenize_sound hlen, fun h => tokenize_complete h hlen⟩

end Expression

end MyBooks
