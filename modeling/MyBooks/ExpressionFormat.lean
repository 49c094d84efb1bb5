import MyBooks.DecimalText
import MyBooks.ExpressionGrammar
import Mathlib.Data.Nat.Prime.Basic

/-!
# The calculator's result as text

`format(d)` is the text of the result rounded half away from zero, and `format()` the shortest text
of a result that is a decimal: its places are as few as the powers of 10, 2 and 5 in the denominator
allow.
-/

namespace MyBooks

namespace Expression

/-! ## With a number of places -/

/-- Half up in natural numbers. -/
theorem roundHalfUp_natDiv {n d : ℕ} (hd : 0 < d) :
    ((if d ≤ n % d * 2 then n / d + 1 else n / d : ℕ) : ℤ) = roundHalfUp ((n : ℚ) / d) := by
  have hd' : (0 : ℚ) < d := by exact_mod_cast hd
  have hsplit : (n : ℚ) = d * (n / d : ℕ) + (n % d : ℕ) := by
    exact_mod_cast (Nat.div_add_mod n d).symm
  have hx : (n : ℚ) / d = (n / d : ℕ) + (n % d : ℕ) / d := by
    conv_lhs => rw [hsplit]
    field_simp
  have hfloor : roundHalfUp ((n : ℚ) / d) = ⌊(n : ℚ) / d + 1 / 2⌋ := if_pos (by positivity)
  have hnonneg : (0 : ℚ) ≤ (n % d : ℕ) / d := by positivity
  have hlt : ((n % d : ℕ) : ℚ) / d < 1 := by
    rw [div_lt_one hd']
    exact_mod_cast Nat.mod_lt n hd
  rw [hfloor, eq_comm, Int.floor_eq_iff, hx]
  split_ifs with h
  · have hhalf : (1 : ℚ) / 2 ≤ (n % d : ℕ) / d := by
      have : (d : ℚ) ≤ (n % d : ℕ) * 2 := by exact_mod_cast h
      rw [le_div_iff₀ hd']
      linarith
    rw [Int.cast_natCast, Nat.cast_add, Nat.cast_one]
    constructor <;> linarith
  · have hhalf : ((n % d : ℕ) : ℚ) / d < 1 / 2 := by
      have : ((n % d : ℕ) : ℚ) * 2 < d := by exact_mod_cast not_le.mp h
      rw [div_lt_iff₀ hd']
      linarith
    rw [Int.cast_natCast]
    constructor <;> linarith

/-- The units that a result has at some places. -/
def units (q : ℚ) (p : ℕ) : ℕ := (roundHalfUp (|q| * 10 ^ p)).toNat

theorem units_cast (q : ℚ) (p : ℕ) : (units q p : ℤ) = roundHalfUp (|q| * 10 ^ p) :=
  Int.toNat_of_nonneg (roundHalfUp_nonneg (by positivity))

/-- The decimal that is printed with `p` places; zero has no sign. -/
def rounded (q : ℚ) (p : ℕ) : DecimalText :=
  .fixed (decide (q < 0 ∧ units q p ≠ 0)) (units q p) p

theorem abs_mul_pow (q : ℚ) (p : ℕ) :
    |q| * 10 ^ p = ((q.num.natAbs * 10 ^ p : ℕ) : ℚ) / q.den := by
  conv_lhs => rw [← Rat.num_div_den q]
  rw [abs_div, Nat.abs_cast]
  push_cast
  rw [Nat.cast_natAbs, Int.cast_abs]
  ring

/-- The fraction is rounded in its numerator and denominator. -/
theorem formatFixed_eq (q : ℚ) (p : ℕ) : formatFixed (ofRat q) p = (rounded q p).text := by
  have hunits : (if q.den ≤ q.num.natAbs * 10 ^ p % q.den * 2 then
      q.num.natAbs * 10 ^ p / q.den + 1 else q.num.natAbs * 10 ^ p / q.den) = units q p := by
    have := roundHalfUp_natDiv (n := q.num.natAbs * 10 ^ p) q.den_pos
    rw [← abs_mul_pow, ← units_cast] at this
    exact_mod_cast this
  have hden : (ofRat q).d.toNat = q.den := Int.toNat_natCast q.den
  unfold formatFixed
  dsimp only
  rw [hden, show (ofRat q).n = q.num from rfl, hunits, rounded, DecimalText.text_fixed]
  by_cases hzero : units q p = 0
  · have hsign : decide (q < 0 ∧ units q p ≠ 0) = false := by simp [hzero]
    rw [if_pos hzero, hsign, hzero, if_neg Bool.false_ne_true, List.nil_append]
    rcases Nat.eq_zero_or_pos p with rfl | hp
    · rfl
    · have hpadded : padded (p + 1) 0 = '0' :: List.replicate p '0' := by
        rw [padded, padStart, Nat.toDigits_zero, List.length_singleton, Nat.add_sub_cancel,
          ← List.replicate_succ', List.replicate_succ]
      rw [if_pos hp, if_pos hp, hpadded]
      simp
  · rw [if_neg hzero]
    have hsign : (decide (q < 0 ∧ units q p ≠ 0)) = decide (q.num < 0) := by
      simp [hzero]
    rw [hsign]
    by_cases hneg : q.num < 0
    · rw [if_pos hneg, if_pos (decide_eq_true hneg)]
      rfl
    · rw [if_neg hneg, decide_eq_false hneg, if_neg Bool.false_ne_true]
      rfl

theorem value_rounded (q : ℚ) (p : ℕ) : (rounded q p).value = toPlaces p q := by
  have hcast : ((units q p : ℕ) : ℚ) = roundHalfUp (|q| * 10 ^ p) := by
    exact_mod_cast congrArg (Int.cast (R := ℚ)) (units_cast q p)
  rw [rounded, DecimalText.value_fixed, toPlaces]
  rcases lt_or_ge q 0 with hq | hq
  · have hneg : roundHalfUp (|q| * 10 ^ p) = -roundHalfUp (q * 10 ^ p) := by
      rw [abs_of_neg hq, neg_mul, roundHalfUp_neg]
    by_cases hzero : units q p = 0
    · have : roundHalfUp (q * 10 ^ p) = 0 := by
        have := units_cast q p
        rw [hzero, hneg] at this
        omega
      rw [this, hzero]
      simp
    · rw [if_pos (by simp [hq, hzero]), hcast, hneg]
      push_cast
      ring
  · rw [if_neg (by simp [hq]), hcast, abs_of_nonneg hq, one_mul]

theorem length_frac_rounded (q : ℚ) (p : ℕ) : (rounded q p).frac.length = p :=
  DecimalText.length_frac_fixed

/-! ## The shortest text -/

theorem strip_spec {p : ℕ} (hp : 1 < p) : ∀ (i d : ℕ), 0 < d → d ≤ i →
    d = p ^ (strip p i d).2 * (strip p i d).1 ∧ ¬p ∣ (strip p i d).1
  | 0, d, hpos, hi => absurd hi (by omega)
  | i + 1, d, hpos, hi => by
    rw [strip]
    split_ifs with hmod
    · obtain ⟨d, rfl⟩ := Nat.dvd_of_mod_eq_zero hmod
      have hd : 0 < d := Nat.pos_of_mul_pos_left hpos
      have hless : d < p * d := by nlinarith
      rw [Nat.mul_div_cancel_left d (by omega)]
      obtain ⟨heq, hnot⟩ := strip_spec hp i d hd (by omega)
      refine ⟨?_, hnot⟩
      dsimp only
      conv_lhs => rw [heq]
      rw [pow_succ]
      ring
    · exact ⟨by simp, fun hdvd => hmod (Nat.mod_eq_zero_of_dvd hdvd)⟩

/-- The places that `format()` prints, and what is left of the denominator. -/
def stripped (d : ℕ) : ℕ × ℕ :=
  let (d, tens) := strip 10 d d
  let (d, twos) := strip 2 d d
  let (d, fives) := strip 5 d d
  (d, tens + twos + fives)

theorem stripped_spec {d : ℕ} (hd : 0 < d) : ∃ tens twos fives,
    (stripped d).2 = tens + twos + fives ∧
      d = 10 ^ tens * (2 ^ twos * (5 ^ fives * (stripped d).1)) ∧ (twos = 0 ∨ fives = 0) ∧
        ¬2 ∣ (stripped d).1 ∧ ¬5 ∣ (stripped d).1 := by
  obtain ⟨h10, hn10⟩ := strip_spec (p := 10) (by decide) d d hd le_rfl
  set a := strip 10 d d with ha
  have hposa : 0 < a.1 := Nat.pos_of_ne_zero fun h => hn10 (h ▸ dvd_zero _)
  obtain ⟨h2, hn2⟩ := strip_spec (p := 2) (by decide) a.1 a.1 hposa le_rfl
  set b := strip 2 a.1 a.1 with hb
  have hposb : 0 < b.1 := Nat.pos_of_ne_zero fun h => hn2 (h ▸ dvd_zero _)
  obtain ⟨h5, hn5⟩ := strip_spec (p := 5) (by decide) b.1 b.1 hposb le_rfl
  set c := strip 5 b.1 b.1 with hc
  have hstripped : stripped d = (c.1, a.2 + b.2 + c.2) := rfl
  rw [hstripped]
  refine ⟨a.2, b.2, c.2, rfl, ?_, ?_, ?_, hn5⟩
  · rw [← h5, ← h2, ← h10]
  · by_contra hboth
    rw [not_or] at hboth
    obtain ⟨hb2, hc2⟩ := hboth
    have htwo : 2 ∣ a.1 := h2 ▸ (dvd_pow_self 2 hb2).mul_right _
    have hfive : 5 ∣ a.1 := by
      rw [h2, h5]
      exact ((dvd_pow_self 5 hc2).mul_right _).mul_left _
    exact hn10 (Nat.Coprime.mul_dvd_of_dvd_of_dvd (by decide) htwo hfive)
  · intro hdvd
    rw [h5] at hn2
    exact hn2 (hdvd.mul_left _)

/-- A denominator of twos and fives is stripped to nothing, and divides no smaller power of 10. -/
theorem stripped_least {d : ℕ} (hd : 0 < d) (hprimes : ∀ p, p.Prime → p ∣ d → p = 2 ∨ p = 5) :
    (stripped d).1 = 1 ∧ d ∣ 10 ^ (stripped d).2 ∧ ∀ k, d ∣ 10 ^ k → (stripped d).2 ≤ k := by
  obtain ⟨tens, twos, fives, hplaces, hsplit, hone, hn2, hn5⟩ := stripped_spec hd
  have hrest : (stripped d).1 = 1 := by
    by_contra hne
    obtain ⟨p, hp, hdvd⟩ := Nat.exists_prime_and_dvd hne
    have hpd : p ∣ d := by
      rw [hsplit]
      exact ((hdvd.mul_left _).mul_left _).mul_left _
    rcases hprimes p hp hpd with rfl | rfl
    · exact hn2 hdvd
    · exact hn5 hdvd
  rw [hrest, mul_one] at hsplit
  refine ⟨hrest, ?_, fun k hk => ?_⟩
  · rw [hplaces, hsplit, pow_add, pow_add, mul_assoc]
    exact mul_dvd_mul_left _ (mul_dvd_mul (pow_dvd_pow_of_dvd (by decide) _)
      (pow_dvd_pow_of_dvd (by decide) _))
  · have hten : (10 : ℕ) = 2 * 5 := rfl
    have htwo : tens + twos ≤ k := by
      have : 2 ^ (tens + twos) ∣ 2 ^ k := by
        refine Nat.Coprime.dvd_of_dvd_mul_right (n := 5 ^ k)
          (Nat.Coprime.pow _ _ (by decide)) ?_
        rw [← mul_pow]
        refine (Dvd.intro (5 ^ (tens + fives)) ?_).trans hk
        rw [hsplit, hten, mul_pow, pow_add, pow_add]
        ring
      exact (Nat.pow_dvd_pow_iff_le_right (by decide)).mp this
    have hfive : tens + fives ≤ k := by
      have : 5 ^ (tens + fives) ∣ 5 ^ k := by
        refine Nat.Coprime.dvd_of_dvd_mul_left (m := 2 ^ k)
          (Nat.Coprime.pow _ _ (by decide)) ?_
        rw [← mul_pow]
        refine (Dvd.intro (2 ^ (tens + twos)) ?_).trans hk
        rw [hsplit, hten, mul_pow, pow_add, pow_add]
        ring
      exact (Nat.pow_dvd_pow_iff_le_right (by decide)).mp this
    omega

theorem places_iff {q : ℚ} {p : ℕ} : Places p q ↔ q.den ∣ 10 ^ p := by
  have hden : (q.den : ℚ) ≠ 0 := Nat.cast_ne_zero.mpr q.den_nz
  constructor
  · rintro ⟨n, hn⟩
    have hmul : q.num * 10 ^ p = n * q.den := by
      have : (q.num : ℚ) / q.den * 10 ^ p = n := by rwa [Rat.num_div_den]
      rw [div_mul_eq_mul_div, div_eq_iff hden] at this
      exact_mod_cast this
    have hdvd : (q.den : ℤ) ∣ q.num * 10 ^ p := ⟨n, by rw [hmul, mul_comm]⟩
    have hcoprime : Int.gcd q.den q.num = 1 := by
      rw [Int.gcd_comm]
      exact q.reduced
    exact_mod_cast Int.dvd_of_dvd_mul_right_of_gcd_one hdvd hcoprime
  · rintro ⟨m, hm⟩
    refine ⟨q.num * m, ?_⟩
    have hpow : (10 : ℚ) ^ p = q.den * m := by exact_mod_cast hm
    rw [hpow, ← mul_assoc, Rat.mul_den_eq_num]
    push_cast
    rfl

theorem units_of_places {q : ℚ} {p : ℕ} (h : Places p q) : (units q p : ℚ) = |q| * 10 ^ p := by
  obtain ⟨n, hn⟩ := h
  have habs : |q| * 10 ^ p = (|n| : ℤ) := by
    rw [Int.cast_abs, ← hn, abs_mul, abs_of_pos (by positivity : (0 : ℚ) < 10 ^ p)]
  have := congrArg (Int.cast (R := ℚ)) (units_cast q p)
  rw [habs, roundHalfUp_intCast] at this
  rw [habs]
  exact_mod_cast this

/-- Without a number of places the text is the shortest that says a decimal. -/
theorem format_shortest {q : ℚ} (hprimes : ∀ p, p.Prime → p ∣ q.den → p = 2 ∨ p = 5) :
    ∃ x : DecimalText, x.text = format (ofRat q) none ∧ x.value = q ∧
      ∀ y : DecimalText, y.value = q → x.text.length ≤ y.text.length := by
  obtain ⟨hone, hdvd, hleast⟩ := stripped_least q.den_pos hprimes
  set p := (stripped q.den).2 with hp
  have hplaces : Places p q := places_iff.mpr hdvd
  have hvalue : (rounded q p).value = q := by
    rw [value_rounded, toPlaces_of_places hplaces]
  have hlast : p = 0 ∨ ¬10 ∣ units q p := by
    by_contra hboth
    rw [not_or, not_not] at hboth
    obtain ⟨hpos, u, hu⟩ := hboth
    obtain ⟨k, hk⟩ : ∃ k, p = k + 1 := ⟨p - 1, by omega⟩
    have hfewer : Places k q := by
      have habs : |q| * 10 ^ k = u := by
        have := units_of_places hplaces
        rw [hu, hk, pow_succ] at this
        push_cast at this
        linarith
      rcases abs_cases q with ⟨h, -⟩ | ⟨h, -⟩
      · exact ⟨u, by rw [← h, habs]; rfl⟩
      · exact ⟨-u, by rw [← neg_neg q, ← h, neg_mul, habs]; push_cast; rfl⟩
    have := hleast k (places_iff.mp hfewer)
    omega
  refine ⟨rounded q p, ?_, hvalue, fun y hy => ?_⟩
  · have hformat : format (ofRat q) none = if '.' ∈ formatFixed (ofRat q) p then
        trimZeros (formatFixed (ofRat q) p) else formatFixed (ofRat q) p := by
      have hden : (ofRat q).d.toNat = q.den := Int.toNat_natCast q.den
      have hif : (if (stripped q.den).1 = 1 then (stripped q.den).2 else 10) = p := if_pos hone
      rw [← hif, ← hden]
      rfl
    rw [hformat, formatFixed_eq]
    split_ifs with hdot
    · have hne : p ≠ 0 := fun h0 => by
        rw [h0] at hdot
        exact DecimalText.dot_notMem_text_fixed hdot
      rw [trimZeros, if_neg]
      intro hzero
      rw [rounded, DecimalText.getLast?_text_fixed (Nat.pos_of_ne_zero hne), Option.some.injEq,
        Nat.digitChar_eq_zero] at hzero
      exact (hlast.resolve_left hne) (Nat.dvd_of_mod_eq_zero hzero)
    · rfl
  · refine DecimalText.length_fixed_le hlast (fun hneg => (of_decide_eq_true hneg).2) ?_
    rw [hy]
    exact hvalue.symm

/-- With a number of places the text says the result rounded to them. -/
theorem format_places (q : ℚ) {d : ℤ} (h0 : 0 ≤ d) (h10 : d ≤ 10) :
    ∃ x : DecimalText, x.text = format (ofRat q) (some d) ∧ x.value = toPlaces d.toNat q ∧
      x.frac.length = d.toNat := by
  refine ⟨rounded q d.toNat, ?_, value_rounded q _, length_frac_rounded q _⟩
  rw [format, min_eq_right h10, max_eq_right h0, formatFixed_eq]

/-! ## The calculator -/

/-- The calculator accepts the short texts of little nested trees whose value fits, and no other
text, it returns the value, and its formats say the value. -/
theorem evaluateExpression_exact :
    (∀ input r, evaluateExpression input = .ok r ↔
      ∃ e q, Evaluates input e q ∧ Fits q ∧ r = ofRat q) ∧
    (∀ (q : ℚ) (d : ℤ), 0 ≤ d → d ≤ 10 → ∃ x : DecimalText, x.text = format (ofRat q) (some d) ∧
      x.value = toPlaces d.toNat q ∧ x.frac.length = d.toNat) ∧
    ∀ q : ℚ, (∀ p, p.Prime → p ∣ q.den → p = 2 ∨ p = 5) → ∃ x : DecimalText,
      x.text = format (ofRat q) none ∧ x.value = q ∧
        ∀ y : DecimalText, y.value = q → x.text.length ≤ y.text.length :=
  ⟨fun _ _ => evaluateExpression_iff, fun q _ h0 h10 => format_places q h0 h10,
    fun _ hprimes => format_shortest hprimes⟩

/-- `200+-15%` -/
def lessPercent : Syn .expr :=
  .sum (.term (.unary (.postfixed (.primary (.number 200))))) false
    (.unary (.signed true (.postfixed (.percent (.primary (.number 15))))))

theorem evaluateExpression_exact_percent :
    evaluateExpression "200+-15%".toList = .ok (ofRat 170) :=
  (evaluateExpression_exact.1 _ _).mpr ⟨lessPercent, 170,
    ⟨by decide, (tokenize_iff le_rfl).mp (by decide +kernel), by decide, by decide +kernel⟩,
    ⟨170, by decide +kernel, by decide +kernel⟩, rfl⟩

/-- A product within the grammar is too large, and a number without a digit before its point is
accepted. -/
theorem evaluateExpression_limits :
    evaluateExpression "999999999*999999999".toList = .error "Number is too large" ∧
      (∃ e, Evaluates "999999999*999999999".toList e (999999999 * 999999999)) ∧
      evaluateExpression ".5".toList = .ok ⟨1, 2⟩ := by
  refine ⟨by decide +kernel, ⟨.term (.product (.unary (.postfixed (.primary (.number 999999999))))
    false (.postfixed (.primary (.number 999999999)))), by decide, ?_, by decide, ?_⟩,
    by decide +kernel⟩
  · exact (tokenize_iff le_rfl).mp (by decide +kernel)
  · decide +kernel

end Expression

end MyBooks
