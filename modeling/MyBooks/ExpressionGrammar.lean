import MyBooks.ExpressionTokens

/-!
# What the calculator accepts

The grammar of the calculator as trees, with the tokens, the value and the nesting of a tree, and
the texts of a sequence of tokens. The parser finds a tree's value behind its tokens
(`Syn.reads`), and what it finds is the value of some tree (`parse_sound`). So it accepts just the
trees that are nested little enough and divide by nothing that is zero (`parse_iff`), and with the
limits of its own `evaluateExpression` accepts just their texts (`evaluateExpression_iff`).
-/

namespace MyBooks

namespace Expression

/-! ## The grammar -/

inductive Level
  | primary
  | postfixed
  | unary
  | term
  | expr

inductive Syn : Level → Type
  | number (v : ℚ) : Syn .primary
  | group (e : Syn .expr) : Syn .primary
  | primary (p : Syn .primary) : Syn .postfixed
  | percent (p : Syn .postfixed) : Syn .postfixed
  | postfixed (p : Syn .postfixed) : Syn .unary
  | signed (negative : Bool) (u : Syn .unary) : Syn .unary
  | unary (u : Syn .unary) : Syn .term
  | product (t : Syn .term) (divided : Bool) (u : Syn .unary) : Syn .term
  | term (t : Syn .term) : Syn .expr
  | sum (e : Syn .expr) (negative : Bool) (t : Syn .term) : Syn .expr

namespace Syn

def sign (negative : Bool) : Tok := .op (if negative then .minus else .plus)

def tokens : {l : Level} → Syn l → List Tok
  | _, .number v => [.num (ofRat v)]
  | _, .group e => .op .open :: e.tokens ++ [.op .close]
  | _, .primary p => p.tokens
  | _, .percent p => p.tokens ++ [.op .percent]
  | _, .postfixed p => p.tokens
  | _, .signed negative u => sign negative :: u.tokens
  | _, .unary u => u.tokens
  | _, .product t divided u => t.tokens ++ .op (if divided then .divide else .times) :: u.tokens
  | _, .term t => t.tokens
  | _, .sum e negative t => e.tokens ++ sign negative :: t.tokens

/-- A factor with a percent sign behind it, signs before it or none. -/
def isPercent : {l : Level} → Syn l → Bool
  | _, .percent _ => true
  | _, .postfixed p => p.isPercent
  | _, .signed _ u => u.isPercent
  | _, .unary u => u.isPercent
  | _, _ => false

/-- A percent sign divides by 100, and behind `+` or `-` a percentage alone as a term is one of all
that stands on the left. -/
def value : {l : Level} → Syn l → Option ℚ
  | _, .number v => some v
  | _, .group e => e.value
  | _, .primary p => p.value
  | _, .percent p => p.value.map (· / 100)
  | _, .postfixed p => p.value
  | _, .signed negative u => u.value.map fun v => if negative then -v else v
  | _, .unary u => u.value
  | _, .product t divided u => do
    let a ← t.value
    let b ← u.value
    if divided then if b = 0 then none else some (a / b) else some (a * b)
  | _, .term t => t.value
  | _, .sum e negative t => do
    let a ← e.value
    let b ← t.value
    let b := if t.isPercent then a * b else b
    some (if negative then a - b else a + b)

/-- How many signs and parentheses stand around a number at most. -/
def depth : {l : Level} → Syn l → ℕ
  | _, .number _ => 0
  | _, .group e => e.depth + 1
  | _, .primary p => p.depth
  | _, .percent p => p.depth
  | _, .postfixed p => p.depth
  | _, .signed _ u => u.depth + 1
  | _, .unary u => u.depth
  | _, .product t _ u => max t.depth u.depth
  | _, .term t => t.depth
  | _, .sum e _ t => max e.depth t.depth

end Syn

/-! ## Arithmetic of fractions -/

section Arithmetic

variable {q q' : ℚ}

theorem ofRat_num (q : ℚ) : (ofRat q).n = q.num := rfl
theorem ofRat_den (q : ℚ) : (ofRat q).d = q.den := rfl

theorem num_div_den (q : ℚ) : ((ofRat q).n : ℚ) / (ofRat q).d = q := by
  rw [ofRat_num, ofRat_den, Int.cast_natCast]
  exact Rat.num_div_den q

theorem den_ne_zero (q : ℚ) : (ofRat q).d ≠ 0 := Int.natCast_ne_zero.mpr q.den_nz

theorem den_cast_ne_zero (q : ℚ) : ((ofRat q).d : ℚ) ≠ 0 := Int.cast_ne_zero.mpr (den_ne_zero q)

theorem times_ofRat (q q' : ℚ) : times (ofRat q) (ofRat q') = ofRat (q * q') := by
  rw [times, norm_eq (mul_ne_zero (den_ne_zero q) (den_ne_zero q'))]
  push_cast
  rw [← div_mul_div_comm, num_div_den, num_div_den]

theorem plus_ofRat (q q' : ℚ) : plus (ofRat q) (ofRat q') = ofRat (q + q') := by
  rw [plus, norm_eq (mul_ne_zero (den_ne_zero q) (den_ne_zero q'))]
  push_cast
  rw [mul_comm ((ofRat q').n : ℚ), ← div_add_div _ _ (den_cast_ne_zero q) (den_cast_ne_zero q'),
    num_div_den, num_div_den]

theorem minus_ofRat (q q' : ℚ) : minus (ofRat q) (ofRat q') = ofRat (q - q') := by
  rw [minus, norm_eq (mul_ne_zero (den_ne_zero q) (den_ne_zero q'))]
  push_cast
  rw [mul_comm ((ofRat q').n : ℚ), ← div_sub_div _ _ (den_cast_ne_zero q) (den_cast_ne_zero q'),
    num_div_den, num_div_den]

theorem quotient_ofRat (q : ℚ) (h : q' ≠ 0) :
    norm ((ofRat q).n * (ofRat q').d) ((ofRat q).d * (ofRat q').n) = ofRat (q / q') := by
  have hn : (ofRat q').n ≠ 0 := Rat.num_ne_zero.mpr h
  rw [norm_eq (mul_ne_zero (den_ne_zero q) hn)]
  push_cast
  rw [← div_mul_div_comm, num_div_den, ← inv_div, num_div_den, div_eq_mul_inv]

theorem percent_ofRat (q : ℚ) : norm (ofRat q).n ((ofRat q).d * 100) = ofRat (q / 100) := by
  rw [norm_eq (mul_ne_zero (den_ne_zero q) (by decide))]
  push_cast
  rw [← div_div, num_div_den]

theorem neg_ofRat (q : ℚ) : (⟨-(ofRat q).n, (ofRat q).d⟩ : Rational) = ofRat (-q) := by
  rw [ofRat, ofRat, Rat.num_neg_eq_neg_num, Rat.den_neg_eq_den]

theorem ofRat_n_eq_zero : (ofRat q).n = 0 ↔ q = 0 := Rat.num_eq_zero

end Arithmetic

/-! ## The parser reads a tree -/

def groupAt : ℕ → Parse Rational
  | 0 => tooDeep
  | k + 1 => expr (unary k)

def signedAt : ℕ → Parse Term
  | 0 => tooDeep
  | k + 1 => unary k

theorem unary_eq : ∀ k, unary k = unaryOf (signedAt k) (groupAt k)
  | 0 => rfl
  | _ + 1 => rfl

/-- The tokens do not go on with one of the operators. -/
def Stops (ops : List Op) (toks : List Tok) : Prop := ∀ o ∈ ops, toks.head? ≠ some (.op o)

theorem Stops.of_cons {ops : List Op} {o : Op} (h : o ∉ ops) (toks : List Tok) :
    Stops ops (.op o :: toks) := fun o' ho' heq => by
  obtain rfl := Tok.op.inj (Option.some.inj heq)
  exact h ho'

theorem stops_pair {o o' : Op} {toks : List Tok} (h : ¬∃ behind, toks = .op o :: behind)
    (h' : ¬∃ behind, toks = .op o' :: behind) : Stops [o, o'] toks := by
  intro p hp hhead
  obtain ⟨behind, rfl⟩ := List.head?_eq_some_iff.mp hhead
  rcases List.mem_cons.mp hp with rfl | hp
  · exact h ⟨behind, rfl⟩
  · obtain rfl := List.mem_singleton.mp hp
    exact h' ⟨behind, rfl⟩

section Stopped

variable {toks : List Tok}

theorem percents_stop (h : Stops [.percent] toks) (v : Rational) (pct : Bool) :
    percents toks v pct = (⟨v, pct⟩, toks) := by
  unfold percents
  split
  · exact absurd rfl (h .percent (by simp))
  · rfl

theorem factors_stop {p : Parse Term} {i : ℕ} {left : Rational} {saw : Bool}
    (h : Stops [.times, .divide] toks) : factors p i left saw toks = .ok ((left, saw), toks) := by
  unfold factors
  split
  · exact absurd rfl (h .times (by simp))
  · exact absurd rfl (h .divide (by simp))
  · rfl

theorem terms_stop {p : Parse Term} {i : ℕ} {left : Rational}
    (h : Stops [.plus, .minus] toks) : terms p i left toks = .ok (left, toks) := by
  unfold terms
  split
  · exact absurd rfl (h .plus (by simp))
  · exact absurd rfl (h .minus (by simp))
  · rfl

theorem unaryOf_stop {signed : Parse Term} {group : Parse Rational}
    (h : Stops [.plus, .minus] toks) : unaryOf signed group toks = postfixed group toks := by
  unfold unaryOf
  split
  · exact absurd rfl (h .minus (by simp))
  · exact absurd rfl (h .plus (by simp))
  · rfl

end Stopped

namespace Syn

/-- What the parser does at the tokens of a tree. -/
def Reads : (l : Level) → Syn l → Prop
  | .primary, p => ∀ k toks v, p.depth ≤ k → p.value = some v →
    Expression.primary (groupAt k) (p.tokens ++ toks) = .ok (ofRat v, toks)
  | .postfixed, p => ∀ k toks v, p.depth ≤ k → p.value = some v →
    Expression.postfixed (groupAt k) (p.tokens ++ toks) =
      .ok (percents toks (ofRat v) p.isPercent)
  | .unary, u => ∀ k toks v, Stops [.percent] toks → u.depth ≤ k → u.value = some v →
    Expression.unary k (u.tokens ++ toks) = .ok (⟨ofRat v, u.isPercent⟩, toks)
  | .term, t => ∀ k toks v, Stops [.percent] toks → t.depth ≤ k → t.value = some v →
    ∃ first saw i, toks.length ≤ i ∧ (first && !saw) = t.isPercent ∧
      Expression.term (Expression.unary k) (t.tokens ++ toks) = (do
        let ((left, saw), toks) ← factors (Expression.unary k) i (ofRat v) saw toks
        .ok (⟨left, first && !saw⟩, toks))
  | .expr, e => ∀ k toks v, Stops [.percent, .times, .divide] toks → e.depth ≤ k →
    e.value = some v → ∃ i, toks.length ≤ i ∧
      Expression.expr (Expression.unary k) (e.tokens ++ toks) =
        terms (Expression.unary k) i (ofRat v) toks

theorem starts : ∀ {l : Level} (t : Syn l) (toks : List Tok), l = .primary ∨ l = .postfixed →
    Stops [.plus, .minus] (t.tokens ++ toks)
  | _, .number _, _, _ => fun o _ h => by cases h
  | _, .group _, _, _ => Stops.of_cons (by decide) _
  | _, .primary p, toks, _ => starts p toks (.inl rfl)
  | _, .percent p, toks, _ => by
    rw [tokens, List.append_assoc]
    exact starts p _ (.inr rfl)
  | _, .postfixed _, _, h => by simp at h
  | _, .signed _ _, _, h => by simp at h
  | _, .unary _, _, h => by simp at h
  | _, .product _ _ _, _, h => by simp at h
  | _, .term _, _, h => by simp at h
  | _, .sum _ _ _, _, h => by simp at h

/-- A term is read where no factor follows. -/
theorem reads_term {t : Syn .term} (h : Reads .term t) {k : ℕ} {toks : List Tok} {v : ℚ}
    (hstops : Stops [.percent, .times, .divide] toks) (hdepth : t.depth ≤ k)
    (hvalue : t.value = some v) :
    Expression.term (Expression.unary k) (t.tokens ++ toks) =
      .ok (⟨ofRat v, t.isPercent⟩, toks) := by
  obtain ⟨first, saw, i, -, hpct, heq⟩ := h k toks v
    (fun o ho => hstops o (List.mem_cons.mpr (.inl (List.mem_singleton.mp ho)))) hdepth hvalue
  rw [heq, factors_stop fun o ho => hstops o (List.mem_cons_of_mem _ ho), ok_bind]
  dsimp only
  rw [hpct]

theorem reads : ∀ {l : Level} (t : Syn l), Reads l t := by
  intro l t
  induction t with
  | number v =>
    intro k toks w _ hvalue
    obtain rfl := Option.some.inj hvalue
    rfl
  | group e ih =>
    intro k toks v hdepth hvalue
    obtain ⟨k, rfl⟩ : ∃ k', k = k' + 1 := ⟨k - 1, by simp only [depth] at hdepth; omega⟩
    obtain ⟨i, -, heq⟩ := ih k (.op .close :: toks) v (Stops.of_cons (by decide) _)
      (by simpa [depth] using hdepth) hvalue
    rw [terms_stop (Stops.of_cons (by decide) _)] at heq
    simp only [tokens, List.cons_append, List.append_assoc, List.nil_append, Expression.primary,
      groupAt, heq, ok_bind]
  | primary p ih =>
    intro k toks v hdepth hvalue
    simp only [tokens, Expression.postfixed, ih k toks v hdepth hvalue, ok_bind]
    rfl
  | percent p ih =>
    intro k toks v hdepth hvalue
    obtain ⟨w, hw, rfl⟩ := Option.map_eq_some_iff.mp hvalue
    rw [tokens, List.append_assoc, ih k _ w hdepth hw, List.singleton_append, percents,
      percent_ofRat]
    rfl
  | postfixed p ih =>
    intro k toks v hstops hdepth hvalue
    rw [unary_eq, tokens, unaryOf_stop (starts p toks (.inr rfl)), ih k toks v hdepth hvalue,
      percents_stop hstops]
    rfl
  | signed negative u ih =>
    intro k toks v hstops hdepth hvalue
    obtain ⟨w, hw, rfl⟩ := Option.map_eq_some_iff.mp hvalue
    obtain ⟨k, rfl⟩ : ∃ k', k = k' + 1 := ⟨k - 1, by simp only [depth] at hdepth; omega⟩
    have hu := ih k toks w hstops (by simpa [depth] using hdepth) hw
    cases negative with
    | true =>
      rw [unary_eq, tokens, List.cons_append, sign, if_pos rfl, unaryOf, signedAt, hu, ok_bind]
      dsimp only
      rw [neg_ofRat]
      rfl
    | false =>
      rw [unary_eq, tokens, List.cons_append, sign, if_neg Bool.false_ne_true, unaryOf, signedAt,
        hu]
      rfl
  | unary u ih =>
    intro k toks v hstops hdepth hvalue
    refine ⟨u.isPercent, false, toks.length, le_rfl, by simp [isPercent], ?_⟩
    rw [Expression.term, tokens, ih k toks v hstops hdepth hvalue, ok_bind]
  | product t divided u iht ihu =>
    intro k toks v hstops hdepth hvalue
    obtain ⟨a, ha, hvalue⟩ := Option.bind_eq_some_iff.mp hvalue
    obtain ⟨b, hb, hvalue⟩ := Option.bind_eq_some_iff.mp hvalue
    rw [depth, max_le_iff] at hdepth
    obtain ⟨first, saw, i, hi, -, heq⟩ := iht k
      (.op (if divided then .divide else .times) :: (u.tokens ++ toks)) a
      (Stops.of_cons (by cases divided <;> decide) _) hdepth.1 ha
    obtain ⟨i, rfl⟩ : ∃ i', i = i' + 1 := ⟨i - 1, by simp only [List.length_cons] at hi; omega⟩
    have hu := ihu k toks b hstops hdepth.2 hb
    refine ⟨first, true, i, ?_, by simp [isPercent], ?_⟩
    · simp only [List.length_cons, List.length_append] at hi
      omega
    · rw [tokens, List.append_assoc, List.cons_append, heq]
      cases divided with
      | true =>
        rw [if_pos rfl] at hvalue
        split_ifs at hvalue with hzero
        obtain rfl := Option.some.inj hvalue
        rw [if_pos rfl, factors, hu, ok_bind]
        dsimp only
        rw [if_neg (mt ofRat_n_eq_zero.mp hzero), quotient_ofRat a hzero]
      | false =>
        rw [if_neg Bool.false_ne_true] at hvalue
        obtain rfl := Option.some.inj hvalue
        rw [if_neg Bool.false_ne_true, factors, hu, ok_bind]
        dsimp only
        rw [times_ofRat]
  | term t ih =>
    intro k toks v hstops hdepth hvalue
    refine ⟨toks.length, le_rfl, ?_⟩
    rw [Expression.expr, tokens, reads_term ih hstops hdepth hvalue, ok_bind]
  | sum e negative t ihe iht =>
    intro k toks v hstops hdepth hvalue
    obtain ⟨a, ha, hvalue⟩ := Option.bind_eq_some_iff.mp hvalue
    obtain ⟨b, hb, hvalue⟩ := Option.bind_eq_some_iff.mp hvalue
    rw [depth, max_le_iff] at hdepth
    obtain ⟨i, hi, heq⟩ := ihe k (sign negative :: (t.tokens ++ toks)) a
      (Stops.of_cons (by cases negative <;> decide) _) hdepth.1 ha
    obtain ⟨i, rfl⟩ : ∃ i', i = i' + 1 := ⟨i - 1, by simp only [List.length_cons] at hi; omega⟩
    have ht := reads_term iht hstops hdepth.2 hb
    have hright : rightOf (ofRat a) ⟨ofRat b, t.isPercent⟩ =
        ofRat (if t.isPercent then a * b else b) := by
      unfold rightOf
      split_ifs
      · exact times_ofRat a b
      · rfl
    refine ⟨i, ?_, ?_⟩
    · simp only [List.length_cons, List.length_append] at hi
      omega
    · rw [tokens, List.append_assoc, List.cons_append, heq]
      obtain rfl := Option.some.inj hvalue
      cases negative with
      | true =>
        rw [sign, if_pos rfl, terms, ht, ok_bind]
        dsimp only
        rw [hright, minus_ofRat]
        rfl
      | false =>
        rw [sign, if_neg Bool.false_ne_true, terms, ht, ok_bind]
        dsimp only
        rw [hright, plus_ofRat]
        rfl

end Syn

/-- The parser accepts every tree that is nested little enough and divides by nothing zero. -/
theorem parse_complete {e : Syn .expr} {v : ℚ} (hdepth : e.depth ≤ MAX_DEPTH)
    (hvalue : e.value = some v) : parse e.tokens = .ok (ofRat v) := by
  obtain ⟨i, -, heq⟩ := e.reads MAX_DEPTH [] v (fun o _ h => by cases h) hdepth hvalue
  rw [terms_stop (fun o _ h => by cases h), List.append_nil] at heq
  have hne : e.tokens ≠ [] := fun hnil => by
    rw [hnil] at heq
    cases heq
  rw [parse, if_neg hne, heq, ok_bind]
  rfl

/-! ## What the parser finds is a tree's value -/

/-- The numbers are in lowest terms. -/
def Lowest (toks : List Tok) : Prop := ∀ v, .num v ∈ toks → ∃ q, v = ofRat q

theorem Lowest.right {toks rest : List Tok} (h : Lowest toks) (used : List Tok)
    (heq : toks = used ++ rest) : Lowest rest :=
  fun v hv => h v (heq ▸ List.mem_append_right used hv)

/-- A tree with the tokens up to `rest`, of the nesting `k` at most. -/
structure Found {l : Level} (t : Syn l) (k : ℕ) (toks rest : List Tok) (v : Rational) : Prop where
  depth : t.depth ≤ k
  value : ∃ q, t.value = some q ∧ v = ofRat q
  tokens : toks = t.tokens ++ rest

def UnarySound (k : ℕ) (p : Parse Term) : Prop := ∀ toks t rest, Lowest toks →
  p toks = .ok (t, rest) → ∃ u : Syn .unary, Found u k toks rest t.v ∧ t.pct = u.isPercent

def ExprSound (k : ℕ) (p : Parse Rational) : Prop := ∀ toks v rest, Lowest toks →
  p toks = .ok (v, rest) → ∃ e : Syn .expr, Found e k toks rest v

/-- What is entered with the nesting `k` left. -/
def Entered {α : Type} (Sound : ℕ → Parse α → Prop) (k : ℕ) (p : Parse α) : Prop :=
  p = tooDeep ∨ ∃ k', k = k' + 1 ∧ Sound k' p

theorem primary_sound {k : ℕ} {group : Parse Rational} (hgroup : Entered ExprSound k group)
    {toks rest : List Tok} {v : Rational} (hlowest : Lowest toks)
    (h : primary group toks = .ok (v, rest)) :
    ∃ p : Syn .primary, Found p k toks rest v := by
  unfold primary at h
  split at h
  · cases h
  · next v' toks =>
    obtain ⟨rfl, rfl⟩ := Prod.mk.inj (Except.ok.inj h)
    obtain ⟨q, rfl⟩ := hlowest v' List.mem_cons_self
    exact ⟨.number q, Nat.zero_le k, ⟨q, rfl, rfl⟩, rfl⟩
  · next toks =>
    obtain ⟨⟨v', toks'⟩, hv', h⟩ := bind_eq_ok.mp h
    dsimp only at h
    split at h
    · next behind =>
      obtain ⟨rfl, rfl⟩ := Prod.mk.inj (Except.ok.inj h)
      rcases hgroup with rfl | ⟨k', rfl, hsound⟩
      · cases hv'
      obtain ⟨e, hdepth, hvalue, htokens⟩ := hsound _ _ _ (hlowest.right [.op .open] rfl) hv'
      refine ⟨.group e, Nat.succ_le_succ hdepth, hvalue, ?_⟩
      rw [htokens, Syn.tokens, List.cons_append, List.cons_append, List.append_assoc]
      rfl
    · cases h
  · cases h

theorem percents_sound : ∀ {toks rest : List Tok} {v : Rational} {pct : Bool} {t : Term},
    percents toks v pct = (t, rest) → ∀ {p : Syn .postfixed} {q : ℚ}, p.value = some q →
      v = ofRat q → p.isPercent = pct → ∃ p' : Syn .postfixed, p'.depth = p.depth ∧
        (∃ q', p'.value = some q' ∧ t.v = ofRat q') ∧ t.pct = p'.isPercent ∧
          p.tokens ++ toks = p'.tokens ++ rest := by
  intro toks rest v pct t h
  fun_induction percents toks v pct with
  | case1 v pct toks ih =>
    rintro p q hvalue rfl hpct
    have hvalue' : (Syn.percent p).value = some (q / 100) := by
      rw [Syn.value, hvalue]
      rfl
    obtain ⟨p', hdepth, hfound, hpct', htokens⟩ := ih h hvalue' (percent_ofRat q) rfl
    refine ⟨p', hdepth, hfound, hpct', ?_⟩
    rw [← htokens, Syn.tokens, List.append_assoc]
    rfl
  | case2 toks v pct _ =>
    rintro p q hvalue rfl hpct
    obtain ⟨rfl, rfl⟩ := Prod.mk.inj h
    exact ⟨p, rfl, ⟨q, hvalue, rfl⟩, hpct.symm, rfl⟩

theorem postfixed_sound {k : ℕ} {group : Parse Rational} (hgroup : Entered ExprSound k group)
    {toks rest : List Tok} {t : Term} (hlowest : Lowest toks)
    (h : postfixed group toks = .ok (t, rest)) :
    ∃ p : Syn .postfixed, Found p k toks rest t.v ∧ t.pct = p.isPercent := by
  obtain ⟨⟨v, toks'⟩, hv, hloop⟩ := bind_eq_ok.mp h
  obtain ⟨p, hdepth, ⟨q, hq, rfl⟩, rfl⟩ := primary_sound hgroup hlowest hv
  obtain ⟨p', hdepth', hfound, hpct, htokens⟩ :=
    percents_sound (p := .primary p) (Except.ok.inj hloop) hq rfl rfl
  exact ⟨p', ⟨hdepth'.trans_le hdepth, hfound, htokens⟩, hpct⟩

theorem unaryOf_sound {k : ℕ} {signed : Parse Term} {group : Parse Rational}
    (hsigned : Entered UnarySound k signed) (hgroup : Entered ExprSound k group) :
    UnarySound k (unaryOf signed group) := by
  intro toks t rest hlowest h
  unfold unaryOf at h
  split at h
  · next toks =>
    obtain ⟨⟨t', toks'⟩, ht', h⟩ := bind_eq_ok.mp h
    obtain ⟨rfl, rfl⟩ := Prod.mk.inj (Except.ok.inj h)
    rcases hsigned with rfl | ⟨k', rfl, hsound⟩
    · cases ht'
    obtain ⟨u, ⟨hdepth, ⟨q, hq, hv⟩, htokens⟩, hpct⟩ :=
      hsound _ _ _ (hlowest.right [.op .minus] rfl) ht'
    refine ⟨.signed true u, ⟨Nat.succ_le_succ hdepth, ⟨-q, ?_, ?_⟩, ?_⟩, hpct⟩
    · rw [Syn.value, hq]
      rfl
    · rw [hv]
      exact neg_ofRat q
    · rw [htokens]
      rfl
  · next toks =>
    rcases hsigned with rfl | ⟨k', rfl, hsound⟩
    · cases h
    obtain ⟨u, ⟨hdepth, ⟨q, hq, hv⟩, htokens⟩, hpct⟩ :=
      hsound _ _ _ (hlowest.right [.op .plus] rfl) h
    refine ⟨.signed false u, ⟨Nat.succ_le_succ hdepth, ⟨q, ?_, hv⟩, ?_⟩, hpct⟩
    · rw [Syn.value, hq]
      rfl
    · rw [htokens]
      rfl
  · obtain ⟨p, ⟨hdepth, hvalue, htokens⟩, hpct⟩ := postfixed_sound hgroup hlowest h
    exact ⟨.postfixed p, ⟨hdepth, hvalue, htokens⟩, hpct⟩

/-- What the loop of `term` adds to a term. -/
theorem factors_sound {k : ℕ} {p : Parse Term} (hp : UnarySound k p) (first : Bool) : ∀ (i : ℕ)
    (q : ℚ) (saw : Bool) (toks : List Tok) (t : Syn .term), Lowest toks → t.depth ≤ k →
      t.value = some q → (first && !saw) = t.isPercent → ∀ {left : Rational} {saw' : Bool}
        {rest : List Tok}, factors p i (ofRat q) saw toks = .ok ((left, saw'), rest) →
          ∃ t' : Syn .term, Found t' k (t.tokens ++ toks) rest left ∧
            (first && !saw') = t'.isPercent := by
  intro i
  induction i with
  | zero =>
    intro q saw toks t _ hdepth hvalue hpct left saw' rest h
    have hstay : factors p 0 (ofRat q) saw toks = .ok ((ofRat q, saw), toks) := by
      unfold factors
      rfl
    rw [hstay] at h
    obtain ⟨hl, rfl⟩ := Prod.mk.inj (Except.ok.inj h)
    obtain ⟨rfl, rfl⟩ := Prod.mk.inj hl
    exact ⟨t, ⟨hdepth, ⟨q, hvalue, rfl⟩, rfl⟩, hpct⟩
  | succ i ih =>
    intro q saw toks t hlowest hdepth hvalue hpct left saw' rest h
    by_cases htimes : ∃ behind, toks = .op .times :: behind
    · obtain ⟨behind, rfl⟩ := htimes
      rw [factors] at h
      obtain ⟨⟨right, toks'⟩, hright, h⟩ := bind_eq_ok.mp h
      have hbehind := hlowest.right [.op .times] rfl
      obtain ⟨u, ⟨hudepth, ⟨b, hb, hv⟩, htoks⟩, -⟩ := hp _ _ _ hbehind hright
      dsimp only at h
      rw [hv, times_ofRat] at h
      obtain ⟨t', ⟨hdepth', hfound, htokens⟩, hpct'⟩ := ih (q * b) true toks' (.product t false u)
        (hbehind.right _ htoks) (max_le hdepth hudepth) (by rw [Syn.value, hvalue, hb]; rfl)
        (by simp [Syn.isPercent]) h
      refine ⟨t', ⟨hdepth', hfound, ?_⟩, hpct'⟩
      rw [← htokens, htoks, Syn.tokens]
      simp
    by_cases hdivide : ∃ behind, toks = .op .divide :: behind
    · obtain ⟨behind, rfl⟩ := hdivide
      rw [factors] at h
      obtain ⟨⟨right, toks'⟩, hright, h⟩ := bind_eq_ok.mp h
      have hbehind := hlowest.right [.op .divide] rfl
      obtain ⟨u, ⟨hudepth, ⟨b, hb, hv⟩, htoks⟩, -⟩ := hp _ _ _ hbehind hright
      dsimp only at h
      rw [hv, ite_error_eq_ok, ofRat_n_eq_zero] at h
      obtain ⟨hzero, h⟩ := h
      rw [quotient_ofRat q hzero] at h
      have hvalue' : (Syn.product t true u).value = some (q / b) := by
        rw [Syn.value, hvalue, hb]
        exact if_neg hzero
      obtain ⟨t', ⟨hdepth', hfound, htokens⟩, hpct'⟩ := ih (q / b) true toks' (.product t true u)
        (hbehind.right _ htoks) (max_le hdepth hudepth) hvalue' (by simp [Syn.isPercent]) h
      refine ⟨t', ⟨hdepth', hfound, ?_⟩, hpct'⟩
      rw [← htokens, htoks, Syn.tokens]
      simp
    rw [factors_stop (stops_pair htimes hdivide)] at h
    obtain ⟨hl, rfl⟩ := Prod.mk.inj (Except.ok.inj h)
    obtain ⟨rfl, rfl⟩ := Prod.mk.inj hl
    exact ⟨t, ⟨hdepth, ⟨q, hvalue, rfl⟩, rfl⟩, hpct⟩

theorem term_sound {k : ℕ} {p : Parse Term} (hp : UnarySound k p) {toks rest : List Tok} {t : Term}
    (hlowest : Lowest toks) (h : term p toks = .ok (t, rest)) :
    ∃ t' : Syn .term, Found t' k toks rest t.v ∧ t.pct = t'.isPercent := by
  unfold term at h
  obtain ⟨⟨first, toks'⟩, hfirst, h⟩ := bind_eq_ok.mp h
  obtain ⟨⟨⟨left, saw⟩, toks''⟩, hleft, h⟩ := bind_eq_ok.mp h
  obtain ⟨rfl, rfl⟩ := Prod.mk.inj (Except.ok.inj h)
  obtain ⟨u, ⟨hdepth, ⟨q, hq, hv⟩, htoks⟩, hpct⟩ := hp _ _ _ hlowest hfirst
  rw [hv] at hleft
  obtain ⟨t', ⟨hdepth', hfound, htokens⟩, hpct'⟩ := factors_sound hp first.pct _ q false toks'
    (.unary u) (hlowest.right _ htoks) hdepth hq (by simp [Syn.isPercent, hpct]) hleft
  exact ⟨t', ⟨hdepth', hfound, htoks.trans htokens⟩, hpct'⟩

/-- What a step of the loop of `expr` makes of the values on both sides. -/
theorem sum_value {e : Syn .expr} {t : Syn .term} {a : ℚ} (negative : Bool) {r : Term}
    (ha : e.value = some a) (ht : ∃ b, t.value = some b ∧ r.v = ofRat b)
    (hpct : r.pct = t.isPercent) : ∃ q, (Syn.sum e negative t).value = some q ∧
      (if negative then minus (ofRat a) (rightOf (ofRat a) r)
        else plus (ofRat a) (rightOf (ofRat a) r)) = ofRat q := by
  obtain ⟨b, hb, hr⟩ := ht
  have hright : rightOf (ofRat a) r = ofRat (if t.isPercent then a * b else b) := by
    rw [rightOf, hpct, hr]
    split_ifs
    · exact times_ofRat a b
    · rfl
  refine ⟨_, by rw [Syn.value, ha, hb]; rfl, ?_⟩
  rw [hright]
  cases negative with
  | true => exact minus_ofRat a _
  | false => exact plus_ofRat a _

theorem terms_sound {k : ℕ} {p : Parse Term} (hp : UnarySound k p) : ∀ (i : ℕ) (q : ℚ)
    (toks : List Tok) (e : Syn .expr), Lowest toks → e.depth ≤ k → e.value = some q →
      ∀ {left : Rational} {rest : List Tok}, terms p i (ofRat q) toks = .ok (left, rest) →
        ∃ e' : Syn .expr, Found e' k (e.tokens ++ toks) rest left := by
  intro i
  induction i with
  | zero =>
    intro q toks e _ hdepth hvalue left rest h
    have hstay : terms p 0 (ofRat q) toks = .ok (ofRat q, toks) := by
      unfold terms
      rfl
    rw [hstay] at h
    obtain ⟨rfl, rfl⟩ := Prod.mk.inj (Except.ok.inj h)
    exact ⟨e, hdepth, ⟨q, hvalue, rfl⟩, rfl⟩
  | succ i ih =>
    intro q toks e hlowest hdepth hvalue left rest h
    have hstep : ∀ (negative : Bool) behind, toks = Syn.sign negative :: behind →
        ∃ e' : Syn .expr, Found e' k (e.tokens ++ toks) rest left := by
      rintro negative behind rfl
      have hterm : ∃ t toks', term p behind = .ok (t, toks') ∧ terms p i (if negative then
          minus (ofRat q) (rightOf (ofRat q) t) else plus (ofRat q) (rightOf (ofRat q) t)) toks' =
            .ok (left, rest) := by
        cases negative with
        | true =>
          rw [Syn.sign, if_pos rfl, terms] at h
          obtain ⟨⟨t, toks'⟩, ht, h⟩ := bind_eq_ok.mp h
          exact ⟨t, toks', ht, h⟩
        | false =>
          rw [Syn.sign, if_neg Bool.false_ne_true, terms] at h
          obtain ⟨⟨t, toks'⟩, ht, h⟩ := bind_eq_ok.mp h
          exact ⟨t, toks', ht, h⟩
      obtain ⟨t, toks', ht, hloop⟩ := hterm
      have hbehind := hlowest.right [Syn.sign negative] rfl
      obtain ⟨t', ⟨htdepth, htvalue, htoks⟩, hpct⟩ := term_sound hp hbehind ht
      obtain ⟨q', hq', hnext⟩ := sum_value negative hvalue htvalue hpct
      rw [hnext] at hloop
      obtain ⟨e', hdepth', hfound, htokens⟩ := ih q' toks' (.sum e negative t')
        (hbehind.right _ htoks) (max_le hdepth htdepth) hq' hloop
      refine ⟨e', hdepth', hfound, ?_⟩
      rw [← htokens, htoks, Syn.tokens]
      simp
    by_cases hplus : ∃ behind, toks = .op .plus :: behind
    · obtain ⟨behind, hplus⟩ := hplus
      exact hstep false behind hplus
    by_cases hminus : ∃ behind, toks = .op .minus :: behind
    · obtain ⟨behind, hminus⟩ := hminus
      exact hstep true behind hminus
    rw [terms_stop (stops_pair hplus hminus)] at h
    obtain ⟨rfl, rfl⟩ := Prod.mk.inj (Except.ok.inj h)
    exact ⟨e, hdepth, ⟨q, hvalue, rfl⟩, rfl⟩

theorem expr_sound {k : ℕ} {p : Parse Term} (hp : UnarySound k p) : ExprSound k (expr p) := by
  intro toks v rest hlowest h
  unfold expr at h
  obtain ⟨⟨t, toks'⟩, ht, h⟩ := bind_eq_ok.mp h
  obtain ⟨t', ⟨hdepth, ⟨q, hq, hv⟩, htoks⟩, -⟩ := term_sound hp hlowest ht
  dsimp only at h
  rw [hv] at h
  obtain ⟨e, hdepth', hfound, htokens⟩ := terms_sound hp _ q toks' (.term t')
    (hlowest.right _ htoks) hdepth hq h
  exact ⟨e, hdepth', hfound, htoks.trans htokens⟩

theorem unary_sound : ∀ k, UnarySound k (unary k)
  | 0 => unaryOf_sound (.inl rfl) (.inl rfl)
  | k + 1 => unaryOf_sound (.inr ⟨k, rfl, unary_sound k⟩)
    (.inr ⟨k, rfl, expr_sound (unary_sound k)⟩)

/-- What the parser accepts is a tree, and it returns the tree's value. -/
theorem parse_sound {toks : List Tok} {r : Rational} (hlowest : Lowest toks)
    (h : parse toks = .ok r) : ∃ (e : Syn .expr) (q : ℚ), e.tokens = toks ∧
      e.depth ≤ MAX_DEPTH ∧ e.value = some q ∧ r = ofRat q := by
  unfold parse at h
  rw [ite_error_eq_ok] at h
  obtain ⟨⟨v, toks'⟩, hv, h⟩ := bind_eq_ok.mp h.2
  dsimp only at h
  split_ifs at h with hend
  obtain rfl := Except.ok.inj h
  obtain ⟨e, hdepth, ⟨q, hq, hvq⟩, htokens⟩ := expr_sound (unary_sound _) _ _ _ hlowest hv
  refine ⟨e, q, ?_, hdepth, hq, hvq⟩
  rw [htokens, hend, List.append_nil]

theorem parse_iff {toks : List Tok} {r : Rational} (hlowest : Lowest toks) :
    parse toks = .ok r ↔ ∃ (e : Syn .expr) (q : ℚ), e.tokens = toks ∧ e.depth ≤ MAX_DEPTH ∧
      e.value = some q ∧ r = ofRat q := by
  constructor
  · exact parse_sound hlowest
  · rintro ⟨e, q, rfl, hdepth, hvalue, rfl⟩
    exact parse_complete hdepth hvalue

/-! ## The texts -/

theorem Lexes.lowest {s : List Char} {ts : List Tok} (h : Lexes s ts) : Lowest ts := by
  induction h with
  | nil => intro v hv; cases hv
  | blank _ _ ih => exact ih
  | op _ _ ih => exact fun v hv => ih v (by simpa using hv)
  | num _ _ _ _ ih =>
    intro v hv
    rcases List.mem_cons.mp hv with heq | hv
    · exact ⟨_, Tok.num.inj heq⟩
    · exact ih v hv

/-- The size test of the result, on doubles. -/
def Fits (q : ℚ) : Prop := ∃ v, value (ofRat q) = some v ∧ |v| < MAX_ABS_RESULT

/-- A text of a tree that is short and nested little enough, and the tree's value. -/
structure Evaluates (input : List Char) (e : Syn .expr) (q : ℚ) : Prop where
  short : ((trim input).flatMap utf16).length ≤ EXPRESSION_MAX_LENGTH
  text : Lexes (formula (trim input)) e.tokens
  depth : e.depth ≤ MAX_DEPTH
  value : e.value = some q

theorem evaluateExpression_iff {input : List Char} {r : Rational} :
    evaluateExpression input = .ok r ↔ ∃ e q, Evaluates input e q ∧ Fits q ∧ r = ofRat q := by
  unfold evaluateExpression
  dsimp only
  rw [ite_error_eq_ok, not_lt]
  constructor
  · rintro ⟨hshort, h⟩
    obtain ⟨toks, htoks, h⟩ := bind_eq_ok.mp h
    obtain ⟨r', hparse, h⟩ := bind_eq_ok.mp h
    have hlexes := (tokenize_iff le_rfl).mp htoks
    obtain ⟨e, q, rfl, hdepth, hq, rfl⟩ := parse_sound hlexes.lowest hparse
    split at h
    · cases h
    · next v hv =>
      rw [ite_error_eq_ok, not_le] at h
      obtain rfl := Except.ok.inj h.2
      exact ⟨e, q, ⟨hshort, hlexes, hdepth, hq⟩, ⟨v, hv, h.1⟩, rfl⟩
  · rintro ⟨e, q, ⟨hshort, hlexes, hdepth, hq⟩, ⟨v, hv, hsmall⟩, rfl⟩
    refine ⟨hshort, bind_eq_ok.mpr ⟨e.tokens, (tokenize_iff le_rfl).mpr hlexes,
      bind_eq_ok.mpr ⟨ofRat q, parse_complete hdepth hq, ?_⟩⟩⟩
    rw [hv]
    exact if_neg (not_le.mpr hsmall)

end Expression

end MyBooks
