import MyBooks.SafeRegex

/-!
# A scan that goes through

What a scan that is not refused does with each piece of a pattern: `Accepting` says that some scan
goes on from here with certain groups open, and each lemma takes it past one piece.
-/

namespace MyBooks

namespace SafeRegex

open Regex

variable {pattern : JsString} {s r : JsString} {c : UInt16} {ms : List (Bool × Bool)}
variable {q a : Bool}

/-! ## Runs that go through -/

/-- What the check of a group looks at. -/
def marks (st : Scan) : List (Bool × Bool) := st.stack.map fun g => (g.quant, g.alt)

/-- Some scan goes through from before `rest`, with these groups open. -/
def Accepting (pattern rest : JsString) (ms : List (Bool × Bool)) : Prop :=
  ∃ fuel st st', st.rest = rest ∧ marks st = ms ∧ scan pattern fuel st = .ok st'

theorem Accepting.next (h : Accepting pattern (c :: s) ms) :
    ∃ st st', st.rest = c :: s ∧ marks st = ms ∧ step pattern st = .ok st' ∧
      Accepting pattern st'.rest (marks st') := by
  obtain ⟨fuel, st, last, hrest, hmarks, hscan⟩ := h
  have hne : st.rest ≠ [] := by simp [hrest]
  cases fuel with
  | zero =>
    rw [scan, if_neg hne] at hscan
    cases hscan
  | succ fuel =>
    rw [scan, if_neg hne] at hscan
    obtain ⟨st', hstep, hscan⟩ := bind_eq_ok.mp hscan
    exact ⟨st, st', hrest, hmarks, hstep, fuel, st', last, rfl, rfl, hscan⟩

@[simp] theorem marks_advance (n : ℕ) (st : Scan) : marks (st.advance n) = marks st := rfl

@[simp] theorem rest_endBranch (st : Scan) : (endBranch pattern st).rest = st.rest := rfl

@[simp] theorem marks_endBranch (st : Scan) : marks (endBranch pattern st) = marks st := rfl

theorem marks_countUnbounded (j : ℕ) (g : Group) (below : List Group) (st : Scan) :
    marks (countUnbounded j g below st) =
      (g.quant, g.alt) :: below.map fun g => (g.quant, g.alt) := by
  unfold countUnbounded
  split_ifs <;> rfl

/-- The units that open, close or part something. -/
def structural : List UInt16 := "\\[(|)".toList.map unit

theorem ne_of_notMem_structural (hc : c ∉ structural) :
    c ≠ unit '\\' ∧ c ≠ unit '[' ∧ c ≠ unit '(' ∧ c ≠ unit '|' ∧ c ≠ unit ')' := by
  simpa [structural] using hc

/-- A unit without a role is passed. -/
theorem Accepting.pass (hc : c ∉ structural) (hquant : isQuantAt (c :: s) = false)
    (h : Accepting pattern (c :: s) ms) : Accepting pattern s ms := by
  obtain ⟨⟨_, i, stack, unbounded, first, isOver, last⟩, st', rfl, rfl, hstep, h⟩ := h.next
  obtain ⟨h1, h2, h3, h4, h5⟩ := ne_of_notMem_structural hc
  simp only [step, if_neg h1, if_neg h2, if_neg h3, if_neg h4, if_neg h5, hquant] at hstep
  obtain rfl := Except.ok.inj hstep
  exact h

theorem Accepting.escape (h : Accepting pattern (unit '\\' :: c :: s) ms) :
    isNonzeroDigit c = false ∧ ¬(c = unit 'k' ∧ starts s '<') ∧ Accepting pattern s ms := by
  obtain ⟨⟨_, i, stack, unbounded, first, isOver, last⟩, st', rfl, rfl, hstep, h⟩ := h.next
  simp only [step, ↓reduceIte] at hstep
  split_ifs at hstep with hback
  obtain rfl := Except.ok.inj hstep
  simp only [List.head?_cons, Option.any_some, starts, Option.some.injEq, List.drop_one,
    List.tail_cons, not_or, Bool.not_eq_true, decide_eq_true_eq] at hback
  exact ⟨hback.1, by simpa [starts] using hback.2, h⟩

theorem Accepting.opening (h : Accepting pattern (unit '(' :: s) ms) :
    Accepting pattern s ((false, false) :: ms) := by
  obtain ⟨⟨_, i, stack, unbounded, first, isOver, last⟩, st', rfl, rfl, hstep, h⟩ := h.next
  simp only [step, if_neg (show unit '(' ≠ unit '\\' by decide),
    if_neg (show unit '(' ≠ unit '[' by decide), ↓reduceIte] at hstep
  obtain rfl := Except.ok.inj hstep
  exact h

theorem Accepting.bar (h : Accepting pattern (unit '|' :: s) ((q, a) :: ms)) :
    Accepting pattern s ((q, true) :: ms) := by
  obtain ⟨⟨_, i, stack, unbounded, first, isOver, last⟩, st', rfl, hmarks, hstep, h⟩ := h.next
  obtain ⟨top, below, rfl, htop, rfl⟩ := List.map_eq_cons_iff.mp hmarks
  obtain ⟨rfl, rfl⟩ := Prod.mk.inj htop
  simp only [step, if_neg (show unit '|' ≠ unit '\\' by decide),
    if_neg (show unit '|' ≠ unit '[' by decide), if_neg (show unit '|' ≠ unit '(' by decide),
    ↓reduceIte] at hstep
  obtain rfl := Except.ok.inj hstep
  split_ifs at h <;> exact h

theorem Accepting.charClass (h : Accepting pattern (unit '[' :: s) ms) :
    Accepting pattern ((unit '[' :: s).drop (classLength (unit '[' :: s))) ms := by
  obtain ⟨⟨_, i, stack, unbounded, first, isOver, last⟩, st', rfl, rfl, hstep, h⟩ := h.next
  simp only [step, if_neg (show unit '[' ≠ unit '\\' by decide), ↓reduceIte] at hstep
  obtain rfl := Except.ok.inj hstep
  exact h

/-- A quantifier of something that is no group. -/
theorem Accepting.quantifier (hc : c ∉ structural) (hquant : isQuantAt (c :: s) = true)
    (h : Accepting pattern (c :: s) ((q, a) :: ms)) :
    Accepting pattern ((c :: s).drop (quantLength (c :: s)))
      ((q || isRepeatAt (c :: s), a) :: ms) := by
  obtain ⟨⟨_, i, stack, unbounded, first, isOver, last⟩, st', rfl, hmarks, hstep, h⟩ := h.next
  obtain ⟨top, below, rfl, htop, rfl⟩ := List.map_eq_cons_iff.mp hmarks
  obtain ⟨rfl, rfl⟩ := Prod.mk.inj htop
  obtain ⟨h1, h2, h3, h4, h5⟩ := ne_of_notMem_structural hc
  simp only [step, if_neg h1, if_neg h2, if_neg h3, if_neg h4, if_neg h5, hquant, quantify,
    ↓reduceIte] at hstep
  obtain rfl := Except.ok.inj hstep
  rw [rest_advance, marks_advance] at h
  split_ifs at h
  · rw [rest_countUnbounded, marks_countUnbounded] at h
    exact h
  · exact h

theorem Accepting.closing {p b : Bool}
    (h : Accepting pattern (unit ')' :: s) ((q, a) :: (p, b) :: ms)) :
    (isRepeatAt s → q = false ∧ a = false) ∧
      Accepting pattern (s.drop (groupQuantLength s)) ((p || isRepeatAt s || q, b) :: ms) := by
  obtain ⟨⟨_, i, stack, unbounded, first, isOver, last⟩, st', rfl, hmarks, hstep, h⟩ := h.next
  obtain ⟨inner, open', rfl, hinner, hmarks⟩ := List.map_eq_cons_iff.mp hmarks
  obtain ⟨parent, below, rfl, hparent, rfl⟩ := List.map_eq_cons_iff.mp hmarks
  obtain ⟨rfl, rfl⟩ := Prod.mk.inj hinner
  obtain ⟨rfl, rfl⟩ := Prod.mk.inj hparent
  simp only [step, if_neg (show unit ')' ≠ unit '\\' by decide),
    if_neg (show unit ')' ≠ unit '[' by decide), if_neg (show unit ')' ≠ unit '(' by decide),
    if_neg (show unit ')' ≠ unit '|' by decide), ↓reduceIte, List.head?_cons, Option.getD_some,
    List.tail_cons] at hstep
  by_cases hquant : isRepeatAt s = true ∧ inner.quant = true
  · rw [closeGroup, if_pos hquant] at hstep
    cases hstep
  by_cases halt : isRepeatAt s = true ∧ inner.alt = true
  · rw [closeGroup, if_neg hquant, if_pos halt] at hstep
    cases hstep
  rw [closeGroup, if_neg hquant, if_neg halt] at hstep
  obtain rfl := Except.ok.inj hstep
  refine ⟨fun hrepeat => ⟨?_, ?_⟩, ?_⟩
  · exact Bool.eq_false_iff.mpr fun hq => hquant ⟨hrepeat, hq⟩
  · exact Bool.eq_false_iff.mpr fun ha => halt ⟨hrepeat, ha⟩
  · rw [rest_advance, marks_advance] at h
    have hdrop : ∀ n, (unit ')' :: s).drop (1 + n) = s.drop n := fun n => by
      rw [Nat.add_comm, List.drop_succ_cons]
    by_cases hunb : isUnboundedAt s = true
    · rw [if_pos hunb, rest_countUnbounded, marks_countUnbounded, hdrop] at h
      exact h
    · rw [if_neg hunb, hdrop] at h
      exact h

/-! ## Units without a role -/

/-- The units that begin a quantifier other than `?`. -/
def quantifying : List UInt16 := "*+\x7b".toList.map unit

def inert (u : UInt16) : Bool := !(structural ++ quantifying).contains u

theorem inert_of {f : UInt16 → Bool} {u : UInt16}
    (hf : (structural ++ quantifying).all (fun c => !f c) = true) (hu : f u = true) :
    inert u = true := by
  by_contra h
  rw [inert, Bool.not_eq_true', Bool.not_eq_false, List.contains_iff_mem] at h
  have hnot : (!f u) = true := List.all_eq_true.mp hf u h
  rw [hu] at hnot
  cases hnot

theorem inert_of_isDigit {u : UInt16} (h : isDigit u = true) : inert u = true :=
  inert_of (by decide) h

theorem inert_of_isHex {u : UInt16} (h : isHex u = true) : inert u = true := inert_of (by decide) h

theorem inert_of_isLetter {u : UInt16} (h : isLetter u = true) : inert u = true :=
  inert_of (by decide) h

theorem isQuantAt_eq_false (hc : c ∉ quantifying) : isQuantAt (c :: s) = false := by
  have hne : c ≠ unit '*' ∧ c ≠ unit '+' ∧ c ≠ unit '{' := by simpa [quantifying] using hc
  obtain ⟨h1, h2, h3⟩ := hne
  simp [isQuantAt, starts, bracesAt, h1, h2, h3]

theorem Accepting.inert (hc : SafeRegex.inert c = true) (h : Accepting pattern (c :: s) ms) :
    Accepting pattern s ms := by
  have hmem : c ∉ structural ∧ c ∉ quantifying := by simpa [SafeRegex.inert] using hc
  exact h.pass hmem.1 (isQuantAt_eq_false hmem.2)

theorem Accepting.inerts : ∀ {l : JsString}, (∀ u ∈ l, SafeRegex.inert u = true) →
    Accepting pattern (l ++ s) ms → Accepting pattern s ms
  | [], _, h => h
  | _ :: _, hl, h =>
    Accepting.inerts (fun v hv => hl v (List.mem_cons_of_mem _ hv))
      (Accepting.inert (hl _ List.mem_cons_self) h)

/-! ## Quantifiers -/

/-- Digits are taken up to a unit that is none. -/
theorem takeWhile_digits {n : JsString} (hn : ∀ u ∈ n, isDigit u = true) (hc : isDigit c = false) :
    (n ++ c :: s).takeWhile isDigit = n ∧ (n ++ c :: s).dropWhile isDigit = c :: s := by
  rw [List.takeWhile_append_of_pos hn, List.dropWhile_append_of_pos hn, List.takeWhile_cons,
    List.dropWhile_cons, hc]
  exact ⟨List.append_nil n, rfl⟩

theorem bracesAt_text {n : JsString} {bound : Option JsString} (h : BracesWf n bound) :
    bracesAt (bracesText n bound ++ s) = some (n, bound) := by
  obtain ⟨hne, hn, hbound⟩ := h
  cases bound with
  | none =>
    obtain ⟨htake, hdrop⟩ := takeWhile_digits (s := s) hn
      (show isDigit (unit '}') = false by decide)
    simp [bracesText, bracesAt, htake, hdrop, hne]
  | some m =>
    obtain ⟨htake, hdrop⟩ := takeWhile_digits (s := m ++ unit '}' :: s) hn
      (show isDigit (unit ',') = false by decide)
    obtain ⟨htake', hdrop'⟩ := takeWhile_digits (s := s) (hbound m rfl)
      (show isDigit (unit '}') = false by decide)
    have hcomma : unit ',' ≠ unit '}' := by decide
    simp [bracesText, bracesAt, htake, hdrop, htake', hdrop', hne, hcomma]

theorem forall_mem_takeWhile {l : JsString} : ∀ u ∈ l.takeWhile isDigit, isDigit u = true :=
  fun _ hu => List.mem_takeWhile_imp hu

/-- Braces that are found stand there. -/
theorem bracesAt_some {n : JsString} {bound : Option JsString} (h : bracesAt s = some (n, bound)) :
    BracesWf n bound ∧ bracesText n bound <+: s := by
  cases s with
  | nil => cases h
  | cons c s =>
    rw [bracesAt] at h
    split_ifs at h with hopen
    obtain ⟨hc, hne⟩ := not_or.mp hopen
    obtain rfl := not_not.mp hc
    have hsplit := List.takeWhile_append_dropWhile (p := isDigit) (l := s)
    cases hrest : s.dropWhile isDigit with
    | nil =>
      rw [hrest] at h
      cases h
    | cons d s' =>
      rw [hrest] at h hsplit
      simp only at h
      split_ifs at h with hclose hcomma
      · obtain ⟨rfl, rfl⟩ := Prod.mk.inj (Option.some.inj h)
        refine ⟨⟨hne, forall_mem_takeWhile, fun m hm => by cases hm⟩, s', ?_⟩
        simp [bracesText, ← hclose, hsplit]
      · obtain ⟨rfl, rfl⟩ := Prod.mk.inj (Option.some.inj h)
        refine ⟨⟨hne, forall_mem_takeWhile, fun m hm => ?_⟩, ?_⟩
        · obtain rfl := Option.some.inj hm
          exact forall_mem_takeWhile
        · have hsplit' := List.takeWhile_append_dropWhile (p := isDigit) (l := s')
          cases hrest' : s'.dropWhile isDigit with
          | nil =>
            rw [hrest'] at hcomma
            cases hcomma.2
          | cons e s'' =>
            rw [hrest'] at hcomma hsplit'
            have he : e = unit '}' := Option.some.inj hcomma.2
            refine ⟨s'', ?_⟩
            have hs : s = s.takeWhile isDigit ++
                unit ',' :: (s'.takeWhile isDigit ++ unit '}' :: s'') := by
              rw [← he, hsplit', ← hcomma.1, hsplit]
            rw [bracesText]
            simpa using hs.symm

/-- No quantifier begins here. -/
def Unquantified (s : JsString) : Prop := isQuantAt s = false ∧ starts s '?' = false

theorem quantLength_of {text : JsString} (lazy : Bool) (hs : starts s '?' = false)
    (hlength : (if starts (text ++ ((if lazy then [unit '?'] else []) ++ s)) '{' then
      (text ++ ((if lazy then [unit '?'] else []) ++ s)).idxOf (unit '}') + 1 else 1) =
        text.length) :
    quantLength (text ++ ((if lazy then [unit '?'] else []) ++ s)) =
      text.length + (if lazy then [unit '?'] else []).length := by
  rw [quantLength, hlength, List.drop_left]
  cases lazy with
  | true => simp [starts]
  | false => simp [hs]

theorem idxOf_closing {body : JsString} (h : unit '}' ∉ body) :
    (body ++ unit '}' :: s).idxOf (unit '}') = body.length := by
  rw [List.idxOf_append_of_notMem h, List.idxOf_cons_self, Nat.add_zero]

theorem notMem_of_isDigit {m : JsString} (h : ∀ u ∈ m, isDigit u = true) : unit '}' ∉ m :=
  fun hmem => absurd (h _ hmem) (by decide)

theorem closing_notMem {n : JsString} {bound : Option JsString} (h : BracesWf n bound) :
    unit '}' ∉ unit '{' :: n ++ bound.elim [] (unit ',' :: ·) := by
  obtain ⟨-, hn, hbound⟩ := h
  have hopen : unit '}' ≠ unit '{' := by decide
  have hcomma : unit '}' ≠ unit ',' := by decide
  cases bound with
  | none => simp [hopen, notMem_of_isDigit hn]
  | some m => simp [hopen, hcomma, notMem_of_isDigit hn, notMem_of_isDigit (hbound m rfl)]

/-- A quantifier other than `?`, as the scan sees it. -/
theorem quantifier_seen {q : Quantifier} (hq : q.Wf) (hmark : q.mark ≠ .optional)
    (hs : starts s '?' = false) :
    isQuantAt (q.text ++ s) = true ∧ isRepeatAt (q.text ++ s) = q.repeats ∧
      quantLength (q.text ++ s) = q.text.length ∧ (q.text ++ s).head?.all (· ∉ structural) := by
  obtain ⟨mark, lazy⟩ := q
  rw [Quantifier.text, List.append_assoc, List.length_append]
  cases mark with
  | optional => exact absurd rfl hmark
  | star => exact ⟨rfl, rfl, quantLength_of lazy hs rfl, rfl⟩
  | plus => exact ⟨rfl, rfl, quantLength_of lazy hs rfl, rfl⟩
  | braces n bound =>
    have hwf := hq n bound rfl
    have hbraces := bracesAt_text (s := (if lazy then [unit '?'] else []) ++ s) hwf
    refine ⟨?_, ?_, quantLength_of lazy hs ?_, rfl⟩
    · rw [Mark.text, isQuantAt, hbraces]
      exact Bool.or_true _
    · rw [Mark.text, isRepeatAt, hbraces]
      cases bound <;> rfl
    · have hindex := idxOf_closing (s := (if lazy then [unit '?'] else []) ++ s)
        (closing_notMem hwf)
      have hstarts : ∀ r, starts (bracesText n bound ++ r) '{' = true := fun r => rfl
      rw [Mark.text, if_pos (hstarts _), bracesText, List.append_assoc, List.length_append]
      exact congrArg (· + 1) hindex

theorem optional_inert (lazy : Bool) :
    ∀ u ∈ (⟨.optional, lazy⟩ : Quantifier).text, SafeRegex.inert u = true :=
  List.all_eq_true.mp (by cases lazy <;> decide)

/-- A quantifier behind something that is no group. -/
theorem Accepting.quantified {x : Option Quantifier} (hx : ∀ m ∈ x, m.Wf) (hs : Unquantified s)
    (h : Accepting pattern (quantifierText x ++ s) ((q, a) :: ms)) :
    Accepting pattern s ((q || Disjunction.repeated x, a) :: ms) := by
  cases x with
  | none =>
    rw [Disjunction.repeated, Option.any_none, Bool.or_false]
    exact h
  | some m =>
    by_cases hmark : m.mark = .optional
    · obtain ⟨mark, lazy⟩ := m
      obtain rfl : mark = .optional := hmark
      have hpast := Accepting.inerts (optional_inert lazy) h
      simpa [Disjunction.repeated, Quantifier.repeats] using hpast
    · obtain ⟨hquant, hrepeat, hlength, hhead⟩ := quantifier_seen (hx m rfl) hmark hs.2
      rw [quantifierText, Option.elim_some] at h
      rw [Disjunction.repeated, Option.any_some, ← hrepeat]
      cases htext : m.text ++ s with
      | nil =>
        rw [htext] at hquant
        cases hquant
      | cons c t =>
        rw [htext] at h hquant hhead
        have hpast := h.quantifier (by simpa using hhead) hquant
        rw [← htext, hlength, List.drop_left] at hpast
        rwa [htext]  at hpast

theorem isRepeatAt_eq_false (h : isQuantAt s = false) : isRepeatAt s = false := by
  simp only [isQuantAt, Bool.or_eq_false_iff] at h
  have hnone : bracesAt s = none := by simpa using h.2
  rw [isRepeatAt, h.1.1, h.1.2, hnone]
  rfl

/-- What is behind a group. -/
theorem Accepting.closed {x : Option Quantifier} {p b : Bool} (hx : ∀ m ∈ x, m.Wf)
    (hs : Unquantified s)
    (h : Accepting pattern (unit ')' :: (quantifierText x ++ s)) ((q, a) :: (p, b) :: ms)) :
    (Disjunction.repeated x = true → q = false ∧ a = false) ∧
      Accepting pattern s ((p || Disjunction.repeated x || q, b) :: ms) := by
  obtain ⟨hguard, hpast⟩ := h.closing
  cases x with
  | none =>
    have hlength : groupQuantLength s = 0 := by
      rw [groupQuantLength, hs.1, hs.2]
      rfl
    have htext : quantifierText none ++ s = s := rfl
    rw [htext, isRepeatAt_eq_false hs.1, hlength] at hpast
    exact ⟨fun hrepeat => (Bool.false_ne_true hrepeat).elim, hpast⟩
  | some m =>
    by_cases hmark : m.mark = .optional
    · obtain ⟨mark, lazy⟩ := m
      obtain rfl : mark = .optional := hmark
      have htext : quantifierText (some ⟨.optional, lazy⟩) ++ s =
          unit '?' :: ((if lazy then [unit '?'] else []) ++ s) := rfl
      have hquant : isQuantAt (unit '?' :: ((if lazy then [unit '?'] else []) ++ s)) = false :=
        isQuantAt_eq_false (by decide)
      have hlength :
          groupQuantLength (unit '?' :: ((if lazy then [unit '?'] else []) ++ s)) = 1 := by
        rw [groupQuantLength, hquant]
        rfl
      rw [htext, isRepeatAt_eq_false hquant, hlength, List.drop_one, List.tail_cons] at hpast
      refine ⟨fun hrepeat => (Bool.false_ne_true hrepeat).elim, Accepting.inerts ?_ hpast⟩
      exact List.all_eq_true.mp (by cases lazy <;> decide)
    · obtain ⟨hquant, hrepeat, hlength, -⟩ := quantifier_seen (hx m rfl) hmark hs.2
      have htext : quantifierText (some m) ++ s = m.text ++ s := rfl
      have hgroup : groupQuantLength (m.text ++ s) = m.text.length := by
        rw [groupQuantLength, hquant, if_pos rfl, hlength]
      rw [htext, hrepeat, hgroup, List.drop_left] at hpast
      rw [htext, hrepeat] at hguard
      exact ⟨hguard, hpast⟩

/-! ## Names and escapes -/

theorem eq_of_closing {l l' : JsString} (hl : unit '}' ∉ l) (hl' : unit '}' ∉ l')
    (h : l ++ unit '}' :: s = l' ++ unit '}' :: r) : l = l' := by
  have hlength : l.length = l'.length := by rw [← idxOf_closing hl, h, idxOf_closing hl']
  exact (List.append_inj h hlength).1

/-- The hexadecimal digits in braces of an escape in a name are at most an exact repeat. -/
theorem bracesAt_hex {hex n : JsString} {bound : Option JsString} (hhex : ∀ u ∈ hex, isHex u = true)
    (h : bracesAt (unit '{' :: (hex ++ unit '}' :: s)) = some (n, bound)) :
    n = hex ∧ bound = none := by
  obtain ⟨hwf, t, ht⟩ := bracesAt_some h
  have hnotMem : ∀ u, isHex u = false → u ∉ hex := fun u hu hmem => by
    rw [hhex u hmem] at hu
    cases hu
  have hbody : unit '{' :: n ++ bound.elim [] (unit ',' :: ·) = unit '{' :: hex := by
    refine eq_of_closing (s := t) (r := s) (closing_notMem hwf) ?_ ?_
    · have hopen : unit '}' ≠ unit '{' := by decide
      simp [hopen, hnotMem (unit '}') (by decide)]
    · rw [bracesText] at ht
      simpa using ht
  cases bound with
  | none => exact ⟨by simpa using hbody, rfl⟩
  | some m =>
    have hmem : unit ',' ∈ hex := by
      have hcomma : unit ',' ∈ n ++ unit ',' :: m := by simp
      have htail : n ++ unit ',' :: m = hex := by simpa using hbody
      rwa [htail] at hcomma
    exact absurd hmem (hnotMem _ (by decide))

theorem Accepting.hexBraces {hex : JsString} (hhex : ∀ u ∈ hex, isHex u = true)
    (hs : starts s '?' = false)
    (h : Accepting pattern (unit '{' :: (hex ++ unit '}' :: s)) ((q, a) :: ms)) :
    Accepting pattern s ((q, a) :: ms) := by
  have hstructural : unit '{' ∉ structural := by decide
  cases hquant : isQuantAt (unit '{' :: (hex ++ unit '}' :: s)) with
  | false =>
    have hclose : SafeRegex.inert (unit '}') = true := by decide
    have hpast := (h.pass hstructural hquant).inerts fun u hu => inert_of_isHex (hhex u hu)
    exact hpast.inert hclose
  | true =>
    have hpast := h.quantifier hstructural hquant
    have hsome : (bracesAt (unit '{' :: (hex ++ unit '}' :: s))).isSome = true := hquant
    obtain ⟨⟨n, bound⟩, hbraces⟩ := Option.isSome_iff_exists.mp hsome
    obtain ⟨rfl, rfl⟩ := bracesAt_hex hhex hbraces
    have hrepeat : isRepeatAt (unit '{' :: (n ++ unit '}' :: s)) = false := by
      rw [isRepeatAt, hbraces]
      rfl
    have hindex : (unit '{' :: (n ++ unit '}' :: s)).idxOf (unit '}') + 1 = n.length + 2 := by
      have hnotMem : unit '}' ∉ unit '{' :: n := by
        simpa using closing_notMem (bracesAt_some hbraces).1
      exact congrArg (· + 1) (idxOf_closing hnotMem)
    have hdrop : (unit '{' :: (n ++ unit '}' :: s)).drop (n.length + 2) = s := by
      rw [List.drop_succ_cons, List.drop_append, Nat.add_sub_cancel_left]
      simp
    have hlength : quantLength (unit '{' :: (n ++ unit '}' :: s)) = n.length + 2 := by
      have hopen : starts (unit '{' :: (n ++ unit '}' :: s)) '{' = true := rfl
      rw [quantLength, if_pos hopen, hindex, hdrop, hs]
      rfl
    rw [hlength, hdrop, hrepeat, Bool.or_false] at hpast
    exact hpast

/-- What follows a unit of a name is no question mark. -/
theorem starts_name {name : List NameUnit} (hname : ∀ n ∈ name, n.Wf) :
    starts (name.flatMap NameUnit.text ++ unit '>' :: s) '?' = false := by
  cases name with
  | nil => rfl
  | cons n name =>
    have hn := hname n List.mem_cons_self
    cases n with
    | unit u =>
      have hne : u ≠ MyBooks.unit '?' := by
        rintro rfl
        exact absurd hn (by unfold NameUnit.Wf; decide)
      simp [starts, NameUnit.text, hne]
    | escape hex => rfl
    | codePoint hex => rfl

theorem Accepting.nameUnits : ∀ {name : List NameUnit}, (∀ n ∈ name, n.Wf) →
    Accepting pattern (name.flatMap NameUnit.text ++ unit '>' :: s) ((q, a) :: ms) →
    Accepting pattern s ((q, a) :: ms)
  | [], _, h => h.inert (by decide)
  | n :: name, hname, h => by
    have hn := hname n List.mem_cons_self
    have hrest : ∀ m ∈ name, m.Wf := fun m hm => hname m (List.mem_cons_of_mem _ hm)
    have hstarts := starts_name (s := s) hrest
    refine Accepting.nameUnits hrest ?_
    rw [List.flatMap_cons, List.append_assoc] at h
    cases n with
    | unit u =>
      exact Accepting.inert (inert_of (f := isNameUnit) (by decide) hn) h
    | escape hex =>
      exact Accepting.inerts (fun u hu => inert_of_isHex (hn.2 u hu)) (Accepting.escape h).2.2
    | codePoint hex =>
      refine Accepting.hexBraces hn.2 hstarts ?_
      have htext : (NameUnit.codePoint hex).text ++
          (name.flatMap NameUnit.text ++ MyBooks.unit '>' :: s) =
        MyBooks.unit '\\' :: MyBooks.unit 'u' :: MyBooks.unit '{' ::
          (hex ++ MyBooks.unit '}' :: (name.flatMap NameUnit.text ++ MyBooks.unit '>' :: s)) := by
        simp [NameUnit.text, jsString, utf16, MyBooks.unit]
      rw [htext] at h
      exact h.escape.2.2

theorem Accepting.name {name : List NameUnit} (hname : ∀ n ∈ name, n.Wf)
    (h : Accepting pattern (groupName name ++ s) ((q, a) :: ms)) :
    Accepting pattern s ((q, a) :: ms) := by
  have hopen : Accepting pattern (name.flatMap NameUnit.text ++ unit '>' :: s) ((q, a) :: ms) := by
    refine Accepting.inert (c := unit '<') (by decide) ?_
    simpa [groupName] using h
  exact hopen.nameUnits hname

/-- An escape that goes through refers to no group. -/
theorem Accepting.atomEscape {e : Escape} (he : e.Wf)
    (h : Accepting pattern (unit '\\' :: (e.text ++ s)) ms) :
    e.refers = false ∧ Accepting pattern s ms := by
  cases e with
  | decimal first more =>
    have hfirst := (Accepting.escape h).1
    rw [he.1] at hfirst
    cases hfirst
  | named name => exact absurd ⟨rfl, rfl⟩ (Accepting.escape h).2.1
  | octal more =>
    refine ⟨rfl, (Accepting.escape h).2.2.inerts fun u hu => ?_⟩
    have hoctal : isDigit u = true := by
      obtain ⟨h48, h55⟩ := he.2 u hu
      simp only [isDigit, Bool.and_eq_true, decide_eq_true_eq]
      omega
    exact inert_of_isDigit hoctal
  | control letter => exact ⟨rfl, (Accepting.escape h).2.2.inert (inert_of_isLetter he)⟩
  | hex digits =>
    exact ⟨rfl, (Accepting.escape h).2.2.inerts fun u hu => inert_of_isHex (he.2 u hu)⟩
  | unicode digits =>
    exact ⟨rfl, (Accepting.escape h).2.2.inerts fun u hu => inert_of_isHex (he.2 u hu)⟩
  | single u => exact ⟨rfl, (Accepting.escape h).2.2⟩

/-! ## Classes -/

theorem toClosing_close : toClosing (unit ']' :: s) = 0 := by
  rw [toClosing.eq_def]
  rfl

theorem toClosing_unit (hclose : c ≠ unit ']') (hescape : c ≠ unit '\\') :
    toClosing (c :: s) = toClosing s + 1 := by
  rw [toClosing.eq_def]
  simp only [if_neg hclose, if_neg hescape]

theorem toClosing_escape : toClosing (unit '\\' :: c :: s) = toClosing s + 2 := by
  rw [toClosing.eq_def]
  rfl

theorem toClosing_members {members : List ClassMember} (hmembers : ∀ m ∈ members, m.Wf) :
    toClosing (members.flatMap ClassMember.text ++ unit ']' :: s) =
      (members.flatMap ClassMember.text).length := by
  induction members with
  | nil => exact toClosing_close
  | cons m members ih =>
    have hm := hmembers m List.mem_cons_self
    have ih := ih fun n hn => hmembers n (List.mem_cons_of_mem _ hn)
    rw [List.flatMap_cons, List.append_assoc, List.length_append]
    cases m with
    | unit u =>
      rw [ClassMember.text, List.singleton_append, toClosing_unit hm.1 hm.2, ih]
      exact Nat.add_comm _ 1
    | escape u =>
      rw [ClassMember.text, List.cons_append, List.singleton_append, toClosing_escape, ih]
      exact Nat.add_comm _ 2

theorem classLength_opening (negated : Bool) (hclosing : starts s ']' = false)
    (hcaret : negated = false → starts s '^' = false) :
    classLength (unit '[' :: ((if negated then [unit '^'] else []) ++ s)) =
      (if negated then 2 else 1) + toClosing s + 1 := by
  cases negated with
  | true =>
    have hstarts : starts (unit '^' :: s) '^' = true := rfl
    simp [classLength, hstarts, hclosing]
  | false => simp [classLength, hcaret rfl, hclosing]

/-- A class that has a member is passed whole. -/
theorem classLength_charClass {negated : Bool} {members : List ClassMember}
    (hmembers : ∀ m ∈ members, m.Wf) (hne : members ≠ [])
    (hfirst : negated = false → (members.flatMap ClassMember.text).head? ≠ unit '^') :
    classLength ((Atom.charClass negated members).text ++ s) =
      (Atom.charClass negated members).text.length := by
  obtain ⟨c, t, htext, hc⟩ : ∃ c t, members.flatMap ClassMember.text = c :: t ∧ c ≠ unit ']' := by
    obtain ⟨m, members, rfl⟩ := List.exists_cons_of_ne_nil hne
    have hm := hmembers m List.mem_cons_self
    cases m with
    | unit u => exact ⟨u, _, rfl, hm.1⟩
    | escape u => exact ⟨_, _, rfl, by decide⟩
  have hopening := classLength_opening (s := members.flatMap ClassMember.text ++ unit ']' :: s)
    negated (by simpa [htext, starts] using hc)
    (fun hneg => by simpa [htext, starts] using hfirst hneg)
  have hwhole : (Atom.charClass negated members).text ++ s =
      unit '[' :: ((if negated then [unit '^'] else []) ++
        (members.flatMap ClassMember.text ++ unit ']' :: s)) := by
    simp [Atom.text]
  rw [hwhole, hopening, toClosing_members hmembers, Atom.text]
  cases negated <;> simp <;> omega

/-! ## Groups -/

theorem Accepting.opener {kind : GroupKind} (hkind : kind.Wf)
    (h : Accepting pattern (unit '(' :: (kind.text ++ s)) ms) :
    Accepting pattern s ((false, false) :: ms) := by
  have hbody := h.opening
  cases kind with
  | capture => exact hbody
  | named name => exact Accepting.name hkind.2 (Accepting.inert (c := unit '?') (by decide) hbody)
  | uncaptured => exact hbody.inerts (List.all_eq_true.mp (by decide))
  | modifiers add remove =>
    have hletters : ∀ u ∈ jsString "ims", SafeRegex.inert u = true :=
      List.all_eq_true.mp (by decide)
    refine hbody.inerts fun u hu => ?_
    have hparts : u = unit '?' ∨ u ∈ add ∨ u ∈ remove.elim [] (unit '-' :: ·) ∨ u = unit ':' := by
      simpa [GroupKind.text] using hu
    rcases hparts with rfl | hadd | hremove | rfl
    · decide
    · exact hletters u (hkind.1 u hadd)
    · cases remove with
      | none => cases hremove
      | some m =>
        rcases List.mem_cons.mp hremove with rfl | hm
        · decide
        · exact hletters u (hkind.2 m rfl u hm)
    · decide
  | lookahead negative => exact hbody.inerts (List.all_eq_true.mp (by cases negative <;> decide))
  | lookbehind negative => exact hbody.inerts (List.all_eq_true.mp (by cases negative <;> decide))

end SafeRegex

end MyBooks
