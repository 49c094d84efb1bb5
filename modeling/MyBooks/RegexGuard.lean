import MyBooks.RegexScan

/-!
# What the check lets through

A pattern that is let through and that has no empty class holds no nested repeat, except for
alternatives in a group inside a repeated group (`safe_noNestedRepeat_iff`). The scan takes a class
that is empty to go on up to the next closing bracket, and a group that closes does not tell the
group around it of its alternatives (`safe_nested`).
-/

namespace MyBooks

namespace Regex.Disjunction

/-- Neither `[]` nor `[^]` is in the pattern. -/
def NoEmptyClass : Disjunction → Prop
  | nil => True
  | bar rest => rest.NoEmptyClass
  | assertion _ rest => rest.NoEmptyClass
  | atom a _ rest => (∀ negated, a ≠ .charClass negated []) ∧ rest.NoEmptyClass
  | group _ body _ rest => body.NoEmptyClass ∧ rest.NoEmptyClass

/-- No group inside a repeated group has alternatives. -/
def Shallow : Disjunction → Prop
  | nil => True
  | bar rest => rest.Shallow
  | assertion _ rest => rest.Shallow
  | atom _ _ rest => rest.Shallow
  | group _ body q rest => (repeated q → ¬body.groupAlternates) ∧ body.Shallow ∧ rest.Shallow

/-- A repeated group holds no repeat and has no alternatives itself, and nothing refers back. -/
def Checked : Disjunction → Prop
  | nil => True
  | bar rest => rest.Checked
  | assertion _ rest => rest.Checked
  | atom a _ rest => (∀ e, a = .escape e → ¬e.refers) ∧ rest.Checked
  | group _ body q rest =>
    (repeated q → body.repeats = false ∧ body.alternates = false) ∧ body.Checked ∧ rest.Checked

theorem noNestedRepeat_iff (t : Disjunction) : t.NoNestedRepeat ↔ t.Checked ∧ t.Shallow := by
  induction t with
  | nil => simp [NoNestedRepeat, Checked, Shallow]
  | bar rest ih => exact ih
  | assertion a rest ih => exact ih
  | atom a q rest ih => rw [NoNestedRepeat, Checked, Shallow, ih, and_assoc]
  | group kind body q rest ihbody ih =>
    rw [NoNestedRepeat, Checked, Shallow, ihbody, ih]
    simp only [Bool.not_eq_true]
    constructor
    · rintro ⟨hgroup, ⟨hbody, hbodyShallow⟩, hrest, hrestShallow⟩
      exact ⟨⟨fun hq => ⟨(hgroup hq).1, (hgroup hq).2.1⟩, hbody, hrest⟩,
        fun hq => (hgroup hq).2.2, hbodyShallow, hrestShallow⟩
    · rintro ⟨⟨hgroup, hbody, hrest⟩, hshallow, hbodyShallow, hrestShallow⟩
      exact ⟨fun hq => ⟨(hgroup hq).1, (hgroup hq).2, hshallow hq⟩, ⟨hbody, hbodyShallow⟩, hrest,
        hrestShallow⟩

end Regex.Disjunction

namespace SafeRegex

open Regex Disjunction

variable {pattern s : JsString} {ms : List (Bool × Bool)} {q a : Bool}

/-! ## Past a tree -/

theorem unquantified_of_head {c : UInt16} (hc : c ∉ quantifying ++ [unit '?']) :
    Unquantified (c :: s) := by
  have hne : c ∉ quantifying ∧ c ≠ unit '?' := by simpa using hc
  exact ⟨isQuantAt_eq_false hne.1, by simpa [starts] using hne.2⟩

theorem mem_reserved_of {l : List UInt16} (h : l.all reserved.contains = true) :
    ∀ c ∈ l, c ∈ reserved :=
  fun c hc => List.contains_iff_mem.mp (List.all_eq_true.mp h c hc)

theorem unquantified_char {u : UInt16} (hu : (Atom.char u).Wf s) : Unquantified (u :: s) := by
  obtain ⟨hreserved, hbraces⟩ := hu
  have hmem : ∀ c ∈ "*+?".toList.map unit, c ∈ reserved := mem_reserved_of (by decide)
  have hne : u ≠ unit '*' ∧ u ≠ unit '+' ∧ u ≠ unit '?' := by
    simpa using fun h => hreserved (hmem u h)
  have hnone : bracesAt (u :: s) = none := by
    cases hsome : bracesAt (u :: s) with
    | none => rfl
    | some b => exact absurd (bracesAt_some hsome).2 (hbraces _ _ (bracesAt_some hsome).1)
  refine ⟨?_, by simpa [starts] using hne.2.2⟩
  rw [isQuantAt, hnone]
  simp [starts, hne.1, hne.2.1]

/-- No term begins with a quantifier. -/
theorem unquantified_text {t : Disjunction} {follow : JsString} (ht : t.Wf follow)
    (hfollow : Unquantified follow) : Unquantified (t.text ++ follow) := by
  cases t with
  | nil => exact hfollow
  | bar rest => exact unquantified_of_head (by decide)
  | assertion a rest =>
    cases a with
    | start => exact unquantified_of_head (by decide)
    | stop => exact unquantified_of_head (by decide)
    | boundary inside => exact unquantified_of_head (by decide)
  | group kind body q rest => exact unquantified_of_head (by decide)
  | atom a q rest =>
    rw [Disjunction.text, List.append_assoc, List.append_assoc]
    cases a with
    | any => exact unquantified_of_head (by decide)
    | escape e => exact unquantified_of_head (by decide)
    | charClass negated members => exact unquantified_of_head (by decide)
    | char u => exact unquantified_char ht.1

theorem Accepting.assertion {x : Assertion} (h : Accepting pattern (x.text ++ s) ms) :
    Accepting pattern s ms := by
  cases x with
  | start => exact Accepting.inert (c := unit '^') (by decide) h
  | stop => exact Accepting.inert (c := unit '$') (by decide) h
  | boundary inside => exact (Accepting.escape h).2.2

theorem Accepting.atom {x : Atom} (hx : x.Wf s) (hclass : ∀ negated, x ≠ .charClass negated [])
    (h : Accepting pattern (x.text ++ s) ms) :
    (∀ e, x = .escape e → ¬e.refers) ∧ Accepting pattern s ms := by
  cases x with
  | any => exact ⟨fun e he => (by cases he), Accepting.inert (c := unit '.') (by decide) h⟩
  | char u =>
    have hreserved : ∀ c ∈ structural, c ∈ reserved := mem_reserved_of (by decide)
    exact ⟨fun e he => (by cases he),
      h.pass (fun hmem => hx.1 (hreserved u hmem)) (unquantified_char hx).1⟩
  | escape e =>
    obtain ⟨hrefers, h⟩ := Accepting.atomEscape hx h
    exact ⟨fun e' he' => by obtain rfl := Atom.escape.inj he'; simp [hrefers], h⟩
  | charClass negated members =>
    refine ⟨fun e he => (by cases he), ?_⟩
    have hne : members ≠ [] := by
      rintro rfl
      exact hclass negated rfl
    have hpast : Accepting pattern
        (((Atom.charClass negated members).text ++ s).drop
          (classLength ((Atom.charClass negated members).text ++ s))) ms := Accepting.charClass h
    rwa [classLength_charClass hx.1 hne hx.2, List.drop_left] at hpast

/-- A scan that goes through passes a tree, and has looked at each group in it. -/
theorem checked_of_accepting (t : Disjunction) : ∀ {follow : JsString} {ms : List (Bool × Bool)}
    {q a : Bool}, t.Wf follow → t.NoEmptyClass → Unquantified follow →
    Accepting pattern (t.text ++ follow) ((q, a) :: ms) →
    t.Checked ∧ Accepting pattern follow ((q || t.repeats, a || t.alternates) :: ms) := by
  induction t with
  | nil =>
    intro follow ms q a _ _ _ h
    rw [repeats, alternates, Bool.or_false, Bool.or_false]
    exact ⟨trivial, h⟩
  | bar rest ih =>
    intro follow ms q a hwf hclass hfollow h
    obtain ⟨hrest, h⟩ := ih hwf hclass hfollow (Accepting.bar h)
    rw [Bool.true_or] at h
    rw [repeats, alternates, Bool.or_true]
    exact ⟨hrest, h⟩
  | assertion x rest ih =>
    intro follow ms q a hwf hclass hfollow h
    rw [Disjunction.text, List.append_assoc] at h
    exact ih hwf hclass hfollow h.assertion
  | atom x y rest ih =>
    intro follow ms q a hwf hclass hfollow h
    obtain ⟨hx, hy, hrest⟩ := hwf
    rw [Disjunction.text, List.append_assoc, List.append_assoc] at h
    obtain ⟨hrefers, h⟩ := h.atom hx hclass.1
    obtain ⟨hchecked, h⟩ := ih hrest hclass.2 hfollow
      (h.quantified hy (unquantified_text hrest hfollow))
    rw [Bool.or_assoc] at h
    exact ⟨⟨hrefers, hchecked⟩, h⟩
  | group kind body y rest ihbody ih =>
    intro follow ms q a hwf hclass hfollow h
    obtain ⟨hkind, hbody, hy, -, hrest⟩ := hwf
    rw [Disjunction.text, List.cons_append, List.cons_append, List.append_assoc, List.append_assoc,
      List.cons_append, List.append_assoc] at h
    obtain ⟨hbodyChecked, h⟩ := ihbody hbody hclass.1 (unquantified_of_head (by decide))
      (h.opener hkind)
    rw [Bool.false_or, Bool.false_or] at h
    obtain ⟨hguard, h⟩ := h.closed hy (unquantified_text hrest hfollow)
    obtain ⟨hchecked, h⟩ := ih hrest hclass.2 hfollow h
    rw [Bool.or_assoc, Bool.or_assoc, ← Bool.or_assoc (repeated y)] at h
    exact ⟨⟨hguard, hbodyChecked, hchecked⟩, h⟩

/-! ## The check -/

theorem accepting_of_safe (h : checkRegexSafety pattern = .ok ⟨true, none⟩) :
    Accepting pattern pattern [(false, false)] := by
  obtain ⟨u, hchecked⟩ : ∃ u, checked pattern = .ok u := by
    cases hchecked : checked pattern with
    | ok u => exact ⟨u, rfl⟩
    | error stop =>
      rw [checkRegexSafety, hchecked] at h
      cases stop <;> cases h
  rw [checked] at hchecked
  split_ifs at hchecked
  obtain ⟨last, hscan, -⟩ := bind_eq_ok.mp hchecked
  exact ⟨pattern.length, start pattern, last, rfl, rfl, hscan⟩

/-- A pattern that is let through holds no nested repeat if no class in it is empty and no group
inside a repeated group has alternatives; the second is needed. -/
theorem safe_noNestedRepeat {pattern : JsString} {t : Disjunction} (ht : t.IsTreeOf pattern)
    (hsafe : checkRegexSafety pattern = .ok ⟨true, none⟩) :
    (t.NoEmptyClass ∧ t.Shallow → t.NoNestedRepeat) ∧ (t.NoNestedRepeat → t.Shallow) := by
  refine ⟨?_, fun h => (t.noNestedRepeat_iff.mp h).2⟩
  rintro ⟨hclass, hshallow⟩
  obtain ⟨hwf, rfl⟩ := ht
  have hpast : Accepting t.text (t.text ++ []) [(false, false)] := by
    rw [List.append_nil]
    exact accepting_of_safe hsafe
  have hchecked := (checked_of_accepting t hwf hclass ⟨rfl, rfl⟩ hpast).1
  exact t.noNestedRepeat_iff.mpr ⟨hchecked, hshallow⟩

/-! ## Patterns -/

def plus : Quantifier := ⟨.plus, false⟩

/-- A letter, with a `+` or not. -/
def letter (c : Char) (repeated : Bool) (rest : Disjunction) : Disjunction :=
  .atom (.char (unit c)) (if repeated then some plus else none) rest

theorem plus_wf : plus.Wf := fun _ _ h => by cases h

theorem letter_wf {c : Char} {repeated : Bool} {rest : Disjunction}
    (hc : unit c ∉ unit '{' :: reserved) (hrest : rest.Wf s) : (letter c repeated rest).Wf s := by
  rw [List.mem_cons, not_or] at hc
  refine ⟨⟨hc.2, fun _ _ _ h => hc.1 (List.cons_prefix_cons.mp h).1.symm⟩, fun m hm => ?_, hrest⟩
  cases repeated with
  | false => cases hm
  | true =>
    obtain rfl := Option.some.inj hm
    exact plus_wf

theorem repeatedGroup_wf {body rest : Disjunction}
    (hbody : body.Wf (unit ')' :: (plus.text ++ (rest.text ++ s)))) (hrest : rest.Wf s) :
    (Disjunction.group .capture body (some plus) rest).Wf s := by
  refine ⟨trivial, hbody, fun m hm => ?_, fun ⟨_, h⟩ => (by cases h), hrest⟩
  obtain rfl := Option.some.inj hm
  exact plus_wf

/-- `(ab)+c` -/
def pairTree : Disjunction :=
  .group .capture (letter 'a' false (letter 'b' false .nil)) (some plus) (letter 'c' false .nil)

theorem pair_noNestedRepeat : pairTree.NoNestedRepeat := by
  have htree : pairTree.IsTreeOf (jsString "(ab)+c") :=
    ⟨repeatedGroup_wf (letter_wf (by decide) (letter_wf (by decide) trivial))
      (letter_wf (by decide) trivial), by decide +kernel⟩
  refine (safe_noNestedRepeat htree (by decide +kernel)).1 ⟨?_, ?_⟩
  · simp [pairTree, NoEmptyClass, letter]
  · simp [pairTree, Shallow, letter, groupAlternates]

/-- `[^](a+)+]` -/
def anyUnitTree : Disjunction :=
  .atom (.charClass true []) none
    (.group .capture (letter 'a' true .nil) (some plus) (letter ']' false .nil))

/-- `((a|b))+` -/
def innerBarTree : Disjunction :=
  .group .capture (.group .capture (letter 'a' false (.bar (letter 'b' false .nil))) none .nil)
    (some plus) .nil

/-- Nested repeats that are let through: behind an empty class, and alternatives two groups deep. -/
theorem nested_letThrough :
    (anyUnitTree.IsTreeOf (jsString "[^](a+)+]") ∧
      checkRegexSafety (jsString "[^](a+)+]") = .ok ⟨true, none⟩ ∧ ¬anyUnitTree.NoNestedRepeat) ∧
    innerBarTree.IsTreeOf (jsString "((a|b))+") ∧
      checkRegexSafety (jsString "((a|b))+") = .ok ⟨true, none⟩ ∧ ¬innerBarTree.NoNestedRepeat := by
  refine ⟨⟨⟨?_, by decide +kernel⟩, by decide +kernel, ?_⟩, ⟨?_, by decide +kernel⟩,
    by decide +kernel, ?_⟩
  · refine ⟨⟨fun m hm => (by cases hm), fun h => (by cases h)⟩, fun m hm => (by cases hm), ?_⟩
    exact repeatedGroup_wf (letter_wf (by decide) trivial) (letter_wf (by decide) trivial)
  · exact fun h => (h.2.1 rfl).1 rfl
  · refine repeatedGroup_wf ⟨trivial, ?_, fun m hm => (by cases hm), fun _ => rfl, trivial⟩ trivial
    exact letter_wf (by decide) (letter_wf (by decide) trivial)
  · exact fun h => (h.1 rfl).2.2 rfl

end SafeRegex

end MyBooks
