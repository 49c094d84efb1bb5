import MyBooks.RegexGrammar
import MyBooks.Result

/-!
# The check of a user's pattern

One pass from left to right, with a stack of the groups that are open. The pattern's text from `i`
on is carried along as `rest`.
-/

namespace MyBooks

namespace SafeRegex

open Regex

def maxPatternLength : ℕ := 200

def maxUnboundedQuantifiers : ℕ := 2

/-- What was seen in a group that is open. -/
structure Group where
  quant : Bool
  alt : Bool
  unb : ℕ
  deriving DecidableEq

structure Scan where
  rest : JsString
  i : ℕ
  stack : List Group
  branchUnbounded : ℕ
  branchStart : ℕ
  overBudget : Bool
  lastTopLevelUnboundedEnd : Option ℕ
  deriving DecidableEq

/-- Why a scan ends before the pattern does; `thrown` is the error where no group is open. -/
inductive Stop
  | refused (reason : String)
  | thrown
  | outOfFuel
  deriving DecidableEq

def emptyGroup : Group := ⟨false, false, 0⟩

def Scan.advance (n : ℕ) (st : Scan) : Scan := { st with rest := st.rest.drop n, i := st.i + n }

@[simp] theorem rest_advance (n : ℕ) (st : Scan) : (st.advance n).rest = st.rest.drop n := rfl

/-! ## Quantifiers -/

/-- `{n}` with no bound, `{n,}` and `{n,m}` with what follows the comma. -/
def bracesAt : JsString → Option (JsString × Option JsString)
  | [] => none
  | c :: s =>
    let n := s.takeWhile isDigit
    if c ≠ unit '{' ∨ n = [] then none
    else
      match s.dropWhile isDigit with
      | [] => none
      | d :: s' =>
        if d = unit '}' then some (n, none)
        else if d = unit ',' ∧ (s'.dropWhile isDigit).head? = unit '}' then
          some (n, some (s'.takeWhile isDigit))
        else none

def starts (s : JsString) (c : Char) : Bool := s.head? = some (unit c)

def isUnboundedAt (s : JsString) : Bool :=
  starts s '*' || starts s '+' || (bracesAt s).any fun b => b.2 = some []

def isRepeatAt (s : JsString) : Bool :=
  starts s '*' || starts s '+' || (bracesAt s).any fun b => b.2.isSome

def isQuantAt (s : JsString) : Bool := starts s '*' || starts s '+' || (bracesAt s).isSome

/-- The units of a quantifier, with the `?` of a lazy one. -/
def quantLength (s : JsString) : ℕ :=
  let n := if starts s '{' then s.idxOf (unit '}') + 1 else 1
  if starts (s.drop n) '?' then n + 1 else n

/-- The units of a quantifier behind a group, if there is one. -/
def groupQuantLength (s : JsString) : ℕ :=
  if isQuantAt s then quantLength s else if starts s '?' then 1 else 0

/-- What a group that is closed before `s` adds per unbounded quantifier in it. -/
def factor (s : JsString) : ℕ :=
  match isQuantAt s && !isRepeatAt s, bracesAt s with
  | true, some (n, _) =>
    max 1 (min (n.foldl (fun value u => value * 10 + (u.toNat - 48)) 0) 100)
  | _, _ => 1

/-! ## One step -/

/-- The units of a class up to its closing bracket. -/
def toClosing : JsString → ℕ
  | [] => 0
  | c :: s =>
    if c = unit ']' then 0
    else if c = unit '\\' then
      match s with
      | [] => 2
      | _ :: s' => toClosing s' + 2
    else toClosing s + 1

/-- The units of a class from its opening bracket on. -/
def classLength (s : JsString) : ℕ :=
  let n := if starts (s.drop 1) '^' then 2 else 1
  let n := if starts (s.drop n) ']' then n + 1 else n
  n + toClosing (s.drop n) + 1

def endBranch (pattern : JsString) (st : Scan) : Scan :=
  let trailing := 0 < st.branchUnbounded ∧ st.lastTopLevelUnboundedEnd = some st.i
  let n := if trailing then st.branchUnbounded - 1 else st.branchUnbounded
  let budget := maxUnboundedQuantifiers +
    if pattern[st.branchStart]? = some (unit '^') then 1 else 0
  { st with
    overBudget := st.overBudget || budget < n
    branchUnbounded := 0
    branchStart := st.i + 1
    lastTopLevelUnboundedEnd := none }

/-- An unbounded quantifier that ends at `j` counts for the branch, or for the group that is open.
-/
def countUnbounded (j : ℕ) (group : Group) (below : List Group) (st : Scan) : Scan :=
  if below = [] then
    { st with
      stack := group :: below
      branchUnbounded := st.branchUnbounded + 1
      lastTopLevelUnboundedEnd := some j }
  else { st with stack := { group with unb := group.unb + 1 } :: below }

theorem rest_countUnbounded (j : ℕ) (g : Group) (below : List Group) (st : Scan) :
    (countUnbounded j g below st).rest = st.rest := by
  unfold countUnbounded
  split_ifs <;> rfl

/-- `)` closes `inner`; `after` is what follows it. -/
def closeGroup (after : JsString) (inner : Group) (outer : List Group) (st : Scan) :
    Except Stop Scan :=
  if isRepeatAt after ∧ inner.quant then
    throw (.refused "Nested quantifiers (e.g. \"(a+)+\") are not allowed")
  else if isRepeatAt after ∧ inner.alt then
    throw (.refused "A repeated group may not contain alternation (e.g. \"(a|aa)+\")")
  else
    match outer with
    | [] => throw .thrown
    | parent :: below =>
      let rolled := inner.unb * factor after
      let group : Group :=
        { parent with
          quant := parent.quant || isRepeatAt after || inner.quant
          unb := parent.unb + rolled }
      let length := groupQuantLength after
      let st := { st with
        stack := group :: below
        branchUnbounded := st.branchUnbounded + if below = [] then rolled else 0 }
      let st :=
        if isUnboundedAt after then countUnbounded (st.i + 1 + length) group below st else st
      return st.advance (1 + length)

/-- A quantifier that follows no group. -/
def quantify (st : Scan) : Except Stop Scan :=
  match st.stack with
  | [] => throw .thrown
  | top :: below =>
    let group := { top with quant := top.quant || isRepeatAt st.rest }
    let length := quantLength st.rest
    let st' := if isUnboundedAt st.rest then countUnbounded (st.i + length) group below st
      else { st with stack := group :: below }
    return st'.advance length

def step (pattern : JsString) (st : Scan) : Except Stop Scan :=
  match st.rest with
  | [] => return st
  | c :: s =>
    if c = unit '\\' then
      if s.head?.any isNonzeroDigit ∨ (starts s 'k' ∧ starts (s.drop 1) '<') then
        throw (.refused "Backreferences are not allowed")
      else return st.advance 2
    else if c = unit '[' then return st.advance (classLength st.rest)
    else if c = unit '(' then return { st with stack := emptyGroup :: st.stack }.advance 1
    else if c = unit '|' then
      match st.stack with
      | [] => throw .thrown
      | top :: below =>
        let st := { st with stack := { top with alt := true } :: below }
        return (if below = [] then endBranch pattern st else st).advance 1
    else if c = unit ')' then closeGroup s (st.stack.head?.getD emptyGroup) st.stack.tail st
    else if isQuantAt st.rest then quantify st
    else return st.advance 1

/-- The loop, with fuel for each unit left. -/
def scan (pattern : JsString) : ℕ → Scan → Except Stop Scan
  | 0, st => if st.rest = [] then return st else throw .outOfFuel
  | fuel + 1, st => if st.rest = [] then return st else step pattern st >>= scan pattern fuel

/-! ## Fuel -/

section Fuel

variable {pattern : JsString} {st st' : Scan}

theorem quantLength_pos (s : JsString) : 0 < quantLength s := by
  dsimp only [quantLength]
  split_ifs <;> exact Nat.succ_pos _

theorem closeGroup_rest {after : JsString} {inner : Group} {outer : List Group}
    (h : closeGroup after inner outer st = .ok st') :
    st'.rest = st.rest.drop (1 + groupQuantLength after) := by
  unfold closeGroup at h
  split at h
  · cases h
  split at h
  · cases h
  cases outer with
  | nil => cases h
  | cons parent below =>
    obtain rfl := Except.ok.inj h
    rw [rest_advance]
    by_cases hunb : isUnboundedAt after = true
    · rw [if_pos hunb, rest_countUnbounded]
    · rw [if_neg hunb]

theorem quantify_rest (h : quantify st = .ok st') :
    st'.rest = st.rest.drop (quantLength st.rest) := by
  unfold quantify at h
  cases hstack : st.stack with
  | nil =>
    rw [hstack] at h
    cases h
  | cons top below =>
    rw [hstack] at h
    obtain rfl := Except.ok.inj h
    rw [rest_advance]
    split
    · rw [rest_countUnbounded]
    · rfl

/-- A step takes at least one unit. -/
theorem step_rest {c : UInt16} {s : JsString} (hrest : st.rest = c :: s)
    (h : step pattern st = .ok st') : st'.rest.length < st.rest.length := by
  suffices hdrop : ∃ n, 0 < n ∧ st'.rest = st.rest.drop n by
    obtain ⟨n, hn, hdrop⟩ := hdrop
    rw [hdrop, List.length_drop, hrest, List.length_cons]
    omega
  obtain ⟨rest, i, stack, unbounded, first, isOver, last⟩ := st
  obtain rfl : rest = c :: s := hrest
  dsimp only [step] at h
  split_ifs at h with h1 h2 h3 h4 h5 h6 h7
  · obtain rfl := Except.ok.inj h
    exact ⟨2, by omega, rfl⟩
  · obtain rfl := Except.ok.inj h
    exact ⟨classLength (c :: s), Nat.succ_pos _, rfl⟩
  · obtain rfl := Except.ok.inj h
    exact ⟨1, by omega, rfl⟩
  · cases stack with
    | nil => cases h
    | cons top below =>
      obtain rfl := Except.ok.inj h
      refine ⟨1, by omega, ?_⟩
      rw [rest_advance]
      split <;> rfl
  · exact ⟨_, by omega, closeGroup_rest h⟩
  · exact ⟨_, quantLength_pos _, quantify_rest h⟩
  · obtain rfl := Except.ok.inj h
    exact ⟨1, by omega, rfl⟩

theorem closeGroup_ne_outOfFuel {after : JsString} {inner : Group} {outer : List Group} :
    closeGroup after inner outer st ≠ .error .outOfFuel := by
  unfold closeGroup
  split
  · exact fun h => by cases h
  split
  · exact fun h => by cases h
  cases outer <;> exact fun h => by cases h

theorem quantify_ne_outOfFuel : quantify st ≠ .error .outOfFuel := by
  unfold quantify
  cases st.stack <;> exact fun h => by cases h

theorem step_ne_outOfFuel : step pattern st ≠ .error .outOfFuel := by
  unfold step
  split
  · exact fun h => by cases h
  · split_ifs
    all_goals first
      | exact closeGroup_ne_outOfFuel
      | exact quantify_ne_outOfFuel
      | exact fun h => by cases h
      | (cases st.stack <;> exact fun h => by cases h)

/-- A pattern has fuel for each of its units. -/
theorem scan_ne_outOfFuel : ∀ (fuel : ℕ) {st : Scan}, st.rest.length ≤ fuel →
    scan pattern fuel st ≠ .error .outOfFuel
  | 0, st, hfuel => by
    have hrest : st.rest = [] := List.length_eq_zero_iff.mp (Nat.le_zero.mp hfuel)
    rw [scan, if_pos hrest]
    exact fun h => by cases h
  | fuel + 1, st, hfuel => by
    rw [scan]
    split_ifs with hrest
    · exact fun h => by cases h
    · intro h
      obtain ⟨c, s, hcons⟩ := List.exists_cons_of_ne_nil hrest
      cases hstep : step pattern st with
      | error stop =>
        rw [hstep] at h
        cases h
        exact step_ne_outOfFuel hstep
      | ok st' =>
        have hlength := step_rest hcons hstep
        rw [hstep] at h
        exact scan_ne_outOfFuel fuel (by omega) h

end Fuel

/-! ## The check -/

structure RegexSafetyResult where
  safe : Bool
  reason : Option String
  deriving DecidableEq

def start (pattern : JsString) : Scan := ⟨pattern, 0, [emptyGroup], 0, 0, false, none⟩

def checked (pattern : JsString) : Except Stop Unit :=
  if pattern.length = 0 then throw (.refused "Pattern is empty")
  else if maxPatternLength < pattern.length then
    throw (.refused s!"Pattern longer than {maxPatternLength} characters")
  else do
    let st ← scan pattern pattern.length (start pattern)
    if (endBranch pattern st).overBudget then
      throw (.refused (s!"At most {maxUnboundedQuantifiers} unbounded quantifiers " ++
        "(*, +, \x7bn,\x7d) are allowed per alternative " ++
        "(one more if it starts with ^; a trailing one is free)"))
    else return ()

/-- An error is one that is thrown. -/
def checkRegexSafety (pattern : JsString) : Except Stop RegexSafetyResult :=
  match checked pattern with
  | .ok _ => .ok ⟨true, none⟩
  | .error (.refused reason) => .ok ⟨false, some reason⟩
  | .error stop => .error stop

example : ["^AMZN", "(?:visa|mc) purchase", "(a+)+$", "(\\w+\\s?)*$", "(x)\\1", "([+*])+",
    "a*a*a*b", ".*amazon.*|.*amzn.*", "^AMZN.*MKTP.*US.*", "(\\d+){4}"].map
      (fun p => (checkRegexSafety (jsString p)).toOption.map (·.safe)) =
    [true, true, false, false, false, true, false, true, true, false].map some := by
  decide +kernel

end SafeRegex

end MyBooks
