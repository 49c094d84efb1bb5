import MyBooks.CodePoints
import MyBooks.DecimalText
import MyBooks.Entries
import MyBooks.Rounding

/-!
# Dedupe keys of imported rows

A row of a bank file gets the key `v1|row|` with its date, amount, normalized description and its
number among the rows equal in these, or `v1|fitid|` with its bank id. Unicode normalization (`nfc`)
and the digest (`sha256`) are the library's. Where `nfc` keeps surrogates paired, so does `norm`
(`paired_norm`).
-/

namespace MyBooks

/-- A date by its four, two and two digits. -/
structure IsoDate where
  y : ℕ
  m : ℕ
  d : ℕ
  deriving DecidableEq, Repr

def IsoDate.text (x : IsoDate) : Text :=
  padded 4 x.y ++ '-' :: padded 2 x.m ++ '-' :: padded 2 x.d

/-- Dates compare as their texts. -/
def IsoDate.rank (x : IsoDate) : ℕ ×ₗ ℕ ×ₗ ℕ := toLex (x.y, toLex (x.m, x.d))

namespace ImportKeys

def NORM_MAX_CODE_POINTS : ℕ := 500

/-- TAB, LF, VT, FF, CR, SPACE and NO-BREAK SPACE. -/
def isSpace (u : ℕ) : Bool :=
  u = 9 || u = 10 || u = 11 || u = 12 || u = 13 || u = 32 || u = 160

/-- Only the ASCII letters change case. -/
def upper (u : ℕ) : ℕ := if 97 ≤ u ∧ u ≤ 122 then u - 32 else u

/-- Every run of spaces as one space; `inRun` after a space. -/
def collapse : Bool → CodeUnits → CodeUnits
  | _, [] => []
  | inRun, u :: us =>
    if isSpace u then if inRun then collapse true us else 32 :: collapse true us
    else u :: collapse false us

def trimEnd : CodeUnits → CodeUnits
  | [] => []
  | u :: us =>
    match trimEnd us with
    | [] => if isSpace u then [] else [u]
    | v :: vs => u :: v :: vs

def trimWs (s : CodeUnits) : CodeUnits := trimEnd (s.dropWhile isSpace)

variable (nfc sha256 : CodeUnits → CodeUnits)

def norm (s : CodeUnits) : CodeUnits :=
  let collapsed := trimWs (collapse false ((nfc s).map upper))
  if NORM_MAX_CODE_POINTS < (codePoints collapsed).length then cutTo NORM_MAX_CODE_POINTS collapsed
  else collapsed

def canonicalAmount (amount : ℚ) : ℚ := toPlaces 2 amount

/-- The canonical wire amount, exactly two places. -/
def amountText (canonical : ℚ) : Text :=
  (DecimalText.fixed (canonical < 0) (roundHalfUp (|canonical| * 100)).toNat 2).text

def rowGroup (date : IsoDate) (canonical : ℚ) (normDescription : CodeUnits) : CodeUnits :=
  units (date.text ++ '|' :: amountText canonical ++ ['|']) ++ normDescription

def rowKey (date : IsoDate) (canonical : ℚ) (normDescription : CodeUnits) (ordinal : ℕ) :
    CodeUnits :=
  sha256 (units "v1|row|".toList ++ rowGroup date canonical normDescription ++
    units ('|' :: Nat.toDigits 10 ordinal))

def fitidKey (fitid : CodeUnits) : CodeUnits := sha256 (units "v1|fitid|".toList ++ trimWs fitid)

structure KeyedRow where
  canonicalAmount : ℚ
  normDescription : CodeUnits
  ordinal : ℕ
  rowKey : CodeUnits
  deriving DecidableEq

/-- What the keys of a row are made of. -/
structure KeyParts where
  date : IsoDate
  amount : ℚ
  description : CodeUnits

/-- Keys for every row, in order; `seen` counts the rows of each group so far. -/
def keyRowsFrom : Entries CodeUnits ℕ → List KeyParts → List KeyedRow
  | _, [] => []
  | seen, r :: rows =>
    let canonical := canonicalAmount r.amount
    let d := norm nfc r.description
    let group := rowGroup r.date canonical d
    let ordinal := (seen.get? group).getD 0 + 1
    ⟨canonical, d, ordinal, rowKey sha256 r.date canonical d ordinal⟩ ::
      keyRowsFrom (seen.set group ordinal) rows

def keyRows (rows : List KeyParts) : List KeyedRow := keyRowsFrom nfc sha256 [] rows

/-- Trimmed, or none when absent or blank. -/
def cleanFitid (fitid : Option CodeUnits) : Option CodeUnits :=
  (fitid.map trimWs).filter (· ≠ [])

example : norm id (units " Café  de\tParis ".toList) = units "CAFé DE PARIS".toList := by decide

section Paired

variable {s : CodeUnits}

theorem isSpace_of_surrogate {u : ℕ} (h : isHighSurrogate u = true ∨ isLowSurrogate u = true) :
    isSpace u = false := by
  simp only [isHighSurrogate, isLowSurrogate, Bool.and_eq_true_iff, decide_eq_true_eq] at h
  simp only [isSpace, Bool.or_eq_false_iff, decide_eq_false_iff_not]
  omega

theorem upper_of_surrogate {u : ℕ} (h : isHighSurrogate u = true ∨ isLowSurrogate u = true) :
    upper u = u := by
  simp only [isHighSurrogate, isLowSurrogate, Bool.and_eq_true_iff, decide_eq_true_eq] at h
  exact if_neg (by omega)

theorem not_surrogate_upper {u : ℕ} (hu : isHighSurrogate u = false)
    (hl : isLowSurrogate u = false) :
    isHighSurrogate (upper u) = false ∧ isLowSurrogate (upper u) = false := by
  unfold upper
  split_ifs with h
  · simp only [isHighSurrogate, isLowSurrogate, Bool.and_eq_false_iff, decide_eq_false_iff_not]
    omega
  · exact ⟨hu, hl⟩

theorem paired_upper (h : Paired s) : Paired (s.map upper) := by
  induction h with
  | nil => exact .nil
  | unit hu hl _ ih =>
    have := not_surrogate_upper hu hl
    exact .unit this.1 this.2 ih
  | pair hu hl _ ih =>
    rw [List.map_cons, List.map_cons, upper_of_surrogate (.inl hu), upper_of_surrogate (.inr hl)]
    exact .pair hu hl ih

theorem paired_collapse (h : Paired s) (inRun : Bool) : Paired (collapse inRun s) := by
  induction h generalizing inRun with
  | nil => exact .nil
  | unit hu hl _ ih =>
    rw [collapse]
    split_ifs
    · exact ih true
    · exact .unit rfl rfl (ih true)
    · exact .unit hu hl (ih false)
  | pair hu hl _ ih =>
    simp only [collapse, isSpace_of_surrogate (.inl hu), isSpace_of_surrogate (.inr hl)]
    exact .pair hu hl (ih false)

theorem paired_dropWhile (h : Paired s) : Paired (s.dropWhile isSpace) := by
  induction h with
  | nil => exact .nil
  | unit hu hl hs ih =>
    rw [List.dropWhile_cons]
    split_ifs
    · exact ih
    · exact .unit hu hl hs
  | pair hu hl hs _ =>
    rw [List.dropWhile_cons, isSpace_of_surrogate (.inl hu)]
    exact .pair hu hl hs

theorem paired_trimEnd (h : Paired s) : Paired (trimEnd s) := by
  induction h with
  | nil => exact .nil
  | @unit u us hu hl _ ih =>
    rw [trimEnd]
    rcases ht : trimEnd us with _ | ⟨v, vs⟩
    · simp only []
      split_ifs
      · exact .nil
      · exact .unit hu hl .nil
    · rw [ht] at ih
      exact .unit hu hl ih
  | @pair u v us hu hl _ ih =>
    have hkept : trimEnd (v :: us) = v :: trimEnd us := by
      rw [trimEnd]
      rcases trimEnd us with _ | ⟨w, ws⟩
      · simp [isSpace_of_surrogate (.inr hl)]
      · rfl
    rw [trimEnd, hkept]
    exact .pair hu hl ih

theorem paired_norm {nfc : CodeUnits → CodeUnits} (h : Paired (nfc s)) : Paired (norm nfc s) := by
  have hc : Paired (trimWs (collapse false ((nfc s).map upper))) :=
    paired_trimEnd (paired_dropWhile (paired_collapse (paired_upper h) false))
  simp only [norm]
  split_ifs
  · exact hc.cutTo _
  · exact hc

end Paired

end ImportKeys

end MyBooks
