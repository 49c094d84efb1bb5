import MyBooks.JsonText
import MyBooks.PaddedText
import MyBooks.Result
import MyBooks.Rounding
import Mathlib.Data.List.DropRight
import Mathlib.Data.Rat.Lemmas

/-!
# The amount calculator

A recursive-descent parser over exact fractions. The nesting that is left bounds the recursion of
`unary`, and the loops end when the tokens do. Every fraction is in lowest terms, so it is the text
of a rational number (`norm_eq`).
-/

namespace MyBooks

namespace Expression

/-! ## Fractions -/

structure Rational where
  n : ℤ
  d : ℤ
  deriving DecidableEq

def norm (n d : ℤ) : Rational :=
  let (n, d) := if d < 0 then (-n, -d) else (n, d)
  let g : ℤ := Int.gcd n d
  if 1 < g then ⟨n.tdiv g, d.tdiv g⟩ else ⟨n, d⟩

def ofRat (q : ℚ) : Rational := ⟨q.num, q.den⟩

theorem ofRat_of_coprime {n d : ℤ} (hd : 0 < d) (h : Int.gcd n d = 1) :
    (⟨n, d⟩ : Rational) = ofRat (n / d) := by
  rw [ofRat, Rat.num_div_eq_of_coprime hd h, Rat.den_div_eq_of_coprime hd h]

theorem norm_eq_of_pos {n d : ℤ} (hd : 0 < d) : norm n d = ofRat (n / d) := by
  rw [norm, if_neg (by omega)]
  dsimp only
  have hg : 0 < Int.gcd n d := Int.gcd_pos_of_ne_zero_right n hd.ne'
  split_ifs with h
  · have hne : (Int.gcd n d : ℚ) ≠ 0 := by exact_mod_cast hg.ne'
    rw [Int.tdiv_eq_ediv_of_dvd (Int.gcd_dvd_left n d),
      Int.tdiv_eq_ediv_of_dvd (Int.gcd_dvd_right n d),
      ofRat_of_coprime (Int.ediv_pos_of_pos_of_dvd hd (by omega) (Int.gcd_dvd_right n d))
        (Int.gcd_ediv_gcd_ediv_gcd hg),
      Int.cast_div (Int.gcd_dvd_left n d) (by exact_mod_cast hg.ne'),
      Int.cast_div (Int.gcd_dvd_right n d) (by exact_mod_cast hg.ne')]
    congr 1
    push_cast
    exact div_div_div_cancel_right₀ hne _ _
  · exact ofRat_of_coprime hd (by omega)

theorem norm_eq {n d : ℤ} (hd : d ≠ 0) : norm n d = ofRat (n / d) := by
  rcases lt_or_gt_of_ne hd with h | h
  · have hneg : norm n d = norm (-n) (-d) := by
      rw [norm, norm, if_pos h, if_neg (by omega)]
    rw [hneg, norm_eq_of_pos (by omega)]
    push_cast
    rw [neg_div_neg_eq]
  · exact norm_eq_of_pos h

/-! ## Tokens -/

inductive Op
  | plus
  | minus
  | times
  | divide
  | percent
  | open
  | close
  deriving DecidableEq

inductive Tok
  | num (v : Rational)
  | op (v : Op)
  deriving DecidableEq

/-- `OP_MAP` -/
def opOf : Char → Option Op
  | '+' => some .plus
  | '-' | '−' | '–' => some .minus
  | '*' | 'x' | 'X' | '×' => some .times
  | '/' | '÷' => some .divide
  | '%' => some .percent
  | '(' => some .open
  | ')' => some .close
  | _ => none

/-- `\d{1,3}(?:,\d{3})+|\d*` -/
def isWhole (t : List Char) : Bool :=
  match t.splitOn ',' with
  | [] => false
  | [p] => p.all Char.isDigit
  | p :: ps => p.all Char.isDigit && 1 ≤ p.length && p.length ≤ 3 &&
    ps.all fun q => q.all Char.isDigit && q.length = 3

def notANumber (raw : List Char) : String := "\"" ++ String.ofList raw ++ "\" isn't a valid number"

def parseNumberToken (raw : List Char) : Except String Rational :=
  let whole := raw.takeWhile (· ≠ '.')
  let frac := (raw.dropWhile (· ≠ '.')).tail
  if isWhole whole && frac.all Char.isDigit && !(whole = [] && frac = []) then
    .ok (norm (digitsValue (whole.filter (· ≠ ',') ++ frac)) (10 ^ frac.length))
  else .error (notANumber raw)

/-- `/[\d.,]/` -/
def isNumeral (c : Char) : Bool := c.isDigit || c = '.' || c = ','

def isBlank (c : Char) : Bool := c = ' ' || c = '\t' || c = '\u00a0'

def tokenize : ℕ → List Char → Except String (List Tok)
  | _, [] => .ok []
  | 0, _ => .ok []
  | i + 1, c :: src =>
    if isBlank c then tokenize i src
    else if c = '$' then
      if (src.head?.any fun c => c.isDigit || c = '.') then tokenize i src
      else .error "\"$\" must be followed by a number"
    else if isNumeral c then
      let raw := c :: src.takeWhile isNumeral
      if c = ',' then .error (notANumber raw)
      else do
        let v ← parseNumberToken raw
        let out ← tokenize i (src.dropWhile isNumeral)
        .ok (.num v :: out)
    else
      match opOf c with
      | none => .error ("Unexpected \"" ++ c.toString ++ "\"")
      | some op => do
        let out ← tokenize i src
        .ok (.op op :: out)

/-! ## The parser -/

/-- `pct` marks a value whose outermost operator is a postfix `%`. -/
structure Term where
  v : Rational
  pct : Bool
  deriving DecidableEq

abbrev Parse (α : Type) := List Tok → Except String (α × List Tok)

def tooDeep {α : Type} : Parse α := fun _ => .error "Expression is nested too deeply"

def primary (group : Parse Rational) : Parse Rational
  | [] => .error "Incomplete expression"
  | .num v :: toks => .ok (v, toks)
  | .op .open :: toks => do
    let (v, toks) ← group toks
    match toks with
    | .op .close :: toks => .ok (v, toks)
    | _ => .error "Missing \")\""
  | _ => .error "Incomplete or invalid expression"

/-- The loop over the percent signs. -/
def percents : List Tok → Rational → Bool → Term × List Tok
  | .op .percent :: toks, v, _ => percents toks (norm v.n (v.d * 100)) true
  | toks, v, pct => (⟨v, pct⟩, toks)

def postfixed (group : Parse Rational) : Parse Term := fun toks => do
  let (v, toks) ← primary group toks
  .ok (percents toks v false)

/-- `unary` with what it enters: the operand of a sign and the group in parentheses. -/
def unaryOf (signed : Parse Term) (group : Parse Rational) : Parse Term
  | .op .minus :: toks => do
    let (t, toks) ← signed toks
    .ok (⟨⟨-t.v.n, t.v.d⟩, t.pct⟩, toks)
  | .op .plus :: toks => signed toks
  | toks => postfixed group toks

def times (left right : Rational) : Rational := norm (left.n * right.n) (left.d * right.d)
def plus (left right : Rational) : Rational :=
  norm (left.n * right.d + right.n * left.d) (left.d * right.d)
def minus (left right : Rational) : Rational :=
  norm (left.n * right.d - right.n * left.d) (left.d * right.d)

/-- The loop of `term`, with the tokens that are left at most, and whether it saw an operator. -/
def factors (unary : Parse Term) : ℕ → Rational → Bool → Parse (Rational × Bool)
  | i + 1, left, _, .op .times :: toks => do
    let (right, toks) ← unary toks
    factors unary i (times left right.v) true toks
  | i + 1, left, _, .op .divide :: toks => do
    let (right, toks) ← unary toks
    if right.v.n = 0 then .error "Can't divide by zero"
    else factors unary i (norm (left.n * right.v.d) (left.d * right.v.n)) true toks
  | _, left, sawOp, toks => .ok ((left, sawOp), toks)

def term (unary : Parse Term) : Parse Term := fun toks => do
  let (first, toks) ← unary toks
  let ((left, sawOp), toks) ← factors unary toks.length first.v false toks
  .ok (⟨left, first.pct && !sawOp⟩, toks)

/-- 200+15% → 200 + (200 × 0.15) -/
def rightOf (left : Rational) (t : Term) : Rational := if t.pct then times left t.v else t.v

/-- The loop of `expr`, with the tokens that are left at most. -/
def terms (unary : Parse Term) : ℕ → Rational → Parse Rational
  | i + 1, left, .op .plus :: toks => do
    let (t, toks) ← term unary toks
    terms unary i (plus left (rightOf left t)) toks
  | i + 1, left, .op .minus :: toks => do
    let (t, toks) ← term unary toks
    terms unary i (minus left (rightOf left t)) toks
  | _, left, toks => .ok (left, toks)

def expr (unary : Parse Term) : Parse Rational := fun toks => do
  let (t, toks) ← term unary toks
  terms unary toks.length t.v toks

/-- The argument is the nesting that is left. -/
def unary : ℕ → Parse Term
  | 0 => unaryOf tooDeep tooDeep
  | k + 1 => unaryOf (unary k) (expr (unary k))

def MAX_DEPTH : ℕ := 32

def parse (toks : List Tok) : Except String Rational :=
  if toks = [] then .error "Enter a number"
  else do
    let (v, toks) ← expr (unary MAX_DEPTH) toks
    if toks = [] then .ok v else .error "Incomplete or invalid expression"

/-! ## Doubles -/

/-- To the nearest integer, halves to the even one. -/
def roundHalfEven (x : ℚ) : ℤ :=
  if x - ⌊x⌋ < 1 / 2 then ⌊x⌋
  else if 1 / 2 < x - ⌊x⌋ then ⌊x⌋ + 1
  else if ⌊x⌋ % 2 = 0 then ⌊x⌋ else ⌊x⌋ + 1

/-- The nearest double, or `none` for an infinity. -/
def toDouble (x : ℚ) : Option ℚ :=
  let ulp : ℚ := 2 ^ max (Int.log 2 |x| - 52) (-1074)
  let y := roundHalfEven (x / ulp) * ulp
  if |y| < 2 ^ 1024 then some y else none

/-- `Number(r.n) / Number(r.d)`, if that is finite. -/
def value (r : Rational) : Option ℚ :=
  match toDouble r.n, toDouble r.d with
  | some n, some d => toDouble (n / d)
  | some _, none => some 0
  | none, _ => none

def MAX_ABS_RESULT : ℚ := 10 ^ 15

/-! ## Formats -/

def formatFixed (r : Rational) (decimals : ℕ) : List Char :=
  let scaled := r.n.natAbs * 10 ^ decimals
  let q := scaled / r.d.toNat
  let rem := scaled % r.d.toNat
  let q := if r.d.toNat ≤ rem * 2 then q + 1 else q
  if q = 0 then if 0 < decimals then '0' :: '.' :: List.replicate decimals '0' else ['0']
  else
    let s := Nat.toDigits 10 q
    let s :=
      if 0 < decimals then
        let s := padStart (decimals + 1) s
        s.take (s.length - decimals) ++ '.' :: s.drop (s.length - decimals)
      else s
    if r.n < 0 then '-' :: s else s

/-- The loop `while (d % p === 0) { d /= p; places++; }`, with `d` as its bound. -/
def strip (p : ℕ) : ℕ → ℕ → ℕ × ℕ
  | 0, d => (d, 0)
  | i + 1, d =>
    if d % p = 0 then
      let (d, places) := strip p i (d / p)
      (d, places + 1)
    else (d, 0)

/-- `s.replace(/\.?0+$/, '')` -/
def trimZeros (s : List Char) : List Char :=
  if s.getLast? = some '0' then
    let s := s.rdropWhile (· = '0')
    if s.getLast? = some '.' then s.dropLast else s
  else s

def format (r : Rational) : Option ℤ → List Char
  | some decimals => formatFixed r (max 0 (min 10 decimals)).toNat
  | none =>
    let d := r.d.toNat
    let (d, tens) := strip 10 d d
    let (d, twos) := strip 2 d d
    let (d, fives) := strip 5 d d
    let s := formatFixed r (if d = 1 then tens + twos + fives else 10)
    if '.' ∈ s then trimZeros s else s

/-! ## The whole -/

def EXPRESSION_MAX_LENGTH : ℕ := 200

/-- The white space that `trim` removes. -/
def isTrimmed (c : Char) : Bool :=
  c ∈ [' ', '\t', '\n', '\x0b', '\x0c', '\r', '\u00a0', '\u1680', '\u2028', '\u2029', '\u202f',
    '\u205f', '\u3000', '\ufeff'] || ('\u2000' ≤ c && c ≤ '\u200a')

def trim (s : List Char) : List Char := (s.dropWhile isTrimmed).rdropWhile isTrimmed

/-- The text behind the `=` that a formula may start with. -/
def formula (src : List Char) : List Char :=
  if src.head? = some '=' then trim src.tail else src

def evaluateExpression (input : List Char) : Except String Rational := do
  let src := trim input
  if EXPRESSION_MAX_LENGTH < (src.flatMap utf16).length then .error "Expression is too long"
  else
    let src := formula src
    let toks ← tokenize src.length src
    let r ← parse toks
    match value r with
    | none => .error "Number is too large"
    | some v => if MAX_ABS_RESULT ≤ |v| then .error "Number is too large" else .ok r

end Expression

end MyBooks
