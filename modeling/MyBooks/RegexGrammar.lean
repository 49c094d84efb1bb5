import MyBooks.CanonicalJson

/-!
# Patterns of ECMAScript

The patterns of a regular expression without the `u` flag, as Annex B has them. A disjunction is its
terms and bars in order. Of the early errors only those that say which text is a quantifier are
here, so that every pattern that compiles has a tree, and its text is the pattern.
-/

namespace MyBooks

/-- The code unit of a character of the basic plane. -/
def unit (c : Char) : UInt16 := c.toNat.toUInt16

namespace Regex

def isDigit (u : UInt16) : Bool := 48 ≤ u.toNat && u.toNat ≤ 57

def isHex (u : UInt16) : Bool :=
  isDigit u || (65 ≤ u.toNat && u.toNat ≤ 70) || (97 ≤ u.toNat && u.toNat ≤ 102)

def isLetter (u : UInt16) : Bool :=
  (65 ≤ u.toNat && u.toNat ≤ 90) || (97 ≤ u.toNat && u.toNat ≤ 122)

/-! ## Quantifiers -/

/-- `{n}` has no bound, `{n,}` an empty one. -/
inductive Mark
  | star
  | plus
  | optional
  | braces (n : JsString) (bound : Option JsString)

structure Quantifier where
  mark : Mark
  lazy : Bool

def bracesText (n : JsString) (bound : Option JsString) : JsString :=
  unit '{' :: n ++ bound.elim [] (unit ',' :: ·) ++ [unit '}']

def Mark.text : Mark → JsString
  | .star => [unit '*']
  | .plus => [unit '+']
  | .optional => [unit '?']
  | .braces n bound => bracesText n bound

def Quantifier.text (q : Quantifier) : JsString := q.mark.text ++ if q.lazy then [unit '?'] else []

def quantifierText (q : Option Quantifier) : JsString := q.elim [] Quantifier.text

/-- Decimal digits on both sides, and at least one before the comma. -/
def BracesWf (n : JsString) (bound : Option JsString) : Prop :=
  n ≠ [] ∧ (∀ u ∈ n, isDigit u) ∧ ∀ m ∈ bound, ∀ u ∈ m, isDigit u

def Quantifier.Wf (q : Quantifier) : Prop := ∀ n bound, q.mark = .braces n bound → BracesWf n bound

/-- `*`, `+`, `{n,}` and `{n,m}` -/
def Quantifier.repeats (q : Quantifier) : Bool :=
  match q.mark with
  | .star | .plus | .braces _ (some _) => true
  | .optional | .braces _ none => false

/-! ## Atoms -/

/-- A unit of a group's name. Which letters a name may have is not told apart. -/
inductive NameUnit
  | unit (u : UInt16)
  | escape (hex : JsString)
  | codePoint (hex : JsString)

def NameUnit.text : NameUnit → JsString
  | .unit u => [u]
  | .escape hex => jsString "\\u" ++ hex
  | .codePoint hex => jsString "\\u\x7b" ++ hex ++ [MyBooks.unit '}']

def isNameUnit (u : UInt16) : Bool :=
  isLetter u || isDigit u || u = unit '$' || u = unit '_' || 128 ≤ u.toNat

def NameUnit.Wf : NameUnit → Prop
  | .unit u => isNameUnit u
  | .escape hex => hex.length = 4 ∧ ∀ u ∈ hex, isHex u
  | .codePoint hex => hex ≠ [] ∧ ∀ u ∈ hex, isHex u

def groupName (name : List NameUnit) : JsString :=
  unit '<' :: name.flatMap NameUnit.text ++ [unit '>']

/-- What follows a backslash. A `decimal` is a backreference, or octal if no group has its number.
A `\c` before no letter is taken as one atom. -/
inductive Escape
  | decimal (first : UInt16) (more : JsString)
  | named (name : List NameUnit)
  | octal (more : JsString)
  | control (letter : UInt16)
  | hex (digits : JsString)
  | unicode (digits : JsString)
  | single (u : UInt16)

def Escape.text : Escape → JsString
  | .decimal first more => first :: more
  | .named name => unit 'k' :: groupName name
  | .octal more => unit '0' :: more
  | .control letter => [unit 'c', letter]
  | .hex digits => unit 'x' :: digits
  | .unicode digits => unit 'u' :: digits
  | .single u => [u]

def Escape.refers : Escape → Bool
  | .decimal _ _ | .named _ => true
  | _ => false

def isNonzeroDigit (u : UInt16) : Bool := 49 ≤ u.toNat && u.toNat ≤ 57

def Escape.Wf : Escape → Prop
  | .decimal first more => isNonzeroDigit first ∧ ∀ u ∈ more, isDigit u
  | .named name => name ≠ [] ∧ ∀ n ∈ name, n.Wf
  | .octal more => more.length ≤ 2 ∧ ∀ u ∈ more, 48 ≤ u.toNat ∧ u.toNat ≤ 55
  | .control letter => isLetter letter
  | .hex digits => digits.length = 2 ∧ ∀ u ∈ digits, isHex u
  | .unicode digits => digits.length = 4 ∧ ∀ u ∈ digits, isHex u
  | .single u => ¬isNonzeroDigit u

/-- In a class, ranges and longer escapes are not told apart. -/
inductive ClassMember
  | unit (u : UInt16)
  | escape (u : UInt16)

def ClassMember.text : ClassMember → JsString
  | .unit u => [u]
  | .escape u => [MyBooks.unit '\\', u]

def ClassMember.Wf : ClassMember → Prop
  | .unit u => u ≠ MyBooks.unit ']' ∧ u ≠ MyBooks.unit '\\'
  | .escape _ => True

inductive Atom
  | any
  | char (u : UInt16)
  | escape (e : Escape)
  | charClass (negated : Bool) (members : List ClassMember)

def Atom.text : Atom → JsString
  | .any => [unit '.']
  | .char u => [u]
  | .escape e => unit '\\' :: e.text
  | .charClass negated members =>
    unit '[' :: (if negated then [unit '^'] else []) ++ members.flatMap ClassMember.text ++
      [unit ']']

def reserved : List UInt16 := "^$\\.*+?()[|".toList.map unit

/-- Whether an atom may stand before `follow`: braces that are a quantifier are no characters. -/
def Atom.Wf (follow : JsString) : Atom → Prop
  | .any => True
  | .char u => u ∉ reserved ∧ ∀ n bound, BracesWf n bound → ¬bracesText n bound <+: u :: follow
  | .escape e => e.Wf
  | .charClass negated members =>
    (∀ m ∈ members, m.Wf) ∧ (negated = false → (members.flatMap ClassMember.text).head? ≠ unit '^')

/-! ## Disjunctions -/

/-- The assertions no quantifier follows. -/
inductive Assertion
  | start
  | stop
  | boundary (inside : Bool)

def Assertion.text : Assertion → JsString
  | .start => [unit '^']
  | .stop => [unit '$']
  | .boundary inside => [unit '\\', if inside then unit 'B' else unit 'b']

inductive GroupKind
  | capture
  | named (name : List NameUnit)
  | uncaptured
  | modifiers (add : JsString) (remove : Option JsString)
  | lookahead (negative : Bool)
  | lookbehind (negative : Bool)

/-- What stands between the bracket and the disjunction. -/
def GroupKind.text : GroupKind → JsString
  | .capture => []
  | .named name => unit '?' :: groupName name
  | .uncaptured => jsString "?:"
  | .modifiers add remove => unit '?' :: add ++ remove.elim [] (unit '-' :: ·) ++ [unit ':']
  | .lookahead negative => jsString (if negative then "?!" else "?=")
  | .lookbehind negative => jsString (if negative then "?<!" else "?<=")

def GroupKind.Wf : GroupKind → Prop
  | .named name => name ≠ [] ∧ ∀ n ∈ name, n.Wf
  | .modifiers add remove =>
    (∀ u ∈ add, u ∈ jsString "ims") ∧ ∀ m ∈ remove, ∀ u ∈ m, u ∈ jsString "ims"
  | _ => True

inductive Disjunction
  | nil
  | bar (rest : Disjunction)
  | assertion (a : Assertion) (rest : Disjunction)
  | atom (a : Atom) (q : Option Quantifier) (rest : Disjunction)
  | group (kind : GroupKind) (body : Disjunction) (q : Option Quantifier) (rest : Disjunction)

namespace Disjunction

def text : Disjunction → JsString
  | nil => []
  | bar rest => unit '|' :: rest.text
  | assertion a rest => a.text ++ rest.text
  | atom a q rest => a.text ++ (quantifierText q ++ rest.text)
  | group kind body q rest =>
    unit '(' :: kind.text ++ (body.text ++ unit ')' :: (quantifierText q ++ rest.text))

/-- Whether a disjunction may stand before `follow`. -/
def Wf (follow : JsString) : Disjunction → Prop
  | nil => True
  | bar rest => rest.Wf follow
  | assertion _ rest => rest.Wf follow
  | atom a q rest =>
    a.Wf (quantifierText q ++ (rest.text ++ follow)) ∧ (∀ m ∈ q, m.Wf) ∧ rest.Wf follow
  | group kind body q rest =>
    kind.Wf ∧ body.Wf (unit ')' :: (quantifierText q ++ (rest.text ++ follow))) ∧
      (∀ m ∈ q, m.Wf) ∧ ((∃ negative, kind = .lookbehind negative) → q = none) ∧ rest.Wf follow

/-- A pattern's tree. -/
def IsTreeOf (t : Disjunction) (pattern : JsString) : Prop := t.Wf [] ∧ t.text = pattern

def repeated (q : Option Quantifier) : Bool := q.any Quantifier.repeats

/-- Something in it, at any depth, is repeated. -/
def repeats : Disjunction → Bool
  | nil => false
  | bar rest => rest.repeats
  | assertion _ rest => rest.repeats
  | atom _ q rest => repeated q || rest.repeats
  | group _ body q rest => repeated q || body.repeats || rest.repeats

/-- It has alternatives itself. -/
def alternates : Disjunction → Bool
  | nil => false
  | bar _ => true
  | assertion _ rest => rest.alternates
  | atom _ _ rest => rest.alternates
  | group _ _ _ rest => rest.alternates

/-- A group in it, at any depth, has alternatives. -/
def groupAlternates : Disjunction → Bool
  | nil => false
  | bar rest => rest.groupAlternates
  | assertion _ rest => rest.groupAlternates
  | atom _ _ rest => rest.groupAlternates
  | group _ body _ rest => body.alternates || body.groupAlternates || rest.groupAlternates

/-- No repeated group holds a repeat or alternatives, at any depth, and nothing refers back. -/
def NoNestedRepeat : Disjunction → Prop
  | nil => True
  | bar rest => rest.NoNestedRepeat
  | assertion _ rest => rest.NoNestedRepeat
  | atom a _ rest => (∀ e, a = .escape e → ¬Escape.refers e) ∧ rest.NoNestedRepeat
  | group _ body q rest =>
    (repeated q → ¬body.repeats ∧ ¬body.alternates ∧ ¬body.groupAlternates) ∧
      body.NoNestedRepeat ∧ rest.NoNestedRepeat

end Disjunction

end Regex

end MyBooks
