import Mathlib.Data.Rat.Floor
import Mathlib.Data.List.Lex
import Mathlib.Data.List.Perm.Basic
import Mathlib.Data.List.Sort
import Mathlib.Data.Prod.Lex
import MyBooks.Result

/-!
# JSON texts

A JSON text as its syntax tree with every character kept: the raw text of strings and literals, and
the separators as they stand. Objects can be put in an order of their keys, and what a text means
does not depend on it (`Json.value_sorted`).
-/

namespace MyBooks

abbrev Text := List Char

def isWs (c : Char) : Bool := c = ' ' || c = '\t' || c = '\n' || c = '\r'

/-- An item of an array, or a member of an object with its key and what stands between key and value.
The separator to the next one stands with it. -/
structure Part (α : Type) where
  key : Text
  colon : Text
  value : α
  sep : Text
  deriving DecidableEq, Repr

inductive Json
  | str (raw : Text)
  | lit (raw : Text)
  | node (isObject : Bool) (lead : Text) (parts : List (Part Json)) (tail : Text)

@[elab_as_elim]
theorem Json.induction {P : Json → Prop} (str : ∀ raw, P (.str raw)) (lit : ∀ raw, P (.lit raw))
    (node : ∀ isObject lead parts tail, (∀ p ∈ parts, P p.value) →
      P (.node isObject lead parts tail)) (j : Json) : P j := by
  refine @Json.rec P (fun ps => ∀ p ∈ ps, P p.value) (fun p => P p.value) str lit node ?_ ?_ ?_ j
  · exact fun p hp => absurd hp List.not_mem_nil
  · intro p ps hp hps q hq
    rcases List.mem_cons.mp hq with rfl | hq
    · exact hp
    · exact hps q hq
  · exact fun _ _ _ _ h => h

def opening (isObject : Bool) : Char := if isObject then '{' else '['
def closing (isObject : Bool) : Char := if isObject then '}' else ']'

/-- What stands before the value. -/
def head (isObject : Bool) (key colon : Text) : Text :=
  if isObject then '"' :: key ++ '"' :: colon else []

mutual

@[grind =] def Json.text : Json → Text
  | .str raw => '"' :: raw ++ ['"']
  | .lit raw => raw
  | .node isObject lead parts tail =>
    opening isObject :: lead ++ partsText isObject parts ++ tail ++ [closing isObject]

@[grind =] def partsText (isObject : Bool) : List (Part Json) → Text
  | [] => []
  | ⟨key, colon, value, sep⟩ :: ps =>
    head isObject key colon ++ value.text ++ sep ++ partsText isObject ps

end

/-! ## String literals -/

def hexVal (c : Char) : Option ℕ :=
  if '0' ≤ c ∧ c ≤ '9' then some (c.toNat - '0'.toNat)
  else if 'a' ≤ c ∧ c ≤ 'f' then some (c.toNat - 'a'.toNat + 10)
  else if 'A' ≤ c ∧ c ≤ 'F' then some (c.toNat - 'A'.toNat + 10)
  else none

def hex4 (a b c d : Char) : Option ℕ := do
  let a ← hexVal a
  let b ← hexVal b
  let c ← hexVal c
  let d ← hexVal d
  return a * 4096 + b * 256 + c * 16 + d

/-- The character an escape of two characters stands for. -/
def shortEscape : Char → Option Char
  | '"' => some '"'
  | '\\' => some '\\'
  | '/' => some '/'
  | 'b' => some '\x08'
  | 'f' => some '\x0c'
  | 'n' => some '\n'
  | 'r' => some '\r'
  | 't' => some '\t'
  | _ => none

/-- A character as code units of UTF-16. -/
def utf16 (c : Char) : List ℕ :=
  if c.toNat < 0x10000 then [c.toNat]
  else [0xD800 + (c.toNat - 0x10000) / 0x400, 0xDC00 + (c.toNat - 0x10000) % 0x400]

/-- The code units of a string from its raw text. -/
@[grind =] def unescape : Text → Option (List ℕ)
  | [] => some []
  | '\\' :: 'u' :: a :: b :: c :: d :: r =>
    match hex4 a b c d, unescape r with
    | some u, some us => some (u :: us)
    | _, _ => none
  | '\\' :: e :: r =>
    match shortEscape e, unescape r with
    | some c, some us => some (c.toNat :: us)
    | _, _ => none
  | c :: r =>
    if c = '\\' ∨ c = '"' ∨ c.toNat < 32 then none
    else
      match unescape r with
      | some us => some (utf16 c ++ us)
      | none => none

def isHighSurrogate (u : ℕ) : Bool := 0xD800 ≤ u && u < 0xDC00
def isLowSurrogate (u : ℕ) : Bool := 0xDC00 ≤ u && u < 0xE000

/-- A code unit that is not the first of a pair. -/
def loneUnit (lone : Option Char) (u : ℕ) : Option Char :=
  if isHighSurrogate u || isLowSurrogate u then lone else some (Char.ofNat u)

/-- The characters, two surrogates being one. A surrogate alone is `lone`. -/
@[grind =] def decodeUtf16 (lone : Option Char) : List ℕ → Option (List Char)
  | [] => some []
  | u :: v :: us =>
    if isHighSurrogate u && isLowSurrogate v then
      match decodeUtf16 lone us with
      | some cs => some (Char.ofNat (0x10000 + (u - 0xD800) * 0x400 + (v - 0xDC00)) :: cs)
      | none => none
    else
      match loneUnit lone u, decodeUtf16 lone (v :: us) with
      | some c, some cs => some (c :: cs)
      | _, _ => none
  | [u] =>
    match loneUnit lone u with
    | some c => some [c]
    | none => none

example : (unescape "a\\n\\u00e9\\ud83d\\ude00é😀".toList).bind (decodeUtf16 none) =
    some "a\né😀é😀".toList := by
  decide +kernel

/-- A string's raw text: read escape by escape it holds no quote. -/
@[grind =] def closed : Text → Bool
  | [] => true
  | '\\' :: _ :: r => closed r
  | c :: r => c ≠ '\\' && c ≠ '"' && closed r

/-! ## The order of keys -/

def utf8 (s : List Char) : List ℕ := s.flatMap fun c => (String.utf8EncodeChar c).map UInt8.toNat

/-- The bytes of a string. A surrogate alone is encoded as the replacement character. -/
def unitBytes (us : List ℕ) : List ℕ := utf8 ((decodeUtf16 (some '\uFFFD') us).getD [])

/-- Keys compare by their length in UTF-8, then by their bytes. -/
def unitRank (us : List ℕ) : ℕ ×ₗ List ℕ := toLex ((unitBytes us).length, unitBytes us)

/-- The rank of a key from its raw text; what is no string ranks as the empty one. -/
def keyRank (raw : Text) : ℕ ×ₗ List ℕ := unitRank ((unescape raw).getD [])

section Parts

variable {α : Type}

/-- Stable: members of one rank keep their order. -/
def sortParts (ps : List (Part α)) : List (Part α) :=
  ps.insertionSort fun p q => keyRank p.key ≤ keyRank q.key

/-- The separator that stands between members once they are moved. -/
def sepOf : List (Part α) → Text
  | [] => [',', ' ']
  | p :: _ => if p.sep = [] then [',', ' '] else p.sep

@[grind =] def respace (sep : Text) : List (Part α) → List (Part α)
  | [] => []
  | [p] => [{ p with sep := [] }]
  | p :: q :: ps => { p with sep := sep } :: respace sep (q :: ps)

def ordered (isObject : Bool) (ps : List (Part α)) : List (Part α) :=
  if isObject then respace (sepOf ps) (sortParts ps) else ps

end Parts

mutual

/-- The members of every object in the order of their keys. -/
@[grind =] def Json.sorted : Json → Json
  | .str raw => .str raw
  | .lit raw => .lit raw
  | .node isObject lead parts tail =>
    .node isObject lead (ordered isObject (partsSorted parts)) tail

@[grind =] def partsSorted : List (Part Json) → List (Part Json)
  | [] => []
  | ⟨key, colon, value, sep⟩ :: ps => ⟨key, colon, value.sorted, sep⟩ :: partsSorted ps

end

/-! ## What a text means -/

/-- An object gives each key the value of its last member. -/
inductive JsonValue
  | str (raw : Text)
  | lit (raw : Text)
  | arr (items : List JsonValue)
  | obj (fields : Option (List ℕ) → Option JsonValue)

def lastField (members : List (Text × JsonValue)) (key : Option (List ℕ)) : Option JsonValue :=
  ((members.filter fun m => unescape m.1 = key).getLast?).map Prod.snd

mutual

@[grind =] def Json.value : Json → JsonValue
  | .str raw => .str raw
  | .lit raw => .lit raw
  | .node isObject _ parts _ =>
    if isObject then .obj (lastField (membersValue parts))
    else .arr ((membersValue parts).map Prod.snd)

@[grind =] def membersValue : List (Part Json) → List (Text × JsonValue)
  | [] => []
  | ⟨key, _, value, _⟩ :: ps => (key, value.value) :: membersValue ps

end

mutual

/-- The raw texts of the strings, keys and literals. -/
@[grind =] def Json.tokens : Json → List Text
  | .str raw => [raw]
  | .lit raw => [raw]
  | .node _ _ parts _ => partsTokens parts

@[grind =] def partsTokens : List (Part Json) → List Text
  | [] => []
  | ⟨key, _, value, _⟩ :: ps => key :: value.tokens ++ partsTokens ps

end

/-! ## Well-formed texts -/

def isLiteralChar (c : Char) : Bool := c.isAlphanum || c = '+' || c = '-' || c = '.'

/-- A character with blanks around it. -/
def Around (c : Char) (t : Text) : Prop :=
  ∃ a b : Text, a.all isWs = true ∧ b.all isWs = true ∧ t = a ++ c :: b

/-- The key and the colon of a member; an item of an array has none. -/
def KeyWf (isObject : Bool) (key colon : Text) : Prop :=
  if isObject then closed key = true ∧ Around ':' colon else key = [] ∧ colon = []

def SepWf (last : Bool) (sep : Text) : Prop := if last then sep = [] else Around ',' sep

mutual

@[grind =] def Json.Wf : Json → Prop
  | .str raw => closed raw = true
  | .lit raw => raw ≠ [] ∧ raw.all isLiteralChar = true
  | .node isObject lead parts tail =>
    lead.all isWs = true ∧ tail.all isWs = true ∧ (parts = [] → tail = []) ∧ partsWf isObject parts

@[grind =] def partsWf (isObject : Bool) : List (Part Json) → Prop
  | [] => True
  | ⟨key, colon, value, sep⟩ :: ps =>
    KeyWf isObject key colon ∧ value.Wf ∧ SepWf ps.isEmpty sep ∧ partsWf isObject ps

end

mutual

/-- Every key is a JSON string. -/
@[grind =] def Json.keysOk : Json → Bool
  | .str _ => true
  | .lit _ => true
  | .node isObject _ parts _ => partsKeysOk isObject parts

@[grind =] def partsKeysOk (isObject : Bool) : List (Part Json) → Bool
  | [] => true
  | ⟨key, _, value, _⟩ :: ps =>
    (!isObject || (unescape key).isSome) && value.keysOk && partsKeysOk isObject ps

end

mutual

/-- Values and their parts, as many calls as it takes to read the text. -/
@[grind =] def Json.size : Json → ℕ
  | .str _ => 1
  | .lit _ => 1
  | .node _ _ parts _ => 1 + partsSize parts

@[grind =] def partsSize : List (Part Json) → ℕ
  | [] => 0
  | ⟨_, _, value, _⟩ :: ps => 1 + value.size + partsSize ps

end

/-! ## Sorting the keys -/

theorem partsSorted_eq (ps : List (Part Json)) :
    partsSorted ps = ps.map fun p => { p with value := p.value.sorted } := by
  induction ps with
  | nil => rfl
  | cons p ps ih => rw [partsSorted, ih, List.map_cons]

theorem membersValue_eq (ps : List (Part Json)) :
    membersValue ps = ps.map fun p => (p.key, p.value.value) := by
  induction ps with
  | nil => rfl
  | cons p ps ih => rw [membersValue, ih, List.map_cons]

theorem partsTokens_eq (ps : List (Part Json)) :
    partsTokens ps = ps.flatMap fun p => p.key :: p.value.tokens := by
  induction ps with
  | nil => rfl
  | cons p ps ih => rw [partsTokens, ih, List.flatMap_cons, List.cons_append]

theorem respace_map {α β : Type} (f : Text → Text → α → β) (sep : Text) : ∀ ps : List (Part α),
    (respace sep ps).map (fun p => f p.key p.colon p.value) = ps.map fun p => f p.key p.colon p.value
  | [] => rfl
  | [_] => rfl
  | p :: q :: ps => by
    rw [respace, List.map_cons, respace_map f sep (q :: ps)]
    rfl

theorem respace_length {α : Type} (sep : Text) (ps : List (Part α)) :
    (respace sep ps).length = ps.length := by
  have h := congrArg List.length (respace_map (fun key _ _ => key) sep ps)
  rwa [List.length_map, List.length_map] at h

/-- A sort leaves the members that rank alike as they were. -/
theorem filter_insertionSort {α : Type} {r : α → α → Prop} [DecidableRel r] [Std.Total r]
    [IsTrans α r] {l : List α} {P : α → Bool} (hP : ∀ a b, P a = true → P b = true → r a b) :
    (l.insertionSort r).filter P = l.filter P := by
  have hsub : (l.filter P).Sublist (l.insertionSort r) :=
    List.sublist_insertionSort
      (List.pairwise_of_forall_mem_list fun a ha b hb =>
        hP a b (List.mem_filter.mp ha).2 (List.mem_filter.mp hb).2) List.filter_sublist
  have h := hsub.filter P
  rw [List.filter_filter] at h
  simp only [Bool.and_self] at h
  exact (h.eq_of_length (((List.perm_insertionSort r l).filter P).length_eq).symm).symm

instance {α : Type} : Std.Total fun p q : Part α => keyRank p.key ≤ keyRank q.key :=
  ⟨fun p q => le_total (keyRank p.key) (keyRank q.key)⟩

instance {α : Type} : IsTrans (Part α) fun p q => keyRank p.key ≤ keyRank q.key :=
  ⟨fun _ _ _ => le_trans⟩

theorem lastField_sortParts {α : Type} (f : α → JsonValue) (ps : List (Part α)) :
    lastField ((sortParts ps).map fun p => (p.key, f p.value)) =
      lastField (ps.map fun p => (p.key, f p.value)) := by
  funext key
  unfold lastField
  rw [List.filter_map, List.filter_map]
  congr 2
  have h := filter_insertionSort (r := fun p q : Part α => keyRank p.key ≤ keyRank q.key) (l := ps)
    (P := fun p => decide (unescape p.key = key)) (by
      intro p q hp hq
      have hpq : unescape p.key = unescape q.key :=
        (of_decide_eq_true hp).trans (of_decide_eq_true hq).symm
      unfold keyRank
      rw [hpq])
  exact congrArg _ h

/-- Sorting the keys of a text leaves what it means. -/
theorem Json.value_sorted (j : Json) : j.sorted.value = j.value := by
  induction j using Json.induction with
  | str raw => rfl
  | lit raw => rfl
  | node isObject lead parts tail ih =>
    have hparts : (partsSorted parts).map (fun p => (p.key, p.value.value)) =
        parts.map fun p => (p.key, p.value.value) := by
      rw [partsSorted_eq, List.map_map]
      exact List.map_congr_left fun p hp => by simp only [Function.comp_apply, ih p hp]
    rw [Json.sorted, Json.value, Json.value, membersValue_eq, membersValue_eq]
    cases isObject with
    | false => simp only [ordered, Bool.false_eq_true, if_false, hparts]
    | true =>
      simp only [ordered, if_true]
      rw [respace_map (fun key _ value => (key, Json.value value)), lastField_sortParts Json.value,
        hparts]

theorem partsTokens_ordered (isObject : Bool) (ps : List (Part Json)) :
    (partsTokens (ordered isObject ps)).Perm (partsTokens ps) := by
  unfold ordered
  split_ifs
  · rw [partsTokens_eq, partsTokens_eq, List.flatMap_def, List.flatMap_def,
      respace_map (fun key _ value => key :: Json.tokens value)]
    exact ((List.perm_insertionSort _ ps).map _).flatten
  · exact List.Perm.refl _

/-- It moves strings, keys and literals and changes none. -/
theorem Json.tokens_sorted (j : Json) : j.sorted.tokens.Perm j.tokens := by
  induction j using Json.induction with
  | str raw => exact List.Perm.refl _
  | lit raw => exact List.Perm.refl _
  | node isObject lead parts tail ih =>
    rw [Json.sorted, Json.tokens, Json.tokens]
    refine (partsTokens_ordered isObject _).trans ?_
    rw [partsSorted_eq, partsTokens_eq, partsTokens_eq, List.flatMap_map]
    exact List.Perm.flatMap_left parts fun p hp => (ih p hp).cons _

theorem sepOf_ne_nil {α : Type} (ps : List (Part α)) : sepOf ps ≠ [] := by
  unfold sepOf
  split
  · exact List.cons_ne_nil _ _
  · split_ifs with h
    · exact List.cons_ne_nil _ _
    · exact h

theorem respace_respace {α : Type} {sep : Text} (hsep : sep ≠ []) : ∀ ps : List (Part α),
    respace (sepOf (respace sep ps)) (respace sep ps) = respace sep ps
  | [] => rfl
  | [_] => rfl
  | p :: q :: ps => by
    have hfirst : sepOf (respace sep (p :: q :: ps)) = sep := if_neg hsep
    have hnext : ∀ l : List (Part α), respace sep (respace sep l) = respace sep l := by
      intro l
      fun_induction respace sep l with
      | case1 => rfl
      | case2 => rfl
      | case3 p q ps ih =>
        cases hr : respace sep (q :: ps) with
        | nil => cases ps <;> cases hr
        | cons q' ps' =>
          rw [respace, ← hr, ih]
    rw [hfirst, hnext]

theorem sortParts_respace {α : Type} (sep : Text) {ps : List (Part α)}
    (h : ps.Pairwise fun p q => keyRank p.key ≤ keyRank q.key) :
    sortParts (respace sep ps) = respace sep ps := by
  have hkeys : (respace sep ps).map (fun p => keyRank p.key) = ps.map fun p => keyRank p.key :=
    respace_map (fun key _ _ => keyRank key) sep ps
  have hranks : (ps.map fun p => keyRank p.key).Pairwise (· ≤ ·) := List.pairwise_map.mpr h
  rw [← hkeys] at hranks
  exact List.Pairwise.insertionSort_eq (List.pairwise_map.mp hranks)

theorem ordered_ordered {α : Type} (isObject : Bool) (ps : List (Part α)) :
    ordered isObject (ordered isObject ps) = ordered isObject ps := by
  cases isObject with
  | false => rfl
  | true =>
    simp only [ordered, if_true]
    have hsorted : (sortParts ps).Pairwise fun p q => keyRank p.key ≤ keyRank q.key :=
      List.pairwise_insertionSort _ ps
    rw [sortParts_respace _ hsorted, respace_respace (sepOf_ne_nil ps)]

theorem ordered_value_mem {α : Type} {isObject : Bool} {ps : List (Part α)} {p : Part α}
    (hp : p ∈ ordered isObject ps) : ∃ q ∈ ps, p.value = q.value := by
  cases isObject with
  | false => exact ⟨p, hp, rfl⟩
  | true =>
    have hmem : p.value ∈ (respace (sepOf ps) (sortParts ps)).map (·.value) := List.mem_map_of_mem hp
    rw [respace_map (fun _ _ value => value)] at hmem
    obtain ⟨q, hq, hval⟩ := List.mem_map.mp hmem
    exact ⟨q, (List.perm_insertionSort _ ps).mem_iff.mp hq, hval.symm⟩

theorem partsKeysOk_eq (isObject : Bool) (ps : List (Part Json)) : partsKeysOk isObject ps =
    (ps.map fun p => (!isObject || (unescape p.key).isSome) && p.value.keysOk).all id := by
  induction ps with
  | nil => rfl
  | cons p ps ih =>
    rw [partsKeysOk, ih]
    rfl

theorem Json.keysOk_sorted (j : Json) : j.sorted.keysOk = j.keysOk := by
  induction j using Json.induction with
  | str raw => rfl
  | lit raw => rfl
  | node isObject lead parts tail ih =>
    have hvalues : partsKeysOk isObject (partsSorted parts) = partsKeysOk isObject parts := by
      rw [partsKeysOk_eq, partsKeysOk_eq, partsSorted_eq, List.map_map]
      congr 1
      exact List.map_congr_left fun p hp => by simp only [Function.comp_apply, ih p hp]
    rw [Json.sorted, Json.keysOk, Json.keysOk, ← hvalues, ordered]
    split_ifs
    · rw [partsKeysOk_eq, partsKeysOk_eq,
        respace_map (fun key _ value => (!isObject || (unescape key).isSome) && Json.keysOk value)]
      exact ((List.perm_insertionSort _ _).map _).all_eq
    · rfl

theorem Json.sorted_sorted (j : Json) : j.sorted.sorted = j.sorted := by
  induction j using Json.induction with
  | str raw => rfl
  | lit raw => rfl
  | node isObject lead parts tail ih =>
    have hvalues : partsSorted (ordered isObject (partsSorted parts)) =
        ordered isObject (partsSorted parts) := by
      rw [partsSorted_eq (ordered isObject (partsSorted parts))]
      refine (List.map_congr_left fun p hp => ?_).trans (List.map_id _)
      obtain ⟨q, hq, hval⟩ := ordered_value_mem hp
      rw [partsSorted_eq] at hq
      obtain ⟨r, hr, rfl⟩ := List.mem_map.mp hq
      have hp : p.value.sorted = p.value := by
        rw [hval]
        exact ih r hr
      simp only [hp, id]
    rw [Json.sorted, Json.sorted, hvalues, ordered_ordered]

end MyBooks
