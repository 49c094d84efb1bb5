import MyBooks.Separated
import Mathlib.Data.Fin.Basic
import Mathlib.Tactic.IntervalCases

/-!
# Internet addresses and their texts

An IPv6 address has many spellings and one canonical text. Addresses are read as numbers when a
range of them is meant, as runs of groups when their text is.
-/

namespace MyBooks

/-- A range of addresses of `width` bits: those that agree with `base` in the first `len` bits. -/
structure Cidr where
  base : ℕ
  len : ℕ
  deriving DecidableEq

def Cidr.Contains (width : ℕ) (c : Cidr) (address : ℕ) : Prop :=
  address / 2 ^ (width - c.len) = c.base / 2 ^ (width - c.len)

instance (width : ℕ) (c : Cidr) (address : ℕ) : Decidable (c.Contains width address) :=
  inferInstanceAs (Decidable (_ = _))

structure Ipv4 where
  (a b c d : Fin 256)
  deriving DecidableEq

structure Ipv6 where
  (g0 g1 g2 g3 g4 g5 g6 g7 : Fin 65536)
  deriving DecidableEq

inductive IpAddress where
  | v4 (v : Ipv4)
  | v6 (a : Ipv6)
  deriving DecidableEq

/-! ## Digits -/

def digitValue (c : Char) : Option ℕ :=
  if '0' ≤ c ∧ c ≤ '9' then some (c.toNat - '0'.toNat)
  else if 'a' ≤ c ∧ c ≤ 'f' then some (c.toNat - 'a'.toNat + 10)
  else none

/-- The number that a text is in the base, if it has 1 to `most` digits. -/
def readDigits (base most : ℕ) (t : List Char) : Option ℕ :=
  if t ≠ [] ∧ t.length ≤ most ∧ t.all (fun c => (digitValue c).any (· < base)) then
    some (t.foldl (fun n c => base * n + (digitValue c).getD 0) 0)
  else none

theorem mem_toDigits {b n : ℕ} {c : Char} (hb : 1 < b) (h : c ∈ Nat.toDigits b n) :
    ∃ d < b, c = Nat.digitChar d := by
  induction n using Nat.strong_induction_on with
  | _ n ih =>
    rw [Nat.toDigits_eq_if hb] at h
    split_ifs at h with hn
    · exact ⟨n, hn, List.mem_singleton.mp h⟩
    · rcases List.mem_append.mp h with h | h
      · exact ih (n / b) (Nat.div_lt_self (by omega) hb) h
      · exact ⟨n % b, Nat.mod_lt n (by omega), List.mem_singleton.mp h⟩

theorem digitValue_digitChar {d : ℕ} (h : d < 16) : digitValue (Nat.digitChar d) = some d := by
  interval_cases d <;> rfl

theorem foldl_toDigits {b n : ℕ} (hb : 1 < b) (h16 : b ≤ 16) :
    (Nat.toDigits b n).foldl (fun n c => b * n + (digitValue c).getD 0) 0 = n := by
  induction n using Nat.strong_induction_on with
  | _ n ih =>
    rw [Nat.toDigits_eq_if hb]
    split_ifs with hn
    · rw [List.foldl_cons, List.foldl_nil, digitValue_digitChar (by omega)]
      simp
    · have hmod : n % b < b := Nat.mod_lt n (by omega)
      rw [List.foldl_append, ih (n / b) (Nat.div_lt_self (by omega) hb), List.foldl_cons,
        List.foldl_nil, digitValue_digitChar (by omega), Option.getD_some]
      exact Nat.div_add_mod n b

/-- A number is read back from its digits. -/
theorem readDigits_toDigits {b most n : ℕ} (hb : 1 < b) (h16 : b ≤ 16) (hmost : 0 < most)
    (hn : n < b ^ most) : readDigits b most (Nat.toDigits b n) = some n := by
  rw [readDigits, if_pos, foldl_toDigits hb h16]
  refine ⟨Nat.toDigits_ne_nil, (Nat.length_toDigits_le_iff hb hmost).mpr hn,
    List.all_eq_true.mpr fun c hc => ?_⟩
  obtain ⟨d, hd, rfl⟩ := mem_toDigits hb hc
  rw [digitValue_digitChar (by omega)]
  exact decide_eq_true hd

theorem notMem_toDigits {b n : ℕ} {c : Char} (hb : 1 < b) (h16 : b ≤ 16)
    (hc : digitValue c = none) : c ∉ Nat.toDigits b n := fun h => by
  obtain ⟨d, hd, rfl⟩ := mem_toDigits hb h
  rw [digitValue_digitChar (by omega)] at hc
  cases hc

/-! ## Addresses as numbers -/

namespace Ipv4

variable (v : Ipv4)

def value : ℕ := ((v.a * 256 + v.b) * 256 + v.c) * 256 + v.d

def quad : ℕ × ℕ × ℕ × ℕ := (v.a, v.b, v.c, v.d)

/-- The two groups that hold an IPv4 address. -/
def high : Fin 65536 := ⟨v.a * 256 + v.b, by omega⟩
def low : Fin 65536 := ⟨v.c * 256 + v.d, by omega⟩

def ofGroups (high low : Fin 65536) : Ipv4 :=
  ⟨⟨high / 256, by omega⟩, ⟨high % 256, by omega⟩, ⟨low / 256, by omega⟩, ⟨low % 256, by omega⟩⟩

theorem ofGroups_high_low : ofGroups v.high v.low = v := by
  obtain ⟨a, b, c, d⟩ := v
  simp only [ofGroups, high, low, mk.injEq, Fin.ext_iff]
  omega

/-- `1.2.3.4` -/
def dotted : List Char :=
  ['.'].intercalate ([v.a, v.b, v.c, v.d].map fun n => Nat.toDigits 10 n)

end Ipv4

namespace Ipv6

variable (a : Ipv6)

def groups : List (Fin 65536) := [a.g0, a.g1, a.g2, a.g3, a.g4, a.g5, a.g6, a.g7]

def value : ℕ := a.groups.foldl (fun n g => n * 65536 + g.val) 0

/-! ## The forms that embed an IPv4 address -/

def mapped (v : Ipv4) : Ipv6 := ⟨0, 0, 0, 0, 0, 0xffff, v.high, v.low⟩
def compatible (v : Ipv4) : Ipv6 := ⟨0, 0, 0, 0, 0, 0, v.high, v.low⟩
def nat64 (v : Ipv4) : Ipv6 := ⟨0x64, 0xff9b, 0, 0, 0, 0, v.high, v.low⟩
def sixToFour (v : Ipv4) (g3 g4 g5 g6 g7 : Fin 65536) : Ipv6 :=
  ⟨0x2002, v.high, v.low, g3, g4, g5, g6, g7⟩

/-! ## The canonical text -/

def hex (g : Fin 65536) : List Char := Nat.toDigits 16 g

def joined (gs : List (Fin 65536)) : List Char := [':'].intercalate (gs.map hex)

/-- Where the first of the longest runs of zeros starts, and its length. -/
def longestRun : List (Fin 65536) → ℕ × ℕ
  | [] => (0, 0)
  | g :: gs =>
    let here := ((g :: gs).takeWhile (· = 0)).length
    if (longestRun gs).2 ≤ here then (0, here) else ((longestRun gs).1 + 1, (longestRun gs).2)

def isMapped : Bool := a.groups.take 6 = [0, 0, 0, 0, 0, 0xffff]

/-- In lower case and without leading zeros, the first of the longest runs of at least two zero
groups left out, and dotted if an IPv4 address is mapped. -/
def canonical : List Char :=
  if a.isMapped then "::ffff:".toList ++ (Ipv4.ofGroups a.g6 a.g7).dotted
  else
    let run := longestRun a.groups
    if run.2 < 2 then joined a.groups
    else joined (a.groups.take run.1) ++ "::".toList ++ joined (a.groups.drop (run.1 + run.2))

end Ipv6

/-! ## Reading an address -/

/-- Four runs of one to three digits. -/
def dottedQuad (t : List Char) : Option (ℕ × ℕ × ℕ × ℕ) :=
  match t.splitOn '.' with
  | [p, q, r, s] => do
    let a ← readDigits 10 3 p
    let b ← readDigits 10 3 q
    let c ← readDigits 10 3 r
    let d ← readDigits 10 3 s
    some (a, b, c, d)
  | _ => none

/-- A dotted quad of octets without leading zeros. -/
def parseIpv4 (t : List Char) : Option Ipv4 := do
  let (a, b, c, d) ← dottedQuad t
  if h : a < 256 ∧ b < 256 ∧ c < 256 ∧ d < 256 then
    let v : Ipv4 := ⟨⟨a, h.1⟩, ⟨b, h.2.1⟩, ⟨c, h.2.2.1⟩, ⟨d, h.2.2.2⟩⟩
    if v.dotted = t then some v else none
  else none

/-- The groups of the parts. With `tail` a dotted quad may stand for the last two. -/
def readGroups (tail : Bool) : List (List Char) → Option (List (Fin 65536))
  | [] => some []
  | [p] =>
    match readDigits 16 4 p with
    | some n => some [Fin.ofNat 65536 n]
    | none => if tail then (parseIpv4 p).map fun v => [v.high, v.low] else none
  | p :: q :: ps =>
    (readDigits 16 4 p).bind fun n => (readGroups tail (q :: ps)).map (Fin.ofNat 65536 n :: ·)

/-- The groups of a text, of which an empty one has none. -/
def readPart (tail : Bool) (t : List Char) : Option (List (Fin 65536)) :=
  if t = [] then some [] else readGroups tail (t.splitOn ':')

/-- What stands before and behind the first `::`. -/
def splitDouble : List Char → Option (List Char × List Char)
  | ':' :: ':' :: t => some ([], t)
  | c :: t => (splitDouble t).map fun p => (c :: p.1, p.2)
  | [] => none

def ofGroupList : List (Fin 65536) → Option Ipv6
  | [g0, g1, g2, g3, g4, g5, g6, g7] => some ⟨g0, g1, g2, g3, g4, g5, g6, g7⟩
  | _ => none

/-- A spelling in lower case. At one place `::` may stand for the zero groups that are missing. -/
def readIpv6 (t : List Char) : Option Ipv6 :=
  match splitDouble t with
  | none => (readGroups true (t.splitOn ':')).bind ofGroupList
  | some (before, after) => do
    let gs ← readPart false before
    let hs ← readPart true after
    if gs.length + hs.length < 8 then
      ofGroupList (gs ++ List.replicate (8 - (gs.length + hs.length)) 0 ++ hs)
    else none

/-- Any spelling of an IPv6 address, in either case. -/
def parseIpv6 (t : List Char) : Option Ipv6 := readIpv6 (t.map Char.toLower)

def ipAddress (t : List Char) : Option IpAddress :=
  match parseIpv4 t with
  | some v => some (.v4 v)
  | none => (parseIpv6 t).map .v6

/-! ## What a spelling is made of -/

theorem digitValue_of_readDigits {base most n : ℕ} {t : List Char}
    (h : readDigits base most t = some n) : ∀ c ∈ t, (digitValue c).isSome = true := by
  unfold readDigits at h
  split_ifs at h with hdigits
  intro c hc
  have := List.all_eq_true.mp hdigits.2.2 c hc
  cases hv : digitValue c with
  | none => rw [hv] at this; cases this
  | some d => rfl

theorem exists_of_dottedQuad {t : List Char} {quad : ℕ × ℕ × ℕ × ℕ}
    (h : dottedQuad t = some quad) : ∃ p q r s, t.splitOn '.' = [p, q, r, s] ∧
      readDigits 10 3 p = some quad.1 ∧ readDigits 10 3 q = some quad.2.1 ∧
        readDigits 10 3 r = some quad.2.2.1 ∧ readDigits 10 3 s = some quad.2.2.2 := by
  unfold dottedQuad at h
  split at h
  · next p q r s hsplit =>
    simp only [Option.bind_eq_bind, Option.bind_eq_some_iff, Option.some.injEq] at h
    obtain ⟨a, ha, b, hb, c, hc, d, hd, rfl⟩ := h
    exact ⟨p, q, r, s, hsplit, ha, hb, hc, hd⟩
  · cases h

theorem mem_of_dottedQuad {t : List Char} {quad : ℕ × ℕ × ℕ × ℕ} (h : dottedQuad t = some quad) :
    ∀ c ∈ t, c = '.' ∨ (digitValue c).isSome = true := by
  obtain ⟨p, q, r, s, hsplit, hp, hq, hr, hs⟩ := exists_of_dottedQuad h
  intro c hc
  refine (mem_splitOn (x := '.') hc).imp_right ?_
  rintro ⟨l, hl, hc⟩
  rw [hsplit] at hl
  simp only [List.mem_cons, List.not_mem_nil, or_false] at hl
  rcases hl with rfl | rfl | rfl | rfl
  · exact digitValue_of_readDigits hp c hc
  · exact digitValue_of_readDigits hq c hc
  · exact digitValue_of_readDigits hr c hc
  · exact digitValue_of_readDigits hs c hc

theorem dottedQuad_of_parseIpv4 {t : List Char} {v : Ipv4} (h : parseIpv4 t = some v) :
    dottedQuad t = some v.quad := by
  unfold parseIpv4 at h
  cases hquad : dottedQuad t with
  | none => rw [hquad] at h; cases h
  | some quad =>
    obtain ⟨a, b, c, d⟩ := quad
    rw [hquad] at h
    simp only [Option.bind_eq_bind, Option.bind_some] at h
    split_ifs at h
    obtain rfl := Option.some.inj h
    rfl

theorem dottedQuad_dotted (v : Ipv4) : dottedQuad v.dotted = some v.quad := by
  have hread : ∀ n : Fin 256, readDigits 10 3 (Nat.toDigits 10 n) = some (n : ℕ) := fun n =>
    readDigits_toDigits (by decide) (by decide) (by decide) (by omega)
  have hdot : ∀ n : ℕ, '.' ∉ Nat.toDigits 10 n := fun n =>
    notMem_toDigits (by decide) (by decide) (by decide)
  have hsplit : v.dotted.splitOn '.' = [v.a, v.b, v.c, v.d].map fun n => Nat.toDigits 10 n := by
    refine List.splitOn_intercalate '.' (fun l hl => ?_) (by simp)
    obtain ⟨n, -, rfl⟩ := List.mem_map.mp hl
    exact hdot n
  rw [dottedQuad, hsplit]
  simp [hread, Ipv4.quad]

/-- What a spelling may hold. -/
def Spelling (c : Char) : Prop := c = ':' ∨ c = '.' ∨ (digitValue c).isSome = true

theorem spelling_of_parseIpv4 {t : List Char} {v : Ipv4} (h : parseIpv4 t = some v) :
    ∀ c ∈ t, Spelling c := fun c hc => .inr (mem_of_dottedQuad (dottedQuad_of_parseIpv4 h) c hc)

theorem spelling_of_readGroups {tail : Bool} : ∀ {ps : List (List Char)}
    {gs : List (Fin 65536)}, readGroups tail ps = some gs → ∀ p ∈ ps, ∀ c ∈ p, Spelling c
  | [], _, _ => by simp
  | [p], gs, h => by
    intro q hq
    obtain rfl := List.mem_singleton.mp hq
    rw [readGroups] at h
    split at h
    · next n hp => exact fun c hc => .inr (.inr (digitValue_of_readDigits hp c hc))
    · split_ifs at h
      obtain ⟨v, hv, -⟩ := Option.map_eq_some_iff.mp h
      exact spelling_of_parseIpv4 hv
  | p :: q :: ps, gs, h => by
    rw [readGroups] at h
    obtain ⟨n, hp, h⟩ := Option.bind_eq_some_iff.mp h
    obtain ⟨gs, hps, -⟩ := Option.map_eq_some_iff.mp h
    intro p' hp'
    rcases List.mem_cons.mp hp' with rfl | hp'
    · exact fun c hc => .inr (.inr (digitValue_of_readDigits hp c hc))
    · exact spelling_of_readGroups hps p' hp'

theorem spelling_of_splitOn {t : List Char} (h : ∀ p ∈ t.splitOn ':', ∀ c ∈ p, Spelling c) :
    ∀ c ∈ t, Spelling c := fun c hc => by
  rcases mem_splitOn (x := ':') hc with hcolon | ⟨p, hp, hc⟩
  · exact .inl hcolon
  · exact h p hp c hc

theorem spelling_of_readPart {tail : Bool} {t : List Char} {gs : List (Fin 65536)}
    (h : readPart tail t = some gs) : ∀ c ∈ t, Spelling c := by
  unfold readPart at h
  split_ifs at h with hempty
  · simp [hempty]
  · exact spelling_of_splitOn (spelling_of_readGroups h)

theorem eq_of_splitDouble : ∀ {t before after : List Char},
    splitDouble t = some (before, after) → t = before ++ ':' :: ':' :: after := by
  intro t
  fun_induction splitDouble t with
  | case1 t =>
    rintro before after h
    obtain ⟨rfl, rfl⟩ := Prod.mk.inj (Option.some.inj h)
    rfl
  | case2 c t _ ih =>
    rintro before after h
    obtain ⟨⟨before, after⟩, hsplit, hp⟩ := Option.map_eq_some_iff.mp h
    obtain ⟨rfl, rfl⟩ := Prod.mk.inj hp
    rw [ih hsplit]
    rfl
  | case3 => rintro before after h; cases h

theorem length_readGroups_singleton {tail : Bool} {p : List Char} {gs : List (Fin 65536)}
    (h : readGroups tail [p] = some gs) : gs.length ≤ 2 := by
  rw [readGroups] at h
  split at h
  · obtain rfl := Option.some.inj h
    simp
  · split_ifs at h
    obtain ⟨v, -, rfl⟩ := Option.map_eq_some_iff.mp h
    simp

theorem length_of_ofGroupList {gs : List (Fin 65536)} {a : Ipv6} (h : ofGroupList gs = some a) :
    gs.length = 8 := by
  unfold ofGroupList at h
  split at h
  · rfl
  · cases h

theorem spelling_of_readIpv6 {t : List Char} {a : Ipv6} (h : readIpv6 t = some a) :
    ∀ c ∈ t, Spelling c := by
  unfold readIpv6 at h
  cases hsplit : splitDouble t with
  | none =>
    rw [hsplit] at h
    obtain ⟨gs, hgs, -⟩ := Option.bind_eq_some_iff.mp h
    exact spelling_of_splitOn (spelling_of_readGroups hgs)
  | some parts =>
    obtain ⟨before, after⟩ := parts
    rw [hsplit] at h
    obtain ⟨gs, hgs, h⟩ := Option.bind_eq_some_iff.mp h
    obtain ⟨hs, hhs, -⟩ := Option.bind_eq_some_iff.mp h
    rw [eq_of_splitDouble hsplit]
    intro c hc
    simp only [List.mem_append, List.mem_cons] at hc
    rcases hc with hc | rfl | rfl | hc
    · exact spelling_of_readPart hgs c hc
    · exact .inl rfl
    · exact .inl rfl
    · exact spelling_of_readPart hhs c hc

theorem colon_mem_of_readIpv6 {t : List Char} {a : Ipv6} (h : readIpv6 t = some a) : ':' ∈ t := by
  unfold readIpv6 at h
  cases hsplit : splitDouble t with
  | none =>
    rw [hsplit] at h
    obtain ⟨gs, hgs, ha⟩ := Option.bind_eq_some_iff.mp h
    by_contra hcolon
    rw [List.splitOn_eq_singleton hcolon] at hgs
    have := length_readGroups_singleton hgs
    have := length_of_ofGroupList ha
    omega
  | some parts =>
    rw [eq_of_splitDouble hsplit]
    simp

theorem toLower_toLower (c : Char) : c.toLower.toLower = c.toLower := by
  by_cases h : c.val ≥ 'A'.val ∧ c.val ≤ 'Z'.val
  · have hval : c.toLower.val = c.val + 32 := by
      rw [show c.toLower = _ from dif_pos h]
      rfl
    obtain ⟨hlow, hhigh⟩ := h
    have h65 : 65 ≤ c.val.toNat := UInt32.le_iff_toNat_le.mp hlow
    have h90 : c.val.toNat ≤ 90 := UInt32.le_iff_toNat_le.mp hhigh
    refine dif_neg fun hup => ?_
    have hz : c.toLower.val.toNat ≤ 90 := UInt32.le_iff_toNat_le.mp hup.2
    rw [hval, UInt32.toNat_add, show (32 : UInt32).toNat = 32 from rfl] at hz
    omega
  · have hself : c.toLower = c := dif_neg h
    rw [hself, hself]

theorem eq_of_toLower {c d : Char} (hd : d.val.toNat < 97) (h : c.toLower = d) : c = d := by
  by_cases hup : c.val ≥ 'A'.val ∧ c.val ≤ 'Z'.val
  · have hval : c.toLower.val = c.val + 32 := by
      rw [show c.toLower = _ from dif_pos hup]
      rfl
    have h65 : 65 ≤ c.val.toNat := UInt32.le_iff_toNat_le.mp hup.1
    have h90 : c.val.toNat ≤ 90 := UInt32.le_iff_toNat_le.mp hup.2
    rw [← h, hval, UInt32.toNat_add, show (32 : UInt32).toNat = 32 from rfl] at hd
    omega
  · rwa [show c.toLower = c from dif_neg hup] at h

theorem parseIpv6_toLower (t : List Char) : parseIpv6 (t.map Char.toLower) = parseIpv6 t := by
  unfold parseIpv6
  rw [List.map_map]
  congr 1
  exact List.map_congr_left fun c _ => toLower_toLower c

/-! ## What the canonical text starts with -/

namespace Ipv6

theorem hexText_notMem {c : Char} (hc : digitValue c = none) (g : Fin 65536) : c ∉ hex g :=
  notMem_toDigits (by decide) (by decide) hc

theorem hex_inj {g g' : Fin 65536} (h : hex g = hex g') : g = g' := by
  have hread : ∀ g : Fin 65536, readDigits 16 4 (hex g) = some (g : ℕ) := fun g =>
    readDigits_toDigits (by decide) (by decide) (by decide) (by omega)
  have := hread g
  rw [h, hread g'] at this
  exact Fin.ext (Option.some.inj this).symm

theorem joined_cons_cons (g g' : Fin 65536) (gs : List (Fin 65536)) :
    joined (g :: g' :: gs) = hex g ++ ':' :: joined (g' :: gs) := by
  unfold joined
  rw [List.map_cons, List.map_cons, List.intercalate_cons_cons, List.append_assoc]
  rfl

theorem joined_append (g : Fin 65536) : ∀ (gs : List (Fin 65536)) (t : List Char),
    joined (g :: gs) ++ ':' :: t = hex g ++ ':' :: (gs.flatMap (hex · ++ [':']) ++ t)
  | [], t => by simp [joined]
  | g' :: gs, t => by
    rw [joined_cons_cons, List.append_assoc, List.cons_append, joined_append g' gs]
    simp

theorem drop_longestRun : ∀ {gs : List (Fin 65536)}, 0 < (longestRun gs).2 →
    ∃ rest, gs.drop (longestRun gs).1 = 0 :: rest
  | [], h => by cases h
  | g :: gs, h => by
    rw [longestRun] at h ⊢
    split_ifs at h ⊢ with hhere
    · refine ⟨gs, ?_⟩
      rw [List.takeWhile_cons] at h
      split_ifs at h with hg
      · rw [of_decide_eq_true hg, List.drop_zero]
      · cases h
    · exact drop_longestRun (show 0 < (longestRun gs).2 by omega)

variable {a : Ipv6}

/-- What stands before the zeros that are left out. -/
theorem joined_before (g g' : Fin 65536) (gs : List (Fin 65536)) (t : List Char) :
    ∃ t', joined (g :: g' :: gs) ++ "::".toList ++ t = hex g ++ ':' :: (hex g' ++ ':' :: t') := by
  refine ⟨gs.flatMap (hex · ++ [':']) ++ ':' :: t, ?_⟩
  rw [List.append_assoc, show "::".toList ++ t = ':' :: (':' :: t) from rfl, joined_append]
  simp

/-- The text starts with its first groups, as far as these are not zero. -/
theorem canonical_starts (h : a.g0 ≠ 0) : ∃ t, a.canonical = hex a.g0 ++ ':' :: t ∧
    (a.g1 ≠ 0 → ∃ t', t = hex a.g1 ++ ':' :: t') := by
  have hmapped : a.isMapped = false := by
    simp [isMapped, groups, h]
  rw [canonical, hmapped, if_neg Bool.false_ne_true]
  dsimp only
  split_ifs with hshort
  · refine ⟨joined [a.g1, a.g2, a.g3, a.g4, a.g5, a.g6, a.g7], joined_cons_cons _ _ _, fun _ => ?_⟩
    exact ⟨_, joined_cons_cons _ _ _⟩
  · obtain ⟨rest, hrest⟩ := drop_longestRun (show 0 < (longestRun a.groups).2 by omega)
    generalize longestRun a.groups = run at hrest
    obtain ⟨start, n⟩ := run
    generalize joined (a.groups.drop (start + n)) = after
    match start, hrest with
    | 0, hrest => exact absurd (List.cons.inj hrest).1 h
    | 1, hrest =>
      refine ⟨':' :: after, ?_, fun h1 => absurd (List.cons.inj hrest).1 h1⟩
      rw [show a.groups.take 1 = [a.g0] from rfl, joined, List.map_singleton,
        List.intercalate_singleton, List.append_assoc]
      rfl
    | start + 2, hrest =>
      have htake : a.groups.take (start + 2) =
        a.g0 :: a.g1 :: [a.g2, a.g3, a.g4, a.g5, a.g6, a.g7].take start := rfl
      rw [htake]
      obtain ⟨t, ht⟩ := joined_before a.g0 a.g1 ([a.g2, a.g3, a.g4, a.g5, a.g6, a.g7].take start)
        after
      exact ⟨hex a.g1 ++ ':' :: t, ht, fun _ => ⟨t, rfl⟩⟩

/-- The text of an address without a mapped one starts with its first group or with `::`. -/
theorem canonical_head (h : a.isMapped = false) : a.g0 = 0 ∧ (∃ t, a.canonical = ':' :: ':' :: t) ∨
    ∃ t, a.canonical = hex a.g0 ++ ':' :: t := by
  by_cases h0 : a.g0 = 0
  · rw [canonical, h, if_neg Bool.false_ne_true]
    dsimp only
    split_ifs with hshort
    · exact .inr ⟨_, joined_cons_cons a.g0 a.g1 _⟩
    · generalize longestRun a.groups = run
      obtain ⟨start, n⟩ := run
      generalize joined (a.groups.drop (start + n)) = after
      match start with
      | 0 => exact .inl ⟨h0, after, rfl⟩
      | start + 1 =>
        have htake : a.groups.take (start + 1) =
          a.g0 :: [a.g1, a.g2, a.g3, a.g4, a.g5, a.g6, a.g7].take start := rfl
        rw [htake, List.append_assoc, show "::".toList ++ after = ':' :: (':' :: after) from rfl]
        exact .inr ⟨_, joined_append a.g0 _ _⟩
  · obtain ⟨t, ht, -⟩ := canonical_starts h0
    exact .inr ⟨t, ht⟩

theorem canonical_mapped (v : Ipv4) : (mapped v).canonical = "::ffff:".toList ++ v.dotted := by
  rw [canonical, if_pos (show (mapped v).isMapped = true from rfl)]
  rw [show (mapped v).g6 = v.high from rfl, show (mapped v).g7 = v.low from rfl,
    Ipv4.ofGroups_high_low]

theorem eq_mapped_of_isMapped (h : a.isMapped = true) :
    a = mapped (Ipv4.ofGroups a.g6 a.g7) := by
  obtain ⟨g0, g1, g2, g3, g4, g5, g6, g7⟩ := a
  simp only [isMapped, groups, decide_eq_true_eq, List.take_succ_cons, List.take_zero,
    List.cons.injEq, and_true] at h
  obtain ⟨rfl, rfl, rfl, rfl, rfl, rfl⟩ := h
  simp only [mapped, mk.injEq, true_and, Fin.ext_iff, Ipv4.high, Ipv4.low, Ipv4.ofGroups]
  omega

theorem notMem_joined {c : Char} (hc : digitValue c = none) (hcolon : c ≠ ':')
    (gs : List (Fin 65536)) : c ∉ joined gs := fun h => by
  rcases mem_intercalate h with h | ⟨l, hl, h⟩
  · exact hcolon h
  · obtain ⟨g, -, rfl⟩ := List.mem_map.mp hl
    exact hexText_notMem hc g h

/-- Only a mapped address is dotted. -/
theorem dot_notMem_canonical (h : a.isMapped = false) : '.' ∉ a.canonical := by
  have hjoined := notMem_joined (c := '.') (by decide) (by decide)
  rw [canonical, h, if_neg Bool.false_ne_true]
  dsimp only
  split_ifs
  · exact hjoined _
  · simp [hjoined]

end Ipv6

end MyBooks
