import MyBooks.BatchUndone

/-!
# What rows are looked up by

A loop in which no two rows claim the same key is a map (`sweep_claimStep`). The item looked up by a
bank id or a key is the oldest that has it (`byFitid_oldest`, `byKey_oldest`). The rows of a request
have keys of their own (`keyRowsFrom_keys`), and so has an item that commits gave its keys to
(`ExistingItem.Keyed`).
-/

namespace MyBooks.ImportRows

open ImportKeys

/-! ## Claims -/

section Claims

variable {κ α β : Type} [BEq κ] [LawfulBEq κ] {claim : α → Option (κ × β)} {miss : α → β}
  {used used' : List κ}

/-- A row's claim of a key stands when no earlier row has claimed it. -/
def claimStep (claim : α → Option (κ × β)) (miss : α → β) (used : List κ) (a : α) : List κ × β :=
  match claim a with
  | some (k, b) => if used.contains k then (used, miss a) else (k :: used, b)
  | none => (used, miss a)

theorem claimStep_congr {a : α} (h : ∀ p ∈ claim a, p.1 ∈ used' ↔ p.1 ∈ used) :
    (claimStep claim miss used' a).2 = (claimStep claim miss used a).2 := by
  unfold claimStep
  cases hc : claim a with
  | none => rfl
  | some p =>
    have hiff := h p hc
    simp only [List.contains_iff_mem]
    by_cases hp : p.1 ∈ used
    · rw [if_pos hp, if_pos (hiff.mpr hp)]
    · rw [if_neg hp, if_neg fun h => hp (hiff.mp h)]

theorem mem_claimStep {a : α} {k : κ} :
    k ∈ (claimStep claim miss used a).1 ↔ k ∈ used ∨ ∃ p ∈ claim a, p.1 = k := by
  unfold claimStep
  cases hc : claim a with
  | none => simp
  | some p =>
    simp only [List.contains_iff_mem]
    split_ifs with hp
    · simp only [Option.mem_some_iff, exists_eq_left']
      exact ⟨.inl, fun h => h.elim id fun h => h ▸ hp⟩
    · simp [or_comm, eq_comm]

/-- Where no two rows claim the same key, each fares as if it were the first. -/
theorem sweep_claimStep : ∀ {as : List α} (used : List κ),
    as.Pairwise (fun a b => ∀ p ∈ claim a, ∀ q ∈ claim b, p.1 ≠ q.1) →
      (sweep (claimStep claim miss) used as).2 = as.map (fun a => (claimStep claim miss used a).2) ∧
        ∀ k, k ∈ (sweep (claimStep claim miss) used as).1 ↔
          k ∈ used ∨ ∃ a ∈ as, ∃ p ∈ claim a, p.1 = k
  | [], _, _ => by simp [sweep]
  | a :: as, used, h => by
    obtain ⟨ha, has⟩ := List.pairwise_cons.mp h
    obtain ⟨hout, hused⟩ := sweep_claimStep (claimStep claim miss used a).1 has
    simp only [sweep]
    refine ⟨?_, fun k => ?_⟩
    · rw [hout, List.map_cons]
      refine congrArg _ (List.map_congr_left fun b hb => claimStep_congr fun q hq => ?_)
      rw [mem_claimStep]
      refine or_iff_left ?_
      rintro ⟨p, hp, heq⟩
      exact ha b hb p hp q hq heq
    · rw [hused, mem_claimStep, List.exists_mem_cons_iff, or_assoc]

end Claims

/-! ## The oldest item -/

section Oldest

variable {items : List ExistingItem} {rows : List BatchRowInput} {keyed : List KeyedRow}

def oldest (p : ExistingItem → Bool) (items : List ExistingItem) : Option ExistingItem :=
  (sortByAge (items.filter p)).head?

theorem sortByAge_sorted (items : List ExistingItem) :
    (sortByAge items).Pairwise fun a b => a.age ≤ b.age :=
  List.pairwise_insertionSort (fun a b : ExistingItem => a.age ≤ b.age) items

theorem mem_sortByAge {it : ExistingItem} : it ∈ sortByAge items ↔ it ∈ items :=
  List.mem_insertionSort _

theorem isLeastOf_oldest (p : ExistingItem → Bool) (items : List ExistingItem) :
    IsLeastOf ExistingItem.age (fun it => it ∈ items ∧ p it = true) (oldest p items) := by
  have hhead : oldest p items = (sortByAge (items.filter p)).find? fun _ => true := by
    rw [oldest]
    cases sortByAge (items.filter p) <;> rfl
  rw [hhead]
  refine (isLeastOf_find? (sortByAge_sorted _)).congr fun it => ?_
  rw [mem_sortByAge, List.mem_filter]
  exact and_iff_left rfl

theorem age_inj (hids : (items.map (·.id)).Nodup) {a b : ExistingItem} (ha : a ∈ items)
    (hb : b ∈ items) (h : a.age = b.age) : a = b := by
  have hid : a.id = b.id := (Prod.mk.inj (toLex.injective h)).2
  exact List.inj_on_of_nodup_map hids ha hb hid

theorem oldest_eq (hids : (items.map (·.id)).Nodup) {p : ExistingItem → Bool}
    {o : Option ExistingItem}
    (h : IsLeastOf ExistingItem.age (fun it => it ∈ items ∧ p it = true) o) : oldest p items = o :=
  (isLeastOf_oldest p items).unique h fun _ _ ha hb => age_inj hids ha.1 hb.1

theorem oldest_some {p : ExistingItem → Bool} {e : ExistingItem} (h : oldest p items = some e) :
    e ∈ items ∧ p e = true := by
  have := isLeastOf_oldest p items
  rw [h] at this
  exact this.1

theorem byFitid_oldest {f : CodeUnits} (hf : some f ∈ rows.map fun r => cleanFitid r.fitid) :
    (sortByAge (((lookups items rows keyed).byFitid.get? f).getD [])).head? =
      oldest (fun it => it.fitid = some f) items := by
  rw [byFitid_lookups, oldest, List.filter_filter]
  congr 3
  funext it
  cases hit : it.fitid with
  | none => simp
  | some g =>
    by_cases hg : g = f
    · subst hg
      simpa using hf
    · simp [hg]

theorem get?_addKeys {keys : List CodeUnits} {k : CodeUnits} (hk : k ∈ keys)
    (m : Entries CodeUnits ExistingItem) (it : ExistingItem) :
    (addKeys keys m it).get? k =
      (m.get? k).or (if it.dedupeKey = some k ∨ it.rowKey = some k then some it else none) := by
  have hset : ∀ (m : Entries CodeUnits ExistingItem) (j : CodeUnits),
      (if keys.contains j && (m.get? j).isNone then m.set j it else m).get? k =
        (m.get? k).or (if j = k then some it else none) := by
    intro m j
    by_cases hj : j = k
    · subst hj
      cases hm : m.get? j with
      | none => simp [hk, Entries.get?_set]
      | some v => simp [hm]
    · simp only [hj, if_false, Option.or_none]
      split_ifs
      · rw [Entries.get?_set, if_neg hj]
      · rfl
  unfold addKeys
  simp only [List.foldl_cons, List.foldl_nil]
  rcases it.dedupeKey with _ | j <;> rcases it.rowKey with _ | j'
  · simp
  · simp only [hset, reduceCtorEq, Option.some.injEq, false_or]
  · simp only [hset, reduceCtorEq, Option.some.injEq, or_false]
  · simp only [hset, Option.or_assoc, Option.some.injEq]
    by_cases hj : j = k <;> simp [hj]

theorem get?_foldl_addKeys {keys : List CodeUnits} {k : CodeUnits} (hk : k ∈ keys) :
    ∀ (its : List ExistingItem) (m : Entries CodeUnits ExistingItem),
      (its.foldl (addKeys keys) m).get? k =
        (m.get? k).or (its.find? fun it => it.dedupeKey = some k ∨ it.rowKey = some k)
  | [], m => by simp
  | it :: its, m => by
    rw [List.foldl_cons, get?_foldl_addKeys hk its, get?_addKeys hk, Option.or_assoc,
      List.find?_cons]
    congr 1
    by_cases h : it.dedupeKey = some k ∨ it.rowKey = some k <;> simp [h]

theorem byKey_oldest (hids : (items.map (·.id)).Nodup) {k : CodeUnits}
    (hk : k ∈ keyed.map (·.rowKey)) :
    (lookups items rows keyed).byKey.get? k =
      oldest (fun it => it.dedupeKey = some k ∨ it.rowKey = some k) items := by
  simp only [lookups]
  rw [get?_foldl_addKeys hk, Entries.get?_nil, Option.none_or]
  refine (oldest_eq hids ((isLeastOf_find? (sortByAge_sorted _)).congr fun it => ?_)).symm
  rw [mem_sortByAge, List.mem_filter, and_assoc]
  refine and_congr_right fun _ => and_iff_right_of_imp fun h => ?_
  simp only [decide_eq_true_eq] at h
  simp only [hasKey, Bool.or_eq_true_iff]
  exact h.imp (fun h => by rw [h]; simpa using hk) fun h => by rw [h]; simpa using hk

end Oldest

/-! ## Keys -/

section Keys

variable {nfc sha256 : CodeUnits → CodeUnits}

theorem append_cons_inj {α : Type} {x : α} {a b c d : List α} (hb : x ∉ b) (hd : x ∉ d)
    (h : a ++ x :: b = c ++ x :: d) : a = c ∧ b = d := by
  rcases List.append_eq_append_iff.mp h with ⟨as, rfl, has⟩ | ⟨as, rfl, has⟩
  · cases as with
    | nil => exact ⟨by simp, (List.cons.inj has).2⟩
    | cons y as =>
      refine absurd ?_ hb
      rw [(List.cons.inj has).2]
      exact List.mem_append_right _ List.mem_cons_self
  · cases as with
    | nil => exact ⟨by simp, (List.cons.inj has).2.symm⟩
    | cons y as =>
      refine absurd ?_ hd
      rw [(List.cons.inj has).2]
      exact List.mem_append_right _ List.mem_cons_self

theorem units_digits {t : Text} (h : ∀ c ∈ t, c.isDigit = true) : units t = t.map Char.toNat := by
  rw [units, List.map_eq_flatMap]
  refine List.flatMap_congr fun c hc => ?_
  have hc := digit_range (h c hc)
  have h9 : '9'.toNat = 57 := rfl
  rw [utf16, if_pos (by omega)]

theorem units_ordinal (n : ℕ) :
    units ('|' :: Nat.toDigits 10 n) = 124 :: (Nat.toDigits 10 n).map Char.toNat := by
  rw [← units_digits fun c hc => Nat.isDigit_of_mem_toDigits (by decide) (by decide) hc]
  rfl

theorem toNat_char_injective : Function.Injective Char.toNat := fun _ _ h =>
  Char.ext (UInt32.toNat_inj.mp h)

theorem rowKey_inj (hsha : Function.Injective sha256) {d d' : IsoDate} {a a' : ℚ}
    {n n' : CodeUnits} {o o' : ℕ}
    (h : rowKey sha256 d a n o = rowKey sha256 d' a' n' o') :
    rowGroup d a n = rowGroup d' a' n' ∧ o = o' := by
  have hbar : ∀ n : ℕ, 124 ∉ (Nat.toDigits 10 n).map Char.toNat := fun n hn => by
    obtain ⟨c, hc, h⟩ := List.mem_map.mp hn
    have hc := digit_range (Nat.isDigit_of_mem_toDigits (by decide) (by decide) hc)
    have h9 : '9'.toNat = 57 := rfl
    omega
  have h := hsha h
  rw [units_ordinal, units_ordinal] at h
  obtain ⟨hgroup, hdigits⟩ := append_cons_inj (hbar o) (hbar o') h
  have hdigits := List.map_injective_iff.mpr toNat_char_injective hdigits
  rw [← DecimalText.padded_one, ← DecimalText.padded_one, padded_inj] at hdigits
  exact ⟨List.append_cancel_left hgroup, hdigits⟩

theorem rowKey_ne_fitidKey (hsha : Function.Injective sha256) (d : IsoDate) (a : ℚ) (n : CodeUnits)
    (o : ℕ) (f : CodeUnits) : rowKey sha256 d a n o ≠ fitidKey sha256 f := by
  intro heq
  have hrow : units "v1|row|".toList = [118, 49, 124, 114, 111, 119, 124] := by decide
  have hfitid : units "v1|fitid|".toList = [118, 49, 124, 102, 105, 116, 105, 100, 124] := by decide
  have h := hsha heq
  rw [hrow, hfitid] at h
  simp at h

theorem length_keyRowsFrom : ∀ (rows : List KeyParts) (seen : Entries CodeUnits ℕ),
    (keyRowsFrom nfc sha256 seen rows).length = rows.length
  | [], _ => rfl
  | _ :: rows, seen => by
    simp only [keyRowsFrom, List.length_cons, length_keyRowsFrom rows]

/-- A key that the rows after those seen so far can have. -/
def IsRowKey (sha256 : CodeUnits → CodeUnits) (seen : Entries CodeUnits ℕ) (k : CodeUnits) : Prop :=
  ∃ d a n o, k = rowKey sha256 d a n o ∧ (seen.get? (rowGroup d a n)).getD 0 < o

/-- The rows of a request have different keys. -/
theorem keyRowsFrom_keys (hsha : Function.Injective sha256) :
    ∀ (rows : List KeyParts) (seen : Entries CodeUnits ℕ),
      ((keyRowsFrom nfc sha256 seen rows).map (·.rowKey)).Nodup ∧
        ∀ k ∈ keyRowsFrom nfc sha256 seen rows, IsRowKey sha256 seen k.rowKey
  | [], _ => by simp [keyRowsFrom]
  | r :: rows, seen => by
    simp only [keyRowsFrom]
    set canonical := canonicalAmount r.amount
    set d := norm nfc r.description
    set group := rowGroup r.date canonical d with hgroup
    set ordinal := (seen.get? group).getD 0 + 1 with hordinal
    obtain ⟨hnodup, hkeys⟩ := keyRowsFrom_keys hsha rows (seen.set group ordinal)
    have hrest : ∀ k ∈ keyRowsFrom nfc sha256 (seen.set group ordinal) rows,
        ∃ d' a n o, k.rowKey = rowKey sha256 d' a n o ∧
          (seen.get? (rowGroup d' a n)).getD 0 < o ∧ (rowGroup d' a n = group → ordinal < o) := by
      intro k hk
      obtain ⟨d', a, n, o, heq, hlt⟩ := hkeys k hk
      rw [Entries.get?_set] at hlt
      split_ifs at hlt with hg
      · rw [Option.getD_some] at hlt
        refine ⟨d', a, n, o, heq, ?_, fun _ => hlt⟩
        rw [← hg]
        omega
      · exact ⟨d', a, n, o, heq, hlt, fun h => absurd h.symm hg⟩
    refine ⟨List.nodup_cons.mpr ⟨fun hmem => ?_, hnodup⟩, fun k hk => ?_⟩
    · obtain ⟨k, hk, heq⟩ := List.mem_map.mp hmem
      obtain ⟨d', a, n, o, hkey, -, hlater⟩ := hrest k hk
      obtain ⟨hsame, ho⟩ := rowKey_inj hsha (hkey.symm.trans heq)
      exact absurd (hlater hsame) (by omega)
    · rcases List.mem_cons.mp hk with rfl | hk
      · exact ⟨r.date, canonical, d, ordinal, rfl, Nat.lt_succ_self _⟩
      · obtain ⟨d', a, n, o, hkey, hlt, -⟩ := hrest k hk
        exact ⟨d', a, n, o, hkey, hlt⟩

/-- Only commits give keys: an item's dedupe key is none, that of a bank id, or its row key where it
has no bank id. -/
def ExistingItem.Keyed (sha256 : CodeUnits → CodeUnits) (it : ExistingItem) : Prop :=
  it.dedupeKey = none ∨ (it.fitid = none ∧ it.dedupeKey = it.rowKey) ∨
    ∃ f, it.dedupeKey = some (fitidKey sha256 f)

theorem ExistingItem.Keyed.rowKey_of {it : ExistingItem} (h : it.Keyed sha256)
    (hsha : Function.Injective sha256) {seen : Entries CodeUnits ℕ} {k : CodeUnits}
    (hk : IsRowKey sha256 seen k) :
    it.dedupeKey = some k ∨ it.rowKey = some k ↔ it.rowKey = some k := by
  refine or_iff_right_of_imp fun hd => ?_
  rcases h with hnone | ⟨-, hrow⟩ | ⟨f, hf⟩
  · rw [hnone] at hd
    cases hd
  · exact hrow.symm.trans hd
  · obtain ⟨d, a, n, o, rfl, -⟩ := hk
    rw [hf, Option.some.injEq] at hd
    exact absurd hd.symm (rowKey_ne_fitidKey hsha d a n o f)

end Keys

end MyBooks.ImportRows
