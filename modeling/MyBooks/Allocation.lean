import MyBooks.Receivables
import MyBooks.LargestRemainder

/-!
# Splitting a rounded total to the cent

`allocateCents` gives each share its whole cents, and one cent more to the shares of the largest
remainders. A total that is the rounded sum of the shares can always be split (`allocateCents_ok`):
the parts come to the total, and each is within a cent of its share.
-/

namespace MyBooks

/-- How many parts stand before part `i`, of remainder `r`: the larger ones, and the earlier of the
same size. -/
def ahead (remainders : List Dec) (i : ℕ) (r : Dec) : ℕ :=
  remainders.zipIdx.countP fun p => r < p.1 ∨ (p.1 = r ∧ p.2 < i)

/-- Each share down to the cent, and one cent more to those of the largest remainders. -/
def allocateCents (shares : List Dec) (total : Dec) : Except PayError (List Dec) :=
  let remainders := shares.map fun s => Int.fract (s * 100)
  let left := total * 100 - (shares.map fun s => ((⌊s * 100⌋ : ℤ) : Dec)).sum
  if left ≠ ⌊left⌋ ∨ left < 0 ∨ (shares.length : Dec) < left then .error .allocationOutOfRange
  else .ok (shares.zipIdx.map fun p =>
    (⌊p.1 * 100⌋ + if (ahead remainders p.2 (Int.fract (p.1 * 100)) : Dec) < left then 1 else 0) /
      100)

/-- The larger remainder goes first, the earlier one of two that are equal. -/
def Outranks (p q : Dec × ℕ) : Prop := q.1 < p.1 ∨ (p.1 = q.1 ∧ p.2 < q.2)

instance : DecidableRel Outranks := fun p q =>
  inferInstanceAs (Decidable (q.1 < p.1 ∨ (p.1 = q.1 ∧ p.2 < q.2)))

theorem Outranks.irrefl (p : Dec × ℕ) : ¬Outranks p p := by
  rintro (h | ⟨-, h⟩)
  · exact lt_irrefl _ h
  · exact lt_irrefl _ h

theorem Outranks.trans (p q r : Dec × ℕ) (h : Outranks p q) (h' : Outranks q r) :
    Outranks p r := by
  rcases h with h | ⟨h, hi⟩ <;> rcases h' with h' | ⟨h', hi'⟩
  · exact .inl (h'.trans h)
  · exact .inl (h' ▸ h)
  · exact .inl (h.symm ▸ h')
  · exact .inr ⟨h.trans h', hi.trans hi'⟩

theorem Outranks.total {p q : Dec × ℕ} (h : p ≠ q) : Outranks p q ∨ Outranks q p := by
  rcases lt_trichotomy p.1 q.1 with hr | hr | hr
  · exact .inr (.inl hr)
  · rcases lt_trichotomy p.2 q.2 with hi | hi | hi
    · exact .inl (.inr ⟨hr, hi⟩)
    · exact absurd (Prod.ext hr hi) h
    · exact .inr (.inr ⟨hr.symm, hi⟩)
  · exact .inl (.inl hr)

theorem ahead_eq_rankIn (remainders : List Dec) (i : ℕ) (r : Dec) :
    ahead remainders i r = rankIn Outranks remainders.zipIdx (r, i) := rfl

theorem nodup_zipIdx {α : Type*} (l : List α) : l.zipIdx.Nodup := by
  refine List.Nodup.of_map Prod.snd ?_
  rw [List.zipIdx_map_snd]
  exact List.nodup_range' ..

section Allocate

variable {shares : List Dec} {total : Dec}

/-- The remainders of the shares, in cents. -/
def remaindersOf (shares : List Dec) : List Dec := shares.map fun s => Int.fract (s * 100)

/-- The cents that whole cents leave over. -/
def centsLeft (shares : List Dec) (total : Dec) : Dec :=
  total * 100 - (shares.map fun s => ((⌊s * 100⌋ : ℤ) : Dec)).sum

/-- What share `p` is given. -/
def centShare (shares : List Dec) (total : Dec) (p : Dec × ℕ) : Dec :=
  (⌊p.1 * 100⌋ + if (ahead (remaindersOf shares) p.2 (Int.fract (p.1 * 100)) : Dec) <
    centsLeft shares total then 1 else 0) / 100

theorem allocateCents_eq_ok {cents : List Dec} :
    allocateCents shares total = .ok cents ↔
      (centsLeft shares total = ⌊centsLeft shares total⌋ ∧ 0 ≤ centsLeft shares total ∧
        centsLeft shares total ≤ shares.length) ∧
        shares.zipIdx.map (centShare shares total) = cents := by
  have hif : allocateCents shares total =
      if centsLeft shares total ≠ ⌊centsLeft shares total⌋ ∨ centsLeft shares total < 0 ∨
        (shares.length : Dec) < centsLeft shares total then .error .allocationOutOfRange
      else .ok (shares.zipIdx.map (centShare shares total)) := rfl
  rw [hif, ite_error_eq_ok]
  push Not
  rw [Except.ok.injEq]

theorem zipIdx_remaindersOf (shares : List Dec) :
    (remaindersOf shares).zipIdx =
      shares.zipIdx.map fun p => (Int.fract (p.1 * 100), p.2) := by
  unfold remaindersOf
  rw [List.zipIdx_map]
  rfl

/-- As many shares get a cent as there are cents left over. -/
theorem countP_ahead {k : ℕ} (hk : k ≤ shares.length) :
    shares.zipIdx.countP (fun p =>
      ahead (remaindersOf shares) p.2 (Int.fract (p.1 * 100)) < k) = k := by
  have hcount := countP_rankIn_lt (l := (remaindersOf shares).zipIdx) Outranks.irrefl Outranks.trans
    (fun p _ q _ h => Outranks.total h) (nodup_zipIdx _) k
  rw [zipIdx_remaindersOf, List.countP_map, ← zipIdx_remaindersOf] at hcount
  have hlen : (remaindersOf shares).zipIdx.length = shares.length := by simp [remaindersOf]
  rwa [hlen, min_eq_left hk] at hcount

theorem sum_map_ite_one {α : Type*} (p : α → Prop) [DecidablePred p] : ∀ l : List α,
    (l.map fun a => if p a then (1 : Dec) else 0).sum = (l.countP (fun a => decide (p a)) : Dec)
  | [] => by simp
  | a :: l => by
    rw [List.map_cons, List.sum_cons, List.countP_cons, sum_map_ite_one p l]
    by_cases h : p a
    · simp [h, add_comm]
    · simp [h]

theorem sum_centShare {k : ℕ} (hk : k ≤ shares.length) (hleft : centsLeft shares total = k) :
    (shares.zipIdx.map (centShare shares total)).sum = total := by
  have hfloor : (shares.zipIdx.map fun p => ((⌊p.1 * 100⌋ : ℤ) : Dec)).sum =
      (shares.map fun s => ((⌊s * 100⌋ : ℤ) : Dec)).sum := by
    conv_rhs => rw [← List.zipIdx_map_fst 0 shares, List.map_map]
    rfl
  have hextra : (shares.zipIdx.map fun p =>
      if (ahead (remaindersOf shares) p.2 (Int.fract (p.1 * 100)) : Dec) < centsLeft shares total
      then (1 : Dec) else 0).sum = k := by
    rw [sum_map_ite_one, hleft]
    have h := countP_ahead hk
    conv_rhs => rw [← h]
    norm_cast
  have hsum : (shares.zipIdx.map (centShare shares total)).sum =
      ((shares.zipIdx.map fun p => ((⌊p.1 * 100⌋ : ℤ) : Dec)).sum +
        (shares.zipIdx.map fun p =>
          if (ahead (remaindersOf shares) p.2 (Int.fract (p.1 * 100)) : Dec) <
            centsLeft shares total then (1 : Dec) else 0).sum) / 100 := by
    rw [← List.sum_map_add, div_eq_mul_inv, ← List.sum_map_mul_right]
    exact congrArg List.sum (List.map_congr_left fun p _ => by rw [centShare, div_eq_mul_inv])
  rw [hsum, hfloor, hextra, ← hleft, centsLeft]
  ring

/-- A whole-cent total within a cent of the sum leaves no more cents than there are remainders. -/
theorem centsLeft_of_near (hcents : Cents total) (hnear : |shares.sum - total| < 1 / 100) :
    ∃ k : ℕ, centsLeft shares total = k ∧
      k ≤ (remaindersOf shares).countP (fun r => decide (0 < r)) := by
  obtain ⟨n, hn⟩ := hcents
  set xs := shares.map fun s => s * 100 with hxs
  have hsum : xs.sum = shares.sum * 100 := by rw [hxs, List.sum_map_mul_right, List.map_id']
  have htotal : total * 100 = (n : ℤ) := by
    rw [← hn]
    norm_num
  obtain ⟨hlo, hhi⟩ := abs_lt.mp hnear
  have hrange := rest_le_countP (show xs.sum - 1 < (n : ℤ) by linarith) (by linarith)
  have hfract : xs.map Int.fract = remaindersOf shares := by
    rw [hxs, List.map_map]
    rfl
  have hleft : centsLeft shares total = ((n - (xs.map fun x => ⌊x⌋).sum : ℤ) : Dec) := by
    rw [centsLeft, htotal, Int.cast_sub, ← floor_sum_cast, hxs, List.map_map]
    rfl
  rw [hfract] at hrange
  obtain ⟨k, hk⟩ := Int.eq_ofNat_of_zero_le hrange.1
  rw [hk] at hrange hleft
  exact ⟨k, by exact_mod_cast hleft, by exact_mod_cast hrange.2⟩

theorem abs_sub_round2_lt (x : Dec) : |x - round2 x| < 1 / 100 := by
  have hlo := le_roundHalfUp (x * 10 ^ 2)
  have hhi := roundHalfUp_le (x * 10 ^ 2)
  rw [round2, toPlaces, abs_lt]
  constructor <;> linarith

/-- The total is the sum of the shares to the cent. -/
theorem centsLeft_range (h : total = round2 shares.sum) : ∃ k : ℕ, centsLeft shares total = k ∧
    k ≤ (remaindersOf shares).countP (fun r => decide (0 < r)) :=
  centsLeft_of_near (h ▸ Cents.round2 _) (h ▸ abs_sub_round2_lt _)

/-- A share of whole cents is given just these. -/
theorem centShare_of_fract_zero {i : ℕ} {s : Dec} (h : total = round2 shares.sum)
    (hs : Int.fract (s * 100) = 0) : centShare shares total (s, i) = s := by
  obtain ⟨k, hk, hle⟩ := centsLeft_range h
  have hcount : (remaindersOf shares).countP (fun r => decide (0 < r)) ≤
      ahead (remaindersOf shares) i 0 := by
    unfold ahead
    calc (remaindersOf shares).countP (fun r => decide (0 < r))
        = ((remaindersOf shares).zipIdx.map Prod.fst).countP (fun r => decide (0 < r)) := by
          rw [List.zipIdx_map_fst]
      _ = (remaindersOf shares).zipIdx.countP (fun p => decide (0 < p.1)) := by
          rw [List.countP_map]
          rfl
      _ ≤ _ := List.countP_mono_left fun p _ hp => by
          have : (0 : Dec) < p.1 := by simpa using hp
          simp [this]
  have hahead : ¬(ahead (remaindersOf shares) i 0 : Dec) < centsLeft shares total := by
    rw [hk, not_lt]
    exact_mod_cast hle.trans hcount
  have hfloor : ((⌊s * 100⌋ : ℤ) : Dec) = s * 100 := by
    have := Int.floor_add_fract (s * 100)
    rwa [hs, add_zero] at this
  simp only [centShare, hs, if_neg hahead, hfloor]
  ring

/-- Each part is within a cent of its share. -/
theorem abs_centShare_sub_lt {i : ℕ} {s : Dec} (h : total = round2 shares.sum) :
    |centShare shares total (s, i) - s| < 1 / 100 := by
  rcases eq_or_ne (Int.fract (s * 100)) 0 with hs | hs
  · rw [centShare_of_fract_zero h hs]
    norm_num
  · have h0 : 0 < Int.fract (s * 100) := lt_of_le_of_ne (Int.fract_nonneg _) (Ne.symm hs)
    have h1 := Int.fract_lt_one (s * 100)
    have hfloor := Int.floor_add_fract (s * 100)
    simp only [centShare]
    rw [abs_lt]
    split_ifs
    · constructor <;> linarith
    · constructor <;> linarith

/-- A total near the sum of the shares is split: to the cent, in the shares' order, and exactly. -/
theorem allocateCents_of_near (hcents : Cents total) (hnear : |shares.sum - total| < 1 / 100) :
    allocateCents shares total = .ok (shares.zipIdx.map (centShare shares total)) ∧
      (shares.zipIdx.map (centShare shares total)).sum = total := by
  obtain ⟨k, hk, hle⟩ := centsLeft_of_near hcents hnear
  have hlen : k ≤ shares.length := by
    refine hle.trans (List.countP_le_length.trans ?_)
    simp [remaindersOf]
  refine ⟨allocateCents_eq_ok.mpr ⟨⟨?_, ?_, ?_⟩, rfl⟩, sum_centShare hlen hk⟩
  · rw [hk, Int.floor_natCast, Int.cast_natCast]
  · rw [hk]
    exact Nat.cast_nonneg k
  · rw [hk]
    exact_mod_cast hlen

/-- A rounded sum of shares is always split. -/
theorem allocateCents_ok (h : total = round2 shares.sum) :
    allocateCents shares total = .ok (shares.zipIdx.map (centShare shares total)) ∧
      (shares.zipIdx.map (centShare shares total)).sum = total :=
  allocateCents_of_near (h ▸ Cents.round2 _) (h ▸ abs_sub_round2_lt _)

theorem centShare_cents (p : Dec × ℕ) : Cents (centShare shares total p) := by
  refine ⟨⌊p.1 * 100⌋ + if (ahead (remaindersOf shares) p.2 (Int.fract (p.1 * 100)) : Dec) <
    centsLeft shares total then 1 else 0, ?_⟩
  rw [centShare]
  push_cast
  norm_num

theorem mem_zipIdx_remaindersOf {p : Dec × ℕ} (h : p ∈ shares.zipIdx) :
    (Int.fract (p.1 * 100), p.2) ∈ (remaindersOf shares).zipIdx := by
  rw [zipIdx_remaindersOf]
  exact List.mem_map_of_mem (f := fun p : Dec × ℕ => (Int.fract (p.1 * 100), p.2)) h

/-- A negative share stands before the others: so that its missing cent is made up first. -/
def Precedes (p q : Dec × ℕ) : Prop :=
  (q.1 - p.1) * 100 < 1 ∨ ((q.1 - p.1) * 100 = 1 ∧ p.2 < q.2)

/-- When shares come to less than half a cent, those that straddle no cent are all below a cent. -/
theorem abs_lt_of_precedes (h : |shares.sum| * 100 < 1 / 2)
    (hpre : ∀ p ∈ shares.zipIdx, ∀ q ∈ shares.zipIdx, p.1 < 0 → 0 ≤ q.1 → Precedes p q)
    {s : Dec} (hs : s ∈ shares) : -1 < s * 100 ∧ s * 100 < 1 := by
  have hzip : ∀ x ∈ shares, ∃ i, (x, i) ∈ shares.zipIdx := fun x hx => by
    obtain ⟨i, hi, rfl⟩ := List.mem_iff_getElem.mp hx
    exact ⟨i, List.mem_zipIdx_iff_getElem?.mpr (by simp)⟩
  obtain ⟨i, hi⟩ := hzip s hs
  have habs := abs_lt.mp (by linarith : |shares.sum| < 1 / 200)
  constructor
  · by_contra hlow
    have hnonpos : ∀ x ∈ shares, x ≤ 0 := fun x hx => by
      obtain ⟨j, hj⟩ := hzip x hx
      by_contra hx0
      rcases hpre _ hi _ hj (by linarith) (by linarith) with h | ⟨h, -⟩
      all_goals
        simp only [] at h
        linarith
    have hle : shares.sum ≤ s := by
      have := List.single_le_sum (l := shares.map fun x => x * -1) (by
        intro x hx
        obtain ⟨y, hy, rfl⟩ := List.mem_map.mp hx
        linarith [hnonpos y hy]) (s * -1) (List.mem_map_of_mem hs)
      rw [List.sum_map_mul_right, List.map_id'] at this
      linarith
    linarith
  · by_contra hhigh
    have hnonneg : ∀ x ∈ shares, 0 ≤ x := fun x hx => by
      obtain ⟨j, hj⟩ := hzip x hx
      by_contra hx0
      rcases hpre _ hj _ hi (by linarith) (by linarith) with h | ⟨h, -⟩
      all_goals
        simp only [] at h
        linarith
    have := List.single_le_sum hnonneg s hs
    linarith

theorem floor_of_neg {x : Dec} (h : x < 0) (h' : -1 < x) : ⌊x⌋ = -1 :=
  Int.floor_eq_iff.mpr (by push_cast; constructor <;> linarith)

theorem ahead_remaindersOf (i : ℕ) (r : Dec) : ahead (remaindersOf shares) i r =
    shares.zipIdx.countP fun q => Outranks (Int.fract (q.1 * 100), q.2) (r, i) := by
  rw [ahead_eq_rankIn, rankIn, zipIdx_remaindersOf, List.countP_map]
  rfl

/-- Shares below a cent leave a cent over for each negative one. -/
theorem centsLeft_of_small (hsmall : ∀ s ∈ shares, -1 < s * 100 ∧ s * 100 < 1) :
    centsLeft shares 0 = (shares.zipIdx.countP (fun q => decide (q.1 < 0)) : Dec) := by
  have hfloor : shares.map (fun s => ((⌊s * 100⌋ : ℤ) : Dec)) =
      shares.map fun s => (if s < 0 then 1 else 0) * -1 := by
    refine List.map_congr_left fun s hs => ?_
    obtain ⟨hlo, hhi⟩ := hsmall s hs
    split_ifs with hneg
    · rw [floor_of_neg (by linarith) hlo]
      norm_num
    · rw [Int.floor_eq_zero_iff.mpr ⟨by linarith, hhi⟩]
      norm_num
  have hcount : shares.countP (fun s => decide (s < 0)) =
      shares.zipIdx.countP (fun q => decide (q.1 < 0)) := by
    conv_lhs => rw [← List.zipIdx_map_fst 0 shares, List.countP_map]
    rfl
  rw [centsLeft, hfloor, List.sum_map_mul_right, sum_map_ite_one, hcount]
  ring

/-- Nothing is left for any share of a total of nothing when no two of them straddle a cent. -/
theorem centShare_eq_zero_iff (h : round2 shares.sum = 0) :
    (∀ p ∈ shares.zipIdx, centShare shares 0 p = 0) ↔
      ∀ p ∈ shares.zipIdx, ∀ q ∈ shares.zipIdx, p.1 < 0 → 0 ≤ q.1 → Precedes p q := by
  have hsmall : |shares.sum| * 100 < 1 / 2 := by
    have := toPlaces_eq_zero.mp h
    linarith
  obtain ⟨k, hk, -⟩ := centsLeft_range h.symm
  constructor
  · intro hzero p hp q hq hneg hpos
    have hcents : ∀ p ∈ shares.zipIdx, ((⌊p.1 * 100⌋ : ℤ) : Dec) +
        (if (ahead (remaindersOf shares) p.2 (Int.fract (p.1 * 100)) : Dec) < k then 1 else 0) = 0 :=
      fun p hp => by
        have := hzero p hp
        rw [centShare, hk] at this
        linarith
    have hp' := hcents p hp
    have hq' := hcents q hq
    have hpf : ⌊p.1 * 100⌋ < 0 := Int.floor_lt.mpr (by push_cast; linarith)
    have hqf : 0 ≤ ⌊q.1 * 100⌋ := Int.floor_nonneg.mpr (by linarith)
    have hpf' : ((⌊p.1 * 100⌋ : ℤ) : Dec) < 0 := by exact_mod_cast hpf
    have hqf' : (0 : Dec) ≤ ((⌊q.1 * 100⌋ : ℤ) : Dec) := by exact_mod_cast hqf
    split_ifs at hp' hq' with h1 h2 h2
    · linarith
    · have hpx := Int.floor_add_fract (p.1 * 100)
      have hqx := Int.floor_add_fract (q.1 * 100)
      have hlt : ahead (remaindersOf shares) p.2 (Int.fract (p.1 * 100)) <
          ahead (remaindersOf shares) q.2 (Int.fract (q.1 * 100)) := by
        exact_mod_cast lt_of_lt_of_le h1 (not_lt.mp h2)
      rcases Outranks.total (p := (Int.fract (p.1 * 100), p.2)) (q := (Int.fract (q.1 * 100), q.2))
        (fun heq => by
          simp only [Prod.mk.injEq] at heq
          rw [heq.1, heq.2] at hlt
          exact lt_irrefl _ hlt) with h | h
      · rcases h with h | ⟨h, hi⟩
        · exact .inl (by simp only [] at h; linarith)
        · exact .inr ⟨by simp only [] at h; linarith, hi⟩
      · have := rankIn_lt_rankIn Outranks.irrefl Outranks.trans (mem_zipIdx_remaindersOf hq) h
        rw [← ahead_eq_rankIn, ← ahead_eq_rankIn] at this
        omega
    · linarith
    · linarith
  · intro hpre p hp
    have hbound := fun s hs => abs_lt_of_precedes hsmall hpre (s := s) hs
    have hfract : ∀ q ∈ shares.zipIdx, Int.fract (q.1 * 100) =
        if q.1 < 0 then q.1 * 100 + 1 else q.1 * 100 := fun q hq => by
      obtain ⟨hlo, hhi⟩ := hbound q.1 (List.fst_mem_of_mem_zipIdx hq)
      split_ifs with hneg
      · rw [Int.fract, floor_of_neg (by linarith) hlo]
        push_cast
        ring
      · exact Int.fract_eq_self.mpr ⟨by linarith, hhi⟩
    -- a negative share outranks every other
    have hout : ∀ p ∈ shares.zipIdx, ∀ q ∈ shares.zipIdx, p.1 < 0 → ¬q.1 < 0 →
        Outranks (Int.fract (p.1 * 100), p.2) (Int.fract (q.1 * 100), q.2) := by
      intro p hp q hq hneg hpos
      rw [hfract p hp, hfract q hq, if_pos hneg, if_neg hpos]
      rcases hpre p hp q hq hneg (not_lt.mp hpos) with h | ⟨h, hi⟩
      · exact .inl (by simp only []; linarith)
      · exact .inr ⟨by simp only []; linarith, hi⟩
    obtain ⟨hlo, hhi⟩ := hbound p.1 (List.fst_mem_of_mem_zipIdx hp)
    rw [centShare, centsLeft_of_small hbound, ahead_remaindersOf]
    by_cases hneg : p.1 < 0
    · have hlt := countP_lt_countP (l := shares.zipIdx)
        (p := fun q => Outranks (Int.fract (q.1 * 100), q.2) (Int.fract (p.1 * 100), p.2))
        (q := fun q => decide (q.1 < 0)) (fun q hq ho => by
          by_contra hpos
          exact Outranks.irrefl _ (Outranks.trans _ _ _ (by simpa using ho)
            (hout p hp q hq hneg (by simpa using hpos)))) hp
        (by simpa using Outranks.irrefl _) (by simpa using hneg)
      rw [if_pos (by exact_mod_cast hlt), floor_of_neg (by linarith) hlo]
      norm_num
    · have hle : shares.zipIdx.countP (fun q => decide (q.1 < 0)) ≤ shares.zipIdx.countP fun q =>
          Outranks (Int.fract (q.1 * 100), q.2) (Int.fract (p.1 * 100), p.2) :=
        List.countP_mono_left fun q hq hqneg => by
          simpa using hout q hq p hp (by simpa using hqneg) hneg
      rw [if_neg (by rw [not_lt]; exact_mod_cast hle), Int.floor_eq_zero_iff.mpr ⟨by linarith, hhi⟩]
      norm_num

end Allocate

/-! ## Shares in proportion -/

/-- A product and its quotient, each kept to 40 digits. -/
def timesDividedBy (x y z : Dec) : Dec := toSig 40 (toSig 40 (x * y) / z)

section Proportion

variable {x y z : Dec}

theorem timesDividedBy_comm (x y z : Dec) : timesDividedBy x y z = timesDividedBy y x z := by
  rw [timesDividedBy, mul_comm, timesDividedBy]

@[simp] theorem timesDividedBy_zero (x z : Dec) : timesDividedBy x 0 z = 0 := by
  rw [timesDividedBy, mul_zero, toSig_zero, zero_div, toSig_zero]

theorem timesDividedBy_nonneg (hx : 0 ≤ x) (hy : 0 ≤ y) (hz : 0 ≤ z) : 0 ≤ timesDividedBy x y z :=
  toSig_nonneg 40 (div_nonneg (toSig_nonneg 40 (mul_nonneg hx hy)) hz)

theorem abs_toSig_40_sub_le (x : Dec) : |toSig 40 x - x| ≤ |x| / 10 ^ 39 := by
  rcases eq_or_ne x 0 with rfl | hx
  · rw [toSig_zero]
    simp
  · have h := abs_toSig_sub_le 40 hx
    have hpos : 0 ≤ |x| / 10 ^ 39 := by positivity
    have hpow : (10 : ℚ) ^ (((40 : ℕ) : ℤ) - 1) = 10 ^ 39 := by norm_num
    rw [hpow] at h
    linarith

/-- Two roundings move a quotient by no more than three units of its last digit. -/
theorem abs_timesDividedBy_sub_le (x y z : Dec) :
    |timesDividedBy x y z - x * y / z| ≤ |x * y / z| * (3 / 10 ^ 39) := by
  have hproduct : |toSig 40 (x * y) / z - x * y / z| ≤ |x * y / z| / 10 ^ 39 := by
    rw [← sub_div, abs_div, abs_div, div_right_comm]
    gcongr
    exact abs_toSig_40_sub_le _
  have hquotient := abs_toSig_40_sub_le (toSig 40 (x * y) / z)
  have hsize : |toSig 40 (x * y) / z| ≤ 2 * |x * y / z| := by
    have htri := abs_sub_abs_le_abs_sub (toSig 40 (x * y) / z) (x * y / z)
    have hsmall : |x * y / z| / 10 ^ 39 ≤ |x * y / z| := div_le_self (abs_nonneg _) (by norm_num)
    linarith
  calc |timesDividedBy x y z - x * y / z|
      ≤ |timesDividedBy x y z - toSig 40 (x * y) / z| + |toSig 40 (x * y) / z - x * y / z| :=
        abs_sub_le _ _ _
    _ ≤ 2 * |x * y / z| / 10 ^ 39 + |x * y / z| / 10 ^ 39 := by
        refine add_le_add (hquotient.trans ?_) hproduct
        gcongr
    _ = |x * y / z| * (3 / 10 ^ 39) := by ring

/-- Terms that are each off by no more than an error make a sum off by no more than the errors. -/
theorem abs_sum_sub_sum_le {α : Type} {f g e : α → Dec} : ∀ {xs : List α},
    (∀ x ∈ xs, |f x - g x| ≤ e x) → |(xs.map f).sum - (xs.map g).sum| ≤ (xs.map e).sum
  | [], _ => by simp
  | x :: xs, h => by
    have hx := h x List.mem_cons_self
    have ih := abs_sum_sub_sum_le fun y hy => h y (List.mem_cons_of_mem x hy)
    rw [List.map_cons, List.map_cons, List.map_cons, List.sum_cons, List.sum_cons, List.sum_cons,
      add_sub_add_comm]
    exact (abs_add_le _ _).trans (add_le_add hx ih)

/-- Shares in proportion to weights come to the whole, but for their rounding. -/
theorem proportion_near {weights : List Dec} (h0 : ∀ x ∈ weights, 0 ≤ x) (hsum : weights.sum ≠ 0)
    (y : Dec) : |(weights.map fun x => timesDividedBy x y weights.sum).sum - y| ≤
      |y| * (3 / 10 ^ 39) := by
  have hpos : 0 ≤ weights.sum := List.sum_nonneg h0
  have hwhole : ∀ u : Dec, (weights.map fun x => x * u / weights.sum).sum = u := fun u => by
    have hscale : ∀ x ∈ weights, x * u / weights.sum = u / weights.sum * x := fun x _ => by ring
    rw [List.map_congr_left hscale, List.sum_map_mul_left, List.map_id', div_mul_cancel₀ _ hsum]
  have hnear := @abs_sum_sub_sum_le _ _ _ _ weights fun x _ =>
    abs_timesDividedBy_sub_le x y weights.sum
  have herror : (weights.map fun x => |x * y / weights.sum| * (3 / 10 ^ 39)).sum =
      |y| * (3 / 10 ^ 39) := by
    rw [List.sum_map_mul_right]
    refine congrArg (· * _) ((congrArg List.sum (List.map_congr_left fun x hx => ?_)).trans
      (hwhole |y|))
    rw [abs_div, abs_mul, abs_of_nonneg (h0 x hx), abs_of_nonneg hpos]
  rwa [hwhole, herror] at hnear

/-- Of money amounts the quotient's cents are those of the exact one. -/
theorem round2_timesDividedBy (hx : Cents x) (hy : Places 4 y) (hz : Places 4 z) (hpos : 0 < z)
    (hxy : |x * y| < 10 ^ 30) : round2 (timesDividedBy x y z) = round2 (x * y / z) := by
  have hexact : Places 6 (x * y) := by
    obtain ⟨m, hm⟩ := hx
    obtain ⟨n, hn⟩ := hy
    refine ⟨m * n, ?_⟩
    push_cast
    rw [← hm, ← hn]
    ring
  have hproduct : toSig 40 (x * y) = x * y := by
    refine toSig_of_places hexact ?_
    calc |x * y| * 10 ^ 6 ≤ 10 ^ 30 * 10 ^ 6 := by gcongr
      _ < 10 ^ 40 := by norm_num
  have hsize : |x * y| * 10 ^ (2 + 4) < 10 ^ 39 := by
    calc |x * y| * 10 ^ (2 + 4) ≤ 10 ^ 30 * 10 ^ (2 + 4) := by gcongr
      _ < 10 ^ 39 := by norm_num
  rw [timesDividedBy, hproduct, round2, toPlaces_quotient hexact hz hpos.ne' hsize]
  rfl

end Proportion

end MyBooks
