import MyBooks.Allocation

/-!
# Splitting a document's tax over its items

`splitTax` allocates a tax by the items' own shares. Where these no longer explain it, the tax is
split by the rates. Sums, products and quotients keep 40 digits. Sums of whole cents are exact while
they fit (`allocateKept_eq`), and the parts by rate come to the tax but for their rounding: less than
a cent in all, so the second allocation is always in range (`splitTax_splits`).
-/

namespace MyBooks

/-- A sum that keeps 40 digits at each step. -/
def keptSum (xs : List Dec) : Dec := xs.foldl (fun a x => toSig 40 (a + x)) 0

/-- `allocateCents`, with the digits that its sums keep. -/
def allocateKept (shares : List Dec) (total : Dec) : Except PayError (List Dec) :=
  let remainders := shares.map fun s => Int.fract (s * 100)
  let left := toSig 40 (total * 100 - keptSum (shares.map fun s => ((⌊s * 100⌋ : ℤ) : Dec)))
  if left ≠ ⌊left⌋ ∨ left < 0 ∨ (shares.length : Dec) < left then .error .allocationOutOfRange
  else .ok (shares.zipIdx.map fun p =>
    (⌊p.1 * 100⌋ + if (ahead remainders p.2 (Int.fract (p.1 * 100)) : Dec) < left then 1 else 0) /
      100)

/-- `allocateCents` of the exact shares, else of the tax split by rate. -/
def splitTax (shares rates : List Dec) (tax : Dec) : Except PayError (List Dec) :=
  if shares = [] then .ok []
  else
    match allocateKept shares tax with
    | .ok cents => .ok cents
    | .error _ =>
      let total := rates.sum
      let scaled :=
        if total = 0 then rates.zipIdx.map fun r => if r.2 = 0 then tax else 0
        else rates.map fun r => timesDividedBy tax r total
      allocateKept scaled tax

section Kept

/-- Whole numbers of at most 40 digits are added exactly. -/
theorem foldl_kept : ∀ {ns : List ℤ} {a : ℤ},
    |(a : Dec)| + (ns.map fun n : ℤ => |(n : Dec)|).sum < 10 ^ 40 →
    (ns.map (Int.cast : ℤ → Dec)).foldl (fun a x => toSig 40 (a + x)) a =
      a + (ns.map (Int.cast : ℤ → Dec)).sum
  | [], a, _ => by simp
  | n :: ns, a, h => by
    rw [List.map_cons, List.sum_cons] at h
    have hrest : 0 ≤ (ns.map fun n : ℤ => |(n : Dec)|).sum :=
      List.sum_nonneg (List.forall_mem_map.mpr fun n _ => abs_nonneg _)
    have htri : |((a + n : ℤ) : Dec)| ≤ |(a : Dec)| + |(n : Dec)| := by
      push_cast
      exact abs_add_le _ _
    have hkept : toSig 40 ((a : Dec) + n) = ((a + n : ℤ) : Dec) := by
      rw [← Int.cast_add]
      exact toSig_of_places (p := 0) (Places.intCast _) (by rw [pow_zero, mul_one]; linarith)
    rw [List.map_cons, List.foldl_cons, hkept, foldl_kept (by linarith), List.sum_cons]
    push_cast
    ring

/-- Shares of a size whose sums fit 40 digits. -/
structure InDigits (shares : List Dec) : Prop where
  length : shares.length < 2 ^ 32
  size : (shares.map fun s => |s|).sum < 10 ^ 37

theorem abs_floor_le (x : Dec) : |((⌊x⌋ : ℤ) : Dec)| ≤ |x| + 1 := by
  have hlo := Int.sub_one_lt_floor x
  have hhi := Int.floor_le x
  rw [abs_le]
  constructor
  · linarith [neg_abs_le x]
  · linarith [le_abs_self x]

variable {shares : List Dec} {total : Dec}

theorem InDigits.floors (h : InDigits shares) :
    (shares.map fun s => |((⌊s * 100⌋ : ℤ) : Dec)|).sum < 10 ^ 39 + 2 ^ 32 := by
  have hlength : (shares.length : Dec) < 2 ^ 32 := by exact_mod_cast h.length
  have hsize := h.size
  calc (shares.map fun s => |((⌊s * 100⌋ : ℤ) : Dec)|).sum
      ≤ (shares.map fun s => |s| * 100 + 1).sum := List.sum_le_sum fun s _ => by
        have := abs_floor_le (s * 100)
        rwa [abs_mul, abs_of_pos (by norm_num : (0 : Dec) < 100)] at this
    _ = (shares.map fun s => |s|).sum * 100 + shares.length := by
        rw [List.sum_map_add, List.sum_map_mul_right, List.map_const', List.sum_replicate, nsmul_eq_mul,
          mul_one]
    _ < 10 ^ 39 + 2 ^ 32 := by linarith

/-- Within their digits the sums are exact. -/
theorem allocateKept_eq (h : InDigits shares) (hcents : Cents total) (htotal : |total| < 10 ^ 36) :
    allocateKept shares total = allocateCents shares total := by
  have hfloors := h.floors
  have hsum : keptSum (shares.map fun s => ((⌊s * 100⌋ : ℤ) : Dec)) =
      (shares.map fun s => ((⌊s * 100⌋ : ℤ) : Dec)).sum := by
    have hfold := @foldl_kept (shares.map fun s => ⌊s * 100⌋) 0 (by
      rw [List.map_map]
      rw [Int.cast_zero, abs_zero, zero_add]
      exact hfloors.trans (by norm_num))
    rwa [List.map_map, Int.cast_zero, zero_add] at hfold
  have hexact : toSig 40 (total * 100 - (shares.map fun s => ((⌊s * 100⌋ : ℤ) : Dec)).sum) =
      total * 100 - (shares.map fun s => ((⌊s * 100⌋ : ℤ) : Dec)).sum := by
    refine toSig_of_places (p := 0) ?_ ?_
    · obtain ⟨n, hn⟩ := hcents
      have htotal' : total * 100 = ((n : ℤ) : Dec) := by
        rw [← hn]
        norm_num
      rw [htotal']
      exact (Places.intCast n).sub (Places.sum (List.forall_mem_map.mpr fun s _ => Places.intCast _))
    · have hle : |(shares.map fun s => ((⌊s * 100⌋ : ℤ) : Dec)).sum| ≤
          (shares.map fun s => |((⌊s * 100⌋ : ℤ) : Dec)|).sum := by
        simpa using @abs_sum_sub_sum_le _ (fun s : Dec => ((⌊s * 100⌋ : ℤ) : Dec)) (fun _ => 0) _ shares
          fun s _ => by rw [sub_zero]
      have htri := abs_sub (total * 100) (shares.map fun s => ((⌊s * 100⌋ : ℤ) : Dec)).sum
      have hhundred : |total * 100| = |total| * 100 := by
        rw [abs_mul, abs_of_pos (by norm_num : (0 : Dec) < 100)]
      rw [pow_zero, mul_one]
      linarith
  unfold allocateKept
  simp only [hsum, hexact]
  rfl

end Kept

section Rounded

variable {rates : List Dec} {tax : Dec}

/-- The parts by rate come to the tax, but for their rounding. -/
theorem scaled_near (hrates : ∀ r ∈ rates, 0 ≤ r) (htotal : rates.sum ≠ 0) (htax : |tax| < 10 ^ 36) :
    |(rates.map fun r => timesDividedBy tax r rates.sum).sum - tax| < 1 / 100 := by
  have hnear := proportion_near hrates htotal tax
  simp only [timesDividedBy_comm _ tax] at hnear
  refine hnear.trans_lt ?_
  calc |tax| * (3 / 10 ^ 39) ≤ 10 ^ 36 * (3 / 10 ^ 39) := by gcongr
    _ < 1 / 100 := by norm_num

theorem scaled_size (hrates : ∀ r ∈ rates, 0 ≤ r) (htotal : rates.sum ≠ 0) (htax : |tax| < 10 ^ 36) :
    (rates.map fun r => |timesDividedBy tax r rates.sum|).sum < 10 ^ 37 := by
  have hsum0 : 0 ≤ rates.sum := List.sum_nonneg hrates
  calc (rates.map fun r => |timesDividedBy tax r rates.sum|).sum
      ≤ (rates.map fun r => 2 * |tax| / rates.sum * r).sum := List.sum_le_sum fun r hr => by
        have hnear := abs_timesDividedBy_sub_le tax r rates.sum
        have htri := abs_sub_abs_le_abs_sub (timesDividedBy tax r rates.sum) (tax * r / rates.sum)
        have habs : |tax * r / rates.sum| = |tax| / rates.sum * r := by
          rw [abs_div, abs_mul, abs_of_nonneg (hrates r hr), abs_of_nonneg hsum0]
          ring
        have hpos : 0 ≤ |tax| / rates.sum * r := habs ▸ abs_nonneg _
        rw [habs] at hnear htri
        have hdouble : 2 * |tax| / rates.sum * r = 2 * (|tax| / rates.sum * r) := by ring
        linarith
    _ = 2 * |tax| := by rw [List.sum_map_mul_left, List.map_id', div_mul_cancel₀ _ htotal]
    _ < 10 ^ 37 := by linarith

/-- Without a rate the first item takes the tax. -/
theorem firstTakes_sum : ∀ {rates : List Dec}, rates ≠ [] → ∀ tax : Dec,
    (rates.zipIdx.map fun r => if r.2 = 0 then tax else 0).sum = tax
  | r :: rates, _, tax => by
    have hrest : ((rates.zipIdx 1).map fun r => if r.2 = 0 then tax else 0).sum = 0 := by
      refine List.sum_eq_zero fun x hx => ?_
      obtain ⟨⟨s, i⟩, hs, rfl⟩ := List.mem_map.mp hx
      have := List.le_snd_of_mem_zipIdx hs
      exact if_neg (by omega)
    rw [List.zipIdx_cons, List.map_cons, List.sum_cons, if_pos rfl, hrest, add_zero]

end Rounded

/-- The tax as split over the items by rate, where the shares are out of range. -/
theorem allocate_scaled {rates : List Dec} {tax : Dec} (hne : rates ≠ [])
    (hlength : rates.length < 2 ^ 32) (hrates : ∀ r ∈ rates, 0 ≤ r) (htax : |tax| < 10 ^ 36)
    {scaled : List Dec}
    (h : scaled = if rates.sum = 0 then rates.zipIdx.map fun r => if r.2 = 0 then tax else 0
      else rates.map fun r => timesDividedBy tax r rates.sum) :
    scaled.length = rates.length ∧ InDigits scaled ∧ |scaled.sum - tax| < 1 / 100 := by
  split_ifs at h with htotal
  · have hlen : scaled.length = rates.length := by rw [h, List.length_map, List.length_zipIdx]
    refine ⟨hlen, ⟨hlen ▸ hlength, ?_⟩, ?_⟩
    · have habs : (scaled.map fun s => |s|) =
          rates.zipIdx.map fun r => if r.2 = 0 then |tax| else 0 := by
        rw [h, List.map_map]
        refine List.map_congr_left fun r _ => ?_
        simp only [Function.comp_apply]
        split_ifs
        · rfl
        · exact abs_zero
      rw [habs, firstTakes_sum hne]
      exact htax.trans (by norm_num)
    · rw [h, firstTakes_sum hne, sub_self, abs_zero]
      norm_num
  · have hlen : scaled.length = rates.length := by rw [h, List.length_map]
    refine ⟨hlen, ⟨hlen ▸ hlength, ?_⟩, h ▸ scaled_near hrates htotal htax⟩
    rw [h, List.map_map]
    exact scaled_size hrates htotal htax

/-- What an allocation gives: as many whole-cent parts as there are shares, which come to the
total. -/
theorem allocateCents_parts {shares cents : List Dec} {total : Dec}
    (h : allocateCents shares total = .ok cents) :
    cents.length = shares.length ∧ (∀ c ∈ cents, Cents c) ∧ cents.sum = total := by
  obtain ⟨⟨hint, h0, hlen⟩, rfl⟩ := allocateCents_eq_ok.mp h
  have hk : centsLeft shares total = (⌊centsLeft shares total⌋.toNat : ℕ) := by
    have hnonneg : 0 ≤ ⌊centsLeft shares total⌋ := Int.floor_nonneg.mpr h0
    have hcast : ((⌊centsLeft shares total⌋.toNat : ℕ) : ℤ) = ⌊centsLeft shares total⌋ :=
      Int.toNat_of_nonneg hnonneg
    calc centsLeft shares total = ⌊centsLeft shares total⌋ := hint
      _ = (⌊centsLeft shares total⌋.toNat : ℕ) := by exact_mod_cast hcast.symm
  refine ⟨by simp, fun c hc => ?_, sum_centShare ?_ hk⟩
  · obtain ⟨p, -, rfl⟩ := List.mem_map.mp hc
    exact centShare_cents p
  · rw [hk] at hlen
    exact_mod_cast hlen

/-- A tax is always split, to the cent and in full. -/
theorem splitTax_splits {shares rates : List Dec} {tax : Dec} (hne : shares ≠ [])
    (hshares : InDigits shares) (hlength : rates.length = shares.length)
    (hrates : ∀ r ∈ rates, 0 ≤ r ∧ r < 1 ∧ Places 6 r) (hcents : Cents tax)
    (htax : |tax| < 10 ^ 36) :
    ∃ cents, splitTax shares rates tax = .ok cents ∧ cents.length = shares.length ∧
      (∀ c ∈ cents, Cents c) ∧ cents.sum = tax := by
  unfold splitTax
  rw [if_neg hne, allocateKept_eq hshares hcents htax]
  cases hown : allocateCents shares tax with
  | ok cents => exact ⟨cents, rfl, allocateCents_parts hown⟩
  | error e =>
    have hrne : rates ≠ [] := fun h => hne (List.length_eq_zero_iff.mp (by rw [← hlength, h]; rfl))
    obtain ⟨hlen, hkept, hnear⟩ := allocate_scaled hrne (hlength ▸ hshares.length)
      (fun r hr => (hrates r hr).1) htax rfl
    obtain ⟨hok, -⟩ := allocateCents_of_near hcents hnear
    obtain ⟨hl, hc, hs⟩ := allocateCents_parts hok
    exact ⟨_, (allocateKept_eq hkept hcents htax).trans hok, (hl.trans hlen).trans hlength, hc, hs⟩

/-- Stale shares: the tax is split by rate. -/
theorem splitTax_splits_stale : ∃ cents, splitTax [0, 0] [0.0625, 0.02] (-8.25) = .ok cents ∧
    cents.length = 2 ∧ (∀ c ∈ cents, Cents c) ∧ cents.sum = -8.25 :=
  splitTax_splits (by simp) ⟨by norm_num, by norm_num⟩ rfl (by
    intro r hr
    rcases List.mem_cons.mp hr with rfl | hr
    · exact ⟨by norm_num, by norm_num, 62500, by norm_num⟩
    · rw [List.mem_singleton.mp hr]
      exact ⟨by norm_num, by norm_num, 20000, by norm_num⟩) ⟨-825, by norm_num⟩ (by norm_num [abs])

/-- A tax far beyond the 40 digits of the quotients is not split. -/
theorem splitTax_splits_except :
    splitTax [0, 0, 0] [0.1, 0.1, 0.1] (10 ^ 45) = .error .allocationOutOfRange := by
  decide +kernel

end MyBooks
