import MyBooks.SalesTotals
import Mathlib.Algebra.BigOperators.Group.Finset.Piecewise

/-!
# The tax of a document is allocated exactly

Line taxes, group taxes and member taxes each come to the document's tax, and a line's tax is within
a cent of the line at its rate. With one sales tax the last holds unless the taxable lines cancel to
no tax at all while one of them alone is taxed a cent or more (`salesTotals_exact_iff`): then nothing
is allocated.
-/

namespace MyBooks

open Finset

section FillTaxes

variable {taxes : ℕ → Dec}

theorem fillTaxes_of_notMem : ∀ (idx : List ℕ) (shares : List Dec) (taxes : ℕ → Dec) {i : ℕ},
    i ∉ idx → fillTaxes taxes idx shares i = taxes i
  | [], _, _, _, _ => rfl
  | _ :: _, [], _, _, _ => rfl
  | j :: idx, x :: shares, taxes, i, h => by
    rw [List.mem_cons, not_or] at h
    have ih := fillTaxes_of_notMem idx shares (Function.update taxes j x) h.2
    rw [Function.update_of_ne h.1] at ih
    exact ih

theorem fillTaxes_of_mem : ∀ (idx : List ℕ) (shares : List Dec) (taxes : ℕ → Dec) {i : ℕ} {x : Dec},
    idx.Nodup → (i, x) ∈ idx.zip shares → fillTaxes taxes idx shares i = x
  | [], _, _, _, _, _, h => by cases h
  | _ :: _, [], _, _, _, _, h => by cases h
  | j :: idx, y :: shares, taxes, i, x, hnd, h => by
    rw [List.nodup_cons] at hnd
    rcases List.mem_cons.mp h with h | h
    · obtain ⟨rfl, rfl⟩ := Prod.mk.injEq .. ▸ h
      have := fillTaxes_of_notMem idx shares (Function.update taxes i x) hnd.1
      rw [Function.update_self] at this
      exact this
    · exact fillTaxes_of_mem idx shares (Function.update taxes j y) hnd.2 h

/-- Taxes filled in where there were none add to the sum. -/
theorem sum_fillTaxes {n : ℕ} : ∀ (idx : List ℕ) (shares : List Dec) (taxes : ℕ → Dec),
    idx.Nodup → (∀ i ∈ idx, i < n ∧ taxes i = 0) → shares.length = idx.length →
      ∑ i ∈ range n, fillTaxes taxes idx shares i = ∑ i ∈ range n, taxes i + shares.sum
  | [], [], taxes, _, _, _ => by simp [fillTaxes]
  | j :: idx, x :: shares, taxes, hnd, hidx, hlen => by
    rw [List.nodup_cons] at hnd
    have hj := hidx j List.mem_cons_self
    have ih := sum_fillTaxes idx shares (Function.update taxes j x) hnd.2 (fun i hi => by
        obtain ⟨h1, h2⟩ := hidx i (List.mem_cons_of_mem _ hi)
        refine ⟨h1, ?_⟩
        rwa [Function.update_of_ne]
        rintro rfl
        exact hnd.1 hi) (by simpa using hlen)
    have hupd := Finset.sum_update_of_mem (mem_range.mpr hj.1) taxes x
    have hold := Finset.sum_update_of_mem (mem_range.mpr hj.1) taxes 0
    rw [← hj.2, Function.update_eq_self] at hold
    rw [List.sum_cons]
    calc ∑ i ∈ range n, fillTaxes taxes (j :: idx) (x :: shares) i
        = ∑ i ∈ range n, Function.update taxes j x i + shares.sum := ih
      _ = _ := by
        rw [hupd, hold, hj.2]
        ring

theorem fillTaxes_cents {idx : List ℕ} {shares : List Dec} (hs : ∀ x ∈ shares, Cents x)
    (ht : ∀ i, Cents (taxes i)) (hnd : idx.Nodup) (hlen : shares.length = idx.length) (i : ℕ) :
    Cents (fillTaxes taxes idx shares i) := by
  by_cases h : i ∈ idx
  · obtain ⟨k, hk, rfl⟩ := List.mem_iff_getElem.mp h
    have hmem : (idx[k], shares[k]) ∈ idx.zip shares := by
      rw [List.mem_iff_getElem]
      exact ⟨k, by rw [List.length_zip, hlen, min_self]; exact hk, by simp⟩
    rw [fillTaxes_of_mem _ _ _ hnd hmem]
    exact hs _ (List.getElem_mem _)
  · rw [fillTaxes_of_notMem _ _ _ h]
    exact ht i

end FillTaxes

section Group

/-- The lines `idx` at a rate, and their tax in all. -/
def groupShares (idx : List ℕ) (amount : ℕ → Dec) (rate : Dec) : List Dec :=
  idx.map fun i => amount i * rate

/-- A rounded sum of shares is split exactly, in order, into cents. -/
theorem allocateTax_ok {shares : List Dec} {tax : Dec} (h : tax = round2 shares.sum) :
    ∃ cents, allocateTax shares tax = .ok cents ∧ cents.length = shares.length ∧
      cents.sum = tax ∧ (∀ x ∈ cents, Cents x) ∧
      ∀ (k : ℕ) (hk : k < shares.length) (hk' : k < cents.length),
        |cents[k] - shares[k]| < 1 / 100 := by
  obtain ⟨hok, hsum⟩ := allocateCents_ok h
  refine ⟨_, by rw [allocateTax, hok], by simp, hsum, ?_, ?_⟩
  · intro x hx
    obtain ⟨p, -, rfl⟩ := List.mem_map.mp hx
    exact centShare_cents p
  · intro k hk hk'
    rw [List.getElem_map, List.getElem_zipIdx, Nat.zero_add]
    exact abs_centShare_sub_lt h

/-- The taxes of a group's lines: of their sum, and near each line's own. -/
theorem allocateTax_group {idx : List ℕ} {tax : Dec} (amount : ℕ → Dec) (rate : Dec)
    (taxes : ℕ → Dec) (htax : tax = round2 ((idx.map amount).sum * rate)) (hnd : idx.Nodup) :
    ∃ shares, allocateTax (groupShares idx amount rate) tax = .ok shares ∧
      shares.length = idx.length ∧ shares.sum = tax ∧ (∀ x ∈ shares, Cents x) ∧
      ∀ i ∈ idx, |fillTaxes taxes idx shares i - amount i * rate| < 1 / 100 := by
  have hround : tax = round2 (groupShares idx amount rate).sum := by
    rw [htax, groupShares, List.sum_map_mul_right]
  obtain ⟨shares, hok, hlen, hsum, hcents, hnear⟩ := allocateTax_ok hround
  rw [groupShares, List.length_map] at hlen
  refine ⟨shares, hok, hlen, hsum, hcents, fun i hi => ?_⟩
  obtain ⟨k, hk, rfl⟩ := List.mem_iff_getElem.mp hi
  have hmem : (idx[k], shares[k]) ∈ idx.zip shares := by
    rw [List.mem_iff_getElem]
    exact ⟨k, by rw [List.length_zip, hlen, min_self]; exact hk, by simp⟩
  rw [fillTaxes_of_mem _ _ _ hnd hmem]
  have := hnear k (by simpa [groupShares] using hk) (hlen ▸ hk)
  simpa [groupShares] using this

end Group

section LineRates

variable {lines : List SalesAmountInput} {rates : ℕ → Dec} {k : Dec} {i n : ℕ}

/-- The taxable lines at the rate `k`, in their order. -/
def groupIdx (lines : List SalesAmountInput) (rates : ℕ → Dec) (k : Dec) : List ℕ :=
  ((lines.zipIdx.filter fun p => p.1.isTaxable && rates p.2 ≠ 0).filter
    fun p => toPlaces 6 (rates p.2) = k).map (·.2)

theorem mem_groupIdx : i ∈ groupIdx lines rates k ↔
    ∃ l, (l, i) ∈ lines.zipIdx ∧ l.isTaxable ∧ rates i ≠ 0 ∧ toPlaces 6 (rates i) = k := by
  simp only [groupIdx, List.mem_map, List.mem_filter, decide_eq_true_eq, Bool.and_eq_true]
  constructor
  · rintro ⟨⟨l, j⟩, ⟨⟨hmem, ht, hr⟩, hk⟩, rfl⟩
    exact ⟨l, hmem, ht, hr, hk⟩
  · rintro ⟨l, hmem, ht, hr, hk⟩
    exact ⟨(l, i), ⟨⟨hmem, ht, hr⟩, hk⟩, rfl⟩

theorem nodup_groupIdx : (groupIdx lines rates k).Nodup := by
  have hsub : (groupIdx lines rates k).Sublist (lines.zipIdx.map (·.2)) :=
    (List.filter_sublist.trans List.filter_sublist).map _
  refine hsub.nodup ?_
  rw [List.zipIdx_map_snd]
  exact List.nodup_range' ..

theorem lt_of_mem_groupIdx (h : i ∈ groupIdx lines rates k) : i < lines.length := by
  obtain ⟨l, hl, -⟩ := mem_groupIdx.mp h
  exact List.snd_lt_of_mem_zipIdx hl

theorem foldl_getD_append {α β : Type*} (f : α → β) : ∀ (xs : List α) (o : Option (List β)),
    xs.foldl (fun o x => some (o.getD [] ++ [f x])) o =
      if xs = [] then o else some (o.getD [] ++ xs.map f)
  | [], _ => rfl
  | x :: xs, o => by
    rw [List.foldl_cons, foldl_getD_append f xs]
    by_cases h : xs = []
    · subst h
      simp
    · simp [h]

theorem get?_taxableGroups : (taxableGroups lines rates).get? k =
    if groupIdx lines rates k = [] then none else some (groupIdx lines rates k) := by
  rw [taxableGroups, Entries.get?_foldl_update (fun p : SalesAmountInput × ℕ => toPlaces 6 (rates p.2))
    (fun p g => g.getD [] ++ [p.2]), foldl_getD_append (fun p : SalesAmountInput × ℕ => p.2)]
  simp only [groupIdx, List.map_eq_nil_iff, Entries.get?_nil, Option.getD_none, List.nil_append]

theorem nodup_keys_taxableGroups (lines : List SalesAmountInput) (rates : ℕ → Dec) :
    (taxableGroups lines rates).keys.Nodup :=
  Entries.nodup_keys_foldl_update (fun p : SalesAmountInput × ℕ => toPlaces 6 (rates p.2)) _ _
    List.nodup_nil

theorem mem_taxableGroups {g : Dec × List ℕ} (h : g ∈ taxableGroups lines rates) :
    g.2 = groupIdx lines rates g.1 ∧ g.2 ≠ [] := by
  have hget := (Entries.get?_eq_some (nodup_keys_taxableGroups lines rates)).mpr h
  rw [get?_taxableGroups] at hget
  split_ifs at hget with hnil
  obtain hidx := Option.some.inj hget
  exact ⟨hidx.symm, hidx ▸ hnil⟩

theorem pairwise_taxableGroups :
    (taxableGroups lines rates).Pairwise fun g g' => ∀ i ∈ g.2, i ∉ g'.2 := by
  have hkeys := List.pairwise_map.mp (nodup_keys_taxableGroups lines rates)
  refine hkeys.imp_of_mem fun {g g'} hg hg' hne i hi hi' => hne ?_
  rw [(mem_taxableGroups hg).1, mem_groupIdx] at hi
  rw [(mem_taxableGroups hg').1, mem_groupIdx] at hi'
  obtain ⟨-, -, -, -, hk⟩ := hi
  obtain ⟨-, -, -, -, hk'⟩ := hi'
  rw [← hk, hk']

/-- The taxes of the first `n` lines and of the groups both come to the tax so far. -/
structure TaxState.Exact (n : ℕ) (s : TaxState) : Prop where
  lines : ∑ i ∈ range n, s.taxes i = s.taxTotal
  groups : (s.taxGroups.map (·.tax)).sum = s.taxTotal
  cents : ∀ i, Cents (s.taxes i)
  totalCents : Cents s.taxTotal

/-- What taxing the group `g` does to the taxes. -/
structure Taxed (lines : List SalesAmountInput) (floorBases : Bool) (g : Dec × List ℕ)
    (s s' : TaxState) : Prop where
  rates : s'.taxGroups.map (·.rate) = s.taxGroups.map (·.rate) ++ [g.1]
  frame : ∀ i ∉ g.2, s'.taxes i = s.taxes i
  near : (floorBases → 0 ≤ (g.2.map (amountAt lines)).sum) →
    ∀ i ∈ g.2, |s'.taxes i - amountAt lines i * g.1| < 1 / 100

theorem taxGroup_ok (lines : List SalesAmountInput) (floorBases : Bool) {s : TaxState} {g : Dec × List ℕ} (hs : s.Exact n) (hnd : g.2.Nodup)
    (hg : ∀ i ∈ g.2, i < n ∧ s.taxes i = 0) : ∃ s', taxGroup lines floorBases s g = .ok s' ∧
      s'.Exact n ∧ Taxed lines floorBases g s s' := by
  unfold taxGroup
  simp only []
  split_ifs with hfloor
  · rw [Bool.and_eq_true, decide_eq_true_eq] at hfloor
    refine ⟨_, rfl, ⟨hs.lines, ?_, hs.cents, hs.totalCents⟩, ⟨by simp, fun _ _ => rfl, ?_⟩⟩
    · simpa using hs.groups
    · intro hbase
      exact absurd hfloor.2 (not_lt.mpr (hbase hfloor.1))
  · obtain ⟨shares, hok, hlen, hsum, hcents, hnear⟩ :=
      allocateTax_group (amountAt lines) g.1 s.taxes rfl hnd
    have hround : round2 (round2 ((g.2.map (amountAt lines)).sum * g.1)) =
      round2 ((g.2.map (amountAt lines)).sum * g.1) := round2_of_cents (Cents.round2 _)
    rw [groupShares] at hok
    rw [hok]
    refine ⟨_, rfl, ⟨?_, ?_, fillTaxes_cents hcents hs.cents hnd hlen, ?_⟩,
      ⟨by simp, fun i hi => fillTaxes_of_notMem _ _ _ hi, fun _ => hnear⟩⟩
    · rw [sum_fillTaxes _ _ _ hnd hg hlen, hs.lines, hsum]
    · simp only [List.map_append, List.map_cons, List.map_nil, List.sum_append, List.sum_cons,
        List.sum_nil, add_zero, hs.groups, hround]
    · exact hs.totalCents.add (Cents.round2 _)

theorem taxGroups_ok (lines : List SalesAmountInput) (floorBases : Bool) :
    ∀ (gs : Entries Dec (List ℕ)) {s : TaxState}, s.Exact n →
    (∀ g ∈ gs, g.2.Nodup ∧ ∀ i ∈ g.2, i < n ∧ s.taxes i = 0) →
    gs.Pairwise (fun g g' => ∀ i ∈ g.2, i ∉ g'.2) →
    ∃ s', gs.foldlM (taxGroup lines floorBases) s = .ok s' ∧ s'.Exact n ∧
      s'.taxGroups.map (·.rate) = s.taxGroups.map (·.rate) ++ gs.keys ∧
      (∀ i, (∀ g ∈ gs, i ∉ g.2) → s'.taxes i = s.taxes i) ∧
      ∀ g ∈ gs, (floorBases → 0 ≤ (g.2.map (amountAt lines)).sum) →
        ∀ i ∈ g.2, |s'.taxes i - amountAt lines i * g.1| < 1 / 100
  | [], s, hs, _, _ => ⟨s, rfl, hs, by simp, fun _ _ => rfl, fun _ h => by cases h⟩
  | g :: gs, s, hs, hgs, hpw => by
    rw [List.pairwise_cons] at hpw
    obtain ⟨hnd, hg⟩ := hgs g List.mem_cons_self
    obtain ⟨s₁, hok, hs₁, htaxed⟩ := taxGroup_ok lines floorBases hs hnd hg
    obtain ⟨s', hok', hs', hrates, hframe, hnear⟩ := taxGroups_ok lines floorBases gs hs₁ (fun g' hg' => by
      obtain ⟨hnd', h⟩ := hgs g' (List.mem_cons_of_mem _ hg')
      refine ⟨hnd', fun i hi => ⟨(h i hi).1, ?_⟩⟩
      rw [htaxed.frame i fun hi' => hpw.1 g' hg' i hi' hi]
      exact (h i hi).2) hpw.2
    refine ⟨s', ?_, hs', ?_, ?_, ?_⟩
    · rw [List.foldlM_cons, hok]
      exact hok'
    · rw [hrates, htaxed.rates]
      simp
    · intro i hi
      rw [hframe i fun g' hg' => hi g' (List.mem_cons_of_mem _ hg')]
      exact htaxed.frame i (hi g List.mem_cons_self)
    · intro g' hg' hbase i hi
      rcases List.mem_cons.mp hg' with rfl | hg'
      · rw [hframe i fun g'' hg'' => hpw.1 g'' hg'' i hi]
        exact htaxed.near hbase i hi
      · exact hnear g' hg' hbase i hi

end LineRates

/-- The taxable lines shown at the rate `k`, summed. -/
def SalesDocumentResult.baseAt (r : SalesDocumentResult) (k : Dec) : Dec :=
  ((r.lines.filter fun l => l.isTaxable && l.taxRate = k).map (·.amount)).sum

/-- The figures of the lines are exact: they are the lines' own, the totals add up, and each line of
a group whose base is not floored is taxed at its rate to within a cent. -/
structure ExactTax (lines : List SalesAmountInput) (r : SalesDocumentResult) : Prop where
  echo : r.lines.map (fun l => (l.amount, l.isTaxable)) =
    lines.map fun l => (l.amount.val, l.isTaxable)
  total : r.total = r.subtotal + r.taxTotal
  lines : (r.lines.map (·.taxAmount)).sum = r.taxTotal
  groups : (r.taxGroups.map (·.tax)).sum = r.taxTotal
  members : ∀ ms, r.salesTaxMembers = some ms → (ms.map (·.tax)).sum = r.taxTotal
  near : ∀ g ∈ r.taxGroups, (0 < r.subtotal → 0 ≤ r.baseAt g.rate) → ∀ l ∈ r.lines, l.isTaxable →
    l.taxRate = g.rate → |l.taxAmount - l.amount * g.rate| < 1 / 100

section Results

variable {lines : List SalesAmountInput} {rates taxes : ℕ → Dec} {k : Dec}

theorem amountAt_of_mem {p : SalesAmountInput × ℕ} (h : p ∈ lines.zipIdx) :
    amountAt lines p.2 = p.1.amount.val := by
  have hget := List.mem_zipIdx_iff_getElem?.mp h
  simp [amountAt, salesAmounts, List.getD_eq_getElem?_getD, hget]

theorem subtotal_cents : Cents (salesSubtotal lines) :=
  Places.sum fun x hx => by
    obtain ⟨l, -, rfl⟩ := List.mem_map.mp hx
    exact l.amount.property

theorem mem_lineResults {l : SalesLineResult} (h : l ∈ lineResults lines rates taxes) :
    ∃ p ∈ lines.zipIdx, l = ⟨amountAt lines p.2, rates p.2, round2 (taxes p.2), p.1.isTaxable⟩ := by
  obtain ⟨p, hp, rfl⟩ := List.mem_map.mp h
  refine ⟨p, hp, ?_⟩
  rw [amountAt_of_mem hp, round2_of_cents p.1.amount.property]

theorem lineResults_echo : (lineResults lines rates taxes).map (fun l => (l.amount, l.isTaxable)) =
    lines.map fun l => (l.amount.val, l.isTaxable) := by
  conv_rhs => rw [← List.zipIdx_map_fst 0 lines, List.map_map]
  rw [lineResults, List.map_map]
  refine List.map_congr_left fun p _ => ?_
  simp [round2_of_cents p.1.amount.property]

theorem sum_lineResults (h : ∀ i, Cents (taxes i)) :
    ((lineResults lines rates taxes).map (·.taxAmount)).sum =
      ∑ i ∈ range lines.length, taxes i := by
  have hmap : (lineResults lines rates taxes).map (·.taxAmount) =
      (lines.zipIdx.map (·.2)).map taxes := by
    rw [lineResults, List.map_map, List.map_map]
    exact List.map_congr_left fun p _ => round2_of_cents (h p.2)
  rw [hmap, List.zipIdx_map_snd, ← List.range_eq_range']
  rfl

theorem baseAt_lineResults {r : SalesDocumentResult} (h : r.lines = lineResults lines rates taxes) :
    r.baseAt k = (((lines.zipIdx.filter fun p => p.1.isTaxable && rates p.2 = k).map (·.2)).map
      (amountAt lines)).sum := by
  rw [SalesDocumentResult.baseAt, h, lineResults, List.filter_map, List.map_map, List.map_map]
  refine congrArg List.sum (List.map_congr_left fun p hp => ?_)
  have := amountAt_of_mem (List.mem_of_mem_filter hp)
  simp [this, round2_of_cents p.1.amount.property]

end Results

section LineRateTotals

variable {lines : List SalesAmountInput} {fallbackRate : Dec} {p : SalesAmountInput × ℕ}

theorem parseSalesTaxRate_error {value : Dec} {field : String} :
    parseSalesTaxRate value field ≠ .error .allocationOutOfRange := by
  unfold parseSalesTaxRate
  split_ifs <;> simp

theorem parseSalesTaxRate_places {value rate : Dec} {field : String}
    (h : parseSalesTaxRate value field = .ok rate) : Places 6 rate := by
  unfold parseSalesTaxRate at h
  split_ifs at h
  obtain rfl := Except.ok.inj h
  exact places_toPlaces 6 value

theorem lineRate_error : lineRate fallbackRate p ≠ .error .allocationOutOfRange := by
  unfold lineRate
  split_ifs
  · simp
  · cases p.1.taxRate with
    | none => simp
    | some r => exact parseSalesTaxRate_error

theorem lineRate_places {rate : Dec} (hf : Places 6 fallbackRate)
    (h : lineRate fallbackRate p = .ok rate) : Places 6 rate := by
  unfold lineRate at h
  split_ifs at h
  · obtain rfl := Except.ok.inj h
    exact Places.zero
  · cases hr : p.1.taxRate with
    | none =>
      simp only [hr] at h
      obtain rfl := Except.ok.inj h
      exact hf
    | some r =>
      simp only [hr] at h
      exact parseSalesTaxRate_places h

/-- The rates the lines were given have six places. -/
theorem rates_places {rateList : List Dec} (hf : Places 6 fallbackRate)
    (h : lines.zipIdx.mapM (lineRate fallbackRate) = .ok rateList) (i : ℕ) :
    Places 6 (rateList.getD i 0) := by
  rw [List.getD_eq_getElem?_getD]
  rcases hi : rateList[i]? with _ | rate
  · exact Places.zero
  · exact mapM_ok_forall h (fun p _ rate hr => lineRate_places hf hr) rate
      (List.mem_of_getElem? hi)

/-- The lines of a group are those shown at its rate. -/
theorem filter_group {rates : ℕ → Dec} (hp : ∀ i, Places 6 (rates i)) {g : Dec × List ℕ}
    (hg : g ∈ taxableGroups lines rates) :
    (lines.zipIdx.filter fun p => p.1.isTaxable && toPlaces 6 (rates p.2) = g.1).map (·.2) =
      g.2 := by
  obtain ⟨hidx, hne⟩ := mem_taxableGroups hg
  obtain ⟨j, hj⟩ := List.exists_mem_of_ne_nil _ hne
  rw [hidx] at hj
  obtain ⟨-, -, -, hj0, hjk⟩ := mem_groupIdx.mp hj
  rw [toPlaces_of_places (hp j)] at hjk
  rw [hidx, groupIdx, List.filter_filter]
  refine congrArg _ (List.filter_congr fun p _ => ?_)
  rw [toPlaces_of_places (hp p.2)]
  by_cases hk : rates p.2 = g.1
  · simp [hk, ← hjk, hj0]
  · simp [hk]

/-- The document of lines taxed at their own rates. -/
def lineDocument (lines : List SalesAmountInput) (rates : ℕ → Dec) (s : TaxState) :
    SalesDocumentResult :=
  { lines := lineResults lines (fun i => toPlaces 6 (rates i)) s.taxes
    subtotal := round2 (salesSubtotal lines)
    taxableBase := round2 ((((baseByRate lines rates).map (·.2)).map fun b =>
      if decide (0 < salesSubtotal lines) && b < 0 then 0 else b).sum)
    taxTotal := round2 s.taxTotal
    total := round2 (salesSubtotal lines + s.taxTotal)
    taxGroups := s.taxGroups
    salesTaxMembers := none }

theorem lineTotals_eq {defaultTaxRate : Option Dec} {rateList : List Dec} {s : TaxState}
    (hf : parseSalesTaxRate (defaultTaxRate.getD 0) "defaultTaxRate" = .ok fallbackRate)
    (hm : lines.zipIdx.mapM (lineRate fallbackRate) = .ok rateList)
    (hs : (taxableGroups lines fun i => rateList.getD i 0).foldlM
      (taxGroup lines (decide (0 < salesSubtotal lines))) ⟨fun _ => 0, [], 0⟩ = .ok s) :
    computeSalesTotals lines defaultTaxRate none =
      if MONEY_LIMIT ≤ |salesSubtotal lines + s.taxTotal| then .error .totalTooLarge
      else .ok (lineDocument lines (fun i => rateList.getD i 0) s) := by
  unfold computeSalesTotals
  simp only [hf, ok_bind, hm, hs]
  rfl

/-- The groups of lines at the rates `rates` are all taxed. -/
theorem taxableGroups_ok (lines : List SalesAmountInput) (rates : ℕ → Dec) (floorBases : Bool) :
    ∃ s, (taxableGroups lines rates).foldlM (taxGroup lines floorBases) ⟨fun _ => 0, [], 0⟩ = .ok s ∧
      s.Exact lines.length ∧ s.taxGroups.map (·.rate) = (taxableGroups lines rates).keys ∧
      (∀ i, (∀ g ∈ taxableGroups lines rates, i ∉ g.2) → s.taxes i = 0) ∧
      ∀ g ∈ taxableGroups lines rates, (floorBases → 0 ≤ (g.2.map (amountAt lines)).sum) →
        ∀ i ∈ g.2, |s.taxes i - amountAt lines i * g.1| < 1 / 100 :=
  taxGroups_ok lines floorBases _ ⟨by simp, rfl, fun _ => Places.zero, Places.zero⟩ (fun g hg => by
    rw [(mem_taxableGroups hg).1]
    exact ⟨nodup_groupIdx, fun i hi => ⟨lt_of_mem_groupIdx hi, rfl⟩⟩) pairwise_taxableGroups

theorem lineTotals_exact (defaultTaxRate : Option Dec) :
    computeSalesTotals lines defaultTaxRate none ≠ .error .allocationOutOfRange ∧
      ∀ r, computeSalesTotals lines defaultTaxRate none = .ok r → ExactTax lines r := by
  rcases hf : parseSalesTaxRate (defaultTaxRate.getD 0) "defaultTaxRate" with e | fallbackRate
  · have herr : computeSalesTotals lines defaultTaxRate none = .error e := by
      unfold computeSalesTotals
      simp only [hf, error_bind]
    rw [herr]
    refine ⟨?_, fun r h => by cases h⟩
    rintro ⟨⟩
    exact parseSalesTaxRate_error hf
  rcases hm : lines.zipIdx.mapM (lineRate fallbackRate) with e | rateList
  · have herr : computeSalesTotals lines defaultTaxRate none = .error e := by
      unfold computeSalesTotals
      simp only [hf, ok_bind, hm, error_bind]
    rw [herr]
    refine ⟨?_, fun r h => by cases h⟩
    rintro ⟨⟩
    obtain ⟨p, -, hp⟩ := mapM_error hm
    exact lineRate_error hp
  have hplaces := rates_places (parseSalesTaxRate_places hf) hm
  obtain ⟨s, hs, hexact, hkeys, -, hnear⟩ := taxableGroups_ok lines (fun i => rateList.getD i 0)
    (decide (0 < salesSubtotal lines))
  rw [lineTotals_eq hf hm hs]
  split_ifs with hlarge
  · exact ⟨by simp, fun r h => by cases h⟩
  refine ⟨by simp, fun r h => ?_⟩
  obtain rfl := Except.ok.inj h
  have htotal := hexact.totalCents
  have hlines : (lineDocument lines (fun i => rateList.getD i 0) s).lines =
      lineResults lines (fun i => toPlaces 6 (rateList.getD i 0)) s.taxes := rfl
  refine ⟨?_, ?_, ?_, ?_, nofun, ?_⟩
  · rw [hlines, lineResults_echo]
  · simp only [lineDocument]
    rw [round2_of_cents (subtotal_cents.add htotal), round2_of_cents subtotal_cents,
      round2_of_cents htotal]
  · rw [hlines, sum_lineResults hexact.cents, hexact.lines]
    exact (round2_of_cents htotal).symm
  · simp only [lineDocument]
    rw [hexact.groups, round2_of_cents htotal]
  · intro g hg hbase l hl htax hrate
    have hmem : g.rate ∈ (taxableGroups lines fun i => rateList.getD i 0).keys := by
      rw [← hkeys]
      exact List.mem_map_of_mem hg
    obtain ⟨g', hgroup, hk⟩ := List.mem_map.mp hmem
    rw [hlines] at hl
    obtain ⟨p, hp, rfl⟩ := mem_lineResults hl
    simp only [] at hrate htax ⊢
    have hfilter := filter_group hplaces hgroup
    rw [hk] at hfilter
    rw [baseAt_lineResults hlines, hfilter] at hbase
    have hidx : p.2 ∈ g'.2 := by
      rw [← hfilter]
      refine List.mem_map_of_mem (List.mem_filter.mpr ⟨hp, ?_⟩)
      rw [Bool.and_eq_true, decide_eq_true_eq]
      exact ⟨htax, hrate⟩
    have hpos : decide (0 < salesSubtotal lines) → 0 < round2 (salesSubtotal lines) := fun h => by
      rw [round2_of_cents subtotal_cents]
      simpa using h
    rw [round2_of_cents (hexact.cents p.2), ← hk]
    exact hnear g' hgroup (fun h => hbase (hpos h)) p.2 hidx

end LineRateTotals

section OneTax

variable {lines : List SalesAmountInput} {taxUnit : SalesTaxUnit}

/-- The taxable lines come to less than zero on a document above zero. -/
def Floored (lines : List SalesAmountInput) : Prop :=
  0 < salesSubtotal lines ∧ taxableSum lines < 0

instance : Decidable (Floored lines) :=
  inferInstanceAs (Decidable (0 < salesSubtotal lines ∧ taxableSum lines < 0))

def oneTaxBase (lines : List SalesAmountInput) : Dec :=
  if Floored lines then 0 else taxableSum lines

/-- The document's tax with one sales tax. -/
def oneTax (lines : List SalesAmountInput) (taxUnit : SalesTaxUnit) : Dec :=
  round2 (oneTaxBase lines * taxUnit.rate)

/-- The document of one sales tax, with its lines' and members' taxes. -/
def oneTaxDocument (lines : List SalesAmountInput) (taxUnit : SalesTaxUnit) (taxes : ℕ → Dec)
    (memberTax : List Dec) : SalesDocumentResult :=
  { lines := lineResults lines (fun i =>
      if (lines[i]?.map (·.isTaxable)).getD false then toPlaces 6 taxUnit.rate else 0) taxes
    subtotal := round2 (salesSubtotal lines)
    taxableBase := round2 (oneTaxBase lines)
    taxTotal := round2 (oneTax lines taxUnit)
    total := round2 (salesSubtotal lines + oneTax lines taxUnit)
    taxGroups :=
      if taxableIdx lines = [] ∨ taxUnit.rate = 0 then []
      else [⟨toPlaces 6 taxUnit.rate, round2 (oneTaxBase lines), round2 (oneTax lines taxUnit)⟩]
    salesTaxMembers := some ((taxUnit.members.zip memberTax).map fun p =>
      ⟨p.1.itemId, toPlaces 6 p.1.rate.val, round2 (oneTaxBase lines), round2 p.2⟩) }

theorem mem_taxableIdx {i : ℕ} :
    i ∈ taxableIdx lines ↔ ∃ l, (l, i) ∈ lines.zipIdx ∧ l.isTaxable := by
  simp only [taxableIdx, List.mem_map, List.mem_filter]
  constructor
  · rintro ⟨⟨l, j⟩, ⟨hmem, ht⟩, rfl⟩
    exact ⟨l, hmem, ht⟩
  · rintro ⟨l, hmem, ht⟩
    exact ⟨(l, i), ⟨hmem, ht⟩, rfl⟩

theorem nodup_taxableIdx : (taxableIdx lines).Nodup := by
  have hsub : (taxableIdx lines).Sublist (lines.zipIdx.map (·.2)) := List.filter_sublist.map _
  refine hsub.nodup ?_
  rw [List.zipIdx_map_snd]
  exact List.nodup_range' ..

theorem lt_of_mem_taxableIdx {i : ℕ} (h : i ∈ taxableIdx lines) : i < lines.length := by
  obtain ⟨l, hl, -⟩ := mem_taxableIdx.mp h
  exact List.snd_lt_of_mem_zipIdx hl

theorem oneTax_cents : Cents (oneTax lines taxUnit) := Cents.round2 _

theorem oneTax_of_floored (h : Floored lines) : oneTax lines taxUnit = 0 := by
  rw [oneTax, oneTaxBase, if_pos h, zero_mul, round2, toPlaces_zero]

/-- The taxes of the lines: nothing without a tax, else the group's allocation. -/
structure OneTaxed (lines : List SalesAmountInput) (taxUnit : SalesTaxUnit) (taxes : ℕ → Dec) :
    Prop where
  cents : ∀ i, Cents (taxes i)
  sum : ∑ i ∈ range lines.length, taxes i = oneTax lines taxUnit
  zero : oneTax lines taxUnit = 0 → taxes = fun _ => 0
  near : oneTax lines taxUnit ≠ 0 →
    ∀ i ∈ taxableIdx lines, |taxes i - amountAt lines i * taxUnit.rate| < 1 / 100
  fill : oneTax lines taxUnit ≠ 0 → ∃ shares,
    allocateTax (groupShares (taxableIdx lines) (amountAt lines) taxUnit.rate)
      (oneTax lines taxUnit) = .ok shares ∧ taxes = fillTaxes (fun _ => 0) (taxableIdx lines) shares

theorem computeWithSalesTax_eq (lines : List SalesAmountInput) (taxUnit : SalesTaxUnit) :
    ∃ taxes memberTax, OneTaxed lines taxUnit taxes ∧
      memberTax.length = taxUnit.members.length ∧ memberTax.sum = oneTax lines taxUnit ∧
      (∀ m ∈ memberTax, Cents m) ∧
      computeWithSalesTax lines taxUnit =
        if MONEY_LIMIT ≤ |salesSubtotal lines + oneTax lines taxUnit| then .error .totalTooLarge
        else .ok (oneTaxDocument lines taxUnit taxes memberTax) := by
  have hdef : oneTax lines taxUnit = round2 ((if 0 < salesSubtotal lines ∧ taxableSum lines < 0 then 0
    else taxableSum lines) * taxUnit.rate) := rfl
  by_cases htax : oneTax lines taxUnit = 0
  · refine ⟨fun _ => 0, taxUnit.members.map fun _ => 0,
      ⟨fun _ => Places.zero, by simp [htax], fun _ => rfl, fun h => absurd htax h,
        fun h => absurd htax h⟩, by simp, by simp [htax], by simp, ?_⟩
    unfold computeWithSalesTax
    simp only [← hdef, if_pos htax, pure_bind]
    rfl
  · have hfloor : ¬Floored lines := fun h => htax (oneTax_of_floored h)
    have hlines : oneTax lines taxUnit =
        round2 (((taxableIdx lines).map (amountAt lines)).sum * taxUnit.rate) := by
      rw [oneTax, oneTaxBase, if_neg hfloor, taxableSum]
    obtain ⟨shares, hok, hlen, hsum, hcents, hnear⟩ :=
      allocateTax_group (amountAt lines) taxUnit.rate (fun _ => 0) hlines nodup_taxableIdx
    have hmembers : oneTax lines taxUnit =
        round2 (taxUnit.members.map fun m => oneTaxBase lines * m.rate.val).sum := by
      rw [List.sum_map_mul_left]
      rfl
    obtain ⟨memberTax, hmok, hmlen, hmsum, hmcents, -⟩ := allocateTax_ok hmembers
    refine ⟨_, memberTax, ⟨fillTaxes_cents hcents (fun _ => Places.zero) nodup_taxableIdx hlen, ?_,
      fun h => absurd h htax, fun _ => hnear, fun _ => ⟨shares, hok, rfl⟩⟩,
      by simpa using hmlen, hmsum, hmcents, ?_⟩
    · rw [sum_fillTaxes _ _ _ nodup_taxableIdx (fun i hi => ⟨lt_of_mem_taxableIdx hi, rfl⟩) hlen, hsum]
      simp
    · have hmok' : allocateTax (taxUnit.members.map fun m =>
          (if 0 < salesSubtotal lines ∧ taxableSum lines < 0 then 0 else taxableSum lines) *
            m.rate.val) (oneTax lines taxUnit) = .ok memberTax := hmok
      rw [groupShares] at hok
      unfold computeWithSalesTax
      simp only [← hdef, if_neg htax, hok, hmok', ok_bind, pure_bind]
      rfl

/-- The taxable lines come to less than half a cent of tax, and are not floored, while one of them
alone is taxed a cent or more. -/
def Cancels (lines : List SalesAmountInput) (taxUnit : SalesTaxUnit) : Prop :=
  ¬Floored lines ∧ |taxableSum lines * taxUnit.rate| < 1 / 200 ∧
    ∃ l ∈ lines, l.isTaxable ∧ 1 / 100 ≤ |l.amount.val * taxUnit.rate|

theorem unitRate_places (taxUnit : SalesTaxUnit) : Places 6 taxUnit.rate :=
  Places.sum fun r hr => by
    obtain ⟨m, -, rfl⟩ := List.mem_map.mp hr
    exact m.rate.property.1

theorem oneTax_eq_zero (h : ¬Floored lines) :
    oneTax lines taxUnit = 0 ↔ |taxableSum lines * taxUnit.rate| < 1 / 200 := by
  rw [oneTax, oneTaxBase, if_neg h, round2, toPlaces_eq_zero]
  constructor <;> intro h <;> linarith

section Document

variable {taxes : ℕ → Dec} {memberTax : List Dec}

theorem oneTaxDocument_lines : (oneTaxDocument lines taxUnit taxes memberTax).lines =
    lineResults lines (fun i =>
      if (lines[i]?.map (·.isTaxable)).getD false then toPlaces 6 taxUnit.rate else 0) taxes := rfl

theorem rate_of_mem {p : SalesAmountInput × ℕ} (h : p ∈ lines.zipIdx) :
    (if (lines[p.2]?.map (·.isTaxable)).getD false then toPlaces 6 taxUnit.rate else 0) =
      if p.1.isTaxable then taxUnit.rate else 0 := by
  rw [List.mem_zipIdx_iff_getElem?.mp h, toPlaces_of_places (unitRate_places taxUnit)]
  rfl

theorem mem_oneTaxDocument {p : SalesAmountInput × ℕ} (h : p ∈ lines.zipIdx) :
    ⟨p.1.amount.val, if p.1.isTaxable then taxUnit.rate else 0, round2 (taxes p.2), p.1.isTaxable⟩ ∈
      (oneTaxDocument lines taxUnit taxes memberTax).lines := by
  rw [oneTaxDocument_lines, ← rate_of_mem h]
  refine List.mem_map.mpr ⟨p, h, ?_⟩
  rw [round2_of_cents p.1.amount.property]

theorem of_mem_oneTaxDocument {l : SalesLineResult}
    (h : l ∈ (oneTaxDocument lines taxUnit taxes memberTax).lines) : ∃ p ∈ lines.zipIdx,
      l = ⟨p.1.amount.val, if p.1.isTaxable then taxUnit.rate else 0, round2 (taxes p.2),
        p.1.isTaxable⟩ := by
  rw [oneTaxDocument_lines] at h
  obtain ⟨p, hp, rfl⟩ := mem_lineResults h
  exact ⟨p, hp, by rw [amountAt_of_mem hp, rate_of_mem hp]⟩

theorem oneTaxDocument_baseAt :
    (oneTaxDocument lines taxUnit taxes memberTax).baseAt taxUnit.rate = taxableSum lines := by
  rw [baseAt_lineResults oneTaxDocument_lines, taxableSum, taxableIdx]
  have hfilter : (lines.zipIdx.filter fun p => p.1.isTaxable &&
      (if (lines[p.2]?.map (·.isTaxable)).getD false then toPlaces 6 taxUnit.rate else 0) =
        taxUnit.rate) = lines.zipIdx.filter (·.1.isTaxable) := by
    refine List.filter_congr fun p hp => ?_
    rw [rate_of_mem hp]
    by_cases h : p.1.isTaxable
    · simp [h]
    · simp [h]
  rw [hfilter]

/-- The group of a document with a tax, and a rate to tax it at. -/
theorem mem_taxGroups {g : TaxGroup}
    (h : g ∈ (oneTaxDocument lines taxUnit taxes memberTax).taxGroups) : g.rate = taxUnit.rate := by
  simp only [oneTaxDocument] at h
  split_ifs at h
  · cases h
  · obtain rfl := List.mem_singleton.mp h
    exact toPlaces_of_places (unitRate_places taxUnit)

theorem floored_iff {g : TaxGroup}
    (h : g ∈ (oneTaxDocument lines taxUnit taxes memberTax).taxGroups) :
    (0 < (oneTaxDocument lines taxUnit taxes memberTax).subtotal →
      0 ≤ (oneTaxDocument lines taxUnit taxes memberTax).baseAt g.rate) ↔ ¬Floored lines := by
  rw [mem_taxGroups h, oneTaxDocument_baseAt, Floored, not_and, not_lt]
  simp only [oneTaxDocument, round2_of_cents subtotal_cents]

theorem oneTaxDocument_exact_iff (ht : OneTaxed lines taxUnit taxes)
    (hsum : memberTax.sum = oneTax lines taxUnit) (hcents : ∀ m ∈ memberTax, Cents m)
    (hlen : memberTax.length = taxUnit.members.length) :
    ExactTax lines (oneTaxDocument lines taxUnit taxes memberTax) ↔ ¬Cancels lines taxUnit := by
  have hrate := toPlaces_of_places (unitRate_places taxUnit)
  constructor
  · rintro hexact ⟨hfloor, hsmall, l, hl, htax, hlarge⟩
    have hzero := (oneTax_eq_zero hfloor).mpr hsmall
    obtain ⟨i, hi, rfl⟩ := List.mem_iff_getElem.mp hl
    have hp : (lines[i], i) ∈ lines.zipIdx := List.mem_zipIdx_iff_getElem?.mpr (by simp)
    have hne : ¬(taxableIdx lines = [] ∨ taxUnit.rate = 0) := by
      rintro (h | h)
      · have := mem_taxableIdx.mpr ⟨_, hp, htax⟩
        rw [h] at this
        cases this
      · rw [h, mul_zero, abs_zero] at hlarge
        linarith
    have hg : ⟨toPlaces 6 taxUnit.rate, round2 (oneTaxBase lines), round2 (oneTax lines taxUnit)⟩ ∈
        (oneTaxDocument lines taxUnit taxes memberTax).taxGroups := by
      simp only [oneTaxDocument, if_neg hne]
      exact List.mem_singleton_self _
    have hnear := hexact.near _ hg ((floored_iff hg).mpr hfloor) _ (mem_oneTaxDocument hp) htax
      (by rw [mem_taxGroups hg, if_pos htax])
    rw [mem_taxGroups hg, ht.zero hzero] at hnear
    simp only [round2, toPlaces_zero, zero_sub, abs_neg] at hnear
    linarith
  · intro hcancel
    refine ⟨?_, ?_, ?_, ?_, ?_, ?_⟩
    · rw [oneTaxDocument_lines, lineResults_echo]
    · simp only [oneTaxDocument]
      rw [round2_of_cents (subtotal_cents.add oneTax_cents), round2_of_cents subtotal_cents,
        round2_of_cents oneTax_cents]
    · rw [oneTaxDocument_lines, sum_lineResults ht.cents, ht.sum]
      exact (round2_of_cents oneTax_cents).symm
    · simp only [oneTaxDocument]
      split_ifs with h
      · rcases h with h | h
        · have : oneTax lines taxUnit = 0 := by
            have hsum : taxableSum lines = 0 := by rw [taxableSum, h]; rfl
            rw [oneTax, oneTaxBase, hsum, ite_self, zero_mul, round2, toPlaces_zero]
          simp [this, round2]
        · have : oneTax lines taxUnit = 0 := by
            rw [oneTax, h, mul_zero, round2, toPlaces_zero]
          simp [this, round2]
      · simp
    · intro ms hms
      obtain rfl := Option.some.inj hms
      rw [List.map_map]
      have hmap : (taxUnit.members.zip memberTax).map ((fun m : MemberTax => m.tax) ∘ fun p =>
          ⟨p.1.itemId, toPlaces 6 p.1.rate.val, round2 (oneTaxBase lines), round2 p.2⟩) =
          memberTax := by
        calc _ = (taxUnit.members.zip memberTax).map (fun p => round2 p.2) := rfl
          _ = (taxUnit.members.zip memberTax).map Prod.snd :=
            List.map_congr_left fun p hp => round2_of_cents (hcents _ (List.of_mem_zip hp).2)
          _ = memberTax := List.map_snd_zip (by rw [hlen])
      rw [hmap, hsum]
      exact (round2_of_cents oneTax_cents).symm
    · intro g hg hbase l hl htax hlrate
      have hfloor := (floored_iff hg).mp hbase
      obtain ⟨p, hp, rfl⟩ := of_mem_oneTaxDocument hl
      simp only [] at htax ⊢
      rw [mem_taxGroups hg, round2_of_cents (ht.cents p.2)]
      by_cases hzero : oneTax lines taxUnit = 0
      · rw [ht.zero hzero, zero_sub, abs_neg]
        by_contra hlarge
        exact hcancel ⟨hfloor, (oneTax_eq_zero hfloor).mp hzero, p.1, List.fst_mem_of_mem_zipIdx hp,
          htax, not_lt.mp hlarge⟩
      · rw [← amountAt_of_mem hp]
        exact ht.near hzero p.2 (mem_taxableIdx.mpr ⟨p.1, hp, htax⟩)

end Document

theorem salesTotals_exact_iff (lines : List SalesAmountInput) (defaultTaxRate : Option Dec)
    (salesTax : Option SalesTaxUnit) :
    (computeSalesTotals lines defaultTaxRate salesTax ≠ .error .allocationOutOfRange ∧
      ∀ r, computeSalesTotals lines defaultTaxRate salesTax = .ok r → ExactTax lines r) ↔
    ∀ taxUnit, salesTax = some taxUnit → |salesSubtotal lines| < MONEY_LIMIT →
      ¬Cancels lines taxUnit := by
  cases salesTax with
  | none => exact iff_of_true (lineTotals_exact defaultTaxRate) nofun
  | some taxUnit =>
    have hunit : computeSalesTotals lines defaultTaxRate (some taxUnit) =
      computeWithSalesTax lines taxUnit := rfl
    obtain ⟨taxes, memberTax, ht, hlen, hsum, hcents, heq⟩ := computeWithSalesTax_eq lines taxUnit
    have hiff := oneTaxDocument_exact_iff ht hsum hcents hlen
    rw [hunit, heq]
    split_ifs with hlarge
    · refine iff_of_true ⟨by simp, nofun⟩ ?_
      rintro _ ⟨⟩ hsmall hcancel
      rw [(oneTax_eq_zero hcancel.1).mpr hcancel.2.1, add_zero] at hlarge
      exact absurd hsmall (not_lt.mpr hlarge)
    · constructor
      · rintro ⟨-, h⟩ _ ⟨⟩ -
        exact hiff.mp (h _ rfl)
      · intro h
        refine ⟨by simp, ?_⟩
        rintro _ ⟨⟩
        refine hiff.mpr fun hcancel => h taxUnit rfl ?_ hcancel
        rw [(oneTax_eq_zero hcancel.1).mpr hcancel.2.1, add_zero] at hlarge
        exact not_le.mp hlarge

/-- An exchange at one price: what is sold and what comes back. -/
def exchange : List SalesAmountInput :=
  [⟨⟨100, Places.intCast 100⟩, true, none⟩, ⟨⟨-100, Places.intCast (-100)⟩, true, none⟩]

/-- Eight percent. -/
def eightRate : SetupTaxRate := ⟨8 / 100, ⟨80000, by norm_num⟩, by norm_num, by norm_num⟩

/-- A sales tax of 8 %. -/
def eightPercent : SalesTaxUnit := ⟨"tax", [⟨"state", eightRate⟩]⟩

theorem exchange_untaxed :
    ¬(computeSalesTotals exchange none (some eightPercent) ≠ .error .allocationOutOfRange ∧
      ∀ r, computeSalesTotals exchange none (some eightPercent) = .ok r → ExactTax exchange r) := by
  rintro ⟨-, h⟩
  have hrun : computeSalesTotals exchange none (some eightPercent) = .ok
      { lines := [⟨100, 8 / 100, 0, true⟩, ⟨-100, 8 / 100, 0, true⟩]
        subtotal := 0, taxableBase := 0, taxTotal := 0, total := 0
        taxGroups := [⟨8 / 100, 0, 0⟩]
        salesTaxMembers := some [⟨"state", 8 / 100, 0, 0⟩] } := by decide +kernel
  have hnear := (h _ hrun).near ⟨8 / 100, 0, 0⟩ (by simp) (by simp)
    ⟨100, 8 / 100, 0, true⟩ (by simp) rfl rfl
  norm_num [abs_lt] at hnear

end OneTax

end MyBooks
