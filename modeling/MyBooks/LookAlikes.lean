import MyBooks.ImportRows

/-!
# The index of look-alikes against a plain scan

`classifyPlain` goes by the same rules and finds a look-alike by scanning all items not yet claimed
for the nearest and then oldest that is a candidate. The index holds just these items, each list by
age (`Indexes`), and keeps doing so as rows claim entries (`Indexes.claim`). What a search through
it ends with is the scan's (`search_eq_plainPick`), so both classify alike.
-/

namespace MyBooks.ImportRows

open ImportKeys

/-! ## The plain rule -/

section Plain

variable (nfc sha256 : CodeUnits → CodeUnits) (bounds : Section)

/-- An item not yet claimed that the row may be a look-alike of. -/
def RowState.candidate (s : RowState) (usedUp : List CodeUnits) (it : ExistingItem) : Bool :=
  !usedUp.contains it.id && it.amount = s.keyed.canonicalAmount &&
    dayDiff s.row.date it.date ≤ FUZZY_DAYS &&
    descriptionsMatch s.keyed.normDescription (norm nfc (units it.description)) &&
    fits bounds s (poolEntry nfc it) (dayDiff s.row.date it.date)

/-- The smallest date distance, then the oldest. -/
def plainPick (pool : List ExistingItem) (usedUp : List CodeUnits) (s : RowState) :
    Option ExistingItem :=
  (pool.filter (s.candidate nfc bounds usedUp)).argmin fun it =>
    toLex (dayDiff s.row.date it.date, it.age)

def plainLookAlike (pool : List ExistingItem) (usedUp : List CodeUnits) (s : RowState) :
    List CodeUnits × Classified :=
  match s.out with
  | some c => (usedUp, c)
  | none =>
    match plainPick nfc bounds pool usedUp s with
    | some it => (it.id :: usedUp, s.classified sha256 (some it))
    | none => (usedUp, s.classified sha256 none)

def classifyPlain (rows : List BatchRowInput) (keyed : List KeyedRow) (look : Lookups)
    (bounds : Section) : List Classified :=
  let keys := byKeys nfc sha256 rows keyed look
  (sweep (plainLookAlike nfc sha256 bounds look.pool) keys.1 keys.2).2

end Plain

/-! ## The lists that match -/

/-- What the sorted descriptions and the lengths of a bucket are for. -/
structure DayBucket.Wf (b : DayBucket) : Prop where
  sorted : b.norms.Pairwise (· ≤ ·)
  norms : ∀ d, d ∈ b.norms ↔ d ∈ b.byNorm.keys
  lengths : ∀ n, n ∈ b.lengths ↔ ∃ d ∈ b.norms, (codePoints d).length = n
  paired : ∀ d ∈ b.byNorm.keys, Paired d

variable {b : DayBucket} {r d : CodeUnits}

theorem DayBucket.finish_wf (h : ∀ d ∈ b.byNorm.keys, Paired d) : b.finish.Wf where
  sorted := List.pairwise_insertionSort _ _
  norms _ := List.mem_insertionSort _
  lengths n := by
    rw [DayBucket.finish, List.mem_eraseDups, List.mem_map]
  paired := h

theorem DayBucket.Wf.claim {f : Found} (h : b.Wf) (hf : f.norm ∈ b.byNorm.keys) :
    (b.claim f).Wf := by
  have hkeys : (b.claim f).byNorm.keys = b.byNorm.keys := by
    rw [DayBucket.claim, Entries.update, Entries.keys_set, if_pos hf]
  exact ⟨h.sorted, fun d => by rw [hkeys]; exact h.norms d, h.lengths, by
    rw [hkeys]
    exact h.paired⟩

theorem descriptionsMatch_self (r : CodeUnits) : descriptionsMatch r r = true := by
  simp [descriptionsMatch]

/-- Two descriptions that differ match when one, 8 code points long, is a prefix of the other. -/
theorem descriptionsMatch_iff (hne : d ≠ r) :
    descriptionsMatch r d = true ↔
      8 ≤ (codePoints r).length ∧ r <+: d ∨
        8 ≤ (codePoints d).length ∧ (codePoints d).length < (codePoints r).length ∧ d <+: r := by
  have hrd : r ≠ d := Ne.symm hne
  simp only [descriptionsMatch, hrd, decide_false, Bool.false_or]
  split_ifs with hlen
  · simp only [Bool.and_eq_true_iff, decide_eq_true_eq, List.isPrefixOf_iff_prefix]
    exact ⟨.inl, fun h => h.resolve_right fun h => by omega⟩
  · simp only [Bool.and_eq_true_iff, decide_eq_true_eq, List.isPrefixOf_iff_prefix]
    constructor
    · exact fun h => .inr ⟨h.1, by omega, h.2⟩
    · rintro (h | h)
      · exact absurd (length_codePoints_le h.2) hlen
      · exact ⟨h.1, h.2.2⟩

variable {l : CodeUnits × List PoolEntry}

theorem mem_listOf {x : CodeUnits} :
    b.listOf x = some l ↔ l.1 = x ∧ b.byNorm.get? x = some l.2 := by
  rw [DayBucket.listOf, Option.map_eq_some_iff]
  constructor
  · rintro ⟨es, hes, rfl⟩
    exact ⟨rfl, hes⟩
  · rintro ⟨rfl, hes⟩
    exact ⟨l.2, hes, rfl⟩

/-- The look-up by lengths finds the descriptions that are a prefix of the row's. -/
theorem mem_shorter (h : b.Wf) :
    l ∈ (b.lengths.filter fun len => 8 ≤ len && len < (codePoints r).length).filterMap
        (fun len => b.listOf (cutTo len r)) ↔
      b.byNorm.get? l.1 = some l.2 ∧ 8 ≤ (codePoints l.1).length ∧
        (codePoints l.1).length < (codePoints r).length ∧ l.1 <+: r := by
  obtain ⟨d, es⟩ := l
  simp only [List.mem_filterMap, List.mem_filter, Bool.and_eq_true_iff, decide_eq_true_eq,
    mem_listOf]
  constructor
  · rintro ⟨len, ⟨-, h8, hlt⟩, rfl, hes⟩
    have hlen : (codePoints (cutTo len r)).length = len := by
      rw [codePoints_cutTo, List.length_take]
      omega
    rw [hlen]
    exact ⟨hes, h8, hlt, cutTo_prefix len r⟩
  · rintro ⟨hes, h8, hlt, t, rfl⟩
    have hkey := Entries.mem_keys_of_get? hes
    have hcut := (h.paired d hkey).cutTo_length t
    exact ⟨(codePoints d).length, ⟨(h.lengths _).mpr ⟨d, (h.norms d).mpr hkey, rfl⟩, h8, hlt⟩,
      hcut.symm, by rw [hcut]; exact hes⟩

/-- The search finds the descriptions that the row's is a prefix of. -/
theorem mem_longer (h : b.Wf) :
    l ∈ (extensions b.norms r).filterMap b.listOf ↔
      b.byNorm.get? l.1 = some l.2 ∧ r < l.1 ∧ r <+: l.1 := by
  obtain ⟨d, es⟩ := l
  simp only [List.mem_filterMap, mem_extensions h.sorted, mem_listOf]
  constructor
  · rintro ⟨x, ⟨-, hrx, hp⟩, rfl, hes⟩
    exact ⟨hes, hrx, hp⟩
  · rintro ⟨hes, hrd, hp⟩
    exact ⟨d, ⟨(h.norms d).mpr (Entries.mem_keys_of_get? hes), hrd, hp⟩, rfl, hes⟩

/-- The lists looked up are those whose description matches. -/
theorem mem_matchingLists (h : b.Wf) :
    l ∈ matchingLists b r (codePoints r).length ↔
      b.byNorm.get? l.1 = some l.2 ∧ descriptionsMatch r l.1 = true := by
  obtain ⟨d, es⟩ := l
  rw [matchingLists, List.mem_append, Option.mem_toList, mem_listOf]
  by_cases hdr : d = r
  · subst hdr
    simp only [true_and, descriptionsMatch_self, and_true]
    refine ⟨fun hl => hl.elim id fun hmem => ?_, .inl⟩
    split_ifs at hmem with h8
    · exact absurd hmem List.not_mem_nil
    · exact (List.mem_append.mp hmem).elim (fun hm => ((mem_shorter h).mp hm).1)
        fun hm => ((mem_longer h).mp hm).1
  · simp only [hdr, false_and, false_or, descriptionsMatch_iff hdr]
    constructor
    · intro hmem
      split_ifs at hmem with h8
      · exact absurd hmem List.not_mem_nil
      · rcases List.mem_append.mp hmem with hmem | hmem
        · obtain ⟨hes, hd⟩ := (mem_shorter h).mp hmem
          exact ⟨hes, .inr hd⟩
        · obtain ⟨hes, -, hp⟩ := (mem_longer h).mp hmem
          exact ⟨hes, .inl ⟨not_lt.mp h8, hp⟩⟩
    · rintro ⟨hes, ⟨h8, hp⟩ | hd⟩
      · rw [if_neg (not_lt.mpr h8)]
        exact List.mem_append_right _
          ((mem_longer h).mpr ⟨hes, lt_of_prefix hp (Ne.symm hdr), hp⟩)
      · rw [if_neg (by omega)]
        exact List.mem_append_left _ ((mem_shorter h).mpr ⟨hes, hd⟩)

/-! ## The index -/

def bucketAt (index : Index) (a : ℚ) (n : ℤ) : Option DayBucket :=
  (index.get? a).bind fun days => days.get? n

/-- The entries under an amount, a day and a description. -/
def listAt (index : Index) (a : ℚ) (n : ℤ) (d : CodeUnits) : List PoolEntry :=
  ((bucketAt index a n).bind fun b => b.byNorm.get? d).getD []

/-- Where an entry is kept. -/
def PoolEntry.under (e : PoolEntry) (a : ℚ) (n : ℤ) (d : CodeUnits) : Bool :=
  e.item.amount = a && dayNumber e.item.date = n && e.normDescription = d

/-- The index holds the entries of `live`, each list in their order. -/
structure Indexes (nfc : CodeUnits → CodeUnits) (live : List ExistingItem) (index : Index) :
    Prop where
  wf : ∀ {a n b}, bucketAt index a n = some b → b.Wf
  lists : ∀ a n d, listAt index a n d = (live.map (poolEntry nfc)).filter (·.under a n d)

section Building

variable {index : Index} {e : PoolEntry} {a : ℚ} {n : ℤ}

theorem bucketAt_update {index : Index} {a' : ℚ} {n' : ℤ} (f : DayBucket → DayBucket) :
    bucketAt (index.update a' fun days => (days.getD []).update n' fun b => f (b.getD {})) a n =
      if a' = a ∧ n' = n then some (f ((bucketAt index a n).getD {})) else bucketAt index a n := by
  rw [bucketAt, Entries.get?_update]
  by_cases ha : a' = a
  · rw [if_pos ha, Option.bind_some, Entries.get?_update]
    by_cases hn : n' = n
    · rw [if_pos hn, if_pos ⟨ha, hn⟩, bucketAt]
      cases index.get? a <;> rfl
    · rw [if_neg hn, if_neg (fun h => hn h.2), bucketAt]
      cases index.get? a <;> rfl
  · rw [if_neg ha, if_neg (fun h => ha h.1), bucketAt]

theorem listAt_push :
    listAt (index.push e) a n d = listAt index a n d ++ if e.under a n d then [e] else [] := by
  have hget : ∀ b : Option DayBucket, (((b.getD {}).push e).byNorm.get? d).getD [] =
      (b.bind fun b => b.byNorm.get? d).getD [] ++ if e.normDescription = d then [e] else [] := by
    intro b
    rw [DayBucket.push, Entries.get?_update]
    have hnone : ((b.getD {}).byNorm.get? d).getD [] =
        (b.bind fun b => b.byNorm.get? d).getD [] := by
      cases b <;> rfl
    split_ifs with hd
    · rw [Option.getD_some, hnone]
    · rw [hnone, List.append_nil]
  rw [listAt, Index.push, bucketAt_update (fun b => b.push e)]
  by_cases hkey : e.item.amount = a ∧ dayNumber e.item.date = n
  · rw [if_pos hkey, Option.bind_some, hget, listAt]
    simp [PoolEntry.under, hkey]
  · have hunder : ¬e.under a n d = true := by
      simp only [PoolEntry.under, Bool.and_eq_true, decide_eq_true_eq]
      exact fun h => hkey h.1
    rw [if_neg hkey, if_neg hunder, List.append_nil, listAt]

theorem listAt_foldl : ∀ (es : List PoolEntry) (index : Index),
    listAt (es.foldl Index.push index) a n d = listAt index a n d ++ es.filter (·.under a n d)
  | [], _ => by simp
  | e :: es, index => by
    rw [List.foldl_cons, listAt_foldl es, listAt_push, List.append_assoc, List.filter_cons]
    split_ifs <;> rfl

/-- The descriptions of a bucket are those of entries. -/
theorem paired_foldl : ∀ {es : List PoolEntry} {index : Index},
    (∀ e ∈ es, Paired e.normDescription) →
    (∀ a n b, bucketAt index a n = some b → ∀ d ∈ b.byNorm.keys, Paired d) →
    ∀ a n b, bucketAt (es.foldl Index.push index) a n = some b → ∀ d ∈ b.byNorm.keys, Paired d
  | [], _, _, h => h
  | e :: es, index, hes, h => by
    refine @paired_foldl es (index.push e) (fun e' he' => hes e' (List.mem_cons_of_mem _ he'))
      fun a n b hb d hd => ?_
    rw [Index.push, bucketAt_update (fun b => b.push e)] at hb
    split_ifs at hb with hkey
    · obtain rfl := Option.some.inj hb
      rw [DayBucket.push, Entries.update, Entries.keys_set] at hd
      have hold : ∀ d ∈ ((bucketAt index a n).getD {}).byNorm.keys, Paired d := by
        cases hb' : bucketAt index a n with
        | none => exact fun d hd => absurd hd List.not_mem_nil
        | some b => exact h a n b hb'
      split_ifs at hd with hmem
      · exact hold d hd
      · rcases List.mem_append.mp hd with hd | hd
        · exact hold d hd
        · rw [List.mem_singleton.mp hd]
          exact hes e List.mem_cons_self
    · exact h a n b hb d hd

theorem bucketAt_finish (index : Index) :
    bucketAt (index.map fun p => (p.1, p.2.map fun q => (q.1, q.2.finish))) a n =
      (bucketAt index a n).map DayBucket.finish := by
  rw [bucketAt, Entries.get?_map (fun days : Days => days.map fun q => (q.1, q.2.finish)), bucketAt]
  cases index.get? a with
  | none => rfl
  | some days => exact Entries.get?_map DayBucket.finish days

theorem listAt_finish (index : Index) :
    listAt (index.map fun p => (p.1, p.2.map fun q => (q.1, q.2.finish))) a n d =
      listAt index a n d := by
  rw [listAt, bucketAt_finish, listAt]
  cases bucketAt index a n <;> rfl

end Building

variable {nfc : CodeUnits → CodeUnits}

theorem indexes_lookAlikeIndex (hnfc : ∀ t : Text, Paired (nfc (units t)))
    (usedUp : List CodeUnits) (pool : List ExistingItem) :
    Indexes nfc ((sortByAge pool).filter fun it => !usedUp.contains it.id)
      (lookAlikeIndex nfc usedUp pool) where
  wf {a n b} hb := by
    rw [lookAlikeIndex, bucketAt_finish, Option.map_eq_some_iff] at hb
    obtain ⟨b', hb', rfl⟩ := hb
    refine DayBucket.finish_wf (paired_foldl (fun e he => ?_) ?_ a n b' hb')
    · obtain ⟨it, -, rfl⟩ := List.mem_map.mp he
      exact paired_norm (hnfc it.description)
    · exact fun a n b hb => absurd hb (by simp [bucketAt])
  lists a n d := by
    rw [lookAlikeIndex, listAt_finish, listAt_foldl]
    rfl

/-! ## The search -/

/-- An entry is where it is said to be. -/
def Found.Holds (index : Index) (a : ℚ) (f : Found) : Prop :=
  (listAt index a f.day f.norm)[f.place]? = some f.entry

def Found.dist (rowDay : ℤ) (f : Found) : ℕ := (rowDay - f.day).natAbs

def Found.age (f : Found) : CodeUnits ×ₗ CodeUnits := f.entry.item.age

section Search

variable {live : List ExistingItem} {index : Index} {days : Days} {a : ℚ} {rowDay : ℤ}

theorem Indexes.sorted (h : Indexes nfc live index) (hlive : live.Pairwise fun x y => x.age ≤ y.age)
    (a : ℚ) (n : ℤ) (d : CodeUnits) :
    (listAt index a n d).Pairwise fun x y => x.item.age ≤ y.item.age := by
  rw [h.lists]
  exact (hlive.map (poolEntry nfc) fun _ _ h => h).filter _

theorem isLeastOf_bestIn (ok : PoolEntry → Bool) (day : ℤ)
    (hl : l.2.Pairwise fun x y => x.item.age ≤ y.item.age) :
    IsLeastOf Found.age
      (fun f => f.day = day ∧ f.norm = l.1 ∧ l.2[f.place]? = some f.entry ∧ ok f.entry = true)
      (bestIn ok day l) := by
  have h := @isLeastOf_findIdx? _ _ _ (fun e : PoolEntry => e.item.age) ok l.2 hl
  have hbest : bestIn ok day l = ((l.2.findIdx? ok).bind fun i => l.2[i]?.map fun e => (i, e)).map
      fun p => (⟨day, l.1, p.1, p.2⟩ : Found) := by
    rw [bestIn]
    cases l.2.findIdx? ok with
    | none => rfl
    | some i => simp [Function.comp_def]
  rw [hbest]
  refine h.map (fun _ _ => rfl) fun f => ?_
  constructor
  · rintro ⟨rfl, hn, he, hok⟩
    exact ⟨(f.place, f.entry), ⟨he, hok⟩, by rw [← hn]⟩
  · rintro ⟨p, hp, rfl⟩
    exact ⟨rfl, rfl, hp.1, hp.2⟩

/-- A day adds its entries that match and fit. -/
theorem isLeastOf_searchDay (day : ℤ) (h : Indexes nfc live index)
    (hlive : live.Pairwise fun x y => x.age ≤ y.age) (hdays : index.get? a = some days)
    {ok : PoolEntry → Bool} {P : Found → Prop} {best : Option Found}
    (hbest : IsLeastOf Found.age P best) :
    IsLeastOf Found.age
      (fun f => P f ∨ f.day = day ∧ f.Holds index a ∧ descriptionsMatch r f.norm = true ∧
        ok f.entry = true)
      (searchDay days r ok best day) := by
  have hbucket : ∀ n, bucketAt index a n = days.get? n := fun n => by
    rw [bucketAt, hdays, Option.bind_some]
  have hlist : ∀ n d, listAt index a n d = ((days.get? n).bind fun b => b.byNorm.get? d).getD [] :=
    fun n d => by rw [listAt, hbucket]
  unfold searchDay
  split
  · rename_i hnone
    refine hbest.congr fun f => ⟨.inl, fun hf => hf.elim id ?_⟩
    rintro ⟨rfl, hf, -⟩
    rw [Found.Holds, hlist, hnone] at hf
    simp at hf
  · rename_i b hb
    have hwf : b.Wf := h.wf (by rw [hbucket, hb])
    have hat : ∀ {d es}, b.byNorm.get? d = some es → listAt index a day d = es := fun hes => by
      rw [hlist, hb, Option.bind_some, hes, Option.getD_some]
    refine (isLeastOf_foldl (fun l hl => isLeastOf_bestIn ok day ?_) hbest).congr
      fun f => or_congr_right ?_
    · rw [← hat ((mem_matchingLists hwf).mp hl).1]
      exact h.sorted hlive a day _
    · constructor
      · rintro ⟨l, hl, rfl, hn, he, hok⟩
        obtain ⟨hes, hm⟩ := (mem_matchingLists hwf).mp hl
        refine ⟨rfl, ?_, hn ▸ hm, hok⟩
        rw [Found.Holds, hn, hat hes]
        exact he
      · rintro ⟨rfl, hf, hm, hok⟩
        rw [Found.Holds, hlist, hb, Option.bind_some] at hf
        cases hes : b.byNorm.get? f.norm with
        | none =>
          rw [hes] at hf
          simp at hf
        | some es =>
          rw [hes, Option.getD_some] at hf
          exact ⟨(f.norm, es), (mem_matchingLists hwf).mpr ⟨hes, hm⟩, rfl, rfl, hf, hok⟩

theorem isLeastOf_searchDays (h : Indexes nfc live index)
    (hlive : live.Pairwise fun x y => x.age ≤ y.age) (hdays : index.get? a = some days)
    (ok : PoolEntry → Bool) : ∀ {ns : List ℤ} {P : Found → Prop} {best : Option Found},
    IsLeastOf Found.age P best →
    IsLeastOf Found.age
      (fun f => P f ∨ f.day ∈ ns ∧ f.Holds index a ∧ descriptionsMatch r f.norm = true ∧
        ok f.entry = true)
      (ns.foldl (searchDay days r ok) best)
  | [], _, _, hbest => hbest.congr fun f => by simp
  | n :: ns, _, _, hbest => by
    refine (isLeastOf_searchDays h hlive hdays ok
      (isLeastOf_searchDay n h hlive hdays hbest)).congr fun f => ?_
    rw [or_assoc, List.mem_cons, or_and_right]

/-- The days at a distance. -/
theorem mem_daysAt {n : ℤ} {distance : ℕ} :
    n ∈ (if distance = 0 then [rowDay] else [rowDay - distance, rowDay + distance]) ↔
      (rowDay - n).natAbs = distance := by
  split_ifs with h
  · rw [List.mem_singleton]
    omega
  · rw [List.mem_pair]
    omega

/-- What the search ends with is nearest and then oldest among the entries that match and fit. -/
theorem isLeastOf_search (h : Indexes nfc live index)
    (hlive : live.Pairwise fun x y => x.age ≤ y.age) (hdays : index.get? a = some days)
    (rowDay : ℤ) (r : CodeUnits) (ok : PoolEntry → ℕ → Bool) :
    IsLeastOf (fun f => toLex (f.dist rowDay, f.age))
      (fun f => (f.Holds index a ∧ descriptionsMatch r f.norm = true ∧
        ok f.entry (f.dist rowDay) = true) ∧ f.dist rowDay < FUZZY_DAYS + 1)
      (search days rowDay r ok) := by
  unfold search
  generalize FUZZY_DAYS + 1 = n
  induction n with
  | zero => exact fun f hf => absurd hf.2 (Nat.not_lt_zero _)
  | succ n ih =>
    rw [List.range_succ, List.foldl_append, List.foldl_cons, List.foldl_nil]
    generalize (List.range n).foldl _ none = best at ih ⊢
    cases best with
    | some f => exact ih.nearest_succ
    | none =>
      refine IsLeastOf.nearest (IsLeastOf.congr
        (isLeastOf_searchDays (P := fun _ => False) h hlive hdays (fun e => ok e n)
          fun _ => id) fun f => ?_) fun f hf hlt => ih f ⟨hf, hlt⟩
      rw [false_or, mem_daysAt]
      constructor
      · rintro ⟨rfl, hf⟩
        exact ⟨hf, rfl⟩
      · rintro ⟨hf, rfl⟩
        exact ⟨rfl, hf⟩

end Search

/-! ## The entries claimed -/

section Claims

variable {live : List ExistingItem} {index : Index} {a : ℚ} {f : Found}

theorem Found.Holds.mem (h : Indexes nfc live index) (hf : f.Holds index a) :
    f.entry ∈ live.map (poolEntry nfc) ∧ f.entry.under a f.day f.norm = true := by
  have hmem := List.mem_of_getElem? hf
  rw [h.lists] at hmem
  exact List.mem_filter.mp hmem

theorem listAt_claim {n : ℤ} {a' : ℚ} :
    listAt (index.claim a f) a' n d =
      if a = a' ∧ f.day = n ∧ f.norm = d then (listAt index a' n d).eraseIdx f.place
      else listAt index a' n d := by
  rw [listAt, Index.claim, bucketAt_update (fun b => b.claim f), listAt]
  by_cases hday : a = a' ∧ f.day = n
  · rw [if_pos hday, Option.bind_some, DayBucket.claim, Entries.get?_update]
    have hget : ((bucketAt index a' n).getD {}).byNorm.get? d =
        (bucketAt index a' n).bind fun b => b.byNorm.get? d := by
      cases bucketAt index a' n <;> rfl
    by_cases hd : f.norm = d
    · rw [if_pos hd, if_pos ⟨hday.1, hday.2, hd⟩, Option.getD_some, hget]
    · rw [if_neg hd, if_neg (fun h => hd h.2.2), hget]
  · rw [if_neg hday, if_neg (fun h => hday ⟨h.1, h.2.1⟩)]

/-- Without the entry claimed, the index holds what is left. -/
theorem Indexes.claim (h : Indexes nfc live index) (hids : (live.map (·.id)).Nodup)
    (hf : f.Holds index a) :
    Indexes nfc (live.filter fun it => it.id ≠ f.entry.item.id) (index.claim a f) where
  wf {a' n b} hb := by
    rw [Index.claim, bucketAt_update (fun b => b.claim f)] at hb
    split_ifs at hb with hday
    · obtain ⟨rfl, rfl⟩ := hday
      obtain rfl := Option.some.inj hb
      rw [Found.Holds, listAt] at hf
      cases hb' : bucketAt index a f.day with
      | none =>
        rw [hb'] at hf
        simp at hf
      | some b =>
        rw [hb', Option.bind_some] at hf
        refine (h.wf hb').claim ?_
        cases hes : b.byNorm.get? f.norm with
        | none =>
          rw [hes] at hf
          simp at hf
        | some es => exact Entries.mem_keys_of_get? hes
    · exact h.wf hb
  lists a' n d := by
    obtain ⟨hmem, hunder⟩ := hf.mem h
    have hinj : ∀ e ∈ live.map (poolEntry nfc), e.item.id = f.entry.item.id → e = f.entry := by
      intro e he hid
      obtain ⟨it, hit, rfl⟩ := List.mem_map.mp he
      obtain ⟨it', hit', heq⟩ := List.mem_map.mp hmem
      rw [← heq] at hid ⊢
      rw [List.inj_on_of_nodup_map hids hit hit' hid]
    have hsplit : (live.filter fun it => it.id ≠ f.entry.item.id).map (poolEntry nfc) =
        (live.map (poolEntry nfc)).filter fun e => e.item.id ≠ f.entry.item.id := by
      rw [List.filter_map]
      rfl
    rw [listAt_claim, hsplit, List.filter_comm, ← h.lists]
    split_ifs with hkey
    · obtain ⟨rfl, rfl, rfl⟩ := hkey
      have hnodup : (listAt index a f.day f.norm).Nodup := by
        rw [h.lists]
        refine List.Nodup.filter _ (List.Nodup.of_map (fun e => e.item.id) ?_)
        rwa [List.map_map]
      obtain ⟨hlt, hget⟩ := List.getElem?_eq_some_iff.mp hf
      rw [← hnodup.erase_getElem _ hlt, hget, hnodup.erase_eq_filter]
      refine List.filter_congr fun e he => ?_
      rw [h.lists] at he
      have := hinj e (List.mem_filter.mp he).1
      by_cases hid : e.item.id = f.entry.item.id
      · simp [this hid]
      · have hne : e ≠ f.entry := fun heq => hid (heq ▸ rfl)
        simp [hid, hne]
    · refine (List.filter_eq_self.mpr fun e he => ?_).symm
      rw [h.lists, List.mem_filter] at he
      refine decide_eq_true fun hid => hkey ?_
      rw [hinj e he.1 hid] at he
      simp only [PoolEntry.under, Bool.and_eq_true_iff, decide_eq_true_eq] at he hunder
      exact ⟨hunder.1.1.symm.trans he.2.1.1, hunder.1.2.symm.trans he.2.1.2,
        hunder.2.symm.trans he.2.2⟩

end Claims

/-! ## The two classifications -/

section Same

variable {sha256 : CodeUnits → CodeUnits} {bounds : Section} {pool : List ExistingItem}
  {usedUp : List CodeUnits} {index : Index} {s : RowState}

/-- The items not yet claimed, by age. -/
def live (pool : List ExistingItem) (usedUp : List CodeUnits) : List ExistingItem :=
  (sortByAge pool).filter fun it => !usedUp.contains it.id

theorem live_sorted : (live pool usedUp).Pairwise fun x y => x.age ≤ y.age :=
  (List.pairwise_insertionSort _ _).filter _

theorem live_nodup (hids : (pool.map (·.id)).Nodup) :
    ((live pool usedUp).map (·.id)).Nodup := by
  have hperm : ((sortByAge pool).map (·.id)).Perm (pool.map (·.id)) :=
    (List.perm_insertionSort _ _).map _
  exact (hperm.nodup_iff.mpr hids).sublist (List.filter_sublist.map _)

theorem mem_live {it : ExistingItem} :
    it ∈ live pool usedUp ↔ it ∈ pool ∧ usedUp.contains it.id = false := by
  rw [live, List.mem_filter, sortByAge, List.mem_insertionSort, Bool.not_eq_true']

theorem live_claim (id : CodeUnits) :
    (live pool usedUp).filter (fun it => it.id ≠ id) = live pool (id :: usedUp) := by
  rw [live, live, List.filter_filter]
  refine List.filter_congr fun it _ => ?_
  simp

/-- The entries that a row's search goes over are the candidates of the scan. -/
theorem candidate_iff (h : Indexes nfc (live pool usedUp) index) {it : ExistingItem} :
    it ∈ pool.filter (s.candidate nfc bounds usedUp) ↔
      ∃ f : Found, ((f.Holds index s.keyed.canonicalAmount ∧
        descriptionsMatch s.keyed.normDescription f.norm = true ∧
          fits bounds s f.entry (f.dist (dayNumber s.row.date)) = true) ∧
            f.dist (dayNumber s.row.date) < FUZZY_DAYS + 1) ∧ f.entry.item = it := by
  simp only [List.mem_filter, RowState.candidate, Bool.and_eq_true_iff, decide_eq_true_eq,
    Bool.not_eq_true']
  constructor
  · rintro ⟨hit, ⟨⟨⟨hused, hamount⟩, hdiff⟩, hm⟩, hfits⟩
    have hmem : poolEntry nfc it ∈ listAt index s.keyed.canonicalAmount (dayNumber it.date)
        (norm nfc (units it.description)) := by
      rw [h.lists, List.mem_filter]
      exact ⟨List.mem_map_of_mem (mem_live.mpr ⟨hit, hused⟩), by
        simp [PoolEntry.under, poolEntry, hamount]⟩
    obtain ⟨i, hi⟩ := List.mem_iff_getElem?.mp hmem
    exact ⟨⟨dayNumber it.date, norm nfc (units it.description), i, poolEntry nfc it⟩,
      ⟨⟨hi, hm, hfits⟩, Nat.lt_succ_of_le hdiff⟩, rfl⟩
  · rintro ⟨f, ⟨⟨hf, hm, hfits⟩, hdist⟩, rfl⟩
    obtain ⟨hmem, hunder⟩ := hf.mem h
    obtain ⟨it, hit, heq⟩ := List.mem_map.mp hmem
    obtain ⟨hpool, hused⟩ := mem_live.mp hit
    simp only [PoolEntry.under, Bool.and_eq_true_iff, decide_eq_true_eq] at hunder
    rw [← hunder.2] at hm
    rw [Found.dist, ← hunder.1.2] at hfits hdist
    rw [← heq] at hunder hm hfits hdist ⊢
    exact ⟨hpool, ⟨⟨⟨hused, hunder.1.1⟩, Nat.lt_succ_iff.mp hdist⟩, hm⟩, hfits⟩

/-- The search through the index ends with what the scan picks. -/
theorem search_eq_plainPick (bounds : Section) (h : Indexes nfc (live pool usedUp) index)
    (hids : (pool.map (·.id)).Nodup) :
    ((index.get? s.keyed.canonicalAmount).bind fun days =>
        search days (dayNumber s.row.date) s.keyed.normDescription (fits bounds s)).map
          (·.entry.item) = plainPick nfc bounds pool usedUp s := by
  have hscan := @isLeastOf_argmin _ _ _ (fun it : ExistingItem =>
    toLex (dayDiff s.row.date it.date, it.age)) (pool.filter (s.candidate nfc bounds usedUp))
  refine IsLeastOf.unique (P := (· ∈ pool.filter (s.candidate nfc bounds usedUp))) ?_ hscan
    fun x y hx hy hrank => ?_
  · cases hdays : index.get? s.keyed.canonicalAmount with
    | none =>
      intro it hit
      obtain ⟨f, ⟨⟨hf, -⟩, -⟩, -⟩ := (candidate_iff h).mp hit
      rw [Found.Holds, listAt, bucketAt, hdays] at hf
      simp at hf
    | some days =>
      rw [Option.bind_some]
      refine (isLeastOf_search h live_sorted hdays _ _ (fits bounds s)).map (fun f hf => ?_)
        fun it => candidate_iff h
      obtain ⟨hmem, hunder⟩ := hf.1.1.mem h
      simp only [PoolEntry.under, Bool.and_eq_true_iff, decide_eq_true_eq] at hunder
      rw [Found.dist, ← hunder.1.2, dayDiff, Found.age]
  · have hage := (Prod.ext_iff.mp (toLex.injective hrank)).2
    have hid := (Prod.ext_iff.mp (toLex.injective hage)).2
    exact List.inj_on_of_nodup_map hids (List.mem_of_mem_filter hx) (List.mem_of_mem_filter hy) hid

/-- A row claims the same item either way, and the index keeps to what is left. -/
theorem lookAlike_step (hids : (pool.map (·.id)).Nodup)
    (h : Indexes nfc (live pool usedUp) index) (s : RowState) :
    Indexes nfc (live pool (plainLookAlike nfc sha256 bounds pool usedUp s).1)
        (lookAlike sha256 bounds index s).1 ∧
      (lookAlike sha256 bounds index s).2 = (plainLookAlike nfc sha256 bounds pool usedUp s).2 := by
  unfold lookAlike plainLookAlike
  cases s.out with
  | some c => exact ⟨h, rfl⟩
  | none =>
    have hpick := search_eq_plainPick (s := s) bounds h hids
    simp only []
    rw [← hpick]
    cases hf : (index.get? s.keyed.canonicalAmount).bind fun days =>
        search days (dayNumber s.row.date) s.keyed.normDescription (fits bounds s) with
    | none => exact ⟨h, rfl⟩
    | some f =>
      refine ⟨?_, rfl⟩
      have hholds : f.Holds index s.keyed.canonicalAmount := by
        obtain ⟨days, hdays, hsearch⟩ := Option.bind_eq_some_iff.mp hf
        have := isLeastOf_search h live_sorted hdays (dayNumber s.row.date)
          s.keyed.normDescription (fits bounds s)
        rw [hsearch] at this
        exact this.1.1.1
      rw [Option.map_some, ← live_claim]
      exact h.claim (live_nodup hids) hholds

theorem sweep_rel {σ τ α β : Type} {R : σ → τ → Prop} {f : σ → α → σ × β} {g : τ → α → τ × β}
    (h : ∀ s t a, R s t → R (f s a).1 (g t a).1 ∧ (f s a).2 = (g t a).2) :
    ∀ {as : List α} {s : σ} {t : τ}, R s t → (sweep f s as).2 = (sweep g t as).2
  | [], _, _, _ => rfl
  | a :: as, s, t, hst => by
    obtain ⟨hnext, hout⟩ := h s t a hst
    simp only [sweep]
    rw [hout, sweep_rel h hnext]

/-- Through the index, every row is classified as by the plain scan. -/
theorem classifyRows_eq_plain (nfc sha256 : CodeUnits → CodeUnits)
    (hnfc : ∀ t : Text, Paired (nfc (units t))) (rows : List BatchRowInput) (keyed : List KeyedRow)
    (look : Lookups) (hids : (look.pool.map (·.id)).Nodup) (bounds : Section) :
    classifyRows nfc sha256 rows keyed look bounds =
      classifyPlain nfc sha256 rows keyed look bounds :=
  sweep_rel (R := fun index usedUp => Indexes nfc (live look.pool usedUp) index)
    (fun _ _ s h => lookAlike_step hids h s) (indexes_lookAlikeIndex hnfc _ _)

def coffeeRow : BatchRowInput where
  line := 1
  date := ⟨2026, 4, 15⟩
  amount := 9 / 2
  description := units "Coffee Bar 12 Oslo".toList

def coffeeItem (id : String) (date : IsoDate) (description : String) : ExistingItem where
  id := units id.toList
  connectionId := units "c".toList
  fitid := none
  date := date
  amount := 9 / 2
  description := description.toList
  checkNumber := none
  status := "pending"
  createdAt := units "2026-04-20".toList
  dedupeKey := none
  rowKey := none

/-- Of two look-alikes, the nearer. -/
theorem classifyRows_eq_plain_coffee :
    (classifyRows id id [coffeeRow] (keyRows id id [⟨coffeeRow.date, coffeeRow.amount,
      coffeeRow.description⟩]) ⟨[], [], [coffeeItem "a" ⟨2026, 4, 13⟩ "coffee bar 12 oslo",
        coffeeItem "b" ⟨2026, 4, 16⟩ "coffee bar"]⟩ ⟨none, none⟩).map
      (fun c => (c.status, c.existing.map (·.id))) =
        [(.possibleDuplicate, some (units "b".toList))] := by
  rw [classifyRows_eq_plain id id paired_units _ _ _ (by decide)]
  decide +kernel

end Same

end MyBooks.ImportRows
