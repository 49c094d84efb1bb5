import MyBooks.ImportBatches

/-!
# A batch undone

A commit replaces items, each row one of its own (`changedIds_plan`), and adds new ones
(`commitBatch_items`). Undone right after, it leaves the items it found (`undoItems_commitBatch`).
-/

namespace MyBooks.ImportRows

open ImportKeys

/-- Where no key is there twice, an element is found by its key. -/
theorem find?_of_nodup_map {α κ : Type} [DecidableEq κ] {f : α → κ} {l : List α}
    (h : (l.map f).Nodup) {a : α} (ha : a ∈ l) {k : κ} (hk : f a = k) :
    l.find? (fun x => f x = k) = some a := by
  subst hk
  cases hx : l.find? fun x => f x = f a with
  | none =>
    have hnone := List.find?_eq_none.mp hx a ha
    simp at hnone
  | some x =>
    have hfx : f x = f a := by simpa using List.find?_some hx
    rw [List.inj_on_of_nodup_map h (List.mem_of_find?_eq_some hx) ha hfx]

/-! ## Values set by id -/

section Setting

variable {items : List FeedItem} {id j : CodeUnits} {f : FeedItem → FeedItem}
  {recs : List ReplacedItem} {v w : ReplacedItem → ItemValues} {it : FeedItem}

def setAll (items : List FeedItem) (recs : List ReplacedItem) (v : ReplacedItem → ItemValues) :
    List FeedItem :=
  recs.foldl (fun items r => updateItem items r.id (·.setValues (v r))) items

/-- An item after all that is set. -/
def FeedItem.setBy (recs : List ReplacedItem) (v : ReplacedItem → ItemValues) (it : FeedItem) :
    FeedItem :=
  match recs.find? fun r => r.id = it.id with
  | some r => it.setValues (v r)
  | none => it

theorem setBy_some {r : ReplacedItem} (h : recs.find? (fun r => r.id = it.id) = some r) :
    it.setBy recs v = it.setValues (v r) := by
  unfold FeedItem.setBy
  rw [h]

theorem setBy_none (h : recs.find? (fun r => r.id = it.id) = none) : it.setBy recs v = it := by
  unfold FeedItem.setBy
  rw [h]

@[simp] theorem setBy_id : (it.setBy recs v).id = it.id := by
  unfold FeedItem.setBy
  split <;> rfl

@[simp] theorem setBy_importBatchId : (it.setBy recs v).importBatchId = it.importBatchId := by
  unfold FeedItem.setBy
  split <;> rfl

@[simp] theorem setBy_untouched : (it.setBy recs v).untouched = it.untouched := by
  unfold FeedItem.setBy
  split <;> rfl

theorem find?_updateItem (hf : ∀ it, (f it).id = it.id) (hne : j ≠ id) :
    (updateItem items id f).find? (fun it => it.id = j) = items.find? fun it => it.id = j := by
  have hid : ∀ it : FeedItem, (if it.id = id then f it else it).id = it.id := fun it => by
    split_ifs
    · exact hf it
    · rfl
  rw [updateItem, List.find?_map]
  have hcomp : ((fun it : FeedItem => decide (it.id = j)) ∘
      fun it => if it.id = id then f it else it) = fun it => decide (it.id = j) :=
    funext fun it => by rw [Function.comp_apply, hid]
  rw [hcomp]
  cases hfind : items.find? fun it => it.id = j with
  | none => rfl
  | some it =>
    have hj : it.id = j := by simpa using List.find?_some hfind
    rw [Option.map_some, if_neg (fun h => hne (hj ▸ h))]

theorem setAll_eq_map : ∀ {recs : List ReplacedItem} (items : List FeedItem),
    (recs.map (·.id)).Nodup → setAll items recs v = items.map (·.setBy recs v)
  | [], items, _ => by
    rw [setAll, List.foldl_nil]
    exact (List.map_id' items).symm
  | r :: recs, items, h => by
    obtain ⟨hr, hrecs⟩ := List.nodup_cons.mp h
    rw [setAll, List.foldl_cons]
    refine (setAll_eq_map _ hrecs).trans ?_
    rw [updateItem, List.map_map]
    refine List.map_congr_left fun it _ => ?_
    rw [Function.comp_apply]
    by_cases hid : it.id = r.id
    · have hnone : recs.find? (fun r' => r'.id = it.id) = none := List.find?_eq_none.mpr
        fun r' hr' => by
          simp only [decide_eq_true_eq]
          exact fun heq => hr (List.mem_map.mpr ⟨r', hr', heq.trans hid⟩)
      have hhead : (r :: recs).find? (fun r' => r'.id = it.id) = some r := by
        rw [List.find?_cons, hid]
        simp
      rw [if_pos hid, setBy_some hhead]
      exact setBy_none hnone
    · have hhead : (r :: recs).find? (fun r' => r'.id = it.id) =
          recs.find? fun r' => r'.id = it.id := by
        rw [List.find?_cons, decide_eq_false (Ne.symm hid)]
      rw [if_neg hid, FeedItem.setBy, FeedItem.setBy, hhead]

/-- Setting the values there were undoes setting others. -/
theorem setBy_setBy (hv : ∀ r ∈ recs, r.id = it.id → v r = it.values) :
    (it.setBy recs w).setBy recs v = it := by
  cases hr : recs.find? fun r => r.id = it.id with
  | none => rw [setBy_none hr, setBy_none hr]
  | some r =>
    have hid : r.id = it.id := by simpa using List.find?_some hr
    have hset : (it.setValues (w r)).setBy recs v = (it.setValues (w r)).setValues (v r) :=
      setBy_some hr
    rw [setBy_some hr, hset, hv r (List.mem_of_find?_eq_some hr) hid]
    rfl

end Setting

/-! ## What a commit does to the items -/

section Commit

variable {items : List FeedItem} {p q : RowPlan} {plans : List RowPlan}

/-- The record a row makes of the item it replaces. -/
def recordOf (items : List FeedItem) (p : RowPlan) : Option ReplacedItem :=
  match p.classified.existing with
  | none => none
  | some existing =>
    if p.classified.status = .changed && p.row.changedAction = some .replace then
      match items.find? fun it => it.id = existing.id with
      | none => none
      | some before =>
        if before.untouched then
          some ⟨existing.id, p.row.line, before.values,
            ⟨p.keyed.canonicalAmount, p.row.date, some p.keyed.rowKey⟩⟩
        else none
    else none

/-- What a row answers about its replacement. -/
def replacedFlag (items : List FeedItem) (p : RowPlan) : Option Bool :=
  match p.classified.existing with
  | none => none
  | some _ =>
    if p.classified.status = .changed && p.row.changedAction = some .replace then
      some (recordOf items p).isSome
    else none

/-- The item a row is a changed version of. -/
def Classified.changedId (c : Classified) : Option CodeUnits :=
  if c.status = .changed then c.existing.map (·.id) else none

theorem recordOf_id {r : ReplacedItem} (h : recordOf items p = some r) :
    p.classified.changedId = some r.id := by
  unfold recordOf at h
  split at h
  · cases h
  · rename_i existing hex
    split_ifs at h with hcond
    split at h
    · cases h
    · split_ifs at h
      obtain rfl := Option.some.inj h
      have hstatus : p.classified.status = .changed := by
        simpa using (Bool.and_eq_true_iff.mp hcond).1
      rw [Classified.changedId, if_pos hstatus, hex]
      rfl

theorem recordOf_item {r : ReplacedItem} (h : recordOf items p = some r) :
    ∃ before, items.find? (fun it => it.id = r.id) = some before ∧ before.untouched = true ∧
      r.before = before.values := by
  unfold recordOf at h
  split at h
  · cases h
  · split_ifs at h
    split at h
    · cases h
    · rename_i before hfind
      split_ifs at h with hun
      obtain rfl := Option.some.inj h
      exact ⟨before, hfind, hun, rfl⟩

theorem recordOf_congr {items' : List FeedItem} (h : ∀ id ∈ p.classified.changedId,
    items'.find? (fun it => it.id = id) = items.find? fun it => it.id = id) :
    recordOf items' p = recordOf items p := by
  unfold recordOf
  split
  · rfl
  · rename_i existing hex
    split_ifs with hcond
    · have hstatus : p.classified.status = .changed := by
        simpa using (Bool.and_eq_true_iff.mp hcond).1
      rw [h existing.id (by rw [Classified.changedId, if_pos hstatus, hex]; rfl)]
    · rfl

theorem replacedFlag_congr {items' : List FeedItem} (h : ∀ id ∈ p.classified.changedId,
    items'.find? (fun it => it.id = id) = items.find? fun it => it.id = id) :
    replacedFlag items' p = replacedFlag items p := by
  unfold replacedFlag
  rw [recordOf_congr h]

theorem replaceOne_eq (items : List FeedItem) (recs : List ReplacedItem) (p : RowPlan) :
    replaceOne (items, recs) p =
      ((setAll items (recordOf items p).toList (·.after), recs ++ (recordOf items p).toList),
        replacedFlag items p) := by
  unfold replaceOne replacedFlag recordOf
  cases hex : p.classified.existing with
  | none => simp [setAll]
  | some existing =>
    simp only []
    split_ifs with hcond
    · cases hfind : items.find? fun it => it.id = existing.id with
      | none => simp [setAll]
      | some before =>
        simp only []
        split_ifs <;> simp [setAll]
    · simp [setAll]

/-- Rows that replace different items replace them as they were found. -/
theorem sweep_replaceOne : ∀ {plans : List RowPlan} (items : List FeedItem)
    (recs : List ReplacedItem), (plans.filterMap (·.classified.changedId)).Nodup →
    sweep replaceOne (items, recs) plans =
      ((setAll items (plans.filterMap (recordOf items)) (·.after),
        recs ++ plans.filterMap (recordOf items)), plans.map (replacedFlag items))
  | [], items, recs, _ => by simp [sweep, setAll]
  | p :: plans, items, recs, h => by
    have hrest : (plans.filterMap (·.classified.changedId)).Nodup := by
      rw [List.filterMap_cons] at h
      split at h
      · exact h
      · exact (List.nodup_cons.mp h).2
    have hfind : ∀ q ∈ plans, ∀ id ∈ q.classified.changedId,
        (setAll items (recordOf items p).toList (·.after)).find? (fun it => it.id = id) =
          items.find? fun it => it.id = id := by
      intro q hq id hid
      cases hr : recordOf items p with
      | none => rfl
      | some r =>
        refine find?_updateItem (fun _ => rfl) fun heq => ?_
        rw [List.filterMap_cons, recordOf_id hr] at h
        exact (List.nodup_cons.mp h).1 (heq ▸ List.mem_filterMap.mpr ⟨q, hq, hid⟩)
    have hrecs : plans.filterMap (recordOf (setAll items (recordOf items p).toList (·.after))) =
        plans.filterMap (recordOf items) :=
      List.filterMap_congr fun q hq => recordOf_congr (hfind q hq)
    have hflags : plans.map (replacedFlag (setAll items (recordOf items p).toList (·.after))) =
        plans.map (replacedFlag items) :=
      List.map_congr_left fun q hq => replacedFlag_congr (hfind q hq)
    simp only [sweep]
    rw [replaceOne_eq, sweep_replaceOne _ _ hrest, hrecs, hflags]
    cases hr : recordOf items p with
    | none => simp [hr, setAll]
    | some r => simp [hr, setAll]

end Commit

/-! ## The items that changed rows claim -/

section Claimed

variable {nfc sha256 : CodeUnits → CodeUnits} {items : List ExistingItem}

theorem sweep_forall {σ α β : Type} {f : σ → α → σ × β} {P : α → Prop} {Q : β → Prop}
    (h : ∀ s a, P a → Q (f s a).2) : ∀ {as : List α} (s : σ), (∀ a ∈ as, P a) →
    ∀ b ∈ (sweep f s as).2, Q b
  | [], _, _, _, hb => absurd hb List.not_mem_nil
  | a :: as, s, has, b, hb => by
    simp only [sweep, List.mem_cons] at hb
    rcases hb with rfl | hb
    · exact h s a (has a List.mem_cons_self)
    · exact sweep_forall h _ (fun a' ha' => has a' (List.mem_cons_of_mem _ ha')) b hb

/-- The items a look-up by bank id lists. -/
theorem byFitid_lookups (rows : List BatchRowInput) (keyed : List KeyedRow) (f : CodeUnits) :
    ((lookups items rows keyed).byFitid.get? f).getD [] =
      (items.filter fun it => it.fitid.isSome &&
        (rows.map fun r => cleanFitid r.fitid).contains it.fitid).filter
          fun it => it.fitid.getD [] = f := by
  have hfold : ∀ (xs : List ExistingItem) (o : Option (List ExistingItem)),
      (xs.foldl (fun o x => some (o.getD [] ++ [x])) o).getD [] = o.getD [] ++ xs := by
    intro xs
    induction xs with
    | nil => simp
    | cons x xs ih =>
      intro o
      rw [List.foldl_cons, ih, Option.getD_some, List.append_assoc, List.singleton_append]
  simp only [lookups]
  rw [Entries.get?_foldl_update, Entries.get?_nil, hfold]
  rfl

/-- The rows a state stands for: nothing changed yet, the item of another amount one of `items`. -/
def RowState.Unchanged (items : List ExistingItem) (s : RowState) : Prop :=
  (s.out.bind Classified.changedId) = none ∧ ∀ e ∈ s.sameFitid, e ∈ items

theorem sameBankId_unchanged {rows : List BatchRowInput} {keyed : List KeyedRow}
    (usedUp : List CodeUnits) {s : RowState} (h : s.Unchanged items) :
    (sameBankId sha256 (rows.map fun r => cleanFitid r.fitid) (lookups items rows keyed) usedUp
      s).2.Unchanged items := by
  unfold sameBankId
  split
  · exact h
  · rename_i fitid _
    split_ifs
    · exact h
    · split
      · exact h
      · rename_i existing hhead
        split_ifs
        · exact ⟨rfl, h.2⟩
        · refine ⟨h.1, fun e he => ?_⟩
          obtain rfl := Option.some.inj he
          have hmem := List.mem_of_head? hhead
          rw [sortByAge, List.mem_insertionSort, byFitid_lookups] at hmem
          exact (List.mem_filter.mp (List.mem_filter.mp hmem).1).1

theorem sameRow_unchanged {look : Lookups} (usedUp : List CodeUnits) {s : RowState}
    (h : s.Unchanged items) : (sameRow look usedUp s).2.Unchanged items := by
  unfold sameRow
  split
  · split_ifs
    · exact h
    · exact h
    · exact ⟨rfl, h.2⟩
  · exact h

/-- Each row that has changed claims an item of its own. -/
theorem sweep_changedRow (nfc : CodeUnits → CodeUnits) :
    ∀ {ss : List RowState} (usedUp : List CodeUnits),
    (∀ s ∈ ss, s.Unchanged items) →
    let ids := (sweep (changedRow nfc) usedUp ss).2.filterMap
      fun s => s.out.bind Classified.changedId
    ids.Nodup ∧ ∀ id ∈ ids, id ∉ usedUp ∧ id ∈ items.map (·.id)
  | [], _, _ => by simp [sweep]
  | s :: ss, usedUp, h => by
    have hs := h s List.mem_cons_self
    have hss := fun s' hs' => h s' (List.mem_cons_of_mem _ hs')
    simp only [sweep, List.filterMap_cons]
    have hkeep : (changedRow nfc usedUp s).1 = usedUp ∧
          (changedRow nfc usedUp s).2.out.bind Classified.changedId = none ∨
        ∃ e ∈ items, e.id ∉ usedUp ∧ (changedRow nfc usedUp s).1 = e.id :: usedUp ∧
          (changedRow nfc usedUp s).2.out.bind Classified.changedId = some e.id := by
      unfold changedRow
      split
      · rename_i existing hout hsame
        split_ifs with hcond
        · refine .inr ⟨existing, hs.2 _ hsame, ?_, rfl, rfl⟩
          simpa using (Bool.and_eq_true_iff.mp (Bool.and_eq_true_iff.mp hcond).1).1
        · exact .inl ⟨rfl, hs.1⟩
      · exact .inl ⟨rfl, hs.1⟩
    rcases hkeep with ⟨hused, hnone⟩ | ⟨e, he, hnew, hused, hsome⟩
    · rw [hnone, hused]
      exact sweep_changedRow nfc usedUp hss
    · rw [hsome, hused]
      obtain ⟨hnodup, hids⟩ := sweep_changedRow nfc (e.id :: usedUp) hss
      refine ⟨List.nodup_cons.mpr ⟨fun hmem => ?_, hnodup⟩, fun id hid => ?_⟩
      · exact (hids _ hmem).1 List.mem_cons_self
      · rcases List.mem_cons.mp hid with rfl | hid
        · exact ⟨hnew, List.mem_map_of_mem he⟩
        · exact ⟨fun hu => (hids id hid).1 (List.mem_cons_of_mem _ hu), (hids id hid).2⟩

theorem sweep_lookAlike {bounds : Section} : ∀ (ss : List RowState) (index : Index),
    (sweep (lookAlike sha256 bounds) index ss).2.filterMap Classified.changedId =
      ss.filterMap fun s => s.out.bind Classified.changedId
  | [], _ => rfl
  | s :: ss, index => by
    simp only [sweep, List.filterMap_cons, sweep_lookAlike ss]
    have hstep : (lookAlike sha256 bounds index s).2.changedId =
        s.out.bind Classified.changedId := by
      unfold lookAlike
      cases s.out with
      | some c => rfl
      | none =>
        simp only []
        split <;> rfl
    rw [hstep]

theorem startStates_unchanged (items : List ExistingItem) (rows : List BatchRowInput)
    (keyed : List KeyedRow) : ∀ s ∈ startStates rows keyed, s.Unchanged items := by
  intro s hs
  obtain ⟨p, -, rfl⟩ := List.mem_map.mp hs
  exact ⟨rfl, fun e he => absurd he (by simp)⟩

theorem changedIds_classifyRows (nfc sha256 : CodeUnits → CodeUnits) (items : List ExistingItem)
    (rows : List BatchRowInput) (keyed : List KeyedRow) (bounds : Section) :
    let ids := (classifyRows nfc sha256 rows keyed (lookups items rows keyed) bounds).filterMap
      Classified.changedId
    ids.Nodup ∧ ∀ id ∈ ids, id ∈ items.map (·.id) := by
  rw [classifyRows, sweep_lookAlike]
  simp only [byKeys]
  have hbankId : ∀ used (s : RowState), s.Unchanged items →
      (sameBankId sha256 (rows.map fun r => cleanFitid r.fitid) (lookups items rows keyed) used
        s).2.Unchanged items := fun used s h => sameBankId_unchanged used h
  have hrow : ∀ used (s : RowState), s.Unchanged items →
      (sameRow (lookups items rows keyed) used s).2.Unchanged items :=
    fun used s h => sameRow_unchanged used h
  set ii := sweep (sameBankId sha256 (rows.map fun r => cleanFitid r.fitid)
    (lookups items rows keyed)) [] (startStates rows keyed)
  have hii : ∀ s ∈ ii.2, s.Unchanged items :=
    sweep_forall hbankId [] (startStates_unchanged items rows keyed)
  have hiii : ∀ s ∈ (sweep (sameRow (lookups items rows keyed)) ii.1 ii.2).2, s.Unchanged items :=
    sweep_forall hrow _ hii
  obtain ⟨hnodup, hids⟩ := sweep_changedRow nfc
    (sweep (sameRow (lookups items rows keyed)) ii.1 ii.2).1 hiii
  exact ⟨hnodup, fun id hid => (hids id hid).2⟩

theorem filterMap_zip_sublist {α β γ : Type} (f : β → Option γ) (as : List α) (bs : List β) :
    ((as.zip bs).filterMap fun p => f p.2).Sublist (bs.filterMap f) := by
  induction as generalizing bs with
  | nil => simp
  | cons a as ih =>
    cases bs with
    | nil => simp
    | cons b bs =>
      rw [List.zip_cons_cons, List.filterMap_cons, List.filterMap_cons]
      cases f b with
      | none => exact ih bs
      | some c => exact (ih bs).cons_cons c

/-- The rows of a request that have changed claim items of the account, each its own. -/
theorem changedIds_plan (nfc sha256 : CodeUnits → CodeUnits) (items : List FeedItem)
    (input : BatchInput) :
    let ids := (plan nfc sha256 items input).filterMap (·.classified.changedId)
    ids.Nodup ∧ ∀ id ∈ ids, id ∈ items.map (·.id) := by
  obtain ⟨hnodup, hids⟩ := changedIds_classifyRows nfc sha256
    (items.map (·.toExistingItem)) input.rows (input.keyed nfc sha256) input.bounds
  have hsub : ((plan nfc sha256 items input).filterMap (·.classified.changedId)).Sublist
      ((classifyRows nfc sha256 input.rows (input.keyed nfc sha256)
        (lookups (items.map (·.toExistingItem)) input.rows (input.keyed nfc sha256))
          input.bounds).filterMap Classified.changedId) := by
    rw [plan, List.filterMap_map]
    refine (filterMap_zip_sublist (fun p : KeyedRow × Classified => p.2.changedId) _ _).trans ?_
    exact filterMap_zip_sublist Classified.changedId _ _
  refine ⟨hnodup.sublist hsub, fun id hid => ?_⟩
  have := hids id (hsub.subset hid)
  rwa [List.map_map] at this

end Claimed

/-! ## A commit undone -/

/-- The ids a commit gives are new. -/
structure CommitEnv.Fresh (env : CommitEnv) (items : List FeedItem) : Prop where
  injective : Function.Injective env.itemId
  unused : ∀ it ∈ items, ∀ i, it.id ≠ env.itemId i ∧ it.possibleDuplicateOf ≠ some (env.itemId i)
  batch : ∀ it ∈ items, it.importBatchId ≠ some env.batchId

/-- An item that a commit inserted, as it did. -/
structure CommitEnv.Inserted (env : CommitEnv) (x : FeedItem) : Prop where
  id : ∃ i, x.id = env.itemId i
  importBatchId : x.importBatchId = some env.batchId
  untouched : x.untouched = true

section Undone

variable {nfc sha256 : CodeUnits → CodeUnits} {env : CommitEnv} {feed : Feed} {input : BatchInput}

theorem foldl_insertOne (xs : List (FeedItem × ℕ)) (acc : List FeedItem × List ℕ) :
    ∃ new, (xs.foldl insertOne acc).1 = acc.1 ++ new ∧ new.Sublist (xs.map Prod.fst) := by
  induction xs generalizing acc with
  | nil => exact ⟨[], by simp, List.Sublist.refl _⟩
  | cons x xs ih =>
    rw [List.foldl_cons, insertOne]
    split_ifs
    · obtain ⟨new, hnew, hsub⟩ := ih acc
      exact ⟨new, hnew, hsub.cons _⟩
    · obtain ⟨new, hnew, hsub⟩ := ih (acc.1 ++ [x.1], acc.2 ++ [x.2])
      exact ⟨x.1 :: new, by rw [hnew, List.append_assoc, List.singleton_append], hsub.cons_cons _⟩

theorem inserted_toInsert {c : CodeUnits} {plans : List RowPlan} :
    ∀ x ∈ toInsert env c plans, env.Inserted x.1 ∧ x.1.id = env.itemId x.2 := by
  intro x hx
  obtain ⟨p, -, hp⟩ := List.mem_filterMap.mp hx
  split_ifs at hp
  obtain rfl := Option.some.inj hp
  exact ⟨⟨⟨p.2, rfl⟩, rfl, rfl⟩, rfl⟩

theorem nodup_toInsert (hinj : Function.Injective env.itemId) (c : CodeUnits)
    (plans : List RowPlan) : (((toInsert env c plans).map Prod.fst).map (·.id)).Nodup := by
  have hplaces : plans.zipIdx.Pairwise fun p q => p.2 ≠ q.2 := List.pairwise_map.mp (by
    rw [List.zipIdx_map_snd]
    exact List.nodup_range')
  rw [List.map_map]
  refine List.pairwise_map.mpr (hplaces.filterMap _ fun p q hpq x hx y hy heq => ?_)
  have hid : ∀ {p : RowPlan × ℕ} {x : FeedItem × ℕ}, (if wouldInsert p.1.row p.1.classified then
      some (newItem env c p.1 p.2, p.2) else none) = some x → x.1.id = env.itemId p.2 := by
    intro p x hx
    split_ifs at hx
    obtain rfl := Option.some.inj hx
    rfl
  exact hpq (hinj ((hid hx).symm.trans (heq.trans (hid hy))))

/-- The rows of a request replace items of the account as they were found. -/
theorem sweep_replaceOne_plan (items new : List FeedItem) (input : BatchInput) :
    sweep replaceOne (items ++ new, []) (plan nfc sha256 items input) =
      ((setAll (items ++ new) ((plan nfc sha256 items input).filterMap (recordOf items)) (·.after),
        (plan nfc sha256 items input).filterMap (recordOf items)),
          (plan nfc sha256 items input).map (replacedFlag items)) := by
  obtain ⟨hchanged, hmem⟩ := changedIds_plan nfc sha256 items input
  have hfind : ∀ p ∈ plan nfc sha256 items input, ∀ id ∈ p.classified.changedId,
      (items ++ new).find? (fun it => it.id = id) = items.find? fun it => it.id = id := by
    intro p hp id hid
    obtain ⟨it, hit, heq⟩ := List.mem_map.mp (hmem id (List.mem_filterMap.mpr ⟨p, hp, hid⟩))
    obtain ⟨y, hy⟩ := Option.isSome_iff_exists.mp
      (List.find?_isSome.mpr ⟨it, hit, by simp [heq]⟩ :
        (items.find? fun it => it.id = id).isSome = true)
    rw [List.find?_append, hy, Option.some_or]
  rw [sweep_replaceOne _ _ hchanged, List.nil_append,
    List.filterMap_congr fun p hp => recordOf_congr (hfind p hp),
    List.map_congr_left fun p hp => replacedFlag_congr (hfind p hp)]

variable (nfc sha256 input) in
/-- What a commit leaves: the items with those replaced, the new ones, and the batch. -/
theorem commitBatch_items (hfresh : env.Fresh feed.items) :
    ∃ new recs state, (∀ x ∈ new, env.Inserted x) ∧ (new.map (·.id)).Nodup ∧
      recs = (plan nfc sha256 feed.items input).filterMap (recordOf feed.items) ∧
      feed.items ++ new = ((toInsert env (feed.manual.getD env.connectionId)
        (plan nfc sha256 feed.items input)).foldl insertOne (feed.items, [])).1 ∧
      (commitBatch nfc sha256 feed input env).1.items =
        setAll (feed.items ++ new) recs (·.after) ∧
      (commitBatch nfc sha256 feed input env).1.batches =
        feed.batches ++ [⟨env.batchId, recs, state, false⟩] := by
  set c := feed.manual.getD env.connectionId
  set plans := plan nfc sha256 feed.items input
  obtain ⟨new, hnew, hsub⟩ := foldl_insertOne (toInsert env c plans) (feed.items, [])
  have hinserted : ∀ x ∈ new, env.Inserted x := fun x hx => by
    obtain ⟨y, hy, rfl⟩ := List.mem_map.mp (hsub.subset hx)
    exact (inserted_toInsert y hy).1
  have hnodup : (new.map (·.id)).Nodup :=
    (nodup_toInsert hfresh.injective c plans).sublist (hsub.map _)
  refine ⟨new, _, if ((toInsert env c plans).foldl insertOne (feed.items, [])).2 = [] then .done
    else .scheduled, hinserted, hnodup, rfl, hnew.symm, ?_, ?_⟩
  · simp only [commitBatch]
    rw [hnew, sweep_replaceOne_plan]
  · simp only [commitBatch]
    rw [hnew, sweep_replaceOne_plan]

/-- What a commit answers: the rows as classified, which were inserted, and which replaced. -/
theorem commitBatch_results :
    (commitBatch nfc sha256 feed input env).2 =
      ((plan nfc sha256 feed.items input).zip ((plan nfc sha256 feed.items input).map
        (replacedFlag feed.items))).zipIdx.map fun r => rowResult r.1.1
          (((toInsert env (feed.manual.getD env.connectionId) (plan nfc sha256 feed.items
            input)).foldl insertOne (feed.items, [])).2.contains r.2) r.1.2 := by
  obtain ⟨new, hnew, -⟩ := foldl_insertOne (toInsert env (feed.manual.getD env.connectionId)
    (plan nfc sha256 feed.items input)) (feed.items, [])
  simp only [commitBatch]
  rw [hnew, sweep_replaceOne_plan]

/-- Nothing of a batch was used since. -/
structure ImportBatch.Left (b : ImportBatch) (items : List FeedItem) : Prop where
  untouched : ∀ it ∈ items, it.importBatchId = some b.id → it.untouched = true
  asLeft : ∀ r ∈ b.replacedItems, ∀ it, current items r = some it → r.asLeft it = true

theorem restorable_eq {b : ImportBatch} {items : List FeedItem}
    (h : ∀ r ∈ b.replacedItems, ∃ it, current items r = some it ∧ r.asLeft it = true) :
    (b.replacedItems.filter fun r => (current items r).any r.asLeft) = b.replacedItems :=
  List.filter_eq_self.mpr fun r hr => by
    obtain ⟨it, hit, hleft⟩ := h r hr
    rw [hit]
    exact hleft

section Records

variable {items new : List FeedItem} {recs : List ReplacedItem}

/-- Records of items there are, each of its own. -/
structure RecordsOf (items : List FeedItem) (recs : List ReplacedItem) : Prop where
  nodup : (recs.map (·.id)).Nodup
  found : ∀ r ∈ recs, ∃ before, items.find? (fun it => it.id = r.id) = some before ∧
    before.untouched = true ∧ r.before = before.values

theorem recordsOf_plan (nfc sha256 : CodeUnits → CodeUnits) (items : List FeedItem)
    (input : BatchInput) :
    RecordsOf items ((plan nfc sha256 items input).filterMap (recordOf items)) where
  nodup := by
    have hsub : (((plan nfc sha256 items input).filterMap (recordOf items)).map (·.id)).Sublist
        ((plan nfc sha256 items input).filterMap (·.classified.changedId)) := by
      generalize plan nfc sha256 items input = plans
      induction plans with
      | nil => simp
      | cons p plans ih =>
        rw [List.filterMap_cons, List.filterMap_cons]
        cases hr : recordOf items p with
        | none =>
          simp only []
          split
          · exact ih
          · exact ih.cons _
        | some r =>
          rw [recordOf_id hr]
          exact ih.cons_cons _
    exact (changedIds_plan nfc sha256 items input).1.sublist hsub
  found r hr := by
    obtain ⟨p, -, hp⟩ := List.mem_filterMap.mp hr
    exact recordOf_item hp

theorem find?_setAll {id : CodeUnits} (hnodup : (recs.map (·.id)).Nodup) :
    (setAll items recs (·.after)).find? (fun it => it.id = id) =
      (items.find? fun it => it.id = id).map (·.setBy recs (·.after)) := by
  have hcomp : ((fun it : FeedItem => decide (it.id = id)) ∘
      fun it : FeedItem => it.setBy recs (·.after)) = fun it => decide (it.id = id) :=
    funext fun it => by rw [Function.comp_apply, setBy_id]
  rw [setAll_eq_map _ hnodup, List.find?_map, hcomp]

/-- The items replaced are as the batch left them. -/
theorem RecordsOf.asLeft (h : RecordsOf items recs) {r : ReplacedItem} (hr : r ∈ recs) :
    ∃ it, current (setAll (items ++ new) recs (·.after)) r = some it ∧ r.asLeft it = true := by
  obtain ⟨before, hfind, hun, -⟩ := h.found r hr
  have hid : before.id = r.id := by simpa using List.find?_some hfind
  have hr' : recs.find? (fun r => r.id = before.id) = some r :=
    find?_of_nodup_map h.nodup hr hid.symm
  refine ⟨before.setBy recs (·.after), ?_, ?_⟩
  · rw [current, find?_setAll h.nodup, List.find?_append, hfind]
    rfl
  · rw [ReplacedItem.asLeft, setBy_untouched, hun, setBy_some hr']
    simp [FeedItem.setValues]

/-- Restoring gives every item its values back. -/
theorem RecordsOf.restore (h : RecordsOf items recs) (hids : (items.map (·.id)).Nodup)
    (hnew : ∀ x ∈ new, ∀ it ∈ items, it.id ≠ x.id) :
    setAll (setAll (items ++ new) recs (·.after)) recs (·.before) = items ++ new := by
  rw [setAll_eq_map _ h.nodup, setAll_eq_map _ h.nodup, List.map_map]
  refine (List.map_congr_left fun it hit => ?_).trans (List.map_id _)
  refine setBy_setBy fun r hr hid => ?_
  obtain ⟨before, hfind, -, hbefore⟩ := h.found r hr
  have hmem := List.mem_of_find?_eq_some hfind
  have hbid : before.id = r.id := by simpa using List.find?_some hfind
  rcases List.mem_append.mp hit with hit | hit
  · rw [hbefore, List.inj_on_of_nodup_map hids hmem hit (hbid.trans hid)]
  · exact absurd (hbid.trans hid) (hnew it hit before hmem)

end Records

/-- Removing new items leaves those there were. -/
theorem removeItems_append {items new : List FeedItem} {ids : List CodeUnits}
    (hnew : ∀ x ∈ new, x.id ∈ ids)
    (hitems : ∀ it ∈ items, it.id ∉ ids ∧ ∀ id ∈ it.possibleDuplicateOf, id ∉ ids) :
    removeItems (items ++ new) ids = items := by
  have hfilter : ((items ++ new).filter fun it => !ids.contains it.id) = items := by
    rw [List.filter_append, List.filter_eq_self.mpr, List.filter_eq_nil_iff.mpr, List.append_nil]
    · intro x hx
      simp [hnew x hx]
    · intro it hit
      simp [(hitems it hit).1]
  rw [removeItems, hfilter]
  refine (List.map_congr_left fun it hit => if_neg ?_).trans (List.map_id _)
  cases hp : it.possibleDuplicateOf with
  | none => simp
  | some id => simpa using (hitems it hit).2 id hp

variable (nfc sha256 input) in
/-- Undone right after it, a commit leaves the items it found. -/
theorem undoItems_commitBatch (hids : (feed.items.map (·.id)).Nodup)
    (hfresh : env.Fresh feed.items) :
    ∃ b, (commitBatch nfc sha256 feed input env).1.batches = feed.batches ++ [b] ∧
      b.id = env.batchId ∧ b.undone = false ∧
      b.Left (commitBatch nfc sha256 feed input env).1.items ∧
      undoItems (commitBatch nfc sha256 feed input env).1.items b = feed.items ∧
      ((commitBatch nfc sha256 feed input env).1.items.map (·.id)).Nodup := by
  obtain ⟨new, recs, state, hinserted, hnodup, hrecs, -, hitems, hbatches⟩ :=
    commitBatch_items nfc sha256 input hfresh
  have hrecords : RecordsOf feed.items recs := hrecs ▸ recordsOf_plan nfc sha256 feed.items input
  have hapart : ∀ x ∈ new, ∀ it ∈ feed.items, it.id ≠ x.id := fun x hx it hit => by
    obtain ⟨i, hi⟩ := (hinserted x hx).id
    rw [hi]
    exact (hfresh.unused it hit i).1
  have hmine : ∀ it ∈ setAll (feed.items ++ new) recs (·.after),
      it.importBatchId = some env.batchId → ∃ x ∈ new, it.id = x.id ∧ it.untouched = true := by
    intro it hit hbatch
    rw [setAll_eq_map _ hrecords.nodup] at hit
    obtain ⟨x, hx, rfl⟩ := List.mem_map.mp hit
    rw [setBy_importBatchId] at hbatch
    rcases List.mem_append.mp hx with hx | hx
    · exact absurd hbatch (hfresh.batch x hx)
    · exact ⟨x, hx, setBy_id, setBy_untouched.trans (hinserted x hx).untouched⟩
  have hleft : (⟨env.batchId, recs, state, false⟩ : ImportBatch).Left
      (setAll (feed.items ++ new) recs (·.after)) := by
    refine ⟨fun it hit hb => ?_, fun r hr it hit => ?_⟩
    · obtain ⟨-, -, -, hun⟩ := hmine it hit hb
      exact hun
    · obtain ⟨it', hit', hok⟩ := hrecords.asLeft hr
      rw [hit', Option.some.injEq] at hit
      exact hit ▸ hok
  refine ⟨_, hbatches, rfl, rfl, hitems ▸ hleft, ?_, ?_⟩
  · rw [hitems, undoItems, restorable_eq fun r hr => hrecords.asLeft hr]
    simp only []
    rw [← setAll, hrecords.restore hids hapart]
    refine removeItems_append (fun x hx => ?_) fun it hit => ?_
    · refine List.mem_map.mpr ⟨x.setBy recs (·.after), ?_, setBy_id⟩
      rw [List.mem_filter, List.mem_filter, setAll_eq_map _ hrecords.nodup]
      exact ⟨⟨List.mem_map_of_mem (List.mem_append_right _ hx), by
        simpa using (hinserted x hx).importBatchId⟩, by
          simpa using (hinserted x hx).untouched⟩
    · have hids' : ∀ id ∈ (((setAll (feed.items ++ new) recs (·.after)).filter fun it =>
          it.importBatchId = some env.batchId).filter (·.untouched)).map (·.id),
            ∃ i, id = env.itemId i := by
        intro id hid
        obtain ⟨y, hy, rfl⟩ := List.mem_map.mp hid
        obtain ⟨hy, hb⟩ := List.mem_filter.mp (List.mem_filter.mp hy).1
        obtain ⟨x, hx, hxid, -⟩ := hmine y hy (by simpa using hb)
        obtain ⟨i, hi⟩ := (hinserted x hx).id
        exact ⟨i, hxid.trans hi⟩
      refine ⟨fun hid => ?_, fun id hp hid => ?_⟩
      · obtain ⟨i, hi⟩ := hids' _ hid
        exact (hfresh.unused it hit i).1 hi
      · obtain ⟨i, rfl⟩ := hids' _ hid
        exact (hfresh.unused it hit i).2 hp
  · rw [hitems, setAll_eq_map _ hrecords.nodup, List.map_map]
    have hsame : (feed.items ++ new).map ((·.id) ∘ fun it : FeedItem => it.setBy recs (·.after)) =
        (feed.items ++ new).map (·.id) := List.map_congr_left fun it _ => setBy_id
    rw [hsame, List.map_append]
    refine List.nodup_append.mpr ⟨hids, hnodup, fun a ha b hb => ?_⟩
    obtain ⟨it, hit, rfl⟩ := List.mem_map.mp ha
    obtain ⟨x, hx, rfl⟩ := List.mem_map.mp hb
    exact hapart x hx it hit

end Undone

end MyBooks.ImportRows
