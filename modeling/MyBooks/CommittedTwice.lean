import MyBooks.BatchesUndone
import MyBooks.VerdictsAgain

/-!
# A batch committed twice

Committed again with nothing in between, a batch inserts nothing and changes nothing
(`commitBatch_again_items`). The rows that the first commit inserted are duplicates then, except
those that are missed: a row whose key an older item has that another row holds by its bank id
(`commitBatch_twice`).
-/

namespace MyBooks.ImportRows

open ImportKeys

/-! ## The rows inserted -/

section Inserted

variable {env : CommitEnv} {c : CodeUnits} {plans : List RowPlan}

/-- Of the new items those are inserted that conflict with no item. -/
theorem foldl_insertOne_kept (xs : List (FeedItem × ℕ)) (acc : List FeedItem × List ℕ) :
    ∃ kept : List (FeedItem × ℕ), kept.Sublist xs ∧
      xs.foldl insertOne acc = (acc.1 ++ kept.map Prod.fst, acc.2 ++ kept.map Prod.snd) ∧
      (∀ x ∈ xs, x ∈ kept ∨ ∃ y ∈ acc.1 ++ kept.map Prod.fst, conflicts x.1 y = true) ∧
      ∀ x ∈ kept, ∀ y ∈ acc.1, conflicts x.1 y = false := by
  induction xs generalizing acc with
  | nil => exact ⟨[], List.Sublist.refl _, by simp, by simp, by simp⟩
  | cons x xs ih =>
    rw [List.foldl_cons, insertOne]
    split_ifs with hx
    · obtain ⟨kept, hsub, hfold, hall, hfree⟩ := ih acc
      refine ⟨kept, hsub.cons _, hfold, fun y hy => ?_, hfree⟩
      rcases List.mem_cons.mp hy with rfl | hy
      · obtain ⟨z, hz, hconf⟩ := List.any_eq_true.mp hx
        exact .inr ⟨z, List.mem_append_left _ hz, hconf⟩
      · exact hall y hy
    · obtain ⟨kept, hsub, hfold, hall, hfree⟩ := ih (acc.1 ++ [x.1], acc.2 ++ [x.2])
      refine ⟨x :: kept, hsub.cons_cons _, by simpa using hfold, fun y hy => ?_,
        fun y hy z hz => ?_⟩
      · rcases List.mem_cons.mp hy with rfl | hy
        · exact .inl List.mem_cons_self
        · exact (hall y hy).imp (List.mem_cons_of_mem _) (by simp)
      · rcases List.mem_cons.mp hy with rfl | hy
        · simpa using List.any_eq_false.mp (by simpa using hx) z hz
        · exact hfree y hy z (List.mem_append_left _ hz)

theorem foldl_insertOne_none {xs : List (FeedItem × ℕ)} {acc : List FeedItem × List ℕ}
    (h : ∀ x ∈ xs, ∃ y ∈ acc.1, conflicts x.1 y = true) : xs.foldl insertOne acc = acc := by
  induction xs with
  | nil => rfl
  | cons x xs ih =>
    rw [List.foldl_cons, insertOne, if_pos (List.any_eq_true.mpr (h x List.mem_cons_self))]
    exact ih fun y hy => h y (List.mem_cons_of_mem _ hy)

theorem mem_toInsert {x : FeedItem} {i : ℕ} : (x, i) ∈ toInsert env c plans ↔
    ∃ p, plans[i]? = some p ∧ wouldInsert p.row p.classified = true ∧ x = newItem env c p i := by
  rw [toInsert, List.mem_filterMap]
  constructor
  · rintro ⟨⟨p, j⟩, hp, hx⟩
    split_ifs at hx with hw
    obtain ⟨rfl, rfl⟩ := Prod.mk.inj (Option.some.inj hx)
    exact ⟨p, List.mem_zipIdx_iff_getElem?.mp hp, hw, rfl⟩
  · rintro ⟨p, hp, hw, rfl⟩
    exact ⟨(p, i), List.mem_zipIdx_iff_getElem?.mpr hp, by rw [if_pos hw]⟩

theorem conflicts_self {p : RowPlan} {i : ℕ} :
    conflicts (newItem env c p i) (newItem env c p i) = true := by
  simp [conflicts, newItem]

end Inserted

/-! ## The first commit -/

/-- The items as classification reads them. -/
def Feed.existing (feed : Feed) : List ExistingItem := feed.items.map (·.toExistingItem)

/-- An item after the replacements. -/
def ExistingItem.setBy (recs : List ReplacedItem) (e : ExistingItem) : ExistingItem :=
  match recs.find? fun r => r.id = e.id with
  | some r => { e with
      amount := r.after.amount
      date := r.after.feedDate
      rowKey := r.after.rowKey }
  | none => e

section First

variable {nfc sha256 : CodeUnits → CodeUnits} {feed : Feed} {input : BatchInput} {env : CommitEnv}
  {recs : List ReplacedItem} {p : RowPlan} {s : RowState} {e : ExistingItem}

theorem toExistingItem_setBy (it : FeedItem) :
    (it.setBy recs (·.after)).toExistingItem = it.toExistingItem.setBy recs := by
  unfold FeedItem.setBy ExistingItem.setBy
  cases recs.find? fun r => r.id = it.id with
  | none => rfl
  | some r => rfl

theorem recordOf_eq {items : List FeedItem} {r : ReplacedItem} (h : recordOf items p = some r) :
    ∃ e, p.classified.existing = some e ∧ p.classified.status = .changed ∧
      p.row.changedAction = some .replace ∧ r.id = e.id ∧
      r.after = ⟨p.keyed.canonicalAmount, p.row.date, some p.keyed.rowKey⟩ := by
  unfold recordOf at h
  split at h
  · cases h
  · rename_i e he
    split_ifs at h with hcond
    split at h
    · cases h
    · split_ifs at h
      obtain rfl := Option.some.inj h
      have hcond := Bool.and_eq_true_iff.mp hcond
      exact ⟨e, he, by simpa using hcond.1, by simpa using hcond.2, rfl, rfl⟩

theorem recordOf_some {items : List FeedItem} {before : FeedItem}
    (he : p.classified.existing = some e) (hstatus : p.classified.status = .changed)
    (haction : p.row.changedAction = some .replace)
    (hfind : items.find? (fun it => it.id = e.id) = some before) (hun : before.untouched = true) :
    ∃ r, recordOf items p = some r ∧ r.id = e.id := by
  unfold recordOf
  simp only [he, hstatus, haction, hfind, hun]
  exact ⟨_, rfl, rfl⟩

/-- A planned row that would be inserted has no item, or is a changed one. -/
theorem RowPlan.Follows.inserted {items : List ExistingItem}
    (h : p.Follows nfc sha256 items input s) (hw : wouldInsert p.row p.classified = true) :
    verdict nfc (fitidsOf input.rows) items (input.states nfc sha256) s = .undecided ∧
        s.row.included = true ∧
        p.classified.fitidUsed = (byBank (fitidsOf input.rows) items s).trustedId ∧
        p.classified.dedupeKey = s.newKey sha256 (byBank (fitidsOf input.rows) items s) ∨
      (∃ e, verdict nfc (fitidsOf input.rows) items (input.states nfc sha256) s = .changed e) ∧
        s.row.changedAction = some .add ∧ p.classified.fitidUsed = none ∧
        p.classified.dedupeKey = s.keyed.rowKey := by
  have hagrees := h.agrees
  rw [← h.row]
  cases hv : verdict nfc (fitidsOf input.rows) items (input.states nfc sha256) s with
  | duplicate =>
    rw [hv] at hagrees
    have hstatus : p.classified.status = .duplicate := hagrees
    simp [wouldInsert, hstatus] at hw
  | changed e =>
    rw [hv] at hagrees
    have hc : p.classified = ⟨.changed, none, some e, none, s.keyed.rowKey⟩ := hagrees
    rw [hc] at hw ⊢
    exact .inr ⟨⟨e, rfl⟩, by simpa [wouldInsert] using hw, rfl, rfl⟩
  | undecided =>
    rw [hv] at hagrees
    obtain ⟨hstatus, hfitid, hkey⟩ := hagrees
    refine .inl ⟨rfl, ?_, hfitid, hkey⟩
    rcases hstatus with hstatus | hstatus <;> simpa [wouldInsert, hstatus] using hw

theorem RowPlan.Follows.changed {items : List ExistingItem}
    (h : p.Follows nfc sha256 items input s) (hstatus : p.classified.status = .changed) :
    ∃ e, p.classified.existing = some e ∧
      verdict nfc (fitidsOf input.rows) items (input.states nfc sha256) s = .changed e := by
  have hagrees := h.agrees
  cases hv : verdict nfc (fitidsOf input.rows) items (input.states nfc sha256) s with
  | duplicate =>
    rw [hv] at hagrees
    have hdup : p.classified.status = .duplicate := hagrees
    rw [hstatus] at hdup
    cases hdup
  | changed e =>
    rw [hv] at hagrees
    have hc : p.classified = ⟨.changed, none, some e, none, s.keyed.rowKey⟩ := hagrees
    exact ⟨e, by rw [hc], rfl⟩
  | undecided =>
    rw [hv] at hagrees
    rcases hagrees.1 with hnew | hnew <;> rw [hstatus] at hnew <;> cases hnew

theorem cleanFitid_ne_empty (f : Option CodeUnits) : cleanFitid f ≠ some [] := by
  intro h
  exact absurd (Option.filter_eq_some_iff.mp h).2 (by simp)

/-- What a commit does, row by row: `kept` are the new items with the places of their rows. -/
structure FirstCommit (nfc sha256 : CodeUnits → CodeUnits) (feed : Feed) (input : BatchInput)
    (env : CommitEnv) (kept : List (FeedItem × ℕ)) (recs : List ReplacedItem) : Prop where
  records : recs = (plan nfc sha256 feed.items input).filterMap (recordOf feed.items)
  insert : (toInsert env (feed.manual.getD env.connectionId) (plan nfc sha256 feed.items
    input)).foldl insertOne (feed.items, []) = (feed.items ++ kept.map Prod.fst, kept.map Prod.snd)
  sub : kept.Sublist
    (toInsert env (feed.manual.getD env.connectionId) (plan nfc sha256 feed.items input))
  all : ∀ x ∈ toInsert env (feed.manual.getD env.connectionId) (plan nfc sha256 feed.items input),
    x ∈ kept ∨ ∃ y ∈ feed.items ++ kept.map Prod.fst, conflicts x.1 y = true
  free : ∀ x ∈ kept, ∀ y ∈ feed.items, conflicts x.1 y = false
  items : (commitBatch nfc sha256 feed input env).1.items =
    (feed.items ++ kept.map Prod.fst).map (·.setBy recs (·.after))
  nodup : ((commitBatch nfc sha256 feed input env).1.items.map (·.id)).Nodup
  apart : ∀ x ∈ kept, ∀ r ∈ recs, r.id ≠ x.1.id

theorem firstCommit (nfc sha256 : CodeUnits → CodeUnits) (input : BatchInput)
    (hids : (feed.items.map (·.id)).Nodup) (hfresh : env.Fresh feed.items) :
    ∃ kept recs, FirstCommit nfc sha256 feed input env kept recs := by
  set c := feed.manual.getD env.connectionId with hc
  obtain ⟨kept, hsub, hfold, hall, hfree⟩ :=
    foldl_insertOne_kept (toInsert env c (plan nfc sha256 feed.items input)) (feed.items, [])
  obtain ⟨new, recs, -, -, -, hrecs, hnew, hitems, -⟩ := commitBatch_items nfc sha256 input hfresh
  obtain ⟨-, -, -, -, -, -, hnodup⟩ := undoItems_commitBatch nfc sha256 input hids hfresh
  have hrecords : RecordsOf feed.items recs := hrecs ▸ recordsOf_plan nfc sha256 feed.items input
  rw [← hc, hfold] at hnew
  rw [List.append_cancel_left hnew, setAll_eq_map _ hrecords.nodup] at hitems
  refine ⟨kept, recs, hrecs, by simpa using hfold, hsub, hall, hfree, hitems, hnodup, ?_⟩
  intro x hx r hr heq
  obtain ⟨before, hfind, -⟩ := hrecords.found r hr
  have hid : before.id = r.id := by simpa using List.find?_some hfind
  exact (hfresh.unused before (List.mem_of_find?_eq_some hfind) x.2).1
    (hid.trans (heq.trans (inserted_toInsert x (hsub.subset hx)).2))

variable {kept : List (FeedItem × ℕ)}

/-- The new items, as classification reads them. -/
def keptItems (kept : List (FeedItem × ℕ)) : List ExistingItem :=
  kept.map fun x => x.1.toExistingItem

theorem FirstCommit.existing (h : FirstCommit nfc sha256 feed input env kept recs) :
    (commitBatch nfc sha256 feed input env).1.existing =
      feed.existing.map (·.setBy recs) ++ keptItems kept := by
  have hnew : kept.map (fun x => (x.1.setBy recs (·.after)).toExistingItem) = keptItems kept := by
    refine List.map_congr_left fun x hx => ?_
    rw [setBy_none (List.find?_eq_none.mpr fun r hr => ?_)]
    simpa using h.apart x hx r hr
  rw [Feed.existing, h.items, List.map_map, List.map_append, Feed.existing, List.map_map,
    List.map_map, ← hnew]
  refine congrArg₂ _ (List.map_congr_left fun it _ => ?_) rfl
  exact toExistingItem_setBy it

theorem FirstCommit.mem_kept (h : FirstCommit nfc sha256 feed input env kept recs) {x : FeedItem}
    {i : ℕ} (hx : (x, i) ∈ kept) :
    ∃ p, (plan nfc sha256 feed.items input)[i]? = some p ∧
      wouldInsert p.row p.classified = true ∧
      x = newItem env (feed.manual.getD env.connectionId) p i :=
  mem_toInsert.mp (h.sub.subset hx)

theorem map_eq_of_forall₂ {α β γ : Type} {R : α → β → Prop} {f : α → γ} {g : β → γ} {as : List α}
    {bs : List β} (h : List.Forall₂ R as bs) (hR : ∀ a b, R a b → f a = g b) :
    as.map f = bs.map g := by
  induction h with
  | nil => rfl
  | cons hab _ ih => rw [List.map_cons, List.map_cons, hR _ _ hab, ih]

theorem exists_of_mem_left {α β : Type} {R : α → β → Prop} {as : List α} {bs : List β} {a : α}
    (h : List.Forall₂ R as bs) (ha : a ∈ as) : ∃ b ∈ bs, R a b := by
  induction h with
  | nil => exact absurd ha List.not_mem_nil
  | @cons a' b' as bs hab _ ih =>
    rcases List.mem_cons.mp ha with rfl | ha
    · exact ⟨b', List.mem_cons_self, hab⟩
    · obtain ⟨b, hb, hab⟩ := ih ha
      exact ⟨b, List.mem_cons_of_mem _ hb, hab⟩

variable (nfc input) in
/-- The planned rows have keys of their own. -/
theorem nodup_plan (hsha : Function.Injective sha256) (hids : (feed.items.map (·.id)).Nodup)
    (hkeyed : ∀ it ∈ feed.items, it.toExistingItem.Keyed sha256) :
    ((plan nfc sha256 feed.items input).map (·.keyed.rowKey)).Nodup := by
  have hfollows := plan_follows nfc input hsha feed.items hids hkeyed
  rw [map_eq_of_forall₂ hfollows fun p s h => congrArg KeyedRow.rowKey h.keyed]
  exact states_nodup hsha

theorem follows_of_mem (hsha : Function.Injective sha256) (hids : (feed.items.map (·.id)).Nodup)
    (hkeyed : ∀ it ∈ feed.items, it.toExistingItem.Keyed sha256)
    (hp : p ∈ plan nfc sha256 feed.items input) :
    ∃ s ∈ input.states nfc sha256, p.Follows nfc sha256 feed.existing input s :=
  exists_of_mem_left (plan_follows nfc input hsha feed.items hids hkeyed) hp

/-- A kept item is the new one of its row. -/
theorem FirstCommit.newOf (h : FirstCommit nfc sha256 feed input env kept recs)
    (hsha : Function.Injective sha256) (hids : (feed.items.map (·.id)).Nodup)
    (hkeyed : ∀ it ∈ feed.items, it.toExistingItem.Keyed sha256) {x : FeedItem} {i : ℕ}
    (hx : (x, i) ∈ kept) : ∃ s ∈ input.states nfc sha256,
      x.toExistingItem.NewOf nfc (fitidsOf input.rows) feed.existing (input.states nfc sha256) s ∧
      ((∃ e, verdict nfc (fitidsOf input.rows) feed.existing (input.states nfc sha256) s =
        .changed e) → s.row.changedAction = some .add) := by
  obtain ⟨p, hp, hw, rfl⟩ := h.mem_kept hx
  obtain ⟨s, hs, hfollows⟩ := follows_of_mem hsha hids hkeyed (List.mem_of_getElem? hp)
  have hrow : (newItem env (feed.manual.getD env.connectionId) p i).toExistingItem.rowKey =
      some s.keyed.rowKey := congrArg (fun k : KeyedRow => some k.rowKey) hfollows.keyed
  have hamount : (newItem env (feed.manual.getD env.connectionId) p i).toExistingItem.amount =
      s.keyed.canonicalAmount := congrArg KeyedRow.canonicalAmount hfollows.keyed
  have hdate : (newItem env (feed.manual.getD env.connectionId) p i).toExistingItem.date =
      s.row.date := congrArg BatchRowInput.date hfollows.row
  rcases hfollows.inserted hw with ⟨hv, -, hfitid, -⟩ | ⟨⟨e, hv⟩, hadd, hfitid, -⟩
  · refine ⟨s, hs, ⟨hrow, hamount, hdate, .inl ⟨hv, hfitid⟩⟩, ?_⟩
    rintro ⟨e, he⟩
    rw [hv] at he
    cases he
  · exact ⟨s, hs, ⟨hrow, hamount, hdate, .inr ⟨hfitid, e, hv⟩⟩, fun _ => hadd⟩

/-- The values that a record gives an item are those of a row that has changed it. -/
theorem FirstCommit.replaced (h : FirstCommit nfc sha256 feed input env kept recs)
    (hsha : Function.Injective sha256) (hids : (feed.items.map (·.id)).Nodup)
    (hkeyed : ∀ it ∈ feed.items, it.toExistingItem.Keyed sha256) (he : e ∈ feed.existing)
    {r : ReplacedItem} (hr : recs.find? (fun r => r.id = e.id) = some r) :
    ∃ s ∈ input.states nfc sha256,
      verdict nfc (fitidsOf input.rows) feed.existing (input.states nfc sha256) s = .changed e ∧
        s.row.changedAction = some .replace ∧ e.setBy recs = e.putValues s := by
  have hmem := List.mem_of_find?_eq_some hr
  rw [h.records] at hmem
  obtain ⟨p, hp, hrec⟩ := List.mem_filterMap.mp hmem
  obtain ⟨e', he', hstatus, haction, hid', hafter⟩ := recordOf_eq hrec
  obtain ⟨s, hs, hfollows⟩ := follows_of_mem hsha hids hkeyed hp
  obtain ⟨e'', he'', hv⟩ := hfollows.changed hstatus
  rw [he', Option.some.injEq] at he''
  subst he''
  have hid : r.id = e.id := by simpa using List.find?_some hr
  obtain ⟨f, -, -, hold, -⟩ := byBank_other (verdict_changed_iff.mp hv).2.1
  have hids' : (feed.existing.map (·.id)).Nodup := by
    rw [Feed.existing, List.map_map]
    exact hids
  have heq : e' = e := List.inj_on_of_nodup_map hids' (oldest_some hold).1 he (hid'.symm.trans hid)
  subst heq
  refine ⟨s, hs, hv, hfollows.row ▸ haction, ?_⟩
  unfold ExistingItem.setBy
  rw [hr]
  simp only [hafter, ExistingItem.putValues, hfollows.keyed, hfollows.row]

theorem FirstCommit.committed (h : FirstCommit nfc sha256 feed input env kept recs)
    (hsha : Function.Injective sha256) (hids : (feed.items.map (·.id)).Nodup)
    (hkeyed : ∀ it ∈ feed.items, it.toExistingItem.Keyed sha256) :
    Committed nfc (fitidsOf input.rows) (input.states nfc sha256) feed.existing
      (commitBatch nfc sha256 feed input env).1.existing (·.setBy recs) (keptItems kept) where
  keys := states_nodup hsha
  given s hs hf := by
    have hmem := List.mem_map_of_mem (f := (·.fitid)) hs
    rw [states_fitid, hf] at hmem
    obtain ⟨r, -, hr⟩ := List.mem_map.mp hmem
    exact cleanFitid_ne_empty _ hr
  bankIds := states_pairwise
  split := h.existing
  ids := by
    rw [Feed.existing, List.map_map]
    exact h.nodup
  same e := by
    unfold ExistingItem.setBy
    split <;> exact ⟨rfl, rfl, rfl⟩
  changed e he := by
    cases hr : recs.find? fun r => r.id = e.id with
    | none =>
      refine .inl ?_
      unfold ExistingItem.setBy
      rw [hr]
    | some r =>
      obtain ⟨s, hs, hv, -, hset⟩ := h.replaced hsha hids hkeyed he hr
      exact .inr ⟨s, hs, hv, hset⟩
  added x hx := by
    obtain ⟨⟨y, i⟩, hy, rfl⟩ := List.mem_map.mp hx
    obtain ⟨s, hs, hnew, -⟩ := h.newOf hsha hids hkeyed hy
    exact ⟨s, hs, hnew⟩
  newKeys := by
    have hplaces : (keptItems kept).map (·.rowKey) = kept.map fun x => x.1.rowKey := by
      rw [keptItems, List.map_map]
      rfl
    rw [hplaces]
    refine List.Nodup.sublist (h.sub.map _) ?_
    have hplans : (plan nfc sha256 feed.items input).zipIdx.Pairwise
        fun p q => p.1.keyed.rowKey ≠ q.1.keyed.rowKey := List.pairwise_map.mp (by
      have hfst : (plan nfc sha256 feed.items input).zipIdx.map (fun p => p.1.keyed.rowKey) =
          ((plan nfc sha256 feed.items input).zipIdx.map Prod.fst).map (·.keyed.rowKey) := by
        rw [List.map_map]
        rfl
      rw [hfst, List.zipIdx_map_fst]
      exact nodup_plan nfc input hsha hids hkeyed)
    refine List.pairwise_map.mpr (hplans.filterMap _ fun p q hpq x hx y hy heq => hpq ?_)
    split_ifs at hx hy
    obtain rfl := Option.some.inj hx
    obtain rfl := Option.some.inj hy
    exact Option.some.inj heq
  apart s hs e hv hne := by
    cases hx : newItemOf (keptItems kept) s with
    | none => rfl
    | some x =>
      have hkey : x.rowKey = some s.keyed.rowKey := by simpa using List.find?_some hx
      obtain ⟨⟨y, i⟩, hy, rfl⟩ := List.mem_map.mp (List.mem_of_find?_eq_some hx)
      obtain ⟨t, ht, hnew, hadd⟩ := h.newOf hsha hids hkeyed hy
      obtain rfl : s = t := List.inj_on_of_nodup_map (states_nodup hsha) hs ht
        (Option.some.inj (hkey.symm.trans hnew.rowKey))
      cases hr : recs.find? fun r => r.id = e.id with
      | none =>
        refine absurd ?_ hne
        unfold ExistingItem.setBy
        rw [hr]
      | some r =>
        obtain ⟨f, -, -, hold, -⟩ := byBank_other (verdict_changed_iff.mp hv).2.1
        obtain ⟨t, ht, hv', hreplace, -⟩ := h.replaced hsha hids hkeyed (oldest_some hold).1 hr
        obtain rfl := eq_of_changed states_pairwise hs ht hv hv'
        rw [hadd ⟨e, hv⟩] at hreplace
        cases hreplace

theorem FirstCommit.keyed (h : FirstCommit nfc sha256 feed input env kept recs)
    (hsha : Function.Injective sha256) (hids : (feed.items.map (·.id)).Nodup)
    (hkeyed : ∀ it ∈ feed.items, it.toExistingItem.Keyed sha256) :
    ∀ it ∈ (commitBatch nfc sha256 feed input env).1.items, it.toExistingItem.Keyed sha256 := by
  intro it hit
  rw [h.items] at hit
  obtain ⟨y, hy, rfl⟩ := List.mem_map.mp hit
  rw [toExistingItem_setBy]
  rcases List.mem_append.mp hy with hy | hy
  · have hmem : y.toExistingItem ∈ feed.existing := List.mem_map_of_mem hy
    cases hr : recs.find? fun r => r.id = y.toExistingItem.id with
    | none =>
      unfold ExistingItem.setBy
      rw [hr]
      exact hkeyed y hy
    | some r =>
      obtain ⟨s, -, hv, -, hset⟩ := h.replaced hsha hids hkeyed hmem hr
      obtain ⟨f, -, -, hold, -⟩ := byBank_other (verdict_changed_iff.mp hv).2.1
      have hfe : y.toExistingItem.fitid = some f := by simpa using (oldest_some hold).2
      rw [hset]
      rcases hkeyed y hy with hnone | ⟨hnone, -⟩ | hf
      · exact .inl hnone
      · rw [hfe] at hnone
        cases hnone
      · exact .inr (.inr hf)
  · obtain ⟨⟨y, i⟩, hx, rfl⟩ := List.mem_map.mp hy
    have hset : y.toExistingItem.setBy recs = y.toExistingItem := by
      unfold ExistingItem.setBy
      rw [List.find?_eq_none.mpr fun r hr => by simpa using h.apart _ hx r hr]
    obtain ⟨p, hp, hw, rfl⟩ := h.mem_kept hx
    obtain ⟨s, -, hfollows⟩ := follows_of_mem hsha hids hkeyed (List.mem_of_getElem? hp)
    rw [hset]
    have hkey : (newItem env (feed.manual.getD env.connectionId) p i).toExistingItem.dedupeKey =
        some p.classified.dedupeKey := rfl
    have hrow : (newItem env (feed.manual.getD env.connectionId) p i).toExistingItem.rowKey =
        some p.keyed.rowKey := rfl
    have hfitid : (newItem env (feed.manual.getD env.connectionId) p i).toExistingItem.fitid =
        p.classified.fitidUsed := rfl
    rw [ExistingItem.Keyed, hkey, hrow, hfitid, hfollows.keyed]
    rcases hfollows.inserted hw with ⟨-, -, hused, hdedupe⟩ | ⟨-, -, hused, hdedupe⟩
    · rw [hused, hdedupe, RowState.newKey]
      cases (byBank (fitidsOf input.rows) feed.existing s).trustedId with
      | none => exact .inr (.inl ⟨rfl, rfl⟩)
      | some f => exact .inr (.inr ⟨f, rfl⟩)
    · rw [hused, hdedupe]
      exact .inr (.inl ⟨rfl, rfl⟩)

end First

/-! ## The second commit -/

section Second

variable {nfc sha256 : CodeUnits → CodeUnits} {feed : Feed} {input : BatchInput}
  {env env' : CommitEnv} {recs : List ReplacedItem} {kept : List (FeedItem × ℕ)} {p p' : RowPlan}
  {s : RowState} {i : ℕ}

theorem getElem?_of_forall₂ {α β : Type} {R : α → β → Prop} : ∀ {as : List α} {bs : List β},
    List.Forall₂ R as bs → ∀ {i : ℕ} {a : α}, as[i]? = some a → ∃ b, bs[i]? = some b ∧ R a b
  | _, _, .nil, i, a, h => by simp at h
  | _, _, .cons hab hrest, 0, a, h => by
    obtain rfl := Option.some.inj h
    exact ⟨_, rfl, hab⟩
  | _, _, .cons _ hrest, i + 1, a, h => getElem?_of_forall₂ hrest h

/-- Row by row, how the second commit classifies what the first has. -/
theorem follows_twice (h : FirstCommit nfc sha256 feed input env kept recs)
    (hsha : Function.Injective sha256) (hids : (feed.items.map (·.id)).Nodup)
    (hkeyed : ∀ it ∈ feed.items, it.toExistingItem.Keyed sha256)
    (hp : (plan nfc sha256 (commitBatch nfc sha256 feed input env).1.items input)[i]? = some p') :
    ∃ p s, (plan nfc sha256 feed.items input)[i]? = some p ∧
      (input.states nfc sha256)[i]? = some s ∧
      p.Follows nfc sha256 feed.existing input s ∧
      p'.Follows nfc sha256 (commitBatch nfc sha256 feed input env).1.existing input s := by
  obtain ⟨s, hs, hfollows'⟩ := getElem?_of_forall₂
    (plan_follows nfc input hsha _ h.nodup (h.keyed hsha hids hkeyed)) hp
  obtain ⟨p, hp, hfollows⟩ := getElem?_of_forall₂
    (plan_follows nfc input hsha feed.items hids hkeyed).flip hs
  exact ⟨p, s, hp, hs, hfollows, hfollows'⟩

/-- What would be inserted again would have been inserted, under the same key. -/
theorem wouldInsert_of_again (h : FirstCommit nfc sha256 feed input env kept recs)
    (hsha : Function.Injective sha256) (hids : (feed.items.map (·.id)).Nodup)
    (hkeyed : ∀ it ∈ feed.items, it.toExistingItem.Keyed sha256)
    (hs : s ∈ input.states nfc sha256) (hp : p.Follows nfc sha256 feed.existing input s)
    (hp' : p'.Follows nfc sha256 (commitBatch nfc sha256 feed input env).1.existing input s)
    (hw : wouldInsert p'.row p'.classified = true) :
    wouldInsert p.row p.classified = true ∧
      p'.classified.fitidUsed = p.classified.fitidUsed ∧
      p'.classified.dedupeKey = p.classified.dedupeKey := by
  have hcommitted := h.committed hsha hids hkeyed
  have hagrees := hp.agrees
  rcases hp'.inserted hw with ⟨hv', hincluded, hfitid, hkey⟩ | ⟨⟨e, hv'⟩, hadd, hfitid, hkey⟩
  · have hv : verdict nfc (fitidsOf input.rows) feed.existing (input.states nfc sha256) s =
        .undecided := by
      cases hv : verdict nfc (fitidsOf input.rows) feed.existing (input.states nfc sha256) s with
      | duplicate =>
        rw [hcommitted.verdict_duplicate_again hs hv] at hv'
        cases hv'
      | changed e =>
        rcases hcommitted.verdict_changed_again hs hv with hv₁ | hv₁ <;> rw [hv₁] at hv' <;>
          cases hv'
      | undecided => rfl
    have hheld : heldId (fitidsOf input.rows) (commitBatch nfc sha256 feed input env).1.existing
        s = none := by
      by_contra hne
      rw [verdict_duplicate_iff.mpr (.inl (Option.isSome_iff_ne_none.mpr hne))] at hv'
      cases hv'
    obtain ⟨-, htrusted, -⟩ := hcommitted.open_again hs hheld
    rw [hv] at hagrees
    obtain ⟨hstatus, hfitid₀, hkey₀⟩ := hagrees
    refine ⟨?_, by rw [hfitid, hfitid₀, htrusted], ?_⟩
    · rw [hp.row]
      rcases hstatus with hstatus | hstatus <;> simpa [wouldInsert, hstatus] using hincluded
    · rw [hkey, hkey₀, RowState.newKey, RowState.newKey, htrusted]
  · obtain ⟨hv, -⟩ := hcommitted.verdict_changed_of_again hs hv'
    rw [hv] at hagrees
    have hc : p.classified = ⟨.changed, none, some e, none, s.keyed.rowKey⟩ := hagrees
    rw [hc, hp.row, hfitid, hkey]
    exact ⟨by simpa [wouldInsert] using hadd, rfl, rfl⟩

variable (env') in
/-- Nothing is inserted again. -/
theorem insert_again (h : FirstCommit nfc sha256 feed input env kept recs)
    (hsha : Function.Injective sha256) (hids : (feed.items.map (·.id)).Nodup)
    (hkeyed : ∀ it ∈ feed.items, it.toExistingItem.Keyed sha256) :
    (toInsert env' (feed.manual.getD env.connectionId)
      (plan nfc sha256 (commitBatch nfc sha256 feed input env).1.items input)).foldl insertOne
        ((commitBatch nfc sha256 feed input env).1.items, []) =
      ((commitBatch nfc sha256 feed input env).1.items, []) := by
  refine foldl_insertOne_none fun x hx => ?_
  obtain ⟨x, i⟩ := x
  obtain ⟨p', hp', hw', rfl⟩ := mem_toInsert.mp hx
  obtain ⟨p, s, hp, hs, hfollows, hfollows'⟩ := follows_twice h hsha hids hkeyed hp'
  obtain ⟨hw, hfitid, hkey⟩ := wouldInsert_of_again h hsha hids hkeyed (List.mem_of_getElem? hs)
    hfollows hfollows' hw'
  have hmem : (newItem env (feed.manual.getD env.connectionId) p i, i) ∈ toInsert env
      (feed.manual.getD env.connectionId) (plan nfc sha256 feed.items input) :=
    mem_toInsert.mpr ⟨p, hp, hw, rfl⟩
  obtain ⟨y, hy, hconf⟩ : ∃ y ∈ feed.items ++ kept.map Prod.fst,
      conflicts (newItem env (feed.manual.getD env.connectionId) p i) y = true := by
    rcases h.all _ hmem with hkept | hconf
    · exact ⟨_, List.mem_append_right _ (List.mem_map_of_mem hkept), conflicts_self⟩
    · exact hconf
  refine ⟨y.setBy recs (·.after), h.items ▸ List.mem_map_of_mem hy, ?_⟩
  have hsame : (y.setBy recs (·.after)).connectionId = y.connectionId ∧
      (y.setBy recs (·.after)).dedupeKey = y.dedupeKey ∧
      (y.setBy recs (·.after)).fitid = y.fitid := by
    unfold FeedItem.setBy
    split <;> exact ⟨rfl, rfl, rfl⟩
  rw [← hconf]
  simp only [conflicts, newItem, hsame, hfitid, hkey]
  rfl

/-- Nothing is replaced again. -/
theorem records_again (h : FirstCommit nfc sha256 feed input env kept recs)
    (hsha : Function.Injective sha256) (hids : (feed.items.map (·.id)).Nodup)
    (hkeyed : ∀ it ∈ feed.items, it.toExistingItem.Keyed sha256) :
    (plan nfc sha256 (commitBatch nfc sha256 feed input env).1.items input).filterMap
      (recordOf (commitBatch nfc sha256 feed input env).1.items) = [] := by
  have hcommitted := h.committed hsha hids hkeyed
  refine List.filterMap_eq_nil_iff.mpr fun p' hp' => ?_
  by_contra hne
  obtain ⟨r, hr⟩ := Option.ne_none_iff_exists'.mp hne
  obtain ⟨i, hi⟩ := List.mem_iff_getElem?.mp hp'
  obtain ⟨p, s, hp, hs, hfollows, hfollows'⟩ := follows_twice h hsha hids hkeyed hi
  have hs := List.mem_of_getElem? hs
  obtain ⟨e, he, hstatus, haction, hid, -⟩ := recordOf_eq hr
  obtain ⟨e', he', hv'⟩ := hfollows'.changed hstatus
  obtain rfl := Option.some.inj (he.symm.trans he')
  obtain ⟨hv, haft, hmem⟩ := hcommitted.verdict_changed_of_again hs hv'
  -- The first commit found the item untouched as well, so it replaced it.
  obtain ⟨before', hfind', hun', -⟩ := recordOf_item hr
  obtain ⟨it, hit, rfl⟩ := List.mem_map.mp hmem
  have hbefore : before' = it.setBy recs (·.after) := by
    refine List.inj_on_of_nodup_map h.nodup (List.mem_of_find?_eq_some hfind') ?_ ?_
    · rw [h.items]
      exact List.mem_map_of_mem (List.mem_append_left _ hit)
    · rw [setBy_id]
      exact (by simpa using List.find?_some hfind' : before'.id = r.id).trans hid
  rw [hbefore, setBy_untouched] at hun'
  have hfind : feed.items.find? (fun x => x.id = it.toExistingItem.id) = some it :=
    find?_of_nodup_map hids hit rfl
  have hagrees := hfollows.agrees
  rw [hv] at hagrees
  have hc : p.classified = ⟨.changed, none, some it.toExistingItem, none, s.keyed.rowKey⟩ := hagrees
  obtain ⟨r₀, hr₀, hid₀⟩ := recordOf_some (p := p) (e := it.toExistingItem) (by rw [hc])
    (by rw [hc]) (by rw [hfollows.row, ← hfollows'.row]; exact haction) hfind hun'
  have hmem₀ : r₀ ∈ recs :=
    h.records ▸ List.mem_filterMap.mpr ⟨p, List.mem_of_getElem? hp, hr₀⟩
  cases hx : recs.find? fun r => r.id = it.toExistingItem.id with
  | none => exact absurd hid₀ (by simpa using List.find?_eq_none.mp hx r₀ hmem₀)
  | some x =>
    obtain ⟨t, -, hvt, -, hset⟩ := h.replaced hsha hids hkeyed hmem hx
    obtain ⟨f, -, -, -, hsame⟩ := byBank_other (verdict_changed_iff.mp hvt).2.1
    rw [hset] at haft
    have hput : t.sameAs (it.toExistingItem.putValues t) = true := by
      simp [RowState.sameAs, ExistingItem.putValues, dayDiff]
    rw [haft, hsame] at hput
    cases hput

/-- Committed again, a batch changes no item. -/
theorem commitBatch_again_items (h : FirstCommit nfc sha256 feed input env kept recs)
    (hsha : Function.Injective sha256) (hids : (feed.items.map (·.id)).Nodup)
    (hkeyed : ∀ it ∈ feed.items, it.toExistingItem.Keyed sha256) :
    (commitBatch nfc sha256 (commitBatch nfc sha256 feed input env).1 input env').1.items =
      (commitBatch nfc sha256 feed input env).1.items := by
  set first := (commitBatch nfc sha256 feed input env).1 with hfirst
  have hmanual : first.manual.getD env'.connectionId = feed.manual.getD env.connectionId := rfl
  have hins := insert_again env' h hsha hids hkeyed
  have hrep := @sweep_replaceOne_plan nfc sha256 first.items [] input
  rw [List.append_nil, records_again h hsha hids hkeyed] at hrep
  have hitems : (commitBatch nfc sha256 first input env').1.items =
      (sweep replaceOne (((toInsert env' (first.manual.getD env'.connectionId)
        (plan nfc sha256 first.items input)).foldl insertOne (first.items, [])).1, [])
          (plan nfc sha256 first.items input)).1.1 := rfl
  rw [hitems, hmanual, hins, hrep]
  rfl

/-- A row that the first commit inserts and the second one misses: an item with its key is older
than its new one, and another row has that item by its bank id. -/
def Missed (nfc sha256 : CodeUnits → CodeUnits) (feed : Feed) (input : BatchInput) (env : CommitEnv)
    (i : ℕ) (s : RowState) : Prop :=
  ∃ e, keyTwin feed.existing s = some e ∧
    e.id ∈ heldIds (fitidsOf input.rows) feed.existing (input.states nfc sha256) ∧
    ¬toLex (env.now, env.itemId i) < e.age ∧
    heldId (fitidsOf input.rows) feed.existing s = none ∧
    (byBank (fitidsOf input.rows) feed.existing s).trustedId = none ∧
    (match lateVerdict nfc (fitidsOf input.rows) feed.existing (input.states nfc sha256) s with
      | .changed _ => s.row.changedAction = some .add
      | _ => s.row.included = true) ∧
    ∀ it ∈ feed.items, it.connectionId = feed.manual.getD env.connectionId →
      it.dedupeKey ≠ some s.keyed.rowKey

theorem RowPlan.Follows.duplicate_iff {items : List ExistingItem}
    (h : p.Follows nfc sha256 items input s) : p.classified.status = .duplicate ↔
      verdict nfc (fitidsOf input.rows) items (input.states nfc sha256) s = .duplicate := by
  have hagrees := h.agrees
  cases hv : verdict nfc (fitidsOf input.rows) items (input.states nfc sha256) s with
  | duplicate =>
    rw [hv] at hagrees
    exact iff_of_true hagrees rfl
  | changed e =>
    rw [hv] at hagrees
    have hc : p.classified = ⟨.changed, none, some e, none, s.keyed.rowKey⟩ := hagrees
    rw [hc]
    exact iff_of_false nofun nofun
  | undecided =>
    rw [hv] at hagrees
    refine iff_of_false (fun hdup => ?_) nofun
    rcases hagrees.1 with hstatus | hstatus <;> rw [hdup] at hstatus <;> cases hstatus

variable (nfc) in
/-- A row that only its key stands for, with an item of this key that another row holds. -/
theorem verdict_late {fitids : List (Option CodeUnits)} {items : List ExistingItem}
    {ss : List RowState} {e : ExistingItem} (hheld : heldId fitids items s = none)
    (htwin : rowTwin fitids items s = some e) (hmem : e.id ∈ heldIds fitids items ss) :
    verdict nfc fitids items ss s = lateVerdict nfc fitids items ss s := by
  unfold verdict
  rw [hheld, htwin]
  simp [hmem]

theorem wouldInsert_of_late {items : List ExistingItem} (h : p.Follows nfc sha256 items input s)
    (hv : verdict nfc (fitidsOf input.rows) items (input.states nfc sha256) s =
      lateVerdict nfc (fitidsOf input.rows) items (input.states nfc sha256) s) :
    wouldInsert p.row p.classified = true ↔
      match lateVerdict nfc (fitidsOf input.rows) items (input.states nfc sha256) s with
      | .changed _ => s.row.changedAction = some .add
      | _ => s.row.included = true := by
  have hagrees := h.agrees
  rw [hv] at hagrees
  rw [h.row]
  cases hl : lateVerdict nfc (fitidsOf input.rows) items (input.states nfc sha256) s with
  | duplicate => exact absurd hl lateVerdict_ne_duplicate
  | changed e =>
    rw [hl] at hagrees
    have hc : p.classified = ⟨.changed, none, some e, none, s.keyed.rowKey⟩ := hagrees
    rw [hc]
    simp [wouldInsert]
  | undecided =>
    rw [hl] at hagrees
    rcases hagrees.1 with hstatus | hstatus <;> simp [wouldInsert, hstatus]

/-- The key of a row that is inserted under its row key is no other row's. -/
theorem dedupeKey_unique (hsha : Function.Injective sha256)
    (hids : (feed.items.map (·.id)).Nodup)
    (hkeyed : ∀ it ∈ feed.items, it.toExistingItem.Keyed sha256) {j : ℕ} {q : RowPlan}
    (hs : s ∈ input.states nfc sha256) (hp : (plan nfc sha256 feed.items input)[i]? = some p)
    (hfollows : p.Follows nfc sha256 feed.existing input s)
    (hq : (plan nfc sha256 feed.items input)[j]? = some q)
    (hw : wouldInsert q.row q.classified = true)
    (hkey : q.classified.dedupeKey = s.keyed.rowKey) : j = i ∧ q = p := by
  obtain ⟨t, ht, hfollows'⟩ := follows_of_mem hsha hids hkeyed (List.mem_of_getElem? hq)
  have hrow : t.keyed.rowKey = s.keyed.rowKey := by
    rcases hfollows'.inserted hw with ⟨-, -, -, hdedupe⟩ | ⟨-, -, -, hdedupe⟩
    · rw [hkey, RowState.newKey] at hdedupe
      split at hdedupe
      · obtain ⟨d, a, n, o, hs', -⟩ := states_rowKey hsha hs
        exact absurd (hs'.symm.trans hdedupe) (rowKey_ne_fitidKey hsha d a n o _)
      · exact hdedupe.symm
    · exact hdedupe.symm.trans hkey
  have hnodup := nodup_plan nfc input hsha hids hkeyed
  have hpi : ((plan nfc sha256 feed.items input).map (·.keyed.rowKey))[i]? =
      some s.keyed.rowKey := by
    rw [List.getElem?_map, hp, Option.map_some, hfollows.keyed]
  have hqj : ((plan nfc sha256 feed.items input).map (·.keyed.rowKey))[j]? =
      some s.keyed.rowKey := by
    rw [List.getElem?_map, hq, Option.map_some, hfollows'.keyed, hrow]
  have hlt : i < ((plan nfc sha256 feed.items input).map (·.keyed.rowKey)).length :=
    (List.getElem?_eq_some_iff.mp hpi).1
  obtain rfl := (List.getElem?_inj hlt hnodup).mp (hpi.trans hqj.symm)
  exact ⟨rfl, Option.some.inj (hq.symm.trans hp)⟩

/-- A row that only its key stands for keeps its key as its new item's. -/
theorem RowPlan.Follows.untrusted_key {items : List ExistingItem}
    (h : p.Follows nfc sha256 items input s) (hw : wouldInsert p.row p.classified = true)
    (htrusted : (byBank (fitidsOf input.rows) items s).trustedId = none) :
    p.classified.fitidUsed = none ∧ p.classified.dedupeKey = s.keyed.rowKey := by
  rcases h.inserted hw with ⟨-, -, hfitid, hkey⟩ | ⟨-, -, hfitid, hkey⟩
  · rw [hfitid, hkey, RowState.newKey, htrusted]
    exact ⟨rfl, rfl⟩
  · exact ⟨hfitid, hkey⟩

theorem Missed.inserted (h : FirstCommit nfc sha256 feed input env kept recs)
    (hsha : Function.Injective sha256) (hids : (feed.items.map (·.id)).Nodup)
    (hkeyed : ∀ it ∈ feed.items, it.toExistingItem.Keyed sha256)
    (hs : s ∈ input.states nfc sha256) (hp : (plan nfc sha256 feed.items input)[i]? = some p)
    (hfollows : p.Follows nfc sha256 feed.existing input s)
    (hmissed : Missed nfc sha256 feed input env i s) :
    (newItem env (feed.manual.getD env.connectionId) p i, i) ∈ kept := by
  obtain ⟨e, hkey, hmem, -, hheld, htrusted, hwanted, hclear⟩ := hmissed
  have hv := verdict_late nfc hheld
    ((rowTwin_untrusted hheld htrusted).trans hkey) hmem
  have hw := (wouldInsert_of_late hfollows hv).mpr hwanted
  obtain ⟨hfitid, hdedupe⟩ := hfollows.untrusted_key hw htrusted
  rcases h.all _ (mem_toInsert.mpr ⟨p, hp, hw, rfl⟩) with hkept | ⟨y, hy, hconf⟩
  · exact hkept
  · -- Having no bank id, the new item conflicts by its key alone, which only its own row has.
    have hconf : feed.manual.getD env.connectionId = y.connectionId ∧
        some s.keyed.rowKey = y.dedupeKey := by
      simpa [conflicts, newItem, hfitid, hdedupe] using hconf
    rcases List.mem_append.mp hy with hy | hy
    · exact absurd hconf.2.symm (hclear y hy hconf.1.symm)
    · obtain ⟨⟨y, j⟩, hyj, rfl⟩ := List.mem_map.mp hy
      obtain ⟨q, hq, hwq, rfl⟩ := h.mem_kept hyj
      have hqkey : q.classified.dedupeKey = s.keyed.rowKey := by
        have := hconf.2
        simp only [newItem, Option.some.injEq] at this
        exact this.symm
      obtain ⟨rfl, rfl⟩ := dedupeKey_unique hsha hids hkeyed hs hp hfollows hq hwq hqkey
      exact hyj

/-- The second commit finds a row that was inserted a duplicate, unless it misses it. -/
theorem inserted_duplicate_iff (h : FirstCommit nfc sha256 feed input env kept recs)
    (hsha : Function.Injective sha256) (hids : (feed.items.map (·.id)).Nodup)
    (hkeyed : ∀ it ∈ feed.items, it.toExistingItem.Keyed sha256)
    (hs : s ∈ input.states nfc sha256) (hp : (plan nfc sha256 feed.items input)[i]? = some p)
    (hfollows : p.Follows nfc sha256 feed.existing input s)
    (hfollows' : p'.Follows nfc sha256 (commitBatch nfc sha256 feed input env).1.existing input s) :
    (i ∈ kept.map Prod.snd → p'.classified.status = .duplicate) ↔
      ¬Missed nfc sha256 feed input env i s := by
  have hcommitted := h.committed hsha hids hkeyed
  have hnewItem : (newItem env (feed.manual.getD env.connectionId) p i, i) ∈ kept →
      newItemOf (keptItems kept) s =
        some (newItem env (feed.manual.getD env.connectionId) p i).toExistingItem := fun hkept =>
    hcommitted.newItemOf_of_mem (List.mem_map_of_mem (f := fun x => x.1.toExistingItem) hkept)
      (congrArg (fun k : KeyedRow => some k.rowKey) hfollows.keyed)
  have hage : (newItem env (feed.manual.getD env.connectionId) p i).toExistingItem.age =
      toLex (env.now, env.itemId i) := rfl
  rw [hfollows'.duplicate_iff]
  constructor
  · intro hdup hmissed
    have hkept := hmissed.inserted h hsha hids hkeyed hs hp hfollows
    obtain ⟨e, hkey, -, hage', -, htrusted, -⟩ := hmissed
    exact hage' ((hcommitted.verdict_inserted_again hs htrusted (hnewItem hkept)).mp
      (hdup (List.mem_map_of_mem hkept)) e hkey)
  · intro hmissed hi
    by_contra hnot
    obtain ⟨⟨x, j⟩, hx, rfl⟩ := List.mem_map.mp hi
    obtain ⟨p₀, hp₀, hw, rfl⟩ := h.mem_kept hx
    obtain rfl : p₀ = p := Option.some.inj (hp₀.symm.trans hp)
    have hnotDup : verdict nfc (fitidsOf input.rows) feed.existing (input.states nfc sha256) s ≠
        .duplicate := fun hv => hnot (hcommitted.verdict_duplicate_again hs hv)
    have hheld : heldId (fitidsOf input.rows) feed.existing s = none := by
      by_contra hne
      exact hnotDup (verdict_duplicate_iff.mpr (.inl (Option.isSome_iff_ne_none.mpr hne)))
    have htrusted : (byBank (fitidsOf input.rows) feed.existing s).trustedId = none := by
      cases hb : byBank (fitidsOf input.rows) feed.existing s with
      | trusted f =>
        have hb' := hcommitted.byBank_trusted_again hs hb
        rw [hnewItem hx] at hb'
        exact absurd (verdict_duplicate_iff.mpr (.inl (by rw [heldId, hb']; rfl))) hnot
      | _ => rfl
    have hnew := hcommitted.verdict_inserted_again hs htrusted (hnewItem hx)
    rw [hnew] at hnot
    push Not at hnot
    obtain ⟨e, hkey, hle⟩ := hnot
    have htwin := (rowTwin_untrusted hheld htrusted).trans hkey
    have hmem : e.id ∈ heldIds (fitidsOf input.rows) feed.existing (input.states nfc sha256) := by
      by_contra hfree
      exact hnotDup (verdict_duplicate_iff.mpr (.inr ⟨e, htwin, hfree⟩))
    obtain ⟨hfitid, hdedupe⟩ := hfollows.untrusted_key hw htrusted
    refine hmissed ⟨e, hkey, hmem, hage ▸ not_lt.mpr hle, hheld, htrusted,
      (wouldInsert_of_late hfollows (verdict_late nfc hheld htwin hmem)).mp hw,
      fun it hit hconn hded => ?_⟩
    have hfree := h.free _ hx it hit
    simp [conflicts, newItem, hdedupe, hconn, hded] at hfree

theorem results_getElem? : (commitBatch nfc sha256 feed input env).2[i]? =
    (plan nfc sha256 feed.items input)[i]?.map fun p => rowResult p
      (((toInsert env (feed.manual.getD env.connectionId) (plan nfc sha256 feed.items
        input)).foldl insertOne (feed.items, [])).2.contains i) (replacedFlag feed.items p) := by
  have hzip : (plan nfc sha256 feed.items input).zip
      ((plan nfc sha256 feed.items input).map (replacedFlag feed.items)) =
      (plan nfc sha256 feed.items input).map fun p => (p, replacedFlag feed.items p) := by
    rw [← List.zip_map', List.map_id']
  rw [commitBatch_results, hzip, List.getElem?_map, List.getElem?_zipIdx, List.getElem?_map]
  cases (plan nfc sha256 feed.items input)[i]? with
  | none => rfl
  | some p => simp

theorem results_length (hsha : Function.Injective sha256)
    (hids : (feed.items.map (·.id)).Nodup)
    (hkeyed : ∀ it ∈ feed.items, it.toExistingItem.Keyed sha256) :
    (commitBatch nfc sha256 feed input env).2.length = (input.states nfc sha256).length := by
  have hlen : (commitBatch nfc sha256 feed input env).2.length =
      (plan nfc sha256 feed.items input).length := by
    rw [commitBatch_results]
    simp
  exact hlen.trans (plan_follows nfc input hsha feed.items hids hkeyed).length_eq

/-- Committed twice, a batch inserts and changes nothing the second time, and of the rows it inserted
or found duplicates the first time it reports as duplicates just those it does not miss. -/
theorem commitBatch_twice (nfc : CodeUnits → CodeUnits) {sha256 : CodeUnits → CodeUnits}
    (hsha : Function.Injective sha256) {feed : Feed} (input : BatchInput) {env : CommitEnv}
    (env' : CommitEnv) (hids : (feed.items.map (·.id)).Nodup)
    (hkeyed : ∀ it ∈ feed.items, it.toExistingItem.Keyed sha256) (hfresh : env.Fresh feed.items) :
    (commitBatch nfc sha256 (commitBatch nfc sha256 feed input env).1 input env').1.items =
        (commitBatch nfc sha256 feed input env).1.items ∧
      (commitBatch nfc sha256 feed input env).2.length = (input.states nfc sha256).length ∧
      (commitBatch nfc sha256 (commitBatch nfc sha256 feed input env).1 input env').2.length =
        (input.states nfc sha256).length ∧
      ∀ i s r r', (input.states nfc sha256)[i]? = some s →
        (commitBatch nfc sha256 feed input env).2[i]? = some r →
        (commitBatch nfc sha256 (commitBatch nfc sha256 feed input env).1 input env').2[i]? =
          some r' →
        ((r.inserted = true ∨ r.status = .duplicate → r'.status = .duplicate) ↔
          ¬Missed nfc sha256 feed input env i s) := by
  obtain ⟨kept, recs, h⟩ := firstCommit nfc sha256 input hids hfresh
  refine ⟨commitBatch_again_items h hsha hids hkeyed, results_length hsha hids hkeyed,
    results_length hsha h.nodup (h.keyed hsha hids hkeyed), fun i s r r' hs hr hr' => ?_⟩
  rw [results_getElem?] at hr hr'
  obtain ⟨p, hp, rfl⟩ := Option.map_eq_some_iff.mp hr
  obtain ⟨p', hp', rfl⟩ := Option.map_eq_some_iff.mp hr'
  obtain ⟨p₀, s₀, hp₀, hs₀, hps, hps'⟩ := follows_twice h hsha hids hkeyed hp'
  obtain rfl : p₀ = p := Option.some.inj (hp₀.symm.trans hp)
  obtain rfl : s₀ = s := Option.some.inj (hs₀.symm.trans hs)
  have hsmem := List.mem_of_getElem? hs
  -- a duplicate stays one, so only what was inserted is in question
  have hagain : p₀.classified.status = .duplicate → p'.classified.status = .duplicate := fun hdup =>
    hps'.duplicate_iff.mpr
      ((h.committed hsha hids hkeyed).verdict_duplicate_again hsmem (hps.duplicate_iff.mp hdup))
  rw [← inserted_duplicate_iff h hsha hids hkeyed hsmem hp hps hps']
  have hinserted : (rowResult p₀ (((toInsert env (feed.manual.getD env.connectionId) (plan nfc sha256
      feed.items input)).foldl insertOne (feed.items, [])).2.contains i)
      (replacedFlag feed.items p₀)).inserted = true ↔ i ∈ kept.map Prod.snd := by
    simp [rowResult, h.insert]
  rw [hinserted]
  exact ⟨fun hall hi => hall (.inl hi), fun hall hor => hor.elim hall hagain⟩

/-- The fee replaces its item once and is a duplicate then, and so is the rent. -/
theorem commitBatch_twice_fee :
    (commitBatch id id (commitBatch id id feeFeed feeInput feeEnv).1 feeInput feeEnv).1.items =
        (commitBatch id id feeFeed feeInput feeEnv).1.items ∧
      ∀ (i : ℕ) (r r' : RowResult), (commitBatch id id feeFeed feeInput feeEnv).2[i]? = some r →
        (commitBatch id id (commitBatch id id feeFeed feeInput feeEnv).1 feeInput feeEnv).2[i]? =
          some r' →
        r.inserted = true ∨ r.status = .duplicate → r'.status = .duplicate := by
  have hkeyed : ∀ it ∈ feeFeed.items, it.toExistingItem.Keyed id := fun it hit => by
    obtain rfl := List.mem_singleton.mp hit
    exact .inl rfl
  obtain ⟨hitems, hlen, -, hdup⟩ := @commitBatch_twice id id Function.injective_id feeFeed feeInput
    feeEnv feeEnv (List.nodup_singleton _) hkeyed feeEnv_fresh
  refine ⟨hitems, fun i r r' hr hr' => ?_⟩
  obtain ⟨s, hs⟩ : ∃ s, (feeInput.states id id)[i]? = some s :=
    ⟨_, List.getElem?_eq_getElem (hlen ▸ (List.getElem?_eq_some_iff.mp hr).1)⟩
  refine (hdup i s r r' hs hr hr').mpr ?_
  rintro ⟨e, hkey, -⟩
  obtain ⟨hmem, hrow⟩ := oldest_some hkey
  obtain rfl := List.mem_singleton.mp hmem
  exact absurd hrow (by simp [feeItem])

end Second

/-- The fee's item with the key of the row in `missedInput` that has no bank id. -/
def missedFeed : Feed :=
  ⟨feeFeed.manual, [{ feeItem with
    rowKey := some (ImportKeys.rowKey id ⟨2026, 4, 17⟩ 20 (norm id (units "Rent".toList)) 1) }], []⟩

/-- The fee under its bank id, and the row whose key its item has. -/
def missedInput : BatchInput where
  bounds := ⟨none, none⟩
  rows := [
    { line := 1, date := ⟨2026, 4, 15⟩, amount := 9 / 2, description := units "Bank fee".toList,
      fitid := some (units "F1".toList) },
    { line := 2, date := ⟨2026, 4, 17⟩, amount := 20, description := units "Rent".toList }]

example : ((commitBatch id id (commitBatch id id missedFeed missedInput feeEnv).1 missedInput
    feeEnv).2.map (·.status)) = [.duplicate, .possibleDuplicate] := by decide +kernel

end MyBooks.ImportRows
