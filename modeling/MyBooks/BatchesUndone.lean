import MyBooks.BatchUndone
import MyBooks.Runs
import Mathlib.Data.List.Forall2

/-!
# Batches undone in reverse order

Commits and post-processing run in any order, and then all is undone, the last batch first. What
post-processing does to the items a batch inserted makes no difference to undoing (`Unwinds.alike`),
so nothing counts as used and the items are in the end those of the beginning (`undo_in_reverse`).
The first batch is then classified and inserted as it was.
-/

namespace MyBooks.ImportRows

open ImportKeys

/-! ## Runs -/

/-- Post-processing leaves an item pending, unassigned and unmatched, with its values. -/
structure KeepsItem (f : FeedItem → FeedItem) : Prop where
  id : ∀ it, (f it).id = it.id
  importBatchId : ∀ it, (f it).importBatchId = it.importBatchId
  values : ∀ it, (f it).values = it.values
  untouched : ∀ it, it.untouched = true → (f it).untouched = true

inductive ImportEvent where
  | commit (input : BatchInput) (env : CommitEnv)
  | post (batchId : CodeUnits) (f : FeedItem → FeedItem) (failed : Bool)

/-- A feed with the batches committed so far. -/
structure Session where
  feed : Feed
  committed : List CodeUnits

section Steps

variable (nfc sha256 : CodeUnits → CodeUnits)

def sessionStep (s : Session) : ImportEvent → Option Session
  | .commit input env =>
    some ⟨(commitBatch nfc sha256 s.feed input env).1, s.committed ++ [env.batchId]⟩
  | .post batchId f failed => some ⟨postProcess s.feed batchId f failed, s.committed⟩

end Steps

/-- Ids are new, and only batches of the session are processed. -/
def EventOk (s : Session) : ImportEvent → Prop
  | .commit _ env => env.Fresh s.feed.items ∧ ∀ b ∈ s.feed.batches, b.id ≠ env.batchId
  | .post batchId f _ => batchId ∈ s.committed ∧ KeepsItem f

def undoAll (feed : Feed) (ids : List CodeUnits) : Except UndoError Feed :=
  ids.foldlM (fun feed id => (undoBatch feed id false).map Prod.fst) feed

/-! ## What does not matter to undoing -/

/-- What undoing looks at in an item. -/
structure SameCore (x y : FeedItem) : Prop where
  id : x.id = y.id
  importBatchId : x.importBatchId = y.importBatchId
  values : x.values = y.values
  untouched : x.untouched = true → y.untouched = true

/-- The same, or an item of one of the batches that has the same core. -/
def Alike (bs : List ImportBatch) (x y : FeedItem) : Prop :=
  x = y ∨ (∃ b ∈ bs, x.importBatchId = some b.id) ∧ SameCore x y

/-- The batches undone one after the other, each as it was left, come to `orig`. -/
def Unwinds (orig : List FeedItem) : List ImportBatch → List FeedItem → Prop
  | [], items => items = orig
  | b :: bs, items => b.Left items ∧ Unwinds orig bs (undoItems items b)

/-- Batches with the same records. -/
def SameRecords (b b' : ImportBatch) : Prop := b.id = b'.id ∧ b.replacedItems = b'.replacedItems

section Alike

variable {bs bs' : List ImportBatch} {b b' : ImportBatch} {x y : FeedItem}
  {items items' orig : List FeedItem}

theorem Alike.core (h : Alike bs x y) : SameCore x y := by
  rcases h with rfl | h
  · exact ⟨rfl, rfl, rfl, id⟩
  · exact h.2

theorem SameCore.setValues (h : SameCore x y) (v : ItemValues) :
    SameCore (x.setValues v) (y.setValues v) :=
  ⟨h.id, h.importBatchId, rfl, h.untouched⟩

theorem Alike.setValues (h : Alike bs x y) (v : ItemValues) :
    Alike bs (x.setValues v) (y.setValues v) :=
  h.imp (fun h => by rw [h]) fun h => ⟨h.1, h.2.setValues v⟩

/-- Values are set on both sides alike. -/
theorem forall₂_setAll {R : FeedItem → FeedItem → Prop} (hid : ∀ x y, R x y → x.id = y.id)
    (hset : ∀ x y v, R x y → R (x.setValues v) (y.setValues v)) (v : ReplacedItem → ItemValues) :
    ∀ (recs : List ReplacedItem) {xs ys : List FeedItem}, List.Forall₂ R xs ys →
      List.Forall₂ R (setAll xs recs v) (setAll ys recs v)
  | [], _, _, h => h
  | r :: recs, xs, ys, h => by
    rw [setAll, setAll, List.foldl_cons, List.foldl_cons]
    refine forall₂_setAll hid hset v recs ?_
    rw [updateItem, updateItem, List.forall₂_map_left_iff, List.forall₂_map_right_iff]
    refine h.imp fun x y hxy => ?_
    rw [hid x y hxy]
    split_ifs
    · exact hset x y _ hxy
    · exact hxy

theorem current_alike (h : List.Forall₂ (Alike bs) items items') (r : ReplacedItem) :
    (current items r = none ∧ current items' r = none) ∨
      ∃ x y, current items r = some x ∧ current items' r = some y ∧ SameCore x y := by
  induction h with
  | nil => exact .inl ⟨rfl, rfl⟩
  | @cons x y xs ys hxy _ ih =>
    have hid := hxy.core.id
    rw [current, current, List.find?_cons, List.find?_cons, ← hid]
    split
    · exact .inr ⟨x, y, rfl, rfl, hxy.core⟩
    · exact ih

theorem SameCore.asLeft {r : ReplacedItem} (h : SameCore x y) (hx : r.asLeft x = true) :
    r.asLeft y = true := by
  have hv := h.values
  simp only [FeedItem.values, ItemValues.mk.injEq] at hv
  simp only [ReplacedItem.asLeft, Bool.and_eq_true_iff, decide_eq_true_eq] at hx ⊢
  exact ⟨⟨h.untouched hx.1.1, hv.1.symm.trans hx.1.2⟩, hv.2.1.symm.trans hx.2⟩

theorem exists_of_mem_right {R : FeedItem → FeedItem → Prop} {xs ys : List FeedItem}
    (h : List.Forall₂ R xs ys) (hy : y ∈ ys) : ∃ x ∈ xs, R x y := by
  induction h with
  | nil => exact absurd hy List.not_mem_nil
  | @cons x' y' xs ys hxy _ ih =>
    rcases List.mem_cons.mp hy with rfl | hy
    · exact ⟨x', List.mem_cons_self, hxy⟩
    · obtain ⟨x, hx, hxy⟩ := ih hy
      exact ⟨x, List.mem_cons_of_mem _ hx, hxy⟩

theorem ImportBatch.Left.alike (h : b.Left items) (hb : SameRecords b b')
    (hitems : List.Forall₂ (Alike bs) items items') : b'.Left items' := by
  refine ⟨fun y hy hbatch => ?_, fun r hr y hy => ?_⟩
  · obtain ⟨x, hx, hxy⟩ := exists_of_mem_right hitems hy
    refine hxy.core.untouched (h.untouched x hx ?_)
    rw [hxy.core.importBatchId, hbatch, hb.1]
  · rcases current_alike hitems r with ⟨-, hnone⟩ | ⟨x, y', hx, hy', hxy⟩
    · rw [hnone] at hy
      cases hy
    · rw [hy', Option.some.injEq] at hy
      exact hy ▸ hxy.asLeft (h.asLeft r (hb.2 ▸ hr) x hx)

/-- Undone on both sides, a batch takes its own items with it. -/
theorem forall₂_undoItems (h : b.Left items) (h' : b'.Left items') (hb : SameRecords b b')
    (hitems : List.Forall₂ (Alike (b :: bs)) items items') :
    List.Forall₂ (Alike bs) (undoItems items b) (undoItems items' b') := by
  have hrestorable : (b.replacedItems.filter fun r => (current items r).any r.asLeft) =
      b'.replacedItems.filter fun r => (current items' r).any r.asLeft := by
    rw [← hb.2]
    refine List.filter_congr fun r hr => ?_
    rcases current_alike hitems r with ⟨hx, hy⟩ | ⟨x, y, hx, hy, hxy⟩
    · rw [hx, hy]
    · have hleft := h.asLeft r hr x hx
      rw [hx, hy, Option.any_some, Option.any_some, hleft, hxy.asLeft hleft]
  have hmine : ∀ {c : ImportBatch} {zs : List FeedItem}, c.Left zs →
      ((zs.filter fun it => it.importBatchId = some c.id).filter (·.untouched)).map (·.id) =
        (zs.filter fun it => it.importBatchId = some c.id).map (·.id) := fun {c zs} hc => by
    rw [List.filter_eq_self.mpr fun x hx => ?_]
    obtain ⟨hx, hxb⟩ := List.mem_filter.mp hx
    exact hc.untouched x hx (by simpa using hxb)
  have hids : (items.filter fun it => it.importBatchId = some b.id).map (·.id) =
      (items'.filter fun it => it.importBatchId = some b'.id).map (·.id) := by
    rw [← hb.1]
    clear h h' hrestorable
    induction hitems with
    | nil => rfl
    | @cons x y xs ys hxy _ ih =>
      rw [List.filter_cons, List.filter_cons, hxy.core.importBatchId]
      split_ifs
      · rw [List.map_cons, List.map_cons, ih, hxy.core.id]
      · exact ih
  rw [undoItems, undoItems]
  rw [← setAll, ← setAll, hmine h, hmine h', ← hids, ← hrestorable]
  set ids := (items.filter fun it => it.importBatchId = some b.id).map (·.id) with hidsdef
  have hrel : List.Forall₂
      (fun x y => (x.importBatchId = some b.id → x.id ∈ ids) ∧ Alike (b :: bs) x y) items items' :=
    (List.forall₂_and_left _ _).mpr ⟨fun x hx hxb => by
      rw [hidsdef]
      exact List.mem_map_of_mem (List.mem_filter.mpr ⟨hx, by simpa using hxb⟩), hitems⟩
  have hset := forall₂_setAll (fun x y h => h.2.core.id)
    (fun x y v h => ⟨h.1, h.2.setValues v⟩) (·.before)
    (b.replacedItems.filter fun r => (current items r).any r.asLeft) hrel
  generalize setAll items _ (·.before) = xs at hset ⊢
  generalize setAll items' _ (·.before) = ys at hset ⊢
  rw [removeItems, removeItems]
  induction hset with
  | nil => exact .nil
  | @cons x y xs ys hxy _ ih =>
    rw [List.filter_cons, List.filter_cons, ← hxy.2.core.id]
    split_ifs with hkept
    · rw [List.map_cons, List.map_cons]
      refine .cons ?_ ih
      rcases hxy.2 with rfl | ⟨⟨c, hc, hxc⟩, hcore⟩
      · exact .inl rfl
      · refine .inr ⟨?_, ?_⟩
        · rcases List.mem_cons.mp hc with rfl | hc
          · exact absurd (hxy.1 hxc) (by simpa using hkept)
          · refine ⟨c, hc, ?_⟩
            split_ifs <;> exact hxc
        · split_ifs <;> exact ⟨hcore.id, hcore.importBatchId, hcore.values, hcore.untouched⟩
    · exact ih

theorem Unwinds.alike : ∀ {bs bs' : List ImportBatch} {items items' : List FeedItem},
    Unwinds orig bs items → List.Forall₂ SameRecords bs bs' →
    List.Forall₂ (Alike bs) items items' → Unwinds orig bs' items'
  | [], _, items, items', h, .nil, hitems => by
    have heq : items = items' := by
      rw [← List.forall₂_eq_eq_eq]
      exact hitems.imp fun x y hxy => hxy.resolve_right fun hc => by simpa using hc.1
    exact heq ▸ h
  | b :: bs, _ :: _, items, items', ⟨hleft, h⟩, .cons hb hbs, hitems =>
    have hleft' := hleft.alike hb hitems
    ⟨hleft', h.alike hbs (forall₂_undoItems hleft hleft' hb hitems)⟩

end Alike

/-! ## Undoing all -/

section UndoAll

variable {feed : Feed} {b : ImportBatch} {orig : List FeedItem}

theorem undoBatch_left (hfind : feed.batches.find? (fun x => x.id = b.id) = some b)
    (hundone : b.undone = false) (hdone : b.postProcessing ≠ .scheduled)
    (hleft : b.Left feed.items) :
    (undoBatch feed b.id false).map Prod.fst = .ok { feed with
      items := undoItems feed.items b
      batches := feed.batches.map fun x =>
        if x.id = b.id then { x with undone := true } else x } := by
  have hused : ((feed.items.filter fun it => it.importBatchId = some b.id).filter
      fun it => !it.untouched) = [] := List.filter_eq_nil_iff.mpr fun it hit => by
    obtain ⟨hit, hb⟩ := List.mem_filter.mp hit
    simp [hleft.untouched it hit (by simpa using hb)]
  have hreplaced : (b.replacedItems.filter fun r => (current feed.items r).any
      fun it => !r.asLeft it) = [] := List.filter_eq_nil_iff.mpr fun r hr => by
    cases hc : current feed.items r with
    | none => simp
    | some it => simp [hleft.asLeft r hr it hc]
  simp only [undoBatch, hfind, hundone, if_neg hdone, hused, hreplaced]
  rfl

theorem undoAll_unwinds : ∀ {bs : List ImportBatch} {feed : Feed}, Unwinds orig bs feed.items →
    (∀ b ∈ bs, feed.batches.find? (fun x => x.id = b.id) = some b ∧ b.undone = false ∧
      b.postProcessing ≠ .scheduled) → (bs.map (·.id)).Nodup →
    ∃ feed', undoAll feed (bs.map (·.id)) = .ok feed' ∧ feed'.items = orig ∧
      feed'.manual = feed.manual
  | [], feed, h, _, _ => ⟨feed, rfl, h, rfl⟩
  | b :: bs, feed, ⟨hleft, h⟩, hbs, hnodup => by
    obtain ⟨hfind, hundone, hdone⟩ := hbs b List.mem_cons_self
    obtain ⟨hb, hnodup⟩ := List.nodup_cons.mp hnodup
    have hrest : ∀ c ∈ bs, (feed.batches.map fun x => if x.id = b.id then
        { x with undone := true } else x).find? (fun x => x.id = c.id) = some c ∧
          c.undone = false ∧ c.postProcessing ≠ .scheduled := by
      intro c hc
      obtain ⟨hcfind, hc'⟩ := hbs c (List.mem_cons_of_mem _ hc)
      refine ⟨?_, hc'⟩
      have hcomp : ((fun x : ImportBatch => decide (x.id = c.id)) ∘ fun x => if x.id = b.id then
          { x with undone := true } else x) = fun x => decide (x.id = c.id) := funext fun x => by
        rw [Function.comp_apply]
        split_ifs <;> rfl
      rw [List.find?_map, hcomp, hcfind, Option.map_some, if_neg]
      exact fun heq => hb (List.mem_map.mpr ⟨c, hc, heq⟩)
    let next : Feed := { feed with
      items := undoItems feed.items b
      batches := feed.batches.map fun x => if x.id = b.id then { x with undone := true } else x }
    have hnext : Unwinds orig bs next.items := h
    obtain ⟨feed', hundo, hitems, hmanual⟩ := undoAll_unwinds hnext hrest hnodup
    refine ⟨feed', ?_, hitems, hmanual⟩
    rw [undoAll, List.map_cons, List.foldlM_cons, undoBatch_left hfind hundone hdone hleft]
    exact hundo

end UndoAll

section Sessions

variable {nfc sha256 : CodeUnits → CodeUnits} {orig : Feed} {s s' : Session}

/-- The batches committed so far come after those there were, and unwind to the first items. -/
structure SessionInv (orig : Feed) (s : Session) : Prop where
  nodup : (s.feed.items.map (·.id)).Nodup
  committed : s.committed.Nodup
  batches : ∃ later, s.feed.batches = orig.batches ++ later ∧ later.map (·.id) = s.committed ∧
    (∀ b ∈ later, b.undone = false ∧ ∀ o ∈ orig.batches, o.id ≠ b.id) ∧
    Unwinds orig.items later.reverse s.feed.items

theorem sessionInv_commit {input : BatchInput} {env : CommitEnv} (h : SessionInv orig s)
    (hok : EventOk s (.commit input env)) :
    SessionInv orig ⟨(commitBatch nfc sha256 s.feed input env).1,
      s.committed ++ [env.batchId]⟩ := by
  obtain ⟨hfresh, hnew⟩ := hok
  obtain ⟨later, hbatches, hcommitted, hlater, hunwinds⟩ := h.batches
  obtain ⟨b, hb, hid, hundone, hleft, hundo, hnodup⟩ :=
    undoItems_commitBatch nfc sha256 input h.nodup hfresh
  refine ⟨hnodup, ?_, later ++ [b], ?_, ?_, ?_, ?_⟩
  · refine List.nodup_append.mpr ⟨h.committed, List.nodup_singleton _, fun x hx y hy heq => ?_⟩
    rw [← hcommitted] at hx
    obtain ⟨c, hc, rfl⟩ := List.mem_map.mp hx
    exact hnew c (hbatches ▸ List.mem_append_right _ hc) (heq.trans (List.mem_singleton.mp hy))
  · rw [hb, hbatches, List.append_assoc]
  · rw [List.map_append, hcommitted, List.map_singleton, hid]
  · intro c hc
    rcases List.mem_append.mp hc with hc | hc
    · exact hlater c hc
    · obtain rfl := List.mem_singleton.mp hc
      refine ⟨hundone, fun o ho => ?_⟩
      rw [hid]
      exact hnew o (hbatches ▸ List.mem_append_left _ ho)
  · rw [List.reverse_append, List.reverse_singleton, List.singleton_append]
    exact ⟨hleft, by rwa [hundo]⟩

theorem sessionInv_post {batchId : CodeUnits} {f : FeedItem → FeedItem} {failed : Bool}
    (h : SessionInv orig s) (hok : EventOk s (.post batchId f failed)) :
    SessionInv orig ⟨postProcess s.feed batchId f failed, s.committed⟩ := by
  obtain ⟨hbatch, hf⟩ := hok
  obtain ⟨later, hbatches, hcommitted, hlater, hunwinds⟩ := h.batches
  have hmem : ∃ b ∈ later, b.id = batchId := by
    rw [← hcommitted] at hbatch
    obtain ⟨b, hb, hid⟩ := List.mem_map.mp hbatch
    exact ⟨b, hb, hid⟩
  have hids : ∀ x : FeedItem, (if x.importBatchId = some batchId then f x else x).id = x.id :=
    fun x => by
      split_ifs
      · exact hf.id x
      · rfl
  set g : ImportBatch → ImportBatch := fun b =>
    if b.id = batchId then { b with postProcessing := if failed then .failed else .done } else b
  have hg : ∀ b, (g b).id = b.id ∧ (g b).replacedItems = b.replacedItems ∧
      (g b).undone = b.undone := fun b => by
    simp only [g]
    split_ifs <;> exact ⟨rfl, rfl, rfl⟩
  have horig : orig.batches.map g = orig.batches := by
    refine (List.map_congr_left fun o ho => if_neg fun hid => ?_).trans (List.map_id _)
    obtain ⟨b, hb, rfl⟩ := hmem
    exact (hlater b hb).2 o ho hid
  refine ⟨?_, h.committed, later.map g, ?_, ?_, ?_, ?_⟩
  · simp only [postProcess, List.map_map]
    exact List.map_congr_left (fun x _ => hids x) ▸ h.nodup
  · simp only [postProcess]
    rw [hbatches, List.map_append, horig]
  · rw [List.map_map, ← hcommitted]
    exact List.map_congr_left fun b _ => (hg b).1
  · intro c hc
    obtain ⟨b, hb, rfl⟩ := List.mem_map.mp hc
    exact ⟨(hg b).2.2.trans (hlater b hb).1, fun o ho => (hg b).1 ▸ (hlater b hb).2 o ho⟩
  · rw [← List.map_reverse]
    refine hunwinds.alike ?_ ?_
    · rw [List.forall₂_map_right_iff]
      exact List.forall₂_same.mpr fun b _ => ⟨(hg b).1.symm, (hg b).2.1.symm⟩
    · simp only [postProcess]
      rw [List.forall₂_map_right_iff]
      refine List.forall₂_same.mpr fun x _ => ?_
      split_ifs with hx
      · obtain ⟨b, hb, rfl⟩ := hmem
        exact .inr ⟨⟨b, List.mem_reverse.mpr hb, hx⟩, (hf.id x).symm, (hf.importBatchId x).symm,
          (hf.values x).symm, hf.untouched x⟩
      · exact .inl rfl

theorem sessionInv_step {e : ImportEvent} (h : SessionInv orig s) (hok : EventOk s e)
    (hstep : sessionStep nfc sha256 s e = some s') : SessionInv orig s' := by
  cases e with
  | commit input env =>
    obtain rfl := Option.some.inj hstep
    exact sessionInv_commit h hok
  | post batchId f failed =>
    obtain rfl := Option.some.inj hstep
    exact sessionInv_post h hok

theorem sessionStep_manual {e : ImportEvent} {c : CodeUnits} (h : s.feed.manual = some c)
    (hstep : sessionStep nfc sha256 s e = some s') : s'.feed.manual = some c := by
  cases e with
  | commit input env =>
    obtain rfl := Option.some.inj hstep
    simp [commitBatch, h]
  | post batchId f failed =>
    obtain rfl := Option.some.inj hstep
    exact h

end Sessions

/-! ## The first batch again -/

section Again

variable {nfc sha256 : CodeUnits → CodeUnits} {env env' : CommitEnv} {feed feed' : Feed}
  {input : BatchInput}

/-- An item without what the database and the clock give it. -/
def FeedItem.content (x : FeedItem) : FeedItem :=
  { x with id := [], createdAt := [], importBatchId := none }

theorem foldl_insertOne_content {xs ys : List (FeedItem × ℕ)} {acc acc' : List FeedItem × List ℕ}
    (hxs : xs.map (fun x => (x.1.content, x.2)) = ys.map (fun y => (y.1.content, y.2)))
    (h : acc.1.map (·.content) = acc'.1.map (·.content)) (h' : acc.2 = acc'.2) :
    (xs.foldl insertOne acc).1.map (·.content) = (ys.foldl insertOne acc').1.map (·.content) ∧
      (xs.foldl insertOne acc).2 = (ys.foldl insertOne acc').2 := by
  induction xs generalizing ys acc acc' with
  | nil =>
    obtain rfl : ys = [] := by simpa using hxs.symm
    exact ⟨h, h'⟩
  | cons x xs ih =>
    cases ys with
    | nil => simp at hxs
    | cons y ys =>
      rw [List.map_cons, List.map_cons, List.cons.injEq, Prod.mk.injEq] at hxs
      obtain ⟨⟨hcontent, hplace⟩, hrest⟩ := hxs
      have hany : ∀ items : List FeedItem, ∀ z : FeedItem, items.any (conflicts z) =
          (items.map (·.content)).any (conflicts z.content) := fun items z => by
        rw [List.any_map]
        rfl
      have hsame : acc.1.any (conflicts x.1) = acc'.1.any (conflicts y.1) := by
        rw [hany, hany acc'.1, h, hcontent]
      rw [List.foldl_cons, List.foldl_cons, insertOne, insertOne, hsame]
      split_ifs
      · exact ih hrest h h'
      · refine ih hrest ?_ ?_
        · simp [h, hcontent]
        · simp [h', hplace]

theorem toInsert_content (env env' : CommitEnv) (c : CodeUnits) (plans : List RowPlan) :
    (toInsert env c plans).map (fun x => (x.1.content, x.2)) =
      (toInsert env' c plans).map (fun x => (x.1.content, x.2)) := by
  rw [toInsert, toInsert, List.map_filterMap, List.map_filterMap]
  refine List.filterMap_congr fun p _ => ?_
  split_ifs <;> rfl

/-- Against the same items a batch is classified, inserted and answered the same. -/
theorem commitBatch_again (hitems : feed'.items = feed.items)
    (hmanual : feed'.manual.getD env'.connectionId = feed.manual.getD env.connectionId)
    (hfresh : env.Fresh feed.items) (hfresh' : env'.Fresh feed'.items) :
    plan nfc sha256 feed'.items input = plan nfc sha256 feed.items input ∧
      (commitBatch nfc sha256 feed' input env').2 = (commitBatch nfc sha256 feed input env).2 ∧
      (commitBatch nfc sha256 feed' input env').1.items.map (·.content) =
        (commitBatch nfc sha256 feed input env).1.items.map (·.content) := by
  have hins := @foldl_insertOne_content _ _ (feed.items, []) (feed.items, [])
    (toInsert_content env' env (feed.manual.getD env.connectionId)
      (plan nfc sha256 feed.items input)) rfl rfl
  refine ⟨by rw [hitems], ?_, ?_⟩
  · rw [commitBatch_results, commitBatch_results, hitems, hmanual, hins.2]
  · obtain ⟨new, recs, -, hnew, -, hrecs, hfold, hafter, -⟩ :=
      commitBatch_items nfc sha256 input hfresh
    obtain ⟨new', recs', -, hnew', -, hrecs', hfold', hafter', -⟩ :=
      commitBatch_items nfc sha256 input hfresh'
    rw [hitems] at hrecs' hfold' hafter' hfresh'
    rw [hmanual] at hfold'
    obtain rfl : recs' = recs := hrecs'.trans hrecs.symm
    have hrecords : RecordsOf feed.items recs' := hrecs ▸ recordsOf_plan nfc sha256 feed.items input
    have hcontent : new'.map (·.content) = new.map (·.content) := by
      have := hins.1
      rw [← hfold, ← hfold', List.map_append, List.map_append] at this
      exact List.append_cancel_left this
    have hkept : ∀ {e : CommitEnv} {xs : List FeedItem}, e.Fresh feed.items →
        (∀ x ∈ xs, e.Inserted x) → xs.map (·.setBy recs' (·.after)) = xs := by
      intro e xs he hxs
      refine (List.map_congr_left fun x hx => setBy_none ?_).trans (List.map_id _)
      refine List.find?_eq_none.mpr fun r hr => ?_
      obtain ⟨before, hfind, -⟩ := hrecords.found r hr
      have hid : before.id = r.id := by simpa using List.find?_some hfind
      obtain ⟨i, hi⟩ := (hxs x hx).id
      simp only [decide_eq_true_eq]
      exact fun heq => (he.unused before (List.mem_of_find?_eq_some hfind) i).1
        (hid.trans (heq.trans hi))
    have hall : ∀ {e : CommitEnv} {xs : List FeedItem}, e.Fresh feed.items →
        (∀ x ∈ xs, e.Inserted x) →
        (setAll (feed.items ++ xs) recs' (·.after)).map (·.content) =
          (feed.items.map (·.setBy recs' (·.after))).map (·.content) ++ xs.map (·.content) := by
      intro e xs he hxs
      rw [setAll_eq_map _ hrecords.nodup, List.map_append, hkept he hxs, List.map_append]
    rw [hafter, hafter', hall hfresh hnew, hall hfresh' hnew', hcontent]

end Again

/-- Undone in reverse order, the batches of a session leave the items there were, and the first
is classified and inserted again as it was. -/
theorem undo_in_reverse (nfc sha256 : CodeUnits → CodeUnits) {orig : Feed} {final : Session}
    {events : List ImportEvent} (hids : (orig.items.map (·.id)).Nodup)
    (hrun : run (sessionStep nfc sha256) ⟨orig, []⟩ events = some final)
    (hok : RunMeets (sessionStep nfc sha256) EventOk ⟨orig, []⟩ events)
    (hpost : ∀ b ∈ final.feed.batches, b.id ∈ final.committed → b.postProcessing ≠ .scheduled) :
    ∃ feed', undoAll final.feed final.committed.reverse = .ok feed' ∧ feed'.items = orig.items ∧
      ∀ input env rest env', events = .commit input env :: rest → env'.Fresh feed'.items →
        plan nfc sha256 feed'.items input = plan nfc sha256 orig.items input ∧
        (commitBatch nfc sha256 feed' input env').2 = (commitBatch nfc sha256 orig input env).2 ∧
        (commitBatch nfc sha256 feed' input env').1.items.map (·.content) =
          (commitBatch nfc sha256 orig input env).1.items.map (·.content) := by
  have hinv : SessionInv orig final := run_keeps_of
    (fun s e s' h hcond hstep => sessionInv_step h hcond hstep) hrun hok
    ⟨hids, List.nodup_nil, [], by simp, rfl, by simp, rfl⟩
  obtain ⟨later, hbatches, hcommitted, hlater, hunwinds⟩ := hinv.batches
  have hnodup : (later.map (·.id)).Nodup := hcommitted ▸ hinv.committed
  obtain ⟨feed', hundo, hitems, hmanual⟩ := undoAll_unwinds hunwinds (fun b hb => by
      have hb := List.mem_reverse.mp hb
      refine ⟨?_, (hlater b hb).1, hpost b (hbatches ▸ List.mem_append_right _ hb)
        (hcommitted ▸ List.mem_map_of_mem hb)⟩
      have hnone : orig.batches.find? (fun x => x.id = b.id) = none :=
        List.find?_eq_none.mpr fun o ho => by simpa using (hlater b hb).2 o ho
      rw [hbatches, List.find?_append, hnone, Option.none_or]
      exact find?_of_nodup_map hnodup hb rfl)
    (by rw [List.map_reverse]; exact List.nodup_reverse.mpr hnodup)
  rw [List.map_reverse, hcommitted] at hundo
  refine ⟨feed', hundo, hitems, ?_⟩
  rintro input env rest env' rfl hfresh'
  have hfirst : ∃ s, sessionStep nfc sha256 ⟨orig, []⟩ (.commit input env) = some s ∧
      run (sessionStep nfc sha256) s rest = some final := by
    rw [run_step_cons] at hrun
    exact Option.bind_eq_some_iff.mp hrun
  obtain ⟨s, hs, hrest⟩ := hfirst
  have hkept : final.feed.manual = some (orig.manual.getD env.connectionId) := run_keeps
    (P := fun s => s.feed.manual = some (orig.manual.getD env.connectionId))
    (fun _ _ _ h hstep => sessionStep_manual h hstep) hrest (by
      obtain rfl := Option.some.inj hs
      rfl)
  exact commitBatch_again hitems (by rw [hmanual, hkept, Option.getD_some]) hok.1.1 hfresh'

/-- An item with a bank id, as a feed has it. -/
def feeItem : FeedItem where
  id := units "a".toList
  connectionId := units "c".toList
  fitid := some (units "F1".toList)
  date := ⟨2026, 4, 15⟩
  amount := 9 / 2
  description := "bank fee".toList
  checkNumber := none
  status := "pending"
  createdAt := units "2026-04-20".toList
  dedupeKey := none
  rowKey := none
  assigned := false
  matched := false
  importBatchId := none
  sourceLine := none
  possibleDuplicateOf := none

/-- The item with another amount, to replace it, and a new row. -/
def feeInput : BatchInput where
  bounds := ⟨none, none⟩
  rows := [
    { line := 1, date := ⟨2026, 4, 16⟩, amount := 5, description := units "Bank fee".toList,
      fitid := some (units "F1".toList), changedAction := some .replace },
    { line := 2, date := ⟨2026, 4, 17⟩, amount := 20, description := units "Rent".toList,
      fitid := some (units "F2".toList) }]

def feeEnv : CommitEnv where
  batchId := units "b".toList
  connectionId := units "d".toList
  now := units "2026-04-21".toList
  itemId := fun i => [0, i]

def feeFeed : Feed := ⟨some (units "c".toList), [feeItem], []⟩

/-- The new row with another amount in the next batch. -/
def rentInput : BatchInput where
  bounds := ⟨none, none⟩
  rows := [
    { line := 1, date := ⟨2026, 4, 17⟩, amount := 25, description := units "Rent".toList,
      fitid := some (units "F2".toList), changedAction := some .replace }]

def rentEnv : CommitEnv where
  batchId := units "e".toList
  connectionId := units "d".toList
  now := units "2026-04-22".toList
  itemId := fun i => [1, i]

def checkSeven (it : FeedItem) : FeedItem := { it with checkNumber := some 7 }

def feeEvents : List ImportEvent :=
  [.commit feeInput feeEnv, .post feeEnv.batchId checkSeven false, .commit rentInput rentEnv]

/-- The items after the first batch, processed. -/
def processedFeed : Feed :=
  postProcess (commitBatch id id feeFeed feeInput feeEnv).1 feeEnv.batchId checkSeven false

theorem feeEnv_fresh : feeEnv.Fresh feeFeed.items := by
  have hid : feeItem.id = [97] := by decide
  exact ⟨fun i j h => by simpa [feeEnv] using h, fun it hit i => by
    obtain rfl := List.mem_singleton.mp hit
    exact ⟨by simp [hid, feeEnv], nofun⟩, by simp [feeFeed, feeItem]⟩

theorem rentEnv_fresh : rentEnv.Fresh processedFeed.items := by
  have hids : ∀ it ∈ processedFeed.items, it.id.head? ≠ some 1 ∧
      it.possibleDuplicateOf = none ∧ it.importBatchId ≠ some rentEnv.batchId := by decide +kernel
  refine ⟨fun i j h => by simpa [rentEnv] using h, fun it hit i => ⟨fun h => ?_, ?_⟩, fun it hit =>
    (hids it hit).2.2⟩
  · exact (hids it hit).1 (by rw [h]; rfl)
  · rw [(hids it hit).2.1]
    exact nofun

/-- A batch replaces the item and inserts another, which the next batch replaces, and all is taken
back. -/
theorem undo_in_reverse_fee :
    (commitBatch id id feeFeed feeInput feeEnv).2.map (fun r => (r.inserted, r.replaced)) =
        [(false, some true), (true, none)] ∧
      (commitBatch id id processedFeed rentInput rentEnv).2.map
        (fun r => (r.inserted, r.replaced)) = [(false, some true)] ∧
      ∃ final, run (sessionStep id id) ⟨feeFeed, []⟩ feeEvents = some final ∧
        final.feed.items.map (·.amount) = [5, 25] ∧
        ∃ feed', undoAll final.feed final.committed.reverse = .ok feed' ∧
          feed'.items = [feeItem] := by
  refine ⟨by decide +kernel, by decide +kernel, _, rfl, by decide +kernel, ?_⟩
  have hkeeps : KeepsItem checkSeven := ⟨fun _ => rfl, fun _ => rfl, fun _ => rfl, fun _ h => h⟩
  obtain ⟨feed', hundo, hitems, -⟩ := @undo_in_reverse id id feeFeed _ feeEvents
    (List.nodup_singleton _) rfl
    ⟨⟨feeEnv_fresh, by simp [feeFeed]⟩, fun _ hs => by
      obtain rfl := Option.some.inj hs
      refine ⟨⟨List.mem_singleton_self _, hkeeps⟩, fun _ hs => ?_⟩
      obtain rfl := Option.some.inj hs
      exact ⟨⟨rentEnv_fresh, by decide +kernel⟩, fun _ _ => trivial⟩⟩
    (by decide +kernel)
  exact ⟨feed', hundo, hitems⟩

end MyBooks.ImportRows
