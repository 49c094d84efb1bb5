import MyBooks.DerivedLines
import MyBooks.Tally

/-!
# What reconciling leaves

The derived lines of a row on its document are always lines that `desiredLines` once gave
(`Derivable`): reconciling a row leaves its wanted lines (`reconciled_group`), and the lines of
every other row as they are (`other_group`).
-/

namespace MyBooks

/-- The stock row a derived line comes from; a document's own lines and reversals have none. -/
def rowOf (links : Links) (l : JournalLine) : Option Id :=
  if l.derived ∧ ¬l.isVoidReversal then (links l.id).map (·.movementId) else none

/-- Document `t`'s lines of the row `k`. -/
def groupOf (b : Books) (links : Links) (t k : Id) : List JournalLine :=
  (b.linesOf t).filter fun l => rowOf links l = some k

/-- The document's other lines. -/
def ownLines (b : Books) (links : Links) (t : Id) : List JournalLine :=
  (b.linesOf t).filter fun l => rowOf links l = none

def gap (ls : List JournalLine) : Dec := (ls.map fun l => l.debit - l.credit).sum

/-- The lines are lines some row gave, accounts and amounts included. -/
def Derivable (links : Links) (ls : List JournalLine) : Prop :=
  ∃ m part counter existingCounter, (ls.map (lineKey links)).Perm
    ((desiredLines m part counter existingCounter).map LineSpec.key)

section Derivable

variable {links : Links} {ls : List JournalLine}

@[simp] theorem gap_nil : gap [] = 0 := rfl

theorem gap_append (ls ls' : List JournalLine) : gap (ls ++ ls') = gap ls + gap ls' := by
  simp [gap]

theorem derivable_nil : Derivable links [] :=
  ⟨⟨"", "", .given, 0, 0, 0, false⟩, ⟨"", ""⟩, "", fun _ => none, by simp [desiredLines, pair]⟩

theorem Derivable.gap_eq (h : Derivable links ls) : gap ls = 0 := by
  obtain ⟨m, part, counter, ec, hperm⟩ := h
  have hsum := (hperm.map fun k => k.2.2.1 - k.2.2.2).sum_eq
  rw [List.map_map, List.map_map] at hsum
  exact hsum.trans desiredLines_net

/-- What has the role among the lines. -/
theorem countP_role (r : DerivedLineRole) (specs : List LineSpec)
    (h : (ls.map (lineKey links)).Perm (specs.map LineSpec.key)) :
    ls.countP (fun l => (links l.id).map (·.role) = some r) = specs.countP (LineSpec.hasRole r) := by
  have hcount := h.countP_eq fun k => decide (k.1 = some r)
  rw [List.countP_map, List.countP_map] at hcount
  refine hcount.trans (List.countP_congr fun x _ => ?_)
  simp [LineSpec.key, LineSpec.hasRole]

end Derivable

section Slots

variable {b : Books} {links : Links} {w : Walked} {m : StockRow}

theorem existingLines_eq : existingLines b links m = groupOf b links m.transactionId m.id := by
  refine List.filter_congr fun l _ => ?_
  unfold rowOf
  by_cases hd : l.derived = true ∧ ¬l.isVoidReversal = true
  · simp [hd]
  · rw [if_neg hd]
    simpa using fun h1 h2 => absurd ⟨h1, by simpa using h2⟩ hd

theorem nodup_of_all_eq {α : Type} {a : α} : ∀ {xs : List α}, xs.Nodup → (∀ x ∈ xs, x = a) →
    xs.length ≤ 1 := by
  intro xs hn hall
  rw [List.eq_replicate_of_mem hall, List.nodup_replicate] at hn
  exact hn

variable {asset counter : Id} {existingCounter : DerivedLineRole → Option Id}
  {role counterRole : DerivedLineRole} {effect : Dec}

theorem pair_role : ∀ x ∈ pair asset existingCounter role counterRole effect counter,
    x.role = role ∨ x.role = counterRole := by
  intro x hx
  unfold pair at hx
  split_ifs at hx <;> simp only [List.mem_cons, List.not_mem_nil, or_false] at hx
  all_goals
    rcases hx with rfl | rfl
    · exact .inl rfl
    · exact .inr rfl

theorem pair_slots (h : role ≠ counterRole ∨ pair asset existingCounter role counterRole effect
    counter = [] ∨ (existingCounter counterRole).getD counter ≠ asset) :
    ((pair asset existingCounter role counterRole effect counter).map fun x => x.key.slot).Nodup := by
  unfold pair at h ⊢
  split_ifs at h ⊢ with h0 hpos
  · simp
  all_goals
    simp only [List.map_cons, List.map_nil, List.nodup_cons, List.mem_singleton, LineSpec.key,
      LineKey.slot, Prod.mk.injEq, Option.some.injEq, List.not_mem_nil, not_false_eq_true,
      List.nodup_nil, and_true, not_and]
    intro hr ha
    rcases h with h | h | h
    · exact h hr
    · cases h
    · exact h ha.symm

theorem pair_mem_slot (h : pair asset existingCounter role counterRole effect counter ≠ []) :
    ∃ x ∈ pair asset existingCounter role counterRole effect counter,
      x.key.slot = (some role, asset) := by
  unfold pair at h ⊢
  split_ifs at h ⊢
  · exact absurd rfl h
  · exact ⟨_, List.mem_cons_self, rfl⟩
  · exact ⟨_, List.mem_cons_self, rfl⟩

/-- One line a slot, where no counter falls on the asset account. -/
theorem desiredLines_slots {part : PartRow}
    (hcorr : pair part.assetAccountId existingCounter .costCorrection .costCorrection m.correction
      part.cogsAccountId = [] ∨
        (existingCounter .costCorrection).getD part.cogsAccountId ≠ part.assetAccountId)
    (hresid : pair part.assetAccountId existingCounter .costResidual .costResidual m.residual
      part.cogsAccountId = [] ∨
        (existingCounter .costResidual).getD part.cogsAccountId ≠ part.assetAccountId) :
    ((desiredLines m part counter existingCounter).map fun x => x.key.slot).Nodup := by
  set relief := if m.valueMode ≠ .given then pair part.assetAccountId existingCounter
    .inventoryRelief .cogs m.value (if counter = "" then part.cogsAccountId else counter) else []
    with hrelief
  have hroles : ∀ x ∈ relief, x.role = .inventoryRelief ∨ x.role = .cogs := by
    intro x hx
    by_cases hv : m.valueMode = .given
    · simp [hrelief, hv] at hx
    · rw [hrelief, if_pos hv] at hx
      exact pair_role x hx
  have hslots : (relief.map fun x => x.key.slot).Nodup := by
    by_cases hv : m.valueMode = .given
    · simp [hrelief, hv]
    · rw [hrelief, if_pos hv]
      exact pair_slots (.inl (by simp))
  have hne : ∀ {x y : LineSpec}, x.role ≠ y.role → x.key.slot ≠ y.key.slot := by
    intro x y hr he
    exact hr (by simpa [LineSpec.key, LineKey.slot] using congrArg Prod.fst he)
  simp only [desiredLines]
  rw [← hrelief, List.map_append, List.map_append, List.nodup_append, List.nodup_append]
  refine ⟨⟨hslots, pair_slots (.inr hcorr), ?_⟩, pair_slots (.inr hresid), ?_⟩
  · intro _ hxs _ hys
    obtain ⟨x, hx, rfl⟩ := List.mem_map.mp hxs
    obtain ⟨y, hy, rfl⟩ := List.mem_map.mp hys
    have hyr : y.role = .costCorrection := (pair_role y hy).elim id id
    refine hne ?_
    rcases hroles x hx with h | h <;> simp [h, hyr]
  · intro _ hxs _ hys
    rw [← List.map_append] at hxs
    obtain ⟨x, hx, rfl⟩ := List.mem_map.mp hxs
    obtain ⟨y, hy, rfl⟩ := List.mem_map.mp hys
    have hyr : y.role = .costResidual := (pair_role y hy).elim id id
    refine hne ?_
    rcases List.mem_append.mp hx with hx | hx
    · rcases hroles x hx with h | h <;> simp [h, hyr]
    · have hxr : x.role = .costCorrection := (pair_role x hx).elim id id
      simp [hxr, hyr]

/-- The stored counter account of a role, as the wanted lines read it. -/
def storedCounter (links : Links) (existing : List JournalLine) (asset : Id)
    (role : DerivedLineRole) : Option Id :=
  (existing.reverse.find? fun l =>
    (links l.id).map (·.role) = some role ∧ l.accountId ≠ asset).map (·.accountId)

theorem wantedLines_eq (b : Books) (links : Links) (w : Walked) (m : StockRow) : ∃ counter, wantedLines b links w m =
    desiredLines m (w.part m.id) counter
      (storedCounter links (existingLines b links m) (w.part m.id).assetAccountId) :=
  ⟨_, rfl⟩

/-- Lines that take new amounts in place have no counter on the asset account: it would share the
slot of its asset line, and the stored lines of the role come in twos. -/
theorem storedCounter_ne {existing : List JournalLine} {want : List LineSpec} {r : DerivedLineRole}
    (hr : r = .costCorrection ∨ r = .costResidual) (hd : Derivable links existing)
    (hp : InPlace links existing want)
    (hsub : ∀ x ∈ pair asset (storedCounter links existing asset) r r effect counter, x ∈ want) :
    pair asset (storedCounter links existing asset) r r effect counter = [] ∨
      (storedCounter links existing asset r).getD counter ≠ asset := by
  by_contra hcon
  rw [not_or, not_not] at hcon
  obtain ⟨hne, hasset⟩ := hcon
  have hall : ∀ l ∈ existing, (links l.id).map (·.role) = some r → l.accountId = asset := by
    rcases hfind : existing.reverse.find? fun l =>
      (links l.id).map (·.role) = some r ∧ l.accountId ≠ asset with _ | l
    · intro l hl hrole
      have := List.find?_eq_none.mp hfind l (List.mem_reverse.mpr hl)
      simp only [hrole, true_and, decide_eq_true_eq, not_not] at this
      exact this
    · have hl := List.find?_some hfind
      simp only [storedCounter, hfind, Option.map_some, Option.getD_some] at hasset
      simp [hasset] at hl
  obtain ⟨x, hx, hslot⟩ := pair_mem_slot hne
  obtain ⟨l, hl, hls⟩ := List.mem_map.mp (hp.2.2 x (hsub x hx))
  rw [hslot] at hls
  have hlr : (links l.id).map (·.role) = some r := congrArg Prod.fst hls
  obtain ⟨m', part', counter', ec', hperm⟩ := hd
  have hcount := countP_role r _ hperm
  have hpos : 0 < existing.countP fun l => (links l.id).map (·.role) = some r :=
    List.countP_pos_iff.mpr ⟨l, hl, by simpa using hlr⟩
  have hone : (existing.filter fun l => (links l.id).map (·.role) = some r).length ≤ 1 := by
    have hn : ((existing.filter fun l => (links l.id).map (·.role) = some r).map
        fun l => (lineKey links l).slot).Nodup := hp.1.sublist (List.filter_sublist.map _)
    rw [← List.length_map (f := fun l => (lineKey links l).slot)]
    refine nodup_of_all_eq (a := (some r, asset)) hn fun s hs => ?_
    obtain ⟨l', hl', rfl⟩ := List.mem_map.mp hs
    obtain ⟨hl', hr'⟩ := List.mem_filter.mp hl'
    have hr' : (links l'.id).map (·.role) = some r := by simpa using hr'
    exact Prod.ext hr' (hall l' hl' hr')
  rw [← List.countP_eq_length_filter] at hone
  have htwo : (desiredLines m' part' counter' ec').countP (LineSpec.hasRole r) = 0 ∨
      (desiredLines m' part' counter' ec').countP (LineSpec.hasRole r) = 2 := desiredLines_countP hr
  omega

theorem wanted_slots (hd : Derivable links (existingLines b links m))
    (hp : InPlace links (existingLines b links m) (wantedLines b links w m)) :
    ((wantedLines b links w m).map fun x => x.key.slot).Nodup := by
  obtain ⟨counter, heq⟩ := wantedLines_eq b links w m
  rw [heq] at hp ⊢
  refine desiredLines_slots (storedCounter_ne (.inl rfl) hd hp fun x hx => ?_)
    (storedCounter_ne (.inr rfl) hd hp fun x hx => ?_)
  · exact List.mem_append_left _ (List.mem_append_right _ hx)
  · exact List.mem_append_right _ hx

end Slots

section Pieces

variable {b : Books} {links : Links} {w : Walked} {m : StockRow}

/-- The rows whose lines a rewrite deletes or updates are the row's own. -/
theorem reconcileOne_delete {i : Id} (h : i ∈ (reconcileOne b links w m).delete) :
    ∃ l ∈ existingLines b links m, l.id = i := by
  unfold reconcileOne at h
  dsimp only at h
  split_ifs at h
  · exact absurd h List.not_mem_nil
  · exact absurd h List.not_mem_nil
  · exact List.mem_map.mp h

theorem newAmounts_some {existing : List JournalLine} {x : LineSpec} {u : Id × Dec × Dec}
    (h : newAmounts links existing x = some u) :
    ∃ l ∈ existing, (lineKey links l).slot = x.key.slot ∧ lineKey links l ≠ x.key ∧
      u = (l.id, x.debit, x.credit) := by
  unfold newAmounts at h
  obtain ⟨l, hl, h⟩ := Option.bind_eq_some_iff.mp h
  split_ifs at h with hkey
  exact ⟨l, List.mem_of_find?_eq_some hl, by simpa using List.find?_some hl, hkey,
    (Option.some.inj h).symm⟩

theorem reconcileOne_update {u : Id × Dec × Dec} (h : u ∈ (reconcileOne b links w m).update) :
    InPlace links (existingLines b links m) (wantedLines b links w m) ∧
      ∃ x ∈ wantedLines b links w m, newAmounts links (existingLines b links m) x = some u := by
  unfold reconcileOne at h
  dsimp only at h
  split_ifs at h with h1 h2
  · exact absurd h List.not_mem_nil
  · exact ⟨h2, List.mem_filterMap.mp h⟩
  · exact absurd h List.not_mem_nil

theorem reconcileOne_insert {p : JournalLine × DerivedLink}
    (h : p ∈ (reconcileOne b links w m).insert) :
    ∃ x i, p = (newLine w m x i, ⟨m.id, x.role⟩) := by
  unfold reconcileOne at h
  dsimp only at h
  split_ifs at h
  · exact absurd h List.not_mem_nil
  · exact absurd h List.not_mem_nil
  · obtain ⟨i, hi, rfl⟩ := List.mem_mapIdx.mp h
    exact ⟨_, _, rfl⟩

end Pieces

section FlatMap

variable {α β : Type} {f : α → List β}

/-- Where one element gives anything, the rest does not count. -/
theorem flatMap_of_unique : ∀ {xs : List α} {x : α}, xs.Nodup → x ∈ xs →
    (∀ y ∈ xs, y ≠ x → f y = []) → xs.flatMap f = f x
  | y :: xs, x, hn, hx, hf => by
    obtain ⟨hy, hn⟩ := List.nodup_cons.mp hn
    rw [List.flatMap_cons]
    rcases List.mem_cons.mp hx with rfl | hx
    · have hrest : xs.flatMap f = [] := by
        refine List.flatMap_eq_nil_iff.mpr fun z hz => hf z (List.mem_cons_of_mem _ hz) ?_
        rintro rfl
        exact hy hz
      rw [hrest, List.append_nil]
    · have hhead : f y = [] := hf y List.mem_cons_self (by rintro rfl; exact hy hx)
      rw [hhead, List.nil_append]
      exact flatMap_of_unique hn hx fun z hz => hf z (List.mem_cons_of_mem _ hz)

/-- The only element that passes is the one found. -/
theorem find?_of_unique {xs : List α} {p : α → Bool} {x : α} (hx : x ∈ xs) (hp : p x = true)
    (huniq : ∀ y ∈ xs, p y = true → y = x) : xs.find? p = some x := by
  rcases h : xs.find? p with _ | y
  · exact absurd hp (List.find?_eq_none.mp h x hx)
  · rw [huniq y (List.mem_of_find?_eq_some h) (List.find?_some h)]

end FlatMap

/-- The rows `live`, of posted documents, are reconciled on the books `b`. -/
structure Reconciles (b b' : Books) (links : Links) (w : Walked) (live : List StockRow) : Prop where
  rows : b.Rows
  ids : (live.map (·.id)).Nodup
  posted : ∀ m ∈ live, b.isPosted m.transactionId = true
  ok : applyCosting b (reconcileLines b links w live) = .ok b'

namespace Reconciles

variable {b b' : Books} {links : Links} {w : Walked} {live : List StockRow} {m : StockRow}

theorem mem_insertedLines {p : JournalLine × DerivedLink} (h : p ∈ insertedLines b links w live) :
    ∃ m ∈ live, ∃ x i, p = (newLine w m x i, ⟨m.id, x.role⟩) := by
  obtain ⟨m, hm, hp⟩ := List.mem_flatMap.mp h
  exact ⟨m, hm, reconcileOne_insert hp⟩

/-- The line as it is stored. -/
def storedLine (l : JournalLine) : JournalLine :=
  { l with debit := round4 l.debit, credit := round4 l.credit }

theorem inserted_eq (hr : Reconciles b b' links w live) :
    (reconcileLines b links w live).inserted b =
      (insertedLines b links w live).map fun p => storedLine p.1 := by
  have hall : ((insertedLines b links w live).map (·.1)).filter b.rewrites =
      (insertedLines b links w live).map (·.1) := by
    refine List.filter_eq_self.mpr fun l hl => ?_
    obtain ⟨p, hp, rfl⟩ := List.mem_map.mp hl
    obtain ⟨m, hm, x, i, rfl⟩ := mem_insertedLines hp
    simpa [Books.rewrites, newLine] using hr.posted m hm
  show ((((insertedLines b links w live).map (·.1)).filter b.rewrites).map _) = _
  rw [hall, List.map_map]
  rfl

theorem insertedIds (hr : Reconciles b b' links w live) :
    ((insertedLines b links w live).map (·.1.id)).Nodup ∧
      ∀ p ∈ insertedLines b links w live, ∀ l ∈ b.lines, l.id ≠ p.1.id := by
  obtain ⟨hkeys, hfresh, -⟩ := Books.insertable_iff.mp (applyCosting_ok hr.ok).1
  rw [hr.inserted_eq] at hkeys hfresh
  rw [List.map_map] at hkeys
  exact ⟨hkeys, fun p hp => hfresh (storedLine p.1) (List.mem_map.mpr ⟨p, hp, rfl⟩)⟩

theorem newLinks_old (hr : Reconciles b b' links w live) {l : JournalLine} (hl : l ∈ b.lines) :
    newLinks b links w live l.id = links l.id := by
  have hnone : (insertedLines b links w live).find? (fun p => p.1.id = l.id) = none := by
    refine List.find?_eq_none.mpr fun p hp hid => hr.insertedIds.2 p hp l hl ?_
    simpa using (of_decide_eq_true hid).symm
  simp only [newLinks, hnone]

theorem newLinks_new (hr : Reconciles b b' links w live) {p : JournalLine × DerivedLink}
    (hp : p ∈ insertedLines b links w live) :
    newLinks b links w live p.1.id = some p.2 := by
  have hfind : (insertedLines b links w live).find? (fun q => q.1.id = p.1.id) = some p :=
    find?_of_unique hp (by simp) fun q hq hid =>
      List.inj_on_of_nodup_map hr.insertedIds.1 hq hp (by simpa using hid)
  simp only [newLinks, hfind]

theorem row_unique (hr : Reconciles b b' links w live) {m' : StockRow} (hm : m ∈ live)
    (hm' : m' ∈ live) (hid : m.id = m'.id) : m = m' :=
  List.inj_on_of_nodup_map hr.ids hm hm' hid

/-- A line of the row is one that only this row rewrites. -/
theorem owner (hr : Reconciles b b' links w live) {m' : StockRow} {l l' : JournalLine}
    (hm : m ∈ live) (hm' : m' ∈ live) (hl : l ∈ existingLines b links m)
    (hl' : l' ∈ existingLines b links m') (hid : l'.id = l.id) : m' = m ∧ l' = l := by
  rw [existingLines_eq] at hl hl'
  obtain ⟨hl, hg⟩ := List.mem_filter.mp hl
  obtain ⟨hl', hg'⟩ := List.mem_filter.mp hl'
  have heq : l' = l := List.inj_on_of_nodup_map hr.rows.ids (Books.mem_linesOf.mp hl').1
    (Books.mem_linesOf.mp hl).1 hid
  subst heq
  have hrow : some m'.id = some m.id := (of_decide_eq_true hg').symm.trans (of_decide_eq_true hg)
  exact ⟨hr.row_unique hm' hm (Option.some.inj hrow), rfl⟩

theorem rewrites (hr : Reconciles b b' links w live) (hm : m ∈ live) {l : JournalLine}
    (hl : l ∈ existingLines b links m) : b.rewrites l = true := by
  obtain ⟨hl, hg⟩ := List.mem_filter.mp hl
  simp only [decide_eq_true_eq] at hg
  have hp := hr.posted m hm
  rw [← (Books.mem_linesOf.mp hl).2] at hp
  simp [Books.rewrites, hg.1, hg.2.1, hp]

theorem deletes_iff (hr : Reconciles b b' links w live) (hm : m ∈ live) {l : JournalLine}
    (hl : l ∈ existingLines b links m) :
    (reconcileLines b links w live).deletes b l = true ↔
      l.id ∈ (reconcileOne b links w m).delete := by
  have hmem : l.id ∈ (reconcileLines b links w live).delete ↔
      l.id ∈ (reconcileOne b links w m).delete := by
    constructor
    · intro h
      obtain ⟨m', hm', hd⟩ := List.mem_flatMap.mp h
      obtain ⟨l', hl', hid⟩ := reconcileOne_delete hd
      rwa [(hr.owner hm hm' hl hl' hid).1] at hd
    · exact fun h => List.mem_flatMap.mpr ⟨m, hm, h⟩
  simp [Costing.deletes, hr.rewrites hm hl, hmem]

/-- What is not a line of a reconciled row stays. -/
theorem untouched (hr : Reconciles b b' links w live) {l : JournalLine} (hl : l ∈ b.lines)
    (hno : ∀ m ∈ live, l ∉ existingLines b links m) :
    (reconcileLines b links w live).deletes b l = false ∧
      (reconcileLines b links w live).rewritten b l = l := by
  have hsame : ∀ m ∈ live, ∀ l' ∈ existingLines b links m, l'.id ≠ l.id := by
    intro m hm l' hl' hid
    have := List.inj_on_of_nodup_map hr.rows.ids
      (Books.mem_linesOf.mp (List.mem_of_mem_filter hl')).1 hl hid
    exact hno m hm (this ▸ hl')
  have hdel : l.id ∉ (reconcileLines b links w live).delete := by
    intro h
    obtain ⟨m, hm, hd⟩ := List.mem_flatMap.mp h
    obtain ⟨l', hl', hid⟩ := reconcileOne_delete hd
    exact hsame m hm l' hl' hid
  have hupd : (reconcileLines b links w live).update.find? (fun u => u.1 = l.id) = none := by
    refine List.find?_eq_none.mpr fun u hu hid => ?_
    obtain ⟨m, hm, hu⟩ := List.mem_flatMap.mp hu
    obtain ⟨-, x, -, hx⟩ := reconcileOne_update hu
    obtain ⟨l', hl', -, -, rfl⟩ := newAmounts_some hx
    exact hsame m hm l' hl' (of_decide_eq_true hid)
  exact ⟨by simp [Costing.deletes, hdel], by simp [Costing.rewritten, Costing.amounts, hupd]⟩

section Groups

variable {t k : Id}

theorem rowOf_rewritten (hr : Reconciles b b' links w live) {l : JournalLine} (hl : l ∈ b.lines) :
    rowOf (newLinks b links w live) ((reconcileLines b links w live).rewritten b l) =
      rowOf links l := by
  have hfields : ((reconcileLines b links w live).rewritten b l).derived = l.derived := by
    unfold Costing.rewritten
    split <;> rfl
  obtain ⟨hid, -, -, hrev⟩ := rewritten_row (b := b) (c := reconcileLines b links w live) l
  rw [rowOf, rowOf, hfields, hid, hrev, hr.newLinks_old hl]

theorem linesOf_after (hr : Reconciles b b' links w live) : b'.linesOf t =
    ((b.linesOf t).filter fun l => ¬(reconcileLines b links w live).deletes b l).map
        ((reconcileLines b links w live).rewritten b) ++
      ((insertedLines b links w live).filter fun p => p.1.transactionId = t).map
        fun p => storedLine p.1 := by
  obtain ⟨-, -, -, -, hlines, -⟩ := applyCosting_ok hr.ok
  have htxn : (fun l : JournalLine => decide (l.transactionId = t)) ∘
      (reconcileLines b links w live).rewritten b = fun l => decide (l.transactionId = t) := by
    funext l
    simp only [Function.comp_apply, (rewritten_row l).2.1]
  rw [Books.linesOf, hlines, hr.inserted_eq, List.filter_append, List.filter_map, htxn,
    List.filter_map, Books.linesOf, List.filter_filter, List.filter_filter]
  congr 2
  refine List.filter_congr fun l _ => ?_
  rw [Bool.and_comm]

/-- The group after is what stays of it, with new amounts, and its new lines. -/
theorem groupOf_after (hr : Reconciles b b' links w live) :
    groupOf b' (newLinks b links w live) t k =
      ((groupOf b links t k).filter fun l => ¬(reconcileLines b links w live).deletes b l).map
          ((reconcileLines b links w live).rewritten b) ++
        ((insertedLines b links w live).filter
          fun p => p.1.transactionId = t ∧ p.2.movementId = k).map fun p => storedLine p.1 := by
  rw [groupOf, hr.linesOf_after, List.filter_append, List.filter_map, List.filter_map,
    List.filter_filter, List.filter_filter]
  refine congrArg₂ (· ++ ·) (congrArg (List.map _) ?_) (congrArg (List.map _) ?_)
  · rw [groupOf, List.filter_filter]
    refine List.filter_congr fun l hl => ?_
    simp only [Function.comp_apply, hr.rowOf_rewritten (Books.mem_linesOf.mp hl).1]
    rw [Bool.and_comm]
  · refine List.filter_congr fun p hp => ?_
    have hrow : rowOf (newLinks b links w live) (storedLine p.1) = some p.2.movementId := by
      obtain ⟨m, hm, x, i, rfl⟩ := mem_insertedLines hp
      have hlink := hr.newLinks_new hp
      simp only [rowOf, storedLine, newLine] at hlink ⊢
      simp [hlink]
    simp only [Function.comp_apply, hrow, Option.some.injEq]
    simp [and_comm]

/-- The document's own lines stay. -/
theorem ownLines_after (hr : Reconciles b b' links w live) :
    ownLines b' (newLinks b links w live) t = ownLines b links t := by
  have hno : ∀ l ∈ ownLines b links t, l ∈ b.lines ∧ ∀ m ∈ live, l ∉ existingLines b links m := by
    intro l hl
    obtain ⟨hlt, hrow⟩ := List.mem_filter.mp hl
    refine ⟨(Books.mem_linesOf.mp hlt).1, fun m _ hlm => ?_⟩
    rw [existingLines_eq] at hlm
    have := of_decide_eq_true (List.mem_filter.mp hlm).2
    rw [of_decide_eq_true hrow] at this
    cases this
  rw [ownLines, hr.linesOf_after, List.filter_append, List.filter_map, List.filter_map,
    List.filter_filter, List.filter_filter]
  have hnew : (insertedLines b links w live).filter (fun p =>
      ((fun l => decide (rowOf (newLinks b links w live) l = none)) ∘ fun p => storedLine p.1) p &&
        decide (p.1.transactionId = t)) = [] := by
    refine List.filter_eq_nil_iff.mpr fun p hp => ?_
    obtain ⟨m, hm, x, i, rfl⟩ := mem_insertedLines hp
    have hlink := hr.newLinks_new hp
    simp only [newLine] at hlink
    simp [rowOf, storedLine, newLine, hlink]
  rw [hnew, List.map_nil, List.append_nil]
  have hkeep : (b.linesOf t).filter (fun l =>
      ((fun l => decide (rowOf (newLinks b links w live) l = none)) ∘
        (reconcileLines b links w live).rewritten b) l &&
          decide ¬(reconcileLines b links w live).deletes b l = true) = ownLines b links t := by
    rw [ownLines]
    refine List.filter_congr fun l hl => ?_
    simp only [Function.comp_apply, hr.rowOf_rewritten (Books.mem_linesOf.mp hl).1]
    by_cases hrow : rowOf links l = none
    · have hdel := (hr.untouched (hno l (List.mem_filter.mpr ⟨hl, by simpa using hrow⟩)).1
        (hno l (List.mem_filter.mpr ⟨hl, by simpa using hrow⟩)).2).1
      simp [hrow, hdel]
    · simp [hrow]
  rw [hkeep]
  conv_rhs => rw [← List.map_id (ownLines b links t)]
  exact List.map_congr_left fun l hl => (hr.untouched (hno l hl).1 (hno l hl).2).2

/-- No row of the group is reconciled: it stays. -/
theorem other_group (hr : Reconciles b b' links w live)
    (hno : ∀ m ∈ live, m.id = k → m.transactionId ≠ t) :
    (groupOf b' (newLinks b links w live) t k).map (lineKey (newLinks b links w live)) =
      (groupOf b links t k).map (lineKey links) := by
  have hmem : ∀ l ∈ groupOf b links t k, l ∈ b.lines ∧ ∀ m ∈ live, l ∉ existingLines b links m := by
    intro l hl
    obtain ⟨hlt, hrow⟩ := List.mem_filter.mp hl
    refine ⟨(Books.mem_linesOf.mp hlt).1, fun m hm hlm => ?_⟩
    rw [existingLines_eq] at hlm
    obtain ⟨hlm, hrow'⟩ := List.mem_filter.mp hlm
    have hid : some m.id = some k := (of_decide_eq_true hrow').symm.trans (of_decide_eq_true hrow)
    exact hno m hm (Option.some.inj hid)
      ((Books.mem_linesOf.mp hlm).2.symm.trans (Books.mem_linesOf.mp hlt).2)
  have hnew : (insertedLines b links w live).filter
      (fun p => p.1.transactionId = t ∧ p.2.movementId = k) = [] := by
    refine List.filter_eq_nil_iff.mpr fun p hp hpk => ?_
    obtain ⟨m, hm, x, i, rfl⟩ := mem_insertedLines hp
    have hpk : m.transactionId = t ∧ m.id = k := of_decide_eq_true hpk
    exact hno m hm hpk.2 hpk.1
  have hkeep : (groupOf b links t k).filter
      (fun l => ¬(reconcileLines b links w live).deletes b l) = groupOf b links t k :=
    List.filter_eq_self.mpr fun l hl => by
      simp [(hr.untouched (hmem l hl).1 (hmem l hl).2).1]
  rw [hr.groupOf_after, hnew, List.map_nil, List.append_nil, hkeep, List.map_map]
  refine List.map_congr_left fun l hl => ?_
  rw [Function.comp_apply, (hr.untouched (hmem l hl).1 (hmem l hl).2).2, lineKey, lineKey,
    hr.newLinks_old (hmem l hl).1]

end Groups

/-- The new lines of the row's group are those of the row. -/
theorem inserted_group (hr : Reconciles b b' links w live) (hm : m ∈ live) :
    ((insertedLines b links w live).filter
      fun p => p.1.transactionId = m.transactionId ∧ p.2.movementId = m.id) =
        (reconcileOne b links w m).insert := by
  rw [insertedLines, List.filter_flatMap, flatMap_of_unique hr.ids.of_map hm]
  · refine List.filter_eq_self.mpr fun p hp => ?_
    obtain ⟨x, i, rfl⟩ := reconcileOne_insert hp
    simp [newLine]
  · intro m' hm' hne
    refine List.filter_eq_nil_iff.mpr fun p hp hpk => hne ?_
    obtain ⟨x, i, rfl⟩ := reconcileOne_insert hp
    exact hr.row_unique hm' hm (of_decide_eq_true hpk).2

theorem storedLine_eq {l : JournalLine} (hl : Places 4 l.debit ∧ Places 4 l.credit) :
    storedLine l = l := by
  simp only [storedLine, round4, toPlaces_of_places hl.1, toPlaces_of_places hl.2]

theorem wanted_places : ∀ x ∈ wantedLines b links w m, Places 4 x.debit ∧ Places 4 x.credit := by
  obtain ⟨counter, heq⟩ := wantedLines_eq b links w m
  rw [heq]
  exact desiredLines_places

/-- A line in place gets the key of the wanted line in its slot. -/
theorem rewritten_key (hr : Reconciles b b' links w live) (hm : m ∈ live)
    (hd : Derivable links (existingLines b links m))
    (hupd : (reconcileOne b links w m).update =
      (wantedLines b links w m).filterMap (newAmounts links (existingLines b links m)))
    (hdel : (reconcileOne b links w m).delete = [])
    (hp : InPlace links (existingLines b links m) (wantedLines b links w m)) {l : JournalLine}
    (hl : l ∈ existingLines b links m) {x : LineSpec} (hx : x ∈ wantedLines b links w m)
    (hslot : x.key.slot = (lineKey links l).slot) :
    lineKey (newLinks b links w live) ((reconcileLines b links w live).rewritten b l) = x.key := by
  have hlb : l ∈ b.lines := (Books.mem_linesOf.mp (List.mem_of_mem_filter hl)).1
  obtain ⟨hid, -, hacc, -⟩ := rewritten_row (b := b) (c := reconcileLines b links w live) l
  have hnodel : l.id ∉ (reconcileLines b links w live).delete := by
    intro h
    have := (hr.deletes_iff hm hl).mp (by simp [Costing.deletes, hr.rewrites hm hl, h])
    rw [hdel] at this
    exact absurd this List.not_mem_nil
  -- the updates of this line are those of the wanted line in its slot
  have honly : ∀ u ∈ (reconcileLines b links w live).update, u.1 = l.id →
      lineKey links l ≠ x.key ∧ u = (l.id, x.debit, x.credit) := by
    intro u hu hul
    obtain ⟨m', hm', hu⟩ := List.mem_flatMap.mp hu
    obtain ⟨-, x', hx', hnew⟩ := reconcileOne_update hu
    obtain ⟨l', hl', hslot', hkey, rfl⟩ := newAmounts_some hnew
    obtain ⟨rfl, rfl⟩ := hr.owner hm hm' hl hl' hul
    have hxx : x' = x := List.inj_on_of_nodup_map (wanted_slots hd hp) hx' hx
      (hslot'.symm.trans hslot.symm)
    subst hxx
    exact ⟨hkey, rfl⟩
  have hrole : (x.key.1, x.key.2.1) = (lineKey links l).slot := hslot
  by_cases hkey : lineKey links l = x.key
  · have hnone : (reconcileLines b links w live).update.find? (fun u => u.1 = l.id) = none :=
      List.find?_eq_none.mpr fun u hu hul => (honly u hu (of_decide_eq_true hul)).1 hkey
    have hsame : (reconcileLines b links w live).rewritten b l = l := by
      simp [Costing.rewritten, Costing.amounts, hnone]
    rw [hsame, lineKey, hr.newLinks_old hlb]
    exact hkey
  · have hfind : (existingLines b links m).find? (fun l' => (lineKey links l').slot = x.key.slot) =
        some l :=
      find?_of_unique hl (by simpa using hslot.symm) fun l' hl' hs =>
        List.inj_on_of_nodup_map hp.1 hl' hl ((of_decide_eq_true hs).trans hslot)
    have hmem : (l.id, x.debit, x.credit) ∈ (reconcileLines b links w live).update := by
      refine List.mem_flatMap.mpr ⟨m, hm, ?_⟩
      rw [hupd]
      exact List.mem_filterMap.mpr ⟨x, hx, by simp [newAmounts, hfind, hkey]⟩
    have hsome : (reconcileLines b links w live).update.find? (fun u => u.1 = l.id) =
        some (l.id, x.debit, x.credit) :=
      find?_of_unique hmem (by simp) fun u hu hul => (honly u hu (of_decide_eq_true hul)).2
    have hamounts : (reconcileLines b links w live).rewritten b l =
        { l with debit := round4 x.debit, credit := round4 x.credit } := by
      simp [Costing.rewritten, Costing.amounts, hr.rewrites hm hl, hnodel, hsome]
    obtain ⟨hxd, hxc⟩ := wanted_places x hx
    rw [hamounts, lineKey, round4, round4, toPlaces_of_places hxd, toPlaces_of_places hxc]
    simp only [hr.newLinks_old hlb]
    exact Prod.ext (congrArg Prod.fst hrole).symm
      (Prod.ext (congrArg Prod.snd hrole).symm rfl)

/-- A row that nothing is deleted from keeps the lines it has. -/
theorem undeleted (hr : Reconciles b b' links w live) (hm : m ∈ live)
    (hdel : (reconcileOne b links w m).delete = []) :
    (existingLines b links m).filter
      (fun l => ¬(reconcileLines b links w live).deletes b l) = existingLines b links m := by
  refine List.filter_eq_self.mpr fun l hl => ?_
  have : ¬(reconcileLines b links w live).deletes b l = true := by
    rw [hr.deletes_iff hm hl, hdel]
    exact List.not_mem_nil
  simpa using this

/-- Each line of a row without updates keeps its amounts. -/
theorem unwritten (hr : Reconciles b b' links w live) (hm : m ∈ live)
    (hupd : (reconcileOne b links w m).update = []) {l : JournalLine}
    (hl : l ∈ existingLines b links m) : (reconcileLines b links w live).rewritten b l = l := by
  have hnone : (reconcileLines b links w live).update.find? (fun u => u.1 = l.id) = none := by
    refine List.find?_eq_none.mpr fun u hu hul => ?_
    obtain ⟨m', hm', hu⟩ := List.mem_flatMap.mp hu
    obtain ⟨-, x', -, hnew⟩ := reconcileOne_update hu
    obtain ⟨l', hl', -, -, rfl⟩ := newAmounts_some hnew
    obtain ⟨rfl, -⟩ := hr.owner hm hm' hl hl' (of_decide_eq_true hul)
    rw [hupd] at hu
    exact absurd hu List.not_mem_nil
  simp [Costing.rewritten, Costing.amounts, hnone]

/-- The lines in place have the keys of the wanted ones, slot by slot. -/
theorem inPlace_keys (hr : Reconciles b b' links w live) (hm : m ∈ live)
    (hd : Derivable links (existingLines b links m))
    (hupd : (reconcileOne b links w m).update =
      (wantedLines b links w m).filterMap (newAmounts links (existingLines b links m)))
    (hdel : (reconcileOne b links w m).delete = [])
    (hp : InPlace links (existingLines b links m) (wantedLines b links w m)) :
    ((existingLines b links m).map (lineKey (newLinks b links w live) ∘
      (reconcileLines b links w live).rewritten b)).Perm
      ((wantedLines b links w m).map LineSpec.key) := by
  have hslots : ((existingLines b links m).map fun l => (lineKey links l).slot).Perm
      ((wantedLines b links w m).map fun x => x.key.slot) := by
    refine (List.Subperm.perm_of_length_le
      ((wanted_slots hd hp).subperm fun s hs => ?_) ?_).symm
    · obtain ⟨x, hx, rfl⟩ := List.mem_map.mp hs
      exact hp.2.2 x hx
    · simp [hp.2.1]
  -- the key that each slot is wanted to have
  let keyAt (s : Option DerivedLineRole × Id) : LineKey :=
    (((wantedLines b links w m).find? fun x => x.key.slot = s).map LineSpec.key).getD (s.1, s.2, 0, 0)
  have hkeyAt : ∀ x ∈ wantedLines b links w m, keyAt x.key.slot = x.key := by
    intro x hx
    have : (wantedLines b links w m).find? (fun y => y.key.slot = x.key.slot) = some x :=
      find?_of_unique hx (by simp) fun y hy hs =>
        List.inj_on_of_nodup_map (wanted_slots hd hp) hy hx (of_decide_eq_true hs)
    simp only [keyAt, this, Option.map_some, Option.getD_some]
  have hlines : (existingLines b links m).map (lineKey (newLinks b links w live) ∘
      (reconcileLines b links w live).rewritten b) =
      ((existingLines b links m).map fun l => (lineKey links l).slot).map keyAt := by
    rw [List.map_map]
    refine List.map_congr_left fun l hl => ?_
    obtain ⟨x, hx, hslot⟩ := List.mem_map.mp (hslots.mem_iff.mp (List.mem_map_of_mem hl))
    have hkey := hr.rewritten_key hm hd hupd hdel hp hl hx hslot
    rw [Function.comp_apply, Function.comp_apply, hkey, ← hslot, hkeyAt x hx]
  rw [hlines]
  refine (hslots.map keyAt).trans (List.Perm.of_eq ?_)
  rw [List.map_map]
  exact List.map_congr_left fun x hx => hkeyAt x hx

/-- The lines written anew have the wanted keys, in order. -/
theorem inserted_keys (hr : Reconciles b b' links w live) (hm : m ∈ live)
    (hins : (reconcileOne b links w m).insert =
      (wantedLines b links w m).mapIdx fun i x => (newLine w m x i, ⟨m.id, x.role⟩)) :
    (reconcileOne b links w m).insert.map
      (lineKey (newLinks b links w live) ∘ fun p => storedLine p.1) =
      (wantedLines b links w m).map LineSpec.key := by
  have hkeys : ∀ p ∈ (reconcileOne b links w m).insert,
      (lineKey (newLinks b links w live) ∘ fun p => storedLine p.1) p =
        (some p.2.role, p.1.accountId, p.1.debit, p.1.credit) := by
    intro p hp
    have hlink := hr.newLinks_new (List.mem_flatMap.mpr ⟨m, hm, hp⟩)
    rw [hins] at hp
    obtain ⟨i, hi, rfl⟩ := List.mem_mapIdx.mp hp
    rw [Function.comp_apply, storedLine_eq (by exact wanted_places _ (List.getElem_mem hi)),
      lineKey, hlink]
    rfl
  rw [List.map_congr_left hkeys, hins]
  refine List.ext_getElem (by simp) fun i h1 h2 => ?_
  simp [newLine, LineSpec.key]

/-- A reconciled row has its wanted lines. -/
theorem reconciled_group (hr : Reconciles b b' links w live) (hm : m ∈ live)
    (hd : Derivable links (existingLines b links m)) :
    ((groupOf b' (newLinks b links w live) m.transactionId m.id).map
      (lineKey (newLinks b links w live))).Perm ((wantedLines b links w m).map LineSpec.key) := by
  rw [hr.groupOf_after, hr.inserted_group hm, ← existingLines_eq, List.map_append, List.map_map,
    List.map_map]
  by_cases hsame : ((existingLines b links m).map (lineKey links)).Perm
      ((wantedLines b links w m).map LineSpec.key)
  · have hone : reconcileOne b links w m = ⟨[], [], []⟩ := by simp [reconcileOne, hsame]
    rw [hr.undeleted hm (by rw [hone]), hone, List.map_nil, List.append_nil]
    refine List.Perm.trans (List.Perm.of_eq (List.map_congr_left fun l hl => ?_)) hsame
    have hlb : l ∈ b.lines := (Books.mem_linesOf.mp (List.mem_of_mem_filter hl)).1
    rw [Function.comp_apply, hr.unwritten hm (by rw [hone]) hl, lineKey, lineKey,
      hr.newLinks_old hlb]
  by_cases hp : InPlace links (existingLines b links m) (wantedLines b links w m)
  · have hone : reconcileOne b links w m = ⟨[], (wantedLines b links w m).filterMap
        (newAmounts links (existingLines b links m)), []⟩ := by
      simp [reconcileOne, hsame, hp]
    have hkeys := hr.inPlace_keys hm hd (by rw [hone]) (by rw [hone]) hp
    rw [hr.undeleted hm (by rw [hone]), hone, List.map_nil, List.append_nil]
    exact hkeys
  · have hone : reconcileOne b links w m = ⟨(existingLines b links m).map (·.id), [],
        (wantedLines b links w m).mapIdx fun i x => (newLine w m x i, ⟨m.id, x.role⟩)⟩ := by
      simp [reconcileOne, hsame, hp]
    have hdrop : (existingLines b links m).filter
        (fun l => ¬(reconcileLines b links w live).deletes b l) = [] := by
      refine List.filter_eq_nil_iff.mpr fun l hl => ?_
      have : (reconcileLines b links w live).deletes b l = true := by
        rw [hr.deletes_iff hm hl, hone]
        exact List.mem_map_of_mem hl
      simp [this]
    rw [hdrop, List.map_nil, List.nil_append, hr.inserted_keys hm (by rw [hone])]

theorem groups_after (hr : Reconciles b b' links w live)
    (hd : ∀ t k, Derivable links (groupOf b links t k)) (t k : Id) :
    Derivable (newLinks b links w live) (groupOf b' (newLinks b links w live) t k) := by
  by_cases hm : ∃ m ∈ live, m.id = k ∧ m.transactionId = t
  · obtain ⟨m, hm, rfl, rfl⟩ := hm
    have hgroup := hr.reconciled_group hm (by rw [existingLines_eq]; exact hd _ _)
    obtain ⟨counter, heq⟩ := wantedLines_eq b links w m
    rw [heq] at hgroup
    exact ⟨m, _, counter, _, hgroup⟩
  · have hsame := hr.other_group (t := t) (k := k) fun m hml hid ht => hm ⟨m, hml, hid, ht⟩
    obtain ⟨m, part, counter, ec, hperm⟩ := hd t k
    exact ⟨m, part, counter, ec, by rwa [hsame]⟩

end Reconciles

end MyBooks
