import MyBooks.RowVerdicts

/-!
# Verdicts after a commit

A commit gives the items of changed rows the values of these and adds new items (`Committed`). Seen
again, a row that was settled is settled (`verdict_duplicate_again`), no row is found changed that
was not (`verdict_undecided_again`), and a row that was inserted under its key is a duplicate unless
an older item has its key (`verdict_inserted_again`).
-/

namespace MyBooks.ImportRows

open ImportKeys

section Verdict

variable {nfc : CodeUnits → CodeUnits} {fitids : List (Option CodeUnits)}
  {items : List ExistingItem} {ss : List RowState} {s t : RowState} {e : ExistingItem}

theorem heldId_of_other (h : byBank fitids items s = .other e) :
    heldId fitids items s = none := by
  rw [heldId, h]

variable (items) in
theorem byBank_of_fitid {f : CodeUnits} (hf : s.fitid = some f)
    (hcount : fitids.count (some f) ≤ 1) :
    byBank fitids items s = match oldest (fun it => it.fitid = some f) items with
      | none => .trusted f
      | some e => if s.sameAs e then .held e f else .other e := by
  rw [byBank, hf]
  exact if_neg (by omega)

theorem lateVerdict_changed_iff : lateVerdict nfc fitids items ss s = .changed e ↔
    byBank fitids items s = .other e ∧ e.id ∉ takenIds fitids items ss ∧ s.isLike nfc e = true := by
  unfold lateVerdict
  cases byBank fitids items s with
  | other e' =>
    simp only [ByBank.other.injEq]
    split_ifs with hcond
    · simp only [Bool.and_eq_true_iff, Bool.not_eq_true', ← Bool.not_eq_true,
        List.contains_iff_mem] at hcond
      refine ⟨fun h => ?_, fun h => by rw [h.1]⟩
      obtain rfl := Verdict.changed.inj h
      exact ⟨rfl, hcond⟩
    · refine ⟨nofun, fun h => absurd ?_ hcond⟩
      obtain ⟨rfl, hfree, hlike⟩ := h
      simpa [hlike] using hfree
  | _ => simp

theorem lateVerdict_ne_duplicate : lateVerdict nfc fitids items ss s ≠ .duplicate := by
  unfold lateVerdict
  split
  · split_ifs <;> exact nofun
  · exact nofun

theorem verdict_duplicate_iff : verdict nfc fitids items ss s = .duplicate ↔
    (heldId fitids items s).isSome ∨
      ∃ e, rowTwin fitids items s = some e ∧ e.id ∉ heldIds fitids items ss := by
  unfold verdict
  split_ifs with hheld
  · exact ⟨fun _ => .inl hheld, fun _ => rfl⟩
  · rw [or_iff_right hheld]
    cases rowTwin fitids items s with
    | none => simpa using lateVerdict_ne_duplicate
    | some e =>
      simp only [List.contains_iff_mem, Option.some.injEq, exists_eq_left']
      split_ifs with hmem
      · exact ⟨fun h => absurd h lateVerdict_ne_duplicate, fun h => absurd hmem h⟩
      · exact ⟨fun _ => hmem, fun _ => rfl⟩

theorem verdict_changed_iff : verdict nfc fitids items ss s = .changed e ↔
    (∀ e' ∈ rowTwin fitids items s, e'.id ∈ heldIds fitids items ss) ∧
      byBank fitids items s = .other e ∧ e.id ∉ takenIds fitids items ss ∧
        s.isLike nfc e = true := by
  unfold verdict
  split_ifs with hheld
  · refine ⟨nofun, fun h => ?_⟩
    rw [heldId_of_other h.2.1] at hheld
    cases hheld
  · cases rowTwin fitids items s with
    | none => simpa using lateVerdict_changed_iff
    | some e' =>
      simp only [List.contains_iff_mem, Option.mem_some_iff, forall_eq']
      split_ifs with hmem
      · rw [lateVerdict_changed_iff]
        exact ⟨fun h => ⟨hmem, h⟩, fun h => h.2⟩
      · exact ⟨nofun, fun h => absurd h.1 hmem⟩

theorem mem_takenIds_rowTwin (hs : s ∈ ss) (htwin : rowTwin fitids items s = some e) :
    e.id ∈ takenIds fitids items ss :=
  mem_takenIds.mpr (.inr ⟨s, hs, e, htwin, rfl⟩)

theorem rowTwin_untrusted (hheld : heldId fitids items s = none)
    (htrusted : (byBank fitids items s).trustedId = none) :
    rowTwin fitids items s = keyTwin items s := by
  rw [rowTwin, hheld, htrusted]
  simp only [Option.isSome_none, Bool.false_eq_true, if_false]
  cases keyTwin items s with
  | none => rfl
  | some e => simp [otherId, given]

/-- A bank id that occurs once is that of one row. -/
theorem eq_of_bankId (h : ss.Pairwise fun s t => s.fitid = t.fitid → 1 < fitids.count s.fitid)
    (hs : s ∈ ss) (ht : t ∈ ss) {f : CodeUnits} (hf : s.fitid = some f) (hf' : t.fitid = some f)
    (hcount : fitids.count (some f) ≤ 1) : s = t := by
  by_contra hne
  have hsymm : Std.Symm fun a b : RowState => a.fitid = b.fitid → 1 < fitids.count a.fitid :=
    ⟨fun a b hab heq => heq ▸ hab heq.symm⟩
  have := h.forall hs ht hne (hf.trans hf'.symm)
  rw [hf] at this
  omega

/-- No two rows are changed versions of one item. -/
theorem eq_of_changed (h : ss.Pairwise fun s t => s.fitid = t.fitid → 1 < fitids.count s.fitid)
    (hs : s ∈ ss) (ht : t ∈ ss) (hv : verdict nfc fitids items ss s = .changed e)
    (hv' : verdict nfc fitids items ss t = .changed e) : s = t := by
  obtain ⟨f, hf, hcount, hold, -⟩ := byBank_other (verdict_changed_iff.mp hv).2.1
  obtain ⟨g, hg, -, hold', -⟩ := byBank_other (verdict_changed_iff.mp hv').2.1
  have hfe : e.fitid = some f := by simpa using (oldest_some hold).2
  have hge : e.fitid = some g := by simpa using (oldest_some hold').2
  exact eq_of_bankId h hs ht hf (hg.trans (hge.symm.trans hfe)) hcount

end Verdict

/-! ## What a commit leaves of the items -/

/-- An item that a row replaces. -/
def ExistingItem.putValues (e : ExistingItem) (s : RowState) : ExistingItem :=
  { e with
    amount := s.keyed.canonicalAmount
    date := s.row.date
    rowKey := some s.keyed.rowKey }

/-- A new item of a row. -/
structure ExistingItem.NewOf (nfc : CodeUnits → CodeUnits) (fitids : List (Option CodeUnits))
    (items : List ExistingItem) (ss : List RowState) (s : RowState) (x : ExistingItem) : Prop where
  rowKey : x.rowKey = some s.keyed.rowKey
  amount : x.amount = s.keyed.canonicalAmount
  date : x.date = s.row.date
  fitid : verdict nfc fitids items ss s = .undecided ∧
      x.fitid = (byBank fitids items s).trustedId ∨
    x.fitid = none ∧ ∃ e, verdict nfc fitids items ss s = .changed e

/-- The new item of a row. -/
def newItemOf (new : List ExistingItem) (s : RowState) : Option ExistingItem :=
  new.find? fun x => x.rowKey = some s.keyed.rowKey

/-- The items after a commit: `aft` of those there were, and the new ones. -/
structure Committed (nfc : CodeUnits → CodeUnits) (fitids : List (Option CodeUnits))
    (ss : List RowState) (items items' : List ExistingItem) (aft : ExistingItem → ExistingItem)
    (new : List ExistingItem) : Prop where
  keys : (ss.map (·.keyed.rowKey)).Nodup
  given : ∀ s ∈ ss, s.fitid ≠ some []
  bankIds : ss.Pairwise fun s t => s.fitid = t.fitid → 1 < fitids.count s.fitid
  split : items' = items.map aft ++ new
  ids : (items'.map (·.id)).Nodup
  same : ∀ e, (aft e).id = e.id ∧ (aft e).fitid = e.fitid ∧ (aft e).createdAt = e.createdAt
  changed : ∀ e ∈ items, aft e = e ∨
    ∃ s ∈ ss, verdict nfc fitids items ss s = .changed e ∧ aft e = e.putValues s
  added : ∀ x ∈ new, ∃ s ∈ ss, x.NewOf nfc fitids items ss s
  newKeys : (new.map (·.rowKey)).Nodup
  apart : ∀ s ∈ ss, ∀ e, verdict nfc fitids items ss s = .changed e → aft e ≠ e →
    newItemOf new s = none

section Committed

variable {nfc : CodeUnits → CodeUnits} {fitids : List (Option CodeUnits)}
  {items items' new : List ExistingItem} {aft : ExistingItem → ExistingItem} {ss : List RowState}
  {s t : RowState} {e x : ExistingItem}

namespace Committed

theorem age (h : Committed nfc fitids ss items items' aft new) (e : ExistingItem) :
    (aft e).age = e.age := by
  rw [ExistingItem.age, ExistingItem.age, (h.same e).1, (h.same e).2.2]

theorem eq_of_fitid (h : Committed nfc fitids ss items items' aft new) (hs : s ∈ ss) (ht : t ∈ ss)
    {f : CodeUnits} (hf : s.fitid = some f) (hf' : t.fitid = some f)
    (hcount : fitids.count (some f) ≤ 1) : s = t :=
  eq_of_bankId h.bankIds hs ht hf hf' hcount

theorem eq_of_rowKey (h : Committed nfc fitids ss items items' aft new) (hs : s ∈ ss) (ht : t ∈ ss)
    (hkey : s.keyed.rowKey = t.keyed.rowKey) : s = t :=
  List.inj_on_of_nodup_map h.keys hs ht hkey

theorem aft_mem (h : Committed nfc fitids ss items items' aft new) (he : e ∈ items) :
    aft e ∈ items' := by
  rw [h.split]
  exact List.mem_append_left _ (List.mem_map_of_mem he)

theorem new_mem (h : Committed nfc fitids ss items items' aft new) (hx : x ∈ new) : x ∈ items' := by
  rw [h.split]
  exact List.mem_append_right _ hx

theorem mem (h : Committed nfc fitids ss items items' aft new) :
    x ∈ items' ↔ (∃ e ∈ items, aft e = x) ∨ x ∈ new := by
  rw [h.split, List.mem_append, List.mem_map]

/-- New items have ids of their own. -/
theorem new_id (h : Committed nfc fitids ss items items' aft new) (hx : x ∈ new) (he : e ∈ items) :
    e.id ≠ x.id := by
  have hids := h.ids
  rw [h.split, List.map_append] at hids
  refine fun heq => (List.nodup_append.mp hids).2.2 e.id ?_ x.id (List.mem_map_of_mem hx) heq
  rw [List.map_map]
  exact List.mem_map.mpr ⟨e, he, (h.same e).1⟩

theorem eq_of_id (h : Committed nfc fitids ss items items' aft new) {a b : ExistingItem}
    (ha : a ∈ items') (hb : b ∈ items') (hid : a.id = b.id) : a = b :=
  List.inj_on_of_nodup_map h.ids ha hb hid

theorem items_ids (h : Committed nfc fitids ss items items' aft new) :
    (items.map (·.id)).Nodup := by
  have hids := h.ids
  rw [h.split, List.map_append, List.map_map] at hids
  exact List.map_congr_left (fun e _ => (h.same e).1) ▸ (List.nodup_append.mp hids).1

/-- An item that a rule by keys has taken is left as it was. -/
theorem aft_taken (h : Committed nfc fitids ss items items' aft new) (he : e ∈ items)
    (htaken : e.id ∈ takenIds fitids items ss) : aft e = e := by
  rcases h.changed e he with heq | ⟨s, -, hv, -⟩
  · exact heq
  · exact absurd htaken (verdict_changed_iff.mp hv).2.2.1

theorem newItemOf_some (h : Committed nfc fitids ss items items' aft new) (hs : s ∈ ss)
    (hx : newItemOf new s = some x) : x ∈ new ∧ x.NewOf nfc fitids items ss s := by
  have hmem := List.mem_of_find?_eq_some hx
  have hkey : x.rowKey = some s.keyed.rowKey := by simpa using List.find?_some hx
  obtain ⟨t, ht, hnew⟩ := h.added x hmem
  have hst : s = t := h.eq_of_rowKey hs ht (Option.some.inj (hkey.symm.trans hnew.rowKey))
  exact ⟨hmem, hst ▸ hnew⟩

theorem newItemOf_of_mem (h : Committed nfc fitids ss items items' aft new)
    (hx : x ∈ new) (hkey : x.rowKey = some s.keyed.rowKey) : newItemOf new s = some x := by
  cases hfind : newItemOf new s with
  | none => exact absurd hkey (by simpa using List.find?_eq_none.mp hfind x hx)
  | some y =>
    have hy : y.rowKey = some s.keyed.rowKey := by simpa using List.find?_some hfind
    rw [List.inj_on_of_nodup_map h.newKeys (List.mem_of_find?_eq_some hfind) hx
      (hy.trans hkey.symm)]

/-- The oldest with a bank id that an item had is what this has become. -/
theorem oldest_known (h : Committed nfc fitids ss items items' aft new) {f : CodeUnits}
    (hold : oldest (fun it => it.fitid = some f) items = some e) :
    oldest (fun it => it.fitid = some f) items' = some (aft e) := by
  have hleast := isLeastOf_oldest (fun it => it.fitid = some f) items
  rw [hold] at hleast
  obtain ⟨⟨hmem, hfe⟩, hle⟩ := hleast
  refine oldest_eq h.ids ⟨⟨h.aft_mem hmem, by simpa [(h.same e).2.1] using hfe⟩, fun b hb => ?_⟩
  obtain ⟨hb, hfb⟩ := hb
  rcases h.mem.mp hb with ⟨e', he', rfl⟩ | hb
  · rw [h.age, h.age]
    exact hle e' ⟨he', by simpa [(h.same e').2.1] using hfb⟩
  · obtain ⟨t, -, hnew⟩ := h.added b hb
    simp only [decide_eq_true_eq] at hfb
    rcases hnew.fitid with ⟨-, hfit⟩ | ⟨hnone, -⟩
    · cases hb' : byBank fitids items t with
      | trusted g =>
        rw [hfb, hb'] at hfit
        obtain rfl := Option.some.inj hfit
        rw [(byBank_trusted hb').2.2] at hold
        cases hold
      | _ => rw [hfb, hb'] at hfit; cases hfit
    · rw [hfb] at hnone
      cases hnone

/-- A bank id that no item had is that of the new item of its row. -/
theorem oldest_new (h : Committed nfc fitids ss items items' aft new) (hs : s ∈ ss)
    {f : CodeUnits} (hb : byBank fitids items s = .trusted f) :
    oldest (fun it => it.fitid = some f) items' = newItemOf new s := by
  obtain ⟨hf, hcount, hnone⟩ := byBank_trusted hb
  have hnone' : ∀ e ∈ items, e.fitid ≠ some f := fun e he hfe => by
    have hleast := isLeastOf_oldest (fun it => it.fitid = some f) items
    rw [hnone] at hleast
    exact hleast e ⟨he, by simpa using hfe⟩
  have hrow : ∀ b ∈ items', b.fitid = some f → newItemOf new s = some b := by
    intro b hb' hfb
    rcases h.mem.mp hb' with ⟨e', he', rfl⟩ | hb'
    · exact absurd ((h.same e').2.1.symm.trans hfb) (hnone' e' he')
    · obtain ⟨t, ht, hnew⟩ := h.added b hb'
      rcases hnew.fitid with ⟨-, hfit⟩ | ⟨hfit, -⟩
      · have htb : byBank fitids items t = .trusted f := by
          cases htb : byBank fitids items t with
          | trusted g => rw [Option.some.inj (hfb.symm.trans (htb ▸ hfit))]
          | _ => rw [hfb, htb] at hfit; cases hfit
        have hst := h.eq_of_fitid hs ht hf (byBank_trusted htb).1 hcount
        exact h.newItemOf_of_mem hb' (hst ▸ hnew.rowKey)
      · rw [hfb] at hfit
        cases hfit
  refine oldest_eq h.ids ?_
  cases hx : newItemOf new s with
  | none =>
    intro b hb'
    simp only [decide_eq_true_eq] at hb'
    have := hrow b hb'.1 hb'.2
    rw [hx] at this
    cases this
  | some x =>
    obtain ⟨hmem, hnew⟩ := h.newItemOf_some hs hx
    refine ⟨⟨h.new_mem hmem, ?_⟩, fun b hb' => ?_⟩
    · rcases hnew.fitid with ⟨-, hfit⟩ | ⟨-, e, hv⟩
      · rw [hfit, hb]
        simp [ByBank.trustedId]
      · have := (verdict_changed_iff.mp hv).2.1
        rw [hb] at this
        cases this
    · simp only [decide_eq_true_eq] at hb'
      have := hrow b hb'.1 hb'.2
      rw [hx, Option.some.injEq] at this
      rw [this]

/-! ### Bank ids -/

theorem byBank_held_again (h : Committed nfc fitids ss items items' aft new) (hs : s ∈ ss)
    {f : CodeUnits} (hb : byBank fitids items s = .held e f) :
    byBank fitids items' s = .held e f := by
  obtain ⟨hf, hcount, hold, hsame⟩ := byBank_held hb
  have hmem : e.id ∈ takenIds fitids items ss :=
    mem_takenIds.mpr (.inl (mem_heldIds.mpr ⟨s, hs, e, f, hb, rfl⟩))
  have haft := h.aft_taken (oldest_some hold).1 hmem
  rw [byBank_of_fitid _ hf hcount, h.oldest_known hold, haft]
  simp only [hsame, if_true]

/-- A row whose bank id has another amount or date, or had before it replaced this. -/
theorem byBank_other_again (h : Committed nfc fitids ss items items' aft new) (hs : s ∈ ss)
    (hb : byBank fitids items s = .other e) :
    aft e = e ∧ byBank fitids items' s = .other e ∨
      aft e ≠ e ∧ verdict nfc fitids items ss s = .changed e ∧
        ∃ f, byBank fitids items' s = .held (aft e) f := by
  obtain ⟨f, hf, hcount, hold, hsame⟩ := byBank_other hb
  obtain ⟨hmem, hfe⟩ := oldest_some hold
  have hfe : e.fitid = some f := by simpa using hfe
  have hagain := byBank_of_fitid items' hf hcount
  rw [h.oldest_known hold] at hagain
  rcases h.changed e hmem with haft | ⟨t, ht, hv, haft⟩
  · refine .inl ⟨haft, ?_⟩
    rw [hagain, haft]
    simp only [hsame, Bool.false_eq_true, if_false]
  · obtain ⟨g, hg, -, hold', -⟩ := byBank_other (verdict_changed_iff.mp hv).2.1
    have hge : e.fitid = some g := by simpa using (oldest_some hold').2
    have hst : s = t := h.eq_of_fitid hs ht hf (hg.trans (hge.symm.trans hfe)) hcount
    subst hst
    have hsame' : s.sameAs (e.putValues s) = true := by
      simp [RowState.sameAs, ExistingItem.putValues, dayDiff]
    refine .inr ⟨fun heq => ?_, hv, f, ?_⟩
    · rw [← haft, heq, hsame] at hsame'
      cases hsame'
    · rw [hagain, haft]
      simp only [hsame', if_true]

theorem byBank_trusted_again (h : Committed nfc fitids ss items items' aft new) (hs : s ∈ ss)
    {f : CodeUnits} (hb : byBank fitids items s = .trusted f) :
    byBank fitids items' s = match newItemOf new s with
      | some x => .held x f
      | none => .trusted f := by
  obtain ⟨hf, hcount, -⟩ := byBank_trusted hb
  rw [byBank_of_fitid _ hf hcount, h.oldest_new hs hb]
  cases hx : newItemOf new s with
  | none => rfl
  | some x =>
    obtain ⟨-, hnew⟩ := h.newItemOf_some hs hx
    have hsame : s.sameAs x = true := by
      simp [RowState.sameAs, hnew.date, hnew.amount, dayDiff]
    simp only [hsame, if_true]

variable (items') in
theorem byBank_unknown_again (hb : byBank fitids items s = .unknown) :
    byBank fitids items' s = .unknown := by
  unfold byBank at hb ⊢
  split
  · rfl
  · rename_i f hf
    rw [hf] at hb
    simp only [] at hb
    split_ifs at hb ⊢ with hcount
    · rfl
    · split at hb
      · cases hb
      · split_ifs at hb

/-- A row that its bank id does not hold after the commit. -/
theorem open_again (h : Committed nfc fitids ss items items' aft new) (hs : s ∈ ss)
    (hheld : heldId fitids items' s = none) :
    heldId fitids items s = none ∧
      (byBank fitids items' s).trustedId = (byBank fitids items s).trustedId ∧
      (∀ e, byBank fitids items s = .other e → aft e = e ∧ byBank fitids items' s = .other e) ∧
      ((byBank fitids items s).trustedId ≠ none → newItemOf new s = none) := by
  cases hb : byBank fitids items s with
  | held e f =>
    rw [heldId, h.byBank_held_again hs hb] at hheld
    cases hheld
  | other e =>
    rcases h.byBank_other_again hs hb with ⟨haft, hb'⟩ | ⟨-, -, f, hb'⟩
    · refine ⟨heldId_of_other hb, by rw [hb'], fun e' he' => ?_, fun hne => absurd rfl hne⟩
      obtain rfl := ByBank.other.inj he'
      exact ⟨haft, hb'⟩
    · rw [heldId, hb'] at hheld
      cases hheld
  | trusted f =>
    have hb' := h.byBank_trusted_again hs hb
    cases hx : newItemOf new s with
    | none =>
      rw [hx] at hb'
      exact ⟨by rw [heldId, hb], by rw [hb'], by simp, fun _ => rfl⟩
    | some x =>
      rw [hx] at hb'
      rw [heldId, hb'] at hheld
      cases hheld
  | unknown =>
    have hb' := byBank_unknown_again items' hb
    exact ⟨by rw [heldId, hb], by rw [hb'], by simp, fun hne => absurd rfl hne⟩

/-- A row that has replaced nothing and was not inserted is held by its bank id only if it was. -/
theorem heldId_again (h : Committed nfc fitids ss items items' aft new) (hs : s ∈ ss)
    (hheld : heldId fitids items s = none)
    (hkept : ∀ e, verdict nfc fitids items ss s = .changed e → aft e = e)
    (hnew : newItemOf new s = none) : heldId fitids items' s = none := by
  cases hb : byBank fitids items s with
  | held e f =>
    rw [heldId, hb] at hheld
    cases hheld
  | other e =>
    rcases h.byBank_other_again hs hb with ⟨-, hb'⟩ | ⟨hne, hv, -⟩
    · exact heldId_of_other hb'
    · exact absurd (hkept e hv) hne
  | trusted f =>
    have hb' := h.byBank_trusted_again hs hb
    rw [hnew] at hb'
    rw [heldId, hb']
  | unknown => rw [heldId, byBank_unknown_again _ hb]

theorem mem_heldIds_again (h : Committed nfc fitids ss items items' aft new) {id : CodeUnits}
    (hid : id ∈ heldIds fitids items ss) : id ∈ heldIds fitids items' ss := by
  obtain ⟨t, ht, e, f, hb, rfl⟩ := mem_heldIds.mp hid
  exact mem_heldIds.mpr ⟨t, ht, e, f, h.byBank_held_again ht hb, rfl⟩

theorem mem_heldIds_of_again (h : Committed nfc fitids ss items items' aft new) (he : e ∈ items)
    (hid : e.id ∈ heldIds fitids items' ss) : e.id ∈ heldIds fitids items ss ∨ aft e ≠ e := by
  obtain ⟨t, ht, e', f, hb', heq⟩ := mem_heldIds.mp hid
  cases hb : byBank fitids items t with
  | held e₁ f₁ =>
    rw [h.byBank_held_again ht hb] at hb'
    obtain ⟨rfl, rfl⟩ := ByBank.held.inj hb'
    exact .inl (mem_heldIds.mpr ⟨t, ht, e₁, f₁, hb, heq⟩)
  | other e₁ =>
    rcases h.byBank_other_again ht hb with ⟨-, hb₁⟩ | ⟨hne, -, f₁, hb₁⟩
    · rw [hb₁] at hb'
      cases hb'
    · rw [hb₁] at hb'
      obtain ⟨rfl, rfl⟩ := ByBank.held.inj hb'
      obtain ⟨f₂, -, -, hold, -⟩ := byBank_other hb
      have h₁ : e₁ = e := List.inj_on_of_nodup_map h.items_ids (oldest_some hold).1 he
        ((h.same e₁).1.symm.trans heq)
      exact .inr (h₁ ▸ hne)
  | trusted f₁ =>
    have hb₁ := h.byBank_trusted_again ht hb
    cases hx : newItemOf new t with
    | none =>
      rw [hx] at hb₁
      rw [hb₁] at hb'
      cases hb'
    | some x =>
      rw [hx] at hb₁
      rw [hb₁] at hb'
      obtain ⟨rfl, rfl⟩ := ByBank.held.inj hb'
      exact absurd heq.symm (h.new_id (h.newItemOf_some ht hx).1 he)
  | unknown =>
    rw [byBank_unknown_again _ hb] at hb'
    cases hb'

/-! ### Row keys -/

/-- The item of a row's key is the one it was or the row's new item, whichever is older. -/
theorem keyTwin_again (h : Committed nfc fitids ss items items' aft new) (hs : s ∈ ss)
    (hkeep : ∀ e, keyTwin items s = some e → aft e = e)
    (hkept : ∀ e, verdict nfc fitids items ss s = .changed e → aft e = e) :
    keyTwin items' s = better ExistingItem.age (keyTwin items s) (newItemOf new s) := by
  have hfixed : ∀ e ∈ items, (aft e).rowKey = some s.keyed.rowKey → aft e = e := by
    intro e he hkey
    rcases h.changed e he with haft | ⟨t, ht, hv, haft⟩
    · exact haft
    · rw [haft] at hkey
      have hst := h.eq_of_rowKey ht hs (Option.some.inj hkey)
      exact hkept e (hst ▸ hv)
  have hold : IsLeastOf ExistingItem.age
      (fun x => (∃ e ∈ items, aft e = x) ∧ x.rowKey = some s.keyed.rowKey) (keyTwin items s) := by
    have hleast := isLeastOf_oldest (fun it => it.rowKey = some s.keyed.rowKey) items
    rw [← keyTwin] at hleast
    cases htwin : keyTwin items s with
    | none =>
      rw [htwin] at hleast
      rintro x ⟨⟨e, he, rfl⟩, hkey⟩
      exact hleast e ⟨he, by simpa [hfixed e he hkey] using hkey⟩
    | some e =>
      rw [htwin] at hleast
      obtain ⟨⟨hmem, hkey⟩, hle⟩ := hleast
      refine ⟨⟨⟨e, hmem, hkeep e htwin⟩, by simpa using hkey⟩, ?_⟩
      rintro x ⟨⟨e', he', rfl⟩, hkey'⟩
      rw [h.age]
      exact hle e' ⟨he', by simpa [hfixed e' he' hkey'] using hkey'⟩
  have hnew : IsLeastOf ExistingItem.age
      (fun x => x ∈ new ∧ x.rowKey = some s.keyed.rowKey) (newItemOf new s) := by
    cases hx : newItemOf new s with
    | none =>
      intro x hx'
      have := h.newItemOf_of_mem hx'.1 hx'.2
      rw [hx] at this
      cases this
    | some x =>
      obtain ⟨hmem, hnew⟩ := h.newItemOf_some hs hx
      refine ⟨⟨hmem, hnew.rowKey⟩, fun y hy => ?_⟩
      have := h.newItemOf_of_mem hy.1 hy.2
      rw [hx, Option.some.injEq] at this
      rw [this]
  refine oldest_eq h.ids ((hold.better hnew).congr fun x => ?_)
  rw [h.mem, ← or_and_right, decide_eq_true_eq]

/-- The item that a row claimed by its key stays its own. -/
theorem rowTwin_kept (h : Committed nfc fitids ss items items' aft new) (hs : s ∈ ss)
    (hheld : heldId fitids items' s = none) (htwin : rowTwin fitids items s = some e)
    (hnew : newItemOf new s = none) : rowTwin fitids items' s = some e := by
  obtain ⟨-, htrusted, hother, -⟩ := h.open_again hs hheld
  obtain ⟨hkey, hid, -⟩ := rowTwin_some htwin
  have haft := h.aft_taken (oldest_some hkey).1 (mem_takenIds_rowTwin hs htwin)
  rw [rowTwin, hheld, htrusted, h.keyTwin_again hs
    (fun e' he' => by rw [hkey, Option.some.injEq] at he'; exact he' ▸ haft)
    (fun e' he' => (hother e' (verdict_changed_iff.mp he').2.1).1), hkey, hnew]
  simp [better, hid]

/-- A row without a bank id of its own claims the item it did or its new one. -/
theorem rowTwin_untrusted_again (h : Committed nfc fitids ss items items' aft new) (hs : s ∈ ss)
    (hheld : heldId fitids items' s = none)
    (htrusted : (byBank fitids items s).trustedId = none) :
    rowTwin fitids items' s =
      better ExistingItem.age (rowTwin fitids items s) (newItemOf new s) := by
  obtain ⟨hheld₀, htrusted', hother, -⟩ := h.open_again hs hheld
  have htwin := rowTwin_untrusted hheld₀ htrusted
  rw [rowTwin_untrusted hheld (htrusted'.trans htrusted), htwin, h.keyTwin_again hs
    (fun e he => h.aft_taken (oldest_some he).1 (mem_takenIds_rowTwin hs (htwin.trans he)))
    (fun e he => (hother e (verdict_changed_iff.mp he).2.1).1)]

/-! ### Verdicts -/

theorem newItemOf_duplicate (h : Committed nfc fitids ss items items' aft new) (hs : s ∈ ss)
    (hv : verdict nfc fitids items ss s = .duplicate) : newItemOf new s = none := by
  cases hx : newItemOf new s with
  | none => rfl
  | some x =>
    rcases (h.newItemOf_some hs hx).2.fitid with ⟨hv', -⟩ | ⟨-, e, hv'⟩
    · rw [hv] at hv'
      cases hv'
    · rw [hv] at hv'
      cases hv'

/-- An item that a row has by its key and no row by a bank id is this row's again. -/
theorem rowTwin_again (h : Committed nfc fitids ss items items' aft new) (hs : s ∈ ss)
    (htwin : rowTwin fitids items s = some e) (hfree : e.id ∉ heldIds fitids items ss) :
    rowTwin fitids items' s = some e ∧ e.id ∉ heldIds fitids items' ss := by
  have hv : verdict nfc fitids items ss s = .duplicate :=
    verdict_duplicate_iff.mpr (.inr ⟨e, htwin, hfree⟩)
  have hnew := h.newItemOf_duplicate hs hv
  obtain ⟨hkey, -, hheld⟩ := rowTwin_some htwin
  have hheld' := h.heldId_again hs hheld (fun e' he' => by rw [hv] at he'; cases he') hnew
  refine ⟨h.rowTwin_kept hs hheld' htwin hnew, fun hid => ?_⟩
  have hmem := (oldest_some hkey).1
  rcases h.mem_heldIds_of_again hmem hid with hid | hne
  · exact hfree hid
  · exact hne (h.aft_taken hmem (mem_takenIds_rowTwin hs htwin))

theorem verdict_duplicate_again (h : Committed nfc fitids ss items items' aft new) (hs : s ∈ ss)
    (hv : verdict nfc fitids items ss s = .duplicate) :
    verdict nfc fitids items' ss s = .duplicate := by
  refine verdict_duplicate_iff.mpr ((verdict_duplicate_iff.mp hv).imp (fun hheld => ?_) ?_)
  · cases hb : byBank fitids items s with
    | held e f => rw [heldId, h.byBank_held_again hs hb]; rfl
    | _ => rw [heldId, hb] at hheld; cases hheld
  · rintro ⟨e, htwin, hfree⟩
    exact ⟨e, h.rowTwin_again hs htwin hfree⟩

theorem mem_takenIds_again (h : Committed nfc fitids ss items items' aft new) {id : CodeUnits}
    (hid : id ∈ takenIds fitids items ss) : id ∈ takenIds fitids items' ss := by
  refine mem_takenIds.mpr ?_
  by_cases hheld : id ∈ heldIds fitids items ss
  · exact .inl (h.mem_heldIds_again hheld)
  · obtain ⟨t, ht, e, htwin, rfl⟩ := (mem_takenIds.mp hid).resolve_left hheld
    exact .inr ⟨t, ht, e, (h.rowTwin_again ht htwin hheld).1, rfl⟩

/-- A row that is found changed was found changed before, and its item is as it was. -/
theorem verdict_changed_of_again (h : Committed nfc fitids ss items items' aft new) (hs : s ∈ ss)
    (hv : verdict nfc fitids items' ss s = .changed e) :
    verdict nfc fitids items ss s = .changed e ∧ aft e = e ∧ e ∈ items := by
  obtain ⟨htwin, hb', hfree, hlike⟩ := verdict_changed_iff.mp hv
  have hnotDup : verdict nfc fitids items ss s ≠ .duplicate := fun hdup => by
    rw [h.verdict_duplicate_again hs hdup] at hv
    cases hv
  obtain ⟨hheld, htrusted, hother, -⟩ := h.open_again hs (heldId_of_other hb')
  obtain ⟨e₀, hb⟩ : ∃ e₀, byBank fitids items s = .other e₀ := by
    cases hb : byBank fitids items s with
    | held e₀ f => rw [heldId, hb] at hheld; cases hheld
    | other e₀ => exact ⟨e₀, rfl⟩
    | trusted f => rw [hb, hb'] at htrusted; cases htrusted
    | unknown => rw [byBank_unknown_again _ hb] at hb'; cases hb'
  obtain ⟨haft, hb₁⟩ := hother e₀ hb
  obtain rfl := ByBank.other.inj (hb₁.symm.trans hb')
  obtain ⟨f, -, -, hold, -⟩ := byBank_other hb
  refine ⟨verdict_changed_iff.mpr ⟨fun e' he' => ?_, hb,
    fun hid => hfree (h.mem_takenIds_again hid), hlike⟩, haft, (oldest_some hold).1⟩
  by_contra hnot
  exact hnotDup (verdict_duplicate_iff.mpr (.inr ⟨e', he', hnot⟩))

/-- A row that was found changed is found changed again, or a duplicate. -/
theorem verdict_changed_again (h : Committed nfc fitids ss items items' aft new) (hs : s ∈ ss)
    (hv : verdict nfc fitids items ss s = .changed e) :
    verdict nfc fitids items' ss s = .duplicate ∨ verdict nfc fitids items' ss s = .changed e := by
  obtain ⟨-, hb, hfree, hlike⟩ := verdict_changed_iff.mp hv
  obtain ⟨f, hf, -, hold, -⟩ := byBank_other hb
  obtain ⟨hmem, hfe⟩ := oldest_some hold
  have hfe : e.fitid = some f := by simpa using hfe
  rcases h.byBank_other_again hs hb with ⟨haft, hb'⟩ | ⟨-, -, g, hb'⟩
  · have hheldIds : e.id ∉ heldIds fitids items' ss := fun hid =>
      (h.mem_heldIds_of_again hmem hid).elim
        (fun hid => hfree (mem_takenIds.mpr (.inl hid))) fun hne => hne haft
    have hfree' : e.id ∉ takenIds fitids items' ss := by
      intro hid
      obtain ⟨t, ht, e', htwin, hid⟩ := (mem_takenIds.mp hid).resolve_left hheldIds
      obtain ⟨hkey, hother, hheld⟩ := rowTwin_some htwin
      obtain rfl : e' = e :=
        h.eq_of_id (oldest_some hkey).1 (haft ▸ h.aft_mem hmem) hid
      obtain ⟨-, htrusted, -⟩ := h.open_again ht hheld
      cases hbt : byBank fitids items t with
      | trusted g =>
        -- The bank id of the item is another one: no item had that of the row.
        obtain ⟨hg, -, hnone⟩ := byBank_trusted hbt
        have hfg : f = g := by
          have hne := h.given s hs
          have hne' := h.given t ht
          rw [htrusted, hbt, ByBank.trustedId] at hother
          simpa [otherId, ImportRows.given, hfe, show f ≠ [] from fun h => hne (h ▸ hf),
            show g ≠ [] from fun h => hne' (h ▸ hg)] using hother
        rw [← hfg, hold] at hnone
        cases hnone
      | _ =>
        have htwin' := h.rowTwin_untrusted_again ht hheld (by rw [hbt]; rfl)
        rw [htwin] at htwin'
        rcases better_eq_some htwin'.symm with hrow | hnew
        · exact hfree (mem_takenIds_rowTwin ht hrow)
        · exact h.new_id (h.newItemOf_some ht hnew).1 hmem rfl
    by_cases htwin : ∀ e' ∈ rowTwin fitids items' s, e'.id ∈ heldIds fitids items' ss
    · exact .inr (verdict_changed_iff.mpr ⟨htwin, hb', hfree', hlike⟩)
    · push Not at htwin
      exact .inl (verdict_duplicate_iff.mpr (.inr htwin))
  · exact .inl (verdict_duplicate_iff.mpr (.inl (by rw [heldId, hb']; rfl)))

/-- A row that was inserted under its key is a duplicate, unless an older item has its key. -/
theorem verdict_inserted_again (h : Committed nfc fitids ss items items' aft new) (hs : s ∈ ss)
    (htrusted : (byBank fitids items s).trustedId = none) (hx : newItemOf new s = some x) :
    verdict nfc fitids items' ss s = .duplicate ↔
      ∀ e, keyTwin items s = some e → x.age < e.age := by
  have hnotDup : verdict nfc fitids items ss s ≠ .duplicate := fun hv => by
    rw [h.newItemOf_duplicate hs hv] at hx
    cases hx
  have hheld : heldId fitids items s = none := by
    by_contra hne
    exact hnotDup (verdict_duplicate_iff.mpr (.inl (Option.isSome_iff_ne_none.mpr hne)))
  have hheld' : heldId fitids items' s = none := by
    cases hb : byBank fitids items s with
    | held e f => rw [heldId, hb] at hheld; cases hheld
    | other e =>
      rcases h.byBank_other_again hs hb with ⟨-, hb'⟩ | ⟨hne, hv, -⟩
      · exact heldId_of_other hb'
      · rw [h.apart s hs e hv hne] at hx
        cases hx
    | trusted f => rw [hb] at htrusted; cases htrusted
    | unknown => rw [heldId, byBank_unknown_again _ hb]
  obtain ⟨hmem, hnew⟩ := h.newItemOf_some hs hx
  have hfree : x.id ∉ heldIds fitids items' ss := by
    intro hid
    obtain ⟨t, -, e, f, hb, hid⟩ := mem_heldIds.mp hid
    obtain ⟨he, hfe⟩ := oldest_some (byBank_held hb).2.2.1
    rw [h.eq_of_id he (h.new_mem hmem) hid] at hfe
    rcases hnew.fitid with ⟨-, hfit⟩ | ⟨hfit, -⟩
    · rw [hfit, htrusted] at hfe
      simp at hfe
    · rw [hfit] at hfe
      simp at hfe
  have htwin := h.rowTwin_untrusted_again hs hheld' htrusted
  rw [rowTwin_untrusted hheld htrusted, hx] at htwin
  rw [verdict_duplicate_iff, hheld', htwin]
  cases hkey : keyTwin items s with
  | none =>
    exact ⟨fun _ => by simp, fun _ => .inr ⟨x, rfl, hfree⟩⟩
  | some e =>
    rw [better]
    split_ifs with hlt
    · exact ⟨fun _ e' he' => Option.some.inj he' ▸ hlt, fun _ => .inr ⟨x, rfl, hfree⟩⟩
    · refine ⟨fun hdup => ?_, fun hall => absurd (hall e rfl) hlt⟩
      obtain ⟨e', he', hfree'⟩ := hdup.resolve_left (by simp)
      obtain rfl := Option.some.inj he'
      refine absurd (verdict_duplicate_iff.mpr (.inr ⟨e, ?_, fun hid => ?_⟩)) hnotDup
      · rw [rowTwin_untrusted hheld htrusted, hkey]
      · exact hfree' (h.mem_heldIds_again hid)

end Committed

end Committed

end MyBooks.ImportRows
