import MyBooks.OpenItems
import MyBooks.OwnLines

/-!
# The open receivables add up to the ledger

A move between two items leaves what all items come to, and so does each step of the netting
(`netRefund_nets`, `netBounce_nets`). So an aging comes to the balance of receivables, and any
client's items to the client's, but for what moves between items of two clients
(`open_items_tie_out`). In the states that orderly runs reach, no move does (`orderly_ties_out`).
-/

namespace MyBooks

namespace OpenItems

variable {p : Option Id → Bool} {items now : List Work} {k : Key} {d : Dec}

/-- What the items of some clients come to. -/
def sumOf (p : Option Id → Bool) (items : List Work) : Dec :=
  tally (fun w => p w.contactId) Work.openAmount items

section Steps

theorem keys_addOpen : (addOpen k d now).map Work.key = now.map Work.key := by
  rw [addOpen, List.map_map]
  refine List.map_congr_left fun w _ => ?_
  simp only [Function.comp_apply]
  split_ifs <;> rfl

theorem sumOf_addOpen (hn : (now.map Work.key).Nodup) (hk : k ∈ now.map Work.key) :
    sumOf p (addOpen k d now) = sumOf p now + if p k.1 then d else 0 := by
  obtain ⟨w, hw, rfl⟩ := List.mem_map.mp hk
  have hmodify := tally_modify (p := fun w : Work => p w.contactId) (w := Work.openAmount) Work.key
    (fun w => { w with openAmount := w.openAmount + d }) hn hw
  change sumOf p (addOpen w.key d now) + _ = sumOf p now + _ at hmodify
  change _ = sumOf p now + if p w.contactId then d else 0
  split_ifs at hmodify ⊢ <;> linarith

theorem byTxn_mem {i : Id} (h : byTxn items i = some k) : k ∈ items.map Work.key ∧ k.2 = i := by
  obtain ⟨w, hw, rfl⟩ := Option.map_eq_some_iff.mp h
  revert w
  refine List.foldlRecOn (motive := fun prev : Option Work => ∀ w, prev = some w →
    Option.map Work.key prev = some w.key → w.key ∈ items.map Work.key ∧ w.key.2 = i) _ _
    (fun w hw => by cases hw) fun prev hprev x hx w hw hkey => ?_
  split_ifs at hw with hc
  · obtain rfl := Option.some.inj hw
    exact ⟨List.mem_map_of_mem hx, hc.1⟩
  · exact hprev w hw (by rw [hw]; rfl)

theorem moveEnds_mem {m : Move} {ends : Key × Key} (h : moveEnds items m = some ends) :
    ends.1 ∈ items.map Work.key ∧ ends.2 ∈ items.map Work.key := by
  unfold moveEnds at h
  simp only [Option.bind_eq_bind, Option.bind_eq_some_iff] at h
  obtain ⟨src, hsrc, inv, hinv, h⟩ := h
  have hs := (byTxn_mem hsrc).1
  have hi := (byTxn_mem hinv).1
  split_ifs at h with _ hpair hpair'
  all_goals obtain rfl := Option.some.inj h
  · exact ⟨hs, hi⟩
  · exact ⟨hs, hpair⟩
  · exact ⟨hpair', hi⟩
  · exact ⟨hs, hi⟩

/-- What a move brings the items of some clients: nothing where both of its ends are theirs. -/
def brought (items : List Work) (p : Option Id → Bool) (m : Move) : Dec :=
  (moveEnds items m).elim 0 fun ends =>
    (if p ends.1.1 then m.settled else 0) - if p ends.2.1 then m.settled else 0

theorem keys_applyMove (m : Move) :
    (applyMove items now m).map Work.key = now.map Work.key := by
  unfold applyMove
  cases moveEnds items m with
  | none => rfl
  | some ends => exact keys_addOpen.trans keys_addOpen

theorem sumOf_applyMove (hn : (now.map Work.key).Nodup)
    (hkeys : now.map Work.key = items.map Work.key) (m : Move) :
    sumOf p (applyMove items now m) = sumOf p now + brought items p m := by
  unfold applyMove brought
  cases hends : moveEnds items m with
  | none => exact (add_zero _).symm
  | some ends =>
    obtain ⟨hsrc, hinv⟩ := moveEnds_mem hends
    rw [← hkeys] at hsrc hinv
    have hkeep := @keys_addOpen now ends.2 (-m.settled)
    rw [Option.elim_some, Option.elim_some, sumOf_addOpen (hkeep.symm ▸ hn) (hkeep.symm ▸ hsrc),
      sumOf_addOpen hn hinv]
    split_ifs <;> ring

theorem sumOf_moves : ∀ {moves : List Move} {now : List Work}, (items.map Work.key).Nodup →
    now.map Work.key = items.map Work.key →
      sumOf p (moves.foldl (applyMove items) now) = sumOf p now + (moves.map (brought items p)).sum
  | [], _, _, _ => by simp
  | m :: moves, now, hn, hkeys => by
    rw [List.foldl_cons, sumOf_moves hn ((keys_applyMove m).trans hkeys),
      sumOf_applyMove (hkeys ▸ hn) hkeys, List.map_cons, List.sum_cons, add_assoc]

theorem keys_moves (moves : List Move) :
    (moves.foldl (applyMove items) now).map Work.key = now.map Work.key := by
  refine List.foldlRecOn (motive := fun ws : List Work => ws.map Work.key = now.map Work.key) _ _
    rfl fun ws hws m _ => ?_
  exact (keys_applyMove m).trans hws

end Steps

section Netting

theorem keys_drop : ((drop k now).map Work.key).Sublist (now.map Work.key) :=
  List.filter_sublist.map _

theorem sumOf_drop (hn : (now.map Work.key).Nodup) {w : Work} (hw : w ∈ now) :
    sumOf p (drop w.key now) + (if p w.contactId then w.openAmount else 0) = sumOf p now :=
  tally_erase Work.key hn hw

/-- What a step of the netting keeps. -/
structure Nets (now now' : List Work) : Prop where
  nodup : (now'.map Work.key).Nodup
  sum : ∀ p, sumOf p now' = sumOf p now
  places : ∀ n, (∀ w ∈ now, Places n w.openAmount) → ∀ w ∈ now', Places n w.openAmount

theorem Nets.refl (hn : (now.map Work.key).Nodup) : Nets now now :=
  ⟨hn, fun _ => rfl, fun _ => id⟩

theorem places_addOpen {n : ℕ} (hd : Places n d) (h : ∀ w ∈ now, Places n w.openAmount) :
    ∀ w ∈ addOpen k d now, Places n w.openAmount := by
  intro w hw
  obtain ⟨x, hx, rfl⟩ := List.mem_map.mp hw
  split_ifs
  · exact (h x hx).add hd
  · exact h x hx

theorem netRefund_nets (hn : (now.map Work.key).Nodup) : Nets now (netRefund items now k) := by
  unfold netRefund
  cases hfind : now.find? fun w => w.key = k with
  | none => exact .refl hn
  | some w =>
    have hw := List.mem_of_find?_eq_some hfind
    rw [Option.elim_some]
    split_ifs with htype
    · cases w.refundOf items with
      | none => exact .refl hn
      | some target =>
        rw [Option.elim_some]
        split_ifs with htarget
        · obtain ⟨hne, hclient, hmem⟩ := htarget
          have hkeys := @keys_addOpen now target w.openAmount
          have hw' : w ∈ addOpen target w.openAmount now :=
            List.mem_map.mpr ⟨w, hw, if_neg (Ne.symm hne)⟩
          refine ⟨(hkeys.symm ▸ hn).sublist keys_drop, fun p => ?_, fun n hplaces x hx => ?_⟩
          · have hdrop := sumOf_drop (p := p) (hkeys.symm ▸ hn) hw'
            rw [sumOf_addOpen hn hmem, hclient] at hdrop
            linarith
          · exact places_addOpen (hplaces w hw) hplaces x (List.mem_of_mem_filter hx)
        · exact .refl hn
    · exact .refl hn

theorem netBounce_nets (hn : (now.map Work.key).Nodup) (w : Work) : Nets now (netBounce now w) := by
  unfold netBounce
  split_ifs with htype
  · cases w.sourceTxnId with
    | none => exact .refl hn
    | some i =>
      simp only [Option.elim_some]
      split_ifs with hgroup
      · refine ⟨hn.sublist (List.filter_sublist.map _), fun p => ?_, fun _ hplaces x hx =>
          hplaces x (List.mem_of_mem_filter hx)⟩
        have hzero :
            tally (fun x => p x.contactId && w.bounceGroup i x) Work.openAmount now = 0 := by
          have hown : ∀ x, w.bounceGroup i x → x.contactId = w.contactId := fun x hx =>
            (of_decide_eq_true hx).1
          cases hp : p w.contactId with
          | true =>
            refine Eq.trans (tally_congr (fun x _ => ?_) fun _ _ _ => rfl) hgroup.2
            cases hx : w.bounceGroup i x with
            | true => rw [hown x hx, hp]; rfl
            | false => exact Bool.and_false _
          | false =>
            refine tally_eq_zero fun x _ => ?_
            cases hx : w.bounceGroup i x with
            | true => rw [hown x hx, hp]; rfl
            | false => exact Bool.and_false _
        have hsplit := tally_split (p := fun x : Work => p x.contactId) (w := Work.openAmount)
          (w.bounceGroup i) now
        rw [hzero, zero_add] at hsplit
        rw [sumOf, tally_filter, sumOf, hsplit]
        simp only [Bool.and_comm]
      · exact .refl hn
  · exact .refl hn

theorem Nets.trans {a b c : List Work} (h : Nets a b) (h' : Nets b c) : Nets a c :=
  ⟨h'.nodup, fun p => (h'.sum p).trans (h.sum p), fun n hplaces =>
    h'.places n (h.places n hplaces)⟩

theorem foldl_nets {β : Type*} {f : List Work → β → List Work}
    (hf : ∀ now b, (now.map Work.key).Nodup → Nets now (f now b)) (bs : List β)
    (hn : (now.map Work.key).Nodup) : Nets now (bs.foldl f now) :=
  List.foldlRecOn (motive := Nets now) _ _ (.refl hn) fun ws hws b _ =>
    hws.trans (hf ws b hws.nodup)

end Netting

section Shown

variable {src : Source} {q : OpenItemsQuery}

theorem shown_some (src : Source) {w : Work} (htags : q.tagIds = []) (h : round2 w.openAmount ≠ 0) :
    ∃ it, src.shown q w = some it ∧ it.contactId = w.contactId ∧
      it.openExact = round4 w.openAmount :=
  ⟨_, if_neg (by simp [htags, h]), rfl, rfl⟩

/-- What is not shown comes to nothing in cents. -/
def unshown (items : List Work) : List Work := items.filter fun w => round2 w.openAmount = 0

theorem sum_shown (src : Source) (htags : q.tagIds = []) (p : Option Id → Bool) :
    ∀ {items : List Work}, (∀ w ∈ items, Places 4 w.openAmount) →
      tally (fun it => p it.contactId) OpenItem.openExact (items.filterMap (src.shown q)) +
        sumOf p (unshown items) = sumOf p items
  | [], _ => by simp [unshown, sumOf]
  | w :: ws, h => by
    obtain ⟨hw, hws⟩ := List.forall_mem_cons.mp h
    have ih := sum_shown src htags p hws
    have hsum : sumOf p (w :: ws) = (if p w.contactId then w.openAmount else 0) + sumOf p ws :=
      tally_cons w
    rw [List.filterMap_cons, unshown, hsum]
    by_cases hzero : round2 w.openAmount = 0
    · have hnone : src.shown q w = none := if_pos (.inr hzero)
      have hrest : sumOf p (w :: unshown ws) =
          (if p w.contactId then w.openAmount else 0) + sumOf p (unshown ws) := tally_cons w
      rw [hnone, List.filter_cons_of_pos (by simpa using hzero)]
      change _ + sumOf p (w :: unshown ws) = _
      rw [hrest, ← ih]
      ring
    · obtain ⟨it, hit, hclient, hexact⟩ := shown_some src htags hzero
      rw [hit, List.filter_cons_of_neg (by simpa using hzero)]
      simp only [tally_cons, hclient, hexact]
      change _ + sumOf p (unshown ws) = _
      rw [show round4 w.openAmount = w.openAmount from toPlaces_of_places hw, add_assoc, ih]

theorem shown_cents {w : Work} {it : OpenItem} (hw : Cents w.openAmount)
    (h : src.shown q w = some it) : it.openExact = it.openCents ∧ Cents it.openCents := by
  unfold Source.shown at h
  split_ifs at h
  obtain rfl := Option.some.inj h
  dsimp only
  rw [round2_of_cents hw, round4_of_cents hw]
  exact ⟨rfl, hw⟩

end Shown

section Ledger

variable {src : Source} {q : OpenItemsQuery} {n : ℕ}

/-- What the posted lines of some clients on receivables come to. -/
def Source.balance (src : Source) (q : OpenItemsQuery) (p : Option Id → Bool) : Dec :=
  ((src.txns.filter (Txn.dated q)).map fun t =>
    tally (fun l => p (t.contactOf l)) net (src.arLines q t)).sum

/-- Amounts of `n` places, in every table the report reads. -/
structure Source.InPlaces (src : Source) (n : ℕ) : Prop where
  lines : ∀ t ∈ src.txns, ∀ l ∈ t.lines, src.chart.isAr l.accountId → Places n (net l)
  rows : ∀ r ∈ src.rows, Places n r.settledBy
  totals : ∀ t ∈ src.txns, Places n t.total
  recoveries : ∀ r ∈ src.recoveries, Places n r.amount

theorem places_tally {α : Type*} {r : α → Bool} {v : α → Dec} {xs : List α}
    (h : ∀ x ∈ xs, Places n (v x)) : Places n (tally r v xs) :=
  Places.sum fun y hy => by
    obtain ⟨x, hx, rfl⟩ := List.mem_map.mp hy
    exact h x (List.mem_of_mem_filter hx)

theorem mem_arLines {t : Txn} {l : ArLine} (h : l ∈ src.arLines q t) :
    l ∈ t.lines ∧ src.chart.isAr l.accountId := by
  obtain ⟨hline, hcond⟩ := List.mem_filter.mp h
  exact ⟨hline, (Bool.and_eq_true_iff.mp hcond).1⟩

theorem item_open (hn : n ≤ 4) {t : Txn} {lines : List ArLine} (h : ∀ l ∈ lines, Places n (net l))
    (c : Option Id) :
    (t.item lines c).openAmount = tally (fun l => t.contactOf l = c) net lines :=
  toPlaces_of_places ((places_tally h).mono hn)

theorem arLines_places (hplaces : src.InPlaces n) {t : Txn} (ht : t ∈ src.txns) :
    ∀ l ∈ src.arLines q t, Places n (net l) := fun l hl =>
  hplaces.lines t ht l (mem_arLines hl).1 (mem_arLines hl).2

theorem sumOf_itemsOf (hn : n ≤ 4) (hplaces : src.InPlaces n) {t : Txn} (ht : t ∈ src.txns) :
    sumOf p (src.itemsOf q t) = tally (fun l => p (t.contactOf l)) net (src.arLines q t) := by
  have hnodup := (List.nodup_dedup ((src.arLines q t).map t.contactOf)).filter p
  have hkeys := sum_tally_key (p := fun _ => true) (w := net) t.contactOf hnodup (src.arLines q t)
  simp only [Bool.true_and] at hkeys
  rw [sumOf, Source.itemsOf, tally_map]
  refine Eq.trans ?_ (hkeys.trans (tally_congr (fun l hl => ?_) fun _ _ _ => rfl))
  · exact congrArg List.sum
      (List.map_congr_left fun c _ => item_open hn (arLines_places hplaces ht) c)
  · rw [Bool.eq_iff_iff]
    refine (Iff.of_eq (@decide_eq_true_eq _ (_))).trans ?_
    rw [List.mem_filter, List.mem_dedup]
    exact and_iff_right (List.mem_map_of_mem hl)

theorem sumOf_flatMap {f : Txn → List Work} : ∀ ts : List Txn,
    sumOf p (ts.flatMap f) = (ts.map fun t => sumOf p (f t)).sum
  | [] => rfl
  | t :: ts => by
    rw [List.flatMap_cons, sumOf, tally_append, List.map_cons, List.sum_cons, ← sumOf_flatMap ts]
    rfl

theorem sumOf_items (hn : n ≤ 4) (hplaces : src.InPlaces n) :
    sumOf p (src.items q) = src.balance q p := by
  rw [Source.items, sumOf_flatMap]
  refine congrArg _ (List.map_congr_left fun t ht => ?_)
  exact sumOf_itemsOf hn hplaces (List.mem_of_mem_filter ht)

theorem mem_items {w : Work} : w ∈ src.items q ↔ ∃ t ∈ src.txns, t.dated q ∧
    ∃ l ∈ src.arLines q t, t.item (src.arLines q t) (t.contactOf l) = w := by
  simp [Source.items, Source.itemsOf, List.mem_flatMap, and_assoc]

theorem items_places (hn : n ≤ 4) (hplaces : src.InPlaces n) :
    ∀ w ∈ src.items q, Places n w.openAmount := by
  intro w hw
  obtain ⟨t, ht, -, l, -, rfl⟩ := mem_items.mp hw
  rw [item_open hn (arLines_places hplaces ht)]
  exact places_tally (arLines_places hplaces ht)

theorem items_nodup (hids : (src.txns.map fun t => t.id).Nodup) :
    ((src.items q).map Work.key).Nodup := by
  rw [Source.items, List.map_flatMap]
  refine List.nodup_flatMap.mpr ⟨fun t _ => ?_, ?_⟩
  · rw [Source.itemsOf, List.map_map]
    exact (List.nodup_dedup _).map fun c c' h => (Prod.mk.inj h).1
  · refine (List.Pairwise.filter _ (List.pairwise_map.mp hids)).imp fun hne k hk hk' => hne ?_
    simp only [Source.itemsOf, List.map_map, List.mem_map] at hk hk'
    obtain ⟨c, -, rfl⟩ := hk
    obtain ⟨c', -, hc'⟩ := hk'
    exact (Prod.mk.inj hc').2.symm

theorem mem_moves {m : Move} (h : m ∈ src.moves q) :
    (∃ r ∈ src.rows, src.rowMove q r = some m) ∨ (∃ t ∈ src.txns, src.pointerMove q t = some m) ∨
      ∃ ends ∈ (src.recoveries.map Recovery.ends).dedup, src.recoveryMove q ends = some m := by
  rcases List.mem_append.mp h with h | h
  · rcases List.mem_append.mp h with h | h
    · exact .inl (List.mem_filterMap.mp h)
    · exact .inr (.inl (List.mem_filterMap.mp h))
  · exact .inr (.inr (List.mem_filterMap.mp h))

theorem rowMove_some {r : AppRow} {m : Move} (h : src.rowMove q r = some m) :
    r.voided = false ∧ m = ⟨r.paymentId, r.invoiceId, r.settledBy⟩ := by
  simp only [Source.rowMove, Option.bind_eq_bind, Option.bind_eq_some_iff] at h
  obtain ⟨s, -, i, -, h⟩ := h
  split_ifs at h with hcond
  exact ⟨hcond.1, (Option.some.inj h).symm⟩

theorem moves_places (hplaces : src.InPlaces n) : ∀ m ∈ src.moves q, Places n m.settled := by
  intro m hm
  rcases mem_moves hm with ⟨r, hr, h⟩ | ⟨t, ht, h⟩ | ⟨ends, -, h⟩
  · rw [(rowMove_some h).2]
    exact hplaces.rows r hr
  · simp only [Source.pointerMove, Option.bind_eq_bind, Option.bind_eq_some_iff] at h
    obtain ⟨j, -, i, -, h⟩ := h
    split_ifs at h
    obtain rfl := Option.some.inj h
    exact hplaces.totals t ht
  · simp only [Source.recoveryMove, Option.bind_eq_bind, Option.bind_eq_some_iff] at h
    obtain ⟨s, -, i, -, h⟩ := h
    split_ifs at h
    obtain rfl := Option.some.inj h
    exact (places_tally hplaces.recoveries).neg

end Ledger

section Report

variable {src : Source} {q : OpenItemsQuery} {moves : List Move} {n : ℕ}

theorem moved_places (hitems : ∀ w ∈ items, Places n w.openAmount)
    (hmoves : ∀ m ∈ moves, Places n m.settled) :
    ∀ w ∈ moves.foldl (applyMove items) items, Places n w.openAmount := by
  refine List.foldlRecOn (motive := fun ws : List Work => ∀ w ∈ ws, Places n w.openAmount) _ _
    hitems fun ws hws m hm => ?_
  unfold applyMove
  cases moveEnds items m with
  | none => exact hws
  | some ends => exact places_addOpen (hmoves m hm) (places_addOpen (hmoves m hm).neg hws)

theorem report_perm (collate : String → String → Ordering) (src : Source) (q : OpenItemsQuery)
    (items : List Work) (moves : List Move) :
    (arOpenItemsAsOf collate src q items moves).Perm ((netted items moves).filterMap (src.shown q)) :=
  List.perm_insertionSort _ _

/-- What is left to show after the netting. -/
theorem netted_spec (hids : (src.txns.map fun t => t.id).Nodup) (hn : n ≤ 4)
    (hplaces : src.InPlaces n) (hitems : items.Perm (src.items q))
    (hmoves : moves.Perm (src.moves q)) :
    (∀ w ∈ netted items moves, Places n w.openAmount) ∧
      ∀ p, sumOf p (netted items moves) = src.balance q p + (moves.map (brought items p)).sum := by
  unfold netted
  have hnodup : (items.map Work.key).Nodup := (hitems.map _).nodup_iff.mpr (items_nodup hids)
  have hopen : ∀ w ∈ items, Places n w.openAmount := fun w hw =>
    items_places hn hplaces w (hitems.mem_iff.mp hw)
  set moved := moves.foldl (applyMove items) items with hmoved
  have hmovedNodup : (moved.map Work.key).Nodup := by rwa [hmoved, keys_moves]
  have hrefunded := foldl_nets (f := netRefund items) (fun _ _ => netRefund_nets)
    (moved.map Work.key) hmovedNodup
  set refunded := (moved.map Work.key).foldl (netRefund items) moved
  have hleft := hrefunded.trans
    (foldl_nets (fun _ w h => netBounce_nets h w) refunded hrefunded.nodup)
  refine ⟨hleft.places n (moved_places hopen fun m hm =>
    moves_places hplaces m (hmoves.mem_iff.mp hm)), fun p => (hleft.sum p).trans ?_⟩
  rw [← sumOf_items hn hplaces, hmoved, sumOf_moves hnodup rfl]
  exact congrArg (· + _) (tally_perm hitems)

/-- The lines of a transaction on receivables are those of its own client. -/
def Source.Own (src : Source) (t : Txn) : Prop :=
  ∀ l ∈ t.lines, src.chart.isAr l.accountId → t.contactOf l = t.contactId

/-- A move inside one client. -/
def Source.OneClient (src : Source) (m : Move) : Prop :=
  ∀ s ∈ src.txns, ∀ i ∈ src.txns, s.id = m.sourceId → i.id = m.invoiceId →
    s.contactId = i.contactId ∧ src.Own s ∧ src.Own i

theorem byTxn_txn (hitems : items.Perm (src.items q)) {i : Id} (h : byTxn items i = some k) :
    ∃ t ∈ src.txns, t.id = i ∧ (src.Own t → k.1 = t.contactId) := by
  obtain ⟨hk, rfl⟩ := byTxn_mem h
  obtain ⟨w, hw, rfl⟩ := List.mem_map.mp hk
  obtain ⟨t, ht, -, l, hl, rfl⟩ := mem_items.mp (hitems.mem_iff.mp hw)
  exact ⟨t, ht, rfl, fun hown => hown l (mem_arLines hl).1 (mem_arLines hl).2⟩

theorem brought_one (hitems : items.Perm (src.items q)) {m : Move} (h : src.OneClient m) :
    brought items p m = 0 := by
  unfold brought
  cases hends : moveEnds items m with
  | none => rfl
  | some ends =>
    unfold moveEnds at hends
    simp only [Option.bind_eq_bind, Option.bind_eq_some_iff] at hends
    obtain ⟨source, hsource, inv, hinv, hends⟩ := hends
    obtain ⟨s, hs, hsid, hsown⟩ := byTxn_txn hitems hsource
    obtain ⟨i, hi, hiid, hiown⟩ := byTxn_txn hitems hinv
    obtain ⟨hclient, hown, hown'⟩ := h s hs i hi hsid hiid
    have hsame : source.1 = inv.1 := by rw [hsown hown, hiown hown', hclient]
    rw [if_pos hsame] at hends
    obtain rfl := Option.some.inj hends
    rw [Option.elim_some, hsame, sub_self]

theorem sum_brought_one (hitems : items.Perm (src.items q)) (h : ∀ m ∈ moves, src.OneClient m) :
    (moves.map (brought items p)).sum = 0 := by
  rw [List.map_congr_left fun m hm => brought_one hitems (h m hm), List.map_const',
    List.sum_replicate, nsmul_zero]

theorem sum_brought_all : (moves.map (brought items fun _ => true)).sum = 0 := by
  have hall : ∀ m, brought items (fun _ => true) m = 0 := fun m => by
    unfold brought
    cases moveEnds items m <;> simp
  rw [List.map_congr_left fun m _ => hall m, List.map_const', List.sum_replicate, nsmul_zero]

theorem sum_buckets (aged : List AgedItem) :
    (AgingBucketKey.all.map fun b =>
      tally (fun it : AgedItem => it.bucket = b) (fun it => it.openCents) aged).sum =
        (aged.map fun it => it.openCents).sum := by
  have hkeys := sum_tally_key (p := fun _ => true) (w := fun it : AgedItem => it.openCents)
    AgedItem.bucket (by decide : AgingBucketKey.all.Nodup) aged
  simp only [Bool.true_and] at hkeys
  refine hkeys.trans (tally_eq_sum fun it _ hnone => ?_)
  cases hb : it.bucket <;> simp [hb, AgingBucketKey.all] at hnone

/-- An aging agrees with the ledger: in all, and for any clients but for what moves between items of
different clients. -/
structure TiesOut (src : Source) (q : OpenItemsQuery) (items : List Work) (moves : List Move)
    (aging : Aging) : Prop where
  total : aging.total = src.balance q fun _ => true
  totalExact : aging.totalExact = aging.total
  difference : aging.difference = 0
  buckets : (AgingBucketKey.all.map aging.buckets).sum = aging.total
  clients : ∀ p : Option Id → Bool,
    tally (fun it => p it.contactId) (fun it => it.openCents) aging.items =
      src.balance q p + (moves.map (brought items p)).sum
  own : (∀ m ∈ moves, src.OneClient m) → ∀ p : Option Id → Bool,
    tally (fun it => p it.contactId) (fun it => it.openCents) aging.items = src.balance q p

/-- With amounts in cents the items shown come to the balance, but for moves between clients. -/
theorem report_spec (collate : String → String → Ordering)
    (hids : (src.txns.map fun t => t.id).Nodup) (hcents : src.InPlaces 2)
    (htags : q.tagIds = []) (hitems : items.Perm (src.items q))
    (hmoves : moves.Perm (src.moves q)) :
    (∀ it ∈ arOpenItemsAsOf collate src q items moves,
      it.openExact = it.openCents ∧ Cents it.openCents) ∧
    ∀ p : Option Id → Bool, tally (fun it => p it.contactId) OpenItem.openExact
      (arOpenItemsAsOf collate src q items moves) =
        src.balance q p + (moves.map (brought items p)).sum := by
  have hperm := report_perm collate src q items moves
  obtain ⟨hleft, hsum⟩ := netted_spec hids (by decide) hcents hitems hmoves
  constructor
  · intro it hit
    obtain ⟨w, hw, hsome⟩ := List.mem_filterMap.mp (hperm.mem_iff.mp hit)
    exact shown_cents (hleft w hw) hsome
  · intro p
    have hunshown : sumOf p (unshown (netted items moves)) = 0 := List.sum_eq_zero fun y hy => by
      obtain ⟨w, hw, rfl⟩ := List.mem_map.mp hy
      obtain ⟨hmem, hzero⟩ := List.mem_filter.mp (List.mem_of_mem_filter hw)
      rw [← round2_of_cents (hleft w hmem)]
      exact of_decide_eq_true hzero
    have hall := sum_shown src htags p fun w hw => (hleft w hw).mono (by decide)
    rw [hunshown, add_zero, hsum] at hall
    rw [← hall, tally_perm hperm]

/-- What an aging comes to when its items' amounts are in cents. -/
theorem aging_spec {report : List OpenItem} (asOf : String)
    (h : ∀ it ∈ report, it.openExact = it.openCents ∧ Cents it.openCents) :
    (ageOpenItems report asOf).total = (report.map OpenItem.openExact).sum ∧
      (ageOpenItems report asOf).totalExact = (ageOpenItems report asOf).total ∧
      (ageOpenItems report asOf).difference = 0 ∧
      (AgingBucketKey.all.map (ageOpenItems report asOf).buckets).sum =
        (ageOpenItems report asOf).total := by
  set aged := report.map (age asOf) with haged
  have hcents : ∀ it ∈ aged, Cents it.openCents := by
    intro it hit
    obtain ⟨shown, hmem, rfl⟩ := List.mem_map.mp hit
    exact (h shown hmem).2
  have hexact : (aged.map fun it => it.openExact).sum = (aged.map fun it => it.openCents).sum := by
    rw [haged, List.map_map, List.map_map]
    exact congrArg _ (List.map_congr_left fun it hit => (h it hit).1)
  have hreport : (report.map OpenItem.openExact).sum = (aged.map fun it => it.openExact).sum := by
    rw [haged, List.map_map]
    rfl
  have hcent : Cents (aged.map fun it => it.openCents).sum :=
    Places.sum fun y hy => by
      obtain ⟨it, hit, rfl⟩ := List.mem_map.mp hy
      exact hcents it hit
  have hbucket : ∀ b ∈ AgingBucketKey.all, round2 (tally (fun it : AgedItem => it.bucket = b)
      (fun it => it.openCents) aged) = tally (fun it : AgedItem => it.bucket = b)
        (fun it => it.openCents) aged := fun b _ => round2_of_cents (places_tally hcents)
  have hsums := sum_buckets aged
  refine ⟨?_, ?_, ?_, ?_⟩
  · change round2 _ = _
    rw [hsums, round2_of_cents hcent, hreport, hexact]
  · change round4 _ = round2 _
    rw [hsums, ← haged, hexact, round4_of_cents hcent, round2_of_cents hcent]
  · change round2 (round2 _ - _) = 0
    rw [hsums, ← haged, hexact, round2_of_cents hcent, sub_self]
    exact round2_of_cents Places.zero
  · change (AgingBucketKey.all.map fun b => round2 _).sum = round2 _
    rw [← haged, List.map_congr_left hbucket, hsums, round2_of_cents hcent]

/-- All items of a report come to the balance. -/
theorem report_total (collate : String → String → Ordering)
    (hids : (src.txns.map fun t => t.id).Nodup) (hcents : src.InPlaces 2)
    (htags : q.tagIds = []) (hitems : items.Perm (src.items q))
    (hmoves : moves.Perm (src.moves q)) :
    ((arOpenItemsAsOf collate src q items moves).map OpenItem.openExact).sum =
      src.balance q fun _ => true := by
  have hall := (report_spec collate hids hcents htags hitems hmoves).2 fun _ => true
  rw [sum_brought_all, add_zero] at hall
  exact (tally_eq_sum fun _ _ h => by cases h).symm.trans hall

theorem open_items_tie_out (collate : String → String → Ordering) (src : Source)
    (q : OpenItemsQuery) (items : List Work) (moves : List Move)
    (hids : (src.txns.map fun t => t.id).Nodup) (hcents : src.InPlaces 2) (htags : q.tagIds = [])
    (hitems : items.Perm (src.items q)) (hmoves : moves.Perm (src.moves q)) :
    TiesOut src q items moves
      (ageOpenItems (arOpenItemsAsOf collate src q items moves) q.asOf) := by
  obtain ⟨hshown, hclients⟩ := report_spec collate hids hcents htags hitems hmoves
  obtain ⟨htotal, hexact, hdifference, hbuckets⟩ := aging_spec q.asOf hshown
  have haged : ∀ p : Option Id → Bool,
      tally (fun it => p it.contactId) (fun it => it.openCents)
        (ageOpenItems (arOpenItemsAsOf collate src q items moves) q.asOf).items =
          src.balance q p + (moves.map (brought items p)).sum := by
    intro p
    rw [← hclients p]
    change tally _ _ ((arOpenItemsAsOf collate src q items moves).map (age q.asOf)) = _
    rw [tally_map]
    exact tally_congr (fun _ _ => rfl) fun it hit _ => (hshown it hit).1.symm
  refine ⟨?_, hexact, hdifference, hbuckets, haged, fun hone p => ?_⟩
  · rw [htotal, report_total collate hids hcents htags hitems hmoves]
  · rw [haged, sum_brought_one hitems hone, add_zero]

/-- An invoice of which 60 are paid, by a check of 80. -/
def paidSource : Source where
  chart := bankChart
  txns := [
    { id := "inv", txnType := .invoice, companyId := none, contactId := some "ann"
      txnDate := "2026-03-01", total := 100, dueDate := some "2026-03-31"
      lines := [⟨"ar", 100, 0, none⟩, ⟨"sales", 0, 100, none⟩] },
    { id := "pay", txnType := .customerPayment, companyId := none, contactId := some "ann"
      txnDate := "2026-03-05", total := 80
      lines := [⟨"bank", 80, 0, none⟩, ⟨"ar", 0, 80, some "ann"⟩] }]
  rows := [⟨"row", "pay", "inv", 60, 0, none, 0, none, none, none, false, none⟩]
  recoveries := []

def endOfApril : OpenItemsQuery where
  asOf := "2026-04-30"

/-- Whole amounts are amounts in cents. -/
theorem inPlaces_of_whole {src : Source}
    (hlines : ∀ t ∈ src.txns, ∀ l ∈ t.lines, net l = ((net l).num : ℚ))
    (hrows : ∀ r ∈ src.rows, r.settledBy = (r.settledBy.num : ℚ))
    (htotals : ∀ t ∈ src.txns, t.total = (t.total.num : ℚ))
    (hrecoveries : ∀ r ∈ src.recoveries, r.amount = (r.amount.num : ℚ)) : src.InPlaces 2 where
  lines := fun t ht l hl _ => by
    rw [hlines t ht l hl]
    exact Places.intCast _
  rows := fun r hr => by
    rw [hrows r hr]
    exact Places.intCast _
  totals := fun t ht => by
    rw [htotals t ht]
    exact Places.intCast _
  recoveries := fun r hr => by
    rw [hrecoveries r hr]
    exact Places.intCast _

theorem paidSource_cents : paidSource.InPlaces 2 :=
  inPlaces_of_whole (by decide +kernel) (by decide +kernel) (by decide +kernel) (by decide)

/-- The rest of the check goes back to ann, and the check by which bob paid an invoice bounces. -/
def mixedSource : Source :=
  { paidSource with
    txns := paidSource.txns ++ [
      { id := "back", txnType := .customerRefund, companyId := none, contactId := some "ann"
        txnDate := "2026-03-20", total := 20, sourcePaymentId := some "pay"
        lines := [⟨"ar", 20, 0, none⟩, ⟨"bank", 0, 20, none⟩] },
      { id := "bobInv", txnType := .invoice, companyId := none, contactId := some "bob"
        txnDate := "2026-03-01", total := 50
        lines := [⟨"ar", 50, 0, none⟩, ⟨"sales", 0, 50, none⟩] },
      { id := "bobPay", txnType := .customerPayment, companyId := none, contactId := some "bob"
        txnDate := "2026-03-10", total := 50
        lines := [⟨"bank", 50, 0, none⟩, ⟨"ar", 0, 50, some "bob"⟩] },
      { id := "bounce", txnType := .returnedPayment, companyId := none, contactId := some "bob"
        txnDate := "2026-03-12", total := 50, sourceTxnId := some "bobPay"
        lines := [⟨"ar", 50, 0, some "bob"⟩, ⟨"bank", 0, 50, none⟩] }]
    rows := paidSource.rows ++
      [⟨"bobRow", "bobPay", "bobInv", 50, 0, none, 0, none, none, none, false, some "bounce"⟩] }

theorem mixedSource_cents : mixedSource.InPlaces 2 :=
  inPlaces_of_whole (by decide +kernel) (by decide +kernel) (by decide +kernel) (by decide)

theorem open_items_tie_out_paid :
    TiesOut mixedSource endOfApril (mixedSource.items endOfApril) (mixedSource.moves endOfApril)
      (ageOpenItems (arOpenItemsAsOf compare mixedSource endOfApril (mixedSource.items endOfApril)
        (mixedSource.moves endOfApril)) endOfApril.asOf) :=
  open_items_tie_out compare mixedSource endOfApril _ _ (by decide) mixedSource_cents rfl
    (List.Perm.refl _) (List.Perm.refl _)

/-- ann's invoice shows 40 and is a month late, and bob's shows all of it; the refund is netted with
the check, the bounce with the payment. -/
example : (arOpenItemsAsOf compare mixedSource endOfApril (mixedSource.items endOfApril)
    (mixedSource.moves endOfApril)).map (fun it =>
      (it.txnId, it.openCents, (age endOfApril.asOf it).bucket)) =
        [("inv", 40, .days1to30), ("bobInv", 50, .days31to60)] := by
  decide +kernel

end Report

section Run

/-- The tables of the store. -/
def ofReceivables (chart : Chart) (s : Receivables) : Source where
  chart := chart
  txns := s.docs.map fun d => { toArDoc := d }
  rows := s.rows
  recoveries := []

/-- A report agrees with the ledger client by client: for any clients the items it shows, and those
left after the netting that come to nothing in cents, come to the balance of receivables. No move
goes between clients, and no line names a client but its document's. -/
structure Agrees (src : Source) (q : OpenItemsQuery) (items : List Work) (moves : List Move)
    (report : List OpenItem) : Prop where
  clients : ∀ p : Option Id → Bool,
    tally (fun it => p it.contactId) OpenItem.openExact report +
      sumOf p (unshown (netted items moves)) = src.balance q p
  oneClient : ∀ m ∈ moves, src.OneClient m
  own : ∀ t ∈ src.txns, ∀ l ∈ t.lines, l.contactId = none ∨ l.contactId = t.contactId

variable {chart : Chart} {s : Receivables} {q : OpenItemsQuery}

theorem lines_ofReceivables (h : OwnLines s) : ∀ t ∈ (ofReceivables chart s).txns,
    ∀ l ∈ t.lines, l.contactId = none ∨ l.contactId = t.contactId := by
  intro t ht l hl
  obtain ⟨d, hd, rfl⟩ := List.mem_map.mp ht
  obtain ⟨x, hx, rfl⟩ := List.mem_map.mp hd
  exact (h x hx l hl).client

theorem own_ofReceivables (h : OwnLines s) : ∀ t ∈ (ofReceivables chart s).txns,
    (ofReceivables chart s).Own t := by
  intro t ht l hl _
  rcases lines_ofReceivables h t ht l hl with hnone | hsame
  · simp [Txn.contactOf, hnone]
  · simp [Txn.contactOf, hsame]

theorem places_ofReceivables {strict : Prop} (h : Kept strict s 0 0) (hown : OwnLines s) :
    (ofReceivables chart s).InPlaces 4 where
  lines := by
    intro t ht l hl _
    obtain ⟨d, hd, rfl⟩ := List.mem_map.mp ht
    obtain ⟨x, hx, rfl⟩ := List.mem_map.mp hd
    exact (hown x hx l hl).debit.sub (hown x hx l hl).credit
  rows := fun r hr => (h.paid.whole r hr).settledBy.mono (by decide)
  totals := by
    intro t ht
    obtain ⟨d, hd, rfl⟩ := List.mem_map.mp ht
    obtain ⟨x, hx, rfl⟩ := List.mem_map.mp hd
    exact (h.paid.cents x hx).mono x.scale_le_four
  recoveries := fun r hr => by cases hr

/-- Every move of an orderly store is inside one client. -/
theorem oneClient_ofReceivables (h : Kept True s 0 0) (hown : OwnLines s) :
    ∀ m ∈ (ofReceivables chart s).moves q, (ofReceivables chart s).OneClient m := by
  intro m hm a ha b hb hsource hinvoice
  refine ⟨?_, own_ofReceivables hown a ha, own_ofReceivables hown b hb⟩
  obtain ⟨d, hd, rfl⟩ := List.mem_map.mp ha
  obtain ⟨e, he, rfl⟩ := List.mem_map.mp hb
  rcases mem_moves hm with ⟨r, hr, hmove⟩ | ⟨t, ht, hmove⟩ | ⟨ends, hends, -⟩
  · obtain ⟨hv, rfl⟩ := rowMove_some hmove
    obtain ⟨d', hd', e', he', hdid, heid, hpay⟩ := h.fits.links r hr hv
    obtain rfl := h.doc_eq hd hd' (hsource.trans hdid.symm)
    obtain rfl := h.doc_eq he he' (hinvoice.trans heid.symm)
    exact (hpay.customer trivial).symm
  · obtain ⟨f, -, rfl⟩ := List.mem_map.mp ht
    cases hmove
  · simp [ofReceivables] at hends

theorem orderly_ties_out (collate : String → String → Ordering) (chart : Chart) (uuids : Uuids)
    (units : List (List SalesOp))
    (h : Meets (salesStep chart) (fun s op => op.Orderly s) (Receivables.empty uuids) units) :
    ∀ s ∈ reached (salesStep chart) (Receivables.empty uuids) units, ∀ q : OpenItemsQuery,
      q.tagIds = [] → ∀ items moves, items.Perm ((ofReceivables chart s).items q) →
        moves.Perm ((ofReceivables chart s).moves q) →
          Agrees (ofReceivables chart s) q items moves
            (arOpenItemsAsOf collate (ofReceivables chart s) q items moves) := by
  intro s hs q htags items moves hitems hmoves
  have hkept : Kept True s 0 0 :=
    reached_keeps (fun _ _ _ h ho hs => salesStep_keeps h (fun _ => ho) hs) h (kept_empty uuids)
      s hs
  have hown := own_reached chart uuids units s hs
  have hids : ((ofReceivables chart s).txns.map fun t => t.id).Nodup := by
    rw [ofReceivables, List.map_map]
    exact hkept.keyed.docs
  obtain ⟨hleft, hsum⟩ := netted_spec hids le_rfl (places_ofReceivables hkept hown) hitems hmoves
  have hone : ∀ m ∈ moves, (ofReceivables chart s).OneClient m := fun m hm =>
    oneClient_ofReceivables hkept hown m (hmoves.mem_iff.mp hm)
  refine ⟨fun p => ?_, hone, lines_ofReceivables hown⟩
  rw [tally_perm (report_perm collate _ q items moves), sum_shown _ htags p hleft, hsum,
    sum_brought_one hitems hone, add_zero]

theorem orderly_ties_out_bounced :
    ∃ s ∈ reached (salesStep bankChart) (Receivables.empty strokeIds) bouncedRun, s.rows ≠ [] ∧
      Agrees (ofReceivables bankChart s) endOfApril ((ofReceivables bankChart s).items endOfApril)
        ((ofReceivables bankChart s).moves endOfApril)
        (arOpenItemsAsOf compare (ofReceivables bankChart s) endOfApril
          ((ofReceivables bankChart s).items endOfApril)
          ((ofReceivables bankChart s).moves endOfApril)) := by
  obtain ⟨s, hs, hrows⟩ : ∃ s ∈ reached (salesStep bankChart) (Receivables.empty strokeIds)
      bouncedRun, s.rows ≠ [] := by decide +kernel
  exact ⟨s, hs, hrows, orderly_ties_out compare bankChart strokeIds bouncedRun (by decide +kernel)
    s hs endOfApril rfl _ _ (List.Perm.refl _) (List.Perm.refl _)⟩

/-- The invoice moved to another client while its payment had bounced: what each client has open
moves to the other's item, nothing is shown or left out, and bob owes 100 in the ledger. -/
example : ∃ s ∈ reached (salesStep bankChart) (Receivables.empty strokeIds) movedRun,
    let src := ofReceivables bankChart s
    let items := src.items endOfApril
    let moves := src.moves endOfApril
    arOpenItemsAsOf compare src endOfApril items moves = [] ∧
      sumOf (fun c => c = some "bob") (unshown (netted items moves)) = 0 ∧
      src.balance endOfApril (fun c => c = some "bob") = 100 := by
  decide +kernel

end Run

end OpenItems

end MyBooks
