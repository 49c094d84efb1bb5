import MyBooks.ReconciledLines
import MyBooks.Balances
import MyBooks.Store

/-!
# What is stored balances

A posting adds up its amounts with 20 significant digits and compares the sums. Where no running
total is rounded (`AddsExactly`), a request that passes stores as much on the debit side as on the
credit side, and every transaction stays so: reversals mirror what they reverse, a partial edit
keeps lines that input lines repeat, and derived lines come and go in pairs.
-/

namespace MyBooks

section Sums

/-- No running total of the amounts, from `acc` on, is rounded to 20 digits. -/
def RunsExactly : Dec → List Dec → Prop
  | _, [] => True
  | acc, x :: xs => toSig 20 (acc + x) = acc + x ∧ RunsExactly (acc + x) xs

instance RunsExactly.decidable : ∀ acc xs, Decidable (RunsExactly acc xs)
  | _, [] => inferInstanceAs (Decidable True)
  | acc, x :: xs =>
    have := RunsExactly.decidable (acc + x) xs
    inferInstanceAs (Decidable (toSig 20 (acc + x) = acc + x ∧ RunsExactly (acc + x) xs))

/-- Adding up the debits, and the credits, of a request never rounds. -/
def AddsExactly (lines : List LineInput) : Prop :=
  RunsExactly 0 (lines.map fun l => round4 l.debit) ∧
    RunsExactly 0 (lines.map fun l => round4 l.credit)

instance (lines : List LineInput) : Decidable (AddsExactly lines) :=
  inferInstanceAs (Decidable (_ ∧ _))

theorem RunsExactly.foldl {α : Type} {f : α → Dec} : ∀ {xs : List α} {acc : Dec},
    RunsExactly acc (xs.map f) →
      xs.foldl (fun acc x => plus acc (f x)) acc = acc + (xs.map f).sum
  | [], acc, _ => by simp
  | x :: xs, acc, h => by
    have hstep : plus acc (f x) = acc + f x := h.1
    rw [List.foldl_cons, hstep, RunsExactly.foldl h.2, List.map_cons, List.sum_cons, add_assoc]

/-- Totals below `10 ^ 16` are exact. -/
theorem runsExactly_of_lt : ∀ {xs : List Dec} {acc : Dec}, Places 4 acc → (∀ x ∈ xs, Places 4 x) →
    |acc| + (xs.map fun x => |x|).sum < 10 ^ 16 → RunsExactly acc xs
  | [], _, _, _, _ => trivial
  | x :: xs, acc, hacc, hx, hlt => by
    have hsum : Places 4 (acc + x) := hacc.add (hx x List.mem_cons_self)
    rw [List.map_cons, List.sum_cons] at hlt
    have hrest : 0 ≤ (xs.map fun x => |x|).sum := List.sum_nonneg fun y hy => by
      obtain ⟨z, -, rfl⟩ := List.mem_map.mp hy
      exact abs_nonneg z
    have habs := abs_add_le acc x
    exact ⟨toSig_20 hsum (by linarith), runsExactly_of_lt hsum
      (fun y hy => hx y (List.mem_cons_of_mem _ hy)) (by linarith)⟩

theorem gap_stored (t : Id) (lines : List LineInput) : gap (lines.map (LineInput.stored t)) =
    (lines.map fun l => round4 l.debit).sum - (lines.map fun l => round4 l.credit).sum := by
  rw [eq_sub_iff_add_eq, gap, List.map_map, ← List.sum_map_add]
  refine congrArg List.sum (List.map_congr_left fun l _ => ?_)
  simp [LineInput.stored]

/-- A request that passes stores lines that balance. -/
theorem assertBalanced_gap {t : Id} {lines : List LineInput} {r : Dec × Dec}
    (hx : AddsExactly lines) (h : assertBalanced lines = .ok r) :
    gap (lines.map (LineInput.stored t)) = 0 := by
  simp only [assertBalanced, ite_error_eq_ok, not_not] at h
  have heq := h.1
  rw [hx.1.foldl, hx.2.foldl, zero_add, zero_add] at heq
  rw [gap_stored, heq, sub_self]

end Sums

section Exact

variable {b b' : Books} {stock stock' : List StockRow} {links : Links} {t k : Id}

/-- The lines of every transaction balance: its own lines, and the derived lines of each stock row,
which its document holds. -/
structure Exact (b : Books) (stock : List StockRow) (links : Links) : Prop where
  rows : b.Rows
  reversals : ∀ l ∈ b.lines, l.isVoidReversal = true →
    b.status l.transactionId = some .void ∨ b.status l.transactionId = some .deleted
  own : ∀ t, gap (ownLines b links t) = 0
  groups : ∀ t k, Derivable links (groupOf b links t k)
  held : ∀ l ∈ b.lines, ∀ k, rowOf links l = some k →
    ∃ r ∈ stock, r.id = k ∧ r.transactionId = l.transactionId

/-- Where the lines of each row balance, the others make up the difference. -/
theorem gap_of_groups {ls : List JournalLine} (key : JournalLine → Option Id)
    (h : ∀ k, gap (ls.filter fun l => key l = some k) = 0) :
    gap ls = gap (ls.filter fun l => key l = none) := by
  set net : JournalLine → Dec := fun l => l.debit - l.credit with hnet
  set keys := ((ls.filterMap key).dedup).map some with hkeys
  have hnodup : keys.Nodup := (List.nodup_dedup _).map (Option.some_injective _)
  have hgap : ∀ p : JournalLine → Bool, gap (ls.filter p) = tally p net ls := fun p => rfl
  have hmem : ∀ l ∈ ls, key l ∈ keys ↔ (key l).isSome = true := by
    intro l hl
    rcases hk : key l with _ | k
    · simp [hkeys]
    · have : some k ∈ keys := List.mem_map_of_mem (List.mem_dedup.mpr
        (List.mem_filterMap.mpr ⟨l, hl, hk⟩))
      simp [this]
  have hzero : tally (fun l => true && (key l).isSome) net ls = 0 := by
    refine (tally_congr (fun l hl => ?_) fun _ _ _ => rfl).trans
      ((sum_tally_key (p := fun _ => true) (w := net) key hnodup ls).symm.trans ?_)
    · rw [Bool.eq_iff_iff]
      simpa using (hmem l hl).symm
    · refine List.sum_eq_zero fun x hx => ?_
      obtain ⟨o, ho, rfl⟩ := List.mem_map.mp hx
      obtain ⟨k, -, rfl⟩ := List.mem_map.mp ho
      simpa [hgap] using h k
  have hall : gap ls = tally (fun _ => true) net ls := by simp [gap, tally, hnet]
  rw [hall, tally_split (fun l => (key l).isSome), hzero, zero_add, hgap]
  exact tally_congr (fun l _ => by cases key l <;> rfl) fun _ _ _ => rfl

/-- Every transaction's stored lines balance. -/
theorem Exact.gap_linesOf (hx : Exact b stock links) (t : Id) : gap (b.linesOf t) = 0 := by
  rw [gap_of_groups (rowOf links) fun k => (hx.groups t k).gap_eq]
  exact hx.own t

theorem exact_of_nil (h : b.lines = []) : Exact b stock links := by
  have hnil : ∀ t, b.linesOf t = [] := fun t => by simp [Books.linesOf, h]
  refine ⟨Books.rows_of_nil h, by simp [h], fun t => ?_, fun t k => ?_, by simp [h]⟩
  · simp [ownLines, hnil]
  · rw [groupOf, hnil]
    exact derivable_nil

/-- A change of one document that leaves its own lines in balance. -/
theorem Exact.of_changes (hx : Exact b stock links) (h : b.ChangesOnly t b') (w : b'.Rows)
    (hrev : ∀ l ∈ b'.linesOf t, l.isVoidReversal = true →
      b'.status t = some .void ∨ b'.status t = some .deleted)
    (hown : gap (ownLines b' links t) = 0)
    (hgroups : ∀ k, Derivable links (groupOf b' links t k))
    (hheld : ∀ l ∈ b'.linesOf t, ∀ k, rowOf links l = some k →
      ∃ r ∈ stock, r.id = k ∧ r.transactionId = t) : Exact b' stock links where
  rows := w
  reversals l hl hr := by
    by_cases ht : l.transactionId = t
    · rw [ht]
      exact hrev l (Books.mem_linesOf.mpr ⟨hl, ht⟩) hr
    · rw [h.status ht]
      exact hx.reversals l ((h.mem ht).mp hl) hr
  own t' := by
    by_cases ht : t' = t
    · rw [ht]
      exact hown
    · rw [ownLines, h.linesOf ht]
      exact hx.own t'
  groups t' k := by
    by_cases ht : t' = t
    · rw [ht]
      exact hgroups k
    · rw [groupOf, h.linesOf ht]
      exact hx.groups t' k
  held l hl k hk := by
    by_cases ht : l.transactionId = t
    · rw [ht]
      exact hheld l (Books.mem_linesOf.mpr ⟨hl, ht⟩) k hk
    · exact hx.held l ((h.mem ht).mp hl) k hk

theorem Exact.of_frame (hx : Exact b stock links) (hl : b'.lines = b.lines) (ht : b'.txns = b.txns) :
    Exact b' stock links := by
  have hlines : ∀ t, b'.linesOf t = b.linesOf t := fun t => by rw [Books.linesOf, hl, Books.linesOf]
  refine ⟨hx.rows.of_frame hl ht, ?_, fun t => ?_, fun t k => ?_, ?_⟩
  · unfold Books.status
    rw [hl, ht]
    exact hx.reversals
  · rw [ownLines, hlines]
    exact hx.own t
  · rw [groupOf, hlines]
    exact hx.groups t k
  · rw [hl]
    exact hx.held

/-- A document whose lines are none of them derived. -/
theorem ownLines_eq (h : ∀ l ∈ b.linesOf t, rowOf links l = none) :
    ownLines b links t = b.linesOf t ∧ ∀ k, groupOf b links t k = [] := by
  refine ⟨List.filter_eq_self.mpr fun l hl => by simpa using h l hl, fun k => ?_⟩
  refine List.filter_eq_nil_iff.mpr fun l hl => ?_
  simp [h l hl]

theorem rowOf_stored {lines : List LineInput} {l : JournalLine}
    (h : l ∈ lines.map (LineInput.stored t)) : rowOf links l = none := by
  simp [rowOf, (mem_stored h).2.2.2.2]

/-- The document's lines are those of a request that balances. -/
theorem Exact.of_stored {lines : List LineInput} (hx : Exact b stock links)
    (h : b.ChangesOnly t b') (w : b'.Rows)
    (hlines : b'.linesOf t = lines.map (LineInput.stored t))
    (hgap : gap (lines.map (LineInput.stored t)) = 0) : Exact b' stock links := by
  have hrow : ∀ l ∈ b'.linesOf t, rowOf links l = none := fun l hl => by
    rw [hlines] at hl
    exact rowOf_stored hl
  obtain ⟨hown, hgroup⟩ := ownLines_eq hrow
  refine hx.of_changes h w (fun l hl hr => ?_) (by rw [hown, hlines, hgap]) (fun k => ?_) ?_
  · rw [hlines] at hl
    rw [(mem_stored hl).2.2.2.1] at hr
    cases hr
  · rw [hgroup]
    exact derivable_nil
  · intro l hl k hk
    rw [hrow l hl] at hk
    cases hk

end Exact

section Reverse

variable {b : Books} {stock : List StockRow} {links : Links} {t : Id} {txn : Txn}

theorem gap_reversals : ∀ {ls : List JournalLine} {ids : List Id}, ids.length = ls.length →
    gap (reversals t ls ids) = -gap ls
  | [], ids, _ => by simp [reversals]
  | l :: ls, [], h => by cases h
  | l :: ls, i :: ids, h => by
    have hrest := gap_reversals (Nat.succ.inj h)
    simp only [reversals] at hrest
    simp only [reversals, List.zipWith_cons_cons, gap, List.map_cons, List.sum_cons] at hrest ⊢
    rw [hrest]
    ring

/-- A document that stands has no reversals. -/
theorem Exact.no_reversals (hx : Exact b stock links) (ht : b.txns t = some txn)
    (hd : txn.status ≠ .deleted) (hv : txn.status ≠ .void) :
    ∀ l ∈ b.linesOf t, l.isVoidReversal = false := by
  intro l hl
  obtain ⟨hl, hlt⟩ := Books.mem_linesOf.mp hl
  rw [Bool.eq_false_iff]
  intro hr
  have hs : b.status t = some txn.status := by simp [Books.status, ht]
  rcases hx.reversals l hl hr with h | h <;> rw [hlt, hs, Option.some.injEq] at h
  · exact hv h
  · exact hd h

/-- Mirroring lines that balance leaves the document in balance. -/
theorem Exact.reverse {status : TxnStatus} {ls : List JournalLine} {ids : List Id}
    (hx : Exact b stock links) (ht : b.txns t = some txn)
    (hs : status = .void ∨ status = .deleted) (hlen : ids.length = ls.length) (hgap : gap ls = 0)
    (w : (b.reverseDocument t status ls ids).Rows) :
    Exact (b.reverseDocument t status ls ids) stock links := by
  have hlines : (b.reverseDocument t status ls ids).linesOf t =
      b.linesOf t ++ MyBooks.reversals t ls ids :=
    linesOf_addLines (b := b.setStatus t status) fun l hl => by
      obtain ⟨-, -, hlt, -⟩ := mem_reversals hl
      exact hlt
  have hrow : ∀ l ∈ MyBooks.reversals t ls ids, rowOf links l = none := fun l hl => by
    obtain ⟨-, -, -, -, -, hder⟩ := mem_reversals hl
    simp [rowOf, hder]
  have hnil : ∀ k, (MyBooks.reversals t ls ids).filter (fun l => rowOf links l = some k) = [] :=
    fun k => List.filter_eq_nil_iff.mpr fun l hl => by simp [hrow l hl]
  refine hx.of_changes reverseDocument_changes w (fun l _ _ => ?_) ?_ (fun k => ?_) ?_
  · rw [reverseDocument_status (by simp [ht])]
    rcases hs with rfl | rfl <;> simp
  · have hall : (MyBooks.reversals t ls ids).filter (fun l => rowOf links l = none) =
        MyBooks.reversals t ls ids :=
      List.filter_eq_self.mpr fun l hl => by simpa using hrow l hl
    rw [ownLines, hlines, List.filter_append, hall, gap_append, gap_reversals hlen, hgap, neg_zero,
      add_zero]
    exact hx.own t
  · rw [groupOf, hlines, List.filter_append, hnil, List.append_nil]
    exact hx.groups t k
  · intro l hl k hk
    rw [hlines] at hl
    rcases List.mem_append.mp hl with hl | hl
    · obtain ⟨hlb, hlt⟩ := Books.mem_linesOf.mp hl
      rw [← hlt]
      exact hx.held l hlb k hk
    · rw [hrow l hl] at hk
      cases hk

end Reverse

section PartialEdit

variable {b : Books} {stock : List StockRow} {links : Links} {t : Id} {txn : Txn}
  {input : PostInput} {contact : Option Id}

theorem takeMatch_gap {l : JournalLine} : ∀ {is : List LineInput} {i : LineInput}
    {rest : List LineInput}, takeMatch l is = some (i, rest) →
      gap (is.map (LineInput.stored t)) = (l.debit - l.credit) + gap (rest.map (LineInput.stored t))
  | [], i, rest, h => by simp [takeMatch] at h
  | i₀ :: is, i, rest, h => by
    simp only [takeMatch] at h
    split_ifs at h with hk
    · simp only [Option.some.injEq, Prod.mk.injEq] at h
      obtain ⟨rfl, rfl⟩ := h
      simp only [keeps, decide_eq_true_eq] at hk
      obtain ⟨-, hd, hc⟩ := hk
      simp [gap, LineInput.stored, hd, hc]
    · obtain ⟨⟨i', rest'⟩, htake, heq⟩ := Option.map_eq_some_iff.mp h
      simp only [Prod.mk.injEq] at heq
      have hrest := takeMatch_gap htake
      rw [← heq.2]
      simp only [gap, List.map_cons, List.sum_cons] at hrest ⊢
      rw [hrest]
      ring

/-- The lines kept and the lines left over come to the request. -/
theorem matchLines_gap : ∀ {ls : List JournalLine} {is : List LineInput}
    {kept : List (JournalLine × LineInput)} {rest : List LineInput},
    matchLines ls is = some (kept, rest) →
      gap (is.map (LineInput.stored t)) = gap ls + gap (rest.map (LineInput.stored t))
  | [], is, kept, rest, h => by
    simp only [matchLines, Option.some.injEq, Prod.mk.injEq] at h
    rw [← h.2, gap_nil, zero_add]
  | l :: ls, is, kept, rest, h => by
    simp only [matchLines] at h
    rcases htake : takeMatch l is with _ | ⟨i, others⟩
    · simp [htake] at h
    simp only [htake, Option.map_eq_some_iff] at h
    obtain ⟨⟨kept', rest'⟩, hmatch, heq⟩ := h
    rw [← (Prod.mk.inj heq).2, takeMatch_gap htake, matchLines_gap hmatch, ← add_assoc]
    rfl

theorem gap_retag (kept : List (JournalLine × LineInput)) (ls : List JournalLine) :
    gap (ls.map (retag kept)) = gap ls := by
  rw [gap, gap, List.map_map]
  refine congrArg List.sum (List.map_congr_left fun l _ => ?_)
  simp only [Function.comp_apply, (retag_row l).2.2.1, (retag_row l).2.2.2.1]

theorem rowOf_retag (kept : List (JournalLine × LineInput)) (l : JournalLine) :
    rowOf links (retag kept l) = rowOf links l := by
  unfold retag
  split <;> rfl

/-- An edit of a reconciled document without stock. -/
theorem Exact.reconciledEdit {kept : List (JournalLine × LineInput)} {new : List LineInput}
    (hx : Exact b stock links) (ht : b.txns t = some txn) (hd : txn.status ≠ .deleted)
    (hv : txn.status ≠ .void) (hstock : ∀ r ∈ stock, r.transactionId ≠ t)
    (hgap : gap (input.lines.map (LineInput.stored t)) = 0)
    (hp : partialEdit b t txn.txnDate input = some (kept, new))
    (hins : b.insertable (new.map (LineInput.stored t)) = true) :
    Exact (b.reconciledEdit t txn contact kept new) stock links := by
  have hrev := hx.no_reversals ht hd hv
  have hlines : (b.reconciledEdit t txn contact kept new).linesOf t =
      (b.balanceSheetLines t).map (retag kept) ++ new.map (LineInput.stored t) := by
    have hfilter : (b.linesOf t).filter (fun l => ¬(decide (¬b.isBalanceSheet l.accountId = true ∧
        ¬l.isVoidReversal = true)) = true) = b.balanceSheetLines t := by
      rw [Books.balanceSheetLines, Books.editable, List.filter_filter]
      refine List.filter_congr fun l hl => ?_
      simp [hrev l hl]
    rw [← hfilter]
    show ((b.post _).editLines t kept ((b.replacedLines t).map JournalLine.id) new).linesOf t = _
    rw [replacedLines_eq]
    exact editLines_linesOf (b := b.post _) hx.rows.post
  have hnone : ∀ l ∈ b.linesOf t, rowOf links l = none := by
    intro l hl
    obtain ⟨hlb, hlt⟩ := Books.mem_linesOf.mp hl
    rcases hk : rowOf links l with _ | k
    · rfl
    · obtain ⟨r, hr, -, hrt⟩ := hx.held l hlb k hk
      exact absurd (hrt.trans hlt) (hstock r hr)
  have hnone' : ∀ l ∈ (b.reconciledEdit t txn contact kept new).linesOf t, rowOf links l = none := by
    intro l hl
    rw [hlines] at hl
    rcases List.mem_append.mp hl with hl | hl
    · obtain ⟨l₀, hl₀, rfl⟩ := List.mem_map.mp hl
      rw [rowOf_retag]
      exact hnone l₀ (mem_balanceSheetLines.mp hl₀).1
    · exact rowOf_stored hl
  obtain ⟨hown, hgroup⟩ := ownLines_eq hnone'
  refine hx.of_changes (reconciledEdit_changes hx.rows (kept_mem hp))
    (reconciledEdit_rows hx.rows ht hins) (fun l hl hr => ?_) ?_ (fun k => ?_) ?_
  · rw [hlines] at hl
    rcases List.mem_append.mp hl with hl | hl
    · obtain ⟨l₀, hl₀, rfl⟩ := List.mem_map.mp hl
      rw [(retag_row l₀).2.2.2.2, (mem_balanceSheetLines.mp hl₀).2.1] at hr
      cases hr
    · rw [(mem_stored hl).2.2.2.1] at hr
      cases hr
  · rw [hown, hlines, gap_append, gap_retag, ← matchLines_gap (partialEdit_some hp).2.1, hgap]
  · rw [hgroup]
    exact derivable_nil
  · intro l hl k hk
    rw [hnone' l hl] at hk
    cases hk

end PartialEdit

section Apply

variable {s : Stocked} {b b' : Books} {t : Id} {w : Walked} {a : Costed} {oa : Option Costed}
  {lock : Bool}

theorem apply_ok (h : apply s b t w = .ok a) :
    ((stockRows s.rows t (b.isPosted t) w).map (·.id)).Nodup ∧
      a.rows = stockRows s.rows t (b.isPosted t) w ∧
      a.links = newLinks b s.links w (liveRows b w a.rows) ∧
      a.costing = reconcileLines b s.links w (liveRows b w a.rows) := by
  unfold apply at h
  dsimp only at h
  split_ifs at h with hn
  rw [← Except.ok.inj h]
  exact ⟨hn, rfl, rfl, rfl⟩

theorem applyLocked_ok (h : applyLocked s b t lock w = .ok oa) :
    lock = false ∧ oa = none ∨ lock = true ∧ ∃ a, oa = some a ∧ apply s b t w = .ok a := by
  cases lock with
  | false => exact .inl ⟨rfl, by simpa [applyLocked, eq_comm] using h⟩
  | true =>
    obtain ⟨a, ha, rfl⟩ := map_eq_ok.mp h
    exact .inr ⟨rfl, a, rfl, ha⟩

/-- A row of another document stays, and so does one of a document no longer posted. -/
theorem stockRows_mem {rows : List StockRow} {posted : Bool} {r : StockRow} (hr : r ∈ rows)
    (ht : r.transactionId = t → posted = false) :
    ∃ r' ∈ stockRows rows t posted w, r'.id = r.id ∧ r'.transactionId = r.transactionId := by
  by_cases heq : r.transactionId = t
  · refine ⟨{ r with voided := true }, List.mem_append_right _ ?_, rfl, rfl⟩
    rw [ht heq, if_neg (by simp)]
    exact List.mem_map_of_mem (List.mem_filter.mpr ⟨hr, by simpa using heq⟩)
  · have hmem : r ∈ rows.filter (·.transactionId ≠ t) :=
      List.mem_filter.mpr ⟨hr, by simpa using heq⟩
    refine ⟨_, List.mem_append_left _ (List.mem_map_of_mem hmem), ?_, ?_⟩ <;> split <;> rfl

/-- Reconciling derived lines leaves every transaction in balance. -/
theorem Exact.applied (hx : Exact b s.rows s.links)
    (hown : b.isPosted t = true → ∀ l ∈ b.linesOf t, rowOf s.links l = none)
    (ha : apply s b t w = .ok a) (hc : applyCosting b a.costing = .ok b') :
    Exact b' a.rows a.links := by
  obtain ⟨hn, hrows, hlinks, hcosting⟩ := apply_ok ha
  rw [hcosting] at hc
  have hlive : ∀ m ∈ liveRows b w a.rows, m ∈ a.rows ∧ b.isPosted m.transactionId = true := by
    intro m hm
    obtain ⟨hm, hp⟩ := List.mem_filter.mp hm
    simp only [decide_eq_true_eq] at hp
    exact ⟨hm, hp.2.2⟩
  have hr : Reconciles b b' s.links w (liveRows b w a.rows) := by
    refine ⟨hx.rows, ?_, fun m hm => (hlive m hm).2, hc⟩
    rw [← hrows] at hn
    exact hn.sublist (List.filter_sublist.map _)
  obtain ⟨-, -, -, htxns, hlines, -⟩ := applyCosting_ok hc
  rw [hr.inserted_eq] at hlines
  have hstatus : ∀ t, b'.status t = b.status t := fun t => by rw [Books.status, htxns, Books.status]
  rw [hlinks]
  refine ⟨applyCosting_rows hx.rows hc, fun l hl hrev => ?_, fun t => ?_, fun t k => ?_,
    fun l hl k hk => ?_⟩
  · rw [hlines] at hl
    rcases List.mem_append.mp hl with hl | hl
    · obtain ⟨l₀, hl₀, rfl⟩ := List.mem_map.mp hl
      obtain ⟨-, htxn, -, hr₀⟩ := rewritten_row
        (b := b) (c := reconcileLines b s.links w (liveRows b w a.rows)) l₀
      rw [htxn, hstatus]
      exact hx.reversals l₀ (List.mem_of_mem_filter hl₀) (hr₀.symm.trans hrev)
    · obtain ⟨p, hp, rfl⟩ := List.mem_map.mp hl
      obtain ⟨m, -, x, i, rfl⟩ := Reconciles.mem_insertedLines hp
      cases hrev
  · rw [hr.ownLines_after]
    exact hx.own t
  · exact hr.groups_after hx.groups t k
  · rw [hlines] at hl
    rcases List.mem_append.mp hl with hl | hl
    · obtain ⟨l₀, hl₀, rfl⟩ := List.mem_map.mp hl
      have hl₀ := List.mem_of_mem_filter hl₀
      rw [hr.rowOf_rewritten hl₀] at hk
      obtain ⟨r, hrm, hid, htxn⟩ := hx.held l₀ hl₀ k hk
      obtain ⟨r', hr', hid', htxn'⟩ := @stockRows_mem t w _ (b.isPosted t) _ hrm
        fun ht => by
          rw [Bool.eq_false_iff]
          intro hp
          have := hown hp l₀ (Books.mem_linesOf.mpr ⟨hl₀, htxn.symm.trans ht⟩)
          rw [this] at hk
          cases hk
      rw [hrows, (rewritten_row l₀).2.1]
      exact ⟨r', hr', hid'.trans hid, htxn'.trans htxn⟩
    · obtain ⟨p, hp, rfl⟩ := List.mem_map.mp hl
      have hlink := hr.newLinks_new hp
      obtain ⟨m, hm, x, i, rfl⟩ := Reconciles.mem_insertedLines hp
      simp only [newLine] at hlink
      simp only [rowOf, Reconciles.storedLine, newLine, hlink] at hk
      exact ⟨m, (hlive m hm).1, by simpa using hk, rfl⟩

/-- What a posting's books come to once its stock is settled. -/
theorem Exact.settled {entries : List Entry} {store : Store} {costing : Option Costing}
    (hx : Exact b s.rows s.links)
    (hown : b.isPosted t = true → ∀ l ∈ b.linesOf t, rowOf s.links l = none)
    (ha : applyLocked s b t lock w = .ok oa)
    (hcosting : costing = oa.map (·.costing))
    (hc : costed (b.post entries) costing = .ok store.books) :
    Exact (s.after store oa).store.books (s.after store oa).rows (s.after store oa).links := by
  have hpost : Exact (b.post entries) s.rows s.links := hx.of_frame rfl rfl
  rcases applyLocked_ok ha with ⟨-, rfl⟩ | ⟨-, a, rfl, ha'⟩
  · rw [hcosting] at hc
    have heq : b.post entries = store.books := Except.ok.inj hc
    show Exact store.books s.rows s.links
    rwa [← heq]
  · rw [hcosting] at hc
    exact hpost.applied (b := b.post entries) hown ha' hc

end Apply

section Steps

variable {s s' : Stocked} {t : Id} {input : PostInput} {refusal : Refusal} {w : Walked}

def Stocked.Exact (s : Stocked) : Prop := MyBooks.Exact s.store.books s.rows s.links

theorem postTransaction_checked {s s' : Store} {costing : Option Costing}
    (h : postTransaction s t input refusal costing = .ok s') :
    ∃ r, assertBalanced input.lines = .ok r := by
  simp only [postTransaction, bind_eq_ok] at h
  obtain ⟨r, hr, -⟩ := h
  exact ⟨r, hr⟩

theorem updateTransaction_checked {s s' : Store} {ap : Bool} {costing : Option Costing}
    (h : updateTransaction s t input ap refusal costing = .ok s') :
    (∃ r, assertBalanced input.lines = .ok r) ∧ (s.reconciled t = true → costing = none) := by
  simp only [updateTransaction, bind_eq_ok] at h
  obtain ⟨r, hr, h⟩ := h
  refine ⟨⟨r, hr⟩, fun hrec => ?_⟩
  rcases htxn : s.books.txns t with _ | txn
  · simp [htxn] at h
  simp only [htxn, ite_error_eq_ok, bind_eq_ok, hrec, if_true] at h
  obtain ⟨-, -, -, -, -, -, h, -⟩ := h
  simpa using h

theorem voidTransaction_ids {s s' : Store} {ids : List Id} {costing : Option Costing} {txn : Txn}
    (ht : s.books.txns t = some txn) (h : voidTransaction s t ids refusal costing = .ok s') :
    ids.length = (s.books.voidedLines t txn).length := by
  simp only [voidTransaction, ht, ite_error_eq_ok, bind_eq_ok, not_or, not_not] at h
  obtain ⟨-, -, -, -, -, ⟨hlen, -⟩, -⟩ := h
  exact hlen

theorem deleteTransaction_ids {s s' : Store} {ids : List Id} {costing : Option Costing} {txn : Txn}
    (ht : s.books.txns t = some txn) (h : deleteTransaction s t ids refusal costing = .ok s') :
    ids.length = (s.books.deletedLines t txn).length := by
  simp only [deleteTransaction, ht, ite_error_eq_ok, bind_eq_ok, not_or, not_not] at h
  obtain ⟨-, -, -, -, -, -, ⟨hlen, -⟩, -⟩ := h
  exact hlen

theorem isPosted_of_status {b : Books} {st : TxnStatus} (h : b.status t = some st) :
    b.isPosted t = decide (st = .posted) := by
  simp [Books.isPosted, h]

theorem post_exact {parts : Bool} (hx : s.Exact) (hadds : AddsExactly input.lines)
    (h : stockedStep s (.post t input refusal parts w) = .ok s') : s'.Exact := by
  have h := onLedger_ok.mp h
  simp only [bind_eq_ok, pure_eq_ok] at h
  obtain ⟨oa, ha, store, hp, rfl⟩ := h
  obtain ⟨r, hr⟩ := postTransaction_checked hp
  obtain ⟨ht, hins, b, rfl, hb⟩ := postTransaction_ok hp
  have hlines : (input.booked s.store.books t).linesOf t = input.lines.map (LineInput.stored t) := by
    rw [PostInput.booked, linesOf_addLines fun _ hl => (mem_stored hl).1]
    show s.store.books.linesOf t ++ _ = _
    rw [linesOf_nil hx.rows ht, List.nil_append]
  have hbooked : MyBooks.Exact (input.booked s.store.books t) s.rows s.links :=
    hx.of_stored booked_changes (booked_rows hx.rows ht hins) hlines (assertBalanced_gap hadds hr)
  have hposted : (input.booked s.store.books t).isPosted t =
      decide (input.status.getD .posted = .posted) :=
    isPosted_of_status (by simp [PostInput.booked, Books.status])
  have hown : ∀ l ∈ (input.booked s.store.books t).linesOf t, rowOf s.links l = none := fun l hl => by
    rw [hlines] at hl
    exact rowOf_stored hl
  by_cases hs : input.status.getD .posted = .posted
  · rw [if_pos hs] at hb
    refine hbooked.settled (fun _ => hown) ha ?_ hb
    rw [hposted] at ha
    rcases applyLocked_ok ha with ⟨hlock, rfl⟩ | ⟨hlock, a, rfl, -⟩
    · have : parts = false := by simpa [hs] using hlock
      simp [this]
    · have : parts = true := by simpa [hs] using hlock
      simp [this]
  · rw [if_neg hs] at hb
    rw [hposted] at ha
    rcases applyLocked_ok ha with ⟨-, rfl⟩ | ⟨hlock, -⟩
    · rw [hb]
      exact hbooked
    · simp [hs] at hlock

theorem update_exact {ap parts : Bool} (hx : s.Exact) (hadds : AddsExactly input.lines)
    (h : stockedStep s (.update t input ap refusal parts w) = .ok s') : s'.Exact := by
  have h := onLedger_ok.mp h
  rcases htxn : s.store.books.txns t with _ | txn
  · simp [htxn] at h
  simp only [htxn, bind_eq_ok, pure_eq_ok] at h
  obtain ⟨oa, ha, store, hu, rfl⟩ := h
  obtain ⟨⟨r, hr⟩, hnone⟩ := updateTransaction_checked hu
  have hgap : gap (input.lines.map (LineInput.stored t)) = 0 := assertBalanced_gap hadds hr
  obtain ⟨txn', ht', hd, hv, hu⟩ := updateTransaction_ok hu
  obtain rfl : txn' = txn := Option.some.inj (ht'.symm.trans htxn)
  have hposted : (s.store.books.rewritten t txn' input).isPosted t =
      decide (txn'.status = .posted) := isPosted_of_status rewritten_status
  rw [hposted] at ha
  cases hrec : s.store.reconciled t with
  | true =>
    rw [hrec, if_pos rfl] at hu
    obtain ⟨kept, new, hp, hins, rfl⟩ := updateReconciled_ok hu
    -- a costing lock would have refused the edit
    have hlock := hnone hrec
    have hstock : ∀ r ∈ s.rows, r.transactionId ≠ t := by
      intro r hr hrt
      have : s.holdsStock t false = true := List.any_eq_true.mpr ⟨r, hr, by simpa using hrt⟩
      simp [this] at hlock
    rcases applyLocked_ok ha with ⟨-, rfl⟩ | ⟨hl, -⟩
    · exact hx.reconciledEdit htxn hd hv hstock hgap hp hins
    · simp [hrec] at hl
  | false =>
    rw [hrec, if_neg (by simp)] at hu
    obtain ⟨hins, b, rfl, hb⟩ := updateFull_ok hu
    have hbooks : MyBooks.Exact (s.store.books.rewritten t txn' input) s.rows s.links :=
      hx.of_stored rewritten_changes (rewritten_rows hx.rows htxn hins) rewritten_linesOf hgap
    have hown : ∀ l ∈ (s.store.books.rewritten t txn' input).linesOf t, rowOf s.links l = none :=
      fun l hl => by
        rw [rewritten_linesOf] at hl
        exact rowOf_stored hl
    by_cases hs : txn'.status = .posted
    · rw [if_pos hs] at hb
      refine hbooks.settled (fun _ => hown) ha ?_ hb
      rcases applyLocked_ok ha with ⟨hlock, rfl⟩ | ⟨hlock, a, rfl, -⟩
      · have hl : ¬(parts = true ∨ s.holdsStock t false = true) := by simpa [hs, hrec] using hlock
        simp [hl]
      · have hl : parts = true ∨ s.holdsStock t false = true := by simpa [hs, hrec] using hlock
        simp [hl]
    · rw [if_neg hs] at hb
      rcases applyLocked_ok ha with ⟨-, rfl⟩ | ⟨hlock, -⟩
      · rw [hb]
        exact hbooks
      · simp [hs] at hlock

theorem void_exact {ids : List Id} (hx : s.Exact)
    (h : stockedStep s (.void t ids refusal w) = .ok s') : s'.Exact := by
  have h := onLedger_ok.mp h
  rcases htxn : s.store.books.txns t with _ | txn
  · simp [htxn] at h
  simp only [htxn, bind_eq_ok, pure_eq_ok] at h
  obtain ⟨oa, ha, store, hv, rfl⟩ := h
  have hlen := voidTransaction_ids htxn hv
  obtain ⟨txn', ht', hd, hnv, -, hins, b, rfl, hb⟩ := voidTransaction_ok hv
  obtain rfl : txn' = txn := Option.some.inj (ht'.symm.trans htxn)
  have hall : s.store.books.voidedLines t txn' = s.store.books.linesOf t := by
    unfold Books.voidedLines
    split_ifs
    · exact List.filter_eq_self.mpr fun l hl => by simp [hx.no_reversals htxn hd hnv l hl]
    · rfl
  set bv := s.store.books.reverseDocument t .void (s.store.books.voidedLines t txn') ids with hbv
  have hreversed : MyBooks.Exact bv s.rows s.links :=
    hx.reverse htxn (.inl rfl) hlen (by rw [hall]; exact hx.gap_linesOf t)
      (reverseDocument_rows hx.rows (by simp [htxn]) (by simp) voidedLines_subset hins)
  have hnot : bv.isPosted t = true → ∀ l ∈ bv.linesOf t, rowOf s.links l = none := by
    intro hp
    rw [isPosted_of_status (reverseDocument_status (by simp [htxn]))] at hp
    cases hp
  dsimp only at hb
  split_ifs at hb with htype
  · rcases applyLocked_ok ha with ⟨-, rfl⟩ | ⟨hl, -⟩
    · obtain ⟨hlines, htxns, -⟩ := foldl_post_frame (s.store.books.voidedLines t txn') bv
      rw [hb]
      exact hreversed.of_frame hlines htxns
    · simp [htype] at hl
  · exact hreversed.settled hnot ha rfl hb

theorem delete_exact {ids : List Id} (hx : s.Exact)
    (h : stockedStep s (.delete t ids refusal w) = .ok s') : s'.Exact := by
  have h := onLedger_ok.mp h
  rcases htxn : s.store.books.txns t with _ | txn
  · simp [htxn] at h
  simp only [htxn, bind_eq_ok, pure_eq_ok] at h
  obtain ⟨oa, ha, store, hv, rfl⟩ := h
  have hlen := deleteTransaction_ids htxn hv
  obtain ⟨txn', ht', hd, -, hins, b, rfl, hb⟩ := deleteTransaction_ok hv
  obtain rfl : txn' = txn := Option.some.inj (ht'.symm.trans htxn)
  have hgap : gap (s.store.books.deletedLines t txn') = 0 := by
    unfold Books.deletedLines
    split_ifs
    · exact hx.gap_linesOf t
    · rfl
  have hreversed := hx.reverse htxn (.inr rfl) hlen hgap
    (reverseDocument_rows hx.rows (by simp [htxn]) (by simp) deletedLines_subset hins)
  refine hreversed.settled (fun hp => ?_) ha rfl hb
  rw [isPosted_of_status (reverseDocument_status (by simp [htxn]))] at hp
  cases hp

/-- Adding up what a posting or an edit asks for never rounds. -/
def StockedOp.addsExactly : StockedOp → Prop
  | .post _ input _ _ _ => AddsExactly input.lines
  | .update _ input _ _ _ _ => AddsExactly input.lines
  | _ => True

instance : ∀ op : StockedOp, Decidable op.addsExactly
  | .post _ input _ _ _ => inferInstanceAs (Decidable (AddsExactly input.lines))
  | .update _ input _ _ _ _ => inferInstanceAs (Decidable (AddsExactly input.lines))
  | .void .. | .delete .. | .reconciliation .. => inferInstanceAs (Decidable True)

theorem step_exact {op : StockedOp} (hx : s.Exact) (hadds : op.addsExactly)
    (h : stockedStep s op = .ok s') : s'.Exact := by
  cases op
  case post => exact post_exact hx hadds h
  case update => exact update_exact hx hadds h
  case void => exact void_exact hx h
  case delete => exact delete_exact hx h
  case reconciliation op =>
    simp only [stockedStep, ite_error_eq_ok] at h
    obtain ⟨hop, h⟩ := h
    obtain ⟨store, hstep, rfl⟩ := map_eq_ok.mp h
    have hbooks := step_books (Bool.eq_false_iff.mpr hop) hstep
    exact Exact.of_frame (b := s.store.books) hx (by rw [hbooks]) (by rw [hbooks])

/-- The debits of the transaction's stored lines come to its credits. -/
def Books.Even (b : Books) (t : Id) : Prop :=
  ((b.linesOf t).map (·.debit)).sum = ((b.linesOf t).map (·.credit)).sum

instance (b : Books) (t : Id) : Decidable (b.Even t) :=
  inferInstanceAs (Decidable (_ = _))

theorem even_of_gap {b : Books} (h : gap (b.linesOf t) = 0) : b.Even t := by
  have hsplit : gap (b.linesOf t) + ((b.linesOf t).map (·.credit)).sum =
      ((b.linesOf t).map (·.debit)).sum := by
    rw [gap, ← List.sum_map_add]
    exact congrArg List.sum (List.map_congr_left fun l _ => by ring)
  rw [Books.Even, ← hsplit, h, zero_add]

/-- Where no request makes the sums round, every transaction's stored lines balance in every state
of the run. -/
theorem reached_even {units : List (List StockedOp)} (hnew : s.store.books.lines = [])
    (hm : Meets stockedStep (fun _ op => op.addsExactly) s units) :
    ∀ s' ∈ reached stockedStep s units, ∀ t, s'.store.books.Even t := fun s' hs' t =>
  even_of_gap ((reached_keeps (P := Stocked.Exact) (fun _ _ _ hx hadds h => step_exact hx hadds h)
    hm (exact_of_nil hnew) s' hs').gap_linesOf t)

end Steps

section NewLedger

/-- The new books with no stock. -/
def newLedger : Stocked := ⟨newBooks, [], fun _ => none⟩

/-- The walk sells the rows `own` at their values and moves the others to `figures`. -/
def sold (own : List StockRow) (figures : Id → Option (Dec × Dec × Dec)) (changed : List Id) :
    Walked where
  own := own
  figures := figures
  changed := changed
  part := fun _ => ⟨"inventory", "cogs"⟩
  itemLine := fun _ => some ("sales", none)
  newId := fun m i => if i = 0 then m ++ "-asset" else m ++ "-cost"

/-- Two sales of a part; the second one gives the first one's cost a new amount, and is voided. -/
def twoSales : List (List StockedOp) :=
  [[.post "first" (saleInput none "2026-01-05" "l1" "l2" 90) none true
      (sold [⟨"m1", "first", .derived, -30, 0, 0, false⟩] (fun _ => none) ["m1"])],
    [.post "second" (saleInput none "2026-01-04" "l3" "l4" 95) none true
      (sold [⟨"m2", "second", .derived, -30, 0, 0, false⟩]
        (fun m => if m = "m1" then some (-(655 / 20), 0, 0) else none) ["m1", "m2"])],
    [.void "second" ["l5", "l6", "l7", "l8"] none
      (sold [] (fun m => if m = "m1" then some (-30, 0, 0) else none) ["m1"])]]

theorem twoSales_even : (reached stockedStep newLedger twoSales).Forall fun s' =>
    ∀ t, s'.store.books.Even t :=
  List.forall_iff_forall_mem.mpr (reached_even rfl (by decide +kernel))

example : ((reached stockedStep newLedger twoSales).map fun s' => s'.store.books.lines.length) =
    [0, 4, 8, 12] := by decide +kernel

/-- Eleven debits of the largest amount a column holds, and the same credits with a tenth of a
thousandth more. -/
def largeEntry : PostInput :=
  let top : Dec := 9999999999999999999 / 10000
  ⟨.journalEntry, "2026-01-05", none, none,
    (["a1", "a2", "a3", "a4", "a5", "a6", "a7", "a8", "a9", "a10", "a11"].map fun a =>
      ⟨a, a, top, 0, none⟩) ++
    (["b1", "b2", "b3", "b4", "b5", "b6", "b7", "b8", "b9", "b10", "b11"].map fun a =>
      ⟨a, a, 0, top, none⟩) ++ [⟨"b12", "b12", 0, 1 / 10000, none⟩]⟩

def StockedOp.lineCount : StockedOp → ℕ
  | .post _ input _ _ _ => input.lines.length
  | .update _ input _ _ _ _ => input.lines.length
  | _ => 0

theorem largeEntry_uneven :
    ¬∀ (s : Stocked) (units : List (List StockedOp)), s.store.books.lines = [] →
      (∀ u ∈ units, ∀ op ∈ u, op.lineCount ≤ 500) →
      ∀ s' ∈ reached stockedStep s units, ∀ t, s'.store.books.Even t := by
  intro hall
  have hrun : ∃ s' ∈ reached stockedStep newLedger
      [[.post "entry" largeEntry none false (sold [] (fun _ => none) [])]],
      ¬s'.store.books.Even "entry" := by decide +kernel
  obtain ⟨s', hs', hne⟩ := hrun
  exact hne (hall newLedger _ rfl (by decide +kernel) s' hs' "entry")

end NewLedger

end MyBooks
