import MyBooks.PostingSteps

/-!
# Documents and their rows

Each posting path works on one document: it leaves the rows and headers of the others as they are
(`ChangesOnly`), and the rows of the books stay in order (`Rows`): keys are unique, every row has
its header, amounts are what the columns hold, and reversals belong to documents that are no longer
posted.
-/

namespace MyBooks

namespace Books

/-- The rows of the books are in order. -/
structure Rows (b : Books) : Prop where
  ids : (b.lines.map (·.id)).Nodup
  known : ∀ l ∈ b.lines, b.txns l.transactionId ≠ none
  amounts : ∀ l ∈ b.lines, Places 4 l.debit ∧ Places 4 l.credit
  fits : ∀ l ∈ b.lines, l.fits = true
  reversals : ∀ l ∈ b.lines, l.isVoidReversal = true → b.status l.transactionId ≠ some .posted

/-- Nothing changes but the document `t` and the balances. -/
structure ChangesOnly (t : Id) (b b' : Books) : Prop where
  lines : b'.lines.filter (fun l => l.transactionId ≠ t) =
    b.lines.filter (fun l => l.transactionId ≠ t)
  txns : ∀ t', t' ≠ t → b'.txns t' = b.txns t'

variable {b b' : Books} {t : Id}

theorem rows_of_nil (h : b.lines = []) : b.Rows := by
  refine ⟨by simp [h], ?_, ?_, ?_, ?_⟩ <;> simp [h]

theorem ChangesOnly.refl (t : Id) (b : Books) : ChangesOnly t b b := ⟨rfl, fun _ _ => rfl⟩

theorem ChangesOnly.of_frame (hl : b'.lines = b.lines) (ht : b'.txns = b.txns) :
    ChangesOnly t b b' :=
  ⟨by rw [hl], fun _ _ => by rw [ht]⟩

theorem ChangesOnly.trans {b'' : Books} (h : ChangesOnly t b b') (h' : ChangesOnly t b' b'') :
    ChangesOnly t b b'' :=
  ⟨h'.lines.trans h.lines, fun t' ht => (h'.txns t' ht).trans (h.txns t' ht)⟩

theorem ChangesOnly.status (h : ChangesOnly t b b') {t' : Id} (ht : t' ≠ t) :
    b'.status t' = b.status t' := by
  rw [Books.status, Books.status, h.txns t' ht]

/-- A row of another document is there before as after. -/
theorem ChangesOnly.mem (h : ChangesOnly t b b') {l : JournalLine} (hl : l.transactionId ≠ t) :
    l ∈ b'.lines ↔ l ∈ b.lines := by
  have hmem := congrArg (l ∈ ·) h.lines
  simpa [hl] using hmem

theorem mem_linesOf {l : JournalLine} :
    l ∈ b.linesOf t ↔ l ∈ b.lines ∧ l.transactionId = t := by
  simp [linesOf]

theorem ChangesOnly.linesOf (h : ChangesOnly t b b') {t' : Id} (ht : t' ≠ t) :
    b'.linesOf t' = b.linesOf t' := by
  have hsub : ∀ ls : List JournalLine, (ls.filter fun l => l.transactionId ≠ t).filter
      (fun l => l.transactionId = t') = ls.filter fun l => l.transactionId = t' := by
    intro ls
    rw [List.filter_filter]
    refine List.filter_congr fun l _ => ?_
    by_cases hl : l.transactionId = t' <;> simp [hl, ht]
  rw [Books.linesOf, Books.linesOf, ← hsub, h.lines, hsub]

section Primitives

variable {entries : List Entry} {txn : Txn} {new : List JournalLine}

@[simp] theorem post_lines : (b.post entries).lines = b.lines := rfl
@[simp] theorem post_txns : (b.post entries).txns = b.txns := rfl
@[simp] theorem post_accounts : (b.post entries).accounts = b.accounts := rfl
@[simp] theorem addLines_lines : (b.addLines new).lines = b.lines ++ new := rfl
@[simp] theorem addLines_txns : (b.addLines new).txns = b.txns := rfl
@[simp] theorem addLines_balance : (b.addLines new).balance = b.balance := rfl
@[simp] theorem dropLines_txns : (b.dropLines t).txns = b.txns := rfl
@[simp] theorem dropLines_balance : (b.dropLines t).balance = b.balance := rfl
@[simp] theorem setTxn_lines : (b.setTxn t txn).lines = b.lines := rfl
@[simp] theorem setTxn_balance : (b.setTxn t txn).balance = b.balance := rfl
@[simp] theorem setTxn_txns : (b.setTxn t txn).txns t = some txn := by simp [setTxn]
@[simp] theorem setStatus_lines {status : TxnStatus} :
    (b.setStatus t status).lines = b.lines := rfl
@[simp] theorem setStatus_balance {status : TxnStatus} :
    (b.setStatus t status).balance = b.balance := rfl

theorem post_changes : ChangesOnly t b (b.post entries) := ⟨rfl, fun _ _ => rfl⟩

theorem setTxn_changes : ChangesOnly t b (b.setTxn t txn) :=
  ⟨rfl, fun t' ht => by simp [setTxn, ht]⟩

theorem setStatus_changes {status : TxnStatus} : ChangesOnly t b (b.setStatus t status) :=
  ⟨rfl, fun t' ht => by simp [setStatus, ht]⟩

theorem dropLines_changes : ChangesOnly t b (b.dropLines t) :=
  ⟨by simp [dropLines], fun _ _ => rfl⟩

theorem addLines_changes (hnew : ∀ l ∈ new, l.transactionId = t) :
    ChangesOnly t b (b.addLines new) := by
  refine ⟨?_, fun _ _ => rfl⟩
  have hnil : new.filter (fun l => l.transactionId ≠ t) = [] := by
    simpa using hnew
  rw [addLines_lines, List.filter_append, hnil, List.append_nil]

theorem Rows.post (w : b.Rows) : (b.post entries).Rows := ⟨w.1, w.2, w.3, w.4, w.5⟩

/-- A header may change, but not from another status to posted. -/
theorem Rows.setTxn (w : b.Rows) (hs : txn.status = .posted → b.status t ≠ none →
    b.status t = some .posted) : (b.setTxn t txn).Rows where
  ids := w.ids
  known l hl := by
    simp only [Books.setTxn]
    split_ifs
    · exact Option.some_ne_none _
    · exact w.known l hl
  amounts := w.amounts
  fits := w.fits
  reversals l hl hr := by
    have hold := w.reversals l hl hr
    have hknown := w.known l hl
    simp only [Books.status, Books.setTxn] at hold hs ⊢
    split_ifs with ht
    · intro hp
      rw [ht] at hold hknown
      exact hold (hs (by simpa using hp) (by simpa using hknown))
    · exact hold

theorem Rows.setStatus {status : TxnStatus} (w : b.Rows) (hs : status ≠ .posted) :
    (b.setStatus t status).Rows where
  ids := w.ids
  known l hl := by
    have hknown := w.known l hl
    simp only [Books.setStatus]
    split_ifs with ht
    · rw [ht] at hknown
      simpa using hknown
    · exact hknown
  amounts := w.amounts
  fits := w.fits
  reversals l hl hr := by
    have hold := w.reversals l hl hr
    simp only [Books.status, Books.setStatus] at hold ⊢
    split_ifs with ht
    · rcases b.txns t with _ | txn
      · simp
      · simpa using hs
    · exact hold

theorem Rows.sublist {ls : List JournalLine} (w : b.Rows) (hls : ls.Sublist b.lines) :
    ({ b with lines := ls } : Books).Rows where
  ids := w.ids.sublist (hls.map _)
  known l hl := w.known l (hls.subset hl)
  amounts l hl := w.amounts l (hls.subset hl)
  fits l hl := w.fits l (hls.subset hl)
  reversals l hl := w.reversals l (hls.subset hl)

theorem Rows.dropLines (w : b.Rows) : (b.dropLines t).Rows := w.sublist List.filter_sublist

theorem insertable_iff : b.insertable new = true ↔
    (new.map (·.id)).Nodup ∧ (∀ l ∈ new, ∀ l' ∈ b.lines, l'.id ≠ l.id) ∧
      ∀ l ∈ new, l.fits = true := by
  simp [insertable]

theorem Rows.addLines (w : b.Rows) (hkeys : (new.map (·.id)).Nodup)
    (hfresh : ∀ l ∈ new, ∀ l' ∈ b.lines, l'.id ≠ l.id) (hfits : ∀ l ∈ new, l.fits = true)
    (hknown : ∀ l ∈ new, b.txns l.transactionId ≠ none)
    (hamounts : ∀ l ∈ new, Places 4 l.debit ∧ Places 4 l.credit)
    (hrev : ∀ l ∈ new, l.isVoidReversal = true → b.status l.transactionId ≠ some .posted) :
    (b.addLines new).Rows where
  ids := by
    rw [addLines_lines, List.map_append, List.nodup_append]
    refine ⟨w.ids, hkeys, ?_⟩
    rintro _ hx _ hy rfl
    obtain ⟨l', hl', hid'⟩ := List.mem_map.mp hx
    obtain ⟨l, hl, hid⟩ := List.mem_map.mp hy
    exact hfresh l hl l' hl' (hid'.trans hid.symm)
  known l hl := (List.mem_append.mp hl).elim (w.known l) (hknown l)
  amounts l hl := (List.mem_append.mp hl).elim (w.amounts l) (hamounts l)
  fits l hl := (List.mem_append.mp hl).elim (w.fits l) (hfits l)
  reversals l hl := (List.mem_append.mp hl).elim (w.reversals l) (hrev l)

/-- Rows may change their account and their tag. -/
theorem Rows.map {f : JournalLine → JournalLine} (w : b.Rows)
    (hf : ∀ l, (f l).id = l.id ∧ (f l).transactionId = l.transactionId ∧ (f l).debit = l.debit ∧
      (f l).credit = l.credit ∧ (f l).isVoidReversal = l.isVoidReversal) :
    ({ b with lines := b.lines.map f } : Books).Rows where
  ids := by
    rw [List.map_map, List.map_congr_left (g := fun l : JournalLine => l.id)]
    · exact w.ids
    · exact fun l _ => (hf l).1
  known l' hl' := by
    obtain ⟨l, hl, rfl⟩ := List.mem_map.mp hl'
    rw [(hf l).2.1]
    exact w.known l hl
  amounts l' hl' := by
    obtain ⟨l, hl, rfl⟩ := List.mem_map.mp hl'
    rw [(hf l).2.2.1, (hf l).2.2.2.1]
    exact w.amounts l hl
  fits l' hl' := by
    obtain ⟨l, hl, rfl⟩ := List.mem_map.mp hl'
    rw [JournalLine.fits, (hf l).2.2.1, (hf l).2.2.2.1]
    exact w.fits l hl
  reversals l' hl' hr := by
    obtain ⟨l, hl, rfl⟩ := List.mem_map.mp hl'
    rw [(hf l).2.1]
    exact w.reversals l hl ((hf l).2.2.2.2.symm.trans hr)

/-- A change of the rows of document `t` alone. -/
theorem map_changes {f : JournalLine → JournalLine}
    (htxn : ∀ l, (f l).transactionId = l.transactionId)
    (hsame : ∀ l ∈ b.lines, l.transactionId ≠ t → f l = l) :
    ChangesOnly t b { b with lines := b.lines.map f } := by
  refine ⟨?_, fun _ _ => rfl⟩
  show (b.lines.map f).filter _ = _
  rw [List.filter_map]
  have hfilter : (fun l : JournalLine => decide (l.transactionId ≠ t)) ∘ f =
      fun l => decide (l.transactionId ≠ t) := by
    funext l
    simp [htxn l]
  rw [hfilter]
  conv_rhs => rw [← List.map_id (b.lines.filter _)]
  refine List.map_congr_left fun l hl => ?_
  obtain ⟨hl, ht⟩ := List.mem_filter.mp hl
  exact hsame l hl (by simpa using ht)

end Primitives

end Books

section Inputs

variable {b : Books} {t : Id} {input : PostInput}

theorem mem_stored {lines : List LineInput} {l : JournalLine}
    (h : l ∈ lines.map (LineInput.stored t)) :
    l.transactionId = t ∧ Places 4 l.debit ∧ Places 4 l.credit ∧ l.isVoidReversal = false ∧
      l.derived = false := by
  obtain ⟨i, -, rfl⟩ := List.mem_map.mp h
  exact ⟨rfl, places_toPlaces 4 _, places_toPlaces 4 _, rfl, rfl⟩

/-- The rows a caller's lines become. -/
theorem Books.Rows.addStored {lines : List LineInput} (w : b.Rows) (ht : b.txns t ≠ none)
    (hins : b.insertable (lines.map (LineInput.stored t)) = true) :
    (b.addLines (lines.map (LineInput.stored t))).Rows := by
  obtain ⟨hkeys, hfresh, hfits⟩ := Books.insertable_iff.mp hins
  refine w.addLines hkeys hfresh hfits (fun l hl => ?_) (fun l hl => ?_) (fun l hl hr => ?_)
  · rw [(mem_stored hl).1]
    exact ht
  · exact ⟨(mem_stored hl).2.1, (mem_stored hl).2.2.1⟩
  · rw [(mem_stored hl).2.2.2.1] at hr
    cases hr

theorem linesOf_nil (w : b.Rows) (ht : b.txns t = none) : b.linesOf t = [] := by
  rw [Books.linesOf, List.filter_eq_nil_iff]
  intro l hl htxn
  rw [decide_eq_true_eq] at htxn
  exact w.known l hl (by rw [htxn]; exact ht)

theorem booked_changes : b.ChangesOnly t (input.booked b t) :=
  Books.setTxn_changes.trans (Books.addLines_changes fun _ hl => (mem_stored hl).1)

theorem booked_rows (w : b.Rows) (ht : b.txns t = none)
    (hins : b.insertable (input.lines.map (LineInput.stored t)) = true) :
    (input.booked b t).Rows := by
  refine (w.setTxn fun _ h => ?_).addStored (by simp) hins
  rw [Books.status, ht] at h
  exact absurd rfl h

theorem mem_reversals : ∀ {ls : List JournalLine} {ids : List Id} {l : JournalLine},
    l ∈ reversals t ls ids → ∃ l₀ ∈ ls, l.transactionId = t ∧ l.debit = l₀.credit ∧
      l.credit = l₀.debit ∧ l.derived = false
  | [], _, l, h => by simp [reversals] at h
  | _ :: _, [], l, h => by simp [reversals] at h
  | l₀ :: ls, i :: ids, l, h => by
    rw [reversals, List.zipWith_cons_cons, List.mem_cons] at h
    rcases h with rfl | h
    · exact ⟨l₀, List.mem_cons_self, rfl, rfl, rfl, rfl⟩
    · obtain ⟨l₁, hl₁, hrest⟩ := mem_reversals h
      exact ⟨l₁, List.mem_cons_of_mem _ hl₁, hrest⟩

/-- The books with document `t` taken back: its rows reversed, its header no longer posted. -/
def Books.reverseDocument (b : Books) (t : Id) (status : TxnStatus) (ls : List JournalLine)
    (ids : List Id) : Books :=
  (b.setStatus t status).addLines (reversals t ls ids)

variable {status : TxnStatus} {ls : List JournalLine} {ids : List Id}

theorem reverseDocument_changes : b.ChangesOnly t (b.reverseDocument t status ls ids) :=
  Books.setStatus_changes.trans (Books.addLines_changes fun l hl => by
    obtain ⟨_, -, ht, -⟩ := mem_reversals hl
    exact ht)

theorem reverseDocument_status (ht : b.txns t ≠ none) :
    (b.reverseDocument t status ls ids).status t = some status := by
  rcases h : b.txns t with _ | txn
  · exact absurd h ht
  · simp [Books.reverseDocument, Books.status, Books.setStatus, Books.addLines, h]

theorem reverseDocument_rows (w : b.Rows) (ht : b.txns t ≠ none) (hs : status ≠ .posted)
    (hls : ∀ l ∈ ls, l ∈ b.lines) (hins : b.insertable (reversals t ls ids) = true) :
    (b.reverseDocument t status ls ids).Rows := by
  obtain ⟨hkeys, hfresh, hfits⟩ := Books.insertable_iff.mp hins
  have hstatus : (b.reverseDocument t status ls ids).status t = some status :=
    reverseDocument_status ht
  refine (w.setStatus hs).addLines hkeys hfresh hfits (fun l hl => ?_) (fun l hl => ?_)
    (fun l hl _ => ?_)
  · obtain ⟨_, -, hlt, -⟩ := mem_reversals hl
    rw [hlt]
    intro hnone
    rw [Books.status] at hstatus
    simp [Books.reverseDocument, hnone] at hstatus
  · obtain ⟨l₀, hl₀, -, hd, hc, -⟩ := mem_reversals hl
    rw [hd, hc]
    exact (w.amounts l₀ (hls l₀ hl₀)).symm
  · obtain ⟨_, -, hlt, -⟩ := mem_reversals hl
    rw [hlt, show (b.setStatus t status).status t = some status from hstatus]
    simpa using hs

theorem voidedLines_subset {txn : Txn} : ∀ l ∈ b.voidedLines t txn, l ∈ b.lines := by
  intro l hl
  unfold Books.voidedLines at hl
  split_ifs at hl
  · exact (Books.mem_linesOf.mp (List.mem_of_mem_filter hl)).1
  · exact (Books.mem_linesOf.mp hl).1

theorem deletedLines_subset {txn : Txn} : ∀ l ∈ b.deletedLines t txn, l ∈ b.lines := by
  intro l hl
  unfold Books.deletedLines at hl
  split_ifs at hl
  · exact (Books.mem_linesOf.mp hl).1
  · exact absurd hl List.not_mem_nil

/-- Balances aside, posting line by line changes nothing. -/
theorem foldl_post_frame : ∀ (ls : List JournalLine) (b : Books),
    (ls.foldl (fun b l => b.post [l.reversed]) b).lines = b.lines ∧
      (ls.foldl (fun b l => b.post [l.reversed]) b).txns = b.txns ∧
      (ls.foldl (fun b l => b.post [l.reversed]) b).accounts = b.accounts
  | [], _ => ⟨rfl, rfl, rfl⟩
  | l :: ls, b => foldl_post_frame ls (b.post [l.reversed])

theorem Books.Rows.of_frame {b' : Books} (w : b.Rows) (hl : b'.lines = b.lines)
    (ht : b'.txns = b.txns) : b'.Rows := by
  refine ⟨?_, ?_, ?_, ?_, ?_⟩
  · rw [hl]
    exact w.ids
  · rw [hl, ht]
    exact w.known
  · rw [hl]
    exact w.amounts
  · rw [hl]
    exact w.fits
  · unfold Books.status
    rw [hl, ht]
    exact w.reversals

end Inputs

section Update

variable {b : Books} {t : Id} {txn : Txn} {input : PostInput}

theorem rewritten_changes : b.ChangesOnly t (b.rewritten t txn input) := by
  have hbase : b.ChangesOnly t
      (if txn.status = .posted then b.post ((b.linesOf t).map JournalLine.reversed) else b) := by
    split_ifs
    · exact Books.post_changes
    · exact .refl t b
  exact ((hbase.trans Books.dropLines_changes).trans Books.setTxn_changes).trans
    (Books.addLines_changes fun _ hl => (mem_stored hl).1)

theorem rewritten_rows (w : b.Rows) (ht : b.txns t = some txn)
    (hins : b.insertable (input.lines.map (LineInput.stored t)) = true) :
    (b.rewritten t txn input).Rows := by
  set b₁ := if txn.status = .posted then b.post ((b.linesOf t).map JournalLine.reversed) else b
    with hb₁
  have hlines : b₁.lines = b.lines := by
    rw [hb₁]
    split_ifs <;> rfl
  have htxns : b₁.txns = b.txns := by
    rw [hb₁]
    split_ifs <;> rfl
  have w₁ : b₁.Rows := w.of_frame hlines htxns
  refine (w₁.dropLines.setTxn fun hs _ => ?_).addStored (by simp) ?_
  · rw [Books.status, Books.dropLines_txns, htxns, ht]
    simpa using hs
  · obtain ⟨hkeys, hfresh, hfits⟩ := Books.insertable_iff.mp hins
    refine Books.insertable_iff.mpr ⟨hkeys, fun l hl l' hl' => hfresh l hl l' ?_, hfits⟩
    have := List.mem_of_mem_filter
      (p := fun l : JournalLine => decide (l.transactionId ≠ t)) hl'
    rwa [hlines] at this

theorem retag_row {kept : List (JournalLine × LineInput)} (l : JournalLine) :
    (retag kept l).id = l.id ∧ (retag kept l).transactionId = l.transactionId ∧
      (retag kept l).debit = l.debit ∧ (retag kept l).credit = l.credit ∧
      (retag kept l).isVoidReversal = l.isVoidReversal := by
  unfold retag
  split <;> simp

theorem retag_accountId {kept : List (JournalLine × LineInput)} (l : JournalLine) :
    (retag kept l).accountId = l.accountId := by
  unfold retag
  split <;> simp

/-- A kept row stays where it is; the tag aside, so does every other. -/
theorem retag_of_other {kept : List (JournalLine × LineInput)} {l : JournalLine} (w : b.Rows)
    (hkept : ∀ p ∈ kept, p.1 ∈ b.linesOf t) (hl : l ∈ b.lines) (ht : l.transactionId ≠ t) :
    retag kept l = l := by
  have hnone : kept.find? (fun p => p.1.id = l.id) = none := by
    rw [List.find?_eq_none]
    intro p hp hid
    obtain ⟨hpl, hpt⟩ := Books.mem_linesOf.mp (hkept p hp)
    rw [← List.inj_on_of_nodup_map w.ids hpl hl (by simpa using hid)] at ht
    exact ht hpt
  simp only [retag, hnone]

theorem matchLines_keeps : ∀ (ls : List JournalLine) {is : List LineInput}
    {kept : List (JournalLine × LineInput)} {rest : List LineInput},
    matchLines ls is = some (kept, rest) → kept.map (·.1) = ls
  | [], is, kept, rest, h => by
    simp only [matchLines, Option.some.injEq, Prod.mk.injEq] at h
    rw [← h.1, List.map_nil]
  | l :: ls, is, kept, rest, h => by
    simp only [matchLines] at h
    rcases htake : takeMatch l is with _ | ⟨i, others⟩
    · simp [htake] at h
    simp only [htake, Option.map_eq_some_iff] at h
    obtain ⟨⟨kept', rest'⟩, hmatch, heq⟩ := h
    rw [← (Prod.mk.inj heq).1, List.map_cons, matchLines_keeps ls hmatch]

theorem partialEdit_some {kept : List (JournalLine × LineInput)} {new : List LineInput}
    (h : partialEdit b t txn.txnDate input = some (kept, new)) :
    txn.txnDate = input.txnDate ∧
      matchLines (b.balanceSheetLines t) input.lines = some (kept, new) ∧
      ∀ l ∈ new, b.isBalanceSheet l.accountId = false := by
  unfold partialEdit at h
  split_ifs at h with hdate
  obtain ⟨hmatch, hnew⟩ := Option.filter_eq_some_iff.mp h
  exact ⟨not_not.mp hdate, hmatch, by simpa using hnew⟩

theorem mem_balanceSheetLines {l : JournalLine} : l ∈ b.balanceSheetLines t ↔
    l ∈ b.linesOf t ∧ l.isVoidReversal = false ∧ b.isBalanceSheet l.accountId = true := by
  simp only [Books.balanceSheetLines, Books.editable, List.mem_filter, decide_eq_true_eq,
    Bool.not_eq_true]
  exact and_assoc

theorem mem_replacedLines {l : JournalLine} : l ∈ b.replacedLines t ↔
    l ∈ b.linesOf t ∧ l.isVoidReversal = false ∧ b.isBalanceSheet l.accountId = false := by
  simp only [Books.replacedLines, Books.editable, List.mem_filter, decide_eq_true_eq,
    Bool.not_eq_true]
  exact and_assoc

theorem kept_mem {kept : List (JournalLine × LineInput)} {new : List LineInput}
    (h : partialEdit b t txn.txnDate input = some (kept, new)) :
    ∀ p ∈ kept, p.1 ∈ b.linesOf t := by
  intro p hp
  have hmem : p.1 ∈ kept.map (·.1) := List.mem_map_of_mem hp
  rw [matchLines_keeps _ (partialEdit_some h).2.1] at hmem
  exact (mem_balanceSheetLines.mp hmem).1

/-- Rows whose keys are those of rows of document `t` are rows of that document. -/
theorem Books.Rows.mem_of_id {ls : List JournalLine} (w : b.Rows) (hls : ∀ l ∈ ls, l ∈ b.linesOf t)
    {l : JournalLine} (hl : l ∈ b.lines) (hid : l.id ∈ ls.map (·.id)) :
    l ∈ ls ∧ l.transactionId = t := by
  obtain ⟨l', hl', hid'⟩ := List.mem_map.mp hid
  obtain ⟨hl'b, ht⟩ := Books.mem_linesOf.mp (hls l' hl')
  rw [← List.inj_on_of_nodup_map w.ids hl'b hl hid']
  exact ⟨hl', ht⟩

theorem editLines_changes {kept : List (JournalLine × LineInput)} {ls : List JournalLine}
    {new : List LineInput} (w : b.Rows) (hkept : ∀ p ∈ kept, p.1 ∈ b.linesOf t)
    (hls : ∀ l ∈ ls, l ∈ b.linesOf t) :
    b.ChangesOnly t (b.editLines t kept (ls.map JournalLine.id) new) := by
  have hdrop : b.ChangesOnly t
      { b with lines := b.lines.filter (fun l => l.id ∉ ls.map JournalLine.id) } := by
    refine ⟨?_, fun _ _ => rfl⟩
    show (b.lines.filter _).filter _ = _
    rw [List.filter_filter]
    refine List.filter_congr fun l hl => ?_
    by_cases ht : l.transactionId = t
    · simp [ht]
    · have hid : l.id ∉ ls.map JournalLine.id := fun hid => ht (w.mem_of_id hls hl hid).2
      simpa [ht] using hid
  refine (hdrop.trans (Books.map_changes (f := retag kept) (fun l => (retag_row l).2.1) ?_)).trans
    (Books.addLines_changes fun _ hl => (mem_stored hl).1)
  exact fun l hl ht => retag_of_other w hkept (List.mem_of_mem_filter hl) ht

theorem editLines_rows {kept : List (JournalLine × LineInput)} {old : List Id}
    {new : List LineInput} (w : b.Rows) (ht : b.txns t ≠ none)
    (hins : b.insertable (new.map (LineInput.stored t)) = true) :
    (b.editLines t kept old new).Rows := by
  refine ((w.sublist List.filter_sublist).map retag_row).addStored ht ?_
  obtain ⟨hkeys, hfresh, hfits⟩ := Books.insertable_iff.mp hins
  refine Books.insertable_iff.mpr ⟨hkeys, fun l hl l' hl' => ?_, hfits⟩
  obtain ⟨l₀, hl₀, rfl⟩ := List.mem_map.mp hl'
  rw [(retag_row l₀).1]
  exact hfresh l hl l₀ (List.mem_of_mem_filter hl₀)

theorem reconciledEdit_changes {contact : Option Id} {kept : List (JournalLine × LineInput)}
    {new : List LineInput} (w : b.Rows) (hkept : ∀ p ∈ kept, p.1 ∈ b.linesOf t) :
    b.ChangesOnly t (b.reconciledEdit t txn contact kept new) :=
  ((Books.post_changes.trans (editLines_changes w.post hkept
    fun _ hl => (mem_replacedLines.mp hl).1)).trans Books.post_changes).trans Books.setTxn_changes

theorem reconciledEdit_rows {contact : Option Id} {kept : List (JournalLine × LineInput)}
    {new : List LineInput} (w : b.Rows) (ht : b.txns t = some txn)
    (hins : b.insertable (new.map (LineInput.stored t)) = true) :
    (b.reconciledEdit t txn contact kept new).Rows := by
  have hknown : b.txns t ≠ none := by simp [ht]
  refine (editLines_rows w.post hknown hins).post.setTxn fun hs _ => ?_
  show (b.txns t).map (·.status) = some .posted
  rw [ht]
  simpa using hs

end Update

section Derived

variable {b : Books} {t : Id} {txn : Txn} {input : PostInput}

/-! Only the costing walk writes derived lines. -/

theorem filter_derived_append {ls new : List JournalLine} (hnew : ∀ l ∈ new, l.derived = false) :
    (ls ++ new).filter (·.derived) = ls.filter (·.derived) := by
  have hnil : new.filter (·.derived) = [] := by simpa using hnew
  rw [List.filter_append, hnil, List.append_nil]

theorem booked_derived :
    ((input.booked b t).lines.filter (·.derived)).Sublist (b.lines.filter (·.derived)) := by
  show ((b.lines ++ _).filter (·.derived)).Sublist _
  rw [filter_derived_append fun l hl => (mem_stored hl).2.2.2.2]

theorem reverseDocument_derived {status : TxnStatus} {ls : List JournalLine} {ids : List Id} :
    ((b.reverseDocument t status ls ids).lines.filter (·.derived)).Sublist
      (b.lines.filter (·.derived)) := by
  show ((b.lines ++ reversals t ls ids).filter (·.derived)).Sublist _
  rw [filter_derived_append]
  intro l hl
  obtain ⟨_, -, -, -, -, hder⟩ := mem_reversals hl
  exact hder

theorem rewritten_derived :
    ((b.rewritten t txn input).lines.filter (·.derived)).Sublist (b.lines.filter (·.derived)) := by
  have hlines : (b.rewritten t txn input).lines =
      b.lines.filter (fun l => l.transactionId ≠ t) ++
        input.lines.map (LineInput.stored t) := by
    unfold Books.rewritten
    split_ifs <;> rfl
  rw [hlines, filter_derived_append fun l hl => (mem_stored hl).2.2.2.2]
  exact List.filter_sublist.filter _

end Derived

section Costing

variable {b b' : Books} {c : Costing}

/-- The walk wants the line gone or at new amounts. -/
def Costing.names (c : Costing) (l : JournalLine) : Bool :=
  l.id ∈ c.delete ∨ c.update.any fun u => u.1 = l.id

theorem rewritten_row (l : JournalLine) :
    (c.rewritten b l).id = l.id ∧ (c.rewritten b l).transactionId = l.transactionId ∧
      (c.rewritten b l).accountId = l.accountId ∧
      (c.rewritten b l).isVoidReversal = l.isVoidReversal := by
  unfold Costing.rewritten
  split <;> simp

theorem rewritten_of_not {l : JournalLine} (h : b.rewrites l = false) : c.rewritten b l = l := by
  simp [Costing.rewritten, Costing.amounts, h]

theorem mem_inserted {l : JournalLine} (h : l ∈ c.inserted b) :
    b.rewrites l = true ∧ Places 4 l.debit ∧ Places 4 l.credit := by
  obtain ⟨l₀, hl₀, rfl⟩ := List.mem_map.mp h
  exact ⟨(List.mem_filter.mp hl₀).2, places_toPlaces 4 _, places_toPlaces 4 _⟩

theorem rewrites_iff {l : JournalLine} : b.rewrites l = true ↔
    l.derived = true ∧ l.isVoidReversal = false ∧ b.status l.transactionId = some .posted := by
  simp [Books.rewrites, Books.isPosted]

theorem applyCosting_ok (h : applyCosting b c = .ok b') :
    b.insertable (c.inserted b) = true ∧ (∀ l ∈ b.lines, (c.rewritten b l).fits = true) ∧
      b'.accounts = b.accounts ∧ b'.txns = b.txns ∧
      b'.lines = (b.lines.filter (fun l => ¬c.deletes b l)).map (c.rewritten b) ++ c.inserted b ∧
      ∀ a, b'.balance a = updateAccountBalances b.balance [⟨a, round4 (c.delta b a), 0⟩] a := by
  unfold applyCosting at h
  split_ifs at h with hins
  rw [← Except.ok.inj h]
  exact ⟨hins.1, hins.2, rfl, rfl, rfl, fun _ => rfl⟩

theorem applyCosting_rows (w : b.Rows) (h : applyCosting b c = .ok b') : b'.Rows := by
  obtain ⟨hins, hfit, -, htxns, hlines, -⟩ := applyCosting_ok h
  obtain ⟨hkeys, hfresh, hfits⟩ := Books.insertable_iff.mp hins
  have hkept : ({ b with lines := (b.lines.filter (fun l => ¬c.deletes b l)).map (c.rewritten b) } :
      Books).Rows := by
    refine ⟨?_, ?_, ?_, ?_, ?_⟩
    · show (((b.lines.filter _).map (c.rewritten b)).map _).Nodup
      rw [List.map_map, List.map_congr_left (g := fun l : JournalLine => l.id)]
      · exact w.ids.sublist (List.filter_sublist.map _)
      · exact fun l _ => (rewritten_row l).1
    all_goals
      intro l' hl'
      obtain ⟨l, hl, rfl⟩ := List.mem_map.mp hl'
      have hl := List.mem_of_mem_filter hl
    · rw [(rewritten_row l).2.1]
      exact w.known l hl
    · unfold Costing.rewritten
      split
      · exact ⟨places_toPlaces 4 _, places_toPlaces 4 _⟩
      · exact w.amounts l hl
    · exact hfit l hl
    · intro hr
      rw [(rewritten_row l).2.1]
      rw [(rewritten_row l).2.2.2] at hr
      exact w.reversals l hl hr
  refine (hkept.addLines hkeys ?_ hfits ?_ ?_ ?_).of_frame (b := Books.addLines _ _) hlines htxns
  · intro l hl l' hl'
    obtain ⟨l₀, hl₀, rfl⟩ := List.mem_map.mp hl'
    rw [(rewritten_row l₀).1]
    exact hfresh l hl l₀ (List.mem_of_mem_filter hl₀)
  · intro l hl hnone
    have hposted := (rewrites_iff.mp (mem_inserted hl).1).2.2
    rw [Books.status] at hposted
    simp only at hnone
    simp [hnone] at hposted
  · exact fun l hl => (mem_inserted hl).2
  · intro l hl hr
    rw [(rewrites_iff.mp (mem_inserted hl).1).2.1] at hr
    cases hr

theorem costed_rows {costing : Option Costing} (w : b.Rows) (h : costed b costing = .ok b') :
    b'.Rows := by
  cases costing with
  | none => rwa [← Except.ok.inj h]
  | some c => exact applyCosting_rows w h

end Costing

section Bulk

variable {b b' : Books} {t : Id} {st st' : BulkState} {recs : Recs} {input : BulkInput}
  {facts : BulkFacts} {posted : Bool}

/-- The rows `ids` moved to account `a`, and the balances with them where they are posted. -/
def Books.moveLines (b : Books) (posted : Bool) (ids : List Id) (out into : Entry) : Books :=
  (if posted then (b.post [out]).post [into] else b).setAccount ids into.accountId

theorem bulkCategory_go (h : bulkCategory st t posted input = .go st') :
    st'.books = st.books ∨ ∃ a l, input.setCategoryAccountId = some a ∧
      st.books.categoryLines t = [l] ∧ l.billed = false ∧ l.accountId ≠ a ∧
      st'.books = st.books.moveLines posted [l.id] l.reversed ⟨a, l.debit, l.credit⟩ := by
  unfold bulkCategory at h
  rcases ha : input.setCategoryAccountId with _ | a
  · simp only [ha, BulkStep.go.injEq] at h
    exact .inl (by rw [← h])
  simp only [ha] at h
  split at h
  · rename_i l hl
    split_ifs at h with hbilled hsole hsame hposted <;> simp only [BulkStep.go.injEq] at h <;>
      subst h
    · exact .inl rfl
    · exact .inl rfl
    all_goals
      have hb : l.billed = false := by
        rw [not_and_not_right] at hbilled
        exact Bool.eq_false_iff.mpr fun hb => hsame (hbilled hb)
    · exact .inr ⟨a, l, rfl, hl, hb, hsame, by simp [Books.moveLines, *]⟩
    · exact .inr ⟨a, l, rfl, hl, hb, hsame, by simp [Books.moveLines, *]⟩
  · split_ifs at h
    simp only [BulkStep.go.injEq] at h
    exact .inl (by rw [← h])
  · split_ifs at h
    simp only [BulkStep.go.injEq] at h
    exact .inl (by rw [← h])

/-- What the rows come to on one side, in the source's sums. -/
def sideTotal (ls : List JournalLine) (side : JournalLine → Dec) : Dec :=
  round4 (ls.foldl (fun acc l => plus acc (side l)) 0)

theorem bulkMove_go (h : bulkMove st recs t posted input = .go st') :
    st'.books = st.books ∨ ∃ source target, input.moveToAccountId = some target ∧
      let ls := (st.books.linesOf t).filter fun l => l.accountId = source
      (∀ l ∈ ls, recs.clearedIn none l.id = false) ∧
      st'.books = st.books.moveLines posted (ls.map (·.id))
        ⟨source, sideTotal ls (·.credit), sideTotal ls (·.debit)⟩
        ⟨target, sideTotal ls (·.debit), sideTotal ls (·.credit)⟩ := by
  unfold bulkMove at h
  split at h
  · rename_i source target _ hto
    dsimp only at h
    split_ifs at h with hnil hsole hcleared hsole hposted <;> simp only [BulkStep.go.injEq] at h <;>
      subst h
    · exact .inl rfl
    · exact .inl rfl
    · exact .inr ⟨source, target, hto, by simpa using hcleared,
       by simp [Books.moveLines, sideTotal, *]⟩
    · exact .inr ⟨source, target, hto, by simpa using hcleared,
       by simp [Books.moveLines, *]⟩
  · simp only [BulkStep.go.injEq] at h
    exact .inl (by rw [← h])

/-- What one transaction of a batch goes through: `P` holds until its category moves, `Q` then. -/
theorem bulkOne_keeps {P Q : Books → Prop} {skipped : Option String}
    (h : bulkOne recs input facts b t = .ok (b', skipped)) (hb : Q b)
    (hsteps : ∀ txn, b.txns t = some txn → bulkCheck input facts t txn = .ok none →
      P (bulkPayee b t txn input).books ∧ (∀ b, P b → Q b) ∧
      (∀ st st', P st.books → bulkCategory st t (txn.status = .posted) input = .go st' →
        Q st'.books) ∧
      (∀ st st', Q st.books → bulkMove st recs t (txn.status = .posted) input = .go st' →
        Q st'.books) ∧
      ∀ st, Q st.books → Q (bulkTag st t input).books) : Q b' := by
  unfold bulkOne at h
  rcases htxn : b.txns t with _ | txn
  · simp only [htxn, Except.ok.injEq, Prod.mk.injEq] at h
    rwa [← h.1]
  simp only [htxn] at h
  rcases hcheck : bulkCheck input facts t txn with e | _ | reason
  · simp [hcheck] at h
  · obtain ⟨hp, hskip, hcat, hmove, htag⟩ := hsteps txn htxn hcheck
    simp only [hcheck] at h
    rcases hc : bulkCategory (bulkPayee b t txn input) t (txn.status = .posted) input with st₁ | r
    · have hq := hcat _ _ hp hc
      simp only [hc] at h
      rcases hm : bulkMove st₁ recs t (txn.status = .posted) input with st₂ | r
      · simp only [hm, Except.ok.injEq, Prod.mk.injEq] at h
        rw [← h.1]
        exact htag _ (hmove _ _ hq hm)
      · simp only [hm, Except.ok.injEq, Prod.mk.injEq] at h
        rwa [← h.1]
    · simp only [hc, Except.ok.injEq, Prod.mk.injEq] at h
      rw [← h.1]
      exact hskip _ hp
  · simp only [hcheck, Except.ok.injEq, Prod.mk.injEq] at h
    rwa [← h.1]

/-- What holds of the books and the transactions still to come. -/
theorem bulkAll_keeps {P : List Id → Books → Prop}
    (hone : ∀ t ts b b' skipped, P (t :: ts) b → bulkOne recs input facts b t = .ok (b', skipped) →
      P ts b') :
    ∀ {ts : List Id} {b b' : Books} {r : BulkResult}, P ts b →
      bulkAll recs input facts b ts = .ok (b', r) → P [] b'
  | [], b, b', r, hb, h => by
    simp only [bulkAll, Except.ok.injEq, Prod.mk.injEq] at h
    rwa [← h.1]
  | t :: ts, b, b', r, hb, h => by
    simp only [bulkAll, bind_eq_ok, pure_eq_ok] at h
    obtain ⟨⟨b₁, skipped⟩, h₁, ⟨b₂, r₂⟩, h₂, heq⟩ := h
    have hb₂ : P [] b₂ := bulkAll_keeps hone (hone t ts b b₁ skipped hb h₁) h₂
    have hfst : b₂ = b' := by cases skipped <;> exact congrArg Prod.fst heq
    rwa [← hfst]

section Moves

variable {ids : List Id} {a : Id} {out into : Entry}

/-- The row as `setAccount` leaves it. -/
def moved (ids : List Id) (a : Id) (l : JournalLine) : JournalLine :=
  if l.id ∈ ids then { l with accountId := a } else l

theorem moveLines_lines :
    (b.moveLines posted ids out into).lines = b.lines.map (moved ids into.accountId) := by
  unfold Books.moveLines
  split_ifs <;> rfl

theorem moveLines_txns : (b.moveLines posted ids out into).txns = b.txns := by
  unfold Books.moveLines
  split_ifs <;> rfl

theorem moved_row (l : JournalLine) :
    (moved ids a l).id = l.id ∧ (moved ids a l).transactionId = l.transactionId ∧
      (moved ids a l).debit = l.debit ∧ (moved ids a l).credit = l.credit ∧
      (moved ids a l).isVoidReversal = l.isVoidReversal := by
  unfold moved
  split_ifs <;> simp

theorem moveLines_rows (w : b.Rows) : (b.moveLines posted ids out into).Rows :=
  (w.map (f := moved ids into.accountId) moved_row).of_frame moveLines_lines moveLines_txns

theorem moveLines_changes {ls : List JournalLine} (w : b.Rows) (hls : ∀ l ∈ ls, l ∈ b.linesOf t) :
    b.ChangesOnly t (b.moveLines posted (ls.map (·.id)) out into) := by
  have h := Books.map_changes (b := b) (t := t) (f := moved (ls.map (·.id)) into.accountId)
    (fun l => (moved_row l).2.1) fun l hl ht => by
      have hid : l.id ∉ ls.map (·.id) := fun hid => ht (w.mem_of_id hls hl hid).2
      simp only [moved, hid, ↓reduceIte]
  exact ⟨by rw [moveLines_lines]; exact h.lines, fun t' _ => by rw [moveLines_txns]⟩

theorem moveLines_linesOf {posted : Bool} {ids : List Id} {out into : Entry} :
    (b.moveLines posted ids out into).linesOf t = (b.linesOf t).map (moved ids into.accountId) := by
  have htxn : (fun l : JournalLine => decide (l.transactionId = t)) ∘ moved ids into.accountId =
      fun l => decide (l.transactionId = t) := by
    funext l
    simp only [Function.comp_apply, (moved_row l).2.1]
  rw [Books.linesOf, moveLines_lines, List.filter_map, htxn, Books.linesOf]

/-- The row as `bulkTag` leaves it. -/
def tagged (t : Id) (tagAccount tag : Option Id) (l : JournalLine) : JournalLine :=
  if l.transactionId = t ∧ (tagAccount = none ∨ tagAccount = some l.accountId) then
    { l with tagId := tag }
  else l

theorem tagged_row {tagAccount tag : Option Id} (l : JournalLine) :
    (tagged t tagAccount tag l).id = l.id ∧
      (tagged t tagAccount tag l).transactionId = l.transactionId ∧
      (tagged t tagAccount tag l).debit = l.debit ∧ (tagged t tagAccount tag l).credit = l.credit ∧
      (tagged t tagAccount tag l).isVoidReversal = l.isVoidReversal ∧
      (tagged t tagAccount tag l).accountId = l.accountId ∧
      (tagged t tagAccount tag l).billed = l.billed := by
  unfold tagged
  split_ifs <;> simp

/-- A tag is all that `bulkTag` changes. -/
theorem bulkTag_books (st : BulkState) (t : Id) (input : BulkInput) : ∃ f : JournalLine → JournalLine,
    (bulkTag st t input).books = { st.books with lines := st.books.lines.map f } ∧
      ∀ l, (f l).id = l.id ∧ (f l).transactionId = l.transactionId ∧ (f l).debit = l.debit ∧
        (f l).credit = l.credit ∧ (f l).isVoidReversal = l.isVoidReversal ∧
        (f l).accountId = l.accountId ∧ (f l).billed = l.billed := by
  unfold bulkTag
  rcases input.setTagId with _ | tag
  · exact ⟨id, by simp, fun l => by simp⟩
  · refine ⟨tagged t input.tagAccountId tag, ?_, tagged_row⟩
    simp [tagged]

theorem bulkTag_changes (st : BulkState) (t : Id) (input : BulkInput) :
    st.books.ChangesOnly t (bulkTag st t input).books := by
  unfold bulkTag
  rcases input.setTagId with _ | tag
  · exact .refl t _
  · refine Books.map_changes (fun l => ?_) (fun l _ ht => ?_)
    · split_ifs <;> rfl
    · simp [ht]

theorem bulkTag_rows (w : st.books.Rows) : (bulkTag st t input).books.Rows := by
  obtain ⟨f, heq, hf⟩ := bulkTag_books st t input
  rw [heq]
  exact w.map fun l => ⟨(hf l).1, (hf l).2.1, (hf l).2.2.1, (hf l).2.2.2.1, (hf l).2.2.2.2.1⟩

theorem bulkPayee_books (b : Books) (t : Id) (txn : Txn) (input : BulkInput) :
    (bulkPayee b t txn input).books = b ∨
    ∃ contact, (bulkPayee b t txn input).books = b.setTxn t { txn with contactId := contact } := by
  unfold bulkPayee
  rcases input.setPayeeContactId with _ | contact
  · exact .inl rfl
  · exact .inr ⟨contact, rfl⟩

theorem setTxn_same_status {txn txn' : Txn} (ht : b.txns t = some txn)
    (hs : txn'.status = txn.status) (t' : Id) : (b.setTxn t txn').status t' = b.status t' := by
  by_cases h : t' = t
  · subst h
    simp [Books.status, ht, hs]
  · simp [Books.status, Books.setTxn, h]

theorem bulkPayee_rows {txn : Txn} (w : b.Rows) (ht : b.txns t = some txn) :
    (bulkPayee b t txn input).books.Rows := by
  rcases bulkPayee_books b t txn input with h | ⟨contact, h⟩
  · rwa [h]
  · rw [h]
    refine w.setTxn fun hs _ => ?_
    rw [Books.status, ht]
    simpa using hs

theorem bulkOne_rows {skipped : Option String} (w : b.Rows)
    (h : bulkOne recs input facts b t = .ok (b', skipped)) : b'.Rows := by
  refine bulkOne_keeps h w fun txn ht _ =>
    ⟨bulkPayee_rows w ht, fun _ w => w, ?_, ?_, fun st => bulkTag_rows⟩
  · intro st st' w hgo
    rcases bulkCategory_go hgo with heq | ⟨a, l, -, -, -, -, heq⟩
    · rwa [heq]
    · rw [heq]
      exact moveLines_rows w
  · intro st st' w hgo
    rcases bulkMove_go hgo with heq | ⟨source, target, -, -, heq⟩
    · rwa [heq]
    · rw [heq]
      exact moveLines_rows w

end Moves

end Bulk

theorem updateReconciled_rows {s s' : Store} {t : Id} {txn : Txn} {input : PostInput}
    (w : s.books.Rows) (ht : s.books.txns t = some txn)
    (h : updateReconciled s t txn input = .ok s') : s'.books.Rows := by
  obtain ⟨kept, new, -, hins, rfl⟩ := updateReconciled_ok h
  exact reconciledEdit_rows w ht hins

theorem updateFull_rows {s s' : Store} {t : Id} {txn : Txn} {input : PostInput}
    {costing : Option Costing} (w : s.books.Rows) (ht : s.books.txns t = some txn)
    (h : updateFull s t txn input costing = .ok s') : s'.books.Rows := by
  obtain ⟨hins, b, rfl, hb⟩ := updateFull_ok h
  split_ifs at hb with hp
  · exact costed_rows (rewritten_rows w ht hins).post hb
  · rw [hb]
    exact rewritten_rows w ht hins

/-- Every operation leaves the rows in order. -/
theorem step_rows {s s' : Store} {op : Op} (w : s.books.Rows) (h : step s op = .ok s') :
    s'.books.Rows := by
  cases op
  case post t input refusal costing =>
    obtain ⟨ht, hins, b, rfl, hb⟩ := postTransaction_ok (onLedger_ok.mp h)
    split_ifs at hb with hp
    · exact costed_rows (booked_rows w ht hins).post hb
    · rw [hb]
      exact booked_rows w ht hins
  case update t input ap refusal costing =>
    obtain ⟨txn, ht, -, -, h⟩ := updateTransaction_ok (onLedger_ok.mp h)
    split_ifs at h with hrec
    · exact updateReconciled_rows w ht h
    · exact updateFull_rows w ht h
  case void t ids refusal costing =>
    obtain ⟨txn, ht, -, -, -, hins, b, rfl, hb⟩ := voidTransaction_ok (onLedger_ok.mp h)
    have wv : (s.books.reverseDocument t .void (s.books.voidedLines t txn) ids).Rows :=
      reverseDocument_rows w (by simp [ht]) (by simp) voidedLines_subset hins
    dsimp only at hb
    split_ifs at hb with hp
    · rw [hb]
      obtain ⟨hl, htx, -⟩ := foldl_post_frame (s.books.voidedLines t txn)
        (s.books.reverseDocument t .void (s.books.voidedLines t txn) ids)
      exact wv.of_frame hl htx
    · exact costed_rows wv.post hb
  case delete t ids refusal costing =>
    obtain ⟨txn, ht, -, -, hins, b, rfl, hb⟩ := deleteTransaction_ok (onLedger_ok.mp h)
    exact costed_rows (reverseDocument_rows w (by simp [ht]) (by simp) deletedLines_subset
      hins).post hb
  case bulk input facts refusal =>
    obtain ⟨b, r, rfl, hall⟩ := bulkUpdateTransactions_ok (onLedger_ok.mp h)
    exact bulkAll_keeps (P := fun _ b => b.Rows) (fun _ _ _ _ _ w h => bulkOne_rows w h) w hall
  all_goals
    rw [step_books rfl h]
    exact w

end MyBooks
