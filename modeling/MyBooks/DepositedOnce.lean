import MyBooks.DepositCalls

/-!
# An item is deposited once, and whole

A batch that spares the deposits leaves the rows they depend on where they are (`Recast`), and so every
step that does keeps the deposits as they should be. After any run of such steps every item is in one
posted deposit at most, with all of it (`deposited_once`).
-/

namespace MyBooks

namespace Deposits

section Batch

variable {sys : SystemAccounts} {s : DepositBooks} {b b' b'' : Books} {t : Id} {input : BulkInput}
  {facts : BulkFacts} {refusal : Refusal}

/-- The row changes its account and its tag at most, and what it does to Payments Clearing stays where a
deposit depends on it. -/
structure KeepsPlace (sys : SystemAccounts) (s : DepositBooks) (l l' : JournalLine) : Prop where
  id : l'.id = l.id
  transactionId : l'.transactionId = l.transactionId
  debit : l'.debit = l.debit
  credit : l'.credit = l.credit
  isVoidReversal : l'.isVoidReversal = l.isVoidReversal
  derived : l'.derived = l.derived
  deposited : s.deposited l.transactionId = true →
    (l'.accountId = sys.paymentsClearing ↔ l.accountId = sys.paymentsClearing)
  holds : s.holds l.transactionId = true → l.accountId = sys.paymentsClearing →
    l'.accountId = sys.paymentsClearing

theorem KeepsPlace.refl (l : JournalLine) : KeepsPlace sys s l l :=
  ⟨rfl, rfl, rfl, rfl, rfl, rfl, fun _ => .rfl, fun _ h => h⟩

theorem KeepsPlace.of_account {l l' : JournalLine} (hid : l'.id = l.id)
    (htxn : l'.transactionId = l.transactionId) (hd : l'.debit = l.debit) (hc : l'.credit = l.credit)
    (hr : l'.isVoidReversal = l.isVoidReversal) (hder : l'.derived = l.derived)
    (ha : l'.accountId = l.accountId) : KeepsPlace sys s l l' :=
  ⟨hid, htxn, hd, hc, hr, hder, fun _ => by rw [ha], fun _ h => ha.trans h⟩

theorem KeepsPlace.trans {l l' l'' : JournalLine} (h : KeepsPlace sys s l l') (h' : KeepsPlace sys s l' l'') :
    KeepsPlace sys s l l'' where
  id := h'.id.trans h.id
  transactionId := h'.transactionId.trans h.transactionId
  debit := h'.debit.trans h.debit
  credit := h'.credit.trans h.credit
  isVoidReversal := h'.isVoidReversal.trans h.isVoidReversal
  derived := h'.derived.trans h.derived
  deposited hd := (h'.deposited (h.transactionId ▸ hd)).trans (h.deposited hd)
  holds hd ha := h'.holds (h.transactionId ▸ hd) (h.holds hd ha)

/-- The books as a batch leaves them. -/
structure Recast (sys : SystemAccounts) (s : DepositBooks) (b b' : Books) : Prop where
  lines : ∃ f : JournalLine → JournalLine, b'.lines = b.lines.map f ∧ ∀ l ∈ b.lines, KeepsPlace sys s l (f l)
  headers : ∀ x, (b'.txns x).map (fun txn => (txn.txnType, txn.status)) =
    (b.txns x).map fun txn => (txn.txnType, txn.status)
  accounts : b'.accounts = b.accounts
  rows : b'.Rows

theorem Recast.refl (w : b.Rows) : Recast sys s b b :=
  ⟨⟨id, by rw [List.map_id], fun l _ => .refl l⟩, fun _ => rfl, rfl, w⟩

theorem Recast.trans (h : Recast sys s b b') (h' : Recast sys s b' b'') : Recast sys s b b'' := by
  obtain ⟨f, hf, hkeep⟩ := h.lines
  obtain ⟨f', hf', hkeep'⟩ := h'.lines
  refine ⟨⟨f' ∘ f, by rw [hf', hf, List.map_map], fun l hl => (hkeep l hl).trans (hkeep' (f l) ?_)⟩,
    fun x => (h'.headers x).trans (h.headers x), h'.accounts.trans h.accounts, h'.rows⟩
  rw [hf]
  exact List.mem_map_of_mem hl

/-- Rows of one document moved to an account. -/
theorem Recast.move {posted : Bool} {ls : List JournalLine} {out into : Entry} (w : b.Rows)
    (hls : ∀ l ∈ ls, l ∈ b.linesOf t)
    (hdep : s.deposited t = true → ∀ l ∈ ls,
      (into.accountId = sys.paymentsClearing ↔ l.accountId = sys.paymentsClearing))
    (hholds : s.holds t = true → ∀ l ∈ ls, l.accountId = sys.paymentsClearing →
      into.accountId = sys.paymentsClearing) :
    Recast sys s b (b.moveLines posted (ls.map (·.id)) out into) := by
  refine ⟨⟨moved (ls.map (·.id)) into.accountId, moveLines_lines, fun l hl => ?_⟩, fun x => ?_, ?_,
    moveLines_rows w⟩
  · by_cases hid : l.id ∈ ls.map (·.id)
    · obtain ⟨hmem, ht⟩ := w.mem_of_id hls hl hid
      simp only [moved, hid, ↓reduceIte]
      exact ⟨rfl, rfl, rfl, rfl, rfl, rfl, fun hd => hdep (ht ▸ hd) l hmem,
        fun hd => hholds (ht ▸ hd) l hmem⟩
    · simp only [moved, hid, ↓reduceIte]
      exact .refl l
  · rw [moveLines_txns]
  · unfold Books.moveLines
    split_ifs <;> rfl

/-- A row that the batch recategorises is not in Payments Clearing. -/
theorem category_off (hc : IsClearing sys b) {l : JournalLine} (hl : l ∈ b.categoryLines t) :
    l.accountId ≠ sys.paymentsClearing := by
  intro heq
  have hcat := (List.mem_filter.mp hl).2
  rw [heq, hc.category] at hcat
  cases hcat

theorem bulkPayee_recast {txn : Txn} (w : b.Rows) (ht : b.txns t = some txn) :
    Recast sys s b (bulkPayee b t txn input).books := by
  have hrows : (bulkPayee b t txn input).books.Rows := bulkPayee_rows w ht
  rcases bulkPayee_books b t txn input with h | ⟨contact, h⟩
  · rw [h]
    exact .refl w
  · rw [h] at hrows ⊢
    refine ⟨⟨id, (List.map_id _).symm, fun l _ => .refl l⟩, fun x => ?_, rfl, hrows⟩
    by_cases hx : x = t
    · subst hx
      simp [ht]
    · simp [Books.setTxn, hx]

theorem bulkTag_recast (st : BulkState) (w : st.books.Rows) :
    Recast sys s st.books (bulkTag st t input).books := by
  have hrows : (bulkTag st t input).books.Rows := bulkTag_rows w
  rcases htag : input.setTagId with _ | tag
  · have hsame : (bulkTag st t input).books = st.books := by simp [bulkTag, htag]
    rw [hsame]
    exact .refl w
  · have hbooks : (bulkTag st t input).books =
        { st.books with lines := st.books.lines.map (tagged t input.tagAccountId tag) } := by
      simp [bulkTag, htag, tagged]
    rw [hbooks] at hrows ⊢
    refine ⟨⟨_, rfl, fun l _ => ?_⟩, fun _ => rfl, rfl, hrows⟩
    obtain ⟨hid, htxn, hd, hc, hr, ha, -⟩ := @tagged_row t input.tagAccountId tag l
    refine .of_account hid htxn hd hc hr ?_ ha
    unfold tagged
    split_ifs <;> rfl

/-- One document of the batch. -/
theorem bulkOne_recast {skipped : Option String} (w : b.Rows) (hc : IsClearing sys b)
    (hspares : s.PassSpares sys input facts b t)
    (h : bulkOne s.store.recs input facts b t = .ok (b', skipped)) : Recast sys s b b' := by
  rcases bulkOne_cases h with rfl | ⟨txn, ht, hcheck, hrest⟩
  · exact .refl w
  simp only [DepositBooks.PassSpares, ht] at hspares
  obtain ⟨hcategory, hmove⟩ := hspares hcheck
  have hpayee : Recast sys s b (bulkPayee b t txn input).books := bulkPayee_recast w ht
  rcases hrest with rfl | ⟨st, hst, hrest⟩
  · exact hpayee
  simp only [hst] at hmove
  have hstep : Recast sys s (bulkPayee b t txn input).books st.books := by
    rcases bulkCategory_moves hst with heq | ⟨l, a, out, into, hmoves, hl, rfl, heq⟩
    · rw [heq]
      exact .refl hpayee.rows
    · have hlt : l ∈ (bulkPayee b t txn input).books.linesOf t := List.mem_of_mem_filter hl
      have hoff := category_off (hc.of_accounts hpayee.accounts) hl
      have hsame : categoryMove b t input = some (l, into.accountId) := by
        rcases bulkPayee_books b t txn input with hb | ⟨contact, hb⟩
        · rwa [hb] at hmoves
        · rw [hb] at hmoves
          exact hmoves
      rw [heq]
      have hls : ∀ l' ∈ [l], l' ∈ (bulkPayee b t txn input).books.linesOf t := by simpa using hlt
      refine Recast.move hpayee.rows hls (fun hd => ?_) fun _ => ?_
      · simpa [hoff] using hcategory hd _ hsame
      · simp [hoff]
  refine hpayee.trans (hstep.trans ?_)
  rcases hrest with rfl | ⟨st', hst', rfl⟩
  · exact .refl hstep.rows
  have hlast : Recast sys s st.books st'.books := by
    rcases bulkMove_moves hst' with heq | ⟨source, target, out, into, hmoves, rfl, heq⟩
    · rw [heq]
      exact .refl hstep.rows
    · obtain ⟨hdep, hholds⟩ := hmove _ hmoves
      rw [heq]
      refine Recast.move (t := t) hstep.rows (fun l hl => List.mem_of_mem_filter hl)
        (fun hd l hl => ?_) fun hh l hl => ?_
      all_goals
        have hacct : l.accountId = source := by simpa using (List.mem_filter.mp hl).2
        rw [hacct]
      · simp [(hdep hd).1, (hdep hd).2]
      · exact fun heq => absurd heq (hholds hh)
  exact hlast.trans (bulkTag_recast st' hlast.rows)

/-- The whole batch, from books that a part of it has left. -/
theorem bulkAll_recast {b₀ : Books} (hc : IsClearing sys b₀) :
    ∀ {ts : List Id} {b b' : Books} {r : BulkResult}, Recast sys s b₀ b →
      s.BatchSpares sys input facts b ts → bulkAll s.store.recs input facts b ts = .ok (b', r) →
      Recast sys s b₀ b'
  | [], b, b', r, hb, _, h => by
    simp only [bulkAll, Except.ok.injEq, Prod.mk.injEq] at h
    rwa [← h.1]
  | t :: ts, b, b', r, hb, hspares, h => by
    simp only [bulkAll, bind_eq_ok, pure_eq_ok] at h
    obtain ⟨⟨b₁, skipped⟩, h₁, ⟨b₂, r₂⟩, h₂, heq⟩ := h
    obtain ⟨hpass, hrest⟩ := hspares
    simp only [h₁] at hrest
    have hone := bulkOne_recast hb.rows (hc.of_accounts hb.accounts) hpass h₁
    have hall := bulkAll_recast hc (hb.trans hone) hrest h₂
    have hfst : b₂ = b' := by cases skipped <;> exact congrArg Prod.fst heq
    rwa [← hfst]

theorem Recast.typedLines (h : Recast sys s b b') : ∃ f : JournalLine → JournalLine,
    (∀ l ∈ b.lines, KeepsPlace sys s l (f l)) ∧ ∀ x, b'.typedLines x = (b.typedLines x).map f := by
  obtain ⟨f, hf, hkeep⟩ := h.lines
  refine ⟨f, hkeep, fun x => ?_⟩
  rw [Books.typedLines, Books.linesOf, hf, List.filter_map, List.filter_map, List.filter_filter,
    Books.typedLines, Books.linesOf, List.filter_filter]
  refine congrArg (List.map f) (List.filter_congr fun l hl => ?_)
  simp only [Function.comp_apply, (hkeep l hl).transactionId, (hkeep l hl).derived]

theorem Recast.header (h : Recast sys s b b') (x : Id) : b'.status x = b.status x ∧
    (b'.txns x).map (·.txnType) = (b.txns x).map (·.txnType) ∧ (b'.txns x = none ↔ b.txns x = none) := by
  have hx := h.headers x
  rcases hb : b.txns x with _ | txn <;> rcases hb' : b'.txns x with _ | txn' <;>
    simp only [hb, hb', Option.map_none, Option.map_some, reduceCtorEq, Option.some.injEq, Prod.mk.injEq] at hx
  · simp [Books.status, hb, hb']
  · simp [Books.status, hb, hb', hx.1, hx.2]

/-- A recast item has in Payments Clearing what it had. -/
theorem Recast.clearingAmount (h : Recast sys s b b') (hd : s.deposited t = true) :
    clearingAmount sys b' t = clearingAmount sys b t := by
  obtain ⟨f, hf, hkeep⟩ := h.lines
  have hlines : clearingLines sys b' t = (clearingLines sys b t).map f := by
    rw [clearingLines, Books.linesOf, hf, List.filter_map, List.filter_map, List.filter_filter,
      clearingLines, Books.linesOf, List.filter_filter]
    refine congrArg (List.map f) (List.filter_congr fun l hl => ?_)
    have hk := hkeep l hl
    simp only [Function.comp_apply, hk.transactionId, hk.isVoidReversal]
    by_cases ht : l.transactionId = t
    · simp only [hk.deposited (ht ▸ hd)]
    · simp [ht]
  rw [Deposits.clearingAmount, hlines, Deposits.clearingAmount, lineSum, lineSum, List.map_map]
  refine congrArg List.sum (List.map_congr_left fun l hl => ?_)
  have hk := hkeep l (Books.mem_linesOf.mp (List.mem_of_mem_filter hl)).1
  simp only [Function.comp_apply, hk.debit, hk.credit]

theorem DepositBooks.Sound.recast (hs : s.Sound sys) (h : Recast sys s s.store.books b') :
    ({ s with store := { s.store with books := b' } } : DepositBooks).Sound sys := by
  set s' : DepositBooks := { s with store := { s.store with books := b' } } with hs'
  have hlive : s'.live = s.live :=
    List.filter_congr fun k _ => by rw [hs', (h.header k.depositId).1]
  have hcredit : ∀ x, s'.isCredit x = s.isCredit x := by
    intro x
    have htype := (h.header x).2.1
    simp only [hs', DepositBooks.isCredit]
    rcases hx : s.store.books.txns x with _ | txn <;> rcases hx' : b'.txns x with _ | txn' <;>
      simp only [hx, hx', Option.map_none, Option.map_some, reduceCtorEq, Option.some.injEq] at htype
    · rfl
    · simp [htype]
  have hrefunded : ∀ x, s'.refunded x none = s.refunded x none := by
    intro x
    rw [DepositBooks.refunded, liveDepositsForSource_none, hlive, DepositBooks.refunded,
      liveDepositsForSource_none]
  refine ⟨h.rows, hs.clearing.of_accounts h.accounts, fun k hk => ?_, fun k hk => ?_, fun k hk hi => ?_, ?_,
    ⟨fun a ha => ?_, fun x hx hp => ?_, fun x hx hp => ?_⟩⟩
  · exact ⟨mt (h.header k.depositId).2.2.mp (hs.links k hk).1, (hs.links k hk).2⟩
  · exact (h.header k.depositId).2.1.trans (hs.deposits k (hlive ▸ hk))
  · rw [hlive] at hk
    rw [hcredit] at hi
    have hwhole := hs.items k hk hi
    have hdep : s.deposited k.sourceTransactionId = true := deposited_of_live hk hi
    have hholds : s.holds k.depositId = true := List.any_eq_true.mpr ⟨k, hk, by simp [hi]⟩
    obtain ⟨f, hkeep, htyped⟩ := h.typedLines
    refine ⟨(h.header _).1.trans hwhole.posted, (h.clearingAmount hdep).trans hwhole.amount,
      hwhole.named.map (htyped _) (fun l hl => ?_) fun _ _ => rfl⟩
    obtain ⟨hl, ht, -⟩ := mem_typedLines.mp hl
    have hk := hkeep l hl
    exact ⟨hk.id, hk.debit, hk.credit, hk.isVoidReversal, hk.holds (ht ▸ hholds)⟩
  · rw [hlive]
    simpa only [hcredit] using hs.once
  · exact ⟨mt (h.header a.1).2.2.mp (hs.credits.applications a ha).1, (hs.credits.applications a ha).2⟩
  · rw [hcredit] at hx
    exact hs.credits.totals x hx ((h.header x).1.symm.trans hp)
  · rw [hcredit] at hx
    rw [hrefunded]
    exact hs.credits.within x hx ((h.header x).1.symm.trans hp)

theorem DepositBooks.Sound.bulkUpdate {s' : DepositBooks} (hs : s.Sound sys)
    (hspares : s.BatchSpares sys input (s.bulkFacts facts) s.store.books input.txnIds)
    (h : s.bulkUpdate input facts refusal = .ok s') : s'.Sound sys := by
  obtain ⟨store, hstore, rfl⟩ := onLedger_eq_ok.mp h
  obtain ⟨b, r, rfl, hall⟩ := bulkUpdateTransactions_ok hstore
  exact hs.recast (bulkAll_recast hs.clearing (.refl hs.rows) hspares hall)

end Batch

section Run

variable {sys : SystemAccounts} {s s' : DepositBooks}

/-- A call that spares the deposits keeps them sound, whether it goes through or throws. -/
theorem depositStep_sound {action : DepositAction} (hs : s.Sound sys) (hspares : s.Spares sys action)
    (h : depositStep sys s action = some s') : s'.Sound sys := by
  rw [depositStep, Option.some.injEq] at h
  rcases hcall : depositCall sys s action with e | s₁
  · rw [hcall] at h
    exact h ▸ hs
  rw [hcall] at h
  obtain rfl : s₁ = s' := h
  cases action with
  | post t input total refusal costing => exact hs.post hspares hcall
  | createDeposit d input facts => exact hs.createDeposit hcall
  | updateDeposit d input facts => exact hs.updateDeposit hspares.1 hspares.2 hcall
  | update t input refusal costing => exact hs.update hspares.1 hspares.2.1 hspares.2.2 hcall
  | updateVendorCredit t input total refusal costing => exact hs.updateVendorCredit hspares hcall
  | void t ids refusal costing => exact hs.voidDocument hspares hcall
  | delete t ids refusal costing => exact hs.deleteDocument hspares hcall
  | bulk input facts refusal => exact hs.bulkUpdate hspares hcall

/-- After any run of calls that spare the deposits, every item is in one posted deposit at most, which took
all of it, and no vendor credit is used beyond its total. -/
theorem deposited_once {actions : List DepositAction} (hs : s.Undeposited sys)
    (hrun : run (depositStep sys) s actions = some s')
    (hspares : RunMeets (depositStep sys) (fun s action => s.Spares sys action) s actions) :
    s'.DepositedOnce sys :=
  (run_keeps_of (fun _ _ _ hs hspares h => depositStep_sound hs hspares h) hrun hspares hs.sound).depositedOnce

end Run

section Example

def receiptSystem : SystemAccounts := ⟨"clearing", "payable"⟩

def receiptBooks : DepositBooks where
  store := {
    books := {
      accounts := fun a =>
        if a = "clearing" then some ⟨.asset, none, some .paymentsClearing⟩
        else if a = "checking" then some ⟨.asset, some .bank, none⟩
        else if a = "sales" then some ⟨.revenue, none, none⟩
        else if a = "stock" then some ⟨.asset, none, none⟩
        else none
      txns := fun _ => none
      lines := []
      balance := fun _ => 0 }
    recs := ⟨[], [], [], []⟩ }
  links := []
  sources := fun _ => none
  totals := fun _ => 0
  applications := []

theorem receiptBooks_undeposited : receiptBooks.Undeposited receiptSystem where
  rows := Books.rows_of_nil rfl
  clearing := ⟨by decide, by decide⟩
  links := rfl
  credits := {
    applications := fun a ha => absurd ha List.not_mem_nil
    totals := fun t ht => by cases ht
    within := fun t ht => by cases ht }

/-- A receipt of 100, with the rows `l₁` and `l₂`. -/
def receipt (l₁ l₂ : Id) : PostInput :=
  ⟨.cashSale, "2026-01-05", none, none, [⟨l₁, "clearing", 100, 0, none⟩, ⟨l₂, "sales", 0, 100, none⟩]⟩

/-- Stock taken off against Payments Clearing. -/
def adjustment : PostInput :=
  ⟨.inventoryAdjustment, "2026-01-05", none, none, [⟨"a1", "stock", 0, 0, none⟩, ⟨"a2", "clearing", 0, 0, none⟩]⟩

/-- The walk values the adjustment at 50. -/
def valued : Costing where
  delete := []
  update := []
  insert := [⟨"w1", "adjustment", "stock", 0, 50, none, true, false, false⟩,
    ⟨"w2", "adjustment", "clearing", 50, 0, none, true, false, false⟩]

/-- It values it anew. -/
def revalued : Costing := ⟨[], [("w1", 0, 60), ("w2", 60, 0)], []⟩

def depositOf (source : Id) (amount : Dec) (bank row : Id) : CreateDepositInput :=
  ⟨"2026-01-06", "checking", bank, [⟨row, "clearing", amount, none, none, some source⟩], none, true⟩

def openFacts : DepositFacts := ⟨fun _ => true, fun _ => false, none⟩

def openBulk : BulkFacts := ⟨fun _ => true, fun _ => false, fun _ => false, fun _ => false⟩

/-- A receipt is deposited, a second deposit of it is refused, both documents are edited while the walk
values an adjustment that no deposit took, and the receipt is tagged with a batch. -/
def editedReceipt : List DepositAction :=
  [.post "receipt" (receipt "l1" "l2") 100 none none, .post "adjustment" adjustment 0 none (some valued),
    .createDeposit "deposit" (depositOf "receipt" 100 "b1" "d1") openFacts,
    .createDeposit "again" (depositOf "receipt" 100 "b2" "d2") openFacts,
    .update "receipt" (receipt "l3" "l4") none (some revalued),
    .updateDeposit "deposit" (depositOf "receipt" 100 "b3" "d3") openFacts,
    .bulk ⟨["receipt", "deposit"], none, none, some (some "tag"), none, none, none⟩ openBulk none]

theorem editedReceipt_deposited_once : ∃ s', run (depositStep receiptSystem) receiptBooks editedReceipt = some s' ∧
    s'.live = [⟨"deposit", "receipt", 100⟩] ∧
    clearingAmount receiptSystem s'.store.books "adjustment" = 60 ∧ s'.DepositedOnce receiptSystem := by
  have hrun : run (depositStep receiptSystem) receiptBooks editedReceipt = some _ := rfl
  exact ⟨_, hrun, by decide +kernel, by decide +kernel,
    deposited_once receiptBooks_undeposited hrun (by decide +kernel)⟩

/-- A deposited receipt is moved out of Payments Clearing by a batch, and a deposited adjustment is valued
anew. -/
theorem movedReceipt_not_whole :
    (∃ s', run (depositStep receiptSystem) receiptBooks
        [.post "receipt" (receipt "l1" "l2") 100 none none,
          .createDeposit "deposit" (depositOf "receipt" 100 "b1" "d1") openFacts,
          .bulk ⟨["receipt"], none, none, none, none, some "clearing", some "checking"⟩ openBulk none] = some s' ∧
      ¬s'.DepositedOnce receiptSystem) ∧
    ∃ s', run (depositStep receiptSystem) receiptBooks
        [.post "adjustment" adjustment 0 none (some valued),
          .createDeposit "deposit" (depositOf "adjustment" 50 "b1" "d1") openFacts,
          .post "receipt" (receipt "l1" "l2") 100 none (some revalued)] = some s' ∧
      ¬s'.DepositedOnce receiptSystem := by
  refine ⟨⟨_, rfl, fun h => ?_⟩, ⟨_, rfl, fun h => ?_⟩⟩
  · exact absurd (h.whole "receipt" (by decide +kernel) ⟨"deposit", "receipt", 100⟩ (by decide +kernel)).2.1
      (by decide +kernel)
  · exact absurd (h.whole "adjustment" (by decide +kernel) ⟨"deposit", "adjustment", 50⟩
      (by decide +kernel)).2.1 (by decide +kernel)

end Example

end Deposits

end MyBooks
