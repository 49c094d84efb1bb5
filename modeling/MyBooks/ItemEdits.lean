import MyBooks.DepositItems

/-!
# Calls on the documents that deposits took

A document that is new is in no deposit, and one that is voided or deleted is in none any more. An
edit of an item stores the amount its deposit took, where what it stores is what the guard compared
(`edited_whole`).
-/

namespace MyBooks

namespace Deposits

section Calls

variable {sys : SystemAccounts} {s s' : DepositBooks} {t : Id} {k : DepositLink} {input : PostInput}
  {refusal : Refusal} {costing : Option Costing}

theorem onLedger_eq_ok {x : Except LedgerError Store} :
    s.onLedger x = .ok s' ↔ ∃ store, x = .ok store ∧ s' = { s with store := store } := by
  cases x with
  | error e => simp [DepositBooks.onLedger]
  | ok store => simp [DepositBooks.onLedger, eq_comm]

theorem assertNotDeposited_ok {u : Unit} :
    s.assertNotDeposited t = .ok u ↔ s.liveDepositsForSource t none = [] := by
  unfold DepositBooks.assertNotDeposited
  by_cases h : s.liveDepositsForSource t none = [] <;> simp [h]

theorem not_source_of_nil (h : s.liveDepositsForSource t none = []) (hk : k ∈ s.live) :
    k.sourceTransactionId ≠ t := by
  rw [liveDepositsForSource_none, List.filter_eq_nil_iff] at h
  simpa using h k hk

/-- The rows of a call are new ones: no other row has their ids. -/
theorem not_mem_of_insertable {b : Books} {lines : List LineInput} {l : JournalLine}
    (hins : b.insertable (lines.map (LineInput.stored t)) = true) (hl : l ∈ b.lines) :
    l.id ∉ lines.map (·.id) := by
  intro hid
  obtain ⟨i, hi, hid⟩ := List.mem_map.mp hid
  exact (Books.insertable_iff.mp hins).2.1 _ (List.mem_map_of_mem hi) l hl hid.symm

/-- Nothing deposits, and nothing applies, a document that is not there. -/
theorem DepositBooks.Sound.unknown (hs : s.Sound sys) (ht : s.store.books.txns t = none) :
    (∀ k ∈ s.links, k.depositId ≠ t) ∧ s.liveDepositsForSource t none = [] ∧ s.applied t = 0 := by
  refine ⟨fun k hk hkt => (hs.links k hk).1 (hkt ▸ ht), ?_, ?_⟩
  · rw [liveDepositsForSource_none, List.filter_eq_nil_iff]
    intro k hk hkt
    have hkt : k.sourceTransactionId = t := by simpa using hkt
    have hposted := (hs.items k hk (by simp [DepositBooks.isCredit, hkt, ht])).posted
    simp [hkt, Books.status, ht] at hposted
  · have hnil : s.applications.filter (fun a => a.1 = t) = [] := by
      rw [List.filter_eq_nil_iff]
      intro a ha hat
      exact (hs.credits.applications a ha).1 (by rw [of_decide_eq_true hat]; exact ht)
    rw [DepositBooks.applied, hnil]
    rfl

theorem DepositBooks.Sound.post {total : Dec} (hs : s.Sound sys)
    (hk : s.WalkSpares sys costing)
    (h : s.post t input total refusal costing = .ok s') : s'.Sound sys := by
  obtain ⟨posted, hposted, h⟩ := bind_eq_ok.mp h
  obtain ⟨store, hstore, rfl⟩ := onLedger_eq_ok.mp hposted
  obtain ⟨hsize, h⟩ := ite_error_eq_ok.mp h
  rw [not_or, not_not] at hsize
  obtain rfl := pure_eq_ok.mp h
  obtain ⟨ht, hins, -, hedits, htxn, -⟩ := postTransaction_typed hs.rows hk.leaves hstore
  obtain ⟨hlinks, hnone, happlied⟩ := hs.unknown ht
  have htouch : Touches sys t s { s with
      store := store
      totals := fun id => if id = t then round4 total else s.totals id
      sources := fun id => if id ∈ input.lines.map (·.id) then none else s.sources id } := {
    edits := hedits
    links := .refl _
    sources := fun x _ l hl => if_neg (not_mem_of_insertable hins (mem_typedLines.mp hl).1)
    totals := fun x hx => if_neg hx
    applications := rfl
    header := fun txn htxn => by simp [ht] at htxn
    drafts := fun k hk hkt => absurd hkt (hlinks k hk) }
  refine htouch.sound hs (fun k hk hi hor => ?_) fun hc _ => ?_
  · have hk := htouch.live.subset hk
    rcases hor with hor | hor
    · exact absurd hor (not_source_of_nil hnone hk)
    · exact absurd hor (hlinks k (mem_live.mp hk).1)
  · have htype : input.txnType = .vendorCredit := by simpa [DepositBooks.isCredit, htxn] using hc
    have htotal : 0 < total := not_le.mp fun hle => hsize.2 ⟨htype, hle⟩
    have hrefunded := htouch.refunded_le hs t
    simp only [DepositBooks.refunded, hnone, List.map_nil, List.sum_nil] at hrefunded
    have hgone := add_le_add hrefunded ((htouch.applied_eq t).trans happlied).le
    simp only [if_true]
    refine ⟨⟨places_toPlaces 4 _, lt_of_le_of_lt (le_abs_self _) hsize.1⟩, hgone.trans ?_⟩
    rw [add_zero]
    exact toPlaces_nonneg htotal.le

/-- Voids and deletes, of a document that no deposit took. -/
theorem DepositBooks.Sound.released {store : Store} {status : TxnStatus} (hs : s.Sound sys)
    (hnone : s.liveDepositsForSource t none = [])
    (hedits : s.store.books.Edits sys.paymentsClearing (fun x => s.deposited x = true) t store.books)
    (hstatus : status ≠ .posted)
    (htxn : store.books.txns t = (s.store.books.txns t).map fun txn => { txn with status := status }) :
    ({ s.releaseDepositLinks t with store := store } : DepositBooks).Sound sys := by
  have hnot : store.books.status t ≠ some .posted := by
    rw [Books.status, htxn, Option.map_map]
    rcases s.store.books.txns t with _ | txn <;> simp [hstatus]
  have htouch : Touches sys t s { s.releaseDepositLinks t with store := store } := {
    edits := hedits
    links := List.filter_sublist
    sources := fun _ _ _ _ => rfl
    totals := fun _ _ => rfl
    applications := rfl
    header := fun txn ht => ⟨{ txn with status := status }, by simp [htxn, Option.mem_def.mp ht], rfl⟩
    drafts := fun _ _ _ hp => absurd hp hnot }
  refine htouch.sound hs (fun k hk hi hor => ?_) fun _ hp => absurd hp hnot
  rcases hor with hor | hor
  · exact absurd hor (not_source_of_nil hnone (htouch.live.subset hk))
  · have := (List.mem_filter.mp (mem_live.mp hk).1).2
    simp [hor] at this

theorem DepositBooks.Sound.voidDocument {ids : List Id} (hs : s.Sound sys)
    (hk : s.WalkSpares sys costing)
    (h : s.voidDocument t ids refusal costing = .ok s') : s'.Sound sys := by
  obtain ⟨_, hnot, h⟩ := bind_eq_ok.mp h
  obtain ⟨store, hstore, rfl⟩ := onLedger_eq_ok.mp h
  obtain ⟨-, hedits, htxn⟩ := voidTransaction_typed hs.rows hk.leaves hstore
  exact hs.released (assertNotDeposited_ok.mp hnot) hedits (by simp) htxn

theorem DepositBooks.Sound.deleteDocument {ids : List Id} (hs : s.Sound sys)
    (hk : s.WalkSpares sys costing)
    (h : s.deleteDocument t ids refusal costing = .ok s') : s'.Sound sys := by
  obtain ⟨_, hnot, h⟩ := bind_eq_ok.mp h
  obtain ⟨store, hstore, rfl⟩ := onLedger_eq_ok.mp h
  obtain ⟨-, hedits, htxn⟩ := deleteTransaction_typed hs.rows hk.leaves hstore
  exact hs.released (assertNotDeposited_ok.mp hnot) hedits (by simp) htxn

end Calls

section Edit

variable {sys : SystemAccounts} {s s' : DepositBooks} {t : Id} {k : DepositLink} {input : PostInput}
  {named : Id → Option Id} {ap : Bool} {refusal : Refusal} {costing : Option Costing} {store : Store}

theorem rewrite_ok (h : s.rewrite sys t input named ap refusal costing = .ok s') :
    s.assertDepositedAmountKept sys t input = .ok () ∧ ∃ store,
      updateTransaction s.store t input ap refusal costing = .ok store ∧
      s' = { s with store := store, sources := s.renamed t input named } := by
  obtain ⟨_, hkept, h⟩ := bind_eq_ok.mp h
  obtain ⟨updated, hupdated, h⟩ := bind_eq_ok.mp h
  obtain ⟨store, hstore, rfl⟩ := onLedger_eq_ok.mp hupdated
  exact ⟨hkept, store, hstore, (pure_eq_ok.mp h).symm⟩

/-- The names of the rows after a full edit. -/
theorem renamed_full (h : s.store.reconciled t = false) (id : Id) :
    s.renamed t input named id = if id ∈ input.lines.map (·.id) then named id else s.sources id := by
  simp only [DepositBooks.renamed, h]

theorem renamed_kept {txn : Txn} {kept : List (JournalLine × LineInput)} {new : List LineInput}
    (h : s.store.reconciled t = true) (ht : s.store.books.txns t = some txn)
    (hpart : partialEdit s.store.books t txn.txnDate input = some (kept, new)) (id : Id) :
    s.renamed t input named id = match kept.find? fun p => p.1.id = id with
      | some p => named p.2.id
      | none => if id ∈ new.map (·.id) then named id else s.sources id := by
  rcases hfind : kept.find? fun p => p.1.id = id with _ | p <;>
    simp only [DepositBooks.renamed, h, ht, Option.bind_some, hpart, hfind]

theorem find?_kept_none {b : Books} {txn : Txn} {kept : List (JournalLine × LineInput)} {new : List LineInput}
    (hpart : partialEdit b t txn.txnDate input = some (kept, new)) {id : Id}
    (hid : ∀ l ∈ b.linesOf t, l.id ≠ id) : kept.find? (fun p => p.1.id = id) = none := by
  rw [List.find?_eq_none]
  intro p hp hpid
  exact hid p.1 (kept_mem hpart p hp) (by simpa using hpid)

/-- An edit leaves the names of other documents' rows. -/
theorem renamed_of_ne {x : Id} (w : s.store.books.Rows)
    (h : updateTransaction s.store t input ap refusal costing = .ok store) (hx : x ≠ t) {l : JournalLine}
    (hl : l ∈ s.store.books.typedLines x) : s.renamed t input named l.id = s.sources l.id := by
  obtain ⟨hmem, hlx, -⟩ := mem_typedLines.mp hl
  obtain ⟨txn, ht, -, -, h⟩ := updateTransaction_ok h
  by_cases hrec : s.store.reconciled t = true
  · rw [if_pos hrec] at h
    obtain ⟨kept, new, hpart, hins, -⟩ := updateReconciled_ok h
    have hother : ∀ l' ∈ s.store.books.linesOf t, l'.id ≠ l.id := by
      intro l' hl' hid
      obtain ⟨hmem', hlt⟩ := Books.mem_linesOf.mp hl'
      rw [List.inj_on_of_nodup_map w.ids hmem' hmem hid, hlx] at hlt
      exact hx hlt
    rw [renamed_kept hrec ht hpart, find?_kept_none hpart hother]
    exact if_neg (not_mem_of_insertable hins hmem)
  · rw [if_neg hrec] at h
    obtain ⟨hins, -⟩ := updateFull_ok h
    rw [renamed_full (by simpa using hrec)]
    exact if_neg (not_mem_of_insertable hins hmem)

theorem rewritten_touches (hs : s.Sound sys)
    (hk : s.WalkSpares sys costing)
    (h : updateTransaction s.store t input ap refusal costing = .ok store) :
    Touches sys t s { s with store := store, sources := s.renamed t input named } := by
  obtain ⟨txn, ht, -, hedits, ⟨txn', htxn', htype, hstatus⟩, -⟩ := updateTransaction_typed hs.rows hs.clearing.balanceSheet hk.leaves h
  exact {
    edits := hedits
    links := .refl _
    sources := fun x hx l hl => renamed_of_ne hs.rows h hx hl
    totals := fun _ _ => rfl
    applications := rfl
    header := fun txn₀ ht₀ => by
      rw [ht, Option.mem_def, Option.some.injEq] at ht₀
      exact ⟨txn', htxn', ht₀ ▸ htype⟩
    drafts := fun _ _ _ hp => by
      simp only [Books.status, ht, htxn', Option.map_some, hstatus] at hp ⊢
      exact hp }

theorem edited_status (hs : s.Sound sys)
    (hk : s.WalkSpares sys costing)
    (h : updateTransaction s.store t input ap refusal costing = .ok store) :
    store.books.status t = s.store.books.status t := by
  obtain ⟨txn, ht, -, -, ⟨txn', htxn', -, hstatus⟩, -⟩ := updateTransaction_typed hs.rows hs.clearing.balanceSheet hk.leaves h
  rw [Books.status, Books.status, ht, htxn', Option.map_some, Option.map_some, hstatus]

/-- What the partial edit of a reconciled document leaves of rows in Payments Clearing. -/
theorem lineSum_retag {kept : List (JournalLine × LineInput)} (ls : List JournalLine) :
    lineSum ((ls.map (retag kept)).filter fun l => l.isVoidReversal = false) =
      lineSum (ls.filter fun l => l.isVoidReversal = false) := by
  have hrev : (fun l : JournalLine => decide (l.isVoidReversal = false)) ∘ retag kept =
      fun l => decide (l.isVoidReversal = false) := by
    funext l
    rw [Function.comp_apply, (retag_row l).2.2.2.2]
  rw [List.filter_map, hrev, lineSum, lineSum, List.map_map]
  refine congrArg List.sum (List.map_congr_left fun l _ => ?_)
  simp only [Function.comp_apply, (retag_row l).2.2.1, (retag_row l).2.2.2.1]

/-- What the edited document has in Payments Clearing, where the walk leaves its rows there. -/
theorem edited_clearing {kept : Id → Prop} (hs : s.Sound sys)
    (hk : ∀ c ∈ costing, ∀ x, kept x → c.Leaves s.store.books sys.paymentsClearing x) (ht : kept t)
    (h : updateTransaction s.store t input ap refusal costing = .ok store) :
    clearingAmount sys store.books t = if s.store.reconciled t then clearingAmount sys s.store.books t
      else storedClearing sys t input.lines := by
  obtain ⟨txn, -, -, -, -, hlines⟩ :=
    updateTransaction_typed hs.rows hs.clearing.balanceSheet hk h
  rw [clearingAmount_split]
  split_ifs at hlines ⊢ with hrec
  · obtain ⟨kept, new, hpart, -, htyped, hwalk⟩ := hlines
    have hnew : (new.map (LineInput.stored t)).filter
        (fun l => l.accountId = sys.paymentsClearing ∧ l.isVoidReversal = false) = [] := by
      rw [List.filter_eq_nil_iff]
      intro l hl hclearing
      obtain ⟨i, hi, rfl⟩ := List.mem_map.mp hl
      have hoff := (partialEdit_some hpart).2.2 i hi
      have hacct : i.accountId = sys.paymentsClearing := (of_decide_eq_true hclearing).1
      rw [hacct, hs.clearing.balanceSheet] at hoff
      cases hoff
    rw [hwalk, lineSum_retag, htyped, List.filter_append, hnew, List.append_nil, clearingAmount_split]
    refine congrArg (· + _) ?_
    rw [List.filter_map, lineSum, lineSum, List.map_map, List.filter_filter]
    have hsame : ∀ l, (((fun l : JournalLine =>
        decide (l.accountId = sys.paymentsClearing ∧ l.isVoidReversal = false)) ∘ retag kept) l &&
          decide ¬(¬s.store.books.isBalanceSheet l.accountId = true ∧ ¬l.isVoidReversal = true)) =
        decide (l.accountId = sys.paymentsClearing ∧ l.isVoidReversal = false) := by
      intro l
      rw [Function.comp_apply, retag_accountId, (retag_row l).2.2.2.2]
      by_cases hacct : l.accountId = sys.paymentsClearing
      · simp [hacct, hs.clearing.balanceSheet]
      · simp [hacct]
    rw [List.filter_congr fun l _ => hsame l]
    refine congrArg List.sum (List.map_congr_left fun l _ => ?_)
    simp only [Function.comp_apply, (retag_row l).2.2.1, (retag_row l).2.2.2.1]
  · obtain ⟨-, htyped, hwalk⟩ := hlines
    rw [htyped, hwalk ht, List.filter_nil, storedClearing]
    refine (add_zero _).trans (congrArg lineSum (List.filter_congr fun l hl => ?_))
    simp [(mem_stored hl).2.2.2.1]

/-- The amount of an item's link is a ledger amount. -/
theorem DepositBooks.Sound.amount_lt (hs : s.Sound sys) (hk : k ∈ s.live)
    (hi : s.isCredit k.sourceTransactionId = false) : k.amount < 10 ^ 15 := by
  obtain ⟨l, hl, -, -, -, -, hcredit, -⟩ := namedBy_iff.mp (hs.items k hk hi).named
  have hfits := hs.rows.fits l (mem_typedLines.mp hl).1
  rw [JournalLine.fits, decide_eq_true_eq] at hfits
  rw [← hcredit]
  exact lt_of_le_of_lt (le_abs_self _) hfits.2

/-- What the guard of an edit has compared. -/
theorem assertDepositedAmountKept_ok (hs : s.Sound sys) (hk : k ∈ s.live) (hsrc : k.sourceTransactionId = t)
    (h : s.assertDepositedAmountKept sys t input = .ok ()) :
    s.isCredit t = false ∧ heldBy sys input.lines = k.amount := by
  have hmem : k ∈ s.liveDepositsForSource t none := by
    rw [liveDepositsForSource_none]
    exact List.mem_filter.mpr ⟨hk, by simpa using hsrc⟩
  have hne : s.liveDepositsForSource t none ≠ [] := List.ne_nil_of_mem hmem
  unfold DepositBooks.assertDepositedAmountKept at h
  simp only [if_neg hne] at h
  split_ifs at h with hsame
  · have hi : s.isCredit k.sourceTransactionId = false := by rw [hsrc]; exact hsame.1
    have hone := hs.unique hsame.1 hk hsrc
    have hlt := hs.amount_lt hk hi
    have hlink := (hs.links k (mem_live.mp hk).1).2
    have hexact : plus 0 k.amount = k.amount := by
      rw [plus, zero_add]
      exact toSig_20 hlink.1 (by rw [abs_of_pos hlink.2]; linarith)
    rw [hone, List.foldl_cons, List.foldl_nil, hexact] at hsame
    exact hsame
  · exact absurd (assertNotDeposited_ok.mp h) hne

/-- An item that a deposit took keeps its amount under an edit that stores what the guard compared. -/
theorem edited_whole (hs : s.Sound sys)
    (hk : s.WalkSpares sys costing)
    (hguard : s.assertDepositedAmountKept sys t input = .ok ())
    (hsum : s.StoresSum sys (s.liveDepositsForSource t none) t input.lines)
    (h : updateTransaction s.store t input ap refusal costing = .ok store)
    (hlive : k ∈ s.live) (hsrc : k.sourceTransactionId = t) (hi : s.isCredit t = false)
    (hd : k.depositId ≠ t) :
    ({ s with store := store, sources := s.renamed t input named } : DepositBooks).Whole sys k := by
  have htouch : Touches sys t s { s with store := store, sources := s.renamed t input named } :=
    rewritten_touches hs hk h
  have hwhole := hs.items k hlive (by rw [hsrc]; exact hi)
  refine ⟨?_, ?_, hwhole.named.of_eq (htouch.edits.typed _ hd) (htouch.sources _ hd)⟩
  · rw [hsrc]
    exact (edited_status hs hk h).trans (hsrc ▸ hwhole.posted)
  · have hdep : s.deposited t = true := hsrc ▸ deposited_of_live hlive (hsrc.symm ▸ hi)
    have hclearing := edited_clearing hs hk.leaves hdep h
    rw [hsrc]
    refine hclearing.trans ?_
    split_ifs with hrec
    · exact hsrc ▸ hwhole.amount
    · have hne : s.liveDepositsForSource t none ≠ [] := by
        rw [hs.unique hi hlive hsrc]
        simp
      rw [hsum hne (by simpa using hrec)]
      exact (assertDepositedAmountKept_ok hs hlive hsrc hguard).2

theorem DepositBooks.Sound.update (hs : s.Sound sys)
    (hk : s.WalkSpares sys costing) (hholds : s.holds t = false)
    (hsum : s.StoresSum sys (s.liveDepositsForSource t none) t input.lines)
    (h : s.update sys t input refusal costing = .ok s') : s'.Sound sys := by
  obtain ⟨hguard, store, hstore, rfl⟩ := rewrite_ok h
  have htouch : Touches sys t s { s with store := store, sources := s.renamed t input fun _ => none } :=
    rewritten_touches hs hk hstore
  obtain ⟨txn, ht, -⟩ := updateTransaction_ok hstore
  refine htouch.sound hs (fun k hlive hi hor => ?_) (htouch.credit_kept hs (by simp [ht]) rfl ?_)
  · have hlive := htouch.live.subset hlive
    have hd : k.depositId ≠ t := by
      intro hd
      have hany := List.any_eq_false.mp hholds k hlive
      simp [hd, hi] at hany
    have hsrc := hor.resolve_right hd
    exact edited_whole hs hk hguard hsum hstore hlive hsrc (by rwa [hsrc] at hi) hd
  · exact fun hp => (edited_status hs hk hstore).symm.trans hp

theorem DepositBooks.Sound.updateVendorCredit {total : Dec} (hs : s.Sound sys)
    (hk : s.WalkSpares sys costing)
    (h : s.updateVendorCredit sys t input total refusal costing = .ok s') : s'.Sound sys := by
  unfold DepositBooks.updateVendorCredit at h
  obtain ⟨htotal, h⟩ := ite_error_eq_ok.mp h
  obtain ⟨hcredit, h⟩ := ite_error_eq_ok.mp h
  obtain ⟨hopen, h⟩ := ite_error_eq_ok.mp h
  obtain ⟨updated, hupdated, h⟩ := bind_eq_ok.mp h
  obtain rfl := pure_eq_ok.mp h
  obtain ⟨-, store, hstore, rfl⟩ := rewrite_ok hupdated
  simp only [not_or, not_not, not_le, ne_eq] at htotal hopen
  have hbase : Touches sys t s { s with store := store, sources := s.renamed t input fun _ => none } :=
    rewritten_touches hs hk hstore
  have htouch : Touches sys t s { s with
      store := store
      sources := s.renamed t input fun _ => none
      totals := fun id => if id = t then round4 total else s.totals id } :=
    { hbase with totals := fun x hx => if_neg hx }
  refine htouch.sound hs (fun k hlive hi hor => ?_) fun _ _ => ?_
  · have hlive := htouch.live.subset hlive
    rcases hor with hsrc | hd
    · exact absurd hsrc (not_source_of_nil hopen.2 hlive)
    · -- a vendor credit is no deposit
      have htype := hs.deposits k hlive
      rw [hd] at htype
      obtain ⟨txn, htxn, htxnType⟩ := Option.map_eq_some_iff.mp htype
      simp [DepositBooks.isCredit, htxn, htxnType] at hcredit
  · have hrefunded := htouch.refunded_le hs t
    have happlied : s.applied t = 0 := by
      rw [DepositBooks.applied, hopen.1]
      rfl
    simp only [DepositBooks.refunded, hopen.2, List.map_nil, List.sum_nil] at hrefunded
    have hgone := add_le_add hrefunded ((htouch.applied_eq t).trans happlied).le
    simp only [if_true]
    refine ⟨⟨places_toPlaces 4 _, lt_of_le_of_lt (le_abs_self _) htotal.2⟩, hgone.trans ?_⟩
    rw [add_zero]
    exact toPlaces_nonneg htotal.1.le

end Edit

end Deposits

end MyBooks
