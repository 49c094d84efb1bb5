import MyBooks.Deposits
import MyBooks.TypedLines

/-!
# Deposited items

Every document but a vendor credit is in at most one posted deposit, with all that it has waiting in
Payments Clearing, and the row of the deposit that names it takes just that out (`DepositedOnce`).
The bulk edit asks no deposit before it moves rows, nor does the costing walk before it rewrites its
own; the edit of a document as another type drops what its rows name, and the guard of an edit sums
amounts that the ledger then rounds one by one. `Spares` is what a step leaves alone. A call that
changes one document (`Touches`) keeps what holds of the others.
-/

namespace MyBooks

namespace Deposits

section Statement

variable (sys : SystemAccounts) (s : DepositBooks)

/-- The links of the posted deposits. -/
def DepositBooks.live : List DepositLink :=
  s.links.filter fun k => s.store.books.status k.depositId = some .posted

/-- One row of the deposit `d` names `t`, and takes `amount` out of Payments Clearing. -/
def DepositBooks.NamedBy (d t : Id) (amount : Dec) : Prop :=
  ∃ l ∈ clearingLines sys s.store.books d, s.names l = some t ∧ l.debit = 0 ∧ l.credit = amount ∧
    ∀ l' ∈ s.store.books.editable d, s.names l' = some t → l' = l

structure DepositBooks.DepositedOnce : Prop where
  once : ∀ t, s.isCredit t = false → (s.liveDepositsForSource t none).length ≤ 1
  whole : ∀ t, s.isCredit t = false → ∀ k ∈ s.liveDepositsForSource t none,
    s.store.books.status t = some .posted ∧ clearingAmount sys s.store.books t = k.amount ∧
      s.NamedBy sys k.depositId t k.amount
  credits : ∀ t, s.isCredit t = true → s.store.books.status t = some .posted →
    s.refunded t none + s.applied t ≤ s.totals t

/-- Payments Clearing is on the balance sheet, and no document's category. -/
structure IsClearing (b : Books) : Prop where
  balanceSheet : b.isBalanceSheet sys.paymentsClearing = true
  category : (b.accounts sys.paymentsClearing).any Account.isCategory = false

/-- The amounts of the vendor credits: what is applied is of a known credit and within its total. -/
structure DepositBooks.CreditsOk : Prop where
  applications : ∀ a ∈ s.applications, s.store.books.txns a.1 ≠ none ∧ Places 4 a.2 ∧ 0 ≤ a.2
  totals : ∀ t, s.isCredit t = true → s.store.books.status t = some .posted →
    Places 4 (s.totals t) ∧ s.totals t < 10 ^ 15
  within : ∀ t, s.isCredit t = true → s.store.books.status t = some .posted →
    s.refunded t none + s.applied t ≤ s.totals t

/-- Books with no deposit of any document yet. -/
structure DepositBooks.Undeposited : Prop where
  rows : s.store.books.Rows
  clearing : IsClearing sys s.store.books
  links : s.links = []
  credits : s.CreditsOk

end Statement

section Spares

variable (sys : SystemAccounts) (s : DepositBooks)

/-- The document is an item of a posted deposit. -/
def DepositBooks.deposited (t : Id) : Bool :=
  s.isCredit t = false ∧ s.live.any fun k => k.sourceTransactionId = t

/-- The document is a posted deposit of items. -/
def DepositBooks.holds (d : Id) : Bool :=
  s.live.any fun k => k.depositId = d ∧ s.isCredit k.sourceTransactionId = false

/-- What the lines put into Payments Clearing as they are stored. -/
def storedClearing (t : Id) (lines : List LineInput) : Dec :=
  lineSum ((lines.map (LineInput.stored t)).filter fun l => l.accountId = sys.paymentsClearing)

/-- A full edit of a document that the deposits in `live` took stores the sum that the guard has compared. -/
def DepositBooks.StoresSum (live : List DepositLink) (t : Id) (lines : List LineInput) : Prop :=
  live ≠ [] → s.store.reconciled t = false → storedClearing sys t lines = heldBy sys lines

instance (live : List DepositLink) (t : Id) (lines : List LineInput) :
    Decidable (s.StoresSum sys live t lines) :=
  inferInstanceAs (Decidable (_ → _ → _))

/-- The pass of a batch over the document `t` moves no row of a deposited item into or out of Payments
Clearing, and none of a deposit of items out of it. -/
def DepositBooks.PassSpares (input : BulkInput) (facts : BulkFacts) (b : Books) (t : Id) : Prop :=
  match b.txns t with
  | none => True
  | some txn =>
    bulkCheck input facts t txn = .ok none →
      (s.deposited t = true → ∀ p ∈ categoryMove b t input, p.2 ≠ sys.paymentsClearing) ∧
      match bulkCategory (bulkPayee b t txn input) t (txn.status = .posted) input with
      | .skip _ => True
      | .go st => ∀ p ∈ sourceMove s.store.recs st.books t input,
        (s.deposited t = true → p.1 ≠ sys.paymentsClearing ∧ p.2 ≠ sys.paymentsClearing) ∧
          (s.holds t = true → p.1 ≠ sys.paymentsClearing)

instance (input : BulkInput) (facts : BulkFacts) (b : Books) (t : Id) :
    Decidable (s.PassSpares sys input facts b t) := by
  unfold DepositBooks.PassSpares
  split
  · infer_instance
  · refine @instDecidableForall _ _ _ (@instDecidableAnd _ _ _ ?_)
    split <;> infer_instance

/-- Every pass does so in the books it finds. -/
def DepositBooks.BatchSpares (input : BulkInput) (facts : BulkFacts) : Books → List Id → Prop
  | _, [] => True
  | b, t :: ts =>
    s.PassSpares sys input facts b t ∧
      match bulkOne s.store.recs input facts b t with
      | .error _ => True
      | .ok r => BatchSpares input facts r.1 ts

instance DepositBooks.BatchSpares.decidable (input : BulkInput) (facts : BulkFacts) :
    ∀ b ts, Decidable (s.BatchSpares sys input facts b ts)
  | _, [] => inferInstanceAs (Decidable True)
  | b, t :: ts =>
    match h : bulkOne s.store.recs input facts b t with
    | .error _ => decidable_of_iff (s.PassSpares sys input facts b t) (by simp [BatchSpares, h])
    | .ok r =>
      have : Decidable (s.BatchSpares sys input facts r.1 ts) := BatchSpares.decidable input facts r.1 ts
      decidable_of_iff (s.PassSpares sys input facts b t ∧ s.BatchSpares sys input facts r.1 ts)
        (by simp [BatchSpares, h])

/-- An edit of a deposit that names the deposit itself leaves the named amount in Payments Clearing. -/
def DepositBooks.NamesItself (d : Id) (plan : DepositPlan) : Prop :=
  ∀ src ∈ plan.sources, src.sourceTransactionId = d → s.store.reconciled d = false →
    storedClearing sys d plan.payload.lines = src.amount

instance (d : Id) (plan : DepositPlan) : Decidable (s.NamesItself sys d plan) :=
  inferInstanceAs (Decidable (∀ src ∈ plan.sources, _ → _ → _))

/-- The costing walk leaves its rows in Payments Clearing of the deposited items. -/
def DepositBooks.WalkSpares (costing : Option Costing) : Prop :=
  ∀ c ∈ costing, ∀ k ∈ s.live, s.isCredit k.sourceTransactionId = false →
    c.Leaves s.store.books sys.paymentsClearing k.sourceTransactionId

instance (costing : Option Costing) : Decidable (s.WalkSpares sys costing) :=
  inferInstanceAs (Decidable (∀ c ∈ costing, ∀ k ∈ s.live, _ → _))

/-- The step leaves alone what the guards do not ask about. -/
def DepositBooks.Spares : DepositAction → Prop
  | .post _ _ _ _ costing => s.WalkSpares sys costing
  | .update t input _ costing =>
    s.WalkSpares sys costing ∧ s.holds t = false ∧
      s.StoresSum sys (s.liveDepositsForSource t none) t input.lines
  | .updateVendorCredit _ _ _ _ costing => s.WalkSpares sys costing
  | .void _ _ _ costing => s.WalkSpares sys costing
  | .delete _ _ _ costing => s.WalkSpares sys costing
  | .updateDeposit d input _ =>
    -- the walk writes no rows on a deposit
    s.store.books.walkLines sys.paymentsClearing d = [] ∧ ∀ plan ∈ (planDeposit input).toOption,
      s.StoresSum sys (s.liveDepositsForSource d (some d)) d plan.payload.lines ∧ s.NamesItself sys d plan
  | .createDeposit _ _ _ => True
  | .bulk input facts _ => s.BatchSpares sys input (s.bulkFacts facts) s.store.books input.txnIds

instance (action : DepositAction) : Decidable (s.Spares sys action) := by
  cases action <;> unfold DepositBooks.Spares <;> infer_instance

end Spares

section Frame

variable {sys : SystemAccounts} {s s' : DepositBooks} {b b' : Books} {d t : Id} {amount : Dec}

theorem IsClearing.of_accounts (hc : IsClearing sys b) (h : b'.accounts = b.accounts) : IsClearing sys b' := by
  refine ⟨?_, ?_⟩
  · rw [Books.isBalanceSheet, h]
    exact hc.balanceSheet
  · rw [h]
    exact hc.category

/-- What a document has in Payments Clearing: the rows callers wrote and the costing walk's. -/
theorem clearingAmount_split : clearingAmount sys b t =
    lineSum ((b.typedLines t).filter fun l => l.accountId = sys.paymentsClearing ∧ l.isVoidReversal = false) +
      lineSum ((b.walkLines sys.paymentsClearing t).filter fun l => l.isVoidReversal = false) := by
  rw [clearingAmount, lineSum, sum_filter_split fun l : JournalLine => l.derived = false]
  refine congrArg₂ (· + ·) (congrArg lineSum ?_) (congrArg lineSum ?_)
  · rw [clearingLines, Books.typedLines, List.filter_comm]
  · rw [clearingLines, Books.walkLines, List.filter_filter, List.filter_filter]
    refine List.filter_congr fun l _ => ?_
    by_cases hd : l.derived = true <;> simp [hd, and_comm]

theorem namedBy_iff : s.NamedBy sys d t amount ↔ ∃ l ∈ s.store.books.typedLines d,
    l.accountId = sys.paymentsClearing ∧ l.isVoidReversal = false ∧ s.sources l.id = some t ∧ l.debit = 0 ∧
      l.credit = amount ∧ ∀ l' ∈ s.store.books.typedLines d, l'.isVoidReversal = false →
        s.sources l'.id = some t → l' = l := by
  have hnames : ∀ l, s.names l = some t ↔ l.derived = false ∧ s.sources l.id = some t := by
    intro l
    by_cases hd : l.derived = true <;> simp [DepositBooks.names, hd]
  constructor
  · rintro ⟨l, hl, hname, hdebit, hcredit, hone⟩
    obtain ⟨hmem, hacct, hrev⟩ : l ∈ s.store.books.linesOf d ∧ l.accountId = sys.paymentsClearing ∧
        l.isVoidReversal = false := by simpa [clearingLines] using hl
    refine ⟨l, ?_, hacct, hrev, ((hnames l).mp hname).2, hdebit, hcredit, fun l' hl' hrev' hsrc => ?_⟩
    · exact List.mem_filter.mpr ⟨hmem, by simp [((hnames l).mp hname).1]⟩
    · obtain ⟨hl', hd'⟩ := List.mem_filter.mp hl'
      exact hone l' (List.mem_filter.mpr ⟨hl', by simp [hrev']⟩) ((hnames l').mpr ⟨by simpa using hd', hsrc⟩)
  · rintro ⟨l, hl, hacct, hrev, hsrc, hdebit, hcredit, hone⟩
    obtain ⟨hmem, hder⟩ := List.mem_filter.mp hl
    refine ⟨l, List.mem_filter.mpr ⟨hmem, by simp [hacct, hrev]⟩, (hnames l).mpr ⟨by simpa using hder, hsrc⟩,
      hdebit, hcredit, fun l' hl' hname => ?_⟩
    obtain ⟨hl', hrev'⟩ := List.mem_filter.mp hl'
    obtain ⟨hd', hsrc'⟩ := (hnames l').mp hname
    exact hone l' (List.mem_filter.mpr ⟨hl', by simp [hd']⟩) (by simpa using hrev') hsrc'

/-- The naming row stays while it keeps its place in Payments Clearing and its name. -/
theorem DepositBooks.NamedBy.map {f : JournalLine → JournalLine} (h : s.NamedBy sys d t amount)
    (hlines : s'.store.books.typedLines d = (s.store.books.typedLines d).map f)
    (hf : ∀ l ∈ s.store.books.typedLines d, (f l).id = l.id ∧ (f l).debit = l.debit ∧
      (f l).credit = l.credit ∧ (f l).isVoidReversal = l.isVoidReversal ∧
      (l.accountId = sys.paymentsClearing → (f l).accountId = sys.paymentsClearing))
    (hsources : ∀ l ∈ s.store.books.typedLines d, s'.sources l.id = s.sources l.id) :
    s'.NamedBy sys d t amount := by
  rw [namedBy_iff] at h ⊢
  obtain ⟨l, hl, hacct, hrev, hsrc, hdebit, hcredit, hone⟩ := h
  obtain ⟨hid, hd, hc, hr, ha⟩ := hf l hl
  refine ⟨f l, ?_, ha hacct, hr.trans hrev, ?_, hd.trans hdebit, hc.trans hcredit, fun l' hl' hrev' hsrc' => ?_⟩
  · rw [hlines]
    exact List.mem_map_of_mem hl
  · rw [hid, hsources l hl, hsrc]
  · rw [hlines] at hl'
    obtain ⟨l₀, hl₀, rfl⟩ := List.mem_map.mp hl'
    obtain ⟨hid₀, -, -, hr₀, -⟩ := hf l₀ hl₀
    rw [hid₀, hsources l₀ hl₀] at hsrc'
    rw [hone l₀ hl₀ (hr₀.symm.trans hrev') hsrc']

theorem DepositBooks.NamedBy.of_eq (h : s.NamedBy sys d t amount)
    (hlines : s'.store.books.typedLines d = s.store.books.typedLines d)
    (hsources : ∀ l ∈ s.store.books.typedLines d, s'.sources l.id = s.sources l.id) :
    s'.NamedBy sys d t amount :=
  h.map (f := id) (by rw [hlines, List.map_id]) (fun _ _ => ⟨rfl, rfl, rfl, rfl, id⟩) hsources

theorem clearingAmount_of_eq (h : b'.typedLines t = b.typedLines t)
    (hw : b'.walkLines sys.paymentsClearing t = b.walkLines sys.paymentsClearing t) :
    clearingAmount sys b' t = clearingAmount sys b t := by
  rw [clearingAmount_split, clearingAmount_split, h, hw]

end Frame

section Invariant

variable (sys : SystemAccounts) (s : DepositBooks)

/-- The item of the link is there as the deposit took it, and the deposit names it. -/
structure DepositBooks.Whole (k : DepositLink) : Prop where
  posted : s.store.books.status k.sourceTransactionId = some .posted
  amount : clearingAmount sys s.store.books k.sourceTransactionId = k.amount
  named : s.NamedBy sys k.depositId k.sourceTransactionId k.amount

/-- What every call keeps. -/
structure DepositBooks.Sound : Prop where
  rows : s.store.books.Rows
  clearing : IsClearing sys s.store.books
  links : ∀ k ∈ s.links, s.store.books.txns k.depositId ≠ none ∧ Places 4 k.amount ∧ 0 < k.amount
  deposits : ∀ k ∈ s.live, (s.store.books.txns k.depositId).map (·.txnType) = some .deposit
  items : ∀ k ∈ s.live, s.isCredit k.sourceTransactionId = false → s.Whole sys k
  once : s.live.Pairwise fun k k' =>
    s.isCredit k.sourceTransactionId = false → k.sourceTransactionId ≠ k'.sourceTransactionId
  credits : s.CreditsOk

variable {sys s} {s' : DepositBooks} {t : Id} {k : DepositLink}

theorem mem_live : k ∈ s.live ↔ k ∈ s.links ∧ s.store.books.status k.depositId = some .posted := by
  simp [DepositBooks.live]

theorem liveDepositsForSource_none :
    s.liveDepositsForSource t none = s.live.filter fun k => k.sourceTransactionId = t := by
  rw [DepositBooks.liveDepositsForSource, DepositBooks.live, List.filter_filter]
  refine List.filter_congr fun k _ => ?_
  simp

theorem deposited_of_live (hk : k ∈ s.live) (hi : s.isCredit k.sourceTransactionId = false) :
    s.deposited k.sourceTransactionId = true := by
  simp only [DepositBooks.deposited, hi, true_and, decide_eq_true_eq]
  exact List.any_eq_true.mpr ⟨k, hk, by simp⟩

/-- A walk that spares the deposits leaves every deposited item. -/
theorem DepositBooks.WalkSpares.leaves {costing : Option Costing} (h : s.WalkSpares sys costing) :
    ∀ c ∈ costing, ∀ x, s.deposited x = true → c.Leaves s.store.books sys.paymentsClearing x := by
  intro c hc x hx
  obtain ⟨hi, hany⟩ := of_decide_eq_true hx
  obtain ⟨k, hk, hkx⟩ := List.any_eq_true.mp hany
  obtain rfl : k.sourceTransactionId = x := of_decide_eq_true hkx
  exact h c hc k hk hi

theorem walkSpares_none : s.WalkSpares sys none := by
  rintro c ⟨⟩

theorem DepositBooks.Undeposited.sound (h : s.Undeposited sys) : s.Sound sys where
  rows := h.rows
  clearing := h.clearing
  links k hk := by simp [h.links] at hk
  deposits k hk := by simp [DepositBooks.live, h.links] at hk
  items k hk := by simp [DepositBooks.live, h.links] at hk
  once := by simp [DepositBooks.live, h.links]
  credits := h.credits

theorem DepositBooks.Sound.depositedOnce (h : s.Sound sys) : s.DepositedOnce sys where
  once t ht := by
    rw [liveDepositsForSource_none]
    have hone := h.once.filter fun k => k.sourceTransactionId = t
    rcases hls : s.live.filter fun k => k.sourceTransactionId = t with _ | ⟨k, _ | ⟨k', rest⟩⟩
    · rw [hls]
      simp
    · rw [hls]
      simp
    · rw [hls, List.pairwise_cons] at hone
      have hk : k ∈ s.live.filter fun k => k.sourceTransactionId = t := by simp [hls]
      have hk' : k' ∈ s.live.filter fun k => k.sourceTransactionId = t := by simp [hls]
      have hsrc : k.sourceTransactionId = t := by simpa using (List.mem_filter.mp hk).2
      have hsrc' : k'.sourceTransactionId = t := by simpa using (List.mem_filter.mp hk').2
      exact absurd (hsrc.trans hsrc'.symm) (hone.1 k' List.mem_cons_self (by rw [hsrc]; exact ht))
  whole t ht k hk := by
    rw [liveDepositsForSource_none] at hk
    obtain ⟨hlive, hsrc⟩ := List.mem_filter.mp hk
    obtain rfl : k.sourceTransactionId = t := by simpa using hsrc
    obtain ⟨hposted, hamount, hnamed⟩ := h.items k hlive ht
    exact ⟨hposted, hamount, hnamed⟩
  credits := h.credits.within

/-- Two live links of one item are one link. -/
theorem DepositBooks.Sound.unique (h : s.Sound sys) (ht : s.isCredit t = false) (hk : k ∈ s.live)
    (hsrc : k.sourceTransactionId = t) : s.liveDepositsForSource t none = [k] := by
  have hmem : k ∈ s.liveDepositsForSource t none := by
    rw [liveDepositsForSource_none]
    exact List.mem_filter.mpr ⟨hk, by simpa using hsrc⟩
  have hlen := h.depositedOnce.once t ht
  rcases hls : s.liveDepositsForSource t none with _ | ⟨k', _ | ⟨k'', rest⟩⟩
  · rw [hls] at hmem
    cases hmem
  · rw [hls] at hmem
    rw [List.mem_singleton.mp hmem]
  · rw [hls] at hlen
    simp at hlen

/-- Only the document `t` changes, and no link is added. -/
structure Touches (sys : SystemAccounts) (t : Id) (s s' : DepositBooks) : Prop where
  edits : s.store.books.Edits sys.paymentsClearing (fun x => s.deposited x = true) t s'.store.books
  links : s'.links.Sublist s.links
  sources : ∀ x, x ≠ t → ∀ l ∈ s.store.books.typedLines x, s'.sources l.id = s.sources l.id
  totals : ∀ x, x ≠ t → s'.totals x = s.totals x
  applications : s'.applications = s.applications
  header : ∀ txn ∈ s.store.books.txns t, ∃ txn' ∈ s'.store.books.txns t, txn'.txnType = txn.txnType
  drafts : ∀ k ∈ s'.links, k.depositId = t → s'.store.books.status t = some .posted →
    s.store.books.status t = some .posted

namespace Touches

theorem status (h : Touches sys t s s') {x : Id} (hx : x ≠ t) :
    s'.store.books.status x = s.store.books.status x := by
  rw [Books.status, h.edits.txns x hx, Books.status]

theorem isCredit (h : Touches sys t s s') {x : Id} (hx : x ≠ t) : s'.isCredit x = s.isCredit x := by
  rw [DepositBooks.isCredit, h.edits.txns x hx, DepositBooks.isCredit]

theorem txnType (h : Touches sys t s s') {x : Id} (hx : s.store.books.txns x ≠ none) :
    (s'.store.books.txns x).map (·.txnType) = (s.store.books.txns x).map (·.txnType) := by
  by_cases hxt : x = t
  · subst hxt
    obtain ⟨txn, htxn⟩ := Option.ne_none_iff_exists'.mp hx
    obtain ⟨txn', htxn', htype⟩ := h.header txn htxn
    rw [htxn, Option.mem_def.mp htxn', Option.map_some, Option.map_some, htype]
  · rw [h.edits.txns x hxt]

theorem known (h : Touches sys t s s') {x : Id} (hx : s.store.books.txns x ≠ none) :
    s'.store.books.txns x ≠ none := by
  have := h.txnType hx
  intro hnone
  rw [hnone, Option.map_none, eq_comm, Option.map_eq_none_iff] at this
  exact hx this

theorem live (h : Touches sys t s s') : s'.live.Sublist s.live := by
  have hposted : ∀ k ∈ s'.links, s'.store.books.status k.depositId = some .posted →
      s.store.books.status k.depositId = some .posted := by
    intro k hk hp
    by_cases hkt : k.depositId = t
    · rw [hkt] at hp ⊢
      exact h.drafts k hk hkt hp
    · rwa [h.status hkt] at hp
  have hsub : s'.live = (s'.links.filter fun k => s.store.books.status k.depositId = some .posted).filter
      fun k => s'.store.books.status k.depositId = some .posted := by
    rw [List.filter_filter, DepositBooks.live]
    refine List.filter_congr fun k hk => ?_
    by_cases hp : s'.store.books.status k.depositId = some .posted
    · simp [hp, hposted k hk hp]
    · simp [hp]
  rw [hsub]
  exact List.filter_sublist.trans (h.links.filter _)

/-- A document in a deposit keeps its kind. -/
theorem isCredit_source (h : Touches sys t s s') (hs : s.Sound sys) (hk : k ∈ s.live) :
    s'.isCredit k.sourceTransactionId = s.isCredit k.sourceTransactionId := by
  have hknown : s.store.books.txns k.sourceTransactionId ≠ none := by
    intro hnone
    have hitem : s.isCredit k.sourceTransactionId = false := by simp [DepositBooks.isCredit, hnone]
    have hposted := (hs.items k hk hitem).posted
    simp [Books.status, hnone] at hposted
  have htype := h.txnType hknown
  obtain ⟨txn, htxn⟩ := Option.ne_none_iff_exists'.mp hknown
  obtain ⟨txn', htxn'⟩ := Option.ne_none_iff_exists'.mp (h.known hknown)
  simp only [htxn, htxn', Option.map_some, Option.some.injEq] at htype
  simp [DepositBooks.isCredit, htxn, htxn', htype]

theorem refunded_le (h : Touches sys t s s') (hs : s.Sound sys) (x : Id) :
    s'.refunded x none ≤ s.refunded x none := by
  simp only [DepositBooks.refunded, liveDepositsForSource_none]
  refine ((h.live.filter _).map _).sum_le_sum fun a ha => ?_
  obtain ⟨k, hk, rfl⟩ := List.mem_map.mp ha
  exact (hs.links k (mem_live.mp (List.mem_of_mem_filter hk)).1).2.2.le

theorem applied_eq (h : Touches sys t s s') (x : Id) : s'.applied x = s.applied x := by
  rw [DepositBooks.applied, h.applications, DepositBooks.applied]

theorem whole_of_ne (h : Touches sys t s s') (hs : s.Sound sys) (hlive : k ∈ s.live)
    (hi : s.isCredit k.sourceTransactionId = false) (hsrc : k.sourceTransactionId ≠ t)
    (hd : k.depositId ≠ t) : s'.Whole sys k := by
  have hk := hs.items k hlive hi
  refine ⟨(h.status hsrc).trans hk.posted, ?_, hk.named.of_eq (h.edits.typed _ hd) (h.sources _ hd)⟩
  exact (clearingAmount_of_eq (h.edits.typed _ hsrc)
    (h.edits.walk _ (deposited_of_live hlive hi) hsrc)).trans hk.amount

/-- What holds of the other documents holds still; for the document itself the call has to see to it. -/
theorem sound (h : Touches sys t s s') (hs : s.Sound sys)
    (hitem : ∀ k ∈ s'.live, s.isCredit k.sourceTransactionId = false →
      k.sourceTransactionId = t ∨ k.depositId = t → s'.Whole sys k)
    (hcredit : s'.isCredit t = true → s'.store.books.status t = some .posted →
      (Places 4 (s'.totals t) ∧ s'.totals t < 10 ^ 15) ∧
        s'.refunded t none + s'.applied t ≤ s'.totals t) : s'.Sound sys := by
  refine ⟨h.edits.rows, hs.clearing.of_accounts h.edits.accounts, fun k hk => ?_, fun k hk => ?_,
    fun k hk hi => ?_, ?_, ⟨fun a ha => ?_, fun x hx hp => ?_, fun x hx hp => ?_⟩⟩
  · obtain ⟨hknown, hrest⟩ := hs.links k (h.links.subset hk)
    exact ⟨h.known hknown, hrest⟩
  · have hk := h.live.subset hk
    rw [h.txnType (hs.links k (mem_live.mp hk).1).1]
    exact hs.deposits k hk
  · have hold := h.live.subset hk
    rw [h.isCredit_source hs hold] at hi
    by_cases ht : k.sourceTransactionId = t ∨ k.depositId = t
    · exact hitem k hk hi ht
    · rw [not_or] at ht
      exact h.whole_of_ne hs hold hi ht.1 ht.2
  · refine (hs.once.sublist h.live).imp_of_mem fun hk _ hne hi => hne ?_
    rwa [h.isCredit_source hs (h.live.subset hk)] at hi
  · rw [h.applications] at ha
    obtain ⟨hknown, hrest⟩ := hs.credits.applications a ha
    exact ⟨h.known hknown, hrest⟩
  · by_cases hxt : x = t
    · subst hxt
      exact (hcredit hx hp).1
    · rw [h.totals x hxt]
      exact hs.credits.totals x (h.isCredit hxt ▸ hx) (h.status hxt ▸ hp)
  · by_cases hxt : x = t
    · subst hxt
      exact (hcredit hx hp).2
    · have hwithin := hs.credits.within x (h.isCredit hxt ▸ hx) (h.status hxt ▸ hp)
      have hrefunded := h.refunded_le hs x
      rw [h.totals x hxt, h.applied_eq]
      linarith

/-- A vendor credit with its total and its status as they were. -/
theorem credit_kept (h : Touches sys t s s') (hs : s.Sound sys) (hknown : s.store.books.txns t ≠ none)
    (htotal : s'.totals t = s.totals t)
    (hstatus : s'.store.books.status t = some .posted → s.store.books.status t = some .posted)
    (hc : s'.isCredit t = true) (hp : s'.store.books.status t = some .posted) :
    (Places 4 (s'.totals t) ∧ s'.totals t < 10 ^ 15) ∧ s'.refunded t none + s'.applied t ≤ s'.totals t := by
  have hc : s.isCredit t = true := by
    have htype := h.txnType hknown
    obtain ⟨txn, htxn⟩ := Option.ne_none_iff_exists'.mp hknown
    obtain ⟨txn', htxn'⟩ := Option.ne_none_iff_exists'.mp (h.known hknown)
    simp only [htxn, htxn', Option.map_some, Option.some.injEq] at htype
    simpa [DepositBooks.isCredit, htxn, htxn', htype] using hc
  rw [htotal]
  exact ⟨hs.credits.totals t hc (hstatus hp), (add_le_add (h.refunded_le hs t) (h.applied_eq t).le).trans
    (hs.credits.within t hc (hstatus hp))⟩

end Touches

end Invariant

end Deposits

end MyBooks
