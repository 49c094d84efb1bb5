import MyBooks.Documents

/-!
# The lines the costing walk derives

A stock row gives its document up to three pairs of lines, each an amount on the part's asset
account and the same amount on the other side of a counter account (`desiredLines`).
`reconcileLines` compares what a row should have with the lines stored for it, and leaves them,
gives them new amounts in place, or replaces them. `apply` does so for the rows that a posting
touches; which rows these are, and their figures, the walk decides (`Walked`).
-/

namespace MyBooks

inductive DerivedLineRole where
  | cogs | inventoryRelief | costCorrection | costResidual
  deriving DecidableEq, Repr

/-- The role of a derived line and the stock row it comes from. -/
structure DerivedLink where
  movementId : Id
  role : DerivedLineRole
  deriving DecidableEq, Repr

abbrev Links := IdMap DerivedLink

/-- A stock row as its derived lines are read off it. -/
structure StockRow where
  id : Id
  transactionId : Id
  valueMode : ValueMode
  value : Dec
  correction : Dec
  residual : Dec
  voided : Bool
  deriving DecidableEq, Repr

structure PartRow where
  assetAccountId : Id
  cogsAccountId : Id
  deriving DecidableEq, Repr

structure LineSpec where
  role : DerivedLineRole
  accountId : Id
  debit : Dec
  credit : Dec
  deriving DecidableEq, Repr

section Desired

/-- An effect on the asset account with its counter line. A stored counter keeps its account. -/
def pair (asset : Id) (existingCounter : DerivedLineRole → Option Id)
    (role counterRole : DerivedLineRole) (effect : Dec) (counter : Id) : List LineSpec :=
  let amt := round4 |effect|
  let acct := (existingCounter counterRole).getD counter
  if effect = 0 then []
  else if 0 < effect then [⟨role, asset, amt, 0⟩, ⟨counterRole, acct, 0, amt⟩]
  else [⟨role, asset, 0, amt⟩, ⟨counterRole, acct, amt, 0⟩]

/-- Desired derived lines of a stock row. -/
def desiredLines (m : StockRow) (part : PartRow) (counterAccountId : Id)
    (existingCounter : DerivedLineRole → Option Id) : List LineSpec :=
  let pair := pair part.assetAccountId existingCounter
  let counter := if counterAccountId = "" then part.cogsAccountId else counterAccountId
  (if m.valueMode ≠ .given then pair .inventoryRelief .cogs m.value counter else []) ++
    pair .costCorrection .costCorrection m.correction part.cogsAccountId ++
    pair .costResidual .costResidual m.residual part.cogsAccountId

/-- Whether the spec has the role. -/
def LineSpec.hasRole (r : DerivedLineRole) (x : LineSpec) : Bool := x.role = r

def LineSpec.net (x : LineSpec) : Dec := x.debit - x.credit

section Spec

variable {asset counter : Id} {existingCounter : DerivedLineRole → Option Id}
  {role counterRole : DerivedLineRole} {effect : Dec} {m : StockRow} {part : PartRow}

theorem pair_net : ((pair asset existingCounter role counterRole effect counter).map
    LineSpec.net).sum = 0 := by
  unfold pair
  split_ifs <;> simp [LineSpec.net]

theorem pair_places : ∀ x ∈ pair asset existingCounter role counterRole effect counter,
    Places 4 x.debit ∧ Places 4 x.credit := by
  intro x hx
  unfold pair at hx
  split_ifs at hx <;> simp only [List.mem_cons, List.not_mem_nil, or_false] at hx
  all_goals
    rcases hx with rfl | rfl
    · simp [round4, places_toPlaces]
    · simp [round4, places_toPlaces]

/-- A pair has two lines of its role, or none. -/
theorem pair_countP (r : DerivedLineRole) :
    (pair asset existingCounter role role effect counter).countP (LineSpec.hasRole r) = 0 ∨
      (pair asset existingCounter role role effect counter).countP (LineSpec.hasRole r) = 2 := by
  unfold pair
  by_cases hr : role = r
  · split_ifs <;> simp [LineSpec.hasRole, hr]
  · split_ifs <;> simp [LineSpec.hasRole, hr]

theorem pair_countP_ne {r : DerivedLineRole} (hr : role ≠ r) (hc : counterRole ≠ r) :
    (pair asset existingCounter role counterRole effect counter).countP (LineSpec.hasRole r) = 0 := by
  unfold pair
  split_ifs <;> simp [LineSpec.hasRole, hr, hc]

theorem desiredLines_net :
    ((desiredLines m part counter existingCounter).map LineSpec.net).sum = 0 := by
  simp only [desiredLines, List.map_append, List.sum_append, pair_net]
  split_ifs <;> simp [pair_net]

theorem desiredLines_places : ∀ x ∈ desiredLines m part counter existingCounter,
    Places 4 x.debit ∧ Places 4 x.credit := by
  intro x hx
  simp only [desiredLines, List.mem_append] at hx
  rcases hx with (hx | hx) | hx
  · by_cases hv : m.valueMode = .given
    · simp [hv] at hx
    · rw [if_pos hv] at hx
      exact pair_places x hx
  · exact pair_places x hx
  · exact pair_places x hx

/-- Corrections and residuals come in two lines each, or not at all. -/
theorem desiredLines_countP {r : DerivedLineRole} (hr : r = .costCorrection ∨ r = .costResidual) :
    (desiredLines m part counter existingCounter).countP (LineSpec.hasRole r) = 0 ∨
      (desiredLines m part counter existingCounter).countP (LineSpec.hasRole r) = 2 := by
  have hrelief : ∀ c, (if m.valueMode ≠ .given then
      pair part.assetAccountId existingCounter .inventoryRelief .cogs m.value c
      else []).countP (LineSpec.hasRole r) = 0 := by
    intro c
    split_ifs
    · exact pair_countP_ne (by rcases hr with rfl | rfl <;> simp) (by rcases hr with rfl | rfl <;> simp)
    · rfl
  rcases hr with rfl | rfl
  · rw [desiredLines, List.countP_append, List.countP_append, hrelief, zero_add,
      pair_countP_ne (show DerivedLineRole.costResidual ≠ .costCorrection by simp) (by simp), add_zero]
    exact pair_countP _
  · rw [desiredLines, List.countP_append, List.countP_append, hrelief, zero_add,
      pair_countP_ne (show DerivedLineRole.costCorrection ≠ .costResidual by simp) (by simp), zero_add]
    exact pair_countP _

end Spec

end Desired

section Reconcile

/-- What the walk leaves, and what `apply` reads beside the ledger. -/
structure Walked where
  /-- The document's own rows, as its lines now say. -/
  own : List StockRow
  /-- The value, correction and residual of the other rows that the walk rewrote. -/
  figures : Id → Option (Dec × Dec × Dec)
  /-- The rows whose lines are reconciled. -/
  changed : List Id
  /-- By row: its part, and the account and tag of its item's line. -/
  part : Id → PartRow
  itemLine : Id → Option (Id × Option Id)
  /-- The ids that the new lines of a row get. -/
  newId : Id → ℕ → Id

/-- The row's derived lines on its document, reversals aside. -/
def existingLines (b : Books) (links : Links) (m : StockRow) : List JournalLine :=
  (b.linesOf m.transactionId).filter fun l =>
    l.derived ∧ ¬l.isVoidReversal ∧ (links l.id).map (·.movementId) = some m.id

abbrev LineKey := Option DerivedLineRole × Id × Dec × Dec

def lineKey (links : Links) (l : JournalLine) : LineKey :=
  ((links l.id).map (·.role), l.accountId, l.debit, l.credit)

def LineSpec.key (x : LineSpec) : LineKey := (some x.role, x.accountId, x.debit, x.credit)

/-- A line's role and account. -/
def LineKey.slot (k : LineKey) : Option DerivedLineRole × Id := (k.1, k.2.1)

def Books.isAdjustment (b : Books) (t : Id) : Bool :=
  (b.txns t).any fun txn => txn.txnType = .inventoryAdjustment

/-- The lines the row should have now. -/
def wantedLines (b : Books) (links : Links) (w : Walked) (m : StockRow) : List LineSpec :=
  let part := w.part m.id
  let existing := existingLines b links m
  let counter :=
    match w.itemLine m.id with
    | some (a, _) =>
      if b.isAdjustment m.transactionId ∧ a ≠ part.assetAccountId then a else part.cogsAccountId
    | none => part.cogsAccountId
  let existingCounter (role : DerivedLineRole) : Option Id :=
    (existing.reverse.find? fun l =>
      (links l.id).map (·.role) = some role ∧ l.accountId ≠ part.assetAccountId).map (·.accountId)
  desiredLines m part counter existingCounter

def newLine (w : Walked) (m : StockRow) (x : LineSpec) (i : ℕ) : JournalLine where
  id := w.newId m.id i
  transactionId := m.transactionId
  accountId := x.accountId
  debit := x.debit
  credit := x.credit
  tagId := (w.itemLine m.id).bind (·.2)
  derived := true
  isVoidReversal := false
  billed := false

/-- The stored line in the wanted line's slot with its new amounts, where they differ. -/
def newAmounts (links : Links) (existing : List JournalLine) (x : LineSpec) :
    Option (Id × Dec × Dec) :=
  (existing.find? fun l => (lineKey links l).slot = x.key.slot).bind fun l =>
    if lineKey links l = x.key then none else some (l.id, x.debit, x.credit)

/-- Same roles on the same accounts, one line each. -/
def InPlace (links : Links) (existing : List JournalLine) (want : List LineSpec) : Prop :=
  (existing.map fun l => (lineKey links l).slot).Nodup ∧ want.length = existing.length ∧
    ∀ x ∈ want, x.key.slot ∈ existing.map fun l => (lineKey links l).slot

instance (links : Links) (existing : List JournalLine) (want : List LineSpec) :
    Decidable (InPlace links existing want) :=
  inferInstanceAs (Decidable (_ ∧ _ ∧ _))

/-- The rewrite of one row's lines. -/
structure Rewrite where
  delete : List Id
  update : List (Id × Dec × Dec)
  insert : List (JournalLine × DerivedLink)

def reconcileOne (b : Books) (links : Links) (w : Walked) (m : StockRow) : Rewrite :=
  let existing := existingLines b links m
  let want := wantedLines b links w m
  if (existing.map (lineKey links)).Perm (want.map LineSpec.key) then ⟨[], [], []⟩
  else if InPlace links existing want then ⟨[], want.filterMap (newAmounts links existing), []⟩
  else ⟨existing.map (·.id), [], want.mapIdx fun i x => (newLine w m x i, ⟨m.id, x.role⟩)⟩

/-- The new lines of the rows with their links. -/
def insertedLines (b : Books) (links : Links) (w : Walked) (live : List StockRow) :
    List (JournalLine × DerivedLink) :=
  live.flatMap fun m => (reconcileOne b links w m).insert

/-- The rewrites of `live` rows, all read off the lines as they stand. -/
def reconcileLines (b : Books) (links : Links) (w : Walked) (live : List StockRow) : Costing where
  delete := live.flatMap fun m => (reconcileOne b links w m).delete
  update := live.flatMap fun m => (reconcileOne b links w m).update
  insert := (insertedLines b links w live).map (·.1)

/-- The links of the new lines, beside those there are. -/
def newLinks (b : Books) (links : Links) (w : Walked) (live : List StockRow) : Links := fun i =>
  match (insertedLines b links w live).find? fun p => p.1.id = i with
  | some p => some p.2
  | none => links i

end Reconcile

section Apply

/-- The stock rows with a document's own as its lines say, and the walk's figures on the others. A
document that is no longer posted keeps its rows, voided. -/
def stockRows (rows : List StockRow) (t : Id) (posted : Bool) (w : Walked) : List StockRow :=
  let others := (rows.filter (·.transactionId ≠ t)).map fun r =>
    match w.figures r.id with
    | some (value, correction, residual) =>
      { r with value := value, correction := correction, residual := residual }
    | none => r
  others ++
    if posted then w.own.map fun r => { r with transactionId := t, voided := false }
    else (rows.filter (·.transactionId = t)).map fun r => { r with voided := true }

/-- The rows whose derived lines are reconciled: live, of posted documents. -/
def liveRows (b : Books) (w : Walked) (rows : List StockRow) : List StockRow :=
  rows.filter fun r => r.id ∈ w.changed ∧ ¬r.voided ∧ b.isPosted r.transactionId

/-- The ledger with the stock rows and the links of the derived lines to them. -/
structure Stocked where
  store : Store
  rows : List StockRow
  links : Links

/-- What `apply` makes of the document `t` once its own lines are on the books `b`. -/
structure Costed where
  rows : List StockRow
  links : Links
  costing : Costing

def apply (s : Stocked) (b : Books) (t : Id) (w : Walked) : Except LedgerError Costed :=
  let rows := stockRows s.rows t (b.isPosted t) w
  let live := liveRows b w rows
  if (rows.map (·.id)).Nodup then
    .ok ⟨rows, newLinks b s.links w live, reconcileLines b s.links w live⟩
  else .error .storage

/-- `apply` under the costing lock, or nothing. -/
def applyLocked (s : Stocked) (b : Books) (t : Id) (lock : Bool) (w : Walked) :
    Except LedgerError (Option Costed) :=
  if lock then (apply s b t w).map some else .ok none

def Stocked.after (s : Stocked) (store : Store) : Option Costed → Stocked
  | none => { s with store := store }
  | some a => ⟨store, a.rows, a.links⟩

end Apply

section Operations

/-- A posting of the ledger with what its stock part reads; between them, the reconciliations. -/
inductive StockedOp where
  /-- `parts`: a line names an inventory part. -/
  | post (t : Id) (input : PostInput) (refusal : Refusal) (parts : Bool) (w : Walked)
  | update (t : Id) (input : PostInput) (apDocumentEdit : Bool) (refusal : Refusal) (parts : Bool)
      (w : Walked)
  | void (t : Id) (ids : List Id) (refusal : Refusal) (w : Walked)
  | delete (t : Id) (ids : List Id) (refusal : Refusal) (w : Walked)
  | reconciliation (op : Op)

/-- The document holds stock rows, live ones where `live`. -/
def Stocked.holdsStock (s : Stocked) (t : Id) (live : Bool) : Bool :=
  s.rows.any fun r => r.transactionId = t ∧ (live → ¬r.voided)

def stockedStep (s : Stocked) : StockedOp → Except OpError Stocked
  | .post t input refusal parts w => onLedger do
    let b := input.booked s.store.books t
    let a ← applyLocked s b t (parts ∧ b.isPosted t) w
    -- a costing lock on a draft still lets a document without amounts through
    let lock := if parts then some ((a.map (·.costing)).getD ⟨[], [], []⟩) else none
    let store ← postTransaction s.store t input refusal lock
    return s.after store a
  | .update t input ap refusal parts w => onLedger do
    let lock := parts ∨ s.holdsStock t false
    match s.store.books.txns t with
    | none => .error .notFound
    | some txn =>
      let b := s.store.books.rewritten t txn input
      let a ← applyLocked s b t (lock ∧ b.isPosted t ∧ s.store.reconciled t = false) w
      let costing := if lock then some ((a.map (·.costing)).getD ⟨[], [], []⟩) else none
      let store ← updateTransaction s.store t input ap refusal costing
      return s.after store a
  | .void t ids refusal w => onLedger do
    match s.store.books.txns t with
    | none => .error .notFound
    | some txn =>
      let b := s.store.books.reverseDocument t .void (s.store.books.voidedLines t txn) ids
      let a ← applyLocked s b t (s.holdsStock t true ∧ txn.txnType ≠ .billPayment) w
      let store ← voidTransaction s.store t ids refusal (a.map (·.costing))
      return s.after store a
  | .delete t ids refusal w => onLedger do
    match s.store.books.txns t with
    | none => .error .notFound
    | some txn =>
      let b := s.store.books.reverseDocument t .deleted (s.store.books.deletedLines t txn) ids
      let a ← applyLocked s b t (s.holdsStock t true) w
      let store ← deleteTransaction s.store t ids refusal (a.map (·.costing))
      return s.after store a
  | .reconciliation op =>
    if op.isLedger then .error (.ledger (.refused "VALIDATION_ERROR"))
    else (step s.store op).map fun store => { s with store := store }

end Operations

end MyBooks
