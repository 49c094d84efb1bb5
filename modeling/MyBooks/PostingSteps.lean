import MyBooks.Store

/-!
# What the operations do

One lemma for each ledger operation that says what it leaves when it is accepted. Every ledger
operation leaves the reconciliations as they are, and every reconciliation operation the books.
-/

namespace MyBooks

theorem refuse_ok {r : Refusal} {u : Unit} : refuse r = .ok u ↔ r = none := by
  cases r with
  | none => simp [refuse]
  | some code => simp [refuse]

theorem onLedger_ok {α : Type} {x : Except LedgerError α} {a : α} :
    onLedger x = .ok a ↔ x = .ok a := by
  cases x with
  | error e => simp [onLedger, Except.mapError]
  | ok a' => simp [onLedger, Except.mapError]

theorem onRecs_ok {s s' : Store} {x : Except RecError Recs} :
    s.onRecs x = .ok s' ↔ ∃ r, x = .ok r ∧ s' = { s with recs := r } := by
  cases x with
  | error e => simp [Store.onRecs]
  | ok r => simp [Store.onRecs, eq_comm]

/-- The books with the new document on them. -/
def PostInput.booked (input : PostInput) (b : Books) (t : Id) : Books :=
  (b.setTxn t ⟨input.txnType, input.status.getD .posted, input.txnDate, input.contactId⟩).addLines
    (input.lines.map (LineInput.stored t))

theorem postTransaction_ok {s s' : Store} {t : Id} {input : PostInput} {refusal : Refusal}
    {costing : Option Costing} (h : postTransaction s t input refusal costing = .ok s') :
    s.books.txns t = none ∧ s.books.insertable (input.lines.map (LineInput.stored t)) = true ∧
      ∃ b, s' = { s with books := b } ∧
        if input.status.getD .posted = .posted then
          costed ((input.booked s.books t).post (input.lines.map LineInput.entry)) costing = .ok b
        else b = input.booked s.books t := by
  simp only [postTransaction, bind_eq_ok, ite_error_eq_ok, refuse_ok] at h
  obtain ⟨_, -, -, -, -, hkeys, h⟩ := h
  rw [not_or, not_not] at hkeys
  obtain ⟨htxn, hkeys⟩ := hkeys
  refine ⟨by simpa using htxn, by simpa using hkeys, ?_⟩
  split_ifs at h ⊢ with hs
  · obtain ⟨b, hb, h⟩ := bind_eq_ok.mp h
    exact ⟨b, (pure_eq_ok.mp h).symm, hb⟩
  · exact ⟨_, (pure_eq_ok.mp h).symm, rfl⟩

theorem voidTransaction_ok {s s' : Store} {t : Id} {ids : List Id} {refusal : Refusal}
    {costing : Option Costing} (h : voidTransaction s t ids refusal costing = .ok s') :
    ∃ txn, s.books.txns t = some txn ∧ txn.status ≠ .deleted ∧ txn.status ≠ .void ∧
      s.reconciled t = false ∧
      s.books.insertable (reversals t (s.books.voidedLines t txn) ids) = true ∧
      ∃ b, s' = { s with books := b } ∧
        let voided := (s.books.setStatus t .void).addLines
          (reversals t (s.books.voidedLines t txn) ids)
        if txn.txnType = .billPayment then
          b = (s.books.voidedLines t txn).foldl (fun b l => b.post [l.reversed]) voided
        else
          costed (voided.post ((s.books.voidedLines t txn).map JournalLine.reversed)) costing =
            .ok b := by
  unfold voidTransaction at h
  rcases htxn : s.books.txns t with _ | txn
  · simp [htxn] at h
  simp only [htxn, ite_error_eq_ok, bind_eq_ok, refuse_ok, not_or, not_not] at h
  obtain ⟨hd, hv, -, -, hrec, ⟨-, hkeys⟩, h⟩ := h
  refine ⟨txn, rfl, hd, hv, by simpa using hrec, hkeys, ?_⟩
  dsimp only
  split_ifs at h ⊢ with hs
  · exact ⟨_, (pure_eq_ok.mp h).symm, rfl⟩
  · obtain ⟨b, hb, h⟩ := bind_eq_ok.mp h
    exact ⟨b, (pure_eq_ok.mp h).symm, hb⟩

/-- The lines a delete reverses. -/
def Books.deletedLines (b : Books) (t : Id) (txn : Txn) : List JournalLine :=
  if txn.status = .posted then b.linesOf t else []

theorem deleteTransaction_ok {s s' : Store} {t : Id} {ids : List Id} {refusal : Refusal}
    {costing : Option Costing} (h : deleteTransaction s t ids refusal costing = .ok s') :
    ∃ txn, s.books.txns t = some txn ∧ txn.status ≠ .deleted ∧ s.reconciled t = false ∧
      s.books.insertable (reversals t (s.books.deletedLines t txn) ids) = true ∧
      ∃ b, s' = { s with books := b } ∧
        costed (((s.books.setStatus t .deleted).addLines
          (reversals t (s.books.deletedLines t txn) ids)).post
            ((s.books.deletedLines t txn).map JournalLine.reversed)) costing = .ok b := by
  unfold deleteTransaction at h
  rcases htxn : s.books.txns t with _ | txn
  · simp [htxn] at h
  simp only [htxn, ite_error_eq_ok, bind_eq_ok, refuse_ok, not_or, not_not] at h
  obtain ⟨hd, -, -, -, -, hrec, ⟨-, hkeys⟩, b, hb, h⟩ := h
  exact ⟨txn, rfl, hd, by simpa using hrec, hkeys, b, (pure_eq_ok.mp h).symm, hb⟩

theorem updateTransaction_ok {s s' : Store} {t : Id} {input : PostInput} {ap : Bool}
    {refusal : Refusal} {costing : Option Costing}
    (h : updateTransaction s t input ap refusal costing = .ok s') :
    ∃ txn, s.books.txns t = some txn ∧ txn.status ≠ .deleted ∧ txn.status ≠ .void ∧
      if s.reconciled t then updateReconciled s t txn input = .ok s'
      else updateFull s t txn input costing = .ok s' := by
  simp only [updateTransaction, bind_eq_ok] at h
  obtain ⟨_, -, h⟩ := h
  rcases htxn : s.books.txns t with _ | txn
  · simp [htxn] at h
  simp only [htxn, ite_error_eq_ok, bind_eq_ok, refuse_ok] at h
  obtain ⟨hd, hv, -, -, -, -, h⟩ := h
  refine ⟨txn, rfl, hd, hv, ?_⟩
  split_ifs at h ⊢ with hs hc
  · exact h
  · exact h

/-- The books after the partial edit that keeps `kept` and books `new`. -/
def Books.reconciledEdit (b : Books) (t : Id) (txn : Txn) (contact : Option Id)
    (kept : List (JournalLine × LineInput)) (new : List LineInput) : Books :=
  let b' := b.post ((b.replacedLines t).map JournalLine.reversed)
  ((b'.editLines t kept ((b.replacedLines t).map JournalLine.id) new).post
    (new.map LineInput.entry)).setTxn t { txn with contactId := contact }

theorem updateReconciled_ok {s s' : Store} {t : Id} {txn : Txn} {input : PostInput}
    (h : updateReconciled s t txn input = .ok s') :
    ∃ kept new, partialEdit s.books t txn.txnDate input = some (kept, new) ∧
      s.books.insertable (new.map (LineInput.stored t)) = true ∧
      s' = { s with books := s.books.reconciledEdit t txn input.contactId kept new } := by
  unfold updateReconciled at h
  rcases hp : partialEdit s.books t txn.txnDate input with _ | ⟨kept, new⟩
  · simp [hp] at h
  simp only [hp, ite_error_eq_ok, not_not] at h
  obtain ⟨hkeys, h⟩ := h
  exact ⟨kept, new, rfl, hkeys, (Except.ok.inj h).symm⟩

/-- The books with the document's lines replaced, before the new balances. -/
def Books.rewritten (b : Books) (t : Id) (txn : Txn) (input : PostInput) : Books :=
  let b := if txn.status = .posted then b.post ((b.linesOf t).map JournalLine.reversed) else b
  ((b.dropLines t).setTxn t { txn with txnDate := input.txnDate, contactId := input.contactId }).addLines
    (input.lines.map (LineInput.stored t))

theorem updateFull_ok {s s' : Store} {t : Id} {txn : Txn} {input : PostInput}
    {costing : Option Costing} (h : updateFull s t txn input costing = .ok s') :
    s.books.insertable (input.lines.map (LineInput.stored t)) = true ∧
      ∃ b, s' = { s with books := b } ∧
        if txn.status = .posted then
          costed ((s.books.rewritten t txn input).post (input.lines.map LineInput.entry)) costing =
            .ok b
        else b = s.books.rewritten t txn input := by
  simp only [updateFull, ite_error_eq_ok, not_not] at h
  obtain ⟨hkeys, h⟩ := h
  refine ⟨hkeys, ?_⟩
  unfold Books.rewritten
  split_ifs at h ⊢ with hs
  · obtain ⟨b, hb, h⟩ := bind_eq_ok.mp h
    exact ⟨b, (pure_eq_ok.mp h).symm, hb⟩
  · exact ⟨_, (pure_eq_ok.mp h).symm, rfl⟩

theorem bulkUpdateTransactions_ok {s s' : Store} {input : BulkInput} {facts : BulkFacts}
    {refusal : Refusal}
    (h : (bulkUpdateTransactions s input facts refusal).map (·.1) = .ok s') :
    ∃ b r, s' = { s with books := b } ∧
      bulkAll s.recs input facts s.books input.txnIds = .ok (b, r) := by
  obtain ⟨⟨s₁, r₁⟩, hb, rfl⟩ := map_eq_ok.mp h
  simp only [bulkUpdateTransactions, bind_eq_ok, ite_error_eq_ok, pure_eq_ok] at hb
  obtain ⟨_, -, -, -, ⟨b, r⟩, hall, heq⟩ := hb
  exact ⟨b, r, (congrArg Prod.fst heq).symm, hall⟩

def Op.isLedger : Op → Bool
  | .post .. | .update .. | .void .. | .delete .. | .bulk .. => true
  | _ => false

/-- Ledger operations leave the reconciliations as they are. -/
theorem step_recs {s s' : Store} {op : Op} (hop : op.isLedger = true) (h : step s op = .ok s') :
    s'.recs = s.recs := by
  cases op <;> try cases hop
  case post t input refusal costing =>
    obtain ⟨-, -, b, rfl, -⟩ := postTransaction_ok (onLedger_ok.mp h)
    rfl
  case update t input ap refusal costing =>
    obtain ⟨txn, -, -, -, h⟩ := updateTransaction_ok (onLedger_ok.mp h)
    split_ifs at h with hrec
    · obtain ⟨kept, new, -, -, rfl⟩ := updateReconciled_ok h
      rfl
    · obtain ⟨-, b, rfl, -⟩ := updateFull_ok h
      rfl
  case void t ids refusal costing =>
    obtain ⟨txn, -, -, -, -, -, b, rfl, -⟩ := voidTransaction_ok (onLedger_ok.mp h)
    rfl
  case delete t ids refusal costing =>
    obtain ⟨txn, -, -, -, -, b, rfl, -⟩ := deleteTransaction_ok (onLedger_ok.mp h)
    rfl
  case bulk input facts refusal =>
    obtain ⟨b, r, rfl, -⟩ := bulkUpdateTransactions_ok (onLedger_ok.mp h)
    rfl

/-- Reconciliation operations leave the books as they are. -/
theorem step_books {s s' : Store} {op : Op} (hop : op.isLedger = false) (h : step s op = .ok s') :
    s'.books = s.books := by
  cases op <;> try cases hop
  all_goals
    obtain ⟨r, -, rfl⟩ := onRecs_ok.mp h
    rfl

end MyBooks
