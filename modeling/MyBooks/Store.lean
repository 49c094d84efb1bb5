import MyBooks.Posting
import MyBooks.Units

/-!
# Runs of the ledger and its reconciliations

The operations of the ledger and of the reconciliations on one store. A run goes through units of
them, each of which commits or leaves the store as it was (`Units`).
-/

namespace MyBooks

inductive Op where
  | post (t : Id) (input : PostInput) (refusal : Refusal) (costing : Option Costing)
  | update (t : Id) (input : PostInput) (apDocumentEdit : Bool) (refusal : Refusal)
      (costing : Option Costing)
  | void (t : Id) (ids : List Id) (refusal : Refusal) (costing : Option Costing)
  | delete (t : Id) (ids : List Id) (refusal : Refusal) (costing : Option Costing)
  | bulk (input : BulkInput) (facts : BulkFacts) (refusal : Refusal)
  | start (input : StartInput)
  | refreshLines (recId : Id)
  | updateLines (recId : Id) (updates : List LineUpdate)
  | autoClearStatement (recId : Id)
  | complete (recId : Id)
  | undo (recId : Id) (latest : Option Id)
  | cancel (recId : Id)

inductive OpError where
  | ledger (e : LedgerError)
  | recs (e : RecError)
  deriving DecidableEq, Repr

/-- A ledger operation in the store. -/
def onLedger {α : Type} (x : Except LedgerError α) : Except OpError α := x.mapError .ledger

/-- A reconciliation operation in the store: the books stay. -/
def Store.onRecs (s : Store) (x : Except RecError Recs) : Except OpError Store :=
  match x with
  | .ok r => .ok { s with recs := r }
  | .error e => .error (.recs e)

def step (s : Store) : Op → Except OpError Store
  | .post t input refusal costing => onLedger (postTransaction s t input refusal costing)
  | .update t input ap refusal costing =>
    onLedger (updateTransaction s t input ap refusal costing)
  | .void t ids refusal costing => onLedger (voidTransaction s t ids refusal costing)
  | .delete t ids refusal costing => onLedger (deleteTransaction s t ids refusal costing)
  | .bulk input facts refusal =>
    onLedger ((bulkUpdateTransactions s input facts refusal).map (·.1))
  | .start input => s.onRecs (start s.books s.recs input)
  | .refreshLines recId => s.onRecs (refreshLines s.books s.recs recId)
  | .updateLines recId updates => s.onRecs (updateLines s.recs recId updates)
  | .autoClearStatement recId => s.onRecs (autoClearStatement s.books s.recs recId)
  | .complete recId => s.onRecs (complete s.books s.recs recId)
  | .undo recId latest => s.onRecs (undo s.recs recId latest)
  | .cancel recId => s.onRecs (cancel s.recs recId)

end MyBooks
