import Mathlib.Logic.Function.Basic
import MyBooks.Runs

/-!
# Idempotency keys

One key of one user, within its 24 hours, so no row of it has expired. Requests that carry it are
checked against its row, run their handlers, and settle what the handlers answer; the handlers'
database transactions claim the key. A step is one database statement, one database transaction's
end, or what the code does between two awaits. A database step waits (is not enabled) where
PostgreSQL would wait on an uncommitted insert of the same key.
-/

namespace MyBooks

namespace Idempotency

variable {η β : Type}

/-- The primary record a request created or changed. -/
structure Entity where
  type : String
  id : ℕ
  deriving DecidableEq

/-- A response body: what a handler or a route's reader made, the error handler's object without
its message, or the minimal body of a replay whose record is gone. -/
inductive Body (β : Type)
  | plain (b : β)
  | error (code : String) (details : Option (Option Entity))
  | committed (entity : Option Entity)
  deriving DecidableEq

structure Response (β : Type) where
  status : ℕ
  body : Body β
  deriving DecidableEq

def isSuccess (status : ℕ) : Bool := 200 ≤ status && status < 300

/-- A row id names the insert it comes from: a transaction's claim or a request's route bug. -/
inductive RowId
  | claim (t : ℕ)
  | bug (r : ℕ)
  deriving DecidableEq

inductive RowState
  | committed
  | done
  deriving DecidableEq

/-- A row of idempotency_keys. -/
structure Row (η β : Type) where
  id : RowId
  requestSha256 : η
  companyId : Option ℕ
  entity : Option Entity
  state : RowState
  successStatus : ℕ
  responseStatus : Option ℕ
  responseBody : Option (Body β)
  responseTruncated : Bool

/-- A request with the key: its hash, its company, and what its route passes to `idempotent`. -/
structure Request (η : Type) where
  requestHash : η
  companyId : Option ℕ
  successStatus : ℕ
  replay : Bool
  liveReplay : Bool

inductive IdemRouteBug
  | multiTx
  | savepoint
  deriving DecidableEq

structure IdemCtx where
  claimTx : Option ℕ
  rowId : Option RowId
  entity : Option Entity
  closed : Bool
  failed : Option IdemRouteBug

/-- Where a request stands. `settling` holds what its handler answered, `sending` and `answered`
what is sent, with the row it was replayed from. -/
inductive Phase (β : Type)
  | waiting
  | running
  | settling (res : Response β)
  | sending (res : Response β) (source : Option RowId)
  | answered (res : Response β) (source : Option RowId)
  | crashed

/-- How far the claims of a transaction have come. Claims on one transaction at the same time move
it on together. -/
inductive Claim (η β : Type)
  | none
  | checked
  | locked
  | cleared
  | inserted (row : Row η β)

inductive TxStatus
  | active
  | failed
  | committed
  | rolledBack
  deriving DecidableEq

/-- A database transaction of a request's handler. -/
structure Txn (η β : Type) where
  owner : ℕ
  status : TxStatus
  claim : Claim η β

/-- The committed row, the holder of the advisory lock, the transaction whose insert is not
committed yet, and the transactions and requests by number. -/
structure KeyState (η β : Type) where
  row : Option (Row η β)
  lock : Option ℕ
  pending : Option ℕ
  txs : ℕ → Option (Txn η β)
  ctx : ℕ → IdemCtx
  phase : ℕ → Phase β

def KeyState.fresh : KeyState η β where
  row := none
  lock := none
  pending := none
  txs _ := none
  ctx _ := ⟨none, none, none, false, none⟩
  phase _ := .waiting

def KeyState.setTx (s : KeyState η β) (t : ℕ) (x : Txn η β) : KeyState η β :=
  { s with txs := Function.update s.txs t (some x) }

def KeyState.setCtx (s : KeyState η β) (r : ℕ) (c : IdemCtx) : KeyState η β :=
  { s with ctx := Function.update s.ctx r c }

def KeyState.setPhase (s : KeyState η β) (r : ℕ) (p : Phase β) : KeyState η β :=
  { s with phase := Function.update s.phase r p }

theorem KeyState.setCtx_ctx (s : KeyState η β) (r : ℕ) (c : IdemCtx) :
    (s.setCtx r c).ctx = Function.update s.ctx r c := rfl

theorem KeyState.setPhase_phase (s : KeyState η β) (r : ℕ) (p : Phase β) :
    (s.setPhase r p).phase = Function.update s.phase r p := rfl

/-! ## Answers -/

/-- 422, with the stored record only for a request of the row's own company. -/
def keyReused (row : Row η β) (companyId : Option ℕ) : Response β :=
  ⟨422, .error "IDEMPOTENCY_KEY_REUSED" (if row.companyId = companyId then some row.entity else none)⟩

def routeBugError : IdemRouteBug → Response β
  | .multiTx => ⟨500, .error "IDEMPOTENCY_MULTI_TX" none⟩
  | .savepoint => ⟨500, .error "IDEMPOTENCY_SAVEPOINT" none⟩

/-- The stored form of a body. `stored` redacts and serializes what a handler made, and gives
nothing above the cap; an error object is a message, a code and details. -/
def storedResponse (stored : β → Option β) : Body β → Option (Body β)
  | .plain b => (stored b).map .plain
  | b => some b

/-- The status and body a replay of `row` sends. `reader` is what the route's reader finds. -/
def replayOf (req : Request η) (row : Row η β) (reader : Option β) : Response β :=
  let read := if req.replay then reader else none
  let minimal := ⟨200, .committed row.entity⟩
  match row.state, row.responseStatus, row.responseTruncated, row.responseBody with
  | .done, some status, false, some body =>
    match (if req.liveReplay && row.entity.isSome && isSuccess status then read else none) with
    | some b => ⟨status, .plain b⟩
    | none => ⟨status, body⟩
  | _, _, _, _ =>
    match read with
    | some b => ⟨row.successStatus, .plain b⟩
    | none => minimal

/-! ## Steps -/

section Steps

variable [DecidableEq η] (request : ℕ → Request η) (stored : β → Option β)

/-- The middleware's look-up before anything runs. -/
def preCheck (s : KeyState η β) (r : ℕ) (reader : Option β) : Option (KeyState η β) :=
  match s.phase r, s.row with
  | .waiting, some row =>
    if row.requestSha256 = (request r).requestHash then
      some (s.setPhase r (.sending (replayOf (request r) row reader) (some row.id)))
    else some (s.setPhase r (.sending (keyReused row (request r).companyId) none))
  | .waiting, none => some (s.setPhase r .running)
  | _, _ => none

/-- The handler opens a database transaction. -/
def begin (s : KeyState η β) (r t : ℕ) : Option (KeyState η β) :=
  match s.phase r, s.txs t with
  | .running, none => some (s.setTx t ⟨r, .active, .none⟩)
  | _, _ => none

/-- `claimIdempotency` up to its first await, on the transaction or on a savepoint in it. -/
def claimIdempotency (s : KeyState η β) (t : ℕ) (savepoint : Bool) : Option (KeyState η β) :=
  match s.txs t with
  | some ⟨r, .active, c⟩ =>
    let ctx := s.ctx r
    if ctx.closed then some s
    else if ctx.failed.isSome then some s
    else if ctx.claimTx = some t ∧ savepoint = false then some s
    else if ctx.claimTx.isSome then some (s.setCtx r { ctx with failed := some .multiTx })
    else if savepoint then some (s.setCtx r { ctx with failed := some .savepoint })
    else
      match c with
      | .none => some (s.setTx t ⟨r, .active, .checked⟩)
      | _ => some s
  | _ => none

/-- pg_try_advisory_xact_lock: refused while another transaction holds the lock. -/
def tryLock (s : KeyState η β) (t : ℕ) : Option (KeyState η β) :=
  match s.txs t with
  | some ⟨_, .active, .none⟩ => none
  | some ⟨r, .active, .checked⟩ =>
    if s.lock = none ∨ s.lock = some t then
      some ({ s with lock := some t }.setTx t ⟨r, .active, .locked⟩)
    else some s
  | some ⟨_, .active, _⟩ => some s
  | _ => none

/-- The look-up in the posting's transaction: a row refuses the claim, its hash decides how. -/
def lookUp (s : KeyState η β) (t : ℕ) : Option (KeyState η β) :=
  match s.txs t with
  | some ⟨r, .active, .locked⟩ =>
    match s.row with
    | some _ => some s
    | none => some (s.setTx t ⟨r, .active, .cleared⟩)
  | some ⟨_, .active, .cleared⟩ => some s
  | some ⟨_, .active, .inserted _⟩ => some s
  | _ => none

def claimRow (t : ℕ) (req : Request η) : Row η β where
  id := .claim t
  requestSha256 := req.requestHash
  companyId := req.companyId
  entity := none
  state := .committed
  successStatus := req.successStatus
  responseStatus := none
  responseBody := none
  responseTruncated := false

/-- The insert of the row. The unique index fails the transaction where the key has a row. -/
def insert (s : KeyState η β) (t : ℕ) : Option (KeyState η β) :=
  match s.txs t with
  | some ⟨r, .active, .cleared⟩ =>
    match s.pending, s.row with
    | some _, _ => none
    | none, some _ => some (s.setTx t ⟨r, .failed, .cleared⟩)
    | none, none =>
      some (({ s with pending := some t }.setTx t ⟨r, .active, .inserted (claimRow t (request r))⟩).setCtx
        r { s.ctx r with claimTx := some t, rowId := some (.claim t) })
  | some ⟨r, .active, .inserted row⟩ => some (s.setTx t ⟨r, .failed, .inserted row⟩)
  | _ => none

/-- `recordIdempotentEntity`: the first record wins. -/
def recordEntity (s : KeyState η β) (t : ℕ) (entity : Entity) : Option (KeyState η β) :=
  match s.txs t with
  | some ⟨r, .active, .inserted row⟩ =>
    let ctx := s.ctx r
    if ctx.closed || ctx.claimTx ≠ some t || ctx.rowId.isNone || ctx.entity.isSome then some s
    else some ((s.setTx t ⟨r, .active, .inserted { row with entity := some entity }⟩).setCtx
      r { ctx with entity := some entity })
  | some ⟨_, .active, _⟩ => some s
  | _ => none

/-- What a transaction held is released when it ends. -/
def KeyState.release (s : KeyState η β) (t : ℕ) : KeyState η β :=
  { s with
    lock := if s.lock = some t then none else s.lock
    pending := if s.pending = some t then none else s.pending }

def commit (s : KeyState η β) (t : ℕ) : Option (KeyState η β) :=
  match s.txs t with
  | some ⟨r, .active, .inserted row⟩ =>
    some ({ s.release t with row := some row }.setTx t ⟨r, .committed, .inserted row⟩)
  | some ⟨r, .active, c⟩ => some ((s.release t).setTx t ⟨r, .committed, c⟩)
  | some ⟨r, .failed, c⟩ => some ((s.release t).setTx t ⟨r, .rolledBack, c⟩)
  | _ => none

def rollback (s : KeyState η β) (t : ℕ) : Option (KeyState η β) :=
  match s.txs t with
  | some ⟨r, .active, c⟩ => some ((s.release t).setTx t ⟨r, .rolledBack, c⟩)
  | some ⟨r, .failed, c⟩ => some ((s.release t).setTx t ⟨r, .rolledBack, c⟩)
  | _ => none

/-- The handler answers through `res.json`, and claims stop. -/
def answer (s : KeyState η β) (r : ℕ) (res : Response β) : Option (KeyState η β) :=
  match s.phase r with
  | .running => some ((s.setCtx r { s.ctx r with closed := true }).setPhase r (.settling res))
  | _ => none

/-- `settleDone`: the row of the request is marked done, where it is. -/
def settleDone (s : KeyState η β) (id : RowId) (res : Response β) : KeyState η β :=
  { s with
    row := s.row.map fun row =>
      if row.id = id then
        { row with
          state := .done
          responseStatus := some res.status
          responseBody := storedResponse stored res.body
          responseTruncated := (storedResponse stored res.body).isNone }
      else row }

/-- `settleRouteBug`: an upsert that leaves a row of another request alone. -/
def settleRouteBug (s : KeyState η β) (r : ℕ) (res : Response β) : KeyState η β :=
  match s.row with
  | none =>
    { s with
      row := some
        { id := .bug r
          requestSha256 := (request r).requestHash
          companyId := (request r).companyId
          entity := none
          state := .done
          successStatus := (request r).successStatus
          responseStatus := some res.status
          responseBody := storedResponse stored res.body
          responseTruncated := false } }
  | some row =>
    if row.requestSha256 = (request r).requestHash then
      { s with
        row := some
          { row with
            state := .done
            responseStatus := some res.status
            responseBody := storedResponse stored res.body
            responseTruncated := false } }
    else s

/-- The settlement of what the handler answered. `ok` says whether its database statement runs. -/
def settle (s : KeyState η β) (r : ℕ) (ok : Bool) (reader : Option β) : Option (KeyState η β) :=
  match s.phase r with
  | .settling res =>
    match (s.ctx r).failed with
    | some bug =>
      let out := if isSuccess res.status then routeBugError bug else res
      if ok then
        if s.pending.isSome then none
        else some ((settleRouteBug request stored s r out).setPhase r (.sending out none))
      else some (s.setPhase r (.sending out none))
    | none =>
      if isSuccess res.status then
        match ok, (s.ctx r).rowId with
        | true, some id => some ((settleDone stored s id res).setPhase r (.sending res none))
        | _, _ => some (s.setPhase r (.sending res none))
      else
        match ok, s.row with
        | true, some row =>
          if row.requestSha256 = (request r).requestHash then
            some (s.setPhase r (.sending (replayOf (request r) row reader) (some row.id)))
          else some (s.setPhase r (.sending res none))
        | _, _ => some (s.setPhase r (.sending res none))
  | _ => none

def send (s : KeyState η β) (r : ℕ) : Option (KeyState η β) :=
  match s.phase r with
  | .sending res source => some (s.setPhase r (.answered res source))
  | _ => none

/-- The process dies: the request is never answered. Its transactions end as the database decides. -/
def crash (s : KeyState η β) (r : ℕ) : Option (KeyState η β) :=
  match s.phase r with
  | .answered _ _ => none
  | _ => some (s.setPhase r .crashed)

inductive KeyEvent (β : Type)
  | preCheck (r : ℕ) (reader : Option β)
  | begin (r t : ℕ)
  | claim (t : ℕ) (savepoint : Bool)
  | tryLock (t : ℕ)
  | lookUp (t : ℕ)
  | insert (t : ℕ)
  | record (t : ℕ) (entity : Entity)
  | commit (t : ℕ)
  | rollback (t : ℕ)
  | answer (r : ℕ) (res : Response β)
  | settle (r : ℕ) (ok : Bool) (reader : Option β)
  | send (r : ℕ)
  | crash (r : ℕ)

def keyStep (s : KeyState η β) : KeyEvent β → Option (KeyState η β)
  | .preCheck r reader => preCheck request s r reader
  | .begin r t => begin s r t
  | .claim t savepoint => claimIdempotency s t savepoint
  | .tryLock t => tryLock s t
  | .lookUp t => lookUp s t
  | .insert t => insert request s t
  | .record t entity => recordEntity s t entity
  | .commit t => commit s t
  | .rollback t => rollback s t
  | .answer r res => answer s r res
  | .settle r ok reader => settle request stored s r ok reader
  | .send r => send s r
  | .crash r => crash s r

end Steps

end Idempotency

end MyBooks
