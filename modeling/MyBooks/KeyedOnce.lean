import MyBooks.Idempotency

/-!
# A key posts at most once

The unique index lets one insert through at a time, and a row that is there lets none through. So
the transaction that commits with its claim is the one its row names, and the row keeps that name
and hash for the rest of the run. Where the handlers answer as covered routes do, whoever is
answered with success committed it or was sent its row, and a row that a route bug left holds an
error, whose replays are errors. What needs the handlers is stated under `kept`, so that one
invariant serves both kinds of runs.
-/

namespace MyBooks

namespace Idempotency

variable {η β : Type} (kept : Prop) (request : ℕ → Request η) (stored : β → Option β)

/-- A transaction of the request claimed the key and committed. -/
def Posted (s : KeyState η β) (r t : ℕ) : Prop :=
  ∃ row, s.txs t = some ⟨r, .committed, .inserted row⟩

/-- A done row whose response is an error that a replay sends as it is. -/
def StoresError (row : Row η β) : Prop :=
  row.state = .done ∧ row.responseTruncated = false ∧
    ∃ status body, row.responseStatus = some status ∧ row.responseBody = some body ∧
      isSuccess status = false

/-- The transaction that claimed the key has committed. -/
def claimCommitted (s : KeyState η β) (r : ℕ) : Bool :=
  (s.ctx r).claimTx.any fun t => (s.txs t).any fun x => x.status = .committed

/-- How a covered route answers: with success once the transaction that claimed the key has
committed, or past a route bug; and past a route bug with no error too long to store. -/
def covered (s : KeyState η β) : KeyEvent β → Bool
  | .answer r res =>
    if isSuccess res.status then (s.ctx r).failed.isSome || claimCommitted s r
    else (s.ctx r).failed.isNone || (storedResponse stored res.body).isSome
  | _ => true

/-- Where the row comes from: a committed claim, or a route bug whose error it stores. -/
def Origin (s : KeyState η β) (row : Row η β) : Prop :=
  match row.id with
  | .claim t => ∃ r, Posted s r t ∧ row.requestSha256 = (request r).requestHash
  | .bug r => row.requestSha256 = (request r).requestHash ∧ (kept → StoresError row)

/-- What is sent to a request: a success is its own posting's or the row's of a posting, and a
replayed row has the request's hash. -/
def Sent (s : KeyState η β) (r : ℕ) (res : Response β) : Option RowId → Prop
  | none => kept → isSuccess res.status = true → ∃ t, Posted s r t
  | some id =>
    (∃ row ∈ s.row, row.id = id ∧ row.requestSha256 = (request r).requestHash) ∧
      (kept → isSuccess res.status = true → ∃ t, id = .claim t)

def PhaseOk (s : KeyState η β) (r : ℕ) : Phase β → Prop
  | .settling res =>
    (s.ctx r).closed = true ∧
      (kept → isSuccess res.status = true → (s.ctx r).failed.isSome ∨ ∃ t, Posted s r t) ∧
      (kept → isSuccess res.status = false → (s.ctx r).failed.isSome →
        (storedResponse stored res.body).isSome)
  | .sending res source => Sent kept request s r res source
  | .answered res source => Sent kept request s r res source
  | _ => True

structure KeyInv (s : KeyState η β) : Prop where
  own : ∀ t x row, s.txs t = some x → x.claim = .inserted row →
    row.id = .claim t ∧ row.requestSha256 = (request x.owner).requestHash
  waits : ∀ t x row, s.txs t = some x → x.claim = .inserted row →
    x.status = .active ∨ x.status = .failed → s.pending = some t
  vacant : s.pending.isSome → s.row = none
  landed : ∀ r t, Posted s r t →
    ∃ row ∈ s.row, row.id = .claim t ∧ row.requestSha256 = (request r).requestHash
  origin : ∀ row ∈ s.row, Origin kept request s row
  claimTx : ∀ r t, (s.ctx r).claimTx = some t →
    ∃ x row, s.txs t = some x ∧ x.owner = r ∧ x.claim = .inserted row
  rowId : ∀ r id, (s.ctx r).rowId = some id → ∃ t, id = .claim t
  said : ∀ r, PhaseOk kept request stored s r (s.phase r)

theorem keyInv_fresh : KeyInv kept request stored (KeyState.fresh : KeyState η β) where
  own t x row h := by simp [KeyState.fresh] at h
  waits t x row h := by simp [KeyState.fresh] at h
  vacant h := rfl
  landed r t := by rintro ⟨row, h⟩; simp [KeyState.fresh] at h
  origin row h := by simp [KeyState.fresh] at h
  claimTx r t h := by simp [KeyState.fresh] at h
  rowId r id h := by simp [KeyState.fresh] at h
  said r := trivial

variable {kept request stored}

/-! ## What lasts -/

section Lasts

variable {s s' : KeyState η β}

/-- A route bug stays, and none is found past the answer. -/
structure CtxLasts (c c' : IdemCtx) : Prop where
  failed : c.failed.isSome → c'.failed.isSome
  closed : c.closed = true → c'.closed = true ∧ c'.failed = c.failed

theorem CtxLasts.refl (c : IdemCtx) : CtxLasts c c := ⟨fun h => h, fun h => ⟨h, rfl⟩⟩

/-- The postings, the row's name and hash, and the route bugs of `s` are there in `s'`. -/
structure Lasts (s s' : KeyState η β) : Prop where
  posted : ∀ r t, Posted s r t → Posted s' r t
  row : ∀ row ∈ s.row, ∃ row' ∈ s'.row, row'.id = row.id ∧ row'.requestSha256 = row.requestSha256
  ctx : ∀ r, CtxLasts (s.ctx r) (s'.ctx r)

theorem Sent.lasts (hl : Lasts s s') {r : ℕ} {res : Response β} {source : Option RowId}
    (h : Sent kept request s r res source) : Sent kept request s' r res source := by
  rcases source with _ | id
  · exact fun hk hs => (h hk hs).imp (hl.posted r)
  · obtain ⟨⟨row, hrow, hid, hsha⟩, hs⟩ := h
    obtain ⟨row', hrow', hid', hsha'⟩ := hl.row row hrow
    exact ⟨⟨row', hrow', hid'.trans hid, hsha'.trans hsha⟩, hs⟩

theorem PhaseOk.lasts (hl : Lasts s s') {r : ℕ} {p : Phase β} (h : PhaseOk kept request stored s r p) :
    PhaseOk kept request stored s' r p := by
  cases p with
  | settling res =>
    obtain ⟨hclosed, hsucc, hno⟩ := h
    obtain ⟨hclosed', hfailed⟩ := (hl.ctx r).closed hclosed
    refine ⟨hclosed', fun hk hs => ?_, fun hk hs hf => hno hk hs (hfailed ▸ hf)⟩
    exact (hsucc hk hs).imp (hl.ctx r).failed fun ht => ht.imp (hl.posted r)
  | sending res source => exact Sent.lasts hl h
  | answered res source => exact Sent.lasts hl h
  | waiting => trivial
  | running => trivial
  | crashed => trivial

theorem Origin.lasts (hl : Lasts s s') {row : Row η β} (h : Origin kept request s row) :
    Origin kept request s' row := by
  unfold Origin at h ⊢
  split at h
  · obtain ⟨r, hp, hsha⟩ := h
    exact ⟨r, hl.posted _ _ hp, hsha⟩
  · exact h

/-- A transaction that is not committed can be set to anything. -/
theorem Lasts.of_setTx {t : ℕ} {x : Txn η β} (hrow : ∀ row ∈ s.row, row ∈ s'.row)
    (hctx : s'.ctx = s.ctx) (htxs : s'.txs = Function.update s.txs t (some x))
    (hopen : ∀ x', s.txs t = some x' → x'.status ≠ .committed) : Lasts s s' where
  posted r u := by
    rintro ⟨row, hu⟩
    have hne : u ≠ t := by
      rintro rfl
      exact hopen _ hu rfl
    exact ⟨row, by rw [htxs, Function.update_of_ne hne, hu]⟩
  row row h := ⟨row, hrow row h, rfl, rfl⟩
  ctx r := hctx ▸ CtxLasts.refl _

theorem KeyInv.setPhase {s : KeyState η β} (h : KeyInv kept request stored s) {r : ℕ} {p : Phase β}
    (hp : PhaseOk kept request stored s r p) : KeyInv kept request stored (s.setPhase r p) where
  own := h.own
  waits := h.waits
  vacant := h.vacant
  landed := h.landed
  origin := h.origin
  claimTx := h.claimTx
  rowId := h.rowId
  said u := by
    have hl : Lasts s (s.setPhase r p) :=
      ⟨fun _ _ h => h, fun row h => ⟨row, h, rfl, rfl⟩, fun _ => CtxLasts.refl _⟩
    by_cases hu : u = r
    · subst hu
      rw [KeyState.setPhase_phase, Function.update_self]
      exact hp.lasts hl
    · rw [KeyState.setPhase_phase, Function.update_of_ne hu]
      exact (h.said u).lasts hl

/-- The context of a request moves on: it names an insert of its own, and keeps its route bug. -/
theorem KeyInv.setCtx {s : KeyState η β} (h : KeyInv kept request stored s) {r : ℕ} {c : IdemCtx}
    (hclaim : ∀ t, c.claimTx = some t →
      ∃ x row, s.txs t = some x ∧ x.owner = r ∧ x.claim = .inserted row)
    (hrow : ∀ id, c.rowId = some id → ∃ t, id = .claim t)
    (hlasts : CtxLasts (s.ctx r) c) : KeyInv kept request stored (s.setCtx r c) where
  own := h.own
  waits := h.waits
  vacant := h.vacant
  landed := h.landed
  origin := h.origin
  claimTx u t hu := by
    by_cases hur : u = r
    · subst hur
      rw [KeyState.setCtx_ctx, Function.update_self] at hu
      exact hclaim t hu
    · rw [KeyState.setCtx_ctx, Function.update_of_ne hur] at hu
      exact h.claimTx u t hu
  rowId u id hu := by
    by_cases hur : u = r
    · subst hur
      rw [KeyState.setCtx_ctx, Function.update_self] at hu
      exact hrow id hu
    · rw [KeyState.setCtx_ctx, Function.update_of_ne hur] at hu
      exact h.rowId u id hu
  said u := by
    have hl : Lasts s (s.setCtx r c) := by
      refine ⟨fun _ _ h => h, fun row h => ⟨row, h, rfl, rfl⟩, fun v => ?_⟩
      by_cases hvr : v = r
      · subst hvr
        rw [KeyState.setCtx_ctx, Function.update_self]
        exact hlasts
      · rw [KeyState.setCtx_ctx, Function.update_of_ne hvr]
        exact CtxLasts.refl _
    exact (h.said u).lasts hl

/-- A transaction that is not committed moves on without committing an insert. -/
theorem KeyInv.moveTx {s s' : KeyState η β} (h : KeyInv kept request stored s) {t : ℕ} {x' : Txn η β}
    (hrow : s'.row = s.row) (hctx : s'.ctx = s.ctx) (hphase : s'.phase = s.phase)
    (htxs : s'.txs = Function.update s.txs t (some x'))
    (hopen : ∀ x, s.txs t = some x → x.status ≠ .committed)
    (hown : ∀ row, x'.claim = .inserted row →
      row.id = .claim t ∧ row.requestSha256 = (request x'.owner).requestHash)
    (hwaits : ∀ row, x'.claim = .inserted row →
      (x'.status = .active ∨ x'.status = .failed → s'.pending = some t) ∧ x'.status ≠ .committed)
    (hothers : ∀ u, u ≠ t → s.pending = some u → s'.pending = some u)
    (hvacant : s'.pending.isSome → s.row = none)
    (hkeeps : ∀ x row, s.txs t = some x → x.claim = .inserted row →
      x'.owner = x.owner ∧ ∃ row', x'.claim = .inserted row') : KeyInv kept request stored s' := by
  have hl : Lasts s s' := Lasts.of_setTx (fun row hr => by rwa [hrow]) hctx htxs hopen
  have hself : s'.txs t = some x' := by rw [htxs, Function.update_self]
  have hother : ∀ {u}, u ≠ t → s'.txs u = s.txs u := fun hu => by
    rw [htxs, Function.update_of_ne hu]
  refine ⟨fun u x row hx hc => ?_, fun u x row hx hc hs => ?_, fun hp => by rw [hrow, hvacant hp],
    fun r u hu => ?_, fun row hr => ?_, fun r u hu => ?_, fun r id hid => ?_, fun r => ?_⟩
  · by_cases hu : u = t
    · subst hu
      obtain rfl := Option.some.inj (hself.symm.trans hx)
      exact hown row hc
    · exact h.own u x row ((hother hu) ▸ hx) hc
  · by_cases hu : u = t
    · subst hu
      obtain rfl := Option.some.inj (hself.symm.trans hx)
      exact (hwaits row hc).1 hs
    · exact hothers u hu (h.waits u x row ((hother hu) ▸ hx) hc hs)
  · obtain ⟨row, hrow'⟩ := hu
    by_cases hut : u = t
    · subst hut
      obtain rfl := Option.some.inj (hself.symm.trans hrow')
      exact absurd rfl (hwaits row rfl).2
    · rw [hrow]
      exact h.landed r u ⟨row, (hother hut) ▸ hrow'⟩
  · exact (h.origin row (hrow ▸ hr)).lasts hl
  · obtain ⟨x, row, hx, ho, hc⟩ := h.claimTx r u (hctx ▸ hu)
    by_cases hut : u = t
    · subst hut
      obtain ⟨ho', row', hc'⟩ := hkeeps x row hx hc
      exact ⟨x', row', hself, ho'.trans ho, hc'⟩
    · exact ⟨x, row, (hother hut).trans hx, ho, hc⟩
  · exact h.rowId r id (hctx ▸ hid)
  · rw [hphase]
    exact (h.said r).lasts hl

/-- The row changes in its response alone, or a route bug's row appears. -/
theorem KeyInv.setRow {s : KeyState η β} (h : KeyInv kept request stored s) {row : Row η β}
    (hsame : ∀ row' ∈ s.row, row.id = row'.id ∧ row.requestSha256 = row'.requestSha256)
    (hpending : s.pending = none)
    (horigin : Origin kept request s row) : KeyInv kept request stored { s with row := some row } := by
  have hl : Lasts s { s with row := some row } :=
    ⟨fun _ _ h => h, fun row' hr => ⟨row, rfl, hsame row' hr⟩, fun _ => CtxLasts.refl _⟩
  refine ⟨h.own, h.waits, fun hp => ?_, fun r t hp => ?_, fun row' hr => ?_, h.claimTx, h.rowId,
    fun r => (h.said r).lasts hl⟩
  · rw [show ({ s with row := some row } : KeyState η β).pending = none from hpending] at hp
    exact absurd hp Bool.false_ne_true
  · obtain ⟨row', hr, hid, hsha⟩ := h.landed r t hp
    exact ⟨row, rfl, (hsame row' hr).1.trans hid, (hsame row' hr).2.trans hsha⟩
  · obtain rfl := Option.some.inj hr
    exact horigin.lasts hl

/-- A transaction without an insert moves on to one without. -/
theorem KeyInv.moveBare {s s' : KeyState η β} (h : KeyInv kept request stored s) {t : ℕ} {x' : Txn η β}
    (hrow : s'.row = s.row) (hctx : s'.ctx = s.ctx) (hphase : s'.phase = s.phase)
    (htxs : s'.txs = Function.update s.txs t (some x'))
    (hpending : ∀ u, u ≠ t → s.pending = some u → s'.pending = some u)
    (hless : s'.pending.isSome → s.pending.isSome)
    (hbare : ∀ x, s.txs t = some x → x.status ≠ .committed ∧ ∀ row, x.claim ≠ .inserted row)
    (hbare' : ∀ row, x'.claim ≠ .inserted row) : KeyInv kept request stored s' :=
  h.moveTx hrow hctx hphase htxs (fun x hx => (hbare x hx).1)
    (fun row hc => absurd hc (hbare' row)) (fun row hc => absurd hc (hbare' row)) hpending
    (fun hp => h.vacant (hless hp)) fun x row hx hc => absurd hc ((hbare x hx).2 row)

end Lasts

/-! ## The steps -/

section Steps

variable {s s' : KeyState η β}

theorem begin_keeps (h : KeyInv kept request stored s) {r t : ℕ} (hs : begin s r t = some s') :
    KeyInv kept request stored s' := by
  unfold begin at hs
  split at hs
  · obtain rfl := Option.some.inj hs
    refine h.moveBare (t := t) rfl rfl rfl rfl (fun _ _ hp => hp) (fun hp => hp) (fun x hx => ?_)
      fun row => nofun
    simp_all
  · cases hs

theorem claimIdempotency_keeps (h : KeyInv kept request stored s) {t : ℕ} {savepoint : Bool}
    (hs : claimIdempotency s t savepoint = some s') : KeyInv kept request stored s' := by
  unfold claimIdempotency at hs
  split at hs
  case h_2 => cases hs
  case h_1 r c hx =>
    have hctx : ∀ bug, ¬(s.ctx r).closed = true →
        KeyInv kept request stored (s.setCtx r { s.ctx r with failed := some bug }) :=
      fun bug hopen => h.setCtx (h.claimTx r) (h.rowId r) ⟨fun _ => rfl, fun hc => absurd hc hopen⟩
    simp only [] at hs
    split_ifs at hs with hclosed
    · exact Option.some.inj hs ▸ h
    · exact Option.some.inj hs ▸ h
    · exact Option.some.inj hs ▸ h
    · exact Option.some.inj hs ▸ hctx _ hclosed
    · exact Option.some.inj hs ▸ hctx _ hclosed
    · cases c with
      | none =>
        obtain rfl := Option.some.inj hs
        refine h.moveBare (t := t) rfl rfl rfl rfl (fun _ _ hp => hp) (fun hp => hp) (fun x hx' => ?_)
          fun row => nofun
        obtain rfl := Option.some.inj (hx.symm.trans hx')
        exact ⟨nofun, nofun⟩
      | _ => exact Option.some.inj hs ▸ h

theorem tryLock_keeps (h : KeyInv kept request stored s) {t : ℕ} (hs : tryLock s t = some s') :
    KeyInv kept request stored s' := by
  unfold tryLock at hs
  split at hs
  case h_2 r hx =>
    split_ifs at hs
    · obtain rfl := Option.some.inj hs
      refine h.moveBare (t := t) rfl rfl rfl rfl (fun _ _ hp => hp) (fun hp => hp) (fun x hx' => ?_)
        fun row => nofun
      obtain rfl := Option.some.inj (hx.symm.trans hx')
      exact ⟨nofun, nofun⟩
    · exact Option.some.inj hs ▸ h
  case h_3 => exact Option.some.inj hs ▸ h
  all_goals cases hs

theorem lookUp_keeps (h : KeyInv kept request stored s) {t : ℕ} (hs : lookUp s t = some s') :
    KeyInv kept request stored s' := by
  unfold lookUp at hs
  split at hs
  case h_1 r hx =>
    split at hs
    · exact Option.some.inj hs ▸ h
    · obtain rfl := Option.some.inj hs
      refine h.moveBare (t := t) rfl rfl rfl rfl (fun _ _ hp => hp) (fun hp => hp) (fun x hx' => ?_)
        fun row => nofun
      obtain rfl := Option.some.inj (hx.symm.trans hx')
      exact ⟨nofun, nofun⟩
  case h_4 => cases hs
  all_goals exact Option.some.inj hs ▸ h

/-- The unique index lets the insert through where the key has neither a row nor a pending one. -/
theorem insert_keeps (h : KeyInv kept request stored s) {t : ℕ} (hs : insert request s t = some s') :
    KeyInv kept request stored s' := by
  unfold insert at hs
  split at hs
  case h_1 r hx =>
    have hbare : ∀ x, s.txs t = some x → x.status ≠ .committed ∧ ∀ row, x.claim ≠ .inserted row := by
      intro x hx'
      obtain rfl := Option.some.inj (hx.symm.trans hx')
      exact ⟨nofun, nofun⟩
    split at hs
    · cases hs
    · obtain rfl := Option.some.inj hs
      exact h.moveBare (t := t) rfl rfl rfl rfl (fun _ _ hp => hp) (fun hp => hp) hbare fun row => nofun
    · rename_i hp hrow
      obtain rfl := Option.some.inj hs
      refine KeyInv.setCtx ?_ (fun u hu => ?_) (fun id hid => ?_) ⟨fun hf => hf, fun hc => ⟨hc, rfl⟩⟩
      · refine h.moveTx (t := t) rfl rfl rfl rfl (fun x hx' => (hbare x hx').1) (fun row hc => ?_)
          (fun row hc => ⟨fun _ => rfl, nofun⟩) (fun u hu hpu => ?_) (fun _ => hrow)
          fun x row hx' hc => absurd hc ((hbare x hx').2 row)
        · obtain rfl := Claim.inserted.inj hc
          exact ⟨rfl, rfl⟩
        · exact absurd (hp.symm.trans hpu) nofun
      · obtain rfl := Option.some.inj hu
        exact ⟨_, _, Function.update_self .., rfl, rfl⟩
      · exact ⟨t, (Option.some.inj hid).symm⟩
  case h_2 r row hx =>
    have hown := h.own t _ row hx rfl
    obtain rfl := Option.some.inj hs
    refine h.moveTx (t := t) rfl rfl rfl rfl (fun x hx' => ?_) (fun row' hc => ?_)
      (fun row' hc => ⟨fun _ => h.waits t _ row hx rfl (.inl rfl), nofun⟩) (fun _ _ hp => hp)
      h.vacant fun x row' hx' hc => ?_
    · obtain rfl := Option.some.inj (hx.symm.trans hx')
      exact nofun
    · obtain rfl := Claim.inserted.inj hc
      exact hown
    · obtain rfl := Option.some.inj (hx.symm.trans hx')
      exact ⟨rfl, row, rfl⟩
  case h_3 => cases hs

theorem recordEntity_keeps (h : KeyInv kept request stored s) {t : ℕ} {entity : Entity}
    (hs : recordEntity s t entity = some s') : KeyInv kept request stored s' := by
  unfold recordEntity at hs
  split at hs
  case h_1 r row hx =>
    have hown := h.own t _ row hx rfl
    simp only [] at hs
    split_ifs at hs
    · exact Option.some.inj hs ▸ h
    · obtain rfl := Option.some.inj hs
      refine KeyInv.setCtx ?_ (fun u hu => ?_) (h.rowId r) ⟨fun hf => hf, fun hc => ⟨hc, rfl⟩⟩
      · refine h.moveTx (t := t) rfl rfl rfl rfl (fun x hx' => ?_) (fun row' hc => ?_)
          (fun row' hc => ⟨fun _ => h.waits t _ row hx rfl (.inl rfl), nofun⟩) (fun _ _ hp => hp)
          h.vacant fun x row' hx' hc => ?_
        · obtain rfl := Option.some.inj (hx.symm.trans hx')
          exact nofun
        · obtain rfl := Claim.inserted.inj hc
          exact hown
        · obtain rfl := Option.some.inj (hx.symm.trans hx')
          exact ⟨rfl, _, rfl⟩
      · obtain ⟨x, row', hx', ho, hc⟩ := h.claimTx r u hu
        by_cases hut : u = t
        · subst hut
          exact ⟨_, _, Function.update_self .., rfl, rfl⟩
        · exact ⟨x, row', (Function.update_of_ne hut ..).trans hx', ho, hc⟩
  case h_2 => exact Option.some.inj hs ▸ h
  case h_3 => cases hs

theorem release_pending {t u : ℕ} (hu : u ≠ t) (hp : s.pending = some u) :
    (s.release t).pending = some u := by
  have hne : ¬ s.pending = some t := fun h => hu (Option.some.inj (hp.symm.trans h))
  exact (if_neg hne).trans hp

theorem release_less {t : ℕ} (hp : (s.release t).pending.isSome) : s.pending.isSome := by
  unfold KeyState.release at hp
  simp only [] at hp
  split_ifs at hp
  · cases hp
  · exact hp

/-- A live transaction ends without committing an insert. -/
theorem KeyInv.endTx (h : KeyInv kept request stored s) {t r : ℕ} {st st' : TxStatus} {c : Claim η β}
    (hx : s.txs t = some ⟨r, st, c⟩) (hlive : st = .active ∨ st = .failed)
    (hend : st' = .rolledBack ∨ st' = .committed ∧ ∀ row, c ≠ .inserted row) :
    KeyInv kept request stored ((s.release t).setTx t ⟨r, st', c⟩) := by
  refine h.moveTx (t := t) rfl rfl rfl rfl (fun x hx' => ?_) (fun row hc => h.own t ⟨r, st, c⟩ row hx hc)
    (fun row hc => ⟨fun hl => ?_, ?_⟩) (fun u hu hp => release_pending hu hp)
    (fun hp => h.vacant (release_less hp)) fun x row hx' hc => ?_
  · obtain rfl := Option.some.inj (hx.symm.trans hx')
    rcases hlive with rfl | rfl <;> exact nofun
  · rcases hend with rfl | ⟨-, hbare⟩
    · rcases hl with hl | hl <;> cases hl
    · exact absurd hc (hbare row)
  · rcases hend with rfl | ⟨-, hbare⟩
    · exact nofun
    · exact absurd hc (hbare row)
  · obtain rfl := Option.some.inj (hx.symm.trans hx')
    exact ⟨rfl, row, hc⟩

/-- A commit makes the pending insert the key's row. -/
theorem KeyInv.commitTx (h : KeyInv kept request stored s) {t r : ℕ} {row : Row η β}
    (hx : s.txs t = some ⟨r, .active, .inserted row⟩) :
    KeyInv kept request stored ({ s.release t with row := some row }.setTx t ⟨r, .committed, .inserted row⟩) := by
  have hp : s.pending = some t := h.waits t _ row hx rfl (.inl rfl)
  have hvac : s.row = none := h.vacant (by rw [hp]; rfl)
  obtain ⟨hid, hsha⟩ := h.own t _ row hx rfl
  have hnone : ∀ u v, ¬ Posted s u v := fun u v hv => by
    obtain ⟨row', hr, -⟩ := h.landed u v hv
    rw [hvac] at hr
    cases hr
  set s' : KeyState η β :=
    { s.release t with row := some row }.setTx t ⟨r, .committed, .inserted row⟩ with hs'
  have hself : s'.txs t = some ⟨r, .committed, .inserted row⟩ := Function.update_self ..
  have hother : ∀ {u}, u ≠ t → s'.txs u = s.txs u := fun hu => Function.update_of_ne hu ..
  have hl : Lasts s s' := by
    refine ⟨fun u v hv => absurd hv (hnone u v), fun row' hr => ?_, fun _ => CtxLasts.refl _⟩
    rw [hvac] at hr
    cases hr
  have hpend : s'.pending = none := if_pos hp
  refine ⟨fun u x row' hu hc => ?_, fun u x row' hu hc hlive => ?_, fun hsome => ?_,
    fun u v hv => ?_, fun row' hr => ?_, fun u v huv => ?_, h.rowId, fun u => (h.said u).lasts hl⟩
  · by_cases hut : u = t
    · subst hut
      obtain rfl := Option.some.inj (hself.symm.trans hu)
      exact Claim.inserted.inj hc ▸ ⟨hid, hsha⟩
    · exact h.own u x row' ((hother hut) ▸ hu) hc
  · by_cases hut : u = t
    · subst hut
      obtain rfl := Option.some.inj (hself.symm.trans hu)
      rcases hlive with hl | hl <;> cases hl
    · have := h.waits u x row' ((hother hut) ▸ hu) hc hlive
      exact absurd (Option.some.inj (this.symm.trans hp)) hut
  · rw [hpend] at hsome
    cases hsome
  · obtain ⟨row', hv⟩ := hv
    by_cases hvt : v = t
    · subst hvt
      obtain ⟨rfl, -, -⟩ := Txn.mk.inj (Option.some.inj (hself.symm.trans hv))
      exact ⟨row, rfl, hid, hsha⟩
    · exact absurd ⟨row', (hother hvt) ▸ hv⟩ (hnone u v)
  · obtain rfl := Option.some.inj hr
    unfold Origin
    rw [hid]
    exact ⟨r, ⟨row, hself⟩, hsha⟩
  · obtain ⟨x, row', hx', ho, hc⟩ := h.claimTx u v huv
    by_cases hvt : v = t
    · subst hvt
      obtain rfl := Option.some.inj (hx.symm.trans hx')
      exact ⟨_, row, hself, ho, rfl⟩
    · exact ⟨x, row', (hother hvt).trans hx', ho, hc⟩

theorem commit_keeps (h : KeyInv kept request stored s) {t : ℕ} (hs : commit s t = some s') :
    KeyInv kept request stored s' := by
  unfold commit at hs
  split at hs
  case h_1 r row hx => exact Option.some.inj hs ▸ h.commitTx hx
  case h_2 r c hbare hx =>
    exact Option.some.inj hs ▸ h.endTx hx (.inl rfl) (.inr ⟨rfl, fun row hc => hbare row (hc ▸ rfl)⟩)
  case h_3 r c hx => exact Option.some.inj hs ▸ h.endTx hx (.inr rfl) (.inl rfl)
  case h_4 => cases hs

theorem rollback_keeps (h : KeyInv kept request stored s) {t : ℕ} (hs : rollback s t = some s') :
    KeyInv kept request stored s' := by
  unfold rollback at hs
  split at hs
  case h_1 r c hx => exact Option.some.inj hs ▸ h.endTx hx (.inl rfl) (.inl rfl)
  case h_2 r c hx => exact Option.some.inj hs ▸ h.endTx hx (.inr rfl) (.inl rfl)
  case h_3 => cases hs

/-- A replay of an error's row is that error. -/
theorem replayOf_error {req : Request η} {row : Row η β} {reader : Option β} (h : StoresError row) :
    isSuccess (replayOf req row reader).status = false := by
  obtain ⟨hstate, htrunc, status, body, hst, hbody, hno⟩ := h
  unfold replayOf
  simp only [hstate, htrunc, hst, hbody, hno]
  simpa using hno

/-- What a matching row is replayed as is sent from it. -/
theorem sent_replay (h : KeyInv kept request stored s) {row : Row η β} (hrow : s.row = some row) {r : ℕ}
    (hsha : row.requestSha256 = (request r).requestHash) {reader : Option β} :
    Sent kept request s r (replayOf (request r) row reader) (some row.id) := by
  refine ⟨⟨row, hrow, rfl, hsha⟩, fun hk hs => ?_⟩
  have ho := h.origin row hrow
  unfold Origin at ho
  split at ho
  · exact ⟨_, ‹row.id = _›⟩
  · rw [replayOf_error (ho.2 hk)] at hs
    cases hs

theorem preCheck_keeps (h : KeyInv kept request stored s) {r : ℕ} {reader : Option β} [DecidableEq η]
    (hs : preCheck request s r reader = some s') : KeyInv kept request stored s' := by
  unfold preCheck at hs
  split at hs
  case h_1 row _ hrow =>
    split_ifs at hs with hsha
    · exact Option.some.inj hs ▸ h.setPhase (sent_replay h hrow hsha)
    · exact Option.some.inj hs ▸ h.setPhase (p := .sending _ none) fun _ => nofun
  case h_2 => exact Option.some.inj hs ▸ h.setPhase (p := .running) trivial
  case h_3 => cases hs

theorem claimCommitted_posted (h : KeyInv kept request stored s) {r : ℕ}
    (hc : claimCommitted s r = true) : ∃ t, Posted s r t := by
  unfold claimCommitted at hc
  obtain ⟨t, ht, hany⟩ := (Option.any_eq_true _ _).mp hc
  obtain ⟨x, hx, hcom⟩ := (Option.any_eq_true _ _).mp hany
  obtain ⟨x', row, hx', ho, hins⟩ := h.claimTx r t ht
  obtain rfl := Option.some.inj (hx.symm.trans hx')
  obtain ⟨owner, status, claim⟩ := x
  obtain rfl : status = .committed := of_decide_eq_true hcom
  exact ⟨t, row, by rw [hx', ← ho, ← hins]⟩

/-- Answers of covered routes are all that what needs the handlers asks for. -/
theorem answer_keeps (h : KeyInv kept request stored s) {r : ℕ} {res : Response β}
    (hcov : kept → covered stored s (.answer r res) = true) (hs : answer s r res = some s') :
    KeyInv kept request stored s' := by
  unfold answer at hs
  split at hs
  case h_2 => cases hs
  case h_1 =>
    obtain rfl := Option.some.inj hs
    have hctx : KeyInv kept request stored (s.setCtx r { s.ctx r with closed := true }) :=
      h.setCtx (h.claimTx r) (h.rowId r) ⟨fun hf => hf, fun _ => ⟨rfl, rfl⟩⟩
    refine hctx.setPhase ⟨?_, fun hk hsucc => ?_, fun hk hno hfailed => ?_⟩
    · rw [KeyState.setCtx_ctx, Function.update_self]
    · have hc := hcov hk
      rw [KeyState.setCtx_ctx, Function.update_self]
      rw [covered, if_pos hsucc] at hc
      exact ((Bool.or_eq_true ..).mp hc).imp_right fun hc => claimCommitted_posted h hc
    · have hc := hcov hk
      rw [KeyState.setCtx_ctx, Function.update_self] at hfailed
      rw [covered, if_neg (Bool.eq_false_iff.mp hno)] at hc
      exact ((Bool.or_eq_true ..).mp hc).resolve_left fun hn => by
        rw [Option.isNone_iff_eq_none.mp hn] at hfailed
        cases hfailed

theorem send_keeps (h : KeyInv kept request stored s) {r : ℕ} (hs : send s r = some s') :
    KeyInv kept request stored s' := by
  unfold send at hs
  split at hs
  case h_1 res source hp =>
    have hsent : Sent kept request s r res source := by
      have := h.said r
      rwa [hp] at this
    exact Option.some.inj hs ▸ h.setPhase (p := .answered res source) hsent
  case h_2 => cases hs

theorem crash_keeps (h : KeyInv kept request stored s) {r : ℕ} (hs : crash s r = some s') :
    KeyInv kept request stored s' := by
  unfold crash at hs
  split at hs
  · cases hs
  · exact Option.some.inj hs ▸ h.setPhase (p := .crashed) trivial

variable [DecidableEq η]

omit [DecidableEq η] in
theorem settleDone_keeps (h : KeyInv kept request stored s) {t : ℕ} {res : Response β} :
    KeyInv kept request stored (settleDone stored s (.claim t) res) := by
  unfold settleDone
  cases hrow : s.row with
  | none =>
    have : ({ s with row := none } : KeyState η β) = s := by rw [← hrow]
    exact this ▸ h
  | some row =>
    have hpend : s.pending = none := by
      rw [← Option.not_isSome_iff_eq_none]
      intro hp
      rw [h.vacant hp] at hrow
      cases hrow
    refine h.setRow (fun row' hr => ?_) hpend ?_
    · obtain rfl := Option.some.inj (hrow.symm.trans hr)
      simp only []
      split_ifs <;> exact ⟨rfl, rfl⟩
    · have ho := h.origin row hrow
      unfold Origin at ho ⊢
      simp only []
      split_ifs with hid
      · rw [hid] at ho ⊢
        exact ho
      · exact ho

/-- The error of a route bug is stored over no row or over a row of the same request. -/
theorem settleRouteBug_keeps (h : KeyInv kept request stored s) {r : ℕ} {res : Response β}
    (hno : isSuccess res.status = false)
    (hfits : kept → (storedResponse stored res.body).isSome) (hpend : s.pending = none) :
    KeyInv kept request stored (settleRouteBug request stored s r res) := by
  have herror : kept → ∃ status body, some res.status = some status ∧
      storedResponse stored res.body = some body ∧ isSuccess status = false := fun hk => by
    obtain ⟨body, hbody⟩ := Option.isSome_iff_exists.mp (hfits hk)
    exact ⟨res.status, body, rfl, hbody, hno⟩
  unfold settleRouteBug
  cases hrow : s.row with
  | none =>
    refine h.setRow (fun row' hr => ?_) hpend ⟨rfl, fun hk => ⟨rfl, rfl, herror hk⟩⟩
    rw [hrow] at hr
    cases hr
  | some row =>
    simp only []
    split_ifs with hsha
    · refine h.setRow (fun row' hr => ?_) hpend ?_
      · obtain rfl := Option.some.inj (hrow.symm.trans hr)
        exact ⟨rfl, rfl⟩
      · have ho := h.origin row hrow
        unfold Origin at ho ⊢
        rcases hid : row.id with u | u <;> simp only [hid] at ho ⊢
        · exact ho
        · exact ⟨ho.1, fun hk => ⟨rfl, rfl, herror hk⟩⟩
    · exact h

theorem settle_keeps (h : KeyInv kept request stored s) {r : ℕ} {ok : Bool} {reader : Option β}
    (hs : settle request stored s r ok reader = some s') : KeyInv kept request stored s' := by
  unfold settle at hs
  split at hs
  case h_2 => cases hs
  case h_1 res hp =>
    obtain ⟨-, hsuccess, hrefusal⟩ : PhaseOk kept request stored s r (.settling res) := hp ▸ h.said r
    split at hs
    case h_1 bug hbug =>
      -- a success past a route bug is sent as the bug's error
      set out := if isSuccess res.status then routeBugError bug else res with hout
      have hno : isSuccess out.status = false := by
        rw [hout]
        split_ifs with hsucc
        · cases bug <;> rfl
        · exact Bool.eq_false_iff.mpr hsucc
      have hfits : kept → (storedResponse stored out.body).isSome := fun hk => by
        rw [hout]
        split_ifs with hsucc
        · cases bug <;> rfl
        · exact hrefusal hk (Bool.eq_false_iff.mpr hsucc) (by rw [hbug]; rfl)
      have hsent : ∀ u : KeyState η β, PhaseOk kept request stored u r (.sending out none) :=
        fun u _ hsucc => absurd (hno.symm.trans hsucc) Bool.false_ne_true
      simp only [] at hs
      split_ifs at hs with hok hpend
      · have hpend' : s.pending = none := Option.not_isSome_iff_eq_none.mp hpend
        exact Option.some.inj hs ▸ (settleRouteBug_keeps h hno hfits hpend').setPhase (hsent _)
      · exact Option.some.inj hs ▸ h.setPhase (hsent _)
    case h_2 hbug =>
      split_ifs at hs with hsucc
      · have hsent : PhaseOk kept request stored s r (.sending res none) := fun hk hs' =>
          (hsuccess hk hs').resolve_left (by rw [hbug]; exact nofun)
        split at hs
        · rename_i id hid
          obtain ⟨t, rfl⟩ := h.rowId r id hid
          have hsent' : PhaseOk kept request stored (settleDone stored s (.claim t) res) r
              (.sending res none) := hsent
          exact Option.some.inj hs ▸ (settleDone_keeps h).setPhase hsent'
        · exact Option.some.inj hs ▸ h.setPhase hsent
      · have hsent : PhaseOk kept request stored s r (.sending res none) :=
          fun _ hs' => absurd hs' hsucc
        split at hs
        · rename_i row hrow
          split_ifs at hs with hsha
          · exact Option.some.inj hs ▸ h.setPhase (sent_replay h hrow hsha)
          · exact Option.some.inj hs ▸ h.setPhase hsent
        · exact Option.some.inj hs ▸ h.setPhase hsent

theorem keyStep_keeps (e : KeyEvent β) (h : KeyInv kept request stored s)
    (hcov : kept → covered stored s e = true) (hs : keyStep request stored s e = some s') : KeyInv kept request stored s' := by
  cases e with
  | preCheck r reader => exact preCheck_keeps h hs
  | begin r t => exact begin_keeps h hs
  | claim t savepoint => exact claimIdempotency_keeps h hs
  | tryLock t => exact tryLock_keeps h hs
  | lookUp t => exact lookUp_keeps h hs
  | insert t => exact insert_keeps h hs
  | record t entity => exact recordEntity_keeps h hs
  | commit t => exact commit_keeps h hs
  | rollback t => exact rollback_keeps h hs
  | answer r res => exact answer_keeps h hcov hs
  | settle r ok reader => exact settle_keeps h hs
  | send r => exact send_keeps h hs
  | crash r => exact crash_keeps h hs

end Steps

/-! ## The key -/

section Key

variable {s : KeyState η β}

theorem KeyInv.posted_unique (h : KeyInv kept request stored s) {r r' t t' : ℕ}
    (ht : Posted s r t) (ht' : Posted s r' t') : t = t' := by
  obtain ⟨row, hrow, hid, -⟩ := h.landed r t ht
  obtain ⟨row', hrow', hid', -⟩ := h.landed r' t' ht'
  obtain rfl := Option.some.inj (hrow.symm.trans hrow')
  exact RowId.claim.inj (hid.symm.trans hid')

/-- A request with another hash than the row's committed no claim and is sent no replay. -/
theorem KeyInv.other_hash (h : KeyInv kept request stored s) {row : Row η β} (hrow : s.row = some row)
    {r : ℕ} (hne : (request r).requestHash ≠ row.requestSha256) :
    (∀ t, ¬ Posted s r t) ∧ ∀ res source, s.phase r = .answered res source → source = none := by
  refine ⟨fun t ht => ?_, fun res source hp => ?_⟩
  · obtain ⟨row', hrow', -, hsha⟩ := h.landed r t ht
    obtain rfl := Option.some.inj (hrow.symm.trans hrow')
    exact hne hsha.symm
  · have hsent : PhaseOk kept request stored s r (.answered res source) := hp ▸ h.said r
    rcases source with _ | id
    · rfl
    · obtain ⟨⟨row', hrow', -, hsha⟩, -⟩ := hsent
      obtain rfl := Option.some.inj (hrow.symm.trans hrow')
      exact absurd hsha.symm hne

theorem KeyInv.success (h : KeyInv kept request stored s) (hk : kept) {r : ℕ} {res : Response β}
    {source : Option RowId} (hp : s.phase r = .answered res source)
    (hs : isSuccess res.status = true) :
    (∃ t, Posted s r t) ∨ ∃ row ∈ s.row, source = some row.id ∧
      row.requestSha256 = (request r).requestHash ∧ ∃ r' t, row.id = .claim t ∧ Posted s r' t := by
  have hsent : PhaseOk kept request stored s r (.answered res source) := hp ▸ h.said r
  rcases source with _ | id
  · exact .inl (hsent hk hs)
  · obtain ⟨⟨row, hrow, hid, hsha⟩, hcl⟩ := hsent
    obtain ⟨t, rfl⟩ := hcl hk hs
    have ho := h.origin row hrow
    unfold Origin at ho
    rw [hid] at ho
    obtain ⟨r', hpost, -⟩ := ho
    exact .inr ⟨row, hrow, congrArg some hid.symm, hsha, r', t, hid, hpost⟩

/-- The invariant holds after every run, and what needs the handlers where all of them answer as
covered routes do. -/
theorem keyInv_run [DecidableEq η] {es : List (KeyEvent β)}
    (h : run (keyStep request stored) KeyState.fresh es = some s)
    (hcov : kept → RunMeets (keyStep request stored) (fun s e => covered stored s e = true)
      KeyState.fresh es) : KeyInv kept request stored s := by
  by_cases hk : kept
  · exact run_keeps_of (fun _ e _ hi hc hs => keyStep_keeps e hi (fun _ => hc) hs) h (hcov hk)
      (keyInv_fresh ..)
  · exact run_keeps (fun _ e _ hi hs => keyStep_keeps e hi (fun hk' => absurd hk' hk) hs) h
      (keyInv_fresh ..)

/-- After any run of requests with the key: one transaction that claimed it has committed at most,
and a request with another hash than the row's posted nothing and is not sent the row's response.
Where the handlers answer as covered routes do, a success is its own posting's or was sent from the
row of the posting. -/
theorem key_posts_once [DecidableEq η] {es : List (KeyEvent β)}
    (h : run (keyStep request stored) KeyState.fresh es = some s) :
    (∀ r r' t t', Posted s r t → Posted s r' t' → t = t') ∧
      (∀ row ∈ s.row, ∀ r, (request r).requestHash ≠ row.requestSha256 →
        (∀ t, ¬ Posted s r t) ∧ ∀ res source, s.phase r = .answered res source → source = none) ∧
      (RunMeets (keyStep request stored) (fun s e => covered stored s e = true) KeyState.fresh es →
        ∀ r res source, s.phase r = .answered res source → isSuccess res.status = true →
          (∃ t, Posted s r t) ∨ ∃ row ∈ s.row, source = some row.id ∧
            row.requestSha256 = (request r).requestHash ∧
            ∃ r' t, row.id = .claim t ∧ Posted s r' t) := by
  have hinv : KeyInv False request stored s := keyInv_run h False.elim
  exact ⟨fun _ _ _ _ ht ht' => hinv.posted_unique ht ht',
    fun row hrow r hne => hinv.other_hash hrow hne,
    fun hcov r res source hp hs => (keyInv_run h fun _ : True => hcov).success trivial hp hs⟩

/-- Two requests alike, and a third with the same key. -/
def retried (r : ℕ) : Request ℕ := ⟨if r < 2 then 7 else 8, none, 201, true, false⟩

/-- Both pass the pre-check; the second meets the first one's row inside its posting. -/
def retriedRun : List (KeyEvent ℕ) :=
  [.preCheck 0 none, .preCheck 1 none, .begin 0 0, .claim 0 false, .tryLock 0, .lookUp 0, .insert 0,
    .begin 1 1, .claim 1 false, .tryLock 1, .commit 0, .tryLock 1, .lookUp 1, .rollback 1,
    .answer 1 ⟨409, .error "IDEMPOTENCY_IN_PROGRESS" none⟩, .answer 0 ⟨201, .plain 5⟩,
    .settle 0 true none, .send 0, .settle 1 true none, .send 1, .preCheck 2 none, .send 2]

theorem retried_posts_once :
    ∃ s, run (keyStep retried some) KeyState.fresh retriedRun = some s ∧
      RunMeets (keyStep retried some) (fun s e => covered some s e = true) KeyState.fresh retriedRun ∧
      s.phase 1 = .answered ⟨201, .plain 5⟩ (some (.claim 0)) ∧ Posted s 0 0 ∧
      (∀ r t, Posted s r t → t = 0) ∧
      s.phase 2 = .answered ⟨422, .error "IDEMPOTENCY_KEY_REUSED" (some none)⟩ none ∧
      ∃ row ∈ s.row, row.id = .claim 0 ∧ row.requestSha256 = 7 ∧ ∀ t, ¬ Posted s 2 t := by
  have hrun : run (keyStep retried some) KeyState.fresh retriedRun = some _ := rfl
  have hcov : RunMeets (keyStep retried some) (fun s e => covered some s e = true) KeyState.fresh
      retriedRun := by decide
  obtain ⟨honce, hother, hsuccess⟩ := key_posts_once hrun
  refine ⟨_, hrun, hcov, rfl, ⟨_, rfl⟩, fun r t ht => honce r 0 t 0 ht ⟨_, rfl⟩, rfl, ?_⟩
  rcases hsuccess hcov 1 _ _ rfl rfl with ⟨t, ht⟩ | ⟨row, hrow, hid, hsha, -⟩
  · cases (honce 1 0 t 0 ht ⟨_, rfl⟩)
    cases ht.choose_spec
  · exact ⟨row, hrow, (Option.some.inj hid).symm, hsha, (hother row hrow 2 (by rw [hsha]; decide)).1⟩

/-- A handler that claims nothing. -/
def unclaimedRun : List (KeyEvent ℕ) :=
  [.preCheck 0 none, .begin 0 0, .commit 0, .answer 0 ⟨200, .plain 5⟩, .settle 0 true none, .send 0]

/-- A handler that claims in two transactions, rolls both back and answers with an error too long
to store, and the retry. -/
def unstoredRun : List (KeyEvent ℕ) :=
  [.preCheck 0 none, .begin 0 0, .claim 0 false, .tryLock 0, .lookUp 0, .insert 0, .begin 0 1,
    .claim 1 false, .rollback 1, .rollback 0, .answer 0 ⟨500, .plain 0⟩, .settle 0 true none, .send 0,
    .preCheck 1 (some 9), .send 1]

/-- The middleware sends a success without a claim, and replays through the reader an error it could
not store: both requests are answered with success, and no transaction that claimed the key has
committed. -/
theorem unclaimed_answered :
    (∃ s, run (keyStep retried some) KeyState.fresh unclaimedRun = some s ∧
      s.phase 0 = .answered ⟨200, .plain 5⟩ none ∧ s.row.isNone ∧ ∀ r t, ¬ Posted s r t) ∧
    ∃ s, run (keyStep retried fun b => if b = 0 then none else some b) KeyState.fresh unstoredRun =
        some s ∧
      s.phase 1 = .answered ⟨201, .plain 9⟩ (some (.bug 0)) ∧ ∀ r t, ¬ Posted s r t := by
  have hunclaimed : run (keyStep retried some) KeyState.fresh unclaimedRun = some _ := rfl
  have hunstored : run (keyStep retried fun b => if b = 0 then none else some b) KeyState.fresh
      unstoredRun = some _ := rfl
  refine ⟨⟨_, hunclaimed, rfl, rfl, fun r t ht => ?_⟩, ⟨_, hunstored, rfl, fun r t ht => ?_⟩⟩
  · obtain ⟨row, hrow, -⟩ := (keyInv_run hunclaimed False.elim).landed r t ht
    cases hrow
  · obtain ⟨row, hrow, hid, -⟩ := (keyInv_run hunstored False.elim).landed r t ht
    obtain rfl := Option.some.inj hrow
    cases hid

end Key

end Idempotency

end MyBooks
