import MyBooks.PaymentConserves
import MyBooks.Waterfall
import Mathlib.Data.Prod.Lex
import Mathlib.Data.String.Basic

/-!
# Oldest first

Without applications the amount is poured over what the credits left of the invoices, oldest first.
So the invoices before some position are settled, those after it get no cash, and the order in which
the invoices are passed in does not matter (`auto_oldest_first`).
-/

namespace MyBooks

/-! ## The order of the invoices -/

section Order

/-- Date, number and id. -/
def ComputeInvoice.age (i : ComputeInvoice) : String ×ₗ String ×ₗ Id :=
  toLex (i.txnDate, toLex (i.invoiceNumber, i.invoiceId))

theorem notAfter_iff {a b : ComputeInvoice} : a.notAfter b ↔ a.age ≤ b.age := by
  simp only [ComputeInvoice.notAfter, ComputeInvoice.age, Prod.Lex.toLex_le_toLex, not_lt]

theorem sortOpenInvoices_pairwise (rows : List ComputeInvoice) :
    (sortOpenInvoices rows).Pairwise fun a b => a.age ≤ b.age := by
  have htotal : Std.Total ComputeInvoice.notAfter :=
    ⟨fun a b => by simpa only [notAfter_iff] using le_total a.age b.age⟩
  have htrans : IsTrans ComputeInvoice ComputeInvoice.notAfter :=
    ⟨fun a b c => by simpa only [notAfter_iff] using le_trans⟩
  exact (List.pairwise_insertionSort _ rows).imp fun h => notAfter_iff.mp h

theorem sortOpenInvoices_perm (rows : List ComputeInvoice) : (sortOpenInvoices rows).Perm rows :=
  List.perm_insertionSort _ rows

/-- Two invoices with different ids are never of one age. -/
theorem age_inj {a b : ComputeInvoice} (h : a.age = b.age) : a.invoiceId = b.invoiceId := by
  have := congrArg (fun x => (ofLex (ofLex x).2).2) h
  simpa [ComputeInvoice.age] using this

/-- Sorted, the invoices come out alike from any order. -/
theorem sortOpenInvoices_eq {rows rows' : List ComputeInvoice}
    (hids : (rows.map (·.invoiceId)).Nodup) (h : rows'.Perm rows) :
    sortOpenInvoices rows' = sortOpenInvoices rows := by
  have hperm := ((sortOpenInvoices_perm rows').trans h).trans (sortOpenInvoices_perm rows).symm
  refine hperm.eq_of_pairwise ?_ (sortOpenInvoices_pairwise rows') (sortOpenInvoices_pairwise rows)
  intro a b ha hb hab hba
  have ha' := h.mem_iff.mp ((sortOpenInvoices_perm rows').mem_iff.mp ha)
  have hb' := (sortOpenInvoices_perm rows).mem_iff.mp hb
  exact List.inj_on_of_nodup_map hids ha' hb' (age_inj (le_antisymm hab hba))

end Order

/-! ## The cash -/

section Cash

theorem remaining_eq_left (g : Given) (inv : ComputeInvoice) : g.remaining inv = g.left inv := by
  unfold Given.remaining Given.settled Given.left
  ring

/-- The cash moves, and nothing else. -/
structure CashOnly (g g' : Given) : Prop where
  disc : g'.disc = g.disc
  wo : g'.wo = g.wo
  cred : g'.cred = g.cred

theorem CashOnly.left {g g' : Given} (h : CashOnly g g') (inv : ComputeInvoice) :
    g'.left inv + g'.cash inv.invoiceId = g.left inv + g.cash inv.invoiceId := by
  unfold Given.left
  rw [h.disc, h.wo, h.cred]
  ring

theorem autoCash_eq {g : Given} {rest : Dec} {inv : ComputeInvoice} (hrest : 0 ≤ rest)
    (hleft : 0 ≤ g.left inv) (hcash : g.cash inv.invoiceId = 0) :
    autoCash (g, rest) inv =
      (g.setCash inv.invoiceId (min (g.left inv) rest), rest - min (g.left inv) rest) := by
  unfold autoCash takeCash
  split_ifs with hpos
  · have htake : max (min rest (g.left inv)) 0 = min (g.left inv) rest := by
      rw [min_comm, max_eq_left (le_min hleft hrest)]
    simp only [htake]
  · obtain rfl : rest = 0 := le_antisymm (not_lt.mp hpos) hrest
    have hsame : g.setCash inv.invoiceId 0 = g := by
      unfold Given.setCash
      rw [← hcash, Function.update_eq_self]
    rw [min_eq_right hleft, hsame, sub_zero]

theorem setCash_left_self (g : Given) (inv : ComputeInvoice) (x : Dec) :
    (g.setCash inv.invoiceId x).left inv = g.left inv + g.cash inv.invoiceId - x := by
  simp only [Given.setCash, Given.left, Function.update_self]
  ring

theorem setCash_left_of_ne {g : Given} {id : Id} {inv : ComputeInvoice} (h : inv.invoiceId ≠ id)
    (x : Dec) : (g.setCash id x).left inv = g.left inv := by
  simp only [Given.setCash, Given.left, Function.update_of_ne h]

/-- Oldest first the cash alone moves, and only that of the invoices. -/
theorem autoCash_cashOnly (p : Given × Dec) (inv : ComputeInvoice) : CashOnly p.1 (autoCash p inv).1 := by
  unfold autoCash
  split_ifs
  · exact ⟨rfl, rfl, rfl⟩
  · exact ⟨rfl, rfl, rfl⟩

theorem autoCash_frame (p : Given × Dec) (inv : ComputeInvoice) {id : Id} (h : id ≠ inv.invoiceId) :
    (autoCash p inv).1.cash id = p.1.cash id := by
  unfold autoCash
  split_ifs
  · exact Function.update_of_ne h _ _
  · rfl

theorem foldl_autoCash_cashOnly (invoices : List ComputeInvoice) (p : Given × Dec) :
    CashOnly p.1 (invoices.foldl autoCash p).1 :=
  foldl_keeps (P := fun q : Given × Dec => CashOnly p.1 q.1)
    (fun q inv h =>
      have hq := autoCash_cashOnly q inv
      ⟨hq.disc.trans h.disc, hq.wo.trans h.wo, hq.cred.trans h.cred⟩)
    invoices ⟨rfl, rfl, rfl⟩

theorem foldl_autoCash_frame {id : Id} : ∀ (invoices : List ComputeInvoice) (p : Given × Dec),
    id ∉ invoices.map (·.invoiceId) → (invoices.foldl autoCash p).1.cash id = p.1.cash id
  | [], _, _ => rfl
  | inv :: invoices, p, h => by
    rw [List.map_cons, List.mem_cons, not_or] at h
    rw [List.foldl_cons, foldl_autoCash_frame invoices _ h.2, autoCash_frame p inv h.1]

/-- The rest is poured over what is left of the invoices. -/
theorem autoCash_pour : ∀ {invoices : List ComputeInvoice} {g : Given} {rest : Dec},
    (invoices.map (·.invoiceId)).Nodup → 0 ≤ rest →
    (∀ inv ∈ invoices, 0 ≤ g.left inv ∧ g.cash inv.invoiceId = 0) →
      invoices.map (invoices.foldl autoCash (g, rest)).1.left =
          (pour (invoices.map g.left) rest).1 ∧
        (invoices.foldl autoCash (g, rest)).2 = (pour (invoices.map g.left) rest).2
  | [], _, _, _, _, _ => ⟨rfl, rfl⟩
  | inv :: invoices, g, rest, hids, hrest, h => by
    obtain ⟨⟨hleft, hcash⟩, hothers⟩ := List.forall_mem_cons.mp h
    obtain ⟨hnew, hids⟩ := List.nodup_cons.mp hids
    have hne : ∀ i ∈ invoices, i.invoiceId ≠ inv.invoiceId := fun i hi he =>
      hnew (List.mem_map.mpr ⟨i, hi, he⟩)
    have hstep := autoCash_eq hrest hleft hcash
    set g' := g.setCash inv.invoiceId (min (g.left inv) rest) with hg'
    have hlefts : invoices.map g'.left = invoices.map g.left :=
      List.map_congr_left fun i hi => setCash_left_of_ne (hne i hi) _
    obtain ⟨hmap, hsnd⟩ := autoCash_pour (g := g') hids (sub_min_nonneg (g.left inv) rest)
      fun i hi => by
        rw [hg', setCash_left_of_ne (hne i hi)]
        exact ⟨(hothers i hi).1, (Function.update_of_ne (hne i hi) _ _).trans (hothers i hi).2⟩
    rw [hlefts] at hmap hsnd
    rw [List.foldl_cons, hstep]
    refine ⟨?_, hsnd⟩
    rw [List.map_cons, List.map_cons, pour_cons, hmap]
    -- the later invoices leave this one as it is
    congr 1
    set last := (invoices.foldl autoCash (g', rest - min (g.left inv) rest)).1
    have hkept : last.left inv = g'.left inv := by
      have hsum := (foldl_autoCash_cashOnly invoices (g', rest - min (g.left inv) rest)).left inv
      rw [foldl_autoCash_frame invoices _ hnew] at hsum
      exact add_right_cancel hsum
    rw [hkept, hg', setCash_left_self, hcash, add_zero]

/-- What the invoices take in all is the amount, or all that is left of them. -/
theorem pour_taken {bs : List Dec} (hbs : ∀ b ∈ bs, 0 ≤ b) {a : Dec} (ha : 0 ≤ a) :
    bs.sum - (pour bs a).1.sum = min a bs.sum := by
  have hsum := pour_sum bs a
  have hsnd := pour_snd hbs ha
  rcases le_total a bs.sum with h | h
  · rw [max_eq_left (sub_nonpos.mpr h)] at hsnd
    rw [min_eq_left h]
    linarith
  · rw [max_eq_right (sub_nonneg.mpr h)] at hsnd
    rw [min_eq_right h]
    linarith

end Cash

section Credits

/-- The credits move nothing else. -/
structure CreditsOnly (g g' : Given) : Prop where
  cash : g'.cash = g.cash
  disc : g'.disc = g.disc
  wo : g'.wo = g.wo

theorem creditInputRow_creditsOnly (byId : Id → Option ComputeInvoice) (pass : CreditPass)
    (s : CreditRows) (row : CreditInput) :
    CreditsOnly s.given (creditInputRow byId pass s row).given := by
  unfold creditInputRow
  split_ifs
  · exact ⟨rfl, rfl, rfl⟩
  · rcases byId row.invoiceId with _ | inv
    · exact ⟨rfl, rfl, rfl⟩
    · rcases s.creditLeft row.sourcePaymentId with _ | avail <;> exact ⟨rfl, rfl, rfl⟩

theorem creditPasses_creditsOnly (byId : Id → Option ComputeInvoice) (rows : List CreditInput)
    (s : CreditRows) : CreditsOnly s.given (creditPasses byId rows s).given := by
  have hkeeps : ∀ pass (q : CreditRows) row, CreditsOnly s.given q.given →
      CreditsOnly s.given (creditInputRow byId pass q row).given := fun pass q row h =>
    have hq := creditInputRow_creditsOnly byId pass q row
    ⟨hq.cash.trans h.cash, hq.disc.trans h.disc, hq.wo.trans h.wo⟩
  have htyped : CreditsOnly s.given (rows.foldl (creditInputRow byId .typed) s).given :=
    foldl_keeps (P := fun q : CreditRows => CreditsOnly s.given q.given) (hkeeps .typed) rows
      ⟨rfl, rfl, rfl⟩
  exact foldl_keeps (P := fun q : CreditRows => CreditsOnly s.given q.given) (hkeeps .fill) rows htyped

end Credits

/-! ## The whole payment -/

def ComputedInvoice.age (i : ComputedInvoice) : String ×ₗ String ×ₗ Id :=
  toLex (i.txnDate, toLex (i.invoiceNumber, i.invoiceId))

/-- The cash went to the open invoices oldest first. -/
structure OldestFirst (openInvoices : List ComputeInvoice) (amount : Dec) (r : ComputeResult) :
    Prop where
  all : (r.invoices.map (·.invoiceId)).Perm
    ((openInvoices.filter fun i => 0 < centBalance i.balanceDueExact).map (·.invoiceId))
  sorted : r.invoices.Pairwise fun a b => a.age ≤ b.age
  position : ∃ k, (∀ inv ∈ r.invoices.take k, inv.remaining = 0) ∧
    ∀ inv ∈ r.invoices.drop (k + 1), inv.payment = 0
  applied : r.totals.applied = min amount
    (((openInvoices.filter fun i => 0 < centBalance i.balanceDueExact).map fun i =>
      centBalance i.balanceDueExact).sum - (r.invoices.map (·.credit)).sum)

section Auto

variable {openInvoices invoices : List ComputeInvoice} {req : ComputeRequest}
  {credits : List ComputeCredit} {c : CreditRows} {amount : Dec}

theorem autoResult_oldestFirst
    (hinvoices : invoices = sortOpenInvoices
      (openInvoices.filter fun i => 0 < centBalance i.balanceDueExact))
    (hids : (invoices.map (·.invoiceId)).Nodup) (hamount : 0 ≤ amount ∧ Cents amount)
    (hg : c.given.Whole) (hc : CreditsOnly {} c.given) {source : AmountSource}
    (h : (paymentResult req invoices c amount source
      (invoices.foldl autoCash (c.given, amount)).1).problems = []) :
    OldestFirst openInvoices amount (paymentResult req invoices c amount source
      (invoices.foldl autoCash (c.given, amount)).1) := by
  have hperm := sortOpenInvoices_perm
    (openInvoices.filter fun i => 0 < centBalance i.balanceDueExact)
  rw [← hinvoices] at hperm
  have hok : CashOk c.given.cred (invoices.foldl autoCash (c.given, amount)) :=
    foldl_keeps (P := CashOk c.given.cred) (fun _ inv h => autoCash_ok h inv) invoices
      ⟨hg, rfl, hamount.2⟩
  have honly := foldl_autoCash_cashOnly invoices (c.given, amount)
  set g := (invoices.foldl autoCash (c.given, amount)).1 with hgdef
  have hzero : ∀ id, c.given.cash id = 0 := fun id => congrFun hc.cash id
  -- what the cash left of an invoice and what it gave
  have hsplit : ∀ inv, c.given.left inv = g.left inv + g.cash inv.invoiceId := fun inv => by
    have := honly.left inv
    rw [hzero, add_zero] at this
    exact this.symm
  have hlefts : ∀ inv ∈ invoices, 0 ≤ c.given.left inv := fun inv hinv => by
    have hrem := (problems_nil h).2.1 inv hinv
    rw [remaining_eq_left] at hrem
    rw [hsplit]
    exact add_nonneg hrem (hok.whole.cash _).1
  obtain ⟨hmap, -⟩ := autoCash_pour hids hamount.1 fun inv hinv => ⟨hlefts inv hinv, hzero _⟩
  rw [← hgdef] at hmap
  have hdemands : ∀ b ∈ invoices.map c.given.left, 0 ≤ b := List.forall_mem_map.mpr hlefts
  constructor
  case all =>
    simp only [paymentResult, List.map_map]
    exact hperm.map (·.invoiceId)
  case sorted =>
    simp only [paymentResult, List.pairwise_map]
    rw [hinvoices]
    exact sortOpenInvoices_pairwise _
  case position =>
    obtain ⟨k, htake, hdrop⟩ := pour_position hdemands hamount.1
    rw [← hmap, ← List.map_take] at htake
    rw [← hmap, ← List.map_drop, ← List.map_drop, List.map_inj_left] at hdrop
    refine ⟨k, ?_, ?_⟩ <;> simp only [paymentResult, ← List.map_take, ← List.map_drop] <;> intro x hx
    · obtain ⟨inv, hinv, rfl⟩ := List.mem_map.mp hx
      show round2 (g.remaining inv) = 0
      rw [remaining_eq_left, htake _ (List.mem_map_of_mem hinv)]
      exact round2_of_cents Places.zero
    · obtain ⟨inv, hinv, rfl⟩ := List.mem_map.mp hx
      have hcash : g.cash inv.invoiceId = 0 := by
        have := hsplit inv
        rw [hdrop inv hinv] at this
        linarith
      show round2 (g.cash inv.invoiceId) = 0
      rw [hcash]
      exact round2_of_cents Places.zero
  case applied =>
    have hcash : (invoices.map fun inv => g.cash inv.invoiceId).sum =
        (invoices.map c.given.left).sum - (invoices.map g.left).sum := by
      rw [eq_sub_iff_add_eq, ← List.sum_map_add]
      exact congrArg List.sum (List.map_congr_left fun inv _ => by rw [hsplit, add_comm])
    have hleft : (invoices.map c.given.left).sum =
        (invoices.map fun i => centBalance i.balanceDueExact).sum -
          (invoices.map fun inv => g.cred inv.invoiceId).sum := by
      rw [eq_sub_iff_add_eq, ← List.sum_map_add]
      refine congrArg List.sum (List.map_congr_left fun inv _ => ?_)
      rw [Given.left, hzero, congrFun hc.disc, congrFun hc.wo, honly.cred]
      ring
    have hcredit : ((paymentResult req invoices c amount source g).invoices.map (·.credit)).sum =
        (invoices.map fun inv => g.cred inv.invoiceId).sum := by
      simp only [paymentResult, List.map_map]
      exact congrArg List.sum (List.map_congr_left fun inv _ =>
        round2_of_cents (hok.whole.cred inv.invoiceId).2)
    show round2 (invoices.map fun inv => g.cash inv.invoiceId).sum = _
    rw [round2_of_cents (sum_cents invoices hok.whole.cash), hcash, hmap,
      pour_taken hdemands hamount.1, hleft, hcredit, (hperm.map _).sum_eq]

/-- Oldest first, from whatever order. -/
theorem auto_oldest_first (hids : (openInvoices.map (·.invoiceId)).Nodup)
    (hauto : req.applications = none) (h : (computePayment openInvoices req credits).problems = []) :
    OldestFirst openInvoices ((req.amount.map (·.val)).getD 0)
        (computePayment openInvoices req credits) ∧
      ∀ other, other.Perm openInvoices →
        computePayment other req credits = computePayment openInvoices req credits := by
  have hopen : ((openInvoices.filter fun i => 0 < centBalance i.balanceDueExact).map
      (·.invoiceId)).Nodup := hids.sublist (List.filter_sublist.map _)
  constructor
  · have hsorted : ((sortOpenInvoices (openInvoices.filter fun i =>
        0 < centBalance i.balanceDueExact)).map (·.invoiceId)).Nodup :=
      ((sortOpenInvoices_perm _).map _).nodup_iff.mpr hopen
    set byId := lastOf (·.invoiceId) (sortOpenInvoices
      (openInvoices.filter fun i => 0 < centBalance i.balanceDueExact)) with hbyId
    have ht := typedRows_ok byId []
    have hc := creditPasses_creditsOnly byId req.creditApplications
      { given := (typedRows byId []).given, problems := (typedRows byId []).problems
        creditLeft := fun id => (lastOf (·.sourcePaymentId) credits id).map (·.remaining.val) }
    unfold computePayment at h ⊢
    simp only [hauto, cashRows, Option.getD_none, ← hbyId] at h ⊢
    exact autoResult_oldestFirst rfl hsorted (inputAmount_whole _)
      (creditPasses_uses _ (CreditRows.uses_start ht credits) _).whole hc h
  · intro other hother
    unfold computePayment
    rw [sortOpenInvoices_eq hopen (hother.filter _)]

/-- 150 with no applications, after a credit of 20 for the earlier invoice. -/
def onAccount : ComputeRequest where
  date := some "2026-04-01"
  amount := some (money 150)
  applications := none
  creditApplications := [⟨"memo", "a", none⟩]
  writeOffThreshold := none

theorem onAccount_oldest_first :
    OldestFirst [marchInvoice "b" "2026-03-09" 120, marchInvoice "a" "2026-03-02" 60]
        ((onAccount.amount.map (·.val)).getD 0)
        (computePayment [marchInvoice "b" "2026-03-09" 120, marchInvoice "a" "2026-03-02" 60]
          onAccount [⟨"memo", money 20⟩]) ∧
      ∀ other, other.Perm [marchInvoice "b" "2026-03-09" 120, marchInvoice "a" "2026-03-02" 60] →
        computePayment other onAccount [⟨"memo", money 20⟩] =
          computePayment [marchInvoice "b" "2026-03-09" 120, marchInvoice "a" "2026-03-02" 60]
            onAccount [⟨"memo", money 20⟩] :=
  auto_oldest_first
    (by decide : ([marchInvoice "b" "2026-03-09" 120, marchInvoice "a" "2026-03-02" 60].map
      (·.invoiceId)).Nodup) rfl (by decide +kernel)

end Auto

end MyBooks
