import MyBooks.ReceivablesRun

/-!
# The client of a line

A line of a document names no client but the document's own, in amounts of four places
(`ArLine.OwnOf`), in every state that a run of the receivables operations reaches (`own_reached`).
So what a document posts to receivables is its own client's.
-/

namespace MyBooks

variable {s s' : Receivables} {chart : Chart} {companyId : Option Id} {facts : PaymentFacts}

/-- A line of a client's document, in amounts that a column holds. -/
structure ArLine.OwnOf (c : Option Id) (l : ArLine) : Prop where
  client : l.contactId = none ∨ l.contactId = c
  debit : Places 4 l.debit
  credit : Places 4 l.credit

def ArDoc.Own (d : ArDoc) : Prop := ∀ l ∈ d.lines, l.OwnOf d.contactId

def OwnLines (s : Receivables) : Prop := ∀ t ∈ s.txns, t.toArDoc.Own

theorem places_round4 (x : Dec) : Places 4 (round4 x) := places_toPlaces 4 x

theorem own_debit (c : Option Id) (a : Id) (x : Dec) : (⟨a, round4 x, 0, none⟩ : ArLine).OwnOf c :=
  ⟨.inl rfl, places_round4 x, Places.zero⟩

theorem own_credit (c : Option Id) (a : Id) (x : Dec) : (⟨a, 0, round4 x, none⟩ : ArLine).OwnOf c :=
  ⟨.inl rfl, Places.zero, places_round4 x⟩

theorem own_named_debit (c : Option Id) (a : Id) (x : Dec) :
    (⟨a, round4 x, 0, c⟩ : ArLine).OwnOf c :=
  ⟨.inr rfl, places_round4 x, Places.zero⟩

theorem own_named_credit (c : Option Id) (a : Id) (x : Dec) :
    (⟨a, 0, round4 x, c⟩ : ArLine).OwnOf c :=
  ⟨.inr rfl, Places.zero, places_round4 x⟩

theorem own_pair {d : ArDoc} {l l' : ArLine} (h : d.lines = [l, l']) (hl : l.OwnOf d.contactId)
    (hl' : l'.OwnOf d.contactId) : d.Own := by
  intro x hx
  rw [h] at hx
  rcases List.mem_cons.mp hx with rfl | hx
  · exact hl
  · rwa [List.mem_singleton.mp hx]

section Tables

theorem OwnLines.addTxn (h : OwnLines s) {t : ArTxn} (ht : t.toArDoc.Own) :
    OwnLines (s.addTxn t) :=
  List.forall_mem_append.mpr ⟨h, by simpa using ht⟩

theorem OwnLines.setTxn (h : OwnLines s) {i : Id} {F : ArTxn → ArTxn}
    (hF : ∀ t, t.toArDoc.Own → (F t).toArDoc.Own) : OwnLines (s.setTxn i F) := by
  intro t' ht'
  obtain ⟨t, ht, rfl⟩ := List.mem_map.mp ht'
  split_ifs
  · exact hF t (h t ht)
  · exact h t ht

theorem OwnLines.foldl {β : Type*} {f : Receivables → β → Receivables}
    (hf : ∀ s b, OwnLines s → OwnLines (f s b)) (bs : List β) (h : OwnLines s) :
    OwnLines (bs.foldl f s) :=
  List.foldlRecOn (motive := OwnLines) _ _ h fun s hs b _ => hf s b hs

theorem OwnLines.moveInvoicePaid (h : OwnLines s) (i : Id) (delta : Dec) :
    OwnLines (moveInvoicePaid s i delta) := h.setTxn fun _ ht => ht

theorem own_writeShareRows (h : OwnLines s) (p a : Id) (shares : SettlementShares) :
    OwnLines (writeShareRows s facts companyId p a shares) := by
  unfold writeShareRows
  split_ifs <;> exact h

theorem own_writeApplication {p : Id} {accounts : SettleAccounts} (s : Receivables)
    (a : SharedApplication) (h : OwnLines s) :
    OwnLines (writeApplication facts companyId p accounts s a) :=
  (own_writeShareRows (s := s.addRow _) h _ _ _).moveInvoicePaid _ _

theorem own_writeCredit {date : Option String} {inside : Option Id} {p : Id} (s : Receivables)
    (c : Id × Dec) (h : OwnLines s) : OwnLines (writeCredit date inside p s c) :=
  OwnLines.moveInvoicePaid (s := s.addRow _) h _ _

theorem own_postDraw {ar : Id} {deposit : ArDoc} {date : String} {rows : List (Id × Dec)}
    {inside : Option Id} (h : OwnLines s) :
    OwnLines (postDraw s ar facts companyId deposit date rows inside) :=
  (h.addTxn (own_pair rfl (own_debit _ _ _) (own_named_credit _ _ _))).foldl own_writeCredit rows

theorem own_drawAll {ar p : Id} {date : String} {credits : List ValidatedCredit} (s : Receivables)
    (depositId : Id) (h : OwnLines s) :
    OwnLines (drawAll ar facts companyId date p credits s depositId) := by
  unfold drawAll
  split
  · exact h
  · exact own_postDraw h

theorem own_writeSettlement {ar p : Id} {date : String} {apps : List SharedApplication}
    {credits : List ValidatedCredit} {accounts : SettleAccounts} (h : OwnLines s) :
    OwnLines (writeSettlement s ar facts companyId p date apps credits accounts) := by
  unfold writeSettlement
  refine OwnLines.foldl (fun s _ hs => own_writeCredit s _ hs) _ ?_
  exact (h.foldl own_drawAll _).foldl own_writeApplication _

theorem own_retireApplication {i : Id} {set : Retire} (h : OwnLines s)
    (hs : retireApplication s i set = some s') : OwnLines s' := by
  obtain ⟨-, rfl⟩ := retireApplication_some hs
  exact h

theorem own_restore {set : Retire} (s : Receivables) (a : AppRow) (h : OwnLines s) :
    OwnLines (restore set s a) := by
  unfold restore
  cases hs : retireApplication s a.id set with
  | none => exact h
  | some s' => exact (own_retireApplication h hs).moveInvoicePaid _ _

theorem own_restoreOrStop {set : Retire} {p : Id} {a : AppRow} (h : OwnLines s)
    (hs : restoreOrStop set p s a = .ok s') : OwnLines s' := by
  unfold restoreOrStop at hs
  cases hr : retireApplication s a.id set with
  | none => simp [hr] at hs
  | some c =>
    rw [hr] at hs
    obtain rfl := Except.ok.inj hs
    exact (own_retireApplication h hr).moveInvoicePaid _ _

end Tables

section Lines

theorem own_debitLine {c a : Option Id} {x : Dec} : ∀ l ∈ debitLine a x, l.OwnOf c := by
  intro l hl
  unfold debitLine at hl
  split at hl
  · cases hl
  · split_ifs at hl
    · rw [List.mem_singleton.mp hl]
      exact own_debit _ _ _
    · cases hl

theorem own_stpLine {c : Option Id} {tax : SettlementTax} : ∀ l ∈ stpLine tax, l.OwnOf c := by
  intro l hl
  unfold stpLine at hl
  split at hl
  · cases hl
  · simp only [] at hl
    split_ifs at hl
    · rw [List.mem_singleton.mp hl]
      exact own_debit _ _ _
    · rw [List.mem_singleton.mp hl]
      exact own_credit _ _ _
    · cases hl

theorem own_paymentLines {depositTo ar customerId : Id} {parsed : Parsed}
    {accounts : SettleAccounts} {tax : SettlementTax} :
    ∀ l ∈ paymentLines depositTo ar customerId parsed accounts tax, l.OwnOf (some customerId) := by
  unfold paymentLines
  simp only [List.forall_mem_append, List.forall_mem_singleton]
  exact ⟨⟨⟨⟨own_debitLine, own_debitLine⟩, own_debitLine⟩, own_stpLine⟩, own_named_credit _ _ _⟩

theorem own_backLines {c : Option Id} {back : List (Id × Dec)} :
    ∀ l ∈ backLines back, l.OwnOf c := by
  intro l hl
  obtain ⟨a, -, rfl⟩ := List.mem_map.mp hl
  exact own_credit _ _ _

theorem own_bounceLines {ar held : Id} {payment : ArDoc} {back : List (Id × Dec)} :
    ∀ l ∈ bounceLines s ar held facts payment back, l.OwnOf payment.contactId := by
  unfold bounceLines
  simp only []
  split_ifs
  all_goals
    simp only [List.forall_mem_append, List.forall_mem_cons, List.not_mem_nil, false_imp_iff,
      implies_true, and_true, true_and, own_debit, own_credit, own_named_debit]
  exact own_backLines

theorem side_places (x : Dec) : Places 4 (side x).1 ∧ Places 4 (side x).2 := by
  unfold side
  split_ifs
  · exact ⟨Places.zero, places_round4 _⟩
  · exact ⟨places_round4 _, Places.zero⟩

theorem SalesLine.own_credited (c : Option Id) (l : SalesLine) : l.credited.OwnOf c :=
  ⟨.inl rfl, (side_places l.amount).2, (side_places l.amount).1⟩

theorem SalesLine.own_debited (c : Option Id) (l : SalesLine) : l.debited.OwnOf c :=
  ⟨.inl rfl, (side_places l.amount).1, (side_places l.amount).2⟩

/-- An invoice's line on receivables. -/
theorem own_side (c : Option Id) (ar : Id) (x : Dec) :
    (⟨ar, (side x).1, (side x).2, none⟩ : ArLine).OwnOf c :=
  ⟨.inl rfl, (side_places x).1, (side_places x).2⟩

/-- A memo's line on receivables. -/
theorem own_side_swap (c : Option Id) (ar : Id) (x : Dec) :
    (⟨ar, (side x).2, (side x).1, none⟩ : ArLine).OwnOf c :=
  ⟨.inl rfl, (side_places x).2, (side_places x).1⟩

theorem own_void (t : ArTxn) (h : t.toArDoc.Own) : t.void.toArDoc.Own := by
  intro l hl
  rcases List.mem_append.mp hl with hl | hl
  · exact h l hl
  · obtain ⟨l, hmem, rfl⟩ := List.mem_map.mp hl
    exact ⟨(h l hmem).client, (h l hmem).credit, (h l hmem).debit⟩

/-- A document with one line on receivables before its own. -/
theorem own_cons {d : ArDoc} {l : ArLine} {f : SalesLine → ArLine} {lines : List SalesLine}
    (hlines : d.lines = l :: lines.map f) (hl : l.OwnOf d.contactId)
    (hf : ∀ x, (f x).OwnOf d.contactId) : d.Own := by
  intro l' hl'
  rw [hlines] at hl'
  rcases List.mem_cons.mp hl' with rfl | hl'
  · exact hl
  · obtain ⟨x, -, rfl⟩ := List.mem_map.mp hl'
    exact hf x

end Lines

section Steps

theorem createInvoice_own (h : OwnLines s) {contactId : Id} {txnDate : String}
    {lines : List SalesLine} {total : CentAmount}
    (hs : createInvoice chart s contactId txnDate lines total companyId facts = .ok s') :
    OwnLines s' := by
  unfold createInvoice at hs
  simp only [bind_eq_ok, pure_eq_ok] at hs
  obtain ⟨ar, -, -, -, rfl⟩ := hs
  exact h.addTxn (own_cons rfl (own_side _ _ _) (SalesLine.own_credited _))

theorem applyCreditInTx_own (h : OwnLines s) {source : ArDoc} {date : String}
    {applications : List CreditApplication} {withSource : Bool}
    (hs : applyCreditInTx chart s source date applications companyId withSource facts = .ok s') :
    OwnLines s' := by
  obtain ⟨rows, date', hs⟩ : ∃ rows date', (if source.holdsDeposit then
      if rows = [] then pure s
      else do
        let ar ← arAccountId chart
        return postDraw s ar facts companyId source date rows none
    else pure (rows.foldl (writeCredit date' none source.id) s)) = Except.ok s' := by
    unfold applyCreditInTx at hs
    cases withSource <;>
      simp only [bind_eq_ok, ensure_ok, Bool.true_eq_false, if_false, if_true] at hs
    · obtain ⟨-, -, -, -, -, -, rows, -, hs⟩ := hs
      exact ⟨rows, _, hs⟩
    · obtain ⟨-, -, rows, -, hs⟩ := hs
      exact ⟨rows, _, hs⟩
  split_ifs at hs
  · rwa [← pure_eq_ok.mp hs]
  · obtain ⟨ar, -, hs⟩ := bind_eq_ok.mp hs
    rw [← pure_eq_ok.mp hs]
    exact own_postDraw h
  · rw [← pure_eq_ok.mp hs]
    exact h.foldl own_writeCredit rows

theorem memo_own (h : OwnLines s) {ar contactId : Id} {txnDate : String} {lines : List SalesLine}
    {total : Dec} : OwnLines (s.addTxn (memoTxn s ar contactId txnDate lines total companyId)) :=
  h.addTxn (own_cons rfl (own_side_swap _ _ _) (SalesLine.own_debited _))

theorem createCreditMemoDocument_own (h : OwnLines s) {contactId : Id} {txnDate : String}
    {lines : List SalesLine} {total : CentAmount} {applications : List CreditApplication}
    (hs : createCreditMemoDocument chart s contactId txnDate lines total applications companyId
      facts = .ok s') : OwnLines s' := by
  unfold createCreditMemoDocument at hs
  simp only [bind_eq_ok, ensure_ok] at hs
  obtain ⟨-, -, ar, -, -, -, hs⟩ := hs
  split_ifs at hs
  · rw [← pure_eq_ok.mp hs]
    exact memo_own h
  · exact applyCreditInTx_own (memo_own h) hs

theorem createCreditMemo_own (h : OwnLines s) {contactId : Id} {txnDate : String}
    {lines : List CreditMemoLine} {appliedToInvoiceId : Option Id}
    (hs : createCreditMemo chart s contactId txnDate lines appliedToInvoiceId companyId facts =
      .ok s') : OwnLines s' := by
  unfold createCreditMemo at hs
  simp only [bind_eq_ok] at hs
  obtain ⟨ar, -, -, -, hs⟩ := hs
  cases appliedToInvoiceId with
  | none =>
    rw [← pure_eq_ok.mp hs]
    exact memo_own h
  | some invoiceId =>
    simp only [] at hs
    split_ifs at hs
    · exact applyCreditInTx_own (memo_own h) hs
    · rw [← pure_eq_ok.mp hs]
      exact memo_own h

theorem createCustomerRefund_own (h : OwnLines s) {input : RefundInput} {strictAccount : Bool}
    (hs : createCustomerRefund chart s input strictAccount companyId facts = .ok s') :
    OwnLines s' := by
  unfold createCustomerRefund at hs
  simp only [bind_eq_ok, ensure_ok, pure_eq_ok] at hs
  obtain ⟨ar, -, -, -, debit, -, -, -, rfl⟩ := hs
  exact h.addTxn (own_pair rfl (own_debit _ _ _) (own_credit _ _ _))

theorem receivePayment_own (h : OwnLines s) {input : ReceivePaymentInput}
    (hs : receivePayment chart s input companyId facts = .ok s') : OwnLines s' := by
  unfold receivePayment at hs
  obtain ⟨parsed, -, hs⟩ := bind_eq_ok.mp hs
  obtain ⟨-, -, hs⟩ := bind_eq_ok.mp hs
  split_ifs at hs
  · unfold receiveDeposit at hs
    simp only [bind_eq_ok, ensure_ok, pure_eq_ok] at hs
    obtain ⟨-, -, -, -, -, -, rfl⟩ := hs
    exact h.addTxn (own_pair rfl (own_debit _ _ _) (own_named_credit _ _ _))
  · simp only [bind_eq_ok, pure_eq_ok] at hs
    obtain ⟨accounts, -, ar, -, -, -, valid, -, shared, -, -, -, rfl⟩ := hs
    exact own_writeSettlement (h.addTxn own_paymentLines)

theorem applyCredit_own (h : OwnLines s) {paymentId : Id} {date : String}
    {applications : List CreditApplication}
    (hs : applyCredit chart s paymentId date applications companyId facts = .ok s') :
    OwnLines s' := by
  unfold applyCredit at hs
  simp only [bind_eq_ok, ensure_ok] at hs
  obtain ⟨payment, -, -, -, -, -, -, -, hs⟩ := hs
  exact applyCreditInTx_own h hs

theorem applyCreditMemo_own (h : OwnLines s) {memoId : Id} {date : String}
    {applications : List CreditApplication}
    (hs : applyCreditMemo chart s memoId date applications companyId facts = .ok s') :
    OwnLines s' := by
  unfold applyCreditMemo at hs
  simp only [bind_eq_ok] at hs
  obtain ⟨memo, -, -, -, hs⟩ := hs
  exact applyCreditInTx_own h hs

theorem unapplyPayment_own (h : OwnLines s) {paymentId invoiceId : Id}
    (hs : unapplyPayment s paymentId invoiceId companyId facts = .ok s') : OwnLines s' := by
  unfold unapplyPayment at hs
  simp only [bind_eq_ok, ensure_ok] at hs
  obtain ⟨payment, -, -, -, hs⟩ := hs
  split at hs
  · cases hs
  · split at hs
    · cases hs
    · obtain ⟨-, -, hs⟩ := bind_eq_ok.mp hs
      obtain ⟨-, -, hs⟩ := bind_eq_ok.mp hs
      exact own_restoreOrStop h hs

theorem unapplyCreditMemo_own (h : OwnLines s) {memoId invoiceId : Id}
    (hs : unapplyCreditMemo s memoId invoiceId companyId facts = .ok s') : OwnLines s' := by
  unfold unapplyCreditMemo at hs
  simp only [bind_eq_ok] at hs
  obtain ⟨memo, -, hs⟩ := hs
  split at hs
  · cases hs
  · obtain ⟨-, -, hs⟩ := bind_eq_ok.mp hs
    exact own_restoreOrStop h hs

theorem bouncePayment_own (h : OwnLines s) {paymentId : Id} {input : BounceInput}
    (hs : bouncePayment chart s paymentId input companyId facts = .ok s') : OwnLines s' := by
  unfold bouncePayment at hs
  simp only [bind_eq_ok, ensure_ok] at hs
  obtain ⟨payment, -, -, -, -, -, -, -, hs⟩ := hs
  split at hs
  · cases hs
  · simp only [bind_eq_ok, ensure_ok, pure_eq_ok] at hs
    obtain ⟨fee, -, -, -, ar, -, -, -, back, -, c, hc, rfl⟩ := hs
    have hback : OwnLines c := by
      refine foldlM_keeps OwnLines (fun _ _ _ _ hs hstep => own_restoreOrStop hs hstep)
        (h.addTxn ?_) hc
      exact own_bounceLines
    cases fee with
    | none => exact hback
    | some fee =>
      exact OwnLines.addTxn (s := writeMirrorRows c _ _) hback
        (own_pair rfl (own_debit _ _ _) (own_credit _ _ _))

theorem own_reapplyRow {b : Id} {a : AppRow} (h : OwnLines s) (hs : reapplyRow b s a = .ok s') :
    OwnLines s' := by
  unfold reapplyRow at hs
  split at hs
  · cases hs
  · simp only [bind_eq_ok, ensure_ok] at hs
    obtain ⟨-, -, -, -, -, -, hs⟩ := hs
    split_ifs at hs
    · rw [← pure_eq_ok.mp hs]
      exact OwnLines.moveInvoicePaid (s := { s with rows := _ }) h _ _
    · rwa [← pure_eq_ok.mp hs]

theorem voidAt_own {refusal : Except PayError Unit} : ∀ (n : ℕ) {companyId : Option Id}
    {s s' : Receivables} {i : Id}, OwnLines s → voidAt companyId refusal n s i = .ok s' →
      OwnLines s'
  | 0, _, _, _, _, _, hs => by cases hs
  | n + 1, companyId, s, s', i, h, hs => by
    unfold voidAt at hs
    cases hd : s.doc? i with
    | none => simp [hd] at hs
    | some t =>
      simp only [hd, bind_eq_ok, ensure_ok] at hs
      obtain ⟨-, -, -, -, -, -, -, -, hs⟩ := hs
      cases htype : t.txnType with
      | customerPayment =>
        simp only [htype, releasePayment, bind_eq_ok, ensure_ok, pure_eq_ok] at hs
        obtain ⟨-, ⟨-, -, -, -, -, -, c, hc, -, -, rfl⟩, rfl⟩ := hs
        have hinner : OwnLines c :=
          foldlM_keeps OwnLines (fun d _ _ _ hs hstep => voidAt_own n hs hstep) h hc
        exact (hinner.foldl own_restore _).setTxn own_void
      | creditMemo =>
        simp only [htype, releaseCreditMemo, bind_eq_ok, ensure_ok, pure_eq_ok] at hs
        obtain ⟨-, ⟨-, -, rfl⟩, rfl⟩ := hs
        exact (h.foldl own_restore _).setTxn own_void
      | returnedPayment =>
        simp only [htype, bind_eq_ok, pure_eq_ok] at hs
        obtain ⟨c, hc, rfl⟩ := hs
        have hback : OwnLines c :=
          foldlM_keeps OwnLines (fun _ _ _ _ hs hstep => own_reapplyRow hs hstep) h hc
        exact hback.setTxn own_void
      | _ =>
        simp only [htype, bind_eq_ok, pure_eq_ok] at hs
        obtain ⟨c, hc, rfl⟩ := hs
        obtain rfl := Except.ok.inj hc
        exact h.setTxn own_void

theorem setAside_own (h : OwnLines s) {paymentId : Id}
    (hs : setAside s facts paymentId = .ok s') : OwnLines s' := by
  unfold setAside at hs
  obtain ⟨c, hc, hs⟩ := bind_eq_ok.mp hs
  have hinner : OwnLines c :=
    foldlM_keeps OwnLines (fun d _ _ _ hs hstep => voidAt_own _ hs hstep) h hc
  exact foldlM_keeps OwnLines (fun _ _ _ _ hs hstep => own_restoreOrStop hs hstep) hinner hs

theorem updatePayment_own (h : OwnLines s) {paymentId : Id} {input : ReceivePaymentInput}
    (hs : updatePayment chart s paymentId input companyId facts = .ok s') : OwnLines s' := by
  unfold updatePayment at hs
  obtain ⟨parsed, -, hs⟩ := bind_eq_ok.mp hs
  simp only [bind_eq_ok, ensure_ok] at hs
  obtain ⟨payment, -, -, -, -, -, -, -, -, -, -, -, -, -, -, -, hs⟩ := hs
  by_cases hsame : unchanged chart s payment input parsed
      ((liveApplications s paymentId).filter fun a => a.appliedDate = none)
  · rw [if_pos hsame] at hs
    rwa [← pure_eq_ok.mp hs]
  · rw [if_neg hsame] at hs
    obtain ⟨-, hs⟩ := ite_bind_ok hs
    simp only [bind_eq_ok, ensure_ok] at hs
    obtain ⟨-, -, -, -, -, -, accounts, -, c, hc, _, -, v, -, ar, -, -, -, shared, -, hs⟩ := hs
    rw [← pure_eq_ok.mp hs]
    have haside : OwnLines c := setAside_own h hc
    have hedited : OwnLines (deleteShareRows c paymentId) := haside
    refine own_writeSettlement (hedited.setTxn fun t _ => ?_)
    cases hheld : payment.holdsDeposit with
    | true => exact own_pair rfl (own_debit _ _ _) (own_named_credit _ _ _)
    | false => exact own_paymentLines

theorem arStep_own {op : ArOp} (h : OwnLines s) (hs : arStep chart s op = .ok s') :
    OwnLines s' := by
  cases op with
  | createInvoice => exact createInvoice_own h hs
  | createCreditMemoDocument => exact createCreditMemoDocument_own h hs
  | createCreditMemo => exact createCreditMemo_own h hs
  | createCustomerRefund => exact createCustomerRefund_own h hs
  | receivePayment => exact receivePayment_own h hs
  | updatePayment => exact updatePayment_own h hs
  | applyCredit => exact applyCredit_own h hs
  | applyCreditMemo => exact applyCreditMemo_own h hs
  | unapplyPayment => exact unapplyPayment_own h hs
  | unapplyCreditMemo => exact unapplyCreditMemo_own h hs
  | bouncePayment => exact bouncePayment_own h hs
  | voidTransaction i companyId facts => exact voidAt_own _ h hs

theorem updateInvoice_own (h : OwnLines s) {invoiceId contactId : Id} {txnDate : String}
    {lines : List SalesLine} {total : CentAmount}
    (hs : updateInvoice chart s invoiceId contactId txnDate lines total companyId facts = .ok s') :
    OwnLines s' := by
  unfold updateInvoice at hs
  simp only [bind_eq_ok, require_ok, ofPay_ok, pure_eq_ok] at hs
  obtain ⟨t, -, -, -, -, -, _, -, ar, -, -, -, -, -, rfl⟩ := hs
  exact h.setTxn fun t _ => own_cons rfl (own_side _ _ _) (SalesLine.own_credited _)

theorem updateCreditMemoDocument_own (h : OwnLines s) {memoId contactId : Id} {txnDate : String}
    {lines : List SalesLine} {total : CentAmount}
    (hs : updateCreditMemoDocument chart s memoId contactId txnDate lines total companyId facts =
      .ok s') : OwnLines s' := by
  unfold updateCreditMemoDocument at hs
  cases hfind : s.doc? memoId with
  | none => simp [hfind] at hs
  | some memo =>
    simp only [hfind, bind_eq_ok, require_ok] at hs
    obtain ⟨-, -, -, -, -, -, -, -, -, -, hs⟩ := hs
    obtain ⟨-, hs⟩ := ite_bind_ok hs
    simp only [bind_eq_ok, ofPay_ok, pure_eq_ok] at hs
    obtain ⟨ar, -, -, -, rfl⟩ := hs
    exact h.setTxn fun t _ => own_cons rfl (own_side_swap _ _ _) (SalesLine.own_debited _)

theorem salesStep_own {op : SalesOp} (h : OwnLines s) (hs : salesStep chart s op = .ok s') :
    OwnLines s' := by
  cases op with
  | ar op => exact arStep_own h (ofPay_ok.mp hs)
  | updateInvoice => exact updateInvoice_own h hs
  | updateCreditMemoDocument => exact updateCreditMemoDocument_own h hs
  | markAsSent =>
    simp only [salesStep, markAsSent, bind_eq_ok, require_ok, pure_eq_ok] at hs
    obtain ⟨t, -, -, -, rfl⟩ := hs
    exact h.setTxn fun _ ht => ht
  | sendInvoice =>
    simp only [salesStep, sendInvoice, bind_eq_ok, pure_eq_ok] at hs
    obtain ⟨t, -, rfl⟩ := hs
    exact h.setTxn fun _ ht => ht
  | recordInvoiceSent =>
    simp only [salesStep, recordInvoiceSent, bind_eq_ok, require_ok, pure_eq_ok] at hs
    obtain ⟨t, -, -, -, rfl⟩ := hs
    exact h.setTxn fun _ ht => ht
  | markViewed txnId =>
    obtain rfl := Except.ok.inj hs
    refine h.setTxn fun t ht => ?_
    unfold ArTxn.markViewed
    split_ifs <;> exact ht

theorem own_reached (chart : Chart) (uuids : Uuids) (units : List (List SalesOp)) :
    ∀ s ∈ reached (salesStep chart) (Receivables.empty uuids) units, OwnLines s := by
  have hmeets : Meets (salesStep chart) (fun _ _ => True) (Receivables.empty uuids) units :=
    Meets.of_forall (fun _ _ => trivial) _ _
  exact reached_keeps (fun _ _ _ h _ hs => salesStep_own h hs) hmeets
    (fun t ht => by cases ht)

end Steps

end MyBooks
