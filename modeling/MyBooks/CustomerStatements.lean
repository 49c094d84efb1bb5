import MyBooks.OpenItemsTie
import Mathlib.Data.String.Basic

/-!
# Customer statements

A statement lists a client's open items, or brings a balance forward and lists what was posted
since. Both ways it closes at the amount due, which is the client's balance of receivables
(`statement_closes`): what was open before and what was posted since are what is open now.
-/

namespace MyBooks

namespace OpenItems

inductive StatementFormat where
  | openItem | balanceForward | transaction
  deriving DecidableEq, Repr

structure StatementLine where
  date : String
  txnId : Id
  txnType : TxnType
  number : Option String
  description : String
  dueDate : Option String
  amount : Dec
  openCents : Option Dec := none
  balance : Dec

structure StatementQuery where
  contactId : Id
  asOf : String
  format : StatementFormat := .openItem
  start : Option String := none

structure CustomerStatement where
  contactId : Id
  asOf : String
  format : StatementFormat
  start : Option String := none
  openingBalance : Option Dec := none
  lines : List StatementLine
  buckets : AgingBucketKey → Dec
  total : Dec
  amountDue : Dec
  difference : Dec

inductive StatementError where
  /-- `start must be on or before asOf`. -/
  | startAfterAsOf
  /-- `RangeError` of a date that is none. -/
  | notADate
  deriving DecidableEq, Repr

def typeLabel : TxnType → String
  | .invoice => "Invoice"
  | .creditMemo => "Credit memo"
  | .customerPayment => "Payment"
  | .customerRefund => "Refund"
  | .returnedPayment => "Bounced payment"
  | .badDebtRecovery => "Recovered bad debt"
  | .journalEntry => "Journal entry"
  | .cashSale => "Sales receipt"
  | _ => "Adjustment"

def describeTxn (txnType : TxnType) (number : Option String) : String :=
  typeLabel txnType ++ if number.getD "" = "" then "" else " " ++ number.getD ""

def firstOfMonth (d : String) : String := String.ofList (d.toList.take 7 ++ "-01".toList)

/-- None where `toISOString` throws. -/
def dayBefore (d : String) : Option String :=
  (parseDay d).map fun n => String.ofList (dateText (n - 1))

/-- The start that is asked for, else the first of the month. -/
def StatementQuery.startDate (q : StatementQuery) : String := q.start.getD (firstOfMonth q.asOf)

/-- What the statement asks of the open items. -/
def StatementQuery.itemsQuery (q : StatementQuery) (companyId : Option Id) (asOf : String) :
    OpenItemsQuery := { companyId, asOf, contactIds := [q.contactId] }

/-- By date, number and id. -/
def OpenItem.earlier (collate : String → String → Ordering) (a b : OpenItem) : Prop :=
  ((collate a.date b.date).then
    ((collate (a.number.getD "") (b.number.getD "")).then (collate a.txnId b.txnId))).isLE

instance (collate : String → String → Ordering) : DecidableRel (OpenItem.earlier collate) :=
  fun _ _ => inferInstanceAs (Decidable (_ = true))

/-- Open items with the running balance. -/
def itemLines : Dec → List OpenItem → List StatementLine
  | _, [] => []
  | running, it :: items =>
    { date := it.date
      txnId := it.txnId
      txnType := it.txnType
      number := it.number
      description := describeTxn it.txnType it.number
      dueDate := it.dueDate
      amount := it.original
      openCents := some it.openCents
      balance := round2 (running + it.openCents) } :: itemLines (running + it.openCents) items

section Forward

variable (src : Source) (contactId : Id)

/-- What a transaction posts to a client's receivables. -/
def Source.clientAmount (t : Txn) : Dec :=
  tally (fun l => src.chart.isAr l.accountId && t.contactOf l = some contactId) net t.lines

/-- By date, number and id, numbers as the database orders texts; a transaction without a number comes
first. -/
def Txn.earlier (dbOrder : String → String → Ordering) (a b : Txn) : Prop :=
  ((compare a.txnDate b.txnDate).then ((compare a.txnNumber.isSome b.txnNumber.isSome).then
    ((dbOrder (a.txnNumber.getD "") (b.txnNumber.getD "")).then (compare a.id b.id)))).isLE

instance (dbOrder : String → String → Ordering) : DecidableRel (Txn.earlier dbOrder) :=
  fun _ _ => inferInstanceAs (Decidable (_ = true))

def Txn.since (q : OpenItemsQuery) (start : String) (t : Txn) : Bool :=
  t.dated q && start ≤ t.txnDate

/-- The transactions from `start` on that change what the client owes. -/
def Source.statementTxns (dbOrder : String → String → Ordering) (q : OpenItemsQuery)
    (start : String) : List Txn :=
  (src.txns.filter fun t => t.since q start && src.clientAmount contactId t ≠ 0).insertionSort
    (Txn.earlier dbOrder)

def Source.forwardLines : Dec → List Txn → List StatementLine
  | _, [] => []
  | running, t :: txns =>
    { date := t.txnDate
      txnId := t.id
      txnType := t.txnType
      number := t.txnNumber.or t.referenceNumber
      description := describeTxn t.txnType (t.txnNumber.or t.referenceNumber)
      dueDate := if t.txnType = .invoice then some (t.dueDate.getD t.txnDate) else none
      amount := round2 (src.clientAmount contactId t)
      balance := round2 (running + src.clientAmount contactId t) } ::
        forwardLines (running + src.clientAmount contactId t) txns

end Forward

/-- The rows of the two queries of the open items, in the order they come in. -/
abbrev Fetch := OpenItemsQuery → List Work × List Move

/-- The statement of a client that was found. Open items are sorted by `localeCompare`, transactions
by the database. -/
def buildCustomerStatement (collate dbOrder : String → String → Ordering) (src : Source)
    (fetch : Fetch) (companyId : Option Id) (q : StatementQuery) :
    Except StatementError CustomerStatement :=
  let itemsAsOf := fun asOf => arOpenItemsAsOf collate src (q.itemsQuery companyId asOf)
    (fetch (q.itemsQuery companyId asOf)).1 (fetch (q.itemsQuery companyId asOf)).2
  let items := itemsAsOf q.asOf
  let aging := ageOpenItems items q.asOf
  if q.format = .openItem then
    .ok
      { contactId := q.contactId, asOf := q.asOf, format := q.format
        lines := itemLines 0 (items.insertionSort (OpenItem.earlier collate))
        buckets := aging.buckets, total := aging.total
        amountDue := aging.total, difference := aging.difference }
  else if q.asOf < q.startDate then .error .startAfterAsOf
  else (dayBefore q.startDate).elim (.error .notADate) fun day =>
    let opening := ((itemsAsOf day).map OpenItem.openExact).sum
    .ok
      { contactId := q.contactId, asOf := q.asOf, format := q.format
        start := some q.startDate, openingBalance := some (round2 opening)
        lines := src.forwardLines q.contactId opening
          (src.statementTxns q.contactId dbOrder (q.itemsQuery companyId q.asOf) q.startDate)
        buckets := aging.buckets, total := aging.total
        amountDue := aging.total, difference := aging.difference }

/-- The balance that a statement ends with. -/
def CustomerStatement.closing (st : CustomerStatement) : Dec :=
  (st.lines.getLast?.map StatementLine.balance).getD (st.openingBalance.getD 0)

section Dates

/-- A date of four, two and two digits. -/
def IsDate (d : String) : Prop := ∃ n : ℤ, HasText n ∧ d = String.ofList (dateText n)

theorem parseDay_dateText {n : ℤ} (h : HasText n) :
    parseDay (String.ofList (dateText n)) = some n := by
  rw [parseDay, String.toList_ofList, parseIsoDate_dateText h]
  exact congrArg some (dayNumber_civil n)

theorem lt_dateText {a b : ℤ} (ha : HasText a) (hb : HasText b) :
    String.ofList (dateText a) < String.ofList (dateText b) ↔ a < b := by
  rw [String.lt_iff, String.toList_ofList, String.toList_ofList]
  exact dateText_lt_iff ha hb

/-- A date is by the day before another just if it is earlier. -/
theorem le_dayBefore {start day d : String} (hstart : ∃ n, HasText n ∧ HasText (n - 1) ∧
    start = String.ofList (dateText n)) (hday : dayBefore start = some day) (hd : IsDate d) :
    d ≤ day ↔ d < start := by
  obtain ⟨n, hn, hn', rfl⟩ := hstart
  obtain ⟨m, hm, rfl⟩ := hd
  rw [dayBefore, parseDay_dateText hn, Option.map_some] at hday
  obtain rfl := Option.some.inj hday
  rw [← not_lt, lt_dateText hn' hm, lt_dateText hm hn]
  omega

end Dates

section Closing

variable {src : Source} {q : OpenItemsQuery} {contactId : Id}

theorem forwardLines_closing (src : Source) (contactId : Id) : ∀ (txns : List Txn) (running : Dec),
    ((src.forwardLines contactId running txns).getLast?.map StatementLine.balance).getD
      (round2 running) = round2 (running + (txns.map (src.clientAmount contactId)).sum)
  | [], running => by simp [Source.forwardLines]
  | t :: txns, running => by
    rw [Source.forwardLines, List.getLast?_cons, List.map_cons, List.sum_cons, ← add_assoc,
      ← forwardLines_closing src contactId txns]
    cases (src.forwardLines contactId (running + src.clientAmount contactId t) txns).getLast? <;>
      rfl

theorem itemLines_closing : ∀ (items : List OpenItem) (running : Dec),
    ((itemLines running items).getLast?.map StatementLine.balance).getD (round2 running) =
      round2 (running + (items.map OpenItem.openCents).sum)
  | [], running => by simp [itemLines]
  | it :: items, running => by
    rw [itemLines, List.getLast?_cons, List.map_cons, List.sum_cons, ← add_assoc,
      ← itemLines_closing items]
    cases (itemLines (running + it.openCents) items).getLast? <;> rfl

/-- The balance of a client is what the client's transactions post. -/
theorem balance_client (hq : q.contactIds = [contactId]) :
    (src.balance q fun _ => true) = tally (Txn.dated q) (src.clientAmount contactId) src.txns := by
  rw [Source.balance, tally]
  refine congrArg _ (List.map_congr_left fun t _ => ?_)
  rw [Source.arLines, tally_filter, Source.clientAmount]
  refine tally_congr (fun l _ => ?_) fun _ _ _ => rfl
  cases hl : t.contactOf l <;> simp [hq]

/-- What was posted from `start` on. -/
theorem statementTxns_sum (dbOrder : String → String → Ordering) (start : String) :
    ((src.statementTxns contactId dbOrder q start).map (src.clientAmount contactId)).sum =
      tally (Txn.since q start) (src.clientAmount contactId) src.txns := by
  have hperm := List.perm_insertionSort (Txn.earlier dbOrder)
    (src.txns.filter fun t => t.since q start && src.clientAmount contactId t ≠ 0)
  rw [Source.statementTxns, (hperm.map _).sum_eq,
    tally_split (fun t => src.clientAmount contactId t ≠ 0)]
  refine (add_zero _).symm.trans (congrArg₂ (· + ·) rfl ?_)
  refine (List.sum_eq_zero fun y hy => ?_).symm
  obtain ⟨t, ht, rfl⟩ := List.mem_map.mp hy
  have hzero := (List.mem_filter.mp ht).2
  simp only [Bool.and_eq_true, Bool.not_eq_true', decide_eq_false_iff_not, not_not] at hzero
  exact hzero.2

/-- What is posted by a date was posted by the day before the start, or from the start on. -/
theorem balance_forward {start day : String} (hq : q.contactIds = [contactId])
    (hdates : ∀ t ∈ src.txns, IsDate t.txnDate)
    (hday : ∀ d, IsDate d → (d ≤ day ↔ d < start)) (hle : start ≤ q.asOf) :
    (src.balance { q with asOf := day } fun _ => true) +
        tally (Txn.since q start) (src.clientAmount contactId) src.txns =
      src.balance q fun _ => true := by
  rw [balance_client hq, balance_client (q := { q with asOf := day }) hq,
    tally_split (p := Txn.dated q) (fun t => decide (start ≤ t.txnDate)), add_comm]
  refine congrArg₂ (· + ·) rfl (tally_congr (fun t ht => ?_) fun _ _ _ => rfl)
  have hd := hday t.txnDate (hdates t ht)
  rw [Bool.eq_iff_iff]
  simp only [Txn.dated, Bool.and_eq_true, Bool.not_eq_true', decide_eq_true_eq,
    decide_eq_false_iff_not, not_le, hd]
  constructor
  · rintro ⟨hp, hlt, hc⟩
    exact ⟨⟨hp, (hlt.trans_le hle).le, hc⟩, hlt⟩
  · rintro ⟨⟨hp, -, hc⟩, hlt⟩
    exact ⟨hp, hlt, hc⟩

/-- A statement ends with the amount due, the client's balance of receivables. -/
structure Closes (src : Source) (q : OpenItemsQuery) (st : CustomerStatement) : Prop where
  amountDue : st.amountDue = src.balance q fun _ => true
  closing : st.closing = st.amountDue
  difference : st.difference = 0

theorem statement_closes (collate dbOrder : String → String → Ordering) (src : Source)
    (fetch : Fetch) (companyId : Option Id) (q : StatementQuery) (st : CustomerStatement)
    (hids : (src.txns.map fun t => t.id).Nodup) (hcents : src.InPlaces 2)
    (hfetch : ∀ oq, (fetch oq).1.Perm (src.items oq) ∧ (fetch oq).2.Perm (src.moves oq))
    (hdates : ∀ t ∈ src.txns, IsDate t.txnDate)
    (hstart : q.format ≠ .openItem →
      ∃ n, HasText n ∧ HasText (n - 1) ∧ q.startDate = String.ofList (dateText n))
    (hst : buildCustomerStatement collate dbOrder src fetch companyId q = .ok st) :
    Closes src (q.itemsQuery companyId q.asOf) st := by
  have hreport : ∀ asOf : String, _ := fun asOf =>
    report_spec collate hids hcents (rfl : (q.itemsQuery companyId asOf).tagIds = [])
      (hfetch _).1 (hfetch _).2
  have htotal : ∀ asOf : String, _ := fun asOf =>
    report_total collate hids hcents (rfl : (q.itemsQuery companyId asOf).tagIds = [])
      (hfetch _).1 (hfetch _).2
  obtain ⟨hdue, -, hdifference, -⟩ := aging_spec q.asOf (hreport q.asOf).1
  rw [htotal] at hdue
  have hcent : Cents (src.balance (q.itemsQuery companyId q.asOf) fun _ => true) := by
    rw [← htotal]
    refine Places.sum fun y hy => ?_
    obtain ⟨it, hit, rfl⟩ := List.mem_map.mp hy
    rw [((hreport q.asOf).1 it hit).1]
    exact ((hreport q.asOf).1 it hit).2
  unfold buildCustomerStatement at hst
  extract_lets itemsAsOf items aging at hst
  split_ifs at hst with hformat hlt
  · obtain rfl := Except.ok.inj hst
    refine ⟨hdue, ?_, hdifference⟩
    have hclosing := itemLines_closing (items.insertionSort (OpenItem.earlier collate)) 0
    rw [((List.perm_insertionSort _ _).map _).sum_eq, zero_add] at hclosing
    have hsum : (items.map OpenItem.openCents).sum =
        src.balance (q.itemsQuery companyId q.asOf) fun _ => true := by
      rw [← htotal]
      exact congrArg _ (List.map_congr_left fun it hit => ((hreport q.asOf).1 it hit).1.symm)
    rw [hsum, round2_of_cents hcent, round2_of_cents Places.zero] at hclosing
    exact hclosing.trans hdue.symm
  · cases hday : dayBefore q.startDate with
    | none =>
      rw [hday] at hst
      cases hst
    | some day =>
      rw [hday, Option.elim_some] at hst
      obtain rfl := Except.ok.inj hst
      refine ⟨hdue, ?_, hdifference⟩
      have hclosing := forwardLines_closing src q.contactId
        (src.statementTxns q.contactId dbOrder (q.itemsQuery companyId q.asOf) q.startDate)
        ((itemsAsOf day).map OpenItem.openExact).sum
      have hforward : (src.balance (q.itemsQuery companyId day) fun _ => true) + _ = _ :=
        balance_forward (rfl : (q.itemsQuery companyId q.asOf).contactIds = [q.contactId]) hdates
          (fun d hd => le_dayBefore (hstart hformat) hday hd) (not_lt.mp hlt)
      rw [statementTxns_sum, htotal, hforward, round2_of_cents hcent] at hclosing
      refine Eq.trans ?_ (hclosing.trans hdue.symm)
      rw [CustomerStatement.closing, htotal]
      rfl

/-- The statement from the day after the invoice. -/
def paidQuery : StatementQuery where
  contactId := "ann"
  asOf := "2026-04-30"
  format := .balanceForward
  start := some "2026-03-02"

def paidFetch : Fetch := fun q => (paidSource.items q, paidSource.moves q)

theorem statement_closes_paid :
    ∃ st, buildCustomerStatement compare compare paidSource paidFetch none paidQuery = .ok st ∧
      Closes paidSource (paidQuery.itemsQuery none paidQuery.asOf) st := by
  have hok : (buildCustomerStatement compare compare paidSource paidFetch none paidQuery).toBool =
      true := by decide +kernel
  cases hst : buildCustomerStatement compare compare paidSource paidFetch none paidQuery with
  | error e =>
    rw [hst] at hok
    cases hok
  | ok st =>
    refine ⟨st, rfl, statement_closes compare compare paidSource paidFetch none paidQuery st
      (by decide) paidSource_cents (fun _ => ⟨List.Perm.refl _, List.Perm.refl _⟩) (fun t ht => ?_)
      (fun _ => ⟨20514, ⟨by decide +kernel, by decide +kernel⟩,
        ⟨by decide +kernel, by decide +kernel⟩, by decide +kernel⟩) hst⟩
    simp only [paidSource, List.mem_cons, List.not_mem_nil, or_false] at ht
    rcases ht with rfl | rfl
    · exact ⟨20513, ⟨by decide +kernel, by decide +kernel⟩, by decide +kernel⟩
    · exact ⟨20517, ⟨by decide +kernel, by decide +kernel⟩, by decide +kernel⟩

example : (buildCustomerStatement compare compare paidSource paidFetch none paidQuery).toOption.map
    (fun st => (st.openingBalance, st.lines.map fun l => (l.description, l.amount, l.balance),
      st.amountDue)) = some (some 100, [("Payment", -80, 20)], 20) := by
  decide +kernel

end Closing

end OpenItems

end MyBooks
