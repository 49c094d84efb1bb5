import MyBooks.SalesTotals
import MyBooks.Books
import MyBooks.Result

/-!
# Pricing an invoice

`computeInvoice` prices the lines of an invoice from the first to the last. Money lines and billable
costs add to a group, a subtotal line shows the group and starts the next, and a discount takes its
part of the group, or of the subtotal right above it less the discounts between. The lines are then
taxed and totalled, subtotals left out.
-/

namespace MyBooks

inductive SalesItemType where
  | service | nonInventory | otherCharge | discount | subtotal | inventoryPart
  deriving DecidableEq, Repr

inductive UnitPriceSource where
  | input | item | priceLevel | priceLevelPercent | none | billableCost
  deriving DecidableEq, Repr

inductive InvoiceError where
  | invalid (message : String)
  | sales (e : SalesError)
  deriving DecidableEq, Repr

/-- The item a line names. -/
structure PricingItem where
  id : Id
  type : SalesItemType
  unitPrice : Option Dec
  discountPercent : Option Dec
  deriving DecidableEq, Repr

/-- A client's price level: a signed percent, and fixed prices of items. -/
structure PricingLevel where
  percent : Dec
  itemPrices : Id → Option Dec

/-- A billable cost's figures on an invoice. -/
structure BillableFigures where
  amount : CentAmount
  quantity : Dec
  displayRate : Dec

structure InvoiceComputeLineInput where
  item : Option PricingItem := none
  quantity : Option Dec := none
  unitPrice : Option Dec := none
  discountPercent : Option Dec := none
  isTaxable : Bool
  taxRate : Option Dec := none
  billable : Option BillableFigures := none

/-- A line's figures before tax. -/
structure PricedLine where
  itemType : Option SalesItemType
  quantity : Option Dec
  unitPrice : Option Dec
  unitPriceSource : UnitPriceSource
  discountPercent : Option Dec
  amount : CentAmount
  isTaxable : Bool

structure InvoiceComputeLine extends PricedLine where
  taxRate : Dec
  taxAmount : Dec

structure InvoiceComputeResult where
  lines : List InvoiceComputeLine
  subtotal : Dec
  taxableBase : Dec
  taxTotal : Dec
  total : Dec
  taxGroups : List TaxGroup
  salesTaxMembers : Option (List MemberTax)

/-- An amount rounded to the cent. -/
def centAmount (x : Dec) : CentAmount := ⟨round2 x, Cents.round2 x⟩

section Parse

variable (value : Dec) (field : String)

def parseSalesQuantity : Except InvoiceError Dec :=
  if round4 value = value ∧ |value| < 10 ^ 8 then .ok value
  else .error (.invalid
    (field ++ " must be a quantity below 100,000,000 with at most 4 decimal places"))

def parseSalesUnitPrice : Except InvoiceError Dec :=
  if round4 value = value ∧ |value| < 10 ^ 15 then .ok value
  else .error (.invalid (field ++ " must be a price with at most 4 decimal places"))

/-- Above 0 and at most 100. -/
def parseDiscountPercent : Except InvoiceError Dec :=
  if ¬(round4 value = value ∧ 0 ≤ value ∧ value < 1000) then
    .error (.invalid
      (field ++ " must be a percent above 0 and at most 100, with at most 4 decimal places"))
  else if value ≤ 0 ∨ 100 < value then
    .error (.invalid (field ++ " must be a percent above 0 and at most 100"))
  else .ok value

/-- From -100 to 1000. -/
def parseLevelPercent : Except InvoiceError Dec :=
  if ¬(round4 value = value ∧ |value| < 10000) then
    .error (.invalid
      (field ++ " must be a percent with at most 4 decimal places, such as -7.5 or 10"))
  else if value < -100 ∨ 1000 < value then
    .error (.invalid (field ++ " must be from -100 to 1000"))
  else .ok value

end Parse

def priceLevelPrice (base percent : Dec) : Except InvoiceError Dec := do
  let b ← parseSalesUnitPrice base "unitPrice"
  let p ← parseLevelPercent percent "percent"
  return round2 (b * (1 + p / 100))

/-- The price a line gives, else the level's for the item, else the item's. -/
def itemLinePrice (l : InvoiceComputeLineInput) (level : Option PricingLevel) (field : String) :
    Except InvoiceError (Dec × UnitPriceSource) :=
  let itemPrice : Except InvoiceError (Dec × UnitPriceSource) :=
    match l.item with
    | none => .error (.invalid (field ++ ".unitPrice is required"))
    | some item =>
      match item.unitPrice with
      | some price => .ok (price, .item)
      | none => .error (.invalid (field ++ ".unitPrice is required: the item has no price"))
  match l.unitPrice, l.item, level with
  | some price, _, _ => .ok (price, .input)
  | none, some item, some level =>
    match level.itemPrices item.id, item.unitPrice with
    | some fixed, _ => .ok (round2 fixed, .priceLevel)
    | none, some price => do
      let price ← priceLevelPrice price level.percent
      return (price, .priceLevelPercent)
    | none, none => itemPrice
  | none, _, _ => itemPrice

/-- Quantity times price, to the cent. -/
def salesLineAmount (quantity unitPrice : Dec) (field : String) : Except InvoiceError CentAmount := do
  let quantity ← parseSalesQuantity quantity (field ++ ".quantity")
  let unitPrice ← parseSalesUnitPrice unitPrice (field ++ ".unitPrice")
  if MONEY_LIMIT ≤ |round2 (quantity * unitPrice)| then
    .error (.invalid (field ++ ": quantity x unitPrice is too large"))
  else return centAmount (quantity * unitPrice)

/-- The lines so far, the group since the last subtotal, and what of a subtotal right above is left for
a discount. -/
structure Pricing where
  out : List PricedLine := []
  group : Dec := 0
  lastSubtotal : Option Dec := none

section Lines

variable (l : InvoiceComputeLineInput) (field : String)

def billableLine (b : BillableFigures) : PricedLine where
  itemType := l.item.map (·.type)
  quantity := some b.quantity
  unitPrice := some b.displayRate
  unitPriceSource := .billableCost
  discountPercent := none
  amount := b.amount
  isTaxable := l.isTaxable

def moneyLine (level : Option PricingLevel) : Except InvoiceError PricedLine := do
  let quantity := l.quantity.getD 1
  let _ ← parseSalesQuantity quantity (field ++ ".quantity")
  let (unitPrice, source) ← itemLinePrice l level field
  let amount ← salesLineAmount quantity unitPrice field
  return { itemType := l.item.map (·.type), quantity := some quantity, unitPrice := some unitPrice
           unitPriceSource := source, discountPercent := none, amount := amount
           isTaxable := l.isTaxable }

/-- What a percent takes of a base: nothing of one that is not above zero. -/
def percentOff (base p : Dec) : CentAmount :=
  if 0 < base then ⟨-round2 (base * p / 100), (Cents.round2 _).neg⟩ else ⟨0, Places.zero⟩

def percentDiscount (item : PricingItem) (base percent : Dec) : Except InvoiceError PricedLine := do
  let p ← parseDiscountPercent percent (field ++ ".discountPercent")
  return { itemType := some item.type, quantity := none, unitPrice := none
           unitPriceSource := if l.discountPercent.isSome then .input else .item
           discountPercent := some p, amount := percentOff base p, isTaxable := l.isTaxable }

def amountDiscount (item : PricingItem) : Except InvoiceError PricedLine :=
  match l.unitPrice.or item.unitPrice with
  | none => .error (.invalid (field ++
      ": the discount item has no percent or amount; send discountPercent or unitPrice"))
  | some raw => do
    let price ← parseSalesUnitPrice raw (field ++ ".unitPrice")
    return { itemType := some item.type, quantity := none, unitPrice := some (-round2 |price|)
             unitPriceSource := if l.unitPrice.isSome then .input else .item
             discountPercent := none, amount := ⟨-round2 |price|, (Cents.round2 _).neg⟩
             isTaxable := l.isTaxable }

/-- A discount: by the line's percent or amount, else by the item's percent, else by its amount. -/
def discountLine (item : PricingItem) (base : Dec) : Except InvoiceError PricedLine :=
  if l.discountPercent.isSome ∧ l.unitPrice.isSome then
    .error (.invalid (field ++ ": send discountPercent or unitPrice for a discount, not both"))
  else
    match l.discountPercent.or (if l.unitPrice.isSome then none else item.discountPercent) with
    | some percent => percentDiscount l field item base percent
    | none => amountDiscount l field item

def subtotalLine (group : Dec) : PricedLine where
  itemType := some .subtotal
  quantity := none
  unitPrice := none
  unitPriceSource := .none
  discountPercent := none
  amount := centAmount group
  isTaxable := false

variable (s : Pricing)

def Pricing.pushMoney (o : PricedLine) : Pricing :=
  ⟨s.out ++ [o], s.group + o.amount.val, none⟩

def Pricing.pushSubtotal : Pricing :=
  ⟨s.out ++ [subtotalLine s.group], 0, some s.group⟩

/-- The next discount under a subtotal takes what the ones above it leave. -/
def Pricing.pushDiscount (o : PricedLine) : Pricing :=
  ⟨s.out ++ [o], s.group + o.amount.val, s.lastSubtotal.map (· + o.amount.val)⟩

/-- The next line. -/
def priceLine (level : Option PricingLevel) : Except InvoiceError Pricing :=
  match l.billable, l.item with
  | some b, _ => .ok (s.pushMoney (billableLine l b))
  | none, none => do
    let o ← moneyLine l field level
    return s.pushMoney o
  | none, some item =>
    match item.type with
    | .subtotal => .ok s.pushSubtotal
    | .discount => do
      let o ← discountLine l field item (s.lastSubtotal.getD s.group)
      return s.pushDiscount o
    | _ => do
      let o ← moneyLine l field level
      return s.pushMoney o

end Lines

def priceLines (level : Option PricingLevel) (lines : List InvoiceComputeLineInput) :
    Except InvoiceError Pricing :=
  lines.zipIdx.foldlM (fun s p => priceLine p.1 s!"lines[{p.2}]" s level) {}

/-- What is taxed and totalled of a priced line: nothing of a subtotal. -/
def salesAmount (taxRate : Option Dec) (o : PricedLine) : SalesAmountInput :=
  if o.itemType = some .subtotal then ⟨⟨0, Places.zero⟩, false, none⟩
  else ⟨o.amount, o.isTaxable, taxRate⟩

def computeInvoice (lines : List InvoiceComputeLineInput) (defaultTaxRate : Option Dec)
    (level : Option PricingLevel) (salesTax : Option SalesTaxUnit) :
    Except InvoiceError InvoiceComputeResult := do
  let s ← priceLines level lines
  match computeSalesTotals (List.zipWith (fun l o => salesAmount l.taxRate o) lines s.out)
    defaultTaxRate salesTax with
  | .error e => .error (.sales e)
  | .ok totals =>
    return { lines := List.zipWith (fun o t =>
               { o with taxRate := t.taxRate, taxAmount := t.taxAmount }) s.out totals.lines
             subtotal := totals.subtotal, taxableBase := totals.taxableBase
             taxTotal := totals.taxTotal, total := totals.total, taxGroups := totals.taxGroups
             salesTaxMembers := totals.salesTaxMembers }

end MyBooks
