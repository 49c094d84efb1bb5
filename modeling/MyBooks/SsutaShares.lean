import MyBooks.Allocation

/-!
# The sales tax of a discount or a write-off

Where a company gives sales tax back on discounts and bad debts, a settlement's discount and write-off
take their part of the tax of each tax item. The part is rounded on the running total of what the
invoice has settled, and split over cash, discount and write-off to the cent by largest remainder.
-/

namespace MyBooks

/-- A tax item of an invoice. -/
structure InvoiceTaxItem where
  tax : Dec
  deriving DecidableEq, Repr

/-- One item's tax share of a settlement's discount and write-off. -/
structure ShareRow where
  discountTax : Dec
  writeOffTax : Dec
  deriving DecidableEq, Repr

/-- The shares of a settlement, item by item. -/
abbrev SettlementShares := List ShareRow

def SettlementShares.discountTax (sh : SettlementShares) : Dec := (sh.map (·.discountTax)).sum
def SettlementShares.writeOffTax (sh : SettlementShares) : Dec := (sh.map (·.writeOffTax)).sum

/-- An item's share of a settlement of `c` cash, `d` discount and `w` write-off. -/
def itemShare (total settledBefore c d w : Dec) (item : InvoiceTaxItem) :
    Except PayError ShareRow :=
  let s := c + d + w
  let share := round2 (timesDividedBy item.tax (settledBefore + s) total) -
    round2 (timesDividedBy item.tax settledBefore total)
  if |share| = 0 then .ok ⟨0, 0⟩
  else do
    let parts ← allocateCents ([c, d, w].map fun x => timesDividedBy x |share| s) |share|
    let sign := if share < 0 then -1 else 1
    return ⟨parts.getD 1 0 * sign, parts.getD 2 0 * sign⟩

def itemShares (total settledBefore c d w : Dec) :
    List InvoiceTaxItem → Except PayError SettlementShares
  | [] => .ok []
  | item :: items => do
    let row ← itemShare total settledBefore c d w item
    let rest ← itemShares total settledBefore c d w items
    return row :: rest

/-- The tax shares of a settlement against an invoice of `total` that had settled `settledBefore`. -/
def settlementShares (items : List InvoiceTaxItem) (total settledBefore c d w : Dec) :
    Except PayError SettlementShares :=
  if ¬0 < d ∧ ¬0 < w then .ok []
  else if total = 0 ∨ ¬0 < c + d + w then .ok []
  else itemShares total settledBefore c d w items

end MyBooks
