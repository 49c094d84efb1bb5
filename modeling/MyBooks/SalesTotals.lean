import MyBooks.Allocation
import MyBooks.Entries

/-!
# Tax and totals of a sales document

Lines whose amounts are to the cent are taxed in two ways: at each line's own rate, one group of
lines for each rate, or with one sales tax for the document, whose members are charged together. Tax
is rounded once on a group's base and split over its lines to the cent. On a document with a subtotal
above zero a base below zero is counted as zero and nothing of it is taxed.
-/

namespace MyBooks

inductive SalesError where
  | invalidTaxRate (field : String)
  | taxRateNotBelowOne (field : String)
  | totalTooLarge
  | allocationOutOfRange
  deriving DecidableEq, Repr

/-- A line whose amount is computed to the cent. -/
structure SalesAmountInput where
  amount : CentAmount
  isTaxable : Bool
  taxRate : Option Dec

structure SalesLineResult where
  amount : Dec
  taxRate : Dec
  taxAmount : Dec
  isTaxable : Bool
  deriving DecidableEq, Repr

structure TaxGroup where
  rate : Dec
  base : Dec
  tax : Dec
  deriving DecidableEq, Repr

structure MemberTax where
  itemId : Id
  rate : Dec
  base : Dec
  tax : Dec
  deriving DecidableEq, Repr

structure SalesDocumentResult where
  lines : List SalesLineResult
  subtotal : Dec
  taxableBase : Dec
  taxTotal : Dec
  total : Dec
  taxGroups : List TaxGroup
  salesTaxMembers : Option (List MemberTax)
  deriving DecidableEq, Repr

/-- A rate as a fraction, of six places, from 0 to below 1. -/
abbrev SetupTaxRate := { r : Dec // Places 6 r ∧ 0 ≤ r ∧ r < 1 }

structure SalesTaxMember where
  itemId : Id
  rate : SetupTaxRate

/-- A document's one sales tax: an item, or a group whose members are charged together. -/
structure SalesTaxUnit where
  id : Id
  members : List SalesTaxMember

def MONEY_LIMIT : Dec := 10 ^ 15

def parseSalesTaxRate (value : Dec) (field : String) : Except SalesError Dec :=
  if value < 0 then .error (.invalidTaxRate field)
  else if 1 ≤ toPlaces 6 value then .error (.taxRateNotBelowOne field)
  else .ok (toPlaces 6 value)

def allocateTax (shares : List Dec) (tax : Dec) : Except SalesError (List Dec) :=
  match allocateCents shares tax with
  | .ok cents => .ok cents
  | .error _ => .error .allocationOutOfRange

/-- The lines' taxes with the shares of the lines `idx` filled in. -/
def fillTaxes (taxes : ℕ → Dec) (idx : List ℕ) (shares : List Dec) : ℕ → Dec :=
  (idx.zip shares).foldl (fun taxes p => Function.update taxes p.1 p.2) taxes

section Lines

variable (lines : List SalesAmountInput)

def salesAmounts : List Dec := lines.map (·.amount.val)

/-- The amount of line `i`. -/
def amountAt (i : ℕ) : Dec := (salesAmounts lines).getD i 0

def salesSubtotal : Dec := (salesAmounts lines).sum

def taxableIdx : List ℕ := (lines.zipIdx.filter (·.1.isTaxable)).map (·.2)

def lineResults (rates : ℕ → Dec) (taxes : ℕ → Dec) : List SalesLineResult :=
  lines.zipIdx.map fun p =>
    { amount := round2 p.1.amount.val, taxRate := rates p.2, taxAmount := round2 (taxes p.2)
      isTaxable := p.1.isTaxable }

end Lines

section OneTax

variable (lines : List SalesAmountInput) (taxUnit : SalesTaxUnit)

def SalesTaxUnit.rate : Dec := (taxUnit.members.map (·.rate.val)).sum

def taxableSum : Dec := ((taxableIdx lines).map (amountAt lines)).sum

def computeWithSalesTax : Except SalesError SalesDocumentResult := do
  let rate := taxUnit.rate
  let subtotal := salesSubtotal lines
  let rawBase := taxableSum lines
  let floored := 0 < subtotal ∧ rawBase < 0
  let base := if floored then 0 else rawBase
  let tax := round2 (base * rate)
  let (taxes, memberTax) ←
    if tax = 0 then
      pure (fun _ => 0, taxUnit.members.map fun _ => 0)
    else do
      let shares ← allocateTax ((taxableIdx lines).map fun i => amountAt lines i * rate) tax
      let memberTax ← allocateTax (taxUnit.members.map fun m => base * m.rate.val) tax
      pure (fillTaxes (fun _ => 0) (taxableIdx lines) shares, memberTax)
  let total := subtotal + tax
  if MONEY_LIMIT ≤ |total| then .error .totalTooLarge
  else
    let rateText := toPlaces 6 rate
    return {
      lines := lineResults lines
        (fun i => if (lines[i]?.map (·.isTaxable)).getD false then rateText else 0) taxes
      subtotal := round2 subtotal
      taxableBase := round2 base
      taxTotal := round2 tax
      total := round2 total
      taxGroups :=
        if taxableIdx lines = [] ∨ rate = 0 then [] else [⟨rateText, round2 base, round2 tax⟩]
      salesTaxMembers := some ((taxUnit.members.zip memberTax).map fun p =>
        ⟨p.1.itemId, toPlaces 6 p.1.rate.val, round2 base, round2 p.2⟩) }

end OneTax

section LineRates

variable (lines : List SalesAmountInput)

def lineRate (fallbackRate : Dec) (p : SalesAmountInput × ℕ) : Except SalesError Dec :=
  if !p.1.isTaxable then .ok 0
  else match p.1.taxRate with
    | none => .ok fallbackRate
    | some r => parseSalesTaxRate r s!"lines[{p.2}].taxRate"

/-- The taxable lines of each rate above zero, the rate first seen first. -/
def taxableGroups (rates : ℕ → Dec) : Entries Dec (List ℕ) :=
  (lines.zipIdx.filter fun p => p.1.isTaxable && rates p.2 ≠ 0).foldl
    (fun groups p => groups.update (toPlaces 6 (rates p.2)) fun g => g.getD [] ++ [p.2]) []

/-- The taxable base of each rate. -/
def baseByRate (rates : ℕ → Dec) : Entries Dec Dec :=
  (lines.zipIdx.filter fun p => p.1.isTaxable).foldl
    (fun bases p => bases.update (toPlaces 6 (rates p.2)) fun b => b.getD 0 + amountAt lines p.2) []

/-- The taxes so far. -/
structure TaxState where
  taxes : ℕ → Dec
  taxGroups : List TaxGroup
  taxTotal : Dec

/-- One group of lines is taxed. -/
def taxGroup (floorBases : Bool) (s : TaxState) (g : Dec × List ℕ) : Except SalesError TaxState := do
  let base := (g.2.map (amountAt lines)).sum
  if floorBases && base < 0 then
    return { s with taxGroups := s.taxGroups ++ [⟨g.1, 0, 0⟩] }
  let tax := round2 (base * g.1)
  let shares ← allocateTax (g.2.map fun i => amountAt lines i * g.1) tax
  return { taxes := fillTaxes s.taxes g.2 shares
           taxGroups := s.taxGroups ++ [⟨g.1, round2 base, round2 tax⟩]
           taxTotal := s.taxTotal + tax }

def computeSalesTotals (defaultTaxRate : Option Dec) (salesTax : Option SalesTaxUnit) :
    Except SalesError SalesDocumentResult :=
  match salesTax with
  | some taxUnit => computeWithSalesTax lines taxUnit
  | none => do
    let fallbackRate ← parseSalesTaxRate (defaultTaxRate.getD 0) "defaultTaxRate"
    let rateList ← lines.zipIdx.mapM (lineRate fallbackRate)
    let rates := fun i => rateList.getD i 0
    let subtotal := salesSubtotal lines
    let floorBases : Bool := 0 < subtotal
    let s ← (taxableGroups lines rates).foldlM (taxGroup lines floorBases) ⟨fun _ => 0, [], 0⟩
    let taxableBase := (((baseByRate lines rates).map (·.2)).map fun b =>
      if floorBases && b < 0 then 0 else b).sum
    let total := subtotal + s.taxTotal
    if MONEY_LIMIT ≤ |total| then .error .totalTooLarge
    else
      return {
        lines := lineResults lines (fun i => toPlaces 6 (rates i)) s.taxes
        subtotal := round2 subtotal
        taxableBase := round2 taxableBase
        taxTotal := round2 s.taxTotal
        total := round2 total
        taxGroups := s.taxGroups
        salesTaxMembers := none }

end LineRates

end MyBooks
