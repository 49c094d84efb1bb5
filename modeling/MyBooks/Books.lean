import MyBooks.Rounding
import MyBooks.Walk

/-!
# The books: transactions, journal lines and account balances

Every account keeps a denormalised balance beside its journal lines. Amounts are stored with four
places; sums are made with the 20 significant digits of the source's default decimals. What the
postings write is in `Posting`; here are the tables and what every posting path uses.
-/

namespace MyBooks

inductive TxnType where
  | invoice | customerPayment | cashSale | expense | deposit | transfer | journalEntry | creditMemo
  | customerRefund | bill | vendorCredit | billPayment | dailySales | aje | returnedPayment
  | salesTaxPayment | badDebtRecovery | inventoryAdjustment
  deriving DecidableEq, Repr

inductive TxnStatus where
  | draft | posted | void | deleted
  deriving DecidableEq, Repr

inductive AccountType where
  | asset | liability | equity | revenue | cogs | expense | otherRevenue | otherExpense
  deriving DecidableEq, Repr

/-- The detail types the ledger tells apart. -/
inductive DetailType where
  | bank | accountsReceivable | accountsPayable | creditCard | other
  deriving DecidableEq, Repr

inductive SystemTag where
  | paymentsClearing | undepositedFunds | salesTaxPayable | accountsReceivable | accountsPayable
  | customerDeposits | other
  deriving DecidableEq, Repr

structure Account where
  accountType : AccountType
  detailType : Option DetailType
  systemTag : Option SystemTag
  deriving DecidableEq, Repr

structure Txn where
  txnType : TxnType
  status : TxnStatus
  txnDate : String
  contactId : Option Id
  deriving DecidableEq, Repr

structure JournalLine where
  id : Id
  transactionId : Id
  accountId : Id
  debit : Dec
  credit : Dec
  tagId : Option Id
  /-- A line only the costing walk writes (its role is a derived one). -/
  derived : Bool
  isVoidReversal : Bool
  /-- Billed to a customer. -/
  billed : Bool
  deriving DecidableEq, Repr

structure Books where
  accounts : Id → Option Account
  txns : Id → Option Txn
  lines : List JournalLine
  balance : Id → Dec

/-- Sums and differences of the source's default decimals. -/
def plus (a b : Dec) : Dec := toSig 20 (a + b)
def minus (a b : Dec) : Dec := toSig 20 (a - b)

/-- An amount at the scale the ledger stores. -/
def round4 (v : Dec) : Dec := toPlaces 4 v

/-- What the amount columns hold: fifteen digits before the point. -/
def JournalLine.fits (l : JournalLine) : Bool := |l.debit| < 10 ^ 15 ∧ |l.credit| < 10 ^ 15

/-- An account with what is debited and credited to it. -/
structure Entry where
  accountId : Id
  debit : Dec
  credit : Dec
  deriving DecidableEq, Repr

def JournalLine.reversed (l : JournalLine) : Entry := ⟨l.accountId, l.credit, l.debit⟩

/-- The net delta of the entries on account `a`. -/
def netOf (entries : List Entry) (a : Id) : Dec :=
  (entries.filter (fun e => e.accountId = a)).foldl
    (fun acc e => plus acc (minus e.debit e.credit)) 0

def updateAccountBalances (balance : Id → Dec) (entries : List Entry) : Id → Dec :=
  fun a => if netOf entries a = 0 then balance a else balance a + round4 (netOf entries a)

namespace Books

variable (b : Books)

def status (t : Id) : Option TxnStatus := (b.txns t).map (·.status)

def setTxn (t : Id) (txn : Txn) : Books :=
  { b with txns := fun t' => if t' = t then some txn else b.txns t' }

def linesOf (t : Id) : List JournalLine := b.lines.filter (fun l => l.transactionId = t)

def addLines (new : List JournalLine) : Books := { b with lines := b.lines ++ new }

def dropLines (t : Id) : Books :=
  { b with lines := b.lines.filter (fun l => l.transactionId ≠ t) }

def setStatus (t : Id) (status : TxnStatus) : Books :=
  { b with txns := fun t' =>
      if t' = t then (b.txns t).map fun txn => { txn with status := status } else b.txns t' }

def post (entries : List Entry) : Books :=
  { b with balance := updateAccountBalances b.balance entries }

/-- What account `a` comes to by the stored lines of posted transactions. -/
def ledgerSum (a : Id) : Dec :=
  ((b.lines.filter (fun l => l.accountId = a ∧ b.status l.transactionId = some .posted)).map
    (fun l => l.debit - l.credit)).sum

end Books

section Net

/-- What the entries come to on account `a`, each amount rounded as it is stored. -/
def storedNet (entries : List Entry) (a : Id) : Dec :=
  ((entries.filter (fun e => e.accountId = a)).map (fun e => round4 e.debit - round4 e.credit)).sum

/-- Netting the amounts of each account and rounding once comes to rounding them one by one. -/
def NetsExactly (entries : List Entry) : Prop :=
  ∀ e ∈ entries, round4 (netOf entries e.accountId) = storedNet entries e.accountId

instance (entries : List Entry) : Decidable (NetsExactly entries) :=
  inferInstanceAs (Decidable (∀ e ∈ entries, _))

theorem netsExactly_iff {entries : List Entry} :
    NetsExactly entries ↔ ∀ a, round4 (netOf entries a) = storedNet entries a := by
  refine ⟨fun h a => ?_, fun h e _ => h e.accountId⟩
  by_cases ha : ∃ e ∈ entries, e.accountId = a
  · obtain ⟨e, he, rfl⟩ := ha
    exact h e he
  · have hnil : entries.filter (fun e => e.accountId = a) = [] := by
      simpa using ha
    rw [netOf, storedNet, hnil]
    exact toPlaces_zero

theorem updateAccountBalances_eq {balance : Id → Dec} {entries : List Entry}
    (h : NetsExactly entries) (a : Id) :
    updateAccountBalances balance entries a = balance a + storedNet entries a := by
  have ha := netsExactly_iff.mp h a
  unfold updateAccountBalances
  split_ifs with h0
  · rw [← ha, h0, round4, toPlaces_zero, add_zero]
  · rw [ha]

@[simp] theorem storedNet_nil (a : Id) : storedNet [] a = 0 := rfl

/-- Amounts that fit the column, and whose sum fits 20 digits: below `10 ^ 16`. -/
structure FitsDigits (entries : List Entry) : Prop where
  debit : ∀ e ∈ entries, Places 4 e.debit
  credit : ∀ e ∈ entries, Places 4 e.credit
  size : (entries.map (fun e => |e.debit| + |e.credit|)).sum < 10 ^ 16

theorem toSig_20 {x : Dec} (hx : Places 4 x) (h : |x| < 10 ^ 16) : toSig 20 x = x :=
  toSig_of_places hx (by linarith)

/-- Within 20 digits the sums are exact. -/
theorem foldl_plus {α : Type} (f : α → Dec) : ∀ (xs : List α) (acc : Dec), Places 4 acc →
    (∀ x ∈ xs, Places 4 (f x)) → |acc| + (xs.map fun x => |f x|).sum < 10 ^ 16 →
    xs.foldl (fun acc x => plus acc (f x)) acc = acc + (xs.map f).sum
  | [], acc, _, _, _ => by simp
  | x :: xs, acc, hacc, hf, hsize => by
    have hx := hf x List.mem_cons_self
    rw [List.map_cons, List.sum_cons] at hsize
    have hrest : 0 ≤ (xs.map fun x => |f x|).sum :=
      List.sum_nonneg (by
        intro y hy
        obtain ⟨x', -, rfl⟩ := List.mem_map.mp hy
        exact abs_nonneg _)
    have hsum := abs_add_le acc (f x)
    have hstep : plus acc (f x) = acc + f x := toSig_20 (hacc.add hx) (by linarith)
    rw [List.foldl_cons, hstep, foldl_plus f xs _ (hacc.add hx)
      (fun x' hx' => hf x' (List.mem_cons_of_mem _ hx')) (by linarith), List.map_cons,
      List.sum_cons, add_assoc]

/-- A sum of absolute amounts over some of the entries is no larger. -/
theorem sum_map_filter_le {α : Type} (p : α → Bool) {f : α → Dec} (hf : ∀ x, 0 ≤ f x)
    (xs : List α) : ((xs.filter p).map f).sum ≤ (xs.map f).sum := by
  refine (List.filter_sublist.map f).sum_le_sum fun y hy => ?_
  obtain ⟨x, -, rfl⟩ := List.mem_map.mp hy
  exact hf x

theorem abs_sum_map_le {α : Type} (f : α → Dec) (xs : List α) :
    |(xs.map f).sum| ≤ (xs.map fun x => |f x|).sum := by
  simpa [Function.comp_def] using Multiset.abs_sum_le_sum_abs (s := (xs.map f : Multiset Dec))

theorem le_sum_map {α : Type} {f : α → Dec} (hf : ∀ x, 0 ≤ f x) {xs : List α} {x : α}
    (hx : x ∈ xs) : f x ≤ (xs.map f).sum :=
  List.single_le_sum (by
    intro y hy
    obtain ⟨x', -, rfl⟩ := List.mem_map.mp hy
    exact hf x') _ (List.mem_map_of_mem hx)

theorem FitsDigits.netsExactly {entries : List Entry} (h : FitsDigits entries) :
    NetsExactly entries := by
  refine netsExactly_iff.mpr fun a => ?_
  set es := entries.filter (fun e => e.accountId = a)
  have hmem : ∀ e ∈ es, e ∈ entries := fun e he => List.mem_of_mem_filter he
  have hnonneg : ∀ e : Entry, 0 ≤ |e.debit| + |e.credit| := fun e => by positivity
  have hdiff : ∀ e ∈ es, minus e.debit e.credit = e.debit - e.credit := fun e he =>
    toSig_20 ((h.debit e (hmem e he)).sub (h.credit e (hmem e he)))
      (((abs_sub _ _).trans (le_sum_map hnonneg (hmem e he))).trans_lt h.size)
  have hplaces : ∀ e ∈ es, Places 4 (minus e.debit e.credit) := fun e he => by
    rw [hdiff e he]
    exact (h.debit e (hmem e he)).sub (h.credit e (hmem e he))
  have hsize : (es.map fun e => |minus e.debit e.credit|).sum < 10 ^ 16 :=
    calc (es.map fun e => |minus e.debit e.credit|).sum
        ≤ (es.map fun e => |e.debit| + |e.credit|).sum :=
          List.sum_le_sum fun e he => by
            rw [hdiff e he]
            exact abs_sub _ _
      _ ≤ (entries.map fun e => |e.debit| + |e.credit|).sum := sum_map_filter_le _ hnonneg _
      _ < 10 ^ 16 := h.size
  have hnet : netOf entries a = (es.map fun e => minus e.debit e.credit).sum := by
    rw [netOf, foldl_plus _ _ 0 Places.zero hplaces (by simpa using hsize), zero_add]
  have hstored : storedNet entries a = (es.map fun e => minus e.debit e.credit).sum := by
    refine congrArg List.sum (List.map_congr_left fun e he => ?_)
    rw [hdiff e he, round4, round4, toPlaces_of_places (h.debit e (hmem e he)),
      toPlaces_of_places (h.credit e (hmem e he))]
  rw [hnet, hstored]
  refine toPlaces_of_places (Places.sum fun x hx => ?_)
  obtain ⟨e, he, rfl⟩ := List.mem_map.mp hx
  exact hplaces e he

end Net

end MyBooks
