import MyBooks.Entries
import MyBooks.FirstFit
import MyBooks.Result

/-!
# Billed lines through an edit

An edit deletes a transaction's lines and inserts new ones. `planBillableColumns` carries what was
billed to a customer over to the new lines, and refuses the edit where a billed line has no line
left to go to. Amounts are compared as numbers, so two lines that take one billed line take the same
ones, and its first fit finds every pairing there is (`planBillableColumns_identity`).
-/

namespace MyBooks

/-- A value of the decimal type. -/
inductive Decimal
  | finite (x : ℚ)
  | infinite (negative : Bool)
  | nan
  deriving DecidableEq

def Decimal.equals : Decimal → Decimal → Bool
  | .nan, _ => false
  | x, y => x = y

theorem Decimal.equals_iff {x y : Decimal} : x.equals y = true ↔ x = y ∧ x ≠ .nan := by
  cases x with
  | nan => simp [equals]
  | finite x => simp [equals]
  | infinite s => simp [equals]

inductive BilledStatus
  | unbilled
  | billed
  deriving DecidableEq

structure BillableCols where
  id : Option String
  isBillable : Bool
  billedStatus : Option BilledStatus
  deriving DecidableEq

/-- What the plan reads of a new line. -/
structure LedgerLine where
  accountId : String
  debit : Option String
  credit : Option String
  contactId : Option String
  isBillable : Option Bool

structure BilledLine where
  id : String
  accountId : String
  debit : Option String
  credit : Option String
  contactId : Option String
  deriving DecidableEq

inductive LineError
  | decimal (text : String)
  /-- 409 LINE_BILLED. -/
  | lineBilled (lineId accountId : String)
  deriving DecidableEq

def billedLineConflict (b : BilledLine) : LineError := .lineBilled b.id b.accountId

def billableColumns (l : LedgerLine) : BillableCols :=
  if l.isBillable = some true then ⟨none, true, some .unbilled⟩ else ⟨none, false, none⟩

section Plan

/- The reader of decimals, `none` where it throws, and the lines by their references: two lines of
the input may read the same and are still two. -/
variable (read : String → Option Decimal) {Ref : Type} [DecidableEq Ref] (line : Ref → LedgerLine)

/-- The text an amount is read from; a missing or empty one is zero. -/
def amountText (v : Option String) : String := if v.getD "" = "" then "0" else v.getD ""

def amt (v : Option String) : Except LineError Decimal :=
  match read (amountText v) with
  | some x => .ok x
  | none => .error (.decimal (amountText v))

/-- The test of the plan's `find`, amounts last. -/
def carriesBilled (l : LedgerLine) (b : BilledLine) : Except LineError Bool := do
  if l.isBillable = some true ∧ l.accountId = b.accountId ∧ l.contactId = b.contactId then
    if (← amt read l.debit).equals (← amt read b.debit) then
      return (← amt read l.credit).equals (← amt read b.credit)
    else return false
  else return false

/-- A turn of the loop over the billed lines. -/
def carryBilled (inputLines : List Ref) (carried : Entries Ref String) (b : BilledLine) :
    Except LineError (Entries Ref String) := do
  let found ← inputLines.findM? fun l =>
    if (carried.get? l).isSome then .ok false else carriesBilled read (line l) b
  match found with
  | none => throw (billedLineConflict b)
  | some l => return carried.set l b.id

def planBillableColumns (inputLines : List Ref) (billedLines : List BilledLine) :
    Except LineError (Ref → BillableCols) := do
  let carried ← billedLines.foldlM (carryBilled read line inputLines) []
  return fun l =>
    match carried.get? l with
    | some id => if id = "" then billableColumns (line l) else ⟨some id, true, some .billed⟩
    | none => billableColumns (line l)

section Pairing

/-- The new line is billable and has the billed line's account, customer, debit and credit. -/
def CarriesBilled (l : LedgerLine) (b : BilledLine) : Prop :=
  l.isBillable = some true ∧ l.accountId = b.accountId ∧ l.contactId = b.contactId ∧
    (∃ x y, amt read l.debit = .ok x ∧ amt read b.debit = .ok y ∧ x.equals y = true) ∧
      ∃ x y, amt read l.credit = .ok x ∧ amt read b.credit = .ok y ∧ x.equals y = true

/-- The reader makes a value of both amounts. -/
def ReadableAmounts (debit credit : Option String) : Prop :=
  (∃ x, amt read debit = .ok x) ∧ ∃ x, amt read credit = .ok x

variable {read line} {l l' : LedgerLine} {b b' : BilledLine}

theorem carriesBilled_iff : carriesBilled read l b = .ok true ↔ CarriesBilled read l b := by
  unfold carriesBilled CarriesBilled
  split_ifs with hsame
  · simp only [bind_eq_ok, hsame, true_and]
    constructor
    · rintro ⟨x, hx, y, hy, h⟩
      split_ifs at h with hdebit
      · simp only [bind_eq_ok, pure_eq_ok] at h
        obtain ⟨z, hz, w, hw, h⟩ := h
        exact ⟨⟨x, y, hx, hy, hdebit⟩, z, w, hz, hw, h⟩
      · cases h
    · rintro ⟨⟨x, y, hx, hy, hdebit⟩, z, w, hz, hw, hcredit⟩
      refine ⟨x, hx, y, hy, ?_⟩
      rw [if_pos hdebit, hz, hw]
      exact congrArg Except.ok hcredit
  · refine ⟨fun h => (by cases h), fun h => absurd ⟨h.1, h.2.1, h.2.2.1⟩ hsame⟩

/-- Lines that carry one billed line carry the same billed lines. -/
theorem CarriesBilled.share (h : CarriesBilled read l b) (h' : CarriesBilled read l b')
    (hl : CarriesBilled read l' b) : CarriesBilled read l' b' := by
  have same : ∀ {v v' w w' : Option String},
      (∃ x y, amt read v = .ok x ∧ amt read w = .ok y ∧ x.equals y = true) →
        (∃ x y, amt read v = .ok x ∧ amt read w' = .ok y ∧ x.equals y = true) →
          (∃ x y, amt read v' = .ok x ∧ amt read w = .ok y ∧ x.equals y = true) →
            ∃ x y, amt read v' = .ok x ∧ amt read w' = .ok y ∧ x.equals y = true := by
    rintro v v' w w' ⟨x, y, hv, hw, hxy⟩ ⟨x', y', hv', hw', hxy'⟩ ⟨z, y'', hz, hw'', hzy⟩
    obtain rfl : x = x' := Except.ok.inj (hv.symm.trans hv')
    obtain rfl : y = y'' := Except.ok.inj (hw.symm.trans hw'')
    rw [Decimal.equals_iff] at hxy hxy' hzy
    exact ⟨z, y', hz, hw', Decimal.equals_iff.mpr
      ⟨hzy.1.trans (hxy.1.symm.trans hxy'.1), hzy.2⟩⟩
  obtain ⟨-, ha, hc, hdebit, hcredit⟩ := h
  obtain ⟨-, ha', hc', hdebit', hcredit'⟩ := h'
  obtain ⟨hl, hal, hcl, hdebitl, hcreditl⟩ := hl
  exact ⟨hl, hal.trans (ha.symm.trans ha'), hcl.trans (hc.symm.trans hc'),
    same hdebit hdebit' hdebitl, same hcredit hcredit' hcreditl⟩

theorem carriesBilled_ok (hl : ReadableAmounts read l.debit l.credit)
    (hb : ReadableAmounts read b.debit b.credit) : ∃ v, carriesBilled read l b = .ok v := by
  obtain ⟨⟨x, hx⟩, z, hz⟩ := hl
  obtain ⟨⟨y, hy⟩, w, hw⟩ := hb
  unfold carriesBilled
  rw [hx, hy, hz, hw]
  simp only [ok_bind]
  split_ifs
  · exact ⟨_, rfl⟩
  · exact ⟨_, rfl⟩
  · exact ⟨_, rfl⟩

end Pairing

section Loop

variable {read line} {inputLines : List Ref}

/-- The search of one turn, its test with the lines that are taken left out. -/
theorem carries_free_iff {carried : Entries Ref String} {b : BilledLine} {r : Ref} :
    (if (carried.get? r).isSome then .ok false else carriesBilled read (line r) b) = .ok true ↔
      (carried.get? r).isSome = false ∧ carriesBilled read (line r) b = .ok true := by
  split_ifs with h
  · simp [h]
  · simp [h]

theorem foldlM_carryBilled : ∀ {billedLines : List BilledLine} (taken : List Ref)
    {carried carried' : Entries Ref String},
    (∀ r, r ∈ taken ↔ (carried.get? r).isSome = true) →
      billedLines.foldlM (carryBilled read line inputLines) carried = .ok carried' →
        ∃ places,
          firstFit (fun b r => carriesBilled read (line r) b = .ok true) inputLines taken
              billedLines = some places ∧
            (places.zip billedLines).foldl (fun m e => m.set e.1 e.2.id) carried = carried'
  | [], taken, carried, carried', _, h => ⟨[], rfl, Except.ok.inj h⟩
  | b :: billedLines, taken, carried, carried', htaken, h => by
    obtain ⟨carried₁, hturn, h⟩ := foldlM_cons_ok.mp h
    rw [carryBilled, bind_eq_ok] at hturn
    obtain ⟨found, hfound, hturn⟩ := hturn
    cases found with
    | none => cases hturn
    | some r =>
      obtain rfl : carried.set r b.id = carried₁ := Except.ok.inj hturn
      have hfind := find?_of_findM? hfound
      simp only [carries_free_iff] at hfind
      obtain ⟨places, hplaces, hfold⟩ := foldlM_carryBilled (r :: taken)
        (by
          intro q
          rw [List.mem_cons, htaken, Entries.get?_set]
          by_cases hq : r = q
          · simp [hq]
          · simp [hq, Ne.symm hq]) h
      refine ⟨r :: places, firstFit_cons_eq_some.mpr ⟨r, places, ?_, hplaces, rfl⟩, hfold⟩
      rw [← hfind]
      congr 1
      funext q
      simp [htaken]

/-- With numbers for amounts, the loop gets as far as first fit does. -/
theorem foldlM_carryBilled_ok
    (hlines : ∀ r ∈ inputLines, ReadableAmounts read (line r).debit (line r).credit) :
    ∀ {billedLines : List BilledLine} (taken : List Ref) {places : List Ref}
        (carried : Entries Ref String),
      (∀ b ∈ billedLines, ReadableAmounts read b.debit b.credit) →
        (∀ r, r ∈ taken ↔ (carried.get? r).isSome = true) →
          firstFit (fun b r => carriesBilled read (line r) b = .ok true) inputLines taken
              billedLines = some places →
            ∃ carried', billedLines.foldlM (carryBilled read line inputLines) carried = .ok carried'
  | [], _, _, carried, _, _, _ => ⟨carried, rfl⟩
  | b :: billedLines, taken, places, carried, hbilled, htaken, h => by
    obtain ⟨r, rest, hfind, hrest, -⟩ := firstFit_cons_eq_some.mp h
    obtain ⟨o, ho⟩ := findM?_ok inputLines
      (p := fun r => if (carried.get? r).isSome then .ok false else carriesBilled read (line r) b)
      (by
        intro q hq
        split_ifs
        · exact ⟨false, rfl⟩
        · exact carriesBilled_ok (hlines q hq) (hbilled b List.mem_cons_self))
    have hfound := find?_of_findM? ho
    simp only [carries_free_iff] at hfound
    have hor : o = some r := by
      rw [← hfound, ← hfind]
      congr 1
      funext q
      simp [htaken]
    have hturn : carryBilled read line inputLines carried b = .ok (carried.set r b.id) := by
      rw [carryBilled, ho, hor]
      rfl
    obtain ⟨carried', hfold⟩ := foldlM_carryBilled_ok hlines (r :: taken)
      (carried.set r b.id) (fun c hc => hbilled c (List.mem_cons_of_mem _ hc))
      (by
        intro q
        rw [List.mem_cons, htaken, Entries.get?_set]
        by_cases hq : r = q
        · simp [hq]
        · simp [hq, Ne.symm hq]) hrest
    exact ⟨carried', foldlM_cons_ok.mpr ⟨_, hturn, hfold⟩⟩

end Loop

section Edit

variable {read line} {inputLines : List Ref} {billedLines : List BilledLine}

/-- The ids are what a primary key holds: none is empty and no two are the same. -/
structure KeyIds (billedLines : List BilledLine) : Prop where
  nodup : (billedLines.map BilledLine.id).Nodup
  ne_empty : ∀ b ∈ billedLines, b.id ≠ ""

/-- What a plan that is made says of a line. -/
theorem planBillableColumns_eq_ok {cols : Ref → BillableCols}
    (h : planBillableColumns read line inputLines billedLines = .ok cols) :
    ∃ places,
      Placement (fun b r => CarriesBilled read (line r) b) inputLines [] billedLines places ∧
      ∀ r, cols r =
        match Entries.get? ((places.zip billedLines).map fun e => (e.1, e.2.id)) r with
        | some id => if id = "" then billableColumns (line r) else ⟨some id, true, some .billed⟩
        | none => billableColumns (line r) := by
  rw [planBillableColumns, bind_eq_ok] at h
  obtain ⟨carried, hfold, h⟩ := h
  obtain ⟨places, hplaces, rfl⟩ := foldlM_carryBilled [] (by simp) hfold
  have hplaced := firstFit_placement hplaces
  simp only [carriesBilled_iff] at hplaced
  have hlength := hplaced.fit.length_eq
  have hset : (places.zip billedLines).foldl (fun m e => Entries.set m e.1 e.2.id) [] =
      (places.zip billedLines).map fun e => (e.1, e.2.id) := by
    rw [Entries.foldl_set_of_nodup (fun e : Ref × BilledLine => e.1) fun e => e.2.id]
    · rfl
    · rw [Entries.keys_nil, List.nil_append, List.map_fst_zip hlength.ge]
      exact hplaced.nodup
  refine ⟨places, hplaced, fun r => ?_⟩
  rw [← Except.ok.inj h, ← hset]

theorem planBillableColumns_ok_iff
    (hlines : ∀ r ∈ inputLines, ReadableAmounts read (line r).debit (line r).credit)
    (hbilled : ∀ b ∈ billedLines, ReadableAmounts read b.debit b.credit) :
    (∃ cols, planBillableColumns read line inputLines billedLines = .ok cols) ↔
      ∃ places,
        Placement (fun b r => CarriesBilled read (line r) b) inputLines [] billedLines places := by
  constructor
  · rintro ⟨cols, h⟩
    obtain ⟨places, hplaces, -⟩ := planBillableColumns_eq_ok h
    exact ⟨places, hplaces⟩
  · rintro ⟨places, hplaces⟩
    simp only [← carriesBilled_iff] at hplaces
    obtain ⟨places', hfit⟩ := exists_firstFit
      (fun b b' r r' h1 h2 h3 => by
        rw [carriesBilled_iff] at h1 h2 h3 ⊢
        exact h1.share h2 h3) hplaces
    obtain ⟨carried, hfold⟩ := foldlM_carryBilled_ok hlines [] [] hbilled (by simp) hfit
    exact ⟨_, by rw [planBillableColumns, hfold, ok_bind]; rfl⟩

/-- The plan succeeds where the billed lines have a pairing at all. Then each billed id is on one
line, which carries it, and the other lines get what a new line gets. -/
theorem planBillableColumns_identity (hkeys : KeyIds billedLines)
    (hlines : ∀ r ∈ inputLines, ReadableAmounts read (line r).debit (line r).credit)
    (hbilled : ∀ b ∈ billedLines, ReadableAmounts read b.debit b.credit) :
    ((∃ cols, planBillableColumns read line inputLines billedLines = .ok cols) ↔
      ∃ places,
        Placement (fun b r => CarriesBilled read (line r) b) inputLines [] billedLines places) ∧
      ∀ cols, planBillableColumns read line inputLines billedLines = .ok cols →
        (∀ b ∈ billedLines, ∃ r ∈ inputLines, CarriesBilled read (line r) b ∧
          cols r = ⟨some b.id, true, some .billed⟩ ∧
            ∀ q ∈ inputLines, (cols q).id = some b.id → q = r) ∧
          ∀ r ∈ inputLines, (∃ b ∈ billedLines, (cols r).id = some b.id) ∨
            cols r = if (line r).isBillable = some true then ⟨none, true, some .unbilled⟩
              else ⟨none, false, none⟩ := by
  refine ⟨planBillableColumns_ok_iff hlines hbilled, fun cols h => ?_⟩
  obtain ⟨places, hplaced, hcols⟩ := planBillableColumns_eq_ok h
  have hlength := hplaced.fit.length_eq
  set pairs := places.zip billedLines with hpairs
  have hfit : ∀ e ∈ pairs, CarriesBilled read (line e.1) e.2 := fun e he =>
    (List.forall₂_iff_zip.mp hplaced.fit.flip).2 he
  have hplaces : (pairs.map Prod.fst).Nodup := (List.map_fst_zip hlength.ge).symm ▸ hplaced.nodup
  have hids : pairs.map (fun e => e.2.id) = billedLines.map BilledLine.id := by
    rw [← List.map_snd_zip hlength.le, List.map_map]
    rfl
  have hcol : ∀ e ∈ pairs, cols e.1 = ⟨some e.2.id, true, some .billed⟩ := by
    intro e he
    have hget : Entries.get? (pairs.map fun e => (e.1, e.2.id)) e.1 = some e.2.id := by
      refine (Entries.get?_eq_some ?_).mpr (List.mem_map.mpr ⟨e, he, rfl⟩)
      rw [Entries.keys, List.map_map]
      exact hplaces
    rw [hcols, hget]
    exact if_neg (hkeys.ne_empty e.2 (List.of_mem_zip he).2)
  have hnone : ∀ r, r ∉ pairs.map Prod.fst → cols r = billableColumns (line r) := by
    intro r hr
    rw [hcols, Entries.get?_of_notMem (by simpa [Entries.keys] using hr)]
  refine ⟨fun b hb => ?_, fun r _ => ?_⟩
  · obtain ⟨⟨r, b⟩, hrb, rfl⟩ : ∃ e ∈ pairs, e.2 = b := by
      rw [← List.map_snd_zip hlength.le] at hb
      exact List.mem_map.mp hb
    refine ⟨r, hplaced.mem r (List.of_mem_zip hrb).1, hfit _ hrb, hcol _ hrb, fun q _ hq => ?_⟩
    by_cases hqp : q ∈ pairs.map Prod.fst
    · obtain ⟨⟨q, c⟩, hqc, rfl⟩ := List.mem_map.mp hqp
      rw [hcol _ hqc] at hq
      have hsame := List.inj_on_of_nodup_map (hids ▸ hkeys.nodup) hqc hrb (Option.some.inj hq)
      exact congrArg Prod.fst hsame
    · rw [hnone q hqp, billableColumns] at hq
      split_ifs at hq
  · by_cases hr : r ∈ pairs.map Prod.fst
    · obtain ⟨e, he, rfl⟩ := List.mem_map.mp hr
      exact .inl ⟨e.2, (List.of_mem_zip he).2, by rw [hcol e he]⟩
    · exact .inr (hnone r hr)

/-- A reader of the amounts below. -/
def readTens : String → Option Decimal
  | "0" => some (.finite 0)
  | "10" => some (.finite 10)
  | "10.0000" => some (.finite 10)
  | "0.0000" => some (.finite 0)
  | _ => none

/-- Three lines that read the same, two of them billed before. -/
def tenLine : Fin 3 → LedgerLine := fun _ => ⟨"cost", some "10", none, some "acme", some true⟩

def billedTens : List BilledLine :=
  [⟨"b1", "cost", some "10.0000", some "0.0000", some "acme"⟩,
    ⟨"b2", "cost", some "10.0000", some "0.0000", some "acme"⟩]

theorem planBillableColumns_tens :
    ((∃ cols, planBillableColumns readTens tenLine [0, 1, 2] billedTens = .ok cols) ↔
      ∃ places,
        Placement (fun b r => CarriesBilled readTens (tenLine r) b) [0, 1, 2] [] billedTens
          places) ∧
      ∀ cols, planBillableColumns readTens tenLine [0, 1, 2] billedTens = .ok cols →
        (∀ b ∈ billedTens, ∃ r ∈ [0, 1, 2], CarriesBilled readTens (tenLine r) b ∧
          cols r = ⟨some b.id, true, some .billed⟩ ∧
            ∀ q ∈ [0, 1, 2], (cols q).id = some b.id → q = r) ∧
          ∀ r ∈ [0, 1, 2], (∃ b ∈ billedTens, (cols r).id = some b.id) ∨
            cols r = if (tenLine r).isBillable = some true then ⟨none, true, some .unbilled⟩
              else ⟨none, false, none⟩ :=
  planBillableColumns_identity ⟨by decide, by decide⟩
    (fun _ _ => ⟨⟨.finite 10, rfl⟩, .finite 0, rfl⟩) (by
      intro b hb
      have hread : ∀ c ∈ billedTens, amt readTens c.debit = .ok (.finite 10) ∧
          amt readTens c.credit = .ok (.finite 0) := by decide
      exact ⟨⟨_, (hread b hb).1⟩, _, (hread b hb).2⟩)

example : ((planBillableColumns readTens tenLine [0, 1, 2] billedTens).toOption.map fun cols =>
    [0, 1, 2].map fun r => (cols r).id) = some [some "b1", some "b2", none] := by
  decide

end Edit

end Plan

end MyBooks
