import MyBooks.ImportKeys
import MyBooks.LeastPick
import MyBooks.Recurrence
import MyBooks.SortedSearch
import Mathlib.Data.List.Sort

/-!
# Classification of imported rows

`classifyRows` goes over all rows once for each rule: the same bank id and amount, the same row key,
the same bank id with another amount, and a look-alike. Every rule claims existing items that no
earlier row has claimed. Look-alikes are found through an index by amount, day and description.
Amounts are the numbers their texts say, which is how they are compared and keyed.
-/

namespace MyBooks

namespace ImportRows

open ImportKeys

/-- The days of `Date.UTC`, which takes the years 0 to 99 for those of the twentieth century. -/
def dayNumber (x : IsoDate) : ℤ :=
  MyBooks.dayNumber (if x.y ≤ 99 then 1900 + x.y else x.y) x.m x.d

example : dayNumber ⟨1970, 1, 1⟩ = 0 ∧ dayNumber ⟨2026, 4, 15⟩ = 20558 ∧
    dayNumber ⟨2024, 2, 29⟩ = 19782 := by
  decide

def dayDiff (a b : IsoDate) : ℕ := (dayNumber a - dayNumber b).natAbs

def FITID_DAYS : ℕ := 5
def FUZZY_DAYS : ℕ := 3

inductive RowStatus where
  | new | duplicate | possibleDuplicate | changed
  deriving DecidableEq, Repr

inductive RowReason where
  | sameBankId | sameRow | repeatedBankId | bankIdReused | similarExisting
  deriving DecidableEq, Repr

inductive ChangedAction where
  | replace | add
  deriving DecidableEq, Repr

structure BatchRowInput where
  line : ℕ
  date : IsoDate
  amount : ℚ
  description : CodeUnits
  checkNumber : Option ℕ := none
  fitid : Option CodeUnits := none
  /-- `include` is not false. -/
  included : Bool := true
  changedAction : Option ChangedAction := none
  deriving DecidableEq

/-- A feed item of the account. Its description is a text of the database: characters. -/
structure ExistingItem where
  id : CodeUnits
  connectionId : CodeUnits
  fitid : Option CodeUnits
  date : IsoDate
  amount : ℚ
  description : Text
  checkNumber : Option ℕ
  status : String
  createdAt : CodeUnits
  dedupeKey : Option CodeUnits
  rowKey : Option CodeUnits
  deriving DecidableEq

structure Classified where
  status : RowStatus
  reason : Option RowReason
  existing : Option ExistingItem
  fitidUsed : Option CodeUnits
  dedupeKey : CodeUnits
  deriving DecidableEq

/-- The bounds of the file's section. -/
structure Section where
  start : Option IsoDate
  stop : Option IsoDate

/-- What is read of the account for a request. -/
structure Lookups where
  byFitid : Entries CodeUnits (List ExistingItem)
  byKey : Entries CodeUnits ExistingItem
  pool : List ExistingItem

/-- Equal, or one a prefix of the other with the shorter at least 8 code points long. -/
def descriptionsMatch (a b : CodeUnits) : Bool :=
  a = b ||
    let p := if (codePoints a).length ≤ (codePoints b).length then (a, b) else (b, a)
    8 ≤ (codePoints p.1).length && p.1.isPrefixOf p.2

/-- What `byAge` compares. -/
def ExistingItem.age (it : ExistingItem) : CodeUnits ×ₗ CodeUnits := toLex (it.createdAt, it.id)

/-- A bank id that is there and not empty. -/
def given (fitid : Option CodeUnits) : Bool := fitid.any fun f => !f.isEmpty

def sortByAge (items : List ExistingItem) : List ExistingItem :=
  items.insertionSort fun a b => a.age ≤ b.age

/-! ## The rules that go by keys -/

/-- A row with what the rules have found for it so far. -/
structure RowState where
  row : BatchRowInput
  keyed : KeyedRow
  fitid : Option CodeUnits
  out : Option Classified := none
  fallbackReason : Option RowReason := none
  trusted : Option CodeUnits := none
  /-- The existing item with the row's FITID when its amount differs. -/
  sameFitid : Option ExistingItem := none

/-- A loop over the rows that carries a state and gives a result for each. -/
def sweep {σ α β : Type} (f : σ → α → σ × β) : σ → List α → σ × List β
  | s, [] => (s, [])
  | s, a :: as =>
    let r := f s a
    let rest := sweep f r.1 as
    (rest.1, r.2 :: rest.2)

variable (nfc sha256 : CodeUnits → CodeUnits)

/-- ii: the same bank id, the same amount. -/
def sameBankId (fitids : List (Option CodeUnits)) (look : Lookups) (usedUp : List CodeUnits)
    (s : RowState) : List CodeUnits × RowState :=
  match s.fitid with
  | none => (usedUp, s)
  | some fitid =>
    if 1 < fitids.count (some fitid) then
      (usedUp, { s with fallbackReason := some .repeatedBankId })
    else
      match (sortByAge ((look.byFitid.get? fitid).getD [])).head? with
      | none => (usedUp, { s with trusted := some fitid })
      | some existing =>
        if dayDiff s.row.date existing.date ≤ FITID_DAYS ∧
            existing.amount = s.keyed.canonicalAmount then
          (existing.id :: usedUp,
            { s with out := some ⟨.duplicate, some .sameBankId, some existing, some fitid,
              fitidKey sha256 fitid⟩ })
        else (usedUp, { s with sameFitid := some existing })

/-- iii: the same row key, on an item not claimed in ii. -/
def sameRow (look : Lookups) (usedUp : List CodeUnits) (s : RowState) :
    List CodeUnits × RowState :=
  match s.out, look.byKey.get? s.keyed.rowKey with
  | none, some byRow =>
    if usedUp.contains byRow.id then (usedUp, s)
    else if given s.trusted && given byRow.fitid && byRow.fitid != s.trusted then (usedUp, s)
    else
      (byRow.id :: usedUp,
        { s with out := some ⟨.duplicate, some .sameRow, some byRow, s.trusted, s.keyed.rowKey⟩ })
  | _, _ => (usedUp, s)

/-- iv: the same bank id, another amount: changed, else the id was reused. -/
def changedRow (usedUp : List CodeUnits) (s : RowState) : List CodeUnits × RowState :=
  match s.out, s.sameFitid with
  | none, some existing =>
    if !usedUp.contains existing.id && dayDiff s.row.date existing.date ≤ FITID_DAYS &&
        descriptionsMatch s.keyed.normDescription (norm nfc (units existing.description)) then
      (existing.id :: usedUp,
        { s with out := some ⟨.changed, none, some existing, none, s.keyed.rowKey⟩ })
    else (usedUp, { s with fallbackReason := some .bankIdReused })
  | _, _ => (usedUp, s)

def startStates (rows : List BatchRowInput) (keyed : List KeyedRow) : List RowState :=
  (rows.zip keyed).map fun p => { row := p.1, keyed := p.2, fitid := cleanFitid p.1.fitid }

/-- The rows after the rules by keys, with the items used up. -/
def byKeys (rows : List BatchRowInput) (keyed : List KeyedRow) (look : Lookups) :
    List CodeUnits × List RowState :=
  let fitids := rows.map fun r => cleanFitid r.fitid
  let ii := sweep (sameBankId sha256 fitids look) [] (startStates rows keyed)
  let iii := sweep (sameRow look) ii.1 ii.2
  sweep (changedRow nfc) iii.1 iii.2

/-! ## Look-alikes -/

structure PoolEntry where
  item : ExistingItem
  normDescription : CodeUnits
  deriving DecidableEq

def poolEntry (it : ExistingItem) : PoolEntry := ⟨it, norm nfc (units it.description)⟩

/-- The candidates of one amount on one day, by normalized description. -/
structure DayBucket where
  /-- Entries oldest first. -/
  byNorm : Entries CodeUnits (List PoolEntry) := []
  /-- The descriptions, sorted. -/
  norms : List CodeUnits := []
  /-- The code-point lengths present. -/
  lengths : List ℕ := []

abbrev Days := Entries ℤ DayBucket

/-- amount → day → description → entries. -/
abbrev Index := Entries ℚ Days

def DayBucket.push (b : DayBucket) (e : PoolEntry) : DayBucket :=
  { b with byNorm := b.byNorm.update e.normDescription fun l => l.getD [] ++ [e] }

def Index.push (index : Index) (e : PoolEntry) : Index :=
  index.update e.item.amount fun days =>
    (days.getD []).update (dayNumber e.item.date) fun b => (b.getD {}).push e

/-- The sorted descriptions and the lengths, once all entries are in. -/
def DayBucket.finish (b : DayBucket) : DayBucket :=
  let norms := b.byNorm.keys.insertionSort (· ≤ ·)
  { b with norms := norms, lengths := (norms.map fun s => (codePoints s).length).eraseDups }

def lookAlikeIndex (usedUp : List CodeUnits) (pool : List ExistingItem) : Index :=
  let entries := ((sortByAge pool).filter fun it => !usedUp.contains it.id).map (poolEntry nfc)
  (entries.foldl Index.push []).map fun a => (a.1, a.2.map fun d => (d.1, d.2.finish))

/-- The list of a description, under it. -/
def DayBucket.listOf (b : DayBucket) (d : CodeUnits) : Option (CodeUnits × List PoolEntry) :=
  (b.byNorm.get? d).map fun l => (d, l)

/-- The lists of a bucket whose description matches `r`: equal; a prefix of `r`; or longer with `r`
as a prefix. -/
def matchingLists (b : DayBucket) (r : CodeUnits) (rLength : ℕ) :
    List (CodeUnits × List PoolEntry) :=
  (b.listOf r).toList ++
    if rLength < 8 then []
    else
      (b.lengths.filter fun len => 8 ≤ len && len < rLength).filterMap
          (fun len => b.listOf (cutTo len r)) ++
        (extensions b.norms r).filterMap b.listOf

/-- The conditions on a candidate besides its description. -/
def fits (bounds : Section) (s : RowState) (e : PoolEntry) (distance : ℕ) : Bool :=
  !(bounds.start.any fun d => e.item.date.rank < d.rank) &&
  !(bounds.stop.any fun d => d.rank < e.item.date.rank) &&
  !(given s.trusted && given e.item.fitid && e.item.fitid != s.trusted &&
    !(distance = 0 && e.normDescription = s.keyed.normDescription)) &&
  !(s.row.checkNumber.isSome && e.item.checkNumber.isSome &&
    s.row.checkNumber != e.item.checkNumber)

/-- An entry with its place in the index. -/
structure Found where
  day : ℤ
  norm : CodeUnits
  place : ℕ
  entry : PoolEntry

/-- The first of a list that fits. -/
def bestIn (ok : PoolEntry → Bool) (day : ℤ) (l : CodeUnits × List PoolEntry) : Option Found :=
  (l.2.findIdx? ok).bind fun i => l.2[i]?.map fun e => ⟨day, l.1, i, e⟩

def searchDay (days : Days) (r : CodeUnits) (ok : PoolEntry → Bool) (best : Option Found)
    (day : ℤ) : Option Found :=
  match days.get? day with
  | none => best
  | some b =>
    (matchingLists b r (codePoints r).length).foldl
      (fun best l => better (fun f => f.entry.item.age) best (bestIn ok day l)) best

/-- Nearest date first, then the oldest item. -/
def search (days : Days) (rowDay : ℤ) (r : CodeUnits) (ok : PoolEntry → ℕ → Bool) : Option Found :=
  (List.range (FUZZY_DAYS + 1)).foldl
    (fun best (distance : ℕ) =>
      if best.isSome then best
      else
        (if distance = 0 then [rowDay] else [rowDay - distance, rowDay + distance]).foldl
          (searchDay days r fun e => ok e distance) best)
    none

def DayBucket.claim (b : DayBucket) (f : Found) : DayBucket :=
  { b with byNorm := b.byNorm.update f.norm fun l => (l.getD []).eraseIdx f.place }

/-- The index without an entry. -/
def Index.claim (index : Index) (amount : ℚ) (f : Found) : Index :=
  index.update amount fun days => (days.getD []).update f.day fun b => (b.getD {}).claim f

def RowState.dedupeKey (s : RowState) : CodeUnits :=
  match s.trusted with
  | some fitid => fitidKey sha256 fitid
  | none => s.keyed.rowKey

/-- A row nothing was found for, or a look-alike of `found`. -/
def RowState.classified (s : RowState) : Option ExistingItem → Classified
  | some it => ⟨.possibleDuplicate, some .similarExisting, some it, s.trusted, s.dedupeKey sha256⟩
  | none => ⟨.new, s.fallbackReason, none, s.trusted, s.dedupeKey sha256⟩

/-- v: the fuzzy rule, through the index. -/
def lookAlike (bounds : Section) (index : Index) (s : RowState) : Index × Classified :=
  match s.out with
  | some c => (index, c)
  | none =>
    let amount := s.keyed.canonicalAmount
    match (index.get? amount).bind fun days =>
        search days (dayNumber s.row.date) s.keyed.normDescription (fits bounds s) with
    | some f => (index.claim amount f, s.classified sha256 (some f.entry.item))
    | none => (index, s.classified sha256 none)

def classifyRows (rows : List BatchRowInput) (keyed : List KeyedRow) (look : Lookups)
    (bounds : Section) : List Classified :=
  let keys := byKeys nfc sha256 rows keyed look
  (sweep (lookAlike sha256 bounds) (lookAlikeIndex nfc keys.1 look.pool) keys.2).2

/-- Whether a classified row is inserted on commit. -/
def wouldInsert (row : BatchRowInput) (c : Classified) : Bool :=
  match c.status with
  | .new | .possibleDuplicate => row.included
  | .changed => row.changedAction = some .add
  | .duplicate => false

end ImportRows

end MyBooks
