import Mathlib.Logic.Function.Basic
import MyBooks.Recurrence
import MyBooks.Runs

/-!
# Occurrences of a recurring template

One template and its schedule, which nobody edits. A step is one database transaction: an automatic
run's, a manual enter, a skip, a resolve, or one of the phases of a legacy occurrence, which claims
its date and moves the schedule on, posts, and settles or rolls back in transactions of their own.
What a step reads outside the template (the draft, the permissions, the closed period, the posting)
comes with the event. A transaction that throws leaves no trace, so its step is not there.
-/

namespace MyBooks

namespace Occurrences

/-- The columns of a schedule that its runs leave alone. -/
structure SchedulePlan where
  startDate : ℤ
  anchorDate : Option ℤ
  frequency : Frequency
  intervalValue : Option ℤ
  auto : Bool
  endDate : Option ℤ
  archived : Bool
  remainingCount : Option ℕ
  remaining_pos : remainingCount ≠ some 0

structure ScheduleRow where
  nextOccurrence : ℤ
  remainingCount : Option ℕ
  isActive : Bool
  deriving DecidableEq

inductive OccurrenceStatus
  | claiming
  | posted
  | entered
  | skipped
  | dismissed
  deriving DecidableEq

structure Occurrence where
  id : ℕ
  date : ℤ
  status : OccurrenceStatus
  transactionId : Option ℕ
  createdAt : ℕ
  deriving DecidableEq

/-- A transaction posted from the template, for an occurrence or, without a live schedule, for none. -/
structure Posting where
  id : ℕ
  date : ℤ
  occurrence : Bool
  deriving DecidableEq

/-- What `advance` reports of the schedule it moved on. -/
structure Advanced where
  next : ℤ
  wasActive : Bool
  wasRemaining : Option ℕ
  deriving DecidableEq

structure LegacyClaim where
  auto : Bool
  date : ℤ
  occurrenceId : Option ℕ
  prevSkipped : Bool
  advanced : Option Advanced
  deriving DecidableEq

inductive LegacyPhase
  | claimed
  | refused
  | posted (txn : ℕ)
  deriving DecidableEq

/-- The schedule, the occurrence rows, the postings, and the legacy occurrences on their way, by
number. -/
structure TemplateState where
  sched : ScheduleRow
  rows : List Occurrence
  postings : List Posting
  claims : ℕ → Option (LegacyClaim × LegacyPhase)
  now : ℕ
  nextId : ℕ

def CLAIM_STALE_MINUTES : ℕ := 10

def TemplateState.rowAt (s : TemplateState) (date : ℤ) : Option Occurrence :=
  s.rows.find? fun row => row.date = date

def TemplateState.insertRow (s : TemplateState) (date : ℤ) (status : OccurrenceStatus)
    (txn : Option ℕ) : TemplateState :=
  { s with
    rows := ⟨s.nextId, date, status, txn, s.now⟩ :: s.rows
    nextId := s.nextId + 1 }

/-- The row of the id is written again, in place. -/
def TemplateState.updateRow (s : TemplateState) (id : ℕ) (f : Occurrence → Occurrence) :
    TemplateState :=
  { s with rows := s.rows.map fun row => if row.id = id then f row else row }

def TemplateState.post (s : TemplateState) (txn : ℕ) (date : ℤ) (occurrence : Bool) :
    TemplateState :=
  { s with postings := ⟨txn, date, occurrence⟩ :: s.postings }

def TemplateState.setClaim (s : TemplateState) (i : ℕ) (c : Option (LegacyClaim × LegacyPhase)) :
    TemplateState :=
  { s with claims := Function.update s.claims i c }

def claimIsStale (s : TemplateState) (row : Occurrence) : Bool :=
  row.status = .claiming && decide (CLAIM_STALE_MINUTES * 60000 < s.now - row.createdAt)

section Steps

variable (plan : SchedulePlan)

def TemplateState.fresh : TemplateState where
  sched := ⟨plan.startDate, plan.remainingCount, true⟩
  rows := []
  postings := []
  claims _ := none
  now := 0
  nextId := 0

def nextDate (date : ℤ) : ℤ :=
  nextRecurrenceDate date plan.frequency (plan.intervalValue.getD 1)
    (plan.anchorDate.getD plan.startDate)

/-- The dates of the schedule, from its start. -/
def seqDate : ℕ → ℤ
  | 0 => plan.startDate
  | k + 1 => nextDate plan (seqDate k)

def scheduleLive (s : TemplateState) : Bool := s.sched.isActive && !plan.archived

/-- Past the end date. -/
def pastEnd (date : ℤ) : Bool := plan.endDate.any fun e => e < date

/-- Moves the schedule past `date` when `date` is its next date. -/
def advance (s : TemplateState) (date : ℤ) (consumed : Bool) : TemplateState :=
  if s.sched.nextOccurrence = date then
    let next := nextDate plan date
    let remaining := s.sched.remainingCount.map fun r => r - if consumed then 1 else 0
    { s with sched := ⟨next, remaining, !(remaining = some 0 || pastEnd plan next)⟩ }
  else s

def deactivate (s : TemplateState) : TemplateState :=
  { s with sched := { s.sched with isActive := false } }

/-- An automatic run finds a date due by `asOf`. -/
def due (s : TemplateState) (asOf : ℤ) : Bool :=
  scheduleLive plan s && plan.auto && decide (s.sched.nextOccurrence ≤ asOf)

def exhausted (s : TemplateState) : Bool :=
  s.sched.remainingCount = some 0 || pastEnd plan s.sched.nextOccurrence

/-- How an automatic occurrence goes: its template posts through the clone path, the date is
recorded as skipped, or the draft is posted. -/
inductive AutoPath
  | legacy
  | skip
  | post (txn : ℕ)

def autoStep (s : TemplateState) (asOf : ℤ) (path : AutoPath) : TemplateState :=
  let date := s.sched.nextOccurrence
  if !due plan s asOf then s
  else if exhausted plan s then deactivate s
  else
    match path, s.rowAt date with
    | .legacy, _ => s
    | _, some _ => advance plan s date false
    | .skip, none => advance plan (s.insertRow date .skipped none) date true
    | .post txn, none =>
      advance plan ((s.insertRow date .posted (some txn)).post txn date true) date true

inductive Target
  | insert
  | fromSkipped (row : Occurrence)
  | none

/-- The date a manual enter may take: the next date, an open skipped date, or without a live
schedule any date. -/
def manualDate (s : TemplateState) (requested : Option ℤ) (today : ℤ) : Option (ℤ × Target) :=
  let live := scheduleLive plan s
  let date := requested.getD (if live then s.sched.nextOccurrence else today)
  match s.rowAt date with
  | some row => if row.status = .skipped then some (date, .fromSkipped row) else none
  | none =>
    if live then if date = s.sched.nextOccurrence then some (date, .insert) else none
    else some (date, .none)

/-- The claim of a new date, and the schedule moved past it. -/
def claimNew (s : TemplateState) (i : ℕ) (auto : Bool) (date : ℤ) : TemplateState :=
  (advance plan (s.insertRow date .claiming none) date true).setClaim i
    (some (⟨auto, date, some s.nextId, false,
      some ⟨nextDate plan date, s.sched.isActive, s.sched.remainingCount⟩⟩, .claimed))

/-- The first phase of an automatic legacy occurrence. `skip` is the owner's lost permission or the
closed period. -/
def legacyAuto (s : TemplateState) (i : ℕ) (asOf : ℤ) (skip : Bool) : Option TemplateState :=
  let date := s.sched.nextOccurrence
  if (s.claims i).isSome then none
  else if !due plan s asOf then some s
  else if exhausted plan s then some (deactivate s)
  else
    match s.rowAt date with
    | some _ => some (advance plan s date false)
    | none =>
      if skip then some (advance plan (s.insertRow date .skipped none) date true)
      else some (claimNew plan s i true date)

/-- The first phase of a manual one. -/
def legacyManual (s : TemplateState) (i : ℕ) (requested : Option ℤ) (today : ℤ) :
    Option TemplateState :=
  if (s.claims i).isSome then none
  else
    match manualDate plan s requested today with
    | none => none
    | some (date, .insert) => some (claimNew plan s i false date)
    | some (date, .fromSkipped row) =>
      some ((s.updateRow row.id fun r => { r with status := .claiming, createdAt := s.now }).setClaim i
        (some (⟨false, date, some row.id, true, none⟩, .claimed)))
    | some (date, .none) => some (s.setClaim i (some (⟨false, date, none, false, none⟩, .claimed)))

/-- The copy is posted whole or refused. -/
def legacyPost (s : TemplateState) (i : ℕ) (txn : Option ℕ) : Option TemplateState :=
  match s.claims i, txn with
  | some (c, .claimed), some txn =>
    some ((s.post txn c.date c.occurrenceId.isSome).setClaim i (some (c, .posted txn)))
  | some (c, .claimed), none => some (s.setClaim i (some (c, .refused)))
  | _, _ => none

/-- A refused posting releases its claim and puts the date back, where the schedule is still at the
date the claim advanced to. -/
def rollBack (s : TemplateState) (c : LegacyClaim) : TemplateState :=
  let released : TemplateState :=
    match c.occurrenceId, c.prevSkipped with
    | some id, true => s.updateRow id fun r => { r with status := .skipped }
    | some id, false => { s with rows := s.rows.filter fun r => !(r.id = id && r.status = .claiming) }
    | none, _ => s
  match c.advanced with
  | some a =>
    if s.sched.nextOccurrence = a.next then
      { released with sched := ⟨c.date, a.wasRemaining, a.wasActive⟩ }
    else released
  | none => released

def legacySettle (s : TemplateState) (i : ℕ) : Option TemplateState :=
  match s.claims i with
  | some (c, .posted txn) =>
    let status : OccurrenceStatus := if c.auto then .posted else .entered
    match c.occurrenceId with
    | some id =>
      some ((s.updateRow id fun r => { r with status := status, transactionId := some txn }).setClaim
        i none)
    | none => some (s.setClaim i none)
  | some (c, .refused) => some ((rollBack s c).setClaim i none)
  | _ => none

/-- The process dies, or a transaction after the first phase fails: nothing more is done. -/
def crash (s : TemplateState) (i : ℕ) : TemplateState := s.setClaim i none

def enterTemplate (s : TemplateState) (requested : Option ℤ) (today : ℤ) (txn : ℕ) :
    Option TemplateState :=
  match manualDate plan s requested today with
  | none => none
  | some (date, .insert) =>
    some (advance plan ((s.insertRow date .entered (some txn)).post txn date true) date true)
  | some (date, .fromSkipped row) =>
    some ((s.updateRow row.id fun r => { r with status := .entered, transactionId := some txn }).post
      txn date true)
  | some (date, .none) => some (s.post txn date false)

/-- The date is written down as handled without a posting of the template: an open or stale row as
it is, or the next date with a new row. -/
def resolveAs (s : TemplateState) (date : ℤ) (status : OccurrenceStatus) (txn : Option ℕ) :
    Option TemplateState :=
  match s.rowAt date with
  | some row =>
    if row.status = .skipped ∨ claimIsStale s row = true then
      some (s.updateRow row.id fun r =>
        { r with status := status, transactionId := txn.or r.transactionId })
    else none
  | none =>
    if scheduleLive plan s ∧ s.sched.nextOccurrence = date then
      some (advance plan (s.insertRow date status txn) date true)
    else none

def skipOccurrence (s : TemplateState) (date : ℤ) : Option TemplateState :=
  resolveAs plan s date .dismissed none

/-- A transaction that is not linked to a date yet is linked to this one. -/
def resolveOccurrence (s : TemplateState) (date : ℤ) (txn : ℕ) : Option TemplateState :=
  if s.rows.any fun row => row.transactionId = some txn then none
  else resolveAs plan s date .entered (some txn)

inductive TemplateEvent
  | auto (asOf : ℤ) (path : AutoPath)
  | legacyAuto (i : ℕ) (asOf : ℤ) (skip : Bool)
  | legacyManual (i : ℕ) (requested : Option ℤ) (today : ℤ)
  | legacyPost (i : ℕ) (txn : Option ℕ)
  | legacySettle (i : ℕ)
  | crash (i : ℕ)
  | enter (requested : Option ℤ) (today : ℤ) (txn : ℕ)
  | skip (date : ℤ)
  | resolve (date : ℤ) (txn : ℕ)
  | tick (ms : ℕ)

def templateStep (s : TemplateState) : TemplateEvent → Option TemplateState
  | .auto asOf path => some (autoStep plan s asOf path)
  | .legacyAuto i asOf skip => legacyAuto plan s i asOf skip
  | .legacyManual i requested today => legacyManual plan s i requested today
  | .legacyPost i txn => legacyPost s i txn
  | .legacySettle i => legacySettle s i
  | .crash i => some (crash s i)
  | .enter requested today txn => enterTemplate plan s requested today txn
  | .skip date => skipOccurrence plan s date
  | .resolve date txn => resolveOccurrence plan s date txn
  | .tick ms => some { s with now := s.now + ms }

end Steps

end Occurrences

end MyBooks
