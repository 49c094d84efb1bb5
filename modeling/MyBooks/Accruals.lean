import Mathlib.Logic.Function.Basic
import MyBooks.Books
import MyBooks.Runs

/-!
# Accrual entries and their journal entries

A schedule's entries are posted and unposted month by month. A call goes statement by statement, each
of them whole, and any other call's may come between; creating and voiding a journal entry are one step
that may be refused. The transaction that replaces or deletes a schedule's entries locks the schedule
and every entry before it decides, so it is one step too.
-/

namespace MyBooks

namespace Accruals

inductive EntryStatus
  | draft
  | posted
  | cancelled
  deriving DecidableEq

inductive ScheduleStatus
  | active
  | completed
  | cancelled
  deriving DecidableEq

structure AccrualEntry where
  id : ℕ
  scheduleId : ℕ
  postPeriod : ℤ
  amount : Dec
  status : EntryStatus := .draft
  transactionId : Option ℕ := none
  deriving DecidableEq

structure AccrualSchedule where
  id : ℕ
  companyId : Option ℕ
  status : ScheduleStatus := .active
  deriving DecidableEq

/-- A journal entry, and the accrual entry it was created for. -/
structure AccrualJournal where
  id : ℕ
  entryId : ℕ
  isVoid : Bool := false
  deriving DecidableEq

/-- The tables, and the next id. -/
structure Db where
  entries : List AccrualEntry := []
  schedules : List AccrualSchedule := []
  journal : List AccrualJournal := []
  nextId : ℕ := 0

section Tables

variable (db : Db)

def Db.entry (id : ℕ) : Option AccrualEntry := db.entries.find? fun e => e.id = id

def Db.schedule (id : ℕ) : Option AccrualSchedule := db.schedules.find? fun s => s.id = id

/-- The rows that meet the condition are written again, in place. -/
def Db.updateEntries (cond : AccrualEntry → Bool) (f : AccrualEntry → AccrualEntry) : Db :=
  { db with entries := db.entries.map fun e => if cond e then f e else e }

def Db.updateSchedules (cond : AccrualSchedule → Bool) (f : AccrualSchedule → AccrualSchedule) : Db :=
  { db with schedules := db.schedules.map fun s => if cond s then f s else s }

def Db.createJournalEntry (entryId : ℕ) : Db :=
  { db with journal := ⟨db.nextId, entryId, false⟩ :: db.journal, nextId := db.nextId + 1 }

/-- Refused by the ledger, or by itself for a transaction that is void already. -/
def Db.voidTransaction (t : ℕ) (accepted : Bool) : Option Db :=
  if accepted && db.journal.any fun j => j.id = t && !j.isVoid then
    some { db with journal := db.journal.map fun j => if j.id = t then { j with isVoid := true } else j }
  else none

def Db.anyPosted (scheduleId : ℕ) : Bool :=
  db.entries.any fun e => e.scheduleId = scheduleId && e.status = .posted

/-- A month and its amount. -/
abbrev EntryTerms := ℤ × Dec

/-- New entries of a schedule, with the next ids. -/
def Db.insertEntries (scheduleId : ℕ) (terms : List EntryTerms) : Db :=
  { db with
    entries := db.entries ++ (terms.zipIdx db.nextId).map fun t =>
      { id := t.2, scheduleId := scheduleId, postPeriod := t.1.1, amount := t.1.2 }
    nextId := db.nextId + terms.length }

def Db.deleteEntries (scheduleId : ℕ) : Db :=
  { db with entries := db.entries.filter fun e => e.scheduleId ≠ scheduleId }

end Tables

/-- The statement a call runs next, and what it has read. -/
inductive Stage
  -- postEntry
  | read (id : ℕ)
  | claim (e : AccrualEntry)
  | create (e : AccrualEntry)
  | release (e : AccrualEntry)
  | attach (e : AccrualEntry) (t : ℕ)
  | voidCreated (e : AccrualEntry) (t : ℕ)
  -- maybeComplete
  | countDrafts (scheduleId : ℕ)
  | complete (scheduleId : ℕ)
  -- postAllForMonth
  | entriesForMonth (companyId : Option ℕ) (period : ℤ)
  -- unpostEntry
  | unpostRead (id : ℕ)
  | readTransaction (e : AccrualEntry) (t : ℕ)
  | voidPosted (e : AccrualEntry) (t : ℕ)
  | reset (e : AccrualEntry)
  | reactivate (scheduleId : ℕ)
  -- createSchedule, updateSchedule, deleteSchedule, cancelSchedule
  | insertSchedule (companyId : Option ℕ) (terms : List EntryTerms)
  | updateRead (scheduleId : ℕ) (terms : List EntryTerms)
  | replace (scheduleId : ℕ) (terms : List EntryTerms)
  | deleteRead (scheduleId : ℕ)
  | delete (scheduleId : ℕ)
  | cancelRead (scheduleId : ℕ)
  | cancelEntries (scheduleId : ℕ)
  | cancelSchedule (scheduleId : ℕ)

/-- How a statement goes on: with another, with the entries of a month, or to the end of its entry. -/
inductive Next
  | stage (s : Stage)
  | entries (ids : List ℕ)
  | done
  /-- The entry is someone else's now: a month goes on with the next. -/
  | skipped
  | failed

section Statements

/-- Posted, with no journal entry yet. -/
def claimStands (e r : AccrualEntry) : Bool :=
  r.id = e.id && r.status = .posted && r.transactionId = none

variable (db : Db) (accepted : Bool)

/-- The statement, and what the call does after it. -/
def Stage.advance : Stage → Db × Next
  | .read id =>
    match db.entry id with
    | none => (db, .failed)
    | some e => (db, if e.status = .draft then .stage (.claim e) else .skipped)
  | .claim e =>
    let draft := fun r : AccrualEntry => r.id = e.id && r.status = .draft
    if db.entries.any draft then
      (db.updateEntries draft fun r => { r with status := .posted },
        .stage (if e.amount = 0 then .countDrafts e.scheduleId else .create e))
    else (db, .skipped)
  | .create e =>
    if accepted then (db.createJournalEntry e.id, .stage (.attach e db.nextId))
    else (db, .stage (.release e))
  | .release e => (db.updateEntries (claimStands e) fun r => { r with status := .draft }, .failed)
  | .attach e t =>
    if db.entries.any (claimStands e) then
      (db.updateEntries (claimStands e) fun r => { r with transactionId := some t },
        .stage (.countDrafts e.scheduleId))
    else (db, .stage (.voidCreated e t))
  | .voidCreated _ t => ((db.voidTransaction t accepted).getD db, .skipped)
  | .countDrafts scheduleId =>
    (db, if db.entries.any fun e => e.scheduleId = scheduleId && e.status = .draft then .done
      else .stage (.complete scheduleId))
  | .complete scheduleId =>
    (db.updateSchedules (fun s => s.id = scheduleId && s.status = .active)
      fun s => { s with status := .completed }, .done)
  | .entriesForMonth companyId period =>
    (db, .entries ((db.entries.filter fun e => e.postPeriod = period && e.status = .draft &&
      (companyId = none || ((db.schedule e.scheduleId).any fun s =>
        s.companyId = none || s.companyId = companyId))).map (·.id)))
  | .unpostRead id =>
    match db.entry id with
    | none => (db, .failed)
    | some e =>
      (db, if e.status = .posted then
          match e.transactionId with
          | some t => .stage (.readTransaction e t)
          | none => .stage (.reset e)
        else .failed)
  | .readTransaction e t =>
    (db, .stage (if db.journal.any fun j => j.id = t && !j.isVoid then .voidPosted e t else .reset e))
  | .voidPosted e t =>
    match db.voidTransaction t accepted with
    | some db' => (db', .stage (.reset e))
    | none => (db, .failed)
  | .reset e =>
    (db.updateEntries (fun r => r.id = e.id && r.status = .posted)
      fun r => { r with status := .draft, transactionId := none }, .stage (.reactivate e.scheduleId))
  | .reactivate scheduleId =>
    (db.updateSchedules (fun s => s.id = scheduleId && s.status = .completed)
      fun s => { s with status := .active }, .done)
  | .insertSchedule companyId terms =>
    (({ db with schedules := ⟨db.nextId, companyId, .active⟩ :: db.schedules
                nextId := db.nextId + 1 } : Db).insertEntries db.nextId terms, .done)
  | .updateRead scheduleId terms =>
    (db, if (db.schedule scheduleId).any fun s => s.status = .active then .stage (.replace scheduleId terms)
      else .failed)
  | .replace scheduleId terms =>
    if ((db.schedule scheduleId).any fun s => s.status = .active) && !db.anyPosted scheduleId then
      ((db.deleteEntries scheduleId).insertEntries scheduleId terms, .done)
    else (db, .failed)
  | .deleteRead scheduleId =>
    (db, if (db.schedule scheduleId).isSome then .stage (.delete scheduleId) else .failed)
  | .delete scheduleId =>
    if db.anyPosted scheduleId then (db, .failed)
    else ({ db.deleteEntries scheduleId with
              schedules := db.schedules.filter fun s => s.id ≠ scheduleId }, .done)
  | .cancelRead scheduleId =>
    (db, if (db.schedule scheduleId).isSome then .stage (.cancelEntries scheduleId) else .failed)
  | .cancelEntries scheduleId =>
    (db.updateEntries (fun e => e.scheduleId = scheduleId && e.status = .draft)
      fun e => { e with status := .cancelled }, .stage (.cancelSchedule scheduleId))
  | .cancelSchedule scheduleId =>
    (db.updateSchedules (fun s => s.id = scheduleId) fun s => { s with status := .cancelled }, .done)

end Statements

/-- A call: its next statement, and the entries of a month still to post. -/
structure Call where
  stage : Stage
  rest : List ℕ := []

inductive Request
  | createSchedule (companyId : Option ℕ) (terms : List EntryTerms)
  | updateSchedule (scheduleId : ℕ) (terms : List EntryTerms)
  | deleteSchedule (scheduleId : ℕ)
  | cancelSchedule (scheduleId : ℕ)
  | postEntry (id : ℕ)
  | postAllForMonth (companyId : Option ℕ) (period : ℤ)
  | unpostEntry (id : ℕ)

def Request.first : Request → Stage
  | .createSchedule companyId terms => .insertSchedule companyId terms
  | .updateSchedule scheduleId terms => .updateRead scheduleId terms
  | .deleteSchedule scheduleId => .deleteRead scheduleId
  | .cancelSchedule scheduleId => .cancelRead scheduleId
  | .postEntry id => .read id
  | .postAllForMonth companyId period => .entriesForMonth companyId period
  | .unpostEntry id => .unpostRead id

/-- The next entry of a month. -/
def Call.resume : List ℕ → Option Call
  | [] => none
  | id :: rest => some ⟨.read id, rest⟩

def Call.follow (c : Call) : Next → Option Call
  | .stage s => some { c with stage := s }
  | .entries ids => resume ids
  | .done | .skipped => resume c.rest
  | .failed => none

/-- The tables and the calls in progress, by number. -/
structure System where
  db : Db := {}
  calls : ℕ → Option Call := fun _ => none

inductive Action
  | start (i : ℕ) (r : Request)
  | statement (i : ℕ) (accepted : Bool)

def System.step (s : System) : Action → Option System
  | .start i r =>
    if (s.calls i).isSome then none
    else some { s with calls := Function.update s.calls i (some ⟨r.first, []⟩) }
  | .statement i accepted =>
    (s.calls i).map fun c =>
      let (db, next) := c.stage.advance s.db accepted
      ⟨db, Function.update s.calls i (c.follow next)⟩

/-- No call is in progress. -/
def System.Quiet (s : System) : Prop := ∀ i, s.calls i = none

end Accruals

end MyBooks
