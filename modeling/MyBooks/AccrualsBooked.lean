import MyBooks.Accruals

/-!
# A month is booked once

A journal entry that is not void is attached to the posted entry it was created for, or a call still
holds it; a posted entry without one is a call's to attach to or to give back, and one whose journal
entry is void is a call's to put back to draft. Every statement keeps this (`Good`), except two: a reset
that takes a journal entry that is not void off its entry, and a refused void of a journal entry whose
claim is gone (`Stage.Undisturbed`).
-/

namespace MyBooks

namespace Accruals

/-- The journal entries created for an accrual entry that are not void. -/
def Db.live (db : Db) (e : AccrualEntry) : List AccrualJournal :=
  db.journal.filter fun j => j.entryId = e.id && !j.isVoid

structure BookedOnce (db : Db) (e : AccrualEntry) : Prop where
  once : (db.live e).length ≤ 1
  posted : db.live e ≠ [] ↔ e.status = .posted
  referenced : ∀ j ∈ db.live e, e.transactionId = some j.id

/-- A reset takes no journal entry off its entry but a void one, and a journal entry whose claim is gone
is voided. -/
def Stage.Undisturbed (db : Db) (accepted : Bool) : Stage → Prop
  | .reset e => ∀ r ∈ db.entries, r.id = e.id → ∀ j ∈ db.journal, r.transactionId = some j.id →
      j.isVoid = true
  | .voidCreated _ _ => accepted = true
  | _ => True

def System.Undisturbed (s : System) : Action → Prop
  | .start _ _ => True
  | .statement i accepted => ∀ c ∈ s.calls i, c.stage.Undisturbed s.db accepted

instance (db : Db) (accepted : Bool) (stage : Stage) : Decidable (stage.Undisturbed db accepted) := by
  cases stage <;> unfold Stage.Undisturbed <;> infer_instance

instance (s : System) (a : Action) : Decidable (s.Undisturbed a) := by
  cases a <;> unfold System.Undisturbed <;> infer_instance

section Marks

/-- What a call in progress answers for. -/
structure Marks where
  /-- The entry it attaches to, or gives back. -/
  claims : Option ℕ := none
  /-- The entry it puts back to draft. -/
  resets : Option ℕ := none
  /-- An entry and the journal entry created for it. -/
  holds : Option (ℕ × ℕ) := none
  /-- An entry and the journal entry it was read with. -/
  unposts : Option (ℕ × ℕ) := none
  /-- The entry as it was read. -/
  row : Option AccrualEntry := none

def Stage.marks : Stage → Marks
  | .claim e => { row := some e }
  | .create e | .release e => { claims := some e.id }
  | .attach e t => { claims := some e.id, holds := some (e.id, t) }
  | .voidCreated e t => { holds := some (e.id, t) }
  | .readTransaction e t | .voidPosted e t => { unposts := some (e.id, t) }
  | .reset e => { resets := some e.id }
  | _ => {}

def Next.marks : Next → Marks
  | .stage s => s.marks
  | _ => {}

def System.marks (s : System) (i : ℕ) : Marks := ((s.calls i).map (·.stage.marks)).getD {}

theorem resume_marks (ids : List ℕ) : ((Call.resume ids).map (·.stage.marks)).getD {} = {} := by
  cases ids <;> rfl

theorem follow_marks (c : Call) (next : Next) :
    ((c.follow next).map (·.stage.marks)).getD {} = next.marks := by
  cases next with
  | stage s => rfl
  | entries ids => exact resume_marks ids
  | done => exact resume_marks c.rest
  | skipped => exact resume_marks c.rest
  | failed => rfl

end Marks

/-- What holds between any two statements. -/
structure Good (db : Db) (marks : ℕ → Marks) : Prop where
  ids : (db.entries.map (·.id)).Nodup
  fresh : ∀ e ∈ db.entries, e.id < db.nextId
  journalIds : (db.journal.map (·.id)).Nodup
  journalFresh : ∀ j ∈ db.journal, j.id < db.nextId
  idle : ∀ e ∈ db.entries, e.status ≠ .posted → e.transactionId = none
  attached : ∀ e ∈ db.entries, ∀ t, e.transactionId = some t → ∃ j ∈ db.journal, j.id = t ∧
    j.entryId = e.id ∧ (j.isVoid = true → ∃ i, (marks i).resets = some e.id)
  claimed : ∀ e ∈ db.entries, e.status = .posted → e.transactionId = none → e.amount ≠ 0 →
    ∃ i, (marks i).claims = some e.id
  booked : ∀ j ∈ db.journal, j.isVoid = false →
    (∃ e ∈ db.entries, e.id = j.entryId ∧ e.transactionId = some j.id) ∨
      ∃ i, (marks i).holds = some (j.entryId, j.id)
  held : ∀ i p, (marks i).holds = some p →
    (∃ j ∈ db.journal, j.id = p.2 ∧ j.entryId = p.1 ∧ j.isVoid = false) ∧
      ∀ e ∈ db.entries, e.transactionId ≠ some p.2
  heldOnce : ∀ i k p q, (marks i).holds = some p → (marks k).holds = some q → p.2 = q.2 → i = k
  unposts : ∀ i p, (marks i).unposts = some p →
    (∃ j ∈ db.journal, j.id = p.2 ∧ j.entryId = p.1) ∧ ∀ k q, (marks k).holds = some q → q.2 ≠ p.2
  rows : ∀ i e, (marks i).row = some e →
    e.id < db.nextId ∧ ∀ r ∈ db.entries, r.id = e.id → r.amount = e.amount

variable {db : Db} {marks : ℕ → Marks} {i : ℕ} {m : Marks}

theorem good_empty : Good {} fun _ => {} where
  ids := List.nodup_nil
  fresh _ h := absurd h List.not_mem_nil
  journalIds := List.nodup_nil
  journalFresh _ h := absurd h List.not_mem_nil
  idle _ h := absurd h List.not_mem_nil
  attached _ h := absurd h List.not_mem_nil
  claimed _ h := absurd h List.not_mem_nil
  booked _ h := absurd h List.not_mem_nil
  held _ _ h := by cases h
  heldOnce _ _ _ _ h := by cases h
  unposts _ _ h := by cases h
  rows _ _ h := by cases h

/-- With no call in progress every entry is booked once. -/
theorem Good.bookedOnce (h : Good db fun _ => {}) {e : AccrualEntry} (he : e ∈ db.entries)
    (hamount : e.amount ≠ 0) : BookedOnce db e := by
  have href : ∀ j ∈ db.live e, e.transactionId = some j.id := by
    intro j hj
    obtain ⟨hj, hlive⟩ := List.mem_filter.mp hj
    obtain ⟨hentry, hvoid⟩ : j.entryId = e.id ∧ j.isVoid = false := by simpa using hlive
    rcases h.booked j hj hvoid with ⟨r, hr, hid, htxn⟩ | ⟨i, hi⟩
    · rwa [List.inj_on_of_nodup_map h.ids hr he (hid.trans hentry)] at htxn
    · cases hi
  refine ⟨?_, ⟨fun hne => ?_, fun hposted => ?_⟩, href⟩
  · have hnodup : (db.live e).Nodup := (List.Nodup.of_map _ h.journalIds).filter _
    rcases hl : db.live e with _ | ⟨j, _ | ⟨k, rest⟩⟩
    · simp
    · simp
    · rw [hl] at hnodup href
      have hj := href j (by simp)
      have hk := href k (by simp)
      have hid : j.id = k.id := Option.some.inj (hj.symm.trans hk)
      have hmem : ∀ x ∈ db.live e, x ∈ db.journal := fun x hx => (List.mem_filter.mp hx).1
      rw [hl] at hmem
      have : j = k := List.inj_on_of_nodup_map h.journalIds (hmem j (by simp)) (hmem k (by simp)) hid
      simp [this] at hnodup
  · obtain ⟨j, hj⟩ := List.exists_mem_of_ne_nil _ hne
    by_contra hstatus
    have hnone := h.idle e he hstatus
    rw [href j hj] at hnone
    cases hnone
  · rcases ht : e.transactionId with _ | t
    · obtain ⟨i, hi⟩ := h.claimed e he hposted ht hamount
      cases hi
    · obtain ⟨j, hj, -, hentry, hvoid⟩ := h.attached e he t ht
      have hlive : j.isVoid = false := by
        by_contra hv
        obtain ⟨i, hi⟩ := hvoid (by simpa using hv)
        cases hi
      exact List.ne_nil_of_mem (List.mem_filter.mpr ⟨hj, by simp [hentry, hlive]⟩)

section Update

theorem exists_update {β : Type*} {f : Marks → Option β} {x : β} (h : ∃ k, f (marks k) = some x)
    (hi : f (marks i) = some x → f m = some x) : ∃ k, f (Function.update marks i m k) = some x := by
  obtain ⟨k, hk⟩ := h
  by_cases hki : k = i
  · subst hki
    exact ⟨k, by rw [Function.update_self]; exact hi hk⟩
  · exact ⟨k, by rwa [Function.update_of_ne hki]⟩

theorem update_cases {β : Type*} {f : Marks → Option β} {x : β} {k : ℕ}
    (h : f (Function.update marks i m k) = some x) :
    (k = i ∧ f m = some x) ∨ (k ≠ i ∧ f (marks k) = some x) := by
  by_cases hki : k = i
  · subst hki
    exact .inl ⟨rfl, by rwa [Function.update_self] at h⟩
  · exact .inr ⟨hki, by rwa [Function.update_of_ne hki] at h⟩

/-- A call goes on without touching the entries and their journal entries: what it lets go of is not
needed any more, and it holds what it held. -/
theorem Good.mark (h : Good db marks) (m : Marks)
    (hclaims : ∀ e ∈ db.entries, (marks i).claims = some e.id → e.status = .posted →
      e.transactionId = none → e.amount ≠ 0 → m.claims = some e.id)
    (hresets : ∀ e ∈ db.entries, (marks i).resets = some e.id → e.transactionId ≠ none →
      m.resets = some e.id)
    (hholds : m.holds = (marks i).holds)
    (hunposts : ∀ p, m.unposts = some p → (∃ j ∈ db.journal, j.id = p.2 ∧ j.entryId = p.1) ∧
      ∀ k q, (marks k).holds = some q → q.2 ≠ p.2)
    (hrows : ∀ e, m.row = some e → e.id < db.nextId ∧ ∀ r ∈ db.entries, r.id = e.id → r.amount = e.amount) :
    Good db (Function.update marks i m) := by
  have hheld : ∀ k, (Function.update marks i m k).holds = (marks k).holds := by
    intro k
    by_cases hki : k = i
    · subst hki
      rw [Function.update_self, hholds]
    · rw [Function.update_of_ne hki]
  refine { h with attached := ?_, claimed := ?_, booked := ?_, held := ?_, heldOnce := ?_, unposts := ?_,
                  rows := ?_ }
  · intro e he t ht
    obtain ⟨j, hj, hid, hentry, hvoid⟩ := h.attached e he t ht
    exact ⟨j, hj, hid, hentry, fun hv => exists_update (f := Marks.resets) (hvoid hv) fun hi =>
      hresets e he hi (by simp [ht])⟩
  · intro e he hposted hnone hamount
    exact exists_update (f := Marks.claims) (h.claimed e he hposted hnone hamount) fun hi =>
      hclaims e he hi hposted hnone hamount
  · simp only [hheld]
    exact h.booked
  · simp only [hheld]
    exact h.held
  · simp only [hheld]
    exact h.heldOnce
  · simp only [hheld]
    intro k p hk
    rcases update_cases (f := Marks.unposts) hk with ⟨-, hm⟩ | ⟨-, hm⟩
    · exact hunposts p hm
    · exact h.unposts k p hm
  · intro k e hk
    rcases update_cases (f := Marks.row) hk with ⟨-, hm⟩ | ⟨-, hm⟩
    · exact hrows e hm
    · exact h.rows k e hm

/-- Rows are written again: only a void journal entry is taken off a row, and none is put on. -/
theorem Good.updateEntries (h : Good db marks) {cond : AccrualEntry → Bool}
    {f : AccrualEntry → AccrualEntry} (hid : ∀ r, (f r).id = r.id) (hamount : ∀ r, (f r).amount = r.amount)
    (hidle : ∀ r ∈ db.entries, cond r = true → (f r).status ≠ .posted → (f r).transactionId = none)
    (htxn : ∀ r ∈ db.entries, cond r = true → (f r).transactionId = r.transactionId ∨
      ((f r).transactionId = none ∧ ∀ j ∈ db.journal, r.transactionId = some j.id → j.isVoid = true))
    (hclaimed : ∀ r ∈ db.entries, cond r = true → (f r).status = .posted → (f r).transactionId = none →
      r.amount ≠ 0 → ∃ i, (marks i).claims = some r.id) : Good (db.updateEntries cond f) marks := by
  set g : AccrualEntry → AccrualEntry := fun e => if cond e then f e else e with hg
  have hgid : ∀ r, (g r).id = r.id := by
    intro r
    simp only [hg]
    split_ifs
    · exact hid r
    · rfl
  have hgamount : ∀ r, (g r).amount = r.amount := by
    intro r
    simp only [hg]
    split_ifs
    · exact hamount r
    · rfl
  have hgtxn : ∀ r ∈ db.entries, (g r).transactionId = r.transactionId ∨ ((g r).transactionId = none ∧
      ∀ j ∈ db.journal, r.transactionId = some j.id → j.isVoid = true) := by
    intro r hr
    simp only [hg]
    split_ifs with hc
    · exact htxn r hr hc
    · exact .inl rfl
  have hput : ∀ r ∈ db.entries, ∀ t, (g r).transactionId = some t → r.transactionId = some t := by
    intro r hr t ht
    rcases hgtxn r hr with heq | ⟨hnone, -⟩
    · rw [← heq, ht]
    · rw [hnone] at ht
      cases ht
  refine { h with ids := ?_, fresh := ?_, idle := ?_, attached := ?_, claimed := ?_, booked := ?_, held := ?_,
                  rows := ?_ }
  · show ((db.entries.map g).map (·.id)).Nodup
    rw [List.map_map]
    simpa only [Function.comp_def, hgid] using h.ids
  · intro e he
    obtain ⟨r, hr, rfl⟩ := List.mem_map.mp he
    rw [show (if cond r then f r else r).id = r.id from hgid r]
    exact h.fresh r hr
  · intro e he hstatus
    obtain ⟨r, hr, rfl⟩ := List.mem_map.mp he
    by_cases hc : cond r = true
    · simp only [hc, if_true] at hstatus ⊢
      exact hidle r hr hc hstatus
    · simp only [hc, if_false, Bool.false_eq_true] at hstatus ⊢
      exact h.idle r hr hstatus
  · intro e he t ht
    obtain ⟨r, hr, rfl⟩ := List.mem_map.mp he
    obtain ⟨j, hj, hjt, hentry, hvoid⟩ := h.attached r hr t (hput r hr t ht)
    have hrid : (if cond r then f r else r).id = r.id := hgid r
    rw [hrid]
    exact ⟨j, hj, hjt, hentry, hvoid⟩
  · intro e he hposted hnone hne
    obtain ⟨r, hr, rfl⟩ := List.mem_map.mp he
    have hrid : (if cond r then f r else r).id = r.id := hgid r
    rw [show (if cond r then f r else r).amount = r.amount from hgamount r] at hne
    rw [hrid]
    by_cases hc : cond r = true
    · simp only [hc, if_true] at hposted hnone
      exact hclaimed r hr hc hposted hnone hne
    · simp only [hc, if_false, Bool.false_eq_true] at hposted hnone
      exact h.claimed r hr hposted hnone hne
  · intro j hj hlive
    rcases h.booked j hj hlive with ⟨r, hr, hrid, ht⟩ | hheld
    · refine .inl ⟨g r, List.mem_map.mpr ⟨r, hr, rfl⟩, (hgid r).trans hrid, ?_⟩
      rcases hgtxn r hr with heq | ⟨-, hvoid⟩
      · rw [heq, ht]
      · rw [hvoid j hj ht] at hlive
        cases hlive
    · exact .inr hheld
  · intro k p hk
    obtain ⟨hj, hfree⟩ := h.held k p hk
    refine ⟨hj, fun e he ht => ?_⟩
    obtain ⟨r, hr, rfl⟩ := List.mem_map.mp he
    exact hfree r hr (hput r hr p.2 ht)
  · intro k e hk
    obtain ⟨hlt, hrow⟩ := h.rows k e hk
    refine ⟨hlt, fun x hx hxid => ?_⟩
    obtain ⟨r, hr, rfl⟩ := List.mem_map.mp hx
    rw [show (if cond r then f r else r).id = r.id from hgid r] at hxid
    rw [show (if cond r then f r else r).amount = r.amount from hgamount r]
    exact hrow r hr hxid

theorem claimStands_iff {e r : AccrualEntry} : claimStands e r = true ↔
    r.id = e.id ∧ r.status = .posted ∧ r.transactionId = none := by
  simp [claimStands, and_assoc]

/-- The journal entry of a claim that stands is put on the entry. -/
theorem Good.attach (h : Good db marks) {e : AccrualEntry} {t : ℕ} (hi : marks i = (Stage.attach e t).marks)
    (hstands : db.entries.any (claimStands e) = true) :
    Good (db.updateEntries (claimStands e) fun r => { r with transactionId := some t })
      (Function.update marks i {}) := by
  have hholds : (marks i).holds = some (e.id, t) := by rw [hi]; rfl
  obtain ⟨⟨j, hj, hjt, hentry, hlive⟩, hfree⟩ := h.held i _ hholds
  obtain ⟨r₀, hr₀, hstand⟩ := List.any_eq_true.mp hstands
  obtain ⟨hid₀, -, hnone₀⟩ := claimStands_iff.mp hstand
  set g : AccrualEntry → AccrualEntry :=
    fun r => if claimStands e r then { r with transactionId := some t } else r with hg
  have hgid : ∀ r, (g r).id = r.id := fun r => by simp only [hg]; split_ifs <;> rfl
  have hgstatus : ∀ r, (g r).status = r.status := fun r => by simp only [hg]; split_ifs <;> rfl
  have hgamount : ∀ r, (g r).amount = r.amount := fun r => by simp only [hg]; split_ifs <;> rfl
  have hgtxn : ∀ r ∈ db.entries, ∀ u, (g r).transactionId = some u →
      (r.id = e.id ∧ r.transactionId = none ∧ u = t) ∨ r.transactionId = some u := by
    intro r hr u hu
    by_cases hc : claimStands e r = true
    · simp only [hg, hc, if_true] at hu
      obtain ⟨hid, -, hnone⟩ := claimStands_iff.mp hc
      exact .inl ⟨hid, hnone, (Option.some.inj hu).symm⟩
    · simp only [hg, hc, if_false, Bool.false_eq_true] at hu
      exact .inr hu
  have hkeep : ∀ r, r.transactionId ≠ none → g r = r := by
    intro r hr
    refine if_neg fun hc => hr (claimStands_iff.mp hc).2.2
  have hheld : ∀ k p, (Function.update marks i {} k).holds = some p → k ≠ i ∧ (marks k).holds = some p := by
    intro k p hk
    rcases update_cases (f := Marks.holds) hk with ⟨-, hm⟩ | hk
    · cases hm
    · exact hk
  refine { ids := ?_, fresh := ?_, journalIds := h.journalIds, journalFresh := h.journalFresh, idle := ?_
           attached := ?_, claimed := ?_, booked := ?_, held := ?_, heldOnce := ?_, unposts := ?_, rows := ?_ }
  · show ((db.entries.map g).map (·.id)).Nodup
    rw [List.map_map]
    simpa only [Function.comp_def, hgid] using h.ids
  · refine List.forall_mem_map.mpr fun r hr => ?_
    rw [hgid r]
    exact h.fresh r hr
  · refine List.forall_mem_map.mpr fun r hr hstatus => ?_
    rw [hgstatus r] at hstatus
    have hc : claimStands e r = false := by
      by_contra hc
      exact hstatus (claimStands_iff.mp (by simpa using hc)).2.1
    simp only [hc, Bool.false_eq_true, if_false]
    exact h.idle r hr hstatus
  · refine List.forall_mem_map.mpr fun r hr u hu => ?_
    rw [hgid r]
    rcases hgtxn r hr u hu with ⟨hid, -, rfl⟩ | hu
    · exact ⟨j, hj, hjt, hentry.trans hid.symm, fun hv => by rw [hlive] at hv; cases hv⟩
    · obtain ⟨j', hj', hid', hentry', hvoid⟩ := h.attached r hr u hu
      exact ⟨j', hj', hid', hentry', fun hv => exists_update (f := Marks.resets) (hvoid hv) fun hres => by
        rw [hi] at hres
        cases hres⟩
  · refine List.forall_mem_map.mpr fun r hr hposted hnone hne => ?_
    rw [hgstatus r] at hposted
    rw [hgamount r] at hne
    rw [hgid r]
    by_cases hc : claimStands e r = true
    · simp only [hc, if_true, reduceCtorEq] at hnone
    · simp only [hc, if_false, Bool.false_eq_true] at hnone
      refine exists_update (f := Marks.claims) (h.claimed r hr hposted hnone hne) fun hclaim => ?_
      rw [hi] at hclaim
      exact absurd (claimStands_iff.mpr ⟨(Option.some.inj hclaim).symm, hposted, hnone⟩) hc
  · intro j' hj' hlive'
    rcases h.booked j' hj' hlive' with ⟨r, hr, hrid, ht⟩ | ⟨k, hk⟩
    · exact .inl ⟨r, List.mem_map.mpr ⟨r, hr, hkeep r (by simp [ht])⟩, hrid, ht⟩
    · by_cases hki : k = i
      · subst hki
        obtain ⟨hentry', hid'⟩ := Prod.mk.inj (Option.some.inj (hholds.symm.trans hk))
        refine .inl ⟨g r₀, List.mem_map.mpr ⟨r₀, hr₀, rfl⟩, (hgid r₀).trans (hid₀.trans hentry'), ?_⟩
        simp only [hg, hstand, if_true, hid']
      · exact .inr ⟨k, by rwa [Function.update_of_ne hki]⟩
  · intro k p hk
    obtain ⟨hki, hk⟩ := hheld k p hk
    obtain ⟨hjournal, hfree'⟩ := h.held k p hk
    refine ⟨hjournal, List.forall_mem_map.mpr fun r hr hp => ?_⟩
    rcases hgtxn r hr p.2 hp with ⟨-, -, heq⟩ | hp
    · exact hki (h.heldOnce k i p _ hk hholds heq)
    · exact hfree' r hr hp
  · intro k l p q hk hl
    exact h.heldOnce k l p q (hheld k p hk).2 (hheld l q hl).2
  · intro k p hk
    rcases update_cases (f := Marks.unposts) hk with ⟨-, hm⟩ | ⟨-, hm⟩
    · cases hm
    · obtain ⟨hjournal, hothers⟩ := h.unposts k p hm
      exact ⟨hjournal, fun l q hl => hothers l q (hheld l q hl).2⟩
  · intro k x hk
    rcases update_cases (f := Marks.row) hk with ⟨-, hm⟩ | ⟨-, hm⟩
    · cases hm
    · obtain ⟨hlt, hrow⟩ := h.rows k x hm
      refine ⟨hlt, List.forall_mem_map.mpr fun r hr hid => ?_⟩
      rw [hgid r] at hid
      rw [hgamount r]
      exact hrow r hr hid

/-- A journal entry is created for an entry, and its creator holds it. -/
theorem Good.create (h : Good db marks) {e : AccrualEntry} (hi : marks i = (Stage.create e).marks) :
    Good (db.createJournalEntry e.id) (Function.update marks i (Stage.attach e db.nextId).marks) := by
  have hnew : ∀ r ∈ db.entries, r.transactionId ≠ some db.nextId := by
    intro r hr ht
    obtain ⟨j, hj, hid, -⟩ := h.attached r hr _ ht
    exact absurd (h.journalFresh j hj) (by rw [hid]; exact lt_irrefl _)
  have hheldLt : ∀ k p, (marks k).holds = some p → p.2 < db.nextId := by
    intro k p hk
    obtain ⟨⟨j, hj, hid, -⟩, -⟩ := h.held k p hk
    exact hid ▸ h.journalFresh j hj
  have hheld : ∀ k p, (Function.update marks i (Stage.attach e db.nextId).marks k).holds = some p →
      (k = i ∧ p = (e.id, db.nextId)) ∨ (k ≠ i ∧ (marks k).holds = some p) := by
    intro k p hk
    rcases update_cases (f := Marks.holds) hk with ⟨hki, hm⟩ | hk
    · exact .inl ⟨hki, (Option.some.inj hm).symm⟩
    · exact .inr hk
  refine { h with fresh := ?_, journalIds := ?_, journalFresh := ?_, attached := ?_, claimed := ?_
                  booked := ?_, held := ?_, heldOnce := ?_, unposts := ?_, rows := ?_ }
  · exact fun r hr => (h.fresh r hr).trans (Nat.lt_succ_self _)
  · refine List.nodup_cons.mpr ⟨fun hmem => ?_, h.journalIds⟩
    obtain ⟨j, hj, hid⟩ := List.mem_map.mp hmem
    exact absurd (h.journalFresh j hj) (by rw [hid]; exact lt_irrefl _)
  · exact List.forall_mem_cons.mpr ⟨Nat.lt_succ_self _, fun j hj =>
      (h.journalFresh j hj).trans (Nat.lt_succ_self _)⟩
  · intro r hr t ht
    obtain ⟨j, hj, hid, hentry, hvoid⟩ := h.attached r hr t ht
    exact ⟨j, List.mem_cons_of_mem _ hj, hid, hentry, fun hv =>
      exists_update (f := Marks.resets) (hvoid hv) fun hres => by
        rw [hi] at hres
        cases hres⟩
  · intro r hr hposted hnone hne
    refine exists_update (f := Marks.claims) (h.claimed r hr hposted hnone hne) fun hclaim => ?_
    rwa [hi] at hclaim
  · refine List.forall_mem_cons.mpr ⟨fun _ => .inr ⟨i, by rw [Function.update_self]; rfl⟩, ?_⟩
    intro j hj hlive
    refine (h.booked j hj hlive).imp_right fun hk => exists_update (f := Marks.holds) hk fun hm => ?_
    rw [hi] at hm
    cases hm
  · intro k p hk
    rcases hheld k p hk with ⟨-, rfl⟩ | ⟨-, hk⟩
    · exact ⟨⟨_, List.mem_cons_self, rfl, rfl, rfl⟩, hnew⟩
    · obtain ⟨⟨j, hj, hjs⟩, hfree⟩ := h.held k p hk
      exact ⟨⟨j, List.mem_cons_of_mem _ hj, hjs⟩, hfree⟩
  · intro k l p q hk hl heq
    rcases hheld k p hk with ⟨hki, rfl⟩ | ⟨-, hk'⟩ <;> rcases hheld l q hl with ⟨hli, rfl⟩ | ⟨-, hl'⟩
    · exact hki.trans hli.symm
    · exact absurd (hheldLt l q hl') (by rw [← heq]; exact lt_irrefl _)
    · exact absurd (hheldLt k p hk') (by rw [heq]; exact lt_irrefl _)
    · exact h.heldOnce k l p q hk' hl' heq
  · intro k p hk
    rcases update_cases (f := Marks.unposts) hk with ⟨-, hm⟩ | ⟨-, hm⟩
    · cases hm
    · obtain ⟨⟨j, hj, hid, hentry⟩, hothers⟩ := h.unposts k p hm
      refine ⟨⟨j, List.mem_cons_of_mem _ hj, hid, hentry⟩, fun l q hl => ?_⟩
      rcases hheld l q hl with ⟨-, rfl⟩ | ⟨-, hl⟩
      · exact fun heq => absurd (h.journalFresh j hj) (by rw [hid, ← heq]; exact lt_irrefl _)
      · exact hothers l q hl
  · intro k x hk
    rcases update_cases (f := Marks.row) hk with ⟨-, hm⟩ | ⟨-, hm⟩
    · cases hm
    · obtain ⟨hlt, hrow⟩ := h.rows k x hm
      exact ⟨hlt.trans (Nat.lt_succ_self _), hrow⟩

/-- A journal entry that no call will hold is voided, and the entry it is on is put back next. -/
theorem Good.void (h : Good db marks) {t : ℕ} {accepted : Bool} {db' : Db}
    (hvoid : db.voidTransaction t accepted = some db')
    (hi : (marks i).claims = none ∧ (marks i).resets = none) (hm : m.unposts = none ∧ m.row = none)
    (hheld : ∀ k p, (Function.update marks i m k).holds = some p → (marks k).holds = some p ∧ p.2 ≠ t)
    (hkept : ∀ p, (marks i).holds = some p → p.2 ≠ t → m.holds = some p)
    (hback : ∀ e ∈ db.entries, e.transactionId = some t → m.resets = some e.id) :
    Good db' (Function.update marks i m) := by
  set v : AccrualJournal → AccrualJournal := fun j => if j.id = t then { j with isVoid := true } else j with hv
  obtain rfl : { db with journal := db.journal.map v } = db' := by
    unfold Db.voidTransaction at hvoid
    split_ifs at hvoid
    exact Option.some.inj hvoid
  have hvid : ∀ j, (v j).id = j.id := fun j => by simp only [hv]; split_ifs <;> rfl
  have hventry : ∀ j, (v j).entryId = j.entryId := fun j => by simp only [hv]; split_ifs <;> rfl
  have hvne : ∀ j, j.id ≠ t → v j = j := fun j hj => if_neg hj
  refine { h with journalIds := ?_, journalFresh := ?_, attached := ?_, claimed := ?_, booked := ?_
                  held := ?_, heldOnce := ?_, unposts := ?_, rows := ?_ }
  · show ((db.journal.map v).map (·.id)).Nodup
    rw [List.map_map]
    simpa only [Function.comp_def, hvid] using h.journalIds
  · refine List.forall_mem_map.mpr fun j hj => ?_
    rw [hvid j]
    exact h.journalFresh j hj
  · intro e he u hu
    obtain ⟨j, hj, hid, hentry, hback'⟩ := h.attached e he u hu
    refine ⟨v j, List.mem_map.mpr ⟨j, hj, rfl⟩, (hvid j).trans hid, (hventry j).trans hentry, fun hvj => ?_⟩
    by_cases hjt : j.id = t
    · refine ⟨i, ?_⟩
      rw [Function.update_self]
      exact hback e he (by rw [hu, ← hid, hjt])
    · rw [hvne j hjt] at hvj
      refine exists_update (f := Marks.resets) (hback' hvj) fun hres => ?_
      rw [hi.2] at hres
      cases hres
  · intro e he hposted hnone hne
    refine exists_update (f := Marks.claims) (h.claimed e he hposted hnone hne) fun hclaim => ?_
    rw [hi.1] at hclaim
    cases hclaim
  · refine List.forall_mem_map.mpr fun j hj hlive => ?_
    have hjt : j.id ≠ t := fun hjt => by simp [hv, hjt] at hlive
    rw [hvne j hjt] at hlive ⊢
    refine (h.booked j hj hlive).imp_right fun hk => ?_
    exact exists_update (f := Marks.holds) hk fun hm => hkept _ hm hjt
  · intro k p hk
    obtain ⟨hk, hpt⟩ := hheld k p hk
    obtain ⟨⟨j, hj, hid, hjs⟩, hfree⟩ := h.held k p hk
    refine ⟨⟨j, List.mem_map.mpr ⟨j, hj, hvne j (by rwa [hid])⟩, hid, hjs⟩, hfree⟩
  · intro k l p q hk hl
    exact h.heldOnce k l p q (hheld k p hk).1 (hheld l q hl).1
  · intro k p hk
    rcases update_cases (f := Marks.unposts) hk with ⟨-, hm'⟩ | ⟨-, hm'⟩
    · rw [hm.1] at hm'
      cases hm'
    · obtain ⟨⟨j, hj, hid, hentry⟩, hothers⟩ := h.unposts k p hm'
      exact ⟨⟨v j, List.mem_map.mpr ⟨j, hj, rfl⟩, (hvid j).trans hid, (hventry j).trans hentry⟩,
        fun l q hl => hothers l q (hheld l q hl).1⟩
  · intro k x hk
    rcases update_cases (f := Marks.row) hk with ⟨-, hm'⟩ | ⟨-, hm'⟩
    · rw [hm.2] at hm'
      cases hm'
    · exact h.rows k x hm'

/-- The entries of a schedule that has none posted are taken away. -/
theorem Good.deleteEntries (h : Good db marks) {scheduleId : ℕ} (hposted : db.anyPosted scheduleId = false) :
    Good (db.deleteEntries scheduleId) marks := by
  have hmem : ∀ {e}, e ∈ (db.deleteEntries scheduleId).entries → e ∈ db.entries :=
    fun he => (List.mem_filter.mp he).1
  refine { h with ids := ?_, fresh := fun e he => h.fresh e (hmem he), idle := fun e he => h.idle e (hmem he)
                  attached := fun e he => h.attached e (hmem he), claimed := fun e he => h.claimed e (hmem he)
                  booked := ?_, held := ?_, rows := ?_ }
  · exact h.ids.sublist (List.filter_sublist.map _)
  · intro j hj hlive
    refine (h.booked j hj hlive).imp_left fun ⟨e, he, hid, ht⟩ => ⟨e, List.mem_filter.mpr ⟨he, ?_⟩, hid, ht⟩
    have hstatus : e.status = .posted := by
      by_contra hs
      rw [h.idle e he hs] at ht
      cases ht
    have hnot := List.any_eq_false.mp hposted e he
    simp only [hstatus, decide_true, Bool.and_true, decide_eq_true_eq] at hnot
    simpa using hnot
  · exact fun k p hk => (h.held k p hk).imp_right fun hfree e he => hfree e (hmem he)
  · exact fun k x hk => (h.rows k x hk).imp_right fun hrow r hr => hrow r (hmem hr)

/-- Drafts are put in with new ids. -/
theorem Good.insertEntries (h : Good db marks) (scheduleId : ℕ) (terms : List EntryTerms) :
    Good (db.insertEntries scheduleId terms) marks := by
  have hmem : ∀ {e}, e ∈ (db.insertEntries scheduleId terms).entries → e ∈ db.entries ∨
      (db.nextId ≤ e.id ∧ e.id < db.nextId + terms.length ∧ e.status = .draft ∧ e.transactionId = none) := by
    intro e he
    refine (List.mem_append.mp he).imp_right fun hnew => ?_
    obtain ⟨t, ht, rfl⟩ := List.mem_map.mp hnew
    have := List.mem_zipIdx ht
    exact ⟨this.1, this.2.1, rfl, rfl⟩
  refine { h with ids := ?_, fresh := ?_, journalFresh := ?_, idle := ?_, attached := ?_, claimed := ?_
                  booked := ?_, held := ?_, rows := ?_ }
  · show ((db.entries ++ _).map (·.id)).Nodup
    have hids : ((terms.zipIdx db.nextId).map fun t => ({ id := t.2, scheduleId := scheduleId
                                                          postPeriod := t.1.1, amount := t.1.2
                                                          : AccrualEntry })).map (·.id) =
        List.range' db.nextId terms.length := by
      rw [List.map_map]
      exact List.zipIdx_map_snd ..
    rw [List.map_append, hids]
    refine List.Nodup.append h.ids List.nodup_range' fun id hold hnew => ?_
    obtain ⟨e, he, rfl⟩ := List.mem_map.mp hold
    have := h.fresh e he
    have := (List.mem_range'_1.mp hnew).1
    omega
  · intro e he
    show e.id < db.nextId + terms.length
    rcases hmem he with he | ⟨-, hlt, -⟩
    · exact (h.fresh e he).trans_le (Nat.le_add_right _ _)
    · exact hlt
  · exact fun j hj => (h.journalFresh j hj).trans_le (Nat.le_add_right _ _)
  · intro e he hs
    rcases hmem he with he | ⟨-, -, -, hnone⟩
    · exact h.idle e he hs
    · exact hnone
  · intro e he t ht
    rcases hmem he with he | ⟨-, -, -, hnone⟩
    · exact h.attached e he t ht
    · rw [hnone] at ht
      cases ht
  · intro e he hposted
    rcases hmem he with he | ⟨-, -, hdraft, -⟩
    · exact h.claimed e he hposted
    · rw [hdraft] at hposted
      cases hposted
  · intro j hj hlive
    exact (h.booked j hj hlive).imp_left fun ⟨e, he, hes⟩ => ⟨e, List.mem_append_left _ he, hes⟩
  · intro k p hk
    refine (h.held k p hk).imp_right fun hfree e he => ?_
    rcases hmem he with he | ⟨-, -, -, hnone⟩
    · exact hfree e he
    · rw [hnone]
      exact nofun
  · intro k x hk
    obtain ⟨hlt, hrow⟩ := h.rows k x hk
    refine ⟨hlt.trans_le (Nat.le_add_right _ _), fun r hr hid => ?_⟩
    rcases hmem hr with hr | ⟨hle, -⟩
    · exact hrow r hr hid
    · omega

/-- The schedules do not matter, and ids may be left out. -/
theorem Good.schedules (h : Good db marks) (schedules : List AccrualSchedule) {n : ℕ} (hn : db.nextId ≤ n) :
    Good { db with schedules := schedules, nextId := n } marks :=
  { h with
    fresh := fun e he => (h.fresh e he).trans_le hn
    journalFresh := fun j hj => (h.journalFresh j hj).trans_le hn
    rows := fun k x hk => (h.rows k x hk).imp_left fun hlt => hlt.trans_le hn }

end Update

/-! ## The statements -/

section Statements

variable {accepted : Bool}

theorem entry_some {id : ℕ} {e : AccrualEntry} (h : db.entry id = some e) : e ∈ db.entries ∧ e.id = id :=
  ⟨List.mem_of_find?_eq_some h, by simpa using List.find?_some h⟩

/-- A call that answers for nothing goes on to one that holds nothing either. -/
theorem Good.take (h : Good db marks) (hi : marks i = {}) (m : Marks) (hholds : m.holds = none)
    (hunposts : ∀ p, m.unposts = some p → (∃ j ∈ db.journal, j.id = p.2 ∧ j.entryId = p.1) ∧
      ∀ k q, (marks k).holds = some q → q.2 ≠ p.2)
    (hrows : ∀ e, m.row = some e → e.id < db.nextId ∧ ∀ r ∈ db.entries, r.id = e.id → r.amount = e.amount) :
    Good db (Function.update marks i m) :=
  h.mark m (fun e _ hc => by rw [hi] at hc; cases hc) (fun e _ hr => by rw [hi] at hr; cases hr)
    (by rw [hi, hholds]) hunposts hrows

theorem Good.pass (h : Good db marks) (hi : marks i = {}) (hm : m = {}) :
    Good db (Function.update marks i m) := by
  subst hm
  exact h.take hi {} rfl nofun nofun

theorem Good.stay (h : Good db marks) (hi : marks i = m) : Good db (Function.update marks i m) := by
  rwa [← hi, Function.update_eq_self]

theorem good_read (h : Good db marks) {id : ℕ} (hi : marks i = {}) :
    Good ((Stage.read id).advance db accepted).1
      (Function.update marks i ((Stage.read id).advance db accepted).2.marks) := by
  rcases he : db.entry id with _ | e
  · simp only [Stage.advance, he]
    exact h.pass hi rfl
  · obtain ⟨hmem, -⟩ := entry_some he
    simp only [Stage.advance, he]
    split_ifs
    · refine h.take hi _ rfl nofun fun x hx => ?_
      obtain rfl := Option.some.inj hx
      exact ⟨h.fresh e hmem, fun r hr hid => by rw [List.inj_on_of_nodup_map h.ids hr hmem hid]⟩
    · exact h.pass hi rfl

/-- Posted with a claim, unless it is an entry of nothing. -/
theorem good_claim (h : Good db marks) {e : AccrualEntry} (hi : marks i = (Stage.claim e).marks) :
    Good ((Stage.claim e).advance db accepted).1
      (Function.update marks i ((Stage.claim e).advance db accepted).2.marks) := by
  have hrow := (h.rows i e (by rw [hi]; rfl)).2
  have hdrop : ∀ m : Marks, m.holds = none → m.unposts = none → m.row = none →
      Good db (Function.update marks i m) := by
    intro m hholds hunposts hrow
    refine h.mark m (fun r _ hc => ?_) (fun r _ hr => ?_) ?_ (by simp [hunposts]) (by simp [hrow])
    · rw [hi] at hc
      cases hc
    · rw [hi] at hr
      cases hr
    · rw [hi, hholds]
      rfl
  simp only [Stage.advance]
  split_ifs with hdraft hzero
  · refine (hdrop {} rfl rfl rfl).updateEntries (fun _ => rfl) (fun _ => rfl) ?_ (fun _ _ _ => .inl rfl) ?_
    · exact fun r _ _ hs => absurd rfl hs
    · intro r hr hc _ _ hne
      simp only [Bool.and_eq_true, decide_eq_true_eq] at hc
      exact absurd (hrow r hr hc.1 ▸ hzero) hne
  · refine (hdrop (Stage.create e).marks rfl rfl rfl).updateEntries (fun _ => rfl) (fun _ => rfl) ?_
      (fun _ _ _ => .inl rfl) ?_
    · exact fun r _ _ hs => absurd rfl hs
    · intro r hr hc _ _ _
      simp only [Bool.and_eq_true, decide_eq_true_eq] at hc
      refine ⟨i, ?_⟩
      rw [Function.update_self, hc.1]
      rfl
  · exact hdrop {} rfl rfl rfl

theorem good_create (h : Good db marks) {e : AccrualEntry} (hi : marks i = (Stage.create e).marks) :
    Good ((Stage.create e).advance db accepted).1
      (Function.update marks i ((Stage.create e).advance db accepted).2.marks) := by
  simp only [Stage.advance]
  split_ifs
  · exact h.create hi
  · exact h.stay hi

theorem good_release (h : Good db marks) {e : AccrualEntry} (hi : marks i = (Stage.release e).marks) :
    Good ((Stage.release e).advance db accepted).1
      (Function.update marks i ((Stage.release e).advance db accepted).2.marks) := by
  have hreleased : Good ((Stage.release e).advance db accepted).1 marks := by
    refine h.updateEntries (fun _ => rfl) (fun _ => rfl) ?_ (fun _ _ _ => .inl rfl) (fun r _ _ hs => ?_)
    · exact fun r _ hc _ => (claimStands_iff.mp hc).2.2
    · cases hs
  refine hreleased.mark {} (fun r hr hc hposted hnone _ => ?_) (fun r _ hres => ?_) ?_ nofun nofun
  · obtain ⟨r₀, hr₀, rfl⟩ := List.mem_map.mp hr
    by_cases hstands : claimStands e r₀ = true
    · simp [hstands] at hposted
    · simp only [hstands, if_false, Bool.false_eq_true] at hc hposted hnone
      rw [hi] at hc
      exact absurd (claimStands_iff.mpr ⟨(Option.some.inj hc).symm, hposted, hnone⟩) hstands
  · rw [hi] at hres
    cases hres
  · rw [hi]
    rfl

theorem good_attach (h : Good db marks) {e : AccrualEntry} {t : ℕ} (hi : marks i = (Stage.attach e t).marks) :
    Good ((Stage.attach e t).advance db accepted).1
      (Function.update marks i ((Stage.attach e t).advance db accepted).2.marks) := by
  simp only [Stage.advance]
  split_ifs with hstands
  · exact h.attach hi hstands
  · refine h.mark _ (fun r hr hc hposted hnone _ => ?_) (fun r _ hres => ?_) ?_ nofun nofun
    · rw [hi] at hc
      exact absurd (List.any_eq_true.mpr
        ⟨r, hr, claimStands_iff.mpr ⟨(Option.some.inj hc).symm, hposted, hnone⟩⟩) hstands
    · rw [hi] at hres
      cases hres
    · rw [hi]
      rfl

/-- A journal entry whose claim is gone is voided, if the void is not refused. -/
theorem good_voidCreated (h : Good db marks) {e : AccrualEntry} {t : ℕ}
    (hi : marks i = (Stage.voidCreated e t).marks) (haccepted : accepted = true) :
    Good ((Stage.voidCreated e t).advance db accepted).1
      (Function.update marks i ((Stage.voidCreated e t).advance db accepted).2.marks) := by
  have hholds : (marks i).holds = some (e.id, t) := by rw [hi]; rfl
  obtain ⟨⟨j, hj, hid, hentry, hlive⟩, hfree⟩ := h.held i _ hholds
  obtain ⟨db', hdb'⟩ : ∃ db', db.voidTransaction t accepted = some db' := by
    have hany : (db.journal.any fun j => j.id = t && !j.isVoid) = true :=
      List.any_eq_true.mpr ⟨j, hj, by simp [hid, hlive]⟩
    unfold Db.voidTransaction
    rw [haccepted, hany]
    exact ⟨_, rfl⟩
  simp only [Stage.advance, hdb', Option.getD_some]
  refine h.void hdb' ⟨by rw [hi]; rfl, by rw [hi]; rfl⟩ ⟨rfl, rfl⟩ (fun k p hk => ?_) (fun p hp hpt => ?_)
    (fun r hr ht => absurd ht (hfree r hr))
  · rcases update_cases (f := Marks.holds) hk with ⟨-, hm⟩ | ⟨hki, hk⟩
    · cases hm
    · exact ⟨hk, fun hpt => hki (h.heldOnce k i p _ hk hholds hpt)⟩
  · rw [hholds] at hp
    exact absurd (Option.some.inj hp ▸ rfl) hpt

/-- The journal entry a posted entry was read with was created for it, and no call holds it. -/
theorem good_unpostRead (h : Good db marks) {id : ℕ} (hi : marks i = {}) :
    Good ((Stage.unpostRead id).advance db accepted).1
      (Function.update marks i ((Stage.unpostRead id).advance db accepted).2.marks) := by
  rcases he : db.entry id with _ | e
  · simp only [Stage.advance, he]
    exact h.pass hi rfl
  · obtain ⟨hmem, -⟩ := entry_some he
    simp only [Stage.advance, he]
    split_ifs
    · rcases ht : e.transactionId with _ | t
      · exact h.take hi _ rfl nofun nofun
      · refine h.take hi _ rfl (fun p hp => ?_) nofun
        obtain rfl := Option.some.inj hp
        obtain ⟨j, hj, hid, hentry, -⟩ := h.attached e hmem t ht
        refine ⟨⟨j, hj, hid, hentry⟩, fun k q hq heq => ?_⟩
        exact (h.held k q hq).2 e hmem (by rw [ht, heq])
    · exact h.pass hi rfl

theorem good_readTransaction (h : Good db marks) {e : AccrualEntry} {t : ℕ}
    (hi : marks i = (Stage.readTransaction e t).marks) :
    Good ((Stage.readTransaction e t).advance db accepted).1
      (Function.update marks i ((Stage.readTransaction e t).advance db accepted).2.marks) := by
  simp only [Stage.advance]
  split_ifs
  · exact h.stay hi
  · refine h.mark _ (fun r _ hc => ?_) (fun r _ hres => ?_) ?_ nofun nofun
    · rw [hi] at hc
      cases hc
    · rw [hi] at hres
      cases hres
    · rw [hi]
      rfl

theorem good_voidPosted (h : Good db marks) {e : AccrualEntry} {t : ℕ}
    (hi : marks i = (Stage.voidPosted e t).marks) :
    Good ((Stage.voidPosted e t).advance db accepted).1
      (Function.update marks i ((Stage.voidPosted e t).advance db accepted).2.marks) := by
  obtain ⟨⟨j, hj, hid, hentry⟩, hothers⟩ := h.unposts i (e.id, t) (by rw [hi]; rfl)
  have hholds : (marks i).holds = none := by rw [hi]; rfl
  rcases hdb' : db.voidTransaction t accepted with _ | db'
  · simp only [Stage.advance, hdb']
    refine h.mark {} (fun r _ hc => ?_) (fun r _ hres => ?_) hholds.symm nofun nofun
    · rw [hi] at hc
      cases hc
    · rw [hi] at hres
      cases hres
  · simp only [Stage.advance, hdb']
    refine h.void hdb' ⟨by rw [hi]; rfl, by rw [hi]; rfl⟩ ⟨rfl, rfl⟩ (fun k p hk => ?_)
      (fun p hp => by rw [hholds] at hp; cases hp) (fun r hr ht => ?_)
    · rcases update_cases (f := Marks.holds) hk with ⟨-, hm⟩ | ⟨-, hk⟩
      · cases hm
      · exact ⟨hk, hothers k p hk⟩
    · obtain ⟨j', hj', hid', hentry', -⟩ := h.attached r hr t ht
      have : j' = j := List.inj_on_of_nodup_map h.journalIds hj' hj (hid'.trans hid.symm)
      exact congrArg some (hentry.symm.trans (this ▸ hentry'))

/-- A reset that takes no journal entry off its entry but a void one. -/
theorem good_reset (h : Good db marks) {e : AccrualEntry} (hi : marks i = (Stage.reset e).marks)
    (hfree : (Stage.reset e).Undisturbed db accepted) :
    Good ((Stage.reset e).advance db accepted).1
      (Function.update marks i ((Stage.reset e).advance db accepted).2.marks) := by
  have hreset : Good ((Stage.reset e).advance db accepted).1 marks := by
    refine h.updateEntries (fun _ => rfl) (fun _ => rfl) (fun _ _ _ _ => rfl) (fun r hr hc => ?_)
      (fun r _ _ hs => by cases hs)
    simp only [Bool.and_eq_true, decide_eq_true_eq] at hc
    exact .inr ⟨rfl, hfree r hr hc.1⟩
  refine hreset.mark {} (fun r _ hc => ?_) (fun r hr hres ht => ?_) ?_ nofun nofun
  · rw [hi] at hc
    cases hc
  · obtain ⟨r₀, hr₀, rfl⟩ := List.mem_map.mp hr
    rw [hi] at hres
    by_cases hposted : r₀.id = e.id ∧ r₀.status = .posted
    · simp [hposted] at ht
    · simp only [Bool.and_eq_true, decide_eq_true_eq, if_neg hposted] at hres ht
      have hstatus : r₀.status ≠ .posted := fun hs => hposted ⟨(Option.some.inj hres).symm, hs⟩
      exact absurd (h.idle r₀ hr₀ hstatus) ht
  · rw [hi]
    rfl

theorem good_cancelEntries (h : Good db marks) {scheduleId : ℕ} (hi : marks i = {}) :
    Good ((Stage.cancelEntries scheduleId).advance db accepted).1
      (Function.update marks i ((Stage.cancelEntries scheduleId).advance db accepted).2.marks) := by
  have hcancelled : Good ((Stage.cancelEntries scheduleId).advance db accepted).1 marks := by
    refine h.updateEntries (fun _ => rfl) (fun _ => rfl) (fun r hr hc _ => ?_) (fun _ _ _ => .inl rfl)
      (fun r _ _ hs => by cases hs)
    simp only [Bool.and_eq_true, decide_eq_true_eq] at hc
    exact h.idle r hr (by rw [hc.2]; decide)
  exact hcancelled.pass hi rfl

theorem good_replace (h : Good db marks) {scheduleId : ℕ} {terms : List EntryTerms} (hi : marks i = {}) :
    Good ((Stage.replace scheduleId terms).advance db accepted).1
      (Function.update marks i ((Stage.replace scheduleId terms).advance db accepted).2.marks) := by
  simp only [Stage.advance]
  split_ifs with hopen
  · have hposted : db.anyPosted scheduleId = false := by
      simpa using (Bool.and_eq_true_iff.mp hopen).2
    exact ((h.deleteEntries hposted).insertEntries scheduleId terms).pass hi rfl
  · exact h.pass hi rfl

theorem good_delete (h : Good db marks) {scheduleId : ℕ} (hi : marks i = {}) :
    Good ((Stage.delete scheduleId).advance db accepted).1
      (Function.update marks i ((Stage.delete scheduleId).advance db accepted).2.marks) := by
  simp only [Stage.advance]
  split_ifs with hposted
  · exact h.pass hi rfl
  · exact ((h.deleteEntries (by simpa using hposted)).schedules _ le_rfl).pass hi rfl

/-- What a statement keeps. -/
theorem good_statement (h : Good db marks) {stage : Stage} (hi : marks i = stage.marks)
    (hcond : stage.Undisturbed db accepted) :
    Good (stage.advance db accepted).1 (Function.update marks i (stage.advance db accepted).2.marks) := by
  cases stage with
  | read id => exact good_read h hi
  | claim e => exact good_claim h hi
  | create e => exact good_create h hi
  | release e => exact good_release h hi
  | attach e t => exact good_attach h hi
  | voidCreated e t => exact good_voidCreated h hi hcond
  | unpostRead id => exact good_unpostRead h hi
  | readTransaction e t => exact good_readTransaction h hi
  | voidPosted e t => exact good_voidPosted h hi
  | reset e => exact good_reset h hi hcond
  | cancelEntries scheduleId => exact good_cancelEntries h hi
  | replace scheduleId terms => exact good_replace h hi
  | delete scheduleId => exact good_delete h hi
  | insertSchedule companyId terms =>
    exact ((h.schedules _ (Nat.le_succ _)).insertEntries _ terms).pass hi rfl
  | complete scheduleId => exact (h.schedules _ le_rfl).pass hi rfl
  | reactivate scheduleId => exact (h.schedules _ le_rfl).pass hi rfl
  | cancelSchedule scheduleId => exact (h.schedules _ le_rfl).pass hi rfl
  | entriesForMonth companyId period => exact h.pass hi rfl
  | countDrafts scheduleId =>
    simp only [Stage.advance]
    split_ifs <;> exact h.pass hi rfl
  | updateRead scheduleId terms =>
    simp only [Stage.advance]
    split_ifs <;> exact h.pass hi rfl
  | deleteRead scheduleId =>
    simp only [Stage.advance]
    split_ifs <;> exact h.pass hi rfl
  | cancelRead scheduleId =>
    simp only [Stage.advance]
    split_ifs <;> exact h.pass hi rfl

end Statements

/-! ## The runs -/

section Runs

theorem update_marks (s : System) (db : Db) (i : ℕ) (c : Option Call) :
    System.marks ⟨db, Function.update s.calls i c⟩ =
      Function.update s.marks i ((c.map (·.stage.marks)).getD {}) := by
  funext k
  by_cases hki : k = i
  · subst hki
    simp [System.marks]
  · simp [System.marks, hki]

theorem first_marks (r : Request) : r.first.marks = {} := by
  cases r <;> rfl

theorem good_step (s : System) (a : Action) (s' : System) (h : Good s.db s.marks) (hcond : s.Undisturbed a)
    (hstep : s.step a = some s') : Good s'.db s'.marks := by
  cases a with
  | start i r =>
    simp only [System.step] at hstep
    split_ifs at hstep with hbusy
    obtain rfl := Option.some.inj hstep
    rw [update_marks]
    refine h.pass ?_ (first_marks r)
    simp [System.marks, Option.not_isSome_iff_eq_none.mp hbusy]
  | statement i accepted =>
    obtain ⟨c, hc, rfl⟩ := Option.map_eq_some_iff.mp hstep
    rw [update_marks, follow_marks]
    have hi : s.marks i = c.stage.marks := by simp [System.marks, hc]
    exact good_statement h hi (hcond c hc)

/-- Whenever no call is in progress, every entry with an amount is posted just when a journal entry for
it is not void, and then there is one, which it references. -/
theorem accruals_booked_once {actions : List Action} {s : System}
    (hrun : run System.step {} actions = some s) (hcond : RunMeets System.step System.Undisturbed {} actions)
    (hquiet : s.Quiet) {e : AccrualEntry} (he : e ∈ s.db.entries) (hamount : e.amount ≠ 0) :
    BookedOnce s.db e := by
  have hgood : Good s.db s.marks :=
    run_keeps_of (P := fun s => Good s.db s.marks) good_step hrun hcond good_empty
  have hmarks : s.marks = fun _ => {} := by
    funext i
    simp [System.marks, hquiet i]
  exact (hmarks ▸ hgood).bookedOnce he hamount

/-- The statements of a call, none refused. -/
def statements (i n : ℕ) : List Action := List.replicate n (.statement i true)

/-- An entry is posted, unposted and posted again, each call after the other. -/
def postedAgain : List Action :=
  .start 0 (.createSchedule none [(1, 100)]) :: statements 0 1 ++
    .start 0 (.postEntry 1) :: statements 0 6 ++
    .start 0 (.unpostEntry 1) :: statements 0 5 ++
    .start 0 (.postAllForMonth none 1) :: statements 0 7

theorem postedAgain_bookedOnce : ∃ s e, run System.step {} postedAgain = some s ∧ s.Quiet ∧
    e ∈ s.db.entries ∧ e.amount ≠ 0 ∧ BookedOnce s.db e := by
  have hmeets : RunMeets System.step System.Undisturbed {} postedAgain := by decide +kernel
  obtain ⟨s, hrun, hquiet, hentries⟩ : ∃ s, run System.step {} postedAgain = some s ∧ s.Quiet ∧
      s.db.entries = [⟨1, 0, 1, 100, .posted, some 3⟩] := by
    refine ⟨_, rfl, ?_, by decide +kernel⟩
    rintro (_ | i) <;> rfl
  have he : (⟨1, 0, 1, 100, .posted, some 3⟩ : AccrualEntry) ∈ s.db.entries := by simp [hentries]
  have hamount : (100 : Dec) ≠ 0 := by decide +kernel
  exact ⟨s, _, hrun, hquiet, he, hamount, accruals_booked_once hrun hmeets hquiet he hamount⟩

/-- An entry is unposted by a call that read it while it was being posted, and posted again. -/
def unpostedLate : List Action :=
  .start 0 (.createSchedule none [(1, 100)]) :: statements 0 1 ++
    .start 0 (.postEntry 1) :: statements 0 2 ++
    .start 1 (.unpostEntry 1) :: statements 1 1 ++
    statements 0 4 ++ statements 1 2 ++
    .start 0 (.postEntry 1) :: statements 0 6

/-- The journal entry of the first posting is on no entry, and not void. -/
theorem unpostedLate_bookedTwice : ∃ s e, run System.step {} unpostedLate = some s ∧ s.Quiet ∧
    e ∈ s.db.entries ∧ e.amount ≠ 0 ∧ (s.db.live e).length = 2 ∧ ¬BookedOnce s.db e := by
  obtain ⟨s, hrun, hquiet, hentries, hjournal⟩ : ∃ s, run System.step {} unpostedLate = some s ∧ s.Quiet ∧
      s.db.entries = [⟨1, 0, 1, 100, .posted, some 3⟩] ∧
      s.db.journal = [⟨3, 1, false⟩, ⟨2, 1, false⟩] := by
    refine ⟨_, rfl, ?_, by decide +kernel, by decide +kernel⟩
    rintro (_ | _ | i) <;> rfl
  have hlive : (s.db.live ⟨1, 0, 1, 100, .posted, some 3⟩).length = 2 := by
    simp [Db.live, hjournal]
  exact ⟨s, _, hrun, hquiet, by simp [hentries], by decide +kernel, hlive, fun h => by
    have := h.once
    omega⟩

end Runs

end Accruals

end MyBooks
