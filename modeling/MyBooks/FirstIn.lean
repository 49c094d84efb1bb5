import MyBooks.PaymentTimeline

/-!
# Payments meet the installments first in, first out

Whatever order the payments come in, on each day an installment that is due lacks what the schedule
requires up to it beyond what was paid by that day, and at most itself; what was paid is what was
applied and the excess (`applyPayments_firstIn`).
-/

namespace MyBooks

section Run

variable {insts : List InstallmentDue} {s : PayState} {ev : Event} {now t : ℤ} {paid : Dec}
  {events : List Event}

@[simp] theorem run_nil : s.run [] = s := rfl

@[simp] theorem run_cons : s.run (ev :: events) = (s.step ev).run events := rfl

theorem run_append {events' : List Event} : s.run (events ++ events') = (s.run events).run events' :=
  List.foldl_append

/-- The events still to come fit the state: they are dated in order from `now` on, and each
installment that is not due yet falls due at most once. -/
structure PayState.Ready (insts : List InstallmentDue) (now : ℤ) (s : PayState)
    (events : List Event) : Prop where
  fits : ∀ ev ∈ events, ev.Fits insts
  dated : ∀ ev ∈ events, now ≤ ev.date
  sorted : events.Pairwise fun a b => a.date ≤ b.date
  once : events.Pairwise fun a b => a.kind = .due → b.kind = .due → a.index ≠ b.index
  undue : ∀ ev ∈ events, ev.kind = .due → ∀ row, s.rows[ev.index]? = some row → row.due = false

theorem Running.After.due {i : ℕ} {row row' : Running} (h : Running.After s ev i row row') :
    row'.due = true ↔ row.due = true ∨ (ev.kind = .due ∧ ev.index = i) := by
  rcases h with ⟨hk, hi, rfl⟩ | ⟨hk, hi, rfl⟩ | ⟨payment, hk, htakes⟩
  · simp [Running.fallDue, hk, hi]
  · simp [hi]
  · simp [hk, htakes.due]

theorem PayState.Ready.tail (h : s.Ready insts now (ev :: events)) :
    (s.step ev).Ready insts ev.date events := by
  obtain ⟨hsorted, hsorteds⟩ := List.pairwise_cons.mp h.sorted
  obtain ⟨honce, honces⟩ := List.pairwise_cons.mp h.once
  refine ⟨fun e he => h.fits e (List.mem_cons_of_mem _ he), hsorted, hsorteds, honces, ?_⟩
  intro e he hk row' hrow'
  obtain ⟨row, hrow, hafter⟩ := step_row hrow'
  have hundue := h.undue e (List.mem_cons_of_mem _ he) hk row hrow
  refine Bool.eq_false_iff.mpr fun hdue => ?_
  rcases hafter.due.mp hdue with hd | ⟨hk', hi⟩
  · rw [hundue] at hd
    cases hd
  · exact honce e he hk' hk hi

/-- One event. -/
theorem PayState.Sound.step (h : s.Sound insts now paid) (hready : s.Ready insts now (ev :: events)) :
    (s.step ev).Sound insts ev.date (paid + ev.pays) := by
  have hfits := hready.fits ev List.mem_cons_self
  have hle := hready.dated ev List.mem_cons_self
  rcases hk : ev.kind with _ | payment
  · have hpays : ev.pays = 0 := by simp only [Event.pays, hk]
    rw [hpays, add_zero]
    exact step_due_sound h hk hfits hle (hready.undue ev List.mem_cons_self hk)
  · have hpays : ev.pays = ev.amount := by simp only [Event.pays, hk]
    rw [hpays]
    exact step_pay_sound h hk hfits hle

/-- A run of events. -/
theorem run_sound : ∀ {events : List Event} {s : PayState} {now : ℤ} {paid : Dec},
    s.Sound insts now paid → s.Ready insts now events → now ≤ t → (∀ ev ∈ events, ev.date ≤ t) →
    (s.run events).Sound insts t (paid + (events.map Event.pays).sum)
  | [], s, now, paid, h, _, hle, _ => by
    simpa using { h with tracks := fun i inst row hi hr => (h.tracks i inst row hi hr).mono hle }
  | ev :: events, s, now, paid, h, hready, hle, ht => by
    obtain ⟨hev, hevs⟩ := List.forall_mem_cons.mp ht
    have := run_sound (h.step hready) hready.tail hev hevs
    rwa [add_assoc, ← List.sum_cons, ← List.map_cons] at this

theorem run_due : ∀ {events : List Event} {s : PayState} {i : ℕ} {row' : Running},
    (s.run events).rows[i]? = some row' → ∃ row, s.rows[i]? = some row ∧
      (row'.due = true ↔ row.due = true ∨ ∃ ev ∈ events, ev.kind = .due ∧ ev.index = i)
  | [], s, i, row', h => ⟨row', h, by simp⟩
  | ev :: events, s, i, row', h => by
    rw [run_cons] at h
    obtain ⟨mid, hmid, hdue⟩ := run_due h
    obtain ⟨row, hrow, hafter⟩ := step_row hmid
    refine ⟨row, hrow, hdue.trans ?_⟩
    rw [hafter.due, List.exists_mem_cons_iff]
    tauto

/-- An event of a later day does not touch a timeline up to day `t`. -/
theorem Running.After.timeline {i : ℕ} {row row' : Running} (h : Running.After s ev i row row')
    (ht : t < ev.date) :
    row'.timeline.filter (·.date ≤ t) = row.timeline.filter (·.date ≤ t) := by
  have hlater : ∀ b : Dec, [BalancePoint.mk ev.date b].filter (·.date ≤ t) = [] := fun b => by
    simp [ht]
  rcases h with ⟨hk, hi, rfl⟩ | ⟨hk, hi, rfl⟩ | ⟨payment, hk, rfl | ⟨x, hx, hle, hdue, rfl⟩⟩
  · rw [fallDue_timeline _ _ _ _ (min_le_right _ _), List.filter_append, hlater, List.append_nil]
  · rfl
  · rfl
  · simp only [Running.take, List.filter_append, hlater, List.append_nil]

theorem run_timeline : ∀ {events : List Event} {s : PayState} {i : ℕ} {row' : Running},
    (∀ ev ∈ events, t < ev.date) → (s.run events).rows[i]? = some row' →
    ∃ row, s.rows[i]? = some row ∧
      row'.timeline.filter (·.date ≤ t) = row.timeline.filter (·.date ≤ t)
  | [], s, i, row', _, h => ⟨row', h, rfl⟩
  | ev :: events, s, i, row', ht, h => by
    obtain ⟨hev, hevs⟩ := List.forall_mem_cons.mp ht
    rw [run_cons] at h
    obtain ⟨mid, hmid, hsame⟩ := run_timeline hevs h
    obtain ⟨row, hrow, hafter⟩ := step_row hmid
    exact ⟨row, hrow, hsame.trans (hafter.timeline hev)⟩

end Run

section InOrder

variable {insts : List InstallmentDue} {s : PayState} {ev : Event} {now t : ℤ} {paid : Dec}
  {events : List Event}

/-- The installments yet to fall due do so in order, after all that are due. -/
structure PayState.InOrder (s : PayState) (events : List Event) : Prop where
  order : events.Pairwise fun a b => a.kind = .due → b.kind = .due → a.index < b.index
  above : ∀ ev ∈ events, ev.kind = .due → ∀ (j : ℕ) (row : Running), ev.index ≤ j →
    s.rows[j]? = some row → row.due = false

theorem PayState.InOrder.tail (h : s.InOrder (ev :: events)) : (s.step ev).InOrder events := by
  obtain ⟨horder, horders⟩ := List.pairwise_cons.mp h.order
  refine ⟨horders, ?_⟩
  intro e he hk j row' hj hrow'
  obtain ⟨row, hrow, hafter⟩ := step_row hrow'
  have habove := h.above e (List.mem_cons_of_mem _ he) hk j row hj hrow
  refine Bool.eq_false_iff.mpr fun hdue => ?_
  rcases hafter.due.mp hdue with hd | ⟨hk', hi⟩
  · rw [habove] at hd
    cases hd
  · have := horder e he hk' hk
    omega

/-- The balances and the excess are what pouring all that was paid over the demands leaves. -/
def PayState.Poured (insts : List InstallmentDue) (paid : Dec) (s : PayState) : Prop :=
  (s.rows.map Running.balance, s.excess) = pour (demands insts s.rows) paid

theorem demands_nonneg (hreq : ∀ inst ∈ insts, 0 ≤ inst.required) (rows : List Running) :
    ∀ d ∈ demands insts rows, 0 ≤ d := by
  intro d hd
  obtain ⟨i, hi, rfl⟩ := List.getElem_of_mem hd
  simp only [demands, List.getElem_zipWith]
  split_ifs
  · exact hreq _ (List.getElem_mem _)
  · exact le_rfl

theorem PayState.Poured.step (h : s.Poured insts paid) (hsound : s.Sound insts now paid)
    (hpaid : 0 ≤ paid) (hreq : ∀ inst ∈ insts, 0 ≤ inst.required)
    (hready : s.Ready insts now (ev :: events)) (horder : s.InOrder (ev :: events)) :
    (s.step ev).Poured insts (paid + ev.pays) := by
  obtain ⟨hbal, hover⟩ := Prod.ext_iff.mp h
  have hfits := hready.fits ev List.mem_cons_self
  unfold PayState.Poured
  rcases hk : ev.kind with _ | payment
  · have hundue := hready.undue ev List.mem_cons_self hk
    obtain ⟨hbalances, hdemands⟩ := hsound.step_due_lists hk hfits hundue
    obtain ⟨inst, hinst, -, -, -⟩ := hfits.due hk
    have hlt : ev.index < (demands insts s.rows).length :=
      (List.getElem?_eq_some_iff.mp (hsound.undue_row hinst hundue).2.2).1
    have hzero : ∀ (j : ℕ) d, ev.index ≤ j → (demands insts s.rows)[j]? = some d → d = 0 := by
      intro j d hj hd
      obtain ⟨_, row, _, hrow, rfl⟩ := List.getElem?_zipWith_eq_some.mp hd
      rw [horder.above ev List.mem_cons_self hk j row hj hrow]
      rfl
    have hpays : ev.pays = 0 := by simp only [Event.pays, hk]
    rw [hpays, add_zero, hdemands, pour_set hlt hpaid hzero, hbalances, step_due hk, min_comm]
    simp only at hbal hover
    rw [hbal, hover]
  · obtain ⟨hbalances, hov, hdemands⟩ := hsound.step_pay_lists hk hfits
    have hpays : ev.pays = ev.amount := by simp only [Event.pays, hk]
    simp only at hbal hover
    rw [hpays, hdemands, pour_add (demands_nonneg hreq _) hpaid (hfits.pay hk).le, hbalances,
      hov, hbal, hover]

theorem Event.Fits.pays_nonneg (h : ev.Fits insts) : 0 ≤ ev.pays := by
  rcases hk : ev.kind with _ | payment
  · simp only [Event.pays, hk, le_rfl]
  · simpa only [Event.pays, hk] using (h.pay hk).le

theorem run_poured (hreq : ∀ inst ∈ insts, 0 ≤ inst.required) :
    ∀ {events : List Event} {s : PayState} {now : ℤ} {paid : Dec}, s.Poured insts paid →
      s.Sound insts now paid → 0 ≤ paid → s.Ready insts now events → s.InOrder events →
      (s.run events).Poured insts (paid + (events.map Event.pays).sum)
  | [], s, now, paid, h, _, _, _, _ => by simpa using h
  | ev :: events, s, now, paid, h, hsound, hpaid, hready, horder => by
    have hpays := (hready.fits ev List.mem_cons_self).pays_nonneg
    have := run_poured hreq (h.step hsound hpaid hreq hready horder) (hsound.step hready)
      (add_nonneg hpaid hpays) hready.tail horder.tail
    rwa [add_assoc, ← List.sum_cons, ← List.map_cons] at this

end InOrder

section Schedule

variable {inp : PaymentApplicationInput}

/-- What is paid on the days that meet `on`: the withholding shares and payments above zero. -/
def PaymentApplicationInput.received (inp : PaymentApplicationInput) (on : ℤ → Bool) : Dec :=
  tally (fun x : InstallmentDue × Dec => decide (0 < x.2) && on x.1.dueDate) Prod.snd
      (inp.installments.zip inp.withholdingShares) +
    tally (fun p => decide (0 < p.amount) && on p.date) EstimatePayment.amount inp.payments

theorem Event.le_total (a b : Event) : a.le b ∨ b.le a := by
  unfold Event.le
  omega

theorem Event.le_trans {a b c : Event} (hab : a.le b) (hbc : b.le c) : a.le c := by
  unfold Event.le at *
  omega

instance : Std.Total Event.le := ⟨Event.le_total⟩

instance : IsTrans Event Event.le := ⟨fun _ _ _ => Event.le_trans⟩

theorem mem_pushed {ev : Event} (h : ev ∈ inp.pushed) :
    (∃ i inst share, inp.installments[i]? = some inst ∧ inp.withholdingShares[i]? = some share ∧
      ev ∈ installmentEvents ((inst, share), i)) ∨
    ∃ p ∈ inp.payments, 0 < p.amount ∧ ev = paymentEvent inp.installments.length p := by
  rcases List.mem_append.mp h with h | h
  · obtain ⟨⟨⟨inst, share⟩, i⟩, hmem, hev⟩ := List.mem_flatMap.mp h
    obtain ⟨hinst, hshare⟩ :=
      List.getElem?_zip_eq_some.mp (List.mk_mem_zipIdx_iff_getElem?.mp hmem)
    exact .inl ⟨i, inst, share, hinst, hshare, hev⟩
  · obtain ⟨p, hp, rfl⟩ := List.mem_map.mp h
    obtain ⟨hp, hpos⟩ := List.mem_filter.mp hp
    exact .inr ⟨p, hp, by simpa using hpos, rfl⟩

theorem mem_installmentEvents {x : (InstallmentDue × Dec) × ℕ} {ev : Event}
    (h : ev ∈ installmentEvents x) :
    ev = { date := x.1.1.dueDate, kind := .due, amount := x.1.1.required, index := x.2 } ∨
      (ev.kind ≠ .due ∧ ev.date = x.1.1.dueDate ∧ ev.amount = x.1.2 ∧ 0 < x.1.2 ∧ ev.index = x.2) := by
  unfold installmentEvents at h
  rcases List.mem_cons.mp h with rfl | h
  · exact .inl rfl
  · split_ifs at h with hpos
    · obtain rfl := List.mem_singleton.mp h
      exact .inr ⟨nofun, rfl, rfl, hpos, rfl⟩
    · cases h

theorem pushed_fits (hreq : ∀ inst ∈ inp.installments, 0 ≤ inst.required) {ev : Event}
    (h : ev ∈ inp.pushed) : ev.Fits inp.installments := by
  rcases mem_pushed h with ⟨i, inst, share, hinst, -, hev⟩ | ⟨p, -, hpos, rfl⟩
  · rcases mem_installmentEvents hev with rfl | ⟨hk, -, hamount, hpos, -⟩
    · exact ⟨inst, hinst, hreq inst (List.mem_of_getElem? hinst), rfl, rfl⟩
    · unfold Event.Fits
      split
      · exact absurd ‹_› hk
      · exact hamount ▸ hpos
  · exact hpos

theorem pushed_due {ev : Event} (h : ev ∈ inp.pushed) (hk : ev.kind = .due) :
    ∃ inst, inp.installments[ev.index]? = some inst ∧ ev.date = inst.dueDate := by
  rcases mem_pushed h with ⟨i, inst, share, hinst, -, hev⟩ | ⟨p, -, hpos, rfl⟩
  · rcases mem_installmentEvents hev with rfl | ⟨hne, -⟩
    · exact ⟨inst, hinst, rfl⟩
    · exact absurd hk hne
  · cases hk

/-- Each installment's falling due is pushed. -/
theorem due_mem_pushed (hshape : inp.withholdingShares.length = inp.installments.length) {i : ℕ}
    {inst : InstallmentDue} (h : inp.installments[i]? = some inst) :
    { date := inst.dueDate, kind := .due, amount := inst.required, index := i } ∈ inp.pushed := by
  obtain ⟨hi, -⟩ := List.getElem?_eq_some_iff.mp h
  refine List.mem_append_left _ (List.mem_flatMap.mpr
    ⟨((inst, inp.withholdingShares.get ⟨i, hshape ▸ hi⟩), i), ?_, List.mem_cons_self⟩)
  rw [List.mk_mem_zipIdx_iff_getElem?, List.getElem?_zip_eq_some]
  exact ⟨h, List.getElem?_eq_getElem _⟩

theorem pushed_once : inp.pushed.Pairwise fun a b =>
    a.kind = .due → b.kind = .due → a.index ≠ b.index := by
  refine List.pairwise_append.mpr ⟨?_, ?_, ?_⟩
  · refine List.pairwise_flatMap.mpr ⟨?_, ?_⟩
    · intro x _
      unfold installmentEvents
      split_ifs
      · simp
      · exact List.pairwise_singleton _ _
    · have hnodup : ((inp.installments.zip inp.withholdingShares).zipIdx.map Prod.snd).Nodup := by
        rw [List.zipIdx_map_snd]
        exact List.nodup_range'
      refine (List.pairwise_map.mp hnodup).imp fun {x y} hne a ha b hb hka hkb => ?_
      rcases mem_installmentEvents ha with rfl | ⟨hk, -⟩
      · rcases mem_installmentEvents hb with rfl | ⟨hk, -⟩
        · exact hne
        · exact absurd hkb hk
      · exact absurd hka hk
  · refine List.pairwise_map.mpr (List.pairwise_of_forall fun _ _ hk => ?_)
    cases hk
  · intro a _ b hb _ hk
    obtain ⟨p, -, rfl⟩ := List.mem_map.mp hb
    cases hk

theorem mem_events {ev : Event} : ev ∈ inp.events ↔ ev ∈ inp.pushed :=
  List.mem_insertionSort Event.le

theorem events_le : inp.events.Pairwise Event.le := List.pairwise_insertionSort Event.le _

theorem Event.le.date {a b : Event} (h : a.le b) : a.date ≤ b.date := by
  unfold Event.le at h
  omega

theorem events_sorted : inp.events.Pairwise fun a b => a.date ≤ b.date :=
  events_le.imp fun h => h.date

theorem events_once : inp.events.Pairwise fun a b =>
    a.kind = .due → b.kind = .due → a.index ≠ b.index :=
  (List.Perm.pairwise_iff (fun h hb ha => (h ha hb).symm)
    (List.perm_insertionSort Event.le inp.pushed)).mpr pushed_once

/-- Installments due in the order of the schedule fall due in that order. -/
theorem events_inOrder (hdue : inp.installments.Pairwise fun a b => a.dueDate ≤ b.dueDate) :
    inp.events.Pairwise fun a b => a.kind = .due → b.kind = .due → a.index < b.index := by
  have hall : inp.events.Pairwise fun a b => a.le b ∧
      (a.kind = .due → b.kind = .due → a.index ≠ b.index) := events_le.and events_once
  refine hall.imp_of_mem fun {a b} ha hb h hka hkb => ?_
  obtain ⟨hle, hne⟩ := h
  obtain ⟨ia, hia, hda⟩ := pushed_due (mem_events.mp ha) hka
  obtain ⟨ib, hib, hdb⟩ := pushed_due (mem_events.mp hb) hkb
  refine lt_of_le_of_ne (not_lt.mp fun hlt => ?_) (hne hka hkb)
  have hdates : ib.dueDate ≤ ia.dueDate := by
    obtain ⟨h1, rfl⟩ := List.getElem?_eq_some_iff.mp hib
    obtain ⟨h2, rfl⟩ := List.getElem?_eq_some_iff.mp hia
    exact List.pairwise_iff_getElem.mp hdue _ _ h1 h2 hlt
  unfold Event.le at hle
  rw [hka, hkb] at hle
  omega

end Schedule

section Received

variable {inp : PaymentApplicationInput}

theorem tally_installmentEvents (on : ℤ → Bool) : ∀ (l : List (InstallmentDue × Dec)) (k : ℕ),
    tally (fun ev => on ev.date) Event.pays ((l.zipIdx k).flatMap installmentEvents) =
      tally (fun x : InstallmentDue × Dec => decide (0 < x.2) && on x.1.dueDate) Prod.snd l
  | [], _ => rfl
  | x :: l, k => by
    rw [List.zipIdx_cons, List.flatMap_cons, tally_append, tally_cons,
      tally_installmentEvents on l (k + 1)]
    congr 1
    unfold installmentEvents
    by_cases hpos : 0 < x.2 <;> cases hon : on x.1.dueDate <;>
      simp [tally_cons, Event.pays, hpos, hon]

/-- The events of some days pay what is received on them. -/
theorem tally_events (on : ℤ → Bool) :
    tally (fun ev => on ev.date) Event.pays inp.events = inp.received on := by
  refine (tally_perm (List.perm_insertionSort Event.le inp.pushed)).trans ?_
  unfold PaymentApplicationInput.pushed PaymentApplicationInput.received
  rw [tally_append, tally_installmentEvents, tally_map, tally_filter]
  rfl

theorem received_nonneg (on : ℤ → Bool) : 0 ≤ inp.received on := by
  refine add_nonneg (tally_nonneg fun x _ h => ?_) (tally_nonneg fun p _ h => ?_)
  · exact (of_decide_eq_true (Bool.and_eq_true_iff.mp h).1).le
  · exact (of_decide_eq_true (Bool.and_eq_true_iff.mp h).1).le

end Received

section UpTo

variable {inp : PaymentApplicationInput} {t : ℤ}

/-- The state once the events up to day `t` have passed. -/
def PaymentApplicationInput.upTo (inp : PaymentApplicationInput) (t : ℤ) : PayState :=
  inp.start.run (inp.events.filter (·.date ≤ t))

theorem filter_append_filter_of_sorted (t : ℤ) : ∀ {events : List Event},
    events.Pairwise (fun a b => a.date ≤ b.date) →
    events.filter (·.date ≤ t) ++ events.filter (t < ·.date) = events
  | [], _ => rfl
  | ev :: events, h => by
    obtain ⟨hev, hevs⟩ := List.pairwise_cons.mp h
    have ih := filter_append_filter_of_sorted t hevs
    by_cases hle : ev.date ≤ t
    · simp [hle, not_lt.mpr hle, ih]
    · have hlt := not_le.mp hle
      have hnone : events.filter (·.date ≤ t) = [] := by
        refine List.filter_eq_nil_iff.mpr fun e he => ?_
        have := hev e he
        simp only [decide_eq_true_eq]
        omega
      rw [hnone, List.nil_append] at ih
      simp [hle, hlt, hnone, ih]

theorem final_eq_run (inp : PaymentApplicationInput) (t : ℤ) :
    inp.final = (inp.upTo t).run (inp.events.filter (t < ·.date)) := by
  unfold PaymentApplicationInput.upTo
  rw [← run_append, filter_append_filter_of_sorted t events_sorted]
  rfl

theorem start_row {i : ℕ} {row : Running} (h : inp.start.rows[i]? = some row) : row = {} := by
  obtain ⟨_, -, rfl⟩ := List.mem_map.mp (List.mem_of_getElem? h)
  rfl

theorem start_demands : ∀ d ∈ demands inp.installments inp.start.rows, d = 0 := by
  intro d hd
  obtain ⟨i, hi⟩ := List.getElem?_of_mem hd
  obtain ⟨_, row, _, hrow, rfl⟩ := List.getElem?_zipWith_eq_some.mp hi
  rw [start_row hrow]
  rfl

theorem start_balances : inp.start.rows.map Running.balance =
    demands inp.installments inp.start.rows := by
  have hlen : (inp.start.rows.map Running.balance).length =
      (demands inp.installments inp.start.rows).length := by
    simp [demands, PaymentApplicationInput.start]
  refine List.ext_getElem hlen fun i h1 h2 => ?_
  rw [start_demands _ (List.getElem_mem h2), List.getElem_map]
  have hi : i < inp.start.rows.length := by simpa using h1
  rw [start_row (List.getElem?_eq_getElem hi)]

theorem start_sound (now : ℤ) : inp.start.Sound inp.installments now 0 := by
  refine ⟨by simp [PaymentApplicationInput.start], ?_, le_rfl, ?_, .inl rfl⟩
  · intro i inst row _ hrow
    rw [start_row hrow]
    exact tracks_empty
  · rw [start_balances, add_zero]
    exact (add_zero _).symm

theorem start_poured : inp.start.Poured inp.installments 0 := by
  unfold PayState.Poured
  rw [start_balances, pour_zeros start_demands le_rfl]
  rfl

theorem start_ready (hreq : ∀ inst ∈ inp.installments, 0 ≤ inst.required) {now : ℤ}
    {events : List Event} (hsub : events.Sublist inp.events) (hnow : ∀ ev ∈ events, now ≤ ev.date) :
    inp.start.Ready inp.installments now events := by
  refine ⟨fun ev hev => pushed_fits hreq (mem_events.mp (hsub.subset hev)), hnow,
    events_sorted.sublist hsub, events_once.sublist hsub, ?_⟩
  intro ev _ _ row hrow
  rw [start_row hrow]

theorem start_inOrder (hdue : inp.installments.Pairwise fun a b => a.dueDate ≤ b.dueDate)
    {events : List Event} (hsub : events.Sublist inp.events) : inp.start.InOrder events := by
  refine ⟨(events_inOrder hdue).sublist hsub, ?_⟩
  intro ev _ _ j row _ hrow
  rw [start_row hrow]

theorem exists_before (t : ℤ) : ∀ events : List Event, ∃ now ≤ t, ∀ ev ∈ events, now ≤ ev.date
  | [] => ⟨t, le_rfl, nofun⟩
  | ev :: events => by
    obtain ⟨now, hle, hall⟩ := exists_before t events
    refine ⟨min now ev.date, (min_le_left _ _).trans hle,
      List.forall_mem_cons.mpr ⟨min_le_right _ _, fun e he => (min_le_left _ _).trans (hall e he)⟩⟩

theorem upTo_sound (hreq : ∀ inst ∈ inp.installments, 0 ≤ inst.required) (t : ℤ) :
    (inp.upTo t).Sound inp.installments t (inp.received (· ≤ t)) := by
  obtain ⟨now, hnow, hall⟩ := exists_before t (inp.events.filter (·.date ≤ t))
  have hrun := run_sound (start_sound now) (start_ready hreq List.filter_sublist hall) hnow
    fun ev hev => by simpa using (List.mem_filter.mp hev).2
  rwa [zero_add, ← tally, tally_events (· ≤ t)] at hrun

theorem upTo_poured (hreq : ∀ inst ∈ inp.installments, 0 ≤ inst.required)
    (hdue : inp.installments.Pairwise fun a b => a.dueDate ≤ b.dueDate) (t : ℤ) :
    (inp.upTo t).Poured inp.installments (inp.received (· ≤ t)) := by
  obtain ⟨now, hnow, hall⟩ := exists_before t (inp.events.filter (·.date ≤ t))
  have hrun := run_poured hreq start_poured (start_sound now) le_rfl
    (start_ready hreq List.filter_sublist hall) (start_inOrder hdue List.filter_sublist)
  rwa [zero_add, ← tally, tally_events (· ≤ t)] at hrun

/-- On day `t` an installment is due when its due date has come. -/
theorem upTo_due (hshape : inp.withholdingShares.length = inp.installments.length) {i : ℕ}
    {inst : InstallmentDue} {row : Running} (hinst : inp.installments[i]? = some inst)
    (hrow : (inp.upTo t).rows[i]? = some row) : row.due = true ↔ inst.dueDate ≤ t := by
  obtain ⟨row0, hrow0, hdue⟩ := run_due hrow
  rw [hdue, start_row hrow0]
  constructor
  · rintro (h | ⟨ev, hev, hk, hi⟩)
    · cases h
    · obtain ⟨hev, ht⟩ := List.mem_filter.mp hev
      obtain ⟨inst', hinst', hdate⟩ := pushed_due (mem_events.mp hev) hk
      obtain rfl : inst = inst' := Option.some.inj (hinst.symm.trans (hi ▸ hinst'))
      rw [← hdate]
      simpa using ht
  · intro hle
    refine .inr ⟨_, List.mem_filter.mpr ⟨mem_events.mpr (due_mem_pushed hshape hinst), ?_⟩, rfl, rfl⟩
    simpa using hle

end UpTo

section FirstIn

variable {inp : PaymentApplicationInput}

/-- What was applied to an installment from the sources that meet `p`. -/
def InstallmentApplication.appliedFrom (p : AppliedSource → Bool) (a : InstallmentApplication) :
    Dec :=
  tally (fun x => p x.source) AppliedPayment.amount a.applied

/-- The balance of the last point of the timeline up to day `t`. -/
def InstallmentApplication.balanceOn (a : InstallmentApplication) (t : ℤ) : Option Dec :=
  (a.timeline.filter (·.date ≤ t)).getLast?.map BalancePoint.balance

/-- The total required through installment `i`. -/
def PaymentApplicationInput.requiredThrough (inp : PaymentApplicationInput) (i : ℕ) : Dec :=
  ((inp.installments.take (i + 1)).map InstallmentDue.required).sum

/-- Money is neither lost nor made, and each day's balances are the first-in closed form. -/
structure PaymentApplicationResult.FirstIn (inp : PaymentApplicationInput)
    (r : PaymentApplicationResult) : Prop where
  length : r.installments.length = inp.installments.length
  received : inp.received (fun _ => true) =
    (r.installments.map (InstallmentApplication.appliedFrom fun x => x ≠ .carry)).sum +
      (r.installments.map (InstallmentApplication.appliedFrom fun x => x = .carry)).sum +
      r.exact.excessAfterLast
  settled : ∀ (i : ℕ) inst a, inp.installments[i]? = some inst → r.installments[i]? = some a →
    a.exact.required = inst.required ∧
      a.exact.required = a.appliedFrom (fun _ => true) + a.exact.unpaidAtEnd
  balances : ∀ (t : ℤ) (i : ℕ) inst a, inp.installments[i]? = some inst →
    r.installments[i]? = some a → inst.dueDate ≤ t →
      a.balanceOn t =
        some (min inst.required (max 0 (inp.requiredThrough i - inp.received (· ≤ t))))

theorem exists_after : ∀ events : List Event, ∃ t, ∀ ev ∈ events, ev.date ≤ t
  | [] => ⟨0, nofun⟩
  | ev :: events => by
    obtain ⟨t, hall⟩ := exists_after events
    exact ⟨max t ev.date, List.forall_mem_cons.mpr
      ⟨le_max_right _ _, fun e he => (hall e he).trans (le_max_left _ _)⟩⟩

theorem upTo_eq_final {t : ℤ} (h : ∀ ev ∈ inp.events, ev.date ≤ t) :
    inp.upTo t = inp.final ∧ inp.received (· ≤ t) = inp.received fun _ => true := by
  constructor
  · unfold PaymentApplicationInput.upTo PaymentApplicationInput.final
    rw [List.filter_eq_self.mpr fun ev hev => decide_eq_true (h ev hev)]
  · rw [← tally_events, ← tally_events]
    exact tally_congr (fun ev hev => decide_eq_true (h ev hev)) fun _ _ _ => rfl

theorem final_sound (hreq : ∀ inst ∈ inp.installments, 0 ≤ inst.required) :
    ∃ t, (∀ ev ∈ inp.events, ev.date ≤ t) ∧
      inp.final.Sound inp.installments t (inp.received fun _ => true) := by
  obtain ⟨t, ht⟩ := exists_after inp.events
  obtain ⟨hfinal, hreceived⟩ := upTo_eq_final ht
  refine ⟨t, ht, ?_⟩
  rw [← hfinal, ← hreceived]
  exact upTo_sound hreq t

/-- In the end every installment is due. -/
theorem final_due (hshape : inp.withholdingShares.length = inp.installments.length) {i : ℕ}
    {inst : InstallmentDue} {row : Running} (hinst : inp.installments[i]? = some inst)
    (hrow : inp.final.rows[i]? = some row) : row.due = true := by
  obtain ⟨t, ht⟩ := exists_after inp.events
  rw [← (upTo_eq_final ht).1] at hrow
  exact (upTo_due hshape hinst hrow).mpr (ht _ (mem_events.mpr (due_mem_pushed hshape hinst)))

theorem result_installment {i : ℕ} {inst : InstallmentDue} {a : InstallmentApplication}
    (hinst : inp.installments[i]? = some inst) (h : inp.result.installments[i]? = some a) :
    ∃ share row, inp.final.rows[i]? = some row ∧
      a = installmentApplication (((inst, share), i), row) := by
  simp only [PaymentApplicationInput.result, List.getElem?_map] at h
  obtain ⟨⟨⟨⟨inst', share⟩, j⟩, row⟩, hx, rfl⟩ := Option.map_eq_some_iff.mp h
  obtain ⟨hzip, hrow⟩ := List.getElem?_zip_eq_some.mp hx
  rw [List.getElem?_zipIdx, Option.map_eq_some_iff] at hzip
  obtain ⟨⟨inst'', share'⟩, hpair, heq⟩ := hzip
  obtain ⟨⟨rfl, rfl⟩, rfl⟩ : (inst'' = inst' ∧ share' = share) ∧ 0 + i = j := by simpa using heq
  obtain ⟨hinst', hshare⟩ := List.getElem?_zip_eq_some.mp hpair
  obtain rfl : inst = inst'' := Option.some.inj (hinst.symm.trans hinst')
  exact ⟨share', row, hrow, by rw [zero_add]⟩

/-- What a figure of the result reads of the rows, over all installments. -/
theorem result_map {β : Type*} (hshape : inp.withholdingShares.length = inp.installments.length)
    (hlen : inp.final.rows.length = inp.installments.length) {f : InstallmentApplication → β}
    {g : Running → β} (hfg : ∀ x, f (installmentApplication x) = g x.2) :
    inp.result.installments.map f = inp.final.rows.map g := by
  have hzip : ((inp.installments.zip inp.withholdingShares).zipIdx.zip inp.final.rows).map Prod.snd =
      inp.final.rows := List.map_snd_zip (by simp [hshape, hlen])
  rw [← hzip]
  simp only [PaymentApplicationInput.result, List.map_map]
  exact List.map_congr_left fun x _ => hfg x

/-- What was paid is what was applied, and the excess. -/
theorem PayState.Sound.paid_eq {insts : List InstallmentDue} {now : ℤ} {paid : Dec} {s : PayState}
    (h : s.Sound insts now paid) :
    paid = (s.rows.map fun row => (row.applied.map AppliedPayment.amount).sum).sum + s.excess := by
  have hdemands : demands insts s.rows = s.rows.map fun row =>
      (row.applied.map AppliedPayment.amount).sum + row.balance := by
    refine List.ext_getElem (by simp [demands, h.length]) fun i h1 h2 => ?_
    have hi : i < s.rows.length := by simpa using h2
    have hi' : i < insts.length := h.length ▸ hi
    have htracks := h.tracks i _ _ (List.getElem?_eq_getElem hi') (List.getElem?_eq_getElem hi)
    simp only [demands, List.getElem_zipWith, List.getElem_map]
    split_ifs with hdue
    · exact htracks.settled hdue
    · simp [htracks.undue (by simpa using hdue)]
  have := h.total
  rw [hdemands, List.sum_map_add] at this
  linarith

/-- Up to an installment that is due all are due, so their demands are what they require. -/
theorem upTo_demands_take (hshape : inp.withholdingShares.length = inp.installments.length)
    (hdue : inp.installments.Pairwise fun a b => a.dueDate ≤ b.dueDate) {t : ℤ} {i : ℕ}
    {inst : InstallmentDue} (hlen : (inp.upTo t).rows.length = inp.installments.length)
    (hinst : inp.installments[i]? = some inst) (hle : inst.dueDate ≤ t) :
    (demands inp.installments (inp.upTo t).rows).take (i + 1) =
      (inp.installments.take (i + 1)).map InstallmentDue.required := by
  obtain ⟨hi, rfl⟩ := List.getElem?_eq_some_iff.mp hinst
  refine List.ext_getElem (by simp [demands, hlen]) fun j h1 h2 => ?_
  have hj : j < i + 1 := (List.length_take_le _ _).trans_lt' h1
  have hj' : j < inp.installments.length := by omega
  have hjr : j < (inp.upTo t).rows.length := hlen ▸ hj'
  have hjle : inp.installments[j].dueDate ≤ t := by
    rcases Nat.lt_succ_iff_lt_or_eq.mp hj with hlt | rfl
    · exact (List.pairwise_iff_getElem.mp hdue _ _ hj' hi hlt).trans hle
    · exact hle
  have hd := (upTo_due hshape (List.getElem?_eq_getElem hj') (List.getElem?_eq_getElem hjr)).mpr hjle
  simp [demands, hd]

/-- The timeline up to `t` is that of the state on day `t`, which ends at the balance. -/
theorem balanceOn_eq (hreq : ∀ inst ∈ inp.installments, 0 ≤ inst.required)
    (hshape : inp.withholdingShares.length = inp.installments.length) {t : ℤ} {i : ℕ}
    {inst : InstallmentDue} {row : Running} (hinst : inp.installments[i]? = some inst)
    (hrow : inp.final.rows[i]? = some row) (hle : inst.dueDate ≤ t) (share : Dec) :
    ∃ mid, (inp.upTo t).rows[i]? = some mid ∧
      (installmentApplication (((inst, share), i), row)).balanceOn t = some mid.balance := by
  obtain ⟨mid, hmid, hsame⟩ := run_timeline (t := t)
    (fun ev hev => by simpa using (List.mem_filter.mp hev).2) (final_eq_run inp t ▸ hrow)
  refine ⟨mid, hmid, ?_⟩
  have htracks := (upTo_sound hreq t).tracks i inst mid hinst hmid
  obtain ⟨points, d, hlast⟩ := htracks.last ((upTo_due hshape hinst hmid).mpr hle)
  have hpast : mid.timeline.filter (·.date ≤ t) = mid.timeline :=
    List.filter_eq_self.mpr fun p hp => decide_eq_true (htracks.past p hp).1
  show ((row.timeline.filter (·.date ≤ t)).getLast?).map BalancePoint.balance = _
  rw [hsame, hpast, hlast]
  simp

/-- The balances on day `t` are what pouring leaves. -/
theorem upTo_balance (hreq : ∀ inst ∈ inp.installments, 0 ≤ inst.required)
    (hdue : inp.installments.Pairwise fun a b => a.dueDate ≤ b.dueDate)
    (hshape : inp.withholdingShares.length = inp.installments.length) {t : ℤ} {i : ℕ}
    {inst : InstallmentDue} {mid : Running} (hinst : inp.installments[i]? = some inst)
    (hmid : (inp.upTo t).rows[i]? = some mid) (hle : inst.dueDate ≤ t) :
    mid.balance =
      min inst.required (max 0 (inp.requiredThrough i - inp.received (· ≤ t))) := by
  have htake := upTo_demands_take hshape hdue (upTo_sound hreq t).length hinst hle
  have hdemand : (demands inp.installments (inp.upTo t).rows)[i]? = some inst.required := by
    simp [demands, List.getElem?_zipWith, hinst, hmid, (upTo_due hshape hinst hmid).mpr hle]
  have hreceived : 0 ≤ inp.received (· ≤ t) := received_nonneg _
  have hclosed := pour_getElem? (demands_nonneg hreq (inp.upTo t).rows) hreceived hdemand
  rw [← (Prod.ext_iff.mp (upTo_poured hreq hdue t)).1, List.getElem?_map, hmid, htake] at hclosed
  exact Option.some.inj hclosed

/-- The payments are conserved, and meet the installments first in, first out. Where the shares do
not match the installments nothing is computed. -/
theorem applyPayments_firstIn (inp : PaymentApplicationInput)
    (hreq : ∀ inst ∈ inp.installments, 0 ≤ inst.required)
    (hdue : inp.installments.Pairwise fun a b => a.dueDate ≤ b.dueDate) :
    ((∃ r, applyPayments inp = .ok r) ↔
        inp.withholdingShares.length = inp.installments.length) ∧
      ∀ r, applyPayments inp = .ok r → r.FirstIn inp := by
  by_cases hshape : inp.withholdingShares.length = inp.installments.length
  swap
  · simp [applyPayments, hshape]
  have hok : applyPayments inp = .ok inp.result := by simp [applyPayments, hshape]
  refine ⟨⟨fun _ => hshape, fun _ => ⟨_, hok⟩⟩, fun r hr => ?_⟩
  obtain rfl : inp.result = r := Except.ok.inj (hok.symm.trans hr)
  obtain ⟨T, hT, hfinal⟩ := final_sound hreq
  have hrows : inp.result.installments.map InstallmentApplication.applied =
      inp.final.rows.map Running.applied := result_map hshape hfinal.length fun _ => rfl
  constructor
  · simpa [hfinal.length] using congrArg List.length hrows
  · have happlied := congrArg (fun l => (l.map fun x : List AppliedPayment =>
      (x.map AppliedPayment.amount).sum).sum) hrows
    simp only [List.map_map, Function.comp_def] at happlied
    rw [hfinal.paid_eq, ← happlied, ← List.sum_map_add]
    congr 3
    funext a
    unfold InstallmentApplication.appliedFrom
    rw [add_comm]
    simpa [tally] using tally_split (p := fun _ => true) (w := AppliedPayment.amount)
      (fun x => decide (x.source = .carry)) a.applied
  · intro i inst a hinst ha
    obtain ⟨share, row, hrow, rfl⟩ := result_installment hinst ha
    refine ⟨rfl, ?_⟩
    have hsettled := (hfinal.tracks i inst row hinst hrow).settled (final_due hshape hinst hrow)
    show inst.required = tally (fun _ => true) AppliedPayment.amount row.applied + row.balance
    simpa [tally] using hsettled
  · intro t i inst a hinst ha hle
    obtain ⟨share, row, hrow, rfl⟩ := result_installment hinst ha
    obtain ⟨mid, hmid, hon⟩ := balanceOn_eq hreq hshape hinst hrow hle share
    rw [hon, ← upTo_balance hreq hdue hshape hinst hmid hle]

/-- A year of 1000 a quarter, some of it withheld, one payment early and one late. -/
def lateYear : PaymentApplicationInput where
  jurisdiction := "federal"
  installments := [⟨0, 20558, 1000⟩, ⟨1, 20619, 1000⟩, ⟨2, 20711, 1000⟩, ⟨3, 20833, 1000⟩]
  withholdingShares := [100, 100, 100, 100]
  payments := [⟨"late", 20640, 1500, .manual⟩, ⟨"early", 20500, 1200, .gl⟩]

theorem lateYear_firstIn :
    (∃ r, applyPayments lateYear = .ok r) ∧ ∀ r, applyPayments lateYear = .ok r → r.FirstIn lateYear :=
  have hdue : lateYear.installments.Pairwise fun a b => a.dueDate ≤ b.dueDate := by decide
  have h := applyPayments_firstIn lateYear (by decide +kernel) hdue
  ⟨h.1.mpr rfl, h.2⟩

end FirstIn

end MyBooks
