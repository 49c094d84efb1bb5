import MyBooks.EstimatedPayments
import MyBooks.Waterfall
import MyBooks.Tally

/-!
# What the payment events do

One event lets an installment fall due or gives the installments in order what they are short of
(`step_due`, `step_pay`). Along the run each installment's timeline is dated in order and falls
strictly, and ends at its balance (`Running.Tracks`); the money paid is what the installments that are
due no longer lack, and the excess (`PayState.Sound`).
-/

namespace MyBooks

section Rows

/-- An installment after a payment: as before, or it took some of what it was short of. -/
def Running.Takes (date : ℤ) (payment : AppliedPayment) (row row' : Running) : Prop :=
  row' = row ∨ ∃ x, 0 < x ∧ x ≤ row.balance ∧ row.due = true ∧ row' = row.take date payment x

theorem payRows_takes (date : ℤ) (payment : AppliedPayment) : ∀ (rows : List Running) (a : Dec),
    List.Forall₂ (Running.Takes date payment) rows (payRows date payment a rows).1
  | [], _ => .nil
  | row :: rows, a => by
    have hsame : ∀ rows : List Running,
        List.Forall₂ (Running.Takes date payment) rows rows := fun rows =>
      List.forall₂_same.mpr fun _ _ => .inl rfl
    unfold payRows
    split_ifs with ha hrow
    · refine .cons (.inr ⟨_, lt_min hrow.2 ha, min_le_left _ _, hrow.1, rfl⟩) ?_
      exact payRows_takes date payment rows _
    · exact .cons (.inl rfl) (payRows_takes date payment rows a)
    · exact hsame _

/-- A payment is poured over the balances. An installment that is not due has none. -/
theorem payRows_pour (date : ℤ) (payment : AppliedPayment) :
    ∀ {rows : List Running} {a : Dec}, 0 ≤ a →
    (∀ row ∈ rows, 0 ≤ row.balance ∧ (row.due = false → row.balance = 0)) →
    ((payRows date payment a rows).1.map Running.balance, (payRows date payment a rows).2) =
      pour (rows.map Running.balance) a
  | [], _, _, _ => rfl
  | row :: rows, a, ha, h => by
    obtain ⟨⟨hb, hundue⟩, hrows⟩ := List.forall_mem_cons.mp h
    unfold payRows
    rw [List.map_cons, pour_cons]
    split_ifs with hpos hrow
    · rw [← payRows_pour date payment (sub_min_nonneg row.balance a) hrows]
      rfl
    · have hzero : row.balance = 0 := by
        rcases hd : row.due with _ | _
        · exact hundue hd
        · exact le_antisymm (not_lt.mp fun hlt => hrow ⟨hd, hlt⟩) hb
      rw [hzero, min_eq_left ha, sub_zero, sub_zero, ← payRows_pour date payment ha hrows,
        List.map_cons, hzero]
    · have hzero : a = 0 := le_antisymm (not_lt.mp hpos) ha
      have hbs : ∀ b ∈ rows.map Running.balance, 0 ≤ b := by
        intro b hmem
        obtain ⟨r, hr, rfl⟩ := List.mem_map.mp hmem
        exact (hrows r hr).1
      rw [hzero, min_eq_right hb, sub_zero, sub_zero, pour_zero hbs]
      rfl

end Rows

section Steps

variable {s : PayState} {ev : Event}

theorem step_due (h : ev.kind = .due) :
    s.step ev =
      { rows := s.rows.modify ev.index fun row =>
          row.fallDue ev.index ev.date ev.amount (min s.excess ev.amount)
        excess := s.excess - min s.excess ev.amount } := by
  simp only [PayState.step, h]

theorem step_pay {payment : AppliedPayment} (h : ev.kind = .pay payment) :
    s.step ev =
      { rows := (payRows ev.date payment ev.amount s.rows).1
        excess :=
          if 0 < (payRows ev.date payment ev.amount s.rows).2 then
            s.excess + (payRows ev.date payment ev.amount s.rows).2
          else s.excess } := by
  simp only [PayState.step, h]

@[simp] theorem length_step : (s.step ev).rows.length = s.rows.length := by
  rcases h : ev.kind with _ | payment
  · rw [step_due h, List.length_modify]
  · rw [step_pay h]
    exact (payRows_takes ev.date payment s.rows ev.amount).length_eq.symm

/-- What an event does to installment `i`. -/
inductive Running.After (s : PayState) (ev : Event) (i : ℕ) (row row' : Running) : Prop where
  | falls : ev.kind = .due → ev.index = i →
      row' = row.fallDue i ev.date ev.amount (min s.excess ev.amount) → After s ev i row row'
  | stays : ev.kind = .due → ev.index ≠ i → row' = row → After s ev i row row'
  | pays (payment : AppliedPayment) : ev.kind = .pay payment →
      row.Takes ev.date payment row' → After s ev i row row'

theorem step_row {i : ℕ} {row' : Running} (h : (s.step ev).rows[i]? = some row') :
    ∃ row, s.rows[i]? = some row ∧ Running.After s ev i row row' := by
  rcases hk : ev.kind with _ | payment
  · rw [step_due hk] at h
    simp only [List.getElem?_modify] at h
    obtain ⟨row, hrow, hr⟩ := Option.map_eq_some_iff.mp h
    refine ⟨row, hrow, ?_⟩
    split_ifs at hr with hi
    · subst hi
      exact .falls hk rfl hr.symm
    · exact .stays hk hi hr.symm
  · rw [step_pay hk] at h
    have htakes := payRows_takes ev.date payment s.rows ev.amount
    obtain ⟨hi, rfl⟩ := List.getElem?_eq_some_iff.mp h
    have hi' : i < s.rows.length := by rwa [htakes.length_eq]
    exact ⟨s.rows[i], List.getElem?_eq_getElem hi', .pays payment hk (htakes.get hi' hi)⟩

end Steps

section Tracks

/-- An installment's row up to a day: the timeline starts at its due date, falls strictly and ends at
the balance, and what was applied and the balance come to what is required. -/
structure Running.Tracks (inst : InstallmentDue) (now : ℤ) (row : Running) : Prop where
  nonneg : 0 ≤ row.balance
  undue : row.due = false → row = {}
  starts : row.due = true → ∃ b points, row.timeline = ⟨inst.dueDate, b⟩ :: points
  settled : row.due = true →
    inst.required = (row.applied.map AppliedPayment.amount).sum + row.balance
  last : row.due = true → ∃ points d, row.timeline = points ++ [⟨d, row.balance⟩]
  falling : row.timeline.Pairwise fun a b => a.date ≤ b.date ∧ b.balance < a.balance
  past : ∀ p ∈ row.timeline, p.date ≤ now ∧ 0 ≤ p.balance

variable {inst : InstallmentDue} {now date : ℤ} {row : Running}

theorem tracks_empty : Running.Tracks inst now {} :=
  ⟨le_rfl, fun _ => rfl, nofun, nofun, nofun, .nil, nofun⟩

theorem Running.Tracks.mono (h : row.Tracks inst now) (hle : now ≤ date) : row.Tracks inst date :=
  { h with past := fun p hp => ⟨(h.past p hp).1.trans hle, (h.past p hp).2⟩ }

section FallDue

variable (i : ℕ) (d : ℤ) (amount : Dec) {carry : Dec}

/-- What the excess does not meet is the balance. -/
theorem fallDue_balance (row : Running) (hle : carry ≤ amount) :
    (row.fallDue i d amount carry).balance = amount - carry := by
  show (if 0 < amount - carry then amount - carry else 0) = amount - carry
  split_ifs with h
  · rfl
  · linarith

theorem fallDue_timeline (row : Running) (hle : carry ≤ amount) :
    (row.fallDue i d amount carry).timeline = row.timeline ++ [⟨d, amount - carry⟩] := by
  rw [← fallDue_balance i d amount row hle]
  rfl

theorem fallDue_applied (hcarry : 0 ≤ carry) :
    ((Running.fallDue {} i d amount carry).applied.map AppliedPayment.amount).sum = carry := by
  simp only [Running.fallDue, List.nil_append]
  split_ifs with h
  · simp
  · rw [List.map_nil, List.sum_nil]
    linarith

theorem fallDue_tracks (hcarry : 0 ≤ carry) (hle : carry ≤ inst.required) :
    (Running.fallDue {} i inst.dueDate inst.required carry).Tracks inst inst.dueDate := by
  have htimeline := fallDue_timeline i inst.dueDate inst.required {} hle
  have hbalance := fallDue_balance i inst.dueDate inst.required {} hle
  have happlied := fallDue_applied i inst.dueDate inst.required hcarry
  rw [List.nil_append] at htimeline
  constructor
  · rw [hbalance]
    exact sub_nonneg.mpr hle
  · exact nofun
  · exact fun _ => ⟨_, [], htimeline⟩
  · intro _
    rw [happlied, hbalance]
    ring
  · exact fun _ => ⟨[], inst.dueDate, by rw [htimeline, hbalance]; rfl⟩
  · rw [htimeline]
    exact List.pairwise_singleton _ _
  · intro p hp
    rw [htimeline] at hp
    obtain rfl := List.mem_singleton.mp hp
    exact ⟨le_rfl, sub_nonneg.mpr hle⟩

end FallDue

theorem take_tracks (h : row.Tracks inst now) (hle : now ≤ date) (payment : AppliedPayment) {x : Dec}
    (hpos : 0 < x) (hx : x ≤ row.balance) (hdue : row.due = true) :
    (row.take date payment x).Tracks inst date := by
  obtain ⟨points, d, hlast⟩ := h.last hdue
  refine ⟨sub_nonneg.mpr hx, ?_, ?_, ?_, fun _ => ⟨row.timeline, date, rfl⟩, ?_, ?_⟩
  · intro hundue
    exact absurd (hdue.symm.trans hundue) (by decide)
  · intro _
    obtain ⟨b, rest, hstart⟩ := h.starts hdue
    exact ⟨b, rest ++ [⟨date, row.balance - x⟩], by simp [Running.take, hstart]⟩
  · intro _
    have := h.settled hdue
    simp only [Running.take, List.map_append, List.map_cons, List.map_nil, List.sum_append,
      List.sum_cons, List.sum_nil]
    linarith
  · refine List.pairwise_append.mpr ⟨h.falling, List.pairwise_singleton _ _, ?_⟩
    intro p hp q hq
    obtain rfl := List.mem_singleton.mp hq
    refine ⟨(h.past p hp).1.trans hle, ?_⟩
    -- every earlier point lies at or above the last one, the old balance
    have hp' : row.balance ≤ p.balance := by
      have hfall := h.falling
      rw [hlast] at hp hfall
      rcases List.mem_append.mp hp with hmem | hmem
      · exact ((List.pairwise_append.mp hfall).2.2 p hmem _ List.mem_cons_self).2.le
      · exact (List.mem_singleton.mp hmem) ▸ le_rfl
    show row.balance - x < p.balance
    linarith
  · intro p hp
    rcases List.mem_append.mp hp with hp | hp
    · exact ⟨(h.past p hp).1.trans hle, (h.past p hp).2⟩
    · obtain rfl := List.mem_singleton.mp hp
      exact ⟨le_rfl, sub_nonneg.mpr hx⟩

theorem Running.Takes.tracks {payment : AppliedPayment} {row' : Running}
    (h : row.Takes date payment row') (ht : row.Tracks inst now) (hle : now ≤ date) :
    row'.Tracks inst date := by
  rcases h with rfl | ⟨x, hpos, hx, hdue, rfl⟩
  · exact ht.mono hle
  · exact take_tracks ht hle payment hpos hx hdue

theorem Running.Takes.due {payment : AppliedPayment} {row' : Running}
    (h : row.Takes date payment row') : row'.due = row.due := by
  rcases h with rfl | ⟨x, -, -, -, rfl⟩ <;> rfl

end Tracks

section Modify

variable {α β γ : Type*} {i : ℕ} {f : α → α}

theorem map_modify_eq_set {g : α → β} : ∀ {l : List α} {i : ℕ} {a : α}, l[i]? = some a →
    (l.modify i f).map g = (l.map g).set i (g (f a))
  | _ :: _, 0, _, rfl => rfl
  | x :: l, i + 1, a, h => by
    have h' : l[i]? = some a := by simpa using h
    simp [map_modify_eq_set h']

theorem zipWith_modify_eq_set {g : γ → α → β} : ∀ {cs : List γ} {l : List α} {i : ℕ} {c : γ}
    {a : α}, cs[i]? = some c → l[i]? = some a →
    List.zipWith g cs (l.modify i f) = (List.zipWith g cs l).set i (g c (f a))
  | _ :: _, _ :: _, 0, _, _, rfl, rfl => rfl
  | c' :: cs, x :: l, i + 1, c, a, hc, ha => by
    have hc' : cs[i]? = some c := by simpa using hc
    have ha' : l[i]? = some a := by simpa using ha
    simp [zipWith_modify_eq_set hc' ha']

theorem sum_set_of_zero {x : Dec} : ∀ {l : List Dec} {i : ℕ}, l[i]? = some 0 →
    (l.set i x).sum = l.sum + x
  | y :: l, 0, h => by
    obtain rfl : y = 0 := by simpa using h
    simp [add_comm]
  | y :: l, i + 1, h => by
    have h' : l[i]? = some 0 := by simpa using h
    simp [sum_set_of_zero h', add_assoc]

end Modify

section Sound

variable {insts : List InstallmentDue} {s : PayState} {ev : Event} {now : ℤ} {paid : Dec}

/-- What the installments that are due require. -/
def demands (insts : List InstallmentDue) (rows : List Running) : List Dec :=
  List.zipWith (fun inst row => if row.due then inst.required else 0) insts rows

/-- A state of the loop once `paid` was paid: the unpaid balances are what the installments that are
due require beyond it, and an excess waits only where nothing is unpaid. -/
structure PayState.Sound (insts : List InstallmentDue) (now : ℤ) (paid : Dec) (s : PayState) :
    Prop where
  length : s.rows.length = insts.length
  tracks : ∀ (i : ℕ) (inst : InstallmentDue) (row : Running), insts[i]? = some inst →
    s.rows[i]? = some row → row.Tracks inst now
  excess : 0 ≤ s.excess
  total : (s.rows.map Running.balance).sum + paid = (demands insts s.rows).sum + s.excess
  spare : s.excess = 0 ∨ ∀ row ∈ s.rows, row.balance = 0

theorem PayState.Sound.row (h : s.Sound insts now paid) {row : Running} (hmem : row ∈ s.rows) :
    ∃ inst, row.Tracks inst now := by
  obtain ⟨i, hi, rfl⟩ := List.getElem_of_mem hmem
  have hi' : i < insts.length := h.length ▸ hi
  exact ⟨insts[i], h.tracks i _ _ (List.getElem?_eq_getElem hi') (List.getElem?_eq_getElem hi)⟩

theorem PayState.Sound.balances (h : s.Sound insts now paid) :
    ∀ row ∈ s.rows, 0 ≤ row.balance ∧ (row.due = false → row.balance = 0) := by
  intro row hmem
  obtain ⟨inst, ht⟩ := h.row hmem
  exact ⟨ht.nonneg, fun hdue => by rw [ht.undue hdue]⟩

/-- An event the schedule and the payments can give. -/
def Event.Fits (insts : List InstallmentDue) (ev : Event) : Prop :=
  match ev.kind with
  | .due => ∃ inst, insts[ev.index]? = some inst ∧ 0 ≤ inst.required ∧ ev.date = inst.dueDate ∧
      ev.amount = inst.required
  | .pay _ => 0 < ev.amount

/-- What an event pays. -/
def Event.pays (ev : Event) : Dec :=
  match ev.kind with
  | .due => 0
  | .pay _ => ev.amount

theorem demands_takes {payment : AppliedPayment} {date : ℤ} {rows rows' : List Running}
    (h : List.Forall₂ (Running.Takes date payment) rows rows') :
    demands insts rows' = demands insts rows := by
  induction h generalizing insts with
  | nil => rfl
  | cons hr _ ih =>
    rcases insts with _ | ⟨inst, insts⟩
    · rfl
    · simp only [demands, List.zipWith_cons_cons, hr.due] at ih ⊢
      rw [ih]

theorem Event.Fits.due (h : ev.Fits insts) (hk : ev.kind = .due) :
    ∃ inst, insts[ev.index]? = some inst ∧ 0 ≤ inst.required ∧ ev.date = inst.dueDate ∧
      ev.amount = inst.required := by
  simpa only [Event.Fits, hk] using h

theorem Event.Fits.pay (h : ev.Fits insts) {payment : AppliedPayment}
    (hk : ev.kind = .pay payment) : 0 < ev.amount := by
  simpa only [Event.Fits, hk] using h

theorem PayState.Sound.undue_row (h : s.Sound insts now paid) {i : ℕ} {inst : InstallmentDue}
    (hinst : insts[i]? = some inst) (hundue : ∀ row, s.rows[i]? = some row → row.due = false) :
    s.rows[i]? = some {} ∧ (s.rows.map Running.balance)[i]? = some 0 ∧
      (demands insts s.rows)[i]? = some 0 := by
  obtain ⟨hi, -⟩ := List.getElem?_eq_some_iff.mp hinst
  have hget := List.getElem?_eq_getElem (h.length.symm ▸ hi : i < s.rows.length)
  have hrow : s.rows[i]? = some {} := by
    rw [hget, (h.tracks _ _ _ hinst hget).undue (hundue _ hget)]
  refine ⟨hrow, ?_, ?_⟩
  · rw [List.getElem?_map, hrow]
    rfl
  · simp [demands, List.getElem?_zipWith, hinst, hrow]

/-- What an installment falling due does to the balances and the demands. -/
theorem PayState.Sound.step_due_lists (h : s.Sound insts now paid) (hk : ev.kind = .due)
    (hfits : ev.Fits insts)
    (hundue : ∀ row, s.rows[ev.index]? = some row → row.due = false) :
    (s.step ev).rows.map Running.balance =
        (s.rows.map Running.balance).set ev.index (ev.amount - min s.excess ev.amount) ∧
      demands insts (s.step ev).rows = (demands insts s.rows).set ev.index ev.amount := by
  obtain ⟨inst, hinst, -, -, hamount⟩ := hfits.due hk
  obtain ⟨hrow, -, -⟩ := h.undue_row hinst hundue
  rw [step_due hk]
  constructor
  · rw [map_modify_eq_set hrow, fallDue_balance _ _ _ _ (min_le_right _ _)]
  · unfold demands
    rw [zipWith_modify_eq_set hinst hrow, hamount]
    rfl

theorem step_due_sound (h : s.Sound insts now paid) (hk : ev.kind = .due)
    (hfits : ev.Fits insts) (hle : now ≤ ev.date)
    (hundue : ∀ row, s.rows[ev.index]? = some row → row.due = false) :
    (s.step ev).Sound insts ev.date paid := by
  obtain ⟨hbalances, hdemands⟩ := h.step_due_lists hk hfits hundue
  obtain ⟨inst, hinst, hreq, hdate, hamount⟩ := hfits.due hk
  obtain ⟨hrow, hbal0, hdem0⟩ := h.undue_row hinst hundue
  have hover : (s.step ev).excess = s.excess - min s.excess ev.amount := by rw [step_due hk]
  constructor
  · rw [length_step, h.length]
  · intro i inst' row' hinst' hrow'
    obtain ⟨row, hr, hafter⟩ := step_row hrow'
    rcases hafter with ⟨-, hi, rfl⟩ | ⟨-, hi, rfl⟩ | ⟨payment, hpay, -⟩
    · subst hi
      obtain rfl : inst = inst' := Option.some.inj (hinst.symm.trans hinst')
      obtain rfl : {} = row := Option.some.inj (hrow.symm.trans hr)
      rw [hdate, hamount]
      exact fallDue_tracks _ (le_min h.excess hreq) (min_le_right _ _)
    · exact (h.tracks i inst' _ hinst' hr).mono hle
    · rw [hk] at hpay
      cases hpay
  · rw [hover]
    exact sub_nonneg.mpr (min_le_left _ _)
  · rw [hbalances, hdemands, sum_set_of_zero hbal0, sum_set_of_zero hdem0, hover]
    have := h.total
    linarith
  · rw [hover]
    rcases le_total s.excess ev.amount with hoa | hao
    · exact .inl (by rw [min_eq_left hoa, sub_self])
    · refine h.spare.imp (fun hzero => ?_) fun hall row hmem => ?_
      · have hamount0 : ev.amount = 0 := le_antisymm (hzero ▸ hao) (hamount ▸ hreq)
        rw [hzero, hamount0, min_self, sub_self]
      · have hb := List.mem_map_of_mem (f := Running.balance) hmem
        rw [hbalances, min_eq_right hao, sub_self] at hb
        rcases List.mem_or_eq_of_mem_set hb with hb | hb
        · obtain ⟨r, hr, hrb⟩ := List.mem_map.mp hb
          rw [← hrb, hall r hr]
        · exact hb

theorem PayState.Sound.balances_nonneg (h : s.Sound insts now paid) :
    ∀ b ∈ s.rows.map Running.balance, 0 ≤ b := by
  intro b hb
  obtain ⟨row, hrow, rfl⟩ := List.mem_map.mp hb
  exact (h.balances row hrow).1

/-- What a payment does to the balances, the excess and the demands. -/
theorem PayState.Sound.step_pay_lists (h : s.Sound insts now paid) {payment : AppliedPayment}
    (hk : ev.kind = .pay payment) (hfits : ev.Fits insts) :
    (s.step ev).rows.map Running.balance = (pour (s.rows.map Running.balance) ev.amount).1 ∧
      (s.step ev).excess = s.excess + (pour (s.rows.map Running.balance) ev.amount).2 ∧
      demands insts (s.step ev).rows = demands insts s.rows := by
  have hpos := hfits.pay hk
  have hpour := payRows_pour ev.date payment hpos.le h.balances
  rw [step_pay hk, ← hpour]
  refine ⟨rfl, ?_, demands_takes (payRows_takes ev.date payment s.rows ev.amount)⟩
  have hleft : 0 ≤ (payRows ev.date payment ev.amount s.rows).2 := by
    have : 0 ≤ (pour (s.rows.map Running.balance) ev.amount).2 := (pour_nonneg hpos.le).2
    rwa [← hpour] at this
  show (if 0 < _ then _ else _) = _
  split_ifs with hlt
  · rfl
  · rw [le_antisymm (not_lt.mp hlt) hleft, add_zero]

theorem step_pay_sound (h : s.Sound insts now paid) {payment : AppliedPayment}
    (hk : ev.kind = .pay payment) (hfits : ev.Fits insts) (hle : now ≤ ev.date) :
    (s.step ev).Sound insts ev.date (paid + ev.amount) := by
  have hpos := hfits.pay hk
  obtain ⟨hbalances, hover, hdemands⟩ := h.step_pay_lists hk hfits
  have hleft : 0 ≤ (pour (s.rows.map Running.balance) ev.amount).2 := (pour_nonneg hpos.le).2
  constructor
  · rw [length_step, h.length]
  · intro i inst row' hinst hrow'
    obtain ⟨row, hr, hafter⟩ := step_row hrow'
    rcases hafter with ⟨hdue, -, -⟩ | ⟨hdue, -, -⟩ | ⟨payment', -, htakes⟩
    · rw [hk] at hdue
      cases hdue
    · rw [hk] at hdue
      cases hdue
    · exact htakes.tracks (h.tracks i inst row hinst hr) hle
  · rw [hover]
    exact add_nonneg h.excess hleft
  · have hsum := pour_sum (s.rows.map Running.balance) ev.amount
    have := h.total
    rw [hbalances, hover, hdemands]
    linarith
  · have hzeros : (∀ x ∈ (s.step ev).rows.map Running.balance, x = 0) →
        ∀ row ∈ (s.step ev).rows, row.balance = 0 := fun hx row hrow =>
      hx _ (List.mem_map_of_mem hrow)
    rcases h.spare with hzero | hall
    · rw [hover, hzero, zero_add]
      refine (pour_spare h.balances_nonneg).imp id fun hx => hzeros ?_
      rwa [hbalances]
    · -- an excess waits, so nothing is unpaid and nothing changes that
      have hx : ∀ x ∈ s.rows.map Running.balance, x = 0 := by
        intro x hx
        obtain ⟨row, hrow, rfl⟩ := List.mem_map.mp hx
        exact hall row hrow
      refine .inr (hzeros ?_)
      rwa [hbalances, pour_zeros hx hpos.le]

end Sound

end MyBooks
