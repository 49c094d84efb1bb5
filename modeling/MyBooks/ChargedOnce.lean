import MyBooks.FinanceCharges

/-!
# No day of an invoice is charged twice

What is new is charged from the latest day the invoice was charged through, so it is apart from all
that is live (`chargeSource_some`). Within a call a client is charged once, and an invoice is one item
of each client it is open with: only two clients of one invoice can be charged the same days. Voiding
only takes sources away.
-/

namespace MyBooks

namespace FinanceCharges

/-- The days a source charges. -/
def StoredSource.Charges (x : StoredSource) (day : Day) : Prop :=
  x.fromDate < day ∧ day ≤ x.throughDate

/-- Two sources of one invoice charge no day both. -/
def StoredSource.Apart (x y : StoredSource) : Prop :=
  x.invoiceId = y.invoiceId → ∀ day, ¬(x.Charges day ∧ y.Charges day)

/-- An invoice balances, and its total is the larger of the minimum and its sources. -/
structure ChargeInvoice.Sound (i : ChargeInvoice) (assessments : List Assessment) : Prop where
  balances : (i.lines.map (·.debit)).sum = (i.lines.map (·.credit)).sum
  assessed : ∃ a ∈ assessments, a.invoiceId = i.id
  total : ∀ a ∈ assessments, a.invoiceId = i.id →
    i.total = max i.minimum (sourcesTotal (a.sources.map (·.toChargeSource)))

/-- The live sources, each with its client. -/
def Charges.liveOf (s : Charges) : List (Id × StoredSource) :=
  (s.assessments.filter fun a => !a.voided).flatMap fun a => a.sources.map fun x => (a.contactId, x)

theorem liveOf_snd (s : Charges) : s.liveOf.map (·.2) = s.liveSources := by
  simp [Charges.liveOf, Charges.liveSources, List.map_flatMap, Function.comp_def]

theorem mem_liveSources {s : Charges} {x : Id × StoredSource} (h : x ∈ s.liveOf) :
    x.2 ∈ s.liveSources := liveOf_snd s ▸ List.mem_map_of_mem h

/-- No invoice of the call is open with two clients. -/
def AssessCall.OneClient (c : AssessCall) : Prop :=
  ∀ a ∈ c.items, ∀ b ∈ c.items, a.kind = .invoice → b.kind = .invoice → a.txnId = b.txnId →
    a.contactId = b.contactId

instance (c : AssessCall) : Decidable c.OneClient :=
  inferInstanceAs (Decidable (∀ a ∈ c.items, ∀ b ∈ c.items, a.kind = .invoice → b.kind = .invoice →
    a.txnId = b.txnId → a.contactId = b.contactId))

/-- Two sources of one invoice charge no day both where they are of one client or, under `single`, of
any two. -/
structure ChargedOnce (single : Prop) (s : Charges) : Prop where
  apart : s.liveOf.Pairwise fun x y => single ∨ x.1 = y.1 → x.2.Apart y.2
  due : ∀ x ∈ s.liveSources, x.dueDate ≤ x.fromDate
  invoices : ∀ i ∈ s.invoices, i.isVoid = false → i.Sound s.assessments

/-- The ids that were not given out. -/
structure Fresh (s : Charges) : Prop where
  invoices : ∀ i ∈ s.invoices, i.id < s.nextId
  assessments : ∀ a ∈ s.assessments, a.invoiceId < s.nextId

section Rows

variable {s : Charges} {d : Day} {settings : FinanceChargeSettings} {it : OpenItem} {x : ChargeSource}

theorem through_some {y : StoredSource} (hy : y ∈ s.liveSources) :
    ∃ t, s.through y.invoiceId = some t ∧ y.throughDate ≤ t := by
  have hmem : y.throughDate ∈ (s.liveSources.filter fun x => x.invoiceId = y.invoiceId).map (·.throughDate) :=
    List.mem_map.mpr ⟨y, List.mem_filter.mpr ⟨hy, by simp⟩, rfl⟩
  unfold Charges.through
  rcases hmax : List.max? _ with _ | t
  · rw [List.max?_eq_none_iff.mp hmax] at hmem
    cases hmem
  · exact ⟨t, rfl, (List.max?_eq_some_iff.mp hmax).2 _ hmem⟩

/-- What is charged of an item starts where it was due and was charged through. -/
structure ChargeSource.StartsAfter (x : ChargeSource) (s : Charges) (it : OpenItem) : Prop where
  invoice : x.invoiceId = it.txnId ∧ it.kind = .invoice
  due : x.dueDate = it.dueDate.getD it.date ∧ x.dueDate ≤ x.fromDate
  through : ∀ y ∈ s.liveSources, y.invoiceId = x.invoiceId → y.throughDate ≤ x.fromDate

theorem chargeSource_some (h : chargeSource s d settings it = some x) : x.StartsAfter s it := by
  unfold chargeSource at h
  split_ifs at h with hkind hcompound
  simp only [] at h
  split_ifs at h with hdays hgrace
  obtain rfl := Option.some.inj h
  obtain ⟨hinvoice, -⟩ := not_or.mp hkind
  refine ⟨⟨rfl, not_not.mp hinvoice⟩, ⟨rfl, ?_⟩, fun y hy hid => ?_⟩
  · simp only []
    split
    · split_ifs with hlt
      · exact hlt.le
      · exact le_rfl
    · exact le_rfl
  · obtain ⟨t, ht, hle⟩ := through_some hy
    have hid : y.invoiceId = it.txnId := hid
    rw [hid] at ht
    simp only [ht]
    split_ifs with hlt
    · exact hle
    · exact hle.trans (not_lt.mp hlt)

theorem hasLive_false {companyId contactId : Id} {period : ℤ} :
    s.hasLive companyId contactId period = false ↔ ∀ a ∈ s.assessments,
      a.companyId = companyId → a.contactId = contactId → a.period = period → a.voided = true := by
  simp only [Charges.hasLive, List.any_eq_false, Bool.and_eq_true, decide_eq_true_eq, Bool.not_eq_true',
    not_and, Bool.not_eq_false, and_imp]

end Rows

section ChargeRows

variable {s : Charges} {d : Day} {settings : FinanceChargeSettings} {companyId : Id}
  {items : List OpenItem} {p p' : Person} {x y : ChargeSource}

theorem chargeRow_contactId : (chargeRow s d settings companyId items p).contactId = p.id := by
  unfold chargeRow
  simp only []
  split_ifs <;> rfl

/-- The sources of a row are its client's items', or there are none. -/
theorem chargeRow_sources : (chargeRow s d settings companyId items p).sources.Sublist
    ((items.filter fun it => it.contactId = some p.id).filterMap (chargeSource s d settings)) := by
  unfold chargeRow
  simp only []
  split
  · exact List.nil_sublist _
  split
  · exact List.nil_sublist _
  · exact List.Sublist.refl _

theorem mem_chargeRow_sources (h : x ∈ (chargeRow s d settings companyId items p).sources) :
    ∃ it ∈ items, it.contactId = some p.id ∧ x.StartsAfter s it := by
  obtain ⟨it, hit, hx⟩ := List.mem_filterMap.mp (chargeRow_sources.subset h)
  obtain ⟨hmem, hcontact⟩ := List.mem_filter.mp hit
  exact ⟨it, hmem, by simpa using hcontact, chargeSource_some hx⟩

/-- A charge is the larger of the minimum and the sources, and what is missing is the adjustment. -/
theorem chargeRow_charge (h : 0 < (chargeRow s d settings companyId items p).charge) :
    (chargeRow s d settings companyId items p).charge =
        max settings.minimum (sourcesTotal (chargeRow s d settings companyId items p).sources) ∧
      (chargeRow s d settings companyId items p).charge =
        sourcesTotal (chargeRow s d settings companyId items p).sources +
          ((chargeRow s d settings companyId items p).minimumAdjustment.getD 0) := by
  unfold chargeRow at h ⊢
  simp only [] at h ⊢
  by_cases hactive : (!p.isActive) = true
  · rw [if_pos hactive] at h
    exact absurd h (lt_irrefl _)
  rw [if_neg hactive] at h ⊢
  by_cases hcredit : ((items.filter fun it => it.contactId = some p.id).map (·.openExact)).sum ≤ 0
  · rw [if_pos hcredit] at h
    exact absurd h (lt_irrefl _)
  rw [if_neg hcredit] at h ⊢
  simp only [] at h ⊢
  split_ifs at h ⊢ with hshort
  · refine ⟨(max_eq_left hshort.2.le).symm, ?_⟩
    simp only [Option.getD_some]
    ring
  · refine ⟨(max_eq_right ?_).symm, by simp only [Option.getD_none, add_zero]⟩
    exact not_lt.mp fun hlt => hshort ⟨h, hlt⟩

/-- Among the items of a client an invoice is there once. -/
theorem chargeRow_sources_once (grouped : (items.map fun it => (it.contactId, it.txnId)).Nodup) :
    (chargeRow s d settings companyId items p).sources.Pairwise fun x y => x.invoiceId ≠ y.invoiceId := by
  refine List.Pairwise.sublist chargeRow_sources (List.pairwise_filterMap.mpr ?_)
  refine List.pairwise_filter.mpr ((List.pairwise_map.mp grouped).imp fun h ha hb x hx y hy hid => h ?_)
  have hx := (chargeSource_some hx).invoice.1
  have hy := (chargeSource_some hy).invoice.1
  rw [of_decide_eq_true ha, of_decide_eq_true hb, ← hx, ← hy, hid]

/-- Two clients are charged of one invoice only where it is open with both. -/
theorem chargeRow_sources_apart {c : AssessCall} (hone : c.OneClient) (hp : p.id ≠ p'.id)
    (hx : x ∈ (chargeRow s d settings companyId c.items p).sources)
    (hy : y ∈ (chargeRow s d settings companyId c.items p').sources) : x.invoiceId ≠ y.invoiceId := by
  intro hid
  obtain ⟨a, ha, hpa, hxa⟩ := mem_chargeRow_sources hx
  obtain ⟨b, hb, hpb, hyb⟩ := mem_chargeRow_sources hy
  have hab := hone a ha b hb hxa.invoice.2 hyb.invoice.2
    (hxa.invoice.1.symm.trans (hid.trans hyb.invoice.1))
  rw [hpa, hpb] at hab
  exact hp (Option.some.inj hab)

end ChargeRows

section Post

variable {single : Prop} {c : AssessCall} {companyId income : Id} {s₀ s s' : Charges} {row : ChargeRow}

/-- A row of the call, on the books as the call found them. -/
def RowOf (c : AssessCall) (companyId : Id) (s₀ : Charges) (row : ChargeRow) : Prop :=
  ∃ p, row = chargeRow s₀ c.assessmentDate c.settings companyId c.items p

/-- What is live of the invoices of a row ends where the row's sources start. -/
def ChargeRow.Ahead (single : Prop) (row : ChargeRow) (s : Charges) : Prop :=
  ∀ x ∈ row.sources, ∀ y ∈ s.liveOf, single ∨ y.1 = row.contactId → y.2.invoiceId = x.invoiceId →
    y.2.throughDate ≤ x.fromDate

/-- The rows of the call that are still to be charged are ahead of what is live. -/
structure Charging (single : Prop) (c : AssessCall) (companyId : Id) (s₀ s : Charges) : Prop where
  once : ChargedOnce single s
  fresh : Fresh s
  ahead : ∀ row, RowOf c companyId s₀ row → s.hasLive companyId row.contactId c.period = false →
    row.Ahead single s

/-- What a charge adds. -/
def chargeAssessment (c : AssessCall) (companyId : Id) (s : Charges) (row : ChargeRow) : Assessment :=
  { companyId := companyId, contactId := row.contactId, period := c.period
    assessmentDate := c.assessmentDate, invoiceId := s.nextId
    sources := row.sources.map fun x => { x with throughDate := c.assessmentDate } }

def chargeInvoice (c : AssessCall) (companyId income : Id) (s : Charges) (row : ChargeRow) : ChargeInvoice :=
  { id := s.nextId, contactId := row.contactId, companyId := companyId
    txnDate := c.assessmentDate, dueDate := c.assessmentDate, total := row.charge
    lines := invoiceLines c income row, minimum := c.settings.minimum }

theorem postCharge_ok (h : postCharge c companyId income s row = .ok s') :
    (row.charge ≤ 0 ∧ s' = s) ∨
      (0 < row.charge ∧ s.hasLive companyId row.contactId c.period = false ∧
        s' = { assessments := s.assessments ++ [chargeAssessment c companyId s row]
               invoices := s.invoices ++ [chargeInvoice c companyId income s row]
               nextId := s.nextId + 1 }) := by
  unfold postCharge at h
  split_ifs at h with hle haccepted hlive
  · exact .inl ⟨hle, (Except.ok.inj h).symm⟩
  · exact .inr ⟨not_le.mp hle, by simpa using hlive, (Except.ok.inj h).symm⟩

theorem liveSources_post (i : ChargeInvoice) (n : ℕ) :
    Charges.liveSources
        { assessments := s.assessments ++ [chargeAssessment c companyId s row]
          invoices := s.invoices ++ [i], nextId := n } =
      s.liveSources ++ row.sources.map fun x => { x with throughDate := c.assessmentDate } := by
  simp [Charges.liveSources, chargeAssessment]

theorem liveOf_post (i : ChargeInvoice) (n : ℕ) :
    Charges.liveOf
        { assessments := s.assessments ++ [chargeAssessment c companyId s row]
          invoices := s.invoices ++ [i], nextId := n } =
      s.liveOf ++ row.sources.map fun x => (row.contactId, { x with throughDate := c.assessmentDate }) := by
  simp [Charges.liveOf, chargeAssessment]

theorem invoiceLines_balance (hrow : RowOf c companyId s₀ row) (hpos : 0 < row.charge) :
    ((invoiceLines c income row).map (·.debit)).sum = ((invoiceLines c income row).map (·.credit)).sum := by
  obtain ⟨p, rfl⟩ := hrow
  have hcharge := (chargeRow_charge hpos).2
  simp only [invoiceLines, List.map_cons, List.map_append, List.map_map, List.sum_cons, List.sum_append,
    Function.comp_def]
  rw [hcharge]
  unfold sourcesTotal
  rcases (chargeRow s₀ c.assessmentDate c.settings companyId c.items p).minimumAdjustment with _ | a
  · simp
  · simp

theorem chargeInvoice_sound (hrow : RowOf c companyId s₀ row) (hpos : 0 < row.charge) (hfresh : Fresh s) :
    (chargeInvoice c companyId income s row).Sound (s.assessments ++ [chargeAssessment c companyId s row]) where
  balances := invoiceLines_balance hrow hpos
  assessed := ⟨chargeAssessment c companyId s row, by simp, rfl⟩
  total a ha hid := by
    rcases List.mem_append.mp ha with ha | ha
    · exact absurd hid (hfresh.assessments a ha).ne
    · obtain rfl := List.mem_singleton.mp ha
      obtain ⟨p, rfl⟩ := hrow
      simp only [chargeAssessment, chargeInvoice, List.map_map, Function.comp_def, List.map_id']
      exact (chargeRow_charge hpos).1

/-- The invoices there were stay sound, as the assessment is of a new one. -/
theorem ChargeInvoice.Sound.append {i : ChargeInvoice} (h : i.Sound s.assessments) {a : Assessment}
    (ha : a.invoiceId ≠ i.id) : i.Sound (s.assessments ++ [a]) where
  balances := h.balances
  assessed := by
    obtain ⟨b, hb, hid⟩ := h.assessed
    exact ⟨b, List.mem_append_left _ hb, hid⟩
  total b hb hid := by
    rcases List.mem_append.mp hb with hb | hb
    · exact h.total b hb hid
    · obtain rfl := List.mem_singleton.mp hb
      exact absurd hid ha

theorem postCharge_once (h : Charging single c companyId s₀ s) (hrow : RowOf c companyId s₀ row)
    (hpos : 0 < row.charge) (hlive : s.hasLive companyId row.contactId c.period = false) :
    ChargedOnce single
      { assessments := s.assessments ++ [chargeAssessment c companyId s row]
        invoices := s.invoices ++ [chargeInvoice c companyId income s row]
        nextId := s.nextId + 1 } where
  apart := by
    rw [liveOf_post]
    refine List.pairwise_append.mpr ⟨h.once.apart, ?_, ?_⟩
    · obtain ⟨p, rfl⟩ := hrow
      refine List.pairwise_map.mpr ((chargeRow_sources_once c.grouped).imp fun hne _ hid => ?_)
      exact absurd hid hne
    · rintro y hy z hz hclient hid
      obtain ⟨x, hx, rfl⟩ := List.mem_map.mp hz
      rintro day ⟨⟨-, hy'⟩, hx', -⟩
      exact absurd (hy'.trans (h.ahead row hrow hlive x hx y hy hclient hid)) (not_le.mpr hx')
  due := by
    rw [liveSources_post]
    intro y hy
    rcases List.mem_append.mp hy with hy | hy
    · exact h.once.due y hy
    · obtain ⟨x, hx, rfl⟩ := List.mem_map.mp hy
      obtain ⟨p, rfl⟩ := hrow
      obtain ⟨it, -, -, hstart⟩ := mem_chargeRow_sources hx
      exact hstart.due.2
  invoices i hi hvoid := by
    rcases List.mem_append.mp hi with hi | hi
    · exact (h.once.invoices i hi hvoid).append (h.fresh.invoices i hi).ne'
    · obtain rfl := List.mem_singleton.mp hi
      exact chargeInvoice_sound hrow hpos h.fresh

/-- A charge leaves the rows of the other clients ahead: where each invoice is open with one client, no
invoice is in two of them. -/
theorem postCharge_charging (hone : single → c.OneClient) (h : Charging single c companyId s₀ s) (hrow : RowOf c companyId s₀ row)
    (hpost : postCharge c companyId income s row = .ok s') : Charging single c companyId s₀ s' := by
  obtain ⟨-, rfl⟩ | ⟨hpos, hlive, rfl⟩ := postCharge_ok hpost
  · exact h
  refine ⟨postCharge_once h hrow hpos hlive, ⟨?_, ?_⟩, ?_⟩
  · intro i hi
    rcases List.mem_append.mp hi with hi | hi
    · exact (h.fresh.invoices i hi).trans (Nat.lt_succ_self _)
    · obtain rfl := List.mem_singleton.mp hi
      exact Nat.lt_succ_self _
  · intro a ha
    rcases List.mem_append.mp ha with ha | ha
    · exact (h.fresh.assessments a ha).trans (Nat.lt_succ_self _)
    · obtain rfl := List.mem_singleton.mp ha
      exact Nat.lt_succ_self _
  · intro row' hrow' hlive' x hx y hy hclient hid
    rw [liveOf_post] at hy
    rw [hasLive_false] at hlive'
    have hother : row.contactId ≠ row'.contactId := by
      intro heq
      have hvoided := hlive' (chargeAssessment c companyId s row) (by simp) rfl heq rfl
      cases hvoided
    rcases List.mem_append.mp hy with hy | hy
    · refine h.ahead row' hrow' (hasLive_false.mpr fun a ha => ?_) x hx y hy hclient hid
      exact hlive' a (List.mem_append_left _ ha)
    · obtain ⟨z, hz, rfl⟩ := List.mem_map.mp hy
      obtain ⟨p, rfl⟩ := hrow
      obtain ⟨p', rfl⟩ := hrow'
      rw [chargeRow_contactId, chargeRow_contactId] at hother
      rw [chargeRow_contactId, chargeRow_contactId] at hclient
      exact absurd hid (chargeRow_sources_apart (hone (hclient.resolve_right hother)) hother hz hx)

end Post

section Runs

variable {single : Prop} {c : AssessCall} {s s' : Charges}

/-- Before a call is anything charged, what is live ends where its rows start. -/
theorem charging_start (h : ChargedOnce single s) (hfresh : Fresh s) (companyId : Id) :
    Charging single c companyId s s where
  once := h
  fresh := hfresh
  ahead := by
    rintro _ ⟨p, rfl⟩ - x hx y hy -
    obtain ⟨it, -, -, hstart⟩ := mem_chargeRow_sources hx
    exact hstart.through y.2 (mem_liveSources hy)

theorem assessFinanceCharges_once (hone : single → c.OneClient) (h : ChargedOnce single s) (hfresh : Fresh s)
    (hcall : assessFinanceCharges c s = .ok s') : ChargedOnce single s' ∧ Fresh s' := by
  unfold assessFinanceCharges at hcall
  split at hcall
  · rename_i companyId hcompany
    obtain ⟨-, hcall⟩ := ite_error_eq_ok.mp hcall
    obtain ⟨-, hcall⟩ := ite_error_eq_ok.mp hcall
    split at hcall
    · rename_i rate income hrate hincome
      obtain ⟨-, hcall⟩ := ite_error_eq_ok.mp hcall
      simp only [] at hcall
      obtain ⟨-, hcall⟩ := ite_error_eq_ok.mp hcall
      obtain ⟨-, hcall⟩ := ite_error_eq_ok.mp hcall
      split at hcall
      · cases hcall
      · have hcharging := foldlM_keeps (Charging single c companyId s) (fun x hx _ _ hs hpost => ?_)
          (charging_start h hfresh companyId) hcall
        · exact ⟨hcharging.once, hcharging.fresh⟩
        · obtain ⟨⟨id, expected⟩, -, hrow⟩ := List.mem_filterMap.mp hx
          obtain ⟨row, hfind, rfl⟩ := Option.map_eq_some_iff.mp hrow
          obtain ⟨p, -, rfl⟩ := List.mem_map.mp (List.mem_of_find?_eq_some hfind)
          exact postCharge_charging hone hs ⟨p, rfl⟩ hpost
    · cases hcall
  · cases hcall

/-- Voiding leaves the sources that are live in their order. -/
theorem liveOf_void (invoiceId : ℕ) : (voidFinanceCharge invoiceId s).liveOf.Sublist s.liveOf := by
  unfold Charges.liveOf voidFinanceCharge
  simp only []
  induction s.assessments with
  | nil => exact List.Sublist.refl _
  | cons a as ih =>
    rw [List.map_cons]
    by_cases hid : a.invoiceId = invoiceId
    · rw [if_pos hid, List.filter_cons_of_neg (by simp), List.filter_cons]
      split
      · rw [List.flatMap_cons]
        exact ih.trans (List.sublist_append_right _ _)
      · exact ih
    · rw [if_neg hid, List.filter_cons, List.filter_cons]
      split
      · rw [List.flatMap_cons, List.flatMap_cons]
        exact ih.append_left _
      · exact ih

theorem liveSources_void (invoiceId : ℕ) :
    (voidFinanceCharge invoiceId s).liveSources.Sublist s.liveSources := by
  rw [← liveOf_snd, ← liveOf_snd]
  exact (liveOf_void invoiceId).map _

theorem voidFinanceCharge_once (h : ChargedOnce single s) (hfresh : Fresh s) (invoiceId : ℕ) :
    ChargedOnce single (voidFinanceCharge invoiceId s) ∧ Fresh (voidFinanceCharge invoiceId s) := by
  have hassessments : ∀ a ∈ (voidFinanceCharge invoiceId s).assessments,
      ∃ b ∈ s.assessments, a.invoiceId = b.invoiceId ∧ a.sources = b.sources := by
    intro a ha
    obtain ⟨b, hb, rfl⟩ := List.mem_map.mp ha
    refine ⟨b, hb, ?_⟩
    split_ifs <;> exact ⟨rfl, rfl⟩
  refine ⟨⟨h.apart.sublist (liveOf_void _), fun x hx => h.due x ((liveSources_void _).subset hx), ?_⟩,
    ⟨?_, ?_⟩⟩
  · intro i hi hvoid
    obtain ⟨j, hj, rfl⟩ := List.mem_map.mp hi
    by_cases hid : j.id = invoiceId
    · rw [if_pos hid] at hvoid
      cases hvoid
    rw [if_neg hid] at hvoid ⊢
    have hsound := h.invoices j hj hvoid
    refine ⟨hsound.balances, ?_, fun a ha hia => ?_⟩
    · obtain ⟨a, ha, hia⟩ := hsound.assessed
      refine ⟨_, List.mem_map_of_mem ha, ?_⟩
      split_ifs <;> exact hia
    · obtain ⟨b, hb, hinvoice, hsources⟩ := hassessments a ha
      rw [hsources]
      exact hsound.total b hb (hinvoice ▸ hia)
  · intro i hi
    obtain ⟨j, hj, rfl⟩ := List.mem_map.mp hi
    split_ifs <;> exact hfresh.invoices j hj
  · intro a ha
    obtain ⟨b, hb, hinvoice, -⟩ := hassessments a ha
    exact hinvoice ▸ hfresh.assessments b hb

theorem chargeStep_once (h : ChargedOnce single s) (hfresh : Fresh s) (action : ChargeAction)
    (hone : single → ∀ c, action = .assess c → c.OneClient) :
    ChargedOnce single (chargeStep s action) ∧ Fresh (chargeStep s action) := by
  cases action with
  | assess c =>
    rcases hcall : assessFinanceCharges c s with e | s'
    · rw [show chargeStep s (.assess c) = s by unfold chargeStep; simp only [hcall]; rfl]
      exact ⟨h, hfresh⟩
    · rw [show chargeStep s (.assess c) = s' by unfold chargeStep; simp only [hcall]; rfl]
      exact assessFinanceCharges_once (fun hs => hone hs c rfl) h hfresh hcall
  | void invoiceId => exact voidFinanceCharge_once h hfresh invoiceId

theorem chargeRun_once : ∀ (actions : List ChargeAction) {s : Charges},
    (single → ∀ c, .assess c ∈ actions → c.OneClient) → ChargedOnce single s → Fresh s →
    ChargedOnce single (chargeRun s actions)
  | [], _, _, h, _ => h
  | action :: actions, _, hone, h, hfresh => by
    obtain ⟨hstep, hfresh'⟩ := chargeStep_once h hfresh action fun hs c hc =>
      hone hs c (hc ▸ List.mem_cons_self)
    exact chargeRun_once actions (fun hs c hc => hone hs c (List.mem_cons_of_mem _ hc)) hstep hfresh'

/-- No day of an invoice is charged twice to one client, and to any two where no call finds an invoice
open with two; no charge starts before the invoice was due, and every finance-charge invoice balances
and is for its sources or the minimum. -/
theorem charged_once (actions : List ChargeAction) :
    ChargedOnce (∀ c, .assess c ∈ actions → c.OneClient) (chargeRun {} actions) :=
  chargeRun_once actions (fun hone => hone)
    ⟨List.Pairwise.nil, fun _ hx => absurd hx List.not_mem_nil, fun _ hi => absurd hi List.not_mem_nil⟩
    ⟨fun _ hi => absurd hi List.not_mem_nil, fun _ ha => absurd ha List.not_mem_nil⟩

/-- What of the invoice `inv` is open with a client. -/
def openWith (client : Id) (due : Day) (amount : Dec) : OpenItem :=
  ⟨some client, "inv", 0, some due, amount, amount, .invoice, false⟩

/-- A call of `assess` at twelve percent. -/
def assessAt (d : Day) (contacts : List (Id × Dec)) (items : List OpenItem)
    (grouped : (items.map fun it => (it.contactId, it.txnId)).Nodup) : ChargeAction :=
  .assess
    { companyId := some "co", assessmentDate := d, contacts := contacts, items := items
      people := [⟨"ann", true, none⟩, ⟨"bob", true, none⟩]
      settings := ⟨some 12, 0, 0, false, some "income"⟩, now := 89, accountsReceivable := "ar"
      dateOpen := true, accepted := true, grouped := grouped }

/-- The client is charged twice, the due date moves, and the first charge is voided: its days stay
free. -/
def chargedRun : List ChargeAction :=
  [assessAt 30 [("ann", 0.99)] [openWith "ann" 0 100] (by decide),
   assessAt 58 [("ann", 0.92)] [openWith "ann" 10 100] (by decide), .void 0,
   assessAt 89 [("ann", 1.02)] [openWith "ann" 10 100] (by decide)]

theorem charged_on : (chargeRun {} chargedRun).liveSources.Pairwise StoredSource.Apart ∧
    (chargeRun {} chargedRun).liveSources.map (fun x => (x.fromDate, x.throughDate)) =
      [(30, 58), (58, 89)] := by
  have hone : ∀ c, .assess c ∈ chargedRun → c.OneClient := by
    simp [chargedRun, assessAt, AssessCall.OneClient, openWith]
  refine ⟨?_, by decide +kernel⟩
  rw [← liveOf_snd]
  exact List.pairwise_map.mpr ((charged_once chargedRun).apart.imp fun h => h (.inl hone))

/-- An invoice with a line on receivables of each of two clients is an item of both: a call that names
both charges its days twice. -/
theorem charged_to_two :
    ¬(chargeRun {} [assessAt 30 [("ann", 0.59), ("bob", 0.39)]
      [openWith "ann" 0 60, openWith "bob" 0 40] (by decide)]).liveSources.Pairwise
        StoredSource.Apart := by
  have hlive : (chargeRun {} [assessAt 30 [("ann", 0.59), ("bob", 0.39)]
      [openWith "ann" 0 60, openWith "bob" 0 40] (by decide)]).liveSources =
        [⟨⟨"inv", 0, 60, 0, 30, 0.59⟩, 30⟩, ⟨⟨"inv", 0, 40, 0, 30, 0.39⟩, 30⟩] := by decide +kernel
  rw [hlive]
  intro h
  exact List.rel_of_pairwise_cons h (List.mem_singleton_self _) rfl 1 (by simp [StoredSource.Charges])

end Runs

end FinanceCharges

end MyBooks
