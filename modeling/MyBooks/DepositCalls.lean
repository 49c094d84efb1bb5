import MyBooks.ItemEdits

/-!
# Deposits made and edited

A planned deposit names each document once, on a row of its own. Its links are to documents as they
are taken (`DepositBooks.Sound.withLinks`), and its rows name them, whether they are written anew
(`namedBy_stored`) or kept on a reconciled deposit (`namedBy_kept`).
-/

namespace MyBooks

namespace Deposits

section Plan

variable {input : CreateDepositInput} {plan : DepositPlan}

theorem exactAmount_ok {v a : Dec} (h : exactAmount v = .ok a) : Places 4 a := by
  obtain ⟨heq, h⟩ : round4 v = v ∧ v = a := by
    unfold exactAmount at h
    split_ifs at h with hv
    exact ⟨hv, Except.ok.inj h⟩
  rw [← h, ← heq]
  exact places_toPlaces 4 v

/-- The lines of a plan: the documents they name, each once, for positive amounts of the ledger's scale. -/
theorem planLines_ok {strict : Bool} : ∀ {lines : List DepositLineInput} {seen : List Id}
    {planned : List PlannedLine}, planLines strict seen lines = .ok planned →
      (∀ p ∈ planned, ∀ t ∈ p.line.sourceTransactionId, Places 4 p.amount ∧ 0 < p.amount ∧ t ∉ seen) ∧
        (planned.filterMap (·.line.sourceTransactionId)).Nodup
  | [], seen, planned, h => by
    rw [← Except.ok.inj h]
    simp
  | line :: lines, seen, planned, h => by
    simp only [planLines, bind_eq_ok] at h
    obtain ⟨amount, hamount, h⟩ := h
    rcases hsrc : line.sourceTransactionId with _ | t
    · simp only [hsrc, bind_eq_ok, pure_eq_ok] at h
      obtain ⟨rest, hrest, rfl⟩ := h
      obtain ⟨hall, hnodup⟩ := planLines_ok hrest
      refine ⟨fun p hp => ?_, by simpa [hsrc] using hnodup⟩
      rcases List.mem_cons.mp hp with rfl | hp
      · simp [hsrc]
      · exact hall p hp
    · simp only [hsrc, ite_error_eq_ok, bind_eq_ok, pure_eq_ok, not_le] at h
      obtain ⟨hpos, hseen, rest, hrest, rfl⟩ := h
      obtain ⟨hall, hnodup⟩ := planLines_ok hrest
      have hexact : Places 4 amount := by
        rw [lineAmount, hsrc] at hamount
        exact exactAmount_ok (by simpa using hamount)
      refine ⟨fun p hp t' ht' => ?_, ?_⟩
      · rcases List.mem_cons.mp hp with rfl | hp
        · rw [hsrc, Option.mem_def, Option.some.injEq] at ht'
          exact ⟨hexact, hpos, ht' ▸ hseen⟩
        · obtain ⟨hplaces, hpos', hnot⟩ := hall p hp t' ht'
          exact ⟨hplaces, hpos', fun hmem => hnot (List.mem_cons_of_mem _ hmem)⟩
      · rw [List.filterMap_cons_some (b := t) (by simpa using hsrc), List.nodup_cons]
        refine ⟨fun hmem => ?_, hnodup⟩
        obtain ⟨p, hp, hpt⟩ := List.mem_filterMap.mp hmem
        exact (hall p hp t hpt).2.2 List.mem_cons_self

/-- A plan as the calls use it. -/
structure DepositPlan.Ok (plan : DepositPlan) : Prop where
  txnType : plan.payload.txnType = .deposit
  status : plan.payload.status = none
  rows : (plan.payload.lines.map (·.id)).Nodup
  inputs : ∀ p ∈ plan.lines, p.input ∈ plan.payload.lines
  rowIds : (plan.lines.map (·.line.rowId)).Nodup
  amounts : ∀ src ∈ plan.sources, Places 4 src.amount ∧ 0 < src.amount
  sources : (plan.sources.map (·.sourceTransactionId)).Nodup

theorem sources_transactions (plan : DepositPlan) :
    plan.sources.map (·.sourceTransactionId) = plan.lines.filterMap (·.line.sourceTransactionId) := by
  rw [DepositPlan.sources, List.map_filterMap]
  refine List.filterMap_congr fun p _ => ?_
  cases p.line.sourceTransactionId <;> rfl

theorem mem_sources {src : SourceRef} (h : src ∈ plan.sources) : ∃ p ∈ plan.lines,
    p.line.sourceTransactionId = some src.sourceTransactionId ∧ p.line = src.line ∧ p.amount = src.amount := by
  obtain ⟨p, hp, hsome⟩ := List.mem_filterMap.mp h
  obtain ⟨t, ht, rfl⟩ := Option.map_eq_some_iff.mp hsome
  exact ⟨p, hp, ht, rfl, rfl⟩

theorem planDeposit_ok (h : planDeposit input = .ok plan) : plan.Ok := by
  simp only [planDeposit, bind_eq_ok] at h
  obtain ⟨lines, hlines, cashBack, -, h⟩ := h
  obtain ⟨-, h⟩ := ite_error_eq_ok.mp h
  obtain ⟨hrows, h⟩ := ite_error_eq_ok.mp h
  rw [not_not] at hrows
  obtain rfl := Except.ok.inj h
  obtain ⟨hall, hnodup⟩ := planLines_ok hlines
  refine ⟨rfl, rfl, hrows, fun p hp => ?_, ?_, fun src hsrc => ?_, ?_⟩
  · exact List.mem_cons_of_mem _ (List.mem_append_left _ (List.mem_map_of_mem hp))
  · rw [List.cons_append, List.map_cons, List.map_append, List.map_map, List.nodup_cons] at hrows
    exact hrows.2.of_append_left
  · obtain ⟨p, hp, ht, -, hamount⟩ := mem_sources hsrc
    rw [← hamount]
    exact ⟨(hall p hp _ ht).1, (hall p hp _ ht).2.1⟩
  · rw [sources_transactions]
    exact hnodup

variable (hplan : plan.Ok)
include hplan

theorem DepositPlan.Ok.sourceRows : (plan.sources.map (·.line.rowId)).Nodup := by
  have hrow : plan.sources.map (·.line.rowId) =
      (plan.lines.filter fun p => p.line.sourceTransactionId.isSome).map (·.line.rowId) := by
    rw [DepositPlan.sources, List.map_filterMap, ← List.filterMap_eq_map, List.filterMap_filter]
    refine List.filterMap_congr fun p _ => ?_
    cases p.line.sourceTransactionId <;> rfl
  rw [hrow]
  exact hplan.rowIds.sublist (List.filter_sublist.map _)

/-- The row a line of the plan names its document with. -/
theorem DepositPlan.Ok.input_mem {src : SourceRef} (h : src ∈ plan.sources) :
    (⟨src.line.rowId, src.line.accountId, 0, src.amount, src.line.tagId⟩ : LineInput) ∈ plan.payload.lines := by
  obtain ⟨p, hp, -, hline, hamount⟩ := mem_sources h
  have hpos := (hplan.amounts src h).2
  have hinput := hplan.inputs p hp
  rwa [PlannedLine.input, hline, hamount, if_neg (not_lt.mpr hpos.le), if_neg (not_lt.mpr hpos.le)] at hinput

theorem DepositPlan.Ok.named_iff {rowId t : Id} :
    plan.named rowId = some t ↔ ∃ src ∈ plan.sources, src.line.rowId = rowId ∧ src.sourceTransactionId = t := by
  rw [DepositPlan.named, Option.map_eq_some_iff]
  constructor
  · rintro ⟨src, hfind, rfl⟩
    exact ⟨src, List.mem_of_find?_eq_some hfind, by simpa using List.find?_some hfind, rfl⟩
  · rintro ⟨src, hsrc, hrow, rfl⟩
    rcases hfind : plan.sources.find? fun src => src.line.rowId = rowId with _ | src'
    · have hnone := List.find?_eq_none.mp hfind src hsrc
      simp [hrow] at hnone
    · have hrow' : src'.line.rowId = rowId := by simpa using List.find?_some hfind
      refine ⟨src', hfind, ?_⟩
      rw [List.inj_on_of_nodup_map hplan.sourceRows (List.mem_of_find?_eq_some hfind) hsrc
        (hrow'.trans hrow.symm)]

/-- Of the rows one names the document. -/
theorem DepositPlan.Ok.named_unique {src : SourceRef} (h : src ∈ plan.sources) {rowId : Id}
    (hnamed : plan.named rowId = some src.sourceTransactionId) : rowId = src.line.rowId := by
  obtain ⟨src', hsrc', hrow, heq⟩ := hplan.named_iff.mp hnamed
  rw [List.inj_on_of_nodup_map hplan.sources hsrc' h heq] at hrow
  exact hrow.symm

end Plan

section Linked

variable {sys : SystemAccounts} {s : DepositBooks} {d : Id} {new : List DepositLink}

/-- The books with the links of a deposit added. -/
def DepositBooks.withLinks (s : DepositBooks) (new : List DepositLink) : DepositBooks :=
  { s with links := s.links ++ new }

theorem live_withLinks (hnew : ∀ k ∈ new, k.depositId = d) :
    (s.withLinks new).live = s.live ++ if s.store.books.status d = some .posted then new else [] := by
  rw [DepositBooks.live, DepositBooks.withLinks, List.filter_append, DepositBooks.live]
  refine congrArg (fun ls => s.links.filter _ ++ ls) ?_
  split_ifs with hp
  · exact List.filter_eq_self.mpr fun k hk => by simp [hnew k hk, hp]
  · exact List.filter_eq_nil_iff.mpr fun k hk => by simp [hnew k hk, hp]

theorem refunded_withLinks (hnew : ∀ k ∈ new, k.depositId = d) (hp : s.store.books.status d = some .posted)
    (x : Id) : (s.withLinks new).refunded x none =
      s.refunded x none + ((new.filter fun k => k.sourceTransactionId = x).map (·.amount)).sum := by
  rw [DepositBooks.refunded, liveDepositsForSource_none, live_withLinks hnew, if_pos hp, List.filter_append,
    List.map_append, List.sum_append, DepositBooks.refunded, liveDepositsForSource_none]

/-- Of a document named once there is one link. -/
theorem links_of_source (hsources : (new.map (·.sourceTransactionId)).Nodup) {k : DepositLink}
    (hk : k ∈ new) :
    (new.filter fun k' => k'.sourceTransactionId = k.sourceTransactionId) = [k] := by
  obtain ⟨before, after, rfl⟩ := List.append_of_mem hk
  rw [List.map_append, List.map_cons, List.nodup_middle, List.nodup_cons, List.mem_append,
    not_or] at hsources
  have hother : ∀ {ks : List DepositLink},
      k.sourceTransactionId ∉ ks.map (·.sourceTransactionId) →
        (ks.filter fun k' => k'.sourceTransactionId = k.sourceTransactionId) = [] := by
    intro ks hks
    refine List.filter_eq_nil_iff.mpr fun k' hk' heq => hks ?_
    rw [← of_decide_eq_true heq]
    exact List.mem_map_of_mem hk'
  rw [List.filter_append, List.filter_cons_of_pos (by simp), hother hsources.1.1,
    hother hsources.1.2, List.nil_append]

/-- Links to documents that are there as they are taken: items no deposit took, credits within what is
open. -/
theorem DepositBooks.Sound.withLinks (hs : s.Sound sys)
    (hd : (s.store.books.txns d).map (·.txnType) = some .deposit)
    (hnew : ∀ k ∈ new, k.depositId = d ∧ Places 4 k.amount ∧ 0 < k.amount)
    (hsources : (new.map (·.sourceTransactionId)).Nodup)
    (hitems : s.store.books.status d = some .posted → ∀ k ∈ new, s.isCredit k.sourceTransactionId = false →
      s.Whole sys k ∧ s.liveDepositsForSource k.sourceTransactionId none = [])
    (hcredits : s.store.books.status d = some .posted → ∀ k ∈ new, s.isCredit k.sourceTransactionId = true →
      s.refunded k.sourceTransactionId none + s.applied k.sourceTransactionId + k.amount ≤
        s.totals k.sourceTransactionId) : (s.withLinks new).Sound sys := by
  have hdep : ∀ k ∈ new, k.depositId = d := fun k hk => (hnew k hk).1
  have hlive := live_withLinks (s := s) hdep
  have hlinks : ∀ k ∈ (s.withLinks new).links,
      s.store.books.txns k.depositId ≠ none ∧ Places 4 k.amount ∧ 0 < k.amount := by
    intro k hk
    rcases List.mem_append.mp hk with hk | hk
    · exact hs.links k hk
    · refine ⟨fun hnone => ?_, (hnew k hk).2⟩
      rw [← hdep k hk, hnone] at hd
      cases hd
  by_cases hp : s.store.books.status d = some .posted
  · rw [if_pos hp] at hlive
    refine ⟨hs.rows, hs.clearing, hlinks, fun k hk => ?_, fun k hk hi => ?_, ?_,
      ⟨hs.credits.applications, hs.credits.totals, fun x hx hpx => ?_⟩⟩
    · rcases List.mem_append.mp (hlive ▸ hk) with hk | hk
      · exact hs.deposits k hk
      · rw [hdep k hk]
        exact hd
    · have hwhole : s.Whole sys k := by
        rcases List.mem_append.mp (hlive ▸ hk) with hk | hk
        · exact hs.items k hk hi
        · exact (hitems hp k hk hi).1
      exact ⟨hwhole.posted, hwhole.amount, hwhole.named.of_eq rfl fun _ _ => rfl⟩
    · rw [hlive, List.pairwise_append]
      refine ⟨hs.once, ?_, fun k hk k' hk' hi heq => ?_⟩
      · rw [List.nodup_iff_pairwise_ne, List.pairwise_map] at hsources
        refine List.Pairwise.imp ?_ hsources
        exact fun hne _ => hne
      · have hi' : s.isCredit k'.sourceTransactionId = false := heq ▸ hi
        exact not_source_of_nil (hitems hp k' hk' hi').2 hk heq
    · rw [refunded_withLinks hdep hp]
      show _ + s.applied x ≤ s.totals x
      by_cases hmine : ∃ k ∈ new, k.sourceTransactionId = x
      · obtain ⟨k, hk, rfl⟩ := hmine
        have hopen := hcredits hp k hk hx
        rw [links_of_source hsources hk, List.map_singleton, List.sum_singleton]
        linarith
      · have hnone : (new.filter fun k => k.sourceTransactionId = x) = [] :=
          List.filter_eq_nil_iff.mpr fun k hk heq => hmine ⟨k, hk, of_decide_eq_true heq⟩
        rw [hnone, List.map_nil, List.sum_nil, add_zero]
        exact hs.credits.within x hx hpx
  · rw [if_neg hp, List.append_nil] at hlive
    refine ⟨hs.rows, hs.clearing, hlinks, fun k hk => hs.deposits k (hlive ▸ hk), fun k hk hi => ?_,
      hlive ▸ hs.once, ⟨hs.credits.applications, hs.credits.totals, fun x hx hpx => ?_⟩⟩
    · have hwhole := hs.items k (hlive ▸ hk) hi
      exact ⟨hwhole.posted, hwhole.amount, hwhole.named.of_eq rfl fun _ _ => rfl⟩
    · have hwithin := hs.credits.within x hx hpx
      rw [DepositBooks.refunded, liveDepositsForSource_none] at hwithin ⊢
      rwa [hlive]

end Linked

section Validate

variable {sys : SystemAccounts} {s : DepositBooks} {facts : DepositFacts} {depositId : Option Id}
  {src : SourceRef} {plan : DepositPlan}

/-- A document as a deposit takes it. -/
structure Takes (sys : SystemAccounts) (s : DepositBooks) (depositId : Option Id) (src : SourceRef) : Prop where
  posted : s.store.books.status src.sourceTransactionId = some .posted
  credit : s.isCredit src.sourceTransactionId = true →
    src.amount ≤ s.vendorCreditOpenBalance src.sourceTransactionId depositId
  item : s.isCredit src.sourceTransactionId = false → src.line.accountId = sys.paymentsClearing ∧
    s.liveDepositsForSource src.sourceTransactionId depositId = [] ∧
      clearingAmount sys s.store.books src.sourceTransactionId = src.amount

theorem validateSource_ok {u : Unit} (h : s.validateSource sys facts depositId src = .ok u) :
    Takes sys s depositId src := by
  unfold DepositBooks.validateSource at h
  rcases hrow : s.store.books.txns src.sourceTransactionId with _ | row
  · simp [hrow] at h
  simp only [hrow] at h
  obtain ⟨-, h⟩ := ite_error_eq_ok.mp h
  obtain ⟨hposted, h⟩ := ite_error_eq_ok.mp h
  have hstatus : s.store.books.status src.sourceTransactionId = some .posted := by
    rw [Books.status, hrow, Option.map_some, not_not.mp hposted]
  have hkind : s.isCredit src.sourceTransactionId = decide (row.txnType = .vendorCredit) := by
    rw [DepositBooks.isCredit, hrow, Option.any_some]
  by_cases hcredit : row.txnType = .vendorCredit
  · rw [if_pos hcredit] at h
    obtain ⟨-, h⟩ := ite_error_eq_ok.mp h
    obtain ⟨-, h⟩ := ite_error_eq_ok.mp h
    obtain ⟨hopen, -⟩ := ite_error_eq_ok.mp h
    exact ⟨hstatus, fun _ => not_lt.mp hopen, fun hi => by simp [hkind, hcredit] at hi⟩
  · rw [if_neg hcredit] at h
    obtain ⟨-, h⟩ := ite_error_eq_ok.mp h
    obtain ⟨hacct, h⟩ := ite_error_eq_ok.mp h
    rcases hlive : s.liveDepositsForSource src.sourceTransactionId depositId with _ | ⟨k, rest⟩
    · simp only [hlive] at h
      obtain ⟨-, h⟩ := ite_error_eq_ok.mp h
      obtain ⟨hamount, -⟩ := ite_error_eq_ok.mp h
      exact ⟨hstatus, fun hc => by simp [hkind, hcredit] at hc,
        fun _ => ⟨not_not.mp hacct, hlive, (not_not.mp hamount).symm⟩⟩
    · simp [hlive] at h

theorem lockAndValidateSources_ok {u : Unit} (h : s.lockAndValidateSources sys facts plan depositId = .ok u) :
    ∀ src ∈ plan.sources, Takes sys s depositId src := by
  exact fun src hsrc => validateSource_ok (forM_ok h src hsrc)

/-- Within its columns the open balance is exact. -/
theorem openBalance_exact (hs : s.Sound sys) {t : Id} (hc : s.isCredit t = true)
    (hp : s.store.books.status t = some .posted) {amount : Dec}
    (h : amount ≤ s.vendorCreditOpenBalance t none) :
    s.refunded t none + s.applied t + amount ≤ s.totals t := by
  obtain ⟨hplaces, hlt⟩ := hs.credits.totals t hc hp
  have happlied : Places 4 (s.applied t) ∧ 0 ≤ s.applied t := by
    refine ⟨Places.sum fun x hx => ?_, List.sum_nonneg fun x hx => ?_⟩
    all_goals
      obtain ⟨a, ha, rfl⟩ := List.mem_map.mp hx
      have := hs.credits.applications a (List.mem_of_mem_filter ha)
    · exact this.2.1
    · exact this.2.2
  have hrefunded : Places 4 (s.refunded t none) ∧ 0 ≤ s.refunded t none := by
    rw [DepositBooks.refunded, liveDepositsForSource_none]
    refine ⟨Places.sum fun x hx => ?_, List.sum_nonneg fun x hx => ?_⟩
    all_goals
      obtain ⟨k, hk, rfl⟩ := List.mem_map.mp hx
      have := (hs.links k (mem_live.mp (List.mem_of_mem_filter hk)).1).2
    · exact this.1
    · exact this.2.le
  have hwithin := hs.credits.within t hc hp
  have hfirst : minus (s.totals t) (s.applied t) = s.totals t - s.applied t :=
    toSig_20 (hplaces.sub happlied.1) (by rw [abs_of_nonneg (by linarith)]; linarith)
  have hsecond : minus (minus (s.totals t) (s.applied t)) (s.refunded t none) =
      s.totals t - s.applied t - s.refunded t none := by
    rw [hfirst]
    exact toSig_20 ((hplaces.sub happlied.1).sub hrefunded.1) (by rw [abs_of_nonneg (by linarith)]; linarith)
  rw [DepositBooks.vendorCreditOpenBalance, hsecond, max_eq_right (by linarith)] at h
  linarith

end Validate

section CreateDeposit

variable {sys : SystemAccounts} {s s' : DepositBooks} {facts : DepositFacts} {d : Id}
  {input : CreateDepositInput} {plan : DepositPlan}

/-- The row of a full posting of the plan names its document. -/
theorem namedBy_stored (hplan : plan.Ok) {src : SourceRef} (hsrc : src ∈ plan.sources)
    (hacct : src.line.accountId = sys.paymentsClearing)
    (hlines : s.store.books.typedLines d = plan.payload.lines.map (LineInput.stored d))
    (hnames : ∀ i ∈ plan.payload.lines, s.sources i.id = plan.named i.id) :
    s.NamedBy sys d src.sourceTransactionId src.amount := by
  have hmem := hplan.input_mem hsrc
  rw [namedBy_iff, hlines]
  refine ⟨_, List.mem_map_of_mem hmem, hacct, rfl, ?_, toPlaces_zero,
    toPlaces_of_places (hplan.amounts src hsrc).1, fun l' hl' _ hsrc' => ?_⟩
  · refine (hnames _ hmem).trans (hplan.named_iff.mpr ⟨src, hsrc, rfl, rfl⟩)
  · obtain ⟨i, hi, rfl⟩ := List.mem_map.mp hl'
    have hid := hplan.named_unique hsrc ((hnames i hi).symm.trans hsrc')
    rw [List.inj_on_of_nodup_map hplan.rows hi hmem hid]

theorem links_ok (hplan : plan.Ok) :
    (∀ k ∈ plan.links d, k.depositId = d ∧ Places 4 k.amount ∧ 0 < k.amount) ∧
      ((plan.links d).map (·.sourceTransactionId)).Nodup := by
  refine ⟨fun k hk => ?_, ?_⟩
  · obtain ⟨src, hsrc, rfl⟩ := List.mem_map.mp hk
    exact ⟨rfl, hplan.amounts src hsrc⟩
  · rw [DepositPlan.links, List.map_map]
    exact hplan.sources

theorem DepositBooks.Sound.createDeposit (hs : s.Sound sys)
    (h : s.createDeposit sys d input facts = .ok s') : s'.Sound sys := by
  obtain ⟨plan, hplan, h⟩ := bind_eq_ok.mp h
  obtain ⟨_, -, h⟩ := bind_eq_ok.mp h
  obtain ⟨_, hvalid, h⟩ := bind_eq_ok.mp h
  obtain ⟨posted, hposted, h⟩ := bind_eq_ok.mp h
  obtain ⟨store, hstore, rfl⟩ := onLedger_eq_ok.mp hposted
  obtain rfl := pure_eq_ok.mp h
  have hplan := planDeposit_ok hplan
  have htakes := lockAndValidateSources_ok hvalid
  obtain ⟨ht, hins, -, hedits, htxn, htyped⟩ :=
    postTransaction_typed (a := sys.paymentsClearing) hs.rows (leaves_none fun _ => True) hstore
  obtain ⟨hlinks, hnone, happlied⟩ := hs.unknown ht
  set named : Id → Option Id :=
    fun id => if id ∈ plan.payload.lines.map (·.id) then plan.named id else s.sources id with hnamed
  set mid : DepositBooks := { s with store := store, sources := named } with hmid
  have htouch : Touches sys d s mid := {
    edits := hedits.mono fun _ _ => trivial
    links := .refl _
    sources := fun x _ l hl => if_neg (not_mem_of_insertable hins (mem_typedLines.mp hl).1)
    totals := fun _ _ => rfl
    applications := rfl
    header := fun txn htxn => by simp [ht] at htxn
    drafts := fun k hk hkd => absurd hkd (hlinks k hk) }
  have hdeposit : (store.books.txns d).map (·.txnType) = some .deposit := by
    rw [htxn, Option.map_some, hplan.txnType]
  have hsound : mid.Sound sys := by
    refine htouch.sound hs (fun k hk hi hor => ?_) fun hc _ => ?_
    · have hk := htouch.live.subset hk
      rcases hor with hor | hor
      · exact absurd hor (not_source_of_nil hnone hk)
      · exact absurd hor (hlinks k (mem_live.mp hk).1)
    · have htype : plan.payload.txnType = .vendorCredit := by simpa [DepositBooks.isCredit, hmid, htxn] using hc
      rw [hplan.txnType] at htype
      cases htype
  have hne : ∀ src ∈ plan.sources, src.sourceTransactionId ≠ d := by
    intro src hsrc heq
    have hstatus := (htakes src hsrc).posted
    simp [heq, Books.status, ht] at hstatus
  refine hsound.withLinks hdeposit (links_ok hplan).1 (links_ok hplan).2
    (fun _ k hk hi => ?_) fun _ k hk hc => ?_
  all_goals
    obtain ⟨src, hsrc, rfl⟩ := List.mem_map.mp hk
    have hnd := hne src hsrc
    have hstatus := (htouch.status hnd).trans (htakes src hsrc).posted
  · rw [htouch.isCredit hnd] at hi
    obtain ⟨hacct, hfree, hamount⟩ := (htakes src hsrc).item hi
    have hnamedBy : mid.NamedBy sys d src.sourceTransactionId src.amount :=
      namedBy_stored hplan hsrc hacct htyped fun i hi => if_pos (List.mem_map_of_mem hi)
    refine ⟨⟨hstatus, ?_, hnamedBy⟩, ?_⟩
    · exact (clearingAmount_of_eq (hedits.typed _ hnd) (hedits.walk _ trivial hnd)).trans hamount
    · rw [liveDepositsForSource_none] at hfree ⊢
      exact List.sublist_nil.mp (hfree ▸ htouch.live.filter _)
  · rw [htouch.isCredit hnd] at hc
    have hopen := openBalance_exact hs hc (htakes src hsrc).posted
      ((htakes src hsrc).credit hc)
    have hrefunded := htouch.refunded_le hs src.sourceTransactionId
    rw [htouch.applied_eq, htouch.totals _ hnd]
    show _ + _ + src.amount ≤ _
    linarith

section Kept

variable {txn : Txn} {kept : List (JournalLine × LineInput)} {new : List LineInput}

/-- The kept rows are those of the balance sheet, and no two rows of the edited deposit have one line. -/
theorem kept_rows (hs : s.Sound sys) (hplan : plan.Ok)
    (hpart : partialEdit s.store.books d txn.txnDate plan.payload = some (kept, new)) :
    kept.map (·.1) = s.store.books.balanceSheetLines d ∧ (kept.map (·.1)).Nodup ∧
      ((kept.map (·.2) ++ new).map (·.id)).Nodup := by
  obtain ⟨-, hperm⟩ := matchLines_perm _ (partialEdit_some hpart).2.1
  have hrows : kept.map (·.1) = s.store.books.balanceSheetLines d :=
    matchLines_keeps _ (partialEdit_some hpart).2.1
  refine ⟨hrows, ?_, (hperm.map _).nodup_iff.mpr hplan.rows⟩
  rw [hrows]
  exact ((hs.rows.ids.of_map _).filter _).filter _ |>.filter _

/-- A kept row has the name of its line. -/
theorem renamed_row (hs : s.Sound sys) (hplan : plan.Ok) (hrec : s.store.reconciled d = true)
    (ht : s.store.books.txns d = some txn)
    (hpart : partialEdit s.store.books d txn.txnDate plan.payload = some (kept, new)) {p : JournalLine × LineInput}
    (hp : p ∈ kept) : s.renamed d plan.payload plan.named p.1.id = plan.named p.2.id := by
  rw [renamed_kept hrec ht hpart]
  rcases hfind : kept.find? fun p' => p'.1.id = p.1.id with _ | p'
  · have hnone := List.find?_eq_none.mp hfind p hp
    simp at hnone
  · have hp' := List.mem_of_find?_eq_some hfind
    have hid : p'.1.id = p.1.id := by simpa using List.find?_some hfind
    have hrow : p'.1 = p.1 := List.inj_on_of_nodup_map hs.rows.ids
      (Books.mem_linesOf.mp (kept_mem hpart p' hp')).1 (Books.mem_linesOf.mp (kept_mem hpart p hp)).1 hid
    simp only [hfind, List.inj_on_of_nodup_map (kept_rows hs hplan hpart).2.1 hp' hp hrow]

/-- A new row has the name of its line. -/
theorem renamed_new (hrec : s.store.reconciled d = true) (ht : s.store.books.txns d = some txn)
    (hpart : partialEdit s.store.books d txn.txnDate plan.payload = some (kept, new))
    (hins : s.store.books.insertable (new.map (LineInput.stored d)) = true) {i : LineInput} (hi : i ∈ new) :
    s.renamed d plan.payload plan.named i.id = plan.named i.id := by
  have hfresh : ∀ l ∈ s.store.books.linesOf d, l.id ≠ i.id := fun l hl heq =>
    not_mem_of_insertable hins (Books.mem_linesOf.mp hl).1 (heq ▸ List.mem_map_of_mem hi)
  rw [renamed_kept hrec ht hpart, find?_kept_none hpart hfresh]
  exact if_pos (List.mem_map_of_mem hi)

/-- A line of the plan in Payments Clearing leaves a kept row as it is. -/
theorem kept_source (hs : s.Sound sys) (hplan : plan.Ok)
    (hpart : partialEdit s.store.books d txn.txnDate plan.payload = some (kept, new)) {src : SourceRef}
    (hsrc : src ∈ plan.sources) (hacct : src.line.accountId = sys.paymentsClearing) :
    ∃ p ∈ kept, p.2 = ⟨src.line.rowId, src.line.accountId, 0, src.amount, src.line.tagId⟩ ∧
      p.1.accountId = sys.paymentsClearing ∧ p.1.debit = 0 ∧ p.1.credit = src.amount ∧
      p.1 ∈ s.store.books.linesOf d ∧ p.1.isVoidReversal = false := by
  obtain ⟨hkeeps, hperm⟩ := matchLines_perm _ (partialEdit_some hpart).2.1
  obtain ⟨p, hp, hpi⟩ : ∃ p ∈ kept, p.2 = ⟨src.line.rowId, src.line.accountId, 0, src.amount, src.line.tagId⟩ := by
    rcases List.mem_append.mp (hperm.mem_iff.mpr (hplan.input_mem hsrc)) with hkept | hnew
    · obtain ⟨p, hp, heq⟩ := List.mem_map.mp hkept
      exact ⟨p, hp, heq⟩
    · have hoff := (partialEdit_some hpart).2.2 _ hnew
      simp only at hoff
      rw [hacct, hs.clearing.balanceSheet] at hoff
      cases hoff
  have hkeep := hkeeps p hp
  rw [hpi, keeps, decide_eq_true_eq] at hkeep
  obtain ⟨hpacct, hpdebit, hpcredit⟩ := hkeep
  have hrow : p.1 ∈ s.store.books.balanceSheetLines d :=
    (kept_rows hs hplan hpart).1 ▸ List.mem_map_of_mem hp
  obtain ⟨hrow, hrev, -⟩ := mem_balanceSheetLines.mp hrow
  refine ⟨p, hp, hpi, hpacct.symm.trans hacct, ?_, ?_, hrow, hrev⟩
  · rw [← hpdebit]
    exact toPlaces_zero
  · rw [← hpcredit]
    exact toPlaces_of_places (hplan.amounts src hsrc).1

end Kept

/-- The kept row that a line of the plan leaves as it is names its document. -/
theorem namedBy_kept {store : Store} {refusal : Refusal} (hs : s.Sound sys) (hplan : plan.Ok)
    (hwalk : s.store.books.walkLines sys.paymentsClearing d = [])
    (h : updateTransaction s.store d plan.payload false refusal none = .ok store)
    (hrec : s.store.reconciled d = true) {src : SourceRef} (hsrc : src ∈ plan.sources)
    (hacct : src.line.accountId = sys.paymentsClearing) :
    ({ s with store := store, sources := s.renamed d plan.payload plan.named } : DepositBooks).NamedBy sys d
      src.sourceTransactionId src.amount := by
  obtain ⟨txn, ht, -, -, -, hlines⟩ :=
    updateTransaction_typed hs.rows hs.clearing.balanceSheet (leaves_none fun _ => True) h
  rw [if_pos hrec] at hlines
  obtain ⟨kept, new, hpart, hins, htyped, -⟩ := hlines
  obtain ⟨hkeptRows, -, hids⟩ := kept_rows hs hplan hpart
  obtain ⟨p, hp, hpi, hpacct, hpdebit, hpcredit, hrow, hrev⟩ := kept_source hs hplan hpart hsrc hacct
  have htypedRow : p.1 ∈ s.store.books.typedLines d := by
    refine List.mem_filter.mpr ⟨hrow, ?_⟩
    have hnot := List.filter_eq_nil_iff.mp hwalk p.1 hrow
    simpa [hpacct] using hnot
  rw [List.map_append, List.nodup_append, List.map_map] at hids
  rw [namedBy_iff]
  refine ⟨retag kept p.1, ?_, ?_, ?_, ?_, ?_, ?_, fun l' hl' hrev' hsrc' => ?_⟩
  · show retag kept p.1 ∈ store.books.typedLines d
    rw [htyped]
    refine List.mem_append_left _ (List.mem_map_of_mem (List.mem_filter.mpr ⟨htypedRow, ?_⟩))
    simp [hpacct, hs.clearing.balanceSheet]
  · rw [retag_accountId, hpacct]
  · rw [(retag_row p.1).2.2.2.2, hrev]
  · rw [(retag_row p.1).1]
    refine (renamed_row hs hplan hrec ht hpart hp).trans ?_
    rw [hpi]
    exact hplan.named_iff.mpr ⟨src, hsrc, rfl, rfl⟩
  · rw [(retag_row p.1).2.2.1, hpdebit]
  · rw [(retag_row p.1).2.2.2.1, hpcredit]
  · change l' ∈ store.books.typedLines d at hl'
    change s.renamed d plan.payload plan.named l'.id = _ at hsrc'
    rw [htyped] at hl'
    rcases List.mem_append.mp hl' with hl' | hl'
    · -- another kept row has another line
      obtain ⟨l, hl, rfl⟩ := List.mem_map.mp hl'
      obtain ⟨hl, hstay⟩ := List.mem_filter.mp hl
      rw [(retag_row l).2.2.2.2] at hrev'
      have hlsheet : s.store.books.isBalanceSheet l.accountId = true := by simpa [hrev'] using hstay
      have hlmem : l ∈ kept.map (·.1) := by
        rw [hkeptRows]
        exact mem_balanceSheetLines.mpr ⟨(List.mem_filter.mp hl).1, hrev', hlsheet⟩
      obtain ⟨p', hp', rfl⟩ := List.mem_map.mp hlmem
      rw [(retag_row p'.1).1, renamed_row hs hplan hrec ht hpart hp'] at hsrc'
      have hid := hplan.named_unique hsrc hsrc'
      rw [List.inj_on_of_nodup_map hids.1 hp' hp (show p'.2.id = p.2.id by rw [hid, hpi])]
    · obtain ⟨i, hi, rfl⟩ := List.mem_map.mp hl'
      have hid := hplan.named_unique hsrc ((renamed_new hrec ht hpart hins hi).symm.trans hsrc')
      have hne := hids.2.2 p.2.id (List.mem_map_of_mem hp) i.id (List.mem_map_of_mem hi)
      rw [hpi, hid] at hne
      exact absurd rfl hne

end CreateDeposit

section UpdateDeposit

variable {sys : SystemAccounts} {s s' : DepositBooks} {facts : DepositFacts} {d : Id}
  {input : CreateDepositInput} {plan : DepositPlan}

theorem mem_released {k : DepositLink} (hk : k ∈ (s.releaseDepositLinks d).live) :
    k ∈ s.live ∧ k.depositId ≠ d := by
  obtain ⟨hk, hp⟩ := mem_live.mp hk
  obtain ⟨hk, hd⟩ := List.mem_filter.mp hk
  exact ⟨mem_live.mpr ⟨hk, hp⟩, by simpa using hd⟩

theorem liveDepositsForSource_released (x : Id) (e : Option Id) (he : e = none ∨ e = some d) :
    (s.releaseDepositLinks d).liveDepositsForSource x e = s.liveDepositsForSource x (some d) := by
  rw [DepositBooks.liveDepositsForSource, DepositBooks.releaseDepositLinks, List.filter_filter,
    DepositBooks.liveDepositsForSource]
  refine List.filter_congr fun k _ => ?_
  by_cases hd : k.depositId = d
  · simp [hd]
  · rcases he with rfl | rfl <;> simp [hd]

/-- A deposit whose links are released takes nothing any more. -/
theorem DepositBooks.Sound.release (hs : s.Sound sys) (hd : s.store.books.txns d ≠ none) :
    (s.releaseDepositLinks d).Sound sys := by
  have htouch : Touches sys d s (s.releaseDepositLinks d) := {
    edits := .refl hs.rows
    links := List.filter_sublist
    sources := fun _ _ _ _ => rfl
    totals := fun _ _ => rfl
    applications := rfl
    header := fun txn ht => ⟨txn, ht, rfl⟩
    drafts := fun _ _ _ hp => hp }
  refine htouch.sound hs (fun k hk hi _ => ?_) (htouch.credit_kept hs hd rfl id)
  have hwhole := hs.items k (mem_released hk).1 hi
  exact ⟨hwhole.posted, hwhole.amount, hwhole.named.of_eq rfl fun _ _ => rfl⟩

theorem updateDeposit_ok (h : s.updateDeposit sys d input facts = .ok s') :
    ∃ plan, planDeposit input = .ok plan ∧
      (s.store.books.txns d).map (·.txnType) = some .deposit ∧
      (∀ src ∈ plan.sources, Takes sys (s.releaseDepositLinks d) (some d) src) ∧ ∃ updated,
        (s.releaseDepositLinks d).rewrite sys d plan.payload plan.named false facts.refusal none = .ok updated ∧
        s' = { updated with links := (s.releaseDepositLinks d).links ++ plan.links d } := by
  obtain ⟨plan, hplan, h⟩ := bind_eq_ok.mp h
  rcases hd : s.store.books.txns d with _ | existing
  · simp [hd] at h
  simp only [hd] at h
  obtain ⟨htype, h⟩ := ite_error_eq_ok.mp h
  rw [not_or, not_not] at htype
  refine ⟨plan, hplan, by rw [Option.map_some, htype.1], ?_⟩
  obtain ⟨_, -, h⟩ := bind_eq_ok.mp h
  obtain ⟨_, -, h⟩ := bind_eq_ok.mp h
  obtain ⟨_, hvalid, h⟩ := bind_eq_ok.mp h
  obtain ⟨updated, hupdated, h⟩ := bind_eq_ok.mp h
  -- a void deposit is not edited, so the links were released
  have hvoid : existing.status ≠ .void := by
    intro hvoid
    rw [if_pos hvoid] at hupdated
    obtain ⟨-, store, hstore, -⟩ := rewrite_ok hupdated
    obtain ⟨txn, htxn, -, hnot, -⟩ := updateTransaction_ok hstore
    rw [hd, Option.some.injEq] at htxn
    exact hnot (htxn ▸ hvoid)
  simp only [if_neg hvoid] at hvalid hupdated h
  exact ⟨lockAndValidateSources_ok hvalid, updated, hupdated, (pure_eq_ok.mp h).symm⟩

/-- An item the edited deposit names is whole after the edit. -/
theorem edited_named {store : Store} {refusal : Refusal} (hs : s.Sound sys) (hplan : plan.Ok)
    (hwalk : s.store.books.walkLines sys.paymentsClearing d = [])
    (hstore : updateTransaction s.store d plan.payload false refusal none = .ok store)
    (hitself : s.NamesItself sys d plan) {src : SourceRef} (hsrc : src ∈ plan.sources)
    (htakes : Takes sys s (some d) src) (hi : s.isCredit src.sourceTransactionId = false) :
    ({ s with store := store, sources := s.renamed d plan.payload plan.named } : DepositBooks).Whole sys
      ⟨d, src.sourceTransactionId, src.amount⟩ := by
  have htouch : Touches sys d s { s with store := store, sources := s.renamed d plan.payload plan.named } :=
    rewritten_touches hs walkSpares_none hstore
  obtain ⟨txn, -, -, hedits, -, hlines⟩ :=
    updateTransaction_typed hs.rows hs.clearing.balanceSheet (leaves_none fun _ => True) hstore
  obtain ⟨hacct, -, hamount⟩ := htakes.item hi
  refine ⟨?_, ?_, ?_⟩
  · by_cases hne : src.sourceTransactionId = d
    · have hstatus := htakes.posted
      rw [hne] at hstatus
      show store.books.status src.sourceTransactionId = _
      rw [hne]
      exact (edited_status hs walkSpares_none hstore).trans hstatus
    · exact (htouch.status hne).trans htakes.posted
  · by_cases hne : src.sourceTransactionId = d
    · have hclearing := edited_clearing hs (leaves_none fun _ => True) trivial hstore
      rw [hne] at hamount
      show clearingAmount sys store.books src.sourceTransactionId = _
      rw [hne, hclearing]
      split_ifs with hrec
      · exact hamount
      · exact hitself src hsrc hne (by simpa using hrec)
    · exact (clearingAmount_of_eq (hedits.typed _ hne) (hedits.walk _ trivial hne)).trans hamount
  · by_cases hrec : s.store.reconciled d = true
    · exact namedBy_kept hs hplan hwalk hstore hrec hsrc hacct
    · rw [if_neg hrec] at hlines
      refine namedBy_stored hplan hsrc hacct hlines.2.1 fun i hmem => ?_
      exact (renamed_full (by simpa using hrec) i.id).trans (if_pos (List.mem_map_of_mem hmem))

theorem DepositBooks.Sound.updateDeposit (hs : s.Sound sys)
    (hwalk : s.store.books.walkLines sys.paymentsClearing d = [])
    (hspares : ∀ plan ∈ (planDeposit input).toOption,
      s.StoresSum sys (s.liveDepositsForSource d (some d)) d plan.payload.lines ∧ s.NamesItself sys d plan)
    (h : s.updateDeposit sys d input facts = .ok s') : s'.Sound sys := by
  obtain ⟨plan, hplan, htype, htakes, updated, hupdated, rfl⟩ := updateDeposit_ok h
  obtain ⟨hsum, hitself⟩ := hspares plan (by simp [hplan, Except.toOption])
  have hplan := planDeposit_ok hplan
  have hknown : s.store.books.txns d ≠ none := by
    rintro hnone
    simp [hnone] at htype
  set released := s.releaseDepositLinks d with hreleased
  have hsr : released.Sound sys := hs.release hknown
  obtain ⟨hguard, store, hstore, rfl⟩ := rewrite_ok hupdated
  set mid : DepositBooks :=
    { released with store := store, sources := released.renamed d plan.payload plan.named } with hmid
  have htouch : Touches sys d released mid := rewritten_touches hsr walkSpares_none hstore
  have hdeposit : (store.books.txns d).map (·.txnType) = some .deposit :=
    (htouch.txnType hknown).trans htype
  have hcredit : released.isCredit d = false := by
    obtain ⟨txn, htxn, htxnType⟩ := Option.map_eq_some_iff.mp htype
    show (s.store.books.txns d).any _ = false
    simp [htxn, htxnType]
  have hsound : mid.Sound sys := by
    refine htouch.sound hsr (fun k hk hi hor => ?_) (htouch.credit_kept hsr hknown rfl ?_)
    · have hk := htouch.live.subset hk
      have hsrc := hor.resolve_right (mem_released hk).2
      refine edited_whole hsr walkSpares_none hguard ?_ hstore hk hsrc (hsrc ▸ hi) (mem_released hk).2
      rw [hreleased, liveDepositsForSource_released d none (.inl rfl)]
      exact hsum
    · exact fun hp => (edited_status hsr walkSpares_none hstore).symm.trans hp
  refine hsound.withLinks hdeposit (links_ok hplan).1 (links_ok hplan).2
    (fun _ k hk hi => ?_) fun _ k hk hc => ?_
  all_goals obtain ⟨src, hsrc, rfl⟩ := List.mem_map.mp hk
  · have hkind : released.isCredit src.sourceTransactionId = false := by
      by_cases hne : src.sourceTransactionId = d
      · rw [hne]
        exact hcredit
      · exact (htouch.isCredit hne).symm.trans hi
    refine ⟨edited_named hsr hplan hwalk hstore hitself hsrc (htakes src hsrc) hkind, ?_⟩
    have hfree := ((htakes src hsrc).item hkind).2.1
    rw [hreleased, liveDepositsForSource_released _ _ (.inr rfl),
      ← liveDepositsForSource_released _ none (.inl rfl), liveDepositsForSource_none] at hfree
    rw [liveDepositsForSource_none]
    exact List.sublist_nil.mp (hfree ▸ htouch.live.filter _)
  · have hnd : src.sourceTransactionId ≠ d := by
      intro heq
      have hdoc : mid.isCredit d = false := by
        obtain ⟨txn, htxn, htxnType⟩ := Option.map_eq_some_iff.mp hdeposit
        show (store.books.txns d).any _ = false
        simp [htxn, htxnType]
      simp only [heq, hdoc] at hc
      cases hc
    have hc : released.isCredit src.sourceTransactionId = true := (htouch.isCredit hnd).symm.trans hc
    have hle := (htakes src hsrc).credit hc
    have hrel : released.vendorCreditOpenBalance src.sourceTransactionId (some d) =
        released.vendorCreditOpenBalance src.sourceTransactionId none := by
      simp only [DepositBooks.vendorCreditOpenBalance, DepositBooks.refunded]
      rw [hreleased, liveDepositsForSource_released _ _ (.inr rfl), liveDepositsForSource_released _ _ (.inl rfl)]
    rw [hrel] at hle
    have hopen := openBalance_exact hsr hc (htakes src hsrc).posted hle
    have hrefunded := htouch.refunded_le hsr src.sourceTransactionId
    rw [htouch.applied_eq, htouch.totals _ hnd]
    show _ + _ + src.amount ≤ _
    linarith

end UpdateDeposit

end Deposits

end MyBooks
