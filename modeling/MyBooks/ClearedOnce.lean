import MyBooks.PostingSteps

/-!
# No line is reconciled twice

A worksheet takes lines no completed reconciliation of the account has cleared, and an account has
one open reconciliation at a time, so that nothing on its worksheet is cleared elsewhere by the time
it completes (`Worksheets`). `undo` is where this can fail: it reopens a reconciliation without
asking, as `start` does, whether another one is open, and it reopens the one with the latest
statement date, which a later reconciliation may have cleared lines of. Where it does neither, every
run clears a line at most once (`reached_clearedOnce`).
-/

namespace MyBooks

namespace Recs

variable (r : Recs)

/-- The reconciliation has `line` on its worksheet, cleared. -/
def Clears (recId line : Id) : Prop :=
  ∃ row ∈ r.rows, row.reconciliationId = recId ∧ row.journalLineId = line ∧ row.isCleared = true

instance (recId line : Id) : Decidable (r.Clears recId line) :=
  inferInstanceAs (Decidable (∃ row ∈ r.rows, _))

/-- No line is cleared in two completed reconciliations of an account. -/
def ClearedOnce : Prop :=
  ∀ h ∈ r.headers, ∀ h' ∈ r.headers, h.status = .complete → h'.status = .complete →
    h.accountId = h'.accountId → ∀ line, r.Clears h.id line → r.Clears h'.id line → h.id = h'.id

/-- The others of the account are complete, and none of them has cleared a line of this one's
worksheet. -/
def ReopensAlone (recId : Id) : Prop :=
  ∀ h ∈ r.headers, h.id = recId → ∀ h' ∈ r.headers, h'.accountId = h.accountId → h'.id ≠ recId →
    h'.status = .complete ∧
      ∀ row ∈ r.rows, row.reconciliationId = recId → ¬r.Clears h'.id row.journalLineId

instance (recId : Id) : Decidable (r.ReopensAlone recId) :=
  inferInstanceAs (Decidable (∀ h ∈ r.headers, _))

structure Worksheets : Prop where
  ids : (r.headers.map (·.id)).Nodup
  known : ∀ row ∈ r.rows, ∃ h ∈ r.headers, h.id = row.reconciliationId
  oneOpen : ∀ h ∈ r.headers, ∀ h' ∈ r.headers, h.status = .inProgress → h'.status = .inProgress →
    h.accountId = h'.accountId → h.id = h'.id
  unclaimed : ∀ h ∈ r.headers, h.status = .inProgress → ∀ row ∈ r.rows,
    row.reconciliationId = h.id → ∀ h' ∈ r.headers, h'.status = .complete →
      h'.accountId = h.accountId → ¬r.Clears h'.id row.journalLineId
  once : r.ClearedOnce

/-- What is complete in `r'` was complete in `r` and cleared there what it clears in `r'`. -/
def CompletedFrom (r r' : Recs) : Prop :=
  ∀ h ∈ r'.headers, h.status = .complete →
    h ∈ r.headers ∧ ∀ line, r'.Clears h.id line → r.Clears h.id line

end Recs

namespace Recs

variable {r r' : Recs} {recId : Id} {h : Reconciliation}

theorem CompletedFrom.trans {r'' : Recs} (hf : CompletedFrom r r') (hf' : CompletedFrom r' r'') :
    CompletedFrom r r'' := fun h hh hs =>
  have hold := hf' h hh hs
  ⟨(hf h hold.1 hs).1, fun line hc => (hf h hold.1 hs).2 line (hold.2 line hc)⟩

theorem ClearedOnce.of_from (ho : r.ClearedOnce) (hf : CompletedFrom r r') : r'.ClearedOnce :=
  fun h hh h' hh' hs hs' ha line hc hc' =>
    ho h (hf h hh hs).1 h' (hf h' hh' hs').1 hs hs' ha line ((hf h hh hs).2 line hc)
      ((hf h' hh' hs').2 line hc')

theorem find_eq_some (hf : r.find recId = some h) : h ∈ r.headers ∧ h.id = recId :=
  ⟨List.mem_of_find?_eq_some hf, by simpa using List.find?_some hf⟩

theorem Worksheets.eq_of_id (w : r.Worksheets) {h' : Reconciliation} (hh : h ∈ r.headers)
    (hh' : h' ∈ r.headers) (hid : h.id = h'.id) : h = h' :=
  List.inj_on_of_nodup_map w.ids hh hh' hid

theorem openRec_ok (ho : openRec r recId = .ok h) :
    h ∈ r.headers ∧ h.id = recId ∧ h.status = .inProgress := by
  unfold openRec at ho
  rcases hf : r.find recId with _ | h'
  · simp [hf] at ho
  simp only [hf, ite_error_eq_ok, Except.ok.injEq] at ho
  obtain ⟨hs, rfl⟩ := ho
  obtain ⟨hmem, hid⟩ := find_eq_some hf
  refine ⟨hmem, hid, ?_⟩
  rcases hst : h'.status with _ | _
  · rfl
  · exact absurd hst hs

/-- A completed reconciliation is not the open one. -/
theorem ne_of_complete (hids : (r.headers.map (·.id)).Nodup) {h' : Reconciliation}
    (hh : h ∈ r.headers) (hopen : h.status = .inProgress) (hh' : h' ∈ r.headers)
    (hs : h'.status = .complete) : h'.id ≠ h.id := by
  intro hid
  rw [List.inj_on_of_nodup_map hids hh' hh hid, hopen] at hs
  cases hs

theorem rowComplete_some {acct : Id} {row : RecLine} :
    r.rowComplete (some acct) row = true ↔
      ∃ h ∈ r.headers, h.id = row.reconciliationId ∧ h.status = .complete ∧ acct = h.accountId := by
  simp [rowComplete]

/-- What the eligibility query excludes. -/
theorem clearedIn_of_clears {acct line : Id} (hh : h ∈ r.headers) (hs : h.status = .complete)
    (ha : h.accountId = acct) (hc : r.Clears h.id line) : r.clearedIn (some acct) line = true := by
  obtain ⟨row, hrow, hid, hline, hcl⟩ := hc
  exact List.any_eq_true.mpr ⟨row, hrow, by
    simp only [decide_eq_true_eq]
    exact ⟨hline, hcl, rowComplete_some.mpr ⟨h, hh, hid.symm, hs, ha.symm⟩⟩⟩

theorem not_clears_of_eligible {b : Books} {acct line : Id} {date : String}
    (hl : line ∈ eligible b r acct date) (hh : h ∈ r.headers) (hs : h.status = .complete)
    (ha : h.accountId = acct) : ¬r.Clears h.id line := by
  intro hc
  obtain ⟨l, hmem, rfl⟩ := List.mem_map.mp hl
  have := (List.mem_filter.mp hmem).2
  simp only [decide_eq_true_eq] at this
  exact this.2.2 (clearedIn_of_clears hh hs ha hc)

section Rows

variable {f : RecLine → RecLine}

/-- The change touches one worksheet's marks. -/
structure Marks (recId : Id) (f : RecLine → RecLine) : Prop where
  sheet : ∀ row, (f row).reconciliationId = row.reconciliationId
  line : ∀ row, (f row).journalLineId = row.journalLineId

theorem mem_mapRows (hf : Marks recId f) {row' : RecLine} (h : row' ∈ (r.mapRows recId f).rows) :
    ∃ row ∈ r.rows, row'.reconciliationId = row.reconciliationId ∧
      row'.journalLineId = row.journalLineId ∧
      (row.reconciliationId ≠ recId → row'.isCleared = row.isCleared) := by
  obtain ⟨row, hrow, rfl⟩ := List.mem_map.mp h
  refine ⟨row, hrow, ?_⟩
  split_ifs with hid
  · exact ⟨hf.sheet row, hf.line row, fun hne => absurd hid hne⟩
  · exact ⟨rfl, rfl, fun _ => rfl⟩

theorem clears_mapRows (hf : Marks recId f) {k line : Id} (hk : k ≠ recId)
    (h : (r.mapRows recId f).Clears k line) : r.Clears k line := by
  obtain ⟨row', hrow', hid, hline, hcl⟩ := h
  obtain ⟨row, hrow, hid', hline', hcl'⟩ := mem_mapRows hf hrow'
  refine ⟨row, hrow, hid'.symm.trans hid, hline'.symm.trans hline, ?_⟩
  rw [← hcl' (by rwa [← hid', hid])]
  exact hcl

theorem from_mapRows (hids : (r.headers.map (·.id)).Nodup) (hh : h ∈ r.headers)
    (hs : h.status = .inProgress) (hf : Marks h.id f) : CompletedFrom r (r.mapRows h.id f) :=
  fun _ hh' hs' => ⟨hh', fun _ hc => clears_mapRows hf (ne_of_complete hids hh hs hh' hs') hc⟩

/-- Marking lines of the open worksheet. -/
theorem Worksheets.mapRows (w : r.Worksheets) (hh : h ∈ r.headers) (hs : h.status = .inProgress)
    (hf : Marks h.id f) : (r.mapRows h.id f).Worksheets where
  ids := w.ids
  known row' hrow' := by
    obtain ⟨row, hrow, hid, -, -⟩ := mem_mapRows hf hrow'
    rw [hid]
    exact w.known row hrow
  oneOpen := w.oneOpen
  unclaimed := by
    intro h₁ hh₁ hs₁ row' hrow' hid₁ h₂ hh₂ hs₂ ha hc
    obtain ⟨row, hrow, hid, hline, -⟩ := mem_mapRows hf hrow'
    rw [hline] at hc
    exact w.unclaimed h₁ hh₁ hs₁ row hrow (hid.symm.trans hid₁) h₂ hh₂ hs₂ ha
      (clears_mapRows hf (ne_of_complete w.ids hh hs hh₂ hs₂) hc)
  once := w.once.of_from (from_mapRows w.ids hh hs hf)

theorem clears_addRows {lines : List Id} {k line : Id} :
    (r.addRows recId lines).Clears k line ↔ r.Clears k line := by
  constructor
  · rintro ⟨row, hrow, hid, hline, hcl⟩
    rcases List.mem_append.mp hrow with hrow | hrow
    · exact ⟨row, hrow, hid, hline, hcl⟩
    · obtain ⟨l, -, rfl⟩ := List.mem_map.mp hrow
      cases hcl
  · rintro ⟨row, hrow, hrest⟩
    exact ⟨row, List.mem_append_left _ hrow, hrest⟩

theorem from_addRows {lines : List Id} : CompletedFrom r (r.addRows recId lines) :=
  fun _ hh _ => ⟨hh, fun _ hc => clears_addRows.mp hc⟩

/-- New rows on the open worksheet, of lines no completed reconciliation of the account clears. -/
theorem Worksheets.addRows (w : r.Worksheets) (hh : h ∈ r.headers) {lines : List Id}
    (hl : ∀ line ∈ lines, ∀ h' ∈ r.headers, h'.status = .complete → h'.accountId = h.accountId →
      ¬r.Clears h'.id line) : (r.addRows h.id lines).Worksheets where
  ids := w.ids
  known row hrow := by
    rcases List.mem_append.mp hrow with hrow | hrow
    · exact w.known row hrow
    · obtain ⟨l, -, rfl⟩ := List.mem_map.mp hrow
      exact ⟨h, hh, rfl⟩
  oneOpen := w.oneOpen
  unclaimed := by
    intro h₁ hh₁ hs₁ row hrow hid₁ h₂ hh₂ hs₂ ha hc
    rw [clears_addRows] at hc
    rcases List.mem_append.mp hrow with hrow | hrow
    · exact w.unclaimed h₁ hh₁ hs₁ row hrow hid₁ h₂ hh₂ hs₂ ha hc
    · obtain ⟨l, hl', rfl⟩ := List.mem_map.mp hrow
      have heq : h = h₁ := w.eq_of_id hh hh₁ hid₁
      subst heq
      exact hl l hl' h₂ hh₂ hs₂ ha hc
  once := w.once.of_from from_addRows

theorem from_filterRows (p : RecLine → Bool) :
    CompletedFrom r { r with rows := r.rows.filter p } :=
  fun _ hh _ => ⟨hh, fun _ ⟨row, hrow, hrest⟩ => ⟨row, List.mem_of_mem_filter hrow, hrest⟩⟩

/-- Rows may go. -/
theorem Worksheets.filterRows (w : r.Worksheets) (p : RecLine → Bool) :
    ({ r with rows := r.rows.filter p } : Recs).Worksheets where
  ids := w.ids
  known row hrow := w.known row (List.mem_of_mem_filter hrow)
  oneOpen := w.oneOpen
  unclaimed h₁ hh₁ hs₁ row hrow hid₁ h₂ hh₂ hs₂ ha hc :=
    w.unclaimed h₁ hh₁ hs₁ row (List.mem_of_mem_filter hrow) hid₁ h₂ hh₂ hs₂ ha
      ((from_filterRows p h₂ hh₂ hs₂).2 _ hc)
  once := w.once.of_from (from_filterRows p)

end Rows

end Recs

section Operations

variable {b : Books} {r r' : Recs} {recId : Id}

/-- What `start` adds: an open reconciliation of a new id, the only open one of its account, and a
worksheet of eligible lines. -/
theorem start_ok {input : StartInput} (h : start b r input = .ok r') :
    ∃ created date, created.id = input.id ∧ created.status = .inProgress ∧
      (∀ h ∈ r.headers, h.id ≠ created.id) ∧
      (∀ h ∈ r.headers, h.status = .inProgress → h.accountId ≠ created.accountId) ∧
      r'.headers = r.headers ++ [created] ∧
      r'.rows = (r.addRows created.id (eligible b r created.accountId date)).rows := by
  simp only [start, bind_eq_ok, ite_error_eq_ok, pure_eq_ok] at h
  obtain ⟨target, -, hnone, hkey, rfl⟩ := h
  rw [not_or, Bool.not_eq_true, Option.isSome_eq_false_iff, Option.isNone_iff_eq_none] at hkey
  refine ⟨_, target.statementDate, rfl, rfl, by simpa [Recs.find] using hkey.2, ?_, rfl, rfl⟩
  intro h hh hs ha
  exact hnone (List.any_eq_true.mpr ⟨h, hh, by simp [ha, hs]⟩)

theorem start_from {input : StartInput} (h : start b r input = .ok r') :
    r.CompletedFrom r' := by
  obtain ⟨created, date, -, hopen, -, -, hheaders, hrows⟩ := start_ok h
  intro h' hh' hs
  rw [hheaders] at hh'
  have hh : h' ∈ r.headers := by
    rcases List.mem_append.mp hh' with hh | hh
    · exact hh
    · rw [List.mem_singleton.mp hh, hopen] at hs
      cases hs
  refine ⟨hh, fun line hc => ?_⟩
  unfold Recs.Clears at hc
  rw [hrows] at hc
  exact Recs.clears_addRows.mp hc

theorem start_ids {input : StartInput} (hids : (r.headers.map (·.id)).Nodup)
    (h : start b r input = .ok r') : (r'.headers.map (·.id)).Nodup := by
  obtain ⟨created, date, -, -, hnew, -, hheaders, -⟩ := start_ok h
  rw [hheaders, List.map_append, List.nodup_append]
  refine ⟨hids, by simp, ?_⟩
  rintro _ hx _ hy rfl
  obtain ⟨h, hh, hid⟩ := List.mem_map.mp hx
  rw [List.map_singleton, List.mem_singleton] at hy
  exact hnew h hh (hid.trans hy)

theorem start_worksheets {input : StartInput} (w : r.Worksheets) (h : start b r input = .ok r') :
    r'.Worksheets := by
  have hfrom := start_from h
  have hids := start_ids w.ids h
  obtain ⟨created, date, -, hopen, hnew, halone, hheaders, hrows⟩ := start_ok h
  refine ⟨hids, ?_, ?_, ?_, w.once.of_from hfrom⟩
  · intro row hrow
    rw [hrows] at hrow
    rw [hheaders]
    rcases List.mem_append.mp hrow with hrow | hrow
    · obtain ⟨h, hh, hid⟩ := w.known row hrow
      exact ⟨h, List.mem_append_left _ hh, hid⟩
    · obtain ⟨l, -, rfl⟩ := List.mem_map.mp hrow
      exact ⟨created, List.mem_append_right _ (List.mem_singleton_self _), rfl⟩
  · intro h hh h' hh' hs hs' ha
    rw [hheaders] at hh hh'
    rcases List.mem_append.mp hh with hh | hh <;> rcases List.mem_append.mp hh' with hh' | hh'
    · exact w.oneOpen h hh h' hh' hs hs' ha
    · rw [List.mem_singleton.mp hh'] at ha
      exact absurd ha (halone h hh hs)
    · rw [List.mem_singleton.mp hh] at ha
      exact absurd ha.symm (halone h' hh' hs')
    · rw [List.mem_singleton.mp hh, List.mem_singleton.mp hh']
  · intro h hh hs row hrow hid h' hh' hs' ha hc
    obtain ⟨hh'₀, hclears⟩ := hfrom h' hh' hs'
    have hc₀ := hclears _ hc
    rw [hheaders] at hh
    rw [hrows] at hrow
    rcases List.mem_append.mp hh with hh | hh
    · rcases List.mem_append.mp hrow with hrow | hrow
      · exact w.unclaimed h hh hs row hrow hid h' hh'₀ hs' ha hc₀
      · obtain ⟨l, -, rfl⟩ := List.mem_map.mp hrow
        exact hnew h hh hid.symm
    · rw [List.mem_singleton.mp hh] at hid ha
      rcases List.mem_append.mp hrow with hrow | hrow
      · obtain ⟨h₀, hh₀, hid₀⟩ := w.known row hrow
        exact hnew h₀ hh₀ (hid₀.trans hid)
      · obtain ⟨l, hl, rfl⟩ := List.mem_map.mp hrow
        exact Recs.not_clears_of_eligible hl hh'₀ hs' ha hc₀

theorem refreshLines_worksheets (w : r.Worksheets) (h : refreshLines b r recId = .ok r') :
    r'.Worksheets := by
  simp only [refreshLines, bind_eq_ok, pure_eq_ok] at h
  obtain ⟨hd, ho, rfl⟩ := h
  obtain ⟨hh, rfl, -⟩ := Recs.openRec_ok ho
  refine (w.filterRows _).addRows hh fun line hl h' hh' hs' ha => ?_
  exact Recs.not_clears_of_eligible (List.mem_of_mem_filter hl) hh' hs' ha

theorem refreshLines_from (h : refreshLines b r recId = .ok r') : r.CompletedFrom r' := by
  simp only [refreshLines, bind_eq_ok, pure_eq_ok] at h
  obtain ⟨hd, -, rfl⟩ := h
  exact (Recs.from_filterRows _).trans Recs.from_addRows

theorem refreshLines_headers (h : refreshLines b r recId = .ok r') : r'.headers = r.headers := by
  simp only [refreshLines, bind_eq_ok, pure_eq_ok] at h
  obtain ⟨hd, -, rfl⟩ := h
  rfl

/-- `autoClearStatement` marks lines of the open worksheet. -/
theorem autoClearStatement_ok (h : autoClearStatement b r recId = .ok r') :
    ∃ hd f, hd ∈ r.headers ∧ hd.status = .inProgress ∧ Recs.Marks hd.id f ∧
      r' = r.mapRows hd.id f := by
  simp only [autoClearStatement, bind_eq_ok] at h
  obtain ⟨hd, ho, h⟩ := h
  obtain ⟨hh, rfl, hs⟩ := Recs.openRec_ok ho
  split at h
  · cases h
  · rw [pure_eq_ok] at h
    refine ⟨hd, _, hh, hs, ⟨fun row => ?_, fun row => ?_⟩, h.symm⟩ <;> split_ifs <;> rfl

theorem autoClearStatement_worksheets (w : r.Worksheets)
    (h : autoClearStatement b r recId = .ok r') : r'.Worksheets := by
  obtain ⟨hd, f, hh, hs, hf, rfl⟩ := autoClearStatement_ok h
  exact w.mapRows hh hs hf

theorem updateLine_marks (u : LineUpdate) : Recs.Marks recId fun row =>
    if row.journalLineId = u.journalLineId then { row with isCleared := u.isCleared } else row := by
  refine ⟨fun row => ?_, fun row => ?_⟩ <;> split_ifs <;> rfl

theorem foldl_updateLine_worksheets {h : Reconciliation} (hs : h.status = .inProgress) :
    ∀ (updates : List LineUpdate) {r : Recs}, r.Worksheets → h ∈ r.headers →
      (updates.foldl (updateLine h.id) r).Worksheets
  | [], _, w, _ => w
  | u :: us, _, w, hh =>
    foldl_updateLine_worksheets hs us (w.mapRows hh hs (updateLine_marks u)) hh

theorem foldl_updateLine_from {h : Reconciliation} (hs : h.status = .inProgress) :
    ∀ (updates : List LineUpdate) {r : Recs}, (r.headers.map (·.id)).Nodup → h ∈ r.headers →
      r.CompletedFrom (updates.foldl (updateLine h.id) r) ∧
        (updates.foldl (updateLine h.id) r).headers = r.headers
  | [], _, _, _ => ⟨fun _ hh _ => ⟨hh, fun _ hc => hc⟩, rfl⟩
  | u :: us, r, hids, hh => by
    obtain ⟨hfrom, hheaders⟩ := foldl_updateLine_from hs us (r := updateLine h.id r u) hids hh
    exact ⟨(Recs.from_mapRows hids hh hs (updateLine_marks u)).trans hfrom, hheaders⟩

theorem updateLines_ok {updates : List LineUpdate} (h : updateLines r recId updates = .ok r') :
    ∃ hd ∈ r.headers, hd.status = .inProgress ∧ r' = updates.foldl (updateLine hd.id) r := by
  simp only [updateLines, bind_eq_ok, pure_eq_ok] at h
  obtain ⟨hd, ho, rfl⟩ := h
  obtain ⟨hh, rfl, hs⟩ := Recs.openRec_ok ho
  exact ⟨hd, hh, hs, rfl⟩

theorem updateLines_worksheets {updates : List LineUpdate} (w : r.Worksheets)
    (h : updateLines r recId updates = .ok r') : r'.Worksheets := by
  obtain ⟨hd, hh, hs, rfl⟩ := updateLines_ok h
  exact foldl_updateLine_worksheets hs updates w hh

section Header

variable {f : Reconciliation → Reconciliation}

/-- The header comes from one of the same id and account, and is that one unless it was changed. -/
theorem mem_setHeader (hf : ∀ h, (f h).id = h.id ∧ (f h).accountId = h.accountId)
    {h' : Reconciliation} (hmem : h' ∈ (r.setHeader recId f).headers) :
    ∃ h ∈ r.headers, h'.id = h.id ∧ h'.accountId = h.accountId ∧ (h.id ≠ recId → h' = h) ∧
      (h.id = recId → h' = f h) := by
  obtain ⟨h, hh, rfl⟩ := List.mem_map.mp hmem
  refine ⟨h, hh, ?_⟩
  split_ifs with hid
  · exact ⟨(hf h).1, (hf h).2, fun hne => absurd hid hne, fun _ => rfl⟩
  · exact ⟨rfl, rfl, fun _ => rfl, fun hid' => absurd hid' hid⟩

theorem map_id_setHeader (hf : ∀ h, (f h).id = h.id ∧ (f h).accountId = h.accountId) :
    (r.setHeader recId f).headers.map (·.id) = r.headers.map (·.id) := by
  rw [Recs.setHeader, List.map_map]
  refine List.map_congr_left fun h _ => ?_
  simp only [Function.comp_apply]
  split_ifs
  · exact (hf h).1
  · rfl

theorem setHeader_known (hf : ∀ h, (f h).id = h.id ∧ (f h).accountId = h.accountId) {k : Id}
    (hk : ∃ h ∈ r.headers, h.id = k) :
    ∃ h ∈ (r.setHeader recId f).headers, h.id = k := by
  rw [← List.mem_map (f := fun h : Reconciliation => h.id)] at hk ⊢
  rwa [map_id_setHeader hf]

end Header

/-- `complete` changes the header of the open reconciliation, and its status to complete. -/
theorem complete_ok (h : complete b r recId = .ok r') :
    ∃ hd f, hd ∈ r.headers ∧ hd.id = recId ∧ hd.status = .inProgress ∧
      (∀ h, (f h).id = h.id ∧ (f h).accountId = h.accountId) ∧ (∀ h, (f h).status = .complete) ∧
      r' = r.setHeader hd.id f := by
  simp only [complete, bind_eq_ok, ite_error_eq_ok, pure_eq_ok] at h
  obtain ⟨hd, ho, -, rfl⟩ := h
  obtain ⟨hh, rfl, hs⟩ := Recs.openRec_ok ho
  refine ⟨hd, _, hh, rfl, hs, ?_, ?_, rfl⟩
  · exact fun _ => ⟨rfl, rfl⟩
  · exact fun _ => rfl

/-- The completed worksheet's lines are cleared nowhere else in the account. -/
theorem complete_worksheets (w : r.Worksheets) (h : complete b r recId = .ok r') :
    r'.Worksheets := by
  obtain ⟨hd, f, hh, rfl, hs, hf, hcomplete, rfl⟩ := complete_ok h
  have hne : ∀ h, (f h).status ≠ .inProgress := fun h hs => by rw [hcomplete] at hs; cases hs
  refine ⟨?_, ?_, ?_, ?_, ?_⟩
  · rw [map_id_setHeader hf]
    exact w.ids
  · exact fun row hrow => setHeader_known hf (w.known row hrow)
  · intro h₁' hm₁ h₂' hm₂ hs₁ hs₂ ha
    obtain ⟨h₁, hh₁, hid₁, hac₁, hne₁, heq₁⟩ := mem_setHeader hf hm₁
    obtain ⟨h₂, hh₂, hid₂, hac₂, hne₂, heq₂⟩ := mem_setHeader hf hm₂
    have hk₁ : h₁.id ≠ hd.id := fun hid => hne h₁ (by rwa [← heq₁ hid])
    have hk₂ : h₂.id ≠ hd.id := fun hid => hne h₂ (by rwa [← heq₂ hid])
    rw [hne₁ hk₁] at hs₁ ha ⊢
    rw [hne₂ hk₂] at hs₂ ha ⊢
    exact w.oneOpen h₁ hh₁ h₂ hh₂ hs₁ hs₂ ha
  · intro h₁' hm₁ hs₁ row hrow hid h₂' hm₂ hs₂ ha hc
    obtain ⟨h₁, hh₁, hid₁, hac₁, hne₁, heq₁⟩ := mem_setHeader hf hm₁
    obtain ⟨h₂, hh₂, hid₂, hac₂, hne₂, heq₂⟩ := mem_setHeader hf hm₂
    have hk₁ : h₁.id ≠ hd.id := fun hid => hne h₁ (by rwa [← heq₁ hid])
    rw [hne₁ hk₁] at hs₁ hid ha
    have hk₂ : h₂.id ≠ hd.id := by
      intro hid₂'
      have : h₂ = hd := w.eq_of_id hh₂ hh hid₂'
      subst this
      exact hk₁ (w.oneOpen h₁ hh₁ h₂ hh₂ hs₁ hs (ha.symm.trans hac₂))
    rw [hne₂ hk₂] at hs₂ ha hc
    exact w.unclaimed h₁ hh₁ hs₁ row hrow hid h₂ hh₂ hs₂ ha hc
  · intro h₁' hm₁ h₂' hm₂ hs₁ hs₂ ha line hc₁ hc₂
    obtain ⟨h₁, hh₁, hid₁, hac₁, hne₁, heq₁⟩ := mem_setHeader hf hm₁
    obtain ⟨h₂, hh₂, hid₂, hac₂, hne₂, heq₂⟩ := mem_setHeader hf hm₂
    rw [hid₁, hid₂]
    rw [hac₁, hac₂] at ha
    rw [hid₁] at hc₁
    rw [hid₂] at hc₂
    -- what the completed worksheet clears was on it, open, with no claim by another
    have hnew : ∀ h₃ ∈ r.headers, h₃.id ≠ hd.id → h₃.status = .complete →
        h₃.accountId = hd.accountId → r.Clears hd.id line → ¬r.Clears h₃.id line := by
      rintro h₃ hh₃ - hs₃ ha₃ ⟨row, hrow, hid, rfl, -⟩
      exact w.unclaimed hd hh hs row hrow hid h₃ hh₃ hs₃ ha₃
    by_cases hk₁ : h₁.id = hd.id
    · have h₁d : h₁ = hd := w.eq_of_id hh₁ hh hk₁
      by_cases hk₂ : h₂.id = hd.id
      · rw [hk₁, hk₂]
      · rw [hne₂ hk₂] at hs₂
        subst h₁d
        exact absurd hc₂ (hnew h₂ hh₂ hk₂ hs₂ ha.symm hc₁)
    · rw [hne₁ hk₁] at hs₁
      by_cases hk₂ : h₂.id = hd.id
      · have h₂d : h₂ = hd := w.eq_of_id hh₂ hh hk₂
        subst h₂d
        exact absurd hc₁ (hnew h₁ hh₁ hk₁ hs₁ ha hc₂)
      · rw [hne₂ hk₂] at hs₂
        exact w.once h₁ hh₁ h₂ hh₂ hs₁ hs₂ ha line hc₁ hc₂

def reopened (h : Reconciliation) : Reconciliation := { h with status := .inProgress }

def uncleared (row : RecLine) : RecLine := { row with isCleared := false }

theorem undo_ok {latest : Option Id} (h : undo r recId latest = .ok r') :
    ∃ hd ∈ r.headers, hd.id = recId ∧
      r' = (r.setHeader hd.id reopened).mapRows hd.id uncleared := by
  unfold undo at h
  rcases hfind : r.find recId with _ | hd
  · simp [hfind] at h
  simp only [hfind, ite_error_eq_ok, Except.ok.injEq] at h
  obtain ⟨-, -, -, rfl⟩ := h
  obtain ⟨hh, rfl⟩ := Recs.find_eq_some hfind
  exact ⟨hd, hh, rfl, rfl⟩

theorem reopened_keeps (h : Reconciliation) :
    (reopened h).id = h.id ∧ (reopened h).accountId = h.accountId := ⟨rfl, rfl⟩

theorem uncleared_marks : Recs.Marks recId uncleared := ⟨fun _ => rfl, fun _ => rfl⟩

/-- A header that is complete after the undo is another one, unchanged. -/
theorem complete_of_reopened {h' : Reconciliation}
    (hh' : h' ∈ (r.setHeader recId reopened).headers) (hs' : h'.status = .complete) :
    h' ∈ r.headers ∧ h'.id ≠ recId := by
  obtain ⟨h, hh, -, -, hne, heq⟩ := mem_setHeader reopened_keeps hh'
  have hk : h.id ≠ recId := fun hid => by rw [heq hid] at hs'; cases hs'
  rw [hne hk]
  exact ⟨hh, hk⟩

theorem undo_from {latest : Option Id} (h : undo r recId latest = .ok r') :
    r.CompletedFrom r' := by
  obtain ⟨hd, -, rfl, rfl⟩ := undo_ok h
  intro h' hh' hs'
  obtain ⟨hh, hk⟩ := complete_of_reopened hh' hs'
  exact ⟨hh, fun line hc =>
    Recs.clears_mapRows (r := r.setHeader hd.id reopened) uncleared_marks hk hc⟩

theorem undo_ids {latest : Option Id} (hids : (r.headers.map (·.id)).Nodup)
    (h : undo r recId latest = .ok r') : (r'.headers.map (·.id)).Nodup := by
  obtain ⟨hd, -, rfl, rfl⟩ := undo_ok h
  show ((r.setHeader hd.id reopened).headers.map (·.id)).Nodup
  rwa [map_id_setHeader reopened_keeps]

/-- The reopened worksheet is the account's open one, and nothing on it is cleared elsewhere. -/
theorem undo_worksheets {latest : Option Id} (w : r.Worksheets) (halone : r.ReopensAlone recId)
    (h : undo r recId latest = .ok r') : r'.Worksheets := by
  have hfrom := undo_from h
  have hids := undo_ids w.ids h
  obtain ⟨hd, hh, rfl, rfl⟩ := undo_ok h
  refine ⟨hids, ?_, ?_, ?_, w.once.of_from hfrom⟩
  · intro row' hrow'
    obtain ⟨row, hrow, hid, -, -⟩ := Recs.mem_mapRows (r := r.setHeader hd.id reopened)
      uncleared_marks hrow'
    rw [hid]
    exact setHeader_known reopened_keeps (w.known row hrow)
  · intro h₁' hm₁ h₂' hm₂ hs₁ hs₂ ha
    obtain ⟨h₁, hh₁, hid₁, hac₁, hne₁, -⟩ := mem_setHeader reopened_keeps hm₁
    obtain ⟨h₂, hh₂, hid₂, hac₂, hne₂, -⟩ := mem_setHeader reopened_keeps hm₂
    rw [hid₁, hid₂]
    rw [hac₁, hac₂] at ha
    by_cases hk₁ : h₁.id = hd.id <;> by_cases hk₂ : h₂.id = hd.id
    · rw [hk₁, hk₂]
    · have := (halone h₁ hh₁ hk₁ h₂ hh₂ ha.symm hk₂).1
      rw [hne₂ hk₂, this] at hs₂
      cases hs₂
    · have := (halone h₂ hh₂ hk₂ h₁ hh₁ ha hk₁).1
      rw [hne₁ hk₁, this] at hs₁
      cases hs₁
    · rw [hne₁ hk₁] at hs₁
      rw [hne₂ hk₂] at hs₂
      exact w.oneOpen h₁ hh₁ h₂ hh₂ hs₁ hs₂ ha
  · intro h₁' hm₁ hs₁ row' hrow' hid h₂ hm₂ hs₂ ha hc
    obtain ⟨h₁, hh₁, hid₁, hac₁, hne₁, -⟩ := mem_setHeader reopened_keeps hm₁
    obtain ⟨hh₂, hk₂⟩ := complete_of_reopened hm₂ hs₂
    obtain ⟨row, hrow, hrid, hline, -⟩ := Recs.mem_mapRows (r := r.setHeader hd.id reopened)
      uncleared_marks hrow'
    have hc₀ := (hfrom h₂ hm₂ hs₂).2 _ hc
    rw [hline] at hc₀
    rw [hac₁] at ha
    have hid₀ : row.reconciliationId = h₁.id := hrid.symm.trans (hid.trans hid₁)
    by_cases hk₁ : h₁.id = hd.id
    · exact (halone h₁ hh₁ hk₁ h₂ hh₂ ha hk₂).2 row hrow (hid₀.trans hk₁) hc₀
    · rw [hne₁ hk₁] at hs₁
      exact w.unclaimed h₁ hh₁ hs₁ row hrow hid₀ h₂ hh₂ hs₂ ha hc₀

theorem cancel_ok (h : cancel r recId = .ok r') :
    r'.headers = r.headers.filter (fun h => h.id ≠ recId) ∧
      r'.rows = r.rows.filter fun row => row.reconciliationId ≠ recId := by
  unfold cancel at h
  rcases hfind : r.find recId with _ | hd
  · simp [hfind] at h
  simp only [hfind, ite_error_eq_ok, Except.ok.injEq] at h
  obtain ⟨-, rfl⟩ := h
  exact ⟨rfl, rfl⟩

theorem cancel_from (h : cancel r recId = .ok r') : r.CompletedFrom r' := by
  obtain ⟨hheaders, hrows⟩ := cancel_ok h
  intro h' hh' _
  rw [hheaders] at hh'
  refine ⟨List.mem_of_mem_filter hh', ?_⟩
  rintro line ⟨row, hrow, hrest⟩
  rw [hrows] at hrow
  exact ⟨row, List.mem_of_mem_filter hrow, hrest⟩

theorem cancel_ids (hids : (r.headers.map (·.id)).Nodup) (h : cancel r recId = .ok r') :
    (r'.headers.map (·.id)).Nodup := by
  rw [(cancel_ok h).1]
  exact hids.sublist (List.filter_sublist.map _)

theorem cancel_worksheets (w : r.Worksheets) (h : cancel r recId = .ok r') : r'.Worksheets := by
  have hfrom := cancel_from h
  have hids := cancel_ids w.ids h
  obtain ⟨hheaders, hrows⟩ := cancel_ok h
  have hmem : ∀ {h}, h ∈ r'.headers → h ∈ r.headers := fun hh => by
    rw [hheaders] at hh
    exact List.mem_of_mem_filter hh
  refine ⟨hids, ?_, ?_, ?_, w.once.of_from hfrom⟩
  · intro row hrow
    rw [hrows] at hrow
    obtain ⟨hrow, hid⟩ := List.mem_filter.mp hrow
    obtain ⟨h, hh, hid'⟩ := w.known row hrow
    refine ⟨h, ?_, hid'⟩
    rw [hheaders]
    exact List.mem_filter.mpr ⟨hh, by rwa [hid']⟩
  · exact fun h₁ hh₁ h₂ hh₂ => w.oneOpen h₁ (hmem hh₁) h₂ (hmem hh₂)
  · intro h₁ hh₁ hs₁ row hrow hid h₂ hh₂ hs₂ ha hc
    rw [hrows] at hrow
    exact w.unclaimed h₁ (hmem hh₁) hs₁ row (List.mem_of_mem_filter hrow) hid h₂ (hmem hh₂) hs₂ ha
      ((hfrom h₂ hh₂ hs₂).2 _ hc)

end Operations

/-- An undo reopens a reconciliation alone. -/
def Store.ReopensAlone (s : Store) : Op → Prop
  | .undo recId _ => s.recs.ReopensAlone recId
  | _ => True

instance (s : Store) (op : Op) : Decidable (s.ReopensAlone op) := by
  cases op <;> unfold Store.ReopensAlone <;> infer_instance

theorem step_worksheets {s s' : Store} {op : Op} (w : s.recs.Worksheets)
    (halone : s.ReopensAlone op) (h : step s op = .ok s') : s'.recs.Worksheets := by
  cases op
  case start input =>
    obtain ⟨r, hr, rfl⟩ := onRecs_ok.mp h
    exact start_worksheets w hr
  case refreshLines recId =>
    obtain ⟨r, hr, rfl⟩ := onRecs_ok.mp h
    exact refreshLines_worksheets w hr
  case updateLines recId updates =>
    obtain ⟨r, hr, rfl⟩ := onRecs_ok.mp h
    exact updateLines_worksheets w hr
  case autoClearStatement recId =>
    obtain ⟨r, hr, rfl⟩ := onRecs_ok.mp h
    exact autoClearStatement_worksheets w hr
  case complete recId =>
    obtain ⟨r, hr, rfl⟩ := onRecs_ok.mp h
    exact complete_worksheets w hr
  case undo recId latest =>
    obtain ⟨r, hr, rfl⟩ := onRecs_ok.mp h
    exact undo_worksheets w halone hr
  case cancel recId =>
    obtain ⟨r, hr, rfl⟩ := onRecs_ok.mp h
    exact cancel_worksheets w hr
  all_goals
    rw [step_recs rfl h]
    exact w

theorem Recs.worksheets_of_empty {r : Recs} (hh : r.headers = []) (hr : r.rows = []) :
    r.Worksheets := by
  refine ⟨?_, ?_, ?_, ?_, ?_⟩
  · rw [hh]
    exact List.nodup_nil
  · rw [hr]
    exact fun row hrow => absurd hrow List.not_mem_nil
  all_goals
    intro h hmem
    rw [hh] at hmem
    exact absurd hmem List.not_mem_nil

theorem reached_clearedOnce {s : Store} (hh : s.recs.headers = []) (hr : s.recs.rows = [])
    {units : List (List Op)} (hm : Meets step Store.ReopensAlone s units) :
    ∀ s' ∈ reached step s units, s'.recs.ClearedOnce :=
  fun s' hs' => (reached_keeps (fun _ _ _ w => step_worksheets w) hm
    (Recs.worksheets_of_empty hh hr) s' hs').once

section Deposits

/-- Two deposits of 10 to the checking account, nothing reconciled. -/
def twoDeposits : Store where
  books := {
    accounts := fun a => if a = "checking" then some ⟨.asset, some .bank, none⟩ else none
    txns := fun t =>
      if t = "first" then some ⟨.deposit, .posted, "2026-01-05", none⟩
      else if t = "second" then some ⟨.deposit, .posted, "2026-01-20", none⟩ else none
    lines := [⟨"l1", "first", "checking", 10, 0, none, false, false, false⟩,
      ⟨"l2", "second", "checking", 10, 0, none, false, false, false⟩]
    balance := fun a => if a = "checking" then 20 else 0 }
  recs := ⟨[], [], [], []⟩

def startJanuary : Op :=
  .start ⟨"jan", some "checking", some "2026-01-31", some 10, none, none⟩

def startFebruary : Op :=
  .start ⟨"feb", some "checking", some "2026-02-28", some 20, none, some "jan"⟩

/-- January is completed with the first deposit, undone and completed with the second. -/
def januaryTwice : List (List Op) :=
  [[startJanuary], [.updateLines "jan" [⟨"l1", true⟩]], [.complete "jan"],
    [.undo "jan" (some "jan")], [.updateLines "jan" [⟨"l2", true⟩]], [.complete "jan"]]

theorem januaryTwice_clearedOnce :
    (reached step twoDeposits januaryTwice).Forall fun s' => s'.recs.ClearedOnce :=
  List.forall_iff_forall_mem.mpr (reached_clearedOnce rfl rfl (by decide +kernel))

/-- February is open when January is undone; both then clear the second deposit. -/
def undoneUnderFebruary : List (List Op) :=
  [[startJanuary], [.updateLines "jan" [⟨"l1", true⟩]], [.complete "jan"], [startFebruary],
    [.undo "jan" (some "jan")], [.updateLines "jan" [⟨"l2", true⟩]], [.complete "jan"],
    [.updateLines "feb" [⟨"l2", true⟩]], [.complete "feb"]]

theorem undone_clears_twice :
    ¬∀ (s : Store) (units : List (List Op)), s.recs.headers = [] → s.recs.rows = [] →
      ∀ s' ∈ reached step s units, s'.recs.ClearedOnce := by
  intro hall
  have hrun : ∃ s' ∈ reached step twoDeposits undoneUnderFebruary,
      ∃ h ∈ s'.recs.headers, ∃ h' ∈ s'.recs.headers, h.status = .complete ∧
        h'.status = .complete ∧ h.accountId = h'.accountId ∧ s'.recs.Clears h.id "l2" ∧
          s'.recs.Clears h'.id "l2" ∧ h.id ≠ h'.id := by decide +kernel
  obtain ⟨s', hs', h, hh, h', hh', hst, hst', ha, hc, hc', hne⟩ := hrun
  exact hne (hall _ _ rfl rfl s' hs' h hh h' hh' hst hst' ha "l2" hc hc')

end Deposits

end MyBooks
