import MyBooks.FaceValues
import Mathlib.Algebra.BigOperators.Ring.List

/-!
# Formulas of rows

A formula collapses its terms to one for each row, so it comes to what the terms come to where no
row counts more than once (`formulaOf_eval`). The terms of a node's value come to its value in every
column: a node without a visible row is made of its parts, and a line without one is zero
(`valueTerms_value`).
-/

namespace MyBooks

section Terms

variable {terms : List (ℕ × ℤˣ)} {w : ℕ → ℤ}

/-- What terms come to, given what the rows show. -/
def termsValue (w : ℕ → ℤ) (terms : List (ℕ × ℤˣ)) : ℤ := (terms.map fun t => (t.2 : ℤ) * w t.1).sum

@[simp] theorem termsValue_nil : termsValue w [] = 0 := rfl

@[simp] theorem termsValue_singleton (r : ℕ) (sign : ℤˣ) :
    termsValue w [(r, sign)] = sign * w r := by simp [termsValue]

theorem termsValue_flatten (tss : List (List (ℕ × ℤˣ))) :
    termsValue w tss.flatten = (tss.map (termsValue w)).sum := by
  induction tss with
  | nil => rfl
  | cons ts tss ih =>
    rw [List.flatten_cons, List.map_cons, List.sum_cons, ← ih]
    simp only [termsValue, List.map_append, List.sum_append]

theorem weigh_netCounts : (netCounts terms).weigh w = termsValue w terms := by
  have h : ∀ (ts : List (ℕ × ℤˣ)) (m : Entries ℕ ℤ),
      (ts.foldl (fun net t => net.add t.1 t.2) m).weigh w = m.weigh w + termsValue w ts := by
    intro ts
    induction ts with
    | nil => simp
    | cons t ts ih =>
      intro m
      rw [List.foldl_cons, ih, Entries.weigh_add, termsValue, termsValue, List.map_cons,
        List.sum_cons, add_assoc]
  exact (h terms []).trans (zero_add _)

/-- No row counts more than once, net of signs. -/
def RowsOnce (terms : List (ℕ × ℤˣ)) : Prop := ∀ e ∈ netCounts terms, |e.2| ≤ 1

instance : Decidable (RowsOnce terms) :=
  inferInstanceAs (Decidable (∀ e ∈ netCounts terms, |e.2| ≤ 1))

theorem termsValue_clean : ∀ {net : Entries ℕ ℤ}, (∀ e ∈ net, |e.2| ≤ 1) →
    termsValue w ((net.filter fun e => e.2 ≠ 0).map fun e =>
      (e.1, if 0 < e.2 then (1 : ℤˣ) else -1)) = net.weigh w
  | [], _ => rfl
  | e :: net, h => by
    obtain ⟨he, hnet⟩ := List.forall_mem_cons.mp h
    have ih := termsValue_clean hnet
    rw [abs_le] at he
    rw [Entries.weigh, List.map_cons, List.sum_cons, ← Entries.weigh, ← ih, List.filter_cons]
    obtain hneg | hzero | hpos : e.2 = -1 ∨ e.2 = 0 ∨ e.2 = 1 := by omega
    · simp [hneg, termsValue]
    · simp [hzero, termsValue]
    · simp [hpos, termsValue]

theorem toTerms_formulaOf : (formulaOf terms).toTerms =
    ((netCounts terms).filter fun e => e.2 ≠ 0).map fun e =>
      (e.1, if 0 < e.2 then (1 : ℤˣ) else -1) := by
  unfold formulaOf
  simp only []
  split_ifs with hall
  · rw [FsRowFormula.toTerms, List.map_map]
    refine (List.map_congr_left fun t ht => ?_).trans (List.map_id _)
    exact Prod.ext rfl (of_decide_eq_true (List.all_eq_true.mp hall t ht)).symm
  · rfl

theorem formulaOf_eval (h : RowsOnce terms) (rows : List FsRow) (c : ℕ) :
    (formulaOf terms).eval rows c =
      termsValue (fun i => (rows[i]?).elim 0 fun r => cellAt r.values c) terms := by
  rw [← weigh_netCounts, ← termsValue_clean h, FsRowFormula.eval, toTerms_formulaOf]
  rfl

end Terms

section Columns

variable {f : FaceCtx} {c : ℕ} {amount : ℕ → ℤ}

theorem perColumn_get :
    (f.perColumn amount)[c]? = (f.bal[c]?).map fun m => m.map fun _ => amount c := by
  rw [FaceCtx.perColumn, List.getElem?_map, List.getElem?_zipIdx, Option.map_map]
  simp only [zero_add]
  rfl

/-- An available column. -/
def FaceCtx.Available (f : FaceCtx) (c : ℕ) : Prop := ∃ m, f.bal[c]? = some (some m)

theorem cellAt_perColumn (h : f.Available c) : cellAt (f.perColumn amount) c = amount c := by
  obtain ⟨m, hm⟩ := h
  rw [cellAt, perColumn_get, hm]
  rfl

theorem perColumn_shows {v : ℤ} (h : (f.perColumn amount)[c]? = some (some v)) :
    f.Available c ∧ amount c = v := by
  rw [perColumn_get] at h
  rcases hm : f.bal[c]? with _ | _ | m
  · simp [hm] at h
  · simp [hm] at h
  · exact ⟨⟨m, hm⟩, by simpa [hm] using h⟩

/-- Nothing but zeros in a line's row. -/
def FaceCtx.Silent (f : FaceCtx) (l : Line) : Prop := isZero (f.lineAmounts l) = true

theorem FaceCtx.Silent.roundedAt {l : Line} (h : f.Silent l) (hc : f.Available c) :
    f.roundedAt c l = 0 := by
  obtain ⟨m, hm⟩ := hc
  have hget : (f.lineAmounts l)[c]? = some (some (f.roundedAt c l)) := by
    rw [FaceCtx.lineAmounts, perColumn_get, hm]
    rfl
  have hzero := List.all_eq_true.mp h _ (List.mem_of_getElem? hget)
  simpa using hzero

end Columns

/-! ## What is emitted -/

section Emitted

variable {f : FaceCtx} {roots : List ENode}

/-- What a row shows, by what it stands for. -/
inductive RowStands (f : FaceCtx) (roots : List ENode) : Option RowRef → List (Option ℤ) → Prop
  | plain (amounts : List (Option ℤ)) : RowStands f roots none amounts
  | line (l : Line) : RowStands f roots (some (.line l)) (f.lineAmounts l)
  | totalOf (e : ENode) (he : e ∈ ENode.allNodes roots)
    (hn : e.node.isLeaf = true ∨ ∃ i a children, e.node = .sectionNode i a children) :
    RowStands f roots (some (.totalOf e.id)) (f.nodeAmounts e)
  | node (e : ENode) (he : e ∈ ENode.allNodes roots) :
    RowStands f roots (some (.node e.id)) (f.nodeAmounts e)

theorem forall_mem_ite {α : Type*} {p : Prop} [Decidable p] {a : α} {P : α → Prop} (h : P a) :
    ∀ x ∈ if p then [a] else [], P x := by
  split_ifs
  · simpa using h
  · simp

/-- The rows of a section around those of its children. -/
def FaceCtx.sectionRows (f : FaceCtx) (i : Id) (a : FsSectionAttrs) (amounts : List (Option ℤ))
    (inner : List Pending) : List Pending :=
  (if a.showHeading ∧ a.caption ≠ "" then [{ kind := .heading, amounts := f.blanks }] else []) ++
    inner ++ if a.showTotal then [{ kind := .total, amounts, ref := some (.totalOf i) }] else []

/-- Whether a section without a visible child is hidden. -/
def FaceCtx.sectionHidden (f : FaceCtx) (a : FsSectionAttrs) (amounts : List (Option ℤ))
    (visible : Bool) : Bool :=
  !visible && a.hideWhenZero.getD f.style.hideZeroLines && isZero amounts && a.role.isNone

theorem emit_section (i : Id) (a : FsSectionAttrs) (cs : List FsNode) (top : Bool)
    (pol : FsPolarity) (lines : List Line) (schedule : Option ScheduleBuild)
    (children : List ENode) :
    let e := ENode.mk (.sectionNode i a cs) top pol lines schedule children
    let rows := f.sectionRows i a (f.nodeAmounts e) (f.emitAll children).1
    f.emit e = if f.sectionHidden a (f.nodeAmounts e) (f.emitAll children).2 then
        (rows.map fun r => { r with hidden := true }, false)
      else (rows, true) := by
  intro e rows
  unfold FaceCtx.emit
  rfl

mutual

theorem emit_stands : ∀ (e : ENode), (∀ x ∈ e.nodes, x ∈ ENode.allNodes roots) →
    ∀ r ∈ (f.emit e).1, RowStands f roots r.ref r.amounts
  | .mk (.sectionNode i a cs) top pol lines schedule children, h => by
    have he := h _ (ENode.mem_nodes_self _)
    have hinner := emitAll_stands children fun x hx =>
      h x (by rw [ENode.nodes]; exact List.mem_cons_of_mem _ hx)
    have hrows : ∀ r ∈ f.sectionRows i a (f.nodeAmounts
        (.mk (.sectionNode i a cs) top pol lines schedule children)) (f.emitAll children).1,
        RowStands f roots r.ref r.amounts := by
      simp only [FaceCtx.sectionRows, List.forall_mem_append]
      exact ⟨⟨forall_mem_ite (.plain _), hinner⟩,
        forall_mem_ite (.totalOf _ he (.inr ⟨i, a, cs, rfl⟩))⟩
    rw [emit_section]
    split
    · intro r hr
      obtain ⟨r', hr', rfl⟩ := List.mem_map.mp hr
      exact hrows r' hr'
    · exact hrows
  | .mk (.leadsheetNode i a) top pol lines schedule children, h => by
    have he := h _ (ENode.mem_nodes_self _)
    rw [FaceCtx.emit]
    simp only []
    split
    · simp only [List.forall_mem_append, List.forall_mem_map]
      exact ⟨⟨forall_mem_ite (.plain _), fun l _ => .line l⟩,
        forall_mem_ite (.totalOf _ he (.inl rfl))⟩
    · simp only [List.forall_mem_map]
      exact fun l _ => .line l
  | .mk (.accountNode i a) top pol lines schedule children, h => by
    rw [FaceCtx.emit]
    simp only [List.forall_mem_map]
    exact fun l _ => .line l
  | .mk (.totalNode i a) top pol lines schedule children, h => by
    rw [FaceCtx.emit]
    simp only [List.forall_mem_singleton]
    exact .node (.mk (.totalNode i a) top pol lines schedule children)
      (h _ (ENode.mem_nodes_self _))
  | .mk (.textNode i) .., h | .mk (.blankNode i) .., h | .mk (.pageBreakNode i) .., h => by
    rw [FaceCtx.emit]
    simpa using RowStands.plain _

theorem emitAll_stands : ∀ (es : List ENode), (∀ x ∈ ENode.allNodes es, x ∈ ENode.allNodes roots) →
    ∀ r ∈ (f.emitAll es).1, RowStands f roots r.ref r.amounts
  | [], _ => by simp [FaceCtx.emitAll]
  | e :: es, h => by
    rw [FaceCtx.emitAll]
    simp only [List.forall_mem_append]
    simp only [ENode.allNodes, List.forall_mem_append] at h
    exact ⟨emit_stands e h.1, emitAll_stands es h.2⟩

end

/-- A line whose row shows among `rows`. -/
def ShowsLine (rows : List Pending) (l : Line) : Prop :=
  ∃ r ∈ rows, r.ref = some (.line l) ∧ r.hidden = false ∧ r.kind ≠ .blank

theorem lineHidden_silent {hide : Option Bool} {l : Line} (h : f.lineHidden hide l = true) :
    f.Silent l := by
  simp only [FaceCtx.lineHidden, Bool.and_eq_true] at h
  exact h.1.2

theorem ENode.Built.nodes_eq {e : ENode} (h : e.Built) (hn : e.node.kids = []) : e.nodes = [e] := by
  obtain ⟨node, top, pol, lines, schedule, children⟩ := e
  have hnil : children = [] := List.map_eq_nil_iff.mp (h.children.trans hn)
  subst hnil
  rfl

/-- The rows of a node's lines. -/
def FaceCtx.detailRows (f : FaceCtx) (hidden : Line → Bool) (lines : List Line) : List Pending :=
  lines.map fun l =>
    { kind := .detail, amounts := f.lineAmounts l, ref := some (.line l), hidden := hidden l }

theorem detailRows_line {hidden : Line → Bool} {lines : List Line}
    (hh : ∀ l, hidden l = true → f.Silent l) {l : Line} (hl : l ∈ lines) :
    f.Silent l ∨ ((f.detailRows hidden lines).any fun r => !r.hidden) = true ∧
      ShowsLine (f.detailRows hidden lines) l := by
  cases hhid : hidden l with
  | true => exact .inl (hh l hhid)
  | false =>
    have hmem := List.mem_map_of_mem (f := fun l =>
      ({ kind := .detail, amounts := f.lineAmounts l, ref := some (.line l), hidden := hidden l } :
        Pending)) hl
    exact .inr ⟨List.any_eq_true.mpr ⟨_, hmem, by simp [hhid]⟩, _, hmem, rfl, hhid, by simp⟩

mutual

/-- A line below a node has a visible row, and then the node is visible, or is zero. -/
theorem emit_lines : ∀ (e : ENode), (∀ x ∈ e.nodes, x.Built) → ∀ x ∈ e.nodes, ∀ l ∈ x.lines,
    f.Silent l ∨ (f.emit e).2 = true ∧ ShowsLine (f.emit e).1 l
  | .mk (.sectionNode i a cs) top pol lines schedule children, hb => by
    rw [ENode.nodes] at hb ⊢
    obtain ⟨he, hrest⟩ := List.forall_mem_cons.mp hb
    refine List.forall_mem_cons.mpr ⟨?_, fun x hx l hl => ?_⟩
    · rw [he.noLines rfl]
      simp
    · refine (emitAll_lines children hrest x hx l hl).imp id fun hshown => ?_
      obtain ⟨hvisible, r, hr, href⟩ := hshown
      rw [emit_section, if_neg (by simp [FaceCtx.sectionHidden, hvisible])]
      exact ⟨rfl, r, by simp [FaceCtx.sectionRows, hr], href⟩
  | .mk (.leadsheetNode i a) top pol lines schedule children, hb => by
    rw [(hb _ (ENode.mem_nodes_self _)).nodes_eq rfl]
    simp only [List.forall_mem_singleton, ENode.lines]
    intro l hl
    rw [FaceCtx.emit]
    simp only []
    split
    · have hrow := @detailRows_line f (f.lineHidden a.hideWhenZero) lines
        (fun _ => lineHidden_silent) l hl
      refine hrow.imp id fun hshown => ?_
      obtain ⟨hvisible, r, hr, href⟩ := hshown
      rw [FaceCtx.detailRows] at hvisible hr
      exact ⟨by simp only [hvisible, Bool.true_or], r, by simp [hr], href⟩
    · exact detailRows_line (fun l h => lineHidden_silent (Bool.and_eq_true_iff.mp h).1) hl
  | .mk (.accountNode i a) top pol lines schedule children, hb => by
    rw [(hb _ (ENode.mem_nodes_self _)).nodes_eq rfl]
    simp only [List.forall_mem_singleton, ENode.lines]
    intro l hl
    rw [FaceCtx.emit]
    exact detailRows_line (fun _ => lineHidden_silent) hl
  | .mk (.totalNode i a) .., hb | .mk (.textNode i) .., hb | .mk (.blankNode i) .., hb
  | .mk (.pageBreakNode i) .., hb => by
    have he := hb _ (ENode.mem_nodes_self _)
    rw [he.nodes_eq rfl]
    simp only [List.forall_mem_singleton]
    rw [he.noLines rfl]
    simp

theorem emitAll_lines : ∀ (es : List ENode), (∀ x ∈ ENode.allNodes es, x.Built) →
    ∀ x ∈ ENode.allNodes es, ∀ l ∈ x.lines,
      f.Silent l ∨ (f.emitAll es).2 = true ∧ ShowsLine (f.emitAll es).1 l
  | [], _ => by simp [ENode.allNodes]
  | e :: es, hb => by
    simp only [ENode.allNodes, List.forall_mem_append] at hb ⊢
    rw [FaceCtx.emitAll]
    constructor
    · intro x hx l hl
      refine (emit_lines e hb.1 x hx l hl).imp id fun hshown => ?_
      obtain ⟨hvisible, r, hr, href⟩ := hshown
      exact ⟨by simp [hvisible], r, List.mem_append_left _ hr, href⟩
    · intro x hx l hl
      refine (emitAll_lines es hb.2 x hx l hl).imp id fun hshown => ?_
      obtain ⟨hvisible, r, hr, href⟩ := hshown
      exact ⟨by simp [hvisible], r, List.mem_append_right _ hr, href⟩

end

/-! ## Rows that are shown -/

/-- A row that is not hidden comes after those before it, and a blank one only after some other. -/
def FaceCtx.keep (rows : List Pending) (r : Pending) : List Pending :=
  if r.hidden then rows
  else if r.kind = .blank ∧
      (rows.getLast?.elim true fun prev => prev.kind = .blank ∨ prev.kind = .pageBreak) then rows
  else rows ++ [r]

theorem visible_eq (out : List Pending) :
    FaceCtx.visible out = (out.foldl FaceCtx.keep []).rdropWhile fun r => r.kind = .blank := rfl

theorem mem_foldl_keep {x : Pending} : ∀ (out rows : List Pending),
    x ∈ out.foldl FaceCtx.keep rows → x ∈ rows ∨ x ∈ out
  | [], rows, h => .inl h
  | a :: as, rows, h => by
    rcases mem_foldl_keep as _ h with hx | hx
    · unfold FaceCtx.keep at hx
      split_ifs at hx
      · exact .inl hx
      · exact .inl hx
      · rcases List.mem_append.mp hx with hx | hx
        · exact .inl hx
        · exact .inr (List.mem_singleton.mp hx ▸ List.mem_cons_self)
    · exact .inr (List.mem_cons_of_mem _ hx)

theorem subset_foldl_keep : ∀ (out rows : List Pending), rows ⊆ out.foldl FaceCtx.keep rows
  | [], _ => fun _ h => h
  | a :: as, rows => by
    refine fun x hx => subset_foldl_keep as _ ?_
    unfold FaceCtx.keep
    split_ifs
    · exact hx
    · exact hx
    · exact List.mem_append_left _ hx

theorem foldl_keep_of_shown {r : Pending} (hh : r.hidden = false) (hk : r.kind ≠ .blank) :
    ∀ (out rows : List Pending), r ∈ out → r ∈ out.foldl FaceCtx.keep rows
  | a :: as, rows, h => by
    rcases List.mem_cons.mp h with rfl | h
    · refine subset_foldl_keep as _ ?_
      rw [FaceCtx.keep, if_neg (by simp [hh]), if_neg fun h => hk h.1]
      simp
    · exact foldl_keep_of_shown hh hk as _ h

theorem visible_sub (out : List Pending) : FaceCtx.visible out ⊆ out := by
  intro r h
  rw [visible_eq] at h
  exact (mem_foldl_keep out [] ((List.rdropWhile_prefix _ _).subset h)).resolve_left
    List.not_mem_nil

theorem mem_visible {out : List Pending} {r : Pending} (h : r ∈ out) (hh : r.hidden = false)
    (hk : r.kind ≠ .blank) : r ∈ FaceCtx.visible out := by
  have hmem := foldl_keep_of_shown hh hk out [] h
  rw [← @List.rdropWhile_append_rtakeWhile _ (fun r : Pending => decide (r.kind = .blank))
    (out.foldl FaceCtx.keep []), List.mem_append] at hmem
  refine hmem.resolve_right fun hblank => hk ?_
  rw [List.rtakeWhile, List.mem_reverse] at hblank
  simpa using List.mem_takeWhile_imp hblank

theorem rowOf_some {rows : List Pending} {ref : RowRef} {i : ℕ}
    (h : FaceCtx.rowOf rows ref = some i) : ∃ r, rows[i]? = some r ∧ r.ref = some ref := by
  obtain ⟨p, hp, rfl⟩ := Option.map_eq_some_iff.mp h
  have hmem := List.mem_reverse.mp (List.mem_of_find?_eq_some hp)
  have href := List.find?_some hp
  exact ⟨p.1, List.mem_zipIdx_iff_getElem?.mp hmem, of_decide_eq_true href⟩

theorem rowOf_none {rows : List Pending} {ref : RowRef} (h : FaceCtx.rowOf rows ref = none) :
    ∀ r ∈ rows, r.ref ≠ some ref := by
  intro r hr href
  obtain ⟨i, hi⟩ := List.getElem?_of_mem hr
  have hnone := List.find?_eq_none.mp (Option.map_eq_none_iff.mp h) (r, i)
    (List.mem_reverse.mpr (List.mem_zipIdx_iff_getElem?.mpr hi))
  simp [href] at hnone

end Emitted

/-! ## Formulas -/

section Formulas

variable {f : FaceCtx} {roots : List ENode} {rank : Id → ℕ} {rows : List Pending} {c : ℕ}

/-- The rows of a face, with what they show in a column. -/
structure Face (f : FaceCtx) (roots : List ENode) (rank : Id → ℕ) (rows : List Pending) : Prop where
  ranked : Ranked roots rank
  index : f.index = indexOf roots
  stands : ∀ r ∈ rows, RowStands f roots r.ref r.amounts
  lines : ∀ e ∈ ENode.allNodes roots, ∀ l ∈ e.lines, f.Silent l ∨ ∃ r ∈ rows, r.ref = some (.line l)

theorem face_visible (hindex : f.index = indexOf roots) (h : Ranked roots rank) :
    Face f roots rank (FaceCtx.visible (f.emitAll roots).1) where
  ranked := h
  index := hindex
  stands r hr := emitAll_stands roots (fun _ hx => hx) r (visible_sub _ hr)
  lines e he l hl := by
    refine (emitAll_lines roots h.built e he l hl).imp id fun hshown => ?_
    obtain ⟨-, r, hr, href, hh, hk⟩ := hshown
    exact ⟨r, mem_visible hr hh hk, href⟩

/-- What a row shows in a column. -/
def shownAt (rows : List Pending) (c : ℕ) (i : ℕ) : ℤ :=
  (rows[i]?).elim 0 fun r => cellAt r.amounts c

theorem Face.shown_line (h : Face f roots rank rows) (hc : f.Available c) {l : Line} {i : ℕ}
    (hi : FaceCtx.rowOf rows (.line l) = some i) : shownAt rows c i = f.roundedAt c l := by
  obtain ⟨r, hr, href⟩ := rowOf_some hi
  have hstands := h.stands r (List.mem_of_getElem? hr)
  rw [href] at hstands
  rw [shownAt, hr]
  simp only [Option.elim_some]
  generalize r.amounts = amounts at hstands
  cases hstands
  exact cellAt_perColumn hc

theorem Face.shown_node (h : Face f roots rank rows) (hc : f.Available c) {e : ENode}
    (he : e ∈ ENode.allNodes roots) {ref : RowRef} (href : ref = .totalOf e.id ∨ ref = .node e.id)
    {i : ℕ} (hi : FaceCtx.rowOf rows ref = some i) : shownAt rows c i = f.valueOf e c := by
  obtain ⟨r, hr, hrow⟩ := rowOf_some hi
  have hstands := h.stands r (List.mem_of_getElem? hr)
  rw [hrow] at hstands
  have hsame : ∀ e' ∈ ENode.allNodes roots, e'.id = e.id → e' = e := fun e' he' hid =>
    List.inj_on_of_nodup_map h.ranked.ids he' he hid
  have hval : r.amounts = f.nodeAmounts e := by
    generalize r.amounts = amounts at hstands
    rcases href with rfl | rfl
    · generalize hid : e.id = j at hstands
      cases hstands with
      | totalOf e' he' _ => rw [hsame e' he' hid.symm]
    · generalize hid : e.id = j at hstands
      cases hstands with
      | node e' he' => rw [hsame e' he' hid.symm]
  rw [shownAt, hr]
  simp only [Option.elim_some]
  rw [hval]
  exact cellAt_perColumn hc

/-- The rows of some lines come to the lines: one without a row is zero. -/
theorem Face.lines_value (h : Face f roots rank rows) (hc : f.Available c) {e : ENode}
    (he : e ∈ ENode.allNodes roots) (sign : ℤˣ) :
    termsValue (shownAt rows c) (e.lines.filterMap fun l =>
      (FaceCtx.rowOf rows (.line l)).map fun r => (r, sign)) =
        sign * (e.lines.map (f.roundedAt c)).sum := by
  have hlines : ∀ l ∈ e.lines, f.Silent l ∨ ∃ r ∈ rows, r.ref = some (.line l) := h.lines e he
  generalize e.lines = lines at hlines
  induction lines with
  | nil => simp
  | cons l lines ih =>
    obtain ⟨hl, hrest⟩ := List.forall_mem_cons.mp hlines
    rw [List.map_cons, List.sum_cons, mul_add, ← ih hrest]
    cases hi : FaceCtx.rowOf rows (.line l) with
    | none =>
      have hsilent : f.Silent l := hl.resolve_right fun hr => by
        obtain ⟨r, hr, href⟩ := hr
        exact rowOf_none hi r hr href
      rw [List.filterMap_cons_none (by rw [hi]; rfl), hsilent.roundedAt hc, mul_zero, zero_add]
    | some i =>
      rw [List.filterMap_cons_some (by rw [hi]; rfl), ← h.shown_line hc hi]
      simp only [termsValue, List.map_cons, List.sum_cons]

theorem mapM_values {α : Type*} {get : α → Option (List (ℕ × ℤˣ))} {value : α → ℤ} {w : ℕ → ℤ} :
    ∀ {as : List α} {tss : List (List (ℕ × ℤˣ))}, as.mapM get = some tss →
      (∀ a ∈ as, ∀ ts, get a = some ts → termsValue w ts = value a) →
        termsValue w tss.flatten = (as.map value).sum
  | [], tss, h, _ => by
    obtain rfl : [] = tss := by simpa using h
    rfl
  | a :: as, tss, h, hget => by
    obtain ⟨ha, has⟩ := List.forall_mem_cons.mp hget
    simp only [List.mapM_cons, Option.bind_eq_bind, Option.bind_eq_some_iff, Option.pure_def,
      Option.some.injEq] at h
    obtain ⟨ts, hts, tss', htss, rfl⟩ := h
    rw [termsValue_flatten, List.map_cons, List.sum_cons, ← termsValue_flatten, ha ts hts,
      mapM_values htss has, List.map_cons, List.sum_cons]

theorem FaceCtx.valueOf_section (h : Face f roots rank rows) {e : ENode} {i : Id}
    {a : FsSectionAttrs} {children : List FsNode} (he : e ∈ ENode.allNodes roots)
    (hn : e.node = .sectionNode i a children) :
    f.valueOf e c = ((e.children.filter fun ch => !ch.node.skipped).map fun ch =>
      ((if ch.pol = e.pol then 1 else -1 : ℤˣ) : ℤ) * f.valueOf ch c).sum := by
  simp only [FaceCtx.valueOf, h.index]
  rw [contrib_section _ h.ranked he hn]
  refine congrArg _ (List.map_congr_left fun ch _ => ?_)
  split_ifs <;> rfl

theorem FaceCtx.valueOf_total (h : Face f roots rank rows) {e : ENode} {i : Id} {a : FsTotalAttrs}
    (he : e ∈ ENode.allNodes roots) (hn : e.node = .totalNode i a) :
    f.valueOf e c = (a.terms.map fun x => (f.index.get? x.nodeId).elim 0 fun t =>
      (x.sign : ℤ) * f.valueOf t c).sum := by
  simp only [FaceCtx.valueOf, h.index]
  exact contrib_total _ h.ranked he hn

theorem FaceCtx.valueOf_leaf (h : Face f roots rank rows) {e : ENode}
    (he : e ∈ ENode.allNodes roots) (hn : e.node.isLeaf = true) :
    f.valueOf e c = (e.lines.map (f.roundedAt c)).sum := by
  simp only [FaceCtx.valueOf, h.index]
  exact contrib_leaf _ h.ranked he hn

/-- The parts of a section, each with its terms, come to the section. -/
theorem Face.section_value (h : Face f roots rank rows) {e : ENode} {i : Id} {a : FsSectionAttrs}
    {children : List FsNode} {sign : ℤˣ} {get : ENode → Option (List (ℕ × ℤˣ))}
    {tss : List (List (ℕ × ℤˣ))} (he : e ∈ ENode.allNodes roots)
    (hn : e.node = .sectionNode i a children)
    (hget : ∀ ch ∈ ENode.allNodes roots, ∀ ts, get ch = some ts → termsValue (shownAt rows c) ts =
      ((if ch.pol = e.pol then sign else -sign : ℤˣ) : ℤ) * f.valueOf ch c)
    (htss : (e.children.filter fun ch => !ch.node.skipped).mapM get = some tss) :
    termsValue (shownAt rows c) tss.flatten = sign * f.valueOf e c := by
  rw [mapM_values htss fun ch hch => hget ch
    (ENode.children_mem_allNodes he (List.mem_of_mem_filter hch)), FaceCtx.valueOf_section h he hn,
    ← List.sum_map_mul_left]
  refine congrArg _ (List.map_congr_left fun ch _ => ?_)
  split_ifs <;> simp

/-- The terms of a total, each with its own, come to the total. -/
theorem Face.total_value (h : Face f roots rank rows) {e : ENode} {i : Id} {a : FsTotalAttrs}
    {sign : ℤˣ} {get : FsTerm → ENode → Option (List (ℕ × ℤˣ))} {tss : List (List (ℕ × ℤˣ))}
    (he : e ∈ ENode.allNodes roots) (hn : e.node = .totalNode i a)
    (hget : ∀ x, ∀ t ∈ ENode.allNodes roots, ∀ ts, get x t = some ts →
      termsValue (shownAt rows c) ts = ((sign * x.sign : ℤˣ) : ℤ) * f.valueOf t c)
    (htss : (a.terms.mapM fun x => (f.index.get? x.nodeId).bind (get x)) = some tss) :
    termsValue (shownAt rows c) tss.flatten = sign * f.valueOf e c := by
  have hterm : ∀ x ∈ a.terms, ∀ ts, ((f.index.get? x.nodeId).bind (get x)) = some ts →
      termsValue (shownAt rows c) ts = (f.index.get? x.nodeId).elim 0 fun t =>
        ((sign * x.sign : ℤˣ) : ℤ) * f.valueOf t c := by
    intro x _ ts hts
    obtain ⟨t, ht, hts⟩ := Option.bind_eq_some_iff.mp hts
    rw [h.index] at ht ⊢
    rw [ht, hget x t ((get?_indexOf h.ranked.ids).mp ht).1 ts hts, Option.elim_some]
  rw [mapM_values htss hterm, FaceCtx.valueOf_total h he hn, ← List.sum_map_mul_left]
  refine congrArg _ (List.map_congr_left fun x _ => ?_)
  cases f.index.get? x.nodeId with
  | none => simp
  | some t => simp [mul_assoc]

/-- The terms of a node's value come to its value. -/
theorem Face.valueTerms_value (h : Face f roots rank rows) (hc : f.Available c) :
    ∀ (depth : ℕ) {e : ENode} {sign : ℤˣ} {ts : List (ℕ × ℤˣ)}, e ∈ ENode.allNodes roots →
      f.valueTerms rows depth e sign = some ts →
        termsValue (shownAt rows c) ts = sign * f.valueOf e c
  | 0, _, _, _, _, hts => by simp [FaceCtx.valueTerms] at hts
  | depth + 1, e, sign, ts, he, hts => by
    have hrow : ∀ {ref : RowRef} {r : ℕ}, ref = .totalOf e.id ∨ ref = .node e.id →
        FaceCtx.rowOf rows ref = some r → some [(r, sign)] = some ts →
        termsValue (shownAt rows c) ts = sign * f.valueOf e c := by
      intro ref r href hr hts
      obtain rfl := Option.some.inj hts
      rw [termsValue_singleton, h.shown_node hc he href hr]
    have hleaf : e.node.isLeaf = true → some (e.lines.filterMap fun l =>
        (FaceCtx.rowOf rows (.line l)).map fun r => (r, sign)) = some ts →
        termsValue (shownAt rows c) ts = sign * f.valueOf e c := by
      intro hn hts
      obtain rfl := Option.some.inj hts
      rw [h.lines_value hc he, FaceCtx.valueOf_leaf h he hn]
    unfold FaceCtx.valueTerms at hts
    simp only [] at hts
    cases hn : e.node with
    | sectionNode i a children =>
      have hid : e.id = i := by rw [ENode.id, hn]; rfl
      rw [hn] at hts
      simp only [] at hts
      cases hr : FaceCtx.rowOf rows (.totalOf i) with
      | some r =>
        rw [hr] at hts
        exact hrow (.inl (by rw [hid])) hr hts
      | none =>
        rw [hr] at hts
        obtain ⟨tss, htss, rfl⟩ := Option.map_eq_some_iff.mp hts
        exact h.section_value he hn (fun ch hch ts => h.valueTerms_value hc depth hch) htss
    | totalNode i a =>
      have hid : e.id = i := by rw [ENode.id, hn]; rfl
      rw [hn] at hts
      simp only [] at hts
      cases hr : FaceCtx.rowOf rows (.node i) with
      | some r =>
        rw [hr] at hts
        exact hrow (.inr (by rw [hid])) hr hts
      | none =>
        rw [hr] at hts
        obtain ⟨tss, htss, rfl⟩ := Option.map_eq_some_iff.mp hts
        exact h.total_value he hn (fun x t ht ts => h.valueTerms_value hc depth ht) htss
    | leadsheetNode i a =>
      have hid : e.id = i := by rw [ENode.id, hn]; rfl
      rw [hn] at hts
      simp only [] at hts
      cases hr : (if a.display = .detail then FaceCtx.rowOf rows (.totalOf i) else none) with
      | some r =>
        rw [hr] at hts
        split_ifs at hr
        exact hrow (.inl (by rw [hid])) hr hts
      | none =>
        rw [hr] at hts
        exact hleaf (by rw [hn]; rfl) hts
    | accountNode i a =>
      rw [hn] at hts
      exact hleaf (by rw [hn]; rfl) hts
    | textNode i | blankNode i | pageBreakNode i =>
      rw [hn] at hts
      obtain rfl := Option.some.inj hts
      have hzero : f.valueOf e c = 0 := by
        simp only [FaceCtx.valueOf, contrib, contribIn, hn]
        split_ifs <;> rfl
      rw [hzero, termsValue_nil, mul_zero]

/-- The terms of a row's formula come to what the row shows. -/
theorem Face.rowTerms_value (h : Face f roots rank rows) (hc : f.Available c) {r : Pending}
    (hr : r ∈ rows) {ts : List (ℕ × ℤˣ)} (hts : f.rowTerms rows r = some ts) :
    termsValue (shownAt rows c) ts = cellAt r.amounts c := by
  have hstands := h.stands r hr
  unfold FaceCtx.rowTerms at hts
  generalize r.ref = ref at hstands hts
  generalize r.amounts = amounts at hstands
  cases hstands with
  | plain => simp at hts
  | line l => simp at hts
  | totalOf e he hkind =>
    have hget : f.index.get? e.id = some e := h.index ▸ (get?_indexOf h.ranked.ids).mpr ⟨he, rfl⟩
    simp only [hget, Option.bind_some] at hts
    rw [FaceCtx.nodeAmounts, cellAt_perColumn hc]
    rcases hkind with hleaf | ⟨i, a, children, hn⟩
    · have hlines := h.lines_value hc he 1
      rw [Units.val_one, one_mul, ← FaceCtx.valueOf_leaf h he hleaf] at hlines
      cases hn : e.node with
      | leadsheetNode i a | accountNode i a =>
        rw [hn] at hts
        exact Option.some.inj hts ▸ hlines
      | _ => simp [hn, FsNode.isLeaf] at hleaf
    · rw [hn] at hts
      obtain ⟨tss, htss, rfl⟩ := Option.map_eq_some_iff.mp hts
      have hsum : _ = ((1 : ℤˣ) : ℤ) * f.valueOf e c := h.section_value he hn
        (fun ch hch ts => h.valueTerms_value hc 51 hch) htss
      rwa [Units.val_one, one_mul] at hsum
  | node e he =>
    have hget : f.index.get? e.id = some e := h.index ▸ (get?_indexOf h.ranked.ids).mpr ⟨he, rfl⟩
    simp only [hget, Option.bind_some] at hts
    rw [FaceCtx.nodeAmounts, cellAt_perColumn hc]
    cases hn : e.node with
    | totalNode i a =>
      rw [hn] at hts
      obtain ⟨tss, htss, rfl⟩ := Option.map_eq_some_iff.mp hts
      have hsum : _ = ((1 : ℤˣ) : ℤ) * f.valueOf e c :=
        h.total_value he hn (fun x t ht ts hts => by
          rw [h.valueTerms_value hc 51 ht hts, one_mul]) htss
      rwa [Units.val_one, one_mul] at hsum
    | _ => simp [hn] at hts

/-- No formula of a face counts a row more than once. -/
def FaceCtx.RowsOnce (f : FaceCtx) (roots : List ENode) : Prop :=
  ∀ r ∈ FaceCtx.visible (f.emitAll roots).1,
    ∀ ts ∈ f.rowTerms (FaceCtx.visible (f.emitAll roots).1) r, MyBooks.RowsOnce ts

theorem rowsOf_shown (rows : List Pending) (c : ℕ) (i : ℕ) :
    (((rows.map fun r => ({ kind := r.kind, values := r.amounts
                            formula := (f.rowTerms rows r).map formulaOf } : FsRow))[i]?).elim 0
      fun r => cellAt r.values c) = shownAt rows c i := by
  rw [List.getElem?_map, shownAt]
  cases rows[i]? <;> rfl

/-- A row with a formula has amounts in the available columns only. -/
theorem RowStands.available {ref : Option RowRef} {amounts : List (Option ℤ)} {v : ℤ}
    (h : RowStands f roots ref amounts) (hne : ref ≠ none) (hv : amounts[c]? = some (some v)) :
    f.Available c := by
  cases h with
  | plain => exact absurd rfl hne
  | line l => exact (perColumn_shows hv).1
  | totalOf e _ _ => exact (perColumn_shows hv).1
  | node e _ => exact (perColumn_shows hv).1

/-- The formulas of a face give what its rows show. -/
theorem rowsOf_recomputes (hindex : f.index = indexOf roots) (hranked : Ranked roots rank)
    (honce : f.RowsOnce roots) : Recomputes (f.rowsOf roots) := by
  have hface := face_visible hindex hranked
  intro r hr formula hformula c v hv
  rw [FaceCtx.rowsOf] at hr ⊢
  obtain ⟨p, hp, rfl⟩ := List.mem_map.mp hr
  obtain ⟨ts, hts, rfl⟩ := Option.map_eq_some_iff.mp hformula
  have href : p.ref ≠ none := fun hnone => by simp [FaceCtx.rowTerms, hnone] at hts
  have hc := (hface.stands p hp).available href hv
  rw [formulaOf_eval (honce p hp ts hts)]
  simp only [rowsOf_shown]
  rw [hface.rowTerms_value hc hp hts, cellAt, hv]
  rfl

end Formulas

end MyBooks
