import MyBooks.FaceAnchors
import MyBooks.FsRows

/-!
# What a node's value is made of

In a layout whose totals do not refer back to themselves (`Acyclic`), a section's value is the sum
of its children's, a total's that of its terms', and a leaf's that of its lines (`contrib_section`,
`contrib_total`, `contrib_leaf`).
-/

namespace MyBooks

namespace FsNode

/-- The nodes that a node's value may be made of. -/
def refs : FsNode → List Id
  | sectionNode _ _ children => (children.filter fun ch => !ch.skipped).map id
  | totalNode _ a => a.terms.map (·.nodeId)
  | _ => []

def kids : FsNode → List FsNode
  | sectionNode _ _ children => children
  | _ => []

def isLeaf : FsNode → Bool
  | leadsheetNode .. | accountNode .. => true
  | _ => false

end FsNode

/-- No total refers back to itself, by its terms or theirs: nodes rank above those they are made
of. -/
def Acyclic (body : List FsNode) : Prop :=
  ∃ rank : Id → ℕ, ∀ n ∈ FsNode.allNodes body, ∀ i ∈ n.refs,
    i ∈ (FsNode.allNodes body).map FsNode.id → rank i < rank n.id

section Tree

namespace ENode

theorem mem_nodes_self (e : ENode) : e ∈ e.nodes := by
  cases e
  simp [nodes]

theorem mem_allNodes {e x : ENode} : ∀ {es : List ENode}, e ∈ es → x ∈ e.nodes → x ∈ allNodes es
  | e' :: es, he, hx => by
    rw [allNodes, List.mem_append]
    rcases List.mem_cons.mp he with rfl | he
    · exact .inl hx
    · exact .inr (mem_allNodes he hx)

theorem subset_allNodes {es : List ENode} : es ⊆ allNodes es := fun e he =>
  mem_allNodes he (mem_nodes_self e)

mutual

theorem children_mem_nodes : ∀ {e x ch : ENode}, x ∈ e.nodes → ch ∈ x.children → ch ∈ e.nodes
  | .mk n t p ls s cs, x, ch, hx, hch => by
    rw [nodes, List.mem_cons] at hx ⊢
    rcases hx with rfl | hx
    · exact .inr (subset_allNodes hch)
    · exact .inr (children_mem_allNodes hx hch)

theorem children_mem_allNodes : ∀ {es : List ENode} {x ch : ENode}, x ∈ allNodes es →
    ch ∈ x.children → ch ∈ allNodes es
  | e :: es, x, ch, hx, hch => by
    rw [allNodes, List.mem_append] at hx ⊢
    exact hx.imp (fun h => children_mem_nodes h hch) fun h => children_mem_allNodes h hch

end

/-- How a node is built: its children are the layout's, and only leaves have lines, each once. -/
structure Built (e : ENode) : Prop where
  children : e.children.map ENode.node = e.node.kids
  lines : e.lines.Nodup
  noLines : e.node.isLeaf = false → e.lines = []

end ENode

variable {ctx : EngineCtx} {coll : Collation} {opt : FaceOptions} {schedulesOn : Bool}
  {nodeAccounts : Entries Id (List Id)}

theorem scheduleLinesFor_nodup (i : Id) (a : FsLeadsheetAttrs) (ids : List Id) (pol : FsPolarity) :
    (scheduleLinesFor ctx coll opt i a ids pol).Nodup := by
  refine List.Nodup.of_map Line.pos ?_
  have : (scheduleLinesFor ctx coll opt i a ids pol).map Line.pos =
      (scheduleAccounts ctx coll opt a ids).zipIdx.map Prod.snd := by
    rw [scheduleLinesFor, List.map_map]
    rfl
  rw [this, List.zipIdx_map_snd]
  exact List.nodup_range'

theorem leadsheetLines_nodup (i : Id) (a : FsLeadsheetAttrs) (pol : FsPolarity) :
    (leadsheetLines ctx coll opt schedulesOn nodeAccounts i a pol).1.Nodup := by
  unfold leadsheetLines
  cases a.display with
  | singleLine => exact List.nodup_singleton _
  | detail => exact scheduleLinesFor_nodup i a _ pol
  | summaryWithSchedule => cases schedulesOn <;> exact List.nodup_singleton _

mutual

theorem build_node : ∀ (n : FsNode) (top : Bool) (parent : Option FsPolarity),
    ((build ctx coll opt schedulesOn nodeAccounts n top parent).nodes).map ENode.node = n.nodes
  | .sectionNode i a children, top, parent => by
    rw [build, ENode.nodes, FsNode.nodes, List.map_cons, buildAll_node]
    rfl
  | .leadsheetNode .., _, _ | .accountNode .., _, _ | .totalNode .., _, _ | .textNode _, _, _
  | .blankNode _, _, _ | .pageBreakNode _, _, _ => by
    rfl

theorem buildAll_node : ∀ (ns : List FsNode) (pol : FsPolarity),
    (ENode.allNodes (buildAll ctx coll opt schedulesOn nodeAccounts ns pol)).map ENode.node =
      FsNode.allNodes ns
  | [], _ => rfl
  | n :: ns, pol => by
    rw [buildAll, ENode.allNodes, FsNode.allNodes, List.map_append, build_node, buildAll_node]

end

theorem build_root (n : FsNode) (top : Bool) (parent : Option FsPolarity) :
    (build ctx coll opt schedulesOn nodeAccounts n top parent).node = n := by
  cases n <;> rfl

theorem buildAll_roots (pol : FsPolarity) : ∀ ns : List FsNode,
    (buildAll ctx coll opt schedulesOn nodeAccounts ns pol).map ENode.node = ns
  | [] => rfl
  | n :: ns => by rw [buildAll, List.map_cons, build_root, buildAll_roots pol ns]

mutual

theorem build_built : ∀ (n : FsNode) (top : Bool) (parent : Option FsPolarity),
    ∀ e ∈ (build ctx coll opt schedulesOn nodeAccounts n top parent).nodes, e.Built
  | .sectionNode i a children, top, parent => by
    intro e he
    rw [build, ENode.nodes, List.mem_cons] at he
    rcases he with rfl | he
    · exact ⟨buildAll_roots _ children, List.nodup_nil, fun _ => rfl⟩
    · exact buildAll_built children _ e he
  | .leadsheetNode i a, top, parent => by
    intro e he
    rw [build, ENode.nodes, ENode.allNodes, List.mem_singleton] at he
    subst he
    exact ⟨rfl, leadsheetLines_nodup i a _, fun h => by cases h⟩
  | .accountNode i a, top, parent => by
    intro e he
    rw [build, ENode.nodes, ENode.allNodes, List.mem_singleton] at he
    subst he
    exact ⟨rfl, List.nodup_singleton _, fun h => by cases h⟩
  | .totalNode .., _, _ | .textNode _, _, _ | .blankNode _, _, _ | .pageBreakNode _, _, _ => by
    intro e he
    rw [build, ENode.nodes, ENode.allNodes, List.mem_singleton] at he
    · subst he
      exact ⟨rfl, List.nodup_nil, fun _ => rfl⟩
    all_goals simp

theorem buildAll_built : ∀ (ns : List FsNode) (pol : FsPolarity),
    ∀ e ∈ ENode.allNodes (buildAll ctx coll opt schedulesOn nodeAccounts ns pol), e.Built
  | [], _ => fun e he => by cases he
  | n :: ns, pol => by
    intro e he
    rw [buildAll, ENode.allNodes, List.mem_append] at he
    rcases he with he | he
    · exact build_built n _ _ e he
    · exact buildAll_built ns pol e he

end

theorem buildRoots_nodes (body : List FsNode) :
    (ENode.allNodes (buildRoots ctx coll opt schedulesOn nodeAccounts body)).map ENode.node =
      FsNode.allNodes body := by
  unfold buildRoots
  induction body with
  | nil => rfl
  | cons n ns ih =>
    rw [List.map_cons, ENode.allNodes, FsNode.allNodes, List.map_append, build_node, ih]

theorem buildRoots_built (body : List FsNode) :
    ∀ e ∈ ENode.allNodes (buildRoots ctx coll opt schedulesOn nodeAccounts body), e.Built := by
  unfold buildRoots
  induction body with
  | nil => exact fun e he => by cases he
  | cons n ns ih =>
    intro e he
    rw [List.map_cons, ENode.allNodes, List.mem_append] at he
    rcases he with he | he
    · exact build_built n _ _ e he
    · exact ih e he

end Tree

/-! ## Values -/

/-- Nodes with ids of their own, each above those it is made of. -/
structure Ranked (roots : List ENode) (rank : Id → ℕ) : Prop where
  ids : ((ENode.allNodes roots).map ENode.id).Nodup
  built : ∀ e ∈ ENode.allNodes roots, e.Built
  below : ∀ e ∈ ENode.allNodes roots, ∀ i ∈ e.node.refs,
    i ∈ (ENode.allNodes roots).map ENode.id → rank i < rank e.id

theorem ranked_buildRoots {ctx : EngineCtx} {coll : Collation} {opt : FaceOptions}
    {schedulesOn : Bool} {nodeAccounts : Entries Id (List Id)} {body : List FsNode}
    (hids : ((FsNode.allNodes body).map FsNode.id).Nodup) (h : Acyclic body) :
    ∃ rank, Ranked (buildRoots ctx coll opt schedulesOn nodeAccounts body) rank := by
  obtain ⟨rank, hrank⟩ := h
  have hnodes := @buildRoots_nodes ctx coll opt schedulesOn nodeAccounts body
  have hmap : (ENode.allNodes (buildRoots ctx coll opt schedulesOn nodeAccounts body)).map
      ENode.id = (FsNode.allNodes body).map FsNode.id := by
    rw [← hnodes, List.map_map]
    rfl
  refine ⟨rank, hmap ▸ hids, buildRoots_built body, fun e he i hi hmem => ?_⟩
  exact hrank e.node (hnodes ▸ List.mem_map_of_mem he) i hi (hmap ▸ hmem)

section Index

variable {roots : List ENode}

theorem indexOf_eq (h : ((ENode.allNodes roots).map ENode.id).Nodup) :
    indexOf roots = (ENode.allNodes roots).map fun e => (e.id, e) := by
  rw [indexOf, Entries.foldl_set_of_nodup _ (fun e => e)]
  · rfl
  · simpa using h

theorem get?_indexOf (h : ((ENode.allNodes roots).map ENode.id).Nodup) {i : Id} {e : ENode} :
    (indexOf roots).get? i = some e ↔ e ∈ ENode.allNodes roots ∧ e.id = i := by
  rw [Entries.get?_eq_some (indexOf_entries roots).1, indexOf_eq h, List.mem_map]
  constructor
  · rintro ⟨x, hx, heq⟩
    obtain ⟨hid, rfl⟩ := Prod.mk.inj heq
    exact ⟨hx, hid⟩
  · rintro ⟨he, rfl⟩
    exact ⟨e, he, rfl⟩

theorem weigh_addAll (w : Line → ℤ) (f : ℤ) : ∀ m out : Entries Line ℤ,
    (addAll out m f).weigh w = out.weigh w + f * m.weigh w
  | [], out => by simp [addAll, Entries.weigh]
  | e :: m, out => by
    have ih := weigh_addAll w f m (out.add e.1 (e.2 * f))
    rw [Entries.weigh_add] at ih
    rw [addAll, List.foldl_cons, ← addAll, ih]
    simp only [Entries.weigh, List.map_cons, List.sum_cons]
    ring

/-- The contributions of several nodes added up. -/
theorem weigh_foldl_addAll {α : Type*} (w : Line → ℤ) {step : Entries Line ℤ → α → Entries Line ℤ}
    {value : α → ℤ} (hstep : ∀ out a, (step out a).weigh w = out.weigh w + value a) :
    ∀ (as : List α) (out : Entries Line ℤ),
      (as.foldl step out).weigh w = out.weigh w + (as.map value).sum
  | [], out => by simp
  | a :: as, out => by
    rw [List.foldl_cons, weigh_foldl_addAll w hstep as, hstep, List.map_cons, List.sum_cons,
      add_assoc]

end Index

section Values

variable {roots : List ENode} {rank : Id → ℕ}

/-- Nodes being visited on the way to `e`, and rounds enough for those that are left. -/
structure OnTheWay (roots : List ENode) (rank : Id → ℕ) (fuel : ℕ) (visiting : List Id)
    (e : ENode) : Prop where
  mem : e ∈ ENode.allNodes roots
  nodup : visiting.Nodup
  nodes : ∀ v ∈ visiting, v ∈ (ENode.allNodes roots).map ENode.id
  above : ∀ v ∈ visiting, rank e.id < rank v
  rounds : (ENode.allNodes roots).length < fuel + visiting.length

theorem OnTheWay.notMem {fuel : ℕ} {visiting : List Id} {e : ENode}
    (h : OnTheWay roots rank fuel visiting e) : e.id ∉ visiting :=
  fun hmem => lt_irrefl _ (h.above _ hmem)

/-- There is a round for the node itself. -/
theorem OnTheWay.succ {fuel : ℕ} {visiting : List Id} {e : ENode}
    (h : OnTheWay roots rank fuel visiting e) : ∃ k, fuel = k + 1 := by
  have hsub : (e.id :: visiting).Subperm ((ENode.allNodes roots).map ENode.id) :=
    List.subperm_of_subset (List.nodup_cons.mpr ⟨h.notMem, h.nodup⟩)
      (List.cons_subset.mpr ⟨List.mem_map_of_mem h.mem, h.nodes⟩)
  have hle := hsub.length_le
  rw [List.length_cons, List.length_map] at hle
  have := h.rounds
  exact ⟨fuel - 1, by omega⟩

theorem OnTheWay.next {k : ℕ} {visiting : List Id} {e t : ENode}
    (h : OnTheWay roots rank (k + 1) visiting e) (ht : t ∈ ENode.allNodes roots)
    (hrank : rank t.id < rank e.id) : OnTheWay roots rank k (e.id :: visiting) t where
  mem := ht
  nodup := List.nodup_cons.mpr ⟨h.notMem, h.nodup⟩
  nodes := List.forall_mem_cons.mpr ⟨List.mem_map_of_mem h.mem, h.nodes⟩
  above := List.forall_mem_cons.mpr ⟨hrank, fun v hv => hrank.trans (h.above v hv)⟩
  rounds := by
    have := h.rounds
    rw [List.length_cons]
    omega

theorem Ranked.child (h : Ranked roots rank) {e ch : ENode} (he : e ∈ ENode.allNodes roots)
    (hch : ch ∈ e.children) (hs : ch.node.skipped = false) :
    ch ∈ ENode.allNodes roots ∧ rank ch.id < rank e.id := by
  have hmem := ENode.children_mem_allNodes he hch
  refine ⟨hmem, h.below e he _ ?_ (List.mem_map_of_mem hmem)⟩
  have hkid : ch.node ∈ e.node.kids := (h.built e he).children ▸ List.mem_map_of_mem hch
  cases hn : e.node with
  | sectionNode i a children =>
    rw [hn] at hkid
    exact List.mem_map_of_mem (List.mem_filter.mpr ⟨hkid, by simp [hs]⟩)
  | _ => simp [hn, FsNode.kids] at hkid

theorem Ranked.term (h : Ranked roots rank) {e t : ENode} {i : Id} {a : FsTotalAttrs} {x : FsTerm}
    (he : e ∈ ENode.allNodes roots) (hn : e.node = .totalNode i a) (hx : x ∈ a.terms)
    (ht : (indexOf roots).get? x.nodeId = some t) :
    t ∈ ENode.allNodes roots ∧ rank t.id < rank e.id := by
  obtain ⟨hmem, hid⟩ := (get?_indexOf h.ids).mp ht
  refine ⟨hmem, h.below e he _ ?_ (List.mem_map_of_mem hmem)⟩
  rw [hn, FsNode.refs, hid]
  exact List.mem_map_of_mem hx

/-- A node contributes the same on every way to it. -/
theorem contribIn_eq (h : Ranked roots rank) : ∀ (n : ℕ) {fuel fuel₂ : ℕ}
    {visiting visiting₂ : List Id} {e : ENode}, rank e.id = n → OnTheWay roots rank fuel visiting e →
      OnTheWay roots rank fuel₂ visiting₂ e →
        contribIn (indexOf roots) fuel visiting e = contribIn (indexOf roots) fuel₂ visiting₂ e := by
  intro n
  induction n using Nat.strong_induction_on with
  | _ n ih =>
    intro fuel fuel₂ visiting visiting₂ e hn hway hway₂
    obtain ⟨k, rfl⟩ := hway.succ
    obtain ⟨k₂, rfl⟩ := hway₂.succ
    have hrec : ∀ t ∈ ENode.allNodes roots, rank t.id < rank e.id →
        contribIn (indexOf roots) k (e.id :: visiting) t =
          contribIn (indexOf roots) k₂ (e.id :: visiting₂) t := fun t ht hlt =>
      ih (rank t.id) (hn ▸ hlt) rfl (hway.next ht hlt) (hway₂.next ht hlt)
    simp only [contribIn]
    rw [if_neg hway.notMem, if_neg hway₂.notMem]
    cases hnode : e.node with
    | sectionNode i a children =>
      refine List.foldl_ext _ _ _ fun out ch hch => ?_
      cases hs : ch.node.skipped with
      | true => rfl
      | false =>
        obtain ⟨hmem, hlt⟩ := h.child hway.mem hch hs
        simp only [Bool.false_eq_true, if_false]
        rw [hrec ch hmem hlt]
    | totalNode i a =>
      refine List.foldl_ext _ _ _ fun out x hx => ?_
      cases ht : (indexOf roots).get? x.nodeId with
      | none => rfl
      | some t =>
        obtain ⟨hmem, hlt⟩ := h.term hway.mem hnode hx ht
        simp only []
        rw [hrec t hmem hlt]
    | _ => rfl

theorem onTheWay_root {e : ENode} (h : Ranked roots rank) (he : e ∈ ENode.allNodes roots) :
    OnTheWay roots rank ((indexOf roots).length + 1) [] e where
  mem := he
  nodup := List.nodup_nil
  nodes := by simp
  above := by simp
  rounds := by
    rw [indexOf_eq h.ids, List.length_map, List.length_nil]
    omega

variable (w : Line → ℤ) {e : ENode} {i : Id}

theorem contrib_section (h : Ranked roots rank) (he : e ∈ ENode.allNodes roots)
    {a : FsSectionAttrs} {children : List FsNode} (hn : e.node = .sectionNode i a children) :
    (contrib (indexOf roots) e).weigh w =
      ((e.children.filter fun ch => !ch.node.skipped).map fun ch =>
        (if ch.pol = e.pol then 1 else -1) * (contrib (indexOf roots) ch).weigh w).sum := by
  have hway := onTheWay_root h he
  have hfold : contrib (indexOf roots) e = (e.children.filter fun ch => !ch.node.skipped).foldl
      (fun out ch => addAll out (contrib (indexOf roots) ch) (if ch.pol = e.pol then 1 else -1))
      [] := by
    rw [contrib, contribIn, if_neg hway.notMem, hn, List.foldl_filter]
    refine List.foldl_ext _ _ _ fun out ch hch => ?_
    cases hs : ch.node.skipped with
    | true => rfl
    | false =>
      obtain ⟨hmem, hlt⟩ := h.child he hch hs
      simp only [Bool.false_eq_true, if_false, Bool.not_false, if_true]
      rw [contribIn_eq h _ rfl (hway.next hmem hlt) (onTheWay_root h hmem), ← contrib]
  rw [hfold]
  refine (weigh_foldl_addAll w (fun out ch => ?_) _ []).trans (zero_add _)
  exact weigh_addAll w _ _ out

theorem contrib_total (h : Ranked roots rank) (he : e ∈ ENode.allNodes roots) {a : FsTotalAttrs}
    (hn : e.node = .totalNode i a) :
    (contrib (indexOf roots) e).weigh w =
      (a.terms.map fun x => ((indexOf roots).get? x.nodeId).elim 0 fun t =>
        (x.sign : ℤ) * (contrib (indexOf roots) t).weigh w).sum := by
  have hway := onTheWay_root h he
  have hfold : contrib (indexOf roots) e = a.terms.foldl (fun out x =>
      ((indexOf roots).get? x.nodeId).elim out fun t =>
        addAll out (contrib (indexOf roots) t) x.sign) [] := by
    rw [contrib, contribIn, if_neg hway.notMem, hn]
    refine List.foldl_ext _ _ _ fun out x hx => ?_
    cases ht : (indexOf roots).get? x.nodeId with
    | none => rfl
    | some t =>
      obtain ⟨hmem, hlt⟩ := h.term he hn hx ht
      simp only [Option.elim_some]
      rw [contribIn_eq h _ rfl (hway.next hmem hlt) (onTheWay_root h hmem), ← contrib]
  rw [hfold]
  refine (weigh_foldl_addAll w (fun out x => ?_) _ []).trans (zero_add _)
  cases (indexOf roots).get? x.nodeId with
  | none => simp
  | some t => exact weigh_addAll w _ _ out

theorem contrib_leaf (h : Ranked roots rank) (he : e ∈ ENode.allNodes roots)
    (hn : e.node.isLeaf = true) :
    (contrib (indexOf roots) e).weigh w = (e.lines.map w).sum := by
  have hfold : contrib (indexOf roots) e = e.lines.foldl
      (fun (out : Entries Line ℤ) l => out.set l 1) [] := by
    rw [contrib, contribIn, if_neg (onTheWay_root h he).notMem]
    cases hnode : e.node with
    | leadsheetNode i a => rfl
    | accountNode i a => rfl
    | _ => simp [hnode, FsNode.isLeaf] at hn
  rw [hfold, Entries.weigh_foldl_one]
  · exact zero_add _
  · exact (h.built e he).lines

end Values

end MyBooks
