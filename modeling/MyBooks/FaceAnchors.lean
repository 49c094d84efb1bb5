import MyBooks.FsFace
import MyBooks.Rounding

/-!
# Anchors and the differences placed on their lines

A plug moves an anchor's value by as much as the line counts in it (`weigh_plug`). Once an anchor is
settled its lines are locked, so no later plug moves its value (`settleAnchors_value`). An anchor is
at its target, then, unless its line counts several times.
-/

namespace MyBooks

section Settle

variable {ctx : EngineCtx} {plugs : Entries Id Id} {opt : FaceOptions} {contribs : Contributions}
  {c : ℕ} {s : ColumnRounding} {a : ENode} {line : Line} {sign : ℤ}

theorem weigh_plug (f : Line → ℤ) (d : ℤ) : ∀ {m : Entries Line ℤ}, m.keys.Nodup →
    (line, sign) ∈ m →
    m.weigh (fun l => if l = line then f l + d else f l) = m.weigh f + sign * d
  | (l, n) :: m, h, hmem => by
    obtain ⟨hl, hm⟩ := List.nodup_cons.mp h
    rw [Entries.weigh, Entries.weigh, List.map_cons, List.map_cons, List.sum_cons, List.sum_cons]
    rcases List.mem_cons.mp hmem with heq | hmem
    · obtain ⟨rfl, rfl⟩ := Prod.mk.inj heq
      have hrest : ∀ e ∈ m, e.2 * (if e.1 = line then f e.1 + d else f e.1) = e.2 * f e.1 := by
        intro e he
        have hne : e.1 ≠ line := fun heq => hl (List.mem_map.mpr ⟨e, he, heq⟩)
        rw [if_neg hne]
      simp only [if_true]
      rw [List.map_congr_left hrest]
      ring
    · have hne : l ≠ line := fun heq => hl (List.mem_map.mpr ⟨_, hmem, heq.symm⟩)
      have ih := weigh_plug f d hm hmem
      rw [Entries.weigh, Entries.weigh] at ih
      simp only [if_neg hne]
      rw [ih]
      ring

/-- The line that takes a plug is one of the anchor's, and not locked. -/
theorem plugLine_mem (h : plugLine ctx plugs contribs c a s.locked = some (line, sign)) :
    (line, sign) ∈ contribs.of a ∧ sign ≠ 0 ∧ s.locked line = false := by
  have heligible : ∀ pool : List (Line × ℤ), pool ⊆ ((contribs.of a).filter fun e =>
      e.2 ≠ 0 ∧ !e.1.fixed ∧ !s.locked e.1) →
      ((pool.insertionSort fun x y => |cellAt y.1.exact c| ≤ |cellAt x.1.exact c|).head?) =
        some (line, sign) →
      (line, sign) ∈ contribs.of a ∧ sign ≠ 0 ∧ s.locked line = false := by
    intro pool hpool hhead
    have hmem := hpool ((List.mem_insertionSort _).mp (List.mem_of_head? hhead))
    obtain ⟨hmem, hok⟩ := List.mem_filter.mp hmem
    have hok := of_decide_eq_true hok
    exact ⟨hmem, hok.1, by simpa using hok.2.2⟩
  unfold plugLine at h
  refine heligible _ ?_ h
  split_ifs
  · cases plugs.get? a.id with
    | none => exact List.nil_subset _
    | some p => exact List.filter_sublist.subset
  · exact List.filter_sublist.subset
  · exact List.Subset.refl _

variable (ctx plugs opt contribs c a)

/-- A line that is locked stays as it is. -/
theorem settleAnchor_locked (h : s.locked line = true) :
    (settleAnchor ctx plugs opt contribs c s a).plug line = s.plug line ∧
      (settleAnchor ctx plugs opt contribs c s a).locked line = true := by
  unfold settleAnchor
  simp only
  split_ifs
  · exact ⟨rfl, by simp [h]⟩
  · cases hline : plugLine ctx plugs contribs c a s.locked with
    | none => exact ⟨rfl, by simp [h]⟩
    | some e =>
      obtain ⟨-, -, hfree⟩ := plugLine_mem hline
      have hne : line ≠ e.1 := by
        rintro rfl
        rw [hfree] at h
        cases h
      exact ⟨if_neg hne, by simp [h]⟩

theorem settleAnchor_locks (s : ColumnRounding) : ∀ l ∈ (contribs.of a).keys,
    (settleAnchor ctx plugs opt contribs c s a).locked l = true := by
  intro l hl
  unfold settleAnchor
  simp [hl]

theorem settleAnchors_locked : ∀ (as : List ENode) {s : ColumnRounding}, s.locked line = true →
    (as.foldl (settleAnchor ctx plugs opt contribs c) s).plug line = s.plug line
  | [], _, _ => rfl
  | a :: as, s, h => by
    obtain ⟨hplug, hlocked⟩ := settleAnchor_locked ctx plugs opt contribs c a h
    rw [List.foldl_cons, settleAnchors_locked as hlocked, hplug]

/-- The anchors that follow leave a settled anchor's value. -/
theorem settleAnchors_value (s : ColumnRounding) (as : List ENode) :
    ((a :: as).foldl (settleAnchor ctx plugs opt contribs c) s).valueOf c (contribs.of a) =
      (settleAnchor ctx plugs opt contribs c s a).valueOf c (contribs.of a) := by
  refine congrArg List.sum (List.map_congr_left fun e he => ?_)
  have hkey : e.1 ∈ (contribs.of a).keys := List.mem_map_of_mem he
  have hkeep := settleAnchors_locked ctx plugs opt contribs c as
    (settleAnchor_locks ctx plugs opt contribs c a s e.1 hkey)
  exact congrArg (fun plug => e.2 * (cellAt e.1.rounded c + plug)) hkeep

/-- What an anchor's value lacks of its target. -/
def anchorDiff (s : ColumnRounding) (a : ENode) : ℤ :=
  anchorTarget ctx opt contribs c a - s.valueOf c (contribs.of a)

/-- The line that takes an anchor's difference, if it has one, counts once in it. -/
def CountsOnce (s : ColumnRounding) (a : ENode) : Prop :=
  anchorDiff ctx opt contribs c s a ≠ 0 →
    ∀ e ∈ plugLine ctx plugs contribs c a s.locked, |e.2| = 1

theorem settleAnchor_unplaced (s : ColumnRounding) :
    (settleAnchor ctx plugs opt contribs c s a).unplaced =
      if anchorDiff ctx opt contribs c s a ≠ 0 ∧ plugLine ctx plugs contribs c a s.locked = none
      then s.unplaced ++ [(a.id, anchorDiff ctx opt contribs c s a)] else s.unplaced := by
  unfold settleAnchor anchorDiff
  simp only
  split_ifs with hdiff h h
  · exact absurd hdiff h.1
  · rfl
  · rw [h.2]
  · cases hline : plugLine ctx plugs contribs c a s.locked with
    | none => exact absurd ⟨hdiff, hline⟩ h
    | some e => rfl

theorem settleAnchor_plug {s : ColumnRounding} (hdiff : anchorDiff ctx opt contribs c s a ≠ 0)
    (hline : plugLine ctx plugs contribs c a s.locked = some (line, sign)) (l : Line) :
    (settleAnchor ctx plugs opt contribs c s a).plug l = s.plug l +
      if l = line then anchorDiff ctx opt contribs c s a * sign.sign else 0 := by
  unfold settleAnchor
  unfold anchorDiff at hdiff ⊢
  simp only [hdiff, if_false, hline]
  split_ifs
  · rfl
  · exact (add_zero _).symm

/-- A plug moves the value by the difference, as often as its line counts. -/
theorem settleAnchor_value {s : ColumnRounding} (hdiff : anchorDiff ctx opt contribs c s a ≠ 0)
    (hline : plugLine ctx plugs contribs c a s.locked = some (line, sign)) :
    (settleAnchor ctx plugs opt contribs c s a).valueOf c (contribs.of a) =
      s.valueOf c (contribs.of a) + |sign| * anchorDiff ctx opt contribs c s a := by
  obtain ⟨hmem, -, -⟩ := plugLine_mem hline
  have hplug := weigh_plug (fun l => cellAt l.rounded c + s.plug l)
    (anchorDiff ctx opt contribs c s a * sign.sign) (contribs.nodup a) hmem
  have hsize : sign * (anchorDiff ctx opt contribs c s a * sign.sign) =
      |sign| * anchorDiff ctx opt contribs c s a := by
    rw [Int.abs_eq_natAbs, ← Int.mul_sign_self]
    ring
  rw [hsize] at hplug
  refine Eq.trans (congrArg List.sum (List.map_congr_left fun e _ => ?_)) hplug
  simp only [settleAnchor_plug ctx plugs opt contribs c a hdiff hline e.1]
  split_ifs
  · rw [add_assoc]
  · rw [add_zero]

/-- A plug makes an anchor's value its target where its line counts once in it, and only there. -/
theorem settleAnchor_hit (s : ColumnRounding) :
    (settleAnchor ctx plugs opt contribs c s a).valueOf c (contribs.of a) =
        anchorTarget ctx opt contribs c a ∨
      (anchorDiff ctx opt contribs c s a ≠ 0 ∧
        plugLine ctx plugs contribs c a s.locked = none) ↔
    CountsOnce ctx plugs opt contribs c s a := by
  unfold CountsOnce
  by_cases hdiff : anchorDiff ctx opt contribs c s a = 0
  · have hsame : (settleAnchor ctx plugs opt contribs c s a).valueOf c (contribs.of a) =
        s.valueOf c (contribs.of a) := by
      unfold settleAnchor ColumnRounding.valueOf
      unfold anchorDiff ColumnRounding.valueOf at hdiff
      simp only [hdiff, if_true]
    rw [hsame]
    exact iff_of_true (.inl (sub_eq_zero.mp hdiff).symm) fun hne => absurd hdiff hne
  · cases hline : plugLine ctx plugs contribs c a s.locked with
    | none => exact iff_of_true (.inr ⟨hdiff, rfl⟩) fun _ e he => by cases he
    | some e =>
      obtain ⟨line, sign⟩ := e
      have htarget : anchorTarget ctx opt contribs c a =
          s.valueOf c (contribs.of a) + 1 * anchorDiff ctx opt contribs c s a := by
        rw [anchorDiff]
        ring
      rw [settleAnchor_value ctx plugs opt contribs c a hdiff hline, htarget]
      constructor
      · rintro (hvalue | ⟨-, hnone⟩) - e he
        · obtain rfl := Option.mem_some.mp he
          exact mul_right_cancel₀ hdiff (add_left_cancel hvalue)
        · cases hnone
      · intro honce
        have hone : |sign| = 1 := honce hdiff _ rfl
        exact .inl (by rw [hone])

end Settle

section Target

theorem floor_add_tiny {n u : ℤ} (hu : 0 < u) (hsmall : 2 * u < 10 ^ 9) :
    ⌊(n / u : ℚ) + 1 / 2 + 1 / 10 ^ 9⌋ = ⌊(n / u : ℚ) + 1 / 2⌋ := by
  have hu' : (0 : ℚ) < u := by exact_mod_cast hu
  rw [Int.floor_eq_iff]
  constructor
  · exact (Int.floor_le _).trans (by norm_num)
  · -- a quotient below the next integer is below it by a half of the unit's part
    have hlt := Int.lt_floor_add_one ((n / u : ℚ) + 1 / 2)
    have hint : 2 * n + u < 2 * u * (⌊(n / u : ℚ) + 1 / 2⌋ + 1) := by
      have hmul := mul_lt_mul_of_pos_left hlt (mul_pos two_pos hu')
      have hleft : 2 * (u : ℚ) * ((n / u : ℚ) + 1 / 2) = 2 * n + u := by field_simp
      rw [hleft] at hmul
      exact_mod_cast hmul
    have hstep : (2 * n + u + 1 : ℚ) ≤ 2 * u * (⌊(n / u : ℚ) + 1 / 2⌋ + 1) := by
      exact_mod_cast hint
    have hsmall' : (2 * u : ℚ) < 10 ^ 9 := by exact_mod_cast hsmall
    have htiny : (1 / 10 ^ 9 : ℚ) < 1 / (2 * u) :=
      one_div_lt_one_div_of_lt (mul_pos two_pos hu') hsmall'
    have hsplit : (n / u : ℚ) + 1 / 2 + 1 / (2 * u) = (2 * n + u + 1) / (2 * u) := by field_simp
    calc (n / u : ℚ) + 1 / 2 + 1 / 10 ^ 9 < (n / u : ℚ) + 1 / 2 + 1 / (2 * u) := by linarith
      _ ≤ ⌊(n / u : ℚ) + 1 / 2⌋ + 1 := by
        rw [hsplit, div_le_iff₀' (mul_pos two_pos hu')]
        exact hstep

/-- The tiny excess moves no amount to the next unit. -/
theorem roundTo_eq (v : ℤ) (wholeDollars : Bool) : roundTo v (presUnit wholeDollars) =
    roundHalfUp (v / presUnit wholeDollars : ℚ) * presUnit wholeDollars := by
  have hu : 0 < presUnit wholeDollars ∧ 2 * presUnit wholeDollars < 10 ^ 9 := by
    cases wholeDollars <;> decide
  have hu' : (0 : ℚ) < presUnit wholeDollars := by exact_mod_cast hu.1
  have hfloor := floor_add_tiny (n := |v|) hu.1 hu.2
  simp only [roundTo, hfloor, roundHalfUp]
  by_cases hv : v < 0
  · have hneg : (v / presUnit wholeDollars : ℚ) < 0 :=
      div_neg_of_neg_of_pos (by exact_mod_cast hv) hu'
    rw [if_pos hv, if_neg (not_le.mpr hneg), abs_of_neg hv, neg_mul, Int.cast_neg, neg_div]
  · have hnn : 0 ≤ (v / presUnit wholeDollars : ℚ) :=
      div_nonneg (by exact_mod_cast not_lt.mp hv) hu'.le
    rw [if_neg hv, if_pos hnn, abs_of_nonneg (not_lt.mp hv)]

variable (ctx : EngineCtx) (opt : FaceOptions) (contribs : Contributions) (c : ℕ)

/-- Where an anchor is to be: at the net income's target where one is given, else at its exact value
rounded to the unit, half away from zero. -/
def anchorAim (a : ENode) : ℤ :=
  ((opt.netIncomeTargets[c]?).join.filter fun _ => a.node.role = some .netIncome).getD
    (roundHalfUp ((contribs.of a).weigh (fun l => cellAt l.exact c) / ctx.unit : ℚ) * ctx.unit)

theorem anchorTarget_eq (a : ENode) :
    anchorTarget ctx opt contribs c a = anchorAim ctx opt contribs c a := by
  have hround := roundTo_eq ((contribs.of a).weigh fun l => cellAt l.exact c) ctx.style.wholeDollars
  change roundTo _ ctx.unit = roundHalfUp (_ / ctx.unit : ℚ) * ctx.unit at hround
  unfold anchorTarget anchorAim
  rw [hround]
  refine congrArg (Option.getD · _) ?_
  by_cases hrole : a.node.role = some .netIncome
  · simp only [hrole, if_true, decide_true]
    rcases opt.netIncomeTargets[c]? with _ | _ | _ <;> rfl
  · simp only [hrole, if_false, decide_false]
    rcases opt.netIncomeTargets[c]? with _ | _ | _ <;> rfl

end Target

section Column

variable (ctx : EngineCtx) (plugs : Entries Id Id) (opt : FaceOptions) (contribs : Contributions)
  (c : ℕ) (roots : List ENode)

/-- What a check names of the anchors in a column. -/
theorem settleAnchors_unplaced (i : Id) : ∀ (as : List ENode) (s : ColumnRounding),
    i ∉ as.map ENode.id →
    (i ∈ (as.foldl (settleAnchor ctx plugs opt contribs c) s).unplaced.map Prod.fst ↔
      i ∈ s.unplaced.map Prod.fst)
  | [], _, _ => Iff.rfl
  | a :: as, s, h => by
    obtain ⟨ha, has⟩ := not_or.mp (List.mem_cons.not.mp h)
    rw [List.foldl_cons, settleAnchors_unplaced i as _ has, settleAnchor_unplaced]
    split_ifs
    · rw [List.map_append, List.mem_append]
      exact or_iff_left fun hmem => ha (List.mem_singleton.mp hmem)
    · rfl

theorem indexOf_entries : (indexOf roots).keys.Nodup ∧ ∀ e ∈ indexOf roots, e.1 = e.2.id := by
  have h : ∀ (es : List ENode) (m : Index), m.keys.Nodup → (∀ e ∈ m, e.1 = e.2.id) →
      (es.foldl (fun m e => m.set e.id e) m).keys.Nodup ∧
        ∀ e ∈ es.foldl (fun m e => m.set e.id e) m, e.1 = e.2.id := by
    intro es
    induction es with
    | nil => exact fun m hnodup hid => ⟨hnodup, hid⟩
    | cons e es ih =>
      intro m hnodup hid
      refine ih _ (Entries.nodup_keys_set hnodup) fun e' he' => ?_
      have hget := (Entries.get?_eq_some (Entries.nodup_keys_set hnodup)).mpr he'
      rw [Entries.get?_set] at hget
      split_ifs at hget with hk
      · rw [← hk, ← Option.some.inj hget]
      · exact hid _ (Entries.mem_of_get? hget)
  exact h _ _ List.nodup_nil (by simp)

theorem anchors_nodup : ((anchors contribs (indexOf roots)).map ENode.id).Nodup := by
  obtain ⟨hnodup, hid⟩ := indexOf_entries roots
  have hids : ((indexOf roots).map Prod.snd).map ENode.id = (indexOf roots).keys := by
    rw [List.map_map]
    exact List.map_congr_left fun e he => (hid e he).symm
  refine ((List.perm_insertionSort _ _).map ENode.id).nodup_iff.mpr ?_
  exact (hids ▸ hnodup).sublist (List.filter_sublist.map ENode.id)

/-- Every anchor's value is its target or a check names the anchor, and no anchor that follows moves
it. -/
structure AnchorsHit : Prop where
  hit : ∀ a ∈ anchors contribs (indexOf roots),
    (settleColumn ctx plugs opt contribs c (indexOf roots)).valueOf c (contribs.of a) =
        anchorAim ctx opt contribs c a ∨
      a.id ∈ (settleColumn ctx plugs opt contribs c (indexOf roots)).unplaced.map Prod.fst
  undisturbed : ∀ pre a post, anchors contribs (indexOf roots) = pre ++ a :: post →
    (settleColumn ctx plugs opt contribs c (indexOf roots)).valueOf c (contribs.of a) =
      ((pre ++ [a]).foldl (settleAnchor ctx plugs opt contribs c) {}).valueOf c (contribs.of a)

variable {pre post : List ENode} {a : ENode}

theorem settleColumn_split (h : anchors contribs (indexOf roots) = pre ++ a :: post) :
    settleColumn ctx plugs opt contribs c (indexOf roots) =
      (a :: post).foldl (settleAnchor ctx plugs opt contribs c)
        (pre.foldl (settleAnchor ctx plugs opt contribs c) {}) := by
  rw [settleColumn, h, List.foldl_append]

/-- At the end an anchor is at its target, or named, just where it was at its turn. -/
theorem settleColumn_hit (h : anchors contribs (indexOf roots) = pre ++ a :: post) :
    ((settleColumn ctx plugs opt contribs c (indexOf roots)).valueOf c (contribs.of a) =
        anchorAim ctx opt contribs c a ∨
      a.id ∈ (settleColumn ctx plugs opt contribs c (indexOf roots)).unplaced.map Prod.fst) ↔
    CountsOnce ctx plugs opt contribs c
      (pre.foldl (settleAnchor ctx plugs opt contribs c) {}) a := by
  have hids := anchors_nodup contribs roots
  rw [h, List.map_append, List.map_cons] at hids
  have hpost : a.id ∉ post.map ENode.id := (List.nodup_cons.mp hids.of_append_right).1
  have hpre : a.id ∉ pre.map ENode.id := fun hmem =>
    (List.nodup_append.mp hids).2.2 _ hmem _ List.mem_cons_self rfl
  have hbefore := settleAnchors_unplaced ctx plugs opt contribs c a.id pre {} hpre
  have hnone :
      a.id ∉ (pre.foldl (settleAnchor ctx plugs opt contribs c) {}).unplaced.map Prod.fst :=
    fun hmem => List.not_mem_nil (hbefore.mp hmem)
  rw [settleColumn_split ctx plugs opt contribs c roots h,
    settleAnchors_value ctx plugs opt contribs c a, List.foldl_cons,
    settleAnchors_unplaced ctx plugs opt contribs c a.id post _ hpost, settleAnchor_unplaced,
    ← settleAnchor_hit ctx plugs opt contribs c a, anchorTarget_eq]
  refine or_congr_right ?_
  split_ifs with hplaced
  · exact iff_of_true (by simp) hplaced
  · exact iff_of_false hnone hplaced

/-- The anchors of a column are all hit where at each one's turn the line that takes its difference
counts once in it. -/
theorem anchors_hit : AnchorsHit ctx plugs opt contribs c roots ↔
    ∀ pre a post, anchors contribs (indexOf roots) = pre ++ a :: post →
      CountsOnce ctx plugs opt contribs c
        (pre.foldl (settleAnchor ctx plugs opt contribs c) {}) a := by
  constructor
  · intro hall pre a post h
    have hmem : a ∈ anchors contribs (indexOf roots) := by
      rw [h]
      simp
    exact (settleColumn_hit ctx plugs opt contribs c roots h).mp (hall.hit a hmem)
  · intro honce
    refine ⟨fun a hmem => ?_, fun pre a post h => ?_⟩
    · obtain ⟨pre, post, h⟩ := List.append_of_mem hmem
      exact (settleColumn_hit ctx plugs opt contribs c roots h).mpr (honce pre a post h)
    · rw [settleColumn_split ctx plugs opt contribs c roots h, settleAnchors_value,
        List.foldl_append]
      rfl

/-- A balance sheet with the bank on a line of its own and a total that adds it twice. -/
def bankTwice : List FsNode :=
  [.accountNode "bank" { refs := [⟨some "bank", none⟩] },
    .totalNode "twice" { terms := [⟨"bank", 1⟩, ⟨"bank", 1⟩], anchor := true }]

def bankOptions : FaceOptions where
  scope := .bs
  bal := [some [("bank", 1004900)]]

def bankCtx : EngineCtx :=
  buildContext
    { periodEnd := 0, period := none, framework := .gaap, columns := ⟨.single, false, false, false⟩
      tagId := none } ⟨true, true⟩
    { entityKind := .corporation
      accounts := [⟨"bank", none, "Bank", .asset, some "bank", none⟩]
      groupings := []
      fyStartMonth := 1
      workpapers := []
      reAccountId := "re"
      equityRoles := []
      cashFlowOverrides := [] }

def bankRoots : List ENode :=
  buildRoots bankCtx ⟨compare, compare⟩ bankOptions false
    (claims bankCtx .bs bankTwice).nodeAccounts bankTwice

/-- With 100.49 in the bank the total of 200.98 is to show 201, and shows 202. -/
theorem bankTwice_notHit : ¬AnchorsHit bankCtx [] bankOptions (contributions (indexOf bankRoots)) 0
    bankRoots := by
  intro h
  have hall := h.hit
  revert hall
  decide +kernel

end Column

end MyBooks
