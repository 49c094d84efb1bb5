import MyBooks.CashFlows
import Mathlib.Algebra.BigOperators.Ring.Finset

/-!
# When cash flows reconcile

Closed workpapers net to zero, so net income and the changes of all accounts but cash come to the
change in cash, as long as the account that income is closed into is among those changes. It is not
where it is at zero at both ends of the range. Income that was earned and closed in between, and
drawn from retained earnings, is then counted once only (`cashYear_reconciles_iff`).
-/

namespace MyBooks

/-- A column of the trial balance: amounts to four places, debits equal to credits. -/
structure NetsZero (column : Entries Id Dec) : Prop where
  places : ∀ e ∈ column, Places 4 e.2
  zero : (column.map Prod.snd).sum = 0

/-- Both columns of a workpaper net to zero. -/
structure FsSourcePeriod.NetsZero (p : FsSourcePeriod) : Prop where
  book : MyBooks.NetsZero p.balances
  tax : ∀ t ∈ p.taxBalances, MyBooks.NetsZero t

section Workpapers

variable {p : FsSourcePeriod} {column : Entries Id Dec} {m : Balances} {tax : Bool}

theorem toUnits_cast {x : Dec} (h : Places 4 x) : (toUnits x : Dec) = x * 10000 := by
  obtain ⟨n, hn⟩ := h
  have hx : x * 10000 = n := by rw [← hn]; norm_num
  have hfloor : ⌊(n : ℚ) + 1 / 2⌋ = n := by
    rw [Int.floor_eq_iff]
    constructor <;> linarith
  rw [toUnits, hx, hfloor]

theorem total_units : ∀ column : Entries Id Dec, Entries.total (column.filterMap fun e =>
    if toUnits e.2 ≠ 0 then some (e.1, toUnits e.2) else none) =
      (column.map fun e => toUnits e.2).sum
  | [] => rfl
  | e :: column => by
    have ih := total_units column
    unfold Entries.total at ih ⊢
    rw [List.filterMap_cons, List.map_cons, List.sum_cons, ← ih]
    by_cases h : toUnits e.2 = 0
    · simp [h]
    · simp [h]

theorem NetsZero.units (h : NetsZero column) : (column.map fun e => toUnits e.2).sum = 0 := by
  have hcast : (((column.map fun e => toUnits e.2).sum : ℤ) : Dec) =
      (column.map Prod.snd).sum * 10000 := by
    rw [← List.sum_map_mul_right, Int.cast_list_sum, List.map_map]
    exact congrArg List.sum (List.map_congr_left fun e he => toUnits_cast (h.places e he))
  rw [h.zero, zero_mul] at hcast
  exact_mod_cast hcast

/-- The column a map is made of. -/
theorem toMap_column (hp : p.NetsZero) (h : toMap (some p) tax = some m) :
    ∃ column, MyBooks.NetsZero column ∧ m = column.filterMap fun e =>
      if toUnits e.2 ≠ 0 then some (e.1, toUnits e.2) else none := by
  simp only [toMap, Option.bind_some, Option.ite_none_right_eq_some, Option.some.injEq] at h
  refine ⟨_, ?_, h.2.symm⟩
  cases tax with
  | false => exact hp.book
  | true =>
    cases ht : p.taxBalances with
    | none => exact hp.book
    | some t => exact hp.tax t ht

theorem toMap_total (hp : p.NetsZero) (h : toMap (some p) tax = some m) : m.total = 0 := by
  obtain ⟨column, hc, rfl⟩ := toMap_column hp h
  rw [total_units, hc.units]

end Workpapers

namespace EngineCtx

variable {ctx : EngineCtx} {date : ℤ} {role : CloseRole} {src closed : Balances}

theorem bsPart_add_plTotal (src : Balances) :
    (ctx.bsPart src).total + ctx.plTotal src = src.total := by
  have h : ∀ (src out : Balances) (pl : ℤ),
      Entries.total (src.foldl (fun out e => if ctx.isBsAcct e.1 then out.add e.1 e.2 else out) out) +
        src.foldl (fun pl e => if ctx.isBsAcct e.1 then pl else pl + e.2) pl =
      out.total + pl + src.total := by
    intro src
    induction src with
    | nil => intro out pl; simp [Entries.total]
    | cons e src ih =>
      intro out pl
      have hcons : Entries.total (e :: src) = e.2 + Entries.total src := by
        simp [Entries.total]
      rw [List.foldl_cons, List.foldl_cons, ih, hcons]
      split_ifs
      · rw [Entries.total_eq_weigh, Entries.weigh_add, ← Entries.total_eq_weigh]
        ring
      · ring
  have h0 := h src [] 0
  simpa [bsPart, plTotal, Entries.total] using h0

theorem bsPart_keys (id : Id) : id ∈ (ctx.bsPart src).keys ↔ id ∈ src.keys ∧ ctx.isBsAcct id := by
  have h : ∀ (src out : Balances), id ∈ Entries.keys
      (src.foldl (fun out e => if ctx.isBsAcct e.1 then out.add e.1 e.2 else out) out) ↔
        id ∈ out.keys ∨ (id ∈ src.keys ∧ ctx.isBsAcct id) := by
    intro src
    induction src with
    | nil => simp
    | cons e src ih =>
      intro out
      rw [List.foldl_cons, ih, Entries.keys_cons, List.mem_cons]
      by_cases hb : ctx.isBsAcct e.1
      · have hadd : id ∈ (out.add e.1 e.2).keys ↔ id ∈ out.keys ∨ id = e.1 := by
          rw [Entries.keys_add]
          split_ifs with hk
          · exact ⟨.inl, fun h => h.elim (fun h => h) fun h => h ▸ hk⟩
          · simp
        rw [if_pos hb, hadd]
        constructor
        · rintro ((h | rfl) | h)
          · exact .inl h
          · exact .inr ⟨.inl rfl, hb⟩
          · exact .inr ⟨.inr h.1, h.2⟩
        · rintro (h | ⟨h | h, hid⟩)
          · exact .inl (.inl h)
          · exact .inl (.inr h)
          · exact .inr ⟨h, hid⟩
      · rw [if_neg hb]
        constructor
        · rintro (h | h)
          · exact .inl h
          · exact .inr ⟨.inr h.1, h.2⟩
        · rintro (h | ⟨rfl | h, hid⟩)
          · exact .inl h
          · exact absurd hid hb
          · exact .inr ⟨h, hid⟩
  simpa [bsPart] using h src []

theorem bsPart_nodup : (ctx.bsPart src).keys.Nodup := by
  have h : ∀ (src out : Balances), out.keys.Nodup → (Entries.keys
      (src.foldl (fun out e => if ctx.isBsAcct e.1 then out.add e.1 e.2 else out) out)).Nodup := by
    intro src
    induction src with
    | nil => exact fun _ h => h
    | cons e src ih =>
      intro out hout
      rw [List.foldl_cons]
      refine ih _ ?_
      split_ifs
      · exact Entries.nodup_keys_set hout
      · exact hout
  exact h src [] List.nodup_nil

/-- Whether retained earnings are on the closed balance sheet: with a balance of their own, or with
income to be closed. -/
def FoldShown (ctx : EngineCtx) (date : ℤ) (role : CloseRole) : Prop :=
  ∃ src ∈ ctx.raw date (ctx.tax ∧ role = .close),
    ctx.source.reAccountId ∈ src.keys ∨ ctx.plTotal src ≠ 0

theorem bsClosed_spec (h : ctx.bsClosed date role = some closed) :
    ∃ src, ctx.raw date (ctx.tax ∧ role = .close) = some src ∧ closed.total = src.total ∧
      closed.keys.Nodup ∧ ∀ id, id ∈ closed.keys ↔
        (id ∈ src.keys ∧ ctx.isBsAcct id) ∨ (id = ctx.source.reAccountId ∧ ctx.plTotal src ≠ 0) := by
  obtain ⟨src, hsrc, rfl⟩ := Option.map_eq_some_iff.mp h
  refine ⟨src, hsrc, ?_⟩
  have htotal : (ctx.bsPart src).total + ctx.plTotal src = src.total := bsPart_add_plTotal src
  by_cases hpl : ctx.plTotal src = 0
  · rw [if_neg (by simpa using hpl)]
    refine ⟨by rw [← htotal, hpl, add_zero], bsPart_nodup, fun id => ?_⟩
    simp [bsPart_keys, hpl]
  · rw [if_pos hpl]
    refine ⟨?_, Entries.nodup_keys_set bsPart_nodup, fun id => ?_⟩
    · rw [Entries.total_eq_weigh, Entries.weigh_add, ← Entries.total_eq_weigh, ← htotal]
      ring
    · rw [Entries.keys_add]
      split_ifs with hk
      · rw [bsPart_keys]
        refine ⟨.inl, fun h => h.elim (fun h => h) ?_⟩
        rintro ⟨rfl, -⟩
        exact (bsPart_keys _).mp hk
      · rw [List.mem_append, bsPart_keys, List.mem_singleton]
        simp [hpl]

/-- Retained earnings are on the closed sheet when they are shown, and nothing but balance sheet
accounts is. -/
theorem bsClosed_keys (hre : ctx.isBsAcct ctx.source.reAccountId)
    (h : ctx.bsClosed date role = some closed) :
    closed.keys.Nodup ∧ (∀ id ∈ closed.keys, ctx.isBsAcct id) ∧
      (ctx.source.reAccountId ∈ closed.keys ↔ ctx.FoldShown date role) := by
  obtain ⟨src, hsrc, -, hn, hkeys⟩ := bsClosed_spec h
  refine ⟨hn, fun id hid => ?_, ?_⟩
  · rcases (hkeys id).mp hid with hid | ⟨rfl, -⟩
    · exact hid.2
    · exact hre
  · rw [hkeys]
    refine ⟨fun h => ⟨src, hsrc, h.imp And.left And.right⟩, ?_⟩
    rintro ⟨src', hsrc', h⟩
    obtain rfl : src = src' := Option.some.inj (hsrc.symm.trans hsrc')
    exact h.imp (fun h => ⟨h, hre⟩) fun h => ⟨rfl, h⟩

/-- Closed workpapers net to zero. -/
theorem bsClosed_total (hnets : ∀ p, p ∈ ctx.source.workpapers.get? date → p.NetsZero)
    (h : ctx.bsClosed date role = some closed) : closed.total = 0 := by
  obtain ⟨src, hsrc, htotal, -, -⟩ := bsClosed_spec h
  rw [htotal]
  unfold raw at hsrc
  cases hp : ctx.source.workpapers.get? date with
  | none => simp [hp, toMap] at hsrc
  | some p => exact toMap_total (hnets p hp) (hp ▸ hsrc)

end EngineCtx

section Income

variable {ctx : EngineCtx}

/-- A range's income, expenses positive, from the year-to-date workpapers it is composed of. -/
def EngineCtx.rangeIncome (ctx : EngineCtx) (y : FsPlanRange) : ℤ :=
  ((fsRangeComposition y.start y.stop ctx.source.fyStartMonth).map fun c =>
    c.sign * (ctx.raw c.date ctx.tax).elim 0 ctx.plTotal).sum

theorem foldl_plTotal (ctx : EngineCtx) (sign : ℤ) : ∀ (m out : Balances) (pl : ℤ),
    Entries.total (m.foldl (fun out e =>
      if ctx.isBsAcct e.1 then out else out.add e.1 (sign * e.2)) out) + sign * pl =
    out.total + sign * m.foldl (fun pl e => if ctx.isBsAcct e.1 then pl else pl + e.2) pl
  | [], _, _ => rfl
  | e :: m, out, pl => by
    rw [List.foldl_cons, List.foldl_cons]
    split_ifs
    · exact foldl_plTotal ctx sign m out pl
    · have ih := foldl_plTotal ctx sign m (out.add e.1 (sign * e.2)) (pl + e.2)
      rw [Entries.total_eq_weigh (m := out.add _ _), Entries.weigh_add,
        ← Entries.total_eq_weigh] at ih
      linarith

theorem plActivity_total (y : FsPlanRange) :
    Entries.total ((ctx.plActivityUntagged y).getD []) = ctx.rangeIncome y := by
  have h : ∀ (cs : List FsComposed) (out : Balances), Entries.total
      ((cs.filterMap fun c => (ctx.raw c.date ctx.tax).map fun m => (c.sign, m)).foldl
        (fun out part => part.2.foldl (fun out e =>
          if ctx.isBsAcct e.1 then out else out.add e.1 (part.1 * e.2)) out) out) =
      out.total + (cs.map fun c => c.sign * (ctx.raw c.date ctx.tax).elim 0 ctx.plTotal).sum := by
    intro cs
    induction cs with
    | nil => simp
    | cons c cs ih =>
      intro out
      cases hraw : ctx.raw c.date ctx.tax with
      | none => simp [hraw, ih]
      | some m =>
        have hm := foldl_plTotal ctx c.sign m out 0
        rw [mul_zero, add_zero] at hm
        simp only [List.filterMap_cons, hraw, Option.map_some, List.foldl_cons, ih, hm,
          List.map_cons, List.sum_cons, Option.elim_some, EngineCtx.plTotal]
        ring
  have h0 := h (fsRangeComposition y.start y.stop ctx.source.fyStartMonth) []
  unfold EngineCtx.plActivityUntagged EngineCtx.compose EngineCtx.rangeIncome
  simp only [EngineCtx.raw] at h0 ⊢
  split_ifs with hnone
  · rw [hnone] at h0
    simpa [Entries.total] using h0
  · simpa [Entries.total] using h0

end Income

section CashYear

variable {ctx : EngineCtx} {opening close : Balances} {s year : CfYear} {id : Id} {ids : List Id}
  {y : FsPlanRange}

/-- What the accounts taken so far moved cash by, less the changes they were classified with. -/
def CfYear.moved (s : CfYear) : ℤ := (s.cashEnd - s.cashBegin) - s.sumEffects

/-- The balance sheet accounts are classified, and retained earnings are not cash. -/
structure Classified (ctx : EngineCtx) : Prop where
  included : ∀ id, ctx.isBsAcct id → ctx.cfClass id ≠ .excluded
  fold : ctx.isBsAcct ctx.source.reAccountId ∧ ctx.cfClass ctx.source.reAccountId ≠ .cash

theorem isBsAcct_iff : ctx.isBsAcct id ↔ (ctx.typeOf id).any isBsType := by
  unfold EngineCtx.isBsAcct
  cases ctx.typeOf id <;> simp [isBsType]

/-- Each account moves cash and changes together by the change of its balance, and retained earnings
by the income less. -/
theorem step_moved (hc : Classified ctx) (hid : ctx.isBsAcct id) :
    (s.step ctx opening close id).niSigned = s.niSigned ∧
      (s.step ctx opening close id).moved = s.moved +
        (((close.get? id).getD 0 - (opening.get? id).getD 0) -
          if id = ctx.source.reAccountId then s.niSigned else 0) := by
  have hne := hc.included id hid
  unfold CfYear.step
  simp only [isBsAcct_iff.mp hid, if_true, hne, if_false]
  by_cases hcash : ctx.cfClass id = .cash
  · have hfold : id ≠ ctx.source.reAccountId := fun h => hc.fold.2 (h ▸ hcash)
    rw [if_pos hcash, if_neg hfold]
    exact ⟨rfl, by simp only [CfYear.moved]; ring⟩
  · rw [if_neg hcash]
    by_cases hfold : id = ctx.source.reAccountId
    · simp only [if_pos hfold]
      split_ifs with h0
      · exact ⟨rfl, by linarith⟩
      · exact ⟨rfl, by simp only [CfYear.moved]; ring⟩
    · simp only [if_neg hfold]
      split_ifs with h0
      · exact ⟨rfl, by linarith⟩
      · exact ⟨rfl, by simp only [CfYear.moved]; ring⟩

theorem foldl_moved (hc : Classified ctx) : ∀ {ids : List Id} {s : CfYear},
    (∀ id ∈ ids, ctx.isBsAcct id) →
      (ids.foldl (CfYear.step ctx opening close) s).niSigned = s.niSigned ∧
      (ids.foldl (CfYear.step ctx opening close) s).moved = s.moved +
        (ids.map fun id => ((close.get? id).getD 0 - (opening.get? id).getD 0) -
          if id = ctx.source.reAccountId then s.niSigned else 0).sum
  | [], s, _ => ⟨rfl, by simp⟩
  | id :: ids, s, hids => by
    obtain ⟨hni, hmoved⟩ := @step_moved ctx opening close s id hc (hids id List.mem_cons_self)
    obtain ⟨hni', hmoved'⟩ := @foldl_moved hc ids (s.step ctx opening close id) fun i hi =>
      hids i (List.mem_cons_of_mem _ hi)
    rw [List.foldl_cons, hni', hmoved', hni, hmoved, List.map_cons, List.sum_cons]
    exact ⟨rfl, by ring⟩

theorem unionKeys_nodup {a b : Balances} (ha : a.keys.Nodup) (hb : b.keys.Nodup) :
    (unionKeys a b).Nodup :=
  List.nodup_append.mpr ⟨ha, hb.filter _, fun k hk k' hk' => by
    rintro rfl
    simpa [hk] using List.of_mem_filter hk'⟩

theorem mem_unionKeys {a b : Balances} : id ∈ unionKeys a b ↔ id ∈ a.keys ∨ id ∈ b.keys := by
  unfold unionKeys
  by_cases h : id ∈ a.keys <;> simp [h]

/-- A range's income is left out where retained earnings are not among the changes. -/
theorem cashYear_unreconciled (hc : Classified ctx)
    (hnets : ∀ date p, p ∈ ctx.source.workpapers.get? date → p.NetsZero)
    (hopen : ctx.bsClosed (fsAddDays y.start (-1)) .opening = some opening)
    (hclose : ctx.bsClosed y.stop = some close) (h : cashYear ctx y = some year) :
    year.unreconciled =
      if ctx.source.reAccountId ∈ unionKeys opening close then 0
      else ((ctx.plActivityUntagged y).getD []).total := by
  simp only [cashYear, hclose, hopen, Option.map_some, Option.getD_some, Option.some.injEq] at h
  set ni := ((ctx.plActivityUntagged y).getD []).total
  obtain ⟨hno, hao, -⟩ := EngineCtx.bsClosed_keys hc.fold.1 hopen
  obtain ⟨hnc, hac, -⟩ := EngineCtx.bsClosed_keys hc.fold.1 hclose
  have hids : ∀ id ∈ unionKeys opening close, ctx.isBsAcct id := fun id hid =>
    (mem_unionKeys.mp hid).elim (hao id) (hac id)
  obtain ⟨hni, hmoved⟩ := @foldl_moved ctx opening close hc _ ⟨0, 0, ni, 0, [], []⟩ hids
  have hnd := unionKeys_nodup hno hnc
  have hchange : ((unionKeys opening close).map fun id =>
      (close.get? id).getD 0 - (opening.get? id).getD 0).sum = 0 := by
    have htotal : _ = Entries.total close :=
      Entries.sum_getD hnc hnd fun id hid => mem_unionKeys.mpr (.inr hid)
    have htotal' : _ = Entries.total opening :=
      Entries.sum_getD hno hnd fun id hid => mem_unionKeys.mpr (.inl hid)
    rw [EngineCtx.bsClosed_total (hnets _) hclose] at htotal
    rw [EngineCtx.bsClosed_total (hnets _) hopen] at htotal'
    rw [sum_map_sub, htotal, htotal', sub_zero]
  have hfold : ((unionKeys opening close).map fun id =>
      if id = ctx.source.reAccountId then ni else 0).sum =
        if ctx.source.reAccountId ∈ unionKeys opening close then ni else 0 := by
    simp only [eq_comm (b := ctx.source.reAccountId)]
    split_ifs with hmem
    · exact sum_map_key ni hnd hmem
    · have hne : ∀ id ∈ unionKeys opening close,
          (if ctx.source.reAccountId = id then ni else 0) = 0 := fun id hid =>
        if_neg (by rintro rfl; exact hmem hid)
      rw [List.map_congr_left hne]
      simp
  rw [sum_map_sub, hchange, hfold] at hmoved
  rw [h] at hni hmoved
  simp only [CfYear.moved] at hmoved
  rw [CfYear.unreconciled, hni]
  split_ifs at hmoved ⊢ <;> linarith

/-- The statement reports the ranges that do not reconcile. -/
theorem unreconciled_reported {sid : Id} {detailByAccount : Bool} {inp : CashFlowInputs}
    {st : CashFlowStatement} (h : buildCashFlows ctx sid detailByAccount inp = some st) :
    (∃ c ∈ st.checks, c.code = .cfUnreconciled) ↔
      ∃ y ∈ ctx.plan.cfRanges, ∃ year ∈ cashYear ctx y, year.unreconciled ≠ 0 := by
  simp only [buildCashFlows, Option.ite_none_right_eq_some, Option.some.injEq] at h
  obtain ⟨-, rfl⟩ := h
  constructor
  · rintro ⟨c, hc, hcode⟩
    rcases List.mem_append.mp hc with hc | hc
    · obtain ⟨o, ho, hc⟩ := List.mem_filterMap.mp hc
      obtain ⟨y, hy, rfl⟩ := List.mem_map.mp ho
      obtain ⟨year, hyear, hc⟩ := Option.bind_eq_some_iff.mp hc
      split_ifs at hc with hne
      exact ⟨y, hy, year, hyear, hne⟩
    · obtain ⟨o, -, hc⟩ := List.mem_filterMap.mp hc
      obtain ⟨f, -, hc⟩ := Option.bind_eq_some_iff.mp hc
      obtain ⟨diff, -, rfl⟩ := Option.map_eq_some_iff.mp hc
      cases hcode
  · rintro ⟨y, hy, year, hyear, hne⟩
    refine ⟨_, List.mem_append_left _ (List.mem_filterMap.mpr
      ⟨_, List.mem_map_of_mem hy, Option.bind_eq_some_iff.mpr ⟨year, hyear, if_pos hne⟩⟩), rfl⟩

/-- A planned range reconciles when retained earnings are shown at one of its ends, or it has no
income. -/
theorem cashYear_reconciles_iff (settings : FsReportSettings) (style : FsNumberStyle)
    (source : FsSourceData) {ctx : EngineCtx} (hctx : ctx = buildContext settings style source)
    (hnets : ∀ date p, source.workpapers.get? date = some p → p.NetsZero)
    (hre : ctx.typeOf source.reAccountId = some .equity)
    (hcash : ∀ id, ctx.cfClass id = .cash → ctx.typeOf id = some .asset)
    (hexcluded : ∀ id, ctx.isBsAcct id → ctx.cfClass id ≠ .excluded)
    (_hy : y ∈ ctx.plan.cfRanges) (hopen : (ctx.bsClosed (fsAddDays y.start (-1)) .opening).isSome)
    (hyear : cashYear ctx y = some year) :
    year.unreconciled = 0 ↔ ctx.FoldShown (fsAddDays y.start (-1)) .opening ∨
      ctx.FoldShown y.stop .close ∨ ctx.rangeIncome y = 0 := by
  have hsource : ctx.source = source := by rw [hctx]; rfl
  have hbs : ctx.isBsAcct ctx.source.reAccountId := by
    rw [isBsAcct_iff, hsource, hre]
    rfl
  have hc : Classified ctx := ⟨hexcluded, hbs, fun h => by
    rw [hsource] at h
    have := hcash _ h
    rw [hre] at this
    cases this⟩
  obtain ⟨opening, hopening⟩ := Option.isSome_iff_exists.mp hopen
  obtain ⟨close, hclose, -⟩ := Option.map_eq_some_iff.mp hyear
  have hnets' : ∀ date p, p ∈ ctx.source.workpapers.get? date → p.NetsZero := by
    rw [hsource]
    exact hnets
  rw [cashYear_unreconciled hc hnets' hopening hclose hyear, plActivity_total,
    ← (EngineCtx.bsClosed_keys hbs hopening).2.2, ← (EngineCtx.bsClosed_keys hbs hclose).2.2,
    ← or_assoc, ← mem_unionKeys]
  by_cases h : ctx.source.reAccountId ∈ unionKeys opening close
  · simp [h]
  · simp [h]

end CashYear

section DrawnOut

/-- With no overrides, an account that is not in the chart has no class. -/
theorem cfClass_of_none {ctx : EngineCtx} (hno : ctx.source.cashFlowOverrides = []) {id : Id}
    (h : id ∉ ctx.accounts.keys) : ctx.cfClass id = .excluded ∧ ctx.isBsAcct id = false := by
  have hnone : ctx.accounts.get? id = none := by
    by_contra hsome
    obtain ⟨a, ha⟩ := Option.ne_none_iff_exists'.mp hsome
    exact h (Entries.mem_keys_of_get? ha)
  constructor
  · simp [EngineCtx.cfClass, hno, hnone]
  · simp [EngineCtx.isBsAcct, EngineCtx.typeOf, hnone, isBsType]

def settingsFor (start periodEnd : ℤ) : FsReportSettings where
  periodEnd := periodEnd
  period := some ⟨.custom, start⟩
  framework := .gaap
  columns := ⟨.single, false, false, false⟩
  tagId := none

/-- Stock of a thousand, sales of a hundred in the second half of 2025, drawn from retained earnings
after the year-end. -/
def drawnOut : FsSourceData where
  entityKind := .corporation
  accounts :=
    [⟨"bank", some "1000", "Checking", .asset, some "bank", none⟩,
      ⟨"stock", some "3000", "Common stock", .equity, none, none⟩,
      ⟨"re", some "3900", "Retained earnings", .equity, none, some "retained_earnings"⟩,
      ⟨"sales", some "4000", "Sales", .revenue, none, none⟩]
  groupings := []
  fyStartMonth := 1
  workpapers :=
    [(fmt 2025 6 30, { balances := [("bank", 1000), ("stock", -1000)] }),
      (fmt 2025 12 31, { balances := [("bank", 1100), ("stock", -1000), ("sales", -100)] }),
      (fmt 2026 6 30, { balances := [("bank", 1000), ("stock", -1000), ("re", 0)] })]
  reAccountId := "re"
  equityRoles := []
  cashFlowOverrides := []

def drawnOutCtx (start periodEnd : ℤ) : EngineCtx :=
  buildContext (settingsFor start periodEnd) ⟨true, true⟩ drawnOut

theorem drawnOut_netsZero (date : ℤ) (p : FsSourcePeriod)
    (h : drawnOut.workpapers.get? date = some p) : p.NetsZero := by
  have hwhole : ∀ x : Dec, x ∈ [(1000 : Dec), -1000, 1100, -100, 0] → Places 4 x := by
    intro x hx
    simp only [List.mem_cons, List.not_mem_nil, or_false] at hx
    rcases hx with rfl | rfl | rfl | rfl | rfl
    all_goals exact ⟨_, by norm_num; norm_cast⟩
  have hp := Entries.mem_of_get? h
  simp only [drawnOut, List.mem_cons, List.not_mem_nil, or_false, Prod.mk.injEq] at hp
  rcases hp with ⟨-, rfl⟩ | ⟨-, rfl⟩ | ⟨-, rfl⟩
  all_goals
    refine ⟨⟨fun e he => hwhole _ ?_, by norm_num⟩, fun t ht => by cases ht⟩
    simp only [List.mem_cons, List.not_mem_nil, or_false] at he ⊢
    rcases he with rfl | rfl | rfl <;> simp

theorem drawnOut_classes (start periodEnd : ℤ) :
    (∀ id, (drawnOutCtx start periodEnd).cfClass id = .cash →
      (drawnOutCtx start periodEnd).typeOf id = some .asset) ∧
    ∀ id, (drawnOutCtx start periodEnd).isBsAcct id →
      (drawnOutCtx start periodEnd).cfClass id ≠ .excluded := by
  have hkeys : (drawnOutCtx start periodEnd).accounts.keys = ["bank", "stock", "re", "sales"] := rfl
  have hall : ∀ id, ((drawnOutCtx start periodEnd).cfClass id,
      (drawnOutCtx start periodEnd).typeOf id) ∈ [(FsCashFlowClass.cash, some AccountType.asset),
        (.financing, some .equity), (.excluded, some .revenue)] ∨
      (drawnOutCtx start periodEnd).cfClass id = .excluded ∧
        (drawnOutCtx start periodEnd).isBsAcct id = false := by
    intro id
    by_cases hid : id ∈ (drawnOutCtx start periodEnd).accounts.keys
    · left
      rw [hkeys] at hid
      simp only [List.mem_cons, List.not_mem_nil, or_false] at hid
      rcases hid with rfl | rfl | rfl | rfl
      · exact .head _
      · exact .tail _ (.head _)
      · exact .tail _ (.head _)
      · exact .tail _ (.tail _ (.head _))
    · exact .inr (cfClass_of_none rfl hid)
  constructor
  · intro id h
    rcases hall id with hmem | ⟨hx, -⟩
    · simpa [h] using hmem
    · rw [hx] at h
      cases h
  · intro id hb h
    rcases hall id with hmem | ⟨-, hx⟩
    · simp only [h, List.mem_cons, List.not_mem_nil, or_false, Prod.mk.injEq, reduceCtorEq,
        false_and, false_or, true_and] at hmem
      rw [isBsAcct_iff, hmem] at hb
      cases hb
    · rw [hx] at hb
      cases hb

/-- From July 2025 to June 2026 a hundred is earned, closed and drawn: retained earnings are at zero
at both ends, and cash flows miss the draw. -/
theorem drawnOut_unreconciled :
    (∀ date p, drawnOut.workpapers.get? date = some p → p.NetsZero) ∧
      ∃ ctx, ctx = buildContext (settingsFor (fmt 2025 7 1) (fmt 2026 6 30)) ⟨true, true⟩ drawnOut ∧
        ctx.typeOf drawnOut.reAccountId = some .equity ∧
        (∀ id, ctx.cfClass id = .cash → ctx.typeOf id = some .asset) ∧
        (∀ id, ctx.isBsAcct id → ctx.cfClass id ≠ .excluded) ∧
        ∃ y ∈ ctx.plan.cfRanges, (ctx.bsClosed (fsAddDays y.start (-1)) .opening).isSome ∧
          ∃ year, cashYear ctx y = some year ∧ year.unreconciled = -1000000 := by
  refine ⟨drawnOut_netsZero, _, rfl, rfl, (drawnOut_classes _ _).1, (drawnOut_classes _ _).2,
    ⟨"P", fmt 2025 7 1, fmt 2026 6 30⟩, by decide +kernel, by decide +kernel, ?_⟩
  exact ⟨{ cashBegin := 10000000, cashEnd := 10000000, niSigned := -1000000 },
    by decide +kernel, by decide +kernel⟩

/-- From January to June 2026, with income to be closed at the opening date. -/
theorem drawnOut_reconciles :
    ∃ ctx y year, ctx = buildContext (settingsFor (fmt 2026 1 1) (fmt 2026 6 30)) ⟨true, true⟩
        drawnOut ∧ y ∈ ctx.plan.cfRanges ∧ cashYear ctx y = some year ∧
      (year.unreconciled = 0 ↔ ctx.FoldShown (fsAddDays y.start (-1)) .opening ∨
        ctx.FoldShown y.stop .close ∨ ctx.rangeIncome y = 0) := by
  refine ⟨_, ⟨"P", fmt 2026 1 1, fmt 2026 6 30⟩,
    { cashBegin := 11000000, cashEnd := 10000000, niSigned := 0, sumEffects := -1000000
      effects := [("re", -1000000)] }, rfl, by decide +kernel, by decide +kernel, ?_⟩
  exact cashYear_reconciles_iff (settingsFor (fmt 2026 1 1) (fmt 2026 6 30)) ⟨true, true⟩ drawnOut
    rfl drawnOut_netsZero rfl (drawnOut_classes _ _).1 (drawnOut_classes _ _).2 (by decide +kernel)
    (by decide +kernel) (by decide +kernel)

end DrawnOut

end MyBooks
