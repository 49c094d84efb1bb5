import MyBooks.EntityIncome

/-!
# Owner-level amounts and the shares that they reach

A pool is read once by each share of its person (`ReadsPools`): once by each of their links, or else
by their empty share. So the shares hold an entity's amounts and, of those whose person has several
links, as much again for each link past the first (`shares_sum`).
-/

namespace MyBooks

section Pools

variable {κ : Type*} [DecidableEq κ]

/-- Amounts read key by key are each amount as often as its key is read. -/
theorem Entries.sum_reads : ∀ {m : Entries κ Dec} (ks : List κ), m.keys.Nodup →
    (ks.map fun k => (m.get? k).getD 0).sum = (m.map fun e => (ks.count e.1 : Dec) * e.2).sum
  | [], ks, _ => by simp
  | (k, v) :: m, ks, h => by
    obtain ⟨hk, hm⟩ := List.nodup_cons.mp h
    have hread : ∀ k' ∈ ks, (Entries.get? ((k, v) :: m) k').getD 0 =
        (if k = k' then v else 0) + (Entries.get? m k').getD 0 := by
      intro k' _
      rw [Entries.get?_cons]
      by_cases hkk : k = k'
      · subst hkk
        have hnone : Entries.get? m k = none := by
          by_contra hsome
          obtain ⟨v', hv'⟩ := Option.ne_none_iff_exists'.mp hsome
          exact hk (Entries.mem_keys_of_get? hv')
        simp [hnone]
      · simp [hkk]
    have hcount : ∀ ks : List κ,
        (ks.map fun k' => if k = k' then v else 0).sum = (ks.count k : Dec) * v := by
      intro ks
      induction ks with
      | nil => simp
      | cons k' ks ih =>
        rw [List.map_cons, List.sum_cons, ih, List.count_cons]
        by_cases hkk : k = k'
        · subst hkk
          simp
          ring
        · have hne : (k' == k) = false := beq_eq_false_iff_ne.mpr (Ne.symm hkk)
          simp [hkk, hne]
    rw [List.map_congr_left hread, List.sum_map_add, hcount, Entries.sum_reads ks hm, List.map_cons,
      List.sum_cons]

end Pools

/-- The kinds of owner-level amounts. -/
inductive OwnerPool where
  | guaranteedPayment | officerWages | sehi | retirement | sehiAsW2Wages
  deriving DecidableEq, Repr

namespace OwnerPool

/-- What the entity has of a kind. -/
def items (e : EngineEntity) : OwnerPool → List EnginePersonAmount
  | guaranteedPayment => e.guaranteedPayments
  | officerWages => e.officerWages
  | sehi => e.ownerItems.map fun o => ⟨o.personId, o.sehi⟩
  | retirement => e.ownerItems.map fun o => ⟨o.personId, o.retirement⟩
  | sehiAsW2Wages => e.ownerItems.map fun o => ⟨o.personId, o.sehiAsW2Wages⟩

def pool (pools : OwnerPools) : OwnerPool → Entries Id Dec
  | guaranteedPayment => pools.guaranteedPayment
  | officerWages => pools.officerWages
  | sehi => pools.sehi
  | retirement => pools.retirement
  | sehiAsW2Wages => pools.sehiAsW2Wages

def amount (s : AllocatedShare) : OwnerPool → Dec
  | guaranteedPayment => s.guaranteedPayment
  | officerWages => s.officerWages
  | sehi => s.ownerSehi
  | retirement => s.ownerRetirement
  | sehiAsW2Wages => s.sehiAsW2Wages

/-- The projected total of the entity's inputs. -/
def projectedTotal (e : EngineEntity) (k : OwnerPool) : Dec :=
  ((k.items e).map fun i => projectWhole i.amount e).sum

end OwnerPool

section Shares

variable {persons : List EnginePerson} {e : EngineEntity} {adjustments : List EngineAdjustment}
  {items : List EnginePersonAmount} {m : Entries Id Dec} {pools : OwnerPools}

/-- A pool holds each amount under its person. -/
structure Pooled (persons : List EnginePerson) (e : EngineEntity) (items : List EnginePersonAmount)
    (m : Entries Id Dec) : Prop where
  nodup : m.keys.Nodup
  owned : ∀ i ∈ items, ∃ pid, ownerPerson persons e i.personId = .ok pid
  keys : ∀ pid, pid ∈ m.keys ↔ ∃ i ∈ items, ownerPerson persons e i.personId = .ok pid
  sum : ∀ f : Id → Dec, (m.map fun en => f en.1 * en.2).sum =
    (items.map fun i =>
      (ownerPerson persons e i.personId).toOption.elim 0 f * projectWhole i.amount e).sum

theorem sum_pool_update (f : Id → Dec) (pid : Id) (v : Dec) :
    ((m.update pid fun o => o.getD 0 + v).map fun en => f en.1 * en.2).sum =
      (m.map fun en => f en.1 * en.2).sum + f pid * v := by
  rw [Entries.update, Entries.sum_set]
  cases m.get? pid with
  | none => simp
  | some v' =>
    simp only [Option.getD_some, Option.elim_some]
    ring

theorem pooled_of_ok (h : poolByPerson persons e items = .ok m) : Pooled persons e items m := by
  have hloop : ∀ (items : List EnginePersonAmount) (done : List EnginePersonAmount)
      (m₀ m : Entries Id Dec), Pooled persons e done m₀ →
      items.foldlM (fun pool item => do
        let personId ← ownerPerson persons e item.personId
        return pool.update personId fun o => o.getD 0 + projectWhole item.amount e) m₀ = .ok m →
      Pooled persons e (done ++ items) m := by
    intro items
    induction items with
    | nil =>
      intro done m₀ m h0 h
      rwa [List.append_nil, ← foldlM_nil_ok.mp h]
    | cons i items ih =>
      intro done m₀ m h0 h
      obtain ⟨m₁, hstep, h⟩ := foldlM_cons_ok.mp h
      obtain ⟨pid, hpid, hstep⟩ := bind_eq_ok.mp hstep
      obtain rfl := pure_eq_ok.mp hstep
      rw [← List.singleton_append, ← List.append_assoc]
      refine ih (done ++ [i]) _ m ⟨?_, ?_, ?_, ?_⟩ h
      · exact Entries.nodup_keys_set h0.nodup
      · intro i' hi'
        rcases List.mem_append.mp hi' with hi' | hi'
        · exact h0.owned i' hi'
        · exact ⟨pid, List.mem_singleton.mp hi' ▸ hpid⟩
      · intro pid'
        rw [Entries.update, Entries.keys_set]
        have hkeys := h0.keys pid'
        by_cases hmem : pid ∈ m₀.keys
        · rw [if_pos hmem, hkeys]
          constructor
          · rintro ⟨i', hi', hp⟩
            exact ⟨i', List.mem_append_left _ hi', hp⟩
          · rintro ⟨i', hi', hp⟩
            rcases List.mem_append.mp hi' with hi' | hi'
            · exact ⟨i', hi', hp⟩
            · obtain rfl := List.mem_singleton.mp hi'
              obtain rfl : pid = pid' := Except.ok.inj (hpid.symm.trans hp)
              exact hkeys.mp hmem
        · rw [if_neg hmem, List.mem_append, hkeys, List.mem_singleton]
          constructor
          · rintro (⟨i', hi', hp⟩ | rfl)
            · exact ⟨i', List.mem_append_left _ hi', hp⟩
            · exact ⟨i, List.mem_append_right _ (List.mem_singleton_self i), hpid⟩
          · rintro ⟨i', hi', hp⟩
            rcases List.mem_append.mp hi' with hi' | hi'
            · exact .inl ⟨i', hi', hp⟩
            · obtain rfl := List.mem_singleton.mp hi'
              exact .inr (Except.ok.inj (hp.symm.trans hpid))
      · intro f
        rw [sum_pool_update, h0.sum, List.map_append, List.sum_append, List.map_singleton,
          List.sum_singleton, hpid]
        rfl
  exact hloop items [] [] m ⟨List.nodup_nil, by simp, by simp, by simp⟩ h

theorem pools_pooled (h : ownerPools persons e = .ok pools) (k : OwnerPool) :
    Pooled persons e (k.items e) (k.pool pools) := by
  obtain ⟨gp, hgp, h⟩ := bind_eq_ok.mp h
  obtain ⟨wages, hwages, h⟩ := bind_eq_ok.mp h
  obtain ⟨sehi, hsehi, h⟩ := bind_eq_ok.mp h
  obtain ⟨retirement, hretirement, h⟩ := bind_eq_ok.mp h
  obtain ⟨sehiW2, hsehiW2, h⟩ := bind_eq_ok.mp h
  obtain rfl := pure_eq_ok.mp h
  cases k with
  | guaranteedPayment => exact pooled_of_ok hgp
  | officerWages => exact pooled_of_ok hwages
  | sehi => exact pooled_of_ok hsehi
  | retirement => exact pooled_of_ok hretirement
  | sehiAsW2Wages => exact pooled_of_ok hsehiW2

/-- A share holds all that its person's pools do. -/
def ReadsPools (pools : OwnerPools) (s : AllocatedShare) : Prop :=
  ∀ k : OwnerPool, k.amount s = ((k.pool pools).get? s.personId).getD 0

theorem emptyShare_reads (pid : Id) : ReadsPools pools (emptyShare e pools pid) := by
  intro k
  cases k <;> rfl

theorem linkShare_ok {l : EngineLink} {s : AllocatedShare}
    (h : linkShare persons e adjustments pools l = .ok s) :
    resolvePerson persons (some l.personId) = .ok s.personId ∧ ReadsPools pools s := by
  obtain ⟨pid, hpid, h⟩ := bind_eq_ok.mp h
  obtain rfl := pure_eq_ok.mp h
  refine ⟨hpid, fun k => ?_⟩
  cases k <;> rfl

theorem linkShares_ok : ∀ {ls : List EngineLink} {ss : List AllocatedShare},
    ls.mapM (linkShare persons e adjustments pools) = .ok ss →
    (∀ s ∈ ss, ReadsPools pools s) ∧ ∀ pid, (ss.map (·.personId)).count pid =
      ls.countP fun l => (resolvePerson persons (some l.personId)).toOption = some pid
  | [], ss, h => by
    rw [List.mapM_nil, pure_eq_ok] at h
    subst h
    simp
  | l :: ls, ss, h => by
    rw [List.mapM_cons, bind_eq_ok] at h
    obtain ⟨s, hs, h⟩ := h
    obtain ⟨ss', hss, h⟩ := bind_eq_ok.mp h
    obtain rfl := pure_eq_ok.mp h
    obtain ⟨hpid, hreads⟩ := linkShare_ok hs
    obtain ⟨hall, hcount⟩ := linkShares_ok hss
    refine ⟨List.forall_mem_cons.mpr ⟨hreads, hall⟩, fun pid => ?_⟩
    rw [List.map_cons, List.count_cons, List.countP_cons, hcount, hpid]
    by_cases hp : s.personId = pid
    · simp [hp, Except.toOption]
    · simp [hp, Except.toOption]

/-- Routing leaves every person who is routed with a share, and adds none to a person with one. -/
theorem routed_ok : ∀ (routed : List Id) (shares : List AllocatedShare),
    (∀ s ∈ shares, ReadsPools pools s) →
    (∀ s ∈ routed.foldl (routePerson e pools) shares, ReadsPools pools s) ∧
    ∀ pid, ((routed.foldl (routePerson e pools) shares).map (·.personId)).count pid =
      if pid ∈ routed then max 1 ((shares.map (·.personId)).count pid)
      else (shares.map (·.personId)).count pid
  | [], shares, h => by simpa using h
  | p :: routed, shares, h => by
    have hreads : ∀ s ∈ routePerson e pools shares p, ReadsPools pools s := by
      unfold routePerson
      split_ifs
      · exact h
      · intro s hs
        rcases List.mem_append.mp hs with hs | hs
        · exact h s hs
        · rw [List.mem_singleton.mp hs]
          exact emptyShare_reads p
    have hcount : ∀ pid, ((routePerson e pools shares p).map (·.personId)).count pid =
        if pid = p then max 1 ((shares.map (·.personId)).count pid)
        else (shares.map (·.personId)).count pid := by
      intro pid
      unfold routePerson
      split_ifs with hmem hp hp
      · subst hp
        exact (max_eq_right (List.count_pos_iff.mpr hmem)).symm
      · rfl
      · subst hp
        rw [List.count_eq_zero_of_not_mem hmem]
        simp [emptyShare, List.count_eq_zero_of_not_mem hmem]
      · simp [emptyShare, Ne.symm hp]
    obtain ⟨hall, hcounts⟩ := routed_ok routed _ hreads
    refine ⟨hall, fun pid => ?_⟩
    rw [List.foldl_cons, hcounts, hcount]
    by_cases hp : pid = p <;> by_cases hr : pid ∈ routed <;> simp [hp, hr]

/-- How many of the entity's links resolve to the person. -/
def linksOf (persons : List EnginePerson) (e : EngineEntity) (pid : Id) : ℕ :=
  e.links.countP fun l => (resolvePerson persons (some l.personId)).toOption = some pid

/-- The amounts whose person has several links, once for each link past the first. -/
def extraAmount (persons : List EnginePerson) (e : EngineEntity) (k : OwnerPool) : Dec :=
  ((k.items e).map fun i => (ownerPerson persons e i.personId).toOption.elim 0
    (fun pid => ((linksOf persons e pid - 1 : ℕ) : Dec)) * projectWhole i.amount e).sum

/-- The persons of every pool are routed. -/
theorem mem_routed (h : ownerPools persons e = .ok pools) (k : OwnerPool) {pid : Id}
    (hpid : pid ∈ (k.pool pools).keys) : pid ∈ pools.routed := by
  have hpooled := pools_pooled h
  have hsehi : pid ∈ pools.sehi.keys ∨ k = .guaranteedPayment ∨ k = .officerWages ∨
      k = .retirement := by
    cases k with
    | guaranteedPayment => exact .inr (.inl rfl)
    | officerWages => exact .inr (.inr (.inl rfl))
    | sehi => exact .inl hpid
    | retirement => exact .inr (.inr (.inr rfl))
    | sehiAsW2Wages =>
      -- the same items are pooled, so the same persons are
      obtain ⟨i, hi, hp⟩ := ((hpooled .sehiAsW2Wages).keys pid).mp hpid
      obtain ⟨o, ho, rfl⟩ := List.mem_map.mp hi
      exact .inl (((hpooled .sehi).keys pid).mpr ⟨_, List.mem_map.mpr ⟨o, ho, rfl⟩, hp⟩)
  unfold OwnerPools.routed
  simp only [List.mem_append]
  rcases hsehi with h | rfl | rfl | rfl
  · exact .inl (.inr h)
  · exact .inl (.inl (.inl hpid))
  · exact .inl (.inl (.inr hpid))
  · exact .inr hpid

/-- The shares hold the projected total and the extra amounts. -/
theorem shares_sum {ae : AllocatedEntity} (h : allocateEntity persons adjustments e = .ok ae)
    (k : OwnerPool) :
    (ae.shares.map fun s => k.amount s).sum = k.projectedTotal e + extraAmount persons e k := by
  obtain ⟨pools, hpools, h⟩ := bind_eq_ok.mp h
  obtain ⟨linked, hlinked, h⟩ := bind_eq_ok.mp h
  obtain rfl := pure_eq_ok.mp h
  obtain ⟨hreads, hlinks⟩ := linkShares_ok hlinked
  obtain ⟨hall, hcount⟩ := routed_ok (e := e) pools.routed linked hreads
  have hpooled := pools_pooled hpools k
  have hreadOnce : ∀ en ∈ k.pool pools, ((((pools.routed.foldl (routePerson e pools) linked).map
      (·.personId)).count en.1 : ℕ) : Dec) * en.2 =
      (1 + ((linksOf persons e en.1 - 1 : ℕ) : Dec)) * en.2 := by
    intro en hen
    have hkey : en.1 ∈ (k.pool pools).keys := List.mem_map.mpr ⟨en, hen, rfl⟩
    have honce : max 1 (linksOf persons e en.1) = 1 + (linksOf persons e en.1 - 1) := by omega
    rw [hcount, if_pos (mem_routed hpools k hkey), hlinks]
    change ((max 1 (linksOf persons e en.1) : ℕ) : Dec) * en.2 = _
    rw [honce, Nat.cast_add, Nat.cast_one]
  have hitem : ∀ i ∈ k.items e, (ownerPerson persons e i.personId).toOption.elim 0
      (fun pid => 1 + ((linksOf persons e pid - 1 : ℕ) : Dec)) * projectWhole i.amount e =
      projectWhole i.amount e + (ownerPerson persons e i.personId).toOption.elim 0
        (fun pid => ((linksOf persons e pid - 1 : ℕ) : Dec)) * projectWhole i.amount e := by
    intro i hi
    obtain ⟨pid, hpid⟩ := hpooled.owned i hi
    rw [hpid]
    simp only [Except.toOption, Option.elim_some]
    ring
  simp only
  rw [List.map_congr_left fun s hs => hall s hs k]
  calc _ = (((pools.routed.foldl (routePerson e pools) linked).map (·.personId)).map fun pid =>
        ((k.pool pools).get? pid).getD 0).sum := by
        rw [List.map_map]
        rfl
    _ = ((k.pool pools).map fun en =>
          (1 + ((linksOf persons e en.1 - 1 : ℕ) : Dec)) * en.2).sum := by
        rw [Entries.sum_reads _ hpooled.nodup, List.map_congr_left hreadOnce]
    _ = k.projectedTotal e + extraAmount persons e k := by
        rw [hpooled.sum fun pid => 1 + ((linksOf persons e pid - 1 : ℕ) : Dec),
          List.map_congr_left hitem, List.sum_map_add]
        rfl

end Shares

section Aggregated

variable {persons : List EnginePerson} {adjustments : List EngineAdjustment}
  {income income' : AggregatedIncome} {key : Id} {p : PersonIncome} {a : EngineAdjustment}

/-- A figure of all persons. -/
def AggregatedIncome.total (income : AggregatedIncome) (f : PersonIncome → Dec) : Dec :=
  (income.byPerson.map fun e => f e.2).sum

/-- The unlinked deductions of some types. -/
def unlinkedTotal (adjustments : List EngineAdjustment) (codes : List String) : Dec :=
  ((adjustments.filter fun a => (truthy a.linkId).isNone ∧ a.kind = .deduction ∧
    a.typeCode.any (· ∈ codes)).map (·.amount)).sum

theorem get_ok {personId : Option Id} (h : income.get persons personId = .ok (key, p)) :
    income.byPerson.get? key = some p := by
  obtain ⟨key', -, h⟩ := bind_eq_ok.mp h
  cases hp : income.byPerson.get? key' with
  | none =>
    rw [hp] at h
    cases h
  | some p' =>
    rw [hp] at h
    obtain ⟨rfl, rfl⟩ := Prod.mk.inj (pure_eq_ok.mp h)
    exact hp

/-- Setting a person changes a figure by what it changes of theirs. -/
theorem total_set (hp : income.byPerson.get? key = some p) (f : PersonIncome → Dec)
    (p' : PersonIncome) : { income with byPerson := income.byPerson.set key p' }.total f =
      income.total f + (f p' - f p) := by
  unfold AggregatedIncome.total
  rw [Entries.sum_set fun e => f e.2, hp]
  simp only [Option.elim_some]
  ring

/-- A figure that each share adds to. -/
theorem total_addShares {f : PersonIncome → Dec} {g : AllocatedShare → Dec}
    (hf : ∀ p s, f (p.addShare s) = f p + g s) : ∀ {shares : List AllocatedShare}
    {income income' : AggregatedIncome},
    shares.foldlM (AggregatedIncome.addShare persons) income = .ok income' →
    income'.total f = income.total f + (shares.map g).sum
  | [], income, income', h => by
    rw [← foldlM_nil_ok.mp h]
    simp
  | s :: shares, income, income', h => by
    obtain ⟨income₁, hstep, h⟩ := foldlM_cons_ok.mp h
    obtain ⟨⟨key, p⟩, hget, hstep⟩ := bind_eq_ok.mp hstep
    obtain rfl := pure_eq_ok.mp hstep
    rw [total_addShares hf h, total_set (get_ok hget), hf, List.map_cons, List.sum_cons]
    ring

/-- A figure that the deductions of some types add to, and no other adjustment does. -/
structure DeductedBy (f : PersonIncome → Dec) (codes : List String) : Prop where
  deduct : ∀ (p : PersonIncome) (a : EngineAdjustment),
    f (p.deduct a) = f p + if a.typeCode.any (· ∈ codes) then a.amount else 0
  adjust : ∀ (p : PersonIncome) (a : EngineAdjustment), f (p.adjust a) = f p

theorem total_addUnlinked {f : PersonIncome → Dec} {codes : List String} (hf : DeductedBy f codes) :
    ∀ {adjustments : List EngineAdjustment} {income income' : AggregatedIncome},
    adjustments.foldlM (AggregatedIncome.addUnlinked persons) income = .ok income' →
    income'.total f = income.total f + ((adjustments.filter fun a =>
      a.kind = .deduction ∧ a.typeCode.any (· ∈ codes)).map (·.amount)).sum
  | [], income, income', h => by
    rw [← foldlM_nil_ok.mp h]
    simp
  | a :: adjustments, income, income', h => by
    obtain ⟨income₁, hstep, h⟩ := foldlM_cons_ok.mp h
    obtain ⟨⟨key, p⟩, hget, hstep⟩ := bind_eq_ok.mp hstep
    obtain rfl := pure_eq_ok.mp hstep
    have hset := total_set (get_ok hget) f (if a.kind = .deduction then p.deduct a else p.adjust a)
    rw [total_addUnlinked hf h, List.filter_cons]
    refine (congrArg (· + _) hset).trans ?_
    by_cases hkind : a.kind = .deduction
    · rw [if_pos hkind, hf.deduct]
      by_cases hcode : a.typeCode.any (· ∈ codes)
      · simp only [hkind, hcode, and_self, decide_true, if_true, List.map_cons, List.sum_cons]
        ring
      · simp [hkind, hcode]
    · rw [if_neg hkind, hf.adjust, sub_self, add_zero]
      simp [hkind]

theorem route_health : deductionRoute a = .health ↔
    a.typeCode.any (· ∈ ["owner_health_insurance"]) = true := by
  unfold deductionRoute
  by_cases h : a.typeCode = some "owner_health_insurance"
  · simp [h]
  · have hany : a.typeCode.any (· ∈ ["owner_health_insurance"]) = false := by
      cases htype : a.typeCode with
      | none => rfl
      | some c =>
        rw [htype, Option.some.injEq] at h
        simp [h]
    rw [if_neg h, hany]
    split_ifs <;> simp

theorem route_retirement : deductionRoute a = .retirement ↔
    a.typeCode.any (· ∈ retirementCodes) = true := by
  unfold deductionRoute
  split_ifs with hhealth <;> simp_all [retirementCodes]

theorem deductedBy_wages : DeductedBy (·.wages) [] where
  deduct p a := by
    unfold PersonIncome.deduct
    cases deductionRoute a <;> simp
  adjust _ _ := rfl

theorem deductedBy_guaranteedPayments : DeductedBy (·.guaranteedPayments) [] where
  deduct p a := by
    unfold PersonIncome.deduct
    cases deductionRoute a <;> simp
  adjust _ _ := rfl

theorem deductedBy_sehiPremiums : DeductedBy (·.sehiPremiums) ["owner_health_insurance"] where
  deduct p a := by
    simp only [← route_health]
    unfold PersonIncome.deduct
    cases deductionRoute a <;> simp
  adjust _ _ := rfl

theorem deductedBy_retirementContributions :
    DeductedBy (·.retirementContributions) retirementCodes where
  deduct p a := by
    simp only [← route_retirement]
    unfold PersonIncome.deduct
    cases deductionRoute a <;> simp
  adjust _ _ := rfl

/-- Before any share the persons are listed with their own inputs. -/
theorem byPerson_start (hids : (persons.map (·.personId)).Nodup) :
    persons.foldl (fun (m : Entries Id PersonIncome) p => m.set p.personId (personIncome p)) [] =
      persons.map fun p => (p.personId, personIncome p) := by
  exact Entries.foldl_set_of_nodup EnginePerson.personId personIncome persons [] hids

theorem aggregate_total {entities : List AllocatedEntity} {f : PersonIncome → Dec}
    {g : AllocatedShare → Dec} {codes : List String} (hids : (persons.map (·.personId)).Nodup)
    (hf : ∀ p s, f (p.addShare s) = f p + g s) (hcodes : DeductedBy f codes)
    (h : aggregatePersons entities persons adjustments = .ok income) :
    income.total f = (persons.map fun p => f (personIncome p)).sum +
      (entities.map fun ae => (ae.shares.map g).sum).sum + unlinkedTotal adjustments codes := by
  obtain ⟨income₁, hshares, h⟩ := bind_eq_ok.mp h
  rw [total_addUnlinked hcodes h, total_addShares hf hshares, byPerson_start hids, unlinkedTotal,
    List.filter_filter]
  congr 1
  · congr 1
    · unfold AggregatedIncome.total
      rw [List.map_map]
      rfl
    · rw [List.flatMap_def, List.map_flatten, List.sum_flatten, List.map_map, List.map_map]
      rfl
  · congr 3
    funext a
    by_cases hlink : (truthy a.linkId).isNone <;> simp [hlink]

end Aggregated

section Succeeds

variable {persons : List EnginePerson} {adjustments : List EngineAdjustment}

theorem resolvePerson_ok (h : persons ≠ []) (personId : Option Id) :
    ∃ p ∈ persons, resolvePerson persons personId = .ok p.personId := by
  unfold resolvePerson
  cases hid : (truthy personId).filter fun id => persons.any fun p => p.personId = id with
  | some id =>
    obtain ⟨-, hany⟩ := Option.filter_eq_some_iff.mp hid
    obtain ⟨p, hp, heq⟩ := List.any_eq_true.mp hany
    exact ⟨p, hp, by rw [of_decide_eq_true heq]⟩
  | none =>
    cases hprimary : persons.find? fun p => p.role = .primary with
    | some p => exact ⟨p, List.mem_of_find?_eq_some hprimary, by simp⟩
    | none =>
      obtain ⟨p, rest, rfl⟩ := List.exists_cons_of_ne_nil h
      exact ⟨p, List.mem_cons_self, by simp⟩

theorem ownerPerson_ok (h : persons ≠ []) (e : EngineEntity) (personId : Option Id) :
    ∃ pid, ownerPerson persons e personId = .ok pid := by
  unfold ownerPerson
  cases truthy personId with
  | some id =>
    obtain ⟨p, -, hp⟩ := resolvePerson_ok h (some id)
    exact ⟨_, hp⟩
  | none =>
    obtain ⟨p, -, hp⟩ := resolvePerson_ok h none
    rcases e.links with _ | ⟨l, _ | ⟨l', ls⟩⟩
    · exact ⟨_, hp⟩
    · exact ⟨_, rfl⟩
    · exact ⟨_, hp⟩

theorem poolByPerson_ok (h : persons ≠ []) (e : EngineEntity) (items : List EnginePersonAmount) :
    ∃ m, poolByPerson persons e items = .ok m := by
  obtain ⟨m, hm, -⟩ := foldlM_succeeds (fun _ => True) (l := items) (b := ([] : Entries Id Dec))
    (f := fun (pool : Entries Id Dec) item => do
      let personId ← ownerPerson persons e item.personId
      return pool.update personId fun o => o.getD 0 + projectWhole item.amount e)
    (fun item _ pool _ => by
      obtain ⟨pid, hpid⟩ := ownerPerson_ok h e item.personId
      exact ⟨_, bind_eq_ok.mpr ⟨pid, hpid, rfl⟩, trivial⟩) trivial
  exact ⟨m, hm⟩

theorem allocateEntity_ok (h : persons ≠ []) (e : EngineEntity) :
    ∃ ae, allocateEntity persons adjustments e = .ok ae := by
  obtain ⟨gp, hgp⟩ := poolByPerson_ok h e e.guaranteedPayments
  obtain ⟨wages, hwages⟩ := poolByPerson_ok h e e.officerWages
  obtain ⟨sehi, hsehi⟩ := poolByPerson_ok h e (e.ownerItems.map fun o => ⟨o.personId, o.sehi⟩)
  obtain ⟨retirement, hretirement⟩ :=
    poolByPerson_ok h e (e.ownerItems.map fun o => ⟨o.personId, o.retirement⟩)
  obtain ⟨sehiW2, hsehiW2⟩ :=
    poolByPerson_ok h e (e.ownerItems.map fun o => ⟨o.personId, o.sehiAsW2Wages⟩)
  have hpools : ownerPools persons e = .ok ⟨gp, wages, sehi, retirement, sehiW2⟩ := by
    unfold ownerPools
    rw [hgp, hwages, hsehi, hretirement, hsehiW2]
    rfl
  obtain ⟨shares, hshares⟩ := mapM_succeeds (l := e.links)
    (f := linkShare persons e adjustments ⟨gp, wages, sehi, retirement, sehiW2⟩) fun l _ => by
      obtain ⟨p, -, hp⟩ := resolvePerson_ok h (some l.personId)
      exact ⟨_, bind_eq_ok.mpr ⟨_, hp, rfl⟩⟩
  exact ⟨_, bind_eq_ok.mpr ⟨_, hpools, bind_eq_ok.mpr ⟨shares, hshares, rfl⟩⟩⟩

/-- The income has every person. -/
def KnowsAll (persons : List EnginePerson) (income : AggregatedIncome) : Prop :=
  ∀ p ∈ persons, (income.byPerson.get? p.personId).isSome

theorem get_succeeds (h : persons ≠ []) {income : AggregatedIncome}
    (hknows : KnowsAll persons income) (personId : Option Id) :
    ∃ en, income.get persons personId = .ok en := by
  obtain ⟨p, hmem, hp⟩ := resolvePerson_ok h personId
  obtain ⟨v, hv⟩ := Option.isSome_iff_exists.mp (hknows p hmem)
  refine ⟨(p.personId, v), bind_eq_ok.mpr ⟨_, hp, ?_⟩⟩
  rw [hv]
  rfl

theorem KnowsAll.set {income : AggregatedIncome} (hknows : KnowsAll persons income) (key : Id)
    (p' : PersonIncome) (above itemized : Dec) :
    KnowsAll persons ⟨income.byPerson.set key p', above, itemized⟩ := by
  intro p hp
  rw [Entries.get?_set]
  split_ifs
  · rfl
  · exact hknows p hp

theorem aggregatePersons_ok (h : persons ≠ []) (hids : (persons.map (·.personId)).Nodup)
    (allocated : List AllocatedEntity) :
    ∃ income, aggregatePersons allocated persons adjustments = .ok income := by
  have hstart : KnowsAll persons ⟨persons.foldl (fun (m : Entries Id PersonIncome) p =>
      m.set p.personId (personIncome p)) [], 0, 0⟩ := by
    intro p hp
    simp only
    rw [byPerson_start hids]
    have hkeys : (Entries.keys (persons.map fun p => (p.personId, personIncome p))).Nodup := by
      simpa [Entries.keys, Function.comp_def] using hids
    rw [(Entries.get?_eq_some hkeys).mpr (List.mem_map.mpr ⟨p, hp, rfl⟩)]
    rfl
  obtain ⟨income₁, hshares, hknows⟩ := foldlM_succeeds (KnowsAll persons)
    (f := AggregatedIncome.addShare persons) (l := allocated.flatMap (·.shares))
    (fun s _ income hknows => by
      obtain ⟨en, hen⟩ := get_succeeds h hknows (some s.personId)
      exact ⟨_, bind_eq_ok.mpr ⟨en, hen, rfl⟩, hknows.set _ _ _ _⟩) hstart
  obtain ⟨income, hadjusted, -⟩ := foldlM_succeeds (KnowsAll persons)
    (f := AggregatedIncome.addUnlinked persons)
    (l := adjustments.filter fun a => (truthy a.linkId).isNone)
    (fun a _ income hknows => by
      obtain ⟨en, hen⟩ := get_succeeds h hknows a.personId
      exact ⟨_, bind_eq_ok.mpr ⟨en, hen, rfl⟩, hknows.set _ _ _ _⟩) hknows
  exact ⟨income, bind_eq_ok.mpr ⟨income₁, hshares, hadjusted⟩⟩

end Succeeds

section Entities

variable {persons : List EnginePerson} {adjustments : List EngineAdjustment}
  {entities : List EngineEntity} {allocated : List AllocatedEntity} {income : AggregatedIncome}

theorem entity_of_ok {e : EngineEntity} {ae : AllocatedEntity}
    (h : allocateEntity persons adjustments e = .ok ae) : ae.entity = e := by
  obtain ⟨_, -, h⟩ := bind_eq_ok.mp h
  obtain ⟨_, -, h⟩ := bind_eq_ok.mp h
  obtain rfl := pure_eq_ok.mp h
  rfl

/-- Each entity is allocated, with its projected totals and its extra amounts. -/
theorem allocated_ok : ∀ {entities : List EngineEntity} {allocated : List AllocatedEntity},
    entities.mapM (allocateEntity persons adjustments) = .ok allocated →
    allocated.map (·.entity) = entities ∧ ∀ ae ∈ allocated, ∀ k : OwnerPool,
      (ae.shares.map fun s => k.amount s).sum =
        k.projectedTotal ae.entity + extraAmount persons ae.entity k
  | [], allocated, h => by
    rw [List.mapM_nil, pure_eq_ok] at h
    subst h
    simp
  | e :: entities, allocated, h => by
    rw [List.mapM_cons, bind_eq_ok] at h
    obtain ⟨ae, hae, h⟩ := h
    obtain ⟨rest, hrest, h⟩ := bind_eq_ok.mp h
    obtain rfl := pure_eq_ok.mp h
    obtain ⟨hentities, hsums⟩ := allocated_ok hrest
    have he := entity_of_ok hae
    refine ⟨by rw [List.map_cons, he, hentities], List.forall_mem_cons.mpr ⟨fun k => ?_, hsums⟩⟩
    rw [he]
    exact shares_sum hae k

/-- The shares of each entity hold its projected totals. -/
def SharedOnce (allocated : List AllocatedEntity) : Prop :=
  ∀ ae ∈ allocated, ∀ k : OwnerPool,
    (ae.shares.map fun s => k.amount s).sum = k.projectedTotal ae.entity

/-- The projected totals of a kind of all entities. -/
def projectedTotals (entities : List EngineEntity) (k : OwnerPool) : Dec :=
  (entities.map fun e => k.projectedTotal e).sum

/-- The persons' figures are their own inputs, the projected totals, and the unlinked adjustments
routed to them. -/
structure CollectedOnce (persons : List EnginePerson) (entities : List EngineEntity)
    (adjustments : List EngineAdjustment) (income : AggregatedIncome) : Prop where
  wages : income.total (·.wages) = (persons.map (·.w2Wages)).sum +
    projectedTotals entities .officerWages + projectedTotals entities .sehiAsW2Wages
  guaranteedPayments : income.total (·.guaranteedPayments) =
    projectedTotals entities .guaranteedPayment
  sehiPremiums : income.total (·.sehiPremiums) =
    projectedTotals entities .sehi + unlinkedTotal adjustments ["owner_health_insurance"]
  retirementContributions : income.total (·.retirementContributions) =
    projectedTotals entities .retirement + unlinkedTotal adjustments retirementCodes

theorem projectedTotals_of_shared
    (hentities : allocated.map (·.entity) = entities) (h : SharedOnce allocated) (k : OwnerPool) :
    (allocated.map fun ae => (ae.shares.map fun s => k.amount s).sum).sum =
      projectedTotals entities k := by
  rw [projectedTotals, ← hentities, List.map_map,
    List.map_congr_left fun ae hae => h ae hae k]
  rfl

theorem collected_iff (hids : (persons.map (·.personId)).Nodup)
    (hall : entities.mapM (allocateEntity persons adjustments) = .ok allocated)
    (hagg : aggregatePersons allocated persons adjustments = .ok income) :
    (SharedOnce allocated ∧ CollectedOnce persons entities adjustments income) ↔
      ∀ e ∈ entities, ∀ k, extraAmount persons e k = 0 := by
  obtain ⟨hentities, hsums⟩ := allocated_ok hall
  constructor
  · rintro ⟨hshared, -⟩ e he k
    rw [← hentities] at he
    obtain ⟨ae, hae, rfl⟩ := List.mem_map.mp he
    have hsum := hsums ae hae k
    rw [hshared ae hae k] at hsum
    linarith
  · intro h
    have hshared : SharedOnce allocated := by
      intro ae hae k
      rw [hsums ae hae k, h ae.entity (hentities ▸ List.mem_map.mpr ⟨ae, hae, rfl⟩) k, add_zero]
    have htotal := projectedTotals_of_shared hentities hshared
    refine ⟨hshared, ⟨?_, ?_, ?_, ?_⟩⟩
    · rw [aggregate_total (g := fun s => s.officerWages + s.sehiAsW2Wages) hids
        (fun _ _ => rfl) deductedBy_wages hagg, ← htotal, ← htotal]
      have hnone : unlinkedTotal adjustments [] = 0 := by simp [unlinkedTotal]
      rw [hnone, add_zero, add_assoc, ← List.sum_map_add]
      congr 3
      funext ae
      exact List.sum_map_add
    · rw [aggregate_total (g := (·.guaranteedPayment)) hids (fun _ _ => rfl)
        deductedBy_guaranteedPayments hagg, ← htotal]
      simp [unlinkedTotal, personIncome, OwnerPool.amount]
    · rw [aggregate_total (g := (·.ownerSehi)) hids (fun _ _ => rfl) deductedBy_sehiPremiums hagg,
        ← htotal]
      simp [personIncome, OwnerPool.amount]
    · rw [aggregate_total (g := (·.ownerRetirement)) hids (fun _ _ => rfl)
        deductedBy_retirementContributions hagg, ← htotal]
      simp [personIncome, OwnerPool.amount]

/-- Where there are persons the entities are allocated and the persons' income collected, and
owner-level amounts reach the shares and the persons once exactly where, for each entity and each
kind, the amounts whose person has several links come to nothing. -/
theorem owner_amounts_once (persons : List EnginePerson) (entities : List EngineEntity)
    (adjustments : List EngineAdjustment) (hids : (persons.map (·.personId)).Nodup) :
    (persons ≠ [] → ∃ allocated income,
      entities.mapM (allocateEntity persons adjustments) = .ok allocated ∧
      aggregatePersons allocated persons adjustments = .ok income) ∧
    ∀ allocated income, entities.mapM (allocateEntity persons adjustments) = .ok allocated →
      aggregatePersons allocated persons adjustments = .ok income →
      ((SharedOnce allocated ∧ CollectedOnce persons entities adjustments income) ↔
        ∀ e ∈ entities, ∀ k, extraAmount persons e k = 0) := by
  refine ⟨fun h => ?_, fun _ _ hall hagg => collected_iff hids hall hagg⟩
  obtain ⟨allocated, hall⟩ := mapM_succeeds (l := entities)
    (f := allocateEntity persons adjustments) fun e _ => allocateEntity_ok h e
  obtain ⟨income, hagg⟩ := aggregatePersons_ok h hids allocated
  exact ⟨allocated, income, hall, hagg⟩

def ownerOf (personId : Id) (role : PersonRole) (w2Wages : Dec) : EnginePerson where
  personId := personId
  role := role
  w2Wages := w2Wages
  w2SocialSecurityWages := none

def halfLink (linkId personId : Id) : EngineLink where
  linkId := linkId
  personId := personId
  profitPct := some 50
  lossPct := none
  partnerSeStatus := some .general
  isOfficer := false
  activityType := .active
  activeParticipation := false
  qbiEligible := none
  allowedLossOverride := none

/-- A partnership with two links and a guaranteed payment to Ada. -/
def partnership (links : List EngineLink) : EngineEntity where
  tenantId := "t"
  companyId := "c"
  entityType := .partnership
  monthsElapsed := 12
  monthsRemaining := 0
  ytd := fun _ => 0
  recurringYtd := fun _ => 0
  ownerItems := []
  guaranteedPayments := [⟨some "ada", 1000⟩]
  officerWages := []
  taxDepreciationBookYtd := 0
  links := links
  priorYearTrend := none

theorem partners_once : ∃ allocated income,
    [partnership [halfLink "l1" "ada", halfLink "l2" "bob"]].mapM (allocateEntity
      [ownerOf "ada" .primary 500, ownerOf "bob" .spouse 0] []) = .ok allocated ∧
    SharedOnce allocated ∧ CollectedOnce [ownerOf "ada" .primary 500, ownerOf "bob" .spouse 0]
      [partnership [halfLink "l1" "ada", halfLink "l2" "bob"]] [] income := by
  have honce := owner_amounts_once [ownerOf "ada" .primary 500, ownerOf "bob" .spouse 0]
    [partnership [halfLink "l1" "ada", halfLink "l2" "bob"]] [] (by decide)
  obtain ⟨allocated, income, hall, hagg⟩ := honce.1 (by simp)
  refine ⟨allocated, income, hall, (honce.2 allocated income hall hagg).mpr ?_⟩
  intro e he k
  obtain rfl := List.mem_singleton.mp he
  cases k <;> decide +kernel

/-- The second link is of a person who is not the taxpayer's, and so resolves to Ada as well. -/
theorem strangersLink_twice : ∃ ae income,
    allocateEntity [ownerOf "ada" .primary 500] []
      (partnership [halfLink "l1" "ada", halfLink "l2" "stranger"]) = .ok ae ∧
    aggregatePersons [ae] [ownerOf "ada" .primary 500] [] = .ok income ∧
    OwnerPool.projectedTotal ae.entity .guaranteedPayment = 1000 ∧
    (ae.shares.map fun s => OwnerPool.amount s .guaranteedPayment).sum = 2000 ∧
    income.total (·.guaranteedPayments) = 2000 := by
  refine ⟨_, _, rfl, rfl, ?_, ?_, ?_⟩ <;> decide +kernel

end Entities

end MyBooks
