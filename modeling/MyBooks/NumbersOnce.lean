import MyBooks.CheckNumbers

/-!
# No check number twice on a bank account

The counter of a bank account is past every number held on it, so what it hands out is free, and a typed
number is looked up and counted. The number of a check is looked up and counted on one account only, the
one its call is about: `Checkbook.clearElsewhere` says that the other bank accounts its lines are on are
clear of it, and `CheckAction.clear` that those of a call are, and, where an unprinted check keeps its
number, that the counter of the account it is now on is past it.
-/

namespace MyBooks

namespace Checks

section Clear

variable (isBank : Id → Bool) (s : Checkbook)

/-- No bank account of the list but one has the number, and their counters are past it. -/
def Checkbook.clearElsewhere (bankAccountId : Id) (checkId : Option ℕ) (checkNumber : ℕ) (accounts : List Id) :
    Bool :=
  accounts.all fun a =>
    !isBank a || a = bankAccountId || !s.isTaken a checkNumber checkId && checkNumber < s.nextNumFor a

/-- The accounts of the lines of a check as a call leaves them. -/
def CheckBody.accounts (input : CheckBody) (answer : Answer) : List Id :=
  input.lines.map (·.accountId) ++ [input.bankAccountId] ++ answer.derived.map (·.accountId)

def createClear (input : WriteCheckInput) (answer : Answer) : Bool :=
  input.printLater || s.clearElsewhere isBank input.bankAccountId none
    (input.typedNumber.getD (s.nextNumFor input.bankAccountId)) (input.accounts answer)

def updateClear (existing : Check) (input : UpdateCheckInput) (answer : Answer) : Bool :=
  let elsewhere (n : ℕ) :=
    s.clearElsewhere isBank input.bankAccountId (some existing.id) n (input.accounts answer)
  match printedChange existing input with
  | .error _ => true
  | .ok change =>
    match numbering existing input change with
    | .queued _ => true
    | .allocated => elsewhere (s.nextNumFor input.bankAccountId)
    | .typed n => elsewhere n
    | .kept n => elsewhere n && (!isBank input.bankAccountId || n < s.nextNumFor input.bankAccountId)
    | .printed checkNumber => checkNumber.all elsewhere

/-- What a call numbers is clear of the bank accounts it does not look at. -/
def CheckAction.clear : CheckAction → Bool
  | .create input answer _ => createClear isBank s input answer
  | .update checkId input answer => (s.find checkId).all fun existing => updateClear isBank s existing input answer
  | .print bankAccountId _ checkIds startingNumber _ =>
    checkIds.zipIdx.all fun (checkId, i) => (s.find checkId).all fun c =>
      s.clearElsewhere isBank bankAccountId (some checkId) (startingNumber + i) (c.lines.map (·.accountId))
  | .refund input _ debitAccountId _ =>
    input.checkNumber.all fun n =>
      s.clearElsewhere isBank input.refundFromAccountId none n [debitAccountId, input.refundFromAccountId]
  | .requeue _ _ | .reprint _ _ | .void _ _ => true

/-- A number is held on a bank account once, and the next one is not. -/
structure NumbersOnce : Prop where
  once : ∀ a, isBank a → ∀ n, (s.checks.filter fun c => c.holds a n).length ≤ 1
  next : ∀ a, isBank a → ∀ c ∈ s.checks, c.holds a (s.nextNumFor a) = false

/-- The numbers held on the bank accounts are below their tops, each held once. -/
structure Numbered (top : Id → ℕ) : Prop where
  ids : (s.checks.map (·.id)).Nodup
  fresh : ∀ c ∈ s.checks, c.id < s.nextId
  below : ∀ a, isBank a → ∀ n, ∀ c ∈ s.checks, c.holds a n → n < top a
  once : ∀ a, isBank a → ∀ n, ∀ c ∈ s.checks, ∀ c' ∈ s.checks, c.holds a n → c'.holds a n → c.id = c'.id

/-- What a check holds on the bank accounts no other check holds, and the tops are past it. -/
def Check.Room (c : Check) (top : Id → ℕ) : Prop :=
  ∀ a, isBank a → ∀ n, c.holds a n → n < top a ∧ ∀ x ∈ s.checks, x.id ≠ c.id → x.holds a n = false

end Clear

section Counter

variable {s : Checkbook} {a b : Id} {n v : ℕ} {excl : Option ℕ}

@[simp] theorem setNextNum_checks : (s.setNextNum b v).checks = s.checks := rfl

@[simp] theorem setNextNum_nextId : (s.setNextNum b v).nextId = s.nextId := rfl

theorem nextNumFor_setNextNum : (s.setNextNum b v).nextNumFor a = if a = b then v else s.nextNumFor a := by
  unfold Checkbook.setNextNum Checkbook.nextNumFor
  simp only [Function.update_apply]
  split_ifs
  · rfl
  · rfl

/-- The counter is never set back. -/
theorem nextNumFor_le_setNextNum (h : s.nextNumFor b ≤ v) : s.nextNumFor a ≤ (s.setNextNum b v).nextNumFor a := by
  rw [nextNumFor_setNextNum]
  split_ifs with hab
  · rwa [hab]
  · exact le_rfl

theorem isTaken_false : s.isTaken a n excl = false ↔
    ∀ x ∈ s.checks, some x.id ≠ excl → x.holds a n = false := by
  simp only [Checkbook.isTaken, List.any_eq_false, Bool.and_eq_true, decide_eq_true_eq, not_and, not_not,
    ne_eq]
  refine forall₂_congr fun x _ => ⟨fun h hne => ?_, fun h hx => ?_⟩
  · exact Bool.eq_false_iff.mpr fun hx => hne (h hx)
  · by_contra hne
    rw [h hne] at hx
    cases hx

theorem assertCheckNumberFree_ok (h : s.assertCheckNumberFree b n excl = .ok ()) :
    s.isTaken b n excl = false := by
  unfold Checkbook.assertCheckNumberFree at h
  split_ifs at h with htaken
  exact Bool.eq_false_iff.mpr htaken

theorem holds_iff {c : Check} : c.holds a n ↔
    c.checkNumber = some n ∧ c.status ≠ .deleted ∧ a ∈ c.lines.map (·.accountId) := by
  simp only [Check.holds, Bool.and_eq_true, decide_eq_true_eq, List.any_eq_true, List.mem_map, and_assoc,
    ne_eq]

theorem clearElsewhere_mem {isBank : Id → Bool} {accounts : List Id}
    (h : s.clearElsewhere isBank b excl n accounts = true) (ha : a ∈ accounts) (hbank : isBank a) (hab : a ≠ b) :
    s.isTaken a n excl = false ∧ n < s.nextNumFor a := by
  have hclear := List.all_eq_true.mp h a ha
  simpa [hbank, hab] using hclear

end Counter

section Numbered

variable {isBank : Id → Bool} {s : Checkbook} {top top' : Id → ℕ} {c : Check}

theorem Numbered.mono (h : Numbered isBank s top) (hle : ∀ a, top a ≤ top' a) : Numbered isBank s top' :=
  { h with below := fun a ha n c hc hn => (h.below a ha n c hc hn).trans_le (hle a) }

theorem Numbered.setNextNum (h : Numbered isBank s top) (b : Id) (v : ℕ) :
    Numbered isBank (s.setNextNum b v) top :=
  ⟨h.ids, h.fresh, h.below, h.once⟩

theorem Numbered.numbersOnce (h : Numbered isBank s s.nextNumFor) : NumbersOnce isBank s where
  once a ha n := by
    rcases hl : s.checks.filter fun c => c.holds a n with _ | ⟨c, _ | ⟨d, ds⟩⟩
    · rw [hl]
      exact Nat.zero_le _
    · rw [hl]
      exact le_rfl
    have hmem : ∀ x ∈ c :: d :: ds, x ∈ s.checks ∧ x.holds a n := fun x hx => List.mem_filter.mp (hl ▸ hx)
    have hnodup : ((c :: d :: ds).map (·.id)).Nodup := by
      rw [← hl]
      exact h.ids.sublist (List.filter_sublist.map _)
    obtain ⟨hc, hcn⟩ := hmem c List.mem_cons_self
    obtain ⟨hd, hdn⟩ := hmem d (List.mem_cons_of_mem _ List.mem_cons_self)
    have hne : c.id ∉ (d :: ds).map (·.id) := (List.nodup_cons.mp hnodup).1
    rw [h.once a ha n c hc d hd hcn hdn] at hne
    exact absurd List.mem_cons_self hne
  next a ha c hc := Bool.eq_false_iff.mpr fun hn => lt_irrefl _ (h.below a ha _ c hc hn)

theorem find_some {checkId : ℕ} (h : s.find checkId = some c) : c ∈ s.checks ∧ c.id = checkId :=
  ⟨List.mem_of_find?_eq_some h, by simpa using List.find?_some h⟩

theorem Numbered.find (h : Numbered isBank s top) (hc : c ∈ s.checks) : s.find c.id = some c := by
  rcases hf : s.find c.id with _ | c'
  · exact absurd (decide_eq_true rfl) (List.find?_eq_none.mp hf c hc)
  · obtain ⟨hc', hid⟩ := find_some hf
    rw [List.inj_on_of_nodup_map h.ids hc' hc hid]

theorem mem_put {x : Check} (h : x ∈ (s.put c).checks) : x = c ∨ x ∈ s.checks ∧ x.id ≠ c.id := by
  obtain ⟨y, hy, rfl⟩ := List.mem_map.mp h
  split_ifs with hid
  · exact .inl rfl
  · exact .inr ⟨hy, hid⟩

theorem mem_add {x : Check} (h : x ∈ (s.add c).checks) : x = c ∨ x ∈ s.checks :=
  (List.mem_append.mp h).symm.imp_left List.mem_singleton.mp

/-- A check that has room takes the place of the one with its id. -/
theorem Numbered.put (h : Numbered isBank s top) (hid : c.id < s.nextId) (hroom : c.Room isBank s top) :
    Numbered isBank (s.put c) top where
  ids := by
    have hmap : (s.put c).checks.map (·.id) = s.checks.map (·.id) := by
      unfold Checkbook.put
      rw [List.map_map]
      refine List.map_congr_left fun x _ => ?_
      simp only [Function.comp_apply]
      split_ifs with hx
      · exact hx.symm
      · rfl
    rw [hmap]
    exact h.ids
  fresh x hx := by
    obtain rfl | ⟨hx, -⟩ := mem_put hx
    · exact hid
    · exact h.fresh x hx
  below a ha n x hx hn := by
    obtain rfl | ⟨hx, -⟩ := mem_put hx
    · exact (hroom a ha n hn).1
    · exact h.below a ha n x hx hn
  once a ha n x hx y hy hxn hyn := by
    rcases mem_put hx with hxc | ⟨hx, hxc⟩ <;> rcases mem_put hy with hyc | ⟨hy, hyc⟩
    · rw [hxc, hyc]
    · rw [(hroom a ha n (hxc ▸ hxn)).2 y hy hyc] at hyn
      cases hyn
    · rw [(hroom a ha n (hyc ▸ hyn)).2 x hx hxc] at hxn
      cases hxn
    · exact h.once a ha n x hx y hy hxn hyn

theorem Numbered.add (h : Numbered isBank s top) (hid : c.id = s.nextId) (hroom : c.Room isBank s top) :
    Numbered isBank (s.add c) top where
  ids := by
    unfold Checkbook.add
    rw [List.map_append, List.map_singleton, hid]
    refine List.Nodup.append h.ids (List.nodup_singleton _) fun i hi hn => ?_
    obtain ⟨x, hx, rfl⟩ := List.mem_map.mp hi
    exact absurd (List.mem_singleton.mp hn) (h.fresh x hx).ne
  fresh x hx := by
    rcases mem_add hx with rfl | hx
    · rw [hid]
      exact Nat.lt_succ_self _
    · exact (h.fresh x hx).trans (Nat.lt_succ_self _)
  below a ha n x hx hn := by
    rcases mem_add hx with rfl | hx
    · exact (hroom a ha n hn).1
    · exact h.below a ha n x hx hn
  once a ha n x hx y hy hxn hyn := by
    have hne : ∀ z ∈ s.checks, z.id ≠ c.id := fun z hz => hid ▸ (h.fresh z hz).ne
    rcases mem_add hx with hxc | hx <;> rcases mem_add hy with hyc | hy
    · rw [hxc, hyc]
    · rw [(hroom a ha n (hxc ▸ hxn)).2 y hy (hne y hy)] at hyn
      cases hyn
    · rw [(hroom a ha n (hyc ▸ hyn)).2 x hx (hne x hx)] at hxn
      cases hxn
    · exact h.once a ha n x hx y hy hxn hyn

/-- A check without a number has room. -/
theorem Check.room_of_none (h : c.checkNumber = none) : c.Room isBank s top := by
  intro a ha n hn
  rw [(holds_iff.mp hn).1] at h
  cases h

/-- A check has room where what it holds is clear elsewhere, and free and below the top on one account. -/
theorem Check.room_of_clear {b : Id} {n : ℕ} {accounts : List Id} {excl : Option ℕ} (hnumber : c.checkNumber = some n)
    (haccounts : ∀ a ∈ c.lines.map (·.accountId), a ∈ accounts)
    (hclear : s.clearElsewhere isBank b excl n accounts = true) (htop : ∀ a, s.nextNumFor a ≤ top a)
    (hexcl : ∀ x ∈ s.checks, x.id ≠ c.id → some x.id ≠ excl)
    (hb : isBank b → s.isTaken b n excl = false ∧ n < top b) : c.Room isBank s top := by
  intro a ha m hm
  obtain ⟨hnum, -, hline⟩ := holds_iff.mp hm
  obtain rfl : n = m := Option.some.inj (hnumber.symm.trans hnum)
  have hroom : s.isTaken a n excl = false ∧ n < top a := by
    by_cases hab : a = b
    · subst hab
      exact hb ha
    · obtain ⟨htaken, hlt⟩ := clearElsewhere_mem hclear (haccounts a hline) ha hab
      exact ⟨htaken, hlt.trans_le (htop a)⟩
  exact ⟨hroom.2, fun x hx hne => isTaken_false.mp hroom.1 x hx (hexcl x hx hne)⟩

/-- What the counter hands out is not taken. -/
theorem Numbered.next_free (h : Numbered isBank s s.nextNumFor) {b : Id} (hb : isBank b) (excl : Option ℕ) :
    s.isTaken b (s.nextNumFor b) excl = false :=
  isTaken_false.mpr fun x hx _ => Bool.eq_false_iff.mpr fun hn => lt_irrefl _ (h.below b hb _ x hx hn)

end Numbered

/-- The counters are past every number held. -/
abbrev Counted (isBank : Id → Bool) (s : Checkbook) : Prop := Numbered isBank s s.nextNumFor

section Taken

variable {isBank : Id → Bool} {s : Checkbook} {b : Id} {v n : ℕ} {c : Check} {accounts : List Id}
  {excl : Option ℕ}

theorem Numbered.count (h : Counted isBank s) (hle : s.nextNumFor b ≤ v) : Counted isBank (s.setNextNum b v) :=
  (h.mono fun _ => nextNumFor_le_setNextNum hle).setNextNum b v

/-- A check has room for a number that is free on an account and counted there. -/
theorem Check.room_counted (hnumber : c.checkNumber = some n)
    (haccounts : ∀ a ∈ c.lines.map (·.accountId), a ∈ accounts)
    (hclear : s.clearElsewhere isBank b excl n accounts = true) (hle : s.nextNumFor b ≤ v) (hn : n < v)
    (hexcl : ∀ x ∈ s.checks, x.id ≠ c.id → some x.id ≠ excl)
    (hfree : isBank b → s.isTaken b n excl = false) :
    c.Room isBank (s.setNextNum b v) (s.setNextNum b v).nextNumFor := by
  have hroom : c.Room isBank s (s.setNextNum b v).nextNumFor := by
    refine Check.room_of_clear hnumber haccounts hclear (fun _ => nextNumFor_le_setNextNum hle) hexcl
      fun hb => ⟨hfree hb, ?_⟩
    rwa [nextNumFor_setNextNum, if_pos rfl]
  exact hroom

theorem buildCheckLines_ok {input : CheckBody} {lines : List CheckLine} (h : buildCheckLines input = .ok lines) :
    lines.map (·.accountId) = input.lines.map (·.accountId) ++ [input.bankAccountId] := by
  unfold buildCheckLines at h
  simp only [] at h
  split_ifs at h
  obtain rfl := Except.ok.inj h
  simp only [List.map_append, List.map_map, List.map_cons, List.map_nil]
  rfl

theorem mem_accounts {input : CheckBody} {answer : Answer} {lines : List CheckLine}
    (h : buildCheckLines input = .ok lines) :
    ∀ a ∈ (lines ++ answer.derived).map (·.accountId), a ∈ input.accounts answer := by
  intro a ha
  rwa [List.map_append, buildCheckLines_ok h] at ha

end Taken

section Create

variable {isBank : Id → Bool} {s s' : Checkbook} {input : WriteCheckInput} {answer : Answer}

theorem postCheck_ok {lines : List CheckLine} {number : Option ℕ} {printStatus : PrintStatus}
    (h : postCheck input answer lines number printStatus s = .ok s') :
    ∃ c : Check, c.id = s.nextId ∧ c.checkNumber = number ∧ c.lines = lines ++ answer.derived ∧ s' = s.add c := by
  unfold postCheck at h
  split_ifs at h
  exact ⟨_, rfl, rfl, rfl, (Except.ok.inj h).symm⟩

theorem createCheck_counted (h : Counted isBank s) (hclear : createClear isBank s input answer = true)
    (hok : createCheck input answer s = .ok s') : Counted isBank s' := by
  obtain ⟨lines, hlines, hok⟩ := bind_eq_ok.mp hok
  unfold createClear at hclear
  have hexcl : ∀ x ∈ s.checks, some x.id ≠ none := fun _ _ => Option.some_ne_none _
  split_ifs at hok with hlater
  · obtain ⟨c, hid, hnumber, -, rfl⟩ := postCheck_ok hok
    exact h.add hid (Check.room_of_none hnumber)
  rw [Bool.not_eq_true] at hlater
  rw [hlater, Bool.false_or] at hclear
  rcases htyped : input.typedNumber with _ | n
  · simp only [htyped] at hok
    rw [htyped, Option.getD_none] at hclear
    obtain ⟨c, hid, hnumber, hl, rfl⟩ := postCheck_ok hok
    refine (h.count (Nat.le_succ _)).add hid ?_
    exact Check.room_counted hnumber (hl ▸ mem_accounts hlines) hclear (Nat.le_succ _) (Nat.lt_succ_self _)
      (fun x hx _ => hexcl x hx) fun hb => h.next_free hb none
  · simp only [htyped] at hok
    rw [htyped, Option.getD_some] at hclear
    obtain ⟨u, hfree, hok⟩ := bind_eq_ok.mp hok
    obtain ⟨c, hid, hnumber, hl, rfl⟩ := postCheck_ok hok
    refine (h.count (le_max_left _ _)).add hid ?_
    exact Check.room_counted hnumber (hl ▸ mem_accounts hlines) hclear (le_max_left _ _)
      ((Nat.lt_succ_self n).trans_le (le_max_right _ _)) (fun x hx _ => hexcl x hx)
      fun _ => assertCheckNumberFree_ok hfree

theorem createCheckFailed_counted (h : Counted isBank s) (outerTx : Bool) :
    Counted isBank (createCheckFailed input outerTx s) := by
  unfold createCheckFailed
  split
  · exact h
  · split_ifs
    · exact h
    · exact h.count (Nat.le_succ _)

end Create

section Update

variable {isBank : Id → Bool} {s s' : Checkbook} {existing : Check} {input : UpdateCheckInput} {answer : Answer}

/-- A printed check whose face stays is drawn on the bank account it was drawn on. -/
theorem numbering_printed {change : Option PrintedCheckChange} {number : Option ℕ}
    (hchange : printedChange existing input = .ok change)
    (h : numbering existing input change = .printed number) :
    number = existing.checkNumber ∧ input.bankAccountId ∈ existing.lines.map (·.accountId) := by
  unfold numbering at h
  simp only [] at h
  split_ifs at h with hqueue hkeep hprinted
  · split at h <;> cases h
  · obtain rfl := (Numbering.printed.inj h).symm
    refine ⟨rfl, ?_⟩
    unfold printedChange at hchange
    rw [if_neg (not_not.mpr hprinted)] at hchange
    simp only [] at hchange
    split_ifs at hchange with hface
    · have hbank : PrintedFaceField.bankAccountId ∉ printedFaceChanges existing input := by
        rw [hface.1]
        exact List.not_mem_nil
      have hlines : (existing.lines.filter fun l => !l.isVoidReversal && 0 < l.credit).map (·.accountId) =
          [input.bankAccountId] := by
        by_contra hne
        refine hbank (List.mem_filterMap.mpr ⟨(.bankAccountId, true), ?_, rfl⟩)
        simp [hne]
      have hmem := List.mem_singleton_self input.bankAccountId
      rw [← hlines] at hmem
      exact (List.filter_sublist.map _).subset hmem
    · split at hchange
      · cases hchange
      · rename_i choice hchoice
        split_ifs at hchange
        obtain rfl := Except.ok.inj hchange
        cases choice with
        | reprint => exact absurd (.inl rfl) hqueue
        | keepNumber => exact absurd rfl hkeep
  all_goals split at h <;> cases h

/-- The check that is edited keeps its id, and its lines are the call's. -/
theorem editedCheck_accounts {lines : List CheckLine} {taken : TakenNumber}
    (h : buildCheckLines input.toCheckBody = .ok lines) :
    ∀ a ∈ (editedCheck existing input answer lines taken).lines.map (·.accountId), a ∈ input.accounts answer :=
  mem_accounts h

/-- What a check holds on a bank account is below the counter, and no other check holds it. -/
theorem Numbered.held (h : Counted isBank s) (hc : existing ∈ s.checks) {a : Id} {n : ℕ} (ha : isBank a)
    (hn : existing.holds a n) : s.isTaken a n (some existing.id) = false ∧ n < s.nextNumFor a := by
  refine ⟨isTaken_false.mpr fun x hx hne => Bool.eq_false_iff.mpr fun hxn => hne ?_, h.below a ha n _ hc hn⟩
  rw [h.once a ha n x hx _ hc hxn hn]

theorem takeNumber_counted (h : Counted isBank s) (hc : existing ∈ s.checks) (hlive : existing.status ≠ .deleted)
    {lines : List CheckLine} (hlines : buildCheckLines input.toCheckBody = .ok lines)
    {change : Option PrintedCheckChange} (hchange : printedChange existing input = .ok change)
    (hclear : updateClear isBank s existing input answer = true) {taken : TakenNumber × Checkbook}
    (hok : takeNumber existing input.bankAccountId s (numbering existing input change) = .ok taken) :
    Counted isBank (taken.2.put (editedCheck existing input answer lines taken.1)) := by
  have hid : existing.id < s.nextId := h.fresh _ hc
  have hexcl : ∀ x ∈ s.checks, x.id ≠ existing.id → some x.id ≠ some existing.id :=
    fun _ _ hne heq => hne (Option.some.inj heq)
  unfold updateClear at hclear
  rw [hchange] at hclear
  simp only [] at hclear
  rcases hnumbering : numbering existing input change with _ | _ | n | n | number
  all_goals
    rw [hnumbering] at hok hclear
    simp only [takeNumber] at hok hclear
  · obtain rfl := Except.ok.inj hok
    exact h.put hid (Check.room_of_none rfl)
  · obtain rfl := Except.ok.inj hok
    refine (h.count (Nat.le_succ _)).put hid ?_
    exact Check.room_counted rfl (editedCheck_accounts hlines) hclear (Nat.le_succ _) (Nat.lt_succ_self _) hexcl
      fun hb => h.next_free hb _
  · obtain ⟨u, hfree, hok⟩ := bind_eq_ok.mp hok
    obtain rfl := pure_eq_ok.mp hok
    refine (h.count (le_max_left _ _)).put hid ?_
    exact Check.room_counted rfl (editedCheck_accounts hlines) hclear (le_max_left _ _)
      ((Nat.lt_succ_self n).trans_le (le_max_right _ _)) hexcl fun _ => assertCheckNumberFree_ok hfree
  · obtain ⟨u, hfree, hok⟩ := bind_eq_ok.mp hok
    obtain rfl := pure_eq_ok.mp hok
    obtain ⟨hclear, hcounter⟩ := Bool.and_eq_true_iff.mp hclear
    refine h.put hid (Check.room_of_clear rfl (editedCheck_accounts hlines) hclear (fun _ => le_rfl) hexcl
      fun hb => ⟨assertCheckNumberFree_ok hfree, ?_⟩)
    simpa [hb] using hcounter
  · obtain rfl := Except.ok.inj hok
    obtain ⟨rfl, hbank⟩ := numbering_printed hchange hnumbering
    rcases hnumber : existing.checkNumber with _ | n
    · exact h.put hid (Check.room_of_none rfl)
    · rw [hnumber, Option.all_some] at hclear
      refine h.put hid (Check.room_of_clear rfl (editedCheck_accounts hlines) hclear (fun _ => le_rfl) hexcl
        fun hb => h.held hc hb (holds_iff.mpr ⟨hnumber, hlive, hbank⟩))

theorem updateCheck_counted (h : Counted isBank s) {checkId : ℕ}
    (hclear : (s.find checkId).all fun existing => updateClear isBank s existing input answer)
    (hok : updateCheck input answer checkId s = .ok s') : Counted isBank s' := by
  obtain ⟨lines, hlines, hok⟩ := bind_eq_ok.mp hok
  split at hok
  · rename_i existing hfind
    obtain ⟨hc, -⟩ := find_some hfind
    rw [hfind, Option.all_some] at hclear
    obtain ⟨hrow, hok⟩ := ite_error_eq_ok.mp hok
    obtain ⟨-, hok⟩ := ite_error_eq_ok.mp hok
    obtain ⟨change, hchange, hok⟩ := bind_eq_ok.mp hok
    obtain ⟨-, hok⟩ := ite_error_eq_ok.mp hok
    obtain ⟨-, hok⟩ := ite_error_eq_ok.mp hok
    obtain ⟨taken, htaken, hok⟩ := bind_eq_ok.mp hok
    obtain rfl := Except.ok.inj hok
    have hlive : existing.status ≠ .deleted := fun hdeleted => hrow (by simp [hdeleted])
    exact takeNumber_counted h hc hlive hlines hchange hclear htaken
  · cases hok

end Update

section Print

variable {isBank : Id → Bool} {chart : Chart} {s s' t : Checkbook} {c : Check} {b batchId : Id}
  {startingNumber i : ℕ} {checkIds : List ℕ} {periodOpen : Bool}

/-- What a check of a batch is before it is printed, and after. -/
theorem printCheck_ok {check : ℕ × ℕ}
    (h : printCheck chart b batchId startingNumber periodOpen t check = .ok s') :
    ∃ c, t.find check.1 = some c ∧ s' = t.put { c with
      checkNumber := some (startingNumber + check.2), printStatus := some .printed
      printBatchId := some batchId } := by
  unfold printCheck at h
  split at h
  · cases h
  · rename_i c hc
    split_ifs at h
    exact ⟨c, hc, (Except.ok.inj h).symm⟩

/-- A batch after some of its checks: a check is as it was before, or has the number of one of them. -/
structure Printing (isBank : Id → Bool) (s : Checkbook) (top : Id → ℕ) (startingNumber i : ℕ) (t : Checkbook) :
    Prop where
  numbered : Numbered isBank t top
  counter : t.nextNumFor = s.nextNumFor
  checks : ∀ x ∈ t.checks, ∃ x₀ ∈ s.checks, x₀.id = x.id ∧ x₀.lines = x.lines ∧ x₀.status = x.status ∧
    (x.checkNumber = x₀.checkNumber ∨ ∃ j < i, x.checkNumber = some (startingNumber + j))

theorem Printing.start (h : Counted isBank s) {top : Id → ℕ} (hle : ∀ a, s.nextNumFor a ≤ top a) :
    Printing isBank s top startingNumber 0 s where
  numbered := h.mono hle
  counter := rfl
  checks x hx := ⟨x, hx, rfl, rfl, rfl, .inl rfl⟩

/-- A number of the batch that is not given out yet is as free as it was. -/
theorem Printing.free {top : Id → ℕ} (h : Printing isBank s top startingNumber i t) {a : Id} {excl : Option ℕ}
    (hfree : s.isTaken a (startingNumber + i) excl = false) : t.isTaken a (startingNumber + i) excl = false := by
  refine isTaken_false.mpr fun x hx hne => Bool.eq_false_iff.mpr fun hn => ?_
  obtain ⟨hnumber, hlive, hline⟩ := holds_iff.mp hn
  obtain ⟨x₀, hx₀, hid, hlines, hstatus, hsame | ⟨j, hj, hother⟩⟩ := h.checks x hx
  · have hfree := isTaken_false.mp hfree x₀ hx₀ (hid ▸ hne)
    rw [holds_iff.mpr ⟨hsame ▸ hnumber, hstatus ▸ hlive, hlines ▸ hline⟩] at hfree
    cases hfree
  · rw [hnumber] at hother
    have := Option.some.inj hother
    omega

theorem Printing.step {top : Id → ℕ} (h : Printing isBank s top startingNumber i t) {checkId : ℕ}
    (hle : ∀ a, s.nextNumFor a ≤ top a) (htop : startingNumber + i < top b)
    (hfree : s.isTaken b (startingNumber + i) none = false)
    (hclear : (s.find checkId).all fun c =>
      s.clearElsewhere isBank b (some checkId) (startingNumber + i) (c.lines.map (·.accountId)))
    (hs : Counted isBank s)
    (hok : printCheck chart b batchId startingNumber periodOpen t (checkId, i) = .ok s') :
    Printing isBank s top startingNumber (i + 1) s' := by
  obtain ⟨c, hfind, rfl⟩ := printCheck_ok hok
  obtain ⟨hc, rfl⟩ := find_some hfind
  obtain ⟨c₀, hc₀, hid, hlines, hstatus, -⟩ := h.checks c hc
  rw [← hid, hs.find hc₀, Option.all_some, hid, hlines] at hclear
  refine ⟨h.numbered.put (h.numbered.fresh c hc) ?_, h.counter, fun x hx => ?_⟩
  · intro a ha n hn
    obtain ⟨hnumber, -, hline⟩ := holds_iff.mp hn
    obtain rfl := Option.some.inj hnumber
    have hroom : s.isTaken a (startingNumber + i) (some c.id) = false ∧ startingNumber + i < top a := by
      by_cases hab : a = b
      · subst hab
        exact ⟨isTaken_false.mpr fun x hx _ => isTaken_false.mp hfree x hx (Option.some_ne_none _), htop⟩
      · obtain ⟨htaken, hlt⟩ := clearElsewhere_mem hclear hline ha hab
        exact ⟨htaken, hlt.trans_le (hle a)⟩
    exact ⟨hroom.2, fun x hx hne => isTaken_false.mp (h.free hroom.1) x hx fun heq => hne (Option.some.inj heq)⟩
  · rcases mem_put hx with rfl | ⟨hx, -⟩
    · exact ⟨c₀, hc₀, hid, hlines, hstatus, .inr ⟨i, Nat.lt_succ_self i, rfl⟩⟩
    · obtain ⟨x₀, hx₀, hxid, hxlines, hxstatus, hsame | ⟨j, hj, hother⟩⟩ := h.checks x hx
      · exact ⟨x₀, hx₀, hxid, hxlines, hxstatus, .inl hsame⟩
      · exact ⟨x₀, hx₀, hxid, hxlines, hxstatus, .inr ⟨j, hj.trans (Nat.lt_succ_self i), hother⟩⟩

theorem Printing.run {top : Id → ℕ} (hs : Counted isBank s) (hle : ∀ a, s.nextNumFor a ≤ top a) :
    ∀ {ids : List ℕ} {i : ℕ} {t : Checkbook}, Printing isBank s top startingNumber i t →
      (∀ j, i ≤ j → j < i + ids.length →
        startingNumber + j < top b ∧ s.isTaken b (startingNumber + j) none = false) →
      ((ids.zipIdx i).all fun (checkId, j) => (s.find checkId).all fun c =>
        s.clearElsewhere isBank b (some checkId) (startingNumber + j) (c.lines.map (·.accountId))) →
      (ids.zipIdx i).foldlM (printCheck chart b batchId startingNumber periodOpen) t = .ok s' →
      ∃ k, Printing isBank s top startingNumber k s'
  | [], i, t, h, _, _, hok => ⟨i, by rwa [← foldlM_nil_ok.mp hok]⟩
  | checkId :: ids, i, t, h, hrange, hclear, hok => by
    rw [List.zipIdx_cons] at hclear hok
    obtain ⟨t', hprint, hok⟩ := foldlM_cons_ok.mp hok
    obtain ⟨hhead, htail⟩ := Bool.and_eq_true_iff.mp ((List.all_cons ..).symm.trans hclear)
    obtain ⟨htop, hfree⟩ := hrange i le_rfl (by simp)
    refine Printing.run hs hle (h.step hle htop hfree hhead hs hprint) (fun j hj hlt => ?_) htail hok
    refine hrange j (by omega) ?_
    rw [List.length_cons]
    omega

theorem printChecks_counted (h : Counted isBank s)
    (hclear : checkIds.zipIdx.all fun (checkId, i) => (s.find checkId).all fun c =>
      s.clearElsewhere isBank b (some checkId) (startingNumber + i) (c.lines.map (·.accountId)))
    (hok : printChecks chart b batchId checkIds startingNumber periodOpen s = .ok s') : Counted isBank s' := by
  unfold printChecks at hok
  simp only [] at hok
  split at hok
  · cases hok
  · rename_i hnone
    obtain ⟨t, hfold, hok⟩ := bind_eq_ok.mp hok
    obtain rfl := Except.ok.inj hok
    have hfree (j : ℕ) (hj : j < checkIds.length) : s.isTaken b (startingNumber + j) none = false := by
      refine Bool.eq_false_iff.mpr (List.find?_eq_none.mp hnone _ ?_)
      exact List.mem_range'_1.mpr ⟨Nat.le_add_right _ _, by omega⟩
    set top := (s.setNextNum b (max (s.nextNumFor b) (startingNumber + checkIds.length))).nextNumFor with htop
    have hle (a : Id) : s.nextNumFor a ≤ top a := nextNumFor_le_setNextNum (le_max_left _ _)
    have hb : startingNumber + checkIds.length ≤ top b := by
      rw [htop, nextNumFor_setNextNum, if_pos rfl]
      exact le_max_right _ _
    obtain ⟨k, hprinted⟩ := Printing.run h hle (Printing.start h hle)
      (fun j _ hj => ⟨by omega, hfree j (by omega)⟩) hclear hfold
    have hcounter : (t.setNextNum b (max (t.nextNumFor b) (startingNumber + checkIds.length))).nextNumFor = top := by
      funext a
      rw [htop, nextNumFor_setNextNum, nextNumFor_setNextNum, hprinted.counter]
    rw [Counted, hcounter]
    exact hprinted.numbered.setNextNum _ _

/-- Back in the queue a check holds nothing. -/
theorem sendBackToQueue_counted (hc : c.id < t.nextId) (h : Counted isBank t)
    (hok : sendBackToQueue chart periodOpen t c = .ok s') : Counted isBank s' ∧ s'.nextId = t.nextId := by
  unfold sendBackToQueue at hok
  split_ifs at hok
  obtain rfl := Except.ok.inj hok
  exact ⟨h.put hc (Check.room_of_none rfl), rfl⟩

theorem sendBack_counted (h : Counted isBank s) {rows : List Check} (hrows : ∀ c ∈ rows, c ∈ s.checks)
    (hok : rows.foldlM (sendBackToQueue chart periodOpen) s = .ok s') : Counted isBank s' := by
  refine (foldlM_keeps (fun t => Counted isBank t ∧ t.nextId = s.nextId) (fun c hc t t' ht hsend => ?_)
    ⟨h, rfl⟩ hok).1
  obtain ⟨hcounted, hid⟩ := sendBackToQueue_counted (ht.2 ▸ h.fresh c (hrows c hc)) ht.1 hsend
  exact ⟨hcounted, hid.trans ht.2⟩

theorem requeueChecks_counted (h : Counted isBank s)
    (hok : requeueChecks chart checkIds periodOpen s = .ok s') : Counted isBank s' := by
  obtain ⟨-, hok⟩ := ite_error_eq_ok.mp hok
  split at hok
  · cases hok
  · exact sendBack_counted h (fun c hc => List.mem_of_mem_filter (List.mem_of_mem_filter hc)) hok

theorem reprintBatch_counted (h : Counted isBank s) (hok : reprintBatch chart batchId periodOpen s = .ok s') :
    Counted isBank s' := by
  obtain ⟨-, hok⟩ := ite_error_eq_ok.mp hok
  exact sendBack_counted h (fun c hc => List.mem_of_mem_filter (List.mem_of_mem_filter hc)) hok

end Print

section Refund

variable {isBank : Id → Bool} {s s' : Checkbook}

theorem createCustomerRefund_counted (h : Counted isBank s) {input : CreateCustomerRefundInput}
    {strictAccount : Bool} {debitAccountId : Id} {accepted : Bool}
    (hclear : input.checkNumber.all fun n =>
      s.clearElsewhere isBank input.refundFromAccountId none n [debitAccountId, input.refundFromAccountId])
    (hok : createCustomerRefund input strictAccount debitAccountId accepted s = .ok s') : Counted isBank s' := by
  unfold createCustomerRefund at hok
  simp only [] at hok
  obtain ⟨-, hok⟩ := ite_error_eq_ok.mp hok
  split at hok
  · rename_i n hnumber _
    obtain ⟨u, hfree, hok⟩ := bind_eq_ok.mp hok
    obtain ⟨-, hok⟩ := ite_error_eq_ok.mp hok
    obtain rfl := Except.ok.inj hok
    rw [hnumber, Option.all_some] at hclear
    refine (h.count (le_max_left _ _)).add rfl ?_
    exact Check.room_counted rfl (fun a ha => ha) hclear (le_max_left _ _)
      ((Nat.lt_succ_self n).trans_le (le_max_right _ _)) (fun _ _ _ => Option.some_ne_none _)
      fun _ => assertCheckNumberFree_ok hfree
  · obtain ⟨-, hok⟩ := ite_error_eq_ok.mp hok
    obtain rfl := Except.ok.inj hok
    exact h.add rfl (Check.room_of_none rfl)

/-- A void check holds what it held: its reversal is on the same accounts. -/
theorem voidCheck_counted (h : Counted isBank s) {checkId : ℕ} {accepted : Bool}
    (hok : voidCheck checkId accepted s = .ok s') : Counted isBank s' := by
  unfold voidCheck at hok
  split at hok
  · cases hok
  · rename_i c hfind
    obtain ⟨hlive, hok⟩ := ite_error_eq_ok.mp hok
    obtain ⟨-, hok⟩ := ite_error_eq_ok.mp hok
    obtain rfl := Except.ok.inj hok
    obtain ⟨hc, -⟩ := find_some hfind
    refine h.put (h.fresh c hc) fun a ha n hn => ?_
    obtain ⟨hnumber, -, hline⟩ := holds_iff.mp hn
    have haccount : a ∈ c.lines.map (·.accountId) := by
      simpa [List.map_append, List.map_map, Function.comp_def] using hline
    obtain ⟨hfree, hlt⟩ := h.held hc ha (holds_iff.mpr ⟨hnumber, hlive, haccount⟩)
    exact ⟨hlt, fun x hx hne => isTaken_false.mp hfree x hx fun heq => hne (Option.some.inj heq)⟩

end Refund

section Runs

variable {isBank : Id → Bool} {chart : Chart} {s s' start : Checkbook}

theorem getD_counted {ε : Type} {r : Except ε Checkbook} {t : Checkbook}
    (hok : ∀ s', r = .ok s' → Counted isBank s') (ht : Counted isBank t) : Counted isBank (r.toOption.getD t) := by
  rcases r with e | s'
  · exact ht
  · exact hok s' rfl

theorem checkStep_counted (action : CheckAction) (h : Counted isBank s)
    (hclear : action.clear isBank s = true) (hstep : checkStep chart s action = some s') : Counted isBank s' := by
  cases action with
  | create input answer outerTx =>
    obtain rfl := Option.some.inj hstep
    exact getD_counted (fun _ => createCheck_counted h hclear) (createCheckFailed_counted h outerTx)
  | update checkId input answer =>
    obtain rfl := Option.some.inj hstep
    exact getD_counted (fun _ => updateCheck_counted h hclear) h
  | print bankAccountId batchId checkIds startingNumber periodOpen =>
    obtain rfl := Option.some.inj hstep
    exact getD_counted (fun _ => printChecks_counted h hclear) h
  | requeue checkIds periodOpen =>
    obtain rfl := Option.some.inj hstep
    exact getD_counted (fun _ => requeueChecks_counted h) h
  | reprint batchId periodOpen =>
    obtain rfl := Option.some.inj hstep
    exact getD_counted (fun _ => reprintBatch_counted h) h
  | refund input strictAccount debitAccountId accepted =>
    obtain rfl := Option.some.inj hstep
    exact getD_counted (fun _ => createCustomerRefund_counted h hclear) h
  | void checkId accepted =>
    obtain rfl := Option.some.inj hstep
    exact getD_counted (fun _ => voidCheck_counted h) h

theorem counted_start (h : start.checks = []) : Counted isBank start where
  ids := by
    rw [h]
    exact List.nodup_nil
  fresh c hc := absurd (h ▸ hc) List.not_mem_nil
  below a _ n c hc := absurd (h ▸ hc) List.not_mem_nil
  once a _ n c hc := absurd (h ▸ hc) List.not_mem_nil

/-- In a run whose calls are clear of the bank accounts they do not look at, no check number is held
twice on a bank account, and the next one is free. -/
theorem check_numbers_once (hstart : start.checks = []) {actions : List CheckAction}
    (hrun : run (checkStep chart) start actions = some s')
    (hclear : RunMeets (checkStep chart) (fun s action => action.clear isBank s = true) start actions) :
    NumbersOnce isBank s' := by
  have hcounted : Counted isBank s' :=
    run_keeps_of (fun s action s' hs hcond hstep => checkStep_counted action hs hcond hstep) hrun hclear
      (counted_start hstart)
  exact hcounted.numbersOnce

end Runs

section Example

def supplyChart : Chart where
  isAsset a := a = "checking" || a = "savings"
  isBank a := a = "checking" || a = "savings"

def supplyBody (bankAccountId : Id) : CheckBody where
  bankAccountId := bankAccountId
  contactId := none
  payeeNameOnCheck := "Supplier"
  payeeAddress := none
  txnDate := "2026-01-05"
  amount := 25
  printedMemo := none
  memo := none
  lines := [{ accountId := "supplies", amount := 25, contactId := none, isBillable := false }]
  checkNumber := none

def writeSupplies (bankAccountId : Id) (printLater : Bool) : CheckAction :=
  .create { supplyBody bankAccountId with printLater := printLater } ⟨true, true, []⟩ false

def editSupplies (bankAccountId : Id) : CheckAction :=
  .update 0 { supplyBody bankAccountId with printLater := none, printedCheckChange := none } ⟨true, true, []⟩

/-- A check is written, edited and voided, and one is printed. -/
def editedRun : List CheckAction :=
  [writeSupplies "checking" false, editSupplies "checking", writeSupplies "checking" true,
    .print "checking" "batch" [1] 1002 true, .void 0 true]

theorem editedRun_numbers_once : ∃ s', run (checkStep supplyChart) {} editedRun = some s' ∧
    NumbersOnce supplyChart.isBank s' := by
  refine ⟨_, rfl, ?_⟩
  have hrun : run (checkStep supplyChart) {} editedRun = some _ := rfl
  exact check_numbers_once rfl hrun (by decide +kernel)

/-- A check keeps its number on another account, and the counter of that account then hands it out. -/
theorem movedCheck_number_twice : ∃ s', run (checkStep supplyChart) {}
      [writeSupplies "checking" false, editSupplies "savings", writeSupplies "savings" false] = some s' ∧
    ¬NumbersOnce supplyChart.isBank s' :=
  ⟨_, rfl, fun h => absurd (h.once "savings" rfl 1001) (by decide +kernel)⟩

end Example

end Checks

end MyBooks
