import MyBooks.RowClaims

/-!
# Verdicts on rows

What the rules by keys make of a row depends on the items and on what the other rows hold, not on
the order of the rows: every row has a `verdict` of its own, and it is classified as its verdict
says (`plan_follows`).
-/

namespace MyBooks.ImportRows

open ImportKeys

/-! ## Verdicts -/

/-- What the account has for a row's bank id, with the id where it counts. -/
inductive ByBank where
  | held (e : ExistingItem) (fitid : CodeUnits)
  | other (e : ExistingItem)
  | trusted (fitid : CodeUnits)
  | unknown

/-- What the rules by keys make of a row. -/
inductive Verdict where
  | duplicate
  | changed (e : ExistingItem)
  | undecided

def ByBank.trustedId : ByBank → Option CodeUnits
  | .trusted f => some f
  | _ => none

/-- The amount of an item and a date near its own. -/
def RowState.sameAs (s : RowState) (e : ExistingItem) : Bool :=
  dayDiff s.row.date e.date ≤ FITID_DAYS && e.amount = s.keyed.canonicalAmount

/-- A date near that of an item, and its description. -/
def RowState.isLike (nfc : CodeUnits → CodeUnits) (s : RowState) (e : ExistingItem) : Bool :=
  dayDiff s.row.date e.date ≤ FITID_DAYS &&
    descriptionsMatch s.keyed.normDescription (norm nfc (units e.description))

/-- Two bank ids are two transactions. -/
def otherId (fitid : Option CodeUnits) (e : ExistingItem) : Bool :=
  given fitid && given e.fitid && e.fitid != fitid

section Verdicts

variable (nfc : CodeUnits → CodeUnits) (fitids : List (Option CodeUnits))
  (items : List ExistingItem) (ss : List RowState)

def byBank (s : RowState) : ByBank :=
  match s.fitid with
  | none => .unknown
  | some f =>
    if 1 < fitids.count (some f) then .unknown
    else
      match oldest (fun it => it.fitid = some f) items with
      | none => .trusted f
      | some e => if s.sameAs e then .held e f else .other e

/-- The item of a row's key. -/
def keyTwin (s : RowState) : Option ExistingItem :=
  oldest (fun it => it.rowKey = some s.keyed.rowKey) items

def heldId (s : RowState) : Option CodeUnits :=
  match byBank fitids items s with
  | .held e _ => some e.id
  | _ => none

/-- The item that a row claims by its key. -/
def rowTwin (s : RowState) : Option ExistingItem :=
  if (heldId fitids items s).isSome then none
  else (keyTwin items s).filter fun e => !otherId (byBank fitids items s).trustedId e

/-- The items held by bank ids. -/
def heldIds : List CodeUnits := ss.filterMap (heldId fitids items)

/-- The items held by bank ids or row keys. -/
def takenIds : List CodeUnits :=
  heldIds fitids items ss ++ ss.filterMap fun s => (rowTwin fitids items s).map (·.id)

/-- A row that no rule has settled before the changed ones are looked for. -/
def lateVerdict (s : RowState) : Verdict :=
  match byBank fitids items s with
  | .other e =>
    if !(takenIds fitids items ss).contains e.id && s.isLike nfc e then .changed e else .undecided
  | _ => .undecided

def verdict (s : RowState) : Verdict :=
  if (heldId fitids items s).isSome then .duplicate
  else
    match rowTwin fitids items s with
    | some e =>
      if (heldIds fitids items ss).contains e.id then lateVerdict nfc fitids items ss s
      else .duplicate
    | none => lateVerdict nfc fitids items ss s

end Verdicts

/-- The state of a row that its bank id has been looked up for. -/
def RowState.afterBank (sha256 : CodeUnits → CodeUnits) (s : RowState) : ByBank → RowState
  | .held e f =>
    { s with out := some ⟨.duplicate, some .sameBankId, some e, some f, fitidKey sha256 f⟩ }
  | .other e => { s with sameFitid := some e }
  | .trusted f => { s with trusted := some f }
  | .unknown =>
    { s with
      fallbackReason := if s.fitid.isSome then some .repeatedBankId else s.fallbackReason }

/-- A state before any rule, of a row of the request. -/
structure RowState.Start (fitids : List (Option CodeUnits)) (keyed : List KeyedRow) (s : RowState) :
    Prop where
  out : s.out = none
  trusted : s.trusted = none
  sameFitid : s.sameFitid = none
  fitid : s.fitid ∈ fitids
  keyed : s.keyed ∈ keyed

def fitidsOf (rows : List BatchRowInput) : List (Option CodeUnits) :=
  rows.map fun r => cleanFitid r.fitid

section Settled

variable {nfc sha256 : CodeUnits → CodeUnits} {items : List ExistingItem}
  {rows : List BatchRowInput} {keyed : List KeyedRow} {s : RowState} {used : List CodeUnits}

theorem sameBankId_eq (hs : s.Start (fitidsOf rows) keyed) :
    sameBankId sha256 (fitidsOf rows) (lookups items rows keyed) used s =
      (match byBank (fitidsOf rows) items s with
        | .held e _ => e.id :: used
        | _ => used,
        s.afterBank sha256 (byBank (fitidsOf rows) items s)) := by
  have hfitid := hs.fitid
  obtain ⟨row, k, fitid, out, reason, trusted, sameFitid⟩ := s
  unfold sameBankId byBank
  cases fitid with
  | none => rfl
  | some f =>
    simp only []
    split_ifs with hcount
    · rfl
    · rw [byFitid_oldest hfitid]
      cases oldest (fun it => it.fitid = some f) items with
      | none => rfl
      | some e =>
        simp only [RowState.sameAs, Bool.and_eq_true_iff, decide_eq_true_eq]
        split_ifs <;> rfl

end Settled

/-- The states the rows of a request start in. -/
def BatchInput.states (nfc sha256 : CodeUnits → CodeUnits) (input : BatchInput) : List RowState :=
  startStates input.rows (input.keyed nfc sha256)

section States

variable {nfc sha256 : CodeUnits → CodeUnits} {input : BatchInput}

theorem length_keyed : (input.keyed nfc sha256).length = input.rows.length := by
  rw [BatchInput.keyed, keyRows, length_keyRowsFrom, List.length_map]

theorem states_fitid : (input.states nfc sha256).map (·.fitid) = fitidsOf input.rows := by
  rw [BatchInput.states, startStates, List.map_map, fitidsOf]
  refine Eq.trans (List.map_congr_left fun p _ => ?_)
    ((List.map_map (g := fun r : BatchRowInput => cleanFitid r.fitid)).symm.trans
      (congrArg _ (List.map_fst_zip length_keyed.ge)))
  rfl

theorem states_keyed : (input.states nfc sha256).map (·.keyed) = input.keyed nfc sha256 := by
  rw [BatchInput.states, startStates, List.map_map]
  exact (List.map_congr_left fun p _ => rfl).trans (List.map_snd_zip length_keyed.le)

theorem states_start {s : RowState} (hs : s ∈ input.states nfc sha256) :
    s.Start (fitidsOf input.rows) (input.keyed nfc sha256) := by
  have hfitid := List.mem_map_of_mem (f := (·.fitid)) hs
  have hkeyed := List.mem_map_of_mem (f := (·.keyed)) hs
  rw [states_fitid] at hfitid
  rw [states_keyed] at hkeyed
  obtain ⟨p, -, rfl⟩ := List.mem_map.mp hs
  exact ⟨rfl, rfl, rfl, hfitid, hkeyed⟩

variable (nfc input) in
theorem keyed_keys (hsha : Function.Injective sha256) :
    ((input.keyed nfc sha256).map (·.rowKey)).Nodup ∧
      ∀ k ∈ input.keyed nfc sha256, IsRowKey sha256 [] k.rowKey :=
  keyRowsFrom_keys hsha _ _

theorem states_nodup (hsha : Function.Injective sha256) :
    ((input.states nfc sha256).map (·.keyed.rowKey)).Nodup := by
  have h := (keyed_keys nfc input hsha).1
  rw [← states_keyed, List.map_map] at h
  exact h

theorem states_rowKey (hsha : Function.Injective sha256) {s : RowState}
    (hs : s ∈ input.states nfc sha256) : IsRowKey sha256 [] s.keyed.rowKey :=
  (keyed_keys nfc input hsha).2 _ (states_start hs).keyed

theorem pairwise_count {α : Type} [BEq α] [LawfulBEq α] (l : List α) :
    l.Pairwise fun a b => a = b → 1 < l.count a := by
  refine List.pairwise_iff_forall_sublist.mpr fun {a b} h heq => ?_
  subst heq
  have hle := h.count_le a
  rw [List.count_cons_self, List.count_cons_self] at hle
  omega

/-- Two rows whose bank id occurs once have different bank ids. -/
theorem states_pairwise : (input.states nfc sha256).Pairwise fun s t =>
    s.fitid = t.fitid → 1 < (fitidsOf input.rows).count s.fitid := by
  have h := pairwise_count ((input.states nfc sha256).map (·.fitid))
  rw [List.pairwise_map, states_fitid] at h
  exact h

end States

/-! ## The rules one after the other -/

section Rules

variable {nfc sha256 : CodeUnits → CodeUnits} {items : List ExistingItem} {input : BatchInput}

/-- What a row claims by its key, once its bank id has been looked up. -/
def rowClaim (look : Lookups) (s : RowState) : Option (CodeUnits × RowState) :=
  match s.out, look.byKey.get? s.keyed.rowKey with
  | none, some e =>
    if otherId s.trusted e then none
    else some (e.id,
      { s with out := some ⟨.duplicate, some .sameRow, some e, s.trusted, s.keyed.rowKey⟩ })
  | _, _ => none

def changedClaim (nfc : CodeUnits → CodeUnits) (s : RowState) : Option (CodeUnits × RowState) :=
  match s.out, s.sameFitid with
  | none, some e =>
    if s.isLike nfc e then
      some (e.id, { s with out := some ⟨.changed, none, some e, none, s.keyed.rowKey⟩ })
    else none
  | _, _ => none

def notChanged (s : RowState) : RowState :=
  match s.out, s.sameFitid with
  | none, some _ => { s with fallbackReason := some .bankIdReused }
  | _, _ => s

theorem sameRow_eq (look : Lookups) : sameRow look = claimStep (rowClaim look) id := by
  funext used s
  unfold sameRow claimStep rowClaim
  cases s.out with
  | some c => rfl
  | none =>
    cases look.byKey.get? s.keyed.rowKey with
    | none => rfl
    | some e =>
      have hother : (given s.trusted && given e.fitid && e.fitid != s.trusted) =
          otherId s.trusted e := rfl
      simp only [hother]
      cases otherId s.trusted e with
      | true => cases used.contains e.id <;> rfl
      | false => rfl

theorem changedRow_eq : changedRow nfc = claimStep (changedClaim nfc) notChanged := by
  funext used s
  unfold changedRow claimStep changedClaim notChanged
  cases s.out with
  | some c => rfl
  | none =>
    cases s.sameFitid with
    | none => rfl
    | some e =>
      have hlike : (decide (dayDiff s.row.date e.date ≤ FITID_DAYS) &&
          descriptionsMatch s.keyed.normDescription (norm nfc (units e.description))) =
          s.isLike nfc e := rfl
      simp only [Bool.and_assoc, hlike]
      cases s.isLike nfc e with
      | true =>
        simp only [Bool.and_true, if_true]
        cases used.contains e.id <;> rfl
      | false => simp only [Bool.and_false, Bool.false_eq_true, if_false]

theorem byBank_other {fitids : List (Option CodeUnits)} {s : RowState} {e : ExistingItem}
    (h : byBank fitids items s = .other e) :
    ∃ f, s.fitid = some f ∧ fitids.count (some f) ≤ 1 ∧
      oldest (fun it => it.fitid = some f) items = some e ∧ s.sameAs e = false := by
  unfold byBank at h
  split at h
  · cases h
  · rename_i f hf
    split_ifs at h with hcount
    split at h
    · cases h
    · rename_i e' he'
      split_ifs at h with hsame
      obtain rfl := ByBank.other.inj h
      exact ⟨f, hf, not_lt.mp hcount, he', by simpa using hsame⟩

theorem byBank_held {fitids : List (Option CodeUnits)} {s : RowState} {e : ExistingItem}
    {f : CodeUnits} (h : byBank fitids items s = .held e f) :
    s.fitid = some f ∧ fitids.count (some f) ≤ 1 ∧
      oldest (fun it => it.fitid = some f) items = some e ∧ s.sameAs e = true := by
  unfold byBank at h
  split at h
  · cases h
  · rename_i g hg
    split_ifs at h with hcount
    split at h
    · cases h
    · rename_i e' he'
      split_ifs at h with hsame
      obtain ⟨rfl, rfl⟩ := ByBank.held.inj h
      exact ⟨hg, not_lt.mp hcount, he', hsame⟩

theorem byBank_trusted {fitids : List (Option CodeUnits)} {s : RowState} {f : CodeUnits}
    (h : byBank fitids items s = .trusted f) :
    s.fitid = some f ∧ fitids.count (some f) ≤ 1 ∧
      oldest (fun it => it.fitid = some f) items = none := by
  unfold byBank at h
  split at h
  · cases h
  · rename_i g hg
    split_ifs at h with hcount
    split at h
    · rename_i hnone
      obtain rfl := ByBank.trusted.inj h
      exact ⟨hg, not_lt.mp hcount, hnone⟩
    · split_ifs at h

theorem rowTwin_some {fitids : List (Option CodeUnits)} {s : RowState} {e : ExistingItem}
    (h : rowTwin fitids items s = some e) :
    keyTwin items s = some e ∧ otherId (byBank fitids items s).trustedId e = false ∧
      heldId fitids items s = none := by
  unfold rowTwin at h
  split_ifs at h with hheld
  obtain ⟨htwin, hother⟩ := Option.filter_eq_some_iff.mp h
  exact ⟨htwin, by simpa using hother, by simpa using hheld⟩

variable (sha256) in
/-- A row that its bank id has not settled. -/
theorem afterBank_open {fitids : List (Option CodeUnits)} {keyed : List KeyedRow} {s : RowState}
    (hs : s.Start fitids keyed) (hheld : heldId fitids items s = none) :
    (s.afterBank sha256 (byBank fitids items s)).out = none ∧
      (s.afterBank sha256 (byBank fitids items s)).trusted =
        (byBank fitids items s).trustedId := by
  unfold heldId at hheld
  cases hb : byBank fitids items s with
  | held e f => simp [hb] at hheld
  | other e => exact ⟨hs.out, hs.trusted⟩
  | trusted f => exact ⟨hs.out, rfl⟩
  | unknown => exact ⟨hs.out, hs.trusted⟩

variable (sha256) in
theorem afterBank_held {fitids : List (Option CodeUnits)} {s : RowState}
    (hheld : (heldId fitids items s).isSome) :
    ∃ c, (s.afterBank sha256 (byBank fitids items s)).out = some c ∧ c.status = .duplicate := by
  unfold heldId at hheld
  split at hheld
  · rename_i e f hb
    rw [hb]
    exact ⟨_, rfl, rfl⟩
  · cases hheld

@[simp] theorem afterBank_keyed {s : RowState} {b : ByBank} :
    (s.afterBank sha256 b).keyed = s.keyed := by
  cases b <;> rfl

@[simp] theorem afterBank_row {s : RowState} {b : ByBank} :
    (s.afterBank sha256 b).row = s.row := by
  cases b <;> rfl

variable (sha256 items) in
theorem sweep_sameBankId {rows : List BatchRowInput} {keyed : List KeyedRow} :
    ∀ {ss : List RowState} (used : List CodeUnits), (∀ s ∈ ss, s.Start (fitidsOf rows) keyed) →
      (sweep (sameBankId sha256 (fitidsOf rows) (lookups items rows keyed)) used ss).2 =
          ss.map (fun s => s.afterBank sha256 (byBank (fitidsOf rows) items s)) ∧
        ∀ id, id ∈ (sweep (sameBankId sha256 (fitidsOf rows) (lookups items rows keyed)) used
          ss).1 ↔ id ∈ used ∨ id ∈ heldIds (fitidsOf rows) items ss
  | [], used, _ => by simp [sweep, heldIds]
  | s :: ss, used, h => by
    simp only [sweep]
    rw [sameBankId_eq (h s List.mem_cons_self)]
    obtain ⟨hout, hused⟩ := sweep_sameBankId
      (match byBank (fitidsOf rows) items s with
        | .held e _ => e.id :: used
        | _ => used) fun s' hs' => h s' (List.mem_cons_of_mem _ hs')
    refine ⟨by rw [List.map_cons, ← hout], fun id => ?_⟩
    rw [hused, heldIds, heldIds, List.filterMap_cons, heldId]
    cases byBank (fitidsOf rows) items s <;> simp only [List.mem_cons]
    tauto

end Rules

/-! ## Verdicts on all rows -/

/-- The key of a new item of a row. -/
def RowState.newKey (sha256 : CodeUnits → CodeUnits) (s : RowState) (b : ByBank) : CodeUnits :=
  match b.trustedId with
  | some f => fitidKey sha256 f
  | none => s.keyed.rowKey

/-- A row is classified as its verdict says. -/
def Verdict.Agrees (sha256 : CodeUnits → CodeUnits) (s : RowState) (b : ByBank) :
    Verdict → Classified → Prop
  | .duplicate, c => c.status = .duplicate
  | .changed e, c => c = ⟨.changed, none, some e, none, s.keyed.rowKey⟩
  | .undecided, c => (c.status = .new ∨ c.status = .possibleDuplicate) ∧
      c.fitidUsed = b.trustedId ∧ c.dedupeKey = s.newKey sha256 b

/-- A row after the rules by keys, `held` and `taken` being what is held by bank ids and what is
taken at all. -/
def settled (nfc sha256 : CodeUnits → CodeUnits) (look : Lookups) (held taken : List CodeUnits)
    (b : ByBank) (s : RowState) : RowState :=
  (claimStep (changedClaim nfc) notChanged taken
    (claimStep (rowClaim look) id held (s.afterBank sha256 b)).2).2

section All

variable {nfc sha256 : CodeUnits → CodeUnits} {items : List ExistingItem} {input : BatchInput}
  {s : RowState} {held taken : List CodeUnits}

theorem byKey_keyTwin (hsha : Function.Injective sha256) (hids : (items.map (·.id)).Nodup)
    (hkeyed : ∀ it ∈ items, it.Keyed sha256) (hs : s ∈ input.states nfc sha256) :
    (lookups items input.rows (input.keyed nfc sha256)).byKey.get? s.keyed.rowKey =
      keyTwin items s := by
  rw [byKey_oldest hids (List.mem_map_of_mem (states_start hs).keyed), keyTwin, oldest, oldest]
  congr 2
  refine List.filter_congr fun it hit => ?_
  exact decide_eq_decide.mpr ((hkeyed it hit).rowKey_of hsha (states_rowKey hsha hs))

theorem rowClaim_afterBank (hsha : Function.Injective sha256) (hids : (items.map (·.id)).Nodup)
    (hkeyed : ∀ it ∈ items, it.Keyed sha256) (hs : s ∈ input.states nfc sha256) :
    let s' := s.afterBank sha256 (byBank (fitidsOf input.rows) items s)
    rowClaim (lookups items input.rows (input.keyed nfc sha256)) s' =
      (rowTwin (fitidsOf input.rows) items s).map fun e =>
        (e.id, { s' with
          out := some ⟨.duplicate, some .sameRow, some e, s'.trusted, s'.keyed.rowKey⟩ }) := by
  intro s'
  have hget : (lookups items input.rows (input.keyed nfc sha256)).byKey.get? s'.keyed.rowKey =
      keyTwin items s := by
    rw [afterBank_keyed]
    exact byKey_keyTwin hsha hids hkeyed hs
  unfold rowClaim rowTwin
  split_ifs with hheld
  · obtain ⟨c, hout, -⟩ := afterBank_held sha256 hheld
    rw [hout]
    rfl
  · obtain ⟨hout, htrusted⟩ := afterBank_open sha256 (states_start hs)
      (by simpa using hheld)
    rw [hout, hget, ← htrusted]
    cases keyTwin items s with
    | none => rfl
    | some e =>
      simp only [Option.filter_some]
      cases otherId s'.trusted e <;> rfl

variable (held) in
/-- A row after the first two rules. -/
theorem afterRow_out (hsha : Function.Injective sha256) (hids : (items.map (·.id)).Nodup)
    (hkeyed : ∀ it ∈ items, it.Keyed sha256) (hs : s ∈ input.states nfc sha256) :
    let s' := s.afterBank sha256 (byBank (fitidsOf input.rows) items s)
    let s'' := (claimStep (rowClaim (lookups items input.rows (input.keyed nfc sha256))) id held
      s').2
    (s'' = s' ∧ ∀ e ∈ rowTwin (fitidsOf input.rows) items s, e.id ∈ held) ∨
      ∃ c, s''.out = some c ∧ c.status = .duplicate ∧
        ∃ e ∈ rowTwin (fitidsOf input.rows) items s, e.id ∉ held := by
  intro s' s''
  have hclaim := rowClaim_afterBank hsha hids hkeyed hs
  simp only [s'', claimStep]
  rw [hclaim]
  cases htwin : rowTwin (fitidsOf input.rows) items s with
  | none => exact .inl ⟨rfl, nofun⟩
  | some e =>
    simp only [Option.map_some, List.contains_iff_mem]
    split_ifs with hmem
    · exact .inl ⟨rfl, fun e' he' => Option.some.inj he' ▸ hmem⟩
    · exact .inr ⟨_, rfl, rfl, e, rfl, hmem⟩

variable (sha256) in
theorem afterBank_sameFitid {b : ByBank} (hs : s.sameFitid = none) :
    (s.afterBank sha256 b).sameFitid = match b with
      | .other e => some e
      | _ => none := by
  cases b
  · exact hs
  · rfl
  · exact hs
  · exact hs

/-- The second rule sets nothing but what has been found. -/
theorem claimStep_rowClaim (look : Lookups) (held : List CodeUnits) (s : RowState) :
    (claimStep (rowClaim look) id held s).2 = s ∨
      ∃ c, (claimStep (rowClaim look) id held s).2 = { s with out := some c } := by
  unfold claimStep
  split
  · rename_i k s' hclaim
    split_ifs
    · exact .inl rfl
    · refine .inr ?_
      unfold rowClaim at hclaim
      split at hclaim
      · split_ifs at hclaim
        obtain ⟨-, rfl⟩ := Prod.mk.inj (Option.some.inj hclaim)
        exact ⟨_, rfl⟩
      · cases hclaim
  · exact .inl rfl

variable (nfc) in
theorem claimStep_changedClaim (taken : List CodeUnits) (s : RowState) :
    (claimStep (changedClaim nfc) notChanged taken s).2.row = s.row ∧
      (claimStep (changedClaim nfc) notChanged taken s).2.keyed = s.keyed ∧
      (claimStep (changedClaim nfc) notChanged taken s).2.trusted = s.trusted := by
  have hmiss : (notChanged s).row = s.row ∧ (notChanged s).keyed = s.keyed ∧
      (notChanged s).trusted = s.trusted := by
    unfold notChanged
    split <;> exact ⟨rfl, rfl, rfl⟩
  unfold claimStep
  split
  · rename_i k s' hclaim
    split_ifs
    · exact hmiss
    · unfold changedClaim at hclaim
      split at hclaim
      · split_ifs at hclaim
        obtain ⟨-, rfl⟩ := Prod.mk.inj (Option.some.inj hclaim)
        exact ⟨rfl, rfl, rfl⟩
      · cases hclaim
  · exact hmiss

theorem settled_row {look : Lookups} {b : ByBank} :
    (settled nfc sha256 look held taken b s).row = s.row ∧
      (settled nfc sha256 look held taken b s).keyed = s.keyed ∧
      (settled nfc sha256 look held taken b s).trusted = (s.afterBank sha256 b).trusted := by
  obtain ⟨hrow, hkeyed, htrusted⟩ := claimStep_changedClaim nfc taken
    (claimStep (rowClaim look) id held (s.afterBank sha256 b)).2
  rw [settled, hrow, hkeyed, htrusted]
  rcases claimStep_rowClaim look held (s.afterBank sha256 b) with h | ⟨c, h⟩ <;> rw [h] <;>
    exact ⟨afterBank_row, afterBank_keyed, rfl⟩

/-- What a row claims as changed. -/
theorem changedClaim_other (hs : s.sameFitid = none) {look : Lookups} {b : ByBank}
    {p : CodeUnits × RowState} (hp : p ∈ changedClaim nfc
      (claimStep (rowClaim look) id held (s.afterBank sha256 b)).2) :
    ∃ e, b = .other e ∧ p.1 = e.id := by
  have hsame : (claimStep (rowClaim look) id held (s.afterBank sha256 b)).2.sameFitid =
      (s.afterBank sha256 b).sameFitid := by
    rcases claimStep_rowClaim look held (s.afterBank sha256 b) with h | ⟨c, h⟩ <;> rw [h]
  unfold changedClaim at hp
  split at hp
  · rename_i e hout he
    rw [hsame, afterBank_sameFitid _ hs] at he
    split at he
    · split_ifs at hp
      · obtain rfl := Option.some.inj hp
        obtain rfl := Option.some.inj he
        exact ⟨_, rfl, rfl⟩
      · cases hp
    · cases he
  · cases hp

theorem mem_heldIds {fitids : List (Option CodeUnits)} {ss : List RowState} {id : CodeUnits} :
    id ∈ heldIds fitids items ss ↔
      ∃ t ∈ ss, ∃ e f, byBank fitids items t = .held e f ∧ e.id = id := by
  rw [heldIds, List.mem_filterMap]
  refine exists_congr fun t => and_congr_right fun _ => ?_
  rw [heldId]
  cases byBank fitids items t <;> simp

theorem mem_takenIds {fitids : List (Option CodeUnits)} {ss : List RowState} {id : CodeUnits} :
    id ∈ takenIds fitids items ss ↔ id ∈ heldIds fitids items ss ∨
      ∃ t ∈ ss, ∃ e, rowTwin fitids items t = some e ∧ e.id = id := by
  simp [takenIds]

variable (nfc input) in
/-- The rules by keys, row by row. -/
theorem byKeys_eq_map (hsha : Function.Injective sha256) (hids : (items.map (·.id)).Nodup)
    (hkeyed : ∀ it ∈ items, it.Keyed sha256) :
    ∃ held taken,
      (∀ id, id ∈ held ↔ id ∈ heldIds (fitidsOf input.rows) items (input.states nfc sha256)) ∧
      (∀ id, id ∈ taken ↔ id ∈ takenIds (fitidsOf input.rows) items (input.states nfc sha256)) ∧
      (byKeys nfc sha256 input.rows (input.keyed nfc sha256)
        (lookups items input.rows (input.keyed nfc sha256))).2 =
        (input.states nfc sha256).map fun s => settled nfc sha256
          (lookups items input.rows (input.keyed nfc sha256)) held taken
          (byBank (fitidsOf input.rows) items s) s := by
  set look := lookups items input.rows (input.keyed nfc sha256) with hlook
  obtain ⟨hii, hheld⟩ := sweep_sameBankId sha256 items []
    fun s (hs : s ∈ input.states nfc sha256) => states_start hs
  rw [← hlook] at hii hheld
  simp only [List.not_mem_nil, false_or] at hheld
  simp only [byKeys, sameRow_eq, changedRow_eq]
  rw [← fitidsOf, ← BatchInput.states, hii]
  set held := (sweep (sameBankId sha256 (fitidsOf input.rows) look) []
    (input.states nfc sha256)).1
  -- No two rows claim one item by its key: it has one.
  have hrows := @sweep_claimStep _ _ _ _ _ (rowClaim look) id
    ((input.states nfc sha256).map fun s =>
      s.afterBank sha256 (byBank (fitidsOf input.rows) items s)) held (by
    refine List.pairwise_map.mpr ((List.pairwise_map.mp (states_nodup hsha)).imp_of_mem ?_)
    intro s t hs ht hne p hp q hq heq
    rw [hlook, rowClaim_afterBank hsha hids hkeyed hs, Option.mem_def,
      Option.map_eq_some_iff] at hp
    rw [hlook, rowClaim_afterBank hsha hids hkeyed ht, Option.mem_def,
      Option.map_eq_some_iff] at hq
    obtain ⟨e, he, rfl⟩ := hp
    obtain ⟨e', he', rfl⟩ := hq
    obtain ⟨hmem, hkey⟩ := oldest_some (rowTwin_some he).1
    obtain ⟨hmem', hkey'⟩ := oldest_some (rowTwin_some he').1
    obtain rfl := List.inj_on_of_nodup_map hids hmem hmem' heq
    simp only [decide_eq_true_eq] at hkey hkey'
    exact hne (Option.some.inj (hkey.symm.trans hkey')))
  rw [hrows.1]
  set taken := (sweep (claimStep (rowClaim look) id) held ((input.states nfc sha256).map fun s =>
    s.afterBank sha256 (byBank (fitidsOf input.rows) items s))).1
  -- Nor as changed: a bank id that counts occurs once.
  have hchanged := @sweep_claimStep _ _ _ _ _ (changedClaim nfc) notChanged
    (((input.states nfc sha256).map fun s =>
      s.afterBank sha256 (byBank (fitidsOf input.rows) items s)).map fun s =>
        (claimStep (rowClaim look) id held s).2) taken (by
    rw [List.map_map]
    refine List.pairwise_map.mpr (states_pairwise.imp_of_mem ?_)
    intro s t hs ht hcount p hp q hq heq
    obtain ⟨e, hb, hpe⟩ := changedClaim_other (states_start hs).sameFitid hp
    obtain ⟨e', hb', hqe⟩ := changedClaim_other (states_start ht).sameFitid hq
    obtain ⟨f, hf, hle, hold, -⟩ := byBank_other hb
    obtain ⟨f', hf', -, hold', -⟩ := byBank_other hb'
    obtain ⟨hmem, hfe⟩ := oldest_some hold
    obtain ⟨hmem', hfe'⟩ := oldest_some hold'
    obtain rfl := List.inj_on_of_nodup_map hids hmem hmem' (hpe.symm.trans (heq.trans hqe))
    simp only [decide_eq_true_eq] at hfe hfe'
    have := hcount (hf.trans (hfe.symm.trans (hfe'.trans hf'.symm)))
    rw [hf] at this
    omega)
  rw [hchanged.1, List.map_map, List.map_map]
  refine ⟨held, taken, hheld, fun id => ?_, rfl⟩
  rw [hrows.2, hheld, mem_takenIds]
  refine or_congr_right ?_
  constructor
  · rintro ⟨s', hs', p, hp, rfl⟩
    obtain ⟨s, hs, rfl⟩ := List.mem_map.mp hs'
    rw [hlook, rowClaim_afterBank hsha hids hkeyed hs, Option.mem_def,
      Option.map_eq_some_iff] at hp
    obtain ⟨e, he, rfl⟩ := hp
    exact ⟨s, hs, e, he, rfl⟩
  · rintro ⟨s, hs, e, he, rfl⟩
    refine ⟨_, List.mem_map_of_mem hs, ?_⟩
    rw [hlook, rowClaim_afterBank hsha hids hkeyed hs, he]
    exact ⟨_, rfl, rfl⟩

theorem claimStep_changedClaim_some {c : Classified} (h : s.out = some c) :
    (claimStep (changedClaim nfc) notChanged taken s).2 = s := by
  simp [claimStep, changedClaim, notChanged, h]

theorem claimStep_changedClaim_none (hout : s.out = none) (hsame : s.sameFitid = none) :
    (claimStep (changedClaim nfc) notChanged taken s).2 = s := by
  simp [claimStep, changedClaim, notChanged, hout, hsame]

variable (nfc sha256) in
/-- The third rule on a row that is not yet settled. -/
theorem late_agrees {fitids : List (Option CodeUnits)} {keyed : List KeyedRow} {ss : List RowState}
    (hs : s.Start fitids keyed) (hheld : heldId fitids items s = none)
    (htaken : ∀ id, id ∈ taken ↔ id ∈ takenIds fitids items ss) :
    let s' := (claimStep (changedClaim nfc) notChanged taken
      (s.afterBank sha256 (byBank fitids items s))).2
    match lateVerdict nfc fitids items ss s with
    | .duplicate => False
    | .changed e => s'.out = some ⟨.changed, none, some e, none, s.keyed.rowKey⟩
    | .undecided => s'.out = none := by
  intro s'
  obtain ⟨hout, -⟩ := afterBank_open sha256 hs hheld
  have hsame := afterBank_sameFitid sha256 (b := byBank fitids items s) hs.sameFitid
  unfold lateVerdict
  simp only [s']
  cases hb : byBank fitids items s with
  | held e f => simp [heldId, hb] at hheld
  | other e =>
    rw [hb] at hout hsame
    have hcontains : (takenIds fitids items ss).contains e.id = taken.contains e.id := by
      rw [Bool.eq_iff_iff, List.contains_iff_mem, List.contains_iff_mem]
      exact (htaken e.id).symm
    have hlike : (s.afterBank sha256 (.other e)).isLike nfc e = s.isLike nfc e := rfl
    simp only [claimStep, changedClaim, notChanged, hout, hsame, hcontains, hlike]
    cases s.isLike nfc e <;> cases hc : taken.contains e.id <;>
      simp only [if_true, if_false, Bool.false_eq_true, Bool.not_true, Bool.not_false,
        Bool.and_true, Bool.and_false, hc]
    rfl
  | trusted f =>
    rw [hb] at hout hsame
    simp only [claimStep_changedClaim_none hout hsame, hout]
  | unknown =>
    rw [hb] at hout hsame
    simp only [claimStep_changedClaim_none hout hsame, hout]

theorem settled_agrees (hsha : Function.Injective sha256) (hids : (items.map (·.id)).Nodup)
    (hkeyed : ∀ it ∈ items, it.Keyed sha256) (hs : s ∈ input.states nfc sha256)
    (hheld : ∀ id, id ∈ held ↔ id ∈ heldIds (fitidsOf input.rows) items (input.states nfc sha256))
    (htaken : ∀ id, id ∈ taken ↔
      id ∈ takenIds (fitidsOf input.rows) items (input.states nfc sha256)) :
    let b := byBank (fitidsOf input.rows) items s
    let s' := settled nfc sha256 (lookups items input.rows (input.keyed nfc sha256)) held taken b s
    match verdict nfc (fitidsOf input.rows) items (input.states nfc sha256) s with
    | .duplicate => ∃ c, s'.out = some c ∧ c.status = .duplicate
    | .changed e => s'.out = some ⟨.changed, none, some e, none, s.keyed.rowKey⟩
    | .undecided => s'.out = none ∧ s'.trusted = b.trustedId := by
  intro b s'
  have htrusted : s'.trusted = (s.afterBank sha256 b).trusted := settled_row.2.2
  have hrow := afterRow_out held hsha hids hkeyed hs
  unfold verdict
  split_ifs with hisHeld
  · obtain ⟨c, hout, hc⟩ := afterBank_held sha256 hisHeld
    have hnone : rowTwin (fitidsOf input.rows) items s = none := if_pos hisHeld
    have hsame := (hrow.resolve_right fun ⟨_, _, _, e, he, _⟩ => by
      rw [hnone] at he
      cases he).1
    refine ⟨c, ?_, hc⟩
    simp only [s', settled]
    rw [hsame, claimStep_changedClaim_some hout, hout]
  · have hisHeld : heldId (fitidsOf input.rows) items s = none := by simpa using hisHeld
    have hlate := late_agrees nfc sha256 (states_start hs) hisHeld htaken
    obtain ⟨-, hopen⟩ := afterBank_open sha256 (states_start hs) hisHeld
    have hcase : ∀ e ∈ rowTwin (fitidsOf input.rows) items s,
        ((heldIds (fitidsOf input.rows) items (input.states nfc sha256)).contains e.id ↔
          e.id ∈ held) := fun e _ => by
      rw [List.contains_iff_mem, hheld]
    rcases hrow with ⟨hsame, hin⟩ | ⟨c, hout, hc, e, he, hmem⟩
    · have hverdict : (match rowTwin (fitidsOf input.rows) items s with
          | some e => if (heldIds (fitidsOf input.rows) items
              (input.states nfc sha256)).contains e.id then
                lateVerdict nfc (fitidsOf input.rows) items (input.states nfc sha256) s
              else .duplicate
          | none => lateVerdict nfc (fitidsOf input.rows) items (input.states nfc sha256) s) =
          lateVerdict nfc (fitidsOf input.rows) items (input.states nfc sha256) s := by
        cases htwin : rowTwin (fitidsOf input.rows) items s with
        | none => rfl
        | some e => exact if_pos ((hcase e htwin).mpr (hin e htwin))
      have hs' : s' = (claimStep (changedClaim nfc) notChanged taken
          (s.afterBank sha256 b)).2 := by
        simp only [s', settled]
        rw [hsame]
      rw [hverdict]
      rw [← hs'] at hlate
      cases hv : lateVerdict nfc (fitidsOf input.rows) items (input.states nfc sha256) s with
      | duplicate => simp [hv] at hlate
      | changed e => simpa [hv] using hlate
      | undecided => exact ⟨by simpa [hv] using hlate, htrusted.trans hopen⟩
    · rw [he]
      simp only []
      rw [if_neg fun h => hmem ((hcase e he).mp h)]
      refine ⟨c, ?_, hc⟩
      simp only [s', settled]
      rw [claimStep_changedClaim_some hout, hout]

/-- A planned row is the row of its state, classified as its verdict says. -/
structure RowPlan.Follows (nfc sha256 : CodeUnits → CodeUnits) (items : List ExistingItem)
    (input : BatchInput) (p : RowPlan) (s : RowState) : Prop where
  row : p.row = s.row
  keyed : p.keyed = s.keyed
  agrees : (verdict nfc (fitidsOf input.rows) items (input.states nfc sha256) s).Agrees sha256 s
    (byBank (fitidsOf input.rows) items s) p.classified

theorem forall₂_sweep_lookAlike {R : RowState → Classified → Prop} {bounds : Section}
    (hR : ∀ index s, R s (lookAlike sha256 bounds index s).2) :
    ∀ (ss : List RowState) (index : Index),
      List.Forall₂ R ss (sweep (lookAlike sha256 bounds) index ss).2
  | [], _ => .nil
  | s :: ss, index => .cons (hR index s) (forall₂_sweep_lookAlike hR ss _)

/-- What the search for look-alikes makes of a row: what is settled stays, the rest is new or has
one. -/
def Looked (sha256 : CodeUnits → CodeUnits) (s : RowState) (c : Classified) : Prop :=
  s.out = some c ∨ s.out = none ∧ ∃ o, c = s.classified sha256 o

theorem looked_lookAlike {bounds : Section} (index : Index) (s : RowState) :
    Looked sha256 s (lookAlike sha256 bounds index s).2 := by
  unfold lookAlike
  cases hout : s.out with
  | some c => exact .inl hout
  | none =>
    refine .inr ⟨hout, ?_⟩
    simp only []
    split
    · exact ⟨some _, rfl⟩
    · exact ⟨none, rfl⟩

theorem agrees_of_looked {s' : RowState} {c : Classified} {b : ByBank} {v : Verdict}
    (hv : match v with
      | .duplicate => ∃ c, s'.out = some c ∧ c.status = .duplicate
      | .changed e => s'.out = some ⟨.changed, none, some e, none, s.keyed.rowKey⟩
      | .undecided => s'.out = none ∧ s'.trusted = b.trustedId)
    (hkeyed : s'.keyed = s.keyed) (hc : Looked sha256 s' c) : v.Agrees sha256 s b c := by
  cases v with
  | duplicate =>
    obtain ⟨c', hout, hc'⟩ := hv
    rcases hc with hout' | ⟨hnone, -⟩
    · rw [hout, Option.some.injEq] at hout'
      exact hout' ▸ hc'
    · rw [hout] at hnone
      cases hnone
  | changed e =>
    have hout : s'.out = some ⟨.changed, none, some e, none, s.keyed.rowKey⟩ := hv
    rcases hc with hout' | ⟨hnone, -⟩
    · rw [hout, Option.some.injEq] at hout'
      exact hout'.symm
    · rw [hout] at hnone
      cases hnone
  | undecided =>
    obtain ⟨hnone, htrusted⟩ := hv
    rcases hc with hout' | ⟨-, o, rfl⟩
    · rw [hnone] at hout'
      cases hout'
    · have hkey : s'.dedupeKey sha256 = s.newKey sha256 b :=
        congrArg₂ (fun (t : Option CodeUnits) (k : KeyedRow) => match t with
          | some f => fitidKey sha256 f
          | none => k.rowKey) htrusted hkeyed
      cases o with
      | none => exact ⟨.inl rfl, htrusted, hkey⟩
      | some it => exact ⟨.inr rfl, htrusted, hkey⟩

theorem forall₂_plans {R : RowState → Classified → Prop} :
    ∀ (rows : List BatchRowInput) (keyed : List KeyedRow) (cs : List Classified),
      List.Forall₂ R (startStates rows keyed) cs →
        List.Forall₂ (fun (p : RowPlan) s => (p.row = s.row ∧ p.keyed = s.keyed) ∧
          R s p.classified)
          ((rows.zip (keyed.zip cs)).map fun p => ⟨p.1, p.2.1, p.2.2⟩) (startStates rows keyed)
  | [], _, _, _ => by simp [startStates]
  | _ :: _, [], _, _ => by simp [startStates]
  | r :: rows, k :: keyed, [], h => by simp [startStates] at h
  | r :: rows, k :: keyed, c :: cs, h => by
    obtain ⟨hc, hcs⟩ := List.forall₂_cons.mp h
    exact .cons ⟨⟨rfl, rfl⟩, hc⟩ (forall₂_plans rows keyed cs hcs)

variable (nfc input) in
theorem plan_follows (hsha : Function.Injective sha256) (feed : List FeedItem)
    (hids : (feed.map (·.id)).Nodup) (hkeyed : ∀ it ∈ feed, it.toExistingItem.Keyed sha256) :
    List.Forall₂ (RowPlan.Follows nfc sha256 (feed.map (·.toExistingItem)) input)
      (plan nfc sha256 feed input) (input.states nfc sha256) := by
  set items := feed.map (·.toExistingItem) with hitems
  have hids' : (items.map (·.id)).Nodup := by
    rw [hitems, List.map_map]
    exact hids
  have hkeyed' : ∀ it ∈ items, it.Keyed sha256 := fun it hit => by
    obtain ⟨x, hx, rfl⟩ := List.mem_map.mp hit
    exact hkeyed x hx
  obtain ⟨held, taken, hheld, htaken, hout⟩ := byKeys_eq_map nfc input
    hsha hids' hkeyed'
  have hclassified : List.Forall₂ (fun s c => (verdict nfc (fitidsOf input.rows) items
      (input.states nfc sha256) s).Agrees sha256 s (byBank (fitidsOf input.rows) items s) c)
        (input.states nfc sha256) (classifyRows nfc sha256 input.rows (input.keyed nfc sha256)
          (lookups items input.rows (input.keyed nfc sha256)) input.bounds) := by
    rw [classifyRows, hout]
    have hlooked := forall₂_sweep_lookAlike (@looked_lookAlike sha256 input.bounds) ((input.states nfc sha256).map fun s =>
        settled nfc sha256 (lookups items input.rows (input.keyed nfc sha256)) held taken
          (byBank (fitidsOf input.rows) items s) s) (lookAlikeIndex nfc (byKeys nfc sha256
            input.rows (input.keyed nfc sha256) (lookups items input.rows (input.keyed nfc
              sha256))).1 (lookups items input.rows (input.keyed nfc sha256)).pool)
    rw [List.forall₂_map_left_iff] at hlooked
    refine ((List.forall₂_and_left _ _).mpr ⟨fun s hs => hs, hlooked⟩).imp fun s c h => ?_
    exact agrees_of_looked (settled_agrees hsha hids' hkeyed' h.1 hheld htaken) settled_row.2.1 h.2
  exact (forall₂_plans _ _ _ hclassified).imp fun p s h => ⟨h.1.1, h.1.2, h.2⟩

end All

end MyBooks.ImportRows
