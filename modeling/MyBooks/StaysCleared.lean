import MyBooks.Balances
import MyBooks.ClearedOnce

/-!
# Cleared lines stay put

A run of the store remembers the books at each completion (`Watched`). Every operation keeps the
lines that are cleared in a completed reconciliation (`KeepsLines`) when it replaces or moves none
of them: the guards ask about the transaction before a full edit, a void or a delete, but a batch
moves category lines, a partial edit replaces income and expense lines and the costing walk rewrites
derived lines unasked, and `complete` closes over rows whose line is gone or no longer posted. A
reconciliation of an income or expense account is where these lines are cleared.
-/

namespace MyBooks

/-- The line as a reconciliation sees it. -/
structure SameLine (l l' : JournalLine) : Prop where
  id : l'.id = l.id
  txn : l'.transactionId = l.transactionId
  account : l'.accountId = l.accountId
  debit : l'.debit = l.debit
  credit : l'.credit = l.credit

theorem SameLine.refl (l : JournalLine) : SameLine l l := ⟨rfl, rfl, rfl, rfl, rfl⟩

theorem SameLine.trans {l l' l'' : JournalLine} (h : SameLine l l') (h' : SameLine l' l'') :
    SameLine l l'' :=
  ⟨h'.id.trans h.id, h'.txn.trans h.txn, h'.account.trans h.account, h'.debit.trans h.debit,
    h'.credit.trans h.credit⟩

/-- The status and date of a transaction. -/
def Books.standing (b : Books) (t : Id) : Option (TxnStatus × String) :=
  (b.txns t).map fun txn => (txn.status, txn.txnDate)

/-- The lines `c` picks are there afterwards, under a header of the same status and date. -/
def KeepsLines (c : Id → Bool) (b b' : Books) : Prop :=
  ∀ l ∈ b.lines, c l.id = true → (∃ l' ∈ b'.lines, SameLine l l') ∧
    b'.standing l.transactionId = b.standing l.transactionId

section Keeps

variable {c : Id → Bool} {b b' : Books} {t : Id}

theorem KeepsLines.trans {b'' : Books} (h : KeepsLines c b b') (h' : KeepsLines c b' b'') :
    KeepsLines c b b'' := by
  intro l hl hc
  obtain ⟨⟨l', hl', hs⟩, ht⟩ := h l hl hc
  obtain ⟨⟨l'', hl'', hs'⟩, ht'⟩ := h' l' hl' (by rwa [hs.id])
  rw [hs.txn] at ht'
  exact ⟨⟨l'', hl'', hs.trans hs'⟩, ht'.trans ht⟩

/-- Another document's lines stay. -/
theorem Books.ChangesOnly.keeps (h : b.ChangesOnly t b') (hc : ∀ l ∈ b.linesOf t, c l.id = false) :
    KeepsLines c b b' := by
  intro l hl hcl
  have ht : l.transactionId ≠ t := fun ht => by
    rw [hc l (Books.mem_linesOf.mpr ⟨hl, ht⟩)] at hcl
    cases hcl
  exact ⟨⟨l, (h.mem ht).mpr hl, .refl l⟩, by rw [Books.standing, h.txns _ ht, Books.standing]⟩

/-- Lines may change what a reconciliation does not see. -/
theorem keepsLines_map {f : JournalLine → JournalLine} (hlines : b'.lines = b.lines.map f)
    (hstanding : ∀ t, b'.standing t = b.standing t)
    (hf : ∀ l ∈ b.lines, c l.id = true → SameLine l (f l)) : KeepsLines c b b' := by
  intro l hl hc
  refine ⟨⟨f l, ?_, hf l hl hc⟩, hstanding _⟩
  rw [hlines]
  exact List.mem_map_of_mem hl

theorem keepsLines_same (hlines : b'.lines = b.lines)
    (hstanding : ∀ t, b'.standing t = b.standing t) : KeepsLines c b b' :=
  fun l hl _ => ⟨⟨l, by rwa [hlines], .refl l⟩, hstanding _⟩

theorem setTxn_standing {txn txn' : Txn} (ht : b.txns t = some txn)
    (hs : txn'.status = txn.status) (hd : txn'.txnDate = txn.txnDate) (t' : Id) :
    (b.setTxn t txn').standing t' = b.standing t' := by
  by_cases h : t' = t
  · subst h
    simp [Books.standing, ht, hs, hd]
  · simp [Books.standing, Books.setTxn, h]

end Keeps

section Costing

variable {c : Id → Bool} {b b' : Books} {k : Costing}

/-- The walk names none of the derived lines `c` picks. -/
def CostingKeeps (c : Id → Bool) (b : Books) (costing : Option Costing) : Prop :=
  ∀ k ∈ costing, ∀ l ∈ b.lines, l.derived = true → k.names l = true → c l.id = false

instance (c : Id → Bool) (b : Books) :
    ∀ costing : Option Costing, Decidable (CostingKeeps c b costing)
  | none => isTrue (by simp [CostingKeeps])
  | some k => decidable_of_iff
      (∀ l ∈ b.lines, l.derived = true → k.names l = true → c l.id = false)
      (by simp [CostingKeeps])

theorem names_of_deletes {l : JournalLine} (h : k.deletes b l = true) :
    k.names l = true ∧ l.derived = true := by
  simp only [Costing.deletes, decide_eq_true_eq] at h
  exact ⟨by simp [Costing.names, h.1], (rewrites_iff.mp h.2).1⟩

theorem rewritten_of_not_named {l : JournalLine} (h : k.names l = false ∨ l.derived = false) :
    k.rewritten b l = l := by
  rcases h with h | h
  · have hfind : k.update.find? (fun u => u.1 = l.id) = none := by
      rw [List.find?_eq_none]
      intro u hu hid
      have hnames : k.names l = true := by
        simp only [Costing.names, decide_eq_true_eq]
        exact .inr (List.any_eq_true.mpr ⟨u, hu, hid⟩)
      rw [h] at hnames
      cases hnames
    simp [Costing.rewritten, Costing.amounts, hfind]
  · exact rewritten_of_not (by simp [Books.rewrites, h])

theorem costed_keeps {costing : Option Costing} (hk : CostingKeeps c b costing)
    (h : costed b costing = .ok b') : KeepsLines c b b' := by
  cases costing with
  | none =>
    rw [← Except.ok.inj h]
    exact keepsLines_same rfl fun _ => rfl
  | some k =>
    obtain ⟨-, -, -, htxns, hlines, -⟩ := applyCosting_ok (c := k) h
    intro l hl hc
    have hnot : k.names l = false ∨ l.derived = false := by
      by_contra hboth
      simp only [not_or, Bool.not_eq_false] at hboth
      rw [hk k rfl l hl hboth.2 hboth.1] at hc
      cases hc
    refine ⟨⟨l, ?_, .refl l⟩, by rw [Books.standing, htxns, Books.standing]⟩
    rw [hlines]
    refine List.mem_append_left _ (List.mem_map.mpr ⟨l, ?_, rewritten_of_not_named hnot⟩)
    refine List.mem_filter.mpr ⟨hl, ?_⟩
    have hdel : ¬k.deletes b l = true := fun hdel => by
      obtain ⟨hn, hd⟩ := names_of_deletes hdel
      rcases hnot with h | h
      · rw [h] at hn
        cases hn
      · rw [h] at hd
        cases hd
    simpa using hdel

theorem costed_post_keeps {costing : Option Costing} {entries : List Entry}
    (hk : CostingKeeps c b costing) (h : costed (b.post entries) costing = .ok b') :
    KeepsLines c b b' :=
  costed_keeps (b := b.post entries) hk h

theorem CostingKeeps.of_sublist {costing : Option Costing} (h : CostingKeeps c b costing)
    (hsub : (b'.lines.filter (·.derived)).Sublist (b.lines.filter (·.derived))) :
    CostingKeeps c b' costing := by
  intro k hk l hl hd hn
  have hmem := hsub.subset (List.mem_filter.mpr ⟨hl, hd⟩)
  exact h k hk l (List.mem_of_mem_filter hmem) hd hn

end Costing

section Bulk

variable {c : Id → Bool} {b b' : Books} {t : Id} {input : BulkInput} {facts : BulkFacts}
  {recs : Recs}

/-- The one category line a batch would move off its account is not one `c` picks. -/
def SpareCategory (c : Id → Bool) (input : BulkInput) (b : Books) (t : Id) : Prop :=
  ∀ l ∈ b.categoryLines t, b.categoryLines t = [l] → l.billed = false →
    input.setCategoryAccountId ≠ none → input.setCategoryAccountId ≠ some l.accountId →
    c l.id = false

/-- The batch works on the transaction at all. -/
def checked (input : BulkInput) (facts : BulkFacts) (b : Books) (t : Id) : Bool :=
  (b.txns t).any fun txn => bulkCheck input facts t txn = .ok none

theorem categoryLines_map {f : JournalLine → JournalLine} (hlines : b'.lines = b.lines.map f)
    (hacc : b'.accounts = b.accounts)
    (hf : ∀ l, (f l).transactionId = l.transactionId ∧ (f l).accountId = l.accountId) :
    b'.categoryLines t = (b.categoryLines t).map f := by
  rw [Books.categoryLines, Books.categoryLines, Books.linesOf, Books.linesOf, hlines,
    List.filter_map, List.filter_map, List.filter_filter, List.filter_filter]
  refine congrArg (List.map f) (List.filter_congr fun l _ => ?_)
  simp only [Function.comp_apply, (hf l).1, (hf l).2, hacc]

theorem SpareCategory.map {f : JournalLine → JournalLine} (h : SpareCategory c input b t)
    (hlines : b'.lines = b.lines.map f) (hacc : b'.accounts = b.accounts)
    (hf : ∀ l, (f l).id = l.id ∧ (f l).transactionId = l.transactionId ∧
      (f l).accountId = l.accountId ∧ (f l).billed = l.billed) : SpareCategory c input b' t := by
  have hcat := categoryLines_map (t := t) hlines hacc fun l => ⟨(hf l).2.1, (hf l).2.2.1⟩
  intro l' _ hone hbilled hset hne
  rw [hcat, List.map_eq_singleton_iff] at hone
  obtain ⟨l, hl, rfl⟩ := hone
  rw [(hf l).2.2.2] at hbilled
  rw [(hf l).2.2.1] at hne
  rw [(hf l).1]
  exact h l (by rw [hl]; exact List.mem_singleton_self l) hl hbilled hset hne

/-- Once its category line has moved, the transaction has none left to move. -/
theorem spareCategory_moved {posted : Bool} {a : Id} {l : JournalLine} {out into : Entry}
    (hset : input.setCategoryAccountId = some a) (hinto : into.accountId = a)
    (hone : b.categoryLines t = [l]) :
    SpareCategory c input (b.moveLines posted [l.id] out into) t := by
  have hacc : (b.moveLines posted [l.id] out into).accounts = b.accounts := by
    unfold Books.moveLines
    split_ifs <;> rfl
  intro l' hl' _ _ _ hne
  exfalso
  obtain ⟨hmem, hcat⟩ := List.mem_filter.mp hl'
  rw [moveLines_linesOf] at hmem
  obtain ⟨l₀, hl₀, rfl⟩ := List.mem_map.mp hmem
  by_cases hid : l₀.id ∈ [l.id]
  · refine hne ?_
    simp only [moved, hid, ↓reduceIte, hinto, hset]
  · have hsame : moved [l.id] into.accountId l₀ = l₀ := by simp only [moved, hid, ↓reduceIte]
    rw [hsame, hacc] at hcat
    have hmem₀ : l₀ ∈ b.categoryLines t := List.mem_filter.mpr ⟨hl₀, hcat⟩
    rw [hone, List.mem_singleton] at hmem₀
    exact hid (by rw [hmem₀]; exact List.mem_singleton_self l.id)

/-- What one transaction of a batch leaves of the books it finds. -/
structure BulkKeeps (c : Id → Bool) (input : BulkInput) (facts : BulkFacts) (t : Id)
    (b b' : Books) : Prop where
  rows : b'.Rows
  checked : checked input facts b' t = checked input facts b t
  changes : b.ChangesOnly t b'
  accounts : b'.accounts = b.accounts
  keeps : KeepsLines c b b'
  ids : ∀ l' ∈ b'.linesOf t, ∃ l ∈ b.linesOf t, l.id = l'.id
  spares : input.moveToAccountId = none → SpareCategory c input b t → SpareCategory c input b' t

theorem BulkKeeps.refl (w : b.Rows) : BulkKeeps c input facts t b b :=
  ⟨w, rfl, .refl t b, rfl, keepsLines_same rfl fun _ => rfl, fun l hl => ⟨l, hl, rfl⟩, fun _ h => h⟩

/-- Lines that are mapped one by one keep their ids. -/
theorem linesOf_map_ids {f : JournalLine → JournalLine} (hlines : b'.lines = b.lines.map f)
    (hf : ∀ l, (f l).id = l.id ∧ (f l).transactionId = l.transactionId) :
    ∀ l' ∈ b'.linesOf t, ∃ l ∈ b.linesOf t, l.id = l'.id := by
  intro l' hl'
  obtain ⟨hmem, htxn⟩ := List.mem_filter.mp hl'
  rw [hlines] at hmem
  obtain ⟨l, hl, rfl⟩ := List.mem_map.mp hmem
  rw [(hf l).2] at htxn
  exact ⟨l, List.mem_filter.mpr ⟨hl, htxn⟩, (hf l).1.symm⟩

theorem BulkKeeps.ids_trans {b₁ b₂ : Books} (h : BulkKeeps c input facts t b b₁)
    (hids : ∀ l' ∈ b₂.linesOf t, ∃ l ∈ b₁.linesOf t, l.id = l'.id) :
    ∀ l' ∈ b₂.linesOf t, ∃ l ∈ b.linesOf t, l.id = l'.id := by
  intro l' hl'
  obtain ⟨l₁, hl₁, hid⟩ := hids l' hl'
  obtain ⟨l, hl, hid'⟩ := h.ids l₁ hl₁
  exact ⟨l, hl, hid'.trans hid⟩

theorem bulkPayee_keeps {txn : Txn} (w : b.Rows) (ht : b.txns t = some txn) :
    BulkKeeps c input facts t b (bulkPayee b t txn input).books := by
  have wp : (bulkPayee b t txn input).books.Rows := bulkPayee_rows w ht
  rcases bulkPayee_books b t txn input with heq | ⟨contact, heq⟩
  · rw [heq]
    exact .refl w
  · rw [heq] at wp ⊢
    refine ⟨wp, ?_, Books.setTxn_changes, rfl, keepsLines_same rfl ?_, fun l hl => ⟨l, hl, rfl⟩,
      fun _ h => h⟩
    · rw [checked, checked, Books.setTxn_txns, ht]
      rfl
    intro t'
    refine setTxn_standing ht ?_ ?_ t'
    · rfl
    · rfl

/-- A move of lines of `t` that `c` does not pick. -/
theorem moveLines_keeps {posted : Bool} (ls : List JournalLine) {out into : Entry} (w : b'.Rows)
    (h : BulkKeeps c input facts t b b') (hls : ∀ l ∈ ls, l ∈ b'.linesOf t)
    (hc : ∀ l ∈ ls, c l.id = false)
    (hspare : input.moveToAccountId = none →
      SpareCategory c input (b'.moveLines posted (ls.map (·.id)) out into) t) :
    BulkKeeps c input facts t b (b'.moveLines posted (ls.map (·.id)) out into) := by
  refine ⟨moveLines_rows w, ?_, h.changes.trans (moveLines_changes w hls), ?_, h.keeps.trans ?_,
    h.ids_trans (linesOf_map_ids moveLines_lines fun l => ?_), fun hto _ => hspare hto⟩
  · rw [← h.checked, checked, moveLines_txns, checked]
  · rw [← h.accounts]
    unfold Books.moveLines
    split_ifs <;> rfl
  · refine keepsLines_map moveLines_lines (fun t' => ?_) fun l hl hcl => ?_
    · rw [Books.standing, moveLines_txns, Books.standing]
    · have hid : l.id ∉ ls.map (·.id) := fun hid => by
        rw [hc l (w.mem_of_id hls hl hid).1] at hcl
        cases hcl
      simp only [moved, hid, ↓reduceIte]
      exact .refl l
  · unfold moved
    split_ifs
    · exact ⟨rfl, rfl⟩
    · exact ⟨rfl, rfl⟩

theorem bulkOne_stays {skipped : Option String} (w : b.Rows)
    (hspare : checked input facts b t = true → SpareCategory (recs.clearedIn none) input b t)
    (h : bulkOne recs input facts b t = .ok (b', skipped)) :
    BulkKeeps (recs.clearedIn none) input facts t b b' := by
  set c := recs.clearedIn none
  refine bulkOne_keeps
    (P := fun b' => BulkKeeps c input facts t b b' ∧ SpareCategory c input b' t) h (.refl w)
    fun txn ht hcheck => ⟨⟨bulkPayee_keeps w ht, ?_⟩, fun _ h => h.1, ?_, ?_, ?_⟩
  · have hspare₀ : SpareCategory c input b t := hspare (by simp [checked, ht, hcheck])
    rcases bulkPayee_books b t txn input with heq | ⟨contact, heq⟩
    · rwa [heq]
    · rw [heq]
      exact hspare₀
  · intro st st' ⟨hk, hs⟩ hgo
    rcases bulkCategory_go hgo with heq | ⟨a, l, hset, hone, hbilled, hne, heq⟩
    · rwa [heq]
    · have hl : l ∈ st.books.categoryLines t := by
        rw [hone]
        exact List.mem_singleton_self l
      rw [heq]
      refine moveLines_keeps [l] hk.rows hk (fun l' hl' => ?_) (fun l' hl' => ?_)
        fun _ => spareCategory_moved hset rfl hone
      · rw [List.mem_singleton.mp hl']
        exact List.mem_of_mem_filter hl
      · rw [List.mem_singleton.mp hl']
        refine hs l hl hone hbilled (by simp [hset]) ?_
        rw [hset]
        simpa [eq_comm] using hne
  · intro st st' hk hgo
    rcases bulkMove_go hgo with heq | ⟨source, target, hto, hcleared, heq⟩
    · rwa [heq]
    · rw [heq]
      exact moveLines_keeps _ hk.rows hk (fun l hl => List.mem_of_mem_filter hl) hcleared
        fun hnone => by rw [hto] at hnone; cases hnone
  · intro st hk
    obtain ⟨f, heq, hf⟩ := bulkTag_books st t input
    have hlines : (bulkTag st t input).books.lines = st.books.lines.map f := by rw [heq]
    have htxns : (bulkTag st t input).books.txns = st.books.txns := by rw [heq]
    have hacc : (bulkTag st t input).books.accounts = st.books.accounts := by rw [heq]
    refine ⟨bulkTag_rows hk.rows, by rw [checked, htxns, ← hk.checked, checked],
      hk.changes.trans (bulkTag_changes st t input), hacc.trans hk.accounts, hk.keeps.trans ?_,
      hk.ids_trans (linesOf_map_ids hlines fun l => ⟨(hf l).1, (hf l).2.1⟩), fun hto h =>
        (hk.spares hto h).map hlines hacc
          fun l => ⟨(hf l).1, (hf l).2.1, (hf l).2.2.2.2.2.1, (hf l).2.2.2.2.2.2⟩⟩
    refine keepsLines_map hlines (fun t' => by rw [Books.standing, htxns, Books.standing]) ?_
    exact fun l _ _ => ⟨(hf l).1, (hf l).2.1, (hf l).2.2.2.2.2.1, (hf l).2.2.1, (hf l).2.2.2.1⟩

/-- What a batch keeps, with the transactions still to come. -/
structure BatchKeeps (c : Id → Bool) (input : BulkInput) (facts : BulkFacts) (b₀ : Books)
    (ts : List Id) (b : Books) : Prop where
  rows : b.Rows
  keeps : KeepsLines c b₀ b
  ids : ∀ t ∈ ts, ∀ l' ∈ b.linesOf t, ∃ l ∈ b₀.linesOf t, l.id = l'.id
  spares : ∀ t ∈ ts, checked input facts b t = true → SpareCategory c input b t
  once : input.setCategoryAccountId ≠ none → input.moveToAccountId ≠ none →
    ∀ t ∈ ts, (∃ l ∈ b₀.linesOf t, c l.id = true) → ts.count t = 1

theorem BatchKeeps.step {b₀ : Books} {ts : List Id} {skipped : Option String}
    (h : BatchKeeps (recs.clearedIn none) input facts b₀ (t :: ts) b)
    (hone : bulkOne recs input facts b t = .ok (b', skipped)) :
    BatchKeeps (recs.clearedIn none) input facts b₀ ts b' := by
  have hk := bulkOne_stays h.rows (h.spares t List.mem_cons_self) hone
  have hids : ∀ t' ∈ ts, ∀ l' ∈ b'.linesOf t', ∃ l ∈ b₀.linesOf t', l.id = l'.id := by
    intro t' ht' l' hl'
    have hold := h.ids t' (List.mem_cons_of_mem _ ht')
    by_cases heq : t' = t
    · subst heq
      obtain ⟨l₁, hl₁, hid⟩ := hk.ids l' hl'
      obtain ⟨l, hl, hid'⟩ := hold l₁ hl₁
      exact ⟨l, hl, hid'.trans hid⟩
    · rw [hk.changes.linesOf heq] at hl'
      exact hold l' hl'
  refine ⟨hk.rows, h.keeps.trans hk.keeps, hids, fun t' ht' hcheck => ?_,
    fun hset hto t' ht' hcleared => ?_⟩
  · have hold := h.spares t' (List.mem_cons_of_mem _ ht')
    by_cases heq : t' = t
    · subst heq
      by_cases hset : input.setCategoryAccountId = none
      · exact fun _ _ _ _ hne => absurd hset hne
      by_cases hto : input.moveToAccountId = none
      · exact hk.spares hto (hold (hk.checked ▸ hcheck))
      -- named again, so none of its lines is cleared
      intro l' hl' _ _ _ _
      by_contra hcl
      obtain ⟨l, hl, hid⟩ := hids t' ht' l' (List.mem_of_mem_filter hl')
      have hcount := h.once hset hto t' List.mem_cons_self ⟨l, hl, by rw [hid]; simpa using hcl⟩
      rw [List.count_cons_self] at hcount
      have hpos := List.count_pos_iff.mpr ht'
      omega
    · rw [checked, hk.changes.txns t' heq] at hcheck
      unfold SpareCategory Books.categoryLines
      rw [hk.changes.linesOf heq, hk.accounts]
      exact hold hcheck
  · have hcount := h.once hset hto t' (List.mem_cons_of_mem _ ht') hcleared
    rw [List.count_cons] at hcount
    have hpos := List.count_pos_iff.mpr ht'
    omega

end Bulk

section Steps

/-- The operation replaces, moves or closes over no cleared line that its guards do not ask about.
The costing walk names none; a partial edit replaces none; a batch moves no category line that is
one, and names no transaction with one twice when it moves lines both ways; and what is completed is
there and posted. -/
def Store.KeepsCleared (s : Store) : Op → Prop
  | .post _ _ _ costing | .void _ _ _ costing | .delete _ _ _ costing =>
    CostingKeeps (s.recs.clearedIn none) s.books costing
  | .update t input _ _ costing =>
    if s.reconciled t then
      (s.books.txns t).any (fun txn => (partialEdit s.books t txn.txnDate input).isSome) = true →
        ∀ l ∈ s.books.replacedLines t, s.recs.clearedIn none l.id = false
    else CostingKeeps (s.recs.clearedIn none) s.books costing
  | .bulk input facts _ =>
    (input.setCategoryAccountId ≠ none → input.moveToAccountId ≠ none →
      ∀ t ∈ input.txnIds, (∃ l ∈ s.books.linesOf t, s.recs.clearedIn none l.id = true) →
        input.txnIds.count t = 1) ∧
      ∀ t ∈ input.txnIds, checked input facts s.books t = true →
        SpareCategory (s.recs.clearedIn none) input s.books t
  | .complete recId => ∀ row ∈ s.recs.rows, row.reconciliationId = recId → row.isCleared = true →
      ∃ l ∈ s.books.lines, l.id = row.journalLineId ∧
        s.books.status l.transactionId = some .posted
  | _ => True

instance (c : Id → Bool) (input : BulkInput) (b : Books) (t : Id) :
    Decidable (SpareCategory c input b t) :=
  inferInstanceAs (Decidable (∀ l ∈ b.categoryLines t, _))

instance (s : Store) : ∀ op : Op, Decidable (s.KeepsCleared op)
  | .post _ _ _ costing | .void _ _ _ costing | .delete _ _ _ costing =>
    inferInstanceAs (Decidable (CostingKeeps (s.recs.clearedIn none) s.books costing))
  | .update t input _ _ costing => inferInstanceAs (Decidable (ite (s.reconciled t = true)
      ((s.books.txns t).any (fun txn => (partialEdit s.books t txn.txnDate input).isSome) = true →
        ∀ l ∈ s.books.replacedLines t, s.recs.clearedIn none l.id = false)
      (CostingKeeps (s.recs.clearedIn none) s.books costing)))
  | .bulk input facts _ => inferInstanceAs (Decidable
      ((input.setCategoryAccountId ≠ none → input.moveToAccountId ≠ none →
        ∀ t ∈ input.txnIds, (∃ l ∈ s.books.linesOf t, s.recs.clearedIn none l.id = true) →
          input.txnIds.count t = 1) ∧
        ∀ t ∈ input.txnIds, checked input facts s.books t = true →
          SpareCategory (s.recs.clearedIn none) input s.books t))
  | .complete recId => inferInstanceAs (Decidable (∀ row ∈ s.recs.rows,
      row.reconciliationId = recId → row.isCleared = true →
        ∃ l ∈ s.books.lines, l.id = row.journalLineId ∧
          s.books.status l.transactionId = some .posted))
  | .start _ | .refreshLines _ | .updateLines _ _ | .autoClearStatement _ | .undo _ _ | .cancel _ =>
    inferInstanceAs (Decidable True)

variable {s s' : Store} {t : Id}

theorem not_cleared_of_not_reconciled (h : s.reconciled t = false) :
    ∀ l ∈ s.books.linesOf t, s.recs.clearedIn none l.id = false := by
  simpa [Store.reconciled] using h

theorem editLines_keeps {b : Books} {c : Id → Bool} {kept : List (JournalLine × LineInput)}
    {ls : List JournalLine} {new : List LineInput} (w : b.Rows) (hls : ∀ l ∈ ls, l ∈ b.linesOf t)
    (hc : ∀ l ∈ ls, c l.id = false) :
    KeepsLines c b (b.editLines t kept (ls.map JournalLine.id) new) := by
  intro l hl hcl
  have hid : l.id ∉ ls.map JournalLine.id := fun hid => by
    rw [hc l (w.mem_of_id hls hl hid).1] at hcl
    cases hcl
  refine ⟨⟨retag kept l, ?_, ?_⟩, rfl⟩
  · refine List.mem_append_left _ (List.mem_map_of_mem ?_)
    exact List.mem_filter.mpr ⟨hl, by simpa using hid⟩
  · exact ⟨(retag_row l).1, (retag_row l).2.1, retag_accountId l, (retag_row l).2.2.1,
      (retag_row l).2.2.2.1⟩

theorem updateReconciled_keeps {txn : Txn} {input : PostInput} (w : s.books.Rows)
    (ht : s.books.txns t = some txn)
    (hc : (partialEdit s.books t txn.txnDate input).isSome = true →
      ∀ l ∈ s.books.replacedLines t, s.recs.clearedIn none l.id = false)
    (h : updateReconciled s t txn input = .ok s') :
    KeepsLines (s.recs.clearedIn none) s.books s'.books := by
  obtain ⟨kept, new, hpart, -, rfl⟩ := updateReconciled_ok h
  have hnone := hc (by rw [hpart]; rfl)
  set b := s.books.post ((s.books.replacedLines t).map JournalLine.reversed)
  have wb : b.Rows := w.post
  have hedit : KeepsLines (s.recs.clearedIn none) b
      (b.editLines t kept ((s.books.replacedLines t).map JournalLine.id) new) :=
    editLines_keeps wb (fun l hl => (mem_replacedLines.mp hl).1) hnone
  refine KeepsLines.trans (keepsLines_same rfl fun _ => rfl) (hedit.trans (keepsLines_same rfl ?_))
  intro t'
  refine setTxn_standing ht ?_ ?_ t'
  · rfl
  · rfl

/-- Every ledger operation keeps the cleared lines. -/
theorem step_keepsLines {op : Op} (w : s.books.Rows) (hop : op.isLedger = true)
    (hx : s.KeepsCleared op) (h : step s op = .ok s') :
    KeepsLines (s.recs.clearedIn none) s.books s'.books := by
  cases op <;> try cases hop
  case post t input refusal costing =>
    obtain ⟨ht, -, b, rfl, hpost⟩ := postTransaction_ok (onLedger_ok.mp h)
    have hbook : KeepsLines (s.recs.clearedIn none) s.books (input.booked s.books t) :=
      booked_changes.keeps fun l hl => by
        rw [linesOf_nil w ht] at hl
        exact absurd hl List.not_mem_nil
    split_ifs at hpost with hs
    · exact hbook.trans (costed_post_keeps (hx.of_sublist booked_derived) hpost)
    · rwa [hpost]
  case update t input ap refusal costing =>
    obtain ⟨txn, ht, -, -, h⟩ := updateTransaction_ok (onLedger_ok.mp h)
    simp only [Store.KeepsCleared] at hx
    split_ifs at h hx with hrec
    · exact updateReconciled_keeps w ht (fun hsome => hx (by rw [ht]; exact hsome)) h
    · obtain ⟨-, b, rfl, hfull⟩ := updateFull_ok h
      have hbook : KeepsLines (s.recs.clearedIn none) s.books (s.books.rewritten t txn input) :=
        rewritten_changes.keeps (not_cleared_of_not_reconciled (by simpa using hrec))
      split_ifs at hfull with hs
      · exact hbook.trans (costed_post_keeps (hx.of_sublist rewritten_derived) hfull)
      · rwa [hfull]
  case void t ids refusal costing =>
    obtain ⟨txn, ht, -, -, hrec, -, b, rfl, hvoid⟩ := voidTransaction_ok (onLedger_ok.mp h)
    set voided := s.books.reverseDocument t .void (s.books.voidedLines t txn) ids
    have hbook : KeepsLines (s.recs.clearedIn none) s.books voided :=
      reverseDocument_changes.keeps (not_cleared_of_not_reconciled hrec)
    dsimp only at hvoid
    split_ifs at hvoid with htype
    · obtain ⟨hlines, htxns, -⟩ := foldl_post_frame (s.books.voidedLines t txn) voided
      rw [hvoid]
      exact hbook.trans (keepsLines_same hlines fun t' =>
        congrArg (fun f => (f t').map fun txn => (txn.status, txn.txnDate)) htxns)
    · exact hbook.trans (costed_post_keeps (hx.of_sublist reverseDocument_derived) hvoid)
  case delete t ids refusal costing =>
    obtain ⟨txn, ht, -, hrec, -, b, rfl, hdelete⟩ := deleteTransaction_ok (onLedger_ok.mp h)
    have hbook : KeepsLines (s.recs.clearedIn none) s.books
        (s.books.reverseDocument t .deleted (s.books.deletedLines t txn) ids) :=
      reverseDocument_changes.keeps (not_cleared_of_not_reconciled hrec)
    exact hbook.trans (costed_post_keeps (hx.of_sublist reverseDocument_derived) hdelete)
  case bulk input facts refusal =>
    obtain ⟨b, r, rfl, hall⟩ := bulkUpdateTransactions_ok (onLedger_ok.mp h)
    have hbatch : BatchKeeps (s.recs.clearedIn none) input facts s.books input.txnIds s.books :=
      ⟨w, keepsLines_same rfl fun _ => rfl, fun _ _ l hl => ⟨l, hl, rfl⟩, hx.2, hx.1⟩
    exact (bulkAll_keeps (P := BatchKeeps (s.recs.clearedIn none) input facts s.books)
      (fun _ _ _ _ _ hk h => hk.step h) hbatch hall).keeps

end Steps

section Watch

/-- A store, with the books as they were at the completion of each reconciliation. -/
structure Watched where
  store : Store
  completedAt : Id → Books

def Watched.completed (w : Watched) : Op → Id → Books
  | .complete recId => fun k => if k = recId then w.store.books else w.completedAt k
  | _ => w.completedAt

def watchedStep (w : Watched) (op : Op) : Except OpError Watched :=
  (step w.store op).map fun s => ⟨s, w.completed op⟩

/-- Every line cleared in a completed reconciliation is there, under a posted transaction, as it was
and dated as it was at the completion. -/
def Watched.StaysCleared (w : Watched) : Prop :=
  ∀ h ∈ w.store.recs.headers, h.status = .complete → ∀ line, w.store.recs.Clears h.id line →
    ∃ l ∈ w.store.books.lines, l.id = line ∧
      w.store.books.status l.transactionId = some .posted ∧
      ∃ l₀ ∈ (w.completedAt h.id).lines, SameLine l₀ l ∧
        w.store.books.standing l.transactionId = (w.completedAt h.id).standing l₀.transactionId

variable {w w' : Watched} {s s' : Store} {op : Op}

theorem watchedStep_ok (h : watchedStep w op = .ok w') :
    step w.store op = .ok w'.store ∧ w'.completedAt = w.completed op := by
  obtain ⟨s, hs, rfl⟩ := map_eq_ok.mp h
  exact ⟨hs, rfl⟩

theorem clearedIn_none_of_clears {r : Recs} {h : Reconciliation} {line : Id} (hh : h ∈ r.headers)
    (hs : h.status = .complete) (hc : r.Clears h.id line) : r.clearedIn none line = true := by
  obtain ⟨row, hrow, hid, hline, hcl⟩ := hc
  refine List.any_eq_true.mpr ⟨row, hrow, ?_⟩
  simp only [decide_eq_true_eq]
  refine ⟨hline, hcl, List.any_eq_true.mpr ⟨h, hh, ?_⟩⟩
  simp [hid, hs]

/-- The keys of the reconciliations stay unique. -/
theorem step_recIds (hids : (s.recs.headers.map (·.id)).Nodup) (h : step s op = .ok s') :
    (s'.recs.headers.map (·.id)).Nodup := by
  cases op
  case start input =>
    obtain ⟨r, hr, rfl⟩ := onRecs_ok.mp h
    exact start_ids hids hr
  case refreshLines recId =>
    obtain ⟨r, hr, rfl⟩ := onRecs_ok.mp h
    rwa [← refreshLines_headers hr] at hids
  case updateLines recId updates =>
    obtain ⟨r, hr, rfl⟩ := onRecs_ok.mp h
    obtain ⟨hd, hh, hs, rfl⟩ := updateLines_ok hr
    rwa [← (foldl_updateLine_from hs updates hids hh).2] at hids
  case autoClearStatement recId =>
    obtain ⟨r, hr, rfl⟩ := onRecs_ok.mp h
    obtain ⟨hd, f, -, -, -, rfl⟩ := autoClearStatement_ok hr
    exact hids
  case complete recId =>
    obtain ⟨r, hr, rfl⟩ := onRecs_ok.mp h
    obtain ⟨hd, f, -, -, -, hf, -, rfl⟩ := complete_ok hr
    rwa [← map_id_setHeader hf] at hids
  case undo recId latest =>
    obtain ⟨r, hr, rfl⟩ := onRecs_ok.mp h
    exact undo_ids hids hr
  case cancel recId =>
    obtain ⟨r, hr, rfl⟩ := onRecs_ok.mp h
    exact cancel_ids hids hr
  all_goals
    rw [step_recs rfl h]
    exact hids

/-- What is complete after an operation was so before, unless the operation completed it. -/
theorem step_from (hids : (s.recs.headers.map (·.id)).Nodup) (h : step s op = .ok s')
    (hop : ∀ recId, op ≠ .complete recId) : s.recs.CompletedFrom s'.recs := by
  cases op
  case start input =>
    obtain ⟨r, hr, rfl⟩ := onRecs_ok.mp h
    exact start_from hr
  case refreshLines recId =>
    obtain ⟨r, hr, rfl⟩ := onRecs_ok.mp h
    exact refreshLines_from hr
  case updateLines recId updates =>
    obtain ⟨r, hr, rfl⟩ := onRecs_ok.mp h
    obtain ⟨hd, hh, hs, rfl⟩ := updateLines_ok hr
    exact (foldl_updateLine_from hs updates hids hh).1
  case autoClearStatement recId =>
    obtain ⟨r, hr, rfl⟩ := onRecs_ok.mp h
    obtain ⟨hd, f, hh, hs, hf, rfl⟩ := autoClearStatement_ok hr
    exact Recs.from_mapRows hids hh hs hf
  case complete recId => exact absurd rfl (hop recId)
  case undo recId latest =>
    obtain ⟨r, hr, rfl⟩ := onRecs_ok.mp h
    exact undo_from hr
  case cancel recId =>
    obtain ⟨r, hr, rfl⟩ := onRecs_ok.mp h
    exact cancel_from hr
  all_goals
    rw [step_recs rfl h]
    exact fun _ hh _ => ⟨hh, fun _ hc => hc⟩

theorem complete_stays {recId : Id} (hs : w.StaysCleared)
    (hx : w.store.KeepsCleared (.complete recId))
    (h : watchedStep w (.complete recId) = .ok w') : w'.StaysCleared := by
  obtain ⟨hstep, hat⟩ := watchedStep_ok h
  obtain ⟨r, hr, hstore⟩ := onRecs_ok.mp hstep
  obtain ⟨hd, f, hh, rfl, -, hf, -, rfl⟩ := complete_ok hr
  intro h' hh' hst line hc
  rw [hstore] at hh' hc ⊢
  rw [hat]
  have hc' : w.store.recs.Clears h'.id line := hc
  obtain ⟨h₀, hh₀, hid, -, hne, -⟩ := mem_setHeader hf hh'
  by_cases hk : h₀.id = hd.id
  · obtain ⟨row, hrow, hrid, rfl, hcl⟩ := hc'
    obtain ⟨l, hl, hlid, hp⟩ := hx row hrow (hrid.trans (hid.trans hk)) hcl
    have hat' : w.completed (.complete hd.id) h'.id = w.store.books := by
      simp [Watched.completed, hid, hk]
    rw [hat']
    exact ⟨l, hl, hlid, hp, l, hl, .refl l, rfl⟩
  · rw [hne hk] at hst hc' ⊢
    have hat' : w.completed (.complete hd.id) h₀.id = w.completedAt h₀.id := by
      simp [Watched.completed, hk]
    rw [hat']
    exact hs h₀ hh₀ hst line hc'

theorem watchedStep_stays (hrows : w.store.books.Rows)
    (hids : (w.store.recs.headers.map (·.id)).Nodup) (hs : w.StaysCleared)
    (hx : w.store.KeepsCleared op) (h : watchedStep w op = .ok w') : w'.StaysCleared := by
  by_cases hop : ∃ recId, op = .complete recId
  · obtain ⟨recId, rfl⟩ := hop
    exact complete_stays hs hx h
  · rw [not_exists] at hop
    obtain ⟨hstep, hat⟩ := watchedStep_ok h
    have hat' : w'.completedAt = w.completedAt := by
      rw [hat]
      cases op <;> first | rfl | exact absurd rfl (hop _)
    intro h' hh' hst line hc
    obtain ⟨hh, hclears⟩ := step_from hids hstep hop h' hh' hst
    obtain ⟨l, hl, hlid, hp, l₀, hl₀, hsame, hstand⟩ := hs h' hh hst line (hclears line hc)
    rw [hat']
    by_cases hled : op.isLedger = true
    · have hcleared : w.store.recs.clearedIn none l.id = true := by
        rw [hlid]
        exact clearedIn_none_of_clears hh hst (hclears line hc)
      obtain ⟨⟨l', hl', hsame'⟩, hstand'⟩ := step_keepsLines hrows hled hx hstep l hl hcleared
      refine ⟨l', hl', hsame'.id.trans hlid, ?_, l₀, hl₀, hsame.trans hsame', ?_⟩
      · rw [hsame'.txn]
        have hfst := congrArg (Option.map Prod.fst) hstand'
        simp only [Books.standing, Option.map_map] at hfst
        exact hfst.trans hp
      · rw [hsame'.txn]
        exact hstand'.trans hstand
    · rw [step_books (by simpa using hled) hstep]
      exact ⟨l, hl, hlid, hp, l₀, hl₀, hsame, hstand⟩

/-- In a run that spares the cleared lines they stay as they were, in every state. -/
theorem reached_staysCleared {w : Watched} (hrows : w.store.books.Rows)
    (hnew : w.store.recs.headers = []) {units : List (List Op)}
    (hm : Meets watchedStep (fun w op => w.store.KeepsCleared op) w units) :
    ∀ w' ∈ reached watchedStep w units, w'.StaysCleared := by
  have hstart : w.StaysCleared := fun h hh => by
    rw [hnew] at hh
    exact absurd hh List.not_mem_nil
  have hids : (w.store.recs.headers.map (·.id)).Nodup := by
    rw [hnew]
    exact List.nodup_nil
  intro w' hw'
  refine (reached_keeps (P := fun w => w.store.books.Rows ∧
    (w.store.recs.headers.map (·.id)).Nodup ∧ w.StaysCleared) ?_ hm ⟨hrows, hids, hstart⟩
      w' hw').2.2
  rintro w op w' ⟨hrows, hids, hs⟩ hx h
  obtain ⟨hstep, -⟩ := watchedStep_ok h
  exact ⟨step_rows hrows hstep, step_recIds hids hstep, watchedStep_stays hrows hids hs hx h⟩

end Watch

section Supplies

/-- Supplies for 40 are paid from checking. -/
def supplies : Op :=
  .post "purchase" ⟨.expense, "2026-01-10", none, none,
    [⟨"l1", "supplies", 40, 0, none⟩, ⟨"l2", "checking", 0, 40, none⟩]⟩ none none

/-- A batch that makes `a` the purchase's category. -/
def recategorize (a : Id) : Op :=
  .bulk ⟨["purchase"], none, some a, none, none, none, none⟩
    ⟨fun _ => true, fun _ => false, fun _ => false, fun _ => false⟩ none

/-- An account is reconciled for January, up to the line `l`, at `ending`. -/
def reconcileJanuary (a l : Id) (ending : Dec) : List (List Op) :=
  [[.start ⟨"jan", some a, some "2026-01-31", some ending, none, none⟩],
    [.updateLines "jan" [⟨l, true⟩]], [.complete "jan"]]

def watchedBooks : Watched := ⟨newBooks, fun _ => newBooks.books⟩

/-- With checking reconciled, the category line moves freely. -/
theorem checkingReconciled_stays : (reached watchedStep watchedBooks
      ([[supplies]] ++ reconcileJanuary "checking" "l2" (-40) ++ [[recategorize "sales"]])).Forall
    Watched.StaysCleared :=
  List.forall_iff_forall_mem.mpr
    (reached_staysCleared (Books.rows_of_nil rfl) rfl (by decide +kernel))

theorem suppliesReconciled_moves :
    ¬∀ (w : Watched) (units : List (List Op)), w.store.books.lines = [] →
      w.store.recs.headers = [] → w.store.recs.rows = [] →
      ∀ w' ∈ reached watchedStep w units, w'.StaysCleared := by
  intro hall
  have hrun : ∃ w' ∈ reached watchedStep watchedBooks
      ([[supplies]] ++ reconcileJanuary "supplies" "l1" 40 ++ [[recategorize "sales"]]),
      ∃ h ∈ w'.store.recs.headers, h.status = .complete ∧ w'.store.recs.Clears h.id "l1" ∧
        ∀ l ∈ w'.store.books.lines, l.id = "l1" → ∀ l₀ ∈ (w'.completedAt h.id).lines,
          l₀.id = "l1" → l₀.accountId ≠ l.accountId := by decide +kernel
  obtain ⟨w', hw', h, hh, hst, hc, hmoved⟩ := hrun
  obtain ⟨l, hl, hlid, -, l₀, hl₀, hsame, -⟩ := hall _ _ rfl rfl rfl w' hw' h hh hst "l1" hc
  exact hmoved l hl hlid l₀ hl₀ (hsame.id.symm.trans hlid) hsame.account.symm

end Supplies

end MyBooks
