import MyBooks.StaysCleared

/-!
# The rows callers wrote

The costing walk writes rows of its own, on any posted document. The other rows of a document
(`typedLines`) change with the calls on that document alone, and so does its header; the walk's rows
on an account (`walkLines`) stay where the walk leaves them. One lemma for each call says what it
leaves of both (`postTransaction_typed` and the like).
-/

namespace MyBooks

/-- The rows of a document but for those of the costing walk. -/
def Books.typedLines (b : Books) (t : Id) : List JournalLine :=
  (b.linesOf t).filter fun l => l.derived = false

/-- The rows of the costing walk that a document has on account `a`. -/
def Books.walkLines (b : Books) (a t : Id) : List JournalLine :=
  (b.linesOf t).filter fun l => l.derived ∧ l.accountId = a

/-- The walk neither adds a row of the document `x` on account `a` nor changes one. -/
def Costing.Leaves (c : Costing) (b : Books) (a x : Id) : Prop :=
  (∀ l ∈ c.insert, l.transactionId = x → l.accountId ≠ a) ∧ ∀ l ∈ b.walkLines a x, c.names l = false

instance (c : Costing) (b : Books) (a x : Id) : Decidable (c.Leaves b a x) :=
  inferInstanceAs (Decidable ((∀ l ∈ c.insert, _ → _) ∧ ∀ l ∈ b.walkLines a x, _))

/-- Of the documents other than `t` only the rows of the costing walk change, and not those on account
`a` of the documents in `kept`. -/
structure Books.Edits (a : Id) (kept : Id → Prop) (t : Id) (b b' : Books) : Prop where
  txns : ∀ x, x ≠ t → b'.txns x = b.txns x
  typed : ∀ x, x ≠ t → b'.typedLines x = b.typedLines x
  walk : ∀ x, kept x → x ≠ t → b'.walkLines a x = b.walkLines a x
  accounts : b'.accounts = b.accounts
  rows : b'.Rows

section Lines

variable {b b' : Books} {a t x : Id} {kept kept' : Id → Prop}

theorem Books.Edits.refl (w : b.Rows) : b.Edits a kept t b :=
  ⟨fun _ _ => rfl, fun _ _ => rfl, fun _ _ _ => rfl, rfl, w⟩

theorem Books.Edits.mono (h : b.Edits a kept t b') (hk : ∀ x, kept' x → kept x) : b.Edits a kept' t b' :=
  { h with walk := fun x hx => h.walk x (hk x hx) }

theorem mem_typedLines {l : JournalLine} :
    l ∈ b.typedLines t ↔ l ∈ b.lines ∧ l.transactionId = t ∧ l.derived = false := by
  simp only [Books.typedLines, List.mem_filter, Books.mem_linesOf, decide_eq_true_eq, and_assoc]

theorem typedLines_of_lines (h : b'.lines = b.lines) : b'.typedLines x = b.typedLines x := by
  rw [Books.typedLines, Books.linesOf, h, Books.typedLines, Books.linesOf]

theorem walkLines_of_lines (h : b'.lines = b.lines) : b'.walkLines a x = b.walkLines a x := by
  rw [Books.walkLines, Books.linesOf, h, Books.walkLines, Books.linesOf]

theorem Books.ChangesOnly.typed (h : b.ChangesOnly t b') (hx : x ≠ t) :
    b'.typedLines x = b.typedLines x := by
  rw [Books.typedLines, h.linesOf hx, Books.typedLines]

theorem Books.ChangesOnly.walk (h : b.ChangesOnly t b') (hx : x ≠ t) :
    b'.walkLines a x = b.walkLines a x := by
  rw [Books.walkLines, h.linesOf hx, Books.walkLines]

theorem typedLines_stored {lines : List LineInput} (h : b.linesOf t = lines.map (LineInput.stored t)) :
    b.typedLines t = lines.map (LineInput.stored t) := by
  rw [Books.typedLines, h]
  exact List.filter_eq_self.mpr fun l hl => by simp [(mem_stored hl).2.2.2.2]

theorem walkLines_stored {lines : List LineInput} (h : b.linesOf t = lines.map (LineInput.stored t)) :
    b.walkLines a t = [] := by
  rw [Books.walkLines, h]
  exact List.filter_eq_nil_iff.mpr fun l hl => by simp [(mem_stored hl).2.2.2.2]

end Lines

section Costing

variable {b b' : Books} {a t : Id} {kept : Id → Prop} {costing : Option Costing}

theorem rewritten_walks {c : Costing} (l : JournalLine) : (c.rewritten b l).derived = l.derived := by
  unfold Costing.rewritten
  split <;> rfl

theorem typed_rewritten {c : Costing} (ls : List JournalLine) (t : Id) :
    (((ls.filter fun l => ¬c.deletes b l).map (c.rewritten b)).filter (·.transactionId = t)).filter
        (·.derived = false) =
      (ls.filter (·.transactionId = t)).filter (·.derived = false) := by
  simp only [List.filter_filter, List.filter_map, Function.comp_def, rewritten_walks,
    (rewritten_row _).2.1]
  rw [List.map_congr_left (g := id), List.map_id]
  · refine List.filter_congr fun l _ => ?_
    by_cases hd : l.derived = true
    · simp [hd]
    · have hdel : ¬c.deletes b l = true := fun h => hd (names_of_deletes h).2
      simp [hdel]
  · intro l hl
    have hd := (List.mem_filter.mp hl).2
    simp only [Bool.and_eq_true, decide_eq_true_eq] at hd
    exact rewritten_of_not_named (.inr hd.1)

/-- The costing walk leaves the headers and the rows it did not write. -/
theorem costed_typed (h : costed b costing = .ok b') :
    b'.txns = b.txns ∧ b'.accounts = b.accounts ∧ ∀ x, b'.typedLines x = b.typedLines x := by
  cases costing with
  | none =>
    rw [← Except.ok.inj h]
    exact ⟨rfl, rfl, fun _ => rfl⟩
  | some k =>
    obtain ⟨-, -, hacc, htxns, hlines, -⟩ := applyCosting_ok (c := k) h
    refine ⟨htxns, hacc, fun x => ?_⟩
    have hins : (k.inserted b).filter (·.derived = false) = [] := by
      rw [List.filter_eq_nil_iff]
      intro l hl
      simp [(rewrites_iff.mp (mem_inserted hl).1).1]
    have hnone : ((k.inserted b).filter (·.transactionId = x)).filter (·.derived = false) = [] := by
      rw [List.filter_comm, hins]
      rfl
    rw [Books.typedLines, Books.linesOf, hlines, List.filter_append, List.filter_append, hnone,
      List.append_nil, typed_rewritten, Books.typedLines, Books.linesOf]

theorem walk_rewritten {c : Costing} {ls : List JournalLine} {x : Id}
    (h : ∀ l ∈ ls, l.transactionId = x → l.derived ∧ l.accountId = a → c.names l = false) :
    (((ls.filter fun l => ¬c.deletes b l).map (c.rewritten b)).filter (·.transactionId = x)).filter
        (fun l => l.derived ∧ l.accountId = a) =
      (ls.filter (·.transactionId = x)).filter fun l => l.derived ∧ l.accountId = a := by
  simp only [List.filter_filter, List.filter_map, Function.comp_def, rewritten_walks,
    (rewritten_row _).2.1, (rewritten_row _).2.2.1]
  rw [List.map_congr_left (g := id), List.map_id]
  · refine List.filter_congr fun l hl => ?_
    by_cases hat : (l.derived ∧ l.accountId = a) ∧ l.transactionId = x
    · have hdel : ¬c.deletes b l = true := fun hdel => by
        have hnamed := (names_of_deletes hdel).1
        rw [h l hl hat.2 hat.1] at hnamed
        cases hnamed
      simp [hat, hdel]
    · have hat : ¬(l.transactionId = x ∧ l.derived = true ∧ l.accountId = a) := fun h => hat ⟨h.2, h.1⟩
      by_cases ht : l.transactionId = x
      · simp [not_and.mp hat ht]
      · simp [ht]
  · intro l hl
    obtain ⟨hl, hat⟩ := List.mem_filter.mp hl
    simp only [Bool.and_eq_true, decide_eq_true_eq] at hat
    exact rewritten_of_not_named (.inl (h l hl hat.2.1 hat.1))

/-- A walk that leaves the rows of a document on an account leaves them as they are. -/
theorem costed_walk {x : Id} (hk : ∀ k ∈ costing, k.Leaves b a x) (h : costed b costing = .ok b') :
    b'.walkLines a x = b.walkLines a x := by
  cases costing with
  | none => rw [← Except.ok.inj h]
  | some k =>
    obtain ⟨hnew, hleft⟩ := hk k rfl
    obtain ⟨-, -, -, -, hlines, -⟩ := applyCosting_ok (c := k) h
    have hins : ((k.inserted b).filter (·.transactionId = x)).filter
        (fun l => l.derived ∧ l.accountId = a) = [] := by
      rw [List.filter_filter, List.filter_eq_nil_iff]
      intro l hl
      obtain ⟨l₀, hl₀, rfl⟩ := List.mem_map.mp hl
      have hoff := hnew l₀ (List.mem_of_mem_filter hl₀)
      simp only [Bool.and_eq_true, decide_eq_true_eq, not_and]
      exact fun hacct htxn => hoff htxn hacct.2
    rw [Books.walkLines, Books.linesOf, hlines, List.filter_append, List.filter_append, hins,
      List.append_nil, walk_rewritten, Books.walkLines, Books.linesOf]
    intro l hl ht hat
    exact hleft l (List.mem_filter.mpr ⟨Books.mem_linesOf.mpr ⟨hl, ht⟩, by simpa using hat⟩)

/-- A call's own changes and then the costing walk. -/
theorem Books.Edits.costed {b₁ : Books} (hc : b.ChangesOnly t b₁) (hacc : b₁.accounts = b.accounts)
    (hrows : b₁.Rows) (hk : ∀ k ∈ costing, ∀ x, kept x → k.Leaves b a x)
    (h : costed b₁ costing = .ok b') : b.Edits a kept t b' := by
  obtain ⟨htxns, haccounts, htyped⟩ := costed_typed h
  exact {
    txns := fun x hx => by rw [htxns, hc.txns x hx]
    typed := fun x hx => by rw [htyped, hc.typed hx]
    walk := fun x hkept hx => by
      have hwalk : b₁.walkLines a x = b.walkLines a x := hc.walk hx
      refine (costed_walk (fun k hk' => ?_) h).trans hwalk
      obtain ⟨hnew, hleft⟩ := hk k hk' x hkept
      exact ⟨hnew, hwalk ▸ hleft⟩
    accounts := haccounts.trans hacc
    rows := costed_rows hrows h }

end Costing

section Calls

variable {s s' : Store} {a t : Id} {kept : Id → Prop} {input : PostInput} {refusal : Refusal}
  {costing : Option Costing}

theorem leaves_none (kept : Id → Prop) {b : Books} :
    ∀ k ∈ (none : Option Costing), ∀ x, kept x → k.Leaves b a x := by
  simp

theorem postTransaction_typed (w : s.books.Rows)
    (hk : ∀ k ∈ costing, ∀ x, kept x → k.Leaves s.books a x)
    (h : postTransaction s t input refusal costing = .ok s') :
    s.books.txns t = none ∧ s.books.insertable (input.lines.map (LineInput.stored t)) = true ∧
      s'.recs = s.recs ∧ s.books.Edits a kept t s'.books ∧
      s'.books.txns t =
        some ⟨input.txnType, input.status.getD .posted, input.txnDate, input.contactId⟩ ∧
      s'.books.typedLines t = input.lines.map (LineInput.stored t) := by
  obtain ⟨ht, hins, b, rfl, hb⟩ := postTransaction_ok h
  have hline : (input.booked s.books t).linesOf t = input.lines.map (LineInput.stored t) := by
    have hnil : ∀ txn, (s.books.setTxn t txn).linesOf t = [] := fun _ => linesOf_nil (b := s.books) w ht
    rw [PostInput.booked, linesOf_addLines fun _ hl => (mem_stored hl).1, hnil, List.nil_append]
  refine ⟨ht, hins, rfl, ?_⟩
  split_ifs at hb with hp
  · obtain ⟨htxns, -, htyped⟩ := costed_typed hb
    refine ⟨.costed (booked_changes.trans Books.post_changes) rfl (booked_rows w ht hins).post hk hb, ?_, ?_⟩
    · rw [htxns]
      exact Books.setTxn_txns
    · rw [htyped]
      exact typedLines_stored hline
  · subst hb
    exact ⟨.costed booked_changes rfl (booked_rows w ht hins) (leaves_none _) rfl,
      Books.setTxn_txns, typedLines_stored hline⟩

/-- Voids and deletes: the document is posted no more. -/
theorem reversed_typed {ids : List Id} {ls : List JournalLine} {status : TxnStatus} {b : Books}
    {entries : List Entry} (w : s.books.Rows)
    (hk : ∀ k ∈ costing, ∀ x, kept x → k.Leaves s.books a x) (ht : s.books.txns t ≠ none)
    (hs : status ≠ .posted) (hls : ∀ l ∈ ls, l ∈ s.books.lines)
    (hins : s.books.insertable (reversals t ls ids) = true)
    (h : costed ((s.books.reverseDocument t status ls ids).post entries) costing = .ok b) :
    s.books.Edits a kept t b ∧
      b.txns t = (s.books.txns t).map fun txn => { txn with status := status } := by
  refine ⟨.costed (reverseDocument_changes.trans Books.post_changes) rfl
    (reverseDocument_rows w ht hs hls hins).post hk h, ?_⟩
  rw [(costed_typed h).1]
  simp [Books.reverseDocument, Books.setStatus]

theorem voidTransaction_typed {ids : List Id} (w : s.books.Rows)
    (hk : ∀ k ∈ costing, ∀ x, kept x → k.Leaves s.books a x)
    (h : voidTransaction s t ids refusal costing = .ok s') :
    s'.recs = s.recs ∧ s.books.Edits a kept t s'.books ∧
      s'.books.txns t = (s.books.txns t).map fun txn => { txn with status := .void } := by
  obtain ⟨txn, ht, -, -, -, hins, b, rfl, hb⟩ := voidTransaction_ok h
  have ht : s.books.txns t ≠ none := by simp [ht]
  refine ⟨rfl, ?_⟩
  dsimp only at hb
  split_ifs at hb with hp
  · -- a bill payment: line by line, and no costing walk
    obtain ⟨hlines, htxns, hacc⟩ := foldl_post_frame (s.books.voidedLines t txn)
      (s.books.reverseDocument t .void (s.books.voidedLines t txn) ids)
    have hvoid : TxnStatus.void ≠ .posted := by simp
    obtain ⟨he, hst⟩ := reversed_typed w (leaves_none kept) ht hvoid voidedLines_subset hins
      (show costed _ none = .ok ((s.books.reverseDocument t .void (s.books.voidedLines t txn) ids).post [])
        from rfl)
    subst hb
    refine ⟨⟨fun x hx => ?_, fun x hx => ?_, fun x hkept hx => ?_, ?_, he.rows.of_frame hlines htxns⟩, ?_⟩
    · exact (congrFun htxns x).trans (he.txns x hx)
    · exact (typedLines_of_lines hlines).trans (he.typed x hx)
    · exact (walkLines_of_lines hlines).trans (he.walk x hkept hx)
    · exact hacc.trans he.accounts
    · exact (congrFun htxns t).trans hst
  · exact reversed_typed w hk ht (by simp) voidedLines_subset hins hb

theorem deleteTransaction_typed {ids : List Id} (w : s.books.Rows)
    (hk : ∀ k ∈ costing, ∀ x, kept x → k.Leaves s.books a x)
    (h : deleteTransaction s t ids refusal costing = .ok s') :
    s'.recs = s.recs ∧ s.books.Edits a kept t s'.books ∧
      s'.books.txns t = (s.books.txns t).map fun txn => { txn with status := .deleted } := by
  obtain ⟨txn, ht, -, -, hins, b, rfl, hb⟩ := deleteTransaction_ok h
  exact ⟨rfl, reversed_typed w hk (by simp [ht]) (by simp) deletedLines_subset hins hb⟩

theorem retag_derived {kept : List (JournalLine × LineInput)} (l : JournalLine) :
    (retag kept l).derived = l.derived := by
  unfold retag
  split <;> rfl

/-- What the partial edit of a reconciled document leaves of its rows. -/
theorem reconciledEdit_linesOf {b : Books} {txn : Txn} {contact : Option Id}
    {kept : List (JournalLine × LineInput)} {new : List LineInput} (w : b.Rows) :
    (b.reconciledEdit t txn contact kept new).linesOf t =
      ((b.linesOf t).filter fun l => ¬(¬b.isBalanceSheet l.accountId ∧ ¬l.isVoidReversal)).map (retag kept) ++
        new.map (LineInput.stored t) := by
  set b₁ := b.post ((b.replacedLines t).map JournalLine.reversed)
  show (b₁.editLines t kept ((b.replacedLines t).map JournalLine.id) new).linesOf t = _
  have hedit : (b₁.editLines t kept (((b₁.linesOf t).filter fun l =>
      ¬b.isBalanceSheet l.accountId ∧ ¬l.isVoidReversal).map JournalLine.id) new).linesOf t =
      ((b₁.linesOf t).filter fun l => ¬(¬b.isBalanceSheet l.accountId ∧ ¬l.isVoidReversal)).map (retag kept) ++
        new.map (LineInput.stored t) := by
    simpa only [decide_eq_true_eq] using editLines_linesOf (b := b₁) (t := t)
      (q := fun l => ¬b.isBalanceSheet l.accountId ∧ ¬l.isVoidReversal) w.post
  rw [replacedLines_eq]
  exact hedit

theorem reconciledEdit_typed {b : Books} {txn : Txn} {contact : Option Id}
    {kept : List (JournalLine × LineInput)} {new : List LineInput} (w : b.Rows) :
    (b.reconciledEdit t txn contact kept new).typedLines t =
      ((b.typedLines t).filter fun l => ¬(¬b.isBalanceSheet l.accountId ∧ ¬l.isVoidReversal)).map
          (retag kept) ++ new.map (LineInput.stored t) := by
  have hnew : (new.map (LineInput.stored t)).filter (·.derived = false) = new.map (LineInput.stored t) :=
    List.filter_eq_self.mpr fun l hl => by simp [(mem_stored hl).2.2.2.2]
  have hretag : (fun l : JournalLine => decide (l.derived = false)) ∘ retag kept =
      fun l => decide (l.derived = false) := by
    funext l
    rw [Function.comp_apply, retag_derived]
  rw [Books.typedLines, reconciledEdit_linesOf w, List.filter_append, hnew, List.filter_map, hretag,
    List.filter_comm, Books.typedLines]

/-- The partial edit leaves the walk's rows on the balance sheet. -/
theorem reconciledEdit_walk {b : Books} {txn : Txn} {contact : Option Id}
    {kept : List (JournalLine × LineInput)} {new : List LineInput} (w : b.Rows)
    (ha : b.isBalanceSheet a = true) :
    (b.reconciledEdit t txn contact kept new).walkLines a t = (b.walkLines a t).map (retag kept) := by
  have hnew : (new.map (LineInput.stored t)).filter (fun l => l.derived ∧ l.accountId = a) = [] :=
    List.filter_eq_nil_iff.mpr fun l hl => by simp [(mem_stored hl).2.2.2.2]
  have hretag : (fun l : JournalLine => decide (l.derived = true ∧ l.accountId = a)) ∘ retag kept =
      fun l => decide (l.derived = true ∧ l.accountId = a) := by
    funext l
    rw [Function.comp_apply, retag_derived, retag_accountId]
  rw [Books.walkLines, reconciledEdit_linesOf w, List.filter_append, hnew, List.append_nil,
    List.filter_map, hretag, List.filter_comm, Books.walkLines, List.filter_eq_self.mpr]
  intro l hl
  have hacct : l.accountId = a := (of_decide_eq_true (List.mem_filter.mp hl).2).2
  simp [hacct, ha]

theorem updateTransaction_typed {ap : Bool} (w : s.books.Rows) (ha : s.books.isBalanceSheet a = true)
    (hk : ∀ k ∈ costing, ∀ x, kept x → k.Leaves s.books a x)
    (h : updateTransaction s t input ap refusal costing = .ok s') :
    ∃ txn, s.books.txns t = some txn ∧ s'.recs = s.recs ∧ s.books.Edits a kept t s'.books ∧
      (∃ txn', s'.books.txns t = some txn' ∧ txn'.txnType = txn.txnType ∧ txn'.status = txn.status) ∧
      if s.reconciled t then
        ∃ kept new, partialEdit s.books t txn.txnDate input = some (kept, new) ∧
          s.books.insertable (new.map (LineInput.stored t)) = true ∧
          s'.books.typedLines t =
            ((s.books.typedLines t).filter fun l =>
              ¬(¬s.books.isBalanceSheet l.accountId ∧ ¬l.isVoidReversal)).map (retag kept) ++
              new.map (LineInput.stored t) ∧
          s'.books.walkLines a t = (s.books.walkLines a t).map (retag kept)
      else s.books.insertable (input.lines.map (LineInput.stored t)) = true ∧
        s'.books.typedLines t = input.lines.map (LineInput.stored t) ∧
        (kept t → s'.books.walkLines a t = []) := by
  obtain ⟨txn, ht, -, -, h⟩ := updateTransaction_ok h
  refine ⟨txn, ht, ?_⟩
  split_ifs at h ⊢ with hrec
  · obtain ⟨kept, new, hpart, hins, rfl⟩ := updateReconciled_ok h
    refine ⟨rfl, ?_, ⟨_, Books.setTxn_txns, rfl, rfl⟩, kept, new, hpart, hins, reconciledEdit_typed w,
      reconciledEdit_walk w ha⟩
    have hrows : (s.books.reconciledEdit t txn input.contactId kept new).Rows := reconciledEdit_rows w ht hins
    exact .costed (reconciledEdit_changes w (kept_mem hpart)) rfl hrows (leaves_none _) rfl
  · obtain ⟨hins, b, rfl, hb⟩ := updateFull_ok h
    have hrows := rewritten_rows w ht hins
    have hline : (s.books.rewritten t txn input).typedLines t = input.lines.map (LineInput.stored t) :=
      typedLines_stored rewritten_linesOf
    have hwalk : (s.books.rewritten t txn input).walkLines a t = [] := walkLines_stored rewritten_linesOf
    have hacc : (s.books.rewritten t txn input).accounts = s.books.accounts := by
      unfold Books.rewritten
      split_ifs <;> rfl
    refine ⟨rfl, ?_⟩
    split_ifs at hb with hp
    · obtain ⟨htxns, -, htyped⟩ := costed_typed hb
      refine ⟨.costed (rewritten_changes.trans Books.post_changes) hacc hrows.post hk hb, ?_, hins, ?_,
        fun hkept => ?_⟩
      · rw [htxns]
        exact ⟨_, Books.setTxn_txns, rfl, rfl⟩
      · rw [htyped]
        exact hline
      · refine (costed_walk (fun k hk' => ⟨(hk k hk' t hkept).1, fun l hl => ?_⟩) hb).trans hwalk
        change l ∈ (s.books.rewritten t txn input).walkLines a t at hl
        rw [hwalk] at hl
        cases hl
    · subst hb
      exact ⟨.costed rewritten_changes hacc hrows (leaves_none _) rfl,
        ⟨_, Books.setTxn_txns, rfl, rfl⟩, hins, hline, fun _ => hwalk⟩

end Calls

section Match

/-- Each kept row has an input line of its own that leaves it as it is. -/
theorem takeMatch_perm {l : JournalLine} : ∀ {is : List LineInput} {i : LineInput} {rest : List LineInput},
    takeMatch l is = some (i, rest) → keeps l i = true ∧ (i :: rest).Perm is
  | [], i, rest, h => by simp [takeMatch] at h
  | i₀ :: is, i, rest, h => by
    simp only [takeMatch] at h
    split_ifs at h with hk
    · simp only [Option.some.injEq, Prod.mk.injEq] at h
      obtain ⟨rfl, rfl⟩ := h
      exact ⟨hk, .refl _⟩
    · obtain ⟨⟨i', rest'⟩, htake, heq⟩ := Option.map_eq_some_iff.mp h
      simp only [Prod.mk.injEq] at heq
      obtain ⟨rfl, rfl⟩ := heq
      obtain ⟨hkeep, hperm⟩ := takeMatch_perm htake
      exact ⟨hkeep, (List.Perm.swap i₀ i' rest').trans (hperm.cons i₀)⟩

theorem matchLines_perm : ∀ (ls : List JournalLine) {is : List LineInput}
    {kept : List (JournalLine × LineInput)} {rest : List LineInput},
    matchLines ls is = some (kept, rest) →
      (∀ p ∈ kept, keeps p.1 p.2 = true) ∧ (kept.map (·.2) ++ rest).Perm is
  | [], is, kept, rest, h => by
    simp only [matchLines, Option.some.injEq, Prod.mk.injEq] at h
    obtain ⟨rfl, rfl⟩ := h
    exact ⟨by simp, .refl _⟩
  | l :: ls, is, kept, rest, h => by
    simp only [matchLines] at h
    rcases htake : takeMatch l is with _ | ⟨i, others⟩
    · simp [htake] at h
    simp only [htake, Option.map_eq_some_iff] at h
    obtain ⟨⟨kept', rest'⟩, hmatch, heq⟩ := h
    simp only [Prod.mk.injEq] at heq
    obtain ⟨rfl, rfl⟩ := heq
    obtain ⟨hkeep, hperm⟩ := takeMatch_perm htake
    obtain ⟨hkeeps, hperms⟩ := matchLines_perm ls hmatch
    refine ⟨fun p hp => ?_, (hperms.cons i).trans hperm⟩
    rcases List.mem_cons.mp hp with rfl | hp
    · exact hkeep
    · exact hkeeps p hp

end Match

section Batch

variable {b b' : Books} {t : Id} {st st' : BulkState} {recs : Recs} {input : BulkInput}
  {facts : BulkFacts} {posted : Bool}

/-- The row a batch recategorises, and the account it goes to. -/
def categoryMove (b : Books) (t : Id) (input : BulkInput) : Option (JournalLine × Id) :=
  match input.setCategoryAccountId, b.categoryLines t with
  | some a, [l] => if l.billed ∨ l.accountId = a then none else some (l, a)
  | _, _ => none

/-- The accounts between which a batch moves rows of the document. -/
def sourceMove (recs : Recs) (b : Books) (t : Id) (input : BulkInput) : Option (Id × Id) :=
  match input.moveFromAccountId, input.moveToAccountId with
  | some source, some target =>
    let ls := (b.linesOf t).filter fun l => l.accountId = source
    if ls = [] ∨ ls.any fun l => recs.clearedIn none l.id then none else some (source, target)
  | _, _ => none

theorem bulkCategory_moves (h : bulkCategory st t posted input = .go st') :
    st'.books = st.books ∨ ∃ l a out into, categoryMove st.books t input = some (l, a) ∧
      l ∈ st.books.categoryLines t ∧ into.accountId = a ∧
      st'.books = st.books.moveLines posted [l.id] out into := by
  rcases bulkCategory_go h with heq | ⟨a, l, hset, hone, hbilled, hne, heq⟩
  · exact .inl heq
  · refine .inr ⟨l, a, _, _, ?_, by simp [hone], rfl, heq⟩
    simp [categoryMove, hset, hone, hbilled, hne]

theorem bulkMove_moves (h : bulkMove st recs t posted input = .go st') :
    st'.books = st.books ∨ ∃ source target out into,
      sourceMove recs st.books t input = some (source, target) ∧ into.accountId = target ∧
      st'.books = st.books.moveLines posted
        (((st.books.linesOf t).filter fun l => l.accountId = source).map (·.id)) out into := by
  unfold bulkMove at h
  split at h
  · rename_i source target hfrom hto
    dsimp only at h
    split_ifs at h with hnil hsole hcleared hsole hposted <;> simp only [BulkStep.go.injEq] at h <;>
      subst h
    · exact .inl rfl
    · exact .inl rfl
    all_goals
      have hmove : sourceMove recs st.books t input = some (source, target) := by
        simp only [sourceMove, hfrom, hto]
        rw [if_neg (not_or.mpr ⟨hnil, hcleared⟩)]
      set ls := (st.books.linesOf t).filter fun l => l.accountId = source
      refine .inr ⟨source, target, ⟨source, sideTotal ls (·.credit), sideTotal ls (·.debit)⟩,
        ⟨target, sideTotal ls (·.debit), sideTotal ls (·.credit)⟩, hmove, rfl, ?_⟩
      simp only [Books.moveLines, sideTotal, hposted]
      rfl
  · simp only [BulkStep.go.injEq] at h
    exact .inl (by rw [← h])

/-- How far one transaction of a batch gets. -/
theorem bulkOne_cases {skipped : Option String}
    (h : bulkOne recs input facts b t = .ok (b', skipped)) :
    b' = b ∨ ∃ txn, b.txns t = some txn ∧ bulkCheck input facts t txn = .ok none ∧
      (b' = (bulkPayee b t txn input).books ∨
        ∃ st, bulkCategory (bulkPayee b t txn input) t (txn.status = .posted) input = .go st ∧
          (b' = st.books ∨ ∃ st', bulkMove st recs t (txn.status = .posted) input = .go st' ∧
            b' = (bulkTag st' t input).books)) := by
  unfold bulkOne at h
  rcases htxn : b.txns t with _ | txn
  · simp only [htxn, Except.ok.injEq, Prod.mk.injEq] at h
    exact .inl h.1.symm
  simp only [htxn] at h
  rcases hcheck : bulkCheck input facts t txn with e | _ | reason
  · simp [hcheck] at h
  · refine .inr ⟨txn, rfl, hcheck, ?_⟩
    simp only [hcheck] at h
    rcases hc : bulkCategory (bulkPayee b t txn input) t (txn.status = .posted) input with st₁ | r
    · simp only [hc] at h
      refine .inr ⟨st₁, rfl, ?_⟩
      rcases hm : bulkMove st₁ recs t (txn.status = .posted) input with st₂ | r
      · simp only [hm, Except.ok.injEq, Prod.mk.injEq] at h
        exact .inr ⟨st₂, rfl, h.1.symm⟩
      · simp only [hm, Except.ok.injEq, Prod.mk.injEq] at h
        exact .inl h.1.symm
    · simp only [hc, Except.ok.injEq, Prod.mk.injEq] at h
      exact .inl h.1.symm
  · simp only [hcheck, Except.ok.injEq, Prod.mk.injEq] at h
    exact .inl h.1.symm

end Batch

end MyBooks
