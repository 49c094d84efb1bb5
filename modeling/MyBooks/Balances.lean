import MyBooks.Documents

/-!
# Denormalised balances and the ledger

Every posting path keeps the account balances by the change it makes to one document
(`ChangesOnly.balanced`), and the costing walk by the change it makes to the derived lines
(`applyCosting_balanced`). Three things break this: a void reverses the lines of a document that is
not posted, amounts of more than four places are netted before they are rounded, and sums of
`10 ^ 16` and more lose their last places to the 20 digits of the decimals.
-/

namespace MyBooks

/-- What the lines come to on account `a`. -/
def lineNet (ls : List JournalLine) (a : Id) : Dec :=
  (ls.map fun l => if l.accountId = a then l.debit - l.credit else 0).sum

section Sums

variable {ls ls' : List JournalLine} {a : Id}

@[simp] theorem lineNet_nil : lineNet [] a = 0 := rfl

theorem lineNet_append : lineNet (ls ++ ls') a = lineNet ls a + lineNet ls' a := by
  simp [lineNet]

theorem sum_filter_map {α : Type} (p : α → Bool) (f : α → Dec) (xs : List α) :
    ((xs.filter p).map f).sum = (xs.map fun x => if p x then f x else 0).sum := by
  rw [List.sum_map_ite, List.sum_map_zero, add_zero]
  simp only [Bool.decide_eq_true]

theorem sum_filter_split {α : Type} (p : α → Bool) (f : α → Dec) (xs : List α) :
    (xs.map f).sum = ((xs.filter p).map f).sum + ((xs.filter (fun x => ¬p x)).map f).sum := by
  rw [sum_filter_map, sum_filter_map, ← List.sum_map_add]
  refine congrArg List.sum (List.map_congr_left fun x _ => ?_)
  by_cases h : p x = true <;> simp [h]

theorem storedNet_eq (es : List Entry) (a : Id) :
    storedNet es a =
      (es.map fun e => if e.accountId = a then round4 e.debit - round4 e.credit else 0).sum := by
  rw [storedNet, sum_filter_map]
  simp

theorem storedNet_entries (t : Id) (lines : List LineInput) :
    storedNet (lines.map LineInput.entry) a = lineNet (lines.map (LineInput.stored t)) a := by
  rw [storedNet_eq, lineNet, List.map_map, List.map_map]
  rfl

theorem storedNet_reversed (h : ∀ l ∈ ls, Places 4 l.debit ∧ Places 4 l.credit) :
    storedNet (ls.map JournalLine.reversed) a = -lineNet ls a := by
  rw [storedNet_eq, lineNet, List.map_map, eq_neg_iff_add_eq_zero, ← List.sum_map_add]
  refine List.sum_eq_zero fun x hx => ?_
  obtain ⟨l, hl, rfl⟩ := List.mem_map.mp hx
  simp only [Function.comp_apply, JournalLine.reversed, round4]
  rw [toPlaces_of_places (h l hl).1, toPlaces_of_places (h l hl).2]
  by_cases ha : l.accountId = a <;> simp [ha]

end Sums

namespace Books

variable {b b' : Books} {t a : Id}

/-- What document `t` adds to account `a`. -/
def docNet (b : Books) (t a : Id) : Dec :=
  if b.status t = some .posted then lineNet (b.linesOf t) a else 0

/-- The balance of every account is what its posted lines come to. -/
def Balanced (b : Books) : Prop := ∀ a, b.balance a = b.ledgerSum a

theorem ledgerSum_eq : b.ledgerSum a =
    lineNet (b.lines.filter fun l => b.status l.transactionId = some .posted) a := by
  rw [ledgerSum, lineNet, sum_filter_map, sum_filter_map]
  refine congrArg List.sum (List.map_congr_left fun l _ => ?_)
  by_cases ha : l.accountId = a <;> by_cases hp : b.status l.transactionId = some .posted <;>
    simp [ha, hp]

/-- One document and the others. -/
theorem ledgerSum_split (b : Books) (t a : Id) : b.ledgerSum a = b.docNet t a +
    lineNet ((b.lines.filter fun l => l.transactionId ≠ t).filter
      fun l => b.status l.transactionId = some .posted) a := by
  rw [ledgerSum_eq, lineNet, sum_filter_split (fun l : JournalLine => l.transactionId = t),
    List.filter_filter, List.filter_filter]
  refine congrArg₂ (· + ·) ?_ ?_
  · unfold docNet
    split_ifs with hp
    · refine congrArg List.sum (congrArg (List.map _) (List.filter_congr fun l _ => ?_))
      by_cases ht : l.transactionId = t <;> simp [ht, hp]
    · rw [List.filter_eq_nil_iff.mpr]
      · rfl
      · intro l _ hl
        simp only [Bool.and_eq_true, decide_eq_true_eq] at hl
        rw [hl.1] at hl
        exact hp hl.2
  · rw [lineNet, List.filter_filter]
    refine congrArg List.sum (congrArg (List.map _) (List.filter_congr fun l _ => ?_))
    by_cases ht : l.transactionId = t <;> simp [ht]

theorem ChangesOnly.ledgerSum (h : ChangesOnly t b b') (a : Id) :
    b'.ledgerSum a = b.ledgerSum a - b.docNet t a + b'.docNet t a := by
  have hrest : (b'.lines.filter fun l => l.transactionId ≠ t).filter
        (fun l => b'.status l.transactionId = some .posted) =
      (b.lines.filter fun l => l.transactionId ≠ t).filter
        (fun l => b.status l.transactionId = some .posted) := by
    rw [h.lines]
    refine List.filter_congr fun l hl => ?_
    have ht : l.transactionId ≠ t := by simpa using (List.mem_filter.mp hl).2
    rw [h.status ht]
  rw [ledgerSum_split b t a, ledgerSum_split b' t a, hrest]
  ring

/-- Balances follow the ledger when they move by what the document does. -/
theorem ChangesOnly.balanced (h : ChangesOnly t b b') (hb : b.Balanced)
    (hmove : ∀ a, b'.balance a = b.balance a - b.docNet t a + b'.docNet t a) : b'.Balanced := by
  intro a
  rw [hmove, h.ledgerSum, hb a]

theorem docNet_posted (h : b.status t = some .posted) :
    b.docNet t a = lineNet (b.linesOf t) a := by
  rw [docNet, if_pos h]

theorem docNet_not_posted (h : b.status t ≠ some .posted) : b.docNet t a = 0 := by
  rw [docNet, if_neg h]

theorem post_balance {entries : List Entry} (h : NetsExactly entries) (a : Id) :
    (b.post entries).balance a = b.balance a + storedNet entries a :=
  updateAccountBalances_eq h a

@[simp] theorem docNet_post {entries : List Entry} :
    (b.post entries).docNet t a = b.docNet t a := rfl

end Books

section Documents

variable {b : Books} {t : Id} {input : PostInput}

theorem linesOf_addLines {new : List JournalLine} (hnew : ∀ l ∈ new, l.transactionId = t) :
    (b.addLines new).linesOf t = b.linesOf t ++ new := by
  have hall : new.filter (fun l => l.transactionId = t) = new := by
    simpa using hnew
  rw [Books.linesOf, Books.addLines_lines, List.filter_append, hall, Books.linesOf]

theorem booked_docNet (w : b.Rows) (ht : b.txns t = none) (a : Id) :
    (input.booked b t).docNet t a =
      if input.status.getD .posted = .posted then
        lineNet (input.lines.map (LineInput.stored t)) a
      else 0 := by
  have hlines : (input.booked b t).linesOf t = input.lines.map (LineInput.stored t) := by
    rw [PostInput.booked, linesOf_addLines fun _ hl => (mem_stored hl).1]
    show b.linesOf t ++ _ = _
    rw [linesOf_nil w ht, List.nil_append]
  have hstatus : (input.booked b t).status t = some (input.status.getD .posted) := by
    simp [PostInput.booked, Books.status]
  rw [Books.docNet, hlines, hstatus]
  simp

theorem booked_balanced (w : b.Rows) (hb : b.Balanced) (ht : b.txns t = none)
    (hs : input.status.getD .posted = .posted)
    (hnet : NetsExactly (input.lines.map LineInput.entry)) :
    ((input.booked b t).post (input.lines.map LineInput.entry)).Balanced := by
  refine (booked_changes.trans Books.post_changes).balanced hb fun a => ?_
  have hold : b.docNet t a = 0 := Books.docNet_not_posted (by rw [Books.status, ht]; simp)
  rw [Books.post_balance hnet, Books.docNet_post, booked_docNet w ht, if_pos hs, hold,
    storedNet_entries t]
  show b.balance a + _ = _
  ring

theorem booked_draft_balanced (w : b.Rows) (hb : b.Balanced) (ht : b.txns t = none)
    (hs : input.status.getD .posted ≠ .posted) : (input.booked b t).Balanced := by
  refine booked_changes.balanced hb fun a => ?_
  have hold : b.docNet t a = 0 := Books.docNet_not_posted (by rw [Books.status, ht]; simp)
  rw [booked_docNet w ht, if_neg hs, hold]
  show b.balance a = _
  ring

variable {status : TxnStatus} {ls : List JournalLine} {ids : List Id}

/-- Taking a document back: what it added goes. -/
theorem reverseDocument_balanced {b' : Books} (hb : b.Balanced) (ht : b.txns t ≠ none)
    (hs : status ≠ .posted) (hframe : (b.reverseDocument t status ls ids).ChangesOnly t b')
    (hstatus : b'.status t = (b.reverseDocument t status ls ids).status t)
    (hmove : ∀ a, b'.balance a = b.balance a - b.docNet t a) : b'.Balanced := by
  refine (reverseDocument_changes.trans hframe).balanced hb fun a => ?_
  have hnew : b'.docNet t a = 0 := by
    refine Books.docNet_not_posted ?_
    rw [hstatus, reverseDocument_status ht]
    simpa using hs
  rw [hmove, hnew, add_zero]

theorem linesOf_amounts (w : b.Rows) : ∀ l ∈ b.linesOf t, Places 4 l.debit ∧ Places 4 l.credit :=
  fun l hl => w.amounts l (Books.mem_linesOf.mp hl).1

/-- Amounts that fit their columns net exactly, each on its own. -/
theorem netsExactly_reversed (w : b.Rows) {l : JournalLine} (hl : l ∈ b.lines) :
    NetsExactly [l.reversed] := by
  obtain ⟨hd, hc⟩ := w.amounts l hl
  have hfit := w.fits l hl
  simp only [JournalLine.fits, decide_eq_true_eq] at hfit
  refine FitsDigits.netsExactly ⟨by simpa [JournalLine.reversed] using hc,
    by simpa [JournalLine.reversed] using hd, ?_⟩
  simp only [JournalLine.reversed, List.map_cons, List.map_nil, List.sum_cons, List.sum_nil]
  linarith [hfit.1, hfit.2]

theorem foldl_post_balance (w : b.Rows) (a : Id) : ∀ (ls : List JournalLine) (b' : Books),
    (∀ l ∈ ls, l ∈ b.lines) →
      (ls.foldl (fun b l => b.post [l.reversed]) b').balance a = b'.balance a - lineNet ls a
  | [], b', _ => by simp
  | l :: ls, b', hls => by
    have hl := hls l List.mem_cons_self
    have hone : storedNet [l.reversed] a = -lineNet [l] a :=
      @storedNet_reversed [l] a (by simpa using w.amounts l hl)
    rw [List.foldl_cons, foldl_post_balance w a ls _ fun l' hl' => hls l' (List.mem_cons_of_mem _ hl'),
      Books.post_balance (netsExactly_reversed w hl), hone,
      show lineNet (l :: ls) a = lineNet [l] a + lineNet ls a from @lineNet_append [l] ls a]
    ring

/-- A posted document has no reversals among its lines. -/
theorem voidedLines_posted {txn : Txn} (w : b.Rows) (hp : b.status t = some .posted) :
    b.voidedLines t txn = b.linesOf t := by
  unfold Books.voidedLines
  split_ifs
  · refine List.filter_eq_self.mpr fun l hl => ?_
    obtain ⟨hl, ht⟩ := Books.mem_linesOf.mp hl
    have hrev : l.isVoidReversal ≠ true := fun hr => w.reversals l hl hr (by rw [ht]; exact hp)
    simpa using hrev
  · rfl

theorem post_reversed_balance {b' : Books} (w : b.Rows) (hp : b.status t = some .posted)
    (hnet : NetsExactly ((b.linesOf t).map JournalLine.reversed)) (a : Id) :
    (b'.post ((b.linesOf t).map JournalLine.reversed)).balance a = b'.balance a - b.docNet t a := by
  rw [Books.post_balance hnet, storedNet_reversed (linesOf_amounts w), Books.docNet_posted hp]
  ring

end Documents

section Update

variable {b : Books} {t : Id} {txn : Txn} {input : PostInput}

theorem rewritten_linesOf :
    (b.rewritten t txn input).linesOf t = input.lines.map (LineInput.stored t) := by
  unfold Books.rewritten
  dsimp only
  rw [linesOf_addLines fun _ hl => (mem_stored hl).1]
  simp [Books.linesOf, Books.dropLines, List.filter_filter]

theorem rewritten_status : (b.rewritten t txn input).status t = some txn.status := by
  simp [Books.rewritten, Books.status]

theorem rewritten_balanced (w : b.Rows) (hb : b.Balanced) (ht : b.txns t = some txn)
    (hs : txn.status = .posted) (hold : NetsExactly ((b.linesOf t).map JournalLine.reversed))
    (hnew : NetsExactly (input.lines.map LineInput.entry)) :
    ((b.rewritten t txn input).post (input.lines.map LineInput.entry)).Balanced := by
  refine (rewritten_changes.trans Books.post_changes).balanced hb fun a => ?_
  have hp : b.status t = some .posted := by simp [Books.status, ht, hs]
  have hp' : (b.rewritten t txn input).status t = some .posted := by rw [rewritten_status, hs]
  have hbal : (b.rewritten t txn input).balance a = b.balance a - b.docNet t a := by
    rw [← post_reversed_balance w hp hold]
    simp only [Books.rewritten, hs, ↓reduceIte]
    rfl
  rw [Books.post_balance hnew, hbal, Books.docNet_post, Books.docNet_posted hp', rewritten_linesOf,
    storedNet_entries t]

theorem rewritten_draft_balanced (hb : b.Balanced) (ht : b.txns t = some txn)
    (hs : txn.status ≠ .posted) : (b.rewritten t txn input).Balanced := by
  refine rewritten_changes.balanced hb fun a => ?_
  have hold : b.docNet t a = 0 := Books.docNet_not_posted (by simpa [Books.status, ht] using hs)
  have hnew : (b.rewritten t txn input).docNet t a = 0 :=
    Books.docNet_not_posted (by simpa [rewritten_status] using hs)
  have hbal : (b.rewritten t txn input).balance a = b.balance a := by
    simp only [Books.rewritten, hs, ↓reduceIte]
    rfl
  rw [hbal, hold, hnew]
  ring

theorem takeMatch_filter {l : JournalLine} {p : Id → Bool} (hl : p l.accountId = true) :
    ∀ {is : List LineInput} {i : LineInput} {rest : List LineInput},
      takeMatch l is = some (i, rest) →
        rest.filter (fun i => ¬p i.accountId) = is.filter (fun i => ¬p i.accountId)
  | [], i, rest, h => by simp [takeMatch] at h
  | i₀ :: is, i, rest, h => by
    simp only [takeMatch] at h
    split_ifs at h with hk
    · simp only [Option.some.injEq, Prod.mk.injEq] at h
      obtain ⟨rfl, rfl⟩ := h
      have hi : i₀.accountId = l.accountId := by
        simp only [keeps, decide_eq_true_eq] at hk
        exact hk.1
      simp [hi, hl]
    · obtain ⟨⟨i', rest'⟩, htake, heq⟩ := Option.map_eq_some_iff.mp h
      simp only [Prod.mk.injEq] at heq
      rw [← heq.2, List.filter_cons, List.filter_cons, takeMatch_filter hl htake]

theorem matchLines_filter {p : Id → Bool} : ∀ {ls : List JournalLine} {is : List LineInput}
    {kept : List (JournalLine × LineInput)} {rest : List LineInput},
    (∀ l ∈ ls, p l.accountId = true) → matchLines ls is = some (kept, rest) →
      rest.filter (fun i => ¬p i.accountId) = is.filter (fun i => ¬p i.accountId)
  | [], is, kept, rest, _, h => by
    simp only [matchLines, Option.some.injEq, Prod.mk.injEq] at h
    rw [h.2]
  | l :: ls, is, kept, rest, hls, h => by
    simp only [matchLines] at h
    rcases htake : takeMatch l is with _ | ⟨i, others⟩
    · simp [htake] at h
    simp only [htake, Option.map_eq_some_iff] at h
    obtain ⟨⟨kept', rest'⟩, hmatch, heq⟩ := h
    rw [← (Prod.mk.inj heq).2,
      matchLines_filter (fun l' hl' => hls l' (List.mem_cons_of_mem _ hl')) hmatch,
      takeMatch_filter (hls l List.mem_cons_self) htake]

/-- What a partial edit books anew are the input lines off the balance sheet. -/
theorem partialEdit_new {kept : List (JournalLine × LineInput)} {new : List LineInput}
    (h : partialEdit b t txn.txnDate input = some (kept, new)) :
    new = input.lines.filter fun i => ¬b.isBalanceSheet i.accountId := by
  obtain ⟨-, hmatch, hnew⟩ := partialEdit_some h
  rw [← matchLines_filter (fun l hl => (mem_balanceSheetLines.mp hl).2.2) hmatch]
  exact (List.filter_eq_self.mpr fun i hi => by simpa using hnew i hi).symm

theorem lineNet_retag (kept : List (JournalLine × LineInput)) (ls : List JournalLine) (a : Id) :
    lineNet (ls.map (retag kept)) a = lineNet ls a := by
  rw [lineNet, lineNet, List.map_map]
  refine congrArg List.sum (List.map_congr_left fun l _ => ?_)
  simp only [Function.comp_apply, retag_accountId, (retag_row l).2.2.1, (retag_row l).2.2.2.1]

/-- Keys tell the lines of a document apart. -/
theorem Books.Rows.id_mem_filter (w : b.Rows) {q : JournalLine → Bool} {l : JournalLine}
    (hl : l ∈ b.linesOf t) : l.id ∈ ((b.linesOf t).filter q).map JournalLine.id ↔ q l = true := by
  constructor
  · intro hid
    have hmem := (w.mem_of_id (fun l' hl' => List.mem_of_mem_filter hl')
      (Books.mem_linesOf.mp hl).1 hid).1
    exact (List.mem_filter.mp hmem).2
  · exact fun hq => List.mem_map_of_mem (List.mem_filter.mpr ⟨hl, hq⟩)

theorem editLines_linesOf {kept : List (JournalLine × LineInput)} {q : JournalLine → Bool}
    {new : List LineInput} (w : b.Rows) :
    (b.editLines t kept (((b.linesOf t).filter q).map JournalLine.id) new).linesOf t =
      ((b.linesOf t).filter fun l => ¬q l).map (retag kept) ++
        new.map (LineInput.stored t) := by
  set old := ((b.linesOf t).filter q).map JournalLine.id with hold
  have hnew : (new.map (LineInput.stored t)).filter (fun l => l.transactionId = t) =
      new.map (LineInput.stored t) :=
    List.filter_eq_self.mpr fun l hl => by simpa using (mem_stored hl).1
  have htxn : (fun l : JournalLine => decide (l.transactionId = t)) ∘ retag kept =
      fun l => decide (l.transactionId = t) := by
    funext l
    simp only [Function.comp_apply, (retag_row l).2.1]
  have hkept : (b.lines.filter (fun l => l.id ∉ old)).filter (fun l => l.transactionId = t) =
      (b.linesOf t).filter fun l => ¬q l := by
    rw [List.filter_filter, Books.linesOf, List.filter_filter]
    refine List.filter_congr fun l hl => ?_
    by_cases ht : l.transactionId = t
    · have hid := w.id_mem_filter (q := q) (Books.mem_linesOf.mpr ⟨hl, ht⟩)
      rw [← hold] at hid
      by_cases hq : q l = true <;> simp [ht, hid, hq]
    · simp [ht]
  show ((b.lines.filter (fun l => l.id ∉ old)).map (retag kept) ++ _).filter _ = _
  rw [List.filter_append, hnew, List.filter_map, htxn, hkept]

theorem editLines_lineNet {kept : List (JournalLine × LineInput)} {q : JournalLine → Bool}
    {new : List LineInput} (w : b.Rows) (a : Id) :
    lineNet ((b.editLines t kept (((b.linesOf t).filter q).map JournalLine.id) new).linesOf t) a =
      lineNet (b.linesOf t) a - lineNet ((b.linesOf t).filter q) a +
        lineNet (new.map (LineInput.stored t)) a := by
  have hsplit : lineNet (b.linesOf t) a = lineNet ((b.linesOf t).filter q) a +
      lineNet ((b.linesOf t).filter fun l => ¬q l) a := sum_filter_split q _ _
  rw [editLines_linesOf w, lineNet_append, lineNet_retag, hsplit]
  ring

theorem replacedLines_eq : b.replacedLines t = (b.linesOf t).filter fun l =>
    ¬b.isBalanceSheet l.accountId ∧ ¬l.isVoidReversal := by
  rw [Books.replacedLines, Books.editable, List.filter_filter]
  refine List.filter_congr fun l _ => ?_
  simp

theorem reconciledEdit_balanced {contact : Option Id} {kept : List (JournalLine × LineInput)}
    {new : List LineInput} (w : b.Rows) (hb : b.Balanced) (ht : b.txns t = some txn)
    (hs : txn.status = .posted) (hkept : ∀ p ∈ kept, p.1 ∈ b.linesOf t)
    (hold : NetsExactly ((b.replacedLines t).map JournalLine.reversed))
    (hnew : NetsExactly (new.map LineInput.entry)) :
    (b.reconciledEdit t txn contact kept new).Balanced := by
  refine (reconciledEdit_changes w hkept).balanced hb fun a => ?_
  have hp : b.status t = some .posted := by simp [Books.status, ht, hs]
  set b₁ := b.post ((b.replacedLines t).map JournalLine.reversed)
  set b₂ := b₁.editLines t kept ((b.replacedLines t).map JournalLine.id) new with hb₂
  have hp' : (b.reconciledEdit t txn contact kept new).status t = some .posted := by
    simp [Books.reconciledEdit, Books.status, hs]
  have hlines : (b.reconciledEdit t txn contact kept new).docNet t a = lineNet (b₂.linesOf t) a :=
    Books.docNet_posted hp'
  have hafter : lineNet (b₂.linesOf t) a = lineNet (b.linesOf t) a -
      lineNet (b.replacedLines t) a + lineNet (new.map (LineInput.stored t)) a := by
    rw [hb₂, replacedLines_eq]
    exact editLines_lineNet (b := b₁) w.post a
  have hmem : ∀ l ∈ b.replacedLines t, Places 4 l.debit ∧ Places 4 l.credit :=
    fun l hl => linesOf_amounts w l (mem_replacedLines.mp hl).1
  calc (b.reconciledEdit t txn contact kept new).balance a
      = b₂.balance a + storedNet (new.map LineInput.entry) a := Books.post_balance hnew a
    _ = b₁.balance a + lineNet (new.map (LineInput.stored t)) a := by rw [storedNet_entries t]; rfl
    _ = b.balance a - lineNet (b.replacedLines t) a + lineNet (new.map (LineInput.stored t)) a := by
      rw [Books.post_balance hold, storedNet_reversed hmem]
      ring
    _ = b.balance a - b.docNet t a + (b.reconciledEdit t txn contact kept new).docNet t a := by
      rw [hlines, hafter, Books.docNet_posted hp]
      ring

end Update

section Bulk

variable {b : Books} {t : Id} {input : BulkInput} {st st' : BulkState} {recs : Recs}

/-- Changes of tags and keys aside, the same rows under the same headers. -/
theorem ledgerSum_map {b' : Books} {f : JournalLine → JournalLine}
    (hlines : b'.lines = b.lines.map f)
    (hstatus : ∀ t, b'.status t = b.status t)
    (hf : ∀ l, (f l).transactionId = l.transactionId ∧ (f l).debit = l.debit ∧
      (f l).credit = l.credit ∧ (f l).accountId = l.accountId) (a : Id) :
    b'.ledgerSum a = b.ledgerSum a := by
  rw [Books.ledgerSum, Books.ledgerSum, sum_filter_map, sum_filter_map, hlines, List.map_map]
  refine congrArg List.sum (List.map_congr_left fun l _ => ?_)
  simp only [Function.comp_apply, (hf l).1, (hf l).2.1, (hf l).2.2.1, (hf l).2.2.2, hstatus]

theorem bulkTag_balanced (hb : st.books.Balanced) : (bulkTag st t input).books.Balanced := by
  obtain ⟨f, heq, hf⟩ := bulkTag_books st t input
  intro a
  have hsum : (bulkTag st t input).books.ledgerSum a = st.books.ledgerSum a := by
    rw [heq]
    refine ledgerSum_map (f := f) ?_ ?_ ?_ a
    · rfl
    · exact fun _ => rfl
    · exact fun l => ⟨(hf l).2.1, (hf l).2.2.1, (hf l).2.2.2.1, (hf l).2.2.2.2.2.1⟩
  rw [hsum, heq]
  exact hb a

theorem bulkPayee_balanced {txn : Txn} (hb : b.Balanced) (ht : b.txns t = some txn) :
    (bulkPayee b t txn input).books.Balanced := by
  rcases bulkPayee_books b t txn input with h | ⟨contact, h⟩
  · rwa [h]
  · intro a
    have hsum : (bulkPayee b t txn input).books.ledgerSum a = b.ledgerSum a := by
      rw [h]
      refine ledgerSum_map (f := id) ?_ ?_ ?_ a
      · exact (List.map_id _).symm
      · exact setTxn_same_status ht rfl
      · exact fun _ => ⟨rfl, rfl, rfl, rfl⟩
    rw [hsum, h]
    exact hb a

/-- Moving lines of a document takes their amounts to the other account. -/
theorem moveLines_lineNet {posted : Bool} {q : JournalLine → Bool} {out into : Entry}
    (w : b.Rows) (a : Id) :
    lineNet ((b.moveLines posted (((b.linesOf t).filter q).map (·.id)) out into).linesOf t) a =
      lineNet (b.linesOf t) a - lineNet ((b.linesOf t).filter q) a +
        if into.accountId = a then
          (((b.linesOf t).filter q).map fun l => l.debit - l.credit).sum
        else 0 := by
  set ids := ((b.linesOf t).filter q).map (·.id) with hids
  have hterm : ∀ l ∈ b.linesOf t,
      (if (moved ids into.accountId l).accountId = a then
          (moved ids into.accountId l).debit - (moved ids into.accountId l).credit
        else 0) =
      (if q l then if into.accountId = a then l.debit - l.credit else 0 else 0) +
        if ¬q l then if l.accountId = a then l.debit - l.credit else 0 else 0 := by
    intro l hl
    have hid := w.id_mem_filter (q := q) hl
    rw [(moved_row l).2.2.1, (moved_row l).2.2.2.1]
    by_cases hq : q l = true
    · simp [moved, hids, hid.mpr hq, hq]
    · simp [moved, hids, mt hid.mp hq, hq]
  have hmoved : lineNet ((b.linesOf t).map (moved ids into.accountId)) a =
      (((b.linesOf t).filter q).map fun l =>
        if into.accountId = a then l.debit - l.credit else 0).sum +
      lineNet ((b.linesOf t).filter fun l => ¬q l) a := by
    rw [lineNet, lineNet, List.map_map, sum_filter_map, sum_filter_map, ← List.sum_map_add]
    exact congrArg List.sum (List.map_congr_left fun l hl => by simpa using hterm l hl)
  have hsplit : lineNet (b.linesOf t) a = lineNet ((b.linesOf t).filter q) a +
      lineNet ((b.linesOf t).filter fun l => ¬q l) a := sum_filter_split q _ _
  rw [moveLines_linesOf, hmoved, hsplit]
  split_ifs
  · ring
  · simp

theorem moveLines_balanced {posted : Bool} {q : JournalLine → Bool} {out into : Entry}
    (w : b.Rows) (hb : b.Balanced) (hp : posted = true ↔ b.status t = some .posted)
    (hout : NetsExactly [out]) (hinto : NetsExactly [into])
    (houtNet : ∀ a, storedNet [out] a = -lineNet ((b.linesOf t).filter q) a)
    (hintoNet : storedNet [into] into.accountId =
      (((b.linesOf t).filter q).map fun l => l.debit - l.credit).sum) :
    (b.moveLines posted (((b.linesOf t).filter q).map (·.id)) out into).Balanced := by
  set b' := b.moveLines posted (((b.linesOf t).filter q).map (·.id)) out into with hb'
  have hchange : b.ChangesOnly t b' := moveLines_changes w fun l hl => List.mem_of_mem_filter hl
  have hstatus : b'.status t = b.status t := by
    rw [hb', Books.status, moveLines_txns, Books.status]
  refine hchange.balanced hb fun a => ?_
  cases posted
  · have hnot : b.status t ≠ some .posted := fun h => by cases hp.mpr h
    rw [Books.docNet_not_posted hnot, Books.docNet_not_posted (hstatus ▸ hnot), hb']
    show b.balance a = _
    ring
  · have hposted := hp.mp rfl
    have hinto' : storedNet [into] a = if into.accountId = a then
        (((b.linesOf t).filter q).map fun l => l.debit - l.credit).sum else 0 := by
      split_ifs with ha
      · rw [← ha, hintoNet]
      · simp [storedNet, ha]
    have hbal : b'.balance a = b.balance a + storedNet [out] a + storedNet [into] a :=
      (Books.post_balance hinto a).trans (congrArg (· + _) (Books.post_balance hout a))
    rw [hbal, Books.docNet_posted hposted, Books.docNet_posted (hstatus.trans hposted), hb',
      moveLines_lineNet w, houtNet, hinto']
    ring

/-- All that the lines of the document are debited and credited with. -/
def Books.docSize (b : Books) (t : Id) : Dec :=
  ((b.linesOf t).map fun l => |l.debit| + |l.credit|).sum

theorem docSize_map {b' : Books} {f : JournalLine → JournalLine}
    (hlines : b'.lines = b.lines.map f)
    (hf : ∀ l, (f l).transactionId = l.transactionId ∧ (f l).debit = l.debit ∧
      (f l).credit = l.credit) (t : Id) : b'.docSize t = b.docSize t := by
  rw [Books.docSize, Books.docSize, Books.linesOf, Books.linesOf, sum_filter_map, sum_filter_map,
    hlines, List.map_map]
  refine congrArg List.sum (List.map_congr_left fun l _ => ?_)
  simp only [Function.comp_apply, (hf l).1, (hf l).2.1, (hf l).2.2]

/-- What a batch keeps of the books it starts from. -/
structure BatchOk (b b' : Books) : Prop where
  rows : b'.Rows
  balanced : b'.Balanced
  status : ∀ t, b'.status t = b.status t
  size : ∀ t, b'.docSize t = b.docSize t

theorem sideTotal_eq {ls : List JournalLine} {side : JournalLine → Dec}
    (hplaces : ∀ l ∈ ls, Places 4 (side l)) (hsize : (ls.map fun l => |side l|).sum < 10 ^ 16) :
    sideTotal ls side = (ls.map side).sum := by
  rw [sideTotal, foldl_plus side ls 0 Places.zero hplaces (by simpa using hsize), zero_add]
  refine toPlaces_of_places (Places.sum fun x hx => ?_)
  obtain ⟨l, hl, rfl⟩ := List.mem_map.mp hx
  exact hplaces l hl

theorem netsExactly_single {e : Entry} (hd : Places 4 e.debit) (hc : Places 4 e.credit)
    (hsize : |e.debit| + |e.credit| < 10 ^ 16) : NetsExactly [e] :=
  FitsDigits.netsExactly ⟨by simpa using hd, by simpa using hc, by simpa using hsize⟩

theorem storedNet_single {e : Entry} (hd : Places 4 e.debit) (hc : Places 4 e.credit) (a : Id) :
    storedNet [e] a = if e.accountId = a then e.debit - e.credit else 0 := by
  rw [storedNet_eq, List.map_singleton, List.sum_singleton, round4, round4,
    toPlaces_of_places hd, toPlaces_of_places hc]

theorem bulkCategory_ok {posted : Bool} (h : BatchOk b st.books)
    (hp : posted = true ↔ b.status t = some .posted)
    (hgo : bulkCategory st t posted input = .go st') : BatchOk b st'.books := by
  rcases bulkCategory_go hgo with heq | ⟨a, l, -, hone, -, -, heq⟩
  · rwa [heq]
  have hl : l ∈ st.books.lines := by
    have hmem : l ∈ st.books.categoryLines t := hone ▸ List.mem_singleton_self l
    exact (Books.mem_linesOf.mp (List.mem_of_mem_filter hmem)).1
  obtain ⟨hd, hc⟩ := h.rows.amounts l hl
  have hfit := h.rows.fits l hl
  simp only [JournalLine.fits, decide_eq_true_eq] at hfit
  have hids : [l.id] = (st.books.categoryLines t).map (·.id) := by rw [hone]; rfl
  rw [hids] at heq
  rw [heq]
  refine ⟨moveLines_rows h.rows, moveLines_balanced h.rows h.balanced (by rwa [h.status])
    (netsExactly_reversed h.rows hl) (netsExactly_single hd hc (by linarith [hfit.1, hfit.2]))
    (fun a' => ?_) ?_, fun t' => ?_, fun t' => ?_⟩
  · show storedNet ([l].map JournalLine.reversed) a' = -lineNet (st.books.categoryLines t) a'
    rw [hone]
    exact storedNet_reversed (by simpa using h.rows.amounts l hl)
  · show storedNet [⟨a, l.debit, l.credit⟩] a =
      ((st.books.categoryLines t).map fun l => l.debit - l.credit).sum
    rw [storedNet_single hd hc, hone]
    simp
  · rw [← h.status, Books.status, moveLines_txns, Books.status]
  · rw [← h.size]
    exact docSize_map moveLines_lines
      (fun l => ⟨(moved_row l).2.1, (moved_row l).2.2.1, (moved_row l).2.2.2.1⟩) t'

theorem bulkMove_ok {posted : Bool} (h : BatchOk b st.books)
    (hp : posted = true ↔ b.status t = some .posted) (hsize : b.docSize t < 10 ^ 16)
    (hgo : bulkMove st recs t posted input = .go st') : BatchOk b st'.books := by
  rcases bulkMove_go hgo with heq | ⟨source, target, -, -, heq⟩
  · rwa [heq]
  set ls := (st.books.linesOf t).filter fun l => l.accountId = source with hls
  have hamounts : ∀ l ∈ ls, Places 4 l.debit ∧ Places 4 l.credit := fun l hl =>
    linesOf_amounts h.rows l (List.mem_of_mem_filter hl)
  have htotal : (ls.map fun l => |l.debit| + |l.credit|).sum < 10 ^ 16 := by
    rw [← h.size] at hsize
    exact (sum_map_filter_le _ (fun l => by positivity) _).trans_lt hsize
  have hdebits : (ls.map fun l => |l.debit|).sum + (ls.map fun l => |l.credit|).sum < 10 ^ 16 := by
    rwa [← List.sum_map_add]
  have hd0 : 0 ≤ (ls.map fun l => |l.debit|).sum := List.sum_nonneg fun x hx => by
    obtain ⟨l, -, rfl⟩ := List.mem_map.mp hx
    exact abs_nonneg _
  have hc0 : 0 ≤ (ls.map fun l => |l.credit|).sum := List.sum_nonneg fun x hx => by
    obtain ⟨l, -, rfl⟩ := List.mem_map.mp hx
    exact abs_nonneg _
  have hd : sideTotal ls (·.debit) = (ls.map (·.debit)).sum :=
    sideTotal_eq (fun l hl => (hamounts l hl).1) (by linarith)
  have hc : sideTotal ls (·.credit) = (ls.map (·.credit)).sum :=
    sideTotal_eq (fun l hl => (hamounts l hl).2) (by linarith)
  have habs : |sideTotal ls (·.debit)| + |sideTotal ls (·.credit)| < 10 ^ 16 := by
    rw [hd, hc]
    refine lt_of_le_of_lt (add_le_add ?_ ?_) hdebits
    · exact abs_sum_map_le _ ls
    · exact abs_sum_map_le _ ls
  have hpd : Places 4 (sideTotal ls (·.debit)) := places_toPlaces 4 _
  have hpc : Places 4 (sideTotal ls (·.credit)) := places_toPlaces 4 _
  have hdiff : (ls.map (·.debit)).sum - (ls.map (·.credit)).sum =
      (ls.map fun l => l.debit - l.credit).sum := by
    rw [sub_eq_iff_eq_add, ← List.sum_map_add]
    simp
  have hnet : ∀ a, lineNet ls a =
      if source = a then (ls.map fun l => l.debit - l.credit).sum else 0 := by
    intro a
    have hsame : ∀ l ∈ ls, l.accountId = source := fun l hl => by
      simpa using (List.mem_filter.mp hl).2
    split_ifs with ha
    · exact congrArg List.sum (List.map_congr_left fun l hl => by rw [hsame l hl, if_pos ha])
    · refine List.sum_eq_zero fun x hx => ?_
      obtain ⟨l, hl, rfl⟩ := List.mem_map.mp hx
      rw [hsame l hl, if_neg ha]
  rw [heq]
  refine ⟨moveLines_rows h.rows, moveLines_balanced h.rows h.balanced (by rwa [h.status])
    (netsExactly_single hpc hpd (by linarith)) (netsExactly_single hpd hpc habs) (fun a => ?_) ?_,
    fun t' => ?_, fun t' => ?_⟩
  · rw [storedNet_single hpc hpd, ← hls, hnet, hd, hc]
    split_ifs
    · rw [← hdiff]
      ring
    · simp
  · rw [storedNet_single hpd hpc, if_pos rfl, ← hls, hd, hc, hdiff]
  · rw [← h.status, Books.status, moveLines_txns, Books.status]
  · rw [← h.size]
    exact docSize_map moveLines_lines
      (fun l => ⟨(moved_row l).2.1, (moved_row l).2.2.1, (moved_row l).2.2.2.1⟩) t'

theorem bulkOne_ok {b₀ b' : Books} {facts : BulkFacts} {skipped : Option String}
    (hb : BatchOk b₀ b) (hsize : input.moveToAccountId.isSome → b₀.docSize t < 10 ^ 16)
    (h : bulkOne recs input facts b t = .ok (b', skipped)) : BatchOk b₀ b' := by
  refine bulkOne_keeps (P := BatchOk b₀) h hb fun txn ht _ => ⟨?_, fun _ h => h, ?_, ?_, ?_⟩
  · refine ⟨bulkPayee_rows hb.rows ht, bulkPayee_balanced hb.balanced ht, fun t' => ?_, fun t' => ?_⟩
    · rw [← hb.status]
      rcases bulkPayee_books b t txn input with heq | ⟨contact, heq⟩
      · rw [heq]
      · rw [heq]
        refine setTxn_same_status ht ?_ t'
        rfl
    · rw [← hb.size]
      rcases bulkPayee_books b t txn input with heq | ⟨contact, heq⟩
      · rw [heq]
      · rw [heq]
        rfl
  all_goals
    have hp : decide (txn.status = .posted) = true ↔ b₀.status t = some .posted := by
      rw [← hb.status, Books.status, ht]
      simp
  · exact fun st st' hst hgo => bulkCategory_ok hst hp hgo
  · intro st st' hst hgo
    by_cases hmove : input.moveToAccountId.isSome
    · exact bulkMove_ok hst hp (hsize hmove) hgo
    · rw [Option.not_isSome_iff_eq_none] at hmove
      rcases hfrom : input.moveFromAccountId with _ | source <;>
        simp only [bulkMove, hmove, hfrom, BulkStep.go.injEq] at hgo <;> rwa [← hgo]
  · intro st hst
    obtain ⟨f, heq, hf⟩ := bulkTag_books st t input
    refine ⟨bulkTag_rows hst.rows, bulkTag_balanced hst.balanced, fun t' => ?_, fun t' => ?_⟩
    · rw [← hst.status, heq]
      rfl
    · rw [← hst.size]
      refine docSize_map (f := f) (by rw [heq]) ?_ t'
      exact fun l => ⟨(hf l).2.1, (hf l).2.2.1, (hf l).2.2.2.1⟩

end Bulk

section Costing

variable {b b' : Books} {c : Costing}

def Costing.newSize (c : Costing) (l : JournalLine) : Dec :=
  match c.update.find? (fun u => u.1 = l.id) with
  | some (_, debit, credit) => |round4 debit| + |round4 credit|
  | none => 0

/-- The old and new amounts of the lines the walk names, and those of its new lines. -/
def Costing.turnover (c : Costing) (b : Books) : Dec :=
  ((b.lines.filter (·.derived)).map fun l =>
    if c.names l then |l.debit| + |l.credit| + c.newSize l else 0).sum +
  (c.insert.map fun l => |round4 l.debit| + |round4 l.credit|).sum

def CostingFits (b : Books) (costing : Option Costing) : Prop :=
  ∀ c ∈ costing, c.turnover b < 10 ^ 16

theorem newSize_nonneg (l : JournalLine) : 0 ≤ c.newSize l := by
  unfold Costing.newSize
  split
  · positivity
  · exact le_rfl

/-- The change of one line. -/
def Costing.lineDelta (c : Costing) (b : Books) (l : JournalLine) : Dec :=
  if c.deletes b l then l.credit - l.debit
  else ((c.rewritten b l).debit - (c.rewritten b l).credit) - (l.debit - l.credit)

theorem lineDelta_le (l : JournalLine) : |c.lineDelta b l| ≤
    if l.derived then if c.names l then |l.debit| + |l.credit| + c.newSize l else 0 else 0 := by
  have hsize := newSize_nonneg (c := c) l
  unfold Costing.lineDelta
  split_ifs with hdel hder hname hder hname
  · exact ((abs_sub _ _).trans (by linarith))
  · simp only [Costing.deletes, decide_eq_true_eq] at hdel
    simp [Costing.names, hdel.1] at hname
  · simp only [Costing.deletes, decide_eq_true_eq] at hdel
    exact absurd (rewrites_iff.mp hdel.2).1 hder
  all_goals
    rcases hamt : c.amounts b l with _ | ⟨debit, credit⟩
    · simp only [Costing.rewritten, hamt, sub_self, abs_zero]
      positivity
    unfold Costing.amounts at hamt
    split_ifs at hamt with hcond
    obtain ⟨u, hfind, heq⟩ := Option.map_eq_some_iff.mp hamt
  · simp only [Costing.rewritten, Costing.amounts, if_pos hcond, hfind, Option.map_some, heq]
    have hnew : c.newSize l = |round4 debit| + |round4 credit| := by
      simp only [Costing.newSize, hfind]
      obtain ⟨_, _, _⟩ := u
      simp only [Prod.mk.injEq] at heq
      rw [heq.1, heq.2]
    rw [hnew]
    have h₁ := abs_sub (round4 debit - round4 credit) (l.debit - l.credit)
    have h₂ := abs_sub (round4 debit) (round4 credit)
    have h₃ := abs_sub l.debit l.credit
    linarith
  · exfalso
    refine hname ?_
    simp only [Costing.names, decide_eq_true_eq]
    have hu := List.find?_some hfind
    exact .inr (List.any_eq_true.mpr ⟨u, List.mem_of_find?_eq_some hfind, hu⟩)
  · exact absurd (rewrites_iff.mp hcond.1).1 hder

theorem delta_eq (a : Id) : c.delta b a =
    (b.lines.map fun l => if l.accountId = a then c.lineDelta b l else 0).sum +
      lineNet (c.inserted b) a := by
  rw [Costing.delta, sum_filter_map, sum_filter_map, lineNet]
  simp [Costing.lineDelta]

theorem abs_delta_le (a : Id) : |c.delta b a| ≤ c.turnover b := by
  rw [delta_eq]
  refine (abs_add_le _ _).trans (add_le_add ?_ ?_)
  · rw [sum_filter_map]
    refine (abs_sum_map_le _ _).trans (List.sum_le_sum fun l _ => ?_)
    refine le_trans ?_ (lineDelta_le (b := b) l)
    split_ifs
    · exact le_rfl
    · rw [abs_zero]
      exact abs_nonneg _
  · refine (abs_sum_map_le _ _).trans ?_
    rw [Costing.inserted, List.map_map]
    refine le_trans (List.sum_le_sum fun l _ => ?_)
      (sum_map_filter_le (b.rewrites ·) (fun l => by positivity) c.insert)
    simp only [Function.comp_apply]
    split_ifs
    · exact abs_sub _ _
    · rw [abs_zero]
      positivity

/-- Rewriting the derived lines adds the walk's delta to every account. -/
theorem applyCosting_ledgerSum (h : applyCosting b c = .ok b') (a : Id) :
    b'.ledgerSum a = b.ledgerSum a + c.delta b a := by
  obtain ⟨-, -, -, htxns, hlines, -⟩ := applyCosting_ok h
  have hstatus : ∀ t, b'.status t = b.status t := fun t => by
    rw [Books.status, htxns, Books.status]
  have hinserted : (c.inserted b).map (fun l => if decide (l.accountId = a ∧
        b.status l.transactionId = some .posted) then l.debit - l.credit else 0) =
      (c.inserted b).map fun l => if l.accountId = a then l.debit - l.credit else 0 := by
    refine List.map_congr_left fun l hl => ?_
    simp [(rewrites_iff.mp (mem_inserted hl).1).2.2]
  have hline : ∀ l : JournalLine,
      (if decide ¬c.deletes b l = true then
        if decide ((c.rewritten b l).accountId = a ∧
            b.status (c.rewritten b l).transactionId = some .posted) then
          (c.rewritten b l).debit - (c.rewritten b l).credit
        else 0
      else 0) =
      (if decide (l.accountId = a ∧ b.status l.transactionId = some .posted) then
          l.debit - l.credit
        else 0) + if l.accountId = a then c.lineDelta b l else 0 := by
    intro l
    rw [(rewritten_row l).2.1, (rewritten_row l).2.2.1, Costing.lineDelta]
    by_cases hr : b.rewrites l = true
    · have hp := (rewrites_iff.mp hr).2.2
      by_cases hdel : c.deletes b l = true <;> by_cases ha : l.accountId = a <;> simp [hp, hdel, ha]
    · have hdel : c.deletes b l = false := by simp [Costing.deletes, hr]
      rw [rewritten_of_not (by simpa using hr)]
      by_cases ha : l.accountId = a <;> simp [hdel, ha]
  rw [Books.ledgerSum, Books.ledgerSum, sum_filter_map, sum_filter_map, hlines]
  simp only [hstatus]
  rw [List.map_append, List.sum_append, hinserted, List.map_map, sum_filter_map, delta_eq,
    ← add_assoc, ← List.sum_map_add]
  exact congrArg (· + _) (congrArg List.sum (List.map_congr_left fun l _ => hline l))

theorem costed_balanced {costing : Option Costing} (w : b.Rows) (hb : b.Balanced)
    (hfits : CostingFits b costing) (h : costed b costing = .ok b') : b'.Balanced := by
  cases costing with
  | none => rwa [← Except.ok.inj h]
  | some c =>
    have h : applyCosting b c = .ok b' := h
    obtain ⟨-, -, -, -, -, hbal⟩ := applyCosting_ok h
    intro a
    have hplaces : Places 4 (c.delta b a) := by
      rw [delta_eq]
      refine Places.add (Places.sum fun x hx => ?_) (Places.sum fun x hx => ?_)
      · obtain ⟨l, hl, rfl⟩ := List.mem_map.mp hx
        obtain ⟨hd, hc⟩ := w.amounts l hl
        split_ifs
        · unfold Costing.lineDelta
          split_ifs
          · exact hc.sub hd
          · refine Places.sub ?_ (hd.sub hc)
            unfold Costing.rewritten
            split
            · exact (places_toPlaces 4 _).sub (places_toPlaces 4 _)
            · exact hd.sub hc
        · exact Places.zero
      · obtain ⟨l, hl, rfl⟩ := List.mem_map.mp hx
        obtain ⟨-, hd, hc⟩ := mem_inserted hl
        split_ifs
        · exact hd.sub hc
        · exact Places.zero
    have hround : round4 (c.delta b a) = c.delta b a := toPlaces_of_places hplaces
    have hsize : |c.delta b a| < 10 ^ 16 := (abs_delta_le a).trans_lt (hfits c rfl)
    rw [hbal, hround, updateAccountBalances_eq
      (netsExactly_single hplaces Places.zero (by simpa using hsize)),
      storedNet_single hplaces Places.zero, applyCosting_ledgerSum h, ← hb a]
    simp

/-- Fewer derived lines, less turnover. -/
theorem CostingFits.of_sublist {costing : Option Costing} (h : CostingFits b costing)
    (hsub : (b'.lines.filter (·.derived)).Sublist (b.lines.filter (·.derived))) :
    CostingFits b' costing := by
  intro c hc
  refine lt_of_le_of_lt (add_le_add ((hsub.map _).sum_le_sum fun x hx => ?_) le_rfl) (h c hc)
  obtain ⟨l, -, rfl⟩ := List.mem_map.mp hx
  have hsize := newSize_nonneg (c := c) l
  split_ifs
  · positivity
  · exact le_rfl

end Costing

section Runs

instance (b : Books) : ∀ costing : Option Costing, Decidable (CostingFits b costing)
  | none => isTrue (by simp [CostingFits])
  | some c => decidable_of_iff (c.turnover b < 10 ^ 16) (by simp [CostingFits])

/-- What the operation takes off and puts on the balances nets exactly, and it takes back no draft:
neither a void nor the partial edit of a reconciled document asks whether it was ever posted. -/
def Store.NetsExactly (s : Store) : Op → Prop
  | .post _ input _ costing => input.status.getD .posted = .posted →
      MyBooks.NetsExactly (input.lines.map LineInput.entry) ∧ CostingFits s.books costing
  | .update t input _ _ costing =>
    if s.reconciled t then
      s.books.status t ≠ some .draft ∧
        MyBooks.NetsExactly ((s.books.replacedLines t).map JournalLine.reversed) ∧
        MyBooks.NetsExactly ((input.lines.filter fun i => ¬s.books.isBalanceSheet i.accountId).map
          LineInput.entry)
    else s.books.status t = some .posted →
      MyBooks.NetsExactly ((s.books.linesOf t).map JournalLine.reversed) ∧
        MyBooks.NetsExactly (input.lines.map LineInput.entry) ∧ CostingFits s.books costing
  | .void t _ _ costing => s.books.status t ≠ some .draft ∧
      -- a bill payment is taken back line by line
      ((s.books.txns t).any (fun txn => txn.txnType ≠ .billPayment) →
        MyBooks.NetsExactly ((s.books.linesOf t).map JournalLine.reversed)) ∧
      CostingFits s.books costing
  | .delete t _ _ costing =>
      (s.books.status t = some .posted →
        MyBooks.NetsExactly ((s.books.linesOf t).map JournalLine.reversed)) ∧
      CostingFits s.books costing
  | .bulk input _ _ =>
      input.moveToAccountId.isSome → ∀ t ∈ input.txnIds, s.books.docSize t < 10 ^ 16
  | _ => True

instance (s : Store) : ∀ op : Op, Decidable (s.NetsExactly op)
  | .post _ input _ costing => inferInstanceAs (Decidable (input.status.getD .posted = .posted →
      MyBooks.NetsExactly (input.lines.map LineInput.entry) ∧ CostingFits s.books costing))
  | .update t input _ _ costing => inferInstanceAs (Decidable (ite (s.reconciled t = true)
      (s.books.status t ≠ some .draft ∧
        MyBooks.NetsExactly ((s.books.replacedLines t).map JournalLine.reversed) ∧
        MyBooks.NetsExactly ((input.lines.filter fun i => ¬s.books.isBalanceSheet i.accountId).map
          LineInput.entry))
      (s.books.status t = some .posted →
        MyBooks.NetsExactly ((s.books.linesOf t).map JournalLine.reversed) ∧
          MyBooks.NetsExactly (input.lines.map LineInput.entry) ∧ CostingFits s.books costing)))
  | .void t _ _ costing => inferInstanceAs (Decidable (s.books.status t ≠ some .draft ∧
      ((s.books.txns t).any (fun txn => txn.txnType ≠ .billPayment) →
        MyBooks.NetsExactly ((s.books.linesOf t).map JournalLine.reversed)) ∧
      CostingFits s.books costing))
  | .delete t _ _ costing => inferInstanceAs (Decidable ((s.books.status t = some .posted →
        MyBooks.NetsExactly ((s.books.linesOf t).map JournalLine.reversed)) ∧
      CostingFits s.books costing))
  | .bulk input _ _ => inferInstanceAs (Decidable
      (input.moveToAccountId.isSome → ∀ t ∈ input.txnIds, s.books.docSize t < 10 ^ 16))
  | .start _ | .refreshLines _ | .updateLines _ _ | .autoClearStatement _ | .complete _
  | .undo _ _ | .cancel _ => inferInstanceAs (Decidable True)

variable {s s' : Store} {t : Id}

theorem status_posted {txn : Txn} (ht : s.books.txns t = some txn) (hd : txn.status ≠ .deleted)
    (hv : txn.status ≠ .void) (hnd : s.books.status t ≠ some .draft) : txn.status = .posted := by
  rw [Books.status, ht] at hnd
  rcases hs : txn.status with _ | _ | _ | _
  · exact absurd (by rw [Option.map_some, hs]) hnd
  · rfl
  · exact absurd hs hv
  · exact absurd hs hd

theorem postTransaction_balanced {input : PostInput} {refusal : Refusal} {costing : Option Costing}
    (w : s.books.Rows) (hb : s.books.Balanced)
    (hx : s.NetsExactly (.post t input refusal costing))
    (h : postTransaction s t input refusal costing = .ok s') : s'.books.Balanced := by
  obtain ⟨ht, hins, b, rfl, hpost⟩ := postTransaction_ok h
  split_ifs at hpost with hs
  · obtain ⟨hnet, hfits⟩ := hx hs
    exact costed_balanced (booked_rows w ht hins).post (booked_balanced w hb ht hs hnet)
      (hfits.of_sublist booked_derived) hpost
  · rw [hpost]
    exact booked_draft_balanced w hb ht hs

theorem updateTransaction_balanced {input : PostInput} {ap : Bool} {refusal : Refusal}
    {costing : Option Costing} (w : s.books.Rows) (hb : s.books.Balanced)
    (hx : s.NetsExactly (.update t input ap refusal costing))
    (h : updateTransaction s t input ap refusal costing = .ok s') : s'.books.Balanced := by
  obtain ⟨txn, ht, hd, hv, h⟩ := updateTransaction_ok h
  simp only [Store.NetsExactly] at hx
  split_ifs at h hx with hrec
  · obtain ⟨kept, new, hpart, -, rfl⟩ := updateReconciled_ok h
    obtain ⟨hnd, hold, hnew⟩ := hx
    rw [← partialEdit_new hpart] at hnew
    exact reconciledEdit_balanced w hb ht (status_posted ht hd hv hnd) (kept_mem hpart) hold hnew
  · obtain ⟨hins, b, rfl, hfull⟩ := updateFull_ok h
    split_ifs at hfull with hs
    · obtain ⟨hold, hnew, hfits⟩ := hx (by rw [Books.status, ht, Option.map_some, hs])
      exact costed_balanced (rewritten_rows w ht hins).post
        (rewritten_balanced w hb ht hs hold hnew) (hfits.of_sublist rewritten_derived) hfull
    · rw [hfull]
      exact rewritten_draft_balanced hb ht hs

theorem voidTransaction_balanced {ids : List Id} {refusal : Refusal} {costing : Option Costing}
    (w : s.books.Rows) (hb : s.books.Balanced)
    (hx : s.NetsExactly (.void t ids refusal costing))
    (h : voidTransaction s t ids refusal costing = .ok s') : s'.books.Balanced := by
  obtain ⟨txn, ht, hd, hv, -, hins, b, rfl, hvoid⟩ := voidTransaction_ok h
  obtain ⟨hnd, hold, hfits⟩ := hx
  have hp : s.books.status t = some .posted := by
    rw [Books.status, ht, Option.map_some, status_posted ht hd hv hnd]
  have hknown : s.books.txns t ≠ none := by simp [ht]
  rw [voidedLines_posted w hp] at hins hvoid
  set voided := s.books.reverseDocument t .void (s.books.linesOf t) ids with hvoided
  have hsub : ∀ l ∈ s.books.linesOf t, l ∈ s.books.lines :=
    fun l hl => (Books.mem_linesOf.mp hl).1
  dsimp only at hvoid
  split_ifs at hvoid with htype
  · obtain ⟨hlines, htxns, -⟩ := foldl_post_frame (s.books.linesOf t) voided
    rw [hvoid]
    refine reverseDocument_balanced hb hknown (by simp) (.of_frame hlines htxns) ?_ fun a => ?_
    · exact congrArg (fun f => (f t).map Txn.status) htxns
    · rw [Books.docNet_posted hp]
      exact foldl_post_balance w a _ _ hsub
  · have hnet := hold (by simp [ht, htype])
    have hreversed : (voided.post ((s.books.linesOf t).map JournalLine.reversed)).Balanced :=
      reverseDocument_balanced hb hknown (by simp) Books.post_changes rfl
        fun a => post_reversed_balance w hp hnet a
    exact costed_balanced (reverseDocument_rows w hknown (by simp) hsub hins).post hreversed
      (hfits.of_sublist reverseDocument_derived) hvoid

theorem deleteTransaction_balanced {ids : List Id} {refusal : Refusal} {costing : Option Costing}
    (w : s.books.Rows) (hb : s.books.Balanced)
    (hx : s.NetsExactly (.delete t ids refusal costing))
    (h : deleteTransaction s t ids refusal costing = .ok s') : s'.books.Balanced := by
  obtain ⟨txn, ht, -, -, hins, b, rfl, hdelete⟩ := deleteTransaction_ok h
  obtain ⟨hold, hfits⟩ := hx
  have hknown : s.books.txns t ≠ none := by simp [ht]
  refine costed_balanced (reverseDocument_rows w hknown (by simp) deletedLines_subset hins).post
    (reverseDocument_balanced hb hknown (by simp) Books.post_changes rfl fun a => ?_)
    (hfits.of_sublist reverseDocument_derived) hdelete
  by_cases hs : txn.status = .posted
  · have hp : s.books.status t = some .posted := by rw [Books.status, ht, Option.map_some, hs]
    rw [Books.deletedLines, if_pos hs]
    exact post_reversed_balance w hp (hold hp) a
  · have hp : s.books.status t ≠ some .posted := by simpa [Books.status, ht] using hs
    rw [Books.deletedLines, if_neg hs, Books.docNet_not_posted hp]
    simp [Books.post, updateAccountBalances, netOf, Books.reverseDocument]

theorem step_balanced {op : Op} (w : s.books.Rows) (hb : s.books.Balanced) (hx : s.NetsExactly op)
    (h : step s op = .ok s') : s'.books.Balanced := by
  cases op
  case post => exact postTransaction_balanced w hb hx (onLedger_ok.mp h)
  case update => exact updateTransaction_balanced w hb hx (onLedger_ok.mp h)
  case void => exact voidTransaction_balanced w hb hx (onLedger_ok.mp h)
  case delete => exact deleteTransaction_balanced w hb hx (onLedger_ok.mp h)
  case bulk input facts refusal =>
    obtain ⟨b, r, rfl, hall⟩ := bulkUpdateTransactions_ok (onLedger_ok.mp h)
    have hok := bulkAll_keeps (P := fun ts b => ts ⊆ input.txnIds ∧ BatchOk s.books b)
      (fun t ts _ _ _ ⟨hts, hb⟩ h => ⟨fun t' ht' => hts (List.mem_cons_of_mem t ht'),
        bulkOne_ok hb (fun hmove => hx hmove t (hts List.mem_cons_self)) h⟩)
      ⟨List.Subset.refl _, w, hb, fun _ => rfl, fun _ => rfl⟩ hall
    exact hok.2.balanced
  all_goals
    rw [step_books rfl h]
    exact hb

/-- Where every operation nets exactly, the balances are those of the ledger in every state. -/
theorem reached_balanced {units : List (List Op)} (w : s.books.Rows) (hb : s.books.Balanced)
    (hm : Meets step Store.NetsExactly s units) :
    ∀ s' ∈ reached step s units, s'.books.Balanced := fun s' hs' =>
  (reached_keeps (P := fun s => s.books.Rows ∧ s.books.Balanced)
    (fun _ _ _ hs hx h => ⟨step_rows hs.1 h, step_balanced hs.1 hs.2 hx h⟩) hm ⟨w, hb⟩ s' hs').2

end Runs

section NewBooks

/-- A chart of accounts with nothing posted to it. -/
def newBooks : Store where
  books := {
    accounts := fun a =>
      if a = "checking" then some ⟨.asset, some .bank, none⟩
      else if a = "sales" then some ⟨.revenue, none, none⟩
      else if a = "supplies" then some ⟨.expense, none, none⟩
      else none
    txns := fun _ => none
    lines := []
    balance := fun _ => 0 }
  recs := ⟨[], [], [], []⟩

/-- `amount` received for sales. -/
def saleInput (status : Option TxnStatus) (date : String) (l₁ l₂ : Id) (amount : Dec) : PostInput :=
  ⟨.deposit, date, status, none,
    [⟨l₁, "checking", amount, 0, none⟩, ⟨l₂, "sales", 0, amount, none⟩]⟩

/-- A sale is posted, raised and moved to another account, and then voided; a draft is deleted. -/
def saleAndDraft : List (List Op) :=
  [[.post "sale" (saleInput none "2026-01-05" "l1" "l2" (2501 / 100)) none none],
    [.update "sale" (saleInput none "2026-01-06" "l3" "l4" (2601 / 100)) false none none],
    [.post "draft" (saleInput (some .draft) "2026-01-07" "l5" "l6" 40) none none],
    [.bulk ⟨["sale", "draft"], none, some "supplies", none, none, none, none⟩
      ⟨fun _ => true, fun _ => false, fun _ => false, fun _ => false⟩ none],
    [.void "sale" ["l7", "l8"] none none], [.delete "draft" [] none none]]

theorem saleAndDraft_balanced :
    (reached step newBooks saleAndDraft).Forall fun s' => s'.books.Balanced :=
  List.forall_iff_forall_mem.mpr
    (reached_balanced (Books.rows_of_nil rfl) (fun _ => rfl) (by decide +kernel))

/-- A draft that was never posted is voided. -/
def voidedDraft : List (List Op) :=
  [[.post "draft" (saleInput (some .draft) "2026-01-07" "l1" "l2" 40) none none],
    [.void "draft" ["l3", "l4"] none none]]

theorem voidedDraft_unbalanced :
    ¬∀ (s : Store) (units : List (List Op)), s.books.lines = [] → (∀ a, s.books.balance a = 0) →
      (∀ u ∈ units, ∀ op ∈ u, op.isLedger = true) →
      ∀ s' ∈ reached step s units, s'.books.Balanced := by
  intro hall
  have hrun : ∃ s' ∈ reached step newBooks voidedDraft,
      s'.books.balance "checking" ≠ s'.books.ledgerSum "checking" := by decide +kernel
  obtain ⟨s', hs', hne⟩ := hrun
  exact hne (hall newBooks voidedDraft rfl (fun _ => rfl) (by decide) s' hs' "checking")

/-- Two debits of half of the last place: the balance moves by one unit, the stored lines by two. -/
example : netOf [⟨"a", 5 / 100000, 0⟩, ⟨"a", 5 / 100000, 0⟩] "a" = 1 / 10000 ∧
    storedNet [⟨"a", 5 / 100000, 0⟩, ⟨"a", 5 / 100000, 0⟩] "a" = 2 / 10000 := by decide +kernel

end NewBooks

end MyBooks
