import MyBooks.WalkValue

/-!
# The queue of units sold below zero

Between rows the queue holds exactly the units on hand is below zero (`ShortOk`). An inflow takes
from it in up to two passes, and both are made of the same takes (`Passed`): the units taken are
the units the entries lost, and the share given out so far is the part of the correction they stand
for, so once all the `k` units are taken the whole correction is given out (`trackShort_cures`).
-/

namespace MyBooks

/-- The units an inflow took and the correction it gave out are those of its takes. -/
structure CureOk (k c : Dec) (cure : Cure) : Prop where
  le : cure.taken ≤ k
  given : cure.given = round2 (c * cure.taken / k)
  units : (cure.takes.map (·.units)).sum = cure.taken
  shares : (cure.takes.map (·.share)).sum = cure.given
  cents : ∀ t ∈ cure.takes, Cents t.share
  held : ∀ t ∈ cure.takes, t.units ≤ t.held

/-- No entry owes units back. -/
def Held (es : List ShortEntry) : Prop := ∀ e ∈ es, 0 ≤ e.units

def unitsOf (es : List ShortEntry) : Dec := (es.map (·.units)).sum

@[simp] theorem unitsOf_nil : unitsOf [] = 0 := rfl

@[simp] theorem unitsOf_cons (e : ShortEntry) (es : List ShortEntry) :
    unitsOf (e :: es) = e.units + unitsOf es := by simp [unitsOf]

@[simp] theorem unitsOf_append (es es' : List ShortEntry) :
    unitsOf (es ++ es') = unitsOf es + unitsOf es' := by simp [unitsOf]

theorem unitsOf_nonneg {es : List ShortEntry} (h : Held es) : 0 ≤ unitsOf es :=
  List.sum_nonneg (by simpa [Held] using h)

theorem CureOk.start {k : Dec} (hk : 0 ≤ k) (c : Dec) : CureOk k c Cure.start where
  le := hk
  given := by simp [Cure.start, round2]
  units := rfl
  shares := rfl
  cents := by simp [Cure.start]
  held := by simp [Cure.start]

section Take

variable {k c : Dec}

theorem take_total (hk : k ≠ 0) (cure : Cure) (e : ShortEntry) :
    ∃ r, take k c cure e = .ok r := by
  unfold take
  dsimp only
  split_ifs
  · rw [dividedBy_ok hk]
    exact ⟨_, rfl⟩
  · exact ⟨_, rfl⟩

/-- One take moves units from the entry to the cure, until one of them is done. -/
theorem take_spec {cure cure' : Cure} {e e' : ShortEntry} (hc : CureOk k c cure)
    (he : 0 ≤ e.units) (h : take k c cure e = .ok (cure', e')) :
    CureOk k c cure' ∧ e'.saleId = e.saleId ∧ 0 ≤ e'.units ∧
      cure'.taken + e'.units = cure.taken + e.units ∧ (cure'.taken = k ∨ e'.units = 0) := by
  unfold take at h
  dsimp only at h
  split_ifs at h with hu
  · simp only [bind_eq_ok, dividedBy_eq_ok, pure_eq_ok, Prod.mk.injEq] at h
    obtain ⟨_, ⟨-, rfl⟩, rfl, rfl⟩ := h
    have h1 := min_le_left e.units (k - cure.taken)
    have h2 := min_le_right e.units (k - cure.taken)
    have hgiven : Cents cure.given := hc.given ▸ Cents.round2 _
    refine ⟨⟨by dsimp only; linarith, rfl, ?_, ?_, ?_, ?_⟩, rfl, by dsimp only; linarith,
      by dsimp only; ring, ?_⟩
    · simp [hc.units]
    · simp [hc.shares]
    · intro t ht
      rcases List.mem_append.mp ht with ht | ht
      · exact hc.cents t ht
      · rw [List.mem_singleton.mp ht]
        exact (Cents.round2 _).sub hgiven
    · intro t ht
      rcases List.mem_append.mp ht with ht | ht
      · exact hc.held t ht
      · rw [List.mem_singleton.mp ht]
        exact h1
    · rcases min_choice e.units (k - cure.taken) with hm | hm
      · right
        simp [hm]
      · left
        simp [hm]
  · simp only [pure_eq_ok, Prod.mk.injEq] at h
    obtain ⟨rfl, rfl⟩ := h
    refine ⟨hc, rfl, he, rfl, ?_⟩
    rw [lt_min_iff, not_and_or, not_lt, not_lt] at hu
    rcases hu with hu | hu
    · exact Or.inr (le_antisymm hu he)
    · exact Or.inl (le_antisymm hc.le (by linarith))

variable (k c)

/-- A pass over the queue that takes from some of its entries, in order. -/
inductive Passed : Cure → List ShortEntry → Cure → List ShortEntry → Prop where
  | nil (cure : Cure) : Passed cure [] cure []
  | skip {cure cure' : Cure} {e : ShortEntry} {es es' : List ShortEntry} :
      Passed cure es cure' es' → Passed cure (e :: es) cure' (e :: es')
  | took {cure cure₁ cure' : Cure} {e e₁ : ShortEntry} {es es' : List ShortEntry} :
      take k c cure e = .ok (cure₁, e₁) → Passed cure₁ es cure' es' →
        Passed cure (e :: es) cure' (e₁ :: es')

theorem Passed.refl (cure : Cure) : ∀ es, Passed k c cure es cure es
  | [] => .nil cure
  | _ :: es => .skip (Passed.refl cure es)

variable {k c}

theorem Passed.spec {cure cure' : Cure} {es es' : List ShortEntry}
    (h : Passed k c cure es cure' es') (hc : CureOk k c cure) (he : Held es) :
    CureOk k c cure' ∧ Held es' ∧ cure'.taken + unitsOf es' = cure.taken + unitsOf es := by
  induction h with
  | nil => exact ⟨hc, he, rfl⟩
  | @skip cure cure' e es es' _ ih =>
    obtain ⟨h1, h2, h3⟩ := ih hc fun x hx => he x (List.mem_cons_of_mem _ hx)
    refine ⟨h1, ?_, by simp only [unitsOf_cons]; linarith⟩
    rw [Held, List.forall_mem_cons]
    exact ⟨he e List.mem_cons_self, h2⟩
  | @took cure cure₁ cure' e e₁ es es' ht _ ih =>
    obtain ⟨h1, -, h3, h4, -⟩ := take_spec hc (he e List.mem_cons_self) ht
    obtain ⟨h5, h6, h7⟩ := ih h1 fun x hx => he x (List.mem_cons_of_mem _ hx)
    refine ⟨h5, ?_, by simp only [unitsOf_cons]; linarith⟩
    rw [Held, List.forall_mem_cons]
    exact ⟨h3, h6⟩

/-- The sales behind the entries stay where they are. -/
theorem Passed.saleIds {cure cure' : Cure} {es es' : List ShortEntry}
    (h : Passed k c cure es cure' es') : es'.map (·.saleId) = es.map (·.saleId) := by
  induction h with
  | nil => rfl
  | skip _ ih => simp [ih]
  | took ht _ ih =>
    have hid : ∀ {cure cure₁ e e₁}, take k c cure e = .ok (cure₁, e₁) → e₁.saleId = e.saleId := by
      intro cure cure₁ e e₁ ht
      unfold take at ht
      dsimp only at ht
      split_ifs at ht <;> simp only [bind_eq_ok, pure_eq_ok, Prod.mk.injEq] at ht
      · obtain ⟨_, -, -, rfl⟩ := ht
        rfl
      · rw [← ht.2]
    simp [ih, hid ht]

/-- A pass only logs takes of sales that stand in the queue. -/
theorem Passed.takes {cure cure' : Cure} {es es' : List ShortEntry}
    (h : Passed k c cure es cure' es') :
    ∀ t ∈ cure'.takes, t ∈ cure.takes ∨ ∃ e ∈ es, t.saleId = e.saleId := by
  induction h with
  | nil => exact fun t ht => Or.inl ht
  | skip _ ih =>
    intro t ht
    rcases ih t ht with h | ⟨e, he, h⟩
    · exact Or.inl h
    · exact Or.inr ⟨e, List.mem_cons_of_mem _ he, h⟩
  | @took cure cure₁ cure' e e₁ es es' htake _ ih =>
    intro t ht
    rcases ih t ht with h | ⟨e, he, h⟩
    · unfold take at htake
      dsimp only at htake
      split_ifs at htake <;> simp only [bind_eq_ok, pure_eq_ok, Prod.mk.injEq] at htake
      · obtain ⟨_, -, rfl, -⟩ := htake
        rcases List.mem_append.mp h with h | h
        · exact Or.inl h
        · exact Or.inr ⟨e, List.mem_cons_self, by rw [List.mem_singleton.mp h]⟩
      · rw [← htake.1] at h
        exact Or.inl h
    · exact Or.inr ⟨e, List.mem_cons_of_mem _ he, h⟩

theorem takeOwn_passed (src : Id) : ∀ {es es' : List ShortEntry} {cure cure' : Cure},
    takeOwn k c src cure es = .ok (cure', es') → Passed k c cure es cure' es'
  | [], es', cure, cure', h => by
    simp only [takeOwn, pure_eq_ok, Prod.mk.injEq] at h
    obtain ⟨rfl, rfl⟩ := h
    exact .nil cure
  | e :: es, es', cure, cure', h => by
    unfold takeOwn at h
    split_ifs at h <;> simp only [bind_eq_ok, pure_eq_ok, Prod.exists, Prod.mk.injEq] at h
    · obtain ⟨cure₁, e₁, h1, cure₂, es₂, h2, rfl, rfl⟩ := h
      exact .took h1 (takeOwn_passed src h2)
    · obtain ⟨cure₂, es₂, h2, rfl, rfl⟩ := h
      exact .skip (takeOwn_passed src h2)

theorem takeOldest_passed : ∀ {es es' : List ShortEntry} {cure cure' : Cure},
    takeOldest k c cure es = .ok (cure', es') → Passed k c cure es cure' es'
  | [], es', cure, cure', h => by
    simp only [takeOldest, pure_eq_ok, Prod.mk.injEq] at h
    obtain ⟨rfl, rfl⟩ := h
    exact .nil cure
  | e :: es, es', cure, cure', h => by
    unfold takeOldest at h
    split_ifs at h
    · simp only [bind_eq_ok, pure_eq_ok, Prod.exists, Prod.mk.injEq] at h
      obtain ⟨cure₁, e₁, h1, cure₂, es₂, h2, rfl, rfl⟩ := h
      exact .took h1 (takeOldest_passed h2)
    · obtain ⟨rfl, rfl⟩ := Prod.mk.injEq .. ▸ pure_eq_ok.mp h
      exact Passed.refl k c _ _

/-- The second pass stops only when all the units are taken or the queue is used up. -/
theorem takeOldest_done : ∀ {es es' : List ShortEntry} {cure cure' : Cure}, CureOk k c cure →
    Held es → takeOldest k c cure es = .ok (cure', es') → cure'.taken = k ∨ unitsOf es' = 0
  | [], es', cure, cure', _, _, h => by
    simp only [takeOldest, pure_eq_ok, Prod.mk.injEq] at h
    obtain ⟨-, rfl⟩ := h
    exact Or.inr rfl
  | e :: es, es', cure, cure', hc, he, h => by
    unfold takeOldest at h
    split_ifs at h with hk
    · simp only [bind_eq_ok, pure_eq_ok, Prod.exists, Prod.mk.injEq] at h
      obtain ⟨cure₁, e₁, h1, cure₂, es₂, h2, rfl, rfl⟩ := h
      obtain ⟨hc₁, -, -, -, hdone⟩ := take_spec hc (he e List.mem_cons_self) h1
      have hes : Held es := fun x hx => he x (List.mem_cons_of_mem _ hx)
      rcases hdone with hk₁ | hz
      · -- all taken: the rest of the pass changes nothing
        obtain ⟨h3, h4, h5⟩ := (takeOldest_passed h2).spec hc₁ hes
        left
        refine le_antisymm h3.le ?_
        cases es with
        | nil =>
          simp only [takeOldest, pure_eq_ok, Prod.mk.injEq] at h2
          rw [← h2.1, hk₁]
        | cons x xs =>
          rw [takeOldest, if_neg (by rw [hk₁]; exact lt_irrefl k), pure_eq_ok,
            Prod.mk.injEq] at h2
          rw [← h2.1, hk₁]
      · rcases takeOldest_done hc₁ hes h2 with h3 | h3
        · exact Or.inl h3
        · exact Or.inr (by rw [unitsOf_cons, hz, h3, add_zero])
    · obtain ⟨rfl, rfl⟩ := Prod.mk.injEq .. ▸ pure_eq_ok.mp h
      exact Or.inl (le_antisymm hc.le (not_lt.mp hk))

theorem takeOwn_total (hk : k ≠ 0) (src : Id) : ∀ (es : List ShortEntry) (cure : Cure),
    ∃ r, takeOwn k c src cure es = .ok r
  | [], cure => ⟨_, rfl⟩
  | e :: es, cure => by
    unfold takeOwn
    split_ifs
    · obtain ⟨⟨cure₁, e₁⟩, h1⟩ := take_total (c := c) hk cure e
      obtain ⟨⟨cure₂, es₂⟩, h2⟩ := takeOwn_total hk src es cure₁
      exact ⟨(cure₂, e₁ :: es₂), by simp only [h1, h2, ok_bind]; rfl⟩
    · obtain ⟨⟨cure₂, es₂⟩, h2⟩ := takeOwn_total hk src es cure
      exact ⟨(cure₂, e :: es₂), by simp only [h2, ok_bind]; rfl⟩

theorem takeOldest_total (hk : k ≠ 0) : ∀ (es : List ShortEntry) (cure : Cure),
    ∃ r, takeOldest k c cure es = .ok r
  | [], cure => ⟨_, rfl⟩
  | e :: es, cure => by
    unfold takeOldest
    split_ifs
    · obtain ⟨⟨cure₁, e₁⟩, h1⟩ := take_total (c := c) hk cure e
      obtain ⟨⟨cure₂, es₂⟩, h2⟩ := takeOldest_total hk es cure₁
      exact ⟨(cure₂, e₁ :: es₂), by simp only [h1, h2, ok_bind]; rfl⟩
    · exact ⟨_, rfl⟩

theorem cureShort_total (hk : k ≠ 0) (src : Option Id) (es : List ShortEntry) :
    ∃ r, cureShort k c src es = .ok r := by
  cases src with
  | none => exact takeOldest_total hk es _
  | some id =>
    obtain ⟨⟨cure, es'⟩, h⟩ := takeOwn_total (c := c) hk id es Cure.start
    obtain ⟨r, hr⟩ := takeOldest_total (c := c) hk es' cure
    exact ⟨r, by simp only [cureShort, h, ok_bind, hr]⟩

/-- The takes of one inflow that cures `k` units with correction `c`. -/
structure CuresExactly (k c : Dec) (short : List ShortEntry) (takes : List Taken) : Prop where
  units : (takes.map (·.units)).sum = k
  shares : (takes.map (·.share)).sum = c
  cents : ∀ t ∈ takes, Cents t.share
  held : ∀ t ∈ takes, t.units ≤ t.held
  queued : ∀ t ∈ takes, ∃ e ∈ short, t.saleId = e.saleId

/-- When the queue holds enough units, all `k` are taken and all of the correction is given out. -/
theorem cureShort_spec {src : Option Id} {es es' : List ShortEntry} {cure : Cure} (hk : 0 < k)
    (hc : Cents c) (he : Held es) (hen : k ≤ unitsOf es)
    (h : cureShort k c src es = .ok (cure, es')) :
    CuresExactly k c es cure.takes ∧ Held es' ∧ unitsOf es' = unitsOf es - k ∧
      es'.map (·.saleId) = es.map (·.saleId) := by
  have hstart := CureOk.start hk.le c
  obtain ⟨cure₁, es₁, hp₁, h2⟩ : ∃ cure₁ es₁, Passed k c Cure.start es cure₁ es₁ ∧
      takeOldest k c cure₁ es₁ = .ok (cure, es') := by
    cases src with
    | none => exact ⟨_, _, Passed.refl k c _ _, h⟩
    | some id =>
      obtain ⟨⟨cure₁, es₁⟩, h1, h2⟩ := bind_eq_ok.mp h
      exact ⟨cure₁, es₁, takeOwn_passed id h1, h2⟩
  obtain ⟨hok₁, hes₁, hsum₁⟩ := hp₁.spec hstart he
  have hp₂ := takeOldest_passed h2
  obtain ⟨hok, hes', hsum₂⟩ := hp₂.spec hok₁ hes₁
  have hall : cure.taken = k := by
    rcases takeOldest_done hok₁ hes₁ h2 with h | h
    · exact h
    · refine le_antisymm hok.le ?_
      have : (0 : Dec) = Cure.start.taken := rfl
      linarith
  have hgiven : cure.given = c := by
    rw [hok.given, hall, mul_div_cancel_right₀ _ hk.ne', round2_of_cents hc]
  refine ⟨⟨hok.units.trans hall, hok.shares.trans hgiven, hok.cents, hok.held, fun t ht => ?_⟩,
    hes', ?_, hp₂.saleIds.trans hp₁.saleIds⟩
  · rcases hp₂.takes t ht with h | ⟨e, he₁, h⟩
    · rcases hp₁.takes t h with h | h
      · simp [Cure.start] at h
      · exact h
    · have : e.saleId ∈ es.map (·.saleId) := hp₁.saleIds ▸ List.mem_map_of_mem he₁
      obtain ⟨e', he', h'⟩ := List.mem_map.mp this
      exact ⟨e', he', h.trans h'.symm⟩
  · have : (0 : Dec) = Cure.start.taken := rfl
    linarith

end Take

section TrackShort

/-- The queue holds the units that on hand `q` is below zero, and no used-up entries. -/
structure ShortOk (q : Dec) (short : List ShortEntry) : Prop where
  units : unitsOf short = max (-q) 0
  pos : ∀ e ∈ short, 0 < e.units

theorem ShortOk.held {q : Dec} {short : List ShortEntry} (h : ShortOk q short) : Held short :=
  fun e he => (h.pos e he).le

/-- At zero or above the queue is empty. -/
theorem ShortOk.eq_nil {q : Dec} {short : List ShortEntry} (h : ShortOk q short) (hq : 0 ≤ q) :
    short = [] := by
  cases short with
  | nil => rfl
  | cons e es =>
    have h1 := h.units
    rw [max_eq_right (by linarith), unitsOf_cons] at h1
    have h2 := h.pos e List.mem_cons_self
    have h3 : 0 ≤ unitsOf es := unitsOf_nonneg fun x hx => (h.pos x (List.mem_cons_of_mem _ hx)).le
    linarith

theorem unitsOf_filter_pos : ∀ {es : List ShortEntry}, Held es →
    unitsOf (es.filter (fun e => 0 < e.units)) = unitsOf es
  | [], _ => rfl
  | e :: es, h => by
    have hes : Held es := fun x hx => h x (List.mem_cons_of_mem _ hx)
    have ih := unitsOf_filter_pos hes
    rw [List.filter_cons]
    split_ifs with he
    · rw [unitsOf_cons, unitsOf_cons, ih]
    · have h0 : e.units = 0 :=
        le_antisymm (by simpa using he) (h e List.mem_cons_self)
      rw [unitsOf_cons, ih, h0, zero_add]

theorem trackShort_total (short : List ShortEntry) (before : WalkState) (row : WalkRow)
    (fig : RowFigures) : ∃ r, trackShort short before row fig = .ok r := by
  unfold trackShort
  split_ifs with h1 h2
  · exact ⟨_, rfl⟩
  · have hk : min row.quantity (-before.q) ≠ 0 :=
      (lt_min h2.1 (by linarith [h2.2])).ne'
    obtain ⟨⟨cure, es⟩, h⟩ := cureShort_total (c := -fig.correction) hk row.linkedTo short
    exact ⟨(es.filter (fun e => 0 < e.units), cure.takes), by simp only [h, ok_bind]; rfl⟩
  · exact ⟨_, rfl⟩

/-- After a row the queue holds what on hand is below zero then, and what the row took stands for
all of its correction. -/
theorem trackShort_cures {short short' : List ShortEntry} {before : WalkState} {row : WalkRow}
    {fig : RowFigures} {takes : List Taken} (hs : ShortOk before.q short)
    (hc : Cents fig.correction)
    (h : trackShort short before row fig = .ok (short', takes)) :
    ShortOk (before.q + row.quantity) short' ∧
      (0 < row.quantity → before.q < 0 →
        CuresExactly (min row.quantity (-before.q)) (-fig.correction) short takes) ∧
      (¬(0 < row.quantity ∧ before.q < 0) → takes = []) ∧
      ∀ e ∈ short', (∃ e₀ ∈ short, e.saleId = e₀.saleId) ∨
        row.quantity < 0 ∧ e.saleId = row.saleId := by
  unfold trackShort at h
  split_ifs at h with h1 h2
  · -- an outflow joins the queue with what it takes below zero
    obtain ⟨rfl, rfl⟩ := Prod.mk.injEq .. ▸ pure_eq_ok.mp h
    refine ⟨?_, fun h2 => absurd h2 (by linarith), fun _ => rfl, fun e he => ?_⟩
    swap
    · split_ifs at he
      · rcases List.mem_append.mp he with he | he
        · exact Or.inl ⟨e, he, rfl⟩
        · exact Or.inr ⟨h1, by rw [List.mem_singleton.mp he]⟩
      · exact Or.inl ⟨e, he, rfl⟩
    have hu := hs.units
    rcases le_or_gt 0 before.q with hq | hq
    · rw [max_eq_left hq, hs.eq_nil hq]
      split_ifs with hx
      · refine ⟨?_, by simpa using hx⟩
        rw [max_eq_left (by linarith)]
        simp
        ring
      · exact ⟨by rw [max_eq_right (by linarith), unitsOf_nil], by simp⟩
    · rw [max_eq_right hq.le, if_pos (by linarith)]
      refine ⟨?_, ?_⟩
      · rw [unitsOf_append, hu, max_eq_left (by linarith), max_eq_left (by linarith)]
        simp
        ring
      · intro e he
        rcases List.mem_append.mp he with he | he
        · exact hs.pos e he
        · rw [List.mem_singleton.mp he]
          dsimp only
          linarith
  · obtain ⟨⟨cure, es⟩, hcure, h⟩ := bind_eq_ok.mp h
    obtain ⟨rfl, rfl⟩ := Prod.mk.injEq .. ▸ pure_eq_ok.mp h
    have hu := hs.units
    rw [max_eq_left (by linarith [h2.2])] at hu
    obtain ⟨hexact, hes, hsum, hids⟩ := cureShort_spec (lt_min h2.1 (by linarith [h2.2])) hc.neg
      hs.held (by rw [hu]; exact min_le_right _ _) hcure
    refine ⟨⟨?_, by simp⟩, fun _ _ => hexact, fun hn => absurd h2 hn, fun e he => Or.inl ?_⟩
    swap
    · have hmem : e.saleId ∈ short.map (·.saleId) :=
        hids ▸ List.mem_map_of_mem (List.mem_of_mem_filter he)
      obtain ⟨e₀, he₀, h₀⟩ := List.mem_map.mp hmem
      exact ⟨e₀, he₀, h₀.symm⟩
    rw [unitsOf_filter_pos hes, hsum, hu]
    rcases min_cases row.quantity (-before.q) with ⟨hm, hle⟩ | ⟨hm, hle⟩
    · rw [hm, max_eq_left (by linarith)]
      ring
    · rw [hm, max_eq_right (by linarith)]
      ring
  · obtain ⟨rfl, rfl⟩ := Prod.mk.injEq .. ▸ pure_eq_ok.mp h
    refine ⟨⟨?_, hs.pos⟩, fun h3 h4 => absurd ⟨h3, h4⟩ h2, fun _ => rfl,
      fun e he => Or.inl ⟨e, he, rfl⟩⟩
    have hu := hs.units
    rw [not_and_or, not_lt, not_lt] at h2
    rcases h2 with h2 | h2
    · rw [hu, le_antisymm h2 (not_lt.mp h1), add_zero]
    · rw [hu, max_eq_right (by linarith), max_eq_right (by linarith)]

end TrackShort

end MyBooks
