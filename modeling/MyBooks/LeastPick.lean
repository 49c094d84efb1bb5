import Mathlib.Data.List.MinMax
import Mathlib.Data.List.Pairwise
import Mathlib.Data.Prod.Lex

/-!
# Picking a least element

A search keeps the best of what it has seen, an earlier one on a tie (`better`). What it ends with
is a least element of all it has gone through (`IsLeastOf`), however these were split among lists,
and where no two have the same rank that determines it (`IsLeastOf.unique`).
-/

namespace MyBooks

variable {α κ : Type*} [LinearOrder κ]

/-- What is picked is one of the least by `rank` that meet `P`, and nothing if none does. -/
def IsLeastOf (rank : α → κ) (P : α → Prop) : Option α → Prop
  | none => ∀ a, ¬P a
  | some a => P a ∧ ∀ b, P b → rank a ≤ rank b

/-- The new one if it ranks below the one kept. -/
def better (rank : α → κ) : Option α → Option α → Option α
  | best, none => best
  | none, some a => some a
  | some b, some a => if rank a < rank b then some a else some b

variable {rank : α → κ} {P Q : α → Prop} {o o' : Option α}

theorem IsLeastOf.congr (h : IsLeastOf rank P o) (hPQ : ∀ a, P a ↔ Q a) : IsLeastOf rank Q o := by
  have : P = Q := funext fun a => propext (hPQ a)
  exact this ▸ h

theorem IsLeastOf.better (h : IsLeastOf rank P o) (h' : IsLeastOf rank Q o') :
    IsLeastOf rank (fun a => P a ∨ Q a) (better rank o o') := by
  cases o with
  | none =>
    cases o' with
    | none => exact fun a ha => ha.elim (h a) (h' a)
    | some a => exact ⟨.inr h'.1, fun b hb => hb.elim (fun hb => absurd hb (h b)) (h'.2 b)⟩
  | some b =>
    cases o' with
    | none => exact ⟨.inl h.1, fun c hc => hc.elim (h.2 c) fun hc => absurd hc (h' c)⟩
    | some a =>
      rw [MyBooks.better]
      split_ifs with hlt
      · exact ⟨.inr h'.1, fun c hc => hc.elim (fun hc => hlt.le.trans (h.2 c hc)) (h'.2 c)⟩
      · exact ⟨.inl h.1, fun c hc => hc.elim (h.2 c) fun hc => (not_lt.mp hlt).trans (h'.2 c hc)⟩

theorem better_eq_some {a : α} (h : MyBooks.better rank o o' = some a) :
    o = some a ∨ o' = some a := by
  cases o with
  | none =>
    cases o' with
    | none => cases h
    | some b => exact .inr h
  | some b =>
    cases o' with
    | none => exact .inl h
    | some c =>
      rw [MyBooks.better] at h
      split_ifs at h
      · exact .inr h
      · exact .inl h

/-- The first element that meets `p` in a list in order of rank. -/
theorem isLeastOf_find? {p : α → Bool} : ∀ {l : List α},
    l.Pairwise (fun a b => rank a ≤ rank b) →
      IsLeastOf rank (fun a => a ∈ l ∧ p a = true) (l.find? p)
  | [], _ => fun a ha => absurd ha.1 List.not_mem_nil
  | a :: l, h => by
    obtain ⟨ha, hl⟩ := List.pairwise_cons.mp h
    rw [List.find?_cons]
    cases hp : p a with
    | true =>
      refine ⟨⟨List.mem_cons_self, hp⟩, fun b hb => ?_⟩
      rcases List.mem_cons.mp hb.1 with rfl | hmem
      · exact le_rfl
      · exact ha b hmem
    | false =>
      refine (isLeastOf_find? hl).congr fun b => ?_
      rw [List.mem_cons]
      refine ⟨fun hb => ⟨.inr hb.1, hb.2⟩, fun hb => ⟨hb.1.resolve_left ?_, hb.2⟩⟩
      rintro rfl
      rw [hp] at hb
      exact Bool.false_ne_true hb.2

/-- The first place that meets `p` in a list in order of rank. -/
theorem isLeastOf_findIdx? {p : α → Bool} {l : List α}
    (h : l.Pairwise (fun a b => rank a ≤ rank b)) :
    IsLeastOf (fun f : ℕ × α => rank f.2) (fun f => l[f.1]? = some f.2 ∧ p f.2 = true)
      ((l.findIdx? p).bind fun i => l[i]?.map fun a => (i, a)) := by
  cases hi : l.findIdx? p with
  | none =>
    rintro ⟨j, b⟩ ⟨hj, hb⟩
    exact absurd hb (by simp [List.findIdx?_eq_none_iff.mp hi b (List.mem_of_getElem? hj)])
  | some i =>
    obtain ⟨hlt, hp, hbefore⟩ := List.findIdx?_eq_some_iff_getElem.mp hi
    rw [Option.bind_some, List.getElem?_eq_getElem hlt]
    refine ⟨⟨List.getElem?_eq_getElem hlt, hp⟩, ?_⟩
    rintro ⟨j, b⟩ ⟨hj, hb⟩
    simp only at hj hb ⊢
    obtain ⟨hjlt, rfl⟩ := List.getElem?_eq_some_iff.mp hj
    rcases Nat.lt_trichotomy i j with hij | rfl | hji
    · exact List.pairwise_iff_getElem.mp h i j hlt hjlt hij
    · exact le_rfl
    · exact absurd hb (hbefore j hji)

theorem IsLeastOf.map {β : Type*} {rank' : β → κ} {P' : β → Prop} {g : α → β}
    (h : IsLeastOf rank P o) (hrank : ∀ a, P a → rank a = rank' (g a))
    (hP : ∀ b, P' b ↔ ∃ a, P a ∧ g a = b) : IsLeastOf rank' P' (o.map g) := by
  cases o with
  | none =>
    intro b hb
    obtain ⟨a, ha, -⟩ := (hP b).mp hb
    exact h a ha
  | some a =>
    refine ⟨(hP (g a)).mpr ⟨a, h.1, rfl⟩, fun b hb => ?_⟩
    obtain ⟨c, hc, rfl⟩ := (hP b).mp hb
    rw [← hrank a h.1, ← hrank c hc]
    exact h.2 c hc

theorem isLeastOf_argmin (l : List α) : IsLeastOf rank (· ∈ l) (l.argmin rank) := by
  cases h : l.argmin rank with
  | none =>
    rw [List.argmin_eq_none] at h
    subst h
    exact fun a => List.not_mem_nil
  | some a => exact ⟨List.argmin_mem h, fun b hb => List.le_of_mem_argmin hb h⟩

/-- A search through one collection after another. -/
theorem isLeastOf_foldl {β : Type*} {S : β → α → Prop} {pick : β → Option α} :
    ∀ {bs : List β} {P : α → Prop} {o : Option α}, (∀ b ∈ bs, IsLeastOf rank (S b) (pick b)) →
      IsLeastOf rank P o →
        IsLeastOf rank (fun a => P a ∨ ∃ b ∈ bs, S b a)
          (bs.foldl (fun best b => better rank best (pick b)) o)
  | [], _, _, _, ho => ho.congr fun a => by simp
  | b :: bs, _, _, h, ho => by
    refine (isLeastOf_foldl (fun c hc => h c (List.mem_cons_of_mem _ hc))
      (ho.better (h b List.mem_cons_self))).congr fun a => ?_
    simp [or_assoc]

theorem IsLeastOf.unique (h : IsLeastOf rank P o) (h' : IsLeastOf rank P o')
    (hinj : ∀ a b, P a → P b → rank a = rank b → a = b) : o = o' := by
  cases o with
  | none =>
    cases o' with
    | none => rfl
    | some a => exact absurd h'.1 (h a)
  | some b =>
    cases o' with
    | none => exact absurd h.1 (h' b)
    | some a => rw [hinj b a h.1 h'.1 (le_antisymm (h.2 a h'.1) (h'.2 b h.1))]

/-- Where the rank is a distance first, all that is nearer than what is picked has been seen. -/
theorem IsLeastOf.nearest {dist : α → ℕ} {d : ℕ} (h : IsLeastOf rank (fun a => P a ∧ dist a = d) o)
    (hnone : ∀ a, P a → ¬dist a < d) :
    IsLeastOf (fun a => toLex (dist a, rank a)) (fun a => P a ∧ dist a < d + 1) o := by
  have hP : ∀ a, P a ∧ dist a = d ↔ P a ∧ dist a < d + 1 := fun a =>
    and_congr_right fun ha => ⟨fun h => by omega, fun h => by
      have := hnone a ha
      omega⟩
  cases o with
  | none => exact fun a ha => h a ((hP a).mpr ha)
  | some a =>
    refine ⟨(hP a).mp h.1, fun b hb => ?_⟩
    have hb' := (hP b).mpr hb
    exact Prod.Lex.toLex_le_toLex.mpr (.inr ⟨h.1.2.trans hb'.2.symm, h.2 b hb'⟩)

theorem IsLeastOf.nearest_succ {dist : α → ℕ} {d : ℕ} {a : α}
    (h : IsLeastOf (fun a => toLex (dist a, rank a)) (fun a => P a ∧ dist a < d) (some a)) :
    IsLeastOf (fun a => toLex (dist a, rank a)) (fun a => P a ∧ dist a < d + 1) (some a) := by
  refine ⟨⟨h.1.1, by have := h.1.2; omega⟩, fun b hb => ?_⟩
  rcases Nat.lt_or_ge (dist b) d with hlt | hge
  · exact h.2 b ⟨hb.1, hlt⟩
  · exact Prod.Lex.toLex_le_toLex.mpr (.inl (by have := h.1.2; omega))

end MyBooks
