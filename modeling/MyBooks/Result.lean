import Mathlib.Data.List.Basic

/-!
# Computations that may fail, and loops over them

Inversion of `Except` computations, and the rule for a loop `foldlM`: what one step keeps, the
loop keeps (`foldlM_keeps`).
-/

namespace MyBooks

universe u

variable {ε : Type*} {α β : Type u}

@[simp] theorem bind_eq_ok {x : Except ε α} {f : α → Except ε β} {b : β} :
    (x >>= f) = .ok b ↔ ∃ a, x = .ok a ∧ f a = .ok b := by
  cases x with
  | error e => exact ⟨fun h => (by cases h), fun ⟨a, h, _⟩ => (by cases h)⟩
  | ok a => exact ⟨fun h => ⟨a, rfl, h⟩, fun ⟨a', ha, h⟩ => (by cases ha; exact h)⟩

@[simp] theorem pure_eq_ok {a b : α} : (pure a : Except ε α) = .ok b ↔ a = b :=
  ⟨fun h => (by cases h; rfl), fun h => (by rw [h]; rfl)⟩

@[simp] theorem ok_bind (a : α) (f : α → Except ε β) : (Except.ok a >>= f) = f a := rfl

@[simp] theorem error_bind (e : ε) (f : α → Except ε β) :
    ((Except.error e : Except ε α) >>= f) = .error e := rfl

theorem map_eq_ok {x : Except ε α} {f : α → β} {b : β} :
    x.map f = .ok b ↔ ∃ a, x = .ok a ∧ f a = b := by
  cases x with
  | error e => exact ⟨fun h => (by cases h), fun ⟨a, h, _⟩ => (by cases h)⟩
  | ok a =>
    exact ⟨fun h => ⟨a, rfl, Except.ok.inj h⟩, fun ⟨a', ha, h⟩ => (by cases ha; rw [← h]; rfl)⟩

theorem ite_error_eq_ok {p : Prop} [Decidable p] {e : ε} {x : Except ε α} {a : α} :
    (if p then .error e else x) = .ok a ↔ ¬p ∧ x = .ok a := by
  split_ifs with h <;> simp [h]

/-- A check that is made only where `p` holds. -/
theorem ite_bind_ok {p : Prop} [Decidable p] {x : Except ε PUnit} {f : PUnit → Except ε β} {b : β}
    (h : (if p then x >>= f else f ⟨⟩) = .ok b) : ∃ u, f u = .ok b := by
  split_ifs at h
  · obtain ⟨u, -, h⟩ := bind_eq_ok.mp h
    exact ⟨u, h⟩
  · exact ⟨⟨⟩, h⟩

theorem foldlM_nil_ok {f : β → α → Except ε β} {b b' : β} :
    List.foldlM f b [] = .ok b' ↔ b = b' := by
  rw [List.foldlM_nil, pure_eq_ok]

theorem foldlM_cons_ok {f : β → α → Except ε β} {b b' : β} {a : α} {l : List α} :
    List.foldlM f b (a :: l) = .ok b' ↔ ∃ c, f b a = .ok c ∧ List.foldlM f c l = .ok b' := by
  rw [List.foldlM_cons, bind_eq_ok]

theorem foldlM_append_ok {f : β → α → Except ε β} {b b' : β} {l l' : List α} :
    List.foldlM f b (l ++ l') = .ok b' ↔
      ∃ c, List.foldlM f b l = .ok c ∧ List.foldlM f c l' = .ok b' := by
  rw [List.foldlM_append, bind_eq_ok]

/-- A check of all elements passes where each passes. -/
theorem forM_ok {f : α → Except ε PUnit} : ∀ {l : List α} {u : PUnit}, l.forM f = .ok u →
    ∀ a ∈ l, f a = .ok u
  | [], _, _ => by simp
  | a :: l, u, h => by
    obtain ⟨_, ha, h⟩ := bind_eq_ok.mp h
    intro a' hmem
    rcases List.mem_cons.mp hmem with rfl | hmem
    · exact ha
    · exact forM_ok h a' hmem

/-- Results of `mapM`, one by one. -/
theorem mapM_ok_forall {f : α → Except ε β} {P : β → Prop} :
    ∀ {l : List α} {bs : List β}, l.mapM f = .ok bs → (∀ a ∈ l, ∀ b, f a = .ok b → P b) →
      ∀ b ∈ bs, P b
  | [], bs, h, _ => by
    rw [List.mapM_nil, pure_eq_ok] at h
    simp [← h]
  | a :: l, bs, h, hP => by
    rw [List.mapM_cons, bind_eq_ok] at h
    obtain ⟨b, hb, h⟩ := h
    obtain ⟨bs', hbs, h⟩ := bind_eq_ok.mp h
    obtain rfl := pure_eq_ok.mp h
    intro b' hb'
    rcases List.mem_cons.mp hb' with rfl | hb'
    · exact hP a List.mem_cons_self _ hb
    · exact mapM_ok_forall hbs (fun a' ha' => hP a' (List.mem_cons_of_mem _ ha')) b' hb'

theorem mapM_error {f : α → Except ε β} {e : ε} :
    ∀ {l : List α}, l.mapM f = .error e → ∃ a ∈ l, f a = .error e
  | [], h => by
    rw [List.mapM_nil] at h
    cases h
  | a :: l, h => by
    rw [List.mapM_cons] at h
    rcases hb : f a with e' | b
    · rw [hb] at h
      cases h
      exact ⟨a, List.mem_cons_self, hb⟩
    · rw [hb] at h
      rcases hbs : l.mapM f with e' | bs
      · rw [hbs] at h
        cases h
        obtain ⟨a', ha', h'⟩ := mapM_error hbs
        exact ⟨a', List.mem_cons_of_mem _ ha', h'⟩
      · rw [hbs] at h
        cases h

/-- A property that every step of a loop keeps holds after the loop. -/
theorem foldlM_keeps {f : β → α → Except ε β} (P : β → Prop) :
    ∀ {l : List α} {b b' : β}, (∀ a ∈ l, ∀ c c', P c → f c a = .ok c' → P c') → P b →
      List.foldlM f b l = .ok b' → P b'
  | [], b, b', _, hb, h => by rwa [← foldlM_nil_ok.mp h]
  | a :: l, b, b', hstep, hb, h => by
    obtain ⟨c, hc, h'⟩ := foldlM_cons_ok.mp h
    exact foldlM_keeps P (fun a' ha' => hstep a' (List.mem_cons_of_mem _ ha'))
      (hstep a List.mem_cons_self _ _ hb hc) h'

/-- A loop whose steps all succeed from what they keep succeeds. -/
theorem foldlM_succeeds {f : β → α → Except ε β} (P : β → Prop) :
    ∀ {l : List α} {b : β}, (∀ a ∈ l, ∀ c, P c → ∃ c', f c a = .ok c' ∧ P c') → P b →
      ∃ b', List.foldlM f b l = .ok b' ∧ P b'
  | [], b, _, hb => ⟨b, foldlM_nil_ok.mpr rfl, hb⟩
  | a :: l, b, hstep, hb => by
    obtain ⟨c, hc, hPc⟩ := hstep a List.mem_cons_self b hb
    obtain ⟨b', hb', hPb'⟩ :=
      foldlM_succeeds P (fun a' ha' => hstep a' (List.mem_cons_of_mem _ ha')) hPc
    exact ⟨b', foldlM_cons_ok.mpr ⟨c, hc, hb'⟩, hPb'⟩

theorem mapM_succeeds {f : α → Except ε β} :
    ∀ {l : List α}, (∀ a ∈ l, ∃ b, f a = .ok b) → ∃ bs, l.mapM f = .ok bs
  | [], _ => ⟨[], rfl⟩
  | a :: l, h => by
    obtain ⟨b, hb⟩ := h a List.mem_cons_self
    obtain ⟨bs, hbs⟩ := mapM_succeeds fun a' ha' => h a' (List.mem_cons_of_mem _ ha')
    exact ⟨b :: bs, by rw [List.mapM_cons, hb, hbs]; rfl⟩

/-- Loops in step: what one does to a part of a state, the other does to the state. -/
theorem foldlM_inside {σ τ : Type u} {f : σ → β → Except ε σ} {g : τ → α → Except ε τ}
    {i : τ → σ} {l : α → β} : ∀ {as : List α} {t : τ},
    (∀ a ∈ as, ∀ t, f (i t) (l a) = (g t a).map i) →
      (as.map l).foldlM f (i t) = (as.foldlM g t).map i
  | [], _, _ => rfl
  | a :: as, t, h => by
    obtain ⟨ha, has⟩ := List.forall_mem_cons.mp h
    rw [List.map_cons, List.foldlM_cons, List.foldlM_cons, ha]
    cases hstep : g t a with
    | error e => rfl
    | ok t' => exact foldlM_inside has

/-- A loop that collects what it reads. -/
theorem foldlM_collect : ∀ {as done : List α},
    as.foldlM (fun acc a => .ok (acc ++ [a]) : List α → α → Except ε (List α)) done =
      .ok (done ++ as)
  | [], done => by rw [List.append_nil]; rfl
  | a :: as, done => by
    rw [List.foldlM_cons, ok_bind, foldlM_collect, List.append_assoc]
    rfl

end MyBooks
