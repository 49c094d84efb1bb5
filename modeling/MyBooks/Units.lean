import MyBooks.Result

/-!
# Runs of units of work

A transition function may refuse an operation. A unit of operations takes effect whole or not at
all (`commit`), and `reached` lists the states a run of units goes through. What every operation
that meets a condition keeps holds in all of them (`reached_keeps`), whether the units commit or
not.
-/

namespace MyBooks

universe u

variable {σ ι : Type u} {ε : Type*} (step : σ → ι → Except ε σ)

/-- The state after a unit: with all of its operations, or with none. -/
def commit (s : σ) (unit : List ι) : σ :=
  match unit.foldlM step s with
  | .ok s' => s'
  | .error _ => s

/-- The states of a run, the first included. -/
def reached (s : σ) (units : List (List ι)) : List σ := units.scanl (commit step) s

variable (cond : σ → ι → Prop)

/-- Every operation of the unit that is tried meets `cond` in the state it finds. -/
def UnitMeets : σ → List ι → Prop
  | _, [] => True
  | s, i :: is => cond s i ∧ ∀ s' ∈ (step s i).toOption, UnitMeets s' is

def Meets : σ → List (List ι) → Prop
  | _, [] => True
  | s, u :: us => UnitMeets step cond s u ∧ Meets (commit step s u) us

instance UnitMeets.decidable [∀ s i, Decidable (cond s i)] :
    ∀ s u, Decidable (UnitMeets step cond s u)
  | _, [] => inferInstanceAs (Decidable True)
  | s, i :: is =>
    have : ∀ s', Decidable (UnitMeets step cond s' is) := fun s' => UnitMeets.decidable s' is
    inferInstanceAs (Decidable (cond s i ∧ ∀ s' ∈ (step s i).toOption, UnitMeets step cond s' is))

instance Meets.decidable [∀ s i, Decidable (cond s i)] : ∀ s us, Decidable (Meets step cond s us)
  | _, [] => inferInstanceAs (Decidable True)
  | s, u :: us =>
    have := Meets.decidable (commit step s u) us
    inferInstanceAs (Decidable (UnitMeets step cond s u ∧ Meets step cond (commit step s u) us))

variable {step cond} {P : σ → Prop}

theorem UnitMeets.of_forall (h : ∀ s i, cond s i) : ∀ (u : List ι) (s : σ), UnitMeets step cond s u
  | [], _ => trivial
  | i :: is, s => ⟨h s i, fun s' _ => UnitMeets.of_forall h is s'⟩

theorem Meets.of_forall (h : ∀ s i, cond s i) :
    ∀ (us : List (List ι)) (s : σ), Meets step cond s us
  | [], _ => trivial
  | u :: us, s => ⟨UnitMeets.of_forall h u s, Meets.of_forall h us (commit step s u)⟩

theorem unit_keeps (hstep : ∀ s i s', P s → cond s i → step s i = .ok s' → P s') :
    ∀ {unit : List ι} {s s' : σ}, UnitMeets step cond s unit → P s →
      unit.foldlM step s = .ok s' → P s'
  | [], s, s', _, hs, h => by rwa [← foldlM_nil_ok.mp h]
  | i :: is, s, s', hm, hs, h => by
    obtain ⟨c, hc, h'⟩ := foldlM_cons_ok.mp h
    exact unit_keeps hstep (hm.2 c (by simp [hc, Except.toOption])) (hstep s i c hs hm.1 hc) h'

/-- A unit that commits keeps the invariant step by step, one that does not changes nothing. -/
theorem commit_keeps (hstep : ∀ s i s', P s → cond s i → step s i = .ok s' → P s')
    {unit : List ι} {s : σ} (hm : UnitMeets step cond s unit) (hs : P s) :
    P (commit step s unit) := by
  unfold commit
  rcases h : unit.foldlM step s with e | s'
  · exact hs
  · exact unit_keeps hstep hm hs h

theorem reached_keeps (hstep : ∀ s i s', P s → cond s i → step s i = .ok s' → P s') :
    ∀ {units : List (List ι)} {s : σ}, Meets step cond s units → P s →
      ∀ s' ∈ reached step s units, P s'
  | [], s, _, hs, s', h => by
    rw [reached, List.scanl_nil, List.mem_singleton] at h
    rwa [h]
  | u :: us, s, hm, hs, s', h => by
    rw [reached, List.scanl_cons, List.mem_cons] at h
    rcases h with rfl | h
    · exact hs
    · exact reached_keeps hstep hm.2 (commit_keeps hstep hm.1 hs) s' h

end MyBooks
