import Mathlib.Data.Option.Basic
import Mathlib.Tactic.Common

/-!
# Runs of steps that may not be enabled

A step function answers `none` where its step cannot be taken. What every enabled step keeps holds
after every run (`run_keeps`), and what the steps that meet a condition keep holds after every run
whose steps all meet it (`run_keeps_of`).
-/

namespace MyBooks

variable {σ ι : Type*} {step : σ → ι → Option σ}

variable (step) in
/-- The state after the steps, each taken where the one before it led. -/
def run (s : σ) (is : List ι) : Option σ := is.foldlM step s

@[simp] theorem run_step_nil (s : σ) : run step s [] = some s := rfl

@[simp] theorem run_step_cons (s : σ) (i : ι) (is : List ι) :
    run step s (i :: is) = (step s i).bind fun s' => run step s' is := rfl

theorem run_keeps {P : σ → Prop} (hstep : ∀ s i s', P s → step s i = some s' → P s') :
    ∀ {is : List ι} {s s' : σ}, run step s is = some s' → P s → P s'
  | [], s, s', h, hs => by rwa [← Option.some.inj h]
  | i :: is, s, s', h, hs => by
    rw [run_step_cons] at h
    obtain ⟨c, hc, h'⟩ := Option.bind_eq_some_iff.mp h
    exact run_keeps hstep h' (hstep s i c hs hc)

variable (step) in
/-- Every step of the run meets `cond` in the state it is taken in. -/
def RunMeets (cond : σ → ι → Prop) : σ → List ι → Prop
  | _, [] => True
  | s, i :: is => cond s i ∧ ∀ s' ∈ step s i, RunMeets cond s' is

instance RunMeets.decidable (cond : σ → ι → Prop) [∀ s i, Decidable (cond s i)] :
    ∀ s is, Decidable (RunMeets step cond s is)
  | _, [] => inferInstanceAs (Decidable True)
  | s, i :: is =>
    have : ∀ s', Decidable (RunMeets step cond s' is) := fun s' => RunMeets.decidable cond s' is
    inferInstanceAs (Decidable (cond s i ∧ ∀ s' ∈ step s i, RunMeets step cond s' is))

theorem run_keeps_of {P : σ → Prop} {cond : σ → ι → Prop}
    (hstep : ∀ s i s', P s → cond s i → step s i = some s' → P s') :
    ∀ {is : List ι} {s s' : σ}, run step s is = some s' → RunMeets step cond s is → P s → P s'
  | [], s, s', h, _, hs => by rwa [← Option.some.inj h]
  | i :: is, s, s', h, hm, hs => by
    rw [run_step_cons] at h
    obtain ⟨c, hc, h'⟩ := Option.bind_eq_some_iff.mp h
    exact run_keeps_of hstep h' (hm.2 c hc) (hstep s i c hs hm.1 hc)

end MyBooks
