import Mathlib.Data.List.Forall2
import Mathlib.Data.List.Nodup
import Mathlib.Logic.Basic
import MyBooks.Result

/-!
# First fit

Items take slots one after another, each the first one that fits it and is free. Where two items
with one fitting slot in common fit the same slots, no choice does better: first fit gives every
item a slot whenever some choice of different slots does (`exists_firstFit`).
-/

namespace MyBooks

variable {ι σ : Type*} {fits : ι → σ → Prop} {slots : List σ}

/-- Different slots, none of them taken, one that fits for each item. -/
structure Placement (fits : ι → σ → Prop) (slots taken : List σ) (items : List ι)
    (places : List σ) : Prop where
  fit : List.Forall₂ fits items places
  nodup : places.Nodup
  mem : ∀ s ∈ places, s ∈ slots
  free : ∀ s ∈ places, s ∉ taken

/-- A slot put in the place of one that every item in it could leave for it. -/
theorem Placement.exchange [DecidableEq σ] {taken places : List σ} {items : List ι} {s t : σ}
    (h : Placement fits slots taken items places) (ht : t ∉ places) (hmem : t ∈ slots)
    (hfree : t ∉ taken) (hfit : ∀ i, fits i s → fits i t) :
    Placement fits slots (s :: taken) items (places.map fun u => if u = s then t else u) := by
  have hst : s ∈ places → t ≠ s := fun hs hts => ht (hts ▸ hs)
  obtain ⟨fit, nodup, mem, free⟩ := h
  refine ⟨?_, ?_, ?_, ?_⟩
  · rw [List.forall₂_map_right_iff]
    refine fit.imp fun i u hu => ?_
    split_ifs with hus
    · exact hfit i (hus ▸ hu)
    · exact hu
  · refine nodup.map_on fun u hu v hv huv => ?_
    split_ifs at huv with h1 h2 h2
    · rw [h1, h2]
    · exact absurd (huv ▸ hv) ht
    · exact absurd (huv ▸ hu) ht
    · exact huv
  · intro u hu
    obtain ⟨v, hv, rfl⟩ := List.mem_map.mp hu
    split_ifs
    · exact hmem
    · exact mem v hv
  · intro u hu
    obtain ⟨v, hv, rfl⟩ := List.mem_map.mp hu
    rw [List.mem_cons, not_or]
    split_ifs with hvs
    · exact ⟨hst (hvs ▸ hv), hfree⟩
    · exact ⟨hvs, free v hv⟩

variable [DecidableEq σ] [∀ i, DecidablePred (fits i)]

def firstFit (fits : ι → σ → Prop) [∀ i, DecidablePred (fits i)] (slots : List σ) :
    List σ → List ι → Option (List σ)
  | _, [] => some []
  | taken, i :: items => do
    let s ← slots.find? fun s => s ∉ taken ∧ fits i s
    let places ← firstFit fits slots (s :: taken) items
    return s :: places

theorem firstFit_cons_eq_some {taken : List σ} {i : ι} {items : List ι} {places : List σ} :
    firstFit fits slots taken (i :: items) = some places ↔
      ∃ s rest, slots.find? (fun s => s ∉ taken ∧ fits i s) = some s ∧
        firstFit fits slots (s :: taken) items = some rest ∧ s :: rest = places := by
  simp only [firstFit, bind, Option.bind_eq_some_iff, pure, Option.some.injEq]
  constructor
  · rintro ⟨s, hs, rest, hrest, h⟩
    exact ⟨s, rest, hs, hrest, h⟩
  · rintro ⟨s, rest, hs, hrest, h⟩
    exact ⟨s, hs, rest, hrest, h⟩

theorem firstFit_placement : ∀ {items : List ι} {taken places : List σ},
    firstFit fits slots taken items = some places → Placement fits slots taken items places
  | [], _, _, h => by
    obtain rfl := Option.some.inj h
    exact ⟨.nil, List.nodup_nil, by simp, by simp⟩
  | i :: items, taken, places, h => by
    obtain ⟨s, rest, hs, hrest, rfl⟩ := firstFit_cons_eq_some.mp h
    obtain ⟨hfree, hfit⟩ : s ∉ taken ∧ fits i s := by simpa using List.find?_some hs
    obtain ⟨fit, nodup, mem, free⟩ := firstFit_placement hrest
    have hnew : ∀ t ∈ rest, t ≠ s ∧ t ∉ taken := fun t ht => by simpa using free t ht
    refine ⟨.cons hfit fit, List.nodup_cons.mpr ⟨fun hs' => (hnew s hs').1 rfl, nodup⟩, ?_, ?_⟩
    · intro t ht
      rcases List.mem_cons.mp ht with rfl | ht
      · exact List.mem_of_find?_eq_some hs
      · exact mem t ht
    · intro t ht
      rcases List.mem_cons.mp ht with rfl | ht
      · exact hfree
      · exact (hnew t ht).2

/-- First fit misses no placement: what an item takes, another gives up for what that item had. -/
theorem exists_firstFit (hshare : ∀ i j s t, fits i s → fits j s → fits i t → fits j t) :
    ∀ {items : List ι} {taken places : List σ}, Placement fits slots taken items places →
      ∃ places', firstFit fits slots taken items = some places'
  | [], _, _, _ => ⟨[], rfl⟩
  | i :: items, taken, places, h => by
    obtain ⟨fit, nodup, mem, free⟩ := h
    obtain ⟨t, rest, hit, hrest, rfl⟩ := List.forall₂_cons_left_iff.mp fit
    have ht : t ∉ rest := (List.nodup_cons.mp nodup).1
    have hmem : t ∈ slots := mem t List.mem_cons_self
    have hfree : t ∉ taken := free t List.mem_cons_self
    obtain ⟨s, hs⟩ : ∃ s, slots.find? (fun s => s ∉ taken ∧ fits i s) = some s := by
      rw [← Option.isSome_iff_exists, List.find?_isSome]
      exact ⟨t, hmem, by simpa using ⟨hfree, hit⟩⟩
    obtain ⟨-, his⟩ : s ∉ taken ∧ fits i s := by simpa using List.find?_some hs
    have hplaced : Placement fits slots taken items rest :=
      ⟨hrest, (List.nodup_cons.mp nodup).2, fun u hu => mem u (List.mem_cons_of_mem _ hu),
        fun u hu => free u (List.mem_cons_of_mem _ hu)⟩
    obtain ⟨rest', hrest'⟩ := exists_firstFit hshare
      (hplaced.exchange ht hmem hfree fun j hj => hshare i j s t his hj hit)
    exact ⟨s :: rest', firstFit_cons_eq_some.mpr ⟨s, rest', hs, hrest', rfl⟩⟩

section Failing

variable {α ε : Type} {p : α → Except ε Bool}

/-- A search that does not fail finds what it would find if nothing could fail. -/
theorem find?_of_findM? [DecidableEq ε] : ∀ {xs : List α} {o : Option α},
    xs.findM? p = .ok o → xs.find? (fun x => p x = .ok true) = o
  | [], _, h => Except.ok.inj h
  | x :: xs, o, h => by
    rw [List.findM?, bind_eq_ok] at h
    obtain ⟨v, hv, h⟩ := h
    cases v with
    | true =>
      rw [List.find?_cons_of_pos (by simpa using hv)]
      exact Except.ok.inj h
    | false =>
      rw [List.find?_cons_of_neg (by simp [hv])]
      exact find?_of_findM? h

theorem findM?_ok : ∀ xs : List α, (∀ x ∈ xs, ∃ v, p x = .ok v) → ∃ o, xs.findM? p = .ok o
  | [], _ => ⟨none, rfl⟩
  | x :: xs, h => by
    obtain ⟨v, hv⟩ := h x List.mem_cons_self
    rw [List.findM?, hv, ok_bind]
    cases v with
    | true => exact ⟨some x, rfl⟩
    | false => exact findM?_ok xs fun y hy => h y (List.mem_cons_of_mem _ hy)

end Failing

end MyBooks
