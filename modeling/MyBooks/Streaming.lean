import Mathlib.Tactic.Common

/-!
# Reading items off a stream that comes in pieces

A reader takes one item at a time off the front of the bytes it has, waits where they do not hold a
whole item, or fails. It is steady where bytes that come later change neither an item it takes nor a
failure. A steady reader gives the same items and ends the same way however the stream is cut into
pieces (`feed_eq_drain`).
-/

namespace MyBooks

variable {σ α β ε : Type}

/-- One step of a reader: the next state, what it gives out, and the bytes left. -/
abbrev Reader (σ α β ε : Type) := σ → List β → Except ε (Option (σ × List α × List β))

structure Steady (next : Reader σ α β ε) : Prop where
  shrinks : ∀ {s p s' out rest}, next s p = .ok (some (s', out, rest)) → rest.length < p.length
  keeps : ∀ {s p s' out rest} (b), next s p = .ok (some (s', out, rest)) →
    next s (p ++ b) = .ok (some (s', out, rest ++ b))
  fails : ∀ {s p e} (b), next s p = .error e → next s (p ++ b) = .error e

variable (next : Reader σ α β ε)

def drainFuel : ℕ → σ → List β → Except ε (σ × List α × List β)
  | 0, s, p => .ok (s, [], p)
  | k + 1, s, p =>
    match next s p with
    | .error e => .error e
    | .ok none => .ok (s, [], p)
    | .ok (some (s', out, rest)) =>
      match drainFuel k s' rest with
      | .error e => .error e
      | .ok (t, more, left) => .ok (t, out ++ more, left)

/-- Takes items until the reader waits. Each shortens the bytes, so their number is fuel enough. -/
def drain (s : σ) (p : List β) : Except ε (σ × List α × List β) := drainFuel next (p.length + 1) s p

/-- The pieces one after the other, each drained as it comes. -/
def feed : σ → List β → List (List β) → Except ε (σ × List α × List β)
  | s, p, [] => .ok (s, [], p)
  | s, p, c :: cs =>
    match drain next s (p ++ c) with
    | .error e => .error e
    | .ok (t, out, left) =>
      match feed t left cs with
      | .error e => .error e
      | .ok (u, more, left') => .ok (u, out ++ more, left')

variable {next}

theorem drainFuel_eq (h : Steady next) : ∀ {k k' : ℕ} {s : σ} {p : List β}, p.length < k →
    p.length < k' → drainFuel next k s p = drainFuel next k' s p
  | 0, _, _, _, hk, _ => absurd hk (Nat.not_lt_zero _)
  | _ + 1, 0, _, _, _, hk' => absurd hk' (Nat.not_lt_zero _)
  | k + 1, k' + 1, s, p, hk, hk' => by
    unfold drainFuel
    rcases hn : next s p with e | _ | ⟨s', out, rest⟩
    · rfl
    · rfl
    · have := h.shrinks hn
      simp only []
      rw [drainFuel_eq h (by omega : rest.length < k) (by omega : rest.length < k')]

theorem drain_error {s : σ} {p : List β} {e : ε} (hn : next s p = .error e) :
    drain next s p = .error e := by
  unfold drain drainFuel
  rw [hn]

theorem drain_wait {s : σ} {p : List β} (hn : next s p = .ok none) :
    drain next s p = .ok (s, [], p) := by
  unfold drain drainFuel
  rw [hn]

theorem drain_take (h : Steady next) {s s' : σ} {p rest : List β} {out : List α}
    (hn : next s p = .ok (some (s', out, rest))) :
    drain next s p =
      match drain next s' rest with
      | .error e => .error e
      | .ok (t, more, left) => .ok (t, out ++ more, left) := by
  have hlt := h.shrinks hn
  unfold drain
  rw [drainFuel, hn]
  simp only []
  rw [drainFuel_eq h (by omega : rest.length < p.length) (Nat.lt_succ_self _)]

/-- A drained reader waits. -/
theorem drain_stuck (h : Steady next) {s t : σ} {p left : List β} {out : List α}
    (hd : drain next s p = .ok (t, out, left)) : next t left = .ok none := by
  rcases hn : next s p with e | _ | ⟨s', out', rest⟩
  · rw [drain_error hn] at hd
    cases hd
  · rw [drain_wait hn] at hd
    cases hd
    exact hn
  · have hlt := h.shrinks hn
    rw [drain_take h hn] at hd
    split at hd
    · cases hd
    · rename_i t' more left' hd'
      cases hd
      exact drain_stuck h hd'
termination_by p.length

/-- Bytes that come later are drained from where the bytes before them left off. -/
theorem drain_append (h : Steady next) (s : σ) (p b : List β) :
    drain next s (p ++ b) =
      match drain next s p with
      | .error e => .error e
      | .ok (t, out, left) =>
        match drain next t (left ++ b) with
        | .error e => .error e
        | .ok (u, more, left') => .ok (u, out ++ more, left') := by
  rcases hn : next s p with e | _ | ⟨s', out, rest⟩
  · rw [drain_error hn, drain_error (h.fails b hn)]
  · rw [drain_wait hn]
    simp only [List.nil_append]
    rcases drain next s (p ++ b) with e | ⟨u, more, left'⟩ <;> rfl
  · have hlt := h.shrinks hn
    rw [drain_take h (h.keeps b hn), drain_append h s' rest b, drain_take h hn]
    rcases drain next s' rest with e | ⟨t, more, left⟩
    · rfl
    · simp only []
      rcases drain next t (left ++ b) with e | ⟨u, more', left'⟩
      · rfl
      · simp only [List.append_assoc]
termination_by p.length

/-- A waiting reader that is fed a stream in pieces reads it as a whole. -/
theorem feed_eq_drain (h : Steady next) : ∀ (cs : List (List β)) {s : σ} {p : List β},
    next s p = .ok none → feed next s p cs = drain next s (p ++ cs.flatten)
  | [], s, p, hn => by
    rw [feed, List.flatten_nil, List.append_nil, drain_wait hn]
  | c :: cs, s, p, _ => by
    rw [feed, List.flatten_cons, ← List.append_assoc, drain_append h s (p ++ c)]
    rcases hd : drain next s (p ++ c) with e | ⟨t, out, left⟩
    · rfl
    · simp only []
      rw [feed_eq_drain h cs (drain_stuck h hd)]

end MyBooks
