import Mathlib.Algebra.Order.BigOperators.Group.List
import Mathlib.Algebra.Order.Group.Nat
import MyBooks.Reprint

/-!
# The text of a stored value

Substituting ids in a value's text substitutes them in its strings (`replaceTokens_text`). Each step
of the import keeps the separators, and makes the text no longer and no richer in upper case; where
neither changes, no string was read as another and no member was dropped.
-/

namespace MyBooks

namespace Remap

/-! ## Weights -/

/-- What a member of a styled list weighs without its separator. -/
def partWeight (isObject : Bool) (p : Part Json) : ℕ :=
  weight (head isObject p.key p.colon) + weight p.value.text

/-- The members weigh alike in any order. -/
theorem weight_partsText {isObject : Bool} {sep : Text} : ∀ {ps : List (Part Json)},
    partsStyled isObject sep ps → weight (partsText isObject ps)
      = (ps.map (partWeight isObject)).sum + (ps.length - 1) * weight sep
  | [], _ => by
    rw [List.map_nil, List.sum_nil, List.length_nil, Nat.zero_sub, Nat.zero_mul]
    rfl
  | ⟨key, colon, value, s⟩ :: ps, ⟨_, _, hs, hps⟩ => by
    rw [partsText, weight_append, weight_append, weight_append, weight_partsText hps,
      List.map_cons, List.sum_cons, List.length_cons, partWeight, hs]
    cases ps with
    | nil => simp [weight, uppers]
    | cons p ps =>
      simp only [List.isEmpty_cons, Bool.false_eq_true, if_false, List.length_cons,
        Nat.add_sub_cancel, Nat.succ_mul]
      omega

theorem weight_node (isObject : Bool) (lead : Text) (parts : List (Part Json)) (tail : Text) :
    weight (Json.node isObject lead parts tail).text
      = weight lead + weight (partsText isObject parts) + weight tail + 2 := by
  rw [Json.text, weight_append, weight_append, weight_append, weight_cons]
  cases isObject <;> simp [opening, closing, weight, uppers] <;> omega

/-! ## Styled values -/

theorem KeyStyled.wf {isObject : Bool} {key colon : Text}
    (h : if isObject then closed key = true ∧ colon = [':', ' '] else key = [] ∧ colon = []) :
    KeyWf isObject key colon := by
  cases isObject with
  | false => exact h
  | true =>
    obtain ⟨hkey, rfl⟩ := h
    exact ⟨hkey, [], [' '], rfl, rfl, rfl⟩

theorem partsStyled_wf {isObject : Bool} {sep : Text} (hsep : sep = [','] ∨ sep = [',', ' ']) :
    ∀ {ps : List (Part Json)}, (∀ p ∈ ps, p.value.Styled → p.value.Wf) →
      partsStyled isObject sep ps → partsWf isObject ps
  | [], _, _ => trivial
  | ⟨key, colon, value, s⟩ :: ps, ih, ⟨hkey, hv, hs, hps⟩ => by
    refine ⟨KeyStyled.wf hkey, ih _ List.mem_cons_self hv, ?_,
      partsStyled_wf hsep (fun p hp => ih p (List.mem_cons_of_mem _ hp)) hps⟩
    cases ps with
    | nil => exact hs
    | cons p ps =>
      obtain rfl : s = sep := hs
      rcases hsep with rfl | rfl
      · exact ⟨[], [], rfl, rfl, rfl⟩
      · exact ⟨[], [' '], rfl, rfl, rfl⟩

theorem Json.styled_wf (j : Json) (h : j.Styled) : j.Wf := by
  induction j using Json.induction with
  | str raw => exact h
  | lit raw => exact ⟨h.1, h.2.1⟩
  | node isObject lead parts tail ih =>
    obtain ⟨rfl, rfl, sep, hsep, -, hparts⟩ := h
    exact ⟨rfl, rfl, fun _ => rfl, partsStyled_wf hsep ih hparts⟩

theorem partsStyled_mem {isObject : Bool} {sep : Text} : ∀ {ps : List (Part Json)},
    partsStyled isObject sep ps → ∀ p ∈ ps,
      (if isObject then closed p.key = true ∧ p.colon = [':', ' '] else p.key = [] ∧ p.colon = [])
        ∧ p.value.Styled
  | [], _, _, hp => absurd hp List.not_mem_nil
  | _ :: _, ⟨hkey, hv, _, hps⟩, q, hq => by
    rcases List.mem_cons.mp hq with rfl | hq
    · exact ⟨hkey, hv⟩
    · exact partsStyled_mem hps q hq

/-- Respaced members are styled. -/
theorem partsStyled_respace {isObject : Bool} {sep : Text} : ∀ {ps : List (Part Json)},
    (∀ p ∈ ps, (if isObject then closed p.key = true ∧ p.colon = [':', ' ']
      else p.key = [] ∧ p.colon = []) ∧ p.value.Styled) →
    partsStyled isObject sep (respace sep ps)
  | [], _ => trivial
  | [p], h => ⟨(h p List.mem_cons_self).1, (h p List.mem_cons_self).2, rfl, trivial⟩
  | p :: q :: ps, h => by
    have hnext : partsStyled isObject sep (respace sep (q :: ps)) :=
      partsStyled_respace fun r hr => h r (List.mem_cons_of_mem p hr)
    refine ⟨(h p List.mem_cons_self).1, (h p List.mem_cons_self).2, ?_, hnext⟩
    cases ps <;> rfl

theorem respace_styled {isObject : Bool} {sep : Text} : ∀ {ps : List (Part Json)},
    partsStyled isObject sep ps → respace sep ps = ps
  | [], _ => rfl
  | [p], ⟨_, _, hs, _⟩ => by
    obtain ⟨key, colon, value, s⟩ := p
    obtain rfl : s = [] := hs
    rfl
  | p :: q :: ps, ⟨_, _, hs, hps⟩ => by
    obtain ⟨key, colon, value, s⟩ := p
    obtain rfl : s = sep := hs
    rw [respace, respace_styled hps]

/-- Members moved by `ordered` are respaced with the separator they had. -/
theorem sepOf_styled {ps : List (Part Json)} (h : partsStyled true [',', ' '] ps) :
    sepOf ps = [',', ' '] := by
  unfold sepOf
  split
  · rfl
  · rename_i p ps
    obtain ⟨key, colon, value, s⟩ := p
    obtain ⟨-, -, hs, -⟩ := h
    simp only [hs]
    cases ps <;> rfl

theorem partsStyled_ordered {isObject : Bool} {sep : Text} {ps : List (Part Json)}
    (hsep : isObject = true → sep = [',', ' ']) (h : partsStyled isObject sep ps) :
    partsStyled isObject sep (ordered isObject ps) := by
  cases isObject with
  | false => exact h
  | true =>
    obtain rfl := hsep rfl
    simp only [ordered, if_true, sepOf_styled h]
    refine partsStyled_respace fun p hp => partsStyled_mem h p ?_
    exact (List.perm_insertionSort _ ps).mem_iff.mp hp

theorem partsStyled_values {isObject : Bool} {sep : Text} {f : Json → Json} :
    ∀ {ps : List (Part Json)}, (∀ p ∈ ps, (f p.value).Styled) → partsStyled isObject sep ps →
      partsStyled isObject sep (ps.map fun p => { p with value := f p.value })
  | [], _, _ => trivial
  | p :: ps, hf, ⟨hkey, _, hs, hps⟩ => by
    refine ⟨hkey, hf p List.mem_cons_self, ?_,
      partsStyled_values (fun q hq => hf q (List.mem_cons_of_mem p hq)) hps⟩
    rw [List.isEmpty_map]
    exact hs

theorem Json.sorted_styled (j : Json) (h : j.Styled) : j.sorted.Styled := by
  induction j using Json.induction with
  | str raw => exact h
  | lit raw => exact h
  | node isObject lead parts tail ih =>
    obtain ⟨rfl, rfl, sep, hsep, hobj, hparts⟩ := h
    refine ⟨rfl, rfl, sep, hsep, hobj, partsStyled_ordered hobj ?_⟩
    rw [partsSorted_eq]
    exact partsStyled_values (fun p hp => ih p hp (partsStyled_mem hparts p hp).2) hparts

theorem partWeight_respace (isObject : Bool) (sep : Text) (ps : List (Part Json)) :
    (respace sep ps).map (partWeight isObject) = ps.map (partWeight isObject) :=
  respace_map (fun key colon value => weight (head isObject key colon) + weight (Json.text value))
    sep ps

theorem weight_ordered {isObject : Bool} {sep : Text} {ps : List (Part Json)}
    (hsep : isObject = true → sep = [',', ' ']) (h : partsStyled isObject sep ps) :
    weight (partsText isObject (ordered isObject ps)) = weight (partsText isObject ps) := by
  rw [weight_partsText (partsStyled_ordered hsep h), weight_partsText h]
  cases isObject with
  | false => rfl
  | true =>
    simp only [ordered, if_true, partWeight_respace, respace_length, sortParts,
      List.length_insertionSort]
    rw [((List.perm_insertionSort _ ps).map (partWeight true)).sum_nat]

theorem weight_values {isObject : Bool} {f : Json → Json} {ps : List (Part Json)}
    (hf : ∀ p ∈ ps, weight (f p.value).text = weight p.value.text) :
    (ps.map fun p => { p with value := f p.value }).map (partWeight isObject)
      = ps.map (partWeight isObject) := by
  rw [List.map_map]
  exact List.map_congr_left fun p hp => by simp only [Function.comp_apply, partWeight, hf p hp]

theorem Json.weight_sorted (j : Json) (h : j.Styled) : weight j.sorted.text = weight j.text := by
  induction j using Json.induction with
  | str raw => rfl
  | lit raw => rfl
  | node isObject lead parts tail ih =>
    obtain ⟨rfl, rfl, sep, hsep, hobj, hparts⟩ := h
    have hmem := partsStyled_mem hparts
    have hvalues : partsStyled isObject sep (partsSorted parts) := by
      rw [partsSorted_eq]
      exact partsStyled_values (fun p hp => Json.sorted_styled _ (hmem p hp).2) hparts
    rw [Json.sorted, weight_node, weight_node, weight_ordered hobj hvalues,
      weight_partsText hvalues, weight_partsText hparts, partsSorted_eq,
      weight_values fun p hp => ih p hp (hmem p hp).2, List.length_map]

/-! ## Duplicate keys -/

theorem partsDeduped_eq (ps : List (Part Json)) :
    partsDeduped ps = ps.map fun p => { p with value := p.value.deduped } := by
  induction ps with
  | nil => rfl
  | cons p ps ih => rw [partsDeduped, ih, List.map_cons]

theorem lastKeys_sublist : ∀ ps : List (Part Json), (lastKeys ps).Sublist ps
  | [] => List.Sublist.refl _
  | p :: ps => by
    rw [lastKeys]
    split_ifs
    · exact (lastKeys_sublist ps).cons p
    · exact (lastKeys_sublist ps).cons_cons p

theorem lastKeys_ne_nil : ∀ {ps : List (Part Json)}, ps ≠ [] → lastKeys ps ≠ []
  | [], h => absurd rfl h
  | p :: ps, _ => by
    rw [lastKeys]
    split_ifs with hany
    · refine lastKeys_ne_nil ?_
      rintro rfl
      cases hany
    · exact List.cons_ne_nil _ _

theorem lastKeys_id : ∀ {ps : List (Part Json)}, (ps.map (·.key)).Nodup → lastKeys ps = ps
  | [], _ => rfl
  | p :: ps, h => by
    rw [List.map_cons, List.nodup_cons] at h
    rw [lastKeys, if_neg, lastKeys_id h.2]
    rw [List.any_eq_true]
    rintro ⟨q, hq, hkey⟩
    exact h.1 (of_decide_eq_true hkey ▸ List.mem_map_of_mem hq)

theorem partsStyled_lastKeys {isObject : Bool} {sep : Text} : ∀ {ps : List (Part Json)},
    partsStyled isObject sep ps → partsStyled isObject sep (lastKeys ps)
  | [], h => h
  | p :: ps, ⟨hkey, hv, hs, hps⟩ => by
    rw [lastKeys]
    split_ifs
    · exact partsStyled_lastKeys hps
    · refine ⟨hkey, hv, ?_, partsStyled_lastKeys hps⟩
      have hempty : (lastKeys ps).isEmpty = ps.isEmpty := by
        cases ps with
        | nil => rfl
        | cons q qs =>
          rw [List.isEmpty_cons]
          exact List.isEmpty_eq_false_iff.mpr (lastKeys_ne_nil (List.cons_ne_nil q qs))
      rw [hempty]
      exact hs

theorem Json.deduped_styled (j : Json) (h : j.Styled) : j.deduped.Styled := by
  induction j using Json.induction with
  | str raw => exact h
  | lit raw => exact h
  | node isObject lead parts tail ih =>
    obtain ⟨rfl, rfl, sep, hsep, hobj, hparts⟩ := h
    have hvalues : partsStyled isObject sep (partsDeduped parts) := by
      rw [partsDeduped_eq]
      exact partsStyled_values (fun p hp => ih p hp (partsStyled_mem hparts p hp).2) hparts
    refine ⟨rfl, rfl, sep, hsep, hobj, ?_⟩
    split_ifs
    · exact partsStyled_lastKeys hvalues
    · exact hvalues

theorem weight_lastKeys {isObject : Bool} {sep : Text} {ps : List (Part Json)}
    (h : partsStyled isObject sep ps) :
    weight (partsText isObject (lastKeys ps)) ≤ weight (partsText isObject ps) := by
  rw [weight_partsText (partsStyled_lastKeys h), weight_partsText h]
  have hsub := lastKeys_sublist ps
  have hsum := (hsub.map (partWeight isObject)).sum_le_sum (fun _ _ => Nat.zero_le _)
  have hlen := Nat.mul_le_mul_right (weight sep) (Nat.sub_le_sub_right hsub.length_le 1)
  omega

theorem weight_parts_le (isObject : Bool) {f : Json → Json} : ∀ {ps : List (Part Json)},
    (∀ p ∈ ps, weight (f p.value).text ≤ weight p.value.text) →
    ((ps.map fun p => { p with value := f p.value }).map (partWeight isObject)).sum
      ≤ (ps.map (partWeight isObject)).sum
  | [], _ => le_rfl
  | p :: ps, hf => by
    have hfirst := hf p List.mem_cons_self
    have hrest := weight_parts_le isObject fun q hq => hf q (List.mem_cons_of_mem p hq)
    simp only [List.map_cons, List.sum_cons, partWeight] at hrest ⊢
    omega

theorem Json.weight_deduped (j : Json) (h : j.Styled) : weight j.deduped.text ≤ weight j.text := by
  induction j using Json.induction with
  | str raw => exact le_rfl
  | lit raw => exact le_rfl
  | node isObject lead parts tail ih =>
    obtain ⟨rfl, rfl, sep, hsep, hobj, hparts⟩ := h
    have hmem := partsStyled_mem hparts
    have hvalues : partsStyled isObject sep (partsDeduped parts) := by
      rw [partsDeduped_eq]
      exact partsStyled_values (fun p hp => Json.deduped_styled _ (hmem p hp).2) hparts
    have hparts_le : weight (partsText isObject (partsDeduped parts))
        ≤ weight (partsText isObject parts) := by
      rw [weight_partsText hvalues, weight_partsText hparts, partsDeduped_eq, List.length_map]
      have := weight_parts_le isObject fun p hp => ih p hp (hmem p hp).2
      omega
    rw [Json.deduped, weight_node, weight_node]
    split_ifs
    · have := weight_lastKeys hvalues
      omega
    · omega

/-! ## Strings read and printed again -/

theorem partsReread_ok {isObject : Bool} {key colon s : Text} {v : Json} {ps : List (Part Json)}
    {qs : List (Part Json)} (h : partsReread isObject (⟨key, colon, v, s⟩ :: ps) = some qs) :
    ∃ key' v' ps', (if isObject then reprint key else some key) = some key' ∧ v.reread = some v'
      ∧ partsReread isObject ps = some ps' ∧ qs = ⟨key', colon, v', s⟩ :: ps' := by
  rw [partsReread] at h
  split at h
  · rename_i key' v' ps' hkey hv hps
    exact ⟨key', v', ps', hkey, hv, hps, (Option.some.inj h).symm⟩
  · cases h

theorem closed_reprint {raw raw' : Text} (h : reprint raw = some raw') : closed raw' = true := by
  obtain ⟨s, -, rfl⟩ := Option.map_eq_some_iff.mp h
  exact closed_escapeJson s

theorem weight_head (isObject : Bool) (key colon : Text) : weight (head isObject key colon)
    = if isObject then weight key + weight colon + 2 else 0 := by
  cases isObject with
  | false => rfl
  | true =>
    simp only [head, if_true]
    rw [weight_append, weight_cons, weight_cons]
    simp [weight, uppers]
    omega

theorem partsReread_styled {isObject : Bool} {sep : Text} : ∀ {ps qs : List (Part Json)},
    (∀ p ∈ ps, ∀ v, p.value.reread = some v → p.value.Styled → v.Styled) →
    partsStyled isObject sep ps → partsReread isObject ps = some qs →
      partsStyled isObject sep qs ∧ qs.isEmpty = ps.isEmpty
  | [], _, _, _, h => by
    cases h
    exact ⟨trivial, rfl⟩
  | ⟨key, colon, v, s⟩ :: ps, qs, ih, ⟨hkey, hv, hs, hps⟩, h => by
    obtain ⟨key', v', ps', hkey', hv', hps', rfl⟩ := partsReread_ok h
    obtain ⟨hrest, hempty⟩ :=
      partsReread_styled (fun p hp => ih p (List.mem_cons_of_mem _ hp)) hps hps'
    refine ⟨⟨?_, ih _ List.mem_cons_self _ hv' hv, ?_, hrest⟩, rfl⟩
    · cases isObject with
      | false =>
        cases hkey'
        exact hkey
      | true => exact ⟨closed_reprint hkey', hkey.2⟩
    · rw [hempty]
      exact hs

theorem Json.reread_styled (j : Json) : ∀ j', j.reread = some j' → j.Styled → j'.Styled := by
  induction j using Json.induction with
  | str raw =>
    intro j' h _
    obtain ⟨raw', hraw, rfl⟩ := Option.map_eq_some_iff.mp h
    exact closed_reprint hraw
  | lit raw =>
    intro j' h hs
    cases h
    exact hs
  | node isObject lead parts tail ih =>
    intro j' h hs
    obtain ⟨ps, hps, rfl⟩ := Option.map_eq_some_iff.mp h
    obtain ⟨rfl, rfl, sep, hsep, hobj, hparts⟩ := hs
    exact ⟨rfl, rfl, sep, hsep, hobj, (partsReread_styled ih hparts hps).1⟩

/-- What is read weighs no more than what was written, and as much only if every string was as it is
printed. -/
def Lighter (j : Json) : Prop := ∀ j', j.reread = some j' → weight j'.text ≤ weight j.text
  ∧ (weight j'.text = weight j.text → ∀ raw ∈ j.strings, reprint raw = some raw)

theorem partsReread_weight {isObject : Bool} : ∀ {ps qs : List (Part Json)},
    (∀ p ∈ ps, Lighter p.value) → partsReread isObject ps = some qs →
      weight (partsText isObject qs) ≤ weight (partsText isObject ps)
      ∧ (weight (partsText isObject qs) = weight (partsText isObject ps) →
        ∀ raw ∈ partsStrings isObject ps, reprint raw = some raw)
  | [], _, _, h => by
    cases h
    exact ⟨le_rfl, fun _ raw hraw => absurd hraw List.not_mem_nil⟩
  | ⟨key, colon, v, s⟩ :: ps, qs, ih, h => by
    obtain ⟨key', v', ps', hkey, hv, hps, rfl⟩ := partsReread_ok h
    obtain ⟨hle, heq⟩ : weight v'.text ≤ weight v.text ∧ (weight v'.text = weight v.text →
        ∀ raw ∈ v.strings, reprint raw = some raw) := ih _ List.mem_cons_self v' hv
    obtain ⟨hrest, hresteq⟩ := partsReread_weight (fun p hp => ih p (List.mem_cons_of_mem _ hp)) hps
    simp only [partsText, weight_append, weight_head, partsStrings, List.mem_append]
    cases isObject with
    | false =>
      refine ⟨by simp only [Bool.false_eq_true, if_false]; omega, fun hsum raw hraw => ?_⟩
      simp only [Bool.false_eq_true, if_false] at hsum hraw
      rcases hraw with (hraw | hraw) | hraw
      · cases hraw
      · exact heq (by omega) raw hraw
      · exact hresteq (by omega) raw hraw
    | true =>
      obtain ⟨hkeyle, hkeyeq⟩ := weight_reprint hkey
      refine ⟨by simp only [if_true]; omega, fun hsum raw hraw => ?_⟩
      simp only [if_true] at hsum hraw
      rcases hraw with (hraw | hraw) | hraw
      · obtain rfl := List.mem_singleton.mp hraw
        rw [if_pos rfl, hkeyeq (by omega)] at hkey
        exact hkey
      · exact heq (by omega) raw hraw
      · exact hresteq (by omega) raw hraw

theorem Json.lighter (j : Json) : Lighter j := by
  induction j using Json.induction with
  | str raw =>
    intro j' h
    obtain ⟨raw', hraw, rfl⟩ := Option.map_eq_some_iff.mp h
    obtain ⟨hle, heq⟩ := weight_reprint hraw
    have hw : ∀ t : Text, weight (Json.str t).text = weight t + 2 := by
      intro t
      rw [Json.text, weight_append, weight_cons]
      simp [weight, uppers]
      omega
    rw [hw, hw]
    refine ⟨by omega, fun h r hr => ?_⟩
    obtain rfl := List.mem_singleton.mp hr
    rw [heq (by omega)] at hraw
    exact hraw
  | lit raw =>
    intro j' h
    cases h
    exact ⟨le_rfl, fun _ raw hraw => absurd hraw List.not_mem_nil⟩
  | node isObject lead parts tail ih =>
    intro j' h
    obtain ⟨ps, hps, rfl⟩ := Option.map_eq_some_iff.mp h
    obtain ⟨hle, heq⟩ := partsReread_weight ih hps
    rw [weight_node, weight_node]
    exact ⟨by omega, fun h => heq (by omega)⟩

/-! ## Ids replaced in a value's text -/

theorem closed_alike : ∀ {s t : Text}, List.Forall₂ Alike s t → closed s = closed t
  | [], [], .nil => rfl
  | c :: s, d :: t, .cons hcd h => by
    by_cases hs : c = '\\'
    · subst hs
      obtain rfl := hcd.eq_of_not_hex rfl
      cases h with
      | nil => rfl
      | cons _ h =>
        have hrest := closed_alike h
        exact hrest
    · by_cases hq : c = '"'
      · subst hq
        obtain rfl := hcd.eq_of_not_hex rfl
        rfl
      · rw [closed_cons hs hq, closed_cons ((hcd.eq_iff rfl).not.mp hs) ((hcd.eq_iff rfl).not.mp hq)]
        exact closed_alike h

theorem count_dash_of_tokenFrom : ∀ {i n : ℕ} {s : Text}, tokenFrom i n s = true →
    (List.range' i n).countP dashAt ≤ s.count '-'
  | _, 0, _, _ => Nat.zero_le _
  | _, _ + 1, [], h => by cases h
  | i, n + 1, c :: s, h => by
    rw [tokenFrom, Bool.and_eq_true] at h
    have hrest := count_dash_of_tokenFrom h.2
    have hc := h.1
    rw [List.range'_succ, List.countP_cons, List.count_cons]
    split_ifs at hc ⊢ with hdash hbeq
    · omega
    · exact absurd (beq_iff_eq.mpr (of_decide_eq_true hc)) hbeq
    · omega
    · omega

/-- A text with fewer dashes than a token has none. -/
theorem startsToken_dashes {s : Text} (h : s.count '-' < 4) : startsToken s = false := by
  by_contra hne
  have hcount := count_dash_of_tokenFrom (Bool.of_not_eq_false hne)
  have hfour : (List.range' 0 36).countP dashAt = 4 := by decide
  omega

theorem replaceTokens_dashes {f : Text → Text} : ∀ {s : Text}, s.count '-' < 4 →
    replaceTokens f s = s
  | [], _ => rfl
  | c :: s, h => by
    rw [replaceTokens_char f (startsToken_dashes h), replaceTokens_dashes]
    exact Nat.lt_of_le_of_lt List.count_le_count_cons h

theorem tokens_dashes : ∀ {s : Text}, s.count '-' < 4 → tokens s = []
  | [], _ => rfl
  | c :: s, h => by
    rw [tokens_char (startsToken_dashes h), tokens_dashes]
    exact Nat.lt_of_le_of_lt List.count_le_count_cons h

variable {f : Text → Text}

theorem replaceTokens_outside {c : Char} (hc : isOutside c = true) (r : Text) :
    replaceTokens f (c :: r) = c :: replaceTokens f r :=
  replaceTokens_append hc [] r

/-- Replacing ids in the text of a value replaces them in its strings. -/
def ReplacesText (f : Text → Text) (j : Json) : Prop :=
  ∀ (c : Char) (r : Text), isOutside c = true → replaceTokens f (j.text ++ c :: r) =
    (j.mapStrings (replaceTokens f)).text ++ c :: replaceTokens f r

theorem partsMap_isEmpty (isObject : Bool) (ps : List (Part Json)) :
    (partsMap f isObject ps).isEmpty = ps.isEmpty := by
  cases ps <;> rfl

theorem replaceTokens_head {isObject : Bool} {key colon : Text}
    (h : if isObject then closed key = true ∧ colon = [':', ' '] else key = [] ∧ colon = [])
    (r : Text) : replaceTokens f (head isObject key colon ++ r) =
      head isObject (if isObject then replaceTokens f key else key) colon ++ replaceTokens f r := by
  cases isObject with
  | false => rfl
  | true =>
    obtain ⟨-, rfl⟩ := h
    simp only [head, if_true, List.cons_append, List.append_assoc, List.nil_append]
    rw [replaceTokens_outside (by decide), replaceTokens_append (by decide),
      replaceTokens_outside (by decide), replaceTokens_outside (by decide)]

theorem replaceTokens_partsText {isObject : Bool} {sep : Text} (hsep : sep = [','] ∨ sep = [',', ' ']) :
    ∀ {ps : List (Part Json)}, (∀ p ∈ ps, p.value.Styled → ReplacesText f p.value) →
      partsStyled isObject sep ps → ∀ (c : Char) (r : Text), isOutside c = true →
        replaceTokens f (partsText isObject ps ++ c :: r) =
          partsText isObject (partsMap (replaceTokens f) isObject ps) ++ c :: replaceTokens f r
  | [], _, _, c, r, hc => replaceTokens_outside hc r
  | ⟨key, colon, v, s⟩ :: ps, ih, ⟨hkey, hv, hs, hps⟩, c, r, hc => by
    have hvalue : ReplacesText f v := ih _ List.mem_cons_self hv
    have hrest := replaceTokens_partsText hsep (fun p hp => ih p (List.mem_cons_of_mem _ hp)) hps c r hc
    simp only [partsText, partsMap, List.append_assoc]
    rw [replaceTokens_head hkey]
    cases ps with
    | nil =>
      obtain rfl : s = [] := hs
      rw [List.nil_append, partsText, List.nil_append, hvalue c r hc]
      rfl
    | cons p ps =>
      obtain rfl : s = sep := hs
      rcases hsep with rfl | rfl
      · rw [List.cons_append, List.nil_append, hvalue _ _ (by decide), hrest]
        rfl
      · rw [List.cons_append, List.cons_append, List.nil_append, hvalue _ _ (by decide),
          replaceTokens_outside (by decide), hrest]
        rfl

theorem replaceTokens_text (j : Json) (hj : j.Styled) : ReplacesText f j := by
  induction j using Json.induction with
  | str raw =>
    intro c r hc
    simp only [Json.mapStrings, Json.text, List.cons_append, List.append_assoc, List.nil_append]
    rw [replaceTokens_outside (by decide), replaceTokens_append (by decide), replaceTokens_outside hc]
  | lit raw =>
    intro c r hc
    have := hj.2.2
    rw [Json.mapStrings, Json.text, replaceTokens_append hc, replaceTokens_dashes (by omega)]
  | node isObject lead parts tail ih =>
    intro c r hc
    obtain ⟨rfl, rfl, sep, hsep, -, hparts⟩ := hj
    have hopen : isOutside (opening isObject) = true := by cases isObject <;> decide
    have hclose : isOutside (closing isObject) = true := by cases isObject <;> decide
    simp only [Json.mapStrings, Json.text, List.cons_append, List.append_assoc, List.nil_append,
      List.append_nil]
    rw [replaceTokens_outside hopen, replaceTokens_partsText hsep ih hparts _ _ hclose,
      replaceTokens_outside hc]

theorem mapStrings_styled {f : Text → Text} (hf : ∀ s, closed s = true → closed (f s) = true)
    (j : Json) (hj : j.Styled) : (j.mapStrings f).Styled := by
  induction j using Json.induction with
  | str raw => exact hf raw hj
  | lit raw => exact hj
  | node isObject lead parts tail ih =>
    obtain ⟨rfl, rfl, sep, hsep, hobj, hparts⟩ := hj
    refine ⟨rfl, rfl, sep, hsep, hobj, ?_⟩
    clear hsep hobj
    induction parts with
    | nil => trivial
    | cons p ps ihps =>
      obtain ⟨key, colon, v, s⟩ := p
      obtain ⟨hkey, hv, hs, hps⟩ := hparts
      refine ⟨?_, ih _ List.mem_cons_self hv, ?_,
        ihps (fun q hq => ih q (List.mem_cons_of_mem _ hq)) hps⟩
      · cases isObject with
        | false => exact hkey
        | true => exact ⟨hf key hkey.1, hkey.2⟩
      · rw [partsMap_isEmpty]
        exact hs

theorem closed_replaceTokens (hf : ∀ tok, isUuid tok = true → isUuid (f tok) = true) (s : Text)
    (h : closed s = true) : closed (replaceTokens f s) = true := by
  rw [← closed_alike (replaceTokens_alike hf s)]
  exact h

/-! ## Tokens of a value's text -/

theorem tokens_outside {c : Char} (hc : isOutside c = true) (r : Text) : tokens (c :: r) = tokens r :=
  tokens_append hc [] r

def TokensText (j : Json) : Prop :=
  ∀ (c : Char) (r : Text), isOutside c = true →
    tokens (j.text ++ c :: r) = j.strings.flatMap tokens ++ tokens r

theorem tokens_head {isObject : Bool} {key colon : Text}
    (h : if isObject then closed key = true ∧ colon = [':', ' '] else key = [] ∧ colon = [])
    (r : Text) : tokens (head isObject key colon ++ r) =
      (if isObject then [key] else []).flatMap tokens ++ tokens r := by
  cases isObject with
  | false => rfl
  | true =>
    obtain ⟨-, rfl⟩ := h
    simp only [head, if_true, List.cons_append, List.append_assoc, List.nil_append,
      List.flatMap_cons, List.flatMap_nil, List.append_nil]
    rw [tokens_outside (by decide), tokens_append (by decide), tokens_outside (by decide),
      tokens_outside (by decide)]

theorem tokens_partsText {isObject : Bool} {sep : Text} (hsep : sep = [','] ∨ sep = [',', ' ']) :
    ∀ {ps : List (Part Json)}, (∀ p ∈ ps, p.value.Styled → TokensText p.value) →
      partsStyled isObject sep ps → ∀ (c : Char) (r : Text), isOutside c = true →
        tokens (partsText isObject ps ++ c :: r) =
          (partsStrings isObject ps).flatMap tokens ++ tokens r
  | [], _, _, c, r, hc => tokens_outside hc r
  | ⟨key, colon, v, s⟩ :: ps, ih, ⟨hkey, hv, hs, hps⟩, c, r, hc => by
    have hvalue : TokensText v := ih _ List.mem_cons_self hv
    have hrest := tokens_partsText hsep (fun p hp => ih p (List.mem_cons_of_mem _ hp)) hps c r hc
    simp only [partsText, partsStrings, List.append_assoc, List.flatMap_append]
    rw [tokens_head hkey]
    cases ps with
    | nil =>
      obtain rfl : s = [] := hs
      rw [List.nil_append, partsText, List.nil_append, hvalue c r hc]
      rfl
    | cons p ps =>
      obtain rfl : s = sep := hs
      rcases hsep with rfl | rfl
      · rw [List.cons_append, List.nil_append, hvalue _ _ (by decide), hrest]
      · rw [List.cons_append, List.cons_append, List.nil_append, hvalue _ _ (by decide),
          tokens_outside (by decide), hrest]

theorem tokens_text (j : Json) (hj : j.Styled) : TokensText j := by
  induction j using Json.induction with
  | str raw =>
    intro c r hc
    simp only [Json.text, Json.strings, List.cons_append, List.append_assoc, List.nil_append,
      List.flatMap_cons, List.flatMap_nil, List.append_nil]
    rw [tokens_outside (by decide), tokens_append (by decide), tokens_outside hc]
  | lit raw =>
    intro c r hc
    have := hj.2.2
    rw [Json.text, tokens_append hc, tokens_dashes (by omega)]
    rfl
  | node isObject lead parts tail ih =>
    intro c r hc
    obtain ⟨rfl, rfl, sep, hsep, -, hparts⟩ := hj
    have hopen : isOutside (opening isObject) = true := by cases isObject <;> decide
    have hclose : isOutside (closing isObject) = true := by cases isObject <;> decide
    simp only [Json.text, Json.strings, List.cons_append, List.append_assoc, List.nil_append,
      List.append_nil]
    rw [tokens_outside hopen, tokens_partsText hsep ih hparts _ _ hclose, tokens_outside hc]

end Remap

end MyBooks
