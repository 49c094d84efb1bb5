import Mathlib.Data.List.TakeWhile
import MyBooks.Remap

/-!
# Reordering the keys of a JSON text

On every JSON text the reordering gives the text of the sorted tree (`reorderJsonKeys_text`), so it
keeps what the text means and every string and literal in it, and a second time changes nothing.
-/

namespace MyBooks

namespace Remap

/-! ## Scanning -/

theorem scanString_closed {raw : Text} (h : closed raw = true) (rest : Text) :
    scanString (raw ++ '"' :: rest) = (raw ++ ['"'], rest) := by
  fun_induction closed raw with
  | case1 => rfl
  | case2 c r ih =>
    rw [List.cons_append, List.cons_append, scanString, ih h]
    rfl
  | case3 c r hne ih =>
    simp only [Bool.and_eq_true, decide_eq_true_eq] at h
    obtain ⟨⟨hc, hq⟩, hr⟩ := h
    rw [List.cons_append, scanString.eq_4 _ _ _ _, if_neg hq, ih hr]
    · rfl
    · rintro rfl
      exact absurd rfl hc
    · rintro c' r' rfl
      exact absurd rfl hc

theorem takeWhile_ws {a : Text} (ha : a.all isWs = true) {c : Char} (hc : isWs c = false)
    (r : Text) : (a ++ c :: r).takeWhile isWs = a ∧ (a ++ c :: r).dropWhile isWs = c :: r := by
  rw [List.all_eq_true] at ha
  rw [List.takeWhile_append_of_pos ha, List.dropWhile_append_of_pos ha,
    List.takeWhile_cons_of_neg (by rw [hc]; decide), List.dropWhile_cons_of_neg (by rw [hc]; decide),
    List.append_nil]
  exact ⟨rfl, rfl⟩

theorem dropWhile_ws {a : Text} (ha : a.all isWs = true) : a.dropWhile isWs = [] :=
  List.dropWhile_eq_nil_iff.mpr (List.all_eq_true.mp ha)

theorem isWs_closing (isObject : Bool) : isWs (closing isObject) = false := by
  cases isObject <;> rfl

theorem literal_char {c : Char} (h : isLiteralChar c = true) :
    isWs c = false ∧ c ≠ '"' ∧ c ≠ ',' ∧ c ≠ '{' ∧ c ≠ '[' ∧ c ≠ '}' ∧ c ≠ ']' := by
  have hne : ∀ d : Char, isLiteralChar d = false → c ≠ d := by
    rintro d hd rfl
    rw [h] at hd
    cases hd
  refine ⟨?_, hne _ (by decide), hne _ (by decide), hne _ (by decide), hne _ (by decide),
    hne _ (by decide), hne _ (by decide)⟩
  simp only [isWs, Bool.or_eq_false_iff, decide_eq_false_iff_not]
  exact ⟨⟨⟨hne _ (by decide), hne _ (by decide)⟩, hne _ (by decide)⟩, hne _ (by decide)⟩

/-- A value starts with a character that is no blank, comma or closing bracket. -/
theorem Json.text_cons {j : Json} (h : j.Wf) : ∃ c r, j.text = c :: r ∧ isWs c = false ∧ c ≠ ','
    ∧ c ≠ '}' ∧ c ≠ ']' := by
  cases j with
  | str raw => exact ⟨'"', raw ++ ['"'], rfl, by decide, by decide, by decide, by decide⟩
  | lit raw =>
    obtain ⟨hne, hall⟩ := h
    cases raw with
    | nil => exact absurd rfl hne
    | cons c r =>
      rw [List.all_cons, Bool.and_eq_true] at hall
      obtain ⟨hws, -, hcomma, -, -, hclose, hclose'⟩ := literal_char hall.1
      exact ⟨c, r, rfl, hws, hcomma, hclose, hclose'⟩
  | node isObject lead parts tail =>
    exact ⟨opening isObject, _, rfl, by cases isObject <;> rfl, by cases isObject <;> decide,
      by cases isObject <;> decide, by cases isObject <;> decide⟩

/-- A text that a literal before it does not run into. -/
def Stops (rest : Text) : Prop :=
  ∀ c ∈ rest.head?, isWs c = true ∨ c = ',' ∨ c = '}' ∨ c = ']'

theorem stops_ws {a : Text} (ha : a.all isWs = true) {c : Char} (hc : c = ',' ∨ c = '}' ∨ c = ']')
    (r : Text) : Stops (a ++ c :: r) := by
  intro d hd
  cases a with
  | nil =>
    cases hd
    exact .inr hc
  | cons b a =>
    cases hd
    rw [List.all_cons, Bool.and_eq_true] at ha
    exact .inl ha.1

theorem takeWhile_literal {raw rest : Text} (hall : raw.all isLiteralChar = true)
    (hrest : Stops rest) :
    (raw ++ rest).takeWhile (fun c => !isWs c && c ≠ ',' && c ≠ '}' && c ≠ ']') = raw
      ∧ (raw ++ rest).dropWhile (fun c => !isWs c && c ≠ ',' && c ≠ '}' && c ≠ ']') = rest := by
  have hraw : ∀ c ∈ raw, (!isWs c && c ≠ ',' && c ≠ '}' && c ≠ ']') = true := by
    intro c hc
    obtain ⟨hws, -, hcomma, -, -, hclose, hclose'⟩ := literal_char (List.all_eq_true.mp hall c hc)
    simp only [hws, hcomma, hclose, hclose', Bool.not_false, ne_eq, not_false_eq_true, decide_true,
      Bool.and_self]
  rw [List.takeWhile_append_of_pos hraw, List.dropWhile_append_of_pos hraw]
  cases rest with
  | nil => exact ⟨List.append_nil raw, rfl⟩
  | cons c r =>
    have hc : (!isWs c && c ≠ ',' && c ≠ '}' && c ≠ ']') = false := by
      rcases hrest c rfl with h | rfl | rfl | rfl
      · simp only [h, Bool.not_true, Bool.false_and]
      · rfl
      · rfl
      · rfl
    rw [List.takeWhile_cons_of_neg (by rw [hc]; decide), List.dropWhile_cons_of_neg (by rw [hc]; decide),
      List.append_nil]
    exact ⟨rfl, rfl⟩

theorem scanKey_text {isObject : Bool} {key colon : Text} (h : KeyWf isObject key colon)
    {rest : Text} (hrest : ∃ c r, rest = c :: r ∧ isWs c = false) :
    scanKey isObject (head isObject key colon ++ rest) =
      if !isObject || (unescape key).isSome then
        some (if isObject then (unescape key).getD [] else [], head isObject key colon, rest)
      else none := by
  cases isObject with
  | false => rfl
  | true =>
    obtain ⟨hkey, a, b, ha, hb, rfl⟩ := h
    obtain ⟨c, r, rfl, hc⟩ := hrest
    have hscan := scanString_closed hkey (a ++ ':' :: (b ++ c :: r))
    have hcolon := takeWhile_ws ha (c := ':') rfl (b ++ c :: r)
    have hbehind := takeWhile_ws hb hc r
    simp only [head, if_true, scanKey, List.cons_append, List.append_assoc] at hscan ⊢
    rw [hscan]
    simp only [List.getLast?_concat, if_true, List.dropLast_concat, hcolon.1, hcolon.2]
    cases unescape key with
    | none => rfl
    | some k =>
      simp only [hbehind.1, hbehind.2, List.append_assoc, List.cons_append, List.nil_append]
      rfl

/-! ## The reordering of a tree's text -/

def pieceOf (isObject : Bool) (p : Part Json) : Piece :=
  ⟨if isObject then (unescape p.key).getD [] else [], head isObject p.key p.colon ++ p.value.text,
    p.sep⟩

theorem partsText_eq (isObject : Bool) (ps : List (Part Json)) :
    partsText isObject ps = ps.flatMap fun p => (pieceOf isObject p).out ++ p.sep := by
  induction ps with
  | nil => rfl
  | cons p ps ih =>
    rw [partsText, ih, List.flatMap_cons]
    simp only [pieceOf, List.append_assoc]

theorem intercalate_respace (sep : Text) : ∀ ps : List (Part Json),
    sep.intercalate (ps.map fun p => (pieceOf true p).out) = partsText true (respace sep ps)
  | [] => rfl
  | [p] => by
    rw [partsText_eq]
    simp [respace, List.intercalate, pieceOf]
  | p :: q :: ps => by
    have ih := intercalate_respace sep (q :: ps)
    rw [List.map_cons] at ih
    rw [List.map_cons, List.map_cons, respace, partsText, ← ih]
    simp [List.intercalate, pieceOf]

theorem compareJsonbKeys_isLE (a b : List ℕ) :
    (compareJsonbKeys a b).isLE = true ↔ unitRank a ≤ unitRank b := by
  rw [compareJsonbKeys, ← Ordering.ne_gt_iff_isLE, cmp_eq_gt_iff, not_lt]

/-- Joined in the source's way the pieces are the text of the ordered members. -/
theorem joinPieces_text (isObject : Bool) (ps : List (Part Json)) :
    joinPieces isObject (ps.map (pieceOf isObject)) = partsText isObject (ordered isObject ps) := by
  cases isObject with
  | false =>
    rw [partsText_eq]
    exact List.flatMap_map _ _ ps
  | true =>
    have hsep : firstSep (ps.map (pieceOf true)) = sepOf ps := by cases ps <;> rfl
    have hsort : (ps.map (pieceOf true)).insertionSort
          (fun a b => (compareJsonbKeys a.key b.key).isLE = true) =
        (sortParts ps).map (pieceOf true) := by
      refine (List.map_insertionSort _ _ _ _ fun p _ q _ => ?_).symm
      exact (compareJsonbKeys_isLE _ _).symm
    simp only [joinPieces, if_true, hsep, hsort, List.map_map, ordered]
    exact intercalate_respace _ _

theorem partsText_cons {isObject : Bool} {p : Part Json} {ps : List (Part Json)}
    (h : partsWf isObject (p :: ps)) :
    ∃ c r, partsText isObject (p :: ps) = c :: r ∧ isWs c = false ∧ c ≠ closing isObject := by
  obtain ⟨hkey, hv, -⟩ := h
  cases isObject with
  | true => exact ⟨'"', _, rfl, by decide, by decide⟩
  | false =>
    obtain ⟨c, r, hc, hws, -, -, hne⟩ := Json.text_cons hv
    rw [partsText, hc]
    exact ⟨c, _, rfl, hws, hne⟩

/-- What `value` gives for a tree's text. -/
def ValueText (j : Json) : Prop :=
  ∀ (calls : ℕ) (rest : Text), j.size ≤ calls → Stops rest →
    value calls (j.text ++ rest) = if j.keysOk then some (j.sorted.text, rest) else none

theorem pieces_text {isObject : Bool} {tail : Text} (htail : tail.all isWs = true) (rest : Text) :
    ∀ {ps : List (Part Json)} (calls : ℕ), ps ≠ [] → (∀ p ∈ ps, p.value.Wf → ValueText p.value) →
      partsWf isObject ps → partsSize ps ≤ calls →
      pieces calls isObject (partsText isObject ps ++ (tail ++ closing isObject :: rest)) =
        if partsKeysOk isObject ps then
          some ((partsSorted ps).map (pieceOf isObject), tail, rest)
        else none
  | [], _, hne, _, _, _ => absurd rfl hne
  | _ :: _, 0, _, _, _, hsize => absurd hsize (by rw [partsSize]; omega)
  | ⟨key, colon, v, sep⟩ :: ps, calls + 1, _, ih, hwf, hsize => by
    obtain ⟨hkey, hv, hsep, hps⟩ := hwf
    rw [partsSize] at hsize
    have hscan := fun t => @scanKey_text isObject key colon hkey (v.text ++ t) (by
      obtain ⟨c, r, hc, hws, -⟩ := Json.text_cons hv
      exact ⟨c, r ++ t, by rw [hc]; rfl, hws⟩)
    have hvalue : ∀ rest, Stops rest → value calls (v.text ++ rest) =
        if v.keysOk then some (v.sorted.text, rest) else none := fun rest =>
      ih _ List.mem_cons_self hv calls rest (by omega : v.size ≤ calls)
    rw [partsText, pieces]
    simp only [List.append_assoc]
    rw [hscan, partsKeysOk, partsSorted, List.map_cons]
    cases hok : (!isObject || (unescape key).isSome) with
    | false => rfl
    | true =>
      simp only [if_true, Bool.true_and]
      cases ps with
      | nil =>
        obtain rfl : sep = [] := hsep
        rw [partsText, List.nil_append, List.nil_append,
          hvalue _ (stops_ws htail (by cases isObject <;> simp [closing]) rest)]
        cases hv : v.keysOk with
        | false => rfl
        | true =>
          have hws := takeWhile_ws htail (isWs_closing isObject) rest
          simp only [if_true, hws.1, hws.2, partsKeysOk, Bool.and_self]
          rw [if_neg (by cases isObject <;> decide)]
          rfl
      | cons q qs =>
        obtain ⟨a, b, ha, hb, rfl⟩ : Around ',' sep := hsep
        have htext : ∃ c r, partsText isObject (q :: qs) ++ (tail ++ closing isObject :: rest) = c :: r
            ∧ isWs c = false := by
          obtain ⟨c, r, hc, hws, -⟩ := partsText_cons hps
          exact ⟨c, _, by rw [hc]; rfl, hws⟩
        have hnext := pieces_text htail rest calls (List.cons_ne_nil q qs)
          (fun p hp => ih p (List.mem_cons_of_mem _ hp)) hps (by omega)
        obtain ⟨c, r, hc, hws⟩ := htext
        simp only [List.append_assoc, List.cons_append, hc]
        rw [hvalue _ (stops_ws ha (.inl rfl) _)]
        cases hok' : v.keysOk with
        | false => rfl
        | true =>
          have hcomma := takeWhile_ws ha (c := ',') rfl (b ++ c :: r)
          have hbehind := takeWhile_ws hb hws r
          rw [hc] at hnext
          simp only [if_true, hcomma.1, hcomma.2, hbehind.1, hbehind.2, hnext, Bool.true_and]
          cases partsKeysOk isObject (q :: qs) <;> rfl

theorem value_text (j : Json) (hj : j.Wf) : ValueText j := by
  induction j using Json.induction with
  | str raw =>
    intro calls rest hcalls _
    obtain ⟨calls, rfl⟩ := Nat.exists_eq_succ_of_ne_zero (Nat.one_le_iff_ne_zero.mp hcalls)
    have htext : (Json.str raw).text ++ rest = '"' :: (raw ++ '"' :: rest) := by
      simp only [Json.text, List.append_assoc, List.cons_append, List.nil_append]
    rw [htext, value, if_pos rfl]
    simp only [scanString_closed hj rest, List.getLast?_concat, if_true]
    rfl
  | lit raw =>
    intro calls rest hcalls hrest
    obtain ⟨calls, rfl⟩ := Nat.exists_eq_succ_of_ne_zero (Nat.one_le_iff_ne_zero.mp hcalls)
    obtain ⟨hne, hall⟩ := hj
    have hspan := takeWhile_literal hall hrest
    cases raw with
    | nil => exact absurd rfl hne
    | cons c r =>
      rw [List.all_cons, Bool.and_eq_true] at hall
      obtain ⟨-, hq, -, hb, hb', -⟩ := literal_char hall.1
      rw [Json.text, List.cons_append, value, if_neg hq, if_neg (by rintro (h | h); exacts [hb h, hb' h])]
      rw [List.cons_append] at hspan
      simp only [hspan.1, hspan.2]
      rw [if_neg (List.cons_ne_nil c r)]
      rfl
  | node isObject lead parts tail ih =>
    intro calls rest hcalls _
    obtain ⟨hlead, htail, hnil, hparts⟩ := hj
    rw [Json.size] at hcalls
    obtain ⟨calls, rfl⟩ := Nat.exists_eq_succ_of_ne_zero (by omega : calls ≠ 0)
    have hopen : (decide (opening isObject = '{')) = isObject := by cases isObject <;> rfl
    have htext : (Json.node isObject lead parts tail).text ++ rest =
        opening isObject ::
          (lead ++ (partsText isObject parts ++ (tail ++ closing isObject :: rest))) := by
      simp only [Json.text, List.append_assoc, List.cons_append, List.nil_append]
    rw [htext, value, if_neg (by cases isObject <;> decide), if_pos (by cases isObject <;> decide)]
    simp only [hopen]
    rw [Json.keysOk, Json.sorted, Json.text]
    cases parts with
    | nil =>
      obtain rfl := hnil rfl
      have hws := takeWhile_ws hlead (isWs_closing isObject) rest
      simp only [partsText, List.nil_append, hws.1, hws.2, List.head?_cons, if_true, List.tail_cons,
        partsKeysOk, List.append_nil]
      cases isObject <;> simp only [partsSorted, ordered, sortParts, List.insertionSort_nil, respace,
        partsText, List.append_nil, if_true, Bool.false_eq_true, if_false]
    | cons p ps =>
      obtain ⟨c, r, hc, hws, hne⟩ := partsText_cons hparts
      have hspan := takeWhile_ws hlead hws (r ++ (tail ++ closing isObject :: rest))
      have hpieces := pieces_text htail rest calls (List.cons_ne_nil p ps) ih hparts (by omega)
      rw [hc, List.cons_append] at hpieces
      simp only [hc, List.cons_append, hspan.1, hspan.2, List.head?_cons, Option.some.injEq, hne,
        if_false, hpieces]
      cases partsKeysOk isObject (p :: ps) with
      | false => rfl
      | true =>
        simp only [if_true, joinPieces_text, List.append_assoc]

/-! ## Whole texts -/

theorem partsSize_le {isObject : Bool} : ∀ {ps : List (Part Json)},
    (∀ p ∈ ps, p.value.Wf → p.value.size ≤ 2 * p.value.text.length) → partsWf isObject ps →
      partsSize ps ≤ 2 * (partsText isObject ps).length + 1
  | [], _, _ => Nat.zero_le _
  | ⟨key, colon, v, sep⟩ :: ps, ih, ⟨_, hv, hsep, hps⟩ => by
    have hsize : v.size ≤ 2 * v.text.length := ih _ List.mem_cons_self hv
    have hrest := partsSize_le (fun p hp => ih p (List.mem_cons_of_mem _ hp)) hps
    simp only [partsSize, partsText, List.length_append]
    cases ps with
    | nil =>
      simp only [partsSize]
      omega
    | cons q qs =>
      obtain ⟨a, b, -, -, rfl⟩ : Around ',' sep := hsep
      simp only [List.length_append, List.length_cons]
      omega

theorem Json.size_le (j : Json) (hj : j.Wf) : j.size ≤ 2 * j.text.length := by
  induction j using Json.induction with
  | str raw =>
    simp only [Json.size, Json.text, List.length_append, List.length_cons]
    omega
  | lit raw =>
    have := List.length_pos_iff.mpr hj.1
    simp only [Json.size, Json.text]
    omega
  | node isObject lead parts tail ih =>
    have hparts := partsSize_le ih hj.2.2.2
    simp only [Json.size, Json.text, List.length_append, List.length_cons, List.length_nil]
    omega

/-- A JSON text, blanks around it, becomes the text of the sorted tree; it is refused exactly where
a key is no string. -/
theorem reorderJsonKeys_eq {j : Json} (hj : j.Wf) {a b : Text} (ha : a.all isWs = true)
    (hb : b.all isWs = true) : reorderJsonKeys (a ++ (j.text ++ b)) =
      if j.keysOk then some (a ++ (j.sorted.text ++ b)) else none := by
  obtain ⟨c, r, hc, hws, -⟩ := Json.text_cons hj
  have hspan := takeWhile_ws ha hws (r ++ b)
  have hstops : Stops b := by
    intro d hd
    rw [List.all_eq_true] at hb
    exact .inl (hb d (List.mem_of_mem_head? hd))
  have hsize : j.size ≤ 2 * (a ++ (j.text ++ b)).length + 2 := by
    have := Json.size_le j hj
    simp only [List.length_append]
    omega
  have hvalue := value_text j hj _ b hsize hstops
  rw [hc, List.cons_append] at hvalue hsize
  unfold reorderJsonKeys
  rw [hc, List.cons_append, hspan.1, hspan.2, hvalue]
  cases j.keysOk with
  | false => rfl
  | true => simp only [if_true, dropWhile_ws hb, List.append_assoc]

/-! ## The sorted tree is a JSON text again -/

theorem partsWf_mem {isObject : Bool} : ∀ {ps : List (Part Json)}, partsWf isObject ps →
    ∀ p ∈ ps, KeyWf isObject p.key p.colon ∧ p.value.Wf
  | [], _, _, hp => absurd hp List.not_mem_nil
  | _ :: _, ⟨hkey, hv, _, hps⟩, q, hq => by
    rcases List.mem_cons.mp hq with rfl | hq
    · exact ⟨hkey, hv⟩
    · exact partsWf_mem hps q hq

theorem partsWf_respace {isObject : Bool} {sep : Text} (hsep : Around ',' sep) :
    ∀ {ps : List (Part Json)}, (∀ p ∈ ps, KeyWf isObject p.key p.colon ∧ p.value.Wf) →
      partsWf isObject (respace sep ps)
  | [], _ => trivial
  | [p], h => ⟨(h p List.mem_cons_self).1, (h p List.mem_cons_self).2, rfl, trivial⟩
  | p :: q :: ps, h => by
    have hnext := partsWf_respace hsep fun r hr => h r (List.mem_cons_of_mem p hr)
    refine ⟨(h p List.mem_cons_self).1, (h p List.mem_cons_self).2, ?_, hnext⟩
    cases ps <;> exact hsep

theorem around_sepOf {isObject : Bool} {ps : List (Part Json)} (h : partsWf isObject ps) :
    Around ',' (sepOf ps) := by
  have hplain : Around ',' [',', ' '] := ⟨[], [' '], rfl, rfl, rfl⟩
  unfold sepOf
  split
  · exact hplain
  · rename_i p ps
    split_ifs with hnil
    · exact hplain
    · obtain ⟨-, -, hsep, -⟩ := h
      cases ps with
      | nil => exact absurd hsep hnil
      | cons q qs => exact hsep

theorem partsWf_map {isObject : Bool} {f : Json → Json} : ∀ {ps : List (Part Json)},
    (∀ p ∈ ps, (f p.value).Wf) → partsWf isObject ps →
      partsWf isObject (ps.map fun p => { p with value := f p.value })
  | [], _, _ => trivial
  | p :: ps, hf, ⟨hkey, _, hsep, hps⟩ => by
    refine ⟨hkey, hf p List.mem_cons_self, ?_,
      partsWf_map (fun q hq => hf q (List.mem_cons_of_mem p hq)) hps⟩
    rw [List.isEmpty_map]
    exact hsep

theorem Json.sorted_wf (j : Json) (hj : j.Wf) : j.sorted.Wf := by
  induction j using Json.induction with
  | str raw => exact hj
  | lit raw => exact hj
  | node isObject lead parts tail ih =>
    obtain ⟨hlead, htail, hnil, hparts⟩ := hj
    have hmap : partsWf isObject (partsSorted parts) := by
      rw [partsSorted_eq]
      exact partsWf_map (fun p hp => ih p hp (partsWf_mem hparts p hp).2) hparts
    refine ⟨hlead, htail, fun h => hnil ?_, ?_⟩
    · cases parts with
      | nil => rfl
      | cons p ps =>
        have hlen := congrArg List.length h
        cases isObject <;>
          simp [ordered, partsSorted, respace_length, sortParts, List.orderedInsert_length] at hlen
    · unfold ordered
      split_ifs with ho
      · refine partsWf_respace (around_sepOf hmap) fun p hp => ?_
        exact partsWf_mem hmap p ((List.perm_insertionSort _ _).mem_iff.mp hp)
      · exact hmap

end Remap

end MyBooks
