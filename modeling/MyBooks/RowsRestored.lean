import Mathlib.Data.List.Pairwise
import MyBooks.EscapesKept
import MyBooks.RowFields

/-!
# Rows mapped there and back

A row line comes back from the import as it was exported exactly when every id of the map that
stands in it is in lower case and every string is still as PostgreSQL prints it once its ids are
replaced (`restored_iff`). Either failure makes the restored line lighter than the exported one.
-/

namespace MyBooks

namespace Remap

/-! ## The text of a row -/

section Line

variable {f : Text → Text}

def mapColumn (f : Text → Text) (c : Column) : Column := { c with value := c.value.mapStrings f }

/-- A column of a row line, or of one whose ids were replaced. -/
structure Column.Styled (c : Column) : Prop where
  name : c.name.all isNameChar = true
  value : c.value.Styled

theorem Column.Styled.wf {c : Column} (h : c.Styled) : c.Wf := ⟨h.name, Json.styled_wf _ h.value⟩

theorem count_dash_name {name : Text} (h : name.all isNameChar = true) : name.count '-' = 0 :=
  List.count_eq_zero.mpr fun hd => (nameChar (List.all_eq_true.mp h _ hd)).2.2.2.1 rfl

theorem replaceTokens_field {c : Column} (hc : c.Styled) {d : Char} (hd : isOutside d = true)
    (r : Text) : replaceTokens f (fieldText c ++ d :: r) =
      fieldText (mapColumn (replaceTokens f) c) ++ d :: replaceTokens f r := by
  have hname : replaceTokens f c.name = c.name :=
    replaceTokens_dashes (by rw [count_dash_name hc.name]; decide)
  simp only [fieldText, mapColumn, List.cons_append, List.append_assoc]
  rw [replaceTokens_outside (by decide), replaceTokens_append (by decide),
    replaceTokens_outside (by decide), hname, replaceTokens_text c.value hc.value d r hd]

theorem replaceTokens_fields : ∀ {cs : List Column}, (∀ c ∈ cs, c.Styled) →
    replaceTokens f (fieldsText cs ++ ['}']) =
      fieldsText (cs.map (mapColumn (replaceTokens f))) ++ ['}']
  | [], _ => replaceTokens_outside (by decide) []
  | [c], h => replaceTokens_field (h c List.mem_cons_self) (by decide) []
  | c :: d :: cs, h => by
    have hrest := replaceTokens_fields fun e he => h e (List.mem_cons_of_mem c he)
    rw [fieldsText, List.append_assoc, List.cons_append,
      replaceTokens_field (h c List.mem_cons_self) (by decide), hrest]
    simp only [List.map_cons, fieldsText, List.append_assoc, List.cons_append]

/-- Ids replaced in a row line are replaced in the strings of its values. -/
theorem replaceTokens_row {cs : List Column} (h : ∀ c ∈ cs, c.Styled) :
    replaceTokens f (rowLine cs) = rowLine (cs.map (mapColumn (replaceTokens f))) := by
  rw [rowLine, List.cons_append, replaceTokens_outside (by decide), replaceTokens_fields h]
  rfl

theorem tokens_field {c : Column} (hc : c.Styled) {d : Char} (hd : isOutside d = true) (r : Text) :
    tokens (fieldText c ++ d :: r) = c.value.strings.flatMap tokens ++ tokens r := by
  have hname : tokens c.name = [] := tokens_dashes (by rw [count_dash_name hc.name]; decide)
  simp only [fieldText, List.cons_append, List.append_assoc]
  rw [tokens_outside (by decide), tokens_append (by decide), tokens_outside (by decide), hname,
    tokens_text c.value hc.value d r hd, List.nil_append]

theorem tokens_fields : ∀ {cs : List Column}, (∀ c ∈ cs, c.Styled) →
    tokens (fieldsText cs ++ ['}']) = cs.flatMap fun c => c.value.strings.flatMap tokens
  | [], _ => rfl
  | [c], h => by
    rw [fieldsText, tokens_field (h c List.mem_cons_self) (by decide), List.flatMap_cons]
    rfl
  | c :: d :: cs, h => by
    rw [fieldsText, List.append_assoc, List.cons_append,
      tokens_field (h c List.mem_cons_self) (by decide),
      tokens_fields fun e he => h e (List.mem_cons_of_mem c he), List.flatMap_cons (x := c)]

theorem mem_tokens_row {cs : List Column} (h : ∀ c ∈ cs, c.Styled) {c : Column} (hc : c ∈ cs)
    {raw : Text} (hraw : raw ∈ c.value.strings) : tokens raw ⊆ tokens (rowLine cs) := by
  intro tok htok
  rw [rowLine, List.cons_append, tokens_outside (by decide), tokens_fields h]
  exact List.mem_flatMap.mpr ⟨c, hc, List.mem_flatMap.mpr ⟨raw, hraw, htok⟩⟩

/-- What the fields weigh without what is the same in every row of these columns. -/
def fieldWeight (c : Column) : ℕ := weight c.name + weight c.value.text

theorem weight_field (c : Column) : weight (fieldText c) = fieldWeight c + 3 := by
  have hquote : weight ['"'] = 1 := rfl
  have hcolon : weight [':'] = 1 := rfl
  have hfield : fieldText c = ['"'] ++ c.name ++ ['"'] ++ [':'] ++ c.value.text := by
    simp only [fieldText, List.append_assoc, List.cons_append, List.nil_append]
  rw [hfield, weight_append, weight_append, weight_append, weight_append, hquote, hcolon, fieldWeight]
  omega

theorem weight_fields : ∀ cs : List Column, weight (fieldsText cs) =
    (cs.map fieldWeight).sum + 3 * cs.length + (cs.length - 1)
  | [] => rfl
  | [c] => weight_field c
  | c :: d :: cs => by
    have hrest := weight_fields (d :: cs)
    have hcomma : weight [','] = 1 := rfl
    have hsum : ((c :: d :: cs).map fieldWeight).sum
        = fieldWeight c + ((d :: cs).map fieldWeight).sum := List.sum_cons
    rw [fieldsText, weight_append, weight_cons, hrest, weight_field, hcomma, hsum]
    simp only [List.length_cons]
    omega

theorem weight_row (cs : List Column) : weight (rowLine cs) =
    (cs.map fieldWeight).sum + 3 * cs.length + (cs.length - 1) + 2 := by
  have hopen : weight ['{'] = 1 := rfl
  have hclose : weight ['}'] = 1 := rfl
  rw [rowLine, weight_append, weight_cons, weight_fields, hopen, hclose]
  omega

end Line

/-! ## A value there and back -/

section Value

variable {f g : Text → Text}

theorem partsMap_eq (isObject : Bool) (ps : List (Part Json)) : partsMap f isObject ps =
    ps.map fun p =>
      { p with key := if isObject then f p.key else p.key, value := p.value.mapStrings f } := by
  induction ps with
  | nil => rfl
  | cons p ps ih => rw [partsMap, ih, List.map_cons]

theorem mem_partsStrings (isObject : Bool) : ∀ {ps : List (Part Json)} {p : Part Json}, p ∈ ps →
    (isObject = true → p.key ∈ partsStrings isObject ps)
      ∧ ∀ raw ∈ p.value.strings, raw ∈ partsStrings isObject ps
  | [], _, hp => absurd hp List.not_mem_nil
  | ⟨key, colon, v, s⟩ :: ps, p, hp => by
    simp only [partsStrings, List.mem_append]
    rcases List.mem_cons.mp hp with rfl | hp
    · refine ⟨fun ho => .inl (.inl ?_), fun raw hraw => .inl (.inr hraw)⟩
      rw [if_pos ho]
      exact List.mem_singleton_self _
    · obtain ⟨hkey, hraws⟩ := mem_partsStrings isObject hp
      exact ⟨fun ho => .inr (hkey ho), fun raw hraw => .inr (hraws raw hraw)⟩

theorem partsPrinted_mem {b isObject : Bool} : ∀ {ps : List (Part Json)}, partsPrinted b isObject ps →
    ∀ p ∈ ps, (isObject = true → reprint p.key = some p.key) ∧ p.value.Printed b
  | [], _, _, hp => absurd hp List.not_mem_nil
  | _ :: _, ⟨hkey, hv, hps⟩, q, hq => by
    rcases List.mem_cons.mp hq with rfl | hq
    · exact ⟨hkey, hv⟩
    · exact partsPrinted_mem hps q hq

theorem partsReread_id {isObject : Bool} : ∀ {ps : List (Part Json)},
    (∀ p ∈ ps, (isObject = true → reprint p.key = some p.key) ∧ p.value.reread = some p.value) →
      partsReread isObject ps = some ps
  | [], _ => rfl
  | ⟨key, colon, v, s⟩ :: ps, h => by
    obtain ⟨hkey, hv⟩ := h _ List.mem_cons_self
    have hrest := partsReread_id fun p hp => h p (List.mem_cons_of_mem _ hp)
    have hkey' : (if isObject then reprint key else some key) = some key := by
      split_ifs with ho
      · exact hkey ho
      · rfl
    simp only [] at hv
    rw [partsReread, hkey', hv, hrest]

/-- Strings that stay printed are read as they are. -/
theorem reread_mapStrings (j : Json) (h : ∀ raw ∈ j.strings, reprint (f raw) = some (f raw)) :
    (j.mapStrings f).reread = some (j.mapStrings f) := by
  induction j using Json.induction with
  | str raw =>
    rw [Json.mapStrings, Json.reread, h raw (List.mem_singleton_self _)]
    rfl
  | lit raw => rfl
  | node isObject lead parts tail ih =>
    rw [Json.mapStrings, Json.reread, partsMap_eq, partsReread_id]
    · rfl
    · intro q hq
      obtain ⟨p, hp, rfl⟩ := List.mem_map.mp hq
      obtain ⟨hkey, hraws⟩ := mem_partsStrings isObject hp
      refine ⟨fun ho => ?_, ih p hp fun raw hraw => h raw (hraws raw hraw)⟩
      simp only [ho, if_true]
      exact h p.key (hkey ho)

/-- Mapped one to one the keys of an object stay apart. -/
theorem deduped_mapStrings {b : Bool} (j : Json) (hp : j.Printed b)
    (h : ∀ raw ∈ j.strings, g (f raw) = raw) : (j.mapStrings f).deduped = j.mapStrings f := by
  induction j using Json.induction with
  | str raw => rfl
  | lit raw => rfl
  | node isObject lead parts tail ih =>
    obtain ⟨hkeys, hparts⟩ := hp
    have hvalues : partsDeduped (partsMap f isObject parts) = partsMap f isObject parts := by
      rw [partsDeduped_eq, partsMap_eq, List.map_map]
      refine List.map_congr_left fun p hp => ?_
      simp only [Function.comp_apply]
      rw [ih p hp (partsPrinted_mem hparts p hp).2 fun raw hraw =>
        h raw ((mem_partsStrings isObject hp).2 raw hraw)]
    rw [Json.mapStrings, Json.deduped, hvalues]
    split_ifs with ho
    · have hnodup : ((partsMap f isObject parts).map (·.key)).Nodup := by
        rw [partsMap_eq, List.map_map]
        refine List.pairwise_map.mpr ?_
        refine List.Pairwise.imp_of_mem ?_ (hkeys ho).2
        intro p q hp hq hlt heq
        have hback := congrArg g heq
        simp only [Function.comp_apply, ho, if_true] at hback
        rw [h _ ((mem_partsStrings isObject hp).1 ho), h _ ((mem_partsStrings isObject hq).1 ho)] at hback
        rw [hback] at hlt
        exact absurd hlt (lt_irrefl _)
      rw [lastKeys_id hnodup]
    · rfl

def strip (p : Part Json) : Part Json := { p with sep := [] }

theorem strip_respace (sep : Text) (ps : List (Part Json)) :
    (respace sep ps).map strip = ps.map strip :=
  respace_map (fun key colon value => (⟨key, colon, value, []⟩ : Part Json)) sep ps

theorem respace_strip (sep : Text) : ∀ ps : List (Part Json),
    respace sep (ps.map strip) = respace sep ps
  | [] => rfl
  | [_] => rfl
  | p :: q :: ps => by
    have hrest := respace_strip sep (q :: ps)
    rw [List.map_cons] at hrest
    rw [List.map_cons, List.map_cons, respace, respace, hrest]
    rfl

theorem sortParts_map {k : Part Json → Part Json} (hk : ∀ p, (k p).key = p.key)
    (ps : List (Part Json)) : sortParts (ps.map k) = (sortParts ps).map k := by
  refine (List.map_insertionSort _ _ _ _ fun p _ q _ => ?_).symm
  rw [hk, hk]

/-- Respaced and sorted again, members come out as if they were sorted alone. -/
theorem respace_sortParts (sep : Text) (ps : List (Part Json)) :
    respace sep (sortParts (respace sep ps)) = respace sep (sortParts ps) := by
  rw [← respace_strip sep (sortParts (respace sep ps)), ← respace_strip sep (sortParts ps),
    ← sortParts_map (k := strip) fun _ => rfl, ← sortParts_map (k := strip) fun _ => rfl,
    strip_respace]

/-- A part with its key and its value replaced. -/
def remake (a : Text → Text) (b : Json → Json) (p : Part Json) : Part Json :=
  { p with key := a p.key, value := b p.value }

theorem respace_remake (a : Text → Text) (b : Json → Json) (sep : Text) : ∀ ps : List (Part Json),
    respace sep (ps.map (remake a b)) = (respace sep ps).map (remake a b)
  | [] => rfl
  | [_] => rfl
  | p :: q :: ps => by
    have hrest := respace_remake a b sep (q :: ps)
    rw [List.map_cons] at hrest
    rw [List.map_cons, List.map_cons, respace, respace, List.map_cons, hrest]
    rfl

theorem sepOf_remake (a : Text → Text) (b : Json → Json) (ps : List (Part Json)) :
    sepOf (ps.map (remake a b)) = sepOf ps := by
  cases ps <;> rfl

theorem sepOf_respace : ∀ ps : List (Part Json), sepOf (respace [',', ' '] ps) = [',', ' ']
  | [] => rfl
  | [_] => rfl
  | _ :: _ :: _ => rfl

/-- Members in the order of their keys, sorted from any order. -/
theorem sortParts_perm {ps qs : List (Part Json)} (hperm : qs.Perm ps)
    (hps : ps.Pairwise fun p q => keyRank p.key < keyRank q.key) : sortParts qs = ps := by
  have hsorted : (sortParts qs).Pairwise fun p q => keyRank p.key ≤ keyRank q.key :=
    List.pairwise_insertionSort _ qs
  have hp : (sortParts qs).Perm ps := (List.perm_insertionSort _ qs).trans hperm
  refine hp.eq_of_pairwise ?_ hsorted (hps.imp le_of_lt)
  intro p q hp' hq hle hle'
  by_contra hne
  have hrank : keyRank p.key = keyRank q.key := le_antisymm hle hle'
  have hsymm : Std.Symm fun p q : Part Json => keyRank p.key ≠ keyRank q.key := ⟨fun _ _ => Ne.symm⟩
  exact (hps.imp ne_of_lt).forall (hp.mem_iff.mp hp') hq hne hrank

/-- Sorted by the new keys, mapped back and sorted by the old ones, a value is as it was. -/
theorem sorted_restored {b : Bool} (j : Json) (hj : j.Styled) (hp : j.Printed b)
    (h : ∀ raw ∈ j.strings, g (f raw) = raw) :
    ((j.mapStrings f).sorted.mapStrings g).sorted = j := by
  induction j using Json.induction with
  | str raw => exact congrArg Json.str (h raw (List.mem_singleton_self _))
  | lit raw => rfl
  | node isObject lead parts tail ih =>
    obtain ⟨rfl, rfl, sep, -, hobj, hstyled⟩ := hj
    obtain ⟨hkeys, hparts⟩ := hp
    have hmem := partsStyled_mem hstyled
    have hvalue : ∀ p ∈ parts, ((p.value.mapStrings f).sorted.mapStrings g).sorted = p.value :=
      fun p hp => ih p hp (hmem p hp).2 (partsPrinted_mem hparts p hp).2 fun raw hraw =>
        h raw ((mem_partsStrings isObject hp).2 raw hraw)
    cases isObject with
    | false =>
      simp only [Json.mapStrings, Json.sorted, ordered, Bool.false_eq_true, if_false, partsMap_eq,
        partsSorted_eq, List.map_map]
      congr 1
      refine (List.map_congr_left fun p hp => ?_).trans (List.map_id _)
      simp only [Function.comp_apply, hvalue p hp, id]
    | true =>
      obtain rfl := hobj rfl
      -- there, by the new keys
      have hthere : partsSorted (partsMap f true parts) =
          parts.map (remake f fun v => (v.mapStrings f).sorted) := by
        rw [partsSorted_eq, partsMap_eq, List.map_map]
        rfl
      -- back, in whatever order the new keys left
      have hback : ∀ ps : List (Part Json), partsSorted (partsMap g true ps) =
          ps.map (remake g fun v => (v.mapStrings g).sorted) := by
        intro ps
        rw [partsSorted_eq, partsMap_eq, List.map_map]
        rfl
      have hperm : ((sortParts (parts.map (remake f fun v => (v.mapStrings f).sorted))).map
          (remake g fun v => (v.mapStrings g).sorted)).Perm parts := by
        refine ((List.perm_insertionSort _ _).map _).trans ?_
        rw [List.map_map]
        refine List.Perm.of_eq ((List.map_congr_left fun p hp => ?_).trans (List.map_id _))
        have hkey := h p.key ((mem_partsStrings true hp).1 rfl)
        simp only [Function.comp_apply, remake, hvalue p hp, hkey, id]
      simp only [Json.mapStrings, Json.sorted, ordered, if_true, hthere, hback, sepOf_remake,
        sepOf_styled hstyled, sepOf_respace]
      rw [← respace_remake, respace_sortParts, sortParts_perm hperm (hkeys rfl).2,
        respace_styled hstyled]

theorem mapStrings_mapStrings (j : Json) (h : ∀ raw ∈ j.strings, g (f raw) = raw) :
    (j.mapStrings f).mapStrings g = j := by
  induction j using Json.induction with
  | str raw => exact congrArg Json.str (h raw (List.mem_singleton_self _))
  | lit raw => rfl
  | node isObject lead parts tail ih =>
    rw [Json.mapStrings, Json.mapStrings, partsMap_eq, partsMap_eq, List.map_map]
    congr 1
    refine (List.map_congr_left fun p hp => ?_).trans (List.map_id _)
    obtain ⟨hkey, hraws⟩ := mem_partsStrings isObject hp
    have hvalue := ih p hp fun raw hraw => h raw (hraws raw hraw)
    cases isObject with
    | false => simp only [Function.comp_apply, hvalue, Bool.false_eq_true, if_false, id]
    | true => simp only [Function.comp_apply, hvalue, h p.key (hkey rfl), if_true, id]

/-- A value outside jsonb has no object to sort. -/
theorem sorted_plain (j : Json) (hp : j.Printed false) : (j.mapStrings f).sorted = j.mapStrings f := by
  induction j using Json.induction with
  | str raw => rfl
  | lit raw => rfl
  | node isObject lead parts tail ih =>
    obtain ⟨hkeys, hparts⟩ := hp
    cases isObject with
    | true => exact absurd (hkeys rfl).1 (by decide)
    | false =>
      simp only [Json.mapStrings, Json.sorted, ordered, Bool.false_eq_true, if_false, partsSorted_eq,
        partsMap_eq, List.map_map]
      congr 1
      refine List.map_congr_left fun p hp => ?_
      simp only [Function.comp_apply, ih p hp (partsPrinted_mem hparts p hp).2]

theorem unescape_of_reprint {raw raw' : Text} (h : reprint raw = some raw') :
    (unescape raw).isSome = true := by
  obtain ⟨s, hs, -⟩ := Option.map_eq_some_iff.mp h
  unfold readString at hs
  split at hs
  · rename_i s' hdecode
    obtain ⟨us, hus, -⟩ := Option.bind_eq_some_iff.mp hdecode
    rw [hus]
    rfl
  · cases hs

theorem keysOk_printed {b : Bool} (j : Json) (hp : j.Printed b) : j.keysOk = true := by
  induction j using Json.induction with
  | str raw => rfl
  | lit raw => rfl
  | node isObject lead parts tail ih =>
    obtain ⟨-, hparts⟩ := hp
    rw [Json.keysOk, partsKeysOk_eq, List.all_map, List.all_eq_true]
    intro p hp
    obtain ⟨hkey, hvalue⟩ := partsPrinted_mem hparts p hp
    simp only [Function.comp_apply, id, ih p hp hvalue, Bool.and_true, Bool.or_eq_true,
      Bool.not_eq_true']
    cases isObject with
    | false => exact .inl rfl
    | true => exact .inr (unescape_of_reprint (hkey rfl))

theorem reorderValue_restored {b : Bool} (j : Json) (hj : j.Styled) (hp : j.Printed b)
    (h : ∀ raw ∈ j.strings, g (f raw) = raw) :
    reorderValue ((j.mapStrings f).sorted.mapStrings g) = j := by
  have hsorted := sorted_restored (g := g) j hj hp h
  have hok := Json.keysOk_sorted ((j.mapStrings f).sorted.mapStrings g)
  rw [hsorted, keysOk_printed j hp] at hok
  rw [reorderValue, ← hok, if_pos rfl, hsorted]

end Value

/-! ## A row there and back -/

section Row

variable {m : IdMap}

theorem stored_ok {j v : Json} (hj : j.Styled) (h : j.stored = some v) : v.Styled
    ∧ weight v.text ≤ weight j.text
    ∧ (weight v.text = weight j.text → ∀ raw ∈ j.strings, reprint raw = some raw) := by
  obtain ⟨j', hj', rfl⟩ := Option.map_eq_some_iff.mp h
  have hstyled := Json.reread_styled j j' hj' hj
  have hdeduped := Json.deduped_styled j' hstyled
  obtain ⟨hle, heq⟩ := Json.lighter j j' hj'
  have hsorted := Json.weight_sorted _ hdeduped
  have hdedup := Json.weight_deduped j' hstyled
  exact ⟨Json.sorted_styled _ hdeduped, by omega, fun h => heq (by omega)⟩

theorem substitute_closed (s : Text) (h : closed s = true) : closed (m.substitute s) = true :=
  closed_replaceTokens IdMap.isUuid_newId s h

theorem inverse_closed (s : Text) (h : closed s = true) : closed (m.inverse s) = true :=
  closed_replaceTokens IdMap.isUuid_oldId s h

theorem imported_forall : ∀ {cs cs' : List Column}, imported m cs = some cs' →
    List.Forall₂ (fun c c' => c'.name = c.name ∧ c'.jsonb = c.jsonb
      ∧ (c.value.mapStrings m.substitute).stored = some c'.value) cs cs'
  | [], cs', h => by
    cases h
    exact .nil
  | c :: cs, cs', h => by
    unfold imported at h
    rw [List.mapM_cons] at h
    obtain ⟨c', hc', h⟩ := Option.bind_eq_some_iff.mp h
    obtain ⟨ds, hds, h⟩ := Option.bind_eq_some_iff.mp h
    obtain ⟨v, hv, rfl⟩ := Option.map_eq_some_iff.mp hc'
    cases h
    exact .cons ⟨rfl, rfl, hv⟩ (imported_forall hds)

theorem Row.columnStyled (row : Row) (c : Column) (hc : c ∈ row.columns) : c.Styled :=
  ⟨row.plain c hc, row.styled c hc⟩

theorem styled_map {f : Text → Text} (hf : ∀ s, closed s = true → closed (f s) = true)
    {cs : List Column} (h : ∀ c ∈ cs, c.Styled) : ∀ c ∈ cs.map (mapColumn f), c.Styled := by
  intro d hd
  obtain ⟨c, hc, rfl⟩ := List.mem_map.mp hd
  exact ⟨(h c hc).name, mapStrings_styled hf _ (h c hc).value⟩

/-- The ids are substituted in the text of the line as in the strings of the values. -/
theorem substitute_row {cs : List Column} (h : ∀ c ∈ cs, c.Styled) :
    m.substitute (rowLine cs) = rowLine (cs.map (mapColumn m.substitute)) :=
  replaceTokens_row h

theorem inverse_row {cs : List Column} (h : ∀ c ∈ cs, c.Styled) :
    m.inverse (rowLine cs) = rowLine (cs.map (mapColumn m.inverse)) :=
  replaceTokens_row h

/-- The strings of a value with each string replaced. -/
theorem strings_mapStrings (f : Text → Text) (j : Json) :
    (j.mapStrings f).strings = j.strings.map f := by
  have hparts : ∀ (isObject : Bool) (ps : List (Part Json)),
      (∀ p ∈ ps, (p.value.mapStrings f).strings = p.value.strings.map f) →
        partsStrings isObject (partsMap f isObject ps) = (partsStrings isObject ps).map f := by
    intro isObject ps hps
    induction ps with
    | nil => rfl
    | cons p ps ih =>
      rw [partsMap, partsStrings, partsStrings, List.map_append, List.map_append,
        ih fun q hq => hps q (List.mem_cons_of_mem p hq), hps p List.mem_cons_self]
      cases isObject <;> rfl
  induction j using Json.induction with
  | str raw => rfl
  | lit raw => rfl
  | node isObject lead parts tail ih => exact hparts isObject parts ih

/-- Every id of the map that stands in the line is in lower case, and where one begins in an escape
the new id leaves an escape. -/
structure Restorable (m : IdMap) (row : Row) : Prop where
  lower : m.Lower row.line
  escapes : ∀ c ∈ row.columns, ∀ raw ∈ c.value.strings, m.EscapesKept raw

theorem Json.Printed.strings {b : Bool} (j : Json) (hj : j.Printed b) :
    ∀ raw ∈ j.strings, isPrinted raw = true := by
  have hparts : ∀ (isObject : Bool) (ps : List (Part Json)), partsPrinted b isObject ps →
      (∀ p ∈ ps, p.value.Printed b → ∀ raw ∈ p.value.strings, isPrinted raw = true) →
        ∀ raw ∈ partsStrings isObject ps, isPrinted raw = true := by
    intro isObject ps
    induction ps with
    | nil => exact fun _ _ raw hraw => absurd hraw List.not_mem_nil
    | cons p ps ih =>
      rintro ⟨hkey, hv, hps⟩ hall raw hraw
      rw [partsStrings, List.mem_append, List.mem_append] at hraw
      rcases hraw with (hraw | hraw) | hraw
      · split_ifs at hraw with ho
        · obtain rfl := List.mem_singleton.mp hraw
          exact reprint_self.mp (hkey ho)
        · cases hraw
      · exact hall p List.mem_cons_self hv raw hraw
      · exact ih hps (fun q hq => hall q (List.mem_cons_of_mem p hq)) raw hraw
  induction j using Json.induction with
  | str raw =>
    intro raw' hraw
    obtain rfl := List.mem_singleton.mp hraw
    exact reprint_self.mp hj
  | lit raw => exact fun raw' hraw => absurd hraw List.not_mem_nil
  | node isObject lead parts tail ih => exact hparts isObject parts hj.2 ih

/-- The strings of a row stay printed with their ids replaced where their escapes are kept. -/
theorem Row.reprint_iff (row : Row) {c : Column} (hc : c ∈ row.columns) {raw : Text}
    (hraw : raw ∈ c.value.strings) :
    reprint (m.substitute raw) = some (m.substitute raw) ↔ m.EscapesKept raw :=
  reprint_self.trans (printed_substitute (Json.Printed.strings c.value (row.printed c hc) raw hraw))

theorem Row.inverse_string (row : Row) (hnew : m.Unused row.line) (hlow : m.Lower row.line)
    {c : Column} (hc : c ∈ row.columns) {raw : Text} (hraw : raw ∈ c.value.strings) :
    m.inverse (m.substitute raw) = raw := by
  have hsub := mem_tokens_row row.columnStyled hc hraw
  exact IdMap.inverse_substitute (fun tok htok => hnew tok (hsub htok))
    fun tok htok => hlow tok (hsub htok)

/-! ### A row that comes back -/

/-- A column as the database holds it when every string of it stays printed. -/
def storedColumn (m : IdMap) (c : Column) : Column :=
  { c with value := (c.value.mapStrings m.substitute).sorted }

theorem imported_kept : ∀ {cs : List Column},
    (∀ c ∈ cs, (c.value.mapStrings m.substitute).stored = some (storedColumn m c).value) →
      imported m cs = some (cs.map (storedColumn m))
  | [], _ => rfl
  | c :: cs, h => by
    have hrest := imported_kept fun d hd => h d (List.mem_cons_of_mem c hd)
    have hc : ((substituteValue m c).value.stored).map (fun v => { c with value := v })
        = some (storedColumn m c) := by
      rw [substituteValue, h c List.mem_cons_self]
      rfl
    unfold imported at hrest ⊢
    rw [List.mapM_cons, hc, hrest]
    rfl

theorem Row.stored_value (row : Row) (hnew : m.Unused row.line) (h : Restorable m row) {c : Column}
    (hc : c ∈ row.columns) :
    (c.value.mapStrings m.substitute).stored = some (storedColumn m c).value := by
  rw [Json.stored, reread_mapStrings c.value fun raw hraw =>
      (row.reprint_iff hc hraw).mpr (h.escapes c hc raw hraw), Option.map_some,
    deduped_mapStrings (g := m.inverse) c.value (row.printed c hc) fun raw hraw =>
      row.inverse_string hnew h.lower hc hraw]
  rfl

theorem Row.jsonb_iff (row : Row) {c : Column} (hc : c ∈ row.columns) :
    c.name ∈ jsonbColumns row.columns ↔ c.jsonb = true := by
  constructor
  · intro h
    obtain ⟨d, hd, hname⟩ := List.mem_map.mp h
    obtain ⟨hd, hjsonb⟩ := List.mem_filter.mp hd
    obtain rfl := List.inj_on_of_nodup_map row.names hd hc hname
    exact hjsonb
  · exact fun h => List.mem_map.mpr ⟨c, List.mem_filter.mpr ⟨hc, h⟩, rfl⟩

/-- A column mapped back and reordered is the one that was exported. -/
theorem Row.column_restored (row : Row) (hnew : m.Unused row.line) (hlow : m.Lower row.line)
    {c : Column} (hc : c ∈ row.columns) :
    reorderColumn (jsonbColumns row.columns) (mapColumn m.inverse (storedColumn m c)) = c := by
  have hback : ∀ raw ∈ c.value.strings, m.inverse (m.substitute raw) = raw :=
    fun raw hraw => row.inverse_string hnew hlow hc hraw
  have hprinted := row.printed c hc
  by_cases hjsonb : c.jsonb = true
  · refine (if_pos ((row.jsonb_iff hc).mpr hjsonb)).trans ?_
    have hvalue := reorderValue_restored (g := m.inverse) c.value (row.styled c hc) hprinted hback
    simp only [mapColumn, storedColumn, hvalue]
  · refine (if_neg (mt (row.jsonb_iff hc).mp hjsonb)).trans ?_
    rw [Bool.not_eq_true] at hjsonb
    rw [hjsonb] at hprinted
    have hvalue := mapStrings_mapStrings (g := m.inverse) c.value hback
    simp only [mapColumn, storedColumn, sorted_plain c.value hprinted, hvalue]

theorem Row.restored_of_restorable (row : Row) (hnew : m.Unused row.line) (h : Restorable m row) :
    row.restored m = some row.line := by
  have himported := imported_kept fun c hc => row.stored_value hnew h hc
  have hstyled : ∀ c ∈ row.columns.map (storedColumn m), c.Styled := by
    intro d hd
    obtain ⟨c, hc, rfl⟩ := List.mem_map.mp hd
    exact ⟨row.plain c hc,
      Json.sorted_styled _ (mapStrings_styled substitute_closed _ (row.styled c hc))⟩
  have hback := styled_map (f := m.inverse) inverse_closed hstyled
  have hnames : (((row.columns.map (storedColumn m)).map (mapColumn m.inverse)).map (·.name)).Nodup := by
    rw [List.map_map, List.map_map]
    exact row.names
  rw [Row.restored, himported]
  dsimp only
  rw [inverse_row hstyled, reorderJsonbFields_row _ (fun c hc => (hback c hc).wf) hnames,
    List.map_map, List.map_map]
  refine congrArg some (congrArg rowLine ?_)
  exact (List.map_congr_left fun c hc => row.column_restored hnew h.lower hc).trans (List.map_id _)

/-! ### A row that comes back lighter -/

theorem stored_weight : ∀ {cs cs' : List Column}, (∀ c ∈ cs, c.Styled) →
    List.Forall₂ (fun c c' => c'.name = c.name ∧ c'.jsonb = c.jsonb
      ∧ (c.value.mapStrings m.substitute).stored = some c'.value) cs cs' →
    (∀ c ∈ cs', c.Styled) ∧ (cs'.map (·.name)) = cs.map (·.name)
      ∧ (cs'.map fieldWeight).sum ≤ ((cs.map (mapColumn m.substitute)).map fieldWeight).sum
      ∧ ((cs'.map fieldWeight).sum = ((cs.map (mapColumn m.substitute)).map fieldWeight).sum →
        ∀ c ∈ cs, ∀ raw ∈ c.value.strings, reprint (m.substitute raw) = some (m.substitute raw))
  | [], _, _, .nil =>
    ⟨fun _ h => absurd h List.not_mem_nil, rfl, le_rfl, fun _ _ h => absurd h List.not_mem_nil⟩
  | c :: cs, c' :: cs', hcs, .cons ⟨hname, _, hstored⟩ h => by
    obtain ⟨hstyled, hnames, hle, heq⟩ :=
      stored_weight (fun d hd => hcs d (List.mem_cons_of_mem c hd)) h
    have hc := hcs c List.mem_cons_self
    obtain ⟨hc', hcle, hceq⟩ := stored_ok (mapStrings_styled substitute_closed _ hc.value) hstored
    have hfield : fieldWeight c' = weight c.name + weight c'.value.text := by rw [fieldWeight, hname]
    have hfield' : fieldWeight (mapColumn m.substitute c) =
        weight c.name + weight (c.value.mapStrings m.substitute).text := rfl
    simp only [List.map_cons, List.sum_cons, hfield, hfield']
    refine ⟨?_, by rw [hname, hnames], by omega, fun hsum d hd raw hraw => ?_⟩
    · intro d hd
      rcases List.mem_cons.mp hd with rfl | hd
      · exact ⟨hname ▸ hc.name, hc'⟩
      · exact hstyled d hd
    · rcases List.mem_cons.mp hd with rfl | hd
      · refine hceq (by omega) _ ?_
        rw [strings_mapStrings]
        exact List.mem_map_of_mem hraw
      · exact heq (by omega) d hd raw hraw

theorem weight_reorderColumn (names : List Text) {c : Column} (hc : c.Styled) :
    fieldWeight (reorderColumn names c) = fieldWeight c := by
  unfold reorderColumn reorderValue
  split_ifs
  · rw [fieldWeight, fieldWeight, Json.weight_sorted _ hc.value]
  · rfl
  · rfl

theorem weight_reordered (names : List Text) {cs : List Column} (hcs : ∀ c ∈ cs, c.Styled) :
    weight (rowLine (cs.map (reorderColumn names))) = weight (rowLine cs) := by
  have hfields : (cs.map (reorderColumn names)).map fieldWeight = cs.map fieldWeight := by
    rw [List.map_map]
    exact List.map_congr_left fun c hc => weight_reorderColumn names (hcs c hc)
  rw [weight_row, weight_row, List.length_map, hfields]

theorem weight_inverse_le (text : Text) : weight (m.inverse text) ≤ weight text := by
  have hlen := replaceTokens_length (IdMap.isUuid_oldId (m := m)) text
  have hup := IdMap.uppers_inverse_le (m := m) text
  rw [← IdMap.inverse_eq] at hlen
  unfold weight
  omega

theorem weight_substitute (text : Text) : weight (m.substitute text) ≤ weight text
    ∧ (weight (m.substitute text) = weight text → m.Lower text) := by
  have hlen := replaceTokens_length (IdMap.isUuid_newId (m := m)) text
  have hup := IdMap.uppers_substitute_le (m := m) text
  rw [← IdMap.substitute_eq] at hlen
  unfold weight
  exact ⟨by omega, fun h => IdMap.lower_of_uppers (by omega)⟩

theorem Row.restorable_of_restored (row : Row) (h : row.restored m = some row.line) :
    Restorable m row := by
  unfold Row.restored at h
  split at h
  · cases h
  · rename_i cs himported
    have hrow := imported_forall himported
    obtain ⟨hstyled, hnames, hle, heq⟩ := stored_weight row.columnStyled hrow
    have hlength : cs.length = row.columns.length := hrow.length_eq.symm
    have hback := styled_map (f := m.inverse) inverse_closed hstyled
    have hnodup : ((cs.map (mapColumn m.inverse)).map (·.name)).Nodup := by
      rw [List.map_map]
      exact hnames ▸ row.names
    rw [inverse_row hstyled, reorderJsonbFields_row _ (fun c hc => (hback c hc).wf) hnodup] at h
    have hline := congrArg weight (Option.some.inj h)
    rw [weight_reordered _ hback, ← inverse_row hstyled] at hline
    have hinverse := weight_inverse_le (m := m) (rowLine cs)
    obtain ⟨hsub, hlower⟩ := weight_substitute (m := m) row.line
    have hsubstituted : m.substitute row.line = rowLine (row.columns.map (mapColumn m.substitute)) :=
      substitute_row row.columnStyled
    rw [hsubstituted, weight_row, List.length_map] at hsub hlower
    rw [weight_row cs, hlength] at hinverse
    refine ⟨hlower (by omega), fun c hc raw hraw => (row.reprint_iff hc hraw).mp ?_⟩
    exact heq (by omega) c hc raw hraw

theorem Row.restored_iff (row : Row) (hnew : m.Unused row.line) :
    row.restored m = some row.line ↔ Restorable m row :=
  ⟨row.restorable_of_restored, row.restored_of_restorable hnew⟩

theorem restored_rows {rows : List Row} (hnew : ∀ row ∈ rows, m.Unused row.line) :
    rows.mapM (Row.restored m) = some (rows.map Row.line) ↔ ∀ row ∈ rows, Restorable m row := by
  induction rows with
  | nil => exact iff_of_true rfl fun _ h => absurd h List.not_mem_nil
  | cons row rows ih =>
    have hrest := ih fun r hr => hnew r (List.mem_cons_of_mem row hr)
    have hrow := row.restored_iff (hnew row List.mem_cons_self)
    rw [List.forall_mem_cons, ← hrest, ← hrow, List.mapM_cons, List.map_cons]
    constructor
    · intro h
      obtain ⟨line, hline, h⟩ := Option.bind_eq_some_iff.mp h
      obtain ⟨lines, hlines, h⟩ := Option.bind_eq_some_iff.mp h
      obtain ⟨rfl, rfl⟩ := List.cons.inj (Option.some.inj h)
      exact ⟨hline, hlines⟩
    · rintro ⟨hline, hlines⟩
      rw [hline, hlines]
      rfl

end Row

/-! ## The content check -/

inductive PkKind | uuid | omitPk | noPk
  deriving DecidableEq

/-- The digest of the lines in order, or the sum of their digests where the order is not kept. -/
def contentDigest (sha256 : Text → ℕ) (pk : PkKind) (lines : List Text) : ℕ :=
  if pk = .uuid then sha256 (['\n'].intercalate lines) else (lines.map sha256).sum % 2 ^ 256

/-- The rows read back have the digest of the exported ones. -/
def contentEqual (sha256 : Text → ℕ) (pk : PkKind) (m : IdMap) (rows : List Row) : Bool :=
  match rows.mapM (Row.restored m) with
  | none => false
  | some lines => contentDigest sha256 pk lines = contentDigest sha256 pk (rows.map Row.line)

/-- With the new ids in no line, exactly the restorable rows come back as they were exported, and an
archive of such rows passes the content check. Reordering keeps a value and its tokens. -/
theorem rows_restored (m : IdMap) (rows : List Row) (hnew : ∀ row ∈ rows, m.Unused row.line) :
    (∀ row ∈ rows, row.restored m = some row.line ↔ Restorable m row)
      ∧ (rows.mapM (Row.restored m) = some (rows.map Row.line) ↔ ∀ row ∈ rows, Restorable m row)
      ∧ ((∀ row ∈ rows, Restorable m row) →
        ∀ sha256 pk, contentEqual sha256 pk m rows = true)
      ∧ ∀ (j : Json) (a b : Text), j.Wf → j.keysOk = true → a.all isWs = true → b.all isWs = true →
        reorderJsonKeys (a ++ (j.text ++ b)) = some (a ++ (j.sorted.text ++ b))
          ∧ j.sorted.value = j.value ∧ j.sorted.tokens.Perm j.tokens
          ∧ reorderJsonKeys (a ++ (j.sorted.text ++ b)) = some (a ++ (j.sorted.text ++ b)) := by
  refine ⟨fun row hrow => row.restored_iff (hnew row hrow), restored_rows hnew, ?_, ?_⟩
  · intro h sha256 pk
    rw [contentEqual, (restored_rows hnew).mpr h]
    exact decide_eq_true rfl
  · intro j a b hj hok ha hb
    refine ⟨?_, Json.value_sorted j, Json.tokens_sorted j, ?_⟩
    · rw [reorderJsonKeys_eq hj ha hb, if_pos hok]
    · rw [reorderJsonKeys_eq (Json.sorted_wf j hj) ha hb, Json.keysOk_sorted, if_pos hok,
        Json.sorted_sorted]

/-! ## A row with a memo -/

def sameDigits (c : Char) : Text :=
  List.replicate 8 c ++ '-' :: List.replicate 4 c ++ '-' :: List.replicate 4 c ++
    '-' :: List.replicate 4 c ++ '-' :: List.replicate 12 c

/-- Two accounts and their new ids, which stand the other way round. -/
def accountIds : IdMap where
  entries := [(sameDigits 'a', sameDigits '9'), (sameDigits 'b', sameDigits '8')]
  uuids := by decide +kernel
  lower := by decide +kernel
  olds := by decide +kernel
  news := by decide +kernel

def checkNumbers : Column where
  name := "nextCheckNumbers".toList
  jsonb := true
  value := .node true [] [⟨sameDigits 'a', [':', ' '], .lit ['1'], [',', ' ']⟩,
    ⟨sameDigits 'b', [':', ' '], .lit ['2'], []⟩] []

theorem checkNumbers_styled : checkNumbers.value.Styled := by
  have hlit : ∀ t ∈ [['1'], ['2']], t ≠ [] ∧ t.all isLiteralChar = true ∧ t.count '-' ≤ 2 := by
    decide
  refine ⟨rfl, rfl, [',', ' '], .inr rfl, fun _ => rfl, ⟨by decide +kernel, rfl⟩, hlit _ (by decide),
    rfl, ⟨by decide +kernel, rfl⟩, hlit _ (by decide), rfl, trivial⟩

theorem checkNumbers_printed : checkNumbers.value.Printed true :=
  ⟨fun _ => ⟨rfl, by decide +kernel⟩, fun _ => by decide +kernel, trivial, fun _ => by decide +kernel,
    trivial, trivial⟩

/-- A row with the raw text of a memo. -/
def memoRow (memo : Text) (hclosed : closed memo = true) (hprinted : reprint memo = some memo) :
    Row where
  columns := [checkNumbers, ⟨"memo".toList, false, .str memo⟩]
  names := (by decide +kernel : ["nextCheckNumbers".toList, "memo".toList].Nodup)
  plain := by
    have hnames : ∀ name ∈ ["nextCheckNumbers".toList, "memo".toList],
        name.all isNameChar = true := by decide +kernel
    exact fun c hc => hnames c.name (List.mem_map_of_mem (f := (·.name)) hc)
  styled := List.forall_mem_cons.mpr ⟨checkNumbers_styled, List.forall_mem_cons.mpr ⟨hclosed, nofun⟩⟩
  printed :=
    List.forall_mem_cons.mpr ⟨checkNumbers_printed, List.forall_mem_cons.mpr ⟨hprinted, nofun⟩⟩

def lowerMemo : Row := memoRow (sameDigits 'a' ++ ['\\', 'n']) (by decide) (by decide +kernel)
def upperMemo : Row := memoRow (sameDigits 'A' ++ ['\\', 'n']) (by decide) (by decide +kernel)

/-- A backspace and what is left of an id behind its first letter. -/
def escapedMemo : Row := memoRow ('\\' :: sameDigits 'b') (by decide) (by decide +kernel)

theorem unused_iff {text : Text} : accountIds.Unused text ↔
    ∀ tok ∈ tokens text, accountIds.reverse (toLowerCase tok) = none := Iff.rfl

instance (text : Text) : Decidable (accountIds.Unused text) := decidable_of_iff' _ unused_iff

theorem lowerMemo_restorable : Restorable accountIds lowerMemo where
  lower := by
    unfold IdMap.Lower
    decide +kernel
  escapes := by
    have hreprint : ∀ c ∈ lowerMemo.columns, ∀ raw ∈ c.value.strings,
        reprint (accountIds.substitute raw) = some (accountIds.substitute raw) := by decide +kernel
    exact fun c hc raw hraw => (lowerMemo.reprint_iff hc hraw).mp (hreprint c hc raw hraw)

theorem rows_restored_lowerMemo : lowerMemo.restored accountIds = some lowerMemo.line :=
  ((rows_restored accountIds [lowerMemo] (by decide +kernel)).1 lowerMemo
    List.mem_cons_self).mpr lowerMemo_restorable

/-- An id in upper case comes back in lower case, and an id that begins in an escape breaks it. -/
theorem memos_not_restored :
    (accountIds.Unused upperMemo.line ∧ upperMemo.restored accountIds ≠ some upperMemo.line)
      ∧ accountIds.Unused escapedMemo.line ∧ escapedMemo.restored accountIds = none := by
  decide +kernel

end Remap

end MyBooks
