import MyBooks.StoredText

/-!
# The fields of a row line

The tokenizer finds a column of a row line at its value's text (`topLevelField_at`), so reordering
the jsonb fields reorders the values of those columns and nothing else (`reorderJsonbFields_row`).
-/

namespace MyBooks

namespace Remap

/-! ## Scanning a value -/

theorem scanString_length (s : Text) : (scanString s).2.length ≤ s.length := by
  fun_induction scanString s with
  | case1 => exact le_rfl
  | case2 => exact Nat.zero_le _
  | case3 c r ih =>
    simp only [List.length_cons]
    omega
  | case4 r _ => exact Nat.le_succ _
  | case5 c r _ _ ih =>
    simp only [List.length_cons]
    omega

theorem scanNested_passes : ∀ {k k' : ℕ} {d : ℕ} {s : Text}, s.length ≤ k → s.length ≤ k' →
    scanNested k d s = scanNested k' d s
  | 0, 0, _, _, _, _ => rfl
  | 0, _ + 1, _, [], _, _ => rfl
  | _ + 1, 0, _, [], _, _ => rfl
  | _ + 1, _ + 1, _, [], _, _ => rfl
  | 0, _, _, _ :: _, hk, _ => absurd hk (Nat.not_succ_le_zero _)
  | _, 0, _, _ :: _, _, hk' => absurd hk' (Nat.not_succ_le_zero _)
  | k + 1, k' + 1, d, c :: r, hk, hk' => by
    have hr := Nat.le_of_succ_le_succ hk
    have hr' := Nat.le_of_succ_le_succ hk'
    have hs := scanString_length r
    simp only [scanNested]
    rw [scanNested_passes (d := d) (s := (scanString r).2) (hs.trans hr) (hs.trans hr'),
      scanNested_passes (d := d + 1) hr hr', scanNested_passes (d := d - 1) hr hr',
      scanNested_passes (d := d) hr hr']

/-- The text through the bracket that closes depth `d`. -/
def nested (d : ℕ) (s : Text) : Text × Text := scanNested s.length d s

theorem nested_cons (d : ℕ) (c : Char) (r : Text) : nested d (c :: r) =
    if c = '"' then
      (c :: (scanString r).1 ++ (nested d (scanString r).2).1, (nested d (scanString r).2).2)
    else if c = '{' ∨ c = '[' then (c :: (nested (d + 1) r).1, (nested (d + 1) r).2)
    else if c = '}' ∨ c = ']' then
      if d - 1 = 0 then ([c], r) else (c :: (nested (d - 1) r).1, (nested (d - 1) r).2)
    else (c :: (nested d r).1, (nested d r).2) := by
  unfold nested
  rw [List.length_cons, scanNested]
  have hstring : ∀ e, scanNested r.length e (scanString r).2 =
      scanNested (scanString r).2.length e (scanString r).2 :=
    fun _ => scanNested_passes (scanString_length r) le_rfl
  simp only [hstring]

/-- A text with no bracket open or closed for the scan is passed over. -/
def Passes (t : Text) : Prop :=
  ∀ d, 1 ≤ d → ∀ r, nested d (t ++ r) = (t ++ (nested d r).1, (nested d r).2)

theorem passes_nil : Passes [] := fun _ _ _ => rfl

theorem Passes.append {t u : Text} (ht : Passes t) (hu : Passes u) : Passes (t ++ u) := by
  intro d hd r
  rw [List.append_assoc, ht d hd, hu d hd, List.append_assoc]

theorem passes_char {c : Char} (hq : c ≠ '"') (ho : c ≠ '{' ∧ c ≠ '[') (hc : c ≠ '}' ∧ c ≠ ']') :
    Passes [c] := by
  intro d _ r
  rw [List.cons_append, List.nil_append, nested_cons, if_neg hq,
    if_neg (by rintro (h | h); exacts [ho.1 h, ho.2 h]),
    if_neg (by rintro (h | h); exacts [hc.1 h, hc.2 h])]
  rfl

theorem passes_plain {t : Text} (h : ∀ c ∈ t, Passes [c]) : Passes t := by
  induction t with
  | nil => exact passes_nil
  | cons c t ih =>
    exact (h c List.mem_cons_self).append (ih fun d hd => h d (List.mem_cons_of_mem c hd))

theorem passes_string {raw : Text} (h : closed raw = true) : Passes ('"' :: raw ++ ['"']) := by
  intro d _ r
  rw [List.append_assoc, List.cons_append, List.cons_append, List.nil_append, nested_cons,
    if_pos rfl, scanString_closed h]
  simp only [List.cons_append]

theorem passes_ws {t : Text} (h : t.all isWs = true) : Passes t := by
  refine passes_plain fun c hc => ?_
  have hws := List.all_eq_true.mp h c hc
  have hne : ∀ d : Char, isWs d = false → c ≠ d := by
    rintro d hd rfl
    rw [hd] at hws
    cases hws
  exact passes_char (hne _ rfl) ⟨hne _ rfl, hne _ rfl⟩ ⟨hne _ rfl, hne _ rfl⟩

theorem passes_around {c : Char} (hc : Passes [c]) {t : Text} (h : Around c t) : Passes t := by
  obtain ⟨a, b, ha, hb, rfl⟩ := h
  exact (passes_ws ha).append (hc.append (passes_ws hb))

theorem passes_head {isObject : Bool} {key colon : Text} (h : KeyWf isObject key colon) :
    Passes (head isObject key colon) := by
  cases isObject with
  | false => exact passes_nil
  | true =>
    have happ : head true key colon = ('"' :: key ++ ['"']) ++ colon := by
      simp only [head, if_true, List.append_assoc, List.cons_append, List.nil_append]
    rw [happ]
    exact (passes_string h.1).append
      (passes_around (passes_char (by decide) (by decide) (by decide)) h.2)

theorem passes_partsText {isObject : Bool} : ∀ {ps : List (Part Json)},
    (∀ p ∈ ps, p.value.Wf → Passes p.value.text) → partsWf isObject ps →
      Passes (partsText isObject ps)
  | [], _, _ => passes_nil
  | ⟨key, colon, v, sep⟩ :: ps, ih, ⟨hkey, hv, hsep, hps⟩ => by
    have hsepPasses : Passes sep := by
      cases ps with
      | nil =>
        obtain rfl : sep = [] := hsep
        exact passes_nil
      | cons p ps => exact passes_around (passes_char (by decide) (by decide) (by decide)) hsep
    exact (((passes_head hkey).append (ih _ List.mem_cons_self hv)).append hsepPasses).append
      (passes_partsText (fun p hp => ih p (List.mem_cons_of_mem _ hp)) hps)

theorem nested_node (isObject : Bool) {inner : Text} (h : Passes inner) (d : ℕ) (r : Text) :
    nested d (opening isObject :: inner ++ closing isObject :: r) =
      if d = 0 then (opening isObject :: inner ++ [closing isObject], r)
      else (opening isObject :: inner ++ closing isObject :: (nested d r).1, (nested d r).2) := by
  rw [List.cons_append, nested_cons, if_neg (by cases isObject <;> decide),
    if_pos (by cases isObject <;> decide), h (d + 1) (Nat.succ_le_succ (Nat.zero_le d)), nested_cons,
    if_neg (by cases isObject <;> decide), if_neg (by cases isObject <;> decide),
    if_pos (by cases isObject <;> decide), Nat.add_sub_cancel]
  split_ifs <;> simp only [List.cons_append]

theorem Json.passes (j : Json) (hj : j.Wf) : Passes j.text := by
  induction j using Json.induction with
  | str raw => exact passes_string hj
  | lit raw =>
    refine passes_plain fun c hc => ?_
    obtain ⟨-, hq, -, ho, ho', hc, hc'⟩ := literal_char (List.all_eq_true.mp hj.2 c hc)
    exact passes_char hq ⟨ho, ho'⟩ ⟨hc, hc'⟩
  | node isObject lead parts tail ih =>
    obtain ⟨hlead, htail, -, hparts⟩ := hj
    intro d hd r
    have hinner := ((passes_ws hlead).append (passes_partsText ih hparts)).append (passes_ws htail)
    have hnode := nested_node isObject hinner d r
    rw [if_neg (by omega)] at hnode
    simp only [Json.text, List.cons_append, List.append_assoc, List.nil_append] at hnode ⊢
    exact hnode

/-- A string, an object or an array ends at its own last character. -/
theorem scanValue_ended {j : Json} (hj : j.Wf) (hlit : ∀ raw, j ≠ .lit raw) (r : Text) :
    scanValue (j.text ++ r) = (j.text, r) := by
  cases j with
  | str raw =>
    simp only [Json.text, List.cons_append, List.append_assoc, List.nil_append, scanValue]
    rw [scanString_closed hj]
  | lit raw => exact absurd rfl (hlit raw)
  | node isObject lead parts tail =>
    obtain ⟨hlead, htail, -, hparts⟩ := hj
    have hinner := ((passes_ws hlead).append
      (passes_partsText (fun p _ => Json.passes p.value) hparts)).append (passes_ws htail)
    have hnode := nested_node isObject hinner 0 r
    rw [if_pos rfl] at hnode
    simp only [Json.text, List.cons_append, List.append_assoc, List.nil_append] at hnode ⊢
    rw [scanValue.eq_2 _ _ (fun h => by cases isObject <;> cases h),
      if_pos (by cases isObject <;> decide)]
    exact hnode

/-- Another text is taken up to the first comma or brace. -/
theorem scanValue_plain {c d : Char} {t : Text} (hfirst : c ≠ '"' ∧ c ≠ '{' ∧ c ≠ '[')
    (hplain : ∀ e ∈ c :: t, e ≠ ',' ∧ e ≠ '}') (hd : d = ',' ∨ d = '}') (r : Text) :
    scanValue (c :: t ++ d :: r) = (c :: t, d :: r) := by
  have hall : ∀ e ∈ c :: t, (e ≠ ',' && e ≠ '}') = true := by
    intro e he
    simp [(hplain e he).1, (hplain e he).2]
  have hstop : ¬(d ≠ ',' && d ≠ '}') = true := by rcases hd with rfl | rfl <;> decide
  obtain ⟨hq, ho, ho'⟩ := hfirst
  rw [List.cons_append, scanValue.eq_2 _ _ (fun h => hq h),
    if_neg (by rintro (h | h); exacts [ho h, ho' h]), ← List.cons_append,
    List.takeWhile_append_of_pos hall, List.dropWhile_append_of_pos hall,
    List.takeWhile_cons_of_neg (p := fun e : Char => e ≠ ',' && e ≠ '}') hstop,
    List.dropWhile_cons_of_neg (p := fun e : Char => e ≠ ',' && e ≠ '}') hstop, List.append_nil]

theorem scanValue_text {j : Json} (hj : j.Wf) {c : Char} (hc : c = ',' ∨ c = '}') (r : Text) :
    scanValue (j.text ++ c :: r) = (j.text, c :: r) := by
  cases j with
  | str raw => exact scanValue_ended hj (fun _ h => by cases h) _
  | node isObject lead parts tail => exact scanValue_ended hj (fun _ h => by cases h) _
  | lit raw =>
    obtain ⟨hne, hall⟩ := hj
    obtain ⟨d, raw, rfl⟩ := List.exists_cons_of_ne_nil hne
    have hchar := fun e he => literal_char (List.all_eq_true.mp hall e he)
    obtain ⟨-, hq, -, ho, ho', -⟩ := hchar d List.mem_cons_self
    exact scanValue_plain ⟨hq, ho, ho'⟩
      (fun e he => ⟨(hchar e he).2.2.1, (hchar e he).2.2.2.2.2.1⟩) hc r

/-! ## Finding a column -/

theorem nameChar {c : Char} (h : isNameChar c = true) :
    c ≠ '\\' ∧ c ≠ '"' ∧ c ≠ ':' ∧ c ≠ '-' ∧ c ≠ '{' := by
  have hne : ∀ d : Char, isNameChar d = false → c ≠ d := by
    rintro d hd rfl
    rw [h] at hd
    cases hd
  exact ⟨hne _ (by decide), hne _ (by decide), hne _ (by decide), hne _ (by decide),
    hne _ (by decide)⟩

theorem closed_plain : ∀ {t : Text}, (∀ c ∈ t, c ≠ '\\' ∧ c ≠ '"') → closed t = true
  | [], _ => rfl
  | c :: t, h => by
    obtain ⟨hs, hq⟩ := h c List.mem_cons_self
    rw [closed_cons hs hq]
    exact closed_plain fun d hd => h d (List.mem_cons_of_mem c hd)

theorem name_closed {name : Text} (h : name.all isNameChar = true) : closed name = true :=
  closed_plain fun c hc =>
    let hc' := nameChar (List.all_eq_true.mp h c hc)
    ⟨hc'.1, hc'.2.1⟩

theorem unescapeKey_name {name : Text} (h : name.all isNameChar = true) :
    unescapeKey name = some (name.flatMap utf16) :=
  if_neg fun hs => (nameChar (List.all_eq_true.mp h _ hs)).1 rfl

theorem decodeUtf16_flatMap : ∀ s : List Char, decodeUtf16 none (s.flatMap utf16) = some s
  | [] => rfl
  | c :: s => by
    rw [List.flatMap_cons, decodeUtf16_char, decodeUtf16_flatMap s]
    rfl

theorem utf16_inj {s t : List Char} : s.flatMap utf16 = t.flatMap utf16 ↔ s = t := by
  refine ⟨fun h => ?_, fun h => by rw [h]⟩
  have hs := decodeUtf16_flatMap s
  rw [h, decodeUtf16_flatMap t] at hs
  exact (Option.some.inj hs).symm

def Column.Wf (c : Column) : Prop := c.name.all isNameChar = true ∧ c.value.Wf

theorem fieldFrom_blank (name : Text) (passes : ℕ) (seen r : Text) :
    fieldFrom name (passes + 1) seen ('}' :: r) = some none := by
  rw [fieldFrom, if_neg (by decide), if_pos rfl]

/-- One field: it is the one looked for, or is passed over with the comma behind it. -/
theorem fieldFrom_field {c : Column} (hc : c.Wf) (name : Text) (passes : ℕ) (seen : Text)
    {d : Char} (hd : d = ',' ∨ d = '}') (r : Text) :
    fieldFrom name (passes + 1) seen (fieldText c ++ d :: r) =
      if c.name = name then
        some (some ⟨seen ++ '"' :: c.name ++ ['"', ':'], c.value.text, d :: r⟩)
      else
        fieldFrom name passes
          (seen ++ fieldText c ++ (d :: r).takeWhile fun e => e = ',' || e = ' ')
          ((d :: r).dropWhile fun e => e = ',' || e = ' ') := by
  obtain ⟨hname, hvalue⟩ := hc
  have hscan := scanString_closed (name_closed hname) (':' :: (c.value.text ++ d :: r))
  have hval := scanValue_text hvalue hd r
  obtain ⟨v, vs, hv, hws, -⟩ := Json.text_cons hvalue
  have hblank : ¬v = ' ' := by
    rintro rfl
    cases hws
  have hgap : ∀ t : Text, (':' :: t).takeWhile (· ≠ ':') = [] ∧ (':' :: t).dropWhile (· ≠ ':') = ':' :: t :=
    fun _ => ⟨rfl, rfl⟩
  have hblanks : (c.value.text ++ d :: r).takeWhile (· = ' ') = []
      ∧ (c.value.text ++ d :: r).dropWhile (· = ' ') = c.value.text ++ d :: r := by
    rw [hv, List.cons_append, List.takeWhile_cons_of_neg (by simpa using hblank),
      List.dropWhile_cons_of_neg (by simpa using hblank)]
    exact ⟨rfl, rfl⟩
  simp only [fieldText, List.cons_append, List.append_assoc] at hscan ⊢
  rw [fieldFrom, if_pos rfl]
  dsimp only
  rw [hscan]
  dsimp only
  rw [(hgap _).1, (hgap _).2, List.drop_succ_cons, List.drop_zero, hblanks.1, hblanks.2, hval,
    List.dropLast_concat, unescapeKey_name hname]
  simp only [utf16_inj, List.take_succ_cons, List.take_zero, List.append_assoc, List.cons_append,
    List.nil_append, List.append_nil]

/-- The fields before one, each with its comma. -/
def fieldsBefore (cs : List Column) : Text := cs.flatMap fun c => fieldText c ++ [',']

/-- What follows a field. -/
def fieldsAfter : List Column → Text
  | [] => ['}']
  | c :: cs => ',' :: fieldsText (c :: cs) ++ ['}']

theorem fieldsText_split (c : Column) (ys : List Column) : ∀ xs : List Column,
    fieldsText (xs ++ c :: ys) ++ ['}'] = fieldsBefore xs ++ (fieldText c ++ fieldsAfter ys)
  | [] => by
    cases ys with
    | nil => rfl
    | cons y ys => simp only [List.nil_append, fieldsText, fieldsBefore, List.flatMap_nil, fieldsAfter,
        List.append_assoc, List.cons_append]
  | x :: xs => by
    have hrest := fieldsText_split c ys xs
    have hx : fieldsText (x :: xs ++ c :: ys) = fieldText x ++ ',' :: fieldsText (xs ++ c :: ys) := by
      cases xs <;> rfl
    rw [hx, List.append_assoc, List.cons_append, hrest]
    simp only [fieldsBefore, List.flatMap_cons, List.append_assoc, List.cons_append, List.nil_append]

theorem fieldsAfter_cons (ys : List Column) :
    ∃ d r, fieldsAfter ys = d :: r ∧ (d = ',' ∨ d = '}') := by
  cases ys with
  | nil => exact ⟨_, _, rfl, .inr rfl⟩
  | cons y ys => exact ⟨_, _, rfl, .inl rfl⟩

theorem gap_comma (c : Column) (r : Text) :
    (',' :: (fieldText c ++ r)).takeWhile (fun e => e = ',' || e = ' ') = [',']
      ∧ (',' :: (fieldText c ++ r)).dropWhile (fun e => e = ',' || e = ' ') = fieldText c ++ r :=
  ⟨rfl, rfl⟩

theorem fieldFrom_at {name : Text} {c : Column} (hc : c.Wf) (hname : c.name = name)
    (ys : List Column) : ∀ {xs : List Column} {passes : ℕ} (seen : Text),
    (∀ x ∈ xs, x.Wf ∧ x.name ≠ name) → xs.length + 1 ≤ passes →
      fieldFrom name passes seen (fieldsBefore xs ++ (fieldText c ++ fieldsAfter ys)) =
        some (some ⟨seen ++ (fieldsBefore xs ++ '"' :: c.name ++ ['"', ':']), c.value.text,
          fieldsAfter ys⟩)
  | [], 0, _, _, hp => absurd hp (by simp)
  | [], passes + 1, seen, _, _ => by
    obtain ⟨d, r, hr, hd⟩ := fieldsAfter_cons ys
    rw [fieldsBefore, List.flatMap_nil, List.nil_append, hr, fieldFrom_field hc name passes seen hd r,
      if_pos hname]
    simp only [List.append_assoc, List.cons_append, List.nil_append]
  | _ :: _, 0, _, _, hp => absurd hp (by simp)
  | x :: xs, passes + 1, seen, hxs, hp => by
    obtain ⟨hx, hne⟩ := hxs x List.mem_cons_self
    have hbefore : fieldsBefore (x :: xs) = fieldText x ++ ',' :: fieldsBefore xs := by
      simp only [fieldsBefore, List.flatMap_cons, List.append_assoc, List.cons_append, List.nil_append]
    have hnext := fieldFrom_at hc hname ys (seen ++ fieldText x ++ [','])
      (fun y hy => hxs y (List.mem_cons_of_mem x hy)) (Nat.le_of_succ_le_succ hp)
    have hgap : ∃ e : Column, ∃ t, fieldsBefore xs ++ (fieldText c ++ fieldsAfter ys)
        = fieldText e ++ t := by
      cases xs with
      | nil => exact ⟨c, _, rfl⟩
      | cons e es =>
        refine ⟨e, ',' :: fieldsBefore es ++ (fieldText c ++ fieldsAfter ys), ?_⟩
        simp only [fieldsBefore, List.flatMap_cons, List.append_assoc, List.cons_append,
          List.nil_append]
    obtain ⟨e, t, ht⟩ := hgap
    rw [hbefore, List.append_assoc, List.cons_append,
      fieldFrom_field hx name passes seen (.inl rfl), if_neg hne, ht, (gap_comma e t).1,
      (gap_comma e t).2, ← ht, hnext]
    simp only [List.append_assoc, List.cons_append, List.nil_append]

theorem fieldFrom_missing {name : Text} : ∀ {cs : List Column} {passes : ℕ} {seen : Text},
    (∀ c ∈ cs, c.Wf ∧ c.name ≠ name) → cs.length + 1 ≤ passes →
      fieldFrom name passes seen (fieldsText cs ++ ['}']) = some none
  | _, 0, _, _, hp => absurd hp (by simp)
  | [], passes + 1, seen, _, _ => fieldFrom_blank name passes seen []
  | [c], 1, _, _, hp => absurd hp (by simp)
  | [c], passes + 2, seen, hcs, _ => by
    obtain ⟨hc, hne⟩ := hcs c List.mem_cons_self
    rw [fieldsText, fieldFrom_field hc name _ seen (.inr rfl), if_neg hne]
    exact fieldFrom_blank name passes _ []
  | c :: d :: cs, passes + 1, seen, hcs, hp => by
    obtain ⟨hc, hne⟩ := hcs c List.mem_cons_self
    have hd : ∃ t, fieldsText (d :: cs) ++ ['}'] = fieldText d ++ t := by
      cases cs with
      | nil => exact ⟨_, rfl⟩
      | cons e es => exact ⟨_, List.append_assoc _ _ _⟩
    obtain ⟨t, ht⟩ := hd
    rw [fieldsText, List.append_assoc, List.cons_append,
      fieldFrom_field hc name passes seen (.inl rfl), if_neg hne, ht, (gap_comma d t).1,
      (gap_comma d t).2, ← ht]
    exact fieldFrom_missing (fun e he => hcs e (List.mem_cons_of_mem c he)) (Nat.le_of_succ_le_succ hp)

theorem fieldsText_length : ∀ cs : List Column, cs.length ≤ (fieldsText cs).length
  | [] => Nat.zero_le _
  | [c] => by simp [fieldsText, fieldText]
  | c :: d :: cs => by
    have := fieldsText_length (d :: cs)
    simp only [fieldsText, fieldText, List.length_append, List.length_cons] at this ⊢
    omega

theorem topLevelField_row (cs : List Column) (name : Text) : topLevelField (rowLine cs) name =
    fieldFrom name (fieldsText cs ++ ['}']).length ['{'] (fieldsText cs ++ ['}']) := rfl

/-- The tokenizer finds a column at its value. -/
theorem topLevelField_at {xs ys : List Column} {c : Column} (h : ∀ x ∈ xs ++ c :: ys, x.Wf)
    (hxs : ∀ x ∈ xs, x.name ≠ c.name) : topLevelField (rowLine (xs ++ c :: ys)) c.name =
      some (some ⟨'{' :: (fieldsBefore xs ++ '"' :: c.name ++ ['"', ':']), c.value.text,
        fieldsAfter ys⟩) := by
  have hlen := fieldsText_length (xs ++ c :: ys)
  rw [topLevelField_row]
  refine (congrArg _ (fieldsText_split c ys xs)).trans
    (fieldFrom_at (h c (by simp)) rfl ys _ (fun x hx => ⟨h x (by simp [hx]), hxs x hx⟩) ?_)
  rw [List.length_append] at hlen ⊢
  simp only [List.length_cons, List.length_nil] at hlen ⊢
  omega

theorem topLevelField_missing {cs : List Column} {name : Text} (h : ∀ c ∈ cs, c.Wf)
    (hcs : ∀ c ∈ cs, c.name ≠ name) : topLevelField (rowLine cs) name = some none := by
  have hlen := fieldsText_length cs
  rw [topLevelField_row]
  refine fieldFrom_missing (fun c hc => ⟨h c hc, hcs c hc⟩) ?_
  rw [List.length_append]
  simp only [List.length_cons, List.length_nil]
  omega

/-! ## Reordering the jsonb fields -/

/-- What the reordering makes of a value. -/
def reorderValue (j : Json) : Json := if j.keysOk then j.sorted else j

theorem reorderValue_wf {j : Json} (hj : j.Wf) : (reorderValue j).Wf := by
  unfold reorderValue
  split_ifs
  · exact Json.sorted_wf j hj
  · exact hj

theorem reorderValue_reorderValue (j : Json) : reorderValue (reorderValue j) = reorderValue j := by
  unfold reorderValue
  split_ifs with h h'
  · exact Json.sorted_sorted j
  · rfl
  · rfl

theorem null_text {j : Json} (hj : j.Wf) (h : j.text = "null".toList) : reorderValue j = j := by
  cases j with
  | str raw => cases h
  | lit raw => rfl
  | node isObject lead parts tail => cases isObject <;> cases h

theorem reorderJsonKeys_value {j : Json} (hj : j.Wf) :
    reorderJsonKeys j.text = if j.keysOk then some (reorderValue j).text else none := by
  have h := reorderJsonKeys_eq hj (a := []) (b := []) rfl rfl
  simp only [List.nil_append, List.append_nil] at h
  rw [h, reorderValue]
  cases j.keysOk <;> rfl

def reorderColumn (names : List Text) (c : Column) : Column :=
  if c.name ∈ names then { c with value := reorderValue c.value } else c

theorem rowLine_split (xs ys : List Column) (c : Column) : rowLine (xs ++ c :: ys) =
    '{' :: (fieldsBefore xs ++ '"' :: c.name ++ ['"', ':']) ++ c.value.text ++ fieldsAfter ys := by
  rw [rowLine, List.cons_append, fieldsText_split]
  simp only [fieldText, List.append_assoc, List.cons_append, List.nil_append]

theorem names_apart {xs ys : List Column} {c : Column}
    (h : ((xs ++ c :: ys).map (·.name)).Nodup) :
    (∀ x ∈ xs, x.name ≠ c.name) ∧ ∀ y ∈ ys, y.name ≠ c.name := by
  rw [List.map_append, List.map_cons, List.nodup_append] at h
  obtain ⟨-, hys, hxs⟩ := h
  exact ⟨fun x hx => hxs _ (List.mem_map_of_mem hx) _ List.mem_cons_self,
    fun y hy he => (List.nodup_cons.mp hys).1 (he ▸ List.mem_map_of_mem hy)⟩

/-- One column: its value is reordered, or left where it is null or a key is no string. -/
theorem reorderJsonbFields_step {xs ys : List Column} {c : Column} (names : List Text)
    (hcs : ∀ x ∈ xs ++ c :: ys, x.Wf) (hxs : ∀ x ∈ xs, x.name ≠ c.name) :
    reorderJsonbFields (rowLine (xs ++ c :: ys)) (c.name :: names) =
      reorderJsonbFields (rowLine (xs ++ { c with value := reorderValue c.value } :: ys)) names := by
  have hwf : c.Wf := hcs c (by simp)
  rw [reorderJsonbFields, topLevelField_at hcs hxs]
  simp only []
  split_ifs with hnull
  · rw [null_text hwf.2 hnull]
  · rw [reorderJsonKeys_value hwf.2]
    cases hok : c.value.keysOk with
    | true =>
      simp only [if_true]
      rw [rowLine_split]
    | false =>
      have hsame : reorderValue c.value = c.value := by
        rw [reorderValue, hok]
        rfl
      rw [hsame]
      rfl

theorem reorderJsonbFields_row : ∀ (names : List Text) {cs : List Column}, (∀ c ∈ cs, c.Wf) →
    (cs.map (·.name)).Nodup → reorderJsonbFields (rowLine cs) names =
      some (rowLine (cs.map (reorderColumn names)))
  | [], cs, _, _ => by
    have hid : cs.map (reorderColumn []) = cs := by
      refine (List.map_congr_left fun c _ => ?_).trans (List.map_id cs)
      exact if_neg List.not_mem_nil
    rw [reorderJsonbFields, hid]
  | name :: names, cs, hcs, hnodup => by
    by_cases hname : ∃ c ∈ cs, c.name = name
    · obtain ⟨c, hc, rfl⟩ := hname
      obtain ⟨xs, ys, rfl⟩ := List.append_of_mem hc
      have hwf : c.Wf := hcs c hc
      obtain ⟨hxs, hys⟩ := names_apart hnodup
      have hstep := reorderJsonbFields_step names hcs hxs
      have hcs' : ∀ x ∈ xs ++ { c with value := reorderValue c.value } :: ys, x.Wf := by
        intro x hx
        rcases List.mem_append.mp hx with hx | hx
        · exact hcs x (List.mem_append_left _ hx)
        · rcases List.mem_cons.mp hx with rfl | hx
          · exact ⟨hwf.1, reorderValue_wf hwf.2⟩
          · exact hcs x (List.mem_append_right _ (List.mem_cons_of_mem c hx))
      have hother : ∀ l : List Column, (∀ x ∈ l, x.name ≠ c.name) →
          l.map (reorderColumn names) = l.map (reorderColumn (c.name :: names)) := by
        intro l hl
        refine List.map_congr_left fun x hx => ?_
        simp only [reorderColumn, List.mem_cons, hl x hx, false_or]
      have hself : reorderColumn names { c with value := reorderValue c.value } =
          reorderColumn (c.name :: names) c := by
        simp only [reorderColumn, List.mem_cons_self, if_true]
        split_ifs
        · simp only [reorderValue_reorderValue]
        · rfl
      rw [hstep, reorderJsonbFields_row names hcs' (by simpa using hnodup)]
      simp only [List.map_append, List.map_cons, hself, hother xs hxs, hother ys hys]
    · have hne : ∀ c ∈ cs, c.name ≠ name := fun c hc h => hname ⟨c, hc, h⟩
      rw [reorderJsonbFields, topLevelField_missing hcs hne]
      simp only []
      rw [reorderJsonbFields_row names hcs hnodup]
      congr 2
      refine List.map_congr_left fun c hc => ?_
      simp only [reorderColumn, List.mem_cons, hne c hc, false_or]

end Remap

end MyBooks
