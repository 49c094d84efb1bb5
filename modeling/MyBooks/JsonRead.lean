import MyBooks.CanonicalJson

/-!
# Values as JSON texts

`JSON.stringify` and `JSON.parse`. An object lists its array indices in order and then its other
keys as they came. A value that is one of JSON is read off its text (`parse_stringify`), and its
text has no newline (`newline_notMem_stringify`).
-/

namespace MyBooks

/-! ## Members -/

section Members

variable {α : Type}

/-- The number an array index says. -/
def arrayIndex (key : JsString) : Option ℕ :=
  let n := key.foldl (fun n u => n * 10 + (u.toNat - 48)) 0
  if key ≠ [] ∧ key.all (fun u => 48 ≤ u.toNat && u.toNat ≤ 57) ∧
    (key.head? = some 48 → key.length = 1) ∧ n < 4294967295 then some n else none

/-- An index is listed before every larger one and before the keys that are none. -/
def keyBefore (a b : JsString) : Bool :=
  match arrayIndex a, arrayIndex b with
  | some i, some j => i < j
  | some _, none => true
  | none, _ => false

/-- `o[key] = value`, for an own member. -/
def putMember (key : JsString) (value : α) : List (JsString × α) → List (JsString × α)
  | [] => [(key, value)]
  | (k, v) :: ms =>
    if k = key then (key, value) :: ms
    else if keyBefore key k then (key, value) :: (k, v) :: ms
    else (k, v) :: putMember key value ms

/-- The key is none of the members', and not before them. -/
def IsLast (key : JsString) (ms : List (JsString × α)) : Prop :=
  ∀ m ∈ ms, m.1 ≠ key ∧ keyBefore key m.1 = false

/-- The members of an object, as it lists them. -/
def Listed (ms : List (JsString × α)) : Prop :=
  (ms.map Prod.fst).Pairwise fun a b => a ≠ b ∧ keyBefore b a = false

theorem putMember_last {key : JsString} {v : α} : ∀ {ms : List (JsString × α)}, IsLast key ms →
    putMember key v ms = ms ++ [(key, v)]
  | [], _ => rfl
  | (k, w) :: ms, h => by
    obtain ⟨⟨hne, hafter⟩, hms⟩ := List.forall_mem_cons.mp h
    rw [putMember, if_neg hne, hafter, if_neg Bool.false_ne_true, putMember_last hms]
    rfl

theorem putMember_again {key : JsString} {v w : α} : ∀ {ms : List (JsString × α)}, IsLast key ms →
    putMember key v (ms ++ [(key, w)]) = ms ++ [(key, v)]
  | [], _ => if_pos rfl
  | (k, u) :: ms, h => by
    obtain ⟨⟨hne, hafter⟩, hms⟩ := List.forall_mem_cons.mp h
    rw [List.cons_append, putMember, if_neg hne, hafter, if_neg Bool.false_ne_true,
      putMember_again hms]
    rfl

theorem lookup_isLast {key : JsString} : ∀ {ms : List (JsString × α)}, IsLast key ms →
    ms.lookup key = none
  | [], _ => rfl
  | (k, u) :: ms, h => by
    obtain ⟨⟨hne, -⟩, hms⟩ := List.forall_mem_cons.mp h
    rw [List.lookup_cons, beq_eq_false_iff_ne.mpr (Ne.symm hne), lookup_isLast hms]

theorem lookup_concat {key : JsString} {v : α} : ∀ {ms : List (JsString × α)}, IsLast key ms →
    (ms ++ [(key, v)]).lookup key = some v
  | [], _ => by rw [List.nil_append, List.lookup_cons, beq_self_eq_true]
  | (k, u) :: ms, h => by
    obtain ⟨⟨hne, -⟩, hms⟩ := List.forall_mem_cons.mp h
    rw [List.cons_append, List.lookup_cons, beq_eq_false_iff_ne.mpr (Ne.symm hne),
      lookup_concat hms]

/-- A member stands behind the members before it. -/
theorem Listed.isLast {ms ms' : List (JsString × α)} {m : JsString × α}
    (h : Listed (ms ++ m :: ms')) : IsLast m.1 ms := fun a ha =>
  (List.pairwise_append.mp (List.pairwise_map.mp h)).2.2 a ha m List.mem_cons_self

theorem mem_putMember {key : JsString} {v : α} {m : JsString × α} :
    ∀ {ms : List (JsString × α)}, m ∈ putMember key v ms → m = (key, v) ∨ m ∈ ms
  | [], h => .inl (List.mem_singleton.mp h)
  | (k, w) :: ms, h => by
    rw [putMember] at h
    split_ifs at h with hkey hbefore
    · exact (List.mem_cons.mp h).imp_right (List.mem_cons_of_mem _)
    · exact List.mem_cons.mp h
    · rcases List.mem_cons.mp h with rfl | h
      · exact .inr List.mem_cons_self
      · exact (mem_putMember h).imp_right (List.mem_cons_of_mem _)

end Members

/-! ## Writing -/

mutual

/-- `SerializeJSONProperty`: in an array, what is undefined or not finite is null. -/
def stringify : JsValue → Text
  | .undefined => "null".toList
  | .null => "null".toList
  | .bool b => (if b then "true" else "false").toList
  | .num n => n.text.getD "null".toList
  | .str s => s.quoted
  | .arr items => '[' :: commaJoined (itemTexts items) ++ [']']
  | .obj members => '{' :: commaJoined (memberTexts members) ++ ['}']

def itemTexts : List JsValue → List Text
  | [] => []
  | v :: vs => stringify v :: itemTexts vs

/-- Members that are undefined are left out. -/
def memberTexts : List (JsString × JsValue) → List Text
  | [] => []
  | (k, v) :: ms =>
    if v.isUndefined then memberTexts ms else memberText k (stringify v) :: memberTexts ms

end

/-! ## Reading -/

/-- A number's text, as digits and how many of them stand before the point. -/
structure NumberLiteral where
  negative : Bool
  digits : Text
  point : ℤ

def readExponent (t : Text) : Option ℤ :=
  let signed := t.head? = some '-' ∨ t.head? = some '+'
  let ds := if signed then t.tail else t
  if ds ≠ [] ∧ ds.all Char.isDigit then
    some (if t.head? = some '-' then -(Nat.ofDigitChars 10 ds 0 : ℤ) else Nat.ofDigitChars 10 ds 0)
  else none

/-- What an exponent moves the point by, where there is one. -/
def readExponentPart : Text → Option ℤ
  | [] => some 0
  | c :: r => if c = 'e' ∨ c = 'E' then readExponent r else none

/-- The digits behind a point, and what comes behind them. -/
def readFraction : Text → Option (Text × Text)
  | '.' :: r =>
    if r.takeWhile Char.isDigit = [] then none
    else some (r.takeWhile Char.isDigit, r.dropWhile Char.isDigit)
  | r => some ([], r)

def readNumber (t : Text) : Option NumberLiteral :=
  let negative : Bool := t.head? = some '-'
  let unsigned := if negative then t.tail else t
  let whole := unsigned.takeWhile Char.isDigit
  if whole = [] ∨ whole.head? = some '0' ∧ whole.length ≠ 1 then none
  else
    (readFraction (unsigned.dropWhile Char.isDigit)).bind fun f =>
      (readExponentPart f.2).map fun e => ⟨negative, whole ++ f.1, whole.length + e⟩

/-- The decimal a text says, without the zeros around its digits. -/
def NumberLiteral.decimal (l : NumberLiteral) : Option ShortDecimal :=
  let kept := (l.digits.dropWhile (· = '0')).rdropWhile (· = '0')
  if h : kept ≠ [] ∧ kept.all Char.isDigit ∧ kept.head? ≠ some '0' ∧ kept.getLast? ≠ some '0' then
    some ⟨l.negative, kept, l.point - (l.digits.takeWhile (· = '0')).length,
      List.all_eq_true.mp h.2.1, h.1, h.2.2.1, h.2.2.2⟩
  else none

def readString (t : Text) : Option (JsString × Text) :=
  let body := Remap.scanString t
  if body.1.getLast? = some '"' then
    (unescape body.1.dropLast).map fun us => (us.map Nat.toUInt16, body.2)
  else none

def skipBlanks (t : Text) : Text := t.dropWhile isWs

/-- `round` gives the number that is nearest to a decimal. -/
def readLiteral (round : ShortDecimal → JsNumber) (t : Text) : Option (JsValue × Text) :=
  let word := t.takeWhile fun c => !isWs c && c ≠ ',' && c ≠ '}' && c ≠ ']'
  let rest := t.dropWhile fun c => !isWs c && c ≠ ',' && c ≠ '}' && c ≠ ']'
  if word = "null".toList then some (.null, rest)
  else if word = "true".toList then some (.bool true, rest)
  else if word = "false".toList then some (.bool false, rest)
  else (readNumber word).map fun l => (.num (l.decimal.elim .zero round), rest)

mutual

/-- A value at the start of a text, and what comes behind it. Each call takes a character or begins
a list, which bounds the calls. -/
def readValue (round : ShortDecimal → JsNumber) : ℕ → Text → Option (JsValue × Text)
  | 0, _ => none
  | calls + 1, t =>
    match skipBlanks t with
    | [] => none
    | c :: r =>
      if c = '"' then (readString r).map fun p => (.str p.1, p.2)
      else if c = '[' then
        if (skipBlanks r).head? = some ']' then some (.arr [], (skipBlanks r).tail)
        else (readItems round calls r).map fun p => (.arr p.1, p.2)
      else if c = '{' then
        if (skipBlanks r).head? = some '}' then some (.obj [], (skipBlanks r).tail)
        else (readMembers round calls [] r).map fun p => (.obj p.1, p.2)
      else readLiteral round (c :: r)

def readItems (round : ShortDecimal → JsNumber) : ℕ → Text → Option (List JsValue × Text)
  | 0, _ => none
  | calls + 1, t =>
    (readValue round calls t).bind fun p =>
      match skipBlanks p.2 with
      | c :: r =>
        if c = ',' then (readItems round calls r).map fun q => (p.1 :: q.1, q.2)
        else if c = ']' then some ([p.1], r)
        else none
      | [] => none

/-- The members of an object, with those before them. -/
def readMembers (round : ShortDecimal → JsNumber) : ℕ → List (JsString × JsValue) → Text →
    Option (List (JsString × JsValue) × Text)
  | 0, _, _ => none
  | calls + 1, ms, t =>
    match skipBlanks t with
    | c :: r =>
      if c = '"' then
        (readString r).bind fun key =>
          match skipBlanks key.2 with
          | c :: r =>
            if c = ':' then
              (readValue round calls r).bind fun p =>
                match skipBlanks p.2 with
                | c :: r =>
                  if c = ',' then readMembers round calls (putMember key.1 p.1 ms) r
                  else if c = '}' then some (putMember key.1 p.1 ms, r)
                  else none
                | [] => none
            else none
          | [] => none
      else none
    | [] => none

end

/-- `JSON.parse`, nothing where it throws. -/
def parseJson (round : ShortDecimal → JsNumber) (t : Text) : Option JsValue :=
  (readValue round (t.length + 1) t).bind fun p =>
    if skipBlanks p.2 = [] then some p.1 else none

/-! ## Numbers -/

section Numbers

variable {p : NumberParts} {x : ShortDecimal}

theorem span_digits {s u : Text} (hs : ∀ c ∈ s, c.isDigit = true)
    (hu : ∀ c ∈ u.head?, c.isDigit = false) :
    (s ++ u).takeWhile Char.isDigit = s ∧ (s ++ u).dropWhile Char.isDigit = u := by
  rw [List.takeWhile_append_of_pos hs, List.dropWhile_append_of_pos hs]
  cases u with
  | nil => exact ⟨List.append_nil s, rfl⟩
  | cons c u =>
    have hc : ¬c.isDigit = true := by
      rw [hu c rfl]
      exact Bool.false_ne_true
    rw [List.takeWhile_cons_of_neg hc, List.dropWhile_cons_of_neg hc, List.append_nil]
    exact ⟨rfl, rfl⟩

/-- Only a zero alone stands first. -/
theorem parts_zero_head (h : x.parts.whole.head? = some '0') : x.parts.whole.length = 1 := by
  obtain ⟨c, ds, hds⟩ := List.exists_cons_of_ne_nil x.ne_nil
  have hc : c ≠ '0' := fun hzero => x.head (by rw [hds, hzero]; rfl)
  unfold ShortDecimal.parts at h ⊢
  dsimp only at h ⊢
  split_ifs at h ⊢ with hplain hlong hpos
  · rw [hds] at h
    exact absurd (Option.some.inj h) hc
  · obtain ⟨k, hk⟩ : ∃ k, x.point.toNat = k + 1 := ⟨x.point.toNat - 1, by omega⟩
    rw [hk, hds] at h
    exact absurd (Option.some.inj h) hc
  · rfl
  all_goals
    rw [hds] at h
    exact absurd (Option.some.inj h) hc

theorem readExponent_signed (negative : Bool) (n : ℕ) :
    readExponent ((if negative then '-' else '+') :: Nat.toDigits 10 n) =
      some (if negative then -(n : ℤ) else n) := by
  have hne : Nat.toDigits 10 n ≠ [] := Nat.toDigits_ne_nil
  have hall : (Nat.toDigits 10 n).all Char.isDigit = true :=
    List.all_eq_true.mpr fun c hc => Nat.isDigit_of_mem_toDigits (by decide) (by decide) hc
  have hvalue : Nat.ofDigitChars 10 (Nat.toDigits 10 n) 0 = n :=
    Nat.ofDigitChars_toDigits (by decide) (by decide)
  cases negative <;> simp [readExponent, hne, hall, hvalue]

theorem readFraction_parts (hp : p.Wf) :
    readFraction ((if p.frac = [] then [] else '.' :: p.frac) ++
      if p.expo = [] then [] else 'e' :: p.expo) =
        some (p.frac, if p.expo = [] then [] else 'e' :: p.expo) := by
  by_cases hfrac : p.frac = []
  · rw [if_pos hfrac, List.nil_append, hfrac]
    split_ifs <;> rfl
  · obtain ⟨htake, hdrop⟩ := span_digits hp.frac (expo_head p.expo)
    rw [if_neg hfrac, List.cons_append, readFraction, htake, hdrop, if_neg hfrac]

/-- A number is read at its parts. -/
theorem readNumber_parts (hp : p.Wf) (hzero : p.whole.head? = some '0' → p.whole.length = 1)
    {e : ℤ} (he : p.expo = [] ∧ e = 0 ∨ p.expo ≠ [] ∧ readExponent p.expo = some e)
    (negative : Bool) : readNumber ((if negative then ['-'] else []) ++ p.text) =
      some ⟨negative, p.whole ++ p.frac, p.whole.length + e⟩ := by
  have hhead : p.text.head? ≠ some '-' := by
    obtain ⟨c, hc, hdigit⟩ := NumberParts.text_head hp
    rintro h
    rw [h] at hc
    obtain rfl := Option.mem_some.mp hc
    cases hdigit
  have hunsigned : ∀ b : Bool, decide (((if b then ['-'] else []) ++ p.text).head? = some '-') = b ∧
      (if b then ((if b then ['-'] else []) ++ p.text).tail else
        (if b then ['-'] else []) ++ p.text) = p.text := by
    rintro (_ | _)
    · exact ⟨decide_eq_false hhead, rfl⟩
    · exact ⟨rfl, rfl⟩
  obtain ⟨htake, hdrop⟩ := span_digits hp.whole (frac_head p.frac p.expo)
  rw [← List.append_assoc] at htake hdrop
  have hlead : ¬(p.whole = [] ∨ p.whole.head? = some '0' ∧ p.whole.length ≠ 1) := by
    rintro (h | ⟨h, hlength⟩)
    · exact hp.ne_nil h
    · exact hlength (hzero h)
  have hexpo : readExponentPart (if p.expo = [] then [] else 'e' :: p.expo) = some e := by
    obtain ⟨h, rfl⟩ | ⟨h, hread⟩ := he
    · rw [if_pos h]
      rfl
    · rw [if_neg h]
      exact hread
  unfold readNumber
  dsimp only
  rw [(hunsigned negative).1, (hunsigned negative).2, NumberParts.text, htake, hdrop, if_neg hlead,
    readFraction_parts hp, Option.bind_some]
  dsimp only
  rw [hexpo]
  rfl

theorem decimal_padded {m : ℕ} {s : Text} (h : Padded x m s) :
    NumberLiteral.decimal ⟨x.negative, s, x.point + m⟩ = some x := by
  obtain ⟨hahead, hkept⟩ := h.stripped
  have hdigits : x.digits ≠ [] ∧ x.digits.all Char.isDigit ∧ x.digits.head? ≠ some '0' ∧
      x.digits.getLast? ≠ some '0' :=
    ⟨x.ne_nil, List.all_eq_true.mpr x.areDigits, x.head, x.last⟩
  unfold NumberLiteral.decimal
  dsimp only
  simp only [hkept, hahead]
  rw [dif_pos hdigits]
  exact congrArg some (ShortDecimal.ext rfl rfl (by dsimp only; omega))

/-- A decimal is read off its text. -/
theorem readNumber_text (x : ShortDecimal) :
    ∃ l, readNumber x.text = some l ∧ l.decimal = some x := by
  by_cases hx : -5 ≤ x.point ∧ x.point ≤ 21
  · obtain ⟨hexpo, m, hpadded, hpoint⟩ := parts_plain hx
    refine ⟨_, readNumber_parts (parts_wf x) parts_zero_head (.inl ⟨hexpo, rfl⟩) x.negative, ?_⟩
    rw [show (x.parts.whole.length : ℤ) + 0 = x.point + m by omega]
    exact decimal_padded hpadded
  · obtain ⟨hexpo, hdigits⟩ := parts_expo hx
    have hwhole : x.parts.whole.length = 1 := by
      have hlength : 0 < x.digits.length := List.length_pos_iff.mpr x.ne_nil
      unfold ShortDecimal.parts
      dsimp only
      rw [if_neg hx, List.length_take]
      omega
    have hread : readExponent x.parts.expo = some (x.point - 1) := by
      have hsign := readExponent_signed (decide (x.point < 0)) (x.point - 1).natAbs
      rw [hexpo]
      simp only [decide_eq_true_eq] at hsign
      rw [hsign]
      split_ifs
      all_goals
        congr 1
        omega
    refine ⟨_, readNumber_parts (parts_wf x) parts_zero_head
      (.inr ⟨by rw [hexpo]; exact List.cons_ne_nil _ _, hread⟩) x.negative, ?_⟩
    have hpadded : Padded x 0 (x.parts.whole ++ x.parts.frac) := ⟨0, by rw [hdigits]; simp⟩
    rw [hwhole, show ((1 : ℕ) : ℤ) + (x.point - 1) = x.point + (0 : ℕ) by omega]
    exact decimal_padded hpadded

end Numbers

/-! ## Reading what was written -/

/-- The values of JSON: nothing undefined, numbers as they are printed, and objects as they list
their members. -/
inductive IsJson (round : ShortDecimal → JsNumber) : JsValue → Prop
  | null : IsJson round .null
  | bool (b : Bool) : IsJson round (.bool b)
  | zero : IsJson round (.num .zero)
  | finite {x : ShortDecimal} (h : round x = .finite x) : IsJson round (.num (.finite x))
  | str (s : JsString) : IsJson round (.str s)
  | arr {items : List JsValue} (h : ∀ v ∈ items, IsJson round v) : IsJson round (.arr items)
  | obj {members : List (JsString × JsValue)} (hl : Listed members)
      (h : ∀ m ∈ members, IsJson round m.2) : IsJson round (.obj members)

section Written

variable {round : ShortDecimal → JsNumber} {v : JsValue} {r : Text}

theorem IsJson.defined (h : IsJson round v) : v.isUndefined = false := by
  cases h <;> rfl

theorem itemTexts_eq : ∀ vs : List JsValue, itemTexts vs = vs.map stringify
  | [] => rfl
  | v :: vs => by rw [itemTexts, itemTexts_eq vs, List.map_cons]

theorem memberTexts_eq : ∀ {ms : List (JsString × JsValue)},
    (∀ m ∈ ms, m.2.isUndefined = false) →
      memberTexts ms = ms.map fun m => memberText m.1 (stringify m.2)
  | [], _ => rfl
  | (k, v) :: ms, h => by
    obtain ⟨hv, hms⟩ := List.forall_mem_cons.mp h
    rw [memberTexts, hv, if_neg Bool.false_ne_true, memberTexts_eq hms, List.map_cons]

theorem skipBlanks_cons {c : Char} (h : isWs c = false) (t : Text) :
    skipBlanks (c :: t) = c :: t :=
  List.dropWhile_cons_of_neg (by rw [h]; exact Bool.false_ne_true)

theorem readString_quoted (s : JsString) (r : Text) :
    readString (quoteUnits (s.map UInt16.toNat) ++ '"' :: r) = some (s, r) := by
  have hunits : ∀ u ∈ s.map UInt16.toNat, u < 65536 := by
    intro u hu
    obtain ⟨w, -, rfl⟩ := List.mem_map.mp hu
    exact w.toNat_lt
  obtain ⟨hread, hclosed⟩ := unescape_quoteUnits hunits
  have hback : (s.map UInt16.toNat).map Nat.toUInt16 = s := by
    rw [List.map_map]
    exact (List.map_congr_left fun u _ => UInt16.ofNat_toNat).trans (List.map_id s)
  unfold readString
  dsimp only
  rw [Remap.scanString_closed hclosed]
  dsimp only
  rw [List.getLast?_concat, if_pos rfl, List.dropLast_concat, hread, Option.map_some, hback]

/-- A text that begins with no blank, and not as an array closes. -/
def Starts (t : Text) : Prop := ∃ c s, t = c :: s ∧ isWs c = false ∧ c ≠ ']'

theorem stringify_starts (h : IsJson round v) : Starts (stringify v) := by
  cases h with
  | null => exact ⟨_, _, rfl, rfl, by decide⟩
  | bool b => cases b <;> exact ⟨_, _, rfl, rfl, by decide⟩
  | zero => exact ⟨_, _, rfl, rfl, by decide⟩
  | str s => exact ⟨_, _, rfl, rfl, by decide⟩
  | arr h => exact ⟨_, _, rfl, rfl, by decide⟩
  | obj hl h => exact ⟨_, _, rfl, rfl, by decide⟩
  | @finite x h =>
    obtain ⟨hall, c, s, hcs, -⟩ := JsNumber.text_literal (n := .finite x) rfl
    rw [hcs, List.all_cons, Bool.and_eq_true] at hall
    obtain ⟨hws, -, -, -, -, -, hbracket⟩ := Remap.literal_char hall.1
    exact ⟨c, s, hcs, hws, hbracket⟩

/-- What a value's text is read as, before a comma or what closes a list. -/
def ReadsBack (round : ShortDecimal → JsNumber) (v : JsValue) : Prop :=
  ∀ calls r, (stringify v).length ≤ calls → Remap.Stops r →
    readValue round calls (stringify v ++ r) = some (v, r)

/-- A word that is no string and no list is a literal. -/
theorem readValue_word (word : Text) (hall : word.all isLiteralChar = true) (hne : word ≠ [])
    (hr : Remap.Stops r) (calls : ℕ) : readValue round (calls + 1) (word ++ r) =
      if word = "null".toList then some (.null, r)
      else if word = "true".toList then some (.bool true, r)
      else if word = "false".toList then some (.bool false, r)
      else (readNumber word).map fun l => (.num (l.decimal.elim .zero round), r) := by
  obtain ⟨htake, hdrop⟩ := Remap.takeWhile_literal hall hr
  obtain ⟨c, s, rfl⟩ := List.exists_cons_of_ne_nil hne
  have hc : isLiteralChar c = true := by
    rw [List.all_cons, Bool.and_eq_true] at hall
    exact hall.1
  obtain ⟨hws, hquote, -, hbrace, hbracket, -, -⟩ := Remap.literal_char hc
  rw [List.cons_append] at htake hdrop ⊢
  rw [readValue, skipBlanks_cons hws]
  dsimp only
  rw [if_neg hquote, if_neg hbracket, if_neg hbrace, readLiteral]
  rw [htake, hdrop]

theorem number_reads {n : JsNumber} (h : IsJson round (.num n)) : ReadsBack round (.num n) := by
  intro calls r hcalls hr
  obtain ⟨t, ht⟩ : ∃ t, n.text = some t := by
    cases h <;> exact ⟨_, rfl⟩
  have htext : stringify (.num n) = t := by rw [stringify, ht, Option.getD_some]
  obtain ⟨hall, c, s, hcs, hc⟩ := JsNumber.text_literal ht
  have hne : ∀ (w : Text) (d : Char), w.head? = some d → ¬(d = '-' ∨ d.isDigit = true) →
      t ≠ w := by
    rintro w d hw hd rfl
    rw [hcs] at hw
    exact hd (Option.some.inj hw ▸ hc)
  have hread : ∃ l, readNumber t = some l ∧ l.decimal.elim .zero round = n := by
    cases h with
    | zero =>
      obtain rfl := Option.some.inj ht
      exact ⟨_, rfl, rfl⟩
    | @finite x hx =>
      obtain rfl := Option.some.inj ht
      obtain ⟨l, hl, hdecimal⟩ := readNumber_text x
      exact ⟨l, hl, by rw [hdecimal, Option.elim_some, hx]⟩
  obtain ⟨l, hl, hn⟩ := hread
  rw [htext] at hcalls ⊢
  obtain ⟨k, rfl⟩ : ∃ k, calls = k + 1 := by
    rw [hcs, List.length_cons] at hcalls
    exact ⟨calls - 1, by omega⟩
  rw [readValue_word t hall (by rw [hcs]; exact List.cons_ne_nil _ _) hr,
    if_neg (hne _ 'n' rfl (by decide)), if_neg (hne _ 't' rfl (by decide)),
    if_neg (hne _ 'f' rfl (by decide)), hl, Option.map_some, hn]

/-- What stands behind the first entry of a list. -/
def behind (texts : List Text) (close : Char) (r : Text) : Text :=
  texts.flatMap (',' :: ·) ++ close :: r

theorem readItems_texts : ∀ {vs : List JsValue} {v : JsValue} {calls : ℕ} (r : Text),
    (∀ w ∈ v :: vs, ReadsBack round w) →
    (stringify v).length + ((vs.map stringify).flatMap (',' :: ·)).length < calls →
    readItems round calls (stringify v ++ behind (vs.map stringify) ']' r) = some (v :: vs, r)
  | vs, v, calls, r, hall, hcalls => by
    obtain ⟨k, rfl⟩ : ∃ k, calls = k + 1 := ⟨calls - 1, by omega⟩
    obtain ⟨hv, hvs⟩ := List.forall_mem_cons.mp hall
    have hfirst := hv k (behind (vs.map stringify) ']' r) (by omega)
      (stops_close (.inl rfl) (vs.map stringify) r)
    rw [readItems, hfirst, Option.bind_some]
    dsimp only
    cases vs with
    | nil =>
      rw [behind, List.map_nil, List.flatMap_nil, List.nil_append, skipBlanks_cons rfl]
      rfl
    | cons w vs =>
      have hlength : (stringify w).length + ((vs.map stringify).flatMap (',' :: ·)).length < k := by
        simp only [List.map_cons, List.flatMap_cons, List.length_append, List.length_cons] at hcalls
        omega
      have hrest := readItems_texts r hvs hlength
      have hnext : behind ((w :: vs).map stringify) ']' r =
          ',' :: (stringify w ++ behind (vs.map stringify) ']' r) := by
        rw [behind, behind, List.map_cons, List.flatMap_cons, List.append_assoc, List.cons_append]
      rw [hnext, skipBlanks_cons rfl]
      dsimp only
      rw [if_pos rfl, hrest]
      rfl

theorem readMembers_texts : ∀ {ms : List (JsString × JsValue)} {m : JsString × JsValue}
    {done : List (JsString × JsValue)} {calls : ℕ} (r : Text),
    (∀ n ∈ m :: ms, ReadsBack round n.2) → Listed (done ++ m :: ms) →
    (memberText m.1 (stringify m.2)).length +
      ((ms.map fun n => memberText n.1 (stringify n.2)).flatMap (',' :: ·)).length < calls →
    readMembers round calls done (memberText m.1 (stringify m.2) ++
      behind (ms.map fun n => memberText n.1 (stringify n.2)) '}' r) = some (done ++ m :: ms, r)
  | ms, m, done, calls, r, hall, hlisted, hcalls => by
    obtain ⟨k, rfl⟩ : ∃ k, calls = k + 1 := ⟨calls - 1, by omega⟩
    obtain ⟨hm, hms⟩ := List.forall_mem_cons.mp hall
    have hvalueLength : (stringify m.2).length ≤ k := by
      rw [memberText, List.length_append, List.length_cons] at hcalls
      omega
    have hvalue := hm k (behind (ms.map fun n => memberText n.1 (stringify n.2)) '}' r) hvalueLength
      (stops_close (.inr rfl) _ r)
    have hput : putMember m.1 m.2 done = done ++ [m] := putMember_last hlisted.isLast
    have hkey : memberText m.1 (stringify m.2) ++
        behind (ms.map fun n => memberText n.1 (stringify n.2)) '}' r =
          '"' :: (quoteUnits (m.1.map UInt16.toNat) ++ '"' :: ':' :: (stringify m.2 ++
            behind (ms.map fun n => memberText n.1 (stringify n.2)) '}' r)) := by
      rw [memberText, JsString.quoted]
      simp only [List.cons_append, List.append_assoc, List.nil_append]
    rw [hkey, readMembers, skipBlanks_cons rfl]
    dsimp only
    rw [if_pos rfl, readString_quoted, Option.bind_some]
    dsimp only
    rw [skipBlanks_cons rfl]
    dsimp only
    rw [if_pos rfl, hvalue, Option.bind_some]
    dsimp only
    rw [hput]
    cases ms with
    | nil =>
      rw [behind, List.map_nil, List.flatMap_nil, List.nil_append, skipBlanks_cons rfl]
      rfl
    | cons n ms =>
      have hlisted' : Listed ((done ++ [m]) ++ n :: ms) := by
        rw [List.append_assoc]
        exact hlisted
      have hlength : (memberText n.1 (stringify n.2)).length +
          ((ms.map fun n => memberText n.1 (stringify n.2)).flatMap (',' :: ·)).length < k := by
        simp only [List.map_cons, List.flatMap_cons, List.length_append, List.length_cons] at hcalls
        omega
      have hrest := readMembers_texts r hms hlisted' hlength
      have hnext : behind ((n :: ms).map fun n => memberText n.1 (stringify n.2)) '}' r =
          ',' :: (memberText n.1 (stringify n.2) ++
            behind (ms.map fun n => memberText n.1 (stringify n.2)) '}' r) := by
        rw [behind, behind, List.map_cons, List.flatMap_cons, List.append_assoc, List.cons_append]
      rw [hnext, skipBlanks_cons rfl]
      dsimp only
      rw [if_pos rfl, hrest, List.append_assoc]
      rfl

/-- A value is read off its text. -/
theorem reads_back (h : IsJson round v) : ReadsBack round v := by
  induction h with
  | null =>
    intro calls r hcalls hr
    obtain ⟨k, rfl⟩ : ∃ k, calls = k + 1 := ⟨calls - 1, by simp [stringify] at hcalls; omega⟩
    exact readValue_word "null".toList rfl (by decide) hr k
  | bool b =>
    intro calls r hcalls hr
    obtain ⟨k, rfl⟩ : ∃ k, calls = k + 1 :=
      ⟨calls - 1, by cases b <;> simp [stringify] at hcalls <;> omega⟩
    cases b
    · exact readValue_word "false".toList rfl (by decide) hr k
    · exact readValue_word "true".toList rfl (by decide) hr k
  | zero => exact number_reads .zero
  | finite h => exact number_reads (.finite h)
  | str s =>
    intro calls r hcalls _
    obtain ⟨k, rfl⟩ : ∃ k, calls = k + 1 :=
      ⟨calls - 1, by simp [stringify, JsString.quoted] at hcalls; omega⟩
    have htext : stringify (.str s) ++ r =
        '"' :: (quoteUnits (s.map UInt16.toNat) ++ '"' :: r) := by
      simp [stringify, JsString.quoted]
    rw [htext, readValue, skipBlanks_cons rfl]
    dsimp only
    rw [if_pos rfl, readString_quoted]
    rfl
  | @arr items h ih =>
    intro calls r hcalls _
    have htext : stringify (.arr items) ++ r =
        '[' :: (commaJoined (items.map stringify) ++ ']' :: r) := by
      rw [stringify, itemTexts_eq]
      simp
    rw [stringify, itemTexts_eq] at hcalls
    simp only [List.length_append, List.length_cons, List.length_nil] at hcalls
    obtain ⟨k, rfl⟩ : ∃ k, calls = k + 1 := ⟨calls - 1, by omega⟩
    rw [htext, readValue, skipBlanks_cons rfl]
    dsimp only
    rw [if_neg (by decide), if_pos rfl]
    cases items with
    | nil =>
      rw [List.map_nil, show commaJoined [] = [] from rfl, List.nil_append, skipBlanks_cons rfl]
      rfl
    | cons w ws =>
      rw [List.map_cons, commaJoined_cons, List.length_append] at hcalls
      have hlength : (stringify w).length + ((ws.map stringify).flatMap (',' :: ·)).length < k := by
        omega
      have hitems := readItems_texts r ih hlength
      have hbehind : commaJoined ((w :: ws).map stringify) ++ ']' :: r =
          stringify w ++ behind (ws.map stringify) ']' r := by
        rw [List.map_cons, commaJoined_cons, List.append_assoc, behind]
      obtain ⟨c, s, hcs, hws, hc⟩ := stringify_starts (h w List.mem_cons_self)
      have hopen : (skipBlanks (stringify w ++ behind (ws.map stringify) ']' r)).head? ≠
          some ']' := by
        rw [hcs, List.cons_append, skipBlanks_cons hws]
        exact fun heq => hc (Option.some.inj heq)
      rw [hbehind, if_neg hopen, hitems]
      rfl
  | @obj members hl h ih =>
    intro calls r hcalls _
    have hdefined : ∀ m ∈ members, m.2.isUndefined = false := fun m hm => (h m hm).defined
    have htext : stringify (.obj members) ++ r =
        '{' :: (commaJoined (members.map fun m => memberText m.1 (stringify m.2)) ++ '}' :: r) := by
      rw [stringify, memberTexts_eq hdefined]
      simp
    rw [stringify, memberTexts_eq hdefined] at hcalls
    simp only [List.length_append, List.length_cons, List.length_nil] at hcalls
    obtain ⟨k, rfl⟩ : ∃ k, calls = k + 1 := ⟨calls - 1, by omega⟩
    rw [htext, readValue, skipBlanks_cons rfl]
    dsimp only
    rw [if_neg (by decide), if_neg (by decide), if_pos rfl]
    cases members with
    | nil =>
      rw [List.map_nil, show commaJoined [] = [] from rfl, List.nil_append, skipBlanks_cons rfl]
      rfl
    | cons m ms =>
      rw [List.map_cons, commaJoined_cons, List.length_append] at hcalls
      have hlength : (memberText m.1 (stringify m.2)).length +
          ((ms.map fun n => memberText n.1 (stringify n.2)).flatMap (',' :: ·)).length < k := by
        omega
      have hmembers := readMembers_texts r ih (List.nil_append (m :: ms) ▸ hl) hlength
      have hbehind : commaJoined ((m :: ms).map fun m => memberText m.1 (stringify m.2)) ++
          '}' :: r = memberText m.1 (stringify m.2) ++
            behind (ms.map fun n => memberText n.1 (stringify n.2)) '}' r := by
        rw [List.map_cons, commaJoined_cons, List.append_assoc, behind]
      have hopen : (skipBlanks (memberText m.1 (stringify m.2) ++
          behind (ms.map fun n => memberText n.1 (stringify n.2)) '}' r)).head? ≠ some '}' := by
        rw [memberText, JsString.quoted, List.cons_append, List.cons_append, List.cons_append,
          skipBlanks_cons rfl]
        exact fun heq => absurd (Option.some.inj heq) (by decide)
      rw [hbehind, if_neg hopen, hmembers]
      rfl

/-- A value is read off its text. -/
theorem parse_stringify (h : IsJson round v) : parseJson round (stringify v) = some v := by
  have hread := reads_back h ((stringify v).length + 1) [] (Nat.le_succ _) (by
    intro c hc
    cases hc)
  rw [List.append_nil] at hread
  rw [parseJson, hread]
  rfl

/-! ## Lines -/

theorem newline_notMem_quoteUnit {u : ℕ} (hu : u < 65536) : '\n' ∉ quoteUnit u := by
  have hhex : ∀ n < 16, Remap.hexDigit n ≠ '\n' := by decide
  unfold quoteUnit
  split_ifs
  · simp only [loneEscape, List.mem_cons, List.not_mem_nil, or_false, not_or]
    exact ⟨by decide, by decide, (hhex _ (by omega)).symm, (hhex _ (by omega)).symm,
      (hhex _ (by omega)).symm, (hhex _ (by omega)).symm⟩
  · unfold Remap.escapeChar
    split
    case h_8 hne _ _ =>
      split_ifs with hlt
      · simp only [List.mem_cons, List.not_mem_nil, or_false, not_or]
        exact ⟨by decide, by decide, by decide, by decide, (hhex _ (by omega)).symm,
          (hhex _ (by omega)).symm⟩
      · exact fun hmem => hne (List.mem_singleton.mp hmem).symm
    all_goals decide

theorem newline_notMem_quoteUnits : ∀ {us : List ℕ}, (∀ u ∈ us, u < 65536) →
    '\n' ∉ quoteUnits us
  | [], _ => List.not_mem_nil
  | [u], h => newline_notMem_quoteUnit (h u List.mem_cons_self)
  | u :: v :: us, h => by
    have hvus := fun w hw => h w (List.mem_cons_of_mem _ hw)
    rw [quoteUnits]
    split_ifs with hpair
    · rw [Bool.and_eq_true] at hpair
      obtain ⟨c, hc, hplain, -⟩ := pair_char hpair.1 hpair.2
      have hrest := newline_notMem_quoteUnits fun w hw => hvus w (List.mem_cons_of_mem _ hw)
      rw [hc, List.mem_cons, not_or]
      refine ⟨?_, hrest⟩
      rintro rfl
      exact absurd hplain (by decide)
    · rw [List.mem_append, not_or]
      exact ⟨newline_notMem_quoteUnit (h u List.mem_cons_self), newline_notMem_quoteUnits hvus⟩

theorem newline_notMem_quoted (s : JsString) : '\n' ∉ s.quoted := by
  have hunits : ∀ u ∈ s.map UInt16.toNat, u < 65536 := by
    intro u hu
    obtain ⟨w, -, rfl⟩ := List.mem_map.mp hu
    exact w.toNat_lt
  rw [JsString.quoted, List.cons_append, List.mem_cons, List.mem_append, List.mem_singleton]
  rintro (h | h | h)
  · exact absurd h (by decide)
  · exact newline_notMem_quoteUnits hunits h
  · exact absurd h (by decide)

theorem newline_notMem_commaJoined {ts : List Text} (h : ∀ t ∈ ts, '\n' ∉ t) :
    '\n' ∉ commaJoined ts := by
  cases ts with
  | nil => exact List.not_mem_nil
  | cons t ts =>
    obtain ⟨ht, hts⟩ := List.forall_mem_cons.mp h
    rw [commaJoined_cons, List.mem_append, List.mem_flatMap]
    rintro (hmem | ⟨u, hu, hmem⟩)
    · exact ht hmem
    · exact (List.mem_cons.mp hmem).elim (by decide) (hts u hu)

/-- A value's text is one line. -/
theorem newline_notMem_stringify (v : JsValue) : '\n' ∉ stringify v := by
  have hlist : ∀ {c d : Char} {t : Text}, c ≠ '\n' → d ≠ '\n' → '\n' ∉ t →
      '\n' ∉ c :: t ++ [d] := by
    intro c d t hc hd ht hmem
    rcases List.mem_append.mp hmem with h | h
    · exact (List.mem_cons.mp h).elim (fun h => hc h.symm) ht
    · exact hd (List.mem_singleton.mp h).symm
  induction v using JsValue.induction with
  | undefined | null => decide
  | bool b => cases b <;> decide
  | num n =>
    rw [stringify]
    cases hn : n.text with
    | none => decide
    | some t =>
      intro hmem
      have hall := List.all_eq_true.mp (JsNumber.text_literal hn).1 _ hmem
      exact absurd hall (by decide)
  | str s => exact newline_notMem_quoted s
  | arr items ih =>
    rw [stringify, itemTexts_eq]
    refine hlist (by decide) (by decide) (newline_notMem_commaJoined ?_)
    rintro t ht
    obtain ⟨v, hv, rfl⟩ := List.mem_map.mp ht
    exact ih v hv
  | obj members ih =>
    rw [stringify]
    refine hlist (by decide) (by decide) (newline_notMem_commaJoined ?_)
    induction members with
    | nil => exact fun t ht => absurd ht List.not_mem_nil
    | cons m ms ihms =>
      obtain ⟨hm, hms⟩ := List.forall_mem_cons.mp ih
      rw [memberTexts]
      split_ifs
      · exact ihms hms
      · refine List.forall_mem_cons.mpr ⟨?_, ihms hms⟩
        rw [memberText, List.mem_append, List.mem_cons]
        rintro (h | h | h)
        · exact newline_notMem_quoted m.1 h
        · exact absurd h (by decide)
        · exact hm h

end Written

end MyBooks
