import MyBooks.OneTree

/-!
# Rewriting a field of an archive row

The tokenizer on any line that is one JSON object. It finds the first member of a name, and takes
with a value the blanks it takes for the value's own (`taken`).
-/

namespace MyBooks

namespace Remap

/-- The field's raw text is replaced; `none` where it throws. -/
def rewriteField (line name rawJson : Text) : Option Text :=
  match topLevelField line name with
  | some (some span) => some (span.before ++ rawJson ++ span.after)
  | _ => none

/-- A line that is one JSON object, with the blanks around it. -/
structure ObjectLine where
  before : Text
  lead : Text
  parts : List (Part Json)
  tail : Text
  after : Text
  before_ws : before.all isWs = true
  after_ws : after.all isWs = true
  wf : (Json.node true lead parts tail).Wf
  keysOk : (Json.node true lead parts tail).keysOk = true

/-- Whether a member has the name. -/
def names (name : Text) (p : Part Json) : Bool := unescape p.key = some (name.flatMap utf16)

namespace ObjectLine

def text (l : ObjectLine) : Text := l.before ++ (Json.node true l.lead l.parts l.tail).text ++ l.after

/-- The object as it is read, the last of repeated members winning. -/
def read (l : ObjectLine) (key : List ℕ) : Option JsonValue :=
  lastField (membersValue l.parts) (some key)

def Has (l : ObjectLine) (name : Text) : Prop := ∃ p ∈ l.parts, names name p = true

/-- The name is found exactly if it is there, and rewriting gives it the value and keeps the rest. -/
def Exact (l : ObjectLine) (name : Text) : Prop :=
  (topLevelField l.text name = some none ↔ ¬l.Has name) ∧
    (l.Has name → ∀ v : Json, v.Wf → v.keysOk = true →
      ∃ l' : ObjectLine, rewriteField l.text name v.text = some l'.text ∧
        ∀ key, l'.read key = if key = name.flatMap utf16 then some v.value else l.read key)

/-- No two members have the name. -/
def Once (l : ObjectLine) (name : Text) : Prop := (l.parts.filter (names name)).length ≤ 1

end ObjectLine

/-! ## What the tokenizer takes for a value -/

def blanksBehind (colon : Text) : Text := (colon.dropWhile (· ≠ ':')).drop 1

/-- The blanks behind the colon that the tokenizer takes for the value's own. -/
def swallowed (p : Part Json) : Text := (blanksBehind p.colon).dropWhile (· = ' ')

/-- The tokenizer goes to the value's end: only spaces are before it, or it ends at the first comma or
brace anyway. -/
def reached (p : Part Json) : Bool :=
  (swallowed p).isEmpty || p.value.text.all fun c => c ≠ ',' && c ≠ '}'

/-- Every member up to the first of the name is gone through to its end. -/
def reachedUpTo (name : Text) : List (Part Json) → Bool
  | [] => true
  | p :: ps => reached p && (names name p || reachedUpTo name ps)

def isLit : Json → Bool
  | .lit _ => true
  | _ => false

/-- The blanks before `follow` go with the value. -/
def takesBlanks (p : Part Json) : Bool := !(swallowed p).isEmpty || isLit p.value

def taken (p : Part Json) (follow : Text) : Text :=
  if takesBlanks p then follow.takeWhile isWs else []

def left (p : Part Json) (follow : Text) : Text :=
  if takesBlanks p then follow.dropWhile isWs else follow

/-! ## Scanning -/

theorem scanString_append (s : Text) : (scanString s).1 ++ (scanString s).2 = s := by
  fun_induction scanString s with
  | case1 => rfl
  | case2 => rfl
  | case3 c r ih => simpa using ih
  | case4 r _ => rfl
  | case5 c r _ _ _ ih => exact congrArg (c :: ·) ih

theorem scanNested_append : ∀ (k d : ℕ) (s : Text),
    (scanNested k d s).1 ++ (scanNested k d s).2 = s
  | 0, _, _ => rfl
  | _ + 1, _, [] => rfl
  | k + 1, d, c :: r => by
    have hstring := scanString_append r
    rw [scanNested]
    split_ifs
    · rw [List.append_assoc, List.cons_append, scanNested_append k d, hstring]
    · exact congrArg (c :: ·) (scanNested_append k _ r)
    · rfl
    · exact congrArg (c :: ·) (scanNested_append k _ r)
    · exact congrArg (c :: ·) (scanNested_append k _ r)

theorem scanValue_append (s : Text) : (scanValue s).1 ++ (scanValue s).2 = s := by
  unfold scanValue
  split
  · rw [List.cons_append, scanString_append]
  · split_ifs
    · exact scanNested_append _ _ _
    · exact List.takeWhile_append_dropWhile
  · rfl

/-- A key, what is between it and the value, and the value are the text again. -/
theorem keyed_append (r : Text) :
    (scanString r).1 ++ ((scanString r).2.takeWhile (· ≠ ':') ++
      (((scanString r).2.dropWhile (· ≠ ':')).take 1 ++
        ((((scanString r).2.dropWhile (· ≠ ':')).drop 1).takeWhile (· = ' ') ++
          ((scanValue ((((scanString r).2.dropWhile (· ≠ ':')).drop 1).dropWhile (· = ' '))).1 ++
            (scanValue ((((scanString r).2.dropWhile (· ≠ ':')).drop 1).dropWhile (· = ' '))).2)))) =
      r := by
  rw [scanValue_append, List.takeWhile_append_dropWhile, List.take_append_drop,
    List.takeWhile_append_dropWhile, scanString_append]

/-- A span is cut out of the text. -/
theorem fieldFrom_whole (name : Text) : ∀ (passes : ℕ) (seen s : Text) {span : FieldSpan},
    fieldFrom name passes seen s = some (some span) →
      span.before ++ (span.raw ++ span.after) = seen ++ s
  | 0, _, _, _, h => by cases h
  | _ + 1, _, [], _, h => by cases h
  | passes + 1, seen, c :: r, span, h => by
    have hkeyed := keyed_append r
    rw [fieldFrom] at h
    split_ifs at h with hquote hclose
    · dsimp only at h
      cases hkey : unescapeKey (scanString r).1.dropLast with
      | none =>
        rw [hkey] at h
        cases h
      | some key =>
        rw [hkey] at h
        dsimp only at h
        split_ifs at h with hname
        · obtain rfl := Option.some.inj (Option.some.inj h)
          simp only [List.append_assoc, List.cons_append]
          rw [hkeyed]
        · have hrest := fieldFrom_whole name passes _ _ h
          rw [hrest]
          simp only [List.append_assoc, List.cons_append, List.takeWhile_append_dropWhile]
          rw [hkeyed]
    · cases h
    · have hrest := fieldFrom_whole name passes _ _ h
      rw [hrest, List.append_assoc, List.singleton_append]

/-- Characters that begin no key and close nothing are passed. -/
theorem fieldFrom_skip (name : Text) : ∀ {l r : Text} {passes : ℕ} (seen : Text),
    (∀ c ∈ l, c ≠ '"' ∧ c ≠ '}') → (l ++ r).length ≤ passes →
    ∃ passes' seen', r.length ≤ passes' ∧
      fieldFrom name passes seen (l ++ r) = fieldFrom name passes' seen' r
  | [], _, passes, seen, _, hp => ⟨passes, seen, hp, rfl⟩
  | _ :: _, _, 0, _, _, hp => absurd hp (by simp)
  | c :: l, r, passes + 1, seen, hl, hp => by
    obtain ⟨hquote, hclose⟩ := hl c List.mem_cons_self
    rw [List.cons_append, fieldFrom, if_neg hquote, if_neg hclose]
    exact fieldFrom_skip name _ (fun d hd => hl d (List.mem_cons_of_mem c hd))
      (Nat.le_of_succ_le_succ hp)

/-! ## One member -/

section Member

variable {p : Part Json} {follow : Text}

/-- What the tokenizer may meet behind a value: blanks, then a comma or the closing brace. -/
def Ends (follow : Text) : Prop :=
  ∃ w c r, follow = w ++ c :: r ∧ w.all isWs = true ∧ (c = ',' ∨ c = '}')

theorem taken_append (p : Part Json) (follow : Text) : taken p follow ++ left p follow = follow := by
  unfold taken left
  split_ifs
  · exact List.takeWhile_append_dropWhile
  · rfl

theorem ws_char {c : Char} (h : isWs c = true) : c ≠ ',' ∧ c ≠ '}' ∧ c ≠ '"' ∧ c ≠ '{' ∧ c ≠ '[' := by
  have hne : ∀ d : Char, isWs d = false → c ≠ d := by
    rintro d hd rfl
    rw [hd] at h
    cases h
  exact ⟨hne _ rfl, hne _ rfl, hne _ rfl, hne _ rfl, hne _ rfl⟩

theorem blanksBehind_around {a b : Text} (ha : a.all isWs = true) :
    blanksBehind (a ++ ':' :: b) = b := by
  have hcolon : ∀ c ∈ a, (c ≠ ':') = true := by
    intro c hc
    have hws := List.all_eq_true.mp ha c hc
    simp only [ne_eq, eq_iff_iff, iff_true]
    rintro rfl
    cases hws
  rw [blanksBehind, List.dropWhile_append_of_pos (by simpa using hcolon)]
  rfl

theorem swallowed_ws (hkey : KeyWf true p.key p.colon) : ∀ c ∈ swallowed p, isWs c = true := by
  obtain ⟨-, a, b, ha, hb, hcolon⟩ := hkey
  intro c hc
  rw [swallowed, hcolon, blanksBehind_around ha] at hc
  exact List.all_eq_true.mp hb c ((List.dropWhile_sublist _).mem hc)

theorem value_plain (hv : p.value.Wf) (hreached : reached p = true) (htakes : takesBlanks p = true) :
    ∀ c ∈ p.value.text, c ≠ ',' ∧ c ≠ '}' := by
  rw [reached, Bool.or_eq_true] at hreached
  rcases hreached with hempty | hall
  · rw [takesBlanks, hempty, Bool.not_true, Bool.false_or] at htakes
    cases hvalue : p.value with
    | str raw =>
      rw [hvalue] at htakes
      cases htakes
    | node isObject lead parts tail =>
      rw [hvalue] at htakes
      cases htakes
    | lit raw =>
      rw [hvalue] at hv
      intro c hc
      have hchar := literal_char (List.all_eq_true.mp hv.2 c hc)
      exact ⟨hchar.2.2.1, hchar.2.2.2.2.2.1⟩
  · intro c hc
    simpa using List.all_eq_true.mp hall c hc

/-- Where blanks go with the value, it is taken from a character that begins no string or bracket. -/
theorem taken_first (hv : p.value.Wf) (hkey : KeyWf true p.key p.colon)
    (htakes : takesBlanks p = true) :
    ∃ c t, swallowed p ++ p.value.text = c :: t ∧ c ≠ '"' ∧ c ≠ '{' ∧ c ≠ '[' := by
  cases hswallowed : swallowed p with
  | cons c t =>
    have hc := ws_char (swallowed_ws hkey c (by rw [hswallowed]; exact List.mem_cons_self))
    exact ⟨c, _, rfl, hc.2.2⟩
  | nil =>
    rw [takesBlanks, hswallowed] at htakes
    cases hvalue : p.value with
    | str raw =>
      rw [hvalue] at htakes
      cases htakes
    | node isObject lead parts tail =>
      rw [hvalue] at htakes
      cases htakes
    | lit raw =>
      rw [hvalue] at hv
      obtain ⟨c, raw, rfl⟩ := List.exists_cons_of_ne_nil hv.1
      obtain ⟨-, hq, -, ho, ho', -⟩ := literal_char (List.all_eq_true.mp hv.2 c List.mem_cons_self)
      exact ⟨c, raw, rfl, hq, ho, ho'⟩

/-- The tokenizer takes the value whole. -/
theorem scanValue_reached (hv : p.value.Wf) (hkey : KeyWf true p.key p.colon)
    (hreached : reached p = true) (hfollow : Ends follow) :
    scanValue (swallowed p ++ (p.value.text ++ follow)) =
      (swallowed p ++ (p.value.text ++ taken p follow), left p follow) := by
  obtain ⟨w, d, r, rfl, hw, hd⟩ := hfollow
  have hdws : isWs d = false := by rcases hd with rfl | rfl <;> rfl
  obtain ⟨htake, hdrop⟩ := takeWhile_ws hw hdws r
  by_cases htakes : takesBlanks p = true
  · obtain ⟨c, t, hct, hfirst⟩ := taken_first hv hkey htakes
    have htext : swallowed p ++ (p.value.text ++ (w ++ d :: r)) = c :: (t ++ w) ++ d :: r := by
      rw [← List.append_assoc, hct]
      simp only [List.cons_append, List.append_assoc]
    have hraw : swallowed p ++ (p.value.text ++ w) = c :: (t ++ w) := by
      rw [← List.append_assoc, hct, List.cons_append]
    have hplain : ∀ e ∈ c :: (t ++ w), e ≠ ',' ∧ e ≠ '}' := by
      intro e he
      rw [← hraw, List.mem_append, List.mem_append] at he
      rcases he with he | he | he
      · exact ⟨(ws_char (swallowed_ws hkey e he)).1, (ws_char (swallowed_ws hkey e he)).2.1⟩
      · exact value_plain hv hreached htakes e he
      · have hws := ws_char (List.all_eq_true.mp hw e he)
        exact ⟨hws.1, hws.2.1⟩
    rw [taken, left, if_pos htakes, if_pos htakes, htake, hdrop, htext, hraw]
    exact scanValue_plain hfirst hplain hd r
  · rw [taken, left, if_neg htakes, if_neg htakes, List.append_nil]
    simp only [takesBlanks, Bool.or_eq_true, not_or, Bool.not_eq_true, Bool.not_eq_false',
      List.isEmpty_iff] at htakes
    rw [htakes.1, List.nil_append, List.nil_append]
    refine scanValue_ended hv (fun raw hraw => ?_) _
    rw [hraw] at htakes
    cases htakes.2

theorem dropWhile_stop {f : Char → Bool} {c : Char} (hc : f c = false) (l : Text) {r : Text} :
    (l ++ c :: r).dropWhile f = l.dropWhile f ++ c :: r := by
  induction l with
  | nil => exact List.dropWhile_cons_of_neg (by rw [hc]; decide)
  | cons d l ih =>
    rw [List.cons_append, List.dropWhile_cons, List.dropWhile_cons, ih]
    split_ifs <;> rfl

/-- A key without a backslash stands for itself. -/
theorem unescape_noBackslash : ∀ {key : Text} {us : List ℕ}, '\\' ∉ key → unescape key = some us →
    us = key.flatMap utf16
  | [], _, _, h => (Option.some.inj h).symm
  | c :: key, us, hkey, h => by
    have hc : c ≠ '\\' := fun hc => hkey (hc ▸ List.mem_cons_self)
    have hrest : '\\' ∉ key := fun hmem => hkey (List.mem_cons_of_mem c hmem)
    rw [unescape.eq_4 _ _ (fun _ _ _ _ _ hcons => absurd hcons hc)
      (fun _ _ hcons => absurd hcons hc)] at h
    split_ifs at h
    cases hread : unescape key with
    | none =>
      rw [hread] at h
      cases h
    | some vs =>
      rw [hread] at h
      rw [List.flatMap_cons, ← unescape_noBackslash hrest hread]
      exact (Option.some.inj h).symm

theorem unescapeKey_eq {key : Text} (h : (unescape key).isSome = true) :
    unescapeKey key = unescape key := by
  unfold unescapeKey
  split_ifs with hkey
  · rfl
  · obtain ⟨us, hus⟩ := Option.isSome_iff_exists.mp h
    rw [hus, unescape_noBackslash hkey hus]

/-- One member: it is the one looked for, or is passed with the commas and spaces behind it. -/
theorem fieldFrom_member (hkey : KeyWf true p.key p.colon) (hok : (unescape p.key).isSome = true)
    (hv : p.value.Wf) (hreached : reached p = true) (hfollow : Ends follow) (name : Text)
    (passes : ℕ) (seen : Text) :
    ∃ before seen', fieldFrom name (passes + 1) seen
        (head true p.key p.colon ++ (p.value.text ++ follow)) =
      if names name p then
        some (some ⟨before, swallowed p ++ (p.value.text ++ taken p follow), left p follow⟩)
      else fieldFrom name passes seen'
        ((left p follow).dropWhile fun c => c = ',' || c = ' ') := by
  obtain ⟨a, b, ha, hb, hcolon⟩ := hkey.2
  have hscan := scanString_closed hkey.1 (p.colon ++ (p.value.text ++ follow))
  have hvalue := scanValue_reached hv hkey hreached hfollow
  have hbehind : ((p.colon ++ (p.value.text ++ follow)).dropWhile (· ≠ ':')).drop 1 =
      b ++ (p.value.text ++ follow) := by
    rw [hcolon, List.append_assoc, List.cons_append]
    exact blanksBehind_around ha
  have hswallowed : (b ++ (p.value.text ++ follow)).dropWhile (· = ' ') =
      swallowed p ++ (p.value.text ++ follow) := by
    obtain ⟨c, t, hct, hc, -⟩ := Json.text_cons hv
    have hspace : ¬c = ' ' := by
      rintro rfl
      cases hc
    rw [swallowed, hcolon, blanksBehind_around ha, hct, List.cons_append]
    exact dropWhile_stop (by simpa using hspace) b
  have hhead : head true p.key p.colon ++ (p.value.text ++ follow) =
      '"' :: (p.key ++ '"' :: (p.colon ++ (p.value.text ++ follow))) := by
    simp [head]
  rw [hhead, fieldFrom, if_pos rfl]
  dsimp only
  rw [hscan]
  dsimp only
  rw [List.dropLast_concat, unescapeKey_eq hok, hbehind, hswallowed, hvalue]
  obtain ⟨us, hus⟩ := Option.isSome_iff_exists.mp hok
  rw [names, hus]
  dsimp only
  by_cases hname : us = name.flatMap utf16
  · rw [if_pos hname]
    exact ⟨_, [], (if_pos (by simpa using hname)).symm⟩
  · rw [if_neg hname]
    exact ⟨[], _, (if_neg (by simpa using hname)).symm⟩

end Member

/-! ## All members -/

section Members

variable {name tail after : Text} {ps : List (Part Json)}

/-- What is behind the value of a member that `ps` follow. -/
def behind (sep : Text) (ps : List (Part Json)) (tail after : Text) : Text :=
  sep ++ (partsText true ps ++ (tail ++ '}' :: after))

theorem ends_behind (after : Text) {sep : Text} (hsep : SepWf ps.isEmpty sep)
    (htail : tail.all isWs = true) : Ends (behind sep ps tail after) := by
  cases ps with
  | nil =>
    obtain rfl : sep = [] := hsep
    exact ⟨tail, '}', after, rfl, htail, .inr rfl⟩
  | cons p ps =>
    obtain ⟨a, b, ha, -, rfl⟩ : Around ',' sep := hsep
    exact ⟨a, ',', _, by rw [behind, List.append_assoc, List.cons_append], ha, .inl rfl⟩

/-- Blanks and commas, which the tokenizer passes between members. -/
def Between (l : Text) : Prop := ∀ c ∈ l, isWs c = true ∨ c = ','

theorem between_ws {l : Text} (h : l.all isWs = true) : Between l :=
  fun c hc => .inl (List.all_eq_true.mp h c hc)

theorem Between.skips {l : Text} (h : Between l) : ∀ c ∈ l, c ≠ '"' ∧ c ≠ '}' := by
  intro c hc
  rcases h c hc with hws | rfl
  · exact ⟨(ws_char hws).2.2.1, (ws_char hws).2.1⟩
  · decide

/-- What is left behind a value leads to the next member or to the end. -/
theorem left_between {p : Part Json} {l r : Text} {d : Char} (hl : Between l)
    (hd : d = '"' ∨ d = '}') : ∃ l', Between l' ∧
      (left p (l ++ d :: r)).dropWhile (fun c => c = ',' || c = ' ') = l' ++ d :: r := by
  have hws : isWs d = false := by rcases hd with rfl | rfl <;> rfl
  have hgap : (d = ',' || d = ' ') = false := by rcases hd with rfl | rfl <;> rfl
  have hdrop : ∀ (f : Char → Bool) (m : Text), Between m → Between (m.dropWhile f) :=
    fun f m hm c hc => hm c ((List.dropWhile_sublist f).mem hc)
  unfold left
  split_ifs
  · exact ⟨_, hdrop _ _ (hdrop _ _ hl), by rw [dropWhile_stop hws, dropWhile_stop hgap]⟩
  · exact ⟨_, hdrop _ _ hl, dropWhile_stop hgap l⟩

theorem left_length (p : Part Json) (follow : Text) : (left p follow).length ≤ follow.length := by
  unfold left
  split_ifs
  · exact (List.dropWhile_sublist _).length_le
  · exact le_rfl

theorem partsText_member (p : Part Json) (ps : List (Part Json)) (tail after : Text) :
    partsText true (p :: ps) ++ (tail ++ '}' :: after) =
      head true p.key p.colon ++ (p.value.text ++ behind p.sep ps tail after) := by
  rw [partsText, behind]
  simp only [List.append_assoc]

/-- A member that is not the one looked for is passed. -/
theorem fieldFrom_past {p : Part Json} {passes : ℕ} (seen : Text) (hwf : partsWf true (p :: ps))
    (hok : (unescape p.key).isSome = true) (hreached : reached p = true)
    (hname : names name p = false) (htail : tail.all isWs = true)
    (hpasses : (partsText true (p :: ps) ++ (tail ++ '}' :: after)).length ≤ passes) :
    ∃ passes' seen' tail', (ps ≠ [] → tail' = tail) ∧ Between tail' ∧
      (partsText true ps ++ (tail' ++ '}' :: after)).length ≤ passes' ∧
      fieldFrom name passes seen (partsText true (p :: ps) ++ (tail ++ '}' :: after)) =
        fieldFrom name passes' seen' (partsText true ps ++ (tail' ++ '}' :: after)) := by
  obtain ⟨hkey, hv, hsep, hps⟩ := hwf
  rw [partsText_member] at hpasses ⊢
  cases passes with
  | zero => exact absurd hpasses (by simp [head])
  | succ passes =>
    obtain ⟨_, seen', hmember⟩ := fieldFrom_member hkey hok hv hreached
      (ends_behind after hsep htail) name passes seen
    rw [hmember, hname, if_neg (by decide)]
    have hlength : ((left p (behind p.sep ps tail after)).dropWhile
        fun c => c = ',' || c = ' ').length ≤ passes := by
      have hleft := left_length p (behind p.sep ps tail after)
      have hdrop := (List.dropWhile_sublist (l := left p (behind p.sep ps tail after))
        fun c => c = ',' || c = ' ').length_le
      simp only [head, if_true, List.length_append, List.length_cons] at hpasses
      omega
    cases ps with
    | nil =>
      have hnone : p.sep = [] := hsep
      obtain ⟨l, hl, hrest⟩ := left_between (p := p) (r := after) (between_ws htail) (.inr rfl)
      have hbehind : behind p.sep [] tail after = tail ++ '}' :: after := by rw [hnone]; rfl
      rw [hbehind, hrest] at hlength ⊢
      exact ⟨passes, seen', l, fun h => absurd rfl h, hl, hlength, rfl⟩
    | cons q qs =>
      obtain ⟨a, b, ha, hb, hcomma⟩ : Around ',' p.sep := hsep
      have hbetween : Between p.sep := by
        rw [hcomma]
        intro c hc
        rcases List.mem_append.mp hc with hc | hc
        · exact between_ws ha c hc
        · exact (List.mem_cons.mp hc).elim .inr (between_ws hb c)
      obtain ⟨r, hr⟩ : ∃ r, partsText true (q :: qs) ++ (tail ++ '}' :: after) = '"' :: r :=
        ⟨_, rfl⟩
      obtain ⟨l, hl, hrest⟩ := left_between (p := p) (r := r) hbetween (.inl rfl)
      have hbehind : behind p.sep (q :: qs) tail after = p.sep ++ '"' :: r := by rw [behind, hr]
      rw [hbehind, hrest] at hlength ⊢
      obtain ⟨passes', seen'', hle, hskip⟩ := fieldFrom_skip name seen' hl.skips hlength
      exact ⟨passes', seen'', tail, fun _ => rfl, between_ws htail, by rw [hr]; exact hle,
        by rw [hr]; exact hskip⟩

theorem keysOk_cons {p : Part Json} (h : partsKeysOk true (p :: ps) = true) :
    (unescape p.key).isSome = true ∧ partsKeysOk true ps = true := by
  rw [partsKeysOk, Bool.and_eq_true, Bool.and_eq_true] at h
  exact ⟨h.1.1, h.2⟩

theorem fieldFrom_none : ∀ {ps : List (Part Json)} {tail : Text} {passes : ℕ} {seen : Text},
    partsWf true ps → partsKeysOk true ps = true → reachedUpTo name ps = true →
    (∀ p ∈ ps, names name p = false) → (ps ≠ [] → tail.all isWs = true) → Between tail →
    (partsText true ps ++ (tail ++ '}' :: after)).length ≤ passes →
    fieldFrom name passes seen (partsText true ps ++ (tail ++ '}' :: after)) = some none
  | [], tail, passes, seen, _, _, _, _, _, hbetween, hpasses => by
    obtain ⟨passes', seen', hle, hskip⟩ := fieldFrom_skip name seen hbetween.skips hpasses
    rw [partsText, List.nil_append, hskip]
    cases passes' with
    | zero => exact absurd hle (by simp)
    | succ passes' => exact fieldFrom_blank name passes' seen' after
  | p :: ps, tail, passes, seen, hwf, hok, hreached, hnames, htail, _, hpasses => by
    have hp := hnames p List.mem_cons_self
    rw [reachedUpTo, hp, Bool.false_or, Bool.and_eq_true] at hreached
    obtain ⟨passes', seen', tail', heq, hbetween, hle, hpast⟩ := fieldFrom_past seen hwf
      (keysOk_cons hok).1 hreached.1 hp (htail (List.cons_ne_nil p ps)) hpasses
    rw [hpast]
    refine fieldFrom_none hwf.2.2.2 (keysOk_cons hok).2 hreached.2
      (fun q hq => hnames q (List.mem_cons_of_mem p hq)) (fun hne => ?_) hbetween hle
    rw [heq hne]
    exact htail (List.cons_ne_nil p ps)

theorem fieldFrom_some {p : Part Json} {ys : List (Part Json)} (hp : names name p = true) :
    ∀ {xs : List (Part Json)} {passes : ℕ} {seen : Text},
    partsWf true (xs ++ p :: ys) → partsKeysOk true (xs ++ p :: ys) = true →
    reachedUpTo name (xs ++ p :: ys) = true → (∀ x ∈ xs, names name x = false) →
    tail.all isWs = true →
    (partsText true (xs ++ p :: ys) ++ (tail ++ '}' :: after)).length ≤ passes →
    ∃ before, fieldFrom name passes seen (partsText true (xs ++ p :: ys) ++ (tail ++ '}' :: after)) =
      some (some ⟨before, swallowed p ++ (p.value.text ++ taken p (behind p.sep ys tail after)),
        left p (behind p.sep ys tail after)⟩)
  | [], passes, seen, hwf, hok, hreached, _, htail, hpasses => by
    obtain ⟨hkey, hv, hsep, hps⟩ := hwf
    rw [List.nil_append, reachedUpTo, Bool.and_eq_true] at hreached
    rw [List.nil_append, partsText_member] at hpasses ⊢
    cases passes with
    | zero => exact absurd hpasses (by simp [head])
    | succ passes =>
      obtain ⟨before, _, hmember⟩ := fieldFrom_member hkey (keysOk_cons hok).1 hv hreached.1
        (ends_behind after hsep htail) name passes seen
      rw [hmember, if_pos hp]
      exact ⟨before, rfl⟩
  | x :: xs, passes, seen, hwf, hok, hreached, hxs, htail, hpasses => by
    have hx := hxs x List.mem_cons_self
    rw [List.cons_append] at hwf hok hreached hpasses ⊢
    rw [reachedUpTo, hx, Bool.false_or, Bool.and_eq_true] at hreached
    obtain ⟨passes', seen', tail', heq, -, hle, hpast⟩ := fieldFrom_past seen hwf
      (keysOk_cons hok).1 hreached.1 hx htail hpasses
    obtain rfl : tail = tail' := (heq (by simp)).symm
    rw [hpast]
    exact fieldFrom_some hp hwf.2.2.2 (keysOk_cons hok).2 hreached.2
      (fun y hy => hxs y (List.mem_cons_of_mem x hy)) htail hle

end Members

end Remap

end MyBooks
