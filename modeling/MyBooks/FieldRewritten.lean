import MyBooks.FieldSpans

/-!
# A rewritten line is the object with one member changed

Where the tokenizer goes through every member up to the field, rewriting is exact if and only if no
other member has the name (`exact_iff_once`): only the first is rewritten, and the last is read.
-/

namespace MyBooks

namespace Remap

variable {name : Text} {p : Part Json} {xs ys : List (Part Json)} {tail after : Text}

/-! ## The member changed -/

/-- The colon without the blanks that are taken for the value's. -/
def keptColon (p : Part Json) : Text :=
  p.colon.takeWhile (· ≠ ':') ++ ':' :: (blanksBehind p.colon).takeWhile (· = ' ')

/-- The separator without the blanks that go with the value. -/
def keptSep (p : Part Json) : Text := if takesBlanks p then p.sep.dropWhile isWs else p.sep

def keptTail (p : Part Json) (ys : List (Part Json)) (tail : Text) : Text :=
  if takesBlanks p ∧ ys = [] then [] else tail

def withValue (p : Part Json) (v : Json) : Part Json := ⟨p.key, keptColon p, v, keptSep p⟩

theorem partsText_append (isObject : Bool) : ∀ xs ys : List (Part Json),
    partsText isObject (xs ++ ys) = partsText isObject xs ++ partsText isObject ys
  | [], _ => rfl
  | x :: xs, ys => by
    rw [List.cons_append, partsText, partsText_append isObject xs ys, partsText]
    simp only [List.append_assoc]

theorem partsWf_set {q : Part Json} (hkey : KeyWf true q.key q.colon) (hv : q.value.Wf)
    (hsep : SepWf ys.isEmpty q.sep) : ∀ {xs : List (Part Json)}, partsWf true (xs ++ p :: ys) →
    partsWf true (xs ++ q :: ys)
  | [], ⟨_, _, _, hys⟩ => ⟨hkey, hv, hsep, hys⟩
  | x :: xs, ⟨hx, hxv, hxsep, hrest⟩ => by
    refine ⟨hx, hxv, ?_, partsWf_set hkey hv hsep hrest⟩
    cases xs <;> exact hxsep

theorem partsKeysOk_iff : ∀ {ps : List (Part Json)},
    partsKeysOk true ps = true ↔ ∀ p ∈ ps, (unescape p.key).isSome = true ∧ p.value.keysOk = true
  | [] => by simp [partsKeysOk]
  | p :: ps => by
    rw [partsKeysOk, Bool.and_eq_true, Bool.and_eq_true, partsKeysOk_iff, List.forall_mem_cons]
    rfl

theorem partsWf_part : ∀ {xs : List (Part Json)}, partsWf true (xs ++ p :: ys) →
    KeyWf true p.key p.colon ∧ p.value.Wf ∧ SepWf ys.isEmpty p.sep
  | [], ⟨hkey, hv, hsep, _⟩ => ⟨hkey, hv, hsep⟩
  | _ :: _, ⟨_, _, _, hrest⟩ => partsWf_part hrest

theorem keptColon_append (hkey : KeyWf true p.key p.colon) :
    KeyWf true p.key (keptColon p) ∧ keptColon p ++ swallowed p = p.colon := by
  obtain ⟨hclosed, a, b, ha, hb, hcolon⟩ := hkey
  have hfirst : p.colon.takeWhile (· ≠ ':') = a := by
    have hplain : ∀ c ∈ a, (c ≠ ':') = true := by
      intro c hc
      have hws := List.all_eq_true.mp ha c hc
      simp only [ne_eq, eq_iff_iff, iff_true]
      rintro rfl
      cases hws
    rw [hcolon, List.takeWhile_append_of_pos (by simpa using hplain),
      List.takeWhile_cons_of_neg (by decide), List.append_nil]
  have hbehind : blanksBehind p.colon = b := by rw [hcolon, blanksBehind_around ha]
  constructor
  · refine ⟨hclosed, a, b.takeWhile (· = ' '), ha, ?_, by rw [keptColon, hfirst, hbehind]⟩
    exact List.all_eq_true.mpr fun c hc =>
      List.all_eq_true.mp hb c ((List.takeWhile_sublist _).mem hc)
  · rw [keptColon, swallowed, hfirst, hbehind, List.append_assoc, List.cons_append,
      List.takeWhile_append_dropWhile, hcolon]

theorem left_behind (after : Text) (hsep : SepWf ys.isEmpty p.sep) (htail : tail.all isWs = true) :
    left p (behind p.sep ys tail after) = behind (keptSep p) ys (keptTail p ys tail) after ∧
      SepWf ys.isEmpty (keptSep p) ∧ (keptTail p ys tail).all isWs = true := by
  unfold left keptSep keptTail
  by_cases htakes : takesBlanks p = true
  · rw [if_pos htakes, if_pos htakes]
    cases ys with
    | nil =>
      have hnone : p.sep = [] := hsep
      have hbehind : behind p.sep [] tail after = tail ++ '}' :: after := by rw [hnone]; rfl
      rw [if_pos ⟨htakes, rfl⟩, hbehind, hnone, (takeWhile_ws htail rfl after).2]
      exact ⟨rfl, rfl, rfl⟩
    | cons y ys =>
      obtain ⟨a, b, ha, hb, hcomma⟩ : Around ',' p.sep := hsep
      have hdrop := fun r => (takeWhile_ws ha (c := ',') rfl r).2
      rw [if_neg (fun h => by cases h.2), hcomma, behind, List.append_assoc, List.cons_append,
        hdrop, hdrop]
      exact ⟨rfl, ⟨[], b, rfl, hb, rfl⟩, htail⟩
  · rw [if_neg htakes, if_neg htakes, if_neg (fun h => htakes h.1)]
    exact ⟨rfl, hsep, htail⟩

/-! ## The line changed -/

namespace ObjectLine

variable {l : ObjectLine}

/-- The line behind the object's first blanks. -/
def inner (l : ObjectLine) : Text := partsText true l.parts ++ (l.tail ++ '}' :: l.after)

theorem text_eq (l : ObjectLine) : l.text = l.before ++ '{' :: (l.lead ++ l.inner) := by
  rw [text, Json.text, inner]
  simp only [opening, closing, if_true, List.cons_append, List.append_assoc, List.nil_append]

/-- The tokenizer comes to the first member. -/
theorem topLevelField_inner (l : ObjectLine) (name : Text) : ∃ passes seen,
    l.inner.length ≤ passes ∧ topLevelField l.text name = fieldFrom name passes seen l.inner := by
  have hopen : ∀ c ∈ l.before, (c ≠ '{') = true := fun c hc => by
    simpa using (ws_char (List.all_eq_true.mp l.before_ws c hc)).2.2.2.1
  have hdrop : l.text.dropWhile (· ≠ '{') = '{' :: (l.lead ++ l.inner) := by
    rw [text_eq, List.dropWhile_append_of_pos (by simpa using hopen)]
    rfl
  obtain ⟨passes, seen, hle, hskip⟩ := fieldFrom_skip name
    (l.text.takeWhile (· ≠ '{') ++ ['{']) (between_ws l.wf.1).skips
    (le_refl (l.lead ++ l.inner).length)
  refine ⟨passes, seen, hle, ?_⟩
  rw [topLevelField, hdrop]
  exact hskip

theorem topLevelField_whole {span : FieldSpan} (h : topLevelField l.text name = some (some span)) :
    span.before ++ (span.raw ++ span.after) = l.text := by
  rw [topLevelField] at h
  cases hdrop : l.text.dropWhile (· ≠ '{') with
  | nil =>
    rw [hdrop] at h
    cases h
  | cons c r =>
    rw [hdrop] at h
    have hwhole := fieldFrom_whole name _ _ _ h
    have hsplit := List.takeWhile_append_dropWhile (p := (· ≠ '{')) (l := l.text)
    rw [hdrop] at hsplit
    rw [hwhole, List.append_assoc, List.singleton_append, hsplit]

/-- Members before the first of a name. -/
theorem exists_first (h : l.Has name) : ∃ xs p ys, l.parts = xs ++ p :: ys ∧
    names name p = true ∧ ∀ x ∈ xs, names name x = false := by
  obtain ⟨q, hq, hname⟩ := h
  have hsome : (l.parts.find? (names name)).isSome = true :=
    List.find?_isSome.mpr ⟨q, hq, hname⟩
  obtain ⟨p, hp⟩ := Option.isSome_iff_exists.mp hsome
  obtain ⟨hp, xs, ys, hparts, hxs⟩ := List.find?_eq_some_iff_append.mp hp
  exact ⟨xs, p, ys, hparts, hp, fun x hx => by simpa using hxs x hx⟩

theorem topLevelField_none (hreached : reachedUpTo name l.parts = true) (h : ¬l.Has name) :
    topLevelField l.text name = some none := by
  obtain ⟨passes, seen, hle, heq⟩ := l.topLevelField_inner name
  rw [heq]
  have hnames : ∀ p ∈ l.parts, names name p = false := fun p hp =>
    Bool.eq_false_iff.mpr fun hname => h ⟨p, hp, hname⟩
  exact fieldFrom_none l.wf.2.2.2 l.keysOk hreached hnames (fun _ => l.wf.2.1) (between_ws l.wf.2.1)
    hle

theorem topLevelField_first (hreached : reachedUpTo name l.parts = true)
    (hparts : l.parts = xs ++ p :: ys) (hp : names name p = true)
    (hxs : ∀ x ∈ xs, names name x = false) : ∃ before, topLevelField l.text name =
      some (some ⟨before, swallowed p ++ (p.value.text ++ taken p (behind p.sep ys l.tail l.after)),
        left p (behind p.sep ys l.tail l.after)⟩) := by
  obtain ⟨passes, seen, hle, heq⟩ := l.topLevelField_inner name
  have hwf := l.wf.2.2.2
  have hok : partsKeysOk true l.parts = true := l.keysOk
  rw [heq]
  rw [inner, hparts] at hle ⊢
  rw [hparts] at hreached hwf hok
  exact fieldFrom_some hp hwf hok hreached hxs l.wf.2.1 hle

/-- The line with another value at one member. -/
def withMember (l : ObjectLine) (hparts : l.parts = xs ++ p :: ys) {v : Json} (hv : v.Wf)
    (hok : v.keysOk = true) : ObjectLine where
  before := l.before
  lead := l.lead
  parts := xs ++ withValue p v :: ys
  tail := keptTail p ys l.tail
  after := l.after
  before_ws := l.before_ws
  after_ws := l.after_ws
  wf := by
    have hwf := l.wf.2.2.2
    rw [hparts] at hwf
    obtain ⟨hkey, -, hsep⟩ := partsWf_part hwf
    obtain ⟨-, hsep', htail⟩ := left_behind l.after hsep l.wf.2.1
    refine ⟨l.wf.1, htail, fun h => ?_, partsWf_set (keptColon_append hkey).1 hv hsep' hwf⟩
    exact absurd h (by simp)
  keysOk := by
    have hkeys : ∀ q ∈ xs ++ p :: ys, (unescape q.key).isSome = true ∧ q.value.keysOk = true :=
      hparts ▸ partsKeysOk_iff.mp l.keysOk
    refine partsKeysOk_iff.mpr fun q hq => ?_
    rcases List.mem_append.mp hq with hq | hq
    · exact hkeys q (List.mem_append_left _ hq)
    · rcases List.mem_cons.mp hq with rfl | hq
      · exact ⟨(hkeys p (List.mem_append_right _ List.mem_cons_self)).1, hok⟩
      · exact hkeys q (List.mem_append_right _ (List.mem_cons_of_mem _ hq))

/-- Rewriting puts the text of the value in the place of the first member's. -/
theorem rewriteField_text (hreached : reachedUpTo name l.parts = true)
    (hparts : l.parts = xs ++ p :: ys) (hp : names name p = true)
    (hxs : ∀ x ∈ xs, names name x = false) {v : Json} (hv : v.Wf) (hok : v.keysOk = true) :
    rewriteField l.text name v.text = some (l.withMember hparts hv hok).text := by
  obtain ⟨before, hspan⟩ := topLevelField_first hreached hparts hp hxs
  have hwhole := topLevelField_whole hspan
  have hwf := l.wf.2.2.2
  rw [hparts] at hwf
  obtain ⟨hkey, -, hsep⟩ := partsWf_part hwf
  obtain ⟨hleft, -, -⟩ := left_behind l.after hsep l.wf.2.1
  have hcolon := (keptColon_append hkey).2
  -- what is before the value, from the text of the whole line
  have hbefore : before = l.before ++ '{' :: (l.lead ++
      (partsText true xs ++ head true p.key (keptColon p))) := by
    rw [text_eq, inner, hparts, partsText_append, List.append_assoc (partsText true xs),
      partsText_member] at hwhole
    have hhead : head true p.key p.colon = head true p.key (keptColon p) ++ swallowed p := by
      simp only [head, if_true, List.cons_append, List.append_assoc, hcolon]
    rw [hhead] at hwhole
    have hcut : before ++ (swallowed p ++ (p.value.text ++ behind p.sep ys l.tail l.after)) =
        l.before ++ '{' :: (l.lead ++ (partsText true xs ++ head true p.key (keptColon p))) ++
          (swallowed p ++ (p.value.text ++ behind p.sep ys l.tail l.after)) := by
      simp only [List.append_assoc, taken_append] at hwhole
      simpa only [List.append_assoc, List.cons_append] using hwhole
    exact List.append_cancel_right hcut
  rw [rewriteField, hspan]
  dsimp only
  rw [hleft, hbefore, text_eq, inner]
  simp only [withMember]
  rw [partsText_append, List.append_assoc (partsText true xs), partsText_member]
  simp only [withValue, List.append_assoc, List.cons_append]

/-! ## What is read -/

theorem lastField_set {ms ns : List (Text × JsonValue)} {k : Text} {w : JsonValue}
    {key : Option (List ℕ)} : lastField (ms ++ (k, w) :: ns) key =
      if unescape k = key ∧ ∀ n ∈ ns, unescape n.1 ≠ key then some w
      else lastField (ms ++ ns) key := by
  unfold lastField
  rw [List.filter_append, List.filter_append, List.filter_cons]
  by_cases hk : unescape k = key
  · rw [if_pos (by simpa using hk)]
    cases hns : ns.filter (fun m => unescape m.1 = key) with
    | nil =>
      have hnone : ∀ n ∈ ns, unescape n.1 ≠ key := fun n hn => by
        simpa using List.filter_eq_nil_iff.mp hns n hn
      rw [if_pos ⟨hk, hnone⟩, List.getLast?_concat]
      rfl
    | cons n ns' =>
      have hmem : n ∈ ns.filter (fun m => unescape m.1 = key) := by
        rw [hns]
        exact List.mem_cons_self
      have hn := List.mem_filter.mp hmem
      rw [if_neg (fun h => h.2 n hn.1 (by simpa using hn.2)), List.getLast?_append,
        List.getLast?_append]
      rfl
  · rw [if_neg (by simpa using hk), if_neg fun h => hk h.1]

theorem read_eq (hparts : l.parts = xs ++ p :: ys) (key : List ℕ) :
    l.read key = if unescape p.key = some key ∧ ∀ y ∈ ys, unescape y.key ≠ some key then
      some p.value.value
    else lastField ((xs ++ ys).map fun q => (q.key, q.value.value)) (some key) := by
  rw [read, hparts, membersValue_eq, List.map_append, List.map_cons, lastField_set,
    ← List.map_append]
  simp only [List.forall_mem_map]

theorem read_withMember (hparts : l.parts = xs ++ p :: ys) {v : Json} (hv : v.Wf)
    (hok : v.keysOk = true) (key : List ℕ) : (l.withMember hparts hv hok).read key =
      if unescape p.key = some key ∧ ∀ y ∈ ys, unescape y.key ≠ some key then some v.value
      else lastField ((xs ++ ys).map fun q => (q.key, q.value.value)) (some key) := by
  have hset : (l.withMember hparts hv hok).parts = xs ++ withValue p v :: ys := rfl
  exact read_eq hset key

/-- Lines with one text hold one object. -/
theorem read_of_text {l' : ObjectLine} (h : l.text = l'.text) : l.read = l'.read := by
  rw [text_eq, text_eq] at h
  obtain ⟨-, -, hrest⟩ := blanks_inj l.before_ws l'.before_ws rfl rfl h
  have hnode : ∀ m : ObjectLine, (Json.node true m.lead m.parts m.tail).text ++ m.after =
      '{' :: (m.lead ++ m.inner) := by
    intro m
    rw [Json.text, inner]
    simp only [opening, closing, if_true, List.cons_append, List.append_assoc, List.nil_append]
  have hstops : ∀ m : ObjectLine, Stops m.after := fun m c hc =>
    .inl (List.all_eq_true.mp m.after_ws c (List.mem_of_mem_head? hc))
  obtain ⟨htree, -⟩ := Json.text_inj _ l.wf (.node true l'.lead l'.parts l'.tail) l.after l'.after
    l'.wf (hstops l) (hstops l') (by rw [hnode, hnode, hrest])
  have hparts : l.parts = l'.parts := by injection htree
  funext key
  rw [read, read, hparts]

theorem once_iff (hparts : l.parts = xs ++ p :: ys) (hp : names name p = true)
    (hxs : ∀ x ∈ xs, names name x = false) : l.Once name ↔ ∀ y ∈ ys, names name y = false := by
  have hnone : xs.filter (names name) = [] := List.filter_eq_nil_iff.mpr fun x hx => by
    rw [hxs x hx]
    decide
  rw [Once, hparts, List.filter_append, hnone, List.nil_append, List.filter_cons, if_pos hp,
    List.length_cons, Nat.succ_le_succ_iff, Nat.le_zero, List.length_eq_zero_iff,
    List.filter_eq_nil_iff]
  simp only [Bool.not_eq_true]

/-- The field is found exactly if it is there. -/
theorem found_iff (hreached : reachedUpTo name l.parts = true) :
    topLevelField l.text name = some none ↔ ¬l.Has name := by
  refine ⟨fun hnone hhas => ?_, topLevelField_none hreached⟩
  obtain ⟨xs, p, ys, hparts, hp, hxs⟩ := exists_first hhas
  obtain ⟨before, hspan⟩ := topLevelField_first hreached hparts hp hxs
  rw [hnone] at hspan
  cases hspan

/-- A repeated member is read whatever the first is given. -/
theorem once_of_exact (hreached : reachedUpTo name l.parts = true) (hexact : l.Exact name) :
    l.Once name := by
  by_contra honce
  have hhas : l.Has name := by
    by_contra hhas
    have hnone : l.parts.filter (names name) = [] := List.filter_eq_nil_iff.mpr fun p hp hname =>
      hhas ⟨p, hp, hname⟩
    exact honce (by rw [Once, hnone]; exact Nat.zero_le 1)
  obtain ⟨xs, p, ys, hparts, hp, hxs⟩ := exists_first hhas
  rw [once_iff hparts hp hxs] at honce
  -- whatever the value, the later member is read
  have hlast : ∀ v : Json, (hv : v.Wf) → (hok : v.keysOk = true) → some v.value =
      lastField ((xs ++ ys).map fun q => (q.key, q.value.value)) (some (name.flatMap utf16)) := by
    intro v hv hok
    obtain ⟨l', htext, hread⟩ := hexact.2 hhas v hv hok
    rw [rewriteField_text hreached hparts hp hxs hv hok, Option.some.injEq] at htext
    have hname := hread (name.flatMap utf16)
    rw [← read_of_text htext, read_withMember, if_neg, if_pos rfl] at hname
    · exact hname.symm
    · rintro ⟨-, hys⟩
      exact honce fun y hy => by simpa [names] using hys y hy
  have hnull := hlast (.lit "null".toList) ⟨by decide, by decide⟩ rfl
  have htrue := hlast (.lit "true".toList) ⟨by decide, by decide⟩ rfl
  have heq := Option.some.inj (hnull.trans htrue.symm)
  simp [Json.value] at heq

theorem exact_of_once (hreached : reachedUpTo name l.parts = true) (honce : l.Once name) :
    l.Exact name := by
  refine ⟨found_iff hreached, fun hhas v hv hok => ?_⟩
  obtain ⟨xs, p, ys, hparts, hp, hxs⟩ := exists_first hhas
  rw [once_iff hparts hp hxs] at honce
  refine ⟨l.withMember hparts hv hok, rewriteField_text hreached hparts hp hxs hv hok,
    fun key => ?_⟩
  have hkey : unescape p.key = some (name.flatMap utf16) := by simpa [names] using hp
  rw [read_withMember, read_eq hparts]
  by_cases hname : key = name.flatMap utf16
  · subst hname
    have hys : ∀ y ∈ ys, unescape y.key ≠ some (name.flatMap utf16) := fun y hy => by
      simpa [names] using honce y hy
    rw [if_pos ⟨hkey, hys⟩, if_pos rfl]
  · have hother : unescape p.key ≠ some key := fun h =>
      hname (Option.some.inj (h.symm.trans hkey))
    rw [if_neg fun h => hother h.1, if_neg hname, if_neg fun h => hother h.1]

/-- Rewriting is exact, where the tokenizer goes through every member up to the field, if and only
if no other member has the name. -/
theorem exact_iff_once (l : ObjectLine) (name : Text) (hreached : reachedUpTo name l.parts = true) :
    l.Exact name ↔ l.Once name :=
  ⟨once_of_exact hreached, exact_of_once hreached⟩

/-! ## Lines -/

/-- The line of an object of two members, with `gap` before the first value. -/
def ofTwo (k₁ k₂ gap : Text) (v₁ v₂ : Json) (hgap : gap.all isWs = true)
    (hk : closed k₁ = true ∧ closed k₂ = true) (hv : v₁.Wf ∧ v₂.Wf)
    (hok : partsKeysOk true [⟨k₁, ':' :: gap, v₁, [',']⟩, ⟨k₂, [':'], v₂, []⟩] = true) :
    ObjectLine where
  before := []
  lead := []
  parts := [⟨k₁, ':' :: gap, v₁, [',']⟩, ⟨k₂, [':'], v₂, []⟩]
  tail := []
  after := []
  before_ws := rfl
  after_ws := rfl
  wf := ⟨rfl, rfl, fun _ => rfl, ⟨hk.1, [], gap, rfl, hgap, rfl⟩, hv.1, ⟨[], [], rfl, rfl, rfl⟩,
    ⟨hk.2, [], [], rfl, rfl, rfl⟩, hv.2, rfl, trivial⟩
  keysOk := hok

def tenantId : Text := "tenant_id".toList

def ofTenant (t : String) : Json := .str t.toList

/-- `{"id":1,"tenant_id":"a"}` -/
def rowLine₁ : ObjectLine :=
  ofTwo "id".toList tenantId [] (.lit ['1']) (ofTenant "a") rfl ⟨rfl, rfl⟩
    ⟨⟨by decide, by decide⟩, rfl⟩ (by decide)

theorem rowLine₁_exact : rowLine₁.Exact tenantId :=
  (exact_iff_once rowLine₁ tenantId (by decide)).mpr (by unfold Once; decide)

/-- A line whose field is not rewritten where the object is read. -/
theorem not_exact {l₀ : ObjectLine} {v : Json} (hhas : l.Has name) (hv : v.Wf)
    (hok : v.keysOk = true) (htext : rewriteField l.text name v.text = some l₀.text)
    (hread : l₀.read (name.flatMap utf16) ≠ some v.value) : ¬l.Exact name := by
  intro hexact
  obtain ⟨l', hrewritten, hl'⟩ := hexact.2 hhas v hv hok
  rw [htext, Option.some.injEq] at hrewritten
  have hname := hl' (name.flatMap utf16)
  rw [if_pos rfl, ← read_of_text hrewritten] at hname
  exact hread hname

/-- `{"tenant_id":"a","tenant_id":"b"}` with any text for `a`. -/
def twiceLine (a : String) (ha : closed a.toList = true) : ObjectLine :=
  ofTwo tenantId tenantId [] (ofTenant a) (ofTenant "b") rfl ⟨rfl, rfl⟩ ⟨ha, rfl⟩ rfl

/-- `{"x":1,"tenant_id":"a"}` with any text for `a`. -/
def noteObject (a : String) : Json :=
  .node true [] [⟨['x'], [':'], .lit ['1'], [',']⟩, ⟨tenantId, [':'], ofTenant a, []⟩] []

theorem noteObject_wf {a : String} (ha : closed a.toList = true) : (noteObject a).Wf :=
  ⟨rfl, rfl, fun _ => rfl, ⟨rfl, [], [], rfl, rfl, rfl⟩, ⟨by decide, by decide⟩,
    ⟨[], [], rfl, rfl, rfl⟩, ⟨rfl, [], [], rfl, rfl, rfl⟩, ha, rfl, trivial⟩

/-- The note's object behind a tab, then `"tenant_id":"b"`. -/
def tabLine (a : String) (ha : closed a.toList = true) : ObjectLine :=
  ofTwo "note".toList tenantId ['\t'] (noteObject a) (ofTenant "b") rfl ⟨rfl, rfl⟩
    ⟨noteObject_wf ha, rfl⟩ rfl

/-- Another tenant's id is read after the field was rewritten: where it stands twice, and where a
tab before an object lets the tokenizer go into it. -/
theorem tenant_notExact :
    ¬(twiceLine "a" rfl).Exact tenantId ∧ ¬(tabLine "a" rfl).Exact tenantId := by
  have hread : (some (ofTenant "b").value : Option JsonValue) ≠ some (ofTenant "new").value := by
    simp [ofTenant, Json.value]
  have htwice : rewriteField (twiceLine "a" rfl).text tenantId (ofTenant "new").text =
      some (twiceLine "new" rfl).text := by
    decide +kernel
  have htab : rewriteField (tabLine "a" rfl).text tenantId (ofTenant "new").text =
      some (tabLine "new" rfl).text := by
    decide +kernel
  have hnew : (ofTenant "new").Wf := rfl
  exact ⟨not_exact ⟨_, List.mem_cons_self, by decide⟩ hnew rfl htwice hread,
    not_exact ⟨_, List.mem_cons_of_mem _ List.mem_cons_self, by decide⟩ hnew rfl htab hread⟩

end ObjectLine

end Remap

end MyBooks
