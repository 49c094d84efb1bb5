import MyBooks.Entries
import MyBooks.EscapesKept
import MyBooks.NumberText
import MyBooks.ReorderKeys

/-!
# Canonical JSON

A value is written with the keys of its objects in order and nothing between the tokens. Writing a
value is writing its tree with the keys sorted (`canonicalize_sorted`), and a tree is read off its
text (`readable`).
-/

namespace MyBooks

/-- A string, as code units of UTF-16. -/
abbrev JsString := List UInt16

def jsString (s : String) : JsString := s.toList.flatMap fun c => (utf16 c).map Nat.toUInt16

/-- A value; an object lists its own members, each key once. -/
inductive JsValue
  | undefined
  | null
  | bool (b : Bool)
  | num (n : JsNumber)
  | str (s : JsString)
  | arr (items : List JsValue)
  | obj (members : List (JsString × JsValue))

namespace JsValue

@[elab_as_elim]
theorem induction {P : JsValue → Prop} (undefined : P undefined) (null : P null)
    (bool : ∀ b, P (bool b)) (num : ∀ n, P (num n)) (str : ∀ s, P (str s))
    (arr : ∀ items, (∀ v ∈ items, P v) → P (arr items))
    (obj : ∀ members, (∀ m ∈ members, P m.2) → P (obj members)) (v : JsValue) : P v := by
  refine @JsValue.rec P (fun vs => ∀ v ∈ vs, P v) (fun ms => ∀ m ∈ ms, P m.2) (fun m => P m.2)
    undefined null bool num str arr obj ?_ ?_ ?_ ?_ ?_ v
  · exact fun v hv => absurd hv List.not_mem_nil
  · exact fun v vs hv hvs w hw => (List.mem_cons.mp hw).elim (fun h => h ▸ hv) (hvs w)
  · exact fun m hm => absurd hm List.not_mem_nil
  · exact fun m ms hm hms n hn => (List.mem_cons.mp hn).elim (fun h => h ▸ hm) (hms n)
  · exact fun _ _ h => h

def isUndefined : JsValue → Bool
  | undefined => true
  | _ => false

end JsValue

/-! ## Strings -/

def loneEscape (u : ℕ) : Text :=
  ['\\', 'u', Remap.hexDigit (u / 4096), Remap.hexDigit (u / 256 % 16),
    Remap.hexDigit (u / 16 % 16), Remap.hexDigit (u % 16)]

def quoteUnit (u : ℕ) : Text :=
  if isHighSurrogate u || isLowSurrogate u then loneEscape u else Remap.escapeChar (Char.ofNat u)

/-- `QuoteJSONString`, between the quotes. A surrogate alone is escaped. -/
def quoteUnits : List ℕ → Text
  | [] => []
  | [u] => quoteUnit u
  | u :: v :: us =>
    if isHighSurrogate u && isLowSurrogate v then
      Char.ofNat (0x10000 + (u - 0xD800) * 0x400 + (v - 0xDC00)) :: quoteUnits us
    else quoteUnit u ++ quoteUnits (v :: us)

def JsString.quoted (s : JsString) : Text := '"' :: quoteUnits (s.map UInt16.toNat) ++ ['"']

/-! ## Writing -/

/-- Members in the order of the code units of their keys. -/
def sortKeys {α : Type} (ms : List (JsString × α)) : List (JsString × α) :=
  ms.insertionSort fun a b => a.1.map UInt16.toNat ≤ b.1.map UInt16.toNat

def commaJoined (parts : List Text) : Text := [','].intercalate parts

def memberText (key : JsString) (value : Text) : Text := key.quoted ++ ':' :: value

mutual

def canonicalize : JsValue → Except String Text
  | .null => .ok "null".toList
  | .str s => .ok s.quoted
  | .num n => n.text.elim (.error "canonicalize: non-finite number") .ok
  | .bool b => .ok (if b then "true" else "false").toList
  | .arr items => do
    let parts ← (canonicalItems items).mapM id
    return '[' :: commaJoined parts ++ [']']
  | .obj members => do
    let parts ← (sortKeys (canonicalMembers members)).mapM fun m => m.2.map (memberText m.1)
    return '{' :: commaJoined parts ++ ['}']
  | .undefined => .error "canonicalize: unsupported type undefined"

def canonicalItems : List JsValue → List (Except String Text)
  | [] => []
  | v :: vs => canonicalize v :: canonicalItems vs

/-- What each member is written as. Members that are undefined are left out. -/
def canonicalMembers : List (JsString × JsValue) → List (JsString × Except String Text)
  | [] => []
  | (k, v) :: ms =>
    if v.isUndefined then canonicalMembers ms else (k, canonicalize v) :: canonicalMembers ms

end

example : ((canonicalize (.obj [("b".toList.map fun c => c.toNat.toUInt16, .arr [.null, .bool true]),
    ("a".toList.map fun c => c.toNat.toUInt16, .str [0xD800])])).toOption.map String.ofList) =
      some "\x7b\"a\":\"\\ud800\",\"b\":[null,true]\x7d" := by
  decide +kernel

mutual

/-- The keys of every object in order, without the members that are undefined. -/
def JsValue.sorted : JsValue → JsValue
  | .arr items => .arr (itemsSorted items)
  | .obj members => .obj (sortKeys (membersSorted members))
  | .undefined => .undefined
  | .null => .null
  | .bool b => .bool b
  | .num n => .num n
  | .str s => .str s

def itemsSorted : List JsValue → List JsValue
  | [] => []
  | v :: vs => v.sorted :: itemsSorted vs

def membersSorted : List (JsString × JsValue) → List (JsString × JsValue)
  | [] => []
  | (k, v) :: ms => if v.isUndefined then membersSorted ms else (k, v.sorted) :: membersSorted ms

end

/-! ## Reading a string off its text -/

section Strings

open Remap

theorem hexVal_hexDigit : ∀ n < 16, hexVal (hexDigit n) = some n := by decide

theorem unescape_loneEscape {u : ℕ} (hu : u < 65536) (t : Text) :
    unescape (loneEscape u ++ t) = (unescape t).map (u :: ·) := by
  have hhex : hex4 (hexDigit (u / 4096)) (hexDigit (u / 256 % 16)) (hexDigit (u / 16 % 16))
      (hexDigit (u % 16)) = some u := by
    rw [hex4, hexVal_hexDigit _ (by omega), hexVal_hexDigit _ (by omega),
      hexVal_hexDigit _ (by omega), hexVal_hexDigit _ (by omega)]
    simp only [Option.bind_eq_bind, Option.bind_some, Option.pure_def, Option.some.injEq]
    omega
  simp only [loneEscape, List.cons_append, List.nil_append, unescape]
  rw [hhex]
  cases unescape t <;> rfl

theorem closed_loneEscape {u : ℕ} (hu : u < 65536) (t : Text) :
    closed (loneEscape u ++ t) = closed t := by
  have hdigit : ∀ n < 16, hexDigit n ≠ '\\' ∧ hexDigit n ≠ '"' := by decide
  obtain ⟨h1, h1'⟩ := hdigit (u / 4096) (by omega)
  obtain ⟨h2, h2'⟩ := hdigit (u / 256 % 16) (by omega)
  obtain ⟨h3, h3'⟩ := hdigit (u / 16 % 16) (by omega)
  obtain ⟨h4, h4'⟩ := hdigit (u % 16) (by omega)
  calc closed (loneEscape u ++ t)
      = closed (hexDigit (u / 4096) :: hexDigit (u / 256 % 16) :: hexDigit (u / 16 % 16) ::
        hexDigit (u % 16) :: t) := rfl
    _ = closed t := by
      rw [closed_cons h1 h1', closed_cons h2 h2', closed_cons h3 h3', closed_cons h4 h4']

theorem unescape_quoteUnit {u : ℕ} (hu : u < 65536) (t : Text) :
    unescape (quoteUnit u ++ t) = (unescape t).map (u :: ·) := by
  unfold quoteUnit
  split_ifs with hlone
  · exact unescape_loneEscape hu t
  · rw [Bool.not_eq_true, Bool.or_eq_false_iff] at hlone
    have hnat := toNat_ofNat hu hlone.1 hlone.2
    rw [unescape_escapeChar, utf16, hnat, if_pos hu]
    rfl

theorem closed_quoteUnit {u : ℕ} (hu : u < 65536) (t : Text) :
    closed (quoteUnit u ++ t) = closed t := by
  unfold quoteUnit
  split_ifs
  · exact closed_loneEscape hu t
  · exact closed_escapeChar _ t

theorem pair_char {u v : ℕ} (hu : isHighSurrogate u = true) (hv : isLowSurrogate v = true) :
    ∃ c, Char.ofNat (0x10000 + (u - 0xD800) * 0x400 + (v - 0xDC00)) = c ∧ 0x10000 ≤ c.toNat ∧
      utf16 c = [u, v] := by
  simp only [isHighSurrogate, isLowSurrogate, Bool.and_eq_true, decide_eq_true_eq] at hu hv
  obtain ⟨n, hn⟩ : ∃ n, n = 0x10000 + (u - 0xD800) * 0x400 + (v - 0xDC00) := ⟨_, rfl⟩
  have hvalid : n.isValidChar := by
    unfold Nat.isValidChar
    omega
  have hnat : (Char.ofNat n).toNat = n := by
    rw [Char.ofNat, dif_pos hvalid]
    rfl
  have hunits : utf16 (Char.ofNat n) =
      [0xD800 + (n - 0x10000) / 0x400, 0xDC00 + (n - 0x10000) % 0x400] := by
    unfold utf16
    rw [hnat, if_neg (by omega)]
  refine ⟨Char.ofNat n, by rw [hn], by omega, ?_⟩
  have hhigh : 0xD800 + (n - 0x10000) / 0x400 = u := by omega
  have hlow : 0xDC00 + (n - 0x10000) % 0x400 = v := by omega
  rw [hunits, hhigh, hlow]

theorem plain_char {c : Char} (h : 0x10000 ≤ c.toNat) : c ≠ '\\' ∧ c ≠ '"' ∧ ¬c.toNat < 32 := by
  refine ⟨?_, ?_, by omega⟩
  all_goals
    rintro rfl
    exact absurd h (by decide)

theorem unescape_plain {c : Char} (h : 0x10000 ≤ c.toNat) (t : Text) :
    unescape (c :: t) = (unescape t).map (utf16 c ++ ·) := by
  obtain ⟨hs, hq, hlt⟩ := plain_char h
  rw [unescape.eq_4, if_neg (by rintro (h | h | h); exacts [hs h, hq h, hlt h])]
  · cases unescape t <;> rfl
  · intro _ _ _ _ _ h
    exact absurd h hs
  · intro _ _ h
    exact absurd h hs

/-- The code units are read off the text between the quotes. -/
theorem unescape_quoteUnits : ∀ {us : List ℕ}, (∀ u ∈ us, u < 65536) →
    unescape (quoteUnits us) = some us ∧ closed (quoteUnits us) = true
  | [], _ => ⟨rfl, rfl⟩
  | [u], h => by
    have hu := h u List.mem_cons_self
    have hread := unescape_quoteUnit hu []
    have hclosed := closed_quoteUnit hu []
    rw [List.append_nil] at hread hclosed
    exact ⟨hread, hclosed⟩
  | u :: v :: us, h => by
    have hu := h u List.mem_cons_self
    have hvus := fun w hw => h w (List.mem_cons_of_mem _ hw)
    rw [quoteUnits]
    split_ifs with hpair
    · rw [Bool.and_eq_true] at hpair
      obtain ⟨c, hc, hplain, hunits⟩ := pair_char hpair.1 hpair.2
      obtain ⟨hread, hclosed⟩ :=
        unescape_quoteUnits fun w hw => hvus w (List.mem_cons_of_mem _ hw)
      obtain ⟨hs, hq, -⟩ := plain_char hplain
      rw [hc, unescape_plain hplain, hread, closed_cons hs hq, hclosed, hunits]
      exact ⟨rfl, rfl⟩
    · obtain ⟨hread, hclosed⟩ := unescape_quoteUnits hvus
      rw [unescape_quoteUnit hu, hread, closed_quoteUnit hu, hclosed]
      exact ⟨rfl, rfl⟩

/-- A string is read off its text, up to the closing quote. -/
theorem quoted_inj {s t : JsString} {r r' : Text} (h : s.quoted ++ r = t.quoted ++ r') :
    s = t ∧ r = r' := by
  have hunits : ∀ s : JsString, ∀ u ∈ s.map UInt16.toNat, u < 65536 := by
    intro s u hu
    obtain ⟨w, -, rfl⟩ := List.mem_map.mp hu
    exact w.toNat_lt
  obtain ⟨hs, hsclosed⟩ := unescape_quoteUnits (hunits s)
  obtain ⟨ht, htclosed⟩ := unescape_quoteUnits (hunits t)
  have hbody : quoteUnits (s.map UInt16.toNat) ++ '"' :: r =
      quoteUnits (t.map UInt16.toNat) ++ '"' :: r' := by
    simpa [JsString.quoted] using h
  have hscan := scanString_closed hsclosed r
  rw [hbody, scanString_closed htclosed] at hscan
  obtain ⟨hraw, hrest⟩ := Prod.mk.inj hscan
  rw [List.append_cancel_right hraw, hs, Option.some.injEq] at ht
  exact ⟨List.map_injective_iff.mpr (fun _ _ => UInt16.toNat.inj) ht, hrest.symm⟩

end Strings

/-! ## Reading a value off its text -/

section Lists

variable {α β : Type}

def defined (ms : List (JsString × JsValue)) : List (JsString × JsValue) :=
  ms.filter fun m => !m.2.isUndefined

theorem canonicalItems_eq : ∀ vs : List JsValue, canonicalItems vs = vs.map canonicalize
  | [] => rfl
  | v :: vs => by rw [canonicalItems, canonicalItems_eq vs, List.map_cons]

theorem canonicalMembers_eq : ∀ ms : List (JsString × JsValue),
    canonicalMembers ms = (defined ms).map fun m => (m.1, canonicalize m.2)
  | [] => rfl
  | (k, v) :: ms => by
    rw [canonicalMembers, canonicalMembers_eq ms, defined, defined, List.filter_cons]
    cases v.isUndefined <;> rfl

theorem itemsSorted_eq : ∀ vs : List JsValue, itemsSorted vs = vs.map JsValue.sorted
  | [] => rfl
  | v :: vs => by rw [itemsSorted, itemsSorted_eq vs, List.map_cons]

theorem membersSorted_eq : ∀ ms : List (JsString × JsValue),
    membersSorted ms = (defined ms).map fun m => (m.1, m.2.sorted)
  | [] => rfl
  | (k, v) :: ms => by
    rw [membersSorted, membersSorted_eq ms, defined, defined, List.filter_cons]
    cases v.isUndefined <;> rfl

/-- The order of the keys is the same whatever the members hold. -/
theorem sortKeys_map (f : α → β) (ms : List (JsString × α)) :
    sortKeys (ms.map fun m => (m.1, f m.2)) = (sortKeys ms).map fun m => (m.1, f m.2) :=
  (List.map_insertionSort _ _ (fun m : JsString × α => (m.1, f m.2)) ms
    fun _ _ _ _ => Iff.rfl).symm

instance : Std.Total fun a b : JsString × α => a.1.map UInt16.toNat ≤ b.1.map UInt16.toNat :=
  ⟨fun a b => le_total (a.1.map UInt16.toNat) (b.1.map UInt16.toNat)⟩

instance : IsTrans (JsString × α) fun a b => a.1.map UInt16.toNat ≤ b.1.map UInt16.toNat :=
  ⟨fun _ _ _ => le_trans⟩

theorem sortKeys_sortKeys (ms : List (JsString × α)) : sortKeys (sortKeys ms) = sortKeys ms :=
  List.Pairwise.insertionSort_eq (List.pairwise_insertionSort _ ms)

theorem isUndefined_sorted (v : JsValue) : v.sorted.isUndefined = v.isUndefined := by
  cases v <;> rfl

/-- A value is written as its sorted tree is. -/
theorem canonicalize_sorted (v : JsValue) : canonicalize v.sorted = canonicalize v := by
  induction v using JsValue.induction with
  | undefined | null | bool b | num n | str s => rfl
  | arr items ih =>
    have hitems : (items.map JsValue.sorted).map canonicalize = items.map canonicalize := by
      rw [List.map_map]
      exact List.map_congr_left ih
    rw [JsValue.sorted, canonicalize, canonicalize, canonicalItems_eq, canonicalItems_eq,
      itemsSorted_eq, hitems]
  | obj members ih =>
    have hdefined : defined (sortKeys (membersSorted members)) =
        sortKeys (membersSorted members) := by
      refine List.filter_eq_self.mpr fun m hm => ?_
      have hm := (List.perm_insertionSort _ _).mem_iff.mp hm
      rw [membersSorted_eq] at hm
      obtain ⟨m', hm', rfl⟩ := List.mem_map.mp hm
      rw [isUndefined_sorted]
      exact (List.mem_filter.mp hm').2
    have hmembers : ((defined members).map fun m => (m.1, canonicalize m.2.sorted)) =
        (defined members).map fun m => (m.1, canonicalize m.2) :=
      List.map_congr_left fun m hm => by rw [ih m (List.mem_of_mem_filter hm)]
    rw [JsValue.sorted, canonicalize, canonicalize, canonicalMembers_eq, canonicalMembers_eq,
      hdefined, sortKeys_map, sortKeys_sortKeys, ← sortKeys_map, membersSorted_eq, List.map_map,
      ← hmembers]
    rfl

theorem mapM_ok_iff {ε : Type} {f : α → Except ε β} : ∀ {as : List α} {bs : List β},
    as.mapM f = .ok bs ↔ List.Forall₂ (fun a b => f a = .ok b) as bs
  | [], bs => by
    rw [List.mapM_nil, pure_eq_ok, List.forall₂_nil_left_iff]
    exact eq_comm
  | a :: as, bs => by
    rw [List.mapM_cons, bind_eq_ok, List.forall₂_cons_left_iff]
    constructor
    · rintro ⟨b, hb, h⟩
      obtain ⟨bs', hbs, h⟩ := bind_eq_ok.mp h
      exact ⟨b, bs', hb, mapM_ok_iff.mp hbs, (pure_eq_ok.mp h).symm⟩
    · rintro ⟨b, bs', hb, hbs, rfl⟩
      exact ⟨b, hb, bind_eq_ok.mpr ⟨bs', mapM_ok_iff.mpr hbs, rfl⟩⟩

theorem commaJoined_cons (p : Text) (ps : List Text) :
    commaJoined (p :: ps) = p ++ ps.flatMap (',' :: ·) := by
  induction ps generalizing p with
  | nil => simp [commaJoined]
  | cons q ps ih =>
    have hstep : commaJoined (p :: q :: ps) = p ++ ',' :: commaJoined (q :: ps) := by
      simp [commaJoined, List.intercalate]
    rw [hstep, ih, List.flatMap_cons, List.cons_append]

/-- What is written is read off its text, before a comma or what closes a list. -/
def ReadsOff (w : α → Text → Prop) (R : α → α → Prop) (a : α) : Prop :=
  ∀ b s t r r', w a s → w b t → Remap.Stops r → Remap.Stops r' → s ++ r = t ++ r' → R a b ∧ r = r'

/-- No text begins as the list closes. -/
def Opens (close : Char) (w : α → Text → Prop) : Prop :=
  ∀ a s, w a s → ∃ c r, s = c :: r ∧ c ≠ close

variable {close : Char} {w : α → Text → Prop} {R : α → α → Prop}

theorem stops_close (hclose : close = ']' ∨ close = '}') (ps : List Text) (r : Text) :
    Remap.Stops (ps.flatMap (',' :: ·) ++ close :: r) := by
  intro c hc
  cases ps with
  | nil =>
    obtain rfl := Option.mem_some.mp hc
    exact .inr (.inr (hclose.elim .inr .inl))
  | cons p ps =>
    obtain rfl := Option.mem_some.mp hc
    exact .inr (.inl rfl)

theorem tails_inj (hclose : close = ']' ∨ close = '}') : ∀ {as bs : List α} {ps qs : List Text}
    {r r' : Text}, (∀ a ∈ as, ReadsOff w R a) → List.Forall₂ w as ps →
    List.Forall₂ w bs qs →
    ps.flatMap (',' :: ·) ++ close :: r = qs.flatMap (',' :: ·) ++ close :: r' →
    List.Forall₂ R as bs ∧ r = r'
  | [], [], _, _, r, r', _, .nil, .nil, h => ⟨.nil, List.tail_eq_of_cons_eq h⟩
  | [], b :: bs, _, _, r, r', _, .nil, .cons hb hbs, h => by
    have hhead : close = ',' := List.head_eq_of_cons_eq h
    rcases hclose with rfl | rfl <;> cases hhead
  | a :: as, [], _, _, r, r', _, .cons ha has, .nil, h => by
    have hhead : ',' = close := List.head_eq_of_cons_eq h
    rcases hclose with rfl | rfl <;> cases hhead
  | a :: as, b :: bs, p :: ps, q :: qs, r, r', hall, .cons ha has, .cons hb hbs, h => by
    obtain ⟨hread, hall⟩ := List.forall_mem_cons.mp hall
    rw [List.flatMap_cons, List.flatMap_cons, List.cons_append, List.cons_append,
      List.cons_append, List.cons_append, List.append_assoc, List.append_assoc] at h
    obtain ⟨hab, hrest⟩ := hread b p q _ _ ha hb (stops_close hclose ps r)
      (stops_close hclose qs r') (List.tail_eq_of_cons_eq h)
    obtain ⟨habs, hr⟩ := tails_inj hclose hall has hbs hrest
    exact ⟨.cons hab habs, hr⟩

/-- A list is read off its text, up to what closes it. -/
theorem commaJoined_inj (hclose : close = ']' ∨ close = '}') (hopens : Opens close w)
    {as bs : List α} {ps qs : List Text} {r r' : Text} (has : ∀ a ∈ as, ReadsOff w R a)
    (hps : List.Forall₂ w as ps) (hqs : List.Forall₂ w bs qs)
    (h : commaJoined ps ++ close :: r = commaJoined qs ++ close :: r') :
    List.Forall₂ R as bs ∧ r = r' := by
  cases hps with
  | nil =>
    cases hqs with
    | nil => exact ⟨.nil, List.tail_eq_of_cons_eq h⟩
    | @cons b q bs qs hb hqs =>
      obtain ⟨c, t, rfl, hc⟩ := hopens b q hb
      rw [commaJoined_cons] at h
      exact absurd (List.head_eq_of_cons_eq h).symm hc
  | @cons a p as ps ha hps =>
    cases hqs with
    | nil =>
      obtain ⟨c, t, rfl, hc⟩ := hopens a p ha
      rw [commaJoined_cons] at h
      exact absurd (List.head_eq_of_cons_eq h) hc
    | @cons b q bs qs hb hqs =>
      obtain ⟨hread, has⟩ := List.forall_mem_cons.mp has
      rw [commaJoined_cons, commaJoined_cons, List.append_assoc, List.append_assoc] at h
      obtain ⟨hab, hrest⟩ := hread b p q _ _ ha hb (stops_close hclose ps r)
        (stops_close hclose qs r') h
      obtain ⟨habs, hr⟩ := tails_inj hclose has hps hqs hrest
      exact ⟨.cons hab habs, hr⟩

end Lists

section Values

variable {v w : JsValue} {s t r r' : Text}

/-- What a value is, as its text's first character tells. -/
inductive JsKind
  | none | null | true | false | num | str | arr | obj
  deriving DecidableEq

def JsValue.kind : JsValue → JsKind
  | .undefined => .none
  | .null => .null
  | .bool b => if b then .true else .false
  | .num _ => .num
  | .str _ => .str
  | .arr _ => .arr
  | .obj _ => .obj

def kindOf (c : Char) : JsKind :=
  if c = 'n' then .null
  else if c = 't' then .true
  else if c = 'f' then .false
  else if c = '"' then .str
  else if c = '[' then .arr
  else if c = '{' then .obj
  else if c = '-' ∨ c.isDigit = true then .num
  else .none

theorem kindOf_number {c : Char} (h : c = '-' ∨ c.isDigit = true) : kindOf c = .num := by
  have hne : ∀ d : Char, ¬(d = '-' ∨ d.isDigit = true) → c ≠ d := by
    rintro d hd rfl
    exact hd h
  rw [kindOf, if_neg (hne _ (by decide)), if_neg (hne _ (by decide)), if_neg (hne _ (by decide)),
    if_neg (hne _ (by decide)), if_neg (hne _ (by decide)), if_neg (hne _ (by decide)), if_pos h]

theorem canonicalize_head (h : canonicalize v = .ok s) :
    ∃ c r, s = c :: r ∧ kindOf c = v.kind ∧ v.kind ≠ .none := by
  cases v with
  | undefined => cases h
  | null =>
    obtain rfl := Except.ok.inj h
    exact ⟨_, _, rfl, rfl, by decide⟩
  | bool b =>
    obtain rfl := Except.ok.inj h
    cases b <;> exact ⟨_, _, rfl, rfl, by decide⟩
  | num n =>
    rw [canonicalize] at h
    cases hn : n.text with
    | none =>
      rw [hn] at h
      cases h
    | some t =>
      rw [hn] at h
      obtain rfl := Except.ok.inj h
      obtain ⟨c, r, hcr, hc⟩ := (JsNumber.text_literal hn).2
      exact ⟨c, r, hcr, kindOf_number hc, by simp [JsValue.kind]⟩
  | str u =>
    obtain rfl := Except.ok.inj h
    exact ⟨_, _, rfl, rfl, by simp [JsValue.kind]⟩
  | arr items =>
    obtain ⟨parts, -, h⟩ := bind_eq_ok.mp h
    obtain rfl := pure_eq_ok.mp h
    exact ⟨_, _, rfl, rfl, by simp [JsValue.kind]⟩
  | obj members =>
    obtain ⟨parts, -, h⟩ := bind_eq_ok.mp h
    obtain rfl := pure_eq_ok.mp h
    exact ⟨_, _, rfl, rfl, by simp [JsValue.kind]⟩

/-- A value's sorted tree is read off its text. -/
def Readable (v : JsValue) : Prop :=
  ∀ w s t r r', canonicalize v = .ok s → canonicalize w = .ok t → Remap.Stops r →
    Remap.Stops r' → s ++ r = t ++ r' → v.sorted = w.sorted ∧ r = r'

/-- Values whose texts begin alike are of one kind. -/
theorem kind_eq (hv : canonicalize v = .ok s) (hw : canonicalize w = .ok t)
    (h : s ++ r = t ++ r') : v.kind = w.kind := by
  obtain ⟨c, s', rfl, hc, -⟩ := canonicalize_head hv
  obtain ⟨d, t', rfl, hd, -⟩ := canonicalize_head hw
  have hcd : c = d := List.head_eq_of_cons_eq h
  rw [← hc, ← hd, hcd]

theorem opens_items : Opens ']' fun v t => canonicalize v = .ok t := by
  intro v s hs
  obtain ⟨c, r, hcr, hkind, hne⟩ := canonicalize_head hs
  refine ⟨c, r, hcr, ?_⟩
  rintro rfl
  exact hne hkind.symm

theorem opens_members : Opens '}' fun (m : JsString × JsValue) t =>
    (canonicalize m.2).map (memberText m.1) = .ok t := by
  intro m s hs
  obtain ⟨u, -, rfl⟩ := map_eq_ok.mp hs
  exact ⟨'"', _, rfl, by decide⟩

/-- A member is read off its text: its key, the colon and its value. -/
theorem Readable.member {m : JsString × JsValue} (h : Readable m.2) :
    ReadsOff (fun m t => (canonicalize m.2).map (memberText m.1) = .ok t)
      (fun m n : JsString × JsValue => (m.1, m.2.sorted) = (n.1, n.2.sorted)) m := by
  intro n s t r r' hs ht hr hr' heq
  obtain ⟨u, hu, rfl⟩ := map_eq_ok.mp hs
  obtain ⟨u', hu', rfl⟩ := map_eq_ok.mp ht
  rw [memberText, memberText, List.append_assoc, List.append_assoc] at heq
  obtain ⟨hkey, hrest⟩ := quoted_inj heq
  obtain ⟨hvalue, hrr⟩ := h n.2 u u' r r' hu hu' hr hr' (List.tail_eq_of_cons_eq hrest)
  exact ⟨Prod.ext hkey hvalue, hrr⟩

theorem Readable.items {items items' : List JsValue} (h : ∀ v ∈ items, Readable v)
    (hv : canonicalize (.arr items) = .ok s) (hw : canonicalize (.arr items') = .ok t)
    (heq : s ++ r = t ++ r') : (JsValue.arr items).sorted = (JsValue.arr items').sorted ∧ r = r' := by
  have hparts : ∀ {items : List JsValue} {s : Text}, canonicalize (.arr items) = .ok s →
      ∃ ps, List.Forall₂ (fun v t => canonicalize v = .ok t) items ps ∧
        s = '[' :: commaJoined ps ++ [']'] := by
    intro items s hs
    obtain ⟨ps, hps, hs⟩ := bind_eq_ok.mp hs
    rw [canonicalItems_eq, mapM_ok_iff, List.forall₂_map_left_iff] at hps
    exact ⟨ps, hps, (pure_eq_ok.mp hs).symm⟩
  obtain ⟨ps, hps, rfl⟩ := hparts hv
  obtain ⟨qs, hqs, rfl⟩ := hparts hw
  simp only [List.cons_append, List.append_assoc, List.nil_append] at heq
  obtain ⟨hall, hr⟩ := commaJoined_inj (R := fun v w => v.sorted = w.sorted) (.inl rfl) opens_items
    h hps hqs (List.tail_eq_of_cons_eq heq)
  have hmap : items.map JsValue.sorted = items'.map JsValue.sorted :=
    List.forall₂_eq_eq_eq ▸ List.forall₂_map_left_iff.mpr (List.forall₂_map_right_iff.mpr hall)
  rw [JsValue.sorted, JsValue.sorted, itemsSorted_eq, itemsSorted_eq, hmap]
  exact ⟨rfl, hr⟩

theorem Readable.members {members members' : List (JsString × JsValue)}
    (h : ∀ m ∈ members, Readable m.2) (hv : canonicalize (.obj members) = .ok s)
    (hw : canonicalize (.obj members') = .ok t) (heq : s ++ r = t ++ r') :
    (JsValue.obj members).sorted = (JsValue.obj members').sorted ∧ r = r' := by
  have hparts : ∀ {members : List (JsString × JsValue)} {s : Text},
      canonicalize (.obj members) = .ok s →
      ∃ ps, List.Forall₂ (fun m t => (canonicalize m.2).map (memberText m.1) = .ok t)
        (sortKeys (defined members)) ps ∧ s = '{' :: commaJoined ps ++ ['}'] := by
    intro members s hs
    obtain ⟨ps, hps, hs⟩ := bind_eq_ok.mp hs
    rw [canonicalMembers_eq, sortKeys_map, mapM_ok_iff, List.forall₂_map_left_iff] at hps
    exact ⟨ps, hps, (pure_eq_ok.mp hs).symm⟩
  obtain ⟨ps, hps, rfl⟩ := hparts hv
  obtain ⟨qs, hqs, rfl⟩ := hparts hw
  simp only [List.cons_append, List.append_assoc, List.nil_append] at heq
  have hread : ∀ m ∈ sortKeys (defined members), ReadsOff
      (fun m t => (canonicalize m.2).map (memberText m.1) = .ok t)
      (fun m n : JsString × JsValue => (m.1, m.2.sorted) = (n.1, n.2.sorted)) m := by
    intro m hm
    have hmem := (List.perm_insertionSort _ _).mem_iff.mp hm
    exact (h m (List.mem_of_mem_filter hmem)).member
  obtain ⟨hall, hr⟩ := commaJoined_inj (.inr rfl) opens_members hread hps hqs
    (List.tail_eq_of_cons_eq heq)
  have hmap : ((sortKeys (defined members)).map fun m => (m.1, m.2.sorted)) =
      (sortKeys (defined members')).map fun m => (m.1, m.2.sorted) :=
    List.forall₂_eq_eq_eq ▸ List.forall₂_map_left_iff.mpr (List.forall₂_map_right_iff.mpr hall)
  rw [JsValue.sorted, JsValue.sorted, membersSorted_eq, membersSorted_eq, sortKeys_map,
    sortKeys_map, hmap]
  exact ⟨rfl, hr⟩

theorem number_inj {m n : JsNumber} (hm : m.text = some s) (hn : n.text = some t)
    (hr : Remap.Stops r) (hr' : Remap.Stops r') (h : s ++ r = t ++ r') : m = n ∧ r = r' := by
  have hs := Remap.takeWhile_literal (JsNumber.text_literal hm).1 hr
  have ht := Remap.takeWhile_literal (JsNumber.text_literal hn).1 hr'
  rw [h] at hs
  have hst := hs.1.symm.trans ht.1
  subst hst
  exact ⟨JsNumber.text_inj hm hn, hs.2.symm.trans ht.2⟩

/-- What a value is, with the keys in order, is read off its text. -/
theorem readable (v : JsValue) : Readable v := by
  induction v using JsValue.induction with
  | undefined =>
    intro w s t r r' hv
    cases hv
  | null =>
    intro w s t r r' hv hw _ _ h
    have hkind := kind_eq hv hw h
    cases w with
    | null =>
      obtain rfl := (Except.ok.inj hv).symm.trans (Except.ok.inj hw)
      exact ⟨rfl, List.append_cancel_left h⟩
    | bool b => cases b <;> cases hkind
    | _ => cases hkind
  | bool b =>
    intro w s t r r' hv hw _ _ h
    have hkind := kind_eq hv hw h
    cases w with
    | bool b' =>
      have hb : b = b' := by
        revert hkind
        cases b <;> cases b' <;> decide
      subst hb
      obtain rfl := (Except.ok.inj hv).symm.trans (Except.ok.inj hw)
      exact ⟨rfl, List.append_cancel_left h⟩
    | _ => cases b <;> cases hkind
  | num n =>
    intro w s t r r' hv hw hr hr' h
    have hkind := kind_eq hv hw h
    cases w with
    | num n' =>
      have htext : ∀ {n : JsNumber} {s : Text}, canonicalize (.num n) = .ok s →
          n.text = some s := by
        intro n s hs
        rw [canonicalize] at hs
        cases hn : n.text with
        | none =>
          rw [hn] at hs
          cases hs
        | some t =>
          rw [hn] at hs
          rw [Except.ok.inj hs]
      obtain ⟨hnn, hrr⟩ := number_inj (htext hv) (htext hw) hr hr' h
      exact ⟨congrArg JsValue.num hnn, hrr⟩
    | bool b => cases b <;> cases hkind
    | _ => cases hkind
  | str u =>
    intro w s t r r' hv hw _ _ h
    have hkind := kind_eq hv hw h
    cases w with
    | str u' =>
      obtain rfl := Except.ok.inj hv
      obtain rfl := Except.ok.inj hw
      obtain ⟨rfl, hr⟩ := quoted_inj h
      exact ⟨rfl, hr⟩
    | bool b => cases b <;> cases hkind
    | _ => cases hkind
  | arr items ih =>
    intro w s t r r' hv hw _ _ h
    have hkind := kind_eq hv hw h
    cases w with
    | arr items' => exact Readable.items ih hv hw h
    | bool b => cases b <;> cases hkind
    | _ => cases hkind
  | obj members ih =>
    intro w s t r r' hv hw _ _ h
    have hkind := kind_eq hv hw h
    cases w with
    | obj members' => exact Readable.members ih hv hw h
    | bool b => cases b <;> cases hkind
    | _ => cases hkind

end Values

end MyBooks
