import MyBooks.CanonicalJson

/-!
# The input of a request's hash

A request is hashed as the canonical JSON of its method, route, parameters, query, company, If-Match
and body. Members that are undefined are dropped, and from the body those whose keys look secret.
Secret-looking keys are what `SECRET_KEY_RE` matches. The digest itself is left out, and so are
values no JSON body holds, such as a `Date`.

What a request says is its `PlainJson`: an object is what it has under each key. Two texts are equal
exactly when the requests say the same (`requestHashInput_identifies`).
-/

namespace MyBooks

/-! ## Secret-looking keys -/

/-- The words with `_?` between them. -/
def joinings : List String → List (List Char)
  | [] => [[]]
  | [w] => [w.toList]
  | w :: ws => (joinings ws).flatMap fun rest => [w.toList ++ rest, w.toList ++ '_' :: rest]

/-- `EXEMPT_KEYS` -/
def exemptKeys : List (List Char) :=
  [["file", "hash"], ["source", "file", "hash"], ["numbers", "hash"], ["content", "hash"],
    ["access", "token", "expires", "at"], ["token", "expires", "at"], ["monthly", "token", "limit"],
    ["tfa", "totp", "verified"], ["tfa", "totp", "last", "step"], ["credential", "id"]].flatMap
      joinings

/-- The words anywhere in a key. -/
def secretWords : List (List Char) :=
  [["secret"], ["password"], ["passwd"], ["passphrase"], ["api", "key"], ["encrypted"], ["hash"],
    ["otp"], ["refresh"], ["credential"], ["remote", "backup", "config"],
    ["intake", "settings"]].flatMap joinings

/-- A code unit under the `i` flag: only the letters of ASCII have two cases. -/
def foldCase (u : UInt16) : ℕ := if 65 ≤ u.toNat ∧ u.toNat ≤ 90 then u.toNat + 32 else u.toNat

def isLineTerminator (u : ℕ) : Bool := u = 0x0A || u = 0x0D || u = 0x2028 || u = 0x2029

def codes (s : List Char) : List ℕ := s.map Char.toNat

/-- What the pattern takes behind `.*`. -/
def secretAt (rest : List ℕ) : Bool :=
  (secretWords.any fun w => (codes w).isPrefixOf rest) ||
    ((codes "token".toList).isPrefixOf rest && rest.drop 5 ≠ codes "s".toList) ||
    rest = codes "pass".toList

/-- `.*` passes no end of a line. -/
def secretFrom : List ℕ → Bool
  | [] => false
  | u :: us => secretAt (u :: us) || (!isLineTerminator u && secretFrom us)

def isSecretKey (key : JsString) : Bool :=
  let folded := key.map foldCase
  (exemptKeys.all fun k => codes k ≠ folded) && secretFrom folded

example : ["clientSecret", "tokens", "refresh_token", "fileHash", "fileHashSecret", "pass",
    "passport", "api_KEY", "amount"].map (fun k => isSecretKey (jsString k)) =
      [true, false, true, false, true, true, false, true, false] := by
  decide +kernel

/-! ## The input -/

mutual

/-- An array's undefined items become null, an object's undefined members go. -/
def JsValue.jsonOnly (strip : Bool) : JsValue → JsValue
  | .arr items => .arr (itemsOnly strip items)
  | .obj members => .obj (membersOnly strip members)
  | .undefined => .undefined
  | .null => .null
  | .bool b => .bool b
  | .num n => .num n
  | .str s => .str s

def itemsOnly (strip : Bool) : List JsValue → List JsValue
  | [] => []
  | v :: vs => (if v.isUndefined then .null else v.jsonOnly strip) :: itemsOnly strip vs

def membersOnly (strip : Bool) : List (JsString × JsValue) → List (JsString × JsValue)
  | [] => []
  | (k, v) :: ms =>
    if v.isUndefined || (strip && isSecretKey k) then membersOnly strip ms
    else (k, v.jsonOnly strip) :: membersOnly strip ms

end

mutual

/-- Every object has each key once. -/
def JsValue.Distinct : JsValue → Prop
  | .arr items => itemsDistinct items
  | .obj members => (Entries.keys members).Nodup ∧ membersDistinct members
  | _ => True

def itemsDistinct : List JsValue → Prop
  | [] => True
  | v :: vs => v.Distinct ∧ itemsDistinct vs

def membersDistinct : List (JsString × JsValue) → Prop
  | [] => True
  | (_, v) :: ms => v.Distinct ∧ membersDistinct ms

end

/-- What is hashed of a request. The objects are JavaScript's, so each has a key once. -/
structure RequestHashInput where
  method : JsString
  route : JsString
  params : Option (List (JsString × JsValue))
  query : Option (List (JsString × JsValue))
  companyId : Option JsString
  ifMatch : Option JsString
  body : JsValue
  params_distinct : (JsValue.obj (params.getD [])).Distinct
  query_distinct : (JsValue.obj (query.getD [])).Distinct
  body_distinct : body.Distinct

/-- A body that is absent or null counts as an empty object. -/
def bodyOrEmpty : JsValue → JsValue
  | .undefined | .null => .obj []
  | v => v

def JsValue.ofOption (s : Option JsString) : JsValue := s.elim .null .str

def one : JsNumber := .finite ⟨false, ['1'], 1, List.all_eq_true.mp rfl, by decide, by decide, by decide⟩

/-- The object that is written, where `upper` is `toUpperCase`. -/
def RequestHashInput.hashed (upper : JsString → JsString) (input : RequestHashInput) : JsValue :=
  let method := upper input.method
  .obj [(jsString "v", .num one), (jsString "method", .str method),
    (jsString "route", .str (method ++ jsString " " ++ input.route)),
    (jsString "params", (JsValue.obj (input.params.getD [])).jsonOnly false),
    (jsString "query", (JsValue.obj (input.query.getD [])).jsonOnly false),
    (jsString "companyId", .ofOption input.companyId),
    (jsString "ifMatch", .ofOption input.ifMatch),
    (jsString "body", (bodyOrEmpty input.body).jsonOnly true)]

def requestHashInput (upper : JsString → JsString) (input : RequestHashInput) :
    Except String Text :=
  canonicalize (input.hashed upper)

/-! ## What a request says -/

/-- A JSON value, its objects without an order. -/
inductive PlainJson
  | null
  | bool (b : Bool)
  | num (n : JsNumber)
  | str (s : JsString)
  | arr (items : List PlainJson)
  | obj (member : JsString → Option PlainJson)

mutual

/-- What a value says without its undefined members and, if `strip`, its secret ones. -/
def JsValue.plain (strip : Bool) : JsValue → PlainJson
  | .arr items => .arr (itemsPlain strip items)
  | .obj members => .obj (Entries.get? (membersPlain strip members))
  | .undefined | .null => .null
  | .bool b => .bool b
  | .num n => .num n
  | .str s => .str s

def itemsPlain (strip : Bool) : List JsValue → List PlainJson
  | [] => []
  | v :: vs => v.plain strip :: itemsPlain strip vs

def membersPlain (strip : Bool) : List (JsString × JsValue) → List (JsString × PlainJson)
  | [] => []
  | (k, v) :: ms =>
    if v.isUndefined || (strip && isSecretKey k) then membersPlain strip ms
    else (k, v.plain strip) :: membersPlain strip ms

end

/-- Two requests that differ in nothing that is hashed. -/
structure SameRequest (upper : JsString → JsString) (a b : RequestHashInput) : Prop where
  method : upper a.method = upper b.method
  route : a.route = b.route
  params : (JsValue.obj (a.params.getD [])).plain false =
    (JsValue.obj (b.params.getD [])).plain false
  query : (JsValue.obj (a.query.getD [])).plain false = (JsValue.obj (b.query.getD [])).plain false
  companyId : a.companyId = b.companyId
  ifMatch : a.ifMatch = b.ifMatch
  body : (bodyOrEmpty a.body).plain true = (bodyOrEmpty b.body).plain true

/-! ## Sorted keys and looked-up keys -/

section Keys

variable {α β : Type}

theorem nodup_of_keys {l : List (JsString × α)} (h : (Entries.keys l).Nodup) : l.Nodup :=
  List.Nodup.of_map Prod.fst h

theorem keys_inj {l : List (JsString × α)} (h : (Entries.keys l).Nodup) {a b : JsString × α}
    (ha : a ∈ l) (hb : b ∈ l) (hkey : a.1 = b.1) : a = b := List.inj_on_of_nodup_map h ha hb hkey

/-- Objects have their keys sorted alike exactly when they hold the same under each key. -/
theorem sortKeys_eq_iff {l l' : List (JsString × α)} (h : (Entries.keys l).Nodup)
    (h' : (Entries.keys l').Nodup) :
    sortKeys l = sortKeys l' ↔ ∀ k, Entries.get? l k = Entries.get? l' k := by
  have hperm : sortKeys l = sortKeys l' ↔ l.Perm l' := by
    constructor
    · intro heq
      have hright : (sortKeys l).Perm l' := by
        rw [heq]
        exact List.perm_insertionSort _ l'
      exact (List.perm_insertionSort _ l).symm.trans hright
    · intro hperm
      have hsorted : (sortKeys l).Perm (sortKeys l') :=
        ((List.perm_insertionSort _ l).trans hperm).trans (List.perm_insertionSort _ l').symm
      refine hsorted.eq_of_pairwise (fun a b ha hb hab hba => ?_)
        (List.pairwise_insertionSort _ l) (List.pairwise_insertionSort _ l')
      have ha := (List.perm_insertionSort _ _).mem_iff.mp ha
      have hb := hperm.mem_iff.mpr ((List.perm_insertionSort _ _).mem_iff.mp hb)
      have hunits : a.1.map UInt16.toNat = b.1.map UInt16.toNat := le_antisymm hab hba
      exact keys_inj h ha hb (List.map_injective_iff.mpr (fun _ _ => UInt16.toNat.inj) hunits)
  rw [hperm, List.perm_ext_iff_of_nodup (nodup_of_keys h) (nodup_of_keys h')]
  constructor
  · intro hmem k
    refine Option.ext fun v => ?_
    rw [Entries.get?_eq_some h, Entries.get?_eq_some h']
    exact hmem (k, v)
  · rintro hget ⟨k, v⟩
    rw [← Entries.get?_eq_some h, ← Entries.get?_eq_some h', hget k]

theorem get?_map (f : α → β) (l : List (JsString × α)) (k : JsString) :
    Entries.get? (l.map fun m => (m.1, f m.2)) k = (Entries.get? l k).map f := by
  induction l with
  | nil => rfl
  | cons m l ih =>
    rw [List.map_cons, Entries.get?_cons, Entries.get?_cons, ih]
    split_ifs <;> rfl

theorem keys_map (f : α → β) (l : List (JsString × α)) :
    Entries.keys (l.map fun m => (m.1, f m.2)) = Entries.keys l := by
  rw [Entries.keys, List.map_map]
  rfl

end Keys

/-! ## The tree that is written -/

variable {strip : Bool}

/-- What an array item or a member is written as. -/
def written (strip : Bool) (v : JsValue) : JsValue :=
  (if v.isUndefined then JsValue.null else v.jsonOnly strip).sorted

def kept (strip : Bool) (members : List (JsString × JsValue)) : List (JsString × JsValue) :=
  members.filter fun m => !(m.2.isUndefined || (strip && isSecretKey m.1))

theorem isUndefined_jsonOnly (v : JsValue) : (v.jsonOnly strip).isUndefined = v.isUndefined := by
  cases v <;> rfl

theorem itemsSorted_itemsOnly : ∀ vs : List JsValue,
    itemsSorted (itemsOnly strip vs) = vs.map (written strip)
  | [] => rfl
  | v :: vs => by rw [itemsOnly, itemsSorted, itemsSorted_itemsOnly vs, List.map_cons, written]

theorem membersSorted_membersOnly : ∀ ms : List (JsString × JsValue),
    membersSorted (membersOnly strip ms) = (kept strip ms).map fun m => (m.1, written strip m.2)
  | [] => rfl
  | (k, v) :: ms => by
    have ih := membersSorted_membersOnly ms
    rw [membersOnly, kept, List.filter_cons]
    cases hdrop : v.isUndefined || (strip && isSecretKey k) with
    | true => exact ih
    | false =>
      have hv := (Bool.or_eq_false_iff.mp hdrop).1
      have hhead : written strip v = (v.jsonOnly strip).sorted := by
        rw [written, hv]
        rfl
      rw [if_neg (by decide), membersSorted, isUndefined_jsonOnly, hv, if_neg (by decide), ih,
        ← hhead]
      rfl

theorem itemsPlain_eq : ∀ vs : List JsValue, itemsPlain strip vs = vs.map (·.plain strip)
  | [] => rfl
  | v :: vs => by rw [itemsPlain, itemsPlain_eq vs, List.map_cons]

theorem membersPlain_eq : ∀ ms : List (JsString × JsValue),
    membersPlain strip ms = (kept strip ms).map fun m => (m.1, m.2.plain strip)
  | [] => rfl
  | (k, v) :: ms => by
    have ih := membersPlain_eq ms
    rw [membersPlain, kept, List.filter_cons]
    cases v.isUndefined || (strip && isSecretKey k) with
    | true => exact ih
    | false =>
      rw [if_neg (by decide), ih]
      rfl

theorem itemsDistinct_iff : ∀ {vs : List JsValue}, itemsDistinct vs ↔ ∀ v ∈ vs, v.Distinct
  | [] => by simp [itemsDistinct]
  | v :: vs => by rw [itemsDistinct, itemsDistinct_iff, List.forall_mem_cons]

theorem membersDistinct_iff : ∀ {ms : List (JsString × JsValue)},
    membersDistinct ms ↔ ∀ m ∈ ms, m.2.Distinct
  | [] => by simp [membersDistinct]
  | (k, v) :: ms => by rw [membersDistinct, membersDistinct_iff, List.forall_mem_cons]

theorem nodup_kept {ms : List (JsString × JsValue)} (h : (Entries.keys ms).Nodup) :
    (Entries.keys (kept strip ms)).Nodup :=
  h.sublist (List.filter_sublist.map Prod.fst)

theorem map_eq_map_iff_of {α β γ : Type} {f : α → β} {g : α → γ} : ∀ {as bs : List α},
    (∀ a ∈ as, ∀ b ∈ bs, f a = f b ↔ g a = g b) → (as.map f = bs.map f ↔ as.map g = bs.map g)
  | [], [], _ => by simp
  | [], _ :: _, _ => by simp
  | _ :: _, [], _ => by simp
  | a :: as, b :: bs, h => by
    have hhead := h a List.mem_cons_self b List.mem_cons_self
    have htail := map_eq_map_iff_of fun a ha b hb =>
      h a (List.mem_cons_of_mem _ ha) b (List.mem_cons_of_mem _ hb)
    rw [List.map_cons, List.map_cons, List.map_cons, List.map_cons, List.cons.injEq,
      List.cons.injEq, hhead, htail]

theorem written_arr (items : List JsValue) :
    written strip (.arr items) = .arr (items.map (written strip)) := by
  rw [← itemsSorted_itemsOnly]
  rfl

theorem written_obj (members : List (JsString × JsValue)) :
    written strip (.obj members) =
      .obj (sortKeys ((kept strip members).map fun m => (m.1, written strip m.2))) := by
  rw [← membersSorted_membersOnly]
  rfl

/-- Values are written as one tree exactly when they say the same. -/
theorem written_eq_iff (v : JsValue) : ∀ w : JsValue, v.Distinct → w.Distinct →
    (written strip v = written strip w ↔ v.plain strip = w.plain strip) := by
  induction v using JsValue.induction with
  | undefined | null | bool b | num n | str s =>
    rintro (_ | _ | _ | _ | _ | _ | _) - - <;>
      simp [written, JsValue.isUndefined, JsValue.jsonOnly, JsValue.sorted, JsValue.plain]
  | arr items ih =>
    rintro (_ | _ | _ | _ | _ | items' | _) hv hw
    case arr =>
      rw [written_arr, written_arr, JsValue.arr.injEq, JsValue.plain, JsValue.plain,
        PlainJson.arr.injEq, itemsPlain_eq, itemsPlain_eq]
      exact map_eq_map_iff_of fun a ha b hb =>
        ih a ha b (itemsDistinct_iff.mp hv a ha) (itemsDistinct_iff.mp hw b hb)
    all_goals
      simp [written, JsValue.isUndefined, JsValue.jsonOnly, JsValue.sorted, JsValue.plain]
  | obj members ih =>
    rintro (_ | _ | _ | _ | _ | _ | members') hv hw
    case obj =>
      have hkeys : (Entries.keys (kept strip members)).Nodup := nodup_kept hv.1
      have hkeys' : (Entries.keys (kept strip members')).Nodup := nodup_kept hw.1
      rw [written_obj, written_obj, JsValue.obj.injEq, JsValue.plain, JsValue.plain,
        PlainJson.obj.injEq, membersPlain_eq, membersPlain_eq, funext_iff,
        sortKeys_eq_iff (by rwa [keys_map]) (by rwa [keys_map])]
      refine forall_congr' fun k => ?_
      rw [get?_map, get?_map, get?_map, get?_map]
      cases hget : Entries.get? (kept strip members) k with
      | none =>
        cases Entries.get? (kept strip members') k with
        | none => simp
        | some b => simp
      | some a =>
        cases hget' : Entries.get? (kept strip members') k with
        | none => simp
        | some b =>
          have ha := List.mem_of_mem_filter (Entries.mem_of_get? hget)
          have hb := List.mem_of_mem_filter (Entries.mem_of_get? hget')
          rw [Option.map_some, Option.map_some, Option.map_some, Option.map_some,
            Option.some.injEq, Option.some.injEq]
          exact ih _ ha b (membersDistinct_iff.mp hv.2 _ ha) (membersDistinct_iff.mp hw.2 _ hb)
    all_goals
      simp [written, JsValue.isUndefined, JsValue.jsonOnly, JsValue.sorted, JsValue.plain]

/-! ## The text of a request -/

mutual

/-- No number that is written of a value is infinite. -/
def JsValue.Finite (strip : Bool) : JsValue → Prop
  | .num n => n.text.isSome
  | .arr items => itemsFinite strip items
  | .obj members => membersFinite strip members
  | _ => True

def itemsFinite (strip : Bool) : List JsValue → Prop
  | [] => True
  | v :: vs => v.Finite strip ∧ itemsFinite strip vs

def membersFinite (strip : Bool) : List (JsString × JsValue) → Prop
  | [] => True
  | (k, v) :: ms =>
    if v.isUndefined || (strip && isSecretKey k) then membersFinite strip ms
    else v.Finite strip ∧ membersFinite strip ms

end

theorem itemsFinite_iff : ∀ {vs : List JsValue},
    itemsFinite strip vs ↔ ∀ v ∈ vs, v.Finite strip
  | [] => by simp [itemsFinite]
  | v :: vs => by rw [itemsFinite, itemsFinite_iff, List.forall_mem_cons]

theorem membersFinite_iff : ∀ {ms : List (JsString × JsValue)},
    membersFinite strip ms ↔ ∀ m ∈ kept strip ms, m.2.Finite strip
  | [] => by simp [membersFinite, kept]
  | (k, v) :: ms => by
    rw [membersFinite, kept, List.filter_cons]
    by_cases h : v.isUndefined || (strip && isSecretKey k)
    · rw [if_pos h, membersFinite_iff, kept]
      simp [h]
    · rw [if_neg h, membersFinite_iff, kept]
      simp [h]

/-- Objects are written when each member is. -/
theorem canonicalize_obj_ok {ms : List (JsString × JsValue)}
    (h : ∀ m ∈ ms, ∃ s, canonicalize m.2 = .ok s) : ∃ s, canonicalize (.obj ms) = .ok s := by
  have hparts : ∀ m ∈ sortKeys (canonicalMembers ms), ∃ t, m.2.map (memberText m.1) = .ok t := by
    intro m hm
    have hm := (List.perm_insertionSort _ _).mem_iff.mp hm
    rw [canonicalMembers_eq] at hm
    obtain ⟨m', hm', rfl⟩ := List.mem_map.mp hm
    obtain ⟨s, hs⟩ := h m' (List.mem_of_mem_filter hm')
    exact ⟨memberText m'.1 s, by rw [hs]; rfl⟩
  obtain ⟨parts, hparts⟩ := mapM_succeeds hparts
  exact ⟨_, by rw [canonicalize, hparts]; rfl⟩

theorem canonicalize_written {v : JsValue} (h : v.Finite strip) :
    ∃ s, canonicalize (written strip v) = .ok s := by
  induction v using JsValue.induction with
  | undefined | null | bool b | str s => exact ⟨_, rfl⟩
  | num n =>
    obtain ⟨t, ht⟩ := Option.isSome_iff_exists.mp h
    refine ⟨t, ?_⟩
    change n.text.elim _ _ = _
    rw [ht]
    rfl
  | arr items ih =>
    have hitems : ∀ part ∈ (items.map (written strip)).map canonicalize, ∃ t, id part = .ok t := by
      rintro part hpart
      obtain ⟨w, hw, rfl⟩ := List.mem_map.mp hpart
      obtain ⟨v, hv, rfl⟩ := List.mem_map.mp hw
      exact ih v hv (itemsFinite_iff.mp h v hv)
    obtain ⟨parts, hparts⟩ := mapM_succeeds hitems
    exact ⟨_, by rw [written_arr, canonicalize, canonicalItems_eq, hparts]; rfl⟩
  | obj members ih =>
    rw [written_obj]
    refine canonicalize_obj_ok fun m hm => ?_
    have hm := (List.perm_insertionSort _ _).mem_iff.mp hm
    obtain ⟨m', hm', rfl⟩ := List.mem_map.mp hm
    exact ih m' (List.mem_of_mem_filter hm') (membersFinite_iff.mp h m' hm')

theorem membersSorted_of_defined {ms : List (JsString × JsValue)}
    (h : ∀ m ∈ ms, m.2.isUndefined = false) :
    membersSorted ms = ms.map fun m => (m.1, m.2.sorted) := by
  have hdefined : defined ms = ms :=
    List.filter_eq_self.mpr fun m hm => by rw [h m hm, Bool.not_false]
  rw [membersSorted_eq, hdefined]

/-- With the same keys, what is under each key is read off the sorted object. -/
theorem sortKeys_inj {α : Type} : ∀ {l l' : List (JsString × α)}, (Entries.keys l).Nodup →
    Entries.keys l = Entries.keys l' → sortKeys l = sortKeys l' → l = l' := by
  intro l l' hnodup hkeys hsort
  have hget := (sortKeys_eq_iff hnodup (hkeys ▸ hnodup)).mp hsort
  clear hsort
  induction l generalizing l' with
  | nil => exact (List.map_eq_nil_iff.mp hkeys.symm).symm
  | cons m l ih =>
    obtain ⟨k, v⟩ := m
    cases l' with
    | nil => cases hkeys
    | cons m' l' =>
      obtain ⟨k', v'⟩ := m'
      rw [Entries.keys_cons, Entries.keys_cons] at hkeys
      obtain ⟨rfl, htailKeys⟩ := List.cons.inj hkeys
      rw [Entries.keys_cons, List.nodup_cons] at hnodup
      have hhead := hget k
      rw [Entries.get?_cons, Entries.get?_cons, if_pos rfl, if_pos rfl, Option.some.injEq] at hhead
      subst hhead
      refine congrArg _ (ih hnodup.2 htailKeys fun j => ?_)
      by_cases hj : k = j
      · subst hj
        rw [Entries.get?_of_notMem hnodup.1, Entries.get?_of_notMem (htailKeys ▸ hnodup.1)]
      · have htail := hget j
        rwa [Entries.get?_cons, Entries.get?_cons, if_neg hj, if_neg hj] at htail

theorem isUndefined_ofOption (s : Option JsString) : (JsValue.ofOption s).isUndefined = false := by
  cases s <;> rfl

theorem isUndefined_bodyOrEmpty (body : JsValue) : (bodyOrEmpty body).isUndefined = false := by
  cases body <;> rfl

theorem sorted_ofOption (s : Option JsString) :
    (JsValue.ofOption s).sorted = JsValue.ofOption s := by
  cases s <;> rfl

theorem ofOption_inj {s t : Option JsString} (h : JsValue.ofOption s = JsValue.ofOption t) :
    s = t := by
  cases s <;> cases t <;> cases h <;> rfl

theorem distinct_bodyOrEmpty {body : JsValue} (h : body.Distinct) :
    (bodyOrEmpty body).Distinct := by
  cases body with
  | undefined | null => exact ⟨List.nodup_nil, trivial⟩
  | bool b | num n | str s | arr items | obj members => exact h

section Request

variable {upper : JsString → JsString} {a b : RequestHashInput}

/-- The members that are written, each as a tree with its keys in order. -/
def RequestHashInput.writtenMembers (upper : JsString → JsString) (input : RequestHashInput) :
    List (JsString × JsValue) :=
  let method := upper input.method
  [(jsString "v", .num one), (jsString "method", .str method),
    (jsString "route", .str (method ++ jsString " " ++ input.route)),
    (jsString "params", written false (.obj (input.params.getD []))),
    (jsString "query", written false (.obj (input.query.getD []))),
    (jsString "companyId", .ofOption input.companyId),
    (jsString "ifMatch", .ofOption input.ifMatch),
    (jsString "body", written true (bodyOrEmpty input.body))]

theorem sorted_hashed (input : RequestHashInput) :
    (input.hashed upper).sorted = .obj (sortKeys (input.writtenMembers upper)) := by
  have hbody : written true (bodyOrEmpty input.body) =
      ((bodyOrEmpty input.body).jsonOnly true).sorted := by
    rw [written, isUndefined_bodyOrEmpty]
    rfl
  rw [RequestHashInput.hashed, JsValue.sorted, membersSorted_of_defined]
  · simp only [List.map_cons, List.map_nil, sorted_ofOption, ← hbody]
    rfl
  · have hbodyDefined : ((bodyOrEmpty input.body).jsonOnly true).isUndefined = false := by
      rw [isUndefined_jsonOnly, isUndefined_bodyOrEmpty]
    simp only [List.forall_mem_cons]
    exact ⟨rfl, rfl, rfl, rfl, rfl, isUndefined_ofOption _, isUndefined_ofOption _, hbodyDefined,
      List.forall_mem_nil _⟩

theorem nodup_writtenMembers (input : RequestHashInput) :
    (Entries.keys (input.writtenMembers upper)).Nodup := by
  have hkeys : (["v", "method", "route", "params", "query", "companyId", "ifMatch",
      "body"].map jsString).Nodup := by
    decide +kernel
  exact hkeys

theorem writtenMembers_eq_iff :
    a.writtenMembers upper = b.writtenMembers upper ↔ SameRequest upper a b := by
  have hparams : written false _ = written false _ ↔ _ :=
    written_eq_iff _ _ a.params_distinct b.params_distinct
  have hquery : written false _ = written false _ ↔ _ :=
    written_eq_iff _ _ a.query_distinct b.query_distinct
  have hbody : written true _ = written true _ ↔ _ :=
    written_eq_iff _ _ (distinct_bodyOrEmpty a.body_distinct) (distinct_bodyOrEmpty b.body_distinct)
  constructor
  · intro h
    simp only [RequestHashInput.writtenMembers, List.cons.injEq, Prod.mk.injEq, true_and,
      JsValue.str.injEq, and_true] at h
    obtain ⟨hmethod, hroute, hp, hq, hcompany, hmatch, hb⟩ := h
    rw [hmethod] at hroute
    exact ⟨hmethod, List.append_cancel_left hroute, hparams.mp hp, hquery.mp hq,
      ofOption_inj hcompany, ofOption_inj hmatch, hbody.mp hb⟩
  · rintro ⟨hmethod, hroute, hp, hq, hcompany, hmatch, hb⟩
    rw [RequestHashInput.writtenMembers, RequestHashInput.writtenMembers, hmethod, hroute,
      hparams.mpr hp, hquery.mpr hq, hcompany, hmatch, hbody.mpr hb]

/-- No number that is hashed of a request is infinite. -/
structure RequestHashInput.Finite (input : RequestHashInput) : Prop where
  params : (JsValue.obj (input.params.getD [])).Finite false
  query : (JsValue.obj (input.query.getD [])).Finite false
  body : (bodyOrEmpty input.body).Finite true

/-- A request without an infinite number has a text. -/
theorem requestHashInput_ok (upper : JsString → JsString) (ha : a.Finite) :
    ∃ s, requestHashInput upper a = .ok s := by
  have hoption : ∀ s : Option JsString, ∃ t, canonicalize (.ofOption s) = .ok t := by
    intro s
    cases s <;> exact ⟨_, rfl⟩
  have hmembers : ∀ m ∈ a.writtenMembers upper, ∃ t, canonicalize m.2 = .ok t := by
    simp only [RequestHashInput.writtenMembers, List.forall_mem_cons]
    exact ⟨⟨_, rfl⟩, ⟨_, rfl⟩, ⟨_, rfl⟩, canonicalize_written ha.params, canonicalize_written ha.query,
      hoption _, hoption _, canonicalize_written ha.body, List.forall_mem_nil _⟩
  rw [requestHashInput, ← canonicalize_sorted, sorted_hashed]
  refine canonicalize_obj_ok fun m hm => hmembers m ?_
  exact (List.perm_insertionSort _ _).mem_iff.mp hm

/-- A text is that of requests that say the same. -/
theorem sameRequest_of_text {s : Text} (ha : requestHashInput upper a = .ok s)
    (hb : requestHashInput upper b = .ok s) : SameRequest upper a b := by
  have hstops : Remap.Stops [] := fun c hc => by cases hc
  have hsorted := (readable _ _ s s [] [] ha hb hstops hstops rfl).1
  rw [sorted_hashed, sorted_hashed, JsValue.obj.injEq] at hsorted
  exact writtenMembers_eq_iff.mp (sortKeys_inj (nodup_writtenMembers a) rfl hsorted)

/-- A request has a text, and the requests with that text are those that say the same. -/
theorem requestHashInput_identifies (upper : JsString → JsString) (a b : RequestHashInput)
    (ha : a.Finite) :
    (∃ s, requestHashInput upper a = .ok s) ∧
      (requestHashInput upper a = requestHashInput upper b ↔ SameRequest upper a b) := by
  obtain ⟨s, hs⟩ := requestHashInput_ok upper ha
  refine ⟨⟨s, hs⟩, fun heq => sameRequest_of_text hs (heq ▸ hs), fun hsame => ?_⟩
  rw [requestHashInput, requestHashInput, ← canonicalize_sorted,
    ← canonicalize_sorted (b.hashed _), sorted_hashed, sorted_hashed,
    writtenMembers_eq_iff.mpr hsame]

/-- A save of the document 7 at its version 3. -/
def saveOf (body : JsValue) (h : body.Distinct) : RequestHashInput where
  method := jsString "POST"
  route := jsString "/transactions/:id"
  params := some [(jsString "id", .str (jsString "7"))]
  query := none
  companyId := none
  ifMatch := some (jsString "3")
  body := body
  params_distinct := ⟨List.nodup_singleton _, trivial, trivial⟩
  query_distinct := ⟨List.nodup_nil, trivial⟩
  body_distinct := h

def firstSave : RequestHashInput :=
  saveOf (.obj [(jsString "closingPassword", .str (jsString "a")),
    (jsString "lines", .arr [.obj [(jsString "__proto__", .num one), (jsString "memo", .null)]])])
    ⟨by decide +kernel, trivial, ⟨⟨by decide +kernel, trivial, trivial, trivial⟩, trivial⟩, trivial⟩

/-- The keys in another order, and another password. -/
def sameSave : RequestHashInput :=
  saveOf (.obj [(jsString "lines",
      .arr [.obj [(jsString "memo", .null), (jsString "__proto__", .num one)]]),
    (jsString "closingPassword", .str (jsString "b"))])
    ⟨by decide +kernel, ⟨⟨by decide +kernel, trivial, trivial, trivial⟩, trivial⟩, trivial, trivial⟩

/-- Another value inside. -/
def otherSave : RequestHashInput :=
  saveOf (.obj [(jsString "closingPassword", .str (jsString "a")),
    (jsString "lines", .arr [.obj [(jsString "__proto__", .bool true), (jsString "memo", .null)]])])
    ⟨by decide +kernel, trivial, ⟨⟨by decide +kernel, trivial, trivial, trivial⟩, trivial⟩, trivial⟩

theorem firstSave_identified :
    SameRequest id firstSave sameSave ∧ ¬SameRequest id firstSave otherSave := by
  have hkeys : ["closingPassword", "lines", "__proto__", "memo"].map (isSecretKey ∘ jsString) =
      [true, false, false, false] := by
    decide +kernel
  simp only [List.map_cons, List.map_nil, Function.comp_apply, List.cons.injEq, and_true] at hkeys
  have hone : one.text.isSome := rfl
  have hfinite : firstSave.Finite := by
    constructor <;> simp [firstSave, saveOf, bodyOrEmpty, JsValue.Finite, membersFinite, itemsFinite,
      JsValue.isUndefined, hkeys, hone]
  have hsame := requestHashInput_identifies id firstSave sameSave hfinite
  have hother := requestHashInput_identifies id firstSave otherSave hfinite
  exact ⟨hsame.2.mp (by decide +kernel), fun h => absurd (hother.2.mpr h) (by decide +kernel)⟩

end Request

end MyBooks
