import Mathlib.Data.List.Forall2
import MyBooks.Remap

/-!
# Replacing ids keeps the shape of a text

A token is replaced by a token, so the tokens of the new text stand where the old ones stood and the
structure of the text is untouched (`replaceTokens_replaceTokens`). Mapping ids there and back is the
identity where no new id stood in the text and the mapped ones stood in lower case.
-/

namespace MyBooks

namespace Remap

/-- The same character, or a hex digit for a hex digit. -/
def Alike (c d : Char) : Prop := c = d ∨ isHex c = true ∧ isHex d = true

theorem Alike.isHex_eq {c d : Char} (h : Alike c d) : isHex c = isHex d := by
  rcases h with rfl | ⟨hc, hd⟩
  · rfl
  · rw [hc, hd]

theorem Alike.eq_of_not_hex {c d : Char} (h : Alike c d) (hc : isHex c = false) : c = d := by
  rcases h with rfl | ⟨hc', -⟩
  · rfl
  · rw [hc] at hc'
    cases hc'

theorem Alike.eq_iff {c d e : Char} (h : Alike c d) (he : isHex e = false) : c = e ↔ d = e := by
  rcases h with rfl | ⟨hc, hd⟩
  · rfl
  · constructor <;> rintro rfl
    · rw [he] at hc
      cases hc
    · rw [he] at hd
      cases hd

theorem tokenFrom_alike {s t : Text} (h : List.Forall₂ Alike s t) (i n : ℕ) :
    tokenFrom i n s = tokenFrom i n t := by
  induction h generalizing i n with
  | nil => rfl
  | @cons c d s t hcd _ ih =>
    cases n with
    | zero => rfl
    | succ n =>
      have hdash : (decide (c = '-')) = decide (d = '-') := decide_eq_decide.mpr (hcd.eq_iff rfl)
      rw [tokenFrom, tokenFrom, ih, hdash, hcd.isHex_eq]

theorem tokenFrom_append : ∀ {i n : ℕ} {s : Text} (t : Text), tokenFrom i n s = true →
    tokenFrom i n (s ++ t) = true
  | _, 0, [], t, _ => by cases t <;> rfl
  | _, 0, _ :: _, _, _ => rfl
  | _, _ + 1, [], _, h => by cases h
  | i, n + 1, c :: s, t, h => by
    rw [tokenFrom, Bool.and_eq_true] at h
    rw [List.cons_append, tokenFrom, h.1, tokenFrom_append t h.2]
    rfl

theorem tokenFrom_length : ∀ {i n : ℕ} {s : Text}, tokenFrom i n s = true → n ≤ s.length
  | _, 0, _, _ => Nat.zero_le _
  | _, _ + 1, [], h => by cases h
  | i, n + 1, c :: s, h => by
    rw [tokenFrom, Bool.and_eq_true] at h
    exact Nat.succ_le_succ (tokenFrom_length h.2)

theorem tokenFrom_take : ∀ {i n : ℕ} {s : Text}, tokenFrom i n s = true →
    tokenFrom i n (s.take n) = true
  | _, 0, _, _ => by cases ‹Text› <;> rfl
  | _, _ + 1, [], h => by cases h
  | i, n + 1, c :: s, h => by
    rw [tokenFrom, Bool.and_eq_true] at h
    rw [List.take_succ_cons, tokenFrom, h.1, tokenFrom_take h.2]
    rfl

/-- A character that is in no token. -/
def isOutside (c : Char) : Bool := !isHex c && c ≠ '-'

/-- A token ends before a character that is in none. -/
theorem tokenFrom_cut {c : Char} (hc : isOutside c = true) : ∀ {i n : ℕ} {s r : Text},
    tokenFrom i n (s ++ c :: r) = true → n ≤ s.length
  | _, 0, _, _, _ => Nat.zero_le _
  | i, n + 1, [], r, h => by
    simp only [isOutside, Bool.and_eq_true, Bool.not_eq_true', decide_eq_true_eq] at hc
    rw [List.nil_append, tokenFrom, Bool.and_eq_true] at h
    have h' := h.1
    split_ifs at h'
    · exact absurd (of_decide_eq_true h') hc.2
    · rw [hc.1] at h'
      cases h'
  | i, n + 1, d :: s, r, h => by
    rw [List.cons_append, tokenFrom, Bool.and_eq_true] at h
    exact Nat.succ_le_succ (tokenFrom_cut hc h.2)

theorem startsToken_append_iff {c : Char} (hc : isOutside c = true) (s r : Text) :
    startsToken (s ++ c :: r) = startsToken s := by
  cases h : startsToken s with
  | true => exact tokenFrom_append _ h
  | false =>
    by_contra hne
    have htrue : startsToken (s ++ c :: r) = true := by simpa using hne
    have hlen := tokenFrom_cut hc htrue
    have htake := tokenFrom_take htrue
    rw [List.take_append_of_le_length hlen] at htake
    have hpre := tokenFrom_append (s.drop 36) htake
    rw [List.take_append_drop] at hpre
    rw [startsToken, hpre] at h
    cases h

theorem isUuid_take {s : Text} (h : startsToken s = true) : isUuid (s.take 36) = true := by
  have hlen := tokenFrom_length h
  simp only [isUuid, Bool.and_eq_true, decide_eq_true_eq, List.length_take]
  exact ⟨Nat.min_eq_left hlen, tokenFrom_take h⟩

theorem isUuid_alike {s t : Text} (hs : isUuid s = true) (ht : isUuid t = true) :
    List.Forall₂ Alike s t := by
  have key : ∀ (n i : ℕ) (s t : Text), s.length = n → t.length = n → tokenFrom i n s = true →
      tokenFrom i n t = true → List.Forall₂ Alike s t := by
    intro n
    induction n with
    | zero =>
      intro i s t hs ht _ _
      rw [List.length_eq_zero_iff.mp hs, List.length_eq_zero_iff.mp ht]
      exact .nil
    | succ n ih =>
      rintro i (_ | ⟨c, s⟩) (_ | ⟨d, t⟩) hs ht h h'
      · cases hs
      · cases hs
      · cases ht
      · rw [tokenFrom, Bool.and_eq_true] at h h'
        refine .cons ?_ (ih _ _ _ (Nat.succ.inj hs) (Nat.succ.inj ht) h.2 h'.2)
        obtain ⟨hc, -⟩ := h
        obtain ⟨hd, -⟩ := h'
        split_ifs at hc hd
        · exact .inl ((of_decide_eq_true hc).trans (of_decide_eq_true hd).symm)
        · exact .inr ⟨hc, hd⟩
  simp only [isUuid, Bool.and_eq_true, decide_eq_true_eq] at hs ht
  exact key 36 0 s t hs.1 ht.1 hs.2 ht.2

/-! ## The replacement, token by token -/

section Replace

variable (f : Text → Text)

theorem replaceFrom_skip : ∀ (k : ℕ) (s : Text), replaceFrom f k s = replaceTokens f (s.drop k)
  | 0, _ => rfl
  | k + 1, [] => rfl
  | k + 1, c :: s => by
    rw [replaceFrom, List.drop_succ_cons]
    exact replaceFrom_skip k s

theorem replaceTokens_token {s : Text} (h : startsToken s = true) :
    replaceTokens f s = f (s.take 36) ++ replaceTokens f (s.drop 36) := by
  cases s with
  | nil => cases h
  | cons c r =>
    rw [replaceTokens, replaceFrom, if_pos h, replaceFrom_skip]
    rfl

theorem replaceTokens_char {c : Char} {s : Text} (h : startsToken (c :: s) = false) :
    replaceTokens f (c :: s) = c :: replaceTokens f s := by
  rw [replaceTokens, replaceFrom, if_neg (by rw [h]; decide)]
  rfl

@[grind =] def tokensFrom : ℕ → Text → List Text
  | _, [] => []
  | skip + 1, _ :: s => tokensFrom skip s
  | 0, c :: s =>
    if startsToken (c :: s) then (c :: s).take 36 :: tokensFrom 35 s else tokensFrom 0 s

/-- The tokens `replaceTokens` finds. -/
def tokens (s : Text) : List Text := tokensFrom 0 s

theorem tokensFrom_skip : ∀ (k : ℕ) (s : Text), tokensFrom k s = tokens (s.drop k)
  | 0, _ => rfl
  | k + 1, [] => rfl
  | k + 1, c :: s => by
    rw [tokensFrom, List.drop_succ_cons]
    exact tokensFrom_skip k s

theorem tokens_token {s : Text} (h : startsToken s = true) :
    tokens s = s.take 36 :: tokens (s.drop 36) := by
  cases s with
  | nil => cases h
  | cons c r =>
    rw [tokens, tokensFrom, if_pos h, tokensFrom_skip]
    rfl

theorem tokens_char {c : Char} {s : Text} (h : startsToken (c :: s) = false) :
    tokens (c :: s) = tokens s := by
  rw [tokens, tokensFrom, if_neg (by rw [h]; decide)]
  rfl

/-- Texts one token or one character at a time. -/
theorem text_induct {P : Text → Prop} (nil : P [])
    (token : ∀ s, startsToken s = true → P (s.drop 36) → P s)
    (char : ∀ c s, startsToken (c :: s) = false → P s → P (c :: s)) (s : Text) : P s := by
  cases s with
  | nil => exact nil
  | cons c r =>
    cases h : startsToken (c :: r) with
    | true => exact token _ h (text_induct nil token char ((c :: r).drop 36))
    | false => exact char c r h (text_induct nil token char r)
termination_by s.length
decreasing_by
  all_goals simp only [List.length_cons, List.length_drop]; omega

variable {f}

theorem replaceTokens_alike (hf : ∀ tok, isUuid tok = true → isUuid (f tok) = true) (s : Text) :
    List.Forall₂ Alike s (replaceTokens f s) := by
  induction s using text_induct with
  | nil => exact .nil
  | token s hs ih =>
    rw [replaceTokens_token f hs]
    have htok := isUuid_take hs
    have happ : List.Forall₂ Alike (s.take 36 ++ s.drop 36) _ :=
      List.rel_append (isUuid_alike htok (hf _ htok)) ih
    rwa [List.take_append_drop] at happ
  | char c s hs ih =>
    rw [replaceTokens_char f hs]
    exact .cons (.inl rfl) ih

theorem replaceTokens_id {s : Text} (h : ∀ tok ∈ tokens s, f tok = tok) :
    replaceTokens f s = s := by
  induction s using text_induct with
  | nil => rfl
  | token s hs ih =>
    rw [tokens_token hs] at h
    rw [replaceTokens_token f hs, h _ List.mem_cons_self,
      ih fun tok htok => h tok (List.mem_cons_of_mem _ htok), List.take_append_drop]
  | char c s hs ih =>
    rw [tokens_char hs] at h
    rw [replaceTokens_char f hs, ih h]

theorem replaceTokens_replaceTokens (hf : ∀ tok, isUuid tok = true → isUuid (f tok) = true)
    (g : Text → Text) (s : Text) :
    replaceTokens g (replaceTokens f s) = replaceTokens (fun tok => g (f tok)) s := by
  induction s using text_induct with
  | nil => rfl
  | token s hs ih =>
    have htok := hf _ (isUuid_take hs)
    simp only [isUuid, Bool.and_eq_true, decide_eq_true_eq] at htok
    have hstart : startsToken (f (s.take 36) ++ replaceTokens f (s.drop 36)) = true :=
      tokenFrom_append _ htok.2
    rw [replaceTokens_token f hs, replaceTokens_token g hstart, replaceTokens_token _ hs,
      List.take_append_of_le_length htok.1.ge, List.drop_append_of_le_length htok.1.ge,
      List.take_of_length_le htok.1.le, List.drop_of_length_le htok.1.le, List.nil_append, ih]
  | char c s hs ih =>
    have hrest : List.Forall₂ Alike (c :: s) (c :: replaceTokens f s) :=
      .cons (.inl rfl) (replaceTokens_alike hf s)
    have hstart : startsToken (c :: replaceTokens f s) = false := by
      rw [startsToken, ← tokenFrom_alike hrest]
      exact hs
    rw [replaceTokens_char f hs, replaceTokens_char g hstart, replaceTokens_char _ hs, ih]

/-- A character in no token cuts a text in two that are replaced apart. -/
theorem replaceTokens_append {c : Char} (hc : isOutside c = true) (s r : Text) :
    replaceTokens f (s ++ c :: r) = replaceTokens f s ++ c :: replaceTokens f r := by
  induction s using text_induct with
  | nil =>
    have h : startsToken (c :: r) = false := startsToken_append_iff hc [] r
    exact replaceTokens_char f h
  | token s hs ih =>
    have hlen := tokenFrom_length hs
    rw [replaceTokens_token f hs, replaceTokens_token f ((startsToken_append_iff hc s r).trans hs),
      List.take_append_of_le_length hlen, List.drop_append_of_le_length hlen, ih, List.append_assoc]
  | char d s hs ih =>
    have h : startsToken (d :: (s ++ c :: r)) = false := (startsToken_append_iff hc (d :: s) r).trans hs
    rw [List.cons_append, replaceTokens_char f h, replaceTokens_char f hs, ih, List.cons_append]

theorem tokens_append {c : Char} (hc : isOutside c = true) (s r : Text) :
    tokens (s ++ c :: r) = tokens s ++ tokens r := by
  induction s using text_induct with
  | nil =>
    have h : startsToken (c :: r) = false := startsToken_append_iff hc [] r
    rw [List.nil_append, tokens_char h]
    rfl
  | token s hs ih =>
    have hlen := tokenFrom_length hs
    rw [tokens_token hs, tokens_token ((startsToken_append_iff hc s r).trans hs),
      List.take_append_of_le_length hlen, List.drop_append_of_le_length hlen, ih, List.cons_append]
  | char d s hs ih =>
    have h : startsToken (d :: (s ++ c :: r)) = false := (startsToken_append_iff hc (d :: s) r).trans hs
    rw [List.cons_append, tokens_char h, tokens_char hs, ih]

end Replace

/-! ## Upper-case letters -/

def uppers (s : Text) : ℕ := s.countP Char.isUpper

theorem uppers_append (s t : Text) : uppers (s ++ t) = uppers s + uppers t := List.countP_append

theorem toLower_eq_self {c : Char} : c.toLower = c ↔ c.isUpper = false := by
  unfold Char.toLower Char.isUpper
  constructor
  · intro h
    by_contra hne
    simp only [Bool.not_eq_false, decide_eq_true_eq] at hne
    rw [dif_pos hne] at h
    have := congrArg (fun d : Char => d.val) h
    simp only [UInt32.add_eq_left] at this
    exact absurd this (by decide)
  · intro h
    refine dif_neg fun hup => ?_
    rw [decide_eq_true hup] at h
    cases h

theorem toLowerCase_eq_self {s : Text} : toLowerCase s = s ↔ uppers s = 0 := by
  induction s with
  | nil => exact iff_of_true rfl rfl
  | cons c s ih =>
    unfold toLowerCase uppers at ih ⊢
    rw [List.map_cons, List.cons.injEq, ih, toLower_eq_self, List.countP_cons]
    cases c.isUpper <;> simp

/-- Where no token gains a letter in upper case, neither does the text, and it loses one with each
token that does. -/
theorem uppers_replaceTokens {f : Text → Text} {s : Text}
    (h : ∀ tok ∈ tokens s, uppers (f tok) ≤ uppers tok) :
    uppers (replaceTokens f s) ≤ uppers s ∧
      (uppers (replaceTokens f s) = uppers s → ∀ tok ∈ tokens s, uppers (f tok) = uppers tok) := by
  induction s using text_induct with
  | nil => exact ⟨le_rfl, fun _ tok htok => by cases htok⟩
  | token s hs ih =>
    rw [tokens_token hs] at h ⊢
    obtain ⟨hle, heq⟩ := ih fun tok htok => h tok (List.mem_cons_of_mem _ htok)
    have hfirst := h _ List.mem_cons_self
    have hsum : uppers s = uppers (s.take 36) + uppers (s.drop 36) := by
      rw [← uppers_append, List.take_append_drop]
    rw [replaceTokens_token f hs, uppers_append, hsum]
    refine ⟨by omega, fun he tok htok => ?_⟩
    rcases List.mem_cons.mp htok with rfl | htok
    · omega
    · exact heq (by omega) tok htok
  | char c s hs ih =>
    rw [tokens_char hs] at h ⊢
    obtain ⟨hle, heq⟩ := ih h
    rw [replaceTokens_char f hs, uppers, uppers, List.countP_cons, List.countP_cons]
    refine ⟨Nat.add_le_add_right hle _, fun he => heq (Nat.add_right_cancel he)⟩

theorem replaceTokens_length {f : Text → Text}
    (hf : ∀ tok, isUuid tok = true → isUuid (f tok) = true) (s : Text) :
    (replaceTokens f s).length = s.length :=
  (replaceTokens_alike hf s).length_eq.symm

/-! ## The id map there and back -/

theorem find?_key {α κ : Type} [DecidableEq κ] (key : α → κ) : ∀ {l : List α},
    (l.map key).Nodup → ∀ {a : α}, a ∈ l → l.find? (fun e => key e = key a) = some a
  | [], _, _, ha => absurd ha List.not_mem_nil
  | b :: l, hl, a, ha => by
    rw [List.map_cons, List.nodup_cons] at hl
    rcases List.mem_cons.mp ha with rfl | ha
    · exact List.find?_cons_of_pos (decide_eq_true rfl)
    · have hne : ¬key b = key a := fun h => hl.1 (h ▸ List.mem_map_of_mem ha)
      rw [List.find?_cons_of_neg (by simpa using hne)]
      exact find?_key key hl.2 ha

namespace IdMap

variable {m : IdMap}

theorem forward_eq_some {o n : Text} : m.forward o = some n ↔ (o, n) ∈ m.entries := by
  constructor
  · intro h
    obtain ⟨e, he, rfl⟩ := Option.map_eq_some_iff.mp h
    have hkey := List.find?_some he
    have hmem := List.mem_of_find?_eq_some he
    obtain rfl : e.1 = o := of_decide_eq_true hkey
    exact hmem
  · intro h
    exact congrArg (Option.map Prod.snd) (find?_key Prod.fst m.olds h)

theorem reverse_eq_some {o n : Text} : m.reverse n = some o ↔ (o, n) ∈ m.entries := by
  constructor
  · intro h
    obtain ⟨e, he, rfl⟩ := Option.map_eq_some_iff.mp h
    have hkey := List.find?_some he
    have hmem := List.mem_of_find?_eq_some he
    obtain rfl : e.2 = n := of_decide_eq_true hkey
    exact hmem
  · intro h
    exact congrArg (Option.map Prod.fst) (find?_key Prod.snd m.news h)

variable (m)

/-- What `substitute` makes of a token, and `inverse`. -/
def newId (tok : Text) : Text := (m.forward (toLowerCase tok)).getD tok
def oldId (tok : Text) : Text := (m.reverse (toLowerCase tok)).getD tok

theorem substitute_eq (text : Text) : m.substitute text = replaceTokens m.newId text := rfl
theorem inverse_eq (text : Text) : m.inverse text = replaceTokens m.oldId text := rfl

variable {m}

theorem isUuid_newId (tok : Text) (h : isUuid tok = true) : isUuid (m.newId tok) = true := by
  unfold newId
  rcases hf : m.forward (toLowerCase tok) with _ | n
  · exact h
  · exact (m.uuids _ (forward_eq_some.mp hf)).2

theorem isUuid_oldId (tok : Text) (h : isUuid tok = true) : isUuid (m.oldId tok) = true := by
  unfold oldId
  rcases hf : m.reverse (toLowerCase tok) with _ | n
  · exact h
  · exact (m.uuids _ (reverse_eq_some.mp hf)).1

/-- Every id of the map that stands in a text is in lower case. -/
def Lower (m : IdMap) (text : Text) : Prop :=
  ∀ tok ∈ tokens text, (m.forward (toLowerCase tok)).isSome = true → toLowerCase tok = tok

/-- No new id stands in a text. -/
def Unused (m : IdMap) (text : Text) : Prop :=
  ∀ tok ∈ tokens text, m.reverse (toLowerCase tok) = none

theorem oldId_newId {tok : Text} (hnew : m.reverse (toLowerCase tok) = none)
    (hlow : (m.forward (toLowerCase tok)).isSome = true → toLowerCase tok = tok) :
    m.oldId (m.newId tok) = tok := by
  unfold newId
  rcases hf : m.forward (toLowerCase tok) with _ | n
  · rw [Option.getD_none, oldId, hnew]
    rfl
  · have hmem := forward_eq_some.mp hf
    rw [hf] at hlow
    rw [Option.getD_some, oldId, (m.lower _ hmem).2, reverse_eq_some.mpr hmem]
    exact hlow rfl

/-- Mapping a text there and back. -/
theorem inverse_substitute {text : Text} (hnew : m.Unused text) (hlow : m.Lower text) :
    m.inverse (m.substitute text) = text := by
  rw [substitute_eq, inverse_eq, replaceTokens_replaceTokens isUuid_newId]
  exact replaceTokens_id fun tok htok => oldId_newId (hnew tok htok) (hlow tok htok)

theorem uppers_newId (tok : Text) : uppers (m.newId tok) ≤ uppers tok := by
  unfold newId
  rcases hf : m.forward (toLowerCase tok) with _ | n
  · exact le_rfl
  · rw [Option.getD_some, toLowerCase_eq_self.mp (m.lower _ (forward_eq_some.mp hf)).2]
    exact Nat.zero_le _

theorem uppers_oldId (tok : Text) : uppers (m.oldId tok) ≤ uppers tok := by
  unfold oldId
  rcases hf : m.reverse (toLowerCase tok) with _ | n
  · exact le_rfl
  · rw [Option.getD_some, toLowerCase_eq_self.mp (m.lower _ (reverse_eq_some.mp hf)).1]
    exact Nat.zero_le _

theorem uppers_inverse_le (text : Text) : uppers (m.inverse text) ≤ uppers text :=
  (uppers_replaceTokens fun tok _ => uppers_oldId tok).1

theorem uppers_substitute_le (text : Text) : uppers (m.substitute text) ≤ uppers text :=
  (uppers_replaceTokens fun tok _ => uppers_newId tok).1

theorem lower_of_uppers {text : Text} (h : uppers (m.substitute text) = uppers text) :
    m.Lower text := by
  intro tok htok hsome
  obtain ⟨n, hn⟩ := Option.isSome_iff_exists.mp hsome
  have heq := (uppers_replaceTokens fun tok _ => uppers_newId (m := m) tok).2 h tok htok
  rw [newId, hn, Option.getD_some,
    toLowerCase_eq_self.mp (m.lower _ (forward_eq_some.mp hn)).2] at heq
  exact toLowerCase_eq_self.mpr heq.symm

/-! ## Setting an id -/

theorem toLowerCase_toLowerCase (s : Text) : toLowerCase (toLowerCase s) = toLowerCase s := by
  have hletters : ∀ n < 128, (Char.ofNat n).toLower.toLower = (Char.ofNat n).toLower := by
    decide +kernel
  unfold toLowerCase
  rw [List.map_map]
  refine List.map_congr_left fun c _ => ?_
  cases hup : c.isUpper with
  | false =>
    rw [Function.comp_apply, toLower_eq_self.mpr hup, toLower_eq_self.mpr hup]
  | true =>
    have hle : c.toNat ≤ 'Z'.toNat := (of_decide_eq_true hup).2
    have hascii := hletters c.toNat (Nat.lt_of_le_of_lt hle (by decide))
    rw [Char.ofNat_toNat] at hascii
    exact hascii

theorem lookup_none {α κ : Type} [DecidableEq κ] (key : α → κ) {l : List α} {k : κ}
    (h : l.find? (fun e => key e = k) = none) : k ∉ l.map key := by
  intro hk
  obtain ⟨e, he, rfl⟩ := List.mem_map.mp hk
  exact absurd rfl (of_decide_eq_false (Bool.not_eq_true _ ▸ List.find?_eq_none.mp h e he))

/-- A pair of ids in lower case that neither column of the map has. -/
def push (m : IdMap) (o n : Text) (huuid : isUuid o = true ∧ isUuid n = true)
    (hlower : toLowerCase o = o ∧ toLowerCase n = n) (ho : m.forward o = none)
    (hn : m.reverse n = none) : IdMap where
  entries := m.entries ++ [(o, n)]
  uuids := List.forall_mem_append.mpr ⟨m.uuids, List.forall_mem_singleton.mpr huuid⟩
  lower := List.forall_mem_append.mpr ⟨m.lower, List.forall_mem_singleton.mpr hlower⟩
  olds := by
    rw [List.map_append, List.map_singleton, ← List.concat_eq_append]
    exact List.Nodup.concat (lookup_none Prod.fst (Option.map_eq_none_iff.mp ho)) m.olds
  news := by
    rw [List.map_append, List.map_singleton, ← List.concat_eq_append]
    exact List.Nodup.concat (lookup_none Prod.snd (Option.map_eq_none_iff.mp hn)) m.news

/-- `IdMap.set` -/
def set (m : IdMap) (oldId newId : Text) : Except String IdMap :=
  let o := toLowerCase oldId
  let n := toLowerCase newId
  if huuid : isUuid o = true ∧ isUuid n = true then
    if NEVER_REMAPPED_UUIDS.contains o || NEVER_REMAPPED_UUIDS.contains n then .error "reserved uuid in id map"
    else
      match ho : m.forward o with
      | some existing => if existing = n then .ok m else .error "id already mapped"
      | none =>
        match hn : m.reverse n with
        | some _ => .error "new id already in use"
        | none =>
          .ok (m.push o n huuid ⟨toLowerCase_toLowerCase oldId, toLowerCase_toLowerCase newId⟩ ho hn)
  else .error "id map keys must be uuids"

/-- An id that is set maps there and back, and no other pair is lost or added. -/
theorem mem_set {oldId newId : Text} {m' : IdMap} (h : m.set oldId newId = .ok m') :
    ∀ e, e ∈ m'.entries ↔ e ∈ m.entries ∨ e = (toLowerCase oldId, toLowerCase newId) := by
  unfold set at h
  dsimp only at h
  split_ifs at h with huuid hreserved
  split at h
  · rename_i existing ho
    split_ifs at h with heq
    cases h
    subst heq
    exact fun e => ⟨.inl, fun he => he.elim id fun he => he ▸ forward_eq_some.mp ho⟩
  · split at h
    · cases h
    · cases h
      intro e
      rw [push, List.mem_append, List.mem_singleton]

end IdMap

end Remap

end MyBooks
