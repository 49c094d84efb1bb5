import MyBooks.RemapIds
import MyBooks.Reprint

/-!
# Escapes an id begins in

A hex digit behind a backslash is a letter an id can begin in. Replacing the id leaves the escape one
that PostgreSQL prints, or does not (`Kept`); with every escape kept, and only then, a printed literal
is a printed one with its ids replaced (`printed_substitute`).
-/

namespace MyBooks

namespace Remap

/-! ## Printed literals -/

def escapedChars : List Char := '"' :: '\\' :: (List.range' 1 31).map Char.ofNat

/-- What PostgreSQL prints behind the backslash of an escape. -/
def isEscape (t : Text) : Bool := escapedChars.any fun c => escapeChar c = '\\' :: t

@[grind =] def isPrinted : Text → Bool
  | [] => true
  | '\\' :: 'u' :: a :: b :: c :: d :: r => isEscape ['u', a, b, c, d] && isPrinted r
  | '\\' :: e :: r => isEscape [e] && isPrinted r
  | c :: r => c ≠ '\\' && c ≠ '"' && 32 ≤ c.toNat && isPrinted r

theorem isEscape_iff {t : Text} :
    isEscape t = true ↔ ∃ c ∈ escapedChars, escapeChar c = '\\' :: t := by
  simp only [isEscape, List.any_eq_true, decide_eq_true_eq]

theorem isEscape_short {e : Char} :
    isEscape [e] = true ↔ e ∈ ['"', '\\', 'b', 't', 'n', 'f', 'r'] := by
  constructor
  · intro h
    obtain ⟨c, hc, h⟩ := isEscape_iff.mp h
    have hshort : (escapedChars.filter fun c => (escapeChar c).length = 2).map escapeChar =
        ['"', '\\', 'b', 't', 'n', 'f', 'r'].map fun e => ['\\', e] := by
      decide
    have hmem : ['\\', e] ∈ (escapedChars.filter fun c => (escapeChar c).length = 2).map escapeChar :=
      List.mem_map.mpr ⟨c, List.mem_filter.mpr ⟨hc, by rw [h]; rfl⟩, h⟩
    rw [hshort] at hmem
    obtain ⟨x, hx, hxe⟩ := List.mem_map.mp hmem
    obtain ⟨-, hxe⟩ := List.cons.inj hxe
    exact (List.cons.inj hxe).1 ▸ hx
  · have hall : (['"', '\\', 'b', 't', 'n', 'f', 'r'].all fun x => isEscape [x]) = true := by decide
    exact List.all_eq_true.mp hall e

theorem isPrinted_plain {c : Char} (hs : c ≠ '\\') (hq : c ≠ '"') (hc : 32 ≤ c.toNat) (r : Text) :
    isPrinted (c :: r) = isPrinted r := by
  rw [isPrinted.eq_4]
  · simp only [ne_eq, hs, hq, hc, not_false_eq_true, decide_true, Bool.true_and]
  · intro _ _ _ _ _ h
    exact absurd h hs
  · intro _ _ h
    exact absurd h hs

theorem isPrinted_short {e : Char} (he : e ≠ 'u') (r : Text) :
    isPrinted ('\\' :: e :: r) = (isEscape [e] && isPrinted r) :=
  isPrinted.eq_3 _ _ fun _ _ _ _ _ h => absurd h he

theorem isPrinted_escapeChar {c : Char} (hc : c ≠ '\x00') (t : Text) :
    isPrinted (escapeChar c ++ t) = isPrinted t := by
  have hcontrol : c.toNat < 32 → c ∈ escapedChars := by
    intro hlt
    have hpos : c.toNat ≠ 0 := fun h => hc (by rw [← Char.ofNat_toNat c, h])
    refine List.mem_cons_of_mem _ (List.mem_cons_of_mem _ (List.mem_map.mpr ⟨c.toNat, ?_, ?_⟩))
    · rw [List.mem_range'_1]
      omega
    · exact Char.ofNat_toNat c
  have hstep : ∀ body : Text, c.toNat < 32 → escapeChar c = '\\' :: body → isEscape body = true :=
    fun body hlt h => isEscape_iff.mpr ⟨c, hcontrol hlt, h⟩
  unfold escapeChar at hstep ⊢
  split
  case h_8 hq hs _ _ _ _ _ =>
    split_ifs with hlt
    · have hbody := hstep ['u', '0', '0', hexDigit (c.toNat / 16), hexDigit (c.toNat % 16)] hlt
      simp only [List.cons_append, List.nil_append, isPrinted]
      rw [hbody, Bool.true_and]
      split
      case h_8 => exact if_pos hlt
      all_goals contradiction
    · exact isPrinted_plain hs hq (Nat.not_lt.mp hlt) t
  all_goals
    simp only [List.cons_append, List.nil_append]
    rw [isPrinted_short (by decide), isEscape_short.mpr (by decide), Bool.true_and]

theorem isPrinted_escapeJson {s : List Char} (h : '\x00' ∉ s) : isPrinted (escapeJson s) = true := by
  induction s with
  | nil => rfl
  | cons c s ih =>
    rw [List.mem_cons, not_or] at h
    rw [escapeJson_cons, isPrinted_escapeChar (Ne.symm h.1), ih h.2]

theorem escapeJson_of_printed {raw : Text} (h : isPrinted raw = true) :
    ∃ s : List Char, '\x00' ∉ s ∧ escapeJson s = raw := by
  have hescape : ∀ (body r : Text), isEscape body = true →
      (∃ s : List Char, '\x00' ∉ s ∧ escapeJson s = r) →
        ∃ s : List Char, '\x00' ∉ s ∧ escapeJson s = '\\' :: (body ++ r) := by
    rintro body r hbody ⟨s, hs, rfl⟩
    obtain ⟨c, hmem, hc⟩ := isEscape_iff.mp hbody
    refine ⟨c :: s, List.not_mem_cons_of_ne_of_not_mem ?_ hs, by rw [escapeJson_cons, hc]; rfl⟩
    rintro rfl
    exact absurd hmem (by decide)
  fun_induction isPrinted raw with
  | case1 => exact ⟨[], List.not_mem_nil, rfl⟩
  | case2 a b c d r ih =>
    rw [Bool.and_eq_true] at h
    exact hescape ['u', a, b, c, d] r h.1 (ih h.2)
  | case3 e r _ ih =>
    rw [Bool.and_eq_true] at h
    exact hescape [e] r h.1 (ih h.2)
  | case4 c r _ _ ih =>
    simp only [ne_eq, Bool.and_eq_true, decide_eq_true_eq] at h
    obtain ⟨⟨⟨hs, hq⟩, hc⟩, hr⟩ := h
    obtain ⟨s, hnull, rfl⟩ := ih hr
    refine ⟨c :: s, List.not_mem_cons_of_ne_of_not_mem ?_ hnull, ?_⟩
    · rintro rfl
      exact absurd hc (by decide)
    · rw [escapeJson_cons, escapeChar_plain hs hq hc]
      rfl

theorem unescape_escapeChar (c : Char) (t : Text) :
    unescape (escapeChar c ++ t) = (unescape t).map (utf16 c ++ ·) := by
  unfold escapeChar
  split
  case h_8 hq hs _ _ _ _ _ =>
    split_ifs with hlt
    · have hdigits : ∀ n < 32, hex4 '0' '0' (hexDigit (n / 16)) (hexDigit (n % 16)) = some n := by
        decide
      have hunit : utf16 c = [c.toNat] := if_pos (by omega)
      simp only [List.cons_append, List.nil_append, unescape]
      rw [hdigits _ hlt, hunit]
      cases unescape t <;> rfl
    · rw [List.cons_append, List.nil_append, unescape.eq_4]
      · rw [if_neg (by rintro (h | h | h); exacts [hs h, hq h, hlt h])]
        cases unescape t <;> rfl
      · intro _ _ _ _ _ h
        exact absurd h hs
      · intro _ _ h
        exact absurd h hs
  all_goals
    rw [List.cons_append, List.cons_append, List.nil_append,
      unescape.eq_3 _ _ fun _ _ _ _ _ h => absurd h (by decide)]
    cases unescape t <;> rfl

theorem unescape_escapeJson (s : List Char) : unescape (escapeJson s) = some (s.flatMap utf16) := by
  induction s with
  | nil => rfl
  | cons c s ih =>
    rw [escapeJson_cons, unescape_escapeChar, ih]
    rfl

/-- A literal is printed as it stands exactly when it is made of plain characters and of the escapes
PostgreSQL prints. -/
theorem reprint_self {raw : Text} : reprint raw = some raw ↔ isPrinted raw = true := by
  constructor
  · intro h
    obtain ⟨s, hs, hraw⟩ := Option.map_eq_some_iff.mp h
    rw [← hraw]
    refine isPrinted_escapeJson fun hnull => ?_
    unfold readString at hs
    split at hs
    · split_ifs at hs with hmem
      cases hs
      exact hmem hnull
    · cases hs
  · intro h
    obtain ⟨s, hs, rfl⟩ := escapeJson_of_printed h
    have hread : (unescape (escapeJson s)).bind (decodeUtf16 none) = some s := by
      rw [unescape_escapeJson, Option.bind_some]
      clear hs h
      induction s with
      | nil => rfl
      | cons c s ih =>
        rw [List.flatMap_cons, decodeUtf16_char, ih]
        rfl
    rw [reprint, readString, hread]
    simp only [if_neg hs, Option.map_some]

/-! ## Ids replaced at an escape -/

section Kept

variable {m : IdMap}

/-- The new id of a mapped id that begins a text. -/
def IdMap.newAt (m : IdMap) (s : Text) : Option Text :=
  if startsToken s then m.forward (toLowerCase (s.take 36)) else none

/-- The first `n` letters still pass a test with the first id that begins among them replaced. -/
def IdMap.Keeps (m : IdMap) (ok : Text → Bool) (n : ℕ) (s : Text) : Prop :=
  ∀ k < n, (∀ j < k, startsToken (s.drop j) = false) → ∀ new ∈ m.newAt (s.drop k),
    ok (s.take k ++ new.take (n - k)) = true

/-- The text behind a backslash: an id that begins in the escape leaves it one PostgreSQL prints. -/
def IdMap.Kept (m : IdMap) : Text → Prop
  | 'u' :: r => m.Keeps (fun t => isEscape ('u' :: t)) 4 r
  | s => m.Keeps isEscape 1 s

@[grind =] def IdMap.EscapesKept (m : IdMap) : Text → Prop
  | [] => True
  | '\\' :: c :: r => m.Kept (c :: r) ∧ m.EscapesKept r
  | _ :: r => m.EscapesKept r

theorem IdMap.isUuid_length {tok : Text} (h : isUuid tok = true) : tok.length = 36 := by
  rw [isUuid, Bool.and_eq_true, decide_eq_true_eq] at h
  exact h.1

theorem newAt_token {s new : Text} (h : new ∈ m.newAt s) :
    startsToken s = true ∧ isUuid new = true ∧ m.substitute s = new ++ m.substitute (s.drop 36) := by
  unfold IdMap.newAt at h
  split_ifs at h with hs
  · refine ⟨hs, (m.uuids _ (IdMap.forward_eq_some.mp h)).2, ?_⟩
    rw [IdMap.substitute_eq, replaceTokens_token _ hs, IdMap.newId, h]
    rfl
  · cases h

theorem newAt_none {s : Text} (hs : startsToken s = true) (h : m.newAt s = none) :
    m.substitute s = s.take 36 ++ m.substitute (s.drop 36) := by
  rw [IdMap.newAt, if_pos hs] at h
  rw [IdMap.substitute_eq, replaceTokens_token _ hs, IdMap.newId, h]
  rfl

theorem substitute_char {c : Char} {s : Text} (h : startsToken (c :: s) = false) :
    m.substitute (c :: s) = c :: m.substitute s :=
  replaceTokens_char _ h

/-- What the first letters of a text become. -/
theorem keeps_iff (ok : Text → Bool) : ∀ {n : ℕ} {s : Text}, n ≤ 36 → ok (s.take n) = true →
    (m.Keeps ok n s ↔ ok ((m.substitute s).take n) = true)
  | 0, s, _, h => iff_of_true (fun k hk => absurd hk (Nat.not_lt_zero k)) h
  | n + 1, [], _, h => by
    refine iff_of_true (fun k _ _ new hnew => ?_) h
    rw [List.drop_nil] at hnew
    cases hnew
  | n + 1, c :: s, hn, h => by
    by_cases hs : startsToken (c :: s) = true
    · have hlen := tokenFrom_length hs
      -- the id that begins at once is the first
      have hfirst : m.Keeps ok (n + 1) (c :: s) ↔
          ∀ new ∈ m.newAt (c :: s), ok (new.take (n + 1)) = true := by
        constructor
        · intro hk new hnew
          exact hk 0 (Nat.succ_pos n) (fun j hj => absurd hj (Nat.not_lt_zero j)) new hnew
        · intro hall k _ hbefore new hnew
          cases k with
          | zero => exact hall new hnew
          | succ k =>
            have hfalse := hbefore 0 (Nat.succ_pos k)
            rw [List.drop_zero, hs] at hfalse
            cases hfalse
      rw [hfirst]
      cases hnew : m.newAt (c :: s) with
      | none =>
        refine iff_of_true (fun new h => by cases h) ?_
        rw [newAt_none hs hnew, List.take_append_of_le_length (by rw [List.length_take]; omega),
          List.take_take, Nat.min_eq_left hn]
        exact h
      | some new =>
        obtain ⟨-, huuid, hsub⟩ := newAt_token (m := m) hnew
        rw [hsub, List.take_append_of_le_length (by rw [IdMap.isUuid_length huuid]; exact hn)]
        exact ⟨fun hall => hall new rfl, fun hok new' h' => by cases h'; exact hok⟩
    · rw [Bool.not_eq_true] at hs
      have hnone : m.newAt (c :: s) = none := if_neg (by rw [hs]; decide)
      rw [substitute_char hs, List.take_succ_cons]
      rw [← keeps_iff (fun t => ok (c :: t)) (by omega) h]
      constructor
      · intro hk k hkn hbefore new hnew
        have hnext := hk (k + 1) (Nat.succ_lt_succ hkn) ?_ new hnew
        · rw [Nat.succ_sub_succ] at hnext
          exact hnext
        · intro j hj
          cases j with
          | zero => exact hs
          | succ j => exact hbefore j (Nat.lt_of_succ_lt_succ hj)
      · intro hk k hkn hbefore new hnew
        cases k with
        | zero =>
          rw [List.drop_zero, hnone] at hnew
          cases hnew
        | succ k =>
          have hnext := hk k (Nat.lt_of_succ_lt_succ hkn)
            (fun j hj => hbefore (j + 1) (Nat.succ_lt_succ hj)) new hnew
          rw [Nat.succ_sub_succ]
          exact hnext

end Kept

/-! ## Plain characters -/

def Plain (c : Char) : Prop := c ≠ '\\' ∧ c ≠ '"' ∧ 32 ≤ c.toNat

theorem plain_hex {c : Char} (h : isHex c = true) : Plain c := by
  have hne : ∀ d : Char, isHex d = false → c ≠ d := by
    rintro d hd rfl
    rw [hd] at h
    cases h
  refine ⟨hne _ (by decide), hne _ (by decide), ?_⟩
  simp only [isHex, Bool.or_eq_true, Bool.and_eq_true, decide_eq_true_eq] at h
  have hle : ∀ d : Char, d ≤ c → d.toNat ≤ c.toNat := fun _ h => h
  rcases h with (⟨h, -⟩ | ⟨h, -⟩) | ⟨h, -⟩
  · exact (by decide : 32 ≤ '0'.toNat).trans (hle _ h)
  · exact (by decide : 32 ≤ 'a'.toNat).trans (hle _ h)
  · exact (by decide : 32 ≤ 'A'.toNat).trans (hle _ h)

theorem plain_tokenFrom : ∀ {i n : ℕ} {s : Text}, tokenFrom i n s = true → ∀ c ∈ s.take n, Plain c
  | _, 0, s, _, _, hc => by
    rw [List.take_zero] at hc
    cases hc
  | _, _ + 1, [], h, _, _ => by cases h
  | i, n + 1, d :: s, h, c, hc => by
    rw [tokenFrom, Bool.and_eq_true] at h
    rcases List.mem_cons.mp hc with rfl | hc
    · have hhead := h.1
      split_ifs at hhead
      · rw [decide_eq_true_eq] at hhead
        rw [hhead]
        exact ⟨by decide, by decide, by decide⟩
      · exact plain_hex hhead
    · exact plain_tokenFrom h.2 c hc

theorem plain_uuid {tok : Text} (h : isUuid tok = true) : ∀ c ∈ tok, Plain c := by
  have hlen := IdMap.isUuid_length h
  rw [isUuid, Bool.and_eq_true] at h
  intro c hc
  refine plain_tokenFrom h.2 c ?_
  rw [List.take_of_length_le hlen.le]
  exact hc

theorem isPrinted_append {t : Text} (ht : ∀ c ∈ t, Plain c) (r : Text) :
    isPrinted (t ++ r) = isPrinted r := by
  induction t with
  | nil => rfl
  | cons c t ih =>
    obtain ⟨hs, hq, hc⟩ := ht c List.mem_cons_self
    rw [List.cons_append, isPrinted_plain hs hq hc, ih fun d hd => ht d (List.mem_cons_of_mem c hd)]

theorem escapesKept_plain {m : IdMap} {c : Char} (hc : c ≠ '\\') (r : Text) :
    m.EscapesKept (c :: r) ↔ m.EscapesKept r := by
  rw [IdMap.EscapesKept.eq_3]
  intro d s h
  exact absurd h hc

theorem escapesKept_append {m : IdMap} {t : Text} (ht : ∀ c ∈ t, Plain c) (r : Text) :
    m.EscapesKept (t ++ r) ↔ m.EscapesKept r := by
  induction t with
  | nil => rfl
  | cons c t ih =>
    rw [List.cons_append, escapesKept_plain (ht c List.mem_cons_self).1,
      ih fun d hd => ht d (List.mem_cons_of_mem c hd)]

theorem hex_escape {a b c d : Char} (h : isEscape ['u', a, b, c, d] = true) :
    isHex a = true ∧ isHex b = true ∧ isHex c = true ∧ isHex d = true := by
  obtain ⟨x, hx, hbody⟩ := isEscape_iff.mp h
  have hall : (escapedChars.all fun x => (escapeChar x).length ≠ 6
      || ((escapeChar x).drop 2).all isHex) = true := by decide
  have hdigits := List.all_eq_true.mp hall x hx
  rw [hbody] at hdigits
  simpa using hdigits

/-! ## A literal with its ids replaced -/

section Replaced

variable {m : IdMap}

theorem substitute_alike (s : Text) : List.Forall₂ Alike s (m.substitute s) :=
  replaceTokens_alike IdMap.isUuid_newId s

theorem printed_token {raw : Text} (hs : startsToken raw = true)
    (ih : isPrinted (raw.drop 36) = true →
      (isPrinted (m.substitute (raw.drop 36)) = true ↔ m.EscapesKept (raw.drop 36)))
    (h : isPrinted raw = true) : isPrinted (m.substitute raw) = true ↔ m.EscapesKept raw := by
  have htoken := plain_uuid (isUuid_take hs)
  have hraw : raw = raw.take 36 ++ raw.drop 36 := (List.take_append_drop 36 raw).symm
  have hdrop : isPrinted (raw.drop 36) = true := by
    rw [hraw, isPrinted_append htoken] at h
    exact h
  have hkept : m.EscapesKept raw ↔ m.EscapesKept (raw.drop 36) := by
    conv_lhs => rw [hraw]
    exact escapesKept_append htoken _
  rw [hkept, ← ih hdrop]
  rcases hnew : m.newAt raw with _ | new
  · rw [newAt_none hs hnew, isPrinted_append htoken]
  · obtain ⟨-, huuid, hsub⟩ := newAt_token (m := m) hnew
    rw [hsub, isPrinted_append (plain_uuid huuid)]

/-- An escape of one letter. -/
theorem printed_short {e : Char} {r : Text} (he : isEscape [e] = true) (hr : isPrinted r = true)
    (ih : ∀ s : Text, s.length ≤ (e :: r).length → isPrinted s = true →
      (isPrinted (m.substitute s) = true ↔ m.EscapesKept s)) :
    isPrinted (m.substitute ('\\' :: e :: r)) = true ↔ m.EscapesKept ('\\' :: e :: r) := by
  have hu : e ≠ 'u' := by
    rintro rfl
    exact absurd he (by decide)
  have hkept : m.Kept (e :: r) ↔ isEscape ((m.substitute (e :: r)).take 1) = true := by
    rw [IdMap.Kept.eq_2 _ _ fun _ h => absurd (List.cons.inj h).1 hu]
    exact keeps_iff isEscape (by decide) he
  have hslash : m.substitute ('\\' :: e :: r) = '\\' :: m.substitute (e :: r) :=
    substitute_char (by rfl)
  rw [hslash, IdMap.EscapesKept.eq_2, hkept]
  obtain ⟨x, t, hx, -, hsub⟩ := List.forall₂_cons_left_iff.mp (substitute_alike (m := m) (e :: r))
  have hxu : x ≠ 'u' := fun h => hu ((hx.eq_iff (by decide)).mpr h)
  rw [hsub, isPrinted_short hxu, Bool.and_eq_true]
  refine and_congr_right fun _ => ?_
  by_cases hout : e = '\\' ∨ e = '"'
  · -- the letter is in no id
    have hoe : isOutside e = true := by rcases hout with rfl | rfl <;> decide
    have hcut : m.substitute (e :: r) = e :: m.substitute r := replaceTokens_append hoe [] r
    rw [hcut] at hsub
    obtain ⟨-, rfl⟩ := List.cons.inj hsub
    exact ih r (Nat.le_succ _) hr
  · rw [not_or] at hout
    have he32 : 32 ≤ e.toNat := by
      have hall : (['"', '\\', 'b', 't', 'n', 'f', 'r'].all fun e => 32 ≤ e.toNat) = true := by
        decide
      exact of_decide_eq_true (List.all_eq_true.mp hall e (isEscape_short.mp he))
    have hplain : Plain x := by
      rcases hx with rfl | ⟨-, hhex⟩
      · exact ⟨hout.1, hout.2, he32⟩
      · exact plain_hex hhex
    have hs := ih (e :: r) le_rfl (by rw [isPrinted_plain hout.1 hout.2 he32]; exact hr)
    rw [hsub, isPrinted_plain hplain.1 hplain.2.1 hplain.2.2, escapesKept_plain hout.1] at hs
    exact hs

/-- An escape of four digits. -/
theorem printed_hex {a b c d : Char} {r : Text} (h : isEscape ['u', a, b, c, d] = true)
    (hr : isPrinted r = true)
    (ih : isPrinted (a :: b :: c :: d :: r) = true →
      (isPrinted (m.substitute (a :: b :: c :: d :: r)) = true ↔
        m.EscapesKept (a :: b :: c :: d :: r))) :
    isPrinted (m.substitute ('\\' :: 'u' :: a :: b :: c :: d :: r)) = true ↔
      m.EscapesKept ('\\' :: 'u' :: a :: b :: c :: d :: r) := by
  obtain ⟨ha, hb, hc, hd⟩ := hex_escape h
  have hdigits : ∀ t : List Char, (∀ x ∈ t, isHex x = true) → ∀ x ∈ t, Plain x :=
    fun t ht x hx => plain_hex (ht x hx)
  have hprinted : isPrinted ([a, b, c, d] ++ r) = true := by
    rw [isPrinted_append (hdigits _ (by simp [ha, hb, hc, hd]))]
    exact hr
  have hslash : m.substitute ('\\' :: 'u' :: a :: b :: c :: d :: r)
      = '\\' :: 'u' :: m.substitute (a :: b :: c :: d :: r) := by
    rw [substitute_char (by rfl), substitute_char (by rfl)]
  have hkept : m.Kept ('u' :: a :: b :: c :: d :: r) ↔
      isEscape ('u' :: (m.substitute (a :: b :: c :: d :: r)).take 4) = true :=
    keeps_iff (fun t => isEscape ('u' :: t)) (by decide) h
  rw [hslash, IdMap.EscapesKept.eq_2, hkept, ← ih hprinted]
  have halike := substitute_alike (m := m) (a :: b :: c :: d :: r)
  obtain ⟨x, t, hx, ht, hsub⟩ := List.forall₂_cons_left_iff.mp halike
  rcases ht with _ | @⟨_, y, _, _, hy, _ | @⟨_, z, _, _, hz, _ | @⟨_, w, _, t, hw, -⟩⟩⟩
  have hplain : ∀ e ∈ [x, y, z, w], Plain e := by
    refine hdigits _ ?_
    simp [← hx.isHex_eq, ← hy.isHex_eq, ← hz.isHex_eq, ← hw.isHex_eq, ha, hb, hc, hd]
  have hrest : isPrinted (x :: y :: z :: w :: t) = isPrinted t := isPrinted_append hplain t
  rw [hsub, hrest, isPrinted, Bool.and_eq_true]
  exact Iff.rfl

theorem printed_substitute {raw : Text} (h : isPrinted raw = true) :
    isPrinted (m.substitute raw) = true ↔ m.EscapesKept raw := by
  by_cases hs : startsToken raw = true
  · have hlen := tokenFrom_length hs
    exact printed_token hs (fun hdrop => printed_substitute hdrop) h
  · rw [Bool.not_eq_true] at hs
    fun_cases isPrinted raw with
    | case1 => exact iff_of_true rfl trivial
    | case2 a b c d r =>
      rw [isPrinted, Bool.and_eq_true] at h
      exact printed_hex h.1 h.2 fun hr => printed_substitute hr
    | case3 e r hdigits =>
      rw [isPrinted.eq_3 _ _ hdigits, Bool.and_eq_true] at h
      exact printed_short h.1 h.2 fun s hlen hr => printed_substitute hr
    | case4 c r hdigits hescape =>
      have hplain := h
      rw [isPrinted.eq_4 _ _ hdigits hescape] at hplain
      simp only [ne_eq, Bool.and_eq_true, decide_eq_true_eq] at hplain
      obtain ⟨⟨⟨hslash, hquote⟩, hcontrol⟩, hr⟩ := hplain
      rw [substitute_char hs, isPrinted_plain hslash hquote hcontrol, escapesKept_plain hslash]
      exact printed_substitute hr
termination_by raw.length
decreasing_by
  all_goals subst_vars; simp only [List.length_cons, List.length_drop] at *; omega

end Replaced

end Remap

end MyBooks
