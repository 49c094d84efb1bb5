import MyBooks.StoredRows

/-!
# A literal read and printed again

The text PostgreSQL prints for what it has read is never heavier than the text it read, counting
each upper-case letter once more, and as heavy only where it is that text (`weight_reprint`).
-/

namespace MyBooks

namespace Remap

/-! ## Length and upper case -/

def weight (t : Text) : ℕ := t.length + uppers t

@[simp] theorem weight_append (s t : Text) : weight (s ++ t) = weight s + weight t := by
  simp only [weight, List.length_append, uppers_append]
  omega

theorem weight_cons (c : Char) (t : Text) : weight (c :: t) = weight [c] + weight t :=
  weight_append [c] t

theorem weight_single (c : Char) : weight [c] = if c.isUpper then 2 else 1 := by
  unfold weight uppers
  cases h : c.isUpper <;> simp [h]

theorem weight_single_le (c : Char) : 1 ≤ weight [c] ∧ weight [c] ≤ 2 := by
  rw [weight_single]
  split_ifs <;> omega

/-! ## Code units -/

theorem char_not_surrogate (c : Char) :
    isHighSurrogate c.toNat = false ∧ isLowSurrogate c.toNat = false := by
  have h := c.valid
  simp only [isHighSurrogate, isLowSurrogate, Bool.and_eq_false_iff, decide_eq_false_iff_not]
  have : c.toNat < 0xD800 ∨ 0xDFFF < c.toNat ∧ c.toNat < 0x110000 := h
  omega

variable {lone : Option Char}

theorem decodeUtf16_cons {u : ℕ} {us : List ℕ}
    (h : isHighSurrogate u = false ∨ ∀ v ∈ us.head?, isLowSurrogate v = false) :
    decodeUtf16 lone (u :: us) =
      (loneUnit lone u).bind fun c => (decodeUtf16 lone us).map (c :: ·) := by
  cases us with
  | nil =>
    simp only [decodeUtf16]
    cases loneUnit lone u <;> rfl
  | cons v us =>
    have hpair : (isHighSurrogate u && isLowSurrogate v) = false := by
      rcases h with h | h
      · rw [h, Bool.false_and]
      · rw [h v rfl, Bool.and_false]
    rw [decodeUtf16, hpair]
    cases loneUnit lone u with
    | none => rfl
    | some c => cases decodeUtf16 lone (v :: us) <;> rfl

theorem decodeUtf16_pair {u v : ℕ} (hu : isHighSurrogate u = true) (hv : isLowSurrogate v = true)
    (us : List ℕ) : decodeUtf16 lone (u :: v :: us) = (decodeUtf16 lone us).map
      (Char.ofNat (0x10000 + (u - 0xD800) * 0x400 + (v - 0xDC00)) :: ·) := by
  rw [decodeUtf16, hu, hv]
  cases decodeUtf16 lone us <;> rfl

theorem decodeUtf16_char (c : Char) (us : List ℕ) :
    decodeUtf16 lone (utf16 c ++ us) = (decodeUtf16 lone us).map (c :: ·) := by
  unfold utf16
  split_ifs with h
  · obtain ⟨hhigh, hlow⟩ := char_not_surrogate c
    rw [List.cons_append, List.nil_append, decodeUtf16_cons (.inl hhigh), loneUnit, hhigh, hlow,
      Char.ofNat_toNat]
    rfl
  · have hvalid : c.toNat < 0x110000 := by
      have : c.toNat < 0xD800 ∨ 0xDFFF < c.toNat ∧ c.toNat < 0x110000 := c.valid
      omega
    have hhigh : isHighSurrogate (0xD800 + (c.toNat - 0x10000) / 0x400) = true := by
      simp only [isHighSurrogate, Bool.and_eq_true, decide_eq_true_eq]
      omega
    have hlow : isLowSurrogate (0xDC00 + (c.toNat - 0x10000) % 0x400) = true := by
      simp only [isLowSurrogate, Bool.and_eq_true, decide_eq_true_eq]
      omega
    rw [List.cons_append, List.cons_append, List.nil_append, decodeUtf16_pair hhigh hlow]
    have hn : 0x10000 + (0xD800 + (c.toNat - 0x10000) / 0x400 - 0xD800) * 0x400
        + (0xDC00 + (c.toNat - 0x10000) % 0x400 - 0xDC00) = c.toNat := by omega
    rw [hn, Char.ofNat_toNat]

theorem utf16_head_not_low (c : Char) (us : List ℕ) :
    ∀ v ∈ (utf16 c ++ us).head?, isLowSurrogate v = false := by
  intro v hv
  unfold utf16 at hv
  split_ifs at hv with h
  · cases hv
    exact (char_not_surrogate c).2
  · cases hv
    have : c.toNat < 0xD800 ∨ 0xDFFF < c.toNat ∧ c.toNat < 0x110000 := c.valid
    simp only [isLowSurrogate, Bool.and_eq_false_iff, decide_eq_false_iff_not]
    omega

theorem utf16_shortEscape {e c : Char} (h : shortEscape e = some c) : utf16 c = [c.toNat] := by
  unfold shortEscape at h
  split at h <;> cases h <;> rfl

/-- How the raw text of a string begins. -/
inductive Begins : Text → List ℕ → Prop
  | nil : Begins [] []
  | hex {a b c d : Char} {r : Text} {u : ℕ} {us : List ℕ} (value : hex4 a b c d = some u)
      (rest : unescape r = some us) : Begins ('\\' :: 'u' :: a :: b :: c :: d :: r) (u :: us)
  | short {e c : Char} {r : Text} {us : List ℕ} (value : shortEscape e = some c)
      (rest : unescape r = some us) : Begins ('\\' :: e :: r) (utf16 c ++ us)
  | char {c : Char} {r : Text} {us : List ℕ} (slash : c ≠ '\\') (quote : c ≠ '"')
      (control : 32 ≤ c.toNat) (rest : unescape r = some us) : Begins (c :: r) (utf16 c ++ us)

theorem unescape_begins {raw : Text} {us : List ℕ} (h : unescape raw = some us) : Begins raw us := by
  unfold unescape at h
  split at h
  · cases h
    exact .nil
  · split at h
    · cases h
      exact .hex ‹_› ‹_›
    · cases h
  · split at h
    · cases h
      rename_i c us' hc hr
      have hbegins := Begins.short hc hr
      rw [utf16_shortEscape hc] at hbegins
      exact hbegins
    · cases h
  · split_ifs at h with hc
    split at h
    · cases h
      exact .char (fun he => hc (.inl he)) (fun he => hc (.inr (.inl he)))
        (Nat.not_lt.mp fun he => hc (.inr (.inr he))) ‹_›
    · cases h

/-! ## Escapes -/

theorem hexVal_lower {c : Char} {k : ℕ} (h : hexVal c = some k) (hc : c.isUpper = false) :
    k < 16 ∧ c = hexDigit k := by
  unfold hexVal at h
  split_ifs at h with h1 h2 h3
  · cases h
    have hle : '0'.toNat ≤ c.toNat ∧ c.toNat ≤ '9'.toNat := h1
    have hc' : c.toNat - '0'.toNat < 10 := by
      have : '9'.toNat = '0'.toNat + 9 := rfl
      omega
    refine ⟨by omega, ?_⟩
    rw [hexDigit, if_pos hc', show 48 + (c.toNat - '0'.toNat) = c.toNat by
      have : '0'.toNat = 48 := rfl
      omega, Char.ofNat_toNat]
  · cases h
    have hle : 'a'.toNat ≤ c.toNat ∧ c.toNat ≤ 'f'.toNat := h2
    have ha : 'a'.toNat = 97 := rfl
    have hf : 'f'.toNat = 102 := rfl
    refine ⟨by omega, ?_⟩
    rw [hexDigit, if_neg (by omega), show 87 + (c.toNat - 'a'.toNat + 10) = c.toNat by omega,
      Char.ofNat_toNat]
  · exfalso
    have hle : 'A' ≤ c ∧ c ≤ 'F' := h3
    have hup : c.isUpper = true :=
      decide_eq_true ⟨hle.1, Char.le_trans hle.2 (by decide)⟩
    rw [hup] at hc
    cases hc

theorem weight_escapeChar_le (c : Char) : weight (escapeChar c) ≤ 6 := by
  unfold escapeChar
  split
  case h_8 =>
    split_ifs with hlt
    · have hdigits : ∀ n < 32, weight ['\\', 'u', '0', '0', hexDigit (n / 16), hexDigit (n % 16)] ≤ 6 := by
        decide
      exact hdigits _ hlt
    · exact (weight_single_le c).2.trans (by decide)
  all_goals decide

theorem escapeChar_plain {c : Char} (hs : c ≠ '\\') (hq : c ≠ '"') (hc : 32 ≤ c.toNat) :
    escapeChar c = [c] := by
  have hne : ∀ d : Char, d.toNat < 32 → c ≠ d := by
    rintro d hd rfl
    omega
  unfold escapeChar
  split
  case h_8 => exact if_neg (Nat.not_lt.mpr hc)
  case h_1 => exact absurd rfl hq
  case h_2 => exact absurd rfl hs
  all_goals exact absurd rfl (hne _ (by decide))

theorem weight_escapeChar_short {e c : Char} (h : shortEscape e = some c) :
    weight (escapeChar c) ≤ weight ['\\', e]
      ∧ (weight (escapeChar c) = weight ['\\', e] → escapeChar c = ['\\', e]) := by
  unfold shortEscape at h
  split at h <;> cases h <;> decide

theorem escapeChar_heavy {c : Char} (h : weight (escapeChar c) = 6) : c.toNat < 32
    ∧ escapeChar c = ['\\', 'u', '0', '0', hexDigit (c.toNat / 16), hexDigit (c.toNat % 16)] := by
  unfold escapeChar at h ⊢
  split at h
  case h_8 =>
    split_ifs at h with hlt
    · exact ⟨hlt, if_pos hlt⟩
    · have := (weight_single_le c).2
      omega
  all_goals exact absurd h (by decide)

theorem toNat_ofNat {u : ℕ} (h : u < 65536) (hhigh : isHighSurrogate u = false)
    (hlow : isLowSurrogate u = false) : (Char.ofNat u).toNat = u := by
  simp only [isHighSurrogate, isLowSurrogate, Bool.and_eq_false_iff, decide_eq_false_iff_not]
    at hhigh hlow
  have hvalid : u.isValidChar := by
    unfold Nat.isValidChar
    omega
  rw [Char.ofNat, dif_pos hvalid]
  rfl

theorem hex4_digits {a b c d : Char} {u : ℕ} (h : hex4 a b c d = some u) : ∃ va vb vc vd,
    hexVal a = some va ∧ hexVal b = some vb ∧ hexVal c = some vc ∧ hexVal d = some vd
      ∧ u = va * 4096 + vb * 256 + vc * 16 + vd := by
  unfold hex4 at h
  obtain ⟨va, ha, h⟩ := Option.bind_eq_some_iff.mp h
  obtain ⟨vb, hb, h⟩ := Option.bind_eq_some_iff.mp h
  obtain ⟨vc, hc, h⟩ := Option.bind_eq_some_iff.mp h
  obtain ⟨vd, hd, h⟩ := Option.bind_eq_some_iff.mp h
  exact ⟨va, vb, vc, vd, ha, hb, hc, hd, (Option.some.inj h).symm⟩

theorem hexVal_lt {c : Char} {k : ℕ} (h : hexVal c = some k) : k < 16 := by
  unfold hexVal at h
  split_ifs at h with h1 h2 h3 <;> cases h
  · have hle : '0'.toNat ≤ c.toNat ∧ c.toNat ≤ '9'.toNat := h1
    have : '9'.toNat = '0'.toNat + 9 := rfl
    omega
  · have hle : 'a'.toNat ≤ c.toNat ∧ c.toNat ≤ 'f'.toNat := h2
    have : 'f'.toNat = 'a'.toNat + 5 := rfl
    omega
  · have hle : 'A'.toNat ≤ c.toNat ∧ c.toNat ≤ 'F'.toNat := h3
    have : 'F'.toNat = 'A'.toNat + 5 := rfl
    omega

/-- An escape with four digits weighs six at least, and six only where it is the one printed. -/
theorem weight_escapeChar_hex {a b c d : Char} {u : ℕ} (h : hex4 a b c d = some u)
    (hhigh : isHighSurrogate u = false) (hlow : isLowSurrogate u = false) :
    weight (escapeChar (Char.ofNat u)) ≤ weight ['\\', 'u', a, b, c, d]
      ∧ (weight (escapeChar (Char.ofNat u)) = weight ['\\', 'u', a, b, c, d] →
        escapeChar (Char.ofNat u) = ['\\', 'u', a, b, c, d]) := by
  have hweight : weight ['\\', 'u', a, b, c, d] = 6 + uppers [a, b, c, d] := rfl
  have hle := weight_escapeChar_le (Char.ofNat u)
  refine ⟨by omega, fun heq => ?_⟩
  obtain ⟨va, vb, vc, vd, ha, hb, hc, hd, hu⟩ := hex4_digits h
  have hup : uppers [a, b, c, d] = 0 := by omega
  obtain ⟨hlt, hprinted⟩ := escapeChar_heavy (c := Char.ofNat u) (by omega)
  have hbound := hexVal_lt ha
  have hbound' := hexVal_lt hb
  have hbound'' := hexVal_lt hc
  have hbound''' := hexVal_lt hd
  rw [toNat_ofNat (by omega) hhigh hlow] at hlt hprinted
  have hlower : ∀ x ∈ [a, b, c, d], x.isUpper = false := by
    intro x hx
    rw [Bool.eq_false_iff]
    exact List.countP_eq_zero.mp hup x hx
  have ha' := (hexVal_lower ha (hlower a (by simp))).2
  have hb' := (hexVal_lower hb (hlower b (by simp))).2
  have hc' := (hexVal_lower hc (hlower c (by simp))).2
  have hd' := (hexVal_lower hd (hlower d (by simp))).2
  obtain rfl : va = 0 := by omega
  obtain rfl : vb = 0 := by omega
  rw [hprinted, ha', hb', hc', hd', show u / 16 = vc by omega, show u % 16 = vd by omega]
  rfl

/-! ## The literal printed again -/

theorem escapeJson_cons (c : Char) (s : List Char) :
    escapeJson (c :: s) = escapeChar c ++ escapeJson s :=
  List.flatMap_cons

/-- One character printed as no more than the text it was read from, and the rest likewise. -/
theorem weight_step {t r : Text} {c : Char} {s : List Char}
    (hc : weight (escapeChar c) ≤ weight t ∧ (weight (escapeChar c) = weight t → escapeChar c = t))
    (hs : weight (escapeJson s) ≤ weight r ∧ (weight (escapeJson s) = weight r → escapeJson s = r)) :
    weight (escapeJson (c :: s)) ≤ weight (t ++ r)
      ∧ (weight (escapeJson (c :: s)) = weight (t ++ r) → escapeJson (c :: s) = t ++ r) := by
  rw [escapeJson_cons, weight_append, weight_append]
  obtain ⟨hcle, hceq⟩ := hc
  obtain ⟨hsle, hseq⟩ := hs
  exact ⟨by omega, fun h => by rw [hceq (by omega), hseq (by omega)]⟩

theorem weight_escapeJson {raw : Text} {us : List ℕ} {s : List Char} (hraw : unescape raw = some us)
    (hs : decodeUtf16 none us = some s) : weight (escapeJson s) ≤ weight raw
      ∧ (weight (escapeJson s) = weight raw → escapeJson s = raw) := by
  cases unescape_begins hraw with
  | nil =>
    cases hs
    exact ⟨le_rfl, fun _ => rfl⟩
  | @char c r us hslash hquote hcontrol hr =>
    rw [decodeUtf16_char] at hs
    obtain ⟨s', hs', rfl⟩ := Option.map_eq_some_iff.mp hs
    refine weight_step (t := [c]) ?_ (weight_escapeJson hr hs')
    rw [escapeChar_plain hslash hquote hcontrol]
    exact ⟨le_rfl, fun _ => rfl⟩
  | @short e c r us hvalue hr =>
    rw [decodeUtf16_char] at hs
    obtain ⟨s', hs', rfl⟩ := Option.map_eq_some_iff.mp hs
    exact weight_step (t := ['\\', e]) (weight_escapeChar_short hvalue) (weight_escapeJson hr hs')
  | @hex a b c d r u us hvalue hr =>
    by_cases hpair : isHighSurrogate u = true ∧ ∃ v ∈ us.head?, isLowSurrogate v = true
    · -- the pair is twelve characters, and one when printed
      obtain ⟨hu, v, hv, hlow⟩ := hpair
      cases unescape_begins hr with
      | nil => cases hv
      | @char c' _ us' =>
        have := utf16_head_not_low c' us' v hv
        rw [hlow] at this
        cases this
      | @short e' c' _ us' =>
        have := utf16_head_not_low c' us' v hv
        rw [hlow] at this
        cases this
      | @hex a' b' c' d' r' u' us' hvalue' hr' =>
        cases hv
        rw [decodeUtf16_pair hu hlow] at hs
        obtain ⟨s', hs', rfl⟩ := Option.map_eq_some_iff.mp hs
        have hle := weight_escapeChar_le
          (Char.ofNat (0x10000 + (u - 0xD800) * 0x400 + (v - 0xDC00)))
        have hheavy : 12 ≤ weight ['\\', 'u', a, b, c, d, '\\', 'u', a', b', c', d'] :=
          Nat.le_add_right _ _
        exact weight_step (t := ['\\', 'u', a, b, c, d, '\\', 'u', a', b', c', d'])
          ⟨by omega, fun h => by omega⟩ (weight_escapeJson hr' hs')
    · have hfirst : isHighSurrogate u = false ∨ ∀ v ∈ us.head?, isLowSurrogate v = false := by
        by_contra hne
        rw [not_or, Bool.not_eq_false] at hne
        refine hne.2 fun v hv => ?_
        rw [Bool.eq_false_iff]
        exact fun hlow => hpair ⟨hne.1, v, hv, hlow⟩
      rw [decodeUtf16_cons hfirst] at hs
      obtain ⟨ch, hch, hs⟩ := Option.bind_eq_some_iff.mp hs
      obtain ⟨s', hs', rfl⟩ := Option.map_eq_some_iff.mp hs
      unfold loneUnit at hch
      split_ifs at hch with hsurrogate
      cases hch
      rw [Bool.not_eq_true, Bool.or_eq_false_iff] at hsurrogate
      exact weight_step (t := ['\\', 'u', a, b, c, d])
        (weight_escapeChar_hex hvalue hsurrogate.1 hsurrogate.2) (weight_escapeJson hr hs')
termination_by raw.length
decreasing_by
  all_goals subst_vars; simp only [List.length_cons]; omega

/-- A literal printed again weighs no more, and as much only if it was printed before. -/
theorem weight_reprint {raw raw' : Text} (h : reprint raw = some raw') :
    weight raw' ≤ weight raw ∧ (weight raw' = weight raw → raw' = raw) := by
  obtain ⟨s, hs, rfl⟩ := Option.map_eq_some_iff.mp h
  unfold readString at hs
  split at hs
  · rename_i s' hdecode
    obtain ⟨us, hus, hdecode⟩ := Option.bind_eq_some_iff.mp hdecode
    split_ifs at hs
    cases hs
    exact weight_escapeJson hus hdecode
  · cases hs

theorem closed_cons {c : Char} (hs : c ≠ '\\') (hq : c ≠ '"') (t : Text) :
    closed (c :: t) = closed t := by
  rw [closed.eq_3]
  · simp only [ne_eq, hs, hq, not_false_eq_true, decide_true, Bool.true_and]
  · intro d r h
    exact absurd h hs

theorem closed_escapeChar (c : Char) (t : Text) : closed (escapeChar c ++ t) = closed t := by
  have hdigit : ∀ n < 16, hexDigit n ≠ '\\' ∧ hexDigit n ≠ '"' := by decide
  unfold escapeChar
  split
  case h_8 hq hs _ _ _ _ _ =>
    split_ifs with hlt
    · obtain ⟨h1, h1'⟩ := hdigit (c.toNat / 16) (by omega)
      obtain ⟨h2, h2'⟩ := hdigit (c.toNat % 16) (by omega)
      calc closed ('0' :: '0' :: hexDigit (c.toNat / 16) :: hexDigit (c.toNat % 16) :: t)
          = closed (hexDigit (c.toNat / 16) :: hexDigit (c.toNat % 16) :: t) := rfl
        _ = closed t := by rw [closed_cons h1 h1', closed_cons h2 h2']
    · exact closed_cons hs hq t
  all_goals rfl

theorem closed_escapeJson (s : List Char) : closed (escapeJson s) = true := by
  induction s with
  | nil => rfl
  | cons c s ih => rw [escapeJson_cons, closed_escapeChar, ih]

end Remap

end MyBooks
