import Mathlib.Data.List.Basic

/-!
# UTF-8

A text as bytes, and bytes read as a text: a byte that belongs to no character is read as the
replacement character. A text's bytes read as the text (`readUtf8_bytes`).
-/

namespace MyBooks

def utf8Bytes (t : List Char) : List UInt8 := t.flatMap String.utf8EncodeChar

/-- A character of which some bytes are missing, with the bounds of the next one. -/
structure PartialChar where
  needed : ℕ
  lower : ℕ
  upper : ℕ
  bits : ℕ

def replacement : Char := Char.ofNat 0xFFFD

/-- What is read at a byte that begins a character, and what is missing then. -/
def firstByte (b : ℕ) : List Char × Option PartialChar :=
  if b < 0x80 then ([Char.ofNat b], none)
  else if 0xC2 ≤ b ∧ b < 0xE0 then ([], some ⟨1, 0x80, 0xBF, b - 0xC0⟩)
  else if 0xE0 ≤ b ∧ b < 0xF0 then
    ([], some ⟨2, if b = 0xE0 then 0xA0 else 0x80, if b = 0xED then 0x9F else 0xBF, b - 0xE0⟩)
  else if 0xF0 ≤ b ∧ b < 0xF5 then
    ([], some ⟨3, if b = 0xF0 then 0x90 else 0x80, if b = 0xF4 then 0x8F else 0xBF, b - 0xF0⟩)
  else ([replacement], none)

/-- A byte out of bounds ends the character before it and begins the next one. -/
def nextByte : Option PartialChar → ℕ → List Char × Option PartialChar
  | none, b => firstByte b
  | some p, b =>
    if p.lower ≤ b ∧ b ≤ p.upper then
      let bits := p.bits * 64 + (b - 0x80)
      if p.needed = 1 then ([Char.ofNat bits], none)
      else ([], some ⟨p.needed - 1, 0x80, 0xBF, bits⟩)
    else (replacement :: (firstByte b).1, (firstByte b).2)

def readUtf8 : Option PartialChar → List UInt8 → List Char
  | none, [] => []
  | some _, [] => [replacement]
  | p, b :: bs => (nextByte p b.toNat).1 ++ readUtf8 (nextByte p b.toNat).2 bs

example : readUtf8 none [0x61, 0xE2, 0x82, 0xAC, 0xFF, 0xE2, 0x82] =
    ['a', '€', replacement, replacement] := by
  decide +kernel

section Read

variable {n : ℕ} {p : PartialChar} {bs : List UInt8}

theorem readUtf8_cons (p : Option PartialChar) (b : UInt8) (bs : List UInt8) :
    readUtf8 p (b :: bs) = (nextByte p b.toNat).1 ++ readUtf8 (nextByte p b.toNat).2 bs := by
  cases p <;> rfl

theorem readUtf8_first {m : ℕ} (hm : m < 256) (bs : List UInt8) :
    readUtf8 none (UInt8.ofNat m :: bs) = (firstByte m).1 ++ readUtf8 (firstByte m).2 bs := by
  have hbyte : (UInt8.ofNat m).toNat = m := by
    rw [UInt8.toNat_ofNat']
    exact Nat.mod_eq_of_lt hm
  rw [readUtf8_cons, hbyte]
  rfl

/-- A byte within the bounds gives six bits more. -/
theorem nextByte_within (hn : n < 64) (hlower : p.lower ≤ n + 0x80) (hupper : n + 0x80 ≤ p.upper) :
    nextByte (some p) (UInt8.ofNat (n + 0x80)).toNat =
      if p.needed = 1 then ([Char.ofNat (p.bits * 64 + n)], none)
      else ([], some ⟨p.needed - 1, 0x80, 0xBF, p.bits * 64 + n⟩) := by
  have hbyte : (UInt8.ofNat (n + 0x80)).toNat = n + 0x80 := by
    rw [UInt8.toNat_ofNat']
    omega
  rw [hbyte, nextByte, if_pos ⟨hlower, hupper⟩, Nat.add_sub_cancel]

theorem readUtf8_last {lower upper bits : ℕ} (hn : n < 64) (hlower : lower ≤ n + 0x80)
    (hupper : n + 0x80 ≤ upper) :
    readUtf8 (some ⟨1, lower, upper, bits⟩) (UInt8.ofNat (n + 0x80) :: bs) =
      Char.ofNat (bits * 64 + n) :: readUtf8 none bs := by
  rw [readUtf8_cons, nextByte_within hn hlower hupper]
  rfl

theorem readUtf8_more {k lower upper bits : ℕ} (hn : n < 64) (hlower : lower ≤ n + 0x80)
    (hupper : n + 0x80 ≤ upper) :
    readUtf8 (some ⟨k + 2, lower, upper, bits⟩) (UInt8.ofNat (n + 0x80) :: bs) =
      readUtf8 (some ⟨k + 1, 0x80, 0xBF, bits * 64 + n⟩) bs := by
  rw [readUtf8_cons, nextByte_within hn hlower hupper, if_neg (by dsimp only; omega)]
  rfl

/-- A character is read at its bytes. -/
theorem readUtf8_char (c : Char) (bs : List UInt8) :
    readUtf8 none (String.utf8EncodeChar c ++ bs) = c :: readUtf8 none bs := by
  obtain ⟨v, hv⟩ : ∃ v, c.toNat = v := ⟨_, rfl⟩
  have hc : Char.ofNat v = c := hv ▸ Char.ofNat_toNat c
  have hvalid : v < 0xD800 ∨ 0xDFFF < v ∧ v < 0x110000 := hv ▸ c.valid
  have hv' : c.val.toNat = v := hv
  unfold String.utf8EncodeChar
  rw [hv']
  dsimp only
  -- by how many bytes the character takes
  split_ifs with h1 h2 h3 <;> simp only [List.cons_append, List.nil_append]
  · rw [readUtf8_first (by omega), firstByte, if_pos (by omega), hc]
    rfl
  · have hbits : (v / 64 % 0x20 + 0xc0 - 0xC0) * 64 + v % 0x40 = v := by omega
    rw [readUtf8_first (by omega), firstByte, if_neg (by omega), if_pos (by omega)]
    rw [List.nil_append, readUtf8_last (by omega) (by omega) (by omega), hbits, hc]
  · have hbits : ((v / 4096 % 0x10 + 0xe0 - 0xE0) * 64 + v / 64 % 0x40) * 64 + v % 0x40 = v := by
      omega
    rw [readUtf8_first (by omega), firstByte, if_neg (by omega), if_neg (by omega),
      if_pos (by omega)]
    rw [List.nil_append, readUtf8_more (by omega) (by split_ifs <;> omega)
      (by split_ifs <;> omega), readUtf8_last (by omega) (by omega) (by omega), hbits, hc]
  · have hbits : (((v / 262144 % 0x08 + 0xf0 - 0xF0) * 64 + v / 4096 % 0x40) * 64 +
        v / 64 % 0x40) * 64 + v % 0x40 = v := by
      omega
    rw [readUtf8_first (by omega), firstByte, if_neg (by omega), if_neg (by omega),
      if_neg (by omega), if_pos (by omega)]
    rw [List.nil_append, readUtf8_more (by omega) (by split_ifs <;> omega)
      (by split_ifs <;> omega), readUtf8_more (by omega) (by omega) (by omega),
      readUtf8_last (by omega) (by omega) (by omega), hbits, hc]

/-- A text's bytes read as the text. -/
theorem readUtf8_bytes : ∀ t : List Char, readUtf8 none (utf8Bytes t) = t
  | [] => rfl
  | c :: t => by
    have hbytes : utf8Bytes (c :: t) = String.utf8EncodeChar c ++ utf8Bytes t := List.flatMap_cons
    rw [hbytes, readUtf8_char, readUtf8_bytes t]

/-- Only a newline has a newline's byte. -/
theorem newline_of_mem_bytes {t : List Char} (h : 10 ∈ utf8Bytes t) : '\n' ∈ t := by
  obtain ⟨c, hc, hmem⟩ := List.mem_flatMap.mp h
  have hbyte : ∀ {m : ℕ}, (10 : UInt8) = UInt8.ofNat m → m % 256 = 10 := by
    intro m h
    have hnat := congrArg UInt8.toNat h
    rw [UInt8.toNat_ofNat'] at hnat
    exact hnat.symm
  have hv : c.toNat = 10 := by
    obtain ⟨v, hv⟩ : ∃ v, c.val.toNat = v := ⟨_, rfl⟩
    rw [show c.toNat = v from hv]
    unfold String.utf8EncodeChar at hmem
    rw [hv] at hmem
    dsimp only at hmem
    split_ifs at hmem <;> simp only [List.mem_cons, List.not_mem_nil, or_false] at hmem
    · have := hbyte hmem
      omega
    · obtain h | h := hmem
      all_goals
        have := hbyte h
        omega
    · obtain h | h | h := hmem
      all_goals
        have := hbyte h
        omega
    · obtain h | h | h | h := hmem
      all_goals
        have := hbyte h
        omega
  have hnewline : c = '\n' := by
    rw [← Char.ofNat_toNat c, hv]
  exact hnewline ▸ hc

end Read

end MyBooks
