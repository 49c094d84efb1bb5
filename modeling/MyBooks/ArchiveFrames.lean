import Mathlib.Data.List.GetD
import MyBooks.ArchiveCrypto

/-!
# What the chunk parser takes off the bytes

It takes a frame off the front exactly where the bytes start with one that its lengths allow and the
cipher opens (`nextChunk_frame`, `nextChunk_some`), so it is steady. A parse that ends finished has
read frame after frame through one final frame and nothing after it (`Reads`).
-/

namespace MyBooks

namespace Archive

/-! ## Bytes -/

theorem u32_length (n : ℕ) : (u32 n).length = 4 := rfl

theorem readU32_u32 {n : ℕ} (h : n < 2 ^ 32) (r : Bytes) : readU32 (u32 n ++ r) = n := by
  simp only [u32, readU32, List.cons_append, UInt8.toNat_ofNat']
  omega

theorem u32_inj {m n : ℕ} (hm : m < 2 ^ 32) (hn : n < 2 ^ 32) (h : u32 m = u32 n) : m = n := by
  rw [← readU32_u32 hm [], ← readU32_u32 hn [], h]

theorem readU32_append : ∀ {p : Bytes} (b : Bytes), 4 ≤ p.length → readU32 (p ++ b) = readU32 p
  | _ :: _ :: _ :: _ :: _, _, _ => rfl
  | [], _, h => absurd h (by decide)
  | [_], _, h => absurd h (by simp)
  | [_, _], _, h => absurd h (by simp)
  | [_, _, _], _, h => absurd h (by simp)

theorem u32_readU32 : ∀ {p : Bytes}, 4 ≤ p.length → u32 (readU32 p) = p.take 4
  | a :: b :: c :: d :: _, _ => by
    have ha := a.toNat_lt
    have hb := b.toNat_lt
    have hc := c.toNat_lt
    have hd := d.toNat_lt
    simp only [readU32, u32, List.take_succ_cons, List.take_zero, List.cons.injEq, and_true,
      ← UInt8.toNat_inj, UInt8.toNat_ofNat']
    refine ⟨?_, ?_, ?_, ?_⟩ <;> omega
  | [], h => absurd h (by decide)
  | [_], h => absurd h (by simp)
  | [_, _], h => absurd h (by simp)
  | [_, _, _], h => absurd h (by simp)

theorem ArchiveId.length (a : ArchiveId) : a.text.length = 36 := by
  have h := a.uuid
  simp only [isUuid, Bool.and_eq_true, decide_eq_true_eq] at h
  exact h.1

/-- The data authenticated with a chunk says which chunk of which entry of which archive it is. -/
theorem aad_inj {a a' : ArchiveId} {e e' : Bytes} {i i' : ℕ} {f f' : Bool} (hi : i < 2 ^ 32)
    (hi' : i' < 2 ^ 32) (h : aad a.text e i f = aad a'.text e' i' f') :
    a.text = a'.text ∧ e = e' ∧ i = i' ∧ f = f' := by
  unfold aad at h
  obtain ⟨h, hf⟩ := List.append_inj' h rfl
  obtain ⟨h, hu⟩ := List.append_inj' h rfl
  obtain ⟨h, -⟩ := List.append_inj' h rfl
  simp only [List.append_assoc] at h
  obtain ⟨ha, h⟩ := List.append_inj h (a.length.trans a'.length.symm)
  refine ⟨ha, List.append_cancel_left h, u32_inj hi hi' hu, ?_⟩
  cases f <;> cases f' <;> first | rfl | exact absurd hf (by decide)

theorem nonce_inj {p p' : Bytes} {i i' : ℕ} (hp : p.length = NONCE_PREFIX_BYTES)
    (hp' : p'.length = NONCE_PREFIX_BYTES) (hi : i < 2 ^ 32) (hi' : i' < 2 ^ 32)
    (h : nonce p i = nonce p' i') : p = p' ∧ i = i' := by
  obtain ⟨h, hu⟩ := List.append_inj h (hp.trans hp'.symm)
  exact ⟨h, u32_inj hi hi' hu⟩

/-! ## Frames -/

/-- The lengths the parser takes. -/
structure Framed (isFinal : Bool) (ct tag : Bytes) : Prop where
  most : ct.length ≤ CHUNK_BYTES
  whole : isFinal = false → ct.length = CHUNK_BYTES
  tag : tag.length = TAG_BYTES

theorem Framed.lt {isFinal : Bool} {ct tag : Bytes} (h : Framed isFinal ct tag) :
    ct.length < 2 ^ 32 :=
  Nat.lt_of_le_of_lt h.most (by decide)

theorem frame_length {isFinal : Bool} {ct tag : Bytes} (h : Framed isFinal ct tag) :
    (frame isFinal ct tag).length = FRAME_HEADER_BYTES + ct.length + TAG_BYTES := by
  simp only [frame, List.length_append, u32_length, h.tag, List.length_cons, List.length_nil]
  rfl

/-- Bytes that are long enough are the frame at their front and what is left. -/
theorem cut_frame {pending : Bytes} (h : FRAME_HEADER_BYTES ≤ pending.length)
    (hflag : ¬(pending.getD 4 0 ≠ 0 ∧ pending.getD 4 0 ≠ 1))
    (hlong : FRAME_HEADER_BYTES + readU32 pending + TAG_BYTES ≤ pending.length) :
    pending = frame (decide (pending.getD 4 0 = 1))
        ((pending.drop FRAME_HEADER_BYTES).take (readU32 pending))
        ((pending.drop (FRAME_HEADER_BYTES + readU32 pending)).take TAG_BYTES)
      ++ pending.drop (FRAME_HEADER_BYTES + readU32 pending + TAG_BYTES) := by
  have hct : ((pending.drop FRAME_HEADER_BYTES).take (readU32 pending)).length = readU32 pending := by
    rw [List.length_take, List.length_drop]
    omega
  have hflagByte : (if decide (pending.getD 4 0 = 1) then (1 : UInt8) else 0) = pending.getD 4 0 := by
    by_cases h1 : pending.getD 4 0 = 1
    · rw [h1]
      rfl
    · rw [decide_eq_false h1]
      by_contra h0
      exact hflag ⟨Ne.symm h0, h1⟩
  have hhead : pending.take 4 ++ [pending.getD 4 0] = pending.take FRAME_HEADER_BYTES := by
    rw [List.getD_eq_getElem _ _ h]
    exact List.take_append_getElem h
  rw [frame, hct, u32_readU32 (Nat.le_of_succ_le h), hflagByte, hhead, List.append_assoc,
    List.append_assoc, ← List.drop_drop (i := TAG_BYTES), ← List.drop_drop (i := readU32 pending),
    List.take_append_drop, List.take_append_drop, List.take_append_drop]

section Parser

variable (g : Gcm) (key archiveId entryPath : Bytes)

/-- What the decipher gives for chunk `i` after the nonce prefix `pre`. -/
def Opens (pre : Bytes) (i : ℕ) (isFinal : Bool) (ct tag plain : Bytes) : Prop :=
  i < 2 ^ 32 ∧ g.decrypt key (nonce pre i) (aad archiveId entryPath i isFinal) ct tag = some plain

variable {g key archiveId entryPath}

theorem nextChunk_frame {pre : Bytes} {i : ℕ} {isFinal : Bool} {ct tag plain : Bytes}
    (hf : Framed isFinal ct tag) (ho : Opens g key archiveId entryPath pre i isFinal ct tag plain)
    (rest : Bytes) :
    nextChunk g key archiveId entryPath ⟨some pre, i, false⟩ (frame isFinal ct tag ++ rest) =
      .ok (some (⟨some pre, i + 1, isFinal⟩, plain, rest)) := by
  have hlen := frame_length hf
  have hread : readU32 (frame isFinal ct tag ++ rest) = ct.length := by
    simp only [frame, List.append_assoc]
    exact readU32_u32 hf.lt _
  have hflag : (frame isFinal ct tag ++ rest).getD 4 0 = if isFinal then 1 else 0 := rfl
  have hct : ((frame isFinal ct tag ++ rest).drop FRAME_HEADER_BYTES).take ct.length = ct := by
    rw [show (frame isFinal ct tag ++ rest).drop FRAME_HEADER_BYTES = ct ++ (tag ++ rest) by
      simp only [frame, List.append_assoc]; rfl]
    exact List.take_left
  have htag : ((frame isFinal ct tag ++ rest).drop (FRAME_HEADER_BYTES + ct.length)).take TAG_BYTES
      = tag := by
    rw [← List.drop_drop, show (frame isFinal ct tag ++ rest).drop FRAME_HEADER_BYTES
      = ct ++ (tag ++ rest) by simp only [frame, List.append_assoc]; rfl, List.drop_left, ← hf.tag]
    exact List.take_left
  have hrest : (frame isFinal ct tag ++ rest).drop (FRAME_HEADER_BYTES + ct.length + TAG_BYTES)
      = rest := by
    rw [← hlen]
    exact List.drop_left
  unfold nextChunk
  simp only [hread, hflag, hct, htag, hrest]
  rw [if_neg (by simp [frame, u32]), if_neg (by decide),
    if_neg (by rw [List.length_append, hlen]; omega), if_neg (by cases isFinal <;> decide)]
  have hfin : (decide ((if isFinal then (1 : UInt8) else 0) = 1)) = isFinal := by
    cases isFinal <;> rfl
  have hlengths : ¬(CHUNK_BYTES < ct.length ∨ isFinal = false ∧ ct.length ≠ CHUNK_BYTES) := by
    rintro (h | ⟨h, hne⟩)
    · exact absurd hf.most (Nat.not_le.mpr h)
    · exact hne (hf.whole h)
  rw [hfin, if_neg hlengths, if_neg (by rw [List.length_append, hlen]; omega), if_pos ho.1, ho.2]

theorem nextChunk_some {pre : Bytes} {i : ℕ} {f : Bool} {pending rest out : Bytes}
    {p' : ChunkParser}
    (h : nextChunk g key archiveId entryPath ⟨some pre, i, f⟩ pending = .ok (some (p', out, rest))) :
    f = false ∧ ∃ isFinal ct tag, pending = frame isFinal ct tag ++ rest ∧ Framed isFinal ct tag
      ∧ Opens g key archiveId entryPath pre i isFinal ct tag out
      ∧ p' = ⟨some pre, i + 1, isFinal⟩ := by
  unfold nextChunk at h
  simp only [] at h
  split_ifs at h with h1 h2 h3 h4 h5 h6 hi
  · cases h
  · cases h
  · cases h
  split at h
  · cases h
  rename_i plain hplain
  simp only [Except.ok.injEq, Option.some.injEq, Prod.mk.injEq] at h
  obtain ⟨rfl, rfl, rfl⟩ := h
  have hcut := cut_frame (Nat.not_lt.mp h3) h4 (Nat.not_lt.mp h6)
  have hct : ((pending.drop FRAME_HEADER_BYTES).take (readU32 pending)).length = readU32 pending := by
    rw [List.length_take, List.length_drop]
    omega
  refine ⟨by simpa using h2, decide (pending.getD 4 0 = 1), _, _, hcut, ⟨?_, ?_, ?_⟩, ⟨hi, hplain⟩,
    rfl⟩
  · omega
  · intro hnot
    rw [hct]
    by_contra hne
    exact h5 (.inr ⟨hnot, hne⟩)
  · rw [List.length_take, List.length_drop]
    omega

theorem nextChunk_prefix {p p' : ChunkParser} {pending rest out : Bytes} (hp : p.pre = none)
    (h : nextChunk g key archiveId entryPath p pending = .ok (some (p', out, rest))) :
    NONCE_PREFIX_BYTES ≤ pending.length ∧ p' = { p with pre := some (pending.take NONCE_PREFIX_BYTES) }
      ∧ out = [] ∧ rest = pending.drop NONCE_PREFIX_BYTES := by
  unfold nextChunk at h
  rw [hp] at h
  simp only [] at h
  split_ifs at h with hlong
  · cases h
  simp only [Except.ok.injEq, Option.some.injEq, Prod.mk.injEq] at h
  obtain ⟨rfl, rfl, rfl⟩ := h
  exact ⟨Nat.not_lt.mp hlong, rfl, rfl, rfl⟩

theorem nextChunk_take {p : ChunkParser} {pending : Bytes} (hp : p.pre = none)
    (h : NONCE_PREFIX_BYTES ≤ pending.length) :
    nextChunk g key archiveId entryPath p pending =
      .ok (some ({ p with pre := some (pending.take NONCE_PREFIX_BYTES) }, [],
        pending.drop NONCE_PREFIX_BYTES)) := by
  unfold nextChunk
  rw [hp]
  exact if_neg (Nat.not_lt.mpr h)

/-- A frame that is refused stays refused whatever follows it. -/
theorem nextChunk_refuses {p : ChunkParser} {pending : Bytes} {why : Corrupt} (b : Bytes)
    (h : nextChunk g key archiveId entryPath p pending = .error why) :
    nextChunk g key archiveId entryPath p (pending ++ b) = .error why := by
  obtain ⟨pre, i, f⟩ := p
  rcases pre with _ | pre
  · unfold nextChunk at h
    simp only [] at h
    split_ifs at h
  unfold nextChunk at h ⊢
  simp only [] at h ⊢
  split_ifs at h with h1 h2 h3 h4 h5 h6 hi
  · have hne : pending ++ b ≠ [] := List.append_ne_nil_of_left_ne_nil h1 b
    rw [if_neg hne, if_pos h2]
    exact h
  all_goals
    have hne : pending ++ b ≠ [] := List.append_ne_nil_of_left_ne_nil h1 b
    have hhead : FRAME_HEADER_BYTES ≤ pending.length := Nat.not_lt.mp h3
    have hread : readU32 (pending ++ b) = readU32 pending :=
      readU32_append b (Nat.le_of_succ_le hhead)
    have hflag : (pending ++ b).getD 4 0 = pending.getD 4 0 := List.getD_append _ _ _ _ hhead
    have hlong : ¬(pending ++ b).length < FRAME_HEADER_BYTES := by
      rw [List.length_append]
      omega
    rw [if_neg hne, if_neg h2, if_neg hlong, hread, hflag]
  · rw [if_pos h4]
    exact h
  · rw [if_neg h4, if_pos h5]
    exact h
  all_goals
    have hframe : FRAME_HEADER_BYTES + readU32 pending + TAG_BYTES ≤ pending.length :=
      Nat.not_lt.mp h6
    have hct : ((pending ++ b).drop FRAME_HEADER_BYTES).take (readU32 pending) =
        (pending.drop FRAME_HEADER_BYTES).take (readU32 pending) := by
      rw [List.drop_append_of_le_length hhead, List.take_append_of_le_length]
      rw [List.length_drop]
      omega
    have htag : ((pending ++ b).drop (FRAME_HEADER_BYTES + readU32 pending)).take TAG_BYTES =
        (pending.drop (FRAME_HEADER_BYTES + readU32 pending)).take TAG_BYTES := by
      rw [List.drop_append_of_le_length (by omega), List.take_append_of_le_length]
      rw [List.length_drop]
      omega
    rw [if_neg h4, if_neg h5, if_neg (by rw [List.length_append]; omega), hct, htag]
  · rw [if_pos hi]
    split at h
    · exact h
    · cases h
  · rw [if_neg hi]
    exact h

theorem nextChunk_steady : Steady (nextChunk g key archiveId entryPath) where
  shrinks := by
    rintro ⟨pre, i, f⟩ pending p' out rest h
    rcases pre with _ | pre
    · obtain ⟨hlong, -, -, rfl⟩ := nextChunk_prefix rfl h
      rw [List.length_drop]
      exact Nat.sub_lt (Nat.lt_of_lt_of_le (by decide) hlong) (by decide)
    · obtain ⟨-, isFinal, ct, tag, rfl, hf, -, -⟩ := nextChunk_some h
      rw [List.length_append, frame_length hf]
      have : 0 < FRAME_HEADER_BYTES := by decide
      omega
  keeps := by
    rintro ⟨pre, i, f⟩ pending p' out rest b h
    rcases pre with _ | pre
    · obtain ⟨hlong, rfl, rfl, rfl⟩ := nextChunk_prefix rfl h
      rw [nextChunk_take rfl (by rw [List.length_append]; omega), List.take_append_of_le_length hlong,
        List.drop_append_of_le_length hlong]
    · obtain ⟨rfl, isFinal, ct, tag, rfl, hf, ho, rfl⟩ := nextChunk_some h
      rw [List.append_assoc]
      exact nextChunk_frame hf ho _
  fails := by
    intro p pending why b h
    exact nextChunk_refuses b h

/-! ## A whole entry -/

/-- The bytes from chunk `i` to the final one, nothing after it, open as the plaintext. -/
inductive Reads (g : Gcm) (key archiveId entryPath pre : Bytes) : ℕ → Bytes → Bytes → Prop
  | last {i ct tag plain} (framed : Framed true ct tag)
      (opens : Opens g key archiveId entryPath pre i true ct tag plain) :
      Reads g key archiveId entryPath pre i (frame true ct tag) plain
  | more {i ct tag plain bytes text} (framed : Framed false ct tag)
      (opens : Opens g key archiveId entryPath pre i false ct tag plain)
      (next : Reads g key archiveId entryPath pre (i + 1) bytes text) :
      Reads g key archiveId entryPath pre i (frame false ct tag ++ bytes) (plain ++ text)

theorem nextChunk_nil (p : ChunkParser) : nextChunk g key archiveId entryPath p [] = .ok none := by
  obtain ⟨_ | pre, i, f⟩ := p <;> rfl

/-- After the final chunk only the end of the input is not refused. -/
theorem nextChunk_finished {p : ChunkParser} {pre left : Bytes} (hp : p.pre = some pre)
    (hf : p.finished = true) (h : nextChunk g key archiveId entryPath p left = .ok none) :
    left = [] := by
  by_contra hne
  unfold nextChunk at h
  rw [hp] at h
  simp only [] at h
  rw [if_neg hne, if_pos hf] at h
  cases h

theorem drain_reads {pre : Bytes} {i : ℕ} {pending out left : Bytes} {p' : ChunkParser}
    (h : drain (nextChunk g key archiveId entryPath) ⟨some pre, i, false⟩ pending
      = .ok (p', out, left)) (hfin : p'.finished = true) :
    Reads g key archiveId entryPath pre i pending out := by
  rcases hn : nextChunk g key archiveId entryPath ⟨some pre, i, false⟩ pending with
    why | _ | ⟨s, plain, rest⟩
  · rw [drain_error hn] at h
    cases h
  · rw [drain_wait hn] at h
    cases h
    cases hfin
  · have hlt := nextChunk_steady.shrinks hn
    rw [drain_take nextChunk_steady hn] at h
    split at h
    · cases h
    rename_i t text left' hd
    cases h
    obtain ⟨-, isFinal, ct, tag, rfl, hf, ho, rfl⟩ := nextChunk_some hn
    cases isFinal with
    | false => exact .more hf ho (drain_reads hd hfin)
    | true =>
      -- nothing is taken after the final chunk
      rcases hn' : nextChunk g key archiveId entryPath ⟨some pre, i + 1, true⟩ rest with
        why | _ | ⟨s, plain', rest'⟩
      · rw [drain_error hn'] at hd
        cases hd
      · rw [drain_wait hn'] at hd
        cases hd
        obtain rfl := nextChunk_finished rfl rfl hn'
        rw [List.append_nil, List.append_nil]
        exact .last hf ho
      · exact absurd (nextChunk_some hn').1 (by decide)
termination_by pending.length

theorem reads_drain {pre : Bytes} {i : ℕ} {pending out : Bytes}
    (h : Reads g key archiveId entryPath pre i pending out) :
    ∃ j, drain (nextChunk g key archiveId entryPath) ⟨some pre, i, false⟩ pending
      = .ok (⟨some pre, j, true⟩, out, []) := by
  induction h with
  | @last i ct tag plain hf ho =>
    refine ⟨i + 1, ?_⟩
    have hn := nextChunk_frame hf ho []
    rw [List.append_nil] at hn
    rw [drain_take nextChunk_steady hn, drain_wait (nextChunk_nil _)]
    simp only [List.append_nil]
  | more hf ho _ ih =>
    obtain ⟨j, hj⟩ := ih
    refine ⟨j, ?_⟩
    rw [drain_take nextChunk_steady (nextChunk_frame hf ho _), hj]

/-- An entry is taken exactly when it is a nonce prefix and bytes that read to a final chunk. -/
theorem decryptEntry_ok {pieces : List Bytes} {plain : Bytes} :
    decryptEntry g key archiveId entryPath pieces = .ok plain ↔
      ∃ pre bytes, pre.length = NONCE_PREFIX_BYTES ∧ pieces.flatten = pre ++ bytes
        ∧ Reads g key archiveId entryPath pre 0 bytes plain := by
  unfold decryptEntry
  rw [feed_eq_drain nextChunk_steady pieces (nextChunk_nil _), List.nil_append]
  constructor
  · intro h
    rcases hn : nextChunk g key archiveId entryPath .fresh pieces.flatten with
      why | _ | ⟨s, out, rest⟩
    · rw [drain_error hn] at h
      cases h
    · rw [drain_wait hn] at h
      cases h
    · rw [drain_take nextChunk_steady hn] at h
      obtain ⟨hlong, rfl, rfl, rfl⟩ := nextChunk_prefix rfl hn
      rcases hd : drain (nextChunk g key archiveId entryPath)
          ⟨some (pieces.flatten.take NONCE_PREFIX_BYTES), 0, false⟩
          (pieces.flatten.drop NONCE_PREFIX_BYTES) with why | ⟨p, out, left⟩
      · rw [show ({ ChunkParser.fresh with pre := _ } : ChunkParser)
          = ⟨some (pieces.flatten.take NONCE_PREFIX_BYTES), 0, false⟩ from rfl, hd] at h
        cases h
      · rw [show ({ ChunkParser.fresh with pre := _ } : ChunkParser)
          = ⟨some (pieces.flatten.take NONCE_PREFIX_BYTES), 0, false⟩ from rfl, hd] at h
        simp only [List.nil_append] at h
        split_ifs at h with hfin
        cases h
        refine ⟨_, _, ?_, (List.take_append_drop _ _).symm, drain_reads hd hfin⟩
        rw [List.length_take]
        exact Nat.min_eq_left hlong
  · rintro ⟨pre, bytes, hpre, hpieces, hreads⟩
    obtain ⟨j, hj⟩ := reads_drain hreads
    have hn : nextChunk g key archiveId entryPath .fresh (pre ++ bytes)
        = .ok (some (⟨some pre, 0, false⟩, [], bytes)) := by
      rw [nextChunk_take rfl (by rw [List.length_append]; omega), ← hpre, List.take_left,
        List.drop_left]
      rfl
    rw [hpieces, drain_take nextChunk_steady hn, hj]
    rfl

end Parser

end Archive

end MyBooks
