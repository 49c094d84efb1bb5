import Mathlib.Data.List.Nodup
import MyBooks.ArchiveFrames

/-!
# The archive entry codec

The encryptor cuts what is written into full chunks and a last one, however it came (`Emitting`).
Its stream reads back (`archive_codec`), and where the cipher opens only what was sealed, the bytes
that are read under an archive id and a path are the stream of one entry written to its end there.
-/

namespace MyBooks

namespace Archive

section Seal

variable (g : Gcm) (key archiveId entryPath pre : Bytes)

def sealFrame (i : ℕ) (isFinal : Bool) (plain : Bytes) : Bytes :=
  let c := g.encrypt key (nonce pre i) (aad archiveId entryPath i isFinal) plain
  frame isFinal c.1 c.2

/-- The frames of full chunks from position `i` on. -/
def sealFrames : ℕ → List Bytes → Bytes
  | _, [] => []
  | i, c :: cs => sealFrame g key archiveId entryPath pre i false c ++ sealFrames (i + 1) cs

def sealedAt (i : ℕ) (isFinal : Bool) (plain : Bytes) : Sealed :=
  ⟨nonce pre i, aad archiveId entryPath i isFinal, plain⟩

def sealedFrom : ℕ → List Bytes → List Sealed
  | _, [] => []
  | i, c :: cs => sealedAt archiveId entryPath pre i false c :: sealedFrom (i + 1) cs

theorem sealFrames_append : ∀ (i : ℕ) (cs : List Bytes) (c : Bytes),
    sealFrames g key archiveId entryPath pre i (cs ++ [c]) =
      sealFrames g key archiveId entryPath pre i cs
        ++ sealFrame g key archiveId entryPath pre (i + cs.length) false c
  | i, [], c => by
    rw [List.nil_append, sealFrames, sealFrames, sealFrames, List.append_nil, List.nil_append]
    rfl
  | i, d :: cs, c => by
    rw [List.cons_append, sealFrames, sealFrames, sealFrames_append (i + 1) cs c, List.append_assoc,
      List.length_cons, Nat.add_right_comm, Nat.add_assoc]

theorem sealedFrom_append : ∀ (i : ℕ) (cs : List Bytes) (c : Bytes),
    sealedFrom archiveId entryPath pre i (cs ++ [c]) =
      sealedFrom archiveId entryPath pre i cs
        ++ [sealedAt archiveId entryPath pre (i + cs.length) false c]
  | i, [], c => rfl
  | i, d :: cs, c => by
    rw [List.cons_append, sealedFrom, sealedFrom, sealedFrom_append (i + 1) cs c, List.cons_append,
      List.length_cons, Nat.add_right_comm, Nat.add_assoc]

theorem mem_sealedFrom : ∀ {i : ℕ} {cs : List Bytes} {s : Sealed},
    s ∈ sealedFrom archiveId entryPath pre i cs →
      ∃ k c, cs[k]? = some c ∧ s = sealedAt archiveId entryPath pre (i + k) false c
  | _, [], _, h => absurd h List.not_mem_nil
  | i, c :: cs, s, h => by
    rcases List.mem_cons.mp h with rfl | h
    · exact ⟨0, c, rfl, rfl⟩
    · obtain ⟨k, d, hk, rfl⟩ := mem_sealedFrom h
      exact ⟨k + 1, d, hk, by rw [Nat.add_assoc, Nat.add_comm 1]⟩

theorem flatten_full : ∀ {cs : List Bytes}, (∀ c ∈ cs, c.length = CHUNK_BYTES) →
    cs.flatten.length = cs.length * CHUNK_BYTES
  | [], _ => (Nat.zero_mul _).symm
  | c :: cs, h => by
    rw [List.flatten_cons, List.length_append, h c List.mem_cons_self,
      flatten_full fun d hd => h d (List.mem_cons_of_mem c hd), List.length_cons, Nat.succ_mul,
      Nat.add_comm]

/-! ## The encryptor cuts the text into chunks -/

/-- The encryptor after the text written so far: full chunks out and the rest in the buffer, or
failed on a text with more chunks than can be numbered. -/
inductive Emitting (text : Bytes) (e : EntryEncryptor) : Prop
  | going (done : List Bytes) (rest : Bytes)
      (text_eq : text = done.flatten ++ rest)
      (full : ∀ c ∈ done, c.length = CHUNK_BYTES)
      (started : done ≠ [] → rest ≠ [])
      (fits : done.length ≤ 2 ^ 32)
      (failed : e.failed = false)
      (buffer : e.buffer.flatten = rest)
      (buffered : e.buffered = rest.length)
      (index : e.index = done.length)
      (begun : e.started = !done.isEmpty)
      (out : e.out = (if e.started then pre else [])
        ++ sealFrames g key archiveId entryPath pre 0 done)
      (produced : e.produced = sealedFrom archiveId entryPath pre 0 done)
  | stopped (done : List Bytes)
      (long : 2 ^ 32 * CHUNK_BYTES < text.length)
      (failed : e.failed = true)
      (fits : done.length ≤ 2 ^ 32)
      (produced : e.produced = sealedFrom archiveId entryPath pre 0 done)

theorem emitChunk_failed {e : EntryEncryptor} (h : e.failed = true) (plain : Bytes)
    (isFinal : Bool) :
    emitChunk g key archiveId entryPath pre e plain isFinal = { e with failed := true } := by
  unfold emitChunk
  rw [h, Bool.true_or, if_pos rfl]

theorem emitChunk_full {e : EntryEncryptor} (h : 2 ^ 32 ≤ e.index) (plain : Bytes)
    (isFinal : Bool) :
    emitChunk g key archiveId entryPath pre e plain isFinal = { e with failed := true } := by
  unfold emitChunk
  rw [decide_eq_true h, Bool.or_true, if_pos rfl]

theorem emitChunk_ok {e : EntryEncryptor} (h : e.failed = false) (hi : e.index < 2 ^ 32)
    (plain : Bytes) (isFinal : Bool) :
    emitChunk g key archiveId entryPath pre e plain isFinal =
      { e with
        started := true
        out := e.out ++ (if e.started then [] else pre)
          ++ sealFrame g key archiveId entryPath pre e.index isFinal plain
        index := e.index + 1
        produced := e.produced ++ [sealedAt archiveId entryPath pre e.index isFinal plain] } := by
  unfold emitChunk
  rw [h, decide_eq_false (Nat.not_le.mpr hi), Bool.or_false, if_neg Bool.false_ne_true]
  rfl

theorem emitFull_emitting {text : Bytes} : ∀ (passes : ℕ) {e : EntryEncryptor},
    Emitting g key archiveId entryPath pre text e →
      Emitting g key archiveId entryPath pre text (emitFull g key archiveId entryPath pre passes e)
  | 0, _, h => h
  | passes + 1, e, h => by
    rw [emitFull]
    split_ifs with hmore
    · refine emitFull_emitting passes ?_
      cases h with
      | stopped done long failed fits produced =>
        rw [emitChunk_failed _ _ _ _ _ failed]
        exact .stopped done long rfl fits produced
      | going done rest text_eq full started fits failed buffer buffered index begun out produced =>
        rw [buffer]
        rw [buffered] at hmore
        by_cases hi : e.index < 2 ^ 32
        · rw [emitChunk_ok _ _ _ _ _ failed hi]
          have hlen : (rest.take CHUNK_BYTES).length = CHUNK_BYTES := by
            rw [List.length_take]
            exact Nat.min_eq_left (Nat.le_of_lt hmore)
          refine .going (done ++ [rest.take CHUNK_BYTES]) (rest.drop CHUNK_BYTES) ?_ ?_ ?_ ?_ failed
            ?_ rfl ?_ ?_ ?_ ?_
          · rw [text_eq, List.flatten_append, List.flatten_singleton, List.append_assoc,
              List.take_append_drop]
          · intro c hc
            rcases List.mem_append.mp hc with hc | hc
            · exact full c hc
            · rw [List.mem_singleton.mp hc]
              exact hlen
          · intro _ hnil
            have := congrArg List.length hnil
            rw [List.length_drop, List.length_nil] at this
            omega
          · rw [List.length_append, List.length_singleton, ← index]
            exact hi
          · exact List.append_nil _
          · rw [List.length_append, List.length_singleton, index]
          · simp
          · simp only [out, index, sealFrames_append, Nat.zero_add, List.append_assoc, if_true]
            cases hs : e.started with
            | true => rfl
            | false =>
              have hd : done = [] := by
                rw [hs] at begun
                simpa using begun.symm
              subst hd
              rfl
          · simp only [produced, index, sealedFrom_append, Nat.zero_add]
        · rw [emitChunk_full _ _ _ _ _ (Nat.not_lt.mp hi)]
          refine .stopped done ?_ rfl fits produced
          rw [text_eq, List.length_append, flatten_full full]
          rw [index] at hi
          have : done.length = 2 ^ 32 := by omega
          rw [this]
          omega
    · exact h

/-- The passes are enough to bring the buffer down to one chunk. -/
theorem emitFull_buffered : ∀ (passes : ℕ) {e : EntryEncryptor},
    e.buffered = e.buffer.flatten.length → e.buffered ≤ passes →
      let e' := emitFull g key archiveId entryPath pre passes e
      e'.buffered = e'.buffer.flatten.length ∧ e'.buffered ≤ CHUNK_BYTES
  | 0, e, h, hp => ⟨h, Nat.le_trans hp (Nat.zero_le _)⟩
  | passes + 1, e, h, hp => by
    simp only [emitFull]
    split_ifs with hmore
    · refine emitFull_buffered passes ?_ ?_
      · simp only [List.flatten_singleton]
      · have : 0 < CHUNK_BYTES := by decide
        simp only [List.length_drop]
        omega
    · exact ⟨h, Nat.not_lt.mp hmore⟩

theorem transform_emitting {text : Bytes} {e : EntryEncryptor} (chunk : Bytes)
    (h : Emitting g key archiveId entryPath pre text e) :
    Emitting g key archiveId entryPath pre (text ++ chunk)
      (transform g key archiveId entryPath pre e chunk) := by
  refine emitFull_emitting _ _ _ _ _ _ ?_
  cases h with
  | stopped done long failed fits produced =>
    refine .stopped done ?_ failed fits produced
    rw [List.length_append]
    omega
  | going done rest text_eq full started fits failed buffer buffered index begun out produced =>
    refine .going done (rest ++ chunk) ?_ full ?_ fits failed ?_ ?_ index begun out produced
    · rw [text_eq, List.append_assoc]
    · exact fun hd => List.append_ne_nil_of_left_ne_nil (started hd) chunk
    · rw [List.flatten_append, List.flatten_singleton, buffer]
    · rw [List.length_append, ← buffered]

theorem transform_buffered {e : EntryEncryptor} (chunk : Bytes)
    (h : e.buffered = e.buffer.flatten.length) :
    let e' := transform g key archiveId entryPath pre e chunk
    e'.buffered = e'.buffer.flatten.length ∧ e'.buffered ≤ CHUNK_BYTES := by
  refine emitFull_buffered _ _ _ _ _ _ ?_ (Nat.le_refl _)
  rw [List.flatten_append, List.flatten_singleton, List.length_append, h]

theorem transforms_emitting : ∀ (writes : List Bytes) {text : Bytes} {e : EntryEncryptor},
    Emitting g key archiveId entryPath pre text e → e.buffered = e.buffer.flatten.length →
    e.buffered ≤ CHUNK_BYTES →
      let e' := writes.foldl (transform g key archiveId entryPath pre) e
      Emitting g key archiveId entryPath pre (text ++ writes.flatten) e'
        ∧ e'.buffered = e'.buffer.flatten.length ∧ e'.buffered ≤ CHUNK_BYTES
  | [], text, e, h, hb, hc => by
    rw [List.flatten_nil, List.append_nil]
    exact ⟨h, hb, hc⟩
  | w :: ws, text, e, h, hb, _ => by
    rw [List.flatten_cons, ← List.append_assoc]
    obtain ⟨hb', hc'⟩ := transform_buffered g key archiveId entryPath pre w hb
    exact transforms_emitting ws (transform_emitting _ _ _ _ _ w h) hb' hc'

end Seal

/-- What a run that was written to its end has put out. -/
structure Emitted (g : Gcm) (key : Bytes) (run : EntryRun) (done : List Bytes) (rest : Bytes) :
    Prop where
  text : run.writes.flatten = done.flatten ++ rest
  full : ∀ c ∈ done, c.length = CHUNK_BYTES
  most : rest.length ≤ CHUNK_BYTES
  fits : done.length < 2 ^ 32
  out : (run.encryptor g key).out = run.pre.bytes
    ++ (sealFrames g key run.archiveId.text run.entryPath.text run.pre.bytes 0 done
      ++ sealFrame g key run.archiveId.text run.entryPath.text run.pre.bytes done.length true rest)
  produced : (run.encryptor g key).produced
    = sealedFrom run.archiveId.text run.entryPath.text run.pre.bytes 0 done
      ++ [sealedAt run.archiveId.text run.entryPath.text run.pre.bytes done.length true rest]

variable (g : Gcm) (key : Bytes)

/-- A run has put out a whole entry, or only full chunks of one. -/
theorem EntryRun.emitted (run : EntryRun) :
    (run.complete g key = true ∧ ∃ done rest, Emitted g key run done rest) ∨
    (run.complete g key = false
      ∧ (run.ended = true → 2 ^ 32 * CHUNK_BYTES < run.writes.flatten.length)
      ∧ ∃ done : List Bytes, done.length ≤ 2 ^ 32 ∧ (run.encryptor g key).produced
        = sealedFrom run.archiveId.text run.entryPath.text run.pre.bytes 0 done) := by
  have hfresh : Emitting g key run.archiveId.text run.entryPath.text run.pre.bytes [] .fresh :=
    .going [] [] rfl (by simp) (fun h => absurd rfl h) (Nat.zero_le _) rfl rfl rfl rfl rfl rfl rfl
  obtain ⟨hem, hbuf, hmost⟩ := transforms_emitting g key run.archiveId.text run.entryPath.text
    run.pre.bytes run.writes hfresh rfl (Nat.zero_le _)
  rw [List.nil_append] at hem
  unfold EntryRun.complete
  cases hended : run.ended with
  | false =>
    refine .inr ⟨rfl, fun h => absurd h (by decide), ?_⟩
    unfold EntryRun.encryptor
    rw [hended]
    cases hem with
    | stopped done long failed fits produced => exact ⟨done, fits, produced⟩
    | going done rest text_eq full started fits failed buffer buffered index begun out produced =>
      exact ⟨done, fits, produced⟩
  | true =>
    have henc : run.encryptor g key = flush g key run.archiveId.text run.entryPath.text run.pre.bytes
        (run.writes.foldl
          (transform g key run.archiveId.text run.entryPath.text run.pre.bytes) .fresh) := by
      unfold EntryRun.encryptor
      rw [hended]
      rfl
    simp only [Bool.true_and, Bool.not_eq_eq_eq_not, Bool.not_true, Bool.not_false]
    generalize run.writes.foldl
      (transform g key run.archiveId.text run.entryPath.text run.pre.bytes) .fresh = e at *
    unfold flush at henc
    cases hem with
    | stopped done long failed fits produced =>
      rw [emitChunk_failed _ _ _ _ _ failed] at henc
      exact .inr ⟨congrArg EntryEncryptor.failed henc, fun _ => long, done, fits,
        (congrArg EntryEncryptor.produced henc).trans produced⟩
    | going done rest text_eq full started fits failed buffer buffered index begun out produced =>
      have hlen : run.writes.flatten.length = done.length * CHUNK_BYTES + rest.length := by
        rw [text_eq, List.length_append, flatten_full full]
      by_cases hi : e.index < 2 ^ 32
      · rw [emitChunk_ok _ _ _ _ _ failed hi, index, buffer] at henc
        rw [index] at hi
        refine .inl ⟨(congrArg EntryEncryptor.failed henc).trans failed, done, rest, text_eq, full,
          buffered ▸ hmost, hi, ?_, ?_⟩
        · refine (congrArg EntryEncryptor.out henc).trans ?_
          simp only [out, begun]
          cases done with
          | nil => rfl
          | cons d ds => simp only [List.isEmpty_cons, Bool.not_false, if_true, List.append_nil,
              List.append_assoc]
        · refine (congrArg EntryEncryptor.produced henc).trans ?_
          simp only [produced]
      · -- every number is used, and a buffer is never empty after a chunk
        rw [emitChunk_full _ _ _ _ _ (Nat.not_lt.mp hi)] at henc
        refine .inr ⟨congrArg EntryEncryptor.failed henc, fun _ => ?_, done, fits,
          (congrArg EntryEncryptor.produced henc).trans produced⟩
        have hdone : done.length = 2 ^ 32 := Nat.le_antisymm fits (index ▸ Nat.not_lt.mp hi)
        have hrest : 0 < rest.length := List.length_pos_iff.mpr <| started <| by
          rintro rfl
          cases hdone
        rw [hlen, hdone]
        omega

/-! ## The stream reads back -/

variable {g key}

theorem opens_seal (hg : g.Correct) {archiveId entryPath pre plain : Bytes} {i : ℕ}
    {isFinal : Bool} (hi : i < 2 ^ 32) :
    let c := g.encrypt key (nonce pre i) (aad archiveId entryPath i isFinal) plain
    Opens g key archiveId entryPath pre i isFinal c.1 c.2 plain :=
  ⟨hi, hg _ _ _ _⟩

theorem framed_seal {n a plain : Bytes} {isFinal : Bool} (h : plain.length ≤ CHUNK_BYTES)
    (hfull : isFinal = false → plain.length = CHUNK_BYTES) :
    Framed isFinal (g.encrypt key n a plain).1 (g.encrypt key n a plain).2 := by
  refine ⟨?_, ?_, g.tag_length _ _ _ _⟩
  · rw [g.ciphertext_length]
    exact h
  · rw [g.ciphertext_length]
    exact hfull

theorem reads_seal (hg : g.Correct) (key archiveId entryPath pre : Bytes) {rest : Bytes}
    (hrest : rest.length ≤ CHUNK_BYTES) : ∀ {i : ℕ} {done : List Bytes},
    (∀ c ∈ done, c.length = CHUNK_BYTES) → i + done.length < 2 ^ 32 →
    Reads g key archiveId entryPath pre i
      (sealFrames g key archiveId entryPath pre i done
        ++ sealFrame g key archiveId entryPath pre (i + done.length) true rest)
      (done.flatten ++ rest)
  | i, [], _, hi => .last (framed_seal hrest (fun h => absurd h (by decide))) (opens_seal hg hi)
  | i, c :: cs, hfull, hi => by
    have hc := hfull c List.mem_cons_self
    rw [List.length_cons] at hi ⊢
    have hcs : ∀ d ∈ cs, d.length = CHUNK_BYTES := fun d hd => hfull d (List.mem_cons_of_mem c hd)
    have hnext := reads_seal hg key archiveId entryPath pre hrest (i := i + 1) hcs (by omega)
    rw [Nat.add_right_comm, Nat.add_assoc] at hnext
    rw [sealFrames, List.append_assoc, List.flatten_cons, List.append_assoc]
    exact .more (framed_seal (Nat.le_of_eq hc) fun _ => hc) (opens_seal hg (by omega)) hnext

theorem decrypt_emitted (hg : g.Correct) {run : EntryRun} {done : List Bytes} {rest : Bytes}
    (h : Emitted g key run done rest) {pieces : List Bytes}
    (hp : pieces.flatten = (run.encryptor g key).out) :
    decryptEntry g key run.archiveId.text run.entryPath.text pieces = .ok run.writes.flatten := by
  have hreads := reads_seal hg key run.archiveId.text run.entryPath.text run.pre.bytes h.most (i := 0)
    h.full (by have := h.fits; omega)
  rw [Nat.zero_add, ← h.text] at hreads
  exact decryptEntry_ok.mpr ⟨_, _, run.pre.length, hp.trans h.out, hreads⟩

/-! ## Only such a stream is read -/

/-- The check value of an envelope, which is sealed under the archive's key as well. -/
structure KeyCheck where
  archiveId : ArchiveId
  pre : NoncePrefix

def KeyCheck.sealed (c : KeyCheck) : Sealed :=
  sealedAt c.archiveId.text KEY_CHECK_PATH c.pre.bytes 0 true KEY_CHECK_PLAINTEXT

/-- All that was sealed under the key. -/
def history (g : Gcm) (key : Bytes) (runs : List EntryRun) (checks : List KeyCheck) : List Sealed :=
  runs.flatMap (fun run => (run.encryptor g key).produced) ++ checks.map KeyCheck.sealed

/-- The cipher opens nothing but what was sealed. -/
def Gcm.Ideal (g : Gcm) (key : Bytes) (sealed : List Sealed) : Prop :=
  ∀ n a ct tag plain, g.decrypt key n a ct tag = some plain →
    ∃ s ∈ sealed, s.nonce = n ∧ s.aad = a ∧ g.encrypt key n a s.plain = (ct, tag)

theorem KEY_CHECK_PATH_ne (e : EntryPath) : e.text ≠ KEY_CHECK_PATH := by
  intro h
  have hpart := e.part
  rw [h] at hpart
  exact absurd hpart (by decide)

theorem sealedAt_inj {a a' : ArchiveId} {e e' pre pre' plain plain' : Bytes} {i i' : ℕ}
    {f f' : Bool} (hp : pre.length = NONCE_PREFIX_BYTES) (hp' : pre'.length = NONCE_PREFIX_BYTES)
    (hi : i < 2 ^ 32) (hi' : i' < 2 ^ 32)
    (h : sealedAt a.text e pre i f plain = sealedAt a'.text e' pre' i' f' plain') :
    a.text = a'.text ∧ e = e' ∧ pre = pre' ∧ i = i' ∧ f = f' ∧ plain = plain' := by
  simp only [sealedAt, Sealed.mk.injEq] at h
  obtain ⟨hn, ha, rfl⟩ := h
  obtain ⟨hpre, -⟩ := nonce_inj hp hp' hi hi' hn
  obtain ⟨ha, he, hi, hf⟩ := aad_inj hi hi' ha
  exact ⟨ha, he, hpre, hi, hf, rfl⟩

theorem EntryRun.produced_sealedAt {run : EntryRun} {s : Sealed}
    (h : s ∈ (run.encryptor g key).produced) : ∃ k f c, k < 2 ^ 32
      ∧ s = sealedAt run.archiveId.text run.entryPath.text run.pre.bytes k f c
      ∧ (f = true → run.complete g key = true) := by
  have hfull : ∀ {done : List Bytes}, done.length ≤ 2 ^ 32 →
      s ∈ sealedFrom run.archiveId.text run.entryPath.text run.pre.bytes 0 done →
      ∃ k f c, k < 2 ^ 32 ∧ s = sealedAt run.archiveId.text run.entryPath.text run.pre.bytes k f c
        ∧ (f = true → run.complete g key = true) := by
    intro done hfits hs
    obtain ⟨k, c, hk, rfl⟩ := mem_sealedFrom _ _ _ hs
    obtain ⟨hlt, -⟩ := List.getElem?_eq_some_iff.mp hk
    exact ⟨0 + k, false, c, by omega, rfl, fun h => absurd h (by decide)⟩
  rcases run.emitted g key with ⟨hdone, done, rest, hem⟩ | ⟨-, -, done, hfits, hprod⟩
  · rw [hem.produced] at h
    rcases List.mem_append.mp h with h | h
    · exact hfull (Nat.le_of_lt hem.fits) h
    · exact ⟨done.length, true, rest, hem.fits, List.mem_singleton.mp h, fun _ => hdone⟩
  · exact hfull hfits (hprod ▸ h)

theorem Emitted.chunk {run : EntryRun} {done : List Bytes} {rest : Bytes}
    (h : Emitted g key run done rest) {i : ℕ} (hi : i < 2 ^ 32) {f : Bool} {c : Bytes}
    (hs : sealedAt run.archiveId.text run.entryPath.text run.pre.bytes i f c
      ∈ (run.encryptor g key).produced) :
    f = false ∧ done[i]? = some c ∨ f = true ∧ i = done.length ∧ c = rest := by
  rw [h.produced] at hs
  rcases List.mem_append.mp hs with hs | hs
  · obtain ⟨k, d, hk, heq⟩ := mem_sealedFrom _ _ _ hs
    obtain ⟨hlt, -⟩ := List.getElem?_eq_some_iff.mp hk
    have hfits := h.fits
    obtain ⟨-, -, -, rfl, rfl, rfl⟩ := sealedAt_inj run.pre.length run.pre.length hi (by omega) heq
    rw [Nat.zero_add]
    exact .inl ⟨rfl, hk⟩
  · obtain ⟨-, -, -, rfl, rfl, rfl⟩ :=
      sealedAt_inj run.pre.length run.pre.length hi h.fits (List.mem_singleton.mp hs)
    exact .inr ⟨rfl, rfl, rfl⟩

section Ideal

variable {runs : List EntryRun} {checks : List KeyCheck} {archiveId : ArchiveId}
  {entryPath : EntryPath} {pre : Bytes}

/-- A chunk that opens was sealed by a run on that entry with that nonce prefix. -/
theorem opens_sealed (hg : g.Ideal key (history g key runs checks))
    (hpre : pre.length = NONCE_PREFIX_BYTES) {i : ℕ} {f : Bool} {ct tag plain : Bytes}
    (ho : Opens g key archiveId.text entryPath.text pre i f ct tag plain) :
    ∃ run ∈ runs, run.archiveId.text = archiveId.text ∧ run.entryPath.text = entryPath.text
      ∧ run.pre.bytes = pre ∧ (f = true → run.complete g key = true)
      ∧ ∃ c, sealedAt archiveId.text entryPath.text pre i f c ∈ (run.encryptor g key).produced
        ∧ frame f ct tag = sealFrame g key archiveId.text entryPath.text pre i f c := by
  obtain ⟨hi, ho⟩ := ho
  obtain ⟨⟨n, a, c⟩, hs, rfl, rfl, henc⟩ := hg _ _ _ _ _ ho
  have hframe : frame f ct tag = sealFrame g key archiveId.text entryPath.text pre i f c := by
    simp only [sealFrame]
    rw [henc]
  rcases List.mem_append.mp hs with hs | hs
  · obtain ⟨run, hrun, hs⟩ := List.mem_flatMap.mp hs
    obtain ⟨k, f', c', hk, heq, hfinal⟩ := EntryRun.produced_sealedAt hs
    obtain ⟨ha, he, hp, -, rfl, -⟩ := sealedAt_inj hpre run.pre.length hi hk heq
    exact ⟨run, hrun, ha.symm, he.symm, hp.symm, hfinal, c, hs, hframe⟩
  · obtain ⟨check, -, heq⟩ := List.mem_map.mp hs
    obtain ⟨-, he, -⟩ := sealedAt_inj hpre check.pre.length hi (by decide) heq.symm
    exact absurd he (KEY_CHECK_PATH_ne entryPath)

theorem reads_final {i : ℕ} {bytes text : Bytes}
    (h : Reads g key archiveId.text entryPath.text pre i bytes text) :
    ∃ j ct tag plain, Opens g key archiveId.text entryPath.text pre j true ct tag plain := by
  induction h with
  | last _ ho => exact ⟨_, _, _, _, ho⟩
  | more _ _ _ ih => exact ih

/-- What is read from chunk `i` on is the run's stream from there on. -/
theorem reads_emitted (hg : g.Ideal key (history g key runs checks)) {run : EntryRun}
    (hid : run.archiveId.text = archiveId.text) (hpath : run.entryPath.text = entryPath.text)
    (hpre : run.pre.bytes = pre) (hone : ∀ r ∈ runs, r.pre.bytes = pre → r = run)
    {done : List Bytes} {rest : Bytes} (hem : Emitted g key run done rest) {i : ℕ}
    {bytes text : Bytes} (h : Reads g key archiveId.text entryPath.text pre i bytes text) :
    bytes = sealFrames g key archiveId.text entryPath.text pre i (done.drop i)
      ++ sealFrame g key archiveId.text entryPath.text pre done.length true rest := by
  have hlen : pre.length = NONCE_PREFIX_BYTES := hpre ▸ run.pre.length
  have hchunk : ∀ {i f ct tag plain}, Opens g key archiveId.text entryPath.text pre i f ct tag plain →
      ∃ c, frame f ct tag = sealFrame g key archiveId.text entryPath.text pre i f c
        ∧ (f = false ∧ done[i]? = some c ∨ f = true ∧ i = done.length ∧ c = rest) := by
    intro i f ct tag plain ho
    obtain ⟨r, hr, -, -, hp, -, c, hs, hframe⟩ := opens_sealed hg hlen ho
    obtain rfl := hone r hr hp
    refine ⟨c, hframe, hem.chunk ho.1 ?_⟩
    rw [hid, hpath, hpre]
    exact hs
  induction h with
  | @last i ct tag plain _ ho =>
    obtain ⟨c, hframe, ⟨h, -⟩ | ⟨-, rfl, rfl⟩⟩ := hchunk ho
    · cases h
    · rw [hframe, List.drop_length]
      rfl
  | @more i ct tag plain bytes text _ ho _ ih =>
    obtain ⟨c, hframe, ⟨-, hc⟩ | ⟨h, -⟩⟩ := hchunk ho
    · obtain ⟨hlt, rfl⟩ := List.getElem?_eq_some_iff.mp hc
      rw [hframe, ih, List.drop_eq_getElem_cons hlt, sealFrames, List.append_assoc]
    · cases h

end Ideal

/-- What the encryptor puts out for a whole entry decrypts to what was written to it, however either
was cut; and where the cipher opens only what was sealed and no two entries share a nonce prefix,
bytes are accepted for an archive id and a path only if they are what a run on that entry put out,
written to its end. -/
theorem archive_codec (g : Gcm) (key : Bytes) :
    (g.Correct → ∀ run : EntryRun, run.ended = true →
      (run.complete g key = true ↔ run.writes.flatten.length ≤ 2 ^ 32 * CHUNK_BYTES)
      ∧ (run.complete g key = true →
        ∀ pieces : List Bytes, pieces.flatten = (run.encryptor g key).out →
          decryptEntry g key run.archiveId.text run.entryPath.text pieces
            = .ok run.writes.flatten))
    ∧ ∀ (runs : List EntryRun) (checks : List KeyCheck), (runs.map (·.pre)).Nodup →
      g.Ideal key (history g key runs checks) →
      ∀ (archiveId : ArchiveId) (entryPath : EntryPath) (pieces : List Bytes) (plain : Bytes),
        decryptEntry g key archiveId.text entryPath.text pieces = .ok plain →
        ∃ run ∈ runs, run.archiveId.text = archiveId.text ∧ run.entryPath.text = entryPath.text
          ∧ run.complete g key = true ∧ pieces.flatten = (run.encryptor g key).out := by
  constructor
  · intro hg run hended
    rcases run.emitted g key with ⟨hdone, done, rest, hem⟩ | ⟨hdone, hlong, -⟩
    · refine ⟨iff_of_true hdone ?_, fun _ pieces hp => decrypt_emitted hg hem hp⟩
      rw [hem.text, List.length_append, flatten_full hem.full]
      have := Nat.mul_le_mul_right CHUNK_BYTES (Nat.succ_le_of_lt hem.fits)
      rw [Nat.succ_mul] at this
      have := hem.most
      omega
    · refine ⟨iff_of_false (by rw [hdone]; decide) (Nat.not_le.mpr (hlong hended)), fun h => ?_⟩
      rw [hdone] at h
      cases h
  · intro runs checks hnodup hg archiveId entryPath pieces plain h
    obtain ⟨pre, bytes, hpre, hpieces, hreads⟩ := decryptEntry_ok.mp h
    obtain ⟨j, ct, tag, text, hfinal⟩ := reads_final hreads
    obtain ⟨run, hrun, hid, hpath, hp, hcomplete, -⟩ := opens_sealed hg hpre hfinal
    refine ⟨run, hrun, hid, hpath, hcomplete rfl, ?_⟩
    have hone : ∀ r ∈ runs, r.pre.bytes = pre → r = run := by
      intro r hr hrp
      refine List.inj_on_of_nodup_map hnodup hr hrun ?_
      cases hr' : r.pre
      cases hrun' : run.pre
      simp only [hr', hrun'] at hrp hp
      simp only [hrp, hp]
    rcases run.emitted g key with ⟨-, done, rest, hem⟩ | ⟨hno, -⟩
    · rw [hpieces, reads_emitted hg hid hpath hp hone hem hreads, hem.out, hid, hpath, hp]
      rfl
    · rw [hcomplete rfl] at hno
      cases hno

/-- A stand-in for the cipher that masks each byte and sums them for the tag, and opens of what bears
the right tag only what is `known`. -/
def sumGcm (known : Sealed → Bool) : Gcm where
  encrypt k n a p :=
    (p.map (· ^^^ 90), List.replicate TAG_BYTES ((k ++ n ++ a ++ p).foldl (· + ·) 0))
  decrypt k n a ct tag :=
    let p := ct.map (· ^^^ 90)
    if tag = List.replicate TAG_BYTES ((k ++ n ++ a ++ p).foldl (· + ·) 0) && known ⟨n, a, p⟩ then
      some p
    else none
  ciphertext_length _ _ _ _ := List.length_map _
  tag_length _ _ _ _ := List.length_replicate

theorem unmask (p : Bytes) : (p.map (· ^^^ 90)).map (· ^^^ 90) = p := by
  rw [List.map_map, List.map_congr_left (g := id), List.map_id]
  intro b _
  simp only [Function.comp_apply, UInt8.xor_assoc, UInt8.xor_self, UInt8.xor_zero, id]

theorem sumGcm_correct : (sumGcm fun _ => true).Correct := by
  intro k n a p
  simp only [sumGcm, unmask, decide_true, Bool.and_self, if_true]

theorem sumGcm_ideal (key : Bytes) (sealed : List Sealed) :
    (sumGcm fun s => decide (s ∈ sealed)).Ideal key sealed := by
  intro n a ct tag plain h
  simp only [sumGcm, Bool.and_eq_true, decide_eq_true_eq, Option.ite_none_right_eq_some] at h
  obtain ⟨⟨rfl, hs⟩, -⟩ := h
  exact ⟨_, hs, rfl, rfl, by simp only [sumGcm, unmask]⟩

def savedId : ArchiveId := ⟨ascii "0f1e2d3c-4b5a-6978-8796-a5b4c3d2e1f0", by decide⟩
def savedRows : EntryPath := ⟨ascii "data/accounts.ndjson", by decide⟩

/-- The rows of one table written in two pieces. -/
def savedRun : EntryRun :=
  { archiveId := savedId, entryPath := savedRows, pre := ⟨[7, 7, 7, 7, 0, 0, 0, 1], rfl⟩
    writes := [[123, 34], [125, 10]], ended := true }

def savedCheck : KeyCheck := ⟨savedId, ⟨[7, 7, 7, 7, 0, 0, 0, 2], rfl⟩⟩

def savedHistory : List Sealed := history (sumGcm fun _ => true) [1, 2, 3] [savedRun] [savedCheck]

def savedOpening : Gcm := sumGcm fun s => decide (s ∈ savedHistory)

def savedBytes : Bytes := (savedRun.encryptor savedOpening [1, 2, 3]).out

theorem savedOpening_ideal :
    savedOpening.Ideal [1, 2, 3] (history savedOpening [1, 2, 3] [savedRun] [savedCheck]) := by
  have h : history savedOpening [1, 2, 3] [savedRun] [savedCheck] = savedHistory := by
    decide +kernel
  rw [h]
  exact sumGcm_ideal _ _

theorem savedBytes_opens : decryptEntry savedOpening [1, 2, 3] savedId.text savedRows.text
    [savedBytes] = .ok [123, 34, 125, 10] := by
  decide +kernel

theorem archive_codec_saved :
    (∀ pieces : List Bytes,
      pieces.flatten = (savedRun.encryptor (sumGcm fun _ => true) [1, 2, 3]).out →
      decryptEntry (sumGcm fun _ => true) [1, 2, 3] savedId.text savedRows.text pieces
        = .ok savedRun.writes.flatten)
    ∧ ∃ run ∈ [savedRun], run.archiveId.text = savedId.text ∧ run.entryPath.text = savedRows.text
        ∧ run.complete savedOpening [1, 2, 3] = true
        ∧ [savedBytes].flatten = (run.encryptor savedOpening [1, 2, 3]).out :=
  ⟨((archive_codec _ _).1 sumGcm_correct savedRun rfl).2 (by decide +kernel),
    (archive_codec _ _).2 [savedRun] [savedCheck] (by decide +kernel) savedOpening_ideal _ _ _ _
      savedBytes_opens⟩

end Archive

end MyBooks
