import Mathlib.Data.Rat.Floor
import MyBooks.Streaming

/-!
# Encrypted archive entries

An entry is an 8-byte nonce prefix and chunks of AES-256-GCM, each framed by its length and a final
flag, each bound to its archive, entry, position and flag by the data authenticated with it. The
cipher is a parameter. The encryptor keeps what it asked the cipher to seal, so that what was
produced under a key can be told.
-/

namespace MyBooks

namespace Archive

abbrev Bytes := List UInt8

def CHUNK_BYTES : ℕ := 65536
def NONCE_PREFIX_BYTES : ℕ := 8
def TAG_BYTES : ℕ := 16
def FRAME_HEADER_BYTES : ℕ := 5

def ascii (s : String) : Bytes := s.toList.map fun c => UInt8.ofNat c.toNat

def KEY_CHECK_PLAINTEXT : Bytes := ascii "mybooks-tenant-archive key check v1"
def KEY_CHECK_PATH : Bytes := ascii "envelope/keyCheck"

/-- Four bytes, the largest first. -/
def u32 (n : ℕ) : Bytes :=
  [UInt8.ofNat (n / 2 ^ 24), UInt8.ofNat (n / 2 ^ 16), UInt8.ofNat (n / 2 ^ 8), UInt8.ofNat n]

def readU32 : Bytes → ℕ
  | a :: b :: c :: d :: _ => a.toNat * 2 ^ 24 + b.toNat * 2 ^ 16 + c.toNat * 2 ^ 8 + d.toNat
  | _ => 0

def isHex (b : UInt8) : Bool := (48 ≤ b && b ≤ 57) || (97 ≤ b && b ≤ 102)

def isUuid (text : Bytes) : Bool :=
  text.length = 36 && text.zipIdx.all fun (b, i) =>
    if i = 8 ∨ i = 13 ∨ i = 18 ∨ i = 23 then b = 45 else isHex b

/-- An archive id, as the envelope's check leaves it. -/
structure ArchiveId where
  text : Bytes
  uuid : isUuid text = true

/-- How the names of the format's parts start. -/
def isPartName (text : Bytes) : Bool :=
  text = ascii "manifest.json" || (ascii "data/").isPrefixOf text || (ascii "files/").isPrefixOf text

structure EntryPath where
  text : Bytes
  part : isPartName text = true

/-- The nonce prefix of an entry. -/
structure NoncePrefix where
  bytes : Bytes
  length : bytes.length = NONCE_PREFIX_BYTES
  deriving DecidableEq

/-- AES-256-GCM: from a key, a nonce, the authenticated data and a plaintext to a ciphertext and a
tag, and back where the tag is right. -/
structure Gcm where
  encrypt : Bytes → Bytes → Bytes → Bytes → Bytes × Bytes
  decrypt : Bytes → Bytes → Bytes → Bytes → Bytes → Option Bytes
  ciphertext_length : ∀ k n a p, (encrypt k n a p).1.length = p.length
  tag_length : ∀ k n a p, (encrypt k n a p).2.length = TAG_BYTES

def Gcm.Correct (g : Gcm) : Prop :=
  ∀ k n a p, g.decrypt k n a (g.encrypt k n a p).1 (g.encrypt k n a p).2 = some p

def aad (archiveId entryPath : Bytes) (chunkIndex : ℕ) (isFinal : Bool) : Bytes :=
  archiveId ++ [0] ++ entryPath ++ [0] ++ u32 chunkIndex ++ [if isFinal then 1 else 0]

def nonce (pre : Bytes) (chunkIndex : ℕ) : Bytes := pre ++ u32 chunkIndex

def frame (isFinal : Bool) (ct tag : Bytes) : Bytes :=
  u32 ct.length ++ [if isFinal then 1 else 0] ++ ct ++ tag

/-! ## Encrypting -/

/-- A plaintext sealed under a nonce with its authenticated data. -/
structure Sealed where
  nonce : Bytes
  aad : Bytes
  plain : Bytes
  deriving DecidableEq

/-- The stream's buffer and position, what it has pushed, whether it failed on a chunk index that
does not fit its four bytes, and what it sealed. -/
structure EntryEncryptor where
  buffer : List Bytes
  buffered : ℕ
  index : ℕ
  started : Bool
  out : Bytes
  failed : Bool
  produced : List Sealed

def EntryEncryptor.fresh : EntryEncryptor := ⟨[], 0, 0, false, [], false, []⟩

section Encrypt

variable (g : Gcm) (key archiveId entryPath pre : Bytes)

def emitChunk (e : EntryEncryptor) (plain : Bytes) (isFinal : Bool) : EntryEncryptor :=
  if e.failed || 2 ^ 32 ≤ e.index then { e with failed := true }
  else
    let n := nonce pre e.index
    let a := aad archiveId entryPath e.index isFinal
    let (ct, tag) := g.encrypt key n a plain
    { e with
      started := true
      out := e.out ++ (if e.started then [] else pre) ++ frame isFinal ct tag
      index := e.index + 1
      produced := e.produced ++ [⟨n, a, plain⟩] }

/-- The loop of `_transform`: each pass takes a full chunk off the buffer, so the buffered bytes
bound the passes. -/
def emitFull : ℕ → EntryEncryptor → EntryEncryptor
  | 0, e => e
  | passes + 1, e =>
    if CHUNK_BYTES < e.buffered then
      let all := e.buffer.flatten
      let rest := all.drop CHUNK_BYTES
      emitFull passes
        { emitChunk g key archiveId entryPath pre e (all.take CHUNK_BYTES) false with
          buffer := [rest]
          buffered := rest.length }
    else e

def transform (e : EntryEncryptor) (chunk : Bytes) : EntryEncryptor :=
  emitFull g key archiveId entryPath pre (e.buffered + chunk.length)
    { e with buffer := e.buffer ++ [chunk], buffered := e.buffered + chunk.length }

def flush (e : EntryEncryptor) : EntryEncryptor :=
  { emitChunk g key archiveId entryPath pre e e.buffer.flatten true with buffer := [], buffered := 0 }

end Encrypt

/-- A use of the encryptor: the entry, what was written to it, and whether it was ended. -/
structure EntryRun where
  archiveId : ArchiveId
  entryPath : EntryPath
  pre : NoncePrefix
  writes : List Bytes
  ended : Bool

def EntryRun.encryptor (g : Gcm) (key : Bytes) (run : EntryRun) : EntryEncryptor :=
  let e := run.writes.foldl
    (transform g key run.archiveId.text run.entryPath.text run.pre.bytes) .fresh
  if run.ended then flush g key run.archiveId.text run.entryPath.text run.pre.bytes e else e

/-- The entry was written to its end. -/
def EntryRun.complete (g : Gcm) (key : Bytes) (run : EntryRun) : Bool :=
  run.ended && !(run.encryptor g key).failed

/-! ## Decrypting -/

/-- Why an entry is refused as damaged. -/
inductive Corrupt
  | bytesAfterFinal
  | badFlag
  | badLength
  | authentication
  | noFinalChunk
  | tooShort
  deriving DecidableEq

structure ChunkParser where
  pre : Option Bytes
  index : ℕ
  finished : Bool
  deriving DecidableEq

def ChunkParser.fresh : ChunkParser := ⟨none, 0, false⟩

section Decrypt

variable (g : Gcm) (key archiveId entryPath : Bytes)

/-- `push` takes the nonce prefix first, then chunk after chunk off the pending bytes. A chunk index
that does not fit its four bytes fails in the decipher's try block. -/
def nextChunk : Reader ChunkParser UInt8 UInt8 Corrupt := fun p pending =>
  match p.pre with
  | none =>
    if pending.length < NONCE_PREFIX_BYTES then .ok none
    else
      .ok (some ({ p with pre := some (pending.take NONCE_PREFIX_BYTES) }, [],
        pending.drop NONCE_PREFIX_BYTES))
  | some pre =>
    if pending = [] then .ok none
    else if p.finished then .error .bytesAfterFinal
    else if pending.length < FRAME_HEADER_BYTES then .ok none
    else
      let len := readU32 pending
      let flag := pending.getD 4 0
      if flag ≠ 0 ∧ flag ≠ 1 then .error .badFlag
      else
        let isFinal : Bool := flag = 1
        if CHUNK_BYTES < len ∨ isFinal = false ∧ len ≠ CHUNK_BYTES then .error .badLength
        else
          let total := FRAME_HEADER_BYTES + len + TAG_BYTES
          if pending.length < total then .ok none
          else
            let ct := (pending.drop FRAME_HEADER_BYTES).take len
            let tag := (pending.drop (FRAME_HEADER_BYTES + len)).take TAG_BYTES
            let opened :=
              if p.index < 2 ^ 32 then
                g.decrypt key (nonce pre p.index) (aad archiveId entryPath p.index isFinal) ct tag
              else none
            match opened with
            | none => .error .authentication
            | some plain => .ok (some (⟨some pre, p.index + 1, isFinal⟩, plain, pending.drop total))

/-- Every piece is pushed, then the end of the input needs a final chunk to have been seen. -/
def decryptEntry (pieces : List Bytes) : Except Corrupt Bytes :=
  match feed (nextChunk g key archiveId entryPath) .fresh [] pieces with
  | .error e => .error e
  | .ok (p, out, _) =>
    if p.finished then .ok out
    else .error (if p.pre.isSome then .noFinalChunk else .tooShort)

end Decrypt

end Archive

end MyBooks
