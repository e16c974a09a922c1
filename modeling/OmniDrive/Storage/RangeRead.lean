import Mathlib.Data.List.Pairwise
import OmniDrive.Crypto.SymbolicChunks
import OmniDrive.Library.Extents
import OmniDrive.Storage.RoundTrip

/-!
# Reading a range of a file

`read_range` collects the bytes of a range of a revision, `read_range_streamed` hands them to a
callback piece by piece. Both ask for the chunks that overlap the range, load one after the other
and cut them to the range.
-/

namespace OmniDrive

open StatementProgram Tables ByteFields Extents

/-- The storage code with the chunk cache and the connections to the peers. -/
structure ReadWorld (P : Primitives) (κ : Type) where
  files : FileWorld P
  cache : κ

variable {P : Primitives} {κ : Type} {α : Type}

abbrev ReadProg (P : Primitives) (κ α : Type) := Prog (ReadWorld P κ) DownloaderError α

/-- Run a program of the storage code. -/
def onReadFiles (p : FileProg P DownloaderError α) : ReadProg P κ α :=
  p.zoom (·.files) fun files w => { w with files }

theorem run_onReadFiles (p : FileProg P DownloaderError α) (w : ReadWorld P κ) :
    (onReadFiles p).run w = ((p.run w.files).1, { w with files := (p.run w.files).2 }) :=
  Prog.run_zoom (fun t : ReadWorld P κ => t.files) (fun files t => { t with files })
    (fun _ _ => rfl) (fun _ _ _ => rfl) (fun _ => rfl) p w

/-- What the cache and the peers answer. A chunk is cached under its revision and its number. -/
structure ChunkSources (P : Primitives) (κ : Type) where
  getChunk : ℤ → ℤ → ReadProg P κ (Option Bytes)
  putChunk : ℤ → FileChunkLocation → Bytes → ReadProg P κ Unit
  fetchChunk : Bytes → ReadProg P κ (Option Bytes)

/-- A sum of two words. -/
def checkedAdd (a b : ℕ) (context : String) : Except DownloaderError ℕ :=
  if a + b < 2 ^ 64 then .ok (a + b) else .error (.numericOverflow context)

/-- `i64::try_from` of a word. -/
def toI64 (value : ℕ) (context : String) : Except DownloaderError ℤ :=
  if value < 2 ^ 63 then .ok value else .error (.numericOverflow context)

namespace Downloader

variable (C : ChunkPrimitives P) (net : Network) (sources : ChunkSources P κ)

/-! ## Loading a chunk -/

def tryFetchChunkFromPeer (revisionId : ℤ) (chunk : FileChunkLocation) :
    ReadProg P κ (Option Bytes) := do
  match ← sources.fetchChunk chunk.chunkId with
  | none => pure none
  | some bytes =>
    sources.putChunk revisionId chunk bytes
    match ← sources.getChunk revisionId chunk.chunkIndex with
    | some cached => pure (some cached)
    | none => pure (some bytes)

/-- The plaintext of a chunk: from the cache, from a peer, or from its pack. -/
def loadPlaintextChunk (revisionId : ℤ) (vaultKey : P.Key) (downloaded : DownloadedPacks)
    (chunk : FileChunkLocation) : ReadProg P κ (Bytes × DownloadedPacks) := do
  match ← sources.getChunk revisionId chunk.chunkIndex with
  | some bytes => pure (bytes, downloaded)
  | none =>
    match ← tryFetchChunkFromPeer sources revisionId chunk with
    | some bytes => pure (bytes, downloaded)
    | none =>
      let (plaintext, downloaded) ← onReadFiles (readChunk C net vaultKey downloaded chunk)
      sources.putChunk revisionId chunk plaintext
      pure (plaintext, downloaded)

/-! ## The two loops -/

/-- Append the parts of the chunks that lie in the range, until there are enough bytes. -/
def appendChunks (revisionId : ℤ) (offset endOffset length : ℕ) (vaultKey : P.Key) :
    Bytes → DownloadedPacks → List FileChunkLocation → ReadProg P κ Bytes
  | result, _, [] => pure result
  | result, downloaded, chunk :: rest => do
    let (plaintext, downloaded) ←
      loadPlaintextChunk C net sources revisionId vaultKey downloaded chunk
    let chunkStart ← Prog.ofExcept (toU64 chunk.fileOffset "file offset")
    let chunkEnd ← Prog.ofExcept (checkedAdd chunkStart plaintext.length "chunk end")
    let sliceStart := max offset chunkStart
    let sliceEnd := min endOffset chunkEnd
    if sliceStart ≥ sliceEnd then
      appendChunks revisionId offset endOffset length vaultKey result downloaded rest
    else
      let localStart := sliceStart - chunkStart
      let localEnd := sliceEnd - chunkStart
      let result := result ++ slice localStart localEnd plaintext
      if result.length ≥ length then pure result
      else appendChunks revisionId offset endOffset length vaultKey result downloaded rest

def readRange (inodeId revisionId : ℤ) (offset length : ℕ) : ReadProg P κ Bytes := do
  let revision ← onReadFiles (Db.getFileRevision inodeId revisionId)
  let _ ← Prog.ofOption (.noChunksForInode inodeId) revision
  if length = 0 then pure []
  else
    let endOffset ← Prog.ofExcept (checkedAdd offset length "range end")
    let startI64 ← Prog.ofExcept (toI64 offset "range start")
    let endI64 ← Prog.ofExcept (toI64 endOffset "range end")
    let chunkLocations ←
      onReadFiles (Db.getRevisionChunkLocationsInRange inodeId revisionId startI64 endI64)
    if chunkLocations.isEmpty then .fail (.noChunksForInode inodeId)
    else
      let vaultKey ← onReadFiles (onVault .vault VaultKeyStore.vaultKeyForV1Read)
      let result ← appendChunks C net sources revisionId offset endOffset length vaultKey [] []
        chunkLocations
      pure (result.take length)

/-- A piece that is handed to the callback, with its place in the file. -/
structure EmittedPiece where
  offset : ℕ
  bytes : Bytes
  deriving DecidableEq, Repr

/-- Emit the parts of the chunks that lie in the range, until enough bytes have been emitted. -/
def emitChunks (revisionId : ℤ) (offset endOffset length : ℕ) (vaultKey : P.Key)
    (onChunk : EmittedPiece → Except DownloaderError Unit) :
    List EmittedPiece → ℕ → DownloadedPacks → List FileChunkLocation →
      ReadProg P κ (List EmittedPiece)
  | emitted, _, _, [] => pure emitted
  | emitted, bytesEmitted, downloaded, chunk :: rest => do
    let (plaintext, downloaded) ←
      loadPlaintextChunk C net sources revisionId vaultKey downloaded chunk
    let chunkStart ← Prog.ofExcept (toU64 chunk.fileOffset "file offset")
    let chunkEnd ← Prog.ofExcept (checkedAdd chunkStart plaintext.length "chunk end")
    let sliceStart := max offset chunkStart
    let sliceEnd := min endOffset chunkEnd
    if sliceStart ≥ sliceEnd then
      emitChunks revisionId offset endOffset length vaultKey onChunk emitted bytesEmitted
        downloaded rest
    else
      let localStart := sliceStart - chunkStart
      let localEnd := sliceEnd - chunkStart
      let piece := { offset := sliceStart, bytes := slice localStart localEnd plaintext }
      Prog.ofExcept (onChunk piece)
      let bytesEmitted := bytesEmitted + (localEnd - localStart)
      if bytesEmitted ≥ length then pure (emitted ++ [piece])
      else
        emitChunks revisionId offset endOffset length vaultKey onChunk (emitted ++ [piece])
          bytesEmitted downloaded rest

/-- The streaming read, with the pieces that it has emitted. -/
def readRangeStreamed (inodeId revisionId : ℤ) (offset length : ℕ)
    (onChunk : EmittedPiece → Except DownloaderError Unit) :
    ReadProg P κ (List EmittedPiece) := do
  let revision ← onReadFiles (Db.getFileRevision inodeId revisionId)
  let _ ← Prog.ofOption (.noChunksForInode inodeId) revision
  if length = 0 then pure []
  else
    let endOffset ← Prog.ofExcept (checkedAdd offset length "range end")
    let startI64 ← Prog.ofExcept (toI64 offset "range start")
    let endI64 ← Prog.ofExcept (toI64 endOffset "range end")
    let chunkLocations ←
      onReadFiles (Db.getRevisionChunkLocationsInRange inodeId revisionId startI64 endI64)
    if chunkLocations.isEmpty then .fail (.noChunksForInode inodeId)
    else
      let vaultKey ← onReadFiles (onVault .vault VaultKeyStore.vaultKeyForV1Read)
      emitChunks C net sources revisionId offset endOffset length vaultKey onChunk [] 0 []
        chunkLocations

/-! ## The two reads agree -/

section Agree

variable {C net sources} {revisionId : ℤ} {offset endOffset length : ℕ} {vaultKey : P.Key}

/-- What a list of pieces holds. -/
def bytesOf (pieces : List EmittedPiece) : Bytes := pieces.flatMap (·.bytes)

theorem bytesOf_concat (pieces : List EmittedPiece) (piece : EmittedPiece) :
    bytesOf (pieces ++ [piece]) = bytesOf pieces ++ piece.bytes := by
  rw [bytesOf, List.flatMap_append, List.flatMap_singleton, bytesOf]

/-- A callback that takes every piece. -/
def accept : EmittedPiece → Except DownloaderError Unit := fun _ => .ok ()

/-- The two loops execute the same statements; the bytes of the one are those of the other. -/
theorem appendChunks_eq_emitChunks (emitted : List EmittedPiece) (downloaded : DownloadedPacks)
    (chunks : List FileChunkLocation) :
    appendChunks C net sources revisionId offset endOffset length vaultKey (bytesOf emitted)
        downloaded chunks =
      emitChunks C net sources revisionId offset endOffset length vaultKey accept emitted
        (bytesOf emitted).length downloaded chunks >>= fun pieces => pure (bytesOf pieces) := by
  induction chunks generalizing emitted downloaded with
  | nil => rfl
  | cons chunk rest ih =>
    rw [appendChunks, emitChunks, Prog.bind_assoc]
    apply congrArg (Prog.bind _)
    funext ⟨plaintext, downloaded⟩
    dsimp only
    cases toU64 chunk.fileOffset "file offset" with
    | error err => rfl
    | ok chunkStart =>
      rw [Prog.ofExcept_ok, Prog.ret_bind, Prog.ret_bind]
      cases hend : checkedAdd chunkStart plaintext.length "chunk end" with
      | error err => rfl
      | ok chunkEnd =>
        have hvalue : chunkEnd = chunkStart + plaintext.length := by
          rw [checkedAdd] at hend
          split at hend
          · exact (Except.ok.inj hend).symm
          · cases hend
        rw [Prog.ofExcept_ok, Prog.ret_bind, Prog.ret_bind]
        by_cases hempty : max offset chunkStart ≥ min endOffset chunkEnd
        · rw [if_pos hempty, if_pos hempty]
          exact ih emitted downloaded
        · rw [if_neg hempty, if_neg hempty, accept, Prog.ofExcept_ok, Prog.ret_bind]
          have hbytes := bytesOf_concat emitted
            { offset := max offset chunkStart
              bytes := slice (max offset chunkStart - chunkStart)
                (min endOffset chunkEnd - chunkStart) plaintext }
          have hslice : (slice (max offset chunkStart - chunkStart)
              (min endOffset chunkEnd - chunkStart) plaintext).length =
                (min endOffset chunkEnd - chunkStart) - (max offset chunkStart - chunkStart) := by
            rw [length_slice]
            omega
          have hlength := congrArg List.length hbytes
          rw [List.length_append, hslice] at hlength
          rw [← hlength, ← hbytes]
          split
          · rfl
          · exact ih _ downloaded

/-- So do the two reads; the buffered one cuts its result to the length. -/
theorem readRange_eq_readRangeStreamed (inodeId revisionId : ℤ) (offset length : ℕ) :
    readRange C net sources inodeId revisionId offset length =
      readRangeStreamed C net sources inodeId revisionId offset length accept >>= fun pieces =>
        pure ((bytesOf pieces).take length) := by
  rw [readRange, readRangeStreamed, Prog.bind_assoc]
  apply congrArg (Prog.bind _)
  funext revision
  rw [Prog.bind_assoc]
  apply congrArg (Prog.bind _)
  funext _
  by_cases hzero : length = 0
  · rw [if_pos hzero, if_pos hzero, hzero]
    rfl
  · rw [if_neg hzero, if_neg hzero, Prog.bind_assoc]
    apply congrArg (Prog.bind _)
    funext endOffset
    rw [Prog.bind_assoc]
    apply congrArg (Prog.bind _)
    funext startI64
    rw [Prog.bind_assoc]
    apply congrArg (Prog.bind _)
    funext endI64
    rw [Prog.bind_assoc]
    apply congrArg (Prog.bind _)
    funext chunkLocations
    split
    · rfl
    · rw [Prog.bind_assoc]
      apply congrArg (Prog.bind _)
      funext vaultKey
      have hloop : appendChunks C net sources revisionId offset endOffset length vaultKey [] []
          chunkLocations = emitChunks C net sources revisionId offset endOffset length vaultKey
            accept [] 0 [] chunkLocations >>= fun pieces => pure (bytesOf pieces) :=
        appendChunks_eq_emitChunks [] [] chunkLocations
      rw [hloop, Prog.bind_assoc]
      rfl

end Agree

/-! ## The chunks that overlap the range -/

section Overlap

variable {offset endOffset : ℕ} {db : FileDb} {refs : List ChunkRefRecord}

/-- No position lies in two chunks. -/
def Apart (r s : ChunkRefRecord) : Prop :=
  ∀ x : ℤ, ¬ ((r.fileOffset ≤ x ∧ x < r.fileOffset + r.size) ∧
    (s.fileOffset ≤ x ∧ x < s.fileOffset + s.size))

instance : Std.Symm Apart where
  symm _ _ h x hx := h x ⟨hx.2, hx.1⟩

/-- The chunks of a revision tile its bytes. -/
structure Tiles (refs : List ChunkRefRecord) (size : ℕ) : Prop where
  inside : ∀ r ∈ refs, 0 ≤ r.fileOffset ∧ 0 ≤ r.size ∧ r.fileOffset + r.size ≤ size
  covers : ∀ x : ℕ, x < size → ∃ r ∈ refs, r.fileOffset ≤ x ∧ x < r.fileOffset + r.size
  apart : refs.Pairwise Apart

/-- A chunk has a row in `pack_locations`. -/
def isLocated (db : FileDb) (r : ChunkRefRecord) : Bool :=
  (db.packLocations.find? (·.chunkId = r.chunkId)).isSome

/-- The part of a chunk that lies in the range. -/
def window (offset endOffset : ℕ) (fileOffset size : ℤ) : Extent :=
  ⟨max offset fileOffset.toNat, min endOffset (fileOffset + size).toNat⟩

/-- The parts of the located chunks that are not empty. -/
def windows (offset endOffset : ℕ) (chunks : List FileChunkLocation) : List Extent :=
  (chunks.map fun l => window offset endOffset l.fileOffset l.size).filter fun e =>
    e.start < e.stop

def refWindows (offset endOffset : ℕ) (refs : List ChunkRefRecord) : List Extent :=
  (refs.map fun r => window offset endOffset r.fileOffset r.size).filter fun e =>
    e.start < e.stop

theorem windows_cons (l : FileChunkLocation) (rest : List FileChunkLocation) :
    windows offset endOffset (l :: rest) =
      if (window offset endOffset l.fileOffset l.size).start <
          (window offset endOffset l.fileOffset l.size).stop then
        window offset endOffset l.fileOffset l.size :: windows offset endOffset rest
      else windows offset endOffset rest := by
  rw [windows, List.map_cons, List.filter_cons]
  simp only [decide_eq_true_eq]
  rfl

theorem refWindows_cons (r : ChunkRefRecord) (rest : List ChunkRefRecord) :
    refWindows offset endOffset (r :: rest) =
      if (window offset endOffset r.fileOffset r.size).start <
          (window offset endOffset r.fileOffset r.size).stop then
        window offset endOffset r.fileOffset r.size :: refWindows offset endOffset rest
      else refWindows offset endOffset rest := by
  rw [refWindows, List.map_cons, List.filter_cons]
  simp only [decide_eq_true_eq]
  rfl

/-- Only located chunks have a part. -/
theorem windows_locate (refs : List ChunkRefRecord) (n : ℕ) :
    windows offset endOffset ((refs.zipIdx n).filterMap (Db.locate db)) =
      refWindows offset endOffset (refs.filter (isLocated db)) := by
  induction refs generalizing n with
  | nil => rfl
  | cons r rest ih =>
    rw [List.zipIdx_cons, List.filterMap_cons, List.filter_cons, isLocated, Db.locate]
    cases db.packLocations.find? (·.chunkId = r.chunkId) with
    | none => exact ih (n + 1)
    | some pl =>
      simp only [Option.map_some, Option.isSome_some, if_true]
      rw [windows_cons, refWindows_cons, ih (n + 1)]

/-- The query leaves out only chunks without a part. -/
theorem windows_filter (chunks : List FileChunkLocation) :
    windows offset endOffset (chunks.filter fun l =>
      l.fileOffset + l.size > (offset : ℤ) && l.fileOffset < (endOffset : ℤ)) =
        windows offset endOffset chunks := by
  induction chunks with
  | nil => rfl
  | cons l rest ih =>
    rw [List.filter_cons, windows_cons]
    by_cases hwindow : (window offset endOffset l.fileOffset l.size).start <
        (window offset endOffset l.fileOffset l.size).stop
    · have hrange : (l.fileOffset + l.size > (offset : ℤ) && l.fileOffset < (endOffset : ℤ)) =
          true := by
        simp only [window] at hwindow
        rw [Bool.and_eq_true, decide_eq_true_eq, decide_eq_true_eq]
        omega
      rw [if_pos hrange, windows_cons, ih]
    · rw [if_neg hwindow]
      split
      · rw [windows_cons, if_neg hwindow, ih]
      · exact ih

/-- A position lies in a part if it lies in the range and in a chunk. -/
theorem covers_refWindows {x : ℕ} (hlow : offset ≤ x) (hhigh : x < endOffset) :
    Covers (refWindows offset endOffset refs) x ↔
      ∃ r ∈ refs, r.fileOffset ≤ x ∧ x < r.fileOffset + r.size := by
  constructor
  · rintro ⟨e, he, hx⟩
    obtain ⟨r, hr, rfl⟩ := List.mem_map.mp (List.mem_filter.mp he).1
    simp only [window] at hx
    exact ⟨r, hr, by omega, by omega⟩
  · rintro ⟨r, hr, hx⟩
    have hmem : window offset endOffset r.fileOffset r.size ∈ refWindows offset endOffset refs := by
      rw [refWindows, List.mem_filter, decide_eq_true_eq]
      refine ⟨List.mem_map_of_mem hr, ?_⟩
      simp only [window]
      omega
    refine ⟨_, hmem, ?_⟩
    simp only [window]
    omega

/-- The parts of sorted chunks that do not overlap follow one another in a window that holds them. -/
theorem fits_refWindows {a b : ℕ} (hab : a ≤ b)
    (hsorted : refs.Pairwise fun r s => r.fileOffset ≤ s.fileOffset)
    (hapart : refs.Pairwise Apart)
    (hinside : ∀ e ∈ refWindows offset endOffset refs, a ≤ e.start ∧ e.stop ≤ b) :
    Fits a b (refWindows offset endOffset refs) := by
  induction refs generalizing a with
  | nil => exact hab
  | cons r rest ih =>
    rw [List.pairwise_cons] at hsorted hapart
    rw [refWindows_cons] at hinside ⊢
    split
    · rename_i hwindow
      rw [if_pos hwindow] at hinside
      obtain ⟨hstart, hstop⟩ := hinside _ List.mem_cons_self
      refine ⟨hstart, hwindow, ih hstop hsorted.2 hapart.2 ?_⟩
      intro e he
      refine ⟨?_, (hinside e (List.mem_cons_of_mem _ he)).2⟩
      obtain ⟨hmap, hne⟩ := List.mem_filter.mp he
      obtain ⟨s, hs, rfl⟩ := List.mem_map.mp hmap
      rw [decide_eq_true_eq] at hne
      have hle := hsorted.1 s hs
      have hother := hapart.1 s hs s.fileOffset
      simp only [window] at hwindow hne ⊢
      omega
    · rename_i hwindow
      rw [if_neg hwindow] at hinside
      exact ih hab hsorted.2 hapart.2 hinside

end Overlap

/-! ## What the loop emits -/

section Emit

variable {C net sources} {inodeId revisionId : ℤ} {offset endOffset length : ℕ}

/-- The loads of a file: the invariant holds when the vault key has been read and is kept by every
load, and a load that returns has the part of the file that the chunk stands for. -/
structure Serves (C : ChunkPrimitives P) (net : Network) (sources : ChunkSources P κ)
    (revisionId : ℤ) (chunks : List FileChunkLocation) (file : Bytes) (w : ReadWorld P κ)
    (I : P.Key → DownloadedPacks → ReadWorld P κ → Prop) : Prop where
  start : ∀ key w', (onReadFiles (onVault .vault VaultKeyStore.vaultKeyForV1Read)).run w =
    (.ok key, w') → I key [] w'
  load : ∀ chunk ∈ chunks, ∀ key downloaded w₁ plaintext downloaded' w₂, I key downloaded w₁ →
    (loadPlaintextChunk C net sources revisionId key downloaded chunk).run w₁ =
      (.ok (plaintext, downloaded'), w₂) →
    plaintext = slice chunk.fileOffset.toNat (chunk.fileOffset + chunk.size).toNat file ∧
      I key downloaded' w₂

/-- The piece of a file in a range. -/
def pieceAt (file : Bytes) (e : Extent) : EmittedPiece := ⟨e.start, slice e.start e.stop file⟩

/-- The loop emits the part of every chunk. It may stop early, but only behind the last part: the
bytes emitted so far never reach past the part that comes next. -/
theorem emitChunks_pieces {vaultKey : P.Key} {file : Bytes} {w₀ : ReadWorld P κ}
    {all : List FileChunkLocation} {I : P.Key → DownloadedPacks → ReadWorld P κ → Prop}
    (hserves : Serves C net sources revisionId all file w₀ I) (hrange : offset + length = endOffset)
    (chunks : List FileChunkLocation) (hall : ∀ l ∈ chunks, l ∈ all)
    (hinside : ∀ l ∈ chunks, 0 ≤ l.fileOffset ∧ 0 ≤ l.size ∧ l.fileOffset + l.size ≤ file.length)
    {a : ℕ} (hfits : Fits a endOffset (windows offset endOffset chunks)) {bytesEmitted : ℕ}
    (hcount : bytesEmitted + offset ≤ a) {downloaded : DownloadedPacks} {w w' : ReadWorld P κ}
    (hI : I vaultKey downloaded w) (emitted : List EmittedPiece) {pieces : List EmittedPiece}
    (h : (emitChunks C net sources revisionId offset endOffset length vaultKey accept emitted
      bytesEmitted downloaded chunks).run w = (.ok pieces, w')) :
    pieces = emitted ++ (windows offset endOffset chunks).map (pieceAt file) := by
  induction chunks generalizing a bytesEmitted downloaded w emitted with
  | nil =>
    cases h
    exact (List.append_nil _).symm
  | cons chunk rest ih =>
    have hallRest := fun l hl => hall l (List.mem_cons_of_mem _ hl)
    have hinsideRest := fun l hl => hinside l (List.mem_cons_of_mem _ hl)
    obtain ⟨hlow, hsize, hhigh⟩ := hinside chunk List.mem_cons_self
    rw [emitChunks] at h
    obtain ⟨⟨plaintext, downloaded'⟩, w₁, hload, h⟩ := Prog.run_bind_ok h
    obtain ⟨hplain, hI'⟩ := hserves.load chunk (hall chunk List.mem_cons_self) _ _ _ _ _ _ hI hload
    obtain ⟨chunkStart, hstart, h⟩ := Prog.run_ofExcept_bind_ok h
    obtain ⟨chunkEnd, hend, h⟩ := Prog.run_ofExcept_bind_ok h
    have hstart' : chunkStart = chunk.fileOffset.toNat := by
      rw [toU64, if_pos hlow] at hstart
      exact (Except.ok.inj hstart).symm
    have hend' : chunkEnd = (chunk.fileOffset + chunk.size).toNat := by
      rw [checkedAdd] at hend
      split at hend
      · have hvalue := Except.ok.inj hend
        rw [hplain, length_slice] at hvalue
        omega
      · cases hend
    rw [hstart', hend'] at h
    rw [windows_cons] at hfits ⊢
    by_cases hempty : max offset chunk.fileOffset.toNat ≥
        min endOffset (chunk.fileOffset + chunk.size).toNat
    · have hwindow : ¬ (window offset endOffset chunk.fileOffset chunk.size).start <
          (window offset endOffset chunk.fileOffset chunk.size).stop := not_lt.mpr hempty
      rw [if_pos hempty] at h
      rw [if_neg hwindow] at hfits ⊢
      exact ih hallRest hinsideRest hfits hcount hI' emitted h
    · rw [if_neg hempty] at h
      have hwindow : (window offset endOffset chunk.fileOffset chunk.size).start <
          (window offset endOffset chunk.fileOffset chunk.size).stop := not_le.mp hempty
      rw [if_pos hwindow] at hfits ⊢
      obtain ⟨hbefore, -, hrest⟩ := hfits
      have hpiece : slice (max offset chunk.fileOffset.toNat - chunk.fileOffset.toNat)
          (min endOffset (chunk.fileOffset + chunk.size).toNat - chunk.fileOffset.toNat) plaintext =
            slice (window offset endOffset chunk.fileOffset chunk.size).start
              (window offset endOffset chunk.fileOffset chunk.size).stop file := by
        rw [hplain, slice_slice (le_max_right _ _) (min_le_right _ _)]
        rfl
      simp only [accept, Prog.ofExcept_ok, Prog.ret_bind, hpiece] at h
      simp only [window] at hbefore hrest
      rw [List.map_cons, ← List.singleton_append, ← List.append_assoc]
      split at h
      · -- enough bytes: the range ends here, and there is nothing behind it
        have hstop : min endOffset (chunk.fileOffset + chunk.size).toNat = endOffset := by omega
        rw [hstop] at hrest
        rw [hrest.eq_nil, List.map_nil, List.append_nil]
        cases h
        rfl
      · exact ih hallRest hinsideRest hrest (by omega) hI' _ h

end Emit

/-! ## What a read returns -/

section Reads

variable {C net sources} {inodeId revisionId : ℤ} {offset length : ℕ} {file : Bytes}
  {w w' : ReadWorld P κ} {I : P.Key → DownloadedPacks → ReadWorld P κ → Prop}

/-- A chunk has a part in the range. -/
def Overlaps (offset endOffset : ℕ) (r : ChunkRefRecord) : Prop :=
  (window offset endOffset r.fileOffset r.size).start <
    (window offset endOffset r.fileOffset r.size).stop

/-- The located chunks of a revision in the order of the file. -/
def locatedRefs (inodeId revisionId : ℤ) (db : FileDb) : List ChunkRefRecord :=
  (orderBy (·.fileOffset) (Db.revisionRefs inodeId revisionId db)).filter (isLocated db)

theorem mem_locatedRefs {db : FileDb} {r : ChunkRefRecord} :
    r ∈ locatedRefs inodeId revisionId db ↔
      r ∈ Db.revisionRefs inodeId revisionId db ∧ isLocated db r = true := by
  rw [locatedRefs, List.mem_filter, mem_orderBy]

/-- A position lies in one chunk. -/
theorem Tiles.unique {refs : List ChunkRefRecord} {size : ℕ} (h : Tiles refs size)
    {r s : ChunkRefRecord} (hr : r ∈ refs) (hs : s ∈ refs) {x : ℤ}
    (hxr : r.fileOffset ≤ x ∧ x < r.fileOffset + r.size)
    (hxs : s.fileOffset ≤ x ∧ x < s.fileOffset + s.size) : r = s := by
  by_contra hne
  exact h.apart.forall hr hs hne x ⟨hxr, hxs⟩

/-- The parts of the located chunks lie one behind the other in what there is of the range. -/
theorem fits_locatedRefs {db : FileDb}
    (htiles : Tiles (Db.revisionRefs inodeId revisionId db) file.length)
    (hoffset : offset ≤ file.length) (length : ℕ) :
    Fits offset (min (offset + length) file.length)
      (refWindows offset (offset + length) (locatedRefs inodeId revisionId db)) := by
  have hperm := orderBy_perm (fun r : ChunkRefRecord => r.fileOffset)
    (Db.revisionRefs inodeId revisionId db)
  have hapart := (hperm.pairwise_iff (Std.Symm.symm _ _)).mpr htiles.apart
  apply fits_refWindows (by omega) ((pairwise_orderBy _ _).filter _) (hapart.filter _)
  intro e he
  obtain ⟨r, hr, rfl⟩ := List.mem_map.mp (List.mem_filter.mp he).1
  have hr' := htiles.inside r (mem_locatedRefs.mp hr).1
  simp only [window]
  omega

/-- A position of the range is covered if and only if its chunk is located. -/
theorem covers_locatedRefs {db : FileDb}
    (htiles : Tiles (Db.revisionRefs inodeId revisionId db) file.length) {r : ChunkRefRecord}
    (hr : r ∈ Db.revisionRefs inodeId revisionId db) {x : ℕ} (hlow : offset ≤ x)
    (hhigh : x < offset + length) (hx : r.fileOffset ≤ x ∧ x < r.fileOffset + r.size) :
    Covers (refWindows offset (offset + length) (locatedRefs inodeId revisionId db)) x ↔
      isLocated db r = true := by
  rw [covers_refWindows hlow hhigh]
  constructor
  · rintro ⟨s, hs, hxs⟩
    obtain ⟨hs, hlocated⟩ := mem_locatedRefs.mp hs
    exact htiles.unique hr hs hx hxs ▸ hlocated
  · exact fun hlocated => ⟨r, mem_locatedRefs.mpr ⟨hr, hlocated⟩, hx⟩

theorem refWindows_eq_nil {refs : List ChunkRefRecord} {endOffset : ℕ} (h : endOffset ≤ offset) :
    refWindows offset endOffset refs = [] := by
  rw [refWindows, List.filter_eq_nil_iff]
  intro e he
  obtain ⟨r, -, rfl⟩ := List.mem_map.mp he
  rw [decide_eq_true_eq]
  simp only [window]
  omega

theorem checkedAdd_eq_ok {a b c : ℕ} {context : String} (h : checkedAdd a b context = .ok c) :
    c = a + b := by
  rw [checkedAdd] at h
  split at h
  · exact (Except.ok.inj h).symm
  · cases h

theorem toI64_eq_ok {value : ℕ} {n : ℤ} {context : String} (h : toI64 value context = .ok n) :
    n = value := by
  rw [toI64] at h
  split at h
  · exact (Except.ok.inj h).symm
  · cases h

/-- A location stands at the place of its chunk. -/
theorem mem_locateAll {db : FileDb} {refs : List ChunkRefRecord} {l : FileChunkLocation}
    (h : l ∈ Db.locateAll db refs) :
    ∃ r ∈ refs, l.fileOffset = r.fileOffset ∧ l.size = r.size := by
  obtain ⟨⟨r, n⟩, hr, hlocate⟩ := List.mem_filterMap.mp h
  rw [Db.locate, Option.map_eq_some_iff] at hlocate
  obtain ⟨pl, -, rfl⟩ := hlocate
  exact ⟨r, (mem_orderBy _ _ _).mp (List.fst_mem_of_mem_zipIdx hr), rfl, rfl⟩

/-- A streaming read that returns has emitted the parts of the located chunks. -/
theorem readRangeStreamed_pieces
    (htiles : Tiles (Db.revisionRefs inodeId revisionId w.files.db) file.length)
    (hserves : Serves C net sources revisionId
      (Db.locateAll w.files.db (Db.revisionRefs inodeId revisionId w.files.db)) file w I)
    {pieces : List EmittedPiece}
    (h : (readRangeStreamed C net sources inodeId revisionId offset length accept).run w =
      (.ok pieces, w')) :
    pieces = (refWindows offset (offset + length)
      (locatedRefs inodeId revisionId w.files.db)).map (pieceAt file) := by
  rw [readRangeStreamed] at h
  have hrevision : (onReadFiles (Db.getFileRevision inodeId revisionId) :
      ReadProg P κ (Option FileRevisionRecord)).run w =
        (.ok (Db.revisionOf inodeId revisionId w.files.db), w) := rfl
  rw [Prog.run_bind_of_ok hrevision] at h
  obtain ⟨revision, -, h⟩ := Prog.run_ofOption_bind_ok h
  split at h
  · rename_i hzero
    cases h
    have hnone : refWindows offset (offset + length)
        (locatedRefs inodeId revisionId w.files.db) = [] :=
      refWindows_eq_nil (by rw [hzero, Nat.add_zero])
    rw [hnone]
    rfl
  · obtain ⟨endOffset, hend, h⟩ := Prog.run_ofExcept_bind_ok h
    obtain ⟨startI64, hstart64, h⟩ := Prog.run_ofExcept_bind_ok h
    obtain ⟨endI64, hend64, h⟩ := Prog.run_ofExcept_bind_ok h
    rw [checkedAdd_eq_ok hend] at hend64 h
    rw [toI64_eq_ok hstart64, toI64_eq_ok hend64] at h
    have hlocations : (onReadFiles (Db.getRevisionChunkLocationsInRange inodeId revisionId offset
        (offset + length : ℕ)) : ReadProg P κ (List FileChunkLocation)).run w =
          (.ok (Db.revisionLocationsInRange inodeId revisionId offset (offset + length : ℕ)
            w.files.db), w) := rfl
    rw [Prog.run_bind_of_ok hlocations] at h
    split at h
    · cases h
    · rename_i hsome
      obtain ⟨vaultKey, w₁, hkey, h⟩ := Prog.run_bind_ok h
      have hall : ∀ l ∈ Db.revisionLocationsInRange inodeId revisionId offset (offset + length : ℕ)
          w.files.db, l ∈ Db.locateAll w.files.db (Db.revisionRefs inodeId revisionId w.files.db) :=
        fun l hl => (List.mem_filter.mp hl).1
      have hinside : ∀ l ∈ Db.revisionLocationsInRange inodeId revisionId offset
          (offset + length : ℕ) w.files.db,
          0 ≤ l.fileOffset ∧ 0 ≤ l.size ∧ l.fileOffset + l.size ≤ file.length := by
        intro l hl
        obtain ⟨r, hr, hoffset, hsize⟩ := mem_locateAll (hall l hl)
        rw [hoffset, hsize]
        exact htiles.inside r hr
      have hwindows : windows offset (offset + length) (Db.revisionLocationsInRange inodeId
          revisionId offset (offset + length : ℕ) w.files.db) =
            refWindows offset (offset + length) (locatedRefs inodeId revisionId w.files.db) := by
        rw [Db.revisionLocationsInRange, windows_filter, Db.locateAll, windows_locate]
        rfl
      have hoffset : offset ≤ file.length := by
        rw [List.isEmpty_iff] at hsome
        obtain ⟨l, hl⟩ := List.exists_mem_of_ne_nil _ hsome
        have hin := hinside l hl
        have hrange := (List.mem_filter.mp hl).2
        rw [Bool.and_eq_true, decide_eq_true_eq, decide_eq_true_eq] at hrange
        omega
      have hfits := (fits_locatedRefs htiles hoffset length).mono (min_le_left _ _)
      rw [← hwindows] at hfits
      have hpieces := emitChunks_pieces hserves rfl _ hall hinside hfits (Nat.zero_add _).le
        (hserves.start vaultKey w₁ hkey) [] h
      rw [hpieces, hwindows, List.nil_append]

/-- Every chunk with a part in the range is located. -/
def AllLocated (inodeId revisionId : ℤ) (offset endOffset : ℕ) (db : FileDb) : Prop :=
  ∀ r ∈ Db.revisionRefs inodeId revisionId db, Overlaps offset endOffset r → isLocated db r = true

/-- Every chunk with a part in the range that comes before a located one is located. -/
def NoGap (inodeId revisionId : ℤ) (offset endOffset : ℕ) (db : FileDb) : Prop :=
  ∀ r ∈ Db.revisionRefs inodeId revisionId db, ∀ s ∈ Db.revisionRefs inodeId revisionId db,
    Overlaps offset endOffset r → Overlaps offset endOffset s → r.fileOffset < s.fileOffset →
      isLocated db s = true → isLocated db r = true

/-- The pieces are not empty and follow one another without a gap. -/
def ContiguousFrom : ℕ → List EmittedPiece → Prop
  | _, [] => True
  | position, piece :: rest => piece.offset = position ∧ piece.bytes ≠ [] ∧
    ContiguousFrom (position + piece.bytes.length) rest

theorem bytesOf_pieceAt (es : List Extent) : bytesOf (es.map (pieceAt file)) = cut file es := by
  rw [bytesOf, List.flatMap_map]
  rfl

theorem contiguousFrom_iff {a b : ℕ} {es : List Extent} (h : Fits a b es) (hb : b ≤ file.length)
    (position : ℕ) :
    ContiguousFrom position (es.map (pieceAt file)) ↔ Extents.Joined position es := by
  induction es generalizing a position with
  | nil => exact Iff.rfl
  | cons e rest ih =>
    obtain ⟨-, hlt, hrest⟩ := h
    have hle := hrest.le
    have hlength : (slice e.start e.stop file).length = e.stop - e.start := by
      rw [length_slice]
      omega
    have hne : slice e.start e.stop file ≠ [] := by
      rw [← List.length_pos_iff, hlength]
      omega
    rw [List.map_cons, ContiguousFrom, Extents.Joined]
    simp only [pieceAt]
    rw [hlength]
    constructor
    · rintro ⟨rfl, -, hjoined⟩
      rw [show e.start + (e.stop - e.start) = e.stop by omega] at hjoined
      exact ⟨rfl, (ih hrest e.stop).mp hjoined⟩
    · rintro ⟨rfl, hjoined⟩
      rw [show e.start + (e.stop - e.start) = e.stop by omega]
      exact ⟨rfl, hne, (ih hrest e.stop).mpr hjoined⟩

/-- Behind the end of the file there are no parts. -/
theorem not_overlaps {db : FileDb} {endOffset : ℕ}
    (htiles : Tiles (Db.revisionRefs inodeId revisionId db) file.length)
    (hbehind : file.length ≤ offset) {r : ChunkRefRecord}
    (hr : r ∈ Db.revisionRefs inodeId revisionId db) : ¬ Overlaps offset endOffset r := by
  have hinside := htiles.inside r hr
  simp only [Overlaps, window]
  omega

theorem refWindows_locatedRefs_eq_nil {db : FileDb} {endOffset : ℕ}
    (htiles : Tiles (Db.revisionRefs inodeId revisionId db) file.length)
    (hbehind : file.length ≤ offset) :
    refWindows offset endOffset (locatedRefs inodeId revisionId db) = [] := by
  rw [refWindows, List.filter_eq_nil_iff]
  intro e he
  obtain ⟨r, hr, rfl⟩ := List.mem_map.mp he
  rw [decide_eq_true_eq]
  exact not_overlaps htiles hbehind (mem_locatedRefs.mp hr).1

/-- The parts of the located chunks are the whole range if and only if every chunk is located. -/
theorem cut_eq_iff_allLocated {db : FileDb}
    (htiles : Tiles (Db.revisionRefs inodeId revisionId db) file.length) :
    cut file (refWindows offset (offset + length) (locatedRefs inodeId revisionId db)) =
        slice offset (min (offset + length) file.length) file ↔
      AllLocated inodeId revisionId offset (offset + length) db := by
  by_cases hbehind : file.length ≤ offset
  · rw [refWindows_locatedRefs_eq_nil htiles hbehind]
    refine ⟨fun _ r hr hoverlaps => absurd hoverlaps (not_overlaps htiles hbehind hr), fun _ => ?_⟩
    rw [slice, List.drop_eq_nil_of_le (by rw [List.length_take]; omega)]
    rfl
  · rw [(fits_locatedRefs htiles (by omega) length).cut_eq_iff (min_le_right _ _)]
    constructor
    · intro hall r hr hoverlaps
      have hinside := htiles.inside r hr
      simp only [Overlaps, window] at hoverlaps
      have hcovered := hall (max offset r.fileOffset.toNat) (le_max_left _ _) (by omega)
      exact (covers_locatedRefs htiles hr (le_max_left _ _) (by omega) (by omega)).mp hcovered
    · intro hall x hlow hhigh
      obtain ⟨r, hr, hx⟩ := htiles.covers x (by omega)
      have hinside := htiles.inside r hr
      have hoverlaps : Overlaps offset (offset + length) r := by
        simp only [Overlaps, window]
        omega
      exact (covers_locatedRefs htiles hr hlow (by omega) hx).mpr (hall r hr hoverlaps)

/-- They are joined if and only if no chunk is missing before one of them. -/
theorem joined_iff_noGap {db : FileDb}
    (htiles : Tiles (Db.revisionRefs inodeId revisionId db) file.length)
    (hoffset : offset ≤ file.length) :
    Extents.Joined offset (refWindows offset (offset + length) (locatedRefs inodeId revisionId db)) ↔
      NoGap inodeId revisionId offset (offset + length) db := by
  rw [(fits_locatedRefs htiles hoffset length).joined_iff]
  constructor
  · intro hall r hr s hs hr' hs' hlt hlocated
    have hinside := htiles.inside r hr
    have hinside' := htiles.inside s hs
    have hmem : window offset (offset + length) s.fileOffset s.size ∈
        refWindows offset (offset + length) (locatedRefs inodeId revisionId db) :=
      List.mem_filter.mpr ⟨List.mem_map_of_mem (mem_locatedRefs.mpr ⟨hs, hlocated⟩),
        decide_eq_true hs'⟩
    have hother : ¬ (r.fileOffset ≤ s.fileOffset ∧ s.fileOffset < r.fileOffset + r.size) := by
      intro hx
      simp only [Overlaps, window] at hs'
      have heq := htiles.unique hr hs hx ⟨le_rfl, by omega⟩
      rw [heq] at hlt
      exact lt_irrefl _ hlt
    simp only [Overlaps, window] at hr' hs'
    have hcovered := hall _ hmem (max offset r.fileOffset.toNat) (le_max_left _ _) (by
      simp only [window]
      omega)
    exact (covers_locatedRefs htiles hr (le_max_left _ _) (by omega) (by omega)).mp hcovered
  · intro hgap e he x hlow hhigh
    obtain ⟨hmap, hne⟩ := List.mem_filter.mp he
    obtain ⟨s, hs, rfl⟩ := List.mem_map.mp hmap
    obtain ⟨hs, hlocated⟩ := mem_locatedRefs.mp hs
    have hinside' := htiles.inside s hs
    rw [decide_eq_true_eq] at hne
    have hs' : Overlaps offset (offset + length) s := hne
    have hs'' := hs'
    simp only [Overlaps, window] at hs'' hhigh
    obtain ⟨r, hr, hx⟩ := htiles.covers x (by omega)
    have hinside := htiles.inside r hr
    have hr' : Overlaps offset (offset + length) r := by
      simp only [Overlaps, window]
      omega
    exact (covers_locatedRefs htiles hr hlow (by omega) hx).mpr
      (hgap r hr s hs hr' hs' (by omega) hlocated)

/-- The parts of the located chunks are not longer than the range. -/
theorem take_cut {db : FileDb}
    (htiles : Tiles (Db.revisionRefs inodeId revisionId db) file.length) :
    (cut file (refWindows offset (offset + length) (locatedRefs inodeId revisionId db))).take
        length =
      cut file (refWindows offset (offset + length) (locatedRefs inodeId revisionId db)) := by
  apply List.take_of_length_le
  by_cases hbehind : file.length ≤ offset
  · rw [refWindows_locatedRefs_eq_nil htiles hbehind]
    exact Nat.zero_le _
  · have hfits : Fits offset (min (offset + length) file.length)
        (refWindows offset (offset + length) (locatedRefs inodeId revisionId db)) :=
      fits_locatedRefs htiles (not_le.mp hbehind).le length
    rw [length_cut hfits (min_le_right _ _)]
    have hle := hfits.total_le
    omega

/-- A read of a range that returns has the bytes of the range if and only if every chunk with a
part in the range is located. -/
theorem read_range_exact_iff
    (htiles : Tiles (Db.revisionRefs inodeId revisionId w.files.db) file.length)
    (hserves : Serves C net sources revisionId
      (Db.locateAll w.files.db (Db.revisionRefs inodeId revisionId w.files.db)) file w I)
    (offset length : ℕ) (bytes : Bytes) (w' : ReadWorld P κ)
    (h : (readRange C net sources inodeId revisionId offset length).run w = (.ok bytes, w')) :
    bytes = slice offset (min (offset + length) file.length) file ↔
      AllLocated inodeId revisionId offset (offset + length) w.files.db := by
  rw [readRange_eq_readRangeStreamed] at h
  obtain ⟨pieces, w₁, hstreamed, h⟩ := Prog.run_bind_ok h
  cases h
  rw [readRangeStreamed_pieces htiles hserves hstreamed, bytesOf_pieceAt, take_cut htiles]
  exact cut_eq_iff_allLocated htiles

/-- The two reads fail together, and when they return the pieces of the one are the bytes of the
other. The pieces follow one another if and only if no chunk is missing before a located one. -/
theorem streamed_agrees
    (htiles : Tiles (Db.revisionRefs inodeId revisionId w.files.db) file.length)
    (hserves : Serves C net sources revisionId
      (Db.locateAll w.files.db (Db.revisionRefs inodeId revisionId w.files.db)) file w I)
    (offset length : ℕ) :
    (∀ err,
      ((readRangeStreamed C net sources inodeId revisionId offset length accept).run w).1 =
          .error err ↔
        ((readRange C net sources inodeId revisionId offset length).run w).1 = .error err) ∧
    ∀ pieces w',
      (readRangeStreamed C net sources inodeId revisionId offset length accept).run w =
          (.ok pieces, w') →
        (readRange C net sources inodeId revisionId offset length).run w =
            (.ok (bytesOf pieces), w') ∧
          (ContiguousFrom offset pieces ↔
            NoGap inodeId revisionId offset (offset + length) w.files.db) := by
  rw [readRange_eq_readRangeStreamed]
  constructor
  · intro err
    rcases hrun : (readRangeStreamed C net sources inodeId revisionId offset length accept).run w
      with ⟨outcome, w₁⟩
    cases outcome with
    | error err' =>
      rw [Prog.run_bind_of_error hrun]
      constructor <;> intro h <;> cases h <;> rfl
    | ok pieces =>
      rw [Prog.run_bind_of_ok hrun]
      exact ⟨nofun, nofun⟩
  · intro pieces w' h
    rw [Prog.run_bind_of_ok h]
    have hpieces := readRangeStreamed_pieces htiles hserves h
    have htake : (bytesOf pieces).take length = bytesOf pieces := by
      rw [hpieces, bytesOf_pieceAt, take_cut htiles]
    rw [htake]
    refine ⟨rfl, ?_⟩
    rw [hpieces]
    by_cases hbehind : file.length ≤ offset
    · rw [refWindows_locatedRefs_eq_nil htiles hbehind]
      exact ⟨fun _ r hr _ _ hoverlaps => absurd hoverlaps (not_overlaps htiles hbehind hr),
        fun _ => trivial⟩
    · have hoffset := (not_le.mp hbehind).le
      rw [contiguousFrom_iff (fits_locatedRefs htiles hoffset length) (min_le_right _ _)]
      exact joined_iff_noGap htiles hoffset

end Reads

/-! ## A chunk without a location -/

/-- The bytes of a file of three chunks. -/
def threeBytes : Bytes := [1, 2, 3]

def threeRef (i : ℕ) : ChunkRefRecord where
  id := i
  revisionId := 1
  chunkId := [UInt8.ofNat i]
  fileOffset := i
  size := 1

/-- A file of three chunks, some of which have a location. -/
def threeChunks (located : List ℕ) : ReadWorld symbolic Unit where
  files :=
    { vault := openVault
      db :=
        { fileRevisions :=
            [{ revisionId := 1
               inodeId := 1
               createdAt := 0
               size := 3
               isCurrent := true
               immutableUntil := none
               deviceId := none
               parentRevisionId := none
               origin := "LOCAL"
               conflictReason := none }]
          chunkRefs := [threeRef 0, threeRef 1, threeRef 2]
          packLocations := located.map fun i : ℕ =>
            { chunkId := [UInt8.ofNat i], packId := "pack", packOffset := 0, encryptedSize := 97 } } }
  cache := ()

/-- All chunks of the file are in the cache. -/
def threeCached : ChunkSources symbolic Unit where
  getChunk _ index := pure (some (slice index.toNat (index.toNat + 1) threeBytes))
  putChunk _ _ _ := pure ()
  fetchChunk _ := pure none

theorem tiles_threeChunks (located : List ℕ) :
    Tiles (Db.revisionRefs 1 1 (threeChunks located).files.db) threeBytes.length where
  inside := by
    change ∀ r ∈ [threeRef 0, threeRef 1, threeRef 2], _
    decide
  covers := by
    change ∀ x : ℕ, x < 3 → ∃ r ∈ [threeRef 0, threeRef 1, threeRef 2], _
    decide
  apart := by
    have hapart : ∀ i j, i < j → Apart (threeRef i) (threeRef j) := by
      intro i j hij x hx
      simp only [threeRef] at hx
      omega
    change [threeRef 0, threeRef 1, threeRef 2].Pairwise Apart
    simp [hapart]

/-- The cache serves the file: a chunk is the byte at its number. -/
theorem serves_threeChunks (located : List ℕ) :
    Serves symbolicChunks offline threeCached 1
      (Db.locateAll (threeChunks located).files.db
        (Db.revisionRefs 1 1 (threeChunks located).files.db))
      threeBytes (threeChunks located) fun _ _ _ => True where
  start _ _ _ := trivial
  load chunk hchunk key downloaded w₁ plaintext downloaded' w₂ _ h := by
    have hnumber : ∃ i : ℕ, chunk.chunkIndex = i ∧ chunk.fileOffset = i ∧ chunk.size = 1 := by
      obtain ⟨⟨r, n⟩, hr, hlocate⟩ := List.mem_filterMap.mp hchunk
      rw [Db.locate, Option.map_eq_some_iff] at hlocate
      obtain ⟨pl, -, rfl⟩ := hlocate
      change (r, n) ∈ [threeRef 0, threeRef 1, threeRef 2].zipIdx at hr
      simp only [List.zipIdx_cons, List.zipIdx_nil, List.mem_cons, List.not_mem_nil, or_false,
        Prod.mk.injEq] at hr
      rcases hr with ⟨rfl, rfl⟩ | ⟨rfl, rfl⟩ | ⟨rfl, rfl⟩ <;> exact ⟨_, rfl, rfl, rfl⟩
    obtain ⟨i, hindex, hoffset, hsize⟩ := hnumber
    cases h
    rw [hindex, hoffset, hsize]
    exact ⟨rfl, trivial⟩

/-- Without a location for the second chunk, a read of the whole file leaves it out. -/
theorem read_range_not_exact :
    ¬ ∀ (sources : ChunkSources symbolic Unit) (inodeId revisionId : ℤ) (offset length : ℕ)
      (file bytes : Bytes) (w w' : ReadWorld symbolic Unit)
      (I : symbolic.Key → DownloadedPacks → ReadWorld symbolic Unit → Prop),
      Tiles (Db.revisionRefs inodeId revisionId w.files.db) file.length →
      Serves symbolicChunks offline sources revisionId
        (Db.locateAll w.files.db (Db.revisionRefs inodeId revisionId w.files.db)) file w I →
      (readRange symbolicChunks offline sources inodeId revisionId offset length).run w =
        (.ok bytes, w') →
      bytes = slice offset (min (offset + length) file.length) file := by
  intro h
  have hread : ([1, 3] : Bytes) = threeBytes := h threeCached 1 1 0 3 threeBytes [1, 3]
    (threeChunks [0, 2]) (threeChunks [0, 2]) _ (tiles_threeChunks _) (serves_threeChunks _) rfl
  cases hread

/-- With all three locations the read has the whole file. -/
theorem read_range_exact_three :
    (readRange symbolicChunks offline threeCached 1 1 0 3).run (threeChunks [0, 1, 2]) =
        (.ok threeBytes, threeChunks [0, 1, 2]) ∧
      (threeBytes = slice 0 3 threeBytes ↔
        AllLocated 1 1 0 3 (threeChunks [0, 1, 2]).files.db) := by
  have hrun : (readRange symbolicChunks offline threeCached 1 1 0 3).run (threeChunks [0, 1, 2]) =
      (.ok threeBytes, threeChunks [0, 1, 2]) := rfl
  exact ⟨hrun, read_range_exact_iff (tiles_threeChunks _) (serves_threeChunks _) 0 3 _ _ hrun⟩

/-- Without a location for the second chunk, the pieces of a streaming read have a gap. -/
theorem streamed_not_contiguous :
    ¬ ∀ (sources : ChunkSources symbolic Unit) (inodeId revisionId : ℤ) (offset length : ℕ)
      (file : Bytes) (w w' : ReadWorld symbolic Unit) (pieces : List EmittedPiece)
      (I : symbolic.Key → DownloadedPacks → ReadWorld symbolic Unit → Prop),
      Tiles (Db.revisionRefs inodeId revisionId w.files.db) file.length →
      Serves symbolicChunks offline sources revisionId
        (Db.locateAll w.files.db (Db.revisionRefs inodeId revisionId w.files.db)) file w I →
      (readRangeStreamed symbolicChunks offline sources inodeId revisionId offset length
        accept).run w = (.ok pieces, w') →
      ContiguousFrom offset pieces := by
  intro h
  have hpieces : ContiguousFrom 0 [⟨0, [1]⟩, ⟨2, [3]⟩] := h threeCached 1 1 0 3 threeBytes
    (threeChunks [0, 2]) (threeChunks [0, 2]) _ _ (tiles_threeChunks _) (serves_threeChunks _) rfl
  obtain ⟨-, -, hgap, -⟩ := hpieces
  cases hgap

/-- With all three locations the two reads agree. -/
theorem streamed_agrees_three :
    (readRangeStreamed symbolicChunks offline threeCached 1 1 0 3 accept).run
        (threeChunks [0, 1, 2]) =
        (.ok [⟨0, [1]⟩, ⟨1, [2]⟩, ⟨2, [3]⟩], threeChunks [0, 1, 2]) ∧
      (readRange symbolicChunks offline threeCached 1 1 0 3).run (threeChunks [0, 1, 2]) =
        (.ok threeBytes, threeChunks [0, 1, 2]) ∧
      (ContiguousFrom 0 [⟨0, [1]⟩, ⟨1, [2]⟩, ⟨2, [3]⟩] ↔
        NoGap 1 1 0 3 (threeChunks [0, 1, 2]).files.db) := by
  have hrun : (readRangeStreamed symbolicChunks offline threeCached 1 1 0 3 accept).run
      (threeChunks [0, 1, 2]) =
        (.ok [⟨0, [1]⟩, ⟨1, [2]⟩, ⟨2, [3]⟩], threeChunks [0, 1, 2]) := rfl
  exact ⟨hrun, (streamed_agrees (tiles_threeChunks _) (serves_threeChunks _) 0 3).2 _ _ hrun⟩

end Downloader

end OmniDrive
