import OmniDrive.Peers.Trust
import OmniDrive.Storage.AddressedWorkers
import OmniDrive.Storage.LegacyPacks

/-!
# Reads of addressed storage

What the downloader keeps of a pack is a record of the content that the identifier of the pack
names. So a chunk is read as the content of the pack that it points at says, or not at all.
-/

namespace OmniDrive

open StatementProgram Tables ByteFields NamedStore Packer Downloader Addressed

variable {P : Primitives} {C : ChunkPrimitives P} {origin : Bytes → PackContent}
  {start w : FileWorld P} {packs : List PackRecord} {ε : Type}

/-- The storage is addressed by content, and the rows of `packs` are these. -/
def ReadingPacks (C : ChunkPrimitives P) (origin : Bytes → PackContent) (start : FileWorld P)
    (packs : List PackRecord) (w : FileWorld P) : Prop :=
  Addressed C origin start w ∧ w.db.packs = packs

/-- A source that stands for the file of the pack. -/
def PackContent.SourceOf (C : ChunkPrimitives P) (x : PackContent) (source : RestoredPackSource) :
    Prop :=
  source.localPath = .download (x.packId C) ∨
    x.storageMode = .localOnly ∧ source.localPath = .manifest (x.packId C)

/-- Every source that a call has taken over stands for the file of its pack. -/
def NamedSources (C : ChunkPrimitives P) (downloaded : DownloadedPacks) : Prop :=
  ∀ x : PackContent, x.Valid → ∀ source, downloaded.lookup (x.packId C) = some source →
    x.SourceOf C source

theorem NamedSources.nil : NamedSources C [] := fun _ _ _ hlookup => by cases hlookup

/-- Another source may be taken over. -/
theorem NamedSources.cons (ideal : C.Ideal) {downloaded : DownloadedPacks}
    (h : NamedSources C downloaded) {x : PackContent} (hx : x.Valid) {source : RestoredPackSource}
    (hsource : x.SourceOf C source) : NamedSources C ((x.packId C, source) :: downloaded) := by
  intro y hy other hlookup
  rw [List.lookup_cons] at hlookup
  cases hsame : y.packId C == x.packId C with
  | false =>
    rw [hsame] at hlookup
    exact h y hy other hlookup
  | true =>
    rw [hsame] at hlookup
    rw [← Option.some.inj hlookup,
      PackContent.eq_of_packId_eq ideal hy hx (beq_iff_eq.mp hsame)]
    exact hsource

/-- A local pack with a row has its manifest. -/
theorem ReadingPacks.manifest (h : ReadingPacks C origin start packs w) {x : PackContent}
    (hx : x.Valid) {pack : PackRecord} (hpack : pack ∈ packs) (hrow : x.Row C pack)
    (hmode : x.storageMode = .localOnly) : w.spool.manifests (x.packId C) = some x.manifest := by
  rw [← h.2] at hpack
  exact h.1.manifests pack hpack x hx hrow hmode

/-- The file of a pack is a record of its content. -/
theorem PackContent.SourceOf.isRecord (h : ReadingPacks C origin start packs w) {x : PackContent}
    (hx : x.Valid) {pack : PackRecord} (hpack : pack ∈ packs) (hrow : x.Row C pack)
    {source : RestoredPackSource} (hsource : x.SourceOf C source) {bytes : Bytes}
    (hfile : spoolFile source.localPath w = some bytes) : x.IsRecord bytes := by
  rcases hsource with hpath | ⟨hlocal, hpath⟩
  · rw [hpath] at hfile
    exact h.1.downloads _ _ hfile x hx rfl
  · rw [hpath] at hfile
    have hmanifest := h.manifest hx hpack hrow hlocal
    rw [show bytes = x.manifest from Option.some.inj (hfile.symm.trans hmanifest)]
    exact x.isRecord_manifest

/-! ## Keys -/

/-- A pack without a DEK may be bound to one. -/
theorem readingPacks_setPackDek (packId : String) (dekId : ℤ) :
    (Db.setPackDek packId dekId : FileProg P ε Unit).Keeps
      (ReadingPacks C origin start packs) := by
  apply Prog.Keeps.exec
  intro w hw
  have hkept : KeptFrom start (w.withDb (Db.bindPackDek packId dekId w.db)) :=
    ⟨hw.1.kept.vault, hw.1.kept.chunkRefs, hw.1.kept.fileRevisions, fun other dekId' hbound =>
      Db.packDekId_bindPackDek_of_some (hw.1.kept.bindings other dekId' hbound),
      hw.1.kept.located⟩
  exact ⟨hw.1.congr hkept rfl rfl rfl rfl rfl rfl, hw.2⟩

/-- The look-up of a key binds packs that have no DEK. -/
theorem readingPacks_packDek (packId : String) :
    (packDek packId : FileProg P ε _).Keeps (ReadingPacks C origin start packs) := by
  have hdek : (VaultKeyStore.dekForPack packId : FileProg P VaultError P.Key).Keeps
      (ReadingPacks C origin start packs) := by
    apply (Prog.Keeps.query _).bind
    intro dekId
    split
    · apply (fixes_onVault_id (Prog.Fixes.query _)).keeps.bind
      intro record
      apply (Prog.Keeps.ofOption _ _).bind
      intro record
      exact (fixes_onVault_id (fixes_unwrapDekBytes _)).keeps
    · apply (Prog.Keeps.query _).bind
      intro inodeId
      apply (Prog.Keeps.ofOption _ _).bind
      intro inodeId
      apply (fixes_onVault_id (Prog.Fixes.query _)).keeps.bind
      intro record
      apply (Prog.Keeps.ofOption _ _).bind
      intro record
      apply (fixes_onVault_id (fixes_unwrapDekBytes _)).keeps.bind
      intro dek
      exact (readingPacks_setPackDek packId record.dekId).bind fun _ => trivial
  apply hdek.attempt.bind
  intro outcome
  split <;> trivial

/-! ## Downloads -/

section Download

variable {x : PackContent} {pack : PackRecord} {net : Network}

/-- The objects of the shards of a pack are its files. -/
theorem candidates_of_rows (hw : Addressed C origin start w) (hx : x.Valid)
    {shards : List PackShardRecord} (hrows : RowsOf C x shards) :
    ∀ s ∈ candidates net shards, ∃ i : ℕ, s.shardIndex = i ∧ i < (x.shardFiles C).length ∧
      ∀ b, w.objects s.provider s.objectKey = some b → (x.shardFiles C)[i]? = some b := by
  intro s hs
  rw [candidates, mem_orderBy, List.mem_filter] at hs
  obtain ⟨i, hrow⟩ := hrows.row s hs.1
  refine ⟨i, hrow.index, hrow.lt, fun b hb => ?_⟩
  have hrule := hw.objects _ _ b hb x hx
  rw [hrow.names, hrow.packId, hrow.index, Int.toNat_natCast] at hrule
  exact hrule rfl

/-- The ciphertext comes back from enough of the shards. -/
theorem PackContent.ciphertextOf_slots (ideal : C.Ideal) (hpack : x.Row C pack)
    (hremote : x.storageMode ≠ .localOnly) {slots : List (Option Bytes)}
    (hslots : SlotsHold (x.shardFiles C) slots)
    (henough : requiredShards x.storageMode ≤ slots.countP Option.isSome) :
    ciphertextOf C pack slots = .ok x.ciphertext := by
  rw [ciphertextOf, hpack.storageMode]
  cases hmode : x.storageMode with
  | ec21 =>
    rw [hmode] at henough
    rw [PackContent.shardFiles_ec21 hmode] at hslots
    have hlen : x.shardSize C = shardLen x.ciphertext := by
      simp [PackContent.shardSize, PackContent.shardFiles_ec21 hmode, splitCiphertextIntoShards]
    exact reconstructCiphertext_of_two ideal (hpack.shardSize.trans hlen) hpack.cipherSize hslots
      henough
  | singleReplica =>
    rw [hmode] at henough
    rw [PackContent.shardFiles_singleReplica hmode] at hslots
    obtain _ | ⟨hslot, hrest⟩ := hslots
    cases hrest
    rcases hslot with hnone | hsome
    · rw [hnone] at henough
      cases henough
    · rw [hsome]
      rfl
  | localOnly => exact absurd hmode hremote

/-- The downloader rebuilds a record from the row of the pack and the ciphertext. -/
theorem PackContent.buildManifestBytes (hpack : x.Row C pack) : ∃ bytes,
    Downloader.buildManifestBytes pack x.ciphertext = .ok bytes ∧ x.IsRecord bytes := by
  have hversion : UInt8.ofNat (x.version.toNat : ℤ).toNat = x.version := by
    rw [Int.toNat_natCast, UInt8.ofNat_toNat]
  rw [Downloader.buildManifestBytes, vecToChunkId, vecToNonce, vecToGcmTag, hpack.chunkId,
    hpack.nonce, hpack.gcmTag, hpack.logicalSize, hpack.encryptionVersion]
  simp only [fixedField_bytes, toUsize_natCast, Prog.except_ok_bind]
  rw [if_pos ⟨Int.natCast_nonneg _, by exact_mod_cast x.version.toNat_lt⟩, hversion]
  exact ⟨_, rfl, _, rfl, rfl, rfl, rfl, rfl, rfl⟩

theorem length_shardFiles_slots (hremote : x.storageMode ≠ .localOnly) :
    (x.shardFiles C).length = shardSlots x.storageMode := by
  cases hmode : x.storageMode with
  | ec21 => exact PackContent.length_shardFiles_ec21 hmode
  | singleReplica =>
    rw [PackContent.shardFiles_singleReplica hmode]
    rfl
  | localOnly => exact absurd hmode hremote

/-- A remote pack is downloaded as a record of its content. -/
theorem ensures_downloadRemotePack (ideal : C.Ideal) (hx : x.Valid) (hpack : x.Row C pack)
    (hremote : x.storageMode ≠ .localOnly) (hw : ReadingPacks C origin start packs w) :
    (downloadRemotePack C net pack).Ensures (ReadingPacks C origin start packs)
      (fun source t => ReadingPacks C origin start packs t ∧ x.SourceOf C source) w := by
  have hrows := RepairWorker.rowsOf_pack hx hpack hw.1
  refine Prog.Ensures.query_bind hw ?_
  split
  · trivial
  split
  · trivial
  have hslots : SlotsHold (x.shardFiles C)
      ({ slots := List.replicate (shardSlots pack.storageMode) none } : FetchedShards).slots := by
    rw [hpack.storageMode, ← length_shardFiles_slots (C := C) hremote]
    exact slotsHold_replicate _
  obtain ⟨fetched, hrun, hhold, -, -⟩ := run_fetchShards net (requiredShards pack.storageMode)
    (candidates_of_rows hw.1 hx hrows) hslots
  apply (fixes_fetchShards net _ _ _).bind_ensures hw hrun
  split
  · trivial
  rename_i henough
  rw [hpack.storageMode] at henough
  obtain ⟨bytes, hbuild, hrecord⟩ := PackContent.buildManifestBytes hpack
  rw [PackContent.ciphertextOf_slots ideal hpack hremote hhold (Nat.not_lt.mp henough),
    Prog.ofExcept_ok, Prog.ret_bind, hbuild, Prog.ofExcept_ok, Prog.ret_bind, hpack.packId]
  have hwrite : (writeDownload (x.packId C) bytes : FileProg P DownloaderError Unit).Keeps
      (ReadingPacks C origin start packs) := by
    apply (Addressed.keeps_writeDownload (recordRule_of_isRecord ideal hx hrecord)).and
    apply Prog.Keeps.exec
    exact fun _ hpacks => hpacks
  apply hwrite.bind_ensures hw
  exact fun _ t ht => ⟨ht, .inl rfl⟩

/-- A pack is found or downloaded under its name. -/
theorem ensures_downloadPack (ideal : C.Ideal) (hx : x.Valid)
    (hw : ReadingPacks C origin start packs w) :
    (downloadPack C net (x.packId C)).Ensures (ReadingPacks C origin start packs)
      (fun source t => ReadingPacks C origin start packs t ∧ x.SourceOf C source) w := by
  refine Prog.Ensures.query_bind hw ?_
  apply Prog.Ensures.ofOption_bind
  intro pack hfound
  obtain ⟨x', hx', hpack⟩ := hw.1.packs pack (List.mem_of_find?_eq_some hfound)
  have hid : pack.packId = x.packId C := by
    have hkey := List.find?_some hfound
    simpa using hkey
  obtain rfl := PackContent.eq_of_packId_eq ideal hx' hx (hpack.packId.symm.trans hid)
  split
  · rename_i hlocal
    rw [hpack.storageMode] at hlocal
    refine Prog.Ensures.query_bind hw ?_
    split
    · trivial
    · exact ⟨hw, .inr ⟨hlocal, rfl⟩⟩
  · rename_i hremote
    rw [hpack.storageMode] at hremote
    refine Prog.Ensures.query_bind hw ?_
    split
    · exact ⟨hw, .inl rfl⟩
    · exact ensures_downloadRemotePack ideal hx hpack hremote hw

theorem ensures_packSource (ideal : C.Ideal) (hx : x.Valid) {downloaded : DownloadedPacks}
    (hsources : NamedSources C downloaded) (hw : ReadingPacks C origin start packs w) :
    (packSource C net downloaded (x.packId C)).Ensures (ReadingPacks C origin start packs)
      (fun r t => ReadingPacks C origin start packs t ∧ x.SourceOf C r.1 ∧
        NamedSources C r.2) w := by
  rw [packSource]
  cases hlookup : downloaded.lookup (x.packId C) with
  | some existing => exact ⟨hw, hsources x hx existing hlookup, hsources⟩
  | none =>
    apply (ensures_downloadPack ideal hx hw).bind
    intro source t ht
    exact ⟨ht.1, ht.2, hsources.cons ideal hx ht.2⟩

/-- A chunk is read as the content of its pack says, or not at all. -/
theorem ensures_readChunk (ideal : C.Ideal) (hx : x.Valid) (hmem : pack ∈ packs)
    (hrow : x.Row C pack) {chunk : FileChunkLocation} (hpoints : x.Points C chunk)
    (vaultKey : P.Key) {downloaded : DownloadedPacks} (hsources : NamedSources C downloaded)
    (hw : ReadingPacks C origin start packs w) :
    (readChunk C net vaultKey downloaded chunk).Ensures (ReadingPacks C origin start packs)
      (fun r t => ReadingPacks C origin start packs t ∧ NamedSources C r.2 ∧
        ∃ dek, x.read C chunk.size vaultKey dek = .ok r.1) w := by
  rw [readChunk, hpoints.packId]
  apply (ensures_packSource ideal hx hsources hw).bind
  intro found t ht
  obtain ⟨source, downloaded'⟩ := found
  obtain ⟨hreading, hsource, hsources'⟩ := ht
  dsimp only
  rw [readSpoolFile, Prog.bind_assoc]
  refine Prog.Ensures.query_bind hreading ?_
  apply Prog.Ensures.ofOption_bind
  intro bytes hfile
  have hrecord := PackContent.SourceOf.isRecord hreading hx hmem hrow hsource hfile
  apply (readingPacks_packDek (x.packId C)).bind_ensures hreading
  intro dek t' ht'
  rw [PackContent.decrypt_of_isRecord hx hrecord hpoints]
  apply Prog.Ensures.ofExcept_bind
  intro plaintext hplaintext
  exact ⟨ht', hsources', dek, hplaintext⟩

end Download

/-! ## Restoring a file -/

/-- The location points at a pack of the content, and the pack has a row. -/
structure Placed (C : ChunkPrimitives P) (packs : List PackRecord) (x : PackContent)
    (chunk : FileChunkLocation) : Prop where
  valid : x.Valid
  row : ∃ pack ∈ packs, x.Row C pack
  points : x.Points C chunk

/-- A chunk is placed in a pack of its content or of a copy. -/
theorem Addressed.placed (h : Addressed C origin start w) {refs : List ChunkRefRecord}
    {chunk : FileChunkLocation} (hchunk : chunk ∈ Db.locateAll w.db refs) :
    ∃ x, Placed C w.db.packs x chunk ∧ (origin chunk.chunkId).CopyOf x := by
  obtain ⟨numbered, -, hlocate⟩ := List.mem_filterMap.mp hchunk
  obtain ⟨l, hfound, rfl⟩ := Option.map_eq_some_iff.mp hlocate
  have hkey : l.chunkId = numbered.1.chunkId := by
    have hsome := List.find?_some hfound
    simpa using hsome
  obtain ⟨hvalid, x, hcopy, hlocated, hrow⟩ := h.locations l (List.mem_of_find?_eq_some hfound)
  rw [hkey] at hcopy hvalid
  exact ⟨x, ⟨hcopy.valid hvalid, hrow, hkey.symm.trans hlocated.chunkId, hlocated.packId,
    hlocated.packOffset, hlocated.encryptedSize⟩, hcopy⟩

/-- The content at a location is one that is read to some plaintext. -/
def Readable (C : ChunkPrimitives P) (packs : List PackRecord) (vaultKey : P.Key)
    (chunk : FileChunkLocation) : Prop :=
  ∀ x : PackContent, Placed C packs x chunk →
    ∃ dek plaintext, x.read C chunk.size vaultKey dek = .ok plaintext

section Restore

variable {net : Network} {vaultKey : P.Key}

/-- A restoration that returns has read every chunk. -/
theorem ensures_restoreChunks (ideal : C.Ideal) {chunks : List FileChunkLocation}
    (hplaced : ∀ chunk ∈ chunks, ∃ x, Placed C packs x chunk) (output : OutputFile)
    {downloaded : DownloadedPacks} (hsources : NamedSources C downloaded)
    (hw : ReadingPacks C origin start packs w) :
    (restoreChunks C net vaultKey output downloaded chunks).Ensures
      (ReadingPacks C origin start packs)
      (fun _ t => ReadingPacks C origin start packs t ∧
        ∀ chunk ∈ chunks, Readable C packs vaultKey chunk) w := by
  induction chunks generalizing output downloaded w with
  | nil => exact ⟨hw, fun _ h => by cases h⟩
  | cons chunk rest ih =>
    obtain ⟨x, hx⟩ := hplaced chunk List.mem_cons_self
    obtain ⟨pack, hmem, hrow⟩ := hx.row
    rw [restoreChunks]
    apply (ensures_readChunk ideal hx.valid hmem hrow hx.points vaultKey hsources hw).bind
    intro r t ht
    obtain ⟨plaintext, downloaded'⟩ := r
    obtain ⟨hreading, hsources', dek, hread⟩ := ht
    dsimp only
    apply Prog.Ensures.ofExcept_bind
    intro output' _
    apply (ih (fun c hc => hplaced c (List.mem_cons_of_mem _ hc)) output' hsources' hreading).mono
      fun _ h => h
    intro _ t' ht'
    refine ⟨ht'.1, List.forall_mem_cons.mpr ⟨fun y hy => ?_, ht'.2⟩⟩
    have hname : y.packId C = x.packId C := hy.points.packId.symm.trans hx.points.packId
    rw [PackContent.eq_of_packId_eq ideal hy.valid hx.valid hname]
    exact ⟨dek, plaintext, hread⟩

/-- So does the restoration of a file. -/
theorem ensures_restoreFile (ideal : C.Ideal)
    (hkey : VaultKeyStore.vaultKeyForV1Read.run start.vault = (.ok vaultKey, start.vault))
    (inodeId : ℤ) (hw : Addressed C origin start w) :
    (restoreFile C net inodeId).Ensures (Addressed C origin start)
      (fun _ t => Addressed C origin start t ∧
        ∀ chunk ∈ Db.locateAll w.db (Db.currentRefs inodeId w.db),
          Readable C w.db.packs vaultKey chunk) w := by
  have hrun : (onVault .vault VaultKeyStore.vaultKeyForV1Read :
      FileProg P DownloaderError P.Key).run w = (.ok vaultKey, w) := by
    rw [run_onVault, hw.kept.vault, hkey, ← hw.kept.vault]
    rfl
  have hreading : ReadingPacks C origin start w.db.packs w := ⟨hw, rfl⟩
  apply (fixes_onVault_id fixes_vaultKeyForV1Read).bind_ensures hw hrun
  refine Prog.Ensures.query_bind hw ?_
  split
  · trivial
  · have hplaced : ∀ chunk ∈ Db.locateAll w.db (Db.currentRefs inodeId w.db),
        ∃ x, Placed C w.db.packs x chunk := by
      intro chunk hchunk
      obtain ⟨x, hx, -⟩ := hw.placed hchunk
      exact ⟨x, hx⟩
    apply ((ensures_restoreChunks ideal hplaced {} NamedSources.nil hreading).mono
      (fun t ht => ht.1) fun _ _ ht => ht).bind
    intro r t ht
    exact ⟨ht.1.1, ht.2⟩

end Restore

end OmniDrive
