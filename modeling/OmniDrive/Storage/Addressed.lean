import OmniDrive.Storage.Contents
import OmniDrive.Storage.Reconcile

/-!
# Storage that is addressed by content

Everything that is stored under the identifier of a pack belongs to the content that the identifier
names, and every chunk is located in a pack of its content or of a copy. The uploader, the
downloader and the repair worker keep this with each of their statements.
-/

namespace OmniDrive

open StatementProgram Tables ByteFields NamedStore Packer Downloader

variable {P : Primitives} {C : ChunkPrimitives P} {origin : Bytes → PackContent}
  {start : FileWorld P} {ε : Type}

/-! ## What names allow -/

/-- The files that the name of a shard allows. -/
def ShardRule (C : ChunkPrimitives P) (packId : String) (index : ℕ) (bytes : Bytes) : Prop :=
  ∀ x : PackContent, x.Valid → x.packId C = packId → (x.shardFiles C)[index]? = some bytes

/-- The files that the name of a downloaded pack allows. -/
def RecordRule (C : ChunkPrimitives P) (packId : String) (bytes : Bytes) : Prop :=
  ∀ x : PackContent, x.Valid → x.packId C = packId → x.IsRecord bytes

/-- A shard has the name of its content. -/
theorem shardRule_of_file (ideal : C.Ideal) {x : PackContent} (hx : x.Valid) {index : ℕ}
    {bytes : Bytes} (h : (x.shardFiles C)[index]? = some bytes) :
    ShardRule C (x.packId C) index bytes := by
  intro y hy hname
  rw [PackContent.eq_of_packId_eq ideal hy hx hname]
  exact h

/-- A record has the name of its content. -/
theorem recordRule_of_isRecord (ideal : C.Ideal) {x : PackContent} (hx : x.Valid) {bytes : Bytes}
    (h : x.IsRecord bytes) : RecordRule C (x.packId C) bytes := by
  intro y hy hname
  rw [PackContent.eq_of_packId_eq ideal hy hx hname]
  exact h

/-- The vault, the files and the bindings of packs are those of the start, and so are the chunks
that are located somewhere. -/
structure KeptFrom (start w : FileWorld P) : Prop where
  vault : w.vault = start.vault
  chunkRefs : w.db.chunkRefs = start.db.chunkRefs
  fileRevisions : w.db.fileRevisions = start.db.fileRevisions
  bindings : ∀ packId dekId, Db.packDekId packId start.db = some dekId →
    Db.packDekId packId w.db = some dekId
  located : w.db.packLocations.map (·.chunkId) = start.db.packLocations.map (·.chunkId)

/-- The contents that chunks were stored with are `origin`; everything that is stored has the name
of its content, and every chunk is located in a pack of its content or of a copy. -/
structure Addressed (C : ChunkPrimitives P) (origin : Bytes → PackContent) (start w : FileWorld P) :
    Prop where
  kept : KeptFrom start w
  packs : ∀ pack ∈ w.db.packs, ∃ x : PackContent, x.Valid ∧ x.Row C pack
  shardKeys : (w.db.packShards.map fun s => (s.packId, s.shardIndex)).Nodup
  shards : ∀ s ∈ w.db.packShards, ∀ x : PackContent, x.Valid → x.packId C = s.packId →
    ∃ i, x.ShardRow C i s
  locations : ∀ l ∈ w.db.packLocations, (origin l.chunkId).Valid ∧
    ∃ y, (origin l.chunkId).CopyOf y ∧ y.LocatedAt C l ∧ ∃ pack ∈ w.db.packs, y.Row C pack
  manifests : ∀ pack ∈ w.db.packs, ∀ x : PackContent, x.Valid → x.Row C pack →
    x.storageMode = .localOnly → w.spool.manifests (x.packId C) = some x.manifest
  spool : AllRight (ShardRule C) w.spool.shards
  objects : AllRight (fun _ (key : ObjectKey) => ShardRule C key.packId key.shardIndex) w.objects
  downloads : Right (RecordRule C) w.downloads

theorem PackContent.CopyOf.valid {x y : PackContent} (h : x.CopyOf y) (hx : x.Valid) :
    y.Valid := by
  rcases h with rfl | ⟨mode, rfl⟩
  · exact hx
  · exact hx.copy mode

/-- What is kept does not depend on the rest. -/
theorem KeptFrom.congr {w w' : FileWorld P} (h : KeptFrom start w) (hvault : w'.vault = w.vault)
    (hrefs : w'.db.chunkRefs = w.db.chunkRefs)
    (hrevisions : w'.db.fileRevisions = w.db.fileRevisions)
    (hdeks : w'.db.packDeks = w.db.packDeks)
    (hlocated : w'.db.packLocations.map (·.chunkId) = w.db.packLocations.map (·.chunkId)) :
    KeptFrom start w' where
  vault := hvault.trans h.vault
  chunkRefs := hrefs.trans h.chunkRefs
  fileRevisions := hrevisions.trans h.fileRevisions
  bindings packId dekId hbound := by
    have hsame : Db.packDekId packId w'.db = Db.packDekId packId w.db := by
      rw [Db.packDekId, Db.packDekId, hdeks]
    rw [hsame]
    exact h.bindings packId dekId hbound
  located := hlocated.trans h.located

namespace Addressed

variable {w : FileWorld P}

/-! ## Statements -/

section Statements

/-- What is not about packs does not matter. -/
theorem congr (h : Addressed C origin start w) {w' : FileWorld P} (hkept : KeptFrom start w')
    (hpacks : w'.db.packs = w.db.packs)
    (hshards : w'.db.packShards = w.db.packShards)
    (hlocations : w'.db.packLocations = w.db.packLocations) (hspool : w'.spool = w.spool)
    (hobjects : w'.objects = w.objects) (hdownloads : w'.downloads = w.downloads) :
    Addressed C origin start w' := by
  constructor
  · exact hkept
  · rw [hpacks]
    exact h.packs
  · rw [hshards]
    exact h.shardKeys
  · rw [hshards]
    exact h.shards
  · rw [hlocations, hpacks]
    exact h.locations
  · rw [hpacks, hspool]
    exact h.manifests
  · rw [hspool]
    exact h.spool
  · rw [hobjects]
    exact h.objects
  · rw [hdownloads]
    exact h.downloads

/-- An update of shards that leaves what they are made from. -/
theorem keeps_updateShards (p : PackShardRecord → Bool)
    {f : PackShardRecord → PackShardRecord} (hf : ∀ s, (f s).core = s.core) :
    (writeFiles (fun db => { db with packShards := updateWhere p f db.packShards }) :
      FileProg P ε Unit).Keeps (Addressed C origin start) := by
  apply Prog.Keeps.exec
  intro w h
  refine ⟨h.kept.congr rfl rfl rfl rfl rfl, h.packs, ?_, fun s hs x hx hname => ?_, h.locations,
    h.manifests, h.spool, h.objects, h.downloads⟩
  · have hkeys : ∀ s, ((f s).packId, (f s).shardIndex) = (s.packId, s.shardIndex) := by
      intro s
      show ((f s).core.packId, (f s).core.shardIndex) = (s.core.packId, s.core.shardIndex)
      rw [hf s]
    have hsame : (updateWhere p f w.db.packShards).map (fun s => (s.packId, s.shardIndex)) =
        w.db.packShards.map fun s => (s.packId, s.shardIndex) :=
      @map_updateWhere _ _ _ f (fun s => (s.packId, s.shardIndex)) hkeys _
    exact hsame ▸ h.shardKeys
  · obtain ⟨old, hold, rfl⟩ := mem_updateWhere.mp hs
    have hcore : (if p old then f old else old).core = old.core := by
      split
      · exact hf old
      · rfl
    generalize (if p old then f old else old) = new at hcore hname
    have hnew : new.packId = old.packId := congrArg (·.packId) hcore
    obtain ⟨i, hrow⟩ := h.shards old hold x hx (hname.trans hnew)
    have hindex : new.shardIndex = old.shardIndex := congrArg (·.shardIndex) hcore
    have hkey : new.objectKey = old.objectKey := congrArg (·.objectKey) hcore
    have hchecksum : new.checksum = old.checksum := congrArg (·.checksum) hcore
    obtain ⟨bytes, hfile, hsum⟩ := hrow.file
    refine ⟨i, hnew.trans hrow.packId, hindex.trans hrow.index, ?_, bytes, hfile,
      hchecksum.trans hsum⟩
    rw [NamesObject, hkey, hnew, hindex]
    exact hrow.names

theorem keeps_updateShard (packId : String) (shardIndex : ℤ)
    {f : PackShardRecord → PackShardRecord} (hf : ∀ s, (f s).core = s.core) :
    (writeFiles (Db.updateShard packId shardIndex f) : FileProg P ε Unit).Keeps
      (Addressed C origin start) :=
  keeps_updateShards _ hf

/-- The status of a pack is not what it is made from. -/
theorem keeps_updatePackStatus (packId : String) (status : PackStatus) :
    (Db.updatePackStatus packId status : FileProg P ε Unit).Keeps (Addressed C origin start) := by
  apply Prog.Keeps.exec
  intro w h
  have hrow : ∀ (x : PackContent) pack, x.Row C (if pack.packId = packId then { pack with status }
      else pack) ↔ x.Row C pack := by
    intro x pack
    split
    · exact ⟨fun h => ⟨h.1, h.2, h.3, h.4, h.5, h.6, h.7, h.8, h.9⟩,
        fun h => ⟨h.1, h.2, h.3, h.4, h.5, h.6, h.7, h.8, h.9⟩⟩
    · exact Iff.rfl
  refine ⟨h.kept.congr rfl rfl rfl rfl rfl, fun pack hpack => ?_, h.shardKeys, h.shards,
    fun l hl => ?_, fun pack hpack x hx hrow' => ?_, h.spool, h.objects, h.downloads⟩
  · obtain ⟨old, hold, rfl⟩ := List.mem_map.mp hpack
    obtain ⟨x, hx, hxrow⟩ := h.packs old hold
    exact ⟨x, hx, by simpa using (hrow x old).mpr hxrow⟩
  · obtain ⟨hvalid, y, hcopy, hlocated, pack, hpack, hyrow⟩ := h.locations l hl
    exact ⟨hvalid, y, hcopy, hlocated, _, List.mem_map_of_mem hpack,
      by simpa using (hrow y pack).mpr hyrow⟩
  · obtain ⟨old, hold, rfl⟩ := List.mem_map.mp hpack
    exact h.manifests old hold x hx ((hrow x old).mp (by simpa using hrow'))

/-- A row of a content may be added to `packs`, a local one once its manifest is there. -/
theorem putPack (h : Addressed C origin start w) {x : PackContent} (hx : x.Valid)
    {pack : PackRecord} (hrow : x.Row C pack) (ideal : C.Ideal)
    (hlocal : x.storageMode = .localOnly → w.spool.manifests (x.packId C) = some x.manifest) :
    Addressed C origin start (w.withDb (Db.putPack pack w.db)) := by
  have hmem : ∀ {p}, p ∈ (Db.putPack pack w.db).packs → p ∈ w.db.packs ∨ p = pack := by
    intro p hp
    rcases mem_of_mem_upsert hp with hold | hnew | ⟨_, -, -, hnew⟩
    · exact .inl hold
    · exact .inr hnew
    · exact .inr hnew
  refine ⟨h.kept.congr rfl rfl rfl rfl rfl, fun p hp => ?_, h.shardKeys, h.shards,
    fun l hl => ?_, fun p hp y hy hyrow hmode => ?_, h.spool, h.objects, h.downloads⟩
  · rcases hmem hp with hold | rfl
    · exact h.packs p hold
    · exact ⟨x, hx, hrow⟩
  · obtain ⟨hvalid, y, hcopy, hlocated, p, hp, hyrow⟩ := h.locations l hl
    refine ⟨hvalid, y, hcopy, hlocated, ?_⟩
    by_cases hsame : p.packId = pack.packId
    · have hname : y.packId C = x.packId C := by rw [← hyrow.packId, hsame, hrow.packId]
      rw [PackContent.eq_of_packId_eq ideal (hcopy.valid hvalid) hx hname]
      exact ⟨pack, mem_upsert_self _ _ _, hrow⟩
    · exact ⟨p, mem_upsert_of_ne hp hsame, hyrow⟩
  · rcases hmem hp with hold | rfl
    · exact h.manifests p hold y hy hyrow hmode
    · have hname : y.packId C = x.packId C := by rw [← hyrow.packId, hrow.packId]
      obtain rfl := PackContent.eq_of_packId_eq ideal hy hx hname
      exact hlocal hmode

/-- A row of a shard may be added to `pack_shards`. -/
theorem putShard (h : Addressed C origin start w) {x : PackContent} (hx : x.Valid)
    {shard : PackShardRecord} {i : ℕ} (hrow : x.ShardRow C i shard) (ideal : C.Ideal) :
    Addressed C origin start (w.withDb (Db.putShard shard w.db)) := by
  refine ⟨h.kept.congr rfl rfl rfl rfl rfl, h.packs, nodup_upsert h.shardKeys fun _ _ _ => rfl,
    fun s hs y hy hname => ?_, h.locations, h.manifests, h.spool, h.objects, h.downloads⟩
  have hnew : y.packId C = x.packId C → ∀ attempts,
      ∃ i, y.ShardRow C i { shard with attempts } := by
    intro hsame attempts
    rw [PackContent.eq_of_packId_eq ideal hy hx hsame]
    exact ⟨i, hrow.packId, hrow.index, hrow.names, hrow.file⟩
  rcases mem_of_mem_upsert hs with hold | rfl | ⟨old, -, -, rfl⟩
  · exact h.shards s hold y hy hname
  · exact hnew (hname.trans hrow.packId) s.attempts
  · exact hnew (hname.trans hrow.packId) old.attempts

/-- A chunk may be located in the pack of its content or of a copy. -/
theorem setLocation (h : Addressed C origin start w) {y : PackContent}
    (hvalid : (origin y.chunkId.bytes).Valid) (hcopy : (origin y.chunkId.bytes).CopyOf y)
    (hlocated : y.chunkId.bytes ∈ start.db.packLocations.map (·.chunkId)) {pack : PackRecord}
    (hpack : pack ∈ w.db.packs) (hrow : y.Row C pack) :
    Addressed C origin start (w.withDb
      (Db.setLocation y.chunkId.bytes (y.packId C) 0 y.manifest.length w.db)) := by
  have hkeys : (Db.setLocation y.chunkId.bytes (y.packId C) 0 y.manifest.length
      w.db).packLocations.map (·.chunkId) = w.db.packLocations.map (·.chunkId) := by
    rw [← h.kept.located] at hlocated
    have hupsert := @keys_upsert _ _ _ PackLocation.chunkId
      (fun pl => { pl with
        packId := y.packId C, packOffset := 0, encryptedSize := y.manifest.length })
      { chunkId := y.chunkId.bytes, packId := y.packId C, packOffset := 0,
        encryptedSize := y.manifest.length } w.db.packLocations fun _ _ hkey => hkey
    rwa [if_pos hlocated] at hupsert
  refine ⟨h.kept.congr rfl rfl rfl rfl hkeys, h.packs, h.shardKeys, h.shards, fun l hl => ?_,
    h.manifests, h.spool, h.objects, h.downloads⟩
  rcases mem_of_mem_upsert hl with hold | rfl | ⟨old, -, hkey, rfl⟩
  · exact h.locations l hold
  · exact ⟨hvalid, y, hcopy, ⟨rfl, rfl, rfl, rfl⟩, pack, hpack, hrow⟩
  · dsimp only at hkey ⊢
    rw [hkey]
    exact ⟨hvalid, y, hcopy, ⟨rfl, rfl, rfl, rfl⟩, pack, hpack, hrow⟩

/-- The manifest of a content may be written. -/
theorem keeps_writeManifest (ideal : C.Ideal) {x : PackContent} (hx : x.Valid) :
    (writeManifest (x.packId C) x.manifest : FileProg P ε Unit).Keeps
      (Addressed C origin start) := by
  apply Prog.Keeps.exec
  intro w h
  refine ⟨h.kept.congr rfl rfl rfl rfl rfl, h.packs, h.shardKeys, h.shards, h.locations,
    fun pack hpack y hy hrow hmode => ?_, h.spool, h.objects, h.downloads⟩
  dsimp only
  by_cases hname : y.packId C = x.packId C
  · rw [PackContent.eq_of_packId_eq ideal hy hx hname, Function.update_self]
  · rw [Function.update_of_ne hname]
    exact h.manifests pack hpack y hy hrow hmode

/-- A manifest may go unless it is all there is of a pack. -/
theorem keeps_deleteManifest {packId : String}
    (hremote : ∀ x : PackContent, x.Valid → x.storageMode = .localOnly → x.packId C ≠ packId) :
    (Uploader.deleteManifest packId : FileProg P ε Unit).Keeps (Addressed C origin start) := by
  apply Prog.Keeps.exec
  intro w h
  refine ⟨h.kept.congr rfl rfl rfl rfl rfl, h.packs, h.shardKeys, h.shards, h.locations,
    fun pack hpack y hy hrow hmode => ?_, h.spool, h.objects, h.downloads⟩
  dsimp only
  rw [Function.update_of_ne (hremote y hy hmode)]
  exact h.manifests pack hpack y hy hrow hmode

/-- A shard of a content may be written to the spool. -/
theorem keeps_writeShard {packId : String} {index : ℕ} {bytes : Bytes}
    (hrule : ShardRule C packId index bytes) :
    (writeShard packId index bytes : FileProg P ε Unit).Keeps (Addressed C origin start) := by
  apply Prog.Keeps.exec
  intro w h
  exact ⟨h.kept.congr rfl rfl rfl rfl rfl, h.packs, h.shardKeys, h.shards, h.locations,
    h.manifests, h.spool.set hrule, h.objects, h.downloads⟩

/-- A shard may go from the spool. -/
theorem keeps_deleteShardFile (packId : String) (index : ℕ) :
    (Uploader.deleteShardFile packId index : FileProg P ε Unit).Keeps
      (Addressed C origin start) := by
  apply Prog.Keeps.exec
  intro w h
  exact ⟨h.kept.congr rfl rfl rfl rfl rfl, h.packs, h.shardKeys, h.shards, h.locations,
    h.manifests, h.spool.erase packId index, h.objects, h.downloads⟩

/-- A shard of a content may be stored at a provider. -/
theorem putObject (h : Addressed C origin start w) {provider : String} {key : ObjectKey}
    {bytes : Bytes} (hrule : ShardRule C key.packId key.shardIndex bytes) :
    Addressed C origin start { w with
      objects := Function.update w.objects provider
        (Function.update (w.objects provider) key (some bytes)) } :=
  ⟨h.kept.congr rfl rfl rfl rfl rfl, h.packs, h.shardKeys, h.shards, h.locations, h.manifests,
    h.spool, h.objects.set hrule, h.downloads⟩

/-- A record of a content may be kept as a download. -/
theorem keeps_writeDownload {packId : String} {bytes : Bytes} (hrule : RecordRule C packId bytes) :
    (writeDownload packId bytes : FileProg P ε Unit).Keeps (Addressed C origin start) := by
  apply Prog.Keeps.exec
  intro w h
  exact ⟨h.kept.congr rfl rfl rfl rfl rfl, h.packs, h.shardKeys, h.shards, h.locations,
    h.manifests, h.spool, h.objects, h.downloads.set hrule⟩

end Statements

end Addressed

end OmniDrive
