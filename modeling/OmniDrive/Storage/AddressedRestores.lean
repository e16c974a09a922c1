import OmniDrive.Storage.AddressedReads
import OmniDrive.Storage.AddressedStore

/-!
# Restorations from addressed storage

A chunk is read as soon as its pack can be had and its key opens the content of the pack. So a file
is restored as long as its chunks are where they were packed. A copy in another storage mode is a
record of version 1, which the V1 key of the vault is asked to open, so no file with such a chunk is
restored.
-/

namespace OmniDrive

open StatementProgram Tables ByteFields NamedStore Packer Downloader

variable {P : Primitives} {C : ChunkPrimitives P} {origin : Bytes → PackContent}
  {start w w' : FileWorld P} {packs : List PackRecord} {ε : Type}

/-! ## Reads that return -/

/-- More may have been downloaded since. -/
def MoreDownloads (w w' : FileWorld P) : Prop :=
  ∃ downloads, w' = w.withDownloads downloads ∧
    ∀ packId, (w.downloads packId).isSome = true → (downloads packId).isSome = true

theorem MoreDownloads.refl (w : FileWorld P) : MoreDownloads w w := ⟨w.downloads, rfl, fun _ h => h⟩

theorem MoreDownloads.trans {w'' : FileWorld P} (h : MoreDownloads w w')
    (h' : MoreDownloads w' w'') : MoreDownloads w w'' := by
  obtain ⟨downloads, rfl, hkept⟩ := h
  obtain ⟨downloads', rfl, hkept'⟩ := h'
  exact ⟨downloads', rfl, fun packId hsome => hkept' packId (hkept packId hsome)⟩

theorem moreDownloads_update (w : FileWorld P) (packId : String) (bytes : Bytes) :
    MoreDownloads w (w.withDownloads (Function.update w.downloads packId (some bytes))) := by
  refine ⟨_, rfl, fun other hsome => ?_⟩
  rw [Function.update_apply]
  split
  · rfl
  · exact hsome

/-- What was there stays there. -/
theorem MoreDownloads.spoolFile (h : MoreDownloads w w') {file : SpoolFile}
    (hfile : (spoolFile file w).isSome = true) : (Downloader.spoolFile file w').isSome = true := by
  obtain ⟨downloads, rfl, hkept⟩ := h
  cases file with
  | manifest packId => exact hfile
  | download packId => exact hkept packId hfile

/-- The pack is local, is downloaded already, or has enough available shards. -/
def PackContent.Obtainable (C : ChunkPrimitives P) (net : Network) (w : FileWorld P)
    (x : PackContent) : Prop :=
  x.storageMode = .localOnly ∨ (w.downloads (x.packId C)).isSome = true ∨
    requiredShards x.storageMode ≤ (Db.shardsOf (x.packId C) w.db).countP (Available net w)

theorem PackContent.Obtainable.more {net : Network} {x : PackContent}
    (h : x.Obtainable C net w) (hmore : MoreDownloads w w') : x.Obtainable C net w' := by
  obtain ⟨downloads, rfl, hkept⟩ := hmore
  rcases h with hlocal | hdownloaded | henough
  · exact .inl hlocal
  · exact .inr (.inl (hkept _ hdownloaded))
  · exact .inr (.inr henough)

section Read

variable {x : PackContent} {pack : PackRecord} {net : Network}

/-- As many slots are filled as there are available shards. -/
theorem countP_available_rows {shards : List PackShardRecord} (hrows : RowsOf C x shards)
    {slots : List (Option Bytes)}
    (hfilled : ∀ s ∈ shards, Available net w s = true → Filled slots s.shardIndex.toNat) :
    shards.countP (Available net w) ≤ slots.countP Option.isSome := by
  have hnumbers : ((shards.filter (Available net w)).map fun s => s.shardIndex.toNat).Nodup := by
    have hrows' := hrows.filter (Available net w)
    have hindexes : ((shards.filter (Available net w)).map (·.shardIndex)).Nodup := hrows'.nodup
    rw [List.Nodup, List.pairwise_map] at hindexes ⊢
    refine hindexes.imp_of_mem fun {s t} hs ht hne hsame => hne ?_
    obtain ⟨i, hi⟩ := hrows'.row s hs
    obtain ⟨j, hj⟩ := hrows'.row t ht
    rw [hi.index, hj.index, Int.toNat_natCast, Int.toNat_natCast] at hsame
    rw [hi.index, hj.index, hsame]
  have hfull := Slots.length_le_countP hnumbers (by
    intro i hi
    obtain ⟨s, hs, rfl⟩ := List.mem_map.mp hi
    obtain ⟨hmem, havailable⟩ := List.mem_filter.mp hs
    exact hfilled s hmem havailable)
  rwa [List.length_map, ← List.countP_eq_length_filter] at hfull

/-- A remote pack with enough available shards is downloaded. -/
theorem run_downloadRemotePack_addressed (ideal : C.Ideal) (hx : x.Valid) (hpack : x.Row C pack)
    (hremote : x.storageMode ≠ .localOnly) (hw : Addressed C origin start w)
    (henough : requiredShards x.storageMode ≤
      (Db.shardsOf (x.packId C) w.db).countP (Available net w)) :
    ∃ source bytes, (downloadRemotePack C net pack).run w = (.ok source,
        w.withDownloads (Function.update w.downloads (x.packId C) (some bytes))) ∧
      source.localPath = .download (x.packId C) := by
  have hrows := hw.rowsOf hx
  obtain ⟨hshards, hcandidates⟩ := exists_candidate_of_enough hremote henough
  have hslots : SlotsHold (x.shardFiles C)
      ({ slots := List.replicate (shardSlots x.storageMode) none } : FetchedShards).slots := by
    rw [← length_shardFiles_slots (C := C) hremote]
    exact slotsHold_replicate _
  obtain ⟨fetched, hrun, hhold, -, hreached⟩ := run_fetchShards net (requiredShards x.storageMode)
    (candidates_of_rows hw hx hrows) hslots
  have hcount : requiredShards x.storageMode ≤ fetched.slots.countP Option.isSome := by
    rcases hreached with hdone | hall
    · exact hdone
    · exact Nat.le_trans henough (countP_available_rows hrows fun s hs havailable =>
        hall s (mem_candidates_of_available hs havailable) havailable)
  obtain ⟨bytes, hbuild, -⟩ := PackContent.buildManifestBytes hpack
  refine ⟨{ packId := x.packId C, providers := fetched.downloadedFrom,
            localPath := .download (x.packId C) }, bytes, ?_, rfl⟩
  rw [downloadRemotePack, hpack.packId, Db.getPackShards, run_selectFiles_bind]
  simp only [hshards, hcandidates, hpack.storageMode, Bool.false_eq_true, if_false]
  rw [Prog.run_bind_of_ok hrun, if_neg (Nat.not_lt.mpr hcount),
    PackContent.ciphertextOf_slots ideal hpack hremote hhold hcount, Prog.ofExcept_ok,
    Prog.ret_bind, hbuild, Prog.ofExcept_ok, Prog.ret_bind]
  rfl

/-- The row of a content is found by its identifier. -/
theorem ReadingPacks.packOf (ideal : C.Ideal) (hw : ReadingPacks C origin start packs w)
    (hx : x.Valid) (hmem : pack ∈ packs) (hrow : x.Row C pack) :
    ∃ found, Db.packOf (x.packId C) w.db = some found ∧ x.Row C found := by
  cases hfound : Db.packOf (x.packId C) w.db with
  | none =>
    have hnone := List.find?_eq_none.mp hfound pack (by rw [hw.2]; exact hmem)
    exact absurd (by simpa using hrow.packId) hnone
  | some found =>
    obtain ⟨y, hy, hfoundRow⟩ := hw.1.packs found (List.mem_of_find?_eq_some hfound)
    have hkey := List.find?_some hfound
    rw [decide_eq_true_eq] at hkey
    rw [PackContent.eq_of_packId_eq ideal hx hy (hkey.symm.trans hfoundRow.packId)]
    exact ⟨found, rfl, hfoundRow⟩

/-- A pack that can be obtained is found or downloaded. -/
theorem run_downloadPack_addressed (ideal : C.Ideal) (hx : x.Valid) (hmem : pack ∈ packs)
    (hrow : x.Row C pack) (hw : ReadingPacks C origin start packs w)
    (hobtain : x.Obtainable C net w) : ∃ source t,
      (downloadPack C net (x.packId C)).run w = (.ok source, t) ∧ MoreDownloads w t ∧
        (spoolFile source.localPath t).isSome = true := by
  obtain ⟨found, hfound, hfoundRow⟩ := ReadingPacks.packOf ideal hw hx hmem hrow
  rw [downloadPack, Db.getPack, run_selectFiles_bind, hfound, Prog.ofOption_some, Prog.ret_bind,
    hfoundRow.storageMode]
  by_cases hlocal : x.storageMode = .localOnly
  · have hmanifest := hw.manifest hx hmem hrow hlocal
    rw [if_pos hlocal, Prog.run_query_bind, hmanifest]
    refine ⟨_, w, rfl, MoreDownloads.refl w, ?_⟩
    show (w.spool.manifests (x.packId C)).isSome = true
    rw [hmanifest]
    rfl
  rw [if_neg hlocal, Prog.run_query_bind]
  cases hdownload : w.downloads (x.packId C) with
  | some bytes =>
    refine ⟨_, w, rfl, MoreDownloads.refl w, ?_⟩
    show (w.downloads (x.packId C)).isSome = true
    rw [hdownload]
    rfl
  | none =>
    have henough : requiredShards x.storageMode ≤
        (Db.shardsOf (x.packId C) w.db).countP (Available net w) := by
      rcases hobtain with hmode | hdownloaded | henough
      · exact absurd hmode hlocal
      · rw [hdownload] at hdownloaded
        cases hdownloaded
      · exact henough
    obtain ⟨source, bytes, hrun, hpath⟩ :=
      run_downloadRemotePack_addressed ideal hx hfoundRow hlocal hw.1 henough
    refine ⟨source, _, hrun, moreDownloads_update w _ _, ?_⟩
    rw [hpath]
    show (Function.update w.downloads (x.packId C) (some bytes) (x.packId C)).isSome = true
    rw [Function.update_self]
    rfl

/-- The files of all sources are there. -/
def FilesThere (downloaded : DownloadedPacks) (w : FileWorld P) : Prop :=
  ∀ packId source, downloaded.lookup packId = some source →
    (spoolFile source.localPath w).isSome = true

/-- A call that has read some chunks since it began. -/
structure ReadSoFar (C : ChunkPrimitives P) (origin : Bytes → PackContent) (start : FileWorld P)
    (packs : List PackRecord) (begun : FileWorld P) (downloaded : DownloadedPacks)
    (w : FileWorld P) : Prop where
  reading : ReadingPacks C origin start packs w
  more : MoreDownloads begun w
  sources : NamedSources C downloaded
  files : FilesThere downloaded w

variable {begun : FileWorld P} {downloaded : DownloadedPacks}

/-- The source of a pack that can be obtained is found. -/
theorem run_packSource_addressed (ideal : C.Ideal) (hx : x.Valid) (hmem : pack ∈ packs)
    (hrow : x.Row C pack) (h : ReadSoFar C origin start packs begun downloaded w)
    (hobtain : x.Obtainable C net begun) : ∃ source downloaded' t,
      (packSource C net downloaded (x.packId C)).run w = (.ok (source, downloaded'), t) ∧
        ReadSoFar C origin start packs begun downloaded' t ∧ x.SourceOf C source ∧
        (spoolFile source.localPath t).isSome = true := by
  have hensures : (packSource C net downloaded (x.packId C)).Ensures _ _ w :=
    ensures_packSource ideal hx h.sources h.reading
  rw [packSource] at hensures ⊢
  cases hlookup : downloaded.lookup (x.packId C) with
  | some existing =>
    exact ⟨existing, downloaded, w, rfl, h, h.sources x hx existing hlookup,
      h.files _ _ hlookup⟩
  | none =>
    rw [hlookup] at hensures
    obtain ⟨source, t, hrun, hmore, hfile⟩ :=
      run_downloadPack_addressed ideal hx hmem hrow h.reading (hobtain.more h.more)
    have hdone : (downloadPack C net (x.packId C) >>= fun source =>
        (pure (source, (x.packId C, source) :: downloaded) : FileProg P DownloaderError _)).run w =
          (.ok (source, (x.packId C, source) :: downloaded), t) := by
      rw [Prog.run_bind_of_ok hrun]
      rfl
    obtain ⟨hreading, hsource, hsources⟩ := hensures.run hdone
    refine ⟨source, _, t, hdone, ⟨hreading, h.more.trans hmore, hsources, ?_⟩, hsource, hfile⟩
    intro packId other hother
    rw [List.lookup_cons] at hother
    cases hsame : packId == x.packId C with
    | false =>
      rw [hsame] at hother
      exact hmore.spoolFile (h.files packId other hother)
    | true =>
      rw [hsame] at hother
      rw [← Option.some.inj hother]
      exact hfile

/-- A chunk of a pack that can be obtained is read if its key opens it. -/
theorem run_readChunk_addressed (ideal : C.Ideal) (hx : x.Valid) (hmem : pack ∈ packs)
    (hrow : x.Row C pack) {chunk : FileChunkLocation} (hpoints : x.Points C chunk)
    {vaultKey key : P.Key} (h : ReadSoFar C origin start packs begun downloaded w)
    (hobtain : x.Obtainable C net begun)
    (hkey : ∀ t, ReadingPacks C origin start packs t → (packDek (x.packId C) :
      FileProg P DownloaderError _).run t = (.ok (some key), t)) {plaintext : Bytes}
    (hread : x.read C chunk.size vaultKey (some key) = .ok plaintext) : ∃ downloaded' t,
      (readChunk C net vaultKey downloaded chunk).run w = (.ok (plaintext, downloaded'), t) ∧
        ReadSoFar C origin start packs begun downloaded' t := by
  obtain ⟨source, downloaded', t, hrun, hrestored, hsource, hfile⟩ :=
    run_packSource_addressed ideal hx hmem hrow h hobtain
  obtain ⟨bytes, hbytes⟩ := Option.isSome_iff_exists.mp hfile
  have hrecord := PackContent.SourceOf.isRecord hrestored.reading hx hmem hrow hsource hbytes
  have hspool : (readSpoolFile source.localPath).run t = (.ok bytes, t) := by
    rw [readSpoolFile, Prog.run_query_bind, hbytes]
    rfl
  refine ⟨downloaded', t, ?_, hrestored⟩
  rw [readChunk, hpoints.packId, Prog.run_bind_of_ok hrun]
  dsimp only
  rw [Prog.run_bind_of_ok hspool, Prog.run_bind_of_ok (hkey t hrestored.reading),
    PackContent.decrypt_of_isRecord hx hrecord hpoints, hread]
  rfl

end Read

/-! ## Files of stored chunks -/

section Store

variable {known : Bytes → Prop} {cur vaultKey : P.Key} {all chunks : List StoredChunk}
  {net : Network} {begun : FileWorld P} {downloaded : DownloadedPacks}

/-- The key of a stored pack stays the DEK of its chunk. -/
theorem run_packDek_kept (keys : P.Ideal) (separate : Separate C all)
    (hstore : StoreInv C known cur vaultKey all chunks start) {c : StoredChunk} (hc : c ∈ chunks)
    (hkept : KeptFrom start w) : (packDek (c.packId C) : FileProg P ε _).run w =
      (.ok (some (P.randomKey c.keyDraw)), w) := by
  obtain ⟨row, hrow, hwrapped⟩ := hstore.files.deks c (hstore.subset c hc)
  have hbinding := hkept.bindings _ _ (packDekId_eq separate hstore.tables hstore.subset hc)
  have hfind := VaultKeyStore.run_onVault_select (fun db => db.deks.find? (·.dekId = c.dekId)) w
  rw [hkept.vault, hrow] at hfind
  have hunwrap := VaultKeyStore.run_onVault_unwrap row.wrappedDek w
  rw [hkept.vault, run_unwrapDekBytes_of_wrapped keys hstore.files.vault hwrapped] at hunwrap
  have hdek : (VaultKeyStore.dekForPack (c.packId C)).run w =
      (.ok (P.randomKey c.keyDraw), w) := by
    rw [VaultKeyStore.dekForPack, Db.getPackDekId, run_selectFiles_bind, hbinding]
    dsimp only
    rw [Db.getWrappedDekById, Prog.run_bind_of_ok hfind, Prog.ofOption_some, Prog.ret_bind,
      hunwrap]
  have hattempt := Prog.run_attempt (γ := ε) (VaultKeyStore.dekForPack (c.packId C)) w
  rw [hdek] at hattempt
  rw [packDek, Prog.run_bind_of_ok hattempt]
  rfl

/-- The chunks of a file are written one behind the other as long as their packs are in use. -/
theorem run_restoreChunks_addressed (keys : P.Ideal) (ideal : C.Ideal) (separate : Separate C all)
    (hstore : StoreInv C known cur vaultKey all chunks start) {cs : List StoredChunk}
    (hcs : ∀ c ∈ cs, c ∈ chunks) (hrows : ∀ c ∈ cs, ∃ pack ∈ packs, (c.content C).Row C pack)
    (hobtain : ∀ c ∈ cs, (c.content C).Obtainable C net begun) (index : ℕ) (written : Bytes)
    (hfits : written.length + plainSize cs < 2 ^ 63)
    (h : ReadSoFar C origin start packs begun downloaded w) : ∃ downloaded' t,
      (restoreChunks C net vaultKey ⟨written, written.length⟩ downloaded
        (locationsFrom C index written.length cs)).run w =
          (.ok (⟨written ++ (cs.map fun c => c.plaintext).flatten,
            (written ++ (cs.map fun c => c.plaintext).flatten).length⟩, downloaded'), t) := by
  induction cs generalizing index written downloaded w with
  | nil =>
    refine ⟨downloaded, w, ?_⟩
    simp [locationsFrom, restoreChunks]
  | cons c cs ih =>
    have hc := hcs c List.mem_cons_self
    have hsize : plainSize (c :: cs) = c.plaintext.length + plainSize cs := by
      simp [plainSize]
    have hlength : (written ++ c.plaintext).length = written.length + c.plaintext.length :=
      List.length_append
    have hnext : (written.length : ℤ) + c.plaintext.length =
        ((written ++ c.plaintext).length : ℤ) := by
      rw [hlength]
      push_cast
      rfl
    obtain ⟨pack, hmem, hrow⟩ := hrows c List.mem_cons_self
    have hpoints : (c.content C).Points C (c.locationAt C index written.length) :=
      ⟨rfl, rfl, rfl, rfl⟩
    obtain ⟨downloaded₁, w₁, hread, hrestored⟩ := run_readChunk_addressed ideal
      (c.valid_content ideal (hstore.fits c hc).2) hmem hrow hpoints h
      (hobtain c List.mem_cons_self)
      (fun t ht => run_packDek_kept keys separate hstore hc ht.1.kept)
      (c.read_content ideal (hstore.fits c hc).2 vaultKey)
    have hoffset : (c.locationAt C index written.length).fileOffset = written.length := rfl
    have hwrite := writePlaintext_append written c.plaintext hoffset (by omega)
    obtain ⟨downloaded₂, w₂, hrest⟩ := ih (fun c' hc' => hcs c' (List.mem_cons_of_mem _ hc'))
      (fun c' hc' => hrows c' (List.mem_cons_of_mem _ hc'))
      (fun c' hc' => hobtain c' (List.mem_cons_of_mem _ hc')) (index + 1)
      (written ++ c.plaintext) (by omega) hrestored
    refine ⟨downloaded₂, w₂, ?_⟩
    rw [locationsFrom, restoreChunks, Prog.run_bind_of_ok hread, hnext]
    dsimp only
    rw [hwrite, Prog.ofExcept_ok, Prog.ret_bind, hrest, List.map_cons, List.flatten_cons,
      List.append_assoc]

/-- Every chunk of a file has a location. -/
theorem locationAt_mem {cs : List StoredChunk} {c : StoredChunk} (hc : c ∈ cs) (index : ℕ)
    (offset : ℤ) : ∃ index' offset', c.locationAt C index' offset' ∈
      locationsFrom C index offset cs := by
  induction cs generalizing index offset with
  | nil => cases hc
  | cons c' cs ih =>
    rcases List.mem_cons.mp hc with rfl | htail
    · exact ⟨index, offset, List.mem_cons_self⟩
    · obtain ⟨i, o, hmem⟩ := ih htail (index + 1) (offset + c'.plaintext.length)
      exact ⟨i, o, List.mem_cons_of_mem _ hmem⟩

/-- The chunks of the file are located where they were. -/
def Unmoved (inodeId : ℤ) (before after : FileDb) : Prop :=
  Db.locateAll after (Db.currentRefs inodeId after) =
    Db.locateAll before (Db.currentRefs inodeId before)

/-- A file whose chunks are where they were packed is restored. -/
theorem run_restoreFile_unmoved (keys : P.Ideal) (ideal : C.Ideal) (separate : Separate C all)
    (hstore : StoreInv C known cur vaultKey all chunks start)
    (hw : Addressed C origin start w) {inodeId revisionId : ℤ} {content : Bytes}
    {cs : List StoredChunk} (hcs : ∀ c ∈ cs, c ∈ chunks)
    (hpacked : FilePacked C inodeId revisionId content cs start.db)
    (hsame : Unmoved inodeId start.db w.db) (henough : EnoughShards net inodeId w)
    (hne : content ≠ []) : ∃ restored, ((restoreFile C net inodeId).run w).1 = .ok restored ∧
      restored.output = content := by
  have hkey : (onVault DownloaderError.vault VaultKeyStore.vaultKeyForV1Read).run w =
      (.ok vaultKey, w) := by
    rw [run_onVault, hw.kept.vault, hstore.files.vault.v1, ← hw.kept.vault]
    rfl
  have hlocations : Db.locateAll w.db (Db.currentRefs inodeId w.db) = locationsFrom C 0 0 cs := by
    rw [hsame, hpacked.currentRefs]
    exact locateAll_eq separate hstore.tables hstore.subset hcs hpacked.refs
  have hreading : ReadingPacks C origin start w.db.packs w := ⟨hw, rfl⟩
  have hplaced : ∀ c ∈ cs, (∃ pack ∈ w.db.packs, (c.content C).Row C pack) ∧
      (c.content C).Obtainable C net w := by
    intro c hc
    obtain ⟨index, offset, hmem⟩ := locationAt_mem (C := C) hc 0 0
    rw [← hlocations] at hmem
    obtain ⟨x, hx, -⟩ := hw.placed hmem
    have hcontent := StoredChunk.eq_content_of_packId ideal hx.valid hx.points.packId.symm
    rw [hcontent] at hx
    obtain ⟨pack, hpack, hrow⟩ := hx.row
    obtain ⟨found, hfound, hfoundRow⟩ := ReadingPacks.packOf ideal hreading hx.valid hpack hrow
    have hobtained := henough _ hmem found hfound
    rw [hfoundRow.storageMode] at hobtained
    exact ⟨⟨pack, hpack, hrow⟩, hobtained⟩
  have hsize : plainSize cs = content.length := by rw [plainSize_eq_length, hpacked.bytes]
  have hbegun : ReadSoFar C origin start w.db.packs w [] w :=
    ⟨hreading, MoreDownloads.refl w, NamedSources.nil, fun _ _ hlookup => by cases hlookup⟩
  obtain ⟨downloaded, t, hrun⟩ := run_restoreChunks_addressed keys ideal separate hstore hcs
    (fun c hc => (hplaced c hc).1) (fun c hc => (hplaced c hc).2) 0 []
    (by rw [hsize, List.length_nil, Nat.zero_add]; exact hpacked.fits) hbegun
  have hchunks : (locationsFrom C 0 0 cs).isEmpty = false := by
    cases cs with
    | nil => exact absurd hpacked.bytes.symm hne
    | cons c cs => rfl
  have hrun' : (restoreChunks C net vaultKey {} [] (locationsFrom C 0 0 cs)).run w =
      (.ok (⟨content, content.length⟩, downloaded), t) := by
    rw [← hpacked.bytes]
    exact hrun
  rw [restoreFile, Prog.run_bind_of_ok hkey, Db.getFileChunkLocations, run_selectFiles_bind,
    hlocations]
  simp only [hchunks, Bool.false_eq_true, if_false]
  rw [Prog.run_bind_of_ok hrun']
  exact ⟨_, rfl, rfl⟩

/-- The same chunks are located somewhere. -/
theorem KeptFrom.isSome_location_iff (h : KeptFrom start w) (chunkId : Bytes) :
    (w.db.packLocations.find? (·.chunkId = chunkId)).isSome = true ↔
      (start.db.packLocations.find? (·.chunkId = chunkId)).isSome = true := by
  have hkeys : ∀ rows : List PackLocation,
      (rows.find? (·.chunkId = chunkId)).isSome = true ↔ chunkId ∈ rows.map (·.chunkId) := by
    intro rows
    rw [List.find?_isSome, List.mem_map]
    simp
  rw [hkeys, hkeys, h.located]

/-- A chunk that can be read is placed in its own content, and not in a copy. -/
theorem eq_content_of_readable (separate : Separate C all) (hsub : ∀ c ∈ chunks, c ∈ all)
    {c : StoredChunk} (hc : c ∈ chunks) (hforeign : (c.encrypted C).ForeignTo C vaultKey)
    {chunk : FileChunkLocation} (hid : (c.chunkId C).bytes = chunk.chunkId) {x : PackContent}
    (hx : Placed C packs x chunk) (hcopy : (contentOf C chunks chunk.chunkId).CopyOf x)
    (h : Readable C packs vaultKey chunk) : x = c.content C := by
  rw [← hid, contentOf_chunkId separate hsub hc] at hcopy
  obtain ⟨dek, plaintext, hread⟩ := h x hx
  rcases hcopy with rfl | ⟨mode, rfl⟩
  · rfl
  · rw [StoredChunk.read_copy_content hforeign] at hread
    cases hread

/-- A chunk that can be read is located where it was. -/
theorem locate_of_readable (separate : Separate C all)
    (hstore : StoreInv C known cur vaultKey all chunks start)
    (hw : Addressed C (contentOf C chunks) start w)
    (hforeign : ∀ c ∈ chunks, (c.encrypted C).ForeignTo C vaultKey) {refs : List ChunkRefRecord}
    (h : ∀ chunk ∈ Db.locateAll w.db refs, Readable C w.db.packs vaultKey chunk)
    {numbered : ChunkRefRecord × ℕ} (hnumbered : numbered ∈ (orderBy (·.fileOffset) refs).zipIdx) :
    Db.locate w.db numbered = Db.locate start.db numbered := by
  have hlocated := hw.kept.isSome_location_iff numbered.1.chunkId
  cases hbefore : start.db.packLocations.find? (·.chunkId = numbered.1.chunkId) with
  | none =>
    cases hafter : w.db.packLocations.find? (·.chunkId = numbered.1.chunkId) with
    | none => rw [Db.locate, Db.locate, hbefore, hafter]
    | some l =>
      rw [hbefore, hafter] at hlocated
      cases hlocated.mp rfl
  | some l₀ =>
    rw [hbefore] at hlocated
    obtain ⟨l, hafter⟩ := Option.isSome_iff_exists.mp (hlocated.mpr rfl)
    have hl₀ := List.mem_of_find?_eq_some hbefore
    rw [hstore.tables.locations] at hl₀
    obtain ⟨c, hc, rfl⟩ := List.mem_map.mp hl₀
    have hid : (c.chunkId C).bytes = numbered.1.chunkId := by
      have hkey := List.find?_some hbefore
      rw [decide_eq_true_eq] at hkey
      exact hkey
    obtain ⟨chunk, hlocate⟩ : ∃ chunk, Db.locate w.db numbered = some chunk := by
      rw [Db.locate, hafter]
      exact ⟨_, rfl⟩
    have hmem : chunk ∈ Db.locateAll w.db refs :=
      List.mem_filterMap.mpr ⟨numbered, hnumbered, hlocate⟩
    have hchunk := hlocate
    rw [Db.locate, hafter] at hchunk
    cases hchunk
    obtain ⟨x, hx, hcopy⟩ := hw.placed hmem
    obtain rfl := eq_content_of_readable separate hstore.subset hc (hforeign c hc) hid hx hcopy
      (h _ hmem)
    have hpackId : l.packId = c.packId C := hx.points.packId
    have hoffset : l.packOffset = 0 := hx.points.packOffset
    have hencrypted : l.encryptedSize = (c.manifest C).length := hx.points.encryptedSize
    rw [hlocate, Db.locate, hbefore, Option.map_some]
    dsimp only
    rw [hpackId, hoffset, hencrypted]
    rfl

/-- Where every chunk of a file can be read, all of them are where they were packed. -/
theorem unmoved_of_readable (separate : Separate C all)
    (hstore : StoreInv C known cur vaultKey all chunks start)
    (hw : Addressed C (contentOf C chunks) start w)
    (hforeign : ∀ c ∈ chunks, (c.encrypted C).ForeignTo C vaultKey) {inodeId : ℤ}
    (h : ∀ chunk ∈ Db.locateAll w.db (Db.currentRefs inodeId w.db),
      Readable C w.db.packs vaultKey chunk) : Unmoved inodeId start.db w.db := by
  have hrefs : Db.currentRefs inodeId start.db = Db.currentRefs inodeId w.db := by
    rw [Db.currentRefs, Db.currentRefs, hw.kept.chunkRefs, hw.kept.fileRevisions]
  rw [Unmoved, hrefs]
  apply List.filterMap_congr
  intro numbered hnumbered
  exact locate_of_readable separate hstore hw hforeign h hnumbered

end Store

end OmniDrive
