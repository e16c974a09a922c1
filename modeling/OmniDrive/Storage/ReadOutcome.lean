import OmniDrive.Storage.RangeRead
import OmniDrive.Storage.RestoreOutcome
import OmniDrive.Storage.SavedRevisions

/-!
# Reading a stored chunk over any network

Whatever the providers answer, a read of a stored chunk returns its plaintext or fails, and leaves
the store in order either way.
-/

namespace OmniDrive

open StatementProgram Tables ByteFields Packer Downloader

variable {P : Primitives} {C : ChunkPrimitives P} {known : Bytes → Prop} {cur vaultKey : P.Key}
  {all chunks : List StoredChunk} {ε : Type}

/-! ## Downloads -/

/-- Without its key a record is not read. -/
theorem StoredChunk.IsRecord.decrypt_none (ideal : C.Ideal) {c : StoredChunk} {bytes : Bytes}
    (h : c.IsRecord C bytes) (hfits : c.plaintext.length + 96 < 2 ^ 63)
    {location : FileChunkLocation} (hid : location.chunkId = (c.chunkId C).bytes)
    (hoffset : location.packOffset = 0)
    (hencrypted : location.encryptedSize = (c.manifest C).length) (vaultKey : P.Key) :
    decryptChunkRecord C bytes location vaultKey none =
      .error (.invalidPackRecord "V2 chunk but no DEK available for this inode") := by
  obtain ⟨p, hrecord⟩ := h
  have hlength : bytes.length = (c.manifest C).length := by
    rw [hrecord.record_eq, length_chunkRecord, c.length_manifest]
    rfl
  have hcipher : (encryptChunkV2 C (P.randomKey c.keyDraw) (c.keyDraw + 1) c.plaintext
      []).ciphertext.length = c.plaintext.length := ideal.length_gcmEncrypt _ _ _ _
  have hplain : p.plainLen < 2 ^ 64 := by
    rw [hrecord.plainLen]
    omega
  have hpoints : PointsAt location bytes := ⟨hoffset, by rw [hencrypted, hlength]⟩
  rw [hrecord.record_eq] at hpoints ⊢
  have hparse := parseRecord_chunkRecord hrecord.cipherLen hplain (by omega) hpoints
    (by rw [hid, hrecord.chunkId]; rfl)
  rw [decryptChunkRecord, hparse, Prog.except_ok_bind, decryptParsed, if_pos hrecord.version]
  rfl

/-- What a read does to the store: downloads may have come in, and everything is in order. -/
structure Fetched (C : ChunkPrimitives P) (known : Bytes → Prop) (cur vaultKey : P.Key)
    (keys : UnlockedVaultKeys P) (all chunks : List StoredChunk) (w w' : FileWorld P) : Prop where
  world : ∃ downloads, w' = w.withDownloads downloads
  store : StoreInv C known cur vaultKey all chunks (w'.opened keys)

/-- A source that stands for the file of the pack. -/
def SourceOf (C : ChunkPrimitives P) (c : StoredChunk) (source : RestoredPackSource) : Prop :=
  source.localPath = .download (c.packId C) ∨
    c.storageMode = .localOnly ∧ source.localPath = .manifest (c.packId C)

/-- Every source that a call has taken over stands for the file of its pack. -/
def SourcesOf (C : ChunkPrimitives P) (chunks : List StoredChunk) (downloaded : DownloadedPacks) :
    Prop :=
  ∀ packId source, downloaded.lookup packId = some source →
    ∃ c ∈ chunks, packId = c.packId C ∧ SourceOf C c source

theorem SourcesOf.nil : SourcesOf C chunks [] := fun _ _ hlookup => by cases hlookup

/-- They do so when more is stored. -/
theorem SourcesOf.mono {chunks' : List StoredChunk} {downloaded : DownloadedPacks}
    (h : SourcesOf C chunks downloaded) (hsub : ∀ c ∈ chunks, c ∈ chunks') :
    SourcesOf C chunks' downloaded := by
  intro packId source hlookup
  obtain ⟨c, hc, hid, hsource⟩ := h packId source hlookup
  exact ⟨c, hsub c hc, hid, hsource⟩

section Outcome

variable {keys : UnlockedVaultKeys P} {w w' : FileWorld P} {downloaded : DownloadedPacks}
  {c : StoredChunk} (ideal : C.Ideal) (net : Network) (separate : Separate C all)
  (hstore : StoreInv C known cur vaultKey all chunks (w.opened keys)) (hc : c ∈ chunks)
include separate hstore hc

/-- A download of a remote pack has a record of its chunk, or it changes nothing. -/
theorem downloadRemotePack_cases (ideal : C.Ideal) (hremote : c.storageMode ≠ .localOnly)
    {pack : PackRecord} (hcore : pack.core = (c.record C).core) :
    (∃ e, (downloadRemotePack C net pack).run w = (.error e, w)) ∨ ∃ source bytes,
      (downloadRemotePack C net pack).run w = (.ok source,
        w.withDownloads (Function.update w.downloads (c.packId C) (some bytes))) ∧
      c.IsRecord C bytes ∧ source.localPath = .download (c.packId C) := by
  have hid : pack.packId = c.packId C := congrArg (·.packId) hcore
  have hmode : pack.storageMode = c.storageMode := congrArg (·.storageMode) hcore
  have hcandidates : ∀ s ∈ candidates net (Db.shardsOf (c.packId C) w.db), ∃ i : ℕ,
      s.shardIndex = i ∧ i < (c.shardFiles C).length ∧
        ∀ b, w.objects s.provider s.objectKey = some b → (c.shardFiles C)[i]? = some b :=
    candidates_spec separate hstore hc net
  rw [downloadRemotePack, hid, Db.getPackShards, run_selectFiles_bind]
  split
  · exact .inl ⟨_, rfl⟩
  split
  · exact .inl ⟨_, rfl⟩
  have hslots : SlotsHold (c.shardFiles C)
      ({ slots := List.replicate (shardSlots pack.storageMode) none } : FetchedShards).slots := by
    rw [hmode, ← length_shardFiles (C := C) hremote]
    exact slotsHold_replicate _
  obtain ⟨fetched, hrun, hhold, -, -⟩ :=
    run_fetchShards net (requiredShards pack.storageMode) hcandidates hslots
  dsimp only
  rw [Prog.run_bind_of_ok hrun]
  split
  · exact .inl ⟨_, rfl⟩
  rename_i henough
  rw [hmode] at henough
  obtain ⟨bytes, hbuild, hrecord⟩ := StoredChunk.buildManifestBytes hcore
  rw [ciphertextOf_slots ideal hremote hcore hhold (not_lt.mp henough), Prog.ofExcept_ok,
    Prog.ret_bind, hbuild, Prog.ofExcept_ok, Prog.ret_bind]
  exact .inr ⟨_, bytes, rfl, hrecord, rfl⟩

include ideal

/-- A pack is found or downloaded, or there is no source of it. -/
theorem fetched_downloadPack {out : Except DownloaderError RestoredPackSource}
    (hrun : (downloadPack C net (c.packId C)).run w = (out, w')) :
    Fetched C known cur vaultKey keys all chunks w w' ∧
      ∀ source, out = .ok source → SourceOf C c source := by
  have hsame : Fetched C known cur vaultKey keys all chunks w w := ⟨⟨w.downloads, rfl⟩, hstore⟩
  obtain ⟨pack, hpack, hcore⟩ := find?_pack separate hstore.tables hstore.subset hc
  rw [FileWorld.opened_db] at hpack
  have hmode : pack.storageMode = c.storageMode := congrArg (·.storageMode) hcore
  rw [downloadPack, Db.getPack, run_selectFiles_bind, hpack, Prog.ofOption_some,
    Prog.ret_bind] at hrun
  by_cases hlocal : c.storageMode = .localOnly
  · rw [if_pos (hmode.trans hlocal), Prog.run_query_bind] at hrun
    split at hrun
    · cases hrun
      exact ⟨hsame, fun source hsource => by cases hsource⟩
    · cases hrun
      refine ⟨hsame, fun source hsource => .inr ⟨hlocal, ?_⟩⟩
      cases hsource
      rfl
  rw [if_neg (fun heq => hlocal (hmode.symm.trans heq)), Prog.run_query_bind] at hrun
  split at hrun
  · cases hrun
    refine ⟨hsame, fun source hsource => .inl ?_⟩
    cases hsource
    rfl
  rcases downloadRemotePack_cases net separate hstore hc ideal hlocal hcore with
    ⟨e, hremote⟩ | ⟨source, bytes, hremote, hrecord, hpath⟩
  · rw [hremote] at hrun
    cases hrun
    exact ⟨hsame, fun source hsource => by cases hsource⟩
  · rw [hremote] at hrun
    cases hrun
    refine ⟨⟨⟨_, rfl⟩, hstore.withDownload hc hrecord⟩, fun source' hsource => .inl ?_⟩
    cases hsource
    exact hpath

/-- So it is with the source of a pack in a call. -/
theorem fetched_packSource (hsources : SourcesOf C chunks downloaded)
    {out : Except DownloaderError (RestoredPackSource × DownloadedPacks)}
    (hrun : (packSource C net downloaded (c.packId C)).run w = (out, w')) :
    Fetched C known cur vaultKey keys all chunks w w' ∧
      ∀ source downloaded', out = .ok (source, downloaded') →
        SourceOf C c source ∧ SourcesOf C chunks downloaded' := by
  rw [packSource] at hrun
  rcases hlookup : downloaded.lookup (c.packId C) with _ | existing
  · rw [hlookup] at hrun
    dsimp only at hrun
    rcases hpack : (downloadPack C net (c.packId C)).run w with ⟨r, w₁⟩
    obtain ⟨hfetched, hsource⟩ := fetched_downloadPack ideal net separate hstore hc hpack
    rcases r with e | source
    · rw [Prog.run_bind_of_error hpack] at hrun
      cases hrun
      exact ⟨hfetched, fun _ _ hok => by cases hok⟩
    · rw [Prog.run_bind_of_ok hpack] at hrun
      cases hrun
      refine ⟨hfetched, fun source' downloaded' hok => ?_⟩
      cases hok
      refine ⟨hsource _ rfl, fun packId other hother => ?_⟩
      rw [List.lookup_cons] at hother
      rcases hsame : (packId == c.packId C) with _ | _
      · rw [hsame] at hother
        exact hsources packId other hother
      · rw [hsame] at hother
        rw [← Option.some.inj hother]
        exact ⟨c, hc, beq_iff_eq.mp hsame, hsource _ rfl⟩
  · rw [hlookup] at hrun
    cases hrun
    refine ⟨⟨⟨w.downloads, rfl⟩, hstore⟩, fun source' downloaded' hok => ?_⟩
    cases hok
    obtain ⟨c', hc', hid, hsource⟩ := hsources _ _ hlookup
    rw [← separate.packId c (hstore.subset c hc) c' (hstore.subset c' hc') hid] at hsource
    exact ⟨hsource, hsources⟩

omit ideal

/-- The file of a pack is a record of its chunk. -/
theorem SourceOf.isRecord {source : RestoredPackSource} (h : SourceOf C c source) {bytes : Bytes}
    (hfile : spoolFile source.localPath w = some bytes) : c.IsRecord C bytes := by
  rcases h with hpath | ⟨hlocal, hpath⟩
  · rw [hpath] at hfile
    obtain ⟨c', hc', hid, hrecord⟩ := hstore.files.downloads _ _ hfile
    rwa [← separate.packId c (hstore.subset c hc) c' hc' hid] at hrecord
  · rw [hpath] at hfile
    have hmanifest := hstore.files.manifests c (hstore.subset c hc) hlocal
    rw [show bytes = c.manifest C from Option.some.inj (hfile.symm.trans hmanifest)]
    exact c.isRecord_manifest

/-- The key of a pack is that of its chunk, as long as the vault is open. -/
theorem run_packDek_slot (ideals : P.Ideal)
    (hslot : w.vault.inner = none ∨ w.vault.inner = some keys) : ∃ dek : Option P.Key,
      (packDek (c.packId C) : FileProg P ε _).run w = (.ok dek, w) ∧
        ∀ key ∈ dek, key = P.randomKey c.keyDraw := by
  rcases hslot with hlocked | hopen
  · obtain ⟨row, hrow, -⟩ := hstore.files.deks c (hstore.subset c hc)
    have hbinding : Db.packDekId (c.packId C) w.db = some c.dekId :=
      packDekId_eq separate hstore.tables hstore.subset hc
    have hfind : (onVault id (Db.getWrappedDekById c.dekId) : FileProg P VaultError _).run w =
        (.ok (some row), w) := by
      have hselect : (Db.getWrappedDekById c.dekId).run w.vault = (.ok (some row), w.vault) := by
        rw [Db.getWrappedDekById, run_selectDb]
        exact congrArg (fun found => (Except.ok found, w.vault)) hrow
      rw [run_onVault, hselect]
      rfl
    have hunwrap : (onVault id (VaultKeyStore.unwrapDekBytes row.wrappedDek) :
        FileProg P VaultError _).run w = (.error .locked, w) := by
      have henvelope := VaultKeyStore.run_requireEnvelopeKey w.vault
      rw [hlocked, Option.bind_none] at henvelope
      rw [run_onVault, VaultKeyStore.unwrapDekBytes, Prog.run_bind_of_error henvelope]
      rfl
    have hdek : (VaultKeyStore.dekForPack (c.packId C)).run w = (.error .locked, w) := by
      rw [VaultKeyStore.dekForPack, Db.getPackDekId, run_selectFiles_bind, hbinding]
      dsimp only
      rw [Prog.run_bind_of_ok hfind, Prog.ofOption_some, Prog.ret_bind, hunwrap]
    have hattempt := Prog.run_attempt (γ := ε) (VaultKeyStore.dekForPack (c.packId C)) w
    rw [hdek] at hattempt
    refine ⟨none, ?_, fun key hkey => by cases hkey⟩
    rw [packDek, Prog.run_bind_of_ok hattempt]
    rfl
  · rw [FileWorld.opened_of_inner hopen] at hstore
    exact ⟨_, run_packDek ideals separate hstore hc, fun key hkey => (Option.some.inj hkey).symm⟩

omit separate in
/-- A record of a stored chunk is decrypted to its plaintext or not at all. -/
theorem decryptChunkRecord_right (ideal : C.Ideal) {bytes : Bytes} (h : c.IsRecord C bytes)
    (index : ℕ) (offset : ℤ) (readKey : P.Key) {dek : Option P.Key}
    (hdek : ∀ key ∈ dek, key = P.randomKey c.keyDraw) {plaintext : Bytes}
    (hdecrypt : decryptChunkRecord C bytes (c.locationAt C index offset) readKey dek =
      .ok plaintext) : plaintext = c.plaintext := by
  rcases dek with _ | key
  · rw [h.decrypt_none ideal (hstore.fits c hc).2 rfl rfl rfl] at hdecrypt
    cases hdecrypt
  · rw [hdek key rfl, h.decrypt ideal (hstore.fits c hc).2 rfl rfl rfl rfl] at hdecrypt
    exact (Except.ok.inj hdecrypt).symm

include ideal

/-- A read of a stored chunk has its plaintext or none. -/
theorem fetched_readChunk (ideals : P.Ideal)
    (hslot : w.vault.inner = none ∨ w.vault.inner = some keys)
    (hsources : SourcesOf C chunks downloaded) (index : ℕ) (offset : ℤ) (readKey : P.Key)
    {out : Except DownloaderError (Bytes × DownloadedPacks)}
    (hrun : (readChunk C net readKey downloaded (c.locationAt C index offset)).run w = (out, w')) :
    Fetched C known cur vaultKey keys all chunks w w' ∧
      ∀ bytes downloaded', out = .ok (bytes, downloaded') →
        bytes = c.plaintext ∧ SourcesOf C chunks downloaded' := by
  have hpackId : (c.locationAt C index offset).packId = c.packId C := rfl
  rw [readChunk, hpackId] at hrun
  rcases hpack : (packSource C net downloaded (c.packId C)).run w with ⟨found, w₁⟩
  obtain ⟨hfetched, hfound⟩ := fetched_packSource ideal net separate hstore hc hsources hpack
  rcases found with e | ⟨source, downloaded'⟩
  · rw [Prog.run_bind_of_error hpack] at hrun
    cases hrun
    exact ⟨hfetched, fun _ _ hok => by cases hok⟩
  obtain ⟨hsource, hsources'⟩ := hfound source downloaded' rfl
  have hslot' : w₁.vault.inner = none ∨ w₁.vault.inner = some keys := by
    obtain ⟨downloads, hw⟩ := hfetched.world
    rw [hw]
    exact hslot
  obtain ⟨dek, hdek, hkey⟩ :=
    run_packDek_slot (ε := DownloaderError) separate hfetched.store hc ideals hslot'
  rw [Prog.run_bind_of_ok hpack] at hrun
  dsimp only at hrun
  rw [readSpoolFile, Prog.bind_assoc, Prog.run_query_bind] at hrun
  rcases hfile : spoolFile source.localPath w₁ with _ | packBytes
  · rw [hfile] at hrun
    cases hrun
    exact ⟨hfetched, fun _ _ hok => by cases hok⟩
  have hrecord := hsource.isRecord separate hfetched.store hc hfile
  rw [hfile, Prog.ofOption_some, Prog.ret_bind, Prog.run_bind_of_ok hdek] at hrun
  rcases hdecrypt : decryptChunkRecord C packBytes (c.locationAt C index offset) readKey dek with
    e | plaintext
  · rw [hdecrypt] at hrun
    cases hrun
    exact ⟨hfetched, fun _ _ hok => by cases hok⟩
  · rw [hdecrypt] at hrun
    cases hrun
    refine ⟨hfetched, fun bytes downloaded'' hok => ?_⟩
    cases hok
    exact ⟨decryptChunkRecord_right hfetched.store hc ideal hrecord index offset readKey hkey
      hdecrypt, hsources'⟩

end Outcome

/-! ## The pieces of a revision -/

/-- The chunks of a revision that stand in front of a number. -/
def plainOffset (cs : List StoredChunk) (k : ℕ) : ℕ := plainSize (cs.take k)

theorem plainSize_cons (c : StoredChunk) (cs : List StoredChunk) :
    plainSize (c :: cs) = c.plaintext.length + plainSize cs := by
  simp [plainSize]

theorem plainOffset_succ (c : StoredChunk) (cs : List StoredChunk) (k : ℕ) :
    plainOffset (c :: cs) (k + 1) = c.plaintext.length + plainOffset cs k := by
  rw [plainOffset, List.take_succ_cons, plainSize_cons, plainOffset]

/-- A chunk is the piece of the file at its place. -/
theorem slice_flatten {cs : List StoredChunk} {k : ℕ} {c : StoredChunk} (h : cs[k]? = some c) :
    slice (plainOffset cs k) (plainOffset cs k + c.plaintext.length)
      (cs.map fun c => c.plaintext).flatten = c.plaintext := by
  induction cs generalizing k with
  | nil => cases h
  | cons first rest ih =>
    cases k with
    | zero =>
      obtain rfl := Option.some.inj h
      have hzero : plainOffset (first :: rest) 0 = 0 := rfl
      rw [hzero, Nat.zero_add, List.map_cons, List.flatten_cons, slice_head rfl]
    | succ k =>
      rw [plainOffset_succ, List.map_cons, List.flatten_cons, slice_skip rfl (by omega)]
      have hfront : first.plaintext.length + plainOffset rest k - first.plaintext.length =
          plainOffset rest k := by omega
      have hback : first.plaintext.length + plainOffset rest k + c.plaintext.length -
          first.plaintext.length = plainOffset rest k + c.plaintext.length := by omega
      rw [hfront, hback]
      exact ih h

/-- The references of a revision determine its chunks. -/
theorem RefsFrom.unique (separate : Separate C all) {offset offset' : ℤ}
    {cs cs' : List StoredChunk} {rows : List ChunkRefRecord} (hcs : ∀ c ∈ cs, c ∈ all)
    (hcs' : ∀ c ∈ cs', c ∈ all) (h : RefsFrom C offset cs rows) (h' : RefsFrom C offset' cs' rows) :
    cs = cs' := by
  induction cs generalizing offset offset' cs' rows with
  | nil =>
    cases rows with
    | cons r rest => exact h.elim
    | nil =>
      cases cs' with
      | nil => rfl
      | cons c' cs' => exact h'.elim
  | cons c cs ih =>
    cases rows with
    | nil => exact h.elim
    | cons r rest =>
      cases cs' with
      | nil => exact h'.elim
      | cons c' cs' =>
        obtain ⟨⟨hid, -⟩, htail⟩ := h
        obtain ⟨⟨hid', -⟩, htail'⟩ := h'
        have hsame : c = c' := separate.chunkId c (hcs c List.mem_cons_self) c'
          (hcs' c' List.mem_cons_self) (FixedBytes.ext (hid.symm.trans hid'))
        rw [hsame, ih (fun x hx => hcs x (List.mem_cons_of_mem _ hx))
          (fun x hx => hcs' x (List.mem_cons_of_mem _ hx)) htail htail']

/-- The reference with a number is that to the chunk with the number. -/
theorem RefsFrom.getElem? {offset : ℤ} {cs : List StoredChunk} {rows : List ChunkRefRecord}
    (h : RefsFrom C offset cs rows) {k : ℕ} {r : ChunkRefRecord} (hr : rows[k]? = some r) :
    ∃ c, cs[k]? = some c ∧ r.chunkId = (c.chunkId C).bytes ∧
      r.fileOffset = offset + plainOffset cs k ∧ r.size = c.plaintext.length := by
  induction cs generalizing offset rows k with
  | nil =>
    cases rows with
    | nil => cases hr
    | cons r' rest => exact h.elim
  | cons c cs ih =>
    cases rows with
    | nil => exact h.elim
    | cons r' rest =>
      obtain ⟨⟨hid, hoffset, hsize⟩, htail⟩ := h
      cases k with
      | zero =>
        obtain rfl := Option.some.inj hr
        have hzero : plainOffset (c :: cs) 0 = 0 := rfl
        exact ⟨c, rfl, hid, by rw [hoffset, hzero]; simp, hsize⟩
      | succ k =>
        obtain ⟨c', hc', hid', hoffset', hsize'⟩ := ih htail hr
        refine ⟨c', hc', hid', ?_, hsize'⟩
        rw [hoffset', plainOffset_succ]
        push_cast
        omega

theorem RefsFrom.length {offset : ℤ} {cs : List StoredChunk} {rows : List ChunkRefRecord}
    (h : RefsFrom C offset cs rows) : rows.length = cs.length := by
  induction cs generalizing offset rows with
  | nil =>
    cases rows with
    | nil => rfl
    | cons r rest => exact h.elim
  | cons c cs ih =>
    cases rows with
    | nil => exact h.elim
    | cons r rest => rw [List.length_cons, List.length_cons, ih h.2]

/-- References lie one behind the other from their offset on. -/
theorem RefsFrom.inside {offset : ℤ} {cs : List StoredChunk} {rows : List ChunkRefRecord}
    (h : RefsFrom C offset cs rows) : ∀ r ∈ rows, offset ≤ r.fileOffset ∧ 0 ≤ r.size ∧
      r.fileOffset + r.size ≤ offset + plainSize cs := by
  induction cs generalizing offset rows with
  | nil =>
    cases rows with
    | nil => exact fun r hr => by cases hr
    | cons r rest => exact h.elim
  | cons c cs ih =>
    cases rows with
    | nil => exact h.elim
    | cons r rest =>
      obtain ⟨⟨-, hoffset, hsize⟩, htail⟩ := h
      intro r' hr'
      rw [plainSize_cons]
      push_cast
      rcases List.mem_cons.mp hr' with rfl | hrest
      · omega
      · have hinside := ih htail r' hrest
        omega

theorem RefsFrom.covers {offset : ℤ} {cs : List StoredChunk} {rows : List ChunkRefRecord}
    (h : RefsFrom C offset cs rows) {x : ℤ} (hlow : offset ≤ x)
    (hhigh : x < offset + plainSize cs) :
    ∃ r ∈ rows, r.fileOffset ≤ x ∧ x < r.fileOffset + r.size := by
  induction cs generalizing offset rows with
  | nil =>
    simp only [plainSize, List.map_nil, List.sum_nil] at hhigh
    omega
  | cons c cs ih =>
    cases rows with
    | nil => exact h.elim
    | cons r rest =>
      obtain ⟨⟨-, hoffset, hsize⟩, htail⟩ := h
      rw [plainSize_cons] at hhigh
      push_cast at hhigh
      by_cases hfirst : x < offset + c.plaintext.length
      · exact ⟨r, List.mem_cons_self, by omega, by omega⟩
      · obtain ⟨r', hr', hx⟩ := ih htail (by omega) (by omega)
        exact ⟨r', List.mem_cons_of_mem _ hr', hx⟩

theorem RefsFrom.apart {offset : ℤ} {cs : List StoredChunk} {rows : List ChunkRefRecord}
    (h : RefsFrom C offset cs rows) : rows.Pairwise Apart := by
  induction cs generalizing offset rows with
  | nil =>
    cases rows with
    | nil => exact .nil
    | cons r rest => exact h.elim
  | cons c cs ih =>
    cases rows with
    | nil => exact h.elim
    | cons r rest =>
      obtain ⟨⟨-, hoffset, hsize⟩, htail⟩ := h
      refine .cons (fun s hs x hx => ?_) (ih htail)
      have hlater := htail.inside s hs
      omega

/-- The references of a revision tile its bytes. -/
theorem RefsFrom.tiles {cs : List StoredChunk} {rows : List ChunkRefRecord}
    (h : RefsFrom C 0 cs rows) : Tiles rows (plainSize cs) where
  inside r hr := by
    have hinside := h.inside r hr
    omega
  covers x hx := h.covers (by omega) (by omega)
  apart := h.apart

/-- A location of a described revision is that of one of its chunks. -/
theorem mem_locationsFrom {index : ℕ} {offset : ℤ} {cs : List StoredChunk} {l : FileChunkLocation}
    (h : l ∈ locationsFrom C index offset cs) : ∃ (k : ℕ) (c : StoredChunk), cs[k]? = some c ∧
      l = c.locationAt C (index + k) (offset + plainOffset cs k) := by
  induction cs generalizing index offset with
  | nil => cases h
  | cons c cs ih =>
    rcases List.mem_cons.mp h with rfl | hrest
    · have hzero : plainOffset (c :: cs) 0 = 0 := rfl
      exact ⟨0, c, rfl, by rw [hzero]; simp⟩
    · obtain ⟨k, c', hc', rfl⟩ := ih hrest
      refine ⟨k + 1, c', hc', ?_⟩
      have hindex : index + 1 + k = index + (k + 1) := by omega
      rw [plainOffset_succ, hindex]
      push_cast
      rw [add_assoc]

/-- The chunk of a revision with a number has these bytes. -/
structure PieceAt (C : ChunkPrimitives P) (chunks : List StoredChunk) (db : FileDb)
    (revisionId chunkIndex : ℤ) (bytes : Bytes) : Prop where
  row : ∃ r ∈ db.fileRevisions, r.revisionId = revisionId
  piece : ∃ cs, (∀ c ∈ cs, c ∈ chunks) ∧ RefsFrom C 0 cs (refRows revisionId db) ∧
    ∃ (k : ℕ) (c : StoredChunk), chunkIndex = k ∧ cs[k]? = some c ∧ c.plaintext = bytes

/-- A revision and a number determine the bytes. -/
theorem PieceAt.unique (separate : Separate C all) (hsub : ∀ c ∈ chunks, c ∈ all) {db : FileDb}
    {revisionId chunkIndex : ℤ} {bytes bytes' : Bytes}
    (h : PieceAt C chunks db revisionId chunkIndex bytes)
    (h' : PieceAt C chunks db revisionId chunkIndex bytes') : bytes = bytes' := by
  obtain ⟨cs, hcs, hrefs, k, c, hk, hc, rfl⟩ := h.piece
  obtain ⟨cs', hcs', hrefs', k', c', hk', hc', rfl⟩ := h'.piece
  obtain rfl := hrefs.unique separate (fun c hc => hsub c (hcs c hc))
    (fun c hc => hsub c (hcs' c hc)) hrefs'
  obtain rfl : k = k' := by omega
  rw [Option.some.inj (hc.symm.trans hc')]

/-- The references of a revision that is carried stay the same. -/
theorem Carried.refRows_eq {keys : UnlockedVaultKeys P} {w w' : FileWorld P}
    {all' chunks' : List StoredChunk} (hcarried : Carried C known cur vaultKey keys w w')
    (hstore : StoreInv C known cur vaultKey all chunks (w.opened keys))
    (hstore' : StoreInv C known cur vaultKey all' chunks' (w'.opened keys)) {revisionId : ℤ}
    (hrow : ∃ r ∈ w.db.fileRevisions, r.revisionId = revisionId) :
    (∃ r ∈ w'.db.fileRevisions, r.revisionId = revisionId) ∧
      refRows revisionId w'.db = refRows revisionId w.db := by
  obtain ⟨r, hr, rfl⟩ := hrow
  obtain ⟨r', hr', hsame⟩ := hcarried.revisions r hr
  have hold := hstore.refsOf_eq hr
  have hnew := hstore'.refsOf_eq hr'
  rw [hsame.1] at hnew
  exact ⟨⟨r', hr', hsame.1⟩, by rw [← hnew, hcarried.refs r hr, hold]⟩

/-- What is stored at a number stays stored there. -/
theorem Carried.pieceAt {keys : UnlockedVaultKeys P} {w w' : FileWorld P}
    {all' chunks' : List StoredChunk} (hcarried : Carried C known cur vaultKey keys w w')
    (hstore : StoreInv C known cur vaultKey all chunks (w.opened keys))
    (hstore' : StoreInv C known cur vaultKey all' chunks' (w'.opened keys))
    (hsub : ∀ c ∈ chunks, c ∈ chunks') {revisionId chunkIndex : ℤ} {bytes : Bytes}
    (h : PieceAt C chunks w.db revisionId chunkIndex bytes) :
    PieceAt C chunks' w'.db revisionId chunkIndex bytes := by
  obtain ⟨hrow, hrows⟩ := hcarried.refRows_eq hstore hstore' h.row
  obtain ⟨cs, hcs, hrefs, hpiece⟩ := h.piece
  refine ⟨hrow, cs, fun c hc => hsub c (hcs c hc), ?_, hpiece⟩
  rw [hrows]
  exact hrefs

/-- The bytes of a revision. -/
structure ContentsOf (C : ChunkPrimitives P) (chunks : List StoredChunk) (db : FileDb)
    (revisionId : ℤ) (file : Bytes) : Prop where
  row : ∃ r ∈ db.fileRevisions, r.revisionId = revisionId
  pieces : ∃ cs, (∀ c ∈ cs, c ∈ chunks) ∧ RefsFrom C 0 cs (refRows revisionId db) ∧
    (cs.map fun c => c.plaintext).flatten = file

theorem Described.contentsOf {db : FileDb} {revisionId : ℤ} {bytes : Bytes}
    (h : Described C chunks revisionId bytes db) : ContentsOf C chunks db revisionId bytes := by
  obtain ⟨hrow, cs, hcs, hrefs, hbytes, -⟩ := h
  exact ⟨hrow, cs, hcs, hrefs, hbytes⟩

/-- Every revision has some. -/
theorem RevisionsInv.contentsOf {db : FileDb} (h : RevisionsInv C chunks db) {revisionId : ℤ}
    (hrow : ∃ r ∈ db.fileRevisions, r.revisionId = revisionId) :
    ∃ file, ContentsOf C chunks db revisionId file := by
  obtain ⟨r, hr, rfl⟩ := hrow
  obtain ⟨cs, hcs, hrefs, -⟩ := h.described r hr
  exact ⟨_, ⟨r, hr, rfl⟩, cs, hcs, hrefs, rfl⟩

theorem ContentsOf.unique (separate : Separate C all) (hsub : ∀ c ∈ chunks, c ∈ all) {db : FileDb}
    {revisionId : ℤ} {file file' : Bytes} (h : ContentsOf C chunks db revisionId file)
    (h' : ContentsOf C chunks db revisionId file') : file = file' := by
  obtain ⟨cs, hcs, hrefs, rfl⟩ := h.pieces
  obtain ⟨cs', hcs', hrefs', rfl⟩ := h'.pieces
  rw [hrefs.unique separate (fun c hc => hsub c (hcs c hc)) (fun c hc => hsub c (hcs' c hc)) hrefs']

theorem Carried.contentsOf {keys : UnlockedVaultKeys P} {w w' : FileWorld P}
    {all' chunks' : List StoredChunk} (hcarried : Carried C known cur vaultKey keys w w')
    (hstore : StoreInv C known cur vaultKey all chunks (w.opened keys))
    (hstore' : StoreInv C known cur vaultKey all' chunks' (w'.opened keys))
    (hsub : ∀ c ∈ chunks, c ∈ chunks') {revisionId : ℤ} {file : Bytes}
    (h : ContentsOf C chunks w.db revisionId file) :
    ContentsOf C chunks' w'.db revisionId file := by
  obtain ⟨hrow, hrows⟩ := hcarried.refRows_eq hstore hstore' h.row
  obtain ⟨cs, hcs, hrefs, hfile⟩ := h.pieces
  refine ⟨hrow, cs, fun c hc => hsub c (hcs c hc), ?_, hfile⟩
  rw [hrows]
  exact hrefs

/-! ## The chunks of a range -/

/-- A location is that of a chunk of the revision, which is the piece of its bytes there. -/
def Located (C : ChunkPrimitives P) (chunks : List StoredChunk) (db : FileDb) (revisionId : ℤ)
    (file : Bytes) (l : FileChunkLocation) : Prop :=
  ∃ c ∈ chunks, ∃ (index : ℕ) (offset : ℤ), l = c.locationAt C index offset ∧
    PieceAt C chunks db revisionId index c.plaintext ∧
    c.plaintext = slice l.fileOffset.toNat (l.fileOffset + l.size).toNat file

/-- The references of a revision that belongs to the inode. -/
theorem revisionRefs_eq {inodeId revisionId : ℤ} {db : FileDb} {r : FileRevisionRecord}
    (hr : Db.revisionOf inodeId revisionId db = some r) :
    (∃ r ∈ db.fileRevisions, r.revisionId = revisionId) ∧
      Db.revisionRefs inodeId revisionId db = refRows revisionId db := by
  have hmem := List.mem_of_find?_eq_some hr
  have hkey := List.find?_some hr
  rw [Bool.and_eq_true, decide_eq_true_eq, decide_eq_true_eq] at hkey
  have hany : (db.fileRevisions.any fun fr => fr.revisionId = revisionId && fr.inodeId = inodeId) =
      true := by
    rw [List.any_eq_true]
    exact ⟨r, hmem, by simp [hkey]⟩
  refine ⟨⟨r, hmem, hkey.2⟩, List.filter_congr fun cr _ => ?_⟩
  rw [hany, Bool.and_true]

section Range

variable (separate : Separate C all) {db : FileDb} (htables : TablesInv C chunks db)
  (hsub : ∀ c ∈ chunks, c ∈ all) {revisionId : ℤ} {file : Bytes}
  (hcontents : ContentsOf C chunks db revisionId file)
include separate htables hsub hcontents

/-- The locations of a revision are those of its chunks, which are the pieces of its bytes. -/
theorem located_of_mem {l : FileChunkLocation}
    (h : l ∈ Db.locateAll db (refRows revisionId db)) :
    Located C chunks db revisionId file l := by
  obtain ⟨hrow, cs, hcs, hrefs, rfl⟩ := hcontents
  rw [locateAll_eq separate htables hsub hcs hrefs] at h
  obtain ⟨k, c, hc, rfl⟩ := mem_locationsFrom h
  refine ⟨c, hcs c (List.mem_of_getElem? hc), _, _, rfl,
    ⟨hrow, cs, hcs, hrefs, 0 + k, c, rfl, by rwa [Nat.zero_add], rfl⟩, ?_⟩
  have hfront : (0 + (plainOffset cs k : ℤ)).toNat = plainOffset cs k := by omega
  have hback : (0 + (plainOffset cs k : ℤ) + (c.plaintext.length : ℤ)).toNat =
      plainOffset cs k + c.plaintext.length := by omega
  change c.plaintext = slice (0 + (plainOffset cs k : ℤ)).toNat
    (0 + (plainOffset cs k : ℤ) + (c.plaintext.length : ℤ)).toNat _
  rw [hfront, hback, slice_flatten hc]

omit separate htables hsub in
theorem tiles_refRows : Tiles (refRows revisionId db) file.length := by
  obtain ⟨-, cs, -, hrefs, rfl⟩ := hcontents
  rw [← plainSize_eq_length]
  exact hrefs.tiles

/-- Every chunk of a revision is located. -/
theorem isLocated_of_mem {r : ChunkRefRecord} (hr : r ∈ refRows revisionId db) :
    isLocated db r = true := by
  obtain ⟨-, cs, hcs, hrefs, -⟩ := hcontents
  obtain ⟨k, hk⟩ := List.mem_iff_getElem?.mp hr
  obtain ⟨c, hc, hid, -⟩ := hrefs.getElem? hk
  rw [isLocated, hid,
    find?_location separate htables hsub (hcs c (List.mem_of_getElem? hc))]
  rfl

end Range

/-! ## Lookups by identifier -/

/-- The location that a lookup by identifier stands for. -/
def fileChunkOf (chunk : Db.ChunkLookupRecord) : FileChunkLocation where
  chunkId := chunk.chunkId
  chunkIndex := chunk.chunkIndex
  fileOffset := chunk.fileOffset
  size := chunk.size
  packId := chunk.packId
  packOffset := chunk.packOffset
  encryptedSize := chunk.encryptedSize

/-- A lookup finds a stored chunk, under the number of one of the references to it. -/
structure FoundChunk (C : ChunkPrimitives P) (chunks : List StoredChunk) (db : FileDb)
    (chunkId : Bytes) (chunk : Db.ChunkLookupRecord) (c : StoredChunk) : Prop where
  stored : c ∈ chunks
  chunkId : (c.chunkId C).bytes = chunkId
  row : ∃ r ∈ db.fileRevisions, r.revisionId = chunk.revisionId ∧ r.inodeId = chunk.inodeId
  location : ∃ (number : ℕ) (offset : ℤ), fileChunkOf chunk = c.locationAt C number offset

theorem foundChunk_of_chunkLookup (separate : Separate C all) {db : FileDb}
    (htables : TablesInv C chunks db) (hrevisions : RevisionsInv C chunks db)
    (hsub : ∀ c ∈ chunks, c ∈ all) {chunkId : Bytes} {chunk : Db.ChunkLookupRecord}
    (h : Db.chunkLookup chunkId db = some chunk) : ∃ c, FoundChunk C chunks db chunkId chunk c := by
  rw [Db.chunkLookup] at h
  obtain ⟨⟨cr, fr⟩, hhead, h⟩ := Option.bind_eq_some_iff.mp h
  obtain ⟨pl, hpl, h⟩ := Option.bind_eq_some_iff.mp h
  have hmem := (mem_orderBy _ _ _).mp (List.mem_of_mem_head? (Option.mem_def.mpr hhead))
  obtain ⟨cr', hcr, hmap⟩ := List.mem_filterMap.mp hmem
  obtain ⟨fr', hfind, hpair⟩ := Option.map_eq_some_iff.mp hmap
  obtain ⟨rfl, rfl⟩ := Prod.mk.inj hpair
  rw [mem_orderBy, List.mem_filter, decide_eq_true_eq] at hcr
  have hrow := List.mem_of_find?_eq_some hfind
  have hrevision : fr'.revisionId = cr'.revisionId := by simpa using List.find?_some hfind
  obtain ⟨cs, hcs, hrefs, -⟩ := hrevisions.described fr' hrow
  have href : cr' ∈ refRows fr'.revisionId db := by
    rw [refRows, List.mem_filter]
    exact ⟨hcr.1, by simp [hrevision]⟩
  obtain ⟨k, hk⟩ := List.mem_iff_getElem?.mp href
  obtain ⟨c, hc, hid, hoffset, hsize⟩ := hrefs.getElem? hk
  have hstored := hcs c (List.mem_of_getElem? hc)
  have hlocation := find?_location separate htables hsub hstored
  rw [← hid, hcr.2, hpl] at hlocation
  obtain rfl := Option.some.inj hlocation
  obtain rfl := Option.some.inj h
  refine ⟨c, hstored, hid.symm.trans hcr.2, ⟨fr', hrow, rfl, rfl⟩,
    Db.rowNumber (Db.refsToChunk chunkId db) cr', cr'.fileOffset, ?_⟩
  rw [fileChunkOf, StoredChunk.locationAt]
  simp only [hid, hsize]
  rfl

/-- The number of a lookup is that of the chunk in its revision. -/
def Numbered (chunkId : Bytes) (db : FileDb) (chunk : Db.ChunkLookupRecord) : Prop :=
  ((Db.refsOf chunk.revisionId db)[chunk.chunkIndex.toNat]?).map (·.chunkId) = some chunkId

instance (chunkId : Bytes) (db : FileDb) (chunk : Db.ChunkLookupRecord) :
    Decidable (Numbered chunkId db chunk) :=
  inferInstanceAs (Decidable (_ = _))

/-- Then the bytes of the chunk are those of the revision at the number. -/
theorem FoundChunk.pieceAt (separate : Separate C all) {db : FileDb}
    (hrevisions : RevisionsInv C chunks db) (hsub : ∀ c ∈ chunks, c ∈ all) {chunkId : Bytes}
    {chunk : Db.ChunkLookupRecord} {c : StoredChunk} (h : FoundChunk C chunks db chunkId chunk c)
    (hnumber : Numbered chunkId db chunk) :
    PieceAt C chunks db chunk.revisionId chunk.chunkIndex c.plaintext := by
  obtain ⟨r, hr, hid, -⟩ := h.row
  obtain ⟨cs, hcs, hrefs, -⟩ := hrevisions.described r hr
  rw [hid] at hrefs
  obtain ⟨number, offset, hlocation⟩ := h.location
  have hindex : chunk.chunkIndex = number := congrArg (·.chunkIndex) hlocation
  rw [Numbered, refsOf_eq hrefs, hindex, Int.toNat_natCast, Option.map_eq_some_iff] at hnumber
  obtain ⟨cr, hcr, hsame⟩ := hnumber
  obtain ⟨c', hc', hid', -⟩ := hrefs.getElem? hcr
  have heq : c' = c := separate.chunkId c' (hsub c' (hcs c' (List.mem_of_getElem? hc'))) c
    (hsub c h.stored) (FixedBytes.ext (hid'.symm.trans (hsame.trans h.chunkId.symm)))
  exact ⟨⟨r, hr, hid⟩, cs, hcs, hrefs, number, c', hindex, hc', by rw [heq]⟩

end OmniDrive
