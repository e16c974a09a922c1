import OmniDrive.Storage.Downloader
import OmniDrive.Storage.RevisionOutcome

/-!
# What reading a pack does

The key of a stored pack is found by its binding, and its record is found in the spool or rebuilt
from enough of its shards. Either way the reader gets the plaintext of the chunk.
-/

namespace OmniDrive

open StatementProgram Tables ByteFields Packer

variable {P : Primitives} {C : ChunkPrimitives P} {known : Bytes → Prop} {cur vaultKey : P.Key}
  {all chunks : List StoredChunk} {ε : Type}

/-! ## The rows of a stored chunk -/

/-- Prepared shards stand in the order of their numbers. -/
theorem preparedShardsFrom_index (mode : StorageMode) (packId : String) (index : ℕ)
    (bytes : List Bytes) :
    (∀ s ∈ preparedShardsFrom C mode packId index bytes, (index : ℤ) ≤ s.shardIndex) ∧
      (preparedShardsFrom C mode packId index bytes).Pairwise
        fun a b => a.shardIndex ≤ b.shardIndex := by
  induction bytes generalizing index with
  | nil => simp [preparedShardsFrom]
  | cons b rest ih =>
    obtain ⟨hle, hpair⟩ := ih (index + 1)
    have hlater : ∀ s ∈ preparedShardsFrom C mode packId (index + 1) rest,
        (index : ℤ) ≤ s.shardIndex := by
      intro s hs
      have hs' := hle s hs
      push_cast at hs'
      omega
    rw [preparedShardsFrom, List.pairwise_cons, List.forall_mem_cons]
    exact ⟨⟨Int.le_refl _, hlater⟩, hlater, hpair⟩

section Rows

variable (separate : Separate C all) {db : FileDb} (htables : TablesInv C chunks db)
  (hsub : ∀ c ∈ chunks, c ∈ all) {c : StoredChunk} (hc : c ∈ chunks)
include separate htables hsub hc

/-- The location of a stored chunk is found by its identifier. -/
theorem find?_location :
    db.packLocations.find? (·.chunkId = (c.chunkId C).bytes) = some (c.location C) := by
  have hmem : c.location C ∈ db.packLocations := by
    rw [htables.locations]
    exact List.mem_map_of_mem hc
  apply find?_of_unique PackLocation.chunkId hmem
  intro row hrow hkey
  rw [htables.locations] at hrow
  obtain ⟨c', hc', hloc⟩ := List.mem_map.mp hrow
  rw [← hloc] at hkey
  have hsame := separate.chunkId c' (hsub c' hc') c (hsub c hc) (FixedBytes.ext hkey)
  rw [← hloc, hsame]

/-- The DEK of a stored chunk is bound to its pack. -/
theorem packDekId_eq : Db.packDekId (c.packId C) db = some c.dekId := by
  have hmem : c.binding C ∈ db.packDeks := by
    rw [htables.bindings]
    exact List.mem_map_of_mem hc
  have hfound : db.packDeks.find? (·.packId = c.packId C) = some (c.binding C) := by
    apply find?_of_unique PackDek.packId hmem
    intro row hrow hkey
    rw [htables.bindings] at hrow
    obtain ⟨c', hc', hbind⟩ := List.mem_map.mp hrow
    rw [← hbind] at hkey
    have hsame := separate.packId c' (hsub c' hc') c (hsub c hc) hkey
    rw [← hbind, hsame]
  rw [Db.packDekId, hfound]
  rfl

/-- The pack of a stored chunk is found by its identifier. -/
theorem find?_pack : ∃ pack, Db.packOf (c.packId C) db = some pack ∧
    pack.core = (c.record C).core := by
  have hmem : (c.record C).core ∈ db.packs.map PackRecord.core := by
    rw [htables.packs]
    exact List.mem_map_of_mem hc
  obtain ⟨stored, hstored, hcore⟩ := List.mem_map.mp hmem
  have hid : stored.packId = c.packId C := congrArg (·.packId) hcore
  rcases hfound : Db.packOf (c.packId C) db with _ | pack
  · have hnone := List.find?_eq_none.mp hfound stored hstored
    exact absurd (by simpa using hid) hnone
  · have hkey := List.find?_some hfound
    rw [decide_eq_true_eq] at hkey
    obtain ⟨c', hc', hcore'⟩ := htables.exists_chunk (List.mem_of_find?_eq_some hfound)
    have hid' : pack.packId = c'.packId C := congrArg (·.packId) hcore'
    have hsame := separate.packId c' (hsub c' hc') c (hsub c hc) (hid'.symm.trans hkey)
    rw [hsame] at hcore'
    exact ⟨pack, rfl, hcore'⟩

/-- The shards of a stored chunk in the order of their numbers, up to what uploads change. -/
theorem shardsOf_core (hnodup : chunks.Nodup) :
    (Db.shardsOf (c.packId C) db).map PackShardRecord.core =
      (c.shardRecords C).map PackShardRecord.core := by
  have hfilter : (db.packShards.filter (·.packId = c.packId C)).map PackShardRecord.core =
      (db.packShards.map PackShardRecord.core).filter (·.packId = c.packId C) := by
    rw [List.filter_map]
    rfl
  have hgroup : (chunks.flatMap fun c => (c.shardRecords C).map PackShardRecord.core).filter
      (·.packId = c.packId C) = (c.shardRecords C).map PackShardRecord.core := by
    apply filter_flatMap_of_unique PackShardRecord.packId (fun c : StoredChunk => c.packId C) hnodup hc
    · intro c' _ s hs
      obtain ⟨row, hrow, hcore⟩ := List.mem_map.mp hs
      obtain ⟨shard, -, hshard⟩ := List.mem_map.mp hrow
      rw [← hcore, ← hshard]
      rfl
    · intro c' hc' hkey
      exact separate.packId c' (hsub c' hc') c (hsub c hc) hkey
  have hsorted : ((c.shardRecords C).map PackShardRecord.core).Pairwise
      fun a b => a.shardIndex ≤ b.shardIndex := by
    rw [List.pairwise_map, StoredChunk.shardRecords, List.pairwise_map]
    exact (preparedShardsFrom_index c.storageMode (c.packId C) 0 (c.shardFiles C)).2
  rw [Db.shardsOf, map_orderBy PackShardRecord.shardIndex PackShardRecord.shardIndex PackShardRecord.core
    PackShardRecord.shardIndex_core, hfilter, htables.shards,
    hgroup, orderBy_eq_self hsorted]

end Rows

/-! ## The key -/

/-- A row wrapped under the envelope key unwraps to its DEK. -/
theorem run_unwrapDekBytes_of_wrapped (keys : P.Ideal) {vault : VaultWorld P}
    (hopen : VaultOpen cur vaultKey vault) {row : WrappedDekRecord P} {dek : P.Key}
    (hrow : VaultKeyStore.WrappedUnder cur row dek) :
    (VaultKeyStore.unwrapDekBytes row.wrappedDek).run vault = (.ok dek, vault) := by
  have henvelope := hopen.envelope
  rcases hinner : vault.inner with _ | unlocked
  · rw [hinner] at henvelope
    cases henvelope
  rw [hinner, Option.bind_some] at henvelope
  rw [VaultKeyStore.run_unwrapDekBytes hinner]
  exact ⟨cur, henvelope, Or.inl ((hrow.opensUnder_iff keys).mpr ⟨rfl, rfl⟩)⟩

/-- The key of a stored pack is the DEK of its chunk. -/
theorem run_packDek (keys : P.Ideal) (separate : Separate C all) {w : FileWorld P}
    (hstore : StoreInv C known cur vaultKey all chunks w) {c : StoredChunk} (hc : c ∈ chunks) :
    (Downloader.packDek (c.packId C) : FileProg P ε _).run w =
      (.ok (some (P.randomKey c.keyDraw)), w) := by
  obtain ⟨row, hrow, hwrapped⟩ := hstore.files.deks c (hstore.subset c hc)
  have hbinding := packDekId_eq separate hstore.tables hstore.subset hc
  have hfind : (onVault id (Db.getWrappedDekById c.dekId) : FileProg P VaultError _).run w =
      (.ok (some row), w) := by
    have hselect : (Db.getWrappedDekById c.dekId).run w.vault = (.ok (some row), w.vault) := by
      rw [Db.getWrappedDekById, run_selectDb, hrow]
    rw [run_onVault, hselect]
    rfl
  have hunwrap : (onVault id (VaultKeyStore.unwrapDekBytes row.wrappedDek) :
      FileProg P VaultError _).run w = (.ok (P.randomKey c.keyDraw), w) := by
    rw [run_onVault, run_unwrapDekBytes_of_wrapped keys hstore.files.vault hwrapped]
    rfl
  have hdek : (VaultKeyStore.dekForPack (c.packId C)).run w = (.ok (P.randomKey c.keyDraw), w) := by
    rw [VaultKeyStore.dekForPack, Db.getPackDekId, run_selectFiles_bind, hbinding]
    simp only
    rw [Prog.run_bind_of_ok hfind, Prog.ofOption_some, Prog.ret_bind, hunwrap]
  have hattempt := Prog.run_attempt (γ := ε) (VaultKeyStore.dekForPack (c.packId C)) w
  rw [hdek] at hattempt
  rw [Downloader.packDek, Prog.run_bind_of_ok hattempt]
  rfl

/-! ## The record -/

/-- These bytes are a record of the chunk. -/
def StoredChunk.IsRecord (C : ChunkPrimitives P) (c : StoredChunk) (bytes : Bytes) : Prop :=
  ∃ p, V2RecordOf C (P.randomKey c.keyDraw) (c.keyDraw + 1) c.plaintext bytes p

/-- The manifest is a record. -/
theorem StoredChunk.isRecord_manifest (c : StoredChunk) : c.IsRecord C (c.manifest C) :=
  ⟨_, rfl, rfl, rfl, rfl, rfl, rfl⟩

/-- What the downloader builds from the row of the pack and any ciphertext. -/
theorem StoredChunk.buildManifestBytes_eq {c : StoredChunk} {pack : PackRecord}
    (hcore : pack.core = (c.record C).core) (ciphertext : Bytes) : ∃ p : ChunkRecordPrefix,
      Downloader.buildManifestBytes pack ciphertext =
        .ok (chunkRecord p ciphertext (c.encrypted C).gcmTag) ∧
      p.recordVersion = 2 ∧ p.chunkId = c.chunkId C ∧ p.nonce = (c.encrypted C).nonce ∧
      p.plainLen = c.plaintext.length ∧ p.cipherLen = ciphertext.length := by
  have hchunkId : pack.chunkId = (c.chunkId C).bytes := congrArg (·.chunkId) hcore
  have hnonce : pack.nonce = (c.encrypted C).nonce.bytes := congrArg (·.nonce) hcore
  have htag : pack.gcmTag = (c.encrypted C).gcmTag.bytes := congrArg (·.gcmTag) hcore
  have hplain : pack.logicalSize = (c.plaintext.length : ℤ) := congrArg (·.logicalSize) hcore
  have hversion : pack.encryptionVersion = 2 := congrArg (·.encryptionVersion) hcore
  rw [Downloader.buildManifestBytes, vecToChunkId, vecToNonce, vecToGcmTag, hchunkId, hnonce, htag,
    hplain, hversion]
  simp only [fixedField_bytes, toUsize_natCast, Prog.except_ok_bind]
  rw [if_pos (by decide)]
  exact ⟨_, rfl, rfl, rfl, rfl, rfl, rfl⟩

/-- The downloader rebuilds a record from the row of the pack and the ciphertext. -/
theorem StoredChunk.buildManifestBytes {c : StoredChunk} {pack : PackRecord}
    (hcore : pack.core = (c.record C).core) : ∃ bytes,
      Downloader.buildManifestBytes pack (c.encrypted C).ciphertext = .ok bytes ∧
        c.IsRecord C bytes := by
  obtain ⟨p, hbuild, hversion, hid, hnonce, hplain, hcipher⟩ :=
    StoredChunk.buildManifestBytes_eq hcore (c.encrypted C).ciphertext
  exact ⟨_, hbuild, p, rfl, hversion, hid, hnonce, hplain, hcipher⟩

/-- A record of a stored chunk decrypts to its plaintext at the location of the chunk. -/
theorem StoredChunk.IsRecord.decrypt (ideal : C.Ideal) {c : StoredChunk} {bytes : Bytes}
    (h : c.IsRecord C bytes) (hfits : c.plaintext.length + 96 < 2 ^ 63)
    {location : FileChunkLocation} (hid : location.chunkId = (c.chunkId C).bytes)
    (hsize : location.size = c.plaintext.length) (hoffset : location.packOffset = 0)
    (hencrypted : location.encryptedSize = (c.manifest C).length) (vaultKey : P.Key) :
    Downloader.decryptChunkRecord C bytes location vaultKey (some (P.randomKey c.keyDraw)) =
      .ok c.plaintext := by
  obtain ⟨p, hrecord⟩ := h
  have hlength : bytes.length = (c.manifest C).length := by
    rw [hrecord.record_eq, length_chunkRecord, c.length_manifest]
    rfl
  apply hrecord.decrypt ideal (by omega) ⟨hoffset, by rw [hencrypted, hlength]⟩ _ hsize
  rw [hid, hrecord.chunkId]
  rfl

/-! ## The shards -/

open Downloader

/-- A request for this shard is answered. -/
def Available (net : Network) (w : FileWorld P) (shard : PackShardRecord) : Bool :=
  net.configured shard.provider && net.delivers shard.provider shard.objectKey &&
    (w.objects shard.provider shard.objectKey).isSome

/-- Slots that hold these files or nothing. -/
def SlotsHold (files : List Bytes) (slots : List (Option Bytes)) : Prop :=
  List.Forall₂ (fun slot file => slot = none ∨ slot = some file) slots files

/-- The slot with this number holds something. -/
def Filled (slots : List (Option Bytes)) (i : ℕ) : Prop := (slots.getD i none).isSome = true

/-- Empty slots hold any files. -/
theorem slotsHold_replicate (files : List Bytes) :
    SlotsHold files (List.replicate files.length none) := by
  induction files with
  | nil => exact .nil
  | cons file rest ih => exact .cons (Or.inl rfl) ih

/-- A slot may be filled with its own file. -/
theorem SlotsHold.set {files : List Bytes} {slots : List (Option Bytes)}
    (h : SlotsHold files slots) {i : ℕ} {file : Bytes} (hfile : files[i]? = some file) :
    SlotsHold files (slots.set i (some file)) := by
  induction h generalizing i with
  | nil => cases hfile
  | @cons slot first slots files hhead htail ih =>
    cases i with
    | zero =>
      have hsame : first = file := Option.some.inj hfile
      exact .cons (Or.inr (congrArg some hsame.symm)) htail
    | succ i => exact .cons hhead (ih hfile)

/-- Filling a slot empties none. -/
theorem Filled.set {slots : List (Option Bytes)} {i : ℕ} (h : Filled slots i) (j : ℕ)
    (file : Bytes) : Filled (slots.set j (some file)) i := by
  unfold Filled at h ⊢
  rw [List.getD_eq_getElem?_getD] at h ⊢
  rw [List.getElem?_set]
  split
  · split
    · rfl
    · rename_i hlen
      rw [List.getElem?_eq_none (by omega)] at h
      cases h
  · exact h

/-- A filled slot is filled. -/
theorem filled_set_self {slots : List (Option Bytes)} {i : ℕ} (h : i < slots.length)
    (file : Bytes) : Filled (slots.set i (some file)) i := by
  unfold Filled
  rw [List.getD_eq_getElem?_getD, List.getElem?_set_self h]
  rfl

/-- A request is answered with the object or refused. -/
theorem run_downloadShard (net : Network) (shard : PackShardRecord) (w : FileWorld P) :
    ∃ r, (downloadShard net shard : FileProg P ε _).run w = (.ok r, w) ∧
      (∀ b, r = .ok b → w.objects shard.provider shard.objectKey = some b) ∧
      (Available net w shard = true → ∃ b, r = .ok b) := by
  rw [downloadShard, Prog.run_query_bind]
  rcases hobject : w.objects shard.provider shard.objectKey with _ | bytes
  · refine ⟨_, rfl, fun b h => (by cases h), fun h => ?_⟩
    simp [Available, hobject] at h
  · by_cases hdelivers : net.delivers shard.provider shard.objectKey = true
    · refine ⟨.ok bytes, ?_, fun b h => congrArg some (Except.ok.inj h), fun _ => ⟨bytes, rfl⟩⟩
      simp [hdelivers]
    · refine ⟨.error (net.message shard.provider shard.objectKey), ?_, fun b h => (by cases h),
        fun h => ?_⟩
      · simp [hdelivers]
      · simp [Available, hdelivers] at h

/-- Asking for the shards fills slots with the right files, until there are enough or nothing that
is available is missing. -/
theorem run_fetchShards (net : Network) (required : ℕ) {files : List Bytes} {w : FileWorld P}
    {rest : List PackShardRecord}
    (hshards : ∀ s ∈ rest, ∃ i : ℕ, s.shardIndex = i ∧ i < files.length ∧
      ∀ b, w.objects s.provider s.objectKey = some b → files[i]? = some b)
    {fetched : FetchedShards} (hslots : SlotsHold files fetched.slots) : ∃ fetched',
      (fetchShards net required fetched rest).run w = (.ok fetched', w) ∧
        SlotsHold files fetched'.slots ∧ (∀ i, Filled fetched.slots i → Filled fetched'.slots i) ∧
        (required ≤ fetched'.slots.countP Option.isSome ∨
          ∀ s ∈ rest, Available net w s = true → Filled fetched'.slots s.shardIndex.toNat) := by
  induction rest generalizing fetched with
  | nil =>
    refine ⟨fetched, rfl, hslots, fun _ h => h, Or.inr fun s hs => ?_⟩
    cases hs
  | cons shard rest ih =>
    have hrest : ∀ s ∈ rest, ∃ i : ℕ, s.shardIndex = i ∧ i < files.length ∧
        ∀ b, w.objects s.provider s.objectKey = some b → files[i]? = some b :=
      fun s hs => hshards s (List.mem_cons_of_mem _ hs)
    obtain ⟨i, hindex, hlt, hobject⟩ := hshards shard List.mem_cons_self
    have hlength : fetched.slots.length = files.length := hslots.length_eq
    have htoNat : shard.shardIndex.toNat = i := by rw [hindex, Int.toNat_natCast]
    -- what the remaining requests reach holds of all of them once the slot of this one is settled
    have hextend : ∀ {middle final : FetchedShards},
        (Available net w shard = true → Filled middle.slots i) →
        (∀ j, Filled middle.slots j → Filled final.slots j) →
        (required ≤ final.slots.countP Option.isSome ∨
          ∀ s ∈ rest, Available net w s = true → Filled final.slots s.shardIndex.toNat) →
        required ≤ final.slots.countP Option.isSome ∨ ∀ s ∈ shard :: rest,
          Available net w s = true → Filled final.slots s.shardIndex.toNat := by
      intro middle final hmiddle hfinal hreached
      rcases hreached with henough | hall
      · exact Or.inl henough
      · right
        intro s hs havailable
        rcases List.mem_cons.mp hs with hhead | htail
        · rw [hhead] at havailable ⊢
          rw [htoNat]
          exact hfinal i (hmiddle havailable)
        · exact hall s htail havailable
    rw [fetchShards, hindex, toUsize_natCast, Prog.ofExcept_ok, Prog.ret_bind]
    by_cases hskip : fetched.slots.length ≤ i ∨ (fetched.slots.getD i none).isSome = true
    · rw [if_pos hskip]
      have hfilled : Filled fetched.slots i := by
        rcases hskip with hout | hfilled
        · omega
        · exact hfilled
      obtain ⟨final, hrun, hhold, hmono, hreached⟩ := ih hrest hslots
      exact ⟨final, hrun, hhold, hmono, hextend (fun _ => hfilled) hmono hreached⟩
    rw [if_neg hskip]
    obtain ⟨r, hanswer, hbytes, havailable⟩ := run_downloadShard (ε := DownloaderError) net shard w
    rw [Prog.run_bind_of_ok hanswer]
    rcases r with err | bytes
    · have hsame : SlotsHold files (fetched.addError shard err).slots := hslots
      have hrefused : Available net w shard = true → Filled fetched.slots i := by
        intro h
        obtain ⟨b, hb⟩ := havailable h
        cases hb
      obtain ⟨final, hrun, hhold, hmono, hreached⟩ := ih hrest hsame
      exact ⟨final, hrun, hhold, hmono, hextend hrefused hmono hreached⟩
    · have hadded : SlotsHold files (fetched.add shard i bytes).slots :=
        hslots.set (hobject bytes (hbytes bytes rfl))
      have hself : Filled (fetched.add shard i bytes).slots i :=
        filled_set_self (by omega) bytes
      have hkeep : ∀ j, Filled fetched.slots j → Filled (fetched.add shard i bytes).slots j :=
        fun j hj => hj.set i bytes
      by_cases henough : required ≤ (fetched.add shard i bytes).slots.countP Option.isSome
      · simp only [if_pos henough]
        exact ⟨_, rfl, hadded, hkeep, Or.inl henough⟩
      · simp only [if_neg henough]
        obtain ⟨final, hrun, hhold, hmono, hreached⟩ := ih hrest hadded
        exact ⟨final, hrun, hhold, fun j hj => hmono j (hkeep j hj),
          hextend (fun _ => hself) hmono hreached⟩

/-! ## Downloading -/

/-- The prepared shard with a number is made from the file with that number. -/
theorem getElem?_preparedShardsFrom (mode : StorageMode) (packId : String) (index i : ℕ)
    (bytes : List Bytes) : (preparedShardsFrom C mode packId index bytes)[i]? =
      bytes[i]?.map (preparedShard C mode packId (index + i)) := by
  induction bytes generalizing index i with
  | nil => rfl
  | cons b rest ih =>
    cases i with
    | zero => rfl
    | succ i =>
      rw [preparedShardsFrom, List.getElem?_cons_succ, List.getElem?_cons_succ, ih]
      congr 2
      omega

/-- If the slots of all available shards are filled, there are as many filled slots. -/
theorem countP_available_le {net : Network} {w : FileWorld P} {shards : List PackShardRecord}
    {slots : List (Option Bytes)} (hlength : shards.length = slots.length)
    (h : ∀ i shard, shards[i]? = some shard → Available net w shard = true → Filled slots i) :
    shards.countP (Available net w) ≤ slots.countP Option.isSome := by
  induction shards generalizing slots with
  | nil => exact Nat.zero_le _
  | cons shard rest ih =>
    cases slots with
    | nil => cases hlength
    | cons slot slots =>
      have htail : rest.countP (Available net w) ≤ slots.countP Option.isSome := by
        apply ih (by simpa using hlength)
        intro i s hs havailable
        exact h (i + 1) s hs havailable
      have hhead : Available net w shard = true → slot.isSome = true := h 0 shard rfl
      rw [List.countP_cons, List.countP_cons]
      by_cases havailable : Available net w shard = true
      · rw [if_pos havailable, if_pos (hhead havailable)]
        omega
      · rw [if_neg havailable]
        split <;> omega

/-- A remote pack needs a shard. -/
theorem requiredShards_pos {mode : StorageMode} (hremote : mode ≠ .localOnly) :
    0 < requiredShards mode := by
  cases mode with
  | ec21 => decide
  | singleReplica => decide
  | localOnly => exact absurd rfl hremote

/-- An available shard is asked for. -/
theorem mem_candidates_of_available {net : Network} {w : FileWorld P}
    {shards : List PackShardRecord} {shard : PackShardRecord} (hmem : shard ∈ shards)
    (havailable : Available net w shard = true) : shard ∈ candidates net shards := by
  simp only [Available, Bool.and_eq_true] at havailable
  rw [candidates, mem_orderBy, List.mem_filter]
  exact ⟨hmem, havailable.1.1⟩

/-- A remote pack with enough available shards has a shard to ask for. -/
theorem exists_candidate_of_enough {net : Network} {w : FileWorld P} {mode : StorageMode}
    (hremote : mode ≠ .localOnly) {shards : List PackShardRecord}
    (henough : requiredShards mode ≤ shards.countP (Available net w)) :
    shards.isEmpty = false ∧ (candidates net shards).isEmpty = false := by
  obtain ⟨shard, hshard, havailable⟩ :=
    List.countP_pos_iff.mp (Nat.lt_of_lt_of_le (requiredShards_pos hremote) henough)
  rw [List.isEmpty_eq_false_iff_exists_mem, List.isEmpty_eq_false_iff_exists_mem]
  exact ⟨⟨shard, hshard⟩, shard, mem_candidates_of_available hshard havailable⟩

/-- A shard row of a stored chunk with its number and its object. -/
structure ShardAt (C : ChunkPrimitives P) (c : StoredChunk) (i : ℕ) (shard : PackShardRecord) :
    Prop where
  index : shard.shardIndex = i
  key : shard.objectKey = ⟨c.packId C, i⟩
  bound : i < (c.shardFiles C).length

section Download

variable (separate : Separate C all) {w : FileWorld P}
  (hstore : StoreInv C known cur vaultKey all chunks w) {c : StoredChunk} (hc : c ∈ chunks)
include separate hstore hc

/-- The rows of the shards of a stored chunk stand at their numbers. -/
theorem shardAt_of_getElem? {i : ℕ} {shard : PackShardRecord}
    (h : (Db.shardsOf (c.packId C) w.db)[i]? = some shard) : ShardAt C c i shard := by
  have hrows := shardsOf_core separate hstore.tables hstore.subset hc hstore.nodup
  have hcore : ((c.shardRecords C).map PackShardRecord.core)[i]? = some shard.core := by
    rw [← hrows, List.getElem?_map, h]
    rfl
  rw [StoredChunk.shardRecords, StoredChunk.shards, List.getElem?_map, List.getElem?_map,
    getElem?_preparedShardsFrom, Nat.zero_add] at hcore
  rcases hfile : (c.shardFiles C)[i]? with _ | b
  · rw [hfile] at hcore
    cases hcore
  rw [hfile] at hcore
  have hrow := Option.some.inj hcore
  constructor
  · exact (congrArg (·.shardIndex) hrow).symm
  · exact (congrArg (·.objectKey) hrow).symm
  · exact (List.getElem?_eq_some_iff.mp hfile).1

/-- A stored chunk has a row for each of its shards. -/
theorem length_shardsOf : (Db.shardsOf (c.packId C) w.db).length = (c.shardFiles C).length := by
  have hrows := congrArg List.length
    (shardsOf_core separate hstore.tables hstore.subset hc hstore.nodup)
  rw [List.length_map, List.length_map, StoredChunk.shardRecords, StoredChunk.shards,
    List.length_map] at hrows
  rw [hrows]
  clear hrows
  generalize (0 : ℕ) = index
  induction c.shardFiles C generalizing index with
  | nil => rfl
  | cons b rest ih => rw [preparedShardsFrom, List.length_cons, List.length_cons, ih]

/-- The objects of the shards of a stored chunk are its files. -/
theorem object_eq {i : ℕ} {shard : PackShardRecord} (hshard : ShardAt C c i shard) {b : Bytes}
    (hb : w.objects shard.provider shard.objectKey = some b) : (c.shardFiles C)[i]? = some b := by
  obtain ⟨c', hc', hpack, hfile⟩ := hstore.files.objects _ _ _ hb
  rw [hshard.key] at hpack hfile
  rw [separate.packId c (hstore.subset c hc) c' hc' hpack]
  exact hfile

/-- The candidates for the shards of a stored chunk. -/
theorem candidates_spec (net : Network) :
    ∀ s ∈ candidates net (Db.shardsOf (c.packId C) w.db), ∃ i : ℕ, s.shardIndex = i ∧
      i < (c.shardFiles C).length ∧
        ∀ b, w.objects s.provider s.objectKey = some b → (c.shardFiles C)[i]? = some b := by
  intro s hs
  rw [candidates, mem_orderBy, List.mem_filter] at hs
  obtain ⟨i, hi⟩ := List.mem_iff_getElem?.mp hs.1
  have hshard := shardAt_of_getElem? separate hstore hc hi
  exact ⟨i, hshard.index, hshard.bound, fun b hb => object_eq separate hstore hc hshard hb⟩

/-- Where enough shards are available, enough of them are fetched. -/
theorem run_fetchShards_of_enough (net : Network) {required : ℕ}
    (henough : required ≤ (Db.shardsOf (c.packId C) w.db).countP (Available net w))
    {fetched : FetchedShards} (hslots : SlotsHold (c.shardFiles C) fetched.slots) : ∃ fetched',
      (fetchShards net required fetched (candidates net (Db.shardsOf (c.packId C) w.db))).run w =
          (.ok fetched', w) ∧ SlotsHold (c.shardFiles C) fetched'.slots ∧
        required ≤ fetched'.slots.countP Option.isSome := by
  obtain ⟨final, hrun, hhold, -, hreached⟩ :=
    run_fetchShards net required (candidates_spec separate hstore hc net) hslots
  refine ⟨final, hrun, hhold, ?_⟩
  rcases hreached with hdone | hall
  · exact hdone
  apply Nat.le_trans henough
  apply countP_available_le
  · rw [length_shardsOf separate hstore hc, hhold.length_eq]
  · intro i shard hi havailable
    have hcandidate : shard ∈ candidates net (Db.shardsOf (c.packId C) w.db) := by
      rw [candidates, mem_orderBy, List.mem_filter]
      have hconfigured := havailable
      simp only [Available, Bool.and_eq_true] at hconfigured
      exact ⟨List.mem_iff_getElem?.mpr ⟨i, hi⟩, hconfigured.1.1⟩
    have hfilled := hall shard hcandidate havailable
    rw [(shardAt_of_getElem? separate hstore hc hi).index, Int.toNat_natCast] at hfilled
    exact hfilled

omit separate hstore hc in
/-- The ciphertext of a chunk comes back from enough of its shards. -/
theorem ciphertextOf_slots (ideal : C.Ideal) (hremote : c.storageMode ≠ .localOnly)
    {pack : PackRecord} (hcore : pack.core = (c.record C).core) {slots : List (Option Bytes)}
    (hslots : SlotsHold (c.shardFiles C) slots)
    (henough : requiredShards c.storageMode ≤ slots.countP Option.isSome) :
    ciphertextOf C pack slots = .ok (c.encrypted C).ciphertext := by
  have hmode : pack.storageMode = c.storageMode := congrArg (·.storageMode) hcore
  have hshard : pack.shardSize = c.shardSize C := congrArg (·.shardSize) hcore
  have hcipher : pack.cipherSize = (c.encrypted C).ciphertext.length :=
    congrArg (·.cipherSize) hcore
  rw [ciphertextOf, hmode]
  rcases hc : c.storageMode with _ | _ | _
  · have hfiles : c.shardFiles C = splitCiphertextIntoShards C (c.encrypted C).ciphertext := by
      rw [StoredChunk.shardFiles, hc, shardBytes]
    have hlen : c.shardSize C = shardLen (c.encrypted C).ciphertext := by
      simp [StoredChunk.shardSize, hc, hfiles, splitCiphertextIntoShards]
    rw [hc] at henough
    rw [hfiles] at hslots
    exact reconstructCiphertext_of_two ideal (hshard.trans hlen) hcipher hslots henough
  · have hfiles : c.shardFiles C = [(c.encrypted C).ciphertext] := by
      rw [StoredChunk.shardFiles, hc, shardBytes]
    rw [hc] at henough
    rw [hfiles] at hslots
    obtain _ | ⟨hslot, hrest⟩ := hslots
    cases hrest
    rcases hslot with hnone | hsome
    · rw [hnone] at henough
      cases henough
    · rw [hsome]
      rfl
  · exact absurd hc hremote

omit separate hstore hc in
/-- There is a slot for every shard of a remote pack. -/
theorem length_shardFiles (hremote : c.storageMode ≠ .localOnly) :
    (c.shardFiles C).length = shardSlots c.storageMode := by
  rcases hmode : c.storageMode with _ | _ | _
  · rw [StoredChunk.shardFiles, hmode]
    rfl
  · rw [StoredChunk.shardFiles, hmode]
    rfl
  · exact absurd hmode hremote

/-- A remote pack with enough available shards is downloaded to a record of its chunk. -/
theorem run_downloadRemotePack (ideal : C.Ideal) (net : Network)
    (hremote : c.storageMode ≠ .localOnly) {pack : PackRecord}
    (hcore : pack.core = (c.record C).core)
    (henough : requiredShards c.storageMode ≤
      (Db.shardsOf (c.packId C) w.db).countP (Available net w)) : ∃ source bytes,
      (downloadRemotePack C net pack).run w = (.ok source,
        { w with downloads := Function.update w.downloads (c.packId C) (some bytes) }) ∧
      c.IsRecord C bytes ∧ source.localPath = .download (c.packId C) := by
  have hid : pack.packId = c.packId C := congrArg (·.packId) hcore
  have hmode : pack.storageMode = c.storageMode := congrArg (·.storageMode) hcore
  obtain ⟨hshards, hcandidates⟩ := exists_candidate_of_enough hremote henough
  have hslots : SlotsHold (c.shardFiles C)
      ({ slots := List.replicate (shardSlots c.storageMode) none } : FetchedShards).slots := by
    rw [← length_shardFiles (C := C) hremote]
    exact slotsHold_replicate _
  obtain ⟨fetched, hrun, hhold, hcount⟩ :=
    run_fetchShards_of_enough separate hstore hc net henough hslots
  obtain ⟨bytes, hbuild, hrecord⟩ := StoredChunk.buildManifestBytes hcore
  refine ⟨{ packId := c.packId C, providers := fetched.downloadedFrom,
            localPath := .download (c.packId C) }, bytes, ?_, hrecord, rfl⟩
  rw [downloadRemotePack, hid, Db.getPackShards, run_selectFiles_bind]
  simp only [hshards, hcandidates, hmode, Bool.false_eq_true, if_false]
  rw [Prog.run_bind_of_ok hrun, if_neg (Nat.not_lt.mpr hcount),
    ciphertextOf_slots ideal hremote hcore hhold hcount, Prog.ofExcept_ok, Prog.ret_bind, hbuild,
    Prog.ofExcept_ok, Prog.ret_bind]
  rfl

end Download

/-! ## Reading the chunks of a file -/

/-- The location of a stored chunk in a file. -/
def StoredChunk.locationAt (C : ChunkPrimitives P) (c : StoredChunk) (index : ℕ) (offset : ℤ) :
    FileChunkLocation :=
  { chunkId := (c.chunkId C).bytes
    chunkIndex := index
    fileOffset := offset
    size := c.plaintext.length
    packId := c.packId C
    packOffset := 0
    encryptedSize := (c.manifest C).length }

/-- The files of a world with more downloads. -/
def FileWorld.withDownloads (w : FileWorld P) (downloads : String → Option Bytes) : FileWorld P :=
  { w with downloads }

/-- The pack of a chunk is local, is downloaded already, or has enough available shards. -/
def Obtainable (C : ChunkPrimitives P) (net : Network) (w : FileWorld P) (c : StoredChunk) : Prop :=
  c.storageMode = .localOnly ∨ (w.downloads (c.packId C)).isSome ∨
    requiredShards c.storageMode ≤ (Db.shardsOf (c.packId C) w.db).countP (Available net w)

/-- A source of a pack holds a record of its chunk. -/
def SourceHolds (C : ChunkPrimitives P) (c : StoredChunk) (source : RestoredPackSource)
    (w : FileWorld P) : Prop :=
  ∃ bytes, spoolFile source.localPath w = some bytes ∧ c.IsRecord C bytes

/-- The downloads of a call: the store is in order, everything that was downloaded stays, and the
sources taken over so far hold records of their chunks. -/
structure Restoring (C : ChunkPrimitives P) (known : Bytes → Prop) (cur vaultKey : P.Key)
    (all chunks : List StoredChunk) (start : FileWorld P) (downloaded : DownloadedPacks)
    (w : FileWorld P) : Prop where
  store : StoreInv C known cur vaultKey all chunks w
  world : ∃ downloads, w = start.withDownloads downloads
  kept : ∀ packId, (start.downloads packId).isSome = true → (w.downloads packId).isSome = true
  sources : ∀ c ∈ chunks, ∀ source, downloaded.lookup (c.packId C) = some source →
    SourceHolds C c source w

section Read

variable (separate : Separate C all) {start w : FileWorld P} {downloaded : DownloadedPacks}
  (h : Restoring C known cur vaultKey all chunks start downloaded w) {c : StoredChunk}
  (hc : c ∈ chunks)

/-- What could be obtained at the start of a call can be obtained later on. -/
theorem Restoring.obtainable {net : Network}
    (h : Restoring C known cur vaultKey all chunks start downloaded w)
    (hobtain : Obtainable C net start c) : Obtainable C net w c := by
  obtain ⟨downloads, hw⟩ := h.world
  rcases hobtain with hlocal | hdownloaded | henough
  · exact Or.inl hlocal
  · exact Or.inr (Or.inl (h.kept _ hdownloaded))
  · rw [hw]
    exact Or.inr (Or.inr henough)

/-- A download of a record keeps the store in order. -/
theorem StoreInv.withDownload (hstore : StoreInv C known cur vaultKey all chunks w)
    (hc : c ∈ chunks) {bytes : Bytes} (hrecord : c.IsRecord C bytes) :
    StoreInv C known cur vaultKey all chunks
      (w.withDownloads (Function.update w.downloads (c.packId C) (some bytes))) where
  files := by
    refine ⟨hstore.files.vault, hstore.files.drawn, hstore.files.distinct, hstore.files.known,
      hstore.files.deks, hstore.files.manifests, hstore.files.shards, hstore.files.objects, ?_⟩
    intro packId b hb
    change Function.update w.downloads (c.packId C) (some bytes) packId = some b at hb
    rw [Function.update_apply] at hb
    split at hb
    · rename_i hsame
      cases hb
      exact ⟨c, hstore.subset c hc, hsame, hrecord⟩
    · exact hstore.files.downloads packId b hb
  tables := hstore.tables
  revisions := hstore.revisions
  subset := hstore.subset
  nodup := hstore.nodup
  fits := hstore.fits

include separate h hc

/-- A pack that can be obtained is found or downloaded. -/
theorem run_downloadPack (ideal : C.Ideal) {net : Network} (hobtain : Obtainable C net w c) :
    ∃ source w', (downloadPack C net (c.packId C)).run w = (.ok source, w') ∧
      Restoring C known cur vaultKey all chunks start downloaded w' ∧
      SourceHolds C c source w' := by
  obtain ⟨pack, hpack, hcore⟩ := find?_pack separate h.store.tables h.store.subset hc
  have hmode : pack.storageMode = c.storageMode := congrArg (·.storageMode) hcore
  rw [downloadPack, Db.getPack, run_selectFiles_bind, hpack, Prog.ofOption_some, Prog.ret_bind]
  by_cases hlocal : c.storageMode = .localOnly
  · have hmanifest := h.store.files.manifests c (h.store.subset c hc) hlocal
    rw [if_pos (hmode.trans hlocal), Prog.run_query_bind, hmanifest]
    exact ⟨_, w, rfl, h, c.manifest C, hmanifest, c.isRecord_manifest⟩
  rw [if_neg (fun heq => hlocal (hmode.symm.trans heq)), Prog.run_query_bind]
  rcases hdownload : w.downloads (c.packId C) with _ | bytes
  · have henough : requiredShards c.storageMode ≤
        (Db.shardsOf (c.packId C) w.db).countP (Available net w) := by
      rcases hobtain with hmode' | hdownloaded | henough
      · exact absurd hmode' hlocal
      · rw [hdownload] at hdownloaded
        cases hdownloaded
      · exact henough
    obtain ⟨source, bytes, hrun, hrecord, hpath⟩ :=
      run_downloadRemotePack separate h.store hc ideal net hlocal hcore henough
    refine ⟨source, w.withDownloads (Function.update w.downloads (c.packId C) (some bytes)), hrun,
      ?_, bytes, ?_, hrecord⟩
    · obtain ⟨downloads, hw⟩ := h.world
      refine ⟨h.store.withDownload hc hrecord, ⟨_, by rw [hw]; rfl⟩, fun packId hsome => ?_,
        fun c' hc' source' hlookup => ?_⟩
      · show (Function.update w.downloads (c.packId C) (some bytes) packId).isSome = true
        rw [Function.update_apply]
        split
        · rfl
        · exact h.kept packId hsome
      · obtain ⟨b, hb, hrecord'⟩ := h.sources c' hc' source' hlookup
        refine ⟨b, ?_, hrecord'⟩
        rw [← hb]
        rcases hfile : source'.localPath with packId | packId
        · rfl
        · rw [hfile] at hb
          have hother : packId ≠ c.packId C := by
            intro heq
            rw [heq] at hb
            exact absurd (hdownload.symm.trans hb) (by simp)
          exact Function.update_of_ne hother _ _
    · rw [hpath]
      exact Function.update_self _ _ _
  · obtain ⟨c', hc', hid, hrecord⟩ := h.store.files.downloads _ _ hdownload
    rw [← separate.packId c (h.store.subset c hc) c' hc' hid] at hrecord
    exact ⟨_, w, rfl, h, bytes, hdownload, hrecord⟩

/-- The source of a pack that can be obtained holds a record of its chunk. -/
theorem run_packSource (ideal : C.Ideal) {net : Network} (hobtain : Obtainable C net w c) :
    ∃ source downloaded' w',
      (packSource C net downloaded (c.packId C)).run w = (.ok (source, downloaded'), w') ∧
        Restoring C known cur vaultKey all chunks start downloaded' w' ∧
        SourceHolds C c source w' := by
  rw [packSource]
  rcases hlookup : downloaded.lookup (c.packId C) with _ | existing
  · obtain ⟨source, w', hrun, hrestoring, hholds⟩ := run_downloadPack separate h hc ideal hobtain
    refine ⟨source, (c.packId C, source) :: downloaded, w', ?_, ?_, hholds⟩
    · simp only
      rw [Prog.run_bind_of_ok hrun]
      rfl
    · refine ⟨hrestoring.store, hrestoring.world, hrestoring.kept, fun c' hc' source' hlookup' => ?_⟩
      rw [List.lookup_cons] at hlookup'
      rcases hsame : (c'.packId C == c.packId C) with _ | _
      · rw [hsame] at hlookup'
        exact hrestoring.sources c' hc' source' hlookup'
      · rw [hsame] at hlookup'
        rw [← Option.some.inj hlookup', separate.packId c' (h.store.subset c' hc') c
          (h.store.subset c hc) (beq_iff_eq.mp hsame)]
        exact hholds
  · exact ⟨existing, downloaded, w, rfl, h, h.sources c hc existing hlookup⟩

/-- Reading a chunk at its location returns its plaintext. -/
theorem run_readChunk (keys : P.Ideal) (ideal : C.Ideal) {net : Network}
    (hobtain : Obtainable C net w c) (index : ℕ) (offset : ℤ) (readKey : P.Key) :
    ∃ downloaded' w',
      (readChunk C net readKey downloaded (c.locationAt C index offset)).run w =
          (.ok (c.plaintext, downloaded'), w') ∧
        Restoring C known cur vaultKey all chunks start downloaded' w' := by
  obtain ⟨source, downloaded', w', hsource, hrestoring, bytes, hbytes, hrecord⟩ :=
    run_packSource separate h hc ideal hobtain
  have hread : (readSpoolFile source.localPath).run w' = (.ok bytes, w') := by
    rw [readSpoolFile, Prog.run_query_bind, hbytes]
    rfl
  have hdek := run_packDek (ε := DownloaderError) keys separate hrestoring.store hc
  have hdecrypt : decryptChunkRecord C bytes (c.locationAt C index offset) readKey
      (some (P.randomKey c.keyDraw)) = .ok c.plaintext :=
    hrecord.decrypt ideal (h.store.fits c hc).2 rfl rfl rfl rfl readKey
  have hpack : (c.locationAt C index offset).packId = c.packId C := rfl
  refine ⟨downloaded', w', ?_, hrestoring⟩
  rw [readChunk, hpack, Prog.run_bind_of_ok hsource]
  simp only
  rw [Prog.run_bind_of_ok hread, Prog.run_bind_of_ok hdek, hdecrypt]
  rfl

end Read

/-! ## Writing the file -/

/-- The locations of chunks that follow one another. -/
def locationsFrom (C : ChunkPrimitives P) : ℕ → ℤ → List StoredChunk → List FileChunkLocation
  | _, _, [] => []
  | index, offset, c :: cs =>
    c.locationAt C index offset :: locationsFrom C (index + 1) (offset + c.plaintext.length) cs

/-- The locations of a described revision are those of its chunks. -/
theorem locateAll_eq (separate : Separate C all) {db : FileDb} (htables : TablesInv C chunks db)
    (hsub : ∀ c ∈ chunks, c ∈ all) {cs : List StoredChunk} (hcs : ∀ c ∈ cs, c ∈ chunks)
    {rows : List ChunkRefRecord} (hrefs : RefsFrom C 0 cs rows) :
    Db.locateAll db rows = locationsFrom C 0 0 cs := by
  rw [Db.locateAll, orderBy_eq_self hrefs.pairwise.2]
  generalize (0 : ℕ) = index
  generalize (0 : ℤ) = offset at hrefs ⊢
  induction cs generalizing index offset rows with
  | nil =>
    cases rows with
    | nil => rfl
    | cons r rest => exact hrefs.elim
  | cons c cs ih =>
    cases rows with
    | nil => exact hrefs.elim
    | cons r rest =>
      obtain ⟨⟨hid, hoffset, hsize⟩, htail⟩ := hrefs
      have hfound := find?_location separate htables hsub (hcs c List.mem_cons_self)
      have hlocate : Db.locate db (r, index) = some (c.locationAt C index offset) := by
        rw [Db.locate, hid, hfound, hoffset, hsize]
        rfl
      have hrest := ih (fun c' hc' => hcs c' (List.mem_cons_of_mem _ hc')) (index + 1)
        (offset + c.plaintext.length) htail
      rw [List.zipIdx_cons, List.filterMap_cons, hlocate, locationsFrom, hrest]

/-- A write at the end of the file appends. -/
theorem writePlaintext_append (written plaintext : Bytes) {chunk : FileChunkLocation}
    (hoffset : chunk.fileOffset = written.length)
    (hfits : written.length + plaintext.length < 2 ^ 63) :
    writePlaintext chunk plaintext ⟨written, written.length⟩ =
      .ok ⟨written ++ plaintext, (written ++ plaintext).length⟩ := by
  have hdesired : toU64 chunk.fileOffset "file offset" = .ok written.length := by
    rw [toU64, hoffset, if_pos (Int.natCast_nonneg _), Int.toNat_natCast]
  have hwritten : OutputFile.writeAll plaintext ⟨written, written.length⟩ =
      ⟨written ++ plaintext, (written ++ plaintext).length⟩ := by
    simp [OutputFile.writeAll]
  rw [writePlaintext, hdesired, Prog.except_ok_bind]
  simp only [ne_eq, not_true_eq_false, if_false, hwritten]
  rw [if_neg (by rw [List.length_append]; omega)]
  rfl

/-- The chunks of a file are written one behind the other. -/
theorem run_restoreChunks (keys : P.Ideal) (ideal : C.Ideal) (separate : Separate C all)
    {net : Network} {start : FileWorld P} (readKey : P.Key) {cs : List StoredChunk}
    (hcs : ∀ c ∈ cs, c ∈ chunks) (hobtain : ∀ c ∈ cs, Obtainable C net start c) (index : ℕ)
    (written : Bytes) (hfits : written.length + plainSize cs < 2 ^ 63)
    {downloaded : DownloadedPacks} {w : FileWorld P}
    (h : Restoring C known cur vaultKey all chunks start downloaded w) : ∃ downloaded' w',
      (restoreChunks C net readKey ⟨written, written.length⟩ downloaded
        (locationsFrom C index written.length cs)).run w =
          (.ok (⟨written ++ (cs.map fun c => c.plaintext).flatten,
            (written ++ (cs.map fun c => c.plaintext).flatten).length⟩, downloaded'), w') ∧
        Restoring C known cur vaultKey all chunks start downloaded' w' := by
  induction cs generalizing index written downloaded w with
  | nil =>
    refine ⟨downloaded, w, ?_, h⟩
    simp [locationsFrom, restoreChunks]
  | cons c cs ih =>
    have hc := hcs c List.mem_cons_self
    have hsize : plainSize (c :: cs) = c.plaintext.length + plainSize cs := by
      simp [plainSize]
    have hlength : (written ++ c.plaintext).length = written.length + c.plaintext.length :=
      List.length_append
    have hnext : (written.length : ℤ) + c.plaintext.length =
        ((written ++ c.plaintext).length : ℤ) := by
      rw [hlength]
      push_cast
      rfl
    have hoffset : (c.locationAt C index written.length).fileOffset = written.length := rfl
    obtain ⟨downloaded₁, w₁, hread, hrestoring⟩ := run_readChunk separate h hc keys ideal
      (h.obtainable (hobtain c List.mem_cons_self)) index written.length readKey
    have hwrite := writePlaintext_append written c.plaintext hoffset (by omega)
    obtain ⟨downloaded₂, w₂, hrest, hdone⟩ := ih (fun c' hc' => hcs c' (List.mem_cons_of_mem _ hc'))
      (fun c' hc' => hobtain c' (List.mem_cons_of_mem _ hc')) (index + 1)
      (written ++ c.plaintext) (by omega) hrestoring
    refine ⟨downloaded₂, w₂, ?_, hdone⟩
    rw [locationsFrom, restoreChunks, Prog.run_bind_of_ok hread, hnext]
    simp only
    rw [hwrite, Prog.ofExcept_ok, Prog.ret_bind, hrest, List.map_cons, List.flatten_cons,
      List.append_assoc]

end OmniDrive
