import OmniDrive.Library.Guarantees
import OmniDrive.Library.Slots
import OmniDrive.Storage.Addressed

/-!
# The workers on addressed storage

What the repair worker loads of a pack has the checksums of its rows, and with them the files that
its content is made of. So the repaired shards and the copies belong to the contents that they are
stored under, and so do the objects that are uploaded and the records that are downloaded.
-/

namespace OmniDrive

open StatementProgram Tables ByteFields NamedStore Packer Downloader Addressed

variable {P : Primitives} {C : ChunkPrimitives P} {origin : Bytes → PackContent}
  {start : FileWorld P} {ε : Type}

/-! ## Shards of a content -/

/-- Two of three shards give back all of them. -/
theorem rsReconstruct_of_slots (ideal : C.Ideal) {ciphertext : Bytes} {slots : List (Option Bytes)}
    (h : SlotsHold (splitCiphertextIntoShards C ciphertext) slots)
    (htwo : 2 ≤ slots.countP Option.isSome) :
    C.rsReconstruct slots = some (splitCiphertextIntoShards C ciphertext) := by
  have hfirst := length_dataShard (shardLen ciphertext) 0 ciphertext
  have hsecond := length_dataShard (shardLen ciphertext) 1 ciphertext
  obtain ⟨s₀, rest₀, h₀, hrest₀, rfl⟩ := List.forall₂_cons_right_iff.mp h
  obtain ⟨s₁, rest₁, h₁, hrest₁, rfl⟩ := List.forall₂_cons_right_iff.mp hrest₀
  obtain ⟨s₂, rest₂, h₂, hrest₂, rfl⟩ := List.forall₂_cons_right_iff.mp hrest₁
  obtain rfl := List.forall₂_nil_right_iff.mp hrest₂
  refine ideal.rsReconstruct_of_two (hfirst.trans hsecond.symm) (fun hnil => ?_) h₀ h₁ h₂ htwo
  have hpos := shardLen_pos ciphertext
  rw [hnil, List.length_nil] at hfirst
  omega

/-- The two data shards begin with the ciphertext. -/
theorem take_split (ciphertext : Bytes) :
    ((splitCiphertextIntoShards C ciphertext).take dataShards).flatten.take ciphertext.length =
      ciphertext := by
  have hdata : ((splitCiphertextIntoShards C ciphertext).take dataShards).flatten =
      dataShard (shardLen ciphertext) 0 ciphertext ++
        dataShard (shardLen ciphertext) 1 ciphertext := by
    simp [splitCiphertextIntoShards, dataShards]
  rw [hdata, take_dataShards (length_le_two_shardLen ciphertext)]

section Rows

variable {w : FileWorld P} {x : PackContent}

/-- The rows of the shards of a pack, one for each number at most. -/
structure RowsOf (C : ChunkPrimitives P) (x : PackContent) (shards : List PackShardRecord) :
    Prop where
  row : ∀ s ∈ shards, ∃ i, x.ShardRow C i s
  nodup : (shards.map (·.shardIndex)).Nodup

theorem RowsOf.filter {shards : List PackShardRecord} (h : RowsOf C x shards)
    (p : PackShardRecord → Bool) : RowsOf C x (shards.filter p) :=
  ⟨fun s hs => h.row s (List.mem_of_mem_filter hs),
    h.nodup.sublist (List.filter_sublist.map _)⟩

theorem Addressed.rowsOf (h : Addressed C origin start w) (hx : x.Valid) :
    RowsOf C x (Db.shardsOf (x.packId C) w.db) := by
  have hpack : ∀ s ∈ w.db.packShards.filter (·.packId = x.packId C), s ∈ w.db.packShards ∧
      s.packId = x.packId C := by
    intro s hs
    obtain ⟨hmem, hid⟩ := List.mem_filter.mp hs
    exact ⟨hmem, of_decide_eq_true hid⟩
  constructor
  · intro s hs
    obtain ⟨hmem, hid⟩ := hpack s ((mem_orderBy _ _ s).mp hs)
    exact h.shards s hmem x hx hid.symm
  · have hkeys : ((w.db.packShards.filter (·.packId = x.packId C)).map
        fun s => (s.packId, s.shardIndex)).Nodup :=
      h.shardKeys.sublist (List.filter_sublist.map _)
    have hindexes : ((w.db.packShards.filter (·.packId = x.packId C)).map
        (·.shardIndex)).Nodup := by
      rw [List.Nodup, List.pairwise_map] at hkeys ⊢
      refine hkeys.imp_of_mem fun hs ht hne hsame => hne ?_
      rw [(hpack _ hs).2, (hpack _ ht).2, hsame]
    exact ((orderBy_perm _ _).map _).nodup_iff.mpr hindexes

end Rows

namespace RepairWorker

variable {net : RepairNetwork} {x : PackContent}

@[simp] theorem repairUsize_natCast (n : ℕ) (context : String) : repairUsize n context = .ok n := by
  rw [repairUsize, if_pos (Int.natCast_nonneg n), Int.toNat_natCast]

/-- A shard that is downloaded is the one that its row stands for. -/
theorem yields_downloadShard (ideal : C.Ideal) (hx : x.Valid) {shard : PackShardRecord} {i : ℕ}
    (hrow : x.ShardRow C i shard) : (downloadShard C net shard).Yields (Addressed C origin start)
      fun bytes => (x.shardFiles C)[i]? = some bytes := by
  rw [downloadShard]
  split
  · trivial
  apply Prog.Yields.bind (Q := fun _ => True) (Prog.Yields.query fun _ _ => trivial)
  intro object _
  apply Prog.Yields.bind (Q := fun _ => True) (Prog.Yields.ofOption _ fun _ _ => trivial)
  intro bytes _
  split
  · trivial
  rename_i hsum
  obtain ⟨file, hfile, hchecksum⟩ := hrow.file
  rw [hchecksum, not_not] at hsum
  obtain rfl := ideal.sha256Hex_inj hsum
  rw [hrow.index, repairUsize_natCast, Prog.ofExcept_ok, Prog.ret_bind]
  have hkeeps : (writeShardFile shard.packId i bytes : FileProg P RepairError Unit).Keeps
      (Addressed C origin start) :=
    keeps_writeShard (hrow.packId ▸ shardRule_of_file ideal hx hfile)
  intro w hw
  exact ⟨(hkeeps w hw).1, hfile⟩

/-- The completed shards fill their slots. -/
theorem yields_downloadCompleted (ideal : C.Ideal) (hx : x.Valid) (packId : String) (shardLen : ℕ)
    {shards : List PackShardRecord} (hrows : RowsOf C x shards) {slots : List (Option Bytes)}
    (hhold : SlotsHold (x.shardFiles C) slots)
    (hfree : ∀ s ∈ shards, ∀ i : ℕ, s.shardIndex = i → slots[i]? = some none) :
    (downloadCompleted C net packId shardLen slots shards).Yields (Addressed C origin start)
      fun filled => SlotsHold (x.shardFiles C) filled ∧ filled.countP Option.isSome =
        slots.countP Option.isSome + shards.length := by
  induction shards generalizing slots with
  | nil => exact ⟨hhold, rfl⟩
  | cons shard rest ih =>
    obtain ⟨i, hrow⟩ := hrows.row shard List.mem_cons_self
    have hnodup := hrows.nodup
    rw [List.map_cons, List.nodup_cons] at hnodup
    rw [downloadCompleted]
    apply (yields_downloadShard ideal hx hrow).bind
    intro bytes hbytes
    split
    · trivial
    rw [hrow.index, repairUsize_natCast, Prog.ofExcept_ok, Prog.ret_bind]
    have hempty := hfree shard List.mem_cons_self i hrow.index
    have hrest : RowsOf C x rest :=
      ⟨fun s hs => hrows.row s (List.mem_cons_of_mem _ hs), hnodup.2⟩
    have hothers : ∀ s ∈ rest, ∀ j : ℕ, s.shardIndex = j →
        (slots.set i (some bytes))[j]? = some none := by
      intro s hs j hj
      have hne : i ≠ j := by
        rintro rfl
        apply hnodup.1
        rw [hrow.index, ← hj]
        exact List.mem_map_of_mem hs
      rw [List.getElem?_set_ne hne]
      exact hfree s (List.mem_cons_of_mem _ hs) j hj
    have hcount := Slots.countP_set_of_empty hempty bytes
    refine Prog.Yields.mono (ih hrest (hhold.set hbytes) hothers) fun filled hfilled => ?_
    refine ⟨hfilled.1, ?_⟩
    rw [hfilled.2, hcount, List.length_cons]
    omega

/-- Before anything is fetched the slots are empty. -/
theorem replicate_free {shards : List PackShardRecord} (hrows : RowsOf C x shards)
    (hmode : x.storageMode = .ec21) : ∀ s ∈ shards, ∀ i : ℕ, s.shardIndex = i →
      (List.replicate totalShards (none : Option Bytes))[i]? = some none := by
  intro s hs i hi
  obtain ⟨j, hrow⟩ := hrows.row s hs
  have hsame : j = i := by exact_mod_cast hrow.index.symm.trans hi
  have hlt := hrow.lt
  rw [PackContent.length_shardFiles_ec21 hmode, hsame] at hlt
  rw [List.getElem?_replicate, if_pos hlt]

/-- Two completed shards of a pack that is spread over all providers give back all of them. -/
theorem yields_slots (ideal : C.Ideal) (hx : x.Valid) (hmode : x.storageMode = .ec21)
    (packId : String) (shardLen : ℕ) {shards : List PackShardRecord} (hrows : RowsOf C x shards) :
    (downloadCompleted C net packId shardLen (List.replicate totalShards none) shards).Yields
      (Addressed C origin start) fun slots =>
        dataShards ≤ shards.length → C.rsReconstruct slots = some (x.shardFiles C) := by
  have hempty : SlotsHold (x.shardFiles C) (List.replicate totalShards none) := by
    rw [← PackContent.length_shardFiles_ec21 (C := C) hmode]
    exact slotsHold_replicate _
  apply (yields_downloadCompleted ideal hx packId shardLen hrows hempty
    (replicate_free hrows hmode)).mono
  intro slots hslots htwo
  obtain ⟨hhold, hcount⟩ := hslots
  rw [PackContent.shardFiles_ec21 hmode] at hhold ⊢
  refine rsReconstruct_of_slots ideal hhold ?_
  rw [hcount]
  exact Nat.le_trans htwo (Nat.le_add_left _ _)

section Pack

variable {pack : PackRecord} (hx : x.Valid) (hpack : x.Row C pack)
include hx hpack

theorem rowsOf_pack {w : FileWorld P} (h : Addressed C origin start w) :
    RowsOf C x (Db.shardsOf pack.packId w.db) := by
  rw [hpack.packId]
  exact h.rowsOf hx

/-- What is loaded from three shards is the ciphertext. -/
theorem yields_loadEcCiphertext (ideal : C.Ideal) (hmode : x.storageMode = .ec21) :
    (loadEcCiphertext C net pack).Yields (Addressed C origin start) (· = x.ciphertext) := by
  apply Prog.Yields.query_bind
  intro w hw
  have hrows := (rowsOf_pack hx hpack hw).filter (·.status = .completed)
  apply Prog.Yields.bind (Q := fun _ => True) (Prog.Yields.ofExcept fun _ _ => trivial)
  intro shardLen _
  apply (yields_slots ideal hx hmode pack.packId shardLen hrows).bind
  intro slots hslots
  split
  · trivial
  · rename_i htwo
    rw [hslots (Nat.not_lt.mp htwo), Prog.ofOption_some, Prog.ret_bind, hpack.cipherSize,
      repairUsize_natCast, Prog.ofExcept_ok, Prog.ret_bind, PackContent.shardFiles_ec21 hmode,
      take_split]
    exact rfl

/-- What is loaded from one shard is the ciphertext. -/
theorem yields_loadSingleReplicaCiphertext (ideal : C.Ideal)
    (hmode : x.storageMode = .singleReplica) :
    (loadSingleReplicaCiphertext C net pack).Yields (Addressed C origin start)
      (· = x.ciphertext) := by
  apply Prog.Yields.query_bind
  intro w hw
  have hrows := rowsOf_pack hx hpack hw
  apply Prog.Yields.ofOption_bind
  intro shard hshard
  obtain ⟨i, hrow⟩ := hrows.row shard (List.mem_of_find?_eq_some hshard)
  split
  · trivial
  · apply (yields_downloadShard ideal hx hrow).mono
    intro bytes hbytes
    have hlt := hrow.lt
    rw [PackContent.shardFiles_singleReplica hmode] at hbytes hlt
    obtain rfl : i = 0 := by simpa using hlt
    exact (Option.some.inj hbytes).symm

/-- What is loaded from the manifest of a local pack is the ciphertext. -/
theorem ensures_loadLocalOnlyCiphertext (hmode : x.storageMode = .localOnly) {w : FileWorld P}
    (hw : Addressed C origin start w) (hmem : pack ∈ w.db.packs) :
    (loadLocalOnlyCiphertext pack).Ensures (Addressed C origin start)
      (fun ciphertext t => Addressed C origin start t ∧ ciphertext = x.ciphertext) w := by
  have hmanifest := hw.manifests pack hmem x hx hpack hmode
  rw [← hpack.packId] at hmanifest
  apply Prog.Ensures.query_bind hw
  rw [hmanifest, Prog.ofOption_some, Prog.ret_bind, hpack.cipherSize, repairUsize_natCast]
  apply Prog.Ensures.ofExcept_bind
  intro cipherSize hsize
  obtain rfl : x.ciphertext.length = cipherSize := Except.ok.inj hsize
  dsimp only
  split
  · trivial
  · split
    · trivial
    · exact ⟨hw, (recordFields_chunkRecord _ _ _).cipher⟩

theorem ensures_loadCiphertextForPack (ideal : C.Ideal) {w : FileWorld P}
    (hw : Addressed C origin start w) (hmem : pack ∈ w.db.packs) :
    (loadCiphertextForPack C net pack).Ensures (Addressed C origin start)
      (fun ciphertext t => Addressed C origin start t ∧ ciphertext = x.ciphertext) w := by
  rw [loadCiphertextForPack, hpack.storageMode]
  cases hmode : x.storageMode with
  | ec21 => exact (yields_loadEcCiphertext hx hpack ideal hmode).mapError.ensures hw
  | singleReplica =>
    exact (yields_loadSingleReplicaCiphertext hx hpack ideal hmode).mapError.ensures hw
  | localOnly => exact ensures_loadLocalOnlyCiphertext hx hpack hmode hw hmem

end Pack

/-! ## Repairs -/

/-- A shard that is stored is the one that its row stands for. -/
theorem keeps_uploadShard (ideal : C.Ideal) (hx : x.Valid) {shard : PackShardRecord} {i : ℕ}
    (hrow : x.ShardRow C i shard) {bytes : Bytes} (hbytes : (x.shardFiles C)[i]? = some bytes) :
    (uploadShard shard i bytes : FileProg P RepairError Unit).Keeps (Addressed C origin start) := by
  have hrule : ShardRule C shard.packId i bytes := by
    rw [hrow.packId]
    exact shardRule_of_file ideal hx hbytes
  have hwrite : (writeShardFile shard.packId i bytes : FileProg P RepairError Unit).Keeps
      (Addressed C origin start) := keeps_writeShard hrule
  apply hwrite.bind
  intro _
  apply Prog.Keeps.exec
  intro w hw
  apply hw.putObject
  rw [hrow.names, hrow.index, Int.toNat_natCast]
  exact hrule

theorem keeps_markUploadJobCompleted (packId : String) :
    (markUploadJobCompleted packId : FileProg P RepairError Unit).Keeps
      (Addressed C origin start) := by
  apply Prog.Keeps.exec
  intro w hw
  exact hw.congr (hw.kept.congr rfl rfl rfl rfl rfl) rfl rfl rfl rfl rfl rfl

section Repair

variable {pack : PackRecord}

theorem keeps_storeRebuilt (ideal : C.Ideal) (hx : x.Valid) {missing : PackShardRecord} {i : ℕ}
    (hrow : x.ShardRow C i missing) {bytes : Bytes}
    (hbytes : (x.shardFiles C)[i]? = some bytes) :
    (storeRebuilt net pack missing i bytes).Keeps (Addressed C origin start) := by
  rw [storeRebuilt]
  split
  · trivial
  have hinProgress : (Db.markPackShardInProgress pack.packId missing.shardIndex :
      FileProg P RepairError Unit).Keeps (Addressed C origin start) :=
    Addressed.keeps_updateShard _ _ fun _ => rfl
  have hcompleted : (Db.markPackShardCompleted pack.packId missing.shardIndex :
      FileProg P RepairError Unit).Keeps (Addressed C origin start) :=
    Addressed.keeps_updateShard _ _ fun _ => rfl
  have hrequeue : (Db.requeuePackShard pack.packId missing.shardIndex "put_object failed" :
      FileProg P RepairError Unit).Keeps (Addressed C origin start) :=
    Addressed.keeps_updateShard _ _ fun _ => rfl
  apply hinProgress.bind
  intro _
  split
  · apply (keeps_uploadShard ideal hx hrow hbytes).bind
    intro _
    apply hcompleted.bind
    intro _
    apply (Addressed.keeps_updatePackStatus _ _).bind
    intro _
    exact keeps_markUploadJobCompleted _
  · exact hrequeue.bind fun _ => trivial

theorem keeps_rebuildShard (ideal : C.Ideal) (hx : x.Valid) (hmode : x.storageMode = .ec21)
    {shards : List PackShardRecord} (hrows : RowsOf C x shards) :
    (rebuildShard C net pack shards).Keeps (Addressed C origin start) := by
  rw [rebuildShard]
  split
  · exact Addressed.keeps_updatePackStatus _ _
  rename_i htwo
  apply Prog.Keeps.ofOption_bind
  intro missing hmissing
  obtain ⟨i, hrow⟩ := hrows.row missing (List.mem_of_find?_eq_some hmissing)
  rw [hrow.index, repairUsize_natCast, Prog.ofExcept_ok, Prog.ret_bind]
  apply Prog.Keeps.ofExcept_bind
  intro shardLen _
  apply (yields_slots ideal hx hmode pack.packId shardLen (hrows.filter _)).bind_keeps
  intro slots hslots
  rw [hslots (Nat.not_lt.mp htwo), Prog.ofOption_some, Prog.ret_bind]
  apply Prog.Keeps.ofOption_bind
  intro rebuilt hrebuilt
  exact keeps_storeRebuilt ideal hx hrow hrebuilt

theorem keeps_repairPack (ideal : C.Ideal) (hx : x.Valid) (hpack : x.Row C pack) :
    (repairPack C net pack).Keeps (Addressed C origin start) := by
  rw [repairPack]
  split
  · trivial
  rename_i hmode
  rw [not_not, hpack.storageMode] at hmode
  apply Prog.Keeps.query_bind
  intro w hw
  have hrebuild : (rebuildShard C net pack (Db.shardsOf pack.packId w.db)).Keeps
      (Addressed C origin start) :=
    keeps_rebuildShard ideal hx hmode (rowsOf_pack hx hpack hw)
  split
  · trivial
  · apply (Prog.Keeps.query _).bind
    intro summary
    split
    · trivial
    · exact Addressed.keeps_updatePackStatus _ _
    · exact hrebuild
    · exact hrebuild

end Repair

end RepairWorker

/-! ## Uploads -/

namespace Uploader

variable {x : PackContent}

/-- The stored object is the local file of the shard. -/
theorem addressed_putShardObject {shard : PackShardRecord} (hnames : NamesObject shard) :
    (putShardObject shard : FileProg P ε Unit).Keeps (Addressed C origin start) := by
  apply Prog.Keeps.exec
  intro w hw
  cases hfile : w.spool.shards shard.packId shard.shardIndex.toNat with
  | none => exact hw
  | some bytes =>
    apply hw.putObject
    rw [hnames]
    exact hw.spool _ _ _ hfile

theorem addressed_uploadShard (answer : PackShardRecord → ShardAnswer) {shard : PackShardRecord}
    (hnames : NamesObject shard) :
    (uploadShard answer shard : FileProg P _ _).Keeps (Addressed C origin start) := by
  have hinProgress : (Db.markPackShardInProgress shard.packId shard.shardIndex :
      FileProg P UploaderError Unit).Keeps (Addressed C origin start) :=
    Addressed.keeps_updateShard _ _ fun _ => rfl
  have hcompleted : (Db.markPackShardCompleted shard.packId shard.shardIndex :
      FileProg P UploaderError Unit).Keeps (Addressed C origin start) :=
    Addressed.keeps_updateShard _ _ fun _ => rfl
  have hfailed : ∀ message, (Db.markPackShardFailed shard.packId shard.shardIndex message :
      FileProg P UploaderError Unit).Keeps (Addressed C origin start) :=
    fun message => Addressed.keeps_updateShard _ _ fun _ => rfl
  have hrequeue : ∀ message, (Db.requeuePackShard shard.packId shard.shardIndex message :
      FileProg P UploaderError Unit).Keeps (Addressed C origin start) :=
    fun message => Addressed.keeps_updateShard _ _ fun _ => rfl
  have hpermanent : ∀ message, (Db.markPackShardPermanentlyFailed shard.packId shard.shardIndex
      message : FileProg P UploaderError Unit).Keeps (Addressed C origin start) :=
    fun message => Addressed.keeps_updateShard _ _ fun _ => rfl
  rw [uploadShard]
  cases answer shard with
  | retried message permanent =>
    have hretry : (retryShard shard message permanent : FileProg P UploaderError Unit).Keeps
        (Addressed C origin start) := by
      apply (hrequeue message).bind
      intro _
      cases permanent with
      | true => exact hpermanent message
      | false => trivial
    exact hretry.bind fun _ => trivial
  | failed message => exact (hfailed message).bind fun _ => trivial
  | suspended reason => trivial
  | stored =>
    have hstore : (storeShard shard : FileProg P UploaderError Unit).Keeps
        (Addressed C origin start) := by
      apply hinProgress.bind
      intro _
      apply (Prog.Keeps.query _).bind
      intro file
      split
      · exact hfailed _
      · exact (addressed_putShardObject hnames).bind fun _ => hcompleted
    exact hstore.bind fun _ => trivial

theorem addressed_uploadShards (answer : PackShardRecord → ShardAnswer)
    {shards : List PackShardRecord} (hnames : ∀ s ∈ shards, NamesObject s) :
    (uploadShards answer shards : FileProg P _ _).Keeps (Addressed C origin start) := by
  induction shards with
  | nil => trivial
  | cons shard rest ih =>
    apply (addressed_uploadShard answer (hnames shard List.mem_cons_self)).bind
    intro goes
    split
    · exact ih fun s hs => hnames s (List.mem_cons_of_mem _ hs)
    · trivial

/-- A pack that is not local needs no manifest. -/
theorem addressed_cleanupAfter (ideal : C.Ideal) {pack : PackRecord} (hx : x.Valid)
    (hpack : x.Row C pack) (status : PackStatus) :
    (cleanupAfter pack status : FileProg P UploaderError _).Keeps (Addressed C origin start) := by
  rw [cleanupAfter]
  split
  · rename_i hremote
    have hmanifest : ∀ y : PackContent, y.Valid → y.storageMode = .localOnly →
        y.packId C ≠ pack.packId := by
      intro y hy hlocal hname
      rw [hpack.packId] at hname
      rw [hpack.storageMode, ← PackContent.eq_of_packId_eq ideal hy hx hname] at hremote
      exact hremote.2 hlocal
    apply (Addressed.keeps_deleteManifest hmanifest).bind
    intro _
    apply (Addressed.keeps_deleteShardFile _ _).bind
    intro _
    apply (Addressed.keeps_deleteShardFile _ _).bind
    intro _
    exact Addressed.keeps_deleteShardFile _ _
  · trivial

/-- An upload job keeps the storage addressed by content. -/
theorem addressed_processJob (ideal : C.Ideal) (answer : PackShardRecord → ShardAnswer)
    (packId : String) :
    (processJob answer packId : FileProg P _ _).Keeps (Addressed C origin start) := by
  rw [processJob]
  apply Prog.Keeps.query_bind
  intro w hw
  apply Prog.Keeps.ofOption_bind
  intro pack hfound
  obtain ⟨x, hx, hpack⟩ := hw.packs pack (List.mem_of_find?_eq_some hfound)
  have hid : pack.packId = packId := by
    have hkey := List.find?_some hfound
    simpa using hkey
  have hsettle : (settlePackStatus pack : FileProg P UploaderError _).Keeps
      (Addressed C origin start) := by
    apply (Prog.Keeps.query _).bind
    intro summary
    exact (Addressed.keeps_updatePackStatus _ _).bind fun _ => trivial
  apply Prog.Keeps.query_bind
  intro w' hw'
  have hnames : ∀ s ∈ (Db.shardsOf packId w'.db).filter fun s =>
      s.status ≠ .completed && s.status ≠ .permanentlyFailed, NamesObject s := by
    intro s hs
    rw [← hid] at hs
    have hrows := RepairWorker.rowsOf_pack hx hpack hw'
    obtain ⟨i, hrow⟩ := hrows.row s (List.mem_of_mem_filter hs)
    exact hrow.names
  split
  · exact hsettle.bind fun _ => trivial
  · apply (addressed_uploadShards answer hnames).bind
    intro goes
    split
    · apply hsettle.bind
      intro status
      exact (addressed_cleanupAfter ideal hx hpack status).bind fun _ => trivial
    · trivial

end Uploader

end OmniDrive
