import OmniDrive.Storage.AddressedWorkers

/-!
# Copies in another storage mode

A reconciliation writes the ciphertext that it has loaded under the name of a copy of the content,
and lets the chunk point at the copy once the row of the copy is there. So chunks stay located in
packs of their contents or of copies, whatever the network answers and wherever the worker stops.
-/

namespace OmniDrive

open StatementProgram Tables ByteFields NamedStore Packer Addressed RepairDb

variable {P : Primitives} {C : ChunkPrimitives P} {origin : Bytes → PackContent}
  {start w : FileWorld P} {ε : Type}

/-- A chunk is located in the pack, which is made from the content of the chunk or from a copy. -/
structure InUse (C : ChunkPrimitives P) (origin : Bytes → PackContent) (start : FileWorld P)
    (x : PackContent) (pack : PackRecord) : Prop where
  valid : (origin x.chunkId.bytes).Valid
  copy : (origin x.chunkId.bytes).CopyOf x
  row : x.Row C pack
  located : x.chunkId.bytes ∈ start.db.packLocations.map (·.chunkId)

/-- The packs that hold a chunk are in use. -/
theorem Addressed.inUse (ideal : C.Ideal) (h : Addressed C origin start w) {pack : PackRecord}
    (hpack : pack ∈ activePacks w.db) : ∃ x, InUse C origin start x pack := by
  obtain ⟨hmem, l, hl, hname⟩ := mem_activePacks.mp hpack
  obtain ⟨x, hx, hrow⟩ := h.packs pack hmem
  obtain ⟨hvalid, y, hcopy, hlocated, -⟩ := h.locations l hl
  have hsame : x.packId C = y.packId C := by rw [← hrow.packId, ← hname, hlocated.packId]
  obtain rfl := PackContent.eq_of_packId_eq ideal hx (hcopy.valid hvalid) hsame
  rw [hlocated.chunkId] at hvalid hcopy
  refine ⟨x, hvalid, hcopy, hrow, ?_⟩
  rw [← hlocated.chunkId, ← h.kept.located]
  exact List.mem_map_of_mem hl

/-! ## While the new pack is filled -/

/-- The row of the content is there. -/
def Holding (C : ChunkPrimitives P) (origin : Bytes → PackContent) (start : FileWorld P)
    (y : PackContent) (w : FileWorld P) : Prop :=
  Addressed C origin start w ∧ ∃ pack ∈ w.db.packs, y.Row C pack

section Holding

variable {y : PackContent}

/-- What does not write to `packs` keeps the row. -/
theorem holding_of_fixes {α : Type} {p : FileProg P ε α}
    (hkeeps : p.Keeps (Addressed C origin start)) (hfixes : p.Fixes fun w => w.db.packs) :
    p.Keeps (Holding C origin start y) :=
  hkeeps.and (hfixes.keeps_of (Q := fun packs => ∃ pack ∈ packs, y.Row C pack))

theorem holding_updateShard (packId : String) (shardIndex : ℤ)
    {f : PackShardRecord → PackShardRecord} (hf : ∀ s, (f s).core = s.core) :
    (writeFiles (Db.updateShard packId shardIndex f) : FileProg P ε Unit).Keeps
      (Holding C origin start y) :=
  holding_of_fixes (Addressed.keeps_updateShard packId shardIndex hf) (Prog.Fixes.exec fun _ => rfl)

theorem holding_updatePackStatus (packId : String) (status : PackStatus) :
    (Db.updatePackStatus packId status : FileProg P ε Unit).Keeps (Holding C origin start y) := by
  apply (Addressed.keeps_updatePackStatus packId status).and
  apply Prog.Keeps.exec
  intro w hrow
  obtain ⟨pack, hpack, hyrow⟩ := hrow
  refine ⟨_, List.mem_map_of_mem hpack, ?_⟩
  split
  · exact hyrow.withStatus status
  · exact hyrow

/-- The chunk may point at the new pack. -/
theorem holding_linkChunkToPack (hvalid : (origin y.chunkId.bytes).Valid)
    (hcopy : (origin y.chunkId.bytes).CopyOf y)
    (hlocated : y.chunkId.bytes ∈ start.db.packLocations.map (·.chunkId)) :
    (Db.linkChunkToPack y.chunkId.bytes (y.packId C) 0 y.manifest.length :
      FileProg P ε Unit).Keeps (Holding C origin start y) := by
  apply Prog.Keeps.exec
  intro w hw
  obtain ⟨pack, hpack, hrow⟩ := hw.2
  exact ⟨hw.1.setLocation hvalid hcopy hlocated hpack hrow, pack, hpack, hrow⟩

end Holding

namespace RepairWorker

variable {net : RepairNetwork} {x y : PackContent} {pack copy : PackRecord}

@[simp] theorem storedArray_bytes {n : ℕ} (b : FixedBytes n) (field : String) :
    storedArray n b.bytes field = .ok b := by
  rw [storedArray, FixedBytes.tryFrom_bytes]

/-! ## Uploads of the new pack -/

theorem holding_uploadShard (ideal : C.Ideal) (hy : y.Valid) {shard : PackShardRecord} {i : ℕ}
    (hrow : y.ShardRow C i shard) {bytes : Bytes} (hbytes : (y.shardFiles C)[i]? = some bytes) :
    (uploadShard shard i bytes : FileProg P RepairError Unit).Keeps (Holding C origin start y) := by
  apply holding_of_fixes (keeps_uploadShard ideal hy hrow hbytes)
  have hwrite : (writeShardFile shard.packId i bytes : FileProg P RepairError Unit).Fixes
      fun w => w.db.packs := Prog.Fixes.exec fun _ => rfl
  exact hwrite.bind fun _ => Prog.Fixes.exec fun _ => rfl

theorem holding_settleCopy : (settleCopy copy : FileProg P ε PackStatus).Keeps
    (Holding C origin start y) := by
  apply (Prog.Keeps.query _).bind
  intro summary
  exact (holding_updatePackStatus _ _).bind fun _ => trivial

section Copy

variable (hy : y.Valid) (hcopy : y.Row C copy)
include hy hcopy

theorem holding_uploadPending (ideal : C.Ideal) {shard : PackShardRecord} {i : ℕ}
    (hrow : y.ShardRow C i shard) :
    (uploadPending net copy shard : FileProg P _ _).Keeps (Holding C origin start y) := by
  have hinProgress : (Db.markPackShardInProgress copy.packId shard.shardIndex :
      FileProg P ReconcileError Unit).Keeps (Holding C origin start y) :=
    holding_updateShard _ _ fun _ => rfl
  have hcompleted : (Db.markPackShardCompleted copy.packId shard.shardIndex :
      FileProg P ReconcileError Unit).Keeps (Holding C origin start y) :=
    holding_updateShard _ _ fun _ => rfl
  have hrequeue : (Db.requeuePackShard copy.packId shard.shardIndex "put_object failed" :
      FileProg P ReconcileError Unit).Keeps (Holding C origin start y) :=
    holding_updateShard _ _ fun _ => rfl
  rw [uploadPending]
  split
  · trivial
  rw [hrow.index, repairUsize_natCast]
  apply Prog.Keeps.ofExcept_bind
  intro index hindex
  obtain rfl : i = index := Except.ok.inj hindex
  apply Prog.Keeps.query_bind
  intro w hw
  apply Prog.Keeps.ofOption_bind
  intro bytes hbytes
  have hfile : (y.shardFiles C)[i]? = some bytes :=
    hw.1.spool _ _ _ hbytes y hy hcopy.packId.symm
  rw [← hrow.index]
  apply hinProgress.bind
  intro _
  split
  · apply (holding_uploadShard ideal hy hrow hfile).mapError.bind
    intro _
    exact hcompleted
  · apply hrequeue.bind
    intro _
    exact (holding_settleCopy).bind fun _ => trivial

theorem holding_uploadPendingShards (ideal : C.Ideal) {shards : List PackShardRecord}
    (hrows : ∀ s ∈ shards, ∃ i, y.ShardRow C i s) :
    (uploadPendingShards net copy shards : FileProg P _ _).Keeps (Holding C origin start y) := by
  induction shards with
  | nil => trivial
  | cons shard rest ih =>
    obtain ⟨i, hrow⟩ := hrows shard List.mem_cons_self
    apply (holding_uploadPending hy hcopy ideal hrow).bind
    intro _
    exact ih fun s hs => hrows s (List.mem_cons_of_mem _ hs)

theorem holding_swapIn (ideal : C.Ideal) (hvalid : (origin y.chunkId.bytes).Valid)
    (horigin : (origin y.chunkId.bytes).CopyOf y)
    (hlocated : y.chunkId.bytes ∈ start.db.packLocations.map (·.chunkId)) :
    (swapIn net copy y.manifest.length : FileProg P _ _).Keeps (Holding C origin start y) := by
  have hlink : (Db.linkChunkToPack copy.chunkId copy.packId 0 y.manifest.length :
      FileProg P ReconcileError Unit).Keeps (Holding C origin start y) := by
    rw [hcopy.chunkId, hcopy.packId]
    exact holding_linkChunkToPack hvalid horigin hlocated
  rw [swapIn]
  split
  · apply (holding_updatePackStatus _ _).bind
    intro _
    exact hlink
  · apply Prog.Keeps.query_bind
    intro w hw
    have hrows : ∀ s ∈ (Db.shardsOf copy.packId w.db).filter fun s =>
        s.status ≠ .completed && s.status ≠ .permanentlyFailed, ∃ i, y.ShardRow C i s := by
      intro s hs
      exact (rowsOf_pack hy hcopy hw.1).row s (List.mem_of_mem_filter hs)
    apply (holding_uploadPendingShards hy hcopy ideal hrows).bind
    intro _
    apply (holding_settleCopy).bind
    intro status
    split
    · exact hlink
    · trivial

end Copy

/-! ## The new pack -/

/-- A world with the manifest of the new pack. -/
def Manifested (C : ChunkPrimitives P) (origin : Bytes → PackContent) (start : FileWorld P)
    (y : PackContent) (w : FileWorld P) : Prop :=
  Addressed C origin start w ∧ w.spool.manifests (y.packId C) = some y.manifest

/-- The prepared shards are those of the files that are written. -/
theorem yields_buildShardsFrom (ideal : C.Ideal) (hy : y.Valid) (index : ℕ) {bytes : List Bytes}
    (hbytes : ∀ i b, bytes[i]? = some b → (y.shardFiles C)[index + i]? = some b) :
    (buildShardsFrom C y.storageMode (y.packId C) index bytes).Yields (Manifested C origin start y)
      (· = preparedShardsFrom C y.storageMode (y.packId C) index bytes) := by
  induction bytes generalizing index with
  | nil => exact rfl
  | cons b rest ih =>
    have hfile : (y.shardFiles C)[index]? = some b := hbytes 0 b rfl
    have hwrite : (writeShard (y.packId C) index b : FileProg P PackerError Unit).Keeps
        (Manifested C origin start y) := by
      apply (Addressed.keeps_writeShard (shardRule_of_file ideal hy hfile)).and
      apply Prog.Keeps.exec
      exact fun _ hw => hw
    have hrest : ∀ i b', rest[i]? = some b' → (y.shardFiles C)[index + 1 + i]? = some b' := by
      intro i b' hb'
      rw [Nat.add_assoc, Nat.add_comm 1 i]
      exact hbytes (i + 1) b' hb'
    rw [buildShardsFrom]
    apply hwrite.yields.bind
    intro _ _
    apply Prog.Yields.bind (Q := fun _ => True) (Prog.Yields.ofExcept fun _ _ => trivial)
    intro _ _
    apply Prog.Yields.bind (Q := fun _ => True) (Prog.Yields.ofExcept fun _ _ => trivial)
    intro _ _
    apply (ih (index + 1) hrest).bind
    intro tail htail
    rw [htail]
    exact rfl

/-- The rows of the prepared shards. -/
theorem shardRow_prepared {shard : PreparedShard}
    (h : shard ∈ preparedShardsFrom C y.storageMode (y.packId C) 0 (y.shardFiles C)) :
    ∃ i, y.ShardRow C i (shardRecord (y.packId C) shard) := by
  obtain ⟨i, hi⟩ := List.mem_iff_getElem?.mp h
  rw [getElem?_preparedShardsFrom, Option.map_eq_some_iff, Nat.zero_add] at hi
  obtain ⟨bytes, hbytes, rfl⟩ := hi
  exact ⟨i, rfl, rfl, rfl, bytes, hbytes, rfl⟩

theorem holding_registerShards (ideal : C.Ideal) (hy : y.Valid) {shards : List PreparedShard}
    (hrows : ∀ s ∈ shards, ∃ i, y.ShardRow C i (shardRecord (y.packId C) s)) :
    (registerShards (y.packId C) shards : FileProg P ε Unit).Keeps (Holding C origin start y) := by
  induction shards with
  | nil => trivial
  | cons shard rest ih =>
    obtain ⟨i, hrow⟩ := hrows shard List.mem_cons_self
    have hput : (Db.registerPackShard (shardRecord (y.packId C) shard) : FileProg P ε Unit).Keeps
        (Holding C origin start y) := by
      apply Prog.Keeps.exec
      intro w hw
      exact ⟨hw.1.putShard hy hrow ideal, hw.2⟩
    apply hput.bind
    intro _
    exact ih fun s hs => hrows s (List.mem_cons_of_mem _ hs)

/-- The row that a reconciliation writes is the row of the copy. -/
theorem row_copyRecord (hpack : x.Row C pack) (mode : StorageMode) :
    (x.copy mode).Row C (copyRecord pack mode ((x.copy mode).packId C)
      ((x.copy mode).shardSize C)) where
  packId := rfl
  chunkId := hpack.chunkId
  storageMode := rfl
  encryptionVersion := rfl
  logicalSize := hpack.logicalSize
  cipherSize := hpack.cipherSize
  shardSize := rfl
  nonce := hpack.nonce
  gcmTag := hpack.gcmTag

/-- Once the row of the new pack is written, the rest keeps it. -/
theorem ensures_createCopy (ideal : C.Ideal) (hvalid : (origin y.chunkId.bytes).Valid)
    (horigin : (origin y.chunkId.bytes).CopyOf y)
    (hlocated : y.chunkId.bytes ∈ start.db.packLocations.map (·.chunkId))
    (hcopy : y.Row C copy) (hw : Manifested C origin start y w) :
    (createCopy copy (preparedShardsFrom C y.storageMode (y.packId C) 0 (y.shardFiles C)) >>=
      fun _ => swapIn net copy y.manifest.length).Ensures (Addressed C origin start)
        (fun _ t => Addressed C origin start t) w := by
  have hy : y.Valid := horigin.valid hvalid
  have hput : Holding C origin start y (w.withDb (Db.putPack copy w.db)) :=
    ⟨hw.1.putPack hy hcopy ideal fun _ => hw.2, copy, mem_upsert_self _ _ _, hcopy⟩
  have hswap : (swapIn net copy y.manifest.length : FileProg P _ _).Keeps
      (Holding C origin start y) := holding_swapIn hy hcopy ideal hvalid horigin hlocated
  rw [createCopy, Prog.bind_assoc]
  refine Prog.Ensures.exec_bind hput.1 ?_
  apply Prog.Ensures.mono (Prog.Keeps.ensures (I := Holding C origin start y) ?_ hput)
    (fun t ht => ht.1) fun _ t ht => ht.1
  apply Prog.Keeps.bind
  · split
    · trivial
    · apply (Prog.Keeps.query _).bind
      intro registered
      split
      · rw [hcopy.packId]
        exact holding_registerShards ideal hy fun s hs => shardRow_prepared hs
      · trivial
  · exact fun _ => hswap

/-- The size that is noted for the new shards. -/
theorem shardSize_prepared : ((preparedShardsFrom C y.storageMode (y.packId C) 0
    (y.shardFiles C)).head?.map (·.size)).getD 0 = y.shardSize C := by
  rw [PackContent.shardSize]
  cases y.shardFiles C with
  | nil => rfl
  | cons b rest => rfl

/-- To write the ciphertext of a pack in use to a new pack keeps the storage addressed. -/
theorem ensures_copyPack (ideal : C.Ideal) (huse : InUse C origin start x pack)
    (mode : StorageMode) (hw : Addressed C origin start w) :
    (copyPack C net pack mode x.ciphertext).Ensures (Addressed C origin start)
      (fun _ t => Addressed C origin start t) w := by
  have hpack := huse.row
  have hx : x.Valid := huse.copy.valid huse.valid
  have hy : (x.copy mode).Valid := hx.copy mode
  have hmanifest : toI64 (x.copy mode).manifest.length "manifest size" =
      .ok ((x.copy mode).manifest.length : ℤ) := by
    have hfits := hy.fits
    rw [toI64, if_pos]
    rw [PackContent.length_manifest]
    exact hfits
  have hwritten : Manifested C origin start (x.copy mode)
      { w with
        spool :=
          { w.spool with
            manifests := Function.update w.spool.manifests ((x.copy mode).packId C)
              (some (x.copy mode).manifest) } } :=
    ⟨((Addressed.keeps_writeManifest (ε := ReconcileError) ideal hy) w hw).1,
      Function.update_self _ _ _⟩
  have hbuild : (buildShards C ((x.copy mode).packId C) x.ciphertext mode).Yields
      (Manifested C origin start (x.copy mode)) (· = preparedShardsFrom C mode
        ((x.copy mode).packId C) 0 ((x.copy mode).shardFiles C)) := by
    apply yields_buildShardsFrom (y := x.copy mode) ideal hy 0
    intro i b hb
    rw [Nat.zero_add]
    exact hb
  rw [copyPack, hpack.chunkId, hpack.nonce, hpack.gcmTag, hpack.logicalSize]
  simp only [storedArray_bytes, repairUsize_natCast, Except.mapError, Prog.ofExcept_ok,
    Prog.ret_bind]
  refine Prog.Ensures.exec_bind hwritten.1 ?_
  apply ((hbuild.mapError.ensures hwritten).mono (fun t ht => ht.1) fun _ _ ht => ht).bind
  intro prepared t ht
  obtain ⟨hmanifested, rfl⟩ := ht
  rw [← PackContent.manifest_copy x mode, hmanifest]
  have hsize := shardSize_prepared (C := C) (y := x.copy mode)
  have hcopy := row_copyRecord (C := C) hpack mode
  rw [← hsize] at hcopy
  exact ensures_createCopy (y := x.copy mode) ideal huse.valid (huse.copy.copy mode) huse.located
    hcopy hmanifested

theorem fixes_getDesiredStorageModeForPack (packId : String) :
    (Db.getDesiredStorageModeForPack packId : FileProg P ε StorageMode).Fixes id := by
  apply (Prog.Fixes.query _).bind
  intro inodeIds
  split
  · trivial
  · exact Prog.Fixes.query _

/-- A reconciliation of a pack in use keeps the storage addressed by content. -/
theorem ensures_reconcilePackMode (ideal : C.Ideal) (hw : Addressed C origin start w)
    (hpack : pack ∈ activePacks w.db) :
    (reconcilePackMode C net pack).Ensures (Addressed C origin start)
      (fun _ t => Addressed C origin start t) w := by
  obtain ⟨x, huse⟩ := hw.inUse ideal hpack
  have hx : x.Valid := huse.copy.valid huse.valid
  apply (fixes_getDesiredStorageModeForPack pack.packId).bind_ensures hw
    (run_getDesiredStorageModeForPack pack.packId w)
  split
  · exact hw
  · apply (ensures_loadCiphertextForPack hx huse.row ideal hw (mem_activePacks.mp hpack).1).bind
    intro ciphertext t ht
    rw [ht.2]
    exact ensures_copyPack ideal huse _ ht.1

/-! ## The worker -/

variable {retryDelayMs : ℤ}

/-- The start of the worker changes the status of shards. -/
theorem keeps_resetInProgressPackShards : (resetInProgressPackShards : FileProg P ε Unit).Keeps
    (Addressed C origin start) :=
  Addressed.keeps_updateShards _ fun _ => rfl

/-- The columns about repairs are not what packs are made from. -/
theorem keeps_deferPack (packId : String) : (deferPack retryDelayMs packId : RepairProg P ε ℤ).Keeps
    fun t => Addressed C origin start t.files := by
  apply (Prog.Keeps.query _).bind
  intro attempts
  exact (Prog.Keeps.exec fun _ ht => ht).bind fun _ => trivial

theorem keeps_noteOutcome {γ : Type} (packId : String) (outcome : Except γ Unit) :
    (noteOutcome retryDelayMs packId outcome : RepairProg P ε Unit).Keeps
      fun t => Addressed C origin start t.files := by
  cases outcome with
  | ok a => exact Prog.Keeps.exec fun _ ht => ht
  | error e => exact (keeps_deferPack packId).bind fun _ => trivial

theorem fixes_firstMismatch (packs : List PackRecord) :
    (firstMismatch packs : RepairProg P ε _).Fixes id := by
  induction packs with
  | nil => trivial
  | cons pack rest ih =>
    have hdesired : (onRepairFiles (Db.getDesiredStorageModeForPack pack.packId) :
        RepairProg P ε StorageMode).Fixes id := by
      apply (fixes_getDesiredStorageModeForPack pack.packId).zoom_frame
      intro files t hsame
      show { t with files } = t
      rw [show files = t.files from hsame]
    apply hdesired.bind
    intro desired
    split
    · apply (Prog.Fixes.query _).bind
      intro later
      split
      · exact ih
      · trivial
    · exact ih

/-- A pass of the worker keeps the storage addressed by content. -/
theorem ensures_workerPass (ideal : C.Ideal) {t : RepairWorld P}
    (ht : Addressed C origin start t.files) :
    (workerPass C net retryDelayMs : RepairProg P ε Unit).Ensures
      (fun t => Addressed C origin start t.files)
      (fun _ t => Addressed C origin start t.files) t := by
  have hqueue : (getNextPackRequiringReconciliation : RepairProg P ε _).Fixes id :=
    (Prog.Fixes.query _).bind fun packs => fixes_firstMismatch packs
  apply hqueue.bind_ensures ht (run_getNextPackRequiringReconciliation t)
  cases hnext : nextMismatch t with
  | some pack =>
    have hactive : pack ∈ activePacks t.files.db :=
      List.mem_of_mem_take (List.mem_of_find?_eq_some hnext)
    have hfiles : (onRepairFiles (reconcilePackMode C net pack)).Ensures
        (fun t => Addressed C origin start t.files)
        (fun _ t => Addressed C origin start t.files) t :=
      Prog.Ensures.zoom (fun _ _ => rfl) (ensures_reconcilePackMode ideal ht hactive)
    apply (hfiles.attempt ht).bind
    intro outcome t' ht'
    exact (keeps_noteOutcome pack.packId outcome).ensures ht'
  | none =>
    refine Prog.Ensures.query_bind ht ?_
    cases hdegraded : (dueDegraded t).head? with
    | none => exact ht
    | some pack =>
      refine Prog.Ensures.query_bind ht ?_
      have hmem : pack ∈ t.files.db.packs :=
        List.mem_of_mem_filter ((mem_orderBy _ _ pack).mp (List.mem_of_head? hdegraded))
      obtain ⟨x, hx, hrow⟩ := ht.packs pack hmem
      split
      · have hfiles : (onRepairFiles (repairPack C net pack)).Ensures
            (fun t => Addressed C origin start t.files)
            (fun _ t => Addressed C origin start t.files) t :=
          Prog.Ensures.zoom (fun _ _ => rfl) ((keeps_repairPack ideal hx hrow).ensures ht)
        apply (hfiles.attempt ht).bind
        intro outcome t' ht'
        exact (keeps_noteOutcome pack.packId outcome).ensures ht'
      · apply (keeps_deferPack pack.packId).bind_ensures ht
        exact fun _ _ ht' => ht'

end RepairWorker

end OmniDrive
