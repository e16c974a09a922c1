import OmniDrive.Storage.PackOutcome

/-!
# What writing a revision does

The rows of a prepared chunk are written one statement at a time. A reused chunk adds a reference
only; a new one adds its location, its pack, its key binding and its shards, each under a key that
no row has yet.
-/

namespace OmniDrive

open StatementProgram Tables ByteFields Packer

variable {P : Primitives} {C : ChunkPrimitives P} {all chunks : List StoredChunk} {ε : Type}

/-! ## Fresh keys -/

section Fresh

variable (separate : Separate C all) {db : FileDb} (htables : TablesInv C chunks db)
  (hsub : ∀ c ∈ chunks, c ∈ all) {c : StoredChunk} (hc : c ∈ all) (hnew : c ∉ chunks)
include separate htables hsub hc hnew

/-- No location has the identifier of a chunk that is not stored. -/
theorem fresh_location : ∀ r ∈ db.packLocations, r.chunkId ≠ (c.chunkId C).bytes := by
  intro r hr heq
  rw [htables.locations] at hr
  obtain ⟨c', hc', hloc⟩ := List.mem_map.mp hr
  rw [← hloc] at heq
  have hsame := separate.chunkId c' (hsub c' hc') c hc (FixedBytes.ext heq)
  exact hnew (hsame ▸ hc')

/-- No pack has the identifier of the pack of a chunk that is not stored. -/
theorem fresh_pack : ∀ r ∈ db.packs, r.packId ≠ c.packId C := by
  intro r hr heq
  obtain ⟨c', hc', hcore⟩ := htables.exists_chunk hr
  have hid : r.packId = c'.packId C := congrArg (·.packId) hcore
  have hsame := separate.packId c' (hsub c' hc') c hc (hid.symm.trans heq)
  exact hnew (hsame ▸ hc')

/-- No key is bound to the pack of a chunk that is not stored. -/
theorem fresh_binding : ∀ r ∈ db.packDeks, r.packId ≠ c.packId C := by
  intro r hr heq
  rw [htables.bindings] at hr
  obtain ⟨c', hc', hbind⟩ := List.mem_map.mp hr
  rw [← hbind] at heq
  have hsame := separate.packId c' (hsub c' hc') c hc heq
  exact hnew (hsame ▸ hc')

/-- No shard belongs to the pack of a chunk that is not stored. -/
theorem fresh_shards : ∀ s ∈ db.packShards, s.packId ≠ c.packId C := by
  intro s hs heq
  have hmem : s.core ∈ db.packShards.map PackShardRecord.core := List.mem_map_of_mem hs
  rw [htables.shards] at hmem
  obtain ⟨c', hc', hrow⟩ := List.mem_flatMap.mp hmem
  obtain ⟨row, hrow, hcore⟩ := List.mem_map.mp hrow
  obtain ⟨shard, -, hshard⟩ := List.mem_map.mp hrow
  have hid : s.packId = c'.packId C := by
    have hpack := congrArg (·.packId) hcore
    rw [← hshard] at hpack
    exact hpack.symm
  have hsame := separate.packId c' (hsub c' hc') c hc (hid.symm.trans heq)
  exact hnew (hsame ▸ hc')

end Fresh

/-! ## Appended rows -/

def appendLocation (row : PackLocation) (db : FileDb) : FileDb :=
  { db with packLocations := db.packLocations ++ [row] }

def appendPack (row : PackRecord) (db : FileDb) : FileDb := { db with packs := db.packs ++ [row] }

def appendBinding (row : PackDek) (db : FileDb) : FileDb :=
  { db with packDeks := db.packDeks ++ [row] }

def appendShards (rows : List PackShardRecord) (db : FileDb) : FileDb :=
  { db with packShards := db.packShards ++ rows }

/-- A location under a new key is appended. -/
theorem setLocation_fresh {db : FileDb} {c : StoredChunk}
    (h : ∀ r ∈ db.packLocations, r.chunkId ≠ (c.chunkId C).bytes) :
    Db.setLocation (c.chunkId C).bytes (c.packId C) 0 (c.manifest C).length db =
      appendLocation (c.location C) db := by
  rw [Db.setLocation, upsert_of_fresh h]
  rfl

/-- The location of a stored chunk is already there. -/
theorem setLocation_stored (separate : Separate C all) {db : FileDb}
    (htables : TablesInv C chunks db) (hsub : ∀ c ∈ chunks, c ∈ all) {c : StoredChunk}
    (hc : c ∈ chunks) :
    Db.setLocation (c.chunkId C).bytes (c.packId C) 0 (c.manifest C).length db = db := by
  have hmerge : ∀ r ∈ db.packLocations, r.chunkId = (c.chunkId C).bytes →
      ({ r with packId := c.packId C, packOffset := 0, encryptedSize := (c.manifest C).length } :
        PackLocation) = r := by
    intro r hr heq
    rw [htables.locations] at hr
    obtain ⟨c', hc', hloc⟩ := List.mem_map.mp hr
    rw [← hloc] at heq
    have hsame := separate.chunkId c' (hsub c' hc') c (hsub c hc) (FixedBytes.ext heq)
    rw [← hloc, hsame]
    rfl
  have hmem : ∃ r ∈ db.packLocations, r.chunkId = (c.chunkId C).bytes := by
    rw [htables.locations]
    exact ⟨c.location C, List.mem_map_of_mem hc, rfl⟩
  rw [Db.setLocation, upsert_eq_self hmerge hmem]

theorem putPack_fresh {db : FileDb} {pack : PackRecord}
    (h : ∀ r ∈ db.packs, r.packId ≠ pack.packId) : Db.putPack pack db = appendPack pack db := by
  rw [Db.putPack, upsert_of_fresh h]
  rfl

theorem bindPackDek_fresh {db : FileDb} {packId : String} {dekId : ℤ}
    (h : ∀ r ∈ db.packDeks, r.packId ≠ packId) :
    Db.bindPackDek packId dekId db = appendBinding { packId, dekId } db := by
  rw [Db.bindPackDek, insertOrIgnore_of_fresh h]
  rfl

/-- Shards numbered from an index on are appended to a table with smaller numbers only. -/
theorem run_registerShards (mode : StorageMode) (packId : String) (index : ℕ)
    (bytes : List Bytes) (w : FileWorld P) {db : FileDb}
    (h : ∀ s ∈ db.packShards, s.packId = packId → s.shardIndex < index) :
    (registerShards packId (preparedShardsFrom C mode packId index bytes) : FileProg P ε Unit).run
        (w.withDb db) = (.ok (),
      w.withDb (appendShards
        ((preparedShardsFrom C mode packId index bytes).map (shardRecord packId)) db)) := by
  induction bytes generalizing index db with
  | nil => simp [preparedShardsFrom, registerShards, appendShards]
  | cons b rest ih =>
    have hput : Db.putShard (shardRecord packId (preparedShard C mode packId index b)) db =
        appendShards [shardRecord packId (preparedShard C mode packId index b)] db := by
      rw [Db.putShard, upsert_of_fresh]
      · rfl
      · intro s hs hkey
        injection hkey with hpack hindex
        have hlt := h s hs hpack
        rw [hindex] at hlt
        exact absurd hlt (Int.lt_irrefl _)
    rw [preparedShardsFrom, registerShards, Db.registerPackShard, run_writeFiles_withDb, hput, ih]
    · simp [appendShards]
    · intro s hs hpack
      rcases List.mem_append.mp hs with hold | hlast
      · have hlt := h s hold hpack
        push_cast
        omega
      · rw [List.mem_singleton.mp hlast]
        show (index : ℤ) < ((index + 1 : ℕ) : ℤ)
        push_cast
        omega

/-! ## One chunk -/

/-- The tables after the reference to a chunk has been written. -/
def refWritten (C : ChunkPrimitives P) (revisionId offset : ℤ) (c : StoredChunk) (db : FileDb) :
    FileDb :=
  Db.appendChunkRef revisionId (c.chunkId C).bytes offset c.plaintext.length db

/-- The tables after the rows of the pack of a new chunk have been appended. -/
def packAppended (C : ChunkPrimitives P) (c : StoredChunk) (db : FileDb) : FileDb :=
  appendShards (c.shardRecords C)
    (appendBinding (c.binding C) (appendPack (c.record C) (appendLocation (c.location C) db)))

/-- The upload job of a new pack. -/
def packQueued (C : ChunkPrimitives P) (c : StoredChunk) (db : FileDb) : FileDb :=
  if c.storageMode ≠ .localOnly then Db.queueUpload (c.packId C) db else db

/-- The tables after one chunk of a revision has been written. -/
def chunkWritten (C : ChunkPrimitives P) (revisionId offset : ℤ) (item : StoredChunk × Bool)
    (db : FileDb) : FileDb :=
  if item.2 then refWritten C revisionId offset item.1 db
  else packQueued C item.1 (packAppended C item.1 (refWritten C revisionId offset item.1 db))

/-- References do not matter to the other tables. -/
theorem TablesInv.refWritten {db : FileDb} (h : TablesInv C chunks db) (revisionId offset : ℤ)
    (c : StoredChunk) : TablesInv C chunks (refWritten C revisionId offset c db) :=
  ⟨h.packs, h.locations, h.bindings, h.shards⟩

/-- Neither do upload jobs. -/
theorem TablesInv.packQueued {db : FileDb} (h : TablesInv C chunks db) (c : StoredChunk) :
    TablesInv C chunks (packQueued C c db) := by
  unfold OmniDrive.packQueued
  split
  · exact ⟨h.packs, h.locations, h.bindings, h.shards⟩
  · exact h

/-- The appended rows are the rows of the new chunk. -/
theorem TablesInv.packAppended {db : FileDb} (h : TablesInv C chunks db) (c : StoredChunk) :
    TablesInv C (chunks ++ [c]) (packAppended C c db) where
  packs := by
    simp [OmniDrive.packAppended, appendShards, appendBinding, appendPack, appendLocation, h.packs]
  locations := by
    simp [OmniDrive.packAppended, appendShards, appendBinding, appendPack, appendLocation,
      h.locations]
  bindings := by
    simp [OmniDrive.packAppended, appendShards, appendBinding, appendPack, appendLocation,
      h.bindings]
  shards := by
    simp [OmniDrive.packAppended, appendShards, appendBinding, appendPack, appendLocation,
      h.shards]

section Write

variable (separate : Separate C all) (hsub : ∀ c ∈ chunks, c ∈ all)
include separate hsub

/-- Storing the pack of a new chunk appends its rows and queues its upload. -/
theorem run_storePack {w : FileWorld P} {db : FileDb} (htables : TablesInv C chunks db)
    {c : StoredChunk} (hc : c ∈ all) (hnew : c ∉ chunks) (offset : ℤ) :
    (storePack (c.prepared C offset false)).run (w.withDb (appendLocation (c.location C) db)) =
      (.ok (), w.withDb (packQueued C c (packAppended C c db))) := by
  have hpack : Db.putPack (c.record C) (appendLocation (c.location C) db) =
      appendPack (c.record C) (appendLocation (c.location C) db) :=
    putPack_fresh (fresh_pack separate htables hsub hc hnew)
  have hbind : Db.bindPackDek (c.packId C) c.dekId
      (appendPack (c.record C) (appendLocation (c.location C) db)) =
        appendBinding (c.binding C) (appendPack (c.record C) (appendLocation (c.location C) db)) :=
    bindPackDek_fresh (fresh_binding separate htables hsub hc hnew)
  have hshards : ∀ s ∈ (appendBinding (c.binding C)
      (appendPack (c.record C) (appendLocation (c.location C) db))).packShards,
      s.packId = c.packId C → s.shardIndex < (0 : ℕ) :=
    fun s hs hid => absurd hid (fresh_shards separate htables hsub hc hnew s hs)
  have hregister := run_registerShards (C := C) (ε := PackerError) c.storageMode (c.packId C) 0
    (c.shardFiles C) w hshards
  have hprog : storePack (P := P) (c.prepared C offset false) =
      (Db.createPack (c.record C) >>= fun _ => Db.setPackDek (c.packId C) c.dekId >>= fun _ =>
        registerShards (c.packId C) (c.shards C) >>= fun _ =>
          if c.storageMode ≠ .localOnly then Db.queuePackForUpload (c.packId C) else pure ()) := rfl
  rw [hprog, Db.createPack, run_writeFiles_withDb, hpack, Db.setPackDek, run_writeFiles_withDb,
    hbind, StoredChunk.shards, Prog.run_bind_of_ok hregister]
  by_cases hmode : c.storageMode = .localOnly
  · rw [if_neg (fun h => h hmode), packQueued, if_neg (fun h => h hmode)]
    rfl
  · rw [if_pos hmode, packQueued, if_pos hmode]
    rfl

/-- Writing a chunk of a revision. -/
theorem run_writeChunk {w : FileWorld P} {db : FileDb} (htables : TablesInv C chunks db)
    (revisionId offset : ℤ) {item : StoredChunk × Bool}
    (hreused : item.2 = true → item.1 ∈ chunks)
    (hnew : item.2 = false → item.1 ∈ all ∧ item.1 ∉ chunks) :
    (writeChunk revisionId (item.1.prepared C offset item.2)).run (w.withDb db) =
      (.ok (), w.withDb (chunkWritten C revisionId offset item db)) := by
  obtain ⟨c, reused⟩ := item
  have hrefs := htables.refWritten revisionId offset c
  have hprog : (writeChunk revisionId (c.prepared C offset reused)).run (w.withDb db) =
      (Db.linkChunkToPack (c.chunkId C).bytes (c.packId C) 0 (c.manifest C).length >>= fun _ =>
        if reused then pure () else storePack (c.prepared C offset reused)).run
          (w.withDb (refWritten C revisionId offset c db)) := rfl
  rw [hprog, Db.linkChunkToPack, run_writeFiles_withDb]
  cases reused with
  | true =>
    rw [setLocation_stored separate hrefs hsub (hreused rfl)]
    rfl
  | false =>
    obtain ⟨hc, hfresh⟩ := hnew rfl
    rw [setLocation_fresh (fresh_location separate hrefs hsub hc hfresh)]
    exact run_storePack separate hsub hrefs hc hfresh offset

end Write

/-! ## All chunks of a revision -/

/-- The tables after the chunks of a revision have been written. -/
def chunksWritten (C : ChunkPrimitives P) (revisionId : ℤ) :
    ℤ → List (StoredChunk × Bool) → FileDb → FileDb
  | _, [], db => db
  | offset, item :: rest, db =>
    chunksWritten C revisionId (offset + item.1.plaintext.length) rest
      (chunkWritten C revisionId offset item db)

/-- A reused chunk is stored already, and a new one is known but not stored. -/
structure Writable (chunks all : List StoredChunk) (items : List (StoredChunk × Bool)) : Prop where
  reused : ∀ item ∈ items, item.2 = true → item.1 ∈ chunks
  new : ∀ item ∈ items, item.2 = false → item.1 ∈ all ∧ item.1 ∉ chunks
  nodup : (newChunks items).Nodup

theorem newChunks_cons_new (c : StoredChunk) (items : List (StoredChunk × Bool)) :
    newChunks ((c, false) :: items) = c :: newChunks items := rfl

theorem mem_newChunks {c : StoredChunk} {items : List (StoredChunk × Bool)} :
    c ∈ newChunks items ↔ (c, false) ∈ items := by
  rw [newChunks, List.mem_map]
  constructor
  · intro h
    obtain ⟨⟨c', reused⟩, hmem, heq⟩ := h
    rw [List.mem_filter] at hmem
    have hreused : reused = false := by simpa using hmem.2
    rw [hreused] at hmem
    rw [← heq]
    exact hmem.1
  · intro h
    exact ⟨(c, false), List.mem_filter.mpr ⟨h, rfl⟩, rfl⟩

/-- What remains to be written after one chunk. -/
theorem Writable.tail {item : StoredChunk × Bool} {items : List (StoredChunk × Bool)}
    (h : Writable chunks all (item :: items)) :
    Writable (chunks ++ newChunks [item]) all items where
  reused i hi hreused :=
    List.mem_append_left _ (h.reused i (List.mem_cons_of_mem _ hi) hreused)
  new i hi hnew := by
    obtain ⟨hall, hfresh⟩ := h.new i (List.mem_cons_of_mem _ hi) hnew
    refine ⟨hall, fun hmem => ?_⟩
    rcases List.mem_append.mp hmem with hold | hhead
    · exact hfresh hold
    · have hitem := List.mem_singleton.mp (mem_newChunks.mp hhead)
      have hnodup := h.nodup
      rw [← hitem, newChunks_cons_new, List.nodup_cons] at hnodup
      exact hnodup.1 (mem_newChunks.mpr (hnew ▸ hi))
  nodup := by
    have hnodup := h.nodup
    obtain ⟨c, reused⟩ := item
    cases reused with
    | true => exact hnodup
    | false => exact (List.nodup_cons.mp hnodup).2

/-- One written chunk keeps the tables in order. -/
theorem TablesInv.chunkWritten {db : FileDb} (h : TablesInv C chunks db) (revisionId offset : ℤ)
    (item : StoredChunk × Bool) :
    TablesInv C (chunks ++ newChunks [item]) (chunkWritten C revisionId offset item db) := by
  have hrefs := h.refWritten revisionId offset item.1
  obtain ⟨c, reused⟩ := item
  cases reused with
  | true =>
    have hnone : chunks ++ newChunks [(c, true)] = chunks := List.append_nil _
    rw [hnone]
    exact hrefs
  | false => exact (hrefs.packAppended c).packQueued c

/-- Writing the chunks of a revision. -/
theorem run_writeChunks (separate : Separate C all) {w : FileWorld P} (revisionId : ℤ)
    {items : List (StoredChunk × Bool)} (hsub : ∀ c ∈ chunks, c ∈ all) (offset : ℤ) {db : FileDb}
    (htables : TablesInv C chunks db) (hitems : Writable chunks all items) :
    (writeChunks revisionId (preparedFrom C offset items)).run (w.withDb db) =
        (.ok (), w.withDb (chunksWritten C revisionId offset items db)) ∧
      TablesInv C (chunks ++ newChunks items) (chunksWritten C revisionId offset items db) := by
  induction items generalizing chunks offset db with
  | nil =>
    have hnone : chunks ++ newChunks [] = chunks := List.append_nil _
    rw [hnone]
    exact ⟨rfl, htables⟩
  | cons item rest ih =>
    have hhead := run_writeChunk (w := w) separate hsub htables revisionId offset
      (hitems.reused item List.mem_cons_self) (hitems.new item List.mem_cons_self)
    have hsub' : ∀ c ∈ chunks ++ newChunks [item], c ∈ all := by
      intro c hc
      rcases List.mem_append.mp hc with hold | hnew
      · exact hsub c hold
      · have hitem := List.mem_singleton.mp (mem_newChunks.mp hnew)
        exact (hitems.new (c, false) (hitem ▸ List.mem_cons_self) rfl).1
    have htail := ih hsub' (offset + item.1.plaintext.length)
      (htables.chunkWritten revisionId offset item) hitems.tail
    have hsplit : chunks ++ newChunks [item] ++ newChunks rest =
        chunks ++ newChunks (item :: rest) := by
      obtain ⟨c, reused⟩ := item
      cases reused <;> simp [newChunks]
    rw [hsplit] at htail
    refine ⟨?_, htail.2⟩
    rw [preparedFrom, writeChunks, Prog.run_bind_of_ok hhead, htail.1]
    rfl

/-! ## The other tables -/

/-- The tables that writing the chunks of a revision leaves alone. -/
structure SameRevisions (db db' : FileDb) : Prop where
  inodes : db'.inodes = db.inodes
  inodeSequence : db'.inodeSequence = db.inodeSequence
  fileRevisions : db'.fileRevisions = db.fileRevisions
  revisionSequence : db'.revisionSequence = db.revisionSequence
  policyTypes : db'.policyTypes = db.policyTypes

theorem SameRevisions.trans {db₁ db₂ db₃ : FileDb} (h : SameRevisions db₁ db₂)
    (h' : SameRevisions db₂ db₃) : SameRevisions db₁ db₃ :=
  ⟨h'.inodes.trans h.inodes, h'.inodeSequence.trans h.inodeSequence,
    h'.fileRevisions.trans h.fileRevisions, h'.revisionSequence.trans h.revisionSequence,
    h'.policyTypes.trans h.policyTypes⟩

/-- An upload job is no matter of revisions. -/
theorem packQueued_refs (c : StoredChunk) (db : FileDb) :
    SameRevisions db (packQueued C c db) ∧ (packQueued C c db).chunkRefs = db.chunkRefs := by
  unfold packQueued
  split
  · exact ⟨⟨rfl, rfl, rfl, rfl, rfl⟩, rfl⟩
  · exact ⟨⟨rfl, rfl, rfl, rfl, rfl⟩, rfl⟩

/-- One written chunk adds one reference. -/
theorem chunkWritten_refs (revisionId offset : ℤ) (item : StoredChunk × Bool) (db : FileDb) :
    SameRevisions db (chunkWritten C revisionId offset item db) ∧
      (chunkWritten C revisionId offset item db).chunkRefs =
        (refWritten C revisionId offset item.1 db).chunkRefs := by
  have hrefs : SameRevisions db (refWritten C revisionId offset item.1 db) :=
    ⟨rfl, rfl, rfl, rfl, rfl⟩
  unfold chunkWritten
  split
  · exact ⟨hrefs, rfl⟩
  · have happended : SameRevisions (refWritten C revisionId offset item.1 db)
        (packAppended C item.1 (refWritten C revisionId offset item.1 db)) :=
      ⟨rfl, rfl, rfl, rfl, rfl⟩
    have hqueued := packQueued_refs (C := C) item.1
      (packAppended C item.1 (refWritten C revisionId offset item.1 db))
    exact ⟨(hrefs.trans happended).trans hqueued.1, hqueued.2⟩

/-- The written chunks add references to themselves, one behind the other. -/
theorem chunksWritten_refs (revisionId offset : ℤ) (items : List (StoredChunk × Bool))
    (db : FileDb) : SameRevisions db (chunksWritten C revisionId offset items db) ∧
      ∃ rows, (chunksWritten C revisionId offset items db).chunkRefs = db.chunkRefs ++ rows ∧
        RefsFrom C offset (items.map Prod.fst) rows ∧ ∀ r ∈ rows, r.revisionId = revisionId := by
  induction items generalizing offset db with
  | nil =>
    refine ⟨⟨rfl, rfl, rfl, rfl, rfl⟩, [], (List.append_nil _).symm, trivial, ?_⟩
    intro r hr
    cases hr
  | cons item rest ih =>
    obtain ⟨hsame, hrefs⟩ := chunkWritten_refs (C := C) revisionId offset item db
    obtain ⟨hsame', rows, hrows, hfrom, hids⟩ := ih (offset + item.1.plaintext.length)
      (chunkWritten C revisionId offset item db)
    have hrow : (refWritten C revisionId offset item.1 db).chunkRefs = db.chunkRefs ++
        [{ id := db.chunkRefSequence + 1, revisionId, chunkId := (item.1.chunkId C).bytes,
           fileOffset := offset, size := item.1.plaintext.length }] := rfl
    rw [hrefs, hrow, List.append_assoc] at hrows
    refine ⟨hsame.trans hsame', _, hrows, ⟨⟨rfl, rfl, rfl⟩, hfrom⟩, ?_⟩
    intro r hr
    rcases List.mem_cons.mp hr with hhead | htail
    · rw [hhead]
    · exact hids r htail

end OmniDrive
