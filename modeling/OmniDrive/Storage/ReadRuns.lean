import OmniDrive.Library.GuardedRuns
import OmniDrive.Storage.CachedReads
import OmniDrive.Storage.WatcherRuns

/-!
# Reads that take turns

Runs of the downloader in which calls load their chunks in turns, chunks are fetched ahead and
served to peers, the vault is locked, files are saved and the cache loses files. As long as a chunk
that is served has the number of its revision, every read has the bytes that were saved. A lookup by
identifier numbers a chunk among the references to it alone, so that serving another one than the
first chunk of a file leaves it in the cache as the first one.
-/

namespace OmniDrive

open StatementProgram GuardedRuns Tables ByteFields Packer Downloader CacheManager

variable {P : Primitives} {C : ChunkPrimitives P} {known : Bytes → Prop} {cur vaultKey : P.Key}
  {keys : UnlockedVaultKeys P} {all chunks : List StoredChunk}

/-! ## Calls in progress -/

/-- The settings of the cache manager and of the packer. -/
structure ReadSystem where
  rootDir : String
  maxBytes : ℕ
  packer : PackerConfig

/-- What a step meets: the providers, the disk of the cache, and the peers for each chunk. -/
structure ReadEnv where
  net : Network
  io : CacheIo
  clients : Bytes → Option PeerClient := fun _ => none

/-- A call in progress, with what it needs to fetch chunks ahead once it is over. -/
structure RunningRead (P : Primitives) where
  task : ReadTask P
  inodePath : String
  revisionSize : ℤ := 0
  firstChunk : Option ℤ := none
  lastChunk : Option ℤ := none

/-- Chunks that are to be fetched ahead. -/
structure PrefetchJob where
  inodeId : ℤ
  revisionId : ℤ
  inodePath : String
  chunkIndexes : List ℤ
  deriving DecidableEq

/-- A range that was asked for, with what was emitted of it. -/
structure ReadAnswer where
  revisionId : ℤ
  offset : ℕ
  length : ℕ
  pieces : List EmittedPiece
  deriving DecidableEq

/-- The store with the calls in progress, and all that was answered, served and saved. -/
structure ReadRun (P : Primitives) where
  world : ReadWorld P ReadSide
  prefetchState : ℤ → Option ℤ := fun _ => none
  running : List (RunningRead P) := []
  waiting : List PrefetchJob := []
  answers : List ReadAnswer := []
  served : List (Bytes × Bytes) := []
  written : List (ℤ × Bytes) := []

/-- What can happen. -/
inductive ReadOp where
  | read (inodeId revisionId : ℤ) (offset length : ℕ)
  | advance (i : ℕ) (env : ReadEnv)
  | abandon (i : ℕ)
  | prefetch
  | serve (chunkId : Bytes) (env : ReadEnv)
  | save (inodeId : ℤ) (source : Bytes)
  | promote (revisionId : ℤ)
  | lock
  | unlock
  | restart
  | tick (now : ℤ)
  | setPeers (peers : List TrustedPeerRecord)
  | setFile (path : String) (payload : Option Bytes)

namespace ReadRun

variable (C : ChunkPrimitives P) (system : ReadSystem)

/-- The path of an inode, or what stands for it. -/
def pathOf (db : FileDb) (inodeId : ℤ) : String :=
  (getInodePath db.inodes inodeId).getD s!"inode/{inodeId}"

/-- Where a call caches its chunks. -/
def place (env : ReadEnv) (r : RunningRead P) : CachePlace where
  io := env.io
  rootDir := system.rootDir
  maxBytes := system.maxBytes
  inodeId := r.task.inodeId
  inodePath := r.inodePath
  isPrefetched := r.task.emission.isNone

/-- Where a chunk is cached that is read by its identifier. -/
def placeById (env : ReadEnv) (db : FileDb) (chunk : Db.ChunkLookupRecord) : CachePlace where
  io := env.io
  rootDir := system.rootDir
  maxBytes := system.maxBytes
  inodeId := chunk.inodeId
  inodePath := pathOf db chunk.inodeId
  isPrefetched := false

def withFiles (files : FileWorld P) (s : ReadRun P) : ReadRun P :=
  { s with world := { s.world with files } }

/-- A read of a range begins. -/
def onRead (inodeId revisionId : ℤ) (offset length : ℕ) (s : ReadRun P) : ReadRun P :=
  match (beginRead inodeId revisionId offset length).run s.world with
  | (.error _, world) => { s with world }
  | (.ok none, world) =>
    { s with world, answers := ⟨revisionId, offset, length, []⟩ :: s.answers }
  | (.ok (some task), world) =>
    let running : RunningRead P :=
      { task
        inodePath := pathOf s.world.files.db inodeId
        revisionSize := ((Db.revisionOf inodeId revisionId s.world.files.db).map (·.size)).getD 0
        firstChunk := task.rest.head?.map (·.chunkIndex)
        lastChunk := task.rest.getLast?.map (·.chunkIndex) }
    { s with world, running := s.running ++ [running] }

/-- `maybe_schedule_prefetch` -/
def schedulePrefetch (r : RunningRead P) (s : ReadRun P) : ReadRun P :=
  match r.firstChunk, r.lastChunk with
  | some first, some last =>
    let revisionId := r.task.revisionId
    let targets := prefetchTargets (s.prefetchState revisionId) r.revisionSize first last
    let job := ⟨r.task.inodeId, revisionId, r.inodePath, targets⟩
    { s with
      prefetchState := Function.update s.prefetchState revisionId (some last)
      waiting := if targets.isEmpty then s.waiting else s.waiting ++ [job] }
  | _, _ => s

/-- A call is over. -/
def finish (r : RunningRead P) (task : ReadTask P) (s : ReadRun P) : ReadRun P :=
  match task.emission with
  | none => s
  | some e => schedulePrefetch r
      { s with answers := ⟨task.revisionId, e.offset, e.length, e.emitted⟩ :: s.answers }

/-- Scheduling has nothing to do with the store. -/
@[simp] theorem world_finish (r : RunningRead P) (task : ReadTask P) (s : ReadRun P) :
    (finish r task s).world = s.world := by
  rw [finish]
  split
  · rfl
  · rw [schedulePrefetch]
    split <;> rfl

/-- A call loads its next chunk. -/
def onAdvance (i : ℕ) (env : ReadEnv) (s : ReadRun P) : ReadRun P :=
  match s.running[i]? with
  | none => s
  | some r =>
    match (r.task.next C env.net (peerSources C (place system env r) env.clients)).run s.world with
    | (.error _, world) => { s with world, running := s.running.eraseIdx i }
    | (.ok task, world) =>
      if task.rest.isEmpty then finish r task { s with world, running := s.running.eraseIdx i }
      else { s with world, running := s.running.set i { r with task } }

/-- The next chunks that are to be fetched ahead. -/
def onPrefetch (s : ReadRun P) : ReadRun P :=
  match s.waiting with
  | [] => s
  | job :: waiting =>
    match (beginPrefetch job.inodeId job.revisionId job.chunkIndexes).run s.world with
    | (.ok (some task), world) =>
      { s with world, waiting, running := s.running ++ [{ task, inodePath := job.inodePath }] }
    | (_, world) => { s with world, waiting }

/-- A chunk is asked for by its identifier. -/
def onServe (chunkId : Bytes) (env : ReadEnv) (s : ReadRun P) : ReadRun P :=
  match (readCachedChunkById C (placeById system env s.world.files.db) env.net chunkId).run
    s.world with
  | (.ok (some bytes), world) => { s with world, served := (chunkId, bytes) :: s.served }
  | (_, world) => { s with world }

/-- Another part of the program saves a revision. -/
def onSave (inodeId : ℤ) (source : Bytes) (s : ReadRun P) : ReadRun P :=
  match (saveFile C system.packer inodeId source none).run s.world.files with
  | (.error _, files) => s.withFiles files
  | (.ok result, files) =>
    { s.withFiles files with written := (result.revisionId, source) :: s.written }

end ReadRun

open ReadRun

/-- One step. -/
def ReadOp.step (C : ChunkPrimitives P) (system : ReadSystem) (keys : UnlockedVaultKeys P)
    (op : ReadOp) (s : ReadRun P) : ReadRun P :=
  match op with
  | .read inodeId revisionId offset length => s.onRead inodeId revisionId offset length
  | .advance i env => s.onAdvance C system i env
  | .abandon i => { s with running := s.running.eraseIdx i }
  | .prefetch => s.onPrefetch
  | .serve chunkId env => s.onServe C system chunkId env
  | .save inodeId source => s.onSave C system inodeId source
  | .promote revisionId =>
    s.withFiles ((Db.promoteRevisionToCurrent revisionId).run s.world.files).2
  | .lock =>
    s.withFiles { s.world.files with vault := { s.world.files.vault with inner := none } }
  | .unlock =>
    s.withFiles { s.world.files with vault := { s.world.files.vault with inner := some keys } }
  | .restart =>
    { s.withFiles { s.world.files with vault := { s.world.files.vault with inner := none } } with
      prefetchState := fun _ => none
      running := []
      waiting := [] }
  | .tick now => s.withFiles { s.world.files with now }
  | .setPeers peers =>
    { s with world := { s.world with cache := { s.world.cache with peers } } }
  | .setFile path payload =>
    let disk := { s.world.cache.disk with
      files := Function.update s.world.cache.disk.files path payload }
    { s with world := { s.world with cache := { s.world.cache with disk } } }

/-! ## What runs keep -/

/-- What holds of a run: the store and the cache are in order, every call in progress has the bytes
of its revision, and so has everything that was answered, served and saved. -/
structure ReadInv (C : ChunkPrimitives P) (known : Bytes → Prop) (cur vaultKey : P.Key)
    (keys : UnlockedVaultKeys P) (rootDir : String) (n : ℕ) (all chunks : List StoredChunk)
    (s : ReadRun P) : Prop where
  reading : Reading C known cur vaultKey keys all chunks rootDir s.world.files.db s.world
  history : (historyOf s.world.files.db).Inv s.world.files.db.inodeSequence
  draws : s.world.files.vault.draws ≤ n
  running : ∀ r ∈ s.running, ∃ file, TaskInv C chunks s.world.files.db file r.task
  answers : ∀ a ∈ s.answers, ∃ file, ContentsOf C chunks s.world.files.db a.revisionId file ∧
    RightPieces file a.offset a.length a.pieces
  served : ∀ v ∈ s.served, ∃ c ∈ chunks, (c.chunkId C).bytes = v.1 ∧ v.2 = c.plaintext
  written : ∀ v ∈ s.written, ContentsOf C chunks s.world.files.db v.1 v.2

theorem ContentsOf.mono {db : FileDb} {revisionId : ℤ} {file : Bytes} {chunks' : List StoredChunk}
    (h : ContentsOf C chunks db revisionId file) (hsub : ∀ c ∈ chunks, c ∈ chunks') :
    ContentsOf C chunks' db revisionId file := by
  obtain ⟨cs, hcs, hpieces⟩ := h.pieces
  exact ⟨h.row, cs, fun c hc => hsub c (hcs c hc), hpieces⟩

section Keep

variable {system : ReadSystem} {n : ℕ} {s : ReadRun P} {w : ReadWorld P ReadSide}

/-- The store as the other parts of the program see it. -/
theorem ReadInv.intact (h : ReadInv C known cur vaultKey keys system.rootDir n all chunks s) :
    Intact C known cur vaultKey keys s.world.files :=
  ⟨h.reading.slot, ⟨all, chunks, h.reading.store⟩, h.history⟩

/-- A step that only loads. -/
theorem ReadInv.loaded (h : ReadInv C known cur vaultKey keys system.rootDir n all chunks s)
    (hreading : Reading C known cur vaultKey keys all chunks system.rootDir s.world.files.db w)
    (hdraws : w.files.vault.draws ≤ n) :
    ReadInv C known cur vaultKey keys system.rootDir n all chunks { s with world := w } := by
  have hdb := hreading.tables
  constructor
  · rw [hdb]
    exact hreading
  · rw [hdb]
    exact h.history
  · exact hdraws
  · rw [hdb]
    exact h.running
  · rw [hdb]
    exact h.answers
  · exact h.served
  · rw [hdb]
    exact h.written

/-- A step of another part of the program carries everything. -/
theorem ReadInv.carry (h : ReadInv C known cur vaultKey keys system.rootDir n all chunks s)
    {files : FileWorld P} (hcarried : Carried C known cur vaultKey keys s.world.files files)
    {all' chunks' : List StoredChunk} (hsub : ∀ c ∈ chunks, c ∈ chunks')
    (hstore : StoreInv C known cur vaultKey all' chunks' (files.opened keys))
    (hdraws : files.vault.draws ≤ n) :
    ReadInv C known cur vaultKey keys system.rootDir n all' chunks' (s.withFiles files) := by
  have hcontents : ∀ {revisionId : ℤ} {file : Bytes},
      ContentsOf C chunks s.world.files.db revisionId file →
        ContentsOf C chunks' files.db revisionId file :=
    fun hold => hcarried.contentsOf h.reading.store hstore hsub hold
  have hpiece : ∀ revisionId chunkIndex bytes,
      PieceAt C chunks s.world.files.db revisionId chunkIndex bytes →
        PieceAt C chunks' files.db revisionId chunkIndex bytes :=
    fun _ _ _ hold => hcarried.pieceAt h.reading.store hstore hsub hold
  refine ⟨⟨hstore, hcarried.slot, rfl, h.reading.holds.mono hpiece⟩, hcarried.history, hdraws,
    fun r hr => ?_, fun a ha => ?_, fun v hv => ?_, fun v hv => hcontents (h.written v hv)⟩
  · obtain ⟨file, htask⟩ := h.running r hr
    refine ⟨file, hcontents htask.contents, htask.sources.mono hsub, fun l hl => ?_, htask.emits⟩
    obtain ⟨c, hc, index, offset, hl', hold, hplain⟩ := htask.located l hl
    exact ⟨c, hsub c hc, index, offset, hl', hpiece _ _ _ hold, hplain⟩
  · obtain ⟨file, hold, hright⟩ := h.answers a ha
    exact ⟨file, hcontents hold, hright⟩
  · obtain ⟨c, hc, hid, hbytes⟩ := h.served v hv
    exact ⟨c, hsub c hc, hid, hbytes⟩

/-- What was running may end. -/
theorem ReadInv.drop (h : ReadInv C known cur vaultKey keys system.rootDir n all chunks s)
    (i : ℕ) : ReadInv C known cur vaultKey keys system.rootDir n all chunks
      { s with running := s.running.eraseIdx i } :=
  ⟨h.reading, h.history, h.draws, fun r hr => h.running r (List.mem_of_mem_eraseIdx hr), h.answers,
    h.served, h.written⟩

theorem ReadInv.separate (h : ReadInv C known cur vaultKey keys system.rootDir n all chunks s)
    (ideal : C.Ideal) (hfree : C.CollisionFree n known) : Separate C all :=
  separate_of_collisionFree ideal hfree h.reading.store.files.known
    (fun c hc => (h.reading.store.files.drawn c hc).trans_le h.draws)
    h.reading.store.files.distinct

/-- What reads rest on in a run. -/
theorem ReadInv.setting (h : ReadInv C known cur vaultKey keys system.rootDir n all chunks s)
    (ideals : P.Ideal) (ideal : C.Ideal) (hfree : C.CollisionFree n known)
    {clients : Bytes → Option PeerClient} (hpeers : HonestPeers C known n clients) :
    ReadSetting C known n all clients :=
  ⟨ideals, ideal, hfree, fun c hc => (h.reading.store.files.drawn c hc).trans_le h.draws,
    h.separate ideal hfree, hpeers⟩

/-- A call that is over leaves an answer with the bytes of its revision. -/
theorem ReadInv.finish (h : ReadInv C known cur vaultKey keys system.rootDir n all chunks s)
    {file : Bytes} {t : ReadTask P} (ht : TaskInv C chunks s.world.files.db file t)
    (hdone : t.rest = []) (r : RunningRead P) :
    ReadInv C known cur vaultKey keys system.rootDir n all chunks (s.finish r t) := by
  rw [ReadRun.finish]
  split
  · exact h
  · rename_i e hemission
    have hpieces := (ht.emits e hemission).pieces
    rw [hdone, windows, List.map_nil, List.filter_nil, List.map_nil, List.append_nil] at hpieces
    have hanswers : ∀ a ∈ (⟨t.revisionId, e.offset, e.length, e.emitted⟩ : ReadAnswer) ::
        s.answers, ∃ file, ContentsOf C chunks s.world.files.db a.revisionId file ∧
          RightPieces file a.offset a.length a.pieces := by
      intro a ha
      rcases List.mem_cons.mp ha with rfl | hold
      · exact ⟨file, ht.contents, hpieces⟩
      · exact h.answers a hold
    rw [schedulePrefetch]
    split
    · exact ⟨h.reading, h.history, h.draws, h.running, hanswers, h.served, h.written⟩
    · exact ⟨h.reading, h.history, h.draws, h.running, hanswers, h.served, h.written⟩

end Keep

/-! ## Steps -/

namespace ReadOp

/-- Peers are honest, saves are of known pieces and of inodes that are there, and nobody but the
cache manager writes a file of the cache that opens. -/
def Legal (C : ChunkPrimitives P) (known : Bytes → Prop) (system : ReadSystem)
    (keys : UnlockedVaultKeys P) (n : ℕ) (op : ReadOp) (s : ReadRun P) : Prop :=
  match op with
  | .advance _ env => HonestPeers C known n env.clients
  | .serve _ env => HonestPeers C known n env.clients
  | .save inodeId source => inodeId ∈ (historyOf s.world.files.db).inodeIds ∧
    ∀ p ∈ piecesOf system.packer.chunkSize source.length source, known p
  | .setFile path payload => ∀ bytes ∈ payload, ∀ revisionId chunkIndex,
    path = cachePathForKey C system.rootDir (cacheKey revisionId chunkIndex) →
      openPayload C (material keys) (cacheKey revisionId chunkIndex) bytes = none
  | _ => True

/-- A chunk that is asked for by its identifier has the number of its revision. -/
def Safe (op : ReadOp) (s : ReadRun P) : Prop :=
  ∀ chunkId env, op = .serve chunkId env → ∀ chunk,
    Db.chunkLookup chunkId s.world.files.db = some chunk →
      Numbered chunkId s.world.files.db chunk

variable {system : ReadSystem} {n : ℕ} {s : ReadRun P}

theorem onRead_inv (ideal : C.Ideal) (hfree : C.CollisionFree n known)
    (h : ReadInv C known cur vaultKey keys system.rootDir n all chunks s) (inodeId revisionId : ℤ)
    (offset length : ℕ) : ReadInv C known cur vaultKey keys system.rootDir n all chunks
      (s.onRead inodeId revisionId offset length) := by
  rw [ReadRun.onRead]
  rcases hrun : (beginRead inodeId revisionId offset length).run s.world with ⟨out, w⟩
  obtain rfl : w = s.world := by
    simpa [hrun] using (fixes_beginRead inodeId revisionId offset length).run s.world
  rcases out with e | task
  · exact h
  obtain ⟨file, hcontents, hzero, htask⟩ :=
    begun_of_run (h.separate ideal hfree) h.reading hrun
  rcases task with _ | t
  · refine ⟨h.reading, h.history, h.draws, h.running, fun a ha => ?_, h.served, h.written⟩
    rcases List.mem_cons.mp ha with rfl | hold
    · refine ⟨file, hcontents, ?_, trivial⟩
      have hempty : slice offset (min (offset + 0) file.length) file = [] := by
        rw [← List.length_eq_zero_iff, length_slice]
        omega
      rw [hzero rfl]
      exact hempty.symm
    · exact h.answers a hold
  · refine ⟨h.reading, h.history, h.draws, fun r hr => ?_, h.answers, h.served, h.written⟩
    rcases List.mem_append.mp hr with hold | hnew
    · exact h.running r hold
    · obtain rfl := List.mem_singleton.mp hnew
      exact ⟨file, htask t rfl⟩

theorem onAdvance_inv (ideals : P.Ideal) (ideal : C.Ideal) (hfree : C.CollisionFree n known)
    (h : ReadInv C known cur vaultKey keys system.rootDir n all chunks s) (i : ℕ) {env : ReadEnv}
    (hpeers : HonestPeers C known n env.clients)
    (hdraws : (s.onAdvance C system i env).world.files.vault.draws ≤ n) :
    ReadInv C known cur vaultKey keys system.rootDir n all chunks (s.onAdvance C system i env) := by
  rw [ReadRun.onAdvance] at hdraws ⊢
  rcases hr : s.running[i]? with _ | r
  · exact h
  rw [hr] at hdraws
  dsimp only at hdraws ⊢
  obtain ⟨file, htask⟩ := h.running r (List.mem_of_getElem? hr)
  rcases hrun : (r.task.next C env.net (peerSources C (place system env r) env.clients)).run
    s.world with ⟨out, w⟩
  obtain ⟨hreading, hnext⟩ := htask.next
    (h.setting ideals ideal hfree hpeers) h.reading hrun
  rw [hrun] at hdraws
  rcases out with e | t
  · exact (h.loaded hreading hdraws).drop i
  have htask' := hnext t rfl
  dsimp only at hdraws ⊢
  split
  · rename_i hdone
    rw [if_pos hdone, ReadRun.world_finish] at hdraws
    have hloaded := (h.loaded hreading hdraws).drop i
    have htask'' : TaskInv C chunks w.files.db file t := by
      rw [hreading.tables]
      exact htask'
    exact hloaded.finish htask'' (List.isEmpty_iff.mp hdone) r
  · rename_i hmore
    rw [if_neg hmore] at hdraws
    have hloaded := h.loaded hreading hdraws
    refine ⟨hloaded.reading, hloaded.history, hloaded.draws, fun r' hr' => ?_, hloaded.answers,
      hloaded.served, hloaded.written⟩
    rcases List.mem_or_eq_of_mem_set hr' with hold | rfl
    · exact hloaded.running r' hold
    · refine ⟨file, ?_⟩
      rw [hreading.tables]
      exact htask'

theorem onPrefetch_inv (ideal : C.Ideal) (hfree : C.CollisionFree n known)
    (h : ReadInv C known cur vaultKey keys system.rootDir n all chunks s) :
    ReadInv C known cur vaultKey keys system.rootDir n all chunks s.onPrefetch := by
  rw [ReadRun.onPrefetch]
  split
  · exact h
  rename_i job waiting hwaiting
  rcases hrun : (beginPrefetch job.inodeId job.revisionId job.chunkIndexes).run s.world with
    ⟨out, w⟩
  obtain rfl : w = s.world := by
    simpa [hrun] using
      (fixes_beginPrefetch job.inodeId job.revisionId job.chunkIndexes).run s.world
  have hsame : ReadInv C known cur vaultKey keys system.rootDir n all chunks
      { s with waiting } :=
    ⟨h.reading, h.history, h.draws, h.running, h.answers, h.served, h.written⟩
  rcases out with e | _ | t
  · exact hsame
  · exact hsame
  · obtain ⟨file, htask⟩ := begun_prefetch_of_run (h.separate ideal hfree) h.reading hrun
    refine ⟨h.reading, h.history, h.draws, fun r hr => ?_, h.answers, h.served, h.written⟩
    rcases List.mem_append.mp hr with hold | hnew
    · exact h.running r hold
    · obtain rfl := List.mem_singleton.mp hnew
      exact ⟨file, htask⟩

theorem onServe_inv (ideals : P.Ideal) (ideal : C.Ideal) (hfree : C.CollisionFree n known)
    (h : ReadInv C known cur vaultKey keys system.rootDir n all chunks s) {chunkId : Bytes}
    {env : ReadEnv} (hpeers : HonestPeers C known n env.clients)
    (hnumber : ∀ chunk, Db.chunkLookup chunkId s.world.files.db = some chunk →
      Numbered chunkId s.world.files.db chunk)
    (hdraws : (s.onServe C system chunkId env).world.files.vault.draws ≤ n) :
    ReadInv C known cur vaultKey keys system.rootDir n all chunks
      (s.onServe C system chunkId env) := by
  rw [ReadRun.onServe] at hdraws ⊢
  rcases hrun : (readCachedChunkById C (placeById system env s.world.files.db) env.net
    chunkId).run s.world with ⟨out, w⟩
  have hplaces : ∀ chunk, (placeById system env s.world.files.db chunk).rootDir =
      system.rootDir := fun _ => rfl
  obtain ⟨hreading, hright⟩ := reading_readCachedChunkById
    (h.setting ideals ideal hfree hpeers) hplaces h.reading hnumber hrun
  rw [hrun] at hdraws
  rcases out with e | _ | bytes
  · exact h.loaded hreading hdraws
  · exact h.loaded hreading hdraws
  · have hloaded := h.loaded hreading hdraws
    refine ⟨hloaded.reading, hloaded.history, hloaded.draws, hloaded.running, hloaded.answers,
      fun v hv => ?_, hloaded.written⟩
    rcases List.mem_cons.mp hv with rfl | hold
    · exact hright bytes rfl
    · exact h.served v hold

theorem onSave_inv (ideal : C.Ideal) (hfree : C.CollisionFree n known)
    (h : ReadInv C known cur vaultKey keys system.rootDir n all chunks s) {inodeId : ℤ}
    {source : Bytes} (hinode : inodeId ∈ (historyOf s.world.files.db).inodeIds)
    (hpieces : ∀ p ∈ piecesOf system.packer.chunkSize source.length source, known p)
    (hdraws : (s.onSave C system inodeId source).world.files.vault.draws ≤ n) :
    ∃ all' chunks', ReadInv C known cur vaultKey keys system.rootDir n all' chunks'
      (s.onSave C system inodeId source) := by
  rw [ReadRun.onSave] at hdraws ⊢
  rcases hsave : (saveFile C system.packer inodeId source none).run s.world.files with ⟨out, files⟩
  have hdraws' : files.vault.draws ≤ n := by
    rw [hsave] at hdraws
    rcases out with e | result <;> exact hdraws
  obtain ⟨hcarried, -⟩ := run_saveFile ideal hfree h.intact hinode system.packer hpieces
    (by simp) hsave hdraws'
  obtain ⟨all', chunks', hsub, hstore, -, hpacked⟩ := run_saveFile_store ideal hfree
    h.reading.slot h.reading.store h.history hinode system.packer hpieces (by simp) hsave hdraws'
  have hnext := h.carry hcarried hsub hstore hdraws'
  refine ⟨all', chunks', ?_⟩
  rcases out with e | result
  · exact hnext
  · obtain ⟨cs, hcs, hfile⟩ := hpacked result rfl
    refine ⟨hnext.reading, hnext.history, hnext.draws, hnext.running, hnext.answers, hnext.served,
      fun v hv => ?_⟩
    rcases List.mem_cons.mp hv with rfl | hold
    · obtain ⟨r, hr, hid, -⟩ := hfile.current
      exact ⟨⟨r, hr, hid⟩, cs, hcs, hfile.refs, hfile.bytes⟩
    · exact hnext.written v hold

/-- A step keeps the invariant. -/
theorem step_inv (ideals : P.Ideal) (ideal : C.Ideal) (hfree : C.CollisionFree n known)
    (op : ReadOp) (h : ReadInv C known cur vaultKey keys system.rootDir n all chunks s)
    (hdraws : (op.step C system keys s).world.files.vault.draws ≤ n)
    (hlegal : op.Legal C known system keys n s) (hsafe : op.Safe s) :
    ∃ all' chunks', ReadInv C known cur vaultKey keys system.rootDir n all' chunks'
      (op.step C system keys s) := by
  have hcarry : ∀ {files : FileWorld P}, Carried C known cur vaultKey keys s.world.files files →
      files.vault.draws ≤ n → ∃ all' chunks',
        ReadInv C known cur vaultKey keys system.rootDir n all' chunks' (s.withFiles files) := by
    intro files hcarried hdraws
    obtain ⟨all', chunks', hsub, hstore⟩ := hcarried.store all chunks h.reading.store
    exact ⟨all', chunks', h.carry hcarried hsub hstore hdraws⟩
  cases op with
  | read inodeId revisionId offset length =>
    exact ⟨all, chunks, onRead_inv ideal hfree h inodeId revisionId offset length⟩
  | advance i env => exact ⟨all, chunks, onAdvance_inv ideals ideal hfree h i hlegal hdraws⟩
  | abandon i => exact ⟨all, chunks, h.drop i⟩
  | prefetch => exact ⟨all, chunks, onPrefetch_inv ideal hfree h⟩
  | serve chunkId env =>
    exact ⟨all, chunks, onServe_inv ideals ideal hfree h hlegal (hsafe chunkId env rfl) hdraws⟩
  | save inodeId source => exact onSave_inv ideal hfree h hlegal.1 hlegal.2 hdraws
  | promote revisionId => exact hcarry (h.intact.promote revisionId) hdraws
  | lock => exact hcarry (h.intact.carried.setSlot (.inl rfl)) hdraws
  | unlock => exact hcarry (h.intact.carried.setSlot (.inr rfl)) hdraws
  | restart =>
    obtain ⟨all', chunks', hlocked⟩ := hcarry (h.intact.carried.setSlot (.inl rfl)) hdraws
    exact ⟨all', chunks', hlocked.reading, hlocked.history, hlocked.draws,
      fun r hr => (by cases hr), hlocked.answers, hlocked.served, hlocked.written⟩
  | tick now =>
    have hcarried := h.intact.carried.edit s.world.files.db.inodes s.world.files.db.inodeSequence
      s.world.files.db.policyTypes now (fun _ hi => hi) h.intact.carried.inodeIds_le
    exact hcarry hcarried hdraws
  | setPeers peers =>
    exact ⟨all, chunks, h.reading.withPeers peers s.world.cache.handed, h.history, h.draws,
      h.running, h.answers, h.served, h.written⟩
  | setFile path payload =>
    refine ⟨all, chunks, ⟨h.reading.store, h.reading.slot, rfl, ?_⟩, h.history, h.draws, h.running,
      h.answers, h.served, h.written⟩
    exact h.reading.holds.setFile hlegal

end ReadOp

/-! ## What is read -/

/-- What was read, served and saved in one state of a run. -/
theorem ReadInv.agrees {system : ReadSystem} {n : ℕ} {s : ReadRun P} (ideal : C.Ideal)
    (hfree : C.CollisionFree n known)
    (h : ReadInv C known cur vaultKey keys system.rootDir n all chunks s) :
    (∃ content : ℤ → Bytes, (∀ v ∈ s.written, content v.1 = v.2) ∧
      ∀ a ∈ s.answers, RightPieces (content a.revisionId) a.offset a.length a.pieces) ∧
    ∀ v ∈ s.served, ∃ k < n, (chunkIdOf C (P.randomKey k) v.2).bytes = v.1 := by
  have hunique : ∀ {revisionId : ℤ} {file : Bytes},
      ContentsOf C chunks s.world.files.db revisionId file →
        Classical.epsilon (ContentsOf C chunks s.world.files.db revisionId) = file :=
    fun hfile => (Classical.epsilon_spec ⟨_, hfile⟩).unique (h.separate ideal hfree)
      h.reading.store.subset hfile
  refine ⟨⟨fun revisionId => Classical.epsilon (ContentsOf C chunks s.world.files.db revisionId),
    fun v hv => hunique (h.written v hv), fun a ha => ?_⟩, fun v hv => ?_⟩
  · obtain ⟨file, hfile, hright⟩ := h.answers a ha
    dsimp only
    rw [hunique hfile]
    exact hright
  · obtain ⟨c, hc, hid, hbytes⟩ := h.served v hv
    refine ⟨c.keyDraw, (h.reading.store.files.drawn c (h.reading.store.subset c hc)).trans_le
      h.draws, ?_⟩
    rw [hbytes, ← hid]
    rfl

/-- In every run in which the chunks that are served have the numbers of their revisions, there is
one content of each revision that was saved as such, and every read that ended has its range. What
was served has the identifier that was asked for. -/
theorem reads_agree (ideals : P.Ideal) (ideal : C.Ideal) {n : ℕ} (hfree : C.CollisionFree n known)
    {system : ReadSystem} {ops : List ReadOp} {s : ReadRun P}
    (hs : ReadInv C known cur vaultKey keys system.rootDir n all chunks s)
    (hlegal : guarded (fun op => op.step C system keys)
      (fun op => op.Legal C known system keys n) ops s)
    (hdraws : ∀ t ∈ states (fun op => op.step C system keys) ops s,
      t.world.files.vault.draws ≤ n)
    (hsafe : guarded (fun op => op.step C system keys) (fun op => op.Safe) ops s) :
    ∀ t ∈ states (fun op => op.step C system keys) ops s,
      (∃ content : ℤ → Bytes, (∀ v ∈ t.written, content v.1 = v.2) ∧
        ∀ a ∈ t.answers, RightPieces (content a.revisionId) a.offset a.length a.pieces) ∧
      ∀ v ∈ t.served, ∃ k < n, (chunkIdOf C (P.randomKey k) v.2).bytes = v.1 := by
  let step := fun (op : ReadOp) (s : ReadRun P) => op.step C system keys s
  let legal := fun (op : ReadOp) (s : ReadRun P) =>
    (step op s).world.files.vault.draws ≤ n ∧ op.Legal C known system keys n s
  let inv := fun (s : ReadRun P) =>
    ∃ all chunks, ReadInv C known cur vaultKey keys system.rootDir n all chunks s
  have hlegal' : guarded step legal ops s := by
    have hdrawn : guarded step (fun op s => (step op s).world.files.vault.draws ≤ n) ops s :=
      guarded_of_states step hdraws fun _ _ _ _ hnext => hnext
    exact guarded_and step hdrawn hlegal
  have hkeep : ∀ (op : ReadOp) (s : ReadRun P), inv s → legal op s → op.Safe s →
      inv (step op s) := by
    intro op s hinv hlegal hsafe
    obtain ⟨all, chunks, h⟩ := hinv
    exact op.step_inv ideals ideal hfree h hlegal.1 hlegal.2 hsafe
  intro t ht
  obtain ⟨all', chunks', hinv⟩ :=
    inv_of_guarded step legal _ inv hkeep ⟨all, chunks, hs⟩ hlegal' hsafe t ht
  exact hinv.agrees ideal hfree

/-- A store without revisions and an empty cache. -/
theorem ReadInv.fresh {vault : VaultWorld P} (hopen : VaultOpen cur vaultKey vault)
    (hinner : vault.inner = some keys) (rootDir : String) (inodes : List InodeRecord)
    (inodeSequence : ℤ) (hle : ∀ i ∈ inodes, i.id ≤ inodeSequence)
    (policyTypes : ℤ → Option String) {n : ℕ} (hdraws : vault.draws ≤ n) :
    ReadInv C known cur vaultKey keys rootDir n [] []
      { world :=
          { files := (FileWorld.fresh vault).withDb { inodes, inodeSequence, policyTypes }
            cache := { disk := ⟨.empty, fun _ => none⟩, peers := [] } } } where
  reading := by
    have hstore : StoreInv C known cur vaultKey [] []
        ((FileWorld.fresh vault).withDb { inodes, inodeSequence, policyTypes }) :=
      (StoreInv.fresh hopen).edit inodes inodeSequence policyTypes 0
    refine ⟨?_, .inr hinner, rfl, .empty⟩
    rwa [FileWorld.opened_of_inner hinner]
  history := by
    refine .fresh le_rfl (fun i hi => ?_) rfl rfl rfl
    obtain ⟨inode, hinode, rfl⟩ := List.mem_map.mp hi
    exact hle inode hinode
  draws := hdraws
  running _ hr := by cases hr
  answers _ ha := by cases ha
  served _ hv := by cases hv
  written _ hv := by cases hv

/-! ## A file of two chunks -/

def twoChunkFile : Bytes := [7, 7, 7, 7, 8]

/-- A chunk of the file. -/
def IsPiece (p : Bytes) : Prop := p = [7, 7, 7, 7] ∨ p = [8]

def oneInode : InodeRecord :=
  { id := 1, parentId := none, name := "a", kind := "FILE", size := 0 }

def emptyReads : ReadRun symbolic :=
  { world :=
      { files := (FileWorld.fresh openVault).withDb
          { inodes := [oneInode], inodeSequence := 1, policyTypes := fun _ => some "LOCAL" }
        cache := { disk := ⟨.empty, fun _ => none⟩, peers := [] } } }

theorem emptyReads_inv : ReadInv symbolicChunks IsPiece (SymbolicKey.random 102) (.random 101)
    openKeys "cache" 7 [] [] emptyReads :=
  .fresh openVault_open rfl "cache" [oneInode] 1 (by simp [oneInode]) _ (by decide)

def smallCache : ReadSystem := ⟨"cache", 100, fourByteChunks⟩

/-- The disk works, and there are no peers. -/
def aloneEnv : ReadEnv :=
  { net := offline
    io := ⟨fun _ => true, fun _ => true, fun _ => true, fun _ => true⟩ }

theorem twoChunks_collisionFree : symbolicChunks.CollisionFree 7 IsPiece := by
  intro i j p q hi hj hp hq h
  rcases hp with rfl | rfl <;> rcases hq with rfl | rfl <;> interval_cases i <;>
    interval_cases j <;> first | exact ⟨rfl, rfl⟩ | exact absurd h (by decide)

def firstChunkId : Bytes := (chunkIdOf symbolicChunks (.random 0) [7, 7, 7, 7]).bytes

/-- Two reads take turns, a chunk is served in between, and the vault is locked before the second
read has its last chunk. -/
def readsInTurn : List ReadOp :=
  [.save 1 twoChunkFile, .read 1 1 0 5, .read 1 1 2 3, .advance 0 aloneEnv, .advance 1 aloneEnv,
    .serve firstChunkId aloneEnv, .advance 0 aloneEnv, .lock, .advance 0 aloneEnv, .unlock,
    .read 1 1 3 1, .advance 0 aloneEnv]

theorem reads_agree_inTurn :
    let step := fun (op : ReadOp) => op.step symbolicChunks smallCache openKeys
    (∃ t ∈ states step readsInTurn emptyReads,
      t.answers.map (fun a => (a.offset, bytesOf a.pieces)) = [(3, [7]), (0, twoChunkFile)] ∧
        t.served = [(firstChunkId, [7, 7, 7, 7])]) ∧
      ∀ t ∈ states step readsInTurn emptyReads,
        (∃ content : ℤ → Bytes, (∀ v ∈ t.written, content v.1 = v.2) ∧
          ∀ a ∈ t.answers, RightPieces (content a.revisionId) a.offset a.length a.pieces) ∧
        ∀ v ∈ t.served, ∃ k < 7,
          (chunkIdOf symbolicChunks (symbolic.randomKey k) v.2).bytes = v.1 := by
  intro step
  have hreached : ∀ t ∈ states step readsInTurn emptyReads, t.world.files.vault.draws ≤ 7 ∧
      ∀ chunk, Db.chunkLookup firstChunkId t.world.files.db = some chunk →
        Numbered firstChunkId t.world.files.db chunk := by
    have hall : ((states step readsInTurn emptyReads).all fun t =>
        t.world.files.vault.draws ≤ 7 && (Db.chunkLookup firstChunkId t.world.files.db).all
          fun chunk => decide (Numbered firstChunkId t.world.files.db chunk)) = true := by
      decide +kernel
    intro t ht
    obtain ⟨hdraws, hnumber⟩ := Bool.and_eq_true_iff.mp (List.all_eq_true.mp hall t ht)
    refine ⟨of_decide_eq_true hdraws, fun chunk hchunk => ?_⟩
    rw [hchunk] at hnumber
    exact of_decide_eq_true hnumber
  have halone : HonestPeers symbolicChunks IsPiece 7 aloneEnv.clients :=
    fun _ _ _ _ hclient => by cases hclient
  have hlegal : guarded step (fun op => op.Legal symbolicChunks IsPiece smallCache openKeys 7)
      readsInTurn emptyReads := by
    refine ⟨⟨List.mem_singleton_self _, fun p hp => ?_⟩, trivial, trivial, halone, halone, halone,
      halone, trivial, halone, trivial, trivial, halone, trivial⟩
    exact (List.mem_pair.mp hp).imp id id
  refine ⟨?_, reads_agree symbolic_ideal symbolicChunks_ideal twoChunks_collisionFree
    emptyReads_inv hlegal (fun t ht => (hreached t ht).1) ?_⟩
  · have hanswered : ((states step readsInTurn emptyReads).any fun t =>
        t.answers.map (fun a => (a.offset, bytesOf a.pieces)) = [(3, [7]), (0, twoChunkFile)] ∧
          t.served = [(firstChunkId, [7, 7, 7, 7])]) = true := by
      decide +kernel
    obtain ⟨t, ht, hmem⟩ := List.any_eq_true.mp hanswered
    exact ⟨t, ht, of_decide_eq_true hmem⟩
  · refine guarded_of_states step (fun t ht => (hreached t ht).2) ?_
    intro op hop t hnumber _ chunkId env hserve
    rw [hserve] at hop
    obtain ⟨rfl, -⟩ : chunkId = firstChunkId ∧ env = aloneEnv := by simpa [readsInTurn] using hop
    exact hnumber

end OmniDrive
