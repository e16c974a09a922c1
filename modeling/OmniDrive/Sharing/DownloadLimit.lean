import OmniDrive.Crypto.SymbolicChunks
import OmniDrive.Sharing.Downloads
import OmniDrive.Storage.RoundTrip

/-!
# The download limit of a link

Where the counter is never advanced beyond the limit, and not to the limit while a client is still
on its way through the file, the limit holds and no client is refused part-way. Two clients that
interleave their chunks both get the file of a link for one download, and a client that asks for
the last chunk first is refused the others.
-/

namespace OmniDrive

open StatementProgram GuardedRuns Tables

variable {P : Primitives}

namespace Downloads

/-- A new link without requests satisfies the invariant. -/
theorem NewLink.inv {shareId : String} {m : ℤ} {n : ℕ} {link : SharedLinkRecord}
    {w : ShareWorld P} (h : NewLink shareId m n link w) :
    Inv shareId m n link.revisionId (Db.chunkLocationsForRevision link.revisionId w.files.db)
      { world := w } := by
  constructor
  · exact ⟨link, h.found, h.limit, rfl, h.unused⟩
  · exact le_max_right m 0
  · rfl
  · exact fun t ht => absurd ht List.not_mem_nil
  · exact fun t ht => absurd ht List.not_mem_nil
  · intro _ client horderly
    cases horderly.first

/-- A link over `n` chunks locates no more than these. -/
theorem NewLink.length_le {shareId : String} {m : ℤ} {n : ℕ} {link : SharedLinkRecord}
    {w : ShareWorld P} (h : NewLink shareId m n link w) :
    (Db.chunkLocationsForRevision link.revisionId w.files.db).length ≤ n := by
  refine (List.length_filterMap_le _ _).trans ?_
  rw [List.length_zipIdx, (orderBy_perm _ _).length_eq, h.chunks]

/-- In every interleaving of chunk requests whose counts are accepted, find a download left, and
use up the last one only when no client is part-way, at most `m` sets of chunks are served and no
client is refused part-way. -/
theorem limitHolds_of_guarded (C : ChunkPrimitives P) {shareId : String} {m : ℤ} {n : ℕ}
    {link : SharedLinkRecord} {w : ShareWorld P} (hnew : NewLink shareId m n link w)
    (ops : List DownloadOp)
    (hguard : guarded (DownloadOp.apply C) (DownloadOp.Guard shareId n) ops { world := w }) :
    ∀ s ∈ states (DownloadOp.apply C) ops { world := w }, s.LimitHolds shareId m n := by
  intro s hs
  have hinv := inv_of_guarded (DownloadOp.apply C) (fun _ _ => True) (DownloadOp.Guard shareId n)
    (Inv shareId m n link.revisionId (Db.chunkLocationsForRevision link.revisionId w.files.db))
    (fun op t ht _ hop => ht.apply C op hop) hnew.inv
    (guarded_of_forall _ (fun _ _ => trivial) ops _) hguard s hs
  exact hinv.limitHolds hnew.length_le

/-! ## A file of two chunks under a link for one download -/

def packedFile : FileWorld symbolic :=
  (StoreOp.pack fourByteChunks 1 [1, 2, 3, 4, 5] none).step symbolicChunks
    (StoreOp.run symbolicChunks
      [.edit [{ id := 1, parentId := none, name := "notes.txt", kind := "FILE", size := 5 }] 1
        (fun _ => some "LOCAL") 0]
      (.fresh openVault))

/-- The owner shares the file. -/
def sharedOnce : ShareWorld symbolic :=
  ((Api.createShareLink "share" 1
    { expiresInHours := none, maxDownloads := some 1, passwordHash := none }).run
      { files := packedFile }).2

def onceLink : SharedLinkRecord :=
  { shareId := "share"
    inodeId := 1
    revisionId := 1
    fileName := "notes.txt"
    fileSize := 5
    createdAt := 0
    maxDownloads := some 1 }

theorem sharedOnce_newLink : NewLink "share" 1 2 onceLink sharedOnce := by
  constructor <;> decide +kernel

def ask (client : ℕ) (chunkIndex : ℤ) : DownloadOp :=
  .request client { shareId := "share", chunkIndex, downloader := some offline }

/-- A request that runs to its end. -/
def serve (i : ℕ) : List DownloadOp := List.replicate 6 (.step i)

/-- The state after some operations on the shared file. -/
def after (ops : List DownloadOp) : Downloads symbolic :=
  ops.foldl (fun s op => op.apply symbolicChunks s) { world := sharedOnce }

/-- A client that asks for the first chunk and then for the last one. -/
def inOrder : List DownloadOp := ask 0 0 :: serve 0 ++ ask 0 1 :: serve 1

/-- A request that is not about to count a download of the link. -/
def quiet (i : ℕ) (s : Downloads symbolic) : Bool := s.requests[i]?.all fun t => match t.point with
  | .count chunkCount _ => t.req.chunkIndex ≠ (chunkCount : ℤ) - 1
  | _ => true

theorem guard_of_quiet {i : ℕ} {s : Downloads symbolic} (h : quiet i s = true) :
    DownloadOp.Guard "share" 2 (.step i) s := by
  intro t chunkCount encrypted ht _ hpoint hlast
  rw [quiet, ht, Option.all_some, hpoint] at h
  simp [hlast] at h

/-- No request of the run is about to count a download of the link. -/
def quietRun : List DownloadOp → Downloads symbolic → Bool
  | [], _ => true
  | op :: rest, s =>
    (match op with
      | .step i => quiet i s
      | _ => true) && quietRun rest (op.apply symbolicChunks s)

theorem guarded_of_quietRun {ops : List DownloadOp} {s : Downloads symbolic}
    (h : quietRun ops s = true) :
    guarded (DownloadOp.apply symbolicChunks) (DownloadOp.Guard "share" 2) ops s := by
  induction ops generalizing s with
  | nil => trivial
  | cons op rest ih =>
    obtain ⟨hop, hrest⟩ := (Bool.and_eq_true _ _).mp h
    refine ⟨?_, ih hrest⟩
    cases op with
    | step i => exact guard_of_quiet hop
    | tick _ | request _ _ | revoke _ => trivial

/-- The client has looked the link up for both chunks when its download is counted. -/
theorem guard_inOrder : DownloadOp.Guard "share" 2 (.step 1) (after (inOrder.take 13)) := by
  have haccepted : (after (inOrder.take 13)).requests[1]?.all
      (fun t => !t.req.faults.increment) = true := by decide +kernel
  have hlink : (after (inOrder.take 13)).world.link? "share" = some onceLink := by
    decide +kernel
  have hclient : ∀ t ∈ (after (inOrder.take 13)).requests, t.client = 0 ∧ t.HasLooked = true := by
    decide +kernel
  have hasked : ∀ i : ℕ, i < 2 → ∃ t ∈ (after (inOrder.take 13)).requests,
      t.req.shareId = "share" ∧ t.req.chunkIndex = i := by decide +kernel
  intro t chunkCount encrypted ht _ _ _
  rw [ht, Option.all_some, Bool.not_eq_true'] at haccepted
  refine ⟨haccepted, ?_⟩
  intro link m hfound hlimit
  rw [hlink, Option.some.injEq] at hfound
  rw [← hfound] at hlimit ⊢
  cases hlimit
  refine ⟨by decide, ?_⟩
  intro _ client hpartWay
  obtain ⟨horderly, i, hi, hnever⟩ := hpartWay
  obtain ⟨u, hu⟩ : ∃ u, u ∈ (after (inOrder.take 13)).requestsOf "share" client := by
    have hfirst := horderly.first
    cases hhead : ((after (inOrder.take 13)).requestsOf "share" client).head? with
    | none =>
      rw [hhead] at hfirst
      cases hfirst
    | some u => exact ⟨u, List.mem_of_head? hhead⟩
  obtain ⟨hmem, -, hsame⟩ := mem_requestsOf.mp hu
  obtain ⟨v, hv, hshare, hindex⟩ := hasked i hi
  have hours : v.client = client := (hclient v hv).1.trans ((hclient u hmem).1.symm.trans hsame)
  have hlooked := hnever v (mem_requestsOf.mpr ⟨hv, hshare, hours⟩) hindex
  rw [(hclient v hv).2] at hlooked
  cases hlooked

/-- A client that asks for the chunks in order gets the file, and keeps the promises. -/
theorem inOrder_limitHolds : NewLink "share" 1 2 onceLink sharedOnce ∧
    ∀ s ∈ states (DownloadOp.apply symbolicChunks) inOrder { world := sharedOnce },
      s.LimitHolds "share" 1 2 := by
  refine ⟨sharedOnce_newLink, ?_⟩
  apply limitHolds_of_guarded symbolicChunks sharedOnce_newLink
  have hquiet : quietRun (inOrder.take 13) { world := sharedOnce } = true := by decide +kernel
  exact (guarded_append _ _ (inOrder.take 13) [.step 1] _).mpr
    ⟨guarded_of_quietRun hquiet, guard_inOrder, trivial⟩

/-- Two clients that ask for the chunks side by side. -/
def race : List DownloadOp :=
  ask 0 0 :: serve 0 ++ ask 1 0 :: serve 1 ++ ask 0 1 :: ask 1 1 :: .step 2 :: .step 3 ::
    serve 2 ++ serve 3

/-- A client that asks for the last chunk first. -/
def lastFirst : List DownloadOp := ask 0 1 :: serve 0 ++ ask 0 0 :: serve 1

/-- Both clients get the file of a link for one download, and the client that asks for the last
chunk first is refused the other one. -/
theorem limitHolds_fails : NewLink "share" 1 2 onceLink sharedOnce ∧
    ¬ (after race).LimitHolds "share" 1 2 ∧ ¬ (after lastFirst).LimitHolds "share" 1 2 := by
  refine ⟨sharedOnce_newLink, ?_, ?_⟩
  · intro h
    have hserved : ∀ i : ℕ, i < 2 →
        2 ≤ (after race).requests.countP (·.Served "share" i) := by decide +kernel
    have hle := h.sets (by decide) 2 hserved
    omega
  · intro h
    obtain ⟨t, ht, hshare, hclient, hlimit⟩ : ∃ t ∈ (after lastFirst).requests,
        t.req.shareId = "share" ∧ t.client = 0 ∧ t.LimitRefused = true := by decide +kernel
    have horderly : (after lastFirst).Orderly "share" 2 0 := by
      constructor <;> decide +kernel
    have hallowed := h.partway t ht hshare (hclient ▸ horderly)
    rw [hlimit] at hallowed
    cases hallowed

end Downloads

end OmniDrive
