import OmniDrive.Library.Interruption
import OmniDrive.Sharing.Handlers

/-!
# Chunk requests in flight

A chunk request that others interleave with stands between two statements of its handler. The
points are those of `get_share_chunk`: the lookup of the link, the check of the row it found, the
check of the password, the lookup of the chunk, its fetch, and the count of the download. What is
left of the handler at a point is a suffix of its program.
-/

namespace OmniDrive

open StatementProgram

variable {P : Primitives}

/-- Where a chunk request stands, with the values it has read. -/
inductive DownloadPoint where
  | lookup
  | check (link : SharedLinkRecord)
  | password (link : SharedLinkRecord)
  | locations (link : SharedLinkRecord)
  | fetch (net : Network) (chunks : List FileChunkLocation) (chunk : FileChunkLocation)
  | count (chunkCount : ℕ) (encrypted : EncryptedChunkBytes)
  | refused (link : SharedLinkRecord) (now : ℤ)
  | returned (outcome : Except ApiError Bytes)

/-- A request with the client that makes it, and whether the link had downloads left when it came
in. -/
structure DownloadThread where
  client : ℕ
  req : Api.ChunkRequest
  linkOpen : Bool
  point : DownloadPoint := .lookup

namespace DownloadThread

variable (C : ChunkPrimitives P) (t : DownloadThread)

/-! ## The parts of the handler -/

def lookupPart : ShareApiProg P SharedLinkRecord := do
  let link ← shareQuery (refusable t.req.faults.lookup (Db.getSharedLink t.req.shareId))
  Prog.ofOption (.notFound "share" t.req.shareId) link

def locationsPart (link : SharedLinkRecord) :
    ShareApiProg P (Network × List FileChunkLocation × FileChunkLocation) := do
  let net ← Prog.ofOption (.serviceUnavailable "downloader unavailable") t.req.downloader
  let chunks ← shareQuery
    (refusable t.req.faults.locations (Db.getChunkLocationsForRevision link.revisionId))
  let chunk ← Prog.ofExcept (Api.findChunk t.req.chunkIndex chunks)
  pure (net, chunks, chunk)

def fetchPart (net : Network) (chunk : FileChunkLocation) :
    ShareApiProg P EncryptedChunkBytes :=
  (onFiles (Downloader.getEncryptedChunkBytes C net chunk)).mapError fun _ =>
    .internal "chunk fetch failed"

/-! ## The rest of the handler -/

def fromCount (chunkCount : ℕ) (encrypted : EncryptedChunkBytes) : ShareApiProg P Bytes := do
  Api.countIfLast t.req chunkCount
  pure encrypted.toBytes

def fromFetch (net : Network) (chunks : List FileChunkLocation) (chunk : FileChunkLocation) :
    ShareApiProg P Bytes := do
  let encrypted ← fetchPart C net chunk
  t.fromCount chunks.length encrypted

def fromLocations (link : SharedLinkRecord) : ShareApiProg P Bytes := do
  let (net, chunks, chunk) ← t.locationsPart link
  t.fromFetch C net chunks chunk

def fromPassword (link : SharedLinkRecord) : ShareApiProg P Bytes := do
  Api.checkSharePasswordAccess t.req.faults.password link t.req.token
  t.fromLocations C link

def fromCheck (link : SharedLinkRecord) : ShareApiProg P Bytes := do
  let now ← Prog.query ShareWorld.now
  if !Db.isSharedLinkValid now link then .fail (.gone "share is invalid")
  else t.fromPassword C link

/-- What is left of the handler. -/
def remaining : ShareApiProg P Bytes :=
  match t.point with
  | .lookup => do
    let link ← t.lookupPart
    t.fromCheck C link
  | .check link => t.fromCheck C link
  | .password link => t.fromPassword C link
  | .locations link => t.fromLocations C link
  | .fetch net chunks chunk => t.fromFetch C net chunks chunk
  | .count chunkCount encrypted => t.fromCount chunkCount encrypted
  | .refused _ _ => .fail (.gone "share is invalid")
  | .returned (.ok bytes) => .ret bytes
  | .returned (.error e) => .fail e

/-! ## Steps -/

/-- The point behind a part of the handler that ended so. -/
def DownloadPoint.after {α : Type} (k : α → DownloadPoint) : Except ApiError α → DownloadPoint
  | .ok a => k a
  | .error e => .returned (.error e)

/-- One part of the handler. -/
def next (w : ShareWorld P) : DownloadThread × ShareWorld P :=
  match t.point with
  | .lookup =>
    ({ t with point := DownloadPoint.after .check (t.lookupPart.run w).1 }, (t.lookupPart.run w).2)
  | .check link =>
    ({ t with
        point := if Db.isSharedLinkValid w.now link then .password link
          else .refused link w.now }, w)
  | .password link =>
    let result := (Api.checkSharePasswordAccess t.req.faults.password link t.req.token).run w
    ({ t with point := DownloadPoint.after (fun _ => .locations link) result.1 }, result.2)
  | .locations link =>
    ({ t with
        point := DownloadPoint.after (fun found => .fetch found.1 found.2.1 found.2.2)
          ((t.locationsPart link).run w).1 },
      ((t.locationsPart link).run w).2)
  | .fetch net chunks chunk =>
    ({ t with
        point := DownloadPoint.after (.count chunks.length) ((fetchPart C net chunk).run w).1 },
      ((fetchPart C net chunk).run w).2)
  | .count chunkCount encrypted =>
    ({ t with point := .returned (.ok encrypted.toBytes) },
      ((Api.countIfLast t.req chunkCount).run w).2)
  | .refused _ _ => (t, w)
  | .returned _ => (t, w)

/-- A request starts as the whole handler. -/
theorem remaining_start (client : ℕ) (req : Api.ChunkRequest) (linkOpen : Bool) :
    DownloadThread.remaining C { client, req, linkOpen } = Api.getShareChunk C req := by
  simp only [remaining, lookupPart, Api.getShareChunk, Prog.bind_assoc, fromCheck, fromPassword,
    fromLocations, locationsPart, fromFetch, fromCount, fetchPart, Prog.ret_bind,
    Prog.pure_eq_ret]

variable {C} {t}

/-! ## What the parts do -/

/-- The lookup changes nothing, and returns the row of the link. -/
theorem run_lookupPart (w : ShareWorld P) : (t.lookupPart.run w).2 = w ∧
    ∀ link, (t.lookupPart.run w).1 = .ok link → w.link? t.req.shareId = some link := by
  unfold lookupPart shareQuery
  cases t.req.faults.lookup with
  | true =>
    refine ⟨rfl, ?_⟩
    intro link hok
    cases hok
  | false =>
    change ((Prog.ofOption _ (w.link? t.req.shareId) : ShareApiProg P _).run w).2 = w ∧
      ∀ link, ((Prog.ofOption _ (w.link? t.req.shareId) : ShareApiProg P _).run w).1 = .ok link →
        w.link? t.req.shareId = some link
    cases w.link? t.req.shareId with
    | none =>
      refine ⟨rfl, ?_⟩
      intro link hok
      cases hok
    | some found =>
      refine ⟨rfl, ?_⟩
      intro link hok
      cases hok
      rfl

/-- The check of the password changes nothing. -/
theorem run_checkPassword (fault : Bool) (link : SharedLinkRecord) (token : Option String)
    (w : ShareWorld P) : ((Api.checkSharePasswordAccess fault link token).run w).2 = w := by
  have hfixes : (Api.checkSharePasswordAccess (P := P) fault link token).Fixes id := by
    unfold Api.checkSharePasswordAccess
    split
    · exact Prog.Fixes.pure _
    · split
      · apply Prog.Fixes.bind
        · apply Prog.Fixes.mapError
          cases fault
          · exact Prog.Fixes.query _
          · trivial
        · intro valid
          cases valid
          · trivial
          · exact Prog.Fixes.pure _
      · trivial
  exact hfixes.run w

/-- A chunk that is found is one of the chunks, with the index asked for. -/
theorem findChunk_ok {chunkIndex : ℤ} {chunks : List FileChunkLocation}
    {chunk : FileChunkLocation} (h : Api.findChunk chunkIndex chunks = .ok chunk) :
    chunk ∈ chunks ∧ chunk.chunkIndex = chunkIndex := by
  unfold Api.findChunk at h
  split at h
  · next found hfound =>
    cases h
    refine ⟨List.mem_of_find?_eq_some hfound, ?_⟩
    simpa using List.find?_some hfound
  · cases h

/-- The lookup of the chunk changes nothing, and returns the chunks of the revision and the one
that was asked for. -/
theorem run_locationsPart (link : SharedLinkRecord) (w : ShareWorld P) :
    ((t.locationsPart link).run w).2 = w ∧
      ∀ net chunks chunk, ((t.locationsPart link).run w).1 = .ok (net, chunks, chunk) →
        chunks = Db.chunkLocationsForRevision link.revisionId w.files.db ∧ chunk ∈ chunks ∧
          chunk.chunkIndex = t.req.chunkIndex := by
  unfold locationsPart shareQuery
  cases t.req.downloader with
  | none =>
    refine ⟨rfl, ?_⟩
    intro net chunks chunk hok
    cases hok
  | some net =>
    cases t.req.faults.locations with
    | true =>
      refine ⟨rfl, ?_⟩
      intro net chunks chunk hok
      cases hok
    | false =>
      have hrun : (do
          let net ← Prog.ofOption (.serviceUnavailable "downloader unavailable") (some net)
          let chunks ← (refusable false (Db.getChunkLocationsForRevision link.revisionId)).mapError
            ApiError.database
          let chunk ← Prog.ofExcept (Api.findChunk t.req.chunkIndex chunks)
          pure (net, chunks, chunk) : ShareApiProg P _).run w =
          ((Api.findChunk t.req.chunkIndex
            (Db.chunkLocationsForRevision link.revisionId w.files.db)).map
            fun chunk => (net, Db.chunkLocationsForRevision link.revisionId w.files.db, chunk),
            w) := by
        change (Prog.ofExcept (Api.findChunk t.req.chunkIndex
            (Db.chunkLocationsForRevision link.revisionId w.files.db)) >>= fun chunk =>
            (pure (net, Db.chunkLocationsForRevision link.revisionId w.files.db, chunk) :
              ShareApiProg P _)).run w = _
        cases Api.findChunk t.req.chunkIndex
          (Db.chunkLocationsForRevision link.revisionId w.files.db) <;> rfl
      rw [hrun]
      refine ⟨rfl, ?_⟩
      intro net' chunks chunk hok
      cases hfind : Api.findChunk t.req.chunkIndex
          (Db.chunkLocationsForRevision link.revisionId w.files.db) with
      | error e =>
        rw [hfind] at hok
        cases hok
      | ok found =>
        rw [hfind] at hok
        cases hok
        exact ⟨rfl, findChunk_ok hfind⟩

/-- Fetching the chunk leaves the links and the file tables as they are. -/
theorem run_fetchPart (net : Network) (chunk : FileChunkLocation) (w : ShareWorld P) :
    ((fetchPart C net chunk).run w).2.sharedLinks = w.sharedLinks ∧
      ((fetchPart C net chunk).run w).2.files.db = w.files.db := by
  have hdb := (Downloader.fixes_getEncryptedChunkBytes C net chunk).run w.files
  rw [fetchPart, Prog.run_mapError, run_onFiles]
  exact ⟨rfl, hdb⟩

/-- The download is counted for a request that asks for the last chunk, unless the database
refuses. -/
theorem run_countIfLast (req : Api.ChunkRequest) (chunkCount : ℕ) (w : ShareWorld P) :
    (Api.countIfLast req chunkCount).run w =
      (.ok (), if req.chunkIndex = (chunkCount : ℤ) - 1 ∧ req.faults.increment = false
        then Db.countDownload req.shareId w else w) := by
  unfold Api.countIfLast
  by_cases hlast : req.chunkIndex = (chunkCount : ℤ) - 1
  · cases hfault : req.faults.increment <;> simp only [hlast, if_true] <;> rfl
  · simp only [hlast, if_false, false_and]
    rfl

/-! ## What a step leaves alone -/

/-- No step changes what a request asks for. -/
theorem next_req (w : ShareWorld P) : (t.next C w).1.client = t.client ∧
    (t.next C w).1.req = t.req ∧ (t.next C w).1.linkOpen = t.linkOpen := by
  unfold next
  cases t.point <;> exact ⟨rfl, rfl, rfl⟩

/-- A part of the handler is run by some of the statements of the handler. -/
theorem exists_steps_bind {α β : Type} (p : ShareApiProg P α) (k : α → ShareApiProg P β)
    (w : ShareWorld P) : ∃ n, (p >>= k).steps n w = match (p.run w).1 with
      | .ok a => (k a, (p.run w).2)
      | .error e => (.fail e, (p.run w).2) := by
  refine ⟨p.count w, ?_⟩
  rcases hrun : p.run w with ⟨e | a, w'⟩
  · simp only [Prog.steps_bind_of_error hrun]
  · have hsteps := Prog.steps_bind_add hrun 0 (k := k)
    rw [Prog.steps_zero] at hsteps
    exact hsteps

/-- One step of a request is some of the statements of the handler. -/
theorem steps_next (C : ChunkPrimitives P) (t : DownloadThread) (w : ShareWorld P) :
    ∃ n, (t.remaining C).steps n w = ((t.next C w).1.remaining C, (t.next C w).2) := by
  obtain ⟨client, req, linkOpen, point⟩ := t
  cases point with
  | lookup =>
    obtain ⟨n, hn⟩ := exists_steps_bind (lookupPart ⟨client, req, linkOpen, .lookup⟩)
      (fromCheck C ⟨client, req, linkOpen, .lookup⟩) w
    refine ⟨n, hn.trans ?_⟩
    rcases hrun : (lookupPart ⟨client, req, linkOpen, .lookup⟩).run w with ⟨e | link, w'⟩ <;>
      simp [next, hrun, DownloadPoint.after, remaining, fromCheck, fromPassword, fromLocations,
        fromFetch, fromCount, locationsPart]
  | check link =>
    refine ⟨1, ?_⟩
    cases hvalid : Db.isSharedLinkValid w.now link <;>
      simp [remaining, fromCheck, Prog.query, next, hvalid, fromPassword, fromLocations,
        fromFetch, fromCount, locationsPart]
  | password link =>
    obtain ⟨n, hn⟩ := exists_steps_bind
      (Api.checkSharePasswordAccess req.faults.password link req.token)
      (fun _ => fromLocations C ⟨client, req, linkOpen, .password link⟩ link) w
    refine ⟨n, hn.trans ?_⟩
    rcases hrun : (Api.checkSharePasswordAccess req.faults.password link req.token).run w with
      ⟨e | u, w'⟩ <;>
      simp [next, hrun, DownloadPoint.after, remaining, fromLocations, fromFetch, fromCount,
        locationsPart]
  | locations link =>
    obtain ⟨n, hn⟩ := exists_steps_bind (locationsPart ⟨client, req, linkOpen, .locations link⟩ link)
      (fun found => fromFetch C ⟨client, req, linkOpen, .locations link⟩ found.1 found.2.1
        found.2.2) w
    refine ⟨n, hn.trans ?_⟩
    rcases hrun : (locationsPart ⟨client, req, linkOpen, .locations link⟩ link).run w with
      ⟨e | found, w'⟩ <;>
      simp [next, hrun, DownloadPoint.after, remaining, fromFetch, fromCount]
  | fetch net chunks chunk =>
    obtain ⟨n, hn⟩ := exists_steps_bind (fetchPart C net chunk)
      (fromCount ⟨client, req, linkOpen, .fetch net chunks chunk⟩ chunks.length) w
    refine ⟨n, hn.trans ?_⟩
    rcases hrun : (fetchPart C net chunk).run w with ⟨e | encrypted, w'⟩ <;>
      simp [next, hrun, DownloadPoint.after, remaining, fromCount]
  | count chunkCount encrypted =>
    obtain ⟨n, hn⟩ := exists_steps_bind (Api.countIfLast (P := P) req chunkCount)
      (fun _ => .ret encrypted.toBytes) w
    refine ⟨n, hn.trans ?_⟩
    obtain ⟨u, w', hrun⟩ : ∃ u w', (Api.countIfLast (P := P) req chunkCount).run w =
        (.ok u, w') := by
      unfold Api.countIfLast
      split
      · cases req.faults.increment <;> exact ⟨_, _, rfl⟩
      · exact ⟨_, _, rfl⟩
    simp [next, hrun, remaining]
  | refused link now =>
    exact ⟨0, rfl⟩
  | returned outcome =>
    refine ⟨0, ?_⟩
    rw [Prog.steps_zero]
    rfl

end DownloadThread

end OmniDrive
