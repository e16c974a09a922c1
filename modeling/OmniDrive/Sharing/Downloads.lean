import OmniDrive.Library.GuardedRuns
import OmniDrive.Library.Threads
import OmniDrive.Sharing.DownloadThreads

/-!
# Downloads in any order

Chunk requests of any number of clients, interleaved step by step. Every request reads the counter
of the link, and the request for the last chunk alone advances it, behind the fetch of its chunk.
The invariant relates the counter to the chunks that have been served and to what the clients have
looked up, as long as every count meets its condition.
-/

namespace OmniDrive

open StatementProgram GuardedRuns Tables

variable {P : Primitives}

/-- The world and the requests in flight, in the order in which they came in. -/
structure Downloads (P : Primitives) where
  world : ShareWorld P
  requests : List DownloadThread := []

inductive DownloadOp where
  | tick (ms : ℕ)
  | request (client : ℕ) (req : Api.ChunkRequest)
  | step (i : ℕ)
  | revoke (shareId : String)

namespace Downloads

/-- Whether a link is valid, with downloads left. -/
def linkOpen (shareId : String) (w : ShareWorld P) : Bool :=
  (w.link? shareId).any (Db.isSharedLinkValid w.now)

end Downloads

def DownloadOp.apply (C : ChunkPrimitives P) : DownloadOp → Downloads P → Downloads P
  | tick ms, s => { s with world.files.now := s.world.files.now + ms }
  | request client req, s =>
    { s with
      requests := s.requests ++
        [{ client, req, linkOpen := Downloads.linkOpen req.shareId s.world }] }
  | step i, s => match s.requests[i]? with
    | none => s
    | some t => { s with world := (t.next C s.world).2, requests := s.requests.set i (t.next C s.world).1 }
  | revoke shareId, s => { s with world := ((Db.revokeSharedLink shareId).run s.world).2 }

/-! ## What the limit promises -/

namespace DownloadThread

/-- A request for a chunk of a link that has been served. -/
def Served (shareId : String) (chunkIndex : ℤ) (t : DownloadThread) : Bool :=
  t.req.shareId = shareId && t.req.chunkIndex = chunkIndex && match t.point with
    | .returned (.ok _) => true
    | _ => false

/-- A request that found the link exhausted, and neither revoked nor expired. -/
def LimitRefused (t : DownloadThread) : Bool := match t.point with
  | .refused link now => link.revoked = 0 && link.expiresAt.all (now ≤ ·)
  | _ => false

/-- A request that has looked the link up. -/
def HasLooked (t : DownloadThread) : Bool := match t.point with
  | .lookup => false
  | _ => true

end DownloadThread

namespace Downloads

/-- The requests of a client for chunks of a link. -/
def requestsOf (shareId : String) (client : ℕ) (s : Downloads P) : List DownloadThread :=
  s.requests.filter fun t => t.req.shareId = shareId && t.client = client

/-- A client that asks for each of the `n` chunks once at most, and whose first request found the
link valid with downloads left. -/
structure Orderly (shareId : String) (n : ℕ) (client : ℕ) (s : Downloads P) : Prop where
  once : ((s.requestsOf shareId client).map (·.req.chunkIndex)).Nodup
  chunks : ∀ t ∈ s.requestsOf shareId client, 0 ≤ t.req.chunkIndex ∧ t.req.chunkIndex < n
  first : (s.requestsOf shareId client).head?.any (·.linkOpen) = true

/-- No more than `m` sets of all chunks have been served, and no orderly client has been refused
because the downloads were used up. -/
structure LimitHolds (shareId : String) (m : ℤ) (n : ℕ) (s : Downloads P) : Prop where
  sets : 0 < n → ∀ k : ℕ, (∀ i : ℕ, i < n → k ≤ s.requests.countP (·.Served shareId i)) →
    (k : ℤ) ≤ max m 0
  partway : ∀ t ∈ s.requests, t.req.shareId = shareId → s.Orderly shareId n t.client →
    t.LimitRefused = false

/-- An orderly client that has not looked the link up for every chunk. -/
def PartWay (shareId : String) (n : ℕ) (client : ℕ) (s : Downloads P) : Prop :=
  s.Orderly shareId n client ∧ ∃ i : ℕ, i < n ∧
    ∀ t ∈ s.requestsOf shareId client, t.req.chunkIndex = i → t.HasLooked = false

/-- A new link over a file of `n` chunks. -/
structure NewLink (shareId : String) (m : ℤ) (n : ℕ) (link : SharedLinkRecord)
    (w : ShareWorld P) : Prop where
  found : w.link? shareId = some link
  limit : link.maxDownloads = some m
  unused : link.downloadCount = 0
  chunks : (w.files.db.chunkRefs.filter (·.revisionId = link.revisionId)).length = n

end Downloads

/-- The condition on a step: a request that counts its download finds the counter below the limit,
the count is not refused, and it does not use up the last download while a client is part-way. -/
def DownloadOp.Guard (shareId : String) (n : ℕ) (op : DownloadOp) (s : Downloads P) : Prop :=
  match op with
  | .step i => ∀ t chunkCount encrypted, s.requests[i]? = some t → t.req.shareId = shareId →
    t.point = .count chunkCount encrypted → t.req.chunkIndex = (chunkCount : ℤ) - 1 →
      t.req.faults.increment = false ∧
        ∀ link m, s.world.link? shareId = some link → link.maxDownloads = some m →
          link.downloadCount < m ∧
            (link.downloadCount + 1 = m → ∀ client, ¬ s.PartWay shareId n client)
  | _ => True

/-! ## The invariant -/

namespace DownloadThread

/-- What no step of a request changes. -/
def key (t : DownloadThread) : ℕ × Api.ChunkRequest × Bool := (t.client, t.req, t.linkOpen)

/-- What a request knows of the chunks of its link. -/
def Sound (revisionId : ℤ) (chunks : List FileChunkLocation) (t : DownloadThread) : Prop :=
  match t.point with
  | .check link => link.revisionId = revisionId
  | .password link => link.revisionId = revisionId
  | .locations link => link.revisionId = revisionId
  | .fetch _ found chunk =>
    found = chunks ∧ t.req.chunkIndex ∈ chunks.map (·.chunkIndex) ∧ chunk ∈ chunks
  | .count chunkCount _ =>
    chunkCount = chunks.length ∧ t.req.chunkIndex ∈ chunks.map (·.chunkIndex)
  | .returned (.ok _) => t.req.chunkIndex ∈ chunks.map (·.chunkIndex)
  | _ => True

/-- A request that read a row with downloads left, or found the link revoked or expired. -/
def Below (t : DownloadThread) : Prop :=
  match t.point with
  | .check link => link.maxDownloads.all (link.downloadCount < ·) = true
  | .refused _ _ => t.LimitRefused = false
  | _ => True

section Next

variable {C : ChunkPrimitives P} {w : ShareWorld P} {t : DownloadThread}

theorem key_next : (t.next C w).1.key = t.key := by
  obtain ⟨hclient, hreq, hopen⟩ := t.next_req (C := C) w
  rw [key, key, hclient, hreq, hopen]

/-- A request has looked the link up after its first step. -/
theorem hasLooked_next : (t.next C w).1.HasLooked = true := by
  unfold next
  cases hpoint : t.point with
  | lookup =>
    simp only [HasLooked]
    cases (t.lookupPart.run w).1 <;> rfl
  | check link =>
    simp only [HasLooked]
    cases Db.isSharedLinkValid w.now link <;> rfl
  | password link =>
    simp only [HasLooked]
    cases ((Api.checkSharePasswordAccess t.req.faults.password link t.req.token).run w).1 <;> rfl
  | locations link =>
    simp only [HasLooked]
    cases ((t.locationsPart link).run w).1 <;> rfl
  | fetch net chunks chunk =>
    simp only [HasLooked]
    cases ((fetchPart C net chunk).run w).1 <;> rfl
  | count chunkCount encrypted => rfl
  | refused link now => simp only [HasLooked, hpoint]
  | returned outcome => simp only [HasLooked, hpoint]

/-- A step that does not count leaves the links and the file tables alone, and serves nothing. -/
theorem next_quiet (hcount : ∀ chunkCount encrypted, t.point ≠ .count chunkCount encrypted)
    (shareId : String) (chunkIndex : ℤ) :
    (t.next C w).2.sharedLinks = w.sharedLinks ∧ (t.next C w).2.files.db = w.files.db ∧
      (t.next C w).1.Served shareId chunkIndex = t.Served shareId chunkIndex := by
  unfold next
  cases hpoint : t.point with
  | lookup =>
    simp only [Served, hpoint, (t.run_lookupPart w).1, true_and]
    cases (t.lookupPart.run w).1 <;> rfl
  | check link =>
    refine ⟨rfl, rfl, ?_⟩
    simp only [Served, hpoint]
    cases Db.isSharedLinkValid w.now link <;> rfl
  | password link =>
    simp only [Served, hpoint, run_checkPassword, true_and]
    cases ((Api.checkSharePasswordAccess t.req.faults.password link t.req.token).run w).1 <;> rfl
  | locations link =>
    simp only [Served, hpoint, (t.run_locationsPart link w).1, true_and]
    cases ((t.locationsPart link).run w).1 <;> rfl
  | fetch net chunks chunk =>
    obtain ⟨hlinks, hdb⟩ := run_fetchPart (C := C) net chunk w
    refine ⟨hlinks, hdb, ?_⟩
    simp only [Served, hpoint]
    cases ((fetchPart C net chunk).run w).1 <;> rfl
  | count chunkCount encrypted => exact absurd hpoint (hcount chunkCount encrypted)
  | refused link now => exact ⟨rfl, rfl, rfl⟩
  | returned outcome => exact ⟨rfl, rfl, rfl⟩

end Next

end DownloadThread

namespace Downloads

/-- The last chunk has been served as often as the counter says, which never exceeds the limit.
Once it reaches the limit, every orderly client has looked the link up for every chunk. -/
structure Inv (shareId : String) (m : ℤ) (n : ℕ) (revisionId : ℤ)
    (chunks : List FileChunkLocation) (s : Downloads P) : Prop where
  link : ∃ link, s.world.link? shareId = some link ∧ link.maxDownloads = some m ∧
    link.revisionId = revisionId ∧
    link.downloadCount = s.requests.countP (·.Served shareId (chunks.length - 1))
  bounded : (s.requests.countP (·.Served shareId (chunks.length - 1)) : ℤ) ≤ max m 0
  located : Db.chunkLocationsForRevision revisionId s.world.files.db = chunks
  sound : ∀ t ∈ s.requests, t.req.shareId = shareId → t.Sound revisionId chunks
  below : ∀ t ∈ s.requests, t.req.shareId = shareId → s.Orderly shareId n t.client → t.Below
  full : m ≤ s.requests.countP (·.Served shareId (chunks.length - 1)) →
    ∀ client, s.Orderly shareId n client → ∀ i : ℕ, i < n →
      ∃ t ∈ s.requestsOf shareId client, t.req.chunkIndex = i ∧ t.HasLooked = true

section Inv

variable {shareId : String} {m : ℤ} {n : ℕ} {revisionId : ℤ} {chunks : List FileChunkLocation}
  {s s' : Downloads P}

theorem mem_requestsOf {client : ℕ} {t : DownloadThread} :
    t ∈ s.requestsOf shareId client ↔
      t ∈ s.requests ∧ t.req.shareId = shareId ∧ t.client = client := by
  simp [requestsOf]

/-- The requests of a client, up to where they stand. -/
theorem map_key_requestsOf (client : ℕ) :
    (s.requestsOf shareId client).map DownloadThread.key =
      (s.requests.map DownloadThread.key).filter fun k =>
        k.2.1.shareId = shareId && k.1 = client := by
  rw [requestsOf, List.filter_map]
  rfl

/-- Being orderly does not depend on where the requests stand. -/
theorem Orderly.congr {client : ℕ} (h : s.Orderly shareId n client)
    (hkeys : s'.requests.map DownloadThread.key = s.requests.map DownloadThread.key) :
    s'.Orderly shareId n client := by
  have hmap : (s'.requestsOf shareId client).map DownloadThread.key =
      (s.requestsOf shareId client).map DownloadThread.key := by
    rw [map_key_requestsOf, map_key_requestsOf, hkeys]
  have hindex : ∀ s : Downloads P, (s.requestsOf shareId client).map (·.req.chunkIndex) =
      ((s.requestsOf shareId client).map DownloadThread.key).map (·.2.1.chunkIndex) := by
    intro s
    rw [List.map_map]
    rfl
  have hhead : ∀ s : Downloads P, (s.requestsOf shareId client).head?.any (·.linkOpen) =
      ((s.requestsOf shareId client).map DownloadThread.key).head?.any (·.2.2) := by
    intro s
    rw [List.head?_map, Option.any_map]
    rfl
  constructor
  · rw [hindex, hmap, ← hindex]
    exact h.once
  · intro t ht
    have hmem : t.req.chunkIndex ∈ (s.requestsOf shareId client).map (·.req.chunkIndex) := by
      rw [hindex, ← hmap, ← hindex]
      exact List.mem_map_of_mem ht
    obtain ⟨u, hu, heq⟩ := List.mem_map.mp hmem
    rw [← heq]
    exact h.chunks u hu
  · rw [hhead, hmap, ← hhead]
    exact h.first

/-- The request that has looked a chunk up stands for it still when a request has moved on. -/
theorem exists_requestsOf_set {i : ℕ} {t t' u : DownloadThread} {w' : ShareWorld P} {client : ℕ}
    {chunkIndex : ℤ} (hi : s.requests[i]? = some t) (hkey : t'.key = t.key)
    (hlooked : t'.HasLooked = true) (hu : u ∈ s.requestsOf shareId client)
    (hindex : u.req.chunkIndex = chunkIndex) (hdone : u.HasLooked = true) :
    ∃ u' ∈ ({ world := w', requests := s.requests.set i t' } : Downloads P).requestsOf shareId
      client, u'.req.chunkIndex = chunkIndex ∧ u'.HasLooked = true := by
  have hreq : t'.req = t.req := congrArg (·.2.1) hkey
  have hclient : t'.client = t.client := congrArg (·.1) hkey
  rw [mem_requestsOf] at hu
  obtain ⟨k, hk⟩ := List.mem_iff_getElem?.mp hu.1
  by_cases hki : k = i
  · rw [hki, hi, Option.some.injEq] at hk
    refine ⟨t', mem_requestsOf.mpr ⟨?_, ?_, ?_⟩, ?_, hlooked⟩
    · obtain ⟨hlt, -⟩ := List.getElem?_eq_some_iff.mp hi
      exact List.mem_set hlt t'
    · rw [hreq, hk]
      exact hu.2.1
    · rw [hclient, hk]
      exact hu.2.2
    · rw [hreq, hk]
      exact hindex
  · refine ⟨u, mem_requestsOf.mpr ⟨?_, hu.2⟩, hindex, hdone⟩
    apply List.mem_iff_getElem?.mpr
    refine ⟨k, ?_⟩
    rw [List.getElem?_set_ne (fun heq => hki heq.symm)]
    exact hk

/-- A request that goes on without counting a download keeps the invariant. -/
theorem Inv.setRequest (h : Inv shareId m n revisionId chunks s) {i : ℕ} {t t' : DownloadThread}
    {w' : ShareWorld P} (hi : s.requests[i]? = some t)
    (hlink : w'.link? shareId = s.world.link? shareId) (hdb : w'.files.db = s.world.files.db)
    (hkey : t'.key = t.key) (hlooked : t'.HasLooked = true)
    (hserved : t'.Served shareId (chunks.length - 1) = t.Served shareId (chunks.length - 1))
    (hsound : t.req.shareId = shareId → t'.Sound revisionId chunks)
    (hbelow : t.req.shareId = shareId → s.Orderly shareId n t.client → t'.Below) :
    Inv shareId m n revisionId chunks { world := w', requests := s.requests.set i t' } := by
  have hkeys : (s.requests.set i t').map DownloadThread.key =
      s.requests.map DownloadThread.key := Threads.map_set _ hi hkey
  have hcount : (s.requests.set i t').countP (·.Served shareId (chunks.length - 1)) =
      s.requests.countP (·.Served shareId (chunks.length - 1)) := by
    have hset := Threads.countP_set (·.Served shareId (chunks.length - 1)) t' hi
    rw [hserved] at hset
    omega
  have hreq : t'.req = t.req := congrArg (·.2.1) hkey
  have hclient : t'.client = t.client := congrArg (·.1) hkey
  constructor
  · simp only [hcount]
    obtain ⟨link, hfound, hrest⟩ := h.link
    exact ⟨link, hlink.trans hfound, hrest⟩
  · simp only [hcount]
    exact h.bounded
  · rw [← h.located, hdb]
  · intro u hu hshare
    rcases Threads.mem_set hu with rfl | hu
    · exact hsound (hreq ▸ hshare)
    · exact h.sound u hu hshare
  · intro u hu hshare horderly
    have horderly' : s.Orderly shareId n _ := horderly.congr hkeys.symm
    rcases Threads.mem_set hu with rfl | hu
    · rw [hclient] at horderly'
      exact hbelow (hreq ▸ hshare) horderly'
    · exact h.below u hu hshare horderly'
  · intro hfull client horderly j hj
    rw [hcount] at hfull
    obtain ⟨u, hu, hindex, hdone⟩ := h.full hfull client (horderly.congr hkeys.symm) j hj
    exact exists_requestsOf_set hi hkey hlooked hu hindex hdone

/-! ## One step of a request -/

section Step

variable {C : ChunkPrimitives P} {i : ℕ} {t : DownloadThread}

/-- While the downloads are used up, no orderly client has a chunk left to look up. -/
theorem Inv.lt_of_lookup (h : Inv shareId m n revisionId chunks s) (ht : t ∈ s.requests)
    (hshare : t.req.shareId = shareId) (horderly : s.Orderly shareId n t.client)
    (hlooked : t.HasLooked = false) :
    (s.requests.countP (·.Served shareId (chunks.length - 1)) : ℤ) < m := by
  by_contra hfull
  have hmem : t ∈ s.requestsOf shareId t.client := mem_requestsOf.mpr ⟨ht, hshare, rfl⟩
  obtain ⟨hnonneg, hlt⟩ := horderly.chunks t hmem
  obtain ⟨u, hu, hindex, hdone⟩ := h.full (not_lt.mp hfull) t.client horderly
    t.req.chunkIndex.toNat (by omega)
  have hsame : u = t := by
    apply List.inj_on_of_nodup_map horderly.once hu hmem
    rw [hindex, Int.toNat_of_nonneg hnonneg]
  rw [hsame, hlooked] at hdone
  cases hdone

/-- What a request knows of the chunks is right behind its next step too. -/
theorem Inv.sound_next (h : Inv shareId m n revisionId chunks s) (ht : t ∈ s.requests)
    (hshare : t.req.shareId = shareId) : (t.next C s.world).1.Sound revisionId chunks := by
  have hsound := h.sound t ht hshare
  unfold DownloadThread.Sound at hsound
  unfold DownloadThread.next
  cases hpoint : t.point with
  | lookup =>
    obtain ⟨-, hlink⟩ := t.run_lookupPart s.world
    obtain ⟨link, hfound, -, hrevision, -⟩ := h.link
    dsimp only
    cases hrun : (t.lookupPart.run s.world).1 with
    | error e => trivial
    | ok read =>
      have hread := hlink read hrun
      rw [hshare, hfound, Option.some.injEq] at hread
      rw [hread] at hrevision
      exact hrevision
  | check link =>
    rw [hpoint] at hsound
    dsimp only
    split
    · exact hsound
    · trivial
  | password link =>
    rw [hpoint] at hsound
    dsimp only
    cases ((Api.checkSharePasswordAccess t.req.faults.password link t.req.token).run s.world).1 with
    | error e => trivial
    | ok u => exact hsound
  | locations link =>
    rw [hpoint] at hsound
    obtain ⟨-, hfound⟩ := t.run_locationsPart link s.world
    dsimp only
    cases hrun : ((t.locationsPart link).run s.world).1 with
    | error e => trivial
    | ok found =>
      obtain ⟨net, located, chunk⟩ := found
      obtain ⟨hchunks, hmem, hindex⟩ := hfound net located chunk hrun
      have hlocated : located = chunks := by
        rw [hchunks, hsound, h.located]
      rw [hlocated] at hmem
      exact ⟨hlocated, hindex ▸ List.mem_map_of_mem hmem, hmem⟩
  | fetch net located chunk =>
    rw [hpoint] at hsound
    obtain ⟨hlocated, hindex, -⟩ := hsound
    dsimp only
    cases ((DownloadThread.fetchPart C net chunk).run s.world).1 with
    | error e => trivial
    | ok encrypted => exact ⟨congrArg List.length hlocated, hindex⟩
  | count chunkCount encrypted =>
    rw [hpoint] at hsound
    exact hsound.2
  | refused link now =>
    simp only [DownloadThread.Sound, hpoint]
  | returned outcome =>
    rw [hpoint] at hsound
    simp only [DownloadThread.Sound, hpoint]
    exact hsound

/-- A request of an orderly client is not refused for the limit at its next step. -/
theorem Inv.below_next (h : Inv shareId m n revisionId chunks s) (ht : t ∈ s.requests)
    (hshare : t.req.shareId = shareId) (horderly : s.Orderly shareId n t.client) :
    (t.next C s.world).1.Below := by
  have hbelow := h.below t ht hshare horderly
  unfold DownloadThread.Below at hbelow
  unfold DownloadThread.next
  cases hpoint : t.point with
  | lookup =>
    obtain ⟨-, hlink⟩ := t.run_lookupPart s.world
    obtain ⟨link, hfound, hlimit, -, hcounted⟩ := h.link
    dsimp only
    cases hrun : (t.lookupPart.run s.world).1 with
    | error e => trivial
    | ok read =>
      have hread := hlink read hrun
      rw [hshare, hfound, Option.some.injEq] at hread
      have hlt := h.lt_of_lookup ht hshare horderly (by rw [DownloadThread.HasLooked, hpoint])
      rw [← hcounted] at hlt
      change read.maxDownloads.all (read.downloadCount < ·) = true
      rw [← hread, hlimit, Option.all_some, decide_eq_true hlt]
  | check link =>
    rw [hpoint] at hbelow
    dsimp only
    split
    · trivial
    · next hvalid =>
      -- the row has downloads left, so it was revoked or expired
      rw [Db.isSharedLinkValid, hbelow, Bool.and_true] at hvalid
      exact Bool.eq_false_of_not_eq_true hvalid
  | password link =>
    dsimp only
    cases ((Api.checkSharePasswordAccess t.req.faults.password link t.req.token).run s.world).1 <;>
      trivial
  | locations link =>
    dsimp only
    cases ((t.locationsPart link).run s.world).1 <;> trivial
  | fetch net located chunk =>
    dsimp only
    cases ((DownloadThread.fetchPart C net chunk).run s.world).1 <;> trivial
  | count chunkCount encrypted => trivial
  | refused link now =>
    rw [hpoint] at hbelow
    simp only [DownloadThread.Below, hpoint]
    exact hbelow
  | returned outcome =>
    simp only [DownloadThread.Below, hpoint]

/-- A step of a request that does not count keeps the invariant. -/
theorem Inv.step_quiet (h : Inv shareId m n revisionId chunks s) (hi : s.requests[i]? = some t)
    (hlink : (t.next C s.world).2.link? shareId = s.world.link? shareId)
    (hdb : (t.next C s.world).2.files.db = s.world.files.db)
    (hserved : (t.next C s.world).1.Served shareId (chunks.length - 1) =
      t.Served shareId (chunks.length - 1)) :
    Inv shareId m n revisionId chunks
      { world := (t.next C s.world).2, requests := s.requests.set i (t.next C s.world).1 } := by
  have hmem := List.mem_of_getElem? hi
  apply h.setRequest hi hlink hdb DownloadThread.key_next DownloadThread.hasLooked_next hserved
  · intro hshare
    exact h.sound_next hmem hshare
  · intro hshare horderly
    exact h.below_next hmem hshare horderly

/-- The count of a download of the link keeps the invariant under its condition. -/
theorem Inv.step_count (h : Inv shareId m n revisionId chunks s) (hi : s.requests[i]? = some t)
    {chunkCount : ℕ} {encrypted : EncryptedChunkBytes} (hpoint : t.point = .count chunkCount encrypted)
    (hshare : t.req.shareId = shareId) (hlast : t.req.chunkIndex = (chunkCount : ℤ) - 1)
    (hguard : DownloadOp.Guard shareId n (.step i) s) :
    Inv shareId m n revisionId chunks
      { world := (t.next C s.world).2, requests := s.requests.set i (t.next C s.world).1 } := by
  obtain ⟨hfault, hroom⟩ := hguard t chunkCount encrypted hi hshare hpoint hlast
  obtain ⟨link, hfound, hlimit, hrevision, hcounted⟩ := h.link
  obtain ⟨hlt, hnoone⟩ := hroom link m hfound hlimit
  have hmem := List.mem_of_getElem? hi
  have hsound := h.sound t hmem hshare
  rw [DownloadThread.Sound, hpoint] at hsound
  have hworld : (t.next C s.world).2 = Db.countDownload shareId s.world := by
    rw [DownloadThread.next, hpoint]
    simp only [DownloadThread.run_countIfLast, hlast, hfault, hshare, and_self, if_true]
  have hreq := (t.next_req (C := C) s.world).2.1
  have hclient := (t.next_req (C := C) s.world).1
  have hkeys : (s.requests.set i (t.next C s.world).1).map DownloadThread.key =
      s.requests.map DownloadThread.key := Threads.map_set _ hi DownloadThread.key_next
  have hserved : (s.requests.set i (t.next C s.world).1).countP
      (·.Served shareId (chunks.length - 1)) =
      s.requests.countP (·.Served shareId (chunks.length - 1)) + 1 := by
    have hset := Threads.countP_set (·.Served shareId (chunks.length - 1))
      (t.next C s.world).1 hi
    have hbefore : t.Served shareId (chunks.length - 1) = false := by
      simp only [DownloadThread.Served, hpoint, Bool.and_false]
    have hafter : (t.next C s.world).1.Served shareId (chunks.length - 1) = true := by
      rw [DownloadThread.next, hpoint]
      simp only [DownloadThread.Served, hshare, hlast, hsound.1, decide_true, Bool.and_self]
    rw [hbefore, hafter] at hset
    simpa using hset
  constructor
  · refine ⟨{ link with downloadCount := link.downloadCount + 1 }, ?_, hlimit, hrevision, ?_⟩
    · rw [hworld]
      exact Db.link?_countDownload hfound
    · rw [hserved]
      dsimp only
      omega
  · rw [hserved]
    omega
  · rw [hworld]
    exact h.located
  · intro u hu hshare'
    rcases Threads.mem_set hu with rfl | hu
    · exact h.sound_next hmem hshare
    · exact h.sound u hu hshare'
  · intro u hu hshare' horderly
    have horderly' : s.Orderly shareId n _ := horderly.congr hkeys.symm
    rcases Threads.mem_set hu with rfl | hu
    · rw [hclient] at horderly'
      exact h.below_next hmem hshare horderly'
    · exact h.below u hu hshare' horderly'
  · intro hfull client horderly j hj
    rw [hserved] at hfull
    -- the last download is used up, so nobody was part-way
    have horderly' : s.Orderly shareId n _ := horderly.congr hkeys.symm
    obtain ⟨u, hu, hindex, hdone⟩ : ∃ u ∈ s.requestsOf shareId client,
        u.req.chunkIndex = j ∧ u.HasLooked = true := by
      by_contra hnone
      apply hnoone (by omega) client
      refine ⟨horderly', j, hj, ?_⟩
      intro u hu hindex
      by_contra hdone
      exact hnone ⟨u, hu, hindex, by simpa using hdone⟩
    exact exists_requestsOf_set hi DownloadThread.key_next DownloadThread.hasLooked_next hu hindex
      hdone

/-- A step of a request keeps the invariant under its condition. -/
theorem Inv.step (h : Inv shareId m n revisionId chunks s)
    (hguard : DownloadOp.Guard shareId n (.step i) s) :
    Inv shareId m n revisionId chunks ((DownloadOp.step i).apply C s) := by
  cases hi : s.requests[i]? with
  | none =>
    simp only [DownloadOp.apply, hi]
    exact h
  | some t =>
    simp only [DownloadOp.apply, hi]
    by_cases hcount : ∃ chunkCount encrypted, t.point = .count chunkCount encrypted
    · obtain ⟨chunkCount, encrypted, hpoint⟩ := hcount
      by_cases hlast : t.req.shareId = shareId ∧ t.req.chunkIndex = (chunkCount : ℤ) - 1
      · exact h.step_count hi hpoint hlast.1 hlast.2 hguard
      · have hworld : (t.next C s.world).2.link? shareId = s.world.link? shareId ∧
            (t.next C s.world).2.files.db = s.world.files.db := by
          rw [DownloadThread.next, hpoint]
          simp only [DownloadThread.run_countIfLast]
          split
          · next hcounted =>
            refine ⟨Db.link?_countDownload_of_ne ?_, rfl⟩
            intro hshare
            exact hlast ⟨hshare.symm, hcounted.1⟩
          · exact ⟨rfl, rfl⟩
        apply h.step_quiet hi hworld.1 hworld.2
        -- the request serves another chunk than the last of the link
        have hafter : (t.next C s.world).1.Served shareId (chunks.length - 1) = false := by
          rw [DownloadThread.next, hpoint]
          by_cases hshare : t.req.shareId = shareId
          · have hsound := h.sound t (List.mem_of_getElem? hi) hshare
            rw [DownloadThread.Sound, hpoint] at hsound
            have hother : t.req.chunkIndex ≠ (chunks.length : ℤ) - 1 := by
              intro heq
              exact hlast ⟨hshare, by rw [heq, hsound.1]⟩
            simp only [DownloadThread.Served, hother, decide_false, Bool.and_false, Bool.false_and]
          · simp only [DownloadThread.Served, hshare, decide_false, Bool.false_and]
        have hbefore : t.Served shareId (chunks.length - 1) = false := by
          simp only [DownloadThread.Served, hpoint, Bool.and_false]
        rw [hafter, hbefore]
    · obtain ⟨hlinks, hdb, hserved⟩ := DownloadThread.next_quiet (C := C) (w := s.world) (t := t)
        (fun chunkCount encrypted hpoint => hcount ⟨chunkCount, encrypted, hpoint⟩) shareId
        (chunks.length - 1)
      exact h.step_quiet hi (congrArg (List.find? _) hlinks) hdb hserved

end Step

/-! ## The other operations -/

/-- Time passes and links are revoked. -/
theorem Inv.setWorld (h : Inv shareId m n revisionId chunks s) (w' : ShareWorld P)
    (hdb : w'.files.db = s.world.files.db)
    (hlink : ∀ link, s.world.link? shareId = some link → ∃ link', w'.link? shareId = some link' ∧
      link'.maxDownloads = link.maxDownloads ∧ link'.revisionId = link.revisionId ∧
        link'.downloadCount = link.downloadCount) :
    Inv shareId m n revisionId chunks { s with world := w' } := by
  constructor
  · obtain ⟨link, hfound, hlimit, hrevision, hcounted⟩ := h.link
    obtain ⟨link', hfound', hlimit', hrevision', hcounted'⟩ := hlink link hfound
    exact ⟨link', hfound', hlimit'.trans hlimit, hrevision'.trans hrevision,
      hcounted'.trans hcounted⟩
  · exact h.bounded
  · rw [← h.located, hdb]
  · exact h.sound
  · intro u hu hshare horderly
    exact h.below u hu hshare (horderly.congr rfl)
  · intro hfull client horderly
    exact h.full hfull client (horderly.congr rfl)

theorem Inv.revoke (h : Inv shareId m n revisionId chunks s) (other : String)
    (C : ChunkPrimitives P) :
    Inv shareId m n revisionId chunks ((DownloadOp.revoke other).apply C s) := by
  apply h.setWorld ((Db.revokeSharedLink other).run s.world).2 rfl
  intro link hfound
  refine ⟨if Db.isLiveLink other link then { link with revoked := 1 } else link, ?_, ?_⟩
  · have hupdate := Db.link?_updateLinks (Db.isLiveLink other) (fun l => { l with revoked := 1 })
      (fun _ => rfl) s.world shareId
    rw [hfound, Option.map_some] at hupdate
    exact hupdate
  · cases Db.isLiveLink other link <;> exact ⟨rfl, rfl, rfl⟩

/-- The requests of a client when one more has come in. -/
theorem requestsOf_append (client : ℕ) (t : DownloadThread) :
    ({ s with requests := s.requests ++ [t] } : Downloads P).requestsOf shareId client =
      if t.req.shareId = shareId ∧ t.client = client then s.requestsOf shareId client ++ [t]
      else s.requestsOf shareId client := by
  unfold requestsOf
  rw [List.filter_append]
  by_cases hours : t.req.shareId = shareId ∧ t.client = client
  · rw [if_pos hours]
    simp [hours]
  · rw [if_neg hours]
    simpa using hours

/-- A client that is orderly with its new request was orderly before it, unless it is its first
one. -/
theorem Orderly.of_append {client : ℕ} {t : DownloadThread}
    (h : ({ s with requests := s.requests ++ [t] } : Downloads P).Orderly shareId n client)
    (hsome : ¬ (t.req.shareId = shareId ∧ t.client = client) ∨
      s.requestsOf shareId client ≠ []) : s.Orderly shareId n client := by
  by_cases hours : t.req.shareId = shareId ∧ t.client = client
  · have hne : s.requestsOf shareId client ≠ [] := hsome.resolve_left (not_not_intro hours)
    obtain ⟨honce, hchunks, hfirst⟩ := h
    rw [requestsOf_append, if_pos hours] at honce hchunks hfirst
    rw [List.map_append, List.nodup_append] at honce
    constructor
    · exact honce.1
    · intro u hu
      exact hchunks u (List.mem_append_left _ hu)
    · rw [List.head?_append_of_ne_nil _ hne] at hfirst
      exact hfirst
  · obtain ⟨honce, hchunks, hfirst⟩ := h
    rw [requestsOf_append, if_neg hours] at honce hchunks hfirst
    exact ⟨honce, hchunks, hfirst⟩

/-- A new request keeps the invariant. -/
theorem Inv.request (h : Inv shareId m n revisionId chunks s) (client : ℕ)
    (req : Api.ChunkRequest) (C : ChunkPrimitives P) :
    Inv shareId m n revisionId chunks ((DownloadOp.request client req).apply C s) := by
  have happly : (DownloadOp.request client req).apply C s =
      { s with requests := s.requests ++
        [{ client, req, linkOpen := Downloads.linkOpen req.shareId s.world }] } := rfl
  rw [happly]
  generalize hnew : ({ client, req, linkOpen := Downloads.linkOpen req.shareId s.world } :
    DownloadThread) = t
  have hpoint : t.point = .lookup := by
    rw [← hnew]
  have hopen : t.linkOpen = Downloads.linkOpen t.req.shareId s.world := by
    rw [← hnew]
  have hcount : (s.requests ++ [t]).countP (·.Served shareId (chunks.length - 1)) =
      s.requests.countP (·.Served shareId (chunks.length - 1)) := by
    rw [List.countP_append]
    simp [DownloadThread.Served, hpoint]
  constructor
  · simp only [hcount]
    exact h.link
  · simp only [hcount]
    exact h.bounded
  · exact h.located
  · intro u hu hshare
    rcases List.mem_append.mp hu with hu | hu
    · exact h.sound u hu hshare
    · rw [List.mem_singleton.mp hu]
      simp only [DownloadThread.Sound, hpoint]
  · intro u hu hshare horderly
    rcases List.mem_append.mp hu with hu | hu
    · apply h.below u hu hshare (horderly.of_append (.inr _))
      exact List.ne_nil_of_mem (mem_requestsOf.mpr ⟨hu, hshare, rfl⟩)
    · rw [List.mem_singleton.mp hu]
      simp only [DownloadThread.Below, hpoint]
  · intro hfull other horderly j hj
    rw [hcount] at hfull
    by_cases hours : t.req.shareId = shareId ∧ t.client = other
    · exfalso
      by_cases hnil : s.requestsOf shareId other = []
      · -- its first request found the link with downloads left
        have hfirst := horderly.first
        rw [requestsOf_append, if_pos hours, hnil, List.nil_append, List.head?_cons,
          Option.any_some, hopen, hours.1] at hfirst
        obtain ⟨link, hfound, hlimit, -, hcounted⟩ := h.link
        rw [Downloads.linkOpen, hfound, Option.any_some, Db.isSharedLinkValid, hlimit,
          Option.all_some, Bool.and_eq_true, decide_eq_true_eq] at hfirst
        omega
      · -- it asked for every chunk before
        have horderly' := horderly.of_append (.inr hnil)
        have hmem : t ∈ ({ s with requests := s.requests ++ [t] } : Downloads P).requestsOf shareId
            other := by
          rw [requestsOf_append, if_pos hours]
          exact List.mem_append_right _ (List.mem_singleton_self t)
        obtain ⟨hnonneg, hlt⟩ := horderly.chunks t hmem
        obtain ⟨u, hu, hindex, -⟩ := h.full hfull other horderly' t.req.chunkIndex.toNat (by omega)
        have honce := horderly.once
        rw [requestsOf_append, if_pos hours, List.map_append, List.nodup_append] at honce
        apply honce.2.2 u.req.chunkIndex (List.mem_map_of_mem hu) t.req.chunkIndex
          (by simp)
        rw [hindex, Int.toNat_of_nonneg hnonneg]
    · obtain ⟨u, hu, hrest⟩ := h.full hfull other (horderly.of_append (.inl hours)) j hj
      refine ⟨u, ?_, hrest⟩
      rw [requestsOf_append, if_neg hours]
      exact hu

/-- Every operation keeps the invariant under its condition. -/
theorem Inv.apply (h : Inv shareId m n revisionId chunks s) (C : ChunkPrimitives P)
    (op : DownloadOp) (hguard : op.Guard shareId n s) :
    Inv shareId m n revisionId chunks (op.apply C s) := by
  cases op with
  | tick ms =>
    apply h.setWorld { s.world with files.now := s.world.files.now + ms } rfl
    intro link hfound
    exact ⟨link, hfound, rfl, rfl, rfl⟩
  | request client req => exact h.request client req C
  | step i => exact h.step hguard
  | revoke other => exact h.revoke other C

/-! ## What the invariant promises -/

/-- Where each of the `n` chunks is found, the chunks are the located ones of all `n` rows. -/
theorem length_eq_of_covered {n : ℕ} {chunks : List FileChunkLocation}
    (hlength : chunks.length ≤ n) (hcovered : ∀ i : ℕ, i < n → (i : ℤ) ∈ chunks.map (·.chunkIndex)) :
    chunks.length = n := by
  have hnodup : ((List.range n).map Int.ofNat).Nodup :=
    List.Nodup.map (fun _ _ h => Int.ofNat.inj h) List.nodup_range
  have hsub : (List.range n).map Int.ofNat ⊆ chunks.map (·.chunkIndex) := by
    intro x hx
    obtain ⟨i, hi, rfl⟩ := List.mem_map.mp hx
    exact hcovered i (List.mem_range.mp hi)
  have hle := List.Nodup.length_le_of_subset hnodup hsub
  rw [List.length_map, List.length_map, List.length_range] at hle
  omega

/-- The invariant gives the promises. -/
theorem Inv.limitHolds (h : Inv shareId m n revisionId chunks s) (hlength : chunks.length ≤ n) :
    s.LimitHolds shareId m n := by
  constructor
  · intro hn k hk
    by_cases hcovered : ∀ i : ℕ, i < n → (i : ℤ) ∈ chunks.map (·.chunkIndex)
    · have hall := length_eq_of_covered hlength hcovered
      have hlast := hk (n - 1) (by omega)
      have hbounded := h.bounded
      have hcast : ((n - 1 : ℕ) : ℤ) = (chunks.length : ℤ) - 1 := by omega
      rw [hcast] at hlast
      omega
    · -- a chunk that is not found is never served
      simp only [not_forall] at hcovered
      obtain ⟨i, hi, hmissing⟩ := hcovered
      have hnone : s.requests.countP (·.Served shareId i) = 0 := by
        rw [List.countP_eq_zero]
        intro t ht hserved
        simp only [DownloadThread.Served, Bool.and_eq_true, decide_eq_true_eq] at hserved
        obtain ⟨⟨hshare, hindex⟩, hpoint⟩ := hserved
        have hsound := h.sound t ht hshare
        unfold DownloadThread.Sound at hsound
        split at hpoint
        · next bytes hreturned =>
          rw [hreturned] at hsound
          exact hmissing (hindex ▸ hsound)
        · cases hpoint
      have hzero := hk i hi
      omega
  · intro t ht hshare horderly
    have hbelow := h.below t ht hshare horderly
    unfold DownloadThread.Below at hbelow
    cases hpoint : t.point with
    | refused link now =>
      rw [hpoint] at hbelow
      exact hbelow
    | _ => simp only [DownloadThread.LimitRefused, hpoint]

end Inv

end Downloads

end OmniDrive
