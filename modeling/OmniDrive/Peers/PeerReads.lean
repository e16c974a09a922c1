import OmniDrive.Crypto.SymbolicChunks
import OmniDrive.Peers.ChunkFetch

/-!
# Reads with peers

A read of a chunk with peers against the same read without them. The peers do no harm just if the
first one that answers with success sends the chunk, and every note about an answer goes through.
-/

namespace OmniDrive

open StatementProgram Tables

variable {P : Primitives}

/-! ## The outcome of asking -/

namespace PeerClient

variable (client : PeerClient)

/-- The peers whose turn comes, in order, as long as none answers with success. -/
def asked (peers : List TrustedPeerRecord) : List TrustedPeerRecord :=
  (orderBy client.askOrder (listTrustedPeers peers)).filter fun peer =>
    (client.policy peer (client.turnAt peer.peerId)).eligible

/-- The peer does not have the chunk, or the note that it failed goes through. -/
def Declines (peer : TrustedPeerRecord) : Prop :=
  match client.answer peer.peerId with
  | .success _ => False
  | .notFound => True
  | _ => client.writesRow peer.peerId = true

/-- The peer sends these bytes, and the note that it did not fail goes through. -/
def Sends (peer : TrustedPeerRecord) (bytes : Bytes) : Prop :=
  client.answer peer.peerId = .success (some bytes) ∧ client.writesRow peer.peerId = true

/-- All peers up to one that sends these bytes decline. -/
def FirstSends (peers : List TrustedPeerRecord) (bytes : Bytes) : Prop :=
  ∃ before peer after, peers = before ++ peer :: after ∧ (∀ q ∈ before, client.Declines q) ∧
    client.Sends peer bytes

variable {client}

theorem firstSends_cons {peer : TrustedPeerRecord} {rest : List TrustedPeerRecord} {bytes : Bytes} :
    client.FirstSends (peer :: rest) bytes ↔
      client.Sends peer bytes ∨ client.Declines peer ∧ client.FirstSends rest bytes := by
  constructor
  · rintro ⟨before, q, after, hsplit, hbefore, hsends⟩
    cases before with
    | nil =>
      obtain ⟨rfl, -⟩ := List.cons.inj hsplit
      exact .inl hsends
    | cons first before =>
      obtain ⟨rfl, hrest⟩ := List.cons.inj hsplit
      exact .inr ⟨hbefore peer List.mem_cons_self, before, q, after, hrest,
        fun r hr => hbefore r (List.mem_cons_of_mem _ hr), hsends⟩
  · rintro (hsends | ⟨hdeclines, before, q, after, rfl, hbefore, hsends⟩)
    · exact ⟨[], peer, rest, rfl, by simp, hsends⟩
    · refine ⟨peer :: before, q, after, rfl, ?_, hsends⟩
      intro r hr
      rcases List.mem_cons.mp hr with rfl | hr
      · exact hdeclines
      · exact hbefore r hr

theorem not_declines_of_sends {peer : TrustedPeerRecord} {bytes : Bytes}
    (h : client.Sends peer bytes) : ¬ client.Declines peer := by
  rw [Declines, h.1]
  exact id

/-- What the loop over the peers comes to. -/
theorem run_askPeers (peers : List TrustedPeerRecord) (rows : List TrustedPeerRecord) :
    (((client.askPeers peers).run rows).1 = .ok none ↔
      ∀ q ∈ peers.filter fun q => (client.policy q (client.turnAt q.peerId)).eligible,
        client.Declines q) ∧
    ∀ bytes, ((client.askPeers peers).run rows).1 = .ok (some bytes) ↔
      client.FirstSends
        (peers.filter fun q => (client.policy q (client.turnAt q.peerId)).eligible) bytes := by
  induction peers generalizing rows with
  | nil => simp [askPeers, FirstSends]
  | cons peer rest ih =>
    rw [askPeers]
    cases heligible : (client.policy peer (client.turnAt peer.peerId)).eligible with
    | false =>
      simp only [Bool.not_false, if_true, List.filter_cons, heligible, Bool.false_eq_true, if_false]
      exact ih rows
    | true =>
      simp only [Bool.not_true, Bool.false_eq_true, if_false, List.filter_cons, heligible, if_true,
        List.forall_mem_cons, firstSends_cons]
      cases hanswer : client.answer peer.peerId with
      | notFound =>
        have hdeclines : client.Declines peer := by rw [Declines, hanswer]; trivial
        have hsends : ∀ bytes, ¬ client.Sends peer bytes := fun bytes h =>
          not_declines_of_sends h hdeclines
        simpa only [hdeclines, hsends, true_and, false_or] using ih rows
      | success body =>
        have hdeclines : ¬ client.Declines peer := by rw [Declines, hanswer]; exact id
        cases hwrites : client.writesRow peer.peerId <;> cases body <;>
          simp [updatePeerError, hwrites, hdeclines, Sends, hanswer]
      | status _ | failed _ =>
        have hsends : ∀ bytes, ¬ client.Sends peer bytes := by simp [Sends, hanswer]
        cases hwrites : client.writesRow peer.peerId with
        | false =>
          have hdeclines : ¬ client.Declines peer := by rw [Declines, hanswer]; simp [hwrites]
          simp [updatePeerError, hwrites, hdeclines, hsends]
        | true =>
          have hdeclines : client.Declines peer := by rw [Declines, hanswer]; exact hwrites
          simp only [updatePeerError, hwrites, if_true, Prog.run_exec_bind]
          simpa only [hdeclines, hsends, true_and, false_or] using ih _

/-- The fetch has no bytes just if all peers that are asked decline, and it has the bytes of the
first that does not. -/
theorem run_fetchChunk (rows : List TrustedPeerRecord) :
    ((client.fetchChunk.run rows).1 = .ok none ↔ ∀ q ∈ client.asked rows, client.Declines q) ∧
    ∀ bytes, (client.fetchChunk.run rows).1 = .ok (some bytes) ↔
      client.FirstSends (client.asked rows) bytes := by
  rw [fetchChunk, Prog.run_query_bind]
  cases hpeers : listTrustedPeers rows with
  | nil => simp [asked, hpeers, FirstSends]
  | cons peer rest =>
    rw [asked, hpeers]
    exact run_askPeers _ rows

end PeerClient

/-! ## A read with peers and without -/

section Reads

variable (C : ChunkPrimitives P) (place : CachePlace) (revisionId : ℤ) (chunk : FileChunkLocation)

/-- A read of the chunk. -/
def loadChunk (net : Network) (client : Option PeerClient) (vaultKey : P.Key)
    (downloaded : Downloader.DownloadedPacks) : ReadProg P ReadSide (Bytes × Downloader.DownloadedPacks) :=
  Downloader.loadPlaintextChunk C net (readSources C place client) revisionId vaultKey downloaded
    chunk

/-- The world of a read: the cache and the peers, over the tables, the spool and the providers. -/
def readWorld (cloud : FileWorld P) (c : CacheWorld P) (peers : List TrustedPeerRecord)
    (handed : List Bytes) : ReadWorld P ReadSide where
  files := { cloud with vault := c.vault, now := c.now }
  cache := { disk := c.disk, peers, handed }

/-- The read has the chunk, or what it has without peers; where it has something without peers, it
has something; and nothing else is handed to the cache. -/
structure Unharmed (p : Bytes) (alone peered :
    Except DownloaderError (Bytes × Downloader.DownloadedPacks) × ReadWorld P ReadSide) : Prop where
  result : peered.1.map Prod.fst = .ok p ∨ peered.1.map Prod.fst = alone.1.map Prod.fst
  succeeds : alone.1.isOk = true → peered.1.isOk = true
  handed : ∀ bytes ∈ peered.2.cache.handed, bytes = p ∨ bytes ∈ alone.2.cache.handed

/-- The peers do no harm to a read of the chunk `p`, whatever the providers have. -/
def Harmless (client : PeerClient) (p : Bytes) (c : CacheWorld P)
    (peers : List TrustedPeerRecord) : Prop :=
  ∀ net cloud vaultKey downloaded,
    Unharmed p
      ((loadChunk C place revisionId chunk net none vaultKey downloaded).run
        (readWorld cloud c peers []))
      ((loadChunk C place revisionId chunk net (some client) vaultKey downloaded).run
        (readWorld cloud c peers []))

/-- The cache takes the bytes, and then has them or nothing. -/
def CacheTakes (bytes : Bytes) (c : CacheWorld P) : Prop :=
  ∃ c₁ c₂ cached, (cacheChunk C place revisionId chunk bytes).run c = (.ok (), c₁) ∧
    (cachedChunk C place revisionId chunk.chunkIndex).run c₁ = (.ok cached, c₂) ∧
    ∀ x, cached = some x → x = bytes

/-- What comes back of bytes that go through the cache. -/
def throughCache (bytes : Bytes) (c : CacheWorld P) : Except DownloaderError Bytes :=
  match (cacheChunk C place revisionId chunk bytes).run c with
  | (.error _, _) => .error .cache
  | (.ok (), c₁) => match (cachedChunk C place revisionId chunk.chunkIndex).run c₁ with
    | (.error _, _) => .error .cache
    | (.ok cached, _) => .ok (cached.getD bytes)

variable {C place revisionId chunk} {net : Network} {cloud : FileWorld P} {c c₁ c₂ : CacheWorld P}
  {peers peers' : List TrustedPeerRecord} {handed : List Bytes} {vaultKey : P.Key}
  {downloaded : Downloader.DownloadedPacks} {client : PeerClient}

theorem throughCache_eq_iff {bytes : Bytes} :
    throughCache C place revisionId chunk bytes c = .ok bytes ↔
      CacheTakes C place revisionId chunk bytes c := by
  rw [throughCache, CacheTakes]
  rcases hput : (cacheChunk C place revisionId chunk bytes).run c with ⟨e | u, c₁⟩
  · simp
  · rcases hget : (cachedChunk C place revisionId chunk.chunkIndex).run c₁ with ⟨e | cached, c₂⟩
    · simp [hget]
    · cases cached <;> simp [hget]

theorem throughCache_ne {bytes : Bytes} {e : DownloaderError} (he : e ≠ .cache) :
    throughCache C place revisionId chunk bytes c ≠ .error e := by
  rw [throughCache]
  split
  · simpa using he.symm
  · split
    · simpa using he.symm
    · simp

theorem run_onReadCache {α : Type} (q : CacheProg P α) (cloud : FileWorld P) (c : CacheWorld P)
    (peers : List TrustedPeerRecord) (handed : List Bytes) :
    (onReadCache q).run (readWorld cloud c peers handed) =
      ((q.run c).1.mapError fun _ => DownloaderError.cache,
        readWorld cloud (q.run c).2 peers handed) := by
  rw [onReadCache, Prog.run_zoom readCache withReadCache (fun _ _ => rfl) (fun _ _ _ => rfl)
    (fun _ => rfl), Prog.run_mapError]
  rfl

theorem run_onReadPeers {α : Type} (q : PeerRowsProg α) (cloud : FileWorld P) (c : CacheWorld P)
    (peers : List TrustedPeerRecord) (handed : List Bytes) :
    (onReadPeers q).run (readWorld cloud c peers handed) =
      ((q.run peers).1.mapError fun _ => DownloaderError.io,
        readWorld cloud c (q.run peers).2 handed) := by
  rw [onReadPeers, Prog.run_zoom (fun w : ReadWorld P ReadSide => w.cache.peers) withReadPeers
    (fun _ _ => rfl) (fun _ _ _ => rfl) (fun _ => rfl), Prog.run_mapError]
  rfl

/-- The chunk from its pack. -/
def chunkFromPack (C : ChunkPrimitives P) (place : CachePlace) (revisionId : ℤ)
    (chunk : FileChunkLocation) (net : Network) (vaultKey : P.Key)
    (downloaded : Downloader.DownloadedPacks) :
    ReadProg P ReadSide (Bytes × Downloader.DownloadedPacks) := do
  let (plaintext, downloaded) ← onReadFiles (Downloader.readChunk C net vaultKey downloaded chunk)
  (readSources C place none).putChunk revisionId chunk plaintext
  pure (plaintext, downloaded)

/-- What the peers have become does not matter to a read from the pack. -/
theorem ignores_chunkFromPack :
    (chunkFromPack C place revisionId chunk net vaultKey downloaded).Ignores
      (withReadPeers peers') := by
  have hfiles : ∀ {α : Type} (q : FileProg P DownloaderError α),
      (onReadFiles q : ReadProg P ReadSide α).Ignores (withReadPeers peers') := by
    intro α q
    rw [onReadFiles]
    refine Prog.Ignores.zoom_frame ?_ ?_ q
    · exact fun _ => rfl
    · exact fun _ _ => rfl
  have hcache : ∀ q : CacheProg P Unit, (onReadCache q).Ignores (withReadPeers peers') := by
    intro q
    rw [onReadCache]
    refine Prog.Ignores.zoom_frame ?_ ?_ _
    · exact fun _ => rfl
    · exact fun _ _ => rfl
  have hput : ∀ bytes, ((readSources C place none).putChunk revisionId chunk bytes).Ignores
      (withReadPeers peers') := by
    intro bytes
    refine Prog.Ignores.bind ?_ fun _ => hcache _
    refine Prog.Ignores.exec ?_
    exact fun _ => rfl
  refine (hfiles _).bind ?_
  rintro ⟨plaintext, downloaded'⟩
  exact (hput plaintext).bind fun _ => trivial

/-- The read behind a miss of the cache. -/
def loadMissing (C : ChunkPrimitives P) (place : CachePlace) (revisionId : ℤ)
    (chunk : FileChunkLocation) (net : Network) (client : Option PeerClient) (vaultKey : P.Key)
    (downloaded : Downloader.DownloadedPacks) :
    ReadProg P ReadSide (Bytes × Downloader.DownloadedPacks) := do
  match ← Downloader.tryFetchChunkFromPeer (readSources C place client) revisionId chunk with
  | some bytes => pure (bytes, downloaded)
  | none => chunkFromPack C place revisionId chunk net vaultKey downloaded

/-- A read asks the cache first. -/
theorem loadChunk_eq (client : Option PeerClient) :
    loadChunk C place revisionId chunk net client vaultKey downloaded = (do
      match ← onReadCache (cachedChunk C place revisionId chunk.chunkIndex) with
      | some bytes => pure (bytes, downloaded)
      | none => loadMissing C place revisionId chunk net client vaultKey downloaded) := rfl

theorem run_loadChunk_of_miss
    (hmiss : (cachedChunk C place revisionId chunk.chunkIndex).run c = (.ok none, c₁))
    (client : Option PeerClient) :
    (loadChunk C place revisionId chunk net client vaultKey downloaded).run
        (readWorld cloud c peers handed) =
      (loadMissing C place revisionId chunk net client vaultKey downloaded).run
        (readWorld cloud c₁ peers handed) := by
  have hcache := run_onReadCache (cachedChunk C place revisionId chunk.chunkIndex) cloud c peers
    handed
  rw [hmiss] at hcache
  rw [loadChunk_eq]
  exact Prog.run_bind_of_ok hcache

/-- A read that does not miss the cache asks nobody. -/
theorem run_loadChunk_of_cached (hcached : ∀ c₁,
      (cachedChunk C place revisionId chunk.chunkIndex).run c ≠ (.ok none, c₁))
    (client client' : Option PeerClient) :
    (loadChunk C place revisionId chunk net client vaultKey downloaded).run
        (readWorld cloud c peers handed) =
      (loadChunk C place revisionId chunk net client' vaultKey downloaded).run
        (readWorld cloud c peers handed) := by
  have hcache := run_onReadCache (cachedChunk C place revisionId chunk.chunkIndex) cloud c peers
    handed
  rw [loadChunk_eq, loadChunk_eq]
  rcases hrun : (cachedChunk C place revisionId chunk.chunkIndex).run c with ⟨e | cached, c₁⟩
  · rw [hrun] at hcache
    rw [Prog.run_bind_of_error hcache, Prog.run_bind_of_error hcache]
  · cases cached with
    | none => exact absurd hrun (hcached c₁)
    | some bytes =>
      rw [hrun] at hcache
      rw [Prog.run_bind_of_ok hcache, Prog.run_bind_of_ok hcache]

/-- Where no peer has the chunk, it comes from its pack. -/
theorem run_loadMissing_of_none (hnone : (client.fetchChunk.run peers).1 = .ok none) :
    (loadMissing C place revisionId chunk net (some client) vaultKey downloaded).run
        (readWorld cloud c peers handed) =
      (((loadMissing C place revisionId chunk net none vaultKey downloaded).run
          (readWorld cloud c peers handed)).1,
        withReadPeers (client.fetchChunk.run peers).2
          ((loadMissing C place revisionId chunk net none vaultKey downloaded).run
            (readWorld cloud c peers handed)).2) := by
  have hfetch := run_onReadPeers client.fetchChunk cloud c peers handed
  rw [hnone] at hfetch
  have htry : (Downloader.tryFetchChunkFromPeer (readSources C place (some client)) revisionId
      chunk).run (readWorld cloud c peers handed) =
        (.ok none, readWorld cloud c (client.fetchChunk.run peers).2 handed) :=
    Prog.run_bind_of_ok hfetch
  rw [loadMissing, Prog.run_bind_of_ok htry]
  exact ignores_chunkFromPack.run (readWorld cloud c peers handed)

/-- Where a note about an answer or a transfer fails, so does the read. -/
theorem run_loadMissing_of_error {e : PeerError} (herror : (client.fetchChunk.run peers).1 = .error e) :
    ((loadMissing C place revisionId chunk net (some client) vaultKey downloaded).run
        (readWorld cloud c peers handed)).1 = .error .io := by
  have hfetch := run_onReadPeers client.fetchChunk cloud c peers handed
  rw [herror] at hfetch
  have htry : (Downloader.tryFetchChunkFromPeer (readSources C place (some client)) revisionId
      chunk).run (readWorld cloud c peers handed) =
        (.error .io, readWorld cloud c (client.fetchChunk.run peers).2 handed) :=
    Prog.run_bind_of_error hfetch
  rw [loadMissing, Prog.run_bind_of_error htry]

/-- The bytes of a peer go through the cache, and the read has what comes back. -/
theorem run_loadMissing_of_some (C : ChunkPrimitives P) (place : CachePlace) (revisionId : ℤ)
    (chunk : FileChunkLocation) (net : Network) (cloud : FileWorld P) (c : CacheWorld P)
    (vaultKey : P.Key) (downloaded : Downloader.DownloadedPacks) {bytes : Bytes}
    (hsome : (client.fetchChunk.run peers).1 = .ok (some bytes)) :
    ((loadMissing C place revisionId chunk net (some client) vaultKey downloaded).run
        (readWorld cloud c peers [])).2.cache.handed = [bytes] ∧
      ((loadMissing C place revisionId chunk net (some client) vaultKey downloaded).run
        (readWorld cloud c peers [])).1.map Prod.fst =
        throughCache C place revisionId chunk bytes c := by
  have hfetch := run_onReadPeers client.fetchChunk cloud c peers []
  rw [hsome] at hfetch
  generalize (client.fetchChunk.run peers).2 = peers₁ at hfetch
  -- The rest of the read, where the bytes have been handed to the cache.
  have hrest : (loadMissing C place revisionId chunk net (some client) vaultKey downloaded).run
      (readWorld cloud c peers []) =
        ((onReadCache (cacheChunk C place revisionId chunk bytes) >>= fun _ =>
          onReadCache (cachedChunk C place revisionId chunk.chunkIndex) >>= fun cached =>
            (pure (cached.getD bytes, downloaded) :
              ReadProg P ReadSide (Bytes × Downloader.DownloadedPacks)))).run
          (readWorld cloud c peers₁ [bytes]) := by
    rw [loadMissing, Downloader.tryFetchChunkFromPeer, Prog.bind_assoc]
    refine (Prog.run_bind_of_ok hfetch).trans ?_
    simp only [readSources, Prog.bind_assoc, Prog.run_exec_bind]
    refine congrArg (fun k => (onReadCache (cacheChunk C place revisionId chunk bytes) >>= fun _ =>
      onReadCache (cachedChunk C place revisionId chunk.chunkIndex) >>= k).run
        (readWorld cloud c peers₁ [bytes])) (funext fun cached => ?_)
    cases cached <;> rfl
  rw [hrest]
  have hput := run_onReadCache (cacheChunk C place revisionId chunk bytes) cloud c peers₁ [bytes]
  rw [throughCache]
  rcases hcache : (cacheChunk C place revisionId chunk bytes).run c with ⟨e | u, c₁⟩
  · rw [hcache] at hput
    rw [Prog.run_bind_of_error hput]
    exact ⟨rfl, rfl⟩
  · rw [hcache] at hput
    rw [Prog.run_bind_of_ok hput]
    have hget := run_onReadCache (cachedChunk C place revisionId chunk.chunkIndex) cloud c₁ peers₁
      [bytes]
    dsimp only
    rcases hcached : (cachedChunk C place revisionId chunk.chunkIndex).run c₁ with ⟨e | cached, c₂⟩
    · rw [hcached] at hget
      rw [Prog.run_bind_of_error hget]
      exact ⟨rfl, rfl⟩
    · rw [hcached] at hget
      rw [Prog.run_bind_of_ok hget]
      exact ⟨rfl, rfl⟩

/-- Without the pack, a read without peers fails and hands nothing to the cache. -/
theorem run_loadMissing_alone (vault : VaultWorld P) (c : CacheWorld P)
    (peers : List TrustedPeerRecord) (vaultKey : P.Key) :
    (loadMissing C place revisionId chunk net none vaultKey []).run
        (readWorld { vault } c peers []) =
      (.error (.packMissing chunk.packId), readWorld { vault } c peers []) := rfl

/-- The peers do no harm just if the cache is not missed, all of those that are asked decline, or
the first that does not sends the chunk, and the cache takes it. -/
theorem harmless_iff (C : ChunkPrimitives P) (place : CachePlace) (revisionId : ℤ)
    (chunk : FileChunkLocation) (client : PeerClient) (p : Bytes) (c : CacheWorld P)
    (peers : List TrustedPeerRecord) :
    Harmless C place revisionId chunk client p c peers ↔
      ∀ c₁, (cachedChunk C place revisionId chunk.chunkIndex).run c = (.ok none, c₁) →
        (∀ q ∈ client.asked peers, client.Declines q) ∨
          client.FirstSends (client.asked peers) p ∧ CacheTakes C place revisionId chunk p c₁ := by
  obtain ⟨hnone, hsome⟩ := client.run_fetchChunk peers
  constructor
  · intro h c₁ hmiss
    -- The providers have nothing, so that the read without peers fails with an error of its own.
    have hunharmed := h offline { vault := c.vault } (P.randomKey 0) []
    rw [run_loadChunk_of_miss hmiss, run_loadChunk_of_miss hmiss, run_loadMissing_alone] at hunharmed
    obtain ⟨hresult, -, hhanded⟩ := hunharmed
    rcases hfetch : (client.fetchChunk.run peers).1 with e | fetched
    · rw [run_loadMissing_of_error hfetch] at hresult
      rcases hresult with hresult | hresult
      · cases hresult
      · cases hresult
    · cases fetched with
      | none => exact .inl (hnone.mp hfetch)
      | some bytes =>
        obtain ⟨honly, hread⟩ := run_loadMissing_of_some C place revisionId chunk offline
          { vault := c.vault } c₁ (P.randomKey 0) [] hfetch
        rw [honly] at hhanded
        have hbytes : bytes = p := by
          rcases hhanded bytes List.mem_cons_self with heq | hmem
          · exact heq
          · cases hmem
        subst hbytes
        rw [hread] at hresult
        refine .inr ⟨(hsome bytes).mp hfetch, throughCache_eq_iff.mp ?_⟩
        rcases hresult with hresult | hresult
        · exact hresult
        · exact absurd hresult (throughCache_ne (by simp))
  · intro h net cloud vaultKey downloaded
    by_cases hmiss : ∃ c₁, (cachedChunk C place revisionId chunk.chunkIndex).run c = (.ok none, c₁)
    · obtain ⟨c₁, hmiss⟩ := hmiss
      rw [run_loadChunk_of_miss hmiss, run_loadChunk_of_miss hmiss]
      rcases h c₁ hmiss with hdecline | ⟨hsends, htakes⟩
      · rw [run_loadMissing_of_none (hnone.mpr hdecline)]
        exact ⟨.inr rfl, id, fun bytes hbytes => .inr hbytes⟩
      · obtain ⟨honly, hread⟩ := run_loadMissing_of_some C place revisionId chunk net cloud c₁
          vaultKey downloaded ((hsome p).mpr hsends)
        rw [throughCache_eq_iff.mpr htakes] at hread
        refine ⟨.inl hread, ?_, ?_⟩
        · intro _
          have hok : ∀ result : Except DownloaderError (Bytes × Downloader.DownloadedPacks),
              result.isOk = (result.map Prod.fst).isOk := by
            rintro (e | read) <;> rfl
          rw [hok, hread]
          rfl
        · rw [honly]
          intro bytes hbytes
          exact .inl (List.mem_singleton.mp hbytes)
    · have hcached : ∀ c₁, (cachedChunk C place revisionId chunk.chunkIndex).run c ≠ (.ok none, c₁) :=
        fun c₁ hrun => hmiss ⟨c₁, hrun⟩
      rw [run_loadChunk_of_cached hcached (some client) none]
      exact ⟨.inr rfl, id, fun bytes hbytes => .inr hbytes⟩

end Reads

/-- A cache without limits on its files. -/
def openPlace : CachePlace where
  io := ⟨fun _ => true, fun _ => true, fun _ => true, fun _ => true⟩
  rootDir := "cache"
  maxBytes := 1000
  inodeId := 1
  inodePath := "file"
  isPrefetched := false

/-- A chunk of one byte. -/
def oneByteChunk : FileChunkLocation where
  chunkIndex := 0
  chunkId := []
  fileOffset := 0
  size := 1
  packId := "pack"
  packOffset := 0
  encryptedSize := 97

/-- A peer that answers every request with the byte 1. -/
def onePeer : TrustedPeerRecord where
  peerId := "peer"
  deviceName := "peer"
  vaultId := "vault"
  peerApiBase := "http://peer"
  trusted := 1
  lastSeenAt := 0

def sendsOne : PeerClient where
  staleAfterMs := 1000
  errorBackoffMs := 1000
  answer := fun _ => .success (some [1])

/-- A peer sends other bytes than those of the chunk, and the read hands them to the cache. -/
theorem sendsOne_harms : ¬ Harmless symbolicChunks openPlace 1 oneByteChunk sendsOne [0]
    { vault := openVault, disk := ⟨.empty, fun _ => none⟩ } [onePeer] := by
  intro h
  have hunharmed := h offline { vault := openVault } (symbolic.randomKey 0) []
  have hmiss : (cachedChunk symbolicChunks openPlace 1 oneByteChunk.chunkIndex).run
      { vault := openVault, disk := ⟨.empty, fun _ => none⟩ } =
        (.ok none, { vault := openVault, disk := ⟨.empty, fun _ => none⟩ }) := rfl
  have hfetch : (sendsOne.fetchChunk.run [onePeer]).1 = .ok (some [1]) := rfl
  rw [run_loadChunk_of_miss hmiss, run_loadChunk_of_miss hmiss, run_loadMissing_alone] at hunharmed
  have hhanded := hunharmed.handed [1]
  rw [(run_loadMissing_of_some symbolicChunks openPlace 1 oneByteChunk offline
    { vault := openVault } _ (symbolic.randomKey 0) [] hfetch).1] at hhanded
  rcases hhanded List.mem_cons_self with heq | hmem
  · exact absurd heq (by decide)
  · cases hmem

end OmniDrive
