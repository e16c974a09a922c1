import OmniDrive.Storage.RevisionOutcome

/-!
# Packing under faults

Packing a file that fails while its chunks are prepared, because the vault is locked or a file
cannot be read or written, leaves the tables alone and the store in order. A revision whose parent
is gone is refused by the database.
-/

namespace OmniDrive

open StatementProgram Tables ByteFields Packer

variable {P : Primitives} {C : ChunkPrimitives P} {known : Bytes → Prop} {cur vaultKey : P.Key}
  {all chunks : List StoredChunk} {ε : Type}

/-! ## Keys that are drawn and not used -/

/-- An open vault with all keys of an earlier one. -/
structure KeysGrown (cur vaultKey : P.Key) (old new : VaultWorld P) : Prop where
  isOpen : VaultOpen cur vaultKey new
  inner : new.inner = old.inner
  deks : ∀ dekId row, old.db.deks.find? (·.dekId = dekId) = some row →
    new.db.deks.find? (·.dekId = dekId) = some row
  draws : old.draws ≤ new.draws

theorem KeysGrown.refl {vault : VaultWorld P} (h : VaultOpen cur vaultKey vault) :
    KeysGrown cur vaultKey vault vault := ⟨h, rfl, fun _ _ h => h, Nat.le_refl _⟩

/-- Drawing a value. -/
theorem KeysGrown.draw {old new : VaultWorld P} (h : KeysGrown cur vaultKey old new) :
    KeysGrown cur vaultKey old { new with draws := new.draws + 1 } where
  isOpen := ⟨h.isOpen.envelope, run_vaultKeyForV1Read_congr (v := new) rfl rfl h.isOpen.v1, h.isOpen.deks⟩
  inner := h.inner
  deks := h.deks
  draws := Nat.le_succ_of_le h.draws

/-- Storing a wrapped DEK. -/
theorem KeysGrown.appendDek {old new : VaultWorld P} (h : KeysGrown cur vaultKey old new)
    (inodeId : ℤ) (wrapped : P.Wrapped) (keyVersion generation : ℤ) :
    KeysGrown cur vaultKey old
      { new with db := Db.appendDek inodeId wrapped keyVersion generation new.db } where
  isOpen := by
    refine ⟨h.isOpen.envelope, run_vaultKeyForV1Read_congr (v := new) rfl rfl h.isOpen.v1, fun row hrow => ?_⟩
    rcases List.mem_append.mp hrow with hold | hnew
    · have hle := h.isOpen.deks row hold
      show row.dekId ≤ new.db.dekSequence + 1
      omega
    · rw [List.mem_singleton.mp hnew]
      exact Int.le_refl _
  inner := h.inner
  deks dekId row hrow := by
    have happend : (Db.appendDek inodeId wrapped keyVersion generation new.db).deks = new.db.deks ++
        [{ dekId := new.db.dekSequence + 1, inodeId, wrappedDek := .exact wrapped, keyVersion,
           vaultKeyGen := generation }] := rfl
    rw [happend, List.find?_append, h.deks dekId row hrow, Option.some_or]
  draws := h.draws

theorem keeps_keysGrown_createPackDek (old : VaultWorld P) (inodeId : ℤ) :
    (VaultKeyStore.createPackDek inodeId : VaultProg P _).Keeps
      (KeysGrown cur vaultKey old) := by
  apply Prog.Keeps.bind
  · exact (Prog.Keeps.query _).bind fun _ => Prog.Keeps.ofOption _ _
  intro envelopeKey
  apply (Prog.Keeps.execReturning _ fun _ h => h.draw).bind
  intro dek
  apply (Prog.Keeps.query _).bind
  intro keyVersion
  apply Prog.Keeps.bind
  · exact (Prog.Keeps.query _).bind fun _ => trivial
  intro vaultKeyGen
  exact (Prog.Keeps.execReturning _ fun _ h => h.appendDek _ _ _ _).bind fun _ => trivial

/-- The files of the chunks do not depend on further keys. -/
theorem FilesInv.keysGrown {w : FileWorld P} (h : FilesInv C known cur vaultKey all w)
    {vault : VaultWorld P} (hgrown : KeysGrown cur vaultKey w.vault vault) :
    FilesInv C known cur vaultKey all { w with vault } where
  vault := hgrown.isOpen
  drawn c hc := Nat.lt_of_lt_of_le (h.drawn c hc) hgrown.draws
  distinct := h.distinct
  known := h.known
  deks c hc := by
    obtain ⟨row, hrow, hwrapped⟩ := h.deks c hc
    exact ⟨row, hgrown.deks _ _ hrow, hwrapped⟩
  manifests := h.manifests
  shards := h.shards
  objects := h.objects
  downloads := h.downloads

/-! ## A new pack that is cut off -/

/-- The world with a vault that has grown. -/
theorem Spooled.keysGrown {w : FileWorld P} (h : FilesInv C known cur vaultKey all w)
    {vault : VaultWorld P} (hgrown : KeysGrown cur vaultKey w.vault vault) :
    Spooled C known cur vaultKey all all w { w with vault } :=
  ⟨fun _ hc => hc, h.keysGrown hgrown, rfl, hgrown.draws⟩

/-- A key store call that is cut off leaves the vault as its statements do. -/
theorem cut_onVault {α : Type} (toError : VaultError → ε) {p : VaultProg P α}
    {I : VaultWorld P → Prop} (hp : p.Keeps I) {w : FileWorld P} (hw : I w.vault) (n : ℕ) :
    ∃ vault, (onVault toError p).cut n w = { w with vault } ∧ I vault := by
  have hcut : (onVault toError p).cut n w =
      { w with vault := (p.mapError toError).cut n w.vault } :=
    Prog.cut_zoom (fun t : FileWorld P => t.vault) (fun vault t => { t with vault })
      (fun _ _ => rfl) (fun _ _ _ => rfl) (fun _ => rfl) n _ w
  exact ⟨_, hcut, hp.mapError.cut n hw⟩

/-- A shard file of a known chunk. -/
theorem FilesInv.setShard {w : FileWorld P} (h : FilesInv C known cur vaultKey all w)
    {c : StoredChunk} (hc : c ∈ all) {index : ℕ} {bytes : Bytes}
    (hfile : (c.shardFiles C)[index]? = some bytes) :
    FilesInv C known cur vaultKey all
      { w with spool := SpoolDir.setShard (c.packId C) index bytes w.spool } where
  vault := h.vault
  drawn := h.drawn
  distinct := h.distinct
  known := h.known
  deks := h.deks
  manifests := h.manifests
  shards packId i b hb := by
    rw [shards_setShard] at hb
    split at hb
    · rename_i hsame
      cases hb
      exact ⟨c, hc, hsame.1, hsame.2 ▸ hfile⟩
    · exact h.shards packId i b hb
  objects := h.objects
  downloads := h.downloads

/-- Writing the shards of a known chunk. -/
theorem keeps_filesInv_buildShardsFrom {c : StoredChunk} (hc : c ∈ all) (old : FileWorld P)
    (mode : StorageMode) (index : ℕ) {bytes : List Bytes}
    (hfiles : ∀ i b, bytes[i]? = some b → (c.shardFiles C)[index + i]? = some b) :
    (buildShardsFrom C mode (c.packId C) index bytes).Keeps fun w =>
      FilesInv C known cur vaultKey all w ∧ w.db = old.db ∧ old.vault.draws ≤ w.vault.draws := by
  induction bytes generalizing index with
  | nil => trivial
  | cons b rest ih =>
    have hhead : (c.shardFiles C)[index]? = some b := hfiles 0 b rfl
    have htail : ∀ i b', rest[i]? = some b' → (c.shardFiles C)[index + 1 + i]? = some b' := by
      intro i b' hb
      have hnext := hfiles (i + 1) b' hb
      rwa [← Nat.add_right_comm, Nat.add_assoc]
    apply (Prog.Keeps.exec fun w h => ⟨h.1.setShard hc hhead, h.2⟩).bind
    intro _
    apply (Prog.Keeps.ofExcept _).bind
    intro _
    apply (Prog.Keeps.ofExcept _).bind
    intro _
    exact (ih (index + 1) htail).bind fun _ => trivial

/-- The spooling of a new chunk, cut off anywhere. -/
theorem cut_spoolPack (ideal : C.Ideal) {w : FileWorld P}
    (hfiles : FilesInv C known cur vaultKey all w) (inodeId : ℤ) (mode : StorageMode)
    {plaintext : Bytes} (hknown : known plaintext) (fileOffset : ℤ) (n : ℕ) : ∃ all',
      Spooled C known cur vaultKey all all' w
        ((spoolPack C mode (C.sha256Hex plaintext) fileOffset plaintext.length plaintext
          (w.vault.db.dekSequence + 1) (P.randomKey w.vault.draws) (w.vault.draws + 1)).cut n
          { w with vault := keysDrawn cur inodeId w.vault }) := by
  obtain ⟨c, hc⟩ : ∃ c, c = newChunk plaintext mode w.vault := ⟨_, rfl⟩
  have hgrown : KeysGrown cur vaultKey w.vault (keysDrawn cur inodeId w.vault) := by
    refine ⟨hfiles.vault.keysDrawn inodeId, rfl, fun dekId row hrow => ?_, Nat.le_add_right _ 2⟩
    exact find?_keysDrawn inodeId hrow
  cases n with
  | zero =>
    rw [Prog.cut_zero]
    exact ⟨all, .keysGrown hfiles hgrown⟩
  | succ n =>
    have hspooled := hfiles.packSpooled ideal inodeId mode hknown 0
    rw [← hc] at hspooled
    have hmem : c ∈ all ++ [c] := List.mem_append_right _ (List.mem_singleton_self c)
    -- the manifest is written by now, and the shards follow
    have hkeep : (buildShards C (c.packId C) (c.encrypted C).ciphertext mode >>= fun shards => do
        let cipherSize ← Prog.ofExcept (toI64 (c.encrypted C).ciphertext.length "cipher size")
        let shardSize ← Prog.ofExcept (shardSizeOf mode shards)
        let manifestSize ← Prog.ofExcept (toI64 (c.manifest C).length "manifest size")
        pure { c.prepared C fileOffset false with cipherSize, shardSize, manifestSize, shards } :
        FileProg P PackerError PreparedPack).Keeps fun w' =>
          FilesInv C known cur vaultKey (all ++ [c]) w' ∧ w'.db = w.db ∧
            w.vault.draws ≤ w'.vault.draws := by
      apply Prog.Keeps.bind
      · apply keeps_filesInv_buildShardsFrom hmem w mode 0
        intro i b hb
        rw [Nat.zero_add, StoredChunk.shardFiles, hc]
        rw [hc] at hb
        exact hb
      · intro shards
        apply (Prog.Keeps.ofExcept _).bind
        intro cipherSize
        apply (Prog.Keeps.ofExcept _).bind
        intro shardSize
        exact (Prog.Keeps.ofExcept _).bind fun _ => trivial
    have hstart : w.vault.draws ≤ (keysDrawn cur inodeId w.vault).draws := hgrown.draws
    have hend := hkeep.cut n (s := packSpooled C cur inodeId c 0 w) ⟨hspooled, rfl, hstart⟩
    refine ⟨all ++ [c], fun c' hc' => List.mem_append_left _ hc', ?_, ?_, ?_⟩
    · rw [hc] at hend ⊢
      exact hend.1
    · rw [hc] at hend
      exact hend.2.1
    · rw [hc] at hend
      exact hend.2.2

/-- A new pack, cut off anywhere. -/
theorem cut_newPack (ideal : C.Ideal) {w : FileWorld P}
    (hfiles : FilesInv C known cur vaultKey all w) (inodeId : ℤ) (mode : StorageMode)
    {plaintext : Bytes} (hknown : known plaintext) (fileOffset : ℤ) (n : ℕ) : ∃ all',
      Spooled C known cur vaultKey all all' w
        ((newPack C inodeId mode (C.sha256Hex plaintext) fileOffset plaintext.length
          plaintext).cut n w) := by
  have henvelope := hfiles.vault.envelope
  rcases hinner : w.vault.inner with _ | keys
  · rw [hinner] at henvelope
    cases henvelope
  rw [hinner, Option.bind_some] at henvelope
  obtain ⟨vault, hvault⟩ : ∃ vault, vault = VaultKeyStore.dekInserted cur inodeId
    (Db.nextKeyVersion inodeId w.vault.db) w.vault := ⟨_, rfl⟩
  have hdek : (onVault PackerError.vault (VaultKeyStore.createPackDek inodeId)).run w =
      (.ok (w.vault.db.dekSequence + 1, P.randomKey w.vault.draws), { w with vault }) := by
    rw [run_onVault, VaultKeyStore.run_createPackDek inodeId hinner henvelope, hvault]
    rfl
  have hkeep : (VaultKeyStore.createPackDek inodeId : VaultProg P _).Keeps
      (KeysGrown cur vaultKey w.vault) := keeps_keysGrown_createPackDek w.vault inodeId
  have hgrown : KeysGrown cur vaultKey w.vault vault := by
    have hrun := hkeep.run (.refl hfiles.vault)
    rwa [VaultKeyStore.run_createPackDek inodeId hinner henvelope, ← hvault] at hrun
  have hnonce : (onVault PackerError.vault (draw id)).run { w with vault } =
      (.ok vault.draws, { w with vault := { vault with draws := vault.draws + 1 } }) := rfl
  have hkeys : ({ vault with draws := vault.draws + 1 } : VaultWorld P) =
      keysDrawn cur inodeId w.vault := by
    rw [hvault]
    rfl
  have hdraws : vault.draws = w.vault.draws + 1 := by
    rw [hvault]
    rfl
  apply Prog.forall_cut_bind (Q := fun _ s => ∃ all', Spooled C known cur vaultKey all all' w s)
    hdek
  · intro n _
    obtain ⟨v, hcut, hv⟩ := cut_onVault (w := w) PackerError.vault hkeep (.refl hfiles.vault) n
    rw [hcut]
    exact ⟨all, .keysGrown hfiles hv⟩
  · intro n
    apply Prog.forall_cut_bind
      (Q := fun _ s => ∃ all', Spooled C known cur vaultKey all all' w s) hnonce
    · intro m _
      have hdraw : (draw id : VaultProg P ℕ).Keeps (KeysGrown cur vaultKey w.vault) :=
        Prog.Keeps.execReturning _ fun _ h => h.draw
      obtain ⟨v, hcut, hv⟩ := cut_onVault (w := { w with vault }) PackerError.vault hdraw hgrown m
      rw [hcut]
      exact ⟨all, .keysGrown hfiles hv⟩
    · intro m
      rw [hkeys, hdraws]
      exact cut_spoolPack ideal hfiles inodeId mode hknown fileOffset m

/-- The chunks of a file, cut off anywhere. -/
theorem cut_prepareChunks (ideal : C.Ideal) {db : FileDb} (htables : TablesInv C chunks db)
    (hfits : ∀ c ∈ chunks, c.plaintext.length + 96 < 2 ^ 63) (inodeId : ℤ) (mode : StorageMode)
    (fileOffset : ℤ) {plaintexts : List Bytes} (hknown : ∀ p ∈ plaintexts, known p)
    {w : FileWorld P} (hdb : w.db = db) (hfiles : FilesInv C known cur vaultKey all w) (n : ℕ) :
    ∃ all', Spooled C known cur vaultKey all all' w
      ((prepareChunks C inodeId mode fileOffset plaintexts).cut n w) := by
  induction plaintexts generalizing all w fileOffset n with
  | nil =>
    rw [prepareChunks, Prog.pure_eq_ret, Prog.cut_ret]
    exact ⟨all, .refl hfiles⟩
  | cons plaintext rest ih =>
    have hchunk : ∀ n, ∃ all', Spooled C known cur vaultKey all all' w
        ((prepareChunk C inodeId mode fileOffset plaintext).cut n w) := by
      intro n
      rw [prepareChunk]
      rcases hsize : toI64 plaintext.length "chunk size" with e | plainSize
      · rw [Prog.ofExcept_error, Prog.fail_bind, Prog.cut_fail]
        exact ⟨all, .refl hfiles⟩
      obtain ⟨rfl, -⟩ := toI64_eq_ok hsize
      rw [Prog.ofExcept_ok, Prog.ret_bind]
      apply Prog.forall_cut_query_bind
        (Q := fun s => ∃ all', Spooled C known cur vaultKey all all' w s) ⟨all, .refl hfiles⟩
      intro m
      rcases Db.packByPlaintextHash (C.sha256Hex plaintext) mode w.db with _ | existing
      · exact cut_newPack ideal hfiles inodeId mode (hknown plaintext List.mem_cons_self)
          fileOffset m
      · dsimp only
        cases reusePack (C.sha256Hex plaintext) mode fileOffset plaintext.length existing with
        | error e =>
          rw [Prog.ofExcept_error, Prog.cut_fail]
          exact ⟨all, .refl hfiles⟩
        | ok prepared =>
          rw [Prog.ofExcept_ok, Prog.cut_ret]
          exact ⟨all, .refl hfiles⟩
    obtain ⟨all₁, hspooled, -⟩ := run_prepareChunk ideal htables hfits inodeId mode fileOffset
      (hknown plaintext List.mem_cons_self) hdb hfiles
    rw [prepareChunks]
    rcases hrun : (prepareChunk C inodeId mode fileOffset plaintext).run w with ⟨e | prepared, t⟩
    · rw [Prog.cut_bind_of_error hrun]
      exact hchunk n
    rw [hrun] at hspooled
    apply Prog.forall_cut_bind (Q := fun _ s => ∃ all', Spooled C known cur vaultKey all all' w s)
      hrun
    · exact fun n _ => hchunk n
    · intro m
      rcases checkedAddI64 fileOffset prepared.plainSize "file offset" with e | next
      · rw [Prog.ofExcept_error, Prog.fail_bind, Prog.cut_fail]
        exact ⟨all₁, hspooled⟩
      rw [Prog.ofExcept_ok, Prog.ret_bind]
      obtain ⟨all₂, hrest⟩ : ∃ all₂, Spooled C known cur vaultKey all₁ all₂ t
          ((prepareChunks C inodeId mode next rest).cut m t) :=
        ih next (fun p hp => hknown p (List.mem_cons_of_mem _ hp)) (hspooled.db.trans hdb)
          hspooled.files m
      have hpure : ((prepareChunks C inodeId mode next rest >>= fun tail =>
          pure (prepared :: tail)) : FileProg P PackerError _).cut m t =
            (prepareChunks C inodeId mode next rest).cut m t :=
        Prog.Fixes.cut_bind (fun _ => Prog.Fixes.pure _) m _ t
      rw [hpure]
      exact ⟨all₂, hspooled.trans hrest⟩

/-! ## A locked vault -/

section Locked

variable {w : FileWorld P} (hlocked : w.vault.inner = none)
include hlocked

/-- With the vault locked, no statement of the preparation writes. -/
theorem keeps_prepareChunk_locked (inodeId : ℤ) (mode : StorageMode) (fileOffset : ℤ)
    (plaintext : Bytes) :
    (prepareChunk C inodeId mode fileOffset plaintext).Keeps fun s => s = w := by
  have hdek : ∀ f : ℤ × P.Key → FileProg P PackerError PreparedPack,
      (onVault PackerError.vault (VaultKeyStore.createPackDek inodeId) >>= f).Keeps
        fun s => s = w := by
    intro f s hs
    have hslot : s.vault.inner = none := by rw [hs, hlocked]
    refine ⟨hs, ?_⟩
    dsimp only
    rw [hslot]
    trivial
  apply (Prog.Keeps.ofExcept _).bind
  intro plainSize
  apply (Prog.Keeps.query _).bind
  intro existing
  cases existing with
  | some existing => exact Prog.Keeps.ofExcept _
  | none => exact hdek _

theorem keeps_prepareChunks_locked (inodeId : ℤ) (mode : StorageMode) (fileOffset : ℤ)
    (plaintexts : List Bytes) :
    (prepareChunks C inodeId mode fileOffset plaintexts).Keeps fun s => s = w := by
  induction plaintexts generalizing fileOffset with
  | nil => trivial
  | cons plaintext rest ih =>
    apply (keeps_prepareChunk_locked hlocked inodeId mode fileOffset plaintext).bind
    intro prepared
    apply (Prog.Keeps.ofExcept _).bind
    intro next
    exact (ih next).bind fun _ => trivial

variable (ideal : C.Ideal) (htables : TablesInv C chunks w.db)
  (hfits : ∀ c ∈ chunks, c.plaintext.length + 96 < 2 ^ 63)
include ideal htables hfits

/-- A chunk that is prepared while the vault is locked is a stored one. -/
theorem run_prepareChunk_locked (inodeId : ℤ) (mode : StorageMode) (fileOffset : ℤ)
    {plaintext : Bytes} {prepared : PreparedPack}
    (h : ((prepareChunk C inodeId mode fileOffset plaintext).run w).1 = .ok prepared) :
    ∃ c ∈ chunks, prepared = c.prepared C fileOffset true ∧ c.plaintext = plaintext ∧
      c.storageMode = mode := by
  rw [prepareChunk] at h
  rcases hsize : toI64 plaintext.length "chunk size" with e | plainSize
  · rw [hsize] at h
    cases h
  obtain ⟨rfl, -⟩ := toI64_eq_ok hsize
  rw [hsize, Prog.ofExcept_ok, Prog.ret_bind, Db.findPackByPlaintextHash,
    run_selectFiles_bind] at h
  rcases hfound : Db.packByPlaintextHash (C.sha256Hex plaintext) mode w.db with _ | existing
  · rw [hfound] at h
    have hnone : w.vault.inner.bind (·.envelopeVaultKey) = none := by
      rw [hlocked]
      rfl
    have hdek : (onVault PackerError.vault (VaultKeyStore.createPackDek inodeId)).run w =
        (.error (.vault .locked), w) := by
      rw [run_onVault, VaultKeyStore.run_createPackDek_locked inodeId hnone]
      rfl
    dsimp only at h
    rw [newPack, Prog.run_bind_of_error hdek] at h
    cases h
  · rw [hfound] at h
    obtain ⟨c, hc, hcore, hplain, hmode⟩ := htables.packByPlaintextHash ideal hfound
    have hreuse := reusePack_eq ideal hcore (hfits c hc) fileOffset
    rw [hplain, hmode] at hreuse
    dsimp only at h
    rw [hreuse] at h
    cases h
    exact ⟨c, hc, rfl, hplain, hmode⟩

/-- A file that is prepared while the vault is locked reuses packs only. -/
theorem run_prepareChunks_locked (inodeId : ℤ) (mode : StorageMode) (fileOffset : ℤ)
    {plaintexts : List Bytes} {prepared : List PreparedPack}
    (h : ((prepareChunks C inodeId mode fileOffset plaintexts).run w).1 = .ok prepared) :
    ∃ items, prepared = preparedFrom C fileOffset items ∧
      ItemsInv mode chunks all all plaintexts items := by
  induction plaintexts generalizing fileOffset prepared with
  | nil =>
    refine ⟨[], ?_, ⟨rfl, by simp, by simp, by simp, List.nodup_nil⟩⟩
    cases h
    rfl
  | cons plaintext rest ih =>
    rw [prepareChunks] at h
    have hstay := (keeps_prepareChunk_locked (C := C) hlocked inodeId mode fileOffset
      plaintext).run rfl
    rcases hchunk : (prepareChunk C inodeId mode fileOffset plaintext).run w with ⟨e | first, t⟩
    · rw [Prog.run_bind_of_error hchunk] at h
      cases h
    rw [hchunk] at hstay
    obtain rfl : t = w := hstay
    obtain ⟨c, hc, hfirst, hplain, hmode⟩ := run_prepareChunk_locked hlocked ideal htables hfits
      inodeId mode fileOffset (congrArg Prod.fst hchunk)
    have hsize : first.plainSize = c.plaintext.length := by
      rw [hfirst]
      rfl
    rw [Prog.run_bind_of_ok hchunk, hsize] at h
    rcases hadd : checkedAddI64 fileOffset c.plaintext.length "file offset" with e | next
    · rw [hadd] at h
      cases h
    have hnext : next = fileOffset + c.plaintext.length := by
      unfold checkedAddI64 at hadd
      split at hadd
      · cases hadd
        rfl
      · cases hadd
    rw [hadd, Prog.ofExcept_ok, Prog.ret_bind, hnext] at h
    rcases hrest : (prepareChunks C inodeId mode (fileOffset + c.plaintext.length) rest).run t
      with ⟨e | tail, t'⟩
    · rw [Prog.run_bind_of_error hrest] at h
      cases h
    rw [Prog.run_bind_of_ok hrest] at h
    cases h
    obtain ⟨items, htail, hitems⟩ := ih (fileOffset + c.plaintext.length)
      (congrArg Prod.fst hrest)
    have hitem : ItemsInv mode chunks all all [plaintext] [(c, true)] := by
      refine ⟨by rw [List.map_singleton, hplain], ?_, ?_, ?_, List.nodup_nil⟩
      · intro item hmem
        rw [List.mem_singleton.mp hmem]
        exact hmode
      · intro item hmem _
        rw [List.mem_singleton.mp hmem]
        exact hc
      · intro item hmem hnew
        rw [List.mem_singleton.mp hmem] at hnew
        cases hnew
    refine ⟨(c, true) :: items, ?_, hitem.cons hitems (fun _ h => h) fun _ h => h⟩
    rw [hfirst, htail]
    rfl

end Locked

end OmniDrive
