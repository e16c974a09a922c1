import OmniDrive.Storage.Downloader
import OmniDrive.Storage.Grace
import OmniDrive.Storage.Names
import OmniDrive.Vault.CrashAtomicity

/-!
# Keys of packs without a binding

A pack from the time when the key belonged to the inode has no row in `pack_deks`. Its first read
looks for the inode that created it and takes that inode's latest DEK, and binds the pack to the
result for good. The guess is right as long as the creating inode has not been given another DEK
and its revisions have not been deleted.
-/

namespace OmniDrive

open StatementProgram Tables

variable {P : Primitives}

/-! ## The latest DEK of an inode -/

namespace Db

section Deks

variable {db : VaultDb P} {inodeId : ℤ} {row : WrappedDekRecord P}

/-- The latest DEK of an inode is a row of that inode with the highest version. -/
theorem of_latestDek (h : latestDek inodeId db = some row) :
    row ∈ db.deks ∧ row.inodeId = inodeId ∧
      ∀ x ∈ db.deks, x.inodeId = inodeId → x.keyVersion ≤ row.keyVersion := by
  obtain ⟨hmem, hfirst⟩ := le_of_head?_orderBy h
  obtain ⟨hrow, hinode⟩ := List.mem_filter.mp hmem
  refine ⟨hrow, of_decide_eq_true hinode, fun x hx hxi => ?_⟩
  have hle : -row.keyVersion ≤ -x.keyVersion :=
    hfirst x (List.mem_filter.mpr ⟨hx, decide_eq_true hxi⟩)
  omega

/-- A DEK for one inode does not touch the latest one of another. -/
theorem latestDek_appendDek_of_ne {other : ℤ} (h : other ≠ inodeId) (wrapped : P.Wrapped)
    (keyVersion generation : ℤ) :
    latestDek inodeId (appendDek other wrapped keyVersion generation db) = latestDek inodeId db := by
  simp [latestDek, appendDek, List.filter_append, h]

/-- The next version is above every version the inode has. -/
theorem lt_nextKeyVersion (hrow : row ∈ db.deks) (hinode : row.inodeId = inodeId) :
    row.keyVersion < nextKeyVersion inodeId db := by
  have hmem : row.keyVersion ∈ (db.deks.filter (·.inodeId = inodeId)).map (·.keyVersion) :=
    List.mem_map_of_mem (List.mem_filter.mpr ⟨hrow, decide_eq_true hinode⟩)
  cases hmax : ((db.deks.filter (·.inodeId = inodeId)).map (·.keyVersion)).max? with
  | none =>
    rw [List.max?_eq_none_iff.mp hmax] at hmem
    cases hmem
  | some version =>
    have hle : row.keyVersion ≤ version := (List.max?_eq_some_iff.mp hmax).2 _ hmem
    rw [nextKeyVersion, hmax, Option.getD_some]
    omega

end Deks

/-! ## The creating inode -/

section Revisions

variable {db : FileDb} {packId : String} {inodeId : ℤ} {r : FileRevisionRecord}

/-- The revision refers to a chunk that is located in the pack. -/
def RefersTo (packId : String) (db : FileDb) (r : FileRevisionRecord) : Prop :=
  r ∈ db.fileRevisions ∧ ∃ pl ∈ db.packLocations, pl.packId = packId ∧
    ∃ cr ∈ db.chunkRefs, cr.chunkId = pl.chunkId ∧ cr.revisionId = r.revisionId

/-- The rows of the join are the revisions that refer to the pack. -/
theorem mem_join_iff : r ∈ ((db.packLocations.filter (·.packId = packId)).flatMap fun pl =>
      (db.chunkRefs.filter (·.chunkId = pl.chunkId)).flatMap fun cr =>
        db.fileRevisions.filter (·.revisionId = cr.revisionId)) ↔ RefersTo packId db r := by
  simp only [List.mem_flatMap, List.mem_filter, decide_eq_true_eq, RefersTo]
  constructor
  · rintro ⟨pl, ⟨hpl, hpack⟩, cr, ⟨hcr, hchunk⟩, hr, hid⟩
    exact ⟨hr, pl, hpl, hpack, cr, hcr, hchunk, hid.symm⟩
  · rintro ⟨hr, pl, hpl, hpack, cr, hcr, hchunk, hid⟩
    exact ⟨pl, ⟨hpl, hpack⟩, cr, ⟨hcr, hchunk⟩, hr, hid.symm⟩

/-- The creating inode has a revision. -/
theorem of_creatingInode (h : creatingInode packId db = some inodeId) :
    ∃ r ∈ db.fileRevisions, r.inodeId = inodeId := by
  obtain ⟨r, hr, hinode⟩ := Option.map_eq_some_iff.mp h
  exact ⟨r, (mem_join_iff.mp (le_of_head?_orderBy hr).1).1, hinode⟩

/-- The creating inode is the one of the earliest revision that refers to the pack. -/
theorem creatingInode_eq_some_iff (hids : (db.fileRevisions.map (·.revisionId)).Nodup) :
    creatingInode packId db = some inodeId ↔ ∃ r, RefersTo packId db r ∧
      (∀ x, RefersTo packId db x → r.revisionId ≤ x.revisionId) ∧ r.inodeId = inodeId := by
  have hinj : ∀ a b, RefersTo packId db a → RefersTo packId db b →
      a.revisionId = b.revisionId → a = b := by
    intro a b ha hb hab
    exact List.inj_on_of_nodup_map hids ha.1 hb.1 hab
  rw [creatingInode, Option.map_eq_some_iff]
  constructor
  · rintro ⟨r, hr, hinode⟩
    obtain ⟨hmem, hfirst⟩ := le_of_head?_orderBy hr
    exact ⟨r, mem_join_iff.mp hmem, fun x hx => hfirst x (mem_join_iff.mpr hx), hinode⟩
  · rintro ⟨r, hr, hfirst, hinode⟩
    refine ⟨r, (head?_orderBy_eq_some_iff ?_).mpr ⟨mem_join_iff.mpr hr, fun x hx => ?_⟩, hinode⟩
    · intro a ha b hb hab
      exact hinj a b (mem_join_iff.mp ha) (mem_join_iff.mp hb) hab
    · exact hfirst x (mem_join_iff.mp hx)

/-- The tables after `delete_file_chunks`. -/
def withoutChunks (inodeId : ℤ) (db : FileDb) : FileDb :=
  Trash.deleteRevisions inodeId (Trash.deleteRefs inodeId db)

theorem revisionIds_withoutChunks (hids : (db.fileRevisions.map (·.revisionId)).Nodup) :
    ((withoutChunks inodeId db).fileRevisions.map (·.revisionId)).Nodup :=
  Trash.revisionIds_deleteRevisions hids

/-- A revision that is left was there, and is of another inode. -/
theorem RefersTo.of_withoutChunks (h : RefersTo packId (withoutChunks inodeId db) r) :
    ∃ x, RefersTo packId db x ∧ x.revisionId = r.revisionId ∧ x.inodeId = r.inodeId ∧
      r.inodeId ≠ inodeId := by
  obtain ⟨hr, pl, hpl, hpack, cr, hcr, hchunk, hid⟩ := h
  obtain ⟨x, hx, hxid, hxi, hne⟩ := Trash.mem_deleteRevisions hr
  have hcr' : cr ∈ db.chunkRefs := (mem_deleteWhere.mp (mem_deleteWhere.mp hcr).1).1
  refine ⟨x, ⟨hx, pl, hpl, hpack, cr, hcr', hchunk, ?_⟩, hxid.symm, hxi.symm, hne⟩
  rw [hid, hxid]

/-- The revisions of other inodes stay, up to their parents. -/
theorem RefersTo.withoutChunks (h : RefersTo packId db r)
    (hids : (db.fileRevisions.map (·.revisionId)).Nodup) (hne : r.inodeId ≠ inodeId) :
    ∃ x, RefersTo packId (withoutChunks inodeId db) x ∧ x.revisionId = r.revisionId ∧
      x.inodeId = r.inodeId := by
  obtain ⟨hr, pl, hpl, hpack, cr, hcr, hchunk, hid⟩ := h
  have hrefs : cr ∈ (Trash.deleteRefs inodeId db).chunkRefs := by
    rw [Trash.deleteRefs, mem_deleteWhere, hid, Trash.isRevisionOf_eq hids hr]
    exact ⟨hcr, decide_eq_false hne⟩
  refine ⟨_, ⟨List.mem_map_of_mem (mem_deleteWhere.mpr ⟨hr, decide_eq_false hne⟩), pl, hpl, hpack,
    cr, ?_, hchunk, hid⟩, rfl, rfl⟩
  exact @Trash.mem_chunkRefs_deleteRevisions (Trash.deleteRefs inodeId db) inodeId hids cr hrefs r
    hr hid.symm hne

/-- Deleting the revisions of another inode leaves the creating inode of a pack. -/
theorem creatingInode_withoutChunks {creator : ℤ}
    (hids : (db.fileRevisions.map (·.revisionId)).Nodup) (hne : inodeId ≠ creator)
    (h : creatingInode packId db = some creator) :
    creatingInode packId (withoutChunks inodeId db) = some creator := by
  obtain ⟨r, hr, hfirst, hcreator⟩ := (creatingInode_eq_some_iff hids).mp h
  apply (creatingInode_eq_some_iff (revisionIds_withoutChunks hids)).mpr
  obtain ⟨x, hx, hid, hinode⟩ := hr.withoutChunks hids (by rw [hcreator]; exact hne.symm)
  refine ⟨x, hx, fun y hy => ?_, hinode.trans hcreator⟩
  obtain ⟨z, hz, hzid, -⟩ := hy.of_withoutChunks
  rw [hid, ← hzid]
  exact hfirst z hz

end Revisions

section Bindings

variable {db : FileDb} {packId other : String} {dekId dekId' : ℤ}

/-- An unbound pack is bound. -/
theorem packDekId_bindPackDek (h : packDekId packId db = none) :
    packDekId packId (bindPackDek packId dekId db) = some dekId := by
  have hfresh : ∀ r ∈ db.packDeks, r.packId ≠ packId := by
    simpa [packDekId] using h
  have hnone : db.packDeks.find? (·.packId = packId) = none := by
    simpa using hfresh
  rw [packDekId, bindPackDek, insertOrIgnore_of_fresh hfresh]
  simp [List.find?_append, hnone]

/-- A binding, once made, stays. -/
theorem packDekId_bindPackDek_of_some (h : packDekId packId db = some dekId) :
    packDekId packId (bindPackDek other dekId' db) = some dekId := by
  obtain ⟨row, hrow, hid⟩ := Option.map_eq_some_iff.mp h
  rw [packDekId, bindPackDek, insertOrIgnore]
  split
  · rw [hrow, Option.map_some, hid]
  · rw [List.find?_append, hrow, Option.some_or, Option.map_some, hid]

/-- Binding one pack binds no other. -/
theorem packDekId_bindPackDek_of_ne (hne : other ≠ packId) (h : packDekId packId db = none) :
    packDekId packId (bindPackDek other dekId db) = none := by
  have hnone : db.packDeks.find? (·.packId = packId) = none := Option.map_eq_none_iff.mp h
  rw [packDekId, bindPackDek, insertOrIgnore]
  split
  · rw [hnone, Option.map_none]
  · rw [List.find?_append, hnone]
    simp [hne]

end Bindings

end Db

/-! ## The look-up of a key -/

namespace VaultKeyStore

section Lookup

variable {packId : String} {w w' : FileWorld P} {keys : UnlockedVaultKeys P}
variable {row : WrappedDekRecord P} {dek : P.Key}

/-- Unwrapping changes nothing. -/
theorem run_unwrapDekBytes_state (blob : Sized P.Wrapped) (w : VaultWorld P) :
    ((unwrapDekBytes blob).run w).2 = w := by
  have henvelope := run_requireEnvelopeKey w
  rcases hslot : w.inner.bind (·.envelopeVaultKey) with _ | envelopeKey
  · rw [hslot] at henvelope
    rw [unwrapDekBytes, Prog.run_bind_of_error henvelope]
  rw [hslot] at henvelope
  rw [unwrapDekBytes, Prog.run_bind_of_ok henvelope]
  rcases blob with wrapped | bytes
  · exact run_unwrapWithFallback envelopeKey wrapped w
  · rfl

/-- Unwrapping in the world of the files. -/
theorem run_onVault_unwrap (blob : Sized P.Wrapped) (w : FileWorld P) :
    (onVault id (unwrapDekBytes blob) : FileProg P VaultError P.Key).run w =
      (((unwrapDekBytes blob).run w.vault).1, w) := by
  rw [run_onVault, run_unwrapDekBytes_state]
  rcases ((unwrapDekBytes blob).run w.vault).1 with e | dek
  · rfl
  · rfl

/-- A bound pack is read with the DEK it is bound to, and nothing changes. -/
theorem run_dekForPack_bound {dekId : ℤ} (hbound : Db.packDekId packId w.db = some dekId)
    (hrow : w.vault.db.deks.find? (·.dekId = dekId) = some row)
    (hinner : w.vault.inner = some keys) (hreads : Reads keys row dek) :
    (dekForPack packId).run w = (.ok dek, w) := by
  have hunwrap := run_onVault_unwrap row.wrappedDek w
  rw [(run_unwrapDekBytes hinner row dek).mpr hreads] at hunwrap
  have hselect : (onVault id (Db.getWrappedDekById dekId) : FileProg P VaultError _).run w =
      (.ok (some row), w) := by
    rw [run_onVault, Db.getWrappedDekById, run_selectDb, hrow]
    rfl
  rw [dekForPack, Db.getPackDekId, run_selectFiles_bind, hbound, Prog.run_bind_of_ok hselect]
  exact hunwrap

/-- The first read of an unbound pack takes the latest DEK of the creating inode and binds it. -/
theorem run_dekForPack_unbound {inodeId : ℤ} (hunbound : Db.packDekId packId w.db = none)
    (hcreated : Db.creatingInode packId w.db = some inodeId)
    (hlatest : Db.latestDek inodeId w.vault.db = some row)
    (hinner : w.vault.inner = some keys) (hreads : Reads keys row dek) :
    (dekForPack packId).run w = (.ok dek, w.withDb (Db.bindPackDek packId row.dekId w.db)) := by
  have hunwrap := run_onVault_unwrap row.wrappedDek w
  rw [(run_unwrapDekBytes hinner row dek).mpr hreads] at hunwrap
  have hselect : (onVault id (Db.getWrappedDek inodeId) : FileProg P VaultError _).run w =
      (.ok (some row), w) := by
    rw [run_onVault, Db.getWrappedDek, run_selectDb, hlatest]
    rfl
  rw [dekForPack, Db.getPackDekId, run_selectFiles_bind, hunbound]
  simp only [Db.creatingInodeForPack, run_selectFiles_bind, hcreated, Prog.ofOption_some,
    Prog.ret_bind]
  rw [Prog.run_bind_of_ok hselect, Prog.ofOption_some, Prog.ret_bind,
    Prog.run_bind_of_ok hunwrap]
  rfl

/-- A query of the vault's tables. -/
theorem run_onVault_select {α : Type} (f : VaultDb P → α) (w : FileWorld P) :
    (onVault id (selectDb f) : FileProg P VaultError α).run w = (.ok (f w.vault.db), w) := by
  rw [run_onVault]
  rfl

/-- A look-up leaves the world alone or binds an unbound pack to the latest DEK of its creating
inode. -/
theorem run_dekForPack_cases (packId : String) (w : FileWorld P) :
    ((dekForPack packId).run w).2 = w ∨ Db.packDekId packId w.db = none ∧ ∃ inodeId row,
      Db.creatingInode packId w.db = some inodeId ∧
      Db.latestDek inodeId w.vault.db = some row ∧
      ((dekForPack packId).run w).2 = w.withDb (Db.bindPackDek packId row.dekId w.db) := by
  rw [dekForPack, Db.getPackDekId, run_selectFiles_bind]
  rcases hbound : Db.packDekId packId w.db with _ | dekId
  · simp only [Db.creatingInodeForPack, run_selectFiles_bind]
    rcases hcreated : Db.creatingInode packId w.db with _ | inodeId
    · exact Or.inl rfl
    have hselect := run_onVault_select (Db.latestDek inodeId) w
    simp only [Prog.ofOption_some, Prog.ret_bind, Db.getWrappedDek]
    rw [Prog.run_bind_of_ok hselect]
    rcases hlatest : Db.latestDek inodeId w.vault.db with _ | row
    · exact Or.inl rfl
    have hunwrap := run_onVault_unwrap row.wrappedDek w
    rw [Prog.ofOption_some, Prog.ret_bind]
    rcases hdek : ((unwrapDekBytes row.wrappedDek).run w.vault).1 with e | dek
    · rw [hdek] at hunwrap
      rw [Prog.run_bind_of_error hunwrap]
      exact Or.inl rfl
    · rw [hdek] at hunwrap
      rw [Prog.run_bind_of_ok hunwrap]
      exact Or.inr ⟨trivial, inodeId, row, rfl, hlatest, rfl⟩
  · have hselect := run_onVault_select (fun db => db.deks.find? (·.dekId = dekId)) w
    simp only [Db.getWrappedDekById]
    rw [Prog.run_bind_of_ok hselect]
    rcases hrow : w.vault.db.deks.find? (·.dekId = dekId) with _ | row
    · rw [hrow]
      exact Or.inl rfl
    · rw [hrow, Prog.ofOption_some, Prog.ret_bind, run_onVault_unwrap]
      exact Or.inl rfl

end Lookup

end VaultKeyStore

/-! ## Steps around the first read -/

/-- Minting a DEK for an inode, looking one up or minting it, deleting the revisions of an inode,
and reading the key of a pack. -/
inductive KeyOp where
  | createPackDek (inodeId : ℤ)
  | getOrCreateDek (inodeId : ℤ)
  | deleteFileChunks (inodeId : ℤ)
  | dekForPack (packId : String)
  deriving DecidableEq, Repr

def KeyOp.step : KeyOp → FileWorld P → FileWorld P
  | createPackDek inodeId, w =>
    ((onVault id (VaultKeyStore.createPackDek inodeId) :
      FileProg P VaultError (ℤ × P.Key)).run w).2
  | getOrCreateDek inodeId, w =>
    ((onVault id (VaultKeyStore.getOrCreateDek inodeId) :
      FileProg P VaultError (ℤ × P.Key)).run w).2
  | deleteFileChunks inodeId, w =>
    ((onTrash (Trash.deleteFileChunks inodeId) : FileProg P VaultError Unit).run w).2
  | dekForPack packId, w => ((VaultKeyStore.dekForPack packId).run w).2

/-- The world after the operations. -/
def afterOps (ops : List KeyOp) (w : FileWorld P) : FileWorld P :=
  ops.foldl (fun w op => op.step w) w

/-- The look-up returns the key, binds the pack to it, and every later look-up agrees. -/
def FindsKey (packId : String) (dekId : ℤ) (dek : P.Key) (w : FileWorld P) : Prop :=
  ∃ w', (VaultKeyStore.dekForPack packId).run w = (.ok dek, w') ∧
    Db.packDekId packId w'.db = some dekId ∧
    ∀ later : List KeyOp, ∃ w'',
      (VaultKeyStore.dekForPack packId).run (afterOps later w') = (.ok dek, w'')

/-- The vault is unlocked and its table of DEKs has the row, which unwraps to the key. -/
structure HoldsDek (row : WrappedDekRecord P) (dek : P.Key) (w : FileWorld P) : Prop where
  reads : ∃ keys, w.vault.inner = some keys ∧ VaultKeyStore.Reads keys row dek
  known : row ∈ w.vault.db.deks
  dekIds : (w.vault.db.deks.map (·.dekId)).Nodup
  sequence : ∀ x ∈ w.vault.db.deks, x.dekId ≤ w.vault.db.dekSequence
  revisionIds : (w.db.fileRevisions.map (·.revisionId)).Nodup

/-- A pack without a binding whose earliest revision belongs to the inode that wrote it, under the
DEK that the inode had at that time. -/
structure LegacyPack (packId : String) (creator : ℤ) (row : WrappedDekRecord P) (dek : P.Key)
    (w : FileWorld P) : Prop extends HoldsDek row dek w where
  unbound : Db.packDekId packId w.db = none
  created : Db.creatingInode packId w.db = some creator
  latest : Db.latestDek creator w.vault.db = some row

section Steps

variable {row : WrappedDekRecord P} {dek : P.Key} {w : FileWorld P}

/-- The world with another DEK of an inode. -/
def FileWorld.withDek (w : FileWorld P) (cur : P.Key) (inodeId keyVersion : ℤ) : FileWorld P :=
  { w with vault := VaultKeyStore.dekInserted cur inodeId keyVersion w.vault }

theorem step_createPackDek {keys : UnlockedVaultKeys P} {cur : P.Key} (inodeId : ℤ)
    (hinner : w.vault.inner = some keys) (henv : keys.envelopeVaultKey = some cur) :
    (KeyOp.createPackDek inodeId).step w =
      w.withDek cur inodeId (Db.nextKeyVersion inodeId w.vault.db) := by
  rw [KeyOp.step, run_onVault, VaultKeyStore.run_createPackDek inodeId hinner henv]
  rfl

/-- Only an inode without a DEK gets one. -/
theorem step_getOrCreateDek {keys : UnlockedVaultKeys P} {cur : P.Key} (inodeId : ℤ)
    (hinner : w.vault.inner = some keys) (henv : keys.envelopeVaultKey = some cur) :
    (KeyOp.getOrCreateDek inodeId).step w =
      if (Db.latestDek inodeId w.vault.db).isSome then w else w.withDek cur inodeId 1 := by
  rw [KeyOp.step, run_onVault]
  rcases hlatest : Db.latestDek inodeId w.vault.db with _ | record
  · rw [VaultKeyStore.run_getOrCreateDek_new inodeId hlatest hinner henv]
    rfl
  · rw [(VaultKeyStore.run_getOrCreateDek_existing inodeId hlatest).1]
    rfl

theorem step_deleteFileChunks (inodeId : ℤ) (w : FileWorld P) :
    (KeyOp.deleteFileChunks inodeId).step w = w.withDb (Db.withoutChunks inodeId w.db) := by
  rw [KeyOp.step, run_onTrash]
  rfl

/-- Another DEK under the next identifier. -/
theorem HoldsDek.withDek (h : HoldsDek row dek w) (cur : P.Key) (inodeId keyVersion : ℤ) :
    HoldsDek row dek (w.withDek cur inodeId keyVersion) where
  reads := h.reads
  known := List.mem_append_left _ h.known
  dekIds := by
    refine nodup_append_fresh h.dekIds fun x hx => ?_
    have hle := h.sequence x hx
    show x.dekId ≠ w.vault.db.dekSequence + 1
    omega
  sequence := by
    intro x hx
    show x.dekId ≤ w.vault.db.dekSequence + 1
    rcases List.mem_append.mp hx with hx | hx
    · have hle := h.sequence x hx
      omega
    · rw [List.mem_singleton.mp hx]
  revisionIds := h.revisionIds

/-- Writes of the file tables that keep the identifiers of the revisions apart. -/
theorem HoldsDek.withDb (h : HoldsDek row dek w) {db : FileDb}
    (hids : (db.fileRevisions.map (·.revisionId)).Nodup) : HoldsDek row dek (w.withDb db) where
  reads := h.reads
  known := h.known
  dekIds := h.dekIds
  sequence := h.sequence
  revisionIds := hids

/-- A step does nothing, mints a DEK, deletes the revisions of an inode or binds a pack. -/
theorem HoldsDek.step_cases (h : HoldsDek row dek w) (op : KeyOp) :
    op.step w = w ∨
    (∃ cur inodeId keyVersion, op.step w = w.withDek cur inodeId keyVersion ∧
      (op = .createPackDek inodeId ∨ Db.latestDek inodeId w.vault.db = none)) ∨
    (∃ inodeId, op = .deleteFileChunks inodeId ∧
      op.step w = w.withDb (Db.withoutChunks inodeId w.db)) ∨
    ∃ packId dekId, op = .dekForPack packId ∧ Db.packDekId packId w.db = none ∧
      op.step w = w.withDb (Db.bindPackDek packId dekId w.db) := by
  obtain ⟨keys, hinner, cur, hcur, -⟩ := h.reads
  cases op with
  | createPackDek inodeId =>
    exact Or.inr (Or.inl ⟨cur, inodeId, _, step_createPackDek inodeId hinner hcur, Or.inl rfl⟩)
  | getOrCreateDek inodeId =>
    rw [step_getOrCreateDek inodeId hinner hcur]
    cases hlatest : Db.latestDek inodeId w.vault.db with
    | none => exact Or.inr (Or.inl ⟨cur, inodeId, 1, rfl, Or.inr hlatest⟩)
    | some _ => exact Or.inl rfl
  | deleteFileChunks inodeId =>
    exact Or.inr (Or.inr (Or.inl ⟨inodeId, rfl, step_deleteFileChunks inodeId w⟩))
  | dekForPack packId =>
    rcases VaultKeyStore.run_dekForPack_cases packId w with hsame | ⟨hnone, _, row', _, _, hbind⟩
    · exact Or.inl hsame
    · exact Or.inr (Or.inr (Or.inr ⟨packId, row'.dekId, rfl, hnone, hbind⟩))

theorem HoldsDek.step (h : HoldsDek row dek w) (op : KeyOp) : HoldsDek row dek (op.step w) := by
  obtain hsame | ⟨cur, inodeId, keyVersion, hmint, -⟩ | ⟨inodeId, -, hdelete⟩ |
    ⟨packId, dekId, -, -, hbind⟩ := h.step_cases op
  · rw [hsame]
    exact h
  · rw [hmint]
    exact h.withDek cur inodeId keyVersion
  · rw [hdelete]
    exact h.withDb (Db.revisionIds_withoutChunks h.revisionIds)
  · rw [hbind]
    exact h.withDb h.revisionIds

theorem HoldsDek.afterOps (h : HoldsDek row dek w) (ops : List KeyOp) :
    HoldsDek row dek (afterOps ops w) := by
  induction ops generalizing w with
  | nil => exact h
  | cons op rest ih => exact ih (h.step op)

/-! ## Bound packs -/

variable {packId : String}

/-- A binding survives every step. -/
theorem HoldsDek.bound_step {dekId : ℤ} (h : HoldsDek row dek w)
    (hbound : Db.packDekId packId w.db = some dekId) (op : KeyOp) :
    Db.packDekId packId (op.step w).db = some dekId := by
  obtain hsame | ⟨cur, inodeId, keyVersion, hmint, -⟩ | ⟨inodeId, -, hdelete⟩ |
    ⟨other, dekId', -, -, hbind⟩ := h.step_cases op
  · rw [hsame]
    exact hbound
  · rw [hmint]
    exact hbound
  · rw [hdelete]
    exact hbound
  · rw [hbind]
    exact Db.packDekId_bindPackDek_of_some hbound

/-- A pack that is not looked up stays unbound. -/
theorem HoldsDek.unbound_step (h : HoldsDek row dek w)
    (hunbound : Db.packDekId packId w.db = none) {op : KeyOp} (hop : op ≠ .dekForPack packId) :
    Db.packDekId packId (op.step w).db = none := by
  obtain hsame | ⟨cur, inodeId, keyVersion, hmint, -⟩ | ⟨inodeId, -, hdelete⟩ |
    ⟨other, dekId', rfl, -, hbind⟩ := h.step_cases op
  · rw [hsame]
    exact hunbound
  · rw [hmint]
    exact hunbound
  · rw [hdelete]
    exact hunbound
  · rw [hbind]
    exact Db.packDekId_bindPackDek_of_ne (fun heq => hop (by rw [heq])) hunbound

theorem HoldsDek.unbound_afterOps (h : HoldsDek row dek w)
    (hunbound : Db.packDekId packId w.db = none) {ops : List KeyOp}
    (hfirst : .dekForPack packId ∉ ops) :
    Db.packDekId packId (OmniDrive.afterOps ops w).db = none := by
  induction ops generalizing w with
  | nil => exact hunbound
  | cons op rest ih =>
    rw [List.mem_cons, not_or] at hfirst
    exact ih (h.step op) (h.unbound_step hunbound fun heq => hfirst.1 heq.symm) hfirst.2

/-- A bound pack is found with the same key after any steps. -/
theorem HoldsDek.finds_bound (h : HoldsDek row dek w)
    (hbound : Db.packDekId packId w.db = some row.dekId) (later : List KeyOp) :
    ∃ w', (VaultKeyStore.dekForPack packId).run (OmniDrive.afterOps later w) = (.ok dek, w') := by
  induction later generalizing w with
  | nil =>
    obtain ⟨keys, hinner, hreads⟩ := h.reads
    have hrow := find?_of_nodup h.dekIds h.known
    exact ⟨w, VaultKeyStore.run_dekForPack_bound hbound hrow hinner hreads⟩
  | cons op rest ih => exact ih (h.step op) (h.bound_step hbound op)

/-- The first look-up finds the key exactly when the guess hits the row. -/
theorem HoldsDek.findsKey_iff (h : HoldsDek row dek w)
    (hunbound : Db.packDekId packId w.db = none) :
    FindsKey packId row.dekId dek w ↔
      Db.creatingInode packId w.db = some row.inodeId ∧
        Db.latestDek row.inodeId w.vault.db = some row := by
  obtain ⟨keys, hinner, hreads⟩ := h.reads
  constructor
  · rintro ⟨w', hrun, hbound, -⟩
    have hcases := VaultKeyStore.run_dekForPack_cases packId w
    rw [hrun] at hcases
    rcases hcases with hsame | ⟨-, inodeId, found, hcreated, hlatest, hbind⟩
    · rw [show w' = w from hsame, hunbound] at hbound
      cases hbound
    rw [show w' = _ from hbind, FileWorld.db_withDb, Db.packDekId_bindPackDek hunbound] at hbound
    obtain ⟨hfound, hinode, -⟩ := Db.of_latestDek hlatest
    have hrow : found = row :=
      List.inj_on_of_nodup_map h.dekIds hfound h.known (Option.some.inj hbound)
    rw [hrow] at hinode hlatest
    rw [hinode]
    exact ⟨hcreated, hlatest⟩
  · rintro ⟨hcreated, hlatest⟩
    refine ⟨_, VaultKeyStore.run_dekForPack_unbound hunbound hcreated hlatest hinner hreads,
      Db.packDekId_bindPackDek hunbound, ?_⟩
    have hdek : HoldsDek row dek (w.withDb (Db.bindPackDek packId row.dekId w.db)) :=
      h.withDb h.revisionIds
    exact hdek.finds_bound (Db.packDekId_bindPackDek hunbound)

/-! ## Where the guess is right -/

variable {creator : ℤ}

/-- The step gives the creating inode another DEK or deletes its revisions. -/
def KeyOp.Misleads (creator : ℤ) (op : KeyOp) : Prop :=
  op = .createPackDek creator ∨ op = .deleteFileChunks creator

/-- The creating inode has a later DEK, or no revision any more. -/
def Misled (creator : ℤ) (row : WrappedDekRecord P) (w : FileWorld P) : Prop :=
  (∃ x ∈ w.vault.db.deks, x.inodeId = creator ∧ row.keyVersion < x.keyVersion) ∨
    ∀ r ∈ w.db.fileRevisions, r.inodeId ≠ creator

theorem Misled.not_hit (h : Misled creator row w) :
    ¬ (Db.creatingInode packId w.db = some creator ∧
      Db.latestDek creator w.vault.db = some row) := by
  intro ⟨hcreated, hlatest⟩
  rcases h with ⟨x, hx, hinode, hlt⟩ | hgone
  · have hle := (Db.of_latestDek hlatest).2.2 x hx hinode
    omega
  · obtain ⟨r, hr, hinode⟩ := Db.of_creatingInode hcreated
    exact hgone r hr hinode

/-- No step makes the guess right again. -/
theorem Misled.step (hmisled : Misled creator row w) (h : HoldsDek row dek w) (op : KeyOp) :
    Misled creator row (op.step w) := by
  obtain hsame | ⟨cur, inodeId, keyVersion, hmint, -⟩ | ⟨inodeId, -, hdelete⟩ |
    ⟨other, dekId, -, -, hbind⟩ := h.step_cases op
  · rw [hsame]
    exact hmisled
  · rw [hmint]
    rcases hmisled with ⟨x, hx, hlater⟩ | hgone
    · exact Or.inl ⟨x, List.mem_append_left _ hx, hlater⟩
    · exact Or.inr hgone
  · rw [hdelete]
    rcases hmisled with hlater | hgone
    · exact Or.inl hlater
    · refine Or.inr fun r hr => ?_
      obtain ⟨x, hx, -, hinode, -⟩ := Trash.mem_deleteRevisions hr
      rw [hinode]
      exact hgone x hx
  · rw [hbind]
    exact hmisled

/-- A later DEK, or the deletion of the creator's revisions, misleads the guess. -/
theorem HoldsDek.misled_step (h : HoldsDek row dek w) (hcreator : row.inodeId = creator)
    {op : KeyOp} (hop : op.Misleads creator) : Misled creator row (op.step w) := by
  obtain ⟨keys, hinner, cur, hcur, -⟩ := h.reads
  rcases hop with rfl | rfl
  · rw [step_createPackDek creator hinner hcur]
    refine Or.inl ⟨_, List.mem_append_right _ (List.mem_singleton_self _), rfl, ?_⟩
    exact Db.lt_nextKeyVersion h.known hcreator
  · rw [step_deleteFileChunks]
    refine Or.inr fun r hr => ?_
    obtain ⟨_, _, _, _, hne⟩ := Trash.mem_deleteRevisions hr
    exact hne

/-- One misleading step is enough. -/
theorem HoldsDek.misled_afterOps (h : HoldsDek row dek w) (hcreator : row.inodeId = creator)
    {ops : List KeyOp} (hops : Misled creator row w ∨ ∃ op ∈ ops, op.Misleads creator) :
    Misled creator row (OmniDrive.afterOps ops w) := by
  induction ops generalizing w with
  | nil =>
    rcases hops with hmisled | ⟨op, hop, -⟩
    · exact hmisled
    · cases hop
  | cons op rest ih =>
    apply ih (h.step op)
    rcases hops with hmisled | ⟨x, hx, hmisleads⟩
    · exact Or.inl (hmisled.step h op)
    rcases List.mem_cons.mp hx with rfl | hx
    · exact Or.inl (h.misled_step hcreator hmisleads)
    · exact Or.inr ⟨x, hx, hmisleads⟩

/-- A legacy pack stays one while nothing misleads the guess. -/
theorem LegacyPack.step (h : LegacyPack packId creator row dek w) {op : KeyOp}
    (hop : ¬ op.Misleads creator) (hfirst : op ≠ .dekForPack packId) :
    LegacyPack packId creator row dek (op.step w) := by
  have hdek := h.toHoldsDek
  refine ⟨hdek.step op, hdek.unbound_step h.unbound hfirst, ?_, ?_⟩
  · obtain hsame | ⟨cur, inodeId, keyVersion, hmint, -⟩ | ⟨inodeId, rfl, hdelete⟩ |
      ⟨other, dekId, -, -, hbind⟩ := hdek.step_cases op
    · rw [hsame]
      exact h.created
    · rw [hmint]
      exact h.created
    · rw [hdelete]
      apply Db.creatingInode_withoutChunks hdek.revisionIds _ h.created
      intro heq
      exact hop (Or.inr (by rw [heq]))
    · rw [hbind]
      exact h.created
  · obtain hsame | ⟨cur, inodeId, keyVersion, hmint, hwhy⟩ | ⟨inodeId, -, hdelete⟩ |
      ⟨other, dekId, -, -, hbind⟩ := hdek.step_cases op
    · rw [hsame]
      exact h.latest
    · have hne : inodeId ≠ creator := by
        rintro rfl
        rcases hwhy with hmints | hnone
        · exact hop (Or.inl hmints)
        · rw [h.latest] at hnone
          cases hnone
      rw [hmint]
      exact (Db.latestDek_appendDek_of_ne hne _ _ _).trans h.latest
    · rw [hdelete]
      exact h.latest
    · rw [hbind]
      exact h.latest

theorem LegacyPack.afterOps (h : LegacyPack packId creator row dek w) {ops : List KeyOp}
    (hops : ∀ op ∈ ops, ¬ op.Misleads creator) (hfirst : .dekForPack packId ∉ ops) :
    LegacyPack packId creator row dek (OmniDrive.afterOps ops w) := by
  induction ops generalizing w with
  | nil => exact h
  | cons op rest ih =>
    rw [List.mem_cons, not_or] at hfirst
    have hstep := h.step (hops op List.mem_cons_self) (fun heq => hfirst.1 heq.symm)
    exact ih hstep (fun x hx => hops x (List.mem_cons_of_mem _ hx)) hfirst.2

theorem LegacyPack.inodeId_eq (h : LegacyPack packId creator row dek w) :
    row.inodeId = creator := (Db.of_latestDek h.latest).2.1

/-- A legacy pack is found with its key exactly when, before its first look-up, the creating inode
got no further DEK and kept its revisions. -/
theorem dek_for_legacy_pack_iff (h : LegacyPack packId creator row dek w) {ops : List KeyOp}
    (hfirst : .dekForPack packId ∉ ops) :
    FindsKey packId row.dekId dek (afterOps ops w) ↔ ∀ op ∈ ops, ¬ op.Misleads creator := by
  have hdek := h.toHoldsDek.afterOps ops
  have hunbound := h.toHoldsDek.unbound_afterOps h.unbound hfirst
  rw [hdek.findsKey_iff hunbound, h.inodeId_eq]
  constructor
  · intro hhit op hop hmisleads
    have hmisled := h.toHoldsDek.misled_afterOps h.inodeId_eq (Or.inr ⟨op, hop, hmisleads⟩)
    exact hmisled.not_hit hhit
  · intro hops
    have hlegacy := h.afterOps hops hfirst
    exact ⟨hlegacy.created, hlegacy.latest⟩

end Steps

/-! ## A pack with one chunk that two files share -/

/-- The revisions of two inodes refer to the one chunk of a pack without a binding. The vault has
a DEK of the first inode. -/
def sharedPack : FileWorld symbolic :=
  { vault := VaultKeyStore.oneDekVault
    db :=
      { fileRevisions := [1, 2].map fun n =>
          { revisionId := n, inodeId := n, createdAt := 0, size := 4, isCurrent := true
            immutableUntil := none, deviceId := none, parentRevisionId := none, origin := "local"
            conflictReason := none }
        chunkRefs := [1, 2].map fun n =>
          { id := n, revisionId := n, chunkId := [7], fileOffset := 0, size := 4 }
        packLocations :=
          [{ chunkId := [7], packId := "pack", packOffset := 0, encryptedSize := 32 }] } }

/-- The DEK that encrypted the pack. -/
def sharedDek : WrappedDekRecord symbolic :=
  { dekId := 1, inodeId := 1, wrappedDek := .exact (.zero, .random 0), keyVersion := 1,
    vaultKeyGen := 1 }

theorem sharedPack_legacy : LegacyPack "pack" 1 sharedDek (SymbolicKey.random 0) sharedPack where
  reads := by
    refine ⟨_, rfl, SymbolicKey.zero, rfl, Or.inl ⟨_, rfl, ?_⟩⟩
    exact symbolic_ideal.unwrapKey_wrapKey SymbolicKey.zero (SymbolicKey.random 0)
  known := List.mem_singleton_self _
  dekIds := List.nodup_singleton _
  sequence := by
    intro x hx
    rw [List.mem_singleton.mp hx]
    exact le_refl _
  revisionIds := by decide
  unbound := rfl
  created := by decide
  latest := rfl

/-- A look-up of the first inode's DEK, a new DEK of the second one and the deletion of its
revisions do not mislead the guess. -/
theorem dek_for_sharedPack :
    FindsKey "pack" 1 (SymbolicKey.random 0)
      (afterOps [.getOrCreateDek 1, .createPackDek 2, .deleteFileChunks 2] sharedPack) := by
  apply (dek_for_legacy_pack_iff sharedPack_legacy (by decide)).mpr
  intro op hop
  unfold KeyOp.Misleads
  revert op
  decide

/-- One more DEK of the creating inode, and the pack is bound to the wrong key. -/
theorem dek_for_pack_misled :
    ¬ ∀ (packId : String) (creator : ℤ) (row : WrappedDekRecord symbolic) (dek : symbolic.Key)
      (w : FileWorld symbolic) (ops : List KeyOp), LegacyPack packId creator row dek w →
      .dekForPack packId ∉ ops → (∃ r, Db.RefersTo packId (afterOps ops w).db r) →
      FindsKey packId row.dekId dek (afterOps ops w) := by
  intro hall
  have hdek := sharedPack_legacy.toHoldsDek
  have hstep : (KeyOp.createPackDek 1).step sharedPack =
      sharedPack.withDek SymbolicKey.zero 1 (Db.nextKeyVersion 1 sharedPack.vault.db) :=
    step_createPackDek 1 rfl rfl
  have hrefers : ∃ r, Db.RefersTo "pack" ((KeyOp.createPackDek 1).step sharedPack).db r := by
    rw [hstep]
    refine ⟨_, List.mem_cons_self, _, List.mem_singleton_self _, rfl, _, List.mem_cons_self, rfl,
      rfl⟩
  have hfinds := hall "pack" 1 sharedDek (SymbolicKey.random 0) sharedPack [.createPackDek 1]
    sharedPack_legacy (by decide) hrefers
  have hunbound : Db.packDekId "pack" ((KeyOp.createPackDek 1).step sharedPack).db = none :=
    hdek.unbound_step sharedPack_legacy.unbound nofun
  have hhit := ((hdek.step (.createPackDek 1)).findsKey_iff hunbound).mp hfinds
  exact (hdek.misled_step rfl (Or.inl rfl)).not_hit hhit

end OmniDrive
