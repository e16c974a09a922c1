import OmniDrive.Storage.Downloader

/-!
# The tables of share links

The statements of `shares.rs` on a world that holds the storage code with its tables and the
tables of share links, of the pack keys sealed for a link, and of the tokens handed out for a link
with a password. `now` of the storage code is the clock in milliseconds.
-/

namespace OmniDrive

open StatementProgram Tables

/-- A row of `shared_links`. -/
structure SharedLinkRecord where
  shareId : String
  inodeId : ℤ
  revisionId : ℤ
  fileName : String
  fileSize : ℤ
  createdAt : ℤ
  expiresAt : Option ℤ := none
  maxDownloads : Option ℤ := none
  downloadCount : ℤ := 0
  revoked : ℤ := 0
  passwordHash : Option String := none
  deriving DecidableEq, Repr

/-- A row of `share_password_tokens`. -/
structure SharePasswordToken where
  token : String
  shareId : String
  createdAt : ℤ
  expiresAt : ℤ
  deriving DecidableEq, Repr

/-- A row of `share_pack_keys`: the DEK of a pack under the key of a link. -/
structure SharePackKey (P : Primitives) where
  shareId : String
  packId : String
  sealedDek : P.Sealed

/-- The storage code with its tables, and the tables of share links. -/
structure ShareWorld (P : Primitives) where
  files : FileWorld P
  sharedLinks : List SharedLinkRecord := []
  sharePackKeys : List (SharePackKey P) := []
  sharePasswordTokens : List SharePasswordToken := []

variable {P : Primitives} {α ε : Type}

namespace ShareWorld

/-- The clock in milliseconds. -/
def now (w : ShareWorld P) : ℤ := w.files.now

/-- The link with an identifier. -/
def link? (w : ShareWorld P) (shareId : String) : Option SharedLinkRecord :=
  w.sharedLinks.find? (·.shareId = shareId)

end ShareWorld

/-- A program of the tables of share links. -/
abbrev ShareProg (P : Primitives) (α : Type) := Prog (ShareWorld P) DbError α

/-- Run a program of the storage code. -/
def onFiles (p : FileProg P ε α) : Prog (ShareWorld P) ε α :=
  p.zoom (·.files) fun files w => { w with files }

/-- The storage code changes nothing but its own part of the world. -/
theorem run_onFiles (p : FileProg P ε α) (w : ShareWorld P) :
    (onFiles p).run w = ((p.run w.files).1, { w with files := (p.run w.files).2 }) :=
  Prog.run_zoom (fun t : ShareWorld P => t.files) (fun files t => { t with files })
    (fun _ _ => rfl) (fun _ _ _ => rfl) (fun _ => rfl) p w

namespace Db

/-- The verdict on a row that was read before, at the time `now`. -/
def isSharedLinkValid (now : ℤ) (link : SharedLinkRecord) : Bool :=
  link.revoked = 0 && link.expiresAt.all (now ≤ ·) && link.maxDownloads.all (link.downloadCount < ·)

/-- A link identifier is a key. -/
def createSharedLink (shareId : String) (inodeId revisionId : ℤ) (fileName : String)
    (fileSize : ℤ) (expiresAt maxDownloads : Option ℤ) (passwordHash : Option String) :
    ShareProg P Unit := do
  let taken ← Prog.execReturning
    (fun w => if (w.link? shareId).isSome then w
      else { w with
        sharedLinks := w.sharedLinks ++
          [{ shareId, inodeId, revisionId, fileName, fileSize, createdAt := w.now, expiresAt,
             maxDownloads, passwordHash }] })
    fun w : ShareWorld P => (w.link? shareId).isSome
  if taken then .fail .uniqueViolation else pure ()

def getSharedLink (shareId : String) : ShareProg P (Option SharedLinkRecord) :=
  Prog.query (·.link? shareId)

/-- A link that is not revoked yet. -/
def isLiveLink (shareId : String) (link : SharedLinkRecord) : Bool :=
  link.shareId = shareId && link.revoked = 0

def revokeSharedLink (shareId : String) : ShareProg P Bool :=
  Prog.execReturning
    (fun w =>
      { w with
        sharedLinks := updateWhere (isLiveLink shareId) (fun l => { l with revoked := 1 })
          w.sharedLinks })
    fun w => w.sharedLinks.any (isLiveLink shareId)

/-- The links with one download more counted for one of them. -/
def countDownload (shareId : String) (w : ShareWorld P) : ShareWorld P :=
  { w with
    sharedLinks := updateWhere (·.shareId = shareId)
      (fun l => { l with downloadCount := l.downloadCount + 1 }) w.sharedLinks }

/-- A link that is looked up behind an update of the links. -/
theorem link?_updateLinks (p : SharedLinkRecord → Bool) (f : SharedLinkRecord → SharedLinkRecord)
    (hf : ∀ l, (f l).shareId = l.shareId) (w : ShareWorld P) (shareId : String) :
    ({ w with sharedLinks := updateWhere p f w.sharedLinks } : ShareWorld P).link? shareId =
      (w.link? shareId).map fun l => if p l then f l else l :=
  find?_updateWhere hf w.sharedLinks shareId

/-- The row of the link has one download more. -/
theorem link?_countDownload {shareId : String} {w : ShareWorld P} {link : SharedLinkRecord}
    (h : w.link? shareId = some link) : (countDownload shareId w).link? shareId =
      some { link with downloadCount := link.downloadCount + 1 } := by
  have hid : link.shareId = shareId := by
    simpa using List.find?_some h
  unfold countDownload
  rw [link?_updateLinks _ _ (by exact fun _ => rfl), h, Option.map_some,
    if_pos (decide_eq_true hid)]

/-- The rows of the other links stay. -/
theorem link?_countDownload_of_ne {shareId other : String} {w : ShareWorld P}
    (hne : shareId ≠ other) : (countDownload other w).link? shareId = w.link? shareId := by
  unfold countDownload
  rw [link?_updateLinks _ _ (by exact fun _ => rfl)]
  cases hfound : w.link? shareId with
  | none => rfl
  | some link =>
    have hid : link.shareId = shareId := by
      simpa using List.find?_some hfound
    rw [Option.map_some, hid, decide_eq_false hne]
    rfl

def incrementSharedLinkDownloadCount (shareId : String) : ShareProg P Unit :=
  Prog.exec (countDownload shareId)

def deleteSharedLink (shareId : String) : ShareProg P Bool :=
  Prog.execReturning
    (fun w => { w with sharedLinks := deleteWhere (·.shareId = shareId) w.sharedLinks })
    fun w => (w.link? shareId).isSome

/-- Store the sealed DEK of a pack, replacing the one of the same link and pack. -/
def insertSharePackKey (shareId packId : String) (sealedDek : P.Sealed) : ShareProg P Unit :=
  Prog.exec fun w =>
    { w with
      sharePackKeys := upsert (fun k : SharePackKey P => (k.shareId, k.packId))
        (fun k => { k with sealedDek }) { shareId, packId, sealedDek } w.sharePackKeys }

/-- The sealed DEK of a link and a pack. -/
def sharePackKey (shareId packId : String) (w : ShareWorld P) : Option P.Sealed :=
  (w.sharePackKeys.find? fun k => k.shareId = shareId && k.packId = packId).map (·.sealedDek)

def getSharePackKey (shareId packId : String) : ShareProg P (Option P.Sealed) :=
  Prog.query (sharePackKey shareId packId)

def deleteSharePackKeys (shareId : String) : ShareProg P Unit :=
  Prog.exec fun w =>
    { w with sharePackKeys := deleteWhere (·.shareId = shareId) w.sharePackKeys }

def validateSharePasswordToken (token shareId : String) : ShareProg P Bool :=
  Prog.query fun w => w.sharePasswordTokens.any fun t =>
    t.token = token && t.shareId = shareId && w.now < t.expiresAt

/-- The chunks of a revision, numbered by file offset, with the locations of those that have
one. -/
def chunkLocationsForRevision (revisionId : ℤ) (db : FileDb) : List FileChunkLocation :=
  locateAll db (db.chunkRefs.filter (·.revisionId = revisionId))

def getChunkLocationsForRevision (revisionId : ℤ) : ShareProg P (List FileChunkLocation) :=
  Prog.query fun w => chunkLocationsForRevision revisionId w.files.db

end Db

end OmniDrive
