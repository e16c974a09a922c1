import OmniDrive.Library.StatementProgram
import OmniDrive.Library.GuardedRuns
import OmniDrive.Library.Interruption
import OmniDrive.Library.Tables
import OmniDrive.Crypto.Symbolic
import OmniDrive.Vault.Database
import OmniDrive.Vault.RotationOutcome
import OmniDrive.Vault.StickyLock
import OmniDrive.Vault.CrashAtomicity
import OmniDrive.Vault.LegacyRead
import OmniDrive.Vault.LazyRewrap
import OmniDrive.Crypto.Chunks
import OmniDrive.Storage.Records
import OmniDrive.Storage.Database
import OmniDrive.Storage.Layout
import OmniDrive.Crypto.SymbolicChunks
import OmniDrive.Storage.Erasure
import OmniDrive.Storage.ConflictCopy
import OmniDrive.Storage.Packer
import OmniDrive.Storage.Downloader
import OmniDrive.Storage.StoredChunk
import OmniDrive.Storage.PackOutcome
import OmniDrive.Storage.WriteOutcome
import OmniDrive.Storage.RevisionOutcome
import OmniDrive.Storage.Uploader
import OmniDrive.Storage.RestoreOutcome
import OmniDrive.Storage.RoundTrip
import OmniDrive.Access.Database
import OmniDrive.Access.Acl
import OmniDrive.Access.Handlers
import OmniDrive.Access.SessionFrame
import OmniDrive.Access.Revocation
import OmniDrive.Access.Admission
import OmniDrive.Recovery.Handlers
import OmniDrive.Vault.Envelope
import OmniDrive.Recovery.Runs
import OmniDrive.Recovery.InForce
import OmniDrive.Recovery.Phrases
import OmniDrive.Storage.Trash
import OmniDrive.Storage.Grace
import OmniDrive.Storage.SweeperRuns
import OmniDrive.Backup.Object
import OmniDrive.Backup.Restore
import OmniDrive.Backup.RestoreOutcome
import OmniDrive.Backup.LatestPointer
import OmniDrive.Backup.VaultTasks
import OmniDrive.Backup.SnapshotsOpen
import OmniDrive.Access.Devices
import OmniDrive.Access.WrapRuns
import OmniDrive.Library.Threads
import OmniDrive.Sharing.DownloadLimit
import OmniDrive.Vault.DeviceSecrets
import OmniDrive.Peers.Service
import OmniDrive.Peers.Trust
import OmniDrive.Backup.RosterFetch
import OmniDrive.Backup.RosterMerge
import OmniDrive.Startup.Identity
import OmniDrive.Startup.Chain
import OmniDrive.Startup.Steps
import OmniDrive.Startup.Runs
import OmniDrive.Library.Ancestry
import OmniDrive.Storage.History
import OmniDrive.Storage.Edits
import OmniDrive.Library.CheckedSlices
import OmniDrive.Sharing.RecordFraming
import OmniDrive.Storage.Quota
import OmniDrive.Storage.ReconcileQueue
import OmniDrive.Storage.RepairBatch
import OmniDrive.Library.Extents
import OmniDrive.Storage.RangeRead
import OmniDrive.Storage.Names
import OmniDrive.Library.LostWrites
import OmniDrive.Vault.FailedRevocation
import OmniDrive.Storage.LegacyPacks
import OmniDrive.Library.Slots
import OmniDrive.Storage.ShardedReads
import OmniDrive.Library.TokenBucket
import OmniDrive.Storage.UploadRate
import OmniDrive.Library.Eviction
import OmniDrive.Storage.Cache
import OmniDrive.Storage.CacheBound
import OmniDrive.Vault.UnlockSafety
import OmniDrive.Library.BasePaths
import OmniDrive.Storage.Policies
import OmniDrive.Startup.Backfill
import OmniDrive.Storage.Scrubber
import OmniDrive.Library.Rotation
import OmniDrive.Storage.ScrubFairness
import OmniDrive.Library.Scripts
import OmniDrive.Storage.CorruptionRuns
import OmniDrive.Storage.CloudAccount
import OmniDrive.Peers.ChunkFetch
import OmniDrive.Peers.PeerReads
import OmniDrive.Library.Descent
import OmniDrive.Library.Text
import OmniDrive.Library.Transcript
import OmniDrive.Vault.HybridBinding
import OmniDrive.Storage.Projection
import OmniDrive.Storage.ProjectedPaths
import OmniDrive.Backup.Format
import OmniDrive.Library.Gregorian
import OmniDrive.Library.Retention
import OmniDrive.Backup.LocalBackups
import OmniDrive.Vault.AutoLock
import OmniDrive.Storage.Placeholders
import OmniDrive.Access.RateLimits
import OmniDrive.Library.Attempts
import OmniDrive.Library.TwoWorlds
import OmniDrive.Storage.IngestJobs
import OmniDrive.Storage.IngestCleanup
import OmniDrive.Storage.PackFaults
import OmniDrive.Storage.SavedRevisions
import OmniDrive.Storage.Watcher
import OmniDrive.Storage.WatcherRuns
import OmniDrive.Storage.WatcherTracking
import OmniDrive.Library.Decimals
import OmniDrive.Storage.CacheContents
import OmniDrive.Storage.ReadOutcome
import OmniDrive.Storage.CachedReads
import OmniDrive.Storage.ReadRuns
import OmniDrive.Storage.ServedChunks
import OmniDrive.Library.Guarantees
import OmniDrive.Library.NamedStore
import OmniDrive.Storage.Addressed
import OmniDrive.Storage.AddressedReads
import OmniDrive.Storage.ModeCopies
import OmniDrive.Storage.AddressedStore
import OmniDrive.Storage.AddressedRestores
import OmniDrive.Storage.ModeChanges
