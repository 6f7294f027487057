import GantrySftp.Codec.RoundTrip
import GantrySftp.Codec.Canonical
import GantrySftp.Codec.Correlation
import GantrySftp.Codec.Refusals
import GantrySftp.Codec.RequestIds
import GantrySftp.Session.JournalTail
import GantrySftp.Session.ResumedGet
import GantrySftp.Session.DownloadExact
import GantrySftp.Session.StagedContent
import GantrySftp.Session.StagedSweep
import GantrySftp.Session.Orphans
import GantrySftp.Session.SendLock
import GantrySftp.Session.UploadTasks
import GantrySftp.Session.UploadWindow
import GantrySftp.Session.LateReplies
import GantrySftp.Session.MatchAgrees
import GantrySftp.Session.GlobRefusals
import GantrySftp.Session.Availability
import GantrySftp.Session.StatusChecks
import GantrySftp.Session.FileRefinement
import GantrySftp.Session.AtomicReplace
import GantrySftp.Session.DirectoriesMade
import GantrySftp.Session.TreeRemoval
import GantrySftp.Session.GlobFolding
import GantrySftp.Session.LiteralPrefix
import GantrySftp.Session.GlobDirectory
import GantrySftp.Session.ReadBack
import GantrySftp.Session.Limits
import GantrySftp.Session.DirectoryScan
import GantrySftp.Fsspec.ByteRanges
import GantrySftp.Fsspec.BufferedFile
import GantrySftp.Transport.SshOptions
import GantrySftp.Transport.SshArgv
import GantrySftp.Codec.Extensions
import GantrySftp.Session.PathAlgebra
import GantrySftp.Session.PoolExact
import GantrySftp.Session.ResumedPut
import GantrySftp.Session.LocalPaths
import GantrySftp.Session.TreeDownload
import GantrySftp.Session.LocalCalls
import GantrySftp.Session.DownloadWorkers
import GantrySftp.Session.TreeContainment
import GantrySftp.Session.DownloadClaims
import GantrySftp.Session.TreeClaims
import GantrySftp.Session.ListDownload
import GantrySftp.Session.WalkPositions
import GantrySftp.Session.FreshPlaces
import GantrySftp.Session.DryRun
import GantrySftp.Session.DryRunAgrees
import GantrySftp.Session.SyncCompare
import GantrySftp.Session.SyncRuns
import GantrySftp.Session.SyncMemory
import GantrySftp.Session.SyncReports
