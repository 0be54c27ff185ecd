import FsQuint.Lib.Sha256
import FsQuint.ValueIdentity
import FsQuint.TraceIdentity
import FsQuint.ReplayComparison
import FsQuint.DifferingPath
import FsQuint.ItfRoundTrip
import FsQuint.Respelling
import FsQuint.FailureReport
import FsQuint.ValueRoundTrip
import FsQuint.OfflineComparison
import FsQuint.Completeness
import FsQuint.SnapshotOrder
import FsQuint.FirstStop
import FsQuint.ArchiveFingerprint
import FsQuint.TestCount
import FsQuint.ReleasePayload
import FsQuint.StoreSafety
import FsQuint.StoreRefinement
import FsQuint.BoundedQueue
import FsQuint.RoadmapRuns
import FsQuint.ClaimFence
import FsQuint.ClaimSweep
import FsQuint.ClaimMarkers
