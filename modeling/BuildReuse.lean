import BuildReuse.Main
import BuildReuse.Proofs.Stage.Play
import BuildReuse.Proofs.Stage.Sound
import BuildReuse.Proofs.Stage.History
import BuildReuse.Proofs.Stage.Polls
import BuildReuse.Proofs.Stage.SingleFlight
import BuildReuse.Proofs.Stage.Frozen
import BuildReuse.Proofs.Stage.Memoized
import BuildReuse.Proofs.Stage.Chain
import BuildReuse.Proofs.FileSystem.Grown
import BuildReuse.Proofs.Lock.Owned
import BuildReuse.Proofs.Lock.Acquire
import BuildReuse.Proofs.Lock.Exclusion
import BuildReuse.Proofs.Task.Ends
import BuildReuse.Proofs.Task.Finishes
import BuildReuse.Proofs.Cache.Look
import BuildReuse.Proofs.Cache.Answer
import BuildReuse.Proofs.Build.Course
import BuildReuse.Proofs.Lock.Sections
import BuildReuse.Proofs.Cache.Miss
import BuildReuse.Proofs.Build.Rebuild
import BuildReuse.Proofs.FileSystem.Outline
import BuildReuse.Proofs.FileSystem.Names
import BuildReuse.Proofs.FileSystem.Walks
import BuildReuse.Proofs.FileSystem.Tidy
import BuildReuse.Proofs.Lock.Touches
import BuildReuse.Proofs.FileSystem.LockFile
import BuildReuse.Proofs.FileSystem.Made
import BuildReuse.Proofs.Lock.Aside
import BuildReuse.Proofs.Cache.Discards
import BuildReuse.Proofs.Cache.LockApart
import BuildReuse.Proofs.Cache.Finishes
import BuildReuse.Proofs.Cache.Decided
import BuildReuse.Proofs.Cache.Status
import BuildReuse.Proofs.Cache.Stands
import BuildReuse.Proofs.Build.OneBuild
import BuildReuse.Proofs.Text.Utf8
import BuildReuse.Proofs.Json.Written
import BuildReuse.Proofs.Json.List
import BuildReuse.Proofs.Json.Record
import BuildReuse.Proofs.Task.Deadline
import BuildReuse.Proofs.BuildLog.HalfWritten
import BuildReuse.Proofs.BuildLog.Newest
import BuildReuse.Proofs.Build.Finishes
import BuildReuse.Proofs.Build.Outcome
import BuildReuse.Proofs.Build.Fresh
import BuildReuse.Proofs.Task.Turned
import BuildReuse.Proofs.Stage.Served
import BuildReuse.Proofs.Cache.Reuse
import BuildReuse.Proofs.Package.Recorded
import BuildReuse.Proofs.Package.Reuse
import BuildReuse.Proofs.Duration.Printed
import BuildReuse.Proofs.Duration.Brief
import BuildReuse.Proofs.FileSystem.Stored
import BuildReuse.Proofs.Config.RoundTrip
import BuildReuse.Proofs.BuildLog.RoundTrip
import BuildReuse.Proofs.Registry.Recency
import BuildReuse.Proofs.Registry.Sections
import BuildReuse.Proofs.Registry.Apart
import BuildReuse.Proofs.Registry.Bounded
import BuildReuse.Proofs.Registry.Race
import BuildReuse.Proofs.Workspace.Rounds
import BuildReuse.Proofs.Workspace.Editors
import BuildReuse.Proofs.FileSystem.Removed
import BuildReuse.Proofs.Build.Sentinel
import BuildReuse.Proofs.Cache.Spared
import BuildReuse.Proofs.Build.SentinelHistory
import BuildReuse.Proofs.Stage.Accounts
import BuildReuse.Proofs.Lock.Course
import BuildReuse.Proofs.Lock.Occupied
import BuildReuse.Proofs.Lock.Metadata
import BuildReuse.Proofs.Lock.Orderly
import BuildReuse.Proofs.Lock.Refused
import BuildReuse.Proofs.FileSystem.Missed
import BuildReuse.Proofs.Cache.Scoured
import BuildReuse.Proofs.Cache.Bare
import BuildReuse.Proofs.Cache.Cleaned
import BuildReuse.Proofs.Registry.Invalidation
import BuildReuse.Proofs.Task.Turning
import BuildReuse.Proofs.Task.Retried
import BuildReuse.Proofs.Text.ByteOrder
import BuildReuse.Proofs.FileSystem.Listing
import BuildReuse.Proofs.Target.Discovery
import BuildReuse.Proofs.BuildLog.Selection
import BuildReuse.Proofs.Build.Expansion
import BuildReuse.Proofs.Workspace.Refusals
import BuildReuse.Proofs.Text.Substitution
import BuildReuse.Proofs.Json.Members
import BuildReuse.Proofs.Json.Taken
import BuildReuse.Proofs.Text.Words
import BuildReuse.Proofs.Config.Layers
import BuildReuse.Proofs.Build.Diagnostics
import BuildReuse.Proofs.Cache.Verdict
import BuildReuse.Proofs.Lock.Mutexes
import BuildReuse.Proofs.Lock.Sharing
