import PgAuthz.Engine.ListSubjects
import PgAuthz.Engine.MemoTransparency
import PgAuthz.Watch.ExactlyOnce
import PgAuthz.Watch.HttpCursor
import PgAuthz.Feed.Replay
import PgAuthz.Audit.Trail
import PgAuthz.Audit.SnapshotCheck
import PgAuthz.Audit.History
import PgAuthz.Audit.TimeTravel
import PgAuthz.Transition.Locking
import PgAuthz.Writes.Calls
import PgAuthz.Writes.Serialisable
import PgAuthz.Engine.FailClosed
import PgAuthz.Daemon.Issuers
import PgAuthz.Daemon.StoreReach
import PgAuthz.Daemon.PublicRoutes
import PgAuthz.Daemon.SigningKeys
import PgAuthz.Store.Partitions
import PgAuthz.Daemon.AdminApi
import PgAuthz.Daemon.Delegation
import PgAuthz.Transition.Scripts
import PgAuthz.Writes.CapOrWildcard
import PgAuthz.Writes.MaxDirect
import PgAuthz.Daemon.IssuerReload
import PgAuthz.Opa.NativeCallback
import PgAuthz.Opa.Enumeration
import PgAuthz.Opa.Batch
import PgAuthz.Console.Attribution
import PgAuthz.Console.AuthorisedCommits
import PgAuthz.Console.GroupLinks
import PgAuthz.Console.TwoDoors
import PgAuthz.Console.TwoGates
import PgAuthz.Console.Teams
import PgAuthz.Opa.Sharing
import PgAuthz.Freshness.PolicyPath
import PgAuthz.Engine.ExplainTree
import PgAuthz.Engine.Contextual
import PgAuthz.Opa.Backend
import PgAuthz.Opa.EngineFailures
import PgAuthz.Opa.Direct
import PgAuthz.Opa.Unpoliced
import PgAuthz.Registry.Sync
import PgAuthz.DecisionLog.Conservation
import PgAuthz.Opa.SearchPaging
import PgAuthz.Writes.Floors
import PgAuthz.ActionLog.Reservations
import PgAuthz.OpenFga.Userset
import PgAuthz.OpenFga.Groups
import PgAuthz.OpenFga.Import
import PgAuthz.DecisionLog.Finality
import PgAuthz.Writes.Orphans
import PgAuthz.Gates.Normal
import PgAuthz.Engine.Redundancy
import PgAuthz.Registry.Plan
import PgAuthz.Registry.Diff
import PgAuthz.Engine.Pages
import PgAuthz.Audit.SubjectExport
import PgAuthz.Gates.ClosedSchema
import PgAuthz.Opa.SealedCursors
import PgAuthz.Opa.MintedPositions
import PgAuthz.DecisionLog.Wedge
import PgAuthz.Opa.Evaluations
import PgAuthz.Writes.ApplyGrants
import PgAuthz.Writes.BatchWrites
import PgAuthz.Gates.Retention
import PgAuthz.Fixture.Verdicts
import PgAuthz.Console.Renaming
import PgAuthz.Audit.GroupLoop
import PgAuthz.Writes.RuleGroups
import PgAuthz.Groups.Ownership
import PgAuthz.Daemon.BindingDistribution
import PgAuthz.Audit.ExpiryCleanup
import PgAuthz.Freshness.KeyRotation
import PgAuthz.Derived.Snapshot
