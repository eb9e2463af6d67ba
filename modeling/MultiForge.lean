import MultiForge.Json.RoundTrip
import MultiForge.Lib.BlockStream
import MultiForge.Lib.Fragments
import MultiForge.Proxy.StreamGrammar
import MultiForge.Proxy.ToolCallDelivery
import MultiForge.Proxy.ResponseAgreement
import MultiForge.Proxy.RollingSpend
import MultiForge.Proxy.CapPersistence
import MultiForge.Install.RoundTrip
import MultiForge.Install.CodexConfig
import MultiForge.Session.Publication
import MultiForge.Session.ReviewHistory
import MultiForge.Policy.ReviewCoverage
import MultiForge.Policy.ReviewValidity
import MultiForge.Policy.EvidenceDiff
import MultiForge.Engine.PolicyMemory
import MultiForge.Telemetry.SpendTotal
import MultiForge.Session.ActiveSessions
import MultiForge.Session.Overrides
import MultiForge.Search.Removal
import MultiForge.Search.Transcript
import MultiForge.Proxy.RequestPairing
import MultiForge.Engine.WholeEdit
import MultiForge.Semantic.CachedVerdict
import MultiForge.Semantic.Verdict
import MultiForge.Proxy.SseFraming
import MultiForge.Proxy.Passthrough
import MultiForge.Workqueue.BadFiles
import MultiForge.Workqueue.Starvation
import MultiForge.Workqueue.Lifecycle
import MultiForge.Install.RuntimeRemoval
import MultiForge.Install.LegacyUpgrade
import MultiForge.Install.FailedInstall
import MultiForge.Proxy.ReasoningFloor
import MultiForge.Proxy.RelayTeardown
import MultiForge.Diff.AddedLines
import MultiForge.Diff.GitPath
import MultiForge.Telemetry.Retention
import MultiForge.Engine.PatchEnvelope
import MultiForge.Verification.CompletionPromise
import MultiForge.Invoker.CodexStream
import MultiForge.Engine.HookTotality
import MultiForge.Session.StoreNames
import MultiForge.Semantic.ModelOutput
import MultiForge.Session.Passport
import MultiForge.Lib.Substitution
import MultiForge.Verification.Diagnostics
import MultiForge.Proxy.Override
import MultiForge.Session.OverrideReset
import MultiForge.Session.PublicationRuns
import MultiForge.Session.IndexRuns
import MultiForge.Session.ManifestRead
import MultiForge.Lib.Interruptible
import MultiForge.Session.Workers
import MultiForge.Session.WorkerExclusion
import MultiForge.Session.WorkerRuns
import MultiForge.Telemetry.RetentionMigration
import MultiForge.Telemetry.MigratedFiles
import MultiForge.Telemetry.MigrationRuns
import MultiForge.Lib.Files
import MultiForge.Semantic.ShadowDrain
import MultiForge.Semantic.ShadowClaims
import MultiForge.Semantic.ShadowRuns
import MultiForge.Lib.Grouping
import MultiForge.Session.Rewind
import MultiForge.Session.RewindPrefix
import MultiForge.Lib.Sections
import MultiForge.Diff.SplitDiff
import MultiForge.Diff.SplitPartition
import MultiForge.Diff.SplitPlain
import MultiForge.Diff.SplitGit
