import AgenticRag.Storage.Lifecycle
import AgenticRag.Storage.BuildLease
import AgenticRag.Ingestion.StaleAttempts
import AgenticRag.Ingestion.Compensation
import AgenticRag.Ingestion.DeleteFence
import AgenticRag.Ingestion.Tightening
import AgenticRag.Ingestion.ContentUpdate
import AgenticRag.Ingestion.ResumedRun
import AgenticRag.Ingestion.ReconcilerLease
import AgenticRag.Ingestion.IndexRestart
import AgenticRag.Ingestion.IndexRollback
import AgenticRag.Retrieval.Authorization
import AgenticRag.Planner.Determinism
import AgenticRag.Planner.ToolBudget
import AgenticRag.Planner.Resolution
import AgenticRag.Services.MultiCorpusAnswer
import AgenticRag.Services.ChatWorld
import AgenticRag.Services.EvidenceAccess
import AgenticRag.Services.JudgeFaults
import AgenticRag.Retrieval.Provenance
import AgenticRag.Security.AclTightening
import AgenticRag.Evidence.EffectiveWindows
import AgenticRag.Services.LoopOperations
import AgenticRag.Services.CollectionAgreement
import AgenticRag.Services.ConflictClock
import AgenticRag.Evidence.TemporalRanges
import AgenticRag.Ingestion.TenantIsolation
import AgenticRag.Services.IterationBounds
import AgenticRag.Answer.Completeness
import AgenticRag.Services.DerivedState
import AgenticRag.Services.RevokedContent
import AgenticRag.Storage.Artifacts
import AgenticRag.Storage.Readability
import AgenticRag.Ingestion.DeletePropagation
import AgenticRag.Ingestion.Redelivery
import AgenticRag.Ingestion.IndexContents
import AgenticRag.Ingestion.RebuildRoundTrip
import AgenticRag.Ingestion.ContentRace
import AgenticRag.Judge.OptionalFacts
import AgenticRag.Judge.StageAgreement
import AgenticRag.Retrieval.DedupProvenance
import AgenticRag.Retrieval.MergedEvidence
import AgenticRag.Planner.AcyclicPlans
import AgenticRag.Ingestion.ParentPasses
import AgenticRag.Ingestion.ParentSizes
import AgenticRag.Ingestion.FreshIngest
import AgenticRag.Services.RunHistories
import AgenticRag.Services.RoutedAnswer
import AgenticRag.Services.Confinement
import AgenticRag.Services.ConcurrentRequests
import AgenticRag.Services.MultiCorpusProvenance
import AgenticRag.Api.Chat
import AgenticRag.Planner.PlanProvenance
import AgenticRag.Retrieval.StoredVisibility
import AgenticRag.Ingestion.IngestedAccess
import AgenticRag.Storage.EvidenceHistory
import AgenticRag.Ingestion.SweepConvergence
