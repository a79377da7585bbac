import OpsKnowledge.Workflow.Compound
import OpsKnowledge.Workflow.Streaming
import OpsKnowledge.Workflow.Ordering
import OpsKnowledge.Workflow.ChatPipeline
import OpsKnowledge.Workflow.ExecutionRows
import OpsKnowledge.Workflow.Resumption
import OpsKnowledge.Workflow.Publishing
import OpsKnowledge.Workflow.Pinning
import OpsKnowledge.Workflow.VersionHistory
import OpsKnowledge.Workflow.Lifecycle
import OpsKnowledge.Lib.Text
import OpsKnowledge.Workflow.Webhook
import OpsKnowledge.Orchestrator.Matchers
import OpsKnowledge.Orchestrator.Engine
import OpsKnowledge.Orchestrator.Route
import OpsKnowledge.Orchestrator.Classification
import OpsKnowledge.Orchestrator.Noninterference
import OpsKnowledge.Orchestrator.Schemas
import OpsKnowledge.Lib.OrderBy
import OpsKnowledge.Orchestrator.RuleStore
import OpsKnowledge.Orchestrator.RuleValidity
import OpsKnowledge.Orchestrator.RuleOrder
import OpsKnowledge.Orchestrator.RuleVersions
import OpsKnowledge.Orchestrator.RulesCache
import OpsKnowledge.Department.Access
import OpsKnowledge.Knowledge.ChunkCounts
import OpsKnowledge.Knowledge.DeletedContent
import OpsKnowledge.Knowledge.ReviewIsolation
import OpsKnowledge.Knowledge.StaleLifecycle
import OpsKnowledge.Knowledge.VectorFreshness
import OpsKnowledge.Retrieval.Fusion
import OpsKnowledge.Retrieval.Probes
import OpsKnowledge.Retrieval.Transparency
import OpsKnowledge.Retrieval.Visibility
import OpsKnowledge.Chat.History
import OpsKnowledge.Lib.Guard
import OpsKnowledge.Review.Endpoints
import OpsKnowledge.Review.FourEyes
import OpsKnowledge.Review.Notifications
import OpsKnowledge.Review.PendingQueue
import OpsKnowledge.Knowledge.Keys
import OpsKnowledge.Units.Atomicity
import OpsKnowledge.Units.Isolation
import OpsKnowledge.Tagging.Dictionary
import OpsKnowledge.Tagging.Normalizer
import OpsKnowledge.Tagging.Unambiguity
import OpsKnowledge.Tagging.ChunkTagAgreement
import OpsKnowledge.Tagging.Creation
import OpsKnowledge.Tagging.AutoTags
import OpsKnowledge.Tagging.DictionaryCache
import OpsKnowledge.Tagging.Backfill
import OpsKnowledge.Tagging.BackfillRuns
import OpsKnowledge.Chat.Citations
import OpsKnowledge.Chat.Lifecycle
import OpsKnowledge.Governance.Events
import OpsKnowledge.Governance.Feedback
import OpsKnowledge.Governance.Availability
import OpsKnowledge.Governance.Rollup
import OpsKnowledge.Knowledge.Folders
import OpsKnowledge.Knowledge.Uploads
import OpsKnowledge.Knowledge.Backup
import OpsKnowledge.Lib.Lifetime
import OpsKnowledge.Milvus.OrphanVectors
import OpsKnowledge.Milvus.ConsistencyScan
import OpsKnowledge.Retrieval.Agentic
import OpsKnowledge.Retrieval.HiddenContent
import OpsKnowledge.Auth.Revocation
import OpsKnowledge.Auth.Sso
import OpsKnowledge.Auth.SsoState
import OpsKnowledge.Auth.SubjectBinding
import OpsKnowledge.Knowledge.ProcessingLock
import OpsKnowledge.Lib.Session
import OpsKnowledge.Mcp.Audit
import OpsKnowledge.Model.ProviderCalls
import OpsKnowledge.Lib.Literals
import OpsKnowledge.Lib.Scan
import OpsKnowledge.Workflow.Addressing
import OpsKnowledge.Lib.Json
import OpsKnowledge.Replies.Judges
import OpsKnowledge.Replies.Queries
import OpsKnowledge.Replies.Topics
import OpsKnowledge.Workflow.Delivery
import OpsKnowledge.Orchestrator.TrustedPaths
import OpsKnowledge.Orchestrator.Placement
import OpsKnowledge.Orchestrator.Analytics
import OpsKnowledge.Knowledge.EmbeddingText
import OpsKnowledge.Milvus.Reindex
import OpsKnowledge.Workflow.NodeInputs
import OpsKnowledge.Workflow.Relay
import OpsKnowledge.Workflow.ResumeService
import OpsKnowledge.Retrieval.Ranking
import OpsKnowledge.Retrieval.TagBoost
import OpsKnowledge.Retrieval.Diversity
import OpsKnowledge.Retrieval.TagFilter
import OpsKnowledge.Chunking.Sentence
import OpsKnowledge.Chunking.Blocks
import OpsKnowledge.Chunking.Qa
import OpsKnowledge.Chunking.SectionLoss
import OpsKnowledge.Chunking.Composite
import OpsKnowledge.Retrieval.RerankFallback
import OpsKnowledge.Knowledge.RaptorForest
import OpsKnowledge.Knowledge.EditHistory
import OpsKnowledge.Knowledge.DocumentOrder
import OpsKnowledge.Lib.Buckets
import OpsKnowledge.System.Costs
import OpsKnowledge.Coverage.RedundantPairs
import OpsKnowledge.Lib.Paging
import OpsKnowledge.Milvus.IdListing
import OpsKnowledge.Knowledge.EmbedAndStore
import OpsKnowledge.Model.EmbeddingCache
import OpsKnowledge.Lib.SharedTransaction
import OpsKnowledge.Sources.EntryImport
import OpsKnowledge.Runner.Sandbox
import OpsKnowledge.Chat.EventStream
import OpsKnowledge.Workflow.Iteration
import OpsKnowledge.Workflow.Settling
import OpsKnowledge.System.RuntimeConfig
import OpsKnowledge.Chat.PromptGuard
import OpsKnowledge.Chat.AnthropicAnswers
import OpsKnowledge.Mcp.Health
import OpsKnowledge.Chat.AnswerDelivery
import OpsKnowledge.System.Search
import OpsKnowledge.Workflow.GovernanceTrigger
import OpsKnowledge.Tagging.QueryRouting
