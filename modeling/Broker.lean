import Broker.Lib.Trans
import Broker.Lib.Table
import Broker.Lib.DenseLog
import Broker.Lib.Json
import Broker.Lib.JsonText
import Broker.Lib.Proc
import Broker.Lib.Val
import Broker.Lib.IsoTime
import Broker.Lib.JsonDump
import Broker.Lib.JsonLoad
import Broker.Lib.OrderedDict
import Broker.Lib.Jsonb
import Broker.Lib.PyConv
import Broker.Lib.PyVal
import Broker.Lib.JsonStrict
import Broker.Lib.Checked
import Broker.Lib.Base64
import Broker.Lib.UniqueIndex
import Broker.Lib.History
import Broker.Lib.Locks
import Broker.Db.Models
import Broker.Agent.Events
import Broker.Agent.Rows
import Broker.Agent.Runs
import Broker.Agent.ClientTools
import Broker.Agent.Worker
import Broker.Agent.Consistency
import Broker.Agent.EventLog
import Broker.Agent.Handoff
import Broker.Agent.ExactlyOnce
import Broker.Agent.Lock
import Broker.Agent.Lane
import Broker.Agent.CreateRun
import Broker.Agent.ToolTurn
import Broker.Agent.CodexTurn
import Broker.Agent.CodexProtocol
import Broker.Agent.CodexIdentity
import Broker.Agent.ClaudeParser
import Broker.Agent.ClaudeTurn
import Broker.Agent.ClaudeProtocol
import Broker.Services.JobQueue
import Broker.Services.Dispatch
import Broker.Services.JobCancel
import Broker.Services.Submit
import Broker.Services.JobCursor
import Broker.Services.JobList
import Broker.Services.ResponseCache
import Broker.Services.ChatWalk
import Broker.Routing.CostGuard
import Broker.Routing.Admission
import Broker.Routing.SharedState
import Broker.Routing.Selector
import Broker.Routing.Windows
import Broker.Routing.Cooldown
import Broker.Routing.PaidTail
import Broker.Routing.Quota
import Broker.Providers.Subscriptions
import Broker.Providers.Catalog
import Broker.Agent.Access
import Broker.Agent.Policy
import Broker.Agent.SubscriptionJob
import Broker.Agent.Redact
import Broker.Agent.StoredOutput
import Broker.Services.FailOpen
import Broker.Services.Attempt
import Broker.Services.ChatGate
import Broker.Services.Retries
import Broker.Services.Compare
import Broker.Agent.JobFiles
import Broker.Scripts.ClearExpired
import Broker.Services.StructuredOutput
import Broker.Lib.Runs
import Broker.Lib.Double
import Broker.Lib.Ring
import Broker.Providers.ContextLimits
import Broker.Providers.Observations
import Broker.Providers.Cost
import Broker.Services.SizeFilter
import Broker.Services.TickFailures
import Broker.Services.PaidEscalation
import Broker.Services.WalkVisits
import Broker.Services.ContentVerdict
import Broker.Services.PinnedWalk
import Broker.Services.FreeFirst
import Broker.Services.PinnedBudget
import Broker.Services.Rotation
import Broker.Services.Shutdown
import Broker.Services.HandBack
import Broker.Lib.Recent
import Broker.Routing.Circuit
import Broker.Agent.Evidence
import Broker.Providers.Adapters
import Broker.Lib.JsonReadBack
import Broker.Lib.Regex
import Broker.Agent.Masking
import Broker.Agent.RedactShape
import Broker.Providers.ToolEnvelope
import Broker.Lib.Exclusive
import Broker.Agent.QuotaWait
import Broker.Agent.QuotaPark
import Broker.Agent.Heartbeat
import Broker.Agent.UsageReports
import Broker.Agent.Resume
import Broker.Lib.Reorder
import Broker.Routing.Chains
import Broker.Services.ShapeChain
import Broker.Routes.ToolHistory
import Broker.Routing.RecordUsage
import Broker.Agent.FileStore
import Broker.Lib.JsonScan
import Broker.Services.PayloadHash
import Broker.Routes.JobsSubmit
import Broker.Lib.Newest
import Broker.Services.InflightDedup
import Broker.Agent.RunDedup
import Broker.Agent.Accounts
import Broker.Routes.Resubmit
import Broker.Lib.Matcher
import Broker.Lib.Calendar
import Broker.Agent.ResetMessage
import Broker.Agent.ResetClock
import Broker.Agent.ResetAt
import Broker.Agent.CodexParser
import Broker.Agent.QuotaReport
import Broker.Routing.FamilyKeys
import Broker.Lib.Transducer
import Broker.Lib.PyText
import Broker.Agent.SchemaViolation
import Broker.Lib.Seams
import Broker.Agent.RedactFields
import Broker.Agent.RedactSeams
import Broker.Lib.FileTree
import Broker.Lib.ForLoop
import Broker.Agent.Workspace
import Broker.Agent.Images
import Broker.Agent.Deliver
import Broker.Routing.KeyPool
import Broker.Lib.Population
import Broker.Services.RequestCap
import Broker.Services.Signup
import Broker.Lib.FieldLines
import Broker.Routes.OwnerSession
import Broker.Providers.CacheMarks
import Broker.Agent.Attachments
import Broker.Agent.RefreshGate
import Broker.Lib.WakeLoop
import Broker.Services.WakeUp
import Broker.Agent.Refill
import Broker.Lib.TtlCache
import Broker.Routing.Staleness
import Broker.Agent.EventPoll
