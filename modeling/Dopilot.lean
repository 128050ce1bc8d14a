import Dopilot.StateMachine
import Dopilot.Table
import Dopilot.Program
import Dopilot.Process
import Dopilot.Reassembly
import Dopilot.Protocol
import Dopilot.AgentStore
import Dopilot.ServerLogs
import Dopilot.LogPublisher
import Dopilot.LogFidelity
import Dopilot.RedisStream
import Dopilot.Consumers
import Dopilot.CommandLoop
import Dopilot.Drains
import Dopilot.Poison
import Dopilot.MissingGroup
import Dopilot.LogOrder
import Dopilot.ServerDb
import Dopilot.Events
import Dopilot.Reconcile
import Dopilot.EventOrder
import Dopilot.Dispatcher
import Dopilot.Writers
import Dopilot.Dispatch
import Dopilot.Sessions
import Dopilot.Rollup
import Dopilot.Abandoned
import Dopilot.Deliveries
import Dopilot.Outcomes
import Dopilot.AgentWorld
import Dopilot.AgentRunners
import Dopilot.AgentCommands
import Dopilot.RunsEnd
import Dopilot.AgentRules
import Dopilot.AgentSteps
import Dopilot.AgentPrograms
import Dopilot.Schedules
import Dopilot.Breaker
import Dopilot.Throttle
import Dopilot.Ranking
import Dopilot.Trimming
import Dopilot.Firing
import Dopilot.Probes
import Dopilot.Gate
import Dopilot.Outbox
import Dopilot.Cleanups
import Dopilot.Retention
import Dopilot.Judgements
import Dopilot.Rounds
import Dopilot.AgentPasses
import Dopilot.AgentTicks
import Dopilot.AgentHandlers
import Dopilot.AgentSystem
import Dopilot.AgentStops
import Dopilot.AgentCancels
import Dopilot.AgentTerminals
import Dopilot.AgentVerdicts
import Dopilot.AgentReclaims
import Dopilot.Acknowledged
import Dopilot.DirGauge
import Dopilot.Deletion
import Dopilot.Paging
import Dopilot.SentSweep
import Dopilot.ScrapyCommand
import Dopilot.ScheduleRequests
import Dopilot.OverrideRuns
import Dopilot.TimerJobs
import Dopilot.Latch
import Dopilot.NoProgress
import Dopilot.LiveLog
import Dopilot.FirstScreen
import Dopilot.ArtifactStore
import Dopilot.Monitor
import Dopilot.AgentStarts
import Dopilot.Quoting
import Dopilot.CapMarkers
import Dopilot.JobLogs
import Dopilot.EggCache
import Dopilot.Oversized
import Dopilot.ArtifactQuota
import Dopilot.FileCap
import Dopilot.PublishRate
import Dopilot.LogContent
import Dopilot.PublishTurns
import Dopilot.Overtaken
import Dopilot.Loops
import Dopilot.Backoff
import Dopilot.AsyncLock
import Dopilot.KeyedLocks
import Dopilot.StreamGuard
import Dopilot.CommandClasses
import Dopilot.TokenReading
import Dopilot.QuotedValues
import Dopilot.CommandRoundTrip
import Dopilot.Forgetting
import Dopilot.Overlays
import Dopilot.Notifications
import Dopilot.Eviction
import Dopilot.Occurrences
import Dopilot.Lines
import Dopilot.LogStats
import Dopilot.StatsRecords
import Dopilot.StatsItems
import Dopilot.Erasure
import Dopilot.SpentRows
import Dopilot.OutboxPruning
import Dopilot.AgentReclaims
import Dopilot.AgentRepeats
import Dopilot.Joint
import Dopilot.CanceledStarts
import Dopilot.FinishedStarts
import Dopilot.Nodes
import Dopilot.Placement
import Dopilot.Fanout
import Dopilot.AgentToken
import Dopilot.AdminAuth
import Dopilot.LogCap
