/-
Dopilot/Protocol.lean

The wire protocol between server and agents: commands, status events and log
increments, with the enumerations they carry.

Identifiers are opaque, so they are numbers here.  A log increment carries the
base64 text of raw bytes; all that matters of the text is what it decodes to,
so `contentB64` is the decoded bytes, or `none` when decoding raises.
-/

namespace Dopilot

abbrev TaskId := Nat
abbrev ExecutionId := Nat
abbrev AgentId := Nat
abbrev JobId := Nat

/-- Instants and durations, in seconds. -/
abbrev Time := Int

abbrev Bytes := List UInt8

/-- The bytes of an ASCII text (`str.encode()`). -/
def encode (s : String) : Bytes := s.toList.map fun c => UInt8.ofNat c.toNat

@[simp] theorem encode_append (a b : String) : encode (a ++ b) = encode a ++ encode b := by
  simp [encode]

/-! ### Commands -/

/-- The command types of the agent command stream. -/
inductive AgentCommandType where
  | run
  | stop
  | cleanupLogs
  | stopLogs
  deriving DecidableEq, Repr

/-- Why a `stop` was issued. -/
inductive StopIntent where
  | cancel
  | reclaim
  deriving DecidableEq, Repr

/-- The kind of work a `run` command asks for. -/
inductive RunnerType where
  | scrapy
  | pythonWheel
  deriving DecidableEq, Repr

/-- The artifact context of a `run`; `hash` is its `hash` or `sha256`. -/
structure ArtifactRef where
  project : String := ""
  version : Option String := none
  hash : Option String := none
  deriving DecidableEq, Repr

/-- The `runtime_context` of a payload: none, one that validation rejects, or
the environment it stands for. -/
inductive RuntimeContext where
  | absent
  | invalid
  | valid (env : List (String × String))
  deriving DecidableEq, Repr

/-- What a `run` carries beside its ids; `shellCommand` is stripped. -/
structure CommandPayload where
  artifact : Option ArtifactRef := none
  command : Option String := none
  shellCommand : String := ""
  workingDir : Option String := none
  env : List (String × String) := []
  runtimeContext : RuntimeContext := .absent
  deriving DecidableEq, Repr

/-- A command of the agent's stream. -/
structure AgentCommand where
  commandId : Nat
  type : AgentCommandType
  agentId : AgentId
  taskId : TaskId
  executionId : ExecutionId
  taskType : RunnerType := .scrapy
  intent : Option StopIntent := none
  payload : CommandPayload := {}
  deriving DecidableEq, Repr

/-! ### Status events -/

/-- The life-cycle events an agent publishes, and its liveness heartbeat. -/
inductive AgentEventType where
  | accepted
  | running
  | finished
  | failed
  | canceled
  | lost
  | heartbeat
  deriving DecidableEq, Repr

namespace AgentEventType

/-- `_TERMINAL_EVENT_TYPES`. -/
def isTerminal : AgentEventType → Bool
  | finished | failed | canceled | lost => true
  | accepted | running | heartbeat => false

/-- `_AUTHORITATIVE_TERMINAL_EVENT_TYPES`: the hard terminals; `lost` is soft. -/
def isAuthoritativeTerminal : AgentEventType → Bool
  | finished | failed | canceled => true
  | lost | accepted | running | heartbeat => false

/-- Every authoritative terminal is a terminal. -/
theorem isTerminal_of_isAuthoritativeTerminal {t : AgentEventType}
    (h : t.isAuthoritativeTerminal = true) : t.isTerminal = true := by
  cases t with
  | finished | failed | canceled => rfl
  | lost | accepted | running | heartbeat => cases h

end AgentEventType

/-- Why an attempt was declared `lost`. -/
inductive LostReason where
  | heartbeatTimeout
  | eventStall
  | stateMissing
  | processMissing
  | runnerRecoveredUnknown
  | spawnAborted
  deriving DecidableEq, Repr

/-- A status event; an agent without the optional fields sends none of them. -/
structure AgentEvent where
  eventId : Nat
  agentId : AgentId
  taskId : TaskId
  executionId : ExecutionId
  type : AgentEventType
  remoteJobId : Option JobId := none
  exitCode : Option Int := none
  errorCode : Option String := none
  errorDetail : List (String × String) := []
  lostReason : Option LostReason := none
  errorCount : Option Nat := none
  finishReason : Option String := none
  logBytes : Option Nat := none
  outcomeClass : Option String := none
  deriving DecidableEq, Repr

/-! ### Log increments -/

/-- The log streams of one execution. -/
inductive LogStream where
  | log
  | stdout
  | stderr
  | system
  deriving DecidableEq, Repr

/-- One increment of an agent's local log file. -/
structure AgentLogEvent where
  agentId : AgentId
  taskId : TaskId
  executionId : ExecutionId
  stream : LogStream := .log
  offset : Nat
  contentB64 : Option Bytes
  sizeBytes : Nat
  eof : Bool := false
  deriving DecidableEq, Repr

end Dopilot
