/-
Dopilot/ServerDb.lean

The server's tables and the services that read and write them.

Tasks, executions, the command outbox, the index of log files and the audit of
applied events.  Every function here is the body of one service on the rows as
they are under the locks it takes; a transaction that commits replaces the
tables by its result.  A session may hold rows it loaded earlier: a function
that reads such rows has what it sees as an argument.
-/
import Dopilot.Protocol
import Dopilot.ServerLogs
import Dopilot.Table
import Dopilot.TaskStates

namespace Dopilot

abbrev CommandId := Nat
abbrev ScheduleId := Nat
abbrev ArtifactId := Nat
abbrev MessageId := Nat

/-! ### Rows -/

/-- `tasks.source`: who created the task. -/
inductive TaskSource where
  | manual
  | directArtifact
  | template
  | triggerNow
  | timer
  deriving DecidableEq, Repr

/-- `tasks.status_reason`. -/
inductive StatusReason where
  | noTarget
  | noExecution
  | manualCleanup
  deriving DecidableEq, Repr

/-- One row of `tasks`. -/
structure Task where
  status : TaskStatus := .queued
  statusReason : Option StatusReason := none
  source : TaskSource := .directArtifact
  scheduleId : Option ScheduleId := none
  scheduleGeneration : Option Nat := none
  createdAt : Time := 0
  startedAt : Option Time := none
  finishedAt : Option Time := none
  updatedAt : Time := 0
  outcomeRecordedAt : Option Time := none
  outcomeErroneous : Option Bool := none
  /-- The build artifact in `template_snapshot`. -/
  snapshotArtifactId : Option ArtifactId := none
  deriving DecidableEq, Repr

/-- `executions.lost_reason`: a reason of the wire, or the manual one. -/
inductive ExecLostReason where
  | wire (r : LostReason)
  | manualCleanup
  deriving DecidableEq, Repr

/-- One row of `executions`. -/
structure Execution where
  taskId : TaskId
  agentId : AgentId
  status : ExecStatus := .pending
  remoteJobId : Option JobId := none
  createdAt : Time := 0
  startedAt : Option Time := none
  finishedAt : Option Time := none
  exitCode : Option Int := none
  errorCode : Option String := none
  errorDetail : List (String × String) := []
  errorCount : Option Nat := none
  finishReason : Option String := none
  logBytes : Option Nat := none
  outcomeClass : Option String := none
  reconciledFromLost : Bool := false
  lostReason : Option ExecLostReason := none
  lastEventAt : Option Time := none
  stalledAt : Option Time := none
  lastProgressAt : Option Time := none
  lastProgressSampleAt : Option Time := none
  noProgressAt : Option Time := none
  deriving DecidableEq, Repr

/-- `command_outbox.status`. -/
inductive OutboxStatus where
  | pending
  | dispatching
  | sent
  | failedRetryable
  | failed
  | canceled
  deriving DecidableEq, Repr

/-- `OUTBOX_UNRESOLVED`. -/
def OutboxStatus.unresolved : OutboxStatus → Bool
  | pending | dispatching | failedRetryable => true
  | sent | failed | canceled => false

/-- `OUTBOX_DISPATCHABLE`. -/
def OutboxStatus.dispatchable : OutboxStatus → Bool
  | pending | failedRetryable => true
  | dispatching | sent | failed | canceled => false

/-- `command_outbox.last_error`. -/
inductive OutboxError where
  | dispatchUnavailable
  | dispatchTimeout
  | executionNotDispatchable
  | sentMessageMissing
  deriving DecidableEq, Repr

/-- One row of `command_outbox`. -/
structure CommandOutbox where
  agentId : AgentId
  taskId : TaskId
  executionId : ExecutionId
  type : AgentCommandType
  intent : Option StopIntent := none
  payload : CommandPayload := {}
  taskType : RunnerType := .scrapy
  status : OutboxStatus := .pending
  retryCount : Nat := 0
  maxRetry : Nat := 10
  lastError : Option OutboxError := none
  redisMsgId : Option MessageId := none
  giveUpAt : Option Time := none
  createdAt : Time := 0
  updatedAt : Time := 0
  deriving DecidableEq, Repr

/-- What became of a delivered event. -/
inductive EventOutcome where
  | applied
  | overrideLost
  | reclaimRequested
  | skippedDup
  | skippedTerminal
  | skippedNoAttempt
  | heartbeat
  deriving DecidableEq, Repr

/-- One row of `event_audit`. -/
structure EventAudit where
  eventId : Nat
  executionId : ExecutionId
  type : AgentEventType
  outcome : EventOutcome
  deriving DecidableEq, Repr

/-- The server's tables.  Ids of new commands are drawn from `nextCommand`. -/
structure ServerDb where
  tasks : Table TaskId Task
  executions : Table ExecutionId Execution
  outbox : Table CommandId CommandOutbox
  logFiles : Table LogKey ExecutionLogFile
  audits : Table MessageId EventAudit
  nextCommand : CommandId

namespace ServerDb

/-- Empty tables. -/
def empty : ServerDb where
  tasks := .empty
  executions := .empty
  outbox := .empty
  logFiles := .empty
  audits := .empty
  nextCommand := 0

/-! ### Tasks and executions -/

/-- `list_executions`. -/
def listExecutions (db : ServerDb) (t : TaskId) : List (ExecutionId × Execution) :=
  db.executions.rows.filter fun r => r.2.taskId = t

/-- The statuses of a task's executions. -/
def statuses (db : ServerDb) (t : TaskId) : List ExecStatus :=
  (db.listExecutions t).map fun r => r.2.status

def updateTask (db : ServerDb) (t : TaskId) (f : Task → Task) : ServerDb :=
  { db with tasks := db.tasks.modify t f }

def updateExecution (db : ServerDb) (e : ExecutionId) (f : Execution → Execution) : ServerDb :=
  { db with executions := db.executions.modify e f }

def updateOutbox (db : ServerDb) (c : CommandId) (f : CommandOutbox → CommandOutbox) : ServerDb :=
  { db with outbox := db.outbox.modify c f }

end ServerDb

/-- The earliest of some instants. -/
def earliest : List Time → Option Time
  | [] => none
  | t :: ts => some (ts.foldl min t)

/-- The latest of some instants. -/
def latest : List Time → Option Time
  | [] => none
  | t :: ts => some (ts.foldl max t)

/-- `converge_task`: a queued task runs once an execution has left `pending`. -/
def convergeTask (task : Task) (executions : List Execution) (now : Time) : Task :=
  let started := executions.filter fun e => e.status ≠ .pending
  if task.status = .queued ∧ started ≠ [] then
    { task with
      status := .running
      startedAt := task.startedAt.orElse fun _ =>
        some ((earliest (started.filterMap (·.startedAt))).getD now)
      updatedAt := now }
  else task

/-- `mark_no_target`. -/
def markNoTarget (task : Task) (now : Time) : Task :=
  { task with
    status := .noTarget
    statusReason := some .noTarget
    startedAt := some (task.startedAt.getD now)
    finishedAt := some now
    updatedAt := now }

/-! ### The outbox -/

/-- `MANUAL_GIVE_UP_SECONDS`. -/
def manualGiveUpSeconds : Time := 120

/-- `SCHEDULED_GIVE_UP_SECONDS`. -/
def scheduledGiveUpSeconds : Time := 900

namespace ServerDb

/-- A new row under a new command id. -/
def addOutbox (db : ServerDb) (row : CommandOutbox) : ServerDb :=
  { db with outbox := db.outbox.insert db.nextCommand row, nextCommand := db.nextCommand + 1 }

/-- `create_run_outbox`. -/
def createRunOutbox (db : ServerDb) (now : Time) (t : TaskId) (e : ExecutionId) (agent : AgentId)
    (taskType : RunnerType) (payload : CommandPayload) (manual : Bool) : ServerDb :=
  db.addOutbox
    { agentId := agent
      taskId := t
      executionId := e
      type := .run
      payload := payload
      taskType := taskType
      giveUpAt := some (now + if manual then manualGiveUpSeconds else scheduledGiveUpSeconds)
      createdAt := now
      updatedAt := now }

/-- A command without a payload. -/
def createPlainOutbox (db : ServerDb) (now : Time) (type : AgentCommandType)
    (intent : Option StopIntent) (t : TaskId) (e : ExecutionId) (agent : AgentId) : ServerDb :=
  db.addOutbox
    { agentId := agent
      taskId := t
      executionId := e
      type := type
      intent := intent
      giveUpAt := some (now + scheduledGiveUpSeconds)
      createdAt := now
      updatedAt := now }

/-- `create_stop_outbox`. -/
def createStopOutbox (db : ServerDb) (now : Time) (intent : StopIntent) (t : TaskId)
    (e : ExecutionId) (agent : AgentId) : ServerDb :=
  db.createPlainOutbox now .stop (some intent) t e agent

/-- `create_cleanup_outbox`. -/
def createCleanupOutbox (db : ServerDb) (now : Time) (t : TaskId) (e : ExecutionId)
    (agent : AgentId) : ServerDb :=
  db.createPlainOutbox now .cleanupLogs none t e agent

/-- `create_stop_logs_outbox`: at most one that is not terminated. -/
def createStopLogsOutbox (db : ServerDb) (now : Time) (t : TaskId) (e : ExecutionId)
    (agent : AgentId) : ServerDb :=
  if db.outbox.rows.any fun r => r.2.executionId = e && r.2.type = .stopLogs
      && (r.2.status.unresolved || r.2.status = .sent) then db
  else db.createPlainOutbox now .stopLogs none t e agent

/-- `reclaim_ever_issued`: in any status. -/
def reclaimEverIssued (db : ServerDb) (e : ExecutionId) : Bool :=
  db.outbox.rows.any fun r =>
    r.2.executionId = e && r.2.type = .stop && r.2.intent = some .reclaim

/-- `_has_unresolved_reclaim`. -/
def hasUnresolvedReclaim (db : ServerDb) (e : ExecutionId) : Bool :=
  db.outbox.rows.any fun r =>
    r.2.executionId = e && r.2.type = .stop && r.2.intent = some .reclaim
      && r.2.status.unresolved

/-- `cancel_unsent_outbox`. -/
def cancelUnsentOutbox (db : ServerDb) (now : Time) (t : TaskId) : ServerDb :=
  { db with outbox := db.outbox.updateAll fun _ r =>
      if r.taskId = t ∧ r.status.unresolved = true then
        { r with status := .canceled, updatedAt := now }
      else r }

end ServerDb

/-! ### Facts -/

namespace ServerDb

variable {db : ServerDb} {t t' : TaskId} {e e' : ExecutionId}

theorem mem_listExecutions {x : ExecutionId × Execution} :
    x ∈ db.listExecutions t ↔ db.executions.get x.1 = some x.2 ∧ x.2.taskId = t := by
  unfold listExecutions
  rw [List.mem_filter, decide_eq_true_eq]
  exact and_congr_left' Table.mem_rows_iff

/-- The statuses of a task are those of its executions. -/
theorem mem_statuses {s : ExecStatus} :
    s ∈ db.statuses t ↔ ∃ e x, db.executions.get e = some x ∧ x.taskId = t ∧ x.status = s := by
  unfold statuses
  rw [List.mem_map]
  constructor
  · rintro ⟨⟨e, x⟩, hx, rfl⟩
    obtain ⟨hget, ht⟩ := mem_listExecutions.mp hx
    exact ⟨e, x, hget, ht, rfl⟩
  · rintro ⟨e, x, hget, ht, rfl⟩
    exact ⟨(e, x), mem_listExecutions.mpr ⟨hget, ht⟩, rfl⟩

@[simp] theorem updateTask_executions (f : Task → Task) :
    (db.updateTask t f).executions = db.executions := rfl

@[simp] theorem updateTask_statuses (f : Task → Task) :
    (db.updateTask t f).statuses t' = db.statuses t' := rfl

@[simp] theorem updateTask_get (f : Task → Task) :
    (db.updateTask t f).tasks.get t' = if t' = t then (db.tasks.get t').map f else db.tasks.get t' :=
  Table.get_modify ..

@[simp] theorem updateExecution_tasks (f : Execution → Execution) :
    (db.updateExecution e f).tasks = db.tasks := rfl

@[simp] theorem updateExecution_get (f : Execution → Execution) :
    (db.updateExecution e f).executions.get e' =
      if e' = e then (db.executions.get e').map f else db.executions.get e' :=
  Table.get_modify ..

@[simp] theorem updateOutbox_tasks (c : CommandId) (f : CommandOutbox → CommandOutbox) :
    (db.updateOutbox c f).tasks = db.tasks := rfl

@[simp] theorem updateOutbox_executions (c : CommandId) (f : CommandOutbox → CommandOutbox) :
    (db.updateOutbox c f).executions = db.executions := rfl

@[simp] theorem addOutbox_tasks (row : CommandOutbox) : (db.addOutbox row).tasks = db.tasks := rfl

@[simp] theorem addOutbox_executions (row : CommandOutbox) :
    (db.addOutbox row).executions = db.executions := rfl

/-- Statuses depend on the executions only. -/
theorem statuses_congr {db' : ServerDb} (h : db'.executions = db.executions) :
    db'.statuses t = db.statuses t := by
  unfold statuses listExecutions
  rw [h]

/-! ### Statuses -/

/-- The task and the status of an execution. -/
def execStatus (db : ServerDb) (e : ExecutionId) : Option (TaskId × ExecStatus) :=
  (db.executions.get e).map fun x => (x.taskId, x.status)

/-- The status of a task. -/
def taskStatus (db : ServerDb) (t : TaskId) : Option TaskStatus :=
  (db.tasks.get t).map (·.status)

/-- The executions of `db'` are those of `db`, and none of them has regressed. -/
def Onward (db db' : ServerDb) : Prop :=
  ∀ e, Option.Rel (fun x y => y.1 = x.1 ∧ x.2.Advances y.2) (db.execStatus e) (db'.execStatus e)

variable {db' db'' : ServerDb}

theorem execStatus_congr (h : db'.executions = db.executions) (e : ExecutionId) :
    db'.execStatus e = db.execStatus e := by
  unfold execStatus
  rw [h]

theorem execStatus_updateExecution (e : ExecutionId) (f : Execution → Execution)
    (e' : ExecutionId) :
    (db.updateExecution e f).execStatus e' =
      if e' = e then (db.executions.get e).map fun x => ((f x).taskId, (f x).status)
      else db.execStatus e' := by
  unfold execStatus
  rw [updateExecution_get]
  by_cases h : e' = e
  · rw [if_pos h, if_pos h, Option.map_map, h]
    rfl
  · rw [if_neg h, if_neg h]

theorem mem_statuses_iff {s : ExecStatus} :
    s ∈ db.statuses t ↔ ∃ e, db.execStatus e = some (t, s) := by
  rw [mem_statuses]
  apply exists_congr
  intro e
  unfold execStatus
  rw [Option.map_eq_some_iff]
  apply exists_congr
  intro x
  rw [Prod.mk.injEq]

theorem Onward.of_map {f : ExecutionId → TaskId × ExecStatus → ExecStatus}
    (h : ∀ e, db'.execStatus e = (db.execStatus e).map fun x => (x.1, f e x))
    (hf : ∀ e (x : TaskId × ExecStatus), x.2.Advances (f e x)) : db.Onward db' := by
  intro e
  rw [h]
  rcases db.execStatus e with - | x
  · exact .none
  · exact .some ⟨rfl, hf e x⟩

theorem Onward.refl (db : ServerDb) : db.Onward db := by
  intro e
  rcases db.execStatus e with - | x
  · exact .none
  · exact .some ⟨rfl, .refl x.2⟩

theorem Onward.of_executions (h : db'.executions = db.executions) : db.Onward db' := by
  intro e
  rw [execStatus_congr h e]
  exact Onward.refl db e

theorem Onward.target (h : db.Onward db') {s : ExecStatus} (he : db.execStatus e = some (t, s)) :
    ∃ s', db'.execStatus e = some (t, s') ∧ s.Advances s' := by
  have hrel := h e
  rw [he] at hrel
  rcases hy : db'.execStatus e with - | ⟨t', s'⟩
  · rw [hy] at hrel
    cases hrel
  · rw [hy] at hrel
    cases hrel with
    | some hxy =>
        obtain ⟨rfl, hadv⟩ := hxy
        exact ⟨s', rfl, hadv⟩

theorem Onward.source (h : db.Onward db') {s' : ExecStatus}
    (he : db'.execStatus e = some (t, s')) :
    ∃ s, db.execStatus e = some (t, s) ∧ s.Advances s' := by
  have hrel := h e
  rw [he] at hrel
  rcases hx : db.execStatus e with - | ⟨t', s⟩
  · rw [hx] at hrel
    cases hrel
  · rw [hx] at hrel
    cases hrel with
    | some hxy =>
        obtain ⟨rfl, hadv⟩ := hxy
        exact ⟨s, rfl, hadv⟩

theorem Onward.trans (h : db.Onward db') (h' : db'.Onward db'') : db.Onward db'' := by
  intro e
  rcases hx : db.execStatus e with - | ⟨t, s⟩
  · rcases hy : db''.execStatus e with - | ⟨t, s⟩
    · exact .none
    · obtain ⟨s', hs', -⟩ := h'.source hy
      obtain ⟨s'', hs'', -⟩ := h.source hs'
      rw [hx] at hs''
      cases hs''
  · obtain ⟨s', hs', hadv⟩ := h.target hx
    obtain ⟨s'', hs'', hadv'⟩ := h'.target hs'
    rw [hs'']
    exact .some ⟨rfl, hadv.trans hadv'⟩

theorem Onward.forward (h : db.Onward db') (t : TaskId) :
    Forward (db.statuses t) (db'.statuses t) where
  source := by
    intro s' hs'
    obtain ⟨e, he⟩ := mem_statuses_iff.mp hs'
    obtain ⟨s, hs, hadv⟩ := h.source he
    exact ⟨s, mem_statuses_iff.mpr ⟨e, hs⟩, hadv⟩
  target := by
    intro s hs
    obtain ⟨e, he⟩ := mem_statuses_iff.mp hs
    obtain ⟨s', hs', hadv⟩ := h.target he
    exact ⟨s', mem_statuses_iff.mpr ⟨e, hs'⟩, hadv⟩

end ServerDb

/-- A task is queued as it was, or runs and an execution has left `pending`. -/
theorem convergeTask_status (task : Task) (executions : List Execution) (now : Time) :
    (convergeTask task executions now).status = task.status ∨
      task.status = .queued ∧ (convergeTask task executions now).status = .running ∧
        ∃ e ∈ executions, e.status ≠ .pending := by
  unfold convergeTask
  simp only
  split
  · rename_i h
    obtain ⟨x, hx⟩ := List.exists_mem_of_ne_nil _ h.2
    obtain ⟨hmem, hne⟩ := List.mem_filter.mp hx
    exact .inr ⟨h.1, rfl, x, hmem, of_decide_eq_true hne⟩
  · exact .inl rfl

/-- A queued task stays so only while every execution is pending. -/
theorem convergeTask_queued {task : Task} {executions : List Execution} {now : Time}
    (h : (convergeTask task executions now).status = .queued) :
    ∀ e ∈ executions, e.status = .pending := by
  intro e he
  by_contra hne
  have hstarted : executions.filter (fun e => e.status ≠ .pending) ≠ [] :=
    List.ne_nil_of_mem (List.mem_filter.mpr ⟨he, decide_eq_true hne⟩)
  unfold convergeTask at h
  simp only at h
  split at h
  · cases h
  · rename_i hno
    exact hno ⟨h, hstarted⟩

end Dopilot
