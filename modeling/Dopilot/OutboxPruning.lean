/-
Dopilot/OutboxPruning.lean

Pruning the command outbox.

`prune_resolved_outbox` deletes old commands that are settled, in batches, each
in a transaction of its own.  A reclaim is never deleted, and neither is a command
of a task that is active or lost, so no service that still decides by the outbox
looks at what is deleted.

The machine has a step for every transaction that reads or writes the outbox, or
the rows that such transactions read, with what it puts out beside what it writes.
What Redis, the disk and the clock answer comes with the step.  Ids are never
given out twice, and the server always has a gauge of its logs directory.
-/
import Dopilot.Loops
import Dopilot.Retention
import Dopilot.SentSweep
import Dopilot.SpentRows

namespace Dopilot

open StateMachine

/-! ### Delivering one row -/

namespace ServerDb

/-- What became of a row: the tables, the result, and the command that was to be
appended to the agent's stream. -/
structure Dispatched where
  db : ServerDb
  outcome : DispatchOutcome
  command : Option AgentCommand := none

/-- `try_dispatch`, on a row it has read again. -/
def tryDispatch (db : ServerDb) (c : CommandId) (row : CommandOutbox) (task : Option TaskStatus)
    (giveUpOnFail : Bool) (now : Time) (msg : Option MessageId) : Dispatched :=
  match planDispatch row task with
  | .sent => { db := db, outcome := .sent }
  | .canceled => { db := db, outcome := .skipped }
  | .notDispatchable =>
      { db := db.updateOutbox c fun _ => row.discard now, outcome := .skipped }
  | .send =>
      let finished := finishDispatch row giveUpOnFail now msg
      { db := db.updateOutbox c fun _ => finished.1
        outcome := finished.2
        command := some (Dispatch.buildCommand c row) }

/-- The execution of a run row that could not be delivered fails. -/
def failRun (db : ServerDb) (now : Time) (row : CommandOutbox) : ServerDb :=
  if row.type = .run then db.failExecutionDispatchTimeout now row.taskId row.executionId else db

/-- `_process_row`. -/
def processRow (db : ServerDb) (c : CommandId) (row : CommandOutbox) (now : Time)
    (msg : Option MessageId) : Dispatched :=
  if row.pastDeadline now then
    { db := (db.updateOutbox c fun _ => row.giveUp now).failRun now row, outcome := .failed }
  else
    let d := db.tryDispatch c row (db.taskStatus row.taskId) false now msg
    if d.outcome = .failed then { d with db := d.db.failRun now row } else d

/-- The rows that a pass of the dispatcher loads: the oldest ones first. -/
def dispatchBatch (db : ServerDb) (limit : Nat) : List (CommandId × CommandOutbox) :=
  Paging.page (fun r => r.2.createdAt) (max 1 limit)
    (db.outbox.rows.filter fun r => r.2.status.dispatchable)

end ServerDb

/-! ### Pruning -/

/-- `OUTBOX_RESOLVED`. -/
def OutboxStatus.resolved : OutboxStatus → Bool
  | sent | failed | canceled => true
  | pending | dispatching | failedRetryable => false

/-- What the pruning reads of `settings.maintenance`. -/
structure PruneSettings where
  outboxRetentionDays : Int
  outboxDeleteBatch : Int

namespace PruneSettings

def batch (cfg : PruneSettings) : Nat := (max 1 cfg.outboxDeleteBatch).toNat

def cutoff (cfg : PruneSettings) (now : Time) : Time := now - cfg.outboxRetentionDays * 86400

end PruneSettings

/-- In which order a query without an `ORDER BY` finds its rows. -/
structure ScanOrder where
  scan : List (CommandId × CommandOutbox) → List (CommandId × CommandOutbox)
  perm : ∀ l, (scan l).Perm l

namespace ServerDb

/-- The condition of the query of `prune_resolved_outbox`. -/
def prunable (db : ServerDb) (cutoff : Time) (r : CommandId × CommandOutbox) : Bool :=
  r.2.status.resolved && decide (r.2.updatedAt < cutoff)
    && !(r.2.type == .stop && r.2.intent == some .reclaim)
    && !(db.taskStatus r.2.taskId).any fun status => status.active || status == .lost

def prunableRows (db : ServerDb) (cutoff : Time) : List (CommandId × CommandOutbox) :=
  db.outbox.rows.filter (db.prunable cutoff)

/-- One batch: the tables, and how many rows are deleted so far. -/
def pruneTurn (order : ScanOrder) (batch : Nat) (cutoff : Time) (s : ServerDb × Nat) :
    Bool × (ServerDb × Nat) :=
  let ids := ((order.scan (s.1.prunableRows cutoff)).take batch).map Prod.fst
  if ids = [] then (false, s)
  else (decide (batch ≤ ids.length), (s.1.without ids, s.2 + ids.length))

/-- `prune_resolved_outbox`; a retention of 0 disables it. -/
def pruneResolvedOutbox (order : ScanOrder) (cfg : PruneSettings) (now : Time) (db : ServerDb) :
    ServerDb × Nat :=
  if cfg.outboxRetentionDays ≤ 0 then (db, 0)
  else Loop.run (pruneTurn order cfg.batch (cfg.cutoff now)) (db.outbox.rows.length + 1) (db, 0)

/-- The commands that `prune_resolved_outbox` selects, all batches together. -/
def selected (cfg : PruneSettings) (now : Time) (db : ServerDb) : List CommandId :=
  if cfg.outboxRetentionDays ≤ 0 then []
  else (db.prunableRows (cfg.cutoff now)).map Prod.fst

end ServerDb

/-! ### The streams of retired agents -/

/-- What a sweep reads of a row of `nodes`. -/
structure NodeRow where
  deletedAt : Option Time
  lastSeenAt : Option Time

/-- A stream of commands, and the time of its newest entry in milliseconds; 0 is
no entry. -/
structure CommandStream where
  agentId : AgentId
  lastMs : Int

/-- There is no such node, or it is deleted, or it was last seen before the cutoff. -/
def retired (node : Option NodeRow) (cutoff : Time) : Bool :=
  node.all fun n => n.deletedAt.isSome || n.lastSeenAt.all fun seen => decide (seen < cutoff)

namespace ServerDb

/-- The conditions under which the stream of an agent is deleted. -/
def staleStream (db : ServerDb) (nodes : AgentId → Option NodeRow) (cutoff : Time)
    (stream : CommandStream) : Bool :=
  retired (nodes stream.agentId) cutoff
    && (stream.lastMs == 0 || decide (stream.lastMs < cutoff * 1000))
    && !(db.executions.rows.any fun r => r.2.agentId == stream.agentId && r.2.status.active)
    && !(db.outbox.rows.any fun r => r.2.agentId == stream.agentId
      && (r.2.status.unresolved || r.2.status == .sent))

/-- `delete_stale_command_streams`: the agents whose streams are deleted. -/
def deleteStaleCommandStreams (db : ServerDb) (days : Int) (nodes : AgentId → Option NodeRow)
    (now : Time) (streams : List CommandStream) : List AgentId :=
  if days ≤ 0 then []
  else (streams.filter (db.staleStream nodes (now - days * 86400))).map CommandStream.agentId

end ServerDb

namespace Pruning

open Dispatch (SameCommand Adds)

/-! ### The machine -/

structure State where
  db : ServerDb
  bodies : LogKey → Bytes
  gauge : LogsDirGauge
  /-- The cursor of the dispatcher among the sent rows. -/
  sweep : SentSweep
  /-- The ids that are given out. -/
  usedTasks : List TaskId
  usedExecutions : List ExecutionId

def State.start (gauge : LogsDirGauge) : State where
  db := .empty
  bodies _ := []
  gauge := gauge
  sweep := {}
  usedTasks := []
  usedExecutions := []

inductive Action where
  | event (now : Time) (ev : AgentEvent) (msg : MessageId)
  /-- An increment of a log; the command that stops the agent may fail to be queued. -/
  | increment (cfg : LogsSettings) (fault : LogFault) (ev : AgentLogEvent) (now : Time)
      (queues : Bool)
  /-- One execution of a reconcile pass, as the pass loaded it. -/
  | reconcile (settings : AgentsSettings) (held : HeldRows) (now : Time) (lastSeen : Option Time)
      (e : ExecutionId) (x : Execution)
  | repair (settings : AgentsSettings) (held : HeldRows) (now : Time) (t : TaskId)
  /-- A task is declared lost by hand. -/
  | lose (now : Time) (t : TaskId)
  /-- The drain pass. -/
  | finalize (drain now : Time)
  /-- A tick of the recorder. -/
  | record (settings : OutcomeSettings) (limit : Nat) (now : Time)
  | create (now : Time) (t : TaskId) (task : Task) (taskType : RunnerType)
      (payload : CommandPayload) (nodes : List (ExecutionId × AgentId))
  /-- None of the run commands of a new task could be sent. -/
  | unavailable (held : HeldRows) (now : Time) (t : TaskId)
  | cancel (now : Time) (t : TaskId)
  /-- Has a schedule a task that is not dispatched? -/
  | backlog (sid : ScheduleId)
  /-- Was a reclaim of the execution ever issued? -/
  | reclaimed (e : ExecutionId)
  /-- A pass of the dispatcher loads its rows, and processes one of them. -/
  | load (limit : Nat)
  | process (c : CommandId) (now : Time) (msg : Option MessageId)
  /-- An executor, or a cancel, delivers a row of its own. -/
  | deliver (executor : Bool) (c : CommandId) (now : Time) (msg : Option MessageId)
  /-- A call of `reconcile_sent_once`. -/
  | resend (cfg : SentReconcileSettings) (now stamp : Time) (redis : Bool)
      (xrange : CommandId → XRange)
  /-- Retention selects tasks, marks their logs expired, and deletes them. -/
  | select (cutoff : Option Time) (limit : Option Nat) (only exclude : List TaskId)
  | expire (ids : List TaskId)
  | delete (ids : List TaskId)
  /-- A closed log file above the cap is cut. -/
  | cut (k : LogKey) (size : Nat)
  /-- Files are unlinked or cut, and the gauge is calibrated. -/
  | disk (bodies : LogKey → Bytes) (gauge : LogsDirGauge)
  | pruneAudits (msgs : List MessageId)
  /-- A batch of a pruning deletes what it finds to be prunable of these commands. -/
  | prune (cutoff : Time) (ids : List CommandId)
  /-- A call of `delete_stale_command_streams`. -/
  | sweepStreams (days : Int) (nodes : AgentId → Option NodeRow) (now : Time)
      (streams : List CommandStream)

/-- What a step puts out. -/
inductive Output where
  | done
  | event (outcome : EventOutcome)
  | increment (result : Except LogError Applied)
  | backlog (found : Bool)
  | reclaimed (issued : Bool)
  | rows (rows : List (CommandId × CommandOutbox))
  | dispatched (outcome : DispatchOutcome) (command : Option AgentCommand)
  | resent (rows : List (CommandId × CommandOutbox)) (requeued : List CommandId)
  | tasks (ids : List TaskId)
  | streams (agents : List AgentId)

namespace State

def logServer (s : State) : LogServer := ⟨s.db.logFiles, s.bodies, some s.gauge⟩

/-- The increment was cut here. -/
def alerted : Except LogError Applied → Option TruncationAlert
  | .ok applied => applied.alert
  | .error _ => none

/-- `_on_truncated`, if the increment was cut. -/
def onTruncated (db : ServerDb) (now : Time) (queues : Bool) :
    Option TruncationAlert → ServerDb
  | some alert =>
      if queues then db.createStopLogsOutbox now alert.taskId alert.executionId alert.agentId
      else db
  | none => db

/-- `apply_log_event`, with its transaction. -/
def applyIncrement (s : State) (cfg : LogsSettings) (fault : LogFault) (ev : AgentLogEvent)
    (now : Time) (queues : Bool) : State :=
  let applied := applyLogEvent cfg fault ev s.logServer
  { s with
    db := onTruncated { s.db with logFiles := applied.1.rows } now queues (alerted applied.2)
    bodies := applied.1.bodies
    gauge := applied.1.gauge.getD s.gauge }

/-- The commands among these that a pruning deletes. -/
def doomed (db : ServerDb) (cutoff : Time) (ids : List CommandId) : List CommandId :=
  ids.filter fun c => (db.outbox.get c).any fun row => db.prunable cutoff (c, row)

/-- A log file that `truncate_oversized_log_files` has cut. -/
def cutLog (f : ExecutionLogFile) (size : Nat) : ExecutionLogFile :=
  if f.status = .complete ∧ f.finalOffset.isSome then
    { f with
      sizeBytes := size
      finalOffset := some size
      logIntegrity := .truncated
      truncationReason := some .maintenance }
  else f

/-- One transaction, and what it puts out. -/
def act (s : State) : Action → Option (State × Output)
  | .event now ev msg =>
      let applied := s.db.applyEvent now ev msg
      some ({ s with db := applied.1 }, .event applied.2)
  | .increment cfg fault ev now queues =>
      some (s.applyIncrement cfg fault ev now queues,
        .increment (applyLogEvent cfg fault ev s.logServer).2)
  | .reconcile settings held now lastSeen e x =>
      some ({ s with db := s.db.reconcileExecution settings held now lastSeen e x }, .done)
  | .repair settings held now t =>
      some ({ s with db := s.db.repairOrphanedTask settings held now t }, .done)
  | .lose now t => some ({ s with db := s.db.markTaskLost now t }, .done)
  | .finalize drain now => some ({ s with db := s.db.finalizeDrainedLogs drain now }, .done)
  | .record settings limit now =>
      some ({ s with db := s.db.recordTaskOutcomes settings limit now }, .done)
  | .create now t task taskType payload nodes =>
      if ((s.db.tasks.get t).isNone ∧ t ∉ s.usedTasks)
          ∧ (∀ n ∈ nodes, (s.db.executions.get n.1).isNone ∧ n.1 ∉ s.usedExecutions)
          ∧ (nodes.map Prod.fst).Nodup then
        some ({ s with
          db := s.db.createTask now t task taskType payload nodes
          usedTasks := t :: s.usedTasks
          usedExecutions := nodes.map Prod.fst ++ s.usedExecutions }, .done)
      else none
  | .unavailable held now t =>
      some ({ s with db := s.db.failDispatchUnavailable held now t }, .done)
  | .cancel now t => some ({ s with db := s.db.requestCancel now t }, .done)
  | .backlog sid => some (s, .backlog (s.db.hasUndispatchedBacklog sid))
  | .reclaimed e => some (s, .reclaimed (s.db.reclaimEverIssued e))
  | .load limit => some (s, .rows (s.db.dispatchBatch limit))
  | .process c now msg =>
      ((s.db.outbox.get c).filter fun row => row.status.dispatchable).map fun row =>
        let d := s.db.processRow c row now msg
        ({ s with db := d.db }, .dispatched d.outcome d.command)
  | .deliver executor c now msg =>
      ((s.db.outbox.get c).filter fun row => row.status.dispatchable).map fun row =>
        -- an executor has its task in the session, as it was created
        let task := if executor then some .queued else s.db.taskStatus row.taskId
        let d := s.db.tryDispatch c row task executor now msg
        ({ s with db := d.db }, .dispatched d.outcome d.command)
  | .resend cfg now stamp redis xrange =>
      let call := reconcileSentOnce cfg now stamp redis xrange s.sweep s.db
      some ({ s with db := call.db, sweep := call.sweep }, .resent call.rows call.requeued)
  | .select cutoff limit only exclude =>
      some (s, .tasks (s.db.sealedTerminalTaskIds cutoff limit only exclude))
  | .expire ids => some ({ s with db := s.db.expireLogs ids }, .done)
  | .delete ids => some ({ s with db := s.db.deleteTasks ids }, .done)
  | .cut k size =>
      some ({ s with db := { s.db with
        logFiles := s.db.logFiles.modify k fun f => cutLog f size } }, .done)
  | .disk bodies gauge => some ({ s with bodies := bodies, gauge := gauge }, .done)
  | .pruneAudits msgs =>
      some ({ s with db := { s.db with
        audits := s.db.audits.filter fun r => decide (r.1 ∉ msgs) } }, .done)
  | .prune cutoff ids =>
      some ({ s with db := s.db.without (doomed s.db cutoff ids) }, .done)
  | .sweepStreams days nodes now streams =>
      some (s, .streams (s.db.deleteStaleCommandStreams days nodes now streams))

/-- The ids of the tasks of new commands are given out. -/
def note (s : State) (old : ServerDb) : State :=
  { s with
    usedTasks := (Dispatch.State.newRows old s.db).map (fun r => r.2.taskId) ++ s.usedTasks }

/-- The state without some of its commands. -/
def without (s : State) (gone : List CommandId) : State := { s with db := s.db.without gone }

end State

/-- One step. -/
def step (s : State) (a : Action) : Option State := (s.act a).map fun r => r.1.note s.db

/-- What the step puts out. -/
def output (s : State) (a : Action) : Option Output := (s.act a).map Prod.snd

/-! ### Log files that take nothing more -/

/-- Nothing more is written to the log file: it was cut already, or it is closed. -/
def quiet (f : ExecutionLogFile) : Bool := f.logIntegrity == .truncated || !f.status.writable

theorem quiet_drain {f : ExecutionLogFile} (h : quiet f = true) : quiet f.drain = true := by
  unfold ExecutionLogFile.drain
  split
  · rename_i hactive
    unfold quiet at h ⊢
    rw [hactive] at h
    simpa [LogStatus.writable] using h
  · exact h

/-- The log files of `db'` are log files of `db`, and those that took nothing more
take nothing more. -/
def FilesKept (db db' : ServerDb) : Prop :=
  ∀ k f', db'.logFiles.get k = some f' →
    ∃ f, db.logFiles.get k = some f ∧ (quiet f = true → quiet f' = true)

section Files

variable {db db' db'' : ServerDb} {now : Time} {held : HeldRows}

theorem FilesKept.of_logFiles (h : db'.logFiles = db.logFiles) : FilesKept db db' := by
  intro k f' hf'
  rw [h] at hf'
  exact ⟨f', hf', id⟩

theorem FilesKept.refl (db : ServerDb) : FilesKept db db := .of_logFiles rfl

theorem FilesKept.trans (h : FilesKept db db') (h' : FilesKept db' db'') : FilesKept db db'' := by
  intro k f'' hf''
  obtain ⟨f', hf', hq'⟩ := h' k f'' hf''
  obtain ⟨f, hf, hq⟩ := h k f' hf'
  exact ⟨f, hf, fun hquiet => hq' (hq hquiet)⟩

theorem FilesKept.of_updateAll {g : LogKey → ExecutionLogFile → ExecutionLogFile}
    (h : db'.logFiles = db.logFiles.updateAll g)
    (hg : ∀ k f, quiet f = true → quiet (g k f) = true) : FilesKept db db' := by
  intro k f' hf'
  rw [h, Table.get_updateAll] at hf'
  obtain ⟨f, hf, rfl⟩ := Option.map_eq_some_iff.mp hf'
  exact ⟨f, hf, hg k f⟩

theorem FilesKept.of_modify {k : LogKey} {g : ExecutionLogFile → ExecutionLogFile}
    (h : db'.logFiles = db.logFiles.modify k g) (hg : ∀ f, quiet f = true → quiet (g f) = true) :
    FilesKept db db' := by
  refine .of_updateAll h fun k' f hf => ?_
  split
  · exact hg f hf
  · exact hf

theorem FilesKept.of_filter {p : LogKey × ExecutionLogFile → Bool}
    (h : db'.logFiles = db.logFiles.filter p) : FilesKept db db' := by
  intro k f' hf'
  rw [h, Table.get_filter, Option.filter_eq_some_iff] at hf'
  exact ⟨f', hf'.1, id⟩

theorem FilesKept.markLost (db : ServerDb) (held : HeldRows) (e : ExecutionId)
    (reason : ExecLostReason) (now : Time) : FilesKept db (db.markLost held e reason now).1 := by
  unfold ServerDb.markLost
  rcases db.executions.get e with - | x
  · exact .refl db
  · dsimp only
    split
    · exact .refl db
    · exact .of_modify rfl fun f hf => quiet_drain hf

theorem FilesKept.markExecutionsLost (db : ServerDb) (now : Time)
    (l : List (ExecutionId × Execution)) : FilesKept db (ServerDb.markExecutionsLost now l db) := by
  induction l generalizing db with
  | nil => exact .refl db
  | cons r l ih => exact (FilesKept.markLost db _ _ _ _).trans (ih _)

theorem FilesKept.markTaskLost (db : ServerDb) (now : Time) (t : TaskId) :
    FilesKept db (db.markTaskLost now t) := by
  unfold ServerDb.markTaskLost
  split
  · exact .refl db
  · split
    · exact .refl db
    · exact (FilesKept.markExecutionsLost db now _).trans (.of_logFiles rfl)

theorem FilesKept.finalizeLog (db : ServerDb) (drain now : Time) (r : LogKey × Execution) :
    FilesKept db (ServerDb.finalizeLog drain now db r) := by
  unfold ServerDb.finalizeLog
  split
  · refine .of_modify (k := r.1)
      (g := fun f => { f with status := .complete, finalOffset := some f.sizeBytes }) rfl
      fun f _ => ?_
    simp [quiet, LogStatus.writable]
  · exact .refl db

theorem FilesKept.recordTask (db : ServerDb) (settings : OutcomeSettings) (now : Time)
    (t : TaskId) : FilesKept db (ServerDb.recordTask settings now db t) := by
  rcases ServerDb.recordTask_cases settings now db t with ⟨h, -⟩ | ⟨task, f, -, -, -, -, h⟩
  · rw [h]
    exact .refl db
  · rw [h]
    refine .of_updateAll (g := fun k f => if k.taskId = t ∧ f.status.writable = true then
      { f with status := .complete, finalOffset := some f.sizeBytes } else f) rfl fun k f hf => ?_
    split
    · simp [quiet, LogStatus.writable]
    · exact hf

/-- A loop of steps that keep the log files. -/
theorem FilesKept.foldl {α : Type*} {f : ServerDb → α → ServerDb}
    (h : ∀ db x, FilesKept db (f db x)) (db : ServerDb) (l : List α) :
    FilesKept db (l.foldl f db) := by
  induction l generalizing db with
  | nil => exact .refl db
  | cons x l ih => exact (h db x).trans (ih _)

end Files

/-! ### What a transaction leaves of the tables -/

/-- A command that stops the reading of a log is one of the execution `e`. -/
def StopsOnly (e : Option ExecutionId) (row : CommandOutbox) : Prop :=
  row.type = .stopLogs → e = some row.executionId

theorem StopsOnly.same {e : Option ExecutionId} {row row' : CommandOutbox}
    (h : StopsOnly e row) (hsame : SameCommand row row') : StopsOnly e row' := by
  intro htype
  rw [hsame.executionId]
  exact h (hsame.type.symm.trans htype)

theorem StopsOnly.of_type {e : Option ExecutionId} {row : CommandOutbox}
    (h : row.type ≠ .stopLogs) : StopsOnly e row := fun htype => absurd htype h

/-- What follows from a transaction: rows stay with their commands, hard terminals
stay, closed log files stay closed, and new commands stop no log but that of `e`. -/
structure Follows (e : Option ExecutionId) (db db' : ServerDb) : Prop where
  source : ∀ c row', db'.outbox.get c = some row' →
    (∃ row, db.outbox.get c = some row ∧ SameCommand row row') ∨
      (db.nextCommand ≤ c ∧ StopsOnly e row')
  fresh : (∀ c row, db.outbox.get c = some row → c < db.nextCommand) →
    ∀ c row, db'.outbox.get c = some row → c < db'.nextCommand
  next : db.nextCommand ≤ db'.nextCommand
  tasks : ∀ t, (db.taskStatus t).all TaskStatus.hard = true →
    (db'.taskStatus t).all TaskStatus.hard = true
  files : FilesKept db db'

section Follows

variable {es : Option ExecutionId} {db db' db'' : ServerDb} {now : Time} {held : HeldRows}
  {t : TaskId} {e : ExecutionId} {c : CommandId}

/-- Statuses that do not regress keep hard terminals. -/
theorem hard_of_onward (h : db.TasksOnward db') (t : TaskId)
    (ht : (db.taskStatus t).all TaskStatus.hard = true) :
    (db'.taskStatus t).all TaskStatus.hard = true := by
  have hrel := h t
  rcases hx : db.taskStatus t with - | st
  · rw [hx] at hrel
    rcases hy : db'.taskStatus t with - | st'
    · rfl
    · rw [hy] at hrel
      cases hrel
  · rw [hx] at ht
    obtain ⟨st', hst', hadv⟩ := h.target hx
    have hhard : st.hard = true := ht
    rw [hst', hadv.hard hhard]
    exact hhard

theorem Follows.of_adds (h : Adds (StopsOnly es) db db') (htasks : db.TasksOnward db')
    (hfiles : FilesKept db db') : Follows es db db' where
  source c row' hrow' := (h.adds c row' hrow').imp_left fun hold => ⟨row', hold, .refl row'⟩
  fresh := h.fresh
  next := h.next
  tasks := hard_of_onward htasks
  files := hfiles

theorem Follows.refl (db : ServerDb) : Follows es db db := .of_adds (.refl db) (.refl db) (.refl db)

/-- A transaction that has nothing to do with commands and tasks. -/
theorem Follows.of_files (houtbox : db'.outbox = db.outbox)
    (hnext : db'.nextCommand = db.nextCommand) (htasks : db'.tasks = db.tasks)
    (hfiles : FilesKept db db') : Follows es db db' :=
  .of_adds (.of_outbox houtbox hnext) (.of_tasks htasks) hfiles

theorem Follows.trans (h : Follows es db db') (h' : Follows es db' db'') : Follows es db db'' where
  source c row' hrow' := by
    rcases h'.source c row' hrow' with ⟨row, hrow, hsame⟩ | ⟨hc, hnew⟩
    · rcases h.source c row hrow with ⟨row₀, hrow₀, hsame₀⟩ | ⟨hc, hnew⟩
      · exact .inl ⟨row₀, hrow₀, hsame₀.trans hsame⟩
      · exact .inr ⟨hc, hnew.same hsame⟩
    · exact .inr ⟨Nat.le_trans h.next hc, hnew⟩
  fresh hfresh := h'.fresh (h.fresh hfresh)
  next := Nat.le_trans h.next h'.next
  tasks t ht := h'.tasks t (h.tasks t ht)
  files := h.files.trans h'.files

/-- Commands are written in place. -/
theorem Follows.of_outbox {f : CommandId → CommandOutbox → CommandOutbox}
    (h : db' = { db with outbox := db.outbox.updateAll f })
    (hf : ∀ c row, SameCommand row (f c row)) : Follows es db db' := by
  subst h
  refine ⟨fun c row' hrow' => ?_, fun hfresh c row' hrow' => ?_, Nat.le_refl _, fun _ ht => ht,
    .of_logFiles rfl⟩
  · have hrow' : (db.outbox.updateAll f).get c = some row' := hrow'
    rw [Table.get_updateAll] at hrow'
    obtain ⟨row, hrow, rfl⟩ := Option.map_eq_some_iff.mp hrow'
    exact .inl ⟨row, hrow, hf c row⟩
  · have hrow' : (db.outbox.updateAll f).get c = some row' := hrow'
    rw [Table.get_updateAll] at hrow'
    obtain ⟨row, hrow, rfl⟩ := Option.map_eq_some_iff.mp hrow'
    exact hfresh c row hrow

/-- The row of one command is written. -/
theorem Follows.updateOutbox {row row' : CommandOutbox} (hrow : db.outbox.get c = some row)
    (hsame : SameCommand row row') : Follows es db (db.updateOutbox c fun _ => row') := by
  refine ⟨fun c' r' hr' => ?_, fun hfresh c' r' hr' => ?_, Nat.le_refl _, fun _ ht => ht,
    .of_logFiles rfl⟩
  · have hr' : (db.outbox.modify c fun _ => row').get c' = some r' := hr'
    rw [Table.get_modify] at hr'
    by_cases hc : c' = c
    · rw [if_pos hc, hc, hrow] at hr'
      obtain rfl := Option.some.inj hr'
      exact .inl ⟨row, hc ▸ hrow, hsame⟩
    · rw [if_neg hc] at hr'
      exact .inl ⟨r', hr', .refl r'⟩
  · have hr' : (db.outbox.modify c fun _ => row').get c' = some r' := hr'
    rw [Table.get_modify] at hr'
    by_cases hc : c' = c
    · exact hc ▸ hfresh c row hrow
    · rw [if_neg hc] at hr'
      exact hfresh c' r' hr'

/-- Commands are deleted. -/
theorem Follows.without (db : ServerDb) (gone : List CommandId) :
    Follows es db (db.without gone) := by
  have hold : ∀ c row, (db.without gone).outbox.get c = some row → db.outbox.get c = some row := by
    intro c row hrow
    have hrow : (db.outbox.without gone).get c = some row := hrow
    rw [Table.get_without] at hrow
    split at hrow
    · cases hrow
    · exact hrow
  exact ⟨fun c row hrow => .inl ⟨row, hold c row hrow, .refl row⟩,
    fun hfresh c row hrow => hfresh c row (hold c row hrow), Nat.le_refl _, fun _ ht => ht,
    .of_logFiles rfl⟩

/-! Transaction by transaction. -/

theorem Follows.applyEvent (db : ServerDb) (now : Time) (ev : AgentEvent) (msg : MessageId) :
    Follows es db (db.applyEvent now ev msg).1 := by
  refine .of_adds ?_ (ServerDb.applyEvent_tasksOnward ev msg)
    (.of_logFiles (Cleanups.applyEvent_logFiles db now ev msg))
  rcases Dispatch.applyEvent_outbox db now ev msg with
    ⟨-, houtbox, hnext⟩ | ⟨-, row, hrow, -, houtbox, hnext⟩
  · exact .of_outbox houtbox hnext
  · refine .of_insert (.of_type ?_) houtbox hnext
    rw [hrow.2.1]
    simp

/-- A reconcile pass declares a loss, or leaves tasks and log files alone. -/
theorem reconcileExecution_frame (db : ServerDb) (settings : AgentsSettings) (held : HeldRows)
    (now : Time) (lastSeen : Option Time) (e : ExecutionId) (x : Execution) :
    let db' := db.reconcileExecution settings held now lastSeen e x
    (∃ reason, db'.tasks = (db.markLost held e reason now).1.tasks ∧
      db'.logFiles = (db.markLost held e reason now).1.logFiles) ∨
      db'.tasks = db.tasks ∧ db'.logFiles = db.logFiles := by
  have hcheck : ∀ db₁ : ServerDb, (db₁.checkNoProgress settings now e x).tasks = db₁.tasks ∧
      (db₁.checkNoProgress settings now e x).logFiles = db₁.logFiles := by
    intro db₁
    unfold ServerDb.checkNoProgress
    split
    · exact ⟨rfl, rfl⟩
    · dsimp only
      split
      · exact ⟨rfl, rfl⟩
      · split
        · exact ⟨rfl, rfl⟩
        · exact ⟨rfl, rfl⟩
  cases lastSeen with
  | none => exact .inl ⟨_, rfl, rfl⟩
  | some seen =>
      unfold ServerDb.reconcileExecution
      simp only [decide_eq_true_eq]
      split
      · exact .inl ⟨_, rfl, rfl⟩
      · split
        · split
          · exact .inl ⟨_, rfl, rfl⟩
          · exact .inl ⟨_, rfl, rfl⟩
        · right
          split
          · exact hcheck _
          · exact hcheck _

theorem Follows.reconcileExecution (db : ServerDb) (settings : AgentsSettings) (held : HeldRows)
    (now : Time) (lastSeen : Option Time) (e : ExecutionId) (x : Execution) :
    Follows es db (db.reconcileExecution settings held now lastSeen e x) := by
  have hadds : Adds (StopsOnly es) db (db.reconcileExecution settings held now lastSeen e x) :=
    (Cleanups.reconcileExecution_leaves db settings held now lastSeen e x).1.mono fun row hrow =>
      .of_type (by rw [hrow.1]; simp)
  rcases reconcileExecution_frame db settings held now lastSeen e x with
    ⟨reason, htasks, hfiles⟩ | ⟨htasks, hfiles⟩
  · refine .of_adds hadds ?_ ?_
    · have hlost : db.TasksOnward (db.markLost held e reason now).1 := ServerDb.markLost_tasksOnward
      exact hlost.trans (.of_tasks htasks)
    · exact (FilesKept.markLost db held e reason now).trans (.of_logFiles hfiles)
  · exact .of_adds hadds (.of_tasks htasks) (.of_logFiles hfiles)

theorem Follows.repairOrphanedTask (db : ServerDb) (settings : AgentsSettings) (held : HeldRows)
    (now : Time) (t : TaskId) : Follows es db (db.repairOrphanedTask settings held now t) := by
  have htasks : db.TasksOnward (db.repairOrphanedTask settings held now t) :=
    (ServerDb.repairOrphanedTask_onward settings).2
  rcases ServerDb.repairOrphanedTask_cases db settings held now t with h | ⟨task, f, -, -, h⟩
  · rw [h]
    exact .refl db
  · rw [h] at htasks ⊢
    exact .of_adds (.of_outbox rfl rfl) htasks (.of_logFiles rfl)

theorem Follows.markTaskLost (db : ServerDb) (now : Time) (t : TaskId) :
    Follows es db (db.markTaskLost now t) := by
  have hadds : Adds (fun _ => False) db (db.markTaskLost now t) :=
    Dispatch.writer_outbox db (w := .markTaskLost now t) (by simp)
  exact .of_adds (hadds.mono fun _ h => h.elim) ServerDb.markTaskLost_onward.2
    (.markTaskLost db now t)

/-- A loop of transactions. -/
theorem Follows.foldl {α : Type*} {f : ServerDb → α → ServerDb}
    (h : ∀ db x, Follows es db (f db x)) (db : ServerDb) (l : List α) :
    Follows es db (l.foldl f db) := by
  induction l generalizing db with
  | nil => exact .refl db
  | cons x l ih => exact (h db x).trans (ih _)

theorem Follows.finalizeDrainedLogs (db : ServerDb) (drain now : Time) :
    Follows es db (db.finalizeDrainedLogs drain now) := by
  refine .foldl (fun db r => ?_) db _
  refine .of_adds ((Cleanups.finalizeLog_adds drain now r).mono fun row hrow =>
    .of_type (by rw [hrow.1]; simp)) (.of_tasks ?_) (.finalizeLog db drain now r)
  unfold ServerDb.finalizeLog
  split
  · rfl
  · rfl

theorem Follows.recordTaskOutcomes (db : ServerDb) (settings : OutcomeSettings) (limit : Nat)
    (now : Time) : Follows es db (db.recordTaskOutcomes settings limit now) := by
  refine .foldl (fun db t => ?_) db _
  have hfiles := FilesKept.recordTask db settings now t
  rcases ServerDb.recordTask_cases settings now db t with ⟨h, -⟩ | ⟨task, f, -, -, -, hf, h⟩
  · rw [h]
    exact .refl db
  · rw [h] at hfiles ⊢
    refine .of_adds (.of_outbox rfl rfl) (.of_modify rfl fun task _ => ?_) hfiles
    rw [(hf task).1]
    exact .refl _

theorem Follows.requestCancel (db : ServerDb) (now : Time) (t : TaskId) :
    Follows es db (db.requestCancel now t) := by
  have hstops : ∀ (l : List (ExecutionId × Execution)) (db : ServerDb), Follows es db
      (l.foldl (fun db r => db.createStopOutbox now .cancel t r.1 r.2.agentId) db) := by
    intro l db
    exact .foldl (fun db r => .of_adds (.of_addOutbox (.of_type (by simp))) (.of_tasks rfl)
      (.of_logFiles rfl)) db l
  have hcanceled : Follows es db (db.cancelUnsentOutbox now t) := by
    refine .of_outbox rfl fun c row => ?_
    split
    · exact ⟨rfl, rfl, rfl, rfl, rfl⟩
    · exact .refl row
  exact hcanceled.trans (hstops _ _)

theorem Follows.failExecutionDispatchTimeout (db : ServerDb) (now : Time) (t : TaskId)
    (e : ExecutionId) : Follows es db (db.failExecutionDispatchTimeout now t e) :=
  .of_adds (.of_outbox rfl rfl) ServerDb.failExecutionDispatchTimeout_tasksOnward (.of_logFiles rfl)

theorem Follows.failRun (db : ServerDb) (now : Time) (row : CommandOutbox) :
    Follows es db (db.failRun now row) := by
  unfold ServerDb.failRun
  split
  · exact .failExecutionDispatchTimeout ..
  · exact .refl db

theorem Follows.failDispatchUnavailable (db : ServerDb) (held : HeldRows) (now : Time)
    (t : TaskId) : Follows es db (db.failDispatchUnavailable held now t) := by
  have hadds : Adds (StopsOnly es) db (db.failDispatchUnavailable held now t) := .of_outbox rfl rfl
  refine ⟨fun c row' hrow' => .inl ⟨row', hrow', .refl row'⟩, hadds.fresh, hadds.next,
    fun t' ht' => ?_, .of_logFiles rfl⟩
  -- the task fails, whatever it was
  rw [ServerDb.taskStatus_modify (f := fun task => { task with
    status := .failed, startedAt := some now, finishedAt := some now, updatedAt := now }) rfl]
  split
  · rcases db.tasks.get t with - | task
    · rfl
    · rfl
  · exact ht'

theorem Follows.tryDispatch {row : CommandOutbox} (hrow : db.outbox.get c = some row)
    (task : Option TaskStatus) (giveUpOnFail : Bool) (now : Time) (msg : Option MessageId) :
    Follows es db (db.tryDispatch c row task giveUpOnFail now msg).db := by
  unfold ServerDb.tryDispatch
  cases planDispatch row task with
  | sent => exact .refl db
  | canceled => exact .refl db
  | notDispatchable => exact .updateOutbox hrow ⟨rfl, rfl, rfl, rfl, rfl⟩
  | send =>
      refine .updateOutbox hrow ?_
      cases msg with
      | some m => exact ⟨rfl, rfl, rfl, rfl, rfl⟩
      | none =>
          dsimp only [finishDispatch]
          split
          · exact ⟨rfl, rfl, rfl, rfl, rfl⟩
          · exact ⟨rfl, rfl, rfl, rfl, rfl⟩

theorem Follows.processRow {row : CommandOutbox} (hrow : db.outbox.get c = some row) (now : Time)
    (msg : Option MessageId) : Follows es db (db.processRow c row now msg).db := by
  unfold ServerDb.processRow
  split
  · have hgiven : Follows es db (db.updateOutbox c fun _ => row.giveUp now) :=
      .updateOutbox hrow ⟨rfl, rfl, rfl, rfl, rfl⟩
    exact hgiven.trans (.failRun _ now row)
  · have htry : Follows es db (db.tryDispatch c row (db.taskStatus row.taskId) false now msg).db :=
      .tryDispatch hrow ..
    dsimp only
    split
    · exact htry.trans (.failRun _ now row)
    · exact htry

theorem Follows.reconcileSentOnce (db : ServerDb) (cfg : SentReconcileSettings) (now stamp : Time)
    (redis : Bool) (xrange : CommandId → XRange) (s : SentSweep) :
    Follows es db (Dopilot.reconcileSentOnce cfg now stamp redis xrange s db).db := by
  have hrequeue : ∀ ids : List CommandId, Follows es db (db.requeueSent now stamp ids) := by
    intro ids
    refine .of_outbox rfl fun c row => ?_
    split
    · exact ⟨rfl, rfl, rfl, rfl, rfl⟩
    · exact .refl row
  exact hrequeue _

theorem Follows.expireLogs (db : ServerDb) (ids : List TaskId) :
    Follows es db (db.expireLogs ids) := by
  refine .of_files rfl rfl rfl (.of_updateAll (g := fun k f => if k.taskId ∈ ids then
    { f with status := .expired, logIntegrity := .expired } else f) rfl fun k f hf => ?_)
  split
  · simp [quiet, LogStatus.writable]
  · exact hf

theorem Follows.deleteTasks (db : ServerDb) (ids : List TaskId) :
    Follows es db (db.deleteTasks ids) := by
  have hold : ∀ c row, (db.deleteTasks ids).outbox.get c = some row →
      db.outbox.get c = some row := by
    intro c row hrow
    have hrow : (db.outbox.filter _).get c = some row := hrow
    rw [Table.get_filter, Option.filter_eq_some_iff] at hrow
    exact hrow.1
  refine ⟨fun c row hrow => .inl ⟨row, hold c row hrow, .refl row⟩,
    fun hfresh c row hrow => hfresh c row (hold c row hrow), Nat.le_refl _, fun t ht => ?_,
    .of_filter rfl⟩
  have hstatus : (db.deleteTasks ids).taskStatus t =
      ((db.tasks.get t).filter fun _ => decide (t ∉ ids)).map (·.status) := by
    unfold ServerDb.taskStatus
    show ((db.tasks.filter _).get t).map _ = _
    rw [Table.get_filter]
  rw [hstatus]
  unfold ServerDb.taskStatus at ht
  rcases hget : db.tasks.get t with - | task
  · rfl
  · rw [hget] at ht
    by_cases hids : t ∈ ids
    · simp [hids]
    · rw [Option.filter_some_pos (by simpa using hids)]
      exact ht

theorem quiet_cutLog {f : ExecutionLogFile} (h : quiet f = true) (size : Nat) :
    quiet (State.cutLog f size) = true := by
  unfold State.cutLog
  split
  · simp [quiet]
  · exact h

end Follows

/-! ### Increments -/

section Increments

theorem writeIncrement_cases (cfg : LogsSettings) (fault : LogFault) (ev : AgentLogEvent)
    (raw : Bytes) (f : ExecutionLogFile) (s : LogServer) :
    let written := writeIncrement cfg fault ev raw f s
    written.1.rows = s.rows ∧ State.alerted written.2 = none ∨
      ∃ row, written.1.rows = s.rows.modify ev.key (fun _ => row) ∧
        ∀ alert, State.alerted written.2 = some alert →
          alert.taskId = ev.taskId ∧ alert.executionId = ev.executionId ∧ quiet row = true := by
  unfold writeIncrement
  dsimp only
  split
  · exact .inl ⟨rfl, rfl⟩
  · refine .inr ⟨_, rfl, fun alert halert => ?_⟩
    obtain ⟨reason, hreason, rfl⟩ := Option.map_eq_some_iff.mp halert
    refine ⟨rfl, rfl, ?_⟩
    simp [quiet, ExecutionLogFile.advance, hreason]

/-- **What an increment does to its log file**, where there is a gauge: a file that
takes nothing more is moved on at most, and only a file that did not is cut. -/
theorem applyLogEvent_cases (cfg : LogsSettings) (fault : LogFault) (ev : AgentLogEvent)
    {s : LogServer} (hgauge : s.gauge.isSome = true) :
    let applied := applyLogEvent cfg fault ev s
    (∃ g : ExecutionLogFile → ExecutionLogFile, (∀ f, quiet (g f) = quiet f) ∧
        applied.1.rows = s.rows.modify ev.key g ∧ State.alerted applied.2 = none) ∨
      ∃ f row, s.rows.get ev.key = some f ∧ quiet f = false ∧
        applied.1.rows = s.rows.modify ev.key (fun _ => row) ∧
        ∀ alert, State.alerted applied.2 = some alert →
          alert.taskId = ev.taskId ∧ alert.executionId = ev.executionId ∧ quiet row = true := by
  have hsame : s.rows = s.rows.modify ev.key id := by
    refine Table.ext_rows ?_
    show _ = s.rows.rows.map _
    rw [List.map_congr_left (g := id), List.map_id]
    intro r _
    show (r.1, if r.1 = ev.key then id r.2 else r.2) = id r
    rw [id, ite_self]
    rfl
  have hleft : ∀ result : Except LogError Applied, State.alerted result = none →
      ∃ g : ExecutionLogFile → ExecutionLogFile, (∀ f, quiet (g f) = quiet f) ∧
        s.rows = s.rows.modify ev.key g ∧ State.alerted result = none :=
    fun _ hresult => ⟨id, fun _ => rfl, hsame, hresult⟩
  unfold applyLogEvent
  by_cases hlookup : fault = .lookup
  · rw [if_pos hlookup]
    exact .inl (hleft _ rfl)
  · rw [if_neg hlookup]
    rcases hf : s.rows.get ev.key with - | f
    · exact .inl (hleft _ rfl)
    · dsimp only
      split
      · exact .inl (hleft _ rfl)
      · rcases ev.contentB64 with - | raw
        · exact .inl (hleft _ rfl)
        · dsimp only
          split
          · exact .inl (hleft _ rfl)
          · split
            · exact .inl (hleft _ rfl)
            · rename_i hwritable
              split
              · exact .inl (hleft _ rfl)
              · split
                · exact .inl ⟨fun f => { f with lastPulledOffset := ev.offset + ev.sizeBytes },
                    fun _ => rfl, rfl, rfl⟩
                · rename_i hopen
                  have hquiet : quiet f = false := by
                    have hwritable : f.status.writable = true := by simpa using hwritable
                    have hcut : ¬ f.logIntegrity = .truncated := fun hc =>
                      hopen ⟨hc, .inr hgauge⟩
                    simp [quiet, hwritable, hcut]
                  rcases writeIncrement_cases cfg fault ev raw f s with
                    ⟨hrows, hnone⟩ | ⟨row, hrows, halert⟩
                  · rw [hrows]
                    exact .inl (hleft _ hnone)
                  · exact .inr ⟨f, row, rfl, hquiet, hrows, halert⟩

end Increments

/-! ### The invariant -/

/-- Nothing more is written to the logs of the execution. -/
def Quiet (db : ServerDb) (e : ExecutionId) : Prop :=
  ∀ k f, db.logFiles.get k = some f → k.executionId = e → quiet f = true

/-- Ids are given out once, an execution has one log file, and where a command
stops the reading of a log, nothing more is written to it. -/
structure Inv (s : State) : Prop where
  issued : ∀ c row, s.db.outbox.get c = some row → c < s.db.nextCommand
  used : ∀ c row, s.db.outbox.get c = some row → row.taskId ∈ s.usedTasks
  files : ∀ k f, s.db.logFiles.get k = some f → k.executionId ∈ s.usedExecutions
  one : ∀ k f k' f', s.db.logFiles.get k = some f → s.db.logFiles.get k' = some f' →
    k.executionId = k'.executionId → k = k'
  stopped : ∀ c row, s.db.outbox.get c = some row → row.type = .stopLogs →
    row.executionId ∈ s.usedExecutions ∧ Quiet s.db row.executionId

/-- The commands are settled for good: they are spent, and a task of theirs that is
there is over. -/
structure Settled (gone : List CommandId) (s : State) : Prop where
  spent : s.db.Spent gone
  hard : ∀ c ∈ gone, ∀ row, s.db.outbox.get c = some row →
    (s.db.taskStatus row.taskId).all TaskStatus.hard = true

theorem Inv.start (gauge : LogsDirGauge) : Inv (.start gauge) where
  issued c row hrow := by cases hrow
  used c row hrow := by cases hrow
  files k f hf := by cases hf
  one k f k' f' hf := by cases hf
  stopped c row hrow := by cases hrow

section Invariant

variable {s s' : State} {a : Action} {out : Output} {gone : List CommandId}
  {es : Option ExecutionId}

theorem Quiet.kept {db db' : ServerDb} {e : ExecutionId} (h : Quiet db e)
    (hfiles : FilesKept db db') : Quiet db' e := by
  intro k f' hf' he
  obtain ⟨f, hf, hkeep⟩ := hfiles k f' hf'
  exact hkeep (h k f hf he)

/-- The tasks of new commands are noted. -/
theorem mem_note {old : ServerDb} {c : CommandId} {row : CommandOutbox}
    (hrow : s.db.outbox.get c = some row) (hc : old.nextCommand ≤ c) :
    row.taskId ∈ (s.note old).usedTasks := by
  refine List.mem_append_left _ (List.mem_map.mpr ⟨(c, row), ?_, rfl⟩)
  exact Dispatch.mem_newRows.mpr ⟨hrow, hc⟩

/-- **Transactions that give out no ids keep the invariant.** -/
theorem Inv.follows (hinv : Inv s) (h : Follows es s.db s'.db)
    (hstops : ∀ e, es = some e → e ∈ s.usedExecutions ∧ Quiet s'.db e)
    (htasks : s'.usedTasks = s.usedTasks) (hexecs : s'.usedExecutions = s.usedExecutions) :
    Inv (s'.note s.db) where
  issued := h.fresh hinv.issued
  used c row' hrow' := by
    rcases h.source c row' hrow' with ⟨row, hrow, hsame⟩ | ⟨hc, -⟩
    · refine List.mem_append_right _ ?_
      rw [htasks, hsame.taskId]
      exact hinv.used c row hrow
    · exact mem_note hrow' hc
  files k f' hf' := by
    obtain ⟨f, hf, -⟩ := h.files k f' hf'
    show k.executionId ∈ s'.usedExecutions
    rw [hexecs]
    exact hinv.files k f hf
  one k f' k₁ f₁' hf' hf₁' he := by
    obtain ⟨f, hf, -⟩ := h.files k f' hf'
    obtain ⟨f₁, hf₁, -⟩ := h.files k₁ f₁' hf₁'
    exact hinv.one k f k₁ f₁ hf hf₁ he
  stopped c row' hrow' htype := by
    show row'.executionId ∈ s'.usedExecutions ∧ _
    rw [hexecs]
    rcases h.source c row' hrow' with ⟨row, hrow, hsame⟩ | ⟨-, hnew⟩
    · rw [hsame.executionId]
      obtain ⟨hused, hquiet⟩ := hinv.stopped c row hrow (hsame.type.symm.trans htype)
      exact ⟨hused, hquiet.kept h.files⟩
    · exact hstops _ (hnew htype)

/-- **Settled commands stay settled** through such transactions. -/
theorem Settled.follows (hset : Settled gone s) (h : Follows es s.db s'.db)
    (hspent : s'.db.Spent gone) : Settled gone (s'.note s.db) where
  spent := hspent
  hard c hc row' hrow' := by
    rcases h.source c row' hrow' with ⟨row, hrow, hsame⟩ | ⟨hnew, -⟩
    · rw [hsame.taskId]
      exact h.tasks _ (hset.hard c hc row hrow)
    · exact absurd hc (hset.spent.notMem hnew)

/-! Creating a task. -/

theorem get_of_insert {κ ρ : Type*} [DecidableEq κ] {t : Table κ ρ} {k k' : κ} {r x : ρ}
    (h : (t.insert k r).get k' = some x) : t.get k' = some x ∨ k' = k := by
  rcases hk : t.get k with - | old
  · rw [Table.get_insert _ _ hk] at h
    by_cases heq : k' = k
    · exact .inr heq
    · rw [if_neg heq] at h
      exact .inl h
  · rw [Table.insert, dif_pos (Table.mem_keys_iff.mpr ⟨old, hk⟩)] at h
    exact .inl h

/-- The log files of a new task are those of its executions. -/
theorem createTask_logFiles {db : ServerDb} {now : Time} {t : TaskId} {task : Task}
    {taskType : RunnerType} {payload : CommandPayload} {nodes : List (ExecutionId × AgentId)}
    {k : LogKey} {f : ExecutionLogFile}
    (hf : (db.createTask now t task taskType payload nodes).logFiles.get k = some f) :
    db.logFiles.get k = some f ∨
      k.executionId ∈ nodes.map Prod.fst ∧ k = ⟨t, k.executionId, .log⟩ := by
  have hall : ∀ (nodes : List (ExecutionId × AgentId)) (db : ServerDb),
      (nodes.foldl (fun db node => db.createExecution now t taskType payload node) db).logFiles.get
        k = some f → db.logFiles.get k = some f ∨
          k.executionId ∈ nodes.map Prod.fst ∧ k = ⟨t, k.executionId, .log⟩ := by
    intro nodes
    induction nodes with
    | nil => exact fun db hf => .inl hf
    | cons n nodes ih =>
        intro db hf
        rcases ih _ hf with hf | ⟨he, hk⟩
        · rcases get_of_insert (show (db.logFiles.insert ⟨t, n.1, .log⟩ {}).get k = some f from hf)
            with hf | hk
          · exact .inl hf
          · rw [hk]
            exact .inr ⟨List.mem_cons_self, rfl⟩
        · exact .inr ⟨List.mem_cons_of_mem _ he, hk⟩
  unfold ServerDb.createTask at hf
  dsimp only at hf
  split at hf
  · exact .inl hf
  · have hrest := hall nodes _ hf
    exact hrest

section Create

variable {now : Time} {t : TaskId} {task : Task} {taskType : RunnerType}
  {payload : CommandPayload} {nodes : List (ExecutionId × AgentId)}

/-- **A new task keeps the invariant**, and what is settled is settled still. -/
theorem Inv.create (hinv : Inv s) (hset : Settled gone s) (htask : s.db.tasks.get t = none)
    (hfresh : t ∉ s.usedTasks) (hnew : ∀ n ∈ nodes, s.db.executions.get n.1 = none)
    (hunused : ∀ n ∈ nodes, n.1 ∉ s.usedExecutions) (hnodup : (nodes.map Prod.fst).Nodup) :
    let s' : State := { s with
      db := s.db.createTask now t task taskType payload nodes
      usedTasks := t :: s.usedTasks
      usedExecutions := nodes.map Prod.fst ++ s.usedExecutions }
    Inv (s'.note s.db) ∧ Settled gone (s'.note s.db) := by
  obtain ⟨hadds, -, hstatus⟩ :=
    Dispatch.createTask_spec s.db now t task taskType payload htask hnew hnodup
  have hold : ∀ {k : LogKey}, k.executionId ∈ s.usedExecutions →
      k.executionId ∉ nodes.map Prod.fst := by
    intro k hk hmem
    obtain ⟨n, hn, he⟩ := List.mem_map.mp hmem
    exact hunused n hn (he ▸ hk)
  refine ⟨⟨hadds.fresh hinv.issued, ?_, ?_, ?_, ?_⟩,
    (ServerDb.Blind.createTask now t task taskType payload nodes).spent s.db hset.spent, ?_⟩
  · intro c row hrow
    rcases hadds.adds c row hrow with hrow | ⟨-, hrun⟩
    · exact List.mem_append_right _ (List.mem_cons_of_mem _ (hinv.used c row hrow))
    · refine List.mem_append_right _ ?_
      rw [hrun.2.1]
      exact List.mem_cons_self
  · intro k f hf
    rcases createTask_logFiles hf with hf | ⟨he, -⟩
    · exact List.mem_append_right _ (hinv.files k f hf)
    · exact List.mem_append_left _ he
  · intro k f k' f' hf hf' he
    rcases createTask_logFiles hf with hf | ⟨hmem, hk⟩
    · rcases createTask_logFiles hf' with hf' | ⟨hmem', -⟩
      · exact hinv.one k f k' f' hf hf' he
      · exact absurd (he ▸ hmem') (hold (hinv.files k f hf))
    · rcases createTask_logFiles hf' with hf' | ⟨-, hk'⟩
      · exact absurd (he ▸ hmem) (hold (hinv.files k' f' hf'))
      · rw [hk, hk', he]
  · intro c row hrow htype
    rcases hadds.adds c row hrow with hrow | ⟨-, hrun⟩
    · obtain ⟨hused, hquiet⟩ := hinv.stopped c row hrow htype
      refine ⟨List.mem_append_right _ hused, fun k f hf he => ?_⟩
      rcases createTask_logFiles hf with hf | ⟨hmem, -⟩
      · exact hquiet k f hf he
      · exact absurd hmem (hold (he ▸ hused))
    · rw [hrun.1] at htype
      cases htype
  · intro c hc row hrow
    rcases hadds.adds c row hrow with hrow | ⟨hnewc, -⟩
    · have hne : row.taskId ≠ t := fun heq => hfresh (heq ▸ hinv.used c row hrow)
      have hsame : (s.db.createTask now t task taskType payload nodes).taskStatus row.taskId =
          s.db.taskStatus row.taskId := (hstatus row.taskId).trans (if_neg hne)
      show ((s.db.createTask now t task taskType payload nodes).taskStatus row.taskId).all _ = true
      rw [hsame]
      exact hset.hard c hc row hrow
    · exact absurd hc (hset.spent.notMem hnewc)

end Create

/-! ### What the transactions do not see -/

/-- A command that could be dispatched is not settled. -/
theorem Settled.notMem (hset : Settled gone s) {c : CommandId} {row : CommandOutbox}
    (hrow : s.db.outbox.get c = some row) (hun : row.status.unresolved = true) : c ∉ gone := by
  intro hc
  rw [ServerDb.spent_resolved (hset.spent.rows c hc row hrow)] at hun
  cases hun

theorem unresolved_of_dispatchable {status : OutboxStatus} (h : status.dispatchable = true) :
    status.unresolved = true := by
  cases status with
  | pending | failedRetryable => rfl
  | dispatching | sent | failed | canceled => cases h

theorem dispatchBatch_without (hset : Settled gone s) (limit : Nat) :
    (s.db.without gone).dispatchBatch limit = s.db.dispatchBatch limit := by
  have hrows : (s.db.outbox.without gone).rows.filter (fun r => r.2.status.dispatchable) =
      s.db.outbox.rows.filter fun r => r.2.status.dispatchable := by
    refine Table.filter_without fun c hc row hrow => ?_
    rw [← Bool.not_eq_true]
    exact fun hdisp => hset.notMem hrow (unresolved_of_dispatchable hdisp) hc
  unfold ServerDb.dispatchBatch
  exact congrArg _ hrows

/-- The row of a command that can be dispatched. -/
theorem dispatchable_without (hset : Settled gone s) (c : CommandId) :
    (((s.without gone).db.outbox.get c).filter fun row => row.status.dispatchable) =
      (s.db.outbox.get c).filter fun row => row.status.dispatchable := by
  show (((s.db.outbox.without gone).get c).filter _) = _
  rw [Table.get_without]
  split
  · rename_i hc
    refine (Option.filter_eq_none_iff.mpr fun row hrow hdisp => ?_).symm
    exact hset.notMem hrow (unresolved_of_dispatchable hdisp) hc
  · rfl

section Delivering

variable {c : CommandId} (row : CommandOutbox) (task : Option TaskStatus) (giveUp : Bool)
  (now : Time) (msg : Option MessageId)

theorem blind_failRun : ServerDb.Blind gone fun db => db.failRun now row :=
  .ite (.failExecutionDispatchTimeout now row.taskId row.executionId) .id fun _ _ => Iff.rfl

/-- The attempt to deliver a row that is not settled. -/
theorem tryDispatch_without (hc : c ∉ gone) {db : ServerDb} (hdb : db.Spent gone) :
    (db.without gone).tryDispatch c row task giveUp now msg =
        { db.tryDispatch c row task giveUp now msg with
          db := (db.tryDispatch c row task giveUp now msg).db.without gone } ∧
      (db.tryDispatch c row task giveUp now msg).db.Spent gone := by
  have hwrite : ∀ new : CommandOutbox, (db.without gone).updateOutbox c (fun _ => new) =
      (db.updateOutbox c fun _ => new).without gone ∧
        (db.updateOutbox c fun _ => new).Spent gone := by
    intro new
    have hblind : ServerDb.Blind gone fun db => db.updateOutbox c fun _ => new := .updateOutbox hc _
    exact ⟨hblind.comm db hdb, hblind.spent db hdb⟩
  unfold ServerDb.tryDispatch
  cases planDispatch row task with
  | sent => exact ⟨rfl, hdb⟩
  | canceled => exact ⟨rfl, hdb⟩
  | notDispatchable =>
      dsimp only
      rw [(hwrite _).1]
      exact ⟨rfl, (hwrite _).2⟩
  | send =>
      dsimp only
      rw [(hwrite _).1]
      exact ⟨rfl, (hwrite _).2⟩

theorem processRow_without (hc : c ∉ gone) {db : ServerDb} (hdb : db.Spent gone) :
    (db.without gone).processRow c row now msg =
        { db.processRow c row now msg with
          db := (db.processRow c row now msg).db.without gone } ∧
      (db.processRow c row now msg).db.Spent gone := by
  have hfail : ServerDb.Blind gone fun db => db.failRun now row := blind_failRun row now
  unfold ServerDb.processRow
  by_cases hlate : row.pastDeadline now = true
  · have hgiven : ServerDb.Blind gone fun db => (db.updateOutbox c fun _ => row.giveUp now).failRun
        now row := (ServerDb.Blind.updateOutbox hc _).comp hfail
    rw [if_pos hlate, if_pos hlate]
    refine ⟨?_, hgiven.spent db hdb⟩
    rw [← hgiven.comm db hdb]
  · rw [if_neg hlate, if_neg hlate]
    obtain ⟨htry, hspent⟩ := tryDispatch_without row (db.taskStatus row.taskId) false now msg hc hdb
    have htask : (db.without gone).taskStatus row.taskId = db.taskStatus row.taskId := rfl
    dsimp only
    rw [htask, htry]
    dsimp only
    split
    · refine ⟨?_, hfail.spent _ hspent⟩
      rw [← hfail.comm _ hspent]
    · exact ⟨rfl, hspent⟩

end Delivering

/-! Sent rows. -/

/-- A settled command has no active task. -/
theorem Settled.not_sentActive (hset : Settled gone s) {c : CommandId} (hc : c ∈ gone)
    {row : CommandOutbox} (hrow : s.db.outbox.get c = some row) :
    s.db.sentActive (c, row) = false := by
  have hhard := hset.hard c hc row hrow
  unfold ServerDb.sentActive
  rcases hst : s.db.taskStatus row.taskId with - | st
  · simp
  · rw [hst] at hhard
    have hover : st.active = false := by
      cases st with
      | complete | failed | canceled | noTarget => rfl
      | queued | running | finalizing | lost => cases hhard
    simp [hover]

theorem sentPage_without (hset : Settled gone s) (batch : Nat) (cursor : Option SentKey)
    (hwm : Time) :
    (s.db.without gone).sentPage batch cursor hwm = s.db.sentPage batch cursor hwm := by
  have hrows : (s.db.without gone).sentAfter cursor hwm = s.db.sentAfter cursor hwm := by
    refine Table.filter_without fun c hc row hrow => ?_
    have hinactive : (s.db.without gone).sentActive (c, row) = false := hset.not_sentActive hc hrow
    rw [hinactive, Bool.false_and]
  unfold ServerDb.sentPage
  rw [hrows]

theorem sentPage_sentActive {db : ServerDb} {batch : Nat} {cursor : Option SentKey} {hwm : Time}
    {r : CommandId × CommandOutbox} (hr : r ∈ db.sentPage batch cursor hwm) :
    db.outbox.get r.1 = some r.2 ∧ db.sentActive r = true := by
  obtain ⟨hmem, hactive⟩ := List.mem_filter.mp (Paging.mem_of_mem_page hr)
  exact ⟨Table.mem_rows_iff.mp hmem, (Bool.and_eq_true_iff.mp hactive).1⟩

/-- Commands that are not settled are requeued. -/
theorem requeueSent_without {db : ServerDb} (hdb : db.Spent gone) (now stamp : Time)
    {ids : List CommandId} (hids : ∀ c ∈ gone, c ∉ ids) :
    (db.without gone).requeueSent now stamp ids = (db.requeueSent now stamp ids).without gone ∧
      (db.requeueSent now stamp ids).Spent gone := by
  constructor
  · unfold ServerDb.requeueSent ServerDb.without
    dsimp only
    rw [Table.updateAll_without]
  · refine ⟨hdb.issued, fun c hc row hrow => hdb.rows c hc row ?_⟩
    have hrow : (db.outbox.updateAll _).get c = some row := hrow
    rw [Table.get_updateAll] at hrow
    obtain ⟨old, hold, rfl⟩ := Option.map_eq_some_iff.mp hrow
    rw [if_neg (hids c hc)]
    exact hold

/-- **A call of the reconcile of sent commands.** -/
theorem reconcileSentOnce_without (hset : Settled gone s) (cfg : SentReconcileSettings)
    (now stamp : Time) (redis : Bool) (xrange : CommandId → XRange) (sweep : SentSweep) :
    reconcileSentOnce cfg now stamp redis xrange sweep (s.db.without gone) =
        { reconcileSentOnce cfg now stamp redis xrange sweep s.db with
          db := (reconcileSentOnce cfg now stamp redis xrange sweep s.db).db.without gone } ∧
      (reconcileSentOnce cfg now stamp redis xrange sweep s.db).db.Spent gone := by
  have hstatus : ∀ t, (s.db.without gone).taskStatus t = s.db.taskStatus t := fun _ => rfl
  have hpage := sentPage_without hset
  have hrequeue : ∀ (rows : List (CommandId × CommandOutbox))
      (p : CommandId × CommandOutbox → Bool),
      (∀ r ∈ rows, s.db.outbox.get r.1 = some r.2 ∧ s.db.sentActive r = true) →
      ∀ c ∈ gone, c ∉ (rows.filter p).map Prod.fst := by
    intro rows p hrows c hc hmem
    obtain ⟨r, hr, rfl⟩ := List.mem_map.mp hmem
    obtain ⟨hget, hactive⟩ := hrows r (List.mem_filter.mp hr).1
    rw [hset.not_sentActive hc hget] at hactive
    cases hactive
  unfold reconcileSentOnce
  simp only [hpage, hstatus]
  generalize sweep.resume (cfg.cutoff now) = start
  obtain ⟨hcomm, hspent⟩ := requeueSent_without hset.spent now stamp (hrequeue
    (if ((s.db.sentPage cfg.batch start.1 start.2).isEmpty && start.1.isSome) = true then
      s.db.sentPage cfg.batch none (cfg.cutoff now) else s.db.sentPage cfg.batch start.1 start.2)
    (fun r => (s.db.taskStatus r.2.taskId).any (fun status => !status.terminal)
      && r.2.redisMsgId.isSome && redis && xrange r.1 == .missing) fun r hr => by
        split at hr
        · exact sentPage_sentActive hr
        · exact sentPage_sentActive hr)
  rw [hcomm]
  exact ⟨rfl, hspent⟩

/-! Retention. -/

theorem blind_expireLogs (ids : List TaskId) :
    ServerDb.Blind gone fun db => db.expireLogs ids :=
  .of_frame (fun _ => rfl) (fun _ => rfl) fun _ => rfl

theorem blind_deleteTasks (ids : List TaskId) :
    ServerDb.Blind gone fun db => db.deleteTasks ids where
  comm db _ := by
    unfold ServerDb.deleteTasks ServerDb.without
    dsimp only
    rw [Table.filter_rows_without]
  spent db hdb := by
    refine ⟨hdb.issued, fun c hc row hrow => hdb.rows c hc row ?_⟩
    have hrow : (db.outbox.filter _).get c = some row := hrow
    rw [Table.get_filter, Option.filter_eq_some_iff] at hrow
    exact hrow.1

/-- **Another pruning** deletes the same of what is left. -/
theorem doomed_without {db : ServerDb} (hdb : db.Spent gone) (cutoff : Time)
    (ids : List CommandId) :
    (db.without gone).without (State.doomed (db.without gone) cutoff ids) =
        (db.without (State.doomed db cutoff ids)).without gone ∧
      (db.without (State.doomed db cutoff ids)).Spent gone := by
  constructor
  · show { db with outbox := (db.outbox.without gone).without _ } =
      { db with outbox := (db.outbox.without _).without gone }
    congr 1
    rw [Table.without_without, Table.without_without]
    refine Table.without_congr _ fun c row hrow => ?_
    rw [List.mem_append, List.mem_append]
    by_cases hc : c ∈ gone
    · simp [hc]
    · have hget : (db.without gone).outbox.get c = db.outbox.get c :=
        Table.get_without_of_notMem _ hc
      have hprunable : ∀ row, (db.without gone).prunable cutoff (c, row) =
          db.prunable cutoff (c, row) := fun _ => rfl
      unfold State.doomed
      rw [List.mem_filter, List.mem_filter, hget]
      simp only [hprunable, hc, false_or, or_false]
  · refine ⟨hdb.issued, fun c hc row hrow => hdb.rows c hc row ?_⟩
    have hrow : (db.outbox.without _).get c = some row := hrow
    rw [Table.get_without] at hrow
    split at hrow
    · cases hrow
    · exact hrow

/-! Increments. -/

/-- No command has stopped the log of the execution. -/
theorem createStopLogsOutbox_of_none (db : ServerDb) {e : ExecutionId} (now : Time) (t : TaskId)
    (agent : AgentId) (h : ∀ c row, db.outbox.get c = some row → row.executionId = e →
      row.type ≠ .stopLogs) :
    db.createStopLogsOutbox now t e agent = db.createPlainOutbox now .stopLogs none t e agent := by
  unfold ServerDb.createStopLogsOutbox
  rw [if_neg]
  rw [Bool.not_eq_true, List.any_eq_false]
  intro r hr hmatch
  simp only [Bool.and_eq_true, decide_eq_true_eq] at hmatch
  exact h r.1 r.2 (Table.mem_rows_iff.mp hr) hmatch.1.1 hmatch.1.2

/-- **The duplicate check at a truncation finds nothing**: the log file was written
to until now. -/
theorem Inv.not_stopped (hinv : Inv s) {k : LogKey} {f : ExecutionLogFile}
    (hf : s.db.logFiles.get k = some f) (hopen : quiet f = false) :
    ∀ c row, s.db.outbox.get c = some row → row.executionId = k.executionId →
      row.type ≠ .stopLogs := by
  intro c row hrow he htype
  have hquiet := (hinv.stopped c row hrow htype).2 k f hf he.symm
  rw [hopen] at hquiet
  cases hquiet

/-- **An increment**: the same without the settled commands, and it keeps what
holds of the tables. -/
theorem applyIncrement_spec (hinv : Inv s) (hset : Settled gone s) (cfg : LogsSettings)
    (fault : LogFault) (ev : AgentLogEvent) (now : Time) (queues : Bool) :
    let s' := s.applyIncrement cfg fault ev now queues
    (s.without gone).applyIncrement cfg fault ev now queues = s'.without gone ∧
      s'.db.Spent gone ∧ ∃ es, Follows es s.db s'.db ∧
        ∀ e, es = some e → e ∈ s.usedExecutions ∧ Quiet s'.db e := by
  have hserver : (s.without gone).logServer = s.logServer := rfl
  have hgauge : s.logServer.gauge.isSome = true := rfl
  have hcases := applyLogEvent_cases cfg fault ev hgauge
  unfold State.applyIncrement
  rw [hserver]
  dsimp only at hcases ⊢
  generalize applyLogEvent cfg fault ev s.logServer = applied at hcases ⊢
  rcases hcases with ⟨g, hg, hrows, halert⟩ | ⟨f, row, hf, hopen, hrows, halert⟩
  · rw [halert]
    refine ⟨rfl, hset.spent.of_outbox rfl rfl, none, .of_files rfl rfl rfl ?_, by simp⟩
    exact .of_modify hrows fun f hf => (hg f).trans hf
  · have hfiles : ∀ db : ServerDb, db.logFiles = applied.1.rows → FilesKept s.db db := by
      intro db hdb k f' hf'
      rw [hdb, hrows, Table.get_modify] at hf'
      by_cases hk : k = ev.key
      · have hf : s.db.logFiles.get ev.key = some f := hf
        refine ⟨f, hk ▸ hf, fun hquiet => ?_⟩
        rw [hopen] at hquiet
        cases hquiet
      · rw [if_neg hk] at hf'
        exact ⟨f', hf', id⟩
    rcases hcut : State.alerted applied.2 with - | alert
    · exact ⟨rfl, hset.spent.of_outbox rfl rfl, none, .of_files rfl rfl rfl (hfiles _ rfl), by simp⟩
    · obtain ⟨-, he, hquiet⟩ := halert alert hcut
      have hstopped := hinv.not_stopped (k := ev.key) hf hopen
      -- the execution has this one log file, and it is cut now
      have hnow : ∀ db : ServerDb, db.logFiles = applied.1.rows → Quiet db alert.executionId := by
        intro db hdb k f' hf' hk
        obtain ⟨f₀, hf₀, -⟩ := hfiles db hdb k f' hf'
        obtain rfl := hinv.one k f₀ ev.key f hf₀ hf (hk.trans he)
        have hf : s.logServer.rows.get ev.key = some f := hf
        rw [hdb, hrows, Table.get_modify, if_pos rfl, hf] at hf'
        obtain rfl := Option.some.inj hf'
        exact hquiet
      have hused : alert.executionId ∈ s.usedExecutions := by
        rw [he]
        exact hinv.files ev.key f hf
      dsimp only [State.onTruncated]
      cases queues with
      | false =>
          exact ⟨rfl, hset.spent.of_outbox rfl rfl, none,
            .of_files rfl rfl rfl (hfiles _ rfl), by simp⟩
      | true =>
          rw [if_pos rfl, if_pos rfl]
          have hnone : ∀ c row, s.db.outbox.get c = some row → row.executionId = alert.executionId →
              row.type ≠ .stopLogs := fun c row hrow hrowe => hstopped c row hrow (hrowe.trans he)
          have hspent : ServerDb.Spent { s.db with logFiles := applied.1.rows } gone :=
            hset.spent.of_outbox rfl rfl
          have hadd : ServerDb.Blind gone fun db => db.createPlainOutbox now .stopLogs none
              alert.taskId alert.executionId alert.agentId :=
            .createPlainOutbox now .stopLogs none alert.taskId alert.executionId alert.agentId
          have hplain := createStopLogsOutbox_of_none { s.db with logFiles := applied.1.rows } now
            alert.taskId alert.agentId hnone
          have hplain' := createStopLogsOutbox_of_none
            { (s.without gone).db with logFiles := applied.1.rows } now alert.taskId alert.agentId
            (e := alert.executionId) fun c row hrow => by
              have hrow : (s.db.outbox.without gone).get c = some row := hrow
              rw [Table.get_without] at hrow
              split at hrow
              · cases hrow
              · exact hnone c row hrow
          rw [hplain, hplain']
          refine ⟨?_, hadd.spent _ hspent, some alert.executionId, ?_, fun e hes => ?_⟩
          · have hcomm := hadd.comm _ hspent
            unfold State.without
            dsimp only
            rw [← hcomm]
            rfl
          · have hfirst : Follows (some alert.executionId) s.db
                { s.db with logFiles := applied.1.rows } := .of_files rfl rfl rfl (hfiles _ rfl)
            exact hfirst.trans (.of_adds (.of_addOutbox fun _ => rfl) (.of_tasks rfl)
              (.of_logFiles rfl))
          · obtain rfl := Option.some.inj hes
            exact ⟨hused, hnow _ rfl⟩

/-! ### The step -/

/-- A transaction, apart from the creation of a task, is followed by tables that
keep what holds. -/
theorem act_follows (hinv : Inv s) (hset : Settled gone s) {s' : State}
    (hact : s.act a = some (s', out))
    (hcreate : ∀ now t task taskType payload nodes, a ≠ .create now t task taskType payload nodes) :
    s'.usedTasks = s.usedTasks ∧ s'.usedExecutions = s.usedExecutions ∧ s'.db.Spent gone ∧
      ∃ es, Follows es s.db s'.db ∧ ∀ e, es = some e → e ∈ s.usedExecutions ∧ Quiet s'.db e := by
  have hspent := hset.spent
  -- a transaction that stops no log
  have hplain : ∀ {db : ServerDb}, Follows none s.db db → ∃ es, Follows es s.db db ∧
      ∀ e, es = some e → e ∈ s.usedExecutions ∧ Quiet db e := fun h => ⟨none, h, by simp⟩
  cases a with
  | event now ev msg =>
      obtain ⟨rfl, -⟩ := Prod.mk.inj (Option.some.inj hact)
      exact ⟨rfl, rfl, hspent.applyEvent now ev msg, hplain (.applyEvent ..)⟩
  | increment cfg fault ev now queues =>
      obtain ⟨rfl, -⟩ := Prod.mk.inj (Option.some.inj hact)
      exact ⟨rfl, rfl, (applyIncrement_spec hinv hset cfg fault ev now queues).2⟩
  | reconcile settings held now lastSeen e x =>
      obtain ⟨rfl, -⟩ := Prod.mk.inj (Option.some.inj hact)
      exact ⟨rfl, rfl, (ServerDb.Blind.reconcileExecution ..).spent _ hspent,
        hplain (.reconcileExecution ..)⟩
  | repair settings held now t =>
      obtain ⟨rfl, -⟩ := Prod.mk.inj (Option.some.inj hact)
      exact ⟨rfl, rfl, (ServerDb.Blind.repairOrphanedTask ..).spent _ hspent,
        hplain (.repairOrphanedTask ..)⟩
  | lose now t =>
      obtain ⟨rfl, -⟩ := Prod.mk.inj (Option.some.inj hact)
      exact ⟨rfl, rfl, (ServerDb.Blind.markTaskLost ..).spent _ hspent, hplain (.markTaskLost ..)⟩
  | finalize drain now =>
      obtain ⟨rfl, -⟩ := Prod.mk.inj (Option.some.inj hact)
      exact ⟨rfl, rfl, (ServerDb.Blind.finalizeDrainedLogs ..).spent _ hspent,
        hplain (.finalizeDrainedLogs ..)⟩
  | record settings limit now =>
      obtain ⟨rfl, -⟩ := Prod.mk.inj (Option.some.inj hact)
      exact ⟨rfl, rfl, (ServerDb.Blind.recordTaskOutcomes ..).spent _ hspent,
        hplain (.recordTaskOutcomes ..)⟩
  | create now t task taskType payload nodes =>
      exact absurd rfl (hcreate now t task taskType payload nodes)
  | unavailable held now t =>
      obtain ⟨rfl, -⟩ := Prod.mk.inj (Option.some.inj hact)
      exact ⟨rfl, rfl, (ServerDb.Blind.failDispatchUnavailable ..).spent _ hspent,
        hplain (.failDispatchUnavailable ..)⟩
  | cancel now t =>
      obtain ⟨rfl, -⟩ := Prod.mk.inj (Option.some.inj hact)
      exact ⟨rfl, rfl, (ServerDb.Blind.requestCancel ..).spent _ hspent, hplain (.requestCancel ..)⟩
  | process c now msg =>
      obtain ⟨row, hrow, heq⟩ := Option.map_eq_some_iff.mp hact
      obtain ⟨rfl, -⟩ := Prod.mk.inj heq
      obtain ⟨hget, hdisp⟩ := Option.filter_eq_some_iff.mp hrow
      have hc := hset.notMem hget (unresolved_of_dispatchable hdisp)
      exact ⟨rfl, rfl, (processRow_without _ _ _ hc hspent).2, hplain (.processRow hget ..)⟩
  | deliver executor c now msg =>
      obtain ⟨row, hrow, heq⟩ := Option.map_eq_some_iff.mp hact
      obtain ⟨rfl, -⟩ := Prod.mk.inj heq
      obtain ⟨hget, hdisp⟩ := Option.filter_eq_some_iff.mp hrow
      have hc := hset.notMem hget (unresolved_of_dispatchable hdisp)
      exact ⟨rfl, rfl, (tryDispatch_without _ _ _ _ _ hc hspent).2, hplain (.tryDispatch hget ..)⟩
  | resend cfg now stamp redis xrange =>
      obtain ⟨rfl, -⟩ := Prod.mk.inj (Option.some.inj hact)
      exact ⟨rfl, rfl, (reconcileSentOnce_without hset cfg now stamp redis xrange s.sweep).2,
        hplain (.reconcileSentOnce ..)⟩
  | expire ids =>
      obtain ⟨rfl, -⟩ := Prod.mk.inj (Option.some.inj hact)
      exact ⟨rfl, rfl, (blind_expireLogs ids).spent _ hspent, hplain (.expireLogs ..)⟩
  | delete ids =>
      obtain ⟨rfl, -⟩ := Prod.mk.inj (Option.some.inj hact)
      exact ⟨rfl, rfl, (blind_deleteTasks ids).spent _ hspent, hplain (.deleteTasks ..)⟩
  | cut k size =>
      obtain ⟨rfl, -⟩ := Prod.mk.inj (Option.some.inj hact)
      exact ⟨rfl, rfl, hspent.of_outbox rfl rfl, hplain (.of_files rfl rfl rfl
        (.of_modify rfl fun f hf => quiet_cutLog hf size))⟩
  | pruneAudits msgs =>
      obtain ⟨rfl, -⟩ := Prod.mk.inj (Option.some.inj hact)
      exact ⟨rfl, rfl, hspent.of_outbox rfl rfl, hplain (.of_files rfl rfl rfl (.of_logFiles rfl))⟩
  | prune cutoff ids =>
      obtain ⟨rfl, -⟩ := Prod.mk.inj (Option.some.inj hact)
      exact ⟨rfl, rfl, (doomed_without hspent cutoff ids).2, hplain (.without ..)⟩
  | disk bodies gauge =>
      obtain ⟨rfl, -⟩ := Prod.mk.inj (Option.some.inj hact)
      exact ⟨rfl, rfl, hspent, hplain (.refl _)⟩
  | backlog | reclaimed | load | select | sweepStreams =>
      obtain ⟨rfl, -⟩ := Prod.mk.inj (Option.some.inj hact)
      exact ⟨rfl, rfl, hspent, hplain (.refl _)⟩

/-- **The step** keeps the invariant, and what is settled is settled still. -/
theorem step_keeps (hinv : Inv s) (hset : Settled gone s) (hstep : step s a = some s') :
    Inv s' ∧ Settled gone s' := by
  obtain ⟨⟨s₁, out⟩, hact, rfl⟩ := Option.map_eq_some_iff.mp hstep
  by_cases hcreate : ∀ now t task taskType payload nodes,
      a ≠ .create now t task taskType payload nodes
  · obtain ⟨htasks, hexecs, hspent, es, hfollows, hstops⟩ := act_follows hinv hset hact hcreate
    exact ⟨hinv.follows hfollows hstops htasks hexecs, hset.follows hfollows hspent⟩
  · push Not at hcreate
    obtain ⟨now, t, task, taskType, payload, nodes, rfl⟩ := hcreate
    simp only [State.act] at hact
    split at hact
    · rename_i hguard
      obtain ⟨⟨htask, hfresh⟩, hnodes, hnodup⟩ := hguard
      obtain ⟨rfl, -⟩ := Prod.mk.inj (Option.some.inj hact)
      exact hinv.create hset (Option.isNone_iff_eq_none.mp htask) hfresh
        (fun n hn => Option.isNone_iff_eq_none.mp (hnodes n hn).1)
        (fun n hn => (hnodes n hn).2) hnodup
    · cases hact

/-- Is the action a call of `delete_stale_command_streams`? -/
def Action.sweeps : Action → Bool
  | .sweepStreams .. => true
  | _ => false

/-- **No transaction sees the settled commands**, other than the sweep of streams. -/
theorem act_without (hinv : Inv s) (hset : Settled gone s) (ha : a.sweeps = false) :
    (s.without gone).act a = (s.act a).map fun r => (r.1.without gone, r.2) := by
  have hspent := hset.spent
  -- a transaction that writes the tables, and puts nothing out
  have hblind : ∀ {f : ServerDb → ServerDb}, ServerDb.Blind gone f →
      some ({ s.without gone with db := f (s.db.without gone) }, Output.done) =
        some ({ s with db := f s.db }.without gone, Output.done) := by
    intro f hf
    rw [hf.comm s.db hspent]
    rfl
  cases a with
  | event now ev msg =>
      have happly := ServerDb.applyEvent_without now ev msg hspent
      show some ({ s.without gone with db := ((s.db.without gone).applyEvent now ev msg).1 },
        Output.event ((s.db.without gone).applyEvent now ev msg).2) = _
      rw [happly]
      rfl
  | increment cfg fault ev now queues =>
      show some ((s.without gone).applyIncrement cfg fault ev now queues, _) = _
      rw [(applyIncrement_spec hinv hset cfg fault ev now queues).1]
      rfl
  | reconcile settings held now lastSeen e x => exact hblind (.reconcileExecution ..)
  | repair settings held now t => exact hblind (.repairOrphanedTask ..)
  | lose now t => exact hblind (.markTaskLost ..)
  | finalize drain now => exact hblind (.finalizeDrainedLogs ..)
  | record settings limit now => exact hblind (.recordTaskOutcomes ..)
  | create now t task taskType payload nodes =>
      have hblindly : ServerDb.Blind gone fun db =>
          db.createTask now t task taskType payload nodes :=
        .createTask now t task taskType payload nodes
      have hcreate := hblindly.comm s.db hspent
      have hrun : (s.without gone).act (.create now t task taskType payload nodes) =
          if ((s.db.tasks.get t).isNone ∧ t ∉ s.usedTasks)
              ∧ (∀ n ∈ nodes, (s.db.executions.get n.1).isNone ∧ n.1 ∉ s.usedExecutions)
              ∧ (nodes.map Prod.fst).Nodup then
            some ({ s with
              db := (s.db.createTask now t task taskType payload nodes).without gone
              usedTasks := t :: s.usedTasks
              usedExecutions := nodes.map Prod.fst ++ s.usedExecutions }, .done)
          else none := by
        rw [← hcreate]
        rfl
      rw [hrun]
      simp only [State.act]
      split
      · rfl
      · rfl
  | unavailable held now t => exact hblind (.failDispatchUnavailable ..)
  | cancel now t => exact hblind (.requestCancel ..)
  | backlog sid =>
      show some (s.without gone,
        Output.backlog ((s.db.without gone).hasUndispatchedBacklog sid)) = _
      rw [ServerDb.hasUndispatchedBacklog_without hspent]
      rfl
  | reclaimed e =>
      show some (s.without gone, Output.reclaimed ((s.db.without gone).reclaimEverIssued e)) = _
      rw [ServerDb.reclaimEverIssued_without hspent]
      rfl
  | load limit =>
      show some (s.without gone, Output.rows ((s.db.without gone).dispatchBatch limit)) = _
      rw [dispatchBatch_without hset]
      rfl
  | process c now msg =>
      simp only [State.act]
      rw [dispatchable_without hset, Option.map_map]
      refine Option.map_congr fun row hrow => ?_
      obtain ⟨hget, hdisp⟩ := Option.filter_eq_some_iff.mp hrow
      have hc := hset.notMem hget (unresolved_of_dispatchable hdisp)
      have hdone := (processRow_without row now msg hc hspent).1
      show ({ s.without gone with db := ((s.db.without gone).processRow c row now msg).db },
        Output.dispatched ((s.db.without gone).processRow c row now msg).outcome
          ((s.db.without gone).processRow c row now msg).command) = _
      rw [hdone]
      rfl
  | deliver executor c now msg =>
      simp only [State.act]
      rw [dispatchable_without hset, Option.map_map]
      refine Option.map_congr fun row hrow => ?_
      obtain ⟨hget, hdisp⟩ := Option.filter_eq_some_iff.mp hrow
      have hc := hset.notMem hget (unresolved_of_dispatchable hdisp)
      have hdone := (tryDispatch_without row
        (if executor = true then some .queued else s.db.taskStatus row.taskId) executor now msg hc
        hspent).1
      have hstatus : (s.without gone).db.taskStatus row.taskId = s.db.taskStatus row.taskId := rfl
      have hdb : (s.without gone).db = s.db.without gone := rfl
      simp only [hstatus]
      rw [hdb, hdone]
      rfl
  | resend cfg now stamp redis xrange =>
      have hcall := (reconcileSentOnce_without hset cfg now stamp redis xrange s.sweep).1
      simp only [State.act]
      let call (db : ServerDb) := reconcileSentOnce cfg now stamp redis xrange s.sweep db
      show some ({ s.without gone with
          db := (call (s.db.without gone)).db, sweep := (call (s.db.without gone)).sweep },
        Output.resent (call (s.db.without gone)).rows (call (s.db.without gone)).requeued) = _
      dsimp only [call]
      rw [hcall]
      rfl
  | expire ids => exact hblind (blind_expireLogs ids)
  | delete ids => exact hblind (blind_deleteTasks ids)
  | prune cutoff ids =>
      show some ({ s.without gone with
        db := (s.db.without gone).without (State.doomed (s.db.without gone) cutoff ids) },
          Output.done) = _
      rw [(doomed_without hspent cutoff ids).1]
      rfl
  | select | cut | disk | pruneAudits => rfl
  | sweepStreams => cases ha

/-- New commands are not among the settled ones. -/
theorem note_without {db : ServerDb} (hdb : db.Spent gone) (s' : State) :
    (s'.without gone).note (db.without gone) = (s'.note db).without gone := by
  have hrows : Dispatch.State.newRows (db.without gone) (s'.db.without gone) =
      Dispatch.State.newRows db s'.db := by
    refine Table.filter_without fun c hc row _ => ?_
    rw [decide_eq_false_iff_not, ServerDb.without_nextCommand, Nat.not_le]
    exact hdb.issued c hc
  have hdb : (s'.without gone).db = s'.db.without gone := rfl
  unfold State.note
  rw [hdb, hrows]
  rfl

/-- **Deleting settled commands is transparent**, but for the sweep of streams. -/
theorem transparent (gone : List CommandId) :
    Transparent step output (fun s => Inv s ∧ Settled gone s) (fun a => a.sweeps = false)
      fun s => s.without gone where
  steps s a hs := by
    obtain ⟨hinv, hset⟩ := hs
    have hnote := note_without hset.spent
    show ((s.without gone).act a).map (fun r => r.1.note (s.db.without gone)) =
      ((s.act a).map fun r => r.1.note s.db).map fun s => s.without gone
    by_cases ha : a.sweeps = false
    · rw [act_without hinv hset ha, Option.map_map, Option.map_map]
      congr 1
      funext r
      exact hnote r.1
    · cases a with
      | sweepStreams days nodes now streams => exact congrArg some (hnote s)
      | _ => exact absurd rfl ha
  keeps s a s' hs hstep := step_keeps hs.1 hs.2 hstep
  output s a hs ha := by
    show ((s.without gone).act a).map Prod.snd = (s.act a).map Prod.snd
    rw [act_without hs.1 hs.2 ha, Option.map_map]
    rfl

/-- The invariant holds in every state reached. -/
theorem inv_of_run {gauge : LogsDirGauge} (hs : Run step (.start gauge) s) : Inv s := by
  refine hs.invariant (fun s a s' hinv _ hstep => ?_) (.start gauge)
  have hnone : Settled [] s := ⟨⟨by simp, by simp⟩, by simp⟩
  exact (step_keeps hinv hnone hstep).1

end Invariant

/-! ### The loop -/

section Loop

variable {order : ScanOrder} {cfg : PruneSettings} {now cutoff : Time} {db : ServerDb}
  {batch : Nat} {gone ids : List CommandId}

theorem mem_prunableRows {r : CommandId × CommandOutbox} :
    r ∈ db.prunableRows cutoff ↔
      db.outbox.get r.1 = some r.2 ∧ db.prunable cutoff r = true := by
  unfold ServerDb.prunableRows
  rw [List.mem_filter]
  exact and_congr_left' Table.mem_rows_iff

/-- What can be pruned when some of it is deleted. -/
theorem prunableRows_without (db : ServerDb) (gone : List CommandId) (cutoff : Time) :
    (db.without gone).prunableRows cutoff =
      (db.prunableRows cutoff).filter fun r => decide (r.1 ∉ gone) := by
  have hsame : (db.without gone).prunable cutoff = db.prunable cutoff := rfl
  unfold ServerDb.prunableRows
  rw [hsame]
  show (db.outbox.rows.filter _).filter _ = (db.outbox.rows.filter _).filter _
  rw [List.filter_filter, List.filter_filter]
  exact List.filter_congr fun r _ => Bool.and_comm ..

theorem nodup_prunableRows : ((db.prunableRows cutoff).map Prod.fst).Nodup :=
  db.outbox.nodup.sublist (List.filter_sublist.map _)

/-- The ids of a batch are new, distinct, and among those that can be pruned; if
they are fewer than a batch, they are all of them. -/
theorem batch_spec (order : ScanOrder) (batch : Nat) (db : ServerDb) (cutoff : Time) :
    let ids := ((order.scan (db.prunableRows cutoff)).take batch).map Prod.fst
    ids.Nodup ∧ (∀ c ∈ ids, c ∈ (db.prunableRows cutoff).map Prod.fst) ∧
      (ids.length < batch → ∀ c ∈ (db.prunableRows cutoff).map Prod.fst, c ∈ ids) := by
  have hperm := order.perm (db.prunableRows cutoff)
  refine ⟨?_, fun c hc => ?_, fun hshort c hc => ?_⟩
  · have hnodup := (hperm.map Prod.fst).nodup_iff.mpr nodup_prunableRows
    exact hnodup.sublist ((List.take_sublist _ _).map _)
  · obtain ⟨r, hr, rfl⟩ := List.mem_map.mp hc
    exact List.mem_map_of_mem (hperm.mem_iff.mp (List.mem_of_mem_take hr))
  · rw [List.length_map, List.length_take] at hshort
    rw [List.take_of_length_le (by omega)]
    exact (hperm.map Prod.fst).mem_iff.mpr hc

/-- So far these commands are deleted, and all of them were selected. -/
def Deleted (db : ServerDb) (cutoff : Time) (s : ServerDb × Nat) (gone : List CommandId) : Prop :=
  s = (db.without gone, gone.length) ∧ gone.Nodup ∧
    ∀ c ∈ gone, c ∈ (db.prunableRows cutoff).map Prod.fst

theorem Deleted.turn {s : ServerDb × Nat} (h : Deleted db cutoff s gone)
    (hids : ids = ((order.scan (s.1.prunableRows cutoff)).take batch).map Prod.fst) :
    Deleted db cutoff (s.1.without ids, s.2 + ids.length) (gone ++ ids) := by
  obtain ⟨rfl, hnodup, hgone⟩ := h
  obtain ⟨hdistinct, hmem, -⟩ := batch_spec order batch (db.without gone) cutoff
  subst hids
  have hfresh :
      ∀ c ∈ ((order.scan ((db.without gone).prunableRows cutoff)).take batch).map Prod.fst,
        c ∈ (db.prunableRows cutoff).map Prod.fst ∧ c ∉ gone := by
    intro c hc
    obtain ⟨r, hr, rfl⟩ := List.mem_map.mp (hmem c hc)
    rw [prunableRows_without, List.mem_filter, decide_eq_true_eq] at hr
    exact ⟨List.mem_map_of_mem hr.1, hr.2⟩
  refine ⟨Prod.ext ?_ List.length_append.symm, ?_, fun c hc => ?_⟩
  · show { db with outbox := (db.outbox.without gone).without _ } =
      { db with outbox := db.outbox.without _ }
    rw [Table.without_without]
  · rw [List.nodup_append]
    refine ⟨hnodup, hdistinct, fun c hc c' hc' heq => ?_⟩
    exact (hfresh c' hc').2 (heq ▸ hc)
  · rcases List.mem_append.mp hc with hc | hc
    · exact hgone c hc
    · exact (hfresh c hc).1

/-- A turn after which the loop goes on has deleted something. -/
theorem pruneTurn_lt {s m : ServerDb × Nat}
    (hturn : ServerDb.pruneTurn order batch cutoff s = (true, m)) :
    (m.1.prunableRows cutoff).length < (s.1.prunableRows cutoff).length := by
  unfold ServerDb.pruneTurn at hturn
  dsimp only at hturn
  split at hturn
  · cases hturn
  · rename_i hsome
    obtain ⟨-, rfl⟩ := Prod.mk.inj hturn
    obtain ⟨-, hmem, -⟩ := batch_spec order batch s.1 cutoff
    obtain ⟨c, hc⟩ := List.exists_mem_of_ne_nil _ hsome
    obtain ⟨r, hr, rfl⟩ := List.mem_map.mp (hmem c hc)
    rw [prunableRows_without]
    refine List.length_filter_lt_length_iff_exists.mpr ⟨r, hr, ?_⟩
    simpa using hc

/-- Behind the last turn nothing is left. -/
theorem Deleted.last {s t : ServerDb × Nat} (h : Deleted db (cfg.cutoff now) s gone)
    (hturn : ServerDb.pruneTurn order cfg.batch (cfg.cutoff now) s = (false, t)) :
    ∃ all, Deleted db (cfg.cutoff now) t all ∧
      ∀ c ∈ (db.prunableRows (cfg.cutoff now)).map Prod.fst, c ∈ all := by
  have hpos : 0 < cfg.batch := by
    unfold PruneSettings.batch
    omega
  have hleft : ∀ c ∈ (db.prunableRows (cfg.cutoff now)).map Prod.fst, c ∉ gone →
      c ∈ (s.1.prunableRows (cfg.cutoff now)).map Prod.fst := by
    intro c hc hnew
    obtain ⟨r, hr, rfl⟩ := List.mem_map.mp hc
    rw [h.1, prunableRows_without]
    exact List.mem_map_of_mem (List.mem_filter.mpr ⟨hr, decide_eq_true hnew⟩)
  obtain ⟨-, -, hshort⟩ := batch_spec order cfg.batch s.1 (cfg.cutoff now)
  unfold ServerDb.pruneTurn at hturn
  dsimp only at hturn
  split at hturn
  · rename_i hnone
    obtain ⟨-, rfl⟩ := Prod.mk.inj hturn
    rw [hnone] at hshort
    refine ⟨gone, h, fun c hc => ?_⟩
    by_contra hnew
    exact absurd (hshort hpos c (hleft c hc hnew)) List.not_mem_nil
  · obtain ⟨hend, rfl⟩ := Prod.mk.inj hturn
    refine ⟨_, h.turn rfl, fun c hc => ?_⟩
    by_cases hnew : c ∈ gone
    · exact List.mem_append_left _ hnew
    · refine List.mem_append_right _ (hshort ?_ c (hleft c hc hnew))
      exact Nat.lt_of_not_le (of_decide_eq_false hend)

/-- **The loop is left**, and then it has deleted what was selected. -/
theorem pruneResolvedOutbox_spec (order : ScanOrder) (cfg : PruneSettings) (now : Time)
    (db : ServerDb) :
    (0 < cfg.outboxRetentionDays →
      Loop.Runs (ServerDb.pruneTurn order cfg.batch (cfg.cutoff now)) (db, 0)
        (db.pruneResolvedOutbox order cfg now)) ∧
      db.pruneResolvedOutbox order cfg now =
        (db.without (db.selected cfg now), (db.selected cfg now).length) := by
  by_cases hdays : cfg.outboxRetentionDays ≤ 0
  · refine ⟨fun hpos => absurd hpos (by omega), ?_⟩
    unfold ServerDb.pruneResolvedOutbox ServerDb.selected
    rw [if_pos hdays, if_pos hdays]
    refine Prod.ext ?_ rfl
    show db = { db with outbox := db.outbox.without [] }
    rw [Table.without_of_free (by simp)]
  · have hruns : Loop.Runs (ServerDb.pruneTurn order cfg.batch (cfg.cutoff now)) (db, 0)
        (db.pruneResolvedOutbox order cfg now) := by
      unfold ServerDb.pruneResolvedOutbox
      rw [if_neg hdays]
      refine Loop.Runs.of_measure (P := fun _ => True)
        (fun s => (s.1.prunableRows (cfg.cutoff now)).length)
        (fun s m _ hturn => ⟨trivial, pruneTurn_lt hturn⟩) trivial ?_
      exact Nat.lt_succ_of_le (List.length_filter_le _ _)
    refine ⟨fun _ => hruns, ?_⟩
    have hstart : Deleted db (cfg.cutoff now) (db, 0) [] := by
      refine ⟨Prod.ext ?_ rfl, List.nodup_nil, by simp⟩
      show db = { db with outbox := db.outbox.without [] }
      rw [Table.without_of_free (by simp)]
    obtain ⟨s, ⟨gone, hgone⟩, hlast⟩ := hruns.invariant
      (P := fun s => ∃ gone, Deleted db (cfg.cutoff now) s gone) ⟨[], hstart⟩
      fun s m hs hturn => by
        obtain ⟨gone, hgone⟩ := hs
        unfold ServerDb.pruneTurn at hturn
        dsimp only at hturn
        split at hturn
        · cases hturn
        · obtain ⟨-, rfl⟩ := Prod.mk.inj hturn
          exact ⟨_, hgone.turn rfl⟩
    obtain ⟨all, ⟨hdb, hnodup, honly⟩, hall⟩ := hgone.last hlast
    rw [hdb]
    unfold ServerDb.selected
    rw [if_neg hdays]
    have hperm : all.Perm ((db.prunableRows (cfg.cutoff now)).map Prod.fst) :=
      (List.perm_ext_iff_of_nodup hnodup nodup_prunableRows).mpr fun c => ⟨honly c, hall c⟩
    refine Prod.ext ?_ hperm.length_eq
    show { db with outbox := db.outbox.without _ } = { db with outbox := db.outbox.without _ }
    rw [Table.without_congr _ fun c row _ => hperm.mem_iff]

end Loop

/-! ### Later runs -/

/-- Whatever the system does later, it does without these commands as well, and the
actions that `seen` names put out the same. -/
def Unobservable (seen : Action → Prop) (s : State) (gone : List CommandId) : Prop :=
  ∀ as, runList step (s.without gone) as = (runList step s as).map (fun s => s.without gone) ∧
    ∀ s', runList step s as = some s' → ∀ a, seen a → output (s'.without gone) a = output s' a

/-- What a pruning selects is settled for good. -/
theorem settled_of_selected {s : State} (hinv : Inv s) {cfg : PruneSettings} {now : Time}
    {gone : List CommandId} (h : ∀ c ∈ gone, c ∈ s.db.selected cfg now) : Settled gone s := by
  have hrow : ∀ c ∈ gone, ∀ row, s.db.outbox.get c = some row →
      s.db.prunable (cfg.cutoff now) (c, row) = true := by
    intro c hc row hrow
    have hmem := h c hc
    unfold ServerDb.selected at hmem
    split at hmem
    · cases hmem
    · obtain ⟨r, hr, rfl⟩ := List.mem_map.mp hmem
      obtain ⟨hget, hprunable⟩ := mem_prunableRows.mp hr
      rw [hrow] at hget
      obtain rfl := Option.some.inj hget
      exact hprunable
  refine ⟨⟨fun c hc => ?_, fun c hc row hget => ?_⟩, fun c hc row hget => ?_⟩
  · have hmem := h c hc
    unfold ServerDb.selected at hmem
    split at hmem
    · cases hmem
    · obtain ⟨r, hr, rfl⟩ := List.mem_map.mp hmem
      exact hinv.issued r.1 r.2 (mem_prunableRows.mp hr).1
  · have hprunable := hrow c hc row hget
    unfold ServerDb.prunable at hprunable
    simp only [Bool.and_eq_true] at hprunable
    obtain ⟨⟨⟨hresolved, -⟩, hreclaim⟩, -⟩ := hprunable
    have hun : row.status.unresolved = false := by
      cases hst : row.status with
      | sent | failed | canceled => rfl
      | pending | dispatching | failedRetryable =>
          rw [hst] at hresolved
          cases hresolved
    unfold CommandOutbox.spent
    rw [hun, hreclaim]
    rfl
  · have hprunable := hrow c hc row hget
    unfold ServerDb.prunable at hprunable
    simp only [Bool.and_eq_true] at hprunable
    have htask := hprunable.2
    rcases hst : s.db.taskStatus row.taskId with - | st
    · rfl
    · rw [hst] at htask
      cases st with
      | complete | failed | canceled | noTarget => rfl
      | queued | running | finalizing | lost => cases htask

/-- **Pruning the outbox is unobservable**, but for the sweep of the streams of
retired agents.  The loop ends, and has deleted what was selected; whatever part
of it is deleted, every later run is the same without it, and so is what it puts
out. -/
theorem unobservable (order : ScanOrder) (cfg : PruneSettings) (now : Time)
    {gauge : LogsDirGauge} {s : State} (hs : Run step (.start gauge) s) :
    (0 < cfg.outboxRetentionDays →
      Loop.Runs (ServerDb.pruneTurn order cfg.batch (cfg.cutoff now)) (s.db, 0)
        (s.db.pruneResolvedOutbox order cfg now)) ∧
      s.db.pruneResolvedOutbox order cfg now =
        (s.db.without (s.db.selected cfg now), (s.db.selected cfg now).length) ∧
      ∀ gone, (∀ c ∈ gone, c ∈ s.db.selected cfg now) →
        Unobservable (fun a => a.sweeps = false) s gone := by
  obtain ⟨hruns, hresult⟩ := pruneResolvedOutbox_spec order cfg now s.db
  refine ⟨hruns, hresult, fun gone hgone as => ?_⟩
  have hinv := inv_of_run hs
  have hset := settled_of_selected hinv hgone
  refine ⟨((transparent gone).runList ⟨hinv, hset⟩ as).1, fun s' hrun a ha => ?_⟩
  exact (transparent gone).output_runList ⟨hinv, hset⟩ hrun ha

/-! A run of one execution, whose agent then retires. -/

def sampleRun : List Action :=
  [.create 0 1 {} .scrapy {} [(10, 7)],
    .deliver true 0 0 (some 100),
    .event 1 { eventId := 1, agentId := 7, taskId := 1, executionId := 10, type := .running } 200,
    .event 2 { eventId := 2, agentId := 7, taskId := 1, executionId := 10, type := .finished } 201]

def sampleEnd : Option State := runList step (.start ⟨0, 0⟩) sampleRun

def sample : State := sampleEnd.getD (.start ⟨0, 0⟩)

theorem run_sample : Run step (.start ⟨0, 0⟩) sample := by
  have hsome : sampleEnd.isSome = true := by decide
  obtain ⟨s, hs⟩ := Option.isSome_iff_exists.mp hsome
  have hsample : sample = s := by
    unfold sample
    rw [hs]
    rfl
  rw [hsample]
  exact Run.of_runList hs

/-- Keep resolved commands for seven days, and delete 5000 at a time. -/
def sampleSettings : PruneSettings := ⟨7, 5000⟩

theorem unobservable_sample :
    sample.db.pruneResolvedOutbox ⟨id, fun l => .refl l⟩ sampleSettings 691200 =
        (sample.db.without [0], 1) ∧
      Unobservable (fun a => a.sweeps = false) sample [0] := by
  obtain ⟨-, hresult, hlater⟩ :=
    unobservable ⟨id, fun l => .refl l⟩ sampleSettings 691200 run_sample
  have hselected : sample.db.selected sampleSettings 691200 = [0] := by decide
  rw [hselected] at hresult hlater
  exact ⟨hresult, hlater [0] fun _ h => h⟩

/-- The sweep sees it: as long as the run command is there, the stream of the
retired agent is kept, and without it the stream is deleted. -/
theorem sweep_observes : ¬ ∀ (gauge : LogsDirGauge) (s : State), Run step (.start gauge) s →
    ∀ (cfg : PruneSettings) (now : Time) (gone : List CommandId),
      (∀ c ∈ gone, c ∈ s.db.selected cfg now) → Unobservable (fun _ => True) s gone := by
  intro hall
  have hselected : sample.db.selected sampleSettings 691200 = [0] := by decide
  have hsame := (hall ⟨0, 0⟩ sample run_sample sampleSettings 691200 [0]
    (by rw [hselected]; exact fun _ h => h) []).2 sample rfl
    (.sweepStreams 7 (fun _ => none) 691200 [⟨7, 1⟩]) trivial
  have hkept : sample.db.deleteStaleCommandStreams 7 (fun _ => none) 691200 [⟨7, 1⟩] = [] := by
    decide
  have hdeleted : (sample.db.without [0]).deleteStaleCommandStreams 7 (fun _ => none) 691200
      [⟨7, 1⟩] = [7] := by decide
  have hstreams : (Output.streams ((sample.db.without [0]).deleteStaleCommandStreams 7
      (fun _ => none) 691200 [⟨7, 1⟩])) = .streams (sample.db.deleteStaleCommandStreams 7
      (fun _ => none) 691200 [⟨7, 1⟩]) := Option.some.inj hsame
  rw [hkept, hdeleted] at hstreams
  cases Output.streams.inj hstreams

end Pruning

end Dopilot
