/-
Dopilot/Reconcile.lean

The server's own terminal writers: the reconcile pass, the manual loss of a
task, and the bounded drain of logs.

A pass loads the active executions once and judges them one by one.  What it
writes it decides under the row locks, but rows it loaded and did not lock stay
in its session as they were loaded: `HeldRows` are such rows, and they were
active.  `markLost` rolls its task up from what the session sees, so a held row
can only keep a task from being rolled up.
-/
import Dopilot.Events

namespace Dopilot

/-! ### Rows a session holds -/

/-- Executions a session loaded while they were active and did not load again. -/
structure HeldRows where
  status : ExecutionId → Option ExecStatus
  active : ∀ e s, status e = some s → s.active = true

namespace HeldRows

/-- A session that holds nothing. -/
def none : HeldRows where
  status _ := Option.none
  active := by
    intro e s h
    cases h

end HeldRows

namespace ServerDb

/-- The statuses of a task's executions as a session sees them. -/
def seenStatuses (db : ServerDb) (held : HeldRows) (t : TaskId) : List ExecStatus :=
  (db.listExecutions t).map fun r => (held.status r.1).getD r.2.status

/-! ### Declaring an execution lost -/

/-- `_rollup` on the row: no convergence, and terminals stay. -/
def rollupRow (task : Task) (statuses : List ExecStatus) (now : Time) : Task :=
  if task.status.terminal then task
  else
    match rollupTaskStatus statuses with
    | none => task
    | some rolled =>
        if isValidTaskTransition task.status rolled then
          { task with status := rolled, finishedAt := some now, updatedAt := now }
        else task

/-- `_rollup`. -/
def rollup (db : ServerDb) (held : HeldRows) (t : TaskId) (now : Time) : ServerDb :=
  db.updateTask t fun task => rollupRow task (db.seenStatuses held t) now

end ServerDb

def ExecLostReason.text : ExecLostReason → String
  | wire .heartbeatTimeout => "heartbeat_timeout"
  | wire .eventStall => "event_stall"
  | wire .stateMissing => "state_missing"
  | wire .processMissing => "process_missing"
  | wire .runnerRecoveredUnknown => "runner_recovered_unknown"
  | wire .spawnAborted => "spawn_aborted"
  | manualCleanup => "manual_cleanup"

/-- The row of an execution declared lost. -/
def Execution.loseWith (e : Execution) (reason : ExecLostReason) (now : Time) : Execution :=
  { e with
    status := .lost
    lostReason := some reason
    finishedAt := some now
    errorCode := some "agent.lost"
    errorDetail := [("reason", reason.text)] }

/-- A log that was still written to is drained. -/
def ExecutionLogFile.drain (f : ExecutionLogFile) : ExecutionLogFile :=
  if f.status = .active then { f with status := .finalizing } else f

namespace ServerDb

/-- `mark_lost`; the status is read under the lock. -/
def markLost (db : ServerDb) (held : HeldRows) (e : ExecutionId) (reason : ExecLostReason)
    (now : Time) : ServerDb × Bool :=
  match db.executions.get e with
  | none => (db, false)
  | some x =>
      if x.status.terminal then (db, false)
      else
        let db := db.updateExecution e fun x => x.loseWith reason now
        let db := { db with logFiles := db.logFiles.modify ⟨x.taskId, e, .log⟩ (·.drain) }
        -- the row just written is seen as it is
        let held : HeldRows :=
          { status := fun e' => if e' = e then none else held.status e'
            active := by
              intro e' s h
              by_cases he : e' = e
              · rw [if_pos he] at h
                cases h
              · rw [if_neg he] at h
                exact held.active e' s h }
        (db.rollup held x.taskId now, true)

end ServerDb

/-! ### The reconcile pass -/

/-- `settings.agents`, in seconds. -/
structure AgentsSettings where
  heartbeatTimeoutSeconds : Time
  stalledAttemptSeconds : Time
  lostAfterStalledSeconds : Time
  noProgressStallSeconds : Time
  noProgressSampleMaxAgeSeconds : Time
  autoStopOnNoProgress : Bool

namespace ServerDb

variable (settings : AgentsSettings)

/-- `_check_no_progress`, on the row as the pass loaded it. -/
def checkNoProgress (db : ServerDb) (now : Time) (e : ExecutionId) (x : Execution) : ServerDb :=
  match x.lastProgressSampleAt with
  | none => db
  | some sampled =>
      let baseline := (x.lastProgressAt.orElse fun _ => x.startedAt).getD x.createdAt
      if settings.noProgressStallSeconds ≤ 0 ∨ x.noProgressAt.isSome ∨ x.status.active = false
          ∨ settings.noProgressSampleMaxAgeSeconds < now - sampled
          ∨ now - baseline < settings.noProgressStallSeconds then db
      else
        let db := db.updateExecution e fun x => { x with noProgressAt := some now }
        if settings.autoStopOnNoProgress then
          db.createStopOutbox now .cancel x.taskId e x.agentId
        else db

/-- One execution of a pass, as the pass loaded it. -/
def reconcileExecution (db : ServerDb) (held : HeldRows) (now : Time) (lastSeen : Option Time)
    (e : ExecutionId) (x : Execution) : ServerDb :=
  let unreachable := match lastSeen with
    | none => true
    | some seen => decide (settings.heartbeatTimeoutSeconds < now - seen)
  if unreachable then (db.markLost held e (.wire .heartbeatTimeout) now).1
  else
    let baseline := (x.lastEventAt.orElse fun _ => x.startedAt).getD x.createdAt
    let idle := now - baseline
    if settings.lostAfterStalledSeconds ≤ idle then
      let (db, lost) := db.markLost held e (.wire .eventStall) now
      if lost then db.createStopOutbox now .reclaim x.taskId e x.agentId else db
    else
      let db := if settings.stalledAttemptSeconds ≤ idle ∧ x.stalledAt.isNone then
          db.updateExecution e fun x => { x with stalledAt := some now }
        else db
      db.checkNoProgress settings now e x

/-- `repair_orphaned_tasks`, for one candidate. -/
def repairOrphanedTask (db : ServerDb) (held : HeldRows) (now : Time) (t : TaskId) : ServerDb :=
  match db.tasks.get t with
  | none => db
  | some task =>
      if task.status.active = false then db
      else if (db.seenStatuses held t).any ExecStatus.active then db
      else
        let executions := (db.listExecutions t).map Prod.snd
        if executions = [] then
          if now - task.createdAt < settings.lostAfterStalledSeconds then db
          else db.updateTask t fun task =>
            { task with
              status := .lost
              statusReason := some .noExecution
              finishedAt := some now
              updatedAt := now }
        else
          let converged := convergeTask task executions now
          match rollupTaskStatus (db.seenStatuses held t) with
          | none => db
          | some rolled =>
              if isValidTaskTransition converged.status rolled then
                db.updateTask t fun _ =>
                  { converged with
                    status := rolled
                    finishedAt := some ((latest (executions.filterMap (·.finishedAt))).getD now)
                    updatedAt := now }
              else db.updateTask t fun _ => converged

end ServerDb

/-! ### Losing a task by hand -/

namespace ServerDb

/-- Every active execution of the task is declared lost. -/
def markExecutionsLost (now : Time) : List (ExecutionId × Execution) → ServerDb → ServerDb
  | [], db => db
  | (e, _) :: rest, db =>
      markExecutionsLost now rest (db.markLost .none e .manualCleanup now).1

/-- `mark_task_lost`, for an active task. -/
def markTaskLost (db : ServerDb) (now : Time) (t : TaskId) : ServerDb :=
  match db.tasks.get t with
  | none => db
  | some task =>
      if task.status.active = false then db
      else
        let db := markExecutionsLost now (db.listExecutions t) db
        db.updateTask t fun task =>
          let task := if task.status.active ∧ isValidTaskTransition task.status .lost then
              { task with status := .lost, finishedAt := some now, updatedAt := now }
            else task
          if task.status = .lost then
            { task with statusReason := some .manualCleanup, updatedAt := now }
          else task

end ServerDb

end Dopilot
