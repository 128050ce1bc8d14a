/-
Dopilot/Dispatcher.lean

Delivering the command outbox: the dispatcher, the executors and cancel.

`try_dispatch` reads its row again, checks it, appends the command to the
agent's stream and notes the outcome on the row; the note is written when the
session commits.  So one delivery is `planDispatch` (what the row read says),
the append, and `finishDispatch` (what the row becomes), and a session commits
the attributes it changed and no others (`CommandOutbox.merge`).

The functions that fail executions are `failExecutionDispatchTimeout`, under
the row locks, and `failDispatchUnavailable`, which sees some executions as
they were created.
-/
import Dopilot.Reconcile

namespace Dopilot

/-! ### One row -/

/-- What `try_dispatch` decides on the row it has just read again. -/
inductive DispatchPlan where
  | sent
  | canceled
  | notDispatchable
  | send
  deriving DecidableEq, Repr

/-- `DispatchResult.outcome`. -/
inductive DispatchOutcome where
  | sent
  | skipped
  | retry
  | failed
  deriving DecidableEq, Repr

/-- `try_dispatch` up to the append; `task` is the task as the session sees it. -/
def planDispatch (row : CommandOutbox) (task : Option TaskStatus) : DispatchPlan :=
  if row.status = .sent then .sent
  else if row.status = .canceled then .canceled
  else if row.type = .run ∧ task.all TaskStatus.terminal then .notDispatchable
  else .send

/-- The row of a terminal task is discarded. -/
def CommandOutbox.discard (row : CommandOutbox) (now : Time) : CommandOutbox :=
  { row with status := .canceled, lastError := some .executionNotDispatchable, updatedAt := now }

/-- The append gave a message id. -/
def CommandOutbox.markSent (row : CommandOutbox) (msg : MessageId) (now : Time) : CommandOutbox :=
  { row with status := .sent, redisMsgId := some msg, updatedAt := now }

/-- The append raised. -/
def CommandOutbox.markUnavailable (row : CommandOutbox) (status : OutboxStatus) (now : Time) :
    CommandOutbox :=
  { row with
    status := status
    retryCount := row.retryCount + 1
    lastError := some .dispatchUnavailable
    updatedAt := now }

/-- `try_dispatch` after the append. -/
def finishDispatch (row : CommandOutbox) (giveUpOnFail : Bool) (now : Time) :
    Option MessageId → CommandOutbox × DispatchOutcome
  | some msg => (row.markSent msg now, .sent)
  | none =>
      let pastGiveUp := row.giveUpAt.any (· ≤ now)
      if giveUpOnFail ∨ row.maxRetry ≤ row.retryCount + 1 ∨ pastGiveUp then
        (row.markUnavailable .failed now, .failed)
      else (row.markUnavailable .failedRetryable now, .retry)

/-- `_process_row` past the deadline of a row it did not read again. -/
def CommandOutbox.pastDeadline (row : CommandOutbox) (now : Time) : Bool :=
  row.giveUpAt.any (· ≤ now) && row.status != .sent

/-- The row is given up without another append. -/
def CommandOutbox.giveUp (row : CommandOutbox) (now : Time) : CommandOutbox :=
  { row with status := .failed, lastError := some .dispatchTimeout, updatedAt := now }

/-- `reconcile_sent_once` on a row whose message is gone. -/
def CommandOutbox.requeue (row : CommandOutbox) (now : Time) : CommandOutbox :=
  { row with
    status := .pending
    redisMsgId := none
    lastError := some .sentMessageMissing
    giveUpAt := some (now + scheduledGiveUpSeconds)
    retryCount := 0
    updatedAt := now }

/-- What a session that loaded `loaded` and changed it to `new` makes of the row
`current`: only what it changed is written. -/
def CommandOutbox.merge (loaded new current : CommandOutbox) : CommandOutbox :=
  { current with
    status := if new.status = loaded.status then current.status else new.status
    retryCount := if new.retryCount = loaded.retryCount then current.retryCount else new.retryCount
    lastError := if new.lastError = loaded.lastError then current.lastError else new.lastError
    redisMsgId := if new.redisMsgId = loaded.redisMsgId then current.redisMsgId else new.redisMsgId
    giveUpAt := if new.giveUpAt = loaded.giveUpAt then current.giveUpAt else new.giveUpAt
    updatedAt := new.updatedAt }

/-! ### Failing executions -/

namespace ServerDb

/-- `_fail_execution_dispatch_timeout`, for the run row of execution `e` of task `t`. -/
def failExecutionDispatchTimeout (db : ServerDb) (now : Time) (t : TaskId) (e : ExecutionId) :
    ServerDb :=
  let db := db.updateExecution e fun x =>
    if x.status.active then
      { x with status := .failed, errorCode := some "dispatch_timeout", finishedAt := some now }
    else x
  db.updateTask t fun task =>
    if task.status.active then
      { task with status := .failed, finishedAt := some now, updatedAt := now }
    else task

/-- `_fail_dispatch_unavailable`.  The session holds the task, and some of its
executions, as they were created; what it holds it overwrites. -/
def failDispatchUnavailable (db : ServerDb) (held : HeldRows) (now : Time) (t : TaskId) :
    ServerDb :=
  let db := db.updateTask t fun task =>
    { task with
      status := .failed
      startedAt := some now
      finishedAt := some now
      updatedAt := now }
  { db with executions := db.executions.updateAll fun e x =>
      if x.taskId = t ∧ ((held.status e).getD x.status).active then
        { x with
          status := .failed
          errorCode := some "dispatch_unavailable"
          finishedAt := some now }
      else x }

/-! ### Running a task -/

/-- `create_execution`, its run row and its log file, for one node. -/
def createExecution (db : ServerDb) (now : Time) (t : TaskId) (taskType : RunnerType)
    (payload : CommandPayload) (node : ExecutionId × AgentId) : ServerDb :=
  let row : Execution := { taskId := t, agentId := node.2, createdAt := now }
  let db := { db with executions := db.executions.insert node.1 row }
  let db := db.createRunOutbox now t node.1 node.2 taskType payload true
  { db with logFiles := db.logFiles.insert ⟨t, node.1, .log⟩ {} }

/-- The first commit of an executor's `run`: the task with one execution for
each node, or a task without a target. -/
def createTask (db : ServerDb) (now : Time) (t : TaskId) (task : Task) (taskType : RunnerType)
    (payload : CommandPayload) (nodes : List (ExecutionId × AgentId)) : ServerDb :=
  let task := { task with status := .queued, createdAt := now, updatedAt := now }
  if nodes = [] then { db with tasks := db.tasks.insert t (markNoTarget task now) }
  else
    nodes.foldl (fun db node => db.createExecution now t taskType payload node)
      { db with tasks := db.tasks.insert t task }

/-! ### Cancel -/

/-- The first commit of `request_cancel`: unsent rows are canceled, and a stop
is written for every execution that is not terminal. -/
def requestCancel (db : ServerDb) (now : Time) (t : TaskId) : ServerDb :=
  let db := db.cancelUnsentOutbox now t
  ((db.listExecutions t).filter fun r => r.2.status.active).foldl
    (fun db r => db.createStopOutbox now .cancel t r.1 r.2.agentId) db

end ServerDb

/-! ### Facts -/

section Facts

variable {db : ServerDb} {now : Time} {t t' : TaskId} {e e' : ExecutionId}

/-- A merge that changes the status writes it. -/
theorem CommandOutbox.merge_status {loaded new current : CommandOutbox}
    (h : new.status ≠ loaded.status) : (loaded.merge new current).status = new.status :=
  if_neg h

/-- What a merge never touches. -/
theorem CommandOutbox.merge_frame (loaded new current : CommandOutbox) :
    (loaded.merge new current).type = current.type ∧
      (loaded.merge new current).taskId = current.taskId ∧
      (loaded.merge new current).executionId = current.executionId :=
  ⟨rfl, rfl, rfl⟩

theorem planDispatch_sent {row : CommandOutbox} {task : Option TaskStatus} :
    planDispatch row task = .sent ↔ row.status = .sent := by
  unfold planDispatch
  split_ifs <;> simp_all

namespace ServerDb

theorem execStatus_failExecutionDispatchTimeout (e' : ExecutionId) :
    (db.failExecutionDispatchTimeout now t e).execStatus e' =
      (db.execStatus e').map fun x =>
        (x.1, if e' = e ∧ x.2.active = true then .failed else x.2) := by
  unfold failExecutionDispatchTimeout
  rw [execStatus_congr (updateTask_executions _), execStatus_updateExecution]
  by_cases he : e' = e
  · subst he
    rw [if_pos rfl]
    unfold execStatus
    rw [Option.map_map]
    congr 1
    funext x
    simp only [Function.comp_apply, true_and]
    split <;> rfl
  · rw [if_neg he]
    simp only [he, false_and, if_false]
    exact Option.map_id'.symm

theorem taskStatus_failExecutionDispatchTimeout (t' : TaskId) :
    (db.failExecutionDispatchTimeout now t e).taskStatus t' =
      (db.taskStatus t').map fun s => if t' = t ∧ s.active = true then .failed else s := by
  unfold failExecutionDispatchTimeout taskStatus
  rw [updateTask_get, updateExecution_tasks]
  by_cases ht : t' = t
  · rw [if_pos ht, Option.map_map, Option.map_map]
    congr 1
    funext x
    simp only [Function.comp_apply, ht, true_and]
    split <;> rfl
  · rw [if_neg ht, Option.map_map]
    congr 1
    funext x
    simp only [Function.comp_apply, ht, false_and, if_false]

/-- A timeout regresses no execution. -/
theorem failExecutionDispatchTimeout_onward :
    db.Onward (db.failExecutionDispatchTimeout now t e) := by
  apply Onward.of_map execStatus_failExecutionDispatchTimeout
  intro e' x
  split
  · rename_i h
    exact .of_active h.2 (by simp)
  · exact .refl x.2

end ServerDb

end Facts

end Dopilot
