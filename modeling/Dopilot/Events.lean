/-
Dopilot/Events.lean

Applying agent events to executions and tasks.

An event is applied in one transaction that locks the task's row and then the
execution's.  Heartbeats only refresh clocks; every other event is applied once
per message, moves its execution along the transition table (a hard terminal
overrides `lost`, and nothing leaves a hard terminal), and recomputes the task.

The lemmas say what an event does to statuses: `applyEvent_executions` for the
execution, in terms of `nextExecStatus`, and `applyEvent_task` for the task.
-/
import Dopilot.ServerDb

namespace Dopilot

/-! ### One execution -/

/-- `_EVENT_TO_EXEC`; heartbeats have no entry. -/
def AgentEventType.toExec : AgentEventType → Option ExecStatus
  | .accepted => some .pending
  | .running => some .running
  | .finished => some .finished
  | .failed => some .failed
  | .canceled => some .canceled
  | .lost => some .lost
  | .heartbeat => none

/-- `LostReason.source`. -/
def LostReason.fromAgent : LostReason → Bool
  | heartbeatTimeout | eventStall => false
  | stateMissing | processMissing | runnerRecoveredUnknown | spawnAborted => true

/-- `OUTCOME_CLASS_MAX_CHARS`. -/
def outcomeClassMaxChars : Nat := 64

/-- `_apply_status`. -/
def applyStatus (e : Execution) (ev : AgentEvent) (new : ExecStatus) (now : Time) : Execution :=
  if new = .running then
    { e with
      status := new
      startedAt := some (e.startedAt.getD now)
      remoteJobId := ev.remoteJobId.orElse fun _ => e.remoteJobId }
  else if new.terminal then
    { e with
      status := new
      startedAt := some (e.startedAt.getD now)
      finishedAt := some now
      exitCode := ev.exitCode.orElse fun _ => e.exitCode
      errorCode := (ev.errorCode.filter (· ≠ "")).orElse fun _ => e.errorCode
      errorDetail := if ev.errorDetail = [] then e.errorDetail else ev.errorDetail
      lostReason :=
        if new = .lost then (ev.lostReason.map .wire).orElse fun _ => e.lostReason
        else e.lostReason
      errorCount := ev.errorCount.orElse fun _ => e.errorCount
      finishReason := ev.finishReason.orElse fun _ => e.finishReason
      logBytes := ev.logBytes.orElse fun _ => e.logBytes
      outcomeClass :=
        (ev.outcomeClass.map fun c => String.ofList (c.toList.take outcomeClassMaxChars)).orElse
          fun _ => e.outcomeClass }
  else { e with status := new }

/-- `_maybe_update_lost_reason`: a reason of the agent wins over one of the server. -/
def maybeUpdateLostReason (e : Execution) (ev : AgentEvent) : Execution :=
  match ev.lostReason with
  | none => e
  | some r => if r.fromAgent || e.lostReason.isNone then { e with lostReason := some (.wire r) } else e

/-- `_mark_progress`, and the event-stall clock. -/
def markAlive (e : Execution) (now : Time) : Execution :=
  { e with
    lastEventAt := some now
    stalledAt := none
    lastProgressAt := some now
    noProgressAt := none }

/-- The clocks a heartbeat refreshes. -/
def heartbeatExecution (e : Execution) (ev : AgentEvent) (now : Time) : Execution :=
  let e := { e with lastEventAt := some now, stalledAt := none }
  match ev.logBytes with
  | none => e
  | some n =>
      let e := { e with lastProgressSampleAt := some now }
      if e.logBytes.getD 0 < n then
        { e with logBytes := some n, lastProgressAt := some now, noProgressAt := none }
      else e

/-! ### The task -/

/-- `_update_task` on the rows. -/
def rollTask (task : Task) (executions : List Execution) (now : Time) : Task :=
  let task := convergeTask task executions now
  match rollupTaskStatus (executions.map (·.status)) with
  | none => task
  | some rolled =>
      if rolled ≠ task.status ∧ (task.status.active ∨ task.status = .lost)
          ∧ isValidTaskTransition task.status rolled then
        let unrecord := task.status = .lost ∧ task.outcomeRecordedAt.isSome
        { task with
          status := rolled
          finishedAt := some now
          updatedAt := now
          outcomeRecordedAt := if unrecord then none else task.outcomeRecordedAt
          outcomeErroneous := if unrecord then none else task.outcomeErroneous }
      else task

namespace ServerDb

/-- `_update_task`. -/
def rollUp (db : ServerDb) (t : TaskId) (now : Time) : ServerDb :=
  db.updateTask t fun task => rollTask task ((db.listExecutions t).map Prod.snd) now

/-- `_audit`. -/
def audit (db : ServerDb) (msg : MessageId) (ev : AgentEvent) (outcome : EventOutcome) : ServerDb :=
  let row : EventAudit :=
    { eventId := ev.eventId, executionId := ev.executionId, type := ev.type, outcome := outcome }
  { db with audits := db.audits.insert msg row }

/-- A heartbeat of a known execution. -/
def applyHeartbeat (db : ServerDb) (now : Time) (ev : AgentEvent) (msg : MessageId)
    (e : Execution) : ServerDb × EventOutcome :=
  let db := db.updateExecution ev.executionId fun e => heartbeatExecution e ev now
  if e.status = .lost then
    if db.reclaimEverIssued ev.executionId then (db, .reclaimRequested)
    else
      ((db.createStopOutbox now .reclaim e.taskId ev.executionId e.agentId).audit msg ev
        .reclaimRequested, .reclaimRequested)
  else (db, .heartbeat)

/-- What an event does to its execution, and whether a reclaim is requested. -/
def moveExecution (e : Execution) (ev : AgentEvent) (new : ExecStatus) (now : Time) :
    Execution × EventOutcome :=
  if e.status = new then
    (if e.status = .lost then maybeUpdateLostReason e ev else e, .applied)
  else if e.status = .lost ∧ ev.type.isAuthoritativeTerminal then
    (applyStatus { e with reconciledFromLost := true } ev new now, .overrideLost)
  else if e.status = .lost ∧ ¬ ev.type.isTerminal then (e, .reclaimRequested)
  else if e.status.terminal then (e, .skippedTerminal)
  else if isValidExecutionTransition e.status new then (applyStatus e ev new now, .applied)
  else (e, .skippedTerminal)

/-- `_request_reclaim`: a single one that is not resolved. -/
def requestReclaim (db : ServerDb) (now : Time) (e : ExecutionId) (x : Execution) : ServerDb :=
  if db.hasUnresolvedReclaim e then db
  else db.createStopOutbox now .reclaim x.taskId e x.agentId

/-- A life-cycle event of a known execution. -/
def applyLifecycle (db : ServerDb) (now : Time) (ev : AgentEvent) (msg : MessageId)
    (new : ExecStatus) (e : Execution) : ServerDb × EventOutcome :=
  let moved := moveExecution e ev new now
  let db := if moved.2 = .reclaimRequested then db.requestReclaim now ev.executionId e else db
  let db := db.updateExecution ev.executionId fun _ => markAlive moved.1 now
  ((db.rollUp e.taskId now).audit msg ev moved.2, moved.2)

/-- `apply_event`. -/
def applyEvent (db : ServerDb) (now : Time) (ev : AgentEvent) (msg : MessageId) :
    ServerDb × EventOutcome :=
  match ev.type.toExec with
  | none =>
      match db.executions.get ev.executionId with
      | none => (db, .skippedNoAttempt)
      | some e => db.applyHeartbeat now ev msg e
  | some new =>
      if (db.audits.get msg).isSome then (db, .skippedDup)
      else
        match db.executions.get ev.executionId with
        | none => (db.audit msg ev .skippedNoAttempt, .skippedNoAttempt)
        | some e => db.applyLifecycle now ev msg new e

end ServerDb

/-! ### Statuses -/

/-- Where an event moves an execution. -/
def nextExecStatus (old : ExecStatus) (type : AgentEventType) : ExecStatus :=
  match type.toExec with
  | none => old
  | some new =>
      if old = .lost then if new.hard then new else old
      else if old.hard then old
      else if old = .running ∧ new = .pending then old
      else new

section Facts

variable {db : ServerDb} {now : Time} {ev : AgentEvent} {msg : MessageId}

theorem applyStatus_status (e : Execution) (new : ExecStatus) :
    (applyStatus e ev new now).status = new := by
  unfold applyStatus
  split
  · rfl
  · split
    · rfl
    · rfl

theorem applyStatus_taskId (e : Execution) (new : ExecStatus) :
    (applyStatus e ev new now).taskId = e.taskId := by
  unfold applyStatus
  split
  · rfl
  · split
    · rfl
    · rfl

theorem maybeUpdateLostReason_frame (e : Execution) :
    (maybeUpdateLostReason e ev).status = e.status ∧
      (maybeUpdateLostReason e ev).taskId = e.taskId := by
  unfold maybeUpdateLostReason
  split
  · exact ⟨rfl, rfl⟩
  · split
    · exact ⟨rfl, rfl⟩
    · exact ⟨rfl, rfl⟩

theorem heartbeatExecution_frame (e : Execution) :
    (heartbeatExecution e ev now).status = e.status ∧
      (heartbeatExecution e ev now).taskId = e.taskId := by
  unfold heartbeatExecution
  simp only
  split
  · exact ⟨rfl, rfl⟩
  · split
    · exact ⟨rfl, rfl⟩
    · exact ⟨rfl, rfl⟩

/-- **The transition table of an event.** -/
theorem moveExecution_status (now : Time) {e : Execution} {new : ExecStatus}
    (h : ev.type.toExec = some new) :
    (ServerDb.moveExecution e ev new now).1.status = nextExecStatus e.status ev.type ∧
      (ServerDb.moveExecution e ev new now).1.taskId = e.taskId := by
  have hnew : nextExecStatus e.status ev.type =
      if e.status = .lost then if new.hard then new else e.status
      else if e.status.hard then e.status
      else if e.status = .running ∧ new = .pending then e.status else new := by
    unfold nextExecStatus
    rw [h]
  have hauth : ev.type.isAuthoritativeTerminal = new.hard := by
    cases ht : ev.type <;> rw [ht] at h <;> cases h <;> rfl
  rw [hnew]
  unfold ServerDb.moveExecution
  split
  · -- the status stays, whatever becomes of the reason
    rename_i heq
    have hstay : (if e.status = .lost then maybeUpdateLostReason e ev else e).status = e.status ∧
        (if e.status = .lost then maybeUpdateLostReason e ev else e).taskId = e.taskId := by
      split
      · exact maybeUpdateLostReason_frame e
      · exact ⟨rfl, rfl⟩
    refine ⟨hstay.1.trans ?_, hstay.2⟩
    rw [← heq]
    simp
  · rename_i hne
    split
    · rename_i hover
      rw [hauth] at hover
      refine ⟨?_, applyStatus_taskId _ _⟩
      rw [applyStatus_status, if_pos hover.1, if_pos hover.2]
    · rename_i hover
      rw [hauth] at hover
      by_cases hlost : e.status = .lost
      · -- what does not override `lost` leaves it
        have hsoft : ¬ new.hard = true := fun hhard => hover ⟨hlost, hhard⟩
        rw [if_pos hlost, if_neg hsoft]
        split
        · exact ⟨rfl, rfl⟩
        · rw [if_pos (show e.status.terminal = true by rw [hlost]; rfl)]
          exact ⟨rfl, rfl⟩
      · rw [if_neg (fun hc => hlost hc.1), if_neg hlost]
        split
        · rename_i hterm
          rw [if_pos ((ExecStatus.hard_or_lost hterm).resolve_right hlost)]
          exact ⟨rfl, rfl⟩
        · rename_i hterm
          have hhard : ¬ e.status.hard = true := fun hh =>
            hterm (ExecStatus.terminal_of_hard hh)
          rw [if_neg hhard]
          by_cases hback : e.status = .running ∧ new = .pending
          · rw [if_pos hback, hback.1, hback.2]
            exact ⟨hback.1, rfl⟩
          · rw [if_neg hback]
            have hvalid : isValidExecutionTransition e.status new = true := by
              cases hs : e.status with
              | pending => cases new <;> rfl
              | running =>
                  cases hn : new with
                  | pending => exact absurd ⟨hs, hn⟩ hback
                  | running | finished | failed | canceled | lost => rfl
              | finished | failed | canceled => exact absurd (by rw [hs]; rfl) hhard
              | lost => exact absurd hs hlost
            rw [if_pos hvalid]
            exact ⟨applyStatus_status _ _, applyStatus_taskId _ _⟩

/-- An event moves its execution forward only. -/
theorem nextExecStatus_advances (old : ExecStatus) (type : AgentEventType) :
    old.Advances (nextExecStatus old type) := by
  unfold nextExecStatus
  rcases type.toExec with - | new
  · exact .refl old
  · show old.Advances (if old = .lost then if new.hard then new else old
      else if old.hard then old else if old = .running ∧ new = .pending then old else new)
    by_cases hlost : old = .lost
    · rw [if_pos hlost]
      by_cases hnew : new.hard = true
      · rw [if_pos hnew, hlost]
        exact ⟨fun h => absurd h (by simp [ExecStatus.hard]), fun _ => .inr hnew, by
          intro _ hp
          rw [hp] at hnew
          cases hnew⟩
      · rw [if_neg hnew]
        exact .refl old
    · rw [if_neg hlost]
      by_cases hhard : old.hard = true
      · rw [if_pos hhard]
        exact .refl old
      · rw [if_neg hhard]
        by_cases hback : old = .running ∧ new = .pending
        · rw [if_pos hback]
          exact .refl old
        · rw [if_neg hback]
          exact ⟨fun h => absurd h hhard, fun h => absurd h hlost, by
            intro hstarted hp
            refine hback ⟨?_, hp⟩
            cases old with
            | running => rfl
            | pending => exact absurd rfl hstarted
            | finished | failed | canceled => exact absurd rfl hhard
            | lost => exact absurd rfl hlost⟩

theorem rollTask_status (task : Task) (executions : List Execution) :
    (rollTask task executions now).status =
      let converged := (convergeTask task executions now).status
      match rollupTaskStatus (executions.map (·.status)) with
      | none => converged
      | some rolled =>
          if rolled ≠ converged ∧ (converged.active ∨ converged = .lost)
              ∧ isValidTaskTransition converged rolled then rolled
          else converged := by
  unfold rollTask
  simp only
  split
  · rfl
  · split_ifs <;> rfl

/-- Rolling up never regresses a task. -/
theorem rollTask_advances (task : Task) (executions : List Execution) :
    task.status.Advances (rollTask task executions now).status := by
  have hconv : task.status.Advances (convergeTask task executions now).status := by
    rcases convergeTask_status task executions now with h | ⟨h, -, -⟩
    · rw [h]
      exact .refl _
    · rw [h]
      exact .of_active rfl
  refine hconv.trans ?_
  rw [rollTask_status]
  simp only
  split
  · exact .refl _
  · rename_i rolled hrolled
    split
    · rename_i hgo
      rcases hgo.2.1 with hactive | hlost
      · exact .of_active hactive
      · rw [hlost]
        exact .of_lost (rollup_terminal hrolled).1
    · exact .refl _

end Facts

/-! ### Whole transactions -/

namespace ServerDb

section Facts

variable {db db' : ServerDb} {now : Time} {ev : AgentEvent} {msg : MessageId}

/-- The rows a life-cycle event leaves: its execution, moved and alive. -/
theorem applyLifecycle_executions {new : ExecStatus} {x : Execution} :
    (db.applyLifecycle now ev msg new x).1.executions =
      (db.updateExecution ev.executionId fun _ =>
        markAlive (moveExecution x ev new now).1 now).executions := by
  unfold applyLifecycle requestReclaim
  simp only
  split
  · split
    · rfl
    · rfl
  · rfl

/-- The tasks a life-cycle event leaves: its execution's task, rolled up. -/
theorem applyLifecycle_tasks {new : ExecStatus} {x : Execution} :
    (db.applyLifecycle now ev msg new x).1.tasks =
      db.tasks.modify x.taskId fun task => rollTask task
        (((db.applyLifecycle now ev msg new x).1.listExecutions x.taskId).map Prod.snd) now := by
  unfold applyLifecycle requestReclaim
  simp only
  split
  · split
    · rfl
    · rfl
  · rfl

/-- **What an event does to an execution.** -/
theorem applyEvent_execStatus (e : ExecutionId) :
    (db.applyEvent now ev msg).1.execStatus e =
      (db.execStatus e).map fun x =>
        (x.1, if e = ev.executionId ∧ db.audits.get msg = none then nextExecStatus x.2 ev.type
          else x.2) := by
  have hkeep : db.execStatus e = (db.execStatus e).map fun x => (x.1, x.2) := by simp
  unfold applyEvent
  rcases htype : ev.type.toExec with - | new
  · -- a heartbeat leaves every status
    have hnext : ∀ s, nextExecStatus s ev.type = s := by
      intro s
      unfold nextExecStatus
      rw [htype]
    simp only [hnext, ite_self]
    rw [← hkeep]
    rcases hget : db.executions.get ev.executionId with - | x
    · rfl
    · have hbeat : (db.updateExecution ev.executionId fun e =>
          heartbeatExecution e ev now).execStatus e = db.execStatus e := by
        rw [execStatus_updateExecution]
        split
        · rename_i he
          unfold execStatus
          rw [he]
          congr 1
          funext y
          rw [(heartbeatExecution_frame y).1, (heartbeatExecution_frame y).2]
        · rfl
      show (db.applyHeartbeat now ev msg x).1.execStatus e = _
      rw [← hbeat]
      unfold applyHeartbeat
      simp only
      split
      · split
        · rfl
        · rfl
      · rfl
  · simp only
    by_cases hdup : (db.audits.get msg).isSome = true
    · have hsome : ¬ db.audits.get msg = none := Option.isSome_iff_ne_none.mp hdup
      rw [if_pos hdup]
      simp only [hsome, and_false, if_false]
      exact hkeep
    · rw [if_neg hdup]
      have hnone : db.audits.get msg = none := by simpa using hdup
      simp only [hnone, and_true]
      rcases hget : db.executions.get ev.executionId with - | x
      · show db.execStatus e = _
        by_cases he : e = ev.executionId
        · unfold execStatus
          rw [he, hget]
          rfl
        · simp only [he, if_false]
          exact hkeep
      · show (db.applyLifecycle now ev msg new x).1.execStatus e = _
        rw [execStatus_congr applyLifecycle_executions, execStatus_updateExecution]
        by_cases he : e = ev.executionId
        · obtain ⟨hstatus, htask⟩ := moveExecution_status now htype
          unfold execStatus
          simp only [if_pos he]
          rw [he, hget]
          show some ((moveExecution x ev new now).1.taskId, (moveExecution x ev new now).1.status) = _
          rw [hstatus, htask]
          rfl
        · simp only [if_neg he]
          exact hkeep

/-- **What an event does to a task.**  Nothing if no execution moves. -/
theorem applyEvent_tasks (db : ServerDb) (now : Time) (ev : AgentEvent) (msg : MessageId) :
    ((db.applyEvent now ev msg).1.tasks = db.tasks ∧
        ∀ e, (db.applyEvent now ev msg).1.execStatus e = db.execStatus e) ∨
      ∃ x, db.executions.get ev.executionId = some x ∧ db.audits.get msg = none ∧
        (db.applyEvent now ev msg).1.tasks =
          db.tasks.modify x.taskId fun task => rollTask task
            (((db.applyEvent now ev msg).1.listExecutions x.taskId).map Prod.snd) now := by
  by_cases hmoves : ev.type.toExec = none ∨ db.executions.get ev.executionId = none ∨
      db.audits.get msg ≠ none
  · left
    constructor
    · unfold applyEvent
      rcases htype : ev.type.toExec with - | new
      · rcases db.executions.get ev.executionId with - | x
        · rfl
        · show (db.applyHeartbeat now ev msg x).1.tasks = db.tasks
          unfold applyHeartbeat
          simp only
          split
          · split
            · rfl
            · rfl
          · rfl
      · rcases hmoves with h | h | h
        · rw [htype] at h
          cases h
        · rw [h]
          simp only
          split
          · rfl
          · rfl
        · simp only [if_pos (Option.isSome_iff_ne_none.mpr h)]
    · intro e
      rw [applyEvent_execStatus]
      rcases hx : db.execStatus e with - | ⟨t, s⟩
      · rfl
      · show some (t, _) = some (t, s)
        congr 2
        rcases hmoves with h | h | h
        · unfold nextExecStatus
          rw [h]
          exact ite_self _
        · rw [if_neg]
          rintro ⟨rfl, -⟩
          unfold execStatus at hx
          rw [h] at hx
          cases hx
        · exact if_neg fun hc => h hc.2
  · right
    obtain ⟨htype, hget, hnew⟩ : ev.type.toExec ≠ none ∧
        db.executions.get ev.executionId ≠ none ∧ db.audits.get msg = none := by
      simpa only [not_or, not_not] using hmoves
    obtain ⟨new, hnew'⟩ := Option.ne_none_iff_exists'.mp htype
    obtain ⟨x, hx⟩ := Option.ne_none_iff_exists'.mp hget
    refine ⟨x, hx, hnew, ?_⟩
    have happly : db.applyEvent now ev msg = db.applyLifecycle now ev msg new x := by
      unfold applyEvent
      rw [hnew', hx, hnew]
      rfl
    rw [happly]
    exact applyLifecycle_tasks

/-- No execution regresses by an event. -/
theorem applyEvent_onward (db : ServerDb) (now : Time) (ev : AgentEvent) (msg : MessageId) :
    db.Onward (db.applyEvent now ev msg).1 := by
  apply Onward.of_map applyEvent_execStatus
  intro e x
  split
  · exact nextExecStatus_advances x.2 ev.type
  · exact .refl x.2

end Facts

end ServerDb

end Dopilot
