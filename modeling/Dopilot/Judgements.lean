/-
Dopilot/Judgements.lean

Recorded outcomes and the rows they were judged on.

The recorder judges a task on its executions and their log files, writes the
verdict into the task's row and the ledger, and does not look at the task again.
An event takes a verdict back only where it changes the status of the task.  But
a verdict depends on more than that: an override may change one of several
executions and leave the task failed, or lost, and a heartbeat of an execution
that is over may report a larger log.

A verdict depends on the classes of the executions (`judge_congr`).  `Steady`
are the runs in which no event, and no loss, changes the class of an execution of
a recorded task without taking the verdict back, and `judged` is what follows.
-/
import Dopilot.Ledger
import Dopilot.Origins
import Dopilot.Cleanups
import Dopilot.Retention

namespace Dopilot

open StateMachine

/-! ### Classes -/

/-- `TRANSIENT_ERROR_CODES`. -/
def transientErrorCodes : List String := ["dispatch_unavailable", "dispatch_timeout"]

/-- `_server_judged_broken`. -/
def serverJudgedBroken (e : Execution) (logFile : Option ExecutionLogFile)
    (maxFileBytes : Nat) : Bool :=
  e.errorCode == some "log_flood"
    || logFile.any (fun f =>
      f.logIntegrity == .truncated && f.truncationReason.any TruncationReason.erroneous)
    || (decide (0 < maxFileBytes) && e.logBytes.any (maxFileBytes ≤ ·))

/-- `execution_outcome_class`. -/
def executionOutcomeClass (e : Execution) (logFile : Option ExecutionLogFile)
    (maxFileBytes : Nat) : Option OutcomeClass :=
  if executionIsErroneous e logFile maxFileBytes = false then none
  else if serverJudgedBroken e logFile maxFileBytes then some .broken
  else if e.status = .lost then some .transient
  else if e.errorCode.any transientErrorCodes.contains then some .transient
  else if e.outcomeClass = some "transient" then some .transient
  else some .broken

namespace ServerDb

/-- The classes of the task's executions that are erroneous. -/
def outcomeClasses (db : ServerDb) (t : TaskId) (maxFileBytes : Nat) : List OutcomeClass :=
  (db.listExecutions t).filterMap fun r =>
    executionOutcomeClass r.2 (db.logFiles.get ⟨t, r.1, .log⟩) maxFileBytes

/-- `task_outcome_class`. -/
def taskOutcomeClass (db : ServerDb) (t : TaskId) (task : Task) (maxFileBytes : Nat) :
    OutcomeClass :=
  if db.taskIsErroneous t task maxFileBytes = false then
    if task.status = .complete then .ok else .neutral
  else if (db.outcomeClasses t maxFileBytes).contains .broken then .broken
  else if db.outcomeClasses t maxFileBytes ≠ [] then .transient
  else if task.status = .lost then .transient
  else .broken

end ServerDb

namespace Judgements

/-! ### The machine -/

structure World where
  db : ServerDb
  tables : ScheduleDb
  nextLedger : LedgerId

/-- Any database in which nothing is recorded, and any schedules. -/
def World.start (db : ServerDb) (schedules : Table ScheduleId Schedule) : World where
  db := { db with tasks := db.tasks.updateAll fun _ task =>
    { task with outcomeRecordedAt := none, outcomeErroneous := none } }
  tables := { schedules := schedules, ledger := .empty }
  nextLedger := 0

variable (settings : OutcomeSettings) (sched : SchedulerSettings)

/-- One candidate of a tick, with the ledger of its schedule. -/
def World.recordTask (now : Time) (w : World) (t : TaskId) : World :=
  match w.db.tasks.get t with
  | none => w
  | some task =>
      if ServerDb.unrecorded (t, task) = false then w
      else if w.db.ready settings now (t, task) = false then w
      else
        let db := ServerDb.recordTask settings now w.db t
        if task.counted then
          let o : TaskOutcome :=
            { taskId := t
              task := task
              erroneous := (w.db.sealLogs t).taskIsErroneous t task settings.maxFileBytes
              outcomeClass := (w.db.sealLogs t).taskOutcomeClass t task settings.maxFileBytes }
          { db := db
            tables := (w.tables.recordLedger sched now w.nextLedger o).1
            nextLedger := w.nextLedger + 1 }
        else { w with db := db }

/-- `record_task_outcomes`: one tick. -/
def World.recordTaskOutcomes (limit : Nat) (now : Time) (w : World) : World :=
  (w.db.candidates limit).foldl (World.recordTask settings sched now) w

inductive Action where
  | event (now : Time) (ev : AgentEvent) (msg : MessageId)
  | markLost (now : Time) (held : HeldRows) (e : ExecutionId) (reason : ExecLostReason)
  /-- A tick of the recorder. -/
  | record (limit : Nat) (now : Time)

/-- One step. -/
def step (w : World) : Action → Option World
  | .event now ev msg => some { w with db := (w.db.applyEvent now ev msg).1 }
  | .markLost now held e reason => some { w with db := (w.db.markLost held e reason now).1 }
  | .record limit now => some (w.recordTaskOutcomes settings sched limit now)

/-- The event reports that the log has reached the cap, for the first time. -/
def Overruns (maxFileBytes : Nat) (x : Execution) (ev : AgentEvent) : Prop :=
  0 < maxFileBytes ∧ ev.logBytes.any (maxFileBytes ≤ ·) = true ∧
    x.logBytes.any (maxFileBytes ≤ ·) = false

/-- After the event, which is no duplicate, the lost task has another status. -/
def TakesBack (db : ServerDb) (ev : AgentEvent) (t : TaskId) (task : Task) : Prop :=
  task.status = .lost ∧
    (rollupTaskStatus (Retention.statusesAfter db ev t)).any (fun rolled => rolled ≠ .lost) = true

/-- No heartbeat brings an execution of a recorded task over the cap, no event
moves one unless it takes the verdict back, and none is declared lost. -/
def Steady (w : World) : Action → Prop
  | .event _ ev msg => ∀ x ∈ w.db.executions.get ev.executionId,
      ∀ task ∈ w.db.tasks.get x.taskId, task.outcomeRecordedAt.isSome = true →
        (ev.type = .heartbeat → ¬ Overruns settings.maxFileBytes x ev) ∧
          (w.db.audits.get msg = none → nextExecStatus x.status ev.type ≠ x.status →
            TakesBack w.db ev x.taskId task)
  | .markLost _ _ e _ => ∀ x ∈ w.db.executions.get e, ∀ task ∈ w.db.tasks.get x.taskId,
      task.outcomeRecordedAt.isSome = true → x.status.terminal = true
  | .record .. => True

/-! ### What a verdict depends on -/

section Verdicts

variable {db db' : ServerDb} {t : TaskId} {task task' : Task} {maxFileBytes : Nat}
variable {x : Execution} {logFile : Option ExecutionLogFile}

theorem executionOutcomeClass_isSome :
    (executionOutcomeClass x logFile maxFileBytes).isSome =
      executionIsErroneous x logFile maxFileBytes := by
  unfold executionOutcomeClass
  by_cases h : executionIsErroneous x logFile maxFileBytes = false
  · rw [if_pos h, h]
    rfl
  · rw [if_neg h]
    have hsome : ∀ o : Option OutcomeClass, o.isSome = true →
        o.isSome = executionIsErroneous x logFile maxFileBytes := fun o ho => by
      rw [ho, eq_comm]
      simpa using h
    apply hsome
    split
    · rfl
    · split
      · rfl
      · split
        · rfl
        · split
          · rfl
          · rfl

theorem mem_outcomeClasses {c : OutcomeClass} : c ∈ db.outcomeClasses t maxFileBytes ↔
    ∃ e x, db.executions.get e = some x ∧ x.taskId = t ∧
      executionOutcomeClass x (db.logFiles.get ⟨t, e, .log⟩) maxFileBytes = some c := by
  unfold ServerDb.outcomeClasses
  rw [List.mem_filterMap]
  constructor
  · rintro ⟨⟨e, x⟩, hmem, hclass⟩
    obtain ⟨hx, ht⟩ := ServerDb.mem_listExecutions.mp hmem
    exact ⟨e, x, hx, ht, hclass⟩
  · rintro ⟨e, x, hx, ht, hclass⟩
    exact ⟨(e, x), ServerDb.mem_listExecutions.mpr ⟨hx, ht⟩, hclass⟩

theorem taskIsErroneous_iff : db.taskIsErroneous t task maxFileBytes = true ↔
    (task.status = .failed ∨ task.status = .lost) ∨
      ∃ c, c ∈ db.outcomeClasses t maxFileBytes := by
  unfold ServerDb.taskIsErroneous ServerDb.outcomeClasses
  simp only [Bool.or_eq_true, beq_iff_eq, List.any_eq_true, List.mem_filterMap]
  refine or_congr_right ?_
  constructor
  · rintro ⟨r, hr, hbad⟩
    rw [← executionOutcomeClass_isSome, Option.isSome_iff_exists] at hbad
    obtain ⟨c, hc⟩ := hbad
    exact ⟨c, r, hr, hc⟩
  · rintro ⟨c, r, hr, hc⟩
    refine ⟨r, hr, ?_⟩
    rw [← executionOutcomeClass_isSome, hc]
    rfl

/-- **A verdict depends on the status of the task and on which classes there are.** -/
theorem judge_congr
    (h : ∀ c, c ∈ db'.outcomeClasses t maxFileBytes ↔ c ∈ db.outcomeClasses t maxFileBytes)
    (hstatus : task'.status = task.status) :
    db'.taskIsErroneous t task' maxFileBytes = db.taskIsErroneous t task maxFileBytes ∧
      db'.taskOutcomeClass t task' maxFileBytes = db.taskOutcomeClass t task maxFileBytes := by
  have hbad : db'.taskIsErroneous t task' maxFileBytes = db.taskIsErroneous t task maxFileBytes := by
    rw [Bool.eq_iff_iff, taskIsErroneous_iff, taskIsErroneous_iff, hstatus]
    exact or_congr_right (exists_congr h)
  have hbroken : (db'.outcomeClasses t maxFileBytes).contains .broken =
      (db.outcomeClasses t maxFileBytes).contains .broken := by
    rw [Bool.eq_iff_iff, List.contains_iff_mem, List.contains_iff_mem]
    exact h .broken
  have hnil : db'.outcomeClasses t maxFileBytes ≠ [] ↔ db.outcomeClasses t maxFileBytes ≠ [] := by
    rw [Ne, Ne, List.eq_nil_iff_forall_not_mem, List.eq_nil_iff_forall_not_mem]
    simp only [h]
  refine ⟨hbad, ?_⟩
  unfold ServerDb.taskOutcomeClass
  rw [hbad, hbroken, hstatus]
  simp only [hnil]

/-- Two states of an execution that are judged alike. -/
structure Alike (maxFileBytes : Nat) (x x' : Execution) : Prop where
  taskId : x'.taskId = x.taskId
  outcomeClass : ∀ logFile,
    executionOutcomeClass x' logFile maxFileBytes = executionOutcomeClass x logFile maxFileBytes

theorem Alike.refl (x : Execution) : Alike maxFileBytes x x := ⟨rfl, fun _ => rfl⟩

/-- What the class of an execution is read off. -/
theorem Alike.of_fields {x' : Execution} (htask : x'.taskId = x.taskId)
    (hstatus : x'.status = x.status) (hcode : x'.errorCode = x.errorCode)
    (hcount : x'.errorCount = x.errorCount) (hreason : x'.finishReason = x.finishReason)
    (hbytes : (decide (0 < maxFileBytes) && x'.logBytes.any (maxFileBytes ≤ ·)) =
      (decide (0 < maxFileBytes) && x.logBytes.any (maxFileBytes ≤ ·)))
    (hclass : x'.outcomeClass = x.outcomeClass) : Alike maxFileBytes x x' where
  taskId := htask
  outcomeClass := by
    intro logFile
    unfold executionOutcomeClass executionIsErroneous serverJudgedBroken
    rw [hstatus, hcode, hcount, hreason, hbytes, hclass]

/-- What the class of an execution is read off its log file. -/
def logMark (db : ServerDb) (k : LogKey) : Option (LogIntegrity × Option TruncationReason) :=
  (db.logFiles.get k).map fun f => (f.logIntegrity, f.truncationReason)

theorem executionOutcomeClass_log {k : LogKey} (h : logMark db' k = logMark db k) :
    executionOutcomeClass x (db'.logFiles.get k) maxFileBytes =
      executionOutcomeClass x (db.logFiles.get k) maxFileBytes := by
  have hany : ∀ db : ServerDb, (db.logFiles.get k).any (fun f =>
      f.logIntegrity == .truncated && f.truncationReason.any TruncationReason.erroneous) =
        (logMark db k).any (fun m => m.1 == .truncated && m.2.any TruncationReason.erroneous) := by
    intro db
    unfold logMark
    rw [Option.any_map]
  unfold executionOutcomeClass executionIsErroneous serverJudgedBroken
  rw [hany db', hany db, h]

/-- The executions of the task are judged alike. -/
structure SameClasses (maxFileBytes : Nat) (t : TaskId) (db db' : ServerDb) : Prop where
  target : ∀ e x, db.executions.get e = some x → x.taskId = t →
    ∃ x', db'.executions.get e = some x' ∧ Alike maxFileBytes x x'
  source : ∀ e x', db'.executions.get e = some x' → x'.taskId = t →
    ∃ x, db.executions.get e = some x ∧ Alike maxFileBytes x x'
  logs : ∀ k, logMark db' k = logMark db k

theorem SameClasses.mem (h : SameClasses maxFileBytes t db db') (c : OutcomeClass) :
    c ∈ db'.outcomeClasses t maxFileBytes ↔ c ∈ db.outcomeClasses t maxFileBytes := by
  rw [mem_outcomeClasses, mem_outcomeClasses]
  constructor
  · rintro ⟨e, x', hx', ht, hclass⟩
    obtain ⟨x, hx, halike⟩ := h.source e x' hx' ht
    refine ⟨e, x, hx, halike.taskId.symm.trans ht, ?_⟩
    rw [← executionOutcomeClass_log (h.logs _), ← halike.outcomeClass]
    exact hclass
  · rintro ⟨e, x, hx, ht, hclass⟩
    obtain ⟨x', hx', halike⟩ := h.target e x hx ht
    refine ⟨e, x', hx', halike.taskId.trans ht, ?_⟩
    rw [executionOutcomeClass_log (h.logs _), halike.outcomeClass]
    exact hclass

theorem SameClasses.of_executions (h : db'.executions = db.executions)
    (hlogs : ∀ k, logMark db' k = logMark db k) : SameClasses maxFileBytes t db db' where
  target e x hx _ := ⟨x, by rw [h]; exact hx, .refl x⟩
  source e x hx _ := ⟨x, by rw [← h]; exact hx, .refl x⟩
  logs := hlogs

/-- One execution is written; if it is the task's, it is judged as before. -/
theorem SameClasses.of_modify {e : ExecutionId} {f : Execution → Execution}
    (h : db'.executions = db.executions.modify e f)
    (hf : ∀ x, db.executions.get e = some x →
      (f x).taskId = x.taskId ∧ (x.taskId = t → Alike maxFileBytes x (f x)))
    (hlogs : ∀ k, logMark db' k = logMark db k) : SameClasses maxFileBytes t db db' where
  target e' x hx ht := by
    rw [h, Table.get_modify]
    by_cases he : e' = e
    · subst he
      rw [if_pos rfl, hx]
      exact ⟨f x, rfl, (hf x hx).2 ht⟩
    · rw [if_neg he]
      exact ⟨x, hx, .refl x⟩
  source e' x' hx' ht := by
    rw [h, Table.get_modify] at hx'
    by_cases he : e' = e
    · subst he
      rw [if_pos rfl] at hx'
      obtain ⟨x, hx, rfl⟩ := Option.map_eq_some_iff.mp hx'
      exact ⟨x, hx, (hf x hx).2 ((hf x hx).1.symm.trans ht)⟩
    · rw [if_neg he] at hx'
      exact ⟨x', hx', .refl x'⟩
  logs := hlogs

end Verdicts

/-! ### Events -/

section Events

variable {db db' : ServerDb} {now : Time} {ev : AgentEvent} {msg : MessageId}
variable {maxFileBytes : Nat} {x : Execution} {t : TaskId} {task : Task}

/-- A heartbeat that does not bring the log over the cap. -/
theorem alike_heartbeat (h : ¬ Overruns maxFileBytes x ev) :
    Alike maxFileBytes x (heartbeatExecution x ev now) := by
  have hframe : (heartbeatExecution x ev now).taskId = x.taskId ∧
      (heartbeatExecution x ev now).status = x.status ∧
      (heartbeatExecution x ev now).errorCode = x.errorCode ∧
      (heartbeatExecution x ev now).errorCount = x.errorCount ∧
      (heartbeatExecution x ev now).finishReason = x.finishReason ∧
      (heartbeatExecution x ev now).outcomeClass = x.outcomeClass ∧
      ((heartbeatExecution x ev now).logBytes = x.logBytes ∨
        ∃ n, ev.logBytes = some n ∧ x.logBytes.getD 0 < n ∧
          (heartbeatExecution x ev now).logBytes = some n) := by
    unfold heartbeatExecution
    dsimp only
    rcases hbytes : ev.logBytes with - | n
    · exact ⟨rfl, rfl, rfl, rfl, rfl, rfl, .inl rfl⟩
    · dsimp only
      split
      · rename_i hgrows
        exact ⟨rfl, rfl, rfl, rfl, rfl, rfl, .inr ⟨n, rfl, hgrows, rfl⟩⟩
      · exact ⟨rfl, rfl, rfl, rfl, rfl, rfl, .inl rfl⟩
  obtain ⟨htask, hstatus, hcode, hcount, hreason, hclass, hbytes⟩ := hframe
  refine .of_fields htask hstatus hcode hcount hreason ?_ hclass
  rcases hbytes with hsame | ⟨n, hn, hgrows, hnew⟩
  · rw [hsame]
  · -- the size grows: on one side of the cap
    rw [hnew]
    by_cases hcap : 0 < maxFileBytes
    · rw [decide_eq_true hcap, Bool.true_and, Bool.true_and, Option.any_some]
      by_cases hover : x.logBytes.any (maxFileBytes ≤ ·) = true
      · rw [hover, decide_eq_true_eq]
        obtain ⟨m, hm, hle⟩ := (Option.any_eq_true _ _).mp hover
        rw [hm] at hgrows
        exact Nat.le_of_lt (Nat.lt_of_le_of_lt (of_decide_eq_true hle) hgrows)
      · rw [Bool.not_eq_true] at hover
        rw [hover, decide_eq_false_iff_not]
        intro hle
        refine h ⟨hcap, ?_, hover⟩
        rw [hn, Option.any_some]
        exact decide_eq_true hle
    · rw [decide_eq_false hcap, Bool.false_and, Bool.false_and]

/-- An event that leaves the status leaves the class. -/
theorem alike_lifecycle {new : ExecStatus} (hnew : ev.type.toExec = some new)
    (h : nextExecStatus x.status ev.type = x.status) :
    Alike maxFileBytes x (markAlive (ServerDb.moveExecution x ev new now).1 now) := by
  have halive : ∀ y, Alike maxFileBytes x y → Alike maxFileBytes x (markAlive y now) := fun y hy =>
    ⟨hy.taskId, fun logFile => (hy.outcomeClass logFile)⟩
  apply halive
  have hstatus := (moveExecution_status now (e := x) hnew).1
  rw [h] at hstatus
  unfold ServerDb.moveExecution at hstatus ⊢
  split
  · -- the reason of a loss is not judged
    split
    · unfold maybeUpdateLostReason
      split
      · exact .refl x
      · split
        · exact .of_fields rfl rfl rfl rfl rfl rfl rfl
        · exact .refl x
    · exact .refl x
  · rename_i hne
    rw [if_neg hne] at hstatus
    split
    · rename_i hover
      rw [if_pos hover, applyStatus_status] at hstatus
      exact absurd hstatus.symm hne
    · rename_i hover
      rw [if_neg hover] at hstatus
      split
      · exact .refl x
      · rename_i hreclaim
        rw [if_neg hreclaim] at hstatus
        split
        · exact .refl x
        · rename_i hterminal
          rw [if_neg hterminal] at hstatus
          split
          · rename_i hvalid
            rw [if_pos hvalid, applyStatus_status] at hstatus
            exact absurd hstatus.symm hne
          · exact .refl x

/-- What an event does to the rows of executions and tasks. -/
inductive EventRows (db : ServerDb) (now : Time) (ev : AgentEvent) (msg : MessageId)
    (db' : ServerDb) : Prop
  | none : db'.executions = db.executions → db'.tasks = db.tasks → EventRows db now ev msg db'
  | heartbeat : ev.type = .heartbeat →
      db'.executions = db.executions.modify ev.executionId (heartbeatExecution · ev now) →
      db'.tasks = db.tasks → EventRows db now ev msg db'
  | lifecycle (new : ExecStatus) (x : Execution) : ev.type.toExec = some new →
      db.audits.get msg = none → db.executions.get ev.executionId = some x →
      db'.executions = db.executions.modify ev.executionId
        (fun _ => markAlive (ServerDb.moveExecution x ev new now).1 now) →
      db'.tasks = db.tasks.modify x.taskId (fun task =>
        rollTask task ((db'.listExecutions x.taskId).map Prod.snd) now) →
      EventRows db now ev msg db'

theorem applyEvent_rows (db : ServerDb) (now : Time) (ev : AgentEvent) (msg : MessageId) :
    EventRows db now ev msg (db.applyEvent now ev msg).1 := by
  rcases hnew : ev.type.toExec with - | new
  · have htype : ev.type = .heartbeat := by
      cases ht : ev.type <;> rw [ht] at hnew <;> first | rfl | cases hnew
    rcases hx : db.executions.get ev.executionId with - | x
    · have hsame : db.applyEvent now ev msg = (db, .skippedNoAttempt) := by
        unfold ServerDb.applyEvent
        rw [hnew]
        simp only [hx]
      rw [hsame]
      exact .none rfl rfl
    · have hbeat : db.applyEvent now ev msg = db.applyHeartbeat now ev msg x := by
        unfold ServerDb.applyEvent
        rw [hnew]
        simp only [hx]
      rw [hbeat]
      unfold ServerDb.applyHeartbeat
      dsimp only
      split
      · split
        · exact .heartbeat htype rfl rfl
        · exact .heartbeat htype rfl rfl
      · exact .heartbeat htype rfl rfl
  · by_cases hdup : (db.audits.get msg).isSome = true
    · have hsame : db.applyEvent now ev msg = (db, .skippedDup) := by
        unfold ServerDb.applyEvent
        rw [hnew]
        exact if_pos hdup
      rw [hsame]
      exact .none rfl rfl
    · rcases hx : db.executions.get ev.executionId with - | x
      · have hsame : db.applyEvent now ev msg =
            (db.audit msg ev .skippedNoAttempt, .skippedNoAttempt) := by
          unfold ServerDb.applyEvent
          rw [hnew]
          simp only [if_neg hdup, hx]
        rw [hsame]
        exact .none rfl rfl
      · have hlife : db.applyEvent now ev msg = db.applyLifecycle now ev msg new x := by
          unfold ServerDb.applyEvent
          rw [hnew]
          simp only [if_neg hdup, hx]
        rw [hlife]
        refine .lifecycle new x hnew ?_ hx ServerDb.applyLifecycle_executions
          ServerDb.applyLifecycle_tasks
        exact Option.not_isSome_iff_eq_none.mp hdup

/-- A roll-up records nothing. -/
theorem rollTask_recorded_source {executions : List Execution}
    (h : (rollTask task executions now).outcomeRecordedAt.isSome = true) :
    task.outcomeRecordedAt.isSome = true := by
  have hconverged : (convergeTask task executions now).outcomeRecordedAt = task.outcomeRecordedAt :=
    (Retention.convergeTask_outcome task executions now).2
  rw [← hconverged]
  unfold rollTask at h
  dsimp only at h
  split at h
  · exact h
  · split at h
    · dsimp only at h
      split at h
      · cases h
      · exact h
    · exact h

/-- **A roll-up of a recorded task** leaves its row, or takes the verdict back. -/
theorem rollTask_stays {executions : List Execution} (hterminal : task.status.terminal = true)
    (hrec : (rollTask task executions now).outcomeRecordedAt.isSome = true) :
    rollTask task executions now = task ∧ ¬ (task.status = .lost ∧
      (rollupTaskStatus (executions.map (·.status))).any (fun rolled => rolled ≠ .lost) = true) := by
  have hconverged : convergeTask task executions now = task := by
    unfold convergeTask
    dsimp only
    refine if_neg fun hqueued => ?_
    rw [hqueued.1] at hterminal
    cases hterminal
  have hinactive : ¬ task.status.active = true := by
    simpa [TaskStatus.terminal] using hterminal
  unfold rollTask at hrec ⊢
  dsimp only at hrec ⊢
  rw [hconverged] at hrec ⊢
  rcases hroll : rollupTaskStatus (executions.map (·.status)) with - | rolled
  · rw [hroll]
    refine ⟨rfl, fun hc => ?_⟩
    cases hc.2
  · rw [hroll] at hrec ⊢
    dsimp only at hrec ⊢
    by_cases hmoves : rolled ≠ task.status ∧ (task.status.active = true ∨ task.status = .lost) ∧
        isValidTaskTransition task.status rolled = true
    · -- a lost task moves, and is not recorded any more
      rw [if_pos hmoves] at hrec
      have hlost : task.status = .lost := hmoves.2.1.resolve_left hinactive
      by_cases hsome : task.outcomeRecordedAt.isSome = true
      · rw [if_pos ⟨hlost, hsome⟩] at hrec
        cases hrec
      · rw [if_neg fun hc => hsome hc.2] at hrec
        exact absurd hrec hsome
    · rw [if_neg hmoves]
      refine ⟨rfl, ?_⟩
      rintro ⟨hlost, hother⟩
      refine hmoves ⟨?_, .inr hlost, ?_⟩
      · rw [hlost]
        exact of_decide_eq_true hother
      · rw [hlost]
        rcases rollup_eq_some hroll with ⟨-, rfl⟩ | ⟨-, -, rfl⟩ | ⟨-, -, -, rfl⟩ | ⟨-, -, -, rfl⟩
        · rfl
        · rfl
        · rfl
        · rfl

end Events

/-! ### The invariant -/

/-- What holds of every world: the verdict on a recorded task is the one its
rows give. -/
structure Inv (w : World) : Prop where
  terminal : ∀ t task, w.db.tasks.get t = some task → task.outcomeRecordedAt.isSome = true →
    task.status.terminal = true
  judged : ∀ t task, w.db.tasks.get t = some task → task.outcomeRecordedAt.isSome = true →
    task.outcomeErroneous = some (w.db.taskIsErroneous t task settings.maxFileBytes)
  ledgered : ∀ t task, w.db.tasks.get t = some task → task.outcomeRecordedAt.isSome = true →
    ∀ r ∈ w.tables.ledger.rows, r.2.taskId = t →
      r.2.outcomeClass = some (w.db.taskOutcomeClass t task settings.maxFileBytes)
  counted : ∀ r ∈ w.tables.ledger.rows, ∃ task sid, w.db.tasks.get r.2.taskId = some task ∧
    task.counted = true ∧ task.scheduleId = some sid ∧ (w.tables.schedules.get sid).isSome = true

section Steps

variable {settings sched} {w w' : World} {db' : ServerDb} {a : Action} {t : TaskId} {task : Task}

theorem Inv.start (db : ServerDb) (schedules : Table ScheduleId Schedule) :
    Inv settings (World.start db schedules) := by
  have hnone : ∀ t task, (World.start db schedules).db.tasks.get t = some task →
      ¬ task.outcomeRecordedAt.isSome = true := by
    intro t task htask
    have htask : (db.tasks.updateAll _).get t = some task := htask
    rw [Table.get_updateAll] at htask
    obtain ⟨task₀, -, rfl⟩ := Option.map_eq_some_iff.mp htask
    simp
  exact ⟨fun t task htask hrec => absurd hrec (hnone t task htask),
    fun t task htask hrec => absurd hrec (hnone t task htask),
    fun t task htask hrec => absurd hrec (hnone t task htask), fun r hr => by cases hr⟩

/-- **Steps of other writers**: a task that is recorded was so before, its row
stays, and its executions are judged alike. -/
theorem Inv.of_db (hinv : Inv settings w)
    (hkeeps : ∀ t task, db'.tasks.get t = some task → task.outcomeRecordedAt.isSome = true →
      w.db.tasks.get t = some task ∧ SameClasses settings.maxFileBytes t w.db db')
    (hmoves : w.db.TasksMove db') : Inv settings { w with db := db' } where
  terminal t task htask hrec := hinv.terminal t task (hkeeps t task htask hrec).1 hrec
  judged t task htask hrec := by
    obtain ⟨hold, hsame⟩ := hkeeps t task htask hrec
    exact (hinv.judged t task hold hrec).trans
      (congrArg some (judge_congr hsame.mem rfl).1.symm)
  ledgered t task htask hrec r hr ht := by
    obtain ⟨hold, hsame⟩ := hkeeps t task htask hrec
    exact (hinv.ledgered t task hold hrec r hr ht).trans
      (congrArg some (judge_congr hsame.mem rfl).2.symm)
  counted r hr := by
    obtain ⟨task, sid, htask, hcounted, hsid, hs⟩ := hinv.counted r hr
    obtain ⟨task', htask', hmove⟩ := hmoves.target htask
    refine ⟨task', sid, htask', ?_, hmove.scheduleId.trans hsid, hs⟩
    unfold Task.counted at hcounted ⊢
    rw [hmove.scheduleId, hmove.source]
    exact hcounted

/-- **An event.** -/
theorem Inv.applyEvent (hinv : Inv settings w) {now : Time} {ev : AgentEvent} {msg : MessageId}
    (hok : Steady settings w (.event now ev msg)) :
    Inv settings { w with db := (w.db.applyEvent now ev msg).1 } := by
  have hlogs : ∀ k, logMark (w.db.applyEvent now ev msg).1 k = logMark w.db k := fun k => by
    unfold logMark
    rw [Cleanups.applyEvent_logFiles]
  refine hinv.of_db (fun t task htask hrec => ?_) (ServerDb.applyEvent_tasksMove ev msg)
  cases applyEvent_rows w.db now ev msg with
  | none hexecs htasks =>
      rw [htasks] at htask
      exact ⟨htask, .of_executions hexecs hlogs⟩
  | heartbeat htype hexecs htasks =>
      rw [htasks] at htask
      refine ⟨htask, .of_modify hexecs (fun x hx => ⟨?_, fun ht => ?_⟩) hlogs⟩
      · unfold heartbeatExecution
        dsimp only
        split
        · rfl
        · split
          · rfl
          · rfl
      · subst ht
        exact alike_heartbeat ((hok x hx task htask hrec).1 htype)
  | lifecycle new x hnew hfresh hx hexecs htasks =>
      rw [htasks, Table.get_modify] at htask
      have htaskId : (markAlive (ServerDb.moveExecution x ev new now).1 now).taskId = x.taskId :=
        (moveExecution_status now hnew).2
      have hmodify : ∀ y, w.db.executions.get ev.executionId = some y → y = x := fun y hy =>
        Option.some.inj (hy.symm.trans hx)
      by_cases ht : t = x.taskId
      · subst ht
        rw [if_pos rfl] at htask
        obtain ⟨task₀, htask₀, rfl⟩ := Option.map_eq_some_iff.mp htask
        have hrec₀ : task₀.outcomeRecordedAt.isSome = true := rollTask_recorded_source hrec
        obtain ⟨hsame, hstays⟩ := rollTask_stays (hinv.terminal _ task₀ htask₀ hrec₀) hrec
        refine ⟨hsame.symm ▸ htask₀, .of_modify hexecs (fun y hy => ?_) hlogs⟩
        obtain rfl := hmodify y hy
        refine ⟨htaskId, fun _ => alike_lifecycle hnew ?_⟩
        -- an event that moves the execution takes the verdict back
        by_contra hmoved
        obtain ⟨hlost, hroll⟩ := (hok y hx task₀ htask₀ hrec₀).2 hfresh hmoved
        refine hstays ⟨hlost, ?_⟩
        rw [← Retention.rollup_statusesAfter hfresh] at hroll
        rw [List.map_map]
        exact hroll
      · rw [if_neg ht] at htask
        refine ⟨htask, .of_modify hexecs (fun y hy => ?_) hlogs⟩
        obtain rfl := hmodify y hy
        exact ⟨htaskId, fun hc => absurd hc.symm ht⟩

/-- What a loss declares, on rows. -/
theorem markLost_rows (db : ServerDb) (held : HeldRows) (e : ExecutionId)
    (reason : ExecLostReason) (now : Time) : (db.markLost held e reason now).1 = db ∨
      ∃ x f, db.executions.get e = some x ∧ ¬ x.status.terminal = true ∧
        (db.markLost held e reason now).1.executions =
          db.executions.modify e (fun x => x.loseWith reason now) ∧
        (db.markLost held e reason now).1.tasks = db.tasks.modify x.taskId f ∧
        ∀ task, (f task).outcomeRecordedAt = task.outcomeRecordedAt := by
  rcases hx : db.executions.get e with - | x
  · refine .inl ?_
    unfold ServerDb.markLost
    rw [hx]
  · by_cases hactive : x.status.terminal = true
    · refine .inl ?_
      unfold ServerDb.markLost
      rw [hx]
      dsimp only
      rw [if_pos hactive]
    · rcases ServerDb.markLost_tasks db held e reason now with
        hsame | ⟨y, hy, -, held', -, htasks⟩
      · exact .inl hsame
      · obtain rfl : y = x := Option.some.inj (hy.symm.trans hx)
        refine .inr ⟨y, _, rfl, hactive, ?_, htasks, fun task => ?_⟩
        · unfold ServerDb.markLost
          rw [hx]
          dsimp only
          rw [if_neg hactive]
          rfl
        · unfold ServerDb.rollupRow
          split
          · rfl
          · split
            · rfl
            · split
              · rfl
              · rfl

theorem markLost_logMark (db : ServerDb) (held : HeldRows) (e : ExecutionId)
    (reason : ExecLostReason) (now : Time) (k : LogKey) :
    logMark (db.markLost held e reason now).1 k = logMark db k := by
  have hdrain : ∀ f : ExecutionLogFile, (f.drain.logIntegrity, f.drain.truncationReason) =
      (f.logIntegrity, f.truncationReason) := by
    intro f
    unfold ExecutionLogFile.drain
    split
    · rfl
    · rfl
  unfold ServerDb.markLost
  split
  · rfl
  · rename_i x _
    dsimp only
    split
    · rfl
    · show Option.map _ ((db.logFiles.modify ⟨x.taskId, e, .log⟩ (·.drain)).get k) = _
      rw [Table.get_modify]
      split
      · rename_i hk
        subst hk
        rw [Option.map_map]
        unfold logMark
        congr 1
        funext f
        exact hdrain f
      · rfl

/-- **A loss.** -/
theorem Inv.markLost (hinv : Inv settings w) {now : Time} {held : HeldRows} {e : ExecutionId}
    {reason : ExecLostReason} (hok : Steady settings w (.markLost now held e reason)) :
    Inv settings { w with db := (w.db.markLost held e reason now).1 } := by
  refine hinv.of_db (fun t task htask hrec => ?_) ServerDb.markLost_tasksMove
  rcases markLost_rows w.db held e reason now with
    hsame | ⟨x, f, hx, hactive, hexecs, htasks, hf⟩
  · rw [hsame] at htask ⊢
    exact ⟨htask, .of_executions rfl fun _ => rfl⟩
  · rw [htasks, Table.get_modify] at htask
    by_cases ht : t = x.taskId
    · -- the task of an execution that is declared lost was not recorded
      subst ht
      rw [if_pos rfl] at htask
      obtain ⟨task₀, htask₀, rfl⟩ := Option.map_eq_some_iff.mp htask
      rw [hf] at hrec
      exact absurd (hok x hx task₀ htask₀ hrec) hactive
    · rw [if_neg ht] at htask
      refine ⟨htask, .of_modify hexecs (fun y hy => ⟨rfl, fun hc => ?_⟩)
        (markLost_logMark w.db held e reason now)⟩
      obtain rfl : y = x := Option.some.inj (hy.symm.trans hx)
      exact absurd hc.symm ht

/-! ### The recorder -/

/-- The rows of the ledger after an upsert. -/
theorem mem_upsert_class {ledger : Table LedgerId ScheduleOutcomeLedger} {id : LedgerId}
    {row : ScheduleOutcomeLedger} {r : LedgerId × ScheduleOutcomeLedger}
    (h : r ∈ (Ledger.upsert ledger id row).rows) :
    r ∈ ledger.rows ∧ r.2.taskId ≠ row.taskId ∨
      r.2.taskId = row.taskId ∧ r.2.outcomeClass = row.outcomeClass := by
  unfold Ledger.upsert at h
  by_cases hany : (ledger.rows.any fun r => r.2.taskId = row.taskId) = true
  · rw [if_pos hany] at h
    obtain ⟨old, hold, rfl⟩ := List.mem_map.mp h
    by_cases ht : old.2.taskId = row.taskId
    · refine .inr ?_
      simp only [if_pos ht, and_self]
    · refine .inl ?_
      simp only [if_neg ht]
      exact ⟨hold, ht⟩
  · rw [if_neg hany] at h
    have hother : ∀ old ∈ ledger.rows, old.2.taskId ≠ row.taskId := fun old hold ht =>
      hany (List.any_eq_true.mpr ⟨old, hold, decide_eq_true ht⟩)
    unfold Table.insert at h
    split at h
    · exact .inl ⟨h, hother r h⟩
    · rcases List.mem_append.mp h with h | h
      · exact .inl ⟨h, hother r h⟩
      · obtain rfl := List.mem_singleton.mp h
        exact .inr ⟨rfl, rfl⟩

/-- **What a recording does to the ledger**: the rows of its task get its class,
other rows stay or go. -/
theorem mem_recordLedger {db : ScheduleDb} {now : Time} {id : LedgerId} {o : TaskOutcome}
    {r : LedgerId × ScheduleOutcomeLedger} (h : r ∈ (db.recordLedger sched now id o).1.ledger.rows) :
    r ∈ db.ledger.rows ∧ (r.2.taskId = o.taskId → o.task.scheduleId = none ∨
        ∃ sid, o.task.scheduleId = some sid ∧ db.schedules.get sid = none) ∨
      (r.2.taskId = o.taskId ∧ r.2.outcomeClass = some o.outcomeClass ∧
        ∃ sid, o.task.scheduleId = some sid ∧ (db.schedules.get sid).isSome = true) := by
  unfold ScheduleDb.recordLedger at h
  rcases hsid : o.task.scheduleId with - | sid
  · simp only [hsid] at h
    exact .inl ⟨h, fun _ => .inl rfl⟩
  · simp only [hsid] at h
    rcases hs : db.schedules.get sid with - | s
    · simp only [hs] at h
      exact .inl ⟨h, fun _ => .inr ⟨sid, rfl, hs⟩⟩
    · simp only [hs] at h
      have hup : r ∈ (Ledger.upsert db.ledger id (o.ledgerRow now sid)).rows :=
        List.mem_of_mem_filter h
      rcases mem_upsert_class hup with ⟨hold, hne⟩ | ⟨ht, hclass⟩
      · exact .inl ⟨hold, fun ht => absurd ht hne⟩
      · refine .inr ⟨ht, hclass, sid, rfl, ?_⟩
        rw [hs]
        rfl

/-- A recording keeps the schedules. -/
theorem recordLedger_isSome {db : ScheduleDb} {now : Time} {id : LedgerId} {o : TaskOutcome}
    {sid : ScheduleId} (h : (db.schedules.get sid).isSome = true) :
    ((db.recordLedger sched now id o).1.schedules.get sid).isSome = true := by
  obtain ⟨s, hs⟩ := Option.isSome_iff_exists.mp h
  by_cases hsid : o.task.scheduleId = some sid
  · rw [(ScheduleDb.recordLedger_spec sched now id hsid hs).2 sid, if_pos rfl]
    rfl
  · rw [ScheduleDb.recordLedger_other hsid]
    exact h

/-- What the recorder writes into the row of the task. -/
def recorded (erroneous : Bool) (now : Time) (task : Task) : Task :=
  { task with
    outcomeErroneous := some erroneous
    outcomeRecordedAt := some now
    updatedAt := now }

/-- **One candidate**: nothing, or its row and the rows of its schedule. -/
theorem recordTask_cases (settings : OutcomeSettings) (sched : SchedulerSettings) (now : Time)
    (w : World) (t : TaskId) : w.recordTask settings sched now t = w ∨
      ∃ task, w.db.tasks.get t = some task ∧ task.status.terminal = true ∧
        (w.recordTask settings sched now t).db = (w.db.sealLogs t).updateTask t
          (recorded ((w.db.sealLogs t).taskIsErroneous t task settings.maxFileBytes) now) ∧
        (task.counted = false ∧ (w.recordTask settings sched now t).tables = w.tables ∨
          task.counted = true ∧ ∃ o : TaskOutcome, o.taskId = t ∧ o.task = task ∧
            o.outcomeClass = (w.db.sealLogs t).taskOutcomeClass t task settings.maxFileBytes ∧
            (w.recordTask settings sched now t).tables =
              (w.tables.recordLedger sched now w.nextLedger o).1) := by
  unfold World.recordTask
  rcases hget : w.db.tasks.get t with - | task
  · exact .inl rfl
  · dsimp only
    by_cases hun : ServerDb.unrecorded (t, task) = false
    · rw [if_pos hun]
      exact .inl rfl
    · rw [if_neg hun]
      by_cases hready : w.db.ready settings now (t, task) = false
      · rw [if_pos hready]
        exact .inl rfl
      · rw [if_neg hready]
        have hterminal : task.status.terminal = true := by
          unfold ServerDb.unrecorded at hun
          simp only [Bool.not_eq_false, Bool.and_eq_true] at hun
          exact hun.1
        have hdb : ServerDb.recordTask settings now w.db t = (w.db.sealLogs t).updateTask t
            (recorded ((w.db.sealLogs t).taskIsErroneous t task settings.maxFileBytes) now) := by
          unfold ServerDb.recordTask
          rw [hget]
          dsimp only
          rw [if_neg hun, if_neg hready]
          rfl
        refine .inr ⟨task, rfl, hterminal, ?_⟩
        by_cases hcounted : task.counted = true
        · rw [if_pos hcounted]
          exact ⟨hdb, .inr ⟨hcounted, _, rfl, rfl, rfl, rfl⟩⟩
        · rw [if_neg hcounted]
          exact ⟨hdb, .inl ⟨by simpa using hcounted, rfl⟩⟩

theorem sealLogs_logMark (db : ServerDb) (t : TaskId) (k : LogKey) :
    logMark (db.sealLogs t) k = logMark db k := by
  show Option.map _ ((db.logFiles.updateAll _).get k) = _
  rw [Table.get_updateAll, Option.map_map]
  unfold logMark
  congr 1
  funext f
  simp only [Function.comp]
  split
  · rfl
  · rfl

/-- **One candidate keeps every verdict right.** -/
theorem Inv.recordTask (hinv : Inv settings w) (now : Time) (t : TaskId) :
    Inv settings (w.recordTask settings sched now t) := by
  rcases recordTask_cases settings sched now w t with
    hsame | ⟨task, htask, hterminal, hdb, htables⟩
  · rw [hsame]
    exact hinv
  · have hget : ∀ t', (w.recordTask settings sched now t).db.tasks.get t' =
        if t' = t then some (recorded
          ((w.db.sealLogs t).taskIsErroneous t task settings.maxFileBytes) now task)
        else w.db.tasks.get t' := by
      intro t'
      rw [hdb]
      show (w.db.tasks.modify t _).get t' = _
      rw [Table.get_modify]
      by_cases ht : t' = t
      · subst ht
        rw [if_pos rfl, if_pos rfl, htask]
        rfl
      · rw [if_neg ht, if_neg ht]
    have hsame : ∀ t', SameClasses settings.maxFileBytes t' (w.db.sealLogs t)
        (w.recordTask settings sched now t).db := fun t' => by
      rw [hdb]
      exact .of_executions rfl fun _ => rfl
    have hsealed : ∀ t', SameClasses settings.maxFileBytes t' w.db
        (w.recordTask settings sched now t).db := fun t' => by
      rw [hdb]
      exact .of_executions rfl fun k => sealLogs_logMark w.db t k
    -- the rows of the ledger are old ones, or carry the class of the candidate
    have hrows : ∀ r ∈ (w.recordTask settings sched now t).tables.ledger.rows,
        r ∈ w.tables.ledger.rows ∧ r.2.taskId ≠ t ∨
          r.2.taskId = t ∧ task.counted = true ∧
            r.2.outcomeClass =
              some ((w.db.sealLogs t).taskOutcomeClass t task settings.maxFileBytes) ∧
            ∃ sid, task.scheduleId = some sid ∧ (w.tables.schedules.get sid).isSome = true := by
      intro r hr
      rcases htables with ⟨hcounted, hkeep⟩ | ⟨hcounted, o, ho, rfl, hclass, hledger⟩
      · rw [hkeep] at hr
        refine .inl ⟨hr, fun ht => ?_⟩
        obtain ⟨task', sid, htask', hcounted', -⟩ := hinv.counted r hr
        rw [ht, htask] at htask'
        obtain rfl := Option.some.inj htask'
        rw [hcounted] at hcounted'
        cases hcounted'
      · rw [hledger] at hr
        rcases mem_recordLedger hr with ⟨hold, hmissing⟩ | ⟨ht, hnew, sid, hsid, hs⟩
        · refine .inl ⟨hold, fun ht => ?_⟩
          obtain ⟨task', sid, htask', -, hsid, hs⟩ := hinv.counted r hold
          rw [ht, htask] at htask'
          obtain rfl := Option.some.inj htask'
          rcases hmissing (ht.trans ho.symm) with hnone | ⟨sid', hsid', hgone⟩
          · rw [hnone] at hsid
            cases hsid
          · obtain rfl := Option.some.inj (hsid'.symm.trans hsid)
            rw [hgone] at hs
            cases hs
        · exact .inr ⟨ht.trans ho, hcounted, hnew.trans (congrArg some hclass), sid, hsid, hs⟩
    have hschedules : ∀ sid, (w.tables.schedules.get sid).isSome = true →
        ((w.recordTask settings sched now t).tables.schedules.get sid).isSome = true := by
      intro sid hs
      rcases htables with ⟨-, hkeep⟩ | ⟨-, o, -, -, -, hledger⟩
      · rw [hkeep]
        exact hs
      · rw [hledger]
        exact recordLedger_isSome hs
    constructor
    case terminal =>
      intro t' task' htask' hrec
      rw [hget] at htask'
      by_cases ht : t' = t
      · rw [if_pos ht] at htask'
        obtain rfl := Option.some.inj htask'
        exact hterminal
      · rw [if_neg ht] at htask'
        exact hinv.terminal t' task' htask' hrec
    case judged =>
      intro t' task' htask' hrec
      rw [hget] at htask'
      by_cases ht : t' = t
      · subst ht
        rw [if_pos rfl] at htask'
        obtain rfl := Option.some.inj htask'
        exact congrArg some (judge_congr (hsame t').mem rfl).1.symm
      · rw [if_neg ht] at htask'
        exact (hinv.judged t' task' htask' hrec).trans
          (congrArg some (judge_congr (hsealed t').mem rfl).1.symm)
    case ledgered =>
      intro t' task' htask' hrec r hr hrt
      rw [hget] at htask'
      rcases hrows r hr with ⟨hold, hne⟩ | ⟨hrt', -, hclass, -⟩
      · have ht : t' ≠ t := fun ht => hne (hrt.trans ht)
        rw [if_neg ht] at htask'
        exact (hinv.ledgered t' task' htask' hrec r hold hrt).trans
          (congrArg some (judge_congr (hsealed t').mem rfl).2.symm)
      · obtain rfl : t' = t := hrt.symm.trans hrt'
        rw [if_pos rfl] at htask'
        obtain rfl := Option.some.inj htask'
        exact hclass.trans (congrArg some (judge_congr (hsame t').mem rfl).2.symm)
    case counted =>
      intro r hr
      rcases hrows r hr with ⟨hold, hne⟩ | ⟨hrt, hcounted, -, sid, hsid, hs⟩
      · obtain ⟨task', sid, htask', hcounted, hsid, hs⟩ := hinv.counted r hold
        refine ⟨task', sid, ?_, hcounted, hsid, hschedules sid hs⟩
        rw [hget, if_neg hne]
        exact htask'
      · have hnew := hget r.2.taskId
        rw [if_pos hrt] at hnew
        exact ⟨_, sid, hnew, hcounted, hsid, hschedules sid hs⟩

/-- **A tick.** -/
theorem Inv.recordTasks (now : Time) (ts : List TaskId) : ∀ {w : World}, Inv settings w →
    Inv settings (ts.foldl (World.recordTask settings sched now) w) := by
  induction ts with
  | nil =>
      intro w hinv
      exact hinv
  | cons t ts ih =>
      intro w hinv
      exact ih (hinv.recordTask now t)

/-- **A step.** -/
theorem Inv.next (hok : Steady settings w a) (h : step settings sched w a = some w')
    (hinv : Inv settings w) : Inv settings w' := by
  cases a with
  | event now ev msg =>
      obtain rfl := Option.some.inj h
      exact hinv.applyEvent hok
  | markLost now held e reason =>
      obtain rfl := Option.some.inj h
      exact hinv.markLost hok
  | record limit now =>
      obtain rfl := Option.some.inj h
      exact hinv.recordTasks now _

/-- **Recorded outcomes stay right**, in every run in which no event and no loss
changes how an execution of a recorded task is judged without taking the verdict
back. -/
theorem judged {db : ServerDb} {schedules : Table ScheduleId Schedule}
    (h : RunOk (step settings sched) (Steady settings) (World.start db schedules) w) :
    ∀ t task, w.db.tasks.get t = some task → task.outcomeRecordedAt.isSome = true →
      task.outcomeErroneous = some (w.db.taskIsErroneous t task settings.maxFileBytes) ∧
        ∀ r ∈ w.tables.ledger.rows, r.2.taskId = t →
          r.2.outcomeClass = some (w.db.taskOutcomeClass t task settings.maxFileBytes) := by
  intro t task htask hrec
  have hinv : Inv settings w :=
    h.invariant (fun _ _ _ hi hok hs => hi.next hok hs) (.start db schedules)
  exact ⟨hinv.judged t task htask hrec, hinv.ledgered t task htask hrec⟩

end Steps

/-! ### A late override of one of two executions -/

instance (maxFileBytes : Nat) (x : Execution) (ev : AgentEvent) :
    Decidable (Overruns maxFileBytes x ev) := inferInstanceAs (Decidable (_ ∧ _ ∧ _))

instance (db : ServerDb) (ev : AgentEvent) (t : TaskId) (task : Task) :
    Decidable (TakesBack db ev t task) := inferInstanceAs (Decidable (_ ∧ _))

instance (settings : OutcomeSettings) (w : World) (a : Action) : Decidable (Steady settings w a) :=
  match a with
  | .event _ ev msg => inferInstanceAs
      (Decidable (∀ x ∈ w.db.executions.get ev.executionId, ∀ task ∈ w.db.tasks.get x.taskId,
        task.outcomeRecordedAt.isSome = true →
          (ev.type = .heartbeat → ¬ Overruns settings.maxFileBytes x ev) ∧
            (w.db.audits.get msg = none → nextExecStatus x.status ev.type ≠ x.status →
              TakesBack w.db ev x.taskId task)))
  | .markLost _ _ e _ => inferInstanceAs
      (Decidable (∀ x ∈ w.db.executions.get e, ∀ task ∈ w.db.tasks.get x.taskId,
        task.outcomeRecordedAt.isSome = true → x.status.terminal = true))
  | .record .. => isTrue trivial

theorem noEscalation : (0 : Time) ≤ 0 := Int.le_refl 0

def sampleSched : SchedulerSettings where
  autoDisableAfterErrors := 3
  breakerBackoffBaseSeconds := 60
  breakerBackoffMaxSeconds := 3600
  breakerEscalateAfterSeconds := 0
  one_le_base := by decide
  base_le_max := by decide
  escalate_nonneg := noEscalation

def sampleOutcomes : OutcomeSettings where
  lostOutcomeGraceSeconds := 600
  logDrainTimeoutSeconds := 30
  maxFileBytes := 1000

/-- Task 7 of schedule 3 runs on two agents. -/
def sampleDb : ServerDb :=
  { ServerDb.empty with
    tasks := ServerDb.empty.tasks.insert 7
      { status := .running, source := .timer, scheduleId := some 3 }
    executions := (ServerDb.empty.executions.insert 1
      { taskId := 7, agentId := 1, status := .running }).insert 2
      { taskId := 7, agentId := 2, status := .running } }

def sampleSchedules : Table ScheduleId Schedule :=
  (Table.empty : Table ScheduleId Schedule).insert 3 { executionTemplateId := 0 }

def sampleFailed (e : ExecutionId) (outcomeClass : Option String) : AgentEvent where
  eventId := e
  agentId := e
  taskId := 7
  executionId := e
  type := .failed
  outcomeClass := outcomeClass

/-- Execution 1 fails for want of its host, execution 2 is lost, and the task is
recorded as failed. -/
def sampleRecorded : List Action :=
  [.event 10 (sampleFailed 1 (some "transient")) 0, .markLost 20 .none 2 (.wire .heartbeatTimeout),
    .record 50 1000]

/-- Then agent 2 reports that execution 2 failed, with no class. -/
def sampleOverridden : List Action := sampleRecorded ++ [.event 1010 (sampleFailed 2 none) 1]

/-- The recorder has nothing more to record. -/
def Settled (settings : OutcomeSettings) (now : Time) (db : ServerDb) : Prop :=
  ∀ r ∈ db.tasks.rows, ServerDb.unrecorded r = true → db.ready settings now r = false

instance (settings : OutcomeSettings) (now : Time) (db : ServerDb) :
    Decidable (Settled settings now db) := inferInstanceAs (Decidable (∀ _ ∈ _, _ → _))

/-- The row still says what execution 2 was, lost. -/
theorem not_judged : ¬ ∀ settings sched db schedules w limit now w',
    Run (step settings sched) (World.start db schedules) w →
    step settings sched w (.record limit now) = some w' → Settled settings now w'.db →
    ∀ t task, w'.db.tasks.get t = some task → task.outcomeRecordedAt.isSome = true →
      task.outcomeErroneous = some (w'.db.taskIsErroneous t task settings.maxFileBytes) ∧
        ∀ r ∈ w'.tables.ledger.rows, r.2.taskId = t →
          r.2.outcomeClass = some (w'.db.taskOutcomeClass t task settings.maxFileBytes) := by
  intro h
  obtain ⟨w, hrun, hw⟩ := RunOk.exists_of_checkedRun (step sampleOutcomes sampleSched)
    (fun _ _ => True) (World.start sampleDb sampleSchedules) sampleOverridden
    (fun w : World => decide (∃ w' ∈ step sampleOutcomes sampleSched w (.record 50 2000),
      Settled sampleOutcomes 2000 w'.db ∧ ∃ task ∈ w'.db.tasks.get 7,
        task.outcomeRecordedAt.isSome = true ∧ ∃ r ∈ w'.tables.ledger.rows, r.2.taskId = 7 ∧
          r.2.outcomeClass ≠ some (w'.db.taskOutcomeClass 7 task 1000))) (by decide +kernel)
  obtain ⟨w', hstep, hsettled, task, htask, hrec, r, hr, ht, hclass⟩ := of_decide_eq_true hw
  exact hclass ((h _ _ _ _ w 50 2000 w' hrun hstep hsettled 7 task htask hrec).2 r hr ht)

theorem judged_sample : ∃ w, RunOk (step sampleOutcomes sampleSched) (Steady sampleOutcomes)
    (World.start sampleDb sampleSchedules) w ∧
    ∃ task, w.db.tasks.get 7 = some task ∧ task.outcomeRecordedAt.isSome = true ∧
      task.outcomeErroneous = some (w.db.taskIsErroneous 7 task 1000) ∧
      ∃ r ∈ w.tables.ledger.rows, r.2.taskId = 7 ∧
        r.2.outcomeClass = some (w.db.taskOutcomeClass 7 task 1000) := by
  obtain ⟨w, hrun, hw⟩ := RunOk.exists_of_checkedRun (step sampleOutcomes sampleSched)
    (Steady sampleOutcomes) (World.start sampleDb sampleSchedules) sampleRecorded
    (fun w : World => decide (∃ task ∈ w.db.tasks.get 7, task.outcomeRecordedAt.isSome = true ∧
      ∃ r ∈ w.tables.ledger.rows, r.2.taskId = 7)) (by decide +kernel)
  obtain ⟨task, htask, hrec, r, hr, ht⟩ := of_decide_eq_true hw
  obtain ⟨hbad, hclass⟩ := judged hrun 7 task htask hrec
  exact ⟨w, hrun, task, htask, hrec, hbad, r, hr, ht, hclass r hr ht⟩

end Judgements

end Dopilot
