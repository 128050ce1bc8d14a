/-
Dopilot/SpentRows.lean

Commands that are settled, and who still looks at them.

A spent command is resolved and no reclaim.  No service that asks whether a
reclaim was issued, whether something is still to be sent, or what can be
dispatched sees a spent row, and none writes one: `Blind` says so of a function
of the database, and the lemmas below go through the services that read or write
the outbox.
-/
import Dopilot.Cleanups
import Dopilot.Erasure
import Dopilot.Firing

namespace Dopilot

/-! ### Spent commands -/

/-- Settled, and no reclaim. -/
def CommandOutbox.spent (row : CommandOutbox) : Bool :=
  !row.status.unresolved && !(row.type == .stop && row.intent == some .reclaim)

namespace ServerDb

/-- The database without some of its commands. -/
def without (db : ServerDb) (gone : List CommandId) : ServerDb :=
  { db with outbox := db.outbox.without gone }

/-- These commands were issued, and those that are still there are spent. -/
structure Spent (db : ServerDb) (gone : List CommandId) : Prop where
  issued : ∀ c ∈ gone, c < db.nextCommand
  rows : ∀ c ∈ gone, ∀ row, db.outbox.get c = some row → row.spent = true

variable {db db' : ServerDb} {gone : List CommandId}

@[simp] theorem without_tasks : (db.without gone).tasks = db.tasks := rfl

@[simp] theorem without_executions : (db.without gone).executions = db.executions := rfl

@[simp] theorem without_logFiles : (db.without gone).logFiles = db.logFiles := rfl

@[simp] theorem without_audits : (db.without gone).audits = db.audits := rfl

@[simp] theorem without_nextCommand : (db.without gone).nextCommand = db.nextCommand := rfl

@[simp] theorem without_taskStatus (t : TaskId) :
    (db.without gone).taskStatus t = db.taskStatus t := rfl

theorem spent_resolved {row : CommandOutbox} (h : row.spent = true) :
    row.status.unresolved = false := by
  unfold CommandOutbox.spent at h
  simpa using (Bool.and_eq_true_iff.mp h).1

theorem spent_no_reclaim {row : CommandOutbox} (h : row.spent = true) :
    ¬ (row.type = .stop ∧ row.intent = some .reclaim) := by
  unfold CommandOutbox.spent at h
  rintro ⟨htype, hintent⟩
  rw [htype, hintent] at h
  simp at h

theorem Spent.notMem (h : db.Spent gone) {c : CommandId} (hc : db.nextCommand ≤ c) : c ∉ gone :=
  fun hgone => absurd (h.issued c hgone) (Nat.not_lt_of_le hc)

theorem Spent.of_outbox (h : db.Spent gone) (houtbox : db'.outbox = db.outbox)
    (hnext : db'.nextCommand = db.nextCommand) : db'.Spent gone where
  issued c hc := hnext ▸ h.issued c hc
  rows c hc row hrow := h.rows c hc row (houtbox ▸ hrow)

/-! What asks about commands that are not spent does not see them. -/

theorem reclaimEverIssued_without (h : db.Spent gone) (e : ExecutionId) :
    (db.without gone).reclaimEverIssued e = db.reclaimEverIssued e := by
  refine Table.any_without fun c hc row hrow => ?_
  have hno := spent_no_reclaim (h.rows c hc row hrow)
  simpa [and_assoc] using fun _ => not_and.mp hno

theorem hasUnresolvedReclaim_without (h : db.Spent gone) (e : ExecutionId) :
    (db.without gone).hasUnresolvedReclaim e = db.hasUnresolvedReclaim e := by
  refine Table.any_without fun c hc row hrow => ?_
  simp [spent_resolved (h.rows c hc row hrow)]

/-- **The backlog of a schedule.** -/
theorem hasUndispatchedBacklog_without (h : db.Spent gone) (sid : ScheduleId) :
    (db.without gone).hasUndispatchedBacklog sid = db.hasUndispatchedBacklog sid := by
  refine Table.any_without fun c hc row hrow => ?_
  simp [spent_resolved (h.rows c hc row hrow)]

/-! ### Functions that do not see them -/

/-- Erased or not, the spent commands make no difference to the function, and it
leaves them spent. -/
structure Blind (gone : List CommandId) (f : ServerDb → ServerDb) : Prop where
  comm : ∀ db, db.Spent gone → f (db.without gone) = (f db).without gone
  spent : ∀ db, db.Spent gone → (f db).Spent gone

variable {f f' : ServerDb → ServerDb}

theorem Blind.id : Blind gone fun db => db := ⟨fun _ _ => rfl, fun _ h => h⟩

theorem Blind.comp (h : Blind gone f) (h' : Blind gone f') : Blind gone fun db => f' (f db) where
  comm db hdb := by rw [h.comm db hdb, h'.comm _ (h.spent db hdb)]
  spent db hdb := h'.spent _ (h.spent db hdb)

/-- A function that has nothing to do with the outbox. -/
theorem Blind.of_frame (h : ∀ db, f (db.without gone) = (f db).without gone)
    (houtbox : ∀ db, (f db).outbox = db.outbox)
    (hnext : ∀ db, (f db).nextCommand = db.nextCommand) : Blind gone f :=
  ⟨fun db _ => h db, fun db hdb => hdb.of_outbox (houtbox db) (hnext db)⟩

theorem Blind.updateTask (t : TaskId) (g : Task → Task) :
    Blind gone fun db => db.updateTask t g :=
  .of_frame (fun _ => rfl) (fun _ => rfl) fun _ => rfl

theorem Blind.updateExecution (e : ExecutionId) (g : Execution → Execution) :
    Blind gone fun db => db.updateExecution e g :=
  .of_frame (fun _ => rfl) (fun _ => rfl) fun _ => rfl

/-- What decides between two functions is the same on both sides. -/
theorem Blind.ite {p : ServerDb → Prop} [∀ db, Decidable (p db)] (h : Blind gone f)
    (h' : Blind gone f') (hp : ∀ db, db.Spent gone → (p (db.without gone) ↔ p db)) :
    Blind gone fun db => if p db then f db else f' db where
  comm db hdb := by
    show (if p (db.without gone) then _ else _) = _
    by_cases hdec : p db
    · rw [if_pos ((hp db hdb).mpr hdec), if_pos hdec, h.comm db hdb]
    · rw [if_neg (fun hc => hdec ((hp db hdb).mp hc)), if_neg hdec, h'.comm db hdb]
  spent db hdb := by
    show (if p db then _ else _ : ServerDb).Spent gone
    split
    · exact h.spent db hdb
    · exact h'.spent db hdb

/-- A loop over what is known beforehand. -/
theorem Blind.foldl {α : Type*} {f : ServerDb → α → ServerDb}
    (h : ∀ x, Blind gone fun db => f db x) (l : List α) : Blind gone fun db => l.foldl f db := by
  induction l with
  | nil => exact .id
  | cons x l ih => exact (h x).comp ih

/-! ### Rows are added -/

theorem Blind.addOutbox (row : CommandOutbox) : Blind gone fun db => db.addOutbox row where
  comm db hdb := by
    have hins : (db.outbox.without gone).insert db.nextCommand row =
        (db.outbox.insert db.nextCommand row).without gone :=
      Table.insert_without _ (hdb.notMem (Nat.le_refl _)) row
    unfold ServerDb.addOutbox ServerDb.without
    dsimp only
    rw [hins]
  spent db hdb := by
    have hadds : Dispatch.Adds (fun _ => True) db (db.addOutbox row) := .of_addOutbox trivial
    refine ⟨fun c hc => Nat.lt_of_lt_of_le (hdb.issued c hc) hadds.next, fun c hc row' hrow' => ?_⟩
    rcases hadds.adds c row' hrow' with hold | ⟨hnew, -⟩
    · exact hdb.rows c hc row' hold
    · exact absurd hc (hdb.notMem hnew)

theorem Blind.createPlainOutbox (now : Time) (type : AgentCommandType)
    (intent : Option StopIntent) (t : TaskId) (e : ExecutionId) (agent : AgentId) :
    Blind gone fun db => db.createPlainOutbox now type intent t e agent := .addOutbox _

theorem Blind.createStopOutbox (now : Time) (intent : StopIntent) (t : TaskId) (e : ExecutionId)
    (agent : AgentId) : Blind gone fun db => db.createStopOutbox now intent t e agent :=
  .addOutbox _

/-! ### Events -/

theorem Blind.audit (msg : MessageId) (ev : AgentEvent) (outcome : EventOutcome) :
    Blind gone fun db => db.audit msg ev outcome :=
  .of_frame (fun _ => rfl) (fun _ => rfl) fun _ => rfl

theorem Blind.requestReclaim (now : Time) (e : ExecutionId) (x : Execution) :
    Blind gone fun db => db.requestReclaim now e x :=
  .ite .id (.createStopOutbox now .reclaim x.taskId e x.agentId) fun db hdb => by
    rw [hasUnresolvedReclaim_without hdb]

theorem Blind.rollUp (t : TaskId) (now : Time) : Blind gone fun db => db.rollUp t now :=
  .of_frame (fun _ => rfl) (fun _ => rfl) fun _ => rfl

/-- What a life-cycle event does to the tables. -/
theorem Blind.applyLifecycle (now : Time) (ev : AgentEvent) (msg : MessageId) (new : ExecStatus)
    (x : Execution) : Blind gone fun db => (db.applyLifecycle now ev msg new x).1 := by
  have htail : Blind gone fun db => ((db.updateExecution ev.executionId fun _ =>
      markAlive (moveExecution x ev new now).1 now).rollUp x.taskId now).audit msg ev
        (moveExecution x ev new now).2 :=
    ((Blind.updateExecution _ _).comp (.rollUp _ _)).comp (.audit _ _ _)
  have hhead : Blind gone fun db =>
      if (moveExecution x ev new now).2 = .reclaimRequested then
        db.requestReclaim now ev.executionId x else db :=
    .ite (.requestReclaim now ev.executionId x) .id fun _ _ => Iff.rfl
  exact hhead.comp htail

/-- What a heartbeat does to the tables. -/
theorem Blind.applyHeartbeat (now : Time) (ev : AgentEvent) (msg : MessageId) (x : Execution) :
    Blind gone fun db => (db.applyHeartbeat now ev msg x).1 := by
  have hbeat : Blind gone fun db => db.updateExecution ev.executionId fun e =>
      heartbeatExecution e ev now := .updateExecution _ _
  by_cases hlost : x.status = .lost
  · have hreclaim : Blind gone fun db => if db.reclaimEverIssued ev.executionId = true then db
        else (db.createStopOutbox now .reclaim x.taskId ev.executionId x.agentId).audit msg ev
          .reclaimRequested :=
      .ite .id ((Blind.createStopOutbox ..).comp (.audit ..)) fun db hdb => by
        rw [reclaimEverIssued_without hdb]
    have hcomp := hbeat.comp hreclaim
    refine ⟨fun db hdb => ?_, fun db hdb => ?_⟩
    · have hcomm := hcomp.comm db hdb
      unfold ServerDb.applyHeartbeat
      simp only [if_pos hlost, apply_ite Prod.fst]
      exact hcomm
    · have hspent := hcomp.spent db hdb
      unfold ServerDb.applyHeartbeat
      simp only [if_pos hlost, apply_ite Prod.fst]
      exact hspent
  · refine ⟨fun db hdb => ?_, fun db hdb => ?_⟩
    · unfold ServerDb.applyHeartbeat
      simp only [if_neg hlost]
      exact hbeat.comm db hdb
    · unfold ServerDb.applyHeartbeat
      simp only [if_neg hlost]
      exact hbeat.spent db hdb

/-- **Events**: they do the same, and come to the same. -/
theorem applyEvent_without (now : Time) (ev : AgentEvent) (msg : MessageId) (h : db.Spent gone) :
    (db.without gone).applyEvent now ev msg =
      ((db.applyEvent now ev msg).1.without gone, (db.applyEvent now ev msg).2) := by
  have hexecs : (db.without gone).executions.get ev.executionId =
      db.executions.get ev.executionId := rfl
  unfold applyEvent
  rw [hexecs]
  rcases ev.type.toExec with - | new
  · dsimp only
    rcases db.executions.get ev.executionId with - | x
    · rfl
    · refine Prod.ext ((Blind.applyHeartbeat now ev msg x).comm db h) ?_
      show (applyHeartbeat _ now ev msg x).2 = (applyHeartbeat _ now ev msg x).2
      unfold applyHeartbeat
      simp only [apply_ite Prod.snd, ite_self]
  · dsimp only
    by_cases hdup : (db.audits.get msg).isSome = true
    · have hdup' : ((db.without gone).audits.get msg).isSome = true := hdup
      rw [if_pos hdup, if_pos hdup']
    · have hdup' : ¬ ((db.without gone).audits.get msg).isSome = true := hdup
      rw [if_neg hdup, if_neg hdup']
      rcases db.executions.get ev.executionId with - | x
      · rfl
      · exact Prod.ext ((Blind.applyLifecycle now ev msg new x).comm db h) rfl

theorem Spent.applyEvent (h : db.Spent gone) (now : Time) (ev : AgentEvent) (msg : MessageId) :
    (db.applyEvent now ev msg).1.Spent gone := by
  unfold ServerDb.applyEvent
  rcases ev.type.toExec with - | new
  · rcases db.executions.get ev.executionId with - | x
    · exact h
    · exact (Blind.applyHeartbeat now ev msg x).spent db h
  · dsimp only
    split
    · exact h
    · rcases db.executions.get ev.executionId with - | x
      · exact (Blind.audit _ _ _).spent db h
      · exact (Blind.applyLifecycle now ev msg new x).spent db h

/-! ### Writers -/

/-- A loss is declared, or not, whatever the outbox says. -/
theorem markLost_without (held : HeldRows) (e : ExecutionId) (reason : ExecLostReason)
    (now : Time) :
    (db.without gone).markLost held e reason now =
      ((db.markLost held e reason now).1.without gone, (db.markLost held e reason now).2) := by
  unfold markLost
  simp only [without_executions]
  rcases db.executions.get e with - | x
  · rfl
  · dsimp only
    by_cases hterminal : x.status.terminal = true
    · rw [if_pos hterminal, if_pos hterminal]
    · rw [if_neg hterminal, if_neg hterminal]
      rfl

theorem Blind.markLost (held : HeldRows) (e : ExecutionId) (reason : ExecLostReason)
    (now : Time) : Blind gone fun db => (db.markLost held e reason now).1 :=
  .of_frame (fun db => by rw [markLost_without])
    (fun db => (Reclaims.markLost_outbox db held e reason now).1)
    fun db => (Reclaims.markLost_outbox db held e reason now).2

theorem Blind.checkNoProgress (settings : AgentsSettings) (now : Time) (e : ExecutionId)
    (x : Execution) : Blind gone fun db => db.checkNoProgress settings now e x := by
  unfold ServerDb.checkNoProgress
  rcases x.lastProgressSampleAt with - | sampled
  · exact .id
  · dsimp only
    have hstop : Blind gone fun db => if settings.autoStopOnNoProgress = true then
        db.createStopOutbox now .cancel x.taskId e x.agentId else db :=
      .ite (.createStopOutbox now .cancel x.taskId e x.agentId) .id fun _ _ => Iff.rfl
    have hmark : Blind gone fun db => db.updateExecution e fun x =>
        { x with noProgressAt := some now } := .updateExecution e _
    exact .ite .id (hmark.comp hstop) fun _ _ => Iff.rfl

/-- **The reconcile pass.** -/
theorem Blind.reconcileExecution (settings : AgentsSettings) (held : HeldRows) (now : Time)
    (lastSeen : Option Time) (e : ExecutionId) (x : Execution) :
    Blind gone fun db => db.reconcileExecution settings held now lastSeen e x := by
  have hlost : Blind gone fun db =>
      if (db.markLost held e (.wire .eventStall) now).2 = true then
        (db.markLost held e (.wire .eventStall) now).1.createStopOutbox now .reclaim x.taskId e
          x.agentId
      else (db.markLost held e (.wire .eventStall) now).1 :=
    .ite ((Blind.markLost held e _ now).comp (.createStopOutbox ..)) (.markLost held e _ now)
      fun db _ => by rw [markLost_without]
  have hlooked : Blind gone fun db => ServerDb.checkNoProgress settings
      (if settings.stalledAttemptSeconds ≤
            now - ((x.lastEventAt.orElse fun _ => x.startedAt).getD x.createdAt) ∧
          x.stalledAt.isNone = true then
        db.updateExecution e fun x => { x with stalledAt := some now }
      else db) now e x :=
    Blind.comp (.ite (.updateExecution e _) .id fun _ _ => Iff.rfl) (.checkNoProgress ..)
  have hseen : Blind gone fun db =>
      if settings.lostAfterStalledSeconds ≤
          now - ((x.lastEventAt.orElse fun _ => x.startedAt).getD x.createdAt) then
        (if (db.markLost held e (.wire .eventStall) now).2 = true then
          (db.markLost held e (.wire .eventStall) now).1.createStopOutbox now .reclaim x.taskId e
            x.agentId
        else (db.markLost held e (.wire .eventStall) now).1)
      else ServerDb.checkNoProgress settings
        (if settings.stalledAttemptSeconds ≤
              now - ((x.lastEventAt.orElse fun _ => x.startedAt).getD x.createdAt) ∧
            x.stalledAt.isNone = true then
          db.updateExecution e fun x => { x with stalledAt := some now }
        else db) now e x := .ite hlost hlooked fun _ _ => Iff.rfl
  cases lastSeen with
  | none => exact .markLost held e _ now
  | some seen =>
      by_cases hgone : settings.heartbeatTimeoutSeconds < now - seen
      · unfold ServerDb.reconcileExecution
        simp only [hgone, decide_true, if_true]
        exact .markLost held e _ now
      · unfold ServerDb.reconcileExecution
        simp only [hgone, decide_false, Bool.false_eq_true, if_false]
        exact hseen

/-- The repair of a task. -/
theorem Blind.repairOrphanedTask (settings : AgentsSettings) (held : HeldRows) (now : Time)
    (t : TaskId) : Blind gone fun db => db.repairOrphanedTask settings held now t := by
  have hsame : ∀ db : ServerDb, (db.repairOrphanedTask settings held now t).outbox = db.outbox ∧
      (db.repairOrphanedTask settings held now t).nextCommand = db.nextCommand := by
    intro db
    rcases repairOrphanedTask_cases db settings held now t with h | ⟨task, f, -, -, h⟩
    · rw [h]
      exact ⟨rfl, rfl⟩
    · rw [h]
      exact ⟨rfl, rfl⟩
  refine .of_frame (fun db => ?_) (fun db => (hsame db).1) fun db => (hsame db).2
  have hget : (db.without gone).tasks.get t = db.tasks.get t := rfl
  have hheld : (db.without gone).seenStatuses held t = db.seenStatuses held t := rfl
  have hlist : (db.without gone).listExecutions t = db.listExecutions t := rfl
  unfold ServerDb.repairOrphanedTask
  rw [hget, hheld, hlist]
  rcases db.tasks.get t with - | task
  · rfl
  · dsimp only
    rcases rollupTaskStatus (db.seenStatuses held t) with - | rolled
    · simp only [apply_ite fun db : ServerDb => db.without gone]
      rfl
    · simp only [apply_ite fun db : ServerDb => db.without gone]
      rfl

theorem Blind.markExecutionsLost (now : Time) (l : List (ExecutionId × Execution)) :
    Blind gone fun db => ServerDb.markExecutionsLost now l db := by
  induction l with
  | nil => exact .id
  | cons r l ih => exact (Blind.markLost .none r.1 .manualCleanup now).comp ih

/-- The manual loss of a task. -/
theorem Blind.markTaskLost (now : Time) (t : TaskId) :
    Blind gone fun db => db.markTaskLost now t := by
  have hlose : ∀ l, Blind gone fun db => (ServerDb.markExecutionsLost now l db).updateTask t
      fun task =>
        let task := if task.status.active ∧ isValidTaskTransition task.status .lost then
            { task with status := .lost, finishedAt := some now, updatedAt := now }
          else task
        if task.status = .lost then
          { task with statusReason := some .manualCleanup, updatedAt := now }
        else task := fun l => (Blind.markExecutionsLost now l).comp (.updateTask t _)
  refine ⟨fun db hdb => ?_, fun db hdb => ?_⟩
  · have hget : (db.without gone).tasks.get t = db.tasks.get t := rfl
    unfold ServerDb.markTaskLost
    rw [hget]
    rcases db.tasks.get t with - | task
    · rfl
    · dsimp only
      split
      · rfl
      · exact (hlose (db.listExecutions t)).comm db hdb
  · unfold ServerDb.markTaskLost
    rcases db.tasks.get t with - | task
    · exact hdb
    · dsimp only
      split
      · exact hdb
      · exact (hlose (db.listExecutions t)).spent db hdb

/-! ### The passes over log files and outcomes -/

theorem drained_without (h : db.Spent gone) (drain now : Time) (r : LogKey × Execution) :
    (db.without gone).drained drain now r = db.drained drain now r := by
  unfold drained
  rw [reclaimEverIssued_without h]

theorem Blind.completeLog (k : LogKey) : Blind gone fun db => db.completeLog k :=
  .of_frame (fun _ => rfl) (fun _ => rfl) fun _ => rfl

theorem Blind.finalizeLog (drain now : Time) (r : LogKey × Execution) :
    Blind gone fun db => ServerDb.finalizeLog drain now db r :=
  .ite ((Blind.completeLog r.1).comp (.createPlainOutbox now .cleanupLogs none ..)) .id
    fun db hdb => by rw [drained_without hdb]

/-- **The drain pass.** -/
theorem Blind.finalizeDrainedLogs (drain now : Time) :
    Blind gone fun db => db.finalizeDrainedLogs drain now where
  comm db hdb := (Blind.foldl (Blind.finalizeLog drain now) db.drainable).comm db hdb
  spent db hdb := (Blind.foldl (Blind.finalizeLog drain now) db.drainable).spent db hdb

theorem ready_without (h : db.Spent gone) (settings : OutcomeSettings) (now : Time)
    (r : TaskId × Task) :
    (db.without gone).ready settings now r = db.ready settings now r := by
  have hreclaimed : ∀ l : List (ExecutionId × Execution),
      (l.all fun x => x.2.status != .lost || (db.without gone).reclaimEverIssued x.1) =
        l.all fun x => x.2.status != .lost || db.reclaimEverIssued x.1 := by
    intro l
    congr 1
    funext x
    rw [reclaimEverIssued_without h]
  have hlist : (db.without gone).listExecutions r.1 = db.listExecutions r.1 := rfl
  have hfiles : (db.without gone).taskLogFiles r.1 = db.taskLogFiles r.1 := rfl
  unfold ready
  rw [hlist, hfiles, hreclaimed]

theorem Blind.recordTask (settings : OutcomeSettings) (now : Time) (t : TaskId) :
    Blind gone fun db => ServerDb.recordTask settings now db t := by
  have hsame : ∀ db : ServerDb, (ServerDb.recordTask settings now db t).outbox = db.outbox ∧
      (ServerDb.recordTask settings now db t).nextCommand = db.nextCommand := by
    intro db
    rcases recordTask_cases settings now db t with ⟨h, -⟩ | ⟨task, f, -, -, -, -, h⟩
    · rw [h]
      exact ⟨rfl, rfl⟩
    · rw [h]
      exact ⟨rfl, rfl⟩
  refine ⟨fun db hdb => ?_, fun db hdb => hdb.of_outbox (hsame db).1 (hsame db).2⟩
  have hget : (db.without gone).tasks.get t = db.tasks.get t := rfl
  unfold ServerDb.recordTask
  rw [hget]
  rcases db.tasks.get t with - | task
  · rfl
  · dsimp only
    rw [ready_without hdb]
    split
    · rfl
    · split
      · rfl
      · rfl

/-- **The recorder.** -/
theorem Blind.recordTaskOutcomes (settings : OutcomeSettings) (limit : Nat) (now : Time) :
    Blind gone fun db => db.recordTaskOutcomes settings limit now where
  comm db hdb := (Blind.foldl (Blind.recordTask settings now) (db.candidates limit)).comm db hdb
  spent db hdb := (Blind.foldl (Blind.recordTask settings now) (db.candidates limit)).spent db hdb

/-! ### Running and canceling a task -/

theorem Blind.createExecution (now : Time) (t : TaskId) (taskType : RunnerType)
    (payload : CommandPayload) (node : ExecutionId × AgentId) :
    Blind gone fun db => db.createExecution now t taskType payload node := by
  have hexec : ∀ row : Execution, Blind gone fun db : ServerDb =>
      { db with executions := db.executions.insert node.1 row } :=
    fun _ => .of_frame (fun _ => rfl) (fun _ => rfl) fun _ => rfl
  have hlog : Blind gone fun db : ServerDb => { db with
      logFiles := db.logFiles.insert ⟨t, node.1, .log⟩ {} } :=
    .of_frame (fun _ => rfl) (fun _ => rfl) fun _ => rfl
  exact ((hexec _).comp (.addOutbox _)).comp hlog

theorem Blind.createTask (now : Time) (t : TaskId) (task : Task) (taskType : RunnerType)
    (payload : CommandPayload) (nodes : List (ExecutionId × AgentId)) :
    Blind gone fun db => db.createTask now t task taskType payload nodes := by
  have hinsert : ∀ row : Task, Blind gone fun db : ServerDb =>
      { db with tasks := db.tasks.insert t row } :=
    fun _ => .of_frame (fun _ => rfl) (fun _ => rfl) fun _ => rfl
  exact .ite (hinsert _)
    ((hinsert _).comp (.foldl (Blind.createExecution now t taskType payload) nodes))
    fun _ _ => Iff.rfl

/-- No spent command is canceled. -/
theorem Blind.cancelUnsentOutbox (now : Time) (t : TaskId) :
    Blind gone fun db => db.cancelUnsentOutbox now t where
  comm db _ := by
    unfold ServerDb.cancelUnsentOutbox ServerDb.without
    dsimp only
    rw [Table.updateAll_without]
  spent db hdb := by
    refine ⟨hdb.issued, fun c hc row hrow => ?_⟩
    have hrow : (db.outbox.updateAll _).get c = some row := hrow
    rw [Table.get_updateAll] at hrow
    obtain ⟨old, hold, rfl⟩ := Option.map_eq_some_iff.mp hrow
    have hspent := hdb.rows c hc old hold
    rw [if_neg]
    · exact hspent
    · rintro ⟨-, hunresolved⟩
      rw [spent_resolved hspent] at hunresolved
      cases hunresolved

/-- **A cancel.** -/
theorem Blind.requestCancel (now : Time) (t : TaskId) :
    Blind gone fun db => db.requestCancel now t := by
  have hstops : ∀ l : List (ExecutionId × Execution), Blind gone fun db =>
      l.foldl (fun db r => db.createStopOutbox now .cancel t r.1 r.2.agentId) db :=
    Blind.foldl fun r => .createStopOutbox now .cancel t r.1 r.2.agentId
  refine ⟨fun db hdb => ?_, fun db hdb => ?_⟩
  · exact ((Blind.cancelUnsentOutbox now t).comp (hstops
      ((db.listExecutions t).filter fun r => r.2.status.active))).comm db hdb
  · exact ((Blind.cancelUnsentOutbox now t).comp (hstops
      ((db.listExecutions t).filter fun r => r.2.status.active))).spent db hdb

/-! ### Delivering -/

theorem Blind.failExecutionDispatchTimeout (now : Time) (t : TaskId) (e : ExecutionId) :
    Blind gone fun db => db.failExecutionDispatchTimeout now t e :=
  (Blind.updateExecution e _).comp (.updateTask t _)

theorem Blind.failDispatchUnavailable (held : HeldRows) (now : Time) (t : TaskId) :
    Blind gone fun db => db.failDispatchUnavailable held now t :=
  .of_frame (fun _ => rfl) (fun _ => rfl) fun _ => rfl

/-- A row that is not spent is written. -/
theorem Blind.updateOutbox {c : CommandId} (hc : c ∉ gone) (g : CommandOutbox → CommandOutbox) :
    Blind gone fun db => db.updateOutbox c g where
  comm db _ := by
    unfold ServerDb.updateOutbox ServerDb.without
    dsimp only
    rw [Table.modify_without]
  spent db hdb := by
    refine ⟨hdb.issued, fun c' hc' row hrow => hdb.rows c' hc' row ?_⟩
    have hne : c' ≠ c := fun heq => hc (heq ▸ hc')
    have hrow : (db.outbox.modify c g).get c' = some row := hrow
    rwa [Table.get_modify_ne _ _ hne] at hrow

end ServerDb

end Dopilot
