/-
Dopilot/Firing.lean

Firing a schedule, from the admission gate to the executor's last commit.

A firing is one session of the database.  It locks the schedule's row, decides
whether to run, and may change the row; then it resolves the template, selects
nodes and creates the task, and only the executor commits.  After that commit it
delivers the run commands and commits once more.  Every operation may raise, a
commit also after it has been applied, and what is not committed by then is
rolled back.

The programs follow the source function by function.  What the reads of
templates, artifacts and nodes answer is left to the environment.
-/
import Dopilot.Dispatch
import Dopilot.Program
import Dopilot.Schedules

namespace Dopilot

/-! ### The gate -/

/-- `count_active_tasks_for_schedule`. -/
def ServerDb.countActiveTasks (db : ServerDb) (sid : ScheduleId) : Nat :=
  db.tasks.rows.countP fun r => r.2.scheduleId = some sid && r.2.status.active

/-- `has_undispatched_backlog_for_schedule`. -/
def ServerDb.hasUndispatchedBacklog (db : ServerDb) (sid : ScheduleId) : Bool :=
  db.outbox.rows.any fun r => r.2.status.unresolved &&
    (db.tasks.get r.2.taskId).any fun task => task.scheduleId = some sid && task.status = .queued

/-- The limit of a schedule leaves room for one more task; 0 is no limit. -/
def Schedule.hasRoom (s : Schedule) (active : Nat) : Bool :=
  s.maxConcurrency = 0 || active < s.maxConcurrency

/-- `FiringSlot.skip_reason`. -/
inductive SkipReason where
  | missing
  | disabled
  | backlog
  | concurrency
  | breaker
  deriving DecidableEq, Repr

/-- `ExecutionRunRequest`, and the artifact of its snapshot.  An artifact type
without an executor is `none`, and so is a payload that the executor rejects. -/
structure RunRequest where
  artifactType : Option RunnerType
  payload : Option CommandPayload
  buildArtifactId : ArtifactId

/-- `TaskOrigin`. -/
structure TaskOrigin where
  source : TaskSource
  scheduleId : Option ScheduleId
  scheduleGeneration : Option Nat

/-- `create_task`. -/
def newTask (request : RunRequest) (origin : TaskOrigin) : Task where
  source := origin.source
  scheduleId := origin.scheduleId
  scheduleGeneration := origin.scheduleGeneration
  snapshotArtifactId := some request.buildArtifactId

/-- What a firing may end with. -/
inductive FiringError where
  /-- `ApiError`. -/
  | api (status : Nat) (code : String)
  /-- `DispatchUnknownError`. -/
  | dispatchUnknown (t : TaskId)
  /-- Anything else that an operation raises. -/
  | raised
  deriving DecidableEq, Repr

/-! ### Operations -/

inductive FiringOp where
  | getSchedule (sid : ScheduleId)
  /-- `SELECT … FOR UPDATE`, with the row read again. -/
  | lockSchedule (sid : ScheduleId)
  | hasBacklog (sid : ScheduleId)
  | countActive (sid : ScheduleId)
  | clock
  | currentArtifact (template : TemplateId)
  /-- The attributes of the locked row are assigned. -/
  | setSchedule (s : Schedule)
  | getTemplate (template : TemplateId)
  | buildRunRequest (template : TemplateId)
  | newId
  | resolveTargetNodes (request : RunRequest)
  /-- The commit of the task and whatever else the session has changed. -/
  | commitTask (t : TaskId) (task : Task) (taskType : RunnerType) (payload : CommandPayload)
      (nodes : List (ExecutionId × AgentId))
  /-- `try_dispatch` of the next run row. -/
  | tryDispatch
  /-- The commit of what became of the run rows. -/
  | commitDispatch

namespace FiringOp

def Res : FiringOp → Type
  | getSchedule _ | lockSchedule _ => Option Schedule
  | hasBacklog _ | tryDispatch => Bool
  | countActive _ => Nat
  | clock => Time
  | currentArtifact _ => Option ArtifactId
  | getTemplate _ => Option TemplateId
  | buildRunRequest _ => RunRequest
  | newId => TaskId
  | resolveTargetNodes _ => List (ExecutionId × AgentId)
  | setSchedule _ | commitTask .. | commitDispatch => Unit

end FiringOp

/-- What the environment decides about an operation. -/
structure FiringAnswer where
  fault : Prog.Fault := .none
  error : FiringError := .raised
  now : Time := 0
  artifact : Option ArtifactId := none
  template : Option TemplateId := none
  request : RunRequest
  id : TaskId := 0
  nodes : List (ExecutionId × AgentId) := []
  msg : Option MessageId := none
  held : HeldRows := .none

/-- The tables that a firing reads and writes. -/
structure FiringTables where
  db : ServerDb
  schedules : Table ScheduleId Schedule

/-- A commit of the firing: the tables before it and after it. -/
structure FiringCommit where
  before : FiringTables
  after : FiringTables

/-- The committed tables, and the session of one firing. -/
structure FiringWorld where
  tables : FiringTables
  locked : Option ScheduleId := none
  /-- The locked row as the session has changed it. -/
  row : Option Schedule := none
  delivery : Option Dispatch.Session := none
  commits : List FiringCommit := []

namespace FiringWorld

/-- The session writes its tables. -/
def commit (w : FiringWorld) (tables : FiringTables) : FiringWorld :=
  { w with
    tables := tables
    locked := none
    row := none
    commits := w.commits ++ [⟨w.tables, tables⟩] }

/-- The schedules with the changed row. -/
def flushed (w : FiringWorld) : Table ScheduleId Schedule :=
  match w.locked, w.row with
  | some sid, some s => w.tables.schedules.modify sid fun _ => s
  | _, _ => w.tables.schedules

end FiringWorld

namespace FiringOp

/-- Deliver the next row of a session: was it sent? -/
def deliver (x : Dispatch.Session) (db : ServerDb) (now : Time) (msg : Option MessageId) :
    Option (Bool × Dispatch.Session) := do
  let x₁ ← { x with anySent := false }.refresh db now
  let x₂ := (x₁.append now msg).getD x₁
  some (x₂.anySent, { x₂ with anySent := x.anySent || x₂.anySent })

/-- What an operation does.  An id is never used twice. -/
def perform : (op : FiringOp) → FiringAnswer → FiringWorld →
    Option (Except FiringError op.Res × FiringWorld)
  | getSchedule sid, x, w =>
      Prog.withFault x.fault x.error w (w.tables.schedules.get sid) w
  | lockSchedule sid, x, w =>
      Prog.withFault x.fault x.error w (w.tables.schedules.get sid) { w with locked := some sid }
  | hasBacklog sid, x, w =>
      Prog.withFault x.fault x.error w (w.tables.db.hasUndispatchedBacklog sid) w
  | countActive sid, x, w =>
      Prog.withFault x.fault x.error w (w.tables.db.countActiveTasks sid) w
  | clock, x, w => some (.ok x.now, w)
  | currentArtifact _, x, w => Prog.withFault x.fault x.error w x.artifact w
  | setSchedule s, _, w => some (.ok (), { w with row := some s })
  | getTemplate _, x, w => Prog.withFault x.fault x.error w x.template w
  | buildRunRequest _, x, w => Prog.withFault x.fault x.error w x.request w
  | newId, x, w => if (w.tables.db.tasks.get x.id).isNone then some (.ok x.id, w) else none
  | resolveTargetNodes _, x, w => Prog.withFault x.fault x.error w x.nodes w
  | commitTask t task taskType payload nodes, x, w =>
      if (w.tables.db.tasks.get t).isNone ∧ (∀ n ∈ nodes, (w.tables.db.executions.get n.1).isNone)
          ∧ (nodes.map Prod.fst).Nodup then
        let db := w.tables.db.createTask x.now t task taskType payload nodes
        let w' := w.commit { db := db, schedules := w.flushed }
        Prog.withFault x.fault x.error w ()
          { w' with
            delivery := nodes.getLast?.map fun last =>
              { kind := .executor t last.1, todo := Dispatch.State.newRows w.tables.db db } }
      else none
  | tryDispatch, x, w =>
      match w.delivery.bind fun y => deliver y w.tables.db x.now x.msg with
      | none => some (.error x.error, w)
      | some (sent, y) => Prog.withFault x.fault x.error w sent { w with delivery := some y }
  | commitDispatch, x, w =>
      (w.delivery.bind fun y => y.commit w.tables.db x.now x.held).bind fun db =>
        Prog.withFault x.fault x.error w () (w.commit { w.tables with db := db })

end FiringOp

/-! ### Programs -/

abbrev FiringProg (α : Type) : Type := Prog FiringOp FiringOp.Res FiringError α

namespace FiringOp

/-- Perform the operation. -/
abbrev call (op : FiringOp) : FiringProg op.Res := Prog.call op

end FiringOp

namespace Firing

open FiringOp (call)

/-- The current artifact of the template, read for a held breaker with an artifact only. -/
def currentTemplateArtifact (s : Schedule) : FiringProg (Option ArtifactId) :=
  if s.breakerState = .held ∧ s.breakerArtifactId.isSome then
    call (.currentArtifact s.executionTemplateId)
  else return none

/-- `_admit_breaker`. -/
def admitBreaker (s : Schedule) : Option SchedulerSettings → FiringProg (Except SkipReason Schedule)
  | none => return .ok s
  | some sched => do
      if s.breakerState = .closed then return .ok s
      else do
        let now : Time ← call .clock
        let current : Option ArtifactId ← currentTemplateArtifact s
        match s.admitBreaker sched now current with
        | none => return .error .breaker
        | some s' => do
            call (.setSchedule s')
            return .ok s'

/-- The backlog, where it is asked for. -/
def readBacklog (sid : ScheduleId) (coalesceBacklog : Bool) : FiringProg Bool :=
  if coalesceBacklog then call (.hasBacklog sid) else return false

/-- `acquire_firing_slot`. -/
def acquireFiringSlot (sid : ScheduleId) (raiseOnFull requireEnabled coalesceBacklog : Bool)
    (breaker : Option SchedulerSettings) : FiringProg (Except SkipReason Schedule) := do
  let row : Option Schedule ← call (.lockSchedule sid)
  match row with
  | none =>
      if raiseOnFull then throw (.api 404 "schedule.not_found")
      else return .error .missing
  | some s => do
      if requireEnabled ∧ s.enabled = false then return .error .disabled
      else do
        let backlog : Bool ← readBacklog sid coalesceBacklog
        if backlog then return .error .backlog
        else if s.maxConcurrency = 0 then admitBreaker s breaker
        else do
          let active : Nat ← call (.countActive sid)
          if s.hasRoom active then admitBreaker s breaker
          else if raiseOnFull then throw (.api 409 "schedule.concurrency_limit")
          else return .error .concurrency

/-- The rows of a new task are delivered one after the other: was one sent? -/
def dispatchRows : Nat → FiringProg Bool
  | 0 => return false
  | n + 1 => do
      let sent : Bool ← call .tryDispatch
      let rest : Bool ← dispatchRows n
      return (sent || rest)

/-- `run` of an executor: the task and its status. -/
def runExecutor (taskType : RunnerType) (request : RunRequest) (origin : TaskOrigin) :
    FiringProg (TaskId × TaskStatus) := do
  match request.payload with
  | none => throw (.api 400 "execution.invalid_params")
  | some payload => do
      let t : TaskId ← call .newId
      let nodes : List (ExecutionId × AgentId) ← call (.resolveTargetNodes request)
      call (.commitTask t (newTask request origin) taskType payload nodes)
      if nodes = [] then return (t, .noTarget)
      else do
        let sent : Bool ← dispatchRows nodes.length
        if sent then do
          tryCatch (call .commitDispatch) fun _ => throw (.dispatchUnknown t)
          return (t, .queued)
        else do
          -- `_fail_dispatch_unavailable` is part of this commit
          call .commitDispatch
          throw (.api 503 "execution.dispatch_unavailable")

/-- `run_execution_template`. -/
def runExecutionTemplate (template : TemplateId) (origin : TaskOrigin) :
    FiringProg (TaskId × TaskStatus) := do
  let request : RunRequest ← call (.buildRunRequest template)
  match request.artifactType with
  | none => throw (.api 400 "execution.unknown_artifact_type")
  | some taskType => runExecutor taskType request origin

/-- What `trigger_now` and `fire_timer` do with an admitted schedule. -/
def runAdmitted (sid : ScheduleId) (s : Schedule) (source : TaskSource) :
    FiringProg (TaskId × TaskStatus) := do
  let template : Option TemplateId ← call (.getTemplate s.executionTemplateId)
  match template with
  | none => throw (.api 404 "template.not_found")
  | some template =>
      runExecutionTemplate template
        { source := source
          scheduleId := some sid
          scheduleGeneration := some s.outcomeGeneration }

/-- `trigger_now`. -/
def triggerNow (sid : ScheduleId) : FiringProg (TaskId × TaskStatus) := do
  let slot : Except SkipReason Schedule ← acquireFiringSlot sid true false false none
  match slot with
  | .error _ => throw .raised
  | .ok s => runAdmitted sid s .triggerNow

/-- `fire_timer`; `none` is a skip. -/
def fireTimer (sched : SchedulerSettings) (sid : ScheduleId) :
    FiringProg (Option (TaskId × TaskStatus)) := do
  let slot : Except SkipReason Schedule ← acquireFiringSlot sid false true true (some sched)
  match slot with
  | .error _ => return none
  | .ok s => do
      let response : TaskId × TaskStatus ← runAdmitted sid s .timer
      return some response

/-- `_fire`, the job of the timer. -/
def fire (sched : SchedulerSettings) (sid : ScheduleId) : FiringProg Unit := do
  let schedule : Option Schedule ← call (.getSchedule sid)
  match schedule with
  | none => return ()
  | some _ =>
      tryCatch
        (do
          let _ : Option (TaskId × TaskStatus) ← fireTimer sched sid
          return ())
        fun
          | .dispatchUnknown _ => return ()
          | e => throw e

end Firing

end Dopilot
