/-
Dopilot/AgentWorld.lean

The world of the agent's command consumer, and its operations.

The consumer drives scrapyd and child processes, and keeps what it knows of an
attempt in a state file; its events go to an outbox on disk and from there to
the event stream.  `AgentOp` lists what it asks of all these, one operation for
each system call or request, and `AgentOp.perform` is what an operation does to
the world, with the part of the answer the environment decides as an argument.
Beside the world itself, `AgentWorld` keeps some history: what was emitted,
which signals were sent, which commands were handled, what was raised.
-/
import Dopilot.AgentStore
import Dopilot.Program
import Mathlib.Data.List.Sort
import Mathlib.Logic.Function.Basic

namespace Dopilot

/-- A structured error payload. -/
abbrev Detail := List (String × String)

/-- `ParsedScrapyCommand`. -/
structure ParsedScrapyCommand where
  spider : String
  args : List (String × String) := []
  settings : List (String × String) := []

/-- The settings of the agent, and which of its parts are configured. -/
structure AgentConfig where
  agentId : AgentId
  /-- `event_outbox_dir` is set. -/
  eventOutbox : Bool
  maxOutboxFiles : Nat
  artifactCache : Bool
  wheelCache : Bool
  wheelRunner : Bool
  maxJobLogBytes : Nat
  floodKillAfter : Nat
  stopKillAfter : Nat
  stopConfirmTimeout : Nat
  killRetryInterval : Nat
  /-- How often a cache looks for the lock of an artifact before it times out. -/
  cachePolls : Nat
  /-- `parse_scrapy_command`; an error carries its `detail`. -/
  parseScrapyCommand : Option String → Except Detail ParsedScrapyCommand

/-- The exceptions the consumer tells apart.  The first three are raised by its
own code alone. -/
inductive AgentError where
  | artifactCache (detail : Detail)
  | wheelCache (detail : Detail)
  | runner (detail : Detail)
  | wheelRunner (errorCode : String) (detail : Detail)
  | scrapyd (detail : Detail)
  | http
  | timeout
  | redis
  /-- `OSError`. -/
  | os
  /-- Anything else. -/
  | other
  deriving DecidableEq, Repr

/-- Raised by an operation, not by the agent's own code. -/
def AgentError.foreign : AgentError → Bool
  | artifactCache _ | wheelCache _ | runner _ => false
  | wheelRunner .. | scrapyd _ | http | timeout | redis | os | other => true

/-! ### Operations -/

/-- Who sends a signal to a job. -/
inductive SignalSender where
  | flood
  /-- `_handle_stop`, for an attempt that is not started. -/
  | command
  /-- `_begin_stop`. -/
  | stop
  /-- `_stop_watchdog`. -/
  | stopWatchdog
  /-- `_reclaim_watchdog`. -/
  | reclaimWatchdog
  deriving DecidableEq, Repr

/-- The steps of the artifact caches. -/
inductive CacheStep where
  | mkdir
  | isReady
  | touchReady
  | tryLock
  | timedOut
  | sleep
  /-- Whether the file is there and has the right digest. -/
  | isCached
  | unlinkTmp
  | fetch
  | digestMatches
  | writeTmp
  | replace
  | readBytes
  | addversion
  | mkdirSite
  | launchPip
  | waitPip
  | killPip
  | pipSucceeded
  | writeReady
  | closeLock
  | unlinkLock
  deriving DecidableEq, Repr

/-- What the consumer asks of its surroundings. -/
inductive AgentOp where
  -- state files
  | listExecutionIds
  | read (e : ExecutionId)
  | createReserved (s : AttemptState)
  | mark (e : ExecutionId) (m : Mark)
  | delete (e : ExecutionId)
  -- events
  | uuid
  | persist (ev : AgentEvent)
  | xadd (ev : AgentEvent)
  | unlinkEvent (ev : AgentEvent)
  | outboxEntries
  /-- `_maybe_emit_heartbeat`: paced, and never durable. -/
  | heartbeat (t : TaskId) (e : ExecutionId) (logBytes : Option Nat)
  -- scrapyd and its jobs
  | schedule (e : ExecutionId) (project spider : String) (version : Option String)
      (settings args : List (String × String))
  | cancel (e : ExecutionId) (project : String) (job : Option JobId) (kill : Bool)
      (sender : SignalSender)
  | listjobs (project : String) (job : Option JobId)
  | pidKill (job : Option JobId)
  | logExists (path : String)
  | logSize (path : String)
  | logStats (path : String)
  | truncateLog (path : String)
  | unlinkLog (path : String)
  -- children of the wheel runner
  | wheelStart (e : ExecutionId) (shellCommand installPath : String) (workingDir : Option String)
      (env runtimeContext : List (String × String))
  | wheelTerminate (e : ExecutionId)
  | wheelActive (e : ExecutionId)
  | terminatePgid (pgid : Nat)
  | rmtree (path : String)
  | cache (hash : String) (step : CacheStep)
  /-- `DopilotRuntimeContext.model_validate`. -/
  | validate (context : RuntimeContext)
  -- memory of the consumer
  | addInproc (e : ExecutionId)
  | inproc (e : ExecutionId)
  | spawnWait (t : TaskId) (e : ExecutionId)
  | wheelWait (child : Nat)
  | releaseExecution (e : ExecutionId)
  | now
  -- locks, and where the loop stands
  | begin (cmd : AgentCommand)
  | finish (cmd : AgentCommand)
  | lockWait (child : Nat) (e : ExecutionId)
  | unlockWait (e : ExecutionId)
  | setup
  | enterLoop
  deriving DecidableEq, Repr

/-- A child that was started. -/
structure StartedWheel where
  pgid : Nat
  workspacePath : String
  logPath : String
  deriving DecidableEq, Repr

/-- `WheelOutcome`. -/
structure WheelOutcome where
  exitCode : Int
  canceled : Bool
  deriving DecidableEq, Repr

/-- The lists of `listjobs.json`. -/
structure JobLists where
  running : List JobId := []
  pending : List JobId := []
  finished : List JobId := []
  deriving DecidableEq, Repr

/-- What the tail of a job log says. -/
structure ScrapyStats where
  errorCount : Option Nat := none
  finishReason : Option String := none
  outcomeClass : Option String := none
  deriving DecidableEq, Repr

@[reducible] def AgentOp.Res : AgentOp → Type
  | listExecutionIds => List ExecutionId
  | read _ | mark _ _ => Option AttemptState
  | createReserved _ => Bool
  | uuid => Nat
  | persist _ => Bool
  | outboxEntries => List AgentEvent
  | schedule .. => JobId
  | cancel .. => Bool
  | listjobs .. => JobLists
  | pidKill _ | logExists _ => Bool
  | logSize _ => Option Nat
  | logStats _ => ScrapyStats
  | wheelStart .. => StartedWheel
  | wheelActive _ | inproc _ => Bool
  | wheelWait _ => WheelOutcome
  | cache .. => Bool
  | validate _ => List (String × String)
  | now => Time
  | delete _ | xadd _ | unlinkEvent _ | heartbeat .. | truncateLog _ | unlinkLog _
  | wheelTerminate _ | terminatePgid _ | rmtree _ | addInproc _ | spawnWait .. | releaseExecution _
  | begin _ | finish _ | lockWait .. | unlockWait _ | setup | enterLoop => Unit

/-- What the environment decides about an operation. -/
structure AgentAnswer where
  /-- The operation raises. -/
  error : Option AgentError := none
  /-- It raises after it took effect. -/
  late : Bool := false
  flag : Bool := true
  jobs : JobLists := {}
  size : Option Nat := none
  stats : ScrapyStats := {}
  started : StartedWheel := ⟨0, "", ""⟩

/-! ### The world -/

/-- A job of scrapyd. -/
structure Job where
  executionId : ExecutionId
  project : String
  alive : Bool := true
  /-- It ended, and no reclaim had sent it a signal before. -/
  own : Bool := false
  deriving DecidableEq, Repr

/-- A child of the wheel runner. -/
structure Child where
  executionId : ExecutionId
  exited : Option Int := none
  signalled : Bool := false
  /-- It exited without having been sent a signal. -/
  own : Bool := false
  deriving DecidableEq, Repr

/-- A signal as it was sent. -/
structure SentSignal where
  executionId : ExecutionId
  job : Option JobId
  kill : Bool
  sender : SignalSender
  /-- Scrapyd acknowledged it. -/
  acked : Bool
  /-- The stop in flight when it was sent. -/
  intent : Option StopIntent
  requestedAt : Option Time
  sentAt : Time
  deriving DecidableEq, Repr

/-- A wait task that was spawned. -/
structure Waiting where
  child : Nat
  taskId : TaskId
  executionId : ExecutionId
  deriving DecidableEq, Repr

/-- An exception that an operation raised. -/
structure Raised where
  op : AgentOp
  error : AgentError
  /-- The operation had taken effect. -/
  late : Bool
  deriving DecidableEq, Repr

/-- Who holds the lock of an execution. -/
inductive Owner where
  | consumer
  | waiter (child : Nat)
  deriving DecidableEq, Repr

/-- The agent's disk, scrapyd, its children, its memory, and some history. -/
structure AgentWorld where
  -- disk
  store : StateStore
  /-- State files that do not parse. -/
  torn : List ExecutionId
  outbox : List AgentEvent
  -- outside
  stream : List AgentEvent
  jobs : Table JobId Job
  nextJob : JobId
  children : Table Nat Child
  nextChild : Nat
  nextEvent : Nat
  now : Time
  -- memory
  inprocWheel : List ExecutionId
  procs : ExecutionId → Option Nat
  wheelCanceled : List ExecutionId
  waiting : List Waiting
  locks : ExecutionId → Option Owner
  handling : Option AgentCommand
  running : Bool
  -- history
  emitted : List AgentEvent
  handled : List AgentCommand
  /-- How many events had been emitted when the command in hand was begun. -/
  begun : Nat
  /-- The execution whose state file the command in hand created. -/
  reserving : Option ExecutionId
  /-- The commands whose handling came to its end, each with its `begun`. -/
  processed : List (AgentCommand × Nat)
  signals : List SentSignal
  /-- Jobs that scrapyd listed neither as running nor as pending. -/
  seenGone : List JobId
  /-- Executions marked done whose terminal has not been emitted since. -/
  unreported : List ExecutionId
  raised : List Raised

/-- The event a recorded result is reported by. -/
def AttemptResult.eventType : AttemptResult → AgentEventType
  | finished => .finished
  | failed => .failed
  | canceled => .canceled
  | lost => .lost

namespace AgentWorld

/-- An agent that was just installed. -/
def empty : AgentWorld where
  store := .empty
  torn := []
  outbox := []
  stream := []
  jobs := .empty
  nextJob := 0
  children := .empty
  nextChild := 0
  nextEvent := 0
  now := 0
  inprocWheel := []
  procs := fun _ => none
  wheelCanceled := []
  waiting := []
  locks := fun _ => none
  handling := none
  running := false
  emitted := []
  handled := []
  begun := 0
  reserving := none
  processed := []
  signals := []
  seenGone := []
  unreported := []
  raised := []

/-- The event is in the outbox or in the stream. -/
def durable (w : AgentWorld) (ev : AgentEvent) : Prop := ev ∈ w.outbox ∨ ev ∈ w.stream

/-- `_enforce_outbox_cap`: room for one more event. -/
def enforceOutboxCap (cfg : AgentConfig) (outbox : List AgentEvent) : List AgentEvent :=
  if cfg.maxOutboxFiles = 0 then outbox
  else outbox.drop (outbox.length + 1 - cfg.maxOutboxFiles)

/-- A terminal of this type was emitted for the execution. -/
def reported (w : AgentWorld) (e : ExecutionId) (type : AgentEventType) : Bool :=
  w.emitted.any fun ev => ev.executionId = e && ev.type = type

/-- The attempt is done, and its terminal is neither scheduled nor emitted; the
`lost` of a reclaim is not reported. -/
def owes (w : AgentWorld) (e : ExecutionId) (s : AttemptState) : Bool :=
  match s.phase, s.result with
  | .done, some result =>
      !s.terminalPending && !(result == .lost && s.lostReason == none)
        && !w.reported e result.eventType
  | _, _ => false

/-- The executions that wait for their terminal after a mark. -/
def unreportedAfter (w : AgentWorld) (e : ExecutionId) (m : Mark) (s : AttemptState) :
    List ExecutionId :=
  match m with
  | .done .. =>
      if w.owes e (m.apply s) then e :: w.unreported.filter (· ≠ e)
      else w.unreported.filter (· ≠ e)
  | _ => w.unreported

/-- The event was handed over. -/
def emit (w : AgentWorld) (ev : AgentEvent) : AgentWorld :=
  { w with
    emitted := w.emitted ++ [ev]
    unreported :=
      if ev.type.isTerminal then w.unreported.filter (· ≠ ev.executionId) else w.unreported }

/-- An exception is noted. -/
def note (w : AgentWorld) (x : Raised) : AgentWorld := { w with raised := w.raised ++ [x] }

@[simp] theorem note_store (w : AgentWorld) (x : Raised) : (w.note x).store = w.store := rfl

@[simp] theorem note_emitted (w : AgentWorld) (x : Raised) : (w.note x).emitted = w.emitted := rfl

@[simp] theorem note_raised (w : AgentWorld) (x : Raised) :
    (w.note x).raised = w.raised ++ [x] := rfl

theorem note_ite_store {w w' : AgentWorld} {x : Raised} {b : Bool} (h : w'.store = w.store) :
    ((if b then w' else w).note x).store = w.store := by
  cases b
  · rfl
  · exact h

theorem note_ite_emitted {w w' : AgentWorld} {x : Raised} {b : Bool}
    (h : w'.emitted = w.emitted) : ((if b then w' else w).note x).emitted = w.emitted := by
  cases b
  · rfl
  · exact h

theorem note_ite_raised {w w' : AgentWorld} {x : Raised} {b : Bool} (h : w'.raised = w.raised) :
    ((if b then w' else w).note x).raised = w.raised ++ [x] := by
  rw [note_raised]
  cases b
  · rfl
  · exact congrArg (· ++ [x]) h

/-- An operation that may raise, before or after its effect. -/
def fallible {α : Type} (w : AgentWorld) (op : AgentOp) (x : AgentAnswer) (r : α)
    (w' : AgentWorld) : Option (Except AgentError α × AgentWorld) :=
  match x.error with
  | none => some (.ok r, w')
  | some err =>
      if err.foreign then some (.error err, (if x.late then w' else w).note ⟨op, err, x.late⟩)
      else none

/-- An operation that may raise, and then has no effect. -/
def atomically {α : Type} (w : AgentWorld) (op : AgentOp) (x : AgentAnswer) (r : α)
    (w' : AgentWorld) : Option (Except AgentError α × AgentWorld) :=
  w.fallible op { x with late := false } r w'

/-- How an operation that may raise ends. -/
theorem fallible_cases {α : Type} {w w' w'' : AgentWorld} {op : AgentOp} {x : AgentAnswer} {r : α}
    {res : Except AgentError α} (h : w.fallible op x r w' = some (res, w'')) :
    (x.error = none ∧ res = .ok r ∧ w'' = w') ∨
      ∃ err, x.error = some err ∧ err.foreign = true ∧ res = .error err ∧
        w'' = (if x.late then w' else w).note ⟨op, err, x.late⟩ := by
  unfold fallible at h
  split at h
  · rename_i hnone
    cases h
    exact .inl ⟨hnone, rfl, rfl⟩
  · rename_i err hsome
    split at h
    · rename_i hforeign
      cases h
      exact .inr ⟨err, hsome, hforeign, rfl, rfl⟩
    · cases h

theorem atomically_cases {α : Type} {w w' w'' : AgentWorld} {op : AgentOp} {x : AgentAnswer}
    {r : α} {res : Except AgentError α} (h : w.atomically op x r w' = some (res, w'')) :
    (x.error = none ∧ res = .ok r ∧ w'' = w') ∨
      ∃ err, x.error = some err ∧ err.foreign = true ∧ res = .error err ∧
        w'' = w.note ⟨op, err, false⟩ :=
  fallible_cases h

/-- Whether a reclaim has sent the job a signal. -/
def reclaimSent (w : AgentWorld) (job : JobId) : Bool :=
  w.signals.any fun g => g.job = some job && g.intent = some .reclaim

end AgentWorld

/-- What an operation of the consumer does. -/
def AgentOp.perform (cfg : AgentConfig) : (op : AgentOp) → AgentAnswer → AgentWorld →
    Option (Except AgentError op.Res × AgentWorld)
  | .listExecutionIds, x, w =>
      w.fallible .listExecutionIds x
        ((w.store.listExecutionIds ++ w.torn).insertionSort (· ≤ ·)) w
  | .read e, _, w => some (.ok (w.store.read e), w)
  | .createReserved s, x, w =>
      if s.executionId ∈ w.torn then some (.ok false, w)
      else
        match w.store.createReserved s with
        | none => some (.ok false, w)
        | some store =>
            if x.error.isSome ∧ x.late then
              -- the file was created, the write failed
              w.fallible (.createReserved s) x true { w with torn := s.executionId :: w.torn }
            else
              w.atomically (.createReserved s) x true
                { w with store := store, reserving := some s.executionId }
  | .mark e m, x, w =>
      match w.store.read e with
      | none => some (.ok none, w)
      | some s =>
          w.atomically (.mark e m) x (some (m.apply s))
            { w with store := w.store.mark e m, unreported := w.unreportedAfter e m s }
  | .delete e, x, w =>
      w.atomically (.delete e) x ()
        { w with
          store := w.store.delete e
          torn := w.torn.filter (· ≠ e)
          unreported := w.unreported.filter (· ≠ e) }
  | .uuid, _, w => some (.ok w.nextEvent, { w with nextEvent := w.nextEvent + 1 })
  | .persist ev, x, w =>
      if cfg.eventOutbox then
        let kept := AgentWorld.enforceOutboxCap cfg w.outbox
        match x.error with
        | none => some (.ok true, ({ w with outbox := kept ++ [ev] }).emit ev)
        | some _ => w.fallible (.persist ev) x true { w with outbox := kept }
      else some (.ok false, w)
  | .xadd ev, x, w =>
      let sent : AgentWorld := { w with stream := w.stream ++ [ev] }
      w.fallible (.xadd ev) x () (if cfg.eventOutbox then sent else sent.emit ev)
  | .unlinkEvent ev, x, w =>
      w.atomically (.unlinkEvent ev) x ()
        -- the file is named by the event's id, and no two events share one
        { w with outbox := w.outbox.filter (· ≠ ev) }
  | .outboxEntries, x, w => w.fallible .outboxEntries x w.outbox w
  | .heartbeat .., _, w => some (.ok (), w)
  | .schedule e project spider version settings args, x, w =>
      w.fallible (.schedule e project spider version settings args) x w.nextJob
        { w with
          jobs := w.jobs.insert w.nextJob { executionId := e, project := project }
          nextJob := w.nextJob + 1 }
  | .cancel e project job kill sender, x, w =>
      let state := w.store.read e
      let sent : SentSignal :=
        { executionId := e
          job := job
          kill := kill
          sender := sender
          acked := x.error.isNone
          intent := state.bind (·.stopIntent)
          requestedAt := state.bind (·.stopRequestedAt)
          sentAt := w.now }
      w.fallible (.cancel e project job kill sender) { x with late := true } x.flag
        { w with signals := w.signals ++ [sent] }
  | .listjobs project job, x, w =>
      w.atomically (.listjobs project job) x x.jobs
        { w with
          seenGone :=
            match job with
            | some j =>
                if j ∈ x.jobs.running ∨ j ∈ x.jobs.pending then w.seenGone else j :: w.seenGone
            | none => w.seenGone }
  | .pidKill _, x, w => some (.ok x.flag, w)
  | .logExists path, x, w => w.fallible (.logExists path) x x.flag w
  | .logSize _, x, w => some (.ok x.size, w)
  | .logStats _, x, w => some (.ok x.stats, w)
  | .truncateLog path, x, w => w.fallible (.truncateLog path) x () w
  | .unlinkLog path, x, w => w.fallible (.unlinkLog path) x () w
  | .wheelStart e shellCommand installPath workingDir env runtimeContext, x, w =>
      w.atomically (.wheelStart e shellCommand installPath workingDir env runtimeContext) x
        x.started
        { w with
          children := w.children.insert w.nextChild { executionId := e }
          nextChild := w.nextChild + 1
          procs := Function.update w.procs e (some w.nextChild) }
  | .wheelTerminate e, _, w =>
      some (.ok (),
        { w with
          wheelCanceled := e :: w.wheelCanceled
          children :=
            match w.procs e with
            | some n => w.children.modify n fun c => { c with signalled := true }
            | none => w.children })
  | .wheelActive e, _, w =>
      some (.ok (((w.procs e).bind w.children.get).any (·.exited.isNone)), w)
  | .terminatePgid _, _, w => some (.ok (), w)
  | .rmtree _, _, w => some (.ok (), w)
  | .cache hash step, x, w => w.fallible (.cache hash step) x x.flag w
  | .validate context, _, w =>
      match context with
      | .absent => some (.ok [], w)
      | .valid env => some (.ok env, w)
      | .invalid => w.fallible (.validate context) { error := some .other } [] w
  | .addInproc e, _, w => some (.ok (), { w with inprocWheel := e :: w.inprocWheel })
  | .inproc e, _, w => some (.ok (decide (e ∈ w.inprocWheel)), w)
  | .spawnWait t e, _, w =>
      some (.ok (),
        { w with
          waiting :=
            match w.procs e with
            | some n => w.waiting ++ [⟨n, t, e⟩]
            | none => w.waiting })
  | .wheelWait n, _, w =>
      match w.children.get n with
      | none => none
      | some c => c.exited.map fun code =>
          (.ok ⟨code, decide (c.executionId ∈ w.wheelCanceled)⟩, w)
  | .releaseExecution e, _, w =>
      some (.ok (),
        { w with
          inprocWheel := w.inprocWheel.filter (· ≠ e)
          procs := Function.update w.procs e none
          wheelCanceled := w.wheelCanceled.filter (· ≠ e) })
  | .now, _, w => some (.ok w.now, w)
  | .begin cmd, _, w =>
      if w.locks cmd.executionId = none then
        some (.ok (),
          { w with
            locks := Function.update w.locks cmd.executionId (some .consumer)
            handling := some cmd
            handled := w.handled ++ [cmd]
            begun := w.emitted.length
            reserving := none })
      else none
  | .finish cmd, _, w =>
      some (.ok (),
        { w with
          locks := Function.update w.locks cmd.executionId none
          handling := none
          reserving := none
          processed := w.processed ++ [(cmd, w.begun)] })
  | .lockWait n e, _, w =>
      if w.locks e = none then
        some (.ok (), { w with locks := Function.update w.locks e (some (.waiter n)) })
      else none
  | .unlockWait e, _, w => some (.ok (), { w with locks := Function.update w.locks e none })
  | .setup, x, w => w.fallible .setup x () w
  | .enterLoop, _, w => some (.ok (), { w with running := true })

/-! ### What happens beside the consumer -/

/-- What else moves the world. -/
inductive AgentMove where
  | tick (dt : Nat)
  | jobEnds (job : JobId)
  | childExits (child : Nat) (code : Int)
  /-- `on_execution_eof`. -/
  | eof (e : ExecutionId)
  deriving DecidableEq, Repr

namespace AgentWorld

def move (w : AgentWorld) : AgentMove → AgentWorld
  | .tick dt => { w with now := w.now + dt }
  | .jobEnds job =>
      { w with
        jobs := w.jobs.modify job fun j =>
          if j.alive then { j with alive := false, own := !w.reclaimSent job } else j }
  | .childExits n code =>
      { w with
        children := w.children.modify n fun c =>
          match c.exited with
          | none => { c with exited := some code, own := !c.signalled }
          | some _ => c }
  | .eof e =>
      { w with
        inprocWheel := w.inprocWheel.filter (· ≠ e)
        procs := Function.update w.procs e none
        wheelCanceled := w.wheelCanceled.filter (· ≠ e) }

/-- What is left when the agent dies: its disk, scrapyd, the children. -/
def crash (w : AgentWorld) : AgentWorld :=
  { w with
    inprocWheel := []
    procs := fun _ => none
    wheelCanceled := []
    waiting := []
    locks := fun _ => none
    handling := none
    reserving := none
    running := false }

end AgentWorld

/-! ### Programs -/

abbrev AgentProg (α : Type) : Type := Prog AgentOp AgentOp.Res AgentError α

namespace AgentOp

/-- Perform the operation. -/
abbrev call (op : AgentOp) : AgentProg op.Res := Prog.call op

/-- Perform the operation and look at its error. -/
abbrev ask (op : AgentOp) : AgentProg (Except AgentError op.Res) := Prog.ask op

end AgentOp

end Dopilot
