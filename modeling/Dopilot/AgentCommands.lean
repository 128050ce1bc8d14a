/-
Dopilot/AgentCommands.lean

The agent's command consumer: run, stop and cleanup commands, the pass over all
attempts that every round of its loop makes, and the recovery at start-up.

A stop of a running scrapyd job is not waited for.  Its handler records the
request in the state file, and the passes drive it from there: TERM, KILL, a
deadline for the report, and beyond it the attempts to kill what is left.  A
cleanup that arrives meanwhile is recorded as well.  A wheel's child is watched
by a task of its own, `awaitWheel`.
-/
import Dopilot.AgentRunners
import Dopilot.Process

namespace Dopilot

open AgentOp (call ask)

/-! ### Clocks -/

/-- `_elapsed_since`. -/
def elapsedSince (now : Time) : Option Time → Time
  | none => 0
  | some stamp => now - stamp

/-- `_flood_elapsed`. -/
def floodElapsed (now : Time) (s : AttemptState) : Time :=
  max 0 (elapsedSince now s.logFloodRequestedAt)

/-! ### Cleanup -/

/-- `_cleanup_must_wait`. -/
def cleanupMustWait (s : AttemptState) : Bool :=
  (s.phase == .started && s.stopRequestedAt.isSome) || s.killPending || s.terminalPending

/-- The local log of an attempt. -/
def removeLog (s : AttemptState) : AgentProg Unit :=
  if s.logPath = "" then return () else call (.unlinkLog s.logPath)

/-- The workspace of a wheel. -/
def removeWorkspace (s : AttemptState) : AgentProg Unit :=
  if s.workspacePath = "" then return () else call (.rmtree s.workspacePath)

/-- The files of an attempt beside its state. -/
def removeFiles : Option AttemptState → AgentProg Unit
  | none => return ()
  | some s => do
      removeLog s
      removeWorkspace s

/-- `_do_cleanup`. -/
def doCleanup (e : ExecutionId) : AgentProg Unit := do
  let read : Option AttemptState ← call (.read e)
  removeFiles read
  call (.delete e)
  call (.releaseExecution e)

/-- `_handle_cleanup`. -/
def handleCleanup (cmd : AgentCommand) : AgentProg Unit := do
  let read : Option AttemptState ← call (.read cmd.executionId)
  if read.any cleanupMustWait then
    let _ : Option AttemptState ← call (.mark cmd.executionId .cleanupPending)
  else doCleanup cmd.executionId

/-- `_run_deferred_cleanup`. -/
def runDeferredCleanup (e : ExecutionId) : AgentProg Unit := do
  let read : Option AttemptState ← call (.read e)
  match read with
  | none => return ()
  | some s =>
      if s.cleanupPending = false ∨ s.killPending = true ∨ s.terminalPending = true then return ()
      else
        match ← (doCleanup e).attempt with
        | .ok _ => return ()
        -- the flag stays, and a later pass tries again
        | .error .os => return ()
        | .error err => throw err

/-! ### Stopping -/

/-- `_send_stop_signal`: whether scrapyd acknowledged. -/
def sendStopSignal (e : ExecutionId) (kill : Bool) (escalation : Escalation)
    (sender : SignalSender) : AgentProg Bool := do
  match ← (runnerStop e kill sender).attempt with
  | .error _ => return false
  | .ok (resp : StopResponse) =>
      if resp.reason = some .cancelFailed then return false
      else
        let _ : Option AttemptState ← call (.mark e (.stopEscalation escalation))
        return true

/-- `_begin_stop`: the request is recorded before anything is sent. -/
def beginStop (s : AttemptState) (intent : StopIntent) : AgentProg Unit := do
  if s.stopRequestedAt.isSome then return ()
  else
    let now : Time ← call .now
    let _ : Option AttemptState ← call (.mark s.executionId (.stopRequested intent now))
    let _ ← sendStopSignal s.executionId false .term .stop

/-- The terminal of `_finalize_stop`. -/
def reportStop (cfg : AgentConfig) (s : AttemptState) (confirmed : Bool) : AgentProg Unit := do
  if s.stopIntent = some .reclaim then
    -- stays lost
    let _ : Option AttemptState ←
      call (.mark s.executionId (.done .lost none none none (some !confirmed) (some false)))
    return ()
  else
    let _ : Option AttemptState ←
      call (.mark s.executionId (.done .canceled none none none (some !confirmed) (some true)))
    emit cfg (event s.taskId s.executionId .canceled)
    let _ : Option AttemptState ← call (.mark s.executionId .clearTerminalPending)
    return ()

/-- `_finalize_stop`. -/
def finalizeStop (cfg : AgentConfig) (s : AttemptState) (confirmed : Bool) : AgentProg Unit := do
  reportStop cfg s confirmed
  if confirmed then runDeferredCleanup s.executionId else return ()

/-- `_stop_watchdog`. -/
def stopWatchdog (cfg : AgentConfig) (s : AttemptState) : AgentProg Unit := do
  let now : Time ← call .now
  let elapsed := elapsedSince now s.stopRequestedAt
  if 0 < cfg.stopConfirmTimeout ∧ (cfg.stopConfirmTimeout : Time) ≤ elapsed then
    finalizeStop cfg s false
  else
    let alive ← isJobAlive s.executionId
    match alive with
    | some false => finalizeStop cfg s true
    | none => return ()
    | some true =>
        if s.stopEscalation = none then
          let _ ← sendStopSignal s.executionId false .term .stopWatchdog
        else if s.stopEscalation = some .term ∧ (cfg.stopKillAfter : Time) ≤ elapsed then
          let _ ← sendStopSignal s.executionId true .kill .stopWatchdog
        else return ()

/-- The part of `_reclaim_watchdog` that looks at the process. -/
def reclaimProcess (cfg : AgentConfig) (s : AttemptState) : AgentProg Unit := do
  if s.killPending then
    let alive ← isJobAlive s.executionId
    match alive with
    | some false =>
        let _ : Option AttemptState ← call (.mark s.executionId .clearKillPending)
        runDeferredCleanup s.executionId
    | none => return ()
    | some true =>
        let now : Time ← call .now
        if cfg.killRetryInterval = 0 ∨ s.killLastAttemptAt = none
            ∨ (cfg.killRetryInterval : Time) ≤ elapsedSince now s.killLastAttemptAt then
          let _ ← sendStopSignal s.executionId true .kill .reclaimWatchdog
          let stamp : Time ← call .now
          let _ : Option AttemptState ← call (.mark s.executionId (.killAttempt stamp))
        else return ()
  else if s.cleanupPending then runDeferredCleanup s.executionId
  else return ()

/-- `_reclaim_watchdog`. -/
def reclaimWatchdog (cfg : AgentConfig) (s : AttemptState) : AgentProg Unit := do
  if s.terminalPending then
    republishCurrent cfg s.taskId s.executionId
    let _ : Option AttemptState ← call (.mark s.executionId .clearTerminalPending)
    let read : Option AttemptState ← call (.read s.executionId)
    reclaimProcess cfg (read.getD s)
  else reclaimProcess cfg s

/-! ### Log floods -/

/-- `_truncate_local_log`. -/
def truncateLocalLog (cfg : AgentConfig) (s : AttemptState) : AgentProg Unit := do
  if cfg.maxJobLogBytes = 0 then return () else call (.truncateLog s.logPath)

/-- `_flood_cancel`. -/
def floodCancel (s : AttemptState) (kill : Bool) : AgentProg Unit := do
  let _ ← (runnerStop s.executionId kill .flood).attempt
  return ()

/-- `mark_log_flood`, with the state the watchdog goes on with. -/
def markLogFlood (s : AttemptState) (size : Nat) (escalation : Option Escalation) :
    AgentProg AttemptState := do
  let now : Time ← call .now
  let marked : Option AttemptState ← call (.mark s.executionId
    (.logFlood size (s.logFloodRequestedAt.getD now) escalation))
  return marked.getD s

/-- `_flood_pid_kill`, unless it has killed before. -/
def floodPidKill (s : AttemptState) : AgentProg Bool :=
  if s.logFloodEscalation = some .pidkill then return false else call (.pidKill s.scrapydJobId)

/-- The KILL level is recorded once. -/
def floodKillLevel (s : AttemptState) (size : Nat) : AgentProg AttemptState :=
  if s.logFloodEscalation = some .kill then return s else markLogFlood s size (some .kill)

/-- The escalation of `_flood_watchdog`. -/
def floodEscalate (cfg : AgentConfig) (s : AttemptState) (size : Nat) :
    AgentProg AttemptState := do
  let now : Time ← call .now
  let elapsed := floodElapsed now s
  if 2 * (cfg.floodKillAfter : Time) ≤ elapsed then
    let killed ← floodPidKill s
    if killed then markLogFlood s size (some .pidkill)
    else
      floodCancel s true
      return s
  else if (cfg.floodKillAfter : Time) ≤ elapsed then
    let s ← floodKillLevel s size
    floodCancel s true
    return s
  else
    floodCancel s false
    return s

/-- The size of a flooding log is recorded as it grows. -/
def floodSize (s : AttemptState) (size : Nat) : AgentProg AttemptState :=
  if s.logFloodBytes < size then markLogFlood s size none else return s

/-- `_flood_watchdog`. -/
def floodWatchdog (cfg : AgentConfig) (s : AttemptState) (size : Option Nat) :
    AgentProg AttemptState := do
  match size with
  | none => return s
  | some size =>
      if cfg.maxJobLogBytes = 0 ∨ s.logPath = "" then return s
      else if s.logFlood = false then
        if size < cfg.maxJobLogBytes then return s
        else
          let s ← markLogFlood s size (some .term)
          truncateLocalLog cfg s
          floodCancel s false
          return s
      else
        truncateLocalLog cfg s
        let s ← floodSize s size
        floodEscalate cfg s size

/-- `_sample_log_size`. -/
def sampleLogSize (s : AttemptState) : AgentProg (Option Nat) := do
  if s.logPath = "" then return none else call (.logSize s.logPath)

/-! ### The end of a job -/

/-- The size `_finish_scrapy_attempt` reports. -/
def finishedLogBytes (s : AttemptState) (size : Option Nat) : Option Nat :=
  if s.logFlood then some (max (size.getD 0) s.logFloodBytes) else size

/-- The result it records for a job that ended so. -/
def finishedResult (s : AttemptState) : AgentEventType → AttemptResult
  | .canceled => if s.logFlood then .failed else .canceled
  | .failed => .failed
  | _ => if s.logFlood then .failed else .finished

/-- A log that flooded is cut for good. -/
def truncateFlooded (cfg : AgentConfig) (s : AttemptState) : AgentProg Unit :=
  if s.logFlood then truncateLocalLog cfg s else return ()

/-- `_finish_scrapy_attempt`. -/
def finishScrapyAttempt (cfg : AgentConfig) (s : AttemptState) (terminal : AgentEventType) :
    AgentProg Unit := do
  let stats : ScrapyStats ← call (.logStats s.logPath)
  let size : Option Nat ← call (.logSize s.logPath)
  let logBytes := finishedLogBytes s size
  let result := finishedResult s terminal
  let errorCode := if s.logFlood then some "log_flood" else none
  let _ : Option AttemptState ← call (.mark s.executionId
    (.stats stats.errorCount stats.finishReason logBytes stats.outcomeClass))
  truncateFlooded cfg s
  let _ : Option AttemptState ←
    call (.mark s.executionId (.done result none errorCode none none none))
  emit cfg { event s.taskId s.executionId result.eventType with
    errorCode := errorCode
    errorDetail :=
      if s.logFlood then
        [("log_bytes", toString (logBytes.getD 0)), ("cap", toString cfg.maxJobLogBytes),
          ("kill_escalation", match s.logFloodEscalation with
            | some .term => "term"
            | some .kill => "kill"
            | some .pidkill => "pidkill"
            | none => "")]
      else []
    errorCount := stats.errorCount
    finishReason := stats.finishReason
    logBytes := logBytes
    outcomeClass := stats.outcomeClass }

/-! ### The pass over all attempts -/

/-- The body of the loop of `reconcile_started_attempts`. -/
def reconcileAttempt (cfg : AgentConfig) (e : ExecutionId) : AgentProg Unit := do
  let read : Option AttemptState ← call (.read e)
  match read with
  | none => return ()
  | some s =>
      if s.phase ≠ .started then reclaimWatchdog cfg s
      else if s.runnerType = .pythonWheel then
        let inproc : Bool ← call (.inproc e)
        let active : Bool ← call (.wheelActive e)
        if inproc && cfg.wheelRunner && active then call (.heartbeat s.taskId e none)
        else return ()
      else
        let size ← sampleLogSize s
        let s ← floodWatchdog cfg s size
        if s.stopRequestedAt.isSome then stopWatchdog cfg s
        else
          let status ← runnerStatus e
          match status.terminal with
          | some terminal => finishScrapyAttempt cfg s terminal
          | none =>
              if status = .running then call (.heartbeat s.taskId e size) else return ()

/-- The loop of `reconcile_started_attempts`. -/
def reconcileAttempts (cfg : AgentConfig) : List ExecutionId → AgentProg Unit
  | [] => return ()
  | e :: rest => do
      reconcileAttempt cfg e
      reconcileAttempts cfg rest

/-- `reconcile_started_attempts`. -/
def reconcileStartedAttempts (cfg : AgentConfig) : AgentProg Unit := do
  let ids : List ExecutionId ← call .listExecutionIds
  reconcileAttempts cfg ids

/-! ### Run commands -/

/-- An exit of `_handle_run`: the attempt is done, and reported as failed. -/
def failRun (cfg : AgentConfig) (cmd : AgentCommand) (errorCode : String) (detail : Detail)
    (lostReason : Option LostReason) : AgentProg Unit := do
  let _ : Option AttemptState ←
    call (.mark cmd.executionId (.done .failed lostReason (some errorCode) none none none))
  emit cfg { event cmd.taskId cmd.executionId .failed with
    errorCode := some errorCode
    errorDetail := detail
    lostReason := lostReason }

/-- `{**first, **second}`. -/
def mergeDetail (first second : Detail) : Detail :=
  first.filter (fun x => !second.any fun y => y.1 == x.1) ++ second

/-- `_runtime_context_env`, and `_runtime_context_scrapy_settings`. -/
def runtimeContextEnv (payload : CommandPayload) : AgentProg (List (String × String)) :=
  call (.validate payload.runtimeContext)

/-- `log_path` of the runner, below its logs directory. -/
def jobLogPath (project spider : String) (job : JobId) : String :=
  project ++ "/" ++ spider ++ "/" ++ toString job ++ ".log"

/-- The second half of `_handle_run`: schedule, then promote. -/
def scheduleRun (cfg : AgentConfig) (cmd : AgentCommand) (project : String)
    (version : Option String) (parsed : ParsedScrapyCommand) : AgentProg Unit := do
  let context ← runtimeContextEnv cmd.payload
  match ← (runnerSchedule cmd.executionId project parsed.spider version
      (parsed.settings ++ context) parsed.args).attempt with
  | .error (.runner detail) => failRun cfg cmd "scrapyd_error" detail none
  | .error err => throw err
  | .ok (job : JobId) =>
      let promoted : Option AttemptState ← call (.mark cmd.executionId
        (.promoteStarted job (jobLogPath project parsed.spider job)))
      match promoted with
      | none => failRun cfg cmd "spawn_aborted" [] (some .spawnAborted)
      | some _ =>
          emit cfg { event cmd.taskId cmd.executionId .running with remoteJobId := some job }

/-- The first half of `_handle_run`, once the state file is reserved. -/
def prepareRun (cfg : AgentConfig) (cmd : AgentCommand) (artifact : ArtifactRef)
    (parsed : Except Detail ParsedScrapyCommand) : AgentProg Unit := do
  emit cfg (event cmd.taskId cmd.executionId .accepted)
  let missing : Detail := if artifact.project = "" then [("reason", "artifact_missing")] else []
  match parsed with
  | .error detail => failRun cfg cmd "command_invalid" (mergeDetail missing detail) none
  | .ok parsed =>
      if artifact.project = "" then failRun cfg cmd "command_invalid" missing none
      else if artifact.hash = none then
        scheduleRun cfg cmd artifact.project artifact.version parsed
      else if cfg.artifactCache = false then
        failRun cfg cmd "artifact_cache_unavailable" [] none
      else
        match ← (ensureEgg cfg artifact).attempt with
        | .error (.artifactCache detail) => failRun cfg cmd "artifact_error" detail none
        | .error err => throw err
        | .ok _ => scheduleRun cfg cmd artifact.project artifact.version parsed

/-- Start the child of a wheel, then promote. -/
def startWheelRun (cfg : AgentConfig) (cmd : AgentCommand) (installPath : String)
    (context : List (String × String)) : AgentProg Unit := do
  match ← ask (.wheelStart cmd.executionId cmd.payload.shellCommand installPath
      cmd.payload.workingDir cmd.payload.env context) with
  | .error (.wheelRunner errorCode detail) => failRun cfg cmd errorCode detail none
  | .error err => throw err
  | .ok (started : StartedWheel) =>
      let promoted : Option AttemptState ← call (.mark cmd.executionId
        (.promoteStartedWheel started.pgid started.workspacePath started.logPath))
      match promoted with
      | none =>
          call (.wheelTerminate cmd.executionId)
          failRun cfg cmd "spawn_aborted" [] (some .spawnAborted)
      | some _ =>
          call (.addInproc cmd.executionId)
          emit cfg (event cmd.taskId cmd.executionId .running)
          call (.spawnWait cmd.taskId cmd.executionId)

/-- `_handle_run_wheel`, once the state file is reserved. -/
def prepareWheelRun (cfg : AgentConfig) (cmd : AgentCommand) (artifact : ArtifactRef)
    (context : List (String × String)) : AgentProg Unit := do
  emit cfg (event cmd.taskId cmd.executionId .accepted)
  if cmd.payload.shellCommand = "" then
    failRun cfg cmd "command_invalid" [("missing", "shell_command")] none
  else if artifact.hash = none then
    failRun cfg cmd "command_invalid" [("missing", "artifact")] none
  else if cfg.wheelRunner = false ∨ cfg.wheelCache = false then
    failRun cfg cmd "wheel_runner_unavailable" [] none
  else
    match ← (ensureWheel cfg artifact).attempt with
    | .error (.wheelCache detail) => failRun cfg cmd "wheel_install_error" detail none
    | .error err => throw err
    | .ok installPath => startWheelRun cfg cmd installPath context

/-- `_handle_run_wheel`. -/
def handleRunWheel (cfg : AgentConfig) (cmd : AgentCommand) : AgentProg Unit := do
  let context ← runtimeContextEnv cmd.payload
  let reserved : Bool ← call (.createReserved
    { taskId := cmd.taskId
      executionId := cmd.executionId
      runnerType := .pythonWheel
      shellCommand := cmd.payload.shellCommand })
  if reserved then prepareWheelRun cfg cmd (cmd.payload.artifact.getD {}) context
  else republishCurrent cfg cmd.taskId cmd.executionId

/-- `_handle_run`. -/
def handleRun (cfg : AgentConfig) (cmd : AgentCommand) : AgentProg Unit := do
  let existing : Option AttemptState ← call (.read cmd.executionId)
  if existing.isSome then republishCurrent cfg cmd.taskId cmd.executionId
  else if cmd.taskType = .pythonWheel then handleRunWheel cfg cmd
  else
    let artifact := cmd.payload.artifact.getD {}
    let parsed := cfg.parseScrapyCommand cmd.payload.command
    let reserved : Bool ← call (.createReserved
      { taskId := cmd.taskId
        executionId := cmd.executionId
        project := artifact.project
        version := artifact.version
        spider := match parsed with
          | .ok parsed => parsed.spider
          | .error _ => "" })
    if reserved then prepareRun cfg cmd artifact parsed
    else republishCurrent cfg cmd.taskId cmd.executionId

/-! ### Stop commands -/

/-- Report `canceled` now: there is nothing to drive across passes. -/
def cancelNow (cfg : AgentConfig) (cmd : AgentCommand) : AgentProg Unit := do
  let _ : Option AttemptState ←
    call (.mark cmd.executionId (.done .canceled none none none none none))
  emit cfg (event cmd.taskId cmd.executionId .canceled)

/-- Whether the attempt is one of the wheel runner's. -/
def isWheel (cfg : AgentConfig) (state : Option AttemptState) : Bool :=
  cfg.wheelRunner && state.any fun s => s.runnerType == .pythonWheel

/-- `_handle_stop`, of a cancel. -/
def handleCancel (cfg : AgentConfig) (cmd : AgentCommand) : AgentProg Unit := do
  let state : Option AttemptState ← call (.read cmd.executionId)
  if isWheel cfg state then
    call (.wheelTerminate cmd.executionId)
    cancelNow cfg cmd
  else
    match state with
    | none =>
        let _ ← runnerStop cmd.executionId false .command
        cancelNow cfg cmd
    | some s =>
        if s.phase ≠ .started then
          let _ ← runnerStop cmd.executionId false .command
          cancelNow cfg cmd
        else beginStop s .cancel

/-- `_handle_stop`, of a reclaim. -/
def handleReclaim (cfg : AgentConfig) (cmd : AgentCommand) : AgentProg Unit := do
  let state : Option AttemptState ← call (.read cmd.executionId)
  match state with
  | none => return ()
  | some s =>
      if isWheel cfg state then
        call (.wheelTerminate cmd.executionId)
        let _ : Option AttemptState ←
          call (.mark cmd.executionId (.done .lost none none none none none))
      else if s.phase ≠ .started then
        if s.result.isSome then republishCurrent cfg cmd.taskId cmd.executionId else return ()
      else if s.stopRequestedAt.isSome then return ()
      else
        -- before any signal goes out, the status is still the job's own
        let status ← runnerStatus cmd.executionId
        match status.terminal with
        | some terminal => finishScrapyAttempt cfg s terminal
        | none => beginStop s .reclaim

/-- `_handle_stop`. -/
def handleStop (cfg : AgentConfig) (cmd : AgentCommand) : AgentProg Unit :=
  if cmd.intent = some .cancel then handleCancel cfg cmd else handleReclaim cfg cmd

/-- `_handle_stop_logs`. -/
def handleStopLogs (cmd : AgentCommand) : AgentProg Unit := do
  let _ : Option AttemptState ← call (.mark cmd.executionId .logCapped)

/-- The handler of a command. -/
def handleCommand (cfg : AgentConfig) (cmd : AgentCommand) : AgentProg Unit :=
  match cmd.type with
  | .run => handleRun cfg cmd
  | .stop => handleStop cfg cmd
  | .cleanupLogs => handleCleanup cmd
  | .stopLogs => handleStopLogs cmd

/-- `_process`, of a command that decodes. -/
def processCommand (cfg : AgentConfig) (cmd : AgentCommand) : AgentProg Unit := do
  call (.begin cmd)
  Prog.tryFinally (Prog.tryCatch (handleCommand cfg cmd) fun _ => .ret ()) (call (.finish cmd))

/-! ### Waiting for a child -/

/-- What `_await_wheel` records of an outcome. -/
def WheelOutcome.result (outcome : WheelOutcome) : AttemptResult :=
  if outcome.canceled then .canceled
  else if outcome.exitCode = 0 then .finished
  else .failed

/-- The exit code that goes with it. -/
def WheelOutcome.reportedExitCode (outcome : WheelOutcome) : Option Int :=
  if outcome.canceled then none else some outcome.exitCode

/-- `_await_wheel`. -/
def awaitWheel (cfg : AgentConfig) (x : Waiting) : AgentProg Unit := do
  let outcome : WheelOutcome ← call (.wheelWait x.child)
  call (.lockWait x.child x.executionId)
  Prog.tryFinally
    (do
      let read : Option AttemptState ← call (.read x.executionId)
      match read with
      | none => return ()
      | some s =>
          if s.phase = .done then return ()
          else
            let _ : Option AttemptState ← call (.mark x.executionId
              (.done outcome.result none none outcome.reportedExitCode none none))
            emit cfg { event x.taskId x.executionId outcome.result.eventType with
              exitCode := outcome.reportedExitCode })
    (call (.unlockWait x.executionId))

/-! ### Recovery, and the loop -/

/-- The loop of `recover_reserved_orphans`. -/
def recoverReserved (cfg : AgentConfig) : List ExecutionId → AgentProg Unit
  | [] => return ()
  | e :: rest => do
      let read : Option AttemptState ← call (.read e)
      match read with
      | none => recoverReserved cfg rest
      | some s =>
          if s.phase = .reserved then
            emit cfg { event s.taskId e .failed with
              errorCode := some "spawn_aborted"
              lostReason := some .spawnAborted }
            let _ : Option AttemptState ← call (.mark e
              (.done .failed (some .spawnAborted) (some "spawn_aborted") none none none))
            recoverReserved cfg rest
          else recoverReserved cfg rest

/-- Kill what is left of a child. -/
def killOrphan (s : AttemptState) : AgentProg Unit :=
  match s.pgid with
  | some pgid => call (.terminatePgid pgid)
  | none => return ()

/-- The loop of `recover_wheel_orphans`. -/
def recoverWheels (cfg : AgentConfig) : List ExecutionId → AgentProg Unit
  | [] => return ()
  | e :: rest => do
      let read : Option AttemptState ← call (.read e)
      match read with
      | none => recoverWheels cfg rest
      | some s =>
          let inproc : Bool ← call (.inproc e)
          if s.runnerType ≠ .pythonWheel ∨ s.phase ≠ .started ∨ inproc = true then
            recoverWheels cfg rest
          else
            killOrphan s
            let _ : Option AttemptState ← call (.mark e
              (.done .lost (some .runnerRecoveredUnknown) none none none none))
            emit cfg { event s.taskId e .lost with lostReason := some .runnerRecoveredUnknown }
            recoverWheels cfg rest

/-- `recover`, up to the pending commands. -/
def recover (cfg : AgentConfig) : AgentProg Unit := do
  call .setup
  replayOutbox cfg
  let ids : List ExecutionId ← call .listExecutionIds
  recoverReserved cfg ids
  let ids : List ExecutionId ← call .listExecutionIds
  recoverWheels cfg ids

/-- What `_run` does before its loop: an error of the recovery is only logged. -/
def agentBoot (cfg : AgentConfig) : AgentProg Unit := do
  Prog.tryCatch (recover cfg) fun _ => .ret ()
  call .enterLoop

/-- The part of a round of the loop that precedes the commands. -/
def agentTick (cfg : AgentConfig) : AgentProg Unit :=
  Prog.tryCatch
    (do
      replayOutbox cfg
      reconcileStartedAttempts cfg)
    fun _ => .ret ()

/-! ### The agent as a system -/

namespace Agent

/-- The consumer, and one waiter for each child. -/
abbrev Proc : Type := Owner

/-- What a process is started on. -/
inductive Launch where
  | boot
  | tick
  | command (cmd : AgentCommand)
  | wait
  deriving DecidableEq, Repr

/-- The programs of the processes.  A run command names the runner of its
execution's task. -/
def launch (cfg : AgentConfig) (kind : ExecutionId → RunnerType) (w : AgentWorld) :
    Proc → Launch → Option (AgentProg Unit)
  | .consumer, .boot => if w.running then none else some (agentBoot cfg)
  | .consumer, .tick => if w.running then some (agentTick cfg) else none
  | .consumer, .command cmd =>
      if w.running ∧ (cmd.type = .run → cmd.taskType = kind cmd.executionId) then
        some (processCommand cfg cmd)
      else none
  | .waiter n, .wait => (w.waiting.find? (·.child = n)).map (awaitWheel cfg)
  | _, _ => none

/-- The agent among everything else. -/
def spec (cfg : AgentConfig) (kind : ExecutionId → RunnerType) :
    Sys.Spec Proc AgentOp AgentOp.Res (fun _ => AgentAnswer) AgentError AgentWorld AgentMove
      Launch where
  iface := { perform := AgentOp.perform cfg }
  env w m := some (w.move m)
  launch := launch cfg kind
  crash := AgentWorld.crash

abbrev State : Type := Sys Proc AgentOp AgentOp.Res AgentError AgentWorld

abbrev Action : Type := Sys.Action Proc AgentOp (fun _ => AgentAnswer) AgentMove Launch

/-- A step of the agent. -/
abbrev step (cfg : AgentConfig) (kind : ExecutionId → RunnerType) :
    State → Action → Option State := Sys.step (spec cfg kind)

/-- Nothing has happened yet. -/
def start : State where
  world := .empty
  procs := fun _ => none

end Agent

end Dopilot
