/-
Dopilot/AgentRunners.lean

What the command consumer calls: the event publisher, the runner of scrapyd
jobs and the two artifact caches.

A status is always resolved from the state file and from what scrapyd lists;
`isJobAlive` asks for the second alone.  An event goes to the outbox first, and
leaves it once the stream took it.  The caches turn the failures they foresee
into errors of their own and let every other exception through.
-/
import Dopilot.AgentWorld

namespace Dopilot

open AgentOp (call ask)

/-! ### The event publisher -/

/-- `_event`: the id and the agent are filled in on emission. -/
def event (t : TaskId) (e : ExecutionId) (type : AgentEventType) : AgentEvent where
  eventId := 0
  agentId := 0
  taskId := t
  executionId := e
  type := type

/-- `emit`. -/
def emit (cfg : AgentConfig) (ev : AgentEvent) : AgentProg Unit := do
  let id : Nat ← call .uuid
  let ev : AgentEvent := { ev with eventId := id, agentId := cfg.agentId }
  let queued : Bool ← call (.persist ev)
  match ← ask (.xadd ev) with
  | .error err => if queued then return () else throw err
  | .ok _ => if queued then call (.unlinkEvent ev) else return ()

/-- The loop of `replay_outbox`. -/
def replayEntries : List AgentEvent → AgentProg Unit
  | [] => return ()
  | ev :: rest => do
      match ← ask (.xadd ev) with
      | .error _ => return ()
      | .ok _ =>
          call (.unlinkEvent ev)
          replayEntries rest

/-- `replay_outbox`. -/
def replayOutbox (cfg : AgentConfig) : AgentProg Unit := do
  if cfg.eventOutbox then
    let entries : List AgentEvent ← call .outboxEntries
    replayEntries entries
  else return ()

/-! ### The runner of scrapyd jobs -/

/-- `AttemptStatus`. -/
inductive AttemptStatus where
  | pending
  | running
  | finished
  | failed
  | canceled
  | unknown
  deriving DecidableEq, Repr

/-- `_STATUS_TO_TERMINAL`. -/
def AttemptStatus.terminal : AttemptStatus → Option AgentEventType
  | finished => some .finished
  | failed => some .failed
  | canceled => some .canceled
  | pending | running | unknown => none

/-- `_in_list`. -/
def inList (jobs : List JobId) : Option JobId → Bool
  | some job => decide (job ∈ jobs)
  | none => false

/-- `_resolve_status`. -/
def resolveStatus (s : AttemptState) : AgentProg AttemptStatus := do
  let departed := if s.canceled then AttemptStatus.canceled else .finished
  match ← ask (.listjobs s.project s.scrapydJobId) with
  | .error (.scrapyd _) => return .unknown
  | .error err => throw err
  | .ok (jobs : JobLists) =>
      if inList jobs.running s.scrapydJobId then return .running
      else if inList jobs.pending s.scrapydJobId then return .running
      else if inList jobs.finished s.scrapydJobId then return departed
      else
        -- rotated out of the list, or never known
        let ran : Bool ← call (.logExists s.logPath)
        if ran then return departed else return .unknown

/-- `status`. -/
def runnerStatus (e : ExecutionId) : AgentProg AttemptStatus := do
  let read : Option AttemptState ← call (.read e)
  match read with
  | none => return .unknown
  | some s => resolveStatus s

/-- `is_job_alive`; `none` when scrapyd cannot be reached. -/
def isJobAlive (e : ExecutionId) : AgentProg (Option Bool) := do
  let read : Option AttemptState ← call (.read e)
  match read with
  | none => return none
  | some s =>
      match ← ask (.listjobs s.project s.scrapydJobId) with
      | .error (.scrapyd _) => return none
      | .error err => throw err
      | .ok (jobs : JobLists) =>
          return some (inList jobs.running s.scrapydJobId || inList jobs.pending s.scrapydJobId)

/-- The `reason` of a stop response. -/
inductive StopReason where
  | noState
  | cancelFailed
  deriving DecidableEq, Repr

/-- `AgentStopResponse`. -/
structure StopResponse where
  status : AttemptStatus
  stopped : Bool
  reason : Option StopReason := none

/-- `stop`. -/
def runnerStop (e : ExecutionId) (kill : Bool) (sender : SignalSender) :
    AgentProg StopResponse := do
  let read : Option AttemptState ← call (.read e)
  match read with
  | none => return { status := .unknown, stopped := false, reason := some .noState }
  | some s =>
      match ← ask (.cancel e s.project s.scrapydJobId kill sender) with
      | .error (.scrapyd _) =>
          let status ← resolveStatus s
          return { status := status, stopped := false, reason := some .cancelFailed }
      | .error err => throw err
      | .ok (stopped : Bool) =>
          if stopped then
            let _ : Option AttemptState ← call (.mark e .canceled)
            return { status := .canceled, stopped := true }
          else
            let status ← resolveStatus s
            return { status := status, stopped := false }

/-- `schedule`. -/
def runnerSchedule (e : ExecutionId) (project spider : String) (version : Option String)
    (settings args : List (String × String)) : AgentProg JobId := do
  match ← ask (.schedule e project spider version settings args) with
  | .error (.scrapyd detail) =>
      throw (.runner ([("project", project), ("spider", spider)] ++ detail))
  | .error err => throw err
  | .ok (job : JobId) => return job

/-- `republish_current`. -/
def republishCurrent (cfg : AgentConfig) (t : TaskId) (e : ExecutionId) : AgentProg Unit := do
  let read : Option AttemptState ← call (.read e)
  match read with
  | none => emit cfg { event t e .lost with lostReason := some .stateMissing }
  | some s =>
      if s.phase = .reserved then
        emit cfg { event t e .failed with
          errorCode := some "spawn_aborted"
          lostReason := some .spawnAborted }
      else if s.phase = .started ∧ s.stopRequestedAt.isSome then
        -- the stop in flight owns the terminal
        return ()
      else
        match s.phase, s.result with
        | .done, some result =>
            emit cfg { event t e result.eventType with
              exitCode := s.exitCode
              errorCode := s.errorCode
              lostReason := s.lostReason
              errorCount := s.errorCount
              finishReason := s.finishReason
              logBytes := s.logBytes
              outcomeClass := s.outcomeClass }
        | _, _ =>
            if s.runnerType = .pythonWheel then emit cfg (event t e .running)
            else
              let status ← runnerStatus e
              match status.terminal with
              | some terminal => emit cfg (event t e terminal)
              | none => emit cfg { event t e .running with remoteJobId := s.scrapydJobId }

/-! ### The artifact caches -/

/-- The download of an egg that is not there. -/
def fetchEgg (hash : String) : AgentProg Unit := do
  let _ ← call (.cache hash .unlinkTmp)
  match ← ask (.cache hash .fetch) with
  | .error .http => throw (.artifactCache [("hash", hash)])
  | .error err => throw err
  | .ok _ =>
      let _ ← call (.cache hash .writeTmp)
      let good : Bool ← call (.cache hash .digestMatches)
      if good then
        let _ ← call (.cache hash .replace)
        return ()
      else
        let _ ← call (.cache hash .unlinkTmp)
        throw (.artifactCache [("hash", hash)])

/-- Deploy the egg that is there. -/
def deployEgg (hash : String) : AgentProg Unit := do
  let _ ← call (.cache hash .readBytes)
  match ← ask (.cache hash .addversion) with
  | .error (.scrapyd detail) => throw (.artifactCache (("hash", hash) :: detail))
  | .error err => throw err
  | .ok _ => return ()

/-- `_fetch_verify_deploy`. -/
def fetchVerifyDeploy (hash : String) : AgentProg Unit := do
  let cached : Bool ← call (.cache hash .isCached)
  if cached then deployEgg hash
  else
    fetchEgg hash
    deployEgg hash

/-- `_pip_install`. -/
def pipInstall (hash : String) : AgentProg Unit := do
  match ← ask (.cache hash .launchPip) with
  | .error .os => throw (.wheelCache [("hash", hash)])
  | .error err => throw err
  | .ok _ =>
      match ← ask (.cache hash .waitPip) with
      | .error .timeout =>
          let _ ← call (.cache hash .killPip)
          throw (.wheelCache [("hash", hash)])
      | .error err => throw err
      | .ok _ =>
          let good : Bool ← call (.cache hash .pipSucceeded)
          if good then return () else throw (.wheelCache [("hash", hash)])

/-- The download of a wheel that is not there. -/
def fetchWheel (hash : String) : AgentProg Unit := do
  let _ ← call (.cache hash .unlinkTmp)
  match ← ask (.cache hash .fetch) with
  | .error .http => throw (.wheelCache [("hash", hash)])
  | .error err => throw err
  | .ok _ =>
      let good : Bool ← call (.cache hash .digestMatches)
      if good then
        let _ ← call (.cache hash .writeTmp)
        let _ ← call (.cache hash .replace)
        return ()
      else throw (.wheelCache [("hash", hash)])

/-- Install the wheel that is there. -/
def installWheel (hash : String) : AgentProg Unit := do
  let _ ← call (.cache hash .mkdirSite)
  pipInstall hash

/-- `_fetch_verify_install`. -/
def fetchVerifyInstall (hash : String) : AgentProg Unit := do
  let cached : Bool ← call (.cache hash .isCached)
  if cached then installWheel hash
  else
    fetchWheel hash
    installWheel hash

/-- The `while True` loop of `ensure`: at most `polls` looks at the lock. -/
def awaitArtifact (hash : String) (obtain_ : AgentProg Unit) (timedOut : AgentError) :
    (polls : Nat) → AgentProg Unit
  | 0 => throw timedOut
  | polls + 1 => do
      let ready : Bool ← call (.cache hash .isReady)
      if ready then return ()
      else
        let locked : Bool ← call (.cache hash .tryLock)
        if locked then
          Prog.tryFinally
            (do
              obtain_
              let _ ← call (.cache hash .writeReady)
              return ())
            (do
              let _ ← call (.cache hash .closeLock)
              let _ ← call (.cache hash .unlinkLock)
              return ())
        else
          let late : Bool ← call (.cache hash .timedOut)
          if late then throw timedOut
          else
            let _ ← call (.cache hash .sleep)
            awaitArtifact hash obtain_ timedOut polls

/-- What both `ensure` do once they know the digest. -/
def ensureArtifact (cfg : AgentConfig) (hash : String) (obtain_ : AgentProg Unit)
    (timedOut : AgentError) : AgentProg Unit := do
  let _ ← call (.cache hash .mkdir)
  let ready : Bool ← call (.cache hash .isReady)
  if ready then
    match ← ask (.cache hash .touchReady) with
    | .error .os => return ()
    | .error err => throw err
    | .ok _ => return ()
  else awaitArtifact hash obtain_ timedOut cfg.cachePolls

/-- `ScrapyArtifactCache.ensure`. -/
def ensureEgg (cfg : AgentConfig) (artifact : ArtifactRef) : AgentProg Unit :=
  match artifact.hash with
  | none => throw (.artifactCache [])
  | some hash =>
      if artifact.project = "" ∨ artifact.version = none then
        throw (.artifactCache [("hash", hash)])
      else
        ensureArtifact cfg hash (fetchVerifyDeploy hash) (.artifactCache [("hash", hash)])

/-- `PythonWheelCache.ensure`: the directory the wheel is installed in. -/
def ensureWheel (cfg : AgentConfig) (artifact : ArtifactRef) : AgentProg String := do
  match artifact.hash with
  | none => throw (.wheelCache [])
  | some hash =>
      ensureArtifact cfg hash (fetchVerifyInstall hash) (.wheelCache [("hash", hash)])
      return (hash ++ "/site")

end Dopilot
