/-
Dopilot/AgentRules.lean

What the processes of the agent do with their operations, and what they may
count on while the others move.

An execution of a scrapy task belongs to the consumer.  One of a wheel belongs
to whoever holds its lock, and to the consumer as long as the loop is not
entered; `Holds` says so, and no execution is held by two.  `May` lists for
every operation what is true whenever a process comes to it: which marks a state
file can receive, which terminals can be emitted, which signals sent.  Every
property of the agent's runs is read off `May`; that its programs keep to it is
shown once, in `AgentPrograms`.
-/
import Dopilot.AgentCommands

namespace Dopilot

namespace Agent

/-- Conditions on runs of the agent. -/
abbrev Cond : Type := Sys.Cond Proc AgentOp (fun _ => AgentAnswer) AgentWorld AgentMove Launch

/-! ### Who has an execution to himself -/

/-- The executions that only the process changes. -/
def Holds (kind : ExecutionId → RunnerType) (w : AgentWorld) : Owner → ExecutionId → Prop
  | .consumer, e => kind e = .scrapy ∨ w.locks e = some .consumer ∨ w.running = false
  | .waiter n, e => kind e = .pythonWheel ∧ w.locks e = some (.waiter n) ∧ w.running = true

section Holding

variable {kind : ExecutionId → RunnerType} {w : AgentWorld} {e : ExecutionId}

theorem not_holds_waiter (h : Holds kind w .consumer e) (n : Nat) :
    ¬ Holds kind w (.waiter n) e := by
  rintro ⟨hkind, hlock, hrunning⟩
  rcases h with h | h | h
  · rw [hkind] at h
    cases h
  · rw [hlock] at h
    cases h
  · rw [hrunning] at h
    cases h

/-- No execution is held by two processes. -/
theorem Holds.unique {i j : Owner} (hi : Holds kind w i e) (hj : Holds kind w j e) : i = j := by
  cases i with
  | consumer =>
      cases j with
      | consumer => rfl
      | waiter n => exact (not_holds_waiter hi n hj).elim
  | waiter m =>
      cases j with
      | consumer => exact (not_holds_waiter hj m hi).elim
      | waiter n => exact Option.some.inj (hi.2.1.symm.trans hj.2.1)

end Holding

/-! ### State files -/

/-- Nothing is recorded yet but the run itself. -/
structure Blank (s : AttemptState) : Prop where
  result : s.result = none
  lostReason : s.lostReason = none
  errorCode : s.errorCode = none
  exitCode : s.exitCode = none
  killPending : s.killPending = false
  terminalPending : s.terminalPending = false

/-- No statistics are recorded. -/
structure Unmeasured (s : AttemptState) : Prop where
  errorCount : s.errorCount = none
  finishReason : s.finishReason = none
  logBytes : s.logBytes = none
  outcomeClass : s.outcomeClass = none

/-- Neither stop nor cleanup was ever asked for. -/
structure Unstopped (s : AttemptState) : Prop where
  stopIntent : s.stopIntent = none
  stopRequestedAt : s.stopRequestedAt = none
  cleanupPending : s.cleanupPending = false

/-- The state files the agent writes. -/
structure Sound (kind : RunnerType) (e : ExecutionId) (s : AttemptState) : Prop where
  executionId : s.executionId = e
  runnerType : s.runnerType = kind
  blank : s.phase ≠ .done → Blank s
  reserved : s.phase = .reserved →
    Unmeasured s ∧ Unstopped s ∧ s.stopEscalation = none ∧ s.scrapydJobId = none ∧
      s.logFlood = false
  started : s.phase = .started → kind = .scrapy → s.scrapydJobId.isSome = true
  result : s.phase = .done → s.result.isSome = true
  cleanup : s.cleanupPending = true → s.phase = .done ∨ s.stopRequestedAt.isSome = true
  intent : s.stopIntent.isSome = s.stopRequestedAt.isSome
  wheel : kind = .pythonWheel → Unstopped s ∧ s.killPending = false ∧ s.terminalPending = false
  unmeasured : kind = .pythonWheel → Unmeasured s

/-! ### What the history says -/

/-- An event of this type was emitted for the execution, not among the first `n`. -/
def EmittedSince (n : Nat) (w : AgentWorld) (e : ExecutionId) (type : AgentEventType) : Prop :=
  ∃ ev ∈ w.emitted.drop n, ev.executionId = e ∧ ev.type = type

/-- A command is in hand. -/
def Handling (w : AgentWorld) (e : ExecutionId) (type : AgentCommandType) : Prop :=
  ∃ cmd, w.handling = some cmd ∧ cmd.executionId = e ∧ cmd.type = type

/-- A stop is in hand. -/
def Stopping (w : AgentWorld) (e : ExecutionId) (intent : StopIntent) : Prop :=
  ∃ cmd, w.handling = some cmd ∧ cmd.executionId = e ∧ cmd.type = .stop ∧
    (intent = .cancel ↔ cmd.intent = some .cancel)

/-- A stop of a started attempt is in flight. -/
def InFlight (w : AgentWorld) (e : ExecutionId) (intent : StopIntent) : Prop :=
  ∃ s, w.store.read e = some s ∧ s.phase = .started ∧ s.stopRequestedAt.isSome = true ∧
    s.stopIntent = some intent

/-- The passes over the attempts will still report it canceled. -/
def Owed (kind : ExecutionId → RunnerType) (w : AgentWorld) (e : ExecutionId) : Prop :=
  kind e = .scrapy ∧ (InFlight w e .cancel ∨ ∃ s, w.store.read e = some s ∧ s.phase = .done ∧
    s.result = some .canceled ∧ s.terminalPending = true)

/-- An exception that the passes and the stop handlers are made for, or never
come to see. -/
def tolerable (cfg : AgentConfig) (x : Raised) : Bool :=
  match x.op, x.error with
  | .listjobs .., .scrapyd _ => true
  | .cancel .., .scrapyd _ => true
  | .xadd _, _ => cfg.eventOutbox
  | .delete _, .os => true
  | .unlinkLog _, .os => true
  -- operations of other handlers
  | .createReserved _, _ | .validate _, _ | .cache .., _ | .schedule .., _ | .wheelStart .., _
  | .setup, _ => true
  | _, _ => false

/-- Something was raised that they are not made for, not among the first `n`. -/
def Disturbed (cfg : AgentConfig) (n : Nat) (w : AgentWorld) : Prop :=
  ∃ x ∈ w.raised.drop n, tolerable cfg x = false

/-- The status of the attempt was resolved to a terminal, by answers given while
the same command was in hand as now. -/
def Resolved (K : Cond) (w : AgentWorld) (s : AttemptState) : Prop :=
  ∃ x w₀, K.op (.listjobs s.project s.scrapydJobId) x w₀ ∧ w₀.handling = w.handling ∧
    x.error = none ∧ inList x.jobs.running s.scrapydJobId = false ∧
    inList x.jobs.pending s.scrapydJobId = false ∧
    (inList x.jobs.finished s.scrapydJobId = true ∨
      ∃ x' w₁, K.op (.logExists s.logPath) x' w₁ ∧ w₁.handling = w.handling ∧ x'.error = none ∧
        x'.flag = true)

/-! ### Marks -/

/-- The marks a process puts on a state file, and what is true when it does. -/
inductive MayMark (cfg : AgentConfig) (kind : ExecutionId → RunnerType) (K : Cond) (i : Owner)
    (w : AgentWorld) (e : ExecutionId) (s : AttemptState) : Mark → Prop
  | promoteStarted (job : JobId) (logPath : String) (hkind : kind e = .scrapy)
      (hphase : s.phase = .reserved) (hres : w.reserving = some e)
      (hjob : job < w.nextJob ∧ ∃ j, w.jobs.get job = some j ∧ j.executionId = e)
      (hsignals : ∀ g ∈ w.signals, g.job ≠ some job) :
      MayMark cfg kind K i w e s (.promoteStarted job logPath)
  | promoteStartedWheel (pgid : Nat) (workspacePath logPath : String)
      (hkind : kind e = .pythonWheel) (hrunner : cfg.wheelRunner = true)
      (hphase : s.phase = .reserved) (hres : w.reserving = some e) :
      MayMark cfg kind K i w e s (.promoteStartedWheel pgid workspacePath logPath)
  /-- The run failed. -/
  | failed (errorCode : String) (lostReason : Option LostReason) (hphase : s.phase = .reserved)
      (hres : w.reserving = some e) :
      MayMark cfg kind K i w e s (.done .failed lostReason (some errorCode) none none none)
  /-- A reserved attempt that a restart found. -/
  | aborted (hphase : s.phase = .reserved) (hres : w.reserving = none)
      (hreported : w.reported e .failed = true) :
      MayMark cfg kind K i w e s
        (.done .failed (some .spawnAborted) (some "spawn_aborted") none none none)
  /-- A started wheel that a restart found. -/
  | orphaned (hkind : kind e = .pythonWheel) (hphase : s.phase = .started)
      (hrunning : w.running = false) :
      MayMark cfg kind K i w e s (.done .lost (some .runnerRecoveredUnknown) none none none none)
  | stats (errorCount : Option Nat) (finishReason : Option String) (logBytes : Option Nat)
      (outcomeClass : Option String) (hkind : kind e = .scrapy) (hphase : s.phase = .started)
      (hstop : s.stopRequestedAt = none) :
      MayMark cfg kind K i w e s (.stats errorCount finishReason logBytes outcomeClass)
  /-- The job ended. -/
  | finished (terminal : AgentEventType) (hkind : kind e = .scrapy) (hphase : s.phase = .started)
      (hstop : s.stopRequestedAt = none)
      (hgone : ∃ job, s.scrapydJobId = some job ∧ job ∈ w.seenGone) :
      MayMark cfg kind K i w e s (.done (finishedResult s terminal) none
        (if s.logFlood then some "log_flood" else none) none none none)
  /-- The child ended. -/
  | waited (child : Nat) (c : Child) (result : AttemptResult) (exitCode : Option Int)
      (hi : i = .waiter child) (hkind : kind e = .pythonWheel) (hphase : s.phase ≠ .done)
      (hchild : w.children.get child = some c) (hown : c.executionId = e)
      (hexited : c.exited.isSome = true) (hresult : result ≠ .lost) :
      MayMark cfg kind K i w e s (.done result none none exitCode none none)
  | stopRequested (intent : StopIntent) (t : Time) (hkind : kind e = .scrapy)
      (hphase : s.phase = .started) (hstop : s.stopRequestedAt = none) (hnow : t ≤ w.now)
      (hcmd : Stopping w e intent) :
      MayMark cfg kind K i w e s (.stopRequested intent t)
  | stopEscalation (escalation : Escalation) (hphase : s.phase ≠ .reserved)
      (hsent : escalation = .term → ∃ g ∈ w.signals, g.executionId = e ∧ g.kill = false ∧
        g.acked = true ∧ g.requestedAt = s.stopRequestedAt) :
      MayMark cfg kind K i w e s (.stopEscalation escalation)
  /-- A reclaim is over. -/
  | reclaimed (confirmed : Bool) (hkind : kind e = .scrapy) (hphase : s.phase = .started)
      (hstop : s.stopRequestedAt.isSome = true) (hintent : s.stopIntent = some .reclaim) :
      MayMark cfg kind K i w e s (.done .lost none none none (some !confirmed) (some false))
  /-- A cancel is over. -/
  | canceledStop (confirmed : Bool) (hkind : kind e = .scrapy) (hphase : s.phase = .started)
      (hstop : s.stopRequestedAt.isSome = true) (hintent : s.stopIntent = some .cancel) :
      MayMark cfg kind K i w e s (.done .canceled none none none (some !confirmed) (some true))
  /-- A cancel with nothing to drive. -/
  | canceledNow (hphase : kind e = .pythonWheel ∨ s.phase ≠ .started)
      (hcmd : Stopping w e .cancel) :
      MayMark cfg kind K i w e s (.done .canceled none none none none none)
  | reclaimedWheel (hkind : kind e = .pythonWheel) (hcmd : Stopping w e .reclaim) :
      MayMark cfg kind K i w e s (.done .lost none none none none none)
  | cleanupPending (hwait : cleanupMustWait s = true) (hcmd : Handling w e .cleanupLogs) :
      MayMark cfg kind K i w e s .cleanupPending
  | killAttempt (t : Time) : MayMark cfg kind K i w e s (.killAttempt t)
  | clearKillPending (hphase : s.phase = .done) : MayMark cfg kind K i w e s .clearKillPending
  | clearTerminalPending (result : AttemptResult) (hphase : s.phase = .done)
      (hresult : s.result = some result) (hreported : w.reported e result.eventType = true)
      (hprocessed : ∀ p ∈ w.processed, EmittedSince p.2 w e result.eventType) :
      MayMark cfg kind K i w e s .clearTerminalPending
  | canceled : MayMark cfg kind K i w e s .canceled
  | logFlood (logBytes : Nat) (t : Time) (escalation : Option Escalation)
      (hkind : kind e = .scrapy) (hphase : s.phase = .started) :
      MayMark cfg kind K i w e s (.logFlood logBytes t escalation)
  | logCapped : MayMark cfg kind K i w e s .logCapped

/-! ### Terminals -/

/-- The event says what the state file records. -/
structure Records (s : AttemptState) (ev : AgentEvent) : Prop where
  type : ∃ result, s.result = some result ∧ ev.type = result.eventType
  errorCode : ev.errorCode = s.errorCode
  errorCount : ev.errorCount = s.errorCount
  finishReason : ev.finishReason = s.finishReason
  logBytes : ev.logBytes = s.logBytes
  outcomeClass : ev.outcomeClass = s.outcomeClass

/-- The event reports a run that was not started, and why it was given up. -/
structure Aborts (ev : AgentEvent) : Prop where
  type : ev.type = .failed
  errorCode : ev.errorCode = some "spawn_aborted"
  errorCount : ev.errorCount = none
  finishReason : ev.finishReason = none
  logBytes : ev.logBytes = none
  outcomeClass : ev.outcomeClass = none

/-- The terminals a process emits, by the state file they are emitted for. -/
inductive Reports (kind : ExecutionId → RunnerType) (K : Cond) (w : AgentWorld)
    (ev : AgentEvent) : Option AttemptState → Prop
  | missing (htype : ev.type = .lost) : Reports kind K w ev none
  | canceled (s : Option AttemptState) (htype : ev.type = .canceled)
      (hcmd : Stopping w ev.executionId .cancel)
      (hdone : ∀ s', s = some s' → s'.phase = .done ∧ s'.result = some .canceled) :
      Reports kind K w ev s
  | aborted (s : AttemptState) (hphase : s.phase = .reserved)
      (hres : w.reserving ≠ some ev.executionId) (hev : Aborts ev) : Reports kind K w ev (some s)
  | recorded (s : AttemptState) (hphase : s.phase = .done) (hev : Records s ev) :
      Reports kind K w ev (some s)
  /-- A cancel is over. -/
  | stopped (s : AttemptState) (hphase : s.phase = .done) (hresult : s.result = some .canceled)
      (hintent : s.stopIntent = some .cancel) (htype : ev.type = .canceled) :
      Reports kind K w ev (some s)
  /-- The answer to a run whose job has ended meanwhile. -/
  | observed (s : AttemptState) (hkind : kind ev.executionId = .scrapy)
      (hphase : s.phase = .started) (hstop : s.stopRequestedAt = none)
      (hcmd : Handling w ev.executionId .run)
      (hgone : ∃ job, s.scrapydJobId = some job ∧ job ∈ w.seenGone) (hres : Resolved K w s) :
      Reports kind K w ev (some s)

/-- What is true of a terminal that is about to be emitted. -/
def MayEmit (kind : ExecutionId → RunnerType) (K : Cond) (i : Owner) (w : AgentWorld)
    (ev : AgentEvent) : Prop :=
  ev.type.isTerminal = true →
    Holds kind w i ev.executionId ∧ Reports kind K w ev (w.store.read ev.executionId)

/-! ### Operations -/

/-- A cancel that was handled is answered, or will be. -/
def Answered (cfg : AgentConfig) (kind : ExecutionId → RunnerType) (w : AgentWorld)
    (cmd : AgentCommand) : Prop :=
  cmd.type = .stop → cmd.intent = some .cancel →
    EmittedSince w.begun w cmd.executionId .canceled ∨ Owed kind w cmd.executionId ∨
      InFlight w cmd.executionId .reclaim ∨ Disturbed cfg 0 w

/-- What is true whenever process `i` comes to an operation. -/
def May (cfg : AgentConfig) (kind : ExecutionId → RunnerType) (K : Cond) (i : Owner)
    (w : AgentWorld) : AgentOp → Prop
  | .createReserved s =>
      i = .consumer ∧ Holds kind w i s.executionId ∧ Handling w s.executionId .run ∧
        Sound (kind s.executionId) s.executionId { s with phase := .reserved }
  | .mark e m => Holds kind w i e ∧ ∀ s, w.store.read e = some s → MayMark cfg kind K i w e s m
  | .delete e =>
      Holds kind w i e ∧
        ∀ s, w.store.read e = some s → cleanupMustWait s = false ∧
          (s.cleanupPending = true ∨ Handling w e .cleanupLogs)
  | .persist ev => MayEmit kind K i w ev
  | .xadd ev => cfg.eventOutbox = true ∨ MayEmit kind K i w ev
  | .unlinkEvent ev => ev ∈ w.stream
  | .cancel e _ job kill sender =>
      i = .consumer ∧ Holds kind w i e ∧ ∃ s, w.store.read e = some s ∧ job = s.scrapydJobId ∧
        (sender = .stopWatchdog → kill = true → s.stopEscalation = some .term ∧
          ∃ t, s.stopRequestedAt = some t ∧ t + cfg.stopKillAfter ≤ w.now)
  | .wheelTerminate e => ∃ intent, Stopping w e intent
  | .spawnWait _ e => kind e = .pythonWheel ∧ w.running = true
  | .begin _ => i = .consumer ∧ w.running = true
  | .finish cmd =>
      i = .consumer ∧ w.locks cmd.executionId = some .consumer ∧ w.handling = some cmd ∧
        Answered cfg kind w cmd
  | .lockWait n e => i = .waiter n ∧ kind e = .pythonWheel ∧ w.running = true
  | .unlockWait e => ∃ n, i = .waiter n ∧ w.locks e = some (.waiter n) ∧ kind e = .pythonWheel
  | .schedule .. | .wheelStart .. | .enterLoop => i = .consumer
  | _ => True

end Agent

end Dopilot
