/-
Dopilot/AgentStarts.lean

A run is started at most once.

The consumer asks scrapyd for a job, or the wheel runner for a child, only in
the handler that has just created the execution's state file, and only once
there.  The file is created exclusively, so it is created again only after it
was removed, and nothing but a cleanup removes it.  A file whose write failed
counts: it does not parse, but it is there.

What a program of the consumer may do with the execution is told by a monitor.
Its state says whether the handler holds a fresh reservation, or has seen that
the attempt waits for its cleanup.
-/
import Dopilot.AgentSystem
import Dopilot.Monitor
import Dopilot.RunsEnd

namespace Dopilot

namespace Agent

open AgentOp (call ask)
open RunsEnd (Republishes emit_republishes resolveStatus_republishes republishCurrent_republishes)

/-! ### What is watched -/

/-- The operation starts the execution. -/
def startsRun (e : ExecutionId) : AgentOp → Bool
  | .schedule e' .. | .wheelStart e' .. => e' = e
  | _ => false

/-- How often an operation starts the execution. -/
def startCount (e : ExecutionId) (op : AgentOp) : Nat := if startsRun e op then 1 else 0

/-- Where a program of the consumer stands with the execution. -/
structure Standing where
  /-- It has created the state file, and has not started the execution since. -/
  reserved : Bool := false
  /-- It has read that a cleanup is pending. -/
  doomed : Bool := false
  deriving DecidableEq, Repr

/-- What the consumer does with the execution. -/
def consumerMonitor (e : ExecutionId) : Monitor AgentOp AgentOp.Res AgentError Standing where
  init := {}
  next σ op r :=
    match op, r with
    | .createReserved s, r =>
        if s.executionId ≠ e then some σ
        else if s.cleanupPending then none
        else
          match r with
          | .ok true => some { reserved := true }
          | _ => some {}
    | .schedule e' .., _ | .wheelStart e' .., _ =>
        if e' ≠ e then some σ else if σ.reserved then some {} else none
    | .delete e', _ => if e' = e ∧ σ.doomed = false then none else some σ
    | .mark e' .cleanupPending, _ => if e' = e then none else some σ
    | .read e', .ok (some s) =>
        if e' = e ∧ s.cleanupPending = true then some { σ with doomed := true } else some σ
    | _, _ => some σ

/-- The operations that neither create, start nor remove an execution. -/
def Harmless : AgentOp → Prop
  | .createReserved _ | .schedule .. | .wheelStart .. | .delete _ | .mark _ .cleanupPending => False
  | _ => True

/-- A waiter does nothing of the kind. -/
def waiterMonitor : Monitor AgentOp AgentOp.Res AgentError Standing where
  init := {}
  next σ op _ :=
    match op with
    | .createReserved _ | .schedule .. | .wheelStart .. | .delete _ | .mark _ .cleanupPending =>
        none
    | _ => some σ

/-- The monitors of the processes. -/
def monitorOf (e : ExecutionId) : Proc → Monitor AgentOp AgentOp.Res AgentError Standing
  | .consumer => consumerMonitor e
  | .waiter _ => waiterMonitor

/-! ### Harmless programs -/

section Harmless

variable {cfg : AgentConfig} {α β : Type}

/-- A harmless operation, and what follows it. -/
theorem harmless_step {op : AgentOp} {f : op.Res → AgentProg β} (hop : Harmless op)
    (hf : ∀ a, (f a).Only Harmless) : (call op >>= f).Only Harmless :=
  Prog.Only.bind (Prog.only_call.mpr hop) hf

theorem harmless_of_republishes {op : AgentOp} (h : Republishes op) : Harmless op := by
  cases op with
  | read e | uuid | persist ev | xadd ev | unlinkEvent ev | listjobs project job
    | logExists path => trivial
  | _ => exact h.elim

theorem harmless_of_cacheOp {op : AgentOp} (h : CacheOp op) : Harmless op := by
  obtain ⟨hash, step, rfl⟩ := h
  trivial

theorem harmless_emit (ev : AgentEvent) : (emit cfg ev).Only Harmless :=
  (emit_republishes ev).mono fun _ => harmless_of_republishes

theorem harmless_resolveStatus (s : AttemptState) : (resolveStatus s).Only Harmless :=
  (resolveStatus_republishes s).mono fun _ => harmless_of_republishes

theorem harmless_republishCurrent (t : TaskId) (e : ExecutionId) :
    (republishCurrent cfg t e).Only Harmless :=
  (republishCurrent_republishes t e).mono fun _ => harmless_of_republishes

theorem harmless_runnerStatus (e : ExecutionId) : (runnerStatus e).Only Harmless := by
  refine harmless_step trivial fun read => ?_
  cases read with
  | none => trivial
  | some s => exact harmless_resolveStatus s

theorem harmless_isJobAlive (e : ExecutionId) : (isJobAlive e).Only Harmless := by
  refine harmless_step trivial fun read => ?_
  cases read with
  | none => trivial
  | some s =>
      refine ⟨trivial, fun r => ?_⟩
      cases r with
      | ok jobs => trivial
      | error err => cases err <;> trivial

theorem harmless_runnerStop (e : ExecutionId) (kill : Bool) (sender : SignalSender) :
    (runnerStop e kill sender).Only Harmless := by
  refine harmless_step trivial fun read => ?_
  cases read with
  | none => trivial
  | some s =>
      refine ⟨trivial, fun r => ?_⟩
      cases r with
      | ok stopped =>
          cases stopped with
          | true => exact harmless_step trivial fun _ => trivial
          | false => exact (harmless_resolveStatus s).bind fun _ => trivial
      | error err =>
          cases err with
          | scrapyd detail => exact (harmless_resolveStatus s).bind fun _ => trivial
          | artifactCache _ | wheelCache _ | runner _ | wheelRunner _ _ | http | timeout | redis
            | os | other => trivial

theorem harmless_sendStopSignal (e : ExecutionId) (kill : Bool) (escalation : Escalation)
    (sender : SignalSender) : (sendStopSignal e kill escalation sender).Only Harmless := by
  refine (harmless_runnerStop e kill sender).attempt.bind fun r => ?_
  cases r with
  | error err => trivial
  | ok resp =>
      show Prog.Only _ (if _ then _ else _)
      split
      · trivial
      · exact harmless_step trivial fun _ => trivial

theorem harmless_beginStop (s : AttemptState) (intent : StopIntent) :
    (beginStop s intent).Only Harmless := by
  unfold beginStop
  split
  · trivial
  · refine harmless_step trivial fun now => harmless_step trivial fun _ => ?_
    exact (harmless_sendStopSignal _ _ _ _).bind fun _ => trivial

theorem harmless_reportStop (s : AttemptState) (confirmed : Bool) :
    (reportStop cfg s confirmed).Only Harmless := by
  unfold reportStop
  split
  · exact harmless_step trivial fun _ => trivial
  · exact harmless_step trivial fun _ => (harmless_emit _).bind fun _ =>
      harmless_step trivial fun _ => trivial

/-! #### Log floods -/

theorem harmless_truncateLocalLog (s : AttemptState) :
    (truncateLocalLog cfg s).Only Harmless := by
  unfold truncateLocalLog
  split
  · trivial
  · exact Prog.only_call.mpr trivial

theorem harmless_floodCancel (s : AttemptState) (kill : Bool) :
    (floodCancel s kill).Only Harmless :=
  (harmless_runnerStop _ _ _).attempt.bind fun _ => trivial

theorem harmless_markLogFlood (s : AttemptState) (size : Nat) (escalation : Option Escalation) :
    (markLogFlood s size escalation).Only Harmless :=
  harmless_step trivial fun _ => harmless_step trivial fun _ => trivial

theorem harmless_floodPidKill (s : AttemptState) : (floodPidKill s).Only Harmless := by
  unfold floodPidKill
  split
  · trivial
  · exact Prog.only_call.mpr trivial

theorem harmless_floodKillLevel (s : AttemptState) (size : Nat) :
    (floodKillLevel s size).Only Harmless := by
  unfold floodKillLevel
  split
  · trivial
  · exact harmless_markLogFlood s size _

theorem harmless_floodEscalate (s : AttemptState) (size : Nat) :
    (floodEscalate cfg s size).Only Harmless := by
  refine harmless_step trivial fun now => ?_
  show Prog.Only _ (if _ then _ else if _ then _ else _)
  split
  · refine (harmless_floodPidKill s).bind fun killed => ?_
    cases killed with
    | true => exact harmless_markLogFlood s size _
    | false => exact (harmless_floodCancel s true).bind fun _ => trivial
  split
  · exact (harmless_floodKillLevel s size).bind fun s =>
      (harmless_floodCancel s true).bind fun _ => trivial
  · exact (harmless_floodCancel s false).bind fun _ => trivial

theorem harmless_floodSize (s : AttemptState) (size : Nat) :
    (floodSize s size).Only Harmless := by
  unfold floodSize
  split
  · exact harmless_markLogFlood s size _
  · trivial

theorem harmless_floodWatchdog (s : AttemptState) (size : Option Nat) :
    (floodWatchdog cfg s size).Only Harmless := by
  cases size with
  | none => trivial
  | some size =>
      show Prog.Only _ (if _ then _ else if _ then (if _ then _ else _) else _)
      split
      · trivial
      split
      · split
        · trivial
        · exact (harmless_markLogFlood s size _).bind fun s =>
            (harmless_truncateLocalLog s).bind fun _ =>
              (harmless_floodCancel s false).bind fun _ => trivial
      · exact (harmless_truncateLocalLog s).bind fun _ =>
          (harmless_floodSize s size).bind fun s => harmless_floodEscalate s size

/-! #### The end of a job -/

theorem harmless_sampleLogSize (s : AttemptState) : (sampleLogSize s).Only Harmless := by
  unfold sampleLogSize
  split
  · trivial
  · exact Prog.only_call.mpr trivial

theorem harmless_truncateFlooded (s : AttemptState) : (truncateFlooded cfg s).Only Harmless := by
  unfold truncateFlooded
  split
  · exact harmless_truncateLocalLog s
  · trivial

theorem harmless_finishScrapyAttempt (s : AttemptState) (terminal : AgentEventType) :
    (finishScrapyAttempt cfg s terminal).Only Harmless :=
  harmless_step trivial fun _ => harmless_step trivial fun _ => harmless_step trivial fun _ =>
    (harmless_truncateFlooded s).bind fun _ => harmless_step trivial fun _ => harmless_emit _

/-! #### Commands -/

theorem harmless_failRun (cmd : AgentCommand) (errorCode : String) (detail : Detail)
    (lostReason : Option LostReason) :
    (failRun cfg cmd errorCode detail lostReason).Only Harmless :=
  harmless_step trivial fun _ => harmless_emit _

theorem harmless_cancelNow (cmd : AgentCommand) : (cancelNow cfg cmd).Only Harmless :=
  harmless_step trivial fun _ => harmless_emit _

theorem harmless_handleCancel (cmd : AgentCommand) : (handleCancel cfg cmd).Only Harmless := by
  refine harmless_step trivial fun state => ?_
  show Prog.Only _ (if _ then _ else _)
  split
  · exact harmless_step trivial fun _ => harmless_cancelNow cmd
  have hstop : ((runnerStop cmd.executionId false .command).bind fun _ =>
      cancelNow cfg cmd).Only Harmless :=
    (harmless_runnerStop _ _ _).bind fun _ => harmless_cancelNow cmd
  cases state with
  | none => exact hstop
  | some s =>
      show Prog.Only _ (if _ then _ else _)
      split
      · exact hstop
      · exact harmless_beginStop s _

theorem harmless_handleReclaim (cmd : AgentCommand) : (handleReclaim cfg cmd).Only Harmless := by
  refine harmless_step trivial fun state => ?_
  cases state with
  | none => trivial
  | some s =>
      show Prog.Only _ (if _ then _ else if _ then (if _ then _ else _) else if _ then _ else _)
      split
      · exact harmless_step trivial fun _ => harmless_step trivial fun _ => trivial
      split
      · split
        · exact harmless_republishCurrent _ _
        · trivial
      split
      · trivial
      · refine (harmless_runnerStatus _).bind fun status => ?_
        split
        · exact harmless_finishScrapyAttempt s _
        · exact harmless_beginStop s _

theorem harmless_handleStop (cmd : AgentCommand) : (handleStop cfg cmd).Only Harmless := by
  unfold handleStop
  split
  · exact harmless_handleCancel cmd
  · exact harmless_handleReclaim cmd

theorem harmless_handleStopLogs (cmd : AgentCommand) : (handleStopLogs cmd).Only Harmless :=
  harmless_step trivial fun _ => trivial

/-! #### Waiters, and the recovery -/

theorem harmless_awaitWheel (x : Waiting) : (awaitWheel cfg x).Only Harmless := by
  refine harmless_step trivial fun outcome => harmless_step trivial fun _ => ?_
  refine Prog.Only.tryFinally ?_ (Prog.only_call.mpr trivial)
  refine harmless_step trivial fun read => ?_
  cases read with
  | none => trivial
  | some s =>
      show Prog.Only _ (if _ then _ else _)
      split
      · trivial
      · exact harmless_step trivial fun _ => harmless_emit _

theorem harmless_replayEntries (entries : List AgentEvent) :
    (replayEntries entries).Only Harmless := by
  induction entries with
  | nil => trivial
  | cons ev rest ih =>
      refine ⟨trivial, fun r => ?_⟩
      cases r with
      | error err => trivial
      | ok u => exact harmless_step trivial fun _ => ih

theorem harmless_replayOutbox : (replayOutbox cfg).Only Harmless := by
  unfold replayOutbox
  split
  · exact harmless_step trivial fun entries => harmless_replayEntries entries
  · trivial

theorem harmless_recoverReserved (ids : List ExecutionId) :
    (recoverReserved cfg ids).Only Harmless := by
  induction ids with
  | nil => trivial
  | cons e rest ih =>
      refine harmless_step trivial fun read => ?_
      cases read with
      | none => exact ih
      | some s =>
          show Prog.Only _ (if _ then _ else _)
          split
          · exact (harmless_emit _).bind fun _ => harmless_step trivial fun _ => ih
          · exact ih

theorem harmless_killOrphan (s : AttemptState) : (killOrphan s).Only Harmless := by
  unfold killOrphan
  split
  · exact Prog.only_call.mpr trivial
  · trivial

theorem harmless_recoverWheels (ids : List ExecutionId) :
    (recoverWheels cfg ids).Only Harmless := by
  induction ids with
  | nil => trivial
  | cons e rest ih =>
      refine harmless_step trivial fun read => ?_
      cases read with
      | none => exact ih
      | some s =>
          refine harmless_step trivial fun inproc => ?_
          show Prog.Only _ (if _ then _ else _)
          split
          · exact ih
          · exact (harmless_killOrphan s).bind fun _ => harmless_step trivial fun _ =>
              (harmless_emit _).bind fun _ => ih

theorem harmless_agentBoot : (agentBoot cfg).Only Harmless := by
  have hrecover : (recover cfg).Only Harmless :=
    harmless_step trivial fun _ => harmless_replayOutbox.bind fun _ =>
      harmless_step trivial fun ids => (harmless_recoverReserved ids).bind fun _ =>
        harmless_step trivial fun ids => harmless_recoverWheels ids
  have hcaught : (Prog.tryCatch (recover cfg) fun _ => .ret ()).Only Harmless :=
    hrecover.tryCatch fun _ => trivial
  exact hcaught.bind fun _ => Prog.only_call.mpr trivial

end Harmless

/-! ### What the monitor admits -/

section Watched

variable {cfg : AgentConfig} {e : ExecutionId} {σ : Standing} {α β : Type}

/-- What holds of a standing keeps holding. -/
structure Standing.Grows (σ σ' : Standing) : Prop where
  reserved : σ.reserved = true → σ'.reserved = true
  doomed : σ.doomed = true → σ'.doomed = true

theorem Standing.Grows.refl (σ : Standing) : σ.Grows σ := ⟨id, id⟩

theorem next_of_harmless {op : AgentOp} (hop : Harmless op) (σ : Standing)
    (r : Except AgentError op.Res) :
    ∃ σ', (consumerMonitor e).next σ op r = some σ' ∧ σ.Grows σ' := by
  cases op with
  | createReserved s => exact hop.elim
  | schedule e' project spider version settings args => exact hop.elim
  | wheelStart e' shellCommand installPath workingDir env context => exact hop.elim
  | delete e' => exact hop.elim
  | mark e' m =>
      cases m with
      | cleanupPending => exact hop.elim
      | _ => exact ⟨σ, rfl, .refl σ⟩
  | read e' =>
      rcases r with err | - | s
      · exact ⟨σ, rfl, .refl σ⟩
      · exact ⟨σ, rfl, .refl σ⟩
      · by_cases hdoomed : e' = e ∧ s.cleanupPending = true
        · exact ⟨{ σ with doomed := true }, if_pos hdoomed, id, fun _ => rfl⟩
        · exact ⟨σ, if_neg hdoomed, .refl σ⟩
  | _ => exact ⟨σ, rfl, .refl σ⟩

/-- What is harmless is admitted anywhere, and takes nothing away. -/
theorem watched_harmless {p : AgentProg α} (hp : p.Only Harmless) :
    (consumerMonitor e).Watched p (fun _ σ' => σ.Grows σ') σ := by
  refine Monitor.watched_of_only (I := σ.Grows) hp (.refl σ) fun σ₁ op r h hop => ?_
  obtain ⟨σ₂, hnext, h'⟩ := next_of_harmless hop σ₁ r
  exact ⟨σ₂, hnext, fun hr => h'.reserved (h.reserved hr), fun hd => h'.doomed (h.doomed hd)⟩

/-- The monitor admits what `p` does. -/
abbrev Admits (e : ExecutionId) (p : AgentProg α) (σ : Standing) : Prop :=
  (consumerMonitor e).Watched p (fun _ _ => True) σ

theorem admits_harmless {p : AgentProg α} (hp : p.Only Harmless) : Admits e p σ :=
  (watched_harmless hp).mono fun _ _ _ => trivial

/-- A harmless part, and what follows it. -/
theorem admits_then {p : AgentProg α} {f : α → AgentProg β} (hp : p.Only Harmless)
    (hf : ∀ a σ', σ.Grows σ' → Admits e (f a) σ') : Admits e (p.bind f) σ :=
  (watched_harmless hp).bind hf fun _ _ _ => trivial

/-- A harmless operation, and what follows it. -/
theorem admits_next {op : AgentOp} {f : op.Res → AgentProg β} (hop : Harmless op)
    (hf : ∀ a σ', σ.Grows σ' → Admits e (f a) σ') : Admits e (call op >>= f) σ :=
  admits_then (Prog.only_call.mpr hop) hf

/-- Parts that are admitted anywhere, one after the other. -/
theorem admits_bind {p : AgentProg α} {f : α → AgentProg β} (hp : Admits e p σ)
    (hf : ∀ a σ', Admits e (f a) σ') : Admits e (p.bind f) σ :=
  hp.bind (fun a σ' _ => hf a σ') fun _ _ _ => trivial

/-! #### Cleanups -/

theorem harmless_removeFiles (read : Option AttemptState) :
    (removeFiles read).Only Harmless := by
  cases read with
  | none => trivial
  | some s =>
      refine Prog.Only.bind ?_ fun _ => ?_
      · unfold removeLog
        split
        · trivial
        · exact Prog.only_call.mpr trivial
      · unfold removeWorkspace
        split
        · trivial
        · exact Prog.only_call.mpr trivial

/-- A cleanup is admitted once it is known to be pending. -/
theorem admits_doCleanup {e' : ExecutionId} (h : e' = e → σ.doomed = true) :
    Admits e (doCleanup e') σ := by
  refine admits_next trivial fun read σ₁ h₁ => ?_
  refine admits_then (harmless_removeFiles read) fun _ σ₂ h₂ => ?_
  refine Monitor.watched_step fun r => ⟨σ₂, if_neg ?_, fun _ _ => ?_, fun _ _ => trivial⟩
  · rintro ⟨he, hσ⟩
    rw [h₂.doomed (h₁.doomed (h he))] at hσ
    cases hσ
  · exact admits_harmless (Prog.only_call.mpr trivial)

theorem admits_runDeferredCleanup (e' : ExecutionId) (σ : Standing) :
    Admits e (runDeferredCleanup e') σ := by
  refine Monitor.watched_act.mpr fun r => ?_
  rcases r with err | - | s
  · exact ⟨σ, rfl, Monitor.watched_raise trivial⟩
  · exact ⟨σ, rfl, Monitor.watched_ret trivial⟩
  obtain ⟨σ', hnext, hσ'⟩ : ∃ σ', (consumerMonitor e).next σ (.read e') (.ok (some s)) = some σ' ∧
      (e' = e → s.cleanupPending = true → σ'.doomed = true) := by
    by_cases hdoomed : e' = e ∧ s.cleanupPending = true
    · exact ⟨{ σ with doomed := true }, if_pos hdoomed, fun _ _ => rfl⟩
    · exact ⟨σ, if_neg hdoomed, fun he hp => (hdoomed ⟨he, hp⟩).elim⟩
  refine ⟨σ', hnext, ?_⟩
  show Admits e (if _ then _ else _) σ'
  split
  · exact Monitor.watched_ret trivial
  rename_i hdue
  have hpending : s.cleanupPending = true := by
    cases hc : s.cleanupPending with
    | true => rfl
    | false => exact (hdue (.inl hc)).elim
  have hdo : Admits e (doCleanup e').attempt σ' :=
    Monitor.Watched.attempt (R := fun _ _ => True) (admits_doCleanup fun he => hσ' he hpending)
  refine admits_bind hdo fun r σ'' => ?_
  rcases r with err | u
  · cases err with
    | os => exact Monitor.watched_ret trivial
    | artifactCache _ | wheelCache _ | runner _ | wheelRunner _ _ | scrapyd _ | http | timeout
      | redis | other => exact Monitor.watched_raise trivial
  · exact Monitor.watched_ret trivial

theorem admits_handleCleanup {cmd : AgentCommand} (hne : cmd.executionId ≠ e) (σ : Standing) :
    Admits e (handleCleanup cmd) σ := by
  refine admits_next trivial fun read σ₁ _ => ?_
  show Admits e (if _ then _ else _) σ₁
  split
  · exact Monitor.watched_step fun r =>
      ⟨σ₁, if_neg hne, fun _ _ => Monitor.watched_ret trivial, fun _ _ => trivial⟩
  · exact admits_doCleanup fun he => (hne he).elim

/-! #### The tick -/

theorem admits_finalizeStop (s : AttemptState) (confirmed : Bool) (σ : Standing) :
    Admits e (finalizeStop cfg s confirmed) σ := by
  refine admits_then (harmless_reportStop s confirmed) fun _ σ₁ _ => ?_
  show Admits e (if _ then _ else _) σ₁
  split
  · exact admits_runDeferredCleanup _ σ₁
  · exact Monitor.watched_ret trivial

theorem admits_stopWatchdog (s : AttemptState) (σ : Standing) :
    Admits e (stopWatchdog cfg s) σ := by
  refine admits_next trivial fun now σ₁ _ => ?_
  show Admits e (if _ then _ else _) σ₁
  split
  · exact admits_finalizeStop s false σ₁
  refine admits_then (harmless_isJobAlive _) fun alive σ₂ _ => ?_
  have hsend : ∀ (kill : Bool) (escalation : Escalation), Admits e
      ((sendStopSignal s.executionId kill escalation .stopWatchdog).bind fun _ => return ()) σ₂ :=
    fun kill escalation =>
      admits_harmless ((harmless_sendStopSignal _ _ _ _).bind fun _ => trivial)
  rcases alive with - | - | -
  · exact Monitor.watched_ret trivial
  · exact admits_finalizeStop s true σ₂
  · show Admits e (if _ then _ else if _ then _ else _) σ₂
    split
    · exact hsend false .term
    split
    · exact hsend true .kill
    · exact Monitor.watched_ret trivial

theorem admits_reclaimProcess (s : AttemptState) (σ : Standing) :
    Admits e (reclaimProcess cfg s) σ := by
  unfold reclaimProcess
  split
  · refine admits_then (harmless_isJobAlive _) fun alive σ₁ _ => ?_
    rcases alive with - | - | -
    · exact Monitor.watched_ret trivial
    · exact admits_next trivial fun _ σ₂ _ => admits_runDeferredCleanup _ σ₂
    · refine admits_next trivial fun now σ₂ _ => ?_
      show Admits e (if _ then _ else _) σ₂
      split
      · exact admits_harmless ((harmless_sendStopSignal _ _ _ _).bind fun _ =>
          harmless_step trivial fun _ => harmless_step trivial fun _ => trivial)
      · exact Monitor.watched_ret trivial
  split
  · exact admits_runDeferredCleanup _ σ
  · exact Monitor.watched_ret trivial

theorem admits_reclaimWatchdog (s : AttemptState) (σ : Standing) :
    Admits e (reclaimWatchdog cfg s) σ := by
  unfold reclaimWatchdog
  split
  · exact admits_then (harmless_republishCurrent _ _) fun _ σ₁ _ =>
      admits_next trivial fun _ σ₂ _ => admits_next trivial fun read σ₃ _ =>
        admits_reclaimProcess _ σ₃
  · exact admits_reclaimProcess s σ

theorem admits_reconcileAttempt (e' : ExecutionId) (σ : Standing) :
    Admits e (reconcileAttempt cfg e') σ := by
  refine admits_next trivial fun read σ₁ _ => ?_
  cases read with
  | none => exact Monitor.watched_ret trivial
  | some s =>
      show Admits e (if _ then _ else if _ then _ else _) σ₁
      split
      · exact admits_reclaimWatchdog s σ₁
      split
      · refine admits_harmless (harmless_step trivial fun inproc =>
          harmless_step trivial fun active => ?_)
        show Prog.Only _ (if _ then _ else _)
        split
        · exact Prog.only_call.mpr trivial
        · trivial
      refine admits_then (harmless_sampleLogSize s) fun size σ₂ _ => ?_
      refine admits_then (harmless_floodWatchdog s size) fun s σ₃ _ => ?_
      show Admits e (if _ then _ else _) σ₃
      split
      · exact admits_stopWatchdog s σ₃
      · refine admits_harmless ((harmless_runnerStatus _).bind fun status => ?_)
        split
        · exact harmless_finishScrapyAttempt s _
        · show Prog.Only _ (if _ then _ else _)
          split
          · exact Prog.only_call.mpr trivial
          · trivial

theorem admits_reconcileAttempts (ids : List ExecutionId) (σ : Standing) :
    Admits e (reconcileAttempts cfg ids) σ := by
  induction ids generalizing σ with
  | nil => exact Monitor.watched_ret trivial
  | cons e' rest ih => exact admits_bind (admits_reconcileAttempt e' σ) fun _ σ' => ih σ'

theorem admits_agentTick (σ : Standing) : Admits e (agentTick cfg) σ := by
  have hpass : Admits e (do
      replayOutbox cfg
      reconcileStartedAttempts cfg) σ :=
    admits_then harmless_replayOutbox fun _ σ₁ _ =>
      admits_next trivial fun ids σ₂ _ => admits_reconcileAttempts ids σ₂
  exact hpass.tryCatch (fun _ _ _ => trivial) fun _ _ _ => Monitor.watched_ret trivial

/-! #### Runs -/

/-- The handler may start the execution of its command. -/
def MayStart (e : ExecutionId) (cmd : AgentCommand) (σ : Standing) : Prop :=
  cmd.executionId = e → σ.reserved = true

theorem MayStart.grows {cmd : AgentCommand} {σ' : Standing} (h : MayStart e cmd σ)
    (hσ : σ.Grows σ') : MayStart e cmd σ' := fun he => hσ.reserved (h he)

theorem MayStart.schedule {cmd : AgentCommand} {project spider : String} {version : Option String}
    {settings args : List (String × String)} (h : MayStart e cmd σ) (r : Except AgentError JobId) :
    ∃ σ', (consumerMonitor e).next σ
      (.schedule cmd.executionId project spider version settings args) r = some σ' := by
  by_cases he : cmd.executionId = e
  · exact ⟨{}, (if_neg (not_not.mpr he)).trans (if_pos (h he))⟩
  · exact ⟨σ, if_pos he⟩

theorem MayStart.wheelStart {cmd : AgentCommand} {shellCommand installPath : String}
    {workingDir : Option String} {env context : List (String × String)} (h : MayStart e cmd σ)
    (r : Except AgentError StartedWheel) :
    ∃ σ', (consumerMonitor e).next σ
      (.wheelStart cmd.executionId shellCommand installPath workingDir env context) r =
        some σ' := by
  by_cases he : cmd.executionId = e
  · exact ⟨{}, (if_neg (not_not.mpr he)).trans (if_pos (h he))⟩
  · exact ⟨σ, if_pos he⟩

theorem admits_failRun (cmd : AgentCommand) (errorCode : String) (detail : Detail)
    (lostReason : Option LostReason) (σ : Standing) :
    Admits e (failRun cfg cmd errorCode detail lostReason) σ :=
  admits_harmless (harmless_failRun cmd errorCode detail lostReason)

theorem admits_scheduleRun {cmd : AgentCommand} {project : String} {version : Option String}
    {parsed : ParsedScrapyCommand} (h : MayStart e cmd σ) :
    Admits e (scheduleRun cfg cmd project version parsed) σ := by
  refine admits_next trivial fun context σ₁ h₁ => ?_
  have hstart : Admits e (runnerSchedule cmd.executionId project parsed.spider version
      (parsed.settings ++ context) parsed.args).attempt σ₁ := by
    refine Monitor.Watched.attempt (R := fun _ _ => True) (Monitor.watched_act.mpr fun r => ?_)
    obtain ⟨σ₂, hnext⟩ := (h.grows h₁).schedule r
    refine ⟨σ₂, hnext, ?_⟩
    rcases r with err | job
    · cases err with
      | artifactCache _ | wheelCache _ | runner _ | wheelRunner _ _ | scrapyd _ | http | timeout
        | redis | os | other => exact Monitor.watched_raise trivial
    · exact Monitor.watched_ret trivial
  refine admits_bind hstart fun r σ₂ => ?_
  rcases r with err | job
  · cases err with
    | runner detail => exact admits_failRun cmd _ _ _ σ₂
    | artifactCache _ | wheelCache _ | wheelRunner _ _ | scrapyd _ | http | timeout | redis | os
      | other => exact Monitor.watched_raise trivial
  · refine admits_next trivial fun promoted σ₃ _ => ?_
    cases promoted with
    | none => exact admits_failRun cmd _ _ _ σ₃
    | some s => exact admits_harmless (harmless_emit _)

theorem admits_prepareRun {cmd : AgentCommand} {artifact : ArtifactRef}
    {parsed : Except Detail ParsedScrapyCommand} (h : MayStart e cmd σ) :
    Admits e (prepareRun cfg cmd artifact parsed) σ := by
  refine admits_then (harmless_emit _) fun _ σ₁ h₁ => ?_
  cases parsed with
  | error detail => exact admits_failRun cmd _ _ _ σ₁
  | ok parsed =>
      show Admits e (if _ then _ else if _ then _ else if _ then _ else _) σ₁
      split
      · exact admits_failRun cmd _ _ _ σ₁
      split
      · exact admits_scheduleRun (h.grows h₁)
      split
      · exact admits_failRun cmd _ _ _ σ₁
      · have hegg : (ensureEgg cfg artifact).attempt.Only Harmless :=
          ((only_ensureEgg artifact).mono fun _ => harmless_of_cacheOp).attempt
        refine admits_then hegg fun r σ₂ h₂ => ?_
        rcases r with err | u
        · cases err with
          | artifactCache detail => exact admits_failRun cmd _ _ _ σ₂
          | wheelCache _ | runner _ | wheelRunner _ _ | scrapyd _ | http | timeout | redis | os
            | other => exact Monitor.watched_raise trivial
        · exact admits_scheduleRun ((h.grows h₁).grows h₂)

theorem admits_startWheelRun {cmd : AgentCommand} {installPath : String}
    {context : List (String × String)} (h : MayStart e cmd σ) :
    Admits e (startWheelRun cfg cmd installPath context) σ := by
  refine Monitor.watched_act.mpr fun r => ?_
  obtain ⟨σ₁, hnext⟩ := h.wheelStart r
  refine ⟨σ₁, hnext, ?_⟩
  rcases r with err | started
  · cases err with
    | wheelRunner errorCode detail => exact admits_failRun cmd _ _ _ σ₁
    | artifactCache _ | wheelCache _ | runner _ | scrapyd _ | http | timeout | redis | os
      | other => exact Monitor.watched_raise trivial
  · refine admits_harmless (harmless_step trivial fun promoted => ?_)
    cases promoted with
    | none => exact harmless_step trivial fun _ => harmless_failRun cmd _ _ _
    | some s => exact harmless_step trivial fun _ => (harmless_emit _).bind fun _ =>
        Prog.only_call.mpr trivial

theorem admits_prepareWheelRun {cmd : AgentCommand} {artifact : ArtifactRef}
    {context : List (String × String)} (h : MayStart e cmd σ) :
    Admits e (prepareWheelRun cfg cmd artifact context) σ := by
  refine admits_then (harmless_emit _) fun _ σ₁ h₁ => ?_
  show Admits e (if _ then _ else if _ then _ else if _ then _ else _) σ₁
  split
  · exact admits_failRun cmd _ _ _ σ₁
  split
  · exact admits_failRun cmd _ _ _ σ₁
  split
  · exact admits_failRun cmd _ _ _ σ₁
  · have hwheel : (ensureWheel cfg artifact).attempt.Only Harmless :=
      ((only_ensureWheel artifact).mono fun _ => harmless_of_cacheOp).attempt
    refine admits_then hwheel fun r σ₂ h₂ => ?_
    rcases r with err | installPath
    · cases err with
      | wheelCache detail => exact admits_failRun cmd _ _ _ σ₂
      | artifactCache _ | runner _ | wheelRunner _ _ | scrapyd _ | http | timeout | redis | os
        | other => exact Monitor.watched_raise trivial
    · exact admits_startWheelRun ((h.grows h₁).grows h₂)

/-- Reserving, and what follows it: the execution is started only behind a
state file that was created here. -/
theorem admits_createReserved {cmd : AgentCommand} {s : AttemptState} {f : Bool → AgentProg β}
    (hs : cmd.executionId = s.executionId) (hfresh : s.cleanupPending = false)
    (htrue : ∀ σ', MayStart e cmd σ' → Admits e (f true) σ')
    (hfalse : ∀ σ', Admits e (f false) σ') :
    Admits e (call (.createReserved s) >>= f) σ := by
  refine Monitor.watched_step fun r => ?_
  by_cases he : s.executionId = e
  · have hnext : (consumerMonitor e).next σ (.createReserved s) r = match r with
        | .ok true => some { reserved := true }
        | _ => some {} := by
      show (if _ then _ else if _ then _ else _) = _
      rw [if_neg (not_not.mpr he), hfresh]
      rfl
    rcases r with err | - | -
    · exact ⟨{}, hnext, fun _ hc => (nomatch hc), fun _ _ => trivial⟩
    · exact ⟨{}, hnext, fun _ ha => Except.ok.inj ha ▸ hfalse _, fun _ _ => trivial⟩
    · exact ⟨_, hnext, fun _ ha => Except.ok.inj ha ▸ htrue _ fun _ => rfl, fun _ _ => trivial⟩
  · refine ⟨σ, if_pos he, fun a _ => ?_, fun _ _ => trivial⟩
    cases a with
    | true => exact htrue σ fun hc => (he (hs.symm.trans hc)).elim
    | false => exact hfalse σ

theorem admits_handleRunWheel (cmd : AgentCommand) (σ : Standing) :
    Admits e (handleRunWheel cfg cmd) σ := by
  refine admits_next trivial fun context σ₁ _ => ?_
  exact admits_createReserved rfl rfl (fun _ h => admits_prepareWheelRun h)
    fun _ => admits_harmless (harmless_republishCurrent _ _)

theorem admits_handleRun (cmd : AgentCommand) (σ : Standing) :
    Admits e (handleRun cfg cmd) σ := by
  refine admits_next trivial fun existing σ₁ _ => ?_
  show Admits e (if _ then _ else if _ then _ else _) σ₁
  split
  · exact admits_harmless (harmless_republishCurrent _ _)
  split
  · exact admits_handleRunWheel cmd σ₁
  · exact admits_createReserved rfl rfl (fun _ h => admits_prepareRun h)
      fun _ => admits_harmless (harmless_republishCurrent _ _)

/-- Every command is admitted but a cleanup of the execution. -/
theorem admits_processCommand {cmd : AgentCommand}
    (h : cmd.type = .cleanupLogs → cmd.executionId ≠ e) (σ : Standing) :
    Admits e (processCommand cfg cmd) σ := by
  refine admits_next trivial fun _ σ₁ _ => ?_
  have hhandle : ∀ σ', Admits e (handleCommand cfg cmd) σ' := by
    intro σ'
    unfold handleCommand
    split
    · exact admits_handleRun cmd σ'
    · exact admits_harmless (harmless_handleStop cmd)
    · rename_i htype
      exact admits_handleCleanup (h htype) σ'
    · exact admits_harmless (harmless_handleStopLogs cmd)
  refine Monitor.Watched.tryFinally (Q := fun _ _ => True) ?_ fun _ σ₂ _ => ?_
  · exact (hhandle σ₁).tryCatch (fun _ _ _ => trivial) fun _ _ _ => Monitor.watched_ret trivial
  · have hfinish : Admits e (call (.finish cmd)) σ₂ := admits_harmless (Prog.only_call.mpr trivial)
    exact hfinish.mono fun r _ _ => by cases r <;> trivial

end Watched

/-! ### The state file -/

section File

variable {cfg : AgentConfig} {e : ExecutionId} {w w' : AgentWorld} {op : AgentOp}
  {x : AgentAnswer} {r : Except AgentError op.Res} {σ σ' : Standing} {n : Nat}

/-- Whether the attempt waits for its cleanup; `none` when nothing can be read. -/
def filePending (e : ExecutionId) (w : AgentWorld) : Option Bool :=
  (w.store.read e).map (·.cleanupPending)

/-- The state file is there, and nobody waits to remove it. -/
def Kept (e : ExecutionId) (w : AgentWorld) : Prop := e ∈ w.torn ∨ filePending e w = some false

/-- Nothing has changed but what the attempt records. -/
structure SameFile (e : ExecutionId) (w w' : AgentWorld) : Prop where
  torn : e ∈ w'.torn ↔ e ∈ w.torn
  pending : filePending e w' = filePending e w

theorem SameFile.refl (e : ExecutionId) (w : AgentWorld) : SameFile e w w := ⟨Iff.rfl, rfl⟩

theorem SameFile.kept (h : SameFile e w w') : Kept e w' ↔ Kept e w := by
  rw [Kept, Kept, h.torn, h.pending]

/-- The operation neither creates, removes nor dooms the state file. -/
def Spares (e : ExecutionId) : AgentOp → Prop
  | .createReserved s => s.executionId ≠ e
  | .delete e' | .mark e' .cleanupPending => e' ≠ e
  | _ => True

theorem apply_cleanupPending {m : Mark} (h : m ≠ .cleanupPending) (s : AttemptState) :
    (m.apply s).cleanupPending = s.cleanupPending := by
  cases m with
  | cleanupPending => exact (h rfl).elim
  | _ => rfl

/-- What is spared stays. -/
theorem sameFile_perform (hp : op.perform cfg x w = some (r, w')) (hop : Spares e op) :
    SameFile e w w' := by
  have heffect : ∀ {w₁}, Effect cfg x w op w₁ → SameFile e w w₁ := by
    intro w₁ heffect
    cases heffect with
    | created s store hstore =>
        refine ⟨Iff.rfl, ?_⟩
        show (store.read e).map _ = _
        rw [StateStore.read_createReserved hstore, if_neg (Ne.symm hop)]
        rfl
    | torn s =>
        refine ⟨?_, rfl⟩
        show e ∈ s.executionId :: w.torn ↔ _
        rw [List.mem_cons, or_iff_right (Ne.symm hop)]
    | marked e' m s hread =>
        refine ⟨Iff.rfl, ?_⟩
        show ((w.store.mark e' m).read e).map _ = (w.store.read e).map _
        by_cases he : e = e'
        · subst he
          have hm : m ≠ .cleanupPending := by
            rintro rfl
            exact hop rfl
          rw [StateStore.read_mark_self, hread]
          exact congrArg some (apply_cleanupPending hm s)
        · rw [StateStore.read_mark_ne _ _ he]
    | deleted e' =>
        have he : e ≠ e' := Ne.symm hop
        refine ⟨?_, ?_⟩
        · show e ∈ w.torn.filter (· ≠ e') ↔ _
          rw [List.mem_filter]
          exact ⟨And.left, fun h => ⟨h, by simpa using he⟩⟩
        · show ((w.store.delete e').read e).map _ = _
          rw [StateStore.read_delete_ne _ he]
          rfl
    | _ => exact ⟨Iff.rfl, rfl⟩
  obtain ⟨w₁, heffect₁, rfl | ⟨y, rfl⟩⟩ := perform_leads hp
  · exact heffect heffect₁
  · exact ⟨(heffect heffect₁).torn, (heffect heffect₁).pending⟩

/-- How a creation of the state file ends. -/
theorem createReserved_cases {s : AttemptState} {r : Except AgentError Bool}
    (hp : AgentOp.perform cfg (.createReserved s) x w = some (r, w')) :
    (r ≠ .ok true ∧ SameFile s.executionId w w') ∨
      (¬ Kept s.executionId w ∧ s.executionId ∉ w'.torn ∧ r = .ok true ∧
        filePending s.executionId w' = some s.cleanupPending) ∨
      (¬ Kept s.executionId w ∧ r ≠ .ok true ∧ s.executionId ∈ w'.torn ∧
        filePending s.executionId w' = none) := by
  simp only [AgentOp.perform] at hp
  split at hp
  · cases hp
    exact .inl ⟨fun hc => (by cases hc), .refl _ _⟩
  rename_i htorn
  split at hp
  · cases hp
    exact .inl ⟨fun hc => (by cases hc), .refl _ _⟩
  rename_i store hstore
  have hread : w.store.read s.executionId = none := by
    cases hget : w.store.read s.executionId with
    | none => rfl
    | some s' =>
        unfold StateStore.createReserved at hstore
        rw [show w.store.get s.executionId = some s' from hget] at hstore
        cases hstore
  have hkept : ¬ Kept s.executionId w := by
    rintro (h | h)
    · exact htorn h
    · rw [filePending, hread] at h
      cases h
  split at hp
  · rename_i hlate
    rcases AgentWorld.fallible_cases hp with ⟨hnone, -⟩ | ⟨err, -, -, rfl, rfl⟩
    · rw [hnone] at hlate
      cases hlate.1
    · rw [if_pos hlate.2]
      refine .inr (.inr ⟨hkept, fun hc => (by cases hc), List.mem_cons_self, ?_⟩)
      exact congrArg (Option.map _) hread
  · rcases AgentWorld.atomically_cases hp with ⟨-, rfl, rfl⟩ | ⟨err, -, -, rfl, rfl⟩
    · refine .inr (.inl ⟨hkept, htorn, rfl, ?_⟩)
      show (store.read s.executionId).map _ = _
      rw [StateStore.read_createReserved hstore, if_pos rfl]
      rfl
    · exact .inl ⟨fun hc => (by cases hc), Iff.rfl, rfl⟩

/-- How a removal of the state file ends. -/
theorem delete_cases {r : Except AgentError Unit}
    (hp : AgentOp.perform cfg (.delete e) x w = some (r, w')) :
    SameFile e w w' ∨ (e ∉ w'.torn ∧ filePending e w' = none) := by
  rcases AgentWorld.atomically_cases hp with ⟨-, -, rfl⟩ | ⟨err, -, -, -, rfl⟩
  · refine .inr ⟨?_, ?_⟩
    · simp
    · show ((w.store.delete e).read e).map _ = none
      rw [StateStore.read_delete_self]
      rfl
  · exact .inl ⟨Iff.rfl, rfl⟩

/-! ### The invariant -/

/-- A file that does not parse is not read. -/
def TornUnread (e : ExecutionId) (w : AgentWorld) : Prop := e ∈ w.torn → filePending e w = none

theorem TornUnread.same (h : TornUnread e w) (hsame : SameFile e w w') : TornUnread e w' :=
  fun ht => hsame.pending.trans (h (hsame.torn.mp ht))

theorem TornUnread.perform (h : TornUnread e w) (hp : op.perform cfg x w = some (r, w')) :
    TornUnread e w' := by
  by_cases hop : Spares e op
  · exact h.same (sameFile_perform hp hop)
  cases op with
  | createReserved s =>
      obtain rfl : s.executionId = e := not_not.mp hop
      rcases createReserved_cases hp with ⟨-, hsame⟩ | ⟨-, htorn, -⟩ | ⟨-, -, -, hnone⟩
      · exact h.same hsame
      · exact fun hc => (htorn hc).elim
      · exact fun _ => hnone
  | delete e' =>
      obtain rfl : e' = e := not_not.mp hop
      rcases delete_cases hp with hsame | ⟨htorn, -⟩
      · exact h.same hsame
      · exact fun hc => (htorn hc).elim
  | mark e' m =>
      cases m with
      | cleanupPending =>
          obtain rfl : e' = e := not_not.mp hop
          intro ht
          simp only [AgentOp.perform] at hp
          split at hp
          · cases hp
            exact h ht
          · rename_i s hread
            rcases AgentWorld.atomically_cases hp with ⟨-, -, rfl⟩ | ⟨err, -, -, -, rfl⟩
            · have hnone := h ht
              rw [filePending, hread] at hnone
              cases hnone
            · exact h ht
      | _ => exact (hop trivial).elim
  | _ => exact (hop trivial).elim

/-- What relates the state file, the standing of the consumer and the number of
times the execution was started. -/
structure StartsOnce (e : ExecutionId) (w : AgentWorld) (σ : Standing) (n : Nat) : Prop where
  torn : TornUnread e w
  reserved : σ.reserved = true → Kept e w ∧ n = 0
  doomed : σ.doomed = true → ¬ Kept e w
  once : n = 0 ∨ n = 1 ∧ Kept e w

namespace StartsOnce

theorem same (h : StartsOnce e w σ n) (hsame : SameFile e w w') : StartsOnce e w' σ n where
  torn := h.torn.same hsame
  reserved hr := ⟨hsame.kept.mpr (h.reserved hr).1, (h.reserved hr).2⟩
  doomed hd := fun hk => h.doomed hd (hsame.kept.mp hk)
  once := h.once.imp_right fun ⟨hn, hk⟩ => ⟨hn, hsame.kept.mpr hk⟩

/-- A program that has ended leaves no standing. -/
theorem idle (h : StartsOnce e w σ n) : StartsOnce e w {} n where
  torn := h.torn
  reserved hc := by cases hc
  doomed hc := by cases hc
  once := h.once

theorem zero (h : StartsOnce e w σ n) (hkept : ¬ Kept e w) : n = 0 :=
  h.once.resolve_right fun hc => hkept hc.2

/-- A start of an execution, its own or another. -/
theorem started {e' : ExecutionId} (h : StartsOnce e w σ n) (hsame : SameFile e w w')
    (hstart : startsRun e op = decide (e' = e))
    (hnext : (if e' ≠ e then some σ else if σ.reserved then some {} else none) = some σ') :
    StartsOnce e w' σ' (n + startCount e op) := by
  by_cases he : e' = e
  · rw [if_neg (not_not.mpr he)] at hnext
    have hcount : startCount e op = 1 := by
      rw [startCount, hstart, decide_eq_true he]
      rfl
    cases hr : σ.reserved with
    | false =>
        rw [hr] at hnext
        cases hnext
    | true =>
        rw [hr] at hnext
        obtain rfl := Option.some.inj hnext
        obtain ⟨hkept, rfl⟩ := h.reserved hr
        rw [hcount]
        exact
          { torn := h.torn.same hsame
            reserved := fun hc => by cases hc
            doomed := fun hc => by cases hc
            once := .inr ⟨rfl, hsame.kept.mpr hkept⟩ }
  · rw [if_pos he] at hnext
    have hcount : startCount e op = 0 := by
      rw [startCount, hstart, decide_eq_false he]
      rfl
    obtain rfl := Option.some.inj hnext
    rw [hcount]
    exact h.same hsame

/-- The consumer does what its monitor admits. -/
theorem consumer (h : StartsOnce e w σ n) (hp : op.perform cfg x w = some (r, w'))
    (hnext : (consumerMonitor e).next σ op r = some σ') :
    StartsOnce e w' σ' (n + startCount e op) := by
  cases op with
  | createReserved s =>
      by_cases he : s.executionId = e
      swap
      · obtain rfl : σ = σ' := Option.some.inj ((if_pos he).symm.trans hnext)
        exact h.same (sameFile_perform hp (show Spares e (.createReserved s) from he))
      replace hnext := (if_neg (not_not.mpr he)).symm.trans hnext
      have hfresh : s.cleanupPending = false := by
        cases hc : s.cleanupPending with
        | false => rfl
        | true =>
            rw [hc] at hnext
            cases hnext
      rw [hfresh] at hnext
      subst he
      have hfailed : r ≠ .ok true → σ' = {} := by
        intro hr
        rcases r with err | - | -
        · exact (Option.some.inj hnext).symm
        · exact (Option.some.inj hnext).symm
        · exact (hr rfl).elim
      rcases createReserved_cases hp with ⟨hr, hsame⟩ | ⟨hkept, htorn, rfl, hpending⟩ |
        ⟨hkept, hr, htorn, hnone⟩
      · rw [hfailed hr]
        exact (h.same hsame).idle
      · obtain rfl := Option.some.inj hnext
        rw [hfresh] at hpending
        exact
          { torn := fun hc => (htorn hc).elim
            reserved := fun _ => ⟨.inr hpending, h.zero hkept⟩
            doomed := fun hc => by cases hc
            once := .inl (h.zero hkept) }
      · rw [hfailed hr]
        exact
          { torn := fun _ => hnone
            reserved := fun hc => by cases hc
            doomed := fun hc => by cases hc
            once := .inl (h.zero hkept) }
  | schedule e' project spider version settings args =>
      exact h.started (sameFile_perform hp trivial) rfl hnext
  | wheelStart e' shellCommand installPath workingDir env context =>
      exact h.started (sameFile_perform hp trivial) rfl hnext
  | delete e' =>
      by_cases he : e' = e
      swap
      · obtain rfl : σ = σ' := Option.some.inj ((if_neg fun hc => he hc.1).symm.trans hnext)
        exact h.same (sameFile_perform hp (show Spares e (.delete e') from he))
      subst he
      have hdoomed : σ.doomed = true := by
        cases hc : σ.doomed with
        | true => rfl
        | false =>
            rw [show (consumerMonitor e').next σ (.delete e') r = none from if_pos ⟨rfl, hc⟩]
              at hnext
            cases hnext
      obtain rfl : σ = σ' := by
        refine Option.some.inj ((if_neg ?_).symm.trans hnext)
        rintro ⟨-, hc⟩
        rw [hdoomed] at hc
        cases hc
      rcases delete_cases hp with hsame | ⟨htorn, hnone⟩
      · exact h.same hsame
      have hkept := h.doomed hdoomed
      have hgone : ¬ Kept e' w' := by
        rintro (hc | hc)
        · exact htorn hc
        · rw [hnone] at hc
          cases hc
      exact
        { torn := fun _ => hnone
          reserved := fun hr => (hkept (h.reserved hr).1).elim
          doomed := fun _ => hgone
          once := .inl (h.zero hkept) }
  | mark e' m =>
      cases m with
      | cleanupPending =>
          by_cases he : e' = e
          · rw [show (consumerMonitor e).next σ (.mark e' .cleanupPending) r = none from if_pos he]
              at hnext
            cases hnext
          · obtain rfl : σ = σ' := Option.some.inj ((if_neg he).symm.trans hnext)
            exact h.same (sameFile_perform hp (show Spares e (.mark e' .cleanupPending) from he))
      | _ =>
          obtain rfl := Option.some.inj hnext
          exact h.same (sameFile_perform hp trivial)
  | read e' =>
      have hsame := sameFile_perform (e := e) hp trivial
      cases hp
      cases hread : w.store.read e' with
      | none =>
          rw [hread] at hnext
          obtain rfl := Option.some.inj hnext
          exact h.same hsame
      | some s =>
          rw [hread] at hnext
          by_cases hdoomed : e' = e ∧ s.cleanupPending = true
          · obtain rfl := Option.some.inj ((if_pos hdoomed).symm.trans hnext)
            obtain ⟨rfl, hpending⟩ := hdoomed
            have htrue : filePending e' w = some true := by
              rw [filePending, hread]
              exact congrArg some hpending
            refine { h with doomed := fun _ => ?_ }
            rintro (hc | hc)
            · rw [h.torn hc] at htrue
              cases htrue
            · rw [hc] at htrue
              cases htrue
          · obtain rfl := Option.some.inj ((if_neg hdoomed).symm.trans hnext)
            exact h.same hsame
  | _ =>
      obtain rfl := Option.some.inj hnext
      exact h.same (sameFile_perform hp trivial)

/-- A waiter changes nothing about it. -/
theorem waiter {τ τ' : Standing} (h : StartsOnce e w σ n)
    (hp : op.perform cfg x w = some (r, w')) (hnext : waiterMonitor.next τ op r = some τ') :
    StartsOnce e w' σ (n + startCount e op) := by
  have hspares : Spares e op ∧ startCount e op = 0 := by
    cases op with
    | createReserved s | schedule e' project spider version settings args
    | wheelStart e' shellCommand installPath workingDir env context | delete e' => cases hnext
    | mark e' m =>
        cases m with
        | cleanupPending => cases hnext
        | _ => exact ⟨trivial, rfl⟩
    | _ => exact ⟨trivial, rfl⟩
  rw [hspares.2]
  exact h.same (sameFile_perform hp hspares.1)

end StartsOnce

end File

/-! ### Runs -/

section Runs

variable {cfg : AgentConfig} {kind : ExecutionId → RunnerType} {e : ExecutionId}

/-- No cleanup of the execution is begun. -/
def uncleaned (e : ExecutionId) : Cond where
  env _ _ := True
  launch _ _ inp :=
    match inp with
    | .command cmd => cmd.type = .cleanupLogs → cmd.executionId ≠ e
    | _ => True
  op _ _ _ := True
  crash _ := True

instance (e : ExecutionId) (w : AgentWorld) (i : Proc) :
    (inp : Launch) → Decidable ((uncleaned e).launch w i inp)
  | .command cmd => inferInstanceAs (Decidable (cmd.type = .cleanupLogs → cmd.executionId ≠ e))
  | .boot | .tick | .wait => isTrue trivial

instance (e : ExecutionId) (w : AgentWorld) (m : AgentMove) :
    Decidable ((uncleaned e).env w m) := isTrue trivial

instance (e : ExecutionId) (op : AgentOp) (x : AgentAnswer) (w : AgentWorld) :
    Decidable ((uncleaned e).op op x w) := isTrue trivial

instance (e : ExecutionId) (w : AgentWorld) : Decidable ((uncleaned e).crash w) := isTrue trivial

/-- The waiters are watched from the start, whatever the commands are. -/
theorem watched_waiter {w : AgentWorld} {child : Nat} {inp : Launch} {p : AgentProg Unit}
    (hp : launch cfg kind w (.waiter child) inp = some p) (σ : Standing) :
    waiterMonitor.Watched p (fun _ _ => True) σ := by
  cases inp with
  | wait =>
      obtain ⟨x, -, rfl⟩ := Option.map_eq_some_iff.mp hp
      refine Monitor.watched_of_only (I := fun _ => True) (harmless_awaitWheel x) trivial ?_
      intro σ op r _ hop
      cases op with
      | createReserved s => exact hop.elim
      | schedule e' project spider version settings args => exact hop.elim
      | wheelStart e' shellCommand installPath workingDir env context => exact hop.elim
      | delete e' => exact hop.elim
      | mark e' m =>
          cases m with
          | cleanupPending => exact hop.elim
          | _ => exact ⟨σ, rfl, trivial⟩
      | _ => exact ⟨σ, rfl, trivial⟩
  | boot | tick | command cmd => cases hp

/-- What the consumer is started on is watched, unless it is a cleanup. -/
theorem watched_consumer {w : AgentWorld} {inp : Launch} {p : AgentProg Unit}
    (hK : (uncleaned e).launch w .consumer inp) (hp : launch cfg kind w .consumer inp = some p) :
    Admits e p {} := by
  cases inp with
  | boot =>
      simp only [launch] at hp
      split at hp
      · cases hp
      · obtain rfl := Option.some.inj hp
        exact admits_harmless harmless_agentBoot
  | tick =>
      simp only [launch] at hp
      split at hp
      · obtain rfl := Option.some.inj hp
        exact admits_agentTick _
      · cases hp
  | command cmd =>
      simp only [launch] at hp
      split at hp
      · obtain rfl := Option.some.inj hp
        exact admits_processCommand hK _
      · cases hp
  | wait => cases hp

theorem tallied (cfg : AgentConfig) (kind : ExecutionId → RunnerType) (e : ExecutionId) :
    Sys.Tallied (spec cfg kind) (uncleaned e) (monitorOf e) (startCount e)
      fun w σ n => StartsOnce e w (σ .consumer) n where
  launch_watched w i inp p hK hp :=
    match i, hK, hp with
    | .consumer, hK, hp => watched_consumer hK hp
    | .waiter _, _, hp => watched_waiter hp _
  start w σ n i h :=
    match i with
    | .consumer => h.idle
    | .waiter _ => h
  env w σ n m w' h _ hm := by
    obtain rfl := Option.some.inj hm
    refine h.same ?_
    cases m <;> exact ⟨Iff.rfl, rfl⟩
  op w σ n i op x r w' σ' h _ hp hnext :=
    match i, hnext with
    | .consumer, hnext => h.consumer hp hnext
    | .waiter _, hnext => h.waiter hp hnext
  crash _ _ _ h _ := h.idle.same ⟨Iff.rfl, rfl⟩

/-- The waiters alone. -/
def waiterMonitorOf : Proc → Monitor AgentOp AgentOp.Res AgentError Standing
  | .consumer => .top {}
  | .waiter _ => waiterMonitor

/-- A waiter has no standing. -/
theorem waiterMonitor_next {τ τ' : Standing} {op : AgentOp} {r : Except AgentError op.Res}
    (h : waiterMonitor.next τ op r = some τ') : τ' = τ := by
  simp only [waiterMonitor] at h
  split at h
  · cases h
  · cases h
  · cases h
  · cases h
  · cases h
  · exact (Option.some.inj h).symm

theorem tallied_waiters (cfg : AgentConfig) (kind : ExecutionId → RunnerType) (e : ExecutionId) :
    Sys.Tallied (spec cfg kind) Sys.Cond.always waiterMonitorOf (fun _ => 0)
      fun w σ _ => TornUnread e w ∧ ∀ i, σ i = {} where
  launch_watched w i inp p _ hp :=
    match i, hp with
    | .consumer, _ => Monitor.watched_top _ p
    | .waiter _, hp => watched_waiter hp _
  start w σ n i h := by
    refine ⟨h.1, fun j => ?_⟩
    by_cases hj : j = i
    · subst hj
      rw [Function.update_self]
      cases j <;> rfl
    · rw [Function.update_of_ne hj, h.2 j]
  env w σ n m w' h _ hm := by
    obtain rfl := Option.some.inj hm
    refine ⟨h.1.same ?_, h.2⟩
    cases m <;> exact ⟨Iff.rfl, rfl⟩
  op w σ n i op x r w' σ' h _ hp hnext := by
    have hsame : σ' = σ i := by
      cases i with
      | consumer => exact (Option.some.inj hnext).symm
      | waiter child => exact waiterMonitor_next hnext
    refine ⟨h.1.perform hp, fun j => ?_⟩
    by_cases hj : j = i
    · subst hj
      rw [Function.update_self, hsame, h.2 j]
    · rw [Function.update_of_ne hj, h.2 j]
  crash w σ n h _ := ⟨h.1.same ⟨Iff.rfl, rfl⟩, fun i => by cases i <;> rfl⟩

/-- Whatever was started before, the waiters that still run are watched. -/
theorem watching_of_run {s : State} (h : StateMachine.Run (step cfg kind) start s)
    (hidle : s.procs .consumer = none) (e : ExecutionId) :
    TornUnread e s.world ∧ Sys.Watching (monitorOf e) s fun _ => {} := by
  obtain ⟨n, hrun⟩ := (h.mono fun s a _ => Sys.Cond.always_holds s a).exists_counted 0
  have hempty : Sys.Watching waiterMonitorOf start fun _ => {} := fun _ _ hp => nomatch hp
  obtain ⟨σ, hwatch, htorn, hnone⟩ := Sys.watched_run (tallied_waiters cfg kind e) hempty
    ⟨fun hc => (nomatch hc), fun _ => rfl⟩ hrun
  refine ⟨htorn, fun i p hp => ?_⟩
  cases i with
  | consumer =>
      rw [hidle] at hp
      cases hp
  | waiter child =>
      have hw := hwatch (.waiter child) p hp
      rwa [hnone] at hw

/-- **A run is started at most once.**  From wherever the consumer is idle, in every
run without a cleanup of the execution, scrapyd is asked for a job of it, or the
wheel runner for a child, at most once. -/
theorem run_started_at_most_once (cfg : AgentConfig) (kind : ExecutionId → RunnerType)
    (e : ExecutionId) {s₀ s : State} {n : Nat}
    (h₀ : StateMachine.Run (step cfg kind) start s₀) (hidle : s₀.procs .consumer = none)
    (h : StateMachine.RunOk (Sys.countedStep (spec cfg kind) (startCount e))
      (fun t => (uncleaned e).Holds t.1) (s₀, 0) (s, n)) : n ≤ 1 := by
  obtain ⟨htorn, hwatch⟩ := watching_of_run h₀ hidle e
  have hstart : StartsOnce e s₀.world {} 0 :=
    { torn := htorn
      reserved := fun hc => by cases hc
      doomed := fun hc => by cases hc
      once := .inl rfl }
  obtain ⟨σ, -, hend⟩ := Sys.watched_run (tallied cfg kind e) hwatch hstart h
  rcases hend.once with rfl | ⟨rfl, -⟩
  · exact Nat.zero_le 1
  · exact Nat.le_refl 1

/-- The agent dies after scrapyd took the job, and the run is delivered again. -/
def sampleRedelivered : List Action :=
  runs .boot 5 ++ runs (.command sampleRun) 9 ++ [.crash] ++ runs .boot 13 ++
    runs (.command sampleRun) 8

theorem run_started_at_most_once_sample : ∃ s : State × Nat,
    StateMachine.RunOk (Sys.countedStep (spec sampleConfig fun _ => .scrapy) (startCount 7))
      (fun t => (uncleaned 7).Holds t.1) (start, 0) s ∧ s.2 = 1 ∧ s.2 ≤ 1 := by
  obtain ⟨s, hrun, hs⟩ := StateMachine.RunOk.exists_of_checkedRun
    (Sys.countedStep (spec sampleConfig fun _ => .scrapy) (startCount 7))
    (fun t => (uncleaned 7).Holds t.1) (start, 0) sampleRedelivered
    (fun s => s.2 == 1 && s.1.world.handled.length == 2) (by decide +kernel)
  simp only [Bool.and_eq_true, beq_iff_eq] at hs
  exact ⟨s, hrun, hs.1, run_started_at_most_once sampleConfig (fun _ => .scrapy) 7
    (StateMachine.RunOk.refl start) rfl hrun⟩

end Runs

end Agent

end Dopilot
