/-
Dopilot/AgentRepeats.lean

When an execution is started again.

The agent remembers an execution by its state file.  The handler of a run
command starts the execution only behind a file it has created itself, so no
run command that is begun while the file is there starts anything, even if the
file does not parse (`spent_step`).  What the agent has done with the execution
before does not matter: without the file it has forgotten it.

A monitor tells whether the consumer still looks for the file, or has created it.
-/
import Dopilot.AgentStarts

namespace Dopilot

namespace Agent

open AgentOp (call ask)

/-! ### What is watched -/

/-- Where the consumer stands with the execution. -/
structure Footing where
  /-- It has begun a run command, and neither created nor removed the state file since. -/
  looking : Bool := false
  /-- It has created the state file, and has not started the execution since. -/
  reserved : Bool := false
  deriving DecidableEq, Repr

/-- The operation begins a run command of the execution. -/
def beginsRun (e : ExecutionId) : AgentOp → Bool
  | .begin cmd => decide (cmd.type = .run) && decide (cmd.executionId = e)
  | _ => false

/-- The state file is created only by a run command that still looks for it, and the
execution is started only behind a file that was created. -/
def restartMonitor (e : ExecutionId) : Monitor AgentOp AgentOp.Res AgentError Footing where
  init := {}
  next τ op r :=
    match op, r with
    | .begin cmd, _ => some { τ with looking := beginsRun e (.begin cmd) }
    | .createReserved s, r =>
        if s.executionId ≠ e then some τ
        else if τ.looking then
          match r with
          | .ok true => some { looking := false, reserved := true }
          | _ => some { τ with looking := false }
        else none
    | .schedule e' .., _ | .wheelStart e' .., _ =>
        if e' ≠ e then some τ else if τ.reserved then some {} else none
    | .delete e', _ => if e' = e then some { τ with looking := false } else some τ
    | _, _ => some τ

/-- The monitors of the processes. -/
def restartMonitorOf (e : ExecutionId) : Proc → Monitor AgentOp AgentOp.Res AgentError Footing
  | .consumer => restartMonitor e
  | .waiter _ =>
      { init := {}
        next := fun τ op _ =>
          match op with
          | .createReserved _ | .schedule .. | .wheelStart .. | .delete _ => none
          | _ => some τ }

/-! ### Programs that start nothing -/

/-- The operations that neither create a state file nor start an execution. -/
def Startless : AgentOp → Prop
  | .createReserved _ | .schedule .. | .wheelStart .. => False
  | _ => True

section Startless

variable {cfg : AgentConfig} {α β : Type}

theorem startless_of_harmless {op : AgentOp} (h : Harmless op) : Startless op := by
  cases op with
  | createReserved s => exact h.elim
  | schedule e project spider version settings args => exact h.elim
  | wheelStart e shellCommand installPath workingDir env context => exact h.elim
  | _ => trivial

theorem startless_harmless {p : AgentProg α} (h : p.Only Harmless) : p.Only Startless :=
  h.mono fun _ => startless_of_harmless

/-- A harmless part, and what follows it. -/
theorem startless_then {p : AgentProg α} {f : α → AgentProg β} (hp : p.Only Harmless)
    (hf : ∀ a, (f a).Only Startless) : (p.bind f).Only Startless :=
  (startless_harmless hp).bind hf

/-- One operation, and what follows it. -/
theorem startless_step {op : AgentOp} {f : op.Res → AgentProg β} (hop : Startless op)
    (hf : ∀ a, (f a).Only Startless) : (call op >>= f).Only Startless :=
  Prog.Only.bind (Prog.only_call.mpr hop) hf

/-! #### Cleanups -/

theorem startless_doCleanup (e : ExecutionId) : (doCleanup e).Only Startless :=
  startless_step trivial fun read => startless_then (harmless_removeFiles read) fun _ =>
    startless_step trivial fun _ => Prog.only_call.mpr trivial

theorem startless_runDeferredCleanup (e : ExecutionId) :
    (runDeferredCleanup e).Only Startless := by
  refine startless_step trivial fun read => ?_
  cases read with
  | none => trivial
  | some s =>
      show Prog.Only _ (if _ then _ else _)
      split
      · trivial
      refine (startless_doCleanup e).attempt.bind fun r => ?_
      rcases r with err | u
      · cases err with
        | os => trivial
        | artifactCache _ | wheelCache _ | runner _ | wheelRunner _ _ | scrapyd _ | http | timeout
          | redis | other => trivial
      · trivial

theorem startless_handleCleanup (cmd : AgentCommand) : (handleCleanup cmd).Only Startless := by
  refine startless_step trivial fun read => ?_
  show Prog.Only _ (if _ then _ else _)
  split
  · exact startless_step trivial fun _ => trivial
  · exact startless_doCleanup _

/-! #### The tick -/

theorem startless_finalizeStop (s : AttemptState) (confirmed : Bool) :
    (finalizeStop cfg s confirmed).Only Startless := by
  refine startless_then (harmless_reportStop s confirmed) fun _ => ?_
  show Prog.Only _ (if _ then _ else _)
  split
  · exact startless_runDeferredCleanup _
  · trivial

theorem startless_stopWatchdog (s : AttemptState) : (stopWatchdog cfg s).Only Startless := by
  refine startless_step trivial fun now => ?_
  show Prog.Only _ (if _ then _ else _)
  split
  · exact startless_finalizeStop s false
  refine startless_then (harmless_isJobAlive _) fun alive => ?_
  have hsend : ∀ (kill : Bool) (escalation : Escalation),
      ((sendStopSignal s.executionId kill escalation .stopWatchdog).bind fun _ =>
        (return () : AgentProg Unit)).Only Startless :=
    fun kill escalation => startless_then (harmless_sendStopSignal _ _ _ _) fun _ => trivial
  rcases alive with - | - | -
  · trivial
  · exact startless_finalizeStop s true
  · show Prog.Only _ (if _ then _ else if _ then _ else _)
    split
    · exact hsend false .term
    split
    · exact hsend true .kill
    · trivial

theorem startless_reclaimProcess (s : AttemptState) :
    (reclaimProcess cfg s).Only Startless := by
  unfold reclaimProcess
  split
  · refine startless_then (harmless_isJobAlive _) fun alive => ?_
    rcases alive with - | - | -
    · trivial
    · exact startless_step trivial fun _ => startless_runDeferredCleanup _
    · refine startless_step trivial fun now => ?_
      show Prog.Only _ (if _ then _ else _)
      split
      · exact startless_harmless ((harmless_sendStopSignal _ _ _ _).bind fun _ =>
          harmless_step trivial fun _ => harmless_step trivial fun _ => trivial)
      · trivial
  split
  · exact startless_runDeferredCleanup _
  · trivial

theorem startless_reclaimWatchdog (s : AttemptState) :
    (reclaimWatchdog cfg s).Only Startless := by
  unfold reclaimWatchdog
  split
  · exact startless_then (harmless_republishCurrent _ _) fun _ =>
      startless_step trivial fun _ => startless_step trivial fun _ => startless_reclaimProcess _
  · exact startless_reclaimProcess s

theorem startless_reconcileAttempt (e : ExecutionId) :
    (reconcileAttempt cfg e).Only Startless := by
  refine startless_step trivial fun read => ?_
  cases read with
  | none => trivial
  | some s =>
      show Prog.Only _ (if _ then _ else if _ then _ else _)
      split
      · exact startless_reclaimWatchdog s
      split
      · refine startless_step trivial fun inproc => startless_step trivial fun active => ?_
        show Prog.Only _ (if _ then _ else _)
        split
        · exact Prog.only_call.mpr trivial
        · trivial
      refine startless_then (harmless_sampleLogSize s) fun size => ?_
      refine startless_then (harmless_floodWatchdog s size) fun s => ?_
      show Prog.Only _ (if _ then _ else _)
      split
      · exact startless_stopWatchdog s
      · refine startless_then (harmless_runnerStatus _) fun status => ?_
        split
        · exact startless_harmless (harmless_finishScrapyAttempt s _)
        · show Prog.Only _ (if _ then _ else _)
          split
          · exact Prog.only_call.mpr trivial
          · trivial

theorem startless_reconcileAttempts (ids : List ExecutionId) :
    (reconcileAttempts cfg ids).Only Startless := by
  induction ids with
  | nil => trivial
  | cons e rest ih => exact (startless_reconcileAttempt e).bind fun _ => ih

theorem startless_agentTick : (agentTick cfg).Only Startless := by
  have hpass : (do
      replayOutbox cfg
      reconcileStartedAttempts cfg : AgentProg Unit).Only Startless :=
    startless_then harmless_replayOutbox fun _ =>
      startless_step trivial fun ids => startless_reconcileAttempts ids
  exact hpass.tryCatch fun _ => trivial

end Startless

/-! ### The handler of a run -/

/-- The operations that create no state file. -/
def Uncreating : AgentOp → Prop
  | .createReserved _ => False
  | _ => True

section Uncreating

variable {cfg : AgentConfig} {α β : Type}

theorem uncreating_harmless {p : AgentProg α} (h : p.Only Harmless) : p.Only Uncreating := by
  refine h.mono fun op hop => ?_
  cases op with
  | createReserved s => exact hop.elim
  | _ => trivial

theorem uncreating_failRun (cmd : AgentCommand) (errorCode : String) (detail : Detail)
    (lostReason : Option LostReason) :
    (failRun cfg cmd errorCode detail lostReason).Only Uncreating :=
  uncreating_harmless (harmless_failRun cmd errorCode detail lostReason)

theorem uncreating_scheduleRun (cmd : AgentCommand) (project : String) (version : Option String)
    (parsed : ParsedScrapyCommand) :
    (scheduleRun cfg cmd project version parsed).Only Uncreating := by
  refine Prog.Only.bind (Prog.only_call.mpr trivial) fun context => ?_
  have hstart : (runnerSchedule cmd.executionId project parsed.spider version
      (parsed.settings ++ context) parsed.args).Only Uncreating := by
    refine ⟨trivial, fun r => ?_⟩
    rcases r with err | job
    · cases err with
      | artifactCache _ | wheelCache _ | runner _ | wheelRunner _ _ | scrapyd _ | http | timeout
        | redis | os | other => trivial
    · trivial
  refine hstart.attempt.bind fun r => ?_
  rcases r with err | job
  · cases err with
    | runner detail => exact uncreating_failRun cmd _ _ _
    | artifactCache _ | wheelCache _ | wheelRunner _ _ | scrapyd _ | http | timeout | redis | os
      | other => trivial
  · refine Prog.Only.bind (Prog.only_call.mpr trivial) fun promoted => ?_
    cases promoted with
    | none => exact uncreating_failRun cmd _ _ _
    | some s => exact uncreating_harmless (harmless_emit _)

theorem uncreating_prepareRun (cmd : AgentCommand) (artifact : ArtifactRef)
    (parsed : Except Detail ParsedScrapyCommand) :
    (prepareRun cfg cmd artifact parsed).Only Uncreating := by
  refine (uncreating_harmless (harmless_emit _)).bind fun _ => ?_
  cases parsed with
  | error detail => exact uncreating_failRun cmd _ _ _
  | ok parsed =>
      show Prog.Only _ (if _ then _ else if _ then _ else if _ then _ else _)
      split
      · exact uncreating_failRun cmd _ _ _
      split
      · exact uncreating_scheduleRun cmd _ _ _
      split
      · exact uncreating_failRun cmd _ _ _
      · have hegg : (ensureEgg cfg artifact).attempt.Only Harmless :=
          ((only_ensureEgg artifact).mono fun _ => harmless_of_cacheOp).attempt
        refine (uncreating_harmless hegg).bind fun r => ?_
        rcases r with err | u
        · cases err with
          | artifactCache detail => exact uncreating_failRun cmd _ _ _
          | wheelCache _ | runner _ | wheelRunner _ _ | scrapyd _ | http | timeout | redis | os
            | other => trivial
        · exact uncreating_scheduleRun cmd _ _ _

theorem uncreating_startWheelRun (cmd : AgentCommand) (installPath : String)
    (context : List (String × String)) :
    (startWheelRun cfg cmd installPath context).Only Uncreating := by
  refine ⟨trivial, fun r => ?_⟩
  rcases r with err | started
  · cases err with
    | wheelRunner errorCode detail => exact uncreating_failRun cmd _ _ _
    | artifactCache _ | wheelCache _ | runner _ | scrapyd _ | http | timeout | redis | os
      | other => trivial
  · refine uncreating_harmless (harmless_step trivial fun promoted => ?_)
    cases promoted with
    | none => exact harmless_step trivial fun _ => harmless_failRun cmd _ _ _
    | some s => exact harmless_step trivial fun _ => (harmless_emit _).bind fun _ =>
        Prog.only_call.mpr trivial

theorem uncreating_prepareWheelRun (cmd : AgentCommand) (artifact : ArtifactRef)
    (context : List (String × String)) :
    (prepareWheelRun cfg cmd artifact context).Only Uncreating := by
  refine (uncreating_harmless (harmless_emit _)).bind fun _ => ?_
  show Prog.Only _ (if _ then _ else if _ then _ else if _ then _ else _)
  split
  · exact uncreating_failRun cmd _ _ _
  split
  · exact uncreating_failRun cmd _ _ _
  split
  · exact uncreating_failRun cmd _ _ _
  · have hwheel : (ensureWheel cfg artifact).attempt.Only Harmless :=
      ((only_ensureWheel artifact).mono fun _ => harmless_of_cacheOp).attempt
    refine (uncreating_harmless hwheel).bind fun r => ?_
    rcases r with err | installPath
    · cases err with
      | wheelCache detail => exact uncreating_failRun cmd _ _ _
      | artifactCache _ | runner _ | wheelRunner _ _ | scrapyd _ | http | timeout | redis | os
        | other => trivial
    · exact uncreating_startWheelRun cmd _ _

end Uncreating

/-! ### What the monitor admits -/

section Watched

variable {cfg : AgentConfig} {e : ExecutionId} {τ : Footing} {α β : Type}

/-- What starts nothing is admitted anywhere. -/
theorem watched_startless {p : AgentProg α} (hp : p.Only Startless) :
    (restartMonitor e).Watched p (fun _ _ => True) τ := by
  refine Monitor.watched_of_only (I := fun _ => True) hp trivial fun τ op r _ hop => ?_
  cases op with
  | createReserved s => exact hop.elim
  | schedule e' project spider version settings args => exact hop.elim
  | wheelStart e' shellCommand installPath workingDir env context => exact hop.elim
  | delete e' =>
      by_cases he : e' = e
      · exact ⟨{ τ with looking := false }, if_pos he, trivial⟩
      · exact ⟨τ, if_neg he, trivial⟩
  | begin cmd => exact ⟨_, rfl, trivial⟩
  | _ => exact ⟨τ, rfl, trivial⟩

/-- A reservation counts for both monitors. -/
theorem next_of_reserved {σ σ' : Standing} {op : AgentOp} {r : Except AgentError op.Res}
    (h : σ.reserved = true → τ.reserved = true) (hop : Uncreating op)
    (hnext : (consumerMonitor e).next σ op r = some σ') :
    ∃ τ', (restartMonitor e).next τ op r = some τ' ∧
      (σ'.reserved = true → τ'.reserved = true) := by
  have hstart : ∀ e', (if e' ≠ e then some σ else if σ.reserved then some {} else none) =
      some σ' → ∃ τ' : Footing, (if e' ≠ e then some τ else if τ.reserved then some {} else none) =
        some τ' ∧ (σ'.reserved = true → τ'.reserved = true) := by
    intro e' hnext
    by_cases he : e' ≠ e
    · rw [if_pos he] at hnext ⊢
      obtain rfl := Option.some.inj hnext
      exact ⟨τ, rfl, h⟩
    rw [if_neg he] at hnext ⊢
    cases hr : σ.reserved with
    | false =>
        rw [hr] at hnext
        cases hnext
    | true =>
        rw [hr] at hnext
        obtain rfl := Option.some.inj hnext
        exact ⟨{}, if_pos (h hr), fun hc => by cases hc⟩
  cases op with
  | createReserved s => exact hop.elim
  | schedule e' project spider version settings args => exact hstart e' hnext
  | wheelStart e' shellCommand installPath workingDir env context => exact hstart e' hnext
  | delete e' =>
      have hsame : σ' = σ := by
        simp only [consumerMonitor] at hnext
        split at hnext
        · cases hnext
        · exact (Option.some.inj hnext).symm
      rw [hsame]
      by_cases he : e' = e
      · exact ⟨{ τ with looking := false }, if_pos he, h⟩
      · exact ⟨τ, if_neg he, h⟩
  | begin cmd =>
      obtain rfl := Option.some.inj hnext
      exact ⟨_, rfl, h⟩
  | mark e' m =>
      refine ⟨τ, rfl, ?_⟩
      cases m with
      | cleanupPending =>
          have hsame : σ' = σ := by
            simp only [consumerMonitor] at hnext
            split at hnext
            · cases hnext
            · exact (Option.some.inj hnext).symm
          rw [hsame]
          exact h
      | _ =>
          obtain rfl := Option.some.inj hnext
          exact h
  | read e' =>
      refine ⟨τ, rfl, ?_⟩
      rcases r with err | - | s
      · obtain rfl := Option.some.inj hnext
        exact h
      · obtain rfl := Option.some.inj hnext
        exact h
      · simp only [consumerMonitor] at hnext
        split at hnext
        · obtain rfl := Option.some.inj hnext
          exact h
        · obtain rfl := Option.some.inj hnext
          exact h
  | _ =>
      obtain rfl := Option.some.inj hnext
      exact ⟨τ, rfl, h⟩

/-- What is admitted behind a reservation, and creates nothing. -/
theorem watched_of_admits {cmd : AgentCommand} {p : AgentProg α}
    (hp : ∀ σ, MayStart e cmd σ → Admits e p σ) (honly : p.Only Uncreating)
    (h : cmd.executionId = e → τ.reserved = true) :
    (restartMonitor e).Watched p (fun _ _ => True) τ := by
  have hadmits := hp { reserved := decide (cmd.executionId = e) } fun he => decide_eq_true he
  refine hadmits.transfer (R := fun σ τ => σ.reserved = true → τ.reserved = true) honly
    (fun hr => h (of_decide_eq_true hr)) ?_
  intro σ τ op r σ' hR hop hnext
  exact next_of_reserved hR hop hnext

/-- Reserving, and what follows it. -/
theorem watched_createReserved {cmd : AgentCommand} {s : AttemptState} {f : Bool → AgentProg β}
    (hs : cmd.executionId = s.executionId) (h : cmd.executionId = e → τ.looking = true)
    (htrue : ∀ τ' : Footing, (cmd.executionId = e → τ'.reserved = true) →
      (restartMonitor e).Watched (f true) (fun _ _ => True) τ')
    (hfalse : ∀ τ', (restartMonitor e).Watched (f false) (fun _ _ => True) τ') :
    (restartMonitor e).Watched (call (.createReserved s) >>= f) (fun _ _ => True) τ := by
  refine Monitor.watched_step fun r => ?_
  by_cases he : s.executionId = e
  · have hnext : (restartMonitor e).next τ (.createReserved s) r = match r with
        | .ok true => some { looking := false, reserved := true }
        | _ => some { τ with looking := false } := by
      show (if _ then _ else if _ then _ else _) = _
      rw [if_neg (not_not.mpr he), if_pos (h (hs.trans he))]
    rcases r with err | - | -
    · exact ⟨_, hnext, fun _ hc => (nomatch hc), fun _ _ => trivial⟩
    · exact ⟨_, hnext, fun _ ha => Except.ok.inj ha ▸ hfalse _, fun _ _ => trivial⟩
    · exact ⟨_, hnext, fun _ ha => Except.ok.inj ha ▸ htrue _ fun _ => rfl, fun _ _ => trivial⟩
  · refine ⟨τ, if_pos he, fun a _ => ?_, fun _ _ => trivial⟩
    cases a with
    | true => exact htrue τ fun hc => (he (hs.symm.trans hc)).elim
    | false => exact hfalse τ

theorem watched_republish (t : TaskId) (e' : ExecutionId) :
    (restartMonitor e).Watched (republishCurrent cfg t e') (fun _ _ => True) τ :=
  watched_startless (startless_harmless (harmless_republishCurrent t e'))

theorem watched_handleRunWheel {cmd : AgentCommand} (h : cmd.executionId = e → τ.looking = true) :
    (restartMonitor e).Watched (handleRunWheel cfg cmd) (fun _ _ => True) τ := by
  refine Monitor.watched_step fun r => ⟨τ, rfl, fun context _ => ?_, fun _ _ => trivial⟩
  exact watched_createReserved rfl h
    (fun _ hτ => watched_of_admits (fun _ hσ => admits_prepareWheelRun hσ)
      (uncreating_prepareWheelRun cmd _ context) hτ)
    fun _ => watched_republish _ _

/-- The handler of a run command creates the state file it has looked for. -/
theorem watched_handleRun {cmd : AgentCommand} (h : cmd.executionId = e → τ.looking = true) :
    (restartMonitor e).Watched (handleRun cfg cmd) (fun _ _ => True) τ := by
  refine Monitor.watched_step fun r => ⟨τ, rfl, fun existing _ => ?_, fun _ _ => trivial⟩
  show Monitor.Watched _ (if _ then _ else if _ then _ else _) _ _
  split
  · exact watched_republish _ _
  split
  · exact watched_handleRunWheel h
  · exact watched_createReserved rfl h
      (fun _ hτ => watched_of_admits (fun _ hσ => admits_prepareRun hσ)
        (uncreating_prepareRun cmd _ _) hτ)
      fun _ => watched_republish _ _

theorem watched_processCommand (cmd : AgentCommand) (τ : Footing) :
    (restartMonitor e).Watched (processCommand cfg cmd) (fun _ _ => True) τ := by
  refine Monitor.watched_step fun r => ⟨_, rfl, fun _ _ => ?_, fun _ _ => trivial⟩
  refine Monitor.Watched.tryFinally (Q := fun _ _ => True) ?_ fun _ σ₂ _ => ?_
  · refine Monitor.Watched.tryCatch (Q := fun _ _ => True) ?_ (fun _ _ _ => trivial)
      fun _ _ _ => Monitor.watched_ret trivial
    unfold handleCommand
    split
    · rename_i htype
      refine watched_handleRun fun he => ?_
      simp [beginsRun, htype, he]
    · exact watched_startless (startless_harmless (harmless_handleStop cmd))
    · exact watched_startless (startless_handleCleanup cmd)
    · exact watched_startless (startless_harmless (harmless_handleStopLogs cmd))
  · have hfinish : (restartMonitor e).Watched (call (.finish cmd)) (fun _ _ => True) σ₂ :=
      watched_startless (Prog.only_call.mpr trivial)
    exact hfinish.mono fun r _ _ => by cases r <;> trivial

end Watched

/-! ### The state file -/

section File

variable {cfg : AgentConfig} {e : ExecutionId} {w w' : AgentWorld} {op : AgentOp}
  {x : AgentAnswer} {r : Except AgentError op.Res} {τ τ' : Footing}

/-- The state file is there, whether it parses or not. -/
def Present (e : ExecutionId) (w : AgentWorld) : Prop :=
  e ∈ w.torn ∨ (w.store.read e).isSome = true

instance (e : ExecutionId) (w : AgentWorld) : Decidable (Present e w) :=
  inferInstanceAs (Decidable (e ∈ w.torn ∨ (w.store.read e).isSome = true))

/-- Only a removal takes the state file away. -/
theorem Present.perform (h : Present e w) (hp : op.perform cfg x w = some (r, w'))
    (hop : op ≠ .delete e) : Present e w' := by
  have heffect : ∀ {w₁}, Effect cfg x w op w₁ → Present e w₁ := by
    intro w₁ heffect
    cases heffect with
    | created s store hstore =>
        refine h.imp_right fun hread => ?_
        show (store.read e).isSome = true
        rw [StateStore.read_createReserved hstore]
        split
        · rfl
        · exact hread
    | torn s => exact h.imp_left fun hin => List.mem_cons_of_mem _ hin
    | marked e' m s hread =>
        refine h.imp_right fun hsome => ?_
        show ((w.store.mark e' m).read e).isSome = true
        by_cases he : e = e'
        · subst he
          rw [StateStore.read_mark_self, hread]
          rfl
        · rw [StateStore.read_mark_ne _ _ he]
          exact hsome
    | deleted e' =>
        have he : e ≠ e' := fun hc => hop (congrArg _ hc.symm)
        refine h.imp (fun hin => ?_) fun hread => ?_
        · exact List.mem_filter.mpr ⟨hin, by simpa using he⟩
        · show ((w.store.delete e').read e).isSome = true
          rw [StateStore.read_delete_ne _ he]
          exact hread
    | _ => exact h
  obtain ⟨w₁, heffect₁, rfl | ⟨y, rfl⟩⟩ := perform_leads hp
  · exact heffect heffect₁
  · have hpresent : Present e w₁ := heffect heffect₁
    exact hpresent

/-- A file that is there is not created again. -/
theorem Present.not_created {s : AttemptState} {r : Except AgentError Bool}
    (h : Present s.executionId w)
    (hp : AgentOp.perform cfg (.createReserved s) x w = some (r, w')) : r ≠ .ok true := by
  simp only [AgentOp.perform] at hp
  split at hp
  · cases hp
    exact fun hc => by cases hc
  rename_i htorn
  have hstore : w.store.createReserved s = none := by
    obtain ⟨s', hs'⟩ := Option.isSome_iff_exists.mp (h.resolve_left htorn)
    unfold StateStore.createReserved
    rw [show w.store.get s.executionId = some s' from hs']
  rw [hstore] at hp
  cases hp
  exact fun hc => by cases hc

/-! ### The invariant -/

/-- A property of the world that only a start of the execution brings about. -/
structure Lasting (cfg : AgentConfig) (e : ExecutionId) (B : AgentWorld → Prop) : Prop where
  move : ∀ w m, B (w.move m) → B w
  crash : ∀ w, B w.crash → B w
  op : ∀ op x r w w', AgentOp.perform cfg op x w = some (r, w') → startsRun e op = false →
    B w' → B w

/-- Once `B` holds, the consumer looks for the state file only where there is one, and
holds no reservation. -/
structure Barred (B : AgentWorld → Prop) (e : ExecutionId) (w : AgentWorld) (τ : Footing) :
    Prop where
  looking : B w → τ.looking = true → Present e w
  reserved : B w → τ.reserved = false

/-- A run command of the execution is begun only where the state file is there, once `B`
holds. -/
def Remembered (e : ExecutionId) (B : AgentWorld → Prop) : Cond where
  env _ _ := True
  launch _ _ _ := True
  op op _ w := beginsRun e op = true → B w → Present e w
  crash _ := True

instance (e : ExecutionId) (B : AgentWorld → Prop) [DecidablePred B] (s : State) (a : Action) :
    Decidable ((Remembered e B).Holds s a) :=
  have _ : ∀ w a, Decidable ((Remembered e B).env w a) := fun _ _ => .isTrue trivial
  have _ : ∀ w i inp, Decidable ((Remembered e B).launch w i inp) := fun _ _ _ => .isTrue trivial
  have _ : ∀ op x w, Decidable ((Remembered e B).op op x w) := fun op _ w =>
    inferInstanceAs (Decidable (beginsRun e op = true → B w → Present e w))
  have _ : ∀ w, Decidable ((Remembered e B).crash w) := fun _ => .isTrue trivial
  inferInstance

namespace Barred

variable {B : AgentWorld → Prop}

theorem init : Barred B e w {} where
  looking _ hc := by cases hc
  reserved _ := rfl

/-- A step that starts nothing and leaves the file alone. -/
theorem same (h : Barred B e w τ) (hB : B w' → B w) (hpresent : Present e w → Present e w') :
    Barred B e w' τ where
  looking hb hlook := hpresent (h.looking (hB hb) hlook)
  reserved hb := h.reserved (hB hb)

/-- The consumer no longer looks for the file. -/
theorem looked (h : Barred B e w τ) (hB : B w' → B w) : Barred B e w' { τ with looking := false }
    where
  looking _ hc := by cases hc
  reserved hb := h.reserved (hB hb)

/-- The consumer does what its monitor admits. -/
theorem consumer (hlast : Lasting cfg e B) (h : Barred B e w τ)
    (hK : (Remembered e B).op op x w) (hp : op.perform cfg x w = some (r, w'))
    (hnext : (restartMonitor e).next τ op r = some τ') : Barred B e w' τ' := by
  have hstart : ∀ {e'}, startsRun e op = decide (e' = e) →
      (if e' ≠ e then some τ else if τ.reserved then some {} else none) = some τ' →
      op ≠ .delete e → Barred B e w' τ' := by
    intro e' hstarts hnext hop
    by_cases he : e' ≠ e
    · rw [if_pos he] at hnext
      obtain rfl := Option.some.inj hnext
      rw [decide_eq_false he] at hstarts
      exact h.same (hlast.op op x r w w' hp hstarts) fun hf => hf.perform hp hop
    · rw [if_neg he] at hnext
      split at hnext
      · obtain rfl := Option.some.inj hnext
        exact .init
      · cases hnext
  cases op with
  | schedule e' project spider version settings args =>
      exact hstart rfl hnext fun hc => by cases hc
  | wheelStart e' shellCommand installPath workingDir env context =>
      exact hstart rfl hnext fun hc => by cases hc
  | createReserved s =>
      have hB := hlast.op _ x r w w' hp rfl
      by_cases he : s.executionId = e
      swap
      · obtain rfl : τ = τ' := Option.some.inj ((if_pos he).symm.trans hnext)
        exact h.same hB fun hf => hf.perform hp fun hc => by cases hc
      replace hnext := (if_neg (not_not.mpr he)).symm.trans hnext
      split at hnext
      swap
      · cases hnext
      rename_i hlook
      subst he
      rcases r with err | - | -
      · obtain rfl := Option.some.inj hnext
        exact h.looked hB
      · obtain rfl := Option.some.inj hnext
        exact h.looked hB
      · obtain rfl := Option.some.inj hnext
        have hnot : ¬ B w' := fun hb => (h.looking (hB hb) hlook).not_created hp rfl
        exact ⟨fun hb => (hnot hb).elim, fun hb => (hnot hb).elim⟩
  | delete e' =>
      have hB := hlast.op _ x r w w' hp rfl
      by_cases he : e' = e
      · obtain rfl := Option.some.inj ((if_pos he).symm.trans hnext)
        exact h.looked hB
      · obtain rfl : τ = τ' := Option.some.inj ((if_neg he).symm.trans hnext)
        refine h.same hB fun hf => hf.perform hp fun hc => he ?_
        exact AgentOp.delete.inj hc
  | begin cmd =>
      have hB := hlast.op _ x r w w' hp rfl
      obtain rfl := Option.some.inj hnext
      refine ⟨fun hb hlook => ?_, fun hb => h.reserved (hB hb)⟩
      have hpresent : Present e w := hK hlook (hB hb)
      exact hpresent.perform hp fun hc => by cases hc
  | _ =>
      obtain rfl := Option.some.inj hnext
      exact h.same (hlast.op _ x r w w' hp rfl) fun hf => hf.perform hp fun hc => by cases hc

end Barred

end File

/-! ### Runs -/

section Runs

variable {cfg : AgentConfig} {kind : ExecutionId → RunnerType} {e : ExecutionId}
  {B : AgentWorld → Prop}

/-- The condition where less is barred. -/
theorem remembered_of {B' : AgentWorld → Prop} {s : State} {a : Action}
    (h : (Remembered e B).Holds s a) (hB : B' s.world → B s.world) :
    (Remembered e B').Holds s a := by
  cases a with
  | op i x =>
      simp only [Sys.Cond.Holds] at h ⊢
      split at h
      · exact fun hbegins hb => h hbegins (hB hb)
      · trivial
  | env m => trivial
  | start i inp => trivial
  | crash => trivial

/-- The action starts the execution. -/
def starts (e : ExecutionId) (s : State) : Action → Bool
  | .op i _ =>
      match s.procs i with
      | some (.act op _) => startsRun e op
      | _ => false
  | _ => false

/-- A waiter creates, starts and removes nothing. -/
theorem restartWatched_waiter {p : AgentProg Unit} {child : Nat} {σ : Standing} {τ : Footing}
    (h : waiterMonitor.Watched p (fun _ _ => True) σ) :
    (restartMonitorOf e (.waiter child)).Watched p (fun _ _ => True) τ := by
  refine h.transfer (R := fun _ _ => True) (Prog.only_true p) trivial ?_
  intro σ τ op r σ' _ _ hnext
  cases op with
  | createReserved s => cases hnext
  | schedule e' project spider version settings args => cases hnext
  | wheelStart e' shellCommand installPath workingDir env context => cases hnext
  | delete e' => cases hnext
  | _ => exact ⟨τ, rfl, trivial⟩

theorem restartWatched_consumer {w : AgentWorld} {inp : Launch} {p : AgentProg Unit}
    (hp : launch cfg kind w .consumer inp = some p) :
    (restartMonitor e).Watched p (fun _ _ => True) {} := by
  cases inp with
  | boot =>
      simp only [launch] at hp
      split at hp
      · cases hp
      · obtain rfl := Option.some.inj hp
        exact watched_startless (startless_harmless harmless_agentBoot)
  | tick =>
      simp only [launch] at hp
      split at hp
      · obtain rfl := Option.some.inj hp
        exact watched_startless startless_agentTick
      · cases hp
  | command cmd =>
      simp only [launch] at hp
      split at hp
      · obtain rfl := Option.some.inj hp
        exact watched_processCommand cmd {}
      · cases hp
  | wait => cases hp

/-- What a waiter does leaves everything as it is. -/
theorem Barred.waiter {w w' : AgentWorld} {τ υ υ' : Footing} {op : AgentOp} {x : AgentAnswer}
    {r : Except AgentError op.Res} {child : Nat} (hlast : Lasting cfg e B) (h : Barred B e w τ)
    (hp : op.perform cfg x w = some (r, w'))
    (hnext : (restartMonitorOf e (.waiter child)).next υ op r = some υ') : Barred B e w' τ := by
  have hspares : startsRun e op = false ∧ op ≠ .delete e := by
    cases op with
    | createReserved s | schedule e' project spider version settings args
    | wheelStart e' shellCommand installPath workingDir env context | delete e' => cases hnext
    | _ => exact ⟨rfl, fun hc => by cases hc⟩
  exact h.same (hlast.op op x r w w' hp hspares.1) fun hf => hf.perform hp hspares.2

theorem barred_tallied (cfg : AgentConfig) (kind : ExecutionId → RunnerType) (e : ExecutionId)
    (hlast : Lasting cfg e B) :
    Sys.Tallied (spec cfg kind) (Remembered e B) (restartMonitorOf e) (fun _ => 0)
      fun w σ _ => Barred B e w (σ .consumer) where
  launch_watched w i inp p _ hp :=
    match i, hp with
    | .consumer, hp => restartWatched_consumer hp
    | .waiter _, hp => restartWatched_waiter (watched_waiter hp {})
  start w σ n i h :=
    match i with
    | .consumer => .init
    | .waiter _ => h
  env w σ n m w' h _ hm := by
    obtain rfl := Option.some.inj hm
    refine h.same (hlast.move w m) fun hpresent => ?_
    cases m <;> exact hpresent
  op w σ n i op x r w' σ' h hK hp hnext :=
    match i, hnext with
    | .consumer, hnext => h.consumer hlast hK hp hnext
    | .waiter _, hnext => h.waiter hlast hp hnext
  crash _ _ _ _ _ := .init

/-- **An execution that is barred is not started.**  From wherever the consumer is idle,
in every run in which a run command of it is begun only where its state file is. -/
theorem not_started (hlast : Lasting cfg e B) {s₀ s s' : State} {a : Action}
    (h₀ : StateMachine.Run (step cfg kind) start s₀) (hidle : s₀.procs .consumer = none)
    (h : StateMachine.RunOk (step cfg kind) (Remembered e B).Holds s₀ s)
    (hstep : step cfg kind s a = some s') (hB : B s.world) : starts e s a = false := by
  have hwatch₀ : Sys.Watching (restartMonitorOf e) s₀ fun _ => {} := by
    intro i p hp
    cases i with
    | consumer =>
        rw [hidle] at hp
        cases hp
    | waiter child =>
        exact restartWatched_waiter ((watching_of_run h₀ hidle e).2 (.waiter child) p hp)
  obtain ⟨n, hcounted⟩ : ∃ n, StateMachine.RunOk (Sys.countedStep (spec cfg kind) fun _ => 0)
      (fun t => (Remembered e B).Holds t.1) (s₀, 0) (s, n) := h.exists_counted 0
  obtain ⟨σ, hwatch, hbarred⟩ := Sys.watched_run (barred_tallied cfg kind e hlast) hwatch₀
    .init hcounted
  cases a with
  | op i x =>
      simp only [step, Sys.step] at hstep
      split at hstep
      swap
      · cases hstep
      rename_i op k hproc
      obtain ⟨⟨r, w⟩, hp, -⟩ := Option.map_eq_some_iff.mp hstep
      simp only [starts, hproc]
      obtain ⟨τ, hnext, -⟩ := Monitor.watched_act.mp (hwatch i _ hproc) r
      have hreserved := hbarred.reserved hB
      have hrefused : ∀ e', (if e' ≠ e then some (σ .consumer)
          else if (σ .consumer).reserved then some {} else none) = some τ →
          decide (e' = e) = false := by
        intro e' hnext
        by_cases he : e' = e
        · rw [if_neg (not_not.mpr he), hreserved] at hnext
          cases hnext
        · exact decide_eq_false he
      cases i with
      | consumer =>
          cases op with
          | schedule e' project spider version settings args => exact hrefused e' hnext
          | wheelStart e' shellCommand installPath workingDir env context =>
              exact hrefused e' hnext
          | _ => rfl
      | waiter child =>
          cases op with
          | schedule e' project spider version settings args => cases hnext
          | wheelStart e' shellCommand installPath workingDir env context => cases hnext
          | _ => rfl
  | env m => rfl
  | start i inp => rfl
  | crash => rfl

end Runs

end Agent

end Dopilot
