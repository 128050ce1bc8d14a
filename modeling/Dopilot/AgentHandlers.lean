/-
Dopilot/AgentHandlers.lean

The command handlers keep to the rules.

A handler has its command in hand and the lock of its execution (`InHand`) from
`begin` to `finish`, whatever happens in between.  A run handler owns the state
file it has reserved: it starts it or reports it failed.  What the handler of a
cancel leaves is `Answered`: a canceled event, a stop whose watchdog will report
one, or the reclaim that was there before.
-/
import Dopilot.AgentTicks

namespace Dopilot

namespace Agent

open AgentOp (call ask)

/-! ### A command in hand -/

/-- The consumer handles the command. -/
structure InHand (w : AgentWorld) (cmd : AgentCommand) : Prop where
  handling : w.handling = some cmd
  lock : w.locks cmd.executionId = some .consumer
  running : w.running = true

namespace InHand

variable {kind : ExecutionId → RunnerType} {w w' : AgentWorld} {cmd : AgentCommand}

theorem goes (h : InHand w cmd) (hgoes : Goes kind w w') : InHand w' cmd where
  handling := hgoes.handling.trans h.handling
  lock := hgoes.lock _ h.lock
  running := hgoes.running.trans h.running

theorem rely (h : InHand w cmd) (hw : Rely kind .consumer w w') : InHand w' cmd := h.goes hw.goes

theorem holds (h : InHand w cmd) : Holds kind w .consumer cmd.executionId := .inr (.inl h.lock)

theorem of_type {type : AgentCommandType} (h : InHand w cmd) (htype : cmd.type = type) :
    Handling w cmd.executionId type := ⟨cmd, h.handling, rfl, htype⟩

theorem stopping {intent : StopIntent} (h : InHand w cmd) (htype : cmd.type = .stop)
    (hintent : intent = .cancel ↔ cmd.intent = some .cancel) :
    Stopping w cmd.executionId intent := ⟨cmd, h.handling, rfl, htype, hintent⟩

end InHand

/-- What a part of a handler leads to, whatever it raises. -/
def Leaves (kind : ExecutionId → RunnerType) (e : ExecutionId) (w : AgentWorld) {α : Type}
    (R : α → AgentWorld → Prop) : Except AgentError α → AgentWorld → Prop
  | .ok a, w' => Touches kind e w w' ∧ R a w'
  | .error _, w' => Touches kind e w w'

/-- What a part of a handler that touches nothing leads to. -/
def Quiet (kind : ExecutionId → RunnerType) (w : AgentWorld) {α : Type}
    (R : α → AgentWorld → Prop) (r : Except AgentError α) (w' : AgentWorld) : Prop :=
  Rely kind .consumer w w' ∧ ∀ a, r = .ok a → R a w'

section Handlers

variable {α β : Type} {cfg : AgentConfig} {kind : ExecutionId → RunnerType} {K : Cond}
  {w : AgentWorld} {e : ExecutionId} {n : Nat} {s : AttemptState} {cmd : AgentCommand}

theorem Leaves.after {w₁ w' : AgentWorld} {R : α → AgentWorld → Prop} {r : Except AgentError α}
    (h : Leaves kind e w₁ R r w') (hw₁ : Touches kind e w w₁) : Leaves kind e w R r w' := by
  cases r with
  | ok a => exact ⟨hw₁.trans h.1, h.2⟩
  | error err => exact hw₁.trans h

theorem Leaves.touches {w' : AgentWorld} {R : α → AgentWorld → Prop} {r : Except AgentError α}
    (h : Leaves kind e w R r w') : Touches kind e w w' := by
  cases r with
  | ok a => exact h.1
  | error err => exact h

theorem Ends.leaves {w' : AgentWorld} {R : α → AgentWorld → Prop} {r : Except AgentError α}
    (h : Ends cfg kind e n w R r w') : Leaves kind e w R r w' := by
  cases r with
  | ok a => exact h
  | error err => exact h.1

/-- Sequencing after a part about the same execution. -/
theorem leaves_bind {p : AgentProg α} {f : α → AgentProg β} {R : α → AgentWorld → Prop}
    {R' : β → AgentWorld → Prop} (hp : Follows cfg kind K .consumer p (Leaves kind e w R) w)
    (hok : ∀ a w', Touches kind e w w' → R a w' →
      Follows cfg kind K .consumer (f a) (Leaves kind e w' R') w') :
    Follows cfg kind K .consumer (p >>= f) (Leaves kind e w R') w := by
  refine follows_bind hp (fun a w' h => ?_) fun err w' h => h
  exact (hok a w' h.1 h.2).mono fun r w'' hr => hr.after h.1

/-- Sequencing after a part that touches nothing. -/
theorem leaves_quiet {p : AgentProg α} {f : α → AgentProg β} {R : α → AgentWorld → Prop}
    {R' : β → AgentWorld → Prop} (hp : Follows cfg kind K .consumer p (Quiet kind w R) w)
    (hok : ∀ a w', Rely kind .consumer w w' → R a w' →
      Follows cfg kind K .consumer (f a) (Leaves kind e w' R') w') :
    Follows cfg kind K .consumer (p >>= f) (Leaves kind e w R') w := by
  refine follows_bind hp (fun a w' h => ?_) fun err w' h => h.1.touches e
  exact (hok a w' h.1 (h.2 a rfl)).mono fun r w'' hr => hr.after (h.1.touches e)

/-- A part that touches nothing, and whose error is looked at. -/
theorem leaves_attempt {p : AgentProg α} {f : Except AgentError α → AgentProg β}
    {R : α → AgentWorld → Prop} {R' : β → AgentWorld → Prop}
    (hp : Follows cfg kind K .consumer p (Quiet kind w R) w)
    (hok : ∀ r w', Rely kind .consumer w w' → (∀ a, r = .ok a → R a w') →
      Follows cfg kind K .consumer (f r) (Leaves kind e w' R') w') :
    Follows cfg kind K .consumer (p.attempt >>= f) (Leaves kind e w R') w := by
  refine leaves_quiet (R := fun r w' => ∀ a, r = .ok a → R a w') ?_ hok
  refine follows_attempt (hp.mono fun r w' h => ⟨h.1, fun r' hr => ?_⟩)
  obtain rfl := Except.ok.inj hr
  exact h.2

/-- A silent operation of a handler. -/
theorem quiet_call {op : AgentOp} (hop : Silent op)
    (hmay : ∀ w₁, Rely kind .consumer w w₁ → May cfg kind K .consumer w₁ op) :
    Follows cfg kind K .consumer (call op)
      (Quiet kind w fun a w' => ∃ w₁ x, Rely kind .consumer w w₁ ∧ Inv cfg kind w₁ ∧
        op.perform cfg x w₁ = some (.ok a, w')) w := by
  refine follows_call fun w₁ hw₁ hinv => ⟨hmay w₁ hw₁, fun x r w₂ _ hp => ?_⟩
  refine ⟨hw₁.trans (Rely.silent hinv hp hop), fun a hr => ?_⟩
  subst hr
  exact ⟨w₁, x, hw₁, hinv, hp⟩

/-- A silent operation, and what follows it. -/
theorem leaves_step {op : AgentOp} {f : op.Res → AgentProg β} {R : β → AgentWorld → Prop}
    (hop : Silent op) (hmay : ∀ w₁, Rely kind .consumer w w₁ → May cfg kind K .consumer w₁ op)
    (hok : ∀ a w', Rely kind .consumer w w' →
      Follows cfg kind K .consumer (f a) (Leaves kind e w' R) w') :
    Follows cfg kind K .consumer (call op >>= f) (Leaves kind e w R) w :=
  leaves_quiet (quiet_call hop hmay) fun a w' hw' _ => hok a w' hw'

/-- A mark of a handler. -/
theorem leaves_mark {m : Mark} {f : Option AttemptState → AgentProg β}
    {R : β → AgentWorld → Prop} (hheld : Holds kind w .consumer e)
    (hread : w.store.read e = some s)
    (hmay : ∀ w₁, Rely kind .consumer w w₁ → MayMark cfg kind K .consumer w₁ e s m)
    (h : ∀ w', Touches kind e w w' → w'.store.read e = some (m.apply s) →
      Follows cfg kind K .consumer (f (some (m.apply s))) (Leaves kind e w' R) w') :
    Follows cfg kind K .consumer (call (.mark e m) >>= f) (Leaves kind e w R) w := by
  refine leaves_bind ((mark_ends (n := 0) hheld hread (Nat.zero_le _) hmay).mono
    fun _ _ h => h.1.leaves) ?_
  rintro _ w' hw' ⟨rfl, hread'⟩
  exact h w' hw' hread'

/-- An event of a handler. -/
theorem quiet_emit {ev : AgentEvent}
    (hmay : ev.type.isTerminal = true → ∀ w₁, Rely kind .consumer w w₁ →
      Holds kind w₁ .consumer ev.executionId ∧
        Reports kind K w₁ ev (w₁.store.read ev.executionId)) :
    Follows cfg kind K .consumer (emit cfg ev) (Quiet kind w fun _ _ => True) w := by
  refine (emit_follows (n := 0) (k := 0) (Nat.zero_le _) (Nat.zero_le _) hmay).mono ?_
  rintro r w' ⟨hw', -⟩
  exact ⟨hw', fun _ _ => trivial⟩

theorem Quiet.leaves {w' : AgentWorld} {R : α → AgentWorld → Prop} {r : Except AgentError α}
    (h : Quiet kind w R r w') : Leaves kind e w R r w' := by
  cases r with
  | ok a => exact ⟨h.1.touches e, h.2 a rfl⟩
  | error err => exact h.1.touches e

/-! ### The artifact caches -/

/-- The operations of the caches. -/
def CacheOp (op : AgentOp) : Prop := ∃ hash step, op = .cache hash step

theorem only_cache (hash : String) (step : CacheStep) :
    (call (.cache hash step) : AgentProg Bool).Only CacheOp :=
  Prog.only_call.mpr ⟨hash, step, rfl⟩

theorem only_fetchEgg (hash : String) : (fetchEgg hash).Only CacheOp := by
  refine (only_cache hash .unlinkTmp).bind fun _ => ⟨⟨hash, .fetch, rfl⟩, fun r => ?_⟩
  cases r with
  | error err => cases err <;> trivial
  | ok u =>
      refine (only_cache hash .writeTmp).bind fun _ => (only_cache hash .digestMatches).bind
        fun good => ?_
      cases good with
      | true => exact (only_cache hash .replace).bind fun _ => trivial
      | false => exact (only_cache hash .unlinkTmp).bind fun _ => trivial

theorem only_deployEgg (hash : String) : (deployEgg hash).Only CacheOp := by
  refine (only_cache hash .readBytes).bind fun _ => ⟨⟨hash, .addversion, rfl⟩, fun r => ?_⟩
  cases r with
  | error err => cases err <;> trivial
  | ok u => trivial

theorem only_fetchVerifyDeploy (hash : String) : (fetchVerifyDeploy hash).Only CacheOp := by
  refine (only_cache hash .isCached).bind fun cached => ?_
  cases cached with
  | true => exact only_deployEgg hash
  | false => exact (only_fetchEgg hash).bind fun _ => only_deployEgg hash

theorem only_pipInstall (hash : String) : (pipInstall hash).Only CacheOp := by
  refine ⟨⟨hash, .launchPip, rfl⟩, fun r => ?_⟩
  cases r with
  | error err => cases err <;> trivial
  | ok u =>
      refine ⟨⟨hash, .waitPip, rfl⟩, fun r => ?_⟩
      cases r with
      | error err =>
          cases err with
          | timeout => exact (only_cache hash .killPip).bind fun _ => trivial
          | artifactCache _ | wheelCache _ | runner _ | wheelRunner _ _ | scrapyd _ | http | redis
            | os | other => trivial
      | ok u =>
          refine (only_cache hash .pipSucceeded).bind fun good => ?_
          cases good <;> trivial

theorem only_fetchWheel (hash : String) : (fetchWheel hash).Only CacheOp := by
  refine (only_cache hash .unlinkTmp).bind fun _ => ⟨⟨hash, .fetch, rfl⟩, fun r => ?_⟩
  cases r with
  | error err => cases err <;> trivial
  | ok u =>
      refine (only_cache hash .digestMatches).bind fun good => ?_
      cases good with
      | true =>
          exact (only_cache hash .writeTmp).bind fun _ =>
            (only_cache hash .replace).bind fun _ => trivial
      | false => trivial

theorem only_fetchVerifyInstall (hash : String) : (fetchVerifyInstall hash).Only CacheOp := by
  have hinstall : (installWheel hash).Only CacheOp :=
    (only_cache hash .mkdirSite).bind fun _ => only_pipInstall hash
  refine (only_cache hash .isCached).bind fun cached => ?_
  cases cached with
  | true => exact hinstall
  | false => exact (only_fetchWheel hash).bind fun _ => hinstall

theorem only_awaitArtifact {hash : String} {obtain_ : AgentProg Unit} {timedOut : AgentError}
    (hobtain : obtain_.Only CacheOp) (polls : Nat) :
    (awaitArtifact hash obtain_ timedOut polls).Only CacheOp := by
  induction polls with
  | zero => trivial
  | succ polls ih =>
      refine (only_cache hash .isReady).bind fun ready => ?_
      cases ready with
      | true => trivial
      | false =>
          refine (only_cache hash .tryLock).bind fun locked => ?_
          cases locked with
          | true =>
              refine Prog.Only.tryFinally ?_ ?_
              · exact hobtain.bind fun _ => (only_cache hash .writeReady).bind fun _ => trivial
              · exact (only_cache hash .closeLock).bind fun _ =>
                  (only_cache hash .unlinkLock).bind fun _ => trivial
          | false =>
              refine (only_cache hash .timedOut).bind fun late => ?_
              cases late with
              | true => trivial
              | false => exact (only_cache hash .sleep).bind fun _ => ih

theorem only_ensureArtifact {hash : String} {obtain_ : AgentProg Unit} {timedOut : AgentError}
    (hobtain : obtain_.Only CacheOp) : (ensureArtifact cfg hash obtain_ timedOut).Only CacheOp := by
  refine (only_cache hash .mkdir).bind fun _ => (only_cache hash .isReady).bind fun ready => ?_
  cases ready with
  | true =>
      refine ⟨⟨hash, .touchReady, rfl⟩, fun r => ?_⟩
      cases r with
      | error err => cases err <;> trivial
      | ok u => trivial
  | false => exact only_awaitArtifact hobtain _

theorem only_ensureEgg (artifact : ArtifactRef) : (ensureEgg cfg artifact).Only CacheOp := by
  unfold ensureEgg
  split
  · trivial
  · split
    · trivial
    · exact only_ensureArtifact (only_fetchVerifyDeploy _)

theorem only_ensureWheel (artifact : ArtifactRef) : (ensureWheel cfg artifact).Only CacheOp := by
  unfold ensureWheel
  split
  · trivial
  · exact (only_ensureArtifact (only_fetchVerifyInstall _)).bind fun _ => trivial

/-- The caches touch no state file. -/
theorem cache_follows {p : AgentProg α} (hp : p.Only CacheOp) :
    Follows cfg kind K .consumer p (Quiet kind w fun _ _ => True) w := by
  refine Prog.Safe.mono (Q := fun _ w' => Rely kind .consumer w w') ?_
    fun r w' hw' => ⟨hw', fun _ _ => trivial⟩
  refine hp.safe (R := Rely kind .consumer) Rely.trans (fun _ _ h => h) ?_ (.refl _ w)
  rintro op x w₁ r w₂ ⟨hash, step, rfl⟩ ⟨hK, hinv⟩ hperf
  have hp : AgentOp.perform cfg (.cache hash step) x w₁ = some (r, w₂) := hperf
  exact ⟨⟨_, x, r, hK, hp, trivial⟩, Rely.silent hinv hp trivial⟩

/-! ### Runs -/

/-- The handler has reserved the state file. -/
structure Reserving (kind : ExecutionId → RunnerType) (w : AgentWorld) (e : ExecutionId)
    (s : AttemptState) : Prop where
  held : Holds kind w .consumer e
  read : w.store.read e = some s
  phase : s.phase = .reserved
  reserving : w.reserving = some e
  sound : Sound (kind e) e s

theorem Reserving.rely {w' : AgentWorld} (h : Reserving kind w e s)
    (hw : Rely kind .consumer w w') : Reserving kind w' e s where
  held := hw.holds e h.held
  read := (hw.read e h.held).trans h.read
  phase := h.phase
  reserving := (hw.mine rfl).reserving.trans h.reserving
  sound := h.sound

theorem failRun_follows {errorCode : String} {detail : Detail} {lostReason : Option LostReason}
    (h : Reserving kind w cmd.executionId s) :
    Follows cfg kind K .consumer (failRun cfg cmd errorCode detail lostReason)
      (Leaves kind cmd.executionId w fun _ _ => True) w := by
  refine leaves_mark h.held h.read (fun w₁ hw₁ => ?_) fun w₁ hw₁ hread₁ => ?_
  · exact .failed errorCode lostReason h.phase (h.rely hw₁).reserving
  have hheld₁ := hw₁.holds _ h.held
  obtain ⟨⟨h₁, h₂, h₃, h₄⟩, -⟩ := h.sound.reserved h.phase
  refine (quiet_emit fun _ w₂ hw₂ => ?_).mono fun r w₂ h => h.leaves
  show Holds kind w₂ .consumer cmd.executionId ∧
    Reports kind K w₂ _ (w₂.store.read cmd.executionId)
  rw [hw₂.read _ hheld₁, hread₁]
  exact ⟨hw₂.holds _ hheld₁, .recorded _ rfl
    ⟨⟨.failed, rfl, rfl⟩, rfl, h₁.symm, h₂.symm, h₃.symm, h₄.symm⟩⟩

/-- What the handler knows of a job it has just scheduled. -/
def Scheduled (w : AgentWorld) (e : ExecutionId) (job : JobId) : Prop :=
  (job < w.nextJob ∧ ∃ j, w.jobs.get job = some j ∧ j.executionId = e) ∧
    ∀ g ∈ w.signals, g.job ≠ some job

theorem Scheduled.rely {w' : AgentWorld} {job : JobId} (h : Scheduled w e job)
    (hw : Rely kind .consumer w w') : Scheduled w' e job := by
  obtain ⟨⟨hlt, j, hj, hid⟩, hsignals⟩ := h
  obtain ⟨j', hj', hid'⟩ := hw.mono.jobs job j hj
  refine ⟨⟨hlt.trans_le hw.mono.nextJob, j', hj', hid'.trans hid⟩, ?_⟩
  rw [(hw.mine rfl).signals]
  exact hsignals

theorem runnerSchedule_follows {project spider : String} {version : Option String}
    {settings args : List (String × String)} :
    Follows cfg kind K .consumer (runnerSchedule e project spider version settings args)
      (Quiet kind w fun job w' => Scheduled w' e job) w := by
  refine follows_bind (P := fun r w' => Rely kind .consumer w w' ∧ ∃ res, r = .ok res ∧
    ∀ job, res = .ok job → Scheduled w' e job) ?_ ?_ ?_
  · refine follows_ask fun w₁ hw₁ hinv => ⟨rfl, fun x r w₂ _ hp => ?_⟩
    refine ⟨hw₁.trans (Rely.silent hinv hp trivial), r, rfl, fun job hr => ?_⟩
    subst hr
    rcases AgentWorld.fallible_cases hp with ⟨-, hjob, rfl⟩ | ⟨err, -, -, hc, -⟩
    · obtain rfl := Except.ok.inj hjob
      have hfresh : w₁.jobs.get w₁.nextJob = none := by
        cases hget : w₁.jobs.get w₁.nextJob with
        | none => rfl
        | some j => exact absurd (hinv.jobs _ j hget) (lt_irrefl _)
      refine ⟨⟨Nat.lt_succ_self _, { executionId := e, project := project }, ?_, rfl⟩, ?_⟩
      · show (w₁.jobs.insert w₁.nextJob _).get w₁.nextJob = _
        rw [Table.get_insert w₁.jobs _ hfresh, if_pos rfl]
      · -- signals go to jobs that were scheduled before
        intro g hg hjob'
        exact absurd (hinv.signals g hg _ hjob') (lt_irrefl _)
    · cases hc
  · rintro res w₁ ⟨hw₁, res', hres, hjob⟩
    obtain rfl := Except.ok.inj hres
    rcases res with err | job
    · cases err <;> exact ⟨hw₁, fun _ hc => by cases hc⟩
    · refine ⟨hw₁, fun job' hjob' => ?_⟩
      obtain rfl := Except.ok.inj hjob'
      exact hjob job rfl
  · rintro err w' ⟨-, _, hc, -⟩
    cases hc

theorem runtimeContextEnv_follows (payload : CommandPayload) :
    Follows cfg kind K .consumer (runtimeContextEnv payload) (Quiet kind w fun _ _ => True) w := by
  have hcall : Follows cfg kind K .consumer (call (.validate payload.runtimeContext)) _ w :=
    quiet_call trivial fun _ _ => trivial
  exact hcall.mono fun _ _ h => ⟨h.1, fun _ _ => trivial⟩

theorem scheduleRun_follows {project : String} {version : Option String}
    {parsed : ParsedScrapyCommand} (hkind : kind cmd.executionId = .scrapy)
    (h : Reserving kind w cmd.executionId s) :
    Follows cfg kind K .consumer (scheduleRun cfg cmd project version parsed)
      (Leaves kind cmd.executionId w fun _ _ => True) w := by
  refine leaves_quiet (runtimeContextEnv_follows cmd.payload) fun context w₁ hw₁ _ => ?_
  have h₁ := h.rely hw₁
  refine leaves_attempt runnerSchedule_follows fun res w₂ hw₂ hjob => ?_
  have h₂ := h₁.rely hw₂
  rcases res with err | job
  · cases err with
    | runner detail => exact failRun_follows h₂
    | artifactCache _ | wheelCache _ | wheelRunner _ _ | scrapyd _ | http | timeout | redis | os
      | other => exact .refl _ w₂
  · have hscheduled := hjob job rfl
    refine leaves_mark h₂.held h₂.read (fun w₃ hw₃ => ?_) fun w₃ hw₃ hread₃ => ?_
    · obtain ⟨hknown, hsignals⟩ := hscheduled.rely hw₃
      exact .promoteStarted job _ hkind h.phase (h₂.rely hw₃).reserving hknown hsignals
    · exact (quiet_emit fun hc => by cases hc).mono fun r w₄ hq => hq.leaves

theorem prepareRun_follows {artifact : ArtifactRef} {parsed : Except Detail ParsedScrapyCommand}
    (hkind : kind cmd.executionId = .scrapy) (h : Reserving kind w cmd.executionId s) :
    Follows cfg kind K .consumer (prepareRun cfg cmd artifact parsed)
      (Leaves kind cmd.executionId w fun _ _ => True) w := by
  refine leaves_quiet (quiet_emit fun hc => by cases hc) fun _ w₁ hw₁ _ => ?_
  have h₁ := h.rely hw₁
  rcases parsed with detail | parsed
  · exact failRun_follows h₁
  show Follows cfg kind K .consumer (if artifact.project = "" then _ else
    if artifact.hash = none then _ else if cfg.artifactCache = false then _ else _) _ w₁
  split
  · exact failRun_follows h₁
  split
  · exact scheduleRun_follows hkind h₁
  split
  · exact failRun_follows h₁
  refine leaves_attempt (cache_follows (only_ensureEgg artifact)) fun res w₂ hw₂ _ => ?_
  have h₂ := h₁.rely hw₂
  rcases res with err | u
  · cases err with
    | artifactCache detail => exact failRun_follows h₂
    | runner _ | wheelCache _ | wheelRunner _ _ | scrapyd _ | http | timeout | redis | os
      | other => exact .refl _ w₂
  · exact scheduleRun_follows hkind h₂

theorem startWheelRun_follows {installPath : String} {context : List (String × String)}
    (hkind : kind cmd.executionId = .pythonWheel) (hrunner : cfg.wheelRunner = true)
    (hrunning : w.running = true) (h : Reserving kind w cmd.executionId s) :
    Follows cfg kind K .consumer (startWheelRun cfg cmd installPath context)
      (Leaves kind cmd.executionId w fun _ _ => True) w := by
  refine leaves_quiet (R := fun _ _ => True) ?_ fun res w₁ hw₁ _ => ?_
  · refine follows_ask fun w₁ hw₁ hinv => ⟨rfl, fun x r w₂ _ hp => ?_⟩
    exact ⟨hw₁.trans (Rely.silent hinv hp trivial), fun _ _ => trivial⟩
  have h₁ := h.rely hw₁
  rcases res with err | started
  · cases err with
    | wheelRunner errorCode detail => exact failRun_follows h₁
    | artifactCache _ | runner _ | wheelCache _ | scrapyd _ | http | timeout | redis | os
      | other => exact .refl _ w₁
  · refine leaves_mark h₁.held h₁.read (fun w₂ hw₂ => ?_) fun w₂ hw₂ _ => ?_
    · exact .promoteStartedWheel _ _ _ hkind hrunner h.phase (h₁.rely hw₂).reserving
    refine leaves_step trivial (fun _ _ => trivial) fun _ w₃ hw₃ => ?_
    refine leaves_quiet (quiet_emit fun hc => by cases hc) fun _ w₄ hw₄ _ => ?_
    have hrunning₄ : w₄.running = true := by
      rw [(hw₄.mine rfl).running, (hw₃.mine rfl).running, hw₂.running, (hw₁.mine rfl).running,
        hrunning]
    have hcall : Follows cfg kind K .consumer (call (.spawnWait cmd.taskId cmd.executionId)) _ w₄ :=
      quiet_call trivial fun w₅ hw₅ => ⟨hkind, by rw [(hw₅.mine rfl).running, hrunning₄]⟩
    refine hcall.mono fun r w₅ hq => ?_
    exact (show Quiet kind w₄ (fun _ _ => True) r w₅ from ⟨hq.1, fun _ _ => trivial⟩).leaves

theorem prepareWheelRun_follows {artifact : ArtifactRef} {context : List (String × String)}
    (hkind : kind cmd.executionId = .pythonWheel) (hcmd : InHand w cmd)
    (h : Reserving kind w cmd.executionId s) :
    Follows cfg kind K .consumer (prepareWheelRun cfg cmd artifact context)
      (Leaves kind cmd.executionId w fun _ _ => True) w := by
  refine leaves_quiet (quiet_emit fun hc => by cases hc) fun _ w₁ hw₁ _ => ?_
  have h₁ := h.rely hw₁
  show Follows cfg kind K .consumer (if cmd.payload.shellCommand = "" then _ else
    if artifact.hash = none then _ else if cfg.wheelRunner = false ∨ cfg.wheelCache = false then _
    else _) _ w₁
  split
  · exact failRun_follows h₁
  split
  · exact failRun_follows h₁
  split
  · exact failRun_follows h₁
  rename_i hconfigured
  have hrunner : cfg.wheelRunner = true := by
    cases hcase : cfg.wheelRunner with
    | true => rfl
    | false => exact (hconfigured (.inl hcase)).elim
  refine leaves_attempt (cache_follows (only_ensureWheel artifact)) fun res w₂ hw₂ _ => ?_
  have h₂ := h₁.rely hw₂
  rcases res with err | installPath
  · cases err with
    | wheelCache detail => exact failRun_follows h₂
    | artifactCache _ | runner _ | wheelRunner _ _ | scrapyd _ | http | timeout | redis | os
      | other => exact .refl _ w₂
  · exact startWheelRun_follows hkind hrunner ((hcmd.rely hw₁).rely hw₂).running h₂

/-- A state file that says nothing yet. -/
theorem sound_fresh {kind : RunnerType} (hexecution : s.executionId = e)
    (hrunner : s.runnerType = kind) (hphase : s.phase = .reserved) (hblank : Blank s)
    (hunmeasured : Unmeasured s) (hunstopped : Unstopped s) (hescalation : s.stopEscalation = none)
    (hjob : s.scrapydJobId = none) (hflood : s.logFlood = false) : Sound kind e s where
  executionId := hexecution
  runnerType := hrunner
  blank _ := hblank
  reserved _ := ⟨hunmeasured, hunstopped, hescalation, hjob, hflood⟩
  started hc := by
    rw [hphase] at hc
    cases hc
  result hc := by
    rw [hphase] at hc
    cases hc
  cleanup hc := by
    rw [hunstopped.cleanupPending] at hc
    cases hc
  intent := by
    rw [hunstopped.stopIntent, hunstopped.stopRequestedAt]
    rfl
  wheel _ := ⟨hunstopped, hblank.killPending, hblank.terminalPending⟩
  unmeasured _ := hunmeasured

/-- The state file is the handler's, or was there before. -/
def Reserved (kind : ExecutionId → RunnerType) (cmd : AgentCommand) (s : AttemptState) :
    Except AgentError Bool → AgentWorld → Prop
  | .ok true, w => InHand w cmd ∧ Reserving kind w cmd.executionId { s with phase := .reserved }
  | .ok false, w => InHand w cmd ∧ w.reserving = none
  | .error _, w => InHand w cmd

theorem createReserved_follows (hid : s.executionId = cmd.executionId)
    (hs : Sound (kind cmd.executionId) cmd.executionId { s with phase := .reserved })
    (hcmd : InHand w cmd) (htype : cmd.type = .run) (hres : w.reserving = none) :
    Follows cfg kind K .consumer (call (.createReserved s)) (Reserved kind cmd s) w := by
  refine follows_call fun w₁ hw₁ hinv => ?_
  have hcmd₁ := hcmd.rely hw₁
  have hres₁ : w₁.reserving = none := (hw₁.mine rfl).reserving.trans hres
  refine ⟨⟨rfl, hid ▸ hcmd₁.holds, hid ▸ hcmd₁.of_type htype, hid ▸ hs⟩, fun x r w₂ _ hp => ?_⟩
  simp only [AgentOp.perform] at hp
  split at hp
  · cases hp
    exact ⟨hcmd₁, hres₁⟩
  split at hp
  · cases hp
    exact ⟨hcmd₁, hres₁⟩
  rename_i store hstore
  split at hp
  · -- the file was created, and could not be written
    rename_i hlate
    rcases AgentWorld.fallible_cases hp with ⟨hnone, -, -⟩ | ⟨err, -, -, rfl, rfl⟩
    · rw [hnone] at hlate
      exact absurd hlate.1 (by simp)
    · rw [if_pos hlate.2]
      exact ⟨hcmd₁.handling, hcmd₁.lock, hcmd₁.running⟩
  · rcases AgentWorld.atomically_cases hp with ⟨-, rfl, rfl⟩ | ⟨err, -, -, rfl, rfl⟩
    · have hcmd₂ : InHand { w₁ with store := store, reserving := some s.executionId } cmd :=
        ⟨hcmd₁.handling, hcmd₁.lock, hcmd₁.running⟩
      refine ⟨hcmd₂, hcmd₂.holds, ?_, rfl, congrArg some hid, hs⟩
      show store.read cmd.executionId = _
      rw [StateStore.read_createReserved hstore, if_pos hid.symm]
    · exact ⟨hcmd₁.handling, hcmd₁.lock, hcmd₁.running⟩

/-- Answering a run whose state file was there before. -/
theorem republishRun_follows (hcmd : InHand w cmd) (htype : cmd.type = .run)
    (hres : w.reserving = none) :
    Follows cfg kind K .consumer (republishCurrent cfg cmd.taskId cmd.executionId)
      (fun _ w' => InHand w' cmd) w := by
  refine (republishCurrent_follows (n := 0) (k := 0) cmd.taskId hcmd.holds (Nat.zero_le _)
    (Nat.zero_le _) (fun s _ _ hc => ?_) fun s _ _ => hcmd.of_type htype).mono ?_
  · rw [hres] at hc
    cases hc
  · rintro (err | u) w' h
    · exact hcmd.rely h.1
    · exact hcmd.rely h.1

/-- A run, once its state file is reserved or found. -/
theorem reserve_follows {f : Bool → AgentProg Unit} (hid : s.executionId = cmd.executionId)
    (hs : Sound (kind cmd.executionId) cmd.executionId { s with phase := .reserved })
    (hcmd : InHand w cmd) (htype : cmd.type = .run) (hres : w.reserving = none)
    (htrue : ∀ w', InHand w' cmd →
      Reserving kind w' cmd.executionId { s with phase := .reserved } →
      Follows cfg kind K .consumer (f true) (Leaves kind cmd.executionId w' fun _ _ => True) w')
    (hfalse : f false = republishCurrent cfg cmd.taskId cmd.executionId) :
    Follows cfg kind K .consumer (call (.createReserved s) >>= f) (fun _ w' => InHand w' cmd)
      w := by
  refine follows_bind (createReserved_follows hid hs hcmd htype hres) ?_ fun err w' h => h
  rintro reserved w₁ h
  cases reserved with
  | true =>
      obtain ⟨hcmd₁, hreserving⟩ := h
      exact (htrue w₁ hcmd₁ hreserving).mono fun r w₂ h => hcmd₁.goes h.touches.toGoes
  | false =>
      rw [hfalse]
      exact republishRun_follows h.1 htype h.2

theorem handleRunWheel_follows (hkind : kind cmd.executionId = .pythonWheel)
    (hcmd : InHand w cmd) (htype : cmd.type = .run) (hres : w.reserving = none) :
    Follows cfg kind K .consumer (handleRunWheel cfg cmd) (fun _ w' => InHand w' cmd) w := by
  refine follows_bind (runtimeContextEnv_follows cmd.payload) ?_ fun err w' h => hcmd.rely h.1
  rintro context w₁ ⟨hw₁, -⟩
  refine reserve_follows rfl ?_ (hcmd.rely hw₁) htype ((hw₁.mine rfl).reserving.trans hres)
    (fun w₂ hcmd₂ h₂ => prepareWheelRun_follows hkind hcmd₂ h₂) rfl
  exact sound_fresh rfl hkind.symm rfl ⟨rfl, rfl, rfl, rfl, rfl, rfl⟩ ⟨rfl, rfl, rfl, rfl⟩
    ⟨rfl, rfl, rfl⟩ rfl rfl rfl

theorem handleRun_follows (hkind : cmd.taskType = kind cmd.executionId)
    (hcmd : InHand w cmd) (htype : cmd.type = .run) (hres : w.reserving = none) :
    Follows cfg kind K .consumer (handleRun cfg cmd) (fun _ w' => InHand w' cmd) w := by
  refine read_step hcmd.holds fun w₁ hw₁ _ => ?_
  have hcmd₁ := hcmd.rely hw₁
  have hres₁ : w₁.reserving = none := (hw₁.mine rfl).reserving.trans hres
  show Follows cfg kind K .consumer (if (w.store.read cmd.executionId).isSome then _ else
    if cmd.taskType = .pythonWheel then _ else _) _ w₁
  split
  · exact republishRun_follows hcmd₁ htype hres₁
  split
  · rename_i hwheel
    exact handleRunWheel_follows (hkind.symm.trans hwheel) hcmd₁ htype hres₁
  · rename_i hwheel
    have hscrapy : kind cmd.executionId = .scrapy := by
      rw [← hkind]
      cases hcase : cmd.taskType with
      | scrapy => rfl
      | pythonWheel => exact (hwheel hcase).elim
    refine reserve_follows rfl ?_ hcmd₁ htype hres₁
      (fun w₂ _ h₂ => prepareRun_follows hscrapy h₂) rfl
    exact sound_fresh rfl hscrapy.symm rfl ⟨rfl, rfl, rfl, rfl, rfl, rfl⟩ ⟨rfl, rfl, rfl, rfl⟩
      ⟨rfl, rfl, rfl⟩ rfl rfl rfl

/-! ### Stops -/

/-- A mark of a state file that may be missing. -/
theorem ends_mark_any {m : Mark} {f : Option AttemptState → AgentProg β}
    {R : β → AgentWorld → Prop} (hheld : Holds kind w .consumer e) (hn : n ≤ w.raised.length)
    (hmay : ∀ s w₁, w.store.read e = some s → Rely kind .consumer w w₁ →
      MayMark cfg kind K .consumer w₁ e s m)
    (h : ∀ w', Touches kind e w w' →
      w'.store.read e = (w.store.read e).map m.apply →
      Follows cfg kind K .consumer (f ((w.store.read e).map m.apply)) (Ends cfg kind e n w' R)
        w') :
    Follows cfg kind K .consumer (call (.mark e m) >>= f) (Ends cfg kind e n w R) w := by
  cases hread : w.store.read e with
  | none =>
      rw [hread] at h
      exact ends_mark_missing hheld hread fun w' hw' =>
        h w' (hw'.touches e) ((hw'.read e hheld).trans hread)
  | some s =>
      rw [hread] at h
      exact ends_mark hheld hread hn (fun w₁ hw₁ => hmay s w₁ hread hw₁) h

theorem cancelNow_follows {k : Nat} (hcmd : InHand w cmd) (htype : cmd.type = .stop)
    (hintent : cmd.intent = some .cancel) (hn : n ≤ w.raised.length) (hk : k ≤ w.emitted.length)
    (hphase : ∀ s, w.store.read cmd.executionId = some s →
      kind cmd.executionId = .pythonWheel ∨ s.phase ≠ .started) :
    Follows cfg kind K .consumer (cancelNow cfg cmd) (Ends cfg kind cmd.executionId n w
      fun _ w' => EmittedSince k w' cmd.executionId .canceled) w := by
  have hstop : Stopping w cmd.executionId .cancel :=
    hcmd.stopping htype ⟨fun _ => hintent, fun _ => rfl⟩
  refine ends_mark_any hcmd.holds hn (fun s w₁ hread hw₁ => ?_) fun w₁ hw₁ hread₁ => ?_
  · exact .canceledNow (hphase s hread) ((hw₁.touches cmd.executionId).stopping hstop)
  have hheld₁ := hw₁.holds _ hcmd.holds
  refine (emit_follows (n := n) (k := k) (hn.trans hw₁.mono.raised.length_le)
    (hk.trans hw₁.mono.emitted.length_le) fun _ w₂ hw₂ => ?_).mono ?_
  · show Holds kind w₂ .consumer cmd.executionId ∧
      Reports kind K w₂ _ (w₂.store.read cmd.executionId)
    rw [hw₂.read _ hheld₁, hread₁]
    refine ⟨hw₂.holds _ hheld₁, .canceled _ rfl
      ((hw₂.touches cmd.executionId).stopping (hw₁.stopping hstop)) fun s' hs' => ?_⟩
    obtain ⟨s, -, rfl⟩ := Option.map_eq_some_iff.mp hs'
    exact ⟨rfl, rfl⟩
  · rintro (err | u) w₂ ⟨hw₂, h⟩
    · exact ⟨hw₂.touches _, h⟩
    · exact ⟨hw₂.touches _, h⟩

/-- A signal to an attempt that is not started, and what follows it. -/
theorem ends_signal {f : StopResponse → AgentProg β} {R : β → AgentWorld → Prop}
    (hheld : Holds kind w .consumer e) (hn : n ≤ w.raised.length)
    (hphase : ∀ s, w.store.read e = some s → s.phase ≠ .started)
    (h : ∀ resp w', Touches kind e w w' →
      (∀ s, w'.store.read e = some s → s.phase ≠ .started) →
      Follows cfg kind K .consumer (f resp) (Ends cfg kind e n w' R) w') :
    Follows cfg kind K .consumer (runnerStop e false .command >>= f) (Ends cfg kind e n w R) w := by
  refine ends_bind (R := fun _ w' => ∀ s, w'.store.read e = some s → s.phase ≠ .started) ?_ h
  cases hread : w.store.read e with
  | none =>
      refine read_step hheld fun w₁ hw₁ _ => ?_
      rw [hread]
      refine ⟨hw₁.touches e, fun s hs => ?_⟩
      rw [hw₁.read e hheld, hread] at hs
      cases hs
  | some s =>
      refine (runnerStop_follows hheld hread hn fun hc => by cases hc).mono ?_
      rintro r w' ⟨hsnap, hends⟩
      refine hends.imp fun _ _ _ s' hs' => ?_
      obtain ⟨f, hf, hmarked⟩ := hsnap.marked
      obtain rfl := Option.some.inj (hf.symm.trans hs')
      rw [hmarked.signalled.phase]
      exact hphase s hread

/-- What a handled cancel leaves. -/
def CancelOf (kind : ExecutionId → RunnerType) (k : Nat) (w : AgentWorld) (e : ExecutionId) :
    Prop :=
  EmittedSince k w e .canceled ∨ Owed kind w e ∨ InFlight w e .reclaim

theorem handleCancel_follows {k : Nat} (hcmd : InHand w cmd) (htype : cmd.type = .stop)
    (hintent : cmd.intent = some .cancel) (hn : n ≤ w.raised.length) (hk : k ≤ w.emitted.length) :
    Follows cfg kind K .consumer (handleCancel cfg cmd) (Ends cfg kind cmd.executionId n w
      fun _ w' => CancelOf kind k w' cmd.executionId) w := by
  have hheld : Holds kind w .consumer cmd.executionId := hcmd.holds
  refine ends_read hheld fun w₁ hw₁ hinv => ?_
  have hcmd₁ := hcmd.rely hw₁
  have hn₁ : n ≤ w₁.raised.length := hn.trans hw₁.mono.raised.length_le
  have hk₁ : k ≤ w₁.emitted.length := hk.trans hw₁.mono.emitted.length_le
  have hread₁ : w₁.store.read cmd.executionId = w.store.read cmd.executionId := hw₁.read _ hheld
  have hemitted : ∀ {r : Except AgentError Unit} {w₂ w' : AgentWorld},
      Ends cfg kind cmd.executionId n w₂ (fun _ w' => EmittedSince k w' cmd.executionId .canceled)
        r w' →
      Ends cfg kind cmd.executionId n w₂ (fun _ w' => CancelOf kind k w' cmd.executionId) r w' :=
    fun h => h.imp fun _ _ hsince => .inl hsince
  show Follows cfg kind K .consumer (if isWheel cfg (w.store.read cmd.executionId) then _ else _)
    _ w₁
  by_cases hwheel : isWheel cfg (w.store.read cmd.executionId) = true
  · rw [if_pos hwheel]
    simp only [isWheel, Bool.and_eq_true] at hwheel
    obtain ⟨s, hread, hrunner⟩ := (Option.any_eq_true _ _).mp hwheel.2
    have hkind : kind cmd.executionId = .pythonWheel := by
      rw [← (hinv.sound _ s (hread₁.trans hread)).runnerType]
      simpa using hrunner
    have hstop : Stopping w₁ cmd.executionId .cancel :=
      hcmd₁.stopping htype ⟨fun _ => hintent, fun _ => rfl⟩
    refine ends_calm (R := fun _ _ => True) ?_ fun _ w₂ hw₂ _ => ?_
    · refine follows_call fun w₂ hw₂ hinv₂ =>
        ⟨⟨.cancel, (hw₂.touches 0).stopping hstop⟩, fun x r w₃ _ hp => ?_⟩
      have hrely : Rely kind .consumer w₂ w₃ := Rely.silent hinv₂ hp trivial
      cases hp
      exact ⟨hw₂.trans hrely, trivial⟩
    · exact (cancelNow_follows (hcmd₁.rely hw₂) htype hintent
        (hn₁.trans hw₂.mono.raised.length_le) (hk₁.trans hw₂.mono.emitted.length_le)
        fun _ _ => .inl hkind).mono fun _ _ h => hemitted h
  rw [if_neg hwheel]
  have hsignal : (∀ s, w₁.store.read cmd.executionId = some s → s.phase ≠ .started) →
      Follows cfg kind K .consumer
        (runnerStop cmd.executionId false .command >>= fun _ => cancelNow cfg cmd)
        (Ends cfg kind cmd.executionId n w₁ fun _ w' => CancelOf kind k w' cmd.executionId) w₁ := by
    intro hphase
    refine ends_signal hcmd₁.holds hn₁ hphase fun _ w₂ hw₂ hphase₂ => ?_
    exact (cancelNow_follows (hcmd₁.goes hw₂.toGoes) htype hintent
      (hn₁.trans hw₂.mono.raised.length_le) (hk₁.trans hw₂.mono.emitted.length_le)
      fun s hs => .inr (hphase₂ s hs)).mono fun _ _ h => hemitted h
  cases hread : w.store.read cmd.executionId with
  | none =>
      refine hsignal fun s hs => ?_
      rw [hread₁, hread] at hs
      cases hs
  | some s =>
      have hsome := hread₁.trans hread
      have hs := hinv.sound _ s hsome
      show Follows cfg kind K .consumer (if s.phase ≠ .started then _ else _) _ w₁
      by_cases hphase : s.phase ≠ .started
      · rw [if_pos hphase]
        refine hsignal fun s' hs' => ?_
        obtain rfl := Option.some.inj (hsome.symm.trans hs')
        exact hphase
      rw [if_neg hphase]
      have hstarted : s.phase = .started := not_not.mp hphase
      -- a wheel is not started without a runner
      have hscrapy : kind cmd.executionId = .scrapy := by
        cases hcase : kind cmd.executionId with
        | scrapy => rfl
        | pythonWheel =>
            refine (hwheel ?_).elim
            simp [isWheel, hread, hinv.runner _ s hsome hcase hstarted, hs.runnerType, hcase]
      refine (beginStop_follows hcmd₁.holds hs.executionId hsome hn₁ hscrapy hstarted
        (hcmd₁.stopping htype ⟨fun _ => hintent, fun _ => rfl⟩)).mono fun r w₂ h =>
        h.imp fun _ _ hstop => .inr ?_
      obtain ⟨g, hg, hphase', hat, hint⟩ := hstop
      by_cases hasked : s.stopRequestedAt.isSome = true
      · rw [if_pos hasked] at hint
        have hsomeIntent : s.stopIntent.isSome = true := by rw [hs.intent, hasked]
        obtain ⟨intent, hsi⟩ := Option.isSome_iff_exists.mp hsomeIntent
        cases intent with
        | cancel => exact .inl ⟨hscrapy, .inl ⟨g, hg, hphase', hat, hint.trans hsi⟩⟩
        | reclaim => exact .inr ⟨g, hg, hphase', hat, hint.trans hsi⟩
      · rw [if_neg hasked] at hint
        exact .inl ⟨hscrapy, .inl ⟨g, hg, hphase', hat, hint⟩⟩

theorem handleReclaim_follows (hcmd : InHand w cmd) (htype : cmd.type = .stop)
    (hintent : cmd.intent ≠ some .cancel) :
    Follows cfg kind K .consumer (handleReclaim cfg cmd)
      (fun _ w' => Touches kind cmd.executionId w w') w := by
  have hheld : Holds kind w .consumer cmd.executionId := hcmd.holds
  have hend : ∀ {R : Unit → AgentWorld → Prop} {w₁ : AgentWorld} {p : AgentProg Unit},
      Touches kind cmd.executionId w w₁ →
      Follows cfg kind K .consumer p (Leaves kind cmd.executionId w₁ R) w₁ →
      Follows cfg kind K .consumer p (fun _ w' => Touches kind cmd.executionId w w') w₁ :=
    fun htouch h => h.mono fun _ _ hl => htouch.trans hl.touches
  have hstop : Stopping w cmd.executionId .reclaim :=
    hcmd.stopping htype ⟨fun hc => (by cases hc), fun hc => (hintent hc).elim⟩
  refine read_step hheld fun w₁ hw₁ hinv => ?_
  have htouch₁ := hw₁.touches cmd.executionId
  have hheld₁ := hw₁.holds _ hheld
  have hread₁ := hw₁.read _ hheld
  have hstop₁ := htouch₁.stopping hstop
  cases hread : w.store.read cmd.executionId with
  | none => exact htouch₁
  | some s =>
      have hsome := hread₁.trans hread
      have hs := hinv.sound _ s hsome
      show Follows cfg kind K .consumer (if isWheel cfg (some s) then _ else
        if s.phase ≠ .started then if s.result.isSome then _ else _ else
        if s.stopRequestedAt.isSome then _ else _) _ w₁
      by_cases hwheel : isWheel cfg (some s) = true
      · rw [if_pos hwheel]
        have hkind : kind cmd.executionId = .pythonWheel := by
          simp only [isWheel, Bool.and_eq_true, Option.any_some, beq_iff_eq] at hwheel
          rw [← hs.runnerType, hwheel.2]
        refine hend (R := fun _ _ => True) htouch₁ ?_
        refine leaves_step trivial (fun w₂ hw₂ => ⟨.reclaim, (hw₂.touches 0).stopping hstop₁⟩)
          fun _ w₂ hw₂ => ?_
        refine leaves_mark (hw₂.holds _ hheld₁) ((hw₂.read _ hheld₁).trans hsome)
          (fun w₃ hw₃ => .reclaimedWheel hkind (((hw₂.trans hw₃).touches 0).stopping hstop₁))
          fun w₃ _ _ => ⟨.refl _ w₃, trivial⟩
      rw [if_neg hwheel]
      by_cases hphase : s.phase ≠ .started
      · rw [if_pos hphase]
        by_cases hresult : s.result.isSome = true
        · rw [if_pos hresult]
          refine (republishCurrent_follows (n := 0) (k := 0) cmd.taskId hheld₁ (Nat.zero_le _)
            (Nat.zero_le _) (fun s' hs' hreserved => ?_) fun s' hs' hstarted => ?_).mono ?_
          · obtain rfl := Option.some.inj (hsome.symm.trans hs')
            have hnone := (hs.blank (by rw [hreserved]; exact fun hc => by cases hc)).result
            rw [hnone] at hresult
            cases hresult
          · obtain rfl := Option.some.inj (hsome.symm.trans hs')
            exact (hphase hstarted).elim
          · rintro (err | u) w₂ h
            · exact htouch₁.trans (h.1.touches _)
            · exact htouch₁.trans (h.1.touches _)
        · rw [if_neg hresult]
          exact htouch₁
      rw [if_neg hphase]
      have hstarted : s.phase = .started := not_not.mp hphase
      by_cases hasked : s.stopRequestedAt.isSome = true
      · rw [if_pos hasked]
        exact htouch₁
      rw [if_neg hasked]
      have hnone : s.stopRequestedAt = none := by simpa using hasked
      have hscrapy : kind cmd.executionId = .scrapy := by
        cases hcase : kind cmd.executionId with
        | scrapy => rfl
        | pythonWheel =>
            refine (hwheel ?_).elim
            simp [isWheel, hinv.runner _ s hsome hcase hstarted, hs.runnerType, hcase]
      -- the status is still the job's own
      refine follows_bind (runnerStatus_follows (n := 0) hheld₁ hsome (Nat.zero_le _)) ?_
        fun err w₂ h => htouch₁.trans (h.1.touches _)
      rintro status w₂ ⟨hw₂, hstatus⟩
      have htouch₂ := htouch₁.trans (hw₂.touches cmd.executionId)
      have hheld₂ := hw₂.holds _ hheld₁
      have hread₂ := (hw₂.read _ hheld₁).trans hsome
      cases hterminal : status.terminal with
      | some terminal =>
          obtain ⟨-, hgone⟩ := hstatus (by rw [hterminal]; rfl)
          exact hend htouch₂ ((finishScrapyAttempt_follows (n := 0) (D := fun _ => True) hheld₂ hs hread₂
            (.refl s) (Nat.zero_le _) hscrapy hstarted hnone hgone).mono fun _ _ h => h.leaves)
      | none =>
          exact hend htouch₂ ((beginStop_follows (n := 0) hheld₂ hs.executionId hread₂
            (Nat.zero_le _) hscrapy hstarted ((hw₂.touches 0).stopping hstop₁)).mono
            fun _ _ h => h.leaves)

theorem handleStopLogs_follows (hcmd : InHand w cmd) :
    Follows cfg kind K .consumer (handleStopLogs cmd)
      (fun _ w' => Touches kind cmd.executionId w w') w := by
  refine Prog.Safe.mono (Q := Ends cfg kind cmd.executionId 0 w fun _ _ => True) ?_
    fun _ _ h => h.leaves.touches
  exact ends_mark_any hcmd.holds (Nat.zero_le _) (fun _ _ _ _ => .logCapped)
    fun w₁ _ _ => ⟨.refl _ w₁, trivial⟩

/-! ### Commands -/

theorem Owed.rely {w' : AgentWorld} (h : Owed kind w e) (hw : Rely kind .consumer w w') :
    Owed kind w' e := by
  have hread := hw.read e (.inl h.1)
  obtain ⟨hkind, ⟨s, hs, hrest⟩ | ⟨s, hs, hrest⟩⟩ := h
  · exact ⟨hkind, .inl ⟨s, hread.trans hs, hrest⟩⟩
  · exact ⟨hkind, .inr ⟨s, hread.trans hs, hrest⟩⟩

theorem Answered.rely {w' : AgentWorld} (h : Answered cfg kind w cmd)
    (hheld : Holds kind w .consumer cmd.executionId) (hw : Rely kind .consumer w w') :
    Answered cfg kind w' cmd := by
  intro htype hintent
  rcases h htype hintent with hsince | howed | ⟨s, hs, hrest⟩ | hdisturbed
  · rw [← (hw.mine rfl).begun] at hsince
    exact .inl (hsince.mono hw.mono)
  · exact .inr (.inl (howed.rely hw))
  · exact .inr (.inr (.inl ⟨s, (hw.read _ hheld).trans hs, hrest⟩))
  · exact .inr (.inr (.inr (hdisturbed.mono hw.mono)))

/-- A command that is no cancel needs no answer. -/
theorem answered_of_type (h : cmd.type ≠ .stop) : Answered cfg kind w cmd :=
  fun htype => (h htype).elim

theorem handleCommand_follows (hcmd : InHand w cmd) (hres : w.reserving = none)
    (hbegun : w.begun ≤ w.emitted.length)
    (hkind : cmd.type = .run → cmd.taskType = kind cmd.executionId) :
    Follows cfg kind K .consumer (handleCommand cfg cmd)
      (fun _ w' => InHand w' cmd ∧ Answered cfg kind w' cmd) w := by
  unfold handleCommand
  cases htype : cmd.type with
  | run =>
      refine (handleRun_follows (hkind htype) hcmd htype hres).mono fun _ w' h => ⟨h, ?_⟩
      exact answered_of_type (by rw [htype]; exact fun hc => by cases hc)
  | cleanupLogs =>
      refine (handleCleanup_follows hcmd.holds (hcmd.of_type htype)).mono fun _ w' h =>
        ⟨hcmd.goes h.toGoes, ?_⟩
      exact answered_of_type (by rw [htype]; exact fun hc => by cases hc)
  | stopLogs =>
      refine (handleStopLogs_follows hcmd).mono fun _ w' h => ⟨hcmd.goes h.toGoes, ?_⟩
      exact answered_of_type (by rw [htype]; exact fun hc => by cases hc)
  | stop =>
      show Follows cfg kind K .consumer (if cmd.intent = some .cancel then _ else _) _ w
      by_cases hintent : cmd.intent = some .cancel
      · rw [if_pos hintent]
        refine (handleCancel_follows (n := 0) hcmd htype hintent (Nat.zero_le _) hbegun).mono ?_
        rintro (err | u) w' ⟨htouch, h⟩
        · exact ⟨hcmd.goes htouch.toGoes, fun _ _ => .inr (.inr (.inr h))⟩
        · refine ⟨hcmd.goes htouch.toGoes, fun _ _ => ?_⟩
          rw [htouch.begun]
          rcases h with hsince | howed | hreclaim
          · exact .inl hsince
          · exact .inr (.inl howed)
          · exact .inr (.inr (.inl hreclaim))
      · rw [if_neg hintent]
        exact (handleReclaim_follows hcmd htype hintent).mono fun _ w' h =>
          ⟨hcmd.goes h.toGoes, fun _ hc => (hintent hc).elim⟩

/-- **A command is handled from `begin` to `finish`.** -/
theorem processCommand_follows (hrunning : w.running = true)
    (hkind : cmd.type = .run → cmd.taskType = kind cmd.executionId) :
    Follows cfg kind K .consumer (processCommand cfg cmd) (fun _ _ => True) w := by
  refine follows_bind (P := fun _ w' => InHand w' cmd ∧ w'.reserving = none ∧
    w'.begun ≤ w'.emitted.length) ?_ ?_ fun _ _ _ => trivial
  · refine follows_call fun w₁ hw₁ hinv => ?_
    have hrunning₁ : w₁.running = true := hw₁.running hrunning
    refine ⟨⟨rfl, hrunning₁⟩, fun x r w₂ _ hp => ?_⟩
    simp only [AgentOp.perform] at hp
    split at hp
    · cases hp
      exact ⟨⟨rfl, Function.update_self _ _ _, hrunning₁⟩, rfl, le_rfl⟩
    · cases hp
  · rintro u w₁ ⟨hcmd, hres, hbegun⟩
    refine Prog.safe_tryFinally.mpr (Prog.safe_tryCatch.mpr ?_)
    refine (handleCommand_follows hcmd hres hbegun hkind).mono fun r w₂ h => ?_
    have hfinish : Follows cfg kind K .consumer (call (.finish cmd)) (fun _ _ => True) w₂ := by
      refine follows_call fun w₃ hw₃ hinv => ⟨?_, fun _ _ _ _ _ => trivial⟩
      have hcmd₃ := h.1.rely hw₃
      exact ⟨rfl, hcmd₃.lock, hcmd₃.handling, h.2.rely h.1.holds hw₃⟩
    cases r with
    | ok v => exact hfinish.mono fun r' _ _ => by cases r' <;> trivial
    | error err => exact hfinish.mono fun r' _ _ => by cases r' <;> trivial

end Handlers

end Agent

end Dopilot
