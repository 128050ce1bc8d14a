/-
Dopilot/AgentCancels.lean

A cancel is always answered, unless it runs into a reclaim.

A cancel that was handled is answered at once, or it is owed: its stop is in
flight, or its terminal is outstanding.  What is owed stays owed until the event
is emitted (`Owed.perform`), and the first tick past the deadline owes nothing
any more (`canceled_by_deadline`).  The one cancel that is lost is the one that
finds a reclaim in flight: `_begin_stop` takes it for a repetition, and the
reclaim ends without an event (`cancel_lost`).
-/
import Dopilot.AgentStops

namespace Dopilot

/-- A stop on behalf of the user. -/
def AgentCommand.isCancel (cmd : AgentCommand) : Bool :=
  cmd.type == .stop && cmd.intent == some .cancel

theorem AgentCommand.isCancel_iff {cmd : AgentCommand} :
    cmd.isCancel = true ↔ cmd.type = .stop ∧ cmd.intent = some .cancel := by
  simp [isCancel]

namespace Agent

section Cancels

variable {cfg : AgentConfig} {kind : ExecutionId → RunnerType} {K : Cond} {i : Owner}
  {w w' : AgentWorld} {e : ExecutionId}

/-! ### What is owed -/

/-- A mark of a stop in flight for a cancel ends it owing the terminal, or leaves it. -/
theorem MayMark.inFlight_cancel {f : AttemptState} {m : Mark} (h : MayMark cfg kind K i w e f m)
    (hkind : kind e = .scrapy) (hphase : f.phase = .started)
    (hstop : f.stopRequestedAt.isSome = true) (hintent : f.stopIntent = some .cancel) :
    ((m.apply f).phase = .started ∧ (m.apply f).stopRequestedAt.isSome = true ∧
        (m.apply f).stopIntent = some .cancel) ∨
      (m.apply f).phase = .done ∧ (m.apply f).result = some .canceled ∧
        (m.apply f).terminalPending = true := by
  cases h <;> simp only [Mark.apply] <;> grind

/-- A terminal that is owed is owed until it was emitted for every cancel that was handled. -/
theorem MayMark.terminal_owed {f : AttemptState} {m : Mark} (h : MayMark cfg kind K i w e f m)
    (hkind : kind e = .scrapy) (hphase : f.phase = .done) (hresult : f.result = some .canceled)
    (hpending : f.terminalPending = true) :
    ((m.apply f).phase = .done ∧ (m.apply f).result = some .canceled ∧
        (m.apply f).terminalPending = true) ∨
      ∀ p ∈ w.processed, EmittedSince p.2 w e .canceled := by
  cases h with
  | clearTerminalPending result hdone hres hreported hprocessed =>
      obtain rfl := Option.some.inj (hresult.symm.trans hres)
      exact .inr hprocessed
  | _ => grind [Mark.apply]

theorem Owed.of_store (h : Owed kind w e) (hstore : w'.store = w.store) : Owed kind w' e := by
  unfold Owed InFlight at *
  rw [hstore]
  exact h

/-- **What is owed stays owed**, or was emitted. -/
theorem Owed.perform {op : AgentOp} {x : AgentAnswer} {r : Except AgentError op.Res}
    (h : Owed kind w e) (hmay : May cfg kind K i w op)
    (hp : op.perform cfg x w = some (r, w')) :
    Owed kind w' e ∨ ∀ p ∈ w.processed, EmittedSince p.2 w e .canceled := by
  have hfile := fileStep hmay hp e
  obtain ⟨hkind, hcase⟩ := h
  have hwaits : ∃ f, w.store.read e = some f ∧ cleanupMustWait f = true := by
    rcases hcase with ⟨f, hf, hphase, hstop, -⟩ | ⟨f, hf, -, -, hpending⟩
    · exact ⟨f, hf, by simp [cleanupMustWait, hphase, hstop]⟩
    · exact ⟨f, hf, by simp [cleanupMustWait, hpending]⟩
  obtain ⟨f, hf, hwait⟩ := hwaits
  rw [hf] at hfile
  generalize hread : w'.store.read e = f' at hfile
  cases hfile with
  | same =>
      left
      rcases hcase with ⟨g, hg, hrest⟩ | ⟨g, hg, hrest⟩
      · exact ⟨hkind, .inl ⟨g, hread.trans (hf.symm.trans hg), hrest⟩⟩
      · exact ⟨hkind, .inr ⟨g, hread.trans (hf.symm.trans hg), hrest⟩⟩
  | deleted f hfree hasked =>
      rw [hfree] at hwait
      cases hwait
  | marked m f hheld hm =>
      rcases hcase with ⟨g, hg, hphase, hstop, hintent⟩ | ⟨g, hg, hphase, hresult, hpending⟩
      · obtain rfl := Option.some.inj (hf.symm.trans hg)
        rcases hm.inFlight_cancel hkind hphase hstop hintent with hstays | hdone
        · exact .inl ⟨hkind, .inl ⟨_, hread, hstays⟩⟩
        · exact .inl ⟨hkind, .inr ⟨_, hread, hdone⟩⟩
      · obtain rfl := Option.some.inj (hf.symm.trans hg)
        rcases hm.terminal_owed hkind hphase hresult hpending with hstays | hemitted
        · exact .inl ⟨hkind, .inr ⟨_, hread, hstays⟩⟩
        · exact .inr hemitted

/-! ### Reclaims in flight -/

/-- A reclaim gets in flight through its own command only. -/
theorem MayMark.inFlight_reclaim {f : AttemptState} {m : Mark} (h : MayMark cfg kind K i w e f m)
    (hs : Sound (kind e) e f) (hphase : (m.apply f).phase = .started)
    (hstop : (m.apply f).stopRequestedAt.isSome = true)
    (hintent : (m.apply f).stopIntent = some .reclaim) :
    (f.phase = .started ∧ f.stopRequestedAt.isSome = true ∧ f.stopIntent = some .reclaim) ∨
      Stopping w e .reclaim := by
  cases h with
  | stopRequested intent t hkind hstarted hnone hnow hcmd =>
      obtain rfl := Option.some.inj hintent
      exact .inr hcmd
  | promoteStarted job logPath hkind hreserved hres hjob hsignals =>
      rw [show (Mark.apply (.promoteStarted job logPath) f).stopRequestedAt = none from
        (hs.reserved hreserved).2.1.stopRequestedAt] at hstop
      cases hstop
  | promoteStartedWheel pgid workspacePath logPath hkind hrunner hreserved hres =>
      rw [show (Mark.apply (.promoteStartedWheel pgid workspacePath logPath) f).stopRequestedAt =
        none from (hs.reserved hreserved).2.1.stopRequestedAt] at hstop
      cases hstop
  | failed | aborted | orphaned | finished | waited | reclaimed | canceledStop | canceledNow
  | reclaimedWheel => cases hphase
  | stats | stopEscalation | cleanupPending | killAttempt | clearKillPending
  | clearTerminalPending | canceled | logFlood | logCapped => exact .inl ⟨hphase, hstop, hintent⟩

theorem InFlight.of_perform {op : AgentOp} {x : AgentAnswer} {r : Except AgentError op.Res}
    (h : InFlight w' e .reclaim) (hinv : Inv cfg kind w) (hmay : May cfg kind K i w op)
    (hp : op.perform cfg x w = some (r, w')) : InFlight w e .reclaim ∨ Stopping w e .reclaim := by
  have hfile := fileStep hmay hp e
  obtain ⟨f', hf', hphase, hstop, hintent⟩ := h
  rw [hf'] at hfile
  generalize hread : w.store.read e = f at hfile
  cases hfile with
  | same => exact .inl ⟨f', hread, hphase, hstop, hintent⟩
  | created f' hs hreserved hcmd =>
      rw [hreserved] at hphase
      cases hphase
  | marked m f hheld hm =>
      rcases hm.inFlight_reclaim (hinv.sound e f hread) hphase hstop hintent with hbefore | hcmd
      · exact .inl ⟨f, hread, hbefore⟩
      · exact .inr hcmd

/-! ### Cancels that are heard -/

/-- What an operation does to the command in hand. -/
theorem command_step {op : AgentOp} {x : AgentAnswer} {r : Except AgentError op.Res}
    (hp : op.perform cfg x w = some (r, w')) :
    (∃ cmd, op = .begin cmd ∧ w'.handling = some cmd ∧ w'.processed = w.processed ∧
        w'.store = w.store) ∨
      (∃ cmd, op = .finish cmd ∧ w'.handling = none ∧
        w'.processed = w.processed ++ [(cmd, w.begun)] ∧ w'.store = w.store) ∨
      w'.handling = w.handling ∧ w'.processed = w.processed := by
  obtain ⟨w₁, heffect, hw'⟩ := perform_leads hp
  have hstep : (∃ cmd, op = .begin cmd ∧ w₁.handling = some cmd ∧ w₁.processed = w.processed ∧
        w₁.store = w.store) ∨
      (∃ cmd, op = .finish cmd ∧ w₁.handling = none ∧
        w₁.processed = w.processed ++ [(cmd, w.begun)] ∧ w₁.store = w.store) ∨
      w₁.handling = w.handling ∧ w₁.processed = w.processed := by
    cases heffect with
    | begun cmd hlock => exact .inl ⟨cmd, rfl, rfl, rfl, rfl⟩
    | finished cmd => exact .inr (.inl ⟨cmd, rfl, rfl, rfl, rfl⟩)
    | _ => exact .inr (.inr ⟨rfl, rfl⟩)
  rcases hw' with rfl | ⟨y, rfl⟩
  · exact hstep
  · exact hstep

/-- The operation raises nothing but what the passes and the stop handlers are made for. -/
def smooth (cfg : AgentConfig) (op : AgentOp) (x : AgentAnswer) (w : AgentWorld) : Bool :=
  match op.perform cfg x w with
  | some (.error err, _) => tolerable cfg ⟨op, err, false⟩
  | _ => true

/-- A cancel is taken up while a reclaim of its execution is in flight. -/
def collides (w : AgentWorld) : AgentOp → Bool
  | .begin cmd => cmd.isCancel && (w.store.read cmd.executionId).any fun f =>
      f.phase == .started && f.stopRequestedAt.isSome && f.stopIntent == some .reclaim
  | _ => false

/-- Runs in which nothing is raised that the stop machine is not made for. -/
def Smooth (cfg : AgentConfig) : Cond where
  env _ _ := True
  launch _ _ _ := True
  op op x w := smooth cfg op x w = true
  crash _ := True

/-- Smooth runs in which no cancel finds a reclaim in flight. -/
def Heard (cfg : AgentConfig) : Cond where
  env _ _ := True
  launch _ _ _ := True
  op op x w := smooth cfg op x w = true ∧ collides w op = false
  crash _ := True

theorem collides_eq_true {cmd : AgentCommand} (hcancel : cmd.isCancel = true)
    (h : InFlight w cmd.executionId .reclaim) : collides w (.begin cmd) = true := by
  obtain ⟨f, hf, hphase, hstop, hintent⟩ := h
  simp [collides, hcancel, hf, hphase, hstop, hintent]

/-- What is known of cancels in smooth runs without collisions. -/
structure HeardInv (cfg : AgentConfig) (kind : ExecutionId → RunnerType) (w : AgentWorld) :
    Prop where
  raised : ∀ y ∈ w.raised, tolerable cfg y = true
  alone : ∀ cmd, w.handling = some cmd → cmd.isCancel = true →
    ¬ InFlight w cmd.executionId .reclaim
  promised : ∀ p ∈ w.processed, p.1.isCancel = true →
    EmittedSince p.2 w p.1.executionId .canceled ∨ Owed kind w p.1.executionId

theorem tolerable_late (op : AgentOp) (err : AgentError) (late : Bool) :
    tolerable cfg ⟨op, err, late⟩ = tolerable cfg ⟨op, err, false⟩ := by
  cases op <;> rfl

theorem raised_of_smooth {op : AgentOp} {x : AgentAnswer} {r : Except AgentError op.Res}
    (h : ∀ y ∈ w.raised, tolerable cfg y = true) (hsmooth : smooth cfg op x w = true)
    (hp : op.perform cfg x w = some (r, w')) : ∀ y ∈ w'.raised, tolerable cfg y = true := by
  have hnotes := perform_notes hp
  cases r with
  | ok a =>
      rw [show w'.raised = w.raised from hnotes]
      exact h
  | error err =>
      obtain ⟨-, late, w₁, rfl, hraised⟩ := hnotes
      simp only [smooth, hp] at hsmooth
      intro y hy
      rw [AgentWorld.note_raised, hraised] at hy
      rcases List.mem_append.mp hy with hy | hy
      · exact h y hy
      · obtain rfl := List.mem_singleton.mp hy
        rw [tolerable_late, hsmooth]

theorem HeardInv.perform {op : AgentOp} {x : AgentAnswer} {r : Except AgentError op.Res}
    (h : HeardInv cfg kind w) (hinv : Inv cfg kind w) (hK : (Heard cfg).op op x w)
    (hmay : May cfg kind K i w op) (hp : op.perform cfg x w = some (r, w')) :
    HeardInv cfg kind w' := by
  have hmono := Mono.perform hinv hp
  have hraised := raised_of_smooth h.raised hK.1 hp
  -- what was promised is kept
  have hkept : ∀ p ∈ w.processed, p.1.isCancel = true →
      EmittedSince p.2 w' p.1.executionId .canceled ∨ Owed kind w' p.1.executionId := by
    intro p hp' hcancel
    rcases h.promised p hp' hcancel with hsince | howed
    · exact .inl (hsince.mono hmono)
    · rcases howed.perform hmay hp with howed | hemitted
      · exact .inr howed
      · exact .inl ((hemitted p hp').mono hmono)
  rcases command_step hp with ⟨cmd, rfl, hhandling, hprocessed, hstore⟩ |
    ⟨cmd, rfl, hhandling, hprocessed, hstore⟩ | ⟨hhandling, hprocessed⟩
  · refine ⟨hraised, fun cmd' hcmd' hcancel hflight => ?_, by rwa [hprocessed]⟩
    obtain rfl := Option.some.inj (hhandling.symm.trans hcmd')
    have hbefore : InFlight w cmd.executionId .reclaim := by
      obtain ⟨f, hf, hrest⟩ := hflight
      exact ⟨f, by rw [← hstore]; exact hf, hrest⟩
    have hcollides := collides_eq_true hcancel hbefore
    rw [hK.2] at hcollides
    cases hcollides
  · refine ⟨hraised, fun cmd' hcmd' => ?_, fun p hp' hcancel => ?_⟩
    · rw [hhandling] at hcmd'
      cases hcmd'
    rw [hprocessed] at hp'
    rcases List.mem_append.mp hp' with hp' | hp'
    · exact hkept p hp' hcancel
    -- the cancel that was in hand
    obtain rfl := List.mem_singleton.mp hp'
    obtain ⟨-, -, hcmd, hanswered⟩ := hmay
    obtain ⟨htype, hintent⟩ := AgentCommand.isCancel_iff.mp hcancel
    rcases hanswered htype hintent with hsince | howed | hflight | ⟨y, hy, hbad⟩
    · exact .inl (hsince.mono hmono)
    · exact .inr (howed.of_store hstore)
    · exact (h.alone cmd hcmd hcancel hflight).elim
    · rw [h.raised y (List.mem_of_mem_drop hy)] at hbad
      cases hbad
  · refine ⟨hraised, fun cmd hcmd hcancel hflight => ?_, by rwa [hprocessed]⟩
    rw [hhandling] at hcmd
    rcases hflight.of_perform hinv hmay hp with hbefore | ⟨cmd', hcmd', -, -, hintent⟩
    · exact h.alone cmd hcmd hcancel hbefore
    · obtain rfl := Option.some.inj (hcmd.symm.trans hcmd')
      have hc := hintent.mpr (AgentCommand.isCancel_iff.mp hcancel).2
      cases hc

theorem heardInv_of_run {s : State}
    (h : StateMachine.RunOk (step cfg kind) (Heard cfg).Holds start s) :
    HeardInv cfg kind s.world := by
  refine run_invariant ?_ ?_ ?_ ?_ h
  · exact ⟨fun _ hy => (by cases hy), fun _ hcmd => (by cases hcmd), fun _ hp => (by cases hp)⟩
  · intro w m _ hw _
    have hsame : (w.move m).raised = w.raised ∧ (w.move m).handling = w.handling ∧
        (w.move m).processed = w.processed ∧ (w.move m).emitted = w.emitted ∧
        (w.move m).store = w.store := by
      cases m <;> exact ⟨rfl, rfl, rfl, rfl, rfl⟩
    obtain ⟨hraised, hhandling, hprocessed, hemitted, hstore⟩ := hsame
    refine ⟨by rw [hraised]; exact hw.raised, fun cmd hcmd hcancel hflight => ?_,
      fun p hp hcancel => ?_⟩
    · refine hw.alone cmd (hhandling.symm.trans hcmd) hcancel ?_
      obtain ⟨f, hf, hrest⟩ := hflight
      exact ⟨f, by rw [← hstore]; exact hf, hrest⟩
    · rcases hw.promised p (hprocessed ▸ hp) hcancel with ⟨ev, hev, hrest⟩ | howed
      · exact .inl ⟨ev, by rw [hemitted]; exact hev, hrest⟩
      · exact .inr (howed.of_store hstore)
  · exact fun i op x r w w' hinv hw hK hmay hp => hw.perform hinv hK hmay hp
  · refine fun w _ hw _ => ⟨hw.raised, fun _ hcmd => (by cases hcmd), fun p hp hcancel => ?_⟩
    exact (hw.promised p hp hcancel).imp_right fun howed => howed.of_store rfl

/-! ### The deadline -/

/-- No stop of the execution is in flight that is not past its deadline. -/
def PastDeadline (cfg : AgentConfig) (w : AgentWorld) (e : ExecutionId) : Prop :=
  ∀ f ∈ w.store.read e, f.phase = .started →
    ∀ t ∈ f.stopRequestedAt, t + cfg.stopConfirmTimeout ≤ w.now

/-- Every cancel that was handled when a tick past its deadline began is answered
when the tick ends. -/
def CancelsAnswered (cfg : AgentConfig) (kind : ExecutionId → RunnerType) (K : Cond) : Prop :=
  ∀ s s₂, StateMachine.RunOk (step cfg kind) K.Holds start s → TickOf cfg kind K s s₂ →
    ∀ p ∈ s.world.processed, p.1.isCancel = true → PastDeadline cfg s.world p.1.executionId →
      EmittedSince p.2 s₂.world p.1.executionId .canceled

/-- A tick is part of the run. -/
theorem TickOf.run_to {s s₂ : State} (h : TickOf cfg kind K s s₂)
    (hrun : StateMachine.RunOk (step cfg kind) K.Holds start s)
    (hlaunch : K.launch s.world .consumer .tick) :
    StateMachine.RunOk (step cfg kind) K.Holds start s₂ := by
  obtain ⟨s₁, hstart, hrest⟩ := h.run
  refine Relation.ReflTransGen.trans (hrun.tail ⟨.start .consumer .tick, hlaunch, hstart⟩) ?_
  exact hrest.mono Sys.Cond.holds_of_within

/-- **A cancel always yields canceled**, by the first tick past the deadline,
unless it was taken up while a reclaim was in flight. -/
theorem canceled_by_deadline (cfg : AgentConfig) (kind : ExecutionId → RunnerType)
    (hpos : 0 < cfg.stopConfirmTimeout) : CancelsAnswered cfg kind (Heard cfg) := by
  intro s s₂ hrun htick p hp hcancel hpast
  have hgood := good_of_run hrun
  have hinv₂ := heardInv_of_run (htick.run_to hrun trivial)
  obtain ⟨hgoes, hserved⟩ := htick.ticked hgood
  have hserved := hserved.resolve_left fun ⟨y, hy, hbad⟩ => by
    rw [hinv₂.raised y (List.mem_of_mem_drop hy)] at hbad
    cases hbad
  rcases hinv₂.promised p (by rw [hgoes.processed]; exact hp) hcancel with hsince | howed
  · exact hsince
  · -- a served attempt owes nothing
    obtain ⟨hkind, hcase⟩ := howed
    have hswept := (hserved p.1.executionId hkind).swept
    rcases hcase with ⟨f, hf, hphase, hstop, -⟩ | ⟨f, hf, -, -, hpending⟩
    · obtain ⟨t, ht⟩ := Option.isSome_iff_exists.mp hstop
      obtain ⟨f₀, hf₀, hphase₀, hstop₀, hdue⟩ := hswept.decided f t hf hphase ht
      exact absurd (hdue hpos) (not_lt.mpr (hpast f₀ hf₀ hphase₀ t hstop₀))
    · rw [hswept.settled f hf] at hpending
      cases hpending

/-! ### Runs -/

instance (n : Nat) (w : AgentWorld) (e : ExecutionId) (type : AgentEventType) :
    Decidable (EmittedSince n w e type) :=
  inferInstanceAs (Decidable (∃ ev ∈ w.emitted.drop n, ev.executionId = e ∧ ev.type = type))

instance (cfg : AgentConfig) (w : AgentWorld) (e : ExecutionId) :
    Decidable (PastDeadline cfg w e) :=
  inferInstanceAs (Decidable (∀ f ∈ w.store.read e, f.phase = .started →
    ∀ t ∈ f.stopRequestedAt, t + cfg.stopConfirmTimeout ≤ w.now))

instance (cfg : AgentConfig) (s : State) (a : Action) : Decidable ((Smooth cfg).Holds s a) :=
  have _ : ∀ w a, Decidable ((Smooth cfg).env w a) := fun _ _ => .isTrue trivial
  have _ : ∀ w i inp, Decidable ((Smooth cfg).launch w i inp) := fun _ _ _ => .isTrue trivial
  have _ : ∀ op x w, Decidable ((Smooth cfg).op op x w) := fun op x w =>
    inferInstanceAs (Decidable (smooth cfg op x w = true))
  have _ : ∀ w, Decidable ((Smooth cfg).crash w) := fun _ => .isTrue trivial
  inferInstance

instance (cfg : AgentConfig) (s : State) (a : Action) : Decidable ((Heard cfg).Holds s a) :=
  have _ : ∀ w a, Decidable ((Heard cfg).env w a) := fun _ _ => .isTrue trivial
  have _ : ∀ w i inp, Decidable ((Heard cfg).launch w i inp) := fun _ _ _ => .isTrue trivial
  have _ : ∀ op x w, Decidable ((Heard cfg).op op x w) := fun op x w =>
    inferInstanceAs (Decidable (smooth cfg op x w = true ∧ collides w op = false))
  have _ : ∀ w, Decidable ((Heard cfg).crash w) := fun _ => .isTrue trivial
  inferInstance

instance (cfg : AgentConfig) (i : Owner) (s : State) (a : Action) :
    Decidable (((Smooth cfg).within i).Holds s a) :=
  have _ : ∀ w a, Decidable ((Smooth cfg).env w a) := fun _ _ => .isTrue trivial
  have _ : ∀ w i inp, Decidable ((Smooth cfg).launch w i inp) := fun _ _ _ => .isTrue trivial
  have _ : ∀ op x w, Decidable ((Smooth cfg).op op x w) := fun op x w =>
    inferInstanceAs (Decidable (smooth cfg op x w = true))
  inferInstance

instance (cfg : AgentConfig) (i : Owner) (s : State) (a : Action) :
    Decidable (((Heard cfg).within i).Holds s a) :=
  have _ : ∀ w a, Decidable ((Heard cfg).env w a) := fun _ _ => .isTrue trivial
  have _ : ∀ w i inp, Decidable ((Heard cfg).launch w i inp) := fun _ _ _ => .isTrue trivial
  have _ : ∀ op x w, Decidable ((Heard cfg).op op x w) := fun op x w =>
    inferInstanceAs (Decidable (smooth cfg op x w = true ∧ collides w op = false))
  inferInstance

/-- The job goes on running, whatever is sent to it. -/
def sampleRunning : AgentAnswer := { jobs := { running := [0] } }

/-- A running job is canceled, and the deadline passes. -/
def sampleOverdue : List Action :=
  sampleStarted ++ runs (.command sampleCancel) 9 ++ [.env (.tick 60)]

/-- A running job is reclaimed, then canceled, and the deadline passes. -/
def sampleCollision : List Action :=
  sampleStarted ++ runs (.command sampleReclaim) 11 sampleRunning ++
    runs (.command sampleCancel) 3 sampleRunning ++ [.env (.tick 60)]

/-- The first cancel that was handled in `s` is past its deadline, and is answered
in `s₂` as `answered` says. -/
def checkCancel (answered : Bool) (s s₂ : State) : Bool :=
  s.world.processed.any fun p => p.1.isCancel &&
    decide (PastDeadline sampleConfig s.world p.1.executionId) &&
    decide (EmittedSince p.2 s₂.world p.1.executionId .canceled) == answered

theorem canceled_by_deadline_sample : ∃ (s s₂ : State) (p : AgentCommand × Nat),
    p ∈ s.world.processed ∧ PastDeadline sampleConfig s.world p.1.executionId ∧
      EmittedSince p.2 s₂.world p.1.executionId .canceled := by
  obtain ⟨s, s₂, hrun, htick, hs⟩ := exists_tick sampleConfig (fun _ => .scrapy)
    (Heard sampleConfig) sampleOverdue (List.replicate 11 (.op .consumer fun _ => sampleRunning))
    (checkCancel true) (by decide +kernel)
  obtain ⟨p, hp, hs⟩ := List.any_eq_true.mp hs
  simp only [Bool.and_eq_true, decide_eq_true_eq] at hs
  exact ⟨s, s₂, p, hp, hs.1.2,
    canceled_by_deadline sampleConfig (fun _ => .scrapy) (by decide) s s₂ hrun htick p hp hs.1.1
      hs.1.2⟩

/-- **A cancel that runs into a reclaim is lost**, even where nothing is raised. -/
theorem cancel_lost : ¬ ∀ (cfg : AgentConfig) (kind : ExecutionId → RunnerType),
    0 < cfg.stopConfirmTimeout → CancelsAnswered cfg kind (Smooth cfg) := by
  intro h
  obtain ⟨s, s₂, hrun, htick, hs⟩ := exists_tick sampleConfig (fun _ => .scrapy)
    (Smooth sampleConfig) sampleCollision
    (List.replicate 6 (.op .consumer fun _ => sampleRunning)) (checkCancel false)
    (by decide +kernel)
  obtain ⟨p, hp, hs⟩ := List.any_eq_true.mp hs
  simp only [Bool.and_eq_true, decide_eq_true_eq, beq_false, Bool.not_eq_true',
    decide_eq_false_iff_not] at hs
  exact hs.2 (h sampleConfig (fun _ => .scrapy) (by decide) s s₂ hrun htick p hp hs.1.1 hs.1.2)

end Cancels

end Agent

end Dopilot
