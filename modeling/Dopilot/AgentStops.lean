/-
Dopilot/AgentStops.lean

The stop machine of the agent.

A stop is recorded in the state file and driven by the passes: TERM, KILL, and a
deadline for the terminal.  While it is in flight, or its kill or its terminal is
outstanding, the file stays (`file_stays`); a KILL of the watchdog follows a TERM
that was acknowledged for the same request (`kill_after_term`); the watchdog's
first call past the deadline ends the attempt; and what a tick leaves is
`Ticked`, whatever commands, crashes and answers there were before.
-/
import Dopilot.AgentSystem

namespace Dopilot

namespace Agent

open AgentOp (call ask)

section Stops

variable {cfg : AgentConfig} {kind : ExecutionId → RunnerType} {K : Cond}

/-! ### The file stays -/

/-- No step of the agent removes a state file that must wait. -/
theorem file_stays {s s' : State} {a : Action} {e : ExecutionId} {f : AttemptState}
    (hs : (verified cfg kind K).Good s) (hok : K.Holds s a) (hstep : step cfg kind s a = some s')
    (hread : s.world.store.read e = some f) (hwait : cleanupMustWait f = true) :
    (s'.world.store.read e).isSome = true := by
  cases a with
  | env m =>
      obtain rfl := Option.some.inj
        (show some { s with world := s.world.move m } = some s' from hstep)
      have hstore : (s.world.move m).store = s.world.store := by cases m <;> rfl
      rw [hstore, hread]
      rfl
  | start i inp =>
      simp only [step, Sys.step] at hstep
      split at hstep
      · cases hstep
      · obtain ⟨p, -, rfl⟩ := Option.map_eq_some_iff.mp hstep
        rw [hread]
        rfl
  | op i answer =>
      obtain ⟨op, x, r, -, hp, hmay⟩ := (verified cfg kind K).step_guar hs hok hstep
      have hfile := fileStep hmay hp e
      rw [hread] at hfile
      generalize s'.world.store.read e = f' at hfile
      cases hfile with
      | same => rfl
      | marked m f hheld hm => rfl
      | deleted f hfree hasked =>
          rw [hfree] at hwait
          cases hwait
  | crash =>
      obtain rfl := Option.some.inj hstep
      show (s.world.store.read e).isSome = true
      rw [hread]
      rfl

/-! ### KILL comes after TERM -/

/-- TERM was acknowledged for the stop that the file records. -/
def TermAcked (signals : List SentSignal) (e : ExecutionId) (t : Option Time) : Prop :=
  ∃ g ∈ signals, g.executionId = e ∧ g.kill = false ∧ g.acked = true ∧ g.requestedAt = t

/-- A KILL of the stop watchdog came late enough, after an acknowledged TERM. -/
def KillInOrder (cfg : AgentConfig) (earlier : List SentSignal) (g : SentSignal) : Prop :=
  g.sender = .stopWatchdog → g.kill = true →
    TermAcked earlier g.executionId g.requestedAt ∧
      ∃ t, g.requestedAt = some t ∧ t + cfg.stopKillAfter ≤ g.sentAt

/-- What the signals and the recorded escalations say of each other. -/
structure Escalated (cfg : AgentConfig) (w : AgentWorld) : Prop where
  term : ∀ e f, w.store.read e = some f → f.stopEscalation = some .term →
    TermAcked w.signals e f.stopRequestedAt
  ordered : ∀ earlier g, earlier ++ [g] <+: w.signals → KillInOrder cfg earlier g

theorem TermAcked.mono {signals signals' : List SentSignal} {e : ExecutionId} {t : Option Time}
    (h : TermAcked signals e t) (hkept : signals <+: signals') : TermAcked signals' e t := by
  obtain ⟨g, hg, hrest⟩ := h
  exact ⟨g, hkept.subset hg, hrest⟩

/-- A mark records TERM for the stop it was acknowledged for, or keeps both. -/
theorem MayMark.termAcked {i : Owner} {w : AgentWorld} {e : ExecutionId} {f : AttemptState}
    {m : Mark} (h : MayMark cfg kind K i w e f m)
    (hterm : f.stopEscalation = some .term → TermAcked w.signals e f.stopRequestedAt)
    (hmarked : (m.apply f).stopEscalation = some .term) :
    TermAcked w.signals e (m.apply f).stopRequestedAt := by
  cases h with
  | stopEscalation escalation hphase hsent => exact hsent (Option.some.inj hmarked)
  | stopRequested intent t hkind hphase hstop hnow hcmd => cases hmarked
  | promoteStarted | promoteStartedWheel | failed | aborted | orphaned | stats | finished | waited
  | reclaimed | canceledStop | canceledNow | reclaimedWheel | cleanupPending | killAttempt
  | clearKillPending | clearTerminalPending | canceled | logFlood | logCapped =>
      exact hterm hmarked

/-- What an operation adds to the signals. -/
theorem signals_step {i : Owner} {op : AgentOp} {x : AgentAnswer} {w w' : AgentWorld}
    {r : Except AgentError op.Res} (hmay : May cfg kind K i w op)
    (hp : op.perform cfg x w = some (r, w')) :
    w'.signals = w.signals ∨ ∃ g e f, w'.signals = w.signals ++ [g] ∧
      w.store.read e = some f ∧ g.executionId = e ∧ g.requestedAt = f.stopRequestedAt ∧
      g.sentAt = w.now ∧ (g.sender = .stopWatchdog → g.kill = true →
        f.stopEscalation = some .term ∧
          ∃ t, f.stopRequestedAt = some t ∧ t + cfg.stopKillAfter ≤ w.now) := by
  obtain ⟨w₁, heffect, hw'⟩ := perform_leads hp
  have hstep : w₁.signals = w.signals ∨ ∃ g e f, w₁.signals = w.signals ++ [g] ∧
      w.store.read e = some f ∧ g.executionId = e ∧ g.requestedAt = f.stopRequestedAt ∧
      g.sentAt = w.now ∧ (g.sender = .stopWatchdog → g.kill = true →
        f.stopEscalation = some .term ∧
          ∃ t, f.stopRequestedAt = some t ∧ t + cfg.stopKillAfter ≤ w.now) := by
    cases heffect with
    | signalled e project job kill sender acked =>
        obtain ⟨-, -, f, hread, -, hkill⟩ := hmay
        exact .inr ⟨_, e, f, rfl, hread, rfl, by simp [hread], rfl, hkill⟩
    | _ => exact .inl rfl
  rcases hw' with rfl | ⟨y, rfl⟩
  · exact hstep
  · exact hstep

theorem Escalated.perform {i : Owner} {op : AgentOp} {x : AgentAnswer} {w w' : AgentWorld}
    {r : Except AgentError op.Res} (h : Escalated cfg w) (hinv : Inv cfg kind w)
    (hmay : May cfg kind K i w op) (hp : op.perform cfg x w = some (r, w')) :
    Escalated cfg w' where
  term e f' hf' hterm := by
    have hsignals := (Mono.perform hinv hp).signals
    have hfile := fileStep hmay hp e
    rw [hf'] at hfile
    cases hread : w.store.read e with
    | none =>
        rw [hread] at hfile
        cases hfile with
        | created f' hs hphase hcmd =>
            rw [(hs.reserved hphase).2.2.1] at hterm
            cases hterm
    | some f =>
        have hold := h.term e f hread
        rw [hread] at hfile
        cases hfile with
        | same => exact (hold hterm).mono hsignals
        | marked m f hheld hm => exact (hm.termAcked hold hterm).mono hsignals
  ordered earlier g hkept := by
    rcases signals_step hmay hp with hsame | ⟨g', e, f, hnew, hread, hid, hat, hsent, hkill⟩
    · rw [hsame] at hkept
      exact h.ordered earlier g hkept
    · rw [hnew] at hkept
      rcases List.prefix_concat_iff.mp hkept with hlast | hbefore
      · obtain ⟨rfl, hg⟩ := List.append_inj' hlast rfl
        obtain rfl := (List.cons.inj hg).1
        intro hsender hk
        obtain ⟨hterm, t, ht, hlate⟩ := hkill hsender hk
        rw [hid, hat, hsent]
        exact ⟨h.term e f hread hterm, t, ht, hlate⟩
      · exact h.ordered earlier g hbefore

/-- **KILL comes after TERM**, in every run. -/
theorem escalated_of_run {s : State} (h : StateMachine.RunOk (step cfg kind) K.Holds start s) :
    Escalated cfg s.world := by
  refine run_invariant ?_ ?_ ?_ ?_ h
  · refine ⟨fun e f hf => (by cases hf), fun earlier g hkept => ?_⟩
    have hnil := List.prefix_nil.mp hkept
    simp at hnil
  · intro w m _ hw _
    have hstore : (w.move m).store = w.store := by cases m <;> rfl
    have hsignals : (w.move m).signals = w.signals := by cases m <;> rfl
    refine ⟨?_, ?_⟩
    · rw [hstore, hsignals]
      exact hw.term
    · rw [hsignals]
      exact hw.ordered
  · exact fun i op x r w w' hinv hw _ hmay hp => hw.perform hinv hmay hp
  · exact fun w _ hw _ => ⟨hw.term, hw.ordered⟩

/-! ### Ticks -/

/-- The consumer, idle in `s`, makes a tick that has come to its end in `s₂`. -/
structure TickOf (cfg : AgentConfig) (kind : ExecutionId → RunnerType) (K : Cond)
    (s s₂ : State) : Prop where
  run : ∃ s₁, step cfg kind s (.start .consumer .tick) = some s₁ ∧
    StateMachine.RunOk (step cfg kind) (K.within .consumer).Holds s₁ s₂
  idle : s₂.procs .consumer = none

/-- A tick is exhibited by executing it. -/
theorem exists_tick (cfg : AgentConfig) (kind : ExecutionId → RunnerType) (K : Cond)
    [∀ (s : State) (a : Action), Decidable (K.Holds s a)]
    [∀ (s : State) (a : Action), Decidable ((K.within .consumer).Holds s a)]
    (as bs : List Action) (P : State → State → Bool)
    (h : ((StateMachine.checkedRun (step cfg kind) K.Holds start as).any fun s =>
      ((step cfg kind s (.start .consumer .tick)).bind fun s₁ =>
        StateMachine.checkedRun (step cfg kind) (K.within .consumer).Holds s₁ bs).any fun s₂ =>
          (s₂.procs .consumer).isNone && P s s₂) = true) :
    ∃ s s₂, StateMachine.RunOk (step cfg kind) K.Holds start s ∧ TickOf cfg kind K s s₂ ∧
      P s s₂ = true := by
  obtain ⟨s, hs, h⟩ := (Option.any_eq_true _ _).mp h
  obtain ⟨s₂, hs₂, h⟩ := (Option.any_eq_true _ _).mp h
  obtain ⟨s₁, hs₁, hs₂⟩ := Option.bind_eq_some_iff.mp hs₂
  simp only [Bool.and_eq_true, Option.isNone_iff_eq_none] at h
  have hrun : StateMachine.RunOk (step cfg kind) K.Holds start s := .of_checkedRun hs
  have htick : StateMachine.RunOk (step cfg kind) (K.within .consumer).Holds s₁ s₂ :=
    .of_checkedRun hs₂
  exact ⟨s, s₂, hrun, ⟨⟨s₁, hs₁, htick⟩, h.1⟩, h.2⟩

theorem Ticked.rely {w w₁ w₂ : AgentWorld} (h : Ticked cfg kind w w₁)
    (hw : Rely kind .consumer w₁ w₂) : Ticked cfg kind w w₂ := by
  refine ⟨h.1.trans hw.goes, h.2.imp (fun hd => hd.mono hw.mono) fun hserved e hkind => ?_⟩
  exact (hserved e hkind).around (.refl w) rfl hw.mono (hw.read e (.inl hkind))

/-- What a tick leaves, in every run. -/
theorem TickOf.ticked {s s₂ : State} (h : TickOf cfg kind K s s₂)
    (hs : (verified cfg kind K).Good s) : Ticked cfg kind s.world s₂.world := by
  obtain ⟨s₁, hstart, hrun⟩ := h.run
  refine (verified cfg kind K).ended (Q := Ticked cfg kind s.world) hs (fun p hp => ?_)
    (fun _ _ hq hw => hq.rely hw) hstart hrun h.idle
  simp only [spec, launch] at hp
  split at hp
  · obtain rfl := Option.some.inj hp
    exact agentTick_follows hs.1.processed
  · cases hp

/-- Nothing was raised in a tick that it is not made for. -/
def Undisturbed (cfg : AgentConfig) (s s₂ : State) : Prop :=
  ¬ Disturbed cfg s.world.raised.length s₂.world

instance (s s₂ : State) : Decidable (Undisturbed cfg s s₂) :=
  inferInstanceAs (Decidable (¬ ∃ x ∈ s₂.world.raised.drop s.world.raised.length,
    tolerable cfg x = false))

/-- What was raised in a tick that deletes the files of an attempt. -/
abbrev DeletionFailed (s s₂ : State) (e : ExecutionId) (f : AttemptState) : Prop :=
  Undeleted s.world.raised.length s₂.world e f

theorem TickOf.served {s s₂ : State} (h : TickOf cfg kind K s s₂)
    (hs : (verified cfg kind K).Good s) (hquiet : Undisturbed cfg s s₂) {e : ExecutionId}
    (hkind : kind e = .scrapy) : Served cfg s.world.raised.length s.world s₂.world e :=
  (h.ticked hs).2.resolve_left hquiet e hkind

/-- A cleanup is never deferred for a wheel. -/
theorem scrapy_of_cleanupPending {w : AgentWorld} {e : ExecutionId} {f : AttemptState}
    (hinv : Inv cfg kind w) (hread : w.store.read e = some f) (hpending : f.cleanupPending = true) :
    kind e = .scrapy := by
  cases hkind : kind e with
  | scrapy => rfl
  | pythonWheel =>
      rw [((hinv.sound e f hread).wheel hkind).1.cleanupPending] at hpending
      cases hpending

/-- A stop is never in flight for a wheel. -/
theorem scrapy_of_stopRequested {w : AgentWorld} {e : ExecutionId} {f : AttemptState} {t : Time}
    (hinv : Inv cfg kind w) (hread : w.store.read e = some f) (hstop : f.stopRequestedAt = some t) :
    kind e = .scrapy := by
  cases hkind : kind e with
  | scrapy => rfl
  | pythonWheel =>
      rw [((hinv.sound e f hread).wheel hkind).1.stopRequestedAt] at hstop
      cases hstop

/-- A deferred cleanup is carried out at the first tick that finds nothing to wait for. -/
theorem TickOf.cleans {s s₂ : State} (h : TickOf cfg kind K s s₂)
    (hs : (verified cfg kind K).Good s) (hs₂ : Inv cfg kind s₂.world)
    (hquiet : Undisturbed cfg s s₂) (e : ExecutionId) (f : AttemptState)
    (hpending : f.cleanupPending = true) (hfree : cleanupMustWait f = false) :
    (s.world.store.read e = some f → s₂.world.store.read e = none ∨ DeletionFailed s s₂ e f) ∧
      (s₂.world.store.read e = some f → DeletionFailed s s₂ e f) := by
  refine ⟨fun hread => ?_, fun hread => ?_⟩
  · have hserved := h.served hs hquiet (scrapy_of_cleanupPending hs.1 hread hpending)
    exact (hserved.cleared f hread hpending hfree).imp_right And.right
  · have hserved := h.served hs hquiet (scrapy_of_cleanupPending hs₂ hread hpending)
    rcases hserved.swept.tidy f hread hpending with hwait | hfailed
    · rw [hfree] at hwait
      cases hwait
    · exact hfailed

/-- A job that a TERM did not stop is killed. -/
def sampleKilled : List Action :=
  sampleStarted ++ runs (.command sampleCancel) 9 ++ [.env (.tick 20)] ++
    runs .tick 11 { jobs := { running := [0] } }

end Stops

end Agent

end Dopilot
