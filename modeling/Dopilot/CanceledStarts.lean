/-
Dopilot/CanceledStarts.lean

No start after a cancel.

The agent remembers a cancel in the state file of the execution.  A run command
that is handled later finds the file and starts nothing, whatever the order in
which the commands were dispatched, and however often they are delivered.  A
cancel that finds no file leaves none: `mark_done` has nothing to mark, and
`attempt.canceled` is sent all the same.  A run command that comes behind it in
the stream is then the first the agent hears of the execution.  It does come
behind it when a session has read the run row again before the cancel was
committed and appends it after the stop (`canceled_and_started`).
-/
import Dopilot.Joint

namespace Dopilot

namespace Agent

/-! ### Cancels that were processed -/

/-- A cancel of the execution was processed, and it was reported canceled. -/
def Canceled (e : ExecutionId) (w : AgentWorld) : Prop :=
  (∃ p ∈ w.processed, p.1.executionId = e ∧ p.1.type = .stop ∧ p.1.intent = some .cancel) ∧
    w.reported e .canceled = true

instance (e : ExecutionId) : DecidablePred (Canceled e) := fun w =>
  inferInstanceAs (Decidable ((∃ p ∈ w.processed, p.1.executionId = e ∧ p.1.type = .stop ∧
    p.1.intent = some .cancel) ∧ w.reported e .canceled = true))

section Canceled

variable {cfg : AgentConfig} {kind : ExecutionId → RunnerType} {e : ExecutionId}
  {w w' : AgentWorld} {op : AgentOp} {x : AgentAnswer} {r : Except AgentError op.Res}

/-- What was processed and what was emitted is not forgotten. -/
theorem Canceled.grows (h : Canceled e w) (hprocessed : w.processed <+: w'.processed)
    (hemitted : w.emitted <+: w'.emitted) : Canceled e w' := by
  obtain ⟨⟨p, hin, hcancel⟩, hreported⟩ := h
  obtain ⟨ev, hev, hcanceled⟩ := List.any_eq_true.mp hreported
  exact ⟨⟨p, hprocessed.subset hin, hcancel⟩,
    List.any_eq_true.mpr ⟨ev, hemitted.subset hev, hcanceled⟩⟩

theorem Canceled.perform (h : Canceled e w) (hp : op.perform cfg x w = some (r, w')) :
    Canceled e w' := by
  have heffect : ∀ {w₁}, Effect cfg x w op w₁ → Canceled e w₁ := by
    intro w₁ heffect
    cases heffect with
    | finished cmd => exact h.grows (List.prefix_append _ _) List.prefix_rfl
    | persisted ev houtbox => exact h.grows List.prefix_rfl (List.prefix_append _ _)
    | sent ev houtbox => exact h.grows List.prefix_rfl (List.prefix_append _ _)
    | _ => exact h
  obtain ⟨w₁, heffect₁, rfl | ⟨y, rfl⟩⟩ := perform_leads hp
  · exact heffect heffect₁
  · exact (heffect heffect₁).grows List.prefix_rfl List.prefix_rfl

/-- A cancel stays processed. -/
theorem Canceled.step {s s' : State} {a : Action} (h : Canceled e s.world)
    (hstep : step cfg kind s a = some s') : Canceled e s'.world := by
  cases a with
  | env m =>
      obtain rfl := Option.some.inj
        (show some { s with world := s.world.move m } = some s' from hstep)
      cases m <;> exact h
  | start i inp =>
      simp only [Agent.step, Sys.step] at hstep
      split at hstep
      · cases hstep
      · obtain ⟨p, -, rfl⟩ := Option.map_eq_some_iff.mp hstep
        exact h
  | op i answer =>
      simp only [Agent.step, Sys.step] at hstep
      split at hstep
      · obtain ⟨⟨r, w⟩, hp, rfl⟩ := Option.map_eq_some_iff.mp hstep
        exact h.perform hp
      · cases hstep
  | crash =>
      obtain rfl := Option.some.inj hstep
      exact h

end Canceled

end Agent

namespace Joint

open Agent (Canceled Remembered)

section Starts

variable {cfg : AgentConfig} {kind : ExecutionId → RunnerType} {e : ExecutionId}

/-- After a cancel of the execution, its run commands are begun only where the agent holds a
state file of it. -/
def Remembers (e : ExecutionId) (s : State) (a : Action) : Prop :=
  Meets (Remembered e (Canceled e)) s a

instance (e : ExecutionId) (s : State) (a : Action) : Decidable (Remembers e s a) :=
  inferInstanceAs (Decidable (Meets (Remembered e (Canceled e)) s a))

/-- **No start after a cancel.** -/
theorem never_started_after_cancel (cfg : AgentConfig) (kind : ExecutionId → RunnerType)
    (e : ExecutionId) {s s' s'' : State} {a : Action}
    (hrun : StateMachine.RunOk (step cfg kind) (Remembers e) start s)
    (hcanceled : Canceled e s.agent.world) (hidle : s.agent.procs .consumer = none)
    (hrun' : StateMachine.RunOk (step cfg kind) (Remembers e) s s')
    (hstep : step cfg kind s' a = some s'') : starts e s' a = false := by
  -- up to the cancel anything may be started; from it on, the agent only adds to what it has done
  have hbefore : StateMachine.Run (Agent.step cfg kind) Agent.start s.agent :=
    (agent_run (fun _ _ h => h) hrun).mono fun _ _ _ => trivial
  have hafter := agent_run (fun _ _ h => h) hrun'
  have hbarred : StateMachine.RunOk (Agent.step cfg kind) (Remembered e fun _ => True).Holds
      s.agent s'.agent := by
    refine hafter.strengthen (I := fun t => Canceled e t.world) ?_ ?_ hcanceled
    · exact fun t b t' ht _ hb => ht.step hb
    · exact fun t b ht hb => Agent.remembered_of hb fun _ => ht
  rcases step_agent hstep with ⟨-, hnone⟩ | ⟨b, hb, hnext⟩
  · rw [starts, hnone]
    rfl
  · rw [starts, hb]
    exact Agent.not_started (B := fun _ => True)
      ⟨fun _ _ _ => trivial, fun _ _ => trivial, fun _ _ _ _ _ _ _ _ => trivial⟩
      hbefore hidle hbarred hnext trivial

/-! ### Runs -/

/-- A task with one execution, whose executor has its first row still to deliver. -/
def sampleTask : List Action :=
  [.server (.create 0 1 {} .scrapy { artifact := some { project := "project" } } [(7, 1)])]

/-- The executor reads the run row, the task is canceled and its stop appended, and then the
run command is appended. -/
def sampleOvertaken : List Action :=
  sampleTask ++ [.server (.refresh 0 0), .server (.cancel 0 1), .server (.refresh 1 0),
    .server (.append 1 0 true), .server (.commit 1 0 .none), .server (.append 0 0 true),
    .server (.commit 0 0 .none)]

/-- The agent starts, reads both commands and handles the stop. -/
def sampleStop : List Action :=
  sampleOvertaken ++ sampleBoot ++ [.read 10, .handle] ++ ops 9 ++ [.ack true]

/-- **A cancel that finds no state file is forgotten**: the run command behind it is started. -/
theorem started_after_cancel : ¬ ∀ (cfg : AgentConfig) (kind : ExecutionId → RunnerType)
    (e : ExecutionId) (s s' s'' : State) (a : Action), StateMachine.Run (step cfg kind) start s →
    Canceled e s.agent.world → s.agent.procs .consumer = none →
    StateMachine.Run (step cfg kind) s s' → step cfg kind s' a = some s'' →
    starts e s' a = false := by
  intro h
  obtain ⟨s, s', hrun, hrun', hs⟩ := StateMachine.RunOk.exists_of_checkedRuns
    (step Agent.sampleConfig fun _ => .scrapy) (fun _ _ => True) start sampleStop
    (.handle :: ops 8) (fun s s' => decide (Canceled 7 s.agent.world) &&
      (s.agent.procs .consumer).isNone && starts 7 s' (.agent (.op .consumer fun _ => {})) &&
      (step Agent.sampleConfig (fun _ => .scrapy) s' (.agent (.op .consumer fun _ => {}))).isSome)
    (by decide +kernel)
  simp only [Bool.and_eq_true, decide_eq_true_eq, Option.isNone_iff_eq_none] at hs
  obtain ⟨⟨⟨hcanceled, hidle⟩, hstarts⟩, hsome⟩ := hs
  obtain ⟨s'', hstep⟩ := Option.isSome_iff_exists.mp hsome
  have hnot := h Agent.sampleConfig (fun _ => .scrapy) 7 s s' s'' _ hrun hcanceled hidle hrun' hstep
  rw [hstarts] at hnot
  cases hnot

/-- The job runs when it is canceled, and has ended by the next pass. -/
def sampleEnded : List Action :=
  sampleTask ++ [.server (.refresh 0 0), .server (.append 0 0 true), .server (.commit 0 0 .none)] ++
    sampleBoot ++ [.read 10, .handle] ++ ops 15 ++ [.ack true, .server (.cancel 0 1),
    .server (.refresh 1 0), .server (.append 1 0 true), .server (.commit 1 0 .none), .read 10,
    .handle] ++ ops 9 ++ [.ack true, .agent (.start .consumer .tick)] ++ ops 14

/-- The message of the run command is gone, and the command is sent again. -/
def sampleSentAgain : List Action :=
  [.server (.vanish [0]), .server (.tick 1 [0] [0]), .server (.refresh 2 1),
    .server (.append 2 1 true), .server (.commit 2 1 .none), .read 10, .handle] ++ ops 7

theorem never_started_after_cancel_sample : ∃ s s' s'' : State,
    StateMachine.RunOk (step Agent.sampleConfig fun _ => .scrapy) (Remembers 7) start s ∧
      Canceled 7 s.agent.world ∧
      StateMachine.RunOk (step Agent.sampleConfig fun _ => .scrapy) (Remembers 7) s s' ∧
      Agent.Handling s'.agent.world 7 .run ∧
      step Agent.sampleConfig (fun _ => .scrapy) s' (.agent (.op .consumer fun _ => {})) =
        some s'' ∧
      starts 7 s' (.agent (.op .consumer fun _ => {})) = false := by
  obtain ⟨s, s', hrun, hrun', hs⟩ := StateMachine.RunOk.exists_of_checkedRuns
    (step Agent.sampleConfig fun _ => .scrapy) (Remembers 7) start sampleEnded sampleSentAgain
    (fun s s' => decide (Canceled 7 s.agent.world) && (s.agent.procs .consumer).isNone &&
      s'.agent.world.handling.any (fun cmd => cmd.executionId == 7 && cmd.type == .run) &&
      (step Agent.sampleConfig (fun _ => .scrapy) s' (.agent (.op .consumer fun _ => {}))).isSome)
    (by decide +kernel)
  simp only [Bool.and_eq_true, decide_eq_true_eq, Option.isNone_iff_eq_none] at hs
  obtain ⟨⟨⟨hcanceled, hidle⟩, hhandling⟩, hsome⟩ := hs
  obtain ⟨s'', hstep⟩ := Option.isSome_iff_exists.mp hsome
  obtain ⟨cmd, hcmd, hrunning⟩ := (Option.any_eq_true _ _).mp hhandling
  simp only [Bool.and_eq_true, beq_iff_eq] at hrunning
  exact ⟨s, s', s'', hrun, hcanceled, hrun', ⟨cmd, hcmd, hrunning⟩, hstep,
    never_started_after_cancel Agent.sampleConfig (fun _ => .scrapy) 7 hrun hcanceled hidle hrun'
      hstep⟩

end Starts

end Joint

end Dopilot
