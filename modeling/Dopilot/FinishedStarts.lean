/-
Dopilot/FinishedStarts.lean

A finished execution is not started again.

The dispatcher looks at the row of a run command and at the task, never at the
execution.  A task goes on as long as one of its executions does, so a run row
whose message is gone is sent again although its own execution is over, and the
agent, which has removed the state file in the meantime, starts it again
(`finished_and_restarted`).  `Unspent` says what must not happen: a run row is
read again only while its execution is not recorded as finished, failed or
canceled, nothing is recorded while a session is about to append its row, and
the agent begins a run command of an execution it has started before only
where it holds a state file.
-/
import Dopilot.AgentTerminals
import Dopilot.Joint
import Dopilot.Sessions

namespace Dopilot

/-! ### What the dispatcher appends -/

namespace Dispatch

section Recorded

variable {db db' : ServerDb} {e : ExecutionId} {s s' : State} {a : Action}

/-- The execution is recorded as finished, failed or canceled. -/
def Recorded (db : ServerDb) (e : ExecutionId) : Prop :=
  (db.execStatus e).any (fun x => x.2.hard) = true

instance (db : ServerDb) (e : ExecutionId) : Decidable (Recorded db e) :=
  inferInstanceAs (Decidable ((db.execStatus e).any (fun x => x.2.hard) = true))

theorem recorded_iff : Recorded db e ↔ ∃ t st, db.execStatus e = some (t, st) ∧ st.hard = true := by
  unfold Recorded
  rw [Option.any_eq_true]
  constructor
  · rintro ⟨⟨t, st⟩, he, hst⟩
    exact ⟨t, st, he, hst⟩
  · rintro ⟨t, st, he, hst⟩
    exact ⟨(t, st), he, hst⟩

theorem Recorded.onward (h : Recorded db e) (hon : db.Onward db') : Recorded db' e := by
  obtain ⟨t, st, he, hst⟩ := recorded_iff.mp h
  obtain ⟨st', he', hadv⟩ := hon.target he
  refine recorded_iff.mpr ⟨t, st', he', ?_⟩
  rw [hadv.hard hst]
  exact hst

theorem Recorded.congr (h : Recorded db e) (hexec : db'.execStatus e = db.execStatus e) :
    Recorded db' e := by
  unfold Recorded
  rw [hexec]
  exact h

/-- **What is recorded stays recorded.** -/
theorem Recorded.step (h : Recorded s.db e) (hstep : step s a = some s') : Recorded s'.db e := by
  cases step_cases hstep with
  | write _ => exact h.onward (Writer.apply_onward _ _).1
  | issue _ _ _ => exact h
  | noTarget _ => exact h
  | @create now t task taskType payload nodes last htask hnew hnodup _ =>
      obtain ⟨-, hexec, -⟩ := createTask_spec s.db now t task taskType payload htask hnew hnodup
      -- the executions of a new task are new
      refine h.congr ((hexec e).trans (if_neg fun hmem => ?_))
      obtain ⟨n, hn, rfl⟩ := List.mem_map.mp hmem
      obtain ⟨t', st, he, -⟩ := recorded_iff.mp h
      unfold ServerDb.execStatus at he
      rw [hnew n hn] at he
      cases he
  | @cancel now t => exact h.congr ((requestCancel_spec s.db now t).2.1 e)
  | tick _ _ _ _ _ => exact h
  | refresh _ _ => exact h
  | sent _ _ _ => exact h
  | raised _ _ => exact h
  | giveUp _ _ => exact h
  | @commit i now held x db hx hdb =>
      -- a session writes rows of the outbox; its commit may fail what is still pending
      have hview : Recorded (x.view s.db) e := h.onward applyWrites_onward
      cases Session.committed hdb with
      | done _ _ _ => exact hview
      | @unavailable t _ _ _ _ _ _ =>
          obtain ⟨t', st, he, hst⟩ := recorded_iff.mp hview
          refine recorded_iff.mpr
            ⟨t', _, (failDispatchUnavailable_execStatus e).trans (congrArg _ he), ?_⟩
          simp only
          split
          · rfl
          · exact hst
  | abort => exact h
  | vanish => exact h

/-- A session has read the row of a run command, and is about to append it. -/
def Sending (s : State) (e : ExecutionId) : Prop :=
  ∃ x ∈ s.sessions.rows, ∃ r ∈ x.2.sending, r.2.type = .run ∧ r.2.executionId = e

/-- A run command of the execution is appended to a stream. -/
def appends (e : ExecutionId) (s : State) : Action → Bool
  | .append i _ ok =>
      ok && ((s.sessions.get i).bind (·.sending)).any fun r =>
        decide (r.2.type = .run) && decide (r.2.executionId = e)
  | _ => false

theorem sending_of_appends (h : appends e s a = true) : Sending s e := by
  cases a with
  | append i now ok =>
      simp only [appends, Bool.and_eq_true, Option.any_eq_true, decide_eq_true_eq] at h
      obtain ⟨-, r, hr, hrun⟩ := h
      obtain ⟨x, hx, hsending⟩ := Option.bind_eq_some_iff.mp hr
      exact ⟨(i, x), Table.mem_rows_iff.mpr hx, r, hsending, hrun⟩
  | _ => cases h

/-- A session reads its next row again: it is that of a run command of the execution, and may
be sent. -/
def rereads (e : ExecutionId) (s : State) : Action → Bool
  | .refresh i _ =>
      (s.sessions.get i).any fun x => x.todo.head?.any fun r =>
        ((x.view s.db).outbox.get r.1).any fun row =>
          decide (row.type = .run) && decide (row.executionId = e) &&
            decide (planDispatch row (x.seenTask s.db row.taskId) = .send)
  | _ => false

/-- A run row that may be sent is read again only while its execution is not recorded, and
the execution is not recorded while a session is about to append its run command. -/
structure Unrecorded (e : ExecutionId) (s : State) (a : Action) : Prop where
  reread : rereads e s a = true → ¬ Recorded s.db e
  waited : Sending s e → ∀ s' ∈ step s a, ¬ Recorded s'.db e

/-- How a session comes to have a row to append. -/
theorem sending_step (hok : Unrecorded e s a) (hstep : step s a = some s')
    (hsending : Sending s' e) : Sending s e ∨ s'.db = s.db ∧ ¬ Recorded s.db e := by
  obtain ⟨⟨j, y⟩, hy, r, hr, hrun, hid⟩ := hsending
  have hget : s'.sessions.get j = some y := Table.mem_rows_iff.mp hy
  have hold : s.sessions.get j = some y → Sending s e := fun hj =>
    ⟨(j, y), Table.mem_rows_iff.mpr hj, r, hr, hrun, hid⟩
  have hnew : ∀ {z : Session}, z.sending = none → y ≠ z := by
    rintro z hz rfl
    rw [show y.sending = some r from hr] at hz
    cases hz
  cases step_cases hstep with
  | write _ => exact .inl (hold hget)
  | issue _ _ _ => exact .inl (hold hget)
  | noTarget _ => exact .inl (hold hget)
  | create _ _ _ _ =>
      rcases addSession_cases hget with hj | ⟨-, rfl⟩
      · exact .inl (hold hj)
      · exact absurd rfl (hnew rfl)
  | cancel =>
      rcases addSession_cases hget with hj | ⟨-, rfl⟩
      · exact .inl (hold hj)
      · exact absurd rfl (hnew rfl)
  | tick _ _ _ _ _ =>
      rcases addSession_cases hget with hj | ⟨-, rfl⟩
      · exact .inl (hold hj)
      · exact absurd rfl (hnew rfl)
  | @refresh i now x x' hx hx' =>
      rcases sessions_cases hget with hj | ⟨-, rfl⟩
      · exact .inl (hold hj)
      refine .inr ⟨rfl, ?_⟩
      cases Session.refreshed hx' with
      | sent hnone _ _ _ => exact absurd rfl (hnew hnone)
      | canceled hnone _ _ _ => exact absurd rfl (hnew hnone)
      | notDispatchable hnone _ _ _ _ _ _ => exact absurd rfl (hnew hnone)
      | @send c loaded todo row _ htodo hrow hsent hcanceled hterminal =>
          -- the only way to come by a row to append
          obtain rfl : (c, row) = r := Option.some.inj hr
          have hplan : planDispatch row (x.seenTask s.db row.taskId) = .send := by
            unfold planDispatch
            rw [if_neg hsent, if_neg hcanceled, if_neg]
            rintro ⟨-, hall⟩
            rw [hterminal hrun] at hall
            cases hall
          refine hok.reread ?_
          simp only [rereads, Option.any_eq_true, Bool.and_eq_true, decide_eq_true_eq]
          exact ⟨x, hx, (c, loaded), by rw [htodo]; rfl, row, hrow, ⟨hrun, hid⟩, hplan⟩
  | @sent i now x c row x' hx _ hx' =>
      rcases sessions_cases hget with hj | ⟨-, rfl⟩
      · exact .inl (hold hj)
      · cases Session.appended hx' with
        | sent m _ => exact absurd rfl (hnew rfl)
  | @raised i now x x' hx hx' =>
      rcases sessions_cases hget with hj | ⟨-, rfl⟩
      · exact .inl (hold hj)
      · cases Session.appended hx' with
        | retry _ _ => exact absurd rfl (hnew rfl)
        | failed _ => exact absurd rfl (hnew rfl)
  | @giveUp i now x x' hx hx' =>
      rcases sessions_cases hget with hj | ⟨-, rfl⟩
      · exact .inl (hold hj)
      · obtain ⟨c, loaded, todo, -, hnone, -, -, rfl⟩ := Session.gaveUp hx'
        exact absurd rfl (hnew hnone)
  | commit _ _ => exact .inl (hold (eraseSession_cases hget))
  | abort => exact .inl (hold (eraseSession_cases hget))
  | vanish => exact .inl (hold hget)

/-- What is about to be appended belongs to an execution that is not recorded. -/
theorem unrecorded_run (h : StateMachine.RunOk step (Unrecorded e) State.start s)
    (hsending : Sending s e) : ¬ Recorded s.db e := by
  refine h.invariant (I := fun s => Sending s e → ¬ Recorded s.db e) ?_ ?_ hsending
  · intro s a s' hi hok hstep hsending
    rcases sending_step hok hstep hsending with hbefore | ⟨hdb, hnot⟩
    · exact hok.waited hbefore s' hstep
    · rw [hdb]
      exact hnot
  · rintro ⟨x, hx, -⟩
    exact absurd hx List.not_mem_nil

instance (s : State) (e : ExecutionId) : Decidable (Sending s e) :=
  inferInstanceAs (Decidable (∃ x ∈ s.sessions.rows, ∃ r ∈ x.2.sending, r.2.type = .run ∧
    r.2.executionId = e))

instance (e : ExecutionId) (s : State) (a : Action) : Decidable (Unrecorded e s a) :=
  decidable_of_iff ((rereads e s a = true → ¬ Recorded s.db e) ∧
      (Sending s e → ∀ s' ∈ step s a, ¬ Recorded s'.db e))
    ⟨fun h => ⟨h.1, h.2⟩, fun h => ⟨h.reread, h.waited⟩⟩

end Recorded

end Dispatch

/-! ### What the agent has started -/

namespace Agent

section Started

variable {cfg : AgentConfig} {kind : ExecutionId → RunnerType} {e : ExecutionId}
  {w w' : AgentWorld} {op : AgentOp} {x : AgentAnswer} {r : Except AgentError op.Res}

/-- The execution was started: there is a job or a child of it, or its start has raised. -/
def Started (e : ExecutionId) (w : AgentWorld) : Prop :=
  (∃ j ∈ w.jobs.rows, j.2.executionId = e) ∨ (∃ c ∈ w.children.rows, c.2.executionId = e) ∨
    ∃ y ∈ w.raised, startsRun e y.op = true

instance (e : ExecutionId) : DecidablePred (Started e) := fun w =>
  inferInstanceAs (Decidable ((∃ j ∈ w.jobs.rows, j.2.executionId = e) ∨
    (∃ c ∈ w.children.rows, c.2.executionId = e) ∨ ∃ y ∈ w.raised, startsRun e y.op = true))

/-- What was started stays started. -/
theorem Started.mono (h : Started e w) (hmono : Mono w w') : Started e w' := by
  rcases h with ⟨⟨n, job⟩, hjob, rfl⟩ | ⟨⟨n, c⟩, hc, rfl⟩ | ⟨y, hy, hstarts⟩
  · obtain ⟨job', hjob', hid⟩ := hmono.jobs n job (Table.mem_rows_iff.mp hjob)
    exact .inl ⟨(n, job'), Table.mem_rows_iff.mpr hjob', hid⟩
  · obtain ⟨c', hc', hid, -⟩ := hmono.children n c (Table.mem_rows_iff.mp hc)
    exact .inr (.inl ⟨(n, c'), Table.mem_rows_iff.mpr hc', hid⟩)
  · exact .inr (.inr ⟨y, hmono.raised.subset hy, hstarts⟩)

theorem Started.crash (h : Started e w) : Started e w.crash := h

/-- A start leaves its trace. -/
theorem started_of_starts (hinv : Inv cfg kind w) (hp : op.perform cfg x w = some (r, w'))
    (hstarts : startsRun e op = true) : Started e w' := by
  cases op with
  | schedule e' project spider version settings args =>
      obtain rfl : e' = e := of_decide_eq_true hstarts
      rcases AgentWorld.fallible_cases hp with ⟨-, -, rfl⟩ | ⟨err, -, -, -, rfl⟩
      · have hnew : w.jobs.get w.nextJob = none := by
          cases hget : w.jobs.get w.nextJob with
          | none => rfl
          | some job => exact absurd (hinv.jobs _ _ hget) (Nat.lt_irrefl _)
        refine .inl ⟨(w.nextJob, { executionId := e', project := project }),
          Table.mem_rows_iff.mpr ?_, rfl⟩
        rw [Table.get_insert _ _ hnew, if_pos rfl]
      · exact .inr (.inr ⟨_, List.mem_append_right _ (List.mem_singleton_self _), hstarts⟩)
  | wheelStart e' shellCommand installPath workingDir env context =>
      obtain rfl : e' = e := of_decide_eq_true hstarts
      rcases AgentWorld.atomically_cases hp with ⟨-, -, rfl⟩ | ⟨err, -, -, -, rfl⟩
      · have hnew : w.children.get w.nextChild = none := by
          cases hget : w.children.get w.nextChild with
          | none => rfl
          | some c => exact absurd (hinv.children _ _ hget) (Nat.lt_irrefl _)
        refine .inr (.inl ⟨(w.nextChild, { executionId := e' }), Table.mem_rows_iff.mpr ?_, rfl⟩)
        rw [Table.get_insert _ _ hnew, if_pos rfl]
      · exact .inr (.inr ⟨_, List.mem_append_right _ (List.mem_singleton_self _), hstarts⟩)
  | _ => cases hstarts

theorem move_started {m : AgentMove} (h : Started e (w.move m)) : Started e w := by
  cases m with
  | tick dt => exact h
  | jobEnds job =>
      refine h.imp_left fun ⟨y, hy, hid⟩ => ?_
      obtain ⟨z, hz, hsame⟩ := Table.mem_rows_modify (g := Job.executionId) (fun j => by
        show (if j.alive then _ else _ : Job).executionId = _
        split <;> rfl) hy
      exact ⟨z, hz, hsame.trans hid⟩
  | childExits n code =>
      refine h.imp_right fun h => h.imp_left fun ⟨y, hy, hid⟩ => ?_
      obtain ⟨z, hz, hsame⟩ := Table.mem_rows_modify (g := Child.executionId) (fun c => by
        cases hc : c.exited with
        | none => rfl
        | some _ => rfl) hy
      exact ⟨z, hz, hsame.trans hid⟩
  | eof e' => exact h

/-- Only a start makes a job of the execution. -/
theorem effect_job (heffect : Effect cfg x w op w') (hnot : startsRun e op = false)
    (h : ∃ j ∈ w'.jobs.rows, j.2.executionId = e) : ∃ j ∈ w.jobs.rows, j.2.executionId = e := by
  cases heffect with
  | scheduled e' project spider version settings args =>
      obtain ⟨y, hy, hid⟩ := h
      rcases Table.mem_rows_insert hy with rfl | hold
      · exact absurd hid (of_decide_eq_false hnot)
      · exact ⟨y, hold, hid⟩
  | _ => exact h

/-- Only a start makes a child of the execution. -/
theorem effect_child (heffect : Effect cfg x w op w') (hnot : startsRun e op = false)
    (h : ∃ c ∈ w'.children.rows, c.2.executionId = e) :
    ∃ c ∈ w.children.rows, c.2.executionId = e := by
  cases heffect with
  | wheelStarted e' shellCommand installPath workingDir env context =>
      obtain ⟨y, hy, hid⟩ := h
      rcases Table.mem_rows_insert hy with rfl | hold
      · exact absurd hid (of_decide_eq_false hnot)
      · exact ⟨y, hold, hid⟩
  | terminated e' =>
      obtain ⟨y, hy, hid⟩ := h
      simp only at hy
      split at hy
      · obtain ⟨z, hz, hsame⟩ := Table.mem_rows_modify (g := Child.executionId)
          (f := fun c => { c with signalled := true }) (fun _ => rfl) hy
        exact ⟨z, hz, hsame.trans hid⟩
      · exact ⟨y, hy, hid⟩
  | _ => exact h

/-- **Only a start makes an execution started.** -/
theorem perform_started (hp : op.perform cfg x w = some (r, w')) (hnot : startsRun e op = false)
    (h : Started e w') : Started e w := by
  have hnotes := perform_notes hp
  -- what is raised is noted under the operation that raised it
  have hraised : (∃ y ∈ w'.raised, startsRun e y.op = true) →
      ∃ y ∈ w.raised, startsRun e y.op = true := by
    rintro ⟨y, hy, hstarts⟩
    cases r with
    | ok a =>
        rw [show w'.raised = w.raised from hnotes] at hy
        exact ⟨y, hy, hstarts⟩
    | error err =>
        obtain ⟨-, late, w₂, rfl, hsame⟩ := hnotes
        rw [AgentWorld.note_raised, hsame] at hy
        rcases List.mem_append.mp hy with hold | hnew
        · exact ⟨y, hold, hstarts⟩
        · obtain rfl := List.mem_singleton.mp hnew
          rw [show startsRun e op = true from hstarts] at hnot
          cases hnot
  obtain ⟨w₁, heffect, rfl | ⟨y, rfl⟩⟩ := perform_leads hp
  · exact h.imp (effect_job heffect hnot) (Or.imp (effect_child heffect hnot) hraised)
  · exact h.imp (effect_job heffect hnot) (Or.imp (effect_child heffect hnot) hraised)

theorem lasting_started : Lasting cfg e (Started e) where
  move _ _ h := move_started h
  crash _ h := h
  op _ _ _ _ _ hp hnot h := perform_started hp hnot h

/-- What was started stays started, whatever the agent does. -/
theorem Started.step {s s' : State} {a : Action} (hinv : Inv cfg kind s.world)
    (h : Started e s.world) (hstep : step cfg kind s a = some s') : Started e s'.world := by
  cases a with
  | env m =>
      obtain rfl := Option.some.inj
        (show some { s with world := s.world.move m } = some s' from hstep)
      exact h.mono ((move_step hinv m).2 .consumer).mono
  | start i inp =>
      simp only [Agent.step, Sys.step] at hstep
      split at hstep
      · cases hstep
      · obtain ⟨p, -, rfl⟩ := Option.map_eq_some_iff.mp hstep
        exact h
  | op i answer =>
      simp only [Agent.step, Sys.step] at hstep
      split at hstep
      · obtain ⟨⟨r, w⟩, hp, rfl⟩ := Option.map_eq_some_iff.mp hstep
        exact h.mono (Mono.perform hinv hp)
      · cases hstep
  | crash =>
      obtain rfl := Option.some.inj hstep
      exact h

/-- What starts the execution makes it started. -/
theorem started_of_step {s s' : State} {a : Action} (hinv : Inv cfg kind s.world)
    (h : starts e s a = true) (hstep : step cfg kind s a = some s') : Started e s'.world := by
  cases a with
  | op i answer =>
      simp only [Agent.step, Sys.step] at hstep
      split at hstep
      · rename_i op k hproc
        obtain ⟨⟨r, w⟩, hp, rfl⟩ := Option.map_eq_some_iff.mp hstep
        simp only [starts, hproc] at h
        exact started_of_starts hinv hp h
      · cases hstep
  | _ => cases h

end Started

end Agent

namespace Joint

open Agent (Remembered Started)
open Dispatch (Recorded)

section Unspent

variable {cfg : AgentConfig} {kind : ExecutionId → RunnerType} {e : ExecutionId}

/-- What the server does in a step. -/
def serverAction : Action → Option Dispatch.Action
  | .server b => some b
  | _ => none

/-- The step appends a run command of the execution to a stream. -/
def appends (e : ExecutionId) (s : State) (a : Action) : Bool :=
  (serverAction a).any (Dispatch.appends e s.server)

/-- Run rows are read again and sent only while their execution is not recorded, and the
agent begins the run commands of what it has started only where it holds a state file. -/
def Unspent (e : ExecutionId) (s : State) (a : Action) : Prop :=
  (∀ b ∈ serverAction a, Dispatch.Unrecorded e s.server b) ∧ Meets (Remembered e (Started e)) s a

instance (e : ExecutionId) (s : State) (a : Action) : Decidable (Unspent e s a) :=
  inferInstanceAs (Decidable ((∀ b ∈ serverAction a, Dispatch.Unrecorded e s.server b) ∧
    Meets (Remembered e (Started e)) s a))

/-- How often a step starts the execution. -/
def startAdds (e : ExecutionId) (s : State) (a : Action) : Nat := if starts e s a then 1 else 0

/-- What was started before has left its trace. -/
theorem started_of_counted {s : State} {n : Nat}
    (h : StateMachine.RunOk (StateMachine.counted (step cfg kind) (startAdds e))
      (fun t => Unspent e t.1) (start, 0) (s, n)) (hn : n ≠ 0) : Started e s.agent.world := by
  have hinv : StateMachine.Run (Agent.step cfg kind) Agent.start s.agent ∧
      (n ≠ 0 → Started e s.agent.world) := by
    refine h.invariant (I := fun t => StateMachine.Run (Agent.step cfg kind) Agent.start t.1.agent ∧
      (t.2 ≠ 0 → Started e t.1.agent.world)) ?_ ⟨StateMachine.RunOk.refl _, fun hc => absurd rfl hc⟩
    rintro ⟨t, n⟩ a t' ⟨hrun, hstarted⟩ - hstep
    obtain ⟨t₁, ht₁, rfl⟩ := Option.map_eq_some_iff.mp hstep
    have hgood : Agent.Inv cfg kind t.agent.world :=
      (Agent.good_of_run (hrun.mono fun s a _ => Sys.Cond.always_holds s a)).1
    rcases step_agent ht₁ with ⟨hsame, hnone⟩ | ⟨b, hb, hnext⟩
    · have hzero : startAdds e t a = 0 := by
        unfold startAdds starts
        rw [hnone]
        rfl
      simp only [hsame, hzero]
      exact ⟨hrun, hstarted⟩
    · refine ⟨hrun.tail ⟨b, trivial, hnext⟩, fun hn => ?_⟩
      by_cases hstarts : Agent.starts e t.agent b = true
      · exact Agent.started_of_step hgood hstarts hnext
      · have hzero : startAdds e t a = 0 := by
          unfold startAdds starts
          rw [hb]
          exact if_neg hstarts
        simp only [hzero] at hn
        exact (hstarted hn).step hgood hnext
  exact hinv.2 hn

/-- **A finished execution is not started again.** -/
theorem finished_never_restarted (cfg : AgentConfig) (kind : ExecutionId → RunnerType)
    (e : ExecutionId) {s s' s'' : State} {n n' : Nat} {a : Action}
    (hrun : StateMachine.RunOk (StateMachine.counted (step cfg kind) (startAdds e))
      (fun t => Unspent e t.1) (start, 0) (s, n))
    (hrecorded : Recorded s.server.db e)
    (hrun' : StateMachine.RunOk (StateMachine.counted (step cfg kind) (startAdds e))
      (fun t => Unspent e t.1) (s, n) (s', n'))
    (hstep : step cfg kind s' a = some s'') :
    appends e s' a = false ∧ (starts e s' a = true → n' = 0) := by
  have hall : StateMachine.RunOk (StateMachine.counted (step cfg kind) (startAdds e))
      (fun t => Unspent e t.1) (start, 0) (s', n') := hrun.trans hrun'
  have hplain := hall.of_counted
  have hrecorded' : Recorded s'.server.db e := by
    have hserver : StateMachine.RunOk Dispatch.step (Dispatch.Unrecorded e) s.server s'.server :=
      server_run (fun _ b hok => hok.1 b rfl) hrun'.of_counted
    refine hserver.invariant (I := fun t => Recorded t.db e) ?_ hrecorded
    exact fun _ _ _ h _ hnext => h.step hnext
  -- the server appends nothing, so the agent is left with what it was sent before
  refine ⟨?_, fun hstarts => ?_⟩
  · have hserver : StateMachine.RunOk Dispatch.step (Dispatch.Unrecorded e) .start s'.server :=
      server_run (fun _ b hok => hok.1 b rfl) hplain
    cases a with
    | server b =>
        refine Bool.eq_false_iff.mpr fun happends => ?_
        exact Dispatch.unrecorded_run hserver (Dispatch.sending_of_appends happends) hrecorded'
    | _ => rfl
  · by_contra hn
    have hagent := agent_run (fun _ _ hok => hok.2) hplain
    rcases step_agent hstep with ⟨-, hnone⟩ | ⟨b, hb, hnext⟩
    · rw [starts, hnone] at hstarts
      cases hstarts
    · rw [starts, hb] at hstarts
      have hnot := Agent.not_started Agent.lasting_started (StateMachine.RunOk.refl _) rfl hagent
        hnext (started_of_counted hall hn)
      rw [show Agent.starts e s'.agent b = true from hstarts] at hnot
      cases hnot

/-! ### Runs -/

/-- A task with two executions, whose run commands are both delivered; the agent starts the
first. -/
def sampleBegun : List Action :=
  [.server (.create 0 1 {} .scrapy { artifact := some { project := "project" } } [(7, 1), (8, 2)]),
    .server (.refresh 0 0), .server (.append 0 0 true), .server (.refresh 0 0),
    .server (.append 0 0 true), .server (.commit 0 0 .none)] ++ sampleBoot ++
    [.read 10, .handle] ++ ops 15

/-- The job ends, the next pass reports it finished, and the server records that. -/
def sampleFinish : List Action :=
  [.agent (.env (.jobEnds 0)), .agent (.start .consumer .tick)] ++ ops 14 Agent.sampleFinished ++
    [.server (.write (.applyEvent 0
      { eventId := 2, agentId := 1, taskId := 1, executionId := 7, type := .finished } 2))]

/-- The execution is cleaned up. -/
def sampleCleanup : List Action :=
  [.server (.issue { agentId := 1, taskId := 1, executionId := 7, type := .cleanupLogs }),
    .server (.tick 1 [] [2]), .server (.refresh 1 1), .server (.append 1 1 true),
    .server (.commit 1 1 .none), .read 10, .handle] ++ ops 7 ++ [.ack true]

/-- The message of the run command is gone; the task goes on, so the command is sent again. -/
def sampleRepeat : List Action :=
  [.server (.vanish [0]), .server (.tick 30 [0] [0]), .server (.refresh 2 30),
    .server (.append 2 30 true), .server (.commit 2 30 .none), .read 10, .handle] ++ ops 8

/-- **The run command of a finished execution is sent again, and the agent starts it again.** -/
theorem finished_and_restarted : ¬ ∀ (cfg : AgentConfig) (kind : ExecutionId → RunnerType)
    (e : ExecutionId) (s s' s'' : State) (n n' : Nat) (a : Action),
    StateMachine.Run (StateMachine.counted (step cfg kind) (startAdds e)) (start, 0) (s, n) →
    Recorded s.server.db e →
    StateMachine.Run (StateMachine.counted (step cfg kind) (startAdds e)) (s, n) (s', n') →
    step cfg kind s' a = some s'' → appends e s' a = false ∧ (starts e s' a = true → n' = 0) := by
  intro h
  obtain ⟨⟨s, n⟩, ⟨s', n'⟩, hrun, hrun', hs⟩ := StateMachine.RunOk.exists_of_checkedRuns
    (StateMachine.counted (step Agent.sampleConfig fun _ => .scrapy) (startAdds 7))
    (fun _ _ => True) (start, 0) (sampleBegun ++ [.ack true] ++ sampleFinish)
    (sampleCleanup ++ sampleRepeat)
    (fun s s' => decide (Recorded s.1.server.db 7) && s'.2 == 1 &&
      starts 7 s'.1 (.agent (.op .consumer fun _ => {})) &&
      (step Agent.sampleConfig (fun _ => .scrapy) s'.1 (.agent (.op .consumer fun _ => {}))).isSome)
    (by decide +kernel)
  simp only [Bool.and_eq_true, decide_eq_true_eq, beq_iff_eq] at hs
  obtain ⟨⟨⟨hrecorded, hn⟩, hstarts⟩, hsome⟩ := hs
  obtain ⟨s'', hstep⟩ := Option.isSome_iff_exists.mp hsome
  have hzero := (h Agent.sampleConfig (fun _ => .scrapy) 7 s s' s'' n n' _ hrun hrecorded hrun'
    hstep).2 hstarts
  rw [hn] at hzero
  cases hzero

/-- The agent dies before it has acknowledged the run command, and takes it up once more. -/
def sampleReclaimed : List Action :=
  [.agent .crash, .claim [0]] ++ sampleBoot ++ ops 3 ++ [.handle] ++ ops 2

theorem finished_never_restarted_sample : ∃ (s s' s'' : State) (n n' : Nat),
    StateMachine.RunOk (StateMachine.counted (step Agent.sampleConfig fun _ => .scrapy)
        (startAdds 7)) (fun t => Unspent 7 t.1) (start, 0) (s, n) ∧
      Recorded s.server.db 7 ∧
      StateMachine.RunOk (StateMachine.counted (step Agent.sampleConfig fun _ => .scrapy)
        (startAdds 7)) (fun t => Unspent 7 t.1) (s, n) (s', n') ∧ n' = 1 ∧
      Agent.Handling s'.agent.world 7 .run ∧
      step Agent.sampleConfig (fun _ => .scrapy) s' (.agent (.op .consumer fun _ => {})) =
        some s'' ∧
      appends 7 s' (.agent (.op .consumer fun _ => {})) = false ∧
      (starts 7 s' (.agent (.op .consumer fun _ => {})) = true → n' = 0) := by
  obtain ⟨⟨s, n⟩, ⟨s', n'⟩, hrun, hrun', hs⟩ := StateMachine.RunOk.exists_of_checkedRuns
    (StateMachine.counted (step Agent.sampleConfig fun _ => .scrapy) (startAdds 7))
    (fun t => Unspent 7 t.1) (start, 0) (sampleBegun ++ [.ack false] ++ sampleFinish)
    sampleReclaimed
    (fun s s' => decide (Recorded s.1.server.db 7) && s'.2 == 1 &&
      s'.1.agent.world.handling.any (fun cmd => cmd.executionId == 7 && cmd.type == .run) &&
      (step Agent.sampleConfig (fun _ => .scrapy) s'.1 (.agent (.op .consumer fun _ => {}))).isSome)
    (by decide +kernel)
  simp only [Bool.and_eq_true, decide_eq_true_eq, beq_iff_eq] at hs
  obtain ⟨⟨⟨hrecorded, hn⟩, hhandling⟩, hsome⟩ := hs
  obtain ⟨s'', hstep⟩ := Option.isSome_iff_exists.mp hsome
  obtain ⟨cmd, hcmd, hrunning⟩ := (Option.any_eq_true _ _).mp hhandling
  simp only [Bool.and_eq_true, beq_iff_eq] at hrunning
  exact ⟨s, s', s'', n, n', hrun, hrecorded, hrun', hn, ⟨cmd, hcmd, hrunning⟩, hstep,
    finished_never_restarted Agent.sampleConfig (fun _ => .scrapy) 7 hrun hrecorded hrun' hstep⟩

end Unspent

end Joint

end Dopilot
