/-
Dopilot/Rollup.lean

A terminal task is the roll-up of its executions — with two exceptions.

Everything that trusts a terminal task (cleanup, slots, the recorder) relies on
`RolledUp`: a task that is terminal and has executions has only terminal ones,
and its status is their roll-up.  Events, the loss judgement, the repair of
orphaned tasks and the executors keep this.  The dispatch timeout does not, nor
does the manual loss of a task: they write the task's terminal without looking
at its other executions.

`Settles` says when these two do no harm, and `rolled_up` that the property
holds in every run in which they do none; `not_rolled_up` is a run in which a
command that could not be delivered again settles a task that still runs.
-/
import Dopilot.Sessions

namespace Dopilot

open StateMachine

namespace Dispatch

/-! ### The property -/

/-- If this task is terminal and has executions, it is their roll-up. -/
def RolledUp (db : ServerDb) (t : TaskId) : Prop :=
  ∀ st, db.taskStatus t = some st → st.terminal = true → db.statuses t ≠ [] →
    rollupTaskStatus (db.statuses t) = some st

/-- A session's timeouts close a task: what it does not time out is terminal,
and something has failed or is failed now. -/
def Closes (db : ServerDb) (x : Session) (t : TaskId) : Prop :=
  (∀ r ∈ db.listExecutions t, r.2.status.terminal = true ∨ r.1 ∈ x.timeouts.map Prod.snd) ∧
    ∃ r ∈ db.listExecutions t, r.2.status = .failed ∨ r.2.status.active = true

/-- The steps that write a task's terminal by themselves do so when it is the
roll-up: a commit closes the active tasks whose executions it times out, and a
task lost by hand has an active execution, none at all, or is to be lost. -/
def Settles (s : State) : Action → Prop
  | .commit i _ _ => ∀ x, s.sessions.get i = some x → ∀ te ∈ x.timeouts,
      (s.db.taskStatus te.1).any TaskStatus.active = true → Closes s.db x te.1
  | .write (.markTaskLost _ t) => (s.db.taskStatus t).any TaskStatus.active = true →
      s.db.statuses t = [] ∨ (s.db.statuses t).any ExecStatus.active = true ∨
        rollupTaskStatus (s.db.statuses t) = some .lost
  | _ => True

/-! ### Roll-ups that are kept -/

section Facts

variable {db db' : ServerDb} {t : TaskId} {now : Time}

theorem active_of_not_terminal {st : TaskStatus} (h : ¬ st.terminal = true) :
    st.active = true := by
  simpa [TaskStatus.terminal] using h

theorem ExecStatus.not_active {st : ExecStatus} (h : st.terminal = true) :
    ¬ st.active = true := by
  simpa [ExecStatus.terminal] using h

theorem RolledUp.terminal (h : RolledUp db t) {ts : TaskStatus} (hts : db.taskStatus t = some ts)
    (hterm : ts.terminal = true) {e : ExecutionId} {st : ExecStatus}
    (he : db.execStatus e = some (t, st)) : st.terminal = true := by
  have hmem := ServerDb.mem_statuses_iff.mpr ⟨e, he⟩
  have hroll := h ts hts hterm (List.ne_nil_of_mem hmem)
  exact (rollup_isSome_iff.mp ⟨ts, hroll⟩).2 st hmem

/-- A task keeps its roll-up while its executions keep their statuses. -/
theorem rollup_kept (h : ∀ e st, db'.execStatus e = some (t, st) ↔ db.execStatus e = some (t, st)) :
    rollupTaskStatus (db'.statuses t) = rollupTaskStatus (db.statuses t) ∧
      (db'.statuses t = [] ↔ db.statuses t = []) := by
  have hmem : ∀ st, st ∈ db'.statuses t ↔ st ∈ db.statuses t := by
    intro st
    rw [ServerDb.mem_statuses_iff, ServerDb.mem_statuses_iff]
    exact exists_congr fun e => h e st
  refine ⟨rollup_congr hmem, ?_⟩
  rw [List.eq_nil_iff_forall_not_mem, List.eq_nil_iff_forall_not_mem]
  exact forall_congr' fun st => not_congr (hmem st)

/-- What changes active executions only keeps those of a terminal task. -/
theorem RolledUp.kept (h : RolledUp db t) (hon : db.Onward db')
    (hkeep : ∀ e st, db.execStatus e = some (t, st) → st.terminal = true →
      db'.execStatus e = some (t, st)) {ts : TaskStatus} (hts : db.taskStatus t = some ts)
    (hterm : ts.terminal = true) (hne : db'.statuses t ≠ []) :
    rollupTaskStatus (db'.statuses t) = some ts := by
  have hsame : ∀ e st, db'.execStatus e = some (t, st) ↔ db.execStatus e = some (t, st) := by
    intro e st
    constructor
    · intro he
      obtain ⟨st₀, he₀, -⟩ := hon.source he
      have hkept := hkeep e st₀ he₀ (h.terminal hts hterm he₀)
      rw [he] at hkept
      obtain ⟨-, rfl⟩ := Prod.mk.inj (Option.some.inj hkept)
      exact he₀
    · intro he
      exact hkeep e st he (h.terminal hts hterm he)
  obtain ⟨hroll, hnil⟩ := rollup_kept hsame
  rw [hroll]
  exact h ts hts hterm fun hempty => hne (hnil.mpr hempty)

/-! ### Events -/

/-- A task rolled up by an event is terminal as the roll-up only. -/
theorem rollTask_rolledUp {task : Task} {executions : List Execution} {l l' : List ExecStatus}
    (hl' : executions.map (·.status) = l') (h : Forward l l')
    (hold : task.status.terminal = true → rollupTaskStatus l = some task.status)
    (hterm : (rollTask task executions now).status.terminal = true) :
    rollupTaskStatus l' = some (rollTask task executions now).status := by
  rw [rollTask_status, hl'] at hterm ⊢
  by_cases hwas : task.status.terminal = true
  · -- it was terminal: the roll-up has advanced, at most from `lost`
    have hconv : (convergeTask task executions now).status = task.status := by
      rcases convergeTask_status task executions now with hc | ⟨hq, -, -⟩
      · exact hc
      · rw [hq] at hwas
        cases hwas
    obtain ⟨t', ht', hadv⟩ := h.rollup_advances (hold hwas)
    simp only [hconv, ht']
    rcases TaskStatus.hard_or_lost hwas with hhard | hlost
    · rw [hadv.hard hhard, ite_self]
    · rw [hlost]
      by_cases heq : t' = .lost
      · rw [heq, ite_self]
      · rw [if_pos ⟨heq, .inr rfl, rollup_reachable ht' (.inr (.inr rfl))⟩]
  · -- it was active, and so it is unless the roll-up is taken
    have hactive : (convergeTask task executions now).status.active = true := by
      rcases convergeTask_status task executions now with hc | ⟨-, hc, -⟩
      · rw [hc]
        exact active_of_not_terminal hwas
      · rw [hc]
        rfl
    have hno : ¬ (convergeTask task executions now).status.terminal = true := by
      unfold TaskStatus.terminal
      rw [hactive]
      simp
    rcases hroll : rollupTaskStatus l' with - | t'
    · simp only [hroll] at hterm
      exact absurd hterm hno
    · simp only [hroll] at hterm ⊢
      split at hterm
      · rename_i hgo
        rw [if_pos hgo]
      · exact absurd hterm hno

theorem applyEvent_rolledUp (h : RolledUp db t) (ev : AgentEvent) (msg : MessageId) :
    RolledUp (db.applyEvent now ev msg).1 t := by
  intro ts hts hterm hne
  have hon := ServerDb.applyEvent_onward db now ev msg
  rcases ServerDb.applyEvent_tasks db now ev msg with ⟨htasks, hsame⟩ | ⟨x, hx, hnew, htasks⟩
  · obtain ⟨hroll, hnil⟩ := rollup_kept fun e st => iff_of_eq
      (congrArg (· = some (t, st)) (hsame e))
    rw [hroll]
    rw [ServerDb.taskStatus_congr htasks] at hts
    exact h ts hts hterm fun hempty => hne (hnil.mpr hempty)
  · rw [ServerDb.taskStatus_modify htasks] at hts
    by_cases ht : t = x.taskId
    · subst ht
      rw [if_pos rfl] at hts
      obtain ⟨task, htask, rfl⟩ := Option.map_eq_some_iff.mp hts
      refine rollTask_rolledUp List.map_map (hon.forward _) (fun hwas => ?_) hterm
      have hmem : x.status ∈ db.statuses x.taskId := by
        refine ServerDb.mem_statuses_iff.mpr ⟨ev.executionId, ?_⟩
        unfold ServerDb.execStatus
        rw [hx]
        rfl
      exact h _ (congrArg (Option.map _) htask) hwas (List.ne_nil_of_mem hmem)
    · -- the execution of the event belongs to another task
      rw [if_neg ht] at hts
      refine h.kept hon (fun e st he _ => ?_) hts hterm hne
      have hother : ¬ (e = ev.executionId ∧ db.audits.get msg = none) := by
        rintro ⟨rfl, -⟩
        unfold ServerDb.execStatus at he
        rw [hx] at he
        exact ht (congrArg Prod.fst (Option.some.inj he)).symm
      rw [ServerDb.applyEvent_execStatus, he, Option.map_some, if_neg hother]

/-! ### Losses -/

/-- What a session sees as terminal it sees as it is. -/
theorem seenStatuses_eq {held : HeldRows} {r : TaskStatus}
    (h : rollupTaskStatus (db.seenStatuses held t) = some r) :
    db.seenStatuses held t = db.statuses t := by
  obtain ⟨-, hall⟩ := rollup_isSome_iff.mp ⟨r, h⟩
  unfold ServerDb.seenStatuses ServerDb.statuses at *
  apply List.map_congr_left
  intro y hy
  have hterm := hall _ (List.mem_map_of_mem hy)
  rcases hheld : held.status y.1 with - | st
  · rfl
  · rw [hheld] at hterm
    exact absurd (held.active _ _ hheld) (ExecStatus.not_active hterm)

theorem markLost_rolledUp (h : RolledUp db t) (held : HeldRows) (e : ExecutionId)
    (reason : ExecLostReason) : RolledUp (db.markLost held e reason now).1 t := by
  intro ts hts hterm hne
  have hkeep : ∀ e' st, db.execStatus e' = some (t, st) → st.terminal = true →
      (db.markLost held e reason now).1.execStatus e' = some (t, st) := by
    intro e' st he' hst
    rw [ServerDb.markLost_execStatus, he', Option.map_some,
      if_neg fun hc => ExecStatus.not_active hst hc.2]
  rcases ServerDb.markLost_tasks db held e reason now with
    hsame | ⟨x, hx, hactive, held', -, htasks⟩
  · rw [hsame] at hts hne ⊢
    exact h ts hts hterm hne
  · rw [ServerDb.taskStatus_modify htasks] at hts
    by_cases ht : t = x.taskId
    · subst ht
      rw [if_pos rfl] at hts
      obtain ⟨task, htask, hstatus⟩ := Option.map_eq_some_iff.mp hts
      have hexec : db.execStatus e = some (x.taskId, x.status) := by
        unfold ServerDb.execStatus
        rw [hx]
        rfl
      have hwas : ¬ task.status.terminal = true := by
        intro hwas
        exact ExecStatus.not_active (h.terminal (congrArg (Option.map _) htask) hwas hexec) hactive
      unfold ServerDb.rollupRow at hstatus
      rw [if_neg hwas] at hstatus
      rcases hroll : rollupTaskStatus
        ((db.markLost held e reason now).1.seenStatuses held' x.taskId) with - | r
      · rw [hroll] at hstatus
        simp only at hstatus
        rw [hstatus] at hwas
        exact absurd hterm hwas
      · rw [hroll] at hstatus
        simp only at hstatus
        split at hstatus
        · obtain rfl : r = ts := hstatus
          rw [← seenStatuses_eq hroll]
          exact hroll
        · rw [hstatus] at hwas
          exact absurd hterm hwas
    · rw [if_neg ht] at hts
      exact h.kept ServerDb.markLost_onward hkeep hts hterm hne

theorem listExecutions_nil (h : (db.listExecutions t).map Prod.snd = []) : db.statuses t = [] := by
  unfold ServerDb.statuses
  rw [List.map_eq_nil_iff.mp h]
  rfl

/-- Only the row of task `t` is written, and it is the roll-up if it is terminal. -/
theorem RolledUp.updateTask {t' : TaskId} (h : RolledUp db t') {f : Task → Task}
    (hf : t' = t → ∀ task, db.tasks.get t = some task → (f task).status.terminal = true →
      db.statuses t ≠ [] → rollupTaskStatus (db.statuses t) = some (f task).status) :
    RolledUp (db.updateTask t f) t' := by
  intro ts hts hterm hne
  rw [ServerDb.taskStatus_modify rfl] at hts
  rw [ServerDb.updateTask_statuses] at hne ⊢
  by_cases ht : t' = t
  · rw [if_pos ht] at hts
    obtain ⟨task, htask, rfl⟩ := Option.map_eq_some_iff.mp hts
    rw [ht] at hne ⊢
    exact hf ht task htask hterm hne
  · rw [if_neg ht] at hts
    exact h ts hts hterm hne

theorem repairOrphanedTask_rolledUp {t' : TaskId} (h : RolledUp db t') (settings : AgentsSettings)
    (held : HeldRows) (t : TaskId) : RolledUp (db.repairOrphanedTask settings held now t) t' := by
  unfold ServerDb.repairOrphanedTask
  split
  · exact h
  · rename_i task htask
    split
    · exact h
    · rename_i hactive
      split
      · exact h
      · simp only
        split
        · rename_i hnone
          split
          · exact h
          · exact h.updateTask fun _ _ _ _ hne => absurd (listExecutions_nil hnone) hne
        · split
          · exact h
          · rename_i rolled hroll
            split
            · refine h.updateTask fun _ _ _ _ _ => ?_
              rw [← seenStatuses_eq hroll]
              exact hroll
            · -- the row only converges, and stays active
              refine h.updateTask fun _ _ _ hterm _ => ?_
              have hwas : task.status.active = true := by simpa using hactive
              rcases convergeTask_status task ((db.listExecutions t).map Prod.snd) now with
                hc | ⟨-, hc, -⟩
              · rw [hc] at hterm
                unfold TaskStatus.terminal at hterm
                rw [hwas] at hterm
                cases hterm
              · rw [hc] at hterm
                cases hterm

/-! ### A task lost by hand -/

theorem markExecutionsLost_rolledUp (now : Time) (l : List (ExecutionId × Execution)) (h : RolledUp db t) :
    RolledUp (ServerDb.markExecutionsLost now l db) t := by
  induction l generalizing db with
  | nil => exact h
  | cons r l ih => exact ih (markLost_rolledUp h .none r.1 .manualCleanup)

/-- Some execution of the task is active. -/
def HasActive (db : ServerDb) (t : TaskId) : Prop :=
  ∃ e st, db.execStatus e = some (t, st) ∧ st.active = true

/-- The last loss closes the task. -/
theorem markLost_closes {e : ExecutionId} {ts : TaskStatus} (hts : db.taskStatus t = some ts)
    (hactive : HasActive db t)
    (hdone : ¬ HasActive (db.markLost .none e .manualCleanup now).1 t) :
    ∃ ts', (db.markLost .none e .manualCleanup now).1.taskStatus t = some ts' ∧
      ts'.terminal = true := by
  -- what is not active any more is the execution that was declared lost
  obtain ⟨e', st, he', hst⟩ := hactive
  have hee : e' = e := by
    by_contra hne
    refine hdone ⟨e', st, ?_, hst⟩
    rw [ServerDb.markLost_execStatus, he', Option.map_some, if_neg fun hc => hne hc.1]
  subst hee
  have hlost : (db.markLost .none e' .manualCleanup now).1.execStatus e' = some (t, .lost) := by
    rw [ServerDb.markLost_execStatus, he', Option.map_some, if_pos ⟨rfl, hst⟩]
  have hmem := ServerDb.mem_statuses_iff.mpr ⟨e', hlost⟩
  obtain ⟨task, htask, rfl⟩ := Option.map_eq_some_iff.mp hts
  rcases ServerDb.markLost_tasks db .none e' .manualCleanup now with
    hsame | ⟨x, hx, -, held', hheld, htasks⟩
  · rw [hsame, he'] at hlost
    obtain ⟨-, rfl⟩ := Prod.mk.inj (Option.some.inj hlost)
    cases hst
  · have hxt : t = x.taskId := by
      unfold ServerDb.execStatus at he'
      rw [hx] at he'
      exact (congrArg Prod.fst (Option.some.inj he')).symm
    have hseen : (db.markLost .none e' .manualCleanup now).1.seenStatuses held' t =
        (db.markLost .none e' .manualCleanup now).1.statuses t := by
      unfold ServerDb.seenStatuses ServerDb.statuses
      apply List.map_congr_left
      intro y _
      rcases hy : held'.status y.1 with - | st'
      · rfl
      · cases hheld _ _ hy
    obtain ⟨r, hr⟩ := rollup_isSome_iff.mpr ⟨List.ne_nil_of_mem hmem, fun s hs => by
      obtain ⟨e'', he''⟩ := ServerDb.mem_statuses_iff.mp hs
      by_contra hno
      exact hdone ⟨e'', s, he'', by simpa [ExecStatus.terminal] using hno⟩⟩
    rw [ServerDb.taskStatus_modify htasks, if_pos hxt, ← hxt, htask]
    refine ⟨_, rfl, ?_⟩
    show (ServerDb.rollupRow task _ now).status.terminal = true
    rw [hseen]
    unfold ServerDb.rollupRow
    split
    · rename_i hterm
      exact hterm
    · rename_i hwas
      rw [hr]
      have hvalid : isValidTaskTransition task.status r = true := by
        have hactive := active_of_not_terminal hwas
        rcases rollup_eq_some hr with ⟨-, rfl⟩ | ⟨-, -, rfl⟩ | ⟨-, hno, -⟩ | ⟨-, hno, -⟩
        · cases hs : task.status <;> rw [hs] at hactive <;> first | rfl | cases hactive
        · cases hs : task.status <;> rw [hs] at hactive <;> first | rfl | cases hactive
        · exact absurd hmem hno
        · exact absurd hmem hno
      simp only [hvalid, if_true]
      exact (rollup_terminal hr).1

/-- Every active execution is lost, so the task is closed. -/
theorem markExecutionsLost_closes (now : Time) (l : List (ExecutionId × Execution)) {ts : TaskStatus}
    (hts : db.taskStatus t = some ts) (hactive : HasActive db t)
    (hl : ∀ e st, db.execStatus e = some (t, st) → st.active = true → e ∈ l.map Prod.fst) :
    ∃ ts', (ServerDb.markExecutionsLost now l db).taskStatus t = some ts' ∧
      ts'.terminal = true := by
  induction l generalizing db ts with
  | nil =>
      obtain ⟨e, st, he, hst⟩ := hactive
      exact absurd (hl e st he hst) List.not_mem_nil
  | cons r l ih =>
      by_cases hmore : HasActive (db.markLost .none r.1 .manualCleanup now).1 t
      · have honward : db.TasksOnward (db.markLost .none r.1 .manualCleanup now).1 :=
          ServerDb.markLost_tasksOnward
        obtain ⟨ts', hts', -⟩ := honward.target hts
        refine ih hts' hmore fun e st he hst => ?_
        rw [ServerDb.markLost_execStatus] at he
        obtain ⟨⟨t', st₀⟩, he₀, heq⟩ := Option.map_eq_some_iff.mp he
        obtain ⟨rfl, hstatus⟩ := Prod.mk.inj heq
        by_cases hlost : e = r.1 ∧ st₀.active = true
        · rw [if_pos hlost] at hstatus
          rw [← hstatus] at hst
          cases hst
        · rw [if_neg hlost] at hstatus
          obtain rfl : st₀ = st := hstatus
          rcases List.mem_cons.mp (hl e st₀ he₀ hst) with heq | hmem
          · exact absurd ⟨heq, hst⟩ hlost
          · exact hmem
      · obtain ⟨ts', hts', hterm⟩ := markLost_closes hts hactive hmore
        obtain ⟨-, htask⟩ := ServerDb.markExecutionsLost_onward
          (db.markLost .none r.1 .manualCleanup now).1 now l
        obtain ⟨ts'', hts'', hadv⟩ := htask.target hts'
        exact ⟨ts'', hts'', hadv.terminal hterm⟩

theorem markExecutionsLost_keeps (now : Time) (l : List (ExecutionId × Execution)) {e : ExecutionId}
    {st : ExecStatus} (he : db.execStatus e = some (t, st)) (hst : st.terminal = true) :
    (ServerDb.markExecutionsLost now l db).execStatus e = some (t, st) := by
  induction l generalizing db with
  | nil => exact he
  | cons r l ih =>
      refine ih ?_
      rw [ServerDb.markLost_execStatus, he, Option.map_some,
        if_neg fun hc => ExecStatus.not_active hst hc.2]

theorem markTaskLost_rolledUp {t' : TaskId} (h : RolledUp db t') (t : TaskId)
    (hok : (db.taskStatus t).any TaskStatus.active = true → db.statuses t = [] ∨
      (db.statuses t).any ExecStatus.active = true ∨
        rollupTaskStatus (db.statuses t) = some .lost) :
    RolledUp (db.markTaskLost now t) t' := by
  unfold ServerDb.markTaskLost
  split
  · exact h
  · rename_i task htask
    split
    · exact h
    · rename_i hactive
      have hts : db.taskStatus t = some task.status := congrArg (Option.map _) htask
      have hactive : task.status.active = true := by simpa using hactive
      obtain ⟨hon, -⟩ := ServerDb.markExecutionsLost_onward db now (db.listExecutions t)
      have hrolled := markExecutionsLost_rolledUp now (db.listExecutions t) h
      refine hrolled.updateTask fun htt task₁ htask₁ hterm hne => ?_
      have hts₁ : (ServerDb.markExecutionsLost now (db.listExecutions t) db).taskStatus t =
          some task₁.status := congrArg (Option.map _) htask₁
      by_cases hforce : task₁.status.active = true ∧
          isValidTaskTransition task₁.status .lost = true
      · -- the losses left the task active: it had no active execution
        simp only [if_pos hforce, if_true] at hterm ⊢
        rw [hts] at hok
        rcases hok hactive with hnil | hsome | hlost
        · obtain ⟨st, hst⟩ := List.exists_mem_of_ne_nil _ hne
          obtain ⟨st₀, hst₀, -⟩ := (hon.forward t).source st hst
          rw [hnil] at hst₀
          cases hst₀
        · obtain ⟨st, hst, hstactive⟩ := List.any_eq_true.mp hsome
          obtain ⟨e, he⟩ := ServerDb.mem_statuses_iff.mp hst
          obtain ⟨ts', hts', hterm'⟩ := markExecutionsLost_closes now
            (db.listExecutions t) hts ⟨e, st, he, hstactive⟩ fun e st he _ => by
              obtain ⟨x, hx, hview⟩ := Option.map_eq_some_iff.mp he
              exact List.mem_map.mpr ⟨(e, x), ServerDb.mem_listExecutions.mpr
                ⟨hx, congrArg Prod.fst hview⟩, rfl⟩
          rw [hts₁] at hts'
          obtain rfl := Option.some.inj hts'
          unfold TaskStatus.terminal at hterm'
          rw [hforce.1] at hterm'
          cases hterm'
        · obtain ⟨-, hall⟩ := rollup_isSome_iff.mp ⟨_, hlost⟩
          have hsame := rollup_kept (t := t) fun e st => by
            constructor
            · intro he
              obtain ⟨st₀, he₀, -⟩ := hon.source he
              have hkept := markExecutionsLost_keeps now (db.listExecutions t) he₀
                (hall st₀ (ServerDb.mem_statuses_iff.mpr ⟨e, he₀⟩))
              rw [he] at hkept
              obtain ⟨-, rfl⟩ := Prod.mk.inj (Option.some.inj hkept)
              exact he₀
            · intro he
              exact markExecutionsLost_keeps now (db.listExecutions t) he
                (hall st (ServerDb.mem_statuses_iff.mpr ⟨e, he⟩))
          exact hsame.1.trans hlost
      · have hkeep : ∀ task' : Task, task'.status = task₁.status →
            (if task'.status = .lost then
              { task' with statusReason := some .manualCleanup, updatedAt := now }
            else task').status = task₁.status := by
          intro task' hsame
          split
          · exact hsame
          · exact hsame
        simp only [if_neg hforce] at hterm ⊢
        rw [hkeep task₁ rfl] at hterm ⊢
        rw [htt] at hrolled
        exact hrolled _ hts₁ hterm hne

/-! ### Commits -/

/-- A commit that closes the tasks it settles. -/
theorem applyWrites_rolledUp (h : RolledUp db t) {x : Session}
    (hok : ∀ te ∈ x.timeouts, (db.taskStatus te.1).any TaskStatus.active = true →
      Closes db x te.1) : RolledUp (x.view db) t := by
  intro ts hts hterm hne
  have hon : db.Onward (x.view db) := applyWrites_onward
  have hview : ∀ e, (applyWrites db x.writes).execStatus e = _ := applyWrites_execStatus
  change (applyWrites db x.writes).taskStatus t = some ts at hts
  rw [applyWrites_taskStatus] at hts
  obtain ⟨ts₀, hts₀, hstatus⟩ := Option.map_eq_some_iff.mp hts
  by_cases hout : t ∈ (timeoutsOf x.writes).map Prod.fst ∧ ts₀.active = true
  · rw [if_pos hout] at hstatus
    subst hstatus
    obtain ⟨⟨t', e⟩, hmem, ht⟩ := List.mem_map.mp hout.1
    obtain rfl : t' = t := ht
    have hclose : Closes db x t' := hok _ hmem (by rw [hts₀]; exact hout.2)
    obtain ⟨hall, ⟨r, hr, hfail⟩⟩ := hclose
    -- what is timed out fails, so everything is terminal
    have hterminal : ∀ e st, (x.view db).execStatus e = some (t', st) → st.terminal = true := by
      intro e' st he'
      change (applyWrites db x.writes).execStatus e' = some (t', st) at he'
      rw [hview] at he'
      obtain ⟨⟨t'', st₀⟩, he₀, heq⟩ := Option.map_eq_some_iff.mp he'
      obtain ⟨rfl, hst⟩ := Prod.mk.inj heq
      obtain ⟨row, hrow, hrowview⟩ := Option.map_eq_some_iff.mp he₀
      obtain ⟨htask, hstatus⟩ := Prod.mk.inj hrowview
      by_cases hfailed : e' ∈ (timeoutsOf x.writes).map Prod.snd ∧ st₀.active = true
      · rw [if_pos hfailed] at hst
        rw [← hst]
        rfl
      · rw [if_neg hfailed] at hst
        rw [← hst]
        rcases hall (e', row) (ServerDb.mem_listExecutions.mpr ⟨hrow, htask⟩) with ht | ht
        · rw [← hstatus]
          exact ht
        · by_contra hno
          exact hfailed ⟨ht, by simpa [ExecStatus.terminal] using hno⟩
    have hfailed : .failed ∈ (x.view db).statuses t' := by
      obtain ⟨hget, htask⟩ := ServerDb.mem_listExecutions.mp hr
      have hexec : db.execStatus r.1 = some (t', r.2.status) := by
        unfold ServerDb.execStatus
        rw [hget, ← htask]
        rfl
      refine ServerDb.mem_statuses_iff.mpr ⟨r.1, ?_⟩
      refine (hview r.1).trans ?_
      rw [hexec, Option.map_some]
      congr 2
      rcases hfail with hf | hactive
      · rw [hf, if_neg fun hc => by cases hc.2]
      · refine if_pos ⟨?_, hactive⟩
        rcases hall r hr with ht | ht
        · exact absurd hactive (ExecStatus.not_active ht)
        · exact ht
    obtain ⟨t'', ht''⟩ := rollup_isSome_iff.mpr ⟨List.ne_nil_of_mem hfailed, fun st hst => by
      obtain ⟨e', he'⟩ := ServerDb.mem_statuses_iff.mp hst
      exact hterminal e' st he'⟩
    rcases rollup_eq_some ht'' with ⟨-, rfl⟩ | ⟨hno, -⟩ | ⟨hno, -⟩ | ⟨hno, -⟩
    · exact ht''
    · exact absurd hfailed hno
    · exact absurd hfailed hno
    · exact absurd hfailed hno
  · rw [if_neg hout] at hstatus
    subst hstatus
    refine h.kept hon (fun e st he hst => ?_) hts₀ hterm hne
    refine (hview e).trans ?_
    rw [he, Option.map_some, if_neg fun hc => ExecStatus.not_active hst hc.2]

/-- An executor that fails its task fails an execution of it, and leaves none active. -/
theorem failDispatchUnavailable_rolledUp {t' : TaskId} (h : RolledUp db t') {held : HeldRows}
    {last : ExecutionId} (hlast : ∃ st, db.execStatus last = some (t, st))
    (hheld : held.status last = some .pending) :
    RolledUp (db.failDispatchUnavailable held now t) t' := by
  intro ts hts hterm hne
  rw [failDispatchUnavailable_taskStatus] at hts
  obtain ⟨ts₀, hts₀, hstatus⟩ := Option.map_eq_some_iff.mp hts
  by_cases ht : t' = t
  · subst ht
    rw [if_pos rfl] at hstatus
    subst hstatus
    have hfailed : .failed ∈ (db.failDispatchUnavailable held now t').statuses t' := by
      obtain ⟨st, hst⟩ := hlast
      refine ServerDb.mem_statuses_iff.mpr ⟨last, ?_⟩
      rw [failDispatchUnavailable_execStatus, hst, Option.map_some, hheld]
      exact congrArg some (Prod.ext rfl (if_pos ⟨rfl, rfl⟩))
    obtain ⟨r, hr⟩ := rollup_isSome_iff.mpr ⟨hne, fun st hst => by
      obtain ⟨e, he⟩ := ServerDb.mem_statuses_iff.mp hst
      rw [failDispatchUnavailable_execStatus] at he
      obtain ⟨⟨t'', st₀⟩, he₀, heq⟩ := Option.map_eq_some_iff.mp he
      obtain ⟨rfl, hst⟩ := Prod.mk.inj heq
      by_cases hactive : ((held.status e).getD st₀).active = true
      · rw [if_pos ⟨rfl, hactive⟩] at hst
        rw [← hst]
        rfl
      · rw [if_neg fun hc => hactive hc.2] at hst
        rw [← hst]
        rcases hheld : held.status e with - | st₁
        · rw [hheld] at hactive
          simpa [ExecStatus.terminal] using hactive
        · rw [hheld] at hactive
          exact absurd (held.active _ _ hheld) hactive⟩
    rcases rollup_eq_some hr with ⟨-, rfl⟩ | ⟨hno, -⟩ | ⟨hno, -⟩ | ⟨hno, -⟩
    · exact hr
    · exact absurd hfailed hno
    · exact absurd hfailed hno
    · exact absurd hfailed hno
  · rw [if_neg ht] at hstatus
    subst hstatus
    have hkept : ∀ e st, (db.failDispatchUnavailable held now t).execStatus e = some (t', st) ↔
        db.execStatus e = some (t', st) := by
      intro e st
      rw [failDispatchUnavailable_execStatus]
      constructor
      · intro he
        obtain ⟨⟨t'', st₀⟩, he₀, heq⟩ := Option.map_eq_some_iff.mp he
        obtain ⟨rfl, hst⟩ := Prod.mk.inj heq
        rw [if_neg fun hc => ht hc.1] at hst
        rw [he₀, ← hst]
      · intro he
        rw [he, Option.map_some, if_neg fun hc => ht hc.1]
    obtain ⟨hroll, hnil⟩ := rollup_kept hkept
    rw [hroll]
    exact h ts₀ hts₀ hterm fun hempty => hne (hnil.mpr hempty)

end Facts

/-! ### Runs -/

section Runs

variable {s s' : State} {a : Action}

/-- What holds of every state reached by steps that settle. -/
structure Inv (s : State) : Prop where
  wf : Wf s
  rolledUp : ∀ t, RolledUp s.db t
  tasks : ∀ e t st, s.db.execStatus e = some (t, st) → ∃ ts, s.db.taskStatus t = some ts

/-- Executions have a task, if the tasks that were there stay. -/
theorem tasks_kept {db db' : ServerDb} (hs : ∀ e t st, db.execStatus e = some (t, st) →
      ∃ ts, db.taskStatus t = some ts)
    (hexec : ∀ e t st, db'.execStatus e = some (t, st) → ∃ st₀, db.execStatus e = some (t, st₀))
    (htask : ∀ t ts, db.taskStatus t = some ts → ∃ ts', db'.taskStatus t = some ts') :
    ∀ e t st, db'.execStatus e = some (t, st) → ∃ ts, db'.taskStatus t = some ts := by
  intro e t st he
  obtain ⟨st₀, he₀⟩ := hexec e t st he
  obtain ⟨ts, hts⟩ := hs e t st₀ he₀
  exact htask t ts hts

theorem step_tasks (hs : ∀ e t st, s.db.execStatus e = some (t, st) →
      ∃ ts, s.db.taskStatus t = some ts) (h : step s a = some s') :
    ∀ e t st, s'.db.execStatus e = some (t, st) → ∃ ts, s'.db.taskStatus t = some ts := by
  have hcreate : ∀ (now : Time) (t : TaskId) (task : Task) (taskType : RunnerType)
      (payload : CommandPayload) (nodes : List (ExecutionId × AgentId)),
      s.db.tasks.get t = none → (∀ n ∈ nodes, s.db.executions.get n.1 = none) →
      (nodes.map Prod.fst).Nodup → ∀ e t' st,
      (s.db.createTask now t task taskType payload nodes).execStatus e = some (t', st) →
      ∃ ts, (s.db.createTask now t task taskType payload nodes).taskStatus t' = some ts := by
    intro now t task taskType payload nodes htask hnew hnodup e t' st he
    obtain ⟨-, hexec, htasks⟩ := createTask_spec s.db now t task taskType payload htask hnew hnodup
    rw [htasks]
    by_cases ht : t' = t
    · rw [if_pos ht]
      exact ⟨_, rfl⟩
    · rw [if_neg ht]
      rw [hexec] at he
      split at he
      · exact absurd (congrArg Prod.fst (Option.some.inj he)).symm ht
      · exact hs e t' st he
  have hview : ∀ ws : List Write, ∀ e t st, (applyWrites s.db ws).execStatus e = some (t, st) →
      ∃ ts, (applyWrites s.db ws).taskStatus t = some ts := by
    intro ws
    refine tasks_kept hs (fun e t st he => ?_) fun t ts hts => ?_
    · obtain ⟨st₀, he₀, -⟩ := applyWrites_onward.source he
      exact ⟨st₀, he₀⟩
    · rw [applyWrites_taskStatus, hts]
      exact ⟨_, rfl⟩
  cases step_cases h with
  | @write w _ =>
      obtain ⟨hexec, htask⟩ := w.apply_onward s.db
      refine tasks_kept hs (fun e t st he => ?_) fun t ts hts => ?_
      · obtain ⟨st₀, he₀, -⟩ := hexec.source he
        exact ⟨st₀, he₀⟩
      · obtain ⟨ts', hts', -⟩ := htask.target hts
        exact ⟨ts', hts'⟩
  | issue _ _ _ => exact hs
  | @noTarget now t task taskType payload htask =>
      exact hcreate now t task taskType payload [] htask (fun n hn => absurd hn List.not_mem_nil)
        List.nodup_nil
  | create htask hnew hnodup _ => exact hcreate _ _ _ _ _ _ htask hnew hnodup
  | @cancel now t =>
      obtain ⟨-, hexec, htask⟩ := requestCancel_spec s.db now t
      refine tasks_kept hs (fun e t st he => ⟨st, (hexec e).symm.trans he⟩) fun t ts hts =>
        ⟨ts, (htask t).trans hts⟩
  | tick _ _ _ _ _ => exact hs
  | refresh _ _ => exact hs
  | sent _ _ _ => exact hs
  | raised _ _ => exact hs
  | giveUp _ _ => exact hs
  | @commit i now held x db hx hdb =>
      cases Session.committed hdb with
      | done _ _ _ => exact hview _
      | unavailable _ _ _ _ _ =>
          refine tasks_kept (hview x.writes) (fun e t st he => ?_) fun t ts hts => ?_
          · rw [failDispatchUnavailable_execStatus] at he
            obtain ⟨⟨t', st₀⟩, he₀, heq⟩ := Option.map_eq_some_iff.mp he
            obtain ⟨rfl, -⟩ := Prod.mk.inj heq
            exact ⟨st₀, he₀⟩
          · rw [failDispatchUnavailable_taskStatus]
            exact ⟨_, (congrArg _ hts).trans rfl⟩
  | abort => exact hs
  | vanish => exact hs

/-- A task that is created is not terminal, or has no executions. -/
theorem createTask_rolledUp {db : ServerDb} {t' : TaskId} (h : RolledUp db t')
    (htasks : ∀ e t st, db.execStatus e = some (t, st) → ∃ ts, db.taskStatus t = some ts)
    (now : Time) {t : TaskId} (task : Task) (taskType : RunnerType) (payload : CommandPayload)
    {nodes : List (ExecutionId × AgentId)} (htask : db.tasks.get t = none)
    (hnew : ∀ n ∈ nodes, db.executions.get n.1 = none) (hnodup : (nodes.map Prod.fst).Nodup) :
    RolledUp (db.createTask now t task taskType payload nodes) t' := by
  intro ts hts hterm hne
  obtain ⟨-, hexec, hstatus⟩ := createTask_spec db now t task taskType payload htask hnew hnodup
  rw [hstatus] at hts
  by_cases ht : t' = t
  · subst ht
    rw [if_pos rfl] at hts
    by_cases hnil : nodes = []
    · -- nobody has executions of a task that is not there
      obtain ⟨st, hst⟩ := List.exists_mem_of_ne_nil _ hne
      obtain ⟨e, he⟩ := ServerDb.mem_statuses_iff.mp hst
      rw [hexec, hnil, List.map_nil, if_neg List.not_mem_nil] at he
      obtain ⟨ts', hts'⟩ := htasks e t' st he
      unfold ServerDb.taskStatus at hts'
      rw [htask] at hts'
      cases hts'
    · rw [if_neg hnil] at hts
      obtain rfl := Option.some.inj hts
      cases hterm
  · rw [if_neg ht] at hts
    have hkept : ∀ e st, (db.createTask now t task taskType payload nodes).execStatus e =
        some (t', st) ↔ db.execStatus e = some (t', st) := by
      intro e st
      rw [hexec]
      by_cases he : e ∈ nodes.map Prod.fst
      · rw [if_pos he]
        have hnone : db.execStatus e = none := by
          obtain ⟨n, hn, rfl⟩ := List.mem_map.mp he
          exact Option.map_eq_none_iff.mpr (hnew n hn)
        rw [hnone]
        constructor
        · intro hc
          exact absurd (congrArg Prod.fst (Option.some.inj hc)).symm ht
        · intro hc
          cases hc
      · rw [if_neg he]
    obtain ⟨hroll, hnil⟩ := rollup_kept hkept
    rw [hroll]
    exact h ts hts hterm fun hempty => hne (hnil.mpr hempty)

/-- Executions and tasks as they were. -/
theorem RolledUp.congr {db db' : ServerDb} {t : TaskId} (h : RolledUp db t)
    (hexec : ∀ e, db'.execStatus e = db.execStatus e)
    (htask : ∀ t, db'.taskStatus t = db.taskStatus t) : RolledUp db' t := by
  intro ts hts hterm hne
  obtain ⟨hroll, hnil⟩ := rollup_kept (t := t) fun e st => iff_of_eq
    (congrArg (· = some (t, st)) (hexec e))
  rw [hroll]
  rw [htask] at hts
  exact h ts hts hterm fun hempty => hne (hnil.mpr hempty)

/-- **The step.** -/
theorem step_inv (hinv : Inv s) (hok : Settles s a) (h : step s a = some s') : Inv s' := by
  refine ⟨step_wf hinv.wf h, fun t => ?_, step_tasks hinv.tasks h⟩
  have hrolled := hinv.rolledUp t
  cases step_cases h with
  | @write w hw =>
      cases w with
      | applyEvent now ev msg => exact applyEvent_rolledUp hrolled ev msg
      | markLost now held e reason => exact markLost_rolledUp hrolled held e reason
      | dispatchTimeout now t e => exact absurd rfl (hw now t e)
      | repairOrphanedTask now settings held t =>
          exact repairOrphanedTask_rolledUp hrolled settings held t
      | markTaskLost now t => exact markTaskLost_rolledUp hrolled t hok
  | issue _ _ _ => exact hrolled.congr (fun _ => rfl) fun _ => rfl
  | noTarget htask =>
      exact createTask_rolledUp hrolled hinv.tasks _ _ _ _ htask
        (fun n hn => absurd hn List.not_mem_nil) List.nodup_nil
  | create htask hnew hnodup _ =>
      exact createTask_rolledUp hrolled hinv.tasks _ _ _ _ htask hnew hnodup
  | @cancel now t =>
      obtain ⟨-, hexec, htask⟩ := requestCancel_spec s.db now t
      exact hrolled.congr hexec htask
  | tick _ _ _ _ _ => exact hrolled
  | refresh _ _ => exact hrolled
  | sent _ _ _ => exact hrolled
  | raised _ _ => exact hrolled
  | giveUp _ _ => exact hrolled
  | @commit i now held x db hx hdb =>
      have hview := applyWrites_rolledUp hrolled (hok x hx)
      cases Session.committed hdb with
      | done _ _ _ => exact hview
      | unavailable _ _ hkind _ hheld =>
          obtain ⟨st, hst⟩ := (hinv.wf.sessions i x hx).last _ _ hkind
          obtain ⟨st', hst', -⟩ := applyWrites_onward.target hst
          exact failDispatchUnavailable_rolledUp hview ⟨st', hst'⟩ hheld
  | abort => exact hrolled
  | vanish => exact hrolled

theorem Inv.start : Inv State.start where
  wf := .start
  rolledUp := by
    intro t ts hts
    cases hts
  tasks := by
    intro e t st he
    cases he

/-- **A terminal task is the roll-up of its executions**, in every run in which
timeouts and losses by hand settle no task that is not. -/
theorem rolled_up (h : RunOk step Settles State.start s) :
    ∀ t ts, s.db.taskStatus t = some ts → ts.terminal = true →
      (∃ e st, s.db.execStatus e = some (t, st)) →
      (∀ e st, s.db.execStatus e = some (t, st) → st.terminal = true) ∧
        rollupTaskStatus (s.db.statuses t) = some ts := by
  have hinv : Inv s := h.invariant (fun _ _ _ hi hok hs => step_inv hi hok hs) .start
  intro t ts hts hterm ⟨e, st, he⟩
  refine ⟨fun e st he => (hinv.rolledUp t).terminal hts hterm he, ?_⟩
  exact hinv.rolledUp t ts hts hterm (List.ne_nil_of_mem (ServerDb.mem_statuses_iff.mpr ⟨e, he⟩))

instance (db : ServerDb) (x : Session) (t : TaskId) : Decidable (Closes db x t) :=
  inferInstanceAs (Decidable (_ ∧ _))

instance (s : State) (a : Action) : Decidable (Settles s a) :=
  match a with
  | .commit i _ _ =>
      match hx : s.sessions.get i with
      | none => isTrue fun x h => by
          rw [hx] at h
          cases h
      | some x => decidable_of_iff (∀ te ∈ x.timeouts,
          (s.db.taskStatus te.1).any TaskStatus.active = true → Closes s.db x te.1)
          ⟨fun h y hy => by
            obtain rfl : x = y := Option.some.inj (hx.symm.trans hy)
            exact h, fun h => h x hx⟩
  | .write (.markTaskLost _ t) => inferInstanceAs (Decidable
      ((s.db.taskStatus t).any TaskStatus.active = true → _ ∨ _ ∨ _))
  | .write (.applyEvent ..) | .write (.markLost ..) | .write (.dispatchTimeout ..)
  | .write (.repairOrphanedTask ..) | .issue .. | .create .. | .cancel .. | .tick ..
  | .refresh .. | .append .. | .giveUp .. | .abort .. | .vanish .. => isTrue trivial

/-! ### A sibling that still runs -/

def sampleRunning (e : ExecutionId) : AgentEvent where
  eventId := 1
  agentId := e
  taskId := 7
  executionId := e
  type := .running

/-- An executor creates task 7 with these executions and delivers every row. -/
def sampleCreate (nodes : List (ExecutionId × AgentId)) : List Action :=
  .create 0 7 {} .scrapy {} nodes ::
    (nodes.flatMap fun _ => [.refresh 0 0, .append 0 0 true]) ++ [.commit 0 0 .none]

/-- The entry of row `c` vanishes; a pass requeues it, and a later one, past the
new deadline, gives it up. -/
def sampleTimeout (c : CommandId) : List Action :=
  [.vanish [c], .tick 1000 [c] [], .commit 1 1000 .none,
    .tick 2000 [] [c], .giveUp 2 2000, .commit 2 2000 .none]

/-- Execution 1 runs while the command of execution 2 is lost. -/
def sampleOrphaned : List Action :=
  sampleCreate [(1, 1), (2, 2)] ++ .write (.applyEvent 1 (sampleRunning 1) 0) :: sampleTimeout 1

/-- The only execution of the task is timed out. -/
def sampleClosed : List Action := sampleCreate [(1, 1)] ++ sampleTimeout 0

theorem not_rolled_up : ¬ ∀ s, Run step State.start s →
    ∀ t ts, s.db.taskStatus t = some ts → ts.terminal = true →
      (∃ e st, s.db.execStatus e = some (t, st)) →
      (∀ e st, s.db.execStatus e = some (t, st) → st.terminal = true) ∧
        rollupTaskStatus (s.db.statuses t) = some ts := by
  intro h
  obtain ⟨s, hrun, hs⟩ := RunOk.exists_of_checkedRun step (fun _ _ => True) State.start
    sampleOrphaned (fun s => decide (s.db.taskStatus 7 = some .failed ∧
      s.db.execStatus 1 = some (7, .running))) (by decide +kernel)
  obtain ⟨htask, hexec⟩ := of_decide_eq_true hs
  have hterm := (h s hrun 7 .failed htask rfl ⟨1, .running, hexec⟩).1 1 .running hexec
  cases hterm

theorem rolled_up_sample : ∃ s, RunOk step Settles State.start s ∧
    s.db.taskStatus 7 = some .failed ∧
      rollupTaskStatus (s.db.statuses 7) = some .failed := by
  obtain ⟨s, hrun, hs⟩ := RunOk.exists_of_checkedRun step Settles State.start sampleClosed
    (fun s => decide (s.db.taskStatus 7 = some .failed ∧ s.db.execStatus 1 = some (7, .failed)))
    (by decide +kernel)
  obtain ⟨htask, hexec⟩ := of_decide_eq_true hs
  exact ⟨s, hrun, htask, (rolled_up hrun 7 .failed htask rfl ⟨1, .failed, hexec⟩).2⟩

end Runs

end Dispatch

end Dopilot
