/-
Dopilot/Writers.lean

The writers of terminal statuses.

Five services write terminals, each in a transaction of its own that locks the
task's row first: events, the loss judgement, the dispatch timeout, the repair
of orphaned tasks and the manual loss of a task.  Two of them write a status
without asking the transition table, and one rolls up from rows it may hold
from before.

None of them regresses a status (`Writer.apply_onward`), so neither does any
sequence of them (`terminals_stay`).
-/
import Dopilot.Dispatcher

namespace Dopilot

/-! ### Statuses that do not regress -/

namespace ServerDb

/-- The tasks of `db'` are those of `db`, and none of them has regressed. -/
def TasksOnward (db db' : ServerDb) : Prop :=
  ∀ t, Option.Rel TaskStatus.Advances (db.taskStatus t) (db'.taskStatus t)

section Facts

variable {db db' db'' : ServerDb} {t : TaskId} {e : ExecutionId} {now : Time}

theorem taskStatus_congr (h : db'.tasks = db.tasks) (t : TaskId) :
    db'.taskStatus t = db.taskStatus t := by
  unfold taskStatus
  rw [h]

theorem taskStatus_modify {t' : TaskId} {f : Task → Task}
    (h : db'.tasks = db.tasks.modify t f) :
    db'.taskStatus t' =
      if t' = t then (db.tasks.get t).map fun task => (f task).status else db.taskStatus t' := by
  unfold taskStatus
  rw [h, Table.get_modify]
  by_cases ht : t' = t
  · rw [if_pos ht, if_pos ht, Option.map_map, ht]
    rfl
  · rw [if_neg ht, if_neg ht]

theorem TasksOnward.refl (db : ServerDb) : db.TasksOnward db := by
  intro t
  rcases db.taskStatus t with - | s
  · exact .none
  · exact .some (.refl s)

theorem TasksOnward.of_tasks (h : db'.tasks = db.tasks) : db.TasksOnward db' := by
  intro t
  rw [taskStatus_congr h t]
  exact TasksOnward.refl db t

theorem TasksOnward.of_modify {f : Task → Task} (h : db'.tasks = db.tasks.modify t f)
    (hf : ∀ task, db.tasks.get t = some task → task.status.Advances (f task).status) :
    db.TasksOnward db' := by
  intro t'
  rw [taskStatus_modify h]
  by_cases ht : t' = t
  · rw [if_pos ht, ht]
    unfold taskStatus
    rcases hget : db.tasks.get t with - | task
    · exact .none
    · exact .some (hf task hget)
  · rw [if_neg ht]
    exact TasksOnward.refl db t'

theorem TasksOnward.updateTask {f : Task → Task}
    (hf : ∀ task : Task, task.status.Advances (f task).status) :
    db.TasksOnward (db.updateTask t f) :=
  .of_modify rfl fun task _ => hf task

theorem TasksOnward.target (h : db.TasksOnward db') {s : TaskStatus}
    (ht : db.taskStatus t = some s) : ∃ s', db'.taskStatus t = some s' ∧ s.Advances s' := by
  have hrel := h t
  rw [ht] at hrel
  rcases hy : db'.taskStatus t with - | s'
  · rw [hy] at hrel
    cases hrel
  · rw [hy] at hrel
    cases hrel with
    | some hadv => exact ⟨s', rfl, hadv⟩

theorem TasksOnward.trans (h : db.TasksOnward db') (h' : db'.TasksOnward db'') :
    db.TasksOnward db'' := by
  intro t
  rcases hx : db.taskStatus t with - | s
  · have hrel := h t
    rw [hx] at hrel
    rcases hy : db'.taskStatus t with - | s'
    · have hrel' := h' t
      rw [hy] at hrel'
      exact hrel'
    · rw [hy] at hrel
      cases hrel
  · obtain ⟨s', hs', hadv⟩ := h.target hx
    obtain ⟨s'', hs'', hadv'⟩ := h'.target hs'
    rw [hs'']
    exact .some (hadv.trans hadv')

end Facts

/-! ### Writer by writer -/

section Facts

variable {db : ServerDb} {t : TaskId} {e : ExecutionId} {now : Time} {held : HeldRows}

theorem rollupRow_advances (task : Task) (statuses : List ExecStatus) :
    task.status.Advances (rollupRow task statuses now).status := by
  unfold rollupRow
  split
  · exact .refl _
  · rename_i hactive
    have hadv : ∀ s : TaskStatus, task.status.Advances s := by
      intro s
      apply TaskStatus.Advances.of_active
      simpa [TaskStatus.terminal] using hactive
    split
    · exact hadv _
    · split
      · exact hadv _
      · exact hadv _

theorem applyEvent_tasksOnward (ev : AgentEvent) (msg : MessageId) :
    db.TasksOnward (db.applyEvent now ev msg).1 := by
  rcases applyEvent_tasks db now ev msg with
    ⟨h, -⟩ | ⟨x, -, -, h⟩
  · exact .of_tasks h
  · exact .of_modify h fun task _ => rollTask_advances task _

/-- **What a loss judgement does to executions.** -/
theorem markLost_execStatus {reason : ExecLostReason} (e' : ExecutionId) :
    (db.markLost held e reason now).1.execStatus e' =
      (db.execStatus e').map fun x =>
        (x.1, if e' = e ∧ x.2.active = true then .lost else x.2) := by
  unfold markLost
  rcases hget : db.executions.get e with - | x
  · show db.execStatus e' = _
    by_cases he : e' = e
    · unfold execStatus
      rw [he, hget]
      rfl
    · simp only [he, false_and, if_false]
      exact Option.map_id'.symm
  · simp only
    split
    · rename_i hterm
      show db.execStatus e' = _
      by_cases he : e' = e
      · subst he
        unfold execStatus
        rw [hget]
        have hinactive : ¬ x.status.active = true := by
          simpa [ExecStatus.terminal] using hterm
        simp only [Option.map_some, hinactive]
        rfl
      · simp only [he, false_and, if_false]
        exact Option.map_id'.symm
    · rename_i hactive
      have hactive : x.status.active = true := by
        simpa [ExecStatus.terminal] using hactive
      show (db.updateExecution e fun x => x.loseWith reason now).execStatus e' = _
      rw [execStatus_updateExecution]
      by_cases he : e' = e
      · subst he
        unfold execStatus
        rw [if_pos rfl, hget]
        simp only [Option.map_some, hactive, and_self]
        rfl
      · rw [if_neg he]
        simp only [he, false_and, if_false]
        exact Option.map_id'.symm

theorem markLost_onward {reason : ExecLostReason} :
    db.Onward (db.markLost held e reason now).1 := by
  apply Onward.of_map markLost_execStatus
  intro e' x
  split
  · rename_i h
    exact .of_active h.2 (by simp)
  · exact .refl x.2

/-- **What a loss judgement does to tasks.**  It rolls up the execution's task
from what the session sees, if the execution was active. -/
theorem markLost_tasks (db : ServerDb) (held : HeldRows) (e : ExecutionId)
    (reason : ExecLostReason) (now : Time) :
    (db.markLost held e reason now).1 = db ∨
      ∃ x, db.executions.get e = some x ∧ x.status.active = true ∧
        ∃ held' : HeldRows, (∀ e' st, held'.status e' = some st → held.status e' = some st) ∧
          (db.markLost held e reason now).1.tasks =
            db.tasks.modify x.taskId fun task =>
              rollupRow task ((db.markLost held e reason now).1.seenStatuses held' x.taskId) now := by
  unfold markLost
  rcases db.executions.get e with - | x
  · exact .inl rfl
  · simp only
    split
    · exact .inl rfl
    · rename_i hactive
      right
      refine ⟨x, rfl, by simpa [ExecStatus.terminal] using hactive, _, ?_, rfl⟩
      intro e' st hst
      change (if e' = e then none else held.status e') = some st at hst
      by_cases he : e' = e
      · rw [if_pos he] at hst
        cases hst
      · rw [if_neg he] at hst
        exact hst

theorem markLost_tasksOnward {reason : ExecLostReason} :
    db.TasksOnward (db.markLost held e reason now).1 := by
  rcases markLost_tasks db held e reason now with
    h | ⟨x, -, -, held', -, h⟩
  · rw [h]
    exact .refl db
  · exact .of_modify h fun task _ => rollupRow_advances task _

theorem failExecutionDispatchTimeout_tasksOnward :
    db.TasksOnward (db.failExecutionDispatchTimeout now t e) := by
  have hexec : db.TasksOnward (db.updateExecution e fun x =>
      if x.status.active then
        { x with status := .failed, errorCode := some "dispatch_timeout", finishedAt := some now }
      else x) := .of_tasks rfl
  refine hexec.trans (.updateTask ?_)
  intro task
  split
  · rename_i hactive
    exact .of_active hactive
  · exact .refl _

/-- A repair writes the row of an active task, and nothing else. -/
theorem repairOrphanedTask_cases (db : ServerDb) (settings : AgentsSettings) (held : HeldRows)
    (now : Time) (t : TaskId) :
    db.repairOrphanedTask settings held now t = db ∨
      ∃ task f, db.tasks.get t = some task ∧ task.status.active = true ∧
        db.repairOrphanedTask settings held now t = db.updateTask t f := by
  unfold repairOrphanedTask
  rcases hget : db.tasks.get t with - | task
  · exact .inl rfl
  · simp only
    by_cases hactive : task.status.active = false
    · rw [if_pos hactive]
      exact .inl rfl
    · rw [if_neg hactive]
      have hactive : task.status.active = true := by simpa using hactive
      split
      · exact .inl rfl
      · split
        · split
          · exact .inl rfl
          · exact .inr ⟨task, _, rfl, hactive, rfl⟩
        · split
          · exact .inl rfl
          · split
            · exact .inr ⟨task, _, rfl, hactive, rfl⟩
            · exact .inr ⟨task, _, rfl, hactive, rfl⟩

theorem repairOrphanedTask_onward (settings : AgentsSettings) :
    db.Onward (db.repairOrphanedTask settings held now t) ∧
      db.TasksOnward (db.repairOrphanedTask settings held now t) := by
  rcases repairOrphanedTask_cases db settings held now t with
    h | ⟨task, f, hget, hactive, h⟩
  · rw [h]
    exact ⟨.refl db, .refl db⟩
  · rw [h]
    refine ⟨.of_executions rfl, .of_modify rfl ?_⟩
    intro task' htask'
    obtain rfl : task = task' := Option.some.inj (hget.symm.trans htask')
    exact .of_active hactive

theorem markExecutionsLost_onward (db : ServerDb) (now : Time)
    (l : List (ExecutionId × Execution)) :
    db.Onward (markExecutionsLost now l db) ∧
      db.TasksOnward (markExecutionsLost now l db) := by
  induction l generalizing db with
  | nil => exact ⟨.refl db, .refl db⟩
  | cons r l ih =>
      obtain ⟨hexec, htask⟩ := ih (db.markLost .none r.1 .manualCleanup now).1
      exact ⟨markLost_onward.trans hexec, markLost_tasksOnward.trans htask⟩

theorem markTaskLost_onward :
    db.Onward (db.markTaskLost now t) ∧ db.TasksOnward (db.markTaskLost now t) := by
  unfold markTaskLost
  split
  · exact ⟨.refl db, .refl db⟩
  · split
    · exact ⟨.refl db, .refl db⟩
    · obtain ⟨hexec, htask⟩ := markExecutionsLost_onward db now (db.listExecutions t)
      refine ⟨hexec.trans (.of_executions rfl), htask.trans (.updateTask ?_)⟩
      intro task
      -- the task is forced only while it is active
      by_cases hforce : task.status.active = true ∧ isValidTaskTransition task.status .lost = true
      · exact .of_active hforce.1
      · simp only [hforce, if_false]
        split
        · exact .refl _
        · exact .refl _

end Facts

end ServerDb

/-! ### Runs of writers -/

/-- One transaction of one writer. -/
inductive Writer where
  | applyEvent (now : Time) (ev : AgentEvent) (msg : MessageId)
  | markLost (now : Time) (held : HeldRows) (e : ExecutionId) (reason : ExecLostReason)
  | dispatchTimeout (now : Time) (t : TaskId) (e : ExecutionId)
  | repairOrphanedTask (now : Time) (settings : AgentsSettings) (held : HeldRows) (t : TaskId)
  | markTaskLost (now : Time) (t : TaskId)

namespace Writer

def apply (db : ServerDb) : Writer → ServerDb
  | applyEvent now ev msg => (db.applyEvent now ev msg).1
  | markLost now held e reason => (db.markLost held e reason now).1
  | dispatchTimeout now t e => db.failExecutionDispatchTimeout now t e
  | repairOrphanedTask now settings held t => db.repairOrphanedTask settings held now t
  | markTaskLost now t => db.markTaskLost now t

/-- **The step.**  No writer regresses a status. -/
theorem apply_onward (db : ServerDb) (w : Writer) :
    db.Onward (w.apply db) ∧ db.TasksOnward (w.apply db) := by
  cases w with
  | applyEvent now ev msg =>
      exact ⟨ServerDb.applyEvent_onward db now ev msg, ServerDb.applyEvent_tasksOnward ev msg⟩
  | markLost now held e reason =>
      exact ⟨ServerDb.markLost_onward, ServerDb.markLost_tasksOnward⟩
  | dispatchTimeout now t e =>
      exact ⟨ServerDb.failExecutionDispatchTimeout_onward,
        ServerDb.failExecutionDispatchTimeout_tasksOnward⟩
  | repairOrphanedTask now settings held t => exact ServerDb.repairOrphanedTask_onward settings
  | markTaskLost now t => exact ServerDb.markTaskLost_onward

end Writer

/-- The transactions commit one after the other. -/
def ServerDb.runWriters (db : ServerDb) (ws : List Writer) : ServerDb :=
  ws.foldl Writer.apply db

theorem runWriters_onward (db : ServerDb) (ws : List Writer) :
    db.Onward (db.runWriters ws) ∧ db.TasksOnward (db.runWriters ws) := by
  induction ws generalizing db with
  | nil => exact ⟨.refl db, .refl db⟩
  | cons w ws ih =>
      obtain ⟨hexec, htask⟩ := w.apply_onward db
      obtain ⟨hexec', htask'⟩ := ih (w.apply db)
      exact ⟨hexec.trans hexec', htask.trans htask'⟩

/-- **Hard terminals never regress.**  From any state and through any sequence
of writers, an execution that is finished, failed or canceled stays so and a
lost one gives way to these only; a task that is complete, failed, canceled or
without a target stays so, and a terminal task stays terminal. -/
theorem terminals_stay (db : ServerDb) (ws : List Writer) :
    (∀ e t s, db.execStatus e = some (t, s) →
        ∃ s', (db.runWriters ws).execStatus e = some (t, s') ∧
          (s.hard = true → s' = s) ∧ (s = .lost → s' = .lost ∨ s'.hard = true)) ∧
      ∀ t s, db.taskStatus t = some s →
        ∃ s', (db.runWriters ws).taskStatus t = some s' ∧
          (s.hard = true → s' = s) ∧ (s.terminal = true → s'.terminal = true) := by
  obtain ⟨hexec, htask⟩ := runWriters_onward db ws
  constructor
  · intro e t s hs
    obtain ⟨s', hs', hadv⟩ := hexec.target hs
    exact ⟨s', hs', hadv.hard, hadv.lost⟩
  · intro t s hs
    obtain ⟨s', hs', hadv⟩ := htask.target hs
    exact ⟨s', hs', hadv.hard, hadv.terminal⟩

end Dopilot
