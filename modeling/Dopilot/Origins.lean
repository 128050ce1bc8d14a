/-
Dopilot/Origins.lean

What the tasks keep while their statuses move.

Every transaction around a task writes its status and its timestamps.  None
rewrites where the task comes from, and none makes a terminal task active
again: `Task.Moves` for a row, `ServerDb.TasksMove` for the table, and
`step_tasksMove` for a step of the server's sessions.
-/
import Dopilot.Sessions

namespace Dopilot

/-- How a task's row may change: its origin stays, and a terminal stays one. -/
structure Task.Moves (a b : Task) : Prop where
  source : b.source = a.source
  scheduleId : b.scheduleId = a.scheduleId
  scheduleGeneration : b.scheduleGeneration = a.scheduleGeneration
  terminal : a.status.terminal = true → b.status.terminal = true

namespace Task.Moves

variable {a b c : Task} {now : Time}

theorem refl (a : Task) : a.Moves a := ⟨rfl, rfl, rfl, id⟩

theorem trans (h : a.Moves b) (h' : b.Moves c) : a.Moves c where
  source := h'.source.trans h.source
  scheduleId := h'.scheduleId.trans h.scheduleId
  scheduleGeneration := h'.scheduleGeneration.trans h.scheduleGeneration
  terminal ha := h'.terminal (h.terminal ha)

theorem convergeTask (a : Task) (executions : List Execution) (now : Time) :
    a.Moves (convergeTask a executions now) := by
  unfold Dopilot.convergeTask
  dsimp only
  split
  · rename_i h
    refine ⟨rfl, rfl, rfl, fun hterm => ?_⟩
    rw [h.1] at hterm
    cases hterm
  · exact .refl a

theorem rollTask (a : Task) (executions : List Execution) (now : Time) :
    a.Moves (rollTask a executions now) := by
  have hconverged := convergeTask a executions now
  have hadvances : a.status.Advances (Dopilot.rollTask a executions now).status :=
    rollTask_advances a executions
  have hterminal := hadvances.terminal
  refine ⟨?_, ?_, ?_, hterminal⟩
  · unfold Dopilot.rollTask
    dsimp only
    split
    · exact hconverged.source
    · split
      · exact hconverged.source
      · exact hconverged.source
  · unfold Dopilot.rollTask
    dsimp only
    split
    · exact hconverged.scheduleId
    · split
      · exact hconverged.scheduleId
      · exact hconverged.scheduleId
  · unfold Dopilot.rollTask
    dsimp only
    split
    · exact hconverged.scheduleGeneration
    · split
      · exact hconverged.scheduleGeneration
      · exact hconverged.scheduleGeneration

theorem rollupRow (a : Task) (statuses : List ExecStatus) (now : Time) :
    a.Moves (ServerDb.rollupRow a statuses now) := by
  have hadvances : a.status.Advances (ServerDb.rollupRow a statuses now).status :=
    ServerDb.rollupRow_advances a statuses
  have hterminal := hadvances.terminal
  unfold ServerDb.rollupRow at hterminal ⊢
  split
  · exact .refl a
  · rename_i hactive
    rw [if_neg hactive] at hterminal
    split
    · exact .refl a
    · rename_i rolled hrolled
      rw [hrolled] at hterminal
      dsimp only at hterminal
      split
      · rename_i hvalid
        rw [if_pos hvalid] at hterminal
        exact ⟨rfl, rfl, rfl, hterminal⟩
      · exact .refl a

end Task.Moves

namespace ServerDb

/-- The tasks of `db'` are those of `db`, moved. -/
def TasksMove (db db' : ServerDb) : Prop :=
  ∀ t, Option.Rel Task.Moves (db.tasks.get t) (db'.tasks.get t)

section Facts

variable {db db' db'' : ServerDb} {t : TaskId} {e : ExecutionId} {now : Time} {held : HeldRows}
variable {task task' : Task}

theorem TasksMove.of_tasks (h : db'.tasks = db.tasks) : db.TasksMove db' := by
  intro t
  rw [h]
  rcases db.tasks.get t with - | task
  · exact .none
  · exact .some (.refl task)

theorem TasksMove.refl (db : ServerDb) : db.TasksMove db := .of_tasks rfl

theorem TasksMove.of_modify {f : Task → Task} (h : db'.tasks = db.tasks.modify t f)
    (hf : ∀ task, db.tasks.get t = some task → task.Moves (f task)) : db.TasksMove db' := by
  intro t'
  rw [h, Table.get_modify]
  by_cases ht : t' = t
  · rw [if_pos ht, ht]
    rcases hget : db.tasks.get t with - | task
    · exact .none
    · exact .some (hf task hget)
  · rw [if_neg ht]
    exact TasksMove.refl db t'

theorem TasksMove.updateTask {f : Task → Task}
    (hf : ∀ task, db.tasks.get t = some task → task.Moves (f task)) :
    db.TasksMove (db.updateTask t f) := .of_modify rfl hf

theorem TasksMove.target (h : db.TasksMove db') (ht : db.tasks.get t = some task) :
    ∃ task', db'.tasks.get t = some task' ∧ task.Moves task' := by
  have hrel := h t
  rw [ht] at hrel
  rcases hy : db'.tasks.get t with - | task'
  · rw [hy] at hrel
    cases hrel
  · rw [hy] at hrel
    cases hrel with
    | some hmoves => exact ⟨task', rfl, hmoves⟩

theorem TasksMove.absent (h : db.TasksMove db') (ht : db.tasks.get t = none) :
    db'.tasks.get t = none := by
  have hrel := h t
  rw [ht] at hrel
  rcases hy : db'.tasks.get t with - | task'
  · rfl
  · rw [hy] at hrel
    cases hrel

theorem TasksMove.origin (h : db.TasksMove db') (ht : db'.tasks.get t = some task') :
    ∃ task, db.tasks.get t = some task ∧ task.Moves task' := by
  rcases hx : db.tasks.get t with - | task
  · rw [h.absent hx] at ht
    cases ht
  · obtain ⟨task₁, htask₁, hmoves⟩ := h.target hx
    obtain rfl := Option.some.inj (htask₁.symm.trans ht)
    exact ⟨task, rfl, hmoves⟩

theorem TasksMove.trans (h : db.TasksMove db') (h' : db'.TasksMove db'') : db.TasksMove db'' := by
  intro t
  rcases hx : db.tasks.get t with - | task
  · rw [h'.absent (h.absent hx)]
    exact .none
  · obtain ⟨task', htask', hmoves⟩ := h.target hx
    obtain ⟨task'', htask'', hmoves'⟩ := h'.target htask'
    rw [htask'']
    exact .some (hmoves.trans hmoves')

/-! ### Writer by writer -/

theorem applyEvent_tasksMove (ev : AgentEvent) (msg : MessageId) :
    db.TasksMove (db.applyEvent now ev msg).1 := by
  rcases applyEvent_tasks db now ev msg with ⟨h, -⟩ | ⟨x, -, -, h⟩
  · exact .of_tasks h
  · exact .of_modify h fun task _ => .rollTask task _ now

theorem markLost_tasksMove {reason : ExecLostReason} :
    db.TasksMove (db.markLost held e reason now).1 := by
  rcases markLost_tasks db held e reason now with h | ⟨x, -, -, held', -, h⟩
  · rw [h]
    exact .refl db
  · exact .of_modify h fun task _ => .rollupRow task _ now

theorem failExecutionDispatchTimeout_tasksMove :
    db.TasksMove (db.failExecutionDispatchTimeout now t e) := by
  have hexec : db.TasksMove (db.updateExecution e fun x =>
      if x.status.active then
        { x with status := .failed, errorCode := some "dispatch_timeout", finishedAt := some now }
      else x) := .of_tasks rfl
  refine hexec.trans (.updateTask fun task _ => ?_)
  split
  · exact ⟨rfl, rfl, rfl, fun _ => rfl⟩
  · exact .refl task

theorem failDispatchUnavailable_tasksMove :
    db.TasksMove (db.failDispatchUnavailable held now t) := by
  have htask : db.TasksMove (db.updateTask t fun task =>
      { task with
        status := .failed
        startedAt := some now
        finishedAt := some now
        updatedAt := now }) := .updateTask fun _ _ => ⟨rfl, rfl, rfl, fun _ => rfl⟩
  exact htask.trans (.of_tasks rfl)

theorem repairOrphanedTask_tasksMove (settings : AgentsSettings) :
    db.TasksMove (db.repairOrphanedTask settings held now t) := by
  have honward : db.TasksOnward (db.repairOrphanedTask settings held now t) :=
    (repairOrphanedTask_onward settings).2
  unfold repairOrphanedTask at honward ⊢
  rcases hget : db.tasks.get t with - | task
  · exact .refl db
  · simp only [hget] at honward ⊢
    split
    · exact .refl db
    · split
      · exact .refl db
      · split
        · split
          · exact .refl db
          · exact .updateTask fun task _ => ⟨rfl, rfl, rfl, fun _ => rfl⟩
        · have hconverged := Task.Moves.convergeTask task ((db.listExecutions t).map Prod.snd) now
          split
          · exact .refl db
          · rename_i rolled hrolled
            split
            · refine .updateTask fun task' htask' => ?_
              obtain rfl := Option.some.inj (hget.symm.trans htask')
              exact ⟨hconverged.source, hconverged.scheduleId, hconverged.scheduleGeneration,
                fun _ => (rollup_terminal hrolled).1⟩
            · refine .updateTask fun task' htask' => ?_
              obtain rfl := Option.some.inj (hget.symm.trans htask')
              exact hconverged

theorem markExecutionsLost_tasksMove (db : ServerDb) (now : Time)
    (l : List (ExecutionId × Execution)) : db.TasksMove (markExecutionsLost now l db) := by
  induction l generalizing db with
  | nil => exact .refl db
  | cons r l ih => exact markLost_tasksMove.trans (ih (db.markLost .none r.1 .manualCleanup now).1)

theorem markTaskLost_tasksMove : db.TasksMove (db.markTaskLost now t) := by
  unfold markTaskLost
  split
  · exact .refl db
  · split
    · exact .refl db
    · refine (markExecutionsLost_tasksMove db now (db.listExecutions t)).trans
        (.updateTask fun task _ => ?_)
      dsimp only
      split
      · split
        · exact ⟨rfl, rfl, rfl, fun _ => rfl⟩
        · exact ⟨rfl, rfl, rfl, fun _ => rfl⟩
      · split
        · exact ⟨rfl, rfl, rfl, id⟩
        · exact .refl task

/-- **A writer** moves the tasks. -/
theorem writer_tasksMove (db : ServerDb) (w : Writer) : db.TasksMove (w.apply db) := by
  cases w with
  | applyEvent now ev msg => exact applyEvent_tasksMove ev msg
  | markLost now held e reason => exact markLost_tasksMove
  | dispatchTimeout now t e => exact failExecutionDispatchTimeout_tasksMove
  | repairOrphanedTask now settings held t => exact repairOrphanedTask_tasksMove settings
  | markTaskLost now t => exact markTaskLost_tasksMove

end Facts

end ServerDb

/-! ### Sessions -/

namespace Dispatch

variable {s s' : State} {a : Action} {db : ServerDb}

theorem applyWrites_tasksMove (db : ServerDb) (ws : List Write) :
    db.TasksMove (applyWrites db ws) := by
  induction ws generalizing db with
  | nil => exact .refl db
  | cons w ws ih =>
      refine ServerDb.TasksMove.trans ?_ (ih (w.apply db))
      cases w with
      | row c loaded new => exact .of_tasks rfl
      | timeout now t e => exact ServerDb.failExecutionDispatchTimeout_tasksMove

theorem commit_tasksMove {x : Session} {db' : ServerDb} {now : Time} {held : HeldRows}
    (h : x.commit db now held = some db') : db.TasksMove db' := by
  unfold Session.commit at h
  split at h
  · split at h
    · split at h
      · obtain rfl := Option.some.inj h
        exact applyWrites_tasksMove db x.writes
      · split at h
        · obtain rfl := Option.some.inj h
          exact (applyWrites_tasksMove db x.writes).trans ServerDb.failDispatchUnavailable_tasksMove
        · cases h
    · obtain rfl := Option.some.inj h
      exact applyWrites_tasksMove db x.writes
    · obtain rfl := Option.some.inj h
      exact applyWrites_tasksMove db x.writes
  · cases h

/-- A new task keeps where it comes from. -/
theorem createTask_tasks (db : ServerDb) (now : Time) (t : TaskId) (task : Task)
    (taskType : RunnerType) (payload : CommandPayload) {nodes : List (ExecutionId × AgentId)}
    (hnew : ∀ n ∈ nodes, db.executions.get n.1 = none) (hnodup : (nodes.map Prod.fst).Nodup) :
    ∃ task', (db.createTask now t task taskType payload nodes).tasks = db.tasks.insert t task' ∧
      task'.source = task.source ∧ task'.scheduleId = task.scheduleId ∧
      task'.scheduleGeneration = task.scheduleGeneration := by
  unfold ServerDb.createTask
  dsimp only
  split
  · exact ⟨_, rfl, rfl, rfl, rfl⟩
  · obtain ⟨-, htasks, -⟩ := createExecutions_spec
      { db with tasks := (db.tasks.insert t
          { task with status := .queued, createdAt := now, updatedAt := now }) }
      now t taskType payload hnew hnodup
    exact ⟨_, htasks, rfl, rfl, rfl⟩

/-- A cancel writes the outbox only. -/
theorem requestCancel_tasks (db : ServerDb) (now : Time) (t : TaskId) :
    (db.requestCancel now t).tasks = db.tasks := by
  have hstops : ∀ (l : List (ExecutionId × Execution)) (db : ServerDb),
      (l.foldl (fun db r => db.createStopOutbox now .cancel t r.1 r.2.agentId) db).tasks =
        db.tasks := by
    intro l
    induction l with
    | nil => exact fun _ => rfl
    | cons r l ih => exact fun db => ih (db.createStopOutbox now .cancel t r.1 r.2.agentId)
  exact hstops _ (db.cancelUnsentOutbox now t)

/-- **The step.**  Only a `create` adds a task; every other step moves them. -/
theorem step_tasksMove (h : step s a = some s') :
    s.db.TasksMove s'.db ∨
      ∃ now t task taskType payload nodes, a = .create now t task taskType payload nodes ∧
        s.db.tasks.get t = none ∧
        ∃ task', s'.db.tasks = s.db.tasks.insert t task' ∧ task'.source = task.source ∧
          task'.scheduleId = task.scheduleId ∧
          task'.scheduleGeneration = task.scheduleGeneration := by
  cases step_cases h with
  | @write w _ => exact .inl (ServerDb.writer_tasksMove s.db w)
  | issue _ _ _ => exact .inl (.of_tasks rfl)
  | @noTarget now t task taskType payload htask =>
      exact .inr ⟨now, t, task, taskType, payload, [], rfl, htask,
        createTask_tasks s.db now t task taskType payload (fun _ hn => absurd hn List.not_mem_nil)
          List.nodup_nil⟩
  | @create now t task taskType payload nodes last htask hnew hnodup _ =>
      exact .inr ⟨now, t, task, taskType, payload, nodes, rfl, htask,
        createTask_tasks s.db now t task taskType payload hnew hnodup⟩
  | @cancel now t => exact .inl (.of_tasks (requestCancel_tasks s.db now t))
  | tick _ _ _ _ _ => exact .inl (.refl s.db)
  | refresh _ _ => exact .inl (.refl s.db)
  | sent _ _ _ => exact .inl (.refl s.db)
  | raised _ _ => exact .inl (.refl s.db)
  | giveUp _ _ => exact .inl (.refl s.db)
  | commit _ hcommit => exact .inl (commit_tasksMove hcommit)
  | abort => exact .inl (.refl s.db)
  | vanish => exact .inl (.refl s.db)

end Dispatch

end Dopilot
