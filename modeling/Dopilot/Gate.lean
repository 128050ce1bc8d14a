/-
Dopilot/Gate.lean

The concurrency gate.

An admission locks the schedule's row, counts the schedule's active tasks and
compares the count with the limit; the lock is held until the executor commits
the task, or the session ends without one.  In between every other session may
do any of its steps, timers and triggers of other schedules included.

No step makes a terminal task active again and only an admission adds a task of
a schedule, so the count an admission has read bounds the one at its commit
(`Inv`); `gate_holds` is what follows for a run.
-/
import Dopilot.Firing
import Dopilot.Origins

namespace Dopilot

open StateMachine

/-! ### Counting -/

/-- Rows of `t'` that satisfy `q` have distinct keys, under which `t` has rows
that satisfy `p`. -/
theorem Table.countP_le {κ ρ : Type} [DecidableEq κ] {t t' : Table κ ρ} {p q : κ × ρ → Bool}
    (h : ∀ k r', t'.get k = some r' → q (k, r') = true →
      ∃ r, t.get k = some r ∧ p (k, r) = true) : t'.rows.countP q ≤ t.rows.countP p := by
  have hsub : (t'.rows.filter q).map Prod.fst ⊆ (t.rows.filter p).map Prod.fst := by
    intro k hk
    obtain ⟨x, hx, rfl⟩ := List.mem_map.mp hk
    obtain ⟨hmem, hq⟩ := List.mem_filter.mp hx
    obtain ⟨r, hr, hp⟩ := h x.1 x.2 (Table.mem_rows_iff.mp hmem) hq
    exact List.mem_map.mpr ⟨(x.1, r), List.mem_filter.mpr ⟨Table.mem_rows_iff.mpr hr, hp⟩, rfl⟩
  have hnodup : ((t'.rows.filter q).map Prod.fst).Nodup :=
    t'.nodup.sublist (List.filter_sublist.map _)
  have hle := hnodup.length_le_of_subset hsub
  rw [List.length_map, List.length_map] at hle
  rw [List.countP_eq_length_filter, List.countP_eq_length_filter]
  exact hle

namespace ServerDb

variable {db db' : ServerDb} {sid : ScheduleId}

/-- Moved tasks are not more active. -/
theorem TasksMove.countActiveTasks_le (h : db.TasksMove db') :
    db'.countActiveTasks sid ≤ db.countActiveTasks sid := by
  refine Table.countP_le fun t task' ht hactive => ?_
  obtain ⟨task, htask, hmoves⟩ := h.origin ht
  rw [Bool.and_eq_true, decide_eq_true_eq] at hactive
  refine ⟨task, htask, ?_⟩
  rw [Bool.and_eq_true, decide_eq_true_eq]
  refine ⟨hmoves.scheduleId.symm.trans hactive.1, ?_⟩
  by_contra hno
  have hterminal := hmoves.terminal (by simpa [TaskStatus.terminal] using hno)
  rw [TaskStatus.terminal, hactive.2] at hterminal
  cases hterminal

/-- A new task is one more, if it is of the schedule. -/
theorem countActiveTasks_insert {t : TaskId} {task : Task} (ht : db.tasks.get t = none)
    (htasks : db'.tasks = db.tasks.insert t task) :
    db'.countActiveTasks sid ≤ db.countActiveTasks sid + 1 ∧
      (task.scheduleId ≠ some sid → db'.countActiveTasks sid = db.countActiveTasks sid) := by
  have hrows : db'.tasks.rows = db.tasks.rows ++ [(t, task)] := by
    have hk : t ∉ db.tasks.rows.map Prod.fst := by
      rw [Table.mem_keys_iff]
      rintro ⟨r, hr⟩
      rw [ht] at hr
      cases hr
    rw [htasks, Table.insert, dif_neg hk]
  unfold countActiveTasks
  rw [hrows, List.countP_append]
  constructor
  · exact Nat.add_le_add_left List.countP_le_length _
  · intro hne
    rw [List.countP_singleton, if_neg, Nat.add_zero]
    simp [hne]

end ServerDb

namespace Gate

/-! ### The machine -/

structure State where
  dispatch : Dispatch.State
  schedules : Table ScheduleId Schedule
  /-- Admitted firings that are not committed yet, by the schedule whose row they
  hold, with the row as the gate has left it. -/
  admitted : Table ScheduleId Schedule

/-- Nothing is there yet. -/
def State.start : State where
  dispatch := .start
  schedules := .empty
  admitted := .empty

/-- The server's tables. -/
abbrev State.db (w : State) : ServerDb := w.dispatch.db

inductive Action where
  | createSchedule (sid : ScheduleId) (row : Schedule)
  | update (sid : ScheduleId) (data : Schedule.Update)
  | reset (sid : ScheduleId)
  /-- A firing is admitted, through the breaker if it is one of the timer. -/
  | admits (breaker : Option SchedulerSettings) (now : Time) (current : Option ArtifactId)
      (sid : ScheduleId)
  /-- The executor commits the task of an admitted firing. -/
  | create (sid : ScheduleId) (now : Time) (t : TaskId) (request : RunRequest)
      (source : TaskSource) (taskType : RunnerType) (payload : CommandPayload)
      (nodes : List (ExecutionId × AgentId))
  /-- An admitted firing ends without a task. -/
  | abandon (sid : ScheduleId)
  /-- Any step of the other sessions, which create no task of a schedule. -/
  | dispatch (a : Dispatch.Action)

/-- Does the action create a task of a schedule? -/
def createsFor : Dispatch.Action → Bool
  | .create _ _ task .. => task.scheduleId.isSome
  | _ => false

def step (w : State) : Action → Option State
  | .createSchedule sid row =>
      if (w.schedules.get sid).isNone then some { w with schedules := w.schedules.insert sid row }
      else none
  | .update sid data =>
      if (w.admitted.get sid).isNone then
        (w.schedules.get sid).map fun s =>
          { w with schedules := w.schedules.modify sid fun _ => s.update data }
      else none
  | .reset sid =>
      if (w.admitted.get sid).isNone then
        (w.schedules.get sid).map fun s =>
          { w with schedules := w.schedules.modify sid fun _ => s.resetBreaker }
      else none
  | .admits breaker now current sid =>
      if (w.admitted.get sid).isNone then
        (w.schedules.get sid).bind fun s =>
          if s.hasRoom (w.db.countActiveTasks sid) then
            (match breaker with
              | none => some s
              | some sched => s.admitBreaker sched now current).map fun s' =>
                { w with admitted := w.admitted.insert sid s' }
          else none
      else none
  | .create sid now t request source taskType payload nodes =>
      (w.admitted.get sid).bind fun s =>
        let task := newTask request ⟨source, some sid, some s.outcomeGeneration⟩
        (Dispatch.step w.dispatch (.create now t task taskType payload nodes)).map fun d =>
          { dispatch := d
            schedules := w.schedules.modify sid fun _ => s
            admitted := w.admitted.erase sid }
  | .abandon sid => some { w with admitted := w.admitted.erase sid }
  | .dispatch a =>
      if createsFor a then none
      else (Dispatch.step w.dispatch a).map fun d => { w with dispatch := d }

/-! ### What holds in between -/

/-- The count an admission was decided on still bounds the active tasks. -/
def Inv (w : State) : Prop :=
  ∀ sid s, w.admitted.get sid = some s →
    s.hasRoom (w.db.countActiveTasks sid) = true ∧ (w.schedules.get sid).isSome

section Steps

variable {w w' : State} {a : Action} {sid : ScheduleId}

theorem hasRoom_mono {s : Schedule} {m n : Nat} (h : m ≤ n) (hn : s.hasRoom n = true) :
    s.hasRoom m = true := by
  unfold Schedule.hasRoom at *
  rw [Bool.or_eq_true, decide_eq_true_eq, decide_eq_true_eq] at *
  exact hn.imp_right fun hlt => lt_of_le_of_lt h hlt

/-- The gate keeps the limit of the row. -/
theorem admitBreaker_maxConcurrency {s s' : Schedule} {sched : SchedulerSettings} {now : Time}
    {current : Option ArtifactId} (h : s.admitBreaker sched now current = some s') :
    s'.maxConcurrency = s.maxConcurrency := by
  unfold Schedule.admitBreaker at h
  cases hstate : s.breakerState with
  | closed =>
      rw [hstate] at h
      obtain rfl := Option.some.inj h
      rfl
  | opened =>
      simp only [hstate] at h
      split at h
      · obtain rfl := Option.some.inj h
        rfl
      · cases h
  | halfOpen =>
      simp only [hstate] at h
      split at h
      · obtain rfl := Option.some.inj h
        rfl
      · cases h
  | held =>
      simp only [hstate] at h
      split at h
      · cases h
      · split at h
        · cases h
        · obtain rfl := Option.some.inj h
          rfl

/-- A step of the sessions, of which `createsFor` says that it creates no task
of a schedule. -/
theorem dispatch_count {d d' : Dispatch.State} {a : Dispatch.Action} (ha : createsFor a = false)
    (h : Dispatch.step d a = some d') :
    d'.db.countActiveTasks sid ≤ d.db.countActiveTasks sid := by
  rcases Dispatch.step_tasksMove h with hmove |
    ⟨now, t, task, taskType, payload, nodes, rfl, ht, task', htasks, -, hsid, -⟩
  · exact hmove.countActiveTasks_le
  · have hnone : task.scheduleId = none := by
      have ha : task.scheduleId.isSome = false := ha
      exact Option.not_isSome_iff_eq_none.mp (by simp [ha])
    refine ((ServerDb.countActiveTasks_insert ht htasks).2 ?_).le
    rw [hsid, hnone]
    exact (Option.some_ne_none sid).symm

/-- A row that is written stays there. -/
theorem get_modify_isSome {schedules : Table ScheduleId Schedule} {sid' : ScheduleId}
    {f : Schedule → Schedule} (h : (schedules.get sid).isSome) :
    ((schedules.modify sid' f).get sid).isSome := by
  rw [Table.get_modify]
  split
  · rw [Option.isSome_map]
    exact h
  · exact h

/-- **The step.** -/
theorem Inv.next (hinv : Inv w) (h : step w a = some w') : Inv w' := by
  intro sid s hs
  cases a with
  | createSchedule sid' row =>
      simp only [step] at h
      split at h
      · rename_i hnone
        obtain rfl := Option.some.inj h
        obtain ⟨hroom, hrow⟩ := hinv sid s hs
        refine ⟨hroom, ?_⟩
        show ((w.schedules.insert sid' row).get sid).isSome
        rw [Table.get_insert _ _ (Option.isNone_iff_eq_none.mp hnone)]
        split
        · rfl
        · exact hrow
      · cases h
  | update sid' data =>
      simp only [step] at h
      split at h
      · obtain ⟨s₁, -, rfl⟩ := Option.map_eq_some_iff.mp h
        obtain ⟨hroom, hrow⟩ := hinv sid s hs
        exact ⟨hroom, get_modify_isSome hrow⟩
      · cases h
  | reset sid' =>
      simp only [step] at h
      split at h
      · obtain ⟨s₁, -, rfl⟩ := Option.map_eq_some_iff.mp h
        obtain ⟨hroom, hrow⟩ := hinv sid s hs
        exact ⟨hroom, get_modify_isSome hrow⟩
      · cases h
  | admits breaker now current sid' =>
      simp only [step] at h
      split at h
      · rename_i hnone
        obtain ⟨s₁, hs₁, h⟩ := Option.bind_eq_some_iff.mp h
        split at h
        · rename_i hroom
          obtain ⟨s', hs', rfl⟩ := Option.map_eq_some_iff.mp h
          change (w.admitted.insert sid' s').get sid = some s at hs
          rw [Table.get_insert _ _ (Option.isNone_iff_eq_none.mp hnone)] at hs
          split at hs
          · rename_i hsid
            subst hsid
            obtain rfl := Option.some.inj hs
            refine ⟨?_, by show (w.schedules.get sid).isSome; rw [hs₁]; rfl⟩
            have hlimit : s'.maxConcurrency = s₁.maxConcurrency := by
              cases breaker with
              | none => rw [← Option.some.inj hs']
              | some sched => exact admitBreaker_maxConcurrency hs'
            unfold Schedule.hasRoom at hroom ⊢
            rw [hlimit]
            exact hroom
          · exact hinv sid s hs
        · cases h
      · cases h
  | create sid' now t request source taskType payload nodes =>
      obtain ⟨s₁, hs₁, h⟩ := Option.bind_eq_some_iff.mp h
      obtain ⟨d, hd, rfl⟩ := Option.map_eq_some_iff.mp h
      change (w.admitted.erase sid').get sid = some s at hs
      rw [Table.get_erase] at hs
      split at hs
      · cases hs
      · rename_i hne
        obtain ⟨hroom, hrow⟩ := hinv sid s hs
        refine ⟨hasRoom_mono ?_ hroom, get_modify_isSome hrow⟩
        rcases Dispatch.step_tasksMove hd with hmove |
          ⟨_, _, task, _, _, _, heq, ht, task', htasks, -, hsid, -⟩
        · exact hmove.countActiveTasks_le
        · cases heq
          refine ((ServerDb.countActiveTasks_insert ht htasks).2 ?_).le
          rw [hsid]
          exact fun hc => hne (Option.some.inj hc).symm
  | abandon sid' =>
      obtain rfl := Option.some.inj h
      change (w.admitted.erase sid').get sid = some s at hs
      rw [Table.get_erase] at hs
      split at hs
      · cases hs
      · exact hinv sid s hs
  | dispatch a =>
      simp only [step] at h
      split at h
      · cases h
      · rename_i ha
        obtain ⟨d, hd, rfl⟩ := Option.map_eq_some_iff.mp h
        obtain ⟨hroom, hrow⟩ := hinv sid s hs
        exact ⟨hasRoom_mono (dispatch_count (by simpa using ha) hd) hroom, hrow⟩

theorem Inv.run (hrun : Run step State.start w) : Inv w :=
  hrun.invariant (fun _ _ _ hinv _ h => hinv.next h) fun sid s hs => by cases hs

/-! ### Runs -/

/-- **A step keeps terminals**, whichever it is. -/
theorem step_terminal (h : step w a = some w') {t : TaskId} {task : Task}
    (ht : w.db.tasks.get t = some task) :
    ∃ task', w'.db.tasks.get t = some task' ∧ task'.scheduleId = task.scheduleId ∧
      (task.status.terminal = true → task'.status.terminal = true) := by
  have hdispatch : ∀ {a d}, Dispatch.step w.dispatch a = some d →
      ∃ task', d.db.tasks.get t = some task' ∧ task'.scheduleId = task.scheduleId ∧
        (task.status.terminal = true → task'.status.terminal = true) := by
    intro a d hd
    rcases Dispatch.step_tasksMove hd with hmove |
      ⟨_, t', _, _, _, _, -, hnone, _, htasks, -⟩
    · obtain ⟨task', htask', hmoves⟩ := hmove.target ht
      exact ⟨task', htask', hmoves.scheduleId, hmoves.terminal⟩
    · refine ⟨task, ?_, rfl, id⟩
      rw [htasks, Table.get_insert _ _ hnone, if_neg]
      · exact ht
      · rintro rfl
        rw [hnone] at ht
        cases ht
  cases a with
  | createSchedule sid row =>
      simp only [step] at h
      split at h
      · obtain rfl := Option.some.inj h
        exact ⟨task, ht, rfl, id⟩
      · cases h
  | update sid data =>
      simp only [step] at h
      split at h
      · obtain ⟨s, -, rfl⟩ := Option.map_eq_some_iff.mp h
        exact ⟨task, ht, rfl, id⟩
      · cases h
  | reset sid =>
      simp only [step] at h
      split at h
      · obtain ⟨s, -, rfl⟩ := Option.map_eq_some_iff.mp h
        exact ⟨task, ht, rfl, id⟩
      · cases h
  | admits breaker now current sid =>
      simp only [step] at h
      split at h
      · obtain ⟨s, -, h⟩ := Option.bind_eq_some_iff.mp h
        split at h
        · obtain ⟨s', -, rfl⟩ := Option.map_eq_some_iff.mp h
          exact ⟨task, ht, rfl, id⟩
        · cases h
      · cases h
  | create sid now t' request source taskType payload nodes =>
      obtain ⟨s, -, h⟩ := Option.bind_eq_some_iff.mp h
      obtain ⟨d, hd, rfl⟩ := Option.map_eq_some_iff.mp h
      exact hdispatch hd
  | abandon sid =>
      obtain rfl := Option.some.inj h
      exact ⟨task, ht, rfl, id⟩
  | dispatch a =>
      simp only [step] at h
      split at h
      · cases h
      · obtain ⟨d, hd, rfl⟩ := Option.map_eq_some_iff.mp h
        exact hdispatch hd

/-- A terminal task of a schedule stays one. -/
theorem run_terminal (hrun : Run step w w') {t : TaskId} {task : Task} (sid : Option ScheduleId)
    (ht : w.db.tasks.get t = some task) (hsid : task.scheduleId = sid)
    (hterminal : task.status.terminal = true) :
    ∃ task', w'.db.tasks.get t = some task' ∧ task'.scheduleId = sid ∧
      task'.status.terminal = true := by
  refine hrun.invariant (I := fun w => ∃ task', w.db.tasks.get t = some task' ∧
    task'.scheduleId = sid ∧ task'.status.terminal = true) ?_ ⟨task, ht, hsid, hterminal⟩
  rintro w₁ a w₂ ⟨task₁, ht₁, hsid₁, hterminal₁⟩ - h
  obtain ⟨task₂, ht₂, hsid₂, hterminal₂⟩ := step_terminal h ht₁
  exact ⟨task₂, ht₂, hsid₂.trans hsid₁, hterminal₂ hterminal₁⟩

/-- **The admission**: at its commit the active tasks are within the limit of the row. -/
theorem create_within (hinv : Inv w) {now : Time} {t : TaskId} {request : RunRequest}
    {source : TaskSource} {taskType : RunnerType} {payload : CommandPayload}
    {nodes : List (ExecutionId × AgentId)}
    (h : step w (.create sid now t request source taskType payload nodes) = some w') :
    ∃ s, w'.schedules.get sid = some s ∧
      (1 ≤ s.maxConcurrency → w'.db.countActiveTasks sid ≤ s.maxConcurrency) := by
  obtain ⟨s, hs, h⟩ := Option.bind_eq_some_iff.mp h
  obtain ⟨d, hd, rfl⟩ := Option.map_eq_some_iff.mp h
  obtain ⟨hroom, hrow⟩ := hinv sid s hs
  refine ⟨s, ?_, fun hlimit => ?_⟩
  · obtain ⟨s₀, hs₀⟩ := Option.isSome_iff_exists.mp hrow
    show (w.schedules.modify sid fun _ => s).get sid = some s
    rw [Table.get_modify_self, hs₀]
    rfl
  · have hcount : d.db.countActiveTasks sid ≤ w.db.countActiveTasks sid + 1 := by
      rcases Dispatch.step_tasksMove hd with hmove | ⟨_, _, _, _, _, _, -, ht, _, htasks, -⟩
      · exact Nat.le_succ_of_le hmove.countActiveTasks_le
      · exact (ServerDb.countActiveTasks_insert ht htasks).1
    unfold Schedule.hasRoom at hroom
    rw [Bool.or_eq_true, decide_eq_true_eq, decide_eq_true_eq] at hroom
    show d.db.countActiveTasks sid ≤ s.maxConcurrency
    omega

/-- **The concurrency gate.**  After any run, the commit of an admission leaves
the active tasks of its schedule within the limit that is then in force, and no
run from there makes a terminal task of the schedule active again. -/
theorem gate_holds (hrun : Run step State.start w) (sid : ScheduleId) :
    (∀ now t request source taskType payload nodes w',
      step w (.create sid now t request source taskType payload nodes) = some w' →
        ∃ s, w'.schedules.get sid = some s ∧
          (1 ≤ s.maxConcurrency → w'.db.countActiveTasks sid ≤ s.maxConcurrency)) ∧
      ∀ w', Run step w w' → ∀ t task, w.db.tasks.get t = some task →
        task.scheduleId = some sid → task.status.terminal = true →
          ∃ task', w'.db.tasks.get t = some task' ∧ task'.scheduleId = some sid ∧
            task'.status.terminal = true := by
  refine ⟨fun now t request source taskType payload nodes w' h => ?_, ?_⟩
  · exact create_within (Inv.run hrun) h
  · intro w' hrun' t task ht hsid hterminal
    exact run_terminal hrun' (some sid) ht hsid hterminal

end Steps

/-- Two firings under a limit of two: the second is admitted while the first is active. -/
theorem gate_holds_sample :
    ∃ w, ((∀ now t request source taskType payload nodes w',
      step w (.create 0 now t request source taskType payload nodes) = some w' →
        ∃ s, w'.schedules.get 0 = some s ∧
          (1 ≤ s.maxConcurrency → w'.db.countActiveTasks 0 ≤ s.maxConcurrency)) ∧
      ∀ w', Run step w w' → ∀ t task, w.db.tasks.get t = some task →
        task.scheduleId = some 0 → task.status.terminal = true →
          ∃ task', w'.db.tasks.get t = some task' ∧ task'.scheduleId = some 0 ∧
            task'.status.terminal = true) ∧
      (step w (.create 0 9 1 ⟨some .scrapy, some {}, 0⟩ .triggerNow .scrapy {} [(1, 0)])).any
        (fun w' => w'.db.countActiveTasks 0 = 2) = true := by
  obtain ⟨w, hrun, hw⟩ := RunOk.exists_of_checkedRun step (fun _ _ => True) State.start
    [.createSchedule 0 { maxConcurrency := 2, executionTemplateId := 0 },
      .admits none 5 none 0,
      .create 0 6 0 ⟨some .scrapy, some {}, 0⟩ .triggerNow .scrapy {} [(0, 0)],
      .admits none 7 none 0]
    (fun w => (step w (.create 0 9 1 ⟨some .scrapy, some {}, 0⟩ .triggerNow .scrapy {}
      [(1, 0)])).any fun w' => w'.db.countActiveTasks 0 = 2) (by decide +kernel)
  exact ⟨w, gate_holds hrun 0, hw⟩

end Gate

end Dopilot
