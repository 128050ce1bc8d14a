/-
Dopilot/Breaker.lean

The circuit breaker over whole runs.

Schedules are created, updated and reset, fired by the timer and triggered by
hand, and outcomes of their tasks are recorded, in any order: an outcome may be
of any class and generation, may have finished at any time, and may be recorded
again.  Each of these is one transaction under the schedule's row lock.

`Schedule.Wf` says which rows there can be.  Every operation keeps it
(`Wf.admits`, `Wf.drive`, …), never goes back to an older generation, and marks
an escalation once before the breaker closes (`Schedule.Moves`);
`breaker_invariant` is what this comes to for a run.
-/
import Dopilot.Ledger
import Dopilot.StateMachine
import Mathlib

namespace Dopilot

open StateMachine

/-! ### Rows -/

namespace Schedule

/-- **A breaker's row.** -/
structure Wf (sched : SchedulerSettings) (s : Schedule) : Prop where
  closed : s.breakerState = .closed → s.clearBreaker = s
  opened : s.breakerState ≠ .closed → s.breakerOpenedAt.isSome
  retry : s.breakerState = .opened ∨ s.breakerState = .halfOpen → s.breakerRetryAt.isSome
  held : s.breakerState = .held → s.breakerRetryAt = none
  level_nonneg : 0 ≤ s.breakerLevel
  level_le : s.breakerLevel ≤ sched.breakerMaxLevel

/-- How an operation may change a row: the generation does not decrease, and a
mark of escalation stays until the breaker closes. -/
structure Moves (s s' : Schedule) : Prop where
  generation : s.outcomeGeneration ≤ s'.outcomeGeneration
  escalated : ∀ x, s.breakerEscalatedAt = some x →
    s'.breakerEscalatedAt = some x ∨ s'.breakerState = .closed

theorem Moves.refl (s : Schedule) : s.Moves s := ⟨le_refl _, fun _ h => .inl h⟩

section Rows

variable {sched : SchedulerSettings} {now : Time} {s s' : Schedule}

theorem Wf.clear (s : Schedule) : s.clearBreaker.Wf sched where
  closed _ := rfl
  opened h := absurd rfl h
  retry h := by rcases h with h | h <;> cases h
  held h := by cases h
  level_nonneg := le_refl _
  level_le := SchedulerSettings.maxLevel_nonneg

/-- What does not touch the breaker keeps it. -/
theorem Wf.congr (h : s.Wf sched) (hclear : s.clearBreaker = s → s'.clearBreaker = s')
    (hstate : s'.breakerState = s.breakerState) (hlevel : s'.breakerLevel = s.breakerLevel)
    (hopened : s'.breakerOpenedAt = s.breakerOpenedAt)
    (hretry : s'.breakerRetryAt = s.breakerRetryAt) : s'.Wf sched where
  closed hc := hclear (h.closed (hstate ▸ hc))
  opened hc := hopened ▸ h.opened (hstate ▸ hc)
  retry hc := hretry ▸ h.retry (hstate ▸ hc)
  held hc := hretry ▸ h.held (hstate ▸ hc)
  level_nonneg := hlevel ▸ h.level_nonneg
  level_le := hlevel ▸ h.level_le

/-- A closed breaker has no mark of escalation. -/
theorem Wf.escalated_closed (h : s.Wf sched) (hs : s.breakerState = .closed) :
    s.breakerEscalatedAt = none := by
  rw [← h.closed hs]
  rfl

theorem Wf.level_closed (h : s.Wf sched) (hs : s.breakerState = .closed) : s.breakerLevel = 0 := by
  rw [← h.closed hs]
  rfl

/-- Entering `half_open` from a breaker that is not closed. -/
theorem Wf.enterHalfOpen (h : s.Wf sched) (hs : s.breakerState ≠ .closed) :
    (s.enterHalfOpen sched now).Wf sched where
  closed hc := by cases hc
  opened _ := h.opened hs
  retry _ := rfl
  held hc := by cases hc
  level_nonneg := h.level_nonneg
  level_le := h.level_le

/-- **The timer's gate.** -/
theorem Wf.admits (h : s.Wf sched) {current : Option ArtifactId}
    (hadmits : s.admitBreaker sched now current = some s') : s'.Wf sched ∧ s.Moves s' := by
  unfold admitBreaker at hadmits
  cases hstate : s.breakerState with
  | closed =>
      rw [hstate] at hadmits
      obtain rfl := Option.some.inj hadmits
      exact ⟨h, .refl s⟩
  | opened =>
      simp only [hstate] at hadmits
      split at hadmits
      · obtain rfl := Option.some.inj hadmits
        refine ⟨h.enterHalfOpen (by simp [hstate]), Nat.le_succ _, fun x hx => .inl hx⟩
      · cases hadmits
  | halfOpen =>
      simp only [hstate] at hadmits
      split at hadmits
      · obtain rfl := Option.some.inj hadmits
        refine ⟨?_, le_refl _, fun x hx => .inl hx⟩
        exact
          { closed := fun hc => by simp at hc
            opened := fun _ => h.opened (by simp [hstate])
            retry := fun _ => rfl
            held := fun hc => by simp at hc
            level_nonneg := h.level_nonneg
            level_le := h.level_le }
      · cases hadmits
  | held =>
      simp only [hstate] at hadmits
      split at hadmits
      · cases hadmits
      · split at hadmits
        · cases hadmits
        · obtain rfl := Option.some.inj hadmits
          refine ⟨?_, Nat.le_succ _, fun x hx => .inl hx⟩
          have hlevel : ({ s with breakerLevel := 0 } : Schedule).Wf sched :=
            { closed := fun hc => by simp [hstate] at hc
              opened := fun _ => h.opened (by simp [hstate])
              retry := fun hc => by simp [hstate] at hc
              held := fun _ => h.held hstate
              level_nonneg := le_refl _
              level_le := SchedulerSettings.maxLevel_nonneg }
          exact hlevel.enterHalfOpen (by simp [hstate])

/-- **A reset.** -/
theorem Wf.reset (h : s.Wf sched) : s.resetBreaker.Wf sched ∧ s.Moves s.resetBreaker := by
  unfold resetBreaker
  split
  · exact ⟨h, .refl s⟩
  · refine ⟨?_, Nat.le_succ _, fun _ _ => .inr rfl⟩
    exact (Wf.clear s).congr (fun _ => rfl) rfl rfl rfl rfl

/-- **An update.** -/
theorem Wf.update (h : s.Wf sched) (data : Update) :
    (s.update data).Wf sched ∧ s.Moves (s.update data) := by
  have hbase : ∀ (s₁ : Schedule), s₁.clearBreaker = { s.clearBreaker with
        enabled := s₁.enabled
        maxConcurrency := s₁.maxConcurrency
        executionTemplateId := s₁.executionTemplateId } → s₁ = { s with
        enabled := s₁.enabled
        maxConcurrency := s₁.maxConcurrency
        executionTemplateId := s₁.executionTemplateId } → s₁.Wf sched := by
    intro s₁ hclear hs₁
    refine h.congr (fun hc => ?_) ?_ ?_ ?_ ?_
    · rw [hclear, hc]
      exact hs₁.symm
    · rw [hs₁]
    · rw [hs₁]
    · rw [hs₁]
    · rw [hs₁]
  unfold Schedule.update
  cases data.enabled with
  | none => exact ⟨hbase _ rfl rfl, le_refl _, fun _ hx => .inl hx⟩
  | some enabled =>
      simp only
      unfold setEnabled
      split
      · refine ⟨?_, Nat.le_succ _, fun _ _ => .inr rfl⟩
        exact (Wf.clear s).congr (fun _ => rfl) rfl rfl rfl rfl
      · exact ⟨hbase _ rfl rfl, le_refl _, fun _ hx => .inl hx⟩

theorem maybeEscalate_frame (sched : SchedulerSettings) (now : Time) (s : Schedule) :
    ∃ x, s.maybeEscalate sched now = { s with breakerEscalatedAt := x } ∧
      ∀ y, s.breakerEscalatedAt = some y → x = some y := by
  unfold maybeEscalate
  split
  · exact ⟨_, rfl, fun _ h => h⟩
  · split
    · exact ⟨_, rfl, fun _ h => h⟩
    · rename_i hno
      refine ⟨_, rfl, fun y hy => ?_⟩
      rw [hy] at hno
      exact absurd (.inr (.inl rfl)) hno

/-! ### Outcomes -/

/-- What applying an outcome to a breaker comes to. -/
inductive Driven (sched : SchedulerSettings) (now : Time) (o : TaskOutcome) (s : Schedule) :
    Schedule → Prop
  | same : Driven sched now o s s
  | trippedHeld (reason : BreakerReason) : s.breakerState = .closed →
      Driven sched now o s
        ({ s with breakerOpenedAt := some now, breakerEscalatedAt := none }.enterHeld
          o.task.snapshotArtifactId reason)
  | trippedOpen (reason : BreakerReason) : s.breakerState = .closed →
      Driven sched now o s
        ({ s with breakerOpenedAt := some now, breakerEscalatedAt := none, breakerLevel := 0
          }.enterOpen sched now reason)
  | recovered : s.breakerState ≠ .closed → o.outcomeClass = .ok →
      Driven sched now o s s.clearBreaker
  | probeHeld (reason : BreakerReason) : s.breakerState = .halfOpen → o.outcomeClass = .broken →
      Driven sched now o s (s.enterHeld o.task.snapshotArtifactId reason)
  | probeFailed (reason : BreakerReason) : s.breakerState = .halfOpen →
      o.outcomeClass = .transient →
      Driven sched now o s ((s.reopen sched now reason).maybeEscalate sched now)
  | probeNeutral : s.breakerState = .halfOpen → o.outcomeClass = .neutral →
      Driven sched now o s { s with breakerState := .opened, breakerRetryAt := some now }

variable {o : TaskOutcome} {rows : List (LedgerId × ScheduleOutcomeLedger)} {consecutive : Nat}
variable {isCurrent : Bool}

theorem driveBreaker_driven (sched : SchedulerSettings) (now : Time) (o : TaskOutcome)
    (rows : List (LedgerId × ScheduleOutcomeLedger)) (consecutive : Nat) (isCurrent : Bool)
    (s : Schedule) :
    Driven sched now o s (s.driveBreaker sched now o rows consecutive isCurrent).1 := by
  unfold driveBreaker
  by_cases hcurrent : isCurrent = false
  · rw [if_pos hcurrent]
    exact .same
  · rw [if_neg hcurrent]
    by_cases hclosed : s.breakerState = .closed
    · rw [if_pos hclosed]
      split
      · dsimp only
        split
        · exact .trippedHeld _ hclosed
        · exact .trippedOpen _ hclosed
      · exact .same
    · rw [if_neg hclosed]
      by_cases hok : o.outcomeClass = .ok
      · rw [if_pos hok]
        exact .recovered hclosed hok
      · rw [if_neg hok]
        by_cases hhalf : s.breakerState = .halfOpen
        · rw [if_neg (not_not.mpr hhalf)]
          cases hclass : o.outcomeClass with
          | ok => exact absurd hclass hok
          | broken => exact .probeHeld _ hhalf hclass
          | transient => exact .probeFailed _ hhalf hclass
          | neutral => exact .probeNeutral hhalf hclass
        · rw [if_pos hhalf]
          exact .same

/-- An outcome of an older generation leaves the breaker alone. -/
theorem driveBreaker_older :
    (s.driveBreaker sched now o rows consecutive false).1 = s := rfl

/-- A transient outcome of the current generation resolves a half-open breaker. -/
theorem driveBreaker_transient (sched : SchedulerSettings) (now : Time) (o : TaskOutcome)
    (rows : List (LedgerId × ScheduleOutcomeLedger)) (consecutive : Nat)
    (hhalf : s.breakerState = .halfOpen) (hclass : o.outcomeClass = .transient) :
    ∃ x reason, (s.driveBreaker sched now o rows consecutive true).1 =
      { s.reopen sched now reason with breakerEscalatedAt := x } := by
  have hdrive : ∃ reason, (s.driveBreaker sched now o rows consecutive true).1 =
      (s.reopen sched now reason).maybeEscalate sched now := by
    unfold driveBreaker
    simp only [hhalf, hclass]
    exact ⟨_, rfl⟩
  obtain ⟨reason, hdrive⟩ := hdrive
  obtain ⟨x, hx, -⟩ := maybeEscalate_frame sched now (s.reopen sched now reason)
  exact ⟨x, reason, hdrive.trans hx⟩

/-- An outcome touches the breaker only. -/
theorem Driven.frame (h : Driven sched now o s s') :
    s'.outcomeGeneration = s.outcomeGeneration ∧
      s'.consecutiveErrorCount = s.consecutiveErrorCount := by
  cases h with
  | same | trippedHeld | trippedOpen | recovered | probeHeld | probeNeutral => exact ⟨rfl, rfl⟩
  | probeFailed reason =>
      obtain ⟨x, hx, -⟩ := maybeEscalate_frame sched now (s.reopen sched now reason)
      rw [hx]
      exact ⟨rfl, rfl⟩

/-- **An outcome.** -/
theorem Wf.drive (h : s.Wf sched) (hdriven : Driven sched now o s s') :
    s'.Wf sched ∧ s.Moves s' := by
  cases hdriven with
  | same => exact ⟨h, .refl s⟩
  | trippedHeld reason hstate =>
      refine ⟨?_, le_refl _, fun x hx => ?_⟩
      · exact
          { closed := fun hc => by cases hc
            opened := fun _ => rfl
            retry := fun hc => by rcases hc with hc | hc <;> cases hc
            held := fun _ => rfl
            level_nonneg := h.level_nonneg
            level_le := h.level_le }
      · rw [h.escalated_closed hstate] at hx
        cases hx
  | trippedOpen reason hstate =>
      refine ⟨?_, le_refl _, fun x hx => ?_⟩
      · exact
          { closed := fun hc => by cases hc
            opened := fun _ => rfl
            retry := fun _ => rfl
            held := fun hc => by cases hc
            level_nonneg := le_refl _
            level_le := SchedulerSettings.maxLevel_nonneg }
      · rw [h.escalated_closed hstate] at hx
        cases hx
  | recovered _ _ => exact ⟨Wf.clear s, le_refl _, fun _ _ => .inr rfl⟩
  | probeHeld reason hstate _ =>
      refine ⟨?_, le_refl _, fun x hx => .inl hx⟩
      exact
        { closed := fun hc => by cases hc
          opened := fun _ => h.opened (by simp [hstate])
          retry := fun hc => by rcases hc with hc | hc <;> cases hc
          held := fun _ => rfl
          level_nonneg := h.level_nonneg
          level_le := h.level_le }
  | probeFailed reason hstate _ =>
      obtain ⟨x, hx, hkept⟩ := maybeEscalate_frame sched now (s.reopen sched now reason)
      rw [hx]
      refine ⟨?_, le_refl _, fun y hy => .inl (hkept y hy)⟩
      exact
        { closed := fun hc => by cases hc
          opened := fun _ => h.opened (by simp [hstate])
          retry := fun _ => rfl
          held := fun hc => by cases hc
          level_nonneg := le_min (by linarith [h.level_nonneg]) SchedulerSettings.maxLevel_nonneg
          level_le := min_le_right _ _ }
  | probeNeutral hstate _ =>
      refine ⟨?_, le_refl _, fun x hx => .inl hx⟩
      exact
        { closed := fun hc => by cases hc
          opened := fun _ => h.opened (by simp [hstate])
          retry := fun _ => rfl
          held := fun hc => by cases hc
          level_nonneg := h.level_nonneg
          level_le := h.level_le }

end Rows

end Schedule

/-! ### The machine -/

namespace Breaker

/-- The scheduler's tables, and the tasks of the schedules. -/
structure State where
  db : ScheduleDb
  tasks : Table TaskId Task

/-- Nothing is there yet. -/
def State.start : State where
  db := { schedules := .empty, ledger := .empty }
  tasks := .empty

inductive Action where
  /-- A schedule is created, with a closed breaker. -/
  | create (sid : ScheduleId) (enabled : Bool) (maxConcurrency : Nat) (template : TemplateId)
  | update (sid : ScheduleId) (data : Schedule.Update)
  | reset (sid : ScheduleId)
  /-- The timer's gate admits a firing, which is committed with its task. -/
  | fireTimer (now : Time) (sid : ScheduleId) (current : Option ArtifactId) (t : TaskId)
      (task : Task)
  | triggerNow (sid : ScheduleId) (t : TaskId) (task : Task)
  /-- The outcome of a task is recorded, for the first time or again. -/
  | record (now : Time) (id : LedgerId) (t : TaskId) (status : TaskStatus)
      (finishedAt : Option Time) (erroneous : Bool) (outcomeClass : OutcomeClass)

/-- A task's row at its creation for a schedule. -/
def taskFor (sid : ScheduleId) (s : Schedule) (source : TaskSource) (task : Task) : Task :=
  { task with
    source := source
    scheduleId := some sid
    scheduleGeneration := some s.outcomeGeneration }

/-- The outcome that a recording is about. -/
def outcomeOf (t : TaskId) (task : Task) (status : TaskStatus) (finishedAt : Option Time)
    (erroneous : Bool) (outcomeClass : OutcomeClass) : TaskOutcome where
  taskId := t
  task := { task with status := status, finishedAt := finishedAt }
  erroneous := erroneous
  outcomeClass := outcomeClass

namespace State

/-- A new row of a schedule. -/
def setRow (w : State) (sid : ScheduleId) (s : Schedule) : State :=
  { w with db := { w.db with schedules := w.db.schedules.modify sid fun _ => s } }

end State

/-- One transaction. -/
def step (sched : SchedulerSettings) (w : State) : Action → Option State
  | .create sid enabled maxConcurrency template =>
      if (w.db.schedules.get sid).isNone then
        let row : Schedule :=
          { enabled := enabled
            maxConcurrency := maxConcurrency
            executionTemplateId := template }
        some { w with db := { w.db with schedules := w.db.schedules.insert sid row } }
      else none
  | .update sid data => (w.db.schedules.get sid).map fun s => w.setRow sid (s.update data)
  | .reset sid => (w.db.schedules.get sid).map fun s => w.setRow sid s.resetBreaker
  | .fireTimer now sid current t task =>
      if (w.tasks.get t).isNone then
        (w.db.schedules.get sid).bind fun s =>
          (s.admitBreaker sched now current).map fun s' =>
            { w.setRow sid s' with tasks := w.tasks.insert t (taskFor sid s' .timer task) }
      else none
  | .triggerNow sid t task =>
      if (w.tasks.get t).isNone then
        (w.db.schedules.get sid).map fun s =>
          { w with tasks := w.tasks.insert t (taskFor sid s .triggerNow task) }
      else none
  | .record now id t status finishedAt erroneous outcomeClass =>
      if (w.db.ledger.get id).isNone then
        (w.tasks.get t).map fun task =>
          { w with
            db := (w.db.recordLedger sched now id
              (outcomeOf t task status finishedAt erroneous outcomeClass)).1 }
      else none

/-! ### What a step does to the rows -/

/-- Is the action about the row of this schedule? -/
def Action.concerns (w : State) (sid : ScheduleId) : Action → Prop
  | .create .. | .triggerNow .. => False
  | .update sid' _ | .reset sid' | .fireTimer _ sid' .. => sid' = sid
  | .record _ _ t .. => ∃ task, w.tasks.get t = some task ∧ task.scheduleId = some sid

section Steps

variable {sched : SchedulerSettings} {w w' : State} {a : Action} {sid : ScheduleId}
variable {s : Schedule}

theorem get_setRow (sid' : ScheduleId) (h : w.db.schedules.get sid = some s) (s' : Schedule) :
    (w.setRow sid s').db.schedules.get sid' =
      if sid' = sid then some s' else w.db.schedules.get sid' := by
  show (w.db.schedules.modify sid fun _ => s').get sid' = _
  rw [Table.get_modify]
  by_cases hsid : sid' = sid
  · rw [if_pos hsid, if_pos hsid, hsid, h]
    rfl
  · rw [if_neg hsid, if_neg hsid]

/-- What one transaction does to a schedule's row. -/
inductive RowStep (sched : SchedulerSettings) (w w' : State) (sid : ScheduleId) (s : Schedule) :
    Action → Schedule → Prop
  | same {a : Action} : ¬ a.concerns w sid → RowStep sched w w' sid s a s
  | updated (data : Schedule.Update) : RowStep sched w w' sid s (.update sid data) (s.update data)
  | reset : RowStep sched w w' sid s (.reset sid) s.resetBreaker
  | admitted {now : Time} {current : Option ArtifactId} {t : TaskId} {task : Task} {s' : Schedule} :
      s.admitBreaker sched now current = some s' →
      RowStep sched w w' sid s (.fireTimer now sid current t task) s'
  | recorded {now : Time} {id : LedgerId} {t : TaskId} {task : Task} {status : TaskStatus}
      {finishedAt : Option Time} {erroneous : Bool} {outcomeClass : OutcomeClass} :
      w.tasks.get t = some task → task.scheduleId = some sid →
      w'.db.ledger = w.db.recordedLedger sched now id
        (outcomeOf t task status finishedAt erroneous outcomeClass) sid →
      RowStep sched w w' sid s (.record now id t status finishedAt erroneous outcomeClass)
        (w.db.recordedRow sched now id
          (outcomeOf t task status finishedAt erroneous outcomeClass) sid s).1

/-- **The step**, for the row of one schedule. -/
theorem step_row (h : step sched w a = some w') (hs : w.db.schedules.get sid = some s) :
    ∃ s', w'.db.schedules.get sid = some s' ∧ RowStep sched w w' sid s a s' := by
  cases a with
  | create sid' enabled maxConcurrency template =>
      simp only [step] at h
      split at h
      · rename_i hnone
        obtain rfl := Option.some.inj h
        refine ⟨s, ?_, .same id⟩
        have hnone : w.db.schedules.get sid' = none := Option.isNone_iff_eq_none.mp hnone
        show (w.db.schedules.insert sid' _).get sid = some s
        rw [Table.get_insert _ _ hnone, if_neg, hs]
        rintro rfl
        rw [hnone] at hs
        cases hs
      · cases h
  | update sid' data =>
      obtain ⟨s₁, hs₁, rfl⟩ := Option.map_eq_some_iff.mp h
      rw [get_setRow sid hs₁]
      by_cases hsid : sid = sid'
      · subst hsid
        obtain rfl := Option.some.inj (hs.symm.trans hs₁)
        exact ⟨_, if_pos rfl, .updated data⟩
      · exact ⟨s, by rw [if_neg hsid, hs], .same fun hc => hsid hc.symm⟩
  | reset sid' =>
      obtain ⟨s₁, hs₁, rfl⟩ := Option.map_eq_some_iff.mp h
      rw [get_setRow sid hs₁]
      by_cases hsid : sid = sid'
      · subst hsid
        obtain rfl := Option.some.inj (hs.symm.trans hs₁)
        exact ⟨_, if_pos rfl, .reset⟩
      · exact ⟨s, by rw [if_neg hsid, hs], .same fun hc => hsid hc.symm⟩
  | fireTimer now sid' current t task =>
      simp only [step] at h
      split at h
      · obtain ⟨s₁, hs₁, h⟩ := Option.bind_eq_some_iff.mp h
        obtain ⟨s₂, hadmits, rfl⟩ := Option.map_eq_some_iff.mp h
        show ∃ s', (w.setRow sid' s₂).db.schedules.get sid = some s' ∧ _
        rw [get_setRow sid hs₁]
        by_cases hsid : sid = sid'
        · subst hsid
          obtain rfl := Option.some.inj (hs.symm.trans hs₁)
          exact ⟨_, if_pos rfl, .admitted hadmits⟩
        · exact ⟨s, by rw [if_neg hsid, hs], .same fun hc => hsid hc.symm⟩
      · cases h
  | triggerNow sid' t task =>
      simp only [step] at h
      split at h
      · obtain ⟨s₁, -, rfl⟩ := Option.map_eq_some_iff.mp h
        exact ⟨s, hs, .same id⟩
      · cases h
  | record now lid t status finishedAt erroneous outcomeClass =>
      simp only [step] at h
      split at h
      · obtain ⟨task, htask, rfl⟩ := Option.map_eq_some_iff.mp h
        by_cases hsid : task.scheduleId = some sid
        · obtain ⟨hledger, hrows⟩ := ScheduleDb.recordLedger_spec sched now lid
            (o := outcomeOf t task status finishedAt erroneous outcomeClass) hsid hs
          exact ⟨_, (hrows sid).trans (if_pos rfl), .recorded htask hsid hledger⟩
        · refine ⟨s, (ScheduleDb.recordLedger_other hsid).trans hs, .same ?_⟩
          rintro ⟨task', htask', hc⟩
          obtain rfl := Option.some.inj (htask.symm.trans htask')
          exact hsid hc
      · cases h

/-- A schedule that was not there before is a new one. -/
theorem step_created (h : step sched w a = some w') (hs : w.db.schedules.get sid = none)
    {s' : Schedule} (hs' : w'.db.schedules.get sid = some s') : s'.clearBreaker = s' := by
  cases a with
  | create sid' enabled maxConcurrency template =>
      simp only [step] at h
      split at h
      · rename_i hnone
        obtain rfl := Option.some.inj h
        have hnone : w.db.schedules.get sid' = none := Option.isNone_iff_eq_none.mp hnone
        change (w.db.schedules.insert sid' _).get sid = some s' at hs'
        rw [Table.get_insert _ _ hnone] at hs'
        split at hs'
        · obtain rfl := Option.some.inj hs'
          rfl
        · rw [hs] at hs'
          cases hs'
      · cases h
  | update sid' data =>
      obtain ⟨s₁, hs₁, rfl⟩ := Option.map_eq_some_iff.mp h
      rw [get_setRow sid hs₁, if_neg, hs] at hs'
      · cases hs'
      · rintro rfl
        rw [hs] at hs₁
        cases hs₁
  | reset sid' =>
      obtain ⟨s₁, hs₁, rfl⟩ := Option.map_eq_some_iff.mp h
      rw [get_setRow sid hs₁, if_neg, hs] at hs'
      · cases hs'
      · rintro rfl
        rw [hs] at hs₁
        cases hs₁
  | fireTimer now sid' current t task =>
      simp only [step] at h
      split at h
      · obtain ⟨s₁, hs₁, h⟩ := Option.bind_eq_some_iff.mp h
        obtain ⟨s₂, -, rfl⟩ := Option.map_eq_some_iff.mp h
        change (w.setRow sid' s₂).db.schedules.get sid = some s' at hs'
        rw [get_setRow sid hs₁, if_neg, hs] at hs'
        · cases hs'
        · rintro rfl
          rw [hs] at hs₁
          cases hs₁
      · cases h
  | triggerNow sid' t task =>
      simp only [step] at h
      split at h
      · obtain ⟨s₁, -, rfl⟩ := Option.map_eq_some_iff.mp h
        change w.db.schedules.get sid = some s' at hs'
        rw [hs] at hs'
        cases hs'
      · cases h
  | record now lid t status finishedAt erroneous outcomeClass =>
      simp only [step] at h
      split at h
      · obtain ⟨task, htask, rfl⟩ := Option.map_eq_some_iff.mp h
        change (w.db.recordLedger sched now lid _).1.schedules.get sid = some s' at hs'
        rw [ScheduleDb.recordLedger_absent hs] at hs'
        cases hs'
      · cases h

/-- A task is created with the generation its schedule has by then. -/
theorem step_tasks (h : step sched w a = some w') {t : TaskId} {task : Task}
    (ht : w'.tasks.get t = some task) :
    w.tasks.get t = some task ∨
      ∃ sid s', task.scheduleId = some sid ∧ w'.db.schedules.get sid = some s' ∧
        task.scheduleGeneration = some s'.outcomeGeneration := by
  cases a with
  | create sid' enabled maxConcurrency template =>
      simp only [step] at h
      split at h
      · obtain rfl := Option.some.inj h
        exact .inl ht
      · cases h
  | update sid' data =>
      obtain ⟨s₁, -, rfl⟩ := Option.map_eq_some_iff.mp h
      exact .inl ht
  | reset sid' =>
      obtain ⟨s₁, -, rfl⟩ := Option.map_eq_some_iff.mp h
      exact .inl ht
  | fireTimer now sid' current t' task' =>
      simp only [step] at h
      split at h
      · rename_i hnone
        obtain ⟨s₁, hs₁, h⟩ := Option.bind_eq_some_iff.mp h
        obtain ⟨s₂, -, rfl⟩ := Option.map_eq_some_iff.mp h
        change (w.tasks.insert t' _).get t = some task at ht
        rw [Table.get_insert _ _ (Option.isNone_iff_eq_none.mp hnone)] at ht
        split at ht
        · obtain rfl := Option.some.inj ht
          refine .inr ⟨sid', s₂, rfl, ?_, rfl⟩
          exact (get_setRow sid' hs₁ s₂).trans (if_pos rfl)
        · exact .inl ht
      · cases h
  | triggerNow sid' t' task' =>
      simp only [step] at h
      split at h
      · rename_i hnone
        obtain ⟨s₁, hs₁, rfl⟩ := Option.map_eq_some_iff.mp h
        change (w.tasks.insert t' _).get t = some task at ht
        rw [Table.get_insert _ _ (Option.isNone_iff_eq_none.mp hnone)] at ht
        split at ht
        · obtain rfl := Option.some.inj ht
          exact .inr ⟨sid', s₁, rfl, hs₁, rfl⟩
        · exact .inl ht
      · cases h
  | record now lid t' status finishedAt erroneous outcomeClass =>
      simp only [step] at h
      split at h
      · obtain ⟨task', -, rfl⟩ := Option.map_eq_some_iff.mp h
        exact .inl ht
      · cases h

/-- **What a transaction does to a row**: it keeps a well-formed breaker, and moves it on. -/
theorem RowStep.moves {s' : Schedule} (h : RowStep sched w w' sid s a s') (hwf : s.Wf sched) :
    s'.Wf sched ∧ s.Moves s' := by
  cases h with
  | same => exact ⟨hwf, .refl s⟩
  | updated data => exact hwf.update data
  | reset => exact hwf.reset
  | admitted hadmits => exact hwf.admits hadmits
  | recorded htask hsid hledger =>
      have hcount : ∀ n, ({ s with consecutiveErrorCount := n } : Schedule).Wf sched := by
        intro n
        refine hwf.congr (fun hc => ?_) rfl rfl rfl rfl
        exact congrArg (fun r : Schedule => { r with consecutiveErrorCount := n }) hc
      obtain ⟨hwf', hmoves⟩ := (hcount _).drive (Schedule.driveBreaker_driven ..)
      exact ⟨hwf', hmoves.generation, hmoves.escalated⟩

end Steps

/-! ### Runs -/

/-- What holds of the tables after any run. -/
structure Inv (sched : SchedulerSettings) (w : State) : Prop where
  rows : ∀ sid s, w.db.schedules.get sid = some s → s.Wf sched
  tasks : ∀ t task sid, w.tasks.get t = some task → task.scheduleId = some sid →
    ∃ s, w.db.schedules.get sid = some s ∧ task.scheduleGeneration.getD 0 ≤ s.outcomeGeneration

theorem Inv.start (sched : SchedulerSettings) : Inv sched State.start where
  rows sid s hs := by cases hs
  tasks t task sid ht := by cases ht

/-- **The step.** -/
theorem Inv.next {sched : SchedulerSettings} {w w' : State} {a : Action} (hinv : Inv sched w)
    (h : step sched w a = some w') : Inv sched w' := by
  constructor
  · intro sid s' hs'
    rcases hs : w.db.schedules.get sid with - | s
    · rw [← step_created h hs hs']
      exact .clear s'
    · obtain ⟨s₁, hs₁, hrow⟩ := step_row h hs
      obtain rfl := Option.some.inj (hs₁.symm.trans hs')
      exact (hrow.moves (hinv.rows sid s hs)).1
  · intro t task sid ht hsid
    rcases step_tasks h ht with hold | ⟨sid', s', hsid', hs', hgen⟩
    · obtain ⟨s, hs, hle⟩ := hinv.tasks t task sid hold hsid
      obtain ⟨s', hs', hrow⟩ := step_row h hs
      exact ⟨s', hs', hle.trans (hrow.moves (hinv.rows sid s hs)).2.generation⟩
    · obtain rfl := Option.some.inj (hsid'.symm.trans hsid)
      refine ⟨s', hs', ?_⟩
      rw [hgen]
      exact le_refl _

theorem Inv.run {sched : SchedulerSettings} {w : State} (hrun : Run (step sched) State.start w) :
    Inv sched w :=
  hrun.invariant (fun _ _ _ hinv _ h => hinv.next h) (Inv.start sched)

/-- What the next transaction does to a schedule's row, whichever it is.  After
a recording the count is that of the ledger, and an outcome of an older
generation changes nothing else. -/
def StepKeeps (sched : SchedulerSettings) (w : State) : Prop :=
  ∀ a w', step sched w a = some w' → ∀ sid s, w.db.schedules.get sid = some s →
    ∃ s', w'.db.schedules.get sid = some s' ∧ s.Moves s' ∧
      ∀ now id t status finishedAt erroneous outcomeClass task,
        a = .record now id t status finishedAt erroneous outcomeClass →
        w.tasks.get t = some task → task.scheduleId = some sid →
          s'.consecutiveErrorCount =
              ((Ledger.generationRows w'.db.ledger sid s'.outcomeGeneration).takeWhile
                fun r => r.2.erroneous).length ∧
            (task.scheduleGeneration.getD 0 < s.outcomeGeneration →
              s' = { s with consecutiveErrorCount := s'.consecutiveErrorCount })

theorem Inv.stepKeeps {sched : SchedulerSettings} {w : State} (hinv : Inv sched w) :
    StepKeeps sched w := by
  intro a w' h sid s hs
  obtain ⟨s', hs', hrow⟩ := step_row h hs
  refine ⟨s', hs', (hrow.moves (hinv.rows sid s hs)).2, ?_⟩
  rintro now id t status finishedAt erroneous outcomeClass task rfl htask hsid
  cases hrow with
  | same hno => exact absurd ⟨task, htask, hsid⟩ hno
  | recorded htask' hsid' hledger =>
      obtain rfl := Option.some.inj (htask.symm.trans htask')
      unfold ScheduleDb.recordedRow
      dsimp only
      constructor
      · obtain ⟨hgen, hcount⟩ := (Schedule.driveBreaker_driven sched now
          (outcomeOf t task status finishedAt erroneous outcomeClass) _ _ _ _).frame
        rw [hcount, hgen, hledger, countConsecutive_eq]
      · intro holder
        have hne : (outcomeOf t task status finishedAt erroneous outcomeClass).generation ≠
            s.outcomeGeneration := holder.ne
        rw [decide_eq_false hne]
        rfl

/-- **The breaker's rows.**  After any run every schedule's row is well formed,
its generation bounds those of its tasks, and so it goes on: the generation does
not decrease, an escalation is marked once before the breaker closes, and a
recording leaves the count of the ledger and is applied only if it is of the
current generation. -/
theorem breaker_invariant {sched : SchedulerSettings} {w : State}
    (hrun : Run (step sched) State.start w) : Inv sched w ∧ StepKeeps sched w :=
  ⟨.run hrun, (Inv.run hrun).stepKeeps⟩

/-- One error trips; 10 s are doubled up to 40 s. -/
def sampleSettings : SchedulerSettings where
  autoDisableAfterErrors := 1
  breakerBackoffBaseSeconds := 10
  breakerBackoffMaxSeconds := 40
  breakerEscalateAfterSeconds := 0
  one_le_base := by decide
  base_le_max := by decide
  escalate_nonneg := by decide

theorem breaker_invariant_sample :
    ∃ w, (Inv sampleSettings w ∧ StepKeeps sampleSettings w) ∧
      (w.db.schedules.get 0).any (fun s => s.breakerState = .halfOpen) = true := by
  obtain ⟨w, hrun, hw⟩ := RunOk.exists_of_checkedRun (step sampleSettings) (fun _ _ => True)
    State.start
    [.create 0 true 1 0, .triggerNow 0 0 {}, .record 5 0 0 .lost (some 4) true .transient,
      .fireTimer 15 0 none 1 {}]
    (fun w => (w.db.schedules.get 0).any fun s => s.breakerState = .halfOpen) (by decide +kernel)
  exact ⟨w, breaker_invariant hrun, hw⟩

end Breaker

end Dopilot
