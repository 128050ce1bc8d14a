/-
Dopilot/Outcomes.lean

The recorder of task outcomes.

Each tick takes a fixed number of terminal tasks whose outcome is not recorded,
oldest first, and records those of them that are ready: a task waits for the
drain of its logs, and a lost one for its reclaims or for a grace period.  The
limit is applied before readiness is looked at, so a tick is one round of the
window of `Window.lean` (`recordTaskOutcomes_queue`), and a ready task gets its
outcome in time exactly if the tasks in front of it that are not ready leave a
place in that window (`recorded_in_time`).

The same transaction feeds the schedule of the task; nothing here reads what it
writes there.
-/
import Mathlib.Data.List.Sort
import Dopilot.ServerDb
import Dopilot.Window

namespace Dopilot

/-! ### Judging -/

/-- What the recorder reads of `settings.scheduler` and `settings.logs`. -/
structure OutcomeSettings where
  lostOutcomeGraceSeconds : Time
  logDrainTimeoutSeconds : Time
  maxFileBytes : Nat

/-- `FALLBACK_GRACE_SECONDS`. -/
def fallbackGraceSeconds : Time := 60

/-- `ERRONEOUS_TRUNCATION_REASONS`. -/
def TruncationReason.erroneous : TruncationReason → Bool
  | sizeCap | dirBudget => true
  | maintenance => false

/-- `execution_is_erroneous`. -/
def executionIsErroneous (e : Execution) (logFile : Option ExecutionLogFile)
    (maxFileBytes : Nat) : Bool :=
  e.status == .failed || e.status == .lost
    || e.errorCode == some "log_flood"
    || (e.status == .finished
      && (e.errorCount.any (0 < ·) || e.finishReason.any (· != "finished")))
    || logFile.any (fun f =>
      f.logIntegrity == .truncated && f.truncationReason.any TruncationReason.erroneous)
    || (decide (0 < maxFileBytes) && e.logBytes.any (maxFileBytes ≤ ·))

namespace ServerDb

/-- `task_is_erroneous`, on the rows under the lock. -/
def taskIsErroneous (db : ServerDb) (t : TaskId) (task : Task) (maxFileBytes : Nat) : Bool :=
  task.status == .failed || task.status == .lost
    || (db.listExecutions t).any fun r =>
      executionIsErroneous r.2 (db.logFiles.get ⟨t, r.1, .log⟩) maxFileBytes

/-- The log files of a task. -/
def taskLogFiles (db : ServerDb) (t : TaskId) : List (LogKey × ExecutionLogFile) :=
  db.logFiles.rows.filter fun r => r.1.taskId = t

/-! ### Recording -/

/-- `_ready`. -/
def ready (settings : OutcomeSettings) (db : ServerDb) (now : Time) (r : TaskId × Task) : Bool :=
  let age := now - r.2.finishedAt.getD r.2.updatedAt
  let reclaimed := (db.listExecutions r.1).all fun x =>
    x.2.status != .lost || db.reclaimEverIssued x.1
  let stillOpen := (db.taskLogFiles r.1).any fun f => f.2.status.writable
  if r.2.status = .lost ∧ ¬ (reclaimed ∧ settings.logDrainTimeoutSeconds ≤ age)
      ∧ (settings.lostOutcomeGraceSeconds ≤ 0 ∨ age < settings.lostOutcomeGraceSeconds) then false
  else if stillOpen ∧ age < settings.logDrainTimeoutSeconds + fallbackGraceSeconds then false
  else true

/-- `_seal`, for the log files of a task. -/
def sealLogs (db : ServerDb) (t : TaskId) : ServerDb :=
  { db with logFiles := db.logFiles.updateAll fun k f =>
      if k.taskId = t ∧ f.status.writable = true then
        { f with status := .complete, finalOffset := some f.sizeBytes }
      else f }

/-- A task that is terminal and whose outcome is not recorded. -/
def unrecorded (r : TaskId × Task) : Bool := r.2.status.terminal && r.2.outcomeRecordedAt.isNone

/-- One candidate of a tick, read again under the locks. -/
def recordTask (settings : OutcomeSettings) (now : Time) (db : ServerDb) (t : TaskId) : ServerDb :=
  match db.tasks.get t with
  | none => db
  | some task =>
      if unrecorded (t, task) = false then db
      else if db.ready settings now (t, task) = false then db
      else
        let db := db.sealLogs t
        let erroneous := db.taskIsErroneous t task settings.maxFileBytes
        db.updateTask t fun task =>
          { task with
            outcomeErroneous := some erroneous
            outcomeRecordedAt := some now
            updatedAt := now }

/-- `ORDER BY finished_at NULLS FIRST, id`. -/
def outcomeOrder (a b : TaskId × Task) : Prop :=
  match a.2.finishedAt, b.2.finishedAt with
  | none, none => a.1 ≤ b.1
  | none, some _ => True
  | some _, none => False
  | some x, some y => x < y ∨ x = y ∧ a.1 ≤ b.1

instance : DecidableRel outcomeOrder := fun a b => by
  unfold outcomeOrder
  split <;> infer_instance

/-- All candidates, in order. -/
def outcomeQueue (db : ServerDb) : List (TaskId × Task) :=
  (db.tasks.rows.filter unrecorded).insertionSort outcomeOrder

/-- `_candidates`. -/
def candidates (db : ServerDb) (limit : Nat) : List TaskId :=
  (db.outcomeQueue.take limit).map Prod.fst

/-- `record_task_outcomes`: one tick. -/
def recordTaskOutcomes (settings : OutcomeSettings) (limit : Nat) (db : ServerDb) (now : Time) :
    ServerDb :=
  (db.candidates limit).foldl (recordTask settings now) db

/-- Ticks at these times. -/
def recordTicks (settings : OutcomeSettings) (limit : Nat) (db : ServerDb) (nows : List Time) :
    ServerDb :=
  nows.foldl (recordTaskOutcomes settings limit) db

/-! ### The order of the candidates -/

instance : Std.Total outcomeOrder where
  total a b := by
    unfold outcomeOrder
    rcases a.2.finishedAt with - | x
    · rcases b.2.finishedAt with - | y
      · exact Nat.le_total a.1 b.1
      · exact .inl trivial
    · rcases b.2.finishedAt with - | y
      · exact .inr trivial
      · rcases lt_trichotomy x y with h | h | h
        · exact .inl (.inl h)
        · rcases Nat.le_total a.1 b.1 with hid | hid
          · exact .inl (.inr ⟨h, hid⟩)
          · exact .inr (.inr ⟨h.symm, hid⟩)
        · exact .inr (.inl h)

instance : IsTrans (TaskId × Task) outcomeOrder where
  trans a b c hab hbc := by
    unfold outcomeOrder at *
    rcases ha : a.2.finishedAt with - | x <;> rcases hb : b.2.finishedAt with - | y <;>
      rcases hc : c.2.finishedAt with - | z <;> simp only [ha, hb, hc] at *
    · exact Nat.le_trans hab hbc
    · rcases hab with hxy | ⟨rfl, hid⟩
      · rcases hbc with hyz | ⟨rfl, -⟩
        · exact .inl (hxy.trans hyz)
        · exact .inl hxy
      · rcases hbc with hyz | ⟨rfl, hid'⟩
        · exact .inl hyz
        · exact .inr ⟨rfl, Nat.le_trans hid hid'⟩

theorem outcomeOrder_antisymm {a b : TaskId × Task} (hab : outcomeOrder a b)
    (hba : outcomeOrder b a) : a.1 = b.1 := by
  unfold outcomeOrder at hab hba
  rcases ha : a.2.finishedAt with - | x <;> rcases hb : b.2.finishedAt with - | y <;>
    simp only [ha, hb] at hab hba
  · exact Nat.le_antisymm hab hba
  · rcases hab with hxy | ⟨rfl, hid⟩
    · rcases hba with hyx | ⟨rfl, -⟩
      · exact absurd hyx hxy.asymm
      · exact absurd hxy (lt_irrefl _)
    · rcases hba with hxx | ⟨-, hid'⟩
      · exact absurd hxx (lt_irrefl _)
      · exact Nat.le_antisymm hid hid'

/-! ### What recording one task does -/

section Recording

variable {settings : OutcomeSettings} {db db' : ServerDb} {now : Time} {t : TaskId}

/-- Rows of a table that an update takes out of a selection, or leaves alone. -/
theorem filter_updateAll {κ ρ : Type*} (tbl : Table κ ρ) {f : κ → ρ → ρ} {p q : κ × ρ → Bool}
    (h : ∀ r ∈ tbl.rows, p (r.1, f r.1 r.2) = (p r && q r))
    (hkeep : ∀ r ∈ tbl.rows, p r = true → q r = true → f r.1 r.2 = r.2) :
    (tbl.updateAll f).rows.filter p = (tbl.rows.filter p).filter q := by
  show (tbl.rows.map fun r => (r.1, f r.1 r.2)).filter p = _
  generalize tbl.rows = l at h hkeep
  induction l with
  | nil => rfl
  | cons r l ih =>
      have hrest := ih (fun x hx => h x (List.mem_cons_of_mem _ hx))
        fun x hx => hkeep x (List.mem_cons_of_mem _ hx)
      have hr := h r List.mem_cons_self
      rw [List.map_cons]
      by_cases hp : p r = true
      · by_cases hq : q r = true
        · rw [List.filter_cons_of_pos (by rw [hr, hp, hq]; rfl), List.filter_cons_of_pos hp,
            List.filter_cons_of_pos hq, hrest, hkeep r List.mem_cons_self hp hq]
        · rw [List.filter_cons_of_neg (by rw [hr]; simp [hq]), List.filter_cons_of_pos hp,
            List.filter_cons_of_neg hq, hrest]
      · rw [List.filter_cons_of_neg (by rw [hr]; simp [hp]), List.filter_cons_of_neg hp, hrest]

/-- Readiness looks at the task's own executions, log files and reclaims. -/
theorem ready_congr {r : TaskId × Task} (hexec : db'.executions = db.executions)
    (houtbox : db'.outbox = db.outbox) (hlogs : db'.taskLogFiles r.1 = db.taskLogFiles r.1) :
    db'.ready settings now r = db.ready settings now r := by
  unfold ready listExecutions reclaimEverIssued
  rw [hexec, houtbox, hlogs]

/-- What recording a task comes to: nothing, or its outcome is written. -/
theorem recordTask_cases (settings : OutcomeSettings) (now : Time) (db : ServerDb) (t : TaskId) :
    recordTask settings now db t = db ∧
        (∀ task, db.tasks.get t = some task → unrecorded (t, task) = true →
          db.ready settings now (t, task) = false) ∨
      ∃ task f, db.tasks.get t = some task ∧ unrecorded (t, task) = true ∧
        db.ready settings now (t, task) = true ∧
        (∀ task, (f task).status = task.status ∧ (f task).outcomeRecordedAt = some now) ∧
        recordTask settings now db t = (db.sealLogs t).updateTask t f := by
  unfold recordTask
  rcases hget : db.tasks.get t with - | task
  · refine .inl ⟨rfl, fun task hc => ?_⟩
    cases hc
  · simp only
    by_cases hun : unrecorded (t, task) = false
    · rw [if_pos hun]
      refine .inl ⟨rfl, fun task' htask' hc => ?_⟩
      obtain rfl := Option.some.inj htask'
      rw [hun] at hc
      cases hc
    · rw [if_neg hun]
      by_cases hready : db.ready settings now (t, task) = false
      · rw [if_pos hready]
        refine .inl ⟨rfl, fun task' htask' _ => ?_⟩
        obtain rfl := Option.some.inj htask'
        exact hready
      · rw [if_neg hready]
        refine .inr ⟨task, _, rfl, by simpa using hun, by simpa using hready, ?_, rfl⟩
        exact fun _ => ⟨rfl, rfl⟩

/-- The log files of another task stay as they are. -/
theorem sealLogs_taskLogFiles {t' : TaskId} (h : t' ≠ t) :
    (db.sealLogs t).taskLogFiles t' = db.taskLogFiles t' := by
  unfold taskLogFiles sealLogs
  simp only
  rw [filter_updateAll (q := fun _ => true)]
  · exact List.filter_true _
  · intro r _
    simp
  · intro r _ hr _
    have hr : r.1.taskId = t' := by simpa using hr
    rw [if_neg fun hc => h (hr.symm.trans hc.1)]

/-- **One candidate**: it leaves the queue if it is ready, and nothing else moves. -/
theorem recordTask_rows (settings : OutcomeSettings) (now : Time) (db : ServerDb) (t : TaskId) :
    (recordTask settings now db t).tasks.rows.filter unrecorded =
      (db.tasks.rows.filter unrecorded).filter
        fun r => !(decide (r.1 = t) && db.ready settings now r) := by
  rcases recordTask_cases settings now db t with
    ⟨hsame, hnot⟩ | ⟨task, f, htask, hun, hready, hf, hrec⟩
  · rw [hsame, eq_comm, List.filter_eq_self]
    rintro ⟨t', task⟩ hr
    obtain ⟨hmem, hun⟩ := List.mem_filter.mp hr
    by_cases ht : t' = t
    · subst ht
      simp [hnot task (Table.mem_rows_iff.mp hmem) hun]
    · simp [ht]
  · have hr_ready : ∀ r ∈ db.tasks.rows, r.1 = t → db.ready settings now r = true := by
      intro r hr ht
      have hr' := Table.mem_rows_iff.mp hr
      rw [ht, htask] at hr'
      rw [show r = (t, task) from Prod.ext ht (Option.some.inj hr').symm]
      exact hready
    rw [hrec]
    refine filter_updateAll db.tasks (fun r hr => ?_) fun r hr _ hq => ?_
    · by_cases ht : r.1 = t
      · simp only [ht, if_true]
        unfold unrecorded
        simp [(hf r.2).2, hr_ready r hr ht]
      · simp [ht]
    · by_cases ht : r.1 = t
      · simp [ht, hr_ready r hr ht] at hq
      · simp [ht]

/-- Readiness of what stays in the queue is what it was. -/
theorem recordTask_ready (settings : OutcomeSettings) (now : Time) (db : ServerDb) (t : TaskId)
    (now' : Time) {r : TaskId × Task} (hr : r ∈ (recordTask settings now db t).tasks.rows)
    (hun : unrecorded r = true) :
    (recordTask settings now db t).ready settings now' r = db.ready settings now' r := by
  rcases recordTask_cases settings now db t with
    ⟨hsame, -⟩ | ⟨task, f, htask, -, -, hf, hrec⟩
  · rw [hsame]
  · rw [hrec] at hr ⊢
    have ht : r.1 ≠ t := by
      intro ht
      obtain ⟨r₀, -, rfl⟩ := List.mem_map.mp hr
      have ht : r₀.1 = t := ht
      unfold unrecorded at hun
      simp [ht, (hf r₀.2).2] at hun
    exact ready_congr rfl rfl (sealLogs_taskLogFiles ht)

/-! ### What a tick does -/

/-- The candidates in the order of their insertion. -/
theorem fold_rows (settings : OutcomeSettings) (now : Time) (db : ServerDb) (ids : List TaskId) :
    (ids.foldl (recordTask settings now) db).tasks.rows.filter unrecorded =
        (db.tasks.rows.filter unrecorded).filter
          (fun r => !(decide (r.1 ∈ ids) && db.ready settings now r)) ∧
      ∀ now', ∀ r ∈ (ids.foldl (recordTask settings now) db).tasks.rows, unrecorded r = true →
        (ids.foldl (recordTask settings now) db).ready settings now' r =
          db.ready settings now' r := by
  induction ids generalizing db with
  | nil =>
      refine ⟨?_, fun _ _ _ _ => rfl⟩
      symm
      exact List.filter_eq_self.mpr fun r _ => by simp
  | cons t ids ih =>
      obtain ⟨hrows, hready⟩ := ih (recordTask settings now db t)
      have hone := recordTask_rows settings now db t
      constructor
      · rw [List.foldl_cons, hrows, hone, List.filter_filter]
        apply List.filter_congr
        intro r hr
        by_cases hleft : r.1 = t ∧ db.ready settings now r = true
        · simp [hleft.1, hleft.2]
        · -- `r` is still there, and as ready as it was
          have hstay : (!(decide (r.1 = t) && db.ready settings now r)) = true := by
            rw [Bool.not_eq_true', Bool.and_eq_false_iff, decide_eq_false_iff_not]
            by_cases ht : r.1 = t
            · exact .inr (by simpa [ht] using hleft)
            · exact .inl ht
          have hmem : r ∈ (recordTask settings now db t).tasks.rows.filter unrecorded := by
            rw [hone]
            exact List.mem_filter.mpr ⟨hr, hstay⟩
          obtain ⟨hmem, hun⟩ := List.mem_filter.mp hmem
          rw [recordTask_ready settings now db t now hmem hun, hstay, Bool.and_true]
          by_cases ht : r.1 = t
          · have hnot : db.ready settings now r = false := by simpa [ht] using hleft
            simp [hnot]
          · simp [ht]
      · intro now' r hr hun
        rw [List.foldl_cons] at hr ⊢
        rw [hready now' r hr hun]
        -- `r` was there before the rest was recorded
        have hmem : r ∈ (recordTask settings now db t).tasks.rows := by
          have hr' := List.mem_filter.mpr ⟨hr, hun⟩
          rw [hrows] at hr'
          exact (List.mem_filter.mp (List.mem_filter.mp hr').1).1
        exact recordTask_ready settings now db t now' hmem hun

theorem mem_outcomeQueue {r : TaskId × Task} :
    r ∈ db.outcomeQueue ↔ r ∈ db.tasks.rows ∧ unrecorded r = true := by
  unfold outcomeQueue
  rw [List.mem_insertionSort, List.mem_filter]

theorem outcomeQueue_nodup (db : ServerDb) : (db.outcomeQueue.map Prod.fst).Nodup := by
  have hperm : db.outcomeQueue.Perm (db.tasks.rows.filter unrecorded) :=
    List.perm_insertionSort _ _
  rw [(hperm.map Prod.fst).nodup_iff]
  exact db.tasks.nodup.sublist (List.filter_sublist.map _)

/-- Rows of one key are one row. -/
theorem outcomeQueue_inj {r r' : TaskId × Task} (hr : r ∈ db.outcomeQueue)
    (hr' : r' ∈ db.outcomeQueue) (h : r.1 = r'.1) : r = r' :=
  List.inj_on_of_nodup_map (outcomeQueue_nodup db) hr hr' h

/-- **A tick is one round of the window.** -/
theorem recordTaskOutcomes_queue (settings : OutcomeSettings) (limit : Nat) (db : ServerDb)
    (now : Time) :
    (db.recordTaskOutcomes settings limit now).outcomeQueue =
        Window.serve limit (db.ready settings now) db.outcomeQueue ∧
      ∀ now', ∀ r ∈ (db.recordTaskOutcomes settings limit now).outcomeQueue,
        (db.recordTaskOutcomes settings limit now).ready settings now' r =
          db.ready settings now' r := by
  obtain ⟨hrows, hready⟩ := fold_rows settings now db (db.candidates limit)
  refine ⟨?_, fun now' r hr => hready now' r (mem_outcomeQueue.mp hr).1 (mem_outcomeQueue.mp hr).2⟩
  have hnodup : db.outcomeQueue.Nodup := (outcomeQueue_nodup db).of_map _
  rw [Window.serve_eq_filter hnodup]
  -- both sides are sorted, and have the same members
  have hsorted : ∀ l : List (TaskId × Task), (l.insertionSort outcomeOrder).Pairwise outcomeOrder :=
    fun l => List.pairwise_insertionSort _ l
  refine List.Perm.eq_of_pairwise ?_ (hsorted _) ((hsorted _).filter _) ?_
  · intro a b ha hb hab hba
    have hb : b ∈ db.outcomeQueue := List.mem_of_mem_filter hb
    have ha : a ∈ db.outcomeQueue := by
      have ha' := mem_outcomeQueue.mp ha
      have ha'' := List.mem_filter.mpr ha'
      unfold recordTaskOutcomes at ha''
      rw [hrows] at ha''
      exact mem_outcomeQueue.mpr (List.mem_filter.mp (List.mem_filter.mp ha'').1)
    exact outcomeQueue_inj ha hb (outcomeOrder_antisymm hab hba)
  · refine (List.perm_insertionSort _ _).trans ?_
    unfold recordTaskOutcomes
    rw [hrows]
    have hperm : db.outcomeQueue.Perm (db.tasks.rows.filter unrecorded) :=
      List.perm_insertionSort _ _
    refine (hperm.symm.filter _).trans (List.Perm.of_eq ?_)
    apply List.filter_congr
    intro r hr
    have hids : r.1 ∈ db.candidates limit ↔ r ∈ db.outcomeQueue.take limit := by
      unfold candidates
      constructor
      · intro h
        obtain ⟨r', hr', heq⟩ := List.mem_map.mp h
        rw [← outcomeQueue_inj (List.mem_of_mem_take hr') hr heq]
        exact hr'
      · exact fun h => List.mem_map_of_mem h
    rw [decide_eq_decide.mpr hids]

/-- Ticks are rounds. -/
theorem recordTicks_queue (settings : OutcomeSettings) (limit : Nat) (db : ServerDb)
    (nows : List Time) :
    (db.recordTicks settings limit nows).outcomeQueue =
      Window.serveAll limit (nows.map (db.ready settings)) db.outcomeQueue := by
  induction nows generalizing db with
  | nil => rfl
  | cons now nows ih =>
      obtain ⟨hqueue, hready⟩ := recordTaskOutcomes_queue settings limit db now
      show ((db.recordTaskOutcomes settings limit now).recordTicks settings limit nows).outcomeQueue
        = Window.serveAll limit (nows.map (db.ready settings))
            (Window.serve limit (db.ready settings now) db.outcomeQueue)
      rw [ih, ← hqueue]
      exact Window.serveAll_congr nows fun now' _ r hr => hready now' r hr

/-- Nothing but its outcome is written to a task, and a task stays terminal. -/
theorem recordTicks_task (settings : OutcomeSettings) (limit : Nat) (db : ServerDb)
    (nows : List Time) (t : TaskId) : (db.recordTicks settings limit nows).taskStatus t =
      db.taskStatus t := by
  have hone : ∀ (db : ServerDb) (now : Time) (t' : TaskId),
      (recordTask settings now db t').taskStatus t = db.taskStatus t := by
    intro db now t'
    rcases recordTask_cases settings now db t' with ⟨hsame, -⟩ | ⟨task, f, -, -, -, hf, hrec⟩
    · rw [hsame]
    · rw [hrec]
      unfold taskStatus updateTask
      rw [Table.get_modify]
      by_cases ht : t = t'
      · rw [if_pos ht, Option.map_map]
        show Option.map _ (db.tasks.get t) = _
        congr 1
        funext task
        exact (hf task).1
      · rw [if_neg ht]
        rfl
  have hfold : ∀ (ids : List TaskId) (db : ServerDb) (now : Time),
      (ids.foldl (recordTask settings now) db).taskStatus t = db.taskStatus t := by
    intro ids
    induction ids with
    | nil => exact fun _ _ => rfl
    | cons id ids ih => exact fun db now => (ih _ now).trans (hone db now id)
  induction nows generalizing db with
  | nil => rfl
  | cons now nows ih => exact (ih (db.recordTaskOutcomes settings limit now)).trans (hfold _ db now)

/-- Readiness only grows with time. -/
theorem ready_mono {r : TaskId × Task} {later : Time} (h : now ≤ later)
    (hr : db.ready settings now r = true) : db.ready settings later r = true := by
  have hage : now - r.2.finishedAt.getD r.2.updatedAt ≤ later - r.2.finishedAt.getD r.2.updatedAt :=
    Int.sub_le_sub_right h _
  unfold ready at hr ⊢
  simp only at hr ⊢
  split at hr
  · cases hr
  · rename_i hlost
    split at hr
    · cases hr
    · rename_i hopen
      rw [if_neg, if_neg]
      · rintro ⟨ho, hlt⟩
        exact hopen ⟨ho, Int.lt_of_le_of_lt hage hlt⟩
      · rintro ⟨hl, hno, hgrace⟩
        refine hlost ⟨hl, fun hc => hno ⟨hc.1, Int.le_trans hc.2 hage⟩, ?_⟩
        exact hgrace.imp_right fun hlt => Int.lt_of_le_of_lt hage hlt

end Recording

/-! ### The property -/

/-- The outcome of the task is recorded. -/
def Recorded (db : ServerDb) (t : TaskId) : Prop :=
  (db.tasks.get t).any (fun task => task.outcomeRecordedAt.isSome) = true

/-- How many candidates are ready. -/
def readyTasks (settings : OutcomeSettings) (db : ServerDb) (now : Time) : Nat :=
  db.outcomeQueue.countP (db.ready settings now)

/-- How many candidates in front of a task are not ready. -/
def blockersOf (settings : OutcomeSettings) (db : ServerDb) (now : Time) (t : TaskId) : Nat :=
  Window.blockers (db.ready settings now) (db.outcomeQueue.takeWhile fun r => r.1 ≠ t)

section Property

variable {settings : OutcomeSettings} {db : ServerDb} {now : Time} {t : TaskId} {limit : Nat}

/-- What a terminal task is after ticks: recorded, or still in the queue. -/
theorem recorded_iff (settings : OutcomeSettings) (limit : Nat) (nows : List Time) {task : Task}
    (htask : db.tasks.get t = some task) (hterm : task.status.terminal = true) :
    Recorded (db.recordTicks settings limit nows) t ↔
      t ∉ (db.recordTicks settings limit nows).outcomeQueue.map Prod.fst := by
  have hstatus := recordTicks_task settings limit db nows t
  unfold taskStatus at hstatus
  rw [htask] at hstatus
  obtain ⟨task', htask', hsame⟩ := Option.map_eq_some_iff.mp hstatus
  unfold Recorded
  rw [htask']
  constructor
  · intro hrec hmem
    obtain ⟨⟨t', task''⟩, hr, ht⟩ := List.mem_map.mp hmem
    obtain rfl : t' = t := ht
    obtain ⟨hr, hun⟩ := mem_outcomeQueue.mp hr
    obtain rfl := Option.some.inj (htask'.symm.trans (Table.mem_rows_iff.mp hr))
    have hrec : task'.outcomeRecordedAt.isSome = true := hrec
    unfold unrecorded at hun
    rw [Bool.and_eq_true] at hun
    have hnone := hun.2
    simp only [Option.isNone_iff_eq_none] at hnone
    rw [hnone] at hrec
    cases hrec
  · intro hout
    by_contra hrec
    refine hout (List.mem_map.mpr ⟨(t, task'), mem_outcomeQueue.mpr
      ⟨Table.mem_rows_iff.mpr htask', ?_⟩, rfl⟩)
    unfold unrecorded
    rw [Bool.and_eq_true]
    refine ⟨?_, by simpa using hrec⟩
    show task'.status.terminal = true
    rw [hsame]
    exact hterm

/-- **A ready task is recorded in time exactly if few enough tasks in front of
it are not ready.**  In time: after as many ticks as there are ready tasks. -/
theorem recorded_in_time (settings : OutcomeSettings) (limit : Nat) {task : Task}
    (htask : db.tasks.get t = some task) (hun : unrecorded (t, task) = true)
    (hready : db.ready settings now (t, task) = true) :
    (∀ later nows, now ≤ later → (∀ n ∈ nows, now ≤ n ∧ n ≤ later) →
        db.readyTasks settings later ≤ nows.length →
        Recorded (db.recordTicks settings limit nows) t) ↔
      db.blockersOf settings now t < limit := by
  have hmem : (t, task) ∈ db.outcomeQueue :=
    mem_outcomeQueue.mpr ⟨Table.mem_rows_iff.mpr htask, hun⟩
  have hterm : task.status.terminal = true := by
    unfold unrecorded at hun
    rw [Bool.and_eq_true] at hun
    exact hun.1
  have hnodup : db.outcomeQueue.Nodup := (outcomeQueue_nodup db).of_map _
  -- the queue around the task
  obtain ⟨pre, post, hsplit⟩ := List.append_of_mem hmem
  have hpre : db.outcomeQueue.takeWhile (fun r => r.1 ≠ t) = pre := by
    have hkeys := outcomeQueue_nodup db
    rw [hsplit, List.map_append, List.map_cons] at hkeys
    rw [hsplit, List.takeWhile_append_of_pos, List.takeWhile_cons_of_neg, List.append_nil]
    · simp
    · intro r hr
      have hne := (List.nodup_append.mp hkeys).2.2 r.1 (List.mem_map_of_mem hr) t
        List.mem_cons_self
      simpa using hne
  have hout : ∀ nows, Recorded (db.recordTicks settings limit nows) t ↔
      (t, task) ∉ Window.serveAll limit (nows.map (db.ready settings)) db.outcomeQueue := by
    intro nows
    rw [recorded_iff settings limit nows htask hterm, recordTicks_queue, not_iff_not]
    constructor
    · intro h
      obtain ⟨r, hr, ht⟩ := List.mem_map.mp h
      rw [← outcomeQueue_inj (Window.serveAll_subset _ hr) hmem ht]
      exact hr
    · exact fun h => List.mem_map.mpr ⟨_, h, rfl⟩
  unfold blockersOf
  rw [hpre]
  constructor
  · intro hall
    by_contra hmany
    -- ticks at one time never reach it
    have hk := hall now (List.replicate (db.readyTasks settings now) now) (Int.le_refl _)
      (fun n hn => by
        rw [List.eq_of_mem_replicate hn]
        exact ⟨Int.le_refl _, Int.le_refl _⟩)
      (Nat.le_of_eq List.length_replicate.symm)
    refine (hout _).mp hk ?_
    rw [List.map_replicate, hsplit]
    exact Window.stuck_of_blockers (Nat.le_of_not_lt hmany) _
  · intro hfew later nows hlater hnows hlen
    refine (hout nows).mpr ?_
    have hcount : pre.countP (db.ready settings later) < nows.length := by
      refine Nat.lt_of_lt_of_le ?_ hlen
      unfold readyTasks
      rw [hsplit, List.countP_append, List.countP_cons_of_pos (ready_mono hlater hready)]
      omega
    rw [hsplit] at hnodup ⊢
    refine Window.served_of_few_blockers hnodup hready ?_ ?_ hfew (by simpa using hcount)
    · intro r hr y _ hy
      obtain ⟨n, hn, rfl⟩ := List.mem_map.mp hr
      exact ready_mono (hnows n hn).1 hy
    · intro r hr y _ hy
      obtain ⟨n, hn, rfl⟩ := List.mem_map.mp hr
      exact ready_mono (hnows n hn).2 hy

/-- A task the server declared lost, of which no reclaim was issued, and a
complete one that finished after it. -/
def sampleLost : ServerDb where
  tasks :=
    { rows :=
        [(1, { status := .lost, finishedAt := some 10 }),
          (2, { status := .complete, finishedAt := some 20 })]
      nodup := by decide }
  executions :=
    { rows :=
        [(1, { taskId := 1, agentId := 1, status := .lost }),
          (2, { taskId := 2, agentId := 1, status := .finished })]
      nodup := by decide }
  outbox := .empty
  logFiles := .empty
  audits := .empty
  nextCommand := 0

/-- No grace period: a lost task waits for its reclaim. -/
def sampleNoGrace : OutcomeSettings where
  lostOutcomeGraceSeconds := 0
  logDrainTimeoutSeconds := 60
  maxFileBytes := 0

/-- **A lost task keeps the ready one behind it from its outcome.** -/
theorem not_recorded_in_time : ¬ ∀ (settings : OutcomeSettings) (limit : Nat) (db : ServerDb)
    (now : Time) (t : TaskId) (task : Task), 0 < limit → db.tasks.get t = some task →
    unrecorded (t, task) = true → db.ready settings now (t, task) = true →
    ∀ later nows, now ≤ later → (∀ n ∈ nows, now ≤ n ∧ n ≤ later) →
      db.readyTasks settings later ≤ nows.length →
      Recorded (db.recordTicks settings limit nows) t := by
  intro h
  have hrec := h sampleNoGrace 1 sampleLost 100 2 { status := .complete, finishedAt := some 20 }
    (by decide) (by decide) (by decide) (by decide) 100 [100] (by decide) (by decide) (by decide)
  revert hrec
  unfold Recorded
  decide

theorem recorded_in_time_sample : Recorded (sampleLost.recordTicks sampleNoGrace 2 [100]) 2 := by
  have hiff := @recorded_in_time sampleLost 100 2 sampleNoGrace 2
    { status := .complete, finishedAt := some 20 } (by decide) (by decide) (by decide)
  exact hiff.mpr (by decide) 100 [100] (by decide) (by decide) (by decide)

end Property

end ServerDb

end Dopilot
