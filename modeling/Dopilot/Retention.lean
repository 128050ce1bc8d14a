/-
Dopilot/Retention.lean

Deleting the data of old tasks.

A cleanup selects terminal tasks whose logs are sealed and whose outcome, where
a schedule counts it, is recorded.  It marks their logs expired and commits,
unlinks the files, and deletes the rows in a second transaction; an eviction
does the same for one victim at a time.  The row locks end with the first
commit, so events and the recorder run in between.

An event that overrides a loss may take back the recorded outcome of its task.
`Unrecords` is that event, and `retained` is what holds of the runs in which no
task is taken back while a sweep has it.
-/
import Dopilot.StateMachine
import Dopilot.Events
import Dopilot.Outcomes

namespace Dopilot

open StateMachine

abbrev SweepId := Nat

/-- `_COUNTED_SOURCES`. -/
def TaskSource.counted : TaskSource → Bool
  | timer | triggerNow => true
  | manual | directArtifact | template => false

/-- A schedule counts the outcome of the task. -/
def Task.counted (task : Task) : Bool := task.scheduleId.isSome && task.source.counted

/-- `ORDER BY finished_at NULLS FIRST, created_at, id`. -/
def retentionOrder (a b : TaskId × Task) : Prop :=
  let later := a.2.createdAt < b.2.createdAt ∨ a.2.createdAt = b.2.createdAt ∧ a.1 ≤ b.1
  match a.2.finishedAt, b.2.finishedAt with
  | none, none => later
  | none, some _ => True
  | some _, none => False
  | some x, some y => x < y ∨ x = y ∧ later

instance : DecidableRel retentionOrder := by
  rintro ⟨i, a⟩ ⟨j, b⟩
  unfold retentionOrder
  dsimp only
  split <;> infer_instance

/-- Was the task over before the cutoff? -/
def Task.overBefore (task : Task) (cutoff : Time) : Bool :=
  match task.finishedAt with
  | some finished => finished < cutoff
  | none => task.createdAt < cutoff

namespace ServerDb

/-! ### A cleanup -/

/-- May retention delete the task? -/
def sealedTerminal (db : ServerDb) (cutoff : Option Time) (only exclude : List TaskId)
    (r : TaskId × Task) : Bool :=
  r.2.status.terminal && !(db.taskLogFiles r.1).any (fun f => f.2.status.writable)
    && !(r.2.counted && r.2.outcomeRecordedAt.isNone) && !exclude.contains r.1
    && cutoff.all r.2.overBefore && (only.isEmpty || only.contains r.1)

/-- `_sealed_terminal_task_ids`. -/
def sealedTerminalTaskIds (db : ServerDb) (cutoff : Option Time) (limit : Option Nat)
    (only exclude : List TaskId) : List TaskId :=
  let rows := (db.tasks.rows.filter (db.sealedTerminal cutoff only exclude)).insertionSort
    retentionOrder
  (match limit with
    | none | some 0 => rows
    | some n => rows.take n).map Prod.fst

/-- The first commit: the logs of the tasks are marked expired. -/
def expireLogs (db : ServerDb) (ids : List TaskId) : ServerDb :=
  { db with logFiles := db.logFiles.updateAll fun k f =>
      if k.taskId ∈ ids then { f with status := .expired, logIntegrity := .expired } else f }

/-- The second commit: the rows of the tasks are deleted. -/
def deleteTasks (db : ServerDb) (ids : List TaskId) : ServerDb :=
  { db with
    logFiles := db.logFiles.filter fun r => r.1.taskId ∉ ids
    executions := db.executions.filter fun r => r.2.taskId ∉ ids
    outbox := db.outbox.filter fun r => r.2.taskId ∉ ids
    tasks := db.tasks.filter fun r => r.1 ∉ ids }

end ServerDb

namespace Retention

/-! ### The machine -/

/-- How far a sweep has come. -/
inductive Sweep where
  /-- An eviction has picked its victims. -/
  | victims (ids : List TaskId)
  /-- A cleanup has selected these tasks. -/
  | selected (ids : List TaskId)
  /-- Their logs are marked expired, and that is committed. -/
  | expired (ids : List TaskId)
  deriving DecidableEq, Repr

/-- The tasks a cleanup has selected. -/
def Sweep.ids : Sweep → List TaskId
  | victims _ => []
  | selected ids | expired ids => ids

structure State where
  db : ServerDb
  sweeps : Table SweepId Sweep
  nextSweep : SweepId
  /-- The tasks deleted so far, as they were. -/
  deleted : List (TaskId × Task)

/-- No sweep has started. -/
def State.start (db : ServerDb) : State where
  db := db
  sweeps := .empty
  nextSweep := 0
  deleted := []

inductive Action where
  | event (now : Time) (ev : AgentEvent) (msg : MessageId)
  /-- A tick of the recorder. -/
  | record (settings : OutcomeSettings) (limit : Nat) (now : Time)
  /-- A cleanup selects its tasks. -/
  | clean (cutoff : Time) (only : List TaskId)
  /-- An eviction picks a victim. -/
  | evict (skipped : List TaskId)
  /-- The cleanup of an eviction selects its tasks. -/
  | select (i : SweepId) (now : Time)
  | expire (i : SweepId)
  /-- The bodies are unlinked, some of them in vain, and the rows are deleted. -/
  | delete (i : SweepId) (failed : List TaskId)
  /-- A sweep ends where it is. -/
  | abort (i : SweepId)

def State.addSweep (s : State) (x : Sweep) : State :=
  { s with sweeps := s.sweeps.insert s.nextSweep x, nextSweep := s.nextSweep + 1 }

def State.setSweep (s : State) (i : SweepId) (x : Sweep) : State :=
  { s with sweeps := s.sweeps.modify i fun _ => x }

/-- One step. -/
def step (s : State) : Action → Option State
  | .event now ev msg => some { s with db := (s.db.applyEvent now ev msg).1 }
  | .record settings limit now =>
      some { s with db := s.db.recordTaskOutcomes settings limit now }
  | .clean cutoff only =>
      some (s.addSweep (.selected (s.db.sealedTerminalTaskIds (some cutoff) none only [])))
  | .evict skipped =>
      match s.db.sealedTerminalTaskIds none (some 1) [] skipped with
      | [] => none
      | victims => some (s.addSweep (.victims victims))
  | .select i now =>
      match s.sweeps.get i with
      | some (.victims ids) =>
          some (s.setSweep i (.selected (s.db.sealedTerminalTaskIds (some now) none ids [])))
      | _ => none
  | .expire i =>
      match s.sweeps.get i with
      | some (.selected ids) => some ({ s with db := s.db.expireLogs ids }.setSweep i (.expired ids))
      | _ => none
  | .delete i failed =>
      match s.sweeps.get i with
      | some (.expired ids) =>
          let deletable := ids.filter fun t => t ∉ failed
          some { s with
            db := s.db.deleteTasks deletable
            sweeps := s.sweeps.erase i
            deleted := s.deleted ++ s.db.tasks.rows.filter fun r => r.1 ∈ deletable }
      | _ => none
  | .abort i => some { s with sweeps := s.sweeps.erase i }

/-! ### Taking back an outcome -/

/-- The statuses of a task's executions after an event that is no duplicate. -/
def statusesAfter (db : ServerDb) (ev : AgentEvent) (t : TaskId) : List ExecStatus :=
  (db.listExecutions t).map fun r =>
    if r.1 = ev.executionId then nextExecStatus r.2.status ev.type else r.2.status

/-- A new event of an execution of the lost task, after which its executions
roll up to something else. -/
def Unrecords (db : ServerDb) (ev : AgentEvent) (msg : MessageId) (t : TaskId) : Prop :=
  ev.type ≠ .heartbeat ∧ db.audits.get msg = none ∧
    (db.executions.get ev.executionId).any (fun x => x.taskId = t) = true ∧
    (db.tasks.get t).any (fun task => task.counted && task.status == .lost) = true ∧
    (rollupTaskStatus (statusesAfter db ev t)).any (fun rolled => rolled ≠ .lost) = true

/-- No event takes back the outcome of a task that a sweep has selected. -/
def Undisturbed (s : State) : Action → Prop
  | .event _ ev msg => ∀ r ∈ s.sweeps.rows, ∀ t ∈ r.2.ids, ¬ Unrecords s.db ev msg t
  | _ => True

section Facts

variable {db db' : ServerDb} {s s' : State} {a : Action} {t : TaskId} {ids : List TaskId}

/-! ### Recorded outcomes -/

/-- The outcome of the task is recorded, if a schedule counts it. -/
def Recorded (task : Task) : Prop :=
  task.counted = true → task.outcomeRecordedAt.isSome = true

/-- The task, if it is there, is recorded. -/
def Safe (db : ServerDb) (t : TaskId) : Prop :=
  ∀ task, db.tasks.get t = some task → Recorded task

theorem Safe.of_tasks (h : Safe db t) (htasks : db'.tasks = db.tasks) : Safe db' t := by
  intro task htask
  rw [htasks] at htask
  exact h task htask

theorem Safe.of_modify {f : Task → Task} {t' : TaskId} (h : Safe db t)
    (htasks : db'.tasks = db.tasks.modify t' f)
    (hf : t = t' → ∀ task, db.tasks.get t = some task → Recorded task → Recorded (f task)) :
    Safe db' t := by
  intro task' htask'
  rw [htasks, Table.get_modify] at htask'
  by_cases ht : t = t'
  · subst ht
    rw [if_pos rfl] at htask'
    obtain ⟨task, htask, rfl⟩ := Option.map_eq_some_iff.mp htask'
    exact hf rfl task htask (h task htask)
  · rw [if_neg ht] at htask'
    exact h task' htask'

/-! ### Events -/

theorem convergeTask_outcome (task : Task) (executions : List Execution) (now : Time) :
    (convergeTask task executions now).counted = task.counted ∧
      (convergeTask task executions now).outcomeRecordedAt = task.outcomeRecordedAt := by
  unfold convergeTask
  dsimp only
  split
  · exact ⟨rfl, rfl⟩
  · exact ⟨rfl, rfl⟩

/-- **When a roll-up takes back an outcome.** -/
theorem rollTask_recorded {task : Task} {executions : List Execution} {now : Time}
    (hrec : Recorded task) : Recorded (rollTask task executions now) ∨
      task.counted = true ∧ task.status = .lost ∧
        (rollupTaskStatus (executions.map (·.status))).any (fun rolled => rolled ≠ .lost) =
          true := by
  obtain ⟨hcounted, houtcome⟩ := convergeTask_outcome task executions now
  have hconverged : Recorded (convergeTask task executions now) := by
    unfold Recorded
    rw [hcounted, houtcome]
    exact hrec
  unfold rollTask
  dsimp only
  rcases hroll : rollupTaskStatus (executions.map (·.status)) with - | rolled
  · simp only [hroll]
    exact .inl hconverged
  · simp only [hroll]
    split
    · rename_i hmoved
      by_cases hlost : (convergeTask task executions now).status = .lost
      · by_cases hc : task.counted = true
        · refine .inr ⟨hc, ?_, ?_⟩
          · rcases convergeTask_status task executions now with h | ⟨-, h, -⟩
            · rw [← h]
              exact hlost
            · rw [hlost] at h
              cases h
          · refine decide_eq_true fun heq => hmoved.1 ?_
            rw [heq, hlost]
        · refine .inl fun hcounted' => absurd ?_ hc
          rw [← hcounted]
          exact hcounted'
      · refine .inl ?_
        intro hcounted'
        show (if _ then none else (convergeTask task executions now).outcomeRecordedAt).isSome = true
        rw [if_neg fun h => hlost h.1]
        exact hconverged hcounted'
    · exact .inl hconverged

/-- An event leaves the statuses it should. -/
theorem rollup_statusesAfter {now : Time} {ev : AgentEvent} {msg : MessageId}
    (hnew : db.audits.get msg = none) :
    rollupTaskStatus (((db.applyEvent now ev msg).1.listExecutions t).map fun r => r.2.status) =
      rollupTaskStatus (statusesAfter db ev t) := by
  apply rollup_congr
  intro st
  have hmem : st ∈ (db.applyEvent now ev msg).1.statuses t ↔
      ∃ e y, db.execStatus e = some (t, y) ∧
        (if e = ev.executionId then nextExecStatus y ev.type else y) = st := by
    rw [ServerDb.mem_statuses_iff]
    refine exists_congr fun e => ?_
    rw [ServerDb.applyEvent_execStatus]
    simp only [hnew, and_true]
    constructor
    · intro h
      obtain ⟨⟨t', y⟩, hy, heq⟩ := Option.map_eq_some_iff.mp h
      obtain ⟨rfl, hst⟩ := Prod.mk.inj heq
      exact ⟨y, hy, hst⟩
    · rintro ⟨y, hy, rfl⟩
      rw [hy]
      rfl
  refine hmem.trans ?_
  unfold statusesAfter
  rw [List.mem_map]
  constructor
  · rintro ⟨e, y, hy, hst⟩
    obtain ⟨x, hx, heq⟩ := Option.map_eq_some_iff.mp hy
    obtain ⟨ht, rfl⟩ := Prod.mk.inj heq
    exact ⟨(e, x), ServerDb.mem_listExecutions.mpr ⟨hx, ht⟩, hst⟩
  · rintro ⟨⟨e, x⟩, hmem, hst⟩
    obtain ⟨hx, ht⟩ := ServerDb.mem_listExecutions.mp hmem
    refine ⟨e, x.status, ?_, hst⟩
    unfold ServerDb.execStatus
    rw [hx]
    exact congrArg some (Prod.ext ht rfl)

/-- A heartbeat rolls nothing up. -/
theorem heartbeat_tasks {now : Time} {ev : AgentEvent} {msg : MessageId}
    (h : ev.type = .heartbeat) : (db.applyEvent now ev msg).1.tasks = db.tasks := by
  unfold ServerDb.applyEvent
  rw [h]
  rcases db.executions.get ev.executionId with - | x
  · rfl
  · show (db.applyHeartbeat now ev msg x).1.tasks = db.tasks
    unfold ServerDb.applyHeartbeat
    simp only
    split
    · split
      · rfl
      · rfl
    · rfl

theorem Safe.applyEvent {now : Time} {ev : AgentEvent} {msg : MessageId} (h : Safe db t)
    (hun : ¬ Unrecords db ev msg t) : Safe (db.applyEvent now ev msg).1 t := by
  rcases ServerDb.applyEvent_tasks db now ev msg with ⟨htasks, -⟩ | ⟨x, hx, hnew, htasks⟩
  · exact h.of_tasks htasks
  · by_cases hbeat : ev.type = .heartbeat
    · exact h.of_tasks (heartbeat_tasks hbeat)
    · refine h.of_modify htasks fun ht task htask hrec => ?_
      refine (rollTask_recorded hrec).resolve_right fun ⟨hcounted, hlost, hroll⟩ => hun ?_
      rw [List.map_map] at hroll
      refine ⟨hbeat, hnew, ?_, ?_, ?_⟩
      · rw [hx, ht]
        exact decide_eq_true rfl
      · rw [htask]
        simp only [Option.any_some, hcounted, hlost, beq_self_eq_true, Bool.and_self]
      · rw [← rollup_statusesAfter hnew, ht]
        exact hroll

/-! ### The recorder -/

theorem Safe.recordTask {settings : OutcomeSettings} {now : Time} {t' : TaskId} (h : Safe db t) :
    Safe (ServerDb.recordTask settings now db t') t := by
  rcases ServerDb.recordTask_cases settings now db t' with
    ⟨hsame, -⟩ | ⟨task, f, -, -, -, hf, hrec⟩
  · rw [hsame]
    exact h
  · rw [hrec]
    refine Safe.of_modify h rfl fun _ task _ _ _ => ?_
    rw [(hf task).2]
    rfl

theorem Safe.recordTaskOutcomes {settings : OutcomeSettings} {limit : Nat} {now : Time}
    (h : Safe db t) : Safe (db.recordTaskOutcomes settings limit now) t := by
  unfold ServerDb.recordTaskOutcomes
  generalize db.candidates limit = l
  induction l generalizing db with
  | nil => exact h
  | cons t' l ih => exact ih h.recordTask

/-! ### Sweeps -/

/-- What is selected is recorded. -/
theorem safe_of_selected {cutoff : Option Time} {limit : Option Nat} {only exclude : List TaskId}
    (h : t ∈ db.sealedTerminalTaskIds cutoff limit only exclude) : Safe db t := by
  have hmem : ∃ r ∈ db.tasks.rows, db.sealedTerminal cutoff only exclude r = true ∧ r.1 = t := by
    obtain ⟨r, hr, ht⟩ := List.mem_map.mp h
    have hr' : r ∈ (db.tasks.rows.filter (db.sealedTerminal cutoff only exclude)).insertionSort
        retentionOrder := by
      rcases limit with - | - | n
      · exact hr
      · exact hr
      · exact List.mem_of_mem_take hr
    obtain ⟨hr₁, hr₂⟩ := List.mem_filter.mp ((List.mem_insertionSort _).mp hr')
    exact ⟨r, hr₁, hr₂, ht⟩
  obtain ⟨⟨t', task⟩, hr, hsealed, rfl⟩ := hmem
  intro task' htask' hcounted
  obtain rfl : task = task' := Option.some.inj ((Table.mem_rows_iff.mp hr).symm.trans htask')
  unfold ServerDb.sealedTerminal at hsealed
  simp only [Bool.and_eq_true, hcounted, Bool.true_and, Bool.not_eq_true'] at hsealed
  rw [← Option.not_isNone, hsealed.1.1.1.2]
  rfl

theorem Safe.deleteTasks (h : Safe db t) : Safe (db.deleteTasks ids) t := by
  intro task htask
  have hget : (db.tasks.filter fun r => r.1 ∉ ids).get t = some task := htask
  rw [Table.get_filter] at hget
  exact h task (Option.filter_eq_some_iff.mp hget).1

/-- What holds of every state: selected tasks are recorded, and deleted ones were. -/
structure Inv (s : State) : Prop where
  selected : ∀ i x, s.sweeps.get i = some x → ∀ t ∈ x.ids, Safe s.db t
  deleted : ∀ r ∈ s.deleted, Recorded r.2

theorem Inv.start (db : ServerDb) : Inv (State.start db) where
  selected := by
    intro i x hx
    cases hx
  deleted := by
    intro r hr
    cases hr

/-- Steps of others leave what is selected recorded. -/
theorem Inv.of_db (hinv : Inv s)
    (hsafe : ∀ i x, s.sweeps.get i = some x → ∀ t ∈ x.ids, Safe s.db t → Safe db' t) :
    Inv { s with db := db' } where
  selected i x hx t ht := hsafe i x hx t ht (hinv.selected i x hx t ht)
  deleted := hinv.deleted

theorem Inv.addSweep (hinv : Inv s) {x : Sweep} (hx : ∀ t ∈ x.ids, Safe s.db t) :
    Inv (s.addSweep x) where
  selected := by
    intro i y hy
    rcases hget : s.sweeps.get s.nextSweep with - | taken
    · have hy : (s.sweeps.insert s.nextSweep x).get i = some y := hy
      rw [Table.get_insert _ _ hget] at hy
      by_cases hi : i = s.nextSweep
      · rw [if_pos hi] at hy
        obtain rfl := Option.some.inj hy
        exact hx
      · rw [if_neg hi] at hy
        exact hinv.selected i y hy
    · have hy : (s.sweeps.insert s.nextSweep x).get i = some y := hy
      rw [Table.insert, dif_pos (Table.mem_keys_iff.mpr ⟨taken, hget⟩)] at hy
      exact hinv.selected i y hy
  deleted := hinv.deleted

theorem Inv.setSweep (hinv : Inv s) {i : SweepId} {x : Sweep} (hx : ∀ t ∈ x.ids, Safe s.db t) :
    Inv (s.setSweep i x) where
  selected := by
    intro j y hy
    have hy : (s.sweeps.modify i fun _ => x).get j = some y := hy
    rw [Table.get_modify] at hy
    by_cases hj : j = i
    · rw [if_pos hj] at hy
      obtain ⟨-, -, rfl⟩ := Option.map_eq_some_iff.mp hy
      exact hx
    · rw [if_neg hj] at hy
      exact hinv.selected j y hy
  deleted := hinv.deleted

/-- The end of a sweep, with rows deleted. -/
theorem Inv.eraseSweep (hinv : Inv s) (i : SweepId) {gone : List (TaskId × Task)}
    (hsafe : ∀ t, Safe s.db t → Safe db' t) (hgone : ∀ r ∈ gone, Recorded r.2) :
    Inv { s with db := db', sweeps := s.sweeps.erase i, deleted := s.deleted ++ gone } where
  selected := by
    intro j x hx t ht
    have hx : (s.sweeps.erase i).get j = some x := hx
    rw [Table.get_erase] at hx
    by_cases hj : j = i
    · rw [if_pos hj] at hx
      cases hx
    · rw [if_neg hj] at hx
      exact hsafe t (hinv.selected j x hx t ht)
  deleted := by
    intro r hr
    rcases List.mem_append.mp hr with hr | hr
    · exact hinv.deleted r hr
    · exact hgone r hr

/-- **The step.** -/
theorem Inv.next (hinv : Inv s) (hok : Undisturbed s a) (h : step s a = some s') : Inv s' := by
  cases a with
  | event now ev msg =>
      obtain rfl := Option.some.inj h
      refine hinv.of_db fun i x hx t ht hsafe => hsafe.applyEvent ?_
      exact hok (i, x) (Table.mem_rows_iff.mpr hx) t ht
  | record settings limit now =>
      obtain rfl := Option.some.inj h
      exact hinv.of_db fun _ _ _ _ _ hsafe => hsafe.recordTaskOutcomes
  | clean cutoff only =>
      obtain rfl := Option.some.inj h
      refine hinv.addSweep fun t ht => ?_
      have ht : t ∈ s.db.sealedTerminalTaskIds (some cutoff) none only [] := ht
      exact safe_of_selected ht
  | evict skipped =>
      simp only [step] at h
      split at h
      · cases h
      · obtain rfl := Option.some.inj h
        exact hinv.addSweep fun t ht => absurd ht List.not_mem_nil
  | select i now =>
      simp only [step] at h
      split at h
      · rename_i ids _
        obtain rfl := Option.some.inj h
        refine hinv.setSweep fun t ht => ?_
        have ht : t ∈ s.db.sealedTerminalTaskIds (some now) none ids [] := ht
        exact safe_of_selected ht
      · cases h
  | expire i =>
      simp only [step] at h
      split at h
      · rename_i ids hx
        obtain rfl := Option.some.inj h
        have hsame : Inv { s with db := s.db.expireLogs ids } :=
          hinv.of_db fun _ _ _ _ _ hsafe => hsafe.of_tasks rfl
        exact hsame.setSweep fun t ht => (hinv.selected i _ hx t ht).of_tasks rfl
      · cases h
  | delete i failed =>
      simp only [step] at h
      split at h
      · rename_i ids hx
        obtain rfl := Option.some.inj h
        refine hinv.eraseSweep i (fun t hsafe => hsafe.deleteTasks) ?_
        -- the rows that go are those of selected tasks
        rintro ⟨t, task⟩ hr
        obtain ⟨hmem, ht⟩ := List.mem_filter.mp hr
        have ht : t ∈ ids := (List.mem_filter.mp (of_decide_eq_true ht)).1
        exact hinv.selected i _ hx t ht task (Table.mem_rows_iff.mp hmem)
      · cases h
  | abort i =>
      obtain rfl := Option.some.inj h
      have hend : Inv { s with db := s.db, sweeps := s.sweeps.erase i, deleted := s.deleted ++ [] } :=
        hinv.eraseSweep i (fun _ hsafe => hsafe) fun r hr => by cases hr
      rw [List.append_nil] at hend
      exact hend

/-- **Retention loses no outcome**, in every run in which no event takes back the
outcome of a task while a sweep has it. -/
theorem retained {db : ServerDb} (h : RunOk step Undisturbed (State.start db) s) :
    ∀ r ∈ s.deleted, r.2.counted = true → r.2.outcomeRecordedAt.isSome = true := by
  have hinv : Inv s := h.invariant (fun _ _ _ hi hok hs => hi.next hok hs) (.start db)
  exact hinv.deleted

end Facts

/-! ### A late override -/

instance (db : ServerDb) (ev : AgentEvent) (msg : MessageId) (t : TaskId) :
    Decidable (Unrecords db ev msg t) := inferInstanceAs (Decidable (_ ∧ _ ∧ _ ∧ _ ∧ _))

instance (s : State) (a : Action) : Decidable (Undisturbed s a) :=
  match a with
  | .event _ ev msg => inferInstanceAs
      (Decidable (∀ r ∈ s.sweeps.rows, ∀ t ∈ r.2.ids, ¬ Unrecords s.db ev msg t))
  | .record .. | .clean .. | .evict .. | .select .. | .expire .. | .delete .. | .abort .. =>
      isTrue trivial

/-- Task 7 of schedule 1 was lost with its only execution, and is recorded. -/
def sampleDb : ServerDb :=
  { ServerDb.empty with
    tasks := ServerDb.empty.tasks.insert 7
      { status := .lost
        source := .timer
        scheduleId := some 1
        finishedAt := some 10
        outcomeRecordedAt := some 20
        outcomeErroneous := some true }
    executions := ServerDb.empty.executions.insert 1
      { taskId := 7, agentId := 1, status := .lost, finishedAt := some 10 } }

def sampleFinished : AgentEvent where
  eventId := 1
  agentId := 1
  taskId := 7
  executionId := 1
  type := .finished

/-- A cleanup of what ended before 100; the agent's finished event arrives after
its first commit. -/
def sampleOverride : List Action :=
  [.clean 100 [], .expire 0, .event 101 sampleFinished 0, .delete 0 []]

/-- The same without the event. -/
def sampleCleanup : List Action := [.clean 100 [], .expire 0, .delete 0 []]

theorem not_retained : ¬ ∀ db s, Run step (State.start db) s →
    ∀ r ∈ s.deleted, r.2.counted = true → r.2.outcomeRecordedAt.isSome = true := by
  intro h
  obtain ⟨s, hrun, hs⟩ := RunOk.exists_of_checkedRun step (fun _ _ => True)
    (State.start sampleDb) sampleOverride (fun s : State => decide (∃ r ∈ s.deleted,
      r.2.counted = true ∧ r.2.outcomeRecordedAt.isSome = false)) (by decide +kernel)
  obtain ⟨r, hr, hcounted, hnone⟩ := of_decide_eq_true hs
  have hsome := h sampleDb s hrun r hr hcounted
  rw [hnone] at hsome
  cases hsome

theorem retained_sample : ∃ s r, RunOk step Undisturbed (State.start sampleDb) s ∧
    r ∈ s.deleted ∧ r.2.counted = true ∧ r.2.outcomeRecordedAt.isSome = true := by
  obtain ⟨s, hrun, hs⟩ := RunOk.exists_of_checkedRun step Undisturbed (State.start sampleDb)
    sampleCleanup (fun s : State => decide (∃ r ∈ s.deleted, r.2.counted = true))
    (by decide +kernel)
  obtain ⟨r, hr, hcounted⟩ := of_decide_eq_true hs
  exact ⟨s, r, hrun, hr, hcounted, retained hrun r hr hcounted⟩

end Retention

end Dopilot
