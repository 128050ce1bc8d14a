/-
Dopilot/Eviction.lean

The logs directory is brought back to its budget.

The sweep walks the directory, and then evicts one task after the other, the
oldest first, as long as the gauge is above the budget.  It looks for a victim with
one query and has `cleanup_terminal_data` delete it, which asks again on its own:
the cleanup knows a cutoff the query does not, and it leaves a task in place of
which it could not unlink a body.  Such a task is skipped for the rest of the
sweep.

So of the eligible tasks those are evicted that were over before the sweep and
can be unlinked, in order (`Eviction.evicts`).  What the sweep says it has
recovered is what the gauge says, but for the budget 0, which is none.
-/
import Dopilot.Deletion
import Dopilot.DirGauge
import Dopilot.Loops
import Dopilot.Ranking

/-! ### Runs of programs -/

namespace Prog

variable {Op : Type} {Res Ans : Op → Type} {ε W α β : Type}
variable {F : Interface Op Res Ans ε W} {answers : (op : Op) → Ans op}

/-- What comes behind a program that has returned. -/
theorem exec_bind {p : Prog Op Res ε α} {f : α → Prog Op Res ε β} {w w' : W} {a : α}
    (h : p.exec F answers w = some (.ok a, w')) :
    (p.bind f).exec F answers w = (f a).exec F answers w' := by
  induction p generalizing w with
  | ret a' =>
      obtain ⟨ha, rfl⟩ := Prod.mk.inj (Option.some.inj h)
      rw [← Except.ok.inj ha]
      rfl
  | raise e => cases (Prod.mk.inj (Option.some.inj h)).1
  | act op k ih =>
      obtain ⟨r, hr, hrest⟩ := Option.bind_eq_some_iff.mp h
      show (F.perform op (answers op) w).bind _ = _
      rw [hr]
      exact ih r.1 hrest

/-- A single operation that succeeds. -/
theorem exec_call {op : Op} {f : Res op → Prog Op Res ε β} {w w' : W} {r : Res op}
    (h : F.perform op (answers op) w = some (.ok r, w')) :
    ((call op).bind f).exec F answers w = (f r).exec F answers w' := by
  refine exec_bind ?_
  rw [call, exec, h]
  rfl

end Prog

namespace Dopilot

namespace Eviction

open Deletion (Op CleanupError CleanupProg CleanupSummary World)

/-! ### The directory -/

/-- The tables and the bodies, with the gauge. -/
structure Dir where
  world : World
  gauge : LogsDirGauge

/-- `file_size`: 0 where there is no file. -/
def fileSize (w : World) (k : LogKey) : Nat := ((w.bodies k).getD []).length

/-- What an operation does to the gauge: an unlink settles it by what it saw happen
to the file. -/
def settle (op : Op) (w w' : World) (g : LogsDirGauge) : LogsDirGauge :=
  match op with
  | .aremove k => g.sub ((fileSize w k : Int) - fileSize w' k)
  | _ => g

/-- What the environment decides: the bodies that are stuck are not unlinked. -/
def answer (stuck : LogKey → Bool) : Op → Deletion.Answer
  | .aremove k => { unlinks := !stuck k }
  | _ => {}

/-- What an operation does, with the gauge settled in it. -/
def perform (stuck : LogKey → Bool) (op : Op) (d : Dir) :
    Option (Except CleanupError op.Res × Dir) :=
  (Deletion.perform op (answer stuck op) d.world).map fun r =>
    (r.1, { world := r.2, gauge := settle op d.world r.2 d.gauge })

def iface (stuck : LogKey → Bool) : Prog.Interface Op Op.Res (fun _ => Unit) CleanupError Dir :=
  ⟨fun op _ => perform stuck op⟩

/-- Run a program of a cleanup to its end. -/
def runProg (stuck : LogKey → Bool) {α : Type} (p : CleanupProg α) (d : Dir) :
    Option (Except CleanupError α × Dir) := p.exec (iface stuck) (fun _ => ()) d

/-! ### The sweep -/

/-- `evict_logs_dir_to_budget`, between two turns of its loop. -/
structure Sweep where
  dir : Dir
  skipped : List TaskId := []
  attempts : Nat := 0
  evicted : Nat := 0
  bytes : Nat
  recovered : Bool := true
  /-- The victims that were deleted, in order; the source counts them. -/
  order : List TaskId := []

/-- What becomes of a sweep with the outcome of the cleanup of its victims. -/
def Sweep.after (s : Sweep) (victims : List TaskId) (tasks : Nat) (dir : Dir) : Sweep :=
  if tasks = 0 then
    { s with dir := dir, attempts := s.attempts + 1, skipped := victims ++ s.skipped }
  else
    { s with
      dir := dir
      attempts := s.attempts + 1
      evicted := s.evicted + tasks
      bytes := dir.gauge.value
      order := s.order ++ victims }

/-- One turn of the loop. -/
def turn (stuck : LogKey → Bool) (budget : Nat) (now : Time) (maxVictims : Nat) (s : Sweep) :
    Bool × Sweep :=
  if s.dir.gauge.value ≤ budget ∨ maxVictims ≤ s.attempts then (false, s)
  else
    match s.dir.world.db.sealedTerminalTaskIds none (some 1) [] s.skipped with
    | [] => (false, { s with recovered := false })
    | victim :: rest =>
        match runProg stuck (Deletion.cleanupTerminalData now false (victim :: rest)) s.dir with
        | some (.ok summary, dir) => (true, s.after (victim :: rest) summary.tasks dir)
        -- an error of the cleanup ends the sweep
        | _ => (false, s)

/-- The sweep before its first turn: the gauge is what the walk has found. -/
def begin (d : Dir) (walked : Nat) : Sweep where
  dir := { d with gauge := { d.gauge with value := walked } }
  bytes := walked

/-- What is returned, and the notification that is raised where the budget was not
recovered. -/
structure Result where
  evicted : Nat
  recovered : Bool
  bytes : Nat
  skipped : Nat
  alert : Option (Nat × Nat × Nat)
  deriving DecidableEq, Repr

/-- What is made of the sweep when its loop is left. -/
def finish (budget maxVictims : Nat) (s : Sweep) : Result :=
  let recovered :=
    if budget < s.dir.gauge.value ∧ maxVictims ≤ s.attempts then false else s.recovered
  { evicted := s.evicted
    recovered := recovered
    bytes := s.bytes
    skipped := s.skipped.length
    alert := if recovered then none else some (s.dir.gauge.value, budget, s.evicted) }

/-- `evict_logs_dir_to_budget`: the result, and the directory afterwards.  The loop
takes no more turns than there may be victims. -/
def evictLogsDirToBudget (stuck : LogKey → Bool) (budget : Nat) (now : Time) (maxVictims : Nat)
    (walked : Nat) (gauged : Bool) (d : Dir) : Result × Sweep :=
  if budget = 0 ∨ gauged = false then
    ({ evicted := 0, recovered := true, bytes := 0, skipped := 0, alert := none },
      { dir := d, bytes := 0 })
  else
    let s := Loop.run (turn stuck budget now maxVictims) (maxVictims + 1) (begin d walked)
    (finish budget maxVictims s, s)

/-! ### Unlinking -/

section Unlinking

variable {stuck : LogKey → Bool} {d d' : Dir} {k k' : LogKey}

/-- The directory after an attempt to unlink a body. -/
def unlinked (stuck : LogKey → Bool) (d : Dir) (k : LogKey) : Dir :=
  if !stuck k && (d.world.bodies k).isSome then
    { world := d.world.unlink k
      gauge := d.gauge.sub ((fileSize d.world k : Int) - fileSize (d.world.unlink k) k) }
  else d

@[simp] theorem unlinked_db : (unlinked stuck d k).world.db = d.world.db := by
  unfold unlinked
  split <;> rfl

/-- A body that is stuck stays. -/
theorem unlinked_stuck (h : stuck k' = true) :
    (unlinked stuck d k).world.bodies k' = d.world.bodies k' := by
  unfold unlinked
  split
  · rename_i hk
    have hne : k' ≠ k := by
      rintro rfl
      rw [h] at hk
      cases hk
    exact Function.update_of_ne hne _ _
  · rfl

/-- No other body is touched. -/
theorem unlinked_ne (h : k' ≠ k) : (unlinked stuck d k).world.bodies k' = d.world.bodies k' := by
  unfold unlinked
  split
  · exact Function.update_of_ne h _ _
  · rfl

theorem sub_zero (g : LogsDirGauge) : g.sub 0 = g := by
  rw [LogsDirGauge.sub, LogsDirGauge.add]
  simp

/-- Several bodies are tried, one after the other. -/
def unlinkedAll (stuck : LogKey → Bool) (d : Dir) (rows : List (LogKey × ExecutionLogFile)) : Dir :=
  rows.foldl (fun d r => unlinked stuck d r.1) d

@[simp] theorem unlinkedAll_db (rows : List (LogKey × ExecutionLogFile)) :
    (unlinkedAll stuck d rows).world.db = d.world.db := by
  induction rows generalizing d with
  | nil => rfl
  | cons r rows ih => exact (ih (d := unlinked stuck d r.1)).trans unlinked_db

theorem unlinkedAll_stuck (h : stuck k' = true) (rows : List (LogKey × ExecutionLogFile)) :
    (unlinkedAll stuck d rows).world.bodies k' = d.world.bodies k' := by
  induction rows generalizing d with
  | nil => rfl
  | cons r rows ih => exact (ih (d := unlinked stuck d r.1)).trans (unlinked_stuck h)

theorem unlinkedAll_ne {rows : List (LogKey × ExecutionLogFile)} (h : ∀ r ∈ rows, k' ≠ r.1) :
    (unlinkedAll stuck d rows).world.bodies k' = d.world.bodies k' := by
  induction rows generalizing d with
  | nil => rfl
  | cons r rows ih =>
      refine (ih (d := unlinked stuck d r.1) fun r' hr' => ?_).trans ?_
      · exact h r' (List.mem_cons_of_mem _ hr')
      · exact unlinked_ne (h r List.mem_cons_self)

/-- An operation whose outcome the program looks at. -/
theorem run_ask {α : Type} {op : Op} {f : Except CleanupError op.Res → CleanupProg α}
    {r : Except CleanupError op.Res} (h : perform stuck op d = some (r, d')) :
    runProg stuck ((Prog.ask op).bind f) d = runProg stuck (f r) d' := by
  show (perform stuck op d).bind (fun r => runProg stuck (f r.1) r.2) = _
  rw [h]
  rfl

/-- An operation that succeeds. -/
theorem run_call {α : Type} {op : Op} {f : op.Res → CleanupProg α} {r : op.Res}
    (h : perform stuck op d = some (.ok r, d')) :
    runProg stuck ((Prog.call op).bind f) d = runProg stuck (f r) d' := Prog.exec_call h

theorem run_bind {α β : Type} {p : CleanupProg α} {f : α → CleanupProg β} {a : α}
    (h : runProg stuck p d = some (.ok a, d')) :
    runProg stuck (p.bind f) d = runProg stuck (f a) d' := Prog.exec_bind h

/-- An unlink, settled. -/
theorem perform_aremove (k : LogKey) : perform stuck (.aremove k) d =
    some (.ok (!stuck k && (d.world.bodies k).isSome), unlinked stuck d k) := by
  unfold unlinked
  cases hgone : !stuck k && (d.world.bodies k).isSome with
  | true =>
      rw [perform, Deletion.perform, answer, hgone]
      rfl
  | false =>
      have hsize : settle (.aremove k) d.world d.world d.gauge = d.gauge := by
        show d.gauge.sub _ = _
        rw [Int.sub_self, sub_zero]
      rw [perform, Deletion.perform, answer, hgone]
      show some (_, ({ world := d.world, gauge := settle _ d.world d.world d.gauge } : Dir)) = _
      rw [hsize]
      rfl

/-- **One body**: the task fails if it is there and stuck. -/
theorem run_unlinkBody (k : LogKey) (failed : List TaskId) (n : Nat) : ∃ n',
    runProg stuck (Deletion.unlinkBody k failed n) d =
      some (.ok (if stuck k && (d.world.bodies k).isSome then k.taskId :: failed else failed, n'),
        unlinked stuck d k) := by
  have hask : runProg stuck (Deletion.unlinkBody k failed n) d =
      runProg stuck (Deletion.judgeUnlink k failed n
        (.ok (!stuck k && (d.world.bodies k).isSome))) (unlinked stuck d k) :=
    run_ask (perform_aremove k)
  rw [hask]
  cases hgone : !stuck k && (d.world.bodies k).isSome with
  | true =>
      obtain ⟨hstuck, -⟩ := (Bool.and_eq_true _ _).mp hgone
      rw [Bool.not_eq_true'] at hstuck
      refine ⟨n + 1, ?_⟩
      rw [hstuck, Bool.false_and, if_neg Bool.false_ne_true]
      rfl
  | false =>
      -- the look at the body
      have hsame : unlinked stuck d k = d := by
        unfold unlinked
        rw [hgone, if_neg Bool.false_ne_true]
      have hlook : perform stuck (.aexists k) d = some (.ok (d.world.bodies k).isSome, d) := by
        show some (Except.ok (true && (d.world.bodies k).isSome), d) = _
        rw [Bool.true_and]
        rfl
      refine ⟨n, ?_⟩
      rw [hsame]
      have hjudge : runProg stuck (Deletion.judgeUnlink k failed n (.ok false)) d =
          runProg stuck (if (d.world.bodies k).isSome then pure (k.taskId :: failed, n)
            else pure (failed, n)) d := run_call hlook
      rw [hjudge]
      cases hbody : (d.world.bodies k).isSome with
      | false =>
          rw [Bool.and_false, if_neg Bool.false_ne_true, if_neg Bool.false_ne_true]
          rfl
      | true =>
          rw [hbody, Bool.and_true, Bool.not_eq_false'] at hgone
          rw [hgone, Bool.true_and, if_pos rfl, if_pos rfl]
          rfl

/-- **All bodies**: the tasks fail that have one that is there and stuck. -/
theorem run_unlinkBodies (rows : List (LogKey × ExecutionLogFile)) (failed : List TaskId)
    (n : Nat) : ∃ failed' n', runProg stuck (Deletion.unlinkBodies failed n rows) d =
        some (.ok (failed', n'), unlinkedAll stuck d rows) ∧
      ∀ t, t ∈ failed' ↔ t ∈ failed ∨
        ∃ r ∈ rows, r.1.taskId = t ∧ stuck r.1 = true ∧ (d.world.bodies r.1).isSome = true := by
  induction rows generalizing d failed n with
  | nil =>
      refine ⟨failed, n, rfl, fun t => ?_⟩
      simp
  | cons r rows ih =>
      obtain ⟨n₁, hfirst⟩ : ∃ n₁, runProg stuck (Deletion.unlinkBody r.1 failed n) d = _ :=
        run_unlinkBody r.1 failed n
      obtain ⟨failed', n', hrest, hmem⟩ := ih (d := unlinked stuck d r.1)
        (if stuck r.1 && (d.world.bodies r.1).isSome then r.1.taskId :: failed else failed) n₁
      refine ⟨failed', n', (run_bind hfirst).trans hrest, fun t => ?_⟩
      rw [hmem]
      have hlater : (∃ r' ∈ rows, r'.1.taskId = t ∧ stuck r'.1 = true ∧
          ((unlinked stuck d r.1).world.bodies r'.1).isSome = true) ↔
          ∃ r' ∈ rows, r'.1.taskId = t ∧ stuck r'.1 = true ∧
            (d.world.bodies r'.1).isSome = true := by
        refine exists_congr fun r' => and_congr_right fun _ => and_congr_right fun _ => ?_
        refine and_congr_right fun hs => ?_
        rw [unlinked_stuck hs]
      rw [hlater, List.exists_mem_cons_iff]
      cases hfail : stuck r.1 && (d.world.bodies r.1).isSome with
      | false =>
          have hno : ¬ (r.1.taskId = t ∧ stuck r.1 = true ∧
              (d.world.bodies r.1).isSome = true) := by
            rintro ⟨-, hs, hb⟩
            rw [hs, hb] at hfail
            cases hfail
          rw [if_neg Bool.false_ne_true, or_iff_right hno]
      | true =>
          obtain ⟨hs, hb⟩ := (Bool.and_eq_true _ _).mp hfail
          rw [if_pos rfl, List.mem_cons, or_comm (a := t = r.1.taskId), or_assoc, eq_comm (a := t),
            and_iff_left (show stuck r.1 = true ∧ (d.world.bodies r.1).isSome = true from ⟨hs, hb⟩)]

end Unlinking

/-! ### A cleanup of one victim -/

/-- Retention may delete the task. -/
def eligible (db : ServerDb) (r : TaskId × Task) : Bool := db.sealedTerminal none [] [] r

theorem sealedTerminal_iff {db : ServerDb} {cutoff : Option Time} {only exclude : List TaskId}
    {r : TaskId × Task} : db.sealedTerminal cutoff only exclude r = true ↔
      eligible db r = true ∧ r.1 ∉ exclude ∧ cutoff.all r.2.overBefore = true ∧
        (only = [] ∨ r.1 ∈ only) := by
  unfold eligible ServerDb.sealedTerminal
  simp only [Bool.and_eq_true, Bool.not_eq_true', Bool.or_eq_true, List.isEmpty_iff,
    List.contains_eq_mem, decide_eq_true_eq, decide_eq_false_iff_not, Option.all_none,
    List.not_mem_nil, not_false_eq_true, List.isEmpty_nil, true_or, and_true]
  tauto

/-- A body of the task is there, and stuck. -/
def blocked (stuck : LogKey → Bool) (w : World) (t : TaskId) : Bool :=
  w.db.logFiles.rows.any fun r => r.1.taskId = t && stuck r.1 && (w.bodies r.1).isSome

/-- The task can be evicted by a sweep that has begun at a time. -/
def evictable (stuck : LogKey → Bool) (now : Time) (w : World) (r : TaskId × Task) : Bool :=
  eligible w.db r && r.2.overBefore now && !blocked stuck w r.1

/-- The tasks that can be evicted, in order. -/
def evictableTasks (stuck : LogKey → Bool) (now : Time) (w : World) : List (TaskId × Task) :=
  (w.db.tasks.rows.filter (evictable stuck now w)).insertionSort retentionOrder

theorem mem_evictableTasks {stuck : LogKey → Bool} {now : Time} {w : World} {r : TaskId × Task} :
    r ∈ evictableTasks stuck now w ↔
      w.db.tasks.get r.1 = some r.2 ∧ evictable stuck now w r = true := by
  unfold evictableTasks
  rw [List.mem_insertionSort, List.mem_filter, ← Table.mem_rows_iff]

theorem blocked_iff {stuck : LogKey → Bool} {w : World} {t : TaskId} : blocked stuck w t = true ↔
    ∃ r ∈ w.db.logFiles.rows, r.1.taskId = t ∧ stuck r.1 = true ∧
      (w.bodies r.1).isSome = true := by
  unfold blocked
  simp only [List.any_eq_true, Bool.and_eq_true, decide_eq_true_eq, and_assoc]

theorem evictable_iff {stuck : LogKey → Bool} {now : Time} {w : World} {r : TaskId × Task} :
    evictable stuck now w r = true ↔ eligible w.db r = true ∧ r.2.overBefore now = true ∧
      blocked stuck w r.1 = false := by
  unfold evictable
  rw [Bool.and_eq_true, Bool.and_eq_true, Bool.not_eq_true', and_assoc]

/-- Everything a task has is as it was. -/
structure Kept (w w' : World) (t : TaskId) : Prop where
  task : w'.db.tasks.get t = w.db.tasks.get t
  executions : ∀ e x, w.db.executions.get e = some x → x.taskId = t →
    w'.db.executions.get e = some x
  outbox : ∀ c row, w.db.outbox.get c = some row → row.taskId = t →
    w'.db.outbox.get c = some row
  logs : ∀ k : LogKey, k.taskId = t → w'.db.logFiles.get k = w.db.logFiles.get k
  bodies : ∀ k : LogKey, k.taskId = t → w'.bodies k = w.bodies k

/-- What a cleanup of one victim does. -/
structure Cleaned (stuck : LogKey → Bool) (now : Time) (v : TaskId) (w w' : World) (tasks : Nat) :
    Prop where
  others : ∀ t, t ≠ v → Kept w w' t
  fixed : ∀ k, stuck k = true → w'.bodies k = w.bodies k
  evicted : tasks ≠ 0 → (∃ task, w.db.tasks.get v = some task ∧
    evictable stuck now w (v, task) = true) ∧ w'.db.tasks.get v = none
  skipped : tasks = 0 → (∀ task, w.db.tasks.get v = some task →
    evictable stuck now w (v, task) = false) ∧ w'.db.tasks.get v = w.db.tasks.get v

section Cleanup

variable {stuck : LogKey → Bool} {d : Dir} {now : Time}

theorem mem_selected {v t : TaskId} :
    t ∈ d.world.db.sealedTerminalTaskIds (some now) none [v] [] ↔ t = v ∧ ∃ task,
      d.world.db.tasks.get v = some task ∧ eligible d.world.db (v, task) = true ∧
        task.overBefore now = true := by
  rw [Deletion.mem_sealedTerminalTaskIds]
  constructor
  · rintro ⟨task, htask, hsealed⟩
    obtain ⟨helig, -, hover, hv⟩ := sealedTerminal_iff.mp hsealed
    have ht : t = v := by
      rcases hv with hv | hv
      · cases hv
      · exact List.mem_singleton.mp hv
    subst ht
    exact ⟨rfl, task, htask, helig, hover⟩
  · rintro ⟨rfl, task, htask, helig, hover⟩
    exact ⟨task, htask, sealedTerminal_iff.mpr
      ⟨helig, List.not_mem_nil, hover, .inr (List.mem_singleton.mpr rfl)⟩⟩

theorem run_summarize (summary : CleanupSummary) (ids : List TaskId) :
    runProg stuck (Deletion.summarize summary ids) d = some (.ok
      ({ summary with
        tasks := ids.length
        executions := d.world.db.executions.rows.countP fun r => r.2.taskId ∈ ids
        logFiles := (d.world.logFilesOf ids).length
        logBytes := ((d.world.logFilesOf ids).map fun r => r.2.sizeBytes).sum
        commandOutbox := d.world.db.outbox.rows.countP fun r => r.2.taskId ∈ ids },
        d.world.logFilesOf ids), d) := by
  have hexecutions : perform stuck (.countExecutions ids) d =
      some (.ok (d.world.db.executions.rows.countP fun r => r.2.taskId ∈ ids), d) := rfl
  have hlogs : perform stuck (.selectLogFiles ids) d = some (.ok (d.world.logFilesOf ids), d) := rfl
  have houtbox : perform stuck (.countOutbox ids) d =
      some (.ok (d.world.db.outbox.rows.countP fun r => r.2.taskId ∈ ids), d) := rfl
  refine (run_call hexecutions).trans ?_
  refine (run_call hlogs).trans ?_
  exact (run_call houtbox).trans rfl

/-- The directory with other tables. -/
def Dir.setDb (d : Dir) (db : ServerDb) : Dir := { d with world := { d.world with db := db } }

/-- The rows are marked expired, the bodies tried, and the rows of the tasks deleted
that did not fail. -/
theorem run_deleteSelected (summary : CleanupSummary) (ids : List TaskId) :
    ∃ (failed : List TaskId) (summary' : CleanupSummary),
      runProg stuck (Deletion.deleteSelected summary ids) d =
        some (.ok summary', (unlinkedAll stuck (d.setDb (d.world.db.expireLogs ids))
          (d.world.logFilesOf ids)).setDb
            ((d.world.db.expireLogs ids).deleteTasks (ids.filter fun t => t ∉ failed))) ∧
      summary'.tasks = (ids.filter fun t => t ∉ failed).length ∧
      ∀ t, t ∈ failed ↔ ∃ r ∈ d.world.logFilesOf ids, r.1.taskId = t ∧ stuck r.1 = true ∧
        (d.world.bodies r.1).isSome = true := by
  obtain ⟨failed, n, hunlink, hfailed⟩ := @run_unlinkBodies stuck
    (d.setDb (d.world.db.expireLogs ids)) (d.world.logFilesOf ids) [] 0
  refine ⟨failed, { summary with
    tasks := (ids.filter fun t => t ∉ failed).length
    executions := d.world.db.executions.rows.countP fun r => r.2.taskId ∈ ids
    logFiles := (d.world.logFilesOf ids).length
    logBytes := ((d.world.logFilesOf ids).map fun r => r.2.sizeBytes).sum
    commandOutbox := d.world.db.outbox.rows.countP fun r => r.2.taskId ∈ ids
    logFilesRemoved := n }, ?_, rfl, fun t => ?_⟩
  · have hlock : perform stuck (.lockTasks ids) d = some (.ok (), d) := rfl
    have hexpire : perform stuck (.expire ids) d =
        some (.ok (), d.setDb (d.world.db.expireLogs ids)) := rfl
    refine (run_call hlock).trans ?_
    refine (run_bind (run_summarize summary ids)).trans ?_
    refine (run_call hexpire).trans ?_
    refine (run_bind hunlink).trans ?_
    generalize hafter : unlinkedAll stuck (d.setDb (d.world.db.expireLogs ids))
      (d.world.logFilesOf ids) = d₁
    have hdb : d₁.world.db = d.world.db.expireLogs ids := by
      rw [← hafter]
      exact unlinkedAll_db _
    have hdelete : perform stuck (.delete (ids.filter fun t => t ∉ failed)) d₁ =
        some (.ok (), d₁.setDb (d₁.world.db.deleteTasks (ids.filter fun t => t ∉ failed))) := rfl
    refine (run_call hdelete).trans ?_
    rw [hdb]
    rfl
  · rw [hfailed]
    exact or_iff_right List.not_mem_nil

/-- The tasks that were selected for one victim: it alone, or none. -/
theorem selected_length {v : TaskId} {failed : List TaskId} :
    ((d.world.db.sealedTerminalTaskIds (some now) none [v] []).filter
      fun t => t ∉ failed).length ≠ 0 ↔ (∃ task, d.world.db.tasks.get v = some task ∧ eligible d.world.db (v, task) = true ∧
        task.overBefore now = true) ∧ v ∉ failed := by
  rw [Nat.ne_zero_iff_zero_lt, List.length_pos_iff_exists_mem]
  constructor
  · rintro ⟨t, ht⟩
    obtain ⟨hsel, hfailed⟩ := List.mem_filter.mp ht
    obtain ⟨rfl, htask⟩ := mem_selected.mp hsel
    exact ⟨htask, of_decide_eq_true hfailed⟩
  · rintro ⟨htask, hfailed⟩
    exact ⟨v, List.mem_filter.mpr ⟨mem_selected.mpr ⟨rfl, htask⟩, decide_eq_true hfailed⟩⟩

/-- What deletions keep of the tasks that are not selected. -/
theorem kept_deleted {ids ids' : List TaskId} {t : TaskId} (hids : t ∉ ids) (hids' : t ∉ ids')
    {bodies : LogKey → Option Bytes}
    (hbodies : ∀ k : LogKey, k.taskId = t → bodies k = d.world.bodies k) :
    Kept d.world { db := (d.world.db.expireLogs ids).deleteTasks ids', bodies := bodies } t := by
  obtain ⟨hlogs, hexecutions, houtbox, htasks⟩ :=
    Deletion.mem_deleteTasks (d.world.db.expireLogs ids) ids'
  refine ⟨?_, fun e x hx hxt => ?_, fun c row hrow hrowt => ?_, fun k hk => ?_, hbodies⟩
  · refine Option.ext fun task => ?_
    rw [htasks]
    exact and_iff_left hids'
  · exact (hexecutions e x).mpr ⟨hx, fun hmem => hids' (hxt ▸ hmem)⟩
  · exact (houtbox c row).mpr ⟨hrow, fun hmem => hids' (hrowt ▸ hmem)⟩
  · refine Option.ext fun f => ?_
    rw [hlogs, Deletion.expireLogs_get, hk]
    simp only [if_neg hids, Option.map_id']
    exact and_iff_left hids'

/-- **One victim**: it is evicted if that can be, and otherwise stays. -/
theorem run_cleanup (v : TaskId) : ∃ summary d',
    runProg stuck (Deletion.cleanupTerminalData now false [v]) d = some (.ok summary, d') ∧
      Cleaned stuck now v d.world d'.world summary.tasks := by
  have hselect : perform stuck (.selectTasks now [v]) d =
      some (.ok (d.world.db.sealedTerminalTaskIds (some now) none [v] []), d) := rfl
  have hselected : ∀ failed : List TaskId, _ := fun failed =>
    @selected_length d now v failed
  generalize hids : d.world.db.sealedTerminalTaskIds (some now) none [v] [] = ids
    at hselect hselected
  have honly : ∀ t, t ≠ v → t ∉ ids := by
    intro t ht hmem
    rw [← hids] at hmem
    exact ht (mem_selected.mp hmem).1
  have hrun : runProg stuck (Deletion.cleanupTerminalData now false [v]) d =
      runProg stuck (if ids = [] then pure { dryRun := false, cutoff := now }
        else Deletion.deleteSelected { dryRun := false, cutoff := now } ids) d :=
    (run_call hselect).trans rfl
  rw [hrun]
  by_cases hnone : ids = []
  · rw [if_pos hnone]
    refine ⟨_, d, rfl, fun t _ => ⟨rfl, fun _ _ hx _ => hx, fun _ _ hrow _ => hrow,
      fun _ _ => rfl, fun _ _ => rfl⟩, fun _ _ => rfl, fun htasks => absurd rfl htasks,
      fun _ => ⟨fun task htask => ?_, rfl⟩⟩
    have hno := (not_congr (hselected [])).mp (by
      rw [hnone]
      exact not_not_intro rfl)
    refine Bool.eq_false_iff.mpr fun hev => hno ⟨⟨task, htask, ?_⟩, List.not_mem_nil⟩
    obtain ⟨helig, hover, -⟩ := evictable_iff.mp hev
    exact ⟨helig, hover⟩
  · rw [if_neg hnone]
    obtain ⟨failed, summary, hdelete, htasks, hfailed⟩ := run_deleteSelected
      { dryRun := false, cutoff := now } ids
    have hv : v ∈ ids := by
      obtain ⟨t, ht⟩ := List.exists_mem_of_ne_nil ids hnone
      rwa [← show t = v from Decidable.byContradiction fun hne => honly t hne ht]
    have hblocked : v ∈ failed ↔ blocked stuck d.world v = true := by
      rw [hfailed, blocked_iff]
      constructor
      · rintro ⟨r, hr, hfail⟩
        exact ⟨r, (List.mem_filter.mp hr).1, hfail⟩
      · rintro ⟨r, hr, hrv, hfail⟩
        refine ⟨r, List.mem_filter.mpr ⟨hr, decide_eq_true ?_⟩, hrv, hfail⟩
        rwa [hrv]
    have hevict : (∃ task, d.world.db.tasks.get v = some task ∧
        evictable stuck now d.world (v, task) = true) ↔ summary.tasks ≠ 0 := by
      rw [htasks, hselected failed, hblocked, Bool.not_eq_true, ← exists_and_right]
      refine exists_congr fun task => ?_
      rw [evictable_iff, and_assoc, and_assoc]
    refine ⟨summary, _, hdelete, fun t ht => ?_, fun k hk => ?_, fun hsome => ⟨?_, ?_⟩,
      fun hzero => ⟨fun task htask => ?_, ?_⟩⟩
    · refine kept_deleted (honly t ht) (fun hmem => honly t ht (List.mem_filter.mp hmem).1)
        fun k hk => ?_
      refine unlinkedAll_ne fun r hr hkr => honly t ht ?_
      rw [← hk, hkr]
      exact of_decide_eq_true (List.mem_filter.mp hr).2
    · exact unlinkedAll_stuck hk _
    · exact hevict.mpr hsome
    · have hnot : v ∉ failed := ((hselected failed).mp (htasks ▸ hsome)).2
      exact (Deletion.gone_deleteTasks _ (List.mem_filter.mpr ⟨hv, decide_eq_true hnot⟩)).task
    · exact Bool.eq_false_iff.mpr fun hev => hevict.mp ⟨task, htask, hev⟩ hzero
    · rw [htasks, List.length_eq_zero_iff] at hzero
      refine Option.ext fun task => ?_
      rw [hzero]
      have hdeleted := (Deletion.mem_deleteTasks (d.world.db.expireLogs ids) []).2.2.2 v task
      exact hdeleted.trans (and_iff_left List.not_mem_nil)

end Cleanup

/-! ### The order -/

theorem retentionOrder_total (a b : TaskId × Task) : retentionOrder a b ∨ retentionOrder b a := by
  unfold retentionOrder
  cases a.2.finishedAt with
  | none =>
      cases b.2.finishedAt with
      | none =>
          dsimp only
          grind
      | some y => exact .inl trivial
  | some x =>
      cases b.2.finishedAt with
      | none => exact .inr trivial
      | some y =>
          dsimp only
          grind

theorem retentionOrder_trans (a b c : TaskId × Task) : retentionOrder a b → retentionOrder b c →
    retentionOrder a c := by
  unfold retentionOrder
  cases a.2.finishedAt with
  | none =>
      cases c.2.finishedAt with
      | some z => exact fun _ _ => trivial
      | none =>
          cases b.2.finishedAt with
          | some y => exact fun _ hbc => hbc.elim
          | none =>
              dsimp only
              intro hab hbc
              grind
  | some x =>
      cases b.2.finishedAt with
      | none => exact fun hab _ => hab.elim
      | some y =>
          cases c.2.finishedAt with
          | none => exact fun _ hbc => hbc.elim
          | some z =>
              dsimp only
              intro hab hbc
              grind

theorem retentionOrder_antisymm (a b : TaskId × Task) : retentionOrder a b → retentionOrder b a →
    a.1 = b.1 := by
  unfold retentionOrder
  cases a.2.finishedAt with
  | none =>
      cases b.2.finishedAt with
      | none =>
          dsimp only
          intro hab hba
          grind
      | some y => exact fun _ hba => hba.elim
  | some x =>
      cases b.2.finishedAt with
      | none => exact fun hab _ => hab.elim
      | some y =>
          dsimp only
          intro hab hba
          grind

/-- Selections are sorted. -/
theorem pairwise_retentionOrder (rows : List (TaskId × Task)) :
    (rows.insertionSort retentionOrder).Pairwise retentionOrder := by
  have htotal : Std.Total retentionOrder := ⟨retentionOrder_total⟩
  have htrans : IsTrans (TaskId × Task) retentionOrder := ⟨retentionOrder_trans⟩
  exact List.pairwise_insertionSort retentionOrder rows

/-- The next victim: the first of the eligible tasks that were not skipped. -/
structure Victim (s : Sweep) (r : TaskId × Task) : Prop where
  task : s.dir.world.db.tasks.get r.1 = some r.2
  eligible : eligible s.dir.world.db r = true
  fresh : r.1 ∉ s.skipped
  first : ∀ r', s.dir.world.db.tasks.get r'.1 = some r'.2 →
    Eviction.eligible s.dir.world.db r' = true → r'.1 ∉ s.skipped → retentionOrder r r'

theorem select_cases (s : Sweep) :
    (∃ r, s.dir.world.db.sealedTerminalTaskIds none (some 1) [] s.skipped = [r.1] ∧ Victim s r) ∨
      s.dir.world.db.sealedTerminalTaskIds none (some 1) [] s.skipped = [] := by
  have hids : s.dir.world.db.sealedTerminalTaskIds none (some 1) [] s.skipped =
      (((s.dir.world.db.tasks.rows.filter (s.dir.world.db.sealedTerminal none [] s.skipped)
        ).insertionSort retentionOrder).take 1).map Prod.fst := rfl
  have hsorted := pairwise_retentionOrder
    (s.dir.world.db.tasks.rows.filter (s.dir.world.db.sealedTerminal none [] s.skipped))
  have hmem : ∀ r, r ∈ (s.dir.world.db.tasks.rows.filter
      (s.dir.world.db.sealedTerminal none [] s.skipped)).insertionSort retentionOrder ↔
      s.dir.world.db.tasks.get r.1 = some r.2 ∧ eligible s.dir.world.db r = true ∧
        r.1 ∉ s.skipped := by
    intro r
    rw [List.mem_insertionSort, List.mem_filter, sealedTerminal_iff, ← Table.mem_rows_iff]
    refine and_congr_right fun _ => and_congr_right fun _ => ?_
    exact and_iff_left ⟨rfl, .inl rfl⟩
  rw [hids]
  generalize (s.dir.world.db.tasks.rows.filter
    (s.dir.world.db.sealedTerminal none [] s.skipped)).insertionSort retentionOrder = rows
    at hsorted hmem ⊢
  cases rows with
  | nil => exact .inr rfl
  | cons r rows =>
      obtain ⟨htask, helig, hfresh⟩ := (hmem r).mp List.mem_cons_self
      refine .inl ⟨r, rfl, htask, helig, hfresh, fun r' htask' helig' hfresh' => ?_⟩
      rcases List.mem_cons.mp ((hmem r').mpr ⟨htask', helig', hfresh'⟩) with rfl | hr'
      · rcases retentionOrder_total r' r' with h | h
        · exact h
        · exact h
      · exact (List.pairwise_cons.mp hsorted).1 r' hr'

section Evictable

variable {stuck : LogKey → Bool} {now : Time} {w : World}

/-- A task stands in the list once. -/
theorem evictableTasks_inj {a b : TaskId × Task} (ha : a ∈ evictableTasks stuck now w)
    (hb : b ∈ evictableTasks stuck now w) (h : a.1 = b.1) : a = b := by
  have hget := (mem_evictableTasks.mp ha).1
  rw [h, (mem_evictableTasks.mp hb).1] at hget
  exact Prod.ext h (Option.some.inj hget).symm

theorem evictableTasks_antisymm : ∀ a ∈ evictableTasks stuck now w,
    ∀ b ∈ evictableTasks stuck now w, retentionOrder a b → retentionOrder b a → a = b :=
  fun a ha b hb hab hba => evictableTasks_inj ha hb (retentionOrder_antisymm a b hab hba)

theorem evictableTasks_nodup : (evictableTasks stuck now w).Nodup := by
  have hrows : w.db.tasks.rows.Nodup := List.Nodup.of_map _ w.db.tasks.nodup
  exact (List.perm_insertionSort _ _).nodup_iff.mpr (hrows.filter _)

end Evictable

/-! ### What a task has -/

section Kept

variable {stuck : LogKey → Bool} {now : Time} {w w' w'' : World} {t : TaskId} {task : Task}

theorem Kept.refl (w : World) (t : TaskId) : Kept w w t :=
  ⟨rfl, fun _ _ hx _ => hx, fun _ _ hrow _ => hrow, fun _ _ => rfl, fun _ _ => rfl⟩

theorem Kept.trans (h : Kept w w' t) (h' : Kept w' w'' t) : Kept w w'' t where
  task := h'.task.trans h.task
  executions e x hx hxt := h'.executions e x (h.executions e x hx hxt) hxt
  outbox c row hrow hrowt := h'.outbox c row (h.outbox c row hrow hrowt) hrowt
  logs k hk := (h'.logs k hk).trans (h.logs k hk)
  bodies k hk := (h'.bodies k hk).trans (h.bodies k hk)

/-- Its log rows are the same. -/
theorem Kept.mem_logs (h : Kept w w' t) {r : LogKey × ExecutionLogFile} (hr : r.1.taskId = t) :
    r ∈ w'.db.logFiles.rows ↔ r ∈ w.db.logFiles.rows := by
  obtain ⟨k, f⟩ := r
  rw [Table.mem_rows_iff, Table.mem_rows_iff, h.logs k hr]

theorem Kept.eligible (h : Kept w w' t) :
    eligible w'.db (t, task) = eligible w.db (t, task) := by
  have hlogs : (w'.db.taskLogFiles t).any (fun f => f.2.status.writable) =
      (w.db.taskLogFiles t).any (fun f => f.2.status.writable) := by
    rw [Bool.eq_iff_iff, List.any_eq_true, List.any_eq_true]
    refine exists_congr fun r => and_congr_left fun _ => ?_
    unfold ServerDb.taskLogFiles
    rw [List.mem_filter, List.mem_filter, decide_eq_true_eq]
    exact and_congr_left fun hr => h.mem_logs hr
  unfold Eviction.eligible ServerDb.sealedTerminal
  rw [hlogs]

theorem Kept.blocked (h : Kept w w' t) : blocked stuck w' t = blocked stuck w t := by
  rw [Bool.eq_iff_iff, blocked_iff, blocked_iff]
  refine exists_congr fun r => ?_
  constructor
  · rintro ⟨hr, hrt, hs, hbody⟩
    exact ⟨(h.mem_logs hrt).mp hr, hrt, hs, h.bodies r.1 hrt ▸ hbody⟩
  · rintro ⟨hr, hrt, hs, hbody⟩
    exact ⟨(h.mem_logs hrt).mpr hr, hrt, hs, (h.bodies r.1 hrt).symm ▸ hbody⟩

theorem Kept.evictable (h : Kept w w' t) :
    evictable stuck now w' (t, task) = evictable stuck now w (t, task) := by
  unfold Eviction.evictable
  rw [h.eligible, h.blocked]

end Kept

/-! ### The sweep, turn by turn -/

section Turns

variable {stuck : LogKey → Bool} {budget : Nat} {now : Time} {maxVictims : Nat} {s m : Sweep}

/-- **One turn**: the loop is left, or it takes the next victim. -/
theorem turn_cases (stuck : LogKey → Bool) (budget : Nat) (now : Time) (maxVictims : Nat)
    (s : Sweep) :
    ((s.dir.gauge.value ≤ budget ∨ maxVictims ≤ s.attempts) ∧
      turn stuck budget now maxVictims s = (false, s)) ∨
    (budget < s.dir.gauge.value ∧ s.attempts < maxVictims ∧
      (turn stuck budget now maxVictims s = (false, { s with recovered := false }) ∨
        ∃ r tasks dir, Victim s r ∧ Cleaned stuck now r.1 s.dir.world dir.world tasks ∧
          turn stuck budget now maxVictims s = (true, s.after [r.1] tasks dir))) := by
  unfold turn
  by_cases hstop : s.dir.gauge.value ≤ budget ∨ maxVictims ≤ s.attempts
  · rw [if_pos hstop]
    exact .inl ⟨hstop, rfl⟩
  · rw [if_neg hstop]
    obtain ⟨hgauge, hattempts⟩ := not_or.mp hstop
    refine .inr ⟨not_le.mp hgauge, not_le.mp hattempts, ?_⟩
    rcases select_cases s with ⟨r, hids, hvictim⟩ | hids
    · obtain ⟨summary, dir, hrun, hcleaned⟩ := @run_cleanup stuck s.dir now r.1
      rw [hids]
      dsimp only
      rw [hrun]
      exact .inr ⟨r, summary.tasks, dir, hvictim, hcleaned, rfl⟩
    · rw [hids]
      exact .inl rfl

/-- What holds between two turns of a sweep that began with the tables and bodies
`w₀`. -/
structure Inv (stuck : LogKey → Bool) (now : Time) (w₀ : World) (s : Sweep) : Prop where
  kept : ∀ t, t ∉ s.order → t ∉ s.skipped → Kept w₀ s.dir.world t
  task : ∀ t, t ∉ s.order → s.dir.world.db.tasks.get t = w₀.db.tasks.get t
  gone : ∀ t ∈ s.order, s.dir.world.db.tasks.get t = none
  fixed : ∀ k, stuck k = true → s.dir.world.bodies k = w₀.bodies k
  /-- The tasks evicted are the first ones. -/
  first : ∃ rows, rows <+: evictableTasks stuck now w₀ ∧ s.order = rows.map Prod.fst
  /-- What was skipped could not be evicted. -/
  skipped : ∀ t ∈ s.skipped, ∃ task, w₀.db.tasks.get t = some task ∧
    eligible w₀.db (t, task) = true ∧ evictable stuck now w₀ (t, task) = false
  recovered : s.recovered = true

/-- The victim is untouched, up to now. -/
theorem Inv.victim {w₀ : World} (h : Inv stuck now w₀ s) {r : TaskId × Task} (hr : Victim s r) :
    r.1 ∉ s.order ∧ Kept w₀ s.dir.world r.1 := by
  have hnot : r.1 ∉ s.order := by
    intro hmem
    have hnone := h.gone r.1 hmem
    rw [hr.task] at hnone
    cases hnone
  exact ⟨hnot, h.kept r.1 hnot hr.fresh⟩

/-- **A turn keeps the invariant.** -/
theorem Inv.after {w₀ : World} (h : Inv stuck now w₀ s) {r : TaskId × Task} {tasks : Nat}
    {dir : Dir} (hr : Victim s r) (hc : Cleaned stuck now r.1 s.dir.world dir.world tasks) :
    Inv stuck now w₀ (s.after [r.1] tasks dir) := by
  obtain ⟨hnot, hkept⟩ := h.victim hr
  have hevictable : evictable stuck now s.dir.world r = evictable stuck now w₀ r :=
    hkept.evictable
  have htask : w₀.db.tasks.get r.1 = some r.2 := by
    rw [← hkept.task]
    exact hr.task
  have hfixed : ∀ k, stuck k = true → dir.world.bodies k = w₀.bodies k := fun k hk =>
    (hc.fixed k hk).trans (h.fixed k hk)
  unfold Sweep.after
  by_cases hzero : tasks = 0
  · -- skipped
    obtain ⟨hfailed, hsame⟩ := hc.skipped hzero
    rw [if_pos hzero]
    refine ⟨fun t ht hskipped => ?_, fun t ht => ?_, fun t ht => ?_, hfixed, h.first,
      fun t ht => ?_, h.recovered⟩
    · rw [List.singleton_append, List.mem_cons, not_or] at hskipped
      exact (h.kept t ht hskipped.2).trans (hc.others t hskipped.1)
    · by_cases htr : t = r.1
      · rw [htr] at ht ⊢
        exact hsame.trans (h.task r.1 ht)
      · exact (hc.others t htr).task.trans (h.task t ht)
    · have htr : t ≠ r.1 := fun heq => hnot (heq ▸ ht)
      exact (hc.others t htr).task.trans (h.gone t ht)
    · rcases List.mem_cons.mp ht with rfl | ht
      · refine ⟨r.2, htask, ?_, ?_⟩
        · rw [← hkept.eligible]
          exact hr.eligible
        · exact hevictable.symm.trans (hfailed r.2 hr.task)
      · exact h.skipped t ht
  · -- evicted
    obtain ⟨⟨task, hget, hev⟩, hgone⟩ := hc.evicted hzero
    rw [hr.task] at hget
    obtain rfl : r.2 = task := Option.some.inj hget
    rw [if_neg hzero]
    refine ⟨fun t ht hskipped => ?_, fun t ht => ?_, fun t ht => ?_, hfixed, ?_, h.skipped,
      h.recovered⟩
    · rw [List.mem_append, not_or, List.mem_singleton] at ht
      exact (h.kept t ht.1 hskipped).trans (hc.others t ht.2)
    · rw [List.mem_append, not_or, List.mem_singleton] at ht
      exact (hc.others t ht.2).task.trans (h.task t ht.1)
    · rcases List.mem_append.mp ht with ht | ht
      · have htr : t ≠ r.1 := fun heq => hnot (heq ▸ ht)
        exact (hc.others t htr).task.trans (h.gone t ht)
      · rw [List.mem_singleton.mp ht]
        exact hgone
    · obtain ⟨rows, hrows, horder⟩ := h.first
      refine ⟨rows ++ [r], ?_, ?_⟩
      · refine Ranking.prefix_concat evictableTasks_antisymm (pairwise_retentionOrder _)
          evictableTasks_nodup hrows (mem_evictableTasks.mpr ⟨htask, hevictable.symm.trans hev⟩)
          (fun hmem => hnot ?_) fun r' hr' hnew => ?_
        · rw [horder]
          exact List.mem_map_of_mem hmem
        · -- the other one is still there, and eligible
          obtain ⟨htask', hev'⟩ := mem_evictableTasks.mp hr'
          have horder' : r'.1 ∉ s.order := by
            intro hmem
            rw [horder] at hmem
            obtain ⟨r'', hr'', hkey⟩ := List.mem_map.mp hmem
            obtain rfl : r'' = r' := evictableTasks_inj (hrows.subset hr'') hr' hkey
            exact hnew hr''
          have hskipped' : r'.1 ∉ s.skipped := by
            intro hmem
            obtain ⟨task, hget, -, hno⟩ := h.skipped r'.1 hmem
            rw [htask'] at hget
            obtain rfl : r'.2 = task := Option.some.inj hget
            rw [hev'] at hno
            cases hno
          have hkept' := h.kept r'.1 horder' hskipped'
          refine hr.first r' (hkept'.task.trans htask') ?_ hskipped'
          exact hkept'.eligible.trans (evictable_iff.mp hev').1
      · rw [List.map_append, ← horder]
        rfl

/-- The sweep goes on only with the invariant, and another attempt. -/
theorem Inv.turn {w₀ : World} (h : Inv stuck now w₀ s)
    (hm : turn stuck budget now maxVictims s = (true, m)) :
    Inv stuck now w₀ m ∧ m.attempts = s.attempts + 1 ∧ s.attempts < maxVictims := by
  rcases turn_cases stuck budget now maxVictims s with
    ⟨-, hstop⟩ | ⟨-, hattempts, hnone | ⟨r, tasks, dir, hvictim, hcleaned, hgo⟩⟩
  · rw [hm] at hstop
    cases (Prod.ext_iff.mp hstop).1
  · rw [hm] at hnone
    cases (Prod.ext_iff.mp hnone).1
  · rw [hm] at hgo
    obtain rfl : m = s.after [r.1] tasks dir := (Prod.ext_iff.mp hgo).2
    refine ⟨h.after hvictim hcleaned, ?_, hattempts⟩
    unfold Sweep.after
    split <;> rfl

theorem Inv.begin (d : Dir) (walked : Nat) : Inv stuck now d.world (begin d walked) where
  kept t _ _ := .refl _ t
  task _ _ := rfl
  gone _ ht := absurd ht List.not_mem_nil
  fixed _ _ := rfl
  first := ⟨[], List.nil_prefix, rfl⟩
  skipped _ ht := absurd ht List.not_mem_nil
  recovered := rfl

/-- What is said to be recovered, when the loop is left. -/
theorem Inv.finish {w₀ : World} (h : Inv stuck now w₀ s)
    (hm : Eviction.turn stuck budget now maxVictims s = (false, m)) :
    (∃ b, m = { s with recovered := b }) ∧
      ((finish budget maxVictims m).recovered = true ↔ m.dir.gauge.value ≤ budget) := by
  rcases turn_cases stuck budget now maxVictims s with
    ⟨hstop, hsame⟩ | ⟨hgauge, hattempts, hnone | ⟨r, tasks, dir, -, -, hgo⟩⟩
  · rw [hm] at hsame
    obtain rfl : m = s := (Prod.ext_iff.mp hsame).2
    refine ⟨⟨m.recovered, rfl⟩, ?_⟩
    unfold Eviction.finish
    rw [h.recovered]
    by_cases hover : budget < m.dir.gauge.value
    · have hattempts : maxVictims ≤ m.attempts := hstop.resolve_left (not_le.mpr hover)
      simp only [if_pos (show budget < m.dir.gauge.value ∧ maxVictims ≤ m.attempts from
        ⟨hover, hattempts⟩)]
      exact iff_of_false Bool.false_ne_true (not_le.mpr hover)
    · simp only [if_neg (fun hboth : budget < m.dir.gauge.value ∧ maxVictims ≤ m.attempts =>
        hover hboth.1)]
      exact iff_of_true trivial (not_lt.mp hover)
  · rw [hm] at hnone
    obtain rfl : m = { s with recovered := false } := (Prod.ext_iff.mp hnone).2
    refine ⟨⟨false, rfl⟩, ?_⟩
    unfold Eviction.finish
    simp only [ite_self]
    exact iff_of_false Bool.false_ne_true (not_le.mpr hgauge)
  · rw [hm] at hgo
    cases (Prod.ext_iff.mp hgo).1

end Turns

/-! ### The sweep -/

/-- Retention may delete the task: it is over, its logs are sealed, and what a schedule
counts of it is recorded. -/
def Deletable (db : ServerDb) (t : TaskId) : Prop :=
  ∃ task, db.tasks.get t = some task ∧ task.status.terminal = true ∧
    (∀ k f, db.logFiles.get k = some f → k.taskId = t → f.status.writable = false) ∧
    (task.counted = true → task.outcomeRecordedAt.isSome = true)

theorem deletable_of_eligible {db : ServerDb} {t : TaskId} {task : Task}
    (htask : db.tasks.get t = some task) (h : eligible db (t, task) = true) : Deletable db t := by
  unfold eligible ServerDb.sealedTerminal at h
  simp only [Bool.and_eq_true, Bool.not_eq_true'] at h
  obtain ⟨⟨⟨⟨⟨hterminal, hlogs⟩, hrecorded⟩, -⟩, -⟩, -⟩ := h
  refine ⟨task, htask, hterminal, fun k f hf hk => ?_, fun hcounted => ?_⟩
  · rw [List.any_eq_false] at hlogs
    refine Bool.eq_false_iff.mpr (hlogs (k, f) ?_)
    exact List.mem_filter.mpr ⟨Table.mem_rows_iff.mpr hf, decide_eq_true hk⟩
  · rw [hcounted, Bool.true_and] at hrecorded
    rw [← Option.not_isNone, hrecorded]
    rfl

/-- **Eviction.**  With a budget, the loop is left; only tasks that retention may
delete have lost anything; those deleted are the first of the ones that can be
evicted; the loop goes no further than where the gauge is within the budget; and that
is what is called recovered. -/
theorem evicts (stuck : LogKey → Bool) {budget : Nat} (hbudget : 0 < budget) (now : Time)
    (maxVictims walked : Nat) (d : Dir) :
    ∃ t, Loop.Runs (turn stuck budget now maxVictims) (begin d walked) t ∧
      evictLogsDirToBudget stuck budget now maxVictims walked true d =
        (finish budget maxVictims t, t) ∧
      (∀ id, ¬ Deletable d.world.db id → Kept d.world t.dir.world id) ∧
      (∀ id, id ∈ t.order ↔ (d.world.db.tasks.get id).isSome = true ∧
        t.dir.world.db.tasks.get id = none) ∧
      t.order <+: (evictableTasks stuck now d.world).map Prod.fst ∧
      (∀ m, Loop.Passes (turn stuck budget now maxVictims) (begin d walked) m →
        m.dir.gauge.value ≤ budget → t = m) ∧
      ((finish budget maxVictims t).recovered = true ↔ t.dir.gauge.value ≤ budget) := by
  have hruns : Loop.Runs (turn stuck budget now maxVictims) (begin d walked)
      (Loop.run (turn stuck budget now maxVictims) (maxVictims + 1) (begin d walked)) := by
    refine Loop.Runs.of_measure (fun s => maxVictims - s.attempts)
      (fun s m (hs : Inv stuck now d.world s) hgo => ?_) (Inv.begin d walked) ?_
    · obtain ⟨hm, hnext, hlt⟩ := hs.turn hgo
      exact ⟨hm, by omega⟩
    · exact Nat.lt_succ_of_le (Nat.sub_le _ _)
  have hrun : evictLogsDirToBudget stuck budget now maxVictims walked true d =
      (finish budget maxVictims (Loop.run (turn stuck budget now maxVictims) (maxVictims + 1)
        (begin d walked)),
        Loop.run (turn stuck budget now maxVictims) (maxVictims + 1) (begin d walked)) := by
    unfold evictLogsDirToBudget
    rw [if_neg]
    rintro (hzero | hgauge)
    · exact absurd hzero hbudget.ne'
    · cases hgauge
  generalize Loop.run (turn stuck budget now maxVictims) (maxVictims + 1) (begin d walked) = t
    at hruns hrun
  obtain ⟨s, hs, hlast⟩ := hruns.invariant (Inv.begin d walked) fun s m hs hgo =>
    (hs.turn hgo).1
  obtain ⟨⟨b, rfl⟩, hrecovered⟩ := hs.finish hlast
  refine ⟨_, hruns, hrun, fun id hid => ?_, fun id => ⟨fun hmem => ⟨?_, hs.gone id hmem⟩, ?_⟩, ?_,
    fun m hpasses hm => ?_, hrecovered⟩
  · refine hs.kept id (fun hmem => hid ?_) fun hmem => hid ?_
    · obtain ⟨rows, hrows, horder⟩ := hs.first
      rw [horder] at hmem
      obtain ⟨r, hr, rfl⟩ := List.mem_map.mp hmem
      obtain ⟨htask, hev⟩ := mem_evictableTasks.mp (hrows.subset hr)
      exact deletable_of_eligible htask (evictable_iff.mp hev).1
    · obtain ⟨task, htask, helig, -⟩ := hs.skipped id hmem
      exact deletable_of_eligible htask helig
  · obtain ⟨rows, hrows, horder⟩ := hs.first
    rw [horder] at hmem
    obtain ⟨r, hr, rfl⟩ := List.mem_map.mp hmem
    rw [(mem_evictableTasks.mp (hrows.subset hr)).1]
    rfl
  · rintro ⟨hsome, hnone⟩
    refine Decidable.byContradiction fun hmem => ?_
    rw [← hs.task id hmem, hnone] at hsome
    cases hsome
  · obtain ⟨rows, hrows, horder⟩ := hs.first
    show s.order <+: _
    rw [horder]
    exact hrows.map Prod.fst
  · refine hruns.unique (hpasses.runs (.exit ?_))
    unfold turn
    rw [if_pos (.inl hm)]

/-- A task with two bodies of three bytes, and one that is over later. -/
def sampleDir : Dir where
  world :=
    { db :=
        { ServerDb.empty with
          tasks := ⟨[(1, { status := .complete, finishedAt := some 3 }),
            (2, { status := .failed, finishedAt := some 5 })], by decide⟩
          logFiles := ⟨[(⟨1, 10, .log⟩, { status := .complete }),
            (⟨1, 11, .log⟩, { status := .complete }), (⟨2, 12, .log⟩, { status := .complete })],
            by decide⟩ }
      bodies := fun _ => some [1, 2, 3] }
  gauge := ⟨7, 9⟩

/-- The later one is kept. -/
theorem evicts_sampleDir : ∃ t, Loop.Runs (turn (fun _ => false) 7 10 500) (begin sampleDir 9) t ∧
    evictLogsDirToBudget (fun _ => false) 7 10 500 9 true sampleDir = (finish 7 500 t, t) ∧
    (∀ id, ¬ Deletable sampleDir.world.db id → Kept sampleDir.world t.dir.world id) ∧
    (∀ id, id ∈ t.order ↔ (sampleDir.world.db.tasks.get id).isSome = true ∧
      t.dir.world.db.tasks.get id = none) ∧
    t.order <+: (evictableTasks (fun _ => false) 10 sampleDir.world).map Prod.fst ∧
    (∀ m, Loop.Passes (turn (fun _ => false) 7 10 500) (begin sampleDir 9) m →
      m.dir.gauge.value ≤ 7 → t = m) ∧
    ((finish 7 500 t).recovered = true ↔ t.dir.gauge.value ≤ 7) :=
  evicts (fun _ => false) (by decide) 10 500 9 sampleDir

/-- The first task, with no finish time, created when the sweep begins. -/
def unfinishedDir : Dir :=
  sampleDir.setDb { sampleDir.world.db with
    tasks := ⟨[(1, { status := .complete, createdAt := 10 }),
      (2, { status := .failed, finishedAt := some 5 })], by decide⟩ }

/-- Where there is no budget, a sweep does nothing and calls it recovered; a victim
goes with all its bodies, although the gauge is within the budget after the first; and
a task that is not over before the sweep is passed over for one behind it. -/
theorem not_evicts :
    ((evictLogsDirToBudget (fun _ => false) 0 10 500 9 true sampleDir).1.recovered = true ∧
      0 < (evictLogsDirToBudget (fun _ => false) 0 10 500 9 true sampleDir).2.dir.gauge.value) ∧
    ((unlinked (fun _ => false) sampleDir ⟨1, 10, .log⟩).gauge.value ≤ 7 ∧
      (evictLogsDirToBudget (fun _ => false) 7 10 500 9 true sampleDir).2.dir.gauge.value = 3) ∧
    (eligible unfinishedDir.world.db (1, { status := .complete, createdAt := 10 }) = true ∧
      blocked (fun _ => false) unfinishedDir.world 1 = false ∧
      retentionOrder (1, { status := .complete, createdAt := 10 })
        (2, { status := .failed, finishedAt := some 5 }) ∧
      (evictLogsDirToBudget (fun _ => false) 7 10 500 9 true unfinishedDir).2.order = [2]) := by
  decide +kernel

end Eviction

end Dopilot
