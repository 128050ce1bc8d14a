/-
Dopilot/Deletion.lean

Deleting rows and bodies in two phases, over crashes and failing unlinks.

`Retention` takes a cleanup for two commits.  Here it is the program the source
has, one operation at a time: the selections, the commit that marks the logs
expired, one unlink for each body, the look at a body that was not unlinked,
and the commit that deletes the rows.  Any number of cleanups run side by side,
and all of them may stop for good at any operation.

Nothing ever comes back, so a cleanup relies on little: rows of logs are kept,
marked expired or deleted, and bodies vanish (`Shrinks`).

A row outlives its body because the program looks whether the body is still
there.  `os.path.exists` answers no as well when it cannot find out; `Honest`
leaves that out.
-/
import Dopilot.Process
import Dopilot.Retention
import Mathlib

namespace Dopilot

namespace Deletion

/-! ### Operations -/

inductive CleanupError where
  /-- `OSError`. -/
  | os
  /-- Anything else. -/
  | raised
  deriving DecidableEq, Repr

inductive Op where
  /-- `_sealed_terminal_task_ids`. -/
  | selectTasks (cutoff : Time) (only : List TaskId)
  /-- `SELECT … FOR UPDATE` of the tasks. -/
  | lockTasks (ids : List TaskId)
  | countExecutions (ids : List TaskId)
  | selectLogFiles (ids : List TaskId)
  | countOutbox (ids : List TaskId)
  /-- The logs are marked expired, and that is committed. -/
  | expire (ids : List TaskId)
  | aremove (k : LogKey)
  | aexists (k : LogKey)
  /-- The rows are deleted, and that is committed. -/
  | delete (ids : List TaskId)
  deriving DecidableEq, Repr

def Op.Res : Op → Type
  | selectTasks .. => List TaskId
  | countExecutions _ | countOutbox _ => Nat
  | selectLogFiles _ => List (LogKey × ExecutionLogFile)
  | aremove _ | aexists _ => Bool
  | lockTasks _ | expire _ | delete _ => Unit

/-- What the environment decides about an operation. -/
structure Answer where
  fault : Prog.Fault := .none
  error : CleanupError := .raised
  /-- The directory lets the body be unlinked. -/
  unlinks : Bool := true
  /-- The body can be looked at, if it is there. -/
  stats : Bool := true
  deriving DecidableEq, Repr

/-- The committed tables, and the bodies on the disk. -/
structure World where
  db : ServerDb
  bodies : LogKey → Option Bytes

namespace World

/-- The body is unlinked. -/
def unlink (w : World) (k : LogKey) : World :=
  { w with bodies := Function.update w.bodies k none }

/-- The log rows of the tasks. -/
def logFilesOf (w : World) (ids : List TaskId) : List (LogKey × ExecutionLogFile) :=
  w.db.logFiles.rows.filter fun r => r.1.taskId ∈ ids

end World

/-- What an operation does. -/
def perform : (op : Op) → Answer → World → Option (Except CleanupError op.Res × World)
  | .selectTasks cutoff only, x, w =>
      Prog.withFault x.fault x.error w (w.db.sealedTerminalTaskIds (some cutoff) none only []) w
  | .lockTasks _, x, w => Prog.withFault x.fault x.error w () w
  | .countExecutions ids, x, w =>
      Prog.withFault x.fault x.error w
        (w.db.executions.rows.countP fun r => r.2.taskId ∈ ids) w
  | .selectLogFiles ids, x, w => Prog.withFault x.fault x.error w (w.logFilesOf ids) w
  | .countOutbox ids, x, w =>
      Prog.withFault x.fault x.error w (w.db.outbox.rows.countP fun r => r.2.taskId ∈ ids) w
  | .expire ids, x, w =>
      Prog.withFault x.fault x.error w () { w with db := w.db.expireLogs ids }
  | .aremove k, x, w =>
      -- `os.remove` raises on a missing body, and the helper answers no
      let removed := x.unlinks && (w.bodies k).isSome
      Prog.withFault x.fault x.error w removed (if removed then w.unlink k else w)
  | .aexists k, x, w =>
      Prog.withFault x.fault x.error w (x.stats && (w.bodies k).isSome) w
  | .delete ids, x, w =>
      Prog.withFault x.fault x.error w () { w with db := w.db.deleteTasks ids }

def iface : Prog.Interface Op Op.Res (fun _ => Answer) CleanupError World := ⟨perform⟩

/-! ### The program -/

abbrev CleanupProg := Prog Op Op.Res CleanupError

/-- `CleanupSummary`. -/
structure CleanupSummary where
  dryRun : Bool
  cutoff : Time
  tasks : Nat := 0
  executions : Nat := 0
  logFiles : Nat := 0
  logFilesRemoved : Nat := 0
  logBytes : Nat := 0
  commandOutbox : Nat := 0
  deriving DecidableEq, Repr

namespace Op

/-- Perform the operation. -/
abbrev call (op : Op) : CleanupProg op.Res := Prog.call op

/-- Perform the operation and keep its error. -/
abbrev ask (op : Op) : CleanupProg (Except CleanupError op.Res) := Prog.ask op

end Op

open Op (ask call)

/-- What is made of the answer to an unlink: the tasks that failed so far, and how
many bodies were removed. -/
def judgeUnlink (k : LogKey) (failed : List TaskId) (removed : Nat) :
    Except CleanupError Bool → CleanupProg (List TaskId × Nat)
  | .ok true => return (failed, removed + 1)
  | .ok false => do
      -- already gone, or a removal that failed silently
      let left : Bool ← call (.aexists k)
      if left then return (k.taskId :: failed, removed) else return (failed, removed)
  | .error .os => return (k.taskId :: failed, removed)
  | .error .raised => throw .raised

/-- One body: the unlink, and the look at a body that was not unlinked. -/
def unlinkBody (k : LogKey) (failed : List TaskId) (removed : Nat) :
    CleanupProg (List TaskId × Nat) := do
  let unlinked : Except CleanupError Bool ← ask (.aremove k)
  judgeUnlink k failed removed unlinked

/-- The second step. -/
def unlinkBodies (failed : List TaskId) (removed : Nat) :
    List (LogKey × ExecutionLogFile) → CleanupProg (List TaskId × Nat)
  | [] => return (failed, removed)
  | r :: rest => do
      let (failed, removed) ← unlinkBody r.1 failed removed
      unlinkBodies failed removed rest

/-- The counts, and the log rows they were taken from. -/
def summarize (summary : CleanupSummary) (ids : List TaskId) :
    CleanupProg (CleanupSummary × List (LogKey × ExecutionLogFile)) := do
  let executions : Nat ← call (.countExecutions ids)
  let logFiles : List (LogKey × ExecutionLogFile) ← call (.selectLogFiles ids)
  let commandOutbox : Nat ← call (.countOutbox ids)
  return ({ summary with
    tasks := ids.length
    executions := executions
    logFiles := logFiles.length
    logBytes := (logFiles.map fun r => r.2.sizeBytes).sum
    commandOutbox := commandOutbox }, logFiles)

/-- The three steps on the tasks selected. -/
def deleteSelected (summary : CleanupSummary) (ids : List TaskId) : CleanupProg CleanupSummary := do
  call (.lockTasks ids)
  let (summary, logFiles) ← summarize summary ids
  call (.expire ids)
  let (failed, removed) ← unlinkBodies [] 0 logFiles
  let deletable := ids.filter fun t => t ∉ failed
  call (.delete deletable)
  return { summary with tasks := deletable.length, logFilesRemoved := removed }

/-- `cleanup_terminal_data`. -/
def cleanupTerminalData (cutoff : Time) (dryRun : Bool) (only : List TaskId) :
    CleanupProg CleanupSummary := do
  let summary : CleanupSummary := { dryRun := dryRun, cutoff := cutoff }
  let ids : List TaskId ← call (.selectTasks cutoff only)
  if ids = [] then return summary
  else if dryRun then do
    let (summary, _) ← summarize summary ids
    return summary
  else deleteSelected summary ids

/-! ### Cleanups side by side -/

/-- The arguments of a cleanup. -/
structure Request where
  cutoff : Time
  dryRun : Bool := false
  only : List TaskId := []
  deriving DecidableEq, Repr

/-- Cleanups, and nothing else. -/
def spec : Sys.Spec SweepId Op Op.Res (fun _ => Answer) CleanupError World Empty Request where
  iface := iface
  env _ a := nomatch a
  launch _ _ req := some do
    let _ ← cleanupTerminalData req.cutoff req.dryRun req.only
  crash w := w

abbrev State := Sys SweepId Op Op.Res CleanupError World
abbrev Action := Sys.Action SweepId Op (fun _ => Answer) Empty Request
abbrev Cond := Sys.Cond SweepId Op (fun _ => Answer) World Empty Request

def step : State → Action → Option State := Sys.step spec

/-- No cleanup has started. -/
def start (w : World) : State := ⟨w, fun _ => none⟩

/-- A body that is there is found. -/
def Honest : Cond where
  env _ _ := True
  launch _ _ _ := True
  op op x w :=
    match op with
    | .aexists k => (w.bodies k).isSome = true → x.stats = true
    | _ => True
  crash _ := True

/-- Moreover, unlinks and everything else succeed. -/
def Smooth : Cond where
  env _ _ := True
  launch _ _ _ := True
  op _ x _ := x = {}
  crash _ := True

/-! ### What two-phase deletion promises -/

/-- Everything the task had is still there. -/
structure Intact (db₀ db : ServerDb) (t : TaskId) : Prop where
  task : db.tasks.get t = db₀.tasks.get t
  executions : ∀ e x, db₀.executions.get e = some x → x.taskId = t →
    db.executions.get e = some x
  outbox : ∀ c row, db₀.outbox.get c = some row → row.taskId = t → db.outbox.get c = some row
  logFiles : ∀ k f, db₀.logFiles.get k = some f → k.taskId = t → (db.logFiles.get k).isSome

/-- Nothing of the task is there. -/
structure Gone (db : ServerDb) (t : TaskId) : Prop where
  task : db.tasks.get t = none
  executions : ∀ e x, db.executions.get e = some x → x.taskId ≠ t
  outbox : ∀ c row, db.outbox.get c = some row → row.taskId ≠ t
  logFiles : ∀ k f, db.logFiles.get k = some f → k.taskId ≠ t

/-- What holds of the tables and the disk at every moment after `w₀`. -/
structure CrashSafe (w₀ w : World) : Prop where
  /-- A row whose body was deleted is marked. -/
  marked : ∀ k f, w.db.logFiles.get k = some f → (w₀.bodies k).isSome → w.bodies k = none →
    f.status = .expired ∧ f.logIntegrity = .expired
  /-- A row is deleted after its body. -/
  bodiless : ∀ k f, w₀.db.logFiles.get k = some f → w.db.logFiles.get k = none →
    w.bodies k = none
  /-- The rows of a task are deleted together. -/
  together : ∀ t, Intact w₀.db w.db t ∨ Gone w.db t

/-- Of the tasks that were eligible in `w₀`, up to the cutoff of the request,
neither rows nor bodies are left. -/
def Finished (w₀ : World) (req : Request) (w : World) : Prop :=
  ∀ cutoff₀ ≤ req.cutoff, ∀ t ∈ w₀.db.sealedTerminalTaskIds (some cutoff₀) none req.only [],
    Gone w.db t ∧ ∀ k f, w₀.db.logFiles.get k = some f → k.taskId = t → w.bodies k = none

section Facts

variable {w₀ w w' w'' : World} {t : TaskId} {ids : List TaskId} {k : LogKey}

/-! ### Nothing comes back -/

/-- The row of a log, marked expired. -/
def expired (f : ExecutionLogFile) : ExecutionLogFile :=
  { f with status := .expired, logIntegrity := .expired }

/-- Rows and bodies of `w'` are those of `w`, less some; rows of logs may have
been marked. -/
structure Shrinks (w w' : World) : Prop where
  bodies : ∀ k, w'.bodies k = w.bodies k ∨ w'.bodies k = none
  logFiles : ∀ k f', w'.db.logFiles.get k = some f' →
    ∃ f, w.db.logFiles.get k = some f ∧ (f' = f ∨ f' = expired f)
  executions : ∀ e x, w'.db.executions.get e = some x → w.db.executions.get e = some x
  outbox : ∀ c row, w'.db.outbox.get c = some row → w.db.outbox.get c = some row
  tasks : ∀ t task, w'.db.tasks.get t = some task → w.db.tasks.get t = some task

theorem Shrinks.refl (w : World) : Shrinks w w where
  bodies _ := .inl rfl
  logFiles _ f hf := ⟨f, hf, .inl rfl⟩
  executions _ _ h := h
  outbox _ _ h := h
  tasks _ _ h := h

theorem Shrinks.trans (h : Shrinks w w') (h' : Shrinks w' w'') : Shrinks w w'' where
  bodies k := by
    rcases h'.bodies k with hsame | hnone
    · rw [hsame]
      exact h.bodies k
    · exact .inr hnone
  logFiles k f'' hf'' := by
    obtain ⟨f', hf', hmarked'⟩ := h'.logFiles k f'' hf''
    obtain ⟨f, hf, hmarked⟩ := h.logFiles k f' hf'
    refine ⟨f, hf, ?_⟩
    rcases hmarked' with rfl | rfl
    · exact hmarked
    · rcases hmarked with rfl | rfl
      · exact .inr rfl
      · exact .inr rfl
  executions e x hx := h.executions e x (h'.executions e x hx)
  outbox c row hrow := h.outbox c row (h'.outbox c row hrow)
  tasks t task htask := h.tasks t task (h'.tasks t task htask)

/-- A body that is gone stays gone. -/
theorem Shrinks.bodiless (h : Shrinks w w') (hnone : w.bodies k = none) : w'.bodies k = none := by
  rcases h.bodies k with hsame | hgone
  · exact hsame.trans hnone
  · exact hgone

/-- Deleted rows stay deleted. -/
theorem Gone.shrinks (h : Gone w.db t) (hw : Shrinks w w') : Gone w'.db t where
  task := by
    cases htask : w'.db.tasks.get t with
    | none => rfl
    | some task =>
        have hsome := hw.tasks t task htask
        rw [h.task] at hsome
        cases hsome
  executions e x hx := h.executions e x (hw.executions e x hx)
  outbox c row hrow := h.outbox c row (hw.outbox c row hrow)
  logFiles k f' hf' := by
    obtain ⟨f, hf, -⟩ := hw.logFiles k f' hf'
    exact h.logFiles k f hf

/-- The logs of the tasks are marked, as far as they are there. -/
def Marked (ids : List TaskId) (w : World) : Prop :=
  ∀ k f, w.db.logFiles.get k = some f → k.taskId ∈ ids →
    f.status = .expired ∧ f.logIntegrity = .expired

theorem Marked.shrinks (h : Marked ids w) (hw : Shrinks w w') : Marked ids w' := by
  intro k f' hf' hk
  obtain ⟨f, hf, hmarked⟩ := hw.logFiles k f' hf'
  rcases hmarked with rfl | rfl
  · exact h k f' hf hk
  · exact ⟨rfl, rfl⟩

/-- Their bodies are unlinked, but for the tasks that failed and the logs that
are still to be handled. -/
def Unlinked (ids failed : List TaskId) (rest : List LogKey) (w : World) : Prop :=
  ∀ k f, w.db.logFiles.get k = some f → k.taskId ∈ ids → k.taskId ∉ failed →
    k ∈ rest ∨ w.bodies k = none

theorem Unlinked.shrinks {failed : List TaskId} {rest : List LogKey}
    (h : Unlinked ids failed rest w) (hw : Shrinks w w') : Unlinked ids failed rest w' := by
  intro k f' hf' hk hfailed
  obtain ⟨f, hf, -⟩ := hw.logFiles k f' hf'
  exact (h k f hf hk hfailed).imp_right hw.bodiless

/-! ### What each commit and each unlink does -/

/-- What holds of every state: the promise, and that nothing has come back. -/
structure Inv (w₀ w : World) : Prop where
  shrinks : Shrinks w₀ w
  safe : CrashSafe w₀ w

/-- A move of a cleanup. -/
structure Moves (w₀ w w' : World) : Prop where
  shrinks : Shrinks w w'
  safe : CrashSafe w₀ w'

theorem Inv.stays (h : Inv w₀ w) : Moves w₀ w w := ⟨.refl w, h.safe⟩

theorem expireLogs_get (db : ServerDb) (ids : List TaskId) (k : LogKey) :
    (db.expireLogs ids).logFiles.get k = (db.logFiles.get k).map fun f =>
      if k.taskId ∈ ids then expired f else f := Table.get_updateAll ..

theorem Inv.expire (h : Inv w₀ w) (ids : List TaskId) :
    Moves w₀ w { w with db := w.db.expireLogs ids } where
  shrinks :=
    { bodies := fun _ => .inl rfl
      logFiles := fun k f' hf' => by
        rw [expireLogs_get] at hf'
        obtain ⟨f, hf, rfl⟩ := Option.map_eq_some_iff.mp hf'
        refine ⟨f, hf, ?_⟩
        split
        · exact .inr rfl
        · exact .inl rfl
      executions := fun _ _ hx => hx
      outbox := fun _ _ hrow => hrow
      tasks := fun _ _ htask => htask }
  safe :=
    { marked := fun k f' hf' hbody hnone => by
        rw [expireLogs_get] at hf'
        obtain ⟨f, hf, rfl⟩ := Option.map_eq_some_iff.mp hf'
        split
        · exact ⟨rfl, rfl⟩
        · exact h.safe.marked k f hf hbody hnone
      bodiless := fun k f hf hdeleted => by
        rw [expireLogs_get] at hdeleted
        exact h.safe.bodiless k f hf (Option.map_eq_none_iff.mp hdeleted)
      together := fun t => by
        rcases h.safe.together t with hintact | hgone
        · refine .inl ⟨hintact.task, hintact.executions, hintact.outbox, fun k f hf hk => ?_⟩
          rw [expireLogs_get, Option.isSome_map]
          exact hintact.logFiles k f hf hk
        · refine .inr ⟨hgone.task, hgone.executions, hgone.outbox, fun k f' hf' => ?_⟩
          rw [expireLogs_get] at hf'
          obtain ⟨f, hf, -⟩ := Option.map_eq_some_iff.mp hf'
          exact hgone.logFiles k f hf }

theorem marked_expire (w : World) (ids : List TaskId) :
    Marked ids { w with db := w.db.expireLogs ids } := by
  intro k f' hf' hk
  rw [expireLogs_get] at hf'
  obtain ⟨f, -, rfl⟩ := Option.map_eq_some_iff.mp hf'
  rw [if_pos hk]
  exact ⟨rfl, rfl⟩

/-- The body of a marked row may be unlinked. -/
theorem Inv.unlink (h : Inv w₀ w) (hmarked : ∀ f, w.db.logFiles.get k = some f →
    f.status = .expired ∧ f.logIntegrity = .expired) : Moves w₀ w (w.unlink k) where
  shrinks :=
    { Shrinks.refl w with
      bodies := fun k' => by
        by_cases hk : k' = k
        · exact .inr (by rw [hk]; exact Function.update_self ..)
        · exact .inl (Function.update_of_ne hk ..) }
  safe :=
    { marked := fun k' f hf hbody hnone => by
        by_cases hk : k' = k
        · subst hk
          exact hmarked f hf
        · have hsame : (w.unlink k).bodies k' = w.bodies k' := Function.update_of_ne hk ..
          exact h.safe.marked k' f hf hbody (hsame.symm.trans hnone)
      bodiless := fun k' f hf hdeleted => by
        have hnone := h.safe.bodiless k' f hf hdeleted
        by_cases hk : k' = k
        · rw [hk]
          exact Function.update_self ..
        · exact (Function.update_of_ne hk ..).trans hnone
      together := h.safe.together }

theorem unlink_self (w : World) (k : LogKey) : (w.unlink k).bodies k = none :=
  Function.update_self ..

/-- What the second commit leaves. -/
theorem mem_deleteTasks (db : ServerDb) (ids : List TaskId) :
    (∀ k f, (db.deleteTasks ids).logFiles.get k = some f ↔
      db.logFiles.get k = some f ∧ k.taskId ∉ ids) ∧
    (∀ e x, (db.deleteTasks ids).executions.get e = some x ↔
      db.executions.get e = some x ∧ x.taskId ∉ ids) ∧
    (∀ c row, (db.deleteTasks ids).outbox.get c = some row ↔
      db.outbox.get c = some row ∧ row.taskId ∉ ids) ∧
    ∀ t task, (db.deleteTasks ids).tasks.get t = some task ↔
      db.tasks.get t = some task ∧ t ∉ ids := by
  unfold ServerDb.deleteTasks
  refine ⟨fun k f => ?_, fun e x => ?_, fun c row => ?_, fun t task => ?_⟩
  all_goals
    rw [Table.get_filter, Option.filter_eq_some_iff, decide_eq_true_eq]

theorem gone_deleteTasks (db : ServerDb) (ht : t ∈ ids) : Gone (db.deleteTasks ids) t := by
  obtain ⟨hlogs, hexecutions, houtbox, htasks⟩ := mem_deleteTasks db ids
  refine ⟨?_, fun e x hx hxt => ?_, fun c row hrow hrowt => ?_, fun k f hf hkt => ?_⟩
  · cases htask : (db.deleteTasks ids).tasks.get t with
    | none => rfl
    | some task => exact (((htasks t task).mp htask).2 ht).elim
  · exact ((hexecutions e x).mp hx).2 (hxt ▸ ht)
  · exact ((houtbox c row).mp hrow).2 (hrowt ▸ ht)
  · exact ((hlogs k f).mp hf).2 (hkt ▸ ht)

/-- The rows of tasks without bodies may be deleted. -/
theorem Inv.delete (h : Inv w₀ w)
    (hbodies : ∀ k f, w.db.logFiles.get k = some f → k.taskId ∈ ids → w.bodies k = none) :
    Moves w₀ w { w with db := w.db.deleteTasks ids } := by
  obtain ⟨hlogs, hexecutions, houtbox, htasks⟩ := mem_deleteTasks w.db ids
  have hshrinks : Shrinks w { w with db := w.db.deleteTasks ids } :=
    { bodies := fun _ => .inl rfl
      logFiles := fun k f hf => ⟨f, ((hlogs k f).mp hf).1, .inl rfl⟩
      executions := fun e x hx => ((hexecutions e x).mp hx).1
      outbox := fun c row hrow => ((houtbox c row).mp hrow).1
      tasks := fun t task htask => ((htasks t task).mp htask).1 }
  refine ⟨hshrinks, fun k f hf hbody hnone => ?_, fun k f hf hdeleted => ?_, fun t => ?_⟩
  · exact h.safe.marked k f ((hlogs k f).mp hf).1 hbody hnone
  · cases hrow : w.db.logFiles.get k with
    | none => exact h.safe.bodiless k f hf hrow
    | some f' =>
        by_cases hk : k.taskId ∈ ids
        · exact hbodies k f' hrow hk
        · rw [(hlogs k f').mpr ⟨hrow, hk⟩] at hdeleted
          cases hdeleted
  · by_cases ht : t ∈ ids
    · exact .inr (gone_deleteTasks w.db ht)
    rcases h.safe.together t with hintact | hgone
    · refine .inl ⟨?_, fun e x hx hxt => ?_, fun c row hrow hrowt => ?_, fun k f hf hkt => ?_⟩
      · rw [← hintact.task]
        ext task
        rw [htasks]
        exact and_iff_left ht
      · exact (hexecutions e x).mpr ⟨hintact.executions e x hx hxt, hxt ▸ ht⟩
      · exact (houtbox c row).mpr ⟨hintact.outbox c row hrow hrowt, hrowt ▸ ht⟩
      · obtain ⟨f', hf'⟩ := Option.isSome_iff_exists.mp (hintact.logFiles k f hf hkt)
        rw [(hlogs k f').mpr ⟨hf', hkt ▸ ht⟩]
        rfl
    · exact .inr (hgone.shrinks hshrinks)

/-! ### The program keeps the promise -/

variable {K : Cond} {α β : Type}

/-- What a cleanup relies on, and what each of its operations promises. -/
def contract (K : Cond) (w₀ : World) : Prog.Contract Op (fun _ => Answer) World :=
  Sys.contract K (Inv w₀) Shrinks (Moves w₀) Shrinks.trans

/-- `Q` holds of what is returned; under smooth conditions nothing is raised. -/
def Ends (smooth : Prop) (Q : α → World → Prop) : Except CleanupError α → World → Prop
  | .ok a, w => Q a w
  | .error _, _ => ¬ smooth

/-- The conditions a cleanup is verified under. -/
structure Admits (K : Cond) (smooth : Prop) : Prop where
  honest : ∀ op x w, K.op op x w → Honest.op op x w
  smooth : smooth → ∀ op x w, K.op op x w → x = {}

variable {smooth : Prop}

/-- Sequencing. -/
theorem ends_bind {p : CleanupProg α} {f : α → CleanupProg β} {Q : α → World → Prop}
    {Q' : β → World → Prop} (hp : p.Safe iface (contract K w₀) (Ends smooth Q) w)
    (hf : ∀ a w', Q a w' → (f a).Safe iface (contract K w₀) (Ends smooth Q') w') :
    (p >>= f).Safe iface (contract K w₀) (Ends smooth Q') w := by
  refine Prog.safe_bind.mpr (hp.mono fun r w' h => ?_)
  cases r with
  | ok a => exact hf a w' h
  | error e => exact h

/-- Nothing comes back while a cleanup runs. -/
theorem ends_shrinks {p : CleanupProg α} {Q : α → World → Prop}
    (h : p.Safe iface (contract K w₀) (Ends smooth Q) w) :
    p.Safe iface (contract K w₀) (Ends smooth fun a w' => Shrinks w w' ∧ Q a w') w := by
  have htracks := h.tracks (R := Shrinks) Shrinks.trans (fun _ _ hr => hr)
    (fun _ _ hmove => hmove.shrinks) (Shrinks.refl w)
  refine htracks.mono fun r w' hr => ?_
  cases r with
  | ok a => exact ⟨hr.2, hr.1⟩
  | error e => exact hr.1

/-- One operation: what it answers, and what it does unless it fails before. -/
theorem ends_call (hK : Admits K smooth) {op : Op} {f : op.Res → CleanupProg β}
    {Q : β → World → Prop} (value : Answer → World → op.Res) (g : Answer → World → World)
    (hop : ∀ x w, perform op x w = Prog.withFault x.fault x.error w (value x w) (g x w))
    (hg : ∀ x w₁, Shrinks w w₁ → Inv w₀ w₁ → Moves w₀ w₁ (g x w₁))
    (hf : ∀ x w₁, Shrinks w w₁ → Inv w₀ w₁ → K.op op x w₁ →
      (f (value x w₁)).Safe iface (contract K w₀) (Ends smooth Q) (g x w₁)) :
    (Op.call op >>= f).Safe iface (contract K w₀) (Ends smooth Q) w := by
  refine Prog.safe_bind.mpr (Prog.safe_call.mpr fun w₁ hw₁ x r w₂ hx hperf => ?_)
  obtain ⟨hx, hinv⟩ := hx
  have hraised : x.fault ≠ .none → ¬ smooth := fun hfault hs => by
    rw [hK.smooth hs op x w₁ hx] at hfault
    exact hfault rfl
  rcases Prog.withFault_cases ((hop x w₁).symm.trans hperf) with
    ⟨hfault, rfl, rfl⟩ | ⟨hfault, rfl, rfl⟩ | ⟨hfault, rfl, rfl⟩
  · exact ⟨hg x w₁ hw₁ hinv, hf x w₁ hw₁ hinv hx⟩
  · exact ⟨hinv.stays, hraised (by rw [hfault]; decide)⟩
  · exact ⟨hg x w₁ hw₁ hinv, hraised (by rw [hfault]; decide)⟩

/-- An operation that only reads. -/
theorem ends_read (hK : Admits K smooth) {op : Op} {f : op.Res → CleanupProg β}
    {Q : β → World → Prop} (value : Answer → World → op.Res)
    (hop : ∀ x w, perform op x w = Prog.withFault x.fault x.error w (value x w) w)
    (hf : ∀ x w₁, Shrinks w w₁ → K.op op x w₁ →
      (f (value x w₁)).Safe iface (contract K w₀) (Ends smooth Q) w₁) :
    (Op.call op >>= f).Safe iface (contract K w₀) (Ends smooth Q) w :=
  ends_call hK value (fun _ w => w) hop (fun _ _ _ hinv => hinv.stays)
    fun x w₁ hw₁ _ hx => hf x w₁ hw₁ hx

/-- One body: afterwards it is gone, or its task has failed. -/
theorem unlinkBody_safe (hK : Admits K smooth) (failed : List TaskId) (n : Nat)
    (hmarked : ∀ f, w.db.logFiles.get k = some f →
      f.status = .expired ∧ f.logIntegrity = .expired) :
    (unlinkBody k failed n).Safe iface (contract K w₀)
      (Ends smooth fun a w' => Shrinks w w' ∧
        (a.1 = failed ∧ w'.bodies k = none ∨ a.1 = k.taskId :: failed ∧ ¬ smooth)) w := by
  refine Prog.safe_bind.mpr (Prog.safe_ask.mpr fun w₁ hw₁ x a w₂ hx hperf => ?_)
  obtain ⟨hx, hinv⟩ := hx
  have hmarked₁ : ∀ f, w₁.db.logFiles.get k = some f →
      f.status = .expired ∧ f.logIntegrity = .expired := by
    intro f' hf'
    obtain ⟨f, hf, hsame⟩ := hw₁.logFiles k f' hf'
    rcases hsame with rfl | rfl
    · exact hmarked f' hf
    · exact ⟨rfl, rfl⟩
  have hmove : Moves w₀ w₁
      (if (x.unlinks && (w₁.bodies k).isSome) = true then w₁.unlink k else w₁) := by
    split
    · exact hinv.unlink hmarked₁
    · exact hinv.stays
  have hraised : x.fault ≠ .none → ¬ smooth := fun hfault hs => by
    rw [hK.smooth hs _ x w₁ hx] at hfault
    exact hfault rfl
  -- an error fails the task, or the cleanup
  have herror : ∀ {w₂ : World} (e : CleanupError), Shrinks w w₂ → ¬ smooth →
      (judgeUnlink k failed n (.error e)).Safe iface (contract K w₀)
        (Ends smooth fun a w' => Shrinks w w' ∧
          (a.1 = failed ∧ w'.bodies k = none ∨ a.1 = k.taskId :: failed ∧ ¬ smooth)) w₂ := by
    intro w₂ e hw₂ hs
    cases e with
    | os => exact ⟨hw₂, .inr ⟨rfl, hs⟩⟩
    | raised => exact hs
  rcases Prog.withFault_cases hperf with ⟨hfault, rfl, rfl⟩ | ⟨hfault, rfl, rfl⟩ |
    ⟨hfault, rfl, rfl⟩
  · refine ⟨hmove, ?_⟩
    have hshrinks := hw₁.trans hmove.shrinks
    cases hunlinked : x.unlinks && (w₁.bodies k).isSome with
    | true =>
        rw [hunlinked] at hshrinks
        exact ⟨hshrinks, .inl ⟨rfl, unlink_self w₁ k⟩⟩
    | false =>
        refine ends_read hK (fun x w => x.stats && (w.bodies k).isSome) (fun _ _ => rfl)
          fun x' w₃ hw₃ hx' => ?_
        have hshrinks₃ : Shrinks w w₃ := hw₁.trans hw₃
        show Prog.Safe iface _ (if (x'.stats && (w₃.bodies k).isSome) = true then _ else _) _ w₃
        cases hbody : w₃.bodies k with
        | none =>
            rw [Option.isSome_none, Bool.and_false, if_neg Bool.false_ne_true]
            exact ⟨hshrinks₃, .inl ⟨rfl, hbody⟩⟩
        | some body =>
            -- a body that is there is found
            have hstats : x'.stats = true := hK.honest _ x' w₃ hx' (by rw [hbody]; rfl)
            rw [hstats, Option.isSome_some, Bool.and_true, if_pos rfl]
            refine ⟨hshrinks₃, .inr ⟨rfl, fun hs => ?_⟩⟩
            have hunlinks : x.unlinks = true := by rw [hK.smooth hs _ x w₁ hx]
            rw [hunlinks, Bool.true_and, Option.isSome_eq_false_iff,
              Option.isNone_iff_eq_none] at hunlinked
            rw [hw₃.bodiless hunlinked] at hbody
            cases hbody
  · exact ⟨hinv.stays, herror _ hw₁ (hraised (by rw [hfault]; decide))⟩
  · exact ⟨hmove, herror _ (hw₁.trans hmove.shrinks) (hraised (by rw [hfault]; decide))⟩

/-- The second step, from the logs that are still to be handled. -/
theorem unlinkBodies_safe (hK : Admits K smooth) (failed : List TaskId) (n : Nat)
    (rest : List (LogKey × ExecutionLogFile)) (hrest : ∀ r ∈ rest, r.1.taskId ∈ ids)
    (hmarked : Marked ids w) (hunlinked : Unlinked ids failed (rest.map Prod.fst) w) :
    (unlinkBodies failed n rest).Safe iface (contract K w₀)
      (Ends smooth fun a w' => Unlinked ids a.1 [] w' ∧ (smooth → a.1 = failed)) w := by
  induction rest generalizing failed n w with
  | nil => exact ⟨hunlinked, fun _ => rfl⟩
  | cons r rest ih =>
      have htask : r.1.taskId ∈ ids := hrest r (List.mem_cons_self ..)
      have hrest' : ∀ r' ∈ rest, r'.1.taskId ∈ ids := fun r' h => hrest r' (List.mem_cons_of_mem _ h)
      refine ends_bind (unlinkBody_safe hK failed n fun f hf => hmarked r.1 f hf htask) ?_
      rintro ⟨failed', m⟩ w' ⟨hw', hcase⟩
      have hlater : Unlinked ids failed' (rest.map Prod.fst) w' := by
        intro k f hf hk hfailed
        have hkept : k.taskId ∉ failed := by
          rcases hcase with ⟨rfl, -⟩ | ⟨rfl, -⟩
          · exact hfailed
          · exact fun hmem => hfailed (List.mem_cons_of_mem _ hmem)
        rcases hunlinked.shrinks hw' k f hf hk hkept with hmem | hbody
        · rcases List.mem_cons.mp hmem with rfl | hmem
          · rcases hcase with ⟨-, hnone⟩ | ⟨rfl, -⟩
            · exact .inr hnone
            · exact (hfailed (List.mem_cons_self ..)).elim
          · exact .inl hmem
        · exact .inr hbody
      refine (ih failed' m hrest' (hmarked.shrinks hw') hlater).mono fun a w'' h => ?_
      cases a with
      | error e => exact h
      | ok a =>
          refine ⟨h.1, fun hs => ?_⟩
          rcases hcase with ⟨hsame, -⟩ | ⟨-, hsmooth⟩
          · exact (h.2 hs).trans hsame
          · exact (hsmooth hs).elim

theorem summarize_safe (hK : Admits K smooth) (summary : CleanupSummary) (ids : List TaskId) :
    (summarize summary ids).Safe iface (contract K w₀)
      (Ends smooth fun a w' => (∀ r ∈ a.2, r.1.taskId ∈ ids) ∧
        Unlinked ids [] (a.2.map Prod.fst) w') w := by
  refine ends_read hK _ (fun _ _ => rfl) fun _ _ _ _ => ?_
  refine ends_read hK (fun _ w => w.logFilesOf ids) (fun _ _ => rfl) fun _ w₁ _ _ => ?_
  refine ends_read hK _ (fun _ _ => rfl) fun _ w₂ hw₂ _ => ?_
  have hlisted : Unlinked ids [] ((w₁.logFilesOf ids).map Prod.fst) w₁ := by
    intro k f hf hk _
    refine .inl (List.mem_map.mpr ⟨(k, f), ?_, rfl⟩)
    exact List.mem_filter.mpr ⟨Table.mem_rows_iff.mpr hf, decide_eq_true hk⟩
  refine ⟨fun r hr => ?_, hlisted.shrinks hw₂⟩
  exact of_decide_eq_true (List.mem_filter.mp hr).2

/-- The three steps. -/
theorem deleteSelected_safe (hK : Admits K smooth) (summary : CleanupSummary)
    (ids : List TaskId) :
    (deleteSelected summary ids).Safe iface (contract K w₀)
      (Ends smooth fun _ w' => smooth → ∀ t ∈ ids, Gone w'.db t) w := by
  refine ends_read hK _ (fun _ _ => rfl) fun _ _ _ _ => ?_
  refine ends_bind (summarize_safe hK summary ids) ?_
  rintro ⟨summary', logFiles⟩ w₁ ⟨hlogs, hlisted⟩
  refine ends_call hK _ (fun _ w => { w with db := w.db.expireLogs ids }) (fun _ _ => rfl)
    (fun _ _ _ hinv => hinv.expire ids) fun _ w₂ hw₂ hinv₂ _ => ?_
  have hexpire := (hinv₂.expire ids).shrinks
  refine ends_bind (unlinkBodies_safe hK [] 0 logFiles hlogs (marked_expire w₂ ids)
    ((hlisted.shrinks hw₂).shrinks hexpire)) ?_
  rintro ⟨failed, removed⟩ w₃ ⟨hunlinked, hfailed⟩
  refine ends_call hK _ (fun _ w => { w with db := w.db.deleteTasks (ids.filter (· ∉ failed)) })
    (fun _ _ => rfl) (fun _ w₄ hw₄ hinv₄ => hinv₄.delete fun k f hf hk => ?_)
    fun _ w₄ _ _ _ => ?_
  · -- the rows to be deleted have no bodies
    obtain ⟨hids, hkept⟩ := List.mem_filter.mp hk
    rcases hunlinked.shrinks hw₄ k f hf hids (of_decide_eq_true hkept) with hmem | hnone
    · cases hmem
    · exact hnone
  · intro hs t ht
    refine gone_deleteTasks w₄.db (List.mem_filter.mpr ⟨ht, decide_eq_true ?_⟩)
    have hnone : failed = [] := hfailed hs
    rw [hnone]
    exact List.not_mem_nil

theorem mem_sealedTerminalTaskIds (db : ServerDb) (cutoff : Option Time)
    (only exclude : List TaskId) : t ∈ db.sealedTerminalTaskIds cutoff none only exclude ↔
      ∃ task, db.tasks.get t = some task ∧
        db.sealedTerminal cutoff only exclude (t, task) = true := by
  show t ∈ ((db.tasks.rows.filter _).insertionSort retentionOrder).map Prod.fst ↔ _
  constructor
  · intro h
    obtain ⟨⟨t', task⟩, hr, rfl⟩ := List.mem_map.mp h
    obtain ⟨hmem, hsealed⟩ := List.mem_filter.mp ((List.mem_insertionSort _).mp hr)
    exact ⟨task, Table.mem_rows_iff.mp hmem, hsealed⟩
  · rintro ⟨task, htask, hsealed⟩
    refine List.mem_map.mpr ⟨(t, task), (List.mem_insertionSort _).mpr ?_, rfl⟩
    exact List.mem_filter.mpr ⟨Table.mem_rows_iff.mpr htask, hsealed⟩

/-- A task stays eligible until it is deleted. -/
theorem Inv.selected (h : Inv w₀ w) {cutoff₀ cutoff : Time} {only : List TaskId}
    (ht : t ∈ w₀.db.sealedTerminalTaskIds (some cutoff₀) none only []) (hcutoff : cutoff₀ ≤ cutoff) :
    t ∈ w.db.sealedTerminalTaskIds (some cutoff) none only [] ∨ Gone w.db t := by
  rcases h.safe.together t with hintact | hgone
  swap
  · exact .inr hgone
  obtain ⟨task, htask, hsealed⟩ := (mem_sealedTerminalTaskIds ..).mp ht
  refine .inl ((mem_sealedTerminalTaskIds ..).mpr ⟨task, hintact.task.trans htask, ?_⟩)
  unfold ServerDb.sealedTerminal at hsealed ⊢
  simp only [Bool.and_eq_true, Bool.not_eq_true', Option.all_some] at hsealed ⊢
  obtain ⟨⟨⟨⟨⟨hterminal, hclosed⟩, hrecorded⟩, hexcluded⟩, hover⟩, honly⟩ := hsealed
  refine ⟨⟨⟨⟨⟨hterminal, ?_⟩, hrecorded⟩, hexcluded⟩, ?_⟩, honly⟩
  · -- its logs are as they were, or expired
    rw [List.any_eq_false] at hclosed ⊢
    rintro ⟨k, f'⟩ hmem
    obtain ⟨hrow, hk⟩ := List.mem_filter.mp hmem
    obtain ⟨f, hf, hsame⟩ := h.shrinks.logFiles k f' (Table.mem_rows_iff.mp hrow)
    rcases hsame with rfl | rfl
    · exact hclosed (k, f') (List.mem_filter.mpr ⟨Table.mem_rows_iff.mpr hf, hk⟩)
    · exact Bool.false_ne_true
  · unfold Task.overBefore at hover ⊢
    cases hfinished : task.finishedAt with
    | none =>
        rw [hfinished] at hover
        exact decide_eq_true (lt_of_lt_of_le (of_decide_eq_true hover) hcutoff)
    | some finished =>
        rw [hfinished] at hover
        exact decide_eq_true (lt_of_lt_of_le (of_decide_eq_true hover) hcutoff)

/-- `cleanup_terminal_data`. -/
theorem cleanupTerminalData_safe (hK : Admits K smooth) (cutoff : Time) (dryRun : Bool)
    (only : List TaskId) :
    (cleanupTerminalData cutoff dryRun only).Safe iface (contract K w₀)
      (Ends smooth fun _ w' => smooth → dryRun = false → ∀ cutoff₀ ≤ cutoff,
        ∀ t ∈ w₀.db.sealedTerminalTaskIds (some cutoff₀) none only [], Gone w'.db t) w := by
  refine ends_call hK (fun _ w => w.db.sealedTerminalTaskIds (some cutoff) none only [])
    (fun _ w => w) (fun _ _ => rfl) (fun _ _ _ hinv => hinv.stays) fun _ w₁ _ hinv₁ _ => ?_
  have hselected : ∀ cutoff₀ ≤ cutoff,
      ∀ t ∈ w₀.db.sealedTerminalTaskIds (some cutoff₀) none only [],
        t ∈ w₁.db.sealedTerminalTaskIds (some cutoff) none only [] ∨ Gone w₁.db t :=
    fun cutoff₀ hcutoff t ht => hinv₁.selected ht hcutoff
  generalize w₁.db.sealedTerminalTaskIds (some cutoff) none only [] = ids at hselected
  show Prog.Safe iface _ (if ids = [] then _ else if dryRun = true then _ else _) _ w₁
  by_cases hnone : ids = []
  · rw [if_pos hnone]
    intro _ _ cutoff₀ hcutoff t ht
    rcases hselected cutoff₀ hcutoff t ht with hmem | hgone
    · rw [hnone] at hmem
      cases hmem
    · exact hgone
  rw [if_neg hnone]
  cases dryRun with
  | true =>
      rw [if_pos rfl]
      refine ends_bind (summarize_safe hK _ ids) ?_
      rintro ⟨summary, -⟩ w₂ - - hdry
      cases hdry
  | false =>
      rw [if_neg Bool.false_ne_true]
      refine (ends_shrinks (deleteSelected_safe hK _ ids)).mono ?_
      rintro (e | summary) w₂ hend
      · exact hend
      · obtain ⟨hshrinks, hend⟩ := hend
        intro hs _ cutoff₀ hcutoff t ht
        rcases hselected cutoff₀ hcutoff t ht with hmem | hgone
        · exact hend hs t hmem
        · exact hgone.shrinks hshrinks

/-! ### Every run -/

/-- The rows of the tasks that were eligible are gone. -/
def AllGone (w₀ : World) (req : Request) (w : World) : Prop :=
  ∀ cutoff₀ ≤ req.cutoff, ∀ t ∈ w₀.db.sealedTerminalTaskIds (some cutoff₀) none req.only [],
    Gone w.db t

theorem AllGone.shrinks {req : Request} (h : AllGone w₀ req w) (hw : Shrinks w w') :
    AllGone w₀ req w' :=
  fun cutoff₀ hcutoff t ht => (h cutoff₀ hcutoff t ht).shrinks hw

/-- What a started cleanup leaves: with smooth operations, none of the tasks that
were eligible. -/
theorem launch_safe (hK : Admits K smooth) {i : SweepId} {req : Request}
    {p : Prog Op Op.Res CleanupError Unit} (hp : spec.launch w i req = some p) :
    p.Safe iface (contract K w₀) (fun _ w' => smooth → req.dryRun = false →
      AllGone w₀ req w') w := by
  obtain rfl := Option.some.inj hp
  refine Prog.safe_bind.mpr
    ((cleanupTerminalData_safe hK req.cutoff req.dryRun req.only).mono fun r w' h => ?_)
  cases r with
  | ok summary => exact h
  | error e => exact fun hs => (h hs).elim

/-- Cleanups keep the promise, whatever they are started for. -/
def verified (K : Cond) (w₀ : World) (hK : ∀ op x w, K.op op x w → Honest.op op x w) :
    Sys.Verified spec K where
  Inv := Inv w₀
  Idle _ _ := True
  rely _ := Shrinks
  guar _ := Moves w₀
  rely_refl _ := Shrinks.refl
  rely_trans _ := Shrinks.trans
  env_step _ a := nomatch a
  launch_safe w i req p _ _ _ hp := by
    have hadmits : Admits K False := ⟨hK, False.elim⟩
    exact (launch_safe hadmits hp).mono fun _ _ _ => trivial
  guar_step _ w w' hinv hmove := ⟨⟨hinv.shrinks.trans hmove.shrinks, hmove.safe⟩,
    fun _ _ => hmove.shrinks⟩
  idle_stable _ _ _ _ _ := trivial
  crash_step w hinv _ := ⟨hinv, fun _ => trivial⟩

theorem Inv.start (w₀ : World) : Inv w₀ w₀ where
  shrinks := .refl w₀
  safe :=
    { marked := fun k f _ hbody hnone => by
        rw [hnone] at hbody
        cases hbody
      bodiless := fun k f hf hdeleted => by
        rw [hf] at hdeleted
        cases hdeleted
      together := fun t => .inl ⟨rfl, fun _ _ hx _ => hx, fun _ _ hrow _ => hrow,
        fun k f hf _ => by rw [hf]; rfl⟩ }

theorem good_of_run {w₀ : World} {s : State}
    (h : StateMachine.RunOk step Honest.Holds (start w₀) s) :
    (verified Honest w₀ fun _ _ _ hx => hx).Good s :=
  (verified Honest w₀ fun _ _ _ hx => hx).run h ⟨Inv.start w₀, fun _ => trivial⟩

theorem honest_of_smooth {op : Op} {x : Answer} {w : World} (h : Smooth.op op x w) :
    Honest.op op x w := by
  obtain rfl : x = {} := h
  cases op with
  | aexists k => exact fun _ => rfl
  | _ => trivial

theorem honest_weaker : Sys.Cond.Weaker Honest Smooth where
  env _ _ _ := trivial
  launch _ _ _ _ := trivial
  op _ _ _ := honest_of_smooth
  crash _ _ := trivial

/-- What a cleanup with smooth operations leaves once it has come to its end. -/
theorem allGone_of_run {w₀ : World} {s s₁ s₂ : State} {i : SweepId} {req : Request}
    (h : StateMachine.RunOk step Honest.Holds (start w₀) s) (hdry : req.dryRun = false)
    (hstart : step s (.start i req) = some s₁)
    (hrun : StateMachine.RunOk step (Smooth.within i).Holds s₁ s₂) (hend : s₂.procs i = none) :
    AllGone w₀ req s₂.world := by
  have hgood := Sys.Verified.Good.strengthen (good_of_run h) honest_weaker
  have hadmits : Admits Smooth True := ⟨fun _ _ _ => honest_of_smooth, fun _ _ _ _ hx => hx⟩
  have hlaunch : ∀ p, spec.launch s.world i req = some p →
      p.Safe iface (contract Smooth w₀) (fun _ => AllGone w₀ req) s.world :=
    fun p hp => (launch_safe hadmits hp).mono fun r w' h => h trivial hdry
  exact Sys.Verified.ended _ hgood hlaunch (fun w w' hQ hw => hQ.shrinks hw) hstart hrun hend

/-- **Two-phase deletion is crash-safe.** -/
theorem crash_safe (w₀ : World) {s : State}
    (h : StateMachine.RunOk step Honest.Holds (start w₀) s) :
    CrashSafe w₀ s.world ∧ ∀ (i : SweepId) (req : Request) (s₁ s₂ : State),
      req.dryRun = false → step s (.start i req) = some s₁ →
        StateMachine.RunOk step (Smooth.within i).Holds s₁ s₂ → s₂.procs i = none →
          Finished w₀ req s₂.world := by
  refine ⟨(good_of_run h).1.safe, fun i req s₁ s₂ hdry hstart hrun hend => ?_⟩
  have hgone := allGone_of_run h hdry hstart hrun hend
  -- the re-run is a part of the whole run
  have hadmitted : Honest.Holds s (.start i req) := trivial
  have hrest : StateMachine.RunOk step Honest.Holds s s₂ :=
    .head hadmitted hstart (hrun.mono fun s a ha =>
      honest_weaker.holds s a (Sys.Cond.holds_of_within s a ha))
  have hsafe : CrashSafe w₀ s₂.world := (good_of_run (h.trans hrest)).1.safe
  intro cutoff₀ hcutoff t ht
  refine ⟨hgone cutoff₀ hcutoff t ht, fun k f hf hk => hsafe.bodiless k f hf ?_⟩
  cases hrow : s₂.world.db.logFiles.get k with
  | none => rfl
  | some f' => exact ((hgone cutoff₀ hcutoff t ht).logFiles k f' hrow hk).elim

end Facts

/-! ### A body that cannot be looked at -/

instance (w : World) (i : SweepId) (req : Request) : Decidable (Honest.launch w i req) :=
  inferInstanceAs (Decidable True)

instance (w : World) (a : Empty) : Decidable (Honest.env w a) := nomatch a

instance (w : World) : Decidable (Honest.crash w) := inferInstanceAs (Decidable True)

instance : (op : Op) → (x : Answer) → (w : World) → Decidable (Honest.op op x w)
  | .aexists k, x, w => inferInstanceAs (Decidable ((w.bodies k).isSome = true → x.stats = true))
  | .selectTasks .., _, _ => inferInstanceAs (Decidable True)
  | .lockTasks _, _, _ => inferInstanceAs (Decidable True)
  | .countExecutions _, _, _ => inferInstanceAs (Decidable True)
  | .selectLogFiles _, _, _ => inferInstanceAs (Decidable True)
  | .countOutbox _, _, _ => inferInstanceAs (Decidable True)
  | .expire _, _, _ => inferInstanceAs (Decidable True)
  | .aremove _, _, _ => inferInstanceAs (Decidable True)
  | .delete _, _, _ => inferInstanceAs (Decidable True)

instance (w : World) (i : SweepId) (req : Request) : Decidable (Smooth.launch w i req) :=
  inferInstanceAs (Decidable True)

instance (w : World) (a : Empty) : Decidable (Smooth.env w a) := nomatch a

instance (op : Op) (x : Answer) (w : World) : Decidable (Smooth.op op x w) :=
  inferInstanceAs (Decidable (x = {}))

/-- An old task with one log. -/
def sampleWorld : World where
  db := { ServerDb.empty with
    tasks := Table.empty.insert 1 { status := .complete, finishedAt := some 0 }
    logFiles := Table.empty.insert ⟨1, 1, .log⟩ { status := .complete } }
  bodies k := if k = ⟨1, 1, .log⟩ then some [] else none

/-- A cleanup whose unlink fails. -/
def sampleTry (stats : Bool) : List Action :=
  .start 0 ⟨10, false, []⟩ ::
    List.replicate 9 (.op 0 fun _ => { unlinks := false, stats := stats })

/-- The retry of a cleanup whose unlink failed deletes rows and body. -/
theorem crash_safe_sample : ∃ s₂ : State, Finished sampleWorld ⟨10, false, []⟩ s₂.world := by
  have hruns : (((StateMachine.checkedRun step Honest.Holds (start sampleWorld)
      (sampleTry true)).bind fun s => (step s (.start 1 ⟨10, false, []⟩)).bind fun s₁ =>
        StateMachine.checkedRun step (Smooth.within 1).Holds s₁
          (List.replicate 8 (.op 1 fun _ => {}))).any fun s₂ => (s₂.procs 1).isNone) = true := by
    decide +kernel
  obtain ⟨s₂, hs₂, hend⟩ := (Option.any_eq_true _ _).mp hruns
  obtain ⟨s, hs, hs₂⟩ := Option.bind_eq_some_iff.mp hs₂
  obtain ⟨s₁, hs₁, hs₂⟩ := Option.bind_eq_some_iff.mp hs₂
  exact ⟨s₂, (crash_safe sampleWorld (.of_checkedRun hs)).2 1 _ s₁ s₂ rfl hs₁
    (.of_checkedRun hs₂) (Option.isNone_iff_eq_none.mp hend)⟩

/-- **A body that cannot be looked at loses its row.** -/
theorem not_crash_safe : ¬ ∀ (w₀ : World) (s : State),
    StateMachine.Run step (start w₀) s → CrashSafe w₀ s.world := by
  intro h
  have hrun : ((StateMachine.runList step (start sampleWorld) (sampleTry false)).any fun s =>
      (s.world.db.logFiles.get ⟨1, 1, .log⟩).isNone &&
        (s.world.bodies ⟨1, 1, .log⟩).isSome) = true := by
    decide +kernel
  obtain ⟨s, hs, hlost⟩ := (Option.any_eq_true _ _).mp hrun
  rw [Bool.and_eq_true, Option.isNone_iff_eq_none] at hlost
  have hnone := (h sampleWorld s (.of_runList hs)).bodiless ⟨1, 1, .log⟩ _ rfl hlost.1
  rw [hnone] at hlost
  cases hlost.2

end Deletion

end Dopilot
