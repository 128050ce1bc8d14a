/-
Dopilot/Cleanups.lean

The cleanup of a finished execution.

The drain pass closes the log file of an execution that is over, once the drain
window has passed, and puts a cleanup command into the outbox with it: the
command exists because the log file left its open state.  But the recorder of
outcomes closes log files too, and without a command, and a cancel withdraws
every command of its task that was not sent, whatever its type.

`Orderly` are the runs in which the recorder closes no open log file and a
cancel meets no cleanup that is still to be sent.  In these a log file is closed
exactly if its execution has a cleanup (`Inv.logs`), and `cleaned_up` follows.
-/
import Dopilot.Outcomes
import Dopilot.Reclaims

namespace Dopilot

open StateMachine

/-! ### The drain pass -/

namespace ServerDb

/-- The open log files of terminal executions, with the executions as loaded. -/
def drainable (db : ServerDb) : List (LogKey × Execution) :=
  db.logFiles.rows.filterMap fun r =>
    (db.executions.get r.1.executionId).bind fun x =>
      if x.status.terminal ∧ r.2.status.writable then some (r.1, x) else none

/-- Is the window over, and may the execution be cleaned up? -/
def drained (db : ServerDb) (drain now : Time) (r : LogKey × Execution) : Bool :=
  r.2.finishedAt.any (fun finished => drain ≤ now - finished)
    && (r.2.status != .lost || db.reclaimEverIssued r.1.executionId)

/-- A log file is complete. -/
def completeLog (db : ServerDb) (k : LogKey) : ServerDb :=
  { db with logFiles := db.logFiles.modify k fun f =>
      { f with status := .complete, finalOffset := some f.sizeBytes } }

/-- One log file of a pass. -/
def finalizeLog (drain now : Time) (db : ServerDb) (r : LogKey × Execution) : ServerDb :=
  if db.drained drain now r then
    (db.completeLog r.1).createCleanupOutbox now r.1.taskId r.1.executionId r.2.agentId
  else db

/-- `finalize_drained_logs`. -/
def finalizeDrainedLogs (db : ServerDb) (drain now : Time) : ServerDb :=
  db.drainable.foldl (finalizeLog drain now) db

end ServerDb

namespace Cleanups

open Dispatch (Extends Adds Write Session)

/-! ### The machine -/

structure State where
  sys : Dispatch.State
  /-- The cleanups that were sent, or given up, at some time. -/
  settled : List CommandId

def State.start : State := ⟨.start, []⟩

inductive Action where
  /-- A step of a session, or of a writer. -/
  | session (a : Dispatch.Action)
  /-- One execution of a reconcile pass, as the pass loaded it. -/
  | reconcile (settings : AgentsSettings) (held : HeldRows) (now : Time) (lastSeen : Option Time)
      (e : ExecutionId) (x : Execution)
  /-- The drain pass of a reconcile tick. -/
  | finalize (drain now : Time)
  /-- A tick of the recorder. -/
  | record (settings : OutcomeSettings) (limit : Nat) (now : Time)

/-- A cleanup that was sent, or given up. -/
def settles (row : CommandOutbox) : Bool :=
  row.type == .cleanupLogs && (row.status == .sent || row.status == .failed)

/-- The next state, and what has settled by then. -/
def State.note (s : State) (sys : Dispatch.State) : State where
  sys := sys
  settled := s.settled ++
    (sys.db.outbox.rows.filter fun r => settles r.2).map Prod.fst

/-- The step of the system.  Cleanups are issued by the drain pass only. -/
def sysStep (s : Dispatch.State) : Action → Option Dispatch.State
  | .session (.issue row) =>
      if row.type = .cleanupLogs then none else Dispatch.step s (.issue row)
  | .session a => Dispatch.step s a
  | .reconcile settings held now lastSeen e x =>
      some { s with db := s.db.reconcileExecution settings held now lastSeen e x }
  | .finalize drain now => some { s with db := s.db.finalizeDrainedLogs drain now }
  | .record settings limit now =>
      some { s with db := s.db.recordTaskOutcomes settings limit now }

/-- One step. -/
def step (s : State) (a : Action) : Option State := (sysStep s.sys a).map s.note

/-- A tick of the recorder closes no open log file. -/
def SealsNothing (db : ServerDb) (settings : OutcomeSettings) (limit : Nat) (now : Time) : Prop :=
  ∀ t ∈ db.candidates limit, ∀ task, db.tasks.get t = some task →
    db.ready settings now (t, task) = true →
      (db.taskLogFiles t).any (fun f => f.2.status.writable) = false

/-- Every cleanup of the task that is not resolved was sent, or given up, before. -/
def WithdrawsNoCleanup (s : State) (t : TaskId) : Prop :=
  ∀ r ∈ s.sys.db.outbox.rows, r.2.taskId = t → r.2.type = .cleanupLogs →
    r.2.status.unresolved = true → r.1 ∈ s.settled

def Orderly (s : State) : Action → Prop
  | .session (.cancel _ t) => WithdrawsNoCleanup s t
  | .record settings limit now => SealsNothing s.sys.db settings limit now
  | _ => True

/-! ### Log files and cleanups -/

/-- Is the log file open? -/
def logOpen (db : ServerDb) (k : LogKey) : Option Bool :=
  (db.logFiles.get k).map fun f => f.status.writable

/-- The task of an execution. -/
def owner (db : ServerDb) (e : ExecutionId) : Option TaskId := (db.execStatus e).map Prod.fst

/-- A cleanup of the execution. -/
def IsCleanup (e : ExecutionId) (row : CommandOutbox) : Prop :=
  row.executionId = e ∧ row.type = .cleanupLogs

/-- The execution has a cleanup. -/
def CleanedUp (db : ServerDb) (e : ExecutionId) : Prop :=
  ∃ c row, db.outbox.get c = some row ∧ IsCleanup e row

/-- Executions stay with their tasks, log files stay open or closed, and no
cleanup is issued. -/
structure Frame (db db' : ServerDb) : Prop where
  owner : ∀ e, owner db' e = owner db e
  logs : ∀ k, logOpen db' k = logOpen db k
  outbox : Extends (fun row => row.type ≠ .cleanupLogs) db db'

section Frames

variable {db db' : ServerDb} {s s' : Dispatch.State} {e : ExecutionId} {c : CommandId}

theorem owner_onward (h : db.Onward db') (e : ExecutionId) : owner db' e = owner db e := by
  unfold owner
  rcases he : db.execStatus e with - | ⟨t, st⟩
  · rcases he' : db'.execStatus e with - | ⟨t', st'⟩
    · rfl
    · obtain ⟨st₀, hst₀, -⟩ := h.source he'
      rw [he] at hst₀
      cases hst₀
  · obtain ⟨st', he', -⟩ := h.target he
    rw [he']
    rfl

theorem logOpen_congr (h : db'.logFiles = db.logFiles) (k : LogKey) :
    logOpen db' k = logOpen db k := by
  unfold logOpen
  rw [h]

/-! What writers do to log files. -/

theorem applyEvent_logFiles (db : ServerDb) (now : Time) (ev : AgentEvent) (msg : MessageId) :
    (db.applyEvent now ev msg).1.logFiles = db.logFiles := by
  have hlife : ∀ new x, (db.applyLifecycle now ev msg new x).1.logFiles = db.logFiles := by
    intro new x
    unfold ServerDb.applyLifecycle ServerDb.requestReclaim
    dsimp only
    split
    · split
      · rfl
      · rfl
    · rfl
  have hbeat : ∀ x, (db.applyHeartbeat now ev msg x).1.logFiles = db.logFiles := by
    intro x
    unfold ServerDb.applyHeartbeat
    dsimp only
    split
    · split
      · rfl
      · rfl
    · rfl
  unfold ServerDb.applyEvent
  split
  · split
    · rfl
    · exact hbeat _
  · split
    · rfl
    · split
      · rfl
      · exact hlife _ _

/-- A log file that is drained stays open. -/
theorem markLost_logOpen (db : ServerDb) (held : HeldRows) (e : ExecutionId)
    (reason : ExecLostReason) (now : Time) (k : LogKey) :
    logOpen (db.markLost held e reason now).1 k = logOpen db k := by
  have hdrain : ∀ f : ExecutionLogFile, f.drain.status.writable = f.status.writable := by
    intro f
    unfold ExecutionLogFile.drain
    split
    · rename_i h
      rw [h]
      rfl
    · rfl
  unfold ServerDb.markLost
  split
  · rfl
  · rename_i x _
    dsimp only
    split
    · rfl
    · show Option.map _ ((db.logFiles.modify ⟨x.taskId, e, .log⟩ (·.drain)).get k) = _
      rw [Table.get_modify]
      split
      · rename_i hk
        subst hk
        rw [Option.map_map]
        unfold logOpen
        congr 1
        funext f
        exact hdrain f
      · rfl

theorem markExecutionsLost_logOpen (now : Time) (l : List (ExecutionId × Execution))
    (db : ServerDb) (k : LogKey) :
    logOpen (ServerDb.markExecutionsLost now l db) k = logOpen db k := by
  induction l generalizing db with
  | nil => rfl
  | cons r l ih => exact (ih _).trans (markLost_logOpen db _ _ _ _ k)

theorem writer_logOpen (db : ServerDb) (w : Writer) (k : LogKey) :
    logOpen (w.apply db) k = logOpen db k := by
  cases w with
  | applyEvent now ev msg => exact logOpen_congr (applyEvent_logFiles db now ev msg) k
  | markLost now held e reason => exact markLost_logOpen db held e reason now k
  | dispatchTimeout now t e => rfl
  | repairOrphanedTask now settings held t =>
      show logOpen (db.repairOrphanedTask settings held now t) k = _
      rcases ServerDb.repairOrphanedTask_cases db settings held now t with h | ⟨task, f, -, -, h⟩
      · rw [h]
      · rw [h]
        rfl
  | markTaskLost now t =>
      show logOpen (db.markTaskLost now t) k = _
      unfold ServerDb.markTaskLost
      split
      · rfl
      · split
        · rfl
        · exact markExecutionsLost_logOpen now _ db k

theorem applyWrites_logFiles (db : ServerDb) (ws : List Write) :
    (Dispatch.applyWrites db ws).logFiles = db.logFiles := by
  induction ws generalizing db with
  | nil => rfl
  | cons w ws ih =>
      refine (ih (w.apply db)).trans ?_
      cases w with
      | row c loaded new => rfl
      | timeout now t e => rfl

theorem requestCancel_logFiles (db : ServerDb) (now : Time) (t : TaskId) :
    (db.requestCancel now t).logFiles = db.logFiles := by
  have hstops : ∀ (l : List (ExecutionId × Execution)) (db : ServerDb),
      (l.foldl (fun db r => db.createStopOutbox now .cancel t r.1 r.2.agentId) db).logFiles =
        db.logFiles := by
    intro l
    induction l with
    | nil => exact fun db => rfl
    | cons r l ih => exact fun db => ih _
  exact hstops _ _

/-! ### Frames -/

/-- A step of the sessions, other than the creation of a task. -/
theorem session_frame {a : Dispatch.Action} (h : Dispatch.step s a = some s')
    (hcreate : ∀ now t task taskType payload nodes, a ≠ .create now t task taskType payload nodes)
    (hissue : ∀ row, a = .issue row → row.type ≠ .cleanupLogs) : Frame s.db s'.db where
  owner := by
    intro e
    cases Dispatch.step_cases h with
    | @write w _ => exact owner_onward (w.apply_onward s.db).1 e
    | issue _ _ _ => rfl
    | noTarget _ => exact absurd rfl (hcreate _ _ _ _ _ _)
    | create _ _ _ _ => exact absurd rfl (hcreate _ _ _ _ _ _)
    | @cancel now t =>
        show (ServerDb.execStatus (s.db.requestCancel now t) e).map Prod.fst = owner s.db e
        rw [(Dispatch.requestCancel_spec s.db now t).2.1]
        rfl
    | tick _ _ _ _ _ => rfl
    | refresh _ _ => rfl
    | sent _ _ _ => rfl
    | raised _ _ => rfl
    | giveUp _ _ => rfl
    | @commit i now held x db _ hcommit =>
        have hview : owner (x.view s.db) e = owner s.db e :=
          owner_onward Dispatch.applyWrites_onward e
        cases Dispatch.Session.committed hcommit with
        | done _ _ _ => exact hview
        | unavailable _ _ _ _ _ =>
            rw [← hview]
            unfold owner
            rw [Dispatch.failDispatchUnavailable_execStatus, Option.map_map]
            rfl
    | abort => rfl
    | vanish => rfl
  logs := by
    intro k
    cases Dispatch.step_cases h with
    | @write w _ => exact writer_logOpen s.db w k
    | issue _ _ _ => rfl
    | noTarget _ => exact absurd rfl (hcreate _ _ _ _ _ _)
    | create _ _ _ _ => exact absurd rfl (hcreate _ _ _ _ _ _)
    | @cancel now t => exact logOpen_congr (requestCancel_logFiles s.db now t) k
    | tick _ _ _ _ _ => rfl
    | refresh _ _ => rfl
    | sent _ _ _ => rfl
    | raised _ _ => rfl
    | giveUp _ _ => rfl
    | @commit i now held x db _ hcommit =>
        have hview : logOpen (x.view s.db) k = logOpen s.db k :=
          logOpen_congr (applyWrites_logFiles s.db x.writes) k
        cases Dispatch.Session.committed hcommit with
        | done _ _ _ => exact hview
        | unavailable _ _ _ _ _ => exact hview
    | abort => rfl
    | vanish => rfl
  outbox := by
    refine (Dispatch.step_extends h).mono fun row hrow => ?_
    cases a with
    | write w =>
        cases w with
        | applyEvent now ev msg =>
            rw [(show Dispatch.IsReclaim ev.executionId row from hrow).2.1]
            simp
        | markLost | dispatchTimeout | repairOrphanedTask | markTaskLost => exact hrow.elim
    | issue row' =>
        obtain rfl : row = row' := hrow
        exact hissue row rfl
    | create => exact absurd rfl (hcreate _ _ _ _ _ _)
    | cancel =>
        rw [(show row.type = .stop ∧ _ from hrow).1]
        simp
    | tick | refresh | append | giveUp | commit | abort | vanish => exact hrow.elim

end Frames

/-! ### The invariant of the tables -/

/-- A log file is open exactly as long as its execution has no cleanup, and no
execution has two. -/
structure Tidy (db : ServerDb) : Prop where
  keys : ∀ k b, logOpen db k = some b → k.stream = .log ∧ owner db k.executionId = some k.taskId
  logs : ∀ e t, owner db e = some t →
    ∃ b, logOpen db ⟨t, e, .log⟩ = some b ∧ (b = false ↔ CleanedUp db e)
  one : ∀ c₁ row₁ c₂ row₂ e, db.outbox.get c₁ = some row₁ → db.outbox.get c₂ = some row₂ →
    IsCleanup e row₁ → IsCleanup e row₂ → c₁ = c₂
  owned : ∀ e, CleanedUp db e → ∃ t, owner db e = some t
  fresh : ∀ c row, db.outbox.get c = some row → c < db.nextCommand

section Tidy

variable {db db' : ServerDb} {s s' : Dispatch.State} {e : ExecutionId} {c : CommandId}

theorem IsCleanup.same {row row' : CommandOutbox} (h : IsCleanup e row)
    (hsame : Dispatch.SameCommand row row') : IsCleanup e row' :=
  ⟨hsame.executionId.trans h.1, hsame.type.trans h.2⟩

/-- The cleanups of a step that issues none. -/
theorem Frame.cleanup (h : Frame db db') {row' : CommandOutbox} (hrow' : db'.outbox.get c = some row')
    (hclean : IsCleanup e row') : ∃ row, db.outbox.get c = some row ∧ IsCleanup e row := by
  rcases h.outbox.source c row' hrow' with ⟨row, hrow, hsame⟩ | ⟨-, hnew⟩
  · exact ⟨row, hrow, IsCleanup.same hclean hsame.symm⟩
  · exact absurd hclean.2 hnew

theorem Frame.cleanedUp (h : Frame db db') (e : ExecutionId) :
    CleanedUp db' e ↔ CleanedUp db e := by
  constructor
  · rintro ⟨c, row', hrow', hclean⟩
    obtain ⟨row, hrow, hclean⟩ := h.cleanup hrow' hclean
    exact ⟨c, row, hrow, hclean⟩
  · rintro ⟨c, row, hrow, hclean⟩
    obtain ⟨row', hrow', hsame⟩ := h.outbox.keeps c row hrow
    exact ⟨c, row', hrow', IsCleanup.same hclean hsame⟩

/-- **Other steps** keep it. -/
theorem Tidy.framed (h : Tidy db) (hframe : Frame db db') : Tidy db' where
  keys k b hk := by
    rw [hframe.logs] at hk
    rw [hframe.owner]
    exact h.keys k b hk
  logs e t he := by
    rw [hframe.owner] at he
    rw [hframe.logs, hframe.cleanedUp]
    exact h.logs e t he
  one c₁ row₁ c₂ row₂ e hrow₁ hrow₂ hclean₁ hclean₂ := by
    obtain ⟨row₁', hrow₁', hclean₁'⟩ := hframe.cleanup hrow₁ hclean₁
    obtain ⟨row₂', hrow₂', hclean₂'⟩ := hframe.cleanup hrow₂ hclean₂
    exact h.one c₁ row₁' c₂ row₂' e hrow₁' hrow₂' hclean₁' hclean₂'
  owned e he := by
    rw [hframe.owner]
    exact h.owned e ((hframe.cleanedUp e).mp he)
  fresh := hframe.outbox.fresh h.fresh

theorem Tidy.empty : Tidy .empty where
  keys k b hk := by cases hk
  logs e t he := by cases he
  one c₁ row₁ c₂ row₂ e hrow₁ := by cases hrow₁
  owned e he := by
    obtain ⟨c, row, hrow, -⟩ := he
    cases hrow
  fresh c row hrow := by cases hrow

/-! A task is created. -/

/-- A new execution has an open log file, and no cleanup. -/
theorem Tidy.createExecution (h : Tidy db) (now : Time) (t : TaskId) (taskType : RunnerType)
    (payload : CommandPayload) {node : ExecutionId × AgentId}
    (hnew : db.executions.get node.1 = none) :
    Tidy (db.createExecution now t taskType payload node) := by
  have hadds : Adds (Dispatch.NewRun t [node.1]) db
      (db.createExecution now t taskType payload node) := Dispatch.createExecution_adds node
  have hnone : owner db node.1 = none := by
    unfold owner ServerDb.execStatus
    rw [hnew]
    rfl
  have howner : ∀ e, owner (db.createExecution now t taskType payload node) e =
      if e = node.1 then some t else owner db e := by
    intro e
    unfold owner
    rw [Dispatch.createExecution_execStatus now t taskType payload hnew]
    split
    · rfl
    · rfl
  have hfree : db.logFiles.get ⟨t, node.1, .log⟩ = none := by
    rcases hf : db.logFiles.get ⟨t, node.1, .log⟩ with - | f
    · rfl
    · have hopen : logOpen db ⟨t, node.1, .log⟩ = some f.status.writable := by
        unfold logOpen
        rw [hf]
        rfl
      have hown := (h.keys _ _ hopen).2
      rw [hnone] at hown
      cases hown
  have hlogs : ∀ k, logOpen (db.createExecution now t taskType payload node) k =
      if k = ⟨t, node.1, .log⟩ then some true else logOpen db k := by
    intro k
    show Option.map _ ((db.logFiles.insert ⟨t, node.1, .log⟩ {}).get k) = _
    rw [Table.get_insert _ _ hfree]
    split
    · rfl
    · rfl
  have hclean : ∀ {c row e}, (db.createExecution now t taskType payload node).outbox.get c =
      some row → IsCleanup e row → db.outbox.get c = some row := by
    intro c row e hrow hclean
    refine (hadds.adds c row hrow).resolve_right fun hnewrow => ?_
    have hrun := hnewrow.2.1
    rw [hclean.2] at hrun
    cases hrun
  have hcleaned : ∀ e, CleanedUp (db.createExecution now t taskType payload node) e ↔
      CleanedUp db e := by
    intro e
    constructor
    · rintro ⟨c, row, hrow, hc⟩
      exact ⟨c, row, hclean hrow hc, hc⟩
    · rintro ⟨c, row, hrow, hc⟩
      exact ⟨c, row, hadds.keeps c row hrow, hc⟩
  constructor
  · intro k b hk
    rw [hlogs] at hk
    rw [howner]
    by_cases hkey : k = ⟨t, node.1, .log⟩
    · subst hkey
      exact ⟨rfl, if_pos rfl⟩
    · rw [if_neg hkey] at hk
      obtain ⟨hstream, hown⟩ := h.keys k b hk
      refine ⟨hstream, ?_⟩
      rw [if_neg]
      · exact hown
      · intro he
        rw [he, hnone] at hown
        cases hown
  · intro e t' he
    rw [howner] at he
    rw [hcleaned, hlogs]
    by_cases hn : e = node.1
    · rw [if_pos hn] at he
      obtain rfl := Option.some.inj he
      subst hn
      refine ⟨true, if_pos rfl, ?_⟩
      refine iff_of_false (by simp) fun hc => ?_
      obtain ⟨t', ht'⟩ := h.owned _ hc
      rw [hnone] at ht'
      cases ht'
    · rw [if_neg hn] at he
      rw [if_neg fun hk => hn (congrArg LogKey.executionId hk)]
      exact h.logs e t' he
  · intro c₁ row₁ c₂ row₂ e hrow₁ hrow₂ hc₁ hc₂
    exact h.one c₁ row₁ c₂ row₂ e (hclean hrow₁ hc₁) (hclean hrow₂ hc₂) hc₁ hc₂
  · intro e he
    obtain ⟨t', ht'⟩ := h.owned e ((hcleaned e).mp he)
    rw [howner]
    split
    · exact ⟨t, rfl⟩
    · exact ⟨t', ht'⟩
  · exact hadds.fresh h.fresh

theorem Tidy.createTask (h : Tidy db) (now : Time) (t : TaskId) (task : Task)
    (taskType : RunnerType) (payload : CommandPayload) {nodes : List (ExecutionId × AgentId)}
    (hnew : ∀ n ∈ nodes, db.executions.get n.1 = none) (hnodup : (nodes.map Prod.fst).Nodup) :
    Tidy (db.createTask now t task taskType payload nodes) := by
  have hall : ∀ (nodes : List (ExecutionId × AgentId)) (db : ServerDb), Tidy db →
      (∀ n ∈ nodes, db.executions.get n.1 = none) → (nodes.map Prod.fst).Nodup →
      Tidy (nodes.foldl (fun db node => db.createExecution now t taskType payload node) db) := by
    intro nodes
    induction nodes with
    | nil => exact fun _ hdb _ _ => hdb
    | cons n nodes ih =>
        intro db hdb hnew hnodup
        exact ih _ (hdb.createExecution now t taskType payload (hnew n List.mem_cons_self))
          (Dispatch.createExecution_new now t taskType payload hnew hnodup)
          (List.nodup_cons.mp hnodup).2
  have htasks : ∀ task' : Task, Tidy { db with tasks := db.tasks.insert t task' } := fun _ =>
    h.framed ⟨fun _ => rfl, fun _ => rfl, .of_outbox rfl rfl⟩
  unfold ServerDb.createTask
  dsimp only
  split
  · exact htasks _
  · exact hall nodes _ (htasks _) hnew hnodup

/-! The recorder. -/

/-- The log files of the task are closed. -/
def Closed (db : ServerDb) (t : TaskId) : Prop :=
  ∀ k : LogKey, k.taskId = t → logOpen db k ≠ some true

theorem Closed.of_files {t : TaskId}
    (h : (db.taskLogFiles t).any (fun f => f.2.status.writable) = false) : Closed db t := by
  intro k hk hopen
  obtain ⟨f, hf, hwritable⟩ := Option.map_eq_some_iff.mp hopen
  have hmem : (k, f) ∈ db.taskLogFiles t :=
    List.mem_filter.mpr ⟨Table.mem_rows_iff.mpr hf, decide_eq_true hk⟩
  exact List.any_eq_false.mp h (k, f) hmem hwritable

/-- What the recorder leaves alone. -/
structure Untouched (db db' : ServerDb) : Prop where
  executions : db'.executions = db.executions
  outbox : db'.outbox = db.outbox
  nextCommand : db'.nextCommand = db.nextCommand
  logs : ∀ k, logOpen db' k = logOpen db k

theorem Untouched.frame (h : Untouched db db') : Frame db db' where
  owner e := by
    unfold owner
    rw [ServerDb.execStatus_congr h.executions]
  logs := h.logs
  outbox := .of_outbox h.outbox h.nextCommand

/-- Recording a task whose log files are closed. -/
theorem recordTask_untouched {settings : OutcomeSettings} {now : Time} {t : TaskId}
    (h : ∀ task, db.tasks.get t = some task → ServerDb.unrecorded (t, task) = true →
      db.ready settings now (t, task) = true → Closed db t) :
    Untouched db (ServerDb.recordTask settings now db t) := by
  rcases ServerDb.recordTask_cases settings now db t with
    ⟨hsame, -⟩ | ⟨task, f, htask, hun, hready, -, hrec⟩
  · rw [hsame]
    exact ⟨rfl, rfl, rfl, fun _ => rfl⟩
  · have hclosed := h task htask hun hready
    rw [hrec]
    refine ⟨rfl, rfl, rfl, fun k => ?_⟩
    show Option.map _ ((db.logFiles.updateAll _).get k) = _
    rw [Table.get_updateAll, Option.map_map]
    unfold logOpen
    rcases hf : db.logFiles.get k with - | f
    · rfl
    · show some _ = some f.status.writable
      congr 1
      dsimp only [Function.comp_apply]
      rw [if_neg]
      rintro ⟨hk, hwritable⟩
      refine hclosed k hk ?_
      unfold logOpen
      rw [hf]
      exact congrArg some hwritable

/-- **A tick of the recorder** that closes no log file. -/
theorem record_untouched {settings : OutcomeSettings} {limit : Nat} {now : Time}
    (h : SealsNothing db settings limit now) :
    Untouched db (db.recordTaskOutcomes settings limit now) := by
  have hall : ∀ (l : List TaskId) (db : ServerDb), (∀ t ∈ l, ∀ task, db.tasks.get t = some task →
      ServerDb.unrecorded (t, task) = true → db.ready settings now (t, task) = true →
        Closed db t) → Untouched db (l.foldl (ServerDb.recordTask settings now) db) := by
    intro l
    induction l with
    | nil => exact fun db _ => ⟨rfl, rfl, rfl, fun _ => rfl⟩
    | cons t l ih =>
        intro db hl
        have hone := recordTask_untouched (hl t List.mem_cons_self)
        have hrest := ih (ServerDb.recordTask settings now db t) fun t' ht' task htask hun hready => by
          -- the task was there before, and as ready as it is
          have hmem := Table.mem_rows_iff.mpr htask
          have hrow := List.mem_filter.mpr ⟨hmem, hun⟩
          rw [ServerDb.recordTask_rows] at hrow
          have hold := (List.mem_filter.mp (List.mem_filter.mp hrow).1).1
          rw [ServerDb.recordTask_ready settings now db t now hmem hun] at hready
          have hclosed := hl t' (List.mem_cons_of_mem _ ht') task (Table.mem_rows_iff.mp hold) hun
            hready
          intro k hk
          rw [hone.logs]
          exact hclosed k hk
        exact ⟨hrest.executions.trans hone.executions, hrest.outbox.trans hone.outbox,
          hrest.nextCommand.trans hone.nextCommand, fun k => (hrest.logs k).trans (hone.logs k)⟩
  exact hall _ db fun t ht task htask _ hready => .of_files (h t ht task htask hready)

/-! The reconcile pass. -/

/-- A stop that a reconcile pass issues. -/
def NewStop (row : CommandOutbox) : Prop := row.type = .stop ∧ row.status = .pending

/-- **What a reconcile pass leaves**: log files, and rows beside new stops. -/
theorem reconcileExecution_leaves (db : ServerDb) (settings : AgentsSettings) (held : HeldRows)
    (now : Time) (lastSeen : Option Time) (e : ExecutionId) (x : Execution) :
    Adds NewStop db (db.reconcileExecution settings held now lastSeen e x) ∧
      (∀ e', owner (db.reconcileExecution settings held now lastSeen e x) e' = owner db e') ∧
      ∀ k, logOpen (db.reconcileExecution settings held now lastSeen e x) k = logOpen db k := by
  have hstop : ∀ (db₁ : ServerDb) (intent : StopIntent), Adds NewStop db₁
      (db₁.createStopOutbox now intent x.taskId e x.agentId) := fun _ _ => .of_addOutbox ⟨rfl, rfl⟩
  have hcases := Reclaims.reconcileExecution_cases db settings held now lastSeen e x
  generalize db.reconcileExecution settings held now lastSeen e x = db₂ at hcases ⊢
  cases hcases with
  | lost reason =>
      exact ⟨Dispatch.markLost_adds, owner_onward ServerDb.markLost_onward,
        markLost_logOpen db held e reason now⟩
  | reclaimed _ =>
      exact ⟨Dispatch.markLost_adds.trans (hstop _ _), owner_onward ServerDb.markLost_onward,
        markLost_logOpen db held e _ now⟩
  | marked hmarks =>
      exact ⟨.of_outbox hmarks.outbox hmarks.nextCommand, owner_onward hmarks.onward,
        logOpen_congr hmarks.logFiles⟩
  | stopped hmarks =>
      exact ⟨.trans (.of_outbox hmarks.outbox hmarks.nextCommand) (hstop _ _),
        owner_onward hmarks.onward, logOpen_congr hmarks.logFiles⟩

/-! ### The drain pass -/

/-- An open log file is closed, and its execution gets its first cleanup. -/
theorem Tidy.closed (h : Tidy db) {t : TaskId} {row : CommandOutbox}
    (hopen : logOpen db ⟨t, e, .log⟩ = some true) (howner : ∀ e', owner db' e' = owner db e')
    (hlogs : ∀ k, logOpen db' k = if k = ⟨t, e, .log⟩ then some false else logOpen db k)
    (hrow : IsCleanup e row) (houtbox : db'.outbox = db.outbox.insert db.nextCommand row)
    (hnext : db'.nextCommand = db.nextCommand + 1) : Tidy db' := by
  obtain ⟨-, hown⟩ := h.keys _ _ hopen
  have hnone : ¬ CleanedUp db e := by
    obtain ⟨b, hb, hiff⟩ := h.logs e t hown
    rw [hopen] at hb
    obtain rfl := Option.some.inj hb
    exact fun hc => absurd (hiff.mpr hc) (by simp)
  have hfree : db.outbox.get db.nextCommand = none := by
    rcases hget : db.outbox.get db.nextCommand with - | row₀
    · rfl
    · exact absurd (h.fresh _ _ hget) (lt_irrefl _)
  have hget : ∀ c, db'.outbox.get c = if c = db.nextCommand then some row else db.outbox.get c := by
    intro c
    rw [houtbox]
    exact Table.get_insert _ row hfree c
  have hsource : ∀ c row' e', db'.outbox.get c = some row' → IsCleanup e' row' →
      c = db.nextCommand ∧ e' = e ∨ db.outbox.get c = some row' ∧ e' ≠ e := by
    intro c row' e' hrow' hc
    rw [hget] at hrow'
    by_cases hcn : c = db.nextCommand
    · rw [if_pos hcn] at hrow'
      obtain rfl := Option.some.inj hrow'
      exact .inl ⟨hcn, hc.1.symm.trans hrow.1⟩
    · rw [if_neg hcn] at hrow'
      refine .inr ⟨hrow', ?_⟩
      rintro rfl
      exact hnone ⟨c, row', hrow', hc⟩
  have hcleaned : ∀ e', CleanedUp db' e' ↔ e' = e ∨ CleanedUp db e' := by
    intro e'
    constructor
    · rintro ⟨c, row', hrow', hc⟩
      rcases hsource c row' e' hrow' hc with ⟨-, he⟩ | ⟨hold, -⟩
      · exact .inl he
      · exact .inr ⟨c, row', hold, hc⟩
    · rintro (rfl | ⟨c, row', hrow', hc⟩)
      · exact ⟨db.nextCommand, row, by rw [hget, if_pos rfl], hrow⟩
      · refine ⟨c, row', ?_, hc⟩
        rw [hget, if_neg (Nat.ne_of_lt (h.fresh c row' hrow'))]
        exact hrow'
  constructor
  · intro k b hk
    rw [hlogs] at hk
    rw [howner]
    by_cases hkey : k = ⟨t, e, .log⟩
    · subst hkey
      exact ⟨rfl, hown⟩
    · rw [if_neg hkey] at hk
      exact h.keys k b hk
  · intro e' t' he'
    rw [howner] at he'
    rw [hcleaned, hlogs]
    by_cases hee : e' = e
    · subst hee
      obtain rfl : t' = t := Option.some.inj (he'.symm.trans hown)
      exact ⟨false, if_pos rfl, iff_of_true rfl (.inl rfl)⟩
    · rw [if_neg fun hk => hee (congrArg LogKey.executionId hk), or_iff_right hee]
      exact h.logs e' t' he'
  · intro c₁ row₁ c₂ row₂ e' hrow₁ hrow₂ hc₁ hc₂
    rcases hsource c₁ row₁ e' hrow₁ hc₁ with ⟨hn₁, he₁⟩ | ⟨hold₁, hne₁⟩
    · rcases hsource c₂ row₂ e' hrow₂ hc₂ with ⟨hn₂, -⟩ | ⟨-, hne₂⟩
      · exact hn₁.trans hn₂.symm
      · exact absurd he₁ hne₂
    · rcases hsource c₂ row₂ e' hrow₂ hc₂ with ⟨-, he₂⟩ | ⟨hold₂, -⟩
      · exact absurd he₂ hne₁
      · exact h.one c₁ row₁ c₂ row₂ e' hold₁ hold₂ hc₁ hc₂
  · intro e' he'
    rw [howner]
    rcases (hcleaned e').mp he' with rfl | he'
    · exact ⟨t, hown⟩
    · exact h.owned e' he'
  · intro c row' hrow'
    rw [hget] at hrow'
    rw [hnext]
    by_cases hcn : c = db.nextCommand
    · rw [hcn]
      exact Nat.lt_succ_self _
    · rw [if_neg hcn] at hrow'
      exact Nat.lt_succ_of_lt (h.fresh c row' hrow')

/-- **One log file of a pass**, while it is open: it is closed, and its execution
gets a cleanup, if the window is over. -/
theorem Tidy.finalizeLog (h : Tidy db) (drain now : Time) {r : LogKey × Execution}
    (hopen : logOpen db r.1 = some true) :
    Tidy (ServerDb.finalizeLog drain now db r) ∧
      (∀ k, k ≠ r.1 → logOpen (ServerDb.finalizeLog drain now db r) k = logOpen db k) ∧
      (logOpen (ServerDb.finalizeLog drain now db r) r.1 = some true →
        db.drained drain now r = false) := by
  unfold ServerDb.finalizeLog
  by_cases hdrained : db.drained drain now r = true
  · rw [if_pos hdrained]
    obtain ⟨⟨t, e, stream⟩, x⟩ := r
    obtain rfl : stream = .log := (h.keys _ _ hopen).1
    have hlogs : ∀ k, logOpen ((db.completeLog ⟨t, e, .log⟩).createCleanupOutbox now t e x.agentId)
        k = if k = ⟨t, e, .log⟩ then some false else logOpen db k := by
      intro k
      show Option.map _ ((db.logFiles.modify ⟨t, e, .log⟩ _).get k) = _
      rw [Table.get_modify]
      by_cases hk : k = ⟨t, e, .log⟩
      · rw [if_pos hk, if_pos hk]
        obtain ⟨f, hf, -⟩ := Option.map_eq_some_iff.mp hopen
        have hf : db.logFiles.get ⟨t, e, .log⟩ = some f := hf
        rw [hk, hf]
        rfl
      · rw [if_neg hk, if_neg hk]
        rfl
    obtain ⟨row, hrow, houtbox⟩ : ∃ row, IsCleanup e row ∧
        ((db.completeLog ⟨t, e, .log⟩).createCleanupOutbox now t e x.agentId).outbox =
          db.outbox.insert db.nextCommand row := ⟨_, ⟨rfl, rfl⟩, rfl⟩
    refine ⟨h.closed hopen (fun _ => rfl) hlogs hrow houtbox rfl, fun k hk => ?_, fun hstill => ?_⟩
    · exact (hlogs k).trans (if_neg hk)
    · have hclosed := (hlogs ⟨t, e, .log⟩).symm.trans hstill
      rw [if_pos rfl] at hclosed
      cases hclosed
  · rw [if_neg hdrained]
    exact ⟨h, fun _ _ => rfl, fun _ => by simpa using hdrained⟩

/-- A cleanup that a pass issues. -/
def NewCleanup (row : CommandOutbox) : Prop := row.type = .cleanupLogs ∧ row.status = .pending

theorem finalizeLog_adds (drain now : Time) (r : LogKey × Execution) :
    Adds NewCleanup db (ServerDb.finalizeLog drain now db r) := by
  unfold ServerDb.finalizeLog
  split
  · have hclean : ∀ db₁ : ServerDb, Adds NewCleanup db₁
        (db₁.createCleanupOutbox now r.1.taskId r.1.executionId r.2.agentId) :=
      fun _ => .of_addOutbox ⟨rfl, rfl⟩
    refine .trans ?_ (hclean _)
    exact .of_outbox rfl rfl
  · exact .refl db

/-- Other commands are no reclaims. -/
theorem reclaimEverIssued_adds {P : CommandOutbox → Prop} (h : Adds P db db')
    (hP : ∀ row, P row → row.type ≠ .stop) (e : ExecutionId) :
    db'.reclaimEverIssued e = db.reclaimEverIssued e := by
  rw [Bool.eq_iff_iff, Reclaims.reclaimEverIssued_iff, Reclaims.reclaimEverIssued_iff]
  constructor
  · rintro ⟨c, row, hrow, hreclaim⟩
    rcases h.adds c row hrow with hold | ⟨-, hnew⟩
    · exact ⟨c, row, hold, hreclaim⟩
    · exact absurd hreclaim.2.1 (hP row hnew)
  · rintro ⟨c, row, hrow, hreclaim⟩
    exact ⟨c, row, h.keeps c row hrow, hreclaim⟩

theorem finalizeLog_executions (drain now : Time) (r : LogKey × Execution) :
    (ServerDb.finalizeLog drain now db r).executions = db.executions := by
  unfold ServerDb.finalizeLog
  split
  · rfl
  · rfl

theorem finalizeLog_drained (drain now : Time) (r r' : LogKey × Execution) :
    (ServerDb.finalizeLog drain now db r).drained drain now r' = db.drained drain now r' := by
  unfold ServerDb.drained
  rw [reclaimEverIssued_adds (finalizeLog_adds drain now r) fun row hrow => by rw [hrow.1]; simp]

/-- **The log files of a pass**, by induction on those that are left. -/
theorem Tidy.finalizeAll (drain now : Time) (l : List (LogKey × Execution)) (h : Tidy db)
    (hnodup : (l.map Prod.fst).Nodup) (hopen : ∀ r ∈ l, logOpen db r.1 = some true) :
    let db' := l.foldl (ServerDb.finalizeLog drain now) db
    Tidy db' ∧ db'.executions = db.executions ∧ Adds NewCleanup db db' ∧
      (∀ k, k ∉ l.map Prod.fst → logOpen db' k = logOpen db k) ∧
      ∀ r ∈ l, logOpen db' r.1 = some true → db.drained drain now r = false := by
  induction l generalizing db with
  | nil => exact ⟨h, rfl, .refl db, fun _ _ => rfl, fun r hr => absurd hr List.not_mem_nil⟩
  | cons r l ih =>
      obtain ⟨hr, hnodup⟩ := List.nodup_cons.mp hnodup
      obtain ⟨hone, hothers, hdrained⟩ :=
        h.finalizeLog drain now (hopen r List.mem_cons_self)
      have hne : ∀ r' ∈ l, r'.1 ≠ r.1 := by
        intro r' hr' heq
        exact hr (heq ▸ List.mem_map_of_mem hr')
      obtain ⟨htidy, hexecs, hadds, hrest, hdone⟩ := ih hone hnodup fun r' hr' => by
        rw [hothers _ (hne r' hr')]
        exact hopen r' (List.mem_cons_of_mem _ hr')
      refine ⟨htidy, hexecs.trans (finalizeLog_executions drain now r),
        (finalizeLog_adds drain now r).trans hadds, fun k hk => ?_, fun r' hr' hstill => ?_⟩
      · rw [List.map_cons, List.mem_cons, not_or] at hk
        exact (hrest k hk.2).trans (hothers k hk.1)
      · rcases List.mem_cons.mp hr' with rfl | hr'
        · exact hdrained ((hrest _ hr).symm.trans hstill)
        · rw [← finalizeLog_drained drain now r r']
          exact hdone r' hr' hstill

theorem mem_drainable {k : LogKey} {x : Execution} :
    (k, x) ∈ db.drainable ↔ logOpen db k = some true ∧
      db.executions.get k.executionId = some x ∧ x.status.terminal = true := by
  unfold ServerDb.drainable logOpen
  rw [List.mem_filterMap, Option.map_eq_some_iff]
  constructor
  · rintro ⟨⟨k', f⟩, hmem, hbind⟩
    obtain ⟨y, hy, hif⟩ := Option.bind_eq_some_iff.mp hbind
    split at hif
    · rename_i hcond
      obtain ⟨rfl, rfl⟩ := Prod.mk.inj (Option.some.inj hif)
      exact ⟨⟨f, Table.mem_rows_iff.mp hmem, hcond.2⟩, hy, hcond.1⟩
    · cases hif
  · rintro ⟨⟨f, hf, hwritable⟩, hx, hterminal⟩
    refine ⟨(k, f), Table.mem_rows_iff.mpr hf, ?_⟩
    rw [Option.bind_eq_some_iff]
    exact ⟨x, hx, if_pos ⟨hterminal, hwritable⟩⟩

theorem drainable_nodup (db : ServerDb) : (db.drainable.map Prod.fst).Nodup := by
  refine db.logFiles.nodup.sublist ?_
  unfold ServerDb.drainable
  induction db.logFiles.rows with
  | nil => exact List.Sublist.slnil
  | cons r rows ih =>
      rw [List.filterMap_cons]
      split
      · exact ih.cons _
      · rename_i b hb
        obtain ⟨y, -, hif⟩ := Option.bind_eq_some_iff.mp hb
        split at hif
        · obtain rfl := Option.some.inj hif
          exact ih.cons_cons _
        · cases hif

/-- The execution is over for the agent, or lost and reclaimed, and the window
has passed. -/
def Due (db : ServerDb) (drain now : Time) (e : ExecutionId) : Prop :=
  ∃ x finished, db.executions.get e = some x ∧ x.status.terminal = true ∧
    (x.status = .lost → db.reclaimEverIssued e = true) ∧ x.finishedAt = some finished ∧
      drain ≤ now - finished

/-- **A pass** cleans up what is due. -/
theorem Tidy.finalized (h : Tidy db) (drain now : Time) :
    Tidy (db.finalizeDrainedLogs drain now) ∧
      Adds NewCleanup db (db.finalizeDrainedLogs drain now) ∧
      ∀ e, Due db drain now e → CleanedUp (db.finalizeDrainedLogs drain now) e := by
  obtain ⟨htidy, hexecs, hadds, hrest, hdone⟩ :=
    h.finalizeAll drain now db.drainable (drainable_nodup db)
      fun r hr => (mem_drainable.mp hr).1
  refine ⟨htidy, hadds, ?_⟩
  rintro e ⟨x, finished, hx, hterminal, hreclaim, hfinished, hwindow⟩
  have hown : owner (db.finalizeDrainedLogs drain now) e = some x.taskId := by
    have hexecs : (db.finalizeDrainedLogs drain now).executions = db.executions := hexecs
    unfold owner
    rw [ServerDb.execStatus_congr hexecs]
    unfold ServerDb.execStatus
    rw [hx]
    rfl
  obtain ⟨b, hb, hiff⟩ := htidy.logs e x.taskId hown
  refine hiff.mp ?_
  by_contra hstill
  rw [Bool.not_eq_false] at hstill
  subst hstill
  -- still open after the pass, so it was in the pass, and not drained
  have hmem : (⟨x.taskId, e, .log⟩, x) ∈ db.drainable := by
    by_contra hno
    by_cases hk : (⟨x.taskId, e, .log⟩ : LogKey) ∈ db.drainable.map Prod.fst
    · obtain ⟨⟨k, y⟩, hy, rfl⟩ := List.mem_map.mp hk
      have hy' := (mem_drainable.mp hy).2.1
      obtain rfl : x = y := Option.some.inj (hx.symm.trans hy')
      exact hno hy
    · exact hno (mem_drainable.mpr ⟨(hrest _ hk).symm.trans hb, hx, hterminal⟩)
  have hdrained := hdone _ hmem hb
  unfold ServerDb.drained at hdrained
  have hnot : (x.status != .lost || db.reclaimEverIssued e) = true := by
    by_cases hlost : x.status = .lost
    · rw [hreclaim hlost, Bool.or_true]
    · rw [bne_iff_ne.mpr hlost, Bool.true_or]
  rw [hnot, Bool.and_true, hfinished] at hdrained
  simp only [Option.any_some, decide_eq_false_iff_not] at hdrained
  exact hdrained hwindow

end Tidy

/-! ### Canceled rows -/

/-- The rows a session cancels are run rows. -/
def Discards (db : ServerDb) (x : Session) : Prop :=
  ∀ c loaded new, Write.row c loaded new ∈ x.writes → new.status = .canceled →
    ∃ row, db.outbox.get c = some row ∧ row.type = .run

section Discards

variable {P : CommandOutbox → Prop} {db db' : ServerDb} {s s' : Dispatch.State} {x x' : Session}

theorem Discards.grown (h : Discards db x) (hext : Extends P db db') : Discards db' x := by
  intro c loaded new hw hcanceled
  obtain ⟨row, hrow, hrun⟩ := h c loaded new hw hcanceled
  obtain ⟨row', hrow', hsame⟩ := hext.keeps c row hrow
  exact ⟨row', hrow', hsame.type.trans hrun⟩

/-- Another row is written, beside timeouts. -/
theorem Discards.write (h : Discards db x) {c : CommandId} {loaded new : CommandOutbox}
    {tail : List Write} (hwrites : x'.writes = x.writes ++ .row c loaded new :: tail)
    (htail : ∀ c loaded new, Write.row c loaded new ∉ tail)
    (hnew : new.status = .canceled → ∃ row, db.outbox.get c = some row ∧ row.type = .run) :
    Discards db x' := by
  intro c' loaded' new' hw
  rw [hwrites] at hw
  rcases List.mem_append.mp hw with hw | hw
  · exact h c' loaded' new' hw
  · rcases List.mem_cons.mp hw with hw | hw
    · cases hw
      exact hnew
    · exact absurd hw (htail c' loaded' new')

theorem Discards.refreshed (h : Discards db x) {now : Time}
    (hx : Session.Refreshed x db now x') : Discards db x' := by
  cases hx with
  | sent _ _ _ _ => exact h
  | canceled _ _ _ _ => exact h
  | notDispatchable _ _ hrow _ _ hrun _ =>
      refine h.write rfl (fun _ _ _ => List.not_mem_nil) fun _ => ?_
      obtain ⟨row₀, hrow₀, hsame, -⟩ := Dispatch.applyWrites_get hrow
      exact ⟨row₀, hrow₀, hsame.type.symm.trans hrun⟩
  | send _ _ _ _ _ _ => exact h

theorem Discards.appended (h : Discards db x) {now : Time} {msg : Option MessageId}
    (hx : Session.Appended x now msg x') : Discards db x' := by
  cases hx with
  | sent m _ =>
      refine h.write rfl (fun _ _ _ => List.not_mem_nil) fun hc => ?_
      cases hc
  | retry _ _ =>
      refine h.write rfl (fun _ _ _ => List.not_mem_nil) fun hc => ?_
      cases hc
  | failed _ =>
      refine h.write rfl Dispatch.not_mem_timeoutWrites fun hc => ?_
      cases hc

theorem Discards.gaveUp (h : Discards db x) {now : Time} (hx : x.giveUp now = some x') :
    Discards db x' := by
  obtain ⟨c, loaded, todo, -, -, -, -, rfl⟩ := Session.gaveUp hx
  refine h.write rfl Dispatch.not_mem_timeoutWrites fun hc => ?_
  cases hc

theorem step_discards {a : Dispatch.Action}
    (hdiscards : ∀ i x, s.sessions.get i = some x → Discards s.db x)
    (h : Dispatch.step s a = some s') : ∀ i x, s'.sessions.get i = some x → Discards s'.db x := by
  have hgrown : ∀ x, Discards s.db x → Discards s'.db x := fun x hx =>
    hx.grown (Dispatch.step_extends h)
  cases Dispatch.step_cases h with
  | write _ => exact fun i x hx => hgrown x (hdiscards i x hx)
  | issue _ _ _ => exact fun i x hx => hgrown x (hdiscards i x hx)
  | noTarget _ => exact fun i x hx => hgrown x (hdiscards i x hx)
  | create _ _ _ _ =>
      intro i x hx
      rcases Dispatch.addSession_cases hx with hx | ⟨-, rfl⟩
      · exact hgrown x (hdiscards i x hx)
      · exact fun _ _ _ hw => absurd hw List.not_mem_nil
  | cancel =>
      intro i x hx
      rcases Dispatch.addSession_cases hx with hx | ⟨-, rfl⟩
      · exact hgrown x (hdiscards i x hx)
      · exact fun _ _ _ hw => absurd hw List.not_mem_nil
  | tick _ _ _ _ _ =>
      intro i x hx
      rcases Dispatch.addSession_cases hx with hx | ⟨-, rfl⟩
      · exact hdiscards i x hx
      · -- requeued rows are pending
        intro c loaded new hw hcanceled
        obtain ⟨c', -, hc'⟩ := List.mem_filterMap.mp hw
        obtain ⟨row, -, heq⟩ := Option.map_eq_some_iff.mp hc'
        cases heq
        cases hcanceled
  | refresh hx hx' =>
      intro j y hy
      rcases Dispatch.sessions_cases hy with hy | ⟨-, rfl⟩
      · exact hdiscards j y hy
      · exact (hdiscards _ _ hx).refreshed (Session.refreshed hx')
  | sent hx _ hx' =>
      intro j y hy
      rcases Dispatch.sessions_cases hy with hy | ⟨-, rfl⟩
      · exact hdiscards j y hy
      · exact (hdiscards _ _ hx).appended (Session.appended hx')
  | raised hx hx' =>
      intro j y hy
      rcases Dispatch.sessions_cases hy with hy | ⟨-, rfl⟩
      · exact hdiscards j y hy
      · exact (hdiscards _ _ hx).appended (Session.appended hx')
  | giveUp hx hx' =>
      intro j y hy
      rcases Dispatch.sessions_cases hy with hy | ⟨-, rfl⟩
      · exact hdiscards j y hy
      · exact (hdiscards _ _ hx).gaveUp hx'
  | commit _ _ => exact fun j y hy => hgrown y (hdiscards j y (Dispatch.eraseSession_cases hy))
  | abort => exact fun j y hy => hdiscards j y (Dispatch.eraseSession_cases hy)
  | vanish => exact hdiscards

end Discards

section Runs

variable {db db' : ServerDb} {s s' : State} {a : Action} {c : CommandId} {row : CommandOutbox}

theorem settles_iff : settles row = true ↔
    row.type = .cleanupLogs ∧ (row.status = .sent ∨ row.status = .failed) := by
  unfold settles
  simp only [Bool.and_eq_true, beq_iff_eq, Bool.or_eq_true]

/-- New rows are pending, so a canceled row is an old one. -/
theorem canceled_of_adds {P : CommandOutbox → Prop} (h : Adds P db db')
    (hP : ∀ row, P row → row.status = .pending) (hrow : db'.outbox.get c = some row)
    (hcanceled : row.status = .canceled) : db.outbox.get c = some row := by
  refine (h.adds c row hrow).resolve_right fun hnew => ?_
  rw [hP row hnew.2] at hcanceled
  cases hcanceled

theorem writer_pending (db : ServerDb) (w : Writer) :
    Adds (fun row => row.status = .pending) db (w.apply db) := by
  cases w with
  | applyEvent now ev msg =>
      rcases Dispatch.applyEvent_outbox db now ev msg with
        ⟨-, houtbox, hnext⟩ | ⟨-, row, -, hpending, houtbox, hnext⟩
      · exact .of_outbox houtbox hnext
      · exact .of_insert hpending houtbox hnext
  | markLost now held e reason =>
      exact (Dispatch.writer_outbox db (by simp)).mono fun _ hc => hc.elim
  | dispatchTimeout now t e =>
      exact (Dispatch.writer_outbox db (by simp)).mono fun _ hc => hc.elim
  | repairOrphanedTask now settings held t =>
      exact (Dispatch.writer_outbox db (by simp)).mono fun _ hc => hc.elim
  | markTaskLost now t => exact (Dispatch.writer_outbox db (by simp)).mono fun _ hc => hc.elim

/-- The row of the command is a canceled cleanup. -/
def Withdrawn (db : ServerDb) (c : CommandId) : Prop :=
  ∃ row, db.outbox.get c = some row ∧ row.type = .cleanupLogs ∧ row.status = .canceled

/-- **A cleanup is canceled by a cancel only**, which finds it sent or given up. -/
theorem session_canceled {a : Dispatch.Action} {sys : Dispatch.State}
    (hdiscards : ∀ i x, s.sys.sessions.get i = some x → Discards s.sys.db x)
    (hok : Orderly s (.session a)) (h : Dispatch.step s.sys a = some sys)
    (hrow : sys.db.outbox.get c = some row) (hclean : row.type = .cleanupLogs)
    (hcanceled : row.status = .canceled) :
    Withdrawn s.sys.db c ∨ c ∈ s.settled := by
  have hsame : s.sys.db.outbox.get c = some row → Withdrawn s.sys.db c := fun hold =>
    ⟨row, hold, hclean, hcanceled⟩
  cases Dispatch.step_cases h with
  | @write w _ =>
      exact .inl (hsame (canceled_of_adds (writer_pending s.sys.db w) (fun _ => id) hrow hcanceled))
  | issue _ hpending _ =>
      have hadds : Adds (fun row => row.status = .pending) s.sys.db (s.sys.db.addOutbox _) :=
        .of_addOutbox hpending
      exact .inl (hsame (canceled_of_adds hadds (fun _ => id) hrow hcanceled))
  | noTarget _ => exact .inl (hsame hrow)
  | @create now t task taskType payload nodes last htask hnew hnodup _ =>
      obtain ⟨hadds, -⟩ :=
        Dispatch.createTask_spec s.sys.db now t task taskType payload htask hnew hnodup
      exact .inl (hsame (canceled_of_adds hadds (fun _ hnewrow => hnewrow.2.2.2.1) hrow hcanceled))
  | @cancel now t =>
      obtain ⟨hadds, -⟩ := Dispatch.requestCancel_spec s.sys.db now t
      have hold := canceled_of_adds hadds (fun _ hplain => hplain.2.1) hrow hcanceled
      obtain ⟨row₀, hrow₀, heq⟩ := Option.map_eq_some_iff.mp
        ((Table.get_updateAll _ _ c).symm.trans hold)
      split at heq
      · rename_i hunsent
        subst heq
        exact .inr (hok (c, row₀) (Table.mem_rows_iff.mpr hrow₀) hunsent.1 hclean hunsent.2)
      · subst heq
        exact .inl (hsame hrow₀)
  | tick _ _ _ _ _ => exact .inl (hsame hrow)
  | refresh _ _ => exact .inl (hsame hrow)
  | sent _ _ _ => exact .inl (hsame hrow)
  | raised _ _ => exact .inl (hsame hrow)
  | giveUp _ _ => exact .inl (hsame hrow)
  | @commit i now held x db hx hcommit =>
      have hview : (x.view s.sys.db).outbox.get c = some row := by
        cases Session.committed hcommit with
        | done _ _ _ => exact hrow
        | unavailable _ _ _ _ _ => exact hrow
      obtain ⟨row₀, hrow₀, hcommand, rfl⟩ := Dispatch.applyWrites_get hview
      -- a session cancels run rows only
      rcases Dispatch.mergeAll_status (Dispatch.rowWrites c x.writes) row₀ with
        hstatus | ⟨p, hp, hstatus⟩
      · exact .inl ⟨row₀, hrow₀, hcommand.type.symm.trans hclean, hstatus.symm.trans hcanceled⟩
      · obtain ⟨row₁, hrow₁, hrun⟩ := hdiscards i x hx c p.1 p.2 (Dispatch.mem_rowWrites.mp hp)
          (hstatus.symm.trans hcanceled)
        obtain rfl : row₀ = row₁ := Option.some.inj (hrow₀.symm.trans hrow₁)
        rw [hcommand.type, hrun] at hclean
        cases hclean
  | abort => exact .inl (hsame hrow)
  | vanish => exact .inl (hsame hrow)

/-! ### Runs -/

/-- What holds of every state. -/
structure Inv (s : State) : Prop where
  tidy : Tidy s.sys.db
  discards : ∀ i x, s.sys.sessions.get i = some x → Discards s.sys.db x
  settled : ∀ c row, s.sys.db.outbox.get c = some row → settles row = true →
    c ∈ s.settled
  withdrawn : ∀ c, Withdrawn s.sys.db c → c ∈ s.settled

theorem Inv.start : Inv State.start where
  tidy := .empty
  discards i x hx := by cases hx
  settled c row hrow := by cases hrow
  withdrawn c hc := by
    obtain ⟨row, hrow, -⟩ := hc
    cases hrow

theorem mem_note {sys : Dispatch.State} : c ∈ (s.note sys).settled ↔
    c ∈ s.settled ∨ ∃ row, sys.db.outbox.get c = some row ∧ settles row = true := by
  unfold State.note
  rw [List.mem_append]
  refine or_congr_right ?_
  constructor
  · intro hc
    obtain ⟨⟨c', row⟩, hmem, rfl⟩ := List.mem_map.mp hc
    obtain ⟨hrow, hsettles⟩ := List.mem_filter.mp hmem
    exact ⟨row, Table.mem_rows_iff.mp hrow, hsettles⟩
  · rintro ⟨row, hrow, hsettles⟩
    exact List.mem_map.mpr ⟨(c, row), List.mem_filter.mpr ⟨Table.mem_rows_iff.mpr hrow, hsettles⟩, rfl⟩

/-- What has settled is noted. -/
theorem Inv.noted {sys : Dispatch.State} (hinv : Inv s) (htidy : Tidy sys.db)
    (hdiscards : ∀ i x, sys.sessions.get i = some x → Discards sys.db x)
    (hwithdrawn : ∀ c, Withdrawn sys.db c → Withdrawn s.sys.db c ∨ c ∈ s.settled) :
    Inv (s.note sys) where
  tidy := htidy
  discards := hdiscards
  settled _ row hrow hsettles := mem_note.mpr (.inr ⟨row, hrow, hsettles⟩)
  withdrawn _ hc := mem_note.mpr (.inl ((hwithdrawn _ hc).elim (hinv.withdrawn _) id))

/-- Steps that add pending rows, and write no other. -/
theorem Inv.of_adds {P : CommandOutbox → Prop} (hinv : Inv s) (htidy : Tidy db')
    (hadds : Adds P s.sys.db db') (hP : ∀ row, P row → row.status = .pending) :
    Inv (s.note { s.sys with db := db' }) := by
  refine hinv.noted htidy (fun i x hx => ?_) fun c hc => ?_
  · exact (hinv.discards i x hx).grown (.of_adds hadds)
  · obtain ⟨row, hrow, hclean, hcanceled⟩ := hc
    exact .inl ⟨row, canceled_of_adds hadds hP hrow hcanceled, hclean, hcanceled⟩

theorem Inv.session {a : Dispatch.Action} {sys : Dispatch.State} (hinv : Inv s)
    (hok : Orderly s (.session a)) (hissue : ∀ row, a = .issue row → row.type ≠ .cleanupLogs)
    (h : Dispatch.step s.sys a = some sys) : Inv (s.note sys) := by
  refine hinv.noted ?_ (step_discards hinv.discards h) fun c hc => ?_
  · have hframe : (∀ now t task taskType payload nodes,
        a ≠ .create now t task taskType payload nodes) → Tidy sys.db := fun hcreate =>
      hinv.tidy.framed (session_frame h hcreate hissue)
    cases a with
    | create now t task taskType payload nodes =>
        cases Dispatch.step_cases h with
        | noTarget _ =>
            exact hinv.tidy.createTask now t task taskType payload
              (fun n hn => absurd hn List.not_mem_nil) List.nodup_nil
        | create _ hnew hnodup _ =>
            exact hinv.tidy.createTask now t task taskType payload hnew hnodup
    | write | issue | cancel | tick | refresh | append | giveUp | commit | abort | vanish =>
        exact hframe (by rintro _ _ _ _ _ _ hc; cases hc)
  · obtain ⟨row, hrow, hclean, hcanceled⟩ := hc
    exact session_canceled hinv.discards hok h hrow hclean hcanceled

/-- **The step.** -/
theorem Inv.next (hinv : Inv s) (hok : Orderly s a) (h : step s a = some s') : Inv s' := by
  obtain ⟨sys, hsys, rfl⟩ := Option.map_eq_some_iff.mp h
  cases a with
  | session a =>
      have hstep : Dispatch.step s.sys a = some sys ∧
          ∀ row, a = .issue row → row.type ≠ .cleanupLogs := by
        cases a with
        | issue row =>
            simp only [sysStep] at hsys
            split at hsys
            · cases hsys
            · rename_i hno
              refine ⟨hsys, ?_⟩
              rintro row' heq
              obtain rfl := Dispatch.Action.issue.inj heq
              exact hno
        | write | create | cancel | tick | refresh | append | giveUp | commit | abort | vanish =>
            exact ⟨hsys, by rintro row hc; cases hc⟩
      exact hinv.session hok hstep.2 hstep.1
  | reconcile settings held now lastSeen e x =>
      obtain rfl := Option.some.inj hsys
      obtain ⟨hadds, howner, hlogs⟩ :=
        reconcileExecution_leaves s.sys.db settings held now lastSeen e x
      refine hinv.of_adds (hinv.tidy.framed ⟨howner, hlogs, ?_⟩) hadds fun _ hstop => hstop.2
      refine (Extends.of_adds hadds).mono fun row hstop => ?_
      rw [hstop.1]
      simp
  | finalize drain now =>
      obtain rfl := Option.some.inj hsys
      obtain ⟨htidy, hadds, -⟩ := hinv.tidy.finalized drain now
      exact hinv.of_adds htidy hadds fun _ hclean => hclean.2
  | record settings limit now =>
      obtain rfl := Option.some.inj hsys
      have hrecord := record_untouched hok
      exact hinv.of_adds (P := fun _ => False) (hinv.tidy.framed hrecord.frame)
        (.of_outbox hrecord.outbox hrecord.nextCommand) fun _ hc => hc.elim

/-- **Every execution that is over gets one cleanup**, in every run in which the
recorder closes no open log file and a cancel meets no cleanup that was never
sent: after the next drain pass it has one, and no other, and no cleanup is
canceled before it was sent or given up. -/
theorem cleaned_up (h : RunOk step Orderly State.start s) :
    (∀ drain now s', step s (.finalize drain now) = some s' →
      ∀ e, Due s.sys.db drain now e →
        ∃ c row, s'.sys.db.outbox.get c = some row ∧ IsCleanup e row ∧
          ∀ c' row', s'.sys.db.outbox.get c' = some row' → IsCleanup e row' → c' = c) ∧
      ∀ c, Withdrawn s.sys.db c → c ∈ s.settled := by
  have hinv : Inv s := h.invariant (fun _ _ _ hi hok hs => hi.next hok hs) .start
  refine ⟨fun drain now s' hs' e hdue => ?_, hinv.withdrawn⟩
  obtain rfl := Option.some.inj hs'
  obtain ⟨htidy, -, hcleaned⟩ := hinv.tidy.finalized drain now
  obtain ⟨c, row, hrow, hclean⟩ := hcleaned e hdue
  exact ⟨c, row, hrow, hclean, fun c' row' hrow' hclean' =>
    htidy.one c' row' c row e hrow' hrow hclean' hclean⟩

end Runs

/-! ### A log file closed too early, and a cleanup withdrawn -/

instance (db : ServerDb) (settings : OutcomeSettings) (limit : Nat) (now : Time) :
    Decidable (SealsNothing db settings limit now) :=
  inferInstanceAs (Decidable (∀ t ∈ db.candidates limit, ∀ task ∈ db.tasks.get t, _ → _))

instance (s : State) (t : TaskId) : Decidable (WithdrawsNoCleanup s t) :=
  inferInstanceAs (Decidable (∀ r ∈ s.sys.db.outbox.rows, _ → _ → _ → _))

instance (s : State) (a : Action) : Decidable (Orderly s a) :=
  match a with
  | .session (.cancel _ t) => inferInstanceAs (Decidable (WithdrawsNoCleanup s t))
  | .record settings limit now =>
      inferInstanceAs (Decidable (SealsNothing s.sys.db settings limit now))
  | .session (.write ..) | .session (.issue ..) | .session (.create ..) | .session (.tick ..)
  | .session (.refresh ..) | .session (.append ..) | .session (.giveUp ..)
  | .session (.commit ..) | .session (.abort ..) | .session (.vanish ..)
  | .reconcile .. | .finalize .. => isTrue trivial

def sampleOutcomes : OutcomeSettings where
  lostOutcomeGraceSeconds := 3600
  logDrainTimeoutSeconds := 30
  maxFileBytes := 0

def sampleEvent (e : ExecutionId) (type : AgentEventType) : AgentEvent where
  eventId := 1
  agentId := e
  taskId := 7
  executionId := e
  type := type

/-- Execution 1 runs and its agent is gone; the recorder closes the log when the
grace period is over, and then the agent comes back and is told to reclaim. -/
def sampleReturned : List Action :=
  ((Dispatch.sampleCreate [(1, 1)]).map .session) ++
    [.session (.write (.applyEvent 1 (sampleEvent 1 .running) 0)),
      .reconcile Reclaims.sampleSettings .none 100 none 1 { taskId := 7, agentId := 1 },
      .record sampleOutcomes 10 4000,
      .session (.write (.applyEvent 5000 (sampleEvent 1 .heartbeat) 1))]

/-- Execution 1 of two finishes and is cleaned up. -/
def sampleFinished : List Action :=
  ((Dispatch.sampleCreate [(1, 1), (2, 2)]).map .session) ++
    [.session (.write (.applyEvent 1 (sampleEvent 1 .running) 0)),
      .session (.write (.applyEvent 10 (sampleEvent 1 .finished) 1)),
      .finalize 30 100]

theorem not_cleaned_up :
    (¬ ∀ s, Run step State.start s →
      ∀ drain now s', step s (.finalize drain now) = some s' →
        ∀ e, Due s.sys.db drain now e →
          ∃ c row, s'.sys.db.outbox.get c = some row ∧ IsCleanup e row ∧
            ∀ c' row', s'.sys.db.outbox.get c' = some row' → IsCleanup e row' → c' = c) ∧
      ¬ ∀ s, Run step State.start s → ∀ c, Withdrawn s.sys.db c → c ∈ s.settled := by
  constructor
  · intro h
    obtain ⟨s, hrun, hs⟩ := RunOk.exists_of_checkedRun step (fun _ _ => True) State.start
      sampleReturned (fun s : State =>
        (s.sys.db.executions.get 1).any (fun x : Execution => decide (x.status = .lost ∧
          x.finishedAt = some 100)) && s.sys.db.reclaimEverIssued 1 &&
        (s.sys.db.finalizeDrainedLogs 30 6000).outbox.rows.all
          fun r => decide (r.2.type ≠ .cleanupLogs)) (by decide +kernel)
    simp only [Bool.and_eq_true, Option.any_eq_true, decide_eq_true_eq, List.all_eq_true] at hs
    obtain ⟨⟨⟨x, hx, hlost, hfinished⟩, hreclaim⟩, hnone⟩ := hs
    have hdue : Due s.sys.db 30 6000 1 := by
      refine ⟨x, 100, hx, ?_, fun _ => hreclaim, hfinished, by decide⟩
      rw [hlost]
      rfl
    obtain ⟨c, row, hrow, hclean, -⟩ := h s hrun 30 6000 _ rfl 1 hdue
    exact hnone (c, row) (Table.mem_rows_iff.mpr hrow) hclean.2
  · intro h
    obtain ⟨s, hrun, hs⟩ := RunOk.exists_of_checkedRun step (fun _ _ => True) State.start
      (sampleFinished ++ [.session (.cancel 101 7)]) (fun s : State =>
        (s.sys.db.outbox.get 2).any (fun row : CommandOutbox => decide (row.type = .cleanupLogs ∧
          row.status = .canceled)) && decide (2 ∉ s.settled)) (by decide +kernel)
    simp only [Bool.and_eq_true, Option.any_eq_true, decide_eq_true_eq] at hs
    obtain ⟨⟨row, hrow, hclean, hcanceled⟩, hnot⟩ := hs
    exact hnot (h s hrun 2 ⟨row, hrow, hclean, hcanceled⟩)

theorem cleaned_up_sample : ∃ s s', RunOk step Orderly State.start s ∧
    step s (.finalize 30 100) = some s' ∧ Due s.sys.db 30 100 1 ∧
      ∃ c row, s'.sys.db.outbox.get c = some row ∧ IsCleanup 1 row ∧
        ∀ c' row', s'.sys.db.outbox.get c' = some row' → IsCleanup 1 row' → c' = c := by
  obtain ⟨s, hrun, hs⟩ := RunOk.exists_of_checkedRun step Orderly State.start
    (sampleFinished.dropLast) (fun s : State =>
      (s.sys.db.executions.get 1).any (fun x : Execution => decide (x.status = .finished ∧
        x.finishedAt = some 10))) (by decide +kernel)
  obtain ⟨x, hx, hdone⟩ := (Option.any_eq_true _ _).mp hs
  obtain ⟨hfinished, hat⟩ := of_decide_eq_true hdone
  have hdue : Due s.sys.db 30 100 1 := by
    refine ⟨x, 10, hx, ?_, fun hlost => ?_, hat, by decide⟩
    · rw [hfinished]
      rfl
    · rw [hfinished] at hlost
      cases hlost
  exact ⟨s, _, hrun, rfl, hdue, (cleaned_up hrun).1 30 100 _ rfl 1 hdue⟩

end Cleanups

end Dopilot
