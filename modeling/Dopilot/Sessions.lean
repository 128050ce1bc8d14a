/-
Dopilot/Sessions.lean

What holds of the outbox and of every session, whatever the interleaving.

Rows are only ever added to the outbox (`Adds`), and a run row belongs to an
execution of its task.  A session knows of rows and executions that exist, only
the periodic pass times executions out, and an executor's task has the
execution it holds.  `Wf` says so of a state, and `step_wf` that every step
keeps it.
-/
import Dopilot.Dispatch

namespace Dopilot

open StateMachine

namespace Dispatch

/-! ### Rows are added -/

/-- The outbox of `db'` has the rows of `db` and new ones that satisfy `P`. -/
structure Adds (P : CommandOutbox → Prop) (db db' : ServerDb) : Prop where
  keeps : ∀ c row, db.outbox.get c = some row → db'.outbox.get c = some row
  adds : ∀ c row, db'.outbox.get c = some row → db.outbox.get c = some row ∨
    db.nextCommand ≤ c ∧ P row
  fresh : (∀ c row, db.outbox.get c = some row → c < db.nextCommand) →
    ∀ c row, db'.outbox.get c = some row → c < db'.nextCommand
  next : db.nextCommand ≤ db'.nextCommand

section Adds

variable {P Q : CommandOutbox → Prop} {db db' db'' : ServerDb}

theorem Adds.of_outbox (h : db'.outbox = db.outbox) (hnext : db'.nextCommand = db.nextCommand) :
    Adds P db db' where
  keeps := by
    intro c row hrow
    rw [h]
    exact hrow
  adds := by
    intro c row hrow
    rw [h] at hrow
    exact .inl hrow
  fresh := by
    rw [h, hnext]
    exact id
  next := Nat.le_of_eq hnext.symm

theorem Adds.refl (db : ServerDb) : Adds P db db := .of_outbox rfl rfl

theorem Adds.trans (h : Adds P db db') (h' : Adds P db' db'') : Adds P db db'' where
  keeps := fun c row hrow => h'.keeps c row (h.keeps c row hrow)
  adds := by
    intro c row hrow
    rcases h'.adds c row hrow with hold | ⟨hc, hP⟩
    · exact h.adds c row hold
    · exact .inr ⟨Nat.le_trans h.next hc, hP⟩
  fresh := fun hfresh => h'.fresh (h.fresh hfresh)
  next := Nat.le_trans h.next h'.next

theorem Adds.mono (h : Adds P db db') (hPQ : ∀ row, P row → Q row) : Adds Q db db' where
  keeps := h.keeps
  adds := fun c row hrow => (h.adds c row hrow).imp_right fun hnew => ⟨hnew.1, hPQ row hnew.2⟩
  fresh := h.fresh
  next := h.next

/-- A row is inserted under the next id, or the id is taken and nothing is. -/
theorem Adds.of_insert {row : CommandOutbox} (hrow : P row)
    (h : db'.outbox = db.outbox.insert db.nextCommand row)
    (hnext : db'.nextCommand = db.nextCommand + 1) : Adds P db db' := by
  rcases hget : db.outbox.get db.nextCommand with - | taken
  · have hins : ∀ c, db'.outbox.get c =
        if c = db.nextCommand then some row else db.outbox.get c := by
      intro c
      rw [h]
      exact Table.get_insert _ row hget c
    refine ⟨?_, ?_, ?_, ?_⟩
    · intro c r hr
      rw [hins, if_neg]
      · exact hr
      · rintro rfl
        rw [hget] at hr
        cases hr
    · intro c r hr
      rw [hins] at hr
      by_cases hc : c = db.nextCommand
      · rw [if_pos hc] at hr
        obtain rfl := Option.some.inj hr
        exact .inr ⟨Nat.le_of_eq hc.symm, hrow⟩
      · rw [if_neg hc] at hr
        exact .inl hr
    · intro hfresh c r hr
      rw [hins] at hr
      rw [hnext]
      by_cases hc : c = db.nextCommand
      · rw [hc]
        exact Nat.lt_succ_self _
      · rw [if_neg hc] at hr
        exact Nat.lt_succ_of_lt (hfresh c r hr)
    · rw [hnext]
      exact Nat.le_succ _
  · have hsame : db'.outbox = db.outbox := by
      have hmem : db.nextCommand ∈ db.outbox.rows.map Prod.fst :=
        Table.mem_keys_iff.mpr ⟨taken, hget⟩
      rw [h, Table.insert, dif_pos hmem]
    refine ⟨?_, ?_, ?_, ?_⟩
    · intro c r hr
      rw [hsame]
      exact hr
    · intro c r hr
      rw [hsame] at hr
      exact .inl hr
    · intro hfresh c r hr
      rw [hsame] at hr
      rw [hnext]
      exact Nat.lt_succ_of_lt (hfresh c r hr)
    · rw [hnext]
      exact Nat.le_succ _

theorem Adds.of_addOutbox {row : CommandOutbox} (hrow : P row) : Adds P db (db.addOutbox row) :=
  .of_insert hrow rfl rfl

/-- A new command that starts nothing. -/
def Plain (row : CommandOutbox) : Prop :=
  row.type ≠ .run ∧ row.status = .pending ∧ row.redisMsgId = none

theorem adds_createStopOutbox {now : Time} {intent : StopIntent} {t : TaskId} {e : ExecutionId}
    {agent : AgentId} (h : Adds Plain db db') :
    Adds Plain db (db'.createStopOutbox now intent t e agent) :=
  h.trans (.of_addOutbox ⟨by simp, rfl, rfl⟩)

theorem markLost_adds {held : HeldRows} {e : ExecutionId} {reason : ExecLostReason} {now : Time} :
    Adds P db (db.markLost held e reason now).1 := by
  unfold ServerDb.markLost
  split
  · exact .refl db
  · simp only
    split
    · exact .refl db
    · exact .of_outbox rfl rfl

theorem markExecutionsLost_adds {now : Time} (l : List (ExecutionId × Execution)) :
    Adds P db (ServerDb.markExecutionsLost now l db) := by
  induction l generalizing db with
  | nil => exact .refl db
  | cons r l ih => exact markLost_adds.trans ih

theorem applyEvent_adds {now : Time} {ev : AgentEvent} {msg : MessageId} :
    Adds Plain db (db.applyEvent now ev msg).1 := by
  unfold ServerDb.applyEvent
  rcases ev.type.toExec with - | new
  · rcases db.executions.get ev.executionId with - | x
    · exact .refl db
    · show Adds Plain db (db.applyHeartbeat now ev msg x).1
      unfold ServerDb.applyHeartbeat
      simp only
      split
      · split
        · exact .of_outbox rfl rfl
        · exact .of_insert ⟨by simp, rfl, rfl⟩ rfl rfl
      · exact .of_outbox rfl rfl
  · simp only
    split
    · exact .refl db
    · rcases db.executions.get ev.executionId with - | x
      · exact .of_outbox rfl rfl
      · show Adds Plain db (db.applyLifecycle now ev msg new x).1
        unfold ServerDb.applyLifecycle ServerDb.requestReclaim
        simp only
        split
        · split
          · exact .of_outbox rfl rfl
          · exact .of_insert ⟨by simp, rfl, rfl⟩ rfl rfl
        · exact .of_outbox rfl rfl

/-- **Writers add stops to the outbox, and change no row.** -/
theorem writer_adds (w : Writer) : Adds Plain db (w.apply db) := by
  cases w with
  | applyEvent now ev msg => exact applyEvent_adds
  | markLost now held e reason => exact markLost_adds
  | dispatchTimeout now t e => exact .of_outbox rfl rfl
  | repairOrphanedTask now settings held t =>
      rcases ServerDb.repairOrphanedTask_cases db settings held now t with h | ⟨task, f, -, -, h⟩
      · show Adds Plain db (db.repairOrphanedTask settings held now t)
        rw [h]
        exact .refl db
      · show Adds Plain db (db.repairOrphanedTask settings held now t)
        rw [h]
        exact .of_outbox rfl rfl
  | markTaskLost now t =>
      show Adds Plain db (db.markTaskLost now t)
      unfold ServerDb.markTaskLost
      split
      · exact .refl db
      · split
        · exact .refl db
        · exact (markExecutionsLost_adds _).trans (.of_outbox rfl rfl)

/-- A new run row of one of the executions `es` of task `t`. -/
def NewRun (t : TaskId) (es : List ExecutionId) (row : CommandOutbox) : Prop :=
  row.type = .run ∧ row.taskId = t ∧ row.executionId ∈ es ∧ row.status = .pending ∧
    row.redisMsgId = none

variable {now : Time} {t : TaskId} {taskType : RunnerType} {payload : CommandPayload}

theorem createExecution_adds (node : ExecutionId × AgentId) :
    Adds (NewRun t [node.1]) db (db.createExecution now t taskType payload node) :=
  .of_insert ⟨rfl, rfl, List.mem_singleton.mpr rfl, rfl, rfl⟩ rfl rfl

theorem createExecution_execStatus (now : Time) (t : TaskId) (taskType : RunnerType)
    (payload : CommandPayload) {node : ExecutionId × AgentId}
    (hnew : db.executions.get node.1 = none) (e : ExecutionId) :
    (db.createExecution now t taskType payload node).execStatus e =
      if e = node.1 then some (t, .pending) else db.execStatus e := by
  unfold ServerDb.execStatus
  show Option.map _ ((db.executions.insert node.1 _).get e) = _
  rw [Table.get_insert _ _ hnew]
  by_cases he : e = node.1
  · rw [if_pos he, if_pos he]
    rfl
  · rw [if_neg he, if_neg he]

/-- The other executions of a new task stay new. -/
theorem createExecution_new (now : Time) (t : TaskId) (taskType : RunnerType)
    (payload : CommandPayload) {node : ExecutionId × AgentId} {nodes : List (ExecutionId × AgentId)}
    (hnew : ∀ n ∈ node :: nodes, db.executions.get n.1 = none)
    (hnodup : ((node :: nodes).map Prod.fst).Nodup) :
    ∀ m ∈ nodes, (db.createExecution now t taskType payload node).executions.get m.1 = none := by
  intro m hm
  obtain ⟨hn, -⟩ := List.nodup_cons.mp hnodup
  have hne : m.1 ≠ node.1 := by
    intro heq
    exact hn (heq ▸ List.mem_map_of_mem hm)
  have hm' := createExecution_execStatus now t taskType payload (hnew node List.mem_cons_self) m.1
  rw [if_neg hne] at hm'
  unfold ServerDb.execStatus at hm'
  rw [hnew m (List.mem_cons_of_mem _ hm)] at hm'
  exact Option.map_eq_none_iff.mp hm'

/-- The executions of a new task, with their run rows. -/
theorem createExecutions_spec (db : ServerDb) (now : Time) (t : TaskId) (taskType : RunnerType)
    (payload : CommandPayload) {nodes : List (ExecutionId × AgentId)}
    (hnew : ∀ n ∈ nodes, db.executions.get n.1 = none) (hnodup : (nodes.map Prod.fst).Nodup) :
    let db' := nodes.foldl (fun db node => db.createExecution now t taskType payload node) db
    Adds (NewRun t (nodes.map Prod.fst)) db db' ∧ db'.tasks = db.tasks ∧
      ∀ e, db'.execStatus e =
        if e ∈ nodes.map Prod.fst then some (t, .pending) else db.execStatus e := by
  induction nodes generalizing db with
  | nil =>
      refine ⟨.refl db, rfl, fun e => ?_⟩
      exact (if_neg List.not_mem_nil).symm
  | cons n nodes ih =>
      obtain ⟨hn, hrest⟩ := List.nodup_cons.mp hnodup
      have hget : db.executions.get n.1 = none := hnew n List.mem_cons_self
      have hstatus := createExecution_execStatus now t taskType payload hget
      obtain ⟨hadds, htasks, hexec⟩ :=
        ih _ (createExecution_new now t taskType payload hnew hnodup) hrest
      refine ⟨?_, htasks, fun e => ?_⟩
      · refine ((createExecution_adds n).mono fun row hrow => ?_).trans
          (hadds.mono fun row hrow => ?_)
        · obtain ⟨htype, htask, he, hpending⟩ := hrow
          exact ⟨htype, htask, List.mem_cons.mpr (.inl (List.mem_singleton.mp he)), hpending⟩
        · obtain ⟨htype, htask, he, hpending⟩ := hrow
          exact ⟨htype, htask, List.mem_cons_of_mem _ he, hpending⟩
      · rw [List.foldl_cons, hexec e, hstatus e, List.map_cons]
        by_cases he : e ∈ nodes.map Prod.fst
        · rw [if_pos he, if_pos (List.mem_cons_of_mem _ he)]
        · rw [if_neg he]
          by_cases hen : e = n.1
          · rw [if_pos hen, if_pos (List.mem_cons.mpr (.inl hen))]
          · rw [if_neg hen, if_neg]
            intro hmem
            rcases List.mem_cons.mp hmem with h | h
            · exact hen h
            · exact he h

/-- **What an executor's first commit does.** -/
theorem createTask_spec (db : ServerDb) (now : Time) (t : TaskId) (task : Task)
    (taskType : RunnerType) (payload : CommandPayload) {nodes : List (ExecutionId × AgentId)}
    (htask : db.tasks.get t = none) (hnew : ∀ n ∈ nodes, db.executions.get n.1 = none)
    (hnodup : (nodes.map Prod.fst).Nodup) :
    let db' := db.createTask now t task taskType payload nodes
    Adds (NewRun t (nodes.map Prod.fst)) db db' ∧
      (∀ e, db'.execStatus e =
        if e ∈ nodes.map Prod.fst then some (t, .pending) else db.execStatus e) ∧
      ∀ t', db'.taskStatus t' =
        if t' = t then some (if nodes = [] then .noTarget else .queued) else db.taskStatus t' := by
  have hinsert : ∀ (row : Task) (t' : TaskId),
      ((db.tasks.insert t row).get t').map (·.status) =
        if t' = t then some row.status else db.taskStatus t' := by
    intro row t'
    rw [Table.get_insert _ _ htask]
    by_cases ht : t' = t
    · rw [if_pos ht, if_pos ht]
      rfl
    · rw [if_neg ht, if_neg ht]
      rfl
  unfold ServerDb.createTask
  simp only
  by_cases hnil : nodes = []
  · subst hnil
    rw [if_pos rfl]
    refine ⟨.of_outbox rfl rfl, fun e => ?_, fun t' => ?_⟩
    · exact (if_neg List.not_mem_nil).symm
    · exact hinsert _ t'
  · rw [if_neg hnil]
    obtain ⟨row, hrow⟩ : ∃ row : Task,
        row = { task with status := .queued, createdAt := now, updatedAt := now } := ⟨_, rfl⟩
    rw [← hrow]
    obtain ⟨hadds, htasks, hexec⟩ := createExecutions_spec
      { db with tasks := db.tasks.insert t row } now t taskType payload hnew hnodup
    refine ⟨⟨hadds.keeps, hadds.adds, hadds.fresh, hadds.next⟩, hexec, fun t' => ?_⟩
    rw [if_neg hnil]
    unfold ServerDb.taskStatus
    rw [htasks, show .queued = row.status by rw [hrow]]
    exact hinsert row t'

theorem createStops_adds (db : ServerDb) (now : Time) (t : TaskId)
    (l : List (ExecutionId × Execution)) :
    let db' := l.foldl (fun db r => db.createStopOutbox now .cancel t r.1 r.2.agentId) db
    Adds Plain db db' ∧ db'.executions = db.executions ∧ db'.tasks = db.tasks := by
  induction l generalizing db with
  | nil => exact ⟨.refl db, rfl, rfl⟩
  | cons r l ih =>
      obtain ⟨hadds, hexec, htasks⟩ := ih (db.createStopOutbox now .cancel t r.1 r.2.agentId)
      exact ⟨(adds_createStopOutbox (.refl db)).trans hadds, hexec, htasks⟩

/-- **What a cancel's first commit does**: unsent rows are canceled, stops added. -/
theorem requestCancel_spec (db : ServerDb) (now : Time) (t : TaskId) :
    Adds Plain (db.cancelUnsentOutbox now t) (db.requestCancel now t) ∧
      (∀ e, (db.requestCancel now t).execStatus e = db.execStatus e) ∧
      ∀ t', (db.requestCancel now t).taskStatus t' = db.taskStatus t' := by
  obtain ⟨hadds, hexec, htasks⟩ := createStops_adds (db.cancelUnsentOutbox now t) now t
    (((db.cancelUnsentOutbox now t).listExecutions t).filter fun r => r.2.status.active)
  exact ⟨hadds, fun e => ServerDb.execStatus_congr hexec e,
    fun t' => ServerDb.taskStatus_congr htasks t'⟩

end Adds

theorem mem_newRows {old db : ServerDb} {r : CommandId × CommandOutbox} :
    r ∈ State.newRows old db ↔ db.outbox.get r.1 = some r.2 ∧ old.nextCommand ≤ r.1 := by
  unfold State.newRows
  rw [List.mem_filter, decide_eq_true_eq]
  exact and_congr_left' Table.mem_rows_iff

/-! ### Rows are merged -/

/-- What a session writes to one row. -/
def rowWrites (c : CommandId) (ws : List Write) : List (CommandOutbox × CommandOutbox) :=
  ws.filterMap fun
    | .row c' loaded new => if c' = c then some (loaded, new) else none
    | .timeout .. => none

/-- The writes to one row, applied in order. -/
def mergeAll (ps : List (CommandOutbox × CommandOutbox)) (row : CommandOutbox) : CommandOutbox :=
  ps.foldl (fun row p => p.1.merge p.2 row) row

section Merges

variable {db : ServerDb} {ws : List Write} {c : CommandId}

theorem applyWrites_outbox :
    (applyWrites db ws).outbox.get c = (db.outbox.get c).map (mergeAll (rowWrites c ws)) := by
  induction ws generalizing db with
  | nil =>
      show db.outbox.get c = _
      exact Option.map_id'.symm
  | cons w ws ih =>
      rw [applyWrites_cons, ih]
      cases w with
      | timeout now t e => rfl
      | row c' loaded new =>
          show Option.map _ ((db.outbox.modify c' _).get c) = _
          rw [Table.get_modify]
          by_cases hc : c = c'
          · rw [if_pos hc, Option.map_map]
            have hrows : rowWrites c (.row c' loaded new :: ws) = (loaded, new) :: rowWrites c ws :=
              List.filterMap_cons_some (if_pos hc.symm)
            rw [hrows]
            rfl
          · rw [if_neg hc]
            have hrows : rowWrites c (.row c' loaded new :: ws) = rowWrites c ws :=
              List.filterMap_cons_none (if_neg fun h => hc h.symm)
            rw [hrows]

theorem applyWrites_nextCommand : (applyWrites db ws).nextCommand = db.nextCommand := by
  induction ws generalizing db with
  | nil => rfl
  | cons w ws ih =>
      rw [applyWrites_cons, ih]
      cases w with
      | row c loaded new => rfl
      | timeout now t e => rfl

/-- Two states of the row of one command. -/
structure SameCommand (row row' : CommandOutbox) : Prop where
  type : row'.type = row.type
  taskId : row'.taskId = row.taskId
  executionId : row'.executionId = row.executionId
  intent : row'.intent = row.intent
  agentId : row'.agentId = row.agentId

theorem SameCommand.refl (row : CommandOutbox) : SameCommand row row := ⟨rfl, rfl, rfl, rfl, rfl⟩

theorem SameCommand.trans {row row' row'' : CommandOutbox} (h : SameCommand row row')
    (h' : SameCommand row' row'') : SameCommand row row'' :=
  ⟨h'.type.trans h.type, h'.taskId.trans h.taskId, h'.executionId.trans h.executionId,
    h'.intent.trans h.intent, h'.agentId.trans h.agentId⟩

theorem SameCommand.symm {row row' : CommandOutbox} (h : SameCommand row row') :
    SameCommand row' row :=
  ⟨h.type.symm, h.taskId.symm, h.executionId.symm, h.intent.symm, h.agentId.symm⟩

theorem mergeAll_same (ps : List (CommandOutbox × CommandOutbox)) (row : CommandOutbox) :
    SameCommand row (mergeAll ps row) := by
  induction ps generalizing row with
  | nil => exact .refl row
  | cons p ps ih =>
      have hstep : SameCommand row (p.1.merge p.2 row) := ⟨rfl, rfl, rfl, rfl, rfl⟩
      exact hstep.trans (ih _)

/-- A row that a session sees is a row, of the same command. -/
theorem applyWrites_get {row : CommandOutbox} (h : (applyWrites db ws).outbox.get c = some row) :
    ∃ row₀, db.outbox.get c = some row₀ ∧ SameCommand row₀ row ∧
      row = mergeAll (rowWrites c ws) row₀ := by
  rw [applyWrites_outbox] at h
  obtain ⟨row₀, hrow₀, rfl⟩ := Option.map_eq_some_iff.mp h
  exact ⟨row₀, hrow₀, mergeAll_same (rowWrites c ws) row₀, rfl⟩

end Merges

/-! ### What holds of every state -/

/-- A run row belongs to an execution of its task. -/
def Owned (db : ServerDb) (row : CommandOutbox) : Prop :=
  row.type = .run → ∃ st, db.execStatus row.executionId = some (row.taskId, st)

/-- The session knows the row of command `c`, in some state. -/
def Tracks (db : ServerDb) (c : CommandId) (row : CommandOutbox) : Prop :=
  ∃ row₀, db.outbox.get c = some row₀ ∧ SameCommand row₀ row

structure SessionWf (db : ServerDb) (x : Session) : Prop where
  todo : ∀ r ∈ x.todo, Tracks db r.1 r.2
  sending : ∀ c row, x.sending = some (c, row) → Tracks db c row
  timeouts : ∀ te ∈ x.timeouts, ∃ st, db.execStatus te.2 = some (te.1, st)
  quiet : x.kind ≠ .tick → x.timeouts = []
  last : ∀ t last, x.kind = .executor t last → ∃ st, db.execStatus last = some (t, st)
  writes : ∀ c loaded new, Write.row c loaded new ∈ x.writes →
    Tracks db c loaded ∧ SameCommand loaded new

structure Wf (s : State) : Prop where
  rows : ∀ c row, s.db.outbox.get c = some row → Owned s.db row
  fresh : ∀ c row, s.db.outbox.get c = some row → c < s.db.nextCommand
  sessions : ∀ i x, s.sessions.get i = some x → SessionWf s.db x

/-- Executions stay with their tasks, and rows with their commands. -/
structure Grows (db db' : ServerDb) : Prop where
  execs : ∀ e t st, db.execStatus e = some (t, st) → ∃ st', db'.execStatus e = some (t, st')
  rows : ∀ c row, db.outbox.get c = some row →
    ∃ row', db'.outbox.get c = some row' ∧ SameCommand row row'

section Wf

variable {s s' : State} {a : Action} {db db' db'' : ServerDb} {x : Session}

theorem Grows.refl (db : ServerDb) : Grows db db where
  execs := fun _ _ st h => ⟨st, h⟩
  rows := fun _ row h => ⟨row, h, .refl row⟩

theorem Grows.trans (h : Grows db db') (h' : Grows db' db'') : Grows db db'' where
  execs := by
    intro e t st he
    obtain ⟨st', he'⟩ := h.execs e t st he
    exact h'.execs e t st' he'
  rows := by
    intro c row hrow
    obtain ⟨row', hrow', hsame⟩ := h.rows c row hrow
    obtain ⟨row'', hrow'', hsame'⟩ := h'.rows c row' hrow'
    exact ⟨row'', hrow'', hsame.trans hsame'⟩

theorem Grows.of_onward (h : db.Onward db')
    (hrows : ∀ c row, db.outbox.get c = some row → db'.outbox.get c = some row) :
    Grows db db' where
  execs := by
    intro e t st he
    obtain ⟨st', he', -⟩ := h.target he
    exact ⟨st', he'⟩
  rows := fun c row hrow => ⟨row, hrows c row hrow, .refl row⟩

theorem Grows.of_writes (ws : List Write) : Grows db (applyWrites db ws) where
  execs := by
    intro e t st he
    have hon : db.Onward (applyWrites db ws) := applyWrites_onward
    obtain ⟨st', he', -⟩ := hon.target he
    exact ⟨st', he'⟩
  rows := by
    intro c row hrow
    refine ⟨mergeAll (rowWrites c ws) row, ?_, mergeAll_same _ row⟩
    rw [applyWrites_outbox, hrow]
    rfl

theorem Owned.grow {row : CommandOutbox} (h : Owned db row) (hg : Grows db db') :
    Owned db' row := by
  intro hrun
  obtain ⟨st, hst⟩ := h hrun
  exact hg.execs _ _ st hst

theorem Owned.same {row row' : CommandOutbox} (h : Owned db row) (hsame : SameCommand row row') :
    Owned db row' := by
  intro hrun
  rw [hsame.taskId, hsame.executionId]
  exact h (hsame.type ▸ hrun)

theorem Tracks.grow {c : CommandId} {row : CommandOutbox} (h : Tracks db c row)
    (hg : Grows db db') : Tracks db' c row := by
  obtain ⟨row₀, hrow₀, hsame⟩ := h
  obtain ⟨row', hrow', hsame'⟩ := hg.rows c row₀ hrow₀
  exact ⟨row', hrow', hsame'.symm.trans hsame⟩

theorem Tracks.owned {c : CommandId} {row : CommandOutbox} (h : Tracks db c row)
    (hrows : ∀ c row, db.outbox.get c = some row → Owned db row) : Owned db row := by
  obtain ⟨row₀, hrow₀, hsame⟩ := h
  exact (hrows c row₀ hrow₀).same hsame

theorem SessionWf.grow (h : SessionWf db x) (hg : Grows db db') : SessionWf db' x where
  todo := fun r hr => (h.todo r hr).grow hg
  sending := fun c row hrow => (h.sending c row hrow).grow hg
  timeouts := by
    intro te hte
    obtain ⟨st, hst⟩ := h.timeouts te hte
    exact hg.execs _ _ st hst
  quiet := h.quiet
  last := by
    intro t last hkind
    obtain ⟨st, hst⟩ := h.last t last hkind
    exact hg.execs _ _ st hst
  writes := by
    intro c loaded new hw
    obtain ⟨htracks, hsame⟩ := h.writes c loaded new hw
    exact ⟨htracks.grow hg, hsame⟩

/-- Failing a task's executions regresses none that the session saw as it is;
in any case it keeps them. -/
theorem failDispatchUnavailable_execStatus {held : HeldRows} {now : Time} {t : TaskId}
    (e : ExecutionId) :
    (db.failDispatchUnavailable held now t).execStatus e = (db.execStatus e).map fun y =>
      (y.1, if y.1 = t ∧ ((held.status e).getD y.2).active = true then .failed else y.2) := by
  unfold ServerDb.failDispatchUnavailable ServerDb.execStatus
  simp only [Table.get_updateAll]
  rw [Option.map_map, Option.map_map]
  show Option.map _ (db.executions.get e) = Option.map _ (db.executions.get e)
  congr 1
  funext y
  simp only [Function.comp_apply]
  split <;> rfl

theorem failDispatchUnavailable_taskStatus {held : HeldRows} {now : Time} {t : TaskId}
    (t' : TaskId) :
    (db.failDispatchUnavailable held now t).taskStatus t' = (db.taskStatus t').map fun st =>
      if t' = t then .failed else st := by
  unfold ServerDb.failDispatchUnavailable ServerDb.taskStatus
  simp only [ServerDb.updateTask_get]
  by_cases ht : t' = t
  · simp only [if_pos ht, Option.map_map]
    rfl
  · simp only [if_neg ht]
    exact (congrArg _ rfl).trans (by rw [Option.map_map]; rfl)

theorem failDispatchUnavailable_grows {held : HeldRows} {now : Time} {t : TaskId} :
    Grows db (db.failDispatchUnavailable held now t) where
  execs := by
    intro e t' st he
    rw [failDispatchUnavailable_execStatus, he]
    exact ⟨_, rfl⟩
  rows := fun _ row hrow => ⟨row, hrow, .refl row⟩

/-! Sessions move. -/

theorem Owned.of_view {ws : List Write} {c : CommandId} {row : CommandOutbox}
    (hrows : ∀ c row, db.outbox.get c = some row → Owned db row)
    (h : (applyWrites db ws).outbox.get c = some row) : Owned db row := by
  obtain ⟨row₀, hrow₀, hsame, -⟩ := applyWrites_get h
  exact (hrows c row₀ hrow₀).same hsame

theorem Tracks.of_view {ws : List Write} {c : CommandId} {row : CommandOutbox}
    (h : (applyWrites db ws).outbox.get c = some row) : Tracks db c row := by
  obtain ⟨row₀, hrow₀, hsame, -⟩ := applyWrites_get h
  exact ⟨row₀, hrow₀, hsame⟩

/-- A write to a row times nothing out. -/
theorem timeouts_row (x : Session) (c : CommandId) (loaded new : CommandOutbox) :
    timeoutsOf (x.writes ++ [.row c loaded new]) = x.timeouts := by
  rw [timeoutsOf_append]
  exact List.append_nil _

theorem mem_timeoutWrites {kind : SessionKind} {now : Time} {row : CommandOutbox}
    {te : TaskId × ExecutionId} :
    te ∈ timeoutsOf (Session.timeoutWrites kind now row) ↔
      kind = .tick ∧ row.type = .run ∧ te = (row.taskId, row.executionId) := by
  unfold Session.timeoutWrites
  by_cases h : kind = .tick ∧ row.type = .run
  · rw [if_pos h]
    simp [timeoutsOf, h]
  · rw [if_neg h]
    simp only [timeoutsOf, List.filterMap_nil, List.not_mem_nil, false_iff]
    exact fun hc => h ⟨hc.1, hc.2.1⟩

theorem timeoutsOf_requeueWrites {now : Time} {cs : List CommandId} :
    timeoutsOf (requeueWrites db now cs) = [] := by
  rw [List.eq_nil_iff_forall_not_mem]
  intro te hte
  obtain ⟨w, hw, hte⟩ := List.mem_filterMap.mp hte
  obtain ⟨c, -, hc⟩ := List.mem_filterMap.mp hw
  obtain ⟨row, -, rfl⟩ := Option.map_eq_some_iff.mp hc
  cases hte

theorem timeouts_failed {c : CommandId} {loaded new row : CommandOutbox} {kind : SessionKind}
    {now : Time} {te : TaskId × ExecutionId} :
    te ∈ timeoutsOf (x.writes ++ .row c loaded new :: Session.timeoutWrites kind now row) ↔
      te ∈ x.timeouts ∨ kind = .tick ∧ row.type = .run ∧ te = (row.taskId, row.executionId) := by
  rw [timeoutsOf_append, List.mem_append, timeoutsOf_row, mem_timeoutWrites]
  exact Iff.rfl

variable {x' : Session}

/-- A row is written beside timeouts. -/
theorem SessionWf.write (h : SessionWf db x) {c : CommandId} {loaded new : CommandOutbox}
    {tail : List Write} (hrow : Tracks db c loaded) (hsame : SameCommand loaded new)
    (htail : ∀ c loaded new, Write.row c loaded new ∉ tail) :
    ∀ c' loaded' new', Write.row c' loaded' new' ∈ x.writes ++ .row c loaded new :: tail →
      Tracks db c' loaded' ∧ SameCommand loaded' new' := by
  intro c' loaded' new' hw
  rcases List.mem_append.mp hw with hw | hw
  · exact h.writes c' loaded' new' hw
  · rcases List.mem_cons.mp hw with hw | hw
    · cases hw
      exact ⟨hrow, hsame⟩
    · exact absurd hw (htail c' loaded' new')

theorem not_mem_timeoutWrites {kind : SessionKind} {now : Time} {row : CommandOutbox} :
    ∀ c loaded new, Write.row c loaded new ∉ Session.timeoutWrites kind now row := by
  intro c loaded new hw
  unfold Session.timeoutWrites at hw
  split at hw
  · cases List.mem_singleton.mp hw
  · cases hw

theorem SessionWf.refreshed {now : Time} (h : SessionWf db x)
    (hx : Session.Refreshed x db now x') : SessionWf db x' := by
  cases hx with
  | sent _ htodo _ _ =>
      refine ⟨fun r hr => h.todo r ?_, h.sending, h.timeouts, h.quiet, h.last, h.writes⟩
      rw [htodo]
      exact List.mem_cons_of_mem _ hr
  | canceled _ htodo _ _ =>
      refine ⟨fun r hr => h.todo r ?_, h.sending, h.timeouts, h.quiet, h.last, h.writes⟩
      rw [htodo]
      exact List.mem_cons_of_mem _ hr
  | notDispatchable _ htodo hrow _ _ _ _ =>
      refine ⟨fun r hr => h.todo r ?_, h.sending, ?_, ?_, h.last,
        h.write (.of_view hrow) ⟨rfl, rfl, rfl, rfl, rfl⟩ fun _ _ _ => List.not_mem_nil⟩
      · rw [htodo]
        exact List.mem_cons_of_mem _ hr
      · intro te hte
        exact h.timeouts te (timeouts_row x .. ▸ hte)
      · intro hkind
        exact (timeouts_row x ..).trans (h.quiet hkind)
  | send _ htodo hrow _ _ _ =>
      refine ⟨fun r hr => h.todo r ?_, ?_, h.timeouts, h.quiet, h.last, h.writes⟩
      · rw [htodo]
        exact List.mem_cons_of_mem _ hr
      · intro c' row' hsending
        obtain ⟨rfl, rfl⟩ := Prod.mk.inj (Option.some.inj hsending)
        exact .of_view hrow

theorem SessionWf.appended {now : Time} {msg : Option MessageId}
    (hrows : ∀ c row, db.outbox.get c = some row → Owned db row) (h : SessionWf db x)
    (hx : Session.Appended x now msg x') : SessionWf db x' := by
  cases hx with
  | sent m hsending =>
      refine ⟨h.todo, (by intro _ _ hc; cases hc), ?_, ?_, h.last,
        h.write (h.sending _ _ hsending) ⟨rfl, rfl, rfl, rfl, rfl⟩ fun _ _ _ => List.not_mem_nil⟩
      · intro te hte
        exact h.timeouts te (timeouts_row x .. ▸ hte)
      · intro hkind
        exact (timeouts_row x ..).trans (h.quiet hkind)
  | retry hsending _ =>
      refine ⟨h.todo, (by intro _ _ hc; cases hc), ?_, ?_, h.last,
        h.write (h.sending _ _ hsending) ⟨rfl, rfl, rfl, rfl, rfl⟩ fun _ _ _ => List.not_mem_nil⟩
      · intro te hte
        exact h.timeouts te (timeouts_row x .. ▸ hte)
      · intro hkind
        exact (timeouts_row x ..).trans (h.quiet hkind)
  | @failed c row hsending =>
      refine ⟨h.todo, (by intro _ _ hc; cases hc), ?_, ?_, h.last,
        h.write (h.sending _ _ hsending) ⟨rfl, rfl, rfl, rfl, rfl⟩ not_mem_timeoutWrites⟩
      · intro te hte
        rcases timeouts_failed.mp hte with hte | ⟨-, hrun, rfl⟩
        · exact h.timeouts te hte
        · exact (h.sending c row hsending).owned hrows hrun
      · intro hkind
        rw [List.eq_nil_iff_forall_not_mem]
        intro te hte
        rcases timeouts_failed.mp hte with hte | ⟨htick, -⟩
        · rw [h.quiet hkind] at hte
          cases hte
        · exact hkind htick

theorem SessionWf.gaveUp {now : Time}
    (hrows : ∀ c row, db.outbox.get c = some row → Owned db row) (h : SessionWf db x)
    (hx : x.giveUp now = some x') :
    SessionWf db x' := by
  obtain ⟨c, loaded, todo, hkind, -, htodo, -, rfl⟩ := Session.gaveUp hx
  have hloaded : (c, loaded) ∈ x.todo := by
    rw [htodo]
    exact List.mem_cons_self
  refine ⟨fun r hr => h.todo r ?_, h.sending, ?_, fun hc => absurd hkind hc, h.last,
    h.write (h.todo _ hloaded) ⟨rfl, rfl, rfl, rfl, rfl⟩ not_mem_timeoutWrites⟩
  · rw [htodo]
    exact List.mem_cons_of_mem _ hr
  · intro te hte
    rcases timeouts_failed.mp hte with hte | ⟨-, hrun, rfl⟩
    · exact h.timeouts te hte
    · exact (h.todo _ hloaded).owned hrows hrun

/-! The machine moves. -/

theorem step_grows (h : step s a = some s') : Grows s.db s'.db := by
  cases step_cases h with
  | write _ => exact .of_onward (Writer.apply_onward _ _).1 (writer_adds _).keeps
  | issue htype hstatus hmsg =>
      have hadds : Adds Plain s.db (s.db.addOutbox _) := .of_addOutbox ⟨htype, hstatus, hmsg⟩
      exact .of_onward (.of_executions rfl) hadds.keeps
  | noTarget _ => exact .of_onward (.of_executions rfl) fun _ _ hrow => hrow
  | @create now t task taskType payload nodes last htask hnew hnodup _ =>
      obtain ⟨hadds, hexec, -⟩ :=
        createTask_spec s.db now t task taskType payload htask hnew hnodup
      refine ⟨fun e t st he => ?_, fun c row hrow => ⟨row, hadds.keeps c row hrow, .refl row⟩⟩
      have hnot : e ∉ List.map Prod.fst nodes := fun hmem => by
        obtain ⟨n, hn, hne⟩ := List.mem_map.mp hmem
        unfold ServerDb.execStatus at he
        rw [← hne, hnew n hn] at he
        cases he
      refine ⟨st, (hexec e).trans ?_⟩
      rw [if_neg hnot]
      exact he
  | @cancel now t =>
      obtain ⟨hadds, hexec, -⟩ := requestCancel_spec s.db now t
      refine ⟨fun e t st he => ⟨st, (hexec e).trans he⟩, fun c row hrow => ?_⟩
      have hget := Table.get_updateAll s.db.outbox (fun _ r =>
        if r.taskId = t ∧ r.status.unresolved = true then
          { r with status := .canceled, updatedAt := now }
        else r) c
      rw [hrow] at hget
      refine ⟨_, hadds.keeps c _ hget, ?_⟩
      simp only
      split
      · exact ⟨rfl, rfl, rfl, rfl, rfl⟩
      · exact .refl row
  | tick _ _ _ _ _ => exact .refl _
  | refresh _ _ => exact .refl _
  | sent _ _ _ => exact .refl _
  | raised _ _ => exact .refl _
  | giveUp _ _ => exact .refl _
  | commit hx hdb =>
      cases Session.committed hdb with
      | done _ _ _ => exact .of_writes _
      | unavailable _ _ _ _ _ => exact (Grows.of_writes _).trans failDispatchUnavailable_grows
  | abort => exact .refl _
  | vanish => exact .refl _

/-- A session of the next state: one of this state, moved at most, or a new one. -/
theorem sessions_cases {i j : SessionId} {x' : Session} {db' : ServerDb} {streams nextMsg}
    (h : ({ s with db := db', streams := streams, nextMsg := nextMsg }.setSession i x').sessions.get j
      = some x) : s.sessions.get j = some x ∨ j = i ∧ x = x' := by
  rw [State.setSession, Table.get_modify] at h
  by_cases hj : j = i
  · rw [if_pos hj] at h
    obtain ⟨y, -, rfl⟩ := Option.map_eq_some_iff.mp h
    exact .inr ⟨hj, rfl⟩
  · rw [if_neg hj] at h
    exact .inl h

theorem addSession_cases {j : SessionId} (h : (s.addSession x').sessions.get j = some x) :
    s.sessions.get j = some x ∨ j = s.nextSession ∧ x = x' := by
  rw [State.addSession] at h
  rcases hget : s.sessions.get s.nextSession with - | y
  · rw [show (s.sessions.insert s.nextSession x').get j = _ from Table.get_insert _ _ hget j] at h
    by_cases hj : j = s.nextSession
    · rw [if_pos hj] at h
      exact .inr ⟨hj, (Option.some.inj h).symm⟩
    · rw [if_neg hj] at h
      exact .inl h
  · have hmem : s.nextSession ∈ s.sessions.rows.map Prod.fst := Table.mem_keys_iff.mpr ⟨y, hget⟩
    rw [show s.sessions.insert s.nextSession x' = s.sessions by rw [Table.insert, dif_pos hmem]] at h
    exact .inl h

theorem eraseSession_cases {i j : SessionId} (h : (s.sessions.erase i).get j = some x) :
    s.sessions.get j = some x := by
  rw [Table.get_erase] at h
  split at h
  · cases h
  · exact h

theorem Wf.start : Wf State.start where
  rows := by
    intro c row hrow
    cases hrow
  fresh := by
    intro c row hrow
    cases hrow
  sessions := by
    intro i x hx
    cases hx

/-- New rows of a task belong to its executions. -/
theorem Owned.of_newRun {t : TaskId} {es : List ExecutionId} {row : CommandOutbox}
    (hexec : ∀ e ∈ es, ∃ st, db.execStatus e = some (t, st)) (h : NewRun t es row) :
    Owned db row := by
  obtain ⟨-, rfl, he, -⟩ := h
  exact fun _ => hexec _ he

theorem Owned.of_plain {row : CommandOutbox} (h : Plain row) : Owned db row :=
  fun hrun => absurd hrun h.1

/-- Rows stay owned when the outbox only gets owned rows. -/
theorem rows_of_adds {P : CommandOutbox → Prop} (hadds : Adds P db db') (hg : Grows db db')
    (hP : ∀ row, P row → Owned db' row)
    (hrows : ∀ c row, db.outbox.get c = some row → Owned db row) :
    ∀ c row, db'.outbox.get c = some row → Owned db' row := by
  intro c row hrow
  rcases hadds.adds c row hrow with hold | ⟨-, hnew⟩
  · exact (hrows c row hold).grow hg
  · exact hP row hnew

/-- **Every step keeps a state well formed.** -/
theorem step_wf (hwf : Wf s) (h : step s a = some s') : Wf s' := by
  have hg := step_grows h
  have hold : ∀ i x, s.sessions.get i = some x → SessionWf s'.db x :=
    fun i x hx => (hwf.sessions i x hx).grow hg
  have hview : ∀ ws : List Write, ∀ c row, (applyWrites s.db ws).outbox.get c = some row →
      c < (applyWrites s.db ws).nextCommand := by
    intro ws c row hrow
    obtain ⟨row₀, hrow₀, -, -⟩ := applyWrites_get hrow
    rw [applyWrites_nextCommand]
    exact hwf.fresh c row₀ hrow₀
  cases step_cases h with
  | write _ =>
      exact ⟨rows_of_adds (writer_adds _) hg (fun _ => .of_plain) hwf.rows,
        (writer_adds _).fresh hwf.fresh, hold⟩
  | issue htype hstatus hmsg =>
      have hadds : Adds Plain s.db (s.db.addOutbox _) := .of_addOutbox ⟨htype, hstatus, hmsg⟩
      exact ⟨rows_of_adds hadds hg (fun _ => .of_plain) hwf.rows, hadds.fresh hwf.fresh, hold⟩
  | @noTarget now t task taskType payload htask =>
      obtain ⟨hadds, hexec, -⟩ := createTask_spec s.db now t task taskType payload htask
        (fun n hn => absurd hn List.not_mem_nil) List.nodup_nil
      refine ⟨rows_of_adds hadds hg (fun row hrow => ?_) hwf.rows, hadds.fresh hwf.fresh, hold⟩
      exact absurd hrow.2.2.1 List.not_mem_nil
  | @create now t task taskType payload nodes last htask hnew hnodup hlast =>
      obtain ⟨hadds, hexec, -⟩ :=
        createTask_spec s.db now t task taskType payload htask hnew hnodup
      have hnodes := fun e he => (hexec e).trans (if_pos he)
      have hrows := rows_of_adds hadds hg
        (fun row => .of_newRun fun e he => ⟨_, hnodes e he⟩) hwf.rows
      refine ⟨hrows, hadds.fresh hwf.fresh, fun i x hx => ?_⟩
      rcases addSession_cases hx with hx | ⟨-, rfl⟩
      · exact hold i x hx
      · refine ⟨fun r hr => ⟨r.2, (mem_newRows.mp hr).1, .refl _⟩, (by intro _ _ hc; cases hc),
          (by intro _ hc; cases hc), fun _ => rfl, ?_, (by intro _ _ _ hc; cases hc)⟩
        intro t last hkind
        cases hkind
        exact ⟨_, hnodes _ (List.mem_map_of_mem (List.mem_of_getLast? hlast))⟩
  | @cancel now t =>
      obtain ⟨hadds, hexec, -⟩ := requestCancel_spec s.db now t
      have hcanceled : ∀ c row, (s.db.cancelUnsentOutbox now t).outbox.get c = some row →
          Owned (s.db.cancelUnsentOutbox now t) row ∧
            c < (s.db.cancelUnsentOutbox now t).nextCommand := by
        intro c row hrow
        obtain ⟨row₀, hrow₀, rfl⟩ := Option.map_eq_some_iff.mp
          ((Table.get_updateAll _ _ c).symm.trans hrow)
        refine ⟨?_, hwf.fresh c row₀ hrow₀⟩
        split
        · exact hwf.rows c row₀ hrow₀
        · exact hwf.rows c row₀ hrow₀
      have hrows := rows_of_adds hadds
        ⟨fun e t st he => ⟨st, (hexec e).trans he⟩, fun c row hrow => ⟨row, hadds.keeps c row hrow,
          .refl row⟩⟩ (fun _ => .of_plain) fun c row hrow => (hcanceled c row hrow).1
      refine ⟨hrows, hadds.fresh fun c row hrow => (hcanceled c row hrow).2, fun i x hx => ?_⟩
      rcases addSession_cases hx with hx | ⟨-, rfl⟩
      · exact hold i x hx
      · refine ⟨fun r hr => ⟨r.2, (mem_newRows.mp hr).1, .refl _⟩, (by intro _ _ hc; cases hc),
          (by intro _ hc; cases hc), fun _ => rfl, (by intro _ _ hc; cases hc),
          (by intro _ _ _ hc; cases hc)⟩
  | @tick now requeued rows _ _ _ _ _ =>
      refine ⟨hwf.rows, hwf.fresh, fun i x hx => ?_⟩
      rcases addSession_cases hx with hx | ⟨-, rfl⟩
      · exact hold i x hx
      · have hquiet : (tickSession s.db now requeued rows).timeouts = [] :=
          timeoutsOf_requeueWrites
        refine ⟨fun r hr => ?_, (by intro _ _ hc; cases hc), ?_, fun _ => hquiet,
          (by intro _ _ hc; cases hc), ?_⟩
        · obtain ⟨c, -, hc⟩ := List.mem_filterMap.mp hr
          obtain ⟨row, hrow, rfl⟩ := Option.map_eq_some_iff.mp hc
          exact .of_view hrow
        · rw [hquiet]
          intro te hte
          cases hte
        · intro c loaded new hw
          obtain ⟨c', -, hc'⟩ := List.mem_filterMap.mp hw
          obtain ⟨row, hrow, heq⟩ := Option.map_eq_some_iff.mp hc'
          cases heq
          exact ⟨⟨_, hrow, .refl _⟩, ⟨rfl, rfl, rfl, rfl, rfl⟩⟩
  | refresh hx hx' =>
      refine ⟨hwf.rows, hwf.fresh, fun j y hy => ?_⟩
      rcases sessions_cases hy with hy | ⟨-, rfl⟩
      · exact hold j y hy
      · exact (hwf.sessions _ _ hx).refreshed (Session.refreshed hx')
  | sent hx hsending hx' =>
      refine ⟨hwf.rows, hwf.fresh, fun j y hy => ?_⟩
      rcases sessions_cases hy with hy | ⟨-, rfl⟩
      · exact hold j y hy
      · exact (hwf.sessions _ _ hx).appended hwf.rows (Session.appended hx')
  | raised hx hx' =>
      refine ⟨hwf.rows, hwf.fresh, fun j y hy => ?_⟩
      rcases sessions_cases hy with hy | ⟨-, rfl⟩
      · exact hold j y hy
      · exact (hwf.sessions _ _ hx).appended hwf.rows (Session.appended hx')
  | giveUp hx hx' =>
      refine ⟨hwf.rows, hwf.fresh, fun j y hy => ?_⟩
      rcases sessions_cases hy with hy | ⟨-, rfl⟩
      · exact hold j y hy
      · exact (hwf.sessions _ _ hx).gaveUp hwf.rows hx'
  | commit hx hdb =>
      refine ⟨?_, ?_, fun j y hy => hold j y (eraseSession_cases hy)⟩
      · cases Session.committed hdb with
        | done _ _ _ => exact fun c row hrow => (Owned.of_view hwf.rows hrow).grow hg
        | unavailable _ _ _ _ _ => exact fun c row hrow => (Owned.of_view hwf.rows hrow).grow hg
      · cases Session.committed hdb with
        | done _ _ _ => exact hview _
        | unavailable _ _ _ _ _ => exact hview _
  | abort => exact ⟨hwf.rows, hwf.fresh, fun j y hy => hold j y (eraseSession_cases hy)⟩
  | vanish => exact ⟨hwf.rows, hwf.fresh, hold⟩

end Wf

end Dispatch

end Dopilot
