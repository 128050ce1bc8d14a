/-
Dopilot/NoProgress.lean

Executions that are alive but do not progress.

A reconcile pass reads the active executions, judges them as it has read them,
and commits.  It alerts of an execution whose log has not grown for long, sets
the latch `no_progress_at`, and may ask to stop it.  Events advance the clock of
progress and clear the latch, each in a transaction of its own: a life-cycle
event under the lock of its row, a heartbeat on the row as it has read it.

The latch makes an alert one-shot, whatever comes in between.  A verdict,
however, is on the rows that were read.  It is justified by the rows as they are
committed exactly if no recent progress has been committed since
(`verdicts_justified_iff`).
-/
import Dopilot.Judgements
import Dopilot.Latch

namespace Dopilot

open StateMachine

namespace NoProgress

/-! ### Verdicts -/

/-- The last progress that is known of an execution. -/
def progressClock (x : Execution) : Time :=
  (x.lastProgressAt.orElse fun _ => x.startedAt).getD x.createdAt

/-- The judgement of `_check_no_progress`. -/
def stuck (settings : AgentsSettings) (now : Time) (x : Execution) : Bool :=
  match x.lastProgressSampleAt with
  | none => false
  | some sampled =>
      !decide (settings.noProgressStallSeconds ≤ 0 ∨ x.noProgressAt.isSome ∨
        x.status.active = false ∨ settings.noProgressSampleMaxAgeSeconds < now - sampled ∨
        now - progressClock x < settings.noProgressStallSeconds)

/-- The pass takes the execution to be alive: neither unreachable nor lost. -/
def watched (settings : AgentsSettings) (now : Time) (lastSeen : Option Time) (x : Execution) :
    Bool :=
  (match lastSeen with
    | none => false
    | some seen => !decide (settings.heartbeatTimeoutSeconds < now - seen)) &&
  !decide (settings.lostAfterStalledSeconds ≤
    now - (x.lastEventAt.orElse fun _ => x.startedAt).getD x.createdAt)

/-- The pass alerts of the execution. -/
def raises (settings : AgentsSettings) (now : Time) (lastSeen : Option Time) (x : Execution) :
    Bool :=
  watched settings now lastSeen x && stuck settings now x

/-- **A verdict is justified** by a row: its progress is as old as the threshold,
and its sample is fresh. -/
def Justified (settings : AgentsSettings) (now : Time) (x : Execution) : Prop :=
  settings.noProgressStallSeconds ≤ now - progressClock x ∧
    ∃ sampled, x.lastProgressSampleAt = some sampled ∧
      now - sampled ≤ settings.noProgressSampleMaxAgeSeconds

theorem stuck_iff {settings : AgentsSettings} {now : Time} {x : Execution} :
    stuck settings now x = true ↔
      0 < settings.noProgressStallSeconds ∧ x.noProgressAt = none ∧ x.status.active = true ∧
        Justified settings now x := by
  unfold stuck Justified
  cases hs : x.lastProgressSampleAt with
  | none => simp
  | some sampled => simp [and_comm, and_left_comm]

/-! ### The machine -/

/-- A heartbeat that has read its row. -/
structure Beat where
  ev : AgentEvent
  msg : MessageId
  now : Time
  row : Execution

/-- The sample of the heartbeat has grown. -/
def Beat.grows (b : Beat) : Bool := b.ev.logBytes.any fun n => b.row.logBytes.getD 0 < n

/-- The heartbeat writes what differs from the row it has read. -/
def Beat.write (b : Beat) (y : Execution) : Execution :=
  let y := { y with
    lastEventAt := some b.now
    stalledAt := if b.row.stalledAt.isSome then none else y.stalledAt }
  match b.ev.logBytes with
  | none => y
  | some n =>
      let y := { y with lastProgressSampleAt := some b.now }
      if b.row.logBytes.getD 0 < n then
        { y with
          logBytes := some n
          lastProgressAt := some b.now
          noProgressAt := if b.row.noProgressAt.isSome then none else y.noProgressAt }
      else y

/-- On the row it has read, this is the heartbeat. -/
theorem Beat.write_row (b : Beat) : b.write b.row = heartbeatExecution b.row b.ev b.now := by
  have hlatch : ∀ stamp : Option Time, (if stamp.isSome then none else stamp) = none := by
    intro stamp
    cases stamp with
    | none => rfl
    | some t => rfl
  unfold Beat.write heartbeatExecution
  cases b.ev.logBytes with
  | none => simp only [hlatch]
  | some n => simp only [hlatch]

/-- The commit of a heartbeat; a lost execution is reclaimed once. -/
def Beat.commit (b : Beat) (db : ServerDb) : ServerDb :=
  let db := db.updateExecution b.ev.executionId b.write
  if b.row.status = .lost ∧ db.reclaimEverIssued b.ev.executionId = false then
    (db.createStopOutbox b.now .reclaim b.row.taskId b.ev.executionId b.row.agentId).audit b.msg
      b.ev .reclaimRequested
  else db

/-- A pass that has read its rows, and the last progress of each execution that
has been committed since. -/
structure Pass where
  now : Time
  lastSeen : AgentId → Option Time
  rows : List (ExecutionId × Execution)
  moved : ExecutionId → Option Time := fun _ => none

/-- The executions the pass alerts of. -/
def Pass.raised (settings : AgentsSettings) (p : Pass) : List ExecutionId :=
  (p.rows.filter fun r => raises settings p.now (p.lastSeen r.2.agentId) r.2).map Prod.fst

/-- What has happened, as it was committed. -/
inductive Entry where
  | progress (e : ExecutionId)
  | alert (e : ExecutionId)
  | stop (e : ExecutionId)
  deriving DecidableEq, Repr

structure State where
  db : ServerDb
  clock : Time
  beat : Option Beat := none
  pass : Option Pass := none
  log : List Entry := []

def start : State where
  db := .empty
  clock := 0

inductive Action where
  | tick (d : Nat)
  | create (t : TaskId) (task : Task) (taskType : RunnerType) (payload : CommandPayload)
      (nodes : List (ExecutionId × AgentId))
  /-- A life-cycle event. -/
  | event (ev : AgentEvent) (msg : MessageId)
  /-- A heartbeat reads its row, and later commits. -/
  | beat (ev : AgentEvent) (msg : MessageId)
  | commitBeat
  /-- A pass reads its rows, and later commits. -/
  | load (lastSeen : AgentId → Option Time)
  | commit (held : HeldRows) (orphans : List TaskId)
  /-- A transaction fails, and nothing of it is written. -/
  | rollbackBeat
  | rollbackPass

/-- A progress point of an execution is committed. -/
def State.progressed (s : State) (e : ExecutionId) (t : Time) : State :=
  { s with
    pass := s.pass.map fun p => { p with moved := Function.update p.moved e (some t) }
    log := .progress e :: s.log }

/-- The rows that `reconcile_once` selects. -/
def activeRows (db : ServerDb) : List (ExecutionId × Execution) :=
  db.executions.rows.filter fun r =>
    (db.taskStatus r.2.taskId).any TaskStatus.active && r.2.status.active

/-- The execution that a command row asks to cancel. -/
def cancelOf (r : CommandId × CommandOutbox) : Option ExecutionId :=
  if r.2.type = .stop ∧ r.2.intent = some .cancel then some r.2.executionId else none

/-- The writes of a pass; `repair_orphaned_tasks` comes last. -/
def Pass.apply (settings : AgentsSettings) (p : Pass) (held : HeldRows) (orphans : List TaskId)
    (db : ServerDb) : ServerDb :=
  orphans.foldl (fun db t => db.repairOrphanedTask settings held p.now t)
    (p.rows.foldl (fun db r =>
      db.reconcileExecution settings held p.now (p.lastSeen r.2.agentId) r.1 r.2) db)

/-- The cancels that a transaction has added to the outbox. -/
def newCancels (db db' : ServerDb) : List ExecutionId :=
  (db'.outbox.rows.drop db.outbox.rows.length).filterMap cancelOf

/-- A life-cycle event that is applied to an execution. -/
def moves (db : ServerDb) (ev : AgentEvent) (msg : MessageId) : Bool :=
  (db.audits.get msg).isNone && (db.executions.get ev.executionId).isSome

def step (settings : AgentsSettings) (s : State) : Action → Option State
  | .tick d => some { s with clock := s.clock + d }
  | .create t task taskType payload nodes =>
      if (s.db.tasks.get t).isSome ∨ ∃ n ∈ nodes, (s.db.executions.get n.1).isSome then none
      else some { s with db := s.db.createTask s.clock t task taskType payload nodes }
  | .event ev msg =>
      if s.beat.isSome ∨ ev.type.toExec = none then none
      else
        let s' := { s with db := (s.db.applyEvent s.clock ev msg).1 }
        some (if moves s.db ev msg then s'.progressed ev.executionId s.clock else s')
  | .beat ev msg =>
      if s.beat.isSome ∨ ev.type.toExec ≠ none then none
      else
        match s.db.executions.get ev.executionId with
        | none => some s
        | some x => some { s with beat := some ⟨ev, msg, s.clock, x⟩ }
  | .commitBeat =>
      match s.beat with
      | none => none
      | some b =>
          let s' := { s with db := b.commit s.db, beat := none }
          some (if b.grows then s'.progressed b.ev.executionId b.now else s')
  | .load lastSeen =>
      if s.pass.isSome then none
      else some { s with pass := some ⟨s.clock, lastSeen, activeRows s.db, fun _ => none⟩ }
  | .rollbackBeat => some { s with beat := none }
  | .rollbackPass => some { s with pass := none }
  | .commit held orphans =>
      match s.pass with
      | none => none
      | some p =>
          let db := p.apply settings held orphans s.db
          some { s with
            db := db
            pass := none
            log := ((newCancels s.db db).map .stop ++ (p.raised settings).map .alert) ++ s.log }

/-! ### What a pass does to a row -/

/-- The clocks by which a verdict is judged. -/
structure SameClocks (x y : Execution) : Prop where
  progress : progressClock y = progressClock x
  sample : y.lastProgressSampleAt = x.lastProgressSampleAt

theorem SameClocks.refl (x : Execution) : SameClocks x x := ⟨rfl, rfl⟩

theorem SameClocks.trans {x y z : Execution} (h : SameClocks x y) (h' : SameClocks y z) :
    SameClocks x z := ⟨h'.progress.trans h.progress, h'.sample.trans h.sample⟩

/-- Rows keep their clocks, and those of the listed executions are latched. -/
structure Latched (raised : List ExecutionId) (now : Time) (db db' : ServerDb) : Prop where
  rows : ∀ e x, db.executions.get e = some x → ∃ y, db'.executions.get e = some y ∧
    SameClocks x y ∧ y.noProgressAt = if e ∈ raised then some now else x.noProgressAt
  none : ∀ e, db.executions.get e = none → db'.executions.get e = none

section Rows

variable {db db' db'' : ServerDb} {now : Time} {settings : AgentsSettings}

theorem Latched.refl (now : Time) (db : ServerDb) : Latched [] now db db where
  rows := fun _ x hx => ⟨x, hx, .refl x, rfl⟩
  none := fun _ h => h

theorem Latched.trans {l l' : List ExecutionId} (h : Latched l now db db')
    (h' : Latched l' now db' db'') : Latched (l ++ l') now db db'' where
  rows := by
    intro e x hx
    obtain ⟨y, hy, hclocks, hlatch⟩ := h.rows e x hx
    obtain ⟨z, hz, hclocks', hlatch'⟩ := h'.rows e y hy
    refine ⟨z, hz, hclocks.trans hclocks', ?_⟩
    rw [hlatch', hlatch]
    by_cases hl' : e ∈ l'
    · rw [if_pos hl', if_pos (List.mem_append_right l hl')]
    · rw [if_neg hl']
      by_cases hl : e ∈ l
      · rw [if_pos hl, if_pos (List.mem_append_left l' hl)]
      · rw [if_neg hl, if_neg]
        exact fun hmem => (List.mem_append.mp hmem).elim hl hl'
  none := fun e he => h'.none e (h.none e he)

/-- One row is written, and its clocks stay. -/
theorem Latched.of_modify {e : ExecutionId} {f : Execution → Execution}
    (h : db'.executions = db.executions.modify e f) (hclocks : ∀ x, SameClocks x (f x))
    (hlatch : ∀ x, (f x).noProgressAt = x.noProgressAt) : Latched [] now db db' where
  rows := by
    intro e' x hx
    rw [h, Table.get_modify, hx]
    split
    · exact ⟨f x, rfl, hclocks x, hlatch x⟩
    · exact ⟨x, rfl, .refl x, rfl⟩
  none := by
    intro e' hx
    rw [h, Table.get_modify, hx]
    split
    · rfl
    · rfl

theorem Latched.of_executions (h : db'.executions = db.executions) : Latched [] now db db' where
  rows := by
    intro e x hx
    exact ⟨x, by rw [h]; exact hx, .refl x, rfl⟩
  none := by
    intro e hx
    rw [h]
    exact hx

theorem latched_markLost (held : HeldRows) (e : ExecutionId) (reason : ExecLostReason)
    (at_ : Time) : Latched [] now db (db.markLost held e reason at_).1 := by
  rcases Judgements.markLost_rows db held e reason at_ with hsame | ⟨x, f, -, -, hexec, -, -⟩
  · rw [hsame]
    exact .refl now db
  · exact .of_modify hexec (fun x => ⟨rfl, rfl⟩) fun x => rfl

/-- What an alert writes. -/
def markStuck (settings : AgentsSettings) (now : Time) (e : ExecutionId) (x : Execution)
    (db : ServerDb) : ServerDb :=
  let db := db.updateExecution e fun x => { x with noProgressAt := some now }
  if settings.autoStopOnNoProgress then db.createStopOutbox now .cancel x.taskId e x.agentId
  else db

theorem checkNoProgress_eq (e : ExecutionId) (x : Execution) :
    db.checkNoProgress settings now e x =
      if stuck settings now x then markStuck settings now e x db else db := by
  cases hs : x.lastProgressSampleAt with
  | none =>
      have hstuck : stuck settings now x = false := by rw [stuck, hs]
      rw [hstuck, ServerDb.checkNoProgress, hs]
      rfl
  | some sampled =>
      have hcheck : db.checkNoProgress settings now e x =
          if settings.noProgressStallSeconds ≤ 0 ∨ x.noProgressAt.isSome ∨
            x.status.active = false ∨ settings.noProgressSampleMaxAgeSeconds < now - sampled ∨
            now - progressClock x < settings.noProgressStallSeconds then db
          else markStuck settings now e x db := by
        rw [ServerDb.checkNoProgress, hs]
        rfl
      have hstuck : stuck settings now x =
          !decide (settings.noProgressStallSeconds ≤ 0 ∨ x.noProgressAt.isSome ∨
            x.status.active = false ∨ settings.noProgressSampleMaxAgeSeconds < now - sampled ∨
            now - progressClock x < settings.noProgressStallSeconds) := by rw [stuck, hs]
      rw [hcheck, hstuck]
      split
      · rename_i hguard
        rw [decide_eq_true hguard]
        rfl
      · rename_i hguard
        rw [decide_eq_false hguard]
        rfl

theorem latched_markStuck (e : ExecutionId) (x : Execution) :
    Latched [e] now db (markStuck settings now e x db) := by
  have hmark : Latched [e] now db
      (db.updateExecution e fun x => { x with noProgressAt := some now }) := by
    constructor
    · intro e' x hx
      rw [ServerDb.updateExecution_get, hx]
      by_cases he : e' = e
      · rw [if_pos he, if_pos (List.mem_singleton.mpr he)]
        exact ⟨_, rfl, ⟨rfl, rfl⟩, rfl⟩
      · rw [if_neg he, if_neg (fun hmem => he (List.mem_singleton.mp hmem))]
        exact ⟨x, rfl, .refl x, rfl⟩
    · intro e' hx
      rw [ServerDb.updateExecution_get, hx]
      split
      · rfl
      · rfl
  unfold markStuck
  dsimp only
  split
  · exact hmark.trans (.of_executions rfl)
  · exact hmark

/-- A row is marked as stalled, or nothing is written. -/
def Unjudged (now : Time) (db db' : ServerDb) : Prop :=
  Latched [] now db db' ∧ db'.outbox = db.outbox

/-- What one execution of a pass comes to: a loss, nothing to alert of, or an alert. -/
inductive Reconciled (settings : AgentsSettings) (now : Time) (held : HeldRows) (e : ExecutionId)
    (x : Execution) (db : ServerDb) : Bool → ServerDb → Prop
  | lost (reason : ExecLostReason) :
      Reconciled settings now held e x db false (db.markLost held e reason now).1
  | reclaimed (reason : ExecLostReason) : Reconciled settings now held e x db false
      ((db.markLost held e reason now).1.createStopOutbox now .reclaim x.taskId e x.agentId)
  | passed {db' : ServerDb} : Unjudged now db db' → Reconciled settings now held e x db false db'
  | alerted {db' : ServerDb} : Unjudged now db db' →
      Reconciled settings now held e x db true (markStuck settings now e x db')

theorem reconciled (settings : AgentsSettings) (now : Time) (db : ServerDb) (held : HeldRows)
    (lastSeen : Option Time) (e : ExecutionId) (x : Execution) :
    Reconciled settings now held e x db (raises settings now lastSeen x)
      (db.reconcileExecution settings held now lastSeen e x) := by
  cases lastSeen with
  | none => exact .lost _
  | some seen =>
      have hraises : raises settings now (some seen) x =
          ((!decide (settings.heartbeatTimeoutSeconds < now - seen) &&
            !decide (settings.lostAfterStalledSeconds ≤
              now - (x.lastEventAt.orElse fun _ => x.startedAt).getD x.createdAt)) &&
            stuck settings now x) := rfl
      rw [hraises]
      unfold ServerDb.reconcileExecution
      dsimp only
      by_cases hunreachable : settings.heartbeatTimeoutSeconds < now - seen
      · rw [decide_eq_true hunreachable]
        exact .lost _
      · rw [decide_eq_false hunreachable]
        by_cases hidle : settings.lostAfterStalledSeconds ≤
            now - (x.lastEventAt.orElse fun _ => x.startedAt).getD x.createdAt
        · rw [if_neg Bool.false_ne_true, if_pos hidle, decide_eq_true hidle]
          by_cases hlost : (db.markLost held e (.wire .eventStall) now).2 = true
          · rw [if_pos hlost]
            exact .reclaimed _
          · rw [if_neg hlost]
            exact .lost _
        · rw [if_neg Bool.false_ne_true, if_neg hidle, decide_eq_false hidle, checkNoProgress_eq]
          have hstalled : Unjudged now db (if settings.stalledAttemptSeconds ≤
              now - (x.lastEventAt.orElse fun _ => x.startedAt).getD x.createdAt ∧
              x.stalledAt.isNone then
              db.updateExecution e fun x => { x with stalledAt := some now } else db) := by
            split
            · exact ⟨.of_modify (f := fun x => { x with stalledAt := some now }) rfl
                (fun x => ⟨rfl, rfl⟩) fun x => rfl, rfl⟩
            · exact ⟨.refl now db, rfl⟩
          cases stuck settings now x with
          | false => exact .passed hstalled
          | true => exact .alerted hstalled

/-- **One execution of a pass**: its row is latched if the pass alerts of it. -/
theorem latched_reconcileExecution (settings : AgentsSettings) (now : Time) (db : ServerDb)
    (held : HeldRows) (lastSeen : Option Time) (e : ExecutionId) (x : Execution) :
    Latched (if raises settings now lastSeen x then [e] else []) now db
      (db.reconcileExecution settings held now lastSeen e x) := by
  have hcases := reconciled settings now db held lastSeen e x
  generalize db.reconcileExecution settings held now lastSeen e x = db' at hcases ⊢
  generalize raises settings now lastSeen x = raised at hcases ⊢
  cases hcases with
  | lost reason => exact latched_markLost held e reason now
  | reclaimed reason => exact (latched_markLost held e reason now).trans (.of_executions rfl)
  | passed h => exact h.1
  | alerted h => exact h.1.trans (latched_markStuck e x)

/-- The repair of orphaned tasks writes tasks only. -/
theorem repairs_rows (held : HeldRows) (orphans : List TaskId) (db : ServerDb) :
    (orphans.foldl (fun db t => db.repairOrphanedTask settings held now t) db).executions =
        db.executions ∧
      (orphans.foldl (fun db t => db.repairOrphanedTask settings held now t) db).outbox =
        db.outbox := by
  induction orphans generalizing db with
  | nil => exact ⟨rfl, rfl⟩
  | cons t orphans ih =>
      obtain ⟨hexec, houtbox⟩ := ih (db.repairOrphanedTask settings held now t)
      rw [List.foldl_cons]
      rcases ServerDb.repairOrphanedTask_cases db settings held now t with h | ⟨task, f, -, -, h⟩
      · rw [h] at hexec houtbox ⊢
        exact ⟨hexec, houtbox⟩
      · rw [h] at hexec houtbox ⊢
        exact ⟨hexec, houtbox⟩

theorem latched_apply (p : Pass) (held : HeldRows) (orphans : List TaskId) :
    Latched (p.raised settings) p.now db (p.apply settings held orphans db) := by
  suffices h : Latched (p.raised settings) p.now db (p.rows.foldl (fun db r =>
      db.reconcileExecution settings held p.now (p.lastSeen r.2.agentId) r.1 r.2) db) by
    rw [← List.append_nil (p.raised settings)]
    exact h.trans (.of_executions (repairs_rows held orphans _).1)
  unfold Pass.raised
  generalize p.rows = rows
  induction rows generalizing db with
  | nil => exact .refl p.now db
  | cons r rows ih =>
      have hone := latched_reconcileExecution settings p.now db held (p.lastSeen r.2.agentId) r.1 r.2
      have hall := hone.trans ih
      rw [List.foldl_cons, List.filter_cons]
      split
      · rename_i hraises
        rw [if_pos hraises] at hall
        exact hall
      · rename_i hraises
        rw [if_neg hraises] at hall
        exact hall

/-! ### What a pass asks for -/

/-- The transaction has added rows to the outbox that ask to cancel some of `es`. -/
def Asks (es : List ExecutionId) (db db' : ServerDb) : Prop :=
  ∃ new, db'.outbox.rows = db.outbox.rows ++ new ∧ (new.filterMap cancelOf).Sublist es

theorem Asks.of_outbox (h : db'.outbox = db.outbox) : Asks [] db db' :=
  ⟨[], by rw [h, List.append_nil], List.Sublist.refl _⟩

theorem Asks.trans {es es' : List ExecutionId} (h : Asks es db db') (h' : Asks es' db' db'') :
    Asks (es ++ es') db db'' := by
  obtain ⟨new, hrows, hsub⟩ := h
  obtain ⟨new', hrows', hsub'⟩ := h'
  refine ⟨new ++ new', by rw [hrows', hrows, List.append_assoc], ?_⟩
  rw [List.filterMap_append]
  exact hsub.append hsub'

theorem asks_addOutbox (db : ServerDb) (row : CommandOutbox) :
    Asks (cancelOf (db.nextCommand, row)).toList db (db.addOutbox row) := by
  show ∃ new, (db.outbox.insert db.nextCommand row).rows = _ ∧ _
  unfold Table.insert
  split
  · exact ⟨[], (List.append_nil _).symm, List.nil_sublist _⟩
  · refine ⟨[(db.nextCommand, row)], rfl, ?_⟩
    cases h : cancelOf (db.nextCommand, row) with
    | none => simp [h]
    | some e => simp [h]

theorem asks_markStuck (e : ExecutionId) (x : Execution) :
    Asks [e] db (markStuck settings now e x db) := by
  unfold markStuck
  dsimp only
  split
  · exact (Asks.of_outbox rfl).trans (asks_addOutbox _ _)
  · exact ⟨[], (List.append_nil _).symm, List.nil_sublist _⟩

theorem asks_reconcileExecution (settings : AgentsSettings) (now : Time) (db : ServerDb)
    (held : HeldRows) (lastSeen : Option Time) (e : ExecutionId) (x : Execution) :
    Asks (if raises settings now lastSeen x then [e] else []) db
      (db.reconcileExecution settings held now lastSeen e x) := by
  have hlost : ∀ reason, Asks [] db (db.markLost held e reason now).1 :=
    fun reason => .of_outbox (Reclaims.markLost_outbox db held e reason now).1
  have hcases := reconciled settings now db held lastSeen e x
  generalize db.reconcileExecution settings held now lastSeen e x = db' at hcases ⊢
  generalize raises settings now lastSeen x = raised at hcases ⊢
  cases hcases with
  | lost reason => exact hlost reason
  | reclaimed reason => exact (hlost reason).trans (asks_addOutbox _ _)
  | passed h => exact .of_outbox h.2
  | alerted h => exact (Asks.of_outbox h.2).trans (asks_markStuck e x)

/-- **A pass asks to cancel only what it alerts of**, each once. -/
theorem newCancels_apply (p : Pass) (held : HeldRows) (orphans : List TaskId) :
    (newCancels db (p.apply settings held orphans db)).Sublist (p.raised settings) := by
  have hall : Asks (p.raised settings) db (p.apply settings held orphans db) := by
    suffices h : Asks (p.raised settings) db (p.rows.foldl (fun db r =>
        db.reconcileExecution settings held p.now (p.lastSeen r.2.agentId) r.1 r.2) db) by
      rw [← List.append_nil (p.raised settings)]
      exact h.trans (.of_outbox (repairs_rows held orphans _).2)
    unfold Pass.raised
    generalize p.rows = rows
    induction rows generalizing db with
    | nil => exact .of_outbox rfl
    | cons r rows ih =>
        have hone := asks_reconcileExecution settings p.now db held (p.lastSeen r.2.agentId) r.1 r.2
        have hrest := hone.trans ih
        rw [List.foldl_cons, List.filter_cons]
        split
        · rename_i hraises
          rw [if_pos hraises] at hrest
          exact hrest
        · rename_i hraises
          rw [if_neg hraises] at hrest
          exact hrest
  obtain ⟨new, hrows, hsub⟩ := hall
  rw [newCancels, hrows, List.drop_left]
  exact hsub

/-! ### What an event does to a row -/

/-- At most one row is written, at `t`; its clock of progress and its latch only
if the event is progress. -/
structure Touches (e : ExecutionId) (t : Time) (moved : Bool) (db db' : ServerDb) : Prop where
  others : ∀ e', e' ≠ e → db'.executions.get e' = db.executions.get e'
  none : db.executions.get e = none → db'.executions.get e = none
  row : ∀ x, db.executions.get e = some x → ∃ y, db'.executions.get e = some y ∧
    progressClock y = (if moved then t else progressClock x) ∧
    (y.lastProgressSampleAt = x.lastProgressSampleAt ∨ y.lastProgressSampleAt = some t) ∧
    (moved = false → y.noProgressAt = x.noProgressAt)

theorem Touches.of_executions (e : ExecutionId) (t : Time) (h : db'.executions = db.executions) :
    Touches e t false db db' where
  others := fun e' _ => by rw [h]
  none := fun hx => by rw [h]; exact hx
  row := fun x hx => ⟨x, by rw [h]; exact hx, rfl, .inl rfl, fun _ => rfl⟩

theorem Touches.of_modify {e : ExecutionId} {t : Time} {moved : Bool} {f : Execution → Execution}
    (h : db'.executions = db.executions.modify e f)
    (hf : ∀ x, db.executions.get e = some x →
      progressClock (f x) = (if moved then t else progressClock x) ∧
      ((f x).lastProgressSampleAt = x.lastProgressSampleAt ∨
        (f x).lastProgressSampleAt = some t) ∧
      (moved = false → (f x).noProgressAt = x.noProgressAt)) : Touches e t moved db db' where
  others := fun e' he => by rw [h, Table.get_modify_ne _ _ he]
  none := fun hx => by rw [h, Table.get_modify_self, hx]; rfl
  row := fun x hx => ⟨f x, by rw [h, Table.get_modify_self, hx]; rfl, hf x hx⟩

theorem moveExecution_sample (x : Execution) (ev : AgentEvent) (new : ExecStatus) (now : Time) :
    (ServerDb.moveExecution x ev new now).1.lastProgressSampleAt = x.lastProgressSampleAt := by
  have hstatus : ∀ x : Execution,
      (applyStatus x ev new now).lastProgressSampleAt = x.lastProgressSampleAt := by
    intro x
    unfold applyStatus
    split
    · rfl
    · split
      · rfl
      · rfl
  have hreason : (maybeUpdateLostReason x ev).lastProgressSampleAt = x.lastProgressSampleAt := by
    unfold maybeUpdateLostReason
    split
    · rfl
    · split
      · rfl
      · rfl
  unfold ServerDb.moveExecution
  split
  · show (if x.status = .lost then _ else _ : Execution).lastProgressSampleAt = _
    split
    · exact hreason
    · rfl
  · split
    · exact hstatus _
    · split
      · rfl
      · split
        · rfl
        · split
          · exact hstatus _
          · rfl

/-- **A life-cycle event** is progress of its execution, if it is applied. -/
theorem touches_event {ev : AgentEvent} {msg : MessageId} (hev : ev.type.toExec ≠ none) :
    Touches ev.executionId now (moves db ev msg) db (db.applyEvent now ev msg).1 := by
  obtain ⟨new, hnew⟩ := Option.ne_none_iff_exists'.mp hev
  have hcases := Judgements.applyEvent_rows db now ev msg
  by_cases hmoves : moves db ev msg = true
  · rw [hmoves]
    obtain ⟨haudit, hsome⟩ := Bool.and_eq_true_iff.mp hmoves
    obtain ⟨x, hx⟩ := Option.isSome_iff_exists.mp hsome
    have hrows : (db.applyEvent now ev msg).1.executions = db.executions.modify ev.executionId
        fun _ => markAlive (ServerDb.moveExecution x ev new now).1 now := by
      have hnone : ¬ (db.audits.get msg).isSome = true := by
        rw [Option.isNone_iff_eq_none] at haudit
        rw [haudit]
        exact Bool.false_ne_true
      unfold ServerDb.applyEvent
      rw [hnew]
      simp only [if_neg hnone, hx]
      exact ServerDb.applyLifecycle_executions
    refine .of_modify hrows fun y hy => ?_
    obtain rfl : x = y := Option.some.inj (hx.symm.trans hy)
    exact ⟨rfl, .inl (moveExecution_sample x ev new now), fun h => by cases h⟩
  · rw [eq_false_of_ne_true hmoves]
    refine .of_executions _ _ ?_
    cases hcases with
    | none hexec _ => exact hexec
    | heartbeat htype _ _ =>
        rw [htype] at hev
        exact absurd rfl hev
    | lifecycle new x _ haudit hx _ _ =>
        refine absurd ?_ hmoves
        rw [moves, haudit, hx]
        rfl

/-- **A heartbeat** is progress if its sample has grown. -/
theorem touches_beat (b : Beat) :
    Touches b.ev.executionId b.now b.grows db (b.commit db) := by
  have hrows : (b.commit db).executions = db.executions.modify b.ev.executionId b.write := by
    unfold Beat.commit
    dsimp only
    split
    · rfl
    · rfl
  refine .of_modify hrows fun y _ => ?_
  cases hbytes : b.ev.logBytes with
  | none =>
      have hgrows : b.grows = false := by rw [Beat.grows, hbytes]; rfl
      rw [hgrows, Beat.write, hbytes]
      exact ⟨rfl, .inl rfl, fun _ => rfl⟩
  | some n =>
      have hgrows : b.grows = decide (b.row.logBytes.getD 0 < n) := by
        rw [Beat.grows, hbytes, Option.any_some]
      rw [hgrows, Beat.write, hbytes]
      dsimp only
      by_cases h : b.row.logBytes.getD 0 < n
      · rw [decide_eq_true h, if_pos h]
        exact ⟨rfl, .inr rfl, fun h => by cases h⟩
      · rw [decide_eq_false h, if_neg h]
        exact ⟨rfl, .inr rfl, fun _ => rfl⟩

/-! ### New executions -/

/-- The rows of `db` are kept, and new ones have no stamps. -/
structure Grown (db db' : ServerDb) : Prop where
  keeps : ∀ e x, db.executions.get e = some x → db'.executions.get e = some x
  new : ∀ e y, db'.executions.get e = some y → db.executions.get e = some y ∨
    db.executions.get e = none ∧ y.noProgressAt = none ∧ y.lastProgressSampleAt = none

theorem Grown.refl (db : ServerDb) : Grown db db := ⟨fun _ _ h => h, fun _ _ h => .inl h⟩

theorem Grown.trans (h : Grown db db') (h' : Grown db' db'') : Grown db db'' where
  keeps := fun e x hx => h'.keeps e x (h.keeps e x hx)
  new := by
    intro e z hz
    rcases h'.new e z hz with hy | ⟨hnone, hlatch, hsample⟩
    · exact h.new e z hy
    · refine .inr ⟨?_, hlatch, hsample⟩
      cases hx : db.executions.get e with
      | none => rfl
      | some x =>
          rw [h.keeps e x hx] at hnone
          cases hnone

theorem grown_createExecution (t : TaskId) (taskType : RunnerType) (payload : CommandPayload)
    (node : ExecutionId × AgentId) :
    Grown db (db.createExecution now t taskType payload node) := by
  have hrows : (db.createExecution now t taskType payload node).executions =
      db.executions.insert node.1 { taskId := t, agentId := node.2, createdAt := now } := rfl
  rcases hfree : db.executions.get node.1 with - | taken
  · constructor
    · intro e x hx
      rw [hrows, Table.get_insert _ _ hfree, if_neg]
      · exact hx
      · rintro rfl
        rw [hfree] at hx
        cases hx
    · intro e y hy
      rw [hrows, Table.get_insert _ _ hfree] at hy
      split at hy
      · rename_i he
        obtain rfl := Option.some.inj hy
        exact .inr ⟨he ▸ hfree, rfl, rfl⟩
      · exact .inl hy
  · have hsame : (db.createExecution now t taskType payload node).executions = db.executions := by
      rw [hrows, Table.insert, dif_pos (Table.mem_keys_iff.mpr ⟨taken, hfree⟩)]
    exact ⟨fun e x hx => by rw [hsame]; exact hx, fun e y hy => .inl (by rw [← hsame]; exact hy)⟩

theorem grown_createTask (t : TaskId) (task : Task) (taskType : RunnerType)
    (payload : CommandPayload) (nodes : List (ExecutionId × AgentId)) :
    Grown db (db.createTask now t task taskType payload nodes) := by
  have hall : ∀ (nodes : List (ExecutionId × AgentId)) (db : ServerDb), Grown db
      (nodes.foldl (fun db node => db.createExecution now t taskType payload node) db) := by
    intro nodes
    induction nodes with
    | nil => exact fun db => .refl db
    | cons node nodes ih =>
        exact fun db => (grown_createExecution t taskType payload node).trans (ih _)
  unfold ServerDb.createTask
  dsimp only
  split
  · exact ⟨fun _ _ h => h, fun _ _ h => .inl h⟩
  · refine Grown.trans ?_ (hall nodes _)
    exact ⟨fun _ _ h => h, fun _ _ h => .inl h⟩

end Rows

/-! ### What a run keeps -/

def isProgress (e : ExecutionId) (x : Entry) : Bool := decide (x = .progress e)

def isAlert (e : ExecutionId) (x : Entry) : Bool := decide (x = .alert e)

def isStop (e : ExecutionId) (x : Entry) : Bool := decide (x = .stop e)

/-- Since its last progress the execution has had no alert and no stop. -/
def Unfired (e : ExecutionId) (log : List Entry) : Prop :=
  Latch.fired (isProgress e) (isAlert e) log = 0 ∧ Latch.fired (isProgress e) (isStop e) log = 0

/-- Between two points of progress there is at most one alert, and one stop. -/
def Once (e : ExecutionId) (log : List Entry) : Prop :=
  Latch.OneShot (isProgress e) (isAlert e) log ∧ Latch.OneShot (isProgress e) (isStop e) log

/-- The row `y` is the row `x` that the pass has read, but for progress that has
been committed since. -/
structure Follows (moved : Option Time) (x y : Execution) : Prop where
  progress : progressClock y = moved.getD (progressClock x)
  sample : ∀ t, x.lastProgressSampleAt = some t → ∃ u, y.lastProgressSampleAt = some u ∧ t ≤ u

structure Inv (s : State) : Prop where
  once : ∀ e, Once e s.log
  /-- An alert sets the latch, and only progress clears it. -/
  latch : ∀ e, (∀ x, s.db.executions.get e = some x → x.noProgressAt = none) → Unfired e s.log
  sampled : ∀ e x t, s.db.executions.get e = some x → x.lastProgressSampleAt = some t →
    t ≤ s.clock
  beat : ∀ b, s.beat = some b → b.now ≤ s.clock ∧
    ∀ x t, s.db.executions.get b.ev.executionId = some x → x.lastProgressSampleAt = some t →
      t ≤ b.now
  nodup : ∀ p, s.pass = some p → (p.rows.map Prod.fst).Nodup
  held : ∀ p, s.pass = some p → ∀ e x, (e, x) ∈ p.rows → x.noProgressAt = none →
    Unfired e s.log
  follows : ∀ p, s.pass = some p → ∀ e x, (e, x) ∈ p.rows →
    ∃ y, s.db.executions.get e = some y ∧ Follows (p.moved e) x y

theorem unfired_progress (e : ExecutionId) (log : List Entry) : Unfired e (.progress e :: log) :=
  ⟨Latch.fired_reset (decide_eq_true rfl), Latch.fired_reset (decide_eq_true rfl)⟩

theorem Unfired.progress {e : ExecutionId} {log : List Entry} (h : Unfired e log)
    (e' : ExecutionId) : Unfired e (.progress e' :: log) := by
  by_cases he : e' = e
  · subst he
    exact unfired_progress e' log
  · have hreset : isProgress e (.progress e') = false :=
      decide_eq_false fun heq => he (Entry.progress.inj heq)
    exact ⟨(Latch.fired_other hreset rfl).trans h.1, (Latch.fired_other hreset rfl).trans h.2⟩

theorem Once.progress {e : ExecutionId} {log : List Entry} (h : Once e log) (e' : ExecutionId) :
    Once e (.progress e' :: log) := by
  have hfired : ∀ shot : Entry → Bool, shot (.progress e') = false →
      Latch.OneShot (isProgress e) shot log →
      Latch.fired (isProgress e) shot (.progress e' :: log) ≤ 1 := by
    intro shot hshot hlog
    by_cases hreset : isProgress e (.progress e') = true
    · rw [Latch.fired_reset hreset]
      exact Nat.zero_le 1
    · rw [Latch.fired_other (eq_false_of_ne_true hreset) hshot]
      exact hlog.fired_le
  exact ⟨h.1.cons (hfired _ rfl h.1), h.2.cons (hfired _ rfl h.2)⟩

theorem Follows.touch {moved : Option Time} {x y z : Execution} {t : Time} {grows : Bool}
    (h : Follows moved x y) (hprogress : progressClock z = if grows then t else progressClock y)
    (hsample : z.lastProgressSampleAt = y.lastProgressSampleAt ∨ z.lastProgressSampleAt = some t)
    (hle : ∀ u, y.lastProgressSampleAt = some u → u ≤ t) :
    Follows (if grows then some t else moved) x z where
  progress := by
    cases grows with
    | true => exact hprogress
    | false => exact hprogress.trans h.progress
  sample := by
    intro u hu
    obtain ⟨v, hv, huv⟩ := h.sample u hu
    rcases hsample with hsame | hnew
    · exact ⟨v, hsame.trans hv, huv⟩
    · exact ⟨t, hnew, huv.trans (hle v hv)⟩

section Steps

variable {settings : AgentsSettings} {s : State}

/-- An event that is committed at `t` keeps the invariant. -/
theorem Inv.touch (h : Inv s) {e : ExecutionId} {t : Time} {moved : Bool} {db : ServerDb}
    (ht : Touches e t moved s.db db) (hbeat : s.beat = none) (hclock : t ≤ s.clock)
    (hle : ∀ x u, s.db.executions.get e = some x → x.lastProgressSampleAt = some u → u ≤ t) :
    Inv (if moved then { s with db := db }.progressed e t else { s with db := db }) := by
  -- the row of the event, and the others
  have hlatch : ∀ e', (moved = true → e' ≠ e) →
      (∀ x, db.executions.get e' = some x → x.noProgressAt = none) → Unfired e' s.log := by
    intro e' hmoved hnone
    refine h.latch e' fun x hx => ?_
    by_cases he : e' = e
    · subst he
      obtain ⟨y, hy, -, -, hkeep⟩ := ht.row x hx
      rw [← hkeep (eq_false_of_ne_true fun hm => hmoved hm rfl)]
      exact hnone y hy
    · exact hnone x ((ht.others e' he).trans hx)
  have hsampled : ∀ e' x u, db.executions.get e' = some x → x.lastProgressSampleAt = some u →
      u ≤ s.clock := by
    intro e' y u hy hu
    by_cases he : e' = e
    · subst he
      cases hx : s.db.executions.get e' with
      | none =>
          rw [ht.none hx] at hy
          cases hy
      | some x =>
          obtain ⟨y', hy', -, hsample, -⟩ := ht.row x hx
          obtain rfl : y = y' := Option.some.inj (hy.symm.trans hy')
          rcases hsample with hsame | hnew
          · exact h.sampled e' x u hx (hsame.symm.trans hu)
          · obtain rfl : u = t := Option.some.inj (hu.symm.trans hnew)
            exact hclock
    · exact h.sampled e' y u ((ht.others e' he).symm.trans hy) hu
  have hfollows : ∀ p, s.pass = some p → ∀ e' x, (e', x) ∈ p.rows →
      ∃ y, db.executions.get e' = some y ∧
        Follows (if moved = true ∧ e' = e then some t else p.moved e') x y := by
    intro p hp e' x hx
    obtain ⟨y, hy, hf⟩ := h.follows p hp e' x hx
    by_cases he : e' = e
    · subst he
      obtain ⟨z, hz, hprogress, hsample, -⟩ := ht.row y hy
      refine ⟨z, hz, ?_⟩
      simp only [and_true]
      exact hf.touch hprogress hsample fun u hu => hle y u hy hu
    · rw [if_neg fun hand => he hand.2]
      exact ⟨y, (ht.others e' he).trans hy, hf⟩
  have hnobeat : ∀ b, s.beat = some b → False := by
    intro b hb
    rw [hbeat] at hb
    cases hb
  cases moved with
  | false =>
      exact {
        once := h.once
        latch := fun e' => hlatch e' fun hm => by cases hm
        sampled := hsampled
        beat := fun b hb => (hnobeat b hb).elim
        nodup := h.nodup
        held := h.held
        follows := fun p hp e' x hx => by
          obtain ⟨y, hy, hf⟩ := hfollows p hp e' x hx
          rw [if_neg fun hand => Bool.false_ne_true hand.1] at hf
          exact ⟨y, hy, hf⟩ }
  | true =>
      have hpass : ∀ p, (s.pass.map fun p =>
          { p with moved := Function.update p.moved e (some t) }) = some p →
          ∃ q, s.pass = some q ∧ q.rows = p.rows ∧
            p.moved = Function.update q.moved e (some t) := by
        intro p hp
        obtain ⟨q, hq, rfl⟩ := Option.map_eq_some_iff.mp hp
        exact ⟨q, hq, rfl, rfl⟩
      exact {
        once := fun e' => (h.once e').progress e
        latch := by
          intro e' hnone
          by_cases he : e' = e
          · subst he
            exact unfired_progress e' s.log
          · exact (hlatch e' (fun _ => he) hnone).progress e
        sampled := hsampled
        beat := fun b hb => (hnobeat b hb).elim
        nodup := by
          intro p hp
          obtain ⟨q, hq, hrows, -⟩ := hpass p hp
          rw [← hrows]
          exact h.nodup q hq
        held := by
          intro p hp e' x hx hnone
          obtain ⟨q, hq, hrows, -⟩ := hpass p hp
          rw [← hrows] at hx
          exact (h.held q hq e' x hx hnone).progress e
        follows := by
          intro p hp e' x hx
          obtain ⟨q, hq, hrows, hmoved⟩ := hpass p hp
          rw [← hrows] at hx
          obtain ⟨y, hy, hf⟩ := hfollows q hq e' x hx
          refine ⟨y, hy, ?_⟩
          rw [hmoved, Function.update_apply]
          simp only [true_and] at hf
          exact hf }

theorem Inv.grow (h : Inv s) {db : ServerDb} (hdb : Grown s.db db) : Inv { s with db := db } where
  once := h.once
  latch := fun e hnone => h.latch e fun x hx => hnone x (hdb.keeps e x hx)
  sampled := by
    intro e y t hy ht
    rcases hdb.new e y hy with hx | ⟨-, -, hsample⟩
    · exact h.sampled e y t hx ht
    · rw [hsample] at ht
      cases ht
  beat := by
    intro b hb
    refine ⟨(h.beat b hb).1, fun y t hy ht => ?_⟩
    rcases hdb.new _ y hy with hx | ⟨-, -, hsample⟩
    · exact (h.beat b hb).2 y t hx ht
    · rw [hsample] at ht
      cases ht
  nodup := h.nodup
  held := h.held
  follows := by
    intro p hp e x hx
    obtain ⟨y, hy, hf⟩ := h.follows p hp e x hx
    exact ⟨y, hdb.keeps e y hy, hf⟩

/-- **A pass reads** the committed rows. -/
theorem Inv.load (h : Inv s) (lastSeen : AgentId → Option Time) :
    Inv { s with pass := some ⟨s.clock, lastSeen, activeRows s.db, fun _ => none⟩ } where
  once := h.once
  latch := h.latch
  sampled := h.sampled
  beat := h.beat
  nodup := by
    intro p hp
    obtain rfl := Option.some.inj hp
    exact s.db.executions.nodup.sublist (List.filter_sublist.map Prod.fst)
  held := by
    intro p hp e x hx hnone
    obtain rfl := Option.some.inj hp
    refine h.latch e fun y hy => ?_
    have hget := Table.mem_rows_iff.mp (List.mem_filter.mp hx).1
    obtain rfl : x = y := Option.some.inj (hget.symm.trans hy)
    exact hnone
  follows := by
    intro p hp e x hx
    obtain rfl := Option.some.inj hp
    exact ⟨x, Table.mem_rows_iff.mp (List.mem_filter.mp hx).1, rfl, fun t ht => ⟨t, ht, le_refl t⟩⟩

/-- What a pass alerts of was not latched in the row it has read. -/
theorem mem_raised {p : Pass} {e : ExecutionId} (h : e ∈ p.raised settings) :
    ∃ x, (e, x) ∈ p.rows ∧ x.noProgressAt = none ∧ Justified settings p.now x := by
  obtain ⟨⟨e', x⟩, hmem, rfl⟩ := List.mem_map.mp h
  obtain ⟨hrow, hraises⟩ := List.mem_filter.mp hmem
  obtain ⟨-, hlatch, -, hjustified⟩ := stuck_iff.mp (Bool.and_eq_true_iff.mp hraises).2
  exact ⟨x, hrow, hlatch, hjustified⟩

theorem countP_stops (e : ExecutionId) (stops alerts : List ExecutionId) :
    (stops.map Entry.stop ++ alerts.map Entry.alert).countP (isStop e) = stops.count e := by
  have halerts : (alerts.map Entry.alert).countP (isStop e) = 0 := by
    rw [List.countP_map]
    exact List.countP_eq_zero.mpr fun x _ hx => Bool.false_ne_true hx
  rw [List.countP_append, halerts, List.countP_map]
  refine List.countP_congr fun x _ => ?_
  simp [isStop]

theorem countP_alerts (e : ExecutionId) (stops alerts : List ExecutionId) :
    (stops.map Entry.stop ++ alerts.map Entry.alert).countP (isAlert e) = alerts.count e := by
  have hstops : (stops.map Entry.stop).countP (isAlert e) = 0 := by
    rw [List.countP_map]
    exact List.countP_eq_zero.mpr fun x _ hx => Bool.false_ne_true hx
  rw [List.countP_append, hstops, List.countP_map, Nat.zero_add]
  refine List.countP_congr fun x _ => ?_
  simp [isAlert]

/-- A pass adds no progress to the log. -/
theorem no_progress (e : ExecutionId) (stops alerts : List ExecutionId) :
    ∀ x ∈ stops.map Entry.stop ++ alerts.map Entry.alert, isProgress e x = false := by
  intro x hx
  rcases List.mem_append.mp hx with hx | hx
  · obtain ⟨e', -, rfl⟩ := List.mem_map.mp hx
    rfl
  · obtain ⟨e', -, rfl⟩ := List.mem_map.mp hx
    rfl

/-- **The commit of a pass.**  It fires for what it had read as not latched, and
latches what it fires for. -/
theorem Inv.commit (h : Inv s) {p : Pass} (hp : s.pass = some p) (held : HeldRows)
    (orphans : List TaskId) :
    Inv { s with
      db := p.apply settings held orphans s.db
      pass := none
      log := ((newCancels s.db (p.apply settings held orphans s.db)).map .stop ++
        (p.raised settings).map .alert) ++ s.log } := by
  have hlatched : Latched (p.raised settings) p.now s.db (p.apply settings held orphans s.db) :=
    latched_apply p held orphans
  have hasked : (newCancels s.db (p.apply settings held orphans s.db)).Sublist
      (p.raised settings) := newCancels_apply p held orphans
  generalize newCancels s.db (p.apply settings held orphans s.db) = stops at hasked ⊢
  generalize p.apply settings held orphans s.db = db at hlatched ⊢
  have hnodup : (p.raised settings).Nodup :=
    (h.nodup p hp).sublist (List.filter_sublist.map Prod.fst)
  -- every list of shots of the pass is among what it raises
  have hone : ∀ e (shot : Entry → Bool) (shots : List ExecutionId),
      shots.Sublist (p.raised settings) →
      (Unfired e s.log → Latch.fired (isProgress e) shot s.log = 0) →
      Latch.OneShot (isProgress e) shot s.log →
      shots.count e + Latch.fired (isProgress e) shot s.log ≤ 1 := by
    intro e shot shots hsub hunfired hlog
    by_cases he : e ∈ p.raised settings
    · obtain ⟨x, hx, hnone, -⟩ := mem_raised he
      rw [hunfired (h.held p hp e x hx hnone)]
      exact (hsub.count_le e).trans (List.nodup_iff_count_le_one.mp hnodup e)
    · rw [List.count_eq_zero_of_not_mem fun hmem => he (hsub.subset hmem), Nat.zero_add]
      exact hlog.fired_le
  have hrow : ∀ e y, db.executions.get e = some y → ∃ x, s.db.executions.get e = some x ∧
      SameClocks x y ∧ y.noProgressAt = if e ∈ p.raised settings then some p.now
        else x.noProgressAt := by
    intro e y hy
    cases hx : s.db.executions.get e with
    | none =>
        rw [hlatched.none e hx] at hy
        cases hy
    | some x =>
        obtain ⟨y', hy', hclocks, hlatch⟩ := hlatched.rows e x hx
        obtain rfl : y = y' := Option.some.inj (hy.symm.trans hy')
        exact ⟨x, rfl, hclocks, hlatch⟩
  have hsamples : ∀ {u : Time} e, (∀ x t, s.db.executions.get e = some x →
      x.lastProgressSampleAt = some t → t ≤ u) →
      ∀ y t, db.executions.get e = some y → y.lastProgressSampleAt = some t → t ≤ u := by
    intro u e hle y t hy ht
    obtain ⟨x, hx, hclocks, -⟩ := hrow e y hy
    exact hle x t hx (hclocks.sample.symm.trans ht)
  constructor
  case once =>
    intro e
    refine ⟨(h.once e).1.append (no_progress e _ _) ?_, (h.once e).2.append (no_progress e _ _) ?_⟩
    · rw [countP_alerts]
      exact hone e (isAlert e) _ (List.Sublist.refl _) And.left (h.once e).1
    · rw [countP_stops]
      exact hone e (isStop e) _ hasked And.right (h.once e).2
  case latch =>
    intro e hnone
    -- what is not latched was not raised
    have he : e ∉ p.raised settings := by
      intro he
      obtain ⟨x, hx, -, -⟩ := mem_raised he
      obtain ⟨y, hy, -⟩ := h.follows p hp e x hx
      obtain ⟨z, hz, -, hlatch⟩ := hlatched.rows e y hy
      rw [hnone z hz, if_pos he] at hlatch
      cases hlatch
    have hold : Unfired e s.log := by
      refine h.latch e fun x hx => ?_
      obtain ⟨y, hy, -, hlatch⟩ := hlatched.rows e x hx
      rw [hnone y hy, if_neg he] at hlatch
      exact hlatch.symm
    constructor
    · rw [Latch.fired_append (no_progress e _ _), countP_alerts, hold.1,
        List.count_eq_zero_of_not_mem he]
    · rw [Latch.fired_append (no_progress e _ _), countP_stops, hold.2,
        List.count_eq_zero_of_not_mem fun hmem => he (hasked.subset hmem)]
  case sampled =>
    intro e y t
    exact hsamples e (fun x t => h.sampled e x t) y t
  case beat =>
    intro b hb
    exact ⟨(h.beat b hb).1, hsamples b.ev.executionId (h.beat b hb).2⟩
  case nodup =>
    intro q hq
    cases hq
  case held =>
    intro q hq
    cases hq
  case follows =>
    intro q hq
    cases hq

/-- **One step** keeps the invariant. -/
theorem Inv.step (h : Inv s) {a : Action} {s' : State} (hs : step settings s a = some s') :
    Inv s' := by
  cases a with
  | tick d =>
      obtain rfl := Option.some.inj hs
      have hclock : s.clock ≤ s.clock + d := Int.le_add_of_nonneg_right (Int.natCast_nonneg d)
      exact { h with
        sampled := fun e x t hx ht => (h.sampled e x t hx ht).trans hclock
        beat := fun b hb => ⟨(h.beat b hb).1.trans hclock, (h.beat b hb).2⟩ }
  | create t task taskType payload nodes =>
      rw [NoProgress.step] at hs
      split at hs
      · cases hs
      · obtain rfl := Option.some.inj hs
        exact h.grow (grown_createTask t task taskType payload nodes)
  | event ev msg =>
      rw [NoProgress.step] at hs
      split at hs
      · cases hs
      · rename_i hguard
        obtain ⟨hbeat, hev⟩ := not_or.mp hguard
        obtain rfl := Option.some.inj hs
        exact h.touch (touches_event hev) (Option.not_isSome_iff_eq_none.mp hbeat) (le_refl _)
          fun x u hx hu => h.sampled _ x u hx hu
  | beat ev msg =>
      rw [NoProgress.step] at hs
      split at hs
      · cases hs
      · cases hx : s.db.executions.get ev.executionId with
        | none =>
            rw [hx] at hs
            obtain rfl := Option.some.inj hs
            exact h
        | some x =>
            rw [hx] at hs
            obtain rfl := Option.some.inj hs
            refine { h with beat := fun b hb => ?_ }
            obtain rfl := Option.some.inj hb
            exact ⟨le_refl _, fun y t hy ht => h.sampled _ y t hy ht⟩
  | commitBeat =>
      cases hb : s.beat with
      | none =>
          rw [NoProgress.step, hb] at hs
          cases hs
      | some b =>
          rw [NoProgress.step, hb] at hs
          obtain rfl := Option.some.inj hs
          have hnone : Inv { s with beat := none } := { h with beat := fun b hb => by cases hb }
          exact hnone.touch (touches_beat b) rfl (h.beat b hb).1 (h.beat b hb).2
  | load lastSeen =>
      rw [NoProgress.step] at hs
      split at hs
      · cases hs
      · obtain rfl := Option.some.inj hs
        exact h.load lastSeen
  | rollbackBeat =>
      obtain rfl := Option.some.inj hs
      exact { h with beat := fun b hb => by cases hb }
  | rollbackPass =>
      obtain rfl := Option.some.inj hs
      exact { h with
        nodup := fun p hp => by cases hp
        held := fun p hp => by cases hp
        follows := fun p hp => by cases hp }
  | commit held orphans =>
      cases hp : s.pass with
      | none =>
          rw [NoProgress.step, hp] at hs
          cases hs
      | some p =>
          rw [NoProgress.step, hp] at hs
          obtain rfl := Option.some.inj hs
          exact h.commit hp held orphans

end Steps

/-! ### Runs -/

theorem Inv.start : Inv start where
  once := fun e => ⟨.nil, .nil⟩
  latch := fun e _ => ⟨rfl, rfl⟩
  sampled := by
    intro e x t hx
    cases hx
  beat := by
    intro b hb
    cases hb
  nodup := by
    intro p hp
    cases hp
  held := by
    intro p hp
    cases hp
  follows := by
    intro p hp
    cases hp

theorem Inv.of_run {settings : AgentsSettings} {s : State}
    (h : StateMachine.Run (NoProgress.step settings) NoProgress.start s) : Inv s :=
  h.invariant (fun _ _ _ hi _ hs => hi.step hs) Inv.start

/-- A verdict on the row that was read holds of the committed row unless recent
progress has been committed in between. -/
theorem justified_iff {settings : AgentsSettings} {now : Time} {moved : Option Time}
    {x y : Execution} (hx : Justified settings now x) (h : Follows moved x y) :
    Justified settings now y ↔
      ∀ t, moved = some t → settings.noProgressStallSeconds ≤ now - t := by
  obtain ⟨hstall, t, ht, hage⟩ := hx
  have hfresh : ∃ sampled, y.lastProgressSampleAt = some sampled ∧
      now - sampled ≤ settings.noProgressSampleMaxAgeSeconds := by
    obtain ⟨u, hu, htu⟩ := h.sample t ht
    exact ⟨u, hu, (Int.sub_le_sub_left htu now).trans hage⟩
  unfold Justified
  rw [h.progress, and_iff_left hfresh]
  cases moved with
  | none =>
      refine ⟨fun _ t ht => ?_, fun _ => hstall⟩
      cases ht
  | some u => exact ⟨fun hle t ht => Option.some.inj ht ▸ hle, fun hall => hall u rfl⟩

/-- **Alerts and stops come once between two points of progress, and a mark is
justified exactly if no progress younger than the threshold has been committed
since the pass has read its rows.** -/
theorem verdicts_justified_iff (settings : AgentsSettings) {s : State}
    (hrun : StateMachine.Run (step settings) start s) :
    (∀ e, Once e s.log) ∧
    ∀ p held orphans s', s.pass = some p → step settings s (.commit held orphans) = some s' →
      (∀ e ∈ p.raised settings, ∃ y, s'.db.executions.get e = some y ∧
        y.noProgressAt = some p.now ∧
        (Justified settings p.now y ↔
          ∀ t, p.moved e = some t → settings.noProgressStallSeconds ≤ p.now - t)) ∧
      ∀ e ∉ p.raised settings, e ∉ newCancels s.db s'.db ∧
        (s'.db.executions.get e).bind Execution.noProgressAt =
          (s.db.executions.get e).bind Execution.noProgressAt := by
  have hinv : Inv s := Inv.of_run hrun
  refine ⟨hinv.once, ?_⟩
  intro p held orphans s' hp hs
  rw [step, hp] at hs
  obtain rfl := Option.some.inj hs
  have hlatched : Latched (p.raised settings) p.now s.db (p.apply settings held orphans s.db) :=
    latched_apply p held orphans
  constructor
  · intro e he
    obtain ⟨x, hx, -, hjustified⟩ := mem_raised he
    obtain ⟨y, hy, hfollows⟩ := hinv.follows p hp e x hx
    obtain ⟨z, hz, hclocks, hlatch⟩ := hlatched.rows e y hy
    rw [if_pos he] at hlatch
    refine ⟨z, hz, hlatch, justified_iff hjustified ⟨hclocks.progress.trans hfollows.progress, ?_⟩⟩
    rw [hclocks.sample]
    exact hfollows.sample
  · intro e he
    refine ⟨fun hmem => he ((newCancels_apply p held orphans).subset hmem), ?_⟩
    cases hx : s.db.executions.get e with
    | none => rw [hlatched.none e hx]
    | some x =>
        obtain ⟨y, hy, -, hlatch⟩ := hlatched.rows e x hx
        rw [if_neg he] at hlatch
        rw [hy]
        exact hlatch

/-! ### A verdict on a row that has changed -/

def sampleSettings : AgentsSettings where
  heartbeatTimeoutSeconds := 60
  stalledAttemptSeconds := 600
  lostAfterStalledSeconds := 1800
  noProgressStallSeconds := 100
  noProgressSampleMaxAgeSeconds := 50
  autoStopOnNoProgress := true

def sampleEvent (type : AgentEventType) (logBytes : Option Nat) : AgentEvent where
  eventId := 1
  agentId := 1
  taskId := 7
  executionId := 1
  type := type
  logBytes := logBytes

/-- Execution 1 starts to run, its log does not grow for 100 s, and a pass reads it. -/
def sampleActions : List Action :=
  [.create 7 { createdAt := 0, updatedAt := 0 } .scrapy {} [(1, 1)],
    .event (sampleEvent .running none) 1, .tick 100, .beat (sampleEvent .heartbeat (some 0)) 2,
    .commitBeat, .load fun _ => some 100]

/-- The log has grown when the pass commits. -/
def sampleGrowth : List Action := [.beat (sampleEvent .heartbeat (some 5)) 3, .commitBeat]

theorem verdicts_justified_iff_sample :
    ∃ s : State, Once 1 s.log ∧ s.log = [.stop 1, .alert 1, .progress 1] := by
  obtain ⟨s, hrun, hs⟩ := StateMachine.RunOk.exists_of_checkedRun (step sampleSettings)
    (fun _ _ => True) start (sampleActions ++ [.commit .none []])
    (fun s => decide (s.log = [.stop 1, .alert 1, .progress 1])) (by decide +kernel)
  exact ⟨s, (verdicts_justified_iff sampleSettings hrun).1 1, of_decide_eq_true hs⟩

/-- **A pass marks and stops an execution whose log has just grown.** -/
theorem not_verdicts_justified : ¬ ∀ (settings : AgentsSettings) (s s' : State) (p : Pass)
    (held : HeldRows) (orphans : List TaskId), StateMachine.Run (step settings) start s →
      s.pass = some p → step settings s (.commit held orphans) = some s' →
      ∀ e ∈ p.raised settings, ∀ y, s'.db.executions.get e = some y →
        Justified settings p.now y := by
  intro h
  have hrun : ((StateMachine.runList (step sampleSettings) start
      (sampleActions ++ sampleGrowth)).any fun s => s.pass.any fun p =>
        (step sampleSettings s (.commit .none [])).any fun s' =>
          (s'.db.executions.get 1).any fun y =>
            decide (1 ∈ p.raised sampleSettings ∧ p.now - progressClock y = 0)) = true := by
    decide +kernel
  obtain ⟨s, hs, hrun⟩ := (Option.any_eq_true _ _).mp hrun
  obtain ⟨p, hp, hrun⟩ := (Option.any_eq_true _ _).mp hrun
  obtain ⟨s', hs', hrun⟩ := (Option.any_eq_true _ _).mp hrun
  obtain ⟨y, hy, hend⟩ := (Option.any_eq_true _ _).mp hrun
  obtain ⟨hraised, hclock⟩ := of_decide_eq_true hend
  obtain ⟨hstall, -⟩ := h sampleSettings s s' p .none [] (StateMachine.Run.of_runList hs) hp hs' 1
    hraised y hy
  rw [hclock] at hstall
  exact absurd hstall (by decide)

end NoProgress

end Dopilot
