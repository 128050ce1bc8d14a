/-
Dopilot/Dispatch.lean

The server's sessions around the command outbox, step by step.

An executor commits a task with its run rows and then delivers them itself; the
dispatcher's periodic pass delivers whatever is dispatchable; a cancel delivers
its stops.  Each does so in a session of its own: it reads a row again, appends
the command to the agent's stream, and commits what became of its rows at the
end.  Between any two of these steps another session may do any of its own, an
event may be applied, a writer may settle a task, and entries may vanish from
the streams.

A session is `Session`: the rows still to deliver, the row it has read and is
about to append, and what it will write.  `Session.view` is the database as the
session sees it, and a commit makes it the database.  `step` is the machine.
-/
import Dopilot.StateMachine
import Dopilot.Writers

namespace Dopilot

abbrev SessionId := Nat

namespace Dispatch

/-! ### Sessions -/

/-- What a session will write when it commits. -/
inductive Write where
  | row (c : CommandId) (loaded new : CommandOutbox)
  | timeout (now : Time) (t : TaskId) (e : ExecutionId)

def Write.apply (db : ServerDb) : Write → ServerDb
  | row c loaded new => db.updateOutbox c fun current => loaded.merge new current
  | timeout now t e => db.failExecutionDispatchTimeout now t e

/-- An executor delivers the rows of its task, whose last execution it still
holds as it was created. -/
inductive SessionKind where
  | executor (t : TaskId) (last : ExecutionId)
  | tick
  | cancel
  deriving DecidableEq, Repr

structure Session where
  kind : SessionKind
  /-- Rows to deliver, as the session loaded them. -/
  todo : List (CommandId × CommandOutbox)
  /-- The row read again, before its append. -/
  sending : Option (CommandId × CommandOutbox) := none
  anySent : Bool := false
  writes : List Write := []

/-- A session's writes, in order. -/
def applyWrites (db : ServerDb) (ws : List Write) : ServerDb := ws.foldl Write.apply db

namespace Session

/-- The database as the session sees it. -/
def view (x : Session) (db : ServerDb) : ServerDb := applyWrites db x.writes

/-- The task of a row as `try_dispatch` finds it.  An executor has its task in
the session already, as it was created. -/
def seenTask (x : Session) (db : ServerDb) (t : TaskId) : Option TaskStatus :=
  match x.kind with
  | .executor .. => some .queued
  | .tick | .cancel => (x.view db).taskStatus t

/-- `give_up_on_fail`. -/
def giveUpOnFail (x : Session) : Bool :=
  match x.kind with
  | .executor .. => true
  | .tick | .cancel => false

def addWrites (x : Session) (ws : List Write) : Session := { x with writes := x.writes ++ ws }

/-- The periodic pass times out the execution of a run row that failed. -/
def timeoutWrites (kind : SessionKind) (now : Time) (row : CommandOutbox) : List Write :=
  if kind = .tick ∧ row.type = .run then [.timeout now row.taskId row.executionId] else []

/-- The next row is read again, and checked.  The periodic pass first looks at
the deadline of the row it loaded. -/
def refresh (x : Session) (db : ServerDb) (now : Time) : Option Session :=
  match x.sending, x.todo with
  | none, (c, loaded) :: todo =>
      if x.kind = .tick ∧ loaded.pastDeadline now then none
      else
        ((x.view db).outbox.get c).map fun row =>
          let x := { x with todo := todo }
          match planDispatch row (x.seenTask db row.taskId) with
          | .sent => { x with anySent := true }
          | .canceled => x
          | .notDispatchable => x.addWrites [.row c row (row.discard now)]
          | .send => { x with sending := some (c, row) }
  | _, _ => none

/-- The row read is appended under a message id, or the append raised. -/
def append (x : Session) (now : Time) (msg : Option MessageId) : Option Session :=
  x.sending.map fun r =>
    let (new, outcome) := finishDispatch r.2 x.giveUpOnFail now msg
    let x := { x with sending := none }
    match outcome with
    | .sent => { x with anySent := true }.addWrites [.row r.1 r.2 new]
    | .failed => x.addWrites (.row r.1 r.2 new :: timeoutWrites x.kind now r.2)
    | .skipped | .retry => x.addWrites [.row r.1 r.2 new]

/-- The periodic pass gives its next row up. -/
def giveUp (x : Session) (now : Time) : Option Session :=
  match x.kind, x.sending, x.todo with
  | .tick, none, (c, loaded) :: todo =>
      if loaded.pastDeadline now then
        some ({ x with todo := todo }.addWrites
          (.row c loaded (loaded.giveUp now) :: timeoutWrites .tick now loaded))
      else none
  | _, _, _ => none

/-- The commit.  An executor that sent nothing fails its task. -/
def commit (x : Session) (db : ServerDb) (now : Time) (held : HeldRows) : Option ServerDb :=
  if x.todo.isEmpty ∧ x.sending.isNone then
    match x.kind with
    | .executor t last =>
        if x.anySent then some (x.view db)
        else if held.status last = some .pending then
          some ((x.view db).failDispatchUnavailable held now t)
        else none
    | .tick | .cancel => some (x.view db)
  else none

end Session

/-! ### The machine -/

structure State where
  db : ServerDb
  /-- The entries that are in the agents' command streams. -/
  streams : Table MessageId AgentCommand
  nextMsg : MessageId
  sessions : Table SessionId Session
  nextSession : SessionId

/-- An empty server. -/
def State.start : State where
  db := .empty
  streams := .empty
  nextMsg := 0
  sessions := .empty
  nextSession := 0

/-- `_build_command`. -/
def buildCommand (c : CommandId) (row : CommandOutbox) : AgentCommand where
  commandId := c
  type := row.type
  agentId := row.agentId
  taskId := row.taskId
  executionId := row.executionId
  taskType := row.taskType
  intent := row.intent
  payload := row.payload

inductive Action where
  /-- A transaction of a terminal writer. -/
  | write (w : Writer)
  /-- A stop, cleanup or stop-logs command is put into the outbox. -/
  | issue (row : CommandOutbox)
  /-- An executor creates a task. -/
  | create (now : Time) (t : TaskId) (task : Task) (taskType : RunnerType)
      (payload : CommandPayload) (nodes : List (ExecutionId × AgentId))
  /-- A task is canceled. -/
  | cancel (now : Time) (t : TaskId)
  /-- The periodic pass requeues rows whose message is gone, and loads rows. -/
  | tick (now : Time) (requeued rows : List CommandId)
  /-- A session reads its next row again. -/
  | refresh (i : SessionId) (now : Time)
  /-- A session appends the row it has read, or the append raises. -/
  | append (i : SessionId) (now : Time) (ok : Bool)
  /-- The periodic pass gives its next row up. -/
  | giveUp (i : SessionId) (now : Time)
  | commit (i : SessionId) (now : Time) (held : HeldRows)
  /-- A session ends without a commit. -/
  | abort (i : SessionId)
  /-- Entries vanish from the streams. -/
  | vanish (msgs : List MessageId)

namespace State

def setSession (s : State) (i : SessionId) (x : Session) : State :=
  { s with sessions := s.sessions.modify i fun _ => x }

def addSession (s : State) (x : Session) : State :=
  { s with sessions := s.sessions.insert s.nextSession x, nextSession := s.nextSession + 1 }

/-- The rows that `db` has got since `old`. -/
def newRows (old db : ServerDb) : List (CommandId × CommandOutbox) :=
  db.outbox.rows.filter fun r => old.nextCommand ≤ r.1

/-- May the pass requeue this row: it was sent, its task is active, and its
message is not in the stream? -/
def requeueable (s : State) (row : CommandOutbox) : Bool :=
  row.status == .sent && (s.db.taskStatus row.taskId).any TaskStatus.active
    && row.redisMsgId.any fun m => (s.streams.get m).isNone

end State

/-- The requeued rows of a pass, each as a write. -/
def requeueWrites (db : ServerDb) (now : Time) (cs : List CommandId) : List Write :=
  cs.filterMap fun c => (db.outbox.get c).map fun row => .row c row (row.requeue now)

/-- A pass at its start: it has requeued rows, and then loaded rows. -/
def tickSession (db : ServerDb) (now : Time) (requeued rows : List CommandId) : Session :=
  let writes := requeueWrites db now requeued
  { kind := .tick
    todo := rows.filterMap fun c =>
      ((applyWrites db writes).outbox.get c).map fun row => (c, row)
    writes := writes }

/-- One step. -/
def step (s : State) : Action → Option State
  | .write (.dispatchTimeout ..) => none
  | .write w => some { s with db := w.apply s.db }
  | .issue row =>
      if row.type ≠ .run ∧ row.status = .pending ∧ row.redisMsgId = none then
        some { s with db := s.db.addOutbox row }
      else none
  | .create now t task taskType payload nodes =>
      if (s.db.tasks.get t).isNone ∧ (∀ n ∈ nodes, (s.db.executions.get n.1).isNone)
          ∧ (nodes.map Prod.fst).Nodup then
        let db := s.db.createTask now t task taskType payload nodes
        match nodes.getLast? with
        | none => some { s with db := db }
        | some last =>
            some ({ s with db := db }.addSession
              { kind := .executor t last.1, todo := State.newRows s.db db })
      else none
  | .cancel now t =>
      let db := s.db.requestCancel now t
      some ({ s with db := db }.addSession { kind := .cancel, todo := State.newRows s.db db })
  | .tick now requeued rows =>
      let x := tickSession s.db now requeued rows
      if (∀ r ∈ s.sessions.rows, r.2.kind ≠ .tick) ∧ requeued.Nodup ∧ rows.Nodup
          ∧ (∀ c ∈ requeued, (s.db.outbox.get c).any s.requeueable)
          ∧ ∀ r ∈ x.todo, r.2.status.dispatchable then
        some (s.addSession x)
      else none
  | .refresh i now => do
      let x ← s.sessions.get i
      let x' ← x.refresh s.db now
      some (s.setSession i x')
  | .append i now ok => do
      let x ← s.sessions.get i
      let r ← x.sending
      let x' ← x.append now (if ok then some s.nextMsg else none)
      let s := if ok then
          { s with
            streams := s.streams.insert s.nextMsg (buildCommand r.1 r.2)
            nextMsg := s.nextMsg + 1 }
        else s
      some (s.setSession i x')
  | .giveUp i now => do
      let x ← s.sessions.get i
      let x' ← x.giveUp now
      some (s.setSession i x')
  | .commit i now held => do
      let x ← s.sessions.get i
      let db ← x.commit s.db now held
      some { s with db := db, sessions := s.sessions.erase i }
  | .abort i => some { s with sessions := s.sessions.erase i }
  | .vanish msgs => some { s with streams := msgs.foldl Table.erase s.streams }

/-! ### What a session writes -/

/-- The executions that writes time out, with their tasks. -/
def timeoutsOf (ws : List Write) : List (TaskId × ExecutionId) :=
  ws.filterMap fun
    | .row .. => none
    | .timeout _ t e => some (t, e)

def Session.timeouts (x : Session) : List (TaskId × ExecutionId) := timeoutsOf x.writes

section Writes

variable {db : ServerDb} {ws : List Write}

theorem applyWrites_cons (w : Write) : applyWrites db (w :: ws) = applyWrites (w.apply db) ws := rfl

theorem applyWrites_append (ws' : List Write) :
    applyWrites db (ws ++ ws') = applyWrites (applyWrites db ws) ws' := List.foldl_append

@[simp] theorem timeoutsOf_row (c : CommandId) (loaded new : CommandOutbox) :
    timeoutsOf (.row c loaded new :: ws) = timeoutsOf ws := rfl

@[simp] theorem timeoutsOf_timeout (now : Time) (t : TaskId) (e : ExecutionId) :
    timeoutsOf (.timeout now t e :: ws) = (t, e) :: timeoutsOf ws := rfl

theorem timeoutsOf_append (ws' : List Write) :
    timeoutsOf (ws ++ ws') = timeoutsOf ws ++ timeoutsOf ws' := List.filterMap_append

/-- Writes fail the active executions they time out. -/
theorem applyWrites_execStatus (e : ExecutionId) :
    (applyWrites db ws).execStatus e = (db.execStatus e).map fun y =>
      (y.1, if e ∈ (timeoutsOf ws).map Prod.snd ∧ y.2.active = true then .failed else y.2) := by
  induction ws generalizing db with
  | nil =>
      simp only [timeoutsOf, List.filterMap_nil, List.map_nil, List.not_mem_nil, false_and,
        if_false]
      exact Option.map_id'.symm
  | cons w ws ih =>
      rw [applyWrites_cons, ih]
      cases w with
      | row c loaded new => rfl
      | timeout now t e' =>
          show Option.map _ ((db.failExecutionDispatchTimeout now t e').execStatus e) = _
          rw [ServerDb.execStatus_failExecutionDispatchTimeout, Option.map_map]
          congr 1
          funext y
          simp only [Function.comp_apply, timeoutsOf_timeout, List.map_cons, List.mem_cons]
          by_cases hactive : y.2.active = true
          · by_cases he : e = e'
            · simp [hactive, he, show ExecStatus.failed.active = false from rfl]
            · rw [if_neg (show ¬ (e = e' ∧ y.2.active = true) from fun hc => he hc.1)]
              simp only [show ¬ e = e' from he, false_or]
          · simp [hactive]

/-- Writes fail the active tasks whose executions they time out. -/
theorem applyWrites_taskStatus (t : TaskId) :
    (applyWrites db ws).taskStatus t = (db.taskStatus t).map fun s =>
      if t ∈ (timeoutsOf ws).map Prod.fst ∧ s.active = true then .failed else s := by
  induction ws generalizing db with
  | nil =>
      simp only [timeoutsOf, List.filterMap_nil, List.map_nil, List.not_mem_nil, false_and,
        if_false]
      exact Option.map_id'.symm
  | cons w ws ih =>
      rw [applyWrites_cons, ih]
      cases w with
      | row c loaded new => rfl
      | timeout now t' e =>
          show Option.map _ ((db.failExecutionDispatchTimeout now t' e).taskStatus t) = _
          rw [ServerDb.taskStatus_failExecutionDispatchTimeout, Option.map_map]
          congr 1
          funext y
          simp only [Function.comp_apply, timeoutsOf_timeout, List.map_cons, List.mem_cons]
          by_cases hactive : y.active = true
          · by_cases ht : t = t'
            · simp [hactive, ht, show TaskStatus.failed.active = false from rfl]
            · rw [if_neg (show ¬ (t = t' ∧ y.active = true) from fun hc => ht hc.1)]
              simp only [show ¬ t = t' from ht, false_or]
          · simp [hactive]

theorem applyWrites_onward : db.Onward (applyWrites db ws) := by
  apply ServerDb.Onward.of_map applyWrites_execStatus
  intro e y
  split
  · rename_i h
    exact .of_active h.2 (by simp)
  · exact .refl y.2

end Writes

/-! ### What one step of a session does -/

namespace Session

variable {x x' : Session} {db : ServerDb} {now : Time}

/-- What reading a row again comes to. -/
inductive Refreshed (x : Session) (db : ServerDb) (now : Time) : Session → Prop
  | sent {c loaded todo row} : x.sending = none → x.todo = (c, loaded) :: todo →
      (x.view db).outbox.get c = some row → row.status = .sent →
      Refreshed x db now { x with todo := todo, anySent := true }
  | canceled {c loaded todo row} : x.sending = none → x.todo = (c, loaded) :: todo →
      (x.view db).outbox.get c = some row → row.status = .canceled →
      Refreshed x db now { x with todo := todo }
  | notDispatchable {c loaded todo row} : x.sending = none → x.todo = (c, loaded) :: todo →
      (x.view db).outbox.get c = some row → row.status ≠ .sent → row.status ≠ .canceled →
      row.type = .run → (x.seenTask db row.taskId).all TaskStatus.terminal = true →
      Refreshed x db now
        { x with todo := todo, writes := x.writes ++ [.row c row (row.discard now)] }
  | send {c loaded todo row} : x.sending = none → x.todo = (c, loaded) :: todo →
      (x.view db).outbox.get c = some row → row.status ≠ .sent → row.status ≠ .canceled →
      (row.type = .run → (x.seenTask db row.taskId).all TaskStatus.terminal = false) →
      Refreshed x db now { x with todo := todo, sending := some (c, row) }

theorem refreshed (h : x.refresh db now = some x') : Refreshed x db now x' := by
  unfold refresh at h
  split at h
  · rename_i c loaded todo hsending htodo
    split at h
    · cases h
    · obtain ⟨row, hrow, rfl⟩ := Option.map_eq_some_iff.mp h
      have hseen : Session.seenTask { x with todo := todo } db row.taskId =
          x.seenTask db row.taskId := rfl
      simp only [hseen]
      unfold planDispatch
      by_cases hsent : row.status = .sent
      · rw [if_pos hsent]
        exact .sent hsending htodo hrow hsent
      · rw [if_neg hsent]
        by_cases hcanceled : row.status = .canceled
        · rw [if_pos hcanceled]
          exact .canceled hsending htodo hrow hcanceled
        · rw [if_neg hcanceled]
          by_cases hterm : row.type = .run ∧
              (x.seenTask db row.taskId).all TaskStatus.terminal = true
          · rw [if_pos hterm]
            exact .notDispatchable hsending htodo hrow hsent hcanceled hterm.1 hterm.2
          · rw [if_neg hterm]
            refine .send hsending htodo hrow hsent hcanceled fun hrun => ?_
            rw [← Bool.not_eq_true]
            exact fun hall => hterm ⟨hrun, hall⟩
  · cases h

/-- What an append comes to. -/
inductive Appended (x : Session) (now : Time) : Option MessageId → Session → Prop
  | sent {c row} (m : MessageId) : x.sending = some (c, row) →
      Appended x now (some m)
        { x with
          sending := none
          anySent := true
          writes := x.writes ++ [.row c row (row.markSent m now)] }
  | retry {c row} : x.sending = some (c, row) → x.giveUpOnFail = false →
      Appended x now none
        { x with
          sending := none
          writes := x.writes ++ [.row c row (row.markUnavailable .failedRetryable now)] }
  | failed {c row} : x.sending = some (c, row) →
      Appended x now none
        { x with
          sending := none
          writes := x.writes ++
            .row c row (row.markUnavailable .failed now) :: timeoutWrites x.kind now row }

theorem appended {msg : Option MessageId} (h : x.append now msg = some x') :
    Appended x now msg x' := by
  unfold append at h
  obtain ⟨⟨c, row⟩, hsending, rfl⟩ := Option.map_eq_some_iff.mp h
  rcases msg with - | m
  · unfold finishDispatch
    simp only
    by_cases hgive : x.giveUpOnFail = true ∨ row.maxRetry ≤ row.retryCount + 1 ∨
        row.giveUpAt.any (· ≤ now) = true
    · rw [if_pos hgive]
      exact .failed hsending
    · rw [if_neg hgive]
      refine .retry hsending ?_
      rw [← Bool.not_eq_true]
      exact fun h => hgive (.inl h)
  · exact .sent m hsending

theorem gaveUp (h : x.giveUp now = some x') :
    ∃ c loaded todo, x.kind = .tick ∧ x.sending = none ∧ x.todo = (c, loaded) :: todo ∧
      loaded.pastDeadline now = true ∧
      x' = { x with
        todo := todo
        writes := x.writes ++ .row c loaded (loaded.giveUp now) :: timeoutWrites .tick now loaded } := by
  unfold giveUp at h
  split at h
  · rename_i c loaded todo hkind hsending htodo
    split at h
    · rename_i hpast
      exact ⟨c, loaded, todo, hkind, hsending, htodo, hpast, (Option.some.inj h).symm⟩
    · cases h
  · cases h

/-- What a commit comes to. -/
inductive Committed (x : Session) (db : ServerDb) (now : Time) (held : HeldRows) : ServerDb → Prop
  | done : x.todo = [] → x.sending = none →
      ((∃ t last, x.kind = .executor t last) → x.anySent = true) →
      Committed x db now held (x.view db)
  | unavailable {t last} : x.todo = [] → x.sending = none → x.kind = .executor t last →
      x.anySent = false → held.status last = some .pending →
      Committed x db now held ((x.view db).failDispatchUnavailable held now t)

theorem committed {held : HeldRows} {db' : ServerDb} (h : x.commit db now held = some db') :
    Committed x db now held db' := by
  unfold commit at h
  split at h
  · rename_i hdone
    have htodo : x.todo = [] := List.isEmpty_iff.mp hdone.1
    have hsending : x.sending = none := Option.isNone_iff_eq_none.mp hdone.2
    split at h
    · rename_i t last hkind
      split at h
      · rename_i hany
        obtain rfl := Option.some.inj h
        exact .done htodo hsending fun _ => hany
      · rename_i hany
        split at h
        · rename_i hheld
          obtain rfl := Option.some.inj h
          exact .unavailable htodo hsending hkind (by simpa using hany) hheld
        · cases h
    · rename_i hkind
      obtain rfl := Option.some.inj h
      refine .done htodo hsending ?_
      rintro ⟨t, last, hexec⟩
      rw [hexec] at hkind
      cases hkind
    · rename_i hkind
      obtain rfl := Option.some.inj h
      refine .done htodo hsending ?_
      rintro ⟨t, last, hexec⟩
      rw [hexec] at hkind
      cases hkind
  · cases h

end Session

/-! ### What one step of the machine does -/

section Steps

variable {s s' : State} {a : Action}

/-- The step function as a relation. -/
inductive Step (s : State) : Action → State → Prop
  | write {w : Writer} : (∀ now t e, w ≠ .dispatchTimeout now t e) →
      Step s (.write w) { s with db := w.apply s.db }
  | issue {row : CommandOutbox} : row.type ≠ .run → row.status = .pending →
      row.redisMsgId = none → Step s (.issue row) { s with db := s.db.addOutbox row }
  | noTarget {now t task taskType payload} : s.db.tasks.get t = none →
      Step s (.create now t task taskType payload [])
        { s with db := s.db.createTask now t task taskType payload [] }
  | create {now t task taskType payload nodes last} : s.db.tasks.get t = none →
      (∀ n ∈ nodes, s.db.executions.get n.1 = none) → (nodes.map Prod.fst).Nodup →
      nodes.getLast? = some last →
      Step s (.create now t task taskType payload nodes)
        ({ s with db := s.db.createTask now t task taskType payload nodes }.addSession
          { kind := .executor t last.1
            todo := State.newRows s.db (s.db.createTask now t task taskType payload nodes) })
  | cancel {now t} : Step s (.cancel now t)
      ({ s with db := s.db.requestCancel now t }.addSession
        { kind := .cancel, todo := State.newRows s.db (s.db.requestCancel now t) })
  | tick {now requeued rows} :
      (∀ i x, s.sessions.get i = some x → x.kind ≠ .tick) →
      requeued.Nodup → rows.Nodup →
      (∀ c ∈ requeued, ∃ row, s.db.outbox.get c = some row ∧ s.requeueable row = true) →
      (∀ r ∈ (tickSession s.db now requeued rows).todo, r.2.status.dispatchable = true) →
      Step s (.tick now requeued rows) (s.addSession (tickSession s.db now requeued rows))
  | refresh {i now x x'} : s.sessions.get i = some x → x.refresh s.db now = some x' →
      Step s (.refresh i now) (s.setSession i x')
  | sent {i now x c row x'} : s.sessions.get i = some x → x.sending = some (c, row) →
      x.append now (some s.nextMsg) = some x' →
      Step s (.append i now true)
        ({ s with
            streams := s.streams.insert s.nextMsg (buildCommand c row)
            nextMsg := s.nextMsg + 1 }.setSession i x')
  | raised {i now x x'} : s.sessions.get i = some x → x.append now none = some x' →
      Step s (.append i now false) (s.setSession i x')
  | giveUp {i now x x'} : s.sessions.get i = some x → x.giveUp now = some x' →
      Step s (.giveUp i now) (s.setSession i x')
  | commit {i now held x db} : s.sessions.get i = some x → x.commit s.db now held = some db →
      Step s (.commit i now held) { s with db := db, sessions := s.sessions.erase i }
  | abort {i} : Step s (.abort i) { s with sessions := s.sessions.erase i }
  | vanish {msgs} : Step s (.vanish msgs) { s with streams := msgs.foldl Table.erase s.streams }

theorem step_cases (h : step s a = some s') : Step s a s' := by
  cases a with
  | write w =>
      cases w with
      | dispatchTimeout now t e => cases h
      | applyEvent now ev msg =>
          obtain rfl := Option.some.inj h
          exact .write (by intro _ _ _ hc; cases hc)
      | markLost now held e reason =>
          obtain rfl := Option.some.inj h
          exact .write (by intro _ _ _ hc; cases hc)
      | repairOrphanedTask now settings held t =>
          obtain rfl := Option.some.inj h
          exact .write (by intro _ _ _ hc; cases hc)
      | markTaskLost now t =>
          obtain rfl := Option.some.inj h
          exact .write (by intro _ _ _ hc; cases hc)
  | issue row =>
      simp only [step] at h
      split at h
      · rename_i hrow
        obtain rfl := Option.some.inj h
        exact .issue hrow.1 hrow.2.1 hrow.2.2
      · cases h
  | create now t task taskType payload nodes =>
      simp only [step] at h
      split at h
      · rename_i hnew
        obtain ⟨ht, hnodes, hnodup⟩ := hnew
        have ht : s.db.tasks.get t = none := Option.isNone_iff_eq_none.mp ht
        split at h
        · rename_i hlast
          obtain rfl := Option.some.inj h
          obtain rfl := List.getLast?_eq_none_iff.mp hlast
          exact .noTarget ht
        · rename_i last hlast
          obtain rfl := Option.some.inj h
          exact .create ht (fun n hn => Option.isNone_iff_eq_none.mp (hnodes n hn)) hnodup hlast
      · cases h
  | cancel now t =>
      obtain rfl := Option.some.inj h
      exact .cancel
  | tick now requeued rows =>
      simp only [step] at h
      split at h
      · rename_i hok
        obtain rfl := Option.some.inj h
        obtain ⟨hone, hnodup, hnodup', hrequeued, htodo⟩ := hok
        refine .tick ?_ hnodup hnodup' ?_ htodo
        · intro i x hx
          exact hone (i, x) (Table.mem_rows_iff.mpr hx)
        · intro c hc
          have hany := hrequeued c hc
          rcases hrow : s.db.outbox.get c with - | row
          · rw [hrow] at hany
            cases hany
          · rw [hrow] at hany
            exact ⟨row, rfl, hany⟩
      · cases h
  | refresh i now =>
      obtain ⟨x, hx, h⟩ := Option.bind_eq_some_iff.mp h
      obtain ⟨x', hx', h⟩ := Option.bind_eq_some_iff.mp h
      obtain rfl := Option.some.inj h
      exact .refresh hx hx'
  | append i now ok =>
      obtain ⟨x, hx, h⟩ := Option.bind_eq_some_iff.mp h
      obtain ⟨⟨c, row⟩, hsending, h⟩ := Option.bind_eq_some_iff.mp h
      obtain ⟨x', hx', h⟩ := Option.bind_eq_some_iff.mp h
      obtain rfl := Option.some.inj h
      cases ok with
      | true => exact .sent hx hsending hx'
      | false => exact .raised hx hx'
  | giveUp i now =>
      obtain ⟨x, hx, h⟩ := Option.bind_eq_some_iff.mp h
      obtain ⟨x', hx', h⟩ := Option.bind_eq_some_iff.mp h
      obtain rfl := Option.some.inj h
      exact .giveUp hx hx'
  | commit i now held =>
      obtain ⟨x, hx, h⟩ := Option.bind_eq_some_iff.mp h
      obtain ⟨db, hdb, h⟩ := Option.bind_eq_some_iff.mp h
      obtain rfl := Option.some.inj h
      exact .commit hx hdb
  | abort i =>
      obtain rfl := Option.some.inj h
      exact .abort
  | vanish msgs =>
      obtain rfl := Option.some.inj h
      exact .vanish

end Steps

end Dispatch

end Dopilot
