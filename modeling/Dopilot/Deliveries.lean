/-
Dopilot/Deliveries.lean

One run command, several sessions that deliver it.

The executor that created a run row and the periodic pass may both deliver it.
Each reads the row, appends the command and commits its verdict, and neither
keeps the other out: one may append the command while the other's append fails
and fails the execution.  An execution failed with `dispatch_unavailable` or
`dispatch_timeout` (`Coded`) then has its command in an agent's stream.

A session holds a row (`Session.Holds`) from reading it to its commit.  `Alone`
says that no session reads or gives up a run row another one holds, that none
delivers a failed one, that a commit is lost only if nothing was appended, and
that an executor fails only what is still active.  `honest` is the property in
every run of such steps, and `not_honest` a run in which an executor and a pass
deliver the same row.
-/
import Dopilot.Abandoned

namespace Dopilot

open StateMachine

/-! ### The error codes of the dispatch -/

/-- The execution carries an error code of the dispatch. -/
def ServerDb.Coded (db : ServerDb) (e : ExecutionId) : Prop :=
  ∃ x, db.executions.get e = some x ∧
    (x.errorCode = some "dispatch_unavailable" ∨ x.errorCode = some "dispatch_timeout")

namespace ServerDb

section Coded

variable {db db' : ServerDb} {now : Time} {e e' : ExecutionId}

theorem Coded.of_executions (h : db'.Coded e) (heq : db'.executions = db.executions) :
    db.Coded e := by
  obtain ⟨x, hx, hcode⟩ := h
  rw [heq] at hx
  exact ⟨x, hx, hcode⟩

/-- An execution that is written keeps its error code, or gets another one. -/
theorem Coded.of_updateExecution {f : Execution → Execution} (h : (db.updateExecution e f).Coded e')
    (hf : ∀ x, db.executions.get e = some x → (f x).errorCode = x.errorCode ∨
      (f x).errorCode ≠ some "dispatch_unavailable" ∧ (f x).errorCode ≠ some "dispatch_timeout") :
    db.Coded e' := by
  obtain ⟨x', hx', hcode⟩ := h
  rw [updateExecution_get] at hx'
  by_cases he : e' = e
  · rw [if_pos he] at hx'
    obtain ⟨x, hx, rfl⟩ := Option.map_eq_some_iff.mp hx'
    rcases hf x (he ▸ hx) with hsame | ⟨hun, hti⟩
    · rw [hsame] at hcode
      exact ⟨x, hx, hcode⟩
    · exact absurd hcode (not_or.mpr ⟨hun, hti⟩)
  · rw [if_neg he] at hx'
    exact ⟨x', hx', hcode⟩

/-- An event gives no code but its own. -/
theorem applyStatus_errorCode (x : Execution) (ev : AgentEvent) (new : ExecStatus) (now : Time) :
    (applyStatus x ev new now).errorCode = x.errorCode ∨
      (applyStatus x ev new now).errorCode = ev.errorCode := by
  unfold applyStatus
  split
  · exact .inl rfl
  · split
    · simp only
      rcases ev.errorCode with - | code
      · exact .inl rfl
      · by_cases hempty : code ≠ ""
        · exact .inr (by simp [Option.filter, hempty])
        · exact .inl (by simp [Option.filter, hempty])
    · exact .inl rfl

theorem moveExecution_errorCode (x : Execution) (ev : AgentEvent) (new : ExecStatus) (now : Time) :
    (moveExecution x ev new now).1.errorCode = x.errorCode ∨
      (moveExecution x ev new now).1.errorCode = ev.errorCode := by
  have hreason : (maybeUpdateLostReason x ev).errorCode = x.errorCode := by
    unfold maybeUpdateLostReason
    split
    · rfl
    · split
      · rfl
      · rfl
  unfold moveExecution
  split
  · left
    simp only
    split
    · exact hreason
    · rfl
  · split
    · exact applyStatus_errorCode { x with reconciledFromLost := true } ev new now
    · split
      · exact .inl rfl
      · split
        · exact .inl rfl
        · split
          · exact applyStatus_errorCode x ev new now
          · exact .inl rfl

theorem Coded.of_applyEvent {ev : AgentEvent} {msg : MessageId}
    (h : (db.applyEvent now ev msg).1.Coded e)
    (hev : ev.errorCode ≠ some "dispatch_unavailable" ∧ ev.errorCode ≠ some "dispatch_timeout") :
    db.Coded e := by
  unfold applyEvent at h
  rcases htype : ev.type.toExec with - | new
  · rw [htype] at h
    rcases hx : db.executions.get ev.executionId with - | x
    · rw [hx] at h
      exact h
    · rw [hx] at h
      have hbeat : (db.updateExecution ev.executionId fun e =>
          heartbeatExecution e ev now).Coded e := by
        change (db.applyHeartbeat now ev msg x).1.Coded e at h
        unfold applyHeartbeat at h
        simp only at h
        split at h
        · split at h
          · exact h
          · exact h.of_executions rfl
        · exact h
      refine hbeat.of_updateExecution fun y _ => .inl ?_
      unfold heartbeatExecution
      simp only
      split
      · rfl
      · split
        · rfl
        · rfl
  · rw [htype] at h
    simp only at h
    split at h
    · exact h
    · rcases hx : db.executions.get ev.executionId with - | x
      · rw [hx] at h
        exact h.of_executions rfl
      · rw [hx] at h
        change (db.applyLifecycle now ev msg new x).1.Coded e at h
        have hmoved := h.of_executions applyLifecycle_executions
        refine hmoved.of_updateExecution fun y hy => ?_
        obtain rfl : x = y := Option.some.inj (hx.symm.trans hy)
        rcases moveExecution_errorCode x ev new now with hsame | hown
        · exact .inl hsame
        · refine .inr ?_
          show (moveExecution x ev new now).1.errorCode ≠ _ ∧
            (moveExecution x ev new now).1.errorCode ≠ _
          rw [hown]
          exact hev

theorem Coded.of_markLost {held : HeldRows} {reason : ExecLostReason}
    (h : (db.markLost held e' reason now).1.Coded e) : db.Coded e := by
  unfold markLost at h
  split at h
  · exact h
  · simp only at h
    split at h
    · exact h
    · have hlost : (db.updateExecution e' fun x => x.loseWith reason now).Coded e :=
        h.of_executions rfl
      refine hlost.of_updateExecution fun x _ => .inr ?_
      constructor
      · simp [Execution.loseWith]
      · simp [Execution.loseWith]

theorem Coded.of_markExecutionsLost {l : List (ExecutionId × Execution)}
    (h : (markExecutionsLost now l db).Coded e) : db.Coded e := by
  induction l generalizing db with
  | nil => exact h
  | cons r l ih => exact (ih h).of_markLost

end Coded

end ServerDb

/-- **Only the dispatch gives its error codes.** -/
theorem Writer.coded {db : ServerDb} {w : Writer} {e : ExecutionId} (h : (w.apply db).Coded e)
    (hdispatch : ∀ now t e, w ≠ .dispatchTimeout now t e)
    (hev : ∀ now ev msg, w = .applyEvent now ev msg →
      ev.errorCode ≠ some "dispatch_unavailable" ∧ ev.errorCode ≠ some "dispatch_timeout") :
    db.Coded e := by
  cases w with
  | applyEvent now ev msg => exact h.of_applyEvent (hev now ev msg rfl)
  | markLost now held e' reason => exact h.of_markLost
  | dispatchTimeout now t e' => exact absurd rfl (hdispatch now t e')
  | repairOrphanedTask now settings held t =>
      rcases ServerDb.repairOrphanedTask_cases db settings held now t with heq | ⟨task, f, -, -, heq⟩
      · change (db.repairOrphanedTask settings held now t).Coded e at h
        rw [heq] at h
        exact h
      · change (db.repairOrphanedTask settings held now t).Coded e at h
        rw [heq] at h
        exact h.of_executions rfl
  | markTaskLost now t =>
      change (db.markTaskLost now t).Coded e at h
      unfold ServerDb.markTaskLost at h
      split at h
      · exact h
      · split at h
        · exact h
        · have hlost : (ServerDb.markExecutionsLost now (db.listExecutions t) db).Coded e :=
            h.of_executions rfl
          exact hlost.of_markExecutionsLost

namespace Dispatch

/-! ### The property -/

/-- The execution is failed with an error code of the dispatch. -/
def Marked (db : ServerDb) (e : ExecutionId) : Prop :=
  ∃ x, db.executions.get e = some x ∧ x.status = .failed ∧
    (x.errorCode = some "dispatch_unavailable" ∨ x.errorCode = some "dispatch_timeout")

/-- No agent's stream has the run command of a marked execution. -/
def Honest (s : State) : Prop :=
  ∀ e, Marked s.db e → ∀ m cmd, s.streams.get m = some cmd → cmd.type = .run →
    cmd.executionId ≠ e

/-- No terminal is overwritten. -/
def Keeps (db db' : ServerDb) : Prop :=
  (∀ e t st, db.execStatus e = some (t, st) → st.terminal = true →
      db'.execStatus e = some (t, st)) ∧
    ∀ t st, db.taskStatus t = some st → st.terminal = true → db'.taskStatus t = some st

/-- The session has read the row for an append, or will write it. -/
def Session.Holds (x : Session) (c : CommandId) : Prop :=
  x.sending.map Prod.fst = some c ∨ rowWrites c x.writes ≠ []

/-- The row that the session comes to next, as it sees it. -/
def Session.next (x : Session) (db : ServerDb) : Option (CommandId × CommandOutbox) :=
  match x.todo with
  | [] => none
  | (c, _) :: _ => ((x.view db).outbox.get c).map fun row => (c, row)

/-- No other session holds the row. -/
def Unheld (s : State) (i : SessionId) (c : CommandId) : Prop :=
  ∀ r ∈ s.sessions.rows, r.1 ≠ i → ¬ r.2.Holds c

/-- A run row is read by one session at a time, and not once it has failed; it
is given up only while it is neither held nor sent; a session whose appends
went through commits; an executor fails what is active; and no agent reports an
error code of the dispatch. -/
def Alone (s : State) : Action → Prop
  | .write (.applyEvent _ ev _) =>
      ev.errorCode ≠ some "dispatch_unavailable" ∧ ev.errorCode ≠ some "dispatch_timeout"
  | .refresh i _ => ∀ x ∈ s.sessions.get i, ∀ r ∈ x.next s.db,
      r.2.type = .run → r.2.status ≠ .sent → r.2.status ≠ .failed ∧ Unheld s i r.1
  | .giveUp i _ => ∀ x ∈ s.sessions.get i, ∀ r ∈ x.next s.db,
      r.2.type = .run → r.2.status ≠ .sent ∧ Unheld s i r.1
  | .commit i _ _ => ∀ x ∈ s.sessions.get i, x.anySent = false →
      match x.kind with
      | .executor t _ => (s.db.taskStatus t).any TaskStatus.active = true ∧
          ∀ r ∈ s.db.listExecutions t, r.2.status.active = true
      | .tick | .cancel => True
  | .abort i => ∀ x ∈ s.sessions.get i, ∀ w ∈ x.writes,
      match w with
      | .row _ loaded new => loaded.type = .run → new.status ≠ .sent
      | .timeout .. => True
  | _ => True

/-! ### What a session wrote last -/

/-- The session has last marked the row sent, under this message. -/
def Session.LastSent (x : Session) (c : CommandId) (m : MessageId) : Prop :=
  ∃ ps loaded new, rowWrites c x.writes = ps ++ [(loaded, new)] ∧
    loaded.status ≠ .sent ∧ new.status = .sent ∧
    loaded.redisMsgId ≠ some m ∧ new.redisMsgId = some m

/-- The session has last failed the row. -/
def Session.LastFailed (x : Session) (c : CommandId) : Prop :=
  ∃ ps loaded new, rowWrites c x.writes = ps ++ [(loaded, new)] ∧
    loaded.status ≠ .failed ∧ new.status = .failed

section Rows

variable {x x' : Session} {db : ServerDb} {c c' : CommandId} {row : CommandOutbox} {m : MessageId}

theorem rowWrites_append (ws ws' : List Write) :
    rowWrites c (ws ++ ws') = rowWrites c ws ++ rowWrites c ws' := List.filterMap_append

/-- What a write to row `c` adds. -/
theorem rowWrites_write {ws tail : List Write} {loaded new : CommandOutbox}
    (htail : ∀ c loaded new, Write.row c loaded new ∉ tail) :
    rowWrites c' (ws ++ .row c loaded new :: tail) =
      rowWrites c' ws ++ if c = c' then [(loaded, new)] else [] := by
  have hnil : rowWrites c' tail = [] := by
    rw [List.eq_nil_iff_forall_not_mem]
    intro p hp
    exact htail _ _ _ (mem_rowWrites.mp hp)
  rw [rowWrites_append]
  congr 1
  by_cases hc : c = c'
  · have hcons : rowWrites c' (.row c loaded new :: tail) = (loaded, new) :: rowWrites c' tail :=
      List.filterMap_cons_some (if_pos hc)
    rw [if_pos hc, hcons, hnil]
  · have hcons : rowWrites c' (.row c loaded new :: tail) = rowWrites c' tail :=
      List.filterMap_cons_none (if_neg hc)
    rw [if_neg hc, hcons, hnil]

theorem mergeAll_append (ps qs : List (CommandOutbox × CommandOutbox)) (row : CommandOutbox) :
    mergeAll (ps ++ qs) row = mergeAll qs (mergeAll ps row) := List.foldl_append

theorem mergeAll_redisMsgId (ps : List (CommandOutbox × CommandOutbox)) (row : CommandOutbox) :
    (mergeAll ps row).redisMsgId = row.redisMsgId ∨
      ∃ p ∈ ps, (mergeAll ps row).redisMsgId = p.2.redisMsgId := by
  induction ps generalizing row with
  | nil => exact .inl rfl
  | cons p ps ih =>
      rcases ih (p.1.merge p.2 row) with h | ⟨q, hq, h⟩
      · by_cases hp : p.2.redisMsgId = p.1.redisMsgId
        · exact .inl (h.trans (if_pos hp))
        · exact .inr ⟨p, List.mem_cons_self, h.trans (if_neg hp)⟩
      · exact .inr ⟨q, List.mem_cons_of_mem _ hq, h⟩

/-- A session sees the rows it has not written as they are. -/
theorem view_of_unwritten (h : rowWrites c x.writes = []) :
    (x.view db).outbox.get c = db.outbox.get c := by
  show (applyWrites db x.writes).outbox.get c = _
  rw [applyWrites_outbox, h]
  exact Option.map_id'

theorem Session.LastSent.merged (h : x.LastSent c m) (row : CommandOutbox) :
    (mergeAll (rowWrites c x.writes) row).status = .sent ∧
      (mergeAll (rowWrites c x.writes) row).redisMsgId = some m := by
  obtain ⟨ps, loaded, new, hws, hloaded, hnew, hmsg, hnewmsg⟩ := h
  rw [hws, mergeAll_append]
  constructor
  · refine (CommandOutbox.merge_status ?_).trans hnew
    rw [hnew]
    exact fun hc => hloaded hc.symm
  · refine (if_neg ?_).trans hnewmsg
    rw [hnewmsg]
    exact fun hc => hmsg hc.symm

theorem Session.LastFailed.merged (h : x.LastFailed c) (row : CommandOutbox) :
    (mergeAll (rowWrites c x.writes) row).status = .failed := by
  obtain ⟨ps, loaded, new, hws, hloaded, hnew⟩ := h
  rw [hws, mergeAll_append]
  refine (CommandOutbox.merge_status ?_).trans hnew
  rw [hnew]
  exact fun hc => hloaded hc.symm

theorem Session.LastSent.holds (h : x.LastSent c m) : x.Holds c := by
  obtain ⟨ps, loaded, new, hws, -⟩ := h
  right
  rw [hws]
  simp

theorem Session.LastFailed.holds (h : x.LastFailed c) : x.Holds c := by
  obtain ⟨ps, loaded, new, hws, -⟩ := h
  right
  rw [hws]
  simp

/-- A session sees what it sent as sent. -/
theorem Session.LastSent.view (h : x.LastSent c m) (hrow : (x.view db).outbox.get c = some row) :
    row.status = .sent := by
  obtain ⟨row₀, -, -, rfl⟩ := applyWrites_get hrow
  exact (h.merged row₀).1

/-- A row that a session holds exists. -/
theorem Session.Holds.tracks (h : x.Holds c) (hwf : SessionWf db x) :
    ∃ row, db.outbox.get c = some row := by
  rcases h with hsending | hwritten
  · obtain ⟨⟨c', row⟩, hsome, rfl⟩ := Option.map_eq_some_iff.mp hsending
    obtain ⟨row₀, hrow₀, -⟩ := hwf.sending c' row hsome
    exact ⟨row₀, hrow₀⟩
  · obtain ⟨p, hp⟩ := List.exists_mem_of_ne_nil _ hwritten
    obtain ⟨⟨row₀, hrow₀, -⟩, -⟩ := hwf.writes c p.1 p.2 (mem_rowWrites.mp hp)
    exact ⟨row₀, hrow₀⟩

/-- What is last in a session's writes to a row stays last while it writes others. -/
theorem Session.LastSent.congr (h : x.LastSent c m)
    (hws : rowWrites c x'.writes = rowWrites c x.writes) : x'.LastSent c m := by
  unfold Session.LastSent
  rw [hws]
  exact h

theorem Session.LastFailed.congr (h : x.LastFailed c)
    (hws : rowWrites c x'.writes = rowWrites c x.writes) : x'.LastFailed c := by
  unfold Session.LastFailed
  rw [hws]
  exact h

end Rows

/-! ### What holds of every state -/

/-- An execution has one run row. -/
def OneRun (db : ServerDb) : Prop :=
  ∀ c c' row row', db.outbox.get c = some row → db.outbox.get c' = some row' →
    row.type = .run → row'.type = .run → row.executionId = row'.executionId → c = c'

/-- The run row starts nothing any more: it is failed or canceled, nobody is
about to append it, and who writes it fails it. -/
def Dropped (s : State) (c : CommandId) : Prop :=
  ∃ row, s.db.outbox.get c = some row ∧ row.type = .run ∧
    (row.status = .failed ∨ row.status = .canceled) ∧
    ∀ i x, s.sessions.get i = some x → x.sending.map Prod.fst ≠ some c ∧
      ∀ p ∈ rowWrites c x.writes, p.2.status = .failed

/-- The entry of a run row is on record: the row is sent and nobody holds it,
or the session that holds it has sent it. -/
def InFlight (s : State) (m : MessageId) (cmd : AgentCommand) : Prop :=
  ∃ row, s.db.outbox.get cmd.commandId = some row ∧ row.type = .run ∧
    row.executionId = cmd.executionId ∧
    (row.status = .sent ∧ row.redisMsgId = some m ∧
        (∀ i x, s.sessions.get i = some x → ¬ x.Holds cmd.commandId) ∨
      ∃ i x, s.sessions.get i = some x ∧ x.LastSent cmd.commandId m)

/-- What an executor did with a run row of its task, unless it has sent one. -/
def Accounted (s : State) (x : Session) (c : CommandId) : Prop :=
  c ∈ x.todo.map Prod.fst ∨ x.Holds c ∨ x.anySent = true ∨ Dropped s c

/-- What holds of each session. -/
structure SessionOk (db : ServerDb) (nextMsg : MessageId) (x : Session) : Prop where
  sending : ∀ c row, x.sending = some (c, row) → row.type = .run →
    row.status ≠ .sent ∧ row.status ≠ .failed ∧ ¬ x.LastFailed c ∧ ∀ m, ¬ x.LastSent c m
  sendingMsg : ∀ c row m, x.sending = some (c, row) → row.redisMsgId = some m → m < nextMsg
  todo : x.kind = .tick → ∀ r ∈ x.todo, r.2.status.dispatchable = true
  todoMsg : ∀ r ∈ x.todo, ∀ m, r.2.redisMsgId = some m → m < nextMsg
  writeMsg : ∀ c loaded new m, Write.row c loaded new ∈ x.writes → new.redisMsgId = some m →
    m < nextMsg
  timeouts : ∀ te ∈ x.timeouts, ∃ c row, db.outbox.get c = some row ∧ row.type = .run ∧
    row.executionId = te.2 ∧ x.LastFailed c
  unsent : x.kind ≠ .tick → ∀ c row, db.outbox.get c = some row → row.type = .run → x.Holds c →
    row.status ≠ .sent
  failed : ∀ t last, x.kind = .executor t last → x.anySent = false →
    ∀ c, rowWrites c x.writes ≠ [] → x.LastFailed c

structure Delivery (s : State) : Prop where
  oneRun : OneRun s.db
  alone : ∀ i j x y c row, s.sessions.get i = some x → s.sessions.get j = some y →
    s.db.outbox.get c = some row → row.type = .run → x.Holds c → y.Holds c → i = j
  entries : ∀ m cmd, s.streams.get m = some cmd →
    m < s.nextMsg ∧ (cmd.type = .run → InFlight s m cmd)
  msgs : ∀ c row m, s.db.outbox.get c = some row → row.redisMsgId = some m → m < s.nextMsg
  sessions : ∀ i x, s.sessions.get i = some x → SessionOk s.db s.nextMsg x
  executors : ∀ i x t last, s.sessions.get i = some x → x.kind = .executor t last →
    ∀ c row, s.db.outbox.get c = some row → row.type = .run → row.taskId = t → Accounted s x c
  coded : ∀ e, s.db.Coded e → ∀ c row, s.db.outbox.get c = some row → row.type = .run →
    row.executionId = e → Dropped s c

section Delivery

variable {s s' : State} {a : Action} {i : SessionId} {x x' : Session}

/-- **Nothing was sent for a dropped row.** -/
theorem Delivery.no_entry (h : Delivery s) {m : MessageId} {cmd : AgentCommand}
    (hm : s.streams.get m = some cmd) (hrun : cmd.type = .run) : ¬ Dropped s cmd.commandId := by
  rintro ⟨row, hrow, -, hstatus, hsessions⟩
  obtain ⟨row', hrow', -, -, hflight⟩ := (h.entries m cmd hm).2 hrun
  obtain rfl : row = row' := Option.some.inj (hrow.symm.trans hrow')
  rcases hflight with ⟨hsent, -, -⟩ | ⟨i, x, hx, ps, loaded, new, hws, -, hnew, -⟩
  · rw [hsent] at hstatus
    rcases hstatus with hc | hc
    · cases hc
    · cases hc
  · have hmem : (loaded, new) ∈ rowWrites cmd.commandId x.writes := by
      rw [hws]
      exact List.mem_append_right _ List.mem_cons_self
    have hfailed := (hsessions i x hx).2 _ hmem
    simp only [hnew] at hfailed
    cases hfailed

/-- A session sees a dropped row as failed or canceled. -/
theorem Dropped.view {c : CommandId} {row : CommandOutbox} (h : Dropped s c)
    (hx : s.sessions.get i = some x) (hrow : (x.view s.db).outbox.get c = some row) :
    row.type = .run ∧ (row.status = .failed ∨ row.status = .canceled) := by
  obtain ⟨row₀, hrow₀, hrun, hstatus, hsessions⟩ := h
  obtain ⟨row₁, hrow₁, hsame, rfl⟩ := applyWrites_get hrow
  obtain rfl : row₀ = row₁ := Option.some.inj (hrow₀.symm.trans hrow₁)
  refine ⟨hsame.type.trans hrun, ?_⟩
  rcases mergeAll_status (rowWrites c x.writes) row₀ with hkept | ⟨p, hp, hwritten⟩
  · rw [hkept]
    exact hstatus
  · rw [hwritten]
    exact .inl ((hsessions i x hx).2 p hp)

theorem get_setSession {streams : Table MessageId AgentCommand} {nextMsg : MessageId}
    (hx : s.sessions.get i = some x) :
    ({ s with streams := streams, nextMsg := nextMsg }.setSession i x').sessions.get i = some x' := by
  show (s.sessions.modify i fun _ => x').get i = some x'
  rw [Table.get_modify, if_pos rfl, hx]
  rfl

/-- A session moves. -/
theorem Delivery.moveSession (h : Delivery s) (streams : Table MessageId AgentCommand)
    (nextMsg : MessageId) (hx : s.sessions.get i = some x) (hkind : x'.kind = x.kind)
    (hnext : s.nextMsg ≤ nextMsg)
    (hholds : ∀ c row, s.db.outbox.get c = some row → row.type = .run → x'.Holds c →
      x.Holds c ∨ Unheld s i c ∧ row.status ≠ .sent)
    (hlast : ∀ c row m, s.db.outbox.get c = some row → row.type = .run → x.LastSent c m →
      x'.LastSent c m)
    (hdropped : ∀ c, Dropped s c → x'.sending.map Prod.fst ≠ some c ∧
      ∀ p ∈ rowWrites c x'.writes, p.2.status = .failed)
    (hok : SessionOk s.db nextMsg x')
    (hacc : ∀ t last, x'.kind = .executor t last → ∀ c row, s.db.outbox.get c = some row →
      row.type = .run → row.taskId = t → Accounted s x c → Accounted s x' c)
    (hentries : ∀ m cmd, streams.get m = some cmd → s.streams.get m = some cmd ∨
      m < nextMsg ∧ (cmd.type = .run → ∃ row, s.db.outbox.get cmd.commandId = some row ∧
        row.type = .run ∧ row.executionId = cmd.executionId ∧ x'.LastSent cmd.commandId m)) :
    Delivery ({ s with streams := streams, nextMsg := nextMsg }.setSession i x') := by
  have hdrop : ∀ c, Dropped s c →
      Dropped ({ s with streams := streams, nextMsg := nextMsg }.setSession i x') c := by
    intro c hc
    have hmoved := hdropped c hc
    obtain ⟨row, hrow, hrun, hstatus, hsessions⟩ := hc
    refine ⟨row, hrow, hrun, hstatus, fun j y hy => ?_⟩
    rcases sessions_cases hy with hy | ⟨-, rfl⟩
    · exact hsessions j y hy
    · exact hmoved
  have haccount : ∀ y c, Accounted s y c →
      Accounted ({ s with streams := streams, nextMsg := nextMsg }.setSession i x') y c := by
    intro y c hy
    exact hy.imp_right fun hy => hy.imp_right fun hy => hy.imp_right (hdrop c)
  refine ⟨h.oneRun, ?_, ?_, ?_, ?_, ?_, ?_⟩
  · -- who holds a row has held it, or nobody else does
    intro j k y z c row hy hz hrow hrun hyc hzc
    have hold : ∀ j y, ({ s with streams := streams, nextMsg := nextMsg }.setSession i
        x').sessions.get j = some y → y.Holds c →
        (∃ y₀, s.sessions.get j = some y₀ ∧ y₀.Holds c) ∨ j = i ∧ Unheld s i c := by
      intro j y hy hyc
      rcases sessions_cases hy with hy | ⟨rfl, rfl⟩
      · exact .inl ⟨y, hy, hyc⟩
      · rcases hholds c row hrow hrun hyc with hxc | ⟨hun, -⟩
        · exact .inl ⟨x, hx, hxc⟩
        · exact .inr ⟨rfl, hun⟩
    have hclash : ∀ j y, s.sessions.get j = some y → y.Holds c → Unheld s i c → j = i := by
      intro j y hy hyc hun
      by_contra hne
      exact hun (j, y) (Table.mem_rows_iff.mpr hy) hne hyc
    rcases hold j y hy hyc with ⟨y₀, hy₀, hyc₀⟩ | ⟨hji, hun⟩
    · rcases hold k z hz hzc with ⟨z₀, hz₀, hzc₀⟩ | ⟨hki, hun⟩
      · exact h.alone j k y₀ z₀ c row hy₀ hz₀ hrow hrun hyc₀ hzc₀
      · rw [hki]
        exact hclash j y₀ hy₀ hyc₀ hun
    · rcases hold k z hz hzc with ⟨z₀, hz₀, hzc₀⟩ | ⟨hki, -⟩
      · rw [hji]
        exact (hclash k z₀ hz₀ hzc₀ hun).symm
      · rw [hji, hki]
  · -- what was on record is, and a new entry has been written
    intro m cmd hm
    rcases hentries m cmd hm with hold | ⟨hlt, hnew⟩
    · obtain ⟨hlt, hflight⟩ := h.entries m cmd hold
      refine ⟨Nat.lt_of_lt_of_le hlt hnext, fun hrun => ?_⟩
      obtain ⟨row, hrow, hrowrun, hre, hrest⟩ := hflight hrun
      refine ⟨row, hrow, hrowrun, hre, ?_⟩
      rcases hrest with ⟨hsent, hmsg, hunheld⟩ | ⟨j, y, hy, hlastsent⟩
      · refine .inl ⟨hsent, hmsg, fun j y hy hyc => ?_⟩
        rcases sessions_cases hy with hy | ⟨-, rfl⟩
        · exact hunheld j y hy hyc
        · rcases hholds _ row hrow hrowrun hyc with hxc | ⟨-, hunsent⟩
          · exact hunheld i x hx hxc
          · exact hunsent hsent
      · right
        by_cases hj : j = i
        · subst hj
          obtain rfl : x = y := Option.some.inj (hx.symm.trans hy)
          exact ⟨j, x', get_setSession hx, hlast _ row m hrow hrowrun hlastsent⟩
        · refine ⟨j, y, ?_, hlastsent⟩
          show (s.sessions.modify i fun _ => x').get j = some y
          rw [Table.get_modify, if_neg hj]
          exact hy
    · refine ⟨hlt, fun hrun => ?_⟩
      obtain ⟨row, hrow, hrowrun, hre, hlastsent⟩ := hnew hrun
      exact ⟨row, hrow, hrowrun, hre, .inr ⟨i, x', get_setSession hx, hlastsent⟩⟩
  · exact fun c row m hrow hmsg => Nat.lt_of_lt_of_le (h.msgs c row m hrow hmsg) hnext
  · intro j y hy
    rcases sessions_cases hy with hy | ⟨-, rfl⟩
    · have hold := h.sessions j y hy
      exact ⟨hold.sending, fun c row m hs hmsg => Nat.lt_of_lt_of_le (hold.sendingMsg c row m hs hmsg)
        hnext, hold.todo, fun r hr m hmsg => Nat.lt_of_lt_of_le (hold.todoMsg r hr m hmsg) hnext,
        fun c loaded new m hw hmsg => Nat.lt_of_lt_of_le (hold.writeMsg c loaded new m hw hmsg) hnext,
        hold.timeouts, hold.unsent, hold.failed⟩
    · exact hok
  · intro j y t last hy hyk c row hrow hrun ht
    rcases sessions_cases hy with hy | ⟨-, rfl⟩
    · exact haccount y c (h.executors j y t last hy hyk c row hrow hrun ht)
    · exact haccount _ c (hacc t last hyk c row hrow hrun ht
        (h.executors i x t last hx (hkind.symm.trans hyk) c row hrow hrun ht))
  · exact fun e he c row hrow hrun hre => hdrop c (h.coded e he c row hrow hrun hre)

/-! Sessions move. -/

section Moves

variable {c : CommandId} {loaded new row : CommandOutbox} {todo : List (CommandId × CommandOutbox)}
  {tail : List Write} {now : Time} {m : MessageId}

theorem next_eq (htodo : x.todo = (c, loaded) :: todo)
    (hrow : (x.view s.db).outbox.get c = some row) : (c, row) ∈ x.next s.db := by
  unfold Session.next
  rw [htodo]
  show Option.map _ ((x.view s.db).outbox.get c) = _
  rw [hrow]
  rfl

theorem view_of_row (x : Session) {row₀ : CommandOutbox} (hrow : s.db.outbox.get c = some row₀) :
    ∃ row, (x.view s.db).outbox.get c = some row ∧ SameCommand row₀ row := by
  refine ⟨mergeAll (rowWrites c x.writes) row₀, ?_, mergeAll_same _ _⟩
  show (applyWrites s.db x.writes).outbox.get c = _
  rw [applyWrites_outbox, hrow]
  rfl

/-- What a session sees of a row that is there. -/
theorem view_row {row₀ : CommandOutbox} (hrow : (x.view s.db).outbox.get c = some row)
    (hrow₀ : s.db.outbox.get c = some row₀) : SameCommand row₀ row := by
  obtain ⟨row', hrow', hsame⟩ := view_of_row x hrow₀
  obtain rfl : row' = row := Option.some.inj (hrow'.symm.trans hrow)
  exact hsame

/-- A row seen unsent that no other session holds is held already, or is unsent. -/
theorem touch (hun : Unheld s i c) (hrow : (x.view s.db).outbox.get c = some row)
    (hunsent : row.status ≠ .sent) {row₀ : CommandOutbox} (hrow₀ : s.db.outbox.get c = some row₀) :
    x.Holds c ∨ Unheld s i c ∧ row₀.status ≠ .sent := by
  by_cases hws : rowWrites c x.writes = []
  · rw [view_of_unwritten hws, hrow₀] at hrow
    obtain rfl := Option.some.inj hrow
    exact .inr ⟨hun, hunsent⟩
  · exact .inl (.inr hws)

theorem Delivery.viewMsg (h : Delivery s) (hx : s.sessions.get i = some x)
    (hrow : (x.view s.db).outbox.get c = some row) (hmsg : row.redisMsgId = some m) :
    m < s.nextMsg := by
  obtain ⟨row₀, hrow₀, -, rfl⟩ := applyWrites_get hrow
  rcases mergeAll_redisMsgId (rowWrites c x.writes) row₀ with hkept | ⟨p, hp, hwritten⟩
  · exact h.msgs c row₀ m hrow₀ (hkept.symm.trans hmsg)
  · exact (h.sessions i x hx).writeMsg c p.1 p.2 m (mem_rowWrites.mp hp)
      (hwritten.symm.trans hmsg)

/-- A session that only reads. -/
theorem Delivery.readSession (h : Delivery s) (hx : s.sessions.get i = some x)
    (htodo : x.todo = (c, loaded) :: todo) (sent : Bool)
    (hsent : sent = false → x.anySent = false ∧ ∀ row, s.db.outbox.get c = some row →
      row.type = .run → x.Holds c ∨ Dropped s c) :
    Delivery (s.setSession i { x with todo := todo, anySent := sent }) := by
  have hold := h.sessions i x hx
  have hmem : ∀ r ∈ todo, r ∈ x.todo := by
    intro r hr
    rw [htodo]
    exact List.mem_cons_of_mem _ hr
  refine h.moveSession s.streams s.nextMsg hx rfl (Nat.le_refl _) (fun _ _ _ _ hc => .inl hc)
    (fun _ _ _ _ _ hl => hl)
    ?_ ?_ ?_ fun _ _ hm => .inl hm
  · rintro c' ⟨row', -, -, -, hsessions⟩
    exact hsessions i x hx
  · refine ⟨hold.sending, hold.sendingMsg, fun hk r hr => hold.todo hk r (hmem r hr),
      fun r hr => hold.todoMsg r (hmem r hr), hold.writeMsg, hold.timeouts, hold.unsent, ?_⟩
    intro t last hk hs
    exact hold.failed t last hk (hsent hs).1
  · intro t last _ c' row' hrow' hrun' _ hacc
    rcases hacc with hin | hrest
    · rw [htodo, List.map_cons] at hin
      rcases List.mem_cons.mp hin with rfl | hin
      · -- the row that was read
        cases sent with
        | true => exact .inr (.inr (.inl rfl))
        | false =>
            rcases (hsent rfl).2 row' hrow' hrun' with hheld | hdropped
            · exact .inr (.inl hheld)
            · exact .inr (.inr (.inr hdropped))
      · exact .inl hin
    · rcases hrest with hheld | hany | hdropped
      · exact .inr (.inl hheld)
      · refine .inr (.inr (.inl ?_))
        cases sent with
        | true => rfl
        | false =>
            rw [(hsent rfl).1] at hany
            cases hany
      · exact .inr (.inr (.inr hdropped))

/-- What a session holds after it has written a row. -/
theorem holds_write (hwrites : x'.writes = x.writes ++ .row c loaded new :: tail)
    (htail : ∀ c loaded new, Write.row c loaded new ∉ tail) (hsending : x'.sending = none)
    {c' : CommandId} (h : x'.Holds c') : c' = c ∨ x.Holds c' := by
  rcases h with hs | hw
  · rw [hsending] at hs
    cases hs
  · rw [hwrites, rowWrites_write htail] at hw
    by_cases hc : c = c'
    · exact .inl hc.symm
    · rw [if_neg hc, List.append_nil] at hw
      exact .inr (.inr hw)

theorem rowWrites_other (hwrites : x'.writes = x.writes ++ .row c loaded new :: tail)
    (htail : ∀ c loaded new, Write.row c loaded new ∉ tail) {c' : CommandId} (hc : c' ≠ c) :
    rowWrites c' x'.writes = rowWrites c' x.writes := by
  rw [hwrites, rowWrites_write htail, if_neg fun h => hc h.symm, List.append_nil]

theorem rowWrites_same (hwrites : x'.writes = x.writes ++ .row c loaded new :: tail)
    (htail : ∀ c loaded new, Write.row c loaded new ∉ tail) :
    rowWrites c x'.writes = rowWrites c x.writes ++ [(loaded, new)] := by
  rw [hwrites, rowWrites_write htail, if_pos rfl]

/-- A session that writes a row it holds or nobody does. -/
theorem Delivery.writeSession (h : Delivery s) (streams : Table MessageId AgentCommand)
    (nextMsg : MessageId) (hx : s.sessions.get i = some x) (hkind : x'.kind = x.kind)
    (hnext : s.nextMsg ≤ nextMsg)
    (hwrites : x'.writes = x.writes ++ .row c loaded new :: tail)
    (htail : ∀ c loaded new, Write.row c loaded new ∉ tail) (hsending : x'.sending = none)
    (hmem : ∀ r ∈ x'.todo, r ∈ x.todo)
    (htodo : ∀ c', c' ≠ c → c' ∈ x.todo.map Prod.fst → c' ∈ x'.todo.map Prod.fst)
    (hunsending : ∀ c' row, x.sending = some (c', row) → c' = c)
    (hany : x.anySent = true → x'.anySent = true)
    (htouch : ∀ row, s.db.outbox.get c = some row → row.type = .run →
      x.Holds c ∨ Unheld s i c ∧ row.status ≠ .sent)
    (hlast : ∀ row m, s.db.outbox.get c = some row → row.type = .run → ¬ x.LastSent c m)
    (hdropped : Dropped s c → new.status = .failed)
    (hmsg : ∀ m, new.redisMsgId = some m → m < nextMsg)
    (htimeouts : ∀ te ∈ x'.timeouts, te ∈ x.timeouts ∧
        (∀ row, s.db.outbox.get c = some row → row.type = .run → ¬ x.LastFailed c) ∨
      x'.LastFailed c ∧ (te ∈ x.timeouts ∨ ∃ row, s.db.outbox.get c = some row ∧
        row.type = .run ∧ row.executionId = te.2))
    (hfailed : ∀ t last, x'.kind = .executor t last → x'.anySent = false → x'.LastFailed c)
    (hentries : ∀ m cmd, streams.get m = some cmd → s.streams.get m = some cmd ∨
      m < nextMsg ∧ (cmd.type = .run → ∃ row, s.db.outbox.get cmd.commandId = some row ∧
        row.type = .run ∧ row.executionId = cmd.executionId ∧ x'.LastSent cmd.commandId m)) :
    Delivery ({ s with streams := streams, nextMsg := nextMsg }.setSession i x') := by
  have hold := h.sessions i x hx
  have hholds : ∀ c' row, s.db.outbox.get c' = some row → row.type = .run → x'.Holds c' →
      x.Holds c' ∨ Unheld s i c' ∧ row.status ≠ .sent := by
    intro c' row hrow hrun hc'
    rcases holds_write hwrites htail hsending hc' with rfl | hheld
    · exact htouch row hrow hrun
    · exact .inl hheld
  refine h.moveSession streams nextMsg hx hkind hnext hholds ?_ ?_ ?_ ?_ hentries
  · intro c' row m hrow hrun hl
    by_cases hc : c' = c
    · rw [hc] at hrow hl
      exact absurd hl (hlast row m hrow hrun)
    · exact hl.congr (rowWrites_other hwrites htail hc)
  · intro c' hc'
    obtain ⟨-, -, -, -, hsessions⟩ := id hc'
    refine ⟨?_, fun p hp => ?_⟩
    · rw [hsending]
      exact fun hc => by cases hc
    · by_cases hc : c' = c
      · rw [hc, rowWrites_same hwrites htail] at hp
        rcases List.mem_append.mp hp with hp | hp
        · exact (hsessions i x hx).2 p (hc ▸ hp)
        · rw [List.mem_singleton.mp hp]
          exact hdropped (hc ▸ hc')
      · rw [rowWrites_other hwrites htail hc] at hp
        exact (hsessions i x hx).2 p hp
  · refine ⟨?_, ?_, fun hk r hr => hold.todo (hkind ▸ hk) r (hmem r hr),
      fun r hr m hm => Nat.lt_of_lt_of_le (hold.todoMsg r (hmem r hr) m hm) hnext, ?_, ?_, ?_, ?_⟩
    · intro c' row hs
      rw [hsending] at hs
      cases hs
    · intro c' row m hs
      rw [hsending] at hs
      cases hs
    · intro c' loaded' new' m hw hm
      rw [hwrites] at hw
      rcases List.mem_append.mp hw with hw | hw
      · exact Nat.lt_of_lt_of_le (hold.writeMsg c' loaded' new' m hw hm) hnext
      · rcases List.mem_cons.mp hw with hw | hw
        · cases hw
          exact hmsg m hm
        · exact absurd hw (htail _ _ _)
    · intro te hte
      rcases htimeouts te hte with ⟨hte, hnot⟩ | ⟨hlf, hte⟩
      · obtain ⟨c', row, hrow, hrun, hre, hlf⟩ := hold.timeouts te hte
        have hc : c' ≠ c := by
          rintro rfl
          exact hnot row hrow hrun hlf
        exact ⟨c', row, hrow, hrun, hre, hlf.congr (rowWrites_other hwrites htail hc)⟩
      · rcases hte with hte | ⟨row, hrow, hrun, hre⟩
        · obtain ⟨c', row, hrow, hrun, hre, hlf'⟩ := hold.timeouts te hte
          by_cases hc : c' = c
          · exact ⟨c', row, hrow, hrun, hre, hc ▸ hlf⟩
          · exact ⟨c', row, hrow, hrun, hre, hlf'.congr (rowWrites_other hwrites htail hc)⟩
        · exact ⟨c, row, hrow, hrun, hre, hlf⟩
    · intro hk c' row hrow hrun hc'
      rcases hholds c' row hrow hrun hc' with hheld | ⟨-, hunsent⟩
      · exact hold.unsent (hkind ▸ hk) c' row hrow hrun hheld
      · exact hunsent
    · intro t last hk hs c' hw
      by_cases hc : c' = c
      · rw [hc]
        exact hfailed t last hk hs
      · rw [rowWrites_other hwrites htail hc] at hw
        have hs' : x.anySent = false := by
          rw [← Bool.not_eq_true]
          intro ht
          rw [hany ht] at hs
          cases hs
        exact (hold.failed t last (hkind ▸ hk) hs' c' hw).congr (rowWrites_other hwrites htail hc)
  · intro t last _ c' row _ _ _ hacc
    by_cases hc : c' = c
    · refine .inr (.inl (.inr ?_))
      rw [hc, rowWrites_same hwrites htail]
      simp
    · rcases hacc with hin | hheld | hs | hdrop
      · exact .inl (htodo c' hc hin)
      · refine .inr (.inl (.inr ?_))
        rw [rowWrites_other hwrites htail hc]
        rcases hheld with hsend | hw
        · obtain ⟨⟨c'', row''⟩, hsome, rfl⟩ := Option.map_eq_some_iff.mp hsend
          exact absurd (hunsending _ _ hsome) hc
        · exact hw
      · exact .inr (.inr (.inl (hany hs)))
      · exact .inr (.inr (.inr hdrop))

/-- What a committed row is read as. -/
theorem run_of_view (hrow : (x.view s.db).outbox.get c = some row) {row₀ : CommandOutbox}
    (hrow₀ : s.db.outbox.get c = some row₀) (hrun : row₀.type = .run) : row.type = .run :=
  (view_row hrow hrow₀).type.trans hrun

/-- **A row is read again.** -/
theorem Delivery.refreshed (h : Delivery s) (hx : s.sessions.get i = some x)
    (hr : x.refresh s.db now = some x') (hok : Alone s (.refresh i now)) :
    Delivery (s.setSession i x') := by
  have hold := h.sessions i x hx
  cases Session.refreshed hr with
  | @sent c loaded todo row hsending htodo hrow hstatus =>
      exact h.readSession hx htodo true (by intro hc; cases hc)
  | @canceled c loaded todo row hsending htodo hrow hstatus =>
      refine h.readSession hx htodo x.anySent fun hs => ⟨hs, fun row₀ hrow₀ hrun => ?_⟩
      have hrow_run := run_of_view hrow hrow₀ hrun
      obtain ⟨-, hun⟩ := hok x hx (c, row) (next_eq htodo hrow) hrow_run (by simp [hstatus])
      by_cases hheld : x.Holds c
      · exact .inl hheld
      · -- nobody holds the canceled row
        have hws : rowWrites c x.writes = [] := by
          by_contra hne
          exact hheld (.inr hne)
        rw [view_of_unwritten hws, hrow₀] at hrow
        obtain rfl := Option.some.inj hrow
        refine .inr ⟨row₀, hrow₀, hrun, .inr hstatus, fun j y hy => ?_⟩
        have hfree : ¬ y.Holds c := by
          by_cases hj : j = i
          · subst hj
            obtain rfl : x = y := Option.some.inj (hx.symm.trans hy)
            exact hheld
          · exact hun (j, y) (Table.mem_rows_iff.mpr hy) hj
        refine ⟨fun hs => hfree (.inl hs), fun p hp => ?_⟩
        exact absurd (.inr (List.ne_nil_of_mem hp)) hfree
  | @notDispatchable c loaded todo row hsending htodo hrow hsent hcanceled hrun hterm =>
      obtain ⟨hfailed, hun⟩ := hok x hx (c, row) (next_eq htodo hrow) hrun hsent
      have hkind : ∀ t last, x.kind ≠ .executor t last := by
        intro t last hk
        unfold Session.seenTask at hterm
        rw [hk] at hterm
        cases hterm
      have hlf : ¬ x.LastFailed c := by
        intro hlf
        obtain ⟨row₀, -, -, rfl⟩ := applyWrites_get hrow
        exact hfailed (hlf.merged row₀)
      refine h.writeSession s.streams s.nextMsg hx rfl (Nat.le_refl _) rfl
        (fun _ _ _ => List.not_mem_nil) hsending
        ?_ ?_ ?_ id ?_ ?_ ?_ ?_ ?_ ?_ fun _ _ hm => .inl hm
      · intro r hr
        rw [htodo]
        exact List.mem_cons_of_mem _ hr
      · intro c' hc hin
        rw [htodo, List.map_cons] at hin
        exact (List.mem_cons.mp hin).resolve_left hc
      · intro c' row' hs
        rw [hsending] at hs
        cases hs
      · exact fun row₀ hrow₀ _ => touch hun hrow hsent hrow₀
      · exact fun row₀ m _ _ hl => hsent (hl.view hrow)
      · intro hdrop
        rcases (hdrop.view hx hrow).2 with hc | hc
        · exact absurd hc hfailed
        · exact absurd hc hcanceled
      · exact fun m hm => h.viewMsg hx hrow hm
      · intro te hte
        exact .inl ⟨timeouts_row x .. ▸ hte, fun _ _ _ => hlf⟩
      · exact fun t last hk _ => absurd hk (hkind t last)
  | @send c loaded todo row hsending htodo hrow hsent hcanceled _ =>
      have hread := fun hrun => hok x hx (c, row) (next_eq htodo hrow) hrun hsent
      have hholds : ∀ c' row₀, s.db.outbox.get c' = some row₀ → row₀.type = .run →
          Session.Holds { x with todo := todo, sending := some (c, row) } c' →
          x.Holds c' ∨ Unheld s i c' ∧ row₀.status ≠ .sent := by
        intro c' row₀ hrow₀ hrun hc'
        rcases hc' with hs | hw
        · obtain rfl : c = c' := Option.some.inj hs
          exact touch (hread (run_of_view hrow hrow₀ hrun)).2 hrow hsent hrow₀
        · exact .inl (.inr hw)
      refine h.moveSession s.streams s.nextMsg hx rfl (Nat.le_refl _)
        hholds (fun _ _ _ _ _ hl => hl) ?_ ?_ ?_ fun _ _ hm => .inl hm
      · intro c' hdrop
        obtain ⟨-, -, -, -, hsessions⟩ := id hdrop
        refine ⟨fun hs => ?_, (hsessions i x hx).2⟩
        obtain rfl : c = c' := Option.some.inj hs
        obtain ⟨hrun, hc | hc⟩ := hdrop.view hx hrow
        · exact (hread hrun).1 hc
        · exact hcanceled hc
      · refine ⟨?_, ?_, fun hk r hr => hold.todo hk r ?_, fun r hr => hold.todoMsg r ?_,
          hold.writeMsg, hold.timeouts, ?_, hold.failed⟩
        · intro c' row' hs hrun
          obtain ⟨rfl, rfl⟩ := Prod.mk.inj (Option.some.inj hs)
          refine ⟨hsent, (hread hrun).1, fun hlf => ?_, fun m hl => hsent (hl.view hrow)⟩
          obtain ⟨row₀, -, -, rfl⟩ := applyWrites_get hrow
          exact (hread hrun).1 (hlf.merged row₀)
        · intro c' row' m hs hm
          obtain ⟨rfl, rfl⟩ := Prod.mk.inj (Option.some.inj hs)
          exact h.viewMsg hx hrow hm
        · rw [htodo]
          exact List.mem_cons_of_mem _ hr
        · rw [htodo]
          exact List.mem_cons_of_mem _ hr
        · intro hk c' row₀ hrow₀ hrun hc'
          rcases hholds c' row₀ hrow₀ hrun hc' with hheld | ⟨-, hunsent⟩
          · exact hold.unsent hk c' row₀ hrow₀ hrun hheld
          · exact hunsent
      · intro t last _ c' row₀ _ _ _ hacc
        rcases hacc with hin | hheld | hrest
        · rw [htodo, List.map_cons] at hin
          rcases List.mem_cons.mp hin with rfl | hin
          · exact .inr (.inl (.inl rfl))
          · exact .inl hin
        · refine .inr (.inl (.inr ?_))
          rcases hheld with hs | hw
          · rw [hsending] at hs
            cases hs
          · exact hw
        · exact .inr (.inr hrest)

/-- **A row is given up.** -/
theorem Delivery.gaveUp (h : Delivery s) (hwf : SessionWf s.db x) (hx : s.sessions.get i = some x)
    (hr : x.giveUp now = some x') (hok : Alone s (.giveUp i now)) :
    Delivery (s.setSession i x') := by
  have hold := h.sessions i x hx
  obtain ⟨c, loaded, todo, hkind, hsending, htodo, -, rfl⟩ := Session.gaveUp hr
  have hloaded : (c, loaded) ∈ x.todo := by
    rw [htodo]
    exact List.mem_cons_self
  have hdispatchable := hold.todo hkind _ hloaded
  have hread : ∀ row₀, s.db.outbox.get c = some row₀ → row₀.type = .run →
      ∃ row, (x.view s.db).outbox.get c = some row ∧ row.status ≠ .sent ∧ Unheld s i c := by
    intro row₀ hrow₀ hrun
    obtain ⟨row, hrow, hsame⟩ := view_of_row x hrow₀
    exact ⟨row, hrow, hok x hx (c, row) (next_eq htodo hrow) (hsame.type.trans hrun)⟩
  have hlf : Session.LastFailed { x with
      todo := todo
      writes := x.writes ++ .row c loaded (loaded.giveUp now) ::
        Session.timeoutWrites .tick now loaded } c := by
    refine ⟨_, loaded, loaded.giveUp now, rowWrites_same rfl not_mem_timeoutWrites, ?_, rfl⟩
    intro hc
    simp only [hc] at hdispatchable
    cases hdispatchable
  refine h.writeSession s.streams s.nextMsg hx rfl (Nat.le_refl _) rfl
    not_mem_timeoutWrites hsending ?_ ?_ ?_ id ?_ ?_ (fun _ => rfl) ?_ ?_ ?_ fun _ _ hm => .inl hm
  · intro r hr
    rw [htodo]
    exact List.mem_cons_of_mem _ hr
  · intro c' hc hin
    rw [htodo, List.map_cons] at hin
    exact (List.mem_cons.mp hin).resolve_left hc
  · intro c' row' hs
    rw [hsending] at hs
    cases hs
  · intro row₀ hrow₀ hrun
    obtain ⟨row, hrow, hunsent, hun⟩ := hread row₀ hrow₀ hrun
    exact touch hun hrow hunsent hrow₀
  · intro row₀ m hrow₀ hrun hl
    obtain ⟨row, hrow, hunsent, -⟩ := hread row₀ hrow₀ hrun
    exact hunsent (hl.view hrow)
  · exact fun m hm => hold.todoMsg _ hloaded m hm
  · intro te hte
    refine .inr ⟨hlf, ?_⟩
    rcases timeouts_failed.mp hte with hte | ⟨-, hrun, rfl⟩
    · exact .inl hte
    · obtain ⟨row₀, hrow₀, hsame⟩ := hwf.todo _ hloaded
      exact .inr ⟨row₀, hrow₀, hsame.type.symm.trans hrun, hsame.executionId.symm⟩
  · intro t last hk
    rw [hkind] at hk
    cases hk

/-- **A row that was read is appended, or the append raises.** -/
theorem Delivery.appended (h : Delivery s) (hwf : SessionWf s.db x) (hserving : Serving x)
    (hx : s.sessions.get i = some x) {msg : Option MessageId} (hr : x.append now msg = some x')
    (hmsg : ∀ m, msg = some m → m = s.nextMsg) (streams : Table MessageId AgentCommand)
    (nextMsg : MessageId) (hnext : s.nextMsg ≤ nextMsg)
    (hnew : ∀ m, msg = some m → m < nextMsg)
    (hentries : ∀ m cmd, streams.get m = some cmd → s.streams.get m = some cmd ∨
      msg = some m ∧ ∃ c row, x.sending = some (c, row) ∧ cmd = buildCommand c row) :
    Delivery ({ s with streams := streams, nextMsg := nextMsg }.setSession i x') := by
  have hold := h.sessions i x hx
  -- what the session is about to append it holds, and nothing else
  have hrow : ∀ {c row}, x.sending = some (c, row) → ∀ {row₀}, s.db.outbox.get c = some row₀ →
      row₀.type = .run → row.type = .run ∧ row.executionId = row₀.executionId := by
    intro c row hsending row₀ hrow₀ hrun
    obtain ⟨row₁, hrow₁, hsame⟩ := hwf.sending c row hsending
    obtain rfl : row₀ = row₁ := Option.some.inj (hrow₀.symm.trans hrow₁)
    exact ⟨hsame.type.trans hrun, hsame.executionId⟩
  have hunsending : ∀ {c row}, x.sending = some (c, row) →
      ∀ c' row', x.sending = some (c', row') → c' = c := by
    intro c row hsending c' row' hs
    rw [hsending] at hs
    exact (congrArg Prod.fst (Option.some.inj hs)).symm
  have htouch : ∀ {c row}, x.sending = some (c, row) → x.Holds c := by
    intro c row hsending
    left
    rw [hsending]
    rfl
  have hdropped : ∀ {c row}, x.sending = some (c, row) → ¬ Dropped s c := by
    rintro c row hsending ⟨-, -, -, -, hsessions⟩
    refine (hsessions i x hx).1 ?_
    rw [hsending]
    rfl
  have hunfailed : ∀ {c row}, x.sending = some (c, row) → ∀ {row₀},
      s.db.outbox.get c = some row₀ → row₀.type = .run → ¬ x.LastFailed c := by
    intro c row hsending row₀ hrow₀ hrun
    exact (hold.sending c row hsending (hrow hsending hrow₀ hrun).1).2.2.1
  cases Session.appended hr with
  | @sent c row m hsending =>
      obtain rfl := hmsg m rfl
      have hlastsent : row.type = .run → Session.LastSent { x with
          sending := none
          anySent := true
          writes := x.writes ++ [.row c row (row.markSent s.nextMsg now)] } c s.nextMsg := by
        intro hrun
        refine ⟨_, row, row.markSent s.nextMsg now, rowWrites_same rfl fun _ _ _ =>
          List.not_mem_nil, (hold.sending c row hsending hrun).1, rfl, fun hm => ?_, rfl⟩
        exact Nat.lt_irrefl _ (hold.sendingMsg c row _ hsending hm)
      refine h.writeSession streams nextMsg hx rfl hnext rfl (fun _ _ _ => List.not_mem_nil) rfl
        (fun _ hr => hr)
        (fun _ _ hin => hin) (hunsending hsending) (fun _ => rfl)
        (fun _ _ _ => .inl (htouch hsending)) ?_ (fun hd => absurd hd (hdropped hsending)) ?_ ?_
        (fun _ _ _ hc => by cases hc) ?_
      · intro row₀ m hrow₀ hrun hl
        exact (hold.sending c row hsending (hrow hsending hrow₀ hrun).1).2.2.2 m hl
      · intro m hm
        obtain rfl : s.nextMsg = m := Option.some.inj hm
        exact hnew _ rfl
      · intro te hte
        exact .inl ⟨timeouts_row x .. ▸ hte, fun _ hrow₀ hrun => hunfailed hsending hrow₀ hrun⟩
      · intro m cmd hm
        rcases hentries m cmd hm with hm | ⟨hmm, c', row', hs, rfl⟩
        · exact .inl hm
        · obtain rfl : s.nextMsg = m := Option.some.inj hmm
          obtain ⟨rfl, rfl⟩ := Prod.mk.inj (Option.some.inj (hsending.symm.trans hs))
          refine .inr ⟨hnew _ rfl, fun hrun => ?_⟩
          obtain ⟨row₀, hrow₀, hsame⟩ := hwf.sending c row hsending
          exact ⟨row₀, hrow₀, hsame.type.symm.trans hrun, hsame.executionId.symm, hlastsent hrun⟩
  | @retry c row hsending hgive =>
      refine h.writeSession streams nextMsg hx rfl hnext rfl (fun _ _ _ => List.not_mem_nil) rfl
        (fun _ hr => hr)
        (fun _ _ hin => hin) (hunsending hsending) id (fun _ _ _ => .inl (htouch hsending)) ?_
        (fun hd => absurd hd (hdropped hsending)) ?_ ?_ ?_ ?_
      · intro row₀ m hrow₀ hrun hl
        exact (hold.sending c row hsending (hrow hsending hrow₀ hrun).1).2.2.2 m hl
      · exact fun m hm => Nat.lt_of_lt_of_le (hold.sendingMsg c row m hsending hm) hnext
      · intro te hte
        exact .inl ⟨timeouts_row x .. ▸ hte, fun _ hrow₀ hrun => hunfailed hsending hrow₀ hrun⟩
      · intro t last hk
        have hk : x.kind = .executor t last := hk
        unfold Session.giveUpOnFail at hgive
        rw [hk] at hgive
        cases hgive
      · intro m cmd hm
        rcases hentries m cmd hm with hm | ⟨hmm, -⟩
        · exact .inl hm
        · cases hmm
  | @failed c row hsending =>
      have hlf : row.type = .run → Session.LastFailed { x with
          sending := none
          writes := x.writes ++ .row c row (row.markUnavailable .failed now) ::
            Session.timeoutWrites x.kind now row } c := by
        intro hrun
        exact ⟨_, row, _, rowWrites_same rfl not_mem_timeoutWrites,
          (hold.sending c row hsending hrun).2.1, rfl⟩
      refine h.writeSession streams nextMsg hx rfl hnext rfl not_mem_timeoutWrites rfl (fun _ hr => hr)
        (fun _ _ hin => hin) (hunsending hsending) id (fun _ _ _ => .inl (htouch hsending)) ?_
        (fun _ => rfl) ?_ ?_ ?_ ?_
      · intro row₀ m hrow₀ hrun hl
        exact (hold.sending c row hsending (hrow hsending hrow₀ hrun).1).2.2.2 m hl
      · exact fun m hm => Nat.lt_of_lt_of_le (hold.sendingMsg c row m hsending hm) hnext
      · intro te hte
        rcases timeouts_failed.mp hte with hte | ⟨-, hrun, rfl⟩
        · exact .inl ⟨hte, fun _ hrow₀ hrun => hunfailed hsending hrow₀ hrun⟩
        · obtain ⟨row₀, hrow₀, hsame⟩ := hwf.sending c row hsending
          exact .inr ⟨hlf hrun, .inr ⟨row₀, hrow₀, hsame.type.symm.trans hrun,
            hsame.executionId.symm⟩⟩
      · intro t last hk _
        have hk : x.kind = .executor t last := hk
        have hserves := hserving.sending c row hsending
        rw [hk] at hserves
        exact hlf hserves.1
      · intro m cmd hm
        rcases hentries m cmd hm with hm | ⟨hmm, -⟩
        · exact .inl hm
        · cases hmm

end Moves

/-! The database moves. -/

/-- Rows keep their messages and statuses, unless they are canceled unsent; new
rows are pending, and a new run row is of a new task. -/
structure RowsKept (db db' : ServerDb) : Prop where
  source : ∀ c row', db'.outbox.get c = some row' →
    (∃ row, db.outbox.get c = some row ∧ SameCommand row row' ∧
      row'.redisMsgId = row.redisMsgId ∧
      (row'.status = row.status ∨ row.status.unresolved = true ∧ row'.status = .canceled)) ∨
    db.outbox.get c = none ∧ row'.status = .pending ∧ row'.redisMsgId = none ∧
      (row'.type = .run → db.execStatus row'.executionId = none ∧ db.taskStatus row'.taskId = none)
  keeps : ∀ c row, db.outbox.get c = some row → ∃ row', db'.outbox.get c = some row'

theorem RowsKept.target {db db' : ServerDb} (h : RowsKept db db') {c : CommandId}
    {row : CommandOutbox} (hrow : db.outbox.get c = some row) :
    ∃ row', db'.outbox.get c = some row' ∧ SameCommand row row' ∧
      row'.redisMsgId = row.redisMsgId ∧
      (row'.status = row.status ∨ row.status.unresolved = true ∧ row'.status = .canceled) := by
  obtain ⟨row', hrow'⟩ := h.keeps c row hrow
  rcases h.source c row' hrow' with ⟨row₀, hrow₀, hrest⟩ | ⟨hnone, -⟩
  · obtain rfl : row = row₀ := Option.some.inj (hrow.symm.trans hrow₀)
    exact ⟨row', hrow', hrest⟩
  · rw [hrow] at hnone
    cases hnone

/-- What is resolved stays. -/
theorem resolved_kept {st st' : OutboxStatus} (hst : st.unresolved = false)
    (h : st' = st ∨ st.unresolved = true ∧ st' = .canceled) : st' = st := by
  rcases h with h | ⟨hun, -⟩
  · exact h
  · rw [hst] at hun
    cases hun

theorem Dropped.of_rows {db' : ServerDb} {c : CommandId} (h : Dropped s c)
    (hrows : RowsKept s.db db') : Dropped { s with db := db' } c := by
  obtain ⟨row, hrow, hrun, hstatus, hsessions⟩ := h
  obtain ⟨row', hrow', hsame, -, hkept⟩ := hrows.target hrow
  have hsame_status : row'.status = row.status := by
    refine resolved_kept ?_ hkept
    rcases hstatus with hs | hs
    · rw [hs]
      rfl
    · rw [hs]
      rfl
  refine ⟨row', hrow', hsame.type.trans hrun, ?_, hsessions⟩
  rw [hsame_status]
  exact hstatus

theorem Delivery.of_rows (h : Delivery s) (hwf : Wf s)
    (htasks : ∀ e t st, s.db.execStatus e = some (t, st) → ∃ ts, s.db.taskStatus t = some ts)
    {db' : ServerDb} (hrows : RowsKept s.db db') (hone : OneRun db')
    (hcoded : ∀ e, db'.Coded e → s.db.Coded e) : Delivery { s with db := db' } := by
  -- a row that is held is not new
  have hheld : ∀ i x c row', s.sessions.get i = some x → db'.outbox.get c = some row' → x.Holds c →
      ∃ row, s.db.outbox.get c = some row ∧ SameCommand row row' ∧
        (row'.status = row.status ∨ row.status.unresolved = true ∧ row'.status = .canceled) := by
    intro i x c row' hx hrow' hc
    rcases hrows.source c row' hrow' with ⟨row, hrow, hsame, -, hkept⟩ | ⟨hnone, -⟩
    · exact ⟨row, hrow, hsame, hkept⟩
    · obtain ⟨row, hrow⟩ := hc.tracks (hwf.sessions i x hx)
      rw [hnone] at hrow
      cases hrow
  refine ⟨hone, ?_, ?_, ?_, ?_, ?_, ?_⟩
  · intro i j x y c row' hx hy hrow' hrun hxc hyc
    obtain ⟨row, hrow, hsame, -⟩ := hheld i x c row' hx hrow' hxc
    exact h.alone i j x y c row hx hy hrow (hsame.type.symm.trans hrun) hxc hyc
  · intro m cmd hm
    obtain ⟨hlt, hflight⟩ := h.entries m cmd hm
    refine ⟨hlt, fun hrun => ?_⟩
    obtain ⟨row, hrow, hrowrun, hre, hrest⟩ := hflight hrun
    obtain ⟨row', hrow', hsame, hmsg, hkept⟩ := hrows.target hrow
    refine ⟨row', hrow', hsame.type.trans hrowrun, hsame.executionId.trans hre, ?_⟩
    rcases hrest with ⟨hsent, hrm, hunheld⟩ | hlast
    · refine .inl ⟨?_, hmsg.trans hrm, hunheld⟩
      rw [resolved_kept (by rw [hsent]; rfl) hkept]
      exact hsent
    · exact .inr hlast
  · intro c row' m hrow' hm
    rcases hrows.source c row' hrow' with ⟨row, hrow, -, hmsg, -⟩ | ⟨-, -, hmsg, -⟩
    · exact h.msgs c row m hrow (hmsg.symm.trans hm)
    · rw [hmsg] at hm
      cases hm
  · intro i x hx
    have hold := h.sessions i x hx
    refine ⟨hold.sending, hold.sendingMsg, hold.todo, hold.todoMsg, hold.writeMsg, ?_, ?_,
      hold.failed⟩
    · intro te hte
      obtain ⟨c, row, hrow, hrun, hre, hlf⟩ := hold.timeouts te hte
      obtain ⟨row', hrow', hsame, -⟩ := hrows.target hrow
      exact ⟨c, row', hrow', hsame.type.trans hrun, hsame.executionId.trans hre, hlf⟩
    · intro hk c row' hrow' hrun hc
      obtain ⟨row, hrow, hsame, hkept⟩ := hheld i x c row' hx hrow' hc
      have hunsent := hold.unsent hk c row hrow (hsame.type.symm.trans hrun) hc
      rcases hkept with hkept | ⟨-, hcanceled⟩
      · rw [hkept]
        exact hunsent
      · rw [hcanceled]
        exact fun hc => by cases hc
  · intro i x t last hx hk c row' hrow' hrun ht
    rcases hrows.source c row' hrow' with ⟨row, hrow, hsame, -, -⟩ | ⟨-, -, -, hnew⟩
    · have hacc := h.executors i x t last hx hk c row hrow (hsame.type.symm.trans hrun)
        (hsame.taskId.symm.trans ht)
      exact hacc.imp_right fun hr => hr.imp_right fun hr => hr.imp_right fun hd => hd.of_rows hrows
    · -- the task of an executor is there
      obtain ⟨st, hst⟩ := (hwf.sessions i x hx).last t last hk
      obtain ⟨ts, hts⟩ := htasks last t st hst
      have hnone := (hnew hrun).2
      rw [ht, hts] at hnone
      cases hnone
  · intro e he c row' hrow' hrun hre
    have hcode := hcoded e he
    rcases hrows.source c row' hrow' with ⟨row, hrow, hsame, -, -⟩ | ⟨-, -, -, hnew⟩
    · exact (h.coded e hcode c row hrow (hsame.type.symm.trans hrun)
        (hsame.executionId.symm.trans hre)).of_rows hrows
    · obtain ⟨x, hx, -⟩ := hcode
      have hnone := (hnew hrun).1
      unfold ServerDb.execStatus at hnone
      rw [hre, hx] at hnone
      cases hnone

theorem get_addSession {x₀ : Session} (hx : s.sessions.get i = some x) :
    (s.addSession x₀).sessions.get i = some x := by
  rw [State.addSession]
  rcases hget : s.sessions.get s.nextSession with - | y
  · refine (Table.get_insert _ _ hget i).trans ?_
    rw [if_neg]
    · exact hx
    · rintro rfl
      rw [hget] at hx
      cases hx
  · have hmem : s.nextSession ∈ s.sessions.rows.map Prod.fst := Table.mem_keys_iff.mpr ⟨y, hget⟩
    show (s.sessions.insert s.nextSession x₀).get i = some x
    rw [Table.insert, dif_pos hmem]
    exact hx

/-- A session starts. -/
theorem Delivery.addSession (h : Delivery s) {x₀ : Session}
    (hheld : ∀ c row, s.db.outbox.get c = some row → row.type = .run → x₀.Holds c →
      (∀ j y, s.sessions.get j = some y → ¬ y.Holds c) ∧
        ∀ m cmd, s.streams.get m = some cmd → cmd.type = .run → cmd.commandId ≠ c)
    (hdropped : ∀ c, Dropped s c → x₀.sending.map Prod.fst ≠ some c ∧
      ∀ p ∈ rowWrites c x₀.writes, p.2.status = .failed)
    (hok : SessionOk s.db s.nextMsg x₀)
    (hacc : ∀ t last, x₀.kind = .executor t last → ∀ c row, s.db.outbox.get c = some row →
      row.type = .run → row.taskId = t → c ∈ x₀.todo.map Prod.fst) :
    Delivery (s.addSession x₀) := by
  have hdrop : ∀ c, Dropped s c → Dropped (s.addSession x₀) c := by
    intro c hc
    have hnew := hdropped c hc
    obtain ⟨row, hrow, hrun, hstatus, hsessions⟩ := hc
    refine ⟨row, hrow, hrun, hstatus, fun j y hy => ?_⟩
    rcases addSession_cases hy with hy | ⟨-, rfl⟩
    · exact hsessions j y hy
    · exact hnew
  refine ⟨h.oneRun, ?_, ?_, h.msgs, ?_, ?_, ?_⟩
  · intro i j x y c row hx hy hrow hrun hxc hyc
    rcases addSession_cases hx with hxold | ⟨hi, rfl⟩
    · rcases addSession_cases hy with hyold | ⟨-, rfl⟩
      · exact h.alone i j x y c row hxold hyold hrow hrun hxc hyc
      · exact absurd hxc ((hheld c row hrow hrun hyc).1 i x hxold)
    · rcases addSession_cases hy with hyold | ⟨hj, -⟩
      · exact absurd hyc ((hheld c row hrow hrun hxc).1 j y hyold)
      · rw [hi, hj]
  · intro m cmd hm
    obtain ⟨hlt, hflight⟩ := h.entries m cmd hm
    refine ⟨hlt, fun hrun => ?_⟩
    obtain ⟨row, hrow, hrowrun, hre, hrest⟩ := hflight hrun
    refine ⟨row, hrow, hrowrun, hre, ?_⟩
    rcases hrest with ⟨hsent, hmsg, hunheld⟩ | ⟨j, y, hy, hlast⟩
    · refine .inl ⟨hsent, hmsg, fun j y hy hyc => ?_⟩
      rcases addSession_cases hy with hy | ⟨-, rfl⟩
      · exact hunheld j y hy hyc
      · exact (hheld _ row hrow hrowrun hyc).2 m cmd hm hrun rfl
    · exact .inr ⟨j, y, get_addSession hy, hlast⟩
  · intro j y hy
    rcases addSession_cases hy with hy | ⟨-, rfl⟩
    · exact h.sessions j y hy
    · exact hok
  · intro j y t last hy hk c row hrow hrun ht
    rcases addSession_cases hy with hy | ⟨-, rfl⟩
    · exact (h.executors j y t last hy hk c row hrow hrun ht).imp_right
        fun hr => hr.imp_right fun hr => hr.imp_right (hdrop c)
    · exact .inl (hacc t last hk c row hrow hrun ht)
  · exact fun e he c row hrow hrun hre => hdrop c (h.coded e he c row hrow hrun hre)

theorem get_erase_ne {j : SessionId} {y : Session} (hj : j ≠ i) (hy : s.sessions.get j = some y) :
    (s.sessions.erase i).get j = some y := by
  rw [Table.get_erase, if_neg hj]
  exact hy

theorem eraseSession_ne {j : SessionId} {y : Session} (h : (s.sessions.erase i).get j = some y) :
    j ≠ i ∧ s.sessions.get j = some y := by
  rw [Table.get_erase] at h
  by_cases hj : j = i
  · rw [if_pos hj] at h
    cases h
  · rw [if_neg hj] at h
    exact ⟨hj, h⟩

/-- A session commits. -/
theorem Delivery.committed (h : Delivery s) (hx : s.sessions.get i = some x) {db' : ServerDb}
    (houtbox : db'.outbox = (x.view s.db).outbox)
    (hcoded : ∀ e, db'.Coded e → s.db.Coded e ∨ ∀ c row, s.db.outbox.get c = some row →
      row.type = .run → row.executionId = e → x.LastFailed c ∨ Dropped s c) :
    Delivery { s with db := db', sessions := s.sessions.erase i } := by
  have hget : ∀ c row', db'.outbox.get c = some row' → ∃ row, s.db.outbox.get c = some row ∧
      SameCommand row row' ∧ row' = mergeAll (rowWrites c x.writes) row := by
    intro c row' hrow'
    rw [houtbox] at hrow'
    exact applyWrites_get hrow'
  have hview : ∀ c row, s.db.outbox.get c = some row →
      db'.outbox.get c = some (mergeAll (rowWrites c x.writes) row) := by
    intro c row hrow
    rw [houtbox]
    show (applyWrites s.db x.writes).outbox.get c = _
    rw [applyWrites_outbox, hrow]
    rfl
  -- a row another session holds stays as it is
  have hfree : ∀ j y c row, j ≠ i → s.sessions.get j = some y → s.db.outbox.get c = some row →
      row.type = .run → y.Holds c → rowWrites c x.writes = [] := by
    intro j y c row hj hy hrow hrun hyc
    by_contra hne
    exact hj (h.alone j i y x c row hy hx hrow hrun hyc (.inr hne))
  have hdrop : ∀ c, Dropped s c →
      Dropped { s with db := db', sessions := s.sessions.erase i } c := by
    intro c hc
    obtain ⟨row, hrow, -, -, hsessions⟩ := id hc
    have hrow' := hview c row hrow
    refine ⟨_, hrow', ?_, ?_, fun j y hy => hsessions j y (eraseSession_cases hy)⟩
    · exact (hc.view hx (houtbox ▸ hrow')).1
    · exact (hc.view hx (houtbox ▸ hrow')).2
  have hfailed : ∀ c row, s.db.outbox.get c = some row → row.type = .run → x.LastFailed c →
      Dropped { s with db := db', sessions := s.sessions.erase i } c := by
    intro c row hrow hrun hlf
    refine ⟨_, hview c row hrow, (mergeAll_same _ _).type.trans hrun, .inl (hlf.merged row), ?_⟩
    intro j y hy
    obtain ⟨hj, hy⟩ := eraseSession_ne hy
    have hnot : ¬ y.Holds c := fun hyc => hj (h.alone j i y x c row hy hx hrow hrun hyc hlf.holds)
    refine ⟨fun hs => hnot (.inl hs), fun p hp => ?_⟩
    exact absurd (.inr (List.ne_nil_of_mem hp)) hnot
  refine ⟨?_, ?_, ?_, ?_, ?_, ?_, ?_⟩
  · intro c c' row row' hrow hrow' hrun hrun' he
    obtain ⟨row₀, hrow₀, hsame, -⟩ := hget c row hrow
    obtain ⟨row₁, hrow₁, hsame₁, -⟩ := hget c' row' hrow'
    refine h.oneRun c c' row₀ row₁ hrow₀ hrow₁ (hsame.type.symm.trans hrun)
      (hsame₁.type.symm.trans hrun') ?_
    rw [← hsame.executionId, he, hsame₁.executionId]
  · intro j k y z c row hy hz hrow hrun hyc hzc
    obtain ⟨row₀, hrow₀, hsame, -⟩ := hget c row hrow
    exact h.alone j k y z c row₀ (eraseSession_cases hy) (eraseSession_cases hz) hrow₀
      (hsame.type.symm.trans hrun) hyc hzc
  · intro m cmd hm
    obtain ⟨hlt, hflight⟩ := h.entries m cmd hm
    refine ⟨hlt, fun hrun => ?_⟩
    obtain ⟨row, hrow, hrowrun, hre, hrest⟩ := hflight hrun
    have hsame := mergeAll_same (rowWrites cmd.commandId x.writes) row
    refine ⟨_, hview _ row hrow, hsame.type.trans hrowrun, hsame.executionId.trans hre, ?_⟩
    rcases hrest with ⟨hsent, hmsg, hunheld⟩ | ⟨j, y, hy, hlast⟩
    · have hws : rowWrites cmd.commandId x.writes = [] := by
        by_contra hne
        exact hunheld i x hx (.inr hne)
      rw [hws]
      exact .inl ⟨hsent, hmsg, fun j y hy => hunheld j y (eraseSession_cases hy)⟩
    · by_cases hj : j = i
      · subst hj
        obtain rfl : x = y := Option.some.inj (hx.symm.trans hy)
        obtain ⟨hsent, hmsg⟩ := hlast.merged row
        refine .inl ⟨hsent, hmsg, fun k z hz hzc => ?_⟩
        obtain ⟨hk, hz⟩ := eraseSession_ne hz
        exact hk (h.alone k j z x _ row hz hx hrow hrowrun hzc hlast.holds)
      · exact .inr ⟨j, y, get_erase_ne hj hy, hlast⟩
  · intro c row m hrow hm
    exact h.viewMsg hx (houtbox ▸ hrow) hm
  · intro j y hy
    obtain ⟨hj, hy⟩ := eraseSession_ne hy
    have hold := h.sessions j y hy
    refine ⟨hold.sending, hold.sendingMsg, hold.todo, hold.todoMsg, hold.writeMsg, ?_, ?_,
      hold.failed⟩
    · intro te hte
      obtain ⟨c, row, hrow, hrun, hre, hlf⟩ := hold.timeouts te hte
      have hsame := mergeAll_same (rowWrites c x.writes) row
      exact ⟨c, _, hview c row hrow, hsame.type.trans hrun, hsame.executionId.trans hre, hlf⟩
    · intro hk c row hrow hrun hc
      obtain ⟨row₀, hrow₀, hsame, rfl⟩ := hget c row hrow
      have hrun₀ : row₀.type = .run := hsame.type.symm.trans hrun
      rw [hfree j y c row₀ hj hy hrow₀ hrun₀ hc]
      exact hold.unsent hk c row₀ hrow₀ hrun₀ hc
  · intro j y t last hy hk c row hrow hrun ht
    obtain ⟨row₀, hrow₀, hsame, -⟩ := hget c row hrow
    exact (h.executors j y t last (eraseSession_cases hy) hk c row₀ hrow₀
      (hsame.type.symm.trans hrun) (hsame.taskId.symm.trans ht)).imp_right
      fun hr => hr.imp_right fun hr => hr.imp_right (hdrop c)
  · intro e he c row hrow hrun hre
    obtain ⟨row₀, hrow₀, hsame, -⟩ := hget c row hrow
    have hrun₀ : row₀.type = .run := hsame.type.symm.trans hrun
    have hre₀ : row₀.executionId = e := hsame.executionId.symm.trans hre
    rcases hcoded e he with hold | hnew
    · exact hdrop c (h.coded e hold c row₀ hrow₀ hrun₀ hre₀)
    · rcases hnew c row₀ hrow₀ hrun₀ hre₀ with hlf | hdropped
      · exact hfailed c row₀ hrow₀ hrun₀ hlf
      · exact hdrop c hdropped

/-- A session that sent no run row ends without a commit. -/
theorem Delivery.aborted (h : Delivery s) (hwf : Wf s) (hok : Alone s (.abort i)) :
    Delivery { s with sessions := s.sessions.erase i } := by
  have hdrop : ∀ c, Dropped s c → Dropped { s with sessions := s.sessions.erase i } c := by
    rintro c ⟨row, hrow, hrun, hstatus, hsessions⟩
    exact ⟨row, hrow, hrun, hstatus, fun j y hy => hsessions j y (eraseSession_cases hy)⟩
  refine ⟨h.oneRun, ?_, ?_, h.msgs, fun j y hy => h.sessions j y (eraseSession_cases hy), ?_, ?_⟩
  · exact fun j k y z c row hy hz => h.alone j k y z c row (eraseSession_cases hy)
      (eraseSession_cases hz)
  · intro m cmd hm
    obtain ⟨hlt, hflight⟩ := h.entries m cmd hm
    refine ⟨hlt, fun hrun => ?_⟩
    obtain ⟨row, hrow, hrowrun, hre, hrest⟩ := hflight hrun
    refine ⟨row, hrow, hrowrun, hre, ?_⟩
    rcases hrest with ⟨hsent, hmsg, hunheld⟩ | ⟨j, y, hy, hlast⟩
    · exact .inl ⟨hsent, hmsg, fun j y hy => hunheld j y (eraseSession_cases hy)⟩
    · by_cases hj : j = i
      · -- what it sent would be lost
        subst hj
        obtain ⟨ps, loaded, new, hws, -, hnew, -⟩ := hlast
        have hw : Write.row cmd.commandId loaded new ∈ y.writes := by
          refine mem_rowWrites (p := (loaded, new)).mp ?_
          rw [hws]
          exact List.mem_append_right _ List.mem_cons_self
        obtain ⟨⟨row₀, hrow₀, hsame⟩, -⟩ := (hwf.sessions j y hy).writes _ _ _ hw
        obtain rfl : row = row₀ := Option.some.inj (hrow.symm.trans hrow₀)
        exact absurd hnew (hok y hy _ hw (hsame.type.trans hrowrun))
      · exact .inr ⟨j, y, get_erase_ne hj hy, hlast⟩
  · intro j y t last hy hk c row hrow hrun ht
    exact (h.executors j y t last (eraseSession_cases hy) hk c row hrow hrun ht).imp_right
      fun hr => hr.imp_right fun hr => hr.imp_right (hdrop c)
  · exact fun e he c row hrow hrun hre => hdrop c (h.coded e he c row hrow hrun hre)

/-! What each change of the database keeps. -/

section Databases

variable {db db' : ServerDb} {now : Time} {t : TaskId} {e : ExecutionId}

theorem OneRun.of_adds (h : OneRun db) (hadds : Adds Plain db db') : OneRun db' := by
  intro c c' row row' hrow hrow' hrun hrun' he
  rcases hadds.adds c row hrow with hold | ⟨-, hnew⟩
  · rcases hadds.adds c' row' hrow' with hold' | ⟨-, hnew'⟩
    · exact h c c' row row' hold hold' hrun hrun' he
    · exact absurd hrun' hnew'.1
  · exact absurd hrun hnew.1

theorem RowsKept.of_adds {P : CommandOutbox → Prop} (hadds : Adds P db db')
    (hfresh : ∀ c row, db.outbox.get c = some row → c < db.nextCommand)
    (hP : ∀ row, P row → row.status = .pending ∧ row.redisMsgId = none ∧
      (row.type = .run → db.execStatus row.executionId = none ∧ db.taskStatus row.taskId = none)) :
    RowsKept db db' where
  source := by
    intro c row' hrow'
    rcases hadds.adds c row' hrow' with hold | ⟨hc, hnew⟩
    · exact .inl ⟨row', hold, .refl row', rfl, .inl rfl⟩
    · refine .inr ⟨?_, hP row' hnew⟩
      rcases hget : db.outbox.get c with - | row
      · rfl
      · exact absurd (hfresh c row hget) (Nat.not_lt.mpr hc)
  keeps := fun c row hrow => ⟨row, hadds.keeps c row hrow⟩

theorem RowsKept.of_plain (hadds : Adds Plain db db')
    (hfresh : ∀ c row, db.outbox.get c = some row → c < db.nextCommand) : RowsKept db db' :=
  .of_adds hadds hfresh fun _ hrow => ⟨hrow.2.1, hrow.2.2, fun hrun => absurd hrun hrow.1⟩

/-- A cancel keeps rows, or cancels them unsent. -/
theorem RowsKept.requestCancel (now : Time) (t : TaskId)
    (hfresh : ∀ c row, db.outbox.get c = some row → c < db.nextCommand) :
    RowsKept db (db.requestCancel now t) := by
  obtain ⟨hadds, -, -⟩ := requestCancel_spec db now t
  have hget : ∀ c, (db.cancelUnsentOutbox now t).outbox.get c =
      (db.outbox.get c).map fun row =>
        if row.taskId = t ∧ row.status.unresolved = true then
          { row with status := .canceled, updatedAt := now } else row :=
    fun c => Table.get_updateAll _ _ c
  constructor
  · intro c row' hrow'
    rcases hadds.adds c row' hrow' with hold | ⟨hc, hnew⟩
    · left
      rw [hget] at hold
      obtain ⟨row, hrow, rfl⟩ := Option.map_eq_some_iff.mp hold
      refine ⟨row, hrow, ?_⟩
      by_cases hun : row.taskId = t ∧ row.status.unresolved = true
      · rw [if_pos hun]
        exact ⟨⟨rfl, rfl, rfl, rfl, rfl⟩, rfl, .inr ⟨hun.2, rfl⟩⟩
      · rw [if_neg hun]
        exact ⟨.refl row, rfl, .inl rfl⟩
    · right
      refine ⟨?_, hnew.2.1, hnew.2.2, fun hrun => absurd hrun hnew.1⟩
      rcases hrow : db.outbox.get c with - | row
      · rfl
      · exact absurd (hfresh c row hrow) (Nat.not_lt.mpr hc)
  · intro c row hrow
    have hold := hget c
    rw [hrow] at hold
    exact ⟨_, hadds.keeps c _ hold⟩

theorem OneRun.requestCancel (h : OneRun db) (now : Time) (t : TaskId) :
    OneRun (db.requestCancel now t) := by
  obtain ⟨hadds, -, -⟩ := requestCancel_spec db now t
  have hcanceled : OneRun (db.cancelUnsentOutbox now t) := by
    intro c c' row row' hrow hrow' hrun hrun' he
    have hsame : ∀ c row, (db.cancelUnsentOutbox now t).outbox.get c = some row →
        ∃ row₀, db.outbox.get c = some row₀ ∧ SameCommand row₀ row := by
      intro c row hrow
      obtain ⟨row₀, hrow₀, rfl⟩ := Option.map_eq_some_iff.mp
        ((Table.get_updateAll _ _ c).symm.trans hrow)
      refine ⟨row₀, hrow₀, ?_⟩
      split
      · exact ⟨rfl, rfl, rfl, rfl, rfl⟩
      · exact .refl row₀
    obtain ⟨row₀, hrow₀, hs⟩ := hsame c row hrow
    obtain ⟨row₁, hrow₁, hs'⟩ := hsame c' row' hrow'
    refine h c c' row₀ row₁ hrow₀ hrow₁ (hs.type.symm.trans hrun) (hs'.type.symm.trans hrun') ?_
    rw [← hs.executionId, he, hs'.executionId]
  exact hcanceled.of_adds hadds

/-- A new task has one run row for each of its executions. -/
theorem createExecutions_oneRun (db : ServerDb) (now : Time) (t : TaskId) (taskType : RunnerType)
    (payload : CommandPayload) {nodes : List (ExecutionId × AgentId)} (h : OneRun db)
    (howned : ∀ c row, db.outbox.get c = some row → Owned db row)
    (hfresh : ∀ c row, db.outbox.get c = some row → c < db.nextCommand)
    (hnew : ∀ n ∈ nodes, db.executions.get n.1 = none) (hnodup : (nodes.map Prod.fst).Nodup) :
    OneRun (nodes.foldl (fun db node => db.createExecution now t taskType payload node) db) := by
  induction nodes generalizing db with
  | nil => exact h
  | cons n nodes ih =>
      have hget : db.executions.get n.1 = none := hnew n List.mem_cons_self
      have hadds : Adds (NewRun t [n.1]) db (db.createExecution now t taskType payload n) :=
        createExecution_adds n
      have hexec := createExecution_execStatus now t taskType payload hget
      -- an older run row is of an execution that was there
      have hother : ∀ c row, db.outbox.get c = some row → row.type = .run →
          row.executionId ≠ n.1 := by
        intro c row hrow hrun he
        obtain ⟨st, hst⟩ := howned c row hrow hrun
        unfold ServerDb.execStatus at hst
        rw [he, hget] at hst
        cases hst
      refine ih (db.createExecution now t taskType payload n) ?_ ?_ (hadds.fresh hfresh)
        (createExecution_new now t taskType payload hnew hnodup) (List.nodup_cons.mp hnodup).2
      · intro c c' row row' hrow hrow' hrun hrun' he
        rcases hadds.adds c row hrow with hold | ⟨hc, -, -, hre, -⟩
        · rcases hadds.adds c' row' hrow' with hold' | ⟨-, -, -, hre', -⟩
          · exact h c c' row row' hold hold' hrun hrun' he
          · refine absurd (he.trans ?_) (hother c row hold hrun)
            exact List.mem_singleton.mp hre'
        · rcases hadds.adds c' row' hrow' with hold' | ⟨hc', -⟩
          · refine absurd (he.symm.trans ?_) (hother c' row' hold' hrun')
            exact List.mem_singleton.mp hre
          · have hlt := hadds.fresh hfresh c row hrow
            have hlt' := hadds.fresh hfresh c' row' hrow'
            exact Nat.le_antisymm (Nat.le_trans (Nat.le_of_lt_succ hlt) hc')
              (Nat.le_trans (Nat.le_of_lt_succ hlt') hc)
      · intro c row hrow hrun
        rcases hadds.adds c row hrow with hold | ⟨-, -, ht, hre, -⟩
        · obtain ⟨st, hst⟩ := howned c row hold hrun
          refine ⟨st, (hexec _).trans ?_⟩
          rw [if_neg (hother c row hold hrun)]
          exact hst
        · refine ⟨.pending, (hexec _).trans ?_⟩
          rw [if_pos (List.mem_singleton.mp hre), ht]

theorem createTask_oneRun (h : OneRun db)
    (howned : ∀ c row, db.outbox.get c = some row → Owned db row)
    (hfresh : ∀ c row, db.outbox.get c = some row → c < db.nextCommand) (now : Time) (t : TaskId)
    (task : Task) (taskType : RunnerType) (payload : CommandPayload)
    {nodes : List (ExecutionId × AgentId)}
    (hnew : ∀ n ∈ nodes, db.executions.get n.1 = none) (hnodup : (nodes.map Prod.fst).Nodup) :
    OneRun (db.createTask now t task taskType payload nodes) := by
  unfold ServerDb.createTask
  simp only
  split
  · exact h
  · exact createExecutions_oneRun _ now t taskType payload (by exact h) (by exact howned)
      (by exact hfresh) (by exact hnew) hnodup

theorem createTask_coded {task : Task} {taskType : RunnerType} {payload : CommandPayload}
    {nodes : List (ExecutionId × AgentId)}
    (h : (db.createTask now t task taskType payload nodes).Coded e) : db.Coded e := by
  have hone : ∀ (db : ServerDb) (n : ExecutionId × AgentId),
      (db.createExecution now t taskType payload n).Coded e → db.Coded e := by
    rintro db n ⟨x, hx, hcode⟩
    change (db.executions.insert n.1 _).get e = some x at hx
    rcases hget : db.executions.get n.1 with - | y
    · rw [Table.get_insert _ _ hget] at hx
      split at hx
      · obtain rfl := Option.some.inj hx
        rcases hcode with hc | hc
        · cases hc
        · cases hc
      · exact ⟨x, hx, hcode⟩
    · have hmem : n.1 ∈ db.executions.rows.map Prod.fst := Table.mem_keys_iff.mpr ⟨y, hget⟩
      rw [Table.insert, dif_pos hmem] at hx
      exact ⟨x, hx, hcode⟩
  have hall : ∀ (db : ServerDb) (nodes : List (ExecutionId × AgentId)),
      (nodes.foldl (fun db node => db.createExecution now t taskType payload node) db).Coded e →
      db.Coded e := by
    intro db nodes
    induction nodes generalizing db with
    | nil => exact id
    | cons n nodes ih => exact fun h => hone db n (ih _ h)
  unfold ServerDb.createTask at h
  simp only at h
  split at h
  · exact h.of_executions rfl
  · exact (hall _ _ h).of_executions rfl

/-- Writes code the executions they time out. -/
theorem applyWrites_coded {ws : List Write} (h : (applyWrites db ws).Coded e) :
    db.Coded e ∨ e ∈ (timeoutsOf ws).map Prod.snd := by
  induction ws generalizing db with
  | nil => exact .inl h
  | cons w ws ih =>
      rw [applyWrites_cons] at h
      rcases ih h with hfirst | hrest
      · cases w with
        | row c loaded new => exact .inl (hfirst.of_executions rfl)
        | timeout now t e' =>
            change (db.failExecutionDispatchTimeout now t e').Coded e at hfirst
            by_cases he : e = e'
            · exact .inr (by simp [timeoutsOf_timeout, he])
            · left
              obtain ⟨x, hx, hcode⟩ := hfirst
              unfold ServerDb.failExecutionDispatchTimeout at hx
              rw [ServerDb.updateTask_executions, ServerDb.updateExecution_get, if_neg he] at hx
              exact ⟨x, hx, hcode⟩
      · right
        cases w with
        | row c loaded new => exact hrest
        | timeout now t e' => exact List.mem_cons_of_mem _ hrest

/-- An executor codes the executions of its task. -/
theorem failDispatchUnavailable_coded {held : HeldRows}
    (h : (db.failDispatchUnavailable held now t).Coded e) :
    db.Coded e ∨ ∃ st, db.execStatus e = some (t, st) := by
  obtain ⟨x', hx', hcode⟩ := h
  unfold ServerDb.failDispatchUnavailable at hx'
  simp only [Table.get_updateAll] at hx'
  obtain ⟨x, hx, hxx⟩ := Option.map_eq_some_iff.mp hx'
  have hx : db.executions.get e = some x := hx
  by_cases hfail : x.taskId = t ∧ ((held.status e).getD x.status).active = true
  · right
    refine ⟨x.status, ?_⟩
    unfold ServerDb.execStatus
    rw [hx, ← hfail.1]
    rfl
  · left
    rw [if_neg hfail] at hxx
    subst hxx
    exact ⟨x, hx, hcode⟩

end Databases

/-! ### Runs -/

/-- What holds of every state reached by lone deliveries. -/
structure DeliveryInv (s : State) : Prop where
  wf : Wf s
  tasks : ∀ e t st, s.db.execStatus e = some (t, st) → ∃ ts, s.db.taskStatus t = some ts
  serving : ∀ i x, s.sessions.get i = some x → Serving x
  delivery : Delivery s

theorem DeliveryInv.start : DeliveryInv State.start where
  wf := .start
  tasks := by
    intro e t st he
    cases he
  serving := by
    intro i x hx
    cases hx
  delivery := by
    refine ⟨?_, ?_, ?_, ?_, ?_, ?_, ?_⟩
    · intro c c' row row' hrow
      cases hrow
    · intro i j x y c row hx
      cases hx
    · intro m cmd hm
      cases hm
    · intro c row m hrow
      cases hrow
    · intro i x hx
      cases hx
    · intro i x t last hx
      cases hx
    · rintro e ⟨x, hx, -⟩
      cases hx

/-- A session that has loaded rows and done nothing yet. -/
theorem SessionOk.fresh {db : ServerDb} {nextMsg : MessageId} {kind : SessionKind}
    {todo : List (CommandId × CommandOutbox)} (hkind : kind ≠ .tick)
    (htodo : ∀ r ∈ todo, r.2.redisMsgId = none) :
    SessionOk db nextMsg { kind := kind, todo := todo } := by
  refine ⟨?_, ?_, fun hk => absurd hk hkind, ?_, ?_, ?_, ?_, ?_⟩
  · intro c row hs
    cases hs
  · intro c row m hs
    cases hs
  · intro r hr m hm
    rw [htodo r hr] at hm
    cases hm
  · intro c loaded new m hw
    cases hw
  · intro te hte
    cases hte
  · intro _ c row _ _ hc
    rcases hc with hs | hw
    · cases hs
    · exact absurd rfl hw
  · intro t last _ _ c hw
    exact absurd rfl hw

/-- A new session that has done nothing yet. -/
theorem Delivery.addFresh (h : Delivery s) {kind : SessionKind}
    {todo : List (CommandId × CommandOutbox)} (hkind : kind ≠ .tick)
    (htodo : ∀ r ∈ todo, r.2.redisMsgId = none)
    (hacc : ∀ t last, kind = .executor t last → ∀ c row, s.db.outbox.get c = some row →
      row.type = .run → row.taskId = t → c ∈ todo.map Prod.fst) :
    Delivery (s.addSession { kind := kind, todo := todo }) := by
  refine h.addSession ?_ ?_ (.fresh hkind htodo) hacc
  · intro c row _ _ hc
    rcases hc with hs | hw
    · cases hs
    · exact absurd rfl hw
  · intro c _
    refine ⟨(by intro hs; cases hs), fun p hp => ?_⟩
    cases hp

/-- What a pass has requeued. -/
theorem mem_requeueWrites {now : Time} {cs : List CommandId} {db : ServerDb} {c : CommandId}
    {loaded new : CommandOutbox} (hw : Write.row c loaded new ∈ requeueWrites db now cs) :
    c ∈ cs ∧ db.outbox.get c = some loaded ∧ new = loaded.requeue now := by
  obtain ⟨c', hc', hw⟩ := List.mem_filterMap.mp hw
  obtain ⟨row, hrow, heq⟩ := Option.map_eq_some_iff.mp hw
  cases heq
  exact ⟨hc', hrow, rfl⟩

/-- A pass starts: what it requeues is in no stream, and nobody else's. -/
theorem Delivery.tick (h : Delivery s) {now : Time} {requeued rows : List CommandId}
    (hone : ∀ i x, s.sessions.get i = some x → x.kind ≠ .tick)
    (hrequeued : ∀ c ∈ requeued, ∃ row, s.db.outbox.get c = some row ∧ s.requeueable row = true)
    (htodo : ∀ r ∈ (tickSession s.db now requeued rows).todo, r.2.status.dispatchable = true) :
    Delivery (s.addSession (tickSession s.db now requeued rows)) := by
  obtain ⟨x₀, hx₀⟩ : ∃ x₀, x₀ = tickSession s.db now requeued rows := ⟨_, rfl⟩
  have hsending : x₀.sending = none := by
    rw [hx₀]
    rfl
  have hwrites : x₀.writes = requeueWrites s.db now requeued := by
    rw [hx₀]
    rfl
  -- what it holds is a sent row whose message is gone
  have hheld : ∀ c, x₀.Holds c → ∃ row, s.db.outbox.get c = some row ∧ row.status = .sent ∧
      ∃ m, row.redisMsgId = some m ∧ s.streams.get m = none := by
    intro c hc
    rcases hc with hs | hw
    · rw [hsending] at hs
      cases hs
    · obtain ⟨p, hp⟩ := List.exists_mem_of_ne_nil _ hw
      have hpw := mem_rowWrites.mp hp
      rw [hwrites] at hpw
      obtain ⟨hcr, hrow, -⟩ := mem_requeueWrites hpw
      obtain ⟨row, hrow', hok⟩ := hrequeued c hcr
      obtain rfl : p.1 = row := Option.some.inj (hrow.symm.trans hrow')
      unfold State.requeueable at hok
      rw [Bool.and_eq_true, Bool.and_eq_true] at hok
      obtain ⟨⟨hsent, -⟩, hgone⟩ := hok
      obtain ⟨m, hm, hnone⟩ := (Option.any_eq_true _ _).mp hgone
      exact ⟨p.1, hrow, by simpa using hsent, m, hm, by simpa using hnone⟩
  have hmsgs : ∀ c row m, (x₀.view s.db).outbox.get c = some row → row.redisMsgId = some m →
      m < s.nextMsg := by
    intro c row m hrow hm
    obtain ⟨row₀, hrow₀, -, rfl⟩ := applyWrites_get hrow
    rcases mergeAll_redisMsgId (rowWrites c x₀.writes) row₀ with hkept | ⟨p, hp, hwritten⟩
    · exact h.msgs c row₀ m hrow₀ (hkept.symm.trans hm)
    · have hpw := mem_rowWrites.mp hp
      rw [hwrites] at hpw
      obtain ⟨-, -, hnew⟩ := mem_requeueWrites hpw
      rw [hwritten, hnew] at hm
      cases hm
  rw [← hx₀] at htodo ⊢
  refine h.addSession ?_ ?_ ⟨?_, ?_, fun _ => htodo, ?_, ?_, ?_, ?_, ?_⟩ ?_
  · intro c row hrow hrun hc
    obtain ⟨row₀, hrow₀, hsent, m, hmsg, hgone⟩ := hheld c hc
    obtain rfl : row = row₀ := Option.some.inj (hrow.symm.trans hrow₀)
    refine ⟨fun j y hy hyc => ?_, fun m' cmd hm' hcmd hcc => ?_⟩
    · exact (h.sessions j y hy).unsent (hone j y hy) c row hrow hrun hyc hsent
    · obtain ⟨-, hflight⟩ := h.entries m' cmd hm'
      obtain ⟨row', hrow', -, -, hrest⟩ := hflight hcmd
      rw [hcc] at hrow' hrest
      obtain rfl : row = row' := Option.some.inj (hrow.symm.trans hrow')
      rcases hrest with ⟨-, hmsg', -⟩ | ⟨j, y, hy, hlast⟩
      · obtain rfl : m = m' := Option.some.inj (hmsg.symm.trans hmsg')
        rw [hgone] at hm'
        cases hm'
      · exact (h.sessions j y hy).unsent (hone j y hy) c row hrow hrun hlast.holds hsent
  · rintro c ⟨row, hrow, -, hstatus, -⟩
    refine ⟨fun hs => ?_, fun p hp => ?_⟩
    · rw [hsending] at hs
      cases hs
    · obtain ⟨row₀, hrow₀, hsent, -⟩ := hheld c (.inr (List.ne_nil_of_mem hp))
      obtain rfl : row = row₀ := Option.some.inj (hrow.symm.trans hrow₀)
      rw [hsent] at hstatus
      rcases hstatus with hc | hc
      · cases hc
      · cases hc
  · intro c row hs
    rw [hsending] at hs
    cases hs
  · intro c row m hs
    rw [hsending] at hs
    cases hs
  · intro r hr m hm
    rw [hx₀] at hr
    obtain ⟨c, -, hc⟩ := List.mem_filterMap.mp hr
    obtain ⟨row, hrow, rfl⟩ := Option.map_eq_some_iff.mp hc
    refine hmsgs c row m ?_ hm
    unfold Session.view
    rw [hwrites]
    exact hrow
  · intro c loaded new m hw hm
    rw [hwrites] at hw
    obtain ⟨-, -, hnew⟩ := mem_requeueWrites hw
    rw [hnew] at hm
    cases hm
  · intro te hte
    have hnil : x₀.timeouts = [] := by
      unfold Session.timeouts
      rw [hwrites]
      exact timeoutsOf_requeueWrites
    rw [hnil] at hte
    cases hte
  · intro hk
    rw [hx₀] at hk
    exact absurd rfl hk
  · intro t last hk
    rw [hx₀] at hk
    cases hk
  · intro t last hk
    rw [hx₀] at hk
    cases hk

/-- **The step.** -/
theorem step_delivery (hinv : DeliveryInv s) (hok : Alone s a) (hstep : step s a = some s') :
    Delivery s' := by
  have h := hinv.delivery
  have hwf := hinv.wf
  cases step_cases hstep with
  | @write w hw =>
      have hadds : Adds Plain s.db (w.apply s.db) := writer_adds w
      refine h.of_rows hwf hinv.tasks (.of_plain hadds hwf.fresh) (h.oneRun.of_adds hadds)
        fun e he => Writer.coded he hw fun now ev msg hwev => ?_
      subst hwev
      exact hok
  | @issue row htype hstatus hmsg =>
      have hadds : Adds Plain s.db (s.db.addOutbox row) := .of_addOutbox ⟨htype, hstatus, hmsg⟩
      exact h.of_rows hwf hinv.tasks (.of_plain hadds hwf.fresh) (h.oneRun.of_adds hadds)
        fun e he => he.of_executions rfl
  | @noTarget now t task taskType payload htask =>
      have hnone : ∀ n ∈ ([] : List (ExecutionId × AgentId)), s.db.executions.get n.1 = none :=
        fun n hn => absurd hn List.not_mem_nil
      obtain ⟨hadds, -, -⟩ :=
        createTask_spec s.db now t task taskType payload htask hnone List.nodup_nil
      refine h.of_rows hwf hinv.tasks (.of_adds hadds hwf.fresh fun row hrow => ?_)
        (createTask_oneRun h.oneRun hwf.rows hwf.fresh now t task taskType payload hnone
          List.nodup_nil) fun e he => createTask_coded he
      exact absurd hrow.2.2.1 List.not_mem_nil
  | @create now t task taskType payload nodes last htask hnew hnodup hlast =>
      obtain ⟨hadds, -, -⟩ :=
        createTask_spec s.db now t task taskType payload htask hnew hnodup
      have hcreated : Delivery { s with db := s.db.createTask now t task taskType payload nodes } := by
        refine h.of_rows hwf hinv.tasks (.of_adds hadds hwf.fresh fun row hrow => ?_)
          (createTask_oneRun h.oneRun hwf.rows hwf.fresh now t task taskType payload hnew hnodup)
          fun e he => createTask_coded he
        obtain ⟨-, ht, he, hpending, hmsg⟩ := hrow
        refine ⟨hpending, hmsg, fun _ => ⟨?_, ?_⟩⟩
        · obtain ⟨n, hn, hne⟩ := List.mem_map.mp he
          unfold ServerDb.execStatus
          rw [← hne, hnew n hn]
          rfl
        · unfold ServerDb.taskStatus
          rw [ht, htask]
          rfl
      refine hcreated.addFresh (by simp) ?_ ?_
      · intro r hr
        obtain ⟨hrow, hlater⟩ := mem_newRows.mp hr
        rcases hadds.adds r.1 r.2 hrow with hold | ⟨-, hrow⟩
        · exact absurd (hwf.fresh _ _ hold) (Nat.not_lt.mpr hlater)
        · exact hrow.2.2.2.2
      · intro t' last' hk c row hrow hrun ht
        cases hk
        rcases hadds.adds c row hrow with hold | ⟨hc, -⟩
        · -- an older run row is of an older task
          obtain ⟨st, hst⟩ := hwf.rows c row hold hrun
          obtain ⟨ts, hts⟩ := hinv.tasks _ _ _ hst
          unfold ServerDb.taskStatus at hts
          rw [ht, htask] at hts
          cases hts
        · exact List.mem_map.mpr ⟨(c, row), mem_newRows.mpr ⟨hrow, hc⟩, rfl⟩
  | @cancel now t =>
      obtain ⟨hadds, hexec, -⟩ := requestCancel_spec s.db now t
      have hcanceled : Delivery { s with db := s.db.requestCancel now t } := by
        refine h.of_rows hwf hinv.tasks (.requestCancel now t hwf.fresh)
          (h.oneRun.requestCancel now t) fun e he => he.of_executions ?_
        exact (createStops_adds _ now t _).2.1
      refine hcanceled.addFresh (by simp) ?_ (fun t' last hk => by cases hk)
      intro r hr
      obtain ⟨hrow, hlater⟩ := mem_newRows.mp hr
      rcases hadds.adds r.1 r.2 hrow with hold | ⟨-, hrow⟩
      · obtain ⟨row₀, hrow₀, -⟩ := Option.map_eq_some_iff.mp
          ((Table.get_updateAll _ _ r.1).symm.trans hold)
        exact absurd (hwf.fresh _ _ hrow₀) (Nat.not_lt.mpr hlater)
      · exact hrow.2.2
  | tick hone _ _ hrequeued htodo => exact h.tick hone hrequeued htodo
  | refresh hx hx' => exact h.refreshed hx hx' hok
  | @sent i now x c row x' hx hsending hx' =>
      refine h.appended (hwf.sessions i x hx) (hinv.serving i x hx) hx hx' ?_ _ _
        (Nat.le_succ _) ?_ ?_
      · exact fun m hm => (Option.some.inj hm).symm
      · intro m hm
        obtain rfl := Option.some.inj hm
        exact Nat.lt_succ_self _
      · intro m cmd hm
        have hfree : s.streams.get s.nextMsg = none := by
          rcases hget : s.streams.get s.nextMsg with - | cmd
          · rfl
          · exact absurd (h.entries _ cmd hget).1 (Nat.lt_irrefl _)
        rw [Table.get_insert _ _ hfree] at hm
        split at hm
        · rename_i hmm
          obtain rfl := Option.some.inj hm
          exact .inr ⟨congrArg some hmm.symm, c, row, hsending, rfl⟩
        · exact .inl hm
  | @raised i now x x' hx hx' =>
      exact h.appended (hwf.sessions i x hx) (hinv.serving i x hx) hx hx' (by intro m hm; cases hm)
        s.streams s.nextMsg (Nat.le_refl _) (by intro m hm; cases hm) fun m cmd hm => .inl hm
  | @giveUp i now x x' hx hx' => exact h.gaveUp (hwf.sessions i x hx) hx hx' hok
  | @commit i now held x db hx hdb =>
      have htimeouts : ∀ e, e ∈ (timeoutsOf x.writes).map Prod.snd → ∀ c row,
          s.db.outbox.get c = some row → row.type = .run → row.executionId = e →
          x.LastFailed c ∨ Dropped s c := by
        intro e he c row hrow hrun hre
        obtain ⟨te, hte, rfl⟩ := List.mem_map.mp he
        obtain ⟨c', row', hrow', hrun', hre', hlf⟩ := (h.sessions i x hx).timeouts te hte
        obtain rfl := h.oneRun c c' row row' hrow hrow' hrun hrun' (hre.trans hre'.symm)
        exact .inl hlf
      cases Session.committed hdb with
      | done _ _ _ =>
          refine h.committed hx rfl fun e he => ?_
          rcases applyWrites_coded he with hold | hnew
          · exact .inl hold
          · exact .inr (htimeouts e hnew)
      | @unavailable t last htodo hsending hkind hany _ =>
          refine h.committed hx rfl fun e he => ?_
          rcases failDispatchUnavailable_coded he with hview | ⟨st, hst⟩
          · rcases applyWrites_coded hview with hold | hnew
            · exact .inl hold
            · exact .inr (htimeouts e hnew)
          · refine .inr fun c row hrow hrun hre => ?_
            have hon : s.db.Onward (x.view s.db) := applyWrites_onward
            obtain ⟨st₀, hst₀, -⟩ := hon.source hst
            obtain ⟨st₁, hst₁⟩ := hwf.rows c row hrow hrun
            rw [hre, hst₀] at hst₁
            have ht : row.taskId = t := (congrArg Prod.fst (Option.some.inj hst₁)).symm
            rcases h.executors i x t last hx hkind c row hrow hrun ht with hin | hheld | hs | hdrop
            · rw [htodo] at hin
              cases hin
            · rcases hheld with hs | hw
              · rw [hsending] at hs
                cases hs
              · exact .inl ((h.sessions i x hx).failed t last hkind hany c hw)
            · rw [hany] at hs
              cases hs
            · exact .inr hdrop
  | abort => exact h.aborted hwf hok
  | @vanish msgs =>
      have hkept : ∀ (msgs : List MessageId) (streams : Table MessageId AgentCommand) m cmd,
          (msgs.foldl Table.erase streams).get m = some cmd → streams.get m = some cmd := by
        intro msgs
        induction msgs with
        | nil => exact fun _ _ _ hm => hm
        | cons m' msgs ih =>
            intro streams m cmd hm
            have hrest := ih (streams.erase m') m cmd hm
            rw [Table.get_erase] at hrest
            split at hrest
            · cases hrest
            · exact hrest
      exact ⟨h.oneRun, h.alone, fun m cmd hm => h.entries m cmd (hkept msgs s.streams m cmd hm),
        h.msgs, h.sessions, h.executors, h.coded⟩

theorem step_deliveryInv (hinv : DeliveryInv s) (hok : Alone s a) (hstep : step s a = some s') :
    DeliveryInv s' where
  wf := step_wf hinv.wf hstep
  tasks := step_tasks hinv.tasks hstep
  serving := step_serving hinv.wf hinv.serving hstep
  delivery := step_delivery hinv hok hstep

theorem applyWrites_keeps {db : ServerDb} {ws : List Write} : Keeps db (applyWrites db ws) := by
  constructor
  · intro e t st he hst
    rw [applyWrites_execStatus, he, Option.map_some, if_neg fun hc => ExecStatus.not_active hst hc.2]
  · intro t st ht hst
    have hinactive : ¬ st.active = true := by
      simpa [TaskStatus.terminal] using hst
    rw [applyWrites_taskStatus, ht, Option.map_some, if_neg fun hc => hinactive hc.2]

/-- What a session fails at its commit was active. -/
theorem commit_keeps {now : Time} {held : HeldRows} (hok : Alone s (.commit i now held))
    (hstep : step s (.commit i now held) = some s') : Keeps s.db s'.db := by
  cases step_cases hstep with
  | @commit _ _ _ x db hx hdb =>
      cases Session.committed hdb with
      | done _ _ _ => exact applyWrites_keeps
      | @unavailable t last _ _ hkind hany _ =>
          have hactive := hok x hx hany
          rw [hkind] at hactive
          obtain ⟨htask, hexecs⟩ := hactive
          have hview : Keeps s.db (x.view s.db) := applyWrites_keeps
          constructor
          · intro e t' st he hst
            have hne : t' ≠ t := by
              rintro rfl
              obtain ⟨y, hy, hye⟩ := Option.map_eq_some_iff.mp he
              obtain ⟨hyt, hys⟩ := Prod.mk.inj hye
              refine ExecStatus.not_active hst ?_
              rw [← hys]
              exact hexecs (e, y) (ServerDb.mem_listExecutions.mpr ⟨hy, hyt⟩)
            show ((x.view s.db).failDispatchUnavailable held now t).execStatus e = _
            rw [failDispatchUnavailable_execStatus, hview.1 e t' st he hst, Option.map_some,
              if_neg fun hc => hne hc.1]
          · intro t' st ht hst
            have hne : t' ≠ t := by
              rintro rfl
              rw [ht] at htask
              have htask : st.active = true := htask
              unfold TaskStatus.terminal at hst
              rw [htask] at hst
              cases hst
            show ((x.view s.db).failDispatchUnavailable held now t).taskStatus t' = _
            rw [failDispatchUnavailable_taskStatus, hview.2 t' st ht hst, Option.map_some,
              if_neg hne]

/-- **Dispatch-unavailable is honest**, in every run of lone deliveries: an
execution that is failed for want of a delivery has no run command in a stream,
and no commit overwrites a terminal. -/
theorem honest (h : RunOk step Alone State.start s) :
    Honest s ∧ ∀ i now held s', Alone s (.commit i now held) →
      step s (.commit i now held) = some s' → Keeps s.db s'.db := by
  have hinv : DeliveryInv s :=
    h.invariant (fun _ _ _ hi hok hs => step_deliveryInv hi hok hs) .start
  refine ⟨?_, fun i now held s' hok hs => commit_keeps hok hs⟩
  rintro e ⟨x, hx, -, hcode⟩ m cmd hm hrun rfl
  obtain ⟨-, hflight⟩ := hinv.delivery.entries m cmd hm
  obtain ⟨row, hrow, hrowrun, hre, -⟩ := hflight hrun
  exact hinv.delivery.no_entry hm hrun (hinv.delivery.coded _ ⟨x, hx, hcode⟩ _ row hrow hrowrun hre)

/-! ### Two sessions and one row -/

instance (x : Session) (c : CommandId) : Decidable (x.Holds c) :=
  inferInstanceAs (Decidable (_ ∨ _))

instance (s : State) (i : SessionId) (c : CommandId) : Decidable (Unheld s i c) :=
  inferInstanceAs (Decidable (∀ r ∈ s.sessions.rows, _ → _))

instance (s : State) (a : Action) : Decidable (Alone s a) :=
  match a with
  | .write (.applyEvent ..) => inferInstanceAs (Decidable (_ ∧ _))
  | .refresh .. => inferInstanceAs (Decidable (∀ x ∈ s.sessions.get _, ∀ r ∈ x.next s.db, _ → _))
  | .giveUp .. => inferInstanceAs (Decidable (∀ x ∈ s.sessions.get _, ∀ r ∈ x.next s.db, _ → _))
  | .commit i _ _ =>
      have : ∀ x : Session, Decidable (match x.kind with
          | .executor t _ => (s.db.taskStatus t).any TaskStatus.active = true ∧
              ∀ r ∈ s.db.listExecutions t, r.2.status.active = true
          | .tick | .cancel => True) := fun x =>
        match x.kind with
        | .executor _ _ => inferInstanceAs (Decidable (_ ∧ _))
        | .tick | .cancel => isTrue trivial
      inferInstanceAs (Decidable (∀ x ∈ s.sessions.get i, _ → _))
  | .abort i =>
      have : ∀ w : Write, Decidable (match w with
          | .row _ loaded new => loaded.type = .run → new.status ≠ .sent
          | .timeout .. => True) := fun w =>
        match w with
        | .row .. => inferInstanceAs (Decidable (_ → _))
        | .timeout .. => isTrue trivial
      inferInstanceAs (Decidable (∀ x ∈ s.sessions.get i, ∀ w ∈ x.writes, _))
  | .write (.markLost ..) | .write (.dispatchTimeout ..) | .write (.repairOrphanedTask ..)
  | .write (.markTaskLost ..) | .issue .. | .create .. | .cancel .. | .tick .. | .append ..
  | .vanish .. => isTrue trivial

/-- A session that holds execution 1 as it was created. -/
def samplePending : HeldRows where
  status e := if e = 1 then some .pending else none
  active := by
    intro e st h
    split at h
    · obtain rfl := Option.some.inj h
      rfl
    · cases h

/-- A pass appends the row that the executor of task 7 has read, and then the
append of the executor raises. -/
def sampleRace : List Action :=
  [.create 0 7 {} .scrapy {} [(1, 1)], .tick 0 [] [0], .refresh 0 0, .refresh 1 0,
    .append 1 0 true, .append 0 0 false, .commit 1 0 .none, .commit 0 0 samplePending]

/-- The executor is alone, and its append raises. -/
def sampleUnavailable : List Action :=
  [.create 0 7 {} .scrapy {} [(1, 1)], .refresh 0 0, .append 0 0 false, .commit 0 0 samplePending]

theorem marked_of_any {db : ServerDb} {e : ExecutionId}
    (h : (db.executions.get e).any (fun x => x.status == .failed &&
      x.errorCode == some "dispatch_unavailable") = true) : Marked db e := by
  obtain ⟨x, hx, hxs⟩ := (Option.any_eq_true _ _).mp h
  obtain ⟨hstatus, hcode⟩ := Bool.and_eq_true_iff.mp hxs
  exact ⟨x, hx, by simpa using hstatus, .inl (by simpa using hcode)⟩

theorem not_honest : ¬ ∀ s, Run step State.start s →
    Honest s ∧ ∀ i now held s', step s (.commit i now held) = some s' → Keeps s.db s'.db := by
  intro h
  obtain ⟨s, hrun, hs⟩ := RunOk.exists_of_checkedRun step (fun _ _ => True) State.start sampleRace
    (fun s => (s.db.executions.get 1).any (fun x => x.status == .failed &&
        x.errorCode == some "dispatch_unavailable") &&
      (s.streams.get 0).any fun cmd => cmd.type == .run && cmd.executionId == 1) (by decide +kernel)
  obtain ⟨hmarked, hentry⟩ := Bool.and_eq_true_iff.mp hs
  obtain ⟨cmd, hcmd, hsent⟩ := (Option.any_eq_true _ _).mp hentry
  obtain ⟨hrunning, hexec⟩ := Bool.and_eq_true_iff.mp hsent
  exact (h s hrun).1 1 (marked_of_any hmarked) 0 cmd hcmd (by simpa using hrunning)
    (by simpa using hexec)

theorem honest_sample : ∃ s, RunOk step Alone State.start s ∧ Marked s.db 1 ∧
    ∀ m cmd, s.streams.get m = some cmd → cmd.type = .run → cmd.executionId ≠ 1 := by
  obtain ⟨s, hrun, hs⟩ := RunOk.exists_of_checkedRun step Alone State.start sampleUnavailable
    (fun s => (s.db.executions.get 1).any fun x => x.status == .failed &&
      x.errorCode == some "dispatch_unavailable") (by decide +kernel)
  exact ⟨s, hrun, marked_of_any hs, (honest hrun).1 1 (marked_of_any hs)⟩

end Delivery

end Dispatch

end Dopilot
