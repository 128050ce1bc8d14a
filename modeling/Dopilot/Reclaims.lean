/-
Dopilot/Reclaims.lean

One reclaim for an execution.

Three places ask for the reclaim of a lost execution.  The reconcile pass asks
when it declares the loss, a heartbeat when none was ever issued, an accepted or
running event when none is unresolved.  The outbox resolves a reclaim by sending
it, so the last of them asks again once the reclaim is sent: `Revives` is that
event.  `reclaimed_once` is what holds of the runs without one.
-/
import Dopilot.Abandoned
import Dopilot.Outbox

namespace Dopilot

open StateMachine

namespace Reclaims

open Dispatch (State Extends Adds Over IsReclaim reclaims)

/-! ### The machine -/

inductive Action where
  /-- A step of a session, or of a writer. -/
  | session (a : Dispatch.Action)
  /-- One execution of a reconcile pass, as the pass loaded it. -/
  | reconcile (settings : AgentsSettings) (held : HeldRows) (now : Time) (lastSeen : Option Time)
      (e : ExecutionId) (x : Execution)

/-- One step.  Reclaims are issued by events and by reconcile passes only. -/
def step (s : State) : Action → Option State
  | .session (.issue row) =>
      if IsReclaim row.executionId row then none else Dispatch.step s (.issue row)
  | .session a => Dispatch.step s a
  | .reconcile settings held now lastSeen e x =>
      some { s with db := s.db.reconcileExecution settings held now lastSeen e x }

/-- An accepted or running event, of a lost execution whose reclaim is resolved. -/
def Revives (db : ServerDb) (ev : AgentEvent) (msg : MessageId) : Prop :=
  (ev.type = .accepted ∨ ev.type = .running) ∧ (db.audits.get msg).isNone = true ∧
    (db.executions.get ev.executionId).any (fun x => x.status = .lost) = true ∧
    db.reclaimEverIssued ev.executionId = true ∧ db.hasUnresolvedReclaim ev.executionId = false

/-- No event revives an execution. -/
def Quiet (s : State) : Action → Prop
  | .session (.write (.applyEvent _ ev msg)) => ¬ Revives s.db ev msg
  | _ => True

section Facts

variable {db db' : ServerDb} {s s' : State} {a : Action} {e : ExecutionId} {c : CommandId}

/-! ### Reclaims -/

theorem reclaimEverIssued_iff :
    db.reclaimEverIssued e = true ↔ ∃ c row, db.outbox.get c = some row ∧ IsReclaim e row := by
  unfold ServerDb.reclaimEverIssued IsReclaim
  rw [List.any_eq_true]
  constructor
  · rintro ⟨⟨c, row⟩, hmem, h⟩
    simp only [Bool.and_eq_true, decide_eq_true_eq] at h
    exact ⟨c, row, Table.mem_rows_iff.mp hmem, h.1.1, h.1.2, h.2⟩
  · rintro ⟨c, row, hrow, he, htype, hintent⟩
    refine ⟨(c, row), Table.mem_rows_iff.mpr hrow, ?_⟩
    simp only [Bool.and_eq_true, decide_eq_true_eq]
    exact ⟨⟨he, htype⟩, hintent⟩

/-- An unresolved reclaim was issued. -/
theorem ever_of_unresolved (h : db.hasUnresolvedReclaim e = true) :
    db.reclaimEverIssued e = true := by
  unfold ServerDb.hasUnresolvedReclaim at h
  unfold ServerDb.reclaimEverIssued
  obtain ⟨r, hmem, hr⟩ := List.any_eq_true.mp h
  exact List.any_eq_true.mpr ⟨r, hmem, (Bool.and_eq_true _ _ ▸ hr).1⟩

/-- **Which events ask twice.** -/
theorem revives_iff {ev : AgentEvent} {msg : MessageId} :
    Revives db ev msg ↔
      reclaims db ev msg = true ∧ db.reclaimEverIssued ev.executionId = true := by
  unfold Revives reclaims
  rw [Bool.and_eq_true]
  constructor
  · rintro ⟨htype, haudit, hlost, hever, hun⟩
    refine ⟨⟨hlost, ?_⟩, hever⟩
    rcases htype with htype | htype
    · simp only [htype, haudit, hun, Bool.not_false, Bool.and_self]
    · simp only [htype, haudit, hun, Bool.not_false, Bool.and_self]
  · rintro ⟨⟨hlost, hask⟩, hever⟩
    cases htype : ev.type with
    | heartbeat => simp only [htype, hever, Bool.not_true, Bool.false_eq_true] at hask
    | accepted =>
        simp only [htype, Bool.and_eq_true, Bool.not_eq_true'] at hask
        exact ⟨.inl rfl, hask.1, hlost, hever, hask.2⟩
    | running =>
        simp only [htype, Bool.and_eq_true, Bool.not_eq_true'] at hask
        exact ⟨.inr rfl, hask.1, hlost, hever, hask.2⟩
    | finished | failed | canceled | lost =>
        simp only [htype, Bool.false_eq_true] at hask

/-! ### What a step asks for -/

/-- The reclaims of `db'` are those of `db`, and at most one more, of a terminal
execution that had none. -/
def AsksOnce (db db' : ServerDb) : Prop :=
  ∀ c row e, db'.outbox.get c = some row → IsReclaim e row →
    (∃ row₀, db.outbox.get c = some row₀ ∧ IsReclaim e row₀) ∨
      (c = db.nextCommand ∧ Over db' e ∧ db.reclaimEverIssued e = false)

theorem IsReclaim.same {row row' : CommandOutbox} (h : IsReclaim e row')
    (hsame : Dispatch.SameCommand row row') : IsReclaim e row :=
  ⟨hsame.executionId.symm.trans h.1, hsame.type.symm.trans h.2.1, hsame.intent.symm.trans h.2.2⟩

/-- Steps that issue other commands. -/
theorem AsksOnce.of_extends {P : CommandOutbox → Prop} (h : Extends P db db')
    (hP : ∀ row e, P row → ¬ IsReclaim e row) : AsksOnce db db' := by
  intro c row e hrow hreclaim
  rcases h.source c row hrow with ⟨row₀, hrow₀, hsame⟩ | ⟨-, hnew⟩
  · exact .inl ⟨row₀, hrow₀, IsReclaim.same hreclaim hsame⟩
  · exact absurd hreclaim (hP row e hnew)

/-- A row is put into the outbox under the next id. -/
theorem outbox_insert_cases {outbox : Table CommandId CommandOutbox} {k : CommandId}
    {row row' : CommandOutbox} (h : (outbox.insert k row).get c = some row') :
    outbox.get c = some row' ∨ c = k ∧ row' = row := by
  rcases hget : outbox.get k with - | taken
  · rw [Table.get_insert _ _ hget] at h
    by_cases hc : c = k
    · rw [if_pos hc] at h
      exact .inr ⟨hc, (Option.some.inj h).symm⟩
    · rw [if_neg hc] at h
      exact .inl h
  · rw [Table.insert, dif_pos (Table.mem_keys_iff.mpr ⟨taken, hget⟩)] at h
    exact .inl h

/-- A step that issues one reclaim. -/
theorem AsksOnce.of_insert {row : CommandOutbox}
    (h : db'.outbox = db.outbox.insert db.nextCommand row) (hrow : IsReclaim e row)
    (hover : Over db' e) (hnone : db.reclaimEverIssued e = false) : AsksOnce db db' := by
  intro c row' e' hrow' hreclaim
  rw [h] at hrow'
  rcases outbox_insert_cases hrow' with hold | ⟨hc, rfl⟩
  · exact .inl ⟨row', hold, hreclaim⟩
  · obtain rfl : e' = e := hreclaim.1.symm.trans hrow.1
    exact .inr ⟨hc, hover, hnone⟩

/-! ### Events -/

theorem over_of_lost {e : ExecutionId}
    (h : (db.executions.get e).any (fun x => x.status = .lost) = true) : Over db e := by
  unfold Over ServerDb.execStatus
  rcases hx : db.executions.get e with - | x
  · rw [hx] at h
    cases h
  · rw [hx] at h
    have hlost : x.status = .lost := of_decide_eq_true h
    show x.status.terminal = true
    rw [hlost]
    rfl

theorem applyEvent_asksOnce {now : Time} {ev : AgentEvent} {msg : MessageId}
    (hquiet : ¬ Revives db ev msg) : AsksOnce db (db.applyEvent now ev msg).1 := by
  rcases Dispatch.applyEvent_outbox db now ev msg with
    ⟨-, houtbox, hnext⟩ | ⟨hasks, row, hrow, -, houtbox, -⟩
  · exact .of_extends (P := fun _ => False) (.of_outbox houtbox hnext) fun _ _ hc => hc.elim
  · have hover : Over db ev.executionId := by
      apply over_of_lost
      unfold reclaims at hasks
      exact (Bool.and_eq_true _ _ ▸ hasks).1
    refine .of_insert houtbox hrow (hover.onward (db.applyEvent_onward now ev msg)) ?_
    rw [← Bool.not_eq_true]
    exact fun hever => hquiet (revives_iff.mpr ⟨hasks, hever⟩)

/-! ### Reconcile passes -/

/-- Writing a row without its status and its task. -/
theorem updateExecution_onward {f : Execution → Execution}
    (hf : ∀ x, (f x).status = x.status ∧ (f x).taskId = x.taskId) :
    db.Onward (db.updateExecution e f) := by
  refine .of_map (f := fun _ y => y.2) (fun e' => ?_) fun _ y => .refl y.2
  rw [ServerDb.execStatus_updateExecution]
  by_cases he : e' = e
  · rw [if_pos he, he]
    unfold ServerDb.execStatus
    rw [Option.map_map]
    congr 1
    funext x
    exact Prod.ext (hf x).2 (hf x).1
  · rw [if_neg he]
    exact Option.map_id'.symm

/-- Marks on executions: their statuses, and everything else, stays. -/
structure Marks (db db' : ServerDb) : Prop where
  onward : db.Onward db'
  logFiles : db'.logFiles = db.logFiles
  outbox : db'.outbox = db.outbox
  nextCommand : db'.nextCommand = db.nextCommand

theorem Marks.refl (db : ServerDb) : Marks db db := ⟨.refl db, rfl, rfl, rfl⟩

theorem Marks.trans {db'' : ServerDb} (h : Marks db db') (h' : Marks db' db'') : Marks db db'' :=
  ⟨h.onward.trans h'.onward, h'.logFiles.trans h.logFiles, h'.outbox.trans h.outbox,
    h'.nextCommand.trans h.nextCommand⟩

theorem Marks.of_updateExecution {f : Execution → Execution}
    (hf : ∀ x, (f x).status = x.status ∧ (f x).taskId = x.taskId) :
    Marks db (db.updateExecution e f) := ⟨updateExecution_onward hf, rfl, rfl, rfl⟩

/-- What one execution of a reconcile pass comes to. -/
inductive Reconciled (db : ServerDb) (held : HeldRows) (now : Time) (e : ExecutionId)
    (x : Execution) : ServerDb → Prop
  | lost (reason : ExecLostReason) : Reconciled db held now e x (db.markLost held e reason now).1
  | reclaimed : (db.markLost held e (.wire .eventStall) now).2 = true →
      Reconciled db held now e x ((db.markLost held e (.wire .eventStall) now).1.createStopOutbox
        now .reclaim x.taskId e x.agentId)
  | marked {db₁ : ServerDb} : Marks db db₁ → Reconciled db held now e x db₁
  | stopped {db₁ : ServerDb} : Marks db db₁ →
      Reconciled db held now e x (db₁.createStopOutbox now .cancel x.taskId e x.agentId)

theorem reconcileExecution_cases (db : ServerDb) (settings : AgentsSettings) (held : HeldRows)
    (now : Time) (lastSeen : Option Time) (e : ExecutionId) (x : Execution) :
    Reconciled db held now e x (db.reconcileExecution settings held now lastSeen e x) := by
  have hcheck : ∀ db₁, Marks db db₁ →
      Reconciled db held now e x (db₁.checkNoProgress settings now e x) := by
    intro db₁ hmarks
    unfold ServerDb.checkNoProgress
    split
    · exact .marked hmarks
    · dsimp only
      split
      · exact .marked hmarks
      · have hmarks' : Marks db (db₁.updateExecution e fun x => { x with noProgressAt := some now }) :=
          hmarks.trans (.of_updateExecution fun _ => ⟨rfl, rfl⟩)
        split
        · exact .stopped hmarks'
        · exact .marked hmarks'
  cases lastSeen with
  | none => exact .lost _
  | some seen =>
      unfold ServerDb.reconcileExecution
      simp only [decide_eq_true_eq]
      split
      · exact .lost _
      · split
        · split
          · rename_i hdeclared
            exact .reclaimed hdeclared
          · exact .lost _
        · split
          · exact hcheck _ (.of_updateExecution fun _ => ⟨rfl, rfl⟩)
          · exact hcheck _ (.refl db)

theorem markLost_outbox (db : ServerDb) (held : HeldRows) (e : ExecutionId)
    (reason : ExecLostReason) (now : Time) :
    (db.markLost held e reason now).1.outbox = db.outbox ∧
      (db.markLost held e reason now).1.nextCommand = db.nextCommand := by
  unfold ServerDb.markLost
  split
  · exact ⟨rfl, rfl⟩
  · simp only
    split
    · exact ⟨rfl, rfl⟩
    · exact ⟨rfl, rfl⟩

/-- A loss is declared of an active execution, which is lost then. -/
theorem markLost_declared {held : HeldRows} {reason : ExecLostReason} {now : Time}
    (h : (db.markLost held e reason now).2 = true) :
    ¬ Over db e ∧ Over (db.markLost held e reason now).1 e := by
  obtain ⟨x, hx, hactive⟩ : ∃ x, db.executions.get e = some x ∧ ¬ x.status.terminal = true := by
    unfold ServerDb.markLost at h
    rcases hx : db.executions.get e with - | x
    · rw [hx] at h
      cases h
    · refine ⟨x, rfl, fun hterminal => ?_⟩
      rw [hx] at h
      simp only [hterminal, if_true, Bool.false_eq_true] at h
  have hstatus : db.execStatus e = some (x.taskId, x.status) := by
    unfold ServerDb.execStatus
    rw [hx]
    rfl
  constructor
  · unfold Over
    rw [hstatus]
    exact hactive
  · unfold Over
    rw [ServerDb.markLost_execStatus, hstatus]
    have hactive : x.status.active = true := by simpa [ExecStatus.terminal] using hactive
    simp only [hactive, and_self, if_true, Option.map_some]
    rfl

/-- **A reconcile pass and reclaims**: it asks for one when it declares the loss. -/
theorem reconcileExecution_spec (settings : AgentsSettings) (held : HeldRows) (now : Time)
    (lastSeen : Option Time) (e : ExecutionId) (x : Execution)
    (hissued : db.reclaimEverIssued e = true → Over db e) :
    AsksOnce db (db.reconcileExecution settings held now lastSeen e x) ∧
      db.Onward (db.reconcileExecution settings held now lastSeen e x) := by
  have hcases := reconcileExecution_cases db settings held now lastSeen e x
  generalize db.reconcileExecution settings held now lastSeen e x = db₂ at hcases ⊢
  cases hcases with
  | lost reason =>
      exact ⟨.of_extends (P := fun _ => False) (.of_adds Dispatch.markLost_adds)
        fun _ _ hc => hc.elim, ServerDb.markLost_onward⟩
  | reclaimed hdeclared =>
      -- the loss is declared here, so the execution was active and had no reclaim
      obtain ⟨hactive, hover⟩ := markLost_declared hdeclared
      have hnone : db.reclaimEverIssued e = false := by
        rw [← Bool.not_eq_true]
        exact fun hever => hactive (hissued hever)
      obtain ⟨houtbox, hnext⟩ := markLost_outbox db held e (.wire .eventStall) now
      obtain ⟨row, hrow, hinsert⟩ : ∃ row, IsReclaim e row ∧
          ((db.markLost held e (.wire .eventStall) now).1.createStopOutbox now .reclaim
            x.taskId e x.agentId).outbox = db.outbox.insert db.nextCommand row := by
        rw [← houtbox, ← hnext]
        exact ⟨_, ⟨rfl, rfl, rfl⟩, rfl⟩
      exact ⟨.of_insert hinsert hrow hover hnone, ServerDb.markLost_onward.trans (.of_executions rfl)⟩
  | marked hmarks =>
      exact ⟨.of_extends (P := fun _ => False) (.of_outbox hmarks.outbox hmarks.nextCommand)
        fun _ _ hc => hc.elim, hmarks.onward⟩
  | @stopped db₁ hmarks =>
      have hadds : Adds (fun row => row.intent = some .cancel) db
          (db₁.createStopOutbox now .cancel x.taskId e x.agentId) :=
        .trans (.of_outbox hmarks.outbox hmarks.nextCommand) (.of_addOutbox rfl)
      refine ⟨.of_extends (.of_adds hadds) fun row e hcancel hreclaim => ?_,
        hmarks.onward.trans (.of_executions rfl)⟩
      rw [hreclaim.2.2] at hcancel
      cases hcancel

/-! ### The step -/

/-- Terminal executions stay so. -/
theorem session_over {a : Dispatch.Action} (h : Dispatch.step s a = some s')
    (hover : Over s.db e) : Over s'.db e := by
  cases Dispatch.step_cases h with
  | @write w _ => exact hover.onward (w.apply_onward s.db).1
  | issue _ _ _ => exact hover
  | noTarget _ => exact hover
  | @create now t task taskType payload nodes last htask hnew hnodup _ =>
      obtain ⟨-, hexec, -⟩ :=
        Dispatch.createTask_spec s.db now t task taskType payload htask hnew hnodup
      obtain ⟨t', st, he, hst⟩ := Dispatch.over_iff.mp hover
      refine Dispatch.over_iff.mpr ⟨t', st, ?_, hst⟩
      rw [← he]
      refine (hexec e).trans (if_neg fun hmem => ?_)
      obtain ⟨n, hn, rfl⟩ := List.mem_map.mp hmem
      unfold ServerDb.execStatus at he
      rw [hnew n hn] at he
      cases he
  | @cancel now t =>
      obtain ⟨-, hexec, -⟩ := Dispatch.requestCancel_spec s.db now t
      unfold Over
      show ((s.db.requestCancel now t).execStatus e).any _ = true
      rw [hexec]
      exact hover
  | tick _ _ _ _ _ => exact hover
  | refresh _ _ => exact hover
  | sent _ _ _ => exact hover
  | raised _ _ => exact hover
  | giveUp _ _ => exact hover
  | @commit i now held x db _ hcommit =>
      have hview : Over (x.view s.db) e := hover.onward Dispatch.applyWrites_onward
      cases Dispatch.Session.committed hcommit with
      | done _ _ _ => exact hview
      | unavailable _ _ _ _ _ => exact hview.unavailable
  | abort => exact hover
  | vanish => exact hover

/-- What holds of every state: an execution with a reclaim is terminal, and has
no other. -/
structure Inv (db : ServerDb) : Prop where
  ended : ∀ e, db.reclaimEverIssued e = true → Over db e
  one : ∀ c₁ row₁ c₂ row₂ e, db.outbox.get c₁ = some row₁ → db.outbox.get c₂ = some row₂ →
    IsReclaim e row₁ → IsReclaim e row₂ → c₁ = c₂

/-- **Asking once keeps it so.** -/
theorem Inv.asked (hinv : Inv db) (hasks : AsksOnce db db')
    (hover : ∀ e, Over db e → Over db' e) : Inv db' where
  ended := by
    intro e hever
    obtain ⟨c, row, hrow, hreclaim⟩ := reclaimEverIssued_iff.mp hever
    rcases hasks c row e hrow hreclaim with ⟨row₀, hrow₀, hreclaim₀⟩ | ⟨-, hover', -⟩
    · exact hover e (hinv.ended e (reclaimEverIssued_iff.mpr ⟨c, row₀, hrow₀, hreclaim₀⟩))
    · exact hover'
  one := by
    have hnew : ∀ c row e, db.outbox.get c = some row → IsReclaim e row →
        db.reclaimEverIssued e ≠ false := by
      intro c row e hrow hreclaim hnone
      rw [reclaimEverIssued_iff.mpr ⟨c, row, hrow, hreclaim⟩] at hnone
      cases hnone
    intro c₁ row₁ c₂ row₂ e hrow₁ hrow₂ hreclaim₁ hreclaim₂
    rcases hasks c₁ row₁ e hrow₁ hreclaim₁ with ⟨row₁', hold₁, hreclaim₁'⟩ | ⟨hc₁, -, hnone₁⟩
    · rcases hasks c₂ row₂ e hrow₂ hreclaim₂ with ⟨row₂', hold₂, hreclaim₂'⟩ | ⟨-, -, hnone₂⟩
      · exact hinv.one c₁ row₁' c₂ row₂' e hold₁ hold₂ hreclaim₁' hreclaim₂'
      · exact absurd hnone₂ (hnew c₁ row₁' e hold₁ hreclaim₁')
    · rcases hasks c₂ row₂ e hrow₂ hreclaim₂ with ⟨row₂', hold₂, hreclaim₂'⟩ | ⟨hc₂, -, -⟩
      · exact absurd hnone₁ (hnew c₂ row₂' e hold₂ hreclaim₂')
      · exact hc₁.trans hc₂.symm

theorem Inv.start : Inv State.start.db where
  ended := by
    intro e he
    cases he
  one := by
    intro c₁ row₁ c₂ row₂ e hrow₁
    cases hrow₁

/-- What a step of a session asks for. -/
theorem session_asksOnce {a : Dispatch.Action} (h : Dispatch.step s a = some s')
    (hissue : ∀ row, a = .issue row → ¬ IsReclaim row.executionId row)
    (hquiet : Quiet s (.session a)) : AsksOnce s.db s'.db := by
  have hextends := Dispatch.step_extends h
  cases a with
  | write w =>
      cases w with
      | applyEvent now ev msg =>
          obtain rfl := Option.some.inj h
          exact applyEvent_asksOnce hquiet
      | markLost | dispatchTimeout | repairOrphanedTask | markTaskLost =>
          exact .of_extends hextends fun _ _ hc => hc.elim
  | issue row =>
      refine .of_extends hextends ?_
      rintro row' e rfl hreclaim
      refine hissue row' rfl ?_
      rw [hreclaim.1]
      exact hreclaim
  | create =>
      refine .of_extends hextends fun row e hrun hreclaim => ?_
      have hstop := hreclaim.2.1
      rw [show row.type = .run from hrun] at hstop
      cases hstop
  | cancel =>
      refine .of_extends hextends fun row e hcancel hreclaim => ?_
      have hintent := hreclaim.2.2
      rw [hcancel.2] at hintent
      cases hintent
  | tick | refresh | append | giveUp | commit | abort | vanish =>
      exact .of_extends hextends fun _ _ hc => hc.elim

/-- **The step.** -/
theorem Inv.next (hinv : Inv s.db) (hquiet : Quiet s a) (h : step s a = some s') : Inv s'.db := by
  cases a with
  | session a =>
      have hsession : Dispatch.step s a = some s' ∧
          ∀ row, a = .issue row → ¬ IsReclaim row.executionId row := by
        cases a with
        | issue row =>
            simp only [step] at h
            split at h
            · cases h
            · rename_i hno
              refine ⟨h, ?_⟩
              rintro row' heq
              obtain rfl := Dispatch.Action.issue.inj heq
              exact hno
        | write | create | cancel | tick | refresh | append | giveUp | commit | abort | vanish =>
            exact ⟨h, by rintro row hc; cases hc⟩
      exact hinv.asked (session_asksOnce hsession.1 hsession.2 hquiet)
        fun e => session_over hsession.1
  | reconcile settings held now lastSeen e x =>
      obtain rfl := Option.some.inj h
      obtain ⟨hasks, honward⟩ :=
        reconcileExecution_spec settings held now lastSeen e x (hinv.ended e)
      exact hinv.asked hasks fun e' hover => hover.onward honward

/-- **At most one reclaim for an execution**, in every run without an accepted or
running event of a lost execution whose reclaim is resolved. -/
theorem reclaimed_once (h : RunOk step Quiet State.start s) {e : ExecutionId}
    {c₁ c₂ : CommandId} {row₁ row₂ : CommandOutbox} (hrow₁ : s.db.outbox.get c₁ = some row₁)
    (hrow₂ : s.db.outbox.get c₂ = some row₂) (hreclaim₁ : IsReclaim e row₁)
    (hreclaim₂ : IsReclaim e row₂) : c₁ = c₂ := by
  have hinv : Inv s.db :=
    h.invariant (I := fun s => Inv s.db) (fun _ _ _ hi hquiet hs => hi.next hquiet hs) .start
  exact hinv.one c₁ row₁ c₂ row₂ e hrow₁ hrow₂ hreclaim₁ hreclaim₂

end Facts

/-! ### A reclaim that was sent -/

instance (db : ServerDb) (ev : AgentEvent) (msg : MessageId) : Decidable (Revives db ev msg) :=
  inferInstanceAs (Decidable ((_ ∨ _) ∧ _ ∧ _ ∧ _ ∧ _))

instance (s : State) (a : Action) : Decidable (Quiet s a) :=
  match a with
  | .session (.write (.applyEvent _ ev msg)) => inferInstanceAs (Decidable ¬ Revives s.db ev msg)
  | .session (.write (.markLost ..)) | .session (.write (.dispatchTimeout ..))
  | .session (.write (.repairOrphanedTask ..)) | .session (.write (.markTaskLost ..))
  | .session (.issue ..) | .session (.create ..) | .session (.cancel ..) | .session (.tick ..)
  | .session (.refresh ..) | .session (.append ..) | .session (.giveUp ..)
  | .session (.commit ..) | .session (.abort ..) | .session (.vanish ..)
  | .reconcile .. => isTrue trivial

def sampleSettings : AgentsSettings where
  heartbeatTimeoutSeconds := 60
  stalledAttemptSeconds := 600
  lostAfterStalledSeconds := 1800
  noProgressStallSeconds := 0
  noProgressSampleMaxAgeSeconds := 0
  autoStopOnNoProgress := false

/-- Execution 1 of task 7 runs, reports nothing for an hour and is declared lost. -/
def sampleStall : List Action :=
  ((Dispatch.sampleCreate [(1, 1)]).map .session) ++
    [.session (.write (.applyEvent 1 (Dispatch.sampleRunning 1) 0)),
      .reconcile sampleSettings .none 3600 (some 3590) 1
        { taskId := 7, agentId := 1, lastEventAt := some 1 }]

/-- A pass of the dispatcher sends the reclaim, and the agent says that it runs. -/
def sampleRevived : List Action :=
  sampleStall ++
    [.session (.tick 3601 [] [1]), .session (.refresh 1 3601), .session (.append 1 3601 true),
      .session (.commit 1 3601 .none),
      .session (.write (.applyEvent 3602 (Dispatch.sampleRunning 1) 1))]

theorem not_reclaimed_once : ¬ ∀ s, Run step State.start s → ∀ e c₁ c₂ row₁ row₂,
    s.db.outbox.get c₁ = some row₁ → s.db.outbox.get c₂ = some row₂ → IsReclaim e row₁ →
      IsReclaim e row₂ → c₁ = c₂ := by
  intro h
  obtain ⟨s, hrun, hs⟩ := RunOk.exists_of_checkedRun step (fun _ _ => True) State.start
    sampleRevived (fun s : State => decide (((s.db.outbox.get 1).any fun row =>
      decide (IsReclaim 1 row)) = true ∧ ((s.db.outbox.get 2).any fun row =>
        decide (IsReclaim 1 row)) = true)) (by decide +kernel)
  obtain ⟨h₁, h₂⟩ := of_decide_eq_true hs
  obtain ⟨row₁, hrow₁, hreclaim₁⟩ := (Option.any_eq_true _ _).mp h₁
  obtain ⟨row₂, hrow₂, hreclaim₂⟩ := (Option.any_eq_true _ _).mp h₂
  have heq : 1 = 2 := h s hrun 1 1 2 row₁ row₂ hrow₁ hrow₂ (of_decide_eq_true hreclaim₁)
    (of_decide_eq_true hreclaim₂)
  cases heq

theorem reclaimed_once_sample : ∃ s row, RunOk step Quiet State.start s ∧
    s.db.outbox.get 1 = some row ∧ IsReclaim 1 row ∧
      ∀ c row', s.db.outbox.get c = some row' → IsReclaim 1 row' → c = 1 := by
  obtain ⟨s, hrun, hs⟩ := RunOk.exists_of_checkedRun step Quiet State.start sampleStall
    (fun s : State => (s.db.outbox.get 1).any fun row => decide (IsReclaim 1 row))
    (by decide +kernel)
  obtain ⟨row, hrow, hreclaim⟩ := (Option.any_eq_true _ _).mp hs
  have hreclaim : IsReclaim 1 row := of_decide_eq_true hreclaim
  exact ⟨s, row, hrun, hrow, hreclaim, fun c row' hrow' hreclaim' =>
    reclaimed_once hrun hrow' hrow hreclaim' hreclaim⟩

end Reclaims

end Dopilot
