/-
Dopilot/Outbox.lean

How the command outbox grows.

Rows keep their command while sessions write what became of it, and no step of
the server drops one.  `Extends P` says that every row is an old one, in some
state, or a new one that satisfies `P`; `step_extends` says which commands each
step of the sessions may add, and `applyEvent_outbox` when an event adds one.
-/
import Dopilot.Sessions

namespace Dopilot

namespace Dispatch

/-- The rows of `db'` are those of `db`, in some state, and new ones that satisfy `P`. -/
structure Extends (P : CommandOutbox → Prop) (db db' : ServerDb) : Prop where
  source : ∀ c row', db'.outbox.get c = some row' →
    (∃ row, db.outbox.get c = some row ∧ SameCommand row row') ∨ (db.nextCommand ≤ c ∧ P row')
  keeps : ∀ c row, db.outbox.get c = some row →
    ∃ row', db'.outbox.get c = some row' ∧ SameCommand row row'
  fresh : (∀ c row, db.outbox.get c = some row → c < db.nextCommand) →
    ∀ c row, db'.outbox.get c = some row → c < db'.nextCommand

section Facts

variable {P Q : CommandOutbox → Prop} {db db' db'' : ServerDb} {s s' : State} {a : Action}

theorem Extends.of_adds (h : Adds P db db') : Extends P db db' where
  source c row' hrow' := (h.adds c row' hrow').imp_left fun hold => ⟨row', hold, .refl row'⟩
  keeps c row hrow := ⟨row, h.keeps c row hrow, .refl row⟩
  fresh := h.fresh

theorem Extends.of_outbox (h : db'.outbox = db.outbox) (hnext : db'.nextCommand = db.nextCommand) :
    Extends P db db' := .of_adds (.of_outbox h hnext)

theorem Extends.refl (db : ServerDb) : Extends P db db := .of_adds (.refl db)

theorem Extends.mono (h : Extends P db db') (hPQ : ∀ row, P row → Q row) : Extends Q db db' where
  source c row' hrow' := (h.source c row' hrow').imp_right fun hnew => ⟨hnew.1, hPQ row' hnew.2⟩
  keeps := h.keeps
  fresh := h.fresh

/-- Rows are written in place. -/
theorem Extends.of_map {f : CommandId → CommandOutbox → CommandOutbox}
    (h : ∀ c, db'.outbox.get c = (db.outbox.get c).map (f c))
    (hf : ∀ c row, SameCommand row (f c row)) (hnext : db'.nextCommand = db.nextCommand) :
    Extends P db db' where
  source c row' hrow' := by
    rw [h] at hrow'
    obtain ⟨row, hrow, rfl⟩ := Option.map_eq_some_iff.mp hrow'
    exact .inl ⟨row, hrow, hf c row⟩
  keeps c row hrow := ⟨f c row, by rw [h, hrow]; rfl, hf c row⟩
  fresh hfresh c row hrow := by
    rw [h] at hrow
    obtain ⟨row₀, hrow₀, -⟩ := Option.map_eq_some_iff.mp hrow
    rw [hnext]
    exact hfresh c row₀ hrow₀

/-- Rows are written in place, and new ones are added. -/
theorem Extends.trans_adds (h : Extends P db db') (h' : Adds P db' db'')
    (hnext : db'.nextCommand = db.nextCommand) : Extends P db db'' where
  source c row' hrow' := by
    rcases h'.adds c row' hrow' with hold | ⟨hc, hnew⟩
    · exact h.source c row' hold
    · exact .inr ⟨hnext ▸ hc, hnew⟩
  keeps c row hrow := by
    obtain ⟨row', hrow', hsame⟩ := h.keeps c row hrow
    exact ⟨row', h'.keeps c row' hrow', hsame⟩
  fresh hfresh := h'.fresh (h.fresh hfresh)

/-! ### Sessions -/

theorem applyWrites_extends (db : ServerDb) (ws : List Write) :
    Extends P db (applyWrites db ws) :=
  .of_map (fun _ => applyWrites_outbox) (fun c => mergeAll_same (rowWrites c ws))
    applyWrites_nextCommand

theorem commit_extends {x : Session} {now : Time} {held : HeldRows}
    (h : x.commit db now held = some db') : Extends P db db' := by
  unfold Session.commit at h
  split at h
  · split at h
    · split at h
      · obtain rfl := Option.some.inj h
        exact applyWrites_extends db x.writes
      · split at h
        · obtain rfl := Option.some.inj h
          exact (applyWrites_extends db x.writes).trans_adds (.of_outbox rfl rfl)
            applyWrites_nextCommand
        · cases h
    · obtain rfl := Option.some.inj h
      exact applyWrites_extends db x.writes
    · obtain rfl := Option.some.inj h
      exact applyWrites_extends db x.writes
  · cases h

/-- Canceled rows are rows still, and the stops of a cancel are new. -/
theorem requestCancel_extends (db : ServerDb) (now : Time) (t : TaskId) :
    Extends (fun row => row.type = .stop ∧ row.intent = some .cancel) db
      (db.requestCancel now t) := by
  have hstops : ∀ (l : List (ExecutionId × Execution)) (db : ServerDb),
      Adds (fun row => row.type = .stop ∧ row.intent = some .cancel) db
        (l.foldl (fun db r => db.createStopOutbox now .cancel t r.1 r.2.agentId) db) := by
    intro l
    induction l with
    | nil => exact fun db => .refl db
    | cons r l ih =>
        intro db
        have hadd : Adds (fun row => row.type = .stop ∧ row.intent = some .cancel) db
            (db.createStopOutbox now .cancel t r.1 r.2.agentId) := .of_addOutbox ⟨rfl, rfl⟩
        exact hadd.trans (ih _)
  show Extends _ db ((((db.cancelUnsentOutbox now t).listExecutions t).filter
    fun r => r.2.status.active).foldl
    (fun db r => db.createStopOutbox now .cancel t r.1 r.2.agentId)
    (db.cancelUnsentOutbox now t))
  refine Extends.trans_adds ?_ (hstops _ _) rfl
  refine .of_map (f := fun _ row => if row.taskId = t ∧ row.status.unresolved = true then
    { row with status := .canceled, updatedAt := now } else row)
    (fun c => Table.get_updateAll _ _ c) (fun c row => ?_) rfl
  split
  · exact ⟨rfl, rfl, rfl, rfl, rfl⟩
  · exact .refl row

/-! ### Events -/

/-- A reclaim of the execution. -/
def IsReclaim (e : ExecutionId) (row : CommandOutbox) : Prop :=
  row.executionId = e ∧ row.type = .stop ∧ row.intent = some .reclaim

instance (e : ExecutionId) (row : CommandOutbox) : Decidable (IsReclaim e row) := by
  unfold IsReclaim
  infer_instance

/-- Does the event request a reclaim, and is there none that holds it back? -/
def reclaims (db : ServerDb) (ev : AgentEvent) (msg : MessageId) : Bool :=
  (db.executions.get ev.executionId).any (fun x => x.status = .lost) &&
    match ev.type with
    | .heartbeat => !db.reclaimEverIssued ev.executionId
    | .accepted | .running =>
        (db.audits.get msg).isNone && !db.hasUnresolvedReclaim ev.executionId
    | .finished | .failed | .canceled | .lost => false

/-- Only a sign of life of a lost execution requests a reclaim. -/
theorem moveExecution_reclaim {x : Execution} {ev : AgentEvent} {new : ExecStatus} {now : Time}
    (h : ev.type.toExec = some new) :
    (ServerDb.moveExecution x ev new now).2 = .reclaimRequested ↔
      x.status = .lost ∧ ev.type.isTerminal = false := by
  unfold ServerDb.moveExecution
  by_cases heq : x.status = new
  · rw [if_pos heq]
    refine iff_of_false (by simp) fun ⟨hlost, hlive⟩ => ?_
    rw [hlost] at heq
    cases ht : ev.type with
    | heartbeat =>
        rw [ht] at h
        cases h
    | lost =>
        rw [ht] at hlive
        exact absurd hlive (by decide)
    | accepted | running | finished | failed | canceled =>
        rw [ht] at h
        rw [← Option.some.inj h] at heq
        cases heq
  · rw [if_neg heq]
    by_cases hover : x.status = .lost ∧ ev.type.isAuthoritativeTerminal = true
    · rw [if_pos hover]
      refine iff_of_false (by simp) fun ⟨_, hlive⟩ => ?_
      rw [AgentEventType.isTerminal_of_isAuthoritativeTerminal hover.2] at hlive
      cases hlive
    · rw [if_neg hover]
      by_cases hreclaim : x.status = .lost ∧ ¬ ev.type.isTerminal = true
      · rw [if_pos hreclaim]
        exact iff_of_true rfl ⟨hreclaim.1, by simpa using hreclaim.2⟩
      · rw [if_neg hreclaim]
        refine iff_of_false ?_ fun ⟨hlost, hlive⟩ => hreclaim ⟨hlost, by simpa using hlive⟩
        split
        · simp
        · split
          · simp
          · simp

/-- **What an event adds**: one reclaim, if it requests it. -/
theorem applyEvent_outbox (db : ServerDb) (now : Time) (ev : AgentEvent) (msg : MessageId) :
    (reclaims db ev msg = false ∧ (db.applyEvent now ev msg).1.outbox = db.outbox ∧
        (db.applyEvent now ev msg).1.nextCommand = db.nextCommand) ∨
      (reclaims db ev msg = true ∧ ∃ row, IsReclaim ev.executionId row ∧ row.status = .pending ∧
        (db.applyEvent now ev msg).1.outbox = db.outbox.insert db.nextCommand row ∧
        (db.applyEvent now ev msg).1.nextCommand = db.nextCommand + 1) := by
  rcases hx : db.executions.get ev.executionId with - | x
  · left
    unfold reclaims ServerDb.applyEvent
    rw [hx]
    refine ⟨rfl, ?_⟩
    rcases ev.type.toExec with - | new
    · exact ⟨rfl, rfl⟩
    · simp only
      split
      · exact ⟨rfl, rfl⟩
      · exact ⟨rfl, rfl⟩
  · rcases hnew : ev.type.toExec with - | new
    · -- a heartbeat
      have hbeat : ev.type = .heartbeat := by
        cases ht : ev.type <;> rw [ht] at hnew <;> first | rfl | cases hnew
      have happly : db.applyEvent now ev msg = db.applyHeartbeat now ev msg x := by
        unfold ServerDb.applyEvent
        rw [hnew]
        simp only [hx]
      have hreclaims : reclaims db ev msg =
          (decide (x.status = .lost) && !db.reclaimEverIssued ev.executionId) := by
        unfold reclaims
        rw [hx, hbeat]
        rfl
      rw [happly, hreclaims]
      unfold ServerDb.applyHeartbeat
      simp only
      by_cases hlost : x.status = .lost
      · rw [if_pos hlost]
        by_cases hissued : (db.updateExecution ev.executionId fun e =>
            heartbeatExecution e ev now).reclaimEverIssued ev.executionId = true
        · rw [if_pos hissued]
          have hissued : db.reclaimEverIssued ev.executionId = true := hissued
          exact .inl ⟨by simp [hissued], rfl, rfl⟩
        · rw [if_neg hissued]
          have hissued : db.reclaimEverIssued ev.executionId = false :=
            Bool.not_eq_true _ |>.mp hissued
          exact .inr ⟨by simp [hlost, hissued], _, ⟨rfl, rfl, rfl⟩, rfl, rfl, rfl⟩
      · rw [if_neg hlost]
        exact .inl ⟨by simp [hlost], rfl, rfl⟩
    · have hreclaims : reclaims db ev msg = (decide (x.status = .lost) && !ev.type.isTerminal &&
          ((db.audits.get msg).isNone && !db.hasUnresolvedReclaim ev.executionId)) := by
        unfold reclaims
        rw [hx]
        cases ht : ev.type with
        | heartbeat =>
            rw [ht] at hnew
            cases hnew
        | accepted | running => simp [AgentEventType.isTerminal]
        | finished | failed | canceled | lost => simp [AgentEventType.isTerminal]
      rw [hreclaims]
      by_cases hdup : (db.audits.get msg).isSome = true
      · left
        have hnone : (db.audits.get msg).isNone = false := by
          rw [Option.isNone_eq_false_iff]
          exact hdup
        unfold ServerDb.applyEvent
        rw [hnew]
        simp only
        rw [if_pos hdup, hnone]
        exact ⟨by simp, rfl, rfl⟩
      · have hnone : (db.audits.get msg).isNone = true := by
          rw [Option.isNone_iff_eq_none]
          exact Option.not_isSome_iff_eq_none.mp hdup
        have happly : db.applyEvent now ev msg = db.applyLifecycle now ev msg new x := by
          unfold ServerDb.applyEvent
          rw [hnew]
          simp only [hx]
          rw [if_neg hdup]
        rw [happly, hnone, Bool.true_and]
        unfold ServerDb.applyLifecycle ServerDb.requestReclaim
        simp only
        by_cases hmoved : (ServerDb.moveExecution x ev new now).2 = .reclaimRequested
        · obtain ⟨hlost, hlive⟩ := (moveExecution_reclaim hnew).mp hmoved
          rw [if_pos hmoved]
          by_cases hun : db.hasUnresolvedReclaim ev.executionId = true
          · rw [if_pos hun]
            exact .inl ⟨by simp [hun], rfl, rfl⟩
          · rw [if_neg hun]
            have hun : db.hasUnresolvedReclaim ev.executionId = false := by simpa using hun
            exact .inr ⟨by simp [hlost, hlive, hun], _, ⟨rfl, rfl, rfl⟩, rfl, rfl, rfl⟩
        · rw [if_neg hmoved]
          have hno : ¬ (x.status = .lost ∧ ev.type.isTerminal = false) := fun hc =>
            hmoved ((moveExecution_reclaim hnew).mpr hc)
          refine .inl ⟨?_, rfl, rfl⟩
          by_contra hc
          simp only [Bool.and_eq_false_iff, not_or, Bool.not_eq_false, decide_eq_true_eq,
            Bool.not_eq_true'] at hc
          exact hno ⟨hc.1.1, hc.1.2⟩

/-! ### The step -/

/-- The commands that a step of the sessions may add. -/
def Produces : Action → CommandOutbox → Prop
  | .write (.applyEvent _ ev _), row => IsReclaim ev.executionId row
  | .issue row', row => row = row'
  | .create .., row => row.type = .run
  | .cancel .., row => row.type = .stop ∧ row.intent = some .cancel
  | _, _ => False

theorem writer_outbox (db : ServerDb) {w : Writer}
    (hw : ∀ now ev msg, w ≠ .applyEvent now ev msg) :
    Adds (fun _ => False) db (w.apply db) := by
  cases w with
  | applyEvent now ev msg => exact absurd rfl (hw now ev msg)
  | markLost now held e reason => exact markLost_adds
  | dispatchTimeout now t e => exact .of_outbox rfl rfl
  | repairOrphanedTask now settings held t =>
      show Adds _ db (db.repairOrphanedTask settings held now t)
      rcases ServerDb.repairOrphanedTask_cases db settings held now t with h | ⟨task, f, -, -, h⟩
      · rw [h]
        exact .refl db
      · rw [h]
        exact .of_outbox rfl rfl
  | markTaskLost now t =>
      show Adds _ db (db.markTaskLost now t)
      unfold ServerDb.markTaskLost
      split
      · exact .refl db
      · split
        · exact .refl db
        · exact (markExecutionsLost_adds _).trans (.of_outbox rfl rfl)

/-- **The step.** -/
theorem step_extends (h : step s a = some s') : Extends (Produces a) s.db s'.db := by
  have hother : ∀ w : Writer, (∀ now ev msg, w ≠ .applyEvent now ev msg) →
      Extends (Produces (.write w)) s.db (w.apply s.db) := fun w hw =>
    .of_adds ((writer_outbox s.db hw).mono fun _ hc => hc.elim)
  cases step_cases h with
  | @write w _ =>
      cases w with
      | applyEvent now ev msg =>
          refine .of_adds ?_
          rcases applyEvent_outbox s.db now ev msg with
            ⟨-, houtbox, hnext⟩ | ⟨-, row, hrow, -, houtbox, hnext⟩
          · exact .of_outbox houtbox hnext
          · exact .of_insert hrow houtbox hnext
      | markLost now held e reason => exact hother _ (by simp)
      | dispatchTimeout now t e => exact hother _ (by simp)
      | repairOrphanedTask now settings held t => exact hother _ (by simp)
      | markTaskLost now t => exact hother _ (by simp)
  | issue _ _ _ => exact .of_adds (.of_addOutbox rfl)
  | @noTarget now t task taskType payload _ => exact .of_outbox rfl rfl
  | @create now t task taskType payload nodes last htask hnew hnodup _ =>
      obtain ⟨hadds, -⟩ := createTask_spec s.db now t task taskType payload htask hnew hnodup
      exact .of_adds (hadds.mono fun row hrow => hrow.1)
  | @cancel now t => exact requestCancel_extends s.db now t
  | tick _ _ _ _ _ => exact .refl s.db
  | refresh _ _ => exact .refl s.db
  | sent _ _ _ => exact .refl s.db
  | raised _ _ => exact .refl s.db
  | giveUp _ _ => exact .refl s.db
  | commit _ hcommit => exact commit_extends hcommit
  | abort => exact .refl s.db
  | vanish => exact .refl s.db

end Facts

end Dispatch

end Dopilot
