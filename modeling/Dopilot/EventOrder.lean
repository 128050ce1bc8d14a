/-
Dopilot/EventOrder.lean

Events may arrive in any order and any number of times.

Agents replay their event outbox, so the server sees each event at least once
and in no particular order.  What it makes of them does not depend on that: as
long as no execution has two kinds of hard terminal, the status of an execution
is settled by the set of events it had (`settledStatus`), and the status of the
task by the statuses of its executions (`settledTask`).

`settledStatus_append` is the step on one execution and `rollTask_settled` the
step on the task; `settled_in_any_order` follows by induction on the
deliveries.
-/
import Dopilot.Events

namespace Dopilot

/-! ### What events settle -/

/-- The types of the events of one execution. -/
def typesOf (events : List AgentEvent) (e : ExecutionId) : List AgentEventType :=
  (events.filter fun ev => ev.executionId = e).map (·.type)

/-- The status that a set of events settles, if at most one kind of hard
terminal is among them: that terminal, else `lost`, else `running`. -/
def settledStatus (types : List AgentEventType) : ExecStatus :=
  if .finished ∈ types then .finished
  else if .failed ∈ types then .failed
  else if .canceled ∈ types then .canceled
  else if .lost ∈ types then .lost
  else if .running ∈ types then .running
  else .pending

/-- The status of a task whose executions have settled so far: the roll-up once
all are terminal, `running` once one has left `pending`. -/
def settledTask (statuses : List ExecStatus) : TaskStatus :=
  match rollupTaskStatus statuses with
  | some rolled => rolled
  | none => if statuses.any (· != .pending) then .running else .queued

/-- At most one kind of hard terminal. -/
def OneTerminal (types : List AgentEventType) : Prop :=
  ∀ a ∈ types, ∀ b ∈ types, a.isAuthoritativeTerminal → b.isAuthoritativeTerminal → a = b

/-- One entry of the event stream, and when it is applied. -/
structure Delivery where
  msg : MessageId
  event : AgentEvent
  now : Time

/-- The deliveries carry these events, each at least once and no others. -/
def Delivers (events : List AgentEvent) (ds : List Delivery) : Prop :=
  ∀ ev, ev ∈ events ↔ ∃ d ∈ ds, d.event = ev

namespace ServerDb

/-- The consumer applies the deliveries one after the other. -/
def applyEvents (db : ServerDb) (ds : List Delivery) : ServerDb :=
  ds.foldl (fun db d => (db.applyEvent d.now d.event d.msg).1) db

/-- A task as it is created. -/
structure Created (db : ServerDb) (t : TaskId) : Prop where
  queued : db.taskStatus t = some .queued
  pending : ∀ e s, db.execStatus e = some (t, s) → s = .pending

end ServerDb

/-! ### One execution -/

section Types

variable {types types' : List AgentEventType}

theorem settledStatus_congr (h : ∀ ty, ty ∈ types ↔ ty ∈ types') :
    settledStatus types = settledStatus types' := by
  unfold settledStatus
  simp only [h]

theorem OneTerminal.not_mem (hone : OneTerminal types) {a b : AgentEventType} (ha : a ∈ types)
    (hta : a.isAuthoritativeTerminal = true) (htb : b.isAuthoritativeTerminal = true)
    (hne : a ≠ b) : b ∉ types := by
  intro hb
  exact hne (hone a ha b hb hta htb)

theorem OneTerminal.mono (hone : OneTerminal types) (h : ∀ ty ∈ types', ty ∈ types) :
    OneTerminal types' := by
  intro a ha b hb
  exact hone a (h a ha) b (h b hb)

/-- One more event moves the settled status along the transition table. -/
theorem settledStatus_append {ty : AgentEventType} (hone : OneTerminal (types ++ [ty])) :
    settledStatus (types ++ [ty]) = nextExecStatus (settledStatus types) ty := by
  have hlast : ty ∈ types ++ [ty] := List.mem_append_right _ (List.mem_singleton.mpr rfl)
  -- a hard terminal is the only one
  have hother : ∀ b, ty.isAuthoritativeTerminal = true → b.isAuthoritativeTerminal = true →
      ty ≠ b → b ∉ types := by
    intro b hty hb hne hmem
    exact hone.not_mem hlast hty hb hne (List.mem_append_left _ hmem)
  unfold settledStatus
  simp only [List.mem_append, List.mem_singleton]
  cases ty with
  | finished =>
      have h₁ := hother .failed rfl rfl (by simp)
      have h₂ := hother .canceled rfl rfl (by simp)
      simp only [h₁, h₂, or_true, if_true, if_false]
      split_ifs <;> rfl
  | failed =>
      have h₁ := hother .finished rfl rfl (by simp)
      have h₂ := hother .canceled rfl rfl (by simp)
      simp only [h₁, h₂, reduceCtorEq, or_true, or_false, if_true, if_false]
      split_ifs <;> rfl
  | canceled =>
      have h₁ := hother .finished rfl rfl (by simp)
      have h₂ := hother .failed rfl rfl (by simp)
      simp only [h₁, h₂, reduceCtorEq, or_true, or_false, if_true, if_false]
      split_ifs <;> rfl
  | lost =>
      simp only [reduceCtorEq, or_true, or_false, if_true]
      split_ifs <;> rfl
  | running =>
      simp only [reduceCtorEq, or_true, or_false, if_true]
      split_ifs <;> rfl
  | accepted =>
      simp only [reduceCtorEq, or_false]
      split_ifs <;> rfl
  | heartbeat =>
      simp only [reduceCtorEq, or_false]
      split_ifs <;> rfl

end Types

/-! ### The task -/

section Task

variable {l l' : List ExecStatus}

theorem settledTask_congr (h : ∀ s, s ∈ l ↔ s ∈ l') : settledTask l = settledTask l' := by
  have hany : l.any (· != .pending) = l'.any (· != .pending) := by
    rw [Bool.eq_iff_iff]
    simp only [List.any_eq_true, h]
  unfold settledTask
  rw [rollup_congr h, hany]

theorem convergeTask_settled {task : Task} {executions : List Execution} {now : Time}
    (hl' : executions.map (·.status) = l')
    (hold : task.status = .queued ∨ task.status = .running ∧ l'.any (· != .pending)) :
    (convergeTask task executions now).status =
      if l'.any (· != .pending) then .running else .queued := by
  have hany : l'.any (· != .pending) = true ↔ ∃ e ∈ executions, e.status ≠ .pending := by
    rw [← hl', List.any_map, List.any_eq_true]
    simp
  rcases hold with hq | ⟨hr, hstarted⟩
  · rcases convergeTask_status task executions now with h | ⟨-, h, hstarted⟩
    · rw [if_neg]
      · exact h.trans hq
      · intro hsome
        obtain ⟨e, he, hne⟩ := hany.mp hsome
        exact hne (convergeTask_queued (h.trans hq) e he)
    · rw [if_pos (hany.mpr hstarted)]
      exact h
  · rw [if_pos hstarted]
    rcases convergeTask_status task executions now with h | ⟨-, h, -⟩
    · exact h.trans hr
    · exact h

/-- **A task that was settled before its executions advanced is settled again.** -/
theorem rollTask_settled {task : Task} {executions : List Execution} {now : Time}
    (hl' : executions.map (·.status) = l') (h : Forward l l')
    (hold : task.status = settledTask l) :
    (rollTask task executions now).status = settledTask l' := by
  rw [rollTask_status, hl']
  unfold settledTask at hold
  rcases hrolled : rollupTaskStatus l with - | t
  · rw [hrolled] at hold
    -- an execution that has started has started for good
    have hstarted : l.any (· != .pending) = true → l'.any (· != .pending) = true := by
      rw [List.any_eq_true, List.any_eq_true]
      rintro ⟨s, hs, hne⟩
      obtain ⟨s', hs', hadv⟩ := h.target s hs
      exact ⟨s', hs', bne_iff_ne.mpr (hadv.started (bne_iff_ne.mp hne))⟩
    have hconv : (convergeTask task executions now).status =
        if l'.any (· != .pending) then .running else .queued := convergeTask_settled hl' (by
      by_cases hany : l.any (· != .pending) = true
      · rw [hold]
        simp only [hany, if_true]
        exact .inr ⟨trivial, hstarted hany⟩
      · left
        rw [hold]
        simp only [hany]
        rfl)
    simp only [hconv, settledTask]
    rcases hrolled' : rollupTaskStatus l' with - | t'
    · rfl
    · -- all are terminal, so the task has left `queued`
      obtain ⟨hne, hall⟩ := rollup_isSome_iff.mp ⟨t', hrolled'⟩
      have hany : l'.any (· != .pending) = true := by
        obtain ⟨s, hs⟩ := List.exists_mem_of_ne_nil l' hne
        refine List.any_eq_true.mpr ⟨s, hs, bne_iff_ne.mpr ?_⟩
        rintro rfl
        have hterm := hall _ hs
        cases hterm
      simp only [hany, if_true]
      rw [if_pos]
      refine ⟨?_, .inl rfl, rollup_reachable hrolled' (.inl rfl)⟩
      rintro rfl
      have hterm := (rollup_terminal hrolled').1
      cases hterm
  · rw [hrolled] at hold
    obtain ⟨hterm, -⟩ := rollup_terminal hrolled
    obtain ⟨t', ht', hadv⟩ := h.rollup_advances hrolled
    have hconv : (convergeTask task executions now).status = t := by
      rcases convergeTask_status task executions now with h | ⟨h, -, -⟩
      · exact h.trans hold
      · rw [hold] at h
        rw [show t = .queued from h] at hterm
        cases hterm
    simp only [hconv, settledTask, ht']
    rcases TaskStatus.hard_or_lost hterm with hhard | rfl
    · rw [hadv.hard hhard, ite_self]
    · by_cases heq : t' = .lost
      · rw [heq, ite_self]
      · rw [if_pos ⟨heq, .inr rfl, rollup_reachable ht' (.inr (.inr rfl))⟩]

end Task

/-! ### All deliveries -/

section Deliveries

variable {db : ServerDb} {t : TaskId} {events : List AgentEvent} {ds : List Delivery}

theorem typesOf_append (evs : List AgentEvent) (ev : AgentEvent) (e : ExecutionId) :
    typesOf (evs ++ [ev]) e =
      if ev.executionId = e then typesOf evs e ++ [ev.type] else typesOf evs e := by
  unfold typesOf
  rw [List.filter_append, List.map_append]
  by_cases h : ev.executionId = e
  · rw [if_pos h, List.filter_cons_of_pos (by simpa using h)]
    rfl
  · rw [if_neg h, List.filter_cons_of_neg (by simpa using h)]
    exact List.append_nil _

theorem mem_typesOf {e : ExecutionId} {ty : AgentEventType} :
    ty ∈ typesOf events e ↔ ∃ ev ∈ events, ev.executionId = e ∧ ev.type = ty := by
  unfold typesOf
  simp only [List.mem_map, List.mem_filter, decide_eq_true_eq, and_assoc]

theorem oneTerminal_typesOf
    (h : ∀ a ∈ events, ∀ b ∈ events, a.executionId = b.executionId →
      a.type.isAuthoritativeTerminal → b.type.isAuthoritativeTerminal → a.type = b.type)
    (e : ExecutionId) : OneTerminal (typesOf events e) := by
  intro a ha b hb
  obtain ⟨ev, hev, he, rfl⟩ := mem_typesOf.mp ha
  obtain ⟨ev', hev', he', rfl⟩ := mem_typesOf.mp hb
  exact h ev hev ev' hev' (he.trans he'.symm)

/-- What holds of a task when some of its deliveries have been applied. -/
structure Settled (t : TaskId) (seen : List Delivery) (db : ServerDb) : Prop where
  status : ∀ e s, db.execStatus e = some (t, s) →
    s = settledStatus (typesOf (seen.map (·.event)) e)
  task : db.taskStatus t = some (settledTask (db.statuses t))

theorem typesOf_seen {seen : List Delivery} {d : Delivery} {e : ExecutionId} :
    typesOf ((seen ++ [d]).map (·.event)) e =
      if d.event.executionId = e then typesOf (seen.map (·.event)) e ++ [d.event.type]
      else typesOf (seen.map (·.event)) e := by
  rw [List.map_append]
  exact typesOf_append _ _ _

theorem Settled.created (h : db.Created t) : Settled t [] db where
  status := fun e s hs => h.pending e s hs
  task := by
    rw [h.queued]
    have hpending : ∀ s ∈ db.statuses t, s = .pending := by
      intro s hs
      obtain ⟨e, he⟩ := ServerDb.mem_statuses_iff.mp hs
      exact h.pending e s he
    have hnone : rollupTaskStatus (db.statuses t) = none := by
      rw [rollup_eq_none_iff]
      rcases hl : db.statuses t with - | ⟨s, l⟩
      · exact .inl rfl
      · refine .inr ⟨s, List.mem_cons_self, ?_⟩
        rw [hpending s (by rw [hl]; exact List.mem_cons_self)]
        rfl
    have hany : ¬ (db.statuses t).any (· != .pending) = true := by
      rw [List.any_eq_true]
      rintro ⟨s, hs, hne⟩
      exact bne_iff_ne.mp hne (hpending s hs)
    unfold settledTask
    rw [hnone]
    simp only [if_neg hany]

theorem applyEvent_dup {now : Time} {ev : AgentEvent} {msg : MessageId}
    (hlife : ev.type ≠ .heartbeat) (hdup : db.audits.get msg ≠ none) :
    (db.applyEvent now ev msg).1 = db := by
  unfold ServerDb.applyEvent
  rcases htype : ev.type.toExec with - | new
  · cases hev : ev.type <;> rw [hev] at htype hlife
    case heartbeat => exact absurd rfl hlife
    all_goals cases htype
  · simp only [if_pos (Option.isSome_iff_ne_none.mpr hdup)]

/-- A delivery that repeats an applied one settles nothing else. -/
theorem Settled.again {seen : List Delivery} {d d' : Delivery} (h : Settled t seen db)
    (hd' : d' ∈ seen) (hev : d'.event = d.event) : Settled t (seen ++ [d]) db where
  task := h.task
  status := by
    intro e s hs
    rw [h.status e s hs]
    apply settledStatus_congr
    intro ty
    rw [mem_typesOf, mem_typesOf, List.map_append]
    constructor
    · rintro ⟨ev, hmem, hty⟩
      exact ⟨ev, List.mem_append_left _ hmem, hty⟩
    · rintro ⟨ev, hmem, hty⟩
      rcases List.mem_append.mp hmem with hmem | hmem
      · exact ⟨ev, hmem, hty⟩
      · obtain rfl : ev = d.event := List.mem_singleton.mp hmem
        rw [← hev] at hty
        exact ⟨d'.event, List.mem_map.mpr ⟨d', hd', rfl⟩, hty⟩

/-- **The step**: a delivery that is new, or that repeats an applied one. -/
theorem Settled.step {seen : List Delivery} {d : Delivery} (h : Settled t seen db)
    (hone : ∀ e, OneTerminal (typesOf ((seen ++ [d]).map (·.event)) e))
    (hlife : d.event.type ≠ .heartbeat)
    (hdup : db.audits.get d.msg ≠ none → ∃ d' ∈ seen, d'.event = d.event) :
    Settled t (seen ++ [d]) (db.applyEvent d.now d.event d.msg).1 := by
  by_cases hnew : db.audits.get d.msg = none
  · have hstatus : ∀ e s, (db.applyEvent d.now d.event d.msg).1.execStatus e = some (t, s) →
        s = settledStatus (typesOf ((seen ++ [d]).map (·.event)) e) := by
      intro e s hs
      rw [ServerDb.applyEvent_execStatus, Option.map_eq_some_iff] at hs
      obtain ⟨⟨t', s₀⟩, hs₀, heq⟩ := hs
      obtain ⟨rfl, rfl⟩ := Prod.mk.inj heq
      have hold := h.status e s₀ hs₀
      have hone := hone e
      rw [typesOf_seen] at hone ⊢
      by_cases he : d.event.executionId = e
      · rw [if_pos he] at hone ⊢
        rw [if_pos ⟨he.symm, hnew⟩, settledStatus_append hone, hold]
      · rw [if_neg he, if_neg fun hc => he hc.1.symm]
        exact hold
    refine ⟨hstatus, ?_⟩
    have hforward := (ServerDb.applyEvent_onward db d.now d.event d.msg).forward t
    rcases ServerDb.applyEvent_tasks db d.now d.event d.msg with
      ⟨htasks, hsame⟩ | ⟨x, hx, -, htasks⟩
    · unfold ServerDb.taskStatus
      rw [htasks]
      refine h.task.trans (congrArg some (settledTask_congr fun s => ?_))
      rw [ServerDb.mem_statuses_iff, ServerDb.mem_statuses_iff]
      simp only [hsame]
    · unfold ServerDb.taskStatus
      rw [htasks, Table.get_modify]
      by_cases hxt : t = x.taskId
      · subst hxt
        rw [if_pos rfl, Option.map_map]
        obtain ⟨task, htask, hold⟩ := Option.map_eq_some_iff.mp h.task
        rw [htask]
        refine congrArg some ?_
        exact rollTask_settled List.map_map hforward hold
      · rw [if_neg hxt]
        refine h.task.trans (congrArg some (settledTask_congr fun s => ?_))
        rw [ServerDb.mem_statuses_iff, ServerDb.mem_statuses_iff]
        -- the execution of the event belongs to another task
        have hkeep : ∀ e s, db.execStatus e = some (t, s) →
            (db.applyEvent d.now d.event d.msg).1.execStatus e = some (t, s) := by
          intro e s hs
          have hne : ¬ (e = d.event.executionId ∧ db.audits.get d.msg = none) := by
            rintro ⟨rfl, -⟩
            unfold ServerDb.execStatus at hs
            rw [hx] at hs
            exact hxt (congrArg Prod.fst (Option.some.inj hs)).symm
          rw [ServerDb.applyEvent_execStatus, hs, Option.map_some, if_neg hne]
        apply exists_congr
        intro e
        refine ⟨hkeep e s, fun hs => ?_⟩
        obtain ⟨s₀, hs₀, -⟩ := (ServerDb.applyEvent_onward db _ _ _).source hs
        have hsame := hkeep e s₀ hs₀
        rw [hs] at hsame
        rw [hs₀, hsame]
  · obtain ⟨d', hd', hev⟩ := hdup hnew
    rw [applyEvent_dup hlife hnew]
    exact h.again hd' hev

/-- An event leaves an audit under its own message only. -/
theorem applyEvent_audits {now : Time} {ev : AgentEvent} {msg m : MessageId} (hne : m ≠ msg)
    (h : (db.applyEvent now ev msg).1.audits.get m ≠ none) : db.audits.get m ≠ none := by
  have haudit : ∀ (db : ServerDb) (outcome : EventOutcome),
      (db.audit msg ev outcome).audits.get m ≠ none → db.audits.get m ≠ none := by
    intro db outcome h hnone
    apply h
    show (db.audits.insert msg _).get m = none
    rcases hmsg : db.audits.get msg with - | row
    · rw [Table.get_insert _ _ hmsg, if_neg hne]
      exact hnone
    · have hmem : msg ∈ db.audits.rows.map Prod.fst := Table.mem_keys_iff.mpr ⟨row, hmsg⟩
      rw [Table.insert, dif_pos hmem]
      exact hnone
  revert h
  unfold ServerDb.applyEvent
  rcases ev.type.toExec with - | new
  · rcases db.executions.get ev.executionId with - | x
    · exact id
    · show (db.applyHeartbeat now ev msg x).1.audits.get m ≠ none → _
      unfold ServerDb.applyHeartbeat
      simp only
      split
      · split
        · exact id
        · exact haudit _ _
      · exact id
  · simp only
    split
    · exact id
    · rcases db.executions.get ev.executionId with - | x
      · exact haudit db _
      · show (db.applyLifecycle now ev msg new x).1.audits.get m ≠ none → _
        unfold ServerDb.applyLifecycle ServerDb.requestReclaim
        simp only
        intro h
        have h' := haudit _ _ h
        revert h'
        split
        · split
          · exact id
          · exact id
        · exact id

/-- **The run**: the deliveries settle the task, whatever their order. -/
theorem Settled.run {seen : List Delivery} (h : Settled t seen db)
    (hone : ∀ e, OneTerminal (typesOf ((seen ++ ds).map (·.event)) e))
    (hlife : ∀ d ∈ ds, d.event.type ≠ .heartbeat)
    (hids : ∀ d ∈ seen ++ ds, ∀ d' ∈ seen ++ ds, d.msg = d'.msg → d.event = d'.event)
    (haudits : ∀ d ∈ ds, db.audits.get d.msg ≠ none → ∃ d' ∈ seen, d'.msg = d.msg) :
    Settled t (seen ++ ds) (db.applyEvents ds) := by
  induction ds generalizing seen db with
  | nil =>
      rw [List.append_nil]
      exact h
  | cons d ds ih =>
      have hassoc : seen ++ d :: ds = (seen ++ [d]) ++ ds := by simp
      have hd : d ∈ seen ++ d :: ds := List.mem_append_right _ List.mem_cons_self
      rw [hassoc] at hone hids ⊢
      have hstep : Settled t (seen ++ [d]) (db.applyEvent d.now d.event d.msg).1 := by
        apply h.step
        · intro e
          apply (hone e).mono
          intro ty hty
          rw [mem_typesOf] at hty ⊢
          obtain ⟨ev, hev, hty⟩ := hty
          rw [List.map_append]
          exact ⟨ev, List.mem_append_left _ hev, hty⟩
        · exact hlife d List.mem_cons_self
        · intro haudit
          obtain ⟨d', hd', hmsg⟩ := haudits d List.mem_cons_self haudit
          exact ⟨d', hd', hids d' (by simp [hd']) d (by simp) hmsg⟩
      apply ih hstep hone
      · intro d' hd'
        exact hlife d' (List.mem_cons_of_mem _ hd')
      · exact hids
      · intro d' hd' haudit
        by_cases hmsg : d'.msg = d.msg
        · exact ⟨d, by simp, hmsg.symm⟩
        · obtain ⟨d'', hd'', hmsg'⟩ := haudits d' (List.mem_cons_of_mem _ hd')
            (applyEvent_audits hmsg haudit)
          exact ⟨d'', List.mem_append_left _ hd'', hmsg'⟩

theorem applyEvents_onward (db : ServerDb) (ds : List Delivery) :
    db.Onward (db.applyEvents ds) := by
  induction ds generalizing db with
  | nil => exact .refl db
  | cons d ds ih => exact (ServerDb.applyEvent_onward db _ _ _).trans (ih _)

/-- **Order independence.**  Let a new task get a set of events in which no
execution has two kinds of hard terminal.  Whatever the order in which they are
delivered, and however often each is, under its own message id or a new one,
every execution ends in the status its events settle and the task in the one
these settle. -/
theorem settled_in_any_order (hnew : db.Created t)
    (haudits : ∀ d ∈ ds, db.audits.get d.msg = none)
    (hids : ∀ d ∈ ds, ∀ d' ∈ ds, d.msg = d'.msg → d.event = d'.event)
    (hlife : ∀ ev ∈ events, ev.type ≠ .heartbeat)
    (hone : ∀ e, OneTerminal (typesOf events e)) (hds : Delivers events ds) :
    (∀ e s, db.execStatus e = some (t, s) →
        (db.applyEvents ds).execStatus e = some (t, settledStatus (typesOf events e))) ∧
      (db.applyEvents ds).taskStatus t = some
        (settledTask ((db.listExecutions t).map fun r => settledStatus (typesOf events r.1))) := by
  have htypes : ∀ e ty, ty ∈ typesOf (ds.map (·.event)) e ↔ ty ∈ typesOf events e := by
    intro e ty
    rw [mem_typesOf, mem_typesOf]
    simp only [hds _, List.mem_map]
  have hsettled : Settled t ([] ++ ds) (db.applyEvents ds) := by
    apply (Settled.created hnew).run
    · intro e
      exact (hone e).mono fun ty hty => (htypes e ty).mp hty
    · intro d hd
      exact hlife d.event ((hds _).mpr ⟨d, hd, rfl⟩)
    · exact hids
    · intro d hd haudit
      exact absurd (haudits d hd) haudit
  rw [List.nil_append] at hsettled
  have hstatus : ∀ e s, db.execStatus e = some (t, s) →
      (db.applyEvents ds).execStatus e = some (t, settledStatus (typesOf events e)) := by
    intro e s hs
    obtain ⟨s', hs', -⟩ := (applyEvents_onward db ds).target hs
    rw [hs', hsettled.status e s' hs', settledStatus_congr (htypes e)]
  refine ⟨hstatus, hsettled.task.trans (congrArg some (settledTask_congr fun s => ?_))⟩
  rw [ServerDb.mem_statuses_iff, List.mem_map]
  constructor
  · rintro ⟨e, he⟩
    obtain ⟨s₀, hs₀, -⟩ := (applyEvents_onward db ds).source he
    obtain ⟨x, hx, hview⟩ := Option.map_eq_some_iff.mp hs₀
    refine ⟨(e, x), ServerDb.mem_listExecutions.mpr ⟨hx, congrArg Prod.fst hview⟩, ?_⟩
    rw [hstatus e s₀ hs₀] at he
    exact congrArg Prod.snd (Option.some.inj he)
  · rintro ⟨⟨e, x⟩, hmem, rfl⟩
    obtain ⟨hx, ht⟩ := ServerDb.mem_listExecutions.mp hmem
    refine ⟨e, hstatus e x.status ?_⟩
    unfold ServerDb.execStatus
    rw [hx]
    exact congrArg some (Prod.ext ht rfl)

end Deliveries

/-! ### A replayed outbox -/

section Sample

def sampleEvent (n : Nat) (e : ExecutionId) (type : AgentEventType) : AgentEvent where
  eventId := n
  agentId := 1
  taskId := 7
  executionId := e
  type := type

/-- Execution 1 was declared lost before it finished; execution 2 stays lost. -/
def sampleEvents : List AgentEvent :=
  [sampleEvent 0 1 .accepted, sampleEvent 1 1 .running, sampleEvent 2 1 .lost,
    sampleEvent 3 1 .finished, sampleEvent 4 2 .running, sampleEvent 5 2 .lost]

/-- The terminal comes first, and twice under one id and once under another. -/
def sampleDeliveries : List Delivery :=
  [⟨10, sampleEvent 3 1 .finished, 0⟩, ⟨11, sampleEvent 5 2 .lost, 1⟩,
    ⟨10, sampleEvent 3 1 .finished, 2⟩, ⟨12, sampleEvent 2 1 .lost, 3⟩,
    ⟨13, sampleEvent 1 1 .running, 4⟩, ⟨14, sampleEvent 0 1 .accepted, 5⟩,
    ⟨15, sampleEvent 3 1 .finished, 6⟩, ⟨16, sampleEvent 4 2 .running, 7⟩]

/-- Task 7 with its executions 1 and 2, as created. -/
def sampleDb : ServerDb :=
  { ServerDb.empty with
    tasks := ServerDb.empty.tasks.insert 7 {}
    executions := (ServerDb.empty.executions.insert 1 { taskId := 7, agentId := 1 }).insert 2
      { taskId := 7, agentId := 1 } }

theorem sampleDb_created : sampleDb.Created 7 where
  queued := by decide
  pending := by
    intro e s hs
    have hall : ∀ s ∈ sampleDb.statuses 7, s = .pending := by decide
    exact hall s (ServerDb.mem_statuses_iff.mpr ⟨e, hs⟩)

theorem settled_in_any_order_sample :
    (sampleDb.applyEvents sampleDeliveries).execStatus 1 = some (7, .finished) ∧
      (sampleDb.applyEvents sampleDeliveries).taskStatus 7 = some .lost := by
  have hdelivers : Delivers sampleEvents sampleDeliveries := by
    intro ev
    simp only [sampleEvents, sampleDeliveries, List.mem_cons, List.not_mem_nil, or_false,
      exists_eq_or_imp, exists_eq_left]
    tauto
  have hsettled := settled_in_any_order sampleDb_created (by decide) (by decide) (by decide)
    (fun e => oneTerminal_typesOf (by decide) e) hdelivers
  exact ⟨hsettled.1 1 .pending (by decide), hsettled.2⟩

end Sample

end Dopilot
