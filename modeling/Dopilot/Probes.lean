/-
Dopilot/Probes.lean

A half-open breaker is committed with its probe.

The gate changes the schedule's row in the session only, and the row stays
locked until the executor's first commit, which also writes the task.  Other
sessions may commit whatever else they like between any two operations of the
firing.  `Gated` is what holds from the gate to that commit and `Settled` what
holds at every other point; `probe_atomic` is what they come to for a firing,
however it ends.
-/
import Dopilot.Firing
import Dopilot.Origins

namespace Dopilot

open FiringOp (call)

namespace Firing

/-! ### Other sessions -/

/-- What other sessions may do: they write the tables, but no row that is locked. -/
structure Rely (w w' : FiringWorld) : Prop where
  locked : w'.locked = w.locked
  row : w'.row = w.row
  delivery : w'.delivery = w.delivery
  commits : w'.commits = w.commits
  schedule : ∀ sid, w.locked = some sid →
    w'.tables.schedules.get sid = w.tables.schedules.get sid

theorem Rely.refl (w : FiringWorld) : Rely w w := ⟨rfl, rfl, rfl, rfl, fun _ _ => rfl⟩

theorem Rely.trans {w₁ w₂ w₃ : FiringWorld} (h : Rely w₁ w₂) (h' : Rely w₂ w₃) : Rely w₁ w₃ where
  locked := h'.locked.trans h.locked
  row := h'.row.trans h.row
  delivery := h'.delivery.trans h.delivery
  commits := h'.commits.trans h.commits
  schedule sid hsid := (h'.schedule sid (h.locked.trans hsid)).trans (h.schedule sid hsid)

/-- What the firing promises: the tables are written by its commits only. -/
def Guar (w w' : FiringWorld) : Prop :=
  w'.tables = w.tables ∨ w'.commits = w.commits ++ [⟨w.tables, w'.tables⟩]

/-- The firing among other sessions. -/
def contract : Prog.Contract FiringOp (fun _ => FiringAnswer) FiringWorld where
  ok _ _ _ := True
  rely := Rely
  guar := Guar
  rely_trans := Rely.trans

/-- Run among other sessions, a firing keeps its promise and ends in `Q`. -/
abbrev Ends {α : Type} (p : FiringProg α) (Q : Except FiringError α → FiringWorld → Prop)
    (w : FiringWorld) : Prop :=
  p.Safe { perform := FiringOp.perform } contract Q w

/-! ### Commits -/

/-- **A commit of a firing of `sid`.**  The row of the schedule is what it was,
or the commit has a new task of the row's generation, the row being half-open. -/
def Atomic (sid : ScheduleId) (c : FiringCommit) : Prop :=
  c.after.schedules.get sid = c.before.schedules.get sid ∨
    ∃ s t task, c.after.schedules.get sid = some s ∧ s.breakerState = .halfOpen ∧
      c.before.db.tasks.get t = none ∧ c.after.db.tasks.get t = some task ∧
      task.scheduleId = some sid ∧ task.scheduleGeneration = some s.outcomeGeneration

/-- Nothing of the row is waiting for a commit, and the commits so far are atomic. -/
structure Settled (sid : ScheduleId) (w : FiringWorld) : Prop where
  atomic : ∀ c ∈ w.commits, Atomic sid c
  row : w.row = none

/-- The gate has admitted the firing with the row `s`. -/
structure Gated (sid : ScheduleId) (s : Schedule) (w : FiringWorld) : Prop where
  atomic : ∀ c ∈ w.commits, Atomic sid c
  locked : w.locked = some sid
  row : (w.row = none ∧ w.tables.schedules.get sid = some s) ∨
    (w.row = some s ∧ s.breakerState = .halfOpen ∧ (w.tables.schedules.get sid).isSome)

section Rules

variable {sid : ScheduleId} {s : Schedule} {w w' : FiringWorld} {α β : Type}

theorem Settled.rely (h : Settled sid w) (hrely : Rely w w') : Settled sid w' where
  atomic := by
    rw [hrely.commits]
    exact h.atomic
  row := hrely.row.trans h.row

theorem Gated.rely (h : Gated sid s w) (hrely : Rely w w') : Gated sid s w' where
  atomic := by
    rw [hrely.commits]
    exact h.atomic
  locked := hrely.locked.trans h.locked
  row := by
    rw [hrely.row, hrely.schedule sid h.locked]
    exact h.row

/-! ### Rules -/

theorem ends_bind {p : FiringProg α} {f : α → FiringProg β}
    {P : Except FiringError α → FiringWorld → Prop}
    {Q : Except FiringError β → FiringWorld → Prop} (hp : Ends p P w)
    (hok : ∀ a w', P (.ok a) w' → Ends (f a) Q w')
    (herror : ∀ e w', P (.error e) w' → Q (.error e) w') : Ends (p.bind f) Q w := by
  refine Prog.safe_bind.mpr (hp.mono fun r w' h => ?_)
  cases r with
  | ok a => exact hok a w' h
  | error e => exact herror e w' h

/-- A part that keeps `P` whatever it ends in, and what follows it. -/
theorem ends_then {p : FiringProg α} {f : α → FiringProg β} {P : FiringWorld → Prop}
    {Q : Except FiringError β → FiringWorld → Prop} (hp : Ends p (fun _ w' => P w') w)
    (hok : ∀ a w', P w' → Ends (f a) Q w') (herror : ∀ e w', P w' → Q (.error e) w') :
    Ends (p.bind f) Q w :=
  ends_bind hp hok herror

theorem ends_ite {c : Prop} [Decidable c] {p q : FiringProg α}
    {Q : Except FiringError α → FiringWorld → Prop} (hp : c → Ends p Q w) (hq : ¬ c → Ends q Q w) :
    Ends (if c then p else q) Q w := by
  split
  · rename_i hc
    exact hp hc
  · rename_i hc
    exact hq hc

/-- An operation that leaves the tables and the session alone. -/
def Quiet (op : FiringOp) : Prop :=
  ∀ x w r w', op.perform x w = some (r, w') → w' = w

/-- A quiet operation keeps what other sessions cannot break. -/
theorem ends_quiet {op : FiringOp} {P : FiringWorld → Prop} (hop : Quiet op)
    (hstable : ∀ w w', P w → Rely w w' → P w') (h : P w) :
    Ends (call op) (fun _ w' => P w') w := by
  refine Prog.safe_call.mpr fun w₁ hrely x r w₂ _ hperf => ?_
  obtain rfl := hop x w₁ r w₂ hperf
  exact ⟨.inl rfl, hstable w _ h hrely⟩

theorem quiet_fault {op : FiringOp} {res : FiringAnswer → FiringWorld → op.Res}
    (h : ∀ x w, op.perform x w = Prog.withFault x.fault x.error w (res x w) w) : Quiet op := by
  intro x w r w' hperf
  rw [h] at hperf
  exact Prog.withFault_rel (R := fun w w' => w' = w) rfl rfl hperf

theorem quiet_getSchedule : Quiet (.getSchedule sid) := quiet_fault fun _ _ => rfl

theorem quiet_hasBacklog : Quiet (.hasBacklog sid) := quiet_fault fun _ _ => rfl

theorem quiet_countActive : Quiet (.countActive sid) := quiet_fault fun _ _ => rfl

theorem quiet_currentArtifact (template : TemplateId) : Quiet (.currentArtifact template) :=
  quiet_fault fun _ _ => rfl

theorem quiet_getTemplate (template : TemplateId) : Quiet (.getTemplate template) :=
  quiet_fault fun _ _ => rfl

theorem quiet_buildRunRequest (template : TemplateId) : Quiet (.buildRunRequest template) :=
  quiet_fault fun _ _ => rfl

theorem quiet_resolveTargetNodes (request : RunRequest) : Quiet (.resolveTargetNodes request) :=
  quiet_fault fun _ _ => rfl

theorem quiet_clock : Quiet .clock := by
  intro x w r w' hperf
  cases hperf
  rfl

theorem quiet_newId : Quiet .newId := by
  intro x w r w' hperf
  simp only [FiringOp.perform] at hperf
  split at hperf
  · cases hperf
    rfl
  · cases hperf

/-! ### The gate -/

/-- The row is locked, and read. -/
structure Locked (sid : ScheduleId) (s : Schedule) (w : FiringWorld) : Prop where
  atomic : ∀ c ∈ w.commits, Atomic sid c
  locked : w.locked = some sid
  row : w.row = none
  schedule : w.tables.schedules.get sid = some s

theorem Locked.rely (h : Locked sid s w) (hrely : Rely w w') : Locked sid s w' where
  atomic := by
    rw [hrely.commits]
    exact h.atomic
  locked := hrely.locked.trans h.locked
  row := hrely.row.trans h.row
  schedule := (hrely.schedule sid h.locked).trans h.schedule

theorem Locked.gated (h : Locked sid s w) : Gated sid s w :=
  ⟨h.atomic, h.locked, .inl ⟨h.row, h.schedule⟩⟩

/-- What the gate ends in. -/
def GatePost (sid : ScheduleId) : Except FiringError (Except SkipReason Schedule) →
    FiringWorld → Prop
  | .ok (.ok s), w => Gated sid s w
  | .ok (.error _), w => ∀ c ∈ w.commits, Atomic sid c
  | .error _, w => ∀ c ∈ w.commits, Atomic sid c

/-- The breaker changes a row to half-open, if it does. -/
theorem admitBreaker_state {sched : SchedulerSettings} {now : Time} {current : Option ArtifactId}
    {s' : Schedule} (hs : s.breakerState ≠ .closed)
    (h : s.admitBreaker sched now current = some s') : s'.breakerState = .halfOpen := by
  unfold Schedule.admitBreaker at h
  cases hstate : s.breakerState with
  | closed => exact absurd hstate hs
  | opened =>
      simp only [hstate] at h
      split at h
      · obtain rfl := Option.some.inj h
        rfl
      · cases h
  | halfOpen =>
      simp only [hstate] at h
      split at h
      · obtain rfl := Option.some.inj h
        rfl
      · cases h
  | held =>
      simp only [hstate] at h
      split at h
      · cases h
      · split at h
        · cases h
        · obtain rfl := Option.some.inj h
          rfl

theorem admitBreaker_ends (h : Locked sid s w) (breaker : Option SchedulerSettings) :
    Ends (admitBreaker s breaker) (GatePost sid) w := by
  cases breaker with
  | none => exact h.gated
  | some sched =>
      unfold admitBreaker
      dsimp only
      split
      · exact h.gated
      · rename_i hclosed
        refine ends_then (P := Locked sid s) (Q := GatePost sid)
          (ends_quiet quiet_clock (fun _ _ => Locked.rely) h) ?_ fun _ _ h => h.atomic
        intro now w₁ h₁
        refine ends_then (P := Locked sid s) ?_ ?_ fun _ _ h => h.atomic
        · exact ends_ite (fun _ =>
            ends_quiet (quiet_currentArtifact _) (fun _ _ => Locked.rely) h₁) fun _ => h₁
        · intro current w₂ h₂
          split
          · exact h₂.atomic
          · rename_i s' hs'
            refine ends_then (P := Gated sid s') ?_ (fun _ _ h => h) fun _ _ h => h.atomic
            refine Prog.safe_call.mpr fun w₃ hrely x r w₄ _ hperf => ?_
            cases hperf
            have h₃ := h₂.rely hrely
            refine ⟨.inl rfl, h₃.atomic, h₃.locked, .inr ⟨rfl, ?_, ?_⟩⟩
            · exact admitBreaker_state hclosed hs'
            · rw [h₃.schedule]
              rfl

theorem acquireFiringSlot_ends (h : Settled sid w) (raiseOnFull requireEnabled
    coalesceBacklog : Bool) (breaker : Option SchedulerSettings) :
    Ends (acquireFiringSlot sid raiseOnFull requireEnabled coalesceBacklog breaker)
      (GatePost sid) w := by
  unfold acquireFiringSlot
  refine ends_bind (P := fun r w => (∀ c ∈ w.commits, Atomic sid c) ∧
    ∀ s, r = .ok (some s) → Locked sid s w) ?_ ?_ fun _ _ h => h.1
  · refine Prog.safe_call.mpr fun w₁ hrely x r w₂ _ hperf => ?_
    have h₁ := h.rely hrely
    rcases Prog.withFault_cases hperf with ⟨-, rfl, rfl⟩ | ⟨-, rfl, rfl⟩ | ⟨-, rfl, rfl⟩
    · refine ⟨.inl rfl, h₁.atomic, fun s hs => ⟨h₁.atomic, rfl, h₁.row, ?_⟩⟩
      exact Except.ok.inj hs
    · exact ⟨.inl rfl, h₁.atomic, fun s hs => by cases hs⟩
    · exact ⟨.inl rfl, h₁.atomic, fun s hs => by cases hs⟩
  · rintro row w₁ ⟨hatomic, hlocked⟩
    cases row with
    | none =>
        dsimp only
        split
        · exact hatomic
        · exact hatomic
    | some s =>
        have h₁ : Locked sid s w₁ := hlocked s rfl
        dsimp only
        split
        · exact hatomic
        · refine ends_then (P := Locked sid s) ?_ ?_ fun _ _ h => h.atomic
          · exact ends_ite (fun _ =>
              ends_quiet quiet_hasBacklog (fun _ _ => Locked.rely) h₁) fun _ => h₁
          · intro backlog w₂ h₂
            split
            · exact h₂.atomic
            · split
              · exact admitBreaker_ends h₂ breaker
              · refine ends_then (P := Locked sid s) (Q := GatePost sid)
                  (ends_quiet quiet_countActive (fun _ _ => Locked.rely) h₂) ?_
                  fun _ _ h => h.atomic
                intro active w₃ h₃
                split
                · exact admitBreaker_ends h₃ breaker
                · split
                  · exact h₃.atomic
                  · exact h₃.atomic

/-! ### The executor -/

/-- **The first commit.** -/
theorem commitTask_ends (h : Gated sid s w) (t : TaskId) {task : Task} (taskType : RunnerType)
    (payload : CommandPayload) (nodes : List (ExecutionId × AgentId))
    (hsid : task.scheduleId = some sid)
    (hgen : task.scheduleGeneration = some s.outcomeGeneration) :
    Ends (call (.commitTask t task taskType payload nodes))
      (fun r w' => match r with
        | .ok _ => Settled sid w'
        | .error _ => ∀ c ∈ w'.commits, Atomic sid c) w := by
  refine Prog.safe_call.mpr fun w₁ hrely x r w₂ _ hperf => ?_
  have h₁ := h.rely hrely
  simp only [FiringOp.perform] at hperf
  split at hperf
  · rename_i hfresh
    have hnone : w₁.tables.db.tasks.get t = none := Option.isNone_iff_eq_none.mp hfresh.1
    have hcommit : ∀ c ∈ (w₁.commit ⟨w₁.tables.db.createTask x.now t task taskType payload nodes,
        w₁.flushed⟩).commits, Atomic sid c := by
      intro c hc
      rcases List.mem_append.mp hc with hc | hc
      · exact h₁.atomic c hc
      · obtain rfl := List.mem_singleton.mp hc
        rcases h₁.row with ⟨hrow, hs⟩ | ⟨hrow, hhalf, hsome⟩
        · refine .inl ?_
          show w₁.flushed.get sid = _
          unfold FiringWorld.flushed
          rw [hrow, h₁.locked]
        · obtain ⟨task', htasks, -, hsid', hgen'⟩ :=
            Dispatch.createTask_tasks w₁.tables.db x.now t task taskType payload
              (fun n hn => Option.isNone_iff_eq_none.mp (hfresh.2.1 n hn)) hfresh.2.2
          have htask' : (w₁.tables.db.createTask x.now t task taskType payload nodes).tasks.get t =
              some task' := by
            rw [htasks, Table.get_insert _ _ hnone, if_pos rfl]
          refine .inr ⟨s, t, task', ?_, hhalf, hnone, htask', hsid'.trans hsid, hgen'.trans hgen⟩
          show w₁.flushed.get sid = _
          unfold FiringWorld.flushed
          rw [hrow, h₁.locked]
          show (w₁.tables.schedules.modify sid _).get sid = _
          obtain ⟨s₀, hs₀⟩ := Option.isSome_iff_exists.mp hsome
          rw [Table.get_modify_self, hs₀]
          rfl
    rcases Prog.withFault_cases hperf with ⟨-, rfl, rfl⟩ | ⟨-, rfl, rfl⟩ | ⟨-, rfl, rfl⟩
    · exact ⟨.inr rfl, hcommit, rfl⟩
    · exact ⟨.inl rfl, h₁.atomic⟩
    · exact ⟨.inr rfl, hcommit⟩
  · cases hperf

/-- The second commit writes no schedule. -/
theorem commitDispatch_ends (h : Settled sid w) :
    Ends (call .commitDispatch) (fun _ w' => Settled sid w') w := by
  refine Prog.safe_call.mpr fun w₁ hrely x r w₂ _ hperf => ?_
  have h₁ := h.rely hrely
  obtain ⟨db, -, hperf⟩ := Option.bind_eq_some_iff.mp hperf
  have hcommit : Settled sid (w₁.commit { w₁.tables with db := db }) := by
    refine ⟨fun c hc => ?_, rfl⟩
    rcases List.mem_append.mp hc with hc | hc
    · exact h₁.atomic c hc
    · obtain rfl := List.mem_singleton.mp hc
      exact .inl rfl
  rcases Prog.withFault_cases hperf with ⟨-, rfl, rfl⟩ | ⟨-, rfl, rfl⟩ | ⟨-, rfl, rfl⟩
  · exact ⟨.inr rfl, hcommit⟩
  · exact ⟨.inl rfl, h₁⟩
  · exact ⟨.inr rfl, hcommit⟩

/-- **The deliveries**, by induction on the rows left. -/
theorem dispatchRows_ends (n : Nat) (h : Settled sid w) :
    Ends (dispatchRows n) (fun _ w' => Settled sid w') w := by
  induction n generalizing w with
  | zero => exact h
  | succ n ih =>
      refine ends_then (P := Settled sid) ?_ ?_ fun _ _ h => h
      · refine Prog.safe_call.mpr fun w₁ hrely x r w₂ _ hperf => ?_
        have h₁ := h.rely hrely
        simp only [FiringOp.perform] at hperf
        split at hperf
        · cases hperf
          exact ⟨.inl rfl, h₁⟩
        · rename_i sent y _
          have hnext : Settled sid { w₁ with delivery := some y } := ⟨h₁.atomic, h₁.row⟩
          rcases Prog.withFault_cases hperf with ⟨-, rfl, rfl⟩ | ⟨-, rfl, rfl⟩ | ⟨-, rfl, rfl⟩
          · exact ⟨.inl rfl, hnext⟩
          · exact ⟨.inl rfl, h₁⟩
          · exact ⟨.inl rfl, hnext⟩
      · intro sent w₁ h₁
        exact ends_then (P := Settled sid) (ih h₁) (fun _ _ h => h) fun _ _ h => h

/-- **The executor.** -/
theorem runExecutor_ends (h : Gated sid s w) (taskType : RunnerType) (request : RunRequest)
    (source : TaskSource) :
    Ends (runExecutor taskType request ⟨source, some sid, some s.outcomeGeneration⟩)
      (fun _ w' => ∀ c ∈ w'.commits, Atomic sid c) w := by
  unfold runExecutor
  split
  · exact h.atomic
  · rename_i payload _
    refine ends_then (P := Gated sid s) (ends_quiet quiet_newId (fun _ _ => Gated.rely) h) ?_
      fun _ _ h => h.atomic
    intro t w₁ h₁
    refine ends_then (P := Gated sid s)
      (ends_quiet (quiet_resolveTargetNodes _) (fun _ _ => Gated.rely) h₁) ?_
      fun _ _ h => h.atomic
    intro nodes w₂ h₂
    refine ends_bind (commitTask_ends h₂ t taskType payload nodes rfl rfl) ?_ fun _ _ h => h
    intro _ w₃ h₃
    split
    · exact h₃.atomic
    · refine ends_then (P := Settled sid) (dispatchRows_ends _ h₃) ?_ fun _ _ h => h.atomic
      intro sent w₄ h₄
      split
      · refine ends_then (P := Settled sid) ?_ (fun _ _ h => h.atomic) fun _ _ h => h.atomic
        refine Prog.safe_tryCatch.mpr ((commitDispatch_ends h₄).mono fun r w' h' => ?_)
        cases r with
        | ok _ => exact h'
        | error _ => exact h'
      · exact ends_then (P := Settled sid) (commitDispatch_ends h₄) (fun _ _ h => h.atomic)
          fun _ _ h => h.atomic

theorem runAdmitted_ends (h : Gated sid s w) (source : TaskSource) :
    Ends (runAdmitted sid s source) (fun _ w' => ∀ c ∈ w'.commits, Atomic sid c) w := by
  unfold runAdmitted
  refine ends_then (P := Gated sid s)
    (ends_quiet (quiet_getTemplate _) (fun _ _ => Gated.rely) h) ?_ fun _ _ h => h.atomic
  intro template w₁ h₁
  cases template with
  | none => exact h₁.atomic
  | some template =>
      refine ends_then (P := Gated sid s)
        (ends_quiet (quiet_buildRunRequest _) (fun _ _ => Gated.rely) h₁) ?_
        fun _ _ h => h.atomic
      intro request w₂ h₂
      split
      · exact h₂.atomic
      · exact runExecutor_ends h₂ _ request source

/-! ### The firing -/

theorem fireTimer_ends (h : Settled sid w) (sched : SchedulerSettings) :
    Ends (fireTimer sched sid) (fun _ w' => ∀ c ∈ w'.commits, Atomic sid c) w := by
  unfold fireTimer
  refine ends_bind (acquireFiringSlot_ends h false true true (some sched)) ?_ fun _ _ h => h
  intro slot w₁ h₁
  cases slot with
  | error _ => exact h₁
  | ok s =>
      exact ends_then (P := fun w => ∀ c ∈ w.commits, Atomic sid c) (runAdmitted_ends h₁ .timer)
        (fun _ _ h => h) fun _ _ h => h

/-- The session of a firing before its first operation. -/
def session (tables : FiringTables) : FiringWorld := { tables := tables }

/-- **A probe is committed with its half-open row.**  Whatever the operations of
a timer firing answer or raise, and whatever other sessions commit in between,
the firing writes the tables in its commits only, and each of them leaves the
schedule's row as it was or has a new task of the generation of the row. -/
theorem probe_atomic (sched : SchedulerSettings) (sid : ScheduleId) (tables : FiringTables) :
    (fire sched sid).Safe { perform := FiringOp.perform } contract
      (fun _ w' => ∀ c ∈ w'.commits, Atomic sid c) (session tables) := by
  have hstart : Settled sid (session tables) := ⟨fun _ hc => absurd hc List.not_mem_nil, rfl⟩
  unfold fire
  refine ends_then (P := Settled sid)
    (ends_quiet quiet_getSchedule (fun _ _ => Settled.rely) hstart) ?_ fun _ _ h => h.atomic
  intro schedule w₁ h₁
  cases schedule with
  | none => exact h₁.atomic
  | some _ =>
      have hbody := ends_then (P := fun w => ∀ c ∈ w.commits, Atomic sid c)
        (Q := fun _ w => ∀ c ∈ w.commits, Atomic sid c)
        (f := fun _ : Option (TaskId × TaskStatus) => .ret ()) (fireTimer_ends h₁ sched)
        (fun _ _ h => h) fun _ _ h => h
      refine Prog.safe_tryCatch.mpr (hbody.mono fun r w' h' => ?_)
      cases r with
      | ok _ => exact h'
      | error e =>
          cases e with
          | api status code => exact h'
          | dispatchUnknown t => exact h'
          | raised => exact h'

end Rules

end Firing

end Dopilot
