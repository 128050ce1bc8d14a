/-
Dopilot/TimerJobs.lean

The jobs of the timer.

The timer runs one job for each enabled schedule.  A request that writes
schedules commits and then reloads the jobs: it reads the enabled schedules, at
most a page of them, and replaces all jobs by what it has read.  The reads of
two requests may be applied in either order.

A job set that comes from the table as it is now is in sync with it.  Every
commit that the job set does not come from yet has its request still under way,
so when none is under way the job set comes from the last commit
(`jobs_in_sync`); that takes reloads to be applied in the order of their reads.
-/
import Dopilot.Paging
import Dopilot.ScheduleRequests
import Dopilot.StateMachine
import Mathlib.Order.OrderDual

namespace Dopilot

namespace TimerJobs

/-! ### Jobs -/

/-- A trigger of the timer's library, in the time zone of the settings. -/
inductive Trigger where
  | cron (expr : Text)
  | interval (seconds : Int)
  deriving DecidableEq, Repr

/-- `_build_trigger`. -/
def buildTrigger (row : ScheduleRow) : Trigger :=
  if row.triggerType = "cron".toList ∧ row.cron.getD [] ≠ [] then .cron (row.cron.getD [])
  else if row.intervalSeconds.getD 0 = 0 then .interval 60
  else .interval (row.intervalSeconds.getD 0)

/-- A job has the id of its schedule. -/
abbrev Job := ScheduleId × Trigger

def job (r : ScheduleId × ScheduleRow) : Job := (r.1, buildTrigger r.2)

/-- The limit of `list_enabled_schedules`. -/
def listLimit : Nat := 200

def enabledRows (db : AdminDb) : List (ScheduleId × ScheduleRow) :=
  db.schedules.rows.filter fun r => r.2.enabled

/-- `list_enabled_schedules`: the newest ones. -/
def listEnabledSchedules (db : AdminDb) : List (ScheduleId × ScheduleRow) :=
  Paging.page (fun r => OrderDual.toDual r.2.createdAt) listLimit (enabledRows db)

/-- **One job for each enabled schedule**, with the trigger of its row. -/
def InSync (db : AdminDb) (jobs : List Job) : Prop := jobs.Perm ((enabledRows db).map job)

/-! ### Requests and reloads -/

abbrev RequestId := Nat

/-- Where a request stands whose commit is the `own`-th. -/
inductive Phase where
  | committed (own : Nat)
  /-- It has read the schedules, after so many commits. -/
  | loaded (own : Nat) (rows : List (ScheduleId × ScheduleRow)) (seen : Nat)

def Phase.own : Phase → Nat
  | .committed own => own
  | .loaded own _ _ => own

structure State where
  db : AdminDb
  jobs : List Job
  inFlight : Table RequestId Phase := .empty
  /-- The number of commits, and how many of them the job set comes from. -/
  commits : Nat := 0
  applied : Nat := 0

/-- The server has started, with the jobs of its first reload. -/
def start (db : AdminDb) : State where
  db := db
  jobs := (listEnabledSchedules db).map job

/-- The requests that reload the jobs. -/
def reloads : AdminRequest → Bool
  | .createSchedule .. | .updateSchedule .. | .deleteSchedule _ | .disableAllSchedules => true
  | _ => false

inductive Action where
  /-- The service of a request and its commit, if it does not fail. -/
  | request (i : RequestId) (r : AdminRequest)
  /-- The read of its reload. -/
  | load (i : RequestId)
  /-- `remove_all_jobs`, and `add_job` for each row that was read. -/
  | apply (i : RequestId)
  /-- The request fails behind its commit. -/
  | fail (i : RequestId)

def step (crontab : Text → Bool) (s : State) : Action → Option State
  | .request i r =>
      match s.db.serve crontab r with
      | .error _ => none
      | .ok db =>
          if reloads r = false then some { s with db := db }
          else if (s.inFlight.get i).isSome then none
          else
            some { s with
              db := db
              commits := s.commits + 1
              inFlight := s.inFlight.insert i (.committed (s.commits + 1)) }
  | .load i =>
      match s.inFlight.get i with
      | some (.committed own) =>
          some { s with
            inFlight := s.inFlight.modify i fun _ =>
              .loaded own (listEnabledSchedules s.db) s.commits }
      | _ => none
  | .apply i =>
      match s.inFlight.get i with
      | some (.loaded _ rows seen) =>
          some { s with
            jobs := rows.map job
            applied := seen
            inFlight := s.inFlight.erase i }
      | _ => none
  | .fail i =>
      match s.inFlight.get i with
      | some _ => some { s with inFlight := s.inFlight.erase i }
      | none => none

/-- Reloads read all enabled schedules and are applied in the order of their reads;
a request that fails behind its commit has had its rows loaded by another. -/
def InOrder (s : State) : Action → Prop
  | .request _ _ => True
  | .load _ => (enabledRows s.db).length ≤ listLimit
  | .apply i => ∀ own rows seen, s.inFlight.get i = some (.loaded own rows seen) →
      s.applied ≤ seen
  | .fail i => ∀ phase, s.inFlight.get i = some phase → phase.own ≤ s.applied

/-! ### What a run keeps -/

structure Inv (s : State) : Prop where
  own_le : ∀ i phase, s.inFlight.get i = some phase → phase.own ≤ s.commits
  /-- A reload reads behind its own commit. -/
  own_le_seen : ∀ i own rows seen, s.inFlight.get i = some (.loaded own rows seen) →
    own ≤ seen ∧ seen ≤ s.commits
  /-- What was read behind the last commit is what the table has. -/
  rows_now : ∀ i own rows, s.inFlight.get i = some (.loaded own rows s.commits) →
    InSync s.db (rows.map job)
  jobs_now : s.applied = s.commits → InSync s.db s.jobs
  applied_le : s.applied ≤ s.commits
  /-- Commits that the job set does not come from are still under way. -/
  pending : ∀ n, s.applied < n → n ≤ s.commits →
    ∃ i phase, s.inFlight.get i = some phase ∧ phase.own = n

/-- A page that is not full has all rows. -/
theorem listEnabledSchedules_perm {db : AdminDb} (h : (enabledRows db).length ≤ listLimit) :
    (listEnabledSchedules db).Perm (enabledRows db) := by
  unfold listEnabledSchedules Paging.page
  rw [List.take_of_length_le]
  · exact List.perm_insertionSort _ _
  · rw [List.length_insertionSort]
    exact h

theorem inSync_load {db : AdminDb} (h : (enabledRows db).length ≤ listLimit) :
    InSync db ((listEnabledSchedules db).map job) := (listEnabledSchedules_perm h).map job

/-- A request that does not reload the jobs does not write schedules. -/
theorem serve_schedules {crontab : Text → Bool} {db db' : AdminDb} {r : AdminRequest}
    (h : db.serve crontab r = .ok db') (hr : reloads r = false) :
    db'.schedules = db.schedules := by
  cases r with
  | createSchedule sid now data => cases hr
  | updateSchedule sid data => cases hr
  | deleteSchedule sid => cases hr
  | disableAllSchedules => cases hr
  | createTemplate tid data =>
      obtain ⟨_, -, h⟩ := Service.bind_ok h
      obtain ⟨_, -, h⟩ := Service.bind_ok h
      rw [← Service.pure_ok h]
  | updateTemplate tid data =>
      obtain ⟨⟨_, _⟩, -, h⟩ := Service.bind_ok h
      obtain ⟨_, -, h⟩ := Service.bind_ok h
      rw [← Service.pure_ok h]
  | deleteTemplate tid =>
      obtain ⟨_, -, h⟩ := Service.bind_ok h
      obtain ⟨_, -, h⟩ := Service.bind_ok h
      rw [← Service.pure_ok h]
  | storeArtifact id artifact => rw [← Except.ok.inj h]

section Steps

variable {crontab : Text → Bool} {s s' : State} {i : RequestId} {phase : Phase}

/-- A request that writes no schedules. -/
theorem Inv.withDb (h : Inv s) {db : AdminDb} (hsame : db.schedules = s.db.schedules) :
    Inv { s with db := db } := by
  have hsync : ∀ jobs, InSync s.db jobs → InSync db jobs := by
    intro jobs hjobs
    show jobs.Perm ((db.schedules.rows.filter fun r => r.2.enabled).map job)
    rw [hsame]
    exact hjobs
  exact
    { own_le := h.own_le
      own_le_seen := h.own_le_seen
      rows_now := fun i own rows hi => hsync _ (h.rows_now i own rows hi)
      jobs_now := fun happlied => hsync _ (h.jobs_now happlied)
      applied_le := h.applied_le
      pending := h.pending }

/-- A commit: what was read or applied before it is of no account from now on. -/
theorem Inv.commit (h : Inv s) (hi : s.inFlight.get i = none) (db : AdminDb) :
    Inv { s with
      db := db
      commits := s.commits + 1
      inFlight := s.inFlight.insert i (.committed (s.commits + 1)) } where
  own_le := by
    intro k phase hk
    rw [Table.get_insert _ _ hi] at hk
    split at hk
    · obtain rfl := Option.some.inj hk
      exact le_refl (s.commits + 1)
    · exact (h.own_le k phase hk).trans (Nat.le_succ _)
  own_le_seen := by
    intro k own rows seen hk
    rw [Table.get_insert _ _ hi] at hk
    split at hk
    · cases hk
    · obtain ⟨hown, hseen⟩ := h.own_le_seen k own rows seen hk
      exact ⟨hown, hseen.trans (Nat.le_succ _)⟩
  rows_now := by
    intro k own rows hk
    rw [Table.get_insert _ _ hi] at hk
    split at hk
    · cases hk
    · exact absurd (h.own_le_seen k own rows _ hk).2 (Nat.not_succ_le_self _)
  jobs_now := by
    intro happlied
    have hle := h.applied_le
    rw [show s.applied = s.commits + 1 from happlied] at hle
    exact absurd hle (Nat.not_succ_le_self _)
  applied_le := h.applied_le.trans (Nat.le_succ _)
  pending := by
    intro n hlt hle
    rcases Nat.lt_or_eq_of_le hle with hold | hnew
    · obtain ⟨k, phase, hk, hown⟩ := h.pending n hlt (Nat.lt_succ_iff.mp hold)
      have hne : k ≠ i := by
        rintro rfl
        rw [hi] at hk
        cases hk
      refine ⟨k, phase, ?_, hown⟩
      rw [Table.get_insert _ _ hi, if_neg hne]
      exact hk
    · refine ⟨i, .committed (s.commits + 1), ?_, hnew.symm⟩
      rw [Table.get_insert _ _ hi, if_pos rfl]

/-- The read of a reload. -/
theorem Inv.load (h : Inv s) {own : Nat} (hi : s.inFlight.get i = some (.committed own))
    (hlimit : (enabledRows s.db).length ≤ listLimit) :
    Inv { s with
      inFlight := s.inFlight.modify i fun _ =>
        .loaded own (listEnabledSchedules s.db) s.commits } := by
  -- the request that has read, or another one
  have hcases : ∀ k phase,
      (s.inFlight.modify i fun _ => Phase.loaded own (listEnabledSchedules s.db) s.commits).get k =
        some phase →
      phase = .loaded own (listEnabledSchedules s.db) s.commits ∨ s.inFlight.get k = some phase := by
    intro k phase hk
    rw [Table.get_modify] at hk
    split at hk
    · rename_i hki
      rw [hki, hi] at hk
      exact Or.inl (Option.some.inj hk).symm
    · exact Or.inr hk
  have hown : own ≤ s.commits := h.own_le i _ hi
  refine ⟨?_, ?_, ?_, h.jobs_now, h.applied_le, ?_⟩
  · intro k phase hk
    rcases hcases k phase hk with rfl | hk
    · exact hown
    · exact h.own_le k phase hk
  · intro k own' rows seen hk
    rcases hcases k _ hk with heq | hk
    · cases heq
      exact ⟨hown, le_refl _⟩
    · exact h.own_le_seen k own' rows seen hk
  · intro k own' rows hk
    rcases hcases k _ hk with heq | hk
    · cases heq
      exact inSync_load hlimit
    · exact h.rows_now k own' rows hk
  · intro n hlt hle
    obtain ⟨k, phase, hk, hn⟩ := h.pending n hlt hle
    show ∃ k phase, (s.inFlight.modify i _).get k = some phase ∧ phase.own = n
    by_cases hki : k = i
    · subst hki
      rw [hi] at hk
      obtain rfl := Option.some.inj hk
      refine ⟨k, .loaded own (listEnabledSchedules s.db) s.commits, ?_, hn⟩
      rw [Table.get_modify_self, hi]
      rfl
    · refine ⟨k, phase, ?_, hn⟩
      rw [Table.get_modify_ne _ _ hki]
      exact hk

/-- A request that leaves, of a commit that the job set comes from. -/
theorem Inv.leave (h : Inv s) {applied : Nat} {jobs : List Job}
    (hi : s.inFlight.get i = some phase) (hown : phase.own ≤ applied)
    (hmore : s.applied ≤ applied) (hle : applied ≤ s.commits)
    (hjobs : applied = s.commits → InSync s.db jobs) :
    Inv { s with jobs := jobs, applied := applied, inFlight := s.inFlight.erase i } := by
  have hkept : ∀ k phase, (s.inFlight.erase i).get k = some phase →
      s.inFlight.get k = some phase := by
    intro k phase hk
    rw [Table.get_erase] at hk
    split at hk
    · cases hk
    · exact hk
  refine ⟨?_, ?_, ?_, hjobs, hle, ?_⟩
  · exact fun k phase hk => h.own_le k phase (hkept k phase hk)
  · exact fun k own rows seen hk => h.own_le_seen k own rows seen (hkept k _ hk)
  · exact fun k own rows hk => h.rows_now k own rows (hkept k _ hk)
  · intro n hlt hn
    obtain ⟨k, phase', hk, hown'⟩ := h.pending n (hmore.trans_lt hlt) hn
    refine ⟨k, phase', ?_, hown'⟩
    show (s.inFlight.erase i).get k = some phase'
    rw [Table.get_erase, if_neg]
    · exact hk
    · -- the one that leaves has a commit that is applied
      rintro rfl
      obtain rfl := Option.some.inj (hi.symm.trans hk)
      exact absurd (hown' ▸ hown) (Nat.not_le.mpr hlt)

/-- **Every step in order keeps the invariant.** -/
theorem Inv.step (h : Inv s) {a : Action} (ha : InOrder s a)
    (hstep : step crontab s a = some s') : Inv s' := by
  cases a with
  | request i r =>
      unfold TimerJobs.step at hstep
      dsimp only at hstep
      cases hserve : s.db.serve crontab r with
      | error e =>
          rw [hserve] at hstep
          cases hstep
      | ok db =>
          rw [hserve] at hstep
          dsimp only at hstep
          split at hstep
          · rename_i hr
            obtain rfl := Option.some.inj hstep
            exact h.withDb (serve_schedules hserve hr)
          · split at hstep
            · cases hstep
            · rename_i hfree
              obtain rfl := Option.some.inj hstep
              exact h.commit (by simpa using hfree) db
  | load i =>
      unfold TimerJobs.step at hstep
      dsimp only at hstep
      split at hstep
      · rename_i own hi
        obtain rfl := Option.some.inj hstep
        exact h.load hi ha
      · cases hstep
  | apply i =>
      unfold TimerJobs.step at hstep
      dsimp only at hstep
      split at hstep
      · rename_i own rows seen hi
        obtain rfl := Option.some.inj hstep
        obtain ⟨hown, hseen⟩ := h.own_le_seen i own rows seen hi
        refine h.leave hi hown (ha own rows seen hi) hseen ?_
        rintro rfl
        exact h.rows_now i own rows hi
      · cases hstep
  | fail i =>
      unfold TimerJobs.step at hstep
      dsimp only at hstep
      split at hstep
      · rename_i phase hi
        obtain rfl := Option.some.inj hstep
        exact h.leave hi (ha phase hi) (le_refl _) h.applied_le h.jobs_now
      · cases hstep

end Steps

/-! ### Runs -/

theorem Inv.start {db : AdminDb} (h : (enabledRows db).length ≤ listLimit) : Inv (start db) where
  own_le := by
    intro i phase hi
    cases hi
  own_le_seen := by
    intro i own rows seen hi
    cases hi
  rows_now := by
    intro i own rows hi
    cases hi
  jobs_now := fun _ => inSync_load h
  applied_le := le_refl _
  pending := fun n hlt hle => absurd hle (Nat.not_le.mpr hlt)

/-- **When no request is under way, the jobs are those of the enabled schedules.** -/
theorem jobs_in_sync (crontab : Text → Bool) (db : AdminDb)
    (hdb : (enabledRows db).length ≤ listLimit) {s : State}
    (hrun : StateMachine.RunOk (step crontab) InOrder (start db) s)
    (hdone : ∀ i, s.inFlight.get i = none) : InSync s.db s.jobs := by
  have hinv : Inv s := hrun.invariant (fun _ _ _ h ha hs => h.step ha hs) (Inv.start hdb)
  apply hinv.jobs_now
  refine hinv.applied_le.antisymm (Nat.le_of_not_lt fun hlt => ?_)
  obtain ⟨i, phase, hi, -⟩ := hinv.pending s.commits hlt (le_refl _)
  rw [hdone i] at hi
  cases hi

/-! ### Two reloads that overlap -/

instance (s : State) : (a : Action) → Decidable (InOrder s a)
  | .request _ _ => inferInstanceAs (Decidable True)
  | .load _ => inferInstanceAs (Decidable ((enabledRows s.db).length ≤ listLimit))
  | .apply i =>
      match h : s.inFlight.get i with
      | none => isTrue fun own rows seen hi => by
          rw [h] at hi
          cases hi
      | some (.committed _) => isTrue fun own rows seen hi => by
          rw [h] at hi
          cases hi
      | some (.loaded own rows seen) =>
          decidable_of_iff (s.applied ≤ seen)
            ⟨fun hle own' rows' seen' hi => by
              rw [h] at hi
              cases hi
              exact hle, fun hall => hall own rows seen h⟩
  | .fail i =>
      match h : s.inFlight.get i with
      | none => isTrue fun phase hi => by
          rw [h] at hi
          cases hi
      | some phase =>
          decidable_of_iff (phase.own ≤ s.applied)
            ⟨fun hle phase' hi => by
              rw [h] at hi
              cases hi
              exact hle, fun hall => hall phase h⟩

/-- One schedule, which is enabled. -/
def sampleDb : AdminDb where
  artifacts := .empty
  templates := Table.empty.insert 1 { name := "eggs".toList }
  schedules := Table.empty.insert 1
    { enabled := true
      executionTemplateId := 1
      name := "nightly".toList
      intervalSeconds := some 60
      createdAt := 0 }

/-- A schedule is edited while all are disabled. -/
def sampleRequests : List Action :=
  [.request 0 (.updateSchedule 1 { description := some none }), .load 0,
    .request 1 .disableAllSchedules, .load 1]

theorem jobs_in_sync_sample : ∃ s : State, InSync s.db s.jobs ∧ s.jobs.isEmpty = true := by
  obtain ⟨s, hrun, hs⟩ := StateMachine.RunOk.exists_of_checkedRun (step fun _ => true) InOrder
    (start sampleDb) (sampleRequests ++ [.apply 0, .apply 1])
    (fun s => s.inFlight.rows.isEmpty && s.jobs.isEmpty) (by decide +kernel)
  rw [Bool.and_eq_true, List.isEmpty_iff] at hs
  refine ⟨s, jobs_in_sync (fun _ => true) sampleDb (by decide) hrun fun i => ?_, hs.2⟩
  rw [Table.get, hs.1]
  rfl

/-- **The older of two reloads, applied last, leaves the job of a disabled schedule.** -/
theorem not_jobs_in_sync : ¬ ∀ (crontab : Text → Bool) (db : AdminDb) (s : State),
    (enabledRows db).length ≤ listLimit → StateMachine.Run (step crontab) (start db) s →
      (∀ i, s.inFlight.get i = none) → InSync s.db s.jobs := by
  intro h
  have hrun : ((StateMachine.runList (step fun _ => true) (start sampleDb)
      (sampleRequests ++ [.apply 1, .apply 0])).any fun s =>
        s.inFlight.rows.isEmpty && (enabledRows s.db).isEmpty && !s.jobs.isEmpty) = true := by
    decide +kernel
  obtain ⟨s, hs, hend⟩ := (Option.any_eq_true _ _).mp hrun
  rw [Bool.and_eq_true, Bool.and_eq_true, List.isEmpty_iff, List.isEmpty_iff] at hend
  obtain ⟨⟨hdone, hnone⟩, hjobs⟩ := hend
  have hsync := h (fun _ => true) sampleDb s (by decide) (StateMachine.Run.of_runList hs)
    fun i => by
      rw [Table.get, hdone]
      rfl
  rw [InSync, hnone] at hsync
  rw [List.Perm.eq_nil hsync] at hjobs
  cases hjobs

end TimerJobs

end Dopilot
