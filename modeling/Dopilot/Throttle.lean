/-
Dopilot/Throttle.lean

The breaker throttles its schedule.

A run of `Breaker.lean` is watched for one schedule, by a clock that does not go
back: when the timer last admitted a task, and how many probes in a row have
failed with a transient outcome, since the breaker was last closed or held or a
neutral outcome was recorded.

Two admissions are at least the base apart, and after the `k`-th failure in a
row the next one waits for `min (base * 2 ^ k) max` (`throttled`), where a
failure is an outcome that finds the breaker half open.  A probe may outlive its
deadline, and then there is a second one in its generation: the outcome that
comes later finds the breaker open, and changes nothing (`not_throttled`).
-/
import Dopilot.Breaker

namespace Dopilot

open StateMachine

namespace Breaker

/-! ### Watching a run -/

/-- What was seen of a schedule since its breaker was last closed or held, or a
neutral outcome was recorded. -/
structure Watch where
  clock : Time
  /-- When the timer last admitted a task. -/
  lastAdmitted : Option Time := none
  /-- How many probes in a row have failed. -/
  failures : Nat := 0
  /-- When the last of them did, if the timer has admitted none since. -/
  lastFailed : Option Time := none
  /-- The tasks the timer has admitted. -/
  probes : List TaskId := []

structure Watched where
  world : State
  watch : Watch

/-- Which transient outcomes of the current generation count as failed probes:
those that find the breaker half open, or those of tasks the timer has admitted. -/
inductive Counted where
  | resolving
  | admitted

/-- The instant of an action. -/
def Action.time : Action → Option Time
  | .fireTimer now .. | .record now .. => some now
  | .create .. | .update .. | .reset .. | .triggerNow .. => none

/-- A neutral outcome of the schedule. -/
def Action.isNeutral (w : State) (sid : ScheduleId) : Action → Bool
  | .record _ _ t _ _ _ .neutral => (w.tasks.get t).any fun task => task.scheduleId = some sid
  | _ => false

/-- Does an outcome count as a failed probe? -/
def failsProbe (counted : Counted) (sid : ScheduleId) (x : Watched) (t : TaskId)
    (outcomeClass : OutcomeClass) : Bool :=
  outcomeClass = .transient && (x.world.tasks.get t).any fun task =>
    (x.world.db.schedules.get sid).any fun s =>
      task.scheduleId = some sid && task.scheduleGeneration.getD 0 = s.outcomeGeneration
        && match counted with
          | .resolving => s.breakerState = .halfOpen
          | .admitted => x.watch.probes.contains t

/-- Is the breaker closed or held, or the outcome neutral? -/
def interrupted (sid : ScheduleId) (w w' : State) (a : Action) : Bool :=
  ((w'.db.schedules.get sid).all fun s => s.breakerState = .closed || s.breakerState = .held)
    || a.isNeutral w sid

/-- The clock at an action. -/
def Action.clock (a : Action) (x : Watch) : Time := a.time.getD x.clock

/-- What is seen of an action that does not interrupt. -/
def seen (counted : Counted) (sid : ScheduleId) (x : Watched) (a : Action) : Watch :=
  let watch := { x.watch with clock := a.clock x.watch }
  match a with
  | .create .. | .update .. | .reset .. | .triggerNow .. => watch
  | .fireTimer now sid' _ t _ =>
      if sid' = sid then
        { watch with
          lastAdmitted := some now
          lastFailed := none
          probes := t :: watch.probes }
      else watch
  | .record now _ t _ _ _ outcomeClass =>
      if failsProbe counted sid x t outcomeClass then
        { watch with failures := watch.failures + 1, lastFailed := some now }
      else watch

/-- What is seen of an action. -/
def observe (counted : Counted) (sid : ScheduleId) (x : Watched) (a : Action) (w' : State) :
    Watch :=
  if interrupted sid x.world w' a then { clock := a.clock x.watch } else seen counted sid x a

/-- One transaction under watch; the clock does not go back. -/
def watch (sched : SchedulerSettings) (counted : Counted) (sid : ScheduleId) (x : Watched)
    (a : Action) : Option Watched :=
  if a.time.all (x.watch.clock ≤ ·) then
    (step sched x.world a).map fun w' =>
      { world := w', watch := observe counted sid x a w' }
  else none

/-- Nothing has been seen. -/
def Watched.start (clock : Time) : Watched where
  world := State.start
  watch := { clock := clock }

/-! ### The invariant -/

variable {sched : SchedulerSettings} {sid : ScheduleId} {x x' : Watched} {a : Action}

/-- The wait after so many failures. -/
def backoffAfter (sched : SchedulerSettings) (failures : Nat) : Time :=
  min (sched.breakerBackoffBaseSeconds * 2 ^ failures) sched.breakerBackoffMaxSeconds

/-- How the breaker's row stands to what was seen. -/
structure Waits (sched : SchedulerSettings) (s : Schedule) (x : Watch) : Prop where
  unseen : s.breakerState = .closed ∨ s.breakerState = .held →
    x.lastAdmitted = none ∧ x.failures = 0 ∧ x.lastFailed = none
  past : ∀ t, x.lastAdmitted = some t → t ≤ x.clock
  level : min (x.failures : Int) sched.breakerMaxLevel ≤ s.breakerLevel
  admitted : ∀ t r, x.lastAdmitted = some t → s.breakerRetryAt = some r →
    t + sched.breakerBackoffBaseSeconds ≤ r
  failed : ∀ t r, x.lastFailed = some t → s.breakerRetryAt = some r →
    t + backoffAfter sched x.failures ≤ r

/-- A level that counts the failures, or is maximal, backs off for long enough. -/
theorem backoffAfter_le {n : Nat} {level : Int}
    (h : min (n : Int) sched.breakerMaxLevel ≤ level) :
    backoffAfter sched n ≤ sched.breakerBackoffSeconds level := by
  have hmono := sched.backoff_mono h
  have hn : sched.breakerBackoffSeconds n = backoffAfter sched n := by
    rw [SchedulerSettings.backoff_eq, Int.toNat_natCast]
    rfl
  rcases le_total (n : Int) sched.breakerMaxLevel with hle | hle
  · rw [min_eq_left hle, hn] at hmono
    exact hmono
  · rw [min_eq_right hle, SchedulerSettings.backoff_maxLevel] at hmono
    exact (min_le_right _ _).trans hmono

/-- Nothing has been seen. -/
theorem Waits.unwatched {s : Schedule} (hwf : s.Wf sched) (clock : Time) :
    Waits sched s { clock := clock } where
  unseen _ := ⟨rfl, rfl, rfl⟩
  past t ht := by cases ht
  level := (min_le_left _ _).trans hwf.level_nonneg
  admitted t r ht := by cases ht
  failed t r ht := by cases ht

/-- A later look at the same breaker. -/
theorem Waits.later {s s' : Schedule} {y : Watch} (h : Waits sched s y) {clock : Time}
    (hclock : y.clock ≤ clock) (hstate : s'.breakerState = s.breakerState)
    (hlevel : s'.breakerLevel = s.breakerLevel) (hretry : s'.breakerRetryAt = s.breakerRetryAt) :
    Waits sched s' { y with clock := clock } where
  unseen hs := h.unseen (hstate ▸ hs)
  past t ht := (h.past t ht).trans hclock
  level := hlevel ▸ h.level
  admitted t r ht hr := h.admitted t r ht (hretry ▸ hr)
  failed t r ht hr := h.failed t r ht (hretry ▸ hr)

/-- What an action that is not about the schedule leaves to be seen. -/
theorem seen_same {counted : Counted} (hno : ¬ a.concerns x.world sid) :
    seen counted sid x a = { x.watch with clock := a.clock x.watch } := by
  cases a with
  | create | update | reset | triggerNow => rfl
  | fireTimer now sid' current t task => exact if_neg hno
  | record now id t status finishedAt erroneous outcomeClass =>
      apply if_neg
      unfold failsProbe
      rcases htask : x.world.tasks.get t with - | task
      · simp
      · have hsid : task.scheduleId ≠ some sid := fun hc => hno ⟨task, htask, hc⟩
        simp [hsid]

/-- **The timer admits a task.** -/
theorem Waits.admits {s s' : Schedule} {now : Time} {current : Option ArtifactId} {y : Watch}
    {probes : List TaskId} (hwaits : Waits sched s y)
    (hadmits : s.admitBreaker sched now current = some s') (hs' : s'.breakerState ≠ .closed) :
    Waits sched s'
      { y with clock := now, lastAdmitted := some now, lastFailed := none, probes := probes } := by
  have hhalf : s'.breakerState = .halfOpen ∧
      s'.breakerRetryAt = some (now + sched.breakerBackoffMaxSeconds) ∧
      min (y.failures : Int) sched.breakerMaxLevel ≤ s'.breakerLevel := by
    unfold Schedule.admitBreaker at hadmits
    cases hstate : s.breakerState with
    | closed =>
        rw [hstate] at hadmits
        obtain rfl := Option.some.inj hadmits
        exact absurd hstate hs'
    | opened =>
        simp only [hstate] at hadmits
        split at hadmits
        · obtain rfl := Option.some.inj hadmits
          exact ⟨rfl, rfl, hwaits.level⟩
        · cases hadmits
    | halfOpen =>
        simp only [hstate] at hadmits
        split at hadmits
        · obtain rfl := Option.some.inj hadmits
          exact ⟨rfl, rfl, hwaits.level⟩
        · cases hadmits
    | held =>
        simp only [hstate] at hadmits
        split at hadmits
        · cases hadmits
        · split at hadmits
          · cases hadmits
          · obtain rfl := Option.some.inj hadmits
            rw [(hwaits.unseen (.inr hstate)).2.1]
            exact ⟨rfl, rfl, min_le_left _ _⟩
  obtain ⟨hstate, hretry, hlevel⟩ := hhalf
  exact
    { unseen := fun h => by rcases h with h | h <;> rw [hstate] at h <;> cases h
      past := fun t ht => (Option.some.inj ht).ge
      level := hlevel
      admitted := fun t r ht hr => by
        obtain rfl := Option.some.inj ht
        obtain rfl := Option.some.inj (hretry.symm.trans hr)
        linarith [sched.base_le_max]
      failed := fun t r ht => by cases ht }

/-- **A probe fails**, and the breaker backs off for longer. -/
theorem Waits.fail {s s' : Schedule} {now : Time} {y : Watch} (hwaits : Waits sched s y)
    (hclock : y.clock ≤ now) (hstate : s'.breakerState = .opened)
    (hlevel : s'.breakerLevel = min (s.breakerLevel + 1) sched.breakerMaxLevel)
    (hretry : s'.breakerRetryAt = some (now + sched.breakerBackoffSeconds s'.breakerLevel)) :
    Waits sched s'
      { y with clock := now, failures := y.failures + 1, lastFailed := some now } := by
  have hnext : min ((y.failures + 1 : Nat) : Int) sched.breakerMaxLevel ≤ s'.breakerLevel := by
    rw [hlevel]
    apply le_min _ (min_le_right _ _)
    rcases min_le_iff.mp hwaits.level with h | h
    · exact (min_le_left _ _).trans (by push_cast; linarith)
    · exact (min_le_right _ _).trans (by linarith)
  exact
    { unseen := fun h => by rcases h with h | h <;> rw [hstate] at h <;> cases h
      past := fun t ht => (hwaits.past t ht).trans hclock
      level := hnext
      admitted := fun t r ht hr => by
        obtain rfl := Option.some.inj (hretry.symm.trans hr)
        exact add_le_add ((hwaits.past t ht).trans hclock)
          (SchedulerSettings.base_le_backoff s'.breakerLevel)
      failed := fun t r ht hr => by
        obtain rfl := Option.some.inj ht
        obtain rfl := Option.some.inj (hretry.symm.trans hr)
        exact add_le_add (le_refl _) (backoffAfter_le hnext) }

/-- **An outcome** that is not a failed probe, while the breaker stays open or half open. -/
theorem Waits.drive {s s' : Schedule} {now : Time} {y : Watch} {o : TaskOutcome}
    (hwf' : s'.Wf sched) (hwaits : Waits sched s y) (hclock : y.clock ≤ now)
    (hdriven : Schedule.Driven sched now o s s')
    (hfails : ¬ (s.breakerState = .halfOpen ∧ o.outcomeClass = .transient))
    (hneutral : o.outcomeClass ≠ .neutral)
    (hs' : s'.breakerState ≠ .closed ∧ s'.breakerState ≠ .held) :
    Waits sched s' { y with clock := now } := by
  cases hdriven with
  | same => exact hwaits.later hclock rfl rfl rfl
  | trippedHeld reason hstate => exact absurd rfl hs'.2
  | trippedOpen reason hstate =>
      obtain ⟨hadmitted, hfailures, hfailed⟩ := hwaits.unseen (.inl hstate)
      exact
        { unseen := fun h => by rcases h with h | h <;> cases h
          past := fun t ht => (hwaits.past t ht).trans hclock
          level := by
            show min (y.failures : Int) _ ≤ _
            rw [hfailures]
            exact (min_le_left _ _).trans hwf'.level_nonneg
          admitted := fun t r ht => by
            rw [hadmitted] at ht
            cases ht
          failed := fun t r ht => by
            rw [hfailed] at ht
            cases ht }
  | recovered => exact absurd rfl hs'.1
  | probeHeld => exact absurd rfl hs'.2
  | probeFailed reason hstate hclass => exact absurd ⟨hstate, hclass⟩ hfails
  | probeNeutral hstate hclass => exact absurd hclass hneutral

/-- **The step**, for the schedule's row. -/
theorem Waits.next {w' : State} {s s' : Schedule} (hwf : s.Wf sched)
    (hwaits : Waits sched s x.watch) (hclock : a.time.all (x.watch.clock ≤ ·) = true)
    (hs : x.world.db.schedules.get sid = some s) (hs' : w'.db.schedules.get sid = some s')
    (hrow : RowStep sched x.world w' sid s a s') :
    Waits sched s' (observe .resolving sid x a w') := by
  have hwf' := (hrow.moves hwf).1
  unfold observe
  by_cases hnot : interrupted sid x.world w' a = true
  · rw [if_pos hnot]
    exact .unwatched hwf' _
  · rw [if_neg hnot]
    obtain ⟨hstate, hneutral⟩ : (s'.breakerState ≠ .closed ∧ s'.breakerState ≠ .held) ∧
        a.isNeutral x.world sid = false := by
      unfold interrupted at hnot
      rw [hs'] at hnot
      simpa using hnot
    cases hrow with
    | same hno =>
        rw [seen_same hno]
        refine hwaits.later ?_ rfl rfl rfl
        unfold Action.clock
        rcases htime : a.time with - | now
        · exact le_refl _
        · rw [htime] at hclock
          exact of_decide_eq_true hclock
    | updated data =>
        have hrest : (s.update data).breakerState = s.breakerState ∧
            (s.update data).breakerLevel = s.breakerLevel ∧
            (s.update data).breakerRetryAt = s.breakerRetryAt := by
          revert hstate
          unfold Schedule.update Schedule.setEnabled
          cases data.enabled with
          | none => exact fun _ => ⟨rfl, rfl, rfl⟩
          | some enabled =>
              dsimp only
              split
              · exact fun hc => absurd rfl hc.1
              · exact fun _ => ⟨rfl, rfl, rfl⟩
        exact hwaits.later (le_refl _) hrest.1 hrest.2.1 hrest.2.2
    | reset =>
        revert hstate
        unfold Schedule.resetBreaker
        split
        · rename_i hclosed
          exact fun hc => absurd hclosed hc.1
        · exact fun hc => absurd rfl hc.1
    | admitted hadmits =>
        unfold seen
        simp only [if_true]
        exact hwaits.admits hadmits hstate.1
    | recorded htask hsid hledger =>
        rename_i now id t task status finishedAt erroneous outcomeClass
        have hclock : x.watch.clock ≤ now := of_decide_eq_true hclock
        unfold ScheduleDb.recordedRow at hwf' hstate ⊢
        dsimp only at hwf' hstate ⊢
        generalize hrows : Ledger.generationRows _ sid s.outcomeGeneration = rows at *
        -- the count is not looked at
        have hwaits' : Waits sched { s with consecutiveErrorCount := countConsecutive rows }
            x.watch := hwaits.later (le_refl _) rfl rfl rfl
        by_cases hgen : (outcomeOf t task status finishedAt erroneous outcomeClass).generation =
            s.outcomeGeneration
        · rw [decide_eq_true hgen] at hwf' hstate ⊢
          have hfails : failsProbe .resolving sid x t outcomeClass =
              decide (outcomeClass = .transient ∧ s.breakerState = .halfOpen) := by
            have hgen' : task.scheduleGeneration.getD 0 = s.outcomeGeneration := hgen
            unfold failsProbe
            simp [htask, hs, hsid, hgen']
          unfold seen
          dsimp only
          rw [hfails]
          by_cases hprobe : outcomeClass = .transient ∧ s.breakerState = .halfOpen
          · rw [if_pos (decide_eq_true hprobe)]
            obtain ⟨x₁, reason, hdrive⟩ := Schedule.driveBreaker_transient sched now
              (outcomeOf t task status finishedAt erroneous outcomeClass) rows
              (countConsecutive rows)
              (s := { s with consecutiveErrorCount := countConsecutive rows }) hprobe.2 hprobe.1
            rw [hdrive]
            exact hwaits'.fail hclock rfl rfl rfl
          · rw [if_neg (by simpa using hprobe)]
            refine hwaits'.drive hwf' hclock (Schedule.driveBreaker_driven ..)
              (fun hc => hprobe ⟨hc.2, hc.1⟩) ?_ hstate
            rintro rfl
            have hn : (Action.record now id t status finishedAt erroneous .neutral).isNeutral
                x.world sid = true := by
              unfold Action.isNeutral
              simp [htask, hsid]
            rw [hn] at hneutral
            cases hneutral
        · rw [decide_eq_false hgen, Schedule.driveBreaker_older]
          have hfails : failsProbe .resolving sid x t outcomeClass = false := by
            have hgen' : task.scheduleGeneration.getD 0 ≠ s.outcomeGeneration := hgen
            unfold failsProbe
            simp [htask, hs, hgen']
          unfold seen
          dsimp only
          rw [hfails]
          exact hwaits'.later hclock rfl rfl rfl

/-! ### Runs -/

/-- What holds in a watched run. -/
structure WatchInv (sched : SchedulerSettings) (sid : ScheduleId) (x : Watched) : Prop where
  world : Inv sched x.world
  waits : ∀ s, x.world.db.schedules.get sid = some s → Waits sched s x.watch

theorem WatchInv.start (clock : Time) : WatchInv sched sid (.start clock) where
  world := .start sched
  waits s hs := by cases hs

/-- **The step.** -/
theorem WatchInv.next (hinv : WatchInv sched sid x) (h : watch sched .resolving sid x a = some x') :
    WatchInv sched sid x' := by
  unfold watch at h
  split at h
  · rename_i hclock
    obtain ⟨w', hstep, rfl⟩ := Option.map_eq_some_iff.mp h
    refine ⟨hinv.world.next hstep, fun s' hs' => ?_⟩
    rcases hs : x.world.db.schedules.get sid with - | s
    · -- a new schedule is closed
      have hclear := step_created hstep hs hs'
      have hclosed : interrupted sid x.world w' a = true := by
        unfold interrupted
        rw [hs', ← hclear]
        rfl
      show Waits sched s' (observe .resolving sid x a w')
      unfold observe
      rw [if_pos hclosed]
      exact .unwatched (hclear ▸ .clear s') _
    · obtain ⟨s₁, hs₁, hrow⟩ := step_row hstep hs
      obtain rfl := Option.some.inj (hs₁.symm.trans hs')
      exact (hinv.waits s hs).next (hinv.world.rows sid s hs) hclock hs hs₁ hrow
  · cases h

/-- **The breaker throttles.**  While it is neither closed nor held and no
neutral outcome is recorded, the tasks the timer admits are the base apart, and
after the `k`-th transient outcome in a row that found the breaker half open the
next one waits for `min (base * 2 ^ k) max`. -/
theorem throttled {clock : Time} (hrun : Run (watch sched .resolving sid) (.start clock) x)
    {now : Time} {current : Option ArtifactId} {t : TaskId} {task : Task}
    (h : watch sched .resolving sid x (.fireTimer now sid current t task) = some x') :
    (∀ t₀, x.watch.lastAdmitted = some t₀ → t₀ + sched.breakerBackoffBaseSeconds ≤ now) ∧
      ∀ t₁, x.watch.lastFailed = some t₁ → t₁ + backoffAfter sched x.watch.failures ≤ now := by
  have hinv : WatchInv sched sid x :=
    hrun.invariant (fun _ _ _ hinv _ h => hinv.next h) (.start clock)
  unfold watch at h
  split at h
  · obtain ⟨w', hstep, -⟩ := Option.map_eq_some_iff.mp h
    simp only [step] at hstep
    split at hstep
    · obtain ⟨s, hs, hadmits⟩ := Option.bind_eq_some_iff.mp hstep
      obtain ⟨s', hadmits, -⟩ := Option.map_eq_some_iff.mp hadmits
      have hwaits := hinv.waits s hs
      have hwf := hinv.world.rows sid s hs
      by_cases hunseen : s.breakerState = .closed ∨ s.breakerState = .held
      · obtain ⟨hadmitted, -, hfailed⟩ := hwaits.unseen hunseen
        constructor
        · intro t₀ ht₀
          rw [hadmitted] at ht₀
          cases ht₀
        · intro t₁ ht₁
          rw [hfailed] at ht₁
          cases ht₁
      · -- the breaker is due
        obtain ⟨r, hr, hdue⟩ : ∃ r, s.breakerRetryAt = some r ∧ r ≤ now := by
          rw [not_or] at hunseen
          have hstate : s.breakerState = .opened ∨ s.breakerState = .halfOpen := by
            cases hc : s.breakerState with
            | closed => exact absurd hc hunseen.1
            | held => exact absurd hc hunseen.2
            | opened => exact .inl rfl
            | halfOpen => exact .inr rfl
          obtain ⟨r, hr⟩ := Option.isSome_iff_exists.mp (hwf.retry hstate)
          refine ⟨r, hr, ?_⟩
          have hdue : s.due now = true := by
            unfold Schedule.admitBreaker at hadmits
            rcases hstate with hc | hc <;> simp only [hc] at hadmits <;> split at hadmits
            · assumption
            · cases hadmits
            · assumption
            · cases hadmits
          unfold Schedule.due at hdue
          rw [hr] at hdue
          exact of_decide_eq_true hdue
        exact ⟨fun t₀ ht₀ => (hwaits.admitted t₀ r ht₀ hr).trans hdue,
          fun t₁ ht₁ => (hwaits.failed t₁ r ht₁ hr).trans hdue⟩
    · cases hstep
  · cases h

/-- Two probes of one generation: the first outlives its deadline of 55, and fails
at 60; the second fails at 75. -/
def sampleProbes : List Action :=
  [.create 0 true 0 0, .triggerNow 0 0 {}, .record 5 0 0 .lost (some 4) true .transient,
    .fireTimer 15 0 none 1 {}, .fireTimer 55 0 none 2 {},
    .record 60 1 1 .lost (some 59) true .transient, .record 75 2 2 .lost (some 74) true .transient]

/-- **A second failed probe of a generation is not waited for.**  The first has
opened the breaker until 80, and the second does not put that off. -/
theorem not_throttled : ¬ ∀ (sched : SchedulerSettings) (sid : ScheduleId) (clock : Time)
    (x x' : Watched) (now : Time) (current : Option ArtifactId) (t : TaskId) (task : Task),
    Run (watch sched .admitted sid) (.start clock) x →
    watch sched .admitted sid x (.fireTimer now sid current t task) = some x' →
    (∀ t₀, x.watch.lastAdmitted = some t₀ → t₀ + sched.breakerBackoffBaseSeconds ≤ now) ∧
      ∀ t₁, x.watch.lastFailed = some t₁ → t₁ + backoffAfter sched x.watch.failures ≤ now := by
  intro h
  obtain ⟨x, hrun, hx⟩ := RunOk.exists_of_checkedRun (watch sampleSettings .admitted 0)
    (fun _ _ => True) (.start 0) sampleProbes
    (fun x => decide (x.watch.lastFailed = some 75 ∧ x.watch.failures = 2)
      && (watch sampleSettings .admitted 0 x (.fireTimer 80 0 none 3 {})).isSome)
    (by decide +kernel)
  obtain ⟨hfailed, hfires⟩ := Bool.and_eq_true_iff.mp hx
  obtain ⟨hlast, hcount⟩ := of_decide_eq_true hfailed
  obtain ⟨x', hx'⟩ := Option.isSome_iff_exists.mp hfires
  have hwait := (h sampleSettings 0 0 x x' 80 none 3 {} hrun hx').2 75 hlast
  rw [hcount] at hwait
  revert hwait
  decide

theorem throttled_sample : ∃ x x', x.watch.lastFailed = some 60 ∧
    watch sampleSettings .resolving 0 x (.fireTimer 80 0 none 3 {}) = some x' ∧
    60 + backoffAfter sampleSettings x.watch.failures ≤ 80 := by
  obtain ⟨x, hrun, hx⟩ := RunOk.exists_of_checkedRun (watch sampleSettings .resolving 0)
    (fun _ _ => True) (.start 0) sampleProbes
    (fun x => decide (x.watch.lastFailed = some 60)
      && (watch sampleSettings .resolving 0 x (.fireTimer 80 0 none 3 {})).isSome)
    (by decide +kernel)
  obtain ⟨hfailed, hfires⟩ := Bool.and_eq_true_iff.mp hx
  obtain ⟨x', hx'⟩ := Option.isSome_iff_exists.mp hfires
  exact ⟨x, x', of_decide_eq_true hfailed, hx', (throttled hrun hx').2 60
    (of_decide_eq_true hfailed)⟩

end Breaker

end Dopilot
