/-
Dopilot/Schedules.lean

Schedules and their circuit breakers.

A schedule whose last outcomes were all erroneous is not fired for a while: its
breaker is `open` and backs off, or `held` until somebody looks at it.  When an
open one is due, the timer admits one task as a probe and the breaker is
`half_open` until an outcome of the probe's generation arrives.

Here are the rows and what each operation does to one of them.  The settings
carry what the loader validates, so the back-off always reaches its cap
(`backoff_maxLevel`) and `min (base * 2 ^ level) max` is what it comes to
(`backoff_eq`).
-/
import Dopilot.ServerDb
import Mathlib.Algebra.Order.Ring.Int
import Mathlib.Tactic.Linarith
import Mathlib.Tactic.Ring

namespace Dopilot

abbrev TemplateId := Nat

/-! ### Settings -/

/-- `settings.scheduler`, as the loader lets it pass (`_validate_breaker`). -/
structure SchedulerSettings where
  autoDisableAfterErrors : Int
  breakerBackoffBaseSeconds : Time
  breakerBackoffMaxSeconds : Time
  breakerEscalateAfterSeconds : Time
  one_le_base : 1 ≤ breakerBackoffBaseSeconds
  base_le_max : breakerBackoffBaseSeconds ≤ breakerBackoffMaxSeconds
  escalate_nonneg : 0 ≤ breakerEscalateAfterSeconds

namespace SchedulerSettings

variable (sched : SchedulerSettings)

/-- The loop of `breaker_backoff_seconds`: the delay doubles until it reaches the cap. -/
def backoffDelay : Nat → Time → Time
  | 0, delay => delay
  | n + 1, delay =>
      if sched.breakerBackoffMaxSeconds ≤ delay then delay else backoffDelay n (delay * 2)

/-- `breaker_backoff_seconds`. -/
def breakerBackoffSeconds (level : Int) : Time :=
  min (sched.backoffDelay level.toNat sched.breakerBackoffBaseSeconds)
    sched.breakerBackoffMaxSeconds

/-- The loop of `breaker_max_level`, from a level on; it is left before it has
run as often as the cap has seconds. -/
def firstCapped : Nat → Int → Int
  | 0, level => level
  | n + 1, level =>
      if sched.breakerBackoffSeconds level < sched.breakerBackoffMaxSeconds then
        firstCapped n (level + 1)
      else level

/-- `breaker_max_level`. -/
def breakerMaxLevel : Int := sched.firstCapped sched.breakerBackoffMaxSeconds.toNat 0

end SchedulerSettings

/-! ### Rows -/

/-- The class of an outcome. -/
inductive OutcomeClass where
  | ok
  | neutral
  | transient
  | broken
  deriving DecidableEq, Repr

/-- `schedules.breaker_state`; `opened` is `open`. -/
inductive BreakerState where
  | closed
  | opened
  | halfOpen
  | held
  deriving DecidableEq, Repr

/-- What made the breaker trip: the threshold, or a probe that failed. -/
inductive BreakerTrigger where
  | threshold
  | probe
  deriving DecidableEq, Repr

/-- The outcome a `breaker_reason` was reached on. -/
structure LastError where
  taskId : TaskId
  status : TaskStatus
  outcomeClass : OutcomeClass
  finishedAt : Time
  deriving DecidableEq, Repr

/-- `schedules.breaker_reason`. -/
structure BreakerReason where
  kind : OutcomeClass
  trigger : BreakerTrigger
  consecutiveErrors : Nat
  threshold : Int
  taskIds : List TaskId := []
  lastError : LastError
  deriving DecidableEq, Repr

/-- One row of `schedules`. -/
structure Schedule where
  enabled : Bool := false
  maxConcurrency : Nat := 1
  executionTemplateId : TemplateId
  consecutiveErrorCount : Nat := 0
  outcomeGeneration : Nat := 0
  breakerState : BreakerState := .closed
  breakerLevel : Int := 0
  breakerOpenedAt : Option Time := none
  breakerRetryAt : Option Time := none
  breakerEscalatedAt : Option Time := none
  breakerReason : Option BreakerReason := none
  breakerArtifactId : Option ArtifactId := none
  deriving DecidableEq, Repr

/-! ### The breaker -/

namespace Schedule

/-- `clear_breaker`. -/
def clearBreaker (s : Schedule) : Schedule :=
  { s with
    breakerState := .closed
    breakerLevel := 0
    breakerOpenedAt := none
    breakerRetryAt := none
    breakerEscalatedAt := none
    breakerReason := none
    breakerArtifactId := none }

/-- `enter_half_open`: a new generation, and `retry_at` is the deadline of the probe. -/
def enterHalfOpen (sched : SchedulerSettings) (now : Time) (s : Schedule) : Schedule :=
  { s with
    breakerState := .halfOpen
    outcomeGeneration := s.outcomeGeneration + 1
    consecutiveErrorCount := 0
    breakerRetryAt := some (now + sched.breakerBackoffMaxSeconds) }

/-- Is the breaker due? -/
def due (s : Schedule) (now : Time) : Bool := s.breakerRetryAt.all (· ≤ now)

/-- `_admit_breaker` for a timer firing: the row it admits the firing with, or
`none` for a skip.  `current` is the artifact of the template. -/
def admitBreaker (sched : SchedulerSettings) (now : Time) (current : Option ArtifactId)
    (s : Schedule) : Option Schedule :=
  match s.breakerState with
  | .closed => some s
  | .opened => if s.due now then some (s.enterHalfOpen sched now) else none
  | .halfOpen =>
      if s.due now then
        some { s with breakerRetryAt := some (now + sched.breakerBackoffMaxSeconds) }
      else none
  | .held =>
      match s.breakerArtifactId with
      | none => none
      | some _ =>
          if current = none ∨ current = s.breakerArtifactId then none
          else some ({ s with breakerLevel := 0 }.enterHalfOpen sched now)

/-- `reset_schedule_breaker`. -/
def resetBreaker (s : Schedule) : Schedule :=
  if s.breakerState = .closed then s
  else
    { s.clearBreaker with
      outcomeGeneration := s.outcomeGeneration + 1
      consecutiveErrorCount := 0 }

/-- What a request may change of a schedule's row. -/
structure Update where
  executionTemplateId : Option TemplateId := none
  maxConcurrency : Option Nat := none
  enabled : Option Bool := none

/-- The part of `update_schedule` that writes `enabled`: to enable a disabled
schedule starts a new generation with a closed breaker. -/
def setEnabled (s : Schedule) (enabled : Bool) : Schedule :=
  if enabled = true ∧ s.enabled = false then
    { s.clearBreaker with
      enabled := true
      outcomeGeneration := s.outcomeGeneration + 1
      consecutiveErrorCount := 0 }
  else { s with enabled := enabled }

/-- `update_schedule`. -/
def update (s : Schedule) (data : Update) : Schedule :=
  let s := { s with
    executionTemplateId := data.executionTemplateId.getD s.executionTemplateId
    maxConcurrency := data.maxConcurrency.getD s.maxConcurrency }
  match data.enabled with
  | none => s
  | some enabled => s.setEnabled enabled

end Schedule

/-! ### Back-off -/

namespace SchedulerSettings

variable {sched : SchedulerSettings}

theorem one_le_max : 1 ≤ sched.breakerBackoffMaxSeconds := sched.one_le_base.trans sched.base_le_max

/-- The loop comes to the doubled delay, up to the cap. -/
theorem backoffDelay_min (n : Nat) {delay : Time} (h : 1 ≤ delay) :
    min (sched.backoffDelay n delay) sched.breakerBackoffMaxSeconds =
      min (delay * 2 ^ n) sched.breakerBackoffMaxSeconds := by
  induction n generalizing delay with
  | zero =>
      rw [pow_zero, mul_one]
      rfl
  | succ n ih =>
      unfold backoffDelay
      by_cases hcap : sched.breakerBackoffMaxSeconds ≤ delay
      · rw [if_pos hcap, min_eq_right hcap, min_eq_right]
        have hpow : (1 : Int) ≤ 2 ^ (n + 1) := one_le_pow₀ (by norm_num)
        calc sched.breakerBackoffMaxSeconds ≤ delay := hcap
          _ = delay * 1 := (mul_one delay).symm
          _ ≤ delay * 2 ^ (n + 1) := mul_le_mul_of_nonneg_left hpow (zero_le_one.trans h)
      · rw [if_neg hcap, ih (by linarith), pow_succ']
        congr 1
        ring

/-- **The back-off.** -/
theorem backoff_eq (level : Int) :
    sched.breakerBackoffSeconds level =
      min (sched.breakerBackoffBaseSeconds * 2 ^ level.toNat) sched.breakerBackoffMaxSeconds :=
  backoffDelay_min level.toNat sched.one_le_base

theorem backoff_le_max (level : Int) :
    sched.breakerBackoffSeconds level ≤ sched.breakerBackoffMaxSeconds := min_le_right ..

/-- A higher level does not back off for less. -/
theorem backoff_mono {level level' : Int} (h : level ≤ level') :
    sched.breakerBackoffSeconds level ≤ sched.breakerBackoffSeconds level' := by
  rw [backoff_eq, backoff_eq]
  apply min_le_min_right
  apply mul_le_mul_of_nonneg_left
  · exact pow_le_pow_right₀ (by norm_num) (Int.toNat_le_toNat h)
  · exact zero_le_one.trans sched.one_le_base

theorem base_le_backoff (level : Int) :
    sched.breakerBackoffBaseSeconds ≤ sched.breakerBackoffSeconds level := by
  rw [backoff_eq]
  apply le_min _ sched.base_le_max
  have hpow : (1 : Int) ≤ 2 ^ level.toNat := one_le_pow₀ (by norm_num)
  calc sched.breakerBackoffBaseSeconds = sched.breakerBackoffBaseSeconds * 1 := (mul_one _).symm
    _ ≤ sched.breakerBackoffBaseSeconds * 2 ^ level.toNat :=
        mul_le_mul_of_nonneg_left hpow (zero_le_one.trans sched.one_le_base)

/-- A level backs off for more seconds than it counts, until the cap is reached. -/
theorem lt_backoff {n : Nat}
    (h : sched.breakerBackoffSeconds n < sched.breakerBackoffMaxSeconds) :
    (n : Int) < sched.breakerBackoffSeconds n := by
  have hn : (n : Int).toNat = n := Int.toNat_natCast n
  rw [backoff_eq, hn] at h ⊢
  have hlt : sched.breakerBackoffBaseSeconds * 2 ^ n < sched.breakerBackoffMaxSeconds := by
    rcases min_lt_iff.mp h with hlt | hlt
    · exact hlt
    · exact absurd hlt (lt_irrefl _)
  rw [min_eq_left hlt.le]
  have hpow : (n : Int) < 2 ^ n := by exact_mod_cast Nat.lt_two_pow_self
  calc (n : Int) < 2 ^ n := hpow
    _ = 1 * 2 ^ n := (one_mul _).symm
    _ ≤ sched.breakerBackoffBaseSeconds * 2 ^ n :=
        mul_le_mul_of_nonneg_right sched.one_le_base (by positivity)

/-- The loop of `breaker_max_level` ends at a level that backs off for the cap,
and at none before it. -/
theorem firstCapped_spec (fuel : Nat) (level : Nat)
    (h : sched.breakerBackoffMaxSeconds ≤ (fuel + level : Nat)) :
    (level : Int) ≤ sched.firstCapped fuel level ∧
      sched.breakerBackoffSeconds (sched.firstCapped fuel level) =
        sched.breakerBackoffMaxSeconds := by
  induction fuel generalizing level with
  | zero =>
      refine ⟨le_refl _, (sched.backoff_le_max _).eq_of_not_lt fun hlt => ?_⟩
      have hlevel := lt_backoff hlt
      have hcap : sched.breakerBackoffMaxSeconds ≤ level := by simpa using h
      exact absurd (hlevel.trans hlt) (not_lt.mpr hcap)
  | succ fuel ih =>
      unfold firstCapped
      by_cases hlt : sched.breakerBackoffSeconds level < sched.breakerBackoffMaxSeconds
      · rw [if_pos hlt]
        obtain ⟨hle, hcap⟩ := ih (level + 1) (by rwa [Nat.add_right_comm] at h)
        rw [Nat.cast_add, Nat.cast_one] at hle hcap
        exact ⟨(lt_add_one _).le.trans hle, hcap⟩
      · rw [if_neg hlt]
        exact ⟨le_refl _, (sched.backoff_le_max _).eq_of_not_lt hlt⟩

/-- **The maximal level backs off for the cap.** -/
theorem backoff_maxLevel :
    sched.breakerBackoffSeconds sched.breakerMaxLevel = sched.breakerBackoffMaxSeconds := by
  exact (sched.firstCapped_spec _ 0 (Int.self_le_toNat _)).2

theorem maxLevel_nonneg : 0 ≤ sched.breakerMaxLevel := by
  exact (sched.firstCapped_spec _ 0 (Int.self_le_toNat _)).1

end SchedulerSettings

end Dopilot
