/-
Dopilot/Backoff.lean

The arithmetic of the back-off.

The delay of a level is found by a loop that stops doubling at the cap, and the
highest level by a loop that counts up until the delay is the cap.  The second
loop has no bound of its own: it is left because the delay doubles with each of
its turns (`maxLevel_runs`).  What it finds is the least level that backs off for
the cap, so a level that is counted up to it never backs off for less.
-/
import Dopilot.Ledger
import Dopilot.Loops
import Mathlib

namespace Dopilot

namespace SchedulerSettings

variable {sched : SchedulerSettings}

/-- A turn of the loop of `breaker_max_level`. -/
def nextLevel (sched : SchedulerSettings) (level : Int) : Bool × Int :=
  if sched.breakerBackoffSeconds level < sched.breakerBackoffMaxSeconds then (true, level + 1)
  else (false, level)

/-- With enough turns to come, the counted loop is the loop of the source. -/
theorem firstCapped_runs (fuel level : Nat)
    (h : sched.breakerBackoffMaxSeconds ≤ (fuel + level : Nat)) :
    Loop.Runs sched.nextLevel level (sched.firstCapped fuel level) := by
  induction fuel generalizing level with
  | zero =>
      have hcap := (firstCapped_spec 0 level h).2
      exact .exit (if_neg (not_lt.mpr hcap.ge))
  | succ fuel ih =>
      unfold firstCapped
      by_cases hlt : sched.breakerBackoffSeconds level < sched.breakerBackoffMaxSeconds
      · rw [if_pos hlt]
        refine .again (m := (level : Int) + 1) (if_pos hlt) ?_
        have hrest := ih (level + 1) (by rwa [Nat.add_right_comm] at h)
        rwa [Nat.cast_add, Nat.cast_one] at hrest
      · rw [if_neg hlt]
        exact .exit (if_neg hlt)

/-- **The loop is left, at the highest level.** -/
theorem maxLevel_runs : Loop.Runs sched.nextLevel 0 sched.breakerMaxLevel :=
  sched.firstCapped_runs _ 0 (Int.self_le_toNat _)

/-- No level that the loop has passed backs off for the cap. -/
theorem lt_of_lt_maxLevel {level : Int} (h0 : 0 ≤ level) (hlt : level < sched.breakerMaxLevel) :
    sched.breakerBackoffSeconds level < sched.breakerBackoffMaxSeconds := by
  -- invariant of the loop: the levels below the one it is at have been passed
  have hruns : Loop.Runs sched.nextLevel 0 sched.breakerMaxLevel := maxLevel_runs
  have hpassed := hruns.invariant
    (P := fun l => ∀ k, 0 ≤ k → k < l →
      sched.breakerBackoffSeconds k < sched.breakerBackoffMaxSeconds)
    (fun k hk hk0 => absurd hk0 (not_lt.mpr hk))
    (by
      intro l m hl hnext k hk hkm
      unfold nextLevel at hnext
      split at hnext
      · rename_i hgo
        obtain ⟨-, rfl⟩ := Prod.ext_iff.mp hnext
        rcases (Int.lt_add_one_iff.mp hkm).lt_or_eq with hkl | rfl
        · exact hl k hk hkl
        · exact hgo
      · cases hnext)
  obtain ⟨l, hl, hlast⟩ := hpassed
  unfold nextLevel at hlast
  split at hlast
  · cases hlast
  · obtain ⟨-, hlm⟩ := Prod.ext_iff.mp hlast
    exact hl level h0 (hlt.trans_le (le_of_eq hlm.symm))

/-- **The highest level** is the least one that backs off for the cap. -/
theorem isLeast_maxLevel :
    IsLeast {level : Int | 0 ≤ level ∧
      sched.breakerBackoffSeconds level = sched.breakerBackoffMaxSeconds}
      sched.breakerMaxLevel := by
  refine ⟨⟨maxLevel_nonneg, backoff_maxLevel⟩, ?_⟩
  rintro level ⟨h0, hcap⟩
  by_contra hlt
  exact (lt_of_lt_maxLevel h0 (not_le.mp hlt)).ne hcap

/-- A level counted up to the highest one backs off for no less. -/
theorem backoff_le_counted (level : Int) :
    sched.breakerBackoffSeconds level ≤
      sched.breakerBackoffSeconds (min (level + 1) sched.breakerMaxLevel) := by
  rcases le_total (level + 1) sched.breakerMaxLevel with hle | hle
  · rw [min_eq_left hle]
    exact backoff_mono (lt_add_one level).le
  · rw [min_eq_right hle, backoff_maxLevel]
    exact backoff_le_max level

/-- **The back-off**: the delay is the base, doubled for each level, up to the
cap, and does not fall with the level; the search for the highest level is left
at the least level whose delay is the cap; and the level of a failed probe backs
off for no less than the one before. -/
theorem backoff_levels (sched : SchedulerSettings) :
    (∀ level : Nat, sched.breakerBackoffSeconds level =
        min (sched.breakerBackoffBaseSeconds * 2 ^ level) sched.breakerBackoffMaxSeconds) ∧
      Monotone sched.breakerBackoffSeconds ∧
      Loop.Runs sched.nextLevel 0 sched.breakerMaxLevel ∧
      IsLeast {level : Int | 0 ≤ level ∧
        sched.breakerBackoffSeconds level = sched.breakerBackoffMaxSeconds}
        sched.breakerMaxLevel ∧
      (∀ level : Int, sched.breakerBackoffSeconds level ≤
        sched.breakerBackoffSeconds (min (level + 1) sched.breakerMaxLevel)) ∧
      ∀ (now : Time) (reason : BreakerReason) (s : Schedule),
        sched.breakerBackoffSeconds s.breakerLevel ≤
          sched.breakerBackoffSeconds (s.reopen sched now reason).breakerLevel := by
  refine ⟨fun level => ?_, fun _ _ h => backoff_mono h, maxLevel_runs, isLeast_maxLevel,
    backoff_le_counted, fun now reason s => ?_⟩
  · have heq : sched.breakerBackoffSeconds level = _ := backoff_eq level
    rwa [Int.toNat_natCast] at heq
  · exact backoff_le_counted s.breakerLevel

end SchedulerSettings

end Dopilot
