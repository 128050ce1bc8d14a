/-
Dopilot/TokenBucket.lean

A token bucket that is watched.

The bucket is filled at a rate up to its capacity, and tokens are taken only while
they are there.  A `Meter` counts beside the level what was taken and how much time
was filled in.  What was taken and what is left never grows by more than the rate
times that time (`Steps.taken_add_level_le`), and this bounds what can be taken
between any two moments (`Steps.taken_le`).
-/
import Mathlib.Algebra.Order.Field.Basic
import Mathlib.Logic.Relation
import Mathlib.Tactic.Linarith

namespace TokenBucket

variable {K : Type*} [Field K] [LinearOrder K] [IsStrictOrderedRing K]

/-- The level, and what was taken and how much time has passed so far. -/
structure Meter (K : Type*) where
  level : K
  taken : K
  passed : K

namespace Meter

/-- Time passes: tokens come in, up to the capacity. -/
def refill (capacity rate elapsed : K) (m : Meter K) : Meter K :=
  { m with
    level := min capacity (m.level + elapsed * rate)
    passed := m.passed + elapsed }

/-- Tokens are taken. -/
def take (n : K) (m : Meter K) : Meter K :=
  { m with
    level := m.level - n
    taken := m.taken + n }

/-- The level is between nothing and the capacity. -/
structure Within (capacity : K) (m : Meter K) : Prop where
  nonneg : 0 ≤ m.level
  le : m.level ≤ capacity

end Meter

variable {capacity rate : K} {m m' : Meter K}

/-- One thing that happens to a bucket. -/
inductive Step (capacity rate : K) : Meter K → Meter K → Prop
  | refill (m : Meter K) {elapsed : K} (h : 0 ≤ elapsed) :
      Step capacity rate m (m.refill capacity rate elapsed)
  | take (m : Meter K) {n : K} (h : 0 ≤ n) (hn : n ≤ m.level) :
      Step capacity rate m (m.take n)

abbrev Steps (capacity rate : K) : Meter K → Meter K → Prop :=
  Relation.ReflTransGen (Step capacity rate)

theorem Step.within (hc : 0 ≤ capacity) (hr : 0 ≤ rate) (h : Step capacity rate m m')
    (hm : m.Within capacity) : m'.Within capacity := by
  cases h with
  | refill helapsed =>
      have hin := mul_nonneg helapsed hr
      refine ⟨le_min hc ?_, min_le_left _ _⟩
      have hlevel := hm.nonneg
      linarith
  | take hn hle =>
      refine ⟨sub_nonneg.mpr hle, ?_⟩
      show m.level - _ ≤ capacity
      have hlevel := hm.le
      linarith

/-- The level stays between nothing and the capacity. -/
theorem Steps.within (hc : 0 ≤ capacity) (hr : 0 ≤ rate) (h : Steps capacity rate m m')
    (hm : m.Within capacity) : m'.Within capacity := by
  induction h with
  | refl => exact hm
  | tail _ hstep ih => exact hstep.within hc hr ih

theorem Step.taken_add_level_le (h : Step capacity rate m m') :
    m'.taken + m'.level ≤ m.taken + m.level + rate * (m'.passed - m.passed) := by
  cases h with
  | @refill elapsed helapsed =>
      have hmin : min capacity (m.level + elapsed * rate) ≤ m.level + elapsed * rate :=
        min_le_right _ _
      show m.taken + min capacity (m.level + elapsed * rate)
        ≤ m.taken + m.level + rate * (m.passed + elapsed - m.passed)
      rw [add_sub_cancel_left, mul_comm rate]
      linarith
  | @take n hn hle =>
      show m.taken + n + (m.level - n) ≤ m.taken + m.level + rate * (m.passed - m.passed)
      rw [sub_self, mul_zero]
      linarith

/-- **Tokens come from time alone.** -/
theorem Steps.taken_add_level_le (h : Steps capacity rate m m') :
    m'.taken + m'.level ≤ m.taken + m.level + rate * (m'.passed - m.passed) := by
  induction h with
  | refl => simp
  | tail _ hstep ih =>
      have hnext := hstep.taken_add_level_le
      rw [mul_sub] at ih hnext ⊢
      linarith

/-- What is taken between two moments is what the bucket holds and what comes in. -/
theorem Steps.taken_le (h : Steps capacity rate m m') (hm : m.Within capacity) :
    m'.taken + m'.level ≤ m.taken + capacity + rate * (m'.passed - m.passed) := by
  have hlevel := hm.le
  have htaken := h.taken_add_level_le
  linarith

end TokenBucket
