/-
Dopilot/Loops.lean

Loops that say themselves when they are left.

`next` is one turn of a loop: the state behind it, and whether the loop goes on.
`Runs next s t` says that the loop, entered in `s`, is left in `t`.  A loop is
left in one state at most (`Runs.unique`); what every turn preserves holds up to
the last one (`Runs.invariant`), and wherever the loop comes to (`Passes`); and a
loop whose turns all lower a measure is left.  `run` executes a loop with a bound on its turns, and with a measure below
the bound it is the loop (`Runs.of_measure`).
-/
import Mathlib.Logic.Relation
import Mathlib.Order.WellFounded

namespace Loop

variable {σ : Type*} {next : σ → Bool × σ} {s t m : σ}

/-- The loop, entered in the first state, is left in the second. -/
inductive Runs (next : σ → Bool × σ) : σ → σ → Prop
  | exit {s t : σ} (h : next s = (false, t)) : Runs next s t
  | again {s m t : σ} (h : next s = (true, m)) (rest : Runs next m t) : Runs next s t

/-- A loop is left in one state at most. -/
theorem Runs.unique {t' : σ} (h : Runs next s t) (h' : Runs next s t') : t = t' := by
  induction h with
  | exit hs =>
      cases h' with
      | exit hs' => exact (Prod.ext_iff.mp (hs.symm.trans hs')).2
      | again hs' rest =>
          have hgo := (Prod.ext_iff.mp (hs.symm.trans hs')).1
          cases hgo
  | again hs rest ih =>
      cases h' with
      | exit hs' =>
          have hgo := (Prod.ext_iff.mp (hs.symm.trans hs')).1
          cases hgo
      | again hs' rest' =>
          have hm := (Prod.ext_iff.mp (hs.symm.trans hs')).2
          subst hm
          exact ih rest'

/-- **The invariant rule**: what every turn preserves holds before the last one. -/
theorem Runs.invariant {P : σ → Prop} (h : Runs next s t) (hs : P s)
    (hturn : ∀ s m, P s → next s = (true, m) → P m) : ∃ s', P s' ∧ next s' = (false, t) := by
  induction h with
  | exit hlast => exact ⟨_, hs, hlast⟩
  | again hgo rest ih => exact ih (hturn _ _ hs hgo)

/-- The loop, entered in the first state, comes to the second. -/
def Passes (next : σ → Bool × σ) : σ → σ → Prop :=
  Relation.ReflTransGen fun s m => next s = (true, m)

/-- What every turn preserves holds wherever the loop comes to. -/
theorem Passes.invariant {P : σ → Prop} (h : Passes next s m) (hs : P s)
    (hturn : ∀ s m, P s → next s = (true, m) → P m) : P m := by
  induction h with
  | refl => exact hs
  | tail _ hlast ih => exact hturn _ _ ih hlast

/-- A loop is left where it comes to, and is left. -/
theorem Passes.runs (h : Passes next s m) (hm : Runs next m t) : Runs next s t := by
  induction h using Relation.ReflTransGen.head_induction_on with
  | refl => exact hm
  | head hgo _ ih => exact .again hgo ih

/-- The loop, with at most so many turns. -/
def run (next : σ → Bool × σ) : Nat → σ → σ
  | 0, s => s
  | n + 1, s => if (next s).1 then run next n (next s).2 else (next s).2

/-- **The termination rule**: a loop whose turns lower a measure is left, and to
run it takes no more turns than that. -/
theorem Runs.of_measure {P : σ → Prop} (μ : σ → Nat)
    (hturn : ∀ s m, P s → next s = (true, m) → P m ∧ μ m < μ s) {n : Nat} (hs : P s)
    (hn : μ s < n) : Runs next s (run next n s) := by
  induction n generalizing s with
  | zero => exact absurd hn (Nat.not_lt_zero _)
  | succ n ih =>
      rcases hnext : next s with ⟨go, m⟩
      rw [run, hnext]
      cases go with
      | false => exact .exit hnext
      | true =>
          obtain ⟨hm, hlt⟩ := hturn s m hs hnext
          exact .again hnext (ih hm (hlt.trans_le (Nat.le_of_lt_succ hn)))

end Loop
