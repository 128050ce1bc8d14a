/-
Dopilot/Latch.lean

Logs in which something fires at most once between two resets.

A log is read from its newest entry.  `fired` counts the shots since the last
reset, and a log is one-shot if no stretch of it without a reset has two shots
(`OneShot`).  A log stays one-shot when an entry is added that leaves at most one
shot behind the last reset.
-/
import Mathlib.Data.List.Count

namespace Latch

variable {α : Type*} {reset shot : α → Bool} {x : α} {log entries : List α}

/-- The shots since the last reset; the newest entry comes first. -/
def fired (reset shot : α → Bool) : List α → Nat
  | [] => 0
  | x :: log => if reset x then 0 else fired reset shot log + if shot x then 1 else 0

/-- At most one shot where there is no reset. -/
def OneShot (reset shot : α → Bool) (log : List α) : Prop :=
  ∀ l₁ l₂ l₃, log = l₁ ++ l₂ ++ l₃ → (∀ x ∈ l₂, reset x = false) → l₂.countP shot ≤ 1

theorem fired_reset (h : reset x = true) : fired reset shot (x :: log) = 0 := by
  rw [fired, if_pos h]

theorem fired_other (hreset : reset x = false) (hshot : shot x = false) :
    fired reset shot (x :: log) = fired reset shot log := by
  rw [fired, hreset, hshot]
  rfl

/-- Entries without a reset add their shots. -/
theorem fired_append (h : ∀ x ∈ entries, reset x = false) :
    fired reset shot (entries ++ log) = entries.countP shot + fired reset shot log := by
  induction entries with
  | nil => exact (Nat.zero_add _).symm
  | cons y entries ih =>
      have hy : reset y = false := h y List.mem_cons_self
      rw [List.cons_append, fired, hy, if_neg Bool.false_ne_true,
        ih fun x hx => h x (List.mem_cons_of_mem y hx), List.countP_cons]
      omega

theorem OneShot.nil : OneShot reset shot ([] : List α) := by
  intro l₁ l₂ l₃ h _
  obtain ⟨h, -⟩ := List.append_eq_nil_iff.mp h.symm
  rw [(List.append_eq_nil_iff.mp h).2]
  exact Nat.zero_le 1

/-- A one-shot log has at most one shot behind its last reset. -/
theorem OneShot.fired_le (h : OneShot reset shot log) : fired reset shot log ≤ 1 := by
  have hstretch : ∃ l₂ l₃, log = l₂ ++ l₃ ∧ (∀ x ∈ l₂, reset x = false) ∧
      fired reset shot log = l₂.countP shot := by
    clear h
    induction log with
    | nil => exact ⟨[], [], rfl, fun x hx => absurd hx List.not_mem_nil, rfl⟩
    | cons y log ih =>
        by_cases hy : reset y = true
        · refine ⟨[], y :: log, rfl, fun x hx => absurd hx List.not_mem_nil, ?_⟩
          exact fired_reset hy
        · obtain ⟨l₂, l₃, rfl, hfree, hcount⟩ := ih
          refine ⟨y :: l₂, l₃, rfl, ?_, ?_⟩
          · intro x hx
            rcases List.mem_cons.mp hx with rfl | hx
            · exact eq_false_of_ne_true hy
            · exact hfree x hx
          · rw [fired, if_neg hy, hcount, List.countP_cons]
  obtain ⟨l₂, l₃, heq, hfree, hcount⟩ := hstretch
  rw [hcount]
  exact h [] l₂ l₃ heq hfree

/-- An entry may be added if at most one shot is then behind the last reset. -/
theorem OneShot.cons (h : OneShot reset shot log) (hx : fired reset shot (x :: log) ≤ 1) :
    OneShot reset shot (x :: log) := by
  intro l₁ l₂ l₃ heq hfree
  cases l₁ with
  | cons y l₁ => exact h l₁ l₂ l₃ (List.cons.inj heq).2 hfree
  | nil =>
      -- the stretch is the newest one
      rw [List.nil_append] at heq
      have hcount : fired reset shot (l₂ ++ l₃) = l₂.countP shot + fired reset shot l₃ :=
        fired_append hfree
      rw [← heq] at hcount
      omega

theorem OneShot.append (h : OneShot reset shot log) (hfree : ∀ x ∈ entries, reset x = false)
    (hfired : entries.countP shot + fired reset shot log ≤ 1) :
    OneShot reset shot (entries ++ log) := by
  induction entries with
  | nil => exact h
  | cons y entries ih =>
      have hrest : ∀ x ∈ entries, reset x = false := fun x hx => hfree x (List.mem_cons_of_mem y hx)
      have hall : fired reset shot (y :: entries ++ log) ≤ 1 := by
        rw [fired_append hfree]
        exact hfired
      rw [List.countP_cons] at hfired
      exact (ih hrest (by omega)).cons hall

end Latch
