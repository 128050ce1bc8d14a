/-
Dopilot/Spans.lean

Spans that follow each other without gap and overlap.

Every element of a list has a span `[start, stop)`.  `Chained a l b` says that the
spans lead from `a` to `b`, each beginning where the one before it has ended.  A
point between `a` and `b` then lies in exactly one of them (`Chained.count_eq_one`).
-/
import Mathlib

namespace Spans

variable {α O : Type*} [LinearOrder O] {start stop : α → O} {a b c n : O} {x : α} {l l' : List α}

/-- The spans lead from the first point to the second. -/
def Chained (start stop : α → O) : O → List α → O → Prop
  | a, [], b => a = b
  | a, x :: l, b => start x = a ∧ a < stop x ∧ Chained start stop (stop x) l b

/-- The point lies in the span. -/
def covers (start stop : α → O) (n : O) (x : α) : Bool := decide (start x ≤ n ∧ n < stop x)

theorem Chained.refl (a : O) : Chained start stop a [] a := rfl

theorem Chained.single (hstart : start x = a) (h : a < stop x) :
    Chained start stop a [x] (stop x) :=
  ⟨hstart, h, rfl⟩

theorem Chained.le (h : Chained start stop a l b) : a ≤ b := by
  induction l generalizing a with
  | nil => exact le_of_eq h
  | cons x l ih => exact h.2.1.le.trans (ih h.2.2)

theorem Chained.append (h : Chained start stop a l b) (h' : Chained start stop b l' c) :
    Chained start stop a (l ++ l') c := by
  induction l generalizing a with
  | nil =>
      obtain rfl : a = b := h
      exact h'
  | cons x l ih => exact ⟨h.1, h.2.1, ih h.2.2⟩

/-- Chained spans may be cut between two of them. -/
theorem Chained.split (h : Chained start stop a (l ++ l') c) :
    ∃ b, Chained start stop a l b ∧ Chained start stop b l' c := by
  induction l generalizing a with
  | nil => exact ⟨a, rfl, h⟩
  | cons x l ih =>
      obtain ⟨hstart, hlt, hrest⟩ := h
      obtain ⟨b, hl, hl'⟩ := ih hrest
      exact ⟨b, ⟨hstart, hlt, hl⟩, hl'⟩

theorem Chained.head_eq (h : Chained start stop a l b) (hx : l.head? = some x) : start x = a := by
  cases l with
  | nil => cases hx
  | cons y l =>
      obtain rfl : y = x := Option.some.inj hx
      exact h.1

theorem Chained.last_eq (h : Chained start stop a l b) (hx : l.getLast? = some x) :
    stop x = b := by
  obtain ⟨l, rfl⟩ := List.getLast?_eq_some_iff.mp hx
  obtain ⟨c, -, -, -, hb⟩ := h.split
  exact hb

/-- No span reaches behind the end. -/
theorem Chained.stop_le (h : Chained start stop a l b) (hx : x ∈ l) : stop x ≤ b := by
  induction l generalizing a with
  | nil => cases hx
  | cons y l ih =>
      obtain ⟨-, -, hrest⟩ := h
      rcases List.mem_cons.mp hx with rfl | hx
      · exact hrest.le
      · exact ih hrest hx

theorem Chained.le_start (h : Chained start stop a l b) (hx : x ∈ l) : a ≤ start x := by
  induction l generalizing a with
  | nil => cases hx
  | cons y l ih =>
      obtain ⟨hstart, hlt, hrest⟩ := h
      rcases List.mem_cons.mp hx with rfl | hx
      · exact hstart.ge
      · exact hlt.le.trans (ih hrest hx)

/-- Chained spans may be cut at a point that lies inside none of them. -/
theorem Chained.cut (h : Chained start stop a l c) (ha : a ≤ b) (hb : b ≤ c)
    (hnone : ∀ x ∈ l, ¬ (start x < b ∧ b < stop x)) :
    ∃ l₁ l₂, l = l₁ ++ l₂ ∧ Chained start stop a l₁ b ∧ Chained start stop b l₂ c := by
  induction l generalizing a with
  | nil =>
      obtain rfl : a = c := h
      obtain rfl : a = b := le_antisymm ha hb
      exact ⟨[], [], rfl, rfl, rfl⟩
  | cons x l ih =>
      obtain ⟨hstart, hlt, hrest⟩ := h
      rcases eq_or_lt_of_le ha with rfl | hab
      · exact ⟨[], x :: l, rfl, rfl, hstart, hlt, hrest⟩
      · -- the point lies behind the first span
        have hx : stop x ≤ b := by
          refine not_lt.mp fun hbx => hnone x List.mem_cons_self ⟨?_, hbx⟩
          rw [hstart]
          exact hab
        obtain ⟨l₁, l₂, rfl, h₁, h₂⟩ := ih hrest hx
          fun y hy => hnone y (List.mem_cons_of_mem x hy)
        exact ⟨x :: l₁, l₂, rfl, ⟨hstart, hlt, h₁⟩, h₂⟩

/-- **A point on the way lies in exactly one span.** -/
theorem Chained.count_eq_one (h : Chained start stop a l b) (ha : a ≤ n) (hb : n < b) :
    l.countP (covers start stop n) = 1 := by
  induction l generalizing a with
  | nil =>
      obtain rfl : a = b := h
      exact absurd ha (not_le.mpr hb)
  | cons x l ih =>
      obtain ⟨hstart, hlt, hrest⟩ := h
      rw [List.countP_cons]
      by_cases hn : n < stop x
      · -- the others begin behind it
        have hx : covers start stop n x = true := decide_eq_true ⟨hstart.trans_le ha, hn⟩
        have hl : l.countP (covers start stop n) = 0 := by
          apply List.countP_eq_zero.mpr
          intro y hy hcovers
          exact absurd ((hrest.le_start hy).trans (of_decide_eq_true hcovers).1) (not_le.mpr hn)
        rw [hl, hx]
        rfl
      · have hx : covers start stop n x = false := decide_eq_false fun hcovers => hn hcovers.2
        rw [ih hrest (not_lt.mp hn), hx]
        rfl

end Spans
