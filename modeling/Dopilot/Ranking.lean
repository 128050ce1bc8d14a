/-
Dopilot/Ranking.lean

The first elements of a sorted list.

A list that keeps some elements of a sorted one begins like it if it has the
first elements of the sorted one, and no element of its own stands before one
of them out of order (`take_eq_of_ranked`).  A beginning of the sorted list stays
one with the least of the others behind it (`prefix_concat`).  An element that few
others precede is among the first (`mem_take_of_countP`).  How long a prefix is, up
to `n`, depends on the first elements up to the one that ends it
(`le_takeWhile_iff`).
-/
import Mathlib.Data.List.Sort

namespace Ranking

variable {α : Type*} {r : α → α → Prop} {l L : List α} {n : Nat}

/-- A list with the first `n` elements of a sorted one, in order, has them first. -/
theorem take_eq_of_ranked (hr : ∀ a ∈ L, ∀ b ∈ L, r a b → r b a → a = b)
    (hL : L.Pairwise r) (hLnodup : L.Nodup) (hnodup : l.Nodup) (hsub : ∀ x ∈ l, x ∈ L)
    (hall : ∀ x ∈ L.take n, x ∈ l) (horder : l.Pairwise fun y x => x ∈ L.take n → r y x) :
    l.take n = L.take n := by
  induction L generalizing l n with
  | nil => rw [List.eq_nil_iff_forall_not_mem.mpr fun x hx => List.not_mem_nil (hsub x hx)]
  | cons a L ih =>
      cases n with
      | zero => rfl
      | succ n =>
          rw [List.pairwise_cons] at hL
          rw [List.nodup_cons] at hLnodup
          rw [List.take_succ_cons] at hall horder ⊢
          cases l with
          | nil => exact absurd (hall a List.mem_cons_self) List.not_mem_nil
          | cons b l =>
              rw [List.nodup_cons] at hnodup
              rw [List.pairwise_cons] at horder
              have hb : b = a := by
                rcases List.mem_cons.mp (hall a List.mem_cons_self) with h | h
                · exact h.symm
                · -- the first of `L` stands behind `b`, so `b` comes before it in `L` too
                  have hba : r b a := horder.1 a h List.mem_cons_self
                  rcases List.mem_cons.mp (hsub b List.mem_cons_self) with h' | h'
                  · exact h'
                  · exact hr b (List.mem_cons_of_mem a h') a List.mem_cons_self hba (hL.1 b h')
              subst hb
              rw [List.take_succ_cons, ih (fun x hx y hy =>
                hr x (List.mem_cons_of_mem b hx) y (List.mem_cons_of_mem b hy)) hL.2 hLnodup.2
                hnodup.2]
              · intro x hx
                rcases List.mem_cons.mp (hsub x (List.mem_cons_of_mem b hx)) with rfl | h
                · exact absurd hx hnodup.1
                · exact h
              · intro x hx
                rcases List.mem_cons.mp (hall x (List.mem_cons_of_mem b hx)) with rfl | h
                · exact absurd (List.mem_of_mem_take hx) hLnodup.1
                · exact h
              · exact horder.2.imp fun h hx => h (List.mem_cons_of_mem b hx)

/-- A beginning of a sorted list grows by the least of the elements that follow. -/
theorem prefix_concat {x : α} (hr : ∀ a ∈ L, ∀ b ∈ L, r a b → r b a → a = b)
    (hL : L.Pairwise r) (hnodup : L.Nodup) (hl : l <+: L) (hx : x ∈ L) (hnew : x ∉ l)
    (hleast : ∀ y ∈ L, y ∉ l → r x y) : l ++ [x] <+: L := by
  obtain ⟨rest, rfl⟩ := hl
  cases rest with
  | nil =>
      rw [List.append_nil] at hx
      exact absurd hx hnew
  | cons a rest =>
      have ha : a ∈ l ++ a :: rest := List.mem_append_right _ List.mem_cons_self
      have hal : a ∉ l := fun hmem =>
        (List.nodup_append.mp hnodup).2.2 a hmem a List.mem_cons_self rfl
      have hax : x = a := by
        rcases List.mem_append.mp hx with hmem | hmem
        · exact absurd hmem hnew
        · rcases List.mem_cons.mp hmem with h | h
          · exact h
          · have hrest := (List.pairwise_append.mp hL).2.1
            exact hr x hx a ha (hleast a ha hal) ((List.pairwise_cons.mp hrest).1 x h)
      subst hax
      exact ⟨rest, List.append_cons l x rest |>.symm⟩

/-- What fewer than `n` elements precede is among the first `n`. -/
theorem mem_take_of_countP {x : α} {p : α → Bool} (hl : l.Pairwise r) (hx : x ∈ l)
    (hp : ∀ y ∈ l, y ≠ x → r y x → p y = true) (hcount : l.countP p < n) : x ∈ l.take n := by
  induction l generalizing n with
  | nil => cases hx
  | cons a l ih =>
      rw [List.pairwise_cons] at hl
      cases n with
      | zero => cases hcount
      | succ n =>
          rw [List.take_succ_cons]
          rcases List.mem_cons.mp hx with rfl | hmem
          · exact List.mem_cons_self
          · by_cases hax : a = x
            · rw [hax]
              exact List.mem_cons_self
            · have ha : p a = true := hp a List.mem_cons_self hax (hl.1 x hmem)
              rw [List.countP_cons_of_pos ha] at hcount
              exact List.mem_cons_of_mem a (ih hl.2 hmem
                (fun y hy => hp y (List.mem_cons_of_mem a hy)) (by omega))

/-- Lists that agree up to the first element outside a condition, or up to `n`
elements, both have `n` elements that meet it in front, or neither. -/
theorem le_takeWhile_iff {p : α → Bool}
    (h : l.take (min n ((L.takeWhile p).length + 1)) =
      L.take (min n ((L.takeWhile p).length + 1))) :
    n ≤ (l.takeWhile p).length ↔ n ≤ (L.takeWhile p).length := by
  induction L generalizing l n with
  | nil =>
      cases n with
      | zero => exact iff_of_true (Nat.zero_le _) (Nat.zero_le _)
      | succ n =>
          rw [List.takeWhile_nil, List.length_nil, Nat.add_min_add_right, Nat.min_zero,
            List.take_nil] at h
          cases l with
          | nil => exact Iff.rfl
          | cons b l => cases h
  | cons a L ih =>
      cases n with
      | zero => exact iff_of_true (Nat.zero_le _) (Nat.zero_le _)
      | succ n =>
          rw [List.takeWhile_cons] at h ⊢
          rw [Nat.add_min_add_right, List.take_succ_cons] at h
          cases l with
          | nil => cases h
          | cons b l =>
              rw [List.take_succ_cons, List.cons.injEq] at h
              obtain ⟨rfl, h⟩ := h
              rw [List.takeWhile_cons]
              by_cases hb : p b = true
              · rw [if_pos hb] at h
                rw [if_pos hb, if_pos hb, List.length_cons, List.length_cons,
                  Nat.succ_le_succ_iff, Nat.succ_le_succ_iff, ih h]
              · rw [if_neg hb, if_neg hb]

end Ranking
