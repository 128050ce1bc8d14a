/-
Dopilot/Occurrences.lean

Where a pattern occurs in a text.

`lastFrom` is the text from the last occurrence of a pattern on, and `firstMatch`
what a matcher finds at the first place where it finds something.  A pattern does
not begin where its first element is not (`infix_append_of_head`), and does not
extend over an element that it does not have (`infix_append_of_stop`); so whether
it occurs in a text of several parts is decided in each part on its own.
-/
import Mathlib.Data.List.Infix

namespace Occurrences

variable {α β : Type*} {p t : List α}

/-! ### Parts of a text -/

/-- A pattern does not begin in a part without its first element. -/
theorem infix_append_of_head {c : α} {p a b : List α} (ha : c ∉ a) :
    c :: p <:+: a ++ b ↔ c :: p <:+: b := by
  constructor
  · intro h
    induction a with
    | nil => exact h
    | cons x a ih =>
        rw [List.mem_cons, not_or] at ha
        rw [List.cons_append, List.infix_cons_iff] at h
        rcases h with hhead | hrest
        · obtain ⟨rest, hrest⟩ := hhead
          exact absurd (List.cons.inj hrest).1 ha.1
        · exact ih ha.2 hrest
  · exact fun h => h.trans (List.suffix_append a b).isInfix

/-- A pattern at the beginning of a text ends before an element that it does not
have. -/
theorem prefix_append_of_stop {d : α} {a b : List α} (hd : d ∉ p) :
    p <+: a ++ d :: b ↔ p <+: a := by
  constructor
  · intro h
    induction a generalizing p with
    | nil =>
        cases p with
        | nil => exact List.nil_prefix
        | cons x p =>
            obtain ⟨rest, hrest⟩ := h
            have hx : x = d := (List.cons.inj hrest).1
            exact absurd (hx ▸ List.mem_cons_self) hd
    | cons y a ih =>
        cases p with
        | nil => exact List.nil_prefix
        | cons x p =>
            rw [List.mem_cons, not_or] at hd
            rw [List.cons_append, List.cons_prefix_cons] at h
            exact List.cons_prefix_cons.mpr ⟨h.1, ih hd.2 h.2⟩
  · exact fun h => h.trans (List.prefix_append a _)

/-- A pattern does not extend over an element that it does not have. -/
theorem infix_append_of_stop {d : α} {a b : List α} (hd : d ∉ p) (hp : p ≠ []) :
    p <:+: a ++ d :: b ↔ p <:+: a ∨ p <:+: b := by
  constructor
  · intro h
    induction a with
    | nil =>
        rw [List.nil_append, List.infix_cons_iff] at h
        rcases h with hhead | hrest
        · have hnil : p <+: [] := (prefix_append_of_stop (a := []) hd).mp hhead
          exact absurd (List.prefix_nil.mp hnil) hp
        · exact .inr hrest
    | cons y a ih =>
        rw [List.cons_append, List.infix_cons_iff] at h
        rcases h with hhead | hrest
        · rw [← List.cons_append, prefix_append_of_stop hd] at hhead
          exact .inl hhead.isInfix
        · exact (ih hrest).imp_left fun h => List.infix_cons_iff.mpr (.inr h)
  · rintro (h | h)
    · exact List.infix_append_of_infix_left h
    · exact List.infix_append_of_infix_right (List.infix_cons_iff.mpr (.inr h))

/-! ### The last occurrence -/

section Last

variable [DecidableEq α]

/-- The text from the last occurrence of the pattern on. -/
def lastFrom (p : List α) : List α → Option (List α)
  | [] => if p = [] then some [] else none
  | a :: t => (lastFrom p t).or (if p <+: a :: t then some (a :: t) else none)

theorem lastFrom_eq_none : lastFrom p t = none ↔ ¬ p <:+: t := by
  induction t with
  | nil =>
      unfold lastFrom
      rw [List.infix_nil]
      split
      · rename_i hp
        exact iff_of_false (Option.some_ne_none _) (not_not_intro hp)
      · rename_i hp
        exact iff_of_true rfl hp
  | cons a t ih =>
      rw [lastFrom, Option.or_eq_none_iff, ih, List.infix_cons_iff, not_or, and_comm]
      refine and_congr_left fun _ => ?_
      split
      · rename_i hp
        exact iff_of_false (Option.some_ne_none _) (not_not_intro hp)
      · rename_i hp
        exact iff_of_true rfl hp

/-- What stands before an occurrence does not matter. -/
theorem lastFrom_append (s : List α) (h : p <:+: t) : lastFrom p (s ++ t) = lastFrom p t := by
  induction s with
  | nil => rfl
  | cons a s ih =>
      rw [List.cons_append, lastFrom, ih]
      cases hlast : lastFrom p t with
      | none => exact absurd h (lastFrom_eq_none.mp hlast)
      | some found => rfl

/-- An occurrence behind which there is none is the last one. -/
theorem lastFrom_self {c : α} {p : List α} (hc : c ∉ p) (h : ¬ c :: p <:+: t) :
    lastFrom (c :: p) (c :: p ++ t) = some (c :: p ++ t) := by
  have hnone : lastFrom (c :: p) (p ++ t) = none := by
    rw [lastFrom_eq_none, infix_append_of_head hc]
    exact h
  rw [List.cons_append, lastFrom, hnone, Option.none_or, ← List.cons_append,
    if_pos (List.prefix_append _ _)]

end Last

/-! ### The first match -/

/-- What a matcher finds at the first place where it finds something. -/
def firstMatch (m : List α → Option β) : List α → Option β
  | [] => m []
  | a :: t => (m (a :: t)).or (firstMatch m t)

variable {m : List α → Option β}

theorem firstMatch_eq_none : firstMatch m t = none ↔ ∀ s, s <:+ t → m s = none := by
  induction t with
  | nil =>
      constructor
      · intro h s hs
        rw [List.suffix_nil.mp hs]
        exact h
      · exact fun h => h [] List.nil_suffix
  | cons a t ih =>
      rw [firstMatch, Option.or_eq_none_iff, ih]
      constructor
      · rintro ⟨hhead, hrest⟩ s hs
        rcases List.suffix_cons_iff.mp hs with rfl | hs
        · exact hhead
        · exact hrest s hs
      · exact fun h => ⟨h _ List.suffix_rfl, fun s hs => h s (hs.trans (List.suffix_cons a t))⟩

/-- A part where nothing is found is passed over. -/
theorem firstMatch_append {a b : List α} (h : ∀ s, s <:+ a → s ≠ [] → m (s ++ b) = none) :
    firstMatch m (a ++ b) = firstMatch m b := by
  induction a with
  | nil => rfl
  | cons x a ih =>
      have hhead : m (x :: (a ++ b)) = none := h (x :: a) List.suffix_rfl (List.cons_ne_nil x a)
      rw [List.cons_append, firstMatch, hhead, Option.none_or]
      exact ih fun s hs => h s (hs.trans (List.suffix_cons x a))

/-- Nothing is found without an occurrence of what is asked for. -/
theorem firstMatch_of_not_infix (hm : ∀ s, m s ≠ none → p <+: s) (h : ¬ p <:+: t) :
    firstMatch m t = none := by
  rw [firstMatch_eq_none]
  intro s hs
  refine Decidable.byContradiction fun hne => h ?_
  exact (hm s hne).isInfix.trans hs.isInfix

end Occurrences
