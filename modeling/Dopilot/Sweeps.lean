/-
Dopilot/Sweeps.lean

Sweeps through a bounded window.

Of finitely many items some are candidates.  A sweep takes as many candidates as
its window holds, and nobody says which, and visits each of them.  Where one visit
is enough for an item or none ever is, the items that one visit is enough for are
all done in the end just if those that stay candidates for good leave room in the
window (`eventuallyDone_iff`).
-/
import Mathlib.Data.Finset.Card
import Mathlib.Data.Finset.Filter
import Mathlib.Logic.Function.Basic

namespace Sweeps

variable {ι σ : Type*}

/-! ### Candidates -/

section Candidates

variable (items : Finset ι) (cand : σ → Prop) [DecidablePred cand] (visit : σ → σ) (limit : Nat)

/-- The candidates. -/
def candidates (s : ι → σ) : Finset ι := items.filter fun k => cand (s k)

/-- What a sweep may take: as many candidates as there is room for, in any order. -/
structure Selects (s : ι → σ) (keys : List ι) : Prop where
  nodup : keys.Nodup
  mem : ∀ k ∈ keys, k ∈ candidates items cand s
  length : keys.length = min limit (candidates items cand s).card

/-- One visit is enough. -/
def Ready (x : σ) : Prop := cand x ∧ ¬ cand (visit x)

instance (x : σ) : Decidable (Ready cand visit x) := inferInstanceAs (Decidable (_ ∧ _))

/-- The candidates that one visit is enough for. -/
def ready (s : ι → σ) : Finset ι :=
  (candidates items cand s).filter fun k => Ready cand visit (s k)

/-- The candidates that stay candidates. -/
def stuck (s : ι → σ) : Finset ι :=
  (candidates items cand s).filter fun k => ¬ Ready cand visit (s k)

variable {items cand visit limit} {s : ι → σ} {keys : List ι} {k : ι}

theorem mem_candidates : k ∈ candidates items cand s ↔ k ∈ items ∧ cand (s k) := Finset.mem_filter

theorem mem_ready : k ∈ ready items cand visit s ↔ k ∈ items ∧ Ready cand visit (s k) := by
  rw [ready, Finset.mem_filter, mem_candidates]
  exact ⟨fun h => ⟨h.1.1, h.2⟩, fun h => ⟨⟨h.1, h.2.1⟩, h.2⟩⟩

theorem mem_stuck : k ∈ stuck items cand visit s ↔
    k ∈ items ∧ cand (s k) ∧ cand (visit (s k)) := by
  rw [stuck, Finset.mem_filter, mem_candidates]
  constructor
  · rintro ⟨⟨hitem, hcand⟩, hready⟩
    exact ⟨hitem, hcand, not_not.mp fun hvisit => hready ⟨hcand, hvisit⟩⟩
  · rintro ⟨hitem, hcand, hvisit⟩
    exact ⟨⟨hitem, hcand⟩, fun hready => hready.2 hvisit⟩

theorem card_candidates : (ready items cand visit s).card + (stuck items cand visit s).card =
    (candidates items cand s).card := Finset.card_filter_add_card_filter_not _

/-- Candidates can be taken from any of their sets that is large enough. -/
theorem exists_selects_of_subset {part : Finset ι} (hpart : part ⊆ candidates items cand s)
    (hcard : min limit (candidates items cand s).card ≤ part.card) :
    ∃ keys, Selects items cand limit s keys ∧ ∀ k ∈ keys, k ∈ part := by
  let n := min limit (candidates items cand s).card
  refine ⟨part.toList.take n, ⟨?_, ?_, ?_⟩, ?_⟩
  · exact (Finset.nodup_toList _).sublist (List.take_sublist _ _)
  · intro k hk
    exact hpart (Finset.mem_toList.mp (List.mem_of_mem_take hk))
  · rw [List.length_take, Finset.length_toList]
    exact Nat.min_eq_left hcard
  · intro k hk
    exact Finset.mem_toList.mp (List.mem_of_mem_take hk)

/-- **A window with room** for more than those that stay candidates takes another one. -/
theorem Selects.exists_ready (hsel : Selects items cand limit s keys)
    (hroom : (stuck items cand visit s).card < limit) (hready : (ready items cand visit s).Nonempty) :
    ∃ k ∈ keys, k ∈ ready items cand visit s := by
  classical
  by_contra hnone
  have hstuck : keys.toFinset ⊆ stuck items cand visit s := by
    intro k hk
    have hmem := List.mem_toFinset.mp hk
    obtain ⟨hitem, hcand⟩ := mem_candidates.mp (hsel.mem k hmem)
    refine mem_stuck.mpr ⟨hitem, hcand, not_not.mp fun hvisit => hnone ⟨k, hmem, ?_⟩⟩
    exact mem_ready.mpr ⟨hitem, hcand, hvisit⟩
  have hle := Finset.card_le_card hstuck
  rw [List.toFinset_card_of_nodup hsel.nodup, hsel.length] at hle
  have hcard : (ready items cand visit s).card + (stuck items cand visit s).card = _ :=
    card_candidates
  have hpos := hready.card_pos
  omega

end Candidates

variable [DecidableEq ι]

/-! ### Visits -/

/-- The items are visited in order. -/
def visitAll (visit : σ → σ) (keys : List ι) (s : ι → σ) : ι → σ :=
  keys.foldl (fun s k => Function.update s k (visit (s k))) s

theorem visitAll_apply (visit : σ → σ) {keys : List ι} (hnodup : keys.Nodup) (s : ι → σ) (k : ι) :
    visitAll visit keys s k = if k ∈ keys then visit (s k) else s k := by
  induction keys generalizing s with
  | nil => rfl
  | cons k' keys ih =>
      obtain ⟨hnew, hnodup⟩ := List.nodup_cons.mp hnodup
      show visitAll visit keys (Function.update s k' (visit (s k'))) k = _
      rw [ih hnodup]
      by_cases hk : k = k'
      · subst hk
        rw [if_neg hnew, if_pos List.mem_cons_self, Function.update_self]
      · have hmem : k ∈ k' :: keys ↔ k ∈ keys := by
          rw [List.mem_cons]
          exact or_iff_right hk
        rw [Function.update_of_ne hk, if_congr hmem rfl rfl]

section Run

variable (items : Finset ι) (cand : σ → Prop) [DecidablePred cand] (visit : σ → σ) (limit : Nat)

/-- So many sweeps, one after the other. -/
inductive Run : Nat → (ι → σ) → (ι → σ) → Prop
  | refl (s : ι → σ) : Run 0 s s
  | sweep {n : Nat} {s s' : ι → σ} {keys : List ι} (hsel : Selects items cand limit s keys)
      (hrun : Run n (visitAll visit keys s) s') : Run (n + 1) s s'

/-- Some number of sweeps is enough for all that one visit is enough for. -/
def EventuallyDone (s : ι → σ) : Prop :=
  ∃ N, ∀ n, N ≤ n → ∀ s', Run items cand visit limit n s s' →
    ∀ k ∈ ready items cand visit s, ¬ cand (s' k)

variable {items cand visit limit} {s s' : ι → σ} {keys : List ι} {k : ι} {n : Nat}

theorem Run.exists (n : Nat) (s : ι → σ) : ∃ s', Run items cand visit limit n s s' := by
  induction n generalizing s with
  | zero => exact ⟨s, .refl s⟩
  | succ n ih =>
      have hall : candidates items cand s ⊆ candidates items cand s := Finset.Subset.refl _
      obtain ⟨keys, hsel, -⟩ := exists_selects_of_subset hall (Nat.min_le_right limit _)
      obtain ⟨s', hrun⟩ := ih (visitAll visit keys s)
      exact ⟨s', .sweep hsel hrun⟩

/-- What a sweep does to one item. -/
theorem Selects.visitAll_cases (hsel : Selects items cand limit s keys) (visit : σ → σ) (k : ι) :
    k ∈ keys ∧ cand (s k) ∧ visitAll visit keys s k = visit (s k) ∨
      k ∉ keys ∧ visitAll visit keys s k = s k := by
  rw [visitAll_apply visit hsel.nodup]
  by_cases hk : k ∈ keys
  · exact .inl ⟨hk, (mem_candidates.mp (hsel.mem k hk)).2, if_pos hk⟩
  · exact .inr ⟨hk, if_neg hk⟩

/-- An item that is no candidate stays as it is. -/
theorem Run.of_not_cand (h : Run items cand visit limit n s s') (hk : ¬ cand (s k)) :
    s' k = s k := by
  induction h with
  | refl => rfl
  | sweep hsel _ ih =>
      rcases hsel.visitAll_cases visit k with ⟨-, hcand, -⟩ | ⟨-, hsame⟩
      · exact absurd hcand hk
      · rw [ih (hsame.symm ▸ hk), hsame]

/-- An item that one visit is enough for has been visited once, or not at all. -/
theorem Run.of_ready (h : Run items cand visit limit n s s') (hk : Ready cand visit (s k)) :
    s' k = s k ∨ s' k = visit (s k) := by
  induction h with
  | refl => exact .inl rfl
  | sweep hsel hrun ih =>
      rcases hsel.visitAll_cases visit k with ⟨-, -, hvisit⟩ | ⟨-, hsame⟩
      · refine .inr ?_
        rw [hrun.of_not_cand (hvisit.symm ▸ hk.2), hvisit]
      · rw [hsame] at ih
        exact ih hk

variable (hvisit : ∀ x, cand x → cand (visit x) → cand (visit (visit x)))

include hvisit

theorem stuck_visitAll (hsel : Selects items cand limit s keys) :
    stuck items cand visit (visitAll visit keys s) = stuck items cand visit s := by
  ext k
  rw [mem_stuck, mem_stuck]
  rcases hsel.visitAll_cases visit k with ⟨-, hcand, heq⟩ | ⟨-, heq⟩
  · rw [heq]
    exact ⟨fun h => ⟨h.1, hcand, h.2.1⟩, fun h => ⟨h.1, h.2.2, hvisit _ h.2.1 h.2.2⟩⟩
  · rw [heq]

/-- A sweep is done with those it takes. -/
theorem mem_ready_visitAll (hsel : Selects items cand limit s keys) :
    k ∈ ready items cand visit (visitAll visit keys s) ↔ k ∈ ready items cand visit s ∧ k ∉ keys := by
  rw [mem_ready, mem_ready]
  rcases hsel.visitAll_cases visit k with ⟨hk, hcand, heq⟩ | ⟨hk, heq⟩
  · rw [heq]
    refine ⟨fun h => ?_, fun h => absurd hk h.2⟩
    exact absurd (hvisit _ hcand h.2.1) h.2.2
  · rw [heq]
    exact ⟨fun h => ⟨h, hk⟩, fun h => h.1⟩

/-- Those that stay candidates do so for good. -/
theorem Run.stuck_eq (h : Run items cand visit limit n s s') :
    stuck items cand visit s' = stuck items cand visit s := by
  induction h with
  | refl => rfl
  | sweep hsel _ ih => exact ih.trans (stuck_visitAll hvisit hsel)

/-- **Every sweep brings the others closer to the end**, if there is room for them. -/
theorem Run.card_ready_le (h : Run items cand visit limit n s s')
    (hroom : (stuck items cand visit s).card < limit) :
    (ready items cand visit s').card ≤ (ready items cand visit s).card - n := by
  induction h with
  | refl => exact Nat.le_refl _
  | @sweep n s s' keys hsel hrun ih =>
      rw [stuck_visitAll hvisit hsel] at ih
      have hle := ih hroom
      rcases (ready items cand visit s).eq_empty_or_nonempty with hempty | hready
      · have hnone : ready items cand visit (visitAll visit keys s) = ∅ := by
          ext k
          rw [mem_ready_visitAll hvisit hsel, hempty]
          exact ⟨And.left, fun h => absurd h (Finset.notMem_empty k)⟩
        rw [hnone, Finset.card_empty, Nat.zero_sub] at hle
        exact hle.trans (Nat.zero_le _)
      · have hlt : (ready items cand visit (visitAll visit keys s)).card <
            (ready items cand visit s).card := by
          obtain ⟨k, hk, hkready⟩ := hsel.exists_ready hroom hready
          apply Finset.card_lt_card
          refine Finset.ssubset_iff_subset_ne.mpr ⟨?_, ?_⟩
          · exact fun k' hk' => ((mem_ready_visitAll hvisit hsel).mp hk').1
          · rintro heq
            rw [← heq, mem_ready_visitAll hvisit hsel] at hkready
            exact hkready.2 hk
        omega

/-- Where those that stay candidates fill the window, no other one need be visited. -/
theorem exists_run_same (hfull : limit ≤ (stuck items cand visit s).card) (n : Nat) :
    ∃ s', Run items cand visit limit n s s' ∧
      ∀ k, Ready cand visit (s k) → s' k = s k := by
  induction n generalizing s with
  | zero => exact ⟨s, .refl s, fun _ _ => rfl⟩
  | succ n ih =>
      have hpart : stuck items cand visit s ⊆ candidates items cand s := Finset.filter_subset _ _
      obtain ⟨keys, hsel, hstuck⟩ :=
        exists_selects_of_subset hpart ((Nat.min_le_left limit _).trans hfull)
      obtain ⟨s', hrun, hsame⟩ := ih (by rw [stuck_visitAll hvisit hsel]; exact hfull)
      refine ⟨s', .sweep hsel hrun, fun k hk => ?_⟩
      have hunvisited : visitAll visit keys s k = s k := by
        rw [visitAll_apply visit hsel.nodup, if_neg]
        exact fun hmem => hk.2 (mem_stuck.mp (hstuck k hmem)).2.2
      rw [hsame k (hunvisited.symm ▸ hk), hunvisited]

/-- **When the sweeps come to an end**: those that stay candidates leave room, or there
is nothing to do. -/
theorem eventuallyDone_iff : EventuallyDone items cand visit limit s ↔
    ready items cand visit s = ∅ ∨ (stuck items cand visit s).card < limit := by
  constructor
  · rintro ⟨N, hdone⟩
    by_contra hnot
    obtain ⟨hready, hroom⟩ := not_or.mp hnot
    obtain ⟨k, hk⟩ := Finset.nonempty_iff_ne_empty.mpr hready
    obtain ⟨s', hrun, hsame⟩ := exists_run_same hvisit (Nat.le_of_not_lt hroom) N
    apply hdone N (Nat.le_refl N) s' hrun k hk
    have hkready := (mem_ready.mp hk).2
    rw [hsame k hkready]
    exact hkready.1
  · rintro (hnone | hroom)
    · refine ⟨0, fun n _ s' _ k hk => ?_⟩
      rw [hnone] at hk
      exact absurd hk (Finset.notMem_empty k)
    · refine ⟨(ready items cand visit s).card, fun n hn s' hrun k hk => ?_⟩
      obtain ⟨hitem, hready⟩ := mem_ready.mp hk
      have hcard := hrun.card_ready_le hvisit hroom
      have hnone : ready items cand visit s' = ∅ := Finset.card_eq_zero.mp (by omega)
      intro hcand
      rcases hrun.of_ready hready with hsame | hvisited
      · have hmem : k ∈ ready items cand visit s' := mem_ready.mpr ⟨hitem, hsame.symm ▸ hready⟩
        rw [hnone] at hmem
        exact Finset.notMem_empty k hmem
      · rw [hvisited] at hcand
        exact hready.2 hcand

end Run

end Sweeps
