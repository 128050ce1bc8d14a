/-
Dopilot/Paging.lean

Going through rows page by page, by the key of the last row of a page.

A page is the first `b` rows in the order of their keys.  A row that is not on
a full page stands behind all of it (`mem_page_or_full`), and a full page takes
`b` rows from those that are still ahead (`countP_after_page`).

`exists_within` turns what each page takes into a number of pages.  Others may
write while the pages are read, as long as what counts is only found again
(`countP_le_of_found`).
-/
import Mathlib.Data.List.Sort
import Mathlib.Order.Lattice

namespace Paging

variable {α κ : Type*} [LinearOrder κ] {key : α → κ} {b : Nat} {rows : List α} {x y z : α}

/-- The first `b` rows in the order of their keys. -/
def page (key : α → κ) (b : Nat) (rows : List α) : List α :=
  (rows.insertionSort fun x y => key x ≤ key y).take b

/-! ### One page -/

theorem sorted_by (key : α → κ) (rows : List α) :
    (rows.insertionSort fun x y => key x ≤ key y).Pairwise fun x y => key x ≤ key y := by
  have : Std.Total fun x y : α => key x ≤ key y := ⟨fun x y => le_total (key x) (key y)⟩
  have : IsTrans α fun x y : α => key x ≤ key y := ⟨fun _ _ _ h h' => le_trans h h'⟩
  exact List.pairwise_insertionSort _ rows

theorem mem_of_mem_page (h : x ∈ page key b rows) : x ∈ rows :=
  (List.mem_insertionSort _).mp (List.mem_of_mem_take h)

theorem page_eq_nil (hb : 0 < b) : page key b rows = [] ↔ rows = [] := by
  unfold page
  rw [List.take_eq_nil_iff, ← List.length_eq_zero_iff, ← List.length_eq_zero_iff,
    List.length_insertionSort]
  omega

/-- A row is on the page, or the page is full of rows up to it. -/
theorem mem_page_or_full (hx : x ∈ rows) :
    x ∈ page key b rows ∨
      (page key b rows).length = b ∧ ∀ y ∈ page key b rows, key y ≤ key x := by
  have hsorted := sorted_by key rows
  have hmem : x ∈ rows.insertionSort fun x y => key x ≤ key y := (List.mem_insertionSort _).mpr hx
  unfold page
  generalize rows.insertionSort (fun x y => key x ≤ key y) = l at hsorted hmem ⊢
  rw [← List.take_append_drop b l] at hmem hsorted
  rcases List.mem_append.mp hmem with htake | hdrop
  · exact .inl htake
  · refine .inr ⟨?_, fun y hy => (List.pairwise_append.mp hsorted).2.2 y hy x hdrop⟩
    have hpos : 0 < (l.drop b).length := List.length_pos_of_mem hdrop
    rw [List.length_drop] at hpos
    rw [List.length_take]
    omega

/-- The last row of a page has the largest key. -/
theorem key_le_last (hlast : (page key b rows).getLast? = some y) (hz : z ∈ page key b rows) :
    key z ≤ key y := by
  have hsorted : (page key b rows).Pairwise fun x y => key x ≤ key y :=
    (sorted_by key rows).sublist (List.take_sublist _ _)
  obtain ⟨init, hinit⟩ := List.getLast?_eq_some_iff.mp hlast
  rw [hinit] at hsorted hz
  rcases List.mem_append.mp hz with h | h
  · exact (List.pairwise_append.mp hsorted).2.2 z h y (List.mem_singleton.mpr rfl)
  · rw [List.mem_singleton.mp h]

/-- **A full page takes `b` rows** from those that meet a condition, if all of its
rows meet it. -/
theorem countP_after_page {p : α → Bool} (hfull : (page key b rows).length = b)
    (hlast : (page key b rows).getLast? = some y) (hp : ∀ z ∈ page key b rows, p z = true) :
    (rows.countP fun z => p z && decide (key y < key z)) + b ≤ rows.countP p := by
  have hpage : page key b rows = (rows.insertionSort fun x y => key x ≤ key y).take b := rfl
  rw [← (List.perm_insertionSort (fun x y => key x ≤ key y) rows).countP_eq,
    ← (List.perm_insertionSort (fun x y => key x ≤ key y) rows).countP_eq (p := p),
    ← List.take_append_drop b (rows.insertionSort fun x y => key x ≤ key y), ← hpage,
    List.countP_append, List.countP_append]
  -- the page itself is not behind its last row
  have hnone : (page key b rows).countP (fun z => p z && decide (key y < key z)) = 0 := by
    refine List.countP_eq_zero.mpr fun z hz hbehind => ?_
    rw [Bool.and_eq_true, decide_eq_true_eq] at hbehind
    exact absurd (key_le_last hlast hz) (not_le.mpr hbehind.2)
  have hall : (page key b rows).countP p = b := by
    rw [List.countP_eq_length.mpr hp, hfull]
  have hrest : ∀ l : List α, (l.countP fun z => p z && decide (key y < key z)) ≤ l.countP p :=
    fun l => List.countP_mono_left fun z _ hz => (Bool.and_eq_true_iff.mp hz).1
  have := hrest ((rows.insertionSort fun x y => key x ≤ key y).drop b)
  omega

/-- Rows that are found again are no more than there were. -/
theorem countP_le_of_found {rows' : List α} {p p' : α → Bool} (hnodup : rows'.Nodup)
    (h : ∀ z ∈ rows', p' z = true → z ∈ rows ∧ p z = true) : rows'.countP p' ≤ rows.countP p := by
  rw [List.countP_eq_length_filter, List.countP_eq_length_filter]
  refine (List.subperm_of_subset (hnodup.filter _) fun z hz => ?_).length_le
  obtain ⟨hmem, hp'⟩ := List.mem_filter.mp hz
  exact List.mem_filter.mpr (h z hmem hp')

/-! ### Page after page -/

/-- Something that takes `b` from what is left at every round, until it is done,
is done within the rounds that what was left has room for. -/
theorem exists_within {D I : Nat → Prop} {left : Nat → Nat} {n i : Nat} (hinv : I i)
    (hn : left i ≤ n * b) (hpos : ∀ j, I j → 0 < left j)
    (h : ∀ j, i ≤ j → j < i + n → I j → D j ∨ left (j + 1) + b ≤ left j ∧ I (j + 1)) :
    ∃ j, i ≤ j ∧ j < i + n ∧ D j := by
  induction n generalizing i with
  | zero =>
      have := hpos i hinv
      omega
  | succ n ih =>
      rcases h i (Nat.le_refl i) (by omega) hinv with hdone | ⟨hdrop, hinv'⟩
      · exact ⟨i, Nat.le_refl i, by omega, hdone⟩
      · rw [Nat.succ_mul] at hn
        obtain ⟨j, hij, hj, hdone⟩ := ih hinv' (by omega) fun j hij hj =>
          h j (by omega) (by omega)
        exact ⟨j, by omega, by omega, hdone⟩

end Paging
