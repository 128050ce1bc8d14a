/-
Dopilot/Lines.lean

The lines of a text.

A separator ends a line; what stands behind the last one is a line unless it is
empty.  So a line starts at the beginning and behind every separator, where there
is still something of the text.  `starts` lists these places, and `nthLast` is the
start of the `n`-th last line.

Splitting and joining at the separator agrees with this: a text joined from pieces
has as many lines as there are pieces, but for an empty one at the end
(`length_starts_intercalate`).  The starts of a text are those of its parts if the
first part is closed (`starts_append`); if it is not, its last line goes on in the
other part (`starts_append_open`).  Either way it does not matter whether the last
lines are looked for in a text or in its end (`max_nthLast_append`).
-/
import Mathlib.Data.List.Range

namespace Lines

variable {α : Type*} {sep : α} {t front : List α}

/-- A line starts at `i`. -/
def Starts (sep : α) (t : List α) (i : Nat) : Prop := i = 0 ∨ t[i - 1]? = some sep

/-- A line starts behind the text. -/
def Closed (sep : α) (t : List α) : Prop := t = [] ∨ t.getLast? = some sep

theorem closed_concat (sep : α) (t : List α) : Closed sep (t ++ [sep]) := by
  simp [Closed]

/-! ### Starts in a text of two parts -/

theorem starts_left {i : Nat} (h : i < front.length) :
    Starts sep (front ++ t) i ↔ Starts sep front i := by
  have hlt : i - 1 < front.length := Nat.lt_of_le_of_lt (Nat.sub_le i 1) h
  unfold Starts
  rw [List.getElem?_append_left hlt]

theorem starts_between : Starts sep (front ++ t) front.length ↔ Closed sep front := by
  rcases List.eq_nil_or_concat front with rfl | ⟨init, a, rfl⟩
  · simp [Starts, Closed]
  · simp [Starts, Closed]

theorem starts_right {j : Nat} (hj : j ≠ 0) :
    Starts sep (front ++ t) (front.length + j) ↔ Starts sep t j := by
  obtain ⟨k, rfl⟩ := Nat.exists_eq_succ_of_ne_zero hj
  have hget : (front ++ t)[front.length + k]? = t[k]? := by
    rw [List.getElem?_append_right (Nat.le_add_right ..), Nat.add_sub_cancel_left]
  simp [Starts, hget]

/-! ### The lines in order -/

variable [DecidableEq α]

instance instDecidableStarts (sep : α) (t : List α) (i : Nat) : Decidable (Starts sep t i) :=
  inferInstanceAs (Decidable (_ ∨ _))

/-- Where the lines of a text start. -/
def starts (sep : α) (t : List α) : List Nat :=
  (List.range t.length).filter fun i => Starts sep t i

/-- Where the `n`-th last line starts. -/
def nthLast (sep : α) (n : Nat) (t : List α) : Option Nat := (starts sep t).reverse[n - 1]?

example : nthLast '\n' 2 ['a', '\n', '\n', 'b', '\n'] = some 2 := by decide

@[simp] theorem starts_nil : starts sep [] = [] := rfl

theorem lt_of_mem_starts {i : Nat} (h : i ∈ starts sep t) : i < t.length :=
  List.mem_range.mp (List.mem_filter.mp h).1

theorem starts_cons (sep a : α) (t : List α) :
    starts sep (a :: t) =
      0 :: ((List.range t.length).map Nat.succ).filter fun i => Starts sep (a :: t) i := by
  unfold starts
  rw [List.length_cons, List.range_succ_eq_map]
  apply List.filter_cons_of_pos
  exact decide_eq_true (.inl rfl)

/-- The starts of a text of two parts, those of the second part still in terms of
the whole. -/
theorem starts_append_eq (sep : α) (front t : List α) :
    starts sep (front ++ t) = starts sep front ++
      ((List.range t.length).filter fun j => Starts sep (front ++ t) (front.length + j)).map
        (front.length + ·) := by
  unfold starts
  rw [List.length_append, List.range_add, List.filter_append, List.filter_map]
  congr 1
  apply List.filter_congr
  intro i hi
  exact decide_eq_decide.mpr (starts_left (List.mem_range.mp hi))

theorem starts_append (h : Closed sep front) (t : List α) :
    starts sep (front ++ t) = starts sep front ++ (starts sep t).map (front.length + ·) := by
  rw [starts_append_eq]
  congr 2
  apply List.filter_congr
  intro j _
  apply decide_eq_decide.mpr
  by_cases hj : j = 0
  · rw [hj]
    exact iff_of_true (starts_between.mpr h) (.inl rfl)
  · exact starts_right hj

/-- Where the first part is not closed, the other part begins within a line. -/
theorem starts_append_open (h : ¬ Closed sep front) (t : List α) :
    starts sep (front ++ t) =
      starts sep front ++ (starts sep t).tail.map (front.length + ·) := by
  rw [starts_append_eq]
  cases t with
  | nil => rfl
  | cons a t =>
      congr 2
      rw [starts_cons, List.tail_cons, List.length_cons, List.range_succ_eq_map,
        List.filter_cons_of_neg]
      · apply List.filter_congr
        intro j hj
        obtain ⟨k, -, rfl⟩ := List.mem_map.mp hj
        exact decide_eq_decide.mpr (starts_right (Nat.succ_ne_zero k))
      · intro hstart
        exact h (starts_between.mp (of_decide_eq_true hstart))

/-- A text in which no line ends is one line. -/
theorem starts_line (h : sep ∉ t) (hne : t ≠ []) : starts sep t = [0] := by
  obtain ⟨a, t, rfl⟩ := List.exists_cons_of_ne_nil hne
  rw [starts_cons]
  congr 1
  rw [List.filter_eq_nil_iff]
  intro i hi hstart
  rcases of_decide_eq_true hstart with rfl | hsep
  · simp at hi
  · exact h (List.mem_of_getElem? hsep)

/-- One line and its end. -/
theorem starts_line_concat (h : sep ∉ t) : starts sep (t ++ [sep]) = [0] := by
  cases t with
  | nil => rfl
  | cons a t =>
      have hopen : ¬ Closed sep (a :: t) := by
        rintro (hnil | hlast)
        · cases hnil
        · exact h (List.mem_of_getLast? hlast)
      rw [starts_append_open hopen, starts_line h (List.cons_ne_nil a t)]
      rfl

/-! ### Splitting and joining -/

omit [DecidableEq α] in
theorem intercalate_append {s : List α} {l m : List (List α)} (hl : l ≠ []) (hm : m ≠ []) :
    s.intercalate (l ++ m) = s.intercalate l ++ (s ++ s.intercalate m) := by
  induction l with
  | nil => exact absurd rfl hl
  | cons x l ih =>
      cases l with
      | nil => rw [List.singleton_append, List.intercalate_cons_of_ne_nil hm,
          List.intercalate_singleton, List.append_assoc]
      | cons y l =>
          have hmore : y :: l ++ m ≠ [] := List.cons_ne_nil y (l ++ m)
          rw [List.cons_append, List.intercalate_cons_of_ne_nil hmore, ih (List.cons_ne_nil y l),
            List.intercalate_cons_of_ne_nil (List.cons_ne_nil y l)]
          simp only [List.append_assoc]

theorem notMem_of_mem_splitOn {l : List α} (h : l ∈ t.splitOn sep) : sep ∉ l := by
  induction t generalizing l with
  | nil =>
      rw [List.mem_singleton.mp h]
      exact List.not_mem_nil
  | cons a t ih =>
      rw [List.splitOn_cons_eq_if_modifyHead] at h
      by_cases ha : a = sep
      · rw [if_pos (beq_iff_eq.mpr ha)] at h
        rcases List.mem_cons.mp h with rfl | h
        · exact List.not_mem_nil
        · exact ih h
      · rw [if_neg fun hbeq => ha (beq_iff_eq.mp hbeq)] at h
        cases hsplit : t.splitOn sep with
        | nil => exact absurd hsplit (List.splitOn_ne_nil sep t)
        | cons first more =>
            rw [hsplit, List.modifyHead_cons] at h
            rcases List.mem_cons.mp h with rfl | h
            · have hfirst := ih (hsplit ▸ List.mem_cons_self)
              simp [hfirst, Ne.symm ha]
            · exact ih (hsplit ▸ List.mem_cons_of_mem first h)

/-- **The lines of a joined text** are its pieces, but for an empty one at the end. -/
theorem length_starts_intercalate {pieces : List (List α)} (hpieces : ∀ l ∈ pieces, sep ∉ l)
    (hne : pieces ≠ []) :
    (starts sep ([sep].intercalate pieces)).length =
      pieces.length - if pieces.getLast? = some [] then 1 else 0 := by
  induction pieces with
  | nil => exact absurd rfl hne
  | cons l pieces ih =>
      have hl := hpieces l List.mem_cons_self
      cases pieces with
      | nil =>
          rw [List.intercalate_singleton]
          by_cases hnil : l = []
          · simp [hnil]
          · simp [starts_line hl hnil, hnil]
      | cons l' pieces =>
          have hrest := ih (fun l hl => hpieces l (List.mem_cons_of_mem _ hl))
            (List.cons_ne_nil l' pieces)
          have hmore : l' :: pieces ≠ [] := List.cons_ne_nil l' pieces
          rw [List.intercalate_cons_of_ne_nil hmore, starts_append (closed_concat sep l),
            List.length_append, List.length_map, hrest, starts_line_concat hl,
            List.getLast?_cons_cons]
          simp only [List.length_cons, List.length_nil]
          split
          · omega
          · omega

/-! ### The last lines -/

/-- A text that is long enough has its last lines in its end. -/
theorem nthLast_append {n : Nat} (h : Closed sep front) (hlines : (starts sep t).length = n)
    (hpos : 0 < n) : nthLast sep n (front ++ t) = some front.length := by
  have hne : t ≠ [] := by
    rintro rfl
    exact absurd hlines (Nat.ne_of_lt hpos)
  obtain ⟨a, t, rfl⟩ := List.exists_cons_of_ne_nil hne
  have hlt : n - 1 < ((starts sep (a :: t)).map (front.length + ·)).reverse.length := by
    rw [List.length_reverse, List.length_map, hlines]
    exact Nat.sub_lt hpos Nat.one_pos
  unfold nthLast
  rw [starts_append h, List.reverse_append, List.getElem?_append_left hlt, List.getElem?_reverse]
  · rw [List.length_map, hlines, Nat.sub_self, starts_cons]
    rfl
  · rwa [List.length_reverse] at hlt

/-- Of a text with fewer lines, or as many, there is nothing in front. -/
theorem nthLast_of_le {n : Nat} (h : (starts sep t).length ≤ n) (hpos : 0 < n) :
    nthLast sep n t = none ∨ nthLast sep n t = some 0 := by
  rcases Nat.lt_or_eq_of_le h with hlt | heq
  · left
    unfold nthLast
    rw [List.getElem?_eq_none_iff, List.length_reverse]
    exact Nat.le_sub_one_of_lt hlt
  · right
    exact nthLast_append (.inl rfl) heq hpos

/-- **The last lines of a joined text** are its last pieces. -/
theorem drop_nthLast_intercalate {pieces : List (List α)} (hpieces : ∀ l ∈ pieces, sep ∉ l)
    {k n : Nat} (hk : 0 < k) (hpos : 0 < n)
    (hlines : (starts sep ([sep].intercalate pieces)).length = k + n) :
    ([sep].intercalate pieces).drop ((nthLast sep n ([sep].intercalate pieces)).getD 0) =
      [sep].intercalate (pieces.drop k) := by
  have hne : pieces ≠ [] := by
    rintro rfl
    rw [List.intercalate_nil, starts_nil, List.length_nil] at hlines
    omega
  have hcount := length_starts_intercalate hpieces hne
  have hlt : k < pieces.length := by omega
  have htake : pieces.take k ≠ [] := by
    simp [hne, Nat.ne_of_gt hk]
  have hdrop : pieces.drop k ≠ [] := fun hnil =>
    absurd hlt (Nat.not_lt.mpr (List.drop_eq_nil_iff.mp hnil))
  -- what is cut away, up to a separator, and what is kept
  have hsplit : [sep].intercalate pieces = ([sep].intercalate (pieces.take k) ++ [sep]) ++
      [sep].intercalate (pieces.drop k) := by
    rw [List.append_assoc, ← intercalate_append htake hdrop, List.take_append_drop]
  have hkept : (starts sep ([sep].intercalate (pieces.drop k))).length = n := by
    rw [length_starts_intercalate (fun l hl => hpieces l (List.mem_of_mem_drop hl)) hdrop,
      List.getLast?_drop, if_neg (Nat.not_le.mpr hlt), List.length_drop]
    omega
  rw [hsplit, nthLast_append (closed_concat sep _) hkept hpos, Option.getD_some]
  exact List.drop_left

theorem lt_of_nthLast {n i : Nat} (h : nthLast sep n t = some i) : i < t.length :=
  lt_of_mem_starts (List.mem_reverse.mp (List.mem_of_getElem? h))

/-- Lines are looked for in the end of a text first, and then in front of it. -/
theorem nthLast_append_cases (sep : α) (n : Nat) (front t : List α) :
    nthLast sep n (front ++ t) = (nthLast sep n t).map (front.length + ·) ∨
      (∀ i, nthLast sep n (front ++ t) = some i → i < front.length) ∧
        (nthLast sep n t = none ∨ nthLast sep n t = some 0) := by
  have hfront : ∀ k i, (starts sep front).reverse[k]? = some i → i < front.length :=
    fun k i h => lt_of_mem_starts (List.mem_reverse.mp (List.mem_of_getElem? h))
  by_cases hclosed : Closed sep front
  · have hstarts : (starts sep (front ++ t)).reverse =
        (starts sep t).reverse.map (front.length + ·) ++ (starts sep front).reverse := by
      rw [starts_append hclosed, List.reverse_append, List.map_reverse]
    unfold nthLast
    rw [hstarts]
    by_cases hlt : n - 1 < ((starts sep t).reverse.map (front.length + ·)).length
    · left
      rw [List.getElem?_append_left hlt, List.getElem?_map]
    · right
      rw [List.getElem?_append_right (Nat.not_lt.mp hlt)]
      refine ⟨hfront _, .inl ?_⟩
      rw [List.getElem?_eq_none_iff]
      simpa using hlt
  · have hstarts : (starts sep (front ++ t)).reverse =
        (starts sep t).tail.reverse.map (front.length + ·) ++ (starts sep front).reverse := by
      rw [starts_append_open hclosed, List.reverse_append, List.map_reverse]
    cases t with
    | nil =>
        right
        rw [List.append_nil]
        exact ⟨hfront _, .inl rfl⟩
    | cons a t =>
        -- the first line of the end begins in front of it
        have hend : (starts sep (a :: t)).reverse = (starts sep (a :: t)).tail.reverse ++ [0] := by
          rw [starts_cons, List.tail_cons, List.reverse_cons]
        unfold nthLast
        rw [hstarts]
        by_cases hlt : n - 1 < ((starts sep (a :: t)).tail.reverse.map (front.length + ·)).length
        · left
          rw [List.getElem?_append_left hlt, List.getElem?_map, hend, List.getElem?_append_left]
          rwa [List.length_map] at hlt
        · right
          rw [List.getElem?_append_right (Nat.not_lt.mp hlt)]
          refine ⟨hfront _, ?_⟩
          rw [List.length_map] at hlt
          rw [hend, List.getElem?_append_right (Nat.not_lt.mp hlt)]
          cases n - 1 - (starts sep (a :: t)).tail.reverse.length with
          | zero => exact .inr rfl
          | succ k => exact .inl rfl

/-- **The last lines of a text and of its end.**  Of two limits, a number of lines and
the beginning of the end, the one that is further back is the same whether the lines
are looked for in the text or in its end. -/
theorem max_nthLast_append (sep : α) (n : Nat) (front t : List α) :
    max front.length ((nthLast sep n (front ++ t)).getD 0) =
      max front.length ((nthLast sep n t).elim 0 (front.length + ·)) := by
  rcases nthLast_append_cases sep n front t with hsame | ⟨hfront, hend⟩
  · rw [hsame]
    cases nthLast sep n t with
    | none => rfl
    | some i => rfl
  · have hleft : (nthLast sep n (front ++ t)).getD 0 ≤ front.length := by
      cases h : nthLast sep n (front ++ t) with
      | none => exact Nat.zero_le _
      | some i => exact (hfront i h).le
    have hright : (nthLast sep n t).elim 0 (front.length + ·) ≤ front.length := by
      rcases hend with hnone | hzero
      · rw [hnone]
        exact Nat.zero_le _
      · rw [hzero]
        exact Nat.le_refl _
    rw [Nat.max_eq_left hleft, Nat.max_eq_left hright]

end Lines
