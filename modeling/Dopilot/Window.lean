/-
Dopilot/Window.lean

Serving a queue through a window of fixed length.

A round looks at the first `n` members of a queue and serves those that are
ready; what is served leaves, and the others keep their places.  A member that
is not ready therefore occupies a place of the window until it is.

The main lemma: a ready member is served within a number of rounds that counts
ready members only, if fewer than `n` of those in front of it are not ready
(`served_of_few_blockers`), and if `n` of them are not, it is never served while
they stay so (`stuck_of_blockers`).
-/
import Mathlib.Data.List.Nodup

namespace Window

variable {α : Type*}

/-- One round: the ready members among the first `n` leave. -/
def serve (n : Nat) (ready : α → Bool) (l : List α) : List α :=
  ((l.take n).filter fun x => !ready x) ++ l.drop n

/-- One round after the other, each with its own readiness. -/
def serveAll (n : Nat) : List (α → Bool) → List α → List α
  | [], l => l
  | ready :: rounds, l => serveAll n rounds (serve n ready l)

/-- How many members are not ready. -/
def blockers (ready : α → Bool) (l : List α) : Nat := l.countP fun x => !ready x

variable {n : Nat} {ready : α → Bool} {l : List α} {x : α}

/-! ### One round -/

theorem serve_sublist (n : Nat) (ready : α → Bool) (l : List α) : (serve n ready l).Sublist l := by
  have h : (serve n ready l).Sublist (l.take n ++ l.drop n) :=
    List.filter_sublist.append_right _
  rwa [List.take_append_drop] at h

/-- What a round leaves was not ready, or was not looked at. -/
theorem serve_eq_filter [DecidableEq α] (hl : l.Nodup) :
    serve n ready l = l.filter fun x => !(decide (x ∈ l.take n) && ready x) := by
  conv_rhs => rw [← List.take_append_drop n l, List.filter_append]
  unfold serve
  congr 1
  · apply List.filter_congr
    intro x hx
    rw [List.take_append_drop]
    simp [hx]
  · symm
    rw [List.filter_eq_self]
    intro x hx
    rw [List.take_append_drop]
    have hnot : x ∉ l.take n := fun hc => List.disjoint_take_drop hl (Nat.le_refl n) hc hx
    simp [hnot]

theorem serve_congr {ready' : α → Bool} (h : ∀ x ∈ l, ready x = ready' x) :
    serve n ready l = serve n ready' l := by
  unfold serve
  congr 1
  apply List.filter_congr
  intro x hx
  rw [h x (List.mem_of_mem_take hx)]

/-- Rounds depend only on the readiness of the members. -/
theorem serveAll_congr {ι : Type*} {f g : ι → α → Bool} (rounds : List ι)
    (h : ∀ i ∈ rounds, ∀ x ∈ l, f i x = g i x) :
    serveAll n (rounds.map f) l = serveAll n (rounds.map g) l := by
  induction rounds generalizing l with
  | nil => rfl
  | cons i rounds ih =>
      rw [List.map_cons, List.map_cons, serveAll, serveAll,
        serve_congr (h i List.mem_cons_self)]
      refine ih fun j hj x hx => h j (List.mem_cons_of_mem _ hj) x ?_
      exact (serve_sublist n (g i) l).subset hx

theorem serveAll_subset (rounds : List (α → Bool)) : serveAll n rounds l ⊆ l := by
  induction rounds generalizing l with
  | nil => exact fun _ hx => hx
  | cons ready rounds ih =>
      intro x hx
      exact (serve_sublist n ready l).subset (ih hx)

/-! ### A member and those in front of it -/

variable {pre post : List α}

/-- A ready member inside the window leaves. -/
theorem not_mem_serve (hl : (pre ++ x :: post).Nodup) (hwindow : pre.length < n)
    (hx : ready x = true) : x ∉ serve n ready (pre ++ x :: post) := by
  classical
  rw [serve_eq_filter hl, List.mem_filter]
  rintro ⟨-, hstay⟩
  have hin : x ∈ (pre ++ x :: post).take n := by
    rw [List.take_append]
    refine List.mem_append_right _ ?_
    obtain ⟨k, hk⟩ := Nat.exists_eq_succ_of_ne_zero (Nat.sub_ne_zero_of_lt hwindow)
    rw [hk, List.take_succ_cons]
    exact List.mem_cons_self
  simp [hin, hx] at hstay

/-- A round that does not reach a member serves those in front of it only. -/
theorem serve_append (hwindow : n ≤ pre.length) :
    serve n ready (pre ++ post) = serve n ready pre ++ post := by
  unfold serve
  rw [List.take_append_of_le_length hwindow, List.drop_append_of_le_length hwindow,
    List.append_assoc]

/-- A round serves one ready member at least, if the window is not full of others. -/
theorem countP_serve_lt {q : α → Bool} (hfew : blockers ready pre < n) (hwindow : n ≤ pre.length)
    (hq : ∀ y ∈ pre, ready y = true → q y = true) :
    (serve n ready pre).countP q < pre.countP q := by
  -- among the first `n` some member is ready
  have hsome : ((pre.take n).filter fun y => !ready y).countP q < (pre.take n).countP q := by
    have hlen : ((pre.take n).countP fun y => !ready y) < (pre.take n).length := by
      rw [List.length_take, Nat.min_eq_left hwindow]
      exact Nat.lt_of_le_of_lt ((List.take_sublist n pre).countP_le) hfew
    obtain ⟨y, hy, hready⟩ : ∃ y ∈ pre.take n, ready y = true := by
      by_contra hnone
      refine Nat.ne_of_lt hlen (List.countP_eq_length.mpr fun y hy => ?_)
      rw [Bool.not_eq_true']
      by_contra hy'
      exact hnone ⟨y, hy, by simpa using hy'⟩
    rw [List.countP_filter]
    obtain ⟨as, bs, hsplit⟩ := List.append_of_mem hy
    have hqy : q y = true := hq y (List.mem_of_mem_take hy) hready
    have hle : ∀ l : List α, (l.countP fun y => q y && !ready y) ≤ l.countP q :=
      fun l => List.countP_mono_left fun z _ hz => (Bool.and_eq_true_iff.mp hz).1
    rw [hsplit, List.countP_append, List.countP_append, List.countP_cons, List.countP_cons, hready,
      hqy]
    have has := hle as
    have hbs := hle bs
    simp only [Bool.not_true, Bool.and_false, Bool.false_eq_true, if_false, if_true]
    omega
  have hall : pre.countP q = (pre.take n).countP q + (pre.drop n).countP q := by
    rw [← List.countP_append, List.take_append_drop]
  unfold serve
  rw [List.countP_append, hall]
  exact Nat.add_lt_add_right hsome _

/-! ### Many rounds -/

/-- **A member behind few blockers is served**: `ready` is its first readiness,
`q` the last one, and readiness only grows. -/
theorem served_of_few_blockers {q : α → Bool} {rounds : List (α → Bool)}
    (hl : (pre ++ x :: post).Nodup) (hx : ready x = true)
    (hgrow : ∀ r ∈ rounds, ∀ y ∈ pre ++ x :: post, ready y = true → r y = true)
    (hlast : ∀ r ∈ rounds, ∀ y ∈ pre, r y = true → q y = true)
    (hfew : blockers ready pre < n) (hrounds : pre.countP q < rounds.length) :
    x ∉ serveAll n rounds (pre ++ x :: post) := by
  induction rounds generalizing pre with
  | nil => exact absurd hrounds (Nat.not_lt_zero _)
  | cons r rounds ih =>
      have hxmem : x ∈ pre ++ x :: post := List.mem_append_right _ List.mem_cons_self
      have hrx : r x = true := hgrow r List.mem_cons_self x hxmem hx
      by_cases hwindow : pre.length < n
      · intro hc
        exact not_mem_serve hl hwindow hrx (serveAll_subset rounds hc)
      · -- the window is in front of the member
        have hwindow : n ≤ pre.length := Nat.le_of_not_lt hwindow
        have hsub := serve_sublist n r pre
        have hmem : ∀ y ∈ serve n r pre, y ∈ pre := fun y hy => hsub.subset hy
        have hless : blockers r pre < n := by
          refine Nat.lt_of_le_of_lt (List.countP_mono_left fun y hy hb => ?_) hfew
          by_contra hready
          have hry := hgrow r List.mem_cons_self y (List.mem_append_left _ hy) (by simpa using hready)
          simp [hry] at hb
        show x ∉ serveAll n rounds (serve n r (pre ++ x :: post))
        rw [serve_append hwindow]
        refine ih (hl.sublist (hsub.append_right _)) ?_ ?_ ?_ ?_
        · intro r' hr' y hy
          refine hgrow r' (List.mem_cons_of_mem _ hr') y ?_
          exact (hsub.append_right _).subset hy
        · exact fun r' hr' y hy => hlast r' (List.mem_cons_of_mem _ hr') y (hmem y hy)
        · exact Nat.lt_of_le_of_lt hsub.countP_le hfew
        · have hlt := countP_serve_lt hless hwindow (hlast r List.mem_cons_self)
          rw [List.length_cons] at hrounds
          omega

/-- **A member behind a full window of blockers is never served** while they
stay what they are. -/
theorem stuck_of_blockers (hmany : n ≤ blockers ready pre) (k : Nat) :
    x ∈ serveAll n (List.replicate k ready) (pre ++ x :: post) := by
  induction k generalizing pre with
  | zero => exact List.mem_append_right _ List.mem_cons_self
  | succ k ih =>
      have hwindow : n ≤ pre.length := Nat.le_trans hmany List.countP_le_length
      show x ∈ serveAll n (List.replicate k ready) (serve n ready (pre ++ x :: post))
      rw [serve_append hwindow]
      refine ih ?_
      -- what blocks stays in front
      refine Nat.le_trans hmany (Nat.le_of_eq ?_)
      unfold blockers serve
      rw [List.countP_append, List.countP_filter]
      conv_lhs => rw [← List.take_append_drop n pre, List.countP_append]
      congr 1
      apply List.countP_congr
      intro y _
      simp

end Window
