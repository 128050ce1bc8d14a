/-
Dopilot/Erasure.lean

Rows that nobody misses.

`Table.without` erases the rows of some keys.  What is written to a table row by
row is written to it without these rows as well (`updateAll_without`,
`insert_without`), and a reader that passes them over sees no difference
(`filter_without`, `any_without`).

`Transparent` says that a map of the states commutes with every step of a machine
and hides nothing of what the steps put out; by induction it commutes with every
run (`Transparent.runList`).
-/
import Dopilot.StateMachine
import Dopilot.Table

/-! ### Tables -/

namespace Table

variable {κ ρ : Type*}

/-- A table is its rows. -/
theorem ext_rows {t t' : Table κ ρ} (h : t.rows = t'.rows) : t = t' := by
  obtain ⟨rows, _⟩ := t
  obtain ⟨rows', _⟩ := t'
  obtain rfl : rows = rows' := h
  rfl

variable [DecidableEq κ]

/-- The table without the rows of some keys. -/
def without (t : Table κ ρ) (gone : List κ) : Table κ ρ := t.filter fun r => decide (r.1 ∉ gone)

theorem mem_without {t : Table κ ρ} {gone : List κ} {r : κ × ρ} :
    r ∈ (t.without gone).rows ↔ r ∈ t.rows ∧ r.1 ∉ gone := by
  show r ∈ t.rows.filter _ ↔ _
  rw [List.mem_filter, decide_eq_true_eq]

theorem get_without (t : Table κ ρ) (gone : List κ) (k : κ) :
    (t.without gone).get k = if k ∈ gone then none else t.get k := by
  rw [without, get_filter]
  by_cases hk : k ∈ gone
  · rw [if_pos hk]
    rcases t.get k with - | r
    · rfl
    · exact Option.filter_eq_none_iff.mpr fun r _ => by simp [hk]
  · rw [if_neg hk]
    rcases t.get k with - | r
    · rfl
    · exact Option.filter_some_pos (by simp [hk])

theorem get_without_of_notMem (t : Table κ ρ) {gone : List κ} {k : κ} (hk : k ∉ gone) :
    (t.without gone).get k = t.get k := by
  rw [get_without, if_neg hk]

/-- A table is empty of keys it does not have. -/
theorem without_of_free {t : Table κ ρ} {gone : List κ} (h : ∀ k ∈ gone, t.get k = none) :
    t.without gone = t := by
  refine ext_rows (List.filter_eq_self.mpr fun r hr => ?_)
  rw [decide_eq_true_eq]
  intro hgone
  have hget : t.get r.1 = some r.2 := mem_rows_iff.mp hr
  rw [h r.1 hgone] at hget
  cases hget

theorem without_without (t : Table κ ρ) (gone gone' : List κ) :
    (t.without gone).without gone' = t.without (gone ++ gone') := by
  refine ext_rows ?_
  show (t.rows.filter _).filter _ = t.rows.filter _
  rw [List.filter_filter]
  refine List.filter_congr fun r _ => ?_
  simp [Bool.and_comm]

theorem without_congr (t : Table κ ρ) {gone gone' : List κ}
    (h : ∀ k r, t.get k = some r → (k ∈ gone ↔ k ∈ gone')) : t.without gone = t.without gone' := by
  refine ext_rows (List.filter_congr fun r hr => ?_)
  exact decide_eq_decide.mpr (not_congr (h r.1 r.2 (mem_rows_iff.mp hr)))

/-! What is written. -/

theorem updateAll_without (t : Table κ ρ) (gone : List κ) (f : κ → ρ → ρ) :
    (t.without gone).updateAll f = (t.updateAll f).without gone := by
  refine ext_rows ?_
  show (t.rows.filter _).map _ = (t.rows.map _).filter _
  rw [List.filter_map]
  rfl

theorem modify_without (t : Table κ ρ) (gone : List κ) (k : κ) (f : ρ → ρ) :
    (t.without gone).modify k f = (t.modify k f).without gone := updateAll_without ..

theorem filter_rows_without (t : Table κ ρ) (gone : List κ) (p : κ × ρ → Bool) :
    (t.without gone).filter p = (t.filter p).without gone := by
  refine ext_rows ?_
  show (t.rows.filter _).filter _ = (t.rows.filter _).filter _
  rw [List.filter_filter, List.filter_filter]
  exact List.filter_congr fun r _ => Bool.and_comm ..

theorem insert_without (t : Table κ ρ) {gone : List κ} {k : κ} (hk : k ∉ gone) (r : ρ) :
    (t.without gone).insert k r = (t.insert k r).without gone := by
  have hkeys : k ∈ (t.without gone).rows.map Prod.fst ↔ k ∈ t.rows.map Prod.fst := by
    rw [mem_keys_iff, mem_keys_iff, get_without_of_notMem t hk]
  by_cases htaken : k ∈ t.rows.map Prod.fst
  · rw [insert, dif_pos (hkeys.mpr htaken), insert, dif_pos htaken]
  · rw [insert, dif_neg (fun hc => htaken (hkeys.mp hc)), insert, dif_neg htaken]
    refine ext_rows ?_
    show t.rows.filter _ ++ [(k, r)] = (t.rows ++ [(k, r)]).filter _
    rw [List.filter_append, List.filter_cons_of_pos (by simpa using hk), List.filter_nil]

/-! What is read. -/

theorem filter_without {t : Table κ ρ} {gone : List κ} {p : κ × ρ → Bool}
    (h : ∀ k ∈ gone, ∀ r, t.get k = some r → p (k, r) = false) :
    (t.without gone).rows.filter p = t.rows.filter p := by
  show (t.rows.filter _).filter p = _
  rw [List.filter_filter]
  refine List.filter_congr fun r hr => ?_
  by_cases hgone : r.1 ∈ gone
  · rw [h r.1 hgone r.2 (mem_rows_iff.mp hr), Bool.false_and]
  · simp [hgone]

theorem any_without {t : Table κ ρ} {gone : List κ} {p : κ × ρ → Bool}
    (h : ∀ k ∈ gone, ∀ r, t.get k = some r → p (k, r) = false) :
    (t.without gone).rows.any p = t.rows.any p := by
  have hany : ∀ l : List (κ × ρ), l.any p = !(l.filter p).isEmpty := by
    intro l
    induction l with
    | nil => rfl
    | cons r l ih =>
        by_cases hr : p r = true
        · rw [List.any_cons, hr, List.filter_cons_of_pos hr]
          rfl
        · rw [List.any_cons, List.filter_cons_of_neg hr, ih, eq_false_of_ne_true hr,
            Bool.false_or]
  rw [hany, hany, filter_without h]

end Table

/-! ### Machines -/

namespace StateMachine

variable {σ α ω : Type*} {step : σ → α → Option σ} {out : σ → α → ω} {inv : σ → Prop} {g : σ → σ}
  {seen : α → Prop}

/-- In the states that satisfy `inv` the map `g` commutes with the steps, and the
actions that `seen` names put out the same. -/
structure Transparent (step : σ → α → Option σ) (out : σ → α → ω) (inv : σ → Prop)
    (seen : α → Prop) (g : σ → σ) : Prop where
  steps : ∀ s a, inv s → step (g s) a = (step s a).map g
  keeps : ∀ s a s', inv s → step s a = some s' → inv s'
  output : ∀ s a, inv s → seen a → out (g s) a = out s a

/-- **The run rule.**  A transparent map commutes with every run. -/
theorem Transparent.runList (h : Transparent step out inv seen g) {s : σ} (hs : inv s)
    (as : List α) :
    StateMachine.runList step (g s) as = (StateMachine.runList step s as).map g ∧
      ∀ s', StateMachine.runList step s as = some s' → inv s' := by
  induction as generalizing s with
  | nil => exact ⟨rfl, fun s' hs' => Option.some.inj hs' ▸ hs⟩
  | cons a as ih =>
      unfold StateMachine.runList
      rw [h.steps s a hs]
      rcases ha : step s a with - | s₁
      · exact ⟨rfl, fun s' hs' => by cases hs'⟩
      · exact ih (h.keeps s a s₁ hs ha)

/-- What the actions put out behind a run is the same on both sides. -/
theorem Transparent.output_runList (h : Transparent step out inv seen g) {s s' : σ} (hs : inv s)
    {as : List α} (hrun : StateMachine.runList step s as = some s') {a : α} (ha : seen a) :
    out (g s') a = out s' a := h.output s' a ((h.runList hs as).2 s' hrun) ha

end StateMachine
