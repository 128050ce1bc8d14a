/-
Dopilot/Table.lean

Tables: finite lists of rows with distinct primary keys, in insertion order.

The key is kept apart from the rest of the row (`κ × ρ`), so no update can
change it, and distinctness is a field, so a table with two rows of one key
cannot be built.  `get` looks a row up, `modify` updates one row in place,
`updateAll` updates every row and `insert` appends a row under a new key.
The lemmas say what each update does to `get` and to membership.
-/
import Mathlib.Data.List.Nodup

/-- Rows with distinct primary keys. -/
structure Table (κ ρ : Type*) where
  rows : List (κ × ρ)
  nodup : (rows.map Prod.fst).Nodup

namespace Table

variable {κ ρ : Type*}

/-! ### Building and updating -/

/-- The table without rows. -/
def empty : Table κ ρ := ⟨[], List.nodup_nil⟩

/-- Every row is rewritten; the keys stay. -/
def updateAll (t : Table κ ρ) (f : κ → ρ → ρ) : Table κ ρ where
  rows := t.rows.map fun r => (r.1, f r.1 r.2)
  nodup := by
    have hkeys : (t.rows.map fun r => (r.1, f r.1 r.2)).map Prod.fst = t.rows.map Prod.fst := by
      simp [Function.comp_def]
    rw [hkeys]
    exact t.nodup

/-- The rows that meet a condition. -/
def filter (t : Table κ ρ) (p : κ × ρ → Bool) : Table κ ρ where
  rows := t.rows.filter p
  nodup := t.nodup.sublist (List.filter_sublist.map _)

variable [DecidableEq κ]

/-- The row stored under a key. -/
def get (t : Table κ ρ) (k : κ) : Option ρ :=
  (t.rows.find? fun r => r.1 = k).map Prod.snd

/-- Update the row of one key, in place. -/
def modify (t : Table κ ρ) (k : κ) (f : ρ → ρ) : Table κ ρ :=
  t.updateAll fun k' r => if k' = k then f r else r

/-- Append a row under a key that is not used yet; keep the table otherwise. -/
def insert (t : Table κ ρ) (k : κ) (r : ρ) : Table κ ρ :=
  if h : k ∈ t.rows.map Prod.fst then t
  else
    { rows := t.rows ++ [(k, r)]
      nodup := by
        rw [List.map_append, List.nodup_append]
        refine ⟨t.nodup, by simp, ?_⟩
        intro a ha b hb hab
        have hbk : b = k := by simpa using hb
        exact h (hbk ▸ hab ▸ ha) }

/-- Store a row under a key, in place of the one it may have. -/
def put (t : Table κ ρ) (k : κ) (r : ρ) : Table κ ρ :=
  if (t.get k).isSome then t.modify k fun _ => r else t.insert k r

/-- Drop the row of a key. -/
def erase (t : Table κ ρ) (k : κ) : Table κ ρ where
  rows := t.rows.filter fun r => r.1 ≠ k
  nodup := t.nodup.sublist (List.filter_sublist.map _)

/-! ### Lookup and membership -/

theorem find_eq_some_of_mem {l : List (κ × ρ)} (hl : (l.map Prod.fst).Nodup) {k : κ} {r : ρ}
    (h : (k, r) ∈ l) : l.find? (fun x => x.1 = k) = some (k, r) := by
  induction l with
  | nil => cases h
  | cons x l ih =>
      rw [List.map_cons, List.nodup_cons] at hl
      rcases List.mem_cons.mp h with rfl | hmem
      · simp
      · have hx : x.1 ≠ k := by
          rintro rfl
          exact hl.1 (List.mem_map.mpr ⟨(x.1, r), hmem, rfl⟩)
        rw [List.find?_cons_of_neg (by simpa using hx)]
        exact ih hl.2 hmem

/-- A row is in the table exactly when its key looks it up. -/
theorem mem_rows_iff {t : Table κ ρ} {k : κ} {r : ρ} : (k, r) ∈ t.rows ↔ t.get k = some r := by
  constructor
  · intro h
    rw [get, find_eq_some_of_mem t.nodup h]
    rfl
  · intro h
    obtain ⟨x, hx, rfl⟩ := Option.map_eq_some_iff.mp h
    have hk : x.1 = k := by simpa using List.find?_some hx
    rw [← hk]
    exact List.mem_of_find?_eq_some hx

@[simp] theorem get_empty (k : κ) : (empty : Table κ ρ).get k = none := rfl

theorem find_map (l : List (κ × ρ)) (f : κ → ρ → ρ) (k : κ) :
    ((l.map fun r => (r.1, f r.1 r.2)).find? fun r => r.1 = k)
      = (l.find? fun r => r.1 = k).map fun r => (r.1, f r.1 r.2) := by
  rw [List.find?_map]
  rfl

@[simp] theorem get_updateAll (t : Table κ ρ) (f : κ → ρ → ρ) (k : κ) :
    (t.updateAll f).get k = (t.get k).map (f k) := by
  rw [get, updateAll, find_map, get]
  rcases h : t.rows.find? (fun r => r.1 = k) with - | x
  · simp [h]
  · have hk : x.1 = k := by simpa using List.find?_some h
    simp [h, hk]

theorem get_modify (t : Table κ ρ) (k : κ) (f : ρ → ρ) (k' : κ) :
    (t.modify k f).get k' = if k' = k then (t.get k').map f else t.get k' := by
  rw [modify, get_updateAll]
  by_cases h : k' = k
  · simp [h]
  · simp [h]

@[simp] theorem get_modify_self (t : Table κ ρ) (k : κ) (f : ρ → ρ) :
    (t.modify k f).get k = (t.get k).map f := by
  rw [get_modify, if_pos rfl]

theorem get_modify_ne (t : Table κ ρ) {k k' : κ} (f : ρ → ρ) (h : k' ≠ k) :
    (t.modify k f).get k' = t.get k' := by
  rw [get_modify, if_neg h]

theorem mem_keys_iff {t : Table κ ρ} {k : κ} :
    k ∈ t.rows.map Prod.fst ↔ ∃ r, t.get k = some r := by
  constructor
  · intro h
    obtain ⟨x, hx, rfl⟩ := List.mem_map.mp h
    exact ⟨x.2, mem_rows_iff.mp hx⟩
  · rintro ⟨r, hr⟩
    exact List.mem_map.mpr ⟨(k, r), mem_rows_iff.mpr hr, rfl⟩

theorem get_insert (t : Table κ ρ) {k : κ} (r : ρ) (h : t.get k = none) (k' : κ) :
    (t.insert k r).get k' = if k' = k then some r else t.get k' := by
  have hk : k ∉ t.rows.map Prod.fst := by
    rw [mem_keys_iff]
    rintro ⟨r', hr'⟩
    rw [h] at hr'
    cases hr'
  rw [insert, dif_neg hk, get, List.find?_append]
  by_cases hkk : k' = k
  · subst hkk
    have hnone : t.rows.find? (fun x => x.1 = k') = none := by
      simpa [get] using h
    simp [hnone]
  · have hne : k ≠ k' := fun e => hkk e.symm
    simp [hne, hkk, get]

/-- A row of a table that was inserted into is the new one, or was there. -/
theorem mem_rows_insert {t : Table κ ρ} {k : κ} {r : ρ} {y : κ × ρ}
    (h : y ∈ (t.insert k r).rows) : y = (k, r) ∨ y ∈ t.rows := by
  unfold insert at h
  split at h
  · exact .inr h
  · rcases List.mem_append.mp h with hold | hnew
    · exact .inr hold
    · exact .inl (List.mem_singleton.mp hnew)

/-- A row after a modification comes from one that was there, and keeps what the modification
keeps. -/
theorem mem_rows_modify {γ : Type*} {t : Table κ ρ} {k : κ} {f : ρ → ρ} {g : ρ → γ}
    (hf : ∀ r, g (f r) = g r) {y : κ × ρ} (h : y ∈ (t.modify k f).rows) :
    ∃ z ∈ t.rows, g z.2 = g y.2 := by
  obtain ⟨z, hz, rfl⟩ := List.mem_map.mp h
  refine ⟨z, hz, ?_⟩
  show g z.2 = g (if z.1 = k then f z.2 else z.2)
  split
  · exact (hf z.2).symm
  · rfl

theorem get_put (t : Table κ ρ) (k : κ) (r : ρ) (k' : κ) :
    (t.put k r).get k' = if k' = k then some r else t.get k' := by
  unfold put
  split
  · rename_i hsome
    obtain ⟨old, hold⟩ := Option.isSome_iff_exists.mp hsome
    rw [get_modify]
    by_cases hk : k' = k
    · rw [if_pos hk, if_pos hk, hk, hold]
      rfl
    · rw [if_neg hk, if_neg hk]
  · rename_i hnone
    exact get_insert t r (Option.not_isSome_iff_eq_none.mp hnone) k'

theorem get_filter (t : Table κ ρ) (p : κ × ρ → Bool) (k : κ) :
    (t.filter p).get k = (t.get k).filter fun r => p (k, r) := by
  ext r
  rw [← mem_rows_iff, Option.filter_eq_some_iff, ← mem_rows_iff]
  exact List.mem_filter

theorem get_erase (t : Table κ ρ) (k k' : κ) :
    (t.erase k).get k' = if k' = k then none else t.get k' := by
  rw [get, erase, List.find?_filter]
  by_cases h : k' = k
  · rw [if_pos h, Option.map_eq_none_iff, List.find?_eq_none]
    intro x _
    simp [h]
  · rw [if_neg h, get]
    congr 2
    funext x
    by_cases hx : x.1 = k'
    · simp [hx, h]
    · simp [hx]

end Table
