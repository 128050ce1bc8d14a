/-
Dopilot/Overlays.lean

Tables written over by others.

`updated` puts the rows of one table into another, as `dict.update` does.  An
overlay is a table of versions, where `none` stands for a row that is gone: `see`
looks a key up through it, and `overlaid` writes it into the table below, which is
how the writes of a transaction become the rows of a store (`get_overlaid`).
-/
import Dopilot.Table
import Mathlib.Logic.Function.Basic

namespace Table

variable {κ ρ : Type*} [DecidableEq κ]

/-! ### Updates -/

/-- The table with the rows of another put into it. -/
def updated (t u : Table κ ρ) : Table κ ρ := u.rows.foldl (fun t r => t.put r.1 r.2) t

theorem get_foldl_put {rows : List (κ × ρ)} (hnodup : (rows.map Prod.fst).Nodup) (t : Table κ ρ)
    (k : κ) : (rows.foldl (fun t r => t.put r.1 r.2) t).get k =
      ((rows.find? fun r => r.1 = k).map Prod.snd).or (t.get k) := by
  induction rows generalizing t with
  | nil => rfl
  | cons r rows ih =>
      rw [List.map_cons, List.nodup_cons] at hnodup
      rw [List.foldl_cons, ih hnodup.2, get_put, List.find?_cons]
      by_cases hk : k = r.1
      · -- the key does not come again
        have hnone : rows.find? (fun r => r.1 = k) = none := by
          rw [List.find?_eq_none]
          intro r' hr' hkey
          have hr : r'.1 = r.1 := (of_decide_eq_true hkey).trans hk
          exact hnodup.1 (hr ▸ List.mem_map_of_mem hr')
        rw [hnone, if_pos hk]
        simp [hk]
      · have hne : ¬ r.1 = k := fun h => hk h.symm
        rw [if_neg hk]
        simp [hne]

theorem get_updated (t u : Table κ ρ) (k : κ) : (t.updated u).get k = (u.get k).or (t.get k) :=
  get_foldl_put u.nodup t k

/-- The same row put under several keys. -/
theorem get_foldl_put_same (keys : List κ) (r : ρ) (t : Table κ ρ) (k : κ) :
    (keys.foldl (fun t k => t.put k r) t).get k = if k ∈ keys then some r else t.get k := by
  induction keys generalizing t with
  | nil => rfl
  | cons k' keys ih =>
      rw [List.foldl_cons, ih, get_put]
      by_cases hkeys : k ∈ keys
      · rw [if_pos hkeys, if_pos (List.mem_cons_of_mem _ hkeys)]
      · rw [if_neg hkeys]
        by_cases hk : k = k'
        · rw [if_pos hk, if_pos (hk ▸ List.mem_cons_self)]
        · have hno : k ∉ k' :: keys := by
            rintro hmem
            rcases List.mem_cons.mp hmem with h | h
            · exact hk h
            · exact hkeys h
          rw [if_neg hk, if_neg hno]

/-! ### Overlays -/

/-- A row, looked up through an overlay. -/
def see (t : Table κ ρ) (o : Table κ (Option ρ)) (k : κ) : Option ρ := (o.get k).getD (t.get k)

theorem see_of_none {t : Table κ ρ} {o : Table κ (Option ρ)} {k : κ} (h : o.get k = none) :
    t.see o k = t.get k := by
  rw [see, h]
  rfl

theorem see_of_some {t : Table κ ρ} {o : Table κ (Option ρ)} {k : κ} {v : Option ρ}
    (h : o.get k = some v) : t.see o k = v := by
  rw [see, h]
  rfl

@[simp] theorem see_empty (t : Table κ ρ) (k : κ) : t.see .empty k = t.get k := rfl

theorem see_put (t : Table κ ρ) (o : Table κ (Option ρ)) (k : κ) (v : Option ρ) :
    t.see (o.put k v) = Function.update (t.see o) k v := by
  funext k'
  rw [see, get_put]
  by_cases hk : k' = k
  · rw [if_pos hk, hk, Function.update_self]
    rfl
  · rw [if_neg hk, Function.update_of_ne hk]
    rfl

/-- A version becomes the row. -/
def write (t : Table κ ρ) (k : κ) : Option ρ → Table κ ρ
  | some r => t.put k r
  | none => t.erase k

theorem get_write (t : Table κ ρ) (k : κ) (v : Option ρ) (k' : κ) :
    (t.write k v).get k' = if k' = k then v else t.get k' := by
  cases v with
  | some r => exact get_put t k r k'
  | none => exact get_erase t k k'

/-- The versions of an overlay become the rows. -/
def overlaid (t : Table κ ρ) (o : Table κ (Option ρ)) : Table κ ρ :=
  o.rows.foldl (fun t r => t.write r.1 r.2) t

theorem get_foldl_write {rows : List (κ × Option ρ)} (hnodup : (rows.map Prod.fst).Nodup)
    (t : Table κ ρ) (k : κ) : (rows.foldl (fun t r => t.write r.1 r.2) t).get k =
      ((rows.find? fun r => r.1 = k).map Prod.snd).getD (t.get k) := by
  induction rows generalizing t with
  | nil => rfl
  | cons r rows ih =>
      rw [List.map_cons, List.nodup_cons] at hnodup
      rw [List.foldl_cons, ih hnodup.2, get_write, List.find?_cons]
      by_cases hk : k = r.1
      · have hnone : rows.find? (fun r => r.1 = k) = none := by
          rw [List.find?_eq_none]
          intro r' hr' hkey
          have hr : r'.1 = r.1 := (of_decide_eq_true hkey).trans hk
          exact hnodup.1 (hr ▸ List.mem_map_of_mem hr')
        rw [hnone, if_pos hk]
        simp [hk]
      · have hne : ¬ r.1 = k := fun h => hk h.symm
        rw [if_neg hk]
        simp [hne]

/-- **What was seen through the overlay is what is there.** -/
theorem get_overlaid (t : Table κ ρ) (o : Table κ (Option ρ)) (k : κ) :
    (t.overlaid o).get k = t.see o k := get_foldl_write o.nodup t k

/-- The first row seen that meets a condition. -/
def seek (t : Table κ ρ) (o : Table κ (Option ρ)) (p : ρ → Bool) : Option (κ × ρ) :=
  (o.rows.map Prod.fst ++ t.rows.map Prod.fst).findSome? fun k =>
    (t.see o k).bind fun r => if p r then some (k, r) else none

theorem seek_some {t : Table κ ρ} {o : Table κ (Option ρ)} {p : ρ → Bool} {k : κ} {r : ρ}
    (h : t.seek o p = some (k, r)) : t.see o k = some r ∧ p r = true := by
  obtain ⟨k', -, hk'⟩ := List.exists_of_findSome?_eq_some h
  obtain ⟨r', hr', hp⟩ := Option.bind_eq_some_iff.mp hk'
  split at hp
  · rename_i hpr
    obtain ⟨rfl, rfl⟩ := Prod.mk.inj (Option.some.inj hp)
    exact ⟨hr', hpr⟩
  · cases hp

theorem seek_none {t : Table κ ρ} {o : Table κ (Option ρ)} {p : ρ → Bool}
    (h : t.seek o p = none) {k : κ} {r : ρ} (hr : t.see o k = some r) : p r = false := by
  have hmem : k ∈ o.rows.map Prod.fst ++ t.rows.map Prod.fst := by
    rw [List.mem_append, mem_keys_iff, mem_keys_iff]
    cases ho : o.get k with
    | some v => exact .inl ⟨v, rfl⟩
    | none =>
        rw [see_of_none ho] at hr
        exact .inr ⟨r, hr⟩
  have hno := List.findSome?_eq_none_iff.mp h k hmem
  rw [hr, Option.bind_some] at hno
  split at hno
  · cases hno
  · rename_i hp
    simpa using hp

end Table
