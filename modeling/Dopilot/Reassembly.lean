/-
Dopilot/Reassembly.lean

Rebuilding a growing file from slices that carry their offset.

A sender cuts slices from an append-only file and may send a stretch again; a
receiver keeps the offset it has reached and looks at nothing but where a slice
starts: behind that offset it drops the slice, at it it appends, past it it
counts a gap, writes a marker and jumps.

`ChainedFrom n` says of a list of slices that each of them starts where the
ones before it end, or ends no later.  This is what the receiver needs:
`assemble_chained` shows that it then rebuilds the file from its start, without
a gap, up to the furthest point any slice reached.  A slice that starts inside
what was sent and reaches past it is what breaks a chain.

`pieces` is what the receiver writes for each slice; where the slices are joined
it is the slices themselves.
-/
import Mathlib.Data.List.TakeDrop

namespace Reassembly

variable {α : Type*}

/-- A stretch of the file, with the offset it was cut at. -/
structure Slice (α : Type*) where
  offset : Nat
  data : List α

/-- Where the slice ends in the file. -/
def Slice.stop (s : Slice α) : Nat := s.offset + s.data.length

/-- The receiver: the offset it has reached, what it has written, its gaps. -/
structure Assembly (α : Type*) where
  next : Nat
  body : List α
  gaps : Nat

variable (marker : Nat → Nat → List α)

/-- One slice arrives. -/
def accept (a : Assembly α) (s : Slice α) : Assembly α :=
  if s.data = [] ∨ s.offset < a.next then a
  else if s.offset = a.next then { a with next := s.stop, body := a.body ++ s.data }
  else
    { next := s.stop
      body := a.body ++ (marker a.next s.offset ++ s.data)
      gaps := a.gaps + 1 }

/-- The slices arrive in order. -/
def assemble (a : Assembly α) (l : List (Slice α)) : Assembly α := l.foldl (accept marker) a

/-- The furthest point reached by the slices, or `n`. -/
def landedFrom (n : Nat) : List (Slice α) → Nat
  | [] => n
  | s :: l => landedFrom (max n s.stop) l

/-- Each slice starts where those before it end, or ends no later. -/
def ChainedFrom (n : Nat) : List (Slice α) → Prop
  | [] => True
  | s :: l => (s.offset = n ∨ s.stop ≤ n) ∧ ChainedFrom (max n s.stop) l

/-- The slice is a stretch of the file. -/
def CutFrom (file : List α) (s : Slice α) : Prop :=
  s.data = (file.drop s.offset).take s.data.length

variable {marker}

/-! ### Growing lists and files -/

@[simp] theorem assemble_nil (a : Assembly α) : assemble marker a [] = a := rfl

@[simp] theorem assemble_cons (a : Assembly α) (s : Slice α) (l : List (Slice α)) :
    assemble marker a (s :: l) = assemble marker (accept marker a s) l := rfl

theorem assemble_append (a : Assembly α) (l l' : List (Slice α)) :
    assemble marker a (l ++ l') = assemble marker (assemble marker a l) l' :=
  List.foldl_append

theorem landedFrom_append (n : Nat) (l l' : List (Slice α)) :
    landedFrom n (l ++ l') = landedFrom (landedFrom n l) l' := by
  induction l generalizing n with
  | nil => rfl
  | cons s l ih => exact ih _

theorem le_landedFrom (n : Nat) (l : List (Slice α)) : n ≤ landedFrom n l := by
  induction l generalizing n with
  | nil => exact Nat.le_refl n
  | cons s l ih => exact Nat.le_trans (Nat.le_max_left n s.stop) (ih _)

theorem landedFrom_le_append (n : Nat) (l l' : List (Slice α)) :
    landedFrom n l ≤ landedFrom n (l ++ l') := by
  rw [landedFrom_append]
  exact le_landedFrom _ l'

/-- Appending a slice to a chain. -/
theorem chainedFrom_append (n : Nat) (l l' : List (Slice α)) :
    ChainedFrom n (l ++ l') ↔ ChainedFrom n l ∧ ChainedFrom (landedFrom n l) l' := by
  induction l generalizing n with
  | nil => simp [ChainedFrom, landedFrom]
  | cons s l ih => simp [ChainedFrom, landedFrom, ih, and_assoc]

/-- A slice stays a stretch of a file that only grows. -/
theorem CutFrom.mono {file file' : List α} {s : Slice α} (h : CutFrom file s)
    (hgrow : file <+: file') : CutFrom file' s := by
  obtain ⟨more, rfl⟩ := hgrow
  have hlen : s.data.length ≤ (file.drop s.offset).length := by
    have := congrArg List.length h
    rw [List.length_take] at this
    omega
  unfold CutFrom at h ⊢
  rw [List.drop_append, List.take_append_of_le_length hlen]
  exact h

/-- What is read from a file at an offset is a stretch of it. -/
theorem cutFrom_read (file : List α) (offset n : Nat) :
    CutFrom file ⟨offset, (file.drop offset).take n⟩ := by
  unfold CutFrom
  simp only [List.length_take]
  rw [List.take_eq_take_iff]
  omega

/-- A slice that is not empty ends inside its file. -/
theorem CutFrom.stop_le {file : List α} {s : Slice α} (h : CutFrom file s) (hs : s.data ≠ []) :
    s.stop ≤ file.length := by
  have hlen := congrArg List.length h
  have hpos : 0 < s.data.length := List.length_pos_iff.mpr hs
  rw [List.length_take, List.length_drop] at hlen
  unfold Slice.stop
  omega

/-! ### What a slice writes -/

/-- What the receiver writes for a slice. -/
def piece (marker : Nat → Nat → List α) (a : Assembly α) (s : Slice α) : List α :=
  if s.data = [] ∨ s.offset < a.next then []
  else if s.offset = a.next then s.data
  else marker a.next s.offset ++ s.data

/-- What it writes for each of the slices. -/
def pieces (marker : Nat → Nat → List α) (a : Assembly α) : List (Slice α) → List (List α)
  | [] => []
  | s :: l => piece marker a s :: pieces marker (accept marker a s) l

/-- Each slice starts where the one before it ends. -/
def JoinedFrom (n : Nat) : List (Slice α) → Prop
  | [] => True
  | s :: l => s.offset = n ∧ JoinedFrom s.stop l

theorem accept_body (marker : Nat → Nat → List α) (a : Assembly α) (s : Slice α) :
    (accept marker a s).body = a.body ++ piece marker a s := by
  unfold accept piece
  split
  · exact (List.append_nil _).symm
  · split
    · rfl
    · rfl

/-- How far the receiver is and what it writes do not depend on what it wrote. -/
theorem accept_congr {a b : Assembly α} (hnext : a.next = b.next) (hgaps : a.gaps = b.gaps)
    (s : Slice α) :
    (accept marker a s).next = (accept marker b s).next ∧
      (accept marker a s).gaps = (accept marker b s).gaps ∧
      piece marker a s = piece marker b s := by
  unfold accept piece
  rw [hnext]
  split
  · exact ⟨hnext, hgaps, rfl⟩
  · split
    · exact ⟨rfl, hgaps, rfl⟩
    · exact ⟨rfl, congrArg (· + 1) hgaps, rfl⟩

@[simp] theorem length_pieces (a : Assembly α) (l : List (Slice α)) :
    (pieces marker a l).length = l.length := by
  induction l generalizing a with
  | nil => rfl
  | cons s l ih => exact congrArg (· + 1) (ih _)

theorem pieces_append (a : Assembly α) (l l' : List (Slice α)) :
    pieces marker a (l ++ l') = pieces marker a l ++ pieces marker (assemble marker a l) l' := by
  induction l generalizing a with
  | nil => rfl
  | cons s l ih => exact congrArg (piece marker a s :: ·) (ih _)

theorem next_le_accept (a : Assembly α) (s : Slice α) : a.next ≤ (accept marker a s).next := by
  have hstop : s.stop = s.offset + s.data.length := rfl
  unfold accept
  split
  · exact Nat.le_refl _
  · rename_i hkeep
    obtain ⟨-, hge⟩ := not_or.mp hkeep
    split
    · show a.next ≤ s.stop
      omega
    · show a.next ≤ s.stop
      omega

theorem next_le_assemble (a : Assembly α) (l : List (Slice α)) :
    a.next ≤ (assemble marker a l).next := by
  induction l generalizing a with
  | nil => exact Nat.le_refl _
  | cons s l ih => exact Nat.le_trans (next_le_accept a s) (ih _)

/-- **A slice that was taken or dropped would be dropped again.** -/
theorem offset_lt_of_mem {a : Assembly α} {l : List (Slice α)} {s : Slice α} (hs : s ∈ l)
    (hdata : s.data ≠ []) : s.offset < (assemble marker a l).next := by
  induction l generalizing a with
  | nil => cases hs
  | cons t l ih =>
      rcases List.mem_cons.mp hs with rfl | hrest
      · refine Nat.lt_of_lt_of_le ?_ (next_le_assemble (accept marker a s) l)
        have hpos : 0 < s.data.length := List.length_pos_iff.mpr hdata
        have hstop : s.stop = s.offset + s.data.length := rfl
        unfold accept
        split
        · rename_i hdrop
          exact hdrop.resolve_left hdata
        · split
          · show s.offset < s.stop
            omega
          · show s.offset < s.stop
            omega
      · exact ih hrest

/-- A slice that starts where the receiver stands. -/
theorem accept_joined (marker : Nat → Nat → List α) {a : Assembly α} {s : Slice α}
    (h : s.offset = a.next) :
    accept marker a s = ⟨s.stop, a.body ++ s.data, a.gaps⟩ ∧ piece marker a s = s.data := by
  unfold accept piece
  by_cases hnil : s.data = []
  · have hstop : s.stop = a.next := by
      show s.offset + s.data.length = a.next
      rw [hnil, h]
      rfl
    rw [if_pos (.inl hnil), if_pos (.inl hnil), hstop, hnil, List.append_nil]
    exact ⟨rfl, rfl⟩
  · have hkeep : ¬ (s.data = [] ∨ s.offset < a.next) :=
      not_or.mpr ⟨hnil, Nat.not_lt.mpr (Nat.le_of_eq h.symm)⟩
    rw [if_neg hkeep, if_neg hkeep, if_pos h, if_pos h]
    exact ⟨rfl, rfl⟩

/-- **Joined slices are written as they are**, without a gap. -/
theorem assemble_joined (marker : Nat → Nat → List α) {a : Assembly α} {l : List (Slice α)}
    (h : JoinedFrom a.next l) :
    (assemble marker a l).gaps = a.gaps ∧ pieces marker a l = l.map Slice.data := by
  induction l generalizing a with
  | nil => exact ⟨rfl, rfl⟩
  | cons s l ih =>
      obtain ⟨hs, hl⟩ := h
      obtain ⟨haccept, hpiece⟩ := accept_joined marker hs
      rw [assemble_cons, pieces, haccept, hpiece]
      obtain ⟨hgaps, hpieces⟩ := ih (a := ⟨s.stop, a.body ++ s.data, a.gaps⟩) hl
      exact ⟨hgaps, congrArg (s.data :: ·) hpieces⟩

theorem joinedFrom_append {n : Nat} {l l' : List (Slice α)} (h : JoinedFrom n (l ++ l')) :
    JoinedFrom n l := by
  induction l generalizing n with
  | nil => trivial
  | cons s l ih => exact ⟨h.1, ih h.2⟩

/-- A slice among joined ones is written as it is. -/
theorem piece_joined (marker : Nat → Nat → List α) {a : Assembly α} {l l' : List (Slice α)}
    {s : Slice α} (h : JoinedFrom a.next (l ++ s :: l')) :
    piece marker (assemble marker a l) s = s.data := by
  have hjoined : JoinedFrom a.next (l ++ [s]) := by
    rw [← List.singleton_append, ← List.append_assoc] at h
    exact joinedFrom_append h
  have hpieces := (assemble_joined marker hjoined).2
  rw [pieces_append, List.map_append] at hpieces
  have hlast := (List.append_inj hpieces (by simp)).2
  exact (List.cons.inj hlast).1

/-! ### Chains are rebuilt -/

/-- What the receiver has written is the file up to the offset it has reached. -/
def Faithful (file : List α) (a : Assembly α) : Prop :=
  a.body = file.take a.next ∧ a.next ≤ file.length

/-- One slice of a chain: the receiver follows the furthest point reached. -/
theorem accept_chained (marker : Nat → Nat → List α) {file : List α} {a : Assembly α} {s : Slice α}
    (hs : s.offset = a.next ∨ s.stop ≤ a.next) (hcut : CutFrom file s)
    (ha : Faithful file a) :
    Faithful file (accept marker a s) ∧ (accept marker a s).next = max a.next s.stop ∧
      (accept marker a s).gaps = a.gaps := by
  have hstop : s.stop = s.offset + s.data.length := rfl
  have hdrop : s.data = [] ∨ s.offset < a.next → max a.next s.stop = a.next := by
    rintro (hnil | hlt)
    · rw [hnil, List.length_nil] at hstop
      omega
    · omega
  unfold accept
  by_cases h : s.data = [] ∨ s.offset < a.next
  · rw [if_pos h]
    exact ⟨ha, (hdrop h).symm, rfl⟩
  · rw [if_neg h]
    obtain ⟨hne, hge⟩ := not_or.mp h
    have hpos : 0 < s.data.length := List.length_pos_iff.mpr hne
    -- a chained slice that is not dropped starts exactly where the receiver stands
    have hat : s.offset = a.next := by omega
    rw [if_pos hat]
    refine ⟨⟨?_, hcut.stop_le hne⟩, ?_, rfl⟩
    · show a.body ++ s.data = file.take s.stop
      have hdata : s.data = (file.drop a.next).take s.data.length := hat ▸ hcut
      rw [hstop, hat, List.take_add, ← hdata, ha.1]
    · show s.stop = max a.next s.stop
      omega

/-- **A chain of stretches of a file is rebuilt without a gap.** -/
theorem assemble_chained (marker : Nat → Nat → List α) {file : List α} {a : Assembly α}
    {l : List (Slice α)}
    (hl : ChainedFrom a.next l) (hcut : ∀ s ∈ l, CutFrom file s) (ha : Faithful file a) :
    Faithful file (assemble marker a l) ∧
      (assemble marker a l).next = landedFrom a.next l ∧
      (assemble marker a l).gaps = a.gaps := by
  induction l generalizing a with
  | nil => exact ⟨ha, rfl, rfl⟩
  | cons s l ih =>
      obtain ⟨hs, hrest⟩ := hl
      obtain ⟨ha', hnext, hgaps⟩ := accept_chained marker hs
        (hcut s (List.mem_cons_self ..)) ha
      rw [← hnext] at hrest
      obtain ⟨hf, hn, hg⟩ := ih hrest (fun t ht => hcut t (List.mem_cons_of_mem _ ht)) ha'
      refine ⟨hf, ?_, hg.trans hgaps⟩
      rw [assemble_cons, hn, hnext]
      rfl

end Reassembly
