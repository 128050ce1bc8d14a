/-
Dopilot/TaskStates.lean

The state machines of tasks and executions.

A task is the parent run, an execution its part on one node.  Terminal
executions roll up to the terminal of their task: `failed` before `lost` before
`canceled` before `complete`, and nothing as long as one of them is active.
`lost` is the one soft terminal: it may still give way to a hard one.

`rollupTaskStatus` depends only on which statuses there are
(`rollup_congr`), and every roll-up is a terminal that a running task may move
to (`rollup_terminal`, `rollup_reachable`).  `Advances` says how a status may
change without regressing; when executions advance, a roll-up that was decided
advances too (`rollup_advances`).
-/
import Mathlib.Data.List.Basic

namespace Dopilot

/-! ### Statuses -/

inductive TaskStatus where
  | queued
  | running
  | finalizing
  | complete
  | failed
  | canceled
  | lost
  | noTarget
  deriving DecidableEq, Repr

inductive ExecStatus where
  | pending
  | running
  | finished
  | failed
  | canceled
  | lost
  deriving DecidableEq, Repr

namespace TaskStatus

/-- `TASK_ACTIVE`. -/
def active : TaskStatus → Bool
  | queued | running | finalizing => true
  | complete | failed | canceled | lost | noTarget => false

/-- `TASK_TERMINAL`. -/
def terminal (s : TaskStatus) : Bool := !s.active

/-- The terminals that are never left. -/
def hard : TaskStatus → Bool
  | complete | failed | canceled | noTarget => true
  | queued | running | finalizing | lost => false

/-- `_TASK_EDGES`. -/
def edges : TaskStatus → List TaskStatus
  | queued => [queued, running, failed, canceled, lost]
  | running => [running, finalizing, complete, failed, canceled, lost]
  | finalizing => [finalizing, complete, failed, canceled, lost]
  | lost => [lost, complete, failed, canceled]
  | complete | failed | canceled | noTarget => []

end TaskStatus

namespace ExecStatus

/-- `EXEC_ACTIVE`. -/
def active : ExecStatus → Bool
  | pending | running => true
  | finished | failed | canceled | lost => false

/-- `EXEC_TERMINAL`. -/
def terminal (s : ExecStatus) : Bool := !s.active

/-- The terminals that are never left. -/
def hard : ExecStatus → Bool
  | finished | failed | canceled => true
  | pending | running | lost => false

/-- `_EXEC_EDGES`. -/
def edges : ExecStatus → List ExecStatus
  | pending => [pending, running, finished, failed, canceled, lost]
  | running => [running, finished, failed, canceled, lost]
  | lost => [lost, finished, failed, canceled]
  | finished | failed | canceled => []

end ExecStatus

/-- `is_valid_task_transition`. -/
def isValidTaskTransition (old new : TaskStatus) : Bool :=
  if old.terminal && old != .lost then old == new else old.edges.contains new

/-- `is_valid_execution_transition`. -/
def isValidExecutionTransition (old new : ExecStatus) : Bool :=
  if old.terminal && old != .lost then old == new else old.edges.contains new

/-- `rollup_task_status`. -/
def rollupTaskStatus (statuses : List ExecStatus) : Option TaskStatus :=
  if statuses = [] ∨ ¬ statuses.all ExecStatus.terminal then none
  else if statuses.any (· == .failed) then some .failed
  else if statuses.any (· == .lost) then some .lost
  else if statuses.any (· == .canceled) then some .canceled
  else some .complete

/-! ### Facts -/

section Facts

variable {l l' : List ExecStatus}

theorem ExecStatus.terminal_of_hard {s : ExecStatus} (h : s.hard = true) : s.terminal = true := by
  cases s with
  | finished | failed | canceled => rfl
  | pending | running | lost => cases h

theorem ExecStatus.hard_or_lost {s : ExecStatus} (h : s.terminal = true) :
    s.hard = true ∨ s = .lost := by
  cases s with
  | finished | failed | canceled => exact .inl rfl
  | lost => exact .inr rfl
  | pending | running => cases h

theorem TaskStatus.hard_or_lost {s : TaskStatus} (h : s.terminal = true) :
    s.hard = true ∨ s = .lost := by
  cases s with
  | complete | failed | canceled | noTarget => exact .inl rfl
  | lost => exact .inr rfl
  | queued | running | finalizing => cases h

/-- A roll-up is decided once there are executions and all of them are terminal. -/
theorem rollup_eq_none_iff :
    rollupTaskStatus l = none ↔ l = [] ∨ ∃ s ∈ l, s.terminal = false := by
  have hall : (¬ l.all ExecStatus.terminal = true) ↔ ∃ s ∈ l, s.terminal = false := by
    simp
  unfold rollupTaskStatus
  split
  · rename_i h
    rw [hall] at h
    exact ⟨fun _ => h, fun _ => rfl⟩
  · rename_i h
    rw [hall] at h
    refine ⟨fun hnone => ?_, fun h' => absurd h' h⟩
    split at hnone
    · cases hnone
    · split at hnone
      · cases hnone
      · split at hnone
        · cases hnone
        · cases hnone

theorem rollup_isSome_iff :
    (∃ t, rollupTaskStatus l = some t) ↔ l ≠ [] ∧ ∀ s ∈ l, s.terminal = true := by
  rw [← Option.isSome_iff_exists, ← not_iff_not, Option.not_isSome_iff_eq_none,
    rollup_eq_none_iff]
  simp only [not_and_or, not_not, not_forall, exists_prop, Bool.not_eq_true]

/-- What a roll-up says of the executions. -/
theorem rollup_eq_some {t : TaskStatus} (h : rollupTaskStatus l = some t) :
    (.failed ∈ l ∧ t = .failed) ∨
      (.failed ∉ l ∧ .lost ∈ l ∧ t = .lost) ∨
      (.failed ∉ l ∧ .lost ∉ l ∧ .canceled ∈ l ∧ t = .canceled) ∨
      (.failed ∉ l ∧ .lost ∉ l ∧ .canceled ∉ l ∧ t = .complete) := by
  unfold rollupTaskStatus at h
  split at h
  · cases h
  · simp only [List.any_beq'] at h
    by_cases hf : ExecStatus.failed ∈ l
    · simp only [hf, List.contains_eq_mem, decide_true, if_true] at h
      exact .inl ⟨hf, (Option.some.inj h).symm⟩
    · by_cases hl : ExecStatus.lost ∈ l
      · simp [hf, hl] at h
        exact .inr (.inl ⟨hf, hl, h.symm⟩)
      · by_cases hc : ExecStatus.canceled ∈ l
        · simp [hf, hl, hc] at h
          exact .inr (.inr (.inl ⟨hf, hl, hc, h.symm⟩))
        · simp [hf, hl, hc] at h
          exact .inr (.inr (.inr ⟨hf, hl, hc, h.symm⟩))

/-- **A roll-up depends only on which statuses there are.** -/
theorem rollup_congr (h : ∀ s, s ∈ l ↔ s ∈ l') : rollupTaskStatus l = rollupTaskStatus l' := by
  have hnil : l = [] ↔ l' = [] := by
    simp only [List.eq_nil_iff_forall_not_mem, h]
  have hall : l.all ExecStatus.terminal = l'.all ExecStatus.terminal := by
    rw [Bool.eq_iff_iff]
    simp only [List.all_eq_true, h]
  have hany : ∀ s : ExecStatus, l.any (· == s) = l'.any (· == s) := by
    intro s
    rw [Bool.eq_iff_iff]
    simp only [List.any_eq_true, h]
  unfold rollupTaskStatus
  simp only [hnil, hall, hany]

/-- A roll-up is a terminal, and never `no_target`. -/
theorem rollup_terminal {t : TaskStatus} (h : rollupTaskStatus l = some t) :
    t.terminal = true ∧ t ≠ .noTarget := by
  rcases rollup_eq_some h with ⟨-, rfl⟩ | ⟨-, -, rfl⟩ | ⟨-, -, -, rfl⟩ | ⟨-, -, -, rfl⟩
  · exact ⟨rfl, by simp⟩
  · exact ⟨rfl, by simp⟩
  · exact ⟨rfl, by simp⟩
  · exact ⟨rfl, by simp⟩

/-- A task that has left `queued` may move to any roll-up. -/
theorem rollup_reachable {t old : TaskStatus} (h : rollupTaskStatus l = some t)
    (hold : old = .running ∨ old = .finalizing ∨ old = .lost) :
    isValidTaskTransition old t = true := by
  rcases rollup_eq_some h with ⟨-, rfl⟩ | ⟨-, -, rfl⟩ | ⟨-, -, -, rfl⟩ | ⟨-, -, -, rfl⟩
  · rcases hold with rfl | rfl | rfl <;> rfl
  · rcases hold with rfl | rfl | rfl <;> rfl
  · rcases hold with rfl | rfl | rfl <;> rfl
  · rcases hold with rfl | rfl | rfl <;> rfl

end Facts

/-! ### Statuses that never regress -/

/-- An execution may go from `s` to `s'`: hard terminals stay, `lost` gives way
to a hard terminal only, and what has started is not pending again. -/
structure ExecStatus.Advances (s s' : ExecStatus) : Prop where
  hard : s.hard = true → s' = s
  lost : s = .lost → s' = .lost ∨ s'.hard = true
  started : s ≠ .pending → s' ≠ .pending

/-- A task may go from `s` to `s'`: hard terminals stay, and no terminal is
left for an active status. -/
structure TaskStatus.Advances (s s' : TaskStatus) : Prop where
  hard : s.hard = true → s' = s
  terminal : s.terminal = true → s'.terminal = true

/-- The executions of a task advance one by one. -/
structure Forward (l l' : List ExecStatus) : Prop where
  source : ∀ s' ∈ l', ∃ s ∈ l, s.Advances s'
  target : ∀ s ∈ l, ∃ s' ∈ l', s.Advances s'

namespace ExecStatus

theorem Advances.refl (s : ExecStatus) : s.Advances s where
  hard := fun _ => rfl
  lost := fun h => .inl h
  started := id

theorem Advances.trans {a b c : ExecStatus} (h : a.Advances b) (h' : b.Advances c) :
    a.Advances c where
  hard := by
    intro ha
    have hb := h.hard ha
    rw [← hb] at ha
    exact (h'.hard ha).trans hb
  lost := by
    intro ha
    rcases h.lost ha with hb | hb
    · exact h'.lost hb
    · rw [h'.hard hb]
      exact .inr hb
  started := fun ha => h'.started (h.started ha)

theorem Advances.terminal {a b : ExecStatus} (h : a.Advances b) (ha : a.terminal = true) :
    b.terminal = true := by
  rcases hard_or_lost ha with hhard | hlost
  · rw [h.hard hhard]
    exact ha
  · rcases h.lost hlost with hb | hb
    · rw [hb]
      rfl
    · exact terminal_of_hard hb

/-- Whatever is active may become anything that has started. -/
theorem Advances.of_active {a b : ExecStatus} (ha : a.active = true) (hb : b ≠ .pending) :
    a.Advances b where
  hard := by
    intro h
    cases a with
    | pending | running => cases h
    | finished | failed | canceled | lost => cases ha
  lost := by
    intro h
    rw [h] at ha
    cases ha
  started := fun _ => hb

end ExecStatus

namespace TaskStatus

theorem Advances.refl (s : TaskStatus) : s.Advances s where
  hard := fun _ => rfl
  terminal := id

theorem Advances.trans {a b c : TaskStatus} (h : a.Advances b) (h' : b.Advances c) :
    a.Advances c where
  hard := by
    intro ha
    have hb := h.hard ha
    rw [← hb] at ha
    exact (h'.hard ha).trans hb
  terminal := fun ha => h'.terminal (h.terminal ha)

theorem terminal_of_hard {s : TaskStatus} (h : s.hard = true) : s.terminal = true := by
  cases s with
  | complete | failed | canceled | noTarget => rfl
  | queued | running | finalizing | lost => cases h

/-- A task that is active may become anything. -/
theorem Advances.of_active {a b : TaskStatus} (ha : a.active = true) : a.Advances b where
  hard := by
    intro h
    cases a with
    | queued | running | finalizing => cases h
    | complete | failed | canceled | lost | noTarget => cases ha
  terminal := by
    intro h
    unfold TaskStatus.terminal at h
    rw [ha] at h
    cases h

/-- A lost task may become any terminal. -/
theorem Advances.of_lost {b : TaskStatus} (hb : b.terminal = true) : lost.Advances b where
  hard := by
    intro h
    cases h
  terminal := fun _ => hb

end TaskStatus

section Forward

variable {l l' l'' : List ExecStatus}

theorem Forward.refl (l : List ExecStatus) : Forward l l where
  source := fun s hs => ⟨s, hs, .refl s⟩
  target := fun s hs => ⟨s, hs, .refl s⟩

/-- A hard status is there afterwards if it was before. -/
theorem Forward.mem_of_hard (h : Forward l l') {s : ExecStatus} (hs : s.hard = true)
    (hmem : s ∈ l) : s ∈ l' := by
  obtain ⟨s', hs', hadv⟩ := h.target s hmem
  rw [← hadv.hard hs]
  exact hs'

/-- Nothing is new once every status is hard. -/
theorem Forward.mem_of_hard_all (h : Forward l l') (hall : ∀ s ∈ l, s.hard = true)
    {s : ExecStatus} (hmem : s ∈ l') : s ∈ l := by
  obtain ⟨r, hr, hadv⟩ := h.source s hmem
  rw [hadv.hard (hall r hr)]
  exact hr

theorem Forward.rollup_isSome (h : Forward l l') {t : TaskStatus}
    (ht : rollupTaskStatus l = some t) : ∃ t', rollupTaskStatus l' = some t' := by
  obtain ⟨hne, hall⟩ := rollup_isSome_iff.mp ⟨t, ht⟩
  rw [rollup_isSome_iff]
  constructor
  · obtain ⟨s, hs⟩ := List.exists_mem_of_ne_nil l hne
    obtain ⟨s', hs', -⟩ := h.target s hs
    exact List.ne_nil_of_mem hs'
  · intro s' hs'
    obtain ⟨s, hs, hadv⟩ := h.source s' hs'
    exact hadv.terminal (hall s hs)

/-- **A roll-up that was decided advances with the executions.** -/
theorem Forward.rollup_advances (h : Forward l l') {t : TaskStatus}
    (ht : rollupTaskStatus l = some t) :
    ∃ t', rollupTaskStatus l' = some t' ∧ t.Advances t' := by
  obtain ⟨t', ht'⟩ := h.rollup_isSome ht
  refine ⟨t', ht', ?_⟩
  have hterm := (rollup_terminal ht').1
  have hsame : .lost ∉ l → t' = t := by
    intro hl
    have hall : ∀ s ∈ l, s.hard = true := by
      intro s hs
      apply (ExecStatus.hard_or_lost ((rollup_isSome_iff.mp ⟨t, ht⟩).2 s hs)).resolve_right
      rintro rfl
      exact hl hs
    have hcongr := rollup_congr fun s =>
      ⟨fun hs => h.mem_of_hard (hall s hs) hs, h.mem_of_hard_all hall⟩
    rw [ht, ht'] at hcongr
    exact (Option.some.inj hcongr).symm
  rcases rollup_eq_some ht with ⟨hf, rfl⟩ | ⟨-, -, rfl⟩ | ⟨-, hl, -, rfl⟩ | ⟨-, hl, -, rfl⟩
  · -- one that failed keeps the task failed
    have hf' := h.mem_of_hard rfl hf
    rcases rollup_eq_some ht' with ⟨-, rfl⟩ | ⟨hno, -⟩ | ⟨hno, -⟩ | ⟨hno, -⟩
    · exact .refl _
    · exact absurd hf' hno
    · exact absurd hf' hno
    · exact absurd hf' hno
  · exact .of_lost hterm
  · rw [hsame hl]
    exact .refl _
  · rw [hsame hl]
    exact .refl _

end Forward



end Dopilot
