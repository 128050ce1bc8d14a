/-
Dopilot/AsyncLock.lean

A fair lock for coroutines of one event loop.

A coroutine that finds the lock taken, or somebody waiting for it, queues up.
`release` frees the lock and wakes the head of the queue; the lock stays free
until the woken coroutine runs (`take`), and nobody overtakes it.  A waiter may be
canceled before or after it is woken; when it runs it leaves the queue without
the lock (`giveUp`) and passes the wake-up on if the lock is free.

`WellFormed` says that only the head is ever woken, and only of a lock that is
free: so a waiter that takes the lock takes it from nobody.
-/
import Mathlib.Data.List.Nodup

namespace AsyncLock

/-- A coroutine in the queue: its future may have been set or canceled, and the
coroutine may have been canceled behind the future. -/
structure Waiter (ι : Type*) where
  who : ι
  woken : Bool := false
  canceled : Bool := false
  deriving DecidableEq, Repr

namespace Waiter

variable {ι : Type*}

/-- `fut.done()`. -/
def done (w : Waiter ι) : Bool := w.woken || w.canceled

/-- `fut.cancelled()`: a future that was set before cannot be canceled. -/
def futureCanceled (w : Waiter ι) : Bool := !w.woken && w.canceled

end Waiter

structure Lock (ι : Type*) where
  locked : Bool := false
  waiters : List (Waiter ι) := []
  deriving DecidableEq, Repr

namespace Lock

variable {ι : Type*}

/-- The lock can be had at once. -/
def available (l : Lock ι) : Bool := !l.locked && l.waiters.all Waiter.futureCanceled

/-- `_wake_up_first`. -/
def wakeFirst (l : Lock ι) : Lock ι where
  locked := l.locked
  waiters :=
    match l.waiters with
    | [] => []
    | w :: ws => (if w.done then w else { w with woken := true }) :: ws

/-- The lock is taken. -/
def take (l : Lock ι) : Lock ι := { l with locked := true }

/-- The coroutine queues up. -/
def enqueue (l : Lock ι) (i : ι) : Lock ι := { l with waiters := l.waiters ++ [{ who := i }] }

/-- `release`. -/
def release (l : Lock ι) : Lock ι := { l with locked := false }.wakeFirst

variable [DecidableEq ι]

/-- A waiter is canceled. -/
def cancel (l : Lock ι) (i : ι) : Lock ι where
  locked := l.locked
  waiters := l.waiters.map fun w => if w.who = i then { w with canceled := true } else w

/-- The future of a coroutine. -/
def waiter? (l : Lock ι) (i : ι) : Option (Waiter ι) := l.waiters.find? fun w => w.who = i

/-- The coroutine leaves the queue. -/
def dequeue (l : Lock ι) (i : ι) : Lock ι :=
  { l with waiters := l.waiters.filter fun w => w.who ≠ i }

/-- A canceled coroutine leaves the queue; a free lock wakes the next one. -/
def giveUp (l : Lock ι) (i : ι) : Lock ι :=
  if (l.dequeue i).locked then l.dequeue i else (l.dequeue i).wakeFirst

omit [DecidableEq ι] in
/-- The coroutines in the queue. -/
def queue (l : Lock ι) : List ι := l.waiters.map Waiter.who

end Lock

/-! ### Who is in the queue -/

namespace Lock

variable {ι : Type*} {l : Lock ι} {i : ι}

@[simp] theorem queue_take : l.take.queue = l.queue := rfl

@[simp] theorem queue_enqueue : (l.enqueue i).queue = l.queue ++ [i] := List.map_append

@[simp] theorem queue_wakeFirst : l.wakeFirst.queue = l.queue := by
  unfold queue wakeFirst
  cases l.waiters with
  | nil => rfl
  | cons w ws =>
      simp only [List.map_cons]
      split <;> rfl

@[simp] theorem queue_release : l.release.queue = l.queue := queue_wakeFirst

@[simp] theorem locked_release : l.release.locked = false := rfl

variable [DecidableEq ι]

@[simp] theorem queue_cancel : (l.cancel i).queue = l.queue := by
  unfold queue cancel
  rw [List.map_map]
  refine List.map_congr_left fun w _ => ?_
  simp only [Function.comp_apply]
  split <;> rfl

@[simp] theorem queue_dequeue : (l.dequeue i).queue = l.queue.filter (· ≠ i) := by
  unfold queue dequeue
  rw [List.filter_map]
  rfl

@[simp] theorem queue_giveUp : (l.giveUp i).queue = l.queue.filter (· ≠ i) := by
  unfold giveUp
  split
  · exact queue_dequeue
  · rw [queue_wakeFirst, queue_dequeue]

@[simp] theorem locked_giveUp : (l.giveUp i).locked = l.locked := by
  unfold giveUp
  split <;> rfl

end Lock

/-! ### Well-formed locks -/

/-- Nobody queues twice, and only the head of the queue of a free lock is woken. -/
structure WellFormed {ι : Type*} (l : Lock ι) : Prop where
  nodup : l.queue.Nodup
  tail : ∀ w ∈ l.waiters.tail, w.woken = false
  free : l.locked = true → ∀ w ∈ l.waiters, w.woken = false

namespace WellFormed

variable {ι : Type*} {l : Lock ι}

open Lock

theorem new : WellFormed ({} : Lock ι) where
  nodup := List.nodup_nil
  tail _ hw := absurd hw List.not_mem_nil
  free h := absurd h Bool.false_ne_true

/-- No waiter of a lock that can be had at once is woken. -/
theorem not_woken_of_available (h : l.available = true) {w : Waiter ι} (hw : w ∈ l.waiters) :
    w.woken = false := by
  obtain ⟨-, hall⟩ := Bool.and_eq_true_iff.mp h
  have hc := List.all_eq_true.mp hall w hw
  obtain ⟨hwoken, -⟩ := Bool.and_eq_true_iff.mp hc
  simpa using hwoken

/-- A lock of which no waiter is woken may be taken. -/
theorem take (h : WellFormed l) (hw : ∀ w ∈ l.waiters, w.woken = false) : WellFormed l.take where
  nodup := h.nodup
  tail := h.tail
  free _ := hw

theorem enqueue (h : WellFormed l) {i : ι} (hi : i ∉ l.queue) : WellFormed (l.enqueue i) where
  nodup := by
    rw [queue_enqueue]
    exact List.nodup_append.mpr ⟨h.nodup, List.nodup_singleton i, by
      intro a ha b hb hab
      rw [List.mem_singleton] at hb
      exact hi (hb ▸ hab ▸ ha)⟩
  tail w hw := by
    have hws : (l.enqueue i).waiters = l.waiters ++ [{ who := i }] := rfl
    rw [hws] at hw
    rcases hl : l.waiters with - | ⟨w₀, ws⟩
    · rw [hl] at hw
      cases hw
    · rw [hl, List.cons_append, List.tail_cons, List.mem_append, List.mem_singleton] at hw
      rcases hw with hw | rfl
      · exact h.tail w (by rwa [hl, List.tail_cons])
      · rfl
  free hlocked w hw := by
    rcases List.mem_append.mp hw with hw | hw
    · exact h.free hlocked w hw
    · rw [List.mem_singleton.mp hw]

/-- The head of a free lock may be woken. -/
theorem wakeFirst (h : WellFormed l) (hfree : l.locked = false) : WellFormed l.wakeFirst := by
  rcases hl : l.waiters with - | ⟨w₀, ws⟩
  · have heq : l.wakeFirst = l := by
      unfold Lock.wakeFirst
      rw [hl]
      cases l
      simp only [Lock.mk.injEq, true_and]
      exact hl.symm
    rwa [heq]
  · have hws : l.wakeFirst.waiters =
        (if w₀.done then w₀ else { w₀ with woken := true }) :: ws := by
      unfold Lock.wakeFirst
      rw [hl]
    refine ⟨?_, fun w hw => ?_, fun hlocked => ?_⟩
    · rw [queue_wakeFirst]
      exact h.nodup
    · rw [hws, List.tail_cons] at hw
      exact h.tail w (by rwa [hl, List.tail_cons])
    · have hsame : l.wakeFirst.locked = l.locked := rfl
      rw [hsame, hfree] at hlocked
      cases hlocked

theorem release (h : WellFormed l) : WellFormed l.release :=
  wakeFirst ⟨h.nodup, h.tail, fun hlocked => absurd hlocked Bool.false_ne_true⟩ rfl

variable [DecidableEq ι]

theorem cancel (h : WellFormed l) (i : ι) : WellFormed (l.cancel i) where
  nodup := by
    rw [queue_cancel]
    exact h.nodup
  tail w hw := by
    have hws : (l.cancel i).waiters.tail =
        l.waiters.tail.map fun w => if w.who = i then { w with canceled := true } else w :=
      List.map_tail.symm
    rw [hws] at hw
    obtain ⟨w', hw', rfl⟩ := List.mem_map.mp hw
    have hn := h.tail w' hw'
    split <;> exact hn
  free hlocked w hw := by
    obtain ⟨w', hw', rfl⟩ := List.mem_map.mp hw
    have hn := h.free hlocked w' hw'
    split <;> exact hn

theorem dequeue (h : WellFormed l) (i : ι) : WellFormed (l.dequeue i) where
  nodup := h.nodup.sublist (List.filter_sublist.map _)
  tail w hw := by
    rcases hl : l.waiters with - | ⟨w₀, ws⟩
    · have hws : (l.dequeue i).waiters = [] := by
        unfold Lock.dequeue
        rw [hl]
        rfl
      rw [hws] at hw
      cases hw
    · refine h.tail w ?_
      rw [hl, List.tail_cons]
      have hws : (l.dequeue i).waiters = (w₀ :: ws).filter fun w => w.who ≠ i := by
        unfold Lock.dequeue
        rw [hl]
      rw [hws, List.filter_cons] at hw
      split at hw
      · exact (List.mem_filter.mp hw).1
      · exact (List.mem_filter.mp (List.mem_of_mem_tail hw)).1
  free hlocked w hw := h.free hlocked w (List.mem_filter.mp hw).1

theorem giveUp (h : WellFormed l) (i : ι) : WellFormed (l.giveUp i) := by
  unfold Lock.giveUp
  split
  · exact h.dequeue i
  · rename_i hlocked
    exact (h.dequeue i).wakeFirst (by simpa using hlocked)

/-- A woken waiter is the head: behind it nobody is woken. -/
theorem dequeue_woken (h : WellFormed l) {w : Waiter ι} (hw : w ∈ l.waiters)
    (hwoken : w.woken = true) :
    l.locked = false ∧ ∀ w' ∈ (l.dequeue w.who).waiters, w'.woken = false := by
  constructor
  · cases hlocked : l.locked with
    | false => rfl
    | true =>
        have hn := h.free hlocked w hw
        rw [hwoken] at hn
        cases hn
  · intro w' hw'
    obtain ⟨hw', hne⟩ := List.mem_filter.mp hw'
    rcases hl : l.waiters with - | ⟨w₀, ws⟩
    · rw [hl] at hw
      cases hw
    have htail : ∀ v ∈ ws, v.woken = false := fun v hv => h.tail v (by rwa [hl, List.tail_cons])
    rw [hl] at hw hw'
    rcases List.mem_cons.mp hw with rfl | hw
    · rcases List.mem_cons.mp hw' with rfl | hw'
      · simp at hne
      · exact htail w' hw'
    · have hn := htail w hw
      rw [hwoken] at hn
      cases hn

end WellFormed

/-! ### Locks nobody was canceled at -/

/-- No waiter was canceled. -/
def Quiet {ι : Type*} (l : Lock ι) : Prop := ∀ w ∈ l.waiters, w.canceled = false

namespace Quiet

variable {ι : Type*} {l : Lock ι}

theorem new : Quiet ({} : Lock ι) := fun _ hw => absurd hw List.not_mem_nil

theorem enqueue (h : Quiet l) (i : ι) : Quiet (l.enqueue i) := by
  intro w hw
  rcases List.mem_append.mp hw with hw | hw
  · exact h w hw
  · rw [List.mem_singleton.mp hw]

theorem release (h : Quiet l) : Quiet l.release := by
  intro w hw
  rcases hl : l.waiters with - | ⟨w₀, ws⟩
  · have hws : l.release.waiters = [] := by
      unfold Lock.release Lock.wakeFirst
      simp only [hl]
    rw [hws] at hw
    cases hw
  · have hws : l.release.waiters = (if w₀.done then w₀ else { w₀ with woken := true }) :: ws := by
      unfold Lock.release Lock.wakeFirst
      simp only [hl]
    rw [hws] at hw
    have hmem : ∀ v ∈ w₀ :: ws, v.canceled = false := fun v hv => h v (hl ▸ hv)
    rcases List.mem_cons.mp hw with rfl | hw
    · have hw₀ := hmem w₀ List.mem_cons_self
      split <;> exact hw₀
    · exact hmem w (List.mem_cons_of_mem _ hw)

theorem dequeue [DecidableEq ι] (h : Quiet l) (i : ι) : Quiet (l.dequeue i) :=
  fun w hw => h w (List.mem_filter.mp hw).1

end Quiet

end AsyncLock
