/-
Dopilot/KeyedLocks.lean

The keyed locks of the agent's executions and of the server's uploads.

Both are one table from keys to entries, an entry being a lock and the number of
coroutines that hold it or wait for it.  An entry is made by the first coroutine
that asks for its key and dropped by the last one that leaves; entries are
objects, so they are told apart by an identity of their own and a coroutine goes
on with the entry it found.

The number goes up before the lock is awaited and goes down behind the block.  A
coroutine that is canceled while it waits has passed the first and never gets to
the second: the number stays too high, and the entry stays for good
(`not_clean`).  Where no waiter is canceled the number is exact, and nothing is
left behind (`exclusive_and_clean`); that two are never inside holds in every run.
-/
import Dopilot.AsyncLock
import Dopilot.StateMachine
import Mathlib.Logic.Function.Basic
import Mathlib.Tactic.Ring

namespace Dopilot

namespace KeyedLocks

open AsyncLock StateMachine

/-! ### State -/

/-- An entry of the table: the lock, and its holder and waiters counted. -/
structure Entry (ι : Type*) where
  lock : Lock ι := {}
  count : Int := 0
  deriving DecidableEq, Repr

abbrev EntryId := Nat

/-- Where a coroutine is, and with which entry it got there. -/
inductive Place (κ : Type*) where
  | out
  | waiting (k : κ) (e : EntryId)
  | inside (k : κ) (e : EntryId)
  deriving DecidableEq, Repr

structure Locks (κ ι : Type*) where
  locks : κ → Option EntryId
  heap : EntryId → Entry ι
  fresh : EntryId
  place : ι → Place κ

variable {κ ι : Type*} [DecidableEq κ] [DecidableEq ι]

namespace Locks

omit [DecidableEq κ] [DecidableEq ι] in
/-- No key is locked, and nobody is inside. -/
def init : Locks κ ι where
  locks _ := none
  heap _ := {}
  fresh := 0
  place _ := .out

variable (s : Locks κ ι)

omit [DecidableEq ι] in
/-- `self._locks.get`, and an entry made where there is none. -/
def ensure (k : κ) : Locks κ ι :=
  match s.locks k with
  | some _ => s
  | none =>
      { s with
        locks := Function.update s.locks k (some s.fresh)
        heap := Function.update s.heap s.fresh {}
        fresh := s.fresh + 1 }

omit [DecidableEq κ] [DecidableEq ι] in
/-- The entry of a key, once it is ensured. -/
def entryOf (k : κ) : EntryId := (s.locks k).getD s.fresh

omit [DecidableEq κ] in
/-- An entry is changed by a coroutine, which gets to a place by it. -/
def put (e : EntryId) (entry : Entry ι) (i : ι) (p : Place κ) : Locks κ ι :=
  { s with heap := Function.update s.heap e entry, place := Function.update s.place i p }

/-- `_execution_lock`, `publish_lock` up to the await: the lock is had at once, or waited for. -/
def enter (i : ι) (k : κ) : Locks κ ι :=
  let e := s.entryOf k
  let entry := (s.ensure k).heap e
  if entry.lock.available then
    (s.ensure k).put e { lock := entry.lock.take, count := entry.count + 1 } i (.inside k e)
  else
    (s.ensure k).put e { lock := entry.lock.enqueue i, count := entry.count + 1 } i
      (.waiting k e)

/-- `finally`: the lock is released and the count goes down; at 0 the entry goes. -/
def leave (i : ι) (k : κ) (e : EntryId) : Locks κ ι :=
  let entry : Entry ι := { lock := (s.heap e).lock.release, count := (s.heap e).count - 1 }
  let s' := s.put e entry i .out
  if entry.count = 0 ∧ s.locks k = some e then
    { s' with locks := Function.update s'.locks k none }
  else s'

theorem leave_place (i : ι) (k : κ) (e : EntryId) :
    (s.leave i k e).place = Function.update s.place i .out := by
  unfold leave
  simp only
  split <;> rfl

end Locks

/-! ### Steps -/

/-- What happens next on the event loop. -/
inductive Act (κ ι : Type*) where
  /-- A coroutine asks for a key. -/
  | enter (i : ι) (k : κ)
  /-- A coroutine that waits is canceled. -/
  | cancel (i : ι)
  /-- A coroutine that waits runs again: its future is set, or it was canceled. -/
  | resume (i : ι)
  /-- A coroutine leaves its block, at the end or by an exception. -/
  | leave (i : ι)
  deriving DecidableEq, Repr

def step (s : Locks κ ι) : Act κ ι → Option (Locks κ ι)
  | .enter i k => if s.place i = .out then some (s.enter i k) else none
  | .cancel i =>
      match s.place i with
      | .waiting k e =>
          some (s.put e { s.heap e with lock := (s.heap e).lock.cancel i } i (.waiting k e))
      | _ => none
  | .resume i =>
      match s.place i with
      | .waiting k e =>
          match (s.heap e).lock.waiter? i with
          | none => none
          | some w =>
              if w.done = false then none
              else if w.canceled then
                -- raised out of `acquire`: the count is not taken back
                some (s.put e { s.heap e with lock := (s.heap e).lock.giveUp i } i .out)
              else
                some (s.put e { s.heap e with lock := ((s.heap e).lock.dequeue i).take } i
                  (.inside k e))
      | _ => none
  | .leave i =>
      match s.place i with
      | .inside k e => some (s.leave i k e)
      | _ => none

/-- The coroutine that takes the step. -/
def Act.who : Act κ ι → ι
  | .enter i _ | .cancel i | .resume i | .leave i => i

/-- A step moves its own coroutine only. -/
theorem place_of_step {s s' : Locks κ ι} {a : Act κ ι} (hs : step s a = some s') {j : ι}
    (hj : j ≠ a.who) : s'.place j = s.place j := by
  have hput : ∀ (e : EntryId) (entry : Entry ι) (p : Place κ),
      (s.put e entry a.who p).place j = s.place j := fun e entry p => Function.update_of_ne hj ..
  cases a with
  | enter i k =>
      simp only [step] at hs
      split at hs
      · obtain rfl := Option.some.inj hs
        have hensure : (s.ensure k).place = s.place := by
          unfold Locks.ensure
          split <;> rfl
        unfold Locks.enter
        simp only
        split
        · exact (Function.update_of_ne hj ..).trans (by rw [hensure])
        · exact (Function.update_of_ne hj ..).trans (by rw [hensure])
      · cases hs
  | cancel i =>
      simp only [step] at hs
      split at hs
      · obtain rfl := Option.some.inj hs
        exact hput ..
      · cases hs
  | resume i =>
      simp only [step] at hs
      split at hs
      case h_2 => cases hs
      split at hs
      case h_1 => cases hs
      split at hs
      · cases hs
      split at hs
      · obtain rfl := Option.some.inj hs
        exact hput ..
      · obtain rfl := Option.some.inj hs
        exact hput ..
  | leave i =>
      simp only [step] at hs
      split at hs
      · obtain rfl := Option.some.inj hs
        rw [Locks.leave_place]
        exact Function.update_of_ne hj ..
      · cases hs

/-- A coroutine that takes no step of a run stays where it is. -/
theorem place_of_runList {s s' : Locks κ ι} {as : List (Act κ ι)}
    (hs : runList step s as = some s') {j : ι} (hj : ∀ a ∈ as, j ≠ a.who) :
    s'.place j = s.place j := by
  induction as generalizing s with
  | nil =>
      obtain rfl : s = s' := Option.some.inj hs
      rfl
  | cons a as ih =>
      obtain ⟨s₁, hs₁, hrest⟩ := Option.bind_eq_some_iff.mp hs
      rw [ih hrest fun a ha => hj a (List.mem_cons_of_mem _ ha),
        place_of_step hs₁ (hj a List.mem_cons_self)]

/-! ### The invariant -/

omit [DecidableEq κ] [DecidableEq ι] in
/-- What an entry says about the coroutines that have to do with it; `lost` of
them were counted and are gone. -/
structure EntryOk (entry : Entry ι) (place : ι → Place κ) (k : κ) (e : EntryId) (lost : Nat) :
    Prop where
  queue : ∀ i, i ∈ entry.lock.queue ↔ place i = .waiting k e
  locked : entry.lock.locked = true ↔ ∃ i, place i = .inside k e
  alone : ∀ i j, place i = .inside k e → place j = .inside k e → i = j
  wellFormed : WellFormed entry.lock
  count : entry.count =
    entry.lock.queue.length + (if entry.lock.locked = true then 1 else 0) + lost

omit [DecidableEq κ] [DecidableEq ι] in
/-- The table and its entries. -/
structure Consistent (s : Locks κ ι) (lost : EntryId → Nat) : Prop where
  entry : ∀ k e, s.locks k = some e → EntryOk (s.heap e) s.place k e (lost e)
  table : ∀ i k e, s.place i = .waiting k e ∨ s.place i = .inside k e → s.locks k = some e
  own : ∀ k k' e, s.locks k = some e → s.locks k' = some e → k = k'
  known : ∀ k e, s.locks k = some e → e < s.fresh

omit [DecidableEq κ] [DecidableEq ι] in
/-- An entry of the table is somebody's. -/
structure Inv (s : Locks κ ι) (lost : EntryId → Nat) : Prop extends Consistent s lost where
  pos : ∀ k e, s.locks k = some e → 0 < (s.heap e).count

omit [DecidableEq κ] in
/-- An entry sees only the coroutines that have to do with it. -/
theorem EntryOk.frame {entry : Entry ι} {place : ι → Place κ} {k k' : κ} {e e' : EntryId}
    {lost : Nat} {i : ι} {p : Place κ} (h : EntryOk entry place k' e' lost) (hne : e' ≠ e)
    (hi : place i = .out ∨ place i = .waiting k e ∨ place i = .inside k e)
    (hp : p = .out ∨ p = .waiting k e ∨ p = .inside k e) :
    EntryOk entry (Function.update place i p) k' e' lost := by
  have hw : ∀ j, Function.update place i p j = .waiting k' e' ↔ place j = .waiting k' e' := by
    intro j
    by_cases hj : j = i
    · subst hj
      rw [Function.update_self]
      rcases hi with hi | hi | hi <;> rcases hp with rfl | rfl | rfl <;> rw [hi] <;>
        simp [hne.symm]
    · rw [Function.update_of_ne hj]
  have hin : ∀ j, Function.update place i p j = .inside k' e' ↔ place j = .inside k' e' := by
    intro j
    by_cases hj : j = i
    · subst hj
      rw [Function.update_self]
      rcases hi with hi | hi | hi <;> rcases hp with rfl | rfl | rfl <;> rw [hi] <;>
        simp [hne.symm]
    · rw [Function.update_of_ne hj]
  refine ⟨fun j => (h.queue j).trans (hw j).symm, ?_, fun j j' hj hj' => ?_, h.wellFormed, h.count⟩
  · rw [h.locked]
    exact exists_congr fun j => (hin j).symm
  · exact h.alone j j' ((hin j).mp hj) ((hin j').mp hj')

omit [DecidableEq κ] in
/-- **The frame rule**: a coroutine that changes an entry of its own keeps the
table consistent if it keeps that entry so. -/
theorem Consistent.put {s : Locks κ ι} {lost : EntryId → Nat} (h : Consistent s lost)
    {k : κ} {e : EntryId} {entry : Entry ι} {i : ι} {p : Place κ} {n : Nat}
    (hk : s.locks k = some e)
    (hi : s.place i = .out ∨ s.place i = .waiting k e ∨ s.place i = .inside k e)
    (hp : p = .out ∨ p = .waiting k e ∨ p = .inside k e)
    (hentry : EntryOk entry (Function.update s.place i p) k e n) :
    Consistent (s.put e entry i p) (Function.update lost e n) where
  entry k' e' hk' := by
    show EntryOk (Function.update s.heap e entry e') (Function.update s.place i p) k' e' _
    by_cases he : e' = e
    · subst he
      rw [Function.update_self, Function.update_self]
      rwa [h.own k' k e' hk' hk]
    · rw [Function.update_of_ne he, Function.update_of_ne he]
      exact (h.entry k' e' hk').frame he hi hp
  table j k' e' hj := by
    show s.locks k' = some e'
    have hplace : (s.put e entry i p).place j = Function.update s.place i p j := rfl
    rw [hplace] at hj
    by_cases hji : j = i
    · subst hji
      rw [Function.update_self] at hj
      rcases hp with rfl | rfl | rfl <;> rcases hj with hj | hj <;> cases hj <;> exact hk
    · rw [Function.update_of_ne hji] at hj
      exact h.table j k' e' hj
  own := h.own
  known := h.known

/-! ### Operations -/

section operations

variable {s s' : Locks κ ι} {lost : EntryId → Nat} {i : ι} {k : κ} {e : EntryId}

omit [DecidableEq ι] in
/-- The other entries are as they were. -/
theorem Locks.ensure_other {k' : κ} {e' : EntryId}
    (hk' : (s.ensure k).locks k' = some e') (hne : e' ≠ s.entryOf k) :
    s.locks k' = some e' ∧ (s.ensure k).heap e' = s.heap e' := by
  unfold Locks.entryOf at hne
  unfold Locks.ensure at hk' ⊢
  cases hk : s.locks k with
  | some e =>
      rw [hk] at hk'
      exact ⟨hk', rfl⟩
  | none =>
      rw [hk, Option.getD_none] at hne
      rw [hk] at hk'
      have hk' : Function.update s.locks k (some s.fresh) k' = some e' := hk'
      refine ⟨?_, Function.update_of_ne hne ..⟩
      by_cases hkk : k' = k
      · subst hkk
        rw [Function.update_self, Option.some.injEq] at hk'
        exact absurd hk'.symm hne
      · rwa [Function.update_of_ne hkk] at hk'

omit [DecidableEq ι] in
/-- An entry that is made is nobody's. -/
theorem Consistent.ensure (h : Consistent s lost) (k : κ) :
    (s.ensure k).locks k = some (s.entryOf k) ∧ (s.ensure k).place = s.place ∧
      ∃ lost', Consistent (s.ensure k) lost' ∧ (∀ e, lost' e = 0 ∨ lost' e = lost e) := by
  unfold Locks.ensure Locks.entryOf
  cases hk : s.locks k with
  | some e => exact ⟨hk, rfl, lost, h, fun _ => .inr rfl⟩
  | none =>
      refine ⟨Function.update_self .., rfl, Function.update lost s.fresh 0, ⟨?_, ?_, ?_, ?_⟩, ?_⟩
      · intro k' e' hk'
        show EntryOk (Function.update s.heap s.fresh {} e') s.place k' e' _
        by_cases hkk : k' = k
        · subst hkk
          have hk' : Function.update s.locks k' (some s.fresh) k' = some e' := hk'
          rw [Function.update_self, Option.some.injEq] at hk'
          subst hk'
          rw [Function.update_self, Function.update_self]
          have hnone : ∀ j, s.place j ≠ .waiting k' s.fresh ∧ s.place j ≠ .inside k' s.fresh := by
            intro j
            refine ⟨fun hj => ?_, fun hj => ?_⟩
            · have htab := h.table j k' s.fresh (.inl hj)
              rw [hk] at htab
              cases htab
            · have htab := h.table j k' s.fresh (.inr hj)
              rw [hk] at htab
              cases htab
          refine ⟨fun j => ?_, ?_, fun j _ hj => absurd hj (hnone j).2, .new, rfl⟩
          · exact ⟨fun hj => absurd hj List.not_mem_nil, fun hj => absurd hj (hnone j).1⟩
          · exact ⟨fun hl => absurd hl Bool.false_ne_true, fun ⟨j, hj⟩ => absurd hj (hnone j).2⟩
        · have hk' : Function.update s.locks k (some s.fresh) k' = some e' := hk'
          rw [Function.update_of_ne hkk] at hk'
          have hlt := h.known k' e' hk'
          rw [Function.update_of_ne hlt.ne, Function.update_of_ne hlt.ne]
          exact h.entry k' e' hk'
      · intro j k' e' hj
        show Function.update s.locks k (some s.fresh) k' = some e'
        have htab := h.table j k' e' hj
        rw [Function.update_of_ne]
        · exact htab
        · rintro rfl
          rw [hk] at htab
          cases htab
      · intro k₁ k₂ e' h₁ h₂
        have h₁ : Function.update s.locks k (some s.fresh) k₁ = some e' := h₁
        have h₂ : Function.update s.locks k (some s.fresh) k₂ = some e' := h₂
        by_cases hk₁ : k₁ = k
        · by_cases hk₂ : k₂ = k
          · rw [hk₁, hk₂]
          · subst hk₁
            rw [Function.update_self, Option.some.injEq] at h₁
            rw [Function.update_of_ne hk₂] at h₂
            exact absurd h₁ (h.known k₂ e' h₂).ne'
        · by_cases hk₂ : k₂ = k
          · subst hk₂
            rw [Function.update_self, Option.some.injEq] at h₂
            rw [Function.update_of_ne hk₁] at h₁
            exact absurd h₂ (h.known k₁ e' h₁).ne'
          · rw [Function.update_of_ne hk₁] at h₁
            rw [Function.update_of_ne hk₂] at h₂
            exact h.own k₁ k₂ e' h₁ h₂
      · intro k' e' hk'
        show e' < s.fresh + 1
        have hk' : Function.update s.locks k (some s.fresh) k' = some e' := hk'
        by_cases hkk : k' = k
        · subst hkk
          rw [Function.update_self, Option.some.injEq] at hk'
          rw [← hk']
          exact Nat.lt_succ_self _
        · rw [Function.update_of_ne hkk] at hk'
          exact (h.known k' e' hk').trans (Nat.lt_succ_self _)
      · intro e'
        by_cases he : e' = s.fresh
        · subst he
          exact .inl (Function.update_self ..)
        · exact .inr (Function.update_of_ne he ..)

end operations

/-! ### One entry -/

section entries

variable {entry : Entry ι} {place : ι → Place κ} {k : κ} {e : EntryId} {lost : Nat} {i : ι}

omit [DecidableEq κ] in
/-- The lock is had at once. -/
theorem EntryOk.taken (h : EntryOk entry place k e lost) (hi : place i = .out)
    (hfree : entry.lock.available = true) :
    EntryOk { lock := entry.lock.take, count := entry.count + 1 }
      (Function.update place i (.inside k e)) k e lost := by
  have hunlocked : entry.lock.locked = false := by
    obtain ⟨hn, -⟩ := Bool.and_eq_true_iff.mp hfree
    simpa using hn
  have hnone : ∀ j, place j ≠ .inside k e := by
    intro j hj
    have hl := h.locked.mpr ⟨j, hj⟩
    rw [hunlocked] at hl
    cases hl
  have hnew : ∀ j, Function.update place i (.inside k e) j = .inside k e → j = i := by
    intro j hj
    by_contra hji
    rw [Function.update_of_ne hji] at hj
    exact hnone j hj
  refine ⟨fun j => ?_, ⟨fun _ => ⟨i, Function.update_self ..⟩, fun _ => rfl⟩,
    fun j j' hj hj' => (hnew j hj).trans (hnew j' hj').symm,
    h.wellFormed.take fun w hw => WellFormed.not_woken_of_available hfree hw, ?_⟩
  · show j ∈ entry.lock.queue ↔ _
    by_cases hji : j = i
    · subst hji
      rw [h.queue, hi, Function.update_self]
      simp
    · rw [h.queue, Function.update_of_ne hji]
  · show entry.count + 1 = entry.lock.queue.length + 1 + lost
    rw [h.count, hunlocked, if_neg Bool.false_ne_true]
    ring

omit [DecidableEq κ] in
/-- The coroutine queues up. -/
theorem EntryOk.queued (h : EntryOk entry place k e lost) (hi : place i = .out) :
    EntryOk { lock := entry.lock.enqueue i, count := entry.count + 1 }
      (Function.update place i (.waiting k e)) k e lost := by
  have hout : i ∉ entry.lock.queue := by
    rw [h.queue, hi]
    simp
  have hin : ∀ j, Function.update place i (.waiting k e) j = .inside k e ↔ place j = .inside k e := by
    intro j
    by_cases hji : j = i
    · subst hji
      rw [Function.update_self, hi]
      simp
    · rw [Function.update_of_ne hji]
  refine ⟨fun j => ?_, ?_, fun j j' hj hj' => h.alone j j' ((hin j).mp hj) ((hin j').mp hj'),
    h.wellFormed.enqueue hout, ?_⟩
  · rw [Lock.queue_enqueue, List.mem_append, List.mem_singleton]
    by_cases hji : j = i
    · subst hji
      simp
    · rw [h.queue, Function.update_of_ne hji]
      simp [hji]
  · show entry.lock.locked = true ↔ _
    rw [h.locked]
    exact exists_congr fun j => (hin j).symm
  · rw [Lock.queue_enqueue]
    show entry.count + 1 = _ + (if entry.lock.locked = true then 1 else 0) + _
    rw [h.count, List.length_append, List.length_singleton]
    push_cast
    ring

omit [DecidableEq κ] in
/-- A waiter is canceled and is still in the queue. -/
theorem EntryOk.canceled (h : EntryOk entry place k e lost) (hi : place i = .waiting k e) :
    EntryOk { entry with lock := entry.lock.cancel i }
      (Function.update place i (.waiting k e)) k e lost := by
  rw [← hi, Function.update_eq_self]
  refine ⟨fun j => ?_, h.locked, h.alone, h.wellFormed.cancel i, ?_⟩
  · rw [Lock.queue_cancel]
    exact h.queue j
  · rw [Lock.queue_cancel]
    exact h.count

omit [DecidableEq κ] in
/-- A coroutine that leaves the queue makes it one shorter. -/
theorem EntryOk.length_dequeue (h : EntryOk entry place k e lost) (hi : place i = .waiting k e) :
    (entry.lock.queue.length : Int) = (entry.lock.queue.filter (· ≠ i)).length + 1 := by
  have hmem : i ∈ entry.lock.queue := (h.queue i).mpr hi
  have herase : entry.lock.queue.filter (· ≠ i) = entry.lock.queue.erase i := by
    rw [h.wellFormed.nodup.erase_eq_filter]
    exact List.filter_congr fun j _ => by by_cases hj : j = i <;> simp [hj]
  rw [herase, List.length_erase_of_mem hmem]
  have hpos := List.length_pos_of_mem hmem
  omega

omit [DecidableEq κ] in
theorem EntryOk.mem_dequeue (h : EntryOk entry place k e lost) {p : Place κ}
    (hp : p ≠ .waiting k e) (j : ι) :
    j ∈ entry.lock.queue.filter (· ≠ i) ↔ Function.update place i p j = .waiting k e := by
  rw [List.mem_filter, decide_eq_true_eq]
  by_cases hji : j = i
  · subst hji
    rw [Function.update_self]
    exact ⟨fun hj => absurd rfl hj.2, fun hj => absurd hj hp⟩
  · rw [Function.update_of_ne hji, h.queue]
    exact and_iff_left hji

omit [DecidableEq κ] in
/-- A canceled waiter leaves, and stays counted. -/
theorem EntryOk.givenUp (h : EntryOk entry place k e lost) (hi : place i = .waiting k e) :
    EntryOk { entry with lock := entry.lock.giveUp i } (Function.update place i .out) k e
      (lost + 1) := by
  have hin : ∀ j, Function.update place i .out j = .inside k e ↔ place j = .inside k e := by
    intro j
    by_cases hji : j = i
    · subst hji
      rw [Function.update_self, hi]
      simp
    · rw [Function.update_of_ne hji]
  refine ⟨fun j => ?_, ?_, fun j j' hj hj' => h.alone j j' ((hin j).mp hj) ((hin j').mp hj'),
    h.wellFormed.giveUp i, ?_⟩
  · rw [Lock.queue_giveUp]
    exact h.mem_dequeue (by simp) j
  · rw [Lock.locked_giveUp, h.locked]
    exact exists_congr fun j => (hin j).symm
  · rw [Lock.queue_giveUp, Lock.locked_giveUp]
    show entry.count = _
    rw [h.count, h.length_dequeue hi]
    push_cast
    ring

omit [DecidableEq κ] in
/-- **A woken waiter takes the lock from nobody.** -/
theorem EntryOk.resumed (h : EntryOk entry place k e lost) {w : Waiter ι}
    (hw : w ∈ entry.lock.waiters) (hwoken : w.woken = true) (hi : place w.who = .waiting k e) :
    EntryOk { entry with lock := (entry.lock.dequeue w.who).take }
      (Function.update place w.who (.inside k e)) k e lost := by
  obtain ⟨hunlocked, hrest⟩ := h.wellFormed.dequeue_woken hw hwoken
  have hnone : ∀ j, place j ≠ .inside k e := by
    intro j hj
    have hl := h.locked.mpr ⟨j, hj⟩
    rw [hunlocked] at hl
    cases hl
  have hnew : ∀ j, Function.update place w.who (.inside k e) j = .inside k e → j = w.who := by
    intro j hj
    by_contra hji
    rw [Function.update_of_ne hji] at hj
    exact hnone j hj
  refine ⟨fun j => ?_, ⟨fun _ => ⟨w.who, Function.update_self ..⟩, fun _ => rfl⟩,
    fun j j' hj hj' => (hnew j hj).trans (hnew j' hj').symm,
    (h.wellFormed.dequeue w.who).take hrest, ?_⟩
  · rw [Lock.queue_take, Lock.queue_dequeue]
    exact h.mem_dequeue (by simp) j
  · rw [Lock.queue_take, Lock.queue_dequeue]
    show entry.count = _ + 1 + _
    rw [h.count, hunlocked, if_neg Bool.false_ne_true, h.length_dequeue hi]
    ring

omit [DecidableEq κ] in
/-- The one inside leaves. -/
theorem EntryOk.released (h : EntryOk entry place k e lost) (hi : place i = .inside k e) :
    EntryOk { lock := entry.lock.release, count := entry.count - 1 }
      (Function.update place i .out) k e lost := by
  have hnone : ∀ j, Function.update place i .out j ≠ .inside k e := by
    intro j hj
    by_cases hji : j = i
    · subst hji
      rw [Function.update_self] at hj
      cases hj
    · rw [Function.update_of_ne hji] at hj
      exact hji (h.alone j i hj hi)
  refine ⟨fun j => ?_, ⟨fun hl => ?_, fun ⟨j, hj⟩ => absurd hj (hnone j)⟩,
    fun j _ hj => absurd hj (hnone j), h.wellFormed.release, ?_⟩
  · rw [Lock.queue_release, h.queue]
    by_cases hji : j = i
    · subst hji
      rw [Function.update_self, hi]
      simp
    · rw [Function.update_of_ne hji]
  · rw [Lock.locked_release] at hl
    cases hl
  · rw [Lock.queue_release, Lock.locked_release, if_neg Bool.false_ne_true]
    show entry.count - 1 = _
    rw [h.count, if_pos (h.locked.mpr ⟨i, hi⟩)]
    ring

omit [DecidableEq κ] [DecidableEq ι] in
/-- An entry that counts nobody is nobody's. -/
theorem EntryOk.nobody (h : EntryOk entry place k e lost) (hcount : entry.count = 0) (j : ι) :
    place j ≠ .waiting k e ∧ place j ≠ .inside k e := by
  have hsum := h.count
  rw [hcount] at hsum
  have hnonneg : (0 : Int) ≤ if entry.lock.locked = true then 1 else 0 := by split <;> simp
  refine ⟨fun hj => ?_, fun hj => ?_⟩
  · have hpos := List.length_pos_of_mem ((h.queue j).mpr hj)
    omega
  · rw [if_pos (h.locked.mpr ⟨j, hj⟩)] at hsum
    omega

end entries

/-! ### Steps of the table -/

section runs

variable {s s' : Locks κ ι} {lost : EntryId → Nat} {a : Act κ ι}

omit [DecidableEq κ] [DecidableEq ι] in
theorem EntryOk.count_nonneg {entry : Entry ι} {place : ι → Place κ} {k : κ} {e : EntryId}
    {n : Nat} (h : EntryOk entry place k e n) : 0 ≤ entry.count := by
  rw [h.count]
  split <;> omega

omit [DecidableEq κ] in
/-- A table whose other entries are somebody's. -/
theorem Consistent.inv_put {e : EntryId} {entry : Entry ι} {i : ι} {p : Place κ}
    (hput : Consistent (s.put e entry i p) lost) (hpos : 0 < entry.count)
    (hother : ∀ k' e', s.locks k' = some e' → e' ≠ e → 0 < (s.heap e').count) :
    Inv (s.put e entry i p) lost := by
  refine ⟨hput, fun k' e' hk' => ?_⟩
  show 0 < (Function.update s.heap e entry e').count
  by_cases he : e' = e
  · subst he
    rw [Function.update_self]
    exact hpos
  · rw [Function.update_of_ne he]
    exact hother k' e' hk' he

omit [DecidableEq ι] in
/-- An entry that counts nobody may go. -/
theorem Consistent.drop (h : Consistent s lost) {k : κ} {e : EntryId} (hk : s.locks k = some e)
    (hcount : (s.heap e).count = 0) :
    Consistent { s with locks := Function.update s.locks k none } lost := by
  have hkept : ∀ k' e', Function.update s.locks k none k' = some e' → s.locks k' = some e' := by
    intro k' e' hk'
    by_cases hkk : k' = k
    · subst hkk
      rw [Function.update_self] at hk'
      cases hk'
    · rwa [Function.update_of_ne hkk] at hk'
  refine ⟨fun k' e' hk' => h.entry k' e' (hkept k' e' hk'), fun j k' e' hj => ?_,
    fun k₁ k₂ e' h₁ h₂ => h.own k₁ k₂ e' (hkept k₁ e' h₁) (hkept k₂ e' h₂),
    fun k' e' hk' => h.known k' e' (hkept k' e' hk')⟩
  have htab := h.table j k' e' hj
  show Function.update s.locks k none k' = some e'
  rw [Function.update_of_ne]
  · exact htab
  · rintro rfl
    rw [hk, Option.some.injEq] at htab
    subst htab
    have hnobody := (h.entry k' e hk).nobody hcount j
    rcases hj with hj | hj
    · exact hnobody.1 hj
    · exact hnobody.2 hj

/-- No waiter was canceled. -/
def Undisturbed (s : Locks κ ι) : Prop := ∀ e, Quiet (s.heap e).lock

/-- Nothing is lost by a step of an undisturbed table. -/
def Keeps (s : Locks κ ι) (lost lost' : EntryId → Nat) : Prop :=
  Undisturbed s → (∀ e, lost e = 0) → ∀ e, lost' e = 0

theorem Inv.enter (h : Inv s lost) {i : ι} (hi : s.place i = .out) (k : κ) :
    ∃ lost', Inv (s.enter i k) lost' ∧ Keeps s lost lost' := by
  obtain ⟨hk, hplace, lost₁, hcons, hlost₁⟩ := h.toConsistent.ensure k
  have hi₁ : (s.ensure k).place i = .out := by rw [hplace, hi]
  have hentry := hcons.entry k _ hk
  have hother : ∀ k' e', (s.ensure k).locks k' = some e' → e' ≠ s.entryOf k →
      0 < ((s.ensure k).heap e').count := by
    intro k' e' hk' hne
    obtain ⟨hold, hsame⟩ := Locks.ensure_other hk' hne
    rw [hsame]
    exact h.pos k' e' hold
  have hpos : 0 < ((s.ensure k).heap (s.entryOf k)).count + 1 :=
    Int.lt_add_one_of_le hentry.count_nonneg
  have hkeeps : Keeps s lost (Function.update lost₁ (s.entryOf k) (lost₁ (s.entryOf k))) := by
    intro _ h0 e
    rw [Function.update_eq_self]
    rcases hlost₁ e with he | he
    · exact he
    · rw [he, h0]
  unfold Locks.enter
  simp only
  split
  · rename_i hfree
    exact ⟨_, (hcons.put hk (.inl hi₁) (.inr (.inr rfl)) (hentry.taken hi₁ hfree)).inv_put hpos
      hother, hkeeps⟩
  · exact ⟨_, (hcons.put hk (.inl hi₁) (.inr (.inl rfl)) (hentry.queued hi₁)).inv_put hpos hother,
      hkeeps⟩

theorem Inv.leave (h : Inv s lost) {i : ι} {k : κ} {e : EntryId} (hi : s.place i = .inside k e) :
    ∃ lost', Inv (s.leave i k e) lost' ∧ Keeps s lost lost' := by
  have hk := h.table i k e (.inr hi)
  have hentry := h.entry k e hk
  have hput := h.toConsistent.put hk (.inr (.inr hi)) (.inl rfl) (hentry.released hi)
  have hother : ∀ k' e', s.locks k' = some e' → e' ≠ e → 0 < (s.heap e').count :=
    fun k' e' hk' _ => h.pos k' e' hk'
  have hkeeps : Keeps s lost (Function.update lost e (lost e)) := by
    intro _ h0 e'
    rw [Function.update_eq_self]
    exact h0 e'
  unfold Locks.leave
  simp only
  split
  · rename_i hzero
    have hheap : (s.put e { lock := (s.heap e).lock.release, count := (s.heap e).count - 1 } i
        .out).heap e = { lock := (s.heap e).lock.release, count := (s.heap e).count - 1 } :=
      Function.update_self ..
    refine ⟨_, ⟨hput.drop hk (by rw [hheap]; exact hzero.1), fun k' e' hk' => ?_⟩, hkeeps⟩
    show 0 < (Function.update s.heap e _ e').count
    have hkept : Function.update s.locks k none k' = some e' := hk'
    by_cases hkk : k' = k
    · subst hkk
      rw [Function.update_self] at hkept
      cases hkept
    · rw [Function.update_of_ne hkk] at hkept
      rw [Function.update_of_ne]
      · exact h.pos k' e' hkept
      · rintro rfl
        exact hkk (h.own k' k e' hkept hk)
  · rename_i hzero
    have hnonneg := (hentry.released hi).count_nonneg
    exact ⟨_, hput.inv_put (lt_of_le_of_ne hnonneg fun h0 => hzero ⟨h0.symm, hk⟩) hother, hkeeps⟩

/-- **The step rule**, over any step. -/
theorem Inv.step (h : Inv s lost) (hs : step s a = some s') :
    ∃ lost', Inv s' lost' ∧ Keeps s lost lost' := by
  have hother : ∀ e k' e', s.locks k' = some e' → e' ≠ e → 0 < (s.heap e').count :=
    fun _ k' e' hk' _ => h.pos k' e' hk'
  have hsame : ∀ e, Keeps s lost (Function.update lost e (lost e)) := by
    intro e _ h0 e'
    rw [Function.update_eq_self]
    exact h0 e'
  cases a with
  | enter i k =>
      simp only [KeyedLocks.step] at hs
      split at hs
      · rename_i hi
        obtain rfl := Option.some.inj hs
        exact h.enter hi k
      · cases hs
  | leave i =>
      simp only [KeyedLocks.step] at hs
      split at hs
      · rename_i k e hi
        obtain rfl := Option.some.inj hs
        exact h.leave hi
      · cases hs
  | cancel i =>
      simp only [KeyedLocks.step] at hs
      split at hs
      · rename_i k e hi
        obtain rfl := Option.some.inj hs
        have hk := h.table i k e (.inl hi)
        have hput := h.toConsistent.put hk (.inr (.inl hi)) (.inr (.inl rfl))
          ((h.entry k e hk).canceled hi)
        exact ⟨_, hput.inv_put (h.pos k e hk) (hother e), hsame e⟩
      · cases hs
  | resume i =>
      simp only [KeyedLocks.step] at hs
      split at hs
      case h_2 => cases hs
      rename_i k e hi
      have hk := h.table i k e (.inl hi)
      have hentry := h.entry k e hk
      split at hs
      case h_1 => cases hs
      rename_i w hw
      have hmem : w ∈ (s.heap e).lock.waiters := List.mem_of_find?_eq_some hw
      have hwho : w.who = i := by simpa using List.find?_some hw
      split at hs
      · cases hs
      rename_i hdone
      split at hs
      · rename_i hcanceled
        obtain rfl := Option.some.inj hs
        have hput := h.toConsistent.put hk (.inr (.inl hi)) (.inl rfl) (hentry.givenUp hi)
        refine ⟨_, hput.inv_put (h.pos k e hk) (hother e), fun hquiet _ => ?_⟩
        have hn := hquiet e w hmem
        rw [hcanceled] at hn
        cases hn
      · rename_i hcanceled
        obtain rfl := Option.some.inj hs
        have hwoken : w.woken = true := by
          cases hw : w.woken with
          | true => rfl
          | false =>
              refine absurd ?_ hdone
              unfold Waiter.done
              rw [hw, Bool.not_eq_true] at *
              rw [hcanceled]
              rfl
        subst hwho
        have hput := h.toConsistent.put hk (.inr (.inl hi)) (.inr (.inr rfl))
          (hentry.resumed hmem hwoken hi)
        exact ⟨_, hput.inv_put (h.pos k e hk) (hother e), hsame e⟩

end runs

/-! ### Undisturbed runs -/

section undisturbed

variable {s s' : Locks κ ι} {lost : EntryId → Nat} {a : Act κ ι}

/-- The step cancels no coroutine that waits. -/
def NoCancel (_ : Locks κ ι) (a : Act κ ι) : Prop := ∀ i, a ≠ .cancel i

omit [DecidableEq κ] in
theorem Undisturbed.put (h : Undisturbed s) {e : EntryId} {entry : Entry ι} {i : ι} {p : Place κ}
    (hentry : Quiet entry.lock) : Undisturbed (s.put e entry i p) := by
  intro e'
  show Quiet (Function.update s.heap e entry e').lock
  by_cases he : e' = e
  · subst he
    rw [Function.update_self]
    exact hentry
  · rw [Function.update_of_ne he]
    exact h e'

omit [DecidableEq ι] in
theorem Undisturbed.ensure (h : Undisturbed s) (k : κ) : Undisturbed (s.ensure k) := by
  intro e
  unfold Locks.ensure
  split
  · exact h e
  · show Quiet (Function.update s.heap s.fresh {} e).lock
    by_cases he : e = s.fresh
    · subst he
      rw [Function.update_self]
      exact .new
    · rw [Function.update_of_ne he]
      exact h e

/-- Only a cancellation disturbs. -/
theorem Undisturbed.step (h : Undisturbed s) (ha : NoCancel s a) (hs : step s a = some s') :
    Undisturbed s' := by
  cases a with
  | enter i k =>
      simp only [KeyedLocks.step] at hs
      split at hs
      · obtain rfl := Option.some.inj hs
        unfold Locks.enter
        simp only
        split
        · exact (h.ensure k).put (h.ensure k _)
        · exact (h.ensure k).put ((h.ensure k _).enqueue i)
      · cases hs
  | cancel i => exact absurd rfl (ha i)
  | resume i =>
      simp only [KeyedLocks.step] at hs
      split at hs
      case h_2 => cases hs
      rename_i k e hi
      split at hs
      case h_1 => cases hs
      rename_i w hw
      have hn := h e w (List.mem_of_find?_eq_some hw)
      rw [hn, if_neg Bool.false_ne_true] at hs
      split at hs
      · cases hs
      · obtain rfl := Option.some.inj hs
        exact h.put ((h e).dequeue i)
  | leave i =>
      simp only [KeyedLocks.step] at hs
      split at hs
      · rename_i k e hi
        obtain rfl := Option.some.inj hs
        have hput : Undisturbed (s.put e
            { lock := (s.heap e).lock.release, count := (s.heap e).count - 1 } i .out) :=
          h.put (h e).release
        unfold Locks.leave
        simp only
        split
        · exact hput
        · exact hput
      · cases hs

end undisturbed

/-! ### Exclusion, and nothing left behind -/

omit [DecidableEq κ] [DecidableEq ι] in
theorem inv_init : Inv (Locks.init : Locks κ ι) fun _ => 0 where
  entry _ _ hk := by cases hk
  table _ _ _ hi := by rcases hi with hi | hi <;> cases hi
  own _ _ _ hk := by cases hk
  known _ _ hk := by cases hk
  pos _ _ hk := by cases hk

/-- At most one coroutine is inside for a key. -/
def Exclusive (s : Locks κ ι) : Prop :=
  ∀ k i j e e', s.place i = .inside k e → s.place j = .inside k e' → i = j

/-- No entry is left for a key that nobody is inside of or waits for. -/
def Clean (s : Locks κ ι) : Prop :=
  ∀ k, (∀ i e, s.place i ≠ .inside k e ∧ s.place i ≠ .waiting k e) → s.locks k = none

omit [DecidableEq κ] [DecidableEq ι] in
theorem Inv.exclusive {s : Locks κ ι} {lost : EntryId → Nat} (h : Inv s lost) : Exclusive s := by
  intro k i j e e' hi hj
  have hk := h.table i k e (.inr hi)
  have hk' := h.table j k e' (.inr hj)
  rw [hk, Option.some.injEq] at hk'
  subst hk'
  exact (h.entry k e hk).alone i j hi hj

omit [DecidableEq κ] [DecidableEq ι] in
/-- Where nothing is lost, nothing is left behind. -/
theorem Inv.clean {s : Locks κ ι} {lost : EntryId → Nat} (h : Inv s lost)
    (hlost : ∀ e, lost e = 0) : Clean s := by
  intro k hnobody
  cases hk : s.locks k with
  | none => rfl
  | some e =>
      exfalso
      have hentry := h.entry k e hk
      have hqueue : (s.heap e).lock.queue = [] := by
        rw [List.eq_nil_iff_forall_not_mem]
        intro i hi
        exact (hnobody i e).2 ((hentry.queue i).mp hi)
      have hlocked : ¬ (s.heap e).lock.locked = true := by
        rw [hentry.locked]
        rintro ⟨i, hi⟩
        exact (hnobody i e).1 hi
      have hcount := hentry.count
      rw [hqueue, if_neg hlocked, hlost] at hcount
      have hpos := h.pos k e hk
      rw [hcount] at hpos
      exact absurd hpos (by simp)

/-- **Exclusion** holds in every run, canceled waiters or not. -/
theorem exclusive_of_run {s : Locks κ ι} (h : Run step .init s) : Exclusive s := by
  have hinv : ∃ lost, Inv s lost := by
    refine RunOk.invariant (I := fun s => ∃ lost, Inv s lost) (fun s a s' hs _ hstep => ?_) h
      ⟨_, inv_init⟩
    obtain ⟨lost, hlost⟩ := hs
    obtain ⟨lost', hlost', -⟩ := hlost.step hstep
    exact ⟨lost', hlost'⟩
  obtain ⟨lost, hlost⟩ := hinv
  exact hlost.exclusive

/-- **Keyed locks**: in a run in which no coroutine is canceled while it waits, at
most one coroutine is inside for a key, and no entry is left for a key that
nobody is inside of or waits for. -/
theorem exclusive_and_clean {s : Locks κ ι} (h : RunOk step NoCancel .init s) :
    Exclusive s ∧ Clean s := by
  have hinv : ∃ lost, Inv s lost ∧ (∀ e, lost e = 0) ∧ Undisturbed s := by
    refine RunOk.invariant
      (I := fun s => ∃ lost, Inv s lost ∧ (∀ e, lost e = 0) ∧ Undisturbed s)
      (fun s a s' hs ha hstep => ?_) h ⟨_, inv_init, fun _ => rfl, fun _ => .new⟩
    obtain ⟨lost, hlost, h0, hquiet⟩ := hs
    obtain ⟨lost', hlost', hkeeps⟩ := hlost.step hstep
    exact ⟨lost', hlost', hkeeps hquiet h0, hquiet.step ha hstep⟩
  obtain ⟨lost, hlost, h0, -⟩ := hinv
  exact ⟨hlost.exclusive, hlost.clean h0⟩

/-- One is inside, one waits, and both get through. -/
theorem exclusive_and_clean_handover : ∃ s : Locks Nat Nat,
    runList step .init [.enter 1 0, .enter 2 0, .leave 1, .resume 2, .leave 2] = some s ∧
      s.locks 0 = none ∧ Exclusive s ∧ Clean s := by
  refine ⟨_, rfl, by decide, exclusive_and_clean ?_⟩
  refine .head (a := .enter 1 0) (by simp [NoCancel]) rfl ?_
  refine .head (a := .enter 2 0) (by simp [NoCancel]) rfl ?_
  refine .head (a := .leave 1) (by simp [NoCancel]) rfl ?_
  refine .head (a := .resume 2) (by simp [NoCancel]) rfl ?_
  exact .head (a := .leave 2) (by simp [NoCancel]) rfl (.refl _)

/-- One is inside, one waits and is canceled. -/
def canceledWaiter : List (Act Nat Nat) :=
  [.enter 1 0, .enter 2 0, .cancel 2, .resume 2, .leave 1]

/-- The entry outlives them both. -/
theorem not_clean : ¬ ∀ s : Locks Nat Nat, Run step .init s → Exclusive s ∧ Clean s := by
  intro h
  have hrun : ∃ s, runList step .init canceledWaiter = some s ∧
      s.place 1 = .out ∧ s.place 2 = .out ∧ s.locks 0 = some 0 :=
    ⟨_, rfl, by decide, by decide, by decide⟩
  obtain ⟨s, hs, h1, h2, hleft⟩ := hrun
  have hout : ∀ i, s.place i = .out := by
    intro i
    by_cases hi1 : i = 1
    · rw [hi1, h1]
    by_cases hi2 : i = 2
    · rw [hi2, h2]
    · refine (place_of_runList hs fun a ha => ?_).trans rfl
      have hwho : ∀ a ∈ canceledWaiter, a.who = 1 ∨ a.who = 2 := by decide
      rcases hwho a ha with hw | hw
      · rwa [hw]
      · rwa [hw]
  have hclean := (h s (Run.of_runList hs)).2 0 fun i e => by
    rw [hout i]
    exact ⟨by simp, by simp⟩
  rw [hleft] at hclean
  cases hclean

end KeyedLocks

end Dopilot
