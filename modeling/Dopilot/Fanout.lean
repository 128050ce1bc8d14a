/-
Dopilot/Fanout.lean

The fan-out of log events to the open log windows.

Every window has a bounded queue of its own.  An event is put into the queues of
all windows of its execution; a window whose queue is full is closed instead:
its backlog is dropped, `CLOSE` is all it finds, and it gets no further event.
So a window that stalls costs the memory of one queue, and no other window
notices (`received_in_order`).
-/
import Dopilot.Protocol
import Dopilot.StateMachine
import Mathlib

namespace Dopilot

open StateMachine

namespace Fanout

abbrev QueueId := Nat

/-- What is in a queue. -/
inductive Item (α : Type) where
  | event (ev : α)
  /-- `CLOSE`. -/
  | close
  deriving DecidableEq, Repr

variable {α : Type}

/-- `SubscriptionManager`, with the contents of the queues it has handed out. -/
structure SubscriptionManager (α : Type) where
  queueMaxsize : Nat
  subs : ExecutionId → List QueueId
  queues : QueueId → List (Item α)
  nextQueue : QueueId
  /-- `subs` holds sets. -/
  nodup : ∀ e, (subs e).Nodup

namespace SubscriptionManager

/-- A manager without subscribers. -/
def new (queueMaxsize : Nat) : SubscriptionManager α where
  queueMaxsize := queueMaxsize
  subs _ := []
  queues _ := []
  nextQueue := 0
  nodup _ := List.nodup_nil

/-- `asyncio.Queue.full`; a queue without a bound is never full. -/
def full (m : SubscriptionManager α) (q : QueueId) : Bool :=
  decide (0 < m.queueMaxsize) && decide (m.queueMaxsize ≤ (m.queues q).length)

def setQueue (m : SubscriptionManager α) (q : QueueId) (items : List (Item α)) :
    SubscriptionManager α :=
  { m with queues := Function.update m.queues q items }

/-- `subscribe`: the queue is new. -/
def subscribe (m : SubscriptionManager α) (e : ExecutionId) : SubscriptionManager α where
  queueMaxsize := m.queueMaxsize
  subs := Function.update m.subs e ((m.subs e).insert m.nextQueue)
  queues := Function.update m.queues m.nextQueue []
  nextQueue := m.nextQueue + 1
  nodup e' := by
    by_cases h : e' = e
    · subst h
      rw [Function.update_self]
      exact (m.nodup e').insert
    · rw [Function.update_of_ne h]
      exact m.nodup e'

/-- `unsubscribe`. -/
def unsubscribe (m : SubscriptionManager α) (e : ExecutionId) (q : QueueId) :
    SubscriptionManager α :=
  { m with
    subs := Function.update m.subs e ((m.subs e).erase q)
    nodup := by
      intro e'
      by_cases h : e' = e
      · subst h
        rw [Function.update_self]
        exact (m.nodup e').erase q
      · rw [Function.update_of_ne h]
        exact m.nodup e' }

/-- `_push_close`: the drained queue has room. -/
def pushClose (m : SubscriptionManager α) (q : QueueId) : SubscriptionManager α :=
  m.setQueue q [.close]

/-- `_overflow`. -/
def overflow (m : SubscriptionManager α) (e : ExecutionId) (q : QueueId) : SubscriptionManager α :=
  (m.pushClose q).unsubscribe e q

/-- `publish`, to one subscriber. -/
def deliver (m : SubscriptionManager α) (e : ExecutionId) (ev : α) (q : QueueId) :
    SubscriptionManager α :=
  if m.full q then m.overflow e q else m.setQueue q (m.queues q ++ [.event ev])

/-- `publish`, in some order of the subscribers. -/
def publish (m : SubscriptionManager α) (e : ExecutionId) (ev : α) : SubscriptionManager α :=
  (m.subs e).foldl (fun m q => m.deliver e ev q) m

/-- `close`. -/
def close (m : SubscriptionManager α) (e : ExecutionId) : SubscriptionManager α :=
  (m.subs e).foldl pushClose m

/-! ### What the calls do -/

section Calls

variable {m : SubscriptionManager α} {e e' : ExecutionId} {q q' : QueueId} {ev : α}

theorem deliver_queues :
    (m.deliver e ev q).queues q' =
      if q' = q then if m.full q then [.close] else m.queues q ++ [.event ev]
      else m.queues q' := by
  unfold deliver
  by_cases hq : q' = q
  · subst hq
    rw [if_pos rfl]
    split
    · exact Function.update_self ..
    · exact Function.update_self ..
  · rw [if_neg hq]
    split
    · exact Function.update_of_ne hq _ _
    · exact Function.update_of_ne hq _ _

theorem deliver_subs :
    (m.deliver e ev q).subs e' =
      if e' = e ∧ m.full q = true then (m.subs e).erase q else m.subs e' := by
  unfold deliver
  by_cases hfull : m.full q = true
  · rw [if_pos hfull]
    by_cases he : e' = e
    · subst he
      rw [if_pos ⟨rfl, hfull⟩]
      exact Function.update_self ..
    · rw [if_neg fun h => he h.1]
      exact Function.update_of_ne he _ _
  · rw [if_neg hfull, if_neg fun h => hfull h.2]
    rfl

@[simp] theorem deliver_queueMaxsize : (m.deliver e ev q).queueMaxsize = m.queueMaxsize := by
  unfold deliver
  split <;> rfl

@[simp] theorem deliver_nextQueue : (m.deliver e ev q).nextQueue = m.nextQueue := by
  unfold deliver
  split <;> rfl

theorem deliver_full (h : q' ≠ q) : (m.deliver e ev q).full q' = m.full q' := by
  unfold full
  rw [deliver_queueMaxsize, deliver_queues, if_neg h]

/-- The state after the subscribers `l` have been served. -/
theorem foldl_deliver (l : List QueueId) (hl : l.Nodup) (m : SubscriptionManager α) :
    let m' := l.foldl (fun m q => m.deliver e ev q) m
    m'.queueMaxsize = m.queueMaxsize ∧ m'.nextQueue = m.nextQueue ∧
      (∀ q, m'.queues q = if q ∈ l then if m.full q then [.close] else m.queues q ++ [.event ev]
        else m.queues q) ∧
      ∀ e' q, q ∈ m'.subs e' ↔ q ∈ m.subs e' ∧ ¬ (e' = e ∧ q ∈ l ∧ m.full q = true) := by
  induction l generalizing m with
  | nil => exact ⟨rfl, rfl, fun q => by simp, fun e' q => by simp⟩
  | cons p l ih =>
      obtain ⟨hp, hl⟩ := List.nodup_cons.mp hl
      obtain ⟨hmax, hnext, hqueues, hsubs⟩ := ih hl (m.deliver e ev p)
      refine ⟨hmax.trans deliver_queueMaxsize, hnext.trans deliver_nextQueue, fun q => ?_,
        fun e' q => ?_⟩
      · show (l.foldl _ (m.deliver e ev p)).queues q = _
        rw [hqueues, deliver_queues]
        by_cases hq : q = p
        · subst hq
          simp [hp]
        · rw [if_neg hq, deliver_full hq]
          simp [hq]
      · show q ∈ (l.foldl _ (m.deliver e ev p)).subs e' ↔ _
        rw [hsubs, deliver_subs]
        by_cases hq : q = p
        · subst hq
          by_cases he : e' = e
          · subst he
            by_cases hfull : m.full q = true
            · simp [hfull, (m.nodup e').mem_erase_iff]
            · simp [hfull, hp]
          · simp [he]
        · rw [deliver_full hq]
          by_cases he : e' = e
          · subst he
            by_cases hfull : m.full p = true
            · simp [hfull, hq, (m.nodup e').mem_erase_iff]
            · simp [hfull, hq]
          · simp [he]

/-- **Publishing.**  Every subscriber gets the event behind what it has, or is
closed and subscribed no longer; no other queue is touched. -/
theorem publish_queues :
    (m.publish e ev).queues q = if q ∈ m.subs e then
      if m.full q then [.close] else m.queues q ++ [.event ev] else m.queues q :=
  (foldl_deliver (m.subs e) (m.nodup e) m).2.2.1 q

theorem mem_subs_publish :
    q ∈ (m.publish e ev).subs e' ↔ q ∈ m.subs e' ∧ ¬ (e' = e ∧ m.full q = true) := by
  refine ((foldl_deliver (m.subs e) (m.nodup e) m).2.2.2 e' q).trans ?_
  constructor
  · rintro ⟨hq, hnot⟩
    exact ⟨hq, fun hc => hnot ⟨hc.1, hc.1 ▸ hq, hc.2⟩⟩
  · rintro ⟨hq, hnot⟩
    exact ⟨hq, fun hc => hnot ⟨hc.1, hc.2.2⟩⟩

@[simp] theorem publish_queueMaxsize : (m.publish e ev).queueMaxsize = m.queueMaxsize :=
  (foldl_deliver (m.subs e) (m.nodup e) m).1

@[simp] theorem publish_nextQueue : (m.publish e ev).nextQueue = m.nextQueue :=
  (foldl_deliver (m.subs e) (m.nodup e) m).2.1

theorem foldl_pushClose (l : List QueueId) (m : SubscriptionManager α) :
    let m' := l.foldl pushClose m
    m'.queueMaxsize = m.queueMaxsize ∧ m'.nextQueue = m.nextQueue ∧ m'.subs = m.subs ∧
      ∀ q, m'.queues q = if q ∈ l then [.close] else m.queues q := by
  induction l generalizing m with
  | nil => exact ⟨rfl, rfl, rfl, fun q => by simp⟩
  | cons p l ih =>
      obtain ⟨hmax, hnext, hsubs, hqueues⟩ := ih (m.pushClose p)
      refine ⟨hmax, hnext, hsubs, fun q => (hqueues q).trans ?_⟩
      by_cases hq : q = p
      · subst hq
        simp [pushClose, setQueue]
      · have hsame : (m.pushClose p).queues q = m.queues q := Function.update_of_ne hq _ _
        rw [hsame]
        simp [hq]

theorem close_queues :
    (m.close e).queues q = if q ∈ m.subs e then [.close] else m.queues q :=
  (foldl_pushClose (m.subs e) m).2.2.2 q

@[simp] theorem close_subs : (m.close e).subs = m.subs := (foldl_pushClose (m.subs e) m).2.2.1

@[simp] theorem close_queueMaxsize : (m.close e).queueMaxsize = m.queueMaxsize :=
  (foldl_pushClose (m.subs e) m).1

@[simp] theorem close_nextQueue : (m.close e).nextQueue = m.nextQueue :=
  (foldl_pushClose (m.subs e) m).2.1

theorem mem_subs_unsubscribe :
    q' ∈ (m.unsubscribe e q).subs e' ↔ q' ∈ m.subs e' ∧ ¬ (e' = e ∧ q' = q) := by
  show q' ∈ Function.update m.subs e ((m.subs e).erase q) e' ↔ _
  by_cases he : e' = e
  · subst he
    rw [Function.update_self, (m.nodup e').mem_erase_iff]
    simp [and_comm]
  · rw [Function.update_of_ne he]
    simp [he]

theorem mem_subs_subscribe :
    q ∈ (m.subscribe e).subs e' ↔ q ∈ m.subs e' ∨ e' = e ∧ q = m.nextQueue := by
  show q ∈ Function.update m.subs e ((m.subs e).insert m.nextQueue) e' ↔ _
  by_cases he : e' = e
  · subst he
    rw [Function.update_self, List.mem_insert_iff]
    simp [or_comm]
  · rw [Function.update_of_ne he]
    simp [he]

end Calls

end SubscriptionManager

/-! ### The windows -/

/-- An open log window: the generator of `stream_logs` that reads a queue.
`since` events had been published when it subscribed. -/
structure Viewer (α : Type) where
  execution : ExecutionId
  reading : Bool := true
  since : Nat
  received : List α := []

structure State (α : Type) where
  manager : SubscriptionManager α
  viewers : QueueId → Option (Viewer α)
  /-- The events of each execution, in the order they were published. -/
  published : ExecutionId → List α

/-- No window is open. -/
def start (queueMaxsize : Nat) : State α where
  manager := .new queueMaxsize
  viewers _ := none
  published _ := []

inductive Action (α : Type) where
  | subscribe (e : ExecutionId)
  | publish (e : ExecutionId) (ev : α)
  | close (e : ExecutionId)
  /-- A window takes what is next in its queue. -/
  | take (q : QueueId)
  /-- A window ends: it is disconnected, has lived too long or has seen the end. -/
  | leave (q : QueueId)

namespace State

def setViewer (s : State α) (q : QueueId) (v : Viewer α) : State α :=
  { s with viewers := Function.update s.viewers q (some v) }

/-- The window ends, and its `finally` unsubscribes it. -/
def leave (s : State α) (q : QueueId) (v : Viewer α) : State α :=
  { s.setViewer q { v with reading := false } with
    manager := s.manager.unsubscribe v.execution q }

end State

/-- One step. -/
def step (s : State α) : Action α → Option (State α)
  | .subscribe e =>
      some
        { s.setViewer s.manager.nextQueue { execution := e, since := (s.published e).length } with
          manager := s.manager.subscribe e }
  | .publish e ev =>
      some
        { s with
          manager := s.manager.publish e ev
          published := Function.update s.published e (s.published e ++ [ev]) }
  | .close e => some { s with manager := s.manager.close e }
  | .take q =>
      match s.viewers q, s.manager.queues q with
      | some v, .event ev :: items =>
          if v.reading then
            some
              { s.setViewer q { v with received := v.received ++ [ev] } with
                manager := s.manager.setQueue q items }
          else none
      | some v, .close :: items =>
          if v.reading then some { s.leave q v with
            manager := (s.manager.setQueue q items).unsubscribe v.execution q } else none
      | _, _ => none
  | .leave q =>
      match s.viewers q with
      | some v => if v.reading then some (s.leave q v) else none
      | none => none

/-! ### What a window has received -/

/-- The published events that are meant for the window. -/
def Viewer.meant (s : State α) (v : Viewer α) : List α :=
  (s.published v.execution).drop v.since

/-- The window has received all of it but what is in its queue, or it is closed
and has received what came first. -/
structure InOrder (s : State α) (q : QueueId) (v : Viewer α) : Prop where
  since : v.since ≤ (s.published v.execution).length
  seen : v.received <+: v.meant s
  bound : 0 < s.manager.queueMaxsize → (s.manager.queues q).length ≤ s.manager.queueMaxsize
  live : v.reading = true →
    (∃ evs, s.manager.queues q = evs.map .event ∧ v.received ++ evs = v.meant s ∧
      q ∈ s.manager.subs v.execution) ∨ (s.manager.queues q).head? = some .close

structure Inv (s : State α) : Prop where
  viewers : ∀ q v, s.viewers q = some v → InOrder s q v
  subs : ∀ e q, q ∈ s.manager.subs e → ∃ v, s.viewers q = some v ∧ v.execution = e
  old : ∀ q v, s.viewers q = some v → q < s.manager.nextQueue

section Run

variable {s s' : State α} {a : Action α} {q : QueueId} {v : Viewer α} {e : ExecutionId} {ev : α}

/-- Nothing that a window sees has changed. -/
theorem InOrder.same (h : InOrder s q v)
    (hpublished : s'.published v.execution = s.published v.execution)
    (hqueue : s'.manager.queues q = s.manager.queues q)
    (hmax : s'.manager.queueMaxsize = s.manager.queueMaxsize)
    (hsub : q ∈ s.manager.subs v.execution → q ∈ s'.manager.subs v.execution) :
    InOrder s' q v where
  since := by
    rw [hpublished]
    exact h.since
  seen := by
    unfold Viewer.meant
    rw [hpublished]
    exact h.seen
  bound := by
    rw [hqueue, hmax]
    exact h.bound
  live hreading := by
    unfold Viewer.meant
    rw [hqueue, hpublished]
    refine (h.live hreading).imp_left ?_
    rintro ⟨evs, hevs, hmeant, hmem⟩
    exact ⟨evs, hevs, hmeant, hsub hmem⟩

/-- A window that does not read any more. -/
theorem InOrder.ended (h : InOrder s q v)
    (hpublished : s'.published v.execution = s.published v.execution)
    (hmax : s'.manager.queueMaxsize = s.manager.queueMaxsize)
    (hlen : (s'.manager.queues q).length ≤ (s.manager.queues q).length) :
    InOrder s' q { v with reading := false } where
  since := by
    show v.since ≤ (s'.published v.execution).length
    rw [hpublished]
    exact h.since
  seen := by
    show v.received <+: (s'.published v.execution).drop v.since
    rw [hpublished]
    exact h.seen
  bound hpos := by
    rw [hmax] at hpos ⊢
    exact hlen.trans (h.bound hpos)
  live hreading := by cases hreading

/-- An event is published. -/
theorem Inv.publish (h : Inv s) (e : ExecutionId) (ev : α) :
    Inv
      { s with
        manager := s.manager.publish e ev
        published := Function.update s.published e (s.published e ++ [ev]) } where
  viewers := by
    intro q v hv
    have hold := h.viewers q v hv
    by_cases he : v.execution = e
    · subst he
      have hmeant : Viewer.meant
          { s with
            manager := s.manager.publish v.execution ev
            published := Function.update s.published v.execution
              (s.published v.execution ++ [ev]) } v = v.meant s ++ [ev] := by
        show (Function.update s.published v.execution _ v.execution).drop v.since = _
        rw [Function.update_self, List.drop_append_of_le_length hold.since]
        rfl
      refine ⟨?_, ?_, fun hpos => ?_, fun hreading => ?_⟩
      · show v.since ≤ (Function.update s.published v.execution _ v.execution).length
        rw [Function.update_self, List.length_append]
        exact Nat.le_add_right_of_le hold.since
      · rw [hmeant]
        exact hold.seen.trans (List.prefix_append _ _)
      · show ((s.manager.publish v.execution ev).queues q).length ≤
          (s.manager.publish v.execution ev).queueMaxsize
        rw [SubscriptionManager.publish_queueMaxsize] at hpos ⊢
        rw [SubscriptionManager.publish_queues]
        split
        · split
          · exact hpos
          · rename_i hfull
            rw [List.length_append, List.length_singleton]
            simpa [SubscriptionManager.full, hpos] using hfull
        · exact hold.bound hpos
      · show (∃ evs, (s.manager.publish v.execution ev).queues q = evs.map .event ∧
            v.received ++ evs = _ ∧ q ∈ (s.manager.publish v.execution ev).subs v.execution) ∨
          ((s.manager.publish v.execution ev).queues q).head? = some .close
        rw [hmeant, SubscriptionManager.publish_queues, SubscriptionManager.mem_subs_publish]
        rcases hold.live hreading with ⟨evs, hevs, hall, hmem⟩ | hclose
        · rw [if_pos hmem]
          by_cases hfull : s.manager.full q = true
          · rw [if_pos hfull]
            exact .inr rfl
          · rw [if_neg hfull]
            refine .inl ⟨evs ++ [ev], ?_, ?_, hmem, fun hc => hfull hc.2⟩
            · rw [hevs, List.map_append]
              rfl
            · rw [← List.append_assoc, hall]
        · -- whatever comes behind `CLOSE` is not seen
          refine .inr ?_
          split
          · split
            · rfl
            · rw [List.head?_append, hclose]
              rfl
          · exact hclose
    · -- a window of another execution
      refine hold.same (Function.update_of_ne he _ _) ?_ SubscriptionManager.publish_queueMaxsize ?_
      · show (s.manager.publish e ev).queues q = _
        rw [SubscriptionManager.publish_queues, if_neg]
        intro hmem
        obtain ⟨v', hv', hexec⟩ := h.subs e q hmem
        rw [hv] at hv'
        obtain rfl := Option.some.inj hv'
        exact he hexec
      · intro hmem
        exact SubscriptionManager.mem_subs_publish.mpr ⟨hmem, fun hc => he hc.1⟩
  subs := by
    intro e' q hmem
    exact h.subs e' q (SubscriptionManager.mem_subs_publish.mp hmem).1
  old := by
    intro q v hv
    show q < (s.manager.publish e ev).nextQueue
    rw [SubscriptionManager.publish_nextQueue]
    exact h.old q v hv

/-- A window subscribes. -/
theorem Inv.subscribe (h : Inv s) (e : ExecutionId) :
    Inv
      { s.setViewer s.manager.nextQueue { execution := e, since := (s.published e).length } with
        manager := s.manager.subscribe e } where
  viewers := by
    intro q v hv
    have hv : Function.update s.viewers s.manager.nextQueue
      (some { execution := e, since := (s.published e).length }) q = some v := hv
    by_cases hq : q = s.manager.nextQueue
    · subst hq
      rw [Function.update_self] at hv
      obtain rfl := Option.some.inj hv
      have hnil : (s.manager.subscribe e).queues s.manager.nextQueue = [] :=
        Function.update_self ..
      refine ⟨le_rfl, List.nil_prefix, fun _ => ?_, fun _ => .inl ⟨[], hnil, ?_, ?_⟩⟩
      · show ((s.manager.subscribe e).queues s.manager.nextQueue).length ≤ _
        rw [hnil]
        exact Nat.zero_le _
      · exact List.drop_length.symm
      · exact SubscriptionManager.mem_subs_subscribe.mpr (.inr ⟨rfl, rfl⟩)
    · rw [Function.update_of_ne hq] at hv
      refine (h.viewers q v hv).same rfl (Function.update_of_ne hq _ _) rfl fun hmem => ?_
      exact SubscriptionManager.mem_subs_subscribe.mpr (.inl hmem)
  subs := by
    intro e' q hmem
    show ∃ v, Function.update s.viewers s.manager.nextQueue
      (some { execution := e, since := (s.published e).length }) q = some v ∧ v.execution = e'
    rcases SubscriptionManager.mem_subs_subscribe.mp hmem with hold | ⟨rfl, rfl⟩
    · obtain ⟨v, hv, hexec⟩ := h.subs e' q hold
      rw [Function.update_of_ne (Nat.ne_of_lt (h.old q v hv))]
      exact ⟨v, hv, hexec⟩
    · rw [Function.update_self]
      exact ⟨_, rfl, rfl⟩
  old := by
    intro q v hv
    have hv : Function.update s.viewers s.manager.nextQueue
      (some { execution := e, since := (s.published e).length }) q = some v := hv
    show q < s.manager.nextQueue + 1
    by_cases hq : q = s.manager.nextQueue
    · exact hq ▸ Nat.lt_succ_self _
    · rw [Function.update_of_ne hq] at hv
      exact Nat.lt_succ_of_lt (h.old q v hv)

/-- All windows of an execution are closed. -/
theorem Inv.closed (h : Inv s) (e : ExecutionId) :
    Inv { s with manager := s.manager.close e } where
  viewers := by
    intro q v hv
    have hold := h.viewers q v hv
    refine ⟨hold.since, hold.seen, fun hpos => ?_, fun hreading => ?_⟩
    · show ((s.manager.close e).queues q).length ≤ (s.manager.close e).queueMaxsize
      rw [SubscriptionManager.close_queueMaxsize] at hpos ⊢
      rw [SubscriptionManager.close_queues]
      split
      · exact hpos
      · exact hold.bound hpos
    · show (∃ evs : List α, (s.manager.close e).queues q = evs.map .event ∧
          v.received ++ evs = v.meant s ∧ q ∈ (s.manager.close e).subs v.execution) ∨
        ((s.manager.close e).queues q).head? = some .close
      rw [SubscriptionManager.close_queues, SubscriptionManager.close_subs]
      split
      · exact .inr rfl
      · exact hold.live hreading
  subs := by
    intro e' q hmem
    have hmem : q ∈ (s.manager.close e).subs e' := hmem
    rw [SubscriptionManager.close_subs] at hmem
    exact h.subs e' q hmem
  old := by
    intro q v hv
    show q < (s.manager.close e).nextQueue
    rw [SubscriptionManager.close_nextQueue]
    exact h.old q v hv

/-- A window ends, and what is left of its queue stays or is dropped. -/
theorem Inv.left (h : Inv s) (hv : s.viewers q = some v) {items : List (Item α)}
    (hlen : items.length ≤ (s.manager.queues q).length) :
    Inv { s.leave q v with
      manager := (s.manager.setQueue q items).unsubscribe v.execution q } where
  viewers := by
    intro q' v' hv'
    have hv' : Function.update s.viewers q (some { v with reading := false }) q' = some v' := hv'
    by_cases hq : q' = q
    · subst hq
      rw [Function.update_self] at hv'
      obtain rfl := Option.some.inj hv'
      refine (h.viewers q' v hv).ended rfl rfl ?_
      show (Function.update s.manager.queues q' items q').length ≤ _
      rw [Function.update_self]
      exact hlen
    · rw [Function.update_of_ne hq] at hv'
      refine (h.viewers q' v' hv').same rfl (Function.update_of_ne hq _ _) rfl fun hmem => ?_
      exact SubscriptionManager.mem_subs_unsubscribe.mpr ⟨hmem, fun hc => hq hc.2⟩
  subs := by
    intro e' q' hmem
    show ∃ v', Function.update s.viewers q (some { v with reading := false }) q' = some v' ∧ _
    obtain ⟨hmem, hne⟩ := SubscriptionManager.mem_subs_unsubscribe.mp hmem
    obtain ⟨v', hv', hexec⟩ := h.subs e' q' hmem
    by_cases hq : q' = q
    · subst hq
      rw [hv] at hv'
      obtain rfl := Option.some.inj hv'
      exact absurd ⟨hexec.symm, rfl⟩ hne
    · rw [Function.update_of_ne hq]
      exact ⟨v', hv', hexec⟩
  old := by
    intro q' v' hv'
    have hv' : Function.update s.viewers q (some { v with reading := false }) q' = some v' := hv'
    by_cases hq : q' = q
    · exact hq ▸ h.old q v hv
    · rw [Function.update_of_ne hq] at hv'
      exact h.old q' v' hv'

/-- A window takes an event. -/
theorem Inv.taken (h : Inv s) (hv : s.viewers q = some v) {items : List (Item α)}
    (hq : s.manager.queues q = .event ev :: items) (hreading : v.reading = true) :
    Inv { s.setViewer q { v with received := v.received ++ [ev] } with
      manager := s.manager.setQueue q items } where
  viewers := by
    intro q' v' hv'
    have hv' : Function.update s.viewers q (some { v with received := v.received ++ [ev] }) q' =
      some v' := hv'
    by_cases hqq : q' = q
    · subst hqq
      rw [Function.update_self] at hv'
      obtain rfl := Option.some.inj hv'
      have hold := h.viewers q' v hv
      have hself : (s.manager.setQueue q' items).queues q' = items := Function.update_self ..
      -- the queue is not closed, so its events are the next ones
      rcases hold.live hreading with ⟨evs, hevs, hall, hmem⟩ | hclose
      · rw [hq] at hevs
        cases evs with
        | nil => cases hevs
        | cons first evs =>
            obtain ⟨hfirst, hitems⟩ := List.cons.inj hevs
            obtain rfl := Item.event.inj hfirst
            have hnext : (v.received ++ [ev]) ++ evs = v.meant s := by
              rw [List.append_assoc]
              exact hall
            refine ⟨hold.since, ⟨evs, hnext⟩, fun hpos => ?_,
              fun _ => .inl ⟨evs, hself.trans hitems, hnext, hmem⟩⟩
            show ((s.manager.setQueue q' items).queues q').length ≤ _
            rw [hself]
            have hbound := hold.bound hpos
            rw [hq, List.length_cons] at hbound
            exact Nat.le_of_succ_le hbound
      · rw [hq] at hclose
        cases hclose
    · rw [Function.update_of_ne hqq] at hv'
      exact (h.viewers q' v' hv').same rfl (Function.update_of_ne hqq _ _) rfl id
  subs := by
    intro e' q' hmem
    show ∃ v', Function.update s.viewers q (some { v with received := v.received ++ [ev] }) q' =
      some v' ∧ _
    obtain ⟨v', hv', hexec⟩ := h.subs e' q' hmem
    by_cases hqq : q' = q
    · subst hqq
      rw [hv] at hv'
      obtain rfl := Option.some.inj hv'
      rw [Function.update_self]
      exact ⟨_, rfl, hexec⟩
    · rw [Function.update_of_ne hqq]
      exact ⟨v', hv', hexec⟩
  old := by
    intro q' v' hv'
    have hv' : Function.update s.viewers q (some { v with received := v.received ++ [ev] }) q' =
      some v' := hv'
    by_cases hqq : q' = q
    · exact hqq ▸ h.old q v hv
    · rw [Function.update_of_ne hqq] at hv'
      exact h.old q' v' hv'

theorem Inv.step (h : Inv s) (hstep : step s a = some s') : Inv s' := by
  cases a with
  | subscribe e =>
      obtain rfl := Option.some.inj hstep
      exact h.subscribe e
  | publish e ev =>
      obtain rfl := Option.some.inj hstep
      exact h.publish e ev
  | close e =>
      obtain rfl := Option.some.inj hstep
      exact h.closed e
  | take q =>
      simp only [Fanout.step] at hstep
      split at hstep
      · rename_i v ev items hv hq
        split at hstep
        · rename_i hreading
          obtain rfl := Option.some.inj hstep
          exact h.taken hv hq hreading
        · cases hstep
      · rename_i v items hv hq
        split at hstep
        · obtain rfl := Option.some.inj hstep
          exact h.left hv (by rw [hq]; exact Nat.le_succ _)
        · cases hstep
      · cases hstep
  | leave q =>
      simp only [Fanout.step] at hstep
      split at hstep
      · rename_i v hv
        split at hstep
        · obtain rfl := Option.some.inj hstep
          have hsame : s.manager.setQueue q (s.manager.queues q) = s.manager := by
            unfold SubscriptionManager.setQueue
            simp
          have hleft := h.left hv (le_refl (s.manager.queues q).length)
          rw [hsame] at hleft
          exact hleft
        · cases hstep
      · cases hstep

theorem Inv.start (queueMaxsize : Nat) : Inv (start queueMaxsize : State α) where
  viewers := by
    intro q v hv
    cases hv
  subs := by
    intro e q hmem
    cases hmem
  old := by
    intro q v hv
    cases hv

theorem inv_of_run {queueMaxsize : Nat} (h : Run step (start queueMaxsize) s) : Inv s :=
  h.invariant (fun _ _ _ hs _ hstep => hs.step hstep) (.start queueMaxsize)

/-- **A window receives events without gap, in order, and once.**  What it has
received is where the events published since it subscribed begin; its queue
never exceeds the bound; and as long as it has not been closed, what it has
received and what it will find next are all of them. -/
theorem received_in_order (queueMaxsize : Nat) (s : State α)
    (h : Run step (start queueMaxsize) s) (q : QueueId) (v : Viewer α)
    (hv : s.viewers q = some v) :
    v.received <+: (s.published v.execution).drop v.since ∧
      (0 < s.manager.queueMaxsize → (s.manager.queues q).length ≤ s.manager.queueMaxsize) ∧
      (v.reading = true → (∃ evs, s.manager.queues q = evs.map .event ∧
          v.received ++ evs = (s.published v.execution).drop v.since) ∨
        (s.manager.queues q).head? = some .close) := by
  have hv := (inv_of_run h).viewers q v hv
  refine ⟨hv.seen, hv.bound, fun hreading => (hv.live hreading).imp_left ?_⟩
  rintro ⟨evs, hevs, hall, -⟩
  exact ⟨evs, hevs, hall⟩

/-- The window has room for what is published to it, and is not closed. -/
def KeepsUp (q : QueueId) (s : State α) : Action α → Prop
  | .publish e _ => q ∈ s.manager.subs e → s.manager.full q = false
  | .close e => q ∉ s.manager.subs e
  | .subscribe _ | .take _ | .leave _ => True

/-- **A window that keeps up misses nothing**, however the others do. -/
theorem kept_up (queueMaxsize : Nat) (s : State α) (q : QueueId)
    (h : RunOk step (KeepsUp q) (start queueMaxsize) s) (v : Viewer α)
    (hv : s.viewers q = some v) (hreading : v.reading = true) :
    ∃ evs, s.manager.queues q = evs.map .event ∧
      v.received ++ evs = (s.published v.execution).drop v.since := by
  have hopen : Item.close ∉ s.manager.queues q := by
    refine h.invariant (I := fun s => Item.close ∉ s.manager.queues q) ?_ List.not_mem_nil
    intro s a s' hs hok hstep
    cases a with
    | subscribe e =>
        obtain rfl := Option.some.inj hstep
        show Item.close ∉ Function.update s.manager.queues s.manager.nextQueue [] q
        by_cases hq : q = s.manager.nextQueue
        · rw [hq, Function.update_self]
          exact List.not_mem_nil
        · rw [Function.update_of_ne hq]
          exact hs
    | publish e ev =>
        obtain rfl := Option.some.inj hstep
        show Item.close ∉ (s.manager.publish e ev).queues q
        rw [SubscriptionManager.publish_queues]
        split
        · rename_i hmem
          rw [if_neg (by simp [hok hmem])]
          simp [hs]
        · exact hs
    | close e =>
        obtain rfl := Option.some.inj hstep
        show Item.close ∉ (s.manager.close e).queues q
        rw [SubscriptionManager.close_queues, if_neg hok]
        exact hs
    | take p =>
        -- taking shortens a queue, and no other one changes
        have hset : ∀ {item : Item α} {items : List (Item α)},
            s.manager.queues p = item :: items →
            Item.close ∉ Function.update s.manager.queues p items q := by
          intro item items hp
          by_cases hq : q = p
          · rw [hq, Function.update_self]
            rw [hq, hp] at hs
            exact fun hc => hs (List.mem_cons_of_mem _ hc)
          · rw [Function.update_of_ne hq]
            exact hs
        simp only [Fanout.step] at hstep
        split at hstep
        · rename_i hp
          split at hstep
          · obtain rfl := Option.some.inj hstep
            exact hset hp
          · cases hstep
        · rename_i hp
          split at hstep
          · obtain rfl := Option.some.inj hstep
            exact hset hp
          · cases hstep
        · cases hstep
    | leave p =>
        simp only [Fanout.step] at hstep
        split at hstep
        · split at hstep
          · obtain rfl := Option.some.inj hstep
            exact hs
          · cases hstep
        · cases hstep
  have hrun : Run step (start queueMaxsize) s := h.mono fun _ _ _ => trivial
  rcases ((inv_of_run hrun).viewers q v hv).live hreading with ⟨evs, hevs, hall, -⟩ | hclosed
  · exact ⟨evs, hevs, hall⟩
  · exact absurd (List.mem_of_mem_head? hclosed) hopen

/-- One of two windows stalls with a queue for two events. -/
theorem received_in_order_sample : ∃ s : State Nat, ∃ v,
    Run step (start 2) s ∧ s.viewers 1 = some v ∧ v.received = [10, 11, 12] ∧
      s.manager.queues 0 = [.close] ∧ v.received <+: (s.published v.execution).drop v.since := by
  obtain ⟨s, hrun, hs⟩ := RunOk.exists_of_checkedRun step (fun _ _ => True)
    (start 2 : State Nat)
    [.subscribe 7, .subscribe 7, .publish 7 10, .publish 7 11, .take 1, .take 1, .publish 7 12,
      .take 1]
    (fun s => (s.viewers 1).any (fun v => v.received == [10, 11, 12]) &&
      s.manager.queues 0 == [.close]) (by decide +kernel)
  obtain ⟨hview, hclosed⟩ := Bool.and_eq_true_iff.mp hs
  obtain ⟨v, hv, hreceived⟩ := (Option.any_eq_true _ _).mp hview
  exact ⟨s, v, hrun, hv, by simpa using hreceived, by simpa using hclosed,
    (received_in_order 2 s hrun 1 v hv).1⟩

instance (q : QueueId) (s : State α) (a : Action α) : Decidable (KeepsUp q s a) :=
  match a with
  | .publish _ _ => inferInstanceAs (Decidable (_ → _))
  | .close _ => inferInstanceAs (Decidable (_ ∉ _))
  | .subscribe _ | .take _ | .leave _ => isTrue trivial

theorem kept_up_sample : ∃ s : State Nat, ∃ v, RunOk step (KeepsUp 1) (start 1) s ∧
    s.viewers 1 = some v ∧ s.manager.queues 0 = [.close] ∧
    ∃ evs, s.manager.queues 1 = evs.map .event ∧
      v.received ++ evs = (s.published v.execution).drop v.since := by
  obtain ⟨s, hrun, hs⟩ := RunOk.exists_of_checkedRun step (KeepsUp 1) (start 1 : State Nat)
    [.subscribe 7, .subscribe 7, .publish 7 10, .take 1, .publish 7 11]
    (fun s => (s.viewers 1).any (fun v => v.reading) && s.manager.queues 0 == [.close])
    (by decide +kernel)
  obtain ⟨hview, hclosed⟩ := Bool.and_eq_true_iff.mp hs
  obtain ⟨v, hv, hreading⟩ := (Option.any_eq_true _ _).mp hview
  exact ⟨s, v, hrun, hv, by simpa using hclosed, kept_up 1 s 1 hrun v hv hreading⟩

end Run

end Fanout

end Dopilot
