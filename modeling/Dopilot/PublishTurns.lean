/-
Dopilot/PublishTurns.lean

Whose turn it is when the bucket runs dry.

A tick scans the executions from where the last one stopped, so an execution that
has content to send gets its turn before the start has gone round.  The marker is
not content: it needs all its tokens at once and keeps none of them back, and what
the bucket holds at its turn is left to the neighbours.

`Watched` counts for one execution the ticks that have begun since it has owed
something and sent nothing.  `waiting_le` bounds them by the number of executions
and the length of the marker, as long as neighbours that follow an execution which
was passed over leave the marker its tokens.
-/
import Dopilot.LogPublisher
import Dopilot.Process
import Mathlib.Data.List.Rotate
import Mathlib.Algebra.Order.Field.Basic
import Mathlib.Tactic.Linarith

namespace Dopilot

open StateMachine

namespace PublishTurns

/-! ### What an execution owes -/

/-- The publisher tails the execution. -/
def tailable (e : ExecutionId) (a : LogAgent) : Bool :=
  (a.store.read e).any fun state => decide (state.logPath ≠ "") && !state.logCapped

/-- The persisted cursor. -/
def cursorOf (e : ExecutionId) (a : LogAgent) : Nat := (a.cursors e).getD 0

/-- The cursor is where the cap leaves no more content. -/
def atCap (cfg : PublisherConfig) (cursor : Nat) : Bool :=
  decide (0 < cfg.cap ∧ cfg.contentCap ≤ cursor)

def owesMarker (cfg : PublisherConfig) (e : ExecutionId) (a : LogAgent) : Bool :=
  tailable e a && atCap cfg (cursorOf e a)

def owesContent (cfg : PublisherConfig) (e : ExecutionId) (a : LogAgent) : Bool :=
  tailable e a && !atCap cfg (cursorOf e a) && decide (cursorOf e a < (a.jobLogs e).length)

def owes (cfg : PublisherConfig) (e : ExecutionId) (a : LogAgent) : Bool :=
  owesMarker cfg e a || owesContent cfg e a

/-! ### The publisher, watched -/

/-- The agent, and how one of its executions fares. -/
structure Watched where
  agent : LogAgent
  /-- The ticks begun since the execution has owed something and sent nothing. -/
  waiting : Nat
  /-- Its turn has come since, and the bucket did not hold its marker. -/
  passed : Bool
  /-- A loop went on for longer than it was followed. -/
  unfollowed : Bool

/-- An execution that owes nothing does not wait. -/
def Watched.settle (cfg : PublisherConfig) (e : ExecutionId) (w : Watched) : Watched :=
  if owes cfg e w.agent then w else { w with waiting := 0, passed := false }

/-- What an operation that has left the agent as it is now means to the execution. -/
def Watched.record (cfg : PublisherConfig) (e : ExecutionId) (w : Watched) (op : LogOp)
    (accepted : Bool) (a : LogAgent) : Watched :=
  let w := { w with agent := a }
  match op with
  | .refill => { w with waiting := w.waiting + 1 }
  | .readCursor e' =>
      if e' = e ∧ owesMarker cfg e a = true ∧ a.memory.allowance cfg < cfg.marker.length then
        { w with passed := true }
      else w
  | .xadd ev =>
      if accepted = true ∧ ev.executionId = e ∧ ev.eof = false then
        { w with waiting := 0, passed := false }
      else w
  | .unfollowed => { w with unfollowed := true }
  | _ => w

/-- What is around the publisher becomes what it is in `a`; its bucket, its rotation and
the cursors are its own. -/
def surround (w : Watched) (a : LogAgent) : Watched :=
  { w with agent := { a with
    memory := { w.agent.memory with eofSent := a.memory.eofSent }
    cursors := w.agent.cursors } }

/-- The operation that follows no further is told apart from one that blocks. -/
def perform (cfg : PublisherConfig) (op : LogOp) (x : LogAnswer) (a : LogAgent) :
    Option (Except LogIoError op.Res × LogAgent) :=
  match op with
  | .unfollowed => some (.ok (), a)
  | op => op.perform cfg x a

/-- The publisher as a system of one process. -/
def spec (cfg : PublisherConfig) (e : ExecutionId) : Sys.Spec Unit LogOp LogOp.Res
    (fun _ => LogAnswer) LogIoError Watched LogAgent Nat where
  iface :=
    { perform := fun op x w =>
        (perform cfg op x w.agent).map fun r =>
          (r.1, (w.record cfg e op r.1.isOk r.2).settle cfg e) }
  env w a := some ((surround w a).settle cfg e)
  launch _ _ fuel := some (publishOnce cfg fuel)
  crash w := w

abbrev State := Sys Unit LogOp LogOp.Res LogIoError Watched

/-- The executions that are scanned. -/
def scanned (a : LogAgent) : List ExecutionId := a.store.listExecutionIds.insertionSort (· ≤ ·)

/-- What is presupposed of an operation: a refill brings a token, and the execution's own
reads and sends succeed. -/
def Presupposed (cfg : PublisherConfig) (e : ExecutionId) (w : Watched) : LogOp → LogAnswer → Prop
  | .refill, x => 1 ≤ (x.now - w.agent.memory.lastRefill) * cfg.rate
  | .readCursor e', x | .readRaw e' _ _, x => e' = e → x.fault = .none
  | .xadd ev, x => ev.executionId = e → x.fault = .none
  | _, _ => True

/-- A neighbour of an execution that was passed over leaves the marker its tokens. -/
def LeavesMarker (cfg : PublisherConfig) (e : ExecutionId) (w : Watched) : LogOp → Prop
  | .xadd ev => ev.executionId ≠ e → w.passed = true → ev.sizeBytes ≠ 0 →
      (cfg.marker.length + ev.sizeBytes : Rat) ≤ w.agent.memory.tokens
  | _ => True

instance (cfg : PublisherConfig) (e : ExecutionId) (w : Watched) :
    (op : LogOp) → (x : LogAnswer) → Decidable (Presupposed cfg e w op x)
  | .refill, x => inferInstanceAs (Decidable (1 ≤ (x.now - w.agent.memory.lastRefill) * cfg.rate))
  | .readCursor e', x | .readRaw e' _ _, x =>
      inferInstanceAs (Decidable (e' = e → x.fault = .none))
  | .xadd ev, x => inferInstanceAs (Decidable (ev.executionId = e → x.fault = .none))
  | .listExecutionIds, _ | .readState _, _ | .markLogCapped _, _ | .writeCursor _ _, _
  | .allowance, _ | .spend _, _ | .rotateFrom, _ | .setRotateFrom _, _
  | .eofSent _, _ | .addEofSent _, _ | .unfollowed, _ => .isTrue trivial

instance (cfg : PublisherConfig) (e : ExecutionId) (w : Watched) :
    (op : LogOp) → Decidable (LeavesMarker cfg e w op)
  | .xadd ev => inferInstanceAs (Decidable (ev.executionId ≠ e → w.passed = true →
      ev.sizeBytes ≠ 0 → (cfg.marker.length + ev.sizeBytes : Rat) ≤ w.agent.memory.tokens))
  | .listExecutionIds | .readState _ | .markLogCapped _ | .readCursor _ | .writeCursor _ _
  | .readRaw _ _ _ | .refill | .allowance | .spend _ | .rotateFrom | .setRotateFrom _
  | .eofSent _ | .addEofSent _ | .unfollowed => .isTrue trivial

/-- The executions stay the same ones, and each loop is followed for long enough. -/
def presupposed (cfg : PublisherConfig) (e : ExecutionId) (ids : List ExecutionId) :
    Sys.Cond Unit LogOp (fun _ => LogAnswer) Watched LogAgent Nat where
  env _ a := scanned a = ids
  launch _ _ fuel := 2 * cfg.rate < fuel
  op op x w := Presupposed cfg e w op x
  crash _ := False

def unovertaken (cfg : PublisherConfig) (e : ExecutionId) (ids : List ExecutionId) :
    Sys.Cond Unit LogOp (fun _ => LogAnswer) Watched LogAgent Nat where
  env _ a := scanned a = ids
  launch _ _ fuel := 2 * cfg.rate < fuel
  op op x w := Presupposed cfg e w op x ∧ LeavesMarker cfg e w op
  crash _ := False

instance (cfg : PublisherConfig) (e : ExecutionId) (ids : List ExecutionId) (s : State)
    (a : Sys.Action Unit LogOp (fun _ => LogAnswer) LogAgent Nat) :
    Decidable ((unovertaken cfg e ids).Holds s a) := by
  have henv : ∀ w a, Decidable ((unovertaken cfg e ids).env w a) :=
    fun _ a => inferInstanceAs (Decidable (scanned a = ids))
  have hlaunch : ∀ w i fuel, Decidable ((unovertaken cfg e ids).launch w i fuel) :=
    fun _ _ fuel => inferInstanceAs (Decidable (2 * cfg.rate < fuel))
  have hop : ∀ op x w, Decidable ((unovertaken cfg e ids).op op x w) :=
    fun op x w => inferInstanceAs (Decidable (Presupposed cfg e w op x ∧ LeavesMarker cfg e w op))
  have hcrash : ∀ w, Decidable ((unovertaken cfg e ids).crash w) :=
    fun _ => inferInstanceAs (Decidable False)
  infer_instance

/-- A publisher between two ticks, when the watch begins. -/
structure Start (cfg : PublisherConfig) (ids : List ExecutionId) (s : State) : Prop where
  idle : s.procs () = none
  scanned : PublishTurns.scanned s.world.agent = ids
  tokens : 0 ≤ s.world.agent.memory.tokens ∧ s.world.agent.memory.tokens ≤ 2 * cfg.rate
  waiting : s.world.waiting = 0
  passed : s.world.passed = false
  followed : s.world.unfollowed = false

/-! ### The bucket and the counters -/

section Counters

variable {cfg : PublisherConfig} {e e' : ExecutionId} {ids : List ExecutionId}
variable {w w' w₁ w₂ : Watched} {op : LogOp} {x : LogAnswer} {a : LogAgent}

abbrev Watched.tokens (w : Watched) : Rat := w.agent.memory.tokens

abbrev Watched.allowance (cfg : PublisherConfig) (w : Watched) : Nat := w.agent.memory.allowance cfg

/-- The execution has sent something, or owes nothing. -/
def Served (w : Watched) : Prop := w.waiting = 0 ∧ w.passed = false

/-- The counters stay, or the execution was served. -/
def Counted (w w' : Watched) : Prop :=
  (w'.waiting = w.waiting ∧ w'.passed = w.passed) ∨ Served w'

theorem Counted.refl (w : Watched) : Counted w w := .inl ⟨rfl, rfl⟩

theorem Counted.trans (h : Counted w₁ w) (h' : Counted w w₂) : Counted w₁ w₂ := by
  rcases h' with ⟨hwaiting, hpassed⟩ | hserved
  · rcases h with ⟨hwaiting', hpassed'⟩ | ⟨hzero, hnot⟩
    · exact .inl ⟨hwaiting.trans hwaiting', hpassed.trans hpassed'⟩
    · exact .inr ⟨hwaiting.trans hzero, hpassed.trans hnot⟩
  · exact .inr hserved

theorem Counted.served (h : Counted w w') (hw : Served w) : Served w' := by
  rcases h with ⟨hwaiting, hpassed⟩ | hserved
  · exact ⟨hwaiting.trans hw.1, hpassed.trans hw.2⟩
  · exact hserved

theorem Counted.passed (h : Counted w w') (hw : w'.passed = true) :
    w.passed = true ∧ w'.waiting = w.waiting := by
  rcases h with ⟨hwaiting, hpassed⟩ | ⟨-, hnot⟩
  · exact ⟨hpassed.symm.trans hw, hwaiting⟩
  · rw [hnot] at hw
    cases hw

theorem Counted.waiting_mono (h : Counted w w') : w'.waiting ≤ w.waiting := by
  rcases h with ⟨hwaiting, -⟩ | ⟨hzero, -⟩
  · exact Nat.le_of_eq hwaiting
  · exact hzero ▸ Nat.zero_le _

theorem settle_counted (w : Watched) : Counted w (w.settle cfg e) := by
  unfold Watched.settle
  split
  · exact Counted.refl w
  · exact .inr ⟨rfl, rfl⟩

@[simp] theorem settle_agent (w : Watched) : (w.settle cfg e).agent = w.agent := by
  unfold Watched.settle
  split
  · rfl
  · rfl

@[simp] theorem settle_unfollowed (w : Watched) :
    (w.settle cfg e).unfollowed = w.unfollowed := by
  unfold Watched.settle
  split
  · rfl
  · rfl

/-- An execution that owes nothing was served. -/
theorem settle_served (h : owes cfg e w.agent = false) : Served (w.settle cfg e) := by
  rw [Watched.settle, if_neg (by rw [h]; exact Bool.false_ne_true)]
  exact ⟨rfl, rfl⟩

/-- What the bucket allows is what is in it, rounded down. -/
theorem le_allowance_iff (hrate : 0 < cfg.rate) (h : 0 ≤ w.tokens) {n : Nat} :
    n ≤ w.allowance cfg ↔ (n : Rat) ≤ w.tokens := by
  have hfloor : (0 : Int) ≤ w.tokens.floor := Rat.le_floor_iff.mpr h
  have hallowance : w.allowance cfg = w.tokens.floor.toNat := if_neg (Nat.ne_of_gt hrate)
  rw [hallowance, show n ≤ w.tokens.floor.toNat ↔ (n : Int) ≤ w.tokens.floor by omega,
    Rat.le_floor_iff]
  rfl

theorem allowance_congr (h : w'.tokens = w.tokens) : w'.allowance cfg = w.allowance cfg := by
  show (if cfg.rate = 0 then _ else w'.tokens.floor.toNat) = if cfg.rate = 0 then _ else _
  rw [h]

/-- The bucket allows less by what was taken from it. -/
theorem allowance_add_le (hrate : 0 < cfg.rate) (h : 0 ≤ w.tokens) (h' : 0 ≤ w'.tokens) {n : Nat}
    (htokens : w'.tokens = w.tokens - n) : w'.allowance cfg + n ≤ w.allowance cfg := by
  refine (le_allowance_iff hrate h).mpr ?_
  have hle := (le_allowance_iff hrate h').mp (Nat.le_refl (w'.allowance cfg))
  rw [Nat.cast_add]
  linarith

/-- What holds in every state. -/
structure Inv (cfg : PublisherConfig) (e : ExecutionId) (ids : List ExecutionId) (w : Watched) :
    Prop where
  scanned : PublishTurns.scanned w.agent = ids
  nonneg : 0 ≤ w.tokens
  le : w.tokens ≤ 2 * cfg.rate
  waiting : w.waiting ≤ ids.length + cfg.marker.length
  settled : owes cfg e w.agent = true ∨ Served w
  followed : w.unfollowed = false

/-- What happens beside the publisher, and what its own operations mostly do: the bucket
stays. -/
structure Calm (w w' : Watched) : Prop where
  tokens : w'.tokens = w.tokens
  counted : Counted w w'

theorem Calm.refl (w : Watched) : Calm w w := ⟨rfl, Counted.refl w⟩

theorem Calm.trans (h : Calm w₁ w) (h' : Calm w w₂) : Calm w₁ w₂ :=
  ⟨h'.tokens.trans h.tokens, h.counted.trans h'.counted⟩

/-- What the publisher relies on of the others. -/
structure Rely (e : ExecutionId) (w w' : Watched) : Prop where
  calm : Calm w w'
  rotation : w'.agent.memory.rotateFrom = w.agent.memory.rotateFrom
  cursor : cursorOf e w'.agent = cursorOf e w.agent

theorem Rely.refl (w : Watched) : Rely e w w := ⟨Calm.refl w, rfl, rfl⟩

theorem Rely.trans (h : Rely e w₁ w) (h' : Rely e w w₂) : Rely e w₁ w₂ :=
  ⟨h.calm.trans h'.calm, h'.rotation.trans h.rotation, h'.cursor.trans h.cursor⟩

/-- What others do keeps the invariant. -/
theorem Inv.beside (h : Inv cfg e ids w) (ha : PublishTurns.scanned a = ids) :
    Inv cfg e ids ((surround w a).settle cfg e) ∧
      Rely e w ((surround w a).settle cfg e) := by
  have hcounted : Counted w ((surround w a).settle cfg e) :=
    (show Counted w (surround w a) from .inl ⟨rfl, rfl⟩).trans (settle_counted _)
  refine ⟨⟨?_, ?_, ?_, ?_, ?_, ?_⟩, ⟨?_, hcounted⟩, ?_, ?_⟩
  · rw [settle_agent]
    exact ha
  · rw [Watched.tokens, settle_agent]
    exact h.nonneg
  · rw [Watched.tokens, settle_agent]
    exact h.le
  · exact hcounted.waiting_mono.trans h.waiting
  · cases howes : owes cfg e (surround w a).agent with
    | true =>
        rw [settle_agent]
        exact .inl howes
    | false => exact .inr (settle_served howes)
  · rw [settle_unfollowed]
    exact h.followed
  · rw [Watched.tokens, settle_agent]
    rfl
  · rw [settle_agent]
    rfl
  · rw [settle_agent]
    rfl

/-- The operations that leave the bucket and do not look for the execution's turn. -/
def LeavesBucket (e : ExecutionId) : LogOp → Prop
  | .spend _ | .refill | .setRotateFrom _ | .unfollowed => False
  | .readCursor e' => e' ≠ e
  | _ => True

theorem scanned_mark (st : StateStore) (e : ExecutionId) (m : Mark) :
    (st.mark e m).listExecutionIds = st.listExecutionIds := by
  simp [StateStore.mark, StateStore.listExecutionIds, Table.modify, Table.updateAll,
    Function.comp_def]

theorem perform_leaves {a' : LogAgent} {r : Except LogIoError op.Res} (hop : LeavesBucket e op)
    (h : perform cfg op x a = some (r, a')) :
    a'.memory.tokens = a.memory.tokens ∧ a'.memory.rotateFrom = a.memory.rotateFrom ∧
      scanned a' = scanned a := by
  cases op with
  | spend n => exact hop.elim
  | refill => exact hop.elim
  | setRotateFrom n => exact hop.elim
  | unfollowed => exact hop.elim
  | markLogCapped e =>
      refine Prog.withFault_rel (R := fun a a' : LogAgent => a'.memory.tokens = a.memory.tokens ∧
        a'.memory.rotateFrom = a.memory.rotateFrom ∧ scanned a' = scanned a) ?_ ?_ h
      · exact ⟨rfl, rfl, rfl⟩
      · exact ⟨rfl, rfl, congrArg (List.insertionSort (· ≤ ·)) (scanned_mark _ _ _)⟩
  | writeCursor e offset =>
      refine Prog.withFault_rel (R := fun a a' : LogAgent => a'.memory.tokens = a.memory.tokens ∧
        a'.memory.rotateFrom = a.memory.rotateFrom ∧ scanned a' = scanned a) ?_ ?_ h
      · exact ⟨rfl, rfl, rfl⟩
      · exact ⟨rfl, rfl, rfl⟩
  | xadd ev =>
      refine Prog.withFault_rel (R := fun a a' : LogAgent => a'.memory.tokens = a.memory.tokens ∧
        a'.memory.rotateFrom = a.memory.rotateFrom ∧ scanned a' = scanned a) ?_ ?_ h
      · exact ⟨rfl, rfl, rfl⟩
      · exact ⟨rfl, rfl, rfl⟩
  | listExecutionIds | readState e | readCursor e | readRaw e offset maxBytes | allowance
  | rotateFrom | eofSent e | addEofSent e =>
      cases h
      exact ⟨rfl, rfl, rfl⟩

theorem record_counted {accepted : Bool} (hop : LeavesBucket e op) :
    Counted w (w.record cfg e op accepted a) ∧
      (w.record cfg e op accepted a).unfollowed = w.unfollowed := by
  cases op with
  | spend n => exact hop.elim
  | refill => exact hop.elim
  | setRotateFrom n => exact hop.elim
  | unfollowed => exact hop.elim
  | readCursor e' =>
      simp only [Watched.record]
      rw [if_neg fun h => hop h.1]
      exact ⟨.inl ⟨rfl, rfl⟩, rfl⟩
  | xadd ev =>
      simp only [Watched.record]
      split
      · exact ⟨.inr ⟨rfl, rfl⟩, rfl⟩
      · exact ⟨.inl ⟨rfl, rfl⟩, rfl⟩
  | _ => exact ⟨.inl ⟨rfl, rfl⟩, rfl⟩

@[simp] theorem record_agent {accepted : Bool} : (w.record cfg e op accepted a).agent = a := by
  cases op with
  | readCursor e' =>
      simp only [Watched.record]
      split
      · rfl
      · rfl
  | xadd ev =>
      simp only [Watched.record]
      split
      · rfl
      · rfl
  | _ => rfl

/-- An operation keeps the invariant if it keeps to the bucket and the counters. -/
theorem Inv.record {accepted : Bool} (h : Inv cfg e ids w)
    (hscanned : PublishTurns.scanned a = PublishTurns.scanned w.agent)
    (htokens : 0 ≤ a.memory.tokens ∧ a.memory.tokens ≤ 2 * cfg.rate)
    (hwaiting : ((w.record cfg e op accepted a).settle cfg e).waiting
      ≤ ids.length + cfg.marker.length)
    (hfollowed : (w.record cfg e op accepted a).unfollowed = false) :
    Inv cfg e ids ((w.record cfg e op accepted a).settle cfg e) := by
  refine ⟨?_, ?_, ?_, hwaiting, ?_, ?_⟩
  · rw [settle_agent, record_agent, hscanned]
    exact h.scanned
  · rw [Watched.tokens, settle_agent, record_agent]
    exact htokens.1
  · rw [Watched.tokens, settle_agent, record_agent]
    exact htokens.2
  · cases howes : owes cfg e (w.record cfg e op accepted a).agent with
    | true =>
        rw [settle_agent]
        exact .inl howes
    | false => exact .inr (settle_served howes)
  · rw [settle_unfollowed]
    exact hfollowed

/-- What a turn of another execution leaves. -/
structure Turn (cfg : PublisherConfig) (w w' : Watched) : Prop where
  counted : Counted w w'
  tokens : w'.tokens ≤ w.tokens
  reserve : w'.passed = true → w'.tokens = w.tokens ∨ (cfg.marker.length : Rat) ≤ w'.tokens

theorem Turn.refl (w : Watched) : Turn cfg w w := ⟨Counted.refl w, le_refl _, fun _ => .inl rfl⟩

theorem Calm.turn (h : Calm w w') : Turn cfg w w' :=
  ⟨h.counted, le_of_eq h.tokens, fun _ => .inl h.tokens⟩

theorem Turn.trans (h : Turn cfg w₁ w) (h' : Turn cfg w w₂) : Turn cfg w₁ w₂ := by
  refine ⟨h.counted.trans h'.counted, h'.tokens.trans h.tokens, fun hpassed => ?_⟩
  have hbefore := (h'.counted.passed hpassed).1
  rcases h'.reserve hpassed with hsame | hleft
  · rcases h.reserve hbefore with hsame' | hleft
    · exact .inl (hsame.trans hsame')
    · rw [hsame]
      exact .inr hleft
  · exact .inr hleft

end Counters

/-! ### The rules of the operations -/

section Rules

variable {cfg : PublisherConfig} {e e' : ExecutionId} {ids : List ExecutionId} {α : Type}
variable {w w₀ w₁ w₂ : Watched}

def contract (cfg : PublisherConfig) (e : ExecutionId) (ids : List ExecutionId) :
    Prog.Contract LogOp (fun _ => LogAnswer) Watched :=
  Sys.contract (unovertaken cfg e ids) (Inv cfg e ids) (Rely e) (fun _ w' => Inv cfg e ids w')
    Rely.trans

/-- The program keeps the invariant at each of its operations, and ends in `Q`. -/
abbrev Safely (cfg : PublisherConfig) (e : ExecutionId) (ids : List ExecutionId) (p : LogProg α)
    (Q : Except LogIoError α → Watched → Prop) (w : Watched) : Prop :=
  p.Safe (spec cfg e).iface (contract cfg e ids) Q w

theorem safely_bind {β : Type} {p : LogProg α} {f : α → LogProg β}
    {Q : Except LogIoError β → Watched → Prop}
    (h : Safely cfg e ids p (Prog.bindPost (spec cfg e).iface (contract cfg e ids) f Q) w) :
    Safely cfg e ids (p >>= f) Q w :=
  Prog.safe_bind.mpr h

/-- The rule of one operation. -/
theorem safely_call {op : LogOp} {Q : Except LogIoError op.Res → Watched → Prop}
    (h : ∀ w₁, Rely e w w₁ → Inv cfg e ids w₁ → ∀ x, Presupposed cfg e w₁ op x →
      ∀ r a, perform cfg op x w₁.agent = some (r, a) →
        Inv cfg e ids ((w₁.record cfg e op r.isOk a).settle cfg e) ∧
          Q r ((w₁.record cfg e op r.isOk a).settle cfg e)) :
    Safely cfg e ids (LogOp.call op) Q w := by
  refine Prog.safe_call.mpr ?_
  intro w₁ hr x r w₂ hok hp
  obtain ⟨⟨r', a⟩, hperf, heq⟩ := Option.map_eq_some_iff.mp hp
  cases heq
  exact h w₁ hr hok.2 x hok.1.1 r' a hperf

/-- What an operation that leaves the bucket does. -/
theorem leaves_calm {op : LogOp} {x : LogAnswer} {r : Except LogIoError op.Res} {a : LogAgent}
    (hop : LeavesBucket e op) (hinv : Inv cfg e ids w)
    (hp : perform cfg op x w.agent = some (r, a)) :
    Inv cfg e ids ((w.record cfg e op r.isOk a).settle cfg e) ∧
      Calm w ((w.record cfg e op r.isOk a).settle cfg e) := by
  obtain ⟨htokens, -, hscanned⟩ := perform_leaves hop hp
  obtain ⟨hcounted, hfollowed⟩ : Counted w (w.record cfg e op r.isOk a) ∧
      (w.record cfg e op r.isOk a).unfollowed = w.unfollowed := record_counted hop
  have hsettled : Counted w ((w.record cfg e op r.isOk a).settle cfg e) :=
    hcounted.trans (settle_counted _)
  have hbounds : 0 ≤ a.memory.tokens ∧ a.memory.tokens ≤ 2 * cfg.rate := by
    rw [htokens]
    exact ⟨hinv.nonneg, hinv.le⟩
  refine ⟨hinv.record hscanned hbounds (hsettled.waiting_mono.trans hinv.waiting) ?_, ?_, hsettled⟩
  · rw [hfollowed]
    exact hinv.followed
  · rw [Watched.tokens, settle_agent, record_agent]
    exact htokens

/-- The rule of an operation that leaves the bucket. -/
theorem safely_calm {op : LogOp} {Q : Except LogIoError op.Res → Watched → Prop}
    (hop : LeavesBucket e op)
    (h : ∀ w₁ x r w₂, Rely e w w₁ → Inv cfg e ids w₁ → Presupposed cfg e w₁ op x →
      perform cfg op x w₁.agent = some (r, w₂.agent) → Calm w₁ w₂ → Inv cfg e ids w₂ → Q r w₂) :
    Safely cfg e ids (LogOp.call op) Q w := by
  refine safely_call fun w₁ hr hinv x hpre r a hp => ?_
  obtain ⟨hinv₂, hcalm⟩ := leaves_calm hop hinv hp
  refine ⟨hinv₂, h w₁ x r _ hr hinv hpre ?_ hcalm hinv₂⟩
  rw [settle_agent, record_agent]
  exact hp

/-- The rule of an entry. -/
theorem safely_xadd {ev : AgentLogEvent}
    {Q : Except LogIoError (Except LogIoError Unit) → Watched → Prop}
    (hok : ∀ w₂, Calm w w₂ → Inv cfg e ids w₂ →
      (ev.executionId = e → ev.eof = false → Served w₂) →
      (w₂.passed = true → ev.executionId ≠ e → ev.sizeBytes ≠ 0 →
        (cfg.marker.length + ev.sizeBytes : Rat) ≤ w₂.tokens) → Q (.ok (.ok ())) w₂)
    (herr : ∀ err w₂, Calm w w₂ → ev.executionId ≠ e → Q (.ok (.error err)) w₂) :
    Safely cfg e ids (LogOp.ask (.xadd ev)) Q w := by
  refine Prog.safe_ask.mpr ?_
  intro w₁ hr x r w₂ hcond hp
  obtain ⟨⟨hpre, hleaves⟩, hinv⟩ := hcond
  obtain ⟨⟨r', a⟩, hperf, heq⟩ := Option.map_eq_some_iff.mp hp
  cases heq
  have hleft : LeavesBucket e (.xadd ev) := trivial
  obtain ⟨hinv₂, hcalm⟩ := leaves_calm hleft hinv hperf
  have hall := hr.calm.trans hcalm
  refine ⟨hinv₂, ?_⟩
  rcases Prog.withFault_cases hperf with ⟨-, rfl, rfl⟩ | ⟨hfault, rfl, rfl⟩ | ⟨hfault, rfl, rfl⟩
  · refine hok _ hall hinv₂ ?_ ?_
    · intro hown heof
      refine (settle_counted _).served ?_
      simp only [Watched.record]
      rw [if_pos ⟨rfl, hown, heof⟩]
      exact ⟨rfl, rfl⟩
    · intro hpassed hother hsize
      rw [hcalm.tokens]
      exact hleaves hother (hcalm.counted.passed hpassed).1 hsize
  · refine herr _ _ hall fun hown => ?_
    rw [hpre hown] at hfault
    cases hfault
  · refine herr _ _ hall fun hown => ?_
    rw [hpre hown] at hfault
    cases hfault

/-- The rule of the tokens that are taken. -/
theorem safely_spend {n : Nat} {Q : Except LogIoError Unit → Watched → Prop}
    (hrate : 0 < cfg.rate)
    (h : ∀ w₂, Counted w w₂ → w₂.tokens = max 0 (w.tokens - n) → Inv cfg e ids w₂ →
      Q (.ok ()) w₂) : Safely cfg e ids (LogOp.call (.spend n)) Q w := by
  refine safely_call fun w₁ hr hinv x _ r a hp => ?_
  cases hp
  have hspend : (w₁.agent.memory.spend cfg n).tokens = max 0 (w₁.tokens - n) := by
    rw [PublisherMemory.spend, if_neg (Nat.ne_of_gt hrate)]
  have hcounted : Counted w₁ ((w₁.record cfg e (.spend n) true
      { w₁.agent with memory := w₁.agent.memory.spend cfg n }).settle cfg e) :=
    Counted.trans (.inl ⟨rfl, rfl⟩) (settle_counted _)
  have hbounds : 0 ≤ (w₁.agent.memory.spend cfg n).tokens ∧
      (w₁.agent.memory.spend cfg n).tokens ≤ 2 * cfg.rate := by
    rw [hspend]
    refine ⟨le_max_left _ _, max_le ?_ ?_⟩
    · exact hinv.nonneg.trans hinv.le
    · have hle := hinv.le
      have hn : (0 : Rat) ≤ n := Nat.cast_nonneg n
      linarith
  have hinv₂ : Inv cfg e ids ((w₁.record cfg e (.spend n) true
      { w₁.agent with memory := w₁.agent.memory.spend cfg n }).settle cfg e) :=
    hinv.record rfl hbounds (hcounted.waiting_mono.trans hinv.waiting) hinv.followed
  refine ⟨hinv₂, h _ (hr.calm.counted.trans hcounted) ?_ hinv₂⟩
  rw [Watched.tokens, settle_agent, record_agent, ← hr.calm.tokens]
  exact hspend

end Rules

/-! ### The turn of a neighbour -/

section Neighbours

variable {cfg : PublisherConfig} {e e' : ExecutionId} {ids : List ExecutionId} {α : Type}
variable {w w₀ w₁ w₂ : Watched}

/-- The program goes on with a turn that began at `w₀`. -/
abbrev Plays (cfg : PublisherConfig) (e : ExecutionId) (ids : List ExecutionId) (w₀ : Watched)
    (p : LogProg α) (w : Watched) : Prop :=
  Safely cfg e ids p (fun _ w' => Turn cfg w₀ w') w

/-- An operation that leaves the bucket, and whose answer does not matter. -/
theorem plays_calm {op : LogOp} {k : op.Res → LogProg α} (hop : LeavesBucket e op)
    (hw : Turn cfg w₀ w) (h : ∀ v w₂, Calm w w₂ → Turn cfg w₀ w₂ → Plays cfg e ids w₀ (k v) w₂) :
    Plays cfg e ids w₀ (LogOp.call op >>= k) w := by
  refine safely_bind (safely_calm hop fun w₁ _ r w₂ hr _ _ _ hcalm _ => ?_)
  have hall := hr.calm.trans hcalm
  cases r with
  | ok v => exact h v w₂ hall (hw.trans hall.turn)
  | error err => exact hw.trans hall.turn

/-- The publisher looks at its bucket. -/
theorem plays_allowance {k : Nat → LogProg α} (hw : Turn cfg w₀ w)
    (h : ∀ w₂, Calm w w₂ → Turn cfg w₀ w₂ → Inv cfg e ids w₂ →
      Plays cfg e ids w₀ (k (w₂.allowance cfg)) w₂) :
    Plays cfg e ids w₀ (LogOp.call .allowance >>= k) w := by
  refine safely_bind (safely_calm trivial fun w₁ _ r w₂ hr _ _ hp hcalm hinv₂ => ?_)
  have hall := hr.calm.trans hcalm
  obtain rfl : Except.ok (w₁.allowance cfg) = r := (Prod.ext_iff.mp (Option.some.inj hp)).1
  rw [show w₁.allowance cfg = w₂.allowance cfg from (allowance_congr hcalm.tokens).symm]
  exact h w₂ hall (hw.trans hall.turn) hinv₂

/-- Tokens are taken that the marker can do without. -/
theorem plays_spend {n : Nat} {k : Unit → LogProg α} (hrate : 0 < cfg.rate) (hw : Turn cfg w₀ w)
    (hreserve : w.passed = true → n ≠ 0 → (cfg.marker.length + n : Rat) ≤ w.tokens)
    (hn : (n : Rat) ≤ w.tokens)
    (h : ∀ w₂, Turn cfg w₀ w₂ → Inv cfg e ids w₂ → w₂.tokens = w.tokens - n →
      Plays cfg e ids w₀ (k ()) w₂) : Plays cfg e ids w₀ (LogOp.call (.spend n) >>= k) w := by
  refine safely_bind (safely_spend hrate fun w₂ hcounted htokens hinv₂ => ?_)
  rw [max_eq_right (sub_nonneg.mpr hn)] at htokens
  refine h w₂ (hw.trans ⟨hcounted, ?_, fun hpassed => ?_⟩) hinv₂ htokens
  · rw [htokens]
    exact sub_le_self _ (Nat.cast_nonneg n)
  · have hbefore := (hcounted.passed hpassed).1
    by_cases hzero : n = 0
    · refine .inl ?_
      rw [htokens, hzero, Nat.cast_zero, sub_zero]
    · refine .inr ?_
      rw [htokens]
      exact le_sub_iff_add_le.mpr (hreserve hbefore hzero)

/-- Between an entry and its tokens: if the execution still waits, the marker keeps its own. -/
structure Sent (cfg : PublisherConfig) (n : Nat) (w : Watched) : Prop where
  reserve : w.passed = true → n ≠ 0 → (cfg.marker.length + n : Rat) ≤ w.tokens
  room : (n : Rat) ≤ w.tokens

theorem Sent.stable {n : Nat} (h : Sent cfg n w) (hc : Calm w w₁) : Sent cfg n w₁ := by
  refine ⟨fun hpassed => ?_, ?_⟩
  · rw [hc.tokens]
    exact h.reserve (hc.counted.passed hpassed).1
  · rw [hc.tokens]
    exact h.room

/-- The entry of a slice that fits the bucket. -/
theorem safely_slice {state : AttemptState} {cursor : Nat} {raw : Bytes}
    {Q : Except LogIoError (Except LogIoError Unit) → Watched → Prop}
    (hroom : (raw.length : Rat) ≤ w.tokens)
    (hok : ∀ w₂, Calm w w₂ → Inv cfg e ids w₂ → (e' = e → Served w₂) →
      Sent cfg raw.length w₂ → Q (.ok (.ok ())) w₂)
    (herr : ∀ err w₂, Calm w w₂ → e' ≠ e → Q (.ok (.error err)) w₂) :
    Safely cfg e ids (LogOp.ask (.xadd (sliceEvent cfg state e' cursor raw))) Q w := by
  refine safely_xadd (fun w₂ hcalm hinv hserved hreserve => ?_) herr
  refine hok w₂ hcalm hinv (fun hown => hserved hown rfl) ⟨fun hpassed => ?_, ?_⟩
  · refine hreserve hpassed fun hown => ?_
    have hnot := (hserved hown rfl).2
    rw [hnot] at hpassed
    cases hpassed
  · rw [hcalm.tokens]
    exact hroom

/-- **Rounds of the tail loop**, by induction on the rounds followed: each of them takes a
token, so the bucket bounds them. -/
theorem tailLoop_plays (hrate : 0 < cfg.rate) (fuel : Nat) {state : AttemptState}
    {cursor total : Nat} (hw : Turn cfg w₀ w) (hfuel : w.allowance cfg < fuel) :
    Plays cfg e ids w₀ (tailLoop cfg e' fuel state cursor total) w := by
  induction fuel generalizing cursor total w with
  | zero => exact absurd hfuel (Nat.not_lt_zero _)
  | succ fuel ih =>
      refine plays_allowance hw fun w₁ hcalm₁ hw₁ hinv₁ => ?_
      rw [← allowance_congr hcalm₁.tokens] at hfuel
      show Plays cfg e ids w₀ (if w₁.allowance cfg = 0 then _ else _) w₁
      split
      · exact hw₁
      · split
        · split
          · exact hw₁
          · rename_i hallowed
            have hmarker : cfg.marker.length ≤ w₁.allowance cfg :=
              PublisherConfig.le_of_markerAllowed hrate (Bool.not_eq_false _ ▸ hallowed)
            refine safely_bind (safely_bind (safely_slice
              ((le_allowance_iff hrate hinv₁.nonneg).mp hmarker) ?_ ?_))
            · intro w₂ hcalm₂ _ _ hsent
              refine plays_calm trivial (hw₁.trans hcalm₂.turn) fun _ w₃ hcalm₃ hw₃ => ?_
              have hsent₃ := hsent.stable hcalm₃
              exact plays_spend hrate hw₃ hsent₃.reserve hsent₃.room fun w₄ hw₄ _ _ => hw₄
            · intro err w₂ hcalm₂ _
              exact hw₁.trans hcalm₂.turn
        · refine safely_bind (safely_calm trivial fun w₂ x r w₃ hr₂ _ _ hp hcalm₃ hinv₃ => ?_)
          have hcalm : Calm w₁ w₃ := hr₂.calm.trans hcalm₃
          have hw₃ := hw₁.trans hcalm.turn
          obtain rfl := (Prod.ext_iff.mp (Option.some.inj hp)).1
          have hlen : (w₂.agent.readRaw e' cursor (cfg.want (w₁.allowance cfg) cursor)
              x.fault).length ≤ w₁.allowance cfg :=
            (LogAgent.length_readRaw_le _ _ _ _ _).trans (cfg.want_le _ _)
          generalize w₂.agent.readRaw e' cursor _ x.fault = raw at hlen
          show Plays cfg e ids w₀ (if raw = [] then _ else _) w₃
          split
          · exact hw₃
          · rename_i hne
            have hroom : (raw.length : Rat) ≤ w₃.tokens := by
              rw [hcalm.tokens]
              exact (le_allowance_iff hrate hinv₁.nonneg).mp hlen
            refine safely_bind (safely_slice hroom ?_ ?_)
            · intro w₄ hcalm₄ _ _ hsent
              refine plays_calm trivial (hw₃.trans hcalm₄.turn) fun _ w₅ hcalm₅ hw₅ => ?_
              have hsent₅ := hsent.stable hcalm₅
              refine plays_spend hrate hw₅ hsent₅.reserve hsent₅.room fun w₆ hw₆ hinv₆ htokens => ?_
              show Plays cfg e ids w₀ (if raw.length < _ then _ else _) w₆
              split
              · exact hw₆
              · -- a round that goes on has taken at least one token
                refine ih hw₆ ?_
                have hpos : 0 < raw.length := List.length_pos_iff.mpr hne
                have hsum : w₆.allowance cfg + raw.length ≤ w₁.allowance cfg := by
                  refine allowance_add_le hrate hinv₁.nonneg hinv₆.nonneg ?_
                  rw [htokens, hcalm₅.tokens, hcalm₄.tokens, hcalm.tokens]
                omega
            · intro err w₄ hcalm₄ _
              exact hw₃.trans hcalm₄.turn

/-- The end entry takes nothing. -/
theorem publishEof_calm {state : AttemptState} {cursor : Nat} :
    Safely cfg e ids (publishEof cfg state e' cursor) (fun _ w' => Calm w w') w := by
  refine safely_bind (safely_calm trivial fun w₁ _ r w₂ hr₁ _ _ hp hcalm₁ _ => ?_)
  have h₂ := hr₁.calm.trans hcalm₁
  obtain rfl := (Prod.ext_iff.mp (Option.some.inj hp)).1
  generalize w₁.agent.memory.eofSent.contains e' = sent
  show Safely cfg e ids (if state.phase = .done ∧ sent = false then _ else _) _ w₂
  split
  · refine safely_bind (safely_xadd ?_ ?_)
    · intro w₃ hcalm₃ _ _ _
      refine safely_calm trivial fun w₄ _ _ w₅ hr₄ _ _ _ hcalm₅ _ => ?_
      exact (h₂.trans hcalm₃).trans (hr₄.calm.trans hcalm₅)
    · intro err w₃ hcalm₃ _
      exact h₂.trans hcalm₃
  · exact h₂

/-- What follows the tail loop takes nothing. -/
theorem exit_calm (exit : TailExit) (w : Watched) :
    Safely cfg e ids (match exit with
      | .aborted total => (return total : LogProg Nat)
      | .stopped state cursor total => do
          publishEof cfg state e' cursor
          return total) (fun _ w' => Calm w w') w := by
  cases exit with
  | aborted total => exact Calm.refl w
  | stopped state cursor total =>
      refine safely_bind (publishEof_calm.mono ?_)
      rintro (err | u) w₁ hcalm
      · exact hcalm
      · exact hcalm

theorem exit_plays (exit : TailExit) (hw : Turn cfg w₀ w) :
    Plays cfg e ids w₀ (match exit with
      | .aborted total => (return total : LogProg Nat)
      | .stopped state cursor total => do
          publishEof cfg state e' cursor
          return total) w :=
  (exit_calm exit w).mono fun _ _ hcalm => hw.trans hcalm.turn

/-- **A neighbour's turn.** -/
theorem publishAttempt_plays (hrate : 0 < cfg.rate) (he : e' ≠ e) {fuel : Nat}
    (hfuel : w.allowance cfg < fuel) (hw : Turn cfg w₀ w) :
    Plays cfg e ids w₀ (publishAttempt cfg fuel e') w := by
  refine plays_calm trivial hw fun read w₁ hcalm₁ hw₁ => ?_
  change Option AttemptState at read
  rw [← allowance_congr hcalm₁.tokens] at hfuel
  cases read with
  | none => exact hw₁
  | some state =>
      show Plays cfg e ids w₀ (if state.logPath = "" then _ else _) w₁
      split
      · exact hw₁
      · have hother : LeavesBucket e (.readCursor e') := he
        refine plays_calm hother hw₁ fun cursor w₂ hcalm₂ hw₂ => ?_
        rw [← allowance_congr hcalm₂.tokens] at hfuel
        show Plays cfg e ids w₀ (if state.logCapped = true then _ else _) w₂
        split
        · exact exit_plays (.stopped state cursor 0) hw₂
        · refine safely_bind ((tailLoop_plays hrate fuel hw₂ hfuel).mono ?_)
          rintro (err | exit) w₃ hw₃
          · exact hw₃
          · exact exit_plays exit hw₃

end Neighbours

/-! ### The turn of the execution itself -/

section Owner

variable {cfg : PublisherConfig} {e : ExecutionId} {ids : List ExecutionId}
variable {w w' w₀ w₁ w₂ : Watched}

/-- What the execution may still wait for, once it was passed over. -/
def Lacks (cfg : PublisherConfig) (ids : List ExecutionId) (w : Watched) : Prop :=
  w.waiting + (cfg.marker.length - w.allowance cfg) < ids.length + cfg.marker.length

/-- Its turn has come. -/
structure Due (cfg : PublisherConfig) (ids : List ExecutionId) (w : Watched) : Prop where
  room : 1 ≤ w.allowance cfg
  waiting : w.passed = false → w.waiting ≤ ids.length
  lacks : w.passed = true → Lacks cfg ids w

/-- Its turn is over: it was served, or passed over for want of tokens. -/
structure Over (cfg : PublisherConfig) (ids : List ExecutionId) (w : Watched) : Prop where
  waiting : w.passed = false → w.waiting = 0
  short : w.passed = true → w.allowance cfg < cfg.marker.length
  lacks : w.passed = true → Lacks cfg ids w

theorem Lacks.calm (h : Lacks cfg ids w) (hwaiting : w'.waiting = w.waiting)
    (htokens : w'.tokens = w.tokens) : Lacks cfg ids w' := by
  unfold Lacks
  rw [hwaiting, allowance_congr htokens]
  exact h

theorem Due.calm (h : Due cfg ids w) (hc : Calm w w') : Due cfg ids w' := by
  refine ⟨?_, ?_, ?_⟩
  · rw [allowance_congr hc.tokens]
    exact h.room
  · intro hpassed
    rcases hc.counted with ⟨hwaiting, hsame⟩ | ⟨hzero, -⟩
    · rw [hwaiting]
      exact h.waiting (hsame.symm.trans hpassed)
    · rw [hzero]
      exact Nat.zero_le _
  · intro hpassed
    obtain ⟨hbefore, hwaiting⟩ := hc.counted.passed hpassed
    exact (h.lacks hbefore).calm hwaiting hc.tokens

theorem Served.over (h : Served w) : Over cfg ids w := by
  have hnot : ¬ w.passed = true := by
    rw [h.2]
    exact Bool.false_ne_true
  exact ⟨fun _ => h.1, fun hpassed => absurd hpassed hnot, fun hpassed => absurd hpassed hnot⟩

theorem Over.calm (h : Over cfg ids w) (hc : Calm w w') : Over cfg ids w' := by
  refine ⟨?_, ?_, ?_⟩
  · intro hpassed
    rcases hc.counted with ⟨hwaiting, hsame⟩ | ⟨hzero, -⟩
    · rw [hwaiting]
      exact h.waiting (hsame.symm.trans hpassed)
    · exact hzero
  · intro hpassed
    rw [allowance_congr hc.tokens]
    exact h.short (hc.counted.passed hpassed).1
  · intro hpassed
    obtain ⟨hbefore, hwaiting⟩ := hc.counted.passed hpassed
    exact (h.lacks hbefore).calm hwaiting hc.tokens

/-- A neighbour that follows takes nothing. -/
theorem Over.turn (hrate : 0 < cfg.rate) (h : Over cfg ids w) (hw : 0 ≤ w.tokens)
    (ht : Turn cfg w w') : Over cfg ids w' := by
  have hsame : w'.passed = true → w'.tokens = w.tokens := by
    intro hpassed
    rcases ht.reserve hpassed with hsame | hleft
    · exact hsame
    · have hshort := h.short (ht.counted.passed hpassed).1
      have hmarker : cfg.marker.length ≤ w.allowance cfg :=
        (le_allowance_iff hrate hw).mpr (hleft.trans ht.tokens)
      omega
  by_cases hpassed : w'.passed = true
  · exact h.calm ⟨hsame hpassed, ht.counted⟩
  · refine ⟨fun hnot => ?_, fun hp => absurd hp hpassed, fun hp => absurd hp hpassed⟩
    rcases ht.counted with ⟨hwaiting, hkept⟩ | ⟨hzero, -⟩
    · rw [hwaiting]
      exact h.waiting (hkept.symm.trans hnot)
    · exact hzero

/-- At its cap, an execution that still waits was passed over. -/
def Flagged (cfg : PublisherConfig) (cursor : Nat) (w : Watched) : Prop :=
  atCap cfg cursor = true → w.allowance cfg < cfg.marker.length → w.passed = true ∨ Served w

theorem Flagged.calm {cursor : Nat} (h : Flagged cfg cursor w) (hc : Calm w w') :
    Flagged cfg cursor w' := by
  intro hcap hshort
  rw [allowance_congr hc.tokens] at hshort
  rcases hc.counted with ⟨hwaiting, hsame⟩ | hserved
  · exact (h hcap hshort).imp (fun hpassed => hsame.trans hpassed)
      fun hserved => ⟨hwaiting.trans hserved.1, hsame.trans hserved.2⟩
  · exact .inr hserved

/-- The publisher reads the execution's cursor: here its turn is noted. -/
theorem safely_ownCursor {Q : Except LogIoError Nat → Watched → Prop}
    (hdue : Due cfg ids w)
    (h : ∀ w₂, Due cfg ids w₂ → Inv cfg e ids w₂ → w₂.tokens = w.tokens →
      Flagged cfg (cursorOf e w₂.agent) w₂ → (Served w → Over cfg ids w₂) →
      Q (.ok (cursorOf e w₂.agent)) w₂) :
    Safely cfg e ids (LogOp.call (.readCursor e)) Q w := by
  refine safely_call fun w₁ hr hinv x hpre r a hp => ?_
  obtain rfl := (Prod.ext_iff.mp (Option.some.inj hp)).2
  obtain rfl := (Prod.ext_iff.mp (Option.some.inj hp)).1
  have hdue₁ := hdue.calm hr.calm
  have hcursor : w₁.agent.readCursor e x.fault = cursorOf e w₁.agent := if_pos (hpre rfl)
  have hbounds := And.intro hinv.nonneg hinv.le
  show Inv cfg e ids ((w₁.record cfg e (.readCursor e) true w₁.agent).settle cfg e) ∧
    Q (.ok (w₁.agent.readCursor e x.fault))
      ((w₁.record cfg e (.readCursor e) true w₁.agent).settle cfg e)
  rw [hcursor]
  by_cases hflag : owesMarker cfg e w₁.agent = true ∧ w₁.allowance cfg < cfg.marker.length
  · -- it owes its marker, and the bucket does not hold it
    have howes : owes cfg e w₁.agent = true := by
      rw [owes, hflag.1]
      rfl
    have hrecord : (w₁.record cfg e (.readCursor e) true w₁.agent).settle cfg e
        = { w₁ with passed := true } := by
      have hset : w₁.record cfg e (.readCursor e) true w₁.agent = { w₁ with passed := true } :=
        if_pos ⟨rfl, hflag⟩
      rw [hset]
      exact if_pos howes
    have hlacks : Lacks cfg ids { w₁ with passed := true } := by
      show w₁.waiting + (cfg.marker.length - w₁.allowance cfg) < _
      have hroom := hdue₁.room
      cases hpassed : w₁.passed with
      | true => exact hdue₁.lacks hpassed
      | false =>
          have hwaiting := hdue₁.waiting hpassed
          omega
    rw [hrecord]
    have hinv₂ : Inv cfg e ids { w₁ with passed := true } :=
      ⟨hinv.scanned, hinv.nonneg, hinv.le, hinv.waiting, .inl howes, hinv.followed⟩
    refine ⟨hinv₂, h { w₁ with passed := true }
      ⟨hdue₁.room, fun hnot => Bool.noConfusion hnot, fun _ => hlacks⟩ hinv₂
      hr.calm.tokens (fun _ _ => .inl rfl) fun _ => ?_⟩
    exact ⟨fun hnot => Bool.noConfusion hnot, fun _ => hflag.2, fun _ => hlacks⟩
  · have hset : w₁.record cfg e (.readCursor e) true w₁.agent = w₁ :=
      if_neg fun hall => hflag hall.2
    rw [hset]
    have hcalm : Calm w₁ (w₁.settle cfg e) := by
      refine ⟨?_, settle_counted _⟩
      rw [Watched.tokens, settle_agent]
    have hcap : cursorOf e (w₁.settle cfg e).agent = cursorOf e w₁.agent := by
      rw [settle_agent]
    have hinv₂ : Inv cfg e ids (w₁.settle cfg e) := by
      refine ⟨?_, ?_, ?_, hcalm.counted.waiting_mono.trans hinv.waiting, ?_, ?_⟩
      · rw [settle_agent]
        exact hinv.scanned
      · rw [hcalm.tokens]
        exact hinv.nonneg
      · rw [hcalm.tokens]
        exact hinv.le
      · rw [settle_agent]
        exact hinv.settled.imp_right hcalm.counted.served
      · rw [settle_unfollowed]
        exact hinv.followed
    rw [← hcap]
    refine ⟨hinv₂, h _ (hdue₁.calm hcalm) hinv₂ (hcalm.tokens.trans hr.calm.tokens) ?_ ?_⟩
    · intro hatCap hshort
      rw [allowance_congr hcalm.tokens] at hshort
      rw [hcap] at hatCap
      -- it is not tailed, so it owes nothing
      have htail : tailable e w₁.agent = false := by
        cases htail : tailable e w₁.agent with
        | false => rfl
        | true => exact absurd ⟨by rw [owesMarker, htail, hatCap]; rfl, hshort⟩ hflag
      have hnone : owes cfg e w₁.agent = false := by
        rw [owes, owesMarker, owesContent, htail]
        rfl
      exact .inr (settle_served hnone)
    · intro hserved
      exact ((hr.calm.trans hcalm).counted.served hserved).over

/-- From here on the turn is only to be ended. -/
abbrev Ends (cfg : PublisherConfig) (e : ExecutionId) (ids : List ExecutionId) {α : Type}
    (p : LogProg α) (w : Watched) : Prop :=
  Safely cfg e ids p (fun _ w' => Over cfg ids w') w

/-- What plays on from where the execution was served ends its turn. -/
theorem Served.ends {α : Type} {p : LogProg α} (h : Served w) (hp : Plays cfg e ids w p w) :
    Ends cfg e ids p w :=
  hp.mono fun _ _ ht => (ht.counted.served h).over

/-- A round that finds nothing to read has nothing to send. -/
theorem served_of_readRaw (hinv : Inv cfg e ids w) {cursor want : Nat} {fault : Prog.Fault}
    (hcursor : cursor = cursorOf e w.agent) (hcap : atCap cfg cursor = false) (hwant : 0 < want)
    (hfault : fault = .none) (hraw : w.agent.readRaw e cursor want fault = []) : Served w := by
  refine hinv.settled.resolve_left fun howes => ?_
  have hlen : (w.agent.jobLogs e).length ≤ cursor := by
    rw [LogAgent.readRaw, if_pos hfault, List.take_eq_nil_iff, List.drop_eq_nil_iff] at hraw
    exact hraw.resolve_left (Nat.ne_of_gt hwant)
  rw [hcursor] at hlen hcap
  rw [owes, owesMarker, owesContent, hcap, decide_eq_false (Nat.not_lt_of_le hlen)] at howes
  simp at howes

/-- **The execution's own tail loop**: it sends, or it is passed over. -/
theorem tailLoop_ends (hrate : 0 < cfg.rate) (hmax : 0 < cfg.maxBytes) {fuel : Nat}
    {state : AttemptState} {cursor total : Nat} (hdue : Due cfg ids w)
    (hflag : Flagged cfg cursor w) (hcursor : cursor = cursorOf e w.agent)
    (hfuel : w.allowance cfg < fuel) :
    Ends cfg e ids (tailLoop cfg e fuel state cursor total) w := by
  obtain - | fuel := fuel
  · exact absurd hfuel (Nat.not_lt_zero _)
  refine safely_bind (safely_calm trivial fun w₁ _ r w₂ hr₁ _ _ hp hcalm₁ hinv₂ => ?_)
  obtain rfl : Except.ok (w₁.allowance cfg) = r := (Prod.ext_iff.mp (Option.some.inj hp)).1
  have hagent : w₁.agent = w₂.agent := (Prod.ext_iff.mp (Option.some.inj hp)).2
  have hcalm := hr₁.calm.trans hcalm₁
  have hallowance : w₁.allowance cfg = w₂.allowance cfg := (allowance_congr hcalm₁.tokens).symm
  have hdue₂ := hdue.calm hcalm
  have hflag₂ := hflag.calm hcalm
  have hcursor₂ : cursor = cursorOf e w₂.agent := by
    rw [hcursor, ← hr₁.cursor, hagent]
  rw [← allowance_congr hcalm.tokens] at hfuel
  show Ends cfg e ids (if w₁.allowance cfg = 0 then _ else _) w₂
  rw [hallowance, if_neg (Nat.ne_of_gt hdue₂.room)]
  split
  · rename_i hcap
    split
    · -- the marker does not fit
      rename_i hnot
      have hshort : w₂.allowance cfg < cfg.marker.length := by
        rw [PublisherConfig.markerAllowed, Bool.or_eq_false_iff, decide_eq_false_iff_not] at hnot
        exact Nat.lt_of_not_le hnot.2
      rcases hflag₂ (decide_eq_true hcap) hshort with hpassed | hserved
      · exact ⟨fun hfalse => absurd (hpassed.symm.trans hfalse) (by simp), fun _ => hshort,
          hdue₂.lacks⟩
      · exact hserved.over
    · rename_i hallowed
      have hmarker : cfg.marker.length ≤ w₂.allowance cfg :=
        PublisherConfig.le_of_markerAllowed hrate (Bool.not_eq_false _ ▸ hallowed)
      refine safely_bind (safely_bind (safely_slice
        ((le_allowance_iff hrate hinv₂.nonneg).mp hmarker) ?_ ?_))
      · intro w₃ _ _ hserved hsent
        refine (hserved rfl).ends (plays_calm trivial (Turn.refl w₃) fun _ w₄ hcalm₄ hw₄ => ?_)
        have hsent₄ := hsent.stable hcalm₄
        exact plays_spend hrate hw₄ hsent₄.reserve hsent₄.room fun w₅ hw₅ _ _ => hw₅
      · intro err w₃ _ hother
        exact absurd rfl hother
  · rename_i hcap
    have hnotCap : atCap cfg cursor = false := decide_eq_false hcap
    have hwant : 0 < cfg.want (w₂.allowance cfg) cursor := by
      have hroom := hdue₂.room
      unfold PublisherConfig.want
      dsimp only
      split
      · rename_i hpos
        have hlt : cursor < cfg.contentCap := by
          by_contra hle
          exact hcap ⟨hpos, Nat.le_of_not_lt hle⟩
        omega
      · omega
    refine safely_bind (safely_calm trivial fun w₃ x r w₄ hr₃ hinv₃ hpre hp hcalm₄ hinv₄ => ?_)
    obtain rfl := (Prod.ext_iff.mp (Option.some.inj hp)).1
    have hcalm₂ : Calm w₂ w₄ := hr₃.calm.trans hcalm₄
    have hempty := served_of_readRaw hinv₃ (hcursor₂.trans hr₃.cursor.symm) hnotCap hwant (hpre rfl)
    have hlen : (w₃.agent.readRaw e cursor (cfg.want (w₂.allowance cfg) cursor)
        x.fault).length ≤ w₂.allowance cfg :=
      (LogAgent.length_readRaw_le _ _ _ _ _).trans (cfg.want_le _ _)
    generalize w₃.agent.readRaw e cursor _ x.fault = raw at hlen hempty
    show Ends cfg e ids (if raw = [] then _ else _) w₄
    split
    · rename_i hnil
      exact (hcalm₄.counted.served (hempty hnil)).over
    · rename_i hne
      have hroom : (raw.length : Rat) ≤ w₄.tokens := by
        rw [hcalm₂.tokens]
        exact (le_allowance_iff hrate hinv₂.nonneg).mp hlen
      refine safely_bind (safely_slice hroom ?_ ?_)
      · intro w₅ hcalm₅ hinv₅ hserved hsent
        refine (hserved rfl).ends (plays_calm trivial (Turn.refl w₅) fun _ w₆ hcalm₆ hw₆ => ?_)
        have hsent₆ := hsent.stable hcalm₆
        refine plays_spend hrate hw₆ hsent₆.reserve hsent₆.room fun w₇ hw₇ hinv₇ htokens => ?_
        show Plays cfg e ids w₅ (if raw.length < _ then _ else _) w₇
        split
        · exact hw₇
        · refine tailLoop_plays hrate fuel hw₇ ?_
          have hpos : 0 < raw.length := List.length_pos_iff.mpr hne
          have hsum : w₇.allowance cfg + raw.length ≤ w₂.allowance cfg := by
            refine allowance_add_le hrate hinv₂.nonneg hinv₇.nonneg ?_
            rw [htokens, hcalm₆.tokens, hcalm₅.tokens, hcalm₂.tokens]
          omega
      · intro err w₅ _ hother
        exact absurd rfl hother

theorem exit_ends (exit : TailExit) (h : Over cfg ids w) :
    Ends cfg e ids (match exit with
      | .aborted total => (return total : LogProg Nat)
      | .stopped state cursor total => do
          publishEof cfg state e cursor
          return total) w :=
  (exit_calm exit w).mono fun _ _ hcalm => h.calm hcalm

/-- **The execution's turn.** -/
theorem publishAttempt_ends (hrate : 0 < cfg.rate) (hmax : 0 < cfg.maxBytes) {fuel : Nat}
    (hdue : Due cfg ids w) (hfuel : w.allowance cfg < fuel) :
    Ends cfg e ids (publishAttempt cfg fuel e) w := by
  refine safely_bind (safely_calm trivial fun w₁ _ r w₂ hr₁ _ _ hp hcalm₁ hinv₂ => ?_)
  obtain rfl := (Prod.ext_iff.mp (Option.some.inj hp)).1
  have hagent : w₁.agent = w₂.agent := (Prod.ext_iff.mp (Option.some.inj hp)).2
  have hcalm := hr₁.calm.trans hcalm₁
  have hdue₂ := hdue.calm hcalm
  rw [← allowance_congr hcalm.tokens] at hfuel
  -- an execution that is not tailed owes nothing
  have hidle : tailable e w₁.agent = false → Served w₂ := by
    intro htail
    refine hinv₂.settled.resolve_left ?_
    rw [← hagent, owes, owesMarker, owesContent, htail]
    exact Bool.false_ne_true
  cases hread : w₁.agent.store.read e with
  | none =>
      refine Served.over (hidle ?_)
      rw [tailable, hread]
      rfl
  | some state =>
      show Ends cfg e ids (if state.logPath = "" then _ else _) w₂
      split
      · rename_i hpath
        refine Served.over (hidle ?_)
        rw [tailable, hread, Option.any_some, decide_eq_false (not_not.mpr hpath)]
        rfl
      · refine safely_bind (safely_ownCursor hdue₂ fun w₃ hdue₃ hinv₃ htokens hflag hserved => ?_)
        rw [← allowance_congr htokens] at hfuel
        show Ends cfg e ids (if state.logCapped = true then _ else _) w₃
        split
        · rename_i hcapped
          refine exit_ends (.stopped state _ 0) (hserved (hidle ?_))
          rw [tailable, hread, Option.any_some, hcapped]
          exact Bool.and_false _
        · refine safely_bind ((tailLoop_ends hrate hmax hdue₃ hflag rfl hfuel).mono ?_)
          rintro (err | exit) w₄ hover
          · exact hover
          · exact exit_ends exit hover

end Owner

/-! ### A tick -/

section Ticks

variable {cfg : PublisherConfig} {e : ExecutionId} {ids : List ExecutionId}
variable {w w' w₀ w₁ w₂ : Watched}

/-- Between two ticks. -/
structure Rests (cfg : PublisherConfig) (e : ExecutionId) (ids : List ExecutionId) (w : Watched) :
    Prop where
  /-- The start has not yet come round to it. -/
  turn : w.passed = false →
    w.waiting + (ids.rotate w.agent.memory.rotateFrom).idxOf e < ids.length
  short : w.passed = true → w.allowance cfg < cfg.marker.length
  lacks : w.passed = true → Lacks cfg ids w

theorem idxOf_rotate_lt (he : e ∈ ids) (n : Nat) : (ids.rotate n).idxOf e < ids.length := by
  have hmem : e ∈ ids.rotate n := List.mem_rotate.mpr he
  have hlt := List.idxOf_lt_length_of_mem hmem
  rwa [List.length_rotate] at hlt

/-- After its turn the start may be anywhere. -/
theorem Over.rests (h : Over cfg ids w) (he : e ∈ ids) : Rests cfg e ids w := by
  refine ⟨fun hpassed => ?_, h.short, h.lacks⟩
  rw [h.waiting hpassed, Nat.zero_add]
  exact idxOf_rotate_lt he _

/-- The execution's turn in the scan is still to come, `gone` others from the start on. -/
structure Awaits (cfg : PublisherConfig) (e : ExecutionId) (ids rest : List ExecutionId)
    (gone : Nat) (w : Watched) : Prop where
  turn : w.passed = false → w.waiting + gone + rest.idxOf e ≤ ids.length
  room : gone = 0 ∨ w.passed = true → 1 ≤ w.allowance cfg
  lacks : w.passed = true → Lacks cfg ids w

theorem Awaits.calm {rest : List ExecutionId} {gone : Nat} (h : Awaits cfg e ids rest gone w)
    (hbound : gone + rest.idxOf e ≤ ids.length) (hc : Calm w w') :
    Awaits cfg e ids rest gone w' := by
  refine ⟨fun hnot => ?_, fun hwhen => ?_, fun hpassed => ?_⟩
  · rcases hc.counted with ⟨hwaiting, hsame⟩ | ⟨hzero, -⟩
    · rw [hwaiting]
      exact h.turn (hsame.symm.trans hnot)
    · omega
  · rw [allowance_congr hc.tokens]
    exact h.room (hwhen.imp_right fun hpassed => (hc.counted.passed hpassed).1)
  · obtain ⟨hbefore, hwaiting⟩ := hc.counted.passed hpassed
    exact (h.lacks hbefore).calm hwaiting hc.tokens

/-- A neighbour's turn brings its own nearer. -/
theorem Awaits.turn_next (hrate : 0 < cfg.rate) (hmarker : 0 < cfg.marker.length)
    {e' : ExecutionId} {rest : List ExecutionId} {gone : Nat} (hne : e' ≠ e)
    (h : Awaits cfg e ids (e' :: rest) gone w)
    (hbound : gone + (e' :: rest).idxOf e ≤ ids.length)
    (ht : Turn cfg w w') : Awaits cfg e ids rest (gone + 1) w' := by
  have hidx : (e' :: rest).idxOf e = rest.idxOf e + 1 := List.idxOf_cons_ne _ hne
  -- the tokens of its marker are still there
  have hleft : w'.passed = true → w'.tokens = w.tokens ∨ cfg.marker.length ≤ w'.allowance cfg := by
    intro hpassed
    refine (ht.reserve hpassed).imp_right fun hle => ?_
    exact (le_allowance_iff hrate ((Nat.cast_nonneg _).trans hle)).mpr hle
  refine ⟨fun hnot => ?_, fun hwhen => ?_, fun hpassed => ?_⟩
  · rcases ht.counted with ⟨hwaiting, hsame⟩ | ⟨hzero, -⟩
    · have hturn := h.turn (hsame.symm.trans hnot)
      omega
    · omega
  · have hpassed : w'.passed = true := hwhen.resolve_left (Nat.succ_ne_zero gone)
    rcases hleft hpassed with hsame | hroom
    · rw [allowance_congr hsame]
      exact h.room (.inr (ht.counted.passed hpassed).1)
    · omega
  · obtain ⟨hbefore, hwaiting⟩ := ht.counted.passed hpassed
    have hlacks := h.lacks hbefore
    rcases hleft hpassed with hsame | hroom
    · exact hlacks.calm hwaiting hsame
    · unfold Lacks at hlacks ⊢
      omega

/-- Its turn has come. -/
theorem Awaits.due {rest : List ExecutionId} {gone : Nat} (h : Awaits cfg e ids rest gone w)
    (hroom : 1 ≤ w.allowance cfg) : Due cfg ids w := by
  refine ⟨hroom, fun hnot => ?_, h.lacks⟩
  have hturn := h.turn hnot
  omega

/-- The start moves to where the scan has stopped. -/
theorem idxOf_rotate_stop {gone rest : List ExecutionId} {start : Nat}
    (hsplit : ids.rotate start = gone ++ rest) (he : e ∈ rest) :
    (ids.rotate ((start + gone.length) % ids.length)).idxOf e = rest.idxOf e := by
  rw [List.rotate_mod, ← List.rotate_rotate, hsplit, List.rotate_append_length_eq,
    List.idxOf_append_of_mem he]

/-- The rule of the position that the next tick starts from. -/
theorem safely_setRotateFrom {n : Nat} {Q : Except LogIoError Unit → Watched → Prop}
    (h : ∀ w₂, Calm w w₂ → w₂.agent.memory.rotateFrom = n → Q (.ok ()) w₂) :
    Safely cfg e ids (LogOp.call (.setRotateFrom n)) Q w := by
  refine safely_call fun w₁ hr hinv x _ r a hp => ?_
  cases hp
  have hcounted : Counted w₁ ((w₁.record cfg e (.setRotateFrom n) true
      { w₁.agent with memory := { w₁.agent.memory with rotateFrom := n } }).settle cfg e) :=
    Counted.trans (.inl ⟨rfl, rfl⟩) (settle_counted _)
  have hinv₂ : Inv cfg e ids ((w₁.record cfg e (.setRotateFrom n) true
      { w₁.agent with memory := { w₁.agent.memory with rotateFrom := n } }).settle cfg e) :=
    hinv.record rfl ⟨hinv.nonneg, hinv.le⟩ (hcounted.waiting_mono.trans hinv.waiting) hinv.followed
  refine ⟨hinv₂, h _ (hr.calm.trans ⟨?_, hcounted⟩) ?_⟩
  · rw [Watched.tokens, settle_agent, record_agent]
  · rw [settle_agent, record_agent]

/-- The bucket allows no more than it holds. -/
theorem allowance_le (hrate : 0 < cfg.rate) (hinv : Inv cfg e ids w) :
    w.allowance cfg ≤ 2 * cfg.rate := by
  have hle := ((le_allowance_iff hrate hinv.nonneg).mp (Nat.le_refl _)).trans hinv.le
  exact_mod_cast hle

/-- **The scan**, by induction on the executions that are left of it. -/
theorem publishScan_rests (hrate : 0 < cfg.rate) (hmax : 0 < cfg.maxBytes)
    (hmarker : 0 < cfg.marker.length) (he : e ∈ ids) {fuel : Nat} (hfuel : 2 * cfg.rate < fuel)
    {start : Nat} {gone rest : List ExecutionId} (hsplit : ids.rotate start = gone ++ rest)
    (hnodup : ids.Nodup) {total : Nat}
    (hawaits : e ∈ rest → Awaits cfg e ids rest gone.length w)
    (hover : e ∉ rest → Over cfg ids w) :
    Safely cfg e ids (publishScan cfg fuel start ids.length rest gone.length total)
      (fun _ w' => Rests cfg e ids w') w := by
  induction rest generalizing gone total w with
  | nil =>
      refine safely_bind (safely_setRotateFrom fun w₁ hcalm _ => ?_)
      exact ((hover List.not_mem_nil).calm hcalm).rests he
  | cons e' rest ih =>
      have hlen : gone.length + (rest.length + 1) = ids.length := by
        rw [← List.length_rotate ids start, hsplit, List.length_append, List.length_cons]
      have hbound : gone.length + (e' :: rest).idxOf e ≤ ids.length := by
        have hidx : (e' :: rest).idxOf e ≤ (e' :: rest).length := List.idxOf_le_length
        rw [List.length_cons] at hidx
        omega
      refine safely_bind (safely_calm trivial fun w₁ _ r w₂ hr₁ _ _ hp hcalm₁ hinv₂ => ?_)
      obtain rfl : Except.ok (w₁.allowance cfg) = r := (Prod.ext_iff.mp (Option.some.inj hp)).1
      have hcalm := hr₁.calm.trans hcalm₁
      have hallowance : w₁.allowance cfg = w₂.allowance cfg := (allowance_congr hcalm₁.tokens).symm
      show Safely cfg e ids (if w₁.allowance cfg = 0 then _ else _) _ w₂
      rw [hallowance]
      split
      · -- the bucket is dry, and the next tick starts here
        rename_i hdry
        refine safely_bind (safely_setRotateFrom fun w₃ hcalm₃ hrotate => ?_)
        by_cases hmem : e ∈ e' :: rest
        · have h₃ := (hawaits hmem).calm hbound (hcalm.trans hcalm₃)
          have hnone : ¬ (gone.length = 0 ∨ w₃.passed = true) := by
            intro hwhen
            have hroom := h₃.room hwhen
            rw [allowance_congr hcalm₃.tokens, hdry] at hroom
            exact Nat.not_succ_le_zero 0 hroom
          obtain ⟨hsome, hpassed⟩ := not_or.mp hnone
          refine ⟨fun hnot => ?_, fun hp => absurd hp hpassed, fun hp => absurd hp hpassed⟩
          rw [hrotate, idxOf_rotate_stop hsplit hmem]
          have hturn := h₃.turn hnot
          omega
        · exact ((hover hmem).calm (hcalm.trans hcalm₃)).rests he
      · rename_i hroom
        have hnext : ids.rotate start = (gone ++ [e']) ++ rest := by
          rw [hsplit, List.append_assoc]
          rfl
        have hlength : gone.length + 1 = (gone ++ [e']).length := by
          rw [List.length_append, List.length_singleton]
        have hfuel₂ : w₂.allowance cfg < fuel :=
          Nat.lt_of_le_of_lt (allowance_le hrate hinv₂) hfuel
        have hdisjoint : e' ∉ rest := by
          have hall : (gone ++ e' :: rest).Nodup := hsplit ▸ List.nodup_rotate.mpr hnodup
          exact (List.nodup_cons.mp hall.of_append_right).1
        rw [hlength]
        -- what an attempt leaves, however it ends, the scan goes on from
        have hgo : ∀ (published : Nat) (w₃ : Watched),
            (e ∈ rest → Awaits cfg e ids rest (gone ++ [e']).length w₃) →
            (e ∉ rest → Over cfg ids w₃) →
            Safely cfg e ids (publishScan cfg fuel start ids.length rest (gone ++ [e']).length
              (total + published)) (fun _ w' => Rests cfg e ids w') w₃ :=
          fun published w₃ hawaits₃ hover₃ => ih hnext hawaits₃ hover₃
        refine safely_bind (Prog.safe_tryCatch.mpr ?_)
        by_cases heq : e' = e
        · subst heq
          have hdue : Due cfg ids w₂ :=
            ((hawaits List.mem_cons_self).calm hbound hcalm).due (Nat.pos_of_ne_zero hroom)
          refine (publishAttempt_ends hrate hmax hdue hfuel₂).mono ?_
          rintro (err | published) w₃ hover₃
          · exact hgo 0 w₃ (fun hmem => absurd hmem hdisjoint) fun _ => hover₃
          · exact hgo published w₃ (fun hmem => absurd hmem hdisjoint) fun _ => hover₃
        · refine (publishAttempt_plays hrate heq hfuel₂ (Turn.refl w₂)).mono ?_
          have hthen : ∀ w₃, Turn cfg w₂ w₃ →
              (e ∈ rest → Awaits cfg e ids rest (gone ++ [e']).length w₃) ∧
                (e ∉ rest → Over cfg ids w₃) := by
            intro w₃ hturn
            refine ⟨fun hmem => ?_, fun hmem => ?_⟩
            · rw [← hlength]
              exact ((hawaits (List.mem_cons_of_mem _ hmem)).calm hbound hcalm).turn_next hrate
                hmarker heq hbound hturn
            · have hnot : e ∉ e' :: rest := by
                rw [List.mem_cons, not_or]
                exact ⟨Ne.symm heq, hmem⟩
              exact ((hover hnot).calm hcalm).turn hrate hinv₂.nonneg hturn
          rintro (err | published) w₃ hturn
          · exact hgo 0 w₃ (hthen w₃ hturn).1 (hthen w₃ hturn).2
          · exact hgo published w₃ (hthen w₃ hturn).1 (hthen w₃ hturn).2

theorem Rests.rely (h : Rests cfg e ids w) (he : e ∈ ids) (hr : Rely e w w') :
    Rests cfg e ids w' := by
  refine ⟨fun hnot => ?_, fun hpassed => ?_, fun hpassed => ?_⟩
  · rw [hr.rotation]
    rcases hr.calm.counted with ⟨hwaiting, hsame⟩ | ⟨hzero, -⟩
    · rw [hwaiting]
      exact h.turn (hsame.symm.trans hnot)
    · rw [hzero, Nat.zero_add]
      exact idxOf_rotate_lt he _
  · rw [allowance_congr hr.calm.tokens]
    exact h.short (hr.calm.counted.passed hpassed).1
  · obtain ⟨hbefore, hwaiting⟩ := hr.calm.counted.passed hpassed
    exact (h.lacks hbefore).calm hwaiting hr.calm.tokens

/-- The bucket behind a refill that brings a token. -/
theorem le_refill {now : Rat} (hrate : 0 < cfg.rate)
    (hgain : 1 ≤ (now - w.agent.memory.lastRefill) * cfg.rate) {n : Nat} (hcap : n ≤ 2 * cfg.rate)
    (hn : (n : Rat) ≤ w.tokens + 1) : (n : Rat) ≤ (w.agent.memory.refill cfg now).tokens := by
  rw [PublisherMemory.refill, if_neg (Nat.ne_of_gt hrate)]
  refine le_min ?_ ?_
  · have hcast : (n : Rat) ≤ ((2 * cfg.rate : Nat) : Rat) := Nat.cast_le.mpr hcap
    rw [PublisherConfig.bucketCapacity]
    push_cast at hcast
    linarith
  · have hmax : (now - w.agent.memory.lastRefill) * cfg.rate
        ≤ max 0 (now - w.agent.memory.lastRefill) * cfg.rate :=
      mul_le_mul_of_nonneg_right (le_max_right _ _) (Nat.cast_nonneg _)
    have htokens : w.agent.memory.tokens = w.tokens := rfl
    rw [htokens]
    linarith

/-- A refill begins a tick. -/
theorem safely_refill (hrate : 0 < cfg.rate) (hmarker : 0 < cfg.marker.length)
    (haccept : cfg.marker.length ≤ 2 * cfg.rate) (he : e ∈ ids)
    {Q : Except LogIoError Unit → Watched → Prop} (hrests : Rests cfg e ids w)
    (h : ∀ w₂, w₂.agent.memory.rotateFrom = w.agent.memory.rotateFrom → Inv cfg e ids w₂ →
      Awaits cfg e ids (ids.rotate w.agent.memory.rotateFrom) 0 w₂ → Q (.ok ()) w₂) :
    Safely cfg e ids (LogOp.call .refill) Q w := by
  refine safely_call fun w₁ hr hinv x hgain r a hp => ?_
  cases hp
  have hrests₁ := hrests.rely he hr
  rw [← hr.rotation] at h
  show Inv cfg e ids ((w₁.record cfg e .refill true
      { w₁.agent with memory := w₁.agent.memory.refill cfg x.now }).settle cfg e) ∧
    Q (.ok ()) ((w₁.record cfg e .refill true
      { w₁.agent with memory := w₁.agent.memory.refill cfg x.now }).settle cfg e)
  generalize hw' : w₁.record cfg e .refill true
    { w₁.agent with memory := w₁.agent.memory.refill cfg x.now } = w'
  have hagent : w'.agent = { w₁.agent with memory := w₁.agent.memory.refill cfg x.now } := by
    rw [← hw', record_agent]
  have hwaiting : w'.waiting = w₁.waiting + 1 := by
    rw [← hw']
    rfl
  have hpassed : w'.passed = w₁.passed := by
    rw [← hw']
    rfl
  have htokens : w'.tokens = (w₁.agent.memory.refill cfg x.now).tokens := by
    rw [Watched.tokens, hagent]
  have hbounds : 0 ≤ w'.tokens ∧ w'.tokens ≤ 2 * cfg.rate := by
    rw [htokens]
    refine ⟨?_, ?_⟩
    · have hzero := le_refill (n := 0) hrate hgain (Nat.zero_le _) (by
        have hnonneg := hinv.nonneg
        rw [Nat.cast_zero]
        linarith)
      exact_mod_cast hzero
    · rw [PublisherMemory.refill, if_neg (Nat.ne_of_gt hrate), mul_comm (2 : Rat)]
      exact min_le_left _ _
  have hroom : ∀ n : Nat, n ≤ 2 * cfg.rate → (n : Rat) ≤ w₁.tokens + 1 → n ≤ w'.allowance cfg := by
    intro n hcap hn
    rw [le_allowance_iff hrate hbounds.1, htokens]
    exact le_refill hrate hgain hcap hn
  have hone : 1 ≤ w'.allowance cfg := by
    refine hroom 1 (by omega) ?_
    have hnonneg := hinv.nonneg
    rw [Nat.cast_one]
    linarith
  have hawaits : Awaits cfg e ids (ids.rotate w₁.agent.memory.rotateFrom) 0 w' := by
    refine ⟨fun hnot => ?_, fun _ => hone, fun hp' => ?_⟩
    · have hturn := hrests₁.turn (hpassed.symm.trans hnot)
      rw [hwaiting]
      omega
    · rw [hpassed] at hp'
      have hshort := hrests₁.short hp'
      have hlacks := hrests₁.lacks hp'
      have hmore : w₁.allowance cfg + 1 ≤ w'.allowance cfg := by
        refine hroom _ (by omega) ?_
        have hle := (le_allowance_iff hrate hinv.nonneg).mp (Nat.le_refl (w₁.allowance cfg))
        rw [Nat.cast_add, Nat.cast_one]
        linarith
      unfold Lacks at hlacks ⊢
      rw [hwaiting]
      omega
  have hcalm : Calm w' (w'.settle cfg e) := by
    refine ⟨?_, settle_counted _⟩
    rw [Watched.tokens, settle_agent]
  have hbound : 0 + (ids.rotate w₁.agent.memory.rotateFrom).idxOf e ≤ ids.length := by
    rw [Nat.zero_add]
    exact Nat.le_of_lt (idxOf_rotate_lt he _)
  have hmost : w'.waiting ≤ ids.length + cfg.marker.length := by
    cases hp' : w'.passed with
    | false =>
        have hturn := hawaits.turn hp'
        omega
    | true =>
        have hlacks := hawaits.lacks hp'
        unfold Lacks at hlacks
        omega
  have hinv₂ : Inv cfg e ids (w'.settle cfg e) := by
    rw [← hw'] at hmost hbounds hcalm ⊢
    refine hinv.record rfl ?_ (hcalm.counted.waiting_mono.trans hmost) hinv.followed
    rw [Watched.tokens, record_agent] at hbounds
    exact hbounds
  refine ⟨hinv₂, h _ ?_ hinv₂ (hawaits.calm hbound hcalm)⟩
  rw [settle_agent, hagent, PublisherMemory.refill, if_neg (Nat.ne_of_gt hrate)]

/-- **A tick.** -/
theorem publishOnce_rests (hrate : 0 < cfg.rate) (hmax : 0 < cfg.maxBytes)
    (hmarker : 0 < cfg.marker.length) (haccept : cfg.marker.length ≤ 2 * cfg.rate) (he : e ∈ ids)
    (hnodup : ids.Nodup) {fuel : Nat} (hfuel : 2 * cfg.rate < fuel) (hrests : Rests cfg e ids w) :
    Safely cfg e ids (publishOnce cfg fuel) (fun _ w' => Rests cfg e ids w') w := by
  refine safely_bind (safely_refill hrate hmarker haccept he hrests fun w₁ hrotate₁ hinv₁ h₁ => ?_)
  have hbound : ∀ n, 0 + (ids.rotate n).idxOf e ≤ ids.length := by
    intro n
    rw [Nat.zero_add]
    exact Nat.le_of_lt (idxOf_rotate_lt he n)
  refine safely_bind (safely_calm trivial fun w₂ _ r w₃ hr₂ hinv₂ _ hp hcalm₃ _ => ?_)
  have hids : w₂.agent.store.listExecutionIds.insertionSort (· ≤ ·) = ids := hinv₂.scanned
  obtain rfl := (Prod.ext_iff.mp (Option.some.inj hp)).1
  have hagent₃ : w₂.agent = w₃.agent := (Prod.ext_iff.mp (Option.some.inj hp)).2
  have hrotate₃ : w₃.agent.memory.rotateFrom = w.agent.memory.rotateFrom := by
    rw [← hagent₃, hr₂.rotation, hrotate₁]
  have h₃ := h₁.calm (hbound _) (hr₂.calm.trans hcalm₃)
  show Safely cfg e ids (if w₂.agent.store.listExecutionIds.insertionSort (· ≤ ·) = [] then _
    else _) _ w₃
  rw [hids, if_neg (List.ne_nil_of_mem he)]
  refine safely_bind (safely_calm trivial fun w₄ _ r w₅ hr₄ _ _ hp hcalm₅ _ => ?_)
  obtain rfl := (Prod.ext_iff.mp (Option.some.inj hp)).1
  have h₅ := h₃.calm (hbound _) (hr₄.calm.trans hcalm₅)
  have hrotate : w₄.agent.memory.rotateFrom = w.agent.memory.rotateFrom :=
    hr₄.rotation.trans hrotate₃
  have hmem : e ∈ ids.rotate w.agent.memory.rotateFrom := List.mem_rotate.mpr he
  have hsplit : ids.rotate (w₄.agent.memory.rotateFrom % ids.length)
      = [] ++ ids.rotate w.agent.memory.rotateFrom := by
    rw [List.rotate_mod, hrotate, List.nil_append]
  have horder : ids.drop (w₄.agent.memory.rotateFrom % ids.length)
      ++ ids.take (w₄.agent.memory.rotateFrom % ids.length)
      = ids.rotate w.agent.memory.rotateFrom := by
    rw [← List.rotate_eq_drop_append_take_mod, hrotate]
  refine safely_bind ?_
  show Safely cfg e ids (publishScan cfg fuel (w₄.agent.memory.rotateFrom % ids.length) ids.length
    (ids.drop (w₄.agent.memory.rotateFrom % ids.length)
      ++ ids.take (w₄.agent.memory.rotateFrom % ids.length)) 0 0) _ w₅
  rw [horder]
  refine (publishScan_rests hrate hmax hmarker he hfuel hsplit hnodup (fun _ => h₅)
    fun hnot => absurd hmem hnot).mono ?_
  rintro (err | total) w₆ hrests₆
  · exact hrests₆
  · exact hrests₆

end Ticks

/-! ### Every run -/

section Runs

variable {cfg : PublisherConfig} {e : ExecutionId} {ids : List ExecutionId} {s s' : State}

theorem nodup_scanned (a : LogAgent) : (scanned a).Nodup :=
  (List.perm_insertionSort _ _).nodup_iff.mpr a.store.nodup

/-- The publisher is a verified system. -/
def verified (cfg : PublisherConfig) (hrate : 0 < cfg.rate) (hmax : 0 < cfg.maxBytes)
    (haccept : cfg.marker.length ≤ 2 * cfg.rate) (he : e ∈ ids) (hnodup : ids.Nodup) :
    Sys.Verified (spec cfg e) (unovertaken cfg e ids) where
  Inv := Inv cfg e ids
  Idle _ := Rests cfg e ids
  rely _ := Rely e
  guar _ _ w' := Inv cfg e ids w'
  rely_refl _ := Rely.refl
  rely_trans _ := Rely.trans
  env_step w a w' hinv ha hw' := by
    obtain rfl := Option.some.inj hw'
    obtain ⟨hinv', hrely⟩ := hinv.beside ha
    exact ⟨hinv', fun _ => hrely⟩
  launch_safe w i fuel p _ hidle hfuel hp := by
    obtain rfl := Option.some.inj hp
    exact publishOnce_rests hrate hmax (Nat.zero_lt_of_lt cfg.one_lt_marker_length) haccept he
      hnodup hfuel hidle
  guar_step _ _ _ _ hguar := ⟨hguar, fun j hj => absurd (Subsingleton.elim j _) hj⟩
  idle_stable _ _ _ hidle hr := hidle.rely he hr
  crash_step _ _ hcrash := hcrash.elim

theorem Start.good (h : Start cfg ids s) (hrate : 0 < cfg.rate) (hmax : 0 < cfg.maxBytes)
    (haccept : cfg.marker.length ≤ 2 * cfg.rate) (he : e ∈ ids) (hnodup : ids.Nodup) :
    (verified cfg hrate hmax haccept he hnodup).Good s := by
  have hserved : Served s.world := ⟨h.waiting, h.passed⟩
  refine ⟨⟨h.scanned, h.tokens.1, h.tokens.2, ?_, .inr hserved, h.followed⟩, fun i => ?_⟩
  · rw [h.waiting]
    exact Nat.zero_le _
  · rw [show s.procs i = none from h.idle]
    exact (Served.over hserved).rests he

/-- **No execution waits for long that is not overtaken.**  Whatever the others write and
however the ticks are spaced, as long as each brings a token: an execution that owes
something sends some of it before more ticks have begun than there are executions and
bytes in the marker, if no neighbour takes the marker's tokens once it was passed over. -/
theorem waiting_le (hrate : 0 < cfg.rate) (haccept : cfg.marker.length ≤ 2 * cfg.rate)
    (hmax : 0 < cfg.maxBytes) (he : e ∈ ids) (hstart : Start cfg ids s)
    (hrun : RunOk (Sys.step (spec cfg e)) (unovertaken cfg e ids).Holds s s') :
    s'.world.waiting ≤ ids.length + cfg.marker.length ∧ s'.world.unfollowed = false := by
  have hnodup : ids.Nodup := hstart.scanned ▸ nodup_scanned s.world.agent
  have hgood := (verified cfg hrate hmax haccept he hnodup).run hrun
    (hstart.good hrate hmax haccept he hnodup)
  exact ⟨hgood.1.waiting, hgood.1.followed⟩

/-- An execution that is tailed. -/
def tailed (e : ExecutionId) : AttemptState where
  taskId := 3
  executionId := e
  logPath := "job.log"

/-- Both executions owe a marker of 55 bytes, and a tick brings 30 tokens. -/
def patientConfig : PublisherConfig where
  agentId := 1
  maxBytes := 100
  cap := 100
  rate := 30

def patient : State where
  world :=
    { agent :=
        { store := (Table.empty.insert 1 (tailed 1)).insert 2 (tailed 2)
          jobLogs := fun _ => List.replicate 45 97
          cursors := fun _ => some 45
          stream := []
          memory := { tokens := 0, lastRefill := 0, rotateFrom := 0, eofSent := [] } }
      waiting := 0
      passed := false
      unfollowed := false }
  procs _ := none

/-- A tick that passes the marker over, and one that sends it. -/
def patientRun : List (Sys.Action Unit LogOp (fun _ => LogAnswer) LogAgent Nat) :=
  .start () 61 :: List.replicate 14 (.op () fun _ => { now := 1 }) ++
    .start () 61 :: List.replicate 17 (.op () fun _ => { now := 2 })

theorem waiting_le_patient : ∃ s', RunOk (Sys.step (spec patientConfig 1))
    (unovertaken patientConfig 1 [1, 2]).Holds patient s' ∧ s'.world.agent.stream.length = 1 ∧
      s'.world.waiting ≤ 2 + patientConfig.marker.length ∧ s'.world.unfollowed = false := by
  obtain ⟨s', hrun, hstream⟩ := RunOk.exists_of_checkedRun (Sys.step (spec patientConfig 1))
    (unovertaken patientConfig 1 [1, 2]).Holds patient patientRun
    (fun s => decide (s.world.agent.stream.length = 1)) (by decide +kernel)
  have hmarker : patientConfig.marker.length ≤ 2 * patientConfig.rate := by decide +kernel
  have hstart : Start patientConfig [1, 2] patient :=
    ⟨rfl, rfl, ⟨le_refl _, mul_nonneg (by norm_num) (Nat.cast_nonneg _)⟩, rfl, rfl, rfl⟩
  exact ⟨s', hrun, of_decide_eq_true hstream,
    waiting_le (by decide) hmarker (by decide) List.mem_cons_self hstart hrun⟩

end Runs

end PublishTurns

end Dopilot
