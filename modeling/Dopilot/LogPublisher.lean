/-
Dopilot/LogPublisher.lean

The agent's log publisher: it tails the local `job.log` of every attempt and
adds the new bytes to the shared log stream.

The durable source is the file itself together with a persisted cursor, which
moves only after the stream took the slice.  What the publisher keeps in memory
(token bucket, rotation, the set of executions whose end was sent) is lost when
the agent restarts.  `publishAttempt` and `publishOnce` are programs over
`LogOp`, so a run may stop after any operation; `LogOp.perform` is what an
operation does to the world, with a fault before or after its effect.
-/
import Dopilot.AgentStore
import Dopilot.Program
import Mathlib

namespace Dopilot

/-! ### Configuration and world -/

/-- The settings of the publisher; 0 disables the cap and the rate. -/
structure PublisherConfig where
  agentId : AgentId
  maxBytes : Nat
  cap : Nat
  rate : Nat
  deriving DecidableEq, Repr

namespace PublisherConfig

variable (cfg : PublisherConfig)

/-- `_marker`. -/
def marker : Bytes :=
  encode ("\n[dopilot:log-truncated max_bytes=" ++ toString cfg.cap ++ " reason=size-cap]\n")

/-- `_content_cap`: what the cap leaves for content beside the marker. -/
def contentCap : Nat := cfg.cap - cfg.marker.length

/-- `_bucket_capacity`: two seconds of quota. -/
def bucketCapacity : Rat := cfg.rate * 2

/-- `_marker_allowed`. -/
def markerAllowed (allowance markerLen : Nat) : Bool :=
  cfg.rate == 0 || decide (markerLen ≤ allowance)

/-- How many bytes the next slice may have. -/
def want (allowance cursor : Nat) : Nat :=
  let budget := min cfg.maxBytes allowance
  if 0 < cfg.cap then min budget (cfg.contentCap - cursor) else budget

theorem want_le (allowance cursor : Nat) : cfg.want allowance cursor ≤ allowance := by
  unfold want
  dsimp only
  split
  · exact (Nat.min_le_left _ _).trans (Nat.min_le_right _ _)
  · exact Nat.min_le_right _ _

/-- A marker that is allowed has its tokens. -/
theorem le_of_markerAllowed {cfg : PublisherConfig} (hrate : 0 < cfg.rate)
    {allowance markerLen : Nat} (h : cfg.markerAllowed allowance markerLen = true) :
    markerLen ≤ allowance := by
  rw [markerAllowed, Bool.or_eq_true, beq_iff_eq, decide_eq_true_eq] at h
  exact h.resolve_left (Nat.ne_of_gt hrate)

theorem one_lt_marker_length : 1 < cfg.marker.length := by
  have htail : 1 < (encode " reason=size-cap]\n").length := by decide
  rw [marker, encode_append, List.length_append]
  exact Nat.lt_of_lt_of_le htail (Nat.le_add_left _ _)

end PublisherConfig

/-- What the publisher keeps in memory. -/
structure PublisherMemory where
  tokens : Rat
  lastRefill : Rat
  rotateFrom : Nat
  eofSent : List ExecutionId

/-- The publisher's world: files of the agent, the log stream, its own memory. -/
structure LogAgent where
  store : StateStore
  /-- The local `job.log` of each execution. -/
  jobLogs : ExecutionId → Bytes
  /-- The `.logpos` files. -/
  cursors : ExecutionId → Option Nat
  stream : List AgentLogEvent
  memory : PublisherMemory

/-- A publisher that was just constructed. -/
def PublisherMemory.fresh (cfg : PublisherConfig) (now : Rat) : PublisherMemory where
  tokens := cfg.bucketCapacity
  lastRefill := now
  rotateFrom := 0
  eofSent := []

/-- `_refill`. -/
def PublisherMemory.refill (cfg : PublisherConfig) (m : PublisherMemory) (now : Rat) :
    PublisherMemory :=
  if cfg.rate = 0 then m
  else
    { m with
      lastRefill := now
      tokens := min cfg.bucketCapacity (m.tokens + max 0 (now - m.lastRefill) * cfg.rate) }

/-- `_allowance`. -/
def PublisherMemory.allowance (cfg : PublisherConfig) (m : PublisherMemory) : Nat :=
  if cfg.rate = 0 then cfg.maxBytes else m.tokens.floor.toNat

/-- `_spend`. -/
def PublisherMemory.spend (cfg : PublisherConfig) (m : PublisherMemory) (n : Nat) :
    PublisherMemory :=
  if cfg.rate = 0 then m else { m with tokens := max 0 (m.tokens - n) }

/-! ### Operations -/

inductive LogOp where
  | listExecutionIds
  | readState (e : ExecutionId)
  | markLogCapped (e : ExecutionId)
  | readCursor (e : ExecutionId)
  | writeCursor (e : ExecutionId) (offset : Nat)
  | readRaw (e : ExecutionId) (offset maxBytes : Nat)
  | xadd (ev : AgentLogEvent)
  | refill
  | allowance
  | spend (n : Nat)
  | rotateFrom
  | setRotateFrom (n : Nat)
  | eofSent (e : ExecutionId)
  | addEofSent (e : ExecutionId)
  /-- The loop goes on for longer than the run at hand follows it. -/
  | unfollowed

def LogOp.Res : LogOp → Type
  | listExecutionIds => List ExecutionId
  | readState _ => Option AttemptState
  | markLogCapped _ => Option AttemptState
  | readCursor _ => Nat
  | readRaw _ _ _ => Bytes
  | allowance => Nat
  | rotateFrom => Nat
  | eofSent _ => Bool
  | writeCursor _ _ | xadd _ | refill | spend _ | setRotateFrom _ | addEofSent _ | unfollowed => Unit

/-- What the environment decides about an operation: its fault and the clock. -/
structure LogAnswer where
  fault : Prog.Fault := .none
  now : Rat := 0

/-- The errors an operation of the publisher raises. -/
inductive LogIoError where
  | redis
  | disk
  deriving DecidableEq, Repr

/-- `_read_raw`: an unreadable log gives no bytes. -/
def LogAgent.readRaw (w : LogAgent) (e : ExecutionId) (offset maxBytes : Nat)
    (fault : Prog.Fault) : Bytes :=
  if fault = .none then ((w.jobLogs e).drop offset).take maxBytes else []

theorem LogAgent.length_readRaw_le (w : LogAgent) (e : ExecutionId) (offset maxBytes : Nat)
    (fault : Prog.Fault) : (w.readRaw e offset maxBytes fault).length ≤ maxBytes := by
  unfold readRaw
  split
  · exact List.length_take_le _ _
  · exact Nat.zero_le _

/-- `_read_cursor`: an unreadable cursor file reads as 0. -/
def LogAgent.readCursor (w : LogAgent) (e : ExecutionId) (fault : Prog.Fault) : Nat :=
  if fault = .none then (w.cursors e).getD 0 else 0

/-- What an operation of the publisher does. -/
def LogOp.perform (cfg : PublisherConfig) : (op : LogOp) → LogAnswer → LogAgent →
    Option (Except LogIoError op.Res × LogAgent)
  | .listExecutionIds, _, w => some (.ok (w.store.listExecutionIds.insertionSort (· ≤ ·)), w)
  | .readState e, _, w => some (.ok (w.store.read e), w)
  | .markLogCapped e, x, w =>
      let store := w.store.mark e .logCapped
      Prog.withFault x.fault .disk w (store.read e) { w with store := store }
  | .readCursor e, x, w => some (.ok (w.readCursor e x.fault), w)
  | .writeCursor e offset, x, w =>
      Prog.withFault x.fault .disk w () { w with cursors := Function.update w.cursors e (some offset) }
  | .readRaw e offset maxBytes, x, w =>
      some (.ok (w.readRaw e offset maxBytes x.fault), w)
  | .xadd ev, x, w => Prog.withFault x.fault .redis w () { w with stream := w.stream ++ [ev] }
  | .refill, x, w => some (.ok (), { w with memory := w.memory.refill cfg x.now })
  | .allowance, _, w => some (.ok (w.memory.allowance cfg), w)
  | .spend n, _, w => some (.ok (), { w with memory := w.memory.spend cfg n })
  | .rotateFrom, _, w => some (.ok w.memory.rotateFrom, w)
  | .setRotateFrom n, _, w => some (.ok (), { w with memory := { w.memory with rotateFrom := n } })
  | .eofSent e, _, w => some (.ok (w.memory.eofSent.contains e), w)
  | .addEofSent e, _, w =>
      some (.ok (), { w with memory := { w.memory with eofSent := e :: w.memory.eofSent } })
  | .unfollowed, _, _ => none

/-! ### Programs -/

abbrev LogProg (α : Type) : Type := Prog LogOp LogOp.Res LogIoError α

namespace LogOp

/-- Perform the operation. -/
abbrev call (op : LogOp) : LogProg op.Res := Prog.call op

/-- Perform the operation and look at its error. -/
abbrev ask (op : LogOp) : LogProg (Except LogIoError op.Res) := Prog.ask op

end LogOp

open LogOp (call ask)

/-- The entry of a slice. -/
def sliceEvent (cfg : PublisherConfig) (state : AttemptState) (e : ExecutionId) (cursor : Nat)
    (raw : Bytes) : AgentLogEvent where
  agentId := cfg.agentId
  taskId := state.taskId
  executionId := e
  offset := cursor
  contentB64 := some raw
  sizeBytes := raw.length

/-- The empty entry that ends an execution's log. -/
def eofEvent (cfg : PublisherConfig) (state : AttemptState) (e : ExecutionId) (cursor : Nat) :
    AgentLogEvent where
  agentId := cfg.agentId
  taskId := state.taskId
  executionId := e
  offset := cursor
  contentB64 := some []
  sizeBytes := 0
  eof := true

/-- `_publish_marker`: whether the stream took the marker. -/
def publishMarker (cfg : PublisherConfig) (state : AttemptState) (e : ExecutionId) (cursor : Nat) :
    LogProg Bool := do
  match ← ask (.xadd (sliceEvent cfg state e cursor cfg.marker)) with
  | .ok _ => return true
  | .error _ => return false

/-- How the tail loop of an attempt ends. -/
inductive TailExit where
  /-- An entry was not taken: the attempt is left until the next tick. -/
  | aborted (total : Nat)
  | stopped (state : AttemptState) (cursor total : Nat)

/-- The `while True` loop of `publish_attempt`, followed for `fuel` rounds. -/
def tailLoop (cfg : PublisherConfig) (e : ExecutionId) :
    (fuel : Nat) → AttemptState → (cursor total : Nat) → LogProg TailExit
  | 0, state, cursor, total => do
      call .unfollowed
      return .stopped state cursor total
  | fuel + 1, state, cursor, total => do
      let allowance : Nat ← call .allowance
      if allowance = 0 then
        return .stopped state cursor total
      else if 0 < cfg.cap ∧ cfg.contentCap ≤ cursor then
        -- cap reached: one marker entry, then this execution is never tailed again
        if cfg.markerAllowed allowance cfg.marker.length = false then
          return .stopped state cursor total
        else if ← publishMarker cfg state e cursor then
          let capped : Option AttemptState ← call (.markLogCapped e)
          call (.spend cfg.marker.length)
          return .stopped (capped.getD state) cursor (total + cfg.marker.length)
        else
          return .stopped state cursor total
      else
        let raw : Bytes ← call (.readRaw e cursor (cfg.want allowance cursor))
        if raw = [] then
          return .stopped state cursor total
        else
          match ← ask (.xadd (sliceEvent cfg state e cursor raw)) with
          | .error _ => return .aborted total
          | .ok _ =>
              call (.writeCursor e (cursor + raw.length))
              call (.spend raw.length)
              if raw.length < cfg.want allowance cursor then
                return .stopped state (cursor + raw.length) (total + raw.length)
              else
                tailLoop cfg e fuel state (cursor + raw.length) (total + raw.length)

/-- The end of `publish_attempt`: one empty entry once the attempt is done. -/
def publishEof (cfg : PublisherConfig) (state : AttemptState) (e : ExecutionId) (cursor : Nat) :
    LogProg Unit := do
  let sent : Bool ← call (.eofSent e)
  if state.phase = .done ∧ sent = false then
    match ← ask (.xadd (eofEvent cfg state e cursor)) with
    | .ok _ => call (.addEofSent e)
    | .error _ => return ()
  else
    return ()

/-- `publish_attempt`. -/
def publishAttempt (cfg : PublisherConfig) (fuel : Nat) (e : ExecutionId) : LogProg Nat := do
  let read : Option AttemptState ← call (.readState e)
  match read with
  | none => return 0
  | some state =>
      if state.logPath = "" then
        return 0
      else
        let cursor : Nat ← call (.readCursor e)
        let exit ←
          if state.logCapped then pure (TailExit.stopped state cursor 0)
          else tailLoop cfg e fuel state cursor 0
        match exit with
        | .aborted total => return total
        | .stopped state cursor total =>
            publishEof cfg state e cursor
            return total

/-- The scan of `publish_once`, from position `idx` of the rotated order. -/
def publishScan (cfg : PublisherConfig) (fuel start n : Nat) :
    List ExecutionId → (idx total : Nat) → LogProg Nat
  | [], _, total => do
      call (.setRotateFrom 0)
      return total
  | e :: rest, idx, total => do
      let allowance : Nat ← call .allowance
      if allowance = 0 then
        call (.setRotateFrom ((start + idx) % n))
        return total
      else
        -- one bad execution does not keep the others from being published
        let published ← tryCatch (publishAttempt cfg fuel e) fun _ => pure 0
        publishScan cfg fuel start n rest (idx + 1) (total + published)

/-- `publish_once`. -/
def publishOnce (cfg : PublisherConfig) (fuel : Nat) : LogProg Unit := do
  call .refill
  let ids : List ExecutionId ← call .listExecutionIds
  if ids = [] then
    return ()
  else
    let rotate : Nat ← call .rotateFrom
    let start := rotate % ids.length
    let _ ← publishScan cfg fuel start ids.length (ids.drop start ++ ids.take start) 0 0
    return ()

end Dopilot
