/-
Dopilot/Consumers.lean

The three stream consumers: the server's `EventConsumer` and `LogConsumer` and
the agent's `CommandConsumer`.

All three read pages from a Redis stream through a consumer group and treat a
page entry by entry; they differ in what they do with one entry, in what their
start-up does, and in whether the run loop claims pending entries.  The
programs are over `ConsumerOp`; what handling an entry does to the rest of the
process is left to an `AppModel`.

`Inbox.handed` records which entries were given to the handler, `mine` which of
them by this process, and `processed` for which the handler came to its end;
`looping` says that start-up is over.  They are there to state properties, and
no program reads them.
-/
import Dopilot.AgentStore
import Dopilot.Process
import Dopilot.RedisStream

namespace Dopilot

open Prog (withFault)

/-! ### World and operations -/

/-- A stream, the consumer's clock, and the rest of its process. -/
structure Inbox (β σ : Type) where
  stream : RedisStream β
  now : Time
  app : σ
  handed : List Nat
  mine : List Nat
  processed : List Nat
  looping : Bool

/-- `batch` and `pending_idle_ms` of a consumer; a `COUNT` is positive. -/
structure ConsumerConfig where
  batch : Nat
  batch_pos : 0 < batch
  pendingIdleMs : Int

/-- The work of the agent's consumer beside its stream. -/
inductive Chore where
  | replayOutbox
  | recoverReservedOrphans
  | recoverWheelOrphans
  | reconcileStartedAttempts
  deriving DecidableEq, Repr

inductive ConsumerOp (β : Type) where
  | ensureGroup
  | xautoclaim (start : Nat)
  | xreadgroup
  | xack (id : Nat)
  /-- The entry is given to the handler. -/
  | hand (id : Nat)
  /-- The handler's work on the entry. -/
  | handle (id : Nat) (b : β)
  | chore (c : Chore)
  /-- Start-up is over. -/
  | enterLoop

def ConsumerOp.Res {β : Type} : ConsumerOp β → Type
  | xautoclaim _ => Nat × List (Nat × β)
  | xreadgroup => List (Nat × β)
  | ensureGroup | xack _ | hand _ | handle _ _ | chore _ | enterLoop => Unit

inductive ConsumerError where
  | redis
  | noGroup
  | decode
  | handler
  deriving DecidableEq, Repr

/-- What handling an entry or doing a chore does to the rest of the process; the
environment's part is in `χ`, and a handler says whether it raised. -/
structure AppModel (β σ χ : Type) where
  handle : χ → Nat → β → σ → Bool × σ
  chore : Chore → χ → σ → σ

/-- What the environment decides about an operation of a consumer. -/
structure ConsumerAnswer (χ : Type) where
  fault : Prog.Fault := .none
  app : χ

variable {β σ χ : Type}

/-- What an operation of a consumer does. -/
def ConsumerOp.perform (cfg : ConsumerConfig) (A : AppModel β σ χ) :
    (op : ConsumerOp β) → ConsumerAnswer χ → Inbox β σ →
    Option (Except ConsumerError op.Res × Inbox β σ)
  | .ensureGroup, x, w => withFault x.fault .redis w () { w with stream := w.stream.ensureGroup }
  | .xautoclaim start, x, w =>
      match w.stream.xautoclaim w.now cfg.pendingIdleMs start cfg.batch with
      | none => some (.error .noGroup, w)
      | some (page, stream) => withFault x.fault .redis w page { w with stream := stream }
  | .xreadgroup, x, w =>
      match w.stream.xreadgroup w.now cfg.batch with
      | none => some (.error .noGroup, w)
      | some (page, stream) => withFault x.fault .redis w page { w with stream := stream }
  | .xack id, x, w => withFault x.fault .redis w () { w with stream := w.stream.xack id }
  | .hand id, _, w => some (.ok (), { w with handed := w.handed ++ [id], mine := w.mine ++ [id] })
  | .handle id b, x, w =>
      match A.handle x.app id b w.app with
      | (true, app) => some (.ok (), { w with app := app, processed := w.processed ++ [id] })
      | (false, app) => some (.error .handler, { w with app := app })
  | .chore c, x, w => withFault x.fault .handler w () { w with app := A.chore c x.app w.app }
  | .enterLoop, _, w => some (.ok (), { w with looping := true })

/-! ### Programs -/

abbrev ConsumerProg (β α : Type) : Type := Prog (ConsumerOp β) ConsumerOp.Res ConsumerError α

namespace ConsumerOp

/-- Perform the operation. -/
abbrev call (op : ConsumerOp β) : ConsumerProg β op.Res := Prog.call op

end ConsumerOp

open ConsumerOp (call)

/-- The entries of a page, one after the other; an error leaves the rest. -/
def handlePage (one : Nat → β → ConsumerProg β Unit) : List (Nat × β) → ConsumerProg β Unit
  | [] => return ()
  | x :: rest => do
      call (.hand x.1)
      one x.1 x.2
      handlePage one rest

/-- The pages of `_claim_pending`, from an id on, at most `n` of them. -/
def claimPages (one : Nat → β → ConsumerProg β Unit) : (n start : Nat) → ConsumerProg β Unit
  | 0, _ => return ()
  | n + 1, start => do
      let page : Nat × List (Nat × β) ← call (.xautoclaim start)
      handlePage one page.2
      if page.2 = [] ∨ page.1 = 0 then
        return ()
      else
        claimPages one n page.1

/-- `_claim_pending`. -/
def claimPending (one : Nat → β → ConsumerProg β Unit) : ConsumerProg β Unit :=
  claimPages one 1000 0

/-- `drain_once`. -/
def drainOnce (one : Nat → β → ConsumerProg β Unit) (claim : Bool) : ConsumerProg β Unit := do
  if claim then
    claimPending one
  let page : List (Nat × β) ← call .xreadgroup
  handlePage one page

/-- The body of a run loop never lets an error out. -/
def guarded (p : ConsumerProg β Unit) : ConsumerProg β Unit := tryCatch p fun _ => return ()

/-! ### The server's consumers

An entry that does not decode is `none`. -/

namespace EventConsumer

/-- `_apply_one`: an undecodable entry is acknowledged and skipped. -/
def applyOne (id : Nat) : Option AgentEvent → ConsumerProg (Option AgentEvent) Unit
  | none => call (.xack id)
  | some ev => do
      call (.handle id (some ev))
      call (.xack id)

/-- The start of `_run`. -/
def boot : ConsumerProg (Option AgentEvent) Unit := do
  guarded (call .ensureGroup)
  call .enterLoop

/-- One round of `_run`. -/
def iterate : ConsumerProg (Option AgentEvent) Unit := guarded (drainOnce applyOne true)

end EventConsumer

namespace LogConsumer

/-- `_apply_one`: decoding is not guarded. -/
def applyOne (id : Nat) : Option AgentLogEvent → ConsumerProg (Option AgentLogEvent) Unit
  | none => throw .decode
  | some ev => do
      call (.handle id (some ev))
      call (.xack id)

/-- The start of `_run`. -/
def boot : ConsumerProg (Option AgentLogEvent) Unit := do
  guarded (call .ensureGroup)
  call .enterLoop

/-- One round of `_run`. -/
def iterate : ConsumerProg (Option AgentLogEvent) Unit := guarded (drainOnce applyOne true)

end LogConsumer

/-! ### The agent's consumer -/

namespace CommandConsumer

/-- `_process`: whatever the handler does, the entry is acknowledged. -/
def process (id : Nat) : Option AgentCommand → ConsumerProg (Option AgentCommand) Unit
  | none => call (.xack id)
  | some cmd =>
      Prog.tryFinally (tryCatch (call (.handle id (some cmd))) fun _ => return ())
        (call (.xack id))

/-- `recover`. -/
def recover : ConsumerProg (Option AgentCommand) Unit := do
  call .ensureGroup
  call (.chore .replayOutbox)
  call (.chore .recoverReservedOrphans)
  call (.chore .recoverWheelOrphans)
  claimPending process

/-- The start of `_run`. -/
def boot : ConsumerProg (Option AgentCommand) Unit := do
  guarded recover
  call .enterLoop

/-- One round of `_run`: pending entries are not claimed here. -/
def iterate : ConsumerProg (Option AgentCommand) Unit :=
  guarded do
    call (.chore .replayOutbox)
    call (.chore .reconcileStartedAttempts)
    drainOnce process false

end CommandConsumer

/-! ### Consumers as systems -/

/-- What happens beside a consumer. -/
inductive InboxMove (β : Type) where
  | xadd (b : β)
  | trim (n : Nat)
  /-- The stream is deleted, and its group with it. -/
  | delete
  | tick (dt : Nat)

def Inbox.move (w : Inbox β σ) : InboxMove β → Inbox β σ
  | .xadd b => { w with stream := w.stream.xadd b }
  | .trim n => { w with stream := w.stream.trim n }
  | .delete => { w with stream := w.stream.delete }
  | .tick dt => { w with now := w.now + dt }

/-- A consumer among everything else: start-up first, then the loop. -/
def consumerSpec (cfg : ConsumerConfig) (A : AppModel β σ χ) (boot iterate : ConsumerProg β Unit)
    (crash : σ → σ) :
    Sys.Spec Unit (ConsumerOp β) ConsumerOp.Res (fun _ => ConsumerAnswer χ) ConsumerError
      (Inbox β σ) (InboxMove β) Unit where
  iface := { perform := ConsumerOp.perform cfg A }
  env w m := some (w.move m)
  launch w _ _ := some (if w.looping then iterate else boot)
  crash w := { w with app := crash w.app, mine := [], looping := false }

/-! ### Rounds without faults -/

/-- The answers of an environment in which nothing fails. -/
def noFaults (x : χ) : (op : ConsumerOp β) → ConsumerAnswer χ := fun _ => { app := x }

/-- One round of the loop, `dt` after the last one. -/
def round (cfg : ConsumerConfig) (A : AppModel β σ χ) (iterate : ConsumerProg β Unit) (x : χ)
    (w : Inbox β σ) (dt : Nat) : Inbox β σ :=
  let w := w.move (.tick dt)
  match iterate.exec { perform := ConsumerOp.perform cfg A } (noFaults x) w with
  | some (_, w') => w'
  | none => w

/-- Rounds of the loop, at given distances in time. -/
def rounds (cfg : ConsumerConfig) (A : AppModel β σ χ) (iterate : ConsumerProg β Unit) (x : χ)
    (w : Inbox β σ) (dts : List Nat) : Inbox β σ :=
  dts.foldl (round cfg A iterate x) w

end Dopilot
