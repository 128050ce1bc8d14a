/-
Dopilot/Joint.lean

The server and one of its agents.

The server appends commands to the agent's stream, and the agent takes them up
one after the other, in the order of the stream.  The consumer reads a batch of
entries, handles each of them and acknowledges it; what it has read and not
acknowledged when it dies is claimed when it starts again.  Entries may vanish
from the stream before they are read.  The events the agent has sent reach the
server, as do those of the other agents.

The two sides are the machines of `Dispatch` and `AgentCommands`; a run of both
is a run of either (`server_run`, `agent_run`).
-/
import Dopilot.AgentRepeats
import Dopilot.Dispatch

namespace Dopilot

namespace Joint

structure State where
  server : Dispatch.State
  agent : Agent.State
  /-- The messages before this one have been read. -/
  next : MessageId
  /-- Read, and not acknowledged. -/
  pending : List MessageId
  /-- Read, and not taken up yet. -/
  batch : List (MessageId × AgentCommand)
  /-- Taken up, and not acknowledged yet. -/
  current : Option MessageId

/-- Nothing has happened yet. -/
def start : State where
  server := .start
  agent := Agent.start
  next := 0
  pending := []
  batch := []
  current := none

inductive Action where
  | server (a : Dispatch.Action)
  | agent (a : Agent.Action)
  /-- `xreadgroup`, of so many entries. -/
  | read (count : Nat)
  /-- `xautoclaim`, of some of the pending entries. -/
  | claim (msgs : List MessageId)
  /-- The next entry of the batch is given to `_process`. -/
  | handle
  /-- `xack`, which may raise. -/
  | ack (ok : Bool)

namespace State

/-- The entries of the agent that are in its stream, in order. -/
def entries (s : State) (id : AgentId) : List (MessageId × AgentCommand) :=
  s.server.streams.rows.filter fun r => r.2.agentId == id

/-- The consumer waits for its next batch. -/
def idle (s : State) : Bool :=
  (s.agent.procs .consumer).isNone && s.batch.isEmpty && s.current.isNone

/-- The event has reached the server's stream. -/
def sent (s : State) (id : AgentId) (ev : AgentEvent) : Bool :=
  decide (ev ∈ s.agent.world.stream) || ev.agentId != id

/-- What the server applies is an event that was sent. -/
def admits (s : State) (id : AgentId) : Dispatch.Action → Bool
  | .write (.applyEvent _ ev _) => s.sent id ev
  | _ => true

end State

/-- A command is taken up. -/
def takesUp : Agent.Action → Bool
  | .start .consumer (.command _) => true
  | _ => false

/-- What is left of a batch, by what the agent does: nothing when it dies. -/
def State.after (s : State) (b : Agent.Action) (agent : Agent.State) : State :=
  match b with
  | .crash => { s with agent := agent, batch := [], current := none }
  | _ => { s with agent := agent }

variable (cfg : AgentConfig) (kind : ExecutionId → RunnerType)

/-- One step. -/
def step (s : State) : Action → Option State
  | .server a =>
      if s.admits cfg.agentId a then
        (Dispatch.step s.server a).map fun server => { s with server := server }
      else none
  | .agent b => if takesUp b then none else (Agent.step cfg kind s.agent b).map (s.after b)
  | .read count =>
      if s.idle then
        let batch := ((s.entries cfg.agentId).filter fun r => s.next ≤ r.1).take count
        some
          { s with
            batch := batch
            next := (batch.getLast?.map fun r => r.1 + 1).getD s.next
            pending := s.pending ++ batch.map Prod.fst }
      else none
  | .claim msgs =>
      -- only in `recover`, before the loop is entered
      if s.idle ∧ s.agent.world.running = false then
        some
          { s with
            batch := (s.entries cfg.agentId).filter fun r => r.1 ∈ msgs ∧ r.1 ∈ s.pending }
      else none
  | .handle =>
      match s.batch, s.current with
      | (m, cmd) :: batch, none =>
          (Agent.step cfg kind s.agent (.start .consumer (.command cmd))).map fun agent =>
            { s with agent := agent, batch := batch, current := some m }
      | _, _ => none
  | .ack ok =>
      match s.current with
      | some m =>
          if (s.agent.procs .consumer).isNone then
            -- an error leaves the rest of the batch
            if ok then some { s with pending := s.pending.erase m, current := none }
            else some { s with batch := [], current := none }
          else none
      | none => none

/-! ### The two sides -/

/-- What the agent does in a step. -/
def agentAction (s : State) : Action → Option Agent.Action
  | .agent a => some a
  | .handle => s.batch.head?.map fun r => .start .consumer (.command r.2)
  | _ => none

variable {cfg kind} {s s' : State} {a : Action}

@[simp] theorem after_agent (b : Agent.Action) (agent : Agent.State) :
    (s.after b agent).agent = agent := by
  cases b <;> rfl

@[simp] theorem after_server (b : Agent.Action) (agent : Agent.State) :
    (s.after b agent).server = s.server := by
  cases b <;> rfl

theorem step_agent (h : step cfg kind s a = some s') :
    s'.agent = s.agent ∧ agentAction s a = none ∨
      ∃ b, agentAction s a = some b ∧ Agent.step cfg kind s.agent b = some s'.agent := by
  cases a with
  | server a =>
      simp only [step] at h
      split at h
      · obtain ⟨server, -, rfl⟩ := Option.map_eq_some_iff.mp h
        exact .inl ⟨rfl, rfl⟩
      · cases h
  | agent b =>
      refine .inr ⟨b, rfl, ?_⟩
      simp only [step] at h
      split at h
      · cases h
      · obtain ⟨agent, hagent, rfl⟩ := Option.map_eq_some_iff.mp h
        rw [after_agent]
        exact hagent
  | read count =>
      simp only [step] at h
      split at h
      · obtain rfl := Option.some.inj h
        exact .inl ⟨rfl, rfl⟩
      · cases h
  | claim msgs =>
      simp only [step] at h
      split at h
      · obtain rfl := Option.some.inj h
        exact .inl ⟨rfl, rfl⟩
      · cases h
  | handle =>
      simp only [step] at h
      split at h
      · rename_i m cmd batch hbatch hcurrent
        obtain ⟨agent, hagent, rfl⟩ := Option.map_eq_some_iff.mp h
        refine .inr ⟨_, ?_, hagent⟩
        simp only [agentAction, hbatch, List.head?_cons, Option.map_some]
      · cases h
  | ack ok =>
      refine .inl ⟨?_, rfl⟩
      simp only [step] at h
      split at h
      · split at h
        · split at h
          · obtain rfl := Option.some.inj h
            rfl
          · obtain rfl := Option.some.inj h
            rfl
        · cases h
      · cases h

theorem step_server (h : step cfg kind s a = some s') :
    s'.server = s.server ∨ ∃ b, a = .server b ∧ Dispatch.step s.server b = some s'.server := by
  cases a with
  | server b =>
      simp only [step] at h
      split at h
      · obtain ⟨server, hserver, rfl⟩ := Option.map_eq_some_iff.mp h
        exact .inr ⟨b, rfl, hserver⟩
      · cases h
  | agent b =>
      refine .inl ?_
      simp only [step] at h
      split at h
      · cases h
      · obtain ⟨agent, -, rfl⟩ := Option.map_eq_some_iff.mp h
        exact after_server b agent
  | read count =>
      simp only [step] at h
      split at h
      · obtain rfl := Option.some.inj h
        exact .inl rfl
      · cases h
  | claim msgs =>
      simp only [step] at h
      split at h
      · obtain rfl := Option.some.inj h
        exact .inl rfl
      · cases h
  | handle =>
      simp only [step] at h
      split at h
      · obtain ⟨agent, -, rfl⟩ := Option.map_eq_some_iff.mp h
        exact .inl rfl
      · cases h
  | ack ok =>
      refine .inl ?_
      simp only [step] at h
      split at h
      · split at h
        · split at h
          · obtain rfl := Option.some.inj h
            rfl
          · obtain rfl := Option.some.inj h
            rfl
        · cases h
      · cases h

/-- The agent's part of a step meets a condition. -/
def Meets (K : Agent.Cond) (s : State) (a : Action) : Prop :=
  ∀ b ∈ agentAction s a, K.Holds s.agent b

/-- **A run of both is a run of the agent.** -/
theorem agent_run {ok : State → Action → Prop} {K : Agent.Cond}
    (hmeets : ∀ s a, ok s a → Meets K s a) (h : StateMachine.RunOk (step cfg kind) ok s s') :
    StateMachine.RunOk (Agent.step cfg kind) K.Holds s.agent s'.agent := by
  refine h.follow State.agent fun s a s' hok hstep => ?_
  rcases step_agent hstep with ⟨hsame, -⟩ | ⟨b, hb, hnext⟩
  · exact .inl hsame
  · exact .inr ⟨b, hmeets s a hok b hb, hnext⟩

/-- **A run of both is a run of the server.** -/
theorem server_run {ok : State → Action → Prop}
    {okServer : Dispatch.State → Dispatch.Action → Prop}
    (hmeets : ∀ s b, ok s (.server b) → okServer s.server b)
    (h : StateMachine.RunOk (step cfg kind) ok s s') :
    StateMachine.RunOk Dispatch.step okServer s.server s'.server := by
  refine h.follow State.server fun s a s' hok hstep => ?_
  rcases step_server hstep with hsame | ⟨b, rfl, hnext⟩
  · exact .inl hsame
  · exact .inr ⟨b, hmeets s b hok, hnext⟩

instance (K : Agent.Cond) [∀ (s : Agent.State) (b : Agent.Action), Decidable (K.Holds s b)]
    (s : State) (a : Action) : Decidable (Meets K s a) :=
  inferInstanceAs (Decidable (∀ b ∈ agentAction s a, K.Holds s.agent b))

/-- The step starts the execution on its runner. -/
def starts (e : ExecutionId) (s : State) (a : Action) : Bool :=
  (agentAction s a).any (Agent.starts e s.agent)

/-! ### Runs -/

/-- The consumer's next operations, all answered alike. -/
def ops (n : Nat) (x : AgentAnswer := {}) : List Action :=
  List.replicate n (.agent (.op .consumer fun _ => x))

/-- An agent is started. -/
def sampleBoot : List Action := .agent (.start .consumer .boot) :: ops 5

end Joint

end Dopilot
