/-
Dopilot/Placement.lean

Where tasks run: the server's sessions together with the table `nodes`.

Heartbeats, the operator, the executors and the reconciler share the table.  A
heartbeat looks its row up by agent id, then by endpoint, and commits; an
executor selects its targets and creates the task in a later commit; a pass of
the reconciler reads the nodes and then judges execution by execution.  Between
any two of these steps others may come, so what is selected or judged rests on
rows that may have changed since.

`server_run` says that the sessions run as before.  A run command is for an
agent that was a candidate when the targets were selected (`runs_placed`).  A
node that the operator holds back gets no more of them, as long as no other
agent takes its row over (`held_back`).  If agents keep to their own endpoints
and send one heartbeat at a time, a row shows the last heartbeat of its agent
(`row_last_beat`), so an execution is given up only if its agent has been silent
(`lost_silent`).
-/
import Dopilot.Nodes
import Dopilot.NoProgress

namespace Dopilot

open StateMachine

namespace Placement

/-! ### The machine -/

/-- What a request does to the row it has loaded. -/
inductive Edit where
  | beat (hb : HeartbeatRequest) (now : Time)
  | offline (now : Time)
  | online
  | softDelete (now : Time)
  deriving DecidableEq

def Edit.apply (n : Node) : Edit → Node
  | beat hb now => n.beat hb now
  | offline now => n.offline now
  | online => n.online
  | softDelete now => n.softDelete now

/-- A request or a pass that is under way. -/
inductive Pending where
  /-- A heartbeat that has found no row of its agent, and has an endpoint. -/
  | lookup (hb : HeartbeatRequest) (now : Time) (e : Endpoint)
  /-- A heartbeat that has found no row at all. -/
  | insert (hb : HeartbeatRequest) (now : Time)
  /-- A request that has loaded the row of node `i`. -/
  | edit (x : Edit) (i : NodeId) (loaded : Node)
  /-- An executor that has selected its targets. -/
  | pick (taskType : RunnerType) (agents : List AgentId)
  /-- A pass that has read the active executions and the nodes. -/
  | pass (now : Time) (rows : List (ExecutionId × Execution)) (lastSeen : AgentId → Option Time)

structure State where
  server : Dispatch.State
  fleet : Fleet
  pending : Table SessionId Pending
  nextSession : SessionId
  /-- The last heartbeat of each agent that was accepted; no step reads it. -/
  lastBeat : AgentId → Option (Time × HeartbeatRequest)

/-- An empty server that knows no node. -/
def start : State where
  server := .start
  fleet := .empty
  pending := .empty
  nextSession := 0
  lastBeat := fun _ => none

inductive Action where
  /-- A step of the sessions that neither places a task nor misses heartbeats. -/
  | server (a : Dispatch.Action)
  /-- `POST /agents/{agent_id}/heartbeat` looks for a row of the agent. -/
  | beat (now : Time) (path : AgentId) (hb : HeartbeatRequest)
  /-- The heartbeat looks for a row of the endpoint. -/
  | lookup (i : SessionId)
  /-- The operator's request loads the row of a node. -/
  | edit (x : Edit) (i : NodeId)
  /-- A heartbeat or the operator's request commits; a new row has the id `new`. -/
  | commit (i : SessionId) (new : NodeId)
  /-- An executor selects its targets. -/
  | pick (now : Time) (strategy : NodeStrategy) (choice : Nat) (nodeIds : List Nat)
      (taskType : RunnerType)
  /-- The executor creates the task on them. -/
  | create (i : SessionId) (now : Time) (t : TaskId) (task : Task) (payload : CommandPayload)
      (es : List ExecutionId)
  /-- A pass reads the active executions and the nodes. -/
  | load (now : Time)
  /-- The pass misses the heartbeats of the agent of an execution. -/
  | miss (i : SessionId) (e : ExecutionId) (held : HeldRows)
  /-- A request or a pass ends without a commit. -/
  | drop (i : SessionId)

namespace State

def addPending (s : State) (p : Pending) : State :=
  { s with pending := s.pending.insert s.nextSession p, nextSession := s.nextSession + 1 }

def setPending (s : State) (i : SessionId) (p : Pending) : State :=
  { s with pending := s.pending.modify i fun _ => p }

def dropPending (s : State) (i : SessionId) : State :=
  { s with pending := s.pending.erase i }

/-- A heartbeat has been accepted. -/
def accept (s : State) (hb : HeartbeatRequest) (now : Time) : State :=
  { s with lastBeat := Function.update s.lastBeat hb.agentId (some (now, hb)) }

/-- What is noted beside a commit. -/
def settle (s : State) : Edit → State
  | .beat hb now => s.accept hb now
  | .offline _ | .online | .softDelete _ => s

end State

/-- The row that a heartbeat creates. -/
def newNode (hb : HeartbeatRequest) (now : Time) : Node :=
  Node.beat { endpoint := hb.endpoint.getD (.ofAgent hb.agentId) } hb now

/-- Does the step place a task, or give an execution up for its heartbeats? -/
def reserved : Dispatch.Action → Bool
  | .create .. => true
  | .write (.markLost _ _ _ (.wire .heartbeatTimeout)) => true
  | _ => false

/-- The pass takes the agent to be unreachable. -/
def unreachable (settings : AgentsSettings) (now : Time) (lastSeen : Option Time) : Bool :=
  lastSeen.all fun seen => decide (settings.heartbeatTimeoutSeconds < now - seen)

/-- On an unreachable agent, the pass gives the execution up. -/
theorem reconcileExecution_unreachable (settings : AgentsSettings) (db : ServerDb)
    (held : HeldRows) {now : Time} {lastSeen : Option Time} (e : ExecutionId) (x : Execution)
    (h : unreachable settings now lastSeen = true) :
    db.reconcileExecution settings held now lastSeen e x =
      (Writer.markLost now held e (.wire .heartbeatTimeout)).apply db := by
  cases lastSeen with
  | none => rfl
  | some seen =>
      unfold ServerDb.reconcileExecution
      simp only [show decide (settings.heartbeatTimeoutSeconds < now - seen) = true from h, if_true]
      rfl

section step

variable (settings : AgentsSettings)

/-- One step. -/
def step (s : State) : Action → Option State
  | .server a =>
      if reserved a then none
      else (Dispatch.step s.server a).map fun server => { s with server := server }
  | .beat now path hb =>
      if hb.agentId ≠ path then none
      else
        match s.fleet.byAgent hb.agentId, hb.endpoint with
        | some (i, n), _ => some (s.addPending (.edit (.beat hb now) i n))
        | none, some e => some (s.addPending (.lookup hb now e))
        | none, none => some (s.addPending (.insert hb now))
  | .lookup j =>
      match s.pending.get j with
      | some (.lookup hb now e) =>
          match s.fleet.byEndpoint e with
          | some (i, n) => some (s.setPending j (.edit (.beat hb now) i n))
          | none => some (s.setPending j (.insert hb now))
      | _ => none
  | .edit x i =>
      match x, s.fleet.nodes.get i with
      | .beat .., _ => none
      | _, none => none
      | x, some n => some (s.addPending (.edit x i n))
  | .commit j new =>
      match s.pending.get j with
      | some (.edit x i loaded) =>
          (Fleet.commit? (s.fleet.nodes.modify i fun current =>
            Node.merge loaded (x.apply loaded) current)).map fun fleet =>
              ({ s with fleet := fleet }.dropPending j).settle x
      | some (.insert hb now) =>
          if (s.fleet.nodes.get new).isSome then none
          else
            (Fleet.commit? (s.fleet.nodes.insert new (newNode hb now))).map fun fleet =>
              ({ s with fleet := fleet }.dropPending j).accept hb now
      | _ => none
  | .pick now strategy choice nodeIds taskType =>
      let nodes := (s.fleet.resolveTargetNodes strategy choice nodeIds taskType now
        settings.heartbeatTimeoutSeconds).1
      some (s.addPending (.pick taskType (nodes.filterMap fun r => r.2.agentId)))
  | .create j now t task payload es =>
      match s.pending.get j with
      | some (.pick taskType agents) =>
          if es.length ≠ agents.length then none
          else (Dispatch.step s.server (.create now t task taskType payload (es.zip agents))).map
            fun server => { s with server := server }.dropPending j
      | _ => none
  | .load now =>
      some (s.addPending (.pass now (NoProgress.activeRows s.server.db) s.fleet.lastSeen))
  | .miss j e held =>
      match s.pending.get j with
      | some (.pass now rows lastSeen) =>
          if rows.any fun r => r.1 == e && unreachable settings now (lastSeen r.2.agentId) then
            (Dispatch.step s.server (.write (.markLost now held e (.wire .heartbeatTimeout)))).map
              fun server => { s with server := server }
          else none
      | _ => none
  | .drop j => some (s.dropPending j)

end step

/-! ### The steps -/

/-- What a step puts under way. -/
inductive Begun (settings : AgentsSettings) (s : State) : Action → SessionId → Pending → Prop
  | beat {now path hb i n j} : s.fleet.byAgent hb.agentId = some (i, n) →
      Begun settings s (.beat now path hb) j (.edit (.beat hb now) i n)
  | lookup {hb now e i n j} : s.pending.get j = some (.lookup hb now e) →
      s.fleet.byEndpoint e = some (i, n) →
      Begun settings s (.lookup j) j (.edit (.beat hb now) i n)
  /-- A heartbeat that has not found its row. -/
  | search {b hb now j p} : p = .insert hb now ∨ (∃ e, p = .lookup hb now e) →
      Begun settings s b j p
  | edit {x i n j} : Begun settings s (.edit x i) j (.edit x i n)
  | pick {now strategy choice nodeIds taskType j} :
      Begun settings s (.pick now strategy choice nodeIds taskType) j
        (.pick taskType ((s.fleet.resolveTargetNodes strategy choice nodeIds taskType now
          settings.heartbeatTimeoutSeconds).1.filterMap fun r => r.2.agentId))
  | load {now j} : Begun settings s (.load now) j
      (.pass now (NoProgress.activeRows s.server.db) s.fleet.lastSeen)

section Steps

variable {settings : AgentsSettings} {s s' : State} {a : Action}

/-- The step function as a relation. -/
inductive Step (settings : AgentsSettings) (s : State) : Action → State → Prop
  | server {a server} : reserved a = false → Dispatch.step s.server a = some server →
      Step settings s (.server a) { s with server := server }
  | beatRow {now path hb i n} : s.fleet.byAgent hb.agentId = some (i, n) →
      Step settings s (.beat now path hb) (s.addPending (.edit (.beat hb now) i n))
  | beatLookup {now path hb e} : s.fleet.byAgent hb.agentId = none → hb.endpoint = some e →
      Step settings s (.beat now path hb) (s.addPending (.lookup hb now e))
  | beatInsert {now path hb} : s.fleet.byAgent hb.agentId = none → hb.endpoint = none →
      Step settings s (.beat now path hb) (s.addPending (.insert hb now))
  | lookupRow {j hb now e i n} : s.pending.get j = some (.lookup hb now e) →
      s.fleet.byEndpoint e = some (i, n) →
      Step settings s (.lookup j) (s.setPending j (.edit (.beat hb now) i n))
  | lookupNone {j hb now e} : s.pending.get j = some (.lookup hb now e) →
      s.fleet.byEndpoint e = none →
      Step settings s (.lookup j) (s.setPending j (.insert hb now))
  | edit {x i n} : (∀ hb now, x ≠ .beat hb now) → s.fleet.nodes.get i = some n →
      Step settings s (.edit x i) (s.addPending (.edit x i n))
  | commitEdit {j new x i loaded fleet} : s.pending.get j = some (.edit x i loaded) →
      fleet.nodes = s.fleet.nodes.modify i (Node.merge loaded (x.apply loaded)) →
      Step settings s (.commit j new) (({ s with fleet := fleet }.dropPending j).settle x)
  | commitInsert {j new hb now fleet} : s.pending.get j = some (.insert hb now) →
      s.fleet.nodes.get new = none → fleet.nodes = s.fleet.nodes.insert new (newNode hb now) →
      Step settings s (.commit j new) (({ s with fleet := fleet }.dropPending j).accept hb now)
  | pick {now strategy choice nodeIds taskType} :
      Step settings s (.pick now strategy choice nodeIds taskType)
        (s.addPending (.pick taskType
          ((s.fleet.resolveTargetNodes strategy choice nodeIds taskType now
            settings.heartbeatTimeoutSeconds).1.filterMap fun r => r.2.agentId)))
  | create {j now t task payload es taskType agents server} :
      s.pending.get j = some (.pick taskType agents) → es.length = agents.length →
      Dispatch.step s.server (.create now t task taskType payload (es.zip agents)) =
        some server →
      Step settings s (.create j now t task payload es)
        ({ s with server := server }.dropPending j)
  | load {now} : Step settings s (.load now)
      (s.addPending (.pass now (NoProgress.activeRows s.server.db) s.fleet.lastSeen))
  | miss {j e held now rows lastSeen x server} :
      s.pending.get j = some (.pass now rows lastSeen) → (e, x) ∈ rows →
      unreachable settings now (lastSeen x.agentId) = true →
      Dispatch.step s.server (.write (.markLost now held e (.wire .heartbeatTimeout))) =
        some server →
      Step settings s (.miss j e held) { s with server := server }
  | drop {j} : Step settings s (.drop j) (s.dropPending j)

theorem step_cases (h : step settings s a = some s') : Step settings s a s' := by
  cases a with
  | server a =>
      simp only [step] at h
      split at h
      · cases h
      · rename_i hreserved
        obtain ⟨server, hserver, rfl⟩ := Option.map_eq_some_iff.mp h
        exact .server (Bool.not_eq_true _ |>.mp hreserved) hserver
  | beat now path hb =>
      simp only [step] at h
      split at h
      · cases h
      · split at h
        · rename_i i n _ hrow
          obtain rfl := Option.some.inj h
          exact .beatRow hrow
        · rename_i e hrow he
          obtain rfl := Option.some.inj h
          exact .beatLookup hrow he
        · rename_i hrow he
          obtain rfl := Option.some.inj h
          exact .beatInsert hrow he
  | lookup j =>
      simp only [step] at h
      split at h
      · rename_i hb now e hj
        split at h
        · rename_i i n hrow
          obtain rfl := Option.some.inj h
          exact .lookupRow hj hrow
        · rename_i hrow
          obtain rfl := Option.some.inj h
          exact .lookupNone hj hrow
      · cases h
  | edit x i =>
      simp only [step] at h
      split at h
      · cases h
      · cases h
      · rename_i n hbeat hrow
        obtain rfl := Option.some.inj h
        exact .edit hbeat hrow
  | commit j new =>
      simp only [step] at h
      split at h
      · rename_i x i loaded hj
        obtain ⟨fleet, hfleet, rfl⟩ := Option.map_eq_some_iff.mp h
        exact .commitEdit hj (Fleet.commit?_nodes hfleet)
      · rename_i hb now hj
        split at h
        · cases h
        · rename_i hfree
          obtain ⟨fleet, hfleet, rfl⟩ := Option.map_eq_some_iff.mp h
          exact .commitInsert hj (Option.not_isSome_iff_eq_none.mp hfree)
            (Fleet.commit?_nodes hfleet)
      · cases h
  | pick now strategy choice nodeIds taskType =>
      obtain rfl := Option.some.inj h
      exact .pick
  | create j now t task payload es =>
      simp only [step] at h
      split at h
      · rename_i taskType agents hj
        split at h
        · cases h
        · rename_i hlen
          obtain ⟨server, hserver, rfl⟩ := Option.map_eq_some_iff.mp h
          exact .create hj (not_not.mp hlen) hserver
      · cases h
  | load now =>
      obtain rfl := Option.some.inj h
      exact .load
  | miss j e held =>
      simp only [step] at h
      split at h
      · rename_i now rows lastSeen hj
        split at h
        · rename_i hany
          obtain ⟨server, hserver, rfl⟩ := Option.map_eq_some_iff.mp h
          obtain ⟨⟨e', x⟩, hmem, hr⟩ := List.any_eq_true.mp hany
          obtain ⟨he, hun⟩ := Bool.and_eq_true_iff.mp hr
          obtain rfl : e' = e := by simpa using he
          exact .miss hj hmem hun hserver
        · cases h
      · cases h
  | drop j =>
      obtain rfl := Option.some.inj h
      exact .drop

end Steps

/-! ### The sessions run as before -/

section Steps

variable {settings : AgentsSettings} {s s' : State} {a : Action} {p q : Pending}
variable {i j : SessionId} {x : Edit} {hb : HeartbeatRequest} {now : Time}

@[simp] theorem settle_server : (s.settle x).server = s.server := by cases x <;> rfl

@[simp] theorem settle_fleet : (s.settle x).fleet = s.fleet := by cases x <;> rfl

@[simp] theorem settle_pending : (s.settle x).pending = s.pending := by cases x <;> rfl

/-- What is under way was, or has just begun. -/
theorem addPending_get (h : (s.addPending p).pending.get j = some q) :
    s.pending.get j = some q ∨ j = s.nextSession ∧ q = p := by
  rcases Table.mem_rows_insert (Table.mem_rows_iff.mpr h) with heq | hold
  · cases heq
    exact .inr ⟨rfl, rfl⟩
  · exact .inl (Table.mem_rows_iff.mp hold)

theorem setPending_get (h : (s.setPending i p).pending.get j = some q) :
    s.pending.get j = some q ∧ j ≠ i ∨ j = i ∧ q = p := by
  have hget : (s.setPending i p).pending.get j =
      if j = i then (s.pending.get j).map fun _ => p else s.pending.get j :=
    Table.get_modify s.pending i (fun _ => p) j
  rw [hget] at h
  split at h
  · rename_i hj
    obtain ⟨_, -, rfl⟩ := Option.map_eq_some_iff.mp h
    exact .inr ⟨hj, rfl⟩
  · rename_i hj
    exact .inl ⟨h, hj⟩

theorem dropPending_get (h : (s.dropPending i).pending.get j = some q) :
    s.pending.get j = some q ∧ j ≠ i := by
  have hget : (s.dropPending i).pending.get j = if j = i then none else s.pending.get j :=
    Table.get_erase s.pending i j
  rw [hget] at h
  split at h
  · cases h
  · rename_i hj
    exact ⟨h, hj⟩

/-- **What is under way** was so before the step, or begins with it. -/
theorem pending_of_step (h : step settings s a = some s') (hj : s'.pending.get j = some q) :
    s.pending.get j = some q ∨ Begun settings s a j q := by
  have hadd : ∀ {p : Pending}, (∀ k, Begun settings s a k p) →
      (s.addPending p).pending.get j = some q →
      s.pending.get j = some q ∨ Begun settings s a j q := by
    intro p hp hget
    rcases addPending_get hget with hold | ⟨-, rfl⟩
    · exact .inl hold
    · exact .inr (hp j)
  cases step_cases h with
  | server _ _ => exact .inl hj
  | beatRow hrow => exact hadd (fun _ => .beat hrow) hj
  | beatLookup _ _ => exact hadd (fun _ => .search (.inr ⟨_, rfl⟩)) hj
  | beatInsert _ _ => exact hadd (fun _ => .search (.inl rfl)) hj
  | lookupRow hk hrow =>
      rcases setPending_get hj with ⟨hold, -⟩ | ⟨rfl, rfl⟩
      · exact .inl hold
      · exact .inr (.lookup hk hrow)
  | lookupNone _ _ =>
      rcases setPending_get hj with ⟨hold, -⟩ | ⟨-, rfl⟩
      · exact .inl hold
      · exact .inr (.search (.inl rfl))
  | edit _ _ => exact hadd (fun _ => .edit) hj
  | commitEdit _ _ =>
      rw [settle_pending] at hj
      exact .inl (dropPending_get hj).1
  | commitInsert _ _ _ => exact .inl (dropPending_get hj).1
  | pick => exact hadd (fun _ => .pick) hj
  | create _ _ _ => exact .inl (dropPending_get hj).1
  | load => exact hadd (fun _ => .load) hj
  | miss _ _ _ _ => exact .inl hj
  | drop => exact .inl (dropPending_get hj).1

/-- **What a step does to the sessions.**  Nothing, or a step of theirs. -/
theorem step_server (h : step settings s a = some s') :
    s'.server = s.server ∨ ∃ b, Dispatch.step s.server b = some s'.server := by
  cases step_cases h with
  | server _ hserver => exact .inr ⟨_, hserver⟩
  | beatRow _ | beatLookup _ _ | beatInsert _ _ => exact .inl rfl
  | lookupRow _ _ | lookupNone _ _ => exact .inl rfl
  | edit _ _ => exact .inl rfl
  | commitEdit _ _ => exact .inl settle_server
  | commitInsert _ _ _ => exact .inl rfl
  | pick => exact .inl rfl
  | create _ _ hserver => exact .inr ⟨_, hserver⟩
  | load => exact .inl rfl
  | miss _ _ _ hserver => exact .inr ⟨_, hserver⟩
  | drop => exact .inl rfl

/-- **The sessions run as they do without the nodes.** -/
theorem server_run (h : Run (step settings) s s') : Run Dispatch.step s.server s'.server := by
  refine h.follow State.server fun s₁ a s₂ _ hstep => ?_
  rcases step_server hstep with hsame | ⟨b, hb⟩
  · exact .inl hsame
  · exact .inr ⟨b, trivial, hb⟩

end Steps

/-! ### Run commands -/

section Runs

open Dispatch

variable {db db' : ServerDb} {row row' : CommandOutbox} {c : CommandId}

/-- Two states of the row of one command, for the same agent and kind of work. -/
structure SameRun (row row' : CommandOutbox) : Prop where
  type : row'.type = row.type
  agentId : row'.agentId = row.agentId
  taskType : row'.taskType = row.taskType

theorem SameRun.refl (row : CommandOutbox) : SameRun row row := ⟨rfl, rfl, rfl⟩

theorem SameRun.trans {row row' row'' : CommandOutbox} (h : SameRun row row')
    (h' : SameRun row' row'') : SameRun row row'' :=
  ⟨h'.type.trans h.type, h'.agentId.trans h.agentId, h'.taskType.trans h.taskType⟩

theorem mergeAll_sameRun (ps : List (CommandOutbox × CommandOutbox)) (row : CommandOutbox) :
    SameRun row (mergeAll ps row) := by
  induction ps generalizing row with
  | nil => exact .refl row
  | cons p ps ih =>
      have hstep : SameRun row (p.1.merge p.2 row) := ⟨rfl, rfl, rfl⟩
      exact hstep.trans (ih _)

/-- Every run of `db'` is one of `db`, in some state, or is for an agent and a
kind of work that satisfy `P`. -/
def Places (P : AgentId → RunnerType → Prop) (db db' : ServerDb) : Prop :=
  ∀ c row', db'.outbox.get c = some row' → row'.type = .run →
    (∃ row, db.outbox.get c = some row ∧ SameRun row row') ∨ P row'.agentId row'.taskType

variable {P Q : AgentId → RunnerType → Prop}

theorem Places.of_outbox (h : db'.outbox = db.outbox) : Places P db db' := by
  intro c row' hrow' _
  rw [h] at hrow'
  exact .inl ⟨row', hrow', .refl row'⟩

theorem Places.of_adds {R : CommandOutbox → Prop} (h : Adds R db db')
    (hR : ∀ row, R row → row.type = .run → P row.agentId row.taskType) : Places P db db' := by
  intro c row' hrow' hrun
  rcases h.adds c row' hrow' with hold | ⟨-, hnew⟩
  · exact .inl ⟨row', hold, .refl row'⟩
  · exact .inr (hR row' hnew hrun)

theorem Places.of_plain (h : Adds Plain db db') : Places P db db' :=
  .of_adds h fun _ hplain hrun => absurd hrun hplain.1

theorem Places.trans {db'' : ServerDb} (h : Places P db db') (h' : Places P db' db'') :
    Places P db db'' := by
  intro c row'' hrow'' hrun
  rcases h' c row'' hrow'' hrun with ⟨row', hrow', hsame'⟩ | hnew
  · rcases h c row' hrow' (hsame'.type ▸ hrun) with ⟨row, hrow, hsame⟩ | hP
    · exact .inl ⟨row, hrow, hsame.trans hsame'⟩
    · rw [hsame'.agentId, hsame'.taskType]
      exact .inr hP
  · exact .inr hnew

theorem places_applyWrites (ws : List Write) : Places P db (applyWrites db ws) := by
  intro c row' hrow' _
  rw [applyWrites_outbox] at hrow'
  obtain ⟨row, hrow, rfl⟩ := Option.map_eq_some_iff.mp hrow'
  exact .inl ⟨row, hrow, mergeAll_sameRun _ row⟩

theorem places_requestCancel (db : ServerDb) (now : Time) (t : TaskId) :
    Places P db (db.requestCancel now t) := by
  have hcanceled : Places P db (db.cancelUnsentOutbox now t) := by
    intro c row' hrow' _
    obtain ⟨row, hrow, rfl⟩ := Option.map_eq_some_iff.mp
      ((Table.get_updateAll _ _ c).symm.trans hrow')
    refine .inl ⟨row, hrow, ?_⟩
    split
    · exact ⟨rfl, rfl, rfl⟩
    · exact .refl row
  exact hcanceled.trans (.of_plain (requestCancel_spec db now t).1)

/-- The runs of a new task are for the given agents, and of its kind. -/
theorem adds_createTask (db : ServerDb) (now : Time) (t : TaskId) (task : Task)
    (taskType : RunnerType) (payload : CommandPayload) (nodes : List (ExecutionId × AgentId)) :
    Adds (fun row => row.agentId ∈ nodes.map Prod.snd ∧ row.taskType = taskType) db
      (db.createTask now t task taskType payload nodes) := by
  have hone : ∀ (db : ServerDb) (n : ExecutionId × AgentId),
      Adds (fun row => row.agentId = n.2 ∧ row.taskType = taskType) db
        (db.createExecution now t taskType payload n) := fun db n =>
    .of_insert ⟨rfl, rfl⟩ rfl rfl
  have hall : ∀ (l : List (ExecutionId × AgentId)) (db : ServerDb),
      Adds (fun row => row.agentId ∈ l.map Prod.snd ∧ row.taskType = taskType) db
        (l.foldl (fun db n => db.createExecution now t taskType payload n) db) := by
    intro l
    induction l with
    | nil => exact fun db => .refl db
    | cons n l ih =>
        intro db
        have hhead := (hone db n).mono (Q := fun row =>
          row.agentId ∈ (n :: l).map Prod.snd ∧ row.taskType = taskType)
          fun row hrow => ⟨by simp [hrow.1], hrow.2⟩
        refine hhead.trans ((ih _).mono fun row hrow => ⟨?_, hrow.2⟩)
        exact List.mem_cons_of_mem _ hrow.1
  unfold ServerDb.createTask
  simp only
  split
  · exact .of_outbox rfl rfl
  · have h := fun row : Task => hall nodes { db with tasks := db.tasks.insert t row }
    exact ⟨(h _).keeps, (h _).adds, (h _).fresh, (h _).next⟩

/-- The agents for which a step of the sessions creates runs, and the kind of work. -/
def creates : Dispatch.Action → AgentId → RunnerType → Prop
  | .create _ _ _ taskType _ nodes, a, taskType' => a ∈ nodes.map Prod.snd ∧ taskType' = taskType
  | _, _, _ => False

/-- **What a step of the sessions places.** -/
theorem places_step {s s' : Dispatch.State} {a : Dispatch.Action}
    (h : Dispatch.step s a = some s') : Places (creates a) s.db s'.db := by
  cases Dispatch.step_cases h with
  | write _ => exact .of_plain (writer_adds _)
  | issue htype hstatus hmsg =>
      have hadds : Adds Plain s.db (s.db.addOutbox _) := .of_addOutbox ⟨htype, hstatus, hmsg⟩
      exact .of_plain hadds
  | noTarget _ => exact .of_outbox rfl
  | create _ _ _ _ => exact .of_adds (adds_createTask ..) fun _ hrow _ => hrow
  | @cancel now t => exact places_requestCancel s.db now t
  | tick _ _ _ _ _ => exact .of_outbox rfl
  | refresh _ _ => exact .of_outbox rfl
  | sent _ _ _ => exact .of_outbox rfl
  | raised _ _ => exact .of_outbox rfl
  | giveUp _ _ => exact .of_outbox rfl
  | commit _ hcommit =>
      cases Session.committed hcommit with
      | done _ _ _ => exact places_applyWrites _
      | unavailable _ _ _ _ _ => exact (places_applyWrites _).trans (.of_outbox rfl)
  | abort => exact .of_outbox rfl
  | vanish => exact .of_outbox rfl

end Runs

/-! ### Where runs are placed -/

section Placing

variable {settings : AgentsSettings} {s s' : State} {a : Action}

/-- A selection of targets on the way to `s` has found a node of the agent that
was a candidate. -/
def Chosen (settings : AgentsSettings) (s : State) (agent : AgentId) (taskType : RunnerType) :
    Prop :=
  ∃ s₁ s₂ now strategy choice nodeIds i n,
    Run (step settings) start s₁ ∧
    step settings s₁ (.pick now strategy choice nodeIds taskType) = some s₂ ∧
    Run (step settings) s₂ s ∧
    s₁.fleet.nodes.get i = some n ∧ n.agentId = some agent ∧
    n.candidate taskType now settings.heartbeatTimeoutSeconds = true

theorem Chosen.step {agent : AgentId} {taskType : RunnerType} (h : Chosen settings s agent taskType)
    (hstep : step settings s a = some s') : Chosen settings s' agent taskType := by
  obtain ⟨s₁, s₂, now, strategy, choice, nodeIds, i, n, hrun₁, hpick, hrun₂, hrow⟩ := h
  exact ⟨s₁, s₂, now, strategy, choice, nodeIds, i, n, hrun₁, hpick,
    Relation.ReflTransGen.tail hrun₂ ⟨a, trivial, hstep⟩, hrow⟩

/-- Runs and selected targets have been chosen. -/
structure Placed (settings : AgentsSettings) (s : State) : Prop where
  reached : Run (step settings) start s
  rows : ∀ c row, s.server.db.outbox.get c = some row → row.type = .run →
    Chosen settings s row.agentId row.taskType
  picks : ∀ j taskType agents, s.pending.get j = some (.pick taskType agents) →
    ∀ agent ∈ agents, Chosen settings s agent taskType

/-- The step function on the rows: a step creates runs only for a selection. -/
theorem places_of_step (h : step settings s a = some s') :
    Places (fun agent taskType => ∃ j agents, s.pending.get j = some (.pick taskType agents) ∧
      agent ∈ agents) s.server.db s'.server.db := by
  have hplaces : ∀ {b : Dispatch.Action} {server : Dispatch.State},
      Dispatch.step s.server b = some server → (∀ agent taskType, ¬ creates b agent taskType) →
      Places (fun agent taskType => ∃ j agents,
        s.pending.get j = some (.pick taskType agents) ∧ agent ∈ agents) s.server.db server.db := by
    intro b server hb hnone c row' hrow' hrun
    rcases places_step hb c row' hrow' hrun with hold | hnew
    · exact .inl hold
    · exact absurd hnew (hnone _ _)
  cases step_cases h with
  | @server b _ hreserved hserver =>
      refine hplaces hserver fun agent taskType hcreates => ?_
      cases b with
      | create => cases hreserved
      | write | issue | cancel | tick | refresh | append | giveUp | commit | abort | vanish =>
          exact hcreates
  | beatRow _ | beatLookup _ _ | beatInsert _ _ => exact .of_outbox rfl
  | lookupRow _ _ | lookupNone _ _ => exact .of_outbox rfl
  | edit _ _ => exact .of_outbox rfl
  | commitEdit _ _ =>
      refine .of_outbox ?_
      rw [settle_server]
      rfl
  | commitInsert _ _ _ => exact .of_outbox rfl
  | pick => exact .of_outbox rfl
  | @create j now t task payload es taskType agents server hj hlen hserver =>
      intro c row' hrow' hrun
      rcases places_step hserver c row' hrow' hrun with hold | ⟨hagent, htype⟩
      · exact .inl hold
      · rw [List.map_snd_zip (Nat.le_of_eq hlen.symm)] at hagent
        exact .inr ⟨j, agents, htype ▸ hj, hagent⟩
  | load => exact .of_outbox rfl
  | miss _ _ _ hserver => exact hplaces hserver fun _ _ => id
  | drop => exact .of_outbox rfl

/-- A selection is under way since its own step. -/
theorem pick_of_step (h : step settings s a = some s') {j : SessionId} {taskType : RunnerType}
    {agents : List AgentId} (hj : s'.pending.get j = some (.pick taskType agents)) :
    s.pending.get j = some (.pick taskType agents) ∨
      ∃ now strategy choice nodeIds, a = .pick now strategy choice nodeIds taskType ∧
        agents = (s.fleet.resolveTargetNodes strategy choice nodeIds taskType now
          settings.heartbeatTimeoutSeconds).1.filterMap fun r => r.2.agentId := by
  rcases pending_of_step h hj with hold | hbegun
  · exact .inl hold
  · cases hbegun with
    | search hq => rcases hq with hq | ⟨_, hq⟩ <;> cases hq
    | @pick now strategy choice nodeIds =>
        exact .inr ⟨now, strategy, choice, nodeIds, rfl, rfl⟩

theorem Placed.step (hs : Placed settings s) (h : step settings s a = some s') :
    Placed settings s' where
  reached := Relation.ReflTransGen.tail hs.reached ⟨a, trivial, h⟩
  rows := by
    intro c row' hrow' hrun
    rcases places_of_step h c row' hrow' hrun with ⟨row, hrow, hsame⟩ | ⟨j, agents, hj, hagent⟩
    · rw [hsame.agentId, hsame.taskType]
      exact (hs.rows c row hrow (hsame.type ▸ hrun)).step h
    · exact (hs.picks j _ agents hj _ hagent).step h
  picks := by
    intro j taskType agents hj agent hagent
    rcases pick_of_step h hj with hold | ⟨now, strategy, choice, nodeIds, rfl, rfl⟩
    · exact (hs.picks j taskType agents hold agent hagent).step h
    · obtain ⟨⟨i, n⟩, hmem, hn⟩ := List.mem_filterMap.mp hagent
      obtain ⟨hrow, hcand⟩ := Fleet.mem_resolveTargetNodes hmem
      exact ⟨s, s', now, strategy, choice, nodeIds, i, n, hs.reached, h, RunOk.refl s', hrow, hn,
        hcand⟩

theorem Placed.start : Placed settings start where
  reached := RunOk.refl _
  rows := by
    intro c row hrow
    cases hrow
  picks := by
    intro j taskType agents hj
    cases hj

/-- A heartbeat of agent 1, which can run Scrapy. -/
def sampleBeat : HeartbeatRequest where
  agentId := 1
  capabilities := { scrapy := true }
  detail := { redis := some ⟨true, some true⟩ }
  endpoint := some (.advertised 5)

/-- Agent 1 becomes node 7. -/
def sampleJoin : List Action := [.beat 100 1 sampleBeat, .lookup 0, .commit 0 7]

/-- A task with one execution on agent 1. -/
def sampleTask : List Action :=
  [.pick 110 .all 0 [] .scrapy, .create 1 110 3 {} {} [10]]

end Placing

/-! ### Nodes that are held back -/

/-- How the operator takes a node out. -/
inductive Hold where
  | deleted
  | offline
  deriving DecidableEq

/-- The node is taken out. -/
def Hold.on : Hold → Node → Bool
  | deleted, n => n.deletedAt.isSome
  | offline, n => !n.schedulingEnabled

/-- The request would put the node back; nothing puts a deleted one back. -/
def Hold.releases : Hold → Edit → Bool
  | offline, .online => true
  | _, _ => false

/-- The node of the agent is taken out, nothing under way puts it back or gives it
to another agent, and no executor has selected it. -/
structure HeldBack (hold : Hold) (i : NodeId) (agent : AgentId) (s : State) : Prop where
  row : ∃ n, s.fleet.nodes.get i = some n ∧ n.agentId = some agent ∧ hold.on n = true
  edits : ∀ j x loaded, s.pending.get j = some (.edit x i loaded) →
    hold.releases x = false ∧ ∀ hb now, x = .beat hb now → hb.agentId = agent
  picks : ∀ j taskType agents, s.pending.get j = some (.pick taskType agents) → agent ∉ agents

/-- The heartbeat is of another agent, and finds the node by its endpoint. -/
def takesOver (s : State) (j : SessionId) (i : NodeId) (agent : AgentId) : Bool :=
  match s.pending.get j with
  | some (.lookup hb _ e) => hb.agentId != agent && (s.fleet.byEndpoint e).any fun r => r.1 == i
  | _ => false

/-- The step neither gives the node to another agent nor begins to put it back. -/
def Keeps (hold : Hold) (i : NodeId) (agent : AgentId) (s : State) : Action → Prop
  | .lookup j => takesOver s j i agent = false
  | .edit x k => (k == i && hold.releases x) = false
  | _ => True

section Holding

variable {settings : AgentsSettings} {s s' : State} {a : Action}
variable {hold : Hold} {i : NodeId} {agent : AgentId} {n loaded : Node} {x : Edit}

/-- A commit that does not put the node back leaves it taken out. -/
theorem Hold.on_merge (hx : hold.releases x = false) (hn : hold.on n = true) :
    hold.on (Node.merge loaded (x.apply loaded) n) = true := by
  cases hold with
  | deleted =>
      show (Node.column loaded.deletedAt (x.apply loaded).deletedAt n.deletedAt).isSome = true
      cases x with
      | beat hb now | online =>
          show (Node.column loaded.deletedAt loaded.deletedAt n.deletedAt).isSome = true
          rw [Node.column_same]
          exact hn
      | offline now =>
          show (Node.column loaded.deletedAt (loaded.offline now).deletedAt n.deletedAt).isSome =
            true
          rw [Node.offline_deletedAt, Node.column_same]
          exact hn
      | softDelete now =>
          -- the stamp is set, or was there when the row was loaded
          show (Node.column loaded.deletedAt (loaded.softDelete now).deletedAt
            n.deletedAt).isSome = true
          unfold Node.softDelete
          split
          · rename_i hnone
            rw [Option.isNone_iff_eq_none.mp hnone]
            rfl
          · rw [Node.column_same]
            exact hn
  | offline =>
      have hoff : n.schedulingEnabled = false := by simpa [Hold.on] using hn
      show (!Node.column loaded.schedulingEnabled (x.apply loaded).schedulingEnabled
        n.schedulingEnabled) = true
      cases x with
      | online => cases hx
      | beat hb now =>
          show (!Node.column loaded.schedulingEnabled loaded.schedulingEnabled
            n.schedulingEnabled) = true
          rw [Node.column_same, hoff]
          rfl
      | softDelete now =>
          show (!Node.column loaded.schedulingEnabled (loaded.softDelete now).schedulingEnabled
            n.schedulingEnabled) = true
          rw [Node.softDelete_schedulingEnabled, Node.column_same, hoff]
          rfl
      | offline now =>
          show (!Node.column loaded.schedulingEnabled (loaded.offline now).schedulingEnabled
            n.schedulingEnabled) = true
          unfold Node.offline
          split
          · rename_i hon
            rw [hon]
            rfl
          · rw [Node.column_same, hoff]
            rfl

/-- A commit for the agent leaves the row with the agent. -/
theorem agentId_merge (hx : ∀ hb now, x = .beat hb now → hb.agentId = agent)
    (hn : n.agentId = some agent) :
    (Node.merge loaded (x.apply loaded) n).agentId = some agent := by
  show Node.column loaded.agentId (x.apply loaded).agentId n.agentId = some agent
  cases x with
  | beat hb now =>
      obtain rfl := hx hb now rfl
      rcases Node.column_cases loaded.agentId (some hb.agentId) n.agentId with h | h
      · exact h.trans hn
      · exact h
  | online =>
      show Node.column loaded.agentId loaded.agentId n.agentId = some agent
      rw [Node.column_same, hn]
  | offline now =>
      show Node.column loaded.agentId (loaded.offline now).agentId n.agentId = some agent
      rw [Node.offline_agentId, Node.column_same, hn]
  | softDelete now =>
      show Node.column loaded.agentId (loaded.softDelete now).agentId n.agentId = some agent
      rw [Node.softDelete_agentId, Node.column_same, hn]

/-- A node that is taken out is no candidate. -/
theorem Hold.not_candidate {taskType : RunnerType} {now timeout : Time} (hn : hold.on n = true) :
    n.candidate taskType now timeout = false := by
  rw [Bool.eq_false_iff]
  intro hcand
  obtain ⟨henabled, hdeleted, -⟩ := Node.candidate_iff.mp hcand
  cases hold with
  | deleted =>
      simp only [Hold.on, hdeleted] at hn
      cases hn
  | offline =>
      simp only [Hold.on, henabled] at hn
      cases hn

/-- What is under way for node `i` was so, or has begun with this step. -/
theorem edit_of_step (h : step settings s a = some s') {j : SessionId}
    (hj : s'.pending.get j = some (.edit x i loaded)) :
    s.pending.get j = some (.edit x i loaded) ∨ a = .edit x i ∨
      (∃ hb now path, a = .beat now path hb ∧ x = .beat hb now ∧
        s.fleet.byAgent hb.agentId = some (i, loaded)) ∨
      ∃ hb now e, a = .lookup j ∧ x = .beat hb now ∧ s.pending.get j = some (.lookup hb now e) ∧
        s.fleet.byEndpoint e = some (i, loaded) := by
  rcases pending_of_step h hj with hold | hbegun
  · exact .inl hold
  · cases hbegun with
    | @beat now path hb _ _ _ hrow => exact .inr (.inr (.inl ⟨hb, now, path, rfl, rfl, hrow⟩))
    | @lookup hb now e _ _ _ hk hrow =>
        exact .inr (.inr (.inr ⟨hb, now, e, rfl, rfl, hk, hrow⟩))
    | search hq => rcases hq with hq | ⟨_, hq⟩ <;> cases hq
    | edit => exact .inr (.inl rfl)

/-- A row is as it was, but for a commit of a request that has loaded it. -/
theorem row_of_step (h : step settings s a = some s') (hn : s.fleet.nodes.get i = some n) :
    s'.fleet.nodes.get i = some n ∨
      ∃ j x loaded, s.pending.get j = some (.edit x i loaded) ∧
        s'.fleet.nodes.get i = some (Node.merge loaded (x.apply loaded) n) := by
  cases step_cases h with
  | server _ _ => exact .inl hn
  | beatRow _ | beatLookup _ _ | beatInsert _ _ => exact .inl hn
  | lookupRow _ _ | lookupNone _ _ => exact .inl hn
  | edit _ _ => exact .inl hn
  | @commitEdit j new x k loaded fleet hj hnodes =>
      rw [settle_fleet]
      show fleet.nodes.get i = _ ∨ _
      by_cases hik : i = k
      · subst hik
        refine .inr ⟨j, x, loaded, hj, ?_⟩
        show fleet.nodes.get i = _
        rw [hnodes, Table.get_modify_self, hn]
        rfl
      · refine .inl ?_
        rw [hnodes, Table.get_modify_ne _ _ hik]
        exact hn
  | @commitInsert j new hb now fleet hj hfree hnodes =>
      refine .inl ?_
      show fleet.nodes.get i = some n
      rw [hnodes, Table.get_insert _ _ hfree, if_neg]
      · exact hn
      · rintro rfl
        rw [hfree] at hn
        cases hn
  | pick => exact .inl hn
  | create _ _ _ => exact .inl hn
  | load => exact .inl hn
  | miss _ _ _ _ => exact .inl hn
  | drop => exact .inl hn

theorem HeldBack.step (hs : HeldBack hold i agent s) (hok : Keeps hold i agent s a)
    (h : step settings s a = some s') : HeldBack hold i agent s' where
  row := by
    obtain ⟨n, hn, hagent, hon⟩ := hs.row
    rcases row_of_step h hn with hsame | ⟨j, x, loaded, hj, hmerged⟩
    · exact ⟨n, hsame, hagent, hon⟩
    · obtain ⟨hrel, hbeat⟩ := hs.edits j x loaded hj
      exact ⟨_, hmerged, agentId_merge hbeat hagent, Hold.on_merge hrel hon⟩
  edits := by
    intro j x loaded hj
    obtain ⟨n, hn, hagent, -⟩ := hs.row
    rcases edit_of_step h hj with hold' | rfl | ⟨hb, now, path, rfl, rfl, hrow⟩ |
        ⟨hb, now, e, rfl, rfl, hlookup, hrow⟩
    · exact hs.edits j x loaded hold'
    · refine ⟨?_, ?_⟩
      · simpa [Keeps] using hok
      · rintro hb now rfl
        cases h
    · refine ⟨by cases hold <;> rfl, ?_⟩
      rintro _ _ ⟨⟩
      obtain ⟨hget, hb'⟩ := Fleet.byAgent_some.mp hrow
      rw [hn] at hget
      obtain rfl := Option.some.inj hget
      rw [hagent] at hb'
      exact (Option.some.inj hb').symm
    · refine ⟨by cases hold <;> rfl, ?_⟩
      rintro _ _ ⟨⟩
      by_contra hne
      have htakes : takesOver s j i agent = true := by simp [takesOver, hlookup, hrow, hne]
      rw [show takesOver s j i agent = false from hok] at htakes
      cases htakes
  picks := by
    intro j taskType agents hj hmem
    rcases pick_of_step h hj with hold' | ⟨now, strategy, choice, nodeIds, rfl, rfl⟩
    · exact hs.picks j taskType agents hold' hmem
    · obtain ⟨n, hn, hagent, hon⟩ := hs.row
      obtain ⟨⟨k, m⟩, hsel, hm⟩ := List.mem_filterMap.mp hmem
      obtain ⟨hget, hcand⟩ := Fleet.mem_resolveTargetNodes hsel
      -- the agent has one row, and that is taken out
      obtain rfl := Fleet.agent_unique hget hn hm hagent
      rw [hn] at hget
      obtain rfl := Option.some.inj hget
      rw [Hold.not_candidate hon] at hcand
      cases hcand

instance (hold : Hold) (i : NodeId) (agent : AgentId) (s : State) (a : Action) :
    Decidable (Keeps hold i agent s a) :=
  match a with
  | .lookup j => inferInstanceAs (Decidable (takesOver s j i agent = false))
  | .edit x k => inferInstanceAs (Decidable ((k == i && hold.releases x) = false))
  | .server .. | .beat .. | .commit .. | .pick .. | .create .. | .load .. | .miss .. | .drop .. =>
      isTrue trivial

/-- With nothing under way, a node that is taken out is held back. -/
theorem HeldBack.of_idle (hn : s.fleet.nodes.get i = some n) (hagent : n.agentId = some agent)
    (hon : hold.on n = true) (hidle : s.pending.rows = []) : HeldBack hold i agent s where
  row := ⟨n, hn, hagent, hon⟩
  edits := by
    intro j x loaded hj
    rw [← Table.mem_rows_iff, hidle] at hj
    cases hj
  picks := by
    intro j taskType agents hj
    rw [← Table.mem_rows_iff, hidle] at hj
    cases hj

/-- Node 7 is deleted. -/
def sampleDelete : List Action := [.edit (.softDelete 150) 7, .commit 1 0]

/-- The agent of node 7 goes on reporting, and a task is to run on all nodes. -/
def sampleGhost : List Action :=
  [.beat 160 1 sampleBeat, .commit 2 0, .pick 165 .all 0 [] .scrapy, .create 3 165 4 {} {} []]

/-- If another agent takes the row over, the agent of a deleted node comes back as
a new one. -/
example : (runList (step NoProgress.sampleSettings) start (sampleJoin ++ sampleDelete ++
    [.beat 160 2 { sampleBeat with agentId := 2 }, .lookup 2, .commit 2 0,
      .beat 170 1 { sampleBeat with endpoint := none }, .commit 3 8,
      .pick 175 .all 0 [] .scrapy, .create 4 175 4 {} {} [11]])).any
    (fun s => (s.server.db.outbox.get 0).any fun row => row.agentId == 1) = true := by
  decide +kernel

end Holding

/-! ### The last heartbeat -/

/-- The agent that an endpoint is of. -/
def ownerOf (owner : Nat → AgentId) : Endpoint → AgentId
  | .advertised url => owner url
  | .ofAgent a => a

/-- The agent whose heartbeat is under way. -/
def Pending.beating : Pending → Option AgentId
  | .lookup hb _ _ | .insert hb _ | .edit (.beat hb _) _ _ => some hb.agentId
  | .edit (.offline _) _ _ | .edit .online _ _ | .edit (.softDelete _) _ _ => none
  | .pick .. | .pass .. => none

/-- A pass that has read at `t`. -/
def Pending.isPass (t : Time) : Pending → Bool
  | .pass now _ _ => now == t
  | .lookup .. | .insert .. | .edit .. | .pick .. => false

/-- Agents advertise only endpoints of their own, and send one heartbeat at a time. -/
def Orderly (owner : Nat → AgentId) (s : State) : Action → Prop
  | .beat _ _ hb =>
      (hb.endpoint.all fun e => ownerOf owner e == hb.agentId) = true ∧
        (s.pending.rows.all fun r => r.2.beating != some hb.agentId) = true
  | _ => True

/-- What heartbeats write agrees. -/
structure SameReport (n m : Node) : Prop where
  agentId : m.agentId = n.agentId
  endpoint : m.endpoint = n.endpoint
  capabilities : m.capabilities = n.capabilities
  health : m.health = n.health
  lastSeenAt : m.lastSeenAt = n.lastSeenAt

/-- No row is of the agent. -/
def Unknown (t : Table NodeId Node) (a : AgentId) : Prop :=
  ∀ i n, t.get i = some n → n.agentId ≠ some a

/-- What a heartbeat under way has found is still so. -/
def Sound (owner : Nat → AgentId) (t : Table NodeId Node) : Pending → Prop
  | .lookup hb _ e => Unknown t hb.agentId ∧ hb.endpoint = some e ∧ ownerOf owner e = hb.agentId
  | .insert hb _ =>
      Unknown t hb.agentId ∧ ∀ e, hb.endpoint = some e → ownerOf owner e = hb.agentId
  | .edit (.beat hb _) i loaded =>
      loaded.agentId = some hb.agentId ∧
        (∀ e, hb.endpoint = some e → ownerOf owner e = hb.agentId) ∧
          ∃ n, t.get i = some n ∧ SameReport loaded n
  | _ => True

/-- The row shows the heartbeat, and the endpoint is the agent's. -/
structure Reports (owner : Nat → AgentId) (n : Node) (hb : HeartbeatRequest) (t : Time) :
    Prop where
  agentId : n.agentId = some hb.agentId
  lastSeenAt : n.lastSeenAt = some t
  capabilities : n.capabilities = hb.capabilities
  health : n.health = hb.detail
  endpoint : ownerOf owner n.endpoint = hb.agentId

/-- Every row shows the last heartbeat of its agent, and none is missing. -/
structure Shows (owner : Nat → AgentId) (s : State) : Prop where
  rows : ∀ i n, s.fleet.nodes.get i = some n →
    ∃ hb t, s.lastBeat hb.agentId = some (t, hb) ∧ Reports owner n hb t
  beats : ∀ a b, s.lastBeat a = some b → ∃ i n, s.fleet.nodes.get i = some n ∧ n.agentId = some a
  pending : ∀ j p, s.pending.get j = some p → Sound owner s.fleet.nodes p
  one : ∀ j k p q a, s.pending.get j = some p → s.pending.get k = some q →
    p.beating = some a → q.beating = some a → j = k

section Beats

variable {settings : AgentsSettings} {owner : Nat → AgentId} {s s' : State} {a : Action}
variable {n m k loaded : Node} {x : Edit} {hb : HeartbeatRequest} {now t : Time} {i : NodeId}

theorem SameReport.refl (n : Node) : SameReport n n := ⟨rfl, rfl, rfl, rfl, rfl⟩

theorem SameReport.trans (h : SameReport n m) (h' : SameReport m k) : SameReport n k :=
  ⟨h'.agentId.trans h.agentId, h'.endpoint.trans h.endpoint,
    h'.capabilities.trans h.capabilities, h'.health.trans h.health,
    h'.lastSeenAt.trans h.lastSeenAt⟩

theorem Reports.congr (h : Reports owner n hb t) (hsame : SameReport n m) :
    Reports owner m hb t where
  agentId := hsame.agentId.trans h.agentId
  lastSeenAt := hsame.lastSeenAt.trans h.lastSeenAt
  capabilities := hsame.capabilities.trans h.capabilities
  health := hsame.health.trans h.health
  endpoint := hsame.endpoint ▸ h.endpoint

/-- The operator's requests leave alone what heartbeats write. -/
theorem sameReport_apply (hx : ∀ hb now, x ≠ .beat hb now) (n : Node) :
    SameReport n (x.apply n) := by
  cases x with
  | beat hb now => exact absurd rfl (hx hb now)
  | online => exact ⟨rfl, rfl, rfl, rfl, rfl⟩
  | offline now =>
      show SameReport n (n.offline now)
      unfold Node.offline
      split
      · exact ⟨rfl, rfl, rfl, rfl, rfl⟩
      · exact .refl n
  | softDelete now =>
      show SameReport n (n.softDelete now)
      unfold Node.softDelete
      split
      · exact ⟨rfl, rfl, rfl, rfl, rfl⟩
      · exact .refl n

theorem sameReport_merge (h : SameReport loaded m) (n : Node) :
    SameReport n (Node.merge loaded m n) := by
  constructor
  · show Node.column loaded.agentId m.agentId n.agentId = n.agentId
    rw [h.agentId, Node.column_same]
  · show Node.column loaded.endpoint m.endpoint n.endpoint = n.endpoint
    rw [h.endpoint, Node.column_same]
  · show Node.column loaded.capabilities m.capabilities n.capabilities = n.capabilities
    rw [h.capabilities, Node.column_same]
  · show Node.column loaded.health m.health n.health = n.health
    rw [h.health, Node.column_same]
  · show Node.column loaded.lastSeenAt m.lastSeenAt n.lastSeenAt = n.lastSeenAt
    rw [h.lastSeenAt, Node.column_same]

/-- The commit of a heartbeat on the row it has loaded writes the heartbeat. -/
theorem sameReport_beat (h : SameReport loaded n) (m : Node) :
    SameReport m (Node.merge loaded m n) := by
  constructor
  · show Node.column loaded.agentId m.agentId n.agentId = m.agentId
    rw [h.agentId, Node.column_loaded]
  · show Node.column loaded.endpoint m.endpoint n.endpoint = m.endpoint
    rw [h.endpoint, Node.column_loaded]
  · show Node.column loaded.capabilities m.capabilities n.capabilities = m.capabilities
    rw [h.capabilities, Node.column_loaded]
  · show Node.column loaded.health m.health n.health = m.health
    rw [h.health, Node.column_loaded]
  · show Node.column loaded.lastSeenAt m.lastSeenAt n.lastSeenAt = m.lastSeenAt
    rw [h.lastSeenAt, Node.column_loaded]

theorem reports_beat (howner : ∀ e, hb.endpoint = some e → ownerOf owner e = hb.agentId)
    (hn : hb.endpoint = none → ownerOf owner n.endpoint = hb.agentId) :
    Reports owner (n.beat hb now) hb now where
  agentId := rfl
  lastSeenAt := rfl
  capabilities := rfl
  health := rfl
  endpoint := by
    rw [Node.beat_endpoint]
    cases he : hb.endpoint with
    | none => exact hn he
    | some e => exact howner e he

/-- Heartbeats under way stay sound when another agent's row changes, or comes. -/
theorem Sound.other {u u' : Table NodeId Node} {p : Pending} (h : Sound owner u p)
    (hrows : ∀ j m, u'.get j = some m → (∃ m₀, u.get j = some m₀ ∧ m₀.agentId = m.agentId) ∨
      ∃ a, m.agentId = some a ∧ p.beating ≠ some a)
    (hkeeps : ∀ j m a, u.get j = some m → m.agentId = some a → p.beating = some a →
      ∃ m', u'.get j = some m' ∧ SameReport m m') : Sound owner u' p := by
  have hunknown : ∀ {b : AgentId}, p.beating = some b → Unknown u b → Unknown u' b := by
    intro b hp hu j m hm hagent
    rcases hrows j m hm with ⟨m₀, hm₀, hsame⟩ | ⟨a, ha, hne⟩
    · exact hu j m₀ hm₀ (hsame.trans hagent)
    · rw [hagent] at ha
      exact hne (hp.trans ha)
  cases p with
  | lookup hb now e => exact ⟨hunknown rfl h.1, h.2⟩
  | insert hb now => exact ⟨hunknown rfl h.1, h.2⟩
  | edit x i loaded =>
      cases x with
      | beat hb now =>
          obtain ⟨hloaded, howner, n, hn, hsame⟩ := h
          obtain ⟨n', hn', hsame'⟩ := hkeeps i n _ hn (hsame.agentId.trans hloaded) rfl
          exact ⟨hloaded, howner, n', hn', hsame.trans hsame'⟩
      | offline | online | softDelete => trivial
  | pick | pass => trivial

/-- A step that leaves the rows alone and begins no heartbeat. -/
theorem Shows.same (h : Shows owner s) (hfleet : s'.fleet = s.fleet)
    (hbeat : s'.lastBeat = s.lastBeat)
    (hpending : ∀ j p, s'.pending.get j = some p → s.pending.get j = some p ∨ p.beating = none) :
    Shows owner s' where
  rows := by
    rw [hfleet, hbeat]
    exact h.rows
  beats := by
    rw [hfleet, hbeat]
    exact h.beats
  pending := by
    intro j p hj
    rw [hfleet]
    rcases hpending j p hj with hold | hnone
    · exact h.pending j p hold
    · cases p with
      | lookup | insert => cases hnone
      | edit x i loaded =>
          cases x with
          | beat => cases hnone
          | offline | online | softDelete => trivial
      | pick | pass => trivial
  one := by
    intro j k p q a hj hk hp hq
    rcases hpending j p hj with hold | hnone
    · rcases hpending k q hk with hold' | hnone'
      · exact h.one j k p q a hold hold' hp hq
      · rw [hnone'] at hq
        cases hq
    · rw [hnone] at hp
      cases hp

/-- A heartbeat begins. -/
theorem Shows.begin (h : Shows owner s) {p : Pending} {b : AgentId} (hp : p.beating = some b)
    (hnone : ∀ j q, s.pending.get j = some q → q.beating ≠ some b)
    (hsound : Sound owner s.fleet.nodes p) : Shows owner (s.addPending p) where
  rows := h.rows
  beats := h.beats
  pending := by
    intro j q hj
    rcases addPending_get hj with hold | ⟨-, rfl⟩
    · exact h.pending j q hold
    · exact hsound
  one := by
    intro j k q r a hj hk hq hr
    rcases addPending_get hj with hold | ⟨hjn, rfl⟩
    · rcases addPending_get hk with hold' | ⟨-, rfl⟩
      · exact h.one j k q r a hold hold' hq hr
      · rw [hp] at hr
        exact absurd (hq.trans hr.symm) (hnone j q hold)
    · rcases addPending_get hk with hold' | ⟨hkn, rfl⟩
      · rw [hp] at hq
        exact absurd (hr.trans hq.symm) (hnone k r hold')
      · exact hjn.trans hkn.symm

/-- A heartbeat is accepted: the row of its agent shows it, and the other rows stay. -/
theorem Shows.accepted (h : Shows owner s) {j : SessionId} {p : Pending} {fleet : Fleet}
    (hj : s.pending.get j = some p) (hp : p.beating = some hb.agentId)
    (hi : ∃ n, fleet.nodes.get i = some n ∧ Reports owner n hb now)
    (hother : ∀ l, l ≠ i → fleet.nodes.get l = s.fleet.nodes.get l)
    (hrow : ∀ n, s.fleet.nodes.get i = some n → n.agentId = some hb.agentId)
    (hunique : ∀ l n, s.fleet.nodes.get l = some n → n.agentId = some hb.agentId → l = i) :
    Shows owner (({ s with fleet := fleet }.dropPending j).accept hb now) where
  rows := by
    intro l m hm
    by_cases hl : l = i
    · subst hl
      obtain ⟨n, hn, hreports⟩ := hi
      obtain rfl : n = m := Option.some.inj (hn.symm.trans hm)
      exact ⟨hb, now, Function.update_self .., hreports⟩
    · have hold : s.fleet.nodes.get l = some m := (hother l hl).symm.trans hm
      obtain ⟨hb', t, hlast, hreports⟩ := h.rows l m hold
      refine ⟨hb', t, ?_, hreports⟩
      -- no other row is of this agent
      have hne : hb'.agentId ≠ hb.agentId := by
        intro heq
        exact hl (hunique l m hold (heq ▸ hreports.agentId))
      show Function.update s.lastBeat hb.agentId (some (now, hb)) hb'.agentId = _
      rw [Function.update_of_ne hne]
      exact hlast
  beats := by
    intro b last hlast
    by_cases hb' : b = hb.agentId
    · subst hb'
      obtain ⟨n, hn, hreports⟩ := hi
      exact ⟨i, n, hn, hreports.agentId⟩
    · have hlast : Function.update s.lastBeat hb.agentId (some (now, hb)) b = some last := hlast
      rw [Function.update_of_ne hb'] at hlast
      obtain ⟨l, m, hm, hagent⟩ := h.beats b last hlast
      have hl : l ≠ i := by
        rintro rfl
        rw [hrow m hm] at hagent
        exact hb' (Option.some.inj hagent).symm
      exact ⟨l, m, (hother l hl).trans hm, hagent⟩
  pending := by
    intro k q hk
    obtain ⟨hold, hkj⟩ := dropPending_get hk
    -- the agent has no other heartbeat under way
    have hq : q.beating ≠ some hb.agentId := fun hq => hkj (h.one k j q p _ hold hj hq hp)
    refine (h.pending k q hold).other (fun l m hm => ?_) fun l m b hm hagent hbeating => ?_
    · by_cases hl : l = i
      · subst hl
        obtain ⟨n, hn, hreports⟩ := hi
        obtain rfl : n = m := Option.some.inj (hn.symm.trans hm)
        exact .inr ⟨_, hreports.agentId, hq⟩
      · exact .inl ⟨m, (hother l hl).symm.trans hm, rfl⟩
    · have hl : l ≠ i := by
        rintro rfl
        rw [hrow m hm] at hagent
        exact hq (hbeating.trans hagent.symm)
      exact ⟨m, (hother l hl).trans hm, .refl m⟩
  one := by
    intro k l q r b hk hl hq hr
    exact h.one k l q r b (dropPending_get hk).1 (dropPending_get hl).1 hq hr

/-- The operator's request commits. -/
theorem Shows.edited (h : Shows owner s) {j : SessionId} {fleet : Fleet}
    (hx : ∀ hb now, x ≠ .beat hb now)
    (hnodes : fleet.nodes = s.fleet.nodes.modify i (Node.merge loaded (x.apply loaded))) :
    Shows owner ({ s with fleet := fleet }.dropPending j) := by
  have hget : ∀ l, fleet.nodes.get l = if l = i then
      (s.fleet.nodes.get l).map (Node.merge loaded (x.apply loaded))
      else s.fleet.nodes.get l := by
    intro l
    rw [hnodes]
    by_cases hl : l = i
    · rw [hl, Table.get_modify_self, if_pos rfl]
    · rw [Table.get_modify_ne _ _ hl, if_neg hl]
  have hsame : ∀ m, SameReport m (Node.merge loaded (x.apply loaded) m) :=
    sameReport_merge (sameReport_apply hx loaded)
  have hforth : ∀ l m, s.fleet.nodes.get l = some m →
      ∃ m', fleet.nodes.get l = some m' ∧ SameReport m m' := by
    intro l m hm
    rw [hget, hm]
    split
    · exact ⟨_, rfl, hsame m⟩
    · exact ⟨m, rfl, .refl m⟩
  have hback : ∀ l m', fleet.nodes.get l = some m' →
      ∃ m, s.fleet.nodes.get l = some m ∧ SameReport m m' := by
    intro l m' hm'
    rw [hget] at hm'
    split at hm'
    · obtain ⟨m, hm, rfl⟩ := Option.map_eq_some_iff.mp hm'
      exact ⟨m, hm, hsame m⟩
    · exact ⟨m', hm', .refl m'⟩
  constructor
  · intro l m' hm'
    obtain ⟨m, hm, hreport⟩ := hback l m' hm'
    obtain ⟨hb, t, hlast, hreports⟩ := h.rows l m hm
    exact ⟨hb, t, hlast, hreports.congr hreport⟩
  · intro b last hlast
    obtain ⟨l, m, hm, hagent⟩ := h.beats b last hlast
    obtain ⟨m', hm', hreport⟩ := hforth l m hm
    exact ⟨l, m', hm', hreport.agentId.trans hagent⟩
  · intro k q hk
    refine (h.pending k q (dropPending_get hk).1).other (fun l m' hm' => ?_) fun l m _ hm _ _ =>
      hforth l m hm
    obtain ⟨m, hm, hreport⟩ := hback l m' hm'
    exact .inl ⟨m, hm, hreport.agentId.symm⟩
  · intro k l q r b hk hl hq hr
    exact h.one k l q r b (dropPending_get hk).1 (dropPending_get hl).1 hq hr

theorem Shows.step (h : Shows owner s) (hok : Orderly owner s a)
    (hstep : step settings s a = some s') : Shows owner s' := by
  have hadd : ∀ {p : Pending}, p.beating = none → ∀ j q,
      (s.addPending p).pending.get j = some q → s.pending.get j = some q ∨ q.beating = none := by
    intro p hp j q hj
    rcases addPending_get hj with hold | ⟨-, rfl⟩
    · exact .inl hold
    · exact .inr hp
  have hdrop : ∀ {server : Dispatch.State} {i : SessionId} j q,
      ({ s with server := server }.dropPending i).pending.get j = some q →
      s.pending.get j = some q ∨ q.beating = none := fun j q hj => .inl (dropPending_get hj).1
  -- what an orderly heartbeat is sure of
  have hbeat : ∀ {now path hb}, a = .beat now path hb →
      (∀ e, hb.endpoint = some e → ownerOf owner e = hb.agentId) ∧
        ∀ j q, s.pending.get j = some q → q.beating ≠ some hb.agentId := by
    rintro now path hb rfl
    obtain ⟨hown, hone⟩ := hok
    refine ⟨fun e he => ?_, fun j q hj => ?_⟩
    · rw [he] at hown
      simpa using hown
    · simpa using List.all_eq_true.mp hone (j, q) (Table.mem_rows_iff.mpr hj)
  cases step_cases hstep with
  | server _ _ => exact h.same rfl rfl fun j q hj => .inl hj
  | @beatRow now path hb i n hrow =>
      obtain ⟨hown, hone⟩ := hbeat rfl
      obtain ⟨hn, hagent⟩ := Fleet.byAgent_some.mp hrow
      exact h.begin rfl hone ⟨hagent, hown, n, hn, .refl n⟩
  | @beatLookup now path hb e hrow he =>
      obtain ⟨hown, hone⟩ := hbeat rfl
      exact h.begin rfl hone ⟨Fleet.byAgent_none.mp hrow, he, hown e he⟩
  | @beatInsert now path hb hrow he =>
      obtain ⟨hown, hone⟩ := hbeat rfl
      exact h.begin rfl hone ⟨Fleet.byAgent_none.mp hrow, hown⟩
  | @lookupRow j hb now e i n hj hrow =>
      -- the row of the endpoint would be one of the agent
      obtain ⟨hunknown, -, howner⟩ := h.pending j _ hj
      obtain ⟨hn, rfl⟩ := Fleet.byEndpoint_some hrow
      obtain ⟨hb', t, -, hreports⟩ := h.rows i n hn
      have hagent : n.agentId = some hb.agentId := by
        rw [hreports.agentId, ← hreports.endpoint, howner]
      exact absurd hagent (hunknown i n hn)
  | @lookupNone j hb now e hj hrow =>
      obtain ⟨hunknown, he, howner⟩ := h.pending j _ hj
      have hsound : Sound owner s.fleet.nodes (.insert hb now) := by
        refine ⟨hunknown, fun e' he' => ?_⟩
        rw [he] at he'
        obtain rfl := Option.some.inj he'
        exact howner
      refine ⟨h.rows, h.beats, fun k q hk => ?_, fun k l q r b hk hl hq hr => ?_⟩
      · rcases setPending_get hk with ⟨hold, -⟩ | ⟨-, rfl⟩
        · exact h.pending k q hold
        · exact hsound
      · rcases setPending_get hk with ⟨hold, -⟩ | ⟨rfl, rfl⟩
        · rcases setPending_get hl with ⟨hold', -⟩ | ⟨rfl, rfl⟩
          · exact h.one k l q r b hold hold' hq hr
          · exact h.one k l q _ b hold hj hq hr
        · rcases setPending_get hl with ⟨hold', -⟩ | ⟨rfl, rfl⟩
          · exact h.one k l _ r b hj hold' hq hr
          · rfl
  | @edit x i n hx _ =>
      refine h.same rfl rfl (hadd ?_)
      cases x with
      | beat hb now => exact absurd rfl (hx hb now)
      | offline | online | softDelete => rfl
  | @commitEdit j new x i loaded fleet hj hnodes =>
      cases x with
      | offline | online | softDelete => exact h.edited (by simp) hnodes
      | beat hb now =>
          obtain ⟨hloaded, howner, n, hn, hsame⟩ := h.pending j _ hj
          have hagent : n.agentId = some hb.agentId := hsame.agentId.trans hloaded
          have hget : fleet.nodes.get i = some (Node.merge loaded (loaded.beat hb now) n) := by
            rw [hnodes, Table.get_modify_self, hn]
            rfl
          refine h.accepted (i := i) hj rfl ⟨_, hget, ?_⟩ (fun l hl => ?_) (fun m hm => ?_)
            fun l m hm hm' => Fleet.agent_unique hm hn hm' hagent
          · refine (reports_beat howner fun _ => ?_).congr (sameReport_beat hsame _)
            obtain ⟨hb', t, -, hreports⟩ := h.rows i n hn
            have hb' : hb'.agentId = hb.agentId :=
              Option.some.inj (hreports.agentId.symm.trans hagent)
            rw [← hsame.endpoint, hreports.endpoint, hb']
          · rw [hnodes, Table.get_modify_ne _ _ hl]
          · rw [hn] at hm
            obtain rfl := Option.some.inj hm
            exact hagent
  | @commitInsert j new hb now fleet hj hfree hnodes =>
      obtain ⟨hunknown, howner⟩ := h.pending j _ hj
      have hget : ∀ l, fleet.nodes.get l =
          if l = new then some (newNode hb now) else s.fleet.nodes.get l := by
        intro l
        rw [hnodes, Table.get_insert _ _ hfree]
      refine h.accepted (i := new) hj rfl ⟨_, (hget new).trans (if_pos rfl), ?_⟩ (fun l hl => ?_)
        (fun m hm => ?_) fun l m hm hm' => absurd hm' (hunknown l m hm)
      · refine reports_beat howner fun he => ?_
        show ownerOf owner (hb.endpoint.getD (.ofAgent hb.agentId)) = hb.agentId
        rw [he]
        rfl
      · rw [hget, if_neg hl]
      · rw [hfree] at hm
        cases hm
  | pick => exact h.same rfl rfl (hadd rfl)
  | create _ _ _ => exact h.same rfl rfl hdrop
  | load => exact h.same rfl rfl (hadd rfl)
  | miss _ _ _ _ => exact h.same rfl rfl fun j q hj => .inl hj
  | drop => exact h.same rfl rfl hdrop

theorem Shows.start : Shows owner start where
  rows := by
    intro i n hn
    cases hn
  beats := by
    intro a b hb
    cases hb
  pending := by
    intro j p hj
    cases hj
  one := by
    intro j k p q a hj
    cases hj

/-- **A row shows the last heartbeat of its agent.** -/
theorem row_last_beat (h : RunOk (step settings) (Orderly owner) start s) (a : AgentId) :
    ((s.fleet.byAgent a).map fun r => (r.2.lastSeenAt, r.2.capabilities, r.2.health)) =
      (s.lastBeat a).map fun b => (some b.1, b.2.capabilities, b.2.detail) := by
  have hs : Shows owner s := h.invariant (fun _ _ _ hs hok hstep => hs.step hok hstep) .start
  cases hrow : s.fleet.byAgent a with
  | none =>
      cases hlast : s.lastBeat a with
      | none => rfl
      | some b =>
          obtain ⟨i, n, hn, hagent⟩ := hs.beats a b hlast
          exact absurd hagent (Fleet.byAgent_none.mp hrow i n hn)
  | some r =>
      obtain ⟨hn, hagent⟩ := Fleet.byAgent_some.mp hrow
      obtain ⟨hb, t, hlast, hreports⟩ := hs.rows r.1 r.2 hn
      obtain rfl : hb.agentId = a := Option.some.inj (hreports.agentId.symm.trans hagent)
      rw [hlast]
      show some (r.2.lastSeenAt, r.2.capabilities, r.2.health) =
        some (some t, hb.capabilities, hb.detail)
      rw [hreports.lastSeenAt, hreports.capabilities, hreports.health]

/-- So the reconciler reads when the agent was last heard. -/
theorem lastSeen_last_beat (h : RunOk (step settings) (Orderly owner) start s) (a : AgentId) :
    s.fleet.lastSeen a = (s.lastBeat a).map Prod.fst := by
  have hrow := row_last_beat h a
  unfold Fleet.lastSeen
  cases hr : s.fleet.byAgent a with
  | none =>
      rw [hr] at hrow
      cases hlast : s.lastBeat a with
      | none => rfl
      | some b =>
          rw [hlast] at hrow
          cases hrow
  | some r =>
      rw [hr] at hrow
      cases hlast : s.lastBeat a with
      | none =>
          rw [hlast] at hrow
          cases hrow
      | some b =>
          rw [hlast] at hrow
          exact congrArg Prod.fst (Option.some.inj hrow)

theorem unreachable_iff {lastSeen : Option Time} :
    unreachable settings now lastSeen = true ↔
      ∀ seen, lastSeen = some seen → settings.heartbeatTimeoutSeconds < now - seen := by
  unfold unreachable
  cases lastSeen with
  | none => simp
  | some seen => simp

/-- A pass under way has been loaded on the way. -/
def Loaded (settings : AgentsSettings) (owner : Nat → AgentId) (s : State) (now : Time)
    (rows : List (ExecutionId × Execution)) (lastSeen : AgentId → Option Time) : Prop :=
  ∃ s₁ s₂, RunOk (step settings) (Orderly owner) start s₁ ∧
    step settings s₁ (.load now) = some s₂ ∧ RunOk (step settings) (Orderly owner) s₂ s ∧
    rows = NoProgress.activeRows s₁.server.db ∧ lastSeen = s₁.fleet.lastSeen

/-- A pass is under way since its own step. -/
theorem pass_of_step (h : step settings s a = some s') {j : SessionId}
    {rows : List (ExecutionId × Execution)} {lastSeen : AgentId → Option Time}
    (hj : s'.pending.get j = some (.pass now rows lastSeen)) :
    s.pending.get j = some (.pass now rows lastSeen) ∨
      a = .load now ∧ rows = NoProgress.activeRows s.server.db ∧ lastSeen = s.fleet.lastSeen := by
  rcases pending_of_step h hj with hold | hbegun
  · exact .inl hold
  · cases hbegun with
    | search hq => rcases hq with hq | ⟨_, hq⟩ <;> cases hq
    | load => exact .inr ⟨rfl, rfl, rfl⟩

/-- **Only the silent are given up.**  A pass gives an execution up for its
heartbeats exactly if it was active when the pass began and its agent's last
accepted heartbeat was too old by then, or there was none. -/
theorem lost_silent (settings : AgentsSettings) (owner : Nat → AgentId) (s : State)
    (h : RunOk (step settings) (Orderly owner) start s) (j : SessionId) (now : Time)
    (rows : List (ExecutionId × Execution)) (lastSeen : AgentId → Option Time)
    (hj : s.pending.get j = some (.pass now rows lastSeen)) :
    ∃ s₁ s₂, RunOk (step settings) (Orderly owner) start s₁ ∧
      step settings s₁ (.load now) = some s₂ ∧ RunOk (step settings) (Orderly owner) s₂ s ∧
      ∀ e held, (step settings s (.miss j e held)).isSome = true ↔
        ∃ x, (e, x) ∈ NoProgress.activeRows s₁.server.db ∧
          ∀ t hb, s₁.lastBeat x.agentId = some (t, hb) →
            settings.heartbeatTimeoutSeconds < now - t := by
  have hinv := h.invariant (I := fun t => RunOk (step settings) (Orderly owner) start t ∧
      ∀ j now rows lastSeen, t.pending.get j = some (.pass now rows lastSeen) →
        Loaded settings owner t now rows lastSeen) ?_ ⟨RunOk.refl start, by
          intro j now rows lastSeen hj
          cases hj⟩
  · obtain ⟨s₁, s₂, hrun₁, hload, hrun₂, rfl, rfl⟩ := hinv.2 j now rows lastSeen hj
    refine ⟨s₁, s₂, hrun₁, hload, hrun₂, fun e held => ?_⟩
    have hsilent : ∀ a, unreachable settings now (s₁.fleet.lastSeen a) = true ↔
        ∀ t hb, s₁.lastBeat a = some (t, hb) → settings.heartbeatTimeoutSeconds < now - t := by
      intro a
      rw [unreachable_iff, lastSeen_last_beat hrun₁]
      constructor
      · intro hall t hb hlast
        exact hall t (by rw [hlast]; rfl)
      · intro hall seen hseen
        obtain ⟨⟨t, hb⟩, hlast, rfl⟩ := Option.map_eq_some_iff.mp hseen
        exact hall t hb hlast
    simp only [step, hj]
    constructor
    · intro hsome
      split at hsome
      · rename_i hany
        obtain ⟨⟨e', x⟩, hmem, hr⟩ := List.any_eq_true.mp hany
        obtain ⟨he, hun⟩ := Bool.and_eq_true_iff.mp hr
        obtain rfl : e' = e := by simpa using he
        exact ⟨x, hmem, (hsilent x.agentId).mp hun⟩
      · cases hsome
    · rintro ⟨x, hmem, hall⟩
      have hany : ((NoProgress.activeRows s₁.server.db).any fun r =>
          r.1 == e && unreachable settings now (s₁.fleet.lastSeen r.2.agentId)) = true :=
        List.any_eq_true.mpr ⟨(e, x), hmem, by simp [(hsilent x.agentId).mpr hall]⟩
      rw [if_pos hany]
      rfl
  · rintro t a t' ⟨hrun, hloaded⟩ hok hstep
    refine ⟨Relation.ReflTransGen.tail hrun ⟨a, hok, hstep⟩, fun j now rows lastSeen hj => ?_⟩
    rcases pass_of_step hstep hj with hold | ⟨rfl, rfl, rfl⟩
    · obtain ⟨s₁, s₂, hrun₁, hload, hrun₂, hread⟩ := hloaded j now rows lastSeen hold
      exact ⟨s₁, s₂, hrun₁, hload, Relation.ReflTransGen.tail hrun₂ ⟨a, hok, hstep⟩, hread⟩
    · exact ⟨t, t', hrun, hstep, RunOk.refl t', rfl, rfl⟩

instance (s : State) (a : Action) : Decidable (Orderly owner s a) :=
  match a with
  | .beat _ _ _ => inferInstanceAs (Decidable (_ ∧ _))
  | .server .. | .lookup .. | .edit .. | .commit .. | .pick .. | .create .. | .load .. | .miss ..
  | .drop .. => isTrue trivial

theorem lost_silent_sample : ∃ s s₁ s₂, RunOk (step NoProgress.sampleSettings)
      (Orderly fun _ => 1) start s₁ ∧
    step NoProgress.sampleSettings s₁ (.load 200) = some s₂ ∧
    ∀ e held, (step NoProgress.sampleSettings s (.miss 2 e held)).isSome = true ↔
      ∃ x, (e, x) ∈ NoProgress.activeRows s₁.server.db ∧
        ∀ t hb, s₁.lastBeat x.agentId = some (t, hb) →
          NoProgress.sampleSettings.heartbeatTimeoutSeconds < 200 - t := by
  obtain ⟨s, hrun, hs⟩ := RunOk.exists_of_checkedRun (step NoProgress.sampleSettings)
    (Orderly fun _ => 1) start (sampleJoin ++ sampleTask ++ [.load 200])
    (fun s => (s.pending.get 2).any fun p => p.isPass 200) (by decide +kernel)
  obtain ⟨p, hp, hpass⟩ := (Option.any_eq_true _ _).mp hs
  cases p with
  | pass now rows lastSeen =>
      obtain rfl : now = 200 := by simpa [Pending.isPass] using hpass
      obtain ⟨s₁, s₂, hrun₁, hload, -, hiff⟩ := lost_silent NoProgress.sampleSettings (fun _ => 1)
        s hrun 2 200 rows lastSeen hp
      exact ⟨s, s₁, s₂, hrun₁, hload, hiff⟩
  | lookup | insert | edit | pick => cases hpass

end Beats

end Placement

end Dopilot
