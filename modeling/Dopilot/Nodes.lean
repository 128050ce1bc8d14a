/-
Dopilot/Nodes.lean

The agents as the server knows them: the table `nodes`.

A row is written by the heartbeats of its agent, which are matched by agent id
and else by endpoint, and by the operator, who takes a node offline, brings it
back or deletes it.  A heartbeat never touches what the operator has decided.
The rows with a fresh heartbeat, a working transport and the wanted capability
are the candidates of a task, unless the operator has taken them out.

Requests overlap.  Each loads a row, changes it and commits what differs from
what it has loaded (`Node.merge`); the unique constraints on agent ids and
endpoints are checked by the commit, so they are fields of `Fleet`.
-/
import Dopilot.Reconcile

namespace Dopilot

abbrev NodeId := Nat

/-! ### Rows -/

/-- `nodes.endpoint`: what the agent advertises, or `agent://<agent_id>`. -/
inductive Endpoint where
  | advertised (url : Nat)
  | ofAgent (a : AgentId)
  deriving DecidableEq, Repr

/-- `CapabilitySet`. -/
structure CapabilitySet where
  scrapy : Bool := false
  script : Bool := false
  docker : Bool := false
  deriving DecidableEq, Repr

/-- `states.ARTIFACT_CAPABILITY`: what an agent must be able to do. -/
def RunnerType.capability : RunnerType → CapabilitySet → Bool
  | scrapy => CapabilitySet.scrapy
  | pythonWheel => CapabilitySet.script

/-- `health["redis"]`; `running` is that of the `command_consumer`, if it is a
dictionary. -/
structure RedisHealth where
  connected : Bool
  running : Option Bool
  deriving DecidableEq, Repr

/-- `nodes.health`: its part `redis`, if it is a dictionary, and the rest. -/
structure NodeHealth where
  redis : Option RedisHealth := none
  rest : List (String × String) := []
  deriving DecidableEq, Repr

/-- The health of a node. -/
inductive NodeStatus where
  | unknown
  | unhealthy
  | degraded
  | healthy
  deriving DecidableEq, Repr

/-- One row of `nodes`. -/
structure Node where
  agentId : Option AgentId := none
  endpoint : Endpoint
  status : NodeStatus := .unknown
  capabilities : CapabilitySet := {}
  health : NodeHealth := {}
  lastSeenAt : Option Time := none
  schedulingEnabled : Bool := true
  schedulingDisabledAt : Option Time := none
  deletedAt : Option Time := none
  deriving DecidableEq, Repr

/-- `AgentHeartbeatRequest`, as far as it is read; an empty endpoint is none. -/
structure HeartbeatRequest where
  agentId : AgentId
  capabilities : CapabilitySet := {}
  detail : NodeHealth := {}
  endpoint : Option Endpoint := none
  deriving DecidableEq, Repr

/-- `DEFAULT_HEARTBEAT_TIMEOUT_SECONDS`. -/
def defaultHeartbeatTimeoutSeconds : Time := 30

/-- `_redis_transport_healthy`. -/
def NodeHealth.transportHealthy (h : NodeHealth) : Bool :=
  h.redis.any fun r => r.connected && r.running == some true

namespace Node

/-- `_heartbeat_fresh`. -/
def heartbeatFresh (n : Node) (now timeout : Time) : Bool :=
  n.lastSeenAt.any fun seen => decide (now - timeout ≤ seen)

/-- `_aggregate_node_status`. -/
def aggregateStatus (n : Node) (now timeout : Time) : NodeStatus :=
  if n.heartbeatFresh now timeout = false then
    if n.lastSeenAt.isNone then .unknown else .unhealthy
  else if n.health.transportHealthy = false then .degraded
  else .healthy

/-! ### What requests write -/

/-- What a heartbeat sets. -/
def beat (n : Node) (hb : HeartbeatRequest) (now : Time) : Node :=
  let n := { n with
    agentId := some hb.agentId
    endpoint := hb.endpoint.getD n.endpoint
    lastSeenAt := some now
    capabilities := hb.capabilities
    health := hb.detail }
  { n with status := n.aggregateStatus now defaultHeartbeatTimeoutSeconds }

/-- `offline_node`. -/
def offline (n : Node) (now : Time) : Node :=
  if n.schedulingEnabled then
    { n with schedulingEnabled := false, schedulingDisabledAt := some now }
  else n

/-- `online_node`. -/
def online (n : Node) : Node :=
  { n with schedulingEnabled := true, schedulingDisabledAt := none }

/-- `soft_delete_node`. -/
def softDelete (n : Node) (now : Time) : Node :=
  if n.deletedAt.isNone then { n with deletedAt := some now } else n

/-- A column that is set to what was loaded is not written. -/
def column {γ : Type} [DecidableEq γ] (loaded new current : γ) : γ :=
  if new = loaded then current else new

/-- The row that a commit leaves: `current` with the columns in which `new`
differs from what was loaded. -/
def merge (loaded new current : Node) : Node where
  agentId := column loaded.agentId new.agentId current.agentId
  endpoint := column loaded.endpoint new.endpoint current.endpoint
  status := column loaded.status new.status current.status
  capabilities := column loaded.capabilities new.capabilities current.capabilities
  health := column loaded.health new.health current.health
  lastSeenAt := column loaded.lastSeenAt new.lastSeenAt current.lastSeenAt
  schedulingEnabled :=
    column loaded.schedulingEnabled new.schedulingEnabled current.schedulingEnabled
  schedulingDisabledAt :=
    column loaded.schedulingDisabledAt new.schedulingDisabledAt current.schedulingDisabledAt
  deletedAt := column loaded.deletedAt new.deletedAt current.deletedAt

/-! ### Candidates -/

/-- `_healthy_capable_nodes`, for one row. -/
def candidate (n : Node) (taskType : RunnerType) (now timeout : Time) : Bool :=
  n.heartbeatFresh now timeout && n.schedulingEnabled && n.deletedAt.isNone
    && taskType.capability n.capabilities && n.aggregateStatus now timeout == .healthy

end Node

/-! ### The table -/

/-- The table `nodes` under its unique constraints. -/
structure Fleet where
  nodes : Table NodeId Node
  agents : (nodes.rows.filterMap fun r => r.2.agentId).Nodup
  endpoints : (nodes.rows.map fun r => r.2.endpoint).Nodup

namespace Fleet

/-- No rows. -/
def empty : Fleet := ⟨.empty, List.nodup_nil, List.nodup_nil⟩

/-- A commit, which the database refuses if it breaks a constraint. -/
def commit? (t : Table NodeId Node) : Option Fleet :=
  if h : (t.rows.filterMap fun r => r.2.agentId).Nodup ∧ (t.rows.map fun r => r.2.endpoint).Nodup
  then some ⟨t, h.1, h.2⟩ else none

/-- `_get_node_by_agent_id`. -/
def byAgent (f : Fleet) (a : AgentId) : Option (NodeId × Node) :=
  f.nodes.rows.find? fun r => r.2.agentId = some a

/-- `_get_node_by_endpoint`. -/
def byEndpoint (f : Fleet) (e : Endpoint) : Option (NodeId × Node) :=
  f.nodes.rows.find? fun r => r.2.endpoint = e

/-- What a pass of the reconciler reads: `_nodes_by_agent`, and the last contact. -/
def lastSeen (f : Fleet) (a : AgentId) : Option Time :=
  (f.byAgent a).bind fun r => r.2.lastSeenAt

/-- `_healthy_capable_nodes`. -/
def healthyCapableNodes (f : Fleet) (taskType : RunnerType) (now timeout : Time) :
    List (NodeId × Node) :=
  f.nodes.rows.filter fun r => r.2.candidate taskType now timeout

end Fleet

/-- `NodeStrategy`. -/
inductive NodeStrategy where
  | all
  | random
  | specified
  deriving DecidableEq, Repr

/-- `_to_strategy`; the strategy is refused if there is no such one. -/
def toStrategy (strategy : String) : Option NodeStrategy :=
  if strategy = "selected" ∨ strategy = "specified" then some .specified
  else if strategy = "random" then some .random
  else if strategy = "all" then some .all
  else none

/-- `reduce_nodes`; `choice` is what the random generator draws. -/
def reduceNodes (strategy : NodeStrategy) (choice : Nat) (nodes : List (NodeId × Node))
    (nodeIds : List Nat) : List (NodeId × Node) :=
  match strategy with
  | .all => nodes
  | .random => nodes[choice % nodes.length]?.toList
  | .specified =>
      nodes.filter fun r => decide (r.1 ∈ nodeIds) || r.2.agentId.any fun a => decide (a ∈ nodeIds)

/-- `resolve_target_nodes`: the selected nodes and the number of candidates. -/
def Fleet.resolveTargetNodes (f : Fleet) (strategy : NodeStrategy) (choice : Nat)
    (nodeIds : List Nat) (taskType : RunnerType) (now timeout : Time) :
    List (NodeId × Node) × Nat :=
  let candidates := f.healthyCapableNodes taskType now timeout
  (reduceNodes strategy choice candidates nodeIds, candidates.length)

/-! ### Facts about rows -/

namespace Node

variable {n loaded new current : Node} {hb : HeartbeatRequest} {now timeout : Time}

@[simp] theorem beat_endpoint : (n.beat hb now).endpoint = hb.endpoint.getD n.endpoint := rfl

@[simp] theorem offline_agentId : (n.offline now).agentId = n.agentId := by
  unfold offline
  split <;> rfl

@[simp] theorem offline_deletedAt : (n.offline now).deletedAt = n.deletedAt := by
  unfold offline
  split <;> rfl

@[simp] theorem softDelete_agentId : (n.softDelete now).agentId = n.agentId := by
  unfold softDelete
  split <;> rfl

@[simp] theorem softDelete_schedulingEnabled :
    (n.softDelete now).schedulingEnabled = n.schedulingEnabled := by
  unfold softDelete
  split <;> rfl

@[simp] theorem column_loaded {γ : Type} [DecidableEq γ] (loaded new : γ) :
    column loaded new loaded = new := by
  unfold column
  split
  · rename_i h
    exact h.symm
  · rfl

@[simp] theorem column_same {γ : Type} [DecidableEq γ] (loaded current : γ) :
    column loaded loaded current = current := if_pos rfl

/-- A column ends as it was, or as it was set. -/
theorem column_cases {γ : Type} [DecidableEq γ] (loaded new current : γ) :
    column loaded new current = current ∨ column loaded new current = new := by
  unfold column
  split
  · exact .inl rfl
  · exact .inr rfl

/-- A node is a candidate only if the operator has not taken it out. -/
theorem candidate_iff {taskType : RunnerType} :
    n.candidate taskType now timeout = true ↔
      n.schedulingEnabled = true ∧ n.deletedAt = none ∧
        taskType.capability n.capabilities = true ∧ n.health.transportHealthy = true ∧
          ∃ seen, n.lastSeenAt = some seen ∧ now - timeout ≤ seen := by
  have hfresh : n.heartbeatFresh now timeout = true ↔
      ∃ seen, n.lastSeenAt = some seen ∧ now - timeout ≤ seen := by
    simp [heartbeatFresh, Option.any_eq_true]
  have hstatus : n.heartbeatFresh now timeout = true →
      (n.aggregateStatus now timeout = .healthy ↔ n.health.transportHealthy = true) := by
    intro h
    simp [aggregateStatus, h]
  simp only [candidate, Bool.and_eq_true, beq_iff_eq, Option.isNone_iff_eq_none]
  constructor
  · rintro ⟨⟨⟨⟨h₁, h₂⟩, h₃⟩, h₄⟩, h₅⟩
    exact ⟨h₂, h₃, h₄, (hstatus h₁).mp h₅, hfresh.mp h₁⟩
  · rintro ⟨h₂, h₃, h₄, h₅, h₁⟩
    have h₁ := hfresh.mpr h₁
    exact ⟨⟨⟨⟨h₁, h₂⟩, h₃⟩, h₄⟩, (hstatus h₁).mpr h₅⟩

end Node

/-! ### Facts about the table -/

namespace Fleet

variable {f f' : Fleet} {t : Table NodeId Node} {i j : NodeId} {n m : Node} {a : AgentId}

theorem commit?_nodes (h : commit? t = some f) : f.nodes = t := by
  unfold commit? at h
  split at h
  · obtain rfl := Option.some.inj h
    rfl
  · cases h

/-- Entries with the same partial key are the same, if no key occurs twice. -/
theorem eq_of_nodup_filterMap {α β : Type} {g : α → Option β} {l : List α}
    (hl : (l.filterMap g).Nodup) {x y : α} (hx : x ∈ l) (hy : y ∈ l) {b : β} (hgx : g x = some b)
    (hgy : g y = some b) : x = y := by
  induction l with
  | nil => cases hx
  | cons z l ih =>
      have hkey : ∀ w ∈ l, g w = some b → g z ≠ some b := by
        intro w hw hgw hgz
        rw [List.filterMap_cons_some hgz, List.nodup_cons] at hl
        exact hl.1 (List.mem_filterMap.mpr ⟨w, hw, hgw⟩)
      rcases List.mem_cons.mp hx with hxz | hxl
      · rcases List.mem_cons.mp hy with hyz | hyl
        · exact hxz.trans hyz.symm
        · exact absurd (hxz ▸ hgx) (hkey y hyl hgy)
      · rcases List.mem_cons.mp hy with hyz | hyl
        · exact absurd (hyz ▸ hgy) (hkey x hxl hgx)
        · exact ih (hl.sublist ((List.sublist_cons_self z l).filterMap g)) hxl hyl

/-- Rows of the same agent are the same row. -/
theorem agent_unique (hi : f.nodes.get i = some n) (hj : f.nodes.get j = some m)
    (hn : n.agentId = some a) (hm : m.agentId = some a) : i = j := by
  have hrow : (i, n) = (j, m) :=
    eq_of_nodup_filterMap f.agents (Table.mem_rows_iff.mpr hi) (Table.mem_rows_iff.mpr hj) hn hm
  exact congrArg Prod.fst hrow

theorem byAgent_some : f.byAgent a = some (i, n) ↔ f.nodes.get i = some n ∧ n.agentId = some a := by
  constructor
  · intro h
    refine ⟨Table.mem_rows_iff.mp (List.mem_of_find?_eq_some h), ?_⟩
    simpa using List.find?_some h
  · rintro ⟨hi, hn⟩
    cases h : f.byAgent a with
    | none =>
        have hnone := List.find?_eq_none.mp h (i, n) (Table.mem_rows_iff.mpr hi)
        exact absurd hn (by simpa using hnone)
    | some r =>
        have hr : f.nodes.get r.1 = some r.2 :=
          Table.mem_rows_iff.mp (List.mem_of_find?_eq_some h)
        have ha : r.2.agentId = some a := by simpa using List.find?_some h
        obtain rfl := agent_unique hr hi ha hn
        rw [hi] at hr
        obtain rfl := Option.some.inj hr
        rfl

theorem byAgent_none : f.byAgent a = none ↔ ∀ i n, f.nodes.get i = some n → n.agentId ≠ some a := by
  unfold byAgent
  rw [List.find?_eq_none]
  constructor
  · intro h i n hi
    simpa using h (i, n) (Table.mem_rows_iff.mpr hi)
  · intro h r hr
    simpa using h r.1 r.2 (Table.mem_rows_iff.mp hr)

theorem byEndpoint_some {e : Endpoint} (h : f.byEndpoint e = some (i, n)) :
    f.nodes.get i = some n ∧ n.endpoint = e := by
  refine ⟨Table.mem_rows_iff.mp (List.mem_of_find?_eq_some h), ?_⟩
  simpa using List.find?_some h

/-! ### Selection -/

variable {strategy : NodeStrategy} {choice : Nat} {nodeIds : List Nat} {taskType : RunnerType}
variable {now timeout : Time}

theorem reduceNodes_sublist (nodes : List (NodeId × Node)) :
    (reduceNodes strategy choice nodes nodeIds).Sublist nodes := by
  cases strategy with
  | all => exact List.Sublist.refl nodes
  | random =>
      show (nodes[choice % nodes.length]?.toList).Sublist nodes
      cases h : nodes[choice % nodes.length]? with
      | none => exact List.nil_sublist nodes
      | some r => exact List.singleton_sublist.mpr (List.mem_of_getElem? h)
  | specified => exact List.filter_sublist

/-- What is selected is a row of the table, and a candidate. -/
theorem mem_resolveTargetNodes {r : NodeId × Node}
    (h : r ∈ (f.resolveTargetNodes strategy choice nodeIds taskType now timeout).1) :
    f.nodes.get r.1 = some r.2 ∧ r.2.candidate taskType now timeout = true := by
  have hmem := (reduceNodes_sublist _).subset h
  obtain ⟨hrow, hcand⟩ := List.mem_filter.mp hmem
  exact ⟨Table.mem_rows_iff.mp hrow, hcand⟩

/-- No agent is selected twice. -/
theorem resolveTargetNodes_agents :
    ((f.resolveTargetNodes strategy choice nodeIds taskType now timeout).1.filterMap
      fun r => r.2.agentId).Nodup := by
  have hsub : ((f.resolveTargetNodes strategy choice nodeIds taskType now timeout).1).Sublist
      f.nodes.rows := (reduceNodes_sublist _).trans List.filter_sublist
  exact f.agents.sublist (hsub.filterMap _)

end Fleet

end Dopilot
