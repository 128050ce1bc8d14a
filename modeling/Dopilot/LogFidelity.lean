/-
Dopilot/LogFidelity.lean

The log pipeline from a job's file to the server's body, with crashes.

One publisher process runs `publishOnce` over and over; between any two of its
operations the job may write, the agent may move the attempt on, the server may
apply the next entry, and the agent may crash and start again from its files.

The server decides by start offsets only, so it rebuilds the file exactly as
long as the slices in the stream form a chain (`Reassembly`).  `slicesChained`
is that condition where the publisher reads: its cursor stands at the end of
what has landed, or the slice ends no later.  Main results: under it the body
is always a prefix of the job's log, without a gap, and complete once the
publisher has drained the attempt (`body_faithful`); without it a lost reply
followed by growth loses bytes for good (`body_faithful_needs_chain`).
-/
import Dopilot.LogPublisher
import Dopilot.Process
import Dopilot.ServerLogs

namespace Dopilot

open Reassembly StateMachine

/-- The agent's side, the server's side, and how many entries were applied. -/
structure LogPipeline where
  agent : LogAgent
  server : LogServer
  applied : Nat

/-- What happens beside the publisher. -/
inductive PipelineMove where
  /-- The job writes to its log. -/
  | grow (e : ExecutionId) (bytes : Bytes)
  /-- The agent takes or moves on an attempt. -/
  | reserve (s : AttemptState)
  | mark (e : ExecutionId) (m : Mark)
  /-- A log file is finalized, sealed or reopened. -/
  | setStatus (k : LogKey) (status : LogStatus)
  /-- Others write to the logs directory or free space in it. -/
  | useBudget (delta : Int)
  /-- The server applies the next entry of the stream. -/
  | apply

namespace LogPipeline

variable (cfg : PublisherConfig) (logs : LogsSettings) (taskOf : ExecutionId → TaskId)

/-- The row of an execution's log. -/
def keyOf (e : ExecutionId) : LogKey := ⟨taskOf e, e, .log⟩

/-- The slices of one file among the entries of a stream. -/
def slicesOf (k : LogKey) (stream : List AgentLogEvent) : List (Slice UInt8) :=
  stream.filterMap fun ev =>
    if ev.key = k ∧ ev.eof = false then ev.contentB64.map fun raw => ⟨ev.offset, raw⟩ else none

/-- How far the slices of an execution in the stream reach. -/
def landed (e : ExecutionId) (w : LogPipeline) : Nat :=
  landedFrom 0 (slicesOf (keyOf taskOf e) w.agent.stream)

/-- A move beside the publisher; every execution belongs to one task. -/
def move (w : LogPipeline) : PipelineMove → Option LogPipeline
  | .grow e bytes =>
      some { w with agent := { w.agent with
        jobLogs := Function.update w.agent.jobLogs e (w.agent.jobLogs e ++ bytes) } }
  | .reserve s =>
      if s.taskId = taskOf s.executionId then
        (w.agent.store.createReserved s).map fun store =>
          { w with agent := { w.agent with store := store } }
      else none
  | .mark e m => some { w with agent := { w.agent with store := w.agent.store.mark e m } }
  | .setStatus k status =>
      some { w with server := { w.server with
        rows := w.server.rows.modify k fun f => { f with status := status } } }
  | .useBudget delta =>
      some { w with server := { w.server with gauge := w.server.gauge.map (·.add delta) } }
  | .apply =>
      match w.agent.stream[w.applied]? with
      | none => none
      | some ev =>
          match applyLogEvent logs .none ev w.server with
          | (server, .ok _) => some { w with server := server, applied := w.applied + 1 }
          | (_, .error _) => none

/-- The pipeline as a system of one process. -/
def spec : Sys.Spec Unit LogOp LogOp.Res (fun _ => LogAnswer) LogIoError LogPipeline
    PipelineMove Nat where
  iface :=
    { perform := fun op x w =>
        (op.perform cfg x w.agent).map fun r => (r.1, { w with agent := r.2 }) }
  env := move logs taskOf
  launch _ _ fuel := some (publishOnce cfg fuel)
  -- the bucket is full again, so the clock it was filled at does not matter
  crash w := { w with agent := { w.agent with
    memory := .fresh cfg w.agent.memory.lastRefill } }

abbrev State := Sys Unit LogOp LogOp.Res LogIoError LogPipeline
abbrev Step := Sys.Action Unit LogOp (fun _ => LogAnswer) PipelineMove Nat

/-! ### Conditions on runs -/

/-- The publisher's cap leaves room for the log. -/
def UnderCap (job : Bytes) : Prop := cfg.cap = 0 ∨ job.length < cfg.contentCap

instance (job : Bytes) : Decidable (UnderCap cfg job) := by unfold UnderCap; infer_instance

/-- What is presupposed for an execution: its log stays under the publisher's
cap and the server takes its entries. -/
def presupposed (e : ExecutionId) : Sys.Cond Unit LogOp (fun _ => LogAnswer) LogPipeline
    PipelineMove Nat where
  env w
    | .grow e' bytes => e' = e → UnderCap cfg (w.agent.jobLogs e ++ bytes)
    | .apply =>
        match w.agent.stream[w.applied]? with
        | some ev => ev.key = keyOf taskOf e → ev.eof = false → Admits logs w.server ev
        | none => True
    | _ => True
  launch _ _ _ := True
  op _ _ _ := True
  crash _ := True

instance (e : ExecutionId) (w : LogPipeline) :
    (m : PipelineMove) → Decidable ((presupposed cfg logs taskOf e).env w m)
  | .grow e' bytes =>
      inferInstanceAs (Decidable (e' = e → UnderCap cfg (w.agent.jobLogs e ++ bytes)))
  | .apply => by
      unfold presupposed
      simp only
      split <;> infer_instance
  | .reserve _ | .mark _ _ | .setStatus _ _ | .useBudget _ => inferInstanceAs (Decidable True)

/-- Where the publisher reads a slice, its cursor is at the end of what has
landed, or the slice ends no later than that. -/
def Chains (e : ExecutionId) (w : LogPipeline) (cursor want : Nat) : Prop :=
  cursor = landed taskOf e w ∨ min (cursor + want) (w.agent.jobLogs e).length ≤ landed taskOf e w

instance (e : ExecutionId) (w : LogPipeline) (cursor want : Nat) :
    Decidable (Chains taskOf e w cursor want) := by unfold Chains; infer_instance

/-- The runs in which every slice read chains. -/
def slicesChained (e : ExecutionId) : Sys.Cond Unit LogOp (fun _ => LogAnswer) LogPipeline
    PipelineMove Nat :=
  { presupposed cfg logs taskOf e with
    op := fun
      | .readRaw e' cursor want, _, w => e' = e → Chains taskOf e w cursor want
      | _, _, _ => True }

instance (e : ExecutionId) (w : LogPipeline) (m : PipelineMove) :
    Decidable ((slicesChained cfg logs taskOf e).env w m) :=
  inferInstanceAs (Decidable ((presupposed cfg logs taskOf e).env w m))

instance (e : ExecutionId) (w : LogPipeline) (i : Unit) (fuel : Nat) :
    Decidable ((presupposed cfg logs taskOf e).launch w i fuel) :=
  inferInstanceAs (Decidable True)

instance (e : ExecutionId) (w : LogPipeline) :
    Decidable ((presupposed cfg logs taskOf e).crash w) :=
  inferInstanceAs (Decidable True)

instance (e : ExecutionId) (op : LogOp) (x : LogAnswer) (w : LogPipeline) :
    Decidable ((presupposed cfg logs taskOf e).op op x w) :=
  inferInstanceAs (Decidable True)

instance (e : ExecutionId) (w : LogPipeline) (i : Unit) (fuel : Nat) :
    Decidable ((slicesChained cfg logs taskOf e).launch w i fuel) :=
  inferInstanceAs (Decidable True)

instance (e : ExecutionId) (w : LogPipeline) :
    Decidable ((slicesChained cfg logs taskOf e).crash w) :=
  inferInstanceAs (Decidable True)

instance (e : ExecutionId) : (op : LogOp) → (x : LogAnswer) → (w : LogPipeline) →
    Decidable ((slicesChained cfg logs taskOf e).op op x w)
  | .readRaw e' cursor want, _, w =>
      inferInstanceAs (Decidable (e' = e → Chains taskOf e w cursor want))
  | .listExecutionIds, _, _ | .readState _, _, _ | .markLogCapped _, _, _ | .readCursor _, _, _
  | .writeCursor _ _, _, _ | .xadd _, _, _ | .refill, _, _ | .allowance, _, _ | .spend _, _, _
  | .rotateFrom, _, _ | .setRotateFrom _, _, _ | .eofSent _, _, _ | .addEofSent _, _, _
  | .unfollowed, _, _ => inferInstanceAs (Decidable True)

/-! ### What is claimed of a state -/

/-- Nothing was published yet and the execution's log file was just created. -/
structure Initial (e : ExecutionId) (s : State) : Prop where
  idle : s.procs () = none
  stream : s.world.agent.stream = []
  applied : s.world.applied = 0
  cursor : s.world.agent.cursors e = none
  cap : UnderCap cfg (s.world.agent.jobLogs e)
  tasks : ∀ e' st, s.world.agent.store.read e' = some st → st.taskId = taskOf e'
  row : s.world.server.rows.get (keyOf taskOf e) = some {}
  body : s.world.server.bodies (keyOf taskOf e) = []

/-- The cursor stands at the end of the log and every entry was applied. -/
def Drained (e : ExecutionId) (w : LogPipeline) : Prop :=
  (w.agent.cursors e).getD 0 = (w.agent.jobLogs e).length ∧ w.applied = w.agent.stream.length

instance (e : ExecutionId) (w : LogPipeline) : Decidable (Drained e w) := by
  unfold Drained
  infer_instance

/-- The server's body is a prefix of the job's log without a gap, and all of it
once the attempt is drained. -/
def BodyFaithful (e : ExecutionId) (w : LogPipeline) : Prop :=
  ∃ f, w.server.rows.get (keyOf taskOf e) = some f ∧ f.gapCount = 0 ∧
    w.server.bodies (keyOf taskOf e) <+: w.agent.jobLogs e ∧
    (Drained e w → w.server.bodies (keyOf taskOf e) = w.agent.jobLogs e)

/-! ### The invariant -/

section Invariant

variable {cfg logs taskOf} {e : ExecutionId} {w w' : LogPipeline}

/-- What holds of the pipeline in every state of a chained run. -/
structure Inv (cfg : PublisherConfig) (taskOf : ExecutionId → TaskId) (e : ExecutionId)
    (w : LogPipeline) : Prop where
  tasks : ∀ e' st, w.agent.store.read e' = some st → st.taskId = taskOf e'
  cap : UnderCap cfg (w.agent.jobLogs e)
  wellFormed : ∀ ev ∈ w.agent.stream, ev.key = keyOf taskOf e →
    if ev.eof then ev.sizeBytes = 0 else ∃ raw, ev.contentB64 = some raw ∧ ev.sizeBytes = raw.length
  cut : ∀ sl ∈ slicesOf (keyOf taskOf e) w.agent.stream, CutFrom (w.agent.jobLogs e) sl
  chained : ChainedFrom 0 (slicesOf (keyOf taskOf e) w.agent.stream)
  cursor : (w.agent.cursors e).getD 0 ≤ landed taskOf e w
  applied : w.applied ≤ w.agent.stream.length
  row : ∃ f, w.server.rows.get (keyOf taskOf e) = some f ∧ f.logIntegrity ≠ .truncated ∧
    f.assembly (w.server.bodies (keyOf taskOf e)) =
      assemble gapMarker ⟨0, [], 0⟩ (slicesOf (keyOf taskOf e) (w.agent.stream.take w.applied))

theorem slicesOf_append (k : LogKey) (l l' : List AgentLogEvent) :
    slicesOf k (l ++ l') = slicesOf k l ++ slicesOf k l' := List.filterMap_append

/-- What was landed lies inside the job's log. -/
theorem Inv.landed_le (h : Inv cfg taskOf e w) :
    landed taskOf e w ≤ (w.agent.jobLogs e).length := by
  obtain ⟨⟨-, hle⟩, hnext, -⟩ := assemble_chained gapMarker (a := ⟨0, [], 0⟩)
    h.chained h.cut ⟨rfl, Nat.zero_le _⟩
  rw [hnext] at hle
  exact hle

/-- **The invariant gives what is claimed.** -/
theorem Inv.bodyFaithful (h : Inv cfg taskOf e w) : BodyFaithful taskOf e w := by
  obtain ⟨f, hf, -, hasm⟩ := h.row
  have hsplit : slicesOf (keyOf taskOf e) w.agent.stream =
      slicesOf (keyOf taskOf e) (w.agent.stream.take w.applied) ++
        slicesOf (keyOf taskOf e) (w.agent.stream.drop w.applied) := by
    rw [← slicesOf_append, List.take_append_drop]
  have hchain := h.chained
  have hcut := h.cut
  rw [hsplit, chainedFrom_append] at hchain
  rw [hsplit] at hcut
  obtain ⟨⟨hbody, -⟩, hnext, hgaps⟩ := assemble_chained gapMarker (a := ⟨0, [], 0⟩)
    hchain.1 (fun sl hsl => hcut sl (List.mem_append_left _ hsl)) ⟨rfl, Nat.zero_le _⟩
  rw [← hasm] at hbody hnext hgaps
  have hbody' : w.server.bodies (keyOf taskOf e) = (w.agent.jobLogs e).take f.lastPulledOffset :=
    hbody
  refine ⟨f, hf, hgaps, ?_, ?_⟩
  · rw [hbody']
    exact List.take_prefix _ _
  · rintro ⟨hdrained, happlied⟩
    have hnext' : f.lastPulledOffset = landed taskOf e w := by
      rw [happlied, List.take_length] at hnext
      exact hnext
    have hall : (w.agent.jobLogs e).length ≤ f.lastPulledOffset := by
      rw [hnext', ← hdrained]
      exact h.cursor
    rw [hbody', List.take_of_length_le hall]

/-- What the publisher relies on between its operations. -/
def Rely (e : ExecutionId) (w w' : LogPipeline) : Prop :=
  w.agent.jobLogs e <+: w'.agent.jobLogs e ∧ w'.agent.stream = w.agent.stream

theorem Rely.refl (w : LogPipeline) : Rely e w w := ⟨List.prefix_rfl, rfl⟩

theorem Rely.trans {w₁ w₂ w₃ : LogPipeline} (h : Rely e w₁ w₂) (h' : Rely e w₂ w₃) :
    Rely e w₁ w₃ := ⟨h.1.trans h'.1, h'.2.trans h.2⟩

theorem Rely.landed_eq (h : Rely e w w') : landed taskOf e w' = landed taskOf e w := by
  rw [landed, landed, h.2]

/-- The slices among the applied entries grow by the entry that is applied. -/
theorem slicesOf_take_succ {stream : List AgentLogEvent} {n : Nat} {ev : AgentLogEvent}
    (h : stream[n]? = some ev) (k : LogKey) :
    slicesOf k (stream.take (n + 1)) = slicesOf k (stream.take n) ++ slicesOf k [ev] := by
  rw [List.take_add_one, h, slicesOf_append]
  rfl

theorem slicesOf_other {k : LogKey} {ev : AgentLogEvent} (h : ev.key ≠ k) :
    slicesOf k [ev] = [] := by
  simp [slicesOf, h]

theorem slicesOf_eof {k : LogKey} {ev : AgentLogEvent} (h : ev.eof = true) :
    slicesOf k [ev] = [] := by
  simp [slicesOf, h]

theorem slicesOf_slice {ev : AgentLogEvent} {raw : Bytes} (heof : ev.eof = false)
    (hc : ev.contentB64 = some raw) : slicesOf ev.key [ev] = [⟨ev.offset, raw⟩] := by
  simp [slicesOf, heof, hc]

/-- The server applies the next entry. -/
theorem Inv.apply_entry (h : Inv cfg taskOf e w) {ev : AgentLogEvent}
    (hev : w.agent.stream[w.applied]? = some ev)
    (hadm : ev.key = keyOf taskOf e → ev.eof = false → Admits logs w.server ev) :
    ∃ f, (applyLogEvent logs .none ev w.server).1.rows.get (keyOf taskOf e) = some f ∧
      f.logIntegrity ≠ .truncated ∧
      f.assembly ((applyLogEvent logs .none ev w.server).1.bodies (keyOf taskOf e)) =
        assemble gapMarker ⟨0, [], 0⟩
          (slicesOf (keyOf taskOf e) (w.agent.stream.take (w.applied + 1))) := by
  obtain ⟨f, hf, hi, hasm⟩ := h.row
  rw [slicesOf_take_succ hev, assemble_append, ← hasm]
  by_cases hk : ev.key = keyOf taskOf e
  · have hwf := h.wellFormed ev (List.mem_of_getElem? hev) hk
    cases heof : ev.eof with
    | true =>
        -- the empty end entry is only a signal
        rw [heof, if_pos rfl] at hwf
        have happly : (applyLogEvent logs .none ev w.server).1 = w.server := by
          simp [applyLogEvent, hk, hf, heof, hwf]
        rw [happly, slicesOf_eof heof]
        exact ⟨f, hf, hi, rfl⟩
    | false =>
        rw [heof, if_neg Bool.false_ne_true] at hwf
        obtain ⟨raw, hc, hlen⟩ := hwf
        rw [← hk] at hf ⊢
        have hadmits := hadm hk heof
        simp only [Admits, hf, hc] at hadmits
        obtain ⟨f', -, hf', hasm', -, hi', -⟩ :=
          applyLogEvent_accept hf hadmits.1 hi hc hlen hadmits.2.2
        rw [slicesOf_slice heof hc]
        exact ⟨f', hf', hi', hasm'⟩
  · obtain ⟨hrow, hbody⟩ :=
      @applyLogEvent_frame logs .none ev w.server _ (Ne.symm hk)
    rw [hrow, hbody, slicesOf_other hk]
    exact ⟨f, hf, hi, rfl⟩

/-- **Step lemma for what happens beside the publisher.** -/
theorem Inv.move {m : PipelineMove} (h : Inv cfg taskOf e w)
    (hok : (presupposed cfg logs taskOf e).env w m) (hm : move logs taskOf w m = some w') :
    Inv cfg taskOf e w' ∧ Rely e w w' := by
  cases m with
  | grow e' bytes =>
      obtain rfl := Option.some.inj hm
      by_cases he : e' = e
      · subst he
        have hgrow : w.agent.jobLogs e' <+: w.agent.jobLogs e' ++ bytes :=
          List.prefix_append _ _
        refine ⟨{ h with cap := ?_, cut := ?_ }, ?_⟩
        · show UnderCap cfg (Function.update w.agent.jobLogs e' _ e')
          rw [Function.update_self]
          exact hok rfl
        · intro sl hsl
          show CutFrom (Function.update w.agent.jobLogs e' _ e') sl
          rw [Function.update_self]
          exact (h.cut sl hsl).mono hgrow
        · refine ⟨?_, rfl⟩
          show _ <+: Function.update w.agent.jobLogs e' _ e'
          rw [Function.update_self]
          exact hgrow
      · have hsame : Function.update w.agent.jobLogs e' (w.agent.jobLogs e' ++ bytes) e
            = w.agent.jobLogs e := Function.update_of_ne (Ne.symm he) _ _
        refine ⟨{ h with cap := ?_, cut := ?_ }, ?_⟩
        · show UnderCap cfg (Function.update w.agent.jobLogs e' _ e)
          rw [hsame]
          exact h.cap
        · intro sl hsl
          show CutFrom (Function.update w.agent.jobLogs e' _ e) sl
          rw [hsame]
          exact h.cut sl hsl
        · refine ⟨?_, rfl⟩
          show _ <+: Function.update w.agent.jobLogs e' _ e
          exact ⟨[], (List.append_nil _).trans hsame.symm⟩
  | reserve s =>
      simp only [LogPipeline.move] at hm
      split at hm
      · rename_i htask
        obtain ⟨store, hstore, rfl⟩ := Option.map_eq_some_iff.mp hm
        refine ⟨{ h with tasks := ?_ }, Rely.refl w⟩
        intro e' st hst
        have hread := StateStore.read_createReserved hstore e'
        rw [hst] at hread
        split at hread
        · rename_i he
          obtain rfl := Option.some.inj hread
          exact he ▸ htask
        · exact h.tasks e' st hread.symm
      · cases hm
  | mark e' m =>
      obtain rfl := Option.some.inj hm
      refine ⟨{ h with tasks := ?_ }, Rely.refl w⟩
      intro e'' st hst
      obtain ⟨st', hst', htask, -⟩ := StateStore.exists_read_of_mark hst
      exact htask.trans (h.tasks e'' st' hst')
  | setStatus k status =>
      obtain rfl := Option.some.inj hm
      refine ⟨{ h with row := ?_ }, Rely.refl w⟩
      obtain ⟨f, hf, hi, hasm⟩ := h.row
      show ∃ f', (w.server.rows.modify k _).get _ = some f' ∧ _
      rw [Table.get_modify]
      by_cases hk : keyOf taskOf e = k
      · rw [if_pos hk, ← hk, hf]
        exact ⟨_, rfl, hi, hasm⟩
      · rw [if_neg hk]
        exact ⟨f, hf, hi, hasm⟩
  | useBudget delta =>
      obtain rfl := Option.some.inj hm
      exact ⟨{ h with }, Rely.refl w⟩
  | apply =>
      simp only [LogPipeline.move] at hm
      split at hm
      · cases hm
      · rename_i ev hev
        simp only [presupposed, hev] at hok
        split at hm
        · rename_i server applied happly
          obtain rfl := Option.some.inj hm
          have hrow := h.apply_entry hev hok
          rw [happly] at hrow
          have hlt : w.applied < w.agent.stream.length := (List.getElem?_eq_some_iff.mp hev).1
          exact ⟨{ h with applied := hlt, row := hrow }, Rely.refl w⟩
        · cases hm

/-! ### The publisher keeps the invariant -/

/-- The contract the publisher is verified for. -/
def publisherContract (cfg : PublisherConfig) (logs : LogsSettings)
    (taskOf : ExecutionId → TaskId) (e : ExecutionId) :
    Prog.Contract LogOp (fun _ => LogAnswer) LogPipeline :=
  Sys.contract (slicesChained cfg logs taskOf e) (Inv cfg taskOf e) (Rely e)
    (fun _ w' => Inv cfg taskOf e w') Rely.trans

/-- Safety of the publisher's programs, in the runs that chain. -/
abbrev PubSafe (cfg : PublisherConfig) (logs : LogsSettings) (taskOf : ExecutionId → TaskId)
    (e : ExecutionId) {α : Type} (p : LogProg α) (Q : Except LogIoError α → LogPipeline → Prop)
    (w : LogPipeline) : Prop :=
  p.Safe (spec cfg logs taskOf).iface (publisherContract cfg logs taskOf e) Q w

/-- The rule of one operation: it keeps the invariant and leads to `Q`. -/
theorem pubSafe_call {op : LogOp} {Q : Except LogIoError op.Res → LogPipeline → Prop}
    (h : ∀ w₁, Rely e w w₁ → Inv cfg taskOf e w₁ → ∀ x,
      (slicesChained cfg logs taskOf e).op op x w₁ → ∀ r a,
      op.perform cfg x w₁.agent = some (r, a) →
        Inv cfg taskOf e { w₁ with agent := a } ∧ Q r { w₁ with agent := a }) :
    PubSafe cfg logs taskOf e (LogOp.call op) Q w := by
  refine Prog.safe_call.mpr ?_
  intro w₁ hrely x r w₂ hok hp
  obtain ⟨⟨r', a⟩, hr, heq⟩ := Option.map_eq_some_iff.mp hp
  cases heq
  exact h w₁ hrely hok.2 x hok.1 r' a hr

/-- The rule of an operation that only reads. -/
theorem pubSafe_read {op : LogOp} {Q : Except LogIoError op.Res → LogPipeline → Prop}
    (value : LogAnswer → LogAgent → op.Res)
    (hop : ∀ x a, op.perform cfg x a = some (.ok (value x a), a))
    (h : ∀ w₁, Rely e w w₁ → Inv cfg taskOf e w₁ → ∀ x,
      (slicesChained cfg logs taskOf e).op op x w₁ → Q (.ok (value x w₁.agent)) w₁) :
    PubSafe cfg logs taskOf e (LogOp.call op) Q w := by
  refine pubSafe_call fun w₁ hrely hinv x hok r a hp => ?_
  rw [hop] at hp
  cases hp
  exact ⟨hinv, h w₁ hrely hinv x hok⟩

/-- The rule of an operation that changes only the publisher's memory. -/
theorem pubSafe_memory {op : LogOp} {Q : Except LogIoError op.Res → LogPipeline → Prop}
    (f : LogAnswer → LogAgent → PublisherMemory) (value : op.Res)
    (hop : ∀ x a, op.perform cfg x a = some (.ok value, { a with memory := f x a }))
    (h : ∀ w₁ m, Rely e w w₁ → Q (.ok value) { w₁ with agent := { w₁.agent with memory := m } }) :
    PubSafe cfg logs taskOf e (LogOp.call op) Q w := by
  refine pubSafe_call fun w₁ hrely hinv x hok r a hp => ?_
  rw [hop] at hp
  cases hp
  exact ⟨{ hinv with }, h w₁ _ hrely⟩

/-- The rule of an operation that may fail before or after its effect. -/
theorem pubSafe_faulty {op : LogOp} {Q : Except LogIoError op.Res → LogPipeline → Prop}
    (err : LogIoError) (value : LogAgent → op.Res) (f : LogAgent → LogAgent)
    (hop : ∀ x a, op.perform cfg x a = Prog.withFault x.fault err a (value a) (f a))
    (hinv : ∀ w₁, Rely e w w₁ → Inv cfg taskOf e w₁ →
      Inv cfg taskOf e { w₁ with agent := f w₁.agent })
    (hok : ∀ w₁, Rely e w w₁ → Inv cfg taskOf e w₁ →
      Q (.ok (value w₁.agent)) { w₁ with agent := f w₁.agent })
    (herr : ∀ w₂, Q (.error err) w₂) : PubSafe cfg logs taskOf e (LogOp.call op) Q w := by
  refine pubSafe_call fun w₁ hrely hinv₁ x _ r a hp => ?_
  rw [hop] at hp
  rcases Prog.withFault_cases hp with ⟨-, rfl, rfl⟩ | ⟨-, rfl, rfl⟩ | ⟨-, rfl, rfl⟩
  · exact ⟨hinv w₁ hrely hinv₁, hok w₁ hrely hinv₁⟩
  · exact ⟨hinv₁, herr _⟩
  · exact ⟨hinv w₁ hrely hinv₁, herr _⟩

/-- The rule of `xadd`: the entry lands or not, and the answer may be lost. -/
theorem pubSafe_xadd {ev : AgentLogEvent}
    {Q : Except LogIoError (Except LogIoError Unit) → LogPipeline → Prop}
    (hinv : ∀ w₁, Rely e w w₁ → Inv cfg taskOf e w₁ → Inv cfg taskOf e
      { w₁ with agent := { w₁.agent with stream := w₁.agent.stream ++ [ev] } })
    (hok : ∀ w₁, Rely e w w₁ → Inv cfg taskOf e w₁ → Q (.ok (.ok ()))
      { w₁ with agent := { w₁.agent with stream := w₁.agent.stream ++ [ev] } })
    (herr : ∀ err w₂, Q (.ok (.error err)) w₂) :
    PubSafe cfg logs taskOf e (LogOp.ask (.xadd ev)) Q w := by
  refine Prog.safe_ask.mpr ?_
  intro w₁ hrely x r w₂ hcond hp
  obtain ⟨⟨r', a⟩, hr, heq⟩ := Option.map_eq_some_iff.mp hp
  cases heq
  have hinv₁ : Inv cfg taskOf e w₁ := hcond.2
  rcases Prog.withFault_cases hr with ⟨-, rfl, rfl⟩ | ⟨-, rfl, rfl⟩ | ⟨-, rfl, rfl⟩
  · exact ⟨hinv w₁ hrely hinv₁, hok w₁ hrely hinv₁⟩
  · exact ⟨hinv₁, herr _ _⟩
  · exact ⟨hinv w₁ hrely hinv₁, herr _ _⟩

/-- The slices of an execution's file after one more entry. -/
theorem slicesOf_snoc (k : LogKey) (stream : List AgentLogEvent) (ev : AgentLogEvent) :
    slicesOf k (stream ++ [ev]) = slicesOf k stream ++ slicesOf k [ev] :=
  slicesOf_append k stream [ev]

/-- Adding an entry that makes no slice of the file. -/
theorem Inv.xadd_none (h : Inv cfg taskOf e w) {ev : AgentLogEvent}
    (hwf : ev.key = keyOf taskOf e → if ev.eof then ev.sizeBytes = 0
      else ∃ raw, ev.contentB64 = some raw ∧ ev.sizeBytes = raw.length)
    (hnone : slicesOf (keyOf taskOf e) [ev] = []) :
    Inv cfg taskOf e
      { w with agent := { w.agent with stream := w.agent.stream ++ [ev] } } := by
  have hslices : slicesOf (keyOf taskOf e) (w.agent.stream ++ [ev])
      = slicesOf (keyOf taskOf e) w.agent.stream := by
    rw [slicesOf_snoc, hnone, List.append_nil]
  obtain ⟨f, hf, hi, hasm⟩ := h.row
  refine ⟨h.tasks, h.cap, ?_, ?_, ?_, ?_, ?_, f, hf, hi, ?_⟩
  · intro ev' hev'
    rcases List.mem_append.mp hev' with hold | hnew
    · exact h.wellFormed ev' hold
    · obtain rfl := List.mem_singleton.mp hnew
      exact hwf
  · show ∀ sl ∈ slicesOf _ (w.agent.stream ++ [ev]), _
    rw [hslices]
    exact h.cut
  · show ChainedFrom 0 (slicesOf _ (w.agent.stream ++ [ev]))
    rw [hslices]
    exact h.chained
  · show _ ≤ landedFrom 0 (slicesOf _ (w.agent.stream ++ [ev]))
    rw [hslices]
    exact h.cursor
  · show w.applied ≤ (w.agent.stream ++ [ev]).length
    exact h.applied.trans (by simp)
  · show _ = assemble gapMarker _ (slicesOf _ ((w.agent.stream ++ [ev]).take w.applied))
    rw [List.take_append_of_le_length h.applied]
    exact hasm

/-- An entry of the execution is one slice of its file. -/
theorem slicesOf_sliceEvent {state : AttemptState} {cursor : Nat} {raw : Bytes}
    (htask : state.taskId = taskOf e) :
    slicesOf (keyOf taskOf e) [sliceEvent cfg state e cursor raw] = [⟨cursor, raw⟩] := by
  simp [slicesOf, sliceEvent, AgentLogEvent.key, keyOf, htask]

/-- Adding a slice of the file that chains. -/
theorem Inv.xadd_slice (h : Inv cfg taskOf e w) {state : AttemptState} {cursor : Nat}
    {raw : Bytes} (htask : state.taskId = taskOf e)
    (hcut : CutFrom (w.agent.jobLogs e) ⟨cursor, raw⟩)
    (hchain : cursor = landed taskOf e w ∨ cursor + raw.length ≤ landed taskOf e w) :
    Inv cfg taskOf e { w with agent := { w.agent with
      stream := w.agent.stream ++ [sliceEvent cfg state e cursor raw] } } := by
  have hslices : slicesOf (keyOf taskOf e)
      (w.agent.stream ++ [sliceEvent cfg state e cursor raw])
      = slicesOf (keyOf taskOf e) w.agent.stream ++ [⟨cursor, raw⟩] := by
    rw [slicesOf_snoc, slicesOf_sliceEvent htask]
  obtain ⟨f, hf, hi, hasm⟩ := h.row
  refine ⟨h.tasks, h.cap, ?_, ?_, ?_, ?_, ?_, f, hf, hi, ?_⟩
  · intro ev' hev'
    rcases List.mem_append.mp hev' with hold | hmem
    · exact h.wellFormed ev' hold
    · obtain rfl := List.mem_singleton.mp hmem
      exact fun _ => ⟨raw, rfl, rfl⟩
  · show ∀ sl ∈ slicesOf _ (w.agent.stream ++ _), _
    rw [hslices]
    intro sl hsl
    rcases List.mem_append.mp hsl with hold | hmem
    · exact h.cut sl hold
    · obtain rfl := List.mem_singleton.mp hmem
      exact hcut
  · show ChainedFrom 0 (slicesOf _ (w.agent.stream ++ _))
    rw [hslices, chainedFrom_append]
    exact ⟨h.chained, hchain, trivial⟩
  · show _ ≤ landedFrom 0 (slicesOf _ (w.agent.stream ++ _))
    rw [hslices]
    exact h.cursor.trans (landedFrom_le_append _ _ _)
  · show w.applied ≤ (w.agent.stream ++ _).length
    exact h.applied.trans (by simp)
  · show _ = assemble gapMarker _ (slicesOf _ ((w.agent.stream ++ _).take w.applied))
    rw [List.take_append_of_le_length h.applied]
    exact hasm

/-- What the tail loop of execution `e'` knows when it works on `e`. -/
def Tailing (taskOf : ExecutionId → TaskId) (e e' : ExecutionId) (state : AttemptState)
    (cursor : Nat) (w : LogPipeline) : Prop :=
  e' = e → state.taskId = taskOf e ∧ cursor ≤ landed taskOf e w

theorem Tailing.stable {e' : ExecutionId} {state : AttemptState} {cursor : Nat}
    (h : Tailing taskOf e e' state cursor w) (hr : Rely e w w') :
    Tailing taskOf e e' state cursor w' := by
  intro he
  rw [hr.landed_eq]
  exact h he

/-- An entry of another execution is no slice of the file. -/
theorem slicesOf_sliceEvent_ne {e' : ExecutionId} {state : AttemptState} {cursor : Nat}
    {raw : Bytes} (he : e' ≠ e) :
    slicesOf (keyOf taskOf e) [sliceEvent cfg state e' cursor raw] = [] :=
  slicesOf_other fun hk => he (congrArg LogKey.executionId hk)

/-- Sequencing, as the programs are written. -/
theorem pubSafe_bind {α β : Type} {p : LogProg α} {f : α → LogProg β}
    {Q : Except LogIoError β → LogPipeline → Prop}
    (h : PubSafe cfg logs taskOf e p (Prog.bindPost (spec cfg logs taskOf).iface
      (publisherContract cfg logs taskOf e) f Q) w) :
    PubSafe cfg logs taskOf e (p >>= f) Q w :=
  Prog.safe_bind.mpr h

/-- A program that may end in any way. -/
abbrev Keeps (cfg : PublisherConfig) (logs : LogsSettings) (taskOf : ExecutionId → TaskId)
    (e : ExecutionId) {α : Type} (p : LogProg α) (w : LogPipeline) : Prop :=
  PubSafe cfg logs taskOf e p (fun _ _ => True) w

theorem allowance_perform (x : LogAnswer) (a : LogAgent) :
    LogOp.perform cfg .allowance x a = some (.ok (a.memory.allowance cfg), a) := rfl

/-- The marker goes out only for executions past their cap, so never for `e`. -/
theorem publishMarker_safe {e' : ExecutionId} {state : AttemptState} {cursor : Nat} {α : Type}
    {k : Bool → LogProg α} (he : e' ≠ e)
    (hk : ∀ b w', Keeps cfg logs taskOf e (k b) w') :
    Keeps cfg logs taskOf e (publishMarker cfg state e' cursor >>= k) w := by
  refine pubSafe_bind (pubSafe_bind (pubSafe_xadd ?_ ?_ ?_))
  · intro w₁ _ hinv
    exact hinv.xadd_none (fun hkey => absurd (congrArg LogKey.executionId hkey) he)
      (slicesOf_sliceEvent_ne he)
  · intro w₁ _ _
    exact hk true _
  · intro err w₂
    exact hk false w₂

theorem Inv.cursor_lt_cap (h : Inv cfg taskOf e w) {cursor : Nat} (hc : cursor ≤ landed taskOf e w)
    (hcap : 0 < cfg.cap) : cursor < cfg.contentCap := by
  have hle := h.landed_le
  rcases h.cap with hzero | hlt
  · omega
  · omega

/-- After the marker: remember that the execution is capped. -/
theorem capTail_safe {e' : ExecutionId} {state : AttemptState} {cursor total : Nat}
    (w : LogPipeline) :
    Keeps cfg logs taskOf e (do
      let capped : Option AttemptState ← LogOp.call (.markLogCapped e')
      LogOp.call (.spend cfg.marker.length)
      return TailExit.stopped (capped.getD state) cursor total) w := by
  refine pubSafe_bind (pubSafe_faulty .disk _ _ (fun _ _ => rfl) ?_ ?_ fun _ => trivial)
  · intro w₁ _ hinv
    refine { hinv with tasks := fun e'' st hst => ?_ }
    obtain ⟨st', hst', htask, -⟩ := StateStore.exists_read_of_mark hst
    exact htask.trans (hinv.tasks e'' st' hst')
  · intro w₁ _ _
    exact pubSafe_bind (pubSafe_memory _ _ (fun _ _ => rfl) fun _ _ _ => trivial)

/-- What the tail loop of execution `e'` knows of the bytes it has read. -/
def Sliced (taskOf : ExecutionId → TaskId) (e e' : ExecutionId) (cursor : Nat) (raw : Bytes)
    (w : LogPipeline) : Prop :=
  e' = e → CutFrom (w.agent.jobLogs e) ⟨cursor, raw⟩ ∧
    (cursor = landed taskOf e w ∨ cursor + raw.length ≤ landed taskOf e w)

theorem Sliced.stable {e' : ExecutionId} {cursor : Nat} {raw : Bytes}
    (h : Sliced taskOf e e' cursor raw w) (hr : Rely e w w') :
    Sliced taskOf e e' cursor raw w' := by
  intro he
  obtain ⟨hcut, hchain⟩ := h he
  rw [hr.landed_eq]
  exact ⟨hcut.mono hr.1, hchain⟩

/-- The entry the tail loop adds keeps the invariant, whosever log it is of. -/
theorem Inv.xadd_tail (h : Inv cfg taskOf e w) {e' : ExecutionId} {state : AttemptState}
    {cursor : Nat} {raw : Bytes} (htail : Tailing taskOf e e' state cursor w)
    (hslice : Sliced taskOf e e' cursor raw w) :
    Inv cfg taskOf e { w with agent := { w.agent with
      stream := w.agent.stream ++ [sliceEvent cfg state e' cursor raw] } } := by
  by_cases he : e' = e
  · subst he
    exact h.xadd_slice (htail rfl).1 (hslice rfl).1 (hslice rfl).2
  · exact h.xadd_none (fun hkey => absurd (congrArg LogKey.executionId hkey) he)
      (slicesOf_sliceEvent_ne he)

/-- Once the entry has landed the loop may stand at its end. -/
theorem Tailing.next {e' : ExecutionId} {state : AttemptState} {cursor : Nat}
    (h : Tailing taskOf e e' state cursor w) (cfg : PublisherConfig) (raw : Bytes) :
    Tailing taskOf e e' state (cursor + raw.length) { w with agent := { w.agent with
      stream := w.agent.stream ++ [sliceEvent cfg state e' cursor raw] } } := by
  rintro rfl
  refine ⟨(h rfl).1, ?_⟩
  have hnew : slicesOf (keyOf taskOf e') [sliceEvent cfg state e' cursor raw]
      = [⟨cursor, raw⟩] := slicesOf_sliceEvent (h rfl).1
  show _ ≤ landedFrom 0 (slicesOf _ (w.agent.stream ++ _))
  rw [slicesOf_snoc, landedFrom_append, hnew]
  exact Nat.le_max_right _ _

/-- The cursor file never gets ahead of what has landed. -/
theorem Inv.writeCursor (h : Inv cfg taskOf e w) {e' : ExecutionId} {state : AttemptState}
    {cursor : Nat} (htail : Tailing taskOf e e' state cursor w) :
    Inv cfg taskOf e { w with agent := { w.agent with
      cursors := Function.update w.agent.cursors e' (some cursor) } } := by
  refine { h with cursor := ?_ }
  show (Function.update w.agent.cursors e' (some cursor) e).getD 0 ≤ landed taskOf e w
  by_cases he : e' = e
  · subst he
    rw [Function.update_self]
    exact (htail rfl).2
  · rw [Function.update_of_ne (Ne.symm he)]
    exact h.cursor

/-- What was read is a stretch of the file, and it chains where the read did. -/
theorem readRaw_chains {cursor want : Nat} {x : LogAnswer} {raw : Bytes}
    (hraw : w.agent.readRaw e cursor want x.fault = raw) (hne : raw ≠ [])
    (hchain : Chains taskOf e w cursor want) :
    CutFrom (w.agent.jobLogs e) ⟨cursor, raw⟩ ∧
      (cursor = landed taskOf e w ∨ cursor + raw.length ≤ landed taskOf e w) := by
  unfold LogAgent.readRaw at hraw
  split at hraw
  · have hlen : raw.length = min want ((w.agent.jobLogs e).length - cursor) := by
      rw [← hraw, List.length_take, List.length_drop]
    have hpos : 0 < raw.length := List.length_pos_iff.mpr hne
    refine ⟨hraw ▸ cutFrom_read _ _ _, hchain.imp id fun hle => ?_⟩
    omega
  · exact absurd hraw.symm hne

/-- **The tail loop keeps the invariant**, by induction on the rounds followed. -/
theorem tailLoop_safe {e' : ExecutionId} (fuel : Nat) {state : AttemptState} {cursor total : Nat}
    (h : Tailing taskOf e e' state cursor w) :
    Keeps cfg logs taskOf e (tailLoop cfg e' fuel state cursor total) w := by
  induction fuel generalizing cursor total w with
  | zero =>
      refine pubSafe_bind (pubSafe_call fun w₁ _ _ x _ r a hp => ?_)
      cases hp
  | succ fuel ih =>
      refine pubSafe_bind (pubSafe_read _ (fun _ _ => rfl) fun w₁ hr₁ hinv₁ x _ => ?_)
      have h₁ := h.stable hr₁
      generalize w₁.agent.memory.allowance cfg = allowance
      show Keeps cfg logs taskOf e (if allowance = 0 then _ else _) w₁
      split
      · trivial
      · split
        · rename_i hcap
          have he : e' ≠ e := fun he => absurd hcap.2 (by
            have := hinv₁.cursor_lt_cap (h₁ he).2 hcap.1
            omega)
          split
          · trivial
          · refine publishMarker_safe he fun b w₂ => ?_
            cases b with
            | false => trivial
            | true => exact capTail_safe _
        · refine pubSafe_bind (pubSafe_read (fun x a => a.readRaw e' cursor _ x.fault)
            (fun _ _ => rfl) fun w₂ hr₂ hinv₂ x₂ hchain => ?_)
          have h₂ := h₁.stable hr₂
          generalize hraw : w₂.agent.readRaw e' cursor _ x₂.fault = raw
          show Keeps cfg logs taskOf e (if raw = [] then _ else _) w₂
          split
          · trivial
          · rename_i hne
            have hslice : Sliced taskOf e e' cursor raw w₂ := by
              rintro rfl
              exact readRaw_chains hraw hne (hchain rfl)
            refine pubSafe_bind (pubSafe_xadd ?_ ?_ fun _ _ => trivial)
            · intro w₃ hr₃ hinv₃
              exact hinv₃.xadd_tail (h₂.stable hr₃) (hslice.stable hr₃)
            · intro w₃ hr₃ hinv₃
              have h₃ := (h₂.stable hr₃).next cfg raw
              refine pubSafe_bind (pubSafe_faulty .disk _ _ (fun _ _ => rfl) ?_ ?_
                fun _ => trivial)
              · intro w₄ hr₄ hinv₄
                exact hinv₄.writeCursor (h₃.stable hr₄)
              · intro w₄ hr₄ _
                refine pubSafe_bind (pubSafe_memory _ _ (fun _ _ => rfl) fun w₅ _ hr₅ => ?_)
                show Keeps cfg logs taskOf e (if raw.length < _ then _ else _) _
                split
                · trivial
                · have h₅ : Tailing taskOf e e' state (cursor + raw.length) w₅ :=
                    (h₃.stable hr₄).stable hr₅
                  exact ih (w := { w₅ with agent := { w₅.agent with memory := _ } }) h₅

/-- The end entry makes no slice. -/
theorem publishEof_safe {e' : ExecutionId} {state : AttemptState} {cursor : Nat} :
    Keeps cfg logs taskOf e (publishEof cfg state e' cursor) w := by
  refine pubSafe_bind (pubSafe_read _ (fun _ _ => rfl) fun w₁ _ _ x _ => ?_)
  show Keeps cfg logs taskOf e (if _ then _ else _) w₁
  split
  · refine pubSafe_bind (pubSafe_xadd ?_ ?_ fun _ _ => trivial)
    · intro w₂ _ hinv
      exact hinv.xadd_none (fun _ => rfl) (slicesOf_eof rfl)
    · intro w₂ _ _
      exact pubSafe_memory _ _ (fun _ _ => rfl) fun _ _ _ => trivial
  · trivial

/-- What follows the tail loop never breaks the invariant. -/
theorem exit_safe {e' : ExecutionId} (exit : TailExit) (w : LogPipeline) :
    Keeps cfg logs taskOf e (match exit with
      | .aborted total => return total
      | .stopped state cursor total => do
          publishEof cfg state e' cursor
          return total) w := by
  cases exit with
  | aborted total => trivial
  | stopped state cursor total =>
      refine pubSafe_bind (publishEof_safe.mono ?_)
      rintro (err | u) w' -
      · trivial
      · trivial

/-- **One execution's turn keeps the invariant.** -/
theorem publishAttempt_safe (fuel : Nat) (e' : ExecutionId) :
    Keeps cfg logs taskOf e (publishAttempt cfg fuel e') w := by
  refine pubSafe_bind (pubSafe_read (fun _ a => a.store.read e') (fun _ _ => rfl)
    fun w₁ _ hinv₁ _ _ => ?_)
  cases hread : w₁.agent.store.read e' with
  | none => trivial
  | some state =>
      show Keeps cfg logs taskOf e (if state.logPath = "" then _ else _) w₁
      split
      · trivial
      · refine pubSafe_bind (pubSafe_read (fun x a => a.readCursor e' x.fault) (fun _ _ => rfl)
          fun w₂ hr₂ hinv₂ x _ => ?_)
        have htail : Tailing taskOf e e' state (w₂.agent.readCursor e' x.fault) w₂ := by
          rintro rfl
          refine ⟨hinv₁.tasks e' state hread, ?_⟩
          unfold LogAgent.readCursor
          split
          · exact hinv₂.cursor
          · exact Nat.zero_le _
        show Keeps cfg logs taskOf e (if state.logCapped = true then _ else _) w₂
        split
        · exact exit_safe (.stopped state _ 0) w₂
        · refine pubSafe_bind ((tailLoop_safe fuel htail).mono ?_)
          rintro (err | exit) w₃ -
          · trivial
          · exact exit_safe exit w₃

theorem publishScan_safe (fuel start n : Nat) (order : List ExecutionId) {idx total : Nat} :
    Keeps cfg logs taskOf e (publishScan cfg fuel start n order idx total) w := by
  induction order generalizing idx total w with
  | nil => exact pubSafe_bind (pubSafe_memory _ _ (fun _ _ => rfl) fun _ _ _ => trivial)
  | cons e' rest ih =>
      refine pubSafe_bind (pubSafe_read _ (fun _ _ => rfl) fun w₁ _ _ x _ => ?_)
      generalize w₁.agent.memory.allowance cfg = allowance
      show Keeps cfg logs taskOf e (if allowance = 0 then _ else _) w₁
      split
      · exact pubSafe_bind (pubSafe_memory _ _ (fun _ _ => rfl) fun _ _ _ => trivial)
      · refine pubSafe_bind (Prog.safe_tryCatch.mpr ((publishAttempt_safe fuel e').mono ?_))
        rintro (err | published) w₂ -
        · exact ih
        · exact ih

/-- **A tick of the publisher keeps the invariant.** -/
theorem publishOnce_safe (fuel : Nat) : Keeps cfg logs taskOf e (publishOnce cfg fuel) w := by
  refine pubSafe_bind (pubSafe_memory _ _ (fun _ _ => rfl) fun w₁ _ _ => ?_)
  refine pubSafe_bind (pubSafe_read (fun _ a => a.store.listExecutionIds.insertionSort (· ≤ ·))
    (fun _ _ => rfl) fun w₂ _ _ x _ => ?_)
  generalize w₂.agent.store.listExecutionIds.insertionSort (· ≤ ·) = ids
  show Keeps cfg logs taskOf e (if ids = [] then _ else _) w₂
  split
  · trivial
  · refine pubSafe_bind (pubSafe_read (fun _ a => a.memory.rotateFrom) (fun _ _ => rfl)
      fun w₃ _ _ x _ => ?_)
    refine pubSafe_bind ((publishScan_safe fuel _ _ _).mono ?_)
    rintro (err | total) w₄ -
    · trivial
    · trivial

/-- The pipeline is a verified system. -/
def verified (cfg : PublisherConfig) (logs : LogsSettings) (taskOf : ExecutionId → TaskId)
    (e : ExecutionId) :
    Sys.Verified (spec cfg logs taskOf) (slicesChained cfg logs taskOf e) where
  Inv := Inv cfg taskOf e
  Idle _ _ := True
  rely _ := Rely e
  guar _ _ w' := Inv cfg taskOf e w'
  rely_refl _ := Rely.refl
  rely_trans _ := Rely.trans
  env_step w m w' hinv hok hm := by
    obtain ⟨hinv', hrely⟩ := hinv.move hok hm
    exact ⟨hinv', fun _ => hrely⟩
  launch_safe w i fuel p _ _ _ hp := by
    obtain rfl := Option.some.inj hp
    exact publishOnce_safe fuel
  guar_step _ _ _ _ hguar := ⟨hguar, fun j hj => absurd (Subsingleton.elim j _) hj⟩
  idle_stable _ _ _ _ _ := trivial
  crash_step w hinv _ := ⟨{ hinv with }, fun _ => trivial⟩

theorem Initial.good {s : State} (h : Initial cfg taskOf e s) :
    (verified cfg logs taskOf e).Good s := by
  have hslices : slicesOf (keyOf taskOf e) s.world.agent.stream = [] := by
    rw [h.stream]
    rfl
  refine ⟨⟨h.tasks, h.cap, ?_, ?_, ?_, ?_, ?_, {}, h.row, by decide, ?_⟩, ?_⟩
  · simp [h.stream]
  · simp [hslices]
  · rw [hslices]
    trivial
  · simp [h.cursor]
  · simp [h.applied]
  · rw [h.stream, h.body, List.take_nil]
    rfl
  · rintro ⟨⟩
    show (verified cfg logs taskOf e).ProcOk () _ (s.procs ())
    rw [h.idle]
    trivial

end Invariant

/-! ### A sample pipeline -/

def sampleConfig : PublisherConfig where
  agentId := 1
  maxBytes := 10
  cap := 0
  rate := 0

def sampleLogs : LogsSettings where
  maxFileBytes := 0
  maxTotalBytes := 0

/-- One started attempt, 7 of task 3, whose log holds two bytes. -/
def sampleStart : State where
  world :=
    { agent :=
        { store := Table.empty.insert 7 { taskId := 3, executionId := 7, logPath := "job.log" }
          jobLogs := fun _ => [1, 2]
          cursors := fun _ => none
          stream := []
          memory := .fresh sampleConfig 0 }
      server := { rows := Table.empty.insert ⟨3, 7, .log⟩ {}, bodies := fun _ => [], gauge := none }
      applied := 0 }
  procs := fun _ => none

/-- The next `n` operations of the publisher succeed. -/
def steps (n : Nat) : List Step := List.replicate n (.op () fun _ => {})

/-- The next operation takes effect, but its answer is lost. -/
def lostReply : Step := .op () fun _ => { fault := .after }

theorem sampleStart_initial : Initial sampleConfig (fun _ => 3) 7 sampleStart where
  idle := rfl
  stream := rfl
  applied := rfl
  cursor := rfl
  cap := .inl rfl
  tasks := by
    intro e st h
    have hget := Table.get_insert (Table.empty : StateStore) (k := 7)
      { taskId := 3, executionId := 7, logPath := "job.log" } rfl e
    rw [show sampleStart.world.agent.store.read e = _ from hget] at h
    split at h
    · cases h
      rfl
    · cases h
  row := rfl
  body := rfl

/-! ### Log fidelity -/

/-- **Log fidelity across restarts.**  In every run in which each slice read of
an execution's log chains, the server's body is a prefix of the job's log
without a gap, and the whole log once the attempt is drained. -/
theorem body_faithful {e : ExecutionId} {s s' : State}
    (hinit : Initial cfg taskOf e s)
    (hrun : RunOk (Sys.step (spec cfg logs taskOf)) (slicesChained cfg logs taskOf e).Holds s s') :
    BodyFaithful taskOf e s'.world :=
  ((verified cfg logs taskOf e).run hrun hinit.good).1.bodyFaithful

/-- A run with a lost reply, a crash and growth that is drained faithfully. -/
theorem body_faithful_sample :
    ∃ s' : State, BodyFaithful (fun _ => 3) 7 s'.world ∧ Drained 7 s'.world ∧
      s'.world.server.bodies ⟨3, 7, .log⟩ = [1, 2, 3] := by
  obtain ⟨s', hrun, hs'⟩ := RunOk.exists_of_checkedRun
    (Sys.step (spec sampleConfig sampleLogs fun _ => 3))
    (slicesChained sampleConfig sampleLogs (fun _ => 3) 7).Holds sampleStart
    (.start () 5 :: steps 8 ++ lostReply :: [.crash, .start () 5] ++ steps 13
      ++ [.env .apply, .env (.grow 7 [3]), .start () 5] ++ steps 13
      ++ [.env .apply, .env .apply])
    (fun s' : State => decide (Drained 7 s'.world ∧
      s'.world.server.bodies ⟨3, 7, .log⟩ = [1, 2, 3])) (by decide)
  obtain ⟨hdrained, hbody⟩ := of_decide_eq_true hs'
  exact ⟨s', body_faithful _ _ _ sampleStart_initial hrun, hdrained, hbody⟩

/-- **Without the chain bytes are lost.**  The reply of the first `XADD` is lost,
the log grows, and the next slice is longer than the one that landed: the server
drops it, and with it the new byte, although the attempt is drained. -/
theorem body_faithful_needs_chain :
    ¬ ∀ (cfg : PublisherConfig) (logs : LogsSettings) (taskOf : ExecutionId → TaskId)
      (e : ExecutionId) (s s' : State), Initial cfg taskOf e s →
      RunOk (Sys.step (spec cfg logs taskOf)) (presupposed cfg logs taskOf e).Holds s s' →
      BodyFaithful taskOf e s'.world := by
  intro hclaim
  obtain ⟨s', hrun, hs'⟩ := RunOk.exists_of_checkedRun
    (Sys.step (spec sampleConfig sampleLogs fun _ => 3))
    (presupposed sampleConfig sampleLogs (fun _ => 3) 7).Holds sampleStart
    (.start () 5 :: steps 8 ++ lostReply :: steps 1 ++ [.env (.grow 7 [3]), .start () 5]
      ++ steps 13 ++ [.env .apply, .env .apply])
    (fun s' : State => decide (Drained 7 s'.world ∧
      s'.world.server.bodies ⟨3, 7, .log⟩ ≠ s'.world.agent.jobLogs 7)) (by decide)
  obtain ⟨hdrained, hbody⟩ := of_decide_eq_true hs'
  obtain ⟨f, -, -, -, hcomplete⟩ := hclaim _ _ _ 7 _ s' sampleStart_initial hrun
  exact hbody (hcomplete hdrained)

end LogPipeline

end Dopilot
