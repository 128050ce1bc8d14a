/-
Dopilot/ServerLogs.lean

The server's side of log increments: one `AgentLogEvent` is applied to its
`execution_log_files` row and to the body on disk.

An increment behind `lastPulledOffset` is dropped, one at it is appended, one
past it is a gap: the row becomes partial, a visible marker is written and the
offset jumps.  The per-file cap and the budget of the logs directory may cut
what is written.  Bytes reach the disk before the row is committed, so an apply
that raises, or whose commit fails, can leave bytes behind but never a moved
offset: `applyLogEvent` returns the new rows only when it returns normally.

As long as no limit cuts it, an apply is one step of `Reassembly`: the row and
its body are the receiver, the increment is the slice (`applyLogEvent_accept`).
`applyLogEvent_duplicate` says what holds of stale slices without any such
condition, and `applyLogEvent_frame` that other files stay as they are.
-/
import Dopilot.Protocol
import Dopilot.Reassembly
import Dopilot.Table

namespace Dopilot

open Reassembly

/-! ### Rows, gauge and settings -/

/-- `execution_log_files.status`: the life cycle of a log file. -/
inductive LogStatus where
  | active
  | finalizing
  | complete
  | missing
  | expired
  deriving DecidableEq, Repr

/-- `WRITABLE_LOG_STATUSES`. -/
def LogStatus.writable : LogStatus → Bool
  | active | finalizing => true
  | complete | missing | expired => false

/-- `execution_log_files.log_integrity`: how complete a log file is. -/
inductive LogIntegrity where
  | complete
  | partialLog
  | truncated
  | missing
  | expired
  deriving DecidableEq, Repr

inductive TruncationReason where
  | sizeCap
  | dirBudget
  | maintenance
  deriving DecidableEq, Repr

def TruncationReason.text : TruncationReason → String
  | sizeCap => "size-cap"
  | dirBudget => "dir-budget"
  | maintenance => "maintenance"

/-- The primary key of `execution_log_files`. -/
structure LogKey where
  taskId : TaskId
  executionId : ExecutionId
  stream : LogStream := .log
  deriving DecidableEq, Repr

/-- The increment's row. -/
def AgentLogEvent.key (ev : AgentLogEvent) : LogKey := ⟨ev.taskId, ev.executionId, ev.stream⟩

/-- One row of `execution_log_files`. -/
structure ExecutionLogFile where
  sizeBytes : Nat := 0
  lastPulledOffset : Nat := 0
  finalOffset : Option Nat := none
  status : LogStatus := .active
  logIntegrity : LogIntegrity := .complete
  truncationReason : Option TruncationReason := none
  gapCount : Nat := 0
  firstGapExpectedOffset : Option Nat := none
  firstGapActualOffset : Option Nat := none
  deriving DecidableEq, Repr

/-- The byte gauge of the logs directory; budget 0 means no budget. -/
structure LogsDirGauge where
  budget : Nat
  value : Nat
  deriving DecidableEq, Repr

namespace LogsDirGauge

def fits (g : LogsDirGauge) (planned : Nat) : Bool :=
  g.budget == 0 || decide (g.value + planned ≤ g.budget)

def add (g : LogsDirGauge) (delta : Int) : LogsDirGauge :=
  { g with value := (max 0 ((g.value : Int) + delta)).toNat }

end LogsDirGauge

/-- `settings.logs`: 0 disables a limit. -/
structure LogsSettings where
  maxFileBytes : Nat
  maxTotalBytes : Nat
  deriving DecidableEq, Repr

/-- The rows, the bodies on disk (a missing file has size 0, as an empty one)
and the process-wide gauge, if there is one. -/
structure LogServer where
  rows : Table LogKey ExecutionLogFile
  bodies : LogKey → Bytes
  gauge : Option LogsDirGauge

/-! ### Planning and writing -/

def gapMarker (expected actual : Nat) : Bytes :=
  encode ("\n[dopilot:log-gap expected_offset=" ++ toString expected
    ++ " actual_offset=" ++ toString actual ++ "]\n")

def truncationMarker (maxBytes : Nat) (reason : TruncationReason) : Bytes :=
  encode ("\n[dopilot:log-truncated max_bytes=" ++ toString maxBytes
    ++ " reason=" ++ reason.text ++ "]\n")

/-- What will be written, and why it is cut if it is. -/
structure Plan where
  toWrite : Bytes
  reason : Option TruncationReason
  deriving DecidableEq, Repr

/-- The cap of the file: the body up to the cap, then a marker. -/
def capPlan (physicalStart : Nat) (payload : Bytes) (cap : Nat) : Plan :=
  -- `len(payload) > cap - physical_start`, without the negative room
  if 0 < cap ∧ cap < physicalStart + payload.length then
    { toWrite := payload.take (cap - physicalStart) ++ truncationMarker cap .sizeCap
      reason := some .sizeCap }
  else
    { toWrite := payload, reason := none }

/-- The budget of the directory: a marker instead of the body, if that fits. -/
def budgetPlan (g : LogsDirGauge) (plan : Plan) : Plan :=
  if 0 < g.budget ∧ g.fits plan.toWrite.length = false then
    let marker := truncationMarker g.budget .dirBudget
    { toWrite := if g.fits marker.length then marker else []
      reason := some .dirBudget }
  else plan

/-- `_plan_write`: the cap of the file first, then the budget of the directory. -/
def planWrite (physicalStart : Nat) (payload : Bytes) (cap : Nat) :
    Option LogsDirGauge → Plan
  | none => capPlan physicalStart payload cap
  | some g => budgetPlan g (capPlan physicalStart payload cap)

/-- `_write_settled`: append and tell the gauge what landed.  A failing write
lands some first part of the data. -/
def writeSettled (body data : Bytes) (gauge : Option LogsDirGauge) (landed : Nat) :
    Bytes × Option LogsDirGauge :=
  let after := body ++ data.take landed
  (after, gauge.map fun g => g.add ((after.length : Int) - body.length))

/-! ### Applying one increment -/

inductive Outcome where
  | appended
  | droppedDup
  | gapPartial
  | eof
  | noLogFile
  | truncated
  | truncatedDropped
  | sealed
  deriving DecidableEq, Repr

/-- Where an apply raises, apart from a content that does not decode: before
anything is written, or in the write after `landed` bytes. -/
inductive LogFault where
  | none
  | lookup
  | write (landed : Nat)
  deriving DecidableEq, Repr

/-- How much of the data a failing write lands; writing nothing cannot fail. -/
def LogFault.landed (fault : LogFault) (data : Bytes) : Option Nat :=
  match fault with
  | .write n => if data = [] then Option.none else some n
  | _ => Option.none

inductive LogError where
  | database
  | decode
  | disk
  deriving DecidableEq, Repr

/-- The increment pushed to live viewers: the physical span and its bytes. -/
structure SseSpan where
  startOffset : Nat
  endOffset : Nat
  content : Bytes
  deriving DecidableEq, Repr

/-- `_on_truncated`: a `stop_logs` command and a notification. -/
structure TruncationAlert where
  taskId : TaskId
  executionId : ExecutionId
  agentId : AgentId
  reason : TruncationReason
  cap : Nat
  sizeBytes : Nat
  deriving DecidableEq, Repr

/-- What an apply that returns tells its caller. -/
structure Applied where
  outcome : Outcome
  sse : Option SseSpan := Option.none
  alert : Option TruncationAlert := Option.none
  deriving DecidableEq, Repr

/-- The row after a gap was seen in front of the increment. -/
def ExecutionLogFile.markGap (f : ExecutionLogFile) (offset : Nat) : ExecutionLogFile :=
  { f with
    logIntegrity := .partialLog
    gapCount := f.gapCount + 1
    firstGapExpectedOffset := f.firstGapExpectedOffset.orElse fun _ => some f.lastPulledOffset
    firstGapActualOffset :=
      if f.firstGapExpectedOffset.isNone then some offset else f.firstGapActualOffset }

/-- The row after the increment was written. -/
def ExecutionLogFile.advance (f : ExecutionLogFile) (next physicalEnd : Nat)
    (reason : Option TruncationReason) : ExecutionLogFile :=
  { f with
    lastPulledOffset := next
    sizeBytes := physicalEnd
    finalOffset := some physicalEnd
    logIntegrity := if reason.isSome then .truncated else f.logIntegrity
    truncationReason := if reason.isSome then reason else f.truncationReason }

def alertOf (cfg : LogsSettings) (ev : AgentLogEvent) (physicalEnd : Nat)
    (reason : TruncationReason) : TruncationAlert :=
  { taskId := ev.taskId
    executionId := ev.executionId
    agentId := ev.agentId
    reason := reason
    cap := if reason = .sizeCap then cfg.maxFileBytes else cfg.maxTotalBytes
    sizeBytes := physicalEnd }

/-- The slice, behind a visible marker when it comes after a gap. -/
def payloadOf (f : ExecutionLogFile) (ev : AgentLogEvent) (raw : Bytes) : Bytes :=
  if f.lastPulledOffset < ev.offset then gapMarker f.lastPulledOffset ev.offset ++ raw else raw

/-- The write path of `apply_log_event`, for a decoded increment of a writable
row that is not behind it. -/
def writeIncrement (cfg : LogsSettings) (fault : LogFault) (ev : AgentLogEvent) (raw : Bytes)
    (f : ExecutionLogFile) (s : LogServer) : LogServer × Except LogError Applied :=
  let gap := decide (f.lastPulledOffset < ev.offset)
  let body := s.bodies ev.key
  let plan := planWrite body.length (payloadOf f ev raw) cfg.maxFileBytes s.gauge
  let landed := fault.landed plan.toWrite
  let written := writeSettled body plan.toWrite s.gauge (landed.getD plan.toWrite.length)
  let disk := { s with bodies := Function.update s.bodies ev.key written.1, gauge := written.2 }
  match landed with
  | some _ => (disk, .error .disk)
  | Option.none =>
      let physicalEnd := written.1.length
      let row := (if gap then f.markGap ev.offset else f).advance (ev.offset + ev.sizeBytes)
        physicalEnd plan.reason
      ({ disk with rows := s.rows.modify ev.key fun _ => row },
        .ok
          { outcome :=
              if plan.reason.isSome then .truncated else if gap then .gapPartial else .appended
            sse := if plan.toWrite = [] then Option.none
              else some ⟨body.length, physicalEnd, plan.toWrite⟩
            alert := plan.reason.map (alertOf cfg ev physicalEnd) })

/-- `apply_log_event`. -/
def applyLogEvent (cfg : LogsSettings) (fault : LogFault) (ev : AgentLogEvent) (s : LogServer) :
    LogServer × Except LogError Applied :=
  if fault = .lookup then (s, .error .database)
  else
    match s.rows.get ev.key with
    | Option.none => (s, .ok { outcome := .noLogFile })
    | some f =>
        if ev.eof && ev.sizeBytes == 0 then (s, .ok { outcome := .eof })
        else
          match ev.contentB64 with
          | Option.none => (s, .error .decode)
          | some raw =>
              if raw = [] then (s, .ok { outcome := if ev.eof then .eof else .droppedDup })
              else if f.status.writable = false then (s, .ok { outcome := .sealed })
              else if ev.offset < f.lastPulledOffset then (s, .ok { outcome := .droppedDup })
              else if f.logIntegrity = .truncated ∧ (0 < cfg.maxFileBytes ∨ s.gauge.isSome) then
                ({ s with rows := s.rows.modify ev.key fun f =>
                    { f with lastPulledOffset := ev.offset + ev.sizeBytes } },
                  .ok { outcome := .truncatedDropped })
              else writeIncrement cfg fault ev raw f s

/-! ### Facts -/

section Facts

variable {cfg : LogsSettings} {fault : LogFault} {ev : AgentLogEvent} {s : LogServer}
variable {f : ExecutionLogFile} {raw : Bytes}

theorem capPlan_toWrite {physicalStart cap : Nat} {payload : Bytes}
    (h : (capPlan physicalStart payload cap).reason = none) :
    (capPlan physicalStart payload cap).toWrite = payload := by
  unfold capPlan at h ⊢
  split at h
  · cases h
  · rename_i hcap
    rw [if_neg hcap]

/-- A plan that cuts nothing writes the whole payload. -/
theorem planWrite_toWrite {physicalStart cap : Nat} {payload : Bytes}
    {gauge : Option LogsDirGauge}
    (h : (planWrite physicalStart payload cap gauge).reason = none) :
    (planWrite physicalStart payload cap gauge).toWrite = payload := by
  cases gauge with
  | none => exact capPlan_toWrite h
  | some g =>
      simp only [planWrite, budgetPlan] at h ⊢
      split at h
      · cases h
      · rename_i hfits
        rw [if_neg hfits]
        exact capPlan_toWrite h

/-- A complete write leaves exactly body and data. -/
@[simp] theorem writeSettled_all (body data : Bytes) (gauge : Option LogsDirGauge) :
    (writeSettled body data gauge data.length).1 = body ++ data := by
  simp [writeSettled]

/-- The increment does not hit a limit: it is written as it is. -/
def FitsWhole (cfg : LogsSettings) (s : LogServer) (f : ExecutionLogFile) (ev : AgentLogEvent)
    (raw : Bytes) : Prop :=
  (planWrite (s.bodies ev.key).length (payloadOf f ev raw) cfg.maxFileBytes s.gauge).reason = none

/-- The server takes the increment: its row is there and writable and no limit is hit. -/
def Admits (cfg : LogsSettings) (s : LogServer) (ev : AgentLogEvent) : Prop :=
  match s.rows.get ev.key, ev.contentB64 with
  | some f, some raw =>
      f.status.writable = true ∧ f.logIntegrity ≠ .truncated ∧ FitsWhole cfg s f ev raw
  | _, _ => False

instance (cfg : LogsSettings) (s : LogServer) (ev : AgentLogEvent) : Decidable (Admits cfg s ev) := by
  unfold Admits FitsWhole
  split <;> infer_instance

/-- A row and its body, as the receiver of slices. -/
def ExecutionLogFile.assembly (f : ExecutionLogFile) (body : Bytes) : Assembly UInt8 where
  next := f.lastPulledOffset
  body := body
  gaps := f.gapCount

/-- **A slice behind the row changes nothing**, whatever becomes of it. -/
theorem applyLogEvent_duplicate (hf : s.rows.get ev.key = some f)
    (ho : ev.offset < f.lastPulledOffset) : (applyLogEvent cfg fault ev s).1 = s := by
  unfold applyLogEvent
  rw [hf]
  simp only [if_pos ho]
  repeat' split
  all_goals rfl

/-- A slice that is not dropped, as the receiver takes it. -/
theorem accept_payload (body : Bytes) (hraw : raw ≠ []) (ho : ¬ ev.offset < f.lastPulledOffset) :
    accept gapMarker (f.assembly body) ⟨ev.offset, raw⟩ =
      { next := ev.offset + raw.length
        body := body ++ payloadOf f ev raw
        gaps := if f.lastPulledOffset < ev.offset then f.gapCount + 1 else f.gapCount } := by
  have hkeep : ¬ (raw = [] ∨ ev.offset < f.lastPulledOffset) := not_or.mpr ⟨hraw, ho⟩
  by_cases hgap : f.lastPulledOffset < ev.offset
  · have hne : ev.offset ≠ f.lastPulledOffset := by omega
    simp [accept, ExecutionLogFile.assembly, payloadOf, Slice.stop, hkeep, hgap, hne]
  · have hat : ev.offset = f.lastPulledOffset := by omega
    simp [accept, ExecutionLogFile.assembly, payloadOf, Slice.stop, hraw, hat]

/-- The write path, where nothing is cut. -/
theorem writeIncrement_accept (hf : s.rows.get ev.key = some f) (hraw : raw ≠ [])
    (hlen : ev.sizeBytes = raw.length) (hi : f.logIntegrity ≠ .truncated)
    (ho : ¬ ev.offset < f.lastPulledOffset) (hfits : FitsWhole cfg s f ev raw) :
    ∃ f' applied, (writeIncrement cfg .none ev raw f s).1.rows.get ev.key = some f' ∧
      f'.assembly ((writeIncrement cfg .none ev raw f s).1.bodies ev.key)
        = accept gapMarker (f.assembly (s.bodies ev.key)) ⟨ev.offset, raw⟩ ∧
      f'.status = f.status ∧ f'.logIntegrity ≠ .truncated ∧
      (writeIncrement cfg .none ev raw f s).2 = .ok applied := by
  have hreason : (planWrite (s.bodies ev.key).length (payloadOf f ev raw) cfg.maxFileBytes
      s.gauge).reason = none := hfits
  have hwrite := planWrite_toWrite hfits
  rw [accept_payload _ hraw ho]
  by_cases hgap : f.lastPulledOffset < ev.offset
  · simp [writeIncrement, LogFault.landed, hreason, hwrite, hf, hgap, hlen,
      ExecutionLogFile.assembly, ExecutionLogFile.advance, ExecutionLogFile.markGap]
  · simp [writeIncrement, LogFault.landed, hreason, hwrite, hf, hgap, hlen, hi,
      ExecutionLogFile.assembly, ExecutionLogFile.advance]

/-- An increment that is not dropped goes to the write path. -/
theorem applyLogEvent_write (hf : s.rows.get ev.key = some f) (hw : f.status.writable = true)
    (hi : f.logIntegrity ≠ .truncated) (hc : ev.contentB64 = some raw)
    (hlen : ev.sizeBytes = raw.length) (hraw : raw ≠ []) (ho : ¬ ev.offset < f.lastPulledOffset)
    (hfault : fault ≠ .lookup) :
    applyLogEvent cfg fault ev s = writeIncrement cfg fault ev raw f s := by
  have hsize : ¬ (ev.eof && ev.sizeBytes == 0) = true := by
    have hpos : 0 < raw.length := List.length_pos_iff.mpr hraw
    have hne : ev.sizeBytes ≠ 0 := by omega
    simp [hne]
  simp [applyLogEvent, hf, hc, hraw, hw, hi, ho, hfault, hsize]

/-- An increment that is empty or behind the row changes nothing. -/
theorem applyLogEvent_dropped (hf : s.rows.get ev.key = some f) (hc : ev.contentB64 = some raw)
    (hdrop : raw = [] ∨ ev.offset < f.lastPulledOffset) : (applyLogEvent cfg fault ev s).1 = s := by
  rcases hdrop with rfl | ho
  · simp only [applyLogEvent, hf, hc]
    repeat' split
    all_goals first
      | rfl
      | contradiction
  · exact applyLogEvent_duplicate hf ho

/-- **An increment that no limit cuts is one step of the receiver.** -/
theorem applyLogEvent_accept (hf : s.rows.get ev.key = some f) (hw : f.status.writable = true)
    (hi : f.logIntegrity ≠ .truncated) (hc : ev.contentB64 = some raw)
    (hlen : ev.sizeBytes = raw.length) (hfits : FitsWhole cfg s f ev raw) :
    ∃ f' applied, (applyLogEvent cfg .none ev s).1.rows.get ev.key = some f' ∧
      f'.assembly ((applyLogEvent cfg .none ev s).1.bodies ev.key)
        = accept gapMarker (f.assembly (s.bodies ev.key)) ⟨ev.offset, raw⟩ ∧
      f'.status = f.status ∧ f'.logIntegrity ≠ .truncated ∧
      (applyLogEvent cfg .none ev s).2 = .ok applied := by
  by_cases hdrop : raw = [] ∨ ev.offset < f.lastPulledOffset
  · have haccept : accept gapMarker (f.assembly (s.bodies ev.key)) ⟨ev.offset, raw⟩
        = f.assembly (s.bodies ev.key) := if_pos hdrop
    have hok : ∃ applied, (applyLogEvent cfg .none ev s).2 = .ok applied := by
      by_cases hnil : raw = []
      · by_cases hsize : (ev.eof && ev.sizeBytes == 0) = true
        · simp [applyLogEvent, hf, hsize]
        · simp [applyLogEvent, hf, hc, hnil, hsize]
      · have hlt := hdrop.resolve_left hnil
        by_cases hsize : (ev.eof && ev.sizeBytes == 0) = true
        · simp [applyLogEvent, hf, hsize]
        · simp [applyLogEvent, hf, hc, hnil, hw, hlt, hsize]
    obtain ⟨applied, happlied⟩ := hok
    rw [applyLogEvent_dropped hf hc hdrop, haccept]
    exact ⟨f, applied, hf, rfl, rfl, hi, happlied⟩
  · obtain ⟨hraw, hstale⟩ := not_or.mp hdrop
    rw [applyLogEvent_write hf hw hi hc hlen hraw hstale (by simp)]
    exact writeIncrement_accept hf hraw hlen hi hstale hfits

/-- What the receiver writes for an increment that is not dropped. -/
theorem piece_payload (body : Bytes) (hraw : raw ≠ []) (ho : ¬ ev.offset < f.lastPulledOffset) :
    piece gapMarker (f.assembly body) ⟨ev.offset, raw⟩ = payloadOf f ev raw := by
  have hbody := accept_body gapMarker (f.assembly body) ⟨ev.offset, raw⟩
  rw [accept_payload body hraw ho] at hbody
  exact (List.append_cancel_left hbody).symm

/-- **An attempt that raises leaves a start of what an attempt that does not
raise writes.** -/
theorem applyLogEvent_attempt (fault : LogFault) (hf : s.rows.get ev.key = some f)
    (hw : f.status.writable = true) (hi : f.logIntegrity ≠ .truncated) (hc : ev.contentB64 = some raw)
    (hlen : ev.sizeBytes = raw.length) (hfits : FitsWhole cfg s f ev raw) :
    (∃ e left, (applyLogEvent cfg fault ev s).2 = .error e ∧
      left <+: piece gapMarker (f.assembly (s.bodies ev.key)) ⟨ev.offset, raw⟩ ∧
      (applyLogEvent cfg fault ev s).1.bodies ev.key = s.bodies ev.key ++ left) ∨
    applyLogEvent cfg fault ev s = applyLogEvent cfg .none ev s := by
  by_cases hlookup : fault = .lookup
  · refine .inl ⟨.database, [], ?_, List.nil_prefix, ?_⟩
    · simp [applyLogEvent, hlookup]
    · simp [applyLogEvent, hlookup]
  · by_cases hdrop : raw = [] ∨ ev.offset < f.lastPulledOffset
    · refine .inr ?_
      rcases hdrop with rfl | ho
      · simp [applyLogEvent, hlookup, hf, hc]
      · by_cases hnil : raw = []
        · simp [applyLogEvent, hlookup, hf, hc, hnil]
        · simp [applyLogEvent, hlookup, hf, hc, hnil, ho]
    · obtain ⟨hraw, ho⟩ := not_or.mp hdrop
      rw [applyLogEvent_write hf hw hi hc hlen hraw ho hlookup,
        applyLogEvent_write hf hw hi hc hlen hraw ho (by simp), piece_payload _ hraw ho]
      have hwrite := planWrite_toWrite hfits
      cases hland : fault.landed (payloadOf f ev raw) with
      | none =>
          have hnone : LogFault.none.landed (payloadOf f ev raw) = none := rfl
          refine .inr ?_
          simp only [writeIncrement, hwrite, hland, hnone]
      | some n =>
          refine .inl ⟨.disk, (payloadOf f ev raw).take n, ?_, List.take_prefix n _, ?_⟩
          · simp [writeIncrement, hwrite, hland]
          · simp [writeIncrement, hwrite, hland, writeSettled]

/-- Rows and bodies of other files are never touched. -/
theorem applyLogEvent_frame {k : LogKey} (hk : k ≠ ev.key) :
    (applyLogEvent cfg fault ev s).1.rows.get k = s.rows.get k ∧
      (applyLogEvent cfg fault ev s).1.bodies k = s.bodies k := by
  have hwrite : ∀ raw f, (writeIncrement cfg fault ev raw f s).1.rows.get k = s.rows.get k ∧
      (writeIncrement cfg fault ev raw f s).1.bodies k = s.bodies k := by
    intro raw f
    simp only [writeIncrement]
    split
    · exact ⟨rfl, Function.update_of_ne hk _ _⟩
    · exact ⟨Table.get_modify_ne _ _ hk, Function.update_of_ne hk _ _⟩
  unfold applyLogEvent
  repeat' split
  all_goals first
    | exact ⟨rfl, rfl⟩
    | exact ⟨Table.get_modify_ne _ _ hk, rfl⟩
    | exact hwrite _ _

end Facts

end Dopilot
