/-
Dopilot/AgentStore.lean

The agent's state files: one `AttemptState` for each execution it has taken.

Every write of the store replaces one file atomically, and every `mark_*` is a
read followed by such a write with nothing in between, so a mark is one step
here: `Mark` lists them with their arguments, and `Mark.apply` is what each does
to the state it read.  A mark of an execution without a state file does nothing.
-/
import Dopilot.Protocol
import Dopilot.Table

namespace Dopilot

/-! ### Attempt states -/

/-- `reserved` (placeholder, nothing spawned) → `started` → `done`. -/
inductive Phase where
  | reserved
  | started
  | done
  deriving DecidableEq, Repr

/-- The terminal a state file records. -/
inductive AttemptResult where
  | finished
  | failed
  | canceled
  | lost
  deriving DecidableEq, Repr

/-- The strongest stop signal scrapyd has acknowledged. -/
inductive Escalation where
  | term
  | kill
  | pidkill
  deriving DecidableEq, Repr

/-- The persisted state of one execution attempt. -/
structure AttemptState where
  taskId : TaskId
  executionId : ExecutionId
  scrapydJobId : Option JobId := none
  project : String := ""
  version : Option String := none
  spider : String := ""
  logPath : String := ""
  phase : Phase := .started
  result : Option AttemptResult := none
  lostReason : Option LostReason := none
  errorCode : Option String := none
  exitCode : Option Int := none
  canceled : Bool := false
  runnerType : RunnerType := .scrapy
  pgid : Option Nat := none
  workspacePath : String := ""
  shellCommand : String := ""
  logFlood : Bool := false
  logFloodBytes : Nat := 0
  logFloodRequestedAt : Option Time := none
  logFloodEscalation : Option Escalation := none
  logCapped : Bool := false
  errorCount : Option Nat := none
  finishReason : Option String := none
  logBytes : Option Nat := none
  outcomeClass : Option String := none
  stopIntent : Option StopIntent := none
  stopRequestedAt : Option Time := none
  stopEscalation : Option Escalation := none
  cleanupPending : Bool := false
  killPending : Bool := false
  killLastAttemptAt : Option Time := none
  terminalPending : Bool := false
  deriving DecidableEq, Repr

/-! ### Marks -/

/-- The updates of a state file, each a single atomic write. -/
inductive Mark where
  | promoteStarted (scrapydJobId : JobId) (logPath : String)
  | promoteStartedWheel (pgid : Nat) (workspacePath logPath : String)
  | done (result : AttemptResult) (lostReason : Option LostReason := none)
      (errorCode : Option String := none) (exitCode : Option Int := none)
      (killPending : Option Bool := none) (terminalPending : Option Bool := none)
  | stopRequested (intent : StopIntent) (requestedAt : Time)
  | stopEscalation (escalation : Escalation)
  | cleanupPending
  | killAttempt (at_ : Time)
  | clearKillPending
  | clearTerminalPending
  | canceled
  | logFlood (logBytes : Nat) (requestedAt : Time) (escalation : Option Escalation)
  | logCapped
  | stats (errorCount : Option Nat) (finishReason : Option String) (logBytes : Option Nat)
      (outcomeClass : Option String)
  deriving DecidableEq, Repr

/-- What a mark does to the state it read. -/
def Mark.apply : Mark → AttemptState → AttemptState
  | .promoteStarted job path, s =>
      { s with phase := .started, scrapydJobId := some job, logPath := path }
  | .promoteStartedWheel pgid workspace path, s =>
      { s with phase := .started, pgid := some pgid, workspacePath := workspace, logPath := path }
  | .done result lostReason errorCode exitCode killPending terminalPending, s =>
      { s with
        phase := .done
        result := some result
        lostReason := lostReason
        errorCode := errorCode
        exitCode := exitCode
        canceled := s.canceled || result == .canceled
        killPending := killPending.getD s.killPending
        terminalPending := terminalPending.getD s.terminalPending }
  | .stopRequested intent requestedAt, s =>
      { s with
        stopIntent := some intent
        stopRequestedAt := some requestedAt
        stopEscalation := none }
  | .stopEscalation escalation, s => { s with stopEscalation := some escalation }
  | .cleanupPending, s => { s with cleanupPending := true }
  | .killAttempt t, s => { s with killLastAttemptAt := some t }
  | .clearKillPending, s => { s with killPending := false }
  | .clearTerminalPending, s => { s with terminalPending := false }
  | .canceled, s => { s with canceled := true }
  | .logFlood logBytes requestedAt escalation, s =>
      { s with
        logFlood := true
        logFloodBytes := max s.logFloodBytes logBytes
        logFloodRequestedAt := s.logFloodRequestedAt.orElse fun _ => some requestedAt
        logFloodEscalation := escalation.orElse fun _ => s.logFloodEscalation }
  | .logCapped, s => { s with logCapped := true }
  | .stats errorCount finishReason logBytes outcomeClass, s =>
      { s with
        errorCount := errorCount
        finishReason := finishReason
        logBytes := logBytes
        outcomeClass := outcomeClass }

/-- No mark changes whose attempt a state file is, nor the runner it is for. -/
@[simp] theorem Mark.apply_ids (m : Mark) (s : AttemptState) :
    (m.apply s).taskId = s.taskId ∧ (m.apply s).executionId = s.executionId ∧
      (m.apply s).runnerType = s.runnerType := by
  cases m <;> exact ⟨rfl, rfl, rfl⟩

/-! ### The store -/

/-- The state files, by execution. -/
abbrev StateStore := Table ExecutionId AttemptState

namespace StateStore

/-- `read`. -/
def read (st : StateStore) (e : ExecutionId) : Option AttemptState := st.get e

/-- A `mark_*`: read, change, write. -/
def mark (st : StateStore) (e : ExecutionId) (m : Mark) : StateStore := st.modify e m.apply

/-- `create_reserved`: `none` when a state file exists already. -/
def createReserved (st : StateStore) (s : AttemptState) : Option StateStore :=
  match st.get s.executionId with
  | some _ => none
  | none => some (st.insert s.executionId { s with phase := .reserved })

/-- `delete`. -/
def delete (st : StateStore) (e : ExecutionId) : StateStore := st.erase e

/-- `list_execution_ids`. -/
def listExecutionIds (st : StateStore) : List ExecutionId := st.rows.map Prod.fst

@[simp] theorem read_mark_self (st : StateStore) (e : ExecutionId) (m : Mark) :
    (st.mark e m).read e = (st.read e).map m.apply :=
  Table.get_modify_self st e m.apply

theorem read_mark_ne (st : StateStore) {e e' : ExecutionId} (m : Mark) (h : e' ≠ e) :
    (st.mark e m).read e' = st.read e' :=
  Table.get_modify_ne st m.apply h

/-- A marked store holds the states it held, with their identity unchanged. -/
theorem exists_read_of_mark {st : StateStore} {e e' : ExecutionId} {m : Mark} {s' : AttemptState}
    (h : (st.mark e m).read e' = some s') :
    ∃ s, st.read e' = some s ∧ s'.taskId = s.taskId ∧ s'.executionId = s.executionId ∧
      s'.runnerType = s.runnerType := by
  by_cases he : e' = e
  · subst he
    rw [read_mark_self] at h
    obtain ⟨s, hs, rfl⟩ := Option.map_eq_some_iff.mp h
    exact ⟨s, hs, m.apply_ids s⟩
  · rw [read_mark_ne _ _ he] at h
    exact ⟨s', h, rfl, rfl, rfl⟩

theorem read_createReserved {st st' : StateStore} {s : AttemptState}
    (h : st.createReserved s = some st') (e : ExecutionId) :
    st'.read e = if e = s.executionId then some { s with phase := .reserved } else st.read e := by
  unfold createReserved at h
  split at h
  · cases h
  · rename_i hnone
    obtain rfl := Option.some.inj h
    exact Table.get_insert st _ hnone e

@[simp] theorem read_delete_self (st : StateStore) (e : ExecutionId) :
    (st.delete e).read e = none := by
  rw [delete, read, Table.get_erase, if_pos rfl]

theorem read_delete_ne (st : StateStore) {e e' : ExecutionId} (h : e' ≠ e) :
    (st.delete e).read e' = st.read e' := by
  rw [delete, read, Table.get_erase, if_neg h, read]

end StateStore

end Dopilot
