/-
Dopilot/Ledger.lean

The ledger of recorded outcomes, and what it does to the breaker.

Every recorded outcome of a schedule's task has one row, which a corrected
outcome overwrites.  A recording writes its row, keeps the newest rows of the
schedule and drops the others, counts how many of the newest rows of the current
generation are erroneous in a row, and applies the outcome to the breaker.

`recordLedger_spec` says what a recording comes to: the schedule's row is
`recordedRow`, and no other schedule is touched.
-/
import Mathlib.Data.List.Sort
import Dopilot.Schedules

namespace Dopilot

abbrev LedgerId := Nat

/-! ### Rows -/

/-- One row of `schedule_outcome_ledger`. -/
structure ScheduleOutcomeLedger where
  scheduleId : ScheduleId
  taskId : TaskId
  generation : Nat
  finishedAt : Time
  erroneous : Bool
  outcomeClass : Option OutcomeClass
  deriving DecidableEq, Repr

/-- The tables of the scheduler. -/
structure ScheduleDb where
  schedules : Table ScheduleId Schedule
  ledger : Table LedgerId ScheduleOutcomeLedger

/-- `ORDER BY finished_at DESC, id DESC`. -/
def newestFirst (a b : LedgerId × ScheduleOutcomeLedger) : Prop :=
  b.2.finishedAt < a.2.finishedAt ∨ a.2.finishedAt = b.2.finishedAt ∧ b.1 ≤ a.1

instance : DecidableRel newestFirst := fun a b => by
  unfold newestFirst
  infer_instance

/-- `LEDGER_MIN_KEEP`. -/
def ledgerMinKeep : Nat := 100

/-- How many rows a schedule keeps. -/
def ledgerKeep (threshold : Int) : Nat := max ledgerMinKeep (2 * threshold.toNat)

/-- `_row_class`. -/
def ScheduleOutcomeLedger.rowClass (row : ScheduleOutcomeLedger) : OutcomeClass :=
  row.outcomeClass.getD (if row.erroneous then .broken else .ok)

/-- `_count_consecutive`. -/
def countConsecutive : List (LedgerId × ScheduleOutcomeLedger) → Nat
  | [] => 0
  | r :: rows => if r.2.erroneous then countConsecutive rows + 1 else 0

/-! ### The ledger -/

namespace Ledger

/-- The rows of a schedule, newest first. -/
def rowsOf (ledger : Table LedgerId ScheduleOutcomeLedger) (sid : ScheduleId) :
    List (LedgerId × ScheduleOutcomeLedger) :=
  (ledger.rows.filter fun r => r.2.scheduleId = sid).insertionSort newestFirst

/-- The rows of one generation of a schedule, newest first. -/
def generationRows (ledger : Table LedgerId ScheduleOutcomeLedger) (sid : ScheduleId)
    (generation : Nat) : List (LedgerId × ScheduleOutcomeLedger) :=
  (rowsOf ledger sid).filter fun r => r.2.generation = generation

/-- The row of a task is written over, or added under a new id. -/
def upsert (ledger : Table LedgerId ScheduleOutcomeLedger) (id : LedgerId)
    (row : ScheduleOutcomeLedger) : Table LedgerId ScheduleOutcomeLedger :=
  if ledger.rows.any fun r => r.2.taskId = row.taskId then
    ledger.updateAll fun _ r =>
      if r.taskId = row.taskId then { row with scheduleId := r.scheduleId } else r
  else ledger.insert id row

/-- The newest rows of the schedule stay. -/
def trim (ledger : Table LedgerId ScheduleOutcomeLedger) (sid : ScheduleId) (keep : Nat) :
    Table LedgerId ScheduleOutcomeLedger :=
  let ids := ((rowsOf ledger sid).drop keep).map Prod.fst
  ledger.filter fun r => !ids.contains r.1

end Ledger

/-! ### Driving the breaker -/

namespace Schedule

variable (sched : SchedulerSettings) (now : Time)

/-- `_enter_open`. -/
def enterOpen (reason : BreakerReason) (s : Schedule) : Schedule :=
  { s with
    breakerState := .opened
    breakerReason := some reason
    breakerArtifactId := none
    breakerRetryAt := some (now + sched.breakerBackoffSeconds s.breakerLevel) }

/-- `_enter_held`: the artifact is the one of the task judged. -/
def enterHeld (artifact : Option ArtifactId) (reason : BreakerReason) (s : Schedule) : Schedule :=
  { s with
    breakerState := .held
    breakerReason := some reason
    breakerRetryAt := none
    breakerArtifactId := artifact }

/-- A failed probe: the level goes up, and the breaker is open again. -/
def reopen (reason : BreakerReason) (s : Schedule) : Schedule :=
  let level := min (s.breakerLevel + 1) sched.breakerMaxLevel
  { s with
    breakerLevel := level
    breakerState := .opened
    breakerReason := some reason
    breakerRetryAt := some (now + sched.breakerBackoffSeconds level) }

/-- `_maybe_escalate`: once for an episode. -/
def maybeEscalate (s : Schedule) : Schedule :=
  match s.breakerOpenedAt with
  | none => s
  | some openedAt =>
      if sched.breakerEscalateAfterSeconds ≤ 0 ∨ s.breakerEscalatedAt.isSome
          ∨ now - openedAt < sched.breakerEscalateAfterSeconds then s
      else { s with breakerEscalatedAt := some now }

/-- Does a closed breaker trip on so many errors in a row? -/
def trips (s : Schedule) (consecutive : Nat) : Bool :=
  decide (0 < sched.autoDisableAfterErrors)
    && decide (sched.autoDisableAfterErrors ≤ (consecutive : Int)) && s.enabled

end Schedule

/-- An outcome about to be recorded: the task's id, its row, how it was judged. -/
structure TaskOutcome where
  taskId : TaskId
  task : Task
  erroneous : Bool
  outcomeClass : OutcomeClass

namespace TaskOutcome

variable (o : TaskOutcome) (now : Time)

/-- The generation of the task. -/
def generation : Nat := o.task.scheduleGeneration.getD 0

/-- When the task finished. -/
def finishedAt : Time := o.task.finishedAt.getD now

/-- Its row of the ledger. -/
def ledgerRow (sid : ScheduleId) : ScheduleOutcomeLedger where
  scheduleId := sid
  taskId := o.taskId
  generation := o.generation
  finishedAt := o.finishedAt now
  erroneous := o.erroneous
  outcomeClass := some o.outcomeClass

def lastError : LastError where
  taskId := o.taskId
  status := o.task.status
  outcomeClass := o.outcomeClass
  finishedAt := o.finishedAt now

end TaskOutcome

namespace Schedule

/-- `_drive_breaker`, and whether the breaker tripped. -/
def driveBreaker (sched : SchedulerSettings) (now : Time) (o : TaskOutcome)
    (rows : List (LedgerId × ScheduleOutcomeLedger)) (consecutive : Nat) (isCurrent : Bool)
    (s : Schedule) : Schedule × Bool :=
  if isCurrent = false then (s, false)
  else if s.breakerState = .closed then
    if s.trips sched consecutive then
      let streak := rows.take consecutive
      let allBroken := streak.all fun r => r.2.rowClass = .broken
      let reason : BreakerReason :=
        { kind := if allBroken then .broken else .transient
          trigger := .threshold
          consecutiveErrors := consecutive
          threshold := sched.autoDisableAfterErrors
          taskIds := (streak.map fun r => r.2.taskId).take sched.autoDisableAfterErrors.toNat
          lastError := o.lastError now }
      let s := { s with breakerOpenedAt := some now, breakerEscalatedAt := none }
      if allBroken then (s.enterHeld o.task.snapshotArtifactId reason, true)
      else ({ s with breakerLevel := 0 }.enterOpen sched now reason, true)
    else (s, false)
  else if o.outcomeClass = .ok then (s.clearBreaker, false)
  else if s.breakerState ≠ .halfOpen then (s, false)
  else
    let reason : BreakerReason :=
      { kind := o.outcomeClass
        trigger := .probe
        consecutiveErrors := consecutive
        threshold := sched.autoDisableAfterErrors
        lastError := o.lastError now }
    match o.outcomeClass with
    | .broken => (s.enterHeld o.task.snapshotArtifactId reason, false)
    | .transient => ((s.reopen sched now reason).maybeEscalate sched now, false)
    -- the probe never really ran
    | .neutral | .ok => ({ s with breakerState := .opened, breakerRetryAt := some now }, false)

end Schedule

/-! ### Recording -/

namespace ScheduleDb

variable (sched : SchedulerSettings) (now : Time) (id : LedgerId) (o : TaskOutcome)

/-- The ledger after a recording. -/
def recordedLedger (db : ScheduleDb) (sid : ScheduleId) : Table LedgerId ScheduleOutcomeLedger :=
  Ledger.trim (Ledger.upsert db.ledger id (o.ledgerRow now sid)) sid
    (ledgerKeep sched.autoDisableAfterErrors)

/-- The schedule's row after a recording, and whether the breaker tripped. -/
def recordedRow (db : ScheduleDb) (sid : ScheduleId) (s : Schedule) : Schedule × Bool :=
  let rows := Ledger.generationRows (db.recordedLedger sched now id o sid) sid s.outcomeGeneration
  let consecutive := countConsecutive rows
  { s with consecutiveErrorCount := consecutive }.driveBreaker sched now o rows consecutive
    (o.generation = s.outcomeGeneration)

/-- `_record_ledger`, and the schedule whose breaker tripped. -/
def recordLedger (db : ScheduleDb) : ScheduleDb × Option ScheduleId :=
  match o.task.scheduleId with
  | none => (db, none)
  | some sid =>
      match db.schedules.get sid with
      | none => (db, none)
      | some s =>
          let recorded := db.recordedRow sched now id o sid s
          ({ schedules := db.schedules.modify sid fun _ => recorded.1
             ledger := db.recordedLedger sched now id o sid },
            if recorded.2 then some sid else none)

end ScheduleDb

/-! ### Facts -/

/-- The count is the length of the erroneous prefix. -/
theorem countConsecutive_eq (rows : List (LedgerId × ScheduleOutcomeLedger)) :
    countConsecutive rows = (rows.takeWhile fun r => r.2.erroneous).length := by
  induction rows with
  | nil => rfl
  | cons r rows ih =>
      unfold countConsecutive
      rw [List.takeWhile_cons]
      split
      · rw [List.length_cons, ih]
      · rfl

namespace ScheduleDb

variable {sched : SchedulerSettings} {now : Time} {id : LedgerId} {o : TaskOutcome}
variable {db : ScheduleDb} {sid : ScheduleId} {s : Schedule}

/-- **What a recording comes to**, for a task of a schedule. -/
theorem recordLedger_spec (sched : SchedulerSettings) (now : Time) (id : LedgerId)
    (hsid : o.task.scheduleId = some sid)
    (hs : db.schedules.get sid = some s) :
    (db.recordLedger sched now id o).1.ledger = db.recordedLedger sched now id o sid ∧
      ∀ sid', (db.recordLedger sched now id o).1.schedules.get sid' =
        if sid' = sid then some (db.recordedRow sched now id o sid s).1
        else db.schedules.get sid' := by
  have hrec : db.recordLedger sched now id o =
      ({ schedules := db.schedules.modify sid fun _ => (db.recordedRow sched now id o sid s).1
         ledger := db.recordedLedger sched now id o sid },
        if (db.recordedRow sched now id o sid s).2 then some sid else none) := by
    unfold recordLedger
    simp only [hsid, hs]
  rw [hrec]
  refine ⟨rfl, fun sid' => ?_⟩
  rw [Table.get_modify]
  by_cases h : sid' = sid
  · rw [if_pos h, if_pos h, h, hs]
    rfl
  · rw [if_neg h, if_neg h]

/-- The row of another schedule stays. -/
theorem recordLedger_other (h : o.task.scheduleId ≠ some sid) :
    (db.recordLedger sched now id o).1.schedules.get sid = db.schedules.get sid := by
  rcases hsid : o.task.scheduleId with - | sid'
  · unfold recordLedger
    simp only [hsid]
  · have hne : sid ≠ sid' := fun hc => h (hc ▸ hsid)
    rcases hget : db.schedules.get sid' with - | s
    · unfold recordLedger
      simp only [hsid, hget]
    · rw [(recordLedger_spec sched now id hsid hget).2 sid, if_neg hne]

/-- A recording creates no schedule. -/
theorem recordLedger_absent (h : db.schedules.get sid = none) :
    (db.recordLedger sched now id o).1.schedules.get sid = none := by
  by_cases hsid : o.task.scheduleId = some sid
  · unfold recordLedger
    simp only [hsid, h]
  · rw [recordLedger_other hsid, h]

end ScheduleDb

end Dopilot
