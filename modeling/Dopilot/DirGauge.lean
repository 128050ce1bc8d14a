/-
Dopilot/DirGauge.lean

The gauge of the logs directory.

Three writers change the directory, and each settles the gauge by what it saw
happen to the size of its file: the consumer appends an increment, the retention
sweep cuts a sealed file, and it unlinks a file.  A calibration walks the whole
directory.  All of them hold the gauge's lock, so each is one operation here.

The consumer asks the budget before it appends.  A cut does not, because it is
thought to make a file smaller; but it also writes a marker, so a file that is
only a little above the cap grows (`truncate_exceeds`).  And a cut that raises
after it has cut never tells the gauge.  `Frugal` leaves out both, and
`gauge_exact` is what holds of the runs without them.
-/
import Dopilot.CapMarkers
import Dopilot.ServerLogs
import Dopilot.StateMachine
import Mathlib.Algebra.BigOperators.Group.Finset.Basic

namespace Dopilot

open StateMachine

/-! ### Cutting a file -/

/-- `_maintenance_marker`. -/
def maintenanceMarker (cap : Nat) : Bytes := truncationMarker cap .maintenance

/-- Where a cut raises: when it opens the file, or in the write of the marker,
after `landed` bytes of it. -/
inductive CutFault where
  | none
  | open
  | write (landed : Nat)
  deriving DecidableEq, Repr

/-- Whether `_truncate_file` leaves the file alone. -/
def keepsFile (body : Bytes) (cap : Nat) (readable : Bool) : Bool :=
  decide (body.length ≤ cap) || alreadyCapped body cap readable

/-- `_truncate_file`: the file afterwards, and whether the call returned. -/
def truncateFile (body : Bytes) (cap : Nat) (readable : Bool) (fault : CutFault) :
    Bytes × Bool :=
  if keepsFile body cap readable then (body, true)
  else
    match fault with
    | .none => (body.take cap ++ maintenanceMarker cap, true)
    | .open => (body, false)
    | .write n => (body.take cap ++ (maintenanceMarker cap).take n, false)

/-- The query of `truncate_oversized_log_files`. -/
def ExecutionLogFile.oversized (f : ExecutionLogFile) (cap : Nat) : Bool :=
  decide (cap < f.sizeBytes)
    && (f.logIntegrity != .truncated || decide (cap + (maintenanceMarker cap).length < f.sizeBytes))
    && f.status == .complete && f.finalOffset.isSome

namespace LogsDirGauge

def sub (g : LogsDirGauge) (released : Int) : LogsDirGauge := g.add (-released)

end LogsDirGauge

/-! ### The directory -/

/-- The log files under the root, with the rows and the gauge of the server. -/
structure LogsDir where
  server : LogServer
  files : Finset LogKey
  outside : ∀ k ∉ files, server.bodies k = []
  calibrated : Bool := false

namespace LogsDir

/-- `walk_size`. -/
def walkSize (d : LogsDir) : Nat := ∑ k ∈ d.files, (d.server.bodies k).length

/-- The body of one file is replaced, and the gauge told `settle` of it. -/
def settleFile (d : LogsDir) (k : LogKey) (body : Bytes) (settle : LogsDirGauge → LogsDirGauge) :
    LogsDir where
  server := { d.server with
    bodies := Function.update d.server.bodies k body
    gauge := d.server.gauge.map settle }
  files := insert k d.files
  outside := by
    intro k' hk'
    rw [Finset.mem_insert, not_or] at hk'
    show Function.update d.server.bodies k body k' = []
    rw [Function.update_of_ne hk'.1]
    exact d.outside k' hk'.2
  calibrated := d.calibrated

/-- `LogsDirGauge.calibrate`. -/
def calibrate (d : LogsDir) : LogsDir :=
  { d with
    server := { d.server with gauge := d.server.gauge.map fun g => { g with value := d.walkSize } }
    calibrated := true }

/-- `apply_log_event`, with its writes in the gauge's lock. -/
def append (cfg : LogsSettings) (fault : LogFault) (ev : AgentLogEvent) (d : LogsDir) : LogsDir where
  server := (applyLogEvent cfg fault ev d.server).1
  files := insert ev.key d.files
  outside := by
    intro k hk
    rw [Finset.mem_insert, not_or] at hk
    rw [(applyLogEvent_frame hk.1).2]
    exact d.outside k hk.2
  calibrated := d.calibrated

/-- The row after its file was cut. -/
def cutRow (f : ExecutionLogFile) (after : Nat) : ExecutionLogFile :=
  { f with
    sizeBytes := after
    finalOffset := some after
    logIntegrity := .truncated
    truncationReason := some .maintenance }

/-- The row is one whose file is cut. -/
def sealedRow (cfg : LogsSettings) (k : LogKey) (d : LogsDir) : Bool :=
  decide (0 < cfg.maxFileBytes) && (d.server.rows.get k).any fun f =>
    f.status == .complete && f.finalOffset.isSome

/-- Some transaction changes the rows. -/
def withRows (d : LogsDir) (rows : Table LogKey ExecutionLogFile) : LogsDir :=
  { d with server := { d.server with rows := rows } }

/-- One candidate of `truncate_oversized_log_files`.  The row is read again; the
query only narrows down for which rows this is done. -/
def truncate (cfg : LogsSettings) (k : LogKey) (readable : Bool) (fault : CutFault)
    (d : LogsDir) : LogsDir :=
  if d.sealedRow cfg k then
    let before := (d.server.bodies k).length
    let (body, returned) := truncateFile (d.server.bodies k) cfg.maxFileBytes readable fault
    -- the gauge is settled behind the call, so not at all when it raises
    let cut := d.settleFile k body fun g =>
      if returned then g.sub ((before : Int) - body.length) else g
    if returned = false ∨ body.length = before then cut
    else cut.withRows (cut.server.rows.modify k fun f => cutRow f body.length)
  else d

/-- `_aremove_settled`. -/
def unlink (k : LogKey) (removed : Bool) (d : LogsDir) : LogsDir :=
  let before := (d.server.bodies k).length
  let body := if removed then [] else d.server.bodies k
  d.settleFile k body fun g => g.sub ((before : Int) - body.length)

/-! ### Runs -/

inductive Action where
  | append (fault : LogFault) (ev : AgentLogEvent)
  | truncate (k : LogKey) (readable : Bool) (fault : CutFault)
  | unlink (k : LogKey) (removed : Bool)
  | calibrate
  /-- Some other transaction changes the rows. -/
  | rows (rows : Table LogKey ExecutionLogFile)

/-- One operation.  The server calibrates a new gauge before it hands it out. -/
def step (cfg : LogsSettings) (d : LogsDir) : Action → Option LogsDir
  | .append fault ev => if d.calibrated then some (d.append cfg fault ev) else none
  | .truncate k readable fault =>
      if d.calibrated then some (d.truncate cfg k readable fault) else none
  | .unlink k removed => if d.calibrated then some (d.unlink k removed) else none
  | .calibrate => some d.calibrate
  | .rows rows => some (d.withRows rows)

/-- The files that are there when the server starts, under a new gauge. -/
def start (cfg : LogsSettings) (rows : Table LogKey ExecutionLogFile) (files : Finset LogKey)
    (bodies : LogKey → Bytes) (outside : ∀ k ∉ files, bodies k = []) : LogsDir where
  server := { rows := rows, bodies := bodies, gauge := some ⟨cfg.maxTotalBytes, 0⟩ }
  files := files
  outside := outside

/-- The gauge shows the size of the directory. -/
def Exact (cfg : LogsSettings) (d : LogsDir) : Prop :=
  d.server.gauge = some ⟨cfg.maxTotalBytes, d.walkSize⟩

/-- The directory is within the budget, if there is one. -/
def Within (cfg : LogsSettings) (d : LogsDir) : Prop :=
  0 < cfg.maxTotalBytes → d.walkSize ≤ cfg.maxTotalBytes

/-- The file is cut. -/
def cuts (cfg : LogsSettings) (k : LogKey) (readable : Bool) (d : LogsDir) : Bool :=
  d.sealedRow cfg k && !keepsFile (d.server.bodies k) cfg.maxFileBytes readable

/-- A cut that has begun goes through to its end, or happens to leave the size as
it was; and what it adds to a file that is only a little above the cap does not
take the directory over the budget. -/
def Frugal (cfg : LogsSettings) (d : LogsDir) : Action → Prop
  | .truncate k readable fault =>
      d.cuts cfg k readable = true →
        match fault with
        | .open => True
        | .write n =>
            cfg.maxFileBytes + min n (maintenanceMarker cfg.maxFileBytes).length =
              (d.server.bodies k).length
        | .none =>
            0 < cfg.maxTotalBytes → d.walkSize ≤ cfg.maxTotalBytes →
              d.walkSize + (cfg.maxFileBytes + (maintenanceMarker cfg.maxFileBytes).length) ≤
                cfg.maxTotalBytes + (d.server.bodies k).length
  | _ => True

section Facts

variable {cfg : LogsSettings} {d d' : LogsDir} {a : Action} {k : LogKey} {body : Bytes}

/-! ### One file -/

/-- Replacing one file changes the size of the directory by what it changes of the file's. -/
theorem walkSize_of_file (hfiles : d'.files = insert k d.files)
    (hother : ∀ k', k' ≠ k → d'.server.bodies k' = d.server.bodies k') :
    d'.walkSize + (d.server.bodies k).length = d.walkSize + (d'.server.bodies k).length := by
  have hmem : k ∈ insert k d.files := Finset.mem_insert_self k d.files
  -- the walk finds the same total with the file itself counted in
  have hwider : d.walkSize = ∑ k' ∈ insert k d.files, (d.server.bodies k').length := by
    unfold walkSize
    refine Finset.sum_subset (Finset.subset_insert k d.files) fun k' _ hk' => ?_
    rw [d.outside k' hk']
    rfl
  have hnew : d'.walkSize = ∑ k' ∈ insert k d.files, (d'.server.bodies k').length := by
    unfold walkSize
    rw [hfiles]
  have hrest : ∑ k' ∈ (insert k d.files).erase k, (d'.server.bodies k').length =
      ∑ k' ∈ (insert k d.files).erase k, (d.server.bodies k').length := by
    refine Finset.sum_congr rfl fun k' hk' => ?_
    rw [hother k' (Finset.ne_of_mem_erase hk')]
  rw [hwider, hnew, ← Finset.add_sum_erase _ _ hmem, ← Finset.add_sum_erase _ _ hmem, hrest]
  omega

/-- A gauge that is told the difference shows the new value. -/
theorem add_difference {budget v : Nat} (v' : Nat) {delta : Int}
    (h : (v : Int) + delta = v') : (LogsDirGauge.mk budget v).add delta = ⟨budget, v'⟩ := by
  unfold LogsDirGauge.add
  rw [h]
  simp

/-- An operation that settles the gauge by the size of its file keeps it exact. -/
theorem Exact.of_settled (h : Exact cfg d) (hfiles : d'.files = insert k d.files)
    (hother : ∀ k', k' ≠ k → d'.server.bodies k' = d.server.bodies k')
    (hgauge : d'.server.gauge = d.server.gauge.map fun g =>
      g.add ((d'.server.bodies k).length - (d.server.bodies k).length : Int)) : Exact cfg d' := by
  have hsize := walkSize_of_file hfiles hother
  unfold Exact at h ⊢
  rw [hgauge, h, Option.map_some, add_difference _]
  omega

/-! ### Appends -/

theorem add_zero_of_length (b : Bytes) (gauge : Option LogsDirGauge) :
    (gauge.map fun g => g.add ((b.length : Int) - b.length)) = gauge := by
  cases gauge with
  | none => rfl
  | some g =>
      rw [Option.map_some, add_difference g.value (by omega)]

/-- Whatever becomes of an apply, it leaves the body or appends the start of what
was planned, and it settles the gauge by what it did. -/
theorem applyLogEvent_settles (fault : LogFault) (ev : AgentLogEvent) (s : LogServer) :
    ((applyLogEvent cfg fault ev s).1.gauge = s.gauge.map fun g =>
        g.add (((applyLogEvent cfg fault ev s).1.bodies ev.key).length
          - (s.bodies ev.key).length : Int)) ∧
      ∃ payload n, (applyLogEvent cfg fault ev s).1.bodies ev.key = s.bodies ev.key ++
        (planWrite (s.bodies ev.key).length payload cfg.maxFileBytes s.gauge).toWrite.take n := by
  have hkept : s.gauge = (s.gauge.map fun g =>
      g.add (((s.bodies ev.key).length : Int) - (s.bodies ev.key).length)) ∧
      ∃ payload n, s.bodies ev.key = s.bodies ev.key ++
        (planWrite (s.bodies ev.key).length payload cfg.maxFileBytes s.gauge).toWrite.take n :=
    ⟨(add_zero_of_length _ _).symm, [], 0, by simp⟩
  have hwrite : ∀ raw f,
      ((writeIncrement cfg fault ev raw f s).1.gauge = s.gauge.map fun g =>
        g.add (((writeIncrement cfg fault ev raw f s).1.bodies ev.key).length
          - (s.bodies ev.key).length : Int)) ∧
      ∃ payload n, (writeIncrement cfg fault ev raw f s).1.bodies ev.key = s.bodies ev.key ++
        (planWrite (s.bodies ev.key).length payload cfg.maxFileBytes s.gauge).toWrite.take n := by
    intro raw f
    simp only [writeIncrement, writeSettled]
    split
    · refine ⟨?_, payloadOf f ev raw, _, Function.update_self ..⟩
      simp only [Function.update_self]
    · refine ⟨?_, payloadOf f ev raw, _, Function.update_self ..⟩
      simp only [Function.update_self]
  unfold applyLogEvent
  repeat' split
  all_goals first
    | exact hkept
    | exact hwrite _ _

/-- What is planned under a gauge that is within its budget stays within it. -/
theorem planWrite_fits {g : LogsDirGauge} (physicalStart cap : Nat) (payload : Bytes)
    (hbudget : 0 < g.budget) (hvalue : g.value ≤ g.budget) :
    g.value + (planWrite physicalStart payload cap (some g)).toWrite.length ≤ g.budget := by
  have hfits : ∀ n, g.fits n = true → g.value + n ≤ g.budget := by
    intro n hn
    unfold LogsDirGauge.fits at hn
    rcases (Bool.or_eq_true _ _).mp hn with hzero | hle
    · have := beq_iff_eq.mp hzero
      omega
    · exact of_decide_eq_true hle
  simp only [planWrite, budgetPlan]
  split
  · -- the increment does not fit: a marker, or nothing
    split
    · rename_i hmarker
      exact hfits _ hmarker
    · simpa using hvalue
  · rename_i hplan
    refine hfits _ (Bool.not_eq_false _ |>.mp fun h => hplan ⟨hbudget, h⟩)

theorem append_exact (fault : LogFault) (ev : AgentLogEvent) (h : Exact cfg d) :
    Exact cfg (d.append cfg fault ev) :=
  h.of_settled (k := ev.key) rfl (fun _ hk => (applyLogEvent_frame hk).2)
    (applyLogEvent_settles fault ev d.server).1

theorem append_within (fault : LogFault) (ev : AgentLogEvent) (h : Exact cfg d)
    (hw : Within cfg d) : Within cfg (d.append cfg fault ev) := by
  intro hbudget
  obtain ⟨-, payload, n, hbody⟩ := @applyLogEvent_settles cfg fault ev d.server
  have hsize : (d.append cfg fault ev).walkSize + (d.server.bodies ev.key).length =
      d.walkSize + ((d.append cfg fault ev).server.bodies ev.key).length :=
    walkSize_of_file rfl fun _ hk => (applyLogEvent_frame hk).2
  have hfits := planWrite_fits (g := ⟨cfg.maxTotalBytes, d.walkSize⟩)
    (d.server.bodies ev.key).length cfg.maxFileBytes payload hbudget (hw hbudget)
  have hlength : ((d.append cfg fault ev).server.bodies ev.key).length ≤
      (d.server.bodies ev.key).length +
        (planWrite (d.server.bodies ev.key).length payload cfg.maxFileBytes
          d.server.gauge).toWrite.length := by
    rw [show (d.append cfg fault ev).server.bodies ev.key = _ from hbody, List.length_append,
      List.length_take]
    omega
  have hgauge : d.server.gauge = some ⟨cfg.maxTotalBytes, d.walkSize⟩ := h
  rw [hgauge] at hlength
  simp only at hfits
  omega

/-! ### Cuts and unlinks -/

@[simp] theorem settleFile_body (settle : LogsDirGauge → LogsDirGauge) :
    (d.settleFile k body settle).server.bodies k = body := Function.update_self ..

theorem settleFile_size (d : LogsDir) (k : LogKey) (body : Bytes)
    (settle : LogsDirGauge → LogsDirGauge) :
    (d.settleFile k body settle).walkSize + (d.server.bodies k).length =
      d.walkSize + body.length := by
  have h : (d.settleFile k body settle).walkSize + (d.server.bodies k).length =
      d.walkSize + ((d.settleFile k body settle).server.bodies k).length :=
    walkSize_of_file rfl fun _ hk => Function.update_of_ne hk _ _
  rwa [settleFile_body] at h

/-- A file is replaced and the gauge is told by how much it shrank. -/
theorem settleFile_exact (body : Bytes) (h : Exact cfg d) :
    Exact cfg (d.settleFile k body fun g =>
      g.sub (((d.server.bodies k).length : Int) - body.length)) := by
  refine h.of_settled (k := k) rfl (fun _ hk => Function.update_of_ne hk _ _) ?_
  rw [settleFile_body]
  refine Option.map_congr fun g _ => ?_
  unfold LogsDirGauge.sub
  rw [neg_sub]

/-- A file is replaced and the gauge is told nothing. -/
theorem settleFile_silent (body : Bytes) (h : Exact cfg d) :
    Exact cfg (d.settleFile k body id) ↔ body.length = (d.server.bodies k).length := by
  have hsize := settleFile_size d k body id
  have hgauge : (d.settleFile k body id).server.gauge = some ⟨cfg.maxTotalBytes, d.walkSize⟩ := by
    show d.server.gauge.map id = _
    rw [Option.map_id]
    exact h
  unfold Exact
  rw [hgauge, Option.some.injEq, LogsDirGauge.mk.injEq]
  constructor
  · rintro ⟨-, hvalue⟩
    omega
  · intro hlength
    exact ⟨rfl, by omega⟩

theorem unlink_exact (removed : Bool) (h : Exact cfg d) : Exact cfg (d.unlink k removed) :=
  settleFile_exact _ h

theorem unlink_within (removed : Bool) (hw : Within cfg d) : Within cfg (d.unlink k removed) := by
  intro hbudget
  have hwithin := hw hbudget
  have hsize := settleFile_size d k
    (if removed then [] else d.server.bodies k) fun g => g.sub
      (((d.server.bodies k).length : Int) - (if removed then [] else d.server.bodies k).length)
  have hlength : (if removed then [] else d.server.bodies k).length ≤
      (d.server.bodies k).length := by
    split
    · exact Nat.zero_le _
    · exact le_rfl
  show (d.settleFile k _ _).walkSize ≤ _
  omega

/-- The file of a sealed row is replaced by what the cut makes of it, and the
gauge settled if the cut returns. -/
theorem truncate_sealed {readable : Bool} {fault : CutFault} {returned : Bool}
    (hsealed : d.sealedRow cfg k = true)
    (hfile : truncateFile (d.server.bodies k) cfg.maxFileBytes readable fault = (body, returned)) :
    ∃ rows, d.truncate cfg k readable fault = (d.settleFile k body fun g =>
      if returned then g.sub (((d.server.bodies k).length : Int) - body.length) else g).withRows
        rows := by
  unfold truncate
  rw [if_pos hsealed, hfile]
  dsimp only
  split
  · exact ⟨d.server.rows, rfl⟩
  · exact ⟨_, rfl⟩

theorem truncate_size {readable returned : Bool} {fault : CutFault}
    (hsealed : d.sealedRow cfg k = true)
    (hfile : truncateFile (d.server.bodies k) cfg.maxFileBytes readable fault = (body, returned)) :
    (d.truncate cfg k readable fault).walkSize + (d.server.bodies k).length =
      d.walkSize + body.length := by
  obtain ⟨rows, hcut⟩ := truncate_sealed hsealed hfile
  rw [hcut]
  exact settleFile_size _ _ _ fun g =>
    if returned then g.sub (((d.server.bodies k).length : Int) - body.length) else g

/-- A file that is not cut stays as it is, and the gauge exact. -/
theorem truncate_kept {readable : Bool} (fault : CutFault)
    (hcuts : d.cuts cfg k readable = false) :
    (d.truncate cfg k readable fault).walkSize = d.walkSize ∧
      (Exact cfg d → Exact cfg (d.truncate cfg k readable fault)) := by
  unfold cuts at hcuts
  cases hsealed : d.sealedRow cfg k with
  | false =>
      have hsame : d.truncate cfg k readable fault = d := by
        unfold truncate
        rw [hsealed]
        rfl
      rw [hsame]
      exact ⟨rfl, id⟩
  | true =>
      rw [hsealed, Bool.true_and, Bool.not_eq_false'] at hcuts
      have hfile : truncateFile (d.server.bodies k) cfg.maxFileBytes readable fault =
          (d.server.bodies k, true) := if_pos hcuts
      obtain ⟨rows, hcut⟩ := truncate_sealed hsealed hfile
      rw [hcut]
      refine ⟨?_, fun h => ?_⟩
      · have hsize := settleFile_size d k (d.server.bodies k) fun g =>
          g.sub (((d.server.bodies k).length : Int) - (d.server.bodies k).length)
        exact Nat.add_right_cancel hsize
      · exact settleFile_exact (d.server.bodies k) h

/-- **What a cut has to meet** for the gauge to stay exact and the directory
within its budget. -/
theorem truncate_iff {readable : Bool} {fault : CutFault} (h : Exact cfg d) :
    (Exact cfg (d.truncate cfg k readable fault) ∧
        (Within cfg d → Within cfg (d.truncate cfg k readable fault))) ↔
      Frugal cfg d (.truncate k readable fault) := by
  cases hcuts : d.cuts cfg k readable with
  | false =>
      obtain ⟨hsize, hexact⟩ := truncate_kept fault hcuts
      refine iff_of_true ⟨hexact h, fun hw hbudget => ?_⟩ fun hcut => ?_
      · rw [hsize]
        exact hw hbudget
      · rw [hcuts] at hcut
        cases hcut
  | true =>
      obtain ⟨hsealed, hkeeps⟩ := (Bool.and_eq_true _ _).mp hcuts
      rw [Bool.not_eq_true'] at hkeeps
      have hover : cfg.maxFileBytes < (d.server.bodies k).length := by
        unfold keepsFile at hkeeps
        rw [Bool.or_eq_false_iff, decide_eq_false_iff_not, not_le] at hkeeps
        exact hkeeps.1
      have hkeeps : ¬ keepsFile (d.server.bodies k) cfg.maxFileBytes readable = true := by
        rw [hkeeps]
        exact Bool.false_ne_true
      simp only [Frugal, hcuts, true_implies]
      cases fault with
      | none =>
          have hfile : truncateFile (d.server.bodies k) cfg.maxFileBytes readable .none = _ :=
            if_neg hkeeps
          obtain ⟨rows, hcut⟩ := truncate_sealed hsealed hfile
          have hsize := truncate_size hsealed hfile
          rw [List.length_append, List.length_take, min_eq_left hover.le] at hsize
          constructor
          · rintro ⟨-, hwithin⟩ hbudget hw
            have hle := hwithin (fun _ => hw) hbudget
            omega
          · intro hgrow
            refine ⟨?_, fun hw hbudget => ?_⟩
            · rw [hcut]
              exact settleFile_exact _ h
            · have hle := hgrow hbudget (hw hbudget)
              omega
      | «open» =>
          have hfile : truncateFile (d.server.bodies k) cfg.maxFileBytes readable .open = _ :=
            if_neg hkeeps
          obtain ⟨rows, hcut⟩ := truncate_sealed hsealed hfile
          have hsize := truncate_size hsealed hfile
          refine iff_of_true ⟨?_, fun hw hbudget => ?_⟩ trivial
          · rw [hcut]
            exact (settleFile_silent _ h).mpr rfl
          · have hwithin := hw hbudget
            omega
      | write n =>
          have hfile : truncateFile (d.server.bodies k) cfg.maxFileBytes readable (.write n) = _ :=
            if_neg hkeeps
          obtain ⟨rows, hcut⟩ := truncate_sealed hsealed hfile
          have hsize := truncate_size hsealed hfile
          -- the gauge was told nothing
          have hsilent := settleFile_silent (k := k)
            ((d.server.bodies k).take cfg.maxFileBytes ++
              (maintenanceMarker cfg.maxFileBytes).take n) h
          have hexact : Exact cfg (d.truncate cfg k readable (.write n)) ↔ Exact cfg
              (d.settleFile k ((d.server.bodies k).take cfg.maxFileBytes ++
                (maintenanceMarker cfg.maxFileBytes).take n) id) := by
            rw [hcut]
            rfl
          rw [← hexact] at hsilent
          rw [List.length_append, List.length_take, List.length_take, min_eq_left hover.le]
            at hsize hsilent
          rw [hsilent]
          constructor
          · rintro ⟨hlength, -⟩
            exact hlength
          · intro hlength
            refine ⟨hlength, fun hw hbudget => ?_⟩
            have hwithin := hw hbudget
            omega

/-! ### Runs -/

/-- **One operation keeps the gauge exact and the budget, just when it is frugal.** -/
theorem step_iff (h : Exact cfg d) (hs : step cfg d a = some d') :
    (Exact cfg d' ∧ (Within cfg d → Within cfg d')) ↔ Frugal cfg d a := by
  cases a with
  | append fault ev =>
      obtain ⟨-, hs⟩ := Option.ite_none_right_eq_some.mp hs
      obtain rfl := Option.some.inj hs
      exact iff_of_true ⟨append_exact fault ev h, append_within fault ev h⟩ trivial
  | truncate k readable fault =>
      obtain ⟨-, hs⟩ := Option.ite_none_right_eq_some.mp hs
      obtain rfl := Option.some.inj hs
      exact truncate_iff h
  | unlink k removed =>
      obtain ⟨-, hs⟩ := Option.ite_none_right_eq_some.mp hs
      obtain rfl := Option.some.inj hs
      exact iff_of_true ⟨unlink_exact removed h, unlink_within removed⟩ trivial
  | calibrate =>
      obtain rfl := Option.some.inj hs
      refine iff_of_true ⟨?_, id⟩ trivial
      show d.server.gauge.map _ = _
      rw [show d.server.gauge = _ from h]
      rfl
  | rows rows =>
      obtain rfl := Option.some.inj hs
      exact iff_of_true ⟨h, id⟩ trivial

/-- What is kept: a calibrated gauge is exact, and no operation takes the
directory over its budget. -/
def Kept (cfg : LogsSettings) (ok : LogsDir → Action → Prop) (d : LogsDir) : Prop :=
  (d.calibrated = true → Exact cfg d) ∧
    ∀ a d', ok d a → step cfg d a = some d' → Within cfg d → Within cfg d'

/-- The gauge belongs to the configuration, and is exact once calibrated. -/
structure Gauged (cfg : LogsSettings) (d : LogsDir) : Prop where
  budget : ∃ value, d.server.gauge = some ⟨cfg.maxTotalBytes, value⟩
  exact : d.calibrated = true → Exact cfg d

theorem Exact.gauged (h : Exact cfg d) : Gauged cfg d := ⟨⟨_, h⟩, fun _ => h⟩

/-- Nothing but a calibration needs the lock of a gauge that was not handed out. -/
theorem step_calibrated (hs : step cfg d a = some d') :
    d.calibrated = true ∨ a = .calibrate ∨ ∃ rows, a = .rows rows := by
  cases a with
  | append fault ev => exact .inl (Option.ite_none_right_eq_some.mp hs).1
  | truncate k readable fault => exact .inl (Option.ite_none_right_eq_some.mp hs).1
  | unlink k removed => exact .inl (Option.ite_none_right_eq_some.mp hs).1
  | calibrate => exact .inr (.inl rfl)
  | rows rows => exact .inr (.inr ⟨rows, rfl⟩)

theorem Gauged.step (h : Gauged cfg d) (hok : Frugal cfg d a) (hs : step cfg d a = some d') :
    Gauged cfg d' ∧ (Within cfg d → Within cfg d') := by
  rcases step_calibrated hs with hc | rfl | ⟨rows, rfl⟩
  · obtain ⟨hexact, hwithin⟩ := (step_iff (h.exact hc) hs).mpr hok
    exact ⟨hexact.gauged, hwithin⟩
  · obtain rfl := Option.some.inj hs
    obtain ⟨value, hvalue⟩ := h.budget
    have hexact : Exact cfg d.calibrate := by
      show d.server.gauge.map _ = _
      rw [hvalue]
      rfl
    exact ⟨hexact.gauged, id⟩
  · obtain rfl := Option.some.inj hs
    exact ⟨⟨h.budget, h.exact⟩, id⟩

/-- **The gauge is exact and the budget is kept** in every run of frugal
operations. -/
theorem gauge_exact (cfg : LogsSettings) (rows : Table LogKey ExecutionLogFile)
    (files : Finset LogKey) (bodies : LogKey → Bytes) (outside : ∀ k ∉ files, bodies k = [])
    {d : LogsDir} (h : RunOk (step cfg) (Frugal cfg) (start cfg rows files bodies outside) d) :
    Kept cfg (Frugal cfg) d := by
  have hstart : Gauged cfg (start cfg rows files bodies outside) :=
    ⟨⟨0, rfl⟩, fun hc => (by cases hc)⟩
  have hgauged := h.invariant (I := Gauged cfg) (fun _ _ _ hg hok hs => (hg.step hok hs).1) hstart
  exact ⟨hgauged.exact, fun a d' hok hs => (hgauged.step hok hs).2⟩

/-! ### A file a little above the cap -/

/-- The row of a file that is complete, as the query finds it. -/
def sampleRow : ExecutionLogFile := { sizeBytes := 11, status := .complete, finalOffset := some 11 }

example : sampleRow.oversized 10 = true := by decide +kernel

def sampleKey : LogKey := ⟨1, 1, .log⟩

def sampleSettings : LogsSettings := { maxFileBytes := 10, maxTotalBytes := 40 }

/-- The directory holds one file of eleven bytes. -/
def sampleDir : LogsDir :=
  start sampleSettings (Table.empty.insert sampleKey sampleRow) {sampleKey}
    (Function.update (fun _ => []) sampleKey (List.replicate 11 120)) fun k hk => by
      rw [Finset.mem_singleton] at hk
      exact Function.update_of_ne hk _ _

theorem gauge_exact_sample : ∃ d,
    RunOk (step sampleSettings) (Frugal sampleSettings) sampleDir d ∧ d.calibrated = true ∧
      Exact sampleSettings d := by
  have hrun : RunOk (step sampleSettings) (Frugal sampleSettings) sampleDir sampleDir.calibrate :=
    RunOk.head (a := .calibrate) trivial rfl (RunOk.refl _)
  exact ⟨_, hrun, rfl, (gauge_exact sampleSettings _ _ _ _ hrun).1 rfl⟩

/-- **A cut takes the directory over its budget**: the file was one byte above
the cap, and grows by its marker. -/
theorem truncate_exceeds : ¬ ∀ cfg rows files bodies outside d,
    Run (step cfg) (start cfg rows files bodies outside) d → Kept cfg (fun _ _ => True) d := by
  intro h
  have hrun : Run (step sampleSettings) sampleDir sampleDir.calibrate :=
    RunOk.head (a := .calibrate) trivial rfl (RunOk.refl _)
  obtain ⟨-, hwithin⟩ := h _ _ _ _ _ _ hrun
  have hover := hwithin (.truncate sampleKey true .none) _ trivial rfl
    (fun _ => by decide +kernel)
  exact absurd (hover (by decide)) (by decide +kernel)

end Facts

end LogsDir

end Dopilot
