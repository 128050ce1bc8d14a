/-
Dopilot/Oversized.lean

Sealed log files that are larger than the cap are cut back by the retention sweep.

The sweep takes at most `limit` files whose rows are over the cap, cuts each of
them on disk and writes what it did into the row; the rows are committed together
behind the last file.  A crash or a rollback before that undoes the rows and not
the cuts, and a file that was cut is passed over by every later sweep: its row
stays behind, and stays a candidate.  `recovers_iff_recoverable` says when later sweeps catch
up with an interrupted one.

The gauge that is told of the cuts is in `DirGauge`.
-/
import Dopilot.DirGauge
import Dopilot.Sweeps

namespace Dopilot

open LogsDir (cutRow)

namespace Oversized

/-! ### The sweep -/

/-- Rows and bodies. -/
structure LogFiles where
  rows : Table LogKey ExecutionLogFile
  bodies : LogKey → Bytes

/-- The row is that of a file nobody writes any more. -/
def isSealed (f : ExecutionLogFile) : Bool := f.status == .complete && f.finalOffset.isSome

/-- One candidate of `truncate_oversized_log_files`; behind a fault the call has raised. -/
def cutCandidate (cap : Nat) (k : LogKey) (fault : CutFault) (w : LogFiles) : LogFiles :=
  match w.rows.get k with
  | none => w
  | some f =>
      if isSealed f then
        let (body, returned) := truncateFile (w.bodies k) cap true fault
        let cut := { w with bodies := Function.update w.bodies k body }
        if returned = false ∨ body.length = (w.bodies k).length then cut
        else { cut with rows := w.rows.modify k fun f => cutRow f body.length }
      else w

/-- `truncate_oversized_log_files` behind its query, and the commit. -/
def truncateOversizedLogFiles (cap : Nat) (keys : List LogKey) (w : LogFiles) : LogFiles :=
  if cap = 0 then w else keys.foldl (fun w k => cutCandidate cap k .none w) w

/-- A sweep that has done with `done` and is at `current`, if it has begun another file,
when it is interrupted: the rows are rolled back. -/
def interrupted (cap : Nat) (done : List LogKey) (current : Option (LogKey × CutFault))
    (w : LogFiles) : LogFiles :=
  let reached := truncateOversizedLogFiles cap done w
  { rows := w.rows
    bodies := (current.elim reached fun c => cutCandidate cap c.1 c.2 reached).bodies }

/-! ### One file -/

/-- The row and the body of one key. -/
abbrev FileState := Option ExecutionLogFile × Bytes

def LogFiles.at (w : LogFiles) (k : LogKey) : FileState := (w.rows.get k, w.bodies k)

/-- The query finds the row. -/
def Candidate (cap : Nat) (x : FileState) : Prop := x.1.any (·.oversized cap) = true

instance (cap : Nat) : DecidablePred (Candidate cap) :=
  fun _ => inferInstanceAs (Decidable (_ = true))

/-- One candidate, as far as its own file goes. -/
def cutState (cap : Nat) (fault : CutFault) (x : FileState) : FileState :=
  match x.1 with
  | none => x
  | some f =>
      if isSealed f then
        let (body, returned) := truncateFile x.2 cap true fault
        (some (if returned = false ∨ body.length = x.2.length then f else cutRow f body.length),
          body)
      else x

/-- What a sweep does to one file. -/
def visit (cap : Nat) : FileState → FileState := cutState cap .none

/-- The keys of the rows. -/
def LogFiles.keys (w : LogFiles) : Finset LogKey := (w.rows.rows.map Prod.fst).toFinset

section Files

variable {cap : Nat} {f : ExecutionLogFile} {body : Bytes} {w : LogFiles} {k : LogKey}

theorem isSealed_of_oversized (h : f.oversized cap = true) : isSealed f = true := by
  unfold ExecutionLogFile.oversized at h
  simp only [Bool.and_eq_true] at h
  rw [isSealed, h.1.2, h.2]
  rfl

/-- The file of a candidate is cut. -/
theorem at_cutCandidate_self (cap : Nat) (k : LogKey) (fault : CutFault) (w : LogFiles) :
    (cutCandidate cap k fault w).at k = cutState cap fault (w.at k) := by
  show ((cutCandidate cap k fault w).rows.get k, (cutCandidate cap k fault w).bodies k) =
    cutState cap fault (w.rows.get k, w.bodies k)
  cases hrow : w.rows.get k with
  | none => simp only [cutCandidate, cutState, hrow]
  | some f =>
      simp only [cutCandidate, cutState, hrow]
      split
      · split
        · simp only [hrow, Function.update_self]
        · simp only [Table.get_modify_self, hrow, Option.map_some, Function.update_self]
      · simp only [hrow]

/-- No other file is. -/
theorem at_cutCandidate_ne (cap : Nat) {k k' : LogKey} (hk : k' ≠ k) (fault : CutFault)
    (w : LogFiles) : (cutCandidate cap k fault w).at k' = w.at k' := by
  simp only [cutCandidate, LogFiles.at]
  cases hrow : w.rows.get k with
  | none => rfl
  | some f =>
      simp only
      split
      · split
        · simp only [Function.update_of_ne hk]
        · simp only [Table.get_modify_ne _ _ hk, Function.update_of_ne hk]
      · rfl

theorem keys_cutCandidate (cap : Nat) (k : LogKey) (fault : CutFault) (w : LogFiles) :
    (cutCandidate cap k fault w).keys = w.keys := by
  have hmodify : ∀ f, (w.rows.modify k f).rows.map Prod.fst = w.rows.rows.map Prod.fst := by
    intro f
    simp [Table.modify, Table.updateAll, Function.comp_def]
  unfold cutCandidate LogFiles.keys
  split
  · rfl
  · split
    · dsimp only
      split
      · rfl
      · rw [hmodify]
    · rfl

/-- **A sweep is a visit of each of its files.** -/
theorem at_truncateOversizedLogFiles (hcap : 0 < cap) (keys : List LogKey) (w : LogFiles) :
    (truncateOversizedLogFiles cap keys w).at = Sweeps.visitAll (visit cap) keys w.at := by
  rw [truncateOversizedLogFiles, if_neg (Nat.ne_of_gt hcap)]
  induction keys generalizing w with
  | nil => rfl
  | cons k keys ih =>
      have hone : (cutCandidate cap k .none w).at =
          Function.update w.at k (visit cap (w.at k)) := by
        funext k'
        by_cases hk : k' = k
        · subst hk
          rw [Function.update_self]
          exact at_cutCandidate_self cap k' .none w
        · rw [Function.update_of_ne hk]
          exact at_cutCandidate_ne cap hk .none w
      rw [List.foldl_cons, ih, hone]
      rfl

theorem keys_truncateOversizedLogFiles (cap : Nat) (keys : List LogKey) (w : LogFiles) :
    (truncateOversizedLogFiles cap keys w).keys = w.keys := by
  unfold truncateOversizedLogFiles
  split
  · rfl
  induction keys generalizing w with
  | nil => rfl
  | cons k keys ih => exact (ih _).trans (keys_cutCandidate cap k .none w)

/-! ### What becomes of one file -/

/-- What the line of a cut says. -/
theorem exists_maintenanceMarker (cap : Nat) :
    ∃ said, (∀ b ∈ said, b ≠ 10 ∧ b ≠ 93) ∧
      maintenanceMarker cap = encode "\n[dopilot:log-truncated " ++ (said ++ encode "]\n") := by
  refine ⟨encode "max_bytes=" ++ (encode (toString cap) ++ encode " reason=maintenance"),
    plain_fields (by decide) cap, ?_⟩
  · have hhead : encode "\n[dopilot:log-truncated max_bytes=" =
        encode "\n[dopilot:log-truncated " ++ encode "max_bytes=" := by decide +kernel
    have htail : encode " reason=" ++ (encode "maintenance" ++ encode "]\n") =
        encode " reason=maintenance" ++ encode "]\n" := by decide +kernel
    simp only [maintenanceMarker, truncationMarker, TruncationReason.text, encode_append, hhead,
      htail, List.append_assoc]

/-- The line of a cut is one that later sweeps know. -/
theorem isCapMarker_maintenanceMarker (cap : Nat) : isCapMarker (maintenanceMarker cap) = true := by
  obtain ⟨said, hsaid, hmarker⟩ := exists_maintenanceMarker cap
  rw [hmarker]
  exact isCapMarker_fields false hsaid

/-- A part of the line is not. -/
theorem isCapMarker_take {n : Nat} (hn : n < (maintenanceMarker cap).length) :
    isCapMarker ((maintenanceMarker cap).take n) = false := by
  -- the line has its two ends of a line at its ends
  obtain ⟨said, hsaid, hmarker⟩ : ∃ said, (∀ b ∈ said, b ≠ 10) ∧
      maintenanceMarker cap = 10 :: (said ++ [10]) := by
    obtain ⟨said, hsaid, hmarker⟩ := exists_maintenanceMarker cap
    refine ⟨encode "[dopilot:log-truncated " ++ (said ++ [93]), ?_, ?_⟩
    · intro b hb
      have hkind : plain (encode "[dopilot:log-truncated ") = true := by decide
      rcases List.mem_append.mp hb with hb | hb
      · exact (plain_mem hkind hb).1
      rcases List.mem_append.mp hb with hb | hb
      · exact (hsaid b hb).1
      · rw [List.mem_singleton.mp hb]
        decide
    · rw [hmarker, List.append_assoc, List.append_assoc]
      rfl
  rw [hmarker, List.length_cons, List.length_append, List.length_singleton] at hn
  cases hmatch : isCapMarker ((maintenanceMarker cap).take n) with
  | false => rfl
  | true =>
      exfalso
      obtain ⟨head, hend⟩ := exists_of_isCapMarker hmatch
      cases n with
      | zero => cases head <;> cases hend
      | succ n =>
          rw [hmarker, List.take_succ_cons, List.take_append_of_le_length (by omega)] at hend
          cases head with
          | nil =>
              have hfirst : (10 : UInt8) = 93 := (List.cons.inj hend).1
              revert hfirst
              decide
          | cons b head =>
              have hmem : (10 : UInt8) ∈ said.take n := by
                rw [(List.cons.inj hend).2]
                exact List.mem_append_right head (by decide)
              exact hsaid 10 (List.mem_of_mem_take hmem) rfl

theorem lt_of_keepsFile_eq_false {readable : Bool} (h : keepsFile body cap readable = false) :
    cap < body.length := by
  by_contra hle
  rw [keepsFile, decide_eq_true (Nat.le_of_not_lt hle)] at h
  cases h

/-- A file that is kept stays as it is, and so does its row. -/
theorem cutState_kept (fault : CutFault) (hkept : keepsFile body cap true = true) :
    cutState cap fault (some f, body) = (some f, body) := by
  have hbody : truncateFile body cap true fault = (body, true) := by
    unfold truncateFile
    rw [if_pos hkept]
  simp only [cutState, hbody]
  split
  · simp only [or_true, if_true]
  · rfl

/-- The body behind a cut. -/
def cutBody (cap : Nat) (body : Bytes) : Bytes := body.take cap ++ maintenanceMarker cap

theorem cutBody_length (h : cap < body.length) :
    (cutBody cap body).length = cap + (maintenanceMarker cap).length := by
  rw [cutBody, List.length_append, List.length_take_of_le (Nat.le_of_lt h)]

/-- **A cut** leaves the row behind if it happens to leave the size. -/
theorem visit_cut (hsealed : isSealed f = true) (hcut : keepsFile body cap true = false) :
    visit cap (some f, body) =
      (some (if body.length = cap + (maintenanceMarker cap).length then f
        else cutRow f (cap + (maintenanceMarker cap).length)), cutBody cap body) := by
  have hbody : truncateFile body cap true .none = (cutBody cap body, true) := by
    unfold truncateFile
    rw [if_neg (ne_true_of_eq_false hcut)]
    rfl
  have hlen := cutBody_length (lt_of_keepsFile_eq_false hcut)
  simp only [visit, cutState, hsealed, if_true, hbody, hlen, Bool.true_eq_false, false_or]
  by_cases hsame : body.length = cap + (maintenanceMarker cap).length
  · rw [if_pos hsame.symm, if_pos hsame]
  · rw [if_neg (Ne.symm hsame), if_neg hsame]

/-- The row of a cut is no candidate. -/
theorem oversized_cutRow (f : ExecutionLogFile) (cap : Nat) :
    (cutRow f (cap + (maintenanceMarker cap).length)).oversized cap = false := by
  simp [ExecutionLogFile.oversized, cutRow]

theorem candidate_iff : Candidate cap (some f, body) ↔ f.oversized cap = true := Iff.rfl

/-- The sweep cuts the file and says so in the row. -/
def Cuttable (cap : Nat) (x : FileState) : Prop := Sweeps.Ready (Candidate cap) (visit cap) x

/-- A candidate that is passed over, or whose size a cut leaves as it is. -/
def Kept (cap : Nat) (body : Bytes) : Prop :=
  keepsFile body cap true = true ∨ body.length = cap + (maintenanceMarker cap).length

/-- The row of such a file stays, and the file stays such a file. -/
theorem visit_of_kept (hover : f.oversized cap = true) (h : Kept cap body) :
    ∃ body', visit cap (some f, body) = (some f, body') ∧ Kept cap body' := by
  cases hkept : keepsFile body cap true with
  | true => exact ⟨body, cutState_kept .none hkept, .inl hkept⟩
  | false =>
      have hlen : body.length = cap + (maintenanceMarker cap).length := by
        rcases h with hkept' | hlen
        · rw [hkept] at hkept'
          cases hkept'
        · exact hlen
      refine ⟨cutBody cap body, ?_, .inr (cutBody_length (lt_of_keepsFile_eq_false hkept))⟩
      rw [visit_cut (isSealed_of_oversized hover) hkept, if_pos hlen]

/-- **Which files the sweep is done with after one visit.** -/
theorem cuttable_iff :
    Cuttable cap (some f, body) ↔ f.oversized cap = true ∧ ¬ Kept cap body := by
  constructor
  · rintro ⟨hover, hdone⟩
    refine ⟨hover, fun hkept => hdone ?_⟩
    obtain ⟨body', hvisit, -⟩ := visit_of_kept hover hkept
    rw [hvisit]
    exact hover
  · rintro ⟨hover, hkept⟩
    obtain ⟨hcut, hlen⟩ := not_or.mp hkept
    refine ⟨hover, fun hcand => ?_⟩
    rw [visit_cut (isSealed_of_oversized hover) (eq_false_of_ne_true hcut), if_neg hlen,
      candidate_iff, oversized_cutRow] at hcand
    cases hcand

/-- A candidate that one visit is not enough for stays one. -/
theorem candidate_visit_visit (x : FileState) (hcand : Candidate cap x)
    (hvisit : Candidate cap (visit cap x)) : Candidate cap (visit cap (visit cap x)) := by
  obtain ⟨row, body⟩ := x
  cases row with
  | none => cases hcand
  | some f =>
      have hkept : Kept cap body := by
        by_contra hnot
        exact (cuttable_iff.mpr ⟨hcand, hnot⟩).2 hvisit
      obtain ⟨body', hfirst, hkept'⟩ := visit_of_kept hcand hkept
      obtain ⟨body'', hsecond, -⟩ := visit_of_kept hcand hkept'
      rw [hfirst, hsecond]
      exact hcand

/-! ### The claim -/

/-- The body is the first `cap` bytes of what it was and one truncation marker, the row
agrees with it, and the query does not find the row. -/
def Settled (cap : Nat) (before : Bytes) (x : FileState) : Prop :=
  ∃ f, x.1 = some f ∧ (∃ line, isCapMarker line = true ∧ x.2 = before.take cap ++ line) ∧
    f.sizeBytes = x.2.length ∧ f.finalOffset = some x.2.length ∧ f.logIntegrity = .truncated ∧
    f.oversized cap = false

theorem Settled.not_candidate {before : Bytes} {x : FileState} (h : Settled cap before x) :
    ¬ Candidate cap x := by
  obtain ⟨f, hrow, -, -, -, -, hover⟩ := h
  rw [Candidate, hrow, Option.any_some, hover]
  exact Bool.false_ne_true

/-- **One visit settles a file that can be cut.** -/
theorem settled_visit {before : Bytes} (h : Cuttable cap (some f, body))
    (htake : body.take cap = before.take cap) :
    Settled cap before (visit cap (some f, body)) := by
  obtain ⟨hover, hkept⟩ := cuttable_iff.mp h
  obtain ⟨hcut, hlen⟩ := not_or.mp hkept
  have hcut := eq_false_of_ne_true hcut
  have hlength := cutBody_length (lt_of_keepsFile_eq_false hcut)
  rw [visit_cut (isSealed_of_oversized hover) hcut, if_neg hlen]
  refine ⟨_, rfl, ⟨maintenanceMarker cap, isCapMarker_maintenanceMarker cap, ?_⟩, ?_, ?_, rfl,
    oversized_cutRow f cap⟩
  · rw [← htake]
    rfl
  · exact hlength.symm
  · exact congrArg some hlength.symm

end Files

/-- The file is sealed and larger than the cap. -/
def Large (cap : Nat) (w : LogFiles) (k : LogKey) : Prop :=
  ∃ f, w.rows.get k = some f ∧ isSealed f = true ∧ cap < (w.bodies k).length

/-- So many more sweeps, none of them interrupted. -/
inductive FurtherSweeps (cap limit : Nat) : Nat → LogFiles → LogFiles → Prop
  | refl (w : LogFiles) : FurtherSweeps cap limit 0 w w
  | sweep {n : Nat} {w w' : LogFiles} {keys : List LogKey}
      (hsel : Sweeps.Selects w.keys (Candidate cap) limit w.at keys)
      (hrun : FurtherSweeps cap limit n (truncateOversizedLogFiles cap keys w) w') :
      FurtherSweeps cap limit (n + 1) w w'

/-- Some number of sweeps of `w'` settles the files that were too large in `w`. -/
def Recovers (cap limit : Nat) (w w' : LogFiles) : Prop :=
  ∃ N, ∀ n, N ≤ n → ∀ w'', FurtherSweeps cap limit n w' w'' →
    ∀ k, Large cap w k → Settled cap (w.bodies k) (w''.at k)

/-- The rows the query finds though there is nothing to cut. -/
def undersized (cap : Nat) (w : LogFiles) : Finset LogKey :=
  (Sweeps.candidates w.keys (Candidate cap) w.at).filter fun k => (w.bodies k).length ≤ cap

/-- A sweep is interrupted before it has cut a file that is too large, or in the
midst of the line of the first one; all the other files are settled already or can be
settled; and the rows that the query finds in vain leave room for another one. -/
structure Recoverable (cap limit : Nat) (w : LogFiles) (done : List LogKey)
    (current : Option (LogKey × CutFault)) : Prop where
  others : ∀ k, Large cap w k → k ∉ done → (∀ fault, current ≠ some (k, fault)) →
    Settled cap (w.bodies k) (w.at k) ∨ Cuttable cap (w.at k)
  done : ∀ k ∈ done, ¬ Large cap w k
  current : ∀ k fault, current = some (k, fault) → Large cap w k →
    fault = .open ∧ Cuttable cap (w.at k) ∨
      ∃ n, fault = .write n ∧ 0 < n ∧ n < (maintenanceMarker cap).length ∧
        keepsFile (w.bodies k) cap true = false
  room : (∀ k, Large cap w k → ¬ Candidate cap (w.at k)) ∨ (undersized cap w).card < limit

section Recovery

variable {cap limit : Nat} {w w' : LogFiles} {k : LogKey} {n : Nat} {f : ExecutionLogFile}
  {body : Bytes}

/-! ### Further sweeps -/

theorem FurtherSweeps.run (hcap : 0 < cap) (h : FurtherSweeps cap limit n w w') :
    Sweeps.Run w.keys (Candidate cap) (visit cap) limit n w.at w'.at := by
  induction h with
  | refl w => exact .refl _
  | sweep hsel _ ih =>
      rw [keys_truncateOversizedLogFiles, at_truncateOversizedLogFiles hcap] at ih
      exact .sweep hsel ih

theorem exists_furtherSweeps (hcap : 0 < cap) {items : Finset LogKey} {s s' : LogKey → FileState}
    (h : Sweeps.Run items (Candidate cap) (visit cap) limit n s s') (hkeys : w.keys = items)
    (hat : w.at = s) : ∃ w', FurtherSweeps cap limit n w w' ∧ w'.at = s' := by
  induction h generalizing w with
  | refl => exact ⟨w, .refl w, hat⟩
  | @sweep n s s' keys hsel _ ih =>
      obtain ⟨w', hrun, hat'⟩ := ih ((keys_truncateOversizedLogFiles cap keys w).trans hkeys)
        ((at_truncateOversizedLogFiles hcap keys w).trans (by rw [hat]))
      refine ⟨w', .sweep ?_ hrun, hat'⟩
      rw [hkeys, hat]
      exact hsel

theorem mem_keys_of_get (h : w.rows.get k = some f) : k ∈ w.keys := by
  refine List.mem_toFinset.mpr (List.mem_map.mpr ⟨(k, f), ?_, rfl⟩)
  exact Table.mem_rows_iff.mpr h

theorem mem_keys_of_candidate (h : Candidate cap (w.at k)) : k ∈ w.keys := by
  cases hrow : w.rows.get k with
  | some f => exact mem_keys_of_get hrow
  | none =>
      rw [Candidate, LogFiles.at, hrow] at h
      cases h

/-- A candidate that a visit leaves one is never settled. -/
theorem exists_candidate (hcap : 0 < cap) (hcand : Candidate cap (w.at k))
    (hstays : Candidate cap (visit cap (w.at k))) (n : Nat) :
    ∃ w', FurtherSweeps cap limit n w w' ∧ Candidate cap (w'.at k) := by
  obtain ⟨s', hs⟩ : ∃ s', Sweeps.Run w.keys (Candidate cap) (visit cap) limit n w.at s' :=
    Sweeps.Run.exists n w.at
  obtain ⟨w', hfurther, rfl⟩ := exists_furtherSweeps hcap hs rfl rfl
  have hmem := Sweeps.mem_stuck.mpr ⟨mem_keys_of_candidate hcand, hcand, hstays⟩
  rw [← hs.stuck_eq candidate_visit_visit, Sweeps.mem_stuck] at hmem
  exact ⟨w', hfurther, hmem.2.1⟩

/-- **When further sweeps settle what is too large**: one visit is enough for every file
that is not settled, and there is room for it. -/
theorem settles_iff (hcap : 0 < cap) {before : LogKey → Bytes} {large : LogKey → Prop}
    (hready : ∀ k, Cuttable cap (w.at k) → large k ∧
      (w.bodies k).take cap = (before k).take cap) :
    (∃ N, ∀ n, N ≤ n → ∀ w', FurtherSweeps cap limit n w w' →
        ∀ k, large k → Settled cap (before k) (w'.at k)) ↔
      (∀ k, large k → Settled cap (before k) (w.at k) ∨ Cuttable cap (w.at k)) ∧
        ((∀ k, ¬ Cuttable cap (w.at k)) ∨
          (Sweeps.stuck w.keys (Candidate cap) (visit cap) w.at).card < limit) := by
  have hvisit : ∀ x, Candidate cap x → Candidate cap (visit cap x) →
      Candidate cap (visit cap (visit cap x)) := candidate_visit_visit
  have hnone : Sweeps.ready w.keys (Candidate cap) (visit cap) w.at = ∅ ↔
      ∀ k, ¬ Cuttable cap (w.at k) := by
    rw [Finset.eq_empty_iff_forall_notMem]
    refine forall_congr' fun k => not_congr ?_
    rw [Sweeps.mem_ready]
    exact ⟨And.right, fun h => ⟨mem_keys_of_candidate h.1, h⟩⟩
  rw [← hnone, ← Sweeps.eventuallyDone_iff hvisit]
  constructor
  · rintro ⟨N, hall⟩
    have hrun : ∀ n, N ≤ n → ∀ s', Sweeps.Run w.keys (Candidate cap) (visit cap) limit n w.at s' →
        ∀ k, large k → Settled cap (before k) (s' k) := by
      intro n hn s' hrun k hk
      obtain ⟨w', hfurther, rfl⟩ := exists_furtherSweeps hcap hrun rfl rfl
      exact hall n hn w' hfurther k hk
    refine ⟨fun k hk => ?_, N, fun n hn s' hs k hk => ?_⟩
    · by_cases hcand : Candidate cap (w.at k)
      · refine .inr ⟨hcand, fun hstays => ?_⟩
        obtain ⟨w', hfurther, hcand'⟩ := exists_candidate hcap hcand hstays N
        exact (hall N (Nat.le_refl N) w' hfurther k hk).not_candidate hcand'
      · obtain ⟨s', hs⟩ : ∃ s', Sweeps.Run w.keys (Candidate cap) (visit cap) limit N w.at s' :=
          Sweeps.Run.exists N w.at
        have hsettled := hrun N (Nat.le_refl N) s' hs k hk
        rw [hs.of_not_cand hcand] at hsettled
        exact .inl hsettled
    · have hcut := (Sweeps.mem_ready.mp hk).2
      exact (hrun n hn s' hs k (hready k hcut).1).not_candidate
  · rintro ⟨hfiles, N, hdone⟩
    refine ⟨N, fun n hn w' hfurther k hk => ?_⟩
    have hs := hfurther.run hcap
    rcases hfiles k hk with hsettled | hcut
    · rw [hs.of_not_cand hsettled.not_candidate]
      exact hsettled
    · have hmem := Sweeps.mem_ready.mpr ⟨mem_keys_of_candidate hcut.1, hcut⟩
      rcases hs.of_ready hcut with hsame | hvisited
      · exact absurd (hsame.symm ▸ hcut.1) (hdone n hn _ hs k hmem)
      · rw [hvisited]
        cases hrow : w.rows.get k with
        | some f =>
            have hat : w.at k = (some f, w.bodies k) := Prod.ext hrow rfl
            have htake := (hready k hcut).2
            rw [hat] at hcut ⊢
            exact settled_visit hcut htake
        | none =>
            have hcand := hcut.1
            rw [Candidate, LogFiles.at, hrow] at hcand
            cases hcand

/-! ### The interrupted sweep -/

/-- A cut takes nothing off the first `cap` bytes, and leaves a file that is not larger. -/
theorem cutState_body (cap : Nat) (fault : CutFault) (row : Option ExecutionLogFile)
    (body : Bytes) : ((cutState cap fault (row, body)).2.take cap = body.take cap) ∧
      (body.length ≤ cap → (cutState cap fault (row, body)).2 = body) := by
  cases row with
  | none => exact ⟨rfl, fun _ => rfl⟩
  | some f =>
      cases hkept : keepsFile body cap true with
      | true =>
          rw [cutState_kept fault hkept]
          exact ⟨rfl, fun _ => rfl⟩
      | false =>
          have hlt := lt_of_keepsFile_eq_false hkept
          refine ⟨?_, fun hle => absurd hlt (Nat.not_lt_of_le hle)⟩
          have hlen : (body.take cap).length = cap := List.length_take_of_le (Nat.le_of_lt hlt)
          have htake : ∀ line : Bytes, (body.take cap ++ line).take cap = body.take cap := by
            intro line
            rw [List.take_append_of_le_length (Nat.le_of_eq hlen.symm),
              List.take_of_length_le (Nat.le_of_eq hlen)]
          have hnot : ¬ keepsFile body cap true = true := ne_true_of_eq_false hkept
          simp only [cutState]
          split
          · unfold truncateFile
            rw [if_neg hnot]
            cases fault with
            | none => exact htake _
            | «open» => rfl
            | write n => exact htake _
          · rfl

/-- **A file behind a whole visit** is one that later sweeps pass over. -/
theorem kept_visit (f : ExecutionLogFile) (hsealed : isSealed f = true) :
    Kept cap (visit cap (some f, body)).2 := by
  cases hkept : keepsFile body cap true with
  | true =>
      rw [visit, cutState_kept .none hkept]
      exact .inl hkept
  | false =>
      rw [visit_cut hsealed hkept]
      exact .inr (cutBody_length (lt_of_keepsFile_eq_false hkept))

/-- **When a file can be cut behind a cut that did not come to its end.** -/
theorem cuttable_cutState_iff (hover : f.oversized cap = true) (fault : CutFault) :
    Cuttable cap (some f, (cutState cap fault (some f, body)).2) ↔
      fault = .open ∧ Cuttable cap (some f, body) ∨
        ∃ n, fault = .write n ∧ 0 < n ∧ n < (maintenanceMarker cap).length ∧
          keepsFile body cap true = false := by
  have hsealed := isSealed_of_oversized hover
  cases hkept : keepsFile body cap true with
  | true =>
      rw [cutState_kept fault hkept]
      have hnot : ¬ Cuttable cap (some f, body) := fun hcut =>
        (cuttable_iff.mp hcut).2 (.inl hkept)
      refine ⟨fun hcut => absurd hcut hnot, ?_⟩
      rintro (⟨-, hcut⟩ | ⟨n, -, -, -, hfalse⟩)
      · exact absurd hcut hnot
      · cases hfalse
  | false =>
      have hlt := lt_of_keepsFile_eq_false hkept
      have hlen : (body.take cap).length = cap := List.length_take_of_le (Nat.le_of_lt hlt)
      have hnot : ¬ keepsFile body cap true = true := ne_true_of_eq_false hkept
      have hbody : (cutState cap fault (some f, body)).2 = (truncateFile body cap true fault).1 := by
        simp only [cutState, hsealed, if_true]
      rw [hbody]
      unfold truncateFile
      rw [if_neg hnot]
      cases fault with
      | none =>
          refine ⟨fun hcut => ?_, ?_⟩
          · exact absurd (.inr (cutBody_length hlt)) (cuttable_iff.mp hcut).2
          · rintro (⟨hfault, -⟩ | ⟨n, hfault, -⟩)
            · cases hfault
            · cases hfault
      | «open» =>
          refine ⟨fun hcut => .inl ⟨rfl, hcut⟩, ?_⟩
          rintro (⟨-, hcut⟩ | ⟨n, hfault, -⟩)
          · exact hcut
          · cases hfault
      | write n =>
          have hlength : (body.take cap ++ (maintenanceMarker cap).take n).length =
              cap + min n (maintenanceMarker cap).length := by
            rw [List.length_append, hlen, List.length_take]
          show Cuttable cap (some f, body.take cap ++ (maintenanceMarker cap).take n) ↔ _
          rw [cuttable_iff]
          constructor
          · rintro ⟨-, hkept'⟩
            obtain ⟨hcut, hne⟩ := not_or.mp hkept'
            rw [hlength] at hne
            have hpos := lt_of_keepsFile_eq_false (eq_false_of_ne_true hcut)
            rw [hlength] at hpos
            exact .inr ⟨n, rfl, by omega, by omega, rfl⟩
          · rintro (⟨hfault, -⟩ | ⟨m, hfault, hpos, hshort, -⟩)
            · cases hfault
            obtain rfl := CutFault.write.inj hfault
            refine ⟨hover, not_or.mpr ⟨?_, ?_⟩⟩
            · have hdrop : (body.take cap ++ (maintenanceMarker cap).take n).drop cap =
                  (maintenanceMarker cap).take n := List.drop_left' hlen
              have hbig : ¬ (body.take cap ++ (maintenanceMarker cap).take n).length ≤ cap := by
                rw [hlength]
                omega
              rw [keepsFile, alreadyCapped, hdrop, isCapMarker_take hshort, Bool.and_false,
                Bool.or_false, decide_eq_true_eq]
              exact hbig
            · rw [hlength]
              omega

variable {done rest : List LogKey} {current : Option (LogKey × CutFault)}

theorem interrupted_bodies (current : Option (LogKey × CutFault)) (w : LogFiles) (k : LogKey) :
    (interrupted cap done current w).bodies k =
      ((current.elim (truncateOversizedLogFiles cap done w) fun c =>
        cutCandidate cap c.1 c.2 (truncateOversizedLogFiles cap done w)).at k).2 := rfl

theorem interrupted_done (hcap : 0 < cap) (hnodup : done.Nodup)
    (hcurrent : ∀ fault, current ≠ some (k, fault)) (hk : k ∈ done) :
    (interrupted cap done current w).bodies k = (visit cap (w.at k)).2 := by
  have hat : (truncateOversizedLogFiles cap done w).at k = visit cap (w.at k) := by
    rw [at_truncateOversizedLogFiles hcap, Sweeps.visitAll_apply _ hnodup, if_pos hk]
  rw [interrupted_bodies]
  cases current with
  | none => rw [Option.elim_none, hat]
  | some c =>
      have hne : k ≠ c.1 := by
        rintro rfl
        exact hcurrent c.2 rfl
      rw [Option.elim_some, at_cutCandidate_ne cap hne, hat]

theorem interrupted_current {fault : CutFault} (hcap : 0 < cap) (hnodup : done.Nodup)
    (hcurrent : current = some (k, fault)) (hk : k ∉ done) :
    (interrupted cap done current w).bodies k = (cutState cap fault (w.at k)).2 := by
  have hat : (truncateOversizedLogFiles cap done w).at k = w.at k := by
    rw [at_truncateOversizedLogFiles hcap, Sweeps.visitAll_apply _ hnodup, if_neg hk]
  rw [interrupted_bodies, hcurrent, Option.elim_some, at_cutCandidate_self, hat]

theorem interrupted_other (hcap : 0 < cap) (hnodup : done.Nodup)
    (hcurrent : ∀ fault, current ≠ some (k, fault)) (hk : k ∉ done) :
    (interrupted cap done current w).bodies k = w.bodies k := by
  have hat : (truncateOversizedLogFiles cap done w).at k = w.at k := by
    rw [at_truncateOversizedLogFiles hcap, Sweeps.visitAll_apply _ hnodup, if_neg hk]
  rw [interrupted_bodies]
  cases current with
  | none =>
      rw [Option.elim_none, hat]
      rfl
  | some c =>
      have hne : k ≠ c.1 := by
        rintro rfl
        exact hcurrent c.2 rfl
      rw [Option.elim_some, at_cutCandidate_ne cap hne, hat]
      rfl

/-- Whatever the interrupted sweep did to a file, it kept its first `cap` bytes, and a
file that is not larger. -/
theorem interrupted_body (hcap : 0 < cap)
    (hnodup : (done ++ (current.map Prod.fst).toList).Nodup) (k : LogKey) :
    ((interrupted cap done current w).bodies k).take cap = (w.bodies k).take cap ∧
      ((w.bodies k).length ≤ cap →
        (interrupted cap done current w).bodies k = w.bodies k) := by
  obtain ⟨hdone, -, hdisjoint⟩ := List.nodup_append.mp hnodup
  by_cases hcurrent : ∃ fault, current = some (k, fault)
  · obtain ⟨fault, hcurrent⟩ := hcurrent
    have hk : k ∉ done := by
      intro hk
      refine hdisjoint k hk k ?_ rfl
      rw [hcurrent]
      exact List.mem_singleton_self k
    rw [interrupted_current hcap hdone hcurrent hk]
    exact cutState_body cap fault _ _
  · have hcurrent' : ∀ fault, current ≠ some (k, fault) := fun fault h => hcurrent ⟨fault, h⟩
    by_cases hk : k ∈ done
    · rw [interrupted_done hcap hdone hcurrent' hk]
      exact cutState_body cap .none _ _
    · rw [interrupted_other hcap hdone hcurrent' hk]
      exact ⟨rfl, fun _ => rfl⟩

/-- What the sweeps behind an interrupted one find of a file that is too large. -/
theorem settled_or_cuttable_iff (hcap : 0 < cap)
    (hsel : Sweeps.Selects w.keys (Candidate cap) limit w.at
      (done ++ (current.map Prod.fst).toList ++ rest)) (hk : Large cap w k) :
    Settled cap (w.bodies k) ((interrupted cap done current w).at k) ∨
        Cuttable cap ((interrupted cap done current w).at k) ↔
      (k ∉ done → (∀ fault, current ≠ some (k, fault)) →
        Settled cap (w.bodies k) (w.at k) ∨ Cuttable cap (w.at k)) ∧
      k ∉ done ∧
      ∀ fault, current = some (k, fault) →
        fault = .open ∧ Cuttable cap (w.at k) ∨
          ∃ n, fault = .write n ∧ 0 < n ∧ n < (maintenanceMarker cap).length ∧
            keepsFile (w.bodies k) cap true = false := by
  obtain ⟨f, hrow, hsealed, -⟩ := hk
  have hat : w.at k = (some f, w.bodies k) := Prod.ext hrow rfl
  have hat' : (interrupted cap done current w).at k =
      (some f, (interrupted cap done current w).bodies k) := Prod.ext hrow rfl
  have hnodup := (List.nodup_append.mp hsel.nodup).1
  obtain ⟨hdone, -, hdisjoint⟩ := List.nodup_append.mp hnodup
  have hcandidate : k ∈ done ++ (current.map Prod.fst).toList → f.oversized cap = true := by
    intro hmem
    have hcand := (Sweeps.mem_candidates.mp (hsel.mem k (List.mem_append_left rest hmem))).2
    rw [hat] at hcand
    exact hcand
  -- a row that was not committed is still that of a candidate
  have hunsettled : f.oversized cap = true →
      ¬ Settled cap (w.bodies k) (some f, (interrupted cap done current w).bodies k) :=
    fun hover hsettled => hsettled.not_candidate hover
  rw [hat', hat]
  by_cases hcurrent : ∃ fault, current = some (k, fault)
  · obtain ⟨fault, hcurrent⟩ := hcurrent
    have hmem : k ∈ (current.map Prod.fst).toList := by
      rw [hcurrent]
      exact List.mem_singleton_self k
    have hk : k ∉ done := fun hk => hdisjoint k hk k hmem rfl
    have hover := hcandidate (List.mem_append_right done hmem)
    rw [or_iff_right (hunsettled hover), interrupted_current hcap hdone hcurrent hk, hat,
      cuttable_cutState_iff hover]
    constructor
    · intro hfault
      refine ⟨fun _ hnone => absurd hcurrent (hnone fault), hk, fun fault' hcurrent' => ?_⟩
      rw [hcurrent] at hcurrent'
      obtain rfl := (Prod.mk.inj (Option.some.inj hcurrent')).2
      exact hfault
    · exact fun h => h.2.2 fault hcurrent
  · have hcurrent' : ∀ fault, current ≠ some (k, fault) := fun fault h => hcurrent ⟨fault, h⟩
    by_cases hk : k ∈ done
    · have hover := hcandidate (List.mem_append_left _ hk)
      rw [or_iff_right (hunsettled hover), interrupted_done hcap hdone hcurrent' hk, hat]
      refine ⟨fun hcut => ?_, fun h => absurd hk h.2.1⟩
      exact absurd (kept_visit f hsealed) (cuttable_iff.mp hcut).2
    · rw [interrupted_other hcap hdone hcurrent' hk]
      refine ⟨fun h => ⟨fun _ _ => h, hk, fun fault hfault => ?_⟩, fun h => h.1 hk hcurrent'⟩
      exact absurd hfault (hcurrent' fault)

/-- The rows that fill the window behind the interruption, if every large file can
still be settled. -/
theorem stuck_eq_undersized (hcap : 0 < cap)
    (hnodup : (done ++ (current.map Prod.fst).toList).Nodup)
    (hlarge : ∀ k, Large cap w k →
      Settled cap (w.bodies k) ((interrupted cap done current w).at k) ∨
        Cuttable cap ((interrupted cap done current w).at k)) :
    Sweeps.stuck w.keys (Candidate cap) (visit cap) (interrupted cap done current w).at =
      undersized cap w := by
  ext k
  rw [Sweeps.mem_stuck, undersized, Finset.mem_filter, Sweeps.mem_candidates]
  cases hrow : w.rows.get k with
  | none =>
      have hnone : ∀ body : Bytes, ¬ Candidate cap (none, body) := fun _ hcand => nomatch hcand
      have hat : w.at k = (none, w.bodies k) := Prod.ext hrow rfl
      have hat' : (interrupted cap done current w).at k =
          (none, (interrupted cap done current w).bodies k) := Prod.ext hrow rfl
      rw [hat, hat']
      exact ⟨fun h => absurd h.2.1 (hnone _), fun h => absurd h.1.2 (hnone _)⟩
  | some f =>
      have hat : w.at k = (some f, w.bodies k) := Prod.ext hrow rfl
      have hat' : (interrupted cap done current w).at k =
          (some f, (interrupted cap done current w).bodies k) := Prod.ext hrow rfl
      constructor
      · rintro ⟨hkey, hcand, hstays⟩
        rw [hat'] at hcand
        refine ⟨⟨hkey, by rw [hat]; exact hcand⟩, Nat.le_of_not_lt fun hlt => ?_⟩
        rcases hlarge k ⟨f, hrow, isSealed_of_oversized hcand, hlt⟩ with hsettled | hcut
        · rw [hat'] at hsettled
          exact hsettled.not_candidate hcand
        · exact hcut.2 hstays
      · rintro ⟨⟨hkey, hcand⟩, hle⟩
        rw [hat] at hcand
        have hbody := (interrupted_body hcap hnodup k).2 hle
        have hkept : Kept cap (w.bodies k) := by
          refine .inl ?_
          rw [keepsFile, decide_eq_true hle, Bool.true_or]
        obtain ⟨body', hvisit, -⟩ := visit_of_kept hcand hkept
        rw [hat', hbody, hvisit]
        exact ⟨hkey, hcand, hcand⟩

/-- **When later sweeps catch up with an interrupted one.** -/
theorem recovers_iff_recoverable (hcap : 0 < cap) (w : LogFiles) (done rest : List LogKey)
    (current : Option (LogKey × CutFault))
    (hsel : Sweeps.Selects w.keys (Candidate cap) limit w.at
      (done ++ (current.map Prod.fst).toList ++ rest)) :
    Recovers cap limit w (interrupted cap done current w) ↔
      Recoverable cap limit w done current := by
  have hnodup := (List.nodup_append.mp hsel.nodup).1
  have hready : ∀ k, Cuttable cap ((interrupted cap done current w).at k) → Large cap w k ∧
      ((interrupted cap done current w).bodies k).take cap = (w.bodies k).take cap := by
    intro k hcut
    obtain ⟨htake, hsmall⟩ := interrupted_body (w := w) hcap hnodup k
    refine ⟨?_, htake⟩
    cases hrow : w.rows.get k with
    | none =>
        have hat' : (interrupted cap done current w).at k =
            (none, (interrupted cap done current w).bodies k) := Prod.ext hrow rfl
        rw [hat'] at hcut
        cases hcut.1
    | some f =>
        have hat' : (interrupted cap done current w).at k =
            (some f, (interrupted cap done current w).bodies k) := Prod.ext hrow rfl
        rw [hat', cuttable_iff] at hcut
        obtain ⟨hover, hkept⟩ := hcut
        refine ⟨f, hrow, isSealed_of_oversized hover, Nat.lt_of_not_le fun hle => hkept (.inl ?_)⟩
        rw [hsmall hle, keepsFile, decide_eq_true hle, Bool.true_or]
  have hrows : ∀ k, Candidate cap ((interrupted cap done current w).at k) ↔
      Candidate cap (w.at k) := fun k => Iff.rfl
  rw [Recovers, settles_iff hcap hready]
  constructor
  · rintro ⟨hfiles, hroom⟩
    have hfile := fun k hk => (settled_or_cuttable_iff hcap hsel hk).mp (hfiles k hk)
    refine ⟨fun k hk => (hfile k hk).1, fun k hdone hk => (hfile k hk).2.1 hdone,
      fun k fault hcurrent hk => (hfile k hk).2.2 fault hcurrent, ?_⟩
    rcases hroom with hnone | hroom
    · refine .inl fun k hk hcand => ?_
      rcases hfiles k hk with hsettled | hcut
      · exact hsettled.not_candidate ((hrows k).mpr hcand)
      · exact hnone k hcut
    · refine .inr ?_
      rw [← stuck_eq_undersized hcap hnodup hfiles]
      exact hroom
  · intro h
    have hfiles : ∀ k, Large cap w k →
        Settled cap (w.bodies k) ((interrupted cap done current w).at k) ∨
          Cuttable cap ((interrupted cap done current w).at k) := fun k hk =>
      (settled_or_cuttable_iff hcap hsel hk).mpr
        ⟨h.others k hk, fun hdone => h.done k hdone hk, fun fault hcurrent =>
          h.current k fault hcurrent hk⟩
    refine ⟨hfiles, ?_⟩
    rcases h.room with hnone | hroom
    · refine .inl fun k hcut => ?_
      exact hnone k (hready k hcut).1 ((hrows k).mp hcut.1)
    · refine .inr ?_
      rw [← stuck_eq_undersized hcap hnodup hfiles] at hroom
      exact hroom

end Recovery

/-! ### One file -/

/-- A sealed file, a byte larger than a cap of 2. -/
def sampleKey : LogKey := ⟨1, 1, .log⟩

def sampleFiles : LogFiles where
  rows := Table.empty.insert sampleKey
    { sizeBytes := 3, finalOffset := some 3, status := .complete }
  bodies := fun _ => encode "abc"

theorem eq_of_large {k : LogKey} (h : Large 2 sampleFiles k) : k = sampleKey := by
  obtain ⟨f, hrow, -⟩ := h
  by_contra hk
  have hnone : sampleFiles.rows.get k = none := by
    show (Table.empty.insert sampleKey _).get k = none
    rw [Table.get_insert _ _ rfl, if_neg hk]
    rfl
  rw [hnone] at hrow
  cases hrow

/-- The sweep takes the one file that is there. -/
theorem sample_selects : Sweeps.Selects sampleFiles.keys (Candidate 2) 500 sampleFiles.at
    [sampleKey] where
  nodup := List.nodup_singleton _
  mem := by
    intro k hk
    rw [List.mem_singleton.mp hk]
    exact Sweeps.mem_candidates.mpr ⟨by decide, by decide +kernel⟩
  length := by decide +kernel

/-- The sweep is interrupted when one byte of the line is written. -/
theorem recovers_iff_recoverable_sample :
    Recovers 2 500 sampleFiles (interrupted 2 [] (some (sampleKey, .write 1)) sampleFiles) := by
  refine (recovers_iff_recoverable (by decide) sampleFiles [] [] (some (sampleKey, .write 1))
    sample_selects).mpr ⟨?_, nofun, ?_, .inr (by decide +kernel)⟩
  · intro k hk _ hcurrent
    rw [eq_of_large hk] at hcurrent
    exact absurd rfl (hcurrent (.write 1))
  · intro k fault hcurrent hk
    obtain rfl := (Prod.mk.inj (Option.some.inj hcurrent)).2
    exact .inr ⟨1, rfl, by decide, by decide +kernel, by
      rw [eq_of_large hk]
      decide +kernel⟩

/-- The sweep is interrupted behind the cut of its only file. -/
theorem not_recovers : ¬ ∀ cap limit w done rest current, 0 < cap → 0 < limit →
    Sweeps.Selects w.keys (Candidate cap) limit w.at
      (done ++ (current.map Prod.fst).toList ++ rest) →
    Recovers cap limit w (interrupted cap done current w) := by
  intro h
  obtain ⟨N, hsettled⟩ := h 2 500 sampleFiles [sampleKey] [] none (by decide) (by decide)
    sample_selects
  obtain ⟨w', hfurther, hcand⟩ : ∃ w', FurtherSweeps 2 500 N
      (interrupted 2 [sampleKey] none sampleFiles) w' ∧ Candidate 2 (w'.at sampleKey) :=
    exists_candidate (by decide) (by decide +kernel) (by decide +kernel) N
  have hlarge : Large 2 sampleFiles sampleKey := ⟨_, rfl, rfl, by decide⟩
  exact (hsettled N (Nat.le_refl N) w' hfurther sampleKey hlarge).not_candidate hcand

end Oversized

end Dopilot
