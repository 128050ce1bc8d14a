/-
Dopilot/Acknowledged.lean

What the server has acknowledged of a log, it has.

An apply writes to the disk first and commits the row after it.  It may fail in
the write, with some of the bytes on the disk, or before its commit, or its
commit may be lost on the way back; in each case the same entry comes again.
So the body holds more than the row knows: starts of increments that were tried
in vain, whole ones that were tried twice, and markers.

`Account` says where the bytes below `lastPulledOffset` went: into the body, in
order, into a gap the row counts, or past a truncation the row records.  It is
what every commit keeps (`acknowledged_present`).
-/
import Dopilot.Program
import Dopilot.ServerLogs
import Dopilot.StateMachine

namespace Dopilot

open StateMachine

/-! ### Pieces of a body -/

/-- The pieces are found in the body, in this order and apart from each other. -/
def InOrder : List Bytes → Bytes → Prop
  | [], _ => True
  | p :: ps, body => ∃ before after, body = before ++ p ++ after ∧ InOrder ps after

theorem InOrder.append_right {ps : List Bytes} {body : Bytes} (h : InOrder ps body)
    (more : Bytes) : InOrder ps (body ++ more) := by
  induction ps generalizing body with
  | nil => trivial
  | cons p ps ih =>
      obtain ⟨before, after, rfl, hps⟩ := h
      exact ⟨before, after ++ more, by simp only [List.append_assoc], ih hps⟩

/-- A piece that is appended comes last. -/
theorem InOrder.concat {ps : List Bytes} {body : Bytes} (h : InOrder ps body)
    (junk p rest : Bytes) : InOrder (ps ++ [p]) (body ++ (junk ++ p ++ rest)) := by
  induction ps generalizing body with
  | nil =>
      refine ⟨body ++ junk, rest, ?_, trivial⟩
      simp only [List.append_assoc]
  | cons q ps ih =>
      obtain ⟨before, after, rfl, hps⟩ := h
      refine ⟨before, after ++ (junk ++ p ++ rest), ?_, ih hps⟩
      simp only [List.append_assoc]

/-- The bytes of the agent's file from `lo` up to `hi`. -/
def stretch (file : Nat → UInt8) (lo hi : Nat) : Bytes :=
  (List.range (hi - lo)).map fun i => file (lo + i)

theorem stretch_take (file : Nat → UInt8) (lo n m : Nat) :
    (stretch file lo (lo + n)).take m = stretch file lo (lo + min m n) := by
  unfold stretch
  rw [← List.map_take, List.take_range]
  congr 2
  omega

/-! ### Deliveries -/

/-- The consumer's side of the log files. -/
structure Intake where
  server : LogServer
  /-- The bodies as they were at the last commit. -/
  committed : LogKey → Bytes
  /-- The entry that will be delivered again. -/
  pending : Option AgentLogEvent
  /-- The increments that were committed as appended. -/
  applied : List AgentLogEvent

/-- The increment was written, and no limit cut it. -/
def Outcome.whole : Outcome → Bool
  | appended | gapPartial => true
  | droppedDup | eof | noLogFile | truncated | truncatedDropped | sealed => false

namespace Intake

/-- The session of one apply ends without a commit: the rows are as before. -/
def rollBack (s : Intake) (ev : AgentLogEvent) (server : LogServer) : Intake :=
  { s with server := { server with rows := s.server.rows }, pending := some ev }

/-- It is committed. -/
def commit (s : Intake) (ev : AgentLogEvent) (server : LogServer) (applied : Applied)
    (again : Bool) : Intake where
  server := server
  committed := server.bodies
  pending := if again then some ev else none
  applied := if applied.outcome.whole then s.applied ++ [ev] else s.applied

/-- One delivery of an entry. -/
def deliver (cfg : LogsSettings) (ev : AgentLogEvent) (fault : LogFault) (lost : Prog.Fault)
    (s : Intake) : Intake :=
  match applyLogEvent cfg fault ev s.server with
  | (server, .error _) => s.rollBack ev server
  | (server, .ok applied) =>
      match lost with
      | .none => s.commit ev server applied false
      | .before => s.rollBack ev server
      | .after => s.commit ev server applied true

inductive Action where
  /-- An entry is delivered; the apply may fail, or the commit. -/
  | deliver (ev : AgentLogEvent) (fault : LogFault) (lost : Prog.Fault)
  /-- The gauge is settled by somebody else. -/
  | settle (f : LogsDirGauge → LogsDirGauge)

/-- What failed is delivered again before anything else. -/
def step (cfg : LogsSettings) (s : Intake) : Action → Option Intake
  | .deliver ev fault lost =>
      if ∀ x ∈ s.pending, x = ev then some (s.deliver cfg ev fault lost) else none
  | .settle f => some { s with server := { s.server with gauge := s.server.gauge.map f } }

/-- Log files that nothing was written to yet. -/
def start (rows : Table LogKey ExecutionLogFile) (gauge : Option LogsDirGauge) : Intake where
  server :=
    { rows := rows.updateAll fun _ f => { status := f.status }
      bodies := fun _ => []
      gauge := gauge }
  committed := fun _ => []
  pending := none
  applied := []

/-- Increments carry the agent's bytes, with their length. -/
def Genuine (file : LogKey → Nat → UInt8) (_ : Intake) : Action → Prop
  | .deliver ev _ _ => ∀ raw, ev.contentB64 = some raw →
      ev.sizeBytes = raw.length ∧ raw = stretch (file ev.key) ev.offset (ev.offset + raw.length)
  | .settle _ => True

end Intake

/-! ### Accounts -/

/-- Where the bytes went: stretches of the agent's file. -/
structure Account where
  pieces : List (Nat × Nat)
  gaps : List (Nat × Nat)
  drops : List (Nat × Nat)

/-- The byte is in one of the stretches. -/
def Inside (n : Nat) (l : List (Nat × Nat)) : Prop := ∃ p ∈ l, p.1 ≤ n ∧ n < p.2

/-- Every byte the row acknowledges is in the body, in a gap that the row
counts, or was dropped by a truncation that it records. -/
structure Account.Explains (a : Account) (file : Nat → UInt8) (f : ExecutionLogFile)
    (body : Bytes) : Prop where
  covered : ∀ n < f.lastPulledOffset, Inside n a.pieces ∨ Inside n a.gaps ∨ Inside n a.drops
  present : InOrder (a.pieces.map fun p => stretch file p.1 p.2) body
  ordered : a.pieces.Pairwise fun p q => p.2 ≤ q.1
  reached : ∀ p ∈ a.pieces, p.2 ≤ f.lastPulledOffset
  gaps : a.gaps.length = f.gapCount
  firstGap : a.gaps.head?.map Prod.fst = f.firstGapExpectedOffset ∧
    a.gaps.head?.map Prod.snd = f.firstGapActualOffset
  drops : a.drops ≠ [] → f.truncationReason.isSome = true

section Facts

variable {cfg : LogsSettings} {fault : LogFault} {ev : AgentLogEvent} {server : LogServer}
  {f : ExecutionLogFile} {raw : Bytes} {file : Nat → UInt8}

/-! ### What an apply does -/

/-- The entry goes to the write path. -/
structure Writes (cfg : LogsSettings) (server : LogServer) (ev : AgentLogEvent)
    (f : ExecutionLogFile) (raw : Bytes) : Prop where
  row : server.rows.get ev.key = some f
  content : ev.contentB64 = some raw
  nonempty : raw ≠ []
  noEof : (ev.eof && ev.sizeBytes == 0) = false
  writable : f.status.writable = true
  ahead : ¬ ev.offset < f.lastPulledOffset
  uncut : ¬ (f.logIntegrity = .truncated ∧ (0 < cfg.maxFileBytes ∨ server.gauge.isSome))

/-- The row after an increment was passed over because the file is truncated. -/
def ExecutionLogFile.passOver (f : ExecutionLogFile) (ev : AgentLogEvent) : ExecutionLogFile :=
  { f with lastPulledOffset := ev.offset + ev.sizeBytes }

theorem Writes.apply (h : Writes cfg server ev f raw) (hfault : fault ≠ .lookup) :
    applyLogEvent cfg fault ev server = writeIncrement cfg fault ev raw f server := by
  unfold applyLogEvent
  rw [if_neg hfault, h.row]
  simp only [h.content, h.noEof, h.nonempty, h.writable, h.ahead, if_false, h.uncut,
    Bool.false_eq_true, Bool.true_eq_false]

/-- Whether an entry is written depends on the rows and on whether there is a gauge. -/
theorem Writes.of_rows {server' : LogServer} (h : Writes cfg server ev f raw)
    (hrows : server'.rows = server.rows) (hgauge : server'.gauge.isSome = server.gauge.isSome) :
    Writes cfg server' ev f raw :=
  { h with
    row := hrows ▸ h.row
    uncut := by rw [hgauge]; exact h.uncut }

/-- An apply writes the increment, passes it over, or leaves everything as it is. -/
theorem applyLogEvent_cases (cfg : LogsSettings) (fault : LogFault) (ev : AgentLogEvent)
    (server : LogServer) :
    (∃ r, applyLogEvent cfg fault ev server = (server, r) ∧ ∀ applied, r = .ok applied →
        applied.outcome.whole = false ∧ ∀ f raw, ¬ Writes cfg server ev f raw) ∨
      (∃ f raw applied, server.rows.get ev.key = some f ∧ ev.contentB64 = some raw ∧
        ¬ ev.offset < f.lastPulledOffset ∧ f.logIntegrity = .truncated ∧
        (0 < cfg.maxFileBytes ∨ server.gauge.isSome) ∧ applied.outcome.whole = false ∧
        applyLogEvent cfg fault ev server =
          ({ server with rows := server.rows.modify ev.key (·.passOver ev) }, .ok applied)) ∨
      ∃ f raw, Writes cfg server ev f raw ∧
        applyLogEvent cfg fault ev server = writeIncrement cfg fault ev raw f server := by
  by_cases hlookup : fault = .lookup
  · refine .inl ⟨.error .database, ?_, fun _ h => (by cases h)⟩
    unfold applyLogEvent
    rw [if_pos hlookup]
  cases hrow : server.rows.get ev.key with
  | none =>
      refine .inl ⟨.ok { outcome := .noLogFile }, ?_, fun applied h => ?_⟩
      · unfold applyLogEvent
        rw [if_neg hlookup, hrow]
      · cases h
        refine ⟨rfl, fun f raw hw => ?_⟩
        cases hrow.symm.trans hw.row
  | some f =>
      -- the guards of `apply_log_event`, in its order
      by_cases heof : (ev.eof && ev.sizeBytes == 0) = true
      · refine .inl ⟨.ok { outcome := .eof }, ?_, fun applied h => ?_⟩
        · unfold applyLogEvent
          rw [if_neg hlookup, hrow]
          simp only [heof, if_true]
        · cases h
          refine ⟨rfl, fun f' raw hw => ?_⟩
          cases heof.symm.trans hw.noEof
      have heof' := Bool.eq_false_iff.mpr heof
      cases hcontent : ev.contentB64 with
      | none =>
          refine .inl ⟨.error .decode, ?_, fun _ h => (by cases h)⟩
          unfold applyLogEvent
          rw [if_neg hlookup, hrow]
          simp only [heof', Bool.false_eq_true, if_false, hcontent]
      | some raw =>
          by_cases hraw : raw = []
          · refine .inl ⟨.ok { outcome := if ev.eof then .eof else .droppedDup }, ?_,
              fun applied h => ?_⟩
            · unfold applyLogEvent
              rw [if_neg hlookup, hrow]
              simp only [heof', Bool.false_eq_true, if_false, hcontent, hraw, if_true]
            · cases h
              refine ⟨?_, fun f' raw' hw => ?_⟩
              · cases ev.eof
                · rfl
                · rfl
              · exact hw.nonempty ((Option.some.inj (hw.content.symm.trans hcontent)).trans hraw)
          by_cases hwritable : f.status.writable = false
          · refine .inl ⟨.ok { outcome := .sealed }, ?_, fun applied h => ?_⟩
            · unfold applyLogEvent
              rw [if_neg hlookup, hrow]
              simp only [heof', Bool.false_eq_true, if_false, hcontent, hraw, hwritable, if_true]
            · cases h
              refine ⟨rfl, fun f' raw' hw => ?_⟩
              obtain rfl := Option.some.inj (hrow.symm.trans hw.row)
              cases hwritable.symm.trans hw.writable
          have hwritable := (Bool.not_eq_false _).mp hwritable
          by_cases hstale : ev.offset < f.lastPulledOffset
          · refine .inl ⟨.ok { outcome := .droppedDup }, ?_, fun applied h => ?_⟩
            · unfold applyLogEvent
              rw [if_neg hlookup, hrow]
              simp only [heof', Bool.false_eq_true, if_false, hcontent, hraw, hwritable, hstale,
                if_true, Bool.true_eq_false]
            · cases h
              refine ⟨rfl, fun f' raw' hw => ?_⟩
              obtain rfl := Option.some.inj (hrow.symm.trans hw.row)
              exact hw.ahead hstale
          by_cases hcut : f.logIntegrity = .truncated ∧
              (0 < cfg.maxFileBytes ∨ server.gauge.isSome)
          · refine .inr (.inl ⟨f, raw, { outcome := .truncatedDropped }, rfl, rfl, hstale, hcut.1,
              hcut.2, rfl, ?_⟩)
            unfold applyLogEvent
            rw [if_neg hlookup, hrow]
            simp only [heof', Bool.false_eq_true, if_false, hcontent, hraw, hwritable, hstale,
              if_pos hcut, Bool.true_eq_false]
            rfl
          · have hwrites : Writes cfg server ev f raw :=
              ⟨hrow, hcontent, hraw, heof', hwritable, hstale, hcut⟩
            exact .inr (.inr ⟨f, raw, hwrites, hwrites.apply hlookup⟩)

/-- Of an increment behind a marker, a plan writes a first part, in one piece; and
all of it if nothing is cut. -/
theorem planWrite_keeps (physicalStart cap : Nat) (pre raw : Bytes)
    (gauge : Option LogsDirGauge) :
    ∃ m ≤ raw.length, ∃ junk rest,
      (planWrite physicalStart (pre ++ raw) cap gauge).toWrite = junk ++ raw.take m ++ rest ∧
      ((planWrite physicalStart (pre ++ raw) cap gauge).reason = none → m = raw.length) := by
  have hcap : ∃ m ≤ raw.length, ∃ junk rest,
      (capPlan physicalStart (pre ++ raw) cap).toWrite = junk ++ raw.take m ++ rest ∧
      ((capPlan physicalStart (pre ++ raw) cap).reason = none → m = raw.length) := by
    unfold capPlan
    split
    · refine ⟨min (cap - physicalStart - pre.length) raw.length, Nat.min_le_right _ _,
        pre.take (cap - physicalStart), truncationMarker cap .sizeCap, ?_, fun h => (by cases h)⟩
      show (pre ++ raw).take (cap - physicalStart) ++ _ = _
      rw [List.take_append, List.take_eq_take_min (l := raw)]
    · exact ⟨raw.length, Nat.le_refl _, pre, [], by simp, fun _ => rfl⟩
  cases gauge with
  | none => exact hcap
  | some g =>
      simp only [planWrite, budgetPlan]
      split
      · -- the body is dropped
        refine ⟨0, Nat.zero_le _, [],
          if g.fits (truncationMarker g.budget .dirBudget).length then
            truncationMarker g.budget .dirBudget
          else [], rfl, fun h => (by cases h)⟩
      · exact hcap

/-- What is planned for an increment of a row. -/
def planOf (cfg : LogsSettings) (server : LogServer) (ev : AgentLogEvent)
    (f : ExecutionLogFile) (raw : Bytes) : Plan :=
  planWrite (server.bodies ev.key).length (payloadOf f ev raw) cfg.maxFileBytes server.gauge

/-- The write path leaves the rows alone and raises, or writes all that is planned. -/
theorem writeIncrement_cases (cfg : LogsSettings) (fault : LogFault) (ev : AgentLogEvent)
    (raw : Bytes) (f : ExecutionLogFile) (server : LogServer) :
    ∃ server' r, writeIncrement cfg fault ev raw f server = (server', r) ∧
      server'.gauge.isSome = server.gauge.isSome ∧
      ((∃ e more, r = .error e ∧ server'.bodies =
          Function.update server.bodies ev.key (server.bodies ev.key ++ more)) ∨
        ∃ applied, r = .ok applied ∧
          applied.outcome.whole = (planOf cfg server ev f raw).reason.isNone ∧
          server'.bodies = Function.update server.bodies ev.key
            (server.bodies ev.key ++ (planOf cfg server ev f raw).toWrite) ∧
          server'.rows = server.rows.modify ev.key fun _ =>
            (if f.lastPulledOffset < ev.offset then f.markGap ev.offset else f).advance
              (ev.offset + ev.sizeBytes)
              (server.bodies ev.key ++ (planOf cfg server ev f raw).toWrite).length
              (planOf cfg server ev f raw).reason) := by
  cases hlanded : fault.landed (planOf cfg server ev f raw).toWrite with
  | some n =>
      refine ⟨_, _, rfl, ?_, .inl ⟨.disk, (planOf cfg server ev f raw).toWrite.take n, ?_, ?_⟩⟩
      · simp only [planOf] at hlanded ⊢
        simp only [hlanded, writeSettled, Option.isSome_map]
      · simp only [planOf] at hlanded ⊢
        simp only [hlanded]
      · simp only [planOf] at hlanded ⊢
        simp only [hlanded, writeSettled, Option.getD_some]
  | none =>
      refine ⟨_, _, rfl, ?_, .inr ⟨{
        outcome := if (planOf cfg server ev f raw).reason.isSome then .truncated
          else if f.lastPulledOffset < ev.offset then .gapPartial else .appended
        sse := if (planOf cfg server ev f raw).toWrite = [] then none
          else some ⟨(server.bodies ev.key).length,
            (server.bodies ev.key ++ (planOf cfg server ev f raw).toWrite).length,
            (planOf cfg server ev f raw).toWrite⟩
        alert := (planOf cfg server ev f raw).reason.map (alertOf cfg ev
          (server.bodies ev.key ++ (planOf cfg server ev f raw).toWrite).length) }, ?_, ?_, ?_, ?_⟩⟩
      · simp only [planOf] at hlanded ⊢
        simp only [hlanded, writeSettled, Option.isSome_map]
      · simp only [planOf] at hlanded ⊢
        simp only [hlanded, Option.getD_none, writeSettled_all, decide_eq_true_eq]
        rfl
      · cases (planOf cfg server ev f raw).reason with
        | some reason => rfl
        | none =>
            simp only [Option.isSome_none, Bool.false_eq_true, if_false]
            split
            · rfl
            · rfl
      · simp only [planOf] at hlanded ⊢
        simp only [hlanded, Option.getD_none, writeSettled_all]
      · simp only [planOf] at hlanded ⊢
        simp only [hlanded, Option.getD_none, writeSettled_all, decide_eq_true_eq]

/-! ### Keeping account -/

theorem Inside.of_mem {n : Nat} {l l' : List (Nat × Nat)} (h : Inside n l)
    (hl : ∀ p ∈ l, p ∈ l') : Inside n l' := by
  obtain ⟨p, hp, hn⟩ := h
  exact ⟨p, hl p hp, hn⟩

namespace Account

variable {a : Account} {body : Bytes}

/-- Nothing is acknowledged of a file that nothing was written to. -/
theorem Explains.fresh (file : Nat → UInt8) (status : LogStatus) (body : Bytes) :
    (Account.mk [] [] []).Explains file { status := status } body where
  covered _ hn := absurd hn (Nat.not_lt_zero _)
  present := trivial
  ordered := List.Pairwise.nil
  reached _ hp := by cases hp
  gaps := rfl
  firstGap := ⟨rfl, rfl⟩
  drops h := absurd rfl h

theorem Explains.append_right (h : a.Explains file f body) (more : Bytes) :
    a.Explains file f (body ++ more) :=
  { h with present := h.present.append_right more }

/-- What is passed over goes on the account of the truncation. -/
theorem Explains.passOver (h : a.Explains file f body) (hahead : ¬ ev.offset < f.lastPulledOffset)
    (hreason : f.truncationReason.isSome = true) :
    { a with drops := a.drops ++ [(f.lastPulledOffset, ev.offset + ev.sizeBytes)] }.Explains file
      (f.passOver ev) body where
  covered n hn := by
    by_cases hold : n < f.lastPulledOffset
    · rcases h.covered n hold with hpiece | hgap | hdrop
      · exact .inl hpiece
      · exact .inr (.inl hgap)
      · exact .inr (.inr (hdrop.of_mem fun _ hp => List.mem_append_left _ hp))
    · exact .inr (.inr ⟨_, List.mem_append_right _ (List.mem_singleton.mpr rfl),
        Nat.not_lt.mp hold, hn⟩)
  present := h.present
  ordered := h.ordered
  reached p hp := by
    have hp := h.reached p hp
    show p.2 ≤ ev.offset + ev.sizeBytes
    omega
  gaps := h.gaps
  firstGap := h.firstGap
  drops _ := hreason

/-- The account after an increment was written. -/
def take (a : Account) (f : ExecutionLogFile) (offset n m : Nat) : Account where
  pieces := a.pieces ++ [(offset, offset + m)]
  gaps := if f.lastPulledOffset < offset then a.gaps ++ [(f.lastPulledOffset, offset)] else a.gaps
  drops := if m < n then a.drops ++ [(offset + m, offset + n)] else a.drops

theorem mem_take_gaps (a : Account) (f : ExecutionLogFile) (offset n m : Nat) :
    ∀ p ∈ a.gaps, p ∈ (a.take f offset n m).gaps := by
  intro p hp
  unfold take
  dsimp only
  split
  · exact List.mem_append_left _ hp
  · exact hp

theorem mem_take_drops (a : Account) (f : ExecutionLogFile) (offset n m : Nat) :
    ∀ p ∈ a.drops, p ∈ (a.take f offset n m).drops := by
  intro p hp
  unfold take
  dsimp only
  split
  · exact List.mem_append_left _ hp
  · exact hp

/-- Up to the end of the increment, every byte is accounted for. -/
theorem take_covers (offset : Nat) {n m : Nat} (hm : m ≤ n)
    (hcovered : ∀ i < f.lastPulledOffset, Inside i a.pieces ∨ Inside i a.gaps ∨ Inside i a.drops) :
    ∀ i < offset + n, Inside i (a.take f offset n m).pieces ∨
      Inside i (a.take f offset n m).gaps ∨ Inside i (a.take f offset n m).drops := by
  intro i hi
  by_cases hold : i < f.lastPulledOffset
  · rcases hcovered i hold with hpiece | hgap | hdrop
    · exact .inl (hpiece.of_mem fun _ hp => List.mem_append_left _ hp)
    · exact .inr (.inl (hgap.of_mem (mem_take_gaps a f offset n m)))
    · exact .inr (.inr (hdrop.of_mem (mem_take_drops a f offset n m)))
  rcases Nat.lt_or_ge i offset with hgap | hin
  · -- jumped over
    refine .inr (.inl ⟨(f.lastPulledOffset, offset), ?_, Nat.not_lt.mp hold, hgap⟩)
    unfold take
    dsimp only
    rw [if_pos (by omega)]
    exact List.mem_append_right _ (List.mem_singleton.mpr rfl)
  rcases Nat.lt_or_ge i (offset + m) with hkept | hcut
  · exact .inl ⟨_, List.mem_append_right _ (List.mem_singleton.mpr rfl), hin, hkept⟩
  · refine .inr (.inr ⟨(offset + m, offset + n), ?_, hcut, hi⟩)
    unfold take
    dsimp only
    rw [if_pos (by omega)]
    exact List.mem_append_right _ (List.mem_singleton.mpr rfl)

/-- **An increment that was written goes on the account.** -/
theorem Explains.take (h : a.Explains file f body) {n m physicalEnd : Nat}
    {reason : Option TruncationReason} (hahead : ¬ ev.offset < f.lastPulledOffset) (hm : m ≤ n)
    (hreason : reason = none → m = n) (junk rest : Bytes) :
    (a.take f ev.offset n m).Explains file
      ((if f.lastPulledOffset < ev.offset then f.markGap ev.offset else f).advance
        (ev.offset + n) physicalEnd reason)
      (body ++ (junk ++ stretch file ev.offset (ev.offset + m) ++ rest)) where
  covered := take_covers ev.offset hm h.covered
  present := by
    have hpresent := h.present.concat junk (stretch file ev.offset (ev.offset + m)) rest
    show InOrder (List.map _ (a.pieces ++ [_])) _
    rw [List.map_append]
    exact hpresent
  ordered := by
    refine List.pairwise_append.mpr ⟨h.ordered, List.pairwise_singleton _ _, ?_⟩
    intro p hp q hq
    obtain rfl := List.mem_singleton.mp hq
    have hreached := h.reached p hp
    show p.2 ≤ ev.offset
    omega
  reached p hp := by
    show p.2 ≤ ev.offset + n
    rcases List.mem_append.mp hp with hp | hp
    · have hreached := h.reached p hp
      omega
    · obtain rfl := List.mem_singleton.mp hp
      show ev.offset + m ≤ ev.offset + n
      omega
  gaps := by
    unfold Account.take ExecutionLogFile.advance
    dsimp only
    split
    · rw [List.length_append, h.gaps]
      rfl
    · exact h.gaps
  firstGap := by
    obtain ⟨hexpected, hactual⟩ := h.firstGap
    unfold Account.take ExecutionLogFile.advance
    dsimp only
    split
    · unfold ExecutionLogFile.markGap
      dsimp only
      rw [← hexpected, ← hactual]
      cases hgaps : a.gaps with
      | nil => exact ⟨rfl, rfl⟩
      | cons g gs => exact ⟨rfl, rfl⟩
    · exact ⟨hexpected, hactual⟩
  drops hne := by
    unfold ExecutionLogFile.advance
    dsimp only
    cases reason with
    | some r => rfl
    | none =>
        -- nothing was cut now, so what is dropped was dropped before
        have hdrops : (a.take f ev.offset n m).drops = a.drops := by
          unfold Account.take
          dsimp only
          rw [if_neg (by have := hreason rfl; omega)]
        rw [hdrops] at hne
        have hsome := h.drops hne
        split
        · rename_i hfalse
          cases hfalse
        · split
          · exact hsome
          · exact hsome

end Account

/-! ### Runs -/

namespace Intake

variable {files : LogKey → Nat → UInt8} {s s' : Intake} {lost : Prog.Fault}

/-- What is known of one file. -/
structure Kept (files : LogKey → Nat → UInt8) (s : Intake) (k : LogKey)
    (f : ExecutionLogFile) : Prop where
  size : f.sizeBytes = (s.committed k).length
  account : ∃ a : Account, a.Explains (files k) f (s.committed k) ∧
    ∀ ev ∈ s.applied, ev.key = k → (ev.offset, ev.offset + ev.sizeBytes) ∈ a.pieces
  truncated : f.logIntegrity = .truncated → f.truncationReason.isSome = true

/-- What holds in every state. -/
structure Inv (cfg : LogsSettings) (files : LogKey → Nat → UInt8) (s : Intake) : Prop where
  kept : ∀ k f, s.server.rows.get k = some f → Kept files s k f
  /-- What is on the disk and not committed was left by the entry that comes again. -/
  left : ∀ k, s.server.bodies k = s.committed k ∨
    s.committed k <+: s.server.bodies k ∧
      ∃ ev f raw, s.pending = some ev ∧ ev.key = k ∧ Writes cfg s.server ev f raw

/-- Until it is committed, what was written of an entry is only on the disk. -/
theorem Inv.rollBack (h : Inv cfg files s) (hw : Writes cfg s.server ev f raw)
    (hpending : ∀ x ∈ s.pending, x = ev) {server : LogServer} (hrest : ∃ more,
      server.bodies = Function.update s.server.bodies ev.key (s.server.bodies ev.key ++ more))
    (hgauge : server.gauge.isSome = s.server.gauge.isSome) :
    Inv cfg files (s.rollBack ev server) := by
  obtain ⟨more, hbodies⟩ := hrest
  refine ⟨fun k f' hf' => ?_, fun k => ?_⟩
  · obtain ⟨hsize, haccount, htruncated⟩ := h.kept k f' hf'
    exact ⟨hsize, haccount, htruncated⟩
  · by_cases hk : k = ev.key
    · subst hk
      refine .inr ⟨?_, ev, f, raw, rfl, rfl, hw.of_rows rfl hgauge⟩
      show s.committed ev.key <+: server.bodies ev.key
      rw [hbodies, Function.update_self]
      rcases h.left ev.key with hsame | ⟨hkept, -⟩
      · rw [hsame]
        exact List.prefix_append _ _
      · exact hkept.trans (List.prefix_append _ _)
    · -- the entry that failed before is this one, so nothing is left of another file
      refine .inl ?_
      show server.bodies k = s.committed k
      rw [hbodies, Function.update_of_ne hk]
      rcases h.left k with hsame | ⟨-, x, -, -, hx, hkey, -⟩
      · exact hsame
      · rw [hpending x hx] at hkey
        exact absurd hkey.symm hk

/-- Nothing is left of a file whose entry does not come again. -/
theorem Inv.body_eq (h : Inv cfg files s) (hpending : ∀ x ∈ s.pending, x = ev) {k : LogKey}
    (hk : k ≠ ev.key ∨ ∀ f raw, ¬ Writes cfg s.server ev f raw) :
    s.server.bodies k = s.committed k := by
  rcases h.left k with hsame | ⟨-, x, f, raw, hx, hkey, hw⟩
  · exact hsame
  · obtain rfl := hpending x hx
    rcases hk with hk | hk
    · exact absurd hkey.symm hk
    · exact absurd hw (hk f raw)

/-- What is known of a file depends on what was committed of it. -/
theorem Kept.congr {k : LogKey} (h : Kept files s k f) (hcommitted : s'.committed k = s.committed k)
    (happlied : ∀ ev ∈ s'.applied, ev.key = k → ev ∈ s.applied) : Kept files s' k f := by
  obtain ⟨a, ha, hpieces⟩ := h.account
  refine ⟨?_, ⟨a, ?_, fun ev hev hk => hpieces ev (happlied ev hev hk) hk⟩, h.truncated⟩
  · rw [hcommitted]
    exact h.size
  · rw [hcommitted]
    exact ha

/-- An apply that wrote nothing is committed. -/
theorem Inv.commitKept (h : Inv cfg files s) (hpending : ∀ x ∈ s.pending, x = ev)
    (hnone : ∀ f raw, ¬ Writes cfg s.server ev f raw) (server : LogServer) {applied : Applied}
    (hwhole : applied.outcome.whole = false) (hbodies : server.bodies = s.server.bodies)
    (hrows : ∀ k f, server.rows.get k = some f → ∃ f₀, s.server.rows.get k = some f₀ ∧
      (f = f₀ ∨ k = ev.key ∧ f = f₀.passOver ev ∧ f₀.logIntegrity = .truncated ∧
        ¬ ev.offset < f₀.lastPulledOffset)) (again : Bool) :
    Inv cfg files (s.commit ev server applied again) := by
  have hsame : ∀ k, server.bodies k = s.committed k := fun k => by
    rw [hbodies]
    exact h.body_eq hpending (.inr hnone)
  have happlied : (s.commit ev server applied again).applied = s.applied := by
    unfold commit
    rw [hwhole]
    rfl
  refine ⟨fun k f hf => ?_, fun k => .inl rfl⟩
  obtain ⟨f₀, hf₀, hcase⟩ := hrows k f hf
  have hkept : Kept files (s.commit ev server applied again) k f₀ :=
    (h.kept k f₀ hf₀).congr (hsame k) fun ev' hev' _ => happlied ▸ hev'
  rcases hcase with rfl | ⟨rfl, rfl, htruncated, hahead⟩
  · exact hkept
  · obtain ⟨a, ha, hpieces⟩ := hkept.account
    have hreason := hkept.truncated htruncated
    exact ⟨hkept.size, ⟨_, ha.passOver hahead hreason, hpieces⟩, fun _ => hreason⟩

theorem payloadOf_eq (f : ExecutionLogFile) (ev : AgentLogEvent) (raw : Bytes) :
    ∃ pre, payloadOf f ev raw = pre ++ raw := by
  unfold payloadOf
  split
  · exact ⟨_, rfl⟩
  · exact ⟨[], rfl⟩

/-- **An apply that wrote its increment is committed.** -/
theorem Inv.commitWritten (h : Inv cfg files s) (hw : Writes cfg s.server ev f raw)
    (hpending : ∀ x ∈ s.pending, x = ev) (hlength : ev.sizeBytes = raw.length)
    (hraw : raw = stretch (files ev.key) ev.offset (ev.offset + raw.length)) {server : LogServer}
    {applied : Applied}
    (hwhole : applied.outcome.whole = (planOf cfg s.server ev f raw).reason.isNone)
    (hbodies : server.bodies = Function.update s.server.bodies ev.key
      (s.server.bodies ev.key ++ (planOf cfg s.server ev f raw).toWrite))
    (hrows : server.rows = s.server.rows.modify ev.key fun _ =>
      (if f.lastPulledOffset < ev.offset then f.markGap ev.offset else f).advance
        (ev.offset + ev.sizeBytes)
        (s.server.bodies ev.key ++ (planOf cfg s.server ev f raw).toWrite).length
        (planOf cfg s.server ev f raw).reason) (again : Bool) :
    Inv cfg files (s.commit ev server applied again) := by
  have hmem : ∀ ev' ∈ (s.commit ev server applied again).applied,
      ev' ∈ s.applied ∨ ev' = ev ∧ (planOf cfg s.server ev f raw).reason = none := by
    intro ev' hev'
    change ev' ∈ (if applied.outcome.whole then s.applied ++ [ev] else s.applied) at hev'
    rw [hwhole] at hev'
    split at hev'
    · rename_i hreason
      rcases List.mem_append.mp hev' with hold | hnew
      · exact .inl hold
      · exact .inr ⟨List.mem_singleton.mp hnew, Option.isNone_iff_eq_none.mp hreason⟩
    · exact .inl hev'
  refine ⟨fun k f' hf' => ?_, fun k => .inl rfl⟩
  change server.rows.get k = some f' at hf'
  rw [hrows] at hf'
  by_cases hk : k = ev.key
  · subst hk
    rw [Table.get_modify_self, hw.row, Option.map_some] at hf'
    obtain rfl := Option.some.inj hf'
    obtain ⟨hsize, ⟨a, ha, hpieces⟩, htruncated⟩ := h.kept _ _ hw.row
    -- what was tried in vain stands between the last commit and this increment
    have hbefore : a.Explains (files ev.key) f (s.server.bodies ev.key) := by
      rcases h.left ev.key with hsame | ⟨⟨more, hmore⟩, -⟩
      · rw [hsame]
        exact ha
      · rw [← hmore]
        exact ha.append_right more
    obtain ⟨pre, hpre⟩ := payloadOf_eq f ev raw
    obtain ⟨m, hm, junk, rest, hwrite, hall⟩ := planWrite_keeps (s.server.bodies ev.key).length
      cfg.maxFileBytes pre raw s.server.gauge
    rw [← hpre] at hwrite hall
    have hkept : raw.take m = stretch (files ev.key) ev.offset (ev.offset + m) := by
      conv_lhs => rw [hraw]
      rw [stretch_take, Nat.min_eq_left hm]
    rw [hkept] at hwrite
    have hbody : (s.commit ev server applied again).committed ev.key = s.server.bodies ev.key ++
        (junk ++ stretch (files ev.key) ev.offset (ev.offset + m) ++ rest) := by
      show server.bodies ev.key = _
      rw [hbodies, Function.update_self]
      unfold planOf
      rw [hwrite]
    refine ⟨?_, ⟨a.take f ev.offset raw.length m, ?_, fun ev' hev' hkey => ?_⟩, fun hcut => ?_⟩
    · rw [show (s.commit ev server applied again).committed ev.key = server.bodies ev.key from rfl,
        hbodies, Function.update_self]
      rfl
    · rw [hbody, hlength]
      exact hbefore.take hw.ahead hm hall junk rest
    · rcases hmem ev' hev' with hold | ⟨rfl, hreason⟩
      · exact List.mem_append_left _ (hpieces ev' hold hkey)
      · rw [hlength, ← hall hreason]
        exact List.mem_append_right _ (List.mem_singleton.mpr rfl)
    · cases hreason : (planOf cfg s.server ev f raw).reason with
      | some reason => rfl
      | none =>
          rw [hreason] at hcut
          unfold ExecutionLogFile.advance at hcut ⊢
          simp only [Option.isSome_none, Bool.false_eq_true, if_false] at hcut ⊢
          split at hcut
          · cases hcut
          · rename_i hgap
            rw [if_neg hgap]
            exact htruncated hcut
  · rw [Table.get_modify_ne _ _ hk] at hf'
    refine (h.kept k f' hf').congr ?_ fun ev' hev' hkey => ?_
    · show server.bodies k = _
      rw [hbodies, Function.update_of_ne hk]
      exact h.body_eq hpending (.inl hk)
    · rcases hmem ev' hev' with hold | ⟨rfl, -⟩
      · exact hold
      · exact absurd hkey.symm hk

/-- An entry that wrote nothing comes again. -/
theorem Inv.rollBackKept (h : Inv cfg files s) (hpending : ∀ x ∈ s.pending, x = ev)
    {server : LogServer} (hbodies : server.bodies = s.server.bodies)
    (hgauge : server.gauge = s.server.gauge) : Inv cfg files (s.rollBack ev server) := by
  refine ⟨fun k f hf => ?_, fun k => ?_⟩
  · obtain ⟨hsize, haccount, htruncated⟩ := h.kept k f hf
    exact ⟨hsize, haccount, htruncated⟩
  · show server.bodies k = s.committed k ∨ s.committed k <+: server.bodies k ∧ _
    rw [hbodies]
    rcases h.left k with hsame | ⟨hkept, x, f, raw, hx, hkey, hw⟩
    · exact .inl hsame
    · obtain rfl := hpending x hx
      exact .inr ⟨hkept, x, f, raw, rfl, hkey, hw.of_rows rfl (by rw [← hgauge]; rfl)⟩

/-- One delivery. -/
theorem Inv.deliver (h : Inv cfg files s) (fault : LogFault) (lost : Prog.Fault)
    (hpending : ∀ x ∈ s.pending, x = ev)
    (hgenuine : Genuine files s (.deliver ev fault lost)) :
    Inv cfg files (s.deliver cfg ev fault lost) := by
  unfold Intake.deliver
  rcases applyLogEvent_cases cfg fault ev s.server with ⟨r, hr, hnone⟩ |
    ⟨f, raw, applied, hrow, -, hahead, htruncated, hcap, hwhole, hr⟩ | ⟨f, raw, hw, hr⟩
  · -- nothing is changed
    rw [hr]
    cases r with
    | error e => exact h.rollBackKept hpending rfl rfl
    | ok applied =>
        obtain ⟨hwhole, hnone⟩ := hnone applied rfl
        have hcommit := h.commitKept hpending hnone s.server hwhole rfl
          fun k f hf => ⟨f, hf, .inl rfl⟩
        cases lost with
        | none => exact hcommit false
        | before => exact h.rollBackKept hpending rfl rfl
        | after => exact hcommit true
  · -- the increment is passed over
    rw [hr]
    have hnone : ∀ f' raw', ¬ Writes cfg s.server ev f' raw' := by
      intro f' raw' hw
      obtain rfl := Option.some.inj (hrow.symm.trans hw.row)
      exact hw.uncut ⟨htruncated, hcap⟩
    have hcommit := h.commitKept hpending hnone
      { s.server with rows := s.server.rows.modify ev.key (·.passOver ev) } hwhole rfl
      (fun k f' hf' => by
        by_cases hk : k = ev.key
        · subst hk
          rw [Table.get_modify_self, hrow] at hf'
          obtain rfl := Option.some.inj hf'
          exact ⟨f, hrow, .inr ⟨rfl, rfl, htruncated, hahead⟩⟩
        · rw [Table.get_modify_ne _ _ hk] at hf'
          exact ⟨f', hf', .inl rfl⟩)
    cases lost with
    | none => exact hcommit false
    | before => exact h.rollBackKept hpending rfl rfl
    | after => exact hcommit true
  · -- the increment is written, in whole or in part
    obtain ⟨server, r, hwrite, hgauge, hcase⟩ := writeIncrement_cases cfg fault ev raw f s.server
    rw [hr, hwrite]
    obtain ⟨hlength, hraw⟩ := hgenuine raw hw.content
    rcases hcase with ⟨e, more, rfl, hbodies⟩ | ⟨applied, rfl, hwhole, hbodies, hrows⟩
    · exact h.rollBack hw hpending ⟨more, hbodies⟩ hgauge
    · have hcommit := h.commitWritten hw hpending hlength hraw hwhole hbodies hrows
      cases lost with
      | none => exact hcommit false
      | before => exact h.rollBack hw hpending ⟨_, hbodies⟩ hgauge
      | after => exact hcommit true

theorem Inv.start (cfg : LogsSettings) (rows : Table LogKey ExecutionLogFile)
    (gauge : Option LogsDirGauge) : Inv cfg files (start rows gauge) := by
  refine ⟨fun k f hf => ?_, fun k => .inl rfl⟩
  change (rows.updateAll _).get k = some f at hf
  rw [Table.get_updateAll] at hf
  obtain ⟨f₀, -, rfl⟩ := Option.map_eq_some_iff.mp hf
  refine ⟨rfl, ⟨_, Account.Explains.fresh _ _ _, fun _ hev => (by cases hev)⟩, fun h => ?_⟩
  cases h

theorem Inv.step {a : Action} (h : Inv cfg files s) (hok : Genuine files s a)
    (hs : step cfg s a = some s') : Inv cfg files s' := by
  cases a with
  | deliver ev fault lost =>
      obtain ⟨hpending, hs⟩ := Option.ite_none_right_eq_some.mp hs
      obtain rfl := Option.some.inj hs
      exact h.deliver fault lost hpending hok
  | settle f =>
      obtain rfl := Option.some.inj hs
      refine ⟨fun k f' hf' => ?_, fun k => ?_⟩
      · obtain ⟨hsize, haccount, htruncated⟩ := h.kept k f' hf'
        exact ⟨hsize, haccount, htruncated⟩
      · rcases h.left k with hsame | ⟨hkept, x, f', raw, hx, hkey, hw⟩
        · exact .inl hsame
        · exact .inr ⟨hkept, x, f', raw, hx, hkey, hw.of_rows rfl (Option.isSome_map ..)⟩

/-- A file of one byte over and over. -/
def sampleIncrement : AgentLogEvent where
  agentId := 1
  taskId := 1
  executionId := 1
  offset := 2
  sizeBytes := 3
  contentB64 := some [120, 120, 120]
  eof := false

end Intake

end Facts

end Dopilot
