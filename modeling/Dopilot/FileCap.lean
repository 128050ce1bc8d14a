/-
Dopilot/FileCap.lean

The cap of one log file on the server.

An apply plans from the physical size of the body, and the flag that keeps a cut
file from being written again is in its row.  The body is written before the row
is committed: when an apply fails after its write, the marker may be in the file
while the row does not know of it, and the redelivery plans another one.

`Track` keeps, beside rows and bodies, what the body is made of: content and whole
markers.  `bounded_of_settles` says what holds as long as no failing apply that
cuts the file lands its marker or more than the cap leaves.
-/
import Dopilot.ServerLogs
import Dopilot.StateMachine

namespace Dopilot

open StateMachine

namespace FileCap

/-! ### The file and its parts -/

/-- A part of a body: content, or a whole truncation marker. -/
structure Part where
  bytes : Bytes
  marker : Bool
  deriving DecidableEq, Repr

/-- What the parts make up. -/
def joined (parts : List Part) : Bytes := parts.flatMap (·.bytes)

structure Track where
  server : LogServer
  parts : List Part

/-- The line at the end of what a cutting plan writes. -/
def markerOf (cap : Nat) (plan : Plan) : Bytes :=
  match plan.reason with
  | none => []
  | some .sizeCap => truncationMarker cap .sizeCap
  | some _ => plan.toWrite

/-- The parts that an apply adds: a cutting plan that landed whole ends in a marker. -/
def landedParts (cap : Nat) (plan : Plan) (landed : Bytes) : List Part :=
  if landed = [] then []
  else if plan.reason.isSome ∧ landed = plan.toWrite then
    let marker := markerOf cap plan
    [⟨landed.take (landed.length - marker.length), false⟩, ⟨marker, true⟩]
  else [⟨landed, false⟩]

/-- The plan of an apply that gets as far as planning. -/
def planned (cfg : LogsSettings) (s : LogServer) (ev : AgentLogEvent) : Option Plan :=
  match s.rows.get ev.key, ev.contentB64 with
  | some f, some raw =>
      if (ev.eof && ev.sizeBytes == 0) = true ∨ raw = [] ∨ f.status.writable = false ∨
          ev.offset < f.lastPulledOffset ∨ f.logIntegrity = .truncated then none
      else
        some (planWrite (s.bodies ev.key).length (payloadOf f ev raw) cfg.maxFileBytes s.gauge)
  | _, _ => none

/-! ### Steps -/

inductive Action where
  /-- An increment is applied; without a commit the rows are rolled back. -/
  | deliver (ev : AgentLogEvent) (fault : LogFault) (commit : Bool)
  /-- Other files are written or deleted, or the gauge is calibrated. -/
  | gauge (value : Nat)
  /-- The file is finalized, sealed or expired. -/
  | status (status : LogStatus)
  deriving DecidableEq, Repr

/-- `apply_log_event` and the commit of its caller. -/
def deliver (cfg : LogsSettings) (ev : AgentLogEvent) (fault : LogFault) (commit : Bool)
    (s : LogServer) : LogServer :=
  let (s', result) := applyLogEvent cfg fault ev s
  if commit && result.isOk then s' else { s' with rows := s.rows }

def step (cfg : LogsSettings) (k : LogKey) (t : Track) : Action → Option Track
  | .deliver ev fault commit =>
      let s' := deliver cfg ev fault commit t.server
      let landed := (s'.bodies k).drop (t.server.bodies k).length
      let plan := (planned cfg t.server ev).getD ⟨[], none⟩
      some { server := s', parts := t.parts ++ landedParts cfg.maxFileBytes plan landed }
  | .gauge value =>
      let gauge := t.server.gauge.map fun g => { g with value := value }
      some { t with server := { t.server with gauge := gauge } }
  | .status status =>
      let rows := t.server.rows.modify k fun f => { f with status := status }
      some { t with server := { t.server with rows := rows } }

/-- The file is new: nothing is written, and its row is not cut. -/
structure Fresh (k : LogKey) (s : LogServer) : Prop where
  body : s.bodies k = []
  row : ∀ f, s.rows.get k = some f → f.logIntegrity ≠ .truncated

/-- The markers of a body. -/
def markers (parts : List Part) : List Part := parts.filter (·.marker)

/-- What the cap of a file promises. -/
structure Bounded (cfg : LogsSettings) (k : LogKey) (t : Track) : Prop where
  body : t.server.bodies k = joined t.parts
  text : ∀ p ∈ markers t.parts, ∃ limit reason, p.bytes = truncationMarker limit reason
  within : (t.server.bodies k).length ≤ cfg.maxFileBytes + (joined (markers t.parts)).length
  once : (markers t.parts).length ≤ 1
  last : ∀ before p after, t.parts = before ++ p :: after → p.marker = true → after = []
  flagged : markers t.parts ≠ [] →
    ∃ f, t.server.rows.get k = some f ∧ f.logIntegrity = .truncated

/-- An apply whose plan cuts the file succeeds, or what it leaves is within the cap and
short of a marker. -/
def Settles (cfg : LogsSettings) (k : LogKey) (t : Track) : Action → Prop
  | .deliver ev fault commit =>
      ev.key = k → fault ≠ .lookup →
        match planned cfg t.server ev with
        | none => True
        | some plan =>
            plan.reason.isSome = true → plan.toWrite ≠ [] →
              match fault.landed plan.toWrite with
              | none => commit = true
              | some n => n < plan.toWrite.length ∧
                  (t.server.bodies k).length + n ≤ cfg.maxFileBytes
  | _ => True

instance (cfg : LogsSettings) (k : LogKey) (t : Track) :
    (a : Action) → Decidable (Settles cfg k t a)
  | .deliver ev fault commit => by
      unfold Settles
      repeat' first
        | infer_instance
        | split
  | .gauge _ => .isTrue trivial
  | .status _ => .isTrue trivial

/-! ### One apply -/

section Applies

variable {cfg : LogsSettings} {fault : LogFault} {ev : AgentLogEvent} {s : LogServer}
variable {plan : Plan} {k : LogKey}

/-- The row of a file says that it was cut. -/
def Flagged (k : LogKey) (s : LogServer) : Prop :=
  ∃ f, s.rows.get k = some f ∧ f.logIntegrity = .truncated

theorem flagged_modify {f : ExecutionLogFile} (hf : s.rows.get k = some f)
    (g : ExecutionLogFile → ExecutionLogFile) (hg : (g f).logIntegrity = .truncated) :
    ∃ f', (s.rows.modify k g).get k = some f' ∧ f'.logIntegrity = .truncated := by
  refine ⟨g f, ?_, hg⟩
  rw [Table.get_modify_self, hf]
  rfl

/-- A plan that does not cut keeps to the cap. -/
theorem planWrite_within {start cap : Nat} {payload : Bytes} {gauge : Option LogsDirGauge}
    (hcap : 0 < cap) (h : (planWrite start payload cap gauge).reason = none) :
    start + (planWrite start payload cap gauge).toWrite.length ≤ cap := by
  have hplan : (capPlan start payload cap).reason = none → start + payload.length ≤ cap := by
    intro hnone
    unfold capPlan at hnone
    split at hnone
    · cases hnone
    · rename_i hroom
      omega
  rw [planWrite_toWrite h]
  apply hplan
  cases gauge with
  | none => exact h
  | some g =>
      simp only [planWrite, budgetPlan] at h
      split at h
      · cases h
      · exact h

/-- A plan that cuts writes content up to the cap and a marker, or nothing. -/
theorem planWrite_cut {start cap : Nat} {payload : Bytes} {gauge : Option LogsDirGauge}
    (hplan : planWrite start payload cap gauge = plan) (h : plan.reason.isSome = true)
    (hwrite : plan.toWrite ≠ []) :
    ∃ content, plan.toWrite = content ++ markerOf cap plan ∧ content.length ≤ cap - start ∧
      ∃ limit reason, markerOf cap plan = truncationMarker limit reason := by
  have hcap : (capPlan start payload cap).reason.isSome = true →
      ∃ content, (capPlan start payload cap).toWrite
          = content ++ markerOf cap (capPlan start payload cap) ∧ content.length ≤ cap - start ∧
        ∃ limit reason,
          markerOf cap (capPlan start payload cap) = truncationMarker limit reason := by
    intro hsome
    unfold capPlan at hsome ⊢
    split
    · exact ⟨payload.take (cap - start), rfl, List.length_take_le _ _, cap, .sizeCap, rfl⟩
    · rename_i hroom
      rw [if_neg hroom] at hsome
      cases hsome
  cases gauge with
  | none =>
      subst hplan
      exact hcap h
  | some g =>
      simp only [planWrite, budgetPlan] at hplan
      split at hplan
      · subst hplan
        refine ⟨[], rfl, Nat.zero_le _, g.budget, .dirBudget, ?_⟩
        show (if g.fits _ = true then _ else _) = _
        split
        · rfl
        · rename_i hfits
          exact absurd (if_neg hfits) hwrite
      · subst hplan
        exact hcap h

/-- An apply that does not come to planning writes nothing, and no flag is lost. -/
theorem applyLogEvent_unplanned (hcap : 0 < cfg.maxFileBytes)
    (h : fault = .lookup ∨ planned cfg s ev = none) :
    (applyLogEvent cfg fault ev s).1.bodies = s.bodies ∧
      (Flagged ev.key s → Flagged ev.key (applyLogEvent cfg fault ev s).1) := by
  unfold applyLogEvent
  by_cases hlookup : fault = .lookup
  · rw [if_pos hlookup]
    exact ⟨rfl, id⟩
  · rw [if_neg hlookup]
    have hnone := h.resolve_left hlookup
    unfold planned at hnone
    cases hf : s.rows.get ev.key with
    | none => exact ⟨rfl, id⟩
    | some f =>
        cases hc : ev.contentB64 with
        | none =>
            dsimp only
            split
            · exact ⟨rfl, id⟩
            · exact ⟨rfl, id⟩
        | some raw =>
            simp only [hf, hc] at hnone ⊢
            split at hnone
            · rename_i hdrop
              split
              · exact ⟨rfl, id⟩
              split
              · exact ⟨rfl, id⟩
              split
              · exact ⟨rfl, id⟩
              split
              · exact ⟨rfl, id⟩
              split
              · rename_i htrunc
                exact ⟨rfl, fun _ => flagged_modify hf _ htrunc.1⟩
              · rename_i heof hraw hwritable hbehind htrunc
                exfalso
                rcases hdrop with hd | hd | hd | hd | hd
                · exact heof hd
                · exact hraw hd
                · exact hwritable hd
                · exact hbehind hd
                · exact htrunc ⟨hd, .inl hcap⟩
            · cases hnone

/-- An apply that comes to planning writes its plan, or a first part of it. -/
theorem applyLogEvent_planned (hplan : planned cfg s ev = some plan) (hlookup : fault ≠ .lookup) :
    ¬ Flagged ev.key s ∧
      match fault.landed plan.toWrite with
      | some n =>
          (applyLogEvent cfg fault ev s).1.bodies ev.key
              = s.bodies ev.key ++ plan.toWrite.take n ∧
            (applyLogEvent cfg fault ev s).2.isOk = false
      | none =>
          (applyLogEvent cfg fault ev s).1.bodies ev.key = s.bodies ev.key ++ plan.toWrite ∧
            (applyLogEvent cfg fault ev s).2.isOk = true ∧
            (plan.reason.isSome = true → Flagged ev.key (applyLogEvent cfg fault ev s).1) := by
  unfold planned at hplan
  cases hf : s.rows.get ev.key with
  | none =>
      rw [hf] at hplan
      cases hplan
  | some f =>
      cases hc : ev.contentB64 with
      | none =>
          rw [hf, hc] at hplan
          cases hplan
      | some raw =>
          simp only [hf, hc] at hplan
          split at hplan
          · cases hplan
          · rename_i hkeep
            have hp := Option.some.inj hplan
            simp only [not_or] at hkeep
            obtain ⟨heof, hraw, hwritable, hbehind, hopen⟩ := hkeep
            have happly : applyLogEvent cfg fault ev s = writeIncrement cfg fault ev raw f s := by
              simp only [applyLogEvent, if_neg hlookup, hf, hc, if_neg heof, if_neg hraw,
                if_neg hwritable, if_neg hbehind, if_neg fun h => hopen (And.left h)]
            refine ⟨?_, ?_⟩
            · rintro ⟨f', hf', htrunc⟩
              rw [hf] at hf'
              cases hf'
              exact hopen htrunc
            · rw [happly]
              simp only [writeIncrement, hp]
              split
              · rename_i n hn
                simp only [hn, Function.update_self]
                exact ⟨rfl, rfl⟩
              · rename_i hn
                simp only [hn, Function.update_self]
                refine ⟨writeSettled_all _ _ _, rfl, ?_⟩
                intro hcut
                exact flagged_modify hf _ (if_pos hcut)

theorem planWrite_of_planned (hplan : planned cfg s ev = some plan) :
    ∃ payload, planWrite (s.bodies ev.key).length payload cfg.maxFileBytes s.gauge = plan := by
  unfold planned at hplan
  split at hplan
  · split at hplan
    · cases hplan
    · exact ⟨_, Option.some.inj hplan⟩
  · cases hplan

/-- What the body holds behind an apply, committed or not. -/
theorem deliver_bodies (commit : Bool) :
    (deliver cfg ev fault commit s).bodies = (applyLogEvent cfg fault ev s).1.bodies := by
  unfold deliver
  dsimp only
  split
  · rfl
  · rfl

theorem deliver_flagged {commit : Bool} (h : Flagged k s)
    (happly : Flagged k (applyLogEvent cfg fault ev s).1) :
    Flagged k (deliver cfg ev fault commit s) := by
  unfold deliver
  dsimp only
  split
  · exact happly
  · exact h

/-- The increments of other files do not touch this one. -/
theorem deliver_frame {commit : Bool} (hk : k ≠ ev.key) :
    (deliver cfg ev fault commit s).bodies k = s.bodies k ∧
      (Flagged k s → Flagged k (deliver cfg ev fault commit s)) := by
  obtain ⟨hrow, hbody⟩ : (applyLogEvent cfg fault ev s).1.rows.get k = s.rows.get k ∧
      (applyLogEvent cfg fault ev s).1.bodies k = s.bodies k := applyLogEvent_frame hk
  rw [deliver_bodies]
  refine ⟨hbody, fun h => deliver_flagged h ?_⟩
  unfold Flagged
  rw [hrow]
  exact h

end Applies

/-! ### Every run -/

section Runs

variable {cfg : LogsSettings} {k : LogKey} {s : LogServer} {t t' : Track} {a : Action}
variable {plan : Plan} {parts : List Part} {landed : Bytes} {cap : Nat}

/-- Content up to the cap, and perhaps a marker that the row knows of. -/
structure Inv (cfg : LogsSettings) (k : LogKey) (t : Track) : Prop where
  body : t.server.bodies k = joined t.parts
  shape : ∃ contents tail, t.parts = contents ++ tail ∧ markers contents = [] ∧
    (joined contents).length ≤ cfg.maxFileBytes ∧
    (tail = [] ∨ ∃ marker, tail = [⟨marker, true⟩] ∧
      (∃ limit reason, marker = truncationMarker limit reason) ∧ Flagged k t.server)

@[simp] theorem joined_append (l₁ l₂ : List Part) : joined (l₁ ++ l₂) = joined l₁ ++ joined l₂ :=
  List.flatMap_append

@[simp] theorem markers_append (l₁ l₂ : List Part) :
    markers (l₁ ++ l₂) = markers l₁ ++ markers l₂ :=
  List.filter_append ..

theorem Fresh.inv (h : Fresh k s) : Inv cfg k ⟨s, []⟩ :=
  ⟨h.body, [], [], rfl, rfl, Nat.zero_le _, .inl rfl⟩

/-- The invariant is what the cap promises. -/
theorem Inv.bounded (h : Inv cfg k t) : Bounded cfg k t := by
  obtain ⟨contents, tail, hparts, hnone, hlen, htail⟩ := h.shape
  have hplain : ∀ p ∈ contents, p.marker ≠ true := by
    intro p hp hmarker
    have hmem : p ∈ markers contents := List.mem_filter.mpr ⟨hp, hmarker⟩
    rw [hnone] at hmem
    exact absurd hmem List.not_mem_nil
  rcases htail with rfl | ⟨marker, rfl, htext, hflag⟩
  · rw [List.append_nil] at hparts
    subst hparts
    refine ⟨h.body, ?_, ?_, ?_, ?_, ?_⟩
    · intro p hp
      rw [hnone] at hp
      exact absurd hp List.not_mem_nil
    · rw [h.body]
      omega
    · rw [hnone]
      exact Nat.zero_le 1
    · intro before p after heq hmarker
      refine absurd hmarker (hplain p ?_)
      rw [heq]
      exact List.mem_append_right _ List.mem_cons_self
    · intro hsome
      exact absurd hnone hsome
  · have hmarkers : markers t.parts = [⟨marker, true⟩] := by
      rw [hparts, markers_append, hnone]
      rfl
    refine ⟨h.body, ?_, ?_, ?_, ?_, fun _ => hflag⟩
    · intro p hp
      rw [hmarkers, List.mem_singleton] at hp
      subst hp
      exact htext
    · rw [h.body, hmarkers, hparts, joined_append, List.length_append]
      omega
    · rw [hmarkers]
      exact Nat.le_refl 1
    · intro before p after heq hmarker
      -- the only marker is the last part
      rw [hparts] at heq
      rcases List.eq_nil_or_concat after with hnil | ⟨init, last, rfl⟩
      · exact hnil
      · exfalso
        rw [List.concat_eq_append, ← List.cons_append, ← List.append_assoc] at heq
        have hinit := (List.append_inj' heq rfl).1
        refine hplain p ?_ hmarker
        rw [hinit]
        exact List.mem_append_right _ List.mem_cons_self

/-- Steps that write nothing and keep the flag. -/
theorem Inv.keep (h : Inv cfg k t) (hbody : t'.server.bodies k = t.server.bodies k)
    (hparts : t'.parts = t.parts) (hflag : Flagged k t.server → Flagged k t'.server) :
    Inv cfg k t' := by
  obtain ⟨contents, tail, hsplit, hnone, hlen, htail⟩ := h.shape
  refine ⟨?_, contents, tail, ?_, hnone, hlen, ?_⟩
  · rw [hbody, hparts]
    exact h.body
  · rw [hparts]
    exact hsplit
  · exact htail.imp_right fun ⟨marker, heq, htext, hflagged⟩ =>
      ⟨marker, heq, htext, hflag hflagged⟩

theorem landedParts_nil (cap : Nat) (plan : Plan) : landedParts cap plan [] = [] := if_pos rfl

/-- Content that lands. -/
theorem landedParts_content (hne : landed ≠ [])
    (h : ¬ (plan.reason.isSome = true ∧ landed = plan.toWrite)) :
    landedParts cap plan landed = [⟨landed, false⟩] := by
  rw [landedParts, if_neg hne, if_neg h]

/-- A cut that lands whole. -/
theorem landedParts_cut {content : Bytes} (hcut : plan.reason.isSome = true)
    (hwrite : plan.toWrite = content ++ markerOf cap plan) (hne : plan.toWrite ≠ []) :
    landedParts cap plan plan.toWrite = [⟨content, false⟩, ⟨markerOf cap plan, true⟩] := by
  have hcontent : plan.toWrite.take (plan.toWrite.length - (markerOf cap plan).length)
      = content := by
    rw [hwrite, List.length_append, Nat.add_sub_cancel, List.take_left]
  rw [landedParts, if_neg hne, if_pos ⟨hcut, rfl⟩]
  dsimp only
  rw [hcontent]

/-- More content, within the cap. -/
theorem Inv.content (h : Inv cfg k t) (hopen : ¬ Flagged k t.server)
    (hbody : t'.server.bodies k = t.server.bodies k ++ landed)
    (hparts : t'.parts = t.parts ++ [⟨landed, false⟩])
    (hlen : (t.server.bodies k).length + landed.length ≤ cfg.maxFileBytes) : Inv cfg k t' := by
  obtain ⟨contents, tail, hsplit, hnone, -, htail⟩ := h.shape
  rcases htail with rfl | ⟨marker, -, -, hflag⟩
  · rw [List.append_nil] at hsplit
    refine ⟨?_, contents ++ [⟨landed, false⟩], [], ?_, ?_, ?_, .inl rfl⟩
    · rw [hbody, hparts, joined_append, h.body]
      simp [joined]
    · rw [hparts, hsplit, List.append_nil]
    · rw [markers_append, hnone]
      rfl
    · rw [h.body, hsplit] at hlen
      simpa [joined] using hlen
  · exact absurd hflag hopen

/-- What an apply lands of its plan is content, as long as it is not the whole of a cut. -/
theorem Inv.land (hcap : 0 < cfg.maxFileBytes) (h : Inv cfg k t) (hopen : ¬ Flagged k t.server)
    {payload : Bytes} (hplan : planWrite (t.server.bodies k).length payload cfg.maxFileBytes
      t.server.gauge = plan)
    (hbody : t'.server.bodies k = t.server.bodies k ++ landed)
    (hparts : t'.parts = t.parts ++ landedParts cfg.maxFileBytes plan landed)
    (hle : landed.length ≤ plan.toWrite.length)
    (hcut : plan.reason.isSome = true → landed ≠ [] → landed ≠ plan.toWrite ∧
      (t.server.bodies k).length + landed.length ≤ cfg.maxFileBytes) : Inv cfg k t' := by
  by_cases hnil : landed = []
  · subst hnil
    refine h.keep ?_ ?_ fun hf => absurd hf hopen
    · rw [hbody, List.append_nil]
    · rw [hparts, landedParts_nil, List.append_nil]
  · cases hreason : plan.reason with
    | none =>
        have hwithin := planWrite_within hcap (hplan ▸ hreason)
        rw [hplan] at hwithin
        rw [landedParts_content hnil (by simp [hreason])] at hparts
        exact h.content hopen hbody hparts (by omega)
    | some reason =>
        have hsome : plan.reason.isSome = true := by
          rw [hreason]
          rfl
        obtain ⟨hne, hlen⟩ := hcut hsome hnil
        rw [landedParts_content hnil fun hc => hne hc.2] at hparts
        exact h.content hopen hbody hparts hlen

/-- A cut that lands whole, and whose row is committed. -/
theorem Inv.cut (h : Inv cfg k t) (hopen : ¬ Flagged k t.server)
    {payload : Bytes} (hplan : planWrite (t.server.bodies k).length payload cfg.maxFileBytes
      t.server.gauge = plan)
    (hbody : t'.server.bodies k = t.server.bodies k ++ plan.toWrite)
    (hparts : t'.parts = t.parts ++ landedParts cfg.maxFileBytes plan plan.toWrite)
    (hsome : plan.reason.isSome = true) (hne : plan.toWrite ≠ [])
    (hflag : Flagged k t'.server) : Inv cfg k t' := by
  obtain ⟨content, hcontent, hlen, htext⟩ := planWrite_cut hplan hsome hne
  obtain ⟨contents, tail, hsplit, hnone, hroom, htail⟩ := h.shape
  obtain rfl : tail = [] := htail.resolve_right fun ⟨_, _, _, hf⟩ => hopen hf
  rw [List.append_nil] at hsplit
  rw [landedParts_cut hsome hcontent hne] at hparts
  refine ⟨?_, contents ++ [⟨content, false⟩], [⟨markerOf cfg.maxFileBytes plan, true⟩],
    ?_, ?_, ?_, .inr ⟨_, rfl, htext, hflag⟩⟩
  · rw [hbody, hparts, h.body, hcontent]
    simp [joined]
  · rw [hparts, hsplit, List.append_assoc]
    rfl
  · rw [markers_append, hnone]
    rfl
  · have hstart : (t.server.bodies k).length = (joined contents).length := by
      rw [h.body, hsplit]
    have hone : (joined [⟨content, false⟩]).length = content.length := by
      simp [joined]
    rw [joined_append, List.length_append, hone]
    omega

/-- An apply of the file itself. -/
theorem Inv.deliver (hcap : 0 < cfg.maxFileBytes) (h : Inv cfg k t) {ev : AgentLogEvent}
    {fault : LogFault} {commit : Bool} (hk : ev.key = k)
    (hok : Settles cfg k t (.deliver ev fault commit))
    (hstep : step cfg k t (.deliver ev fault commit) = some t') : Inv cfg k t' := by
  simp only [step, Option.some.injEq] at hstep
  subst hk
  by_cases hun : fault = .lookup ∨ planned cfg t.server ev = none
  · obtain ⟨hbody, hflag⟩ := applyLogEvent_unplanned hcap hun
    have hsame : (FileCap.deliver cfg ev fault commit t.server).bodies ev.key
        = t.server.bodies ev.key := by
      rw [deliver_bodies, hbody]
    subst hstep
    refine h.keep hsame ?_ fun hf => deliver_flagged hf (hflag hf)
    rw [hsame, List.drop_length, landedParts_nil, List.append_nil]
  · obtain ⟨hlookup, hsome⟩ := not_or.mp hun
    obtain ⟨plan, hplan⟩ := Option.ne_none_iff_exists'.mp hsome
    obtain ⟨payload, hwrite⟩ := planWrite_of_planned hplan
    obtain ⟨hopen, hcase⟩ := applyLogEvent_planned hplan hlookup
    have hsettles := hok rfl hlookup
    rw [hplan] at hsettles
    simp only [hplan, Option.getD_some] at hstep
    rw [← deliver_bodies commit] at hcase
    cases hfault : fault.landed plan.toWrite with
    | some n =>
        simp only [hfault] at hcase hsettles
        rw [hcase.1, List.drop_left] at hstep
        subst hstep
        refine h.land hcap hopen hwrite hcase.1 rfl (List.length_take_le' _ _) ?_
        intro hcut hne
        have hwrites : plan.toWrite ≠ [] := by
          intro hnil
          rw [hnil, List.take_nil] at hne
          exact hne rfl
        obtain ⟨hlt, hlen⟩ := hsettles hcut hwrites
        have hn : (plan.toWrite.take n).length = n := List.length_take_of_le (Nat.le_of_lt hlt)
        refine ⟨fun heq => ?_, ?_⟩
        · rw [heq] at hn
          omega
        · rw [hn]
          exact hlen
    | none =>
        simp only [hfault] at hcase hsettles
        obtain ⟨hbody, hresult, hflag⟩ := hcase
        rw [hbody, List.drop_left] at hstep
        subst hstep
        by_cases hcut : plan.reason.isSome = true ∧ plan.toWrite ≠ []
        · obtain ⟨hsome, hne⟩ := hcut
          refine h.cut hopen hwrite hbody rfl hsome hne ?_
          have hcommit : commit = true := hsettles hsome hne
          show Flagged ev.key (FileCap.deliver cfg ev fault commit t.server)
          unfold FileCap.deliver
          dsimp only
          rw [hresult, hcommit]
          exact hflag hsome
        · refine h.land hcap hopen hwrite hbody rfl (Nat.le_refl _) ?_
          intro hsome hne
          exact absurd ⟨hsome, hne⟩ hcut

/-- **What one step preserves.** -/
theorem Inv.step (hcap : 0 < cfg.maxFileBytes) (h : Inv cfg k t) (hok : Settles cfg k t a)
    (hstep : step cfg k t a = some t') : Inv cfg k t' := by
  cases a with
  | deliver ev fault commit =>
      by_cases hk : ev.key = k
      · exact h.deliver hcap hk hok hstep
      · simp only [FileCap.step, Option.some.injEq] at hstep
        obtain ⟨hbody, hflag⟩ : (FileCap.deliver cfg ev fault commit t.server).bodies k
            = t.server.bodies k ∧
              (Flagged k t.server → Flagged k (FileCap.deliver cfg ev fault commit t.server)) :=
          deliver_frame (Ne.symm hk)
        subst hstep
        refine h.keep hbody ?_ hflag
        rw [hbody, List.drop_length, landedParts_nil, List.append_nil]
  | gauge value =>
      simp only [FileCap.step, Option.some.injEq] at hstep
      subst hstep
      exact h.keep rfl rfl id
  | status status =>
      simp only [FileCap.step, Option.some.injEq] at hstep
      subst hstep
      refine h.keep rfl rfl ?_
      rintro ⟨f, hf, htrunc⟩
      exact flagged_modify hf _ htrunc

/-- **Without a cut that fails halfway the cap holds**, over every sequence of increments,
gaps, failures and redeliveries. -/
theorem bounded_of_settles (hcap : 0 < cfg.maxFileBytes) (hfresh : Fresh k s)
    (hrun : RunOk (FileCap.step cfg k) (Settles cfg k) ⟨s, []⟩ t) : Bounded cfg k t := by
  have hinv : Inv cfg k t :=
    hrun.invariant (fun _ _ _ hi hok hs => Inv.step hcap hi hok hs) hfresh.inv
  exact hinv.bounded

end Runs

/-! ### Runs of one small file -/

def smallCap : LogsSettings := { maxFileBytes := 8, maxTotalBytes := 0 }

def smallFile : LogKey := ⟨0, 1, .log⟩

def newFile : LogServer where
  rows := ⟨[(smallFile, {})], by decide⟩
  bodies := fun _ => []
  gauge := some { budget := 0, value := 0 }

/-- So many bytes of output from an offset on. -/
def increment (offset count : Nat) : AgentLogEvent where
  agentId := 7
  taskId := 0
  executionId := 1
  offset := offset
  contentB64 := some (List.replicate count 97)
  sizeBytes := count

theorem newFile_fresh : Fresh smallFile newFile := by
  refine ⟨rfl, ?_⟩
  intro f hf
  obtain rfl := Option.some.inj hf
  decide

/-- A write that fails halfway, a redelivery, an increment over the cap, and more output. -/
theorem bounded_of_settles_smallFile :
    ∃ t, Bounded smallCap smallFile t ∧ (markers t.parts).length = 1 := by
  obtain ⟨t, hrun, hone⟩ := RunOk.exists_of_checkedRun (step smallCap smallFile)
    (Settles smallCap smallFile) ⟨newFile, []⟩
    [.deliver (increment 0 2) (.write 1) true, .deliver (increment 0 2) .none true,
      .deliver (increment 2 9) .lookup true, .deliver (increment 2 9) (.write 3) true,
      .deliver (increment 2 9) .none true, .deliver (increment 11 3) .none true]
    (fun t => (markers t.parts).length == 1) (by decide +kernel)
  exact ⟨t, bounded_of_settles (by decide) newFile_fresh hrun, eq_of_beq hone⟩

/-- The marker is written, its row is not committed, and the redelivery writes another. -/
theorem retried_cut_not_bounded :
    ¬ ∀ (cfg : LogsSettings) (k : LogKey) (s : LogServer) (t : Track), 0 < cfg.maxFileBytes →
      Fresh k s → Run (step cfg k) ⟨s, []⟩ t → Bounded cfg k t := by
  intro h
  obtain ⟨t, hrun, htwo⟩ := RunOk.exists_of_checkedRun (step smallCap smallFile)
    (fun _ _ => True) ⟨newFile, []⟩
    [.deliver (increment 0 9) .none false, .deliver (increment 0 9) .none true]
    (fun t => (markers t.parts).length == 2) (by decide +kernel)
  have honce := (h smallCap smallFile newFile t (by decide) newFile_fresh hrun).once
  rw [eq_of_beq htwo] at honce
  exact absurd honce (by decide)

end FileCap

end Dopilot
