/-
Dopilot/LogContent.lean

What the publisher sends of a log whose file others cut back.

The process appends to its `job.log`; the flood watchdog and the janitor cut the
file back to the cap and write their line there, in two steps of the file system
between which anything may happen.  The publisher of the same cap reads below the
cap only, where nobody writes but the process (`Inv.file`).

`content_published` says what the entries of an execution are, in every run.
Behind the marker nothing but the marker is sent, unless the marker's own record
failed and the cursor could not be read back (`Tailed.lost`); then the publisher
starts again, and sends what it has sent before.
-/
import Dopilot.JobLogs
import Dopilot.LogPublisher
import Dopilot.Process
import Dopilot.Reassembly

namespace Dopilot

open Reassembly StateMachine

namespace LogContent

/-! ### Files that are written in place -/

/-- `truncate(n)`. -/
def truncateTo (n : Nat) (body : Bytes) : Bytes :=
  body.take n ++ List.replicate (n - body.length) 0

/-- `seek(n)` and `write`. -/
def writeAt (n : Nat) (bytes body : Bytes) : Bytes :=
  truncateTo n body ++ bytes ++ body.drop (n + bytes.length)

section Files

variable {cap : Nat} {body bytes output : Bytes}

theorem truncateTo_of_le (h : cap ≤ body.length) : truncateTo cap body = body.take cap := by
  rw [truncateTo, Nat.sub_eq_zero_of_le h]
  exact List.append_nil _

theorem take_truncateTo (h : cap ≤ body.length) : (truncateTo cap body).take cap = body.take cap := by
  rw [truncateTo_of_le h, List.take_take, Nat.min_self]

theorem length_truncateTo (h : cap ≤ body.length) : (truncateTo cap body).length = cap := by
  rw [truncateTo_of_le h, List.length_take_of_le h]

theorem take_writeAt (h : cap ≤ body.length) : (writeAt cap bytes body).take cap = body.take cap := by
  have hlen := length_truncateTo h
  rw [writeAt, List.append_assoc, List.take_append_of_le_length (Nat.le_of_eq hlen.symm),
    take_truncateTo h]

theorem le_length_writeAt (h : cap ≤ body.length) : cap ≤ (writeAt cap bytes body).length := by
  rw [writeAt, List.append_assoc, List.length_append, length_truncateTo h]
  exact Nat.le_add_right _ _

/-- A truncator that is not disturbed cuts the file back. -/
theorem writeAt_truncateTo (h : cap ≤ body.length) :
    writeAt cap (JobLogs.jobLogMarker cap) (truncateTo cap body) = JobLogs.cutBack cap body := by
  have hlen := length_truncateTo h
  have htwice : truncateTo cap (truncateTo cap body) = body.take cap := by
    rw [truncateTo_of_le (Nat.le_of_eq hlen.symm), take_truncateTo h]
  rw [writeAt, htwice, List.drop_eq_nil_of_le (by omega), List.append_nil]
  rfl

/-- Files that agree up to the cap still do when both grow, if neither was cut. -/
theorem take_append (h : body.take cap = output.take cap) (bytes : Bytes) :
    (body ++ bytes).take cap = (output ++ bytes).take cap := by
  have hlen := congrArg List.length h
  rw [List.length_take, List.length_take] at hlen
  by_cases hcap : cap ≤ body.length
  · rw [List.take_append_of_le_length hcap, List.take_append_of_le_length (by omega), h]
  · rw [List.take_of_length_le (by omega), List.take_of_length_le (by omega)] at h
    rw [h]

end Files

/-! ### Lists in which each element fits those before it -/

/-- Each element stands to those before it as `P` says. -/
def EachAfter {α : Type} (P : List α → α → Prop) (l : List α) : Prop :=
  ∀ before x after, l = before ++ x :: after → P before x

section EachAfter

variable {α : Type} {P Q : List α → α → Prop} {l : List α}

theorem EachAfter.nil : EachAfter P [] := by
  intro before x after h
  cases before <;> cases h

theorem EachAfter.mono (h : EachAfter P l) (hPQ : ∀ before x, P before x → Q before x) :
    EachAfter Q l :=
  fun before x after heq => hPQ before x (h before x after heq)

/-- A list grows by an element that fits it. -/
theorem EachAfter.snoc (h : EachAfter P l) {x : α} (hx : P l x) : EachAfter P (l ++ [x]) := by
  intro before y after heq
  rcases List.eq_nil_or_concat after with rfl | ⟨init, last, rfl⟩
  · obtain ⟨rfl, hy⟩ := List.append_inj' heq rfl
    obtain rfl := List.singleton_inj.mp hy
    exact hx
  · rw [List.concat_eq_append, ← List.cons_append, ← List.append_assoc] at heq
    exact h before y init (List.append_inj' heq rfl).1

theorem EachAfter.mem (h : EachAfter P l) {x : α} (hx : x ∈ l) : ∃ before, P before x := by
  obtain ⟨before, after, rfl⟩ := List.append_of_mem hx
  exact ⟨before, h before x after rfl⟩

end EachAfter

/-! ### The publisher among the others -/

structure Tailed where
  agent : LogAgent
  /-- What the process has written so far. -/
  output : ExecutionId → Bytes
  /-- The files that a truncator has found too long. -/
  found : List ExecutionId
  /-- What the publisher's last look at the state said of `log_capped`. -/
  capSeen : ExecutionId → Bool
  /-- An attempt that was not known to be capped, and whose marker was sent, has lost its cursor. -/
  lost : ExecutionId → Bool

/-- The entries of an execution, apart from the one that ends it. -/
def published (e : ExecutionId) (stream : List AgentLogEvent) : List AgentLogEvent :=
  stream.filter fun ev => ev.executionId == e && !ev.eof

/-- Below what the cap leaves for content an entry is content, and from there on a marker. -/
def Content (cfg : PublisherConfig) (ev : AgentLogEvent) : Prop := ev.offset < cfg.contentCap

instance (cfg : PublisherConfig) : DecidablePred (Content cfg) :=
  fun ev => inferInstanceAs (Decidable (ev.offset < cfg.contentCap))

/-- What an operation that has left the agent as it is now says of the cap and the cursor. -/
def Tailed.record (cfg : PublisherConfig) (w : Tailed) (op : LogOp) (x : LogAnswer)
    (a : LogAgent) : Tailed :=
  match op with
  | .readState e =>
      let capped := (w.agent.store.read e).any (·.logCapped)
      { w with agent := a, capSeen := Function.update w.capSeen e capped }
  | .readCursor e =>
      if x.fault ≠ .none ∧ w.capSeen e = false ∧
          (published e w.agent.stream).any (fun ev => !decide (Content cfg ev)) = true then
        { w with agent := a, lost := Function.update w.lost e true }
      else { w with agent := a }
  | _ => { w with agent := a }

/-- What happens beside the publisher. -/
inductive Move where
  /-- The process writes to its log. -/
  | write (e : ExecutionId) (bytes : Bytes)
  /-- A truncator finds the file at its cap or above it. -/
  | find (e : ExecutionId)
  /-- It cuts the file. -/
  | cut (e : ExecutionId)
  /-- It writes its line at the cap, or only the first of it. -/
  | mark (e : ExecutionId) (landed : Nat)
  /-- The agent takes attempts, moves them on, or is told to stop their logs. -/
  | states (store : StateStore)

/-- The file of an execution becomes what `f` makes of it. -/
def Tailed.onFile (w : Tailed) (e : ExecutionId) (f : Bytes → Bytes) : Tailed :=
  { w with agent := { w.agent with
    jobLogs := Function.update w.agent.jobLogs e (f (w.agent.jobLogs e)) } }

def move (cfg : PublisherConfig) (w : Tailed) : Move → Option Tailed
  | .write e bytes =>
      some { w.onFile e (· ++ bytes) with
        output := Function.update w.output e (w.output e ++ bytes) }
  | .find e =>
      if cfg.cap ≤ (w.agent.jobLogs e).length then some { w with found := e :: w.found } else none
  | .cut e => if e ∈ w.found then some (w.onFile e (truncateTo cfg.cap)) else none
  | .mark e landed =>
      if e ∈ w.found then
        some (w.onFile e (writeAt cfg.cap ((JobLogs.jobLogMarker cfg.cap).take landed)))
      else none
  | .states store => some { w with agent := { w.agent with store := store } }

/-- The publisher as a system of one process. -/
def spec (cfg : PublisherConfig) : Sys.Spec Unit LogOp LogOp.Res (fun _ => LogAnswer) LogIoError
    Tailed Move Nat where
  iface :=
    { perform := fun op x w =>
        (op.perform cfg x w.agent).map fun r => (r.1, w.record cfg op x r.2) }
  env := move cfg
  launch _ _ fuel := some (publishOnce cfg fuel)
  crash w :=
    { w with
      agent := { w.agent with memory := .fresh cfg w.agent.memory.lastRefill }
      found := [] }

abbrev State := Sys Unit LogOp LogOp.Res LogIoError Tailed

/-- Nothing was sent, and the files are what their processes wrote. -/
structure Initial (s : State) : Prop where
  idle : s.procs () = none
  stream : s.world.agent.stream = []
  cursors : s.world.agent.cursors = fun _ => none
  output : s.world.output = s.world.agent.jobLogs
  found : s.world.found = []

/-! ### What an entry is -/

/-- The entries so far reach `n`: it is the start, or the end of some content. -/
def Reached (cfg : PublisherConfig) (before : List AgentLogEvent) (n : Nat) : Prop :=
  n = 0 ∨ ∃ ev ∈ before, Content cfg ev ∧ ev.offset + ev.sizeBytes = n

/-- An entry, among those before it. -/
structure Proper (cfg : PublisherConfig) (output : Bytes) (lost : Bool)
    (before : List AgentLogEvent) (ev : AgentLogEvent) : Prop where
  /-- Content is what the process has written there, and leaves room for the marker. -/
  content : Content cfg ev → ∃ raw, ev.contentB64 = some raw ∧ ev.sizeBytes = raw.length ∧
    CutFrom output ⟨ev.offset, raw⟩ ∧ ev.offset + raw.length + cfg.marker.length ≤ cfg.cap
  /-- What is not content is the marker, where the content ends. -/
  marker : ¬ Content cfg ev → ev.contentB64 = some cfg.marker ∧
    ev.sizeBytes = cfg.marker.length ∧ ev.offset + cfg.marker.length = cfg.cap
  /-- No byte is left out. -/
  start : Reached cfg before ev.offset
  /-- Content does not follow the marker. -/
  silent : lost = false → Content cfg ev → ∀ ev' ∈ before, Content cfg ev'

/-! ### The invariant -/

section Invariant

variable {cfg : PublisherConfig} {e e' : ExecutionId} {w w' w₁ w₂ : Tailed}
variable {before after : List AgentLogEvent} {n : Nat} {ev : AgentLogEvent}

theorem Reached.mono (h : Reached cfg before n) (hsub : before ⊆ after) : Reached cfg after n :=
  h.imp_right fun ⟨ev, hev, hcontent⟩ => ⟨ev, hsub hev, hcontent⟩

theorem Proper.mono {output output' : Bytes} {lost lost' : Bool}
    (h : Proper cfg output lost before ev) (houtput : output <+: output')
    (hlost : lost' = false → lost = false) : Proper cfg output' lost' before ev where
  content hc :=
    have ⟨raw, hraw, hsize, hcut, hroom⟩ := h.content hc
    ⟨raw, hraw, hsize, hcut.mono houtput, hroom⟩
  marker := h.marker
  start := h.start
  silent hl := h.silent (hlost hl)

/-- The persisted cursor. -/
def persisted (e : ExecutionId) (w : Tailed) : Nat := (w.agent.cursors e).getD 0

/-- The entries of the execution. -/
abbrev Tailed.published (e : ExecutionId) (w : Tailed) : List AgentLogEvent :=
  LogContent.published e w.agent.stream

/-- What holds of one execution, over every run. -/
structure Inv (cfg : PublisherConfig) (e : ExecutionId) (w : Tailed) : Prop where
  /-- Up to the cap the file is what the process wrote. -/
  file : (w.agent.jobLogs e).take cfg.cap = (w.output e).take cfg.cap
  found : e ∈ w.found → cfg.cap ≤ (w.agent.jobLogs e).length
  entries : EachAfter (Proper cfg (w.output e) (w.lost e)) (w.published e)
  cursor : Reached cfg (w.published e) (persisted e w)
  past : w.lost e = false → (∃ ev ∈ w.published e, ¬ Content cfg ev) →
    cfg.contentCap ≤ persisted e w

/-- What the publisher relies on of the others. -/
structure Rely (e : ExecutionId) (w w' : Tailed) : Prop where
  output : w.output e <+: w'.output e
  stream : w'.agent.stream = w.agent.stream
  cursors : w'.agent.cursors e = w.agent.cursors e
  capSeen : w'.capSeen e = w.capSeen e
  lost : w'.lost e = w.lost e

theorem Rely.refl (w : Tailed) : Rely e w w := ⟨List.prefix_rfl, rfl, rfl, rfl, rfl⟩

theorem Rely.trans (h : Rely e w₁ w) (h' : Rely e w w₂) : Rely e w₁ w₂ :=
  ⟨h.output.trans h'.output, h'.stream.trans h.stream, h'.cursors.trans h.cursors,
    h'.capSeen.trans h.capSeen, h'.lost.trans h.lost⟩

/-- The invariant speaks of the file and of what `Rely` keeps. -/
theorem Inv.of_rely (h : Inv cfg e w) (hr : Rely e w w')
    (hfile : (w'.agent.jobLogs e).take cfg.cap = (w'.output e).take cfg.cap)
    (hfound : e ∈ w'.found → cfg.cap ≤ (w'.agent.jobLogs e).length) : Inv cfg e w' := by
  have hpublished : w'.published e = w.published e := congrArg (published e) hr.stream
  have hpersisted : persisted e w' = persisted e w := congrArg (Option.getD · 0) hr.cursors
  refine ⟨hfile, hfound, ?_, ?_, ?_⟩
  · rw [hpublished, hr.lost]
    exact h.entries.mono fun _ _ hp => hp.mono hr.output id
  · rw [hpublished, hpersisted]
    exact h.cursor
  · rw [hpublished, hpersisted, hr.lost]
    exact h.past

/-- A file that is written in place. -/
theorem Inv.onFile (h : Inv cfg e w) (e' : ExecutionId) {f : Bytes → Bytes}
    (htake : e' = e → (f (w.agent.jobLogs e)).take cfg.cap = (w.agent.jobLogs e).take cfg.cap)
    (hlen : e' = e → cfg.cap ≤ (f (w.agent.jobLogs e)).length) :
    Inv cfg e (w.onFile e' f) ∧ Rely e w (w.onFile e' f) := by
  have hrely : Rely e w (w.onFile e' f) := ⟨List.prefix_rfl, rfl, rfl, rfl, rfl⟩
  refine ⟨h.of_rely hrely ?_ ?_, hrely⟩
  · show (Function.update w.agent.jobLogs e' (f (w.agent.jobLogs e')) e).take cfg.cap = _
    by_cases he : e = e'
    · subst he
      rw [Function.update_self, htake rfl]
      exact h.file
    · rw [Function.update_of_ne he]
      exact h.file
  · intro hmem
    show cfg.cap ≤ (Function.update w.agent.jobLogs e' (f (w.agent.jobLogs e')) e).length
    by_cases he : e = e'
    · subst he
      rw [Function.update_self]
      exact hlen rfl
    · rw [Function.update_of_ne he]
      exact h.found hmem

/-- **Step lemma for what happens beside the publisher.** -/
theorem Inv.move {m : Move} (h : Inv cfg e w) (hm : move cfg w m = some w') :
    Inv cfg e w' ∧ Rely e w w' := by
  cases m with
  | write e' bytes =>
      obtain rfl := Option.some.inj hm
      by_cases he : e = e'
      · subst he
        have hfile : Function.update w.agent.jobLogs e (w.agent.jobLogs e ++ bytes) e
            = w.agent.jobLogs e ++ bytes := Function.update_self ..
        have houtput : Function.update w.output e (w.output e ++ bytes) e = w.output e ++ bytes :=
          Function.update_self ..
        have hrely : Rely e w { w.onFile e (· ++ bytes) with
            output := Function.update w.output e (w.output e ++ bytes) } := by
          refine ⟨?_, rfl, rfl, rfl, rfl⟩
          show _ <+: Function.update w.output e _ e
          rw [houtput]
          exact List.prefix_append _ _
        refine ⟨h.of_rely hrely ?_ ?_, hrely⟩
        · show (Function.update w.agent.jobLogs e _ e).take _ = (Function.update w.output e _ e).take _
          rw [hfile, houtput]
          exact take_append h.file bytes
        · intro hmem
          show _ ≤ (Function.update w.agent.jobLogs e _ e).length
          rw [hfile, List.length_append]
          exact (h.found hmem).trans (Nat.le_add_right _ _)
      · have hfile : Function.update w.agent.jobLogs e' (w.agent.jobLogs e' ++ bytes) e
            = w.agent.jobLogs e := Function.update_of_ne he ..
        have houtput : Function.update w.output e' (w.output e' ++ bytes) e = w.output e :=
          Function.update_of_ne he ..
        have hrely : Rely e w { w.onFile e' (· ++ bytes) with
            output := Function.update w.output e' (w.output e' ++ bytes) } := by
          refine ⟨?_, rfl, rfl, rfl, rfl⟩
          show _ <+: Function.update w.output e' _ e
          exact ⟨[], (List.append_nil _).trans houtput.symm⟩
        refine ⟨h.of_rely hrely ?_ ?_, hrely⟩
        · show (Function.update w.agent.jobLogs e' _ e).take _ = (Function.update w.output e' _ e).take _
          rw [hfile, houtput]
          exact h.file
        · intro hmem
          show _ ≤ (Function.update w.agent.jobLogs e' _ e).length
          rw [hfile]
          exact h.found hmem
  | find e' =>
      simp only [LogContent.move] at hm
      split at hm
      · rename_i hlen
        obtain rfl := Option.some.inj hm
        have hrely : Rely e w { w with found := e' :: w.found } :=
          ⟨List.prefix_rfl, rfl, rfl, rfl, rfl⟩
        refine ⟨h.of_rely hrely h.file ?_, hrely⟩
        intro hmem
        rcases List.mem_cons.mp hmem with rfl | hmem
        · exact hlen
        · exact h.found hmem
      · cases hm
  | cut e' =>
      simp only [LogContent.move] at hm
      split at hm
      · rename_i hmem
        obtain rfl := Option.some.inj hm
        refine h.onFile e' ?_ ?_
        · rintro rfl
          exact take_truncateTo (h.found hmem)
        · rintro rfl
          rw [length_truncateTo (h.found hmem)]
      · cases hm
  | mark e' landed =>
      simp only [LogContent.move] at hm
      split at hm
      · rename_i hmem
        obtain rfl := Option.some.inj hm
        refine h.onFile e' ?_ ?_
        · rintro rfl
          exact take_writeAt (h.found hmem)
        · rintro rfl
          exact le_length_writeAt (h.found hmem)
      · cases hm
  | states store =>
      obtain rfl := Option.some.inj hm
      exact ⟨h.of_rely ⟨List.prefix_rfl, rfl, rfl, rfl, rfl⟩ h.file h.found,
        ⟨List.prefix_rfl, rfl, rfl, rfl, rfl⟩⟩

theorem Reached.le (h : Reached cfg (w.published e) n) (hinv : Inv cfg e w) : n ≤ cfg.contentCap := by
  rcases h with rfl | ⟨ev, hev, hcontent, rfl⟩
  · exact Nat.zero_le _
  · obtain ⟨before, hproper⟩ := hinv.entries.mem hev
    obtain ⟨raw, -, hsize, -, hroom⟩ := hproper.content hcontent
    rw [hsize, PublisherConfig.contentCap]
    omega

end Invariant

/-! ### The programs -/

section Programs

variable {cfg : PublisherConfig} {e e' : ExecutionId} {w w' w₁ w₂ : Tailed} {α : Type}
variable {cursor : Nat}

def contract (cfg : PublisherConfig) (e : ExecutionId) :
    Prog.Contract LogOp (fun _ => LogAnswer) Tailed :=
  Sys.contract (Sys.Cond.always : Sys.Cond Unit LogOp (fun _ => LogAnswer) Tailed Move Nat)
    (Inv cfg e) (Rely e) (fun _ w' => Inv cfg e w') Rely.trans

/-- The program keeps the invariant of `e` at each of its operations, and ends in `Q`. -/
abbrev Safely (cfg : PublisherConfig) (e : ExecutionId) (p : LogProg α)
    (Q : Except LogIoError α → Tailed → Prop) (w : Tailed) : Prop :=
  p.Safe (spec cfg).iface (contract cfg e) Q w

abbrev Keeps (cfg : PublisherConfig) (e : ExecutionId) (p : LogProg α) (w : Tailed) : Prop :=
  Safely cfg e p (fun _ _ => True) w

theorem safely_bind {β : Type} {p : LogProg α} {f : α → LogProg β}
    {Q : Except LogIoError β → Tailed → Prop}
    (h : Safely cfg e p (Prog.bindPost (spec cfg).iface (contract cfg e) f Q) w) :
    Safely cfg e (p >>= f) Q w :=
  Prog.safe_bind.mpr h

/-- The rule of one operation. -/
theorem safely_call {op : LogOp} {Q : Except LogIoError op.Res → Tailed → Prop}
    (h : ∀ w₁, Rely e w w₁ → Inv cfg e w₁ → ∀ x r a, op.perform cfg x w₁.agent = some (r, a) →
      Inv cfg e (w₁.record cfg op x a) ∧ Q r (w₁.record cfg op x a)) :
    Safely cfg e (LogOp.call op) Q w := by
  refine Prog.safe_call.mpr ?_
  intro w₁ hr x r w₂ hok hp
  obtain ⟨⟨r', a⟩, hperf, heq⟩ := Option.map_eq_some_iff.mp hp
  cases heq
  exact h w₁ hr hok.2 x r' a hperf

/-- The operations that leave the entries and the cursors. -/
def LeavesEntries : LogOp → Prop
  | .xadd _ | .writeCursor _ _ | .readState _ | .readCursor _ => False
  | _ => True

theorem perform_leaves {op : LogOp} {x : LogAnswer} {a a' : LogAgent}
    {r : Except LogIoError op.Res} (hop : LeavesEntries op)
    (h : op.perform cfg x a = some (r, a')) :
    a'.stream = a.stream ∧ a'.cursors = a.cursors ∧ a'.jobLogs = a.jobLogs := by
  cases op with
  | markLogCapped e =>
      refine Prog.withFault_rel (R := fun a a' : LogAgent => a'.stream = a.stream ∧
        a'.cursors = a.cursors ∧ a'.jobLogs = a.jobLogs) ?_ ?_ h
      · exact ⟨rfl, rfl, rfl⟩
      · exact ⟨rfl, rfl, rfl⟩
  | writeCursor e offset => exact hop.elim
  | xadd ev => exact hop.elim
  | readState e => exact hop.elim
  | readCursor e => exact hop.elim
  | unfollowed => cases h
  | listExecutionIds | readRaw e offset maxBytes | allowance | rotateFrom | setRotateFrom n
  | eofSent e | addEofSent e | spend n | refill =>
      cases h
      exact ⟨rfl, rfl, rfl⟩

/-- The rule of an operation that leaves the entries. -/
theorem safely_leaves {op : LogOp} {Q : Except LogIoError op.Res → Tailed → Prop}
    (hop : LeavesEntries op)
    (h : ∀ w₁ x r a w₂, Rely e w w₁ → Inv cfg e w₁ → op.perform cfg x w₁.agent = some (r, a) →
      Rely e w₁ w₂ → Inv cfg e w₂ → Q r w₂) : Safely cfg e (LogOp.call op) Q w := by
  refine safely_call fun w₁ hr hinv x r a hp => ?_
  obtain ⟨hstream, hcursors, hlogs⟩ := perform_leaves hop hp
  have hrecord : w₁.record cfg op x a = { w₁ with agent := a } := by
    cases op with
    | xadd ev => exact hop.elim
    | writeCursor e offset => exact hop.elim
    | readState e => exact hop.elim
    | readCursor e => exact hop.elim
    | _ => rfl
  have hrely : Rely e w₁ { w₁ with agent := a } :=
    ⟨List.prefix_rfl, hstream, congrFun hcursors e, rfl, rfl⟩
  have hinv' : Inv cfg e { w₁ with agent := a } := by
    refine hinv.of_rely hrely ?_ ?_
    · show (a.jobLogs e).take _ = _
      rw [hlogs]
      exact hinv.file
    · show _ → _ ≤ (a.jobLogs e).length
      rw [hlogs]
      exact hinv.found
  rw [hrecord]
  exact ⟨hinv', h w₁ x r a _ hr hinv hp hrely hinv'⟩

/-- An operation that leaves the entries, and whose answer does not matter. -/
theorem keeps_leaves {op : LogOp} {k : op.Res → LogProg α} (hop : LeavesEntries op)
    (h : ∀ v w₂, Rely e w w₂ → Inv cfg e w₂ → Keeps cfg e (k v) w₂) :
    Keeps cfg e (LogOp.call op >>= k) w := by
  refine safely_bind (safely_leaves hop fun w₁ _ r _ w₂ hr₁ _ _ hr hinv => ?_)
  cases r with
  | ok v => exact h v w₂ (hr₁.trans hr) hinv
  | error err => trivial

/-- Where a tail loop of the execution stands. -/
structure Tailing (cfg : PublisherConfig) (e : ExecutionId) (cursor : Nat) (w : Tailed) : Prop where
  reached : Reached cfg (w.published e) cursor
  kept : cursor = 0 ∨ cursor = persisted e w
  past : w.lost e = false → (∃ ev ∈ w.published e, ¬ Content cfg ev) → cfg.contentCap ≤ cursor

theorem Tailing.stable (h : Tailing cfg e cursor w) (hr : Rely e w w') :
    Tailing cfg e cursor w' := by
  have hpublished : w'.published e = w.published e := congrArg (published e) hr.stream
  have hpersisted : persisted e w' = persisted e w := congrArg (Option.getD · 0) hr.cursors
  refine ⟨?_, ?_, ?_⟩
  · rw [hpublished]
    exact h.reached
  · rw [hpersisted]
    exact h.kept
  · rw [hpublished, hr.lost]
    exact h.past

/-- The publisher looks at a state, and remembers what it says of the cap. -/
theorem keeps_readState {k : Option AttemptState → LogProg α}
    (h : ∀ read w₂, Inv cfg e w₂ → (e' = e → w₂.capSeen e = read.any (·.logCapped)) →
      Keeps cfg e (k read) w₂) : Keeps cfg e (LogOp.call (.readState e') >>= k) w := by
  refine safely_bind (safely_call fun w₁ _ hinv x r a hp => ?_)
  cases hp
  -- what was seen does not matter to the invariant
  have hinv' : Inv cfg e (w₁.record cfg (.readState e') x w₁.agent) :=
    ⟨hinv.file, hinv.found, hinv.entries, hinv.cursor, hinv.past⟩
  refine ⟨hinv', h _ _ hinv' ?_⟩
  rintro rfl
  exact Function.update_self ..

/-- The publisher reads a cursor, and an attempt that is not known to be capped starts there. -/
theorem keeps_readCursor {k : Nat → LogProg α}
    (h : ∀ cursor w₂, Inv cfg e w₂ →
      (e' = e → w.capSeen e = false → Tailing cfg e cursor w₂) → Keeps cfg e (k cursor) w₂) :
    Keeps cfg e (LogOp.call (.readCursor e') >>= k) w := by
  refine safely_bind (safely_call fun w₁ hr hinv x r a hp => ?_)
  cases hp
  simp only [Tailed.record]
  split
  · rename_i hlost
    have hinv' : Inv cfg e { w₁ with lost := Function.update w₁.lost e' true } := by
      have hmono : Function.update w₁.lost e' true e = false → w₁.lost e = false := by
        intro hfalse
        by_cases he : e = e'
        · subst he
          rw [Function.update_self] at hfalse
          cases hfalse
        · rwa [Function.update_of_ne he] at hfalse
      exact ⟨hinv.file, hinv.found,
        hinv.entries.mono fun _ _ hproper => hproper.mono List.prefix_rfl hmono, hinv.cursor,
        fun hfalse => hinv.past (hmono hfalse)⟩
    refine ⟨hinv', h _ _ hinv' ?_⟩
    rintro rfl -
    have hzero : w₁.agent.readCursor e' x.fault = 0 := if_neg hlost.1
    refine ⟨.inl hzero, .inl hzero, fun hfalse => ?_⟩
    replace hfalse : Function.update w₁.lost e' true e' = false := hfalse
    rw [Function.update_self] at hfalse
    cases hfalse
  · rename_i hkept
    refine ⟨hinv, h _ _ hinv ?_⟩
    rintro rfl hseen
    by_cases hfault : x.fault = .none
    · have hcursor : w₁.agent.readCursor e' x.fault = persisted e' w₁ := if_pos hfault
      rw [hcursor]
      exact ⟨hinv.cursor, .inr rfl, hinv.past⟩
    · have hzero : w₁.agent.readCursor e' x.fault = 0 := if_neg hfault
      rw [hzero]
      refine ⟨.inl rfl, .inl rfl, fun _ hmarker => ?_⟩
      refine absurd ⟨hfault, ?_, ?_⟩ hkept
      · rw [hr.capSeen]
        exact hseen
      · simpa using hmarker

/-- The rule of an entry. -/
theorem safely_xadd {ev : AgentLogEvent}
    {Q : Except LogIoError (Except LogIoError Unit) → Tailed → Prop}
    (hinv : ∀ w₁, Rely e w w₁ → Inv cfg e w₁ → Inv cfg e
      { w₁ with agent := { w₁.agent with stream := w₁.agent.stream ++ [ev] } })
    (hok : ∀ w₁, Rely e w w₁ → Inv cfg e w₁ → Q (.ok (.ok ()))
      { w₁ with agent := { w₁.agent with stream := w₁.agent.stream ++ [ev] } })
    (herr : ∀ err w₂, Q (.ok (.error err)) w₂) : Safely cfg e (LogOp.ask (.xadd ev)) Q w := by
  refine Prog.safe_ask.mpr ?_
  intro w₁ hr x r w₂ hcond hp
  obtain ⟨⟨r', a⟩, hperf, heq⟩ := Option.map_eq_some_iff.mp hp
  cases heq
  rcases Prog.withFault_cases hperf with ⟨-, rfl, rfl⟩ | ⟨-, rfl, rfl⟩ | ⟨-, rfl, rfl⟩
  · exact ⟨hinv w₁ hr hcond.2, hok w₁ hr hcond.2⟩
  · exact ⟨hcond.2, herr _ _⟩
  · exact ⟨hinv w₁ hr hcond.2, herr _ _⟩

/-- An entry that is none of the execution's. -/
theorem published_other {ev : AgentLogEvent} {stream : List AgentLogEvent}
    (h : ev.executionId ≠ e ∨ ev.eof = true) : published e (stream ++ [ev]) = published e stream := by
  have hnot : (ev.executionId == e && !ev.eof) = false := by
    rcases h with h | h
    · rw [beq_false_of_ne h]
      rfl
    · rw [h]
      exact Bool.and_false _
  rw [published, List.filter_append, List.filter_cons_of_neg (by simp [hnot]), List.filter_nil,
    List.append_nil]
  rfl

theorem published_own {state : AttemptState} {raw : Bytes} {stream : List AgentLogEvent} :
    published e (stream ++ [sliceEvent cfg state e cursor raw]) =
      published e stream ++ [sliceEvent cfg state e cursor raw] := by
  rw [published, List.filter_append]
  congr 1
  exact List.filter_cons_of_pos (by simp [sliceEvent])

theorem Inv.xadd_other (h : Inv cfg e w) {ev : AgentLogEvent}
    (hev : ev.executionId ≠ e ∨ ev.eof = true) :
    Inv cfg e { w with agent := { w.agent with stream := w.agent.stream ++ [ev] } } := by
  refine ⟨h.file, h.found, ?_, ?_, ?_⟩
  · show EachAfter _ (published e (w.agent.stream ++ [ev]))
    rw [published_other hev]
    exact h.entries
  · show Reached cfg (published e (w.agent.stream ++ [ev])) _
    rw [published_other hev]
    exact h.cursor
  · show _ → (∃ ev' ∈ published e (w.agent.stream ++ [ev]), _) → _
    rw [published_other hev]
    exact h.past

/-- The stream takes an entry that is proper there. -/
theorem Inv.xadd_own (h : Inv cfg e w) {state : AttemptState} {raw : Bytes}
    (hproper : Proper cfg (w.output e) (w.lost e) (w.published e)
      (sliceEvent cfg state e cursor raw))
    (hpast : w.lost e = false → cfg.contentCap ≤ cursor → cfg.contentCap ≤ persisted e w) :
    Inv cfg e { w with agent := { w.agent with
      stream := w.agent.stream ++ [sliceEvent cfg state e cursor raw] } } := by
  refine ⟨h.file, h.found, ?_, ?_, ?_⟩
  · show EachAfter _ (published e (w.agent.stream ++ _))
    rw [published_own]
    exact h.entries.snoc hproper
  · show Reached cfg (published e (w.agent.stream ++ _)) _
    rw [published_own]
    exact h.cursor.mono (List.subset_append_left _ _)
  · show _ → (∃ ev' ∈ published e (w.agent.stream ++ _), _) → _
    rw [published_own]
    rintro hlost ⟨ev', hev', hmarker⟩
    rcases List.mem_append.mp hev' with hold | hnew
    · exact h.past hlost ⟨ev', hold, hmarker⟩
    · obtain rfl := List.mem_singleton.mp hnew
      exact hpast hlost (Nat.le_of_not_lt hmarker)

/-- A slice of what the process wrote may be sent. -/
theorem Tailing.content_proper (h : Tailing cfg e cursor w) {state : AttemptState} {raw : Bytes}
    (hcut : CutFrom (w.output e) ⟨cursor, raw⟩) (hlt : cursor < cfg.contentCap)
    (hroom : cursor + raw.length ≤ cfg.contentCap) :
    Proper cfg (w.output e) (w.lost e) (w.published e) (sliceEvent cfg state e cursor raw) where
  content _ := by
    refine ⟨raw, rfl, rfl, hcut, ?_⟩
    show cursor + raw.length + cfg.marker.length ≤ cfg.cap
    unfold PublisherConfig.contentCap at hlt hroom
    omega
  marker hmarker := absurd hlt hmarker
  start := h.reached
  silent hlost _ ev' hev' := by
    by_contra hmarker
    have hpast := h.past hlost ⟨ev', hev', hmarker⟩
    omega

/-- Where the content ends the marker may be sent. -/
theorem Tailing.marker_proper (h : Tailing cfg e cursor w) (hinv : Inv cfg e w)
    (hcap : cfg.marker.length ≤ cfg.cap) (hle : cfg.contentCap ≤ cursor) {state : AttemptState} :
    Proper cfg (w.output e) (w.lost e) (w.published e)
      (sliceEvent cfg state e cursor cfg.marker) where
  content hcontent := absurd hle (Nat.not_le_of_lt hcontent)
  marker _ := by
    refine ⟨rfl, rfl, ?_⟩
    show cursor + cfg.marker.length = cfg.cap
    have hreached := h.reached.le hinv
    unfold PublisherConfig.contentCap at hle hreached
    omega
  start := h.reached
  silent _ hcontent := absurd hle (Nat.not_le_of_lt hcontent)

/-- What is read below the cap is what the process wrote. -/
theorem Inv.readRaw_cut (h : Inv cfg e w) {want : Nat} {fault : Prog.Fault} {raw : Bytes}
    (hraw : w.agent.readRaw e cursor want fault = raw) (hwant : cursor + want ≤ cfg.cap) :
    CutFrom (w.output e) ⟨cursor, raw⟩ ∧ raw.length ≤ want := by
  unfold LogAgent.readRaw at hraw
  split at hraw
  · have hbelow : ∀ body : Bytes, (body.drop cursor).take want
        = ((body.take cfg.cap).drop cursor).take want := by
      intro body
      rw [List.drop_take, List.take_take, Nat.min_eq_left (by omega)]
    have hsame : ((w.agent.jobLogs e).drop cursor).take want
        = ((w.output e).drop cursor).take want := by
      rw [hbelow, h.file, ← hbelow]
    subst hraw
    refine ⟨?_, List.length_take_le _ _⟩
    rw [hsame]
    exact cutFrom_read _ _ _
  · subst hraw
    exact ⟨rfl, Nat.zero_le _⟩

/-- Between an entry of content and its cursor. -/
structure Landed (cfg : PublisherConfig) (e : ExecutionId) (next : Nat) (w : Tailed) : Prop where
  reached : Reached cfg (w.published e) next
  silent : w.lost e = false → ∀ ev ∈ w.published e, Content cfg ev

theorem Landed.stable {next : Nat} (h : Landed cfg e next w) (hr : Rely e w w') :
    Landed cfg e next w' := by
  have hpublished : w'.published e = w.published e := congrArg (published e) hr.stream
  refine ⟨?_, ?_⟩
  · rw [hpublished]
    exact h.reached
  · rw [hpublished, hr.lost]
    exact h.silent

/-- Once the entry has landed the loop may stand at its end. -/
theorem Tailing.landed (h : Tailing cfg e cursor w) {state : AttemptState} {raw : Bytes}
    (hlt : cursor < cfg.contentCap) :
    Landed cfg e (cursor + raw.length) { w with agent := { w.agent with
      stream := w.agent.stream ++ [sliceEvent cfg state e cursor raw] } } := by
  have hnew : Content cfg (sliceEvent cfg state e cursor raw) := hlt
  refine ⟨?_, ?_⟩
  · show Reached cfg (published e (w.agent.stream ++ _)) _
    rw [published_own]
    exact .inr ⟨_, List.mem_append_right _ List.mem_cons_self, hnew, rfl⟩
  · show _ → ∀ ev ∈ published e (w.agent.stream ++ _), _
    rw [published_own]
    intro hlost ev hev
    rcases List.mem_append.mp hev with hold | hown
    · by_contra hmarker
      have hpast := h.past hlost ⟨ev, hold, hmarker⟩
      omega
    · obtain rfl := List.mem_singleton.mp hown
      exact hnew

/-- The cursor of the entry is written, and the loop stands there. -/
theorem Landed.writeCursor {next : Nat} (h : Landed cfg e next w) (hinv : Inv cfg e w) :
    Inv cfg e { w with agent := { w.agent with
        cursors := Function.update w.agent.cursors e (some next) } } ∧
      Tailing cfg e next { w with agent := { w.agent with
        cursors := Function.update w.agent.cursors e (some next) } } := by
  have hpersisted : persisted e { w with agent := { w.agent with
      cursors := Function.update w.agent.cursors e (some next) } } = next := by
    show (Function.update w.agent.cursors e (some next) e).getD 0 = next
    rw [Function.update_self]
    rfl
  have hpast : w.lost e = false → (∃ ev ∈ w.published e, ¬ Content cfg ev) →
      cfg.contentCap ≤ next := fun hlost ⟨ev, hev, hmarker⟩ => absurd (h.silent hlost ev hev) hmarker
  refine ⟨⟨hinv.file, hinv.found, hinv.entries, ?_, ?_⟩, h.reached, .inr hpersisted.symm, hpast⟩
  · rw [hpersisted]
    exact h.reached
  · rw [hpersisted]
    exact hpast

/-- The cursor of another execution. -/
theorem Inv.writeCursor_other (h : Inv cfg e w) (he : e' ≠ e) (next : Nat) :
    Inv cfg e { w with agent := { w.agent with
      cursors := Function.update w.agent.cursors e' (some next) } } := by
  have hrely : Rely e w { w with agent := { w.agent with
      cursors := Function.update w.agent.cursors e' (some next) } } :=
    ⟨List.prefix_rfl, rfl, Function.update_of_ne (Ne.symm he) _ _, rfl, rfl⟩
  exact h.of_rely hrely h.file h.found

/-- The rule of the cursor that is written behind an entry. -/
theorem keeps_writeCursor {next : Nat} {k : Unit → LogProg α}
    (hw : e' = e → Landed cfg e next w)
    (h : ∀ w₂, (e' = e → Tailing cfg e next w₂) → Keeps cfg e (k ()) w₂) :
    Keeps cfg e (LogOp.call (.writeCursor e' next) >>= k) w := by
  refine safely_bind (safely_call fun w₁ hr hinv x r a hp => ?_)
  have hwritten : Inv cfg e { w₁ with agent := { w₁.agent with
      cursors := Function.update w₁.agent.cursors e' (some next) } } := by
    by_cases he : e' = e
    · subst he
      exact (((hw rfl).stable hr).writeCursor hinv).1
    · exact hinv.writeCursor_other he next
  rcases Prog.withFault_cases hp with ⟨-, rfl, rfl⟩ | ⟨-, rfl, rfl⟩ | ⟨-, rfl, rfl⟩
  · refine ⟨hwritten, h _ ?_⟩
    rintro rfl
    exact (((hw rfl).stable hr).writeCursor hinv).2
  · exact ⟨hinv, trivial⟩
  · exact ⟨hwritten, trivial⟩

/-- The marker goes out where the content ends. -/
theorem publishMarker_keeps (hcap : cfg.marker.length ≤ cfg.cap) {state : AttemptState}
    {k : Bool → LogProg α} (hw : e' = e → Tailing cfg e cursor w) (hle : cfg.contentCap ≤ cursor)
    (hk : ∀ b w₂, Keeps cfg e (k b) w₂) :
    Keeps cfg e (publishMarker cfg state e' cursor >>= k) w := by
  refine safely_bind (safely_bind (safely_xadd ?_ ?_ ?_))
  · intro w₁ hr hinv
    by_cases he : e' = e
    · subst he
      have htail := (hw rfl).stable hr
      refine hinv.xadd_own (htail.marker_proper hinv hcap hle) fun _ _ => ?_
      rcases htail.kept with hzero | hkept
      · omega
      · exact hkept ▸ hle
    · exact hinv.xadd_other (.inl he)
  · intro w₁ _ _
    exact hk true _
  · intro err w₂
    exact hk false w₂

/-- **The tail loop keeps the invariant**, by induction on the rounds followed. -/
theorem tailLoop_keeps (hcap : cfg.marker.length ≤ cfg.cap) (hpos : 0 < cfg.cap) (fuel : Nat)
    {state : AttemptState} {total : Nat} (hw : e' = e → Tailing cfg e cursor w) :
    Keeps cfg e (tailLoop cfg e' fuel state cursor total) w := by
  induction fuel generalizing cursor total w with
  | zero => exact keeps_leaves trivial fun _ _ _ _ => trivial
  | succ fuel ih =>
      refine keeps_leaves trivial fun allowance w₁ hr₁ _ => ?_
      change Nat at allowance
      have h₁ : e' = e → Tailing cfg e cursor w₁ := fun he => (hw he).stable hr₁
      show Keeps cfg e (if allowance = 0 then _ else _) w₁
      split
      · trivial
      · split
        · rename_i hend
          split
          · trivial
          · refine publishMarker_keeps hcap h₁ hend.2 fun b w₂ => ?_
            cases b with
            | false => trivial
            | true =>
                exact keeps_leaves trivial fun _ _ _ _ => keeps_leaves trivial fun _ _ _ _ => trivial
        · rename_i hroom
          have hlt : cursor < cfg.contentCap := by
            by_contra hle
            exact hroom ⟨hpos, Nat.le_of_not_lt hle⟩
          have hwant : cursor + cfg.want allowance cursor ≤ cfg.contentCap := by
            unfold PublisherConfig.want
            dsimp only
            rw [if_pos hpos]
            omega
          have hbelow : cfg.contentCap ≤ cfg.cap := Nat.sub_le _ _
          refine safely_bind (safely_leaves trivial fun w₂ x r a w₃ hr₂ hinv₂ hp hr₃ _ => ?_)
          cases hp
          generalize hraw : w₂.agent.readRaw e' cursor (cfg.want allowance cursor) x.fault = raw
          show Keeps cfg e (if raw = [] then _ else _) w₃
          split
          · trivial
          · have hcut : e' = e → CutFrom (w₃.output e) ⟨cursor, raw⟩ ∧
                raw.length ≤ cfg.want allowance cursor := by
              rintro rfl
              obtain ⟨hcut, hlen⟩ := hinv₂.readRaw_cut hraw (hwant.trans hbelow)
              exact ⟨hcut.mono hr₃.output, hlen⟩
            refine safely_bind (safely_xadd ?_ ?_ fun _ _ => trivial)
            · intro w₄ hr₄ hinv₄
              by_cases he : e' = e
              · subst he
                obtain ⟨hcut, hlen⟩ := hcut rfl
                have htail := ((h₁ rfl).stable (hr₂.trans hr₃)).stable hr₄
                refine hinv₄.xadd_own (htail.content_proper (hcut.mono hr₄.output) hlt (by omega)) ?_
                intro _ hle
                omega
              · exact hinv₄.xadd_other (.inl he)
            · intro w₄ hr₄ _
              refine keeps_writeCursor (fun he => ?_) fun w₅ hw₅ => ?_
              · subst he
                exact (((h₁ rfl).stable (hr₂.trans hr₃)).stable hr₄).landed hlt
              · refine keeps_leaves trivial fun _ w₆ hr₆ _ => ?_
                show Keeps cfg e (if raw.length < _ then _ else _) w₆
                split
                · trivial
                · exact ih fun he => (hw₅ he).stable hr₆

/-- The end entry is no part of the log. -/
theorem publishEof_keeps {state : AttemptState} : Keeps cfg e (publishEof cfg state e' cursor) w := by
  refine keeps_leaves trivial fun sent w₁ _ _ => ?_
  change Bool at sent
  show Keeps cfg e (if state.phase = .done ∧ sent = false then _ else _) w₁
  split
  · refine safely_bind (safely_xadd ?_ ?_ fun _ _ => trivial)
    · intro w₂ _ hinv
      exact hinv.xadd_other (.inr rfl)
    · intro w₂ _ _
      exact safely_leaves trivial fun _ _ _ _ _ _ _ _ _ _ => trivial
  · trivial

/-- What follows the tail loop keeps the invariant. -/
theorem exit_keeps (exit : TailExit) (w : Tailed) :
    Keeps cfg e (match exit with
      | .aborted total => (return total : LogProg Nat)
      | .stopped state cursor total => do
          publishEof cfg state e' cursor
          return total) w := by
  cases exit with
  | aborted total => trivial
  | stopped state cursor total =>
      refine safely_bind (publishEof_keeps.mono ?_)
      rintro (err | u) w₁ -
      · trivial
      · trivial

/-- **One execution's turn keeps the invariant.** -/
theorem publishAttempt_keeps (hcap : cfg.marker.length ≤ cfg.cap) (hpos : 0 < cfg.cap) (fuel : Nat)
    (e' : ExecutionId) : Keeps cfg e (publishAttempt cfg fuel e') w := by
  refine keeps_readState fun read w₁ _ hseen => ?_
  cases read with
  | none => trivial
  | some state =>
      show Keeps cfg e (if state.logPath = "" then _ else _) w₁
      split
      · trivial
      · refine keeps_readCursor fun cursor w₂ _ htail => ?_
        show Keeps cfg e (if state.logCapped = true then _ else _) w₂
        split
        · exact exit_keeps (.stopped state cursor 0) w₂
        · rename_i hcapped
          have hnot : e' = e → w₁.capSeen e = false := by
            intro he
            rw [hseen he]
            exact eq_false_of_ne_true hcapped
          refine safely_bind ((tailLoop_keeps hcap hpos fuel fun he => htail he (hnot he)).mono ?_)
          rintro (err | exit) w₃ -
          · trivial
          · exact exit_keeps exit w₃

theorem publishScan_keeps (hcap : cfg.marker.length ≤ cfg.cap) (hpos : 0 < cfg.cap)
    (fuel start n : Nat) (order : List ExecutionId) {idx total : Nat} :
    Keeps cfg e (publishScan cfg fuel start n order idx total) w := by
  induction order generalizing idx total w with
  | nil => exact keeps_leaves trivial fun _ _ _ _ => trivial
  | cons e' rest ih =>
      refine keeps_leaves trivial fun allowance w₁ _ _ => ?_
      change Nat at allowance
      show Keeps cfg e (if allowance = 0 then _ else _) w₁
      split
      · exact keeps_leaves trivial fun _ _ _ _ => trivial
      · refine safely_bind (Prog.safe_tryCatch.mpr ((publishAttempt_keeps hcap hpos fuel e').mono ?_))
        rintro (err | published) w₂ -
        · exact ih
        · exact ih

/-- **A tick of the publisher keeps the invariant.** -/
theorem publishOnce_keeps (hcap : cfg.marker.length ≤ cfg.cap) (hpos : 0 < cfg.cap) (fuel : Nat) :
    Keeps cfg e (publishOnce cfg fuel) w := by
  refine keeps_leaves trivial fun _ w₁ _ _ => ?_
  refine keeps_leaves trivial fun ids w₂ _ _ => ?_
  change List ExecutionId at ids
  show Keeps cfg e (if ids = [] then _ else _) w₂
  split
  · trivial
  · refine keeps_leaves trivial fun rotate w₃ _ _ => ?_
    refine safely_bind ((publishScan_keeps hcap hpos fuel _ _ _).mono ?_)
    rintro (err | total) w₄ -
    · trivial
    · trivial

end Programs

/-! ### Every run -/

section Runs

variable {cfg : PublisherConfig} {s s' : State}

/-- The publisher among the others is a verified system. -/
def verified (cfg : PublisherConfig) (hcap : cfg.marker.length ≤ cfg.cap) (e : ExecutionId) :
    Sys.Verified (spec cfg)
      (Sys.Cond.always : Sys.Cond Unit LogOp (fun _ => LogAnswer) Tailed Move Nat) where
  Inv := Inv cfg e
  Idle _ _ := True
  rely _ := Rely e
  guar _ _ w' := Inv cfg e w'
  rely_refl _ := Rely.refl
  rely_trans _ := Rely.trans
  env_step w m w' hinv _ hm := by
    obtain ⟨hinv', hrely⟩ := hinv.move hm
    exact ⟨hinv', fun _ => hrely⟩
  launch_safe w i fuel p _ _ _ hp := by
    obtain rfl := Option.some.inj hp
    exact publishOnce_keeps hcap ((Nat.zero_lt_of_lt cfg.one_lt_marker_length).trans_le hcap) fuel
  guar_step _ _ _ _ hguar := ⟨hguar, fun j hj => absurd (Subsingleton.elim j _) hj⟩
  idle_stable _ _ _ _ _ := trivial
  crash_step w hinv _ :=
    ⟨⟨hinv.file, fun hmem => absurd hmem List.not_mem_nil, hinv.entries, hinv.cursor, hinv.past⟩,
      fun _ => trivial⟩

theorem Initial.good (hcap : cfg.marker.length ≤ cfg.cap) (hs : Initial s) (e : ExecutionId) :
    (verified cfg hcap e).Good s := by
  have hnone : s.world.published e = [] := by
    rw [Tailed.published, hs.stream]
    rfl
  refine ⟨⟨?_, ?_, ?_, ?_, ?_⟩, ?_⟩
  · rw [hs.output]
  · rw [hs.found]
    exact fun hmem => absurd hmem List.not_mem_nil
  · rw [hnone]
    exact EachAfter.nil
  · refine .inl ?_
    rw [persisted, hs.cursors]
    rfl
  · rw [hnone]
    rintro - ⟨ev, hev, -⟩
    exact absurd hev List.not_mem_nil
  · rintro ⟨⟩
    show (verified cfg hcap e).ProcOk () _ (s.procs ())
    rw [hs.idle]
    trivial

/-- **What is published of an execution is its process's output**, without a gap and within
the cap, whoever cuts the file, and behind the marker there is no more of it. -/
theorem content_published (hcap : cfg.marker.length ≤ cfg.cap) (hs : Initial s)
    (hrun : Run (Sys.step (spec cfg)) s s') (e : ExecutionId) :
    EachAfter (Proper cfg (s'.world.output e) (s'.world.lost e))
      (published e s'.world.agent.stream) := by
  have hgood := (verified cfg hcap e).run
    (hrun.mono fun s a _ => Sys.Cond.always_holds s a) (hs.good hcap e)
  exact hgood.1.entries

end Runs

/-! ### One execution -/

/-- A cap that leaves two bytes for content. -/
def tightConfig : PublisherConfig := { agentId := 1, maxBytes := 100, cap := 56, rate := 0 }

/-- A cap that leaves room. -/
def roomyConfig : PublisherConfig := { agentId := 1, maxBytes := 100, cap := 100, rate := 0 }

def oneAttempt : AttemptState := { taskId := 3, executionId := 7, logPath := "job.log" }

/-- One attempt that has written two bytes. -/
def oneExecution (cfg : PublisherConfig) : State where
  world :=
    { agent :=
        { store := Table.empty.insert 7 oneAttempt
          jobLogs := fun _ => [97, 98]
          cursors := fun _ => none
          stream := []
          memory := .fresh cfg 0 }
      output := fun _ => [97, 98]
      found := []
      capSeen := fun _ => false
      lost := fun _ => false }
  procs := fun _ => none

theorem oneExecution_initial (cfg : PublisherConfig) : Initial (oneExecution cfg) :=
  ⟨rfl, rfl, rfl, rfl, rfl⟩

abbrev Step := Sys.Action Unit LogOp (fun _ => LogAnswer) Move Nat

/-- A tick of `count` operations, of which those that `fails` names end in `fault`. -/
def tick (fails : LogOp → Bool) (fault : Prog.Fault) (count : Nat) : List Step :=
  .start () 4 :: List.replicate count (.op () fun op => { fault := if fails op then fault else .none })

/-- The file is found too long and cut, and the process writes before the line is there. -/
def truncated (bytes : Bytes) : List Step :=
  [.env (.write 7 bytes), .env (.find 7), .env (.cut 7), .env (.write 7 [99]), .env (.mark 7 200)]

def content (cfg : PublisherConfig) (cursor : Nat) (raw : Bytes) : AgentLogEvent :=
  sliceEvent cfg oneAttempt 7 cursor raw

instance anyStep (s : State) (a : Step) : Decidable ((fun _ _ => True : State → Step → Prop) s a) :=
  .isTrue trivial

/-- A file that is cut back while it is tailed. -/
theorem content_published_oneExecution :
    ∃ s : State, EachAfter (Proper tightConfig (s.world.output 7) (s.world.lost 7))
        (published 7 s.world.agent.stream) ∧
      published 7 s.world.agent.stream =
        [content tightConfig 0 [97, 98], content tightConfig 2 tightConfig.marker] := by
  obtain ⟨s, hrun, hs⟩ := RunOk.exists_of_checkedRun (Sys.step (spec tightConfig))
    (fun _ _ => True) (oneExecution tightConfig)
    (truncated (List.replicate 60 97) ++ tick (fun _ => false) .none 17)
    (fun s => decide (published 7 s.world.agent.stream =
      [content tightConfig 0 [97, 98], content tightConfig 2 tightConfig.marker]))
    (by decide +kernel)
  exact ⟨s, content_published (by decide +kernel) (oneExecution_initial _) hrun 7,
    of_decide_eq_true hs⟩

def marksCap : LogOp → Bool
  | .markLogCapped _ => true
  | _ => false

def readsCursor : LogOp → Bool
  | .readCursor _ => true
  | _ => false

def sends : LogOp → Bool
  | .xadd _ => true
  | _ => false

/-- The cap is not recorded behind the marker and the cursor cannot be read: the content is
sent again behind the marker.  The reply to a slice is lost and the log grows: what is sent
again is more than the slice. -/
theorem content_sent_again :
    (¬ ∀ (cfg : PublisherConfig) (s s' : State) (e : ExecutionId),
      cfg.marker.length ≤ cfg.cap → Initial s → Run (Sys.step (spec cfg)) s s' →
      EachAfter (fun before ev => Content cfg ev → ∀ ev' ∈ before, Content cfg ev')
        (published e s'.world.agent.stream)) ∧
    ¬ ∀ (cfg : PublisherConfig) (s s' : State) (e : ExecutionId),
      cfg.marker.length ≤ cfg.cap → Initial s → Run (Sys.step (spec cfg)) s s' →
      EachAfter (fun before ev => Content cfg ev →
        (∀ ev' ∈ before, Content cfg ev' → ev'.offset + ev'.sizeBytes ≤ ev.offset) ∨
          ∃ ev' ∈ before, ev'.offset = ev.offset ∧ ev'.sizeBytes = ev.sizeBytes)
        (published e s'.world.agent.stream) := by
  refine ⟨fun hclaim => ?_, fun hclaim => ?_⟩
  · obtain ⟨s, hrun, hs⟩ := RunOk.exists_of_checkedRun (Sys.step (spec tightConfig))
      (fun _ _ => True) (oneExecution tightConfig)
      (tick marksCap .before 15 ++ tick readsCursor .before 9)
      (fun s => decide (published 7 s.world.agent.stream =
        [content tightConfig 0 [97, 98], content tightConfig 2 tightConfig.marker] ++
          content tightConfig 0 [97, 98] :: [])) (by decide +kernel)
    have hsilent := hclaim tightConfig _ s 7 (by decide +kernel) (oneExecution_initial _) hrun _ _ _
      (of_decide_eq_true hs) (by decide +kernel) (content tightConfig 2 tightConfig.marker)
      (by decide +kernel)
    exact absurd hsilent (by decide +kernel)
  · obtain ⟨s, hrun, hs⟩ := RunOk.exists_of_checkedRun (Sys.step (spec roomyConfig))
      (fun _ _ => True) (oneExecution roomyConfig)
      (tick sends .after 10 ++ .env (.write 7 [99]) :: tick (fun _ => false) .none 9)
      (fun s => decide (published 7 s.world.agent.stream =
        [content roomyConfig 0 [97, 98]] ++ content roomyConfig 0 [97, 98, 99] :: []))
      (by decide +kernel)
    have hsame := hclaim roomyConfig _ s 7 (by decide +kernel) (oneExecution_initial _) hrun _ _ _
      (of_decide_eq_true hs) (by decide +kernel)
    rcases hsame with hend | ⟨ev', hev', -, hsize⟩
    · exact absurd (hend (content roomyConfig 0 [97, 98]) (by decide +kernel) (by decide +kernel))
        (by decide +kernel)
    · obtain rfl := List.mem_singleton.mp hev'
      exact absurd hsize (by decide +kernel)

end LogContent

end Dopilot
