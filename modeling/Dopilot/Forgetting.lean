/-
Dopilot/Forgetting.lean

An execution is removed while its log is being published.

The publisher works without the lock of the execution.  It reads the state and
the cursor, and after each entry the stream has taken it goes on with what it
read: it stores the cursor, marks the attempt as capped, or remembers that the
end was sent.  Meanwhile a cleanup of the server or the janitor may remove all of
these.  The cleanup is one uninterrupted piece of the event loop; the janitor's
file work is done in a thread, step by step, and the rest on the loop when the
files are gone.

Nothing is left behind if no slice and no end is taken by the stream after the
removal is over, and the thread does not take the state file away between the
read and the write of `mark_log_capped` (`no_residue`).  Otherwise the cursor or
the mark comes back and stays (`residue_of_late`).
-/
import Dopilot.LogPublisher
import Dopilot.StateMachine

/-! ### Programs that act behind a step -/

namespace Prog

section Behind

variable {Op : Type} {Res : Op → Type} {ε α β : Type}
variable {arms : (op : Op) → Except ε (Res op) → Bool} {late : Op → Prop}

/-- A late operation stands right behind an outcome that arms the program. -/
def Behind (arms : (op : Op) → Except ε (Res op) → Bool) (late : Op → Prop) :
    Bool → Prog Op Res ε α → Prop
  | _, ret _ => True
  | _, raise _ => True
  | armed, act op k => (late op → armed = true) ∧ ∀ r, Behind arms late (arms op r) (k r)

theorem Behind.mono {armed : Bool} {p : Prog Op Res ε α} (h : p.Behind arms late false) :
    p.Behind arms late armed := by
  cases p with
  | ret a => trivial
  | raise e => trivial
  | act op k => exact ⟨fun hop => (by cases h.1 hop), h.2⟩

/-- A program that was armed and does nothing late was not armed. -/
theorem Behind.disarm {armed : Bool} {op : Op} {k : Except ε (Res op) → Prog Op Res ε α}
    (h : (act op k).Behind arms late armed) (hop : ¬ late op) :
    (act op k).Behind arms late false := ⟨fun hlate => absurd hlate hop, h.2⟩

theorem Behind.bind {armed : Bool} {p : Prog Op Res ε α} {f : α → Prog Op Res ε β}
    (h : p.Behind arms late armed) (hf : ∀ a, (f a).Behind arms late false) :
    (p.bind f).Behind arms late armed := by
  induction p generalizing armed with
  | ret a => exact (hf a).mono
  | raise e => trivial
  | act op k ih => exact ⟨h.1, fun r => ih r (h.2 r)⟩

theorem behind_call {armed : Bool} {op : Op} (h : late op → armed = true) :
    (call op : Prog Op Res ε (Res op)).Behind arms late armed := by
  refine ⟨h, fun r => ?_⟩
  cases r with
  | ok a => trivial
  | error e => trivial

/-- An operation whose outcome the program looks at. -/
theorem behind_ask {armed : Bool} {op : Op} {f : Except ε (Res op) → Prog Op Res ε β}
    (h : ¬ late op) (hf : ∀ r, (f r).Behind arms late (arms op r)) :
    ((ask op).bind f).Behind arms late armed := ⟨fun hlate => absurd hlate h, hf⟩

end Behind

end Prog

namespace Dopilot

namespace Forgetting

open StateMachine

/-! ### Removals -/

/-- What a removal takes away. -/
inductive Removal where
  | removeLog
  | deleteState
  | unlinkCursor
  | discardEof
  deriving DecidableEq, Repr

/-- One step of a removal. -/
def Removal.apply (e : ExecutionId) : Removal → LogAgent → LogAgent
  | .removeLog, w => { w with jobLogs := Function.update w.jobLogs e [] }
  | .deleteState, w => { w with store := w.store.delete e }
  | .unlinkCursor, w => { w with cursors := Function.update w.cursors e none }
  | .discardEof, w =>
      { w with memory := { w.memory with eofSent := w.memory.eofSent.filter (· ≠ e) } }

/-- A piece of a removal: a step in a thread, or steps on the event loop with
nothing in between. -/
inductive Piece where
  | thread (r : Removal)
  | loop (rs : List Removal)
  deriving DecidableEq, Repr

def Piece.removals : Piece → List Removal
  | .thread r => [r]
  | .loop rs => rs

/-- What a piece does. -/
def Piece.apply (e : ExecutionId) (p : Piece) (w : LogAgent) : LogAgent :=
  p.removals.foldl (fun w r => r.apply e w) w

/-- `LogPublisher.forget`. -/
def forget : List Removal := [.discardEof, .unlinkCursor]

/-- `CommandConsumer._do_cleanup`. -/
def doCleanup : List Piece := [.loop (.removeLog :: .deleteState :: forget)]

/-- `AgentJanitor._commit_removal`: the files in a thread, the rest on the loop. -/
def commitRemoval : List Piece :=
  [.thread .removeLog, .thread .deleteState, .thread .unlinkCursor, .loop forget]

/-! ### A publisher and a removal -/

/-- A turn of the publisher, and a removal of the same execution. -/
structure Race where
  /-- What the publisher has still to do. -/
  publisher : LogProg Nat
  /-- The publisher has begun. -/
  begun : Bool
  world : LogAgent
  /-- What the removal has still to do. -/
  removal : List Piece

/-- The publisher waits for the stream, or is through. -/
def suspended : LogProg Nat → Bool
  | .ret _ => true
  | .raise _ => true
  | .act (.xadd _) _ => true
  | .act _ _ => false

/-- The event loop is free for others. -/
def Race.yields (s : Race) : Bool := !s.begun || suspended s.publisher

inductive Act where
  /-- The next operation of the publisher. -/
  | publish (x : LogAnswer)
  /-- The next piece of the removal. -/
  | remove
  /-- The thread deletes the state file while the publisher marks it: the state was
  read before, and is written behind. -/
  | torn
  /-- The job goes on with its log. -/
  | log (body : Bytes)

/-- One step. -/
def step (cfg : PublisherConfig) (e : ExecutionId) (s : Race) : Act → Option Race
  | .publish x =>
      match s.publisher with
      | .act op k =>
          (op.perform cfg x s.world).map fun r =>
            { s with publisher := k r.1, begun := true, world := r.2 }
      | _ => none
  | .remove =>
      match s.removal with
      | [] => none
      | .thread r :: ps => some { s with world := r.apply e s.world, removal := ps }
      | .loop rs :: ps =>
          if s.yields then
            some { s with world := (Piece.loop rs).apply e s.world, removal := ps }
          else none
  | .torn =>
      match s.publisher, s.removal with
      | .act (.markLogCapped e') k, .thread .deleteState :: ps =>
          match s.world.store.read e' with
          | some state =>
              if e' = e ∧ state.logCapped = false then
                some { s with
                  publisher := k (.ok (some (Mark.logCapped.apply state)))
                  world := { s.world with store := s.world.store.mark e .logCapped }
                  removal := ps }
              else none
          | none => none
      | _, _ => none
  | .log body =>
      some { s with world := { s.world with jobLogs := Function.update s.world.jobLogs e body } }

/-- A turn of the publisher that has not begun, and a removal. -/
def start (cfg : PublisherConfig) (fuel : Nat) (e : ExecutionId) (w : LogAgent)
    (removal : List Piece) : Race where
  publisher := publishAttempt cfg fuel e
  begun := false
  world := w
  removal := removal

/-- The turn has returned or raised. -/
def finished : LogProg Nat → Bool
  | .act _ _ => false
  | _ => true

/-- Both are through. -/
def Race.over (s : Race) : Prop := finished s.publisher = true ∧ s.removal = []

/-- Neither the state file, nor the cursor, nor the mark of the end is there. -/
structure NoResidue (w : LogAgent) (e : ExecutionId) : Prop where
  state : w.store.read e = none
  cursor : w.cursors e = none
  eof : e ∉ w.memory.eofSent

/-! ### Where the publisher writes -/

/-- The stream has taken an entry. -/
def arms : (op : LogOp) → Except LogIoError op.Res → Bool
  | .xadd _, .ok _ => true
  | _, _ => false

/-- The operation writes what a removal takes away. -/
def Writes (e : ExecutionId) : LogOp → Prop
  | .writeCursor e' _ => e' = e
  | .addEofSent e' => e' = e
  | _ => False

/-- The publisher writes right behind an entry that the stream has taken. -/
abbrev Writing (e : ExecutionId) {α : Type} (armed : Bool) (p : LogProg α) : Prop :=
  p.Behind arms (Writes e) armed

variable {cfg : PublisherConfig} {e e' : ExecutionId}

theorem writing_marker (state : AttemptState) (cursor : Nat) :
    Writing e false (publishMarker cfg state e' cursor) := by
  refine Prog.behind_ask id fun r => ?_
  cases r with
  | ok u => trivial
  | error err => trivial

/-- The tail loop writes the cursor behind its slices. -/
theorem writing_tailLoop (fuel : Nat) (state : AttemptState) (cursor total : Nat) :
    Writing e false (tailLoop cfg e' fuel state cursor total) := by
  induction fuel generalizing cursor total with
  | zero => exact Prog.Behind.bind (Prog.behind_call fun h => h.elim) fun _ => trivial
  | succ fuel ih =>
      refine Prog.Behind.bind (Prog.behind_call fun h => h.elim) fun allowance => ?_
      show Writing e false (if allowance = 0 then _ else _)
      split
      · trivial
      · split
        · split
          · trivial
          · refine Prog.Behind.bind (writing_marker state cursor) fun taken => ?_
            cases taken with
            | false => trivial
            | true =>
                refine Prog.Behind.bind (Prog.behind_call fun h => h.elim) fun capped => ?_
                exact Prog.Behind.bind (Prog.behind_call fun h => h.elim) fun _ => trivial
        · refine Prog.Behind.bind (Prog.behind_call fun h => h.elim) fun raw => ?_
          show Writing e false (if raw = [] then _ else _)
          split
          · trivial
          · refine Prog.behind_ask id fun r => ?_
            cases r with
            | error err => trivial
            | ok u =>
                refine Prog.Behind.bind (Prog.behind_call fun _ => rfl) fun _ => ?_
                refine Prog.Behind.bind (Prog.behind_call fun h => h.elim) fun _ => ?_
                show Writing e false (if raw.length < _ then _ else _)
                split
                · trivial
                · exact ih _ _

theorem writing_publishEof (state : AttemptState) (cursor : Nat) :
    Writing e false (publishEof cfg state e' cursor) := by
  refine Prog.Behind.bind (Prog.behind_call fun h => h.elim) fun sent => ?_
  show Writing e false (if state.phase = .done ∧ sent = false then _ else _)
  split
  · refine Prog.behind_ask id fun r => ?_
    cases r with
    | ok u => exact Prog.behind_call fun _ => rfl
    | error err => trivial
  · trivial

/-- What follows the tail loop. -/
theorem writing_exit (exit : TailExit) :
    Writing e false (match exit with
      | .aborted total => return total
      | .stopped state cursor total => do
          publishEof cfg state e' cursor
          return total : LogProg Nat) := by
  cases exit with
  | aborted total => trivial
  | stopped state cursor total =>
      exact Prog.Behind.bind (writing_publishEof state cursor) fun _ => trivial

/-- **A turn of the publisher writes only right behind an entry that was taken.** -/
theorem writing_publishAttempt (fuel : Nat) : Writing e false (publishAttempt cfg fuel e') := by
  refine Prog.Behind.bind (Prog.behind_call fun h => h.elim) fun read => ?_
  cases read with
  | none => trivial
  | some state =>
      show Writing e false (if state.logPath = "" then _ else _)
      split
      · trivial
      · refine Prog.Behind.bind (Prog.behind_call fun h => h.elim) fun cursor => ?_
        show Writing e false (if state.logCapped = true then _ else _)
        split
        · exact writing_exit (.stopped state cursor 0)
        · exact Prog.Behind.bind (writing_tailLoop fuel state cursor 0) writing_exit

/-! ### What the steps take away and bring back -/

theorem read_apply {r : Removal} {w : LogAgent} (h : w.store.read e = none) :
    (r.apply e w).store.read e = none := by
  cases r with
  | deleteState => exact StateStore.read_delete_self w.store e
  | removeLog | unlinkCursor | discardEof => exact h

theorem cursor_apply {r : Removal} {w : LogAgent} (h : w.cursors e = none) :
    (r.apply e w).cursors e = none := by
  cases r with
  | unlinkCursor => exact Function.update_self e none w.cursors
  | removeLog | deleteState | discardEof => exact h

theorem eof_apply {r : Removal} {w : LogAgent} (h : e ∉ w.memory.eofSent) :
    e ∉ (r.apply e w).memory.eofSent := by
  cases r with
  | discardEof =>
      intro hmem
      exact h (List.mem_of_mem_filter hmem)
  | removeLog | deleteState | unlinkCursor => exact h

/-- What one of several removals takes away and none brings back is gone. -/
theorem foldl_of_mem {P : LogAgent → Prop} (hkeep : ∀ r w, P w → P (Removal.apply e r w))
    {r : Removal} (hset : ∀ w, P (Removal.apply e r w)) {rs : List Removal} (hr : r ∈ rs)
    (w : LogAgent) : P (rs.foldl (fun w r => r.apply e w) w) := by
  have hrest : ∀ (rs : List Removal) w, P w → P (rs.foldl (fun w r => r.apply e w) w) := by
    intro rs
    induction rs with
    | nil => exact fun _ h => h
    | cons r rs ih => exact fun w h => ih _ (hkeep r w h)
  induction rs generalizing w with
  | nil => cases hr
  | cons r' rs ih =>
      rcases List.mem_cons.mp hr with rfl | hr
      · exact hrest rs _ (hset w)
      · exact ih hr _

theorem foldl_keep {P : LogAgent → Prop} (hkeep : ∀ r w, P w → P (Removal.apply e r w))
    (rs : List Removal) {w : LogAgent} (h : P w) : P (rs.foldl (fun w r => r.apply e w) w) := by
  induction rs generalizing w with
  | nil => exact h
  | cons r rs ih => exact ih (hkeep r w h)

/-- A removal that takes away the state file has taken it away. -/
theorem read_piece {p : Piece} (hp : .deleteState ∈ p.removals) (w : LogAgent) :
    (p.apply e w).store.read e = none :=
  foldl_of_mem (P := fun w => w.store.read e = none) (fun _ _ h => read_apply h)
    (r := .deleteState) (fun w => StateStore.read_delete_self w.store e) hp w

theorem cursor_piece {p : Piece} (hp : .unlinkCursor ∈ p.removals) (w : LogAgent) :
    (p.apply e w).cursors e = none :=
  foldl_of_mem (P := fun w => w.cursors e = none) (fun _ _ h => cursor_apply h)
    (r := .unlinkCursor)
    (fun w => by
      show Function.update w.cursors e none e = none
      exact Function.update_self ..) hp w

theorem eof_piece {p : Piece} (hp : .discardEof ∈ p.removals) (w : LogAgent) :
    e ∉ (p.apply e w).memory.eofSent := by
  refine foldl_of_mem (P := fun w => e ∉ w.memory.eofSent) (fun _ _ h => eof_apply h)
    (fun w hmem => ?_) hp w
  have hne := (List.mem_filter.mp hmem).2
  simp at hne

/-- No operation of the publisher brings a state file back. -/
theorem read_perform {op : LogOp} {x : LogAnswer} {w w' : LogAgent}
    {r : Except LogIoError op.Res} (h : op.perform cfg x w = some (r, w'))
    (hnone : w.store.read e = none) : w'.store.read e = none := by
  have hfault : ∀ {α : Type} {err : LogIoError} {v : α} {y : Except LogIoError α} {u : LogAgent},
      u.store.read e = none → Prog.withFault x.fault err w v u = some (y, w') →
      w'.store.read e = none := fun hu hy =>
    Prog.withFault_rel (R := fun _ b => b.store.read e = none) hnone hu hy
  cases op with
  | markLogCapped e' =>
      refine hfault ?_ h
      by_cases he : e = e'
      · subst he
        show (w.store.mark e .logCapped).read e = none
        rw [StateStore.read_mark_self, hnone]
        rfl
      · exact (StateStore.read_mark_ne w.store _ he).trans hnone
  | writeCursor e' offset | xadd ev =>
      refine hfault ?_ h
      exact hnone
  | listExecutionIds | readState e' | readCursor e' | readRaw e' offset n | refill | allowance
  | spend n | rotateFrom | setRotateFrom n | eofSent e' | addEofSent e' =>
      cases h
      exact hnone
  | unfollowed => cases h

/-- What the publisher does not write is as it was. -/
theorem kept_perform {op : LogOp} {x : LogAnswer} {w w' : LogAgent}
    {r : Except LogIoError op.Res} (h : op.perform cfg x w = some (r, w')) (hop : ¬ Writes e op) :
    w'.cursors e = w.cursors e ∧ (e ∈ w'.memory.eofSent ↔ e ∈ w.memory.eofSent) := by
  have hfault : ∀ {α : Type} {err : LogIoError} {v : α} {y : Except LogIoError α} {u : LogAgent},
      (u.cursors e = w.cursors e ∧ (e ∈ u.memory.eofSent ↔ e ∈ w.memory.eofSent)) →
      Prog.withFault x.fault err w v u = some (y, w') →
      w'.cursors e = w.cursors e ∧ (e ∈ w'.memory.eofSent ↔ e ∈ w.memory.eofSent) :=
    fun hu hy => Prog.withFault_rel
      (R := fun a b => b.cursors e = a.cursors e ∧ (e ∈ b.memory.eofSent ↔ e ∈ a.memory.eofSent))
      ⟨rfl, Iff.rfl⟩ hu hy
  cases op with
  | writeCursor e' offset =>
      have hne : e ≠ e' := fun he => hop he.symm
      refine hfault ?_ h
      exact ⟨Function.update_of_ne hne _ _, Iff.rfl⟩
  | addEofSent e' =>
      have hne : e ≠ e' := fun he => hop he.symm
      cases h
      refine ⟨rfl, ?_⟩
      show e ∈ e' :: w.memory.eofSent ↔ _
      rw [List.mem_cons]
      exact or_iff_right hne
  | markLogCapped e' | xadd ev =>
      refine hfault ?_ h
      exact ⟨rfl, Iff.rfl⟩
  | refill =>
      cases h
      refine ⟨rfl, ?_⟩
      show e ∈ (w.memory.refill cfg x.now).eofSent ↔ _
      unfold PublisherMemory.refill
      split <;> rfl
  | spend n =>
      cases h
      refine ⟨rfl, ?_⟩
      show e ∈ (w.memory.spend cfg n).eofSent ↔ _
      unfold PublisherMemory.spend
      split <;> rfl
  | listExecutionIds | readState e' | readCursor e' | readRaw e' offset n | allowance
  | rotateFrom | setRotateFrom n | eofSent e' =>
      cases h
      exact ⟨rfl, Iff.rfl⟩
  | unfollowed => cases h

/-! ### Steps in time -/

/-- The publisher writes next. -/
def WritesNext (e : ExecutionId) : LogProg Nat → Prop
  | .act op _ => Writes e op
  | _ => False

/-- The stream takes a slice or the end when the removal is over. -/
def Late (e : ExecutionId) (s : Race) (x : LogAnswer) : Prop :=
  s.removal = [] ∧ x.fault = .none ∧
    ∃ ev k, s.publisher = .act (.xadd ev) k ∧ WritesNext e (k (.ok ()))

/-- A step that is not too late, and does not tear a mark. -/
def InTime (e : ExecutionId) (s : Race) : Act → Prop
  | .publish x => ¬ Late e s x
  | .torn => False
  | .remove | .log _ => True

/-- The last piece of a removal forgets the execution on the event loop. -/
def Forgets (ps : List Piece) : Prop :=
  ∃ rs, ps.getLast? = some (.loop rs) ∧ .discardEof ∈ rs ∧ .unlinkCursor ∈ rs

/-- What holds of a turn and a removal, as long as the steps are in time. -/
structure Inv (e : ExecutionId) (s : Race) : Prop where
  /-- What was taken from the publisher before the removal was over is written before. -/
  armed : ∃ armed, Writing e armed s.publisher ∧ (armed = true → s.removal ≠ [] ∧ s.begun = true)
  state : (∀ p ∈ s.removal, .deleteState ∉ p.removals) → s.world.store.read e = none
  gone : s.removal = [] → s.world.cursors e = none ∧ e ∉ s.world.memory.eofSent
  forgets : s.removal ≠ [] → Forgets s.removal

theorem Forgets.tail {p : Piece} {ps : List Piece} (h : Forgets (p :: ps)) (hps : ps ≠ []) :
    Forgets ps := by
  obtain ⟨rs, hlast, hrs⟩ := h
  refine ⟨rs, ?_, hrs⟩
  rwa [List.getLast?_cons_of_ne_nil hps] at hlast

/-- Where the event loop is free, the publisher writes nothing next. -/
theorem not_writes_of_suspended {op : LogOp} {k : Except LogIoError op.Res → LogProg Nat}
    (h : suspended (.act op k) = true) : ¬ Writes e op := by
  cases op with
  | xadd ev => exact id
  | _ => cases h

namespace Inv

variable {s s' : Race}

/-- Where the event loop is free, the publisher need not have been let in. -/
theorem disarmed (h : Inv e s) (hyields : s.yields = true) : Writing e false s.publisher := by
  obtain ⟨armed, hwriting, harmed⟩ := h.armed
  cases armed with
  | false => exact hwriting
  | true =>
      have hbegun := (harmed rfl).2
      have hsuspended : suspended s.publisher = true := by
        rwa [Race.yields, hbegun, Bool.not_true, Bool.false_or] at hyields
      cases hp : s.publisher with
      | ret a => trivial
      | raise err => trivial
      | act op k =>
          rw [hp] at hsuspended hwriting
          exact hwriting.disarm (not_writes_of_suspended hsuspended)

/-- **An operation of the publisher, in time.** -/
theorem publish (h : Inv e s) {x : LogAnswer} (hlate : ¬ Late e s x)
    (hstep : step cfg e s (.publish x) = some s') : Inv e s' := by
  obtain ⟨armed, hwriting, harmed⟩ := h.armed
  cases hp : s.publisher with
  | ret a =>
      simp only [step, hp] at hstep
      cases hstep
  | raise err =>
      simp only [step, hp] at hstep
      cases hstep
  | act op k =>
      simp only [step, hp] at hstep
      obtain ⟨⟨r, w'⟩, hperform, rfl⟩ := Option.map_eq_some_iff.mp hstep
      rw [hp] at hwriting
      refine ⟨?_, fun hs => read_perform hperform (h.state hs), fun hs => ?_, h.forgets⟩
      · -- an entry taken when the removal is over is followed by nothing to write
        by_cases hs : s.removal = []
        · refine ⟨false, ?_, fun hno => (by cases hno)⟩
          have hnext := hwriting.2 r
          cases hr : arms op r with
          | false => rwa [hr] at hnext
          | true =>
              rw [hr] at hnext
              cases op with
              | xadd ev =>
                  cases r with
                  | error err => cases hr
                  | ok u =>
                      have hfault : x.fault = .none := by
                        rcases Prog.withFault_cases hperform with ⟨hf, -, -⟩ | ⟨-, hr, -⟩ | ⟨-, hr, -⟩
                        · exact hf
                        · cases hr
                        · cases hr
                      cases hk : k (.ok u) with
                      | ret a => trivial
                      | raise err => trivial
                      | act op' k' =>
                          rw [hk] at hnext
                          refine hnext.disarm fun hw => hlate ⟨hs, hfault, ev, k, hp, ?_⟩
                          show WritesNext e (k (.ok u))
                          rw [hk]
                          exact hw
              | _ => cases hr
        · exact ⟨arms op r, hwriting.2 r, fun _ => ⟨hs, rfl⟩⟩
      · have hop : ¬ Writes e op := fun hw => (harmed (hwriting.1 hw)).1 hs
        obtain ⟨hcursor, heof⟩ := kept_perform hperform hop
        obtain ⟨hcursor₀, heof₀⟩ := h.gone hs
        exact ⟨hcursor.trans hcursor₀, fun hmem => heof₀ (heof.mp hmem)⟩

/-- **A piece of the removal.** -/
theorem remove (h : Inv e s) (hstep : step cfg e s .remove = some s') : Inv e s' := by
  have hpiece : ∃ p ps, s.removal = p :: ps ∧
      s' = { s with world := p.apply e s.world, removal := ps } ∧
      ((∃ rs, p = .loop rs) → s.yields = true) := by
    cases hr : s.removal with
    | nil =>
        simp only [step, hr] at hstep
        cases hstep
    | cons p ps =>
        cases p with
        | thread r =>
            simp only [step, hr, Option.some.injEq] at hstep
            refine ⟨_, ps, rfl, hstep.symm, ?_⟩
            rintro ⟨rs, hrs⟩
            cases hrs
        | loop rs =>
            simp only [step, hr] at hstep
            split at hstep
            · rename_i hyields
              exact ⟨_, ps, rfl, (Option.some.inj hstep).symm, fun _ => hyields⟩
            · cases hstep
  obtain ⟨p, ps, hr, rfl, hyields⟩ := hpiece
  have hforgets : Forgets (p :: ps) := hr ▸ h.forgets (by rw [hr]; exact List.cons_ne_nil p ps)
  have hlast : ps = [] → (∃ rs, p = .loop rs) ∧ .discardEof ∈ p.removals ∧
      .unlinkCursor ∈ p.removals := by
    rintro rfl
    obtain ⟨rs, hp, heof, hcursor⟩ := hforgets
    obtain rfl : p = .loop rs := Option.some.inj hp
    exact ⟨⟨rs, rfl⟩, heof, hcursor⟩
  refine ⟨?_, fun hs => ?_, fun hs => ?_, fun hs => hforgets.tail hs⟩
  · by_cases hps : ps = []
    · exact ⟨false, h.disarmed (hyields (hlast hps).1), fun hno => (by cases hno)⟩
    · obtain ⟨armed, hwriting, harmed⟩ := h.armed
      exact ⟨armed, hwriting, fun ha => ⟨hps, (harmed ha).2⟩⟩
  · by_cases hp : .deleteState ∈ p.removals
    · exact read_piece hp s.world
    · have hnone := h.state fun q hq => by
        rw [hr] at hq
        rcases List.mem_cons.mp hq with rfl | hq
        · exact hp
        · exact hs q hq
      exact foldl_keep (P := fun w => w.store.read e = none) (fun _ _ h => read_apply h) _ hnone
  · obtain ⟨-, heof, hcursor⟩ := hlast hs
    exact ⟨cursor_piece hcursor s.world, eof_piece heof s.world⟩

/-- **Every step in time.** -/
theorem step {a : Act} (h : Inv e s) (ha : InTime e s a)
    (hstep : Forgetting.step cfg e s a = some s') : Inv e s' := by
  cases a with
  | publish x => exact h.publish ha hstep
  | remove => exact h.remove hstep
  | torn => exact ha.elim
  | log body =>
      obtain rfl := Option.some.inj hstep
      exact ⟨h.armed, h.state, h.gone, h.forgets⟩

theorem start (fuel : Nat) (w : LogAgent) {removal : List Piece} (hforgets : Forgets removal)
    (hdeletes : ∃ p ∈ removal, .deleteState ∈ p.removals) :
    Inv e (Forgetting.start cfg fuel e w removal) where
  armed := ⟨false, writing_publishAttempt fuel, fun hno => (by cases hno)⟩
  state hs := by
    obtain ⟨p, hp, hdelete⟩ := hdeletes
    exact absurd hdelete (hs p hp)
  gone hs := by
    obtain ⟨p, hp, -⟩ := hdeletes
    have hnil : removal = [] := hs
    rw [hnil] at hp
    cases hp
  forgets _ := hforgets

end Inv

/-- **Forgetting leaves no residue** where every step of a turn and a removal is in
time: once both are through, neither the state file, nor the cursor, nor the mark
of the end is there. -/
theorem no_residue (cfg : PublisherConfig) (fuel : Nat) (e : ExecutionId) (w : LogAgent)
    {removal : List Piece} (hremoval : removal = doCleanup ∨ removal = commitRemoval) {s : Race}
    (hrun : RunOk (step cfg e) (InTime e) (start cfg fuel e w removal) s) (hover : s.over) :
    NoResidue s.world e := by
  have hforgets : Forgets removal := by
    rcases hremoval with rfl | rfl
    · exact ⟨_, rfl, by decide, by decide⟩
    · exact ⟨_, rfl, by decide, by decide⟩
  have hdeletes : ∃ p ∈ removal, .deleteState ∈ p.removals := by
    rcases hremoval with rfl | rfl <;> decide
  have hinv : Inv e s :=
    hrun.invariant (fun _ _ _ h ha hstep => h.step ha hstep) (.start fuel w hforgets hdeletes)
  obtain ⟨hcursor, heof⟩ := hinv.gone hover.2
  refine ⟨hinv.state fun p hp => ?_, hcursor, heof⟩
  rw [hover.2] at hp
  cases hp

/-! ### Steps that are too late -/

/-- The cursor file can be written. -/
def Writable (s : Race) : Act → Prop
  | .publish x => ∀ e offset k, s.publisher = .act (.writeCursor e offset) k → x.fault ≠ .before
  | _ => True

/-- The removal is over, and the publisher has written or writes next. -/
structure Residue (e : ExecutionId) (s : Race) : Prop where
  removed : s.removal = []
  left : WritesNext e s.publisher ∨ s.world.cursors e ≠ none ∨ e ∈ s.world.memory.eofSent

/-- What the publisher writes is there, and stays when it goes on. -/
theorem left_perform {op : LogOp} {x : LogAnswer} {w w' : LogAgent} {r : Except LogIoError op.Res}
    (h : op.perform cfg x w = some (r, w'))
    (hdisk : ∀ e offset, op = .writeCursor e offset → x.fault ≠ .before)
    (hleft : Writes e op ∨ w.cursors e ≠ none ∨ e ∈ w.memory.eofSent) :
    w'.cursors e ≠ none ∨ e ∈ w'.memory.eofSent := by
  by_cases hop : Writes e op
  · cases op with
    | writeCursor e' offset =>
        obtain rfl : e' = e := hop
        left
        rcases Prog.withFault_cases h with ⟨-, -, rfl⟩ | ⟨hf, -, -⟩ | ⟨-, -, rfl⟩
        · simp
        · exact absurd hf (hdisk e' offset rfl)
        · simp
    | addEofSent e' =>
        obtain rfl : e' = e := hop
        cases h
        exact .inr List.mem_cons_self
    | _ => cases hop
  · obtain ⟨hcursor, heof⟩ := kept_perform h hop
    rw [hcursor, heof]
    exact hleft.resolve_left hop

/-- Nothing takes away what was written too late. -/
theorem Residue.step {s s' : Race} {a : Act} (h : Residue e s) (ha : Writable s a)
    (hstep : step cfg e s a = some s') : Residue e s' := by
  cases a with
  | publish x =>
      cases hp : s.publisher with
      | ret a =>
          simp only [Forgetting.step, hp] at hstep
          cases hstep
      | raise err =>
          simp only [Forgetting.step, hp] at hstep
          cases hstep
      | act op k =>
          simp only [Forgetting.step, hp] at hstep
          obtain ⟨⟨r, w'⟩, hperform, rfl⟩ := Option.map_eq_some_iff.mp hstep
          have hleft := h.left
          rw [hp] at hleft
          refine ⟨h.removed, .inr (left_perform hperform (fun e offset he => ?_) hleft)⟩
          subst he
          exact ha e offset k hp
  | remove =>
      simp only [Forgetting.step, h.removed] at hstep
      cases hstep
  | torn =>
      simp only [Forgetting.step, h.removed] at hstep
      split at hstep
      · rename_i hcons
        cases hcons
      · cases hstep
  | log body =>
      obtain rfl := Option.some.inj hstep
      exact ⟨h.removed, h.left⟩

/-- **A step that is too late leaves a residue**: what the publisher writes behind
it is still there when both are through. -/
theorem residue_of_late {s s₁ s' : Race} {x : LogAnswer} (hlate : Late e s x)
    (hstep : step cfg e s (.publish x) = some s₁)
    (hrun : RunOk (step cfg e) Writable s₁ s') (hover : s'.over) : ¬ NoResidue s'.world e := by
  obtain ⟨hremoved, hfault, ev, k, hp, hnext⟩ := hlate
  have hfirst : Residue e s₁ := by
    simp only [step, hp] at hstep
    obtain ⟨⟨r, w'⟩, hperform, rfl⟩ := Option.map_eq_some_iff.mp hstep
    have hr : r = .ok () := by
      rcases Prog.withFault_cases hperform with ⟨-, hr, -⟩ | ⟨hf, -, -⟩ | ⟨hf, -, -⟩
      · exact hr
      · rw [hfault] at hf
        cases hf
      · rw [hfault] at hf
        cases hf
    subst hr
    exact ⟨hremoved, .inl hnext⟩
  have hlast : Residue e s' := hrun.invariant (fun _ _ _ h ha hs => h.step ha hs) hfirst
  intro hnone
  rcases hlast.left with hwrites | hcursor | heof
  · have hdone := hover.1
    cases hq : s'.publisher with
    | ret a =>
        rw [hq] at hwrites
        exact hwrites
    | raise err =>
        rw [hq] at hwrites
        exact hwrites
    | act op k =>
        rw [hq] at hdone
        cases hdone
  · exact hcursor hnone.cursor
  · exact hnone.eof heof

/-! ### Two runs -/

/-- No cap and no rate. -/
def plainConfig : PublisherConfig where
  agentId := 0
  maxBytes := 8
  cap := 0
  rate := 0

/-- A running attempt with one byte in its log. -/
def running : LogAgent where
  store := Table.empty.insert 7 { taskId := 3, executionId := 7, logPath := "job.log" }
  jobLogs := fun _ => [10]
  cursors := fun _ => none
  stream := []
  memory := { tokens := 0, lastRefill := 0, rotateFrom := 0, eofSent := [] }

/-- The publisher goes on, without a fault. -/
def goOn : Act := .publish {}

/-- The cleanup comes before the publisher asks the stream, which then refuses. -/
def refused : List Act :=
  [goOn, goOn, goOn, goOn, .remove, .publish { fault := .before }]

theorem no_residue_refused : ∃ s,
    runList (step plainConfig 7) (start plainConfig 2 7 running doCleanup) refused = some s ∧
      NoResidue s.world 7 := by
  refine ⟨_, rfl, no_residue plainConfig 2 7 running (.inl rfl) ?_ ⟨rfl, rfl⟩⟩
  refine .head (a := goOn) (fun h => by cases h.1) rfl ?_
  refine .head (a := goOn) (fun h => by cases h.1) rfl ?_
  refine .head (a := goOn) (fun h => by cases h.1) rfl ?_
  refine .head (a := goOn) (fun h => by cases h.1) rfl ?_
  refine .head (a := .remove) trivial rfl ?_
  exact .head (a := .publish { fault := .before }) (fun h => by cases h.2.1) rfl (.refl _)

/-- The cleanup comes while the publisher waits for the stream, which takes the slice. -/
def taken : List Act :=
  [goOn, goOn, goOn, goOn, .remove, goOn, goOn, goOn, goOn]

theorem residue_left :
    ¬ ∀ (cfg : PublisherConfig) (fuel : Nat) (e : ExecutionId) (w : LogAgent)
        (removal : List Piece), removal = doCleanup ∨ removal = commitRemoval → ∀ s,
        Run (step cfg e) (start cfg fuel e w removal) s → s.over → NoResidue s.world e := by
  intro h
  have hrun : ∃ s,
      runList (step plainConfig 7) (start plainConfig 2 7 running doCleanup) taken = some s ∧
        s.over ∧ s.world.cursors 7 = some 1 := ⟨_, rfl, ⟨rfl, rfl⟩, rfl⟩
  obtain ⟨s, hs, hover, hcursor⟩ := hrun
  have hnone := (h plainConfig 2 7 running doCleanup (.inl rfl) s (Run.of_runList hs) hover).cursor
  rw [hcursor] at hnone
  cases hnone

end Forgetting

end Dopilot
