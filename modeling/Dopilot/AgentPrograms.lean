/-
Dopilot/AgentPrograms.lean

The programs of the agent keep to the rules.

`Follows p Q w` says that `p`, run from `w` among the other processes, comes to
no operation that `May` forbids and ends in `Q`.  There is one lemma for each
program, from the publisher up to the tick and the command handlers, and each
says besides what the program leaves behind: `Touches` for the execution it is
about, and for the passes over the attempts what a pass that was not disturbed
has achieved.
-/
import Dopilot.AgentSteps

namespace Dopilot

namespace Agent

open AgentOp (call ask)

/-! ### Following the rules -/

/-- What process `i` is given and gives. -/
abbrev rules (cfg : AgentConfig) (kind : ExecutionId → RunnerType) (K : Cond) (i : Owner) :
    Prog.Contract AgentOp (fun _ => AgentAnswer) AgentWorld :=
  Sys.contract K (Inv cfg kind) (Rely kind i) (guar cfg kind K i) Rely.trans

/-- `p` keeps to the rules of process `i` and ends in `Q`. -/
abbrev Follows (cfg : AgentConfig) (kind : ExecutionId → RunnerType) (K : Cond) (i : Owner)
    {α : Type} (p : AgentProg α) (Q : Except AgentError α → AgentWorld → Prop) (w : AgentWorld) :
    Prop :=
  p.Safe { perform := AgentOp.perform cfg } (rules cfg kind K i) Q w

section Rules

variable {cfg : AgentConfig} {kind : ExecutionId → RunnerType} {K : Cond} {i : Owner}
  {w : AgentWorld} {α β : Type}

theorem follows_call {op : AgentOp} {Q : Except AgentError op.Res → AgentWorld → Prop}
    (h : ∀ w₁, Rely kind i w w₁ → Inv cfg kind w₁ → May cfg kind K i w₁ op ∧
      ∀ x r w₂, K.op op x w₁ → op.perform cfg x w₁ = some (r, w₂) → Q r w₂) :
    Follows cfg kind K i (call op) Q w := by
  refine Prog.safe_call.mpr ?_
  rintro w₁ hw₁ x r w₂ ⟨hK, hinv⟩ hp
  obtain ⟨hmay, hpost⟩ := h w₁ hw₁ hinv
  exact ⟨⟨op, x, r, hK, hp, hmay⟩, hpost x r w₂ hK hp⟩

theorem follows_ask {op : AgentOp}
    {Q : Except AgentError (Except AgentError op.Res) → AgentWorld → Prop}
    (h : ∀ w₁, Rely kind i w w₁ → Inv cfg kind w₁ → May cfg kind K i w₁ op ∧
      ∀ x r w₂, K.op op x w₁ → op.perform cfg x w₁ = some (r, w₂) → Q (.ok r) w₂) :
    Follows cfg kind K i (ask op) Q w := by
  refine Prog.safe_ask.mpr ?_
  rintro w₁ hw₁ x r w₂ ⟨hK, hinv⟩ hp
  obtain ⟨hmay, hpost⟩ := h w₁ hw₁ hinv
  exact ⟨⟨op, x, r, hK, hp, hmay⟩, hpost x r w₂ hK hp⟩

/-- Sequencing, with an assertion in between. -/
theorem follows_bind {p : AgentProg α} {f : α → AgentProg β}
    {P : Except AgentError α → AgentWorld → Prop} {Q : Except AgentError β → AgentWorld → Prop}
    (hp : Follows cfg kind K i p P w)
    (hok : ∀ a w', P (.ok a) w' → Follows cfg kind K i (f a) Q w')
    (herr : ∀ err w', P (.error err) w' → Q (.error err) w') :
    Follows cfg kind K i (p >>= f) Q w := by
  refine Prog.safe_bind.mpr (hp.mono fun r w' hr => ?_)
  cases r with
  | ok a => exact hok a w' hr
  | error err => exact herr err w' hr

theorem follows_attempt {p : AgentProg α} {Q : Except AgentError (Except AgentError α) →
      AgentWorld → Prop} (h : Follows cfg kind K i p (fun r w' => Q (.ok r) w') w) :
    Follows cfg kind K i p.attempt Q w := Prog.safe_attempt.mpr h

/-! ### What an operation leaves behind -/

/-- How an operation ends, and what it notes. -/
def Notes (op : AgentOp) (w w' : AgentWorld) {γ : Type} : Except AgentError γ → Prop
  | .ok _ => w'.raised = w.raised
  | .error err => err.foreign = true ∧ ∃ late, ∃ w₁ : AgentWorld,
      w' = w₁.note ⟨op, err, late⟩ ∧ w₁.raised = w.raised

theorem notes_of_fallible {γ : Type} {op : AgentOp} {x : AgentAnswer} {a : γ} {w' w₁ : AgentWorld}
    {r : Except AgentError γ} (hraised : w₁.raised = w.raised)
    (h : w.fallible op x a w₁ = some (r, w')) : Notes op w w' r := by
  rcases AgentWorld.fallible_cases h with ⟨-, rfl, rfl⟩ | ⟨err, -, hforeign, rfl, rfl⟩
  · exact hraised
  · refine ⟨hforeign, x.late, _, rfl, ?_⟩
    split
    · exact hraised
    · rfl

/-- An operation notes what it raises, and nothing else. -/
theorem perform_notes {op : AgentOp} {x : AgentAnswer} {r : Except AgentError op.Res}
    {w' : AgentWorld} (h : op.perform cfg x w = some (r, w')) : Notes op w w' r := by
  cases op with
  | createReserved s =>
      simp only [AgentOp.perform] at h
      split at h
      · cases h
        rfl
      split at h
      · cases h
        rfl
      split at h
      · exact notes_of_fallible (by rfl) h
      · exact notes_of_fallible (by rfl) h
  | mark e m =>
      simp only [AgentOp.perform] at h
      split at h
      · cases h
        rfl
      · exact notes_of_fallible (by rfl) h
  | persist ev =>
      simp only [AgentOp.perform] at h
      split at h
      · split at h
        · cases h
          rfl
        · exact notes_of_fallible (by rfl) h
      · cases h
        rfl
  | xadd ev =>
      simp only [AgentOp.perform] at h
      refine notes_of_fallible ?_ h
      split
      · rfl
      · rfl
  | validate context =>
      simp only [AgentOp.perform] at h
      split at h
      · cases h
        rfl
      · cases h
        rfl
      · exact notes_of_fallible (by rfl) h
  | begin cmd | lockWait n e =>
      simp only [AgentOp.perform] at h
      split at h
      · cases h
        rfl
      · cases h
  | wheelWait n =>
      simp only [AgentOp.perform] at h
      split at h
      · cases h
      · obtain ⟨code, -, hcode⟩ := Option.map_eq_some_iff.mp h
        cases hcode
        rfl
  | read e | uuid | heartbeat t e size | pidKill job | logSize path | logStats path
  | wheelTerminate e | wheelActive e | terminatePgid pgid | rmtree path | addInproc e | inproc e
  | spawnWait t e | releaseExecution e | now | finish cmd | unlockWait e | enterLoop =>
      cases h
      rfl
  | listExecutionIds | delete e | unlinkEvent ev | outboxEntries
  | schedule e project spider version settings args | cancel e project job kill sender
  | listjobs project job | logExists path | truncateLog path | unlinkLog path
  | wheelStart e shellCommand installPath workingDir env context | cache hash step | setup =>
      exact notes_of_fallible (by rfl) h

/-- An exception is noted. -/
theorem perform_error {op : AgentOp} {x : AgentAnswer} {err : AgentError} {w' : AgentWorld}
    (h : op.perform cfg x w = some (.error err, w')) :
    err.foreign = true ∧ ∃ late, ∃ w₁ : AgentWorld,
      w' = w₁.note ⟨op, err, late⟩ ∧ w₁.raised = w.raised := perform_notes h

/-- An exception that the passes are not made for disturbs them. -/
theorem disturbed_of_error {op : AgentOp} {x : AgentAnswer} {err : AgentError}
    {w' : AgentWorld} {n : Nat} (h : op.perform cfg x w = some (.error err, w'))
    (hn : n ≤ w.raised.length) (hbad : ∀ late, tolerable cfg ⟨op, err, late⟩ = false) :
    Disturbed cfg n w' := by
  obtain ⟨-, late, w₁, rfl, hraised⟩ := perform_error h
  refine ⟨⟨op, err, late⟩, ?_, hbad late⟩
  rw [AgentWorld.note_raised, hraised, List.drop_append_of_le_length hn]
  exact List.mem_append_right _ (List.mem_singleton_self _)

/-- What a program that touches no state file leads to. -/
def Calm (cfg : AgentConfig) (kind : ExecutionId → RunnerType) (n : Nat) (w : AgentWorld)
    {α : Type} (R : α → AgentWorld → Prop) : Except AgentError α → AgentWorld → Prop
  | .ok a, w' => Rely kind .consumer w w' ∧ R a w'
  | .error _, w' => Rely kind .consumer w w' ∧ Disturbed cfg n w'

/-- How an operation has ended whose exceptions are none the passes are made for. -/
def Tolerated (cfg : AgentConfig) (n : Nat) (w : AgentWorld) {α : Type} (R : α → Prop) :
    Except AgentError α → Prop
  | .ok a => R a
  | .error _ => Disturbed cfg n w

/-- How a call of scrapyd has ended, whose own exception is an answer. -/
def Replied (cfg : AgentConfig) (n : Nat) (w : AgentWorld) {α : Type} (R : α → Prop) :
    Except AgentError α → Prop
  | .ok a => R a
  | .error (.scrapyd _) => True
  | .error _ => Disturbed cfg n w

/-- A silent operation whose exceptions are none the passes are made for. -/
theorem calm_call {op : AgentOp} {n : Nat} (hop : Silent op)
    (hmay : ∀ w, May cfg kind K .consumer w op)
    (hbad : ∀ err late, tolerable cfg ⟨op, err, late⟩ = false) (hn : n ≤ w.raised.length) :
    Follows cfg kind K .consumer (call op)
      (Calm cfg kind n w fun a w' => ∃ w₁ x, Rely kind .consumer w w₁ ∧
        Rely kind .consumer w₁ w' ∧ K.op op x w₁ ∧ op.perform cfg x w₁ = some (.ok a, w')) w := by
  refine follows_call fun w₁ hw₁ hinv => ⟨hmay w₁, fun x r w₂ hK hp => ?_⟩
  have hrely : Rely kind .consumer w₁ w₂ := Rely.silent hinv hp hop
  have hn₁ : n ≤ w₁.raised.length := hn.trans hw₁.mono.raised.length_le
  cases r with
  | ok a => exact ⟨hw₁.trans hrely, w₁, x, hw₁, hrely, hK, hp⟩
  | error err => exact ⟨hw₁.trans hrely, disturbed_of_error hp hn₁ (hbad err)⟩

/-- Sequencing after a calm part. -/
theorem calm_bind {n : Nat} {p : AgentProg α} {f : α → AgentProg β} {R : α → AgentWorld → Prop}
    {Q : Except AgentError β → AgentWorld → Prop}
    (hp : Follows cfg kind K .consumer p (Calm cfg kind n w R) w)
    (hok : ∀ a w', Rely kind .consumer w w' → R a w' → Follows cfg kind K .consumer (f a) Q w')
    (herr : ∀ err w', Rely kind .consumer w w' → Disturbed cfg n w' → Q (.error err) w') :
    Follows cfg kind K .consumer (p >>= f) Q w :=
  follows_bind hp (fun a w' h => hok a w' h.1 h.2) fun err w' h => herr err w' h.1 h.2

/-- A silent operation, and what follows it. -/
theorem calm_step {op : AgentOp} {n : Nat} {f : op.Res → AgentProg β}
    {Q : Except AgentError β → AgentWorld → Prop} (hop : Silent op)
    (hmay : ∀ w, May cfg kind K .consumer w op)
    (hbad : ∀ err late, tolerable cfg ⟨op, err, late⟩ = false) (hn : n ≤ w.raised.length)
    (hok : ∀ a w', Rely kind .consumer w w' → Follows cfg kind K .consumer (f a) Q w')
    (herr : ∀ err w', Rely kind .consumer w w' → Disturbed cfg n w' → Q (.error err) w') :
    Follows cfg kind K .consumer (call op >>= f) Q w :=
  calm_bind (calm_call hop hmay hbad hn) (fun a w' h _ => hok a w' h) herr

theorem Calm.after {n : Nat} {w' : AgentWorld} {R : α → AgentWorld → Prop}
    {r : Except AgentError α} {w₁ : AgentWorld} (h : Calm cfg kind n w₁ R r w')
    (hw₁ : Rely kind .consumer w w₁) : Calm cfg kind n w R r w' := by
  cases r with
  | ok a => exact ⟨hw₁.trans h.1, h.2⟩
  | error err => exact ⟨hw₁.trans h.1, h.2⟩

theorem Calm.imp {n : Nat} {w' : AgentWorld} {R R' : α → AgentWorld → Prop}
    {r : Except AgentError α} (h : Calm cfg kind n w R r w')
    (hR : ∀ a, Rely kind .consumer w w' → R a w' → R' a w') : Calm cfg kind n w R' r w' := by
  cases r with
  | ok a => exact ⟨h.1, hR a h.1 h.2⟩
  | error err => exact h

/-- Reading a state file that is the consumer's own. -/
theorem read_step {e : ExecutionId} {f : Option AttemptState → AgentProg β}
    {Q : Except AgentError β → AgentWorld → Prop} (hheld : Holds kind w .consumer e)
    (h : ∀ w', Rely kind .consumer w w' → Inv cfg kind w' →
      Follows cfg kind K .consumer (f (w.store.read e)) Q w') :
    Follows cfg kind K .consumer (call (.read e) >>= f) Q w := by
  refine follows_bind (P := fun r w' => r = .ok (w.store.read e) ∧ Rely kind .consumer w w' ∧
    Inv cfg kind w') ?_ ?_ ?_
  · refine follows_call fun w₁ hw₁ hinv => ⟨trivial, fun x r w₂ _ hp => ?_⟩
    cases hp
    exact ⟨by rw [hw₁.read e hheld], hw₁, hinv⟩
  · rintro a w' ⟨ha, hw', hinv⟩
    obtain rfl := Except.ok.inj ha
    exact h w' hw' hinv
  · rintro err w' ⟨hc, -⟩
    cases hc

end Rules

/-! ### Programs about one execution -/

/-- What the programs of the consumer leave as it was, whatever they are about. -/
structure Goes (kind : ExecutionId → RunnerType) (w w' : AgentWorld) : Prop where
  mono : Mono w w'
  holds : ∀ e', Holds kind w .consumer e' → Holds kind w' .consumer e'
  lock : ∀ e', w.locks e' = some .consumer → w'.locks e' = some .consumer
  handling : w'.handling = w.handling
  running : w'.running = w.running
  begun : w'.begun = w.begun
  processed : w'.processed = w.processed
  reserving : w'.reserving = w.reserving

/-- What a program about one execution leaves as it was. -/
structure Touches (kind : ExecutionId → RunnerType) (e : ExecutionId) (w w' : AgentWorld) : Prop
    extends Goes kind w w' where
  read : ∀ e', e' ≠ e → Holds kind w .consumer e' → w'.store.read e' = w.store.read e'

theorem Rely.touches {kind : ExecutionId → RunnerType} {w w' : AgentWorld}
    (h : Rely kind .consumer w w') (e : ExecutionId) : Touches kind e w w' where
  mono := h.mono
  holds := h.holds
  read e' _ := h.read e'
  lock := h.lock
  handling := (h.mine rfl).handling
  running := (h.mine rfl).running
  begun := (h.mine rfl).begun
  processed := (h.mine rfl).processed
  reserving := (h.mine rfl).reserving

namespace Touches

variable {kind : ExecutionId → RunnerType} {e : ExecutionId} {w w' w₁ w₂ w₃ : AgentWorld}

theorem trans (h : Touches kind e w₁ w₂) (h' : Touches kind e w₂ w₃) : Touches kind e w₁ w₃ where
  mono := h.mono.trans h'.mono
  holds e' he' := h'.holds e' (h.holds e' he')
  read e' hne he' := (h'.read e' hne (h.holds e' he')).trans (h.read e' hne he')
  lock e' he' := h'.lock e' (h.lock e' he')
  handling := h'.handling.trans h.handling
  running := h'.running.trans h.running
  begun := h'.begun.trans h.begun
  processed := h'.processed.trans h.processed
  reserving := h'.reserving.trans h.reserving

theorem refl (e : ExecutionId) (w : AgentWorld) : Touches kind e w w := (Rely.refl _ w).touches e

/-- A step of the consumer on the execution. -/
theorem step (hmono : Mono w w') (hlocks : w'.locks = w.locks)
    (hread : ∀ e', e' ≠ e → w'.store.read e' = w.store.read e')
    (hhandling : w'.handling = w.handling) (hrunning : w'.running = w.running)
    (hbegun : w'.begun = w.begun) (hprocessed : w'.processed = w.processed)
    (hreserving : w'.reserving = w.reserving) : Touches kind e w w' where
  mono := hmono
  holds e' he' := by simpa only [Holds, hlocks, hrunning] using he'
  read e' hne _ := hread e' hne
  lock e' he' := by rw [hlocks, he']
  handling := hhandling
  running := hrunning
  begun := hbegun
  processed := hprocessed
  reserving := hreserving

theorem stopping {intent : StopIntent} {e' : ExecutionId} (h : Touches kind e w w')
    (hs : Stopping w e' intent) : Stopping w' e' intent := by
  obtain ⟨cmd, hcmd, hrest⟩ := hs
  exact ⟨cmd, h.handling.trans hcmd, hrest⟩

theorem handlingCmd {type : AgentCommandType} {e' : ExecutionId} (h : Touches kind e w w')
    (hs : Handling w e' type) : Handling w' e' type := by
  obtain ⟨cmd, hcmd, hrest⟩ := hs
  exact ⟨cmd, h.handling.trans hcmd, hrest⟩

end Touches

/-- What a program about one execution leads to. -/
def Ends (cfg : AgentConfig) (kind : ExecutionId → RunnerType) (e : ExecutionId) (n : Nat)
    (w : AgentWorld) {α : Type} (R : α → AgentWorld → Prop) :
    Except AgentError α → AgentWorld → Prop
  | .ok a, w' => Touches kind e w w' ∧ R a w'
  | .error _, w' => Touches kind e w w' ∧ Disturbed cfg n w'

section Programs

variable {cfg : AgentConfig} {kind : ExecutionId → RunnerType} {K : Cond} {w : AgentWorld}
  {e : ExecutionId} {n : Nat} {α β : Type}

theorem Ends.after {w₁ w' : AgentWorld} {R : α → AgentWorld → Prop} {r : Except AgentError α}
    (h : Ends cfg kind e n w₁ R r w') (hw₁ : Touches kind e w w₁) : Ends cfg kind e n w R r w' := by
  cases r with
  | ok a => exact ⟨hw₁.trans h.1, h.2⟩
  | error err => exact ⟨hw₁.trans h.1, h.2⟩

theorem Ends.imp {w' : AgentWorld} {R R' : α → AgentWorld → Prop} {r : Except AgentError α}
    (h : Ends cfg kind e n w R r w') (hR : ∀ a, Touches kind e w w' → R a w' → R' a w') :
    Ends cfg kind e n w R' r w' := by
  cases r with
  | ok a => exact ⟨h.1, hR a h.1 h.2⟩
  | error err => exact h

theorem Calm.ends {R : α → AgentWorld → Prop} {r : Except AgentError α} {w' : AgentWorld}
    (h : Calm cfg kind n w R r w') : Ends cfg kind e n w R r w' := by
  cases r with
  | ok a => exact ⟨h.1.touches e, h.2⟩
  | error err => exact ⟨h.1.touches e, h.2⟩

/-- Sequencing after a part about the same execution. -/
theorem ends_bind {p : AgentProg α} {f : α → AgentProg β} {R : α → AgentWorld → Prop}
    {R' : β → AgentWorld → Prop}
    (hp : Follows cfg kind K .consumer p (Ends cfg kind e n w R) w)
    (hok : ∀ a w', Touches kind e w w' → R a w' →
      Follows cfg kind K .consumer (f a) (Ends cfg kind e n w' R') w') :
    Follows cfg kind K .consumer (p >>= f) (Ends cfg kind e n w R') w := by
  refine follows_bind hp (fun a w' h => ?_) fun err w' h => h
  exact (hok a w' h.1 h.2).mono fun r w'' hr => hr.after h.1

/-- A silent operation, and what follows it. -/
theorem ends_step {op : AgentOp} {f : op.Res → AgentProg β} {R : β → AgentWorld → Prop}
    (hop : Silent op) (hmay : ∀ w, May cfg kind K .consumer w op)
    (hbad : ∀ err late, tolerable cfg ⟨op, err, late⟩ = false) (hn : n ≤ w.raised.length)
    (hok : ∀ a w', Rely kind .consumer w w' →
      Follows cfg kind K .consumer (f a) (Ends cfg kind e n w' R) w') :
    Follows cfg kind K .consumer (call op >>= f) (Ends cfg kind e n w R) w :=
  ends_bind ((calm_call hop hmay hbad hn).mono fun _ _ h => h.ends) fun a w' _ h => by
    obtain ⟨w₁, x, hw₁, hrely, -⟩ := h
    exact (hok a w' (hw₁.trans hrely))

/-- Reading the state file of the execution. -/
theorem ends_read {f : Option AttemptState → AgentProg β} {R : β → AgentWorld → Prop}
    (hheld : Holds kind w .consumer e)
    (h : ∀ w', Rely kind .consumer w w' → Inv cfg kind w' →
      Follows cfg kind K .consumer (f (w.store.read e)) (Ends cfg kind e n w' R) w') :
    Follows cfg kind K .consumer (call (.read e) >>= f) (Ends cfg kind e n w R) w :=
  read_step hheld fun w' hw' hinv => (h w' hw' hinv).mono fun _ _ hr => hr.after (hw'.touches e)

/-- Marking the state file of the execution. -/
theorem mark_ends {m : Mark} {s : AttemptState} (hheld : Holds kind w .consumer e)
    (hread : w.store.read e = some s) (hn : n ≤ w.raised.length)
    (hmay : ∀ w₁, Rely kind .consumer w w₁ → MayMark cfg kind K .consumer w₁ e s m) :
    Follows cfg kind K .consumer (call (.mark e m))
      (fun r w' => Ends cfg kind e n w
        (fun s' w' => s' = some (m.apply s) ∧ w'.store.read e = some (m.apply s)) r w' ∧
        (w'.store.read e = some (m.apply s) ∨ w'.store.read e = some s ∧
          ∃ y ∈ w'.raised.drop n, y.op = .mark e m)) w := by
  refine follows_call fun w₁ hw₁ hinv => ?_
  have hread₁ : w₁.store.read e = some s := by rw [hw₁.read e hheld, hread]
  refine ⟨⟨hw₁.holds e hheld, fun s' hs' => ?_⟩, fun x r w₂ _ hp => ?_⟩
  · obtain rfl := Option.some.inj (hread₁.symm.trans hs')
    exact hmay w₁ hw₁
  have hmono : Mono w₁ w₂ := Mono.perform hinv hp
  have hn₁ : n ≤ w₁.raised.length := hn.trans hw₁.mono.raised.length_le
  have hp' := hp
  simp only [AgentOp.perform, hread₁] at hp
  rcases AgentWorld.atomically_cases hp with ⟨-, rfl, rfl⟩ | ⟨err, -, -, rfl, rfl⟩
  · have htouch : Touches kind e w₁ { w₁ with
        store := w₁.store.mark e m, unreported := w₁.unreportedAfter e m s } :=
      .step hmono rfl (fun e' hne => StateStore.read_mark_ne _ _ hne) rfl rfl rfl rfl rfl
    have hself : (w₁.store.mark e m).read e = some (m.apply s) := by
      rw [StateStore.read_mark_self, hread₁]
      rfl
    exact ⟨⟨(hw₁.touches e).trans htouch, rfl, hself⟩, .inl hself⟩
  · have htouch : Touches kind e w₁ (w₁.note ⟨.mark e m, err, false⟩) :=
      (Rely.note .consumer w₁ _).touches e
    refine ⟨⟨(hw₁.touches e).trans htouch, disturbed_of_error hp' hn₁ fun _ => rfl⟩, ?_⟩
    refine .inr ⟨hread₁, ⟨.mark e m, err, false⟩, ?_, rfl⟩
    rw [AgentWorld.note_raised, List.drop_append_of_le_length hn₁]
    exact List.mem_append_right _ (List.mem_singleton_self _)

/-- A mark, and what follows it. -/
theorem ends_mark {m : Mark} {s : AttemptState} {f : Option AttemptState → AgentProg β}
    {R : β → AgentWorld → Prop} (hheld : Holds kind w .consumer e)
    (hread : w.store.read e = some s) (hn : n ≤ w.raised.length)
    (hmay : ∀ w₁, Rely kind .consumer w w₁ → MayMark cfg kind K .consumer w₁ e s m)
    (h : ∀ w', Touches kind e w w' → w'.store.read e = some (m.apply s) →
      Follows cfg kind K .consumer (f (some (m.apply s))) (Ends cfg kind e n w' R) w') :
    Follows cfg kind K .consumer (call (.mark e m) >>= f) (Ends cfg kind e n w R) w := by
  refine ends_bind ((mark_ends hheld hread hn hmay).mono fun _ _ h => h.1) ?_
  rintro _ w' hw' ⟨rfl, hread'⟩
  exact h w' hw' hread'

/-- A mark of an execution without a state file does nothing. -/
theorem ends_mark_missing {m : Mark} {f : Option AttemptState → AgentProg β}
    {R : β → AgentWorld → Prop} (hheld : Holds kind w .consumer e)
    (hread : w.store.read e = none)
    (h : ∀ w', Rely kind .consumer w w' →
      Follows cfg kind K .consumer (f none) (Ends cfg kind e n w' R) w') :
    Follows cfg kind K .consumer (call (.mark e m) >>= f) (Ends cfg kind e n w R) w := by
  refine follows_bind (P := fun r w' => r = .ok none ∧ Rely kind .consumer w w') ?_ ?_ ?_
  · refine follows_call fun w₁ hw₁ hinv => ?_
    have hread₁ : w₁.store.read e = none := by rw [hw₁.read e hheld, hread]
    refine ⟨⟨hw₁.holds e hheld, fun s' hs' => ?_⟩, fun x r w₂ _ hp => ?_⟩
    · rw [hread₁] at hs'
      cases hs'
    · simp only [AgentOp.perform, hread₁] at hp
      cases hp
      exact ⟨rfl, hw₁⟩
  · rintro a w' ⟨ha, hw'⟩
    obtain rfl := Except.ok.inj ha
    exact (h w' hw').mono fun _ _ hr => hr.after (hw'.touches e)
  · rintro err w' ⟨hc, -⟩
    cases hc

/-! ### Emitting -/

/-- The id of an event does not matter for what it reports. -/
theorem Reports.numbered {ev : AgentEvent} {s : Option AttemptState} {id : Nat} {agent : AgentId}
    (h : Reports kind K w ev s) :
    Reports kind K w { ev with eventId := id, agentId := agent } s := by
  cases h with
  | missing htype => exact .missing htype
  | canceled s htype hcmd hdone => exact .canceled s htype hcmd hdone
  | aborted s hphase hres hev =>
      exact .aborted s hphase hres ⟨hev.1, hev.2, hev.3, hev.4, hev.5, hev.6⟩
  | recorded s hphase hev => exact .recorded s hphase ⟨hev.1, hev.2, hev.3, hev.4, hev.5, hev.6⟩
  | stopped s hphase hresult hintent htype => exact .stopped s hphase hresult hintent htype
  | observed s hkind hphase hstop hcmd hgone hres =>
      exact .observed s hkind hphase hstop hcmd hgone hres

/-- Emitting an event that the rules allow. -/
theorem emit_follows {i : Owner} {ev : AgentEvent} {k : Nat} (hn : n ≤ w.raised.length)
    (hk : k ≤ w.emitted.length)
    (hmay : ev.type.isTerminal = true → ∀ w₁, Rely kind i w w₁ →
      Holds kind w₁ i ev.executionId ∧ Reports kind K w₁ ev (w₁.store.read ev.executionId)) :
    Follows cfg kind K i (emit cfg ev) (fun r w' => Rely kind i w w' ∧
      match r with
      | .ok _ => EmittedSince k w' ev.executionId ev.type
      | .error _ => Disturbed cfg n w') w := by
  refine follows_bind (P := fun r w' => Rely kind i w w' ∧ ∃ id, r = .ok id) ?_ ?_ ?_
  · refine follows_call fun w₁ hw₁ hinv => ⟨trivial, fun x r w₂ _ hp => ?_⟩
    have hrely : Rely kind i w₁ w₂ := Rely.silent hinv hp trivial
    cases hp
    exact ⟨hw₁.trans hrely, _, rfl⟩
  · rintro id w₁ ⟨hw₁, -⟩
    show Follows cfg kind K i
      (call (.persist { ev with eventId := id, agentId := cfg.agentId }) >>= _) _ w₁
    obtain ⟨ev', hev'⟩ : ∃ ev' : AgentEvent,
        ev' = { ev with eventId := id, agentId := cfg.agentId } := ⟨_, rfl⟩
    have hid : ev'.executionId = ev.executionId := by rw [hev']
    have htype : ev'.type = ev.type := by rw [hev']
    have hallowed : ∀ w₂, Rely kind i w w₂ → MayEmit kind K i w₂ ev' := by
      intro w₂ hw₂ hterminal
      obtain ⟨hheld, hreports⟩ := hmay (htype ▸ hterminal) w₂ hw₂
      rw [hev']
      exact ⟨hheld, hreports.numbered⟩
    rw [← hev']
    -- where the event is counted as emitted
    have hemitted : ∀ w₂ : AgentWorld, k ≤ w₂.emitted.length →
        EmittedSince k (w₂.emit ev') ev.executionId ev.type := by
      intro w₂ hk₂
      refine ⟨ev', ?_, hid, htype⟩
      show ev' ∈ (w₂.emitted ++ [ev']).drop k
      rw [List.drop_append_of_le_length hk₂]
      exact List.mem_append_right _ (List.mem_singleton_self _)
    have hlengths : ∀ {w₂}, Rely kind i w w₂ → n ≤ w₂.raised.length ∧ k ≤ w₂.emitted.length :=
      fun hw₂ => ⟨hn.trans hw₂.mono.raised.length_le, hk.trans hw₂.mono.emitted.length_le⟩
    refine follows_bind (P := fun r w' => Rely kind i w w' ∧
      Tolerated cfg n w' (fun queued : Bool => queued = cfg.eventOutbox ∧
        (queued = true → EmittedSince k w' ev.executionId ev.type)) r) ?_ ?_ fun err w' h => h
    · refine follows_call fun w₂ hw₂ hinv => ⟨hallowed w₂ (hw₁.trans hw₂), fun x r w₃ _ hp => ?_⟩
      have hw₃ := (hw₁.trans hw₂).trans (Rely.silent hinv hp trivial)
      have hdisturbed : ∀ err, r = .error err → Disturbed cfg n w₃ := by
        rintro err rfl
        exact disturbed_of_error hp (hlengths (hw₁.trans hw₂)).1 fun _ => rfl
      refine ⟨hw₃, ?_⟩
      cases r with
      | error err => exact hdisturbed err rfl
      | ok queued =>
          simp only [AgentOp.perform] at hp
          split at hp
          · rename_i houtbox
            split at hp
            · cases hp
              exact ⟨houtbox.symm, fun _ => hemitted _ (hlengths (hw₁.trans hw₂)).2⟩
            · rcases AgentWorld.fallible_cases hp with ⟨hnone, -, -⟩ | ⟨err, -, -, hc, -⟩
              · rename_i hsome
                rw [hsome] at hnone
                cases hnone
              · cases hc
          · rename_i houtbox
            cases hp
            exact ⟨by simpa using houtbox, fun hc => by cases hc⟩
    · rintro queued w₂ ⟨hw₂, hqueued, hdone⟩
      refine follows_bind (P := fun r w' => Rely kind i w w' ∧ ∃ res, r = .ok res ∧
        (queued = true → EmittedSince k w' ev.executionId ev.type) ∧
        (∀ u, res = .ok u → EmittedSince k w' ev.executionId ev.type ∧ ev' ∈ w'.stream) ∧
        ∀ err, res = .error err → queued = false → Disturbed cfg n w') ?_ ?_ ?_
      · refine follows_ask fun w₃ hw₃ hinv =>
          ⟨.inr (hallowed w₃ (hw₂.trans hw₃)), fun x r w₄ _ hp => ?_⟩
        have hw₃' := hw₂.trans hw₃
        have hstep : Rely kind i w₃ w₄ := Rely.silent hinv hp trivial
        refine ⟨hw₃'.trans hstep, r, rfl,
          fun hq => ((hdone hq).mono hw₃.mono).mono hstep.mono, ?_, ?_⟩
        · rintro u rfl
          simp only [AgentOp.perform] at hp
          split at hp
          · rename_i houtbox
            rcases AgentWorld.fallible_cases hp with ⟨-, -, rfl⟩ | ⟨err, -, -, hc, -⟩
            · exact ⟨((hdone (hqueued.trans houtbox)).mono hw₃.mono).mono hstep.mono,
                List.mem_append_right _ (List.mem_singleton_self _)⟩
            · cases hc
          · rcases AgentWorld.fallible_cases hp with ⟨-, -, rfl⟩ | ⟨err, -, -, hc, -⟩
            · exact ⟨hemitted _ (hlengths hw₃').2,
                List.mem_append_right _ (List.mem_singleton_self _)⟩
            · cases hc
        · rintro err rfl hq
          refine disturbed_of_error hp (hlengths hw₃').1 fun _ => ?_
          simpa [tolerable, hq] using hqueued.symm
      · rintro res w₃ ⟨hw₃, res', hres, hdone₃, hsent, hfailed⟩
        obtain rfl := Except.ok.inj hres
        cases res with
        | error err =>
            cases queued with
            | true => exact ⟨hw₃, hdone₃ rfl⟩
            | false => exact ⟨hw₃, hfailed err rfl rfl⟩
        | ok u =>
            obtain ⟨hsince, hstream⟩ := hsent u rfl
            cases queued with
            | false => exact ⟨hw₃, hsince⟩
            | true =>
                refine follows_call fun w₄ hw₄ hinv =>
                  ⟨hw₄.mono.stream ev' hstream, fun x r w₅ _ hp => ?_⟩
                have hstep : Rely kind i w₄ w₅ := Rely.silent hinv hp trivial
                refine ⟨(hw₃.trans hw₄).trans hstep, ?_⟩
                cases r with
                | ok u => exact (hsince.mono hw₄.mono).mono hstep.mono
                | error err =>
                    exact disturbed_of_error hp (hlengths (hw₃.trans hw₄)).1 fun _ => rfl
      · rintro err w' ⟨-, _, hc, -⟩
        cases hc
  · rintro err w' ⟨-, _, hc⟩
    cases hc

/-! ### The runner of scrapyd jobs -/

/-- The status of a state file: what a terminal was resolved from. -/
theorem resolveStatus_follows (s : AttemptState) (hn : n ≤ w.raised.length) :
    Follows cfg kind K .consumer (resolveStatus s) (Calm cfg kind n w fun status w' =>
      status.terminal.isSome = true →
        Resolved K w' s ∧ ∀ job, s.scrapydJobId = some job → job ∈ w'.seenGone) w := by
  refine follows_bind (P := fun r w' => Rely kind .consumer w w' ∧ ∃ res, r = .ok res ∧
    Replied cfg n w' (fun jobs => inList jobs.running s.scrapydJobId = false →
      inList jobs.pending s.scrapydJobId = false →
      (∀ job, s.scrapydJobId = some job → job ∈ w'.seenGone) ∧ ∃ x w₀,
        K.op (.listjobs s.project s.scrapydJobId) x w₀ ∧ w₀.handling = w'.handling ∧
        x.error = none ∧ x.jobs = jobs) res) ?_ ?_ ?_
  · refine follows_ask fun w₁ hw₁ hinv => ⟨trivial, fun x r w₂ hK hp => ?_⟩
    have hstep : Rely kind .consumer w₁ w₂ := Rely.silent hinv hp trivial
    have hn₁ : n ≤ w₁.raised.length := hn.trans hw₁.mono.raised.length_le
    have hp' := hp
    simp only [AgentOp.perform] at hp
    refine ⟨hw₁.trans hstep, r, rfl, ?_⟩
    rcases AgentWorld.atomically_cases hp with ⟨hnone, rfl, rfl⟩ | ⟨err, -, hforeign, rfl, -⟩
    · intro hrunning hpending
      refine ⟨fun job hjob => ?_, x, w₁, hK, (hstep.mine rfl).handling.symm, hnone, rfl⟩
      rw [hjob] at hrunning hpending
      simp only [inList, decide_eq_false_iff_not] at hrunning hpending
      simp only [hjob]
      rw [if_neg (by simp [hrunning, hpending])]
      exact List.mem_cons_self
    · cases err with
      | scrapyd detail => trivial
      | artifactCache _ | wheelCache _ | runner _ => cases hforeign
      | wheelRunner _ _ | http | timeout | redis | os | other =>
          exact disturbed_of_error hp' hn₁ fun _ => rfl
  · rintro res w₁ ⟨hw₁, res', hres, hrest⟩
    obtain rfl := Except.ok.inj hres
    have hn₁ : n ≤ w₁.raised.length := hn.trans hw₁.mono.raised.length_le
    cases res with
    | error err =>
        cases err with
        | scrapyd detail => exact ⟨hw₁, fun hc => by cases hc⟩
        | artifactCache _ | wheelCache _ | runner _ | wheelRunner _ _ | http | timeout | redis
          | os | other => exact ⟨hw₁, hrest⟩
    | ok jobs =>
        show Follows cfg kind K .consumer
          (if inList jobs.running s.scrapydJobId then _ else
            if inList jobs.pending s.scrapydJobId then _ else
            if inList jobs.finished s.scrapydJobId then _ else _) _ w₁
        by_cases hrunning : inList jobs.running s.scrapydJobId = true
        · rw [if_pos hrunning]
          exact ⟨hw₁, fun hc => by cases hc⟩
        rw [if_neg hrunning]
        by_cases hpending : inList jobs.pending s.scrapydJobId = true
        · rw [if_pos hpending]
          exact ⟨hw₁, fun hc => by cases hc⟩
        rw [if_neg hpending]
        have hrunning : inList jobs.running s.scrapydJobId = false := by simpa using hrunning
        have hpending : inList jobs.pending s.scrapydJobId = false := by simpa using hpending
        obtain ⟨hgone, x, w₀, hK, hhandling, hnone, rfl⟩ := hrest hrunning hpending
        by_cases hfinished : inList x.jobs.finished s.scrapydJobId = true
        · rw [if_pos hfinished]
          exact ⟨hw₁, fun _ => ⟨⟨x, w₀, hK, hhandling, hnone, hrunning, hpending, .inl hfinished⟩,
            hgone⟩⟩
        rw [if_neg hfinished]
        refine calm_bind (n := n) (calm_call trivial (fun _ => trivial) (fun _ _ => rfl) hn₁)
          (fun ran w₂ hw₂ h => ?_) fun err w₂ hw₂ h => ⟨hw₁.trans hw₂, h⟩
        obtain ⟨w₃, x', hw₃, hw₃₂, hK', hp⟩ := h
        cases ran with
        | false => exact ⟨hw₁.trans hw₂, fun hc => by cases hc⟩
        | true =>
            refine ⟨hw₁.trans hw₂, fun _ => ⟨⟨x, w₀, hK, ?_, hnone, hrunning, hpending, .inr
              ⟨x', w₃, hK', (hw₃₂.mine rfl).handling.symm, ?_⟩⟩,
              fun job hjob => hw₂.mono.seenGone job (hgone job hjob)⟩⟩
            · exact hhandling.trans (hw₂.mine rfl).handling.symm
            · simp only [AgentOp.perform] at hp
              rcases AgentWorld.fallible_cases hp with ⟨hnone', hflag, -⟩ | ⟨err, -, -, hc, -⟩
              · exact ⟨hnone', (Except.ok.inj hflag).symm⟩
              · cases hc
  · rintro err w' ⟨-, _, hc, -⟩
    cases hc

/-- The status of an execution the consumer holds. -/
theorem runnerStatus_follows {s : AttemptState} (hheld : Holds kind w .consumer e)
    (hread : w.store.read e = some s) (hn : n ≤ w.raised.length) :
    Follows cfg kind K .consumer (runnerStatus e) (Calm cfg kind n w fun status w' =>
      status.terminal.isSome = true →
        Resolved K w' s ∧ ∀ job, s.scrapydJobId = some job → job ∈ w'.seenGone) w := by
  refine read_step hheld fun w₁ hw₁ _ => ?_
  rw [hread]
  have hn₁ : n ≤ w₁.raised.length := hn.trans hw₁.mono.raised.length_le
  exact (resolveStatus_follows s hn₁).mono fun _ _ h => h.after hw₁

theorem isJobAlive_follows {s : AttemptState} (hheld : Holds kind w .consumer e)
    (hread : w.store.read e = some s) (hn : n ≤ w.raised.length) :
    Follows cfg kind K .consumer (isJobAlive e) (Calm cfg kind n w fun _ _ => True) w := by
  refine read_step hheld fun w₁ hw₁ _ => ?_
  rw [hread]
  refine follows_bind (P := fun r w' => Rely kind .consumer w w' ∧ ∃ res, r = .ok res ∧
    Replied cfg n w' (fun _ => True) res) ?_ ?_ ?_
  · refine follows_ask fun w₂ hw₂ hinv => ⟨trivial, fun x r w₃ _ hp => ?_⟩
    have hstep : Rely kind .consumer w₂ w₃ := Rely.silent hinv hp trivial
    have hn₂ : n ≤ w₂.raised.length := hn.trans (hw₁.trans hw₂).mono.raised.length_le
    refine ⟨(hw₁.trans hw₂).trans hstep, r, rfl, ?_⟩
    cases r with
    | ok jobs => trivial
    | error err =>
        cases err with
        | scrapyd detail => trivial
        | artifactCache _ | wheelCache _ | runner _ | wheelRunner _ _ | http | timeout | redis
          | os | other => exact disturbed_of_error hp hn₂ fun _ => rfl
  · rintro res w₂ ⟨hw₂, res', hres, hrest⟩
    obtain rfl := Except.ok.inj hres
    cases res with
    | ok jobs => exact ⟨hw₂, trivial⟩
    | error err =>
        cases err with
        | scrapyd detail => exact ⟨hw₂, trivial⟩
        | artifactCache _ | wheelCache _ | runner _ | wheelRunner _ _ | http | timeout | redis
          | os | other => exact ⟨hw₂, hrest⟩
  · rintro err w' ⟨-, _, hc, -⟩
    cases hc

/-- The state file is the one in hand, or it got the runner's canceled mark since. -/
def Snapshot (w : AgentWorld) (e : ExecutionId) (s : AttemptState) : Prop :=
  w.store.read e = some s ∨ w.store.read e = some (Mark.canceled.apply s)

/-- A signal in hand was acknowledged. -/
def SignalledAs (w : AgentWorld) (e : ExecutionId) (kill : Bool) (t : Option Time) : Prop :=
  ∃ g ∈ w.signals, g.executionId = e ∧ g.kill = kill ∧ g.acked = true ∧ g.requestedAt = t

/-- Sending a signal to the job of a state file. -/
theorem runnerStop_follows {s : AttemptState} {kill : Bool} {sender : SignalSender}
    (hheld : Holds kind w .consumer e) (hread : w.store.read e = some s)
    (hn : n ≤ w.raised.length)
    (hmay : sender = .stopWatchdog → kill = true → s.stopEscalation = some .term ∧
      ∃ t, s.stopRequestedAt = some t ∧ t + cfg.stopKillAfter ≤ w.now) :
    Follows cfg kind K .consumer (runnerStop e kill sender)
      (fun r w' => Snapshot w' e s ∧ Ends cfg kind e n w (fun resp w' =>
        resp.reason ≠ some .cancelFailed → SignalledAs w' e kill s.stopRequestedAt) r w') w := by
  refine read_step hheld fun w₁ hw₁ _ => ?_
  rw [hread]
  have hheld₁ := hw₁.holds e hheld
  have hread₁ : w₁.store.read e = some s := by rw [hw₁.read e hheld, hread]
  refine follows_bind (P := fun r w' => w'.store.read e = some s ∧ Touches kind e w w' ∧
    ∃ res, r = .ok res ∧
      Replied cfg n w' (fun _ => SignalledAs w' e kill s.stopRequestedAt) res) ?_ ?_ ?_
  · refine follows_ask fun w₂ hw₂ hinv => ?_
    have hheld₂ := hw₂.holds e hheld₁
    have hread₂ : w₂.store.read e = some s := by rw [hw₂.read e hheld₁, hread₁]
    have hw₁₂ : Rely kind .consumer w w₂ := hw₁.trans hw₂
    refine ⟨⟨rfl, hheld₂, s, hread₂, rfl, fun hsender hkill => ?_⟩, fun x r w₃ _ hp => ?_⟩
    · obtain ⟨hesc, t, ht, hnow⟩ := hmay hsender hkill
      exact ⟨hesc, t, ht, hnow.trans hw₁₂.mono.now⟩
    · have hmono : Mono w₂ w₃ := Mono.perform hinv hp
      have hn₂ : n ≤ w₂.raised.length := hn.trans hw₁₂.mono.raised.length_le
      have hp' := hp
      simp only [AgentOp.perform, hread₂] at hp
      rcases AgentWorld.fallible_cases hp with ⟨hnone, rfl, rfl⟩ | ⟨err, -, hforeign, rfl, hw₃⟩
      · refine ⟨hread₂, (hw₁₂.touches e).trans
          (.step hmono rfl (fun _ _ => rfl) rfl rfl rfl rfl rfl), _, rfl, ?_⟩
        refine ⟨_, List.mem_append_right _ (List.mem_singleton_self _), rfl, rfl, ?_, rfl⟩
        simp only [Option.isNone_iff_eq_none]
        exact hnone
      · simp only [if_true] at hw₃
        subst hw₃
        refine ⟨hread₂, (hw₁₂.touches e).trans
          (.step hmono rfl (fun _ _ => rfl) rfl rfl rfl rfl rfl), _, rfl, ?_⟩
        cases err with
        | scrapyd detail => trivial
        | artifactCache _ | wheelCache _ | runner _ => cases hforeign
        | wheelRunner _ _ | http | timeout | redis | os | other =>
            exact disturbed_of_error hp' hn₂ fun _ => rfl
  · rintro res w₂ ⟨hread₂, htouch, res', hres, hrest⟩
    obtain rfl := Except.ok.inj hres
    have hheld₂ := htouch.holds e hheld
    have hn₂ : n ≤ w₂.raised.length := hn.trans htouch.mono.raised.length_le
    have hkept : ∀ {w₃}, Rely kind .consumer w₂ w₃ → Snapshot w₃ e s := fun hw₃ =>
      .inl (by rw [hw₃.read e hheld₂, hread₂])
    cases res with
    | error err =>
        cases err with
        | scrapyd detail =>
            refine calm_bind (n := n) (resolveStatus_follows s hn₂)
              (fun status w₃ hw₃ _ => ?_) fun err w₃ hw₃ h => ?_
            · exact ⟨hkept hw₃, htouch.trans (hw₃.touches e), fun hc => (hc rfl).elim⟩
            · exact ⟨hkept hw₃, htouch.trans (hw₃.touches e), h⟩
        | artifactCache _ | wheelCache _ | runner _ | wheelRunner _ _ | http | timeout | redis
          | os | other => exact ⟨.inl hread₂, htouch, hrest⟩
    | ok stopped =>
        cases stopped with
        | true =>
            refine follows_bind (mark_ends (n := n) hheld₂ hread₂ hn₂ fun w₃ _ => .canceled) ?_ ?_
            · rintro s' w₃ ⟨⟨htouch₃, -, hread₃⟩, -⟩
              obtain ⟨g, hg, h₁, h₂, h₃, h₄⟩ := hrest
              exact ⟨.inr hread₃, htouch.trans htouch₃,
                fun _ => ⟨g, htouch₃.mono.signals.subset hg, h₁, h₂, h₃, h₄⟩⟩
            · rintro err w₃ ⟨⟨htouch₃, hdisturbed⟩, hread₃⟩
              refine ⟨?_, htouch.trans htouch₃, hdisturbed⟩
              rcases hread₃ with hread₃ | ⟨hread₃, -⟩
              · exact .inr hread₃
              · exact .inl hread₃
        | false =>
            refine calm_bind (n := n) (resolveStatus_follows s hn₂)
              (fun status w₃ hw₃ _ => ?_) fun err w₃ hw₃ h => ?_
            · obtain ⟨g, hg, h₁, h₂, h₃, h₄⟩ := hrest
              exact ⟨hkept hw₃, htouch.trans (hw₃.touches e),
                fun _ => ⟨g, hw₃.mono.signals.subset hg, h₁, h₂, h₃, h₄⟩⟩
            · exact ⟨hkept hw₃, htouch.trans (hw₃.touches e), h⟩
  · rintro err w' ⟨-, -, _, hc, -⟩
    cases hc

/-- Without a state file there is nothing to stop. -/
theorem runnerStop_missing {kill : Bool} {sender : SignalSender}
    (hheld : Holds kind w .consumer e) (hread : w.store.read e = none) :
    Follows cfg kind K .consumer (runnerStop e kill sender)
      (fun r w' => Rely kind .consumer w w' ∧ ∃ resp, r = .ok resp) w := by
  refine read_step hheld fun w₁ hw₁ _ => ?_
  rw [hread]
  exact ⟨hw₁, _, rfl⟩

/-! ### Reporting again -/

theorem republishCurrent_follows {k : Nat} (t : TaskId) (hheld : Holds kind w .consumer e)
    (hn : n ≤ w.raised.length) (hk : k ≤ w.emitted.length)
    (hres : ∀ s, w.store.read e = some s → s.phase = .reserved → w.reserving ≠ some e)
    (hrun : ∀ s, w.store.read e = some s → s.phase = .started → Handling w e .run) :
    Follows cfg kind K .consumer (republishCurrent cfg t e) (Calm cfg kind n w fun _ w' =>
      ∀ s result, w.store.read e = some s → s.phase = .done → s.result = some result →
        EmittedSince k w' e result.eventType) w := by
  refine read_step hheld fun w₁ hw₁ hinv => ?_
  have hheld₁ := hw₁.holds e hheld
  have hread₁ : w₁.store.read e = w.store.read e := hw₁.read e hheld
  have hn₁ : n ≤ w₁.raised.length := hn.trans hw₁.mono.raised.length_le
  have hk₁ : k ≤ w₁.emitted.length := hk.trans hw₁.mono.emitted.length_le
  -- an event about `e` that the state file allows to be reported
  have hemit : ∀ (ev : AgentEvent) (w₂ : AgentWorld), Rely kind .consumer w w₂ →
      ev.executionId = e →
      (ev.type.isTerminal = true → ∀ w₃, Rely kind .consumer w w₃ →
        Rely kind .consumer w₂ w₃ → Reports kind K w₃ ev (w.store.read e)) →
      Follows cfg kind K .consumer (emit cfg ev)
        (Calm cfg kind n w fun _ w' => EmittedSince k w' e ev.type) w₂ := by
    rintro ev w₂ hw₂ rfl hmay
    refine (emit_follows (hn.trans hw₂.mono.raised.length_le)
      (hk.trans hw₂.mono.emitted.length_le) ?_).mono ?_
    · intro hterminal w₃ hw₃
      have hw₀₃ := hw₂.trans hw₃
      refine ⟨hw₀₃.holds _ hheld, ?_⟩
      rw [hw₀₃.read _ hheld]
      exact hmay hterminal w₃ hw₀₃ hw₃
    · rintro (err | u) w₃ ⟨hw₃, h⟩
      · exact ⟨hw₂.trans hw₃, h⟩
      · exact ⟨hw₂.trans hw₃, h⟩
  have hignore : ∀ {Q : AgentWorld → Prop} {r : Except AgentError Unit} {w' : AgentWorld},
      (Rely kind .consumer w w' → Q w') → Calm cfg kind n w (fun _ _ => True) r w' →
      Calm cfg kind n w (fun _ => Q) r w' := fun hQ h => h.imp fun _ hr _ => hQ hr
  cases hread : w.store.read e with
  | none =>
      refine (hemit { event t e .lost with lostReason := some .stateMissing } w₁ hw₁ rfl
        fun _ w₃ _ _ => ?_).mono fun r w' h => h.imp fun _ _ _ => fun s _ hs => by cases hs
      rw [hread]
      exact .missing rfl
  | some s =>
      have hs : Sound (kind e) e s := hinv.sound e s (by rw [hread₁, hread])
      show Follows cfg kind K .consumer (if s.phase = .reserved then _ else
        if s.phase = .started ∧ s.stopRequestedAt.isSome then _ else _) _ w₁
      by_cases hreserved : s.phase = .reserved
      · rw [if_pos hreserved]
        refine (hemit { event t e .failed with
          errorCode := some "spawn_aborted"
          lostReason := some .spawnAborted } w₁ hw₁ rfl fun _ w₃ hw₃ _ => ?_).mono
          fun r w' h => h.imp fun _ _ _ => fun s' _ hs' hdone => ?_
        · rw [hread]
          refine .aborted s hreserved ?_ ⟨rfl, rfl, rfl, rfl, rfl, rfl⟩
          rw [(hw₃.mine rfl).reserving]
          exact hres s hread hreserved
        · cases hs'
          rw [hreserved] at hdone
          cases hdone
      rw [if_neg hreserved]
      by_cases hstop : s.phase = .started ∧ s.stopRequestedAt.isSome = true
      · rw [if_pos hstop]
        refine ⟨hw₁, fun s' _ hs' hdone => ?_⟩
        cases hs'
        rw [hstop.1] at hdone
        cases hdone
      rw [if_neg hstop]
      by_cases hdone : s.phase = .done
      · obtain ⟨result, hresult⟩ := Option.isSome_iff_exists.mp (hs.result hdone)
        rw [hdone, hresult]
        refine (hemit { event t e result.eventType with
          exitCode := s.exitCode
          errorCode := s.errorCode
          lostReason := s.lostReason
          errorCount := s.errorCount
          finishReason := s.finishReason
          logBytes := s.logBytes
          outcomeClass := s.outcomeClass } w₁ hw₁ rfl fun _ w₃ _ _ => ?_).mono
          fun r w' h => h.imp fun _ _ hsince => fun s' result' hs' _ hresult' => ?_
        · rw [hread]
          exact .recorded s hdone ⟨⟨result, hresult, rfl⟩, rfl, rfl, rfl, rfl, rfl⟩
        · cases hs'
          obtain rfl := Option.some.inj (hresult.symm.trans hresult')
          exact hsince
      · -- the attempt is started, and no stop is in flight
        have hphase : s.phase = .started := by
          cases hcase : s.phase with
          | reserved => exact (hreserved hcase).elim
          | started => rfl
          | done => exact (hdone hcase).elim
        have hnostop : s.stopRequestedAt = none := by
          cases hcase : s.stopRequestedAt with
          | none => rfl
          | some stamp => exact (hstop ⟨hphase, by rw [hcase]; rfl⟩).elim
        have hnotdone : ∀ {w'} (s' : AttemptState) (result : AttemptResult), some s = some s' →
            s'.phase = .done → s'.result = some result → EmittedSince k w' e result.eventType := by
          intro w' s' result hs' hd
          cases hs'
          exact (hdone hd).elim
        rw [hphase]
        by_cases hwheel : s.runnerType = .pythonWheel
        · simp only [if_pos hwheel]
          exact (hemit (event t e .running) w₁ hw₁ rfl fun hc => by cases hc).mono
            fun r w' h => h.imp fun _ _ _ => hnotdone
        simp only [if_neg hwheel]
        have hkind : kind e = .scrapy := by
          rw [← hs.runnerType]
          cases hcase : s.runnerType with
          | scrapy => rfl
          | pythonWheel => exact (hwheel hcase).elim
        refine calm_bind (n := n) (runnerStatus_follows hheld₁ (by rw [hread₁, hread]) hn₁)
          (fun status w₂ hw₂ hstatus => ?_) fun err w₂ hw₂ h => ⟨hw₁.trans hw₂, h⟩
        cases hterminal : status.terminal with
        | none =>
            exact (hemit { event t e .running with remoteJobId := s.scrapydJobId } w₂
              (hw₁.trans hw₂) rfl fun hc => by cases hc).mono fun r w' h =>
              h.imp fun _ _ _ => hnotdone
        | some terminal =>
            obtain ⟨hresolved, hgone⟩ := hstatus (by rw [hterminal]; rfl)
            refine (hemit (event t e terminal) w₂ (hw₁.trans hw₂) rfl fun _ w₃ hw₃ hw₂₃ => ?_).mono
              fun r w' h => h.imp fun _ _ _ => hnotdone
            rw [hread]
            obtain ⟨job, hjob⟩ := Option.isSome_iff_exists.mp (hs.started hphase hkind)
            refine .observed s hkind hphase hnostop ?_
              ⟨job, hjob, hw₂₃.mono.seenGone job (hgone job hjob)⟩ ?_
            · exact (hw₃.touches e).handlingCmd (hrun s hread hphase)
            · obtain ⟨x, w₀, hK, hh, hnone, hr, hp, hf⟩ := hresolved
              have hsame := (hw₂₃.mine rfl).handling
              refine ⟨x, w₀, hK, hh.trans hsame.symm, hnone, hr, hp, ?_⟩
              rcases hf with hf | ⟨x', w', hK', hh', hnone', hflag⟩
              · exact .inl hf
              · exact .inr ⟨x', w', hK', hh'.trans hsame.symm, hnone', hflag⟩

/-! ### Cleanup -/

/-- Deleting the files of the attempt failed. -/
def Undeleted (n : Nat) (w : AgentWorld) (e : ExecutionId) (s : AttemptState) : Prop :=
  ∃ y ∈ w.raised.drop n, y.op = .delete e ∨ y.op = .unlinkLog s.logPath

/-- A cleanup that is still outstanding has to wait, or has just failed. -/
def Tidy (n : Nat) (w : AgentWorld) (e : ExecutionId) : Prop :=
  ∀ s, w.store.read e = some s → s.cleanupPending = true →
    cleanupMustWait s = true ∨ Undeleted n w e s

theorem Undeleted.mono {s : AttemptState} {w' : AgentWorld} (h : Undeleted n w e s)
    (hmono : Mono w w') : Undeleted n w' e s := by
  obtain ⟨y, hy, hop⟩ := h
  exact ⟨y, mem_drop_of_prefix hmono.raised hy, hop⟩

theorem Tidy.same {w' : AgentWorld} (h : Tidy n w e)
    (hread : w'.store.read e = w.store.read e) (hmono : Mono w w') : Tidy n w' e := by
  intro s hs hpending
  rcases h s (hread ▸ hs) hpending with hwait | hfailed
  · exact .inl hwait
  · exact .inr (hfailed.mono hmono)

theorem removeWorkspace_follows (s : AttemptState) :
    Follows cfg kind K .consumer (removeWorkspace s)
      (fun r w' => Rely kind .consumer w w' ∧ r = .ok ()) w := by
  unfold removeWorkspace
  split
  · exact ⟨.refl _ w, rfl⟩
  · refine follows_call fun w₁ hw₁ hinv => ⟨trivial, fun x r w₂ _ hp => ?_⟩
    have hstep : Rely kind .consumer w₁ w₂ := Rely.silent hinv hp trivial
    cases hp
    exact ⟨hw₁.trans hstep, rfl⟩

theorem removeFiles_follows (state : Option AttemptState) (hn : n ≤ w.raised.length) :
    Follows cfg kind K .consumer (removeFiles state)
      (fun r w' => Rely kind .consumer w w' ∧ match r with
        | .ok _ => True
        | .error err => (∃ s, state = some s ∧ Undeleted n w' e s) ∧
            (err ≠ .os → Disturbed cfg n w')) w := by
  rcases state with - | s
  · exact ⟨.refl _ w, trivial⟩
  · refine follows_bind (P := fun r w' => Rely kind .consumer w w' ∧ match r with
      | .ok _ => True
      | .error err => (∃ s', some s = some s' ∧ Undeleted n w' e s') ∧
          (err ≠ .os → Disturbed cfg n w')) ?_ ?_ fun err w' h => h
    · unfold removeLog
      split
      · exact ⟨.refl _ w, trivial⟩
      · refine follows_call fun w₁ hw₁ hinv => ⟨trivial, fun x r w₂ _ hp => ?_⟩
        have hn₁ : n ≤ w₁.raised.length := hn.trans hw₁.mono.raised.length_le
        refine ⟨hw₁.trans (Rely.silent hinv hp trivial), ?_⟩
        cases r with
        | ok u => trivial
        | error err =>
            obtain ⟨hforeign, late, w₃, hw₃, hraised⟩ := perform_error hp
            refine ⟨⟨s, rfl, ⟨.unlinkLog s.logPath, err, late⟩, ?_, .inr rfl⟩, fun hos => ?_⟩
            · rw [hw₃, AgentWorld.note_raised, hraised, List.drop_append_of_le_length hn₁]
              exact List.mem_append_right _ (List.mem_singleton_self _)
            · refine disturbed_of_error hp hn₁ fun _ => ?_
              cases err with
              | os => exact (hos rfl).elim
              | artifactCache _ | wheelCache _ | runner _ | wheelRunner _ _ | scrapyd _ | http
                | timeout | redis | other => rfl
    · rintro u w₁ ⟨hw₁, -⟩
      refine (removeWorkspace_follows s).mono ?_
      rintro r w₂ ⟨hw₂, rfl⟩
      exact ⟨hw₁.trans hw₂, trivial⟩

theorem doCleanup_follows (hheld : Holds kind w .consumer e) (hn : n ≤ w.raised.length)
    (hmay : ∀ s, w.store.read e = some s → cleanupMustWait s = false ∧
      (s.cleanupPending = true ∨ Handling w e .cleanupLogs)) :
    Follows cfg kind K .consumer (doCleanup e)
      (fun r w' => Touches kind e w w' ∧ match r with
        | .ok _ => w'.store.read e = none
        | .error err => w'.store.read e = w.store.read e ∧
            (∀ s, w.store.read e = some s → Undeleted n w' e s) ∧
            (err ≠ .os → Disturbed cfg n w')) w := by
  refine read_step hheld fun w₁ hw₁ _ => ?_
  have hheld₁ := hw₁.holds e hheld
  refine follows_bind (removeFiles_follows (e := e) (w.store.read e)
    (hn.trans hw₁.mono.raised.length_le)) ?_ ?_
  · rintro u w₂ ⟨hw₂, -⟩
    have hw₀₂ := hw₁.trans hw₂
    have hheld₂ := hw₀₂.holds e hheld
    refine follows_bind (P := fun r w' => Touches kind e w w' ∧ match r with
      | .ok _ => Holds kind w' .consumer e ∧ w'.store.read e = none
      | .error err => w'.store.read e = w.store.read e ∧
          (∀ s, w.store.read e = some s → Undeleted n w' e s) ∧
          (err ≠ .os → Disturbed cfg n w')) ?_ ?_ fun err w' h => h
    · refine follows_call fun w₃ hw₃ hinv => ?_
      have hw₀₃ := hw₀₂.trans hw₃
      have hread₃ : w₃.store.read e = w.store.read e := hw₀₃.read e hheld
      refine ⟨⟨hw₀₃.holds e hheld, fun s hs => ?_⟩, fun x r w₄ _ hp => ?_⟩
      · obtain ⟨hwait, hasked⟩ := hmay s (hread₃ ▸ hs)
        refine ⟨hwait, ?_⟩
        rcases hasked with hpending | hcmd
        · exact .inl hpending
        · exact .inr ((hw₀₃.touches e).handlingCmd hcmd)
      have hmono : Mono w₃ w₄ := Mono.perform hinv hp
      have hn₃ : n ≤ w₃.raised.length := hn.trans hw₀₃.mono.raised.length_le
      have hp' := hp
      rcases AgentWorld.atomically_cases hp with ⟨-, rfl, rfl⟩ | ⟨err, -, -, rfl, rfl⟩
      · refine ⟨(hw₀₃.touches e).trans (.step hmono rfl
          (fun e' hne => StateStore.read_delete_ne _ hne) rfl rfl rfl rfl rfl),
          ?_, StateStore.read_delete_self _ _⟩
        simpa only [Holds] using hw₀₃.holds e hheld
      · refine ⟨(hw₀₃.trans (.note _ _ _)).touches e, hread₃, fun s _ => ?_, fun hos => ?_⟩
        · refine ⟨⟨.delete e, err, false⟩, ?_, .inl rfl⟩
          rw [AgentWorld.note_raised, List.drop_append_of_le_length hn₃]
          exact List.mem_append_right _ (List.mem_singleton_self _)
        · refine disturbed_of_error hp' hn₃ fun _ => ?_
          cases err with
          | os => exact (hos rfl).elim
          | artifactCache _ | wheelCache _ | runner _ | wheelRunner _ _ | scrapyd _ | http
            | timeout | redis | other => rfl
    · rintro u w₃ ⟨htouch, hheld₃, hread₃⟩
      refine follows_call fun w₄ hw₄ hinv => ⟨trivial, fun x r w₅ _ hp => ?_⟩
      have hstep : Rely kind .consumer w₄ w₅ := Rely.silent hinv hp trivial
      have hw₅ := hw₄.trans hstep
      cases hp
      exact ⟨htouch.trans (hw₅.touches e), by rw [hw₅.read e hheld₃, hread₃]⟩
  · rintro err w₂ ⟨hw₂, ⟨s, hs, hfailed⟩, hdisturbed⟩
    have hw₀₂ := hw₁.trans hw₂
    refine ⟨hw₀₂.touches e, hw₀₂.read e hheld, fun s' hs' => ?_, hdisturbed⟩
    obtain rfl := Option.some.inj (hs.symm.trans hs')
    exact hfailed

theorem runDeferredCleanup_follows (hheld : Holds kind w .consumer e)
    (hn : n ≤ w.raised.length)
    (hphase : ∀ s, w.store.read e = some s → s.phase ≠ .started) :
    Follows cfg kind K .consumer (runDeferredCleanup e)
      (fun r w' => (w'.store.read e = none ∨ w'.store.read e = w.store.read e) ∧
        Ends cfg kind e n w (fun _ w' => Tidy n w' e) r w') w := by
  refine read_step hheld fun w₁ hw₁ _ => ?_
  have hheld₁ := hw₁.holds e hheld
  have hn₁ : n ≤ w₁.raised.length := hn.trans hw₁.mono.raised.length_le
  have hread₁ : w₁.store.read e = w.store.read e := hw₁.read e hheld
  have htouch₁ := hw₁.touches e
  cases hread : w.store.read e with
  | none =>
      refine ⟨.inl (hread₁.trans hread), htouch₁, fun s hs => ?_⟩
      rw [hread₁, hread] at hs
      cases hs
  | some s =>
      show Follows cfg kind K .consumer (if s.cleanupPending = false ∨ s.killPending = true ∨
        s.terminalPending = true then _ else _) _ w₁
      by_cases hwait : s.cleanupPending = false ∨ s.killPending = true ∨ s.terminalPending = true
      · rw [if_pos hwait]
        refine ⟨.inr (hread₁.trans hread), htouch₁, fun s' hs' hpending => ?_⟩
        obtain rfl := Option.some.inj ((hread₁.trans hread).symm.trans hs')
        refine .inl ?_
        rcases hwait with hno | hkill | hterminal
        · rw [hno] at hpending
          cases hpending
        · simp [cleanupMustWait, hkill]
        · simp [cleanupMustWait, hterminal]
      rw [if_neg hwait]
      simp only [not_or, Bool.not_eq_false, Bool.not_eq_true] at hwait
      obtain ⟨hpending, hkill, hterminal⟩ := hwait
      have hfree : cleanupMustWait s = false := by
        simp [cleanupMustWait, hkill, hterminal, hphase s hread]
      refine follows_bind (P := fun r w' => Touches kind e w₁ w' ∧ ∃ res, r = .ok res ∧
        match res with
        | .ok _ => w'.store.read e = none
        | .error err => w'.store.read e = some s ∧ Undeleted n w' e s ∧
            (err ≠ .os → Disturbed cfg n w')) ?_ ?_ ?_
      · refine follows_attempt ((doCleanup_follows hheld₁ hn₁ fun s' hs' => ?_).mono ?_)
        · obtain rfl := Option.some.inj ((hread₁.trans hread).symm.trans hs')
          exact ⟨hfree, .inl hpending⟩
        · rintro (err | u) w₂ ⟨htouch, h⟩
          · obtain ⟨hsame, hfailed, hdisturbed⟩ := h
            exact ⟨htouch, _, rfl, by rw [hsame, hread₁, hread],
              hfailed s (by rw [hread₁, hread]), hdisturbed⟩
          · exact ⟨htouch, _, rfl, h⟩
      · rintro res w₂ ⟨htouch, res', hres, hrest⟩
        obtain rfl := Except.ok.inj hres
        have htouch₂ := htouch₁.trans htouch
        rcases res with err | u
        · obtain ⟨hsame, hfailed, hdisturbed⟩ := hrest
          cases err with
          | os =>
              refine ⟨.inr hsame, htouch₂, fun s' hs' _ => .inr ?_⟩
              obtain rfl := Option.some.inj (hsame.symm.trans hs')
              exact hfailed
          | artifactCache _ | wheelCache _ | runner _ | wheelRunner _ _ | scrapyd _ | http
            | timeout | redis | other =>
              exact ⟨.inr hsame, htouch₂, hdisturbed (fun hc => by cases hc)⟩
        · refine ⟨.inl hrest, htouch₂, fun s' hs' => ?_⟩
          rw [show w₂.store.read e = none from hrest] at hs'
          cases hs'
      · rintro err w' ⟨-, _, hc, -⟩
        cases hc

theorem handleCleanup_follows {cmd : AgentCommand} (hheld : Holds kind w .consumer cmd.executionId)
    (hcmd : Handling w cmd.executionId .cleanupLogs) :
    Follows cfg kind K .consumer (handleCleanup cmd)
      (fun _ w' => Touches kind cmd.executionId w w') w := by
  refine read_step hheld fun w₁ hw₁ _ => ?_
  have hheld₁ := hw₁.holds _ hheld
  have hread₁ : w₁.store.read cmd.executionId = w.store.read cmd.executionId := hw₁.read _ hheld
  have hcmd₁ := (hw₁.touches cmd.executionId).handlingCmd hcmd
  by_cases hwait : (w.store.read cmd.executionId).any cleanupMustWait = true
  · rw [if_pos hwait]
    obtain ⟨s, hs, hmust⟩ := (Option.any_eq_true _ _).mp hwait
    refine follows_bind (mark_ends (n := 0) hheld₁ (hread₁.trans hs) (Nat.zero_le _)
      fun w₂ hw₂ => ?_) ?_ ?_
    · exact .cleanupPending hmust ((hw₂.touches cmd.executionId).handlingCmd hcmd₁)
    · rintro _ w₂ ⟨⟨htouch, -⟩, -⟩
      exact (hw₁.touches _).trans htouch
    · rintro _ w₂ ⟨⟨htouch, -⟩, -⟩
      exact (hw₁.touches _).trans htouch
  · rw [if_neg hwait]
    refine (doCleanup_follows (n := 0) hheld₁ (Nat.zero_le _) fun s hs => ?_).mono ?_
    · refine ⟨?_, .inr hcmd₁⟩
      rw [hread₁] at hs
      simpa [hs] using hwait
    · rintro r w₂ ⟨htouch, -⟩
      exact (hw₁.touches _).trans htouch

end Programs

end Agent

end Dopilot
