/-
Dopilot/AgentSystem.lean

The agent as a verified system.

The programs that are left are the waiter of a wheel's child and the recovery,
which has every execution to itself because the loop is not entered yet.  With
them every program the agent starts keeps to the rules, so `Inv` holds in every
state of every run, and what the rules keep is an invariant (`run_invariant`).
-/
import Dopilot.AgentHandlers

namespace Dopilot

namespace Agent

open AgentOp (call ask)

section Programs

variable {cfg : AgentConfig} {kind : ExecutionId → RunnerType} {K : Cond} {w : AgentWorld}
  {e : ExecutionId} {n : Nat} {s : AttemptState}

/-! ### Waiting for a child -/

/-- The child of the execution has ended. -/
def Exited (w : AgentWorld) (child : Nat) (e : ExecutionId) : Prop :=
  ∃ c, w.children.get child = some c ∧ c.executionId = e ∧ c.exited.isSome = true

theorem Exited.mono {w' : AgentWorld} {child : Nat} (h : Exited w child e) (hmono : Mono w w') :
    Exited w' child e := by
  obtain ⟨c, hc, hid, hexited⟩ := h
  obtain ⟨c', hc', hid', hsame⟩ := hmono.children child c hc
  exact ⟨c', hc', hid'.trans hid, by rw [hsame hexited, hexited]⟩

/-- What a waiter records and reports. -/
theorem recordWheel_follows {child : Nat} {t : TaskId} {outcome : WheelOutcome}
    (hkind : kind e = .pythonWheel) (hlock : w.locks e = some (.waiter child))
    (hrunning : w.running = true) (hexited : Exited w child e) :
    Follows cfg kind K (.waiter child)
      (do
        let read : Option AttemptState ← call (.read e)
        match read with
        | none => return ()
        | some s =>
            if s.phase = .done then return ()
            else
              let _ : Option AttemptState ← call (.mark e
                (.done outcome.result none none outcome.reportedExitCode none none))
              emit cfg { event t e outcome.result.eventType with
                exitCode := outcome.reportedExitCode })
      (fun _ w' => w'.locks e = some (.waiter child)) w := by
  have hheld : ∀ {w'}, Rely kind (.waiter child) w w' → Holds kind w' (.waiter child) e :=
    fun hw' => ⟨hkind, hw'.lock e hlock, hw'.running hrunning⟩
  have hnotLost : outcome.result ≠ .lost := by
    unfold WheelOutcome.result
    split
    · exact fun hc => by cases hc
    · split
      · exact fun hc => by cases hc
      · exact fun hc => by cases hc
  refine follows_bind (P := fun r w' => Rely kind (.waiter child) w w' ∧ ∃ read, r = .ok read ∧
    w'.store.read e = read ∧ ∀ s, read = some s → Sound (kind e) e s) ?_ ?_ ?_
  · refine follows_call fun w₁ hw₁ hinv => ⟨trivial, fun x r w₂ _ hp => ?_⟩
    cases hp
    exact ⟨hw₁, _, rfl, rfl, hinv.sound e⟩
  · rintro read w₁ ⟨hw₁, read', hr, hread₁, hsound⟩
    obtain rfl := Except.ok.inj hr
    rcases read with - | s
    · exact hw₁.lock e hlock
    show Follows cfg kind K (.waiter child) (if s.phase = .done then _ else _) _ w₁
    by_cases hdone : s.phase = .done
    · rw [if_pos hdone]
      exact hw₁.lock e hlock
    rw [if_neg hdone]
    have hs := hsound s rfl
    have hheld₁ := hheld hw₁
    refine follows_bind (P := fun r w' => w'.locks e = some (.waiter child) ∧
      (∀ a, r = .ok a → w'.running = true ∧ w'.store.read e = some ((Mark.done outcome.result none
        none outcome.reportedExitCode none none).apply s))) ?_ ?_ fun err w' h => h.1
    · refine follows_call fun w₂ hw₂ hinv => ?_
      have hread₂ := (hw₂.read e hheld₁).trans hread₁
      have hw₀₂ := hw₁.trans hw₂
      obtain ⟨c, hc, hown, hgone⟩ := hexited.mono hw₀₂.mono
      refine ⟨⟨hheld hw₀₂, fun s' hs' => ?_⟩, fun x r w₃ _ hp => ?_⟩
      · obtain rfl := Option.some.inj (hread₂.symm.trans hs')
        exact .waited child c _ _ rfl hkind hdone hc hown hgone hnotLost
      · simp only [AgentOp.perform, hread₂] at hp
        rcases AgentWorld.atomically_cases hp with ⟨-, rfl, rfl⟩ | ⟨err, -, -, rfl, rfl⟩
        · refine ⟨hw₀₂.lock e hlock, fun _ _ => ⟨hw₀₂.running hrunning, ?_⟩⟩
          show (w₂.store.mark e _).read e = _
          rw [StateStore.read_mark_self, hread₂]
          rfl
        · exact ⟨hw₀₂.lock e hlock, fun a hc => by cases hc⟩
    · rintro a w₂ ⟨hlock₂, hmarked⟩
      obtain ⟨hrunning₂, hread₂⟩ := hmarked a rfl
      obtain ⟨h₁, h₂, h₃, h₄⟩ := hs.unmeasured hkind
      refine (emit_follows (n := 0) (k := 0) (Nat.zero_le _) (Nat.zero_le _) fun _ w₃ hw₃ => ?_).mono
        fun r w₃ h => h.1.lock e hlock₂
      have hheld₂ : Holds kind w₂ (.waiter child) e := ⟨hkind, hlock₂, hrunning₂⟩
      show Holds kind w₃ (.waiter child) e ∧ Reports kind K w₃ _ (w₃.store.read e)
      rw [hw₃.read e hheld₂, hread₂]
      exact ⟨hw₃.holds e hheld₂, .recorded _ rfl
        ⟨⟨_, rfl, rfl⟩, rfl, h₁.symm, h₂.symm, h₃.symm, h₄.symm⟩⟩
  · rintro err w' ⟨-, _, hc, -⟩
    cases hc

theorem awaitWheel_follows {x : Waiting} (hkind : kind x.executionId = .pythonWheel)
    (hrunning : w.running = true)
    (hchild : ∃ c, w.children.get x.child = some c ∧ c.executionId = x.executionId) :
    Follows cfg kind K (.waiter x.child) (awaitWheel cfg x) (fun _ _ => True) w := by
  refine follows_bind (P := fun r w' => w'.running = true ∧
    ∀ a, r = .ok a → Exited w' x.child x.executionId) ?_ ?_ fun _ _ _ => trivial
  · refine follows_call fun w₁ hw₁ _ => ⟨trivial, fun y r w₂ _ hp => ?_⟩
    obtain ⟨c, hc, hid⟩ := hchild
    obtain ⟨c', hc', hid', -⟩ := hw₁.mono.children x.child c hc
    simp only [AgentOp.perform, hc'] at hp
    obtain ⟨code, hcode, hp⟩ := Option.map_eq_some_iff.mp hp
    cases hp
    exact ⟨hw₁.running hrunning, fun _ _ => ⟨c', hc', hid'.trans hid, by rw [hcode]; rfl⟩⟩
  rintro outcome w₁ ⟨hrunning₁, hexited⟩
  have hexited₁ := hexited outcome rfl
  refine follows_bind (P := fun _ w' => w'.running = true ∧
    w'.locks x.executionId = some (.waiter x.child) ∧ Exited w' x.child x.executionId) ?_ ?_
    fun _ _ _ => trivial
  · refine follows_call fun w₂ hw₂ _ => ⟨⟨rfl, hkind, hw₂.running hrunning₁⟩, fun y r w₃ _ hp => ?_⟩
    have hexited₂ := hexited₁.mono hw₂.mono
    simp only [AgentOp.perform] at hp
    split at hp
    · cases hp
      exact ⟨hw₂.running hrunning₁, Function.update_self _ _ _, hexited₂⟩
    · cases hp
  rintro u w₂ ⟨hrunning₂, hlock, hexited₂⟩
  refine Prog.safe_tryFinally.mpr ((recordWheel_follows hkind hlock hrunning₂ hexited₂).mono ?_)
  intro r w₃ hlock₃
  have hunlock : Follows cfg kind K (.waiter x.child) (call (.unlockWait x.executionId))
      (fun _ _ => True) w₃ :=
    follows_call fun w₄ hw₄ _ => ⟨⟨x.child, rfl, hw₄.lock _ hlock₃, hkind⟩, fun _ _ _ _ _ => trivial⟩
  exact hunlock.mono fun r' _ _ => by cases r' <;> trivial

/-! ### Recovery -/

/-- The loop is not entered, so everything is the consumer's, and no run is in hand. -/
structure Alone (w : AgentWorld) : Prop where
  running : w.running = false
  reserving : w.reserving = none

theorem Alone.goes {w' : AgentWorld} (h : Alone w) (hgoes : Goes kind w w') : Alone w' :=
  ⟨hgoes.running.trans h.running, hgoes.reserving.trans h.reserving⟩

theorem Alone.holds (h : Alone w) (e : ExecutionId) : Holds kind w .consumer e :=
  .inr (.inr h.running)

/-- Reading a state file during the recovery. -/
theorem alone_read {f : Option AttemptState → AgentProg Unit} (h : Alone w)
    (hnone : ∀ w', Alone w' → Follows cfg kind K .consumer (f none) (fun _ w'' => Alone w'') w')
    (hsome : ∀ s w', Alone w' → w'.store.read e = some s → Sound (kind e) e s →
      Follows cfg kind K .consumer (f (some s)) (fun _ w'' => Alone w'') w') :
    Follows cfg kind K .consumer (call (.read e) >>= f) (fun _ w' => Alone w') w := by
  have hheld : Holds kind w .consumer e := h.holds e
  refine read_step hheld fun w₁ hw₁ hinv => ?_
  have h₁ := h.goes hw₁.goes
  cases hread : w.store.read e with
  | none => exact hnone w₁ h₁
  | some s =>
      have hsame := (hw₁.read e hheld).trans hread
      exact hsome s w₁ h₁ hsame (hinv.sound e s hsame)

theorem recoverReserved_follows (ids : List ExecutionId) (h : Alone w) :
    Follows cfg kind K .consumer (recoverReserved cfg ids) (fun _ w' => Alone w') w := by
  induction ids generalizing w with
  | nil => exact h
  | cons e ids ih =>
      refine alone_read h (fun w₁ h₁ => ih h₁) fun s w₁ h₁ hread hs => ?_
      show Follows cfg kind K .consumer (if s.phase = .reserved then _ else _) _ w₁
      by_cases hphase : s.phase = .reserved
      swap
      · rw [if_neg hphase]
        exact ih h₁
      rw [if_pos hphase]
      have hheld₁ : Holds kind w₁ .consumer e := h₁.holds e
      refine follows_bind (emit_follows (n := 0) (k := 0) (Nat.zero_le _) (Nat.zero_le _)
        fun _ w₂ hw₂ => ?_) ?_ fun err w' h' => h₁.goes h'.1.goes
      · show Holds kind w₂ .consumer e ∧ Reports kind K w₂ _ (w₂.store.read e)
        rw [hw₂.read e hheld₁, hread]
        refine ⟨hw₂.holds e hheld₁, .aborted s hphase ?_ ⟨rfl, rfl, rfl, rfl, rfl, rfl⟩⟩
        rw [(h₁.goes hw₂.goes).reserving]
        exact fun hc => by cases hc
      · rintro u w₂ ⟨hw₂, hsince⟩
        have h₂ := h₁.goes hw₂.goes
        refine follows_bind (mark_ends (n := 0) (h₂.holds e) ((hw₂.read e hheld₁).trans hread)
          (Nat.zero_le _) fun w₃ hw₃ => ?_) ?_ ?_
        · exact .aborted hphase (h₂.goes hw₃.goes).reserving (hsince.mono hw₃.mono).reported
        · rintro a w₃ ⟨⟨htouch, -⟩, -⟩
          exact ih (h₂.goes htouch.toGoes)
        · rintro err w₃ ⟨⟨htouch, -⟩, -⟩
          exact h₂.goes htouch.toGoes

/-- A silent operation during the recovery, and what follows it. -/
theorem alone_step {op : AgentOp} {f : op.Res → AgentProg Unit} (h : Alone w) (hop : Silent op)
    (hmay : ∀ w, May cfg kind K .consumer w op)
    (hok : ∀ a w', Rely kind .consumer w w' → Alone w' →
      Follows cfg kind K .consumer (f a) (fun _ w'' => Alone w'') w') :
    Follows cfg kind K .consumer (call op >>= f) (fun _ w' => Alone w') w :=
  follows_bind (quiet_call hop fun w₁ _ => hmay w₁)
    (fun a w' hq => hok a w' hq.1 (h.goes hq.1.goes)) fun _ _ hq => h.goes hq.1.goes

theorem recoverWheels_follows (ids : List ExecutionId) (h : Alone w) :
    Follows cfg kind K .consumer (recoverWheels cfg ids) (fun _ w' => Alone w') w := by
  induction ids generalizing w with
  | nil => exact h
  | cons e ids ih =>
      refine alone_read h (fun w₁ h₁ => ih h₁) fun s w₁ h₁ hread hs => ?_
      refine alone_step h₁ trivial (fun _ => trivial) fun inproc w₂ hw₂ h₂ => ?_
      have hread₂ := (hw₂.read e (h₁.holds e)).trans hread
      show Follows cfg kind K .consumer (if s.runnerType ≠ .pythonWheel ∨ s.phase ≠ .started ∨
        inproc = true then _ else _) _ w₂
      split
      · exact ih h₂
      rename_i hours
      simp only [ne_eq, not_or, not_not] at hours
      obtain ⟨hwheel, hphase, -⟩ := hours
      have hkind : kind e = .pythonWheel := hs.runnerType.symm.trans hwheel
      refine follows_bind (P := Quiet kind w₂ fun _ _ => True) ?_ ?_
        fun _ _ hq => h₂.goes hq.1.goes
      · unfold killOrphan
        cases s.pgid with
        | none => exact ⟨.refl _ w₂, fun _ _ => trivial⟩
        | some pgid =>
            have hcall : Follows cfg kind K .consumer (call (.terminatePgid pgid)) _ w₂ :=
              quiet_call trivial fun _ _ => trivial
            exact hcall.mono fun _ _ hq => ⟨hq.1, fun _ _ => trivial⟩
      rintro u w₃ ⟨hw₃, -⟩
      have h₃ := h₂.goes hw₃.goes
      refine follows_bind (mark_ends (n := 0) (h₃.holds e) ((hw₃.read e (h₂.holds e)).trans hread₂)
        (Nat.zero_le _) fun w₄ hw₄ => ?_) ?_ ?_
      · exact .orphaned hkind hphase (h₃.goes hw₄.goes).running
      · rintro a w₄ ⟨⟨htouch, -, hread₄⟩, -⟩
        have h₄ := h₃.goes htouch.toGoes
        obtain ⟨g₁, g₂, g₃, g₄⟩ := hs.unmeasured hkind
        refine follows_bind (emit_follows (n := 0) (k := 0) (Nat.zero_le _) (Nat.zero_le _)
          fun _ w₅ hw₅ => ?_) ?_ fun err w' h' => h₄.goes h'.1.goes
        · show Holds kind w₅ .consumer e ∧ Reports kind K w₅ _ (w₅.store.read e)
          rw [hw₅.read e (h₄.holds e), hread₄]
          exact ⟨hw₅.holds e (h₄.holds e), .recorded _ rfl
            ⟨⟨.lost, rfl, rfl⟩, rfl, g₁.symm, g₂.symm, g₃.symm, g₄.symm⟩⟩
        · rintro v w₅ ⟨hw₅, -⟩
          exact ih (h₄.goes hw₅.goes)
      · rintro err w₄ ⟨⟨htouch, -⟩, -⟩
        exact h₃.goes htouch.toGoes

theorem recover_follows (h : Alone w) :
    Follows cfg kind K .consumer (recover cfg) (fun _ w' => Alone w') w := by
  refine alone_step h trivial (fun _ => trivial) fun _ w₁ _ h₁ => ?_
  refine calm_bind (n := 0) (replayOutbox_follows (Nat.zero_le _))
    (fun _ w₂ hw₂ _ => ?_) fun _ w₂ hw₂ _ => h₁.goes hw₂.goes
  refine alone_step (h₁.goes hw₂.goes) trivial (fun _ => trivial) fun ids w₃ _ h₃ => ?_
  refine follows_bind (recoverReserved_follows ids h₃) ?_ fun _ _ h => h
  intro _ w₄ h₄
  exact alone_step h₄ trivial (fun _ => trivial) fun ids w₅ _ h₅ => recoverWheels_follows ids h₅

theorem agentBoot_follows (h : Alone w) :
    Follows cfg kind K .consumer (agentBoot cfg) (fun _ _ => True) w := by
  refine follows_bind (P := fun _ w' => Alone w') ?_ ?_ fun _ _ _ => trivial
  · refine Prog.safe_tryCatch.mpr ((recover_follows h).mono ?_)
    rintro (err | u) w' h'
    · exact h'
    · exact h'
  · intro _ w₁ _
    exact follows_call fun _ _ _ => ⟨rfl, fun _ _ _ _ _ => trivial⟩

end Programs

/-! ### The system -/

section System

variable {cfg : AgentConfig} {kind : ExecutionId → RunnerType} {K : Cond}

/-- Every program the agent starts keeps to the rules. -/
theorem launch_follows {w : AgentWorld} (h : Inv cfg kind w) {i : Proc} {inp : Launch}
    {p : AgentProg Unit} (hp : launch cfg kind w i inp = some p) :
    Follows cfg kind K i p (fun _ _ => True) w := by
  cases i with
  | consumer =>
      cases inp with
      | boot =>
          simp only [launch] at hp
          split at hp
          · cases hp
          · rename_i hrunning
            obtain rfl := Option.some.inj hp
            have hrunning : w.running = false := by simpa using hrunning
            exact agentBoot_follows ⟨hrunning, (h.asleep hrunning).2⟩
      | tick =>
          simp only [launch] at hp
          split at hp
          · obtain rfl := Option.some.inj hp
            exact (agentTick_follows h.processed).mono fun _ _ _ => trivial
          · cases hp
      | command cmd =>
          simp only [launch] at hp
          split at hp
          · rename_i hcmd
            obtain rfl := Option.some.inj hp
            exact processCommand_follows hcmd.1 hcmd.2
          · cases hp
      | wait => cases hp
  | waiter n =>
      cases inp with
      | wait =>
          obtain ⟨x, hx, rfl⟩ := Option.map_eq_some_iff.mp hp
          obtain ⟨hkind, hrunning, hchild⟩ := h.waiting x (List.mem_of_find?_eq_some hx)
          have hn : x.child = n := by simpa using List.find?_some hx
          rw [← hn]
          exact awaitWheel_follows hkind hrunning hchild
      | boot | tick | command cmd => cases hp

/-- **The agent is verified**: whatever is started, it keeps to the rules. -/
def verified (cfg : AgentConfig) (kind : ExecutionId → RunnerType) (K : Cond) :
    Sys.Verified (spec cfg kind) K where
  Inv := Inv cfg kind
  Idle _ _ := True
  rely := Rely kind
  guar := guar cfg kind K
  rely_refl := Rely.refl
  rely_trans _ _ _ _ := Rely.trans
  env_step w m w' h _ hm := by
    obtain rfl := Option.some.inj hm
    exact move_step h m
  launch_safe _ _ _ _ h _ _ hp := launch_follows h hp
  guar_step _ _ _ := guar_step
  idle_stable _ _ _ _ _ := trivial
  crash_step _ h _ := ⟨h.crash, fun _ => trivial⟩

/-- Nothing has happened yet, so everything is in order. -/
theorem good_start : (verified cfg kind K).Good start := ⟨Inv.empty, fun _ => trivial⟩

/-- What is known in every state of every run. -/
theorem good_of_run {s : State} (h : StateMachine.RunOk (step cfg kind) K.Holds start s) :
    (verified cfg kind K).Good s := (verified cfg kind K).run h good_start

/-- **The rule for invariants of the agent.**  What the rules keep, whatever
moves beside the processes and whenever the agent dies, holds in every run. -/
theorem run_invariant {J : AgentWorld → Prop} (hempty : J .empty)
    (hmove : ∀ w m, Inv cfg kind w → J w → K.env w m → J (w.move m))
    (hop : ∀ i op x r w w', Inv cfg kind w → J w → K.op op x w → May cfg kind K i w op →
      AgentOp.perform cfg op x w = some (r, w') → J w')
    (hcrash : ∀ w, Inv cfg kind w → J w → K.crash w → J w.crash) {s : State}
    (h : StateMachine.RunOk (step cfg kind) K.Holds start s) : J s.world := by
  refine ((verified cfg kind K).run_with ?_ ?_ hcrash h good_start hempty).2
  · rintro w m w' hinv hj hK hm
    obtain rfl := Option.some.inj hm
    exact hmove w m hinv hj hK
  · rintro i w w' hinv hj ⟨op, x, r, hK, hp, hmay⟩
    exact hop i op x r w w' hinv hj hK hmay hp

end System

/-! ### What becomes of a state file -/

section Files

variable {cfg : AgentConfig} {kind : ExecutionId → RunnerType} {K : Cond} {i : Owner}
  {w w' : AgentWorld}

/-- What an operation that the rules allow makes of the state file of an execution. -/
inductive FileStep (cfg : AgentConfig) (kind : ExecutionId → RunnerType) (K : Cond) (i : Owner)
    (w : AgentWorld) (e : ExecutionId) : Option AttemptState → Option AttemptState → Prop
  | same (f : Option AttemptState) : FileStep cfg kind K i w e f f
  | created (s : AttemptState) (hs : Sound (kind e) e s) (hphase : s.phase = .reserved)
      (hcmd : Handling w e .run) : FileStep cfg kind K i w e none (some s)
  | marked (m : Mark) (s : AttemptState) (hheld : Holds kind w i e)
      (hm : MayMark cfg kind K i w e s m) : FileStep cfg kind K i w e (some s) (some (m.apply s))
  | deleted (s : AttemptState) (hfree : cleanupMustWait s = false)
      (hasked : s.cleanupPending = true ∨ Handling w e .cleanupLogs) :
      FileStep cfg kind K i w e (some s) none

theorem fileStep_of_store {e : ExecutionId} (h : w'.store = w.store) :
    FileStep cfg kind K i w e (w.store.read e) (w'.store.read e) := by
  rw [h]
  exact .same _

theorem fileStep_of_effect {op : AgentOp} {x : AgentAnswer} (hmay : May cfg kind K i w op)
    (heffect : Effect cfg x w op w') (e : ExecutionId) :
    FileStep cfg kind K i w e (w.store.read e) (w'.store.read e) := by
  cases heffect with
  | created s store hstore =>
      obtain ⟨-, -, hcmd, hs⟩ := hmay
      have hread := StateStore.read_createReserved hstore e
      show FileStep cfg kind K i w e (w.store.read e) (store.read e)
      rw [hread]
      by_cases he : e = s.executionId
      · rw [if_pos he]
        have hnone : w.store.read e = none := by
          cases hget : w.store.read e with
          | none => rfl
          | some s' =>
              unfold StateStore.createReserved at hstore
              rw [← he, show w.store.get e = some s' from hget] at hstore
              cases hstore
        rw [hnone, he]
        exact .created _ hs rfl hcmd
      · rw [if_neg he]
        exact .same _
  | marked e' m s hread =>
      show FileStep cfg kind K i w e (w.store.read e) ((w.store.mark e' m).read e)
      by_cases he : e = e'
      · subst he
        rw [StateStore.read_mark_self, hread]
        exact .marked m s hmay.1 (hmay.2 s hread)
      · rw [StateStore.read_mark_ne _ _ he]
        exact .same _
  | deleted e' =>
      show FileStep cfg kind K i w e (w.store.read e) ((w.store.delete e').read e)
      by_cases he : e = e'
      · subst he
        rw [StateStore.read_delete_self]
        cases hread : w.store.read e with
        | none => exact .same _
        | some s =>
            obtain ⟨hfree, hasked⟩ := hmay.2 s hread
            exact .deleted s hfree hasked
      · rw [StateStore.read_delete_ne _ he]
        exact .same _
  | _ => exact fileStep_of_store rfl

/-- **What one operation makes of a state file.** -/
theorem fileStep {op : AgentOp} {x : AgentAnswer} {r : Except AgentError op.Res}
    (hmay : May cfg kind K i w op) (hp : op.perform cfg x w = some (r, w')) (e : ExecutionId) :
    FileStep cfg kind K i w e (w.store.read e) (w'.store.read e) := by
  obtain ⟨w₁, heffect, rfl | ⟨y, rfl⟩⟩ := perform_leads hp
  · exact fileStep_of_effect hmay heffect e
  · exact fileStep_of_effect hmay heffect e

/-- **What one operation emits**: nothing, or one event that the rules allow, and then
no state file changes. -/
theorem emitted_step {op : AgentOp} {x : AgentAnswer} {r : Except AgentError op.Res}
    (hmay : May cfg kind K i w op) (hp : op.perform cfg x w = some (r, w')) :
    w'.emitted = w.emitted ∨
      w'.store = w.store ∧ ∃ ev, w'.emitted = w.emitted ++ [ev] ∧ MayEmit kind K i w ev := by
  obtain ⟨w₁, heffect, hw'⟩ := perform_leads hp
  have hstep : w₁.emitted = w.emitted ∨
      w₁.store = w.store ∧ ∃ ev, w₁.emitted = w.emitted ++ [ev] ∧ MayEmit kind K i w ev := by
    cases heffect with
    | persisted ev houtbox => exact .inr ⟨rfl, ev, rfl, hmay⟩
    | sent ev houtbox =>
        refine .inr ⟨rfl, ev, rfl, hmay.resolve_left fun hc => ?_⟩
        rw [hc] at houtbox
        cases houtbox
    | _ => exact .inl rfl
  rcases hw' with rfl | ⟨y, rfl⟩
  · exact hstep
  · exact hstep

end Files

/-! ### Samples -/

/-- Both runners, an outbox without a cap, and a deadline for stops. -/
def sampleConfig : AgentConfig where
  agentId := 1
  eventOutbox := true
  maxOutboxFiles := 0
  artifactCache := true
  wheelCache := true
  wheelRunner := true
  maxJobLogBytes := 0
  floodKillAfter := 10
  stopKillAfter := 10
  stopConfirmTimeout := 60
  killRetryInterval := 30
  cachePolls := 3
  parseScrapyCommand _ := .ok { spider := "spider" }

def sampleRun : AgentCommand where
  commandId := 1
  type := .run
  agentId := 1
  taskId := 1
  executionId := 7
  payload := { artifact := some { project := "project" } }

def sampleCancel : AgentCommand :=
  { sampleRun with commandId := 2, type := .stop, intent := some .cancel }

def sampleReclaim : AgentCommand :=
  { sampleRun with commandId := 3, type := .stop, intent := some .reclaim }

/-- The consumer runs a program of `n` operations, which are all answered alike. -/
def runs (inp : Launch) (n : Nat) (x : AgentAnswer := {}) : List Action :=
  .start .consumer inp :: List.replicate n (.op .consumer fun _ => x)

/-- The agent starts, and runs a job. -/
def sampleStarted : List Action := runs .boot 5 ++ runs (.command sampleRun) 15

end Agent

end Dopilot
