/-
Dopilot/RunsEnd.lean

Where the handling of a run command leaves its execution.

The command is accepted once its state file is reserved, and from there every
way out either promotes the file or marks it done and reports it, provided the
exception that led there is one the handler foresees: the errors of the caches,
of the runners and of the stream.  Any other exception is swallowed by
`_process`, and the attempt stays reserved.  `foreseen` says which exceptions
are harmless where, and `run_ends` that these are exactly the ones after which
the attempt is started, or done and reported, or was never accepted.
-/
import Dopilot.AgentCommands

namespace Dopilot

open AgentOp (call ask)

namespace RunsEnd

/-! ### The property -/

/-- The events emitted for the attempt that is there after the handling. -/
def attemptEvents (w w' : AgentWorld) (e : ExecutionId) : List AgentEvent :=
  if (w.store.read e).isSome then w'.emitted else w'.emitted.drop w.emitted.length

/-- The execution has no state and was not accepted, or it is started, or it is
done and its terminal was emitted. -/
def Ended (w w' : AgentWorld) (e : ExecutionId) : Prop :=
  match w'.store.read e with
  | none => ∀ ev ∈ attemptEvents w w' e, ¬ (ev.executionId = e ∧ ev.type = .accepted)
  | some s => s.phase = .started ∨ s.phase = .done ∧ ∃ result, s.result = some result ∧
      ∃ ev ∈ attemptEvents w w' e, ev.executionId = e ∧ ev.type = result.eventType

/-- What was raised since. -/
def raisedSince (w w' : AgentWorld) : List Raised := w'.raised.drop w.raised.length

/-- An exception that the handling of a run foresees, or that does no harm where
it falls: before the state file is reserved, or after it is promoted. -/
def foreseen (cfg : AgentConfig) (cmd : AgentCommand) (x : Raised) : Bool :=
  match x.op, x.error with
  | .createReserved _, _ => true
  | .validate _, _ => cmd.taskType == .pythonWheel
  | .persist ev, _ => ev.type == .running || ev.type == .lost
  | .xadd ev, _ =>
      cfg.eventOutbox || ev.type == .running || ev.type == .lost || (ev.type == .failed && x.late)
  | .unlinkEvent ev, _ => ev.type != .accepted
  | .schedule .., .scrapyd _ => true
  | .wheelStart .., .wheelRunner .. => true
  | .cache _ .touchReady, .os => true
  | .cache _ .fetch, .http => true
  | .cache _ .addversion, .scrapyd _ => true
  | .cache _ .launchPip, .os => true
  | .cache _ .waitPip, .timeout => true
  | _, _ => false

/-! ### Programs that run alone -/

/-- What a program that runs alone leads to, whatever it is answered. -/
abbrev Alone (cfg : AgentConfig) {α : Type} (p : AgentProg α)
    (Q : Except AgentError α → AgentWorld → Prop) (w : AgentWorld) : Prop :=
  p.Safe { perform := AgentOp.perform cfg } Prog.Contract.alone Q w

section Rules

variable {cfg : AgentConfig} {cmd : AgentCommand} {w : AgentWorld} {α β : Type}

theorem alone_call {op : AgentOp} {Q : Except AgentError op.Res → AgentWorld → Prop}
    (h : ∀ x r w', op.perform cfg x w = some (r, w') → Q r w') : Alone cfg (call op) Q w := by
  refine Prog.safe_call.mpr ?_
  rintro _ rfl x r w' - hp
  exact ⟨trivial, h x r w' hp⟩

theorem alone_ask {op : AgentOp} {Q : Except AgentError (Except AgentError op.Res) →
      AgentWorld → Prop}
    (h : ∀ x r w', op.perform cfg x w = some (r, w') → Q (.ok r) w') : Alone cfg (ask op) Q w := by
  refine Prog.safe_ask.mpr ?_
  rintro _ rfl x r w' - hp
  exact ⟨trivial, h x r w' hp⟩

/-- Sequencing, with an assertion in between. -/
theorem alone_bind {p : AgentProg α} {f : α → AgentProg β}
    {P : Except AgentError α → AgentWorld → Prop} {Q : Except AgentError β → AgentWorld → Prop}
    (hp : Alone cfg p P w) (hok : ∀ a w', P (.ok a) w' → Alone cfg (f a) Q w')
    (herr : ∀ err w', P (.error err) w' → Q (.error err) w') : Alone cfg (p >>= f) Q w := by
  refine Prog.safe_bind.mpr (hp.mono fun r w' hr => ?_)
  cases r with
  | ok a => exact hok a w' hr
  | error err => exact herr err w' hr

/-- The first operation of a program, its error raised. -/
theorem alone_call_bind {op : AgentOp} {f : op.Res → AgentProg β}
    {Q : Except AgentError β → AgentWorld → Prop}
    (h : ∀ x r w', op.perform cfg x w = some (r, w') → match r with
      | .ok a => Alone cfg (f a) Q w'
      | .error err => Q (.error err) w') : Alone cfg (call op >>= f) Q w := by
  refine alone_bind (P := fun r w' => match r with
    | .ok a => Alone cfg (f a) Q w'
    | .error err => Q (.error err) w') (alone_call h) ?_ ?_
  · exact fun a w' ha => ha
  · exact fun err w' herr => herr

/-- The first operation of a program that looks at its error. -/
theorem alone_ask_bind {op : AgentOp} {k : Except AgentError op.Res → AgentProg β}
    {Q : Except AgentError β → AgentWorld → Prop}
    (h : ∀ x r w', op.perform cfg x w = some (r, w') → Alone cfg (k r) Q w') :
    Alone cfg (ask op >>= k) Q w := by
  rintro _ rfl x r w' - hp
  exact ⟨trivial, h x r w' hp⟩

/-! ### The caches -/

/-- The cache's own errors. -/
def CacheError (cmd : AgentCommand) : AgentError → Prop
  | .artifactCache _ => cmd.taskType = .scrapy
  | .wheelCache _ => cmd.taskType = .pythonWheel
  | _ => False

/-- What a step of a cache leads to: nothing but notes of exceptions, all of them
foreseen unless another error than the cache's own comes out. -/
def Careful (cfg : AgentConfig) (cmd : AgentCommand) (w : AgentWorld) :
    Except AgentError α → AgentWorld → Prop := fun r w' =>
  ∃ new, w' = { w with raised := w.raised ++ new } ∧
    match r with
    | .ok _ => new.all (foreseen cfg cmd) = true
    | .error err => (CacheError cmd err ∧ new.all (foreseen cfg cmd) = true) ∨
        (¬ CacheError cmd err ∧ new.all (foreseen cfg cmd) = false)

theorem cacheError_foreign {err : AgentError} (h : err.foreign = true) : ¬ CacheError cmd err := by
  cases err with
  | artifactCache _ | wheelCache _ | runner _ => cases h
  | wheelRunner _ _ | scrapyd _ | http | timeout | redis | os | other => exact id

/-- `p` is careful wherever it starts. -/
abbrev IsCareful (cfg : AgentConfig) (cmd : AgentCommand) (p : AgentProg α) : Prop :=
  ∀ w, Alone cfg p (Careful cfg cmd w) w

theorem careful_ret (a : α) : IsCareful cfg cmd (.ret a) :=
  fun w => ⟨[], by rw [List.append_nil], rfl⟩

theorem careful_raise {err : AgentError} (h : CacheError cmd err) :
    IsCareful cfg cmd (.raise err : AgentProg α) :=
  fun w => ⟨[], by rw [List.append_nil], .inl ⟨h, rfl⟩⟩

/-- What a careful part leads to, seen from where an earlier one started. -/
theorem Careful.after {new : List Raised} {r : Except AgentError α} {w' : AgentWorld}
    (hnew : new.all (foreseen cfg cmd) = true)
    (h : Careful cfg cmd { w with raised := w.raised ++ new } r w') : Careful cfg cmd w r w' := by
  obtain ⟨new', rfl, hr⟩ := h
  refine ⟨new ++ new', by simp only [List.append_assoc], ?_⟩
  cases r with
  | ok a => simpa [List.all_append, hnew] using hr
  | error err => simpa [List.all_append, hnew] using hr

theorem careful_bind {p : AgentProg α} {f : α → AgentProg β} (hp : IsCareful cfg cmd p)
    (hf : ∀ a, IsCareful cfg cmd (f a)) : IsCareful cfg cmd (p >>= f) := by
  intro w
  refine alone_bind (hp w) ?_ ?_
  · rintro a _ ⟨new, rfl, hnew⟩
    exact (hf a _).mono fun r w' hr => hr.after hnew
  · rintro err _ ⟨new, rfl, herr⟩
    exact ⟨new, rfl, herr⟩

/-- A step whose answer is looked at: what is foreseen is dealt with, what is not
comes out as it is. -/
theorem careful_ask {hash : String} {step : CacheStep}
    {k : Except AgentError Bool → AgentProg α} (hok : ∀ b, IsCareful cfg cmd (k (.ok b)))
    (herr : ∀ err, err.foreign = true →
      (∀ late, foreseen cfg cmd ⟨.cache hash step, err, late⟩ = true) ∧
          IsCareful cfg cmd (k (.error err)) ∨
        (∀ late, foreseen cfg cmd ⟨.cache hash step, err, late⟩ = false) ∧
          k (.error err) = .raise err) :
    IsCareful cfg cmd (ask (.cache hash step) >>= k) := by
  intro w
  refine alone_bind (P := fun r w' => ∃ b : Except AgentError Bool, r = .ok b ∧
    Alone cfg (k b) (Careful cfg cmd w) w') (alone_ask fun x r w' hp => ⟨r, rfl, ?_⟩) ?_ ?_
  · rcases AgentWorld.fallible_cases hp with ⟨-, rfl, rfl⟩ | ⟨err, -, hforeign, rfl, rfl⟩
    · exact hok x.flag _
    · have hbase : (if x.late then w else w) = w := ite_self w
      rw [hbase]
      rcases herr err hforeign with ⟨hfine, hk⟩ | ⟨hbad, hk⟩
      · refine (hk (w.note ⟨.cache hash step, err, x.late⟩)).mono fun r' w' hr => ?_
        have hnew : [(⟨.cache hash step, err, x.late⟩ : Raised)].all (foreseen cfg cmd) = true := by
          simp [hfine x.late]
        exact Careful.after hnew hr
      · rw [hk]
        exact ⟨[_], rfl, .inr ⟨cacheError_foreign hforeign, by simp [hbad x.late]⟩⟩
  · rintro b w' ⟨b', hb, hk⟩
    obtain rfl := Except.ok.inj hb
    exact hk
  · rintro err w' ⟨b, hb, -⟩
    cases hb

/-- A step none of whose exceptions is foreseen. -/
theorem careful_call {hash : String} {step : CacheStep}
    (h : ∀ err late, foreseen cfg cmd ⟨.cache hash step, err, late⟩ = false) :
    IsCareful cfg cmd (call (.cache hash step)) := by
  intro w
  refine alone_call fun x r w' hp => ?_
  rcases AgentWorld.fallible_cases hp with ⟨-, rfl, rfl⟩ | ⟨err, -, hforeign, rfl, rfl⟩
  · exact ⟨[], by rw [List.append_nil], rfl⟩
  · refine ⟨[⟨.cache hash step, err, x.late⟩], ?_, .inr ⟨cacheError_foreign hforeign, ?_⟩⟩
    · rw [ite_self]
      rfl
    · simp [h err x.late]

/-- What giving back a lock leads to: nothing, or another error than the cache's. -/
def Released (cfg : AgentConfig) (cmd : AgentCommand) (w : AgentWorld) :
    Except AgentError Unit → AgentWorld → Prop := fun r w' =>
  ∃ new, w' = { w with raised := w.raised ++ new } ∧
    match r with
    | .ok _ => new = []
    | .error err => ¬ CacheError cmd err ∧ new.all (foreseen cfg cmd) = false

theorem careful_finally {p : AgentProg α} {f : AgentProg Unit} (hp : IsCareful cfg cmd p)
    (hf : ∀ w, Alone cfg f (Released cfg cmd w) w) : IsCareful cfg cmd (p.tryFinally f) := by
  intro w
  refine Prog.safe_tryFinally.mpr ((hp w).mono ?_)
  rintro r _ ⟨new, rfl, hr⟩
  refine (hf _).mono ?_
  rintro r' _ ⟨new', rfl, hr'⟩
  cases r' with
  | ok _ =>
      obtain rfl : new' = [] := hr'
      exact ⟨new, by rw [List.append_nil], hr⟩
  | error err =>
      refine ⟨new ++ new', by rw [List.append_assoc], .inr ⟨hr'.1, ?_⟩⟩
      rw [List.all_append, hr'.2, Bool.and_false]

theorem careful_throw {err : AgentError} (h : CacheError cmd err) :
    IsCareful cfg cmd (throw err : AgentProg α) := careful_raise h

theorem careful_return (a : α) : IsCareful cfg cmd (return a : AgentProg α) := careful_ret a

theorem fetchEgg_careful (hkind : cmd.taskType = .scrapy) (hash : String) :
    IsCareful cfg cmd (fetchEgg hash) := by
  refine careful_bind (careful_call fun _ _ => rfl) fun _ => careful_ask (fun _ => ?_) ?_
  · refine careful_bind (careful_call fun _ _ => rfl) fun _ => ?_
    refine careful_bind (careful_call fun _ _ => rfl) fun good => ?_
    by_cases hgood : good = true
    · rw [if_pos hgood]
      exact careful_bind (careful_call fun _ _ => rfl) fun _ => careful_return ()
    · rw [if_neg hgood]
      exact careful_bind (careful_call fun _ _ => rfl) fun _ => careful_throw hkind
  · intro err hforeign
    cases err with
    | http => exact .inl ⟨fun _ => rfl, careful_throw hkind⟩
    | artifactCache _ | wheelCache _ | runner _ => cases hforeign
    | wheelRunner _ _ | scrapyd _ | timeout | redis | os | other => exact .inr ⟨fun _ => rfl, rfl⟩

theorem deployEgg_careful (hkind : cmd.taskType = .scrapy) (hash : String) :
    IsCareful cfg cmd (deployEgg hash) := by
  refine careful_bind (careful_call fun _ _ => rfl) fun _ => careful_ask (fun _ => ?_) ?_
  · exact careful_return ()
  · intro err hforeign
    cases err with
    | scrapyd _ => exact .inl ⟨fun _ => rfl, careful_throw hkind⟩
    | artifactCache _ | wheelCache _ | runner _ => cases hforeign
    | wheelRunner _ _ | http | timeout | redis | os | other => exact .inr ⟨fun _ => rfl, rfl⟩

theorem fetchVerifyDeploy_careful (hkind : cmd.taskType = .scrapy) (hash : String) :
    IsCareful cfg cmd (fetchVerifyDeploy hash) := by
  refine careful_bind (careful_call fun _ _ => rfl) fun cached => ?_
  by_cases hcached : cached = true
  · rw [if_pos hcached]
    exact deployEgg_careful hkind hash
  · rw [if_neg hcached]
    exact careful_bind (fetchEgg_careful hkind hash) fun _ => deployEgg_careful hkind hash

theorem fetchWheel_careful (hkind : cmd.taskType = .pythonWheel) (hash : String) :
    IsCareful cfg cmd (fetchWheel hash) := by
  refine careful_bind (careful_call fun _ _ => rfl) fun _ => careful_ask (fun _ => ?_) ?_
  · refine careful_bind (careful_call fun _ _ => rfl) fun good => ?_
    by_cases hgood : good = true
    · rw [if_pos hgood]
      refine careful_bind (careful_call fun _ _ => rfl) fun _ => ?_
      exact careful_bind (careful_call fun _ _ => rfl) fun _ => careful_return ()
    · rw [if_neg hgood]
      exact careful_throw hkind
  · intro err hforeign
    cases err with
    | http => exact .inl ⟨fun _ => rfl, careful_throw hkind⟩
    | artifactCache _ | wheelCache _ | runner _ => cases hforeign
    | wheelRunner _ _ | scrapyd _ | timeout | redis | os | other => exact .inr ⟨fun _ => rfl, rfl⟩

theorem pipInstall_careful (hkind : cmd.taskType = .pythonWheel) (hash : String) :
    IsCareful cfg cmd (pipInstall hash) := by
  refine careful_ask (fun _ => careful_ask (fun _ => ?_) ?_) ?_
  · refine careful_bind (careful_call fun _ _ => rfl) fun good => ?_
    by_cases hgood : good = true
    · rw [if_pos hgood]
      exact careful_return ()
    · rw [if_neg hgood]
      exact careful_throw hkind
  · intro err hforeign
    cases err with
    | timeout =>
        refine .inl ⟨fun _ => rfl, ?_⟩
        exact careful_bind (careful_call fun _ _ => rfl) fun _ => careful_throw hkind
    | artifactCache _ | wheelCache _ | runner _ => cases hforeign
    | wheelRunner _ _ | scrapyd _ | http | redis | os | other => exact .inr ⟨fun _ => rfl, rfl⟩
  · intro err hforeign
    cases err with
    | os => exact .inl ⟨fun _ => rfl, careful_throw hkind⟩
    | artifactCache _ | wheelCache _ | runner _ => cases hforeign
    | wheelRunner _ _ | scrapyd _ | http | timeout | redis | other =>
        exact .inr ⟨fun _ => rfl, rfl⟩

theorem fetchVerifyInstall_careful (hkind : cmd.taskType = .pythonWheel) (hash : String) :
    IsCareful cfg cmd (fetchVerifyInstall hash) := by
  have hinstall : IsCareful cfg cmd (installWheel hash) :=
    careful_bind (careful_call fun _ _ => rfl) fun _ => pipInstall_careful hkind hash
  refine careful_bind (careful_call fun _ _ => rfl) fun cached => ?_
  by_cases hcached : cached = true
  · rw [if_pos hcached]
    exact hinstall
  · rw [if_neg hcached]
    exact careful_bind (fetchWheel_careful hkind hash) fun _ => hinstall

/-- The lock of an artifact is given back, or an error no cache knows comes out. -/
theorem unlock_alone (hash : String) (w : AgentWorld) :
    Alone cfg
      (do
        let _ ← call (.cache hash .closeLock)
        let _ ← call (.cache hash .unlinkLock)
        return ())
      (Released cfg cmd w) w := by
  have hstep : ∀ (step : CacheStep) (w : AgentWorld),
      (∀ err late, foreseen cfg cmd ⟨.cache hash step, err, late⟩ = false) →
      Alone cfg (call (.cache hash step)) (fun r w' => match r with
        | .ok _ => w' = w
        | .error err => ¬ CacheError cmd err ∧ ∃ new, w' = { w with raised := w.raised ++ new } ∧
            new.all (foreseen cfg cmd) = false) w := by
    intro step w hstep
    refine alone_call fun x r w' hp => ?_
    rcases AgentWorld.fallible_cases hp with ⟨-, rfl, rfl⟩ | ⟨err, -, hforeign, rfl, rfl⟩
    · exact rfl
    · refine ⟨cacheError_foreign hforeign, [⟨.cache hash step, err, x.late⟩], ?_, ?_⟩
      · rw [ite_self]
        rfl
      · simp [hstep err x.late]
  refine alone_bind (hstep .closeLock w fun _ _ => rfl) ?_ ?_
  · rintro _ _ rfl
    refine alone_bind (hstep .unlinkLock _ fun _ _ => rfl) ?_ ?_
    · rintro _ _ rfl
      exact ⟨[], by rw [List.append_nil], rfl⟩
    · rintro err _ ⟨hother, new, rfl, hnew⟩
      exact ⟨new, rfl, hother, hnew⟩
  · rintro err _ ⟨hother, new, rfl, hnew⟩
    exact ⟨new, rfl, hother, hnew⟩

theorem awaitArtifact_careful {hash : String} {obtain_ : AgentProg Unit} {timedOut : AgentError}
    (hobtain : IsCareful cfg cmd obtain_) (htimedOut : CacheError cmd timedOut) (polls : Nat) :
    IsCareful cfg cmd (awaitArtifact hash obtain_ timedOut polls) := by
  induction polls with
  | zero => exact careful_throw htimedOut
  | succ polls ih =>
      refine careful_bind (careful_call fun _ _ => rfl) fun ready => ?_
      by_cases hready : ready = true
      · rw [if_pos hready]
        exact careful_return ()
      · rw [if_neg hready]
        refine careful_bind (careful_call fun _ _ => rfl) fun locked => ?_
        by_cases hlocked : locked = true
        · rw [if_pos hlocked]
          refine careful_finally (careful_bind hobtain fun _ => ?_) (unlock_alone hash)
          exact careful_bind (careful_call fun _ _ => rfl) fun _ => careful_return ()
        · rw [if_neg hlocked]
          refine careful_bind (careful_call fun _ _ => rfl) fun late => ?_
          by_cases hlate : late = true
          · rw [if_pos hlate]
            exact careful_throw htimedOut
          · rw [if_neg hlate]
            exact careful_bind (careful_call fun _ _ => rfl) fun _ => ih

theorem ensureArtifact_careful {hash : String} {obtain_ : AgentProg Unit} {timedOut : AgentError}
    (hobtain : IsCareful cfg cmd obtain_) (htimedOut : CacheError cmd timedOut) :
    IsCareful cfg cmd (ensureArtifact cfg hash obtain_ timedOut) := by
  refine careful_bind (careful_call fun _ _ => rfl) fun _ => ?_
  refine careful_bind (careful_call fun _ _ => rfl) fun ready => ?_
  by_cases hready : ready = true
  · rw [if_pos hready]
    refine careful_ask (fun _ => careful_return ()) fun err hforeign => ?_
    cases err with
    | os => exact .inl ⟨fun _ => rfl, careful_return ()⟩
    | artifactCache _ | wheelCache _ | runner _ => cases hforeign
    | wheelRunner _ _ | scrapyd _ | http | timeout | redis | other =>
        exact .inr ⟨fun _ => rfl, rfl⟩
  · rw [if_neg hready]
    exact awaitArtifact_careful hobtain htimedOut cfg.cachePolls

theorem ensureEgg_careful (hkind : cmd.taskType = .scrapy) (artifact : ArtifactRef) :
    IsCareful cfg cmd (ensureEgg cfg artifact) := by
  unfold ensureEgg
  rcases artifact.hash with - | hash
  · exact careful_throw hkind
  · show IsCareful cfg cmd (if _ then _ else _)
    split
    · exact careful_throw hkind
    · exact ensureArtifact_careful (fetchVerifyDeploy_careful hkind hash) hkind

theorem ensureWheel_careful (hkind : cmd.taskType = .pythonWheel) (artifact : ArtifactRef) :
    IsCareful cfg cmd (ensureWheel cfg artifact) := by
  unfold ensureWheel
  rcases artifact.hash with - | hash
  · exact careful_throw hkind
  · refine careful_bind ?_ fun _ => careful_return _
    exact ensureArtifact_careful (fetchVerifyInstall_careful hkind hash) hkind

end Rules

/-! ### Emitting -/

/-- An exception that does not keep an event from being handed over. -/
def delivered (cfg : AgentConfig) (x : Raised) : Bool :=
  match x.op with
  | .persist _ => false
  | .xadd _ => cfg.eventOutbox || x.late
  | _ => true

/-- What emitting an event leads to. -/
def Emits (cfg : AgentConfig) (cmd : AgentCommand) (ev : AgentEvent) (w : AgentWorld) :
    Except AgentError Unit → AgentWorld → Prop := fun r w' =>
  w'.store = w.store ∧ ∃ sent new,
    w'.emitted = w.emitted ++ sent ∧ w'.raised = w.raised ++ new ∧
    (∀ x ∈ sent, x.executionId = ev.executionId ∧ x.type = ev.type) ∧
    (sent ≠ [] ↔ new.all (delivered cfg) = true) ∧
    (ev.type = .failed → ∀ x ∈ new, foreseen cfg cmd x = delivered cfg x) ∧
    (ev.type = .running ∨ ev.type = .lost → new.all (foreseen cfg cmd) = true) ∧
    (ev.type = .accepted → (new.all (foreseen cfg cmd) = true ↔ ∃ u, r = .ok u))

section Emitting

variable {cfg : AgentConfig} {w : AgentWorld} {ev : AgentEvent}

/-- The event goes to the outbox first. -/
theorem persist_alone (h : cfg.eventOutbox = true) :
    Alone cfg (call (.persist ev)) (fun r w' => w'.store = w.store ∧
      match r with
      | .ok queued => queued = true ∧ w'.emitted = w.emitted ++ [ev] ∧ w'.raised = w.raised
      | .error _ => w'.emitted = w.emitted ∧
          ∃ err late, w'.raised = w.raised ++ [⟨.persist ev, err, late⟩]) w := by
  refine alone_call fun x r w' hp => ?_
  simp only [AgentOp.perform, h, if_true] at hp
  split at hp
  · cases hp
    exact ⟨rfl, rfl, rfl, rfl⟩
  · rename_i err herr
    rcases AgentWorld.fallible_cases hp with ⟨hnone, -, -⟩ | ⟨err', -, -, rfl, rfl⟩
    · rw [herr] at hnone
      cases hnone
    · cases x.late
      · exact ⟨rfl, rfl, err', false, rfl⟩
      · exact ⟨rfl, rfl, err', true, rfl⟩

theorem emit_alone (cmd : AgentCommand) (ev : AgentEvent) (w : AgentWorld) :
    Alone cfg (emit cfg ev) (Emits cfg cmd ev w) w := by
  refine alone_call_bind fun _ r w₁ hp => ?_
  cases hp
  show Alone cfg (call (.persist { ev with eventId := w.nextEvent, agentId := cfg.agentId }) >>= _)
    _ _
  obtain ⟨ev', hev'⟩ : ∃ ev' : AgentEvent,
      ev' = { ev with eventId := w.nextEvent, agentId := cfg.agentId } := ⟨_, rfl⟩
  have hid : ev'.executionId = ev.executionId := by rw [hev']
  have htype : ev'.type = ev.type := by rw [hev']
  have hsent : ∀ x ∈ [ev'], x.executionId = ev.executionId ∧ x.type = ev.type := by
    intro x hx
    obtain rfl := List.mem_singleton.mp hx
    exact ⟨hid, htype⟩
  rw [← hev']
  by_cases houtbox : cfg.eventOutbox = true
  · refine alone_bind (persist_alone houtbox) ?_ ?_
    · rintro _ w₂ ⟨hstore₂, rfl, hemitted₂, hraised₂⟩
      refine alone_ask_bind fun x r w₃ hp => ?_
      simp only [AgentOp.perform, houtbox, if_true] at hp
      rcases AgentWorld.fallible_cases hp with ⟨-, rfl, rfl⟩ | ⟨err, -, -, rfl, rfl⟩
      · refine alone_call fun x r w' hp => ?_
        rcases AgentWorld.atomically_cases hp with ⟨-, rfl, rfl⟩ | ⟨err, -, -, rfl, rfl⟩
        · refine ⟨hstore₂, [ev'], [], hemitted₂, ?_, hsent, by simp, by simp, by simp, by simp⟩
          rw [List.append_nil, ← hraised₂]
        · refine ⟨hstore₂, [ev'], [⟨.unlinkEvent ev', err, false⟩], hemitted₂, ?_, hsent, ?_, ?_,
            ?_, ?_⟩
          · show w₂.raised ++ _ = _
            rw [hraised₂]
          · simp [delivered]
          · intro hfail
            simp [foreseen, delivered, htype, hfail]
          · rintro (hrun | hlost)
            · simp [foreseen, htype, hrun]
            · simp [foreseen, htype, hlost]
          · intro hacc
            simp [foreseen, htype, hacc]
      · -- the event stays in the outbox
        show Emits cfg cmd ev w (.ok ()) _
        refine ⟨?_, [ev'], [⟨.xadd ev', err, x.late⟩], ?_, ?_, hsent, ?_, ?_, ?_, ?_⟩
        · refine Eq.trans (AgentWorld.note_ite_store ?_) hstore₂
          rfl
        · refine Eq.trans (AgentWorld.note_ite_emitted ?_) hemitted₂
          rfl
        · refine Eq.trans (AgentWorld.note_ite_raised ?_) (congrArg (· ++ [_]) hraised₂)
          rfl
        · simp [delivered, houtbox]
        · simp [foreseen, delivered, houtbox]
        · simp [foreseen, houtbox]
        · simp [foreseen, houtbox]
    · rintro err w₂ ⟨hstore₂, hemitted₂, err', late, hraised₂⟩
      refine ⟨hstore₂, [], [⟨.persist ev', err', late⟩], ?_, hraised₂, by simp, ?_, ?_, ?_, ?_⟩
      · rw [hemitted₂, List.append_nil]
      · simp [delivered]
      · intro hfail
        simp [foreseen, delivered, htype, hfail]
      · rintro (hrun | hlost)
        · simp [foreseen, htype, hrun]
        · simp [foreseen, htype, hlost]
      · intro hacc
        simp [foreseen, htype, hacc]
  · -- no outbox: the stream takes the event, or the error comes out
    have houtbox : cfg.eventOutbox = false := by simpa using houtbox
    refine alone_call_bind fun x r w₁ hp => ?_
    simp only [AgentOp.perform, houtbox] at hp
    cases hp
    refine alone_ask_bind fun x r w₂ hp => ?_
    simp only [AgentOp.perform, houtbox] at hp
    rcases AgentWorld.fallible_cases hp with ⟨-, rfl, rfl⟩ | ⟨err, -, -, rfl, rfl⟩
    · exact ⟨rfl, [ev'], [], rfl, (List.append_nil _).symm, hsent, by simp, by simp, by simp,
        fun _ => ⟨fun _ => ⟨(), rfl⟩, fun _ => rfl⟩⟩
    · show Emits cfg cmd ev w (.error err) _
      refine ⟨?_, if x.late then [ev'] else [], [⟨.xadd ev', err, x.late⟩], ?_, ?_, ?_, ?_, ?_, ?_,
        ?_⟩
      · exact AgentWorld.note_ite_store rfl
      · rw [AgentWorld.note_emitted]
        split
        · rfl
        · exact (List.append_nil _).symm
      · exact AgentWorld.note_ite_raised rfl
      · split
        · exact hsent
        · simp
      · cases hlate : x.late
        · simp [delivered, houtbox]
        · simp [delivered]
      · intro hfail
        simp [foreseen, delivered, houtbox, htype, hfail]
      · rintro (hrun | hlost)
        · simp [foreseen, htype, hrun]
        · simp [foreseen, htype, hlost]
      · intro hacc
        simp [foreseen, houtbox, htype, hacc]

end Emitting

/-! ### The handling of a run -/

/-- The state file is reserved, and at most the acceptance is out. -/
def Reserved (cfg : AgentConfig) (cmd : AgentCommand) (w₀ w : AgentWorld) : Prop :=
  (∃ s, w.store.read cmd.executionId = some s ∧ s.phase = .reserved) ∧ ∃ sent new,
    w.emitted = w₀.emitted ++ sent ∧ (∀ ev ∈ sent, ev.type = .accepted) ∧
    w.raised = w₀.raised ++ new ∧ new.all (foreseen cfg cmd) = true

/-- The handling is over, and well over if nothing unforeseen was raised. -/
def Settled (cfg : AgentConfig) (cmd : AgentCommand) (w₀ w : AgentWorld) : Prop :=
  ∃ sent new, w.emitted = w₀.emitted ++ sent ∧ w.raised = w₀.raised ++ new ∧
    (Ended w₀ w cmd.executionId ↔ new.all (foreseen cfg cmd) = true)

/-- How a call of the runner has ended, whose own exception is reported. -/
def Called (cfg : AgentConfig) (cmd : AgentCommand) (w₀ w : AgentWorld) {α : Type} :
    Except AgentError α → Prop
  | .ok _ | .error (.runner _) => Reserved cfg cmd w₀ w
  | .error _ => Settled cfg cmd w₀ w

section Handling

variable {cfg : AgentConfig} {cmd : AgentCommand} {w₀ w : AgentWorld}

theorem all_congr_of_mem {α : Type} {xs : List α} {p q : α → Bool}
    (h : ∀ x ∈ xs, p x = q x) : xs.all p = xs.all q := by
  rw [Bool.eq_iff_iff, List.all_eq_true, List.all_eq_true]
  exact forall₂_congr fun x hx => by rw [h x hx]

theorem not_ended_of_reserved {w' : AgentWorld} {e : ExecutionId} {s : AttemptState}
    (hread : w'.store.read e = some s) (hphase : s.phase = .reserved) : ¬ Ended w w' e := by
  intro h
  simp only [Ended, hread, hphase] at h
  rcases h with h | ⟨h, -⟩
  · cases h
  · cases h

theorem ended_of_started {w' : AgentWorld} {e : ExecutionId} {s : AttemptState}
    (hread : w'.store.read e = some s) (hphase : s.phase = .started) : Ended w w' e := by
  simp only [Ended, hread]
  exact .inl hphase

/-- Where an unforeseen exception leaves a reserved attempt. -/
theorem Reserved.stuck {w' : AgentWorld} {new : List Raised} (h : Reserved cfg cmd w₀ w)
    (hstore : w'.store = w.store) (hemitted : w'.emitted = w.emitted)
    (hraised : w'.raised = w.raised ++ new) (hnew : new.all (foreseen cfg cmd) = false) :
    Settled cfg cmd w₀ w' := by
  obtain ⟨⟨s, hread, hphase⟩, sent, old, hsent, -, hold, -⟩ := h
  refine ⟨sent, old ++ new, hemitted.trans hsent, ?_, ?_⟩
  · rw [hraised, hold, List.append_assoc]
  · rw [List.all_append, hnew, Bool.and_false]
    refine ⟨fun hended => ?_, fun hc => by cases hc⟩
    exact (not_ended_of_reserved (hstore ▸ hread) hphase hended).elim

/-- A mark, where the state is known. -/
theorem mark_alone {e : ExecutionId} {m : Mark} {s : AttemptState}
    (hread : w.store.read e = some s) :
    Alone cfg (call (.mark e m)) (fun r w' => w'.emitted = w.emitted ∧
      match r with
      | .ok s' => s' = some (m.apply s) ∧ w'.store = w.store.mark e m ∧ w'.raised = w.raised
      | .error _ => w'.store = w.store ∧
          ∃ err late, w'.raised = w.raised ++ [⟨.mark e m, err, late⟩]) w := by
  refine alone_call fun x r w' hp => ?_
  simp only [AgentOp.perform, hread] at hp
  rcases AgentWorld.atomically_cases hp with ⟨-, rfl, rfl⟩ | ⟨err, -, -, rfl, rfl⟩
  · exact ⟨rfl, rfl, rfl, rfl⟩
  · exact ⟨rfl, rfl, err, false, rfl⟩

theorem failRun_alone (hfresh : w₀.store.read cmd.executionId = none) (h : Reserved cfg cmd w₀ w)
    (errorCode : String) (detail : Detail) (lostReason : Option LostReason) :
    Alone cfg (failRun cfg cmd errorCode detail lostReason) (fun _ => Settled cfg cmd w₀) w := by
  obtain ⟨⟨s, hread, hphase⟩, sent, old, hsent, hacc, hold, hfine⟩ := id h
  refine alone_bind (mark_alone hread) ?_ ?_
  · rintro s' w₁ ⟨hemitted₁, -, hstore₁, hraised₁⟩
    refine (emit_alone cmd _ w₁).mono ?_
    rintro r w₂ ⟨hstore₂, out, new, hemitted₂, hraised₂, hout, hnonempty, hnew, -⟩
    have hread₂ : w₂.store.read cmd.executionId = some
        ((Mark.done .failed lostReason (some errorCode) none none none).apply s) := by
      rw [hstore₂, hstore₁, StateStore.read_mark_self, hread]
      rfl
    have hevents : attemptEvents w₀ w₂ cmd.executionId = sent ++ out := by
      rw [attemptEvents, hfresh, hemitted₂, hemitted₁, hsent, List.append_assoc]
      exact List.drop_left
    refine ⟨sent ++ out, old ++ new, ?_, ?_, ?_⟩
    · rw [hemitted₂, hemitted₁, hsent, List.append_assoc]
    · rw [hraised₂, hraised₁, hold, List.append_assoc]
    · have hall : (old ++ new).all (foreseen cfg cmd) = new.all (delivered cfg) := by
        rw [List.all_append, hfine, Bool.true_and]
        exact all_congr_of_mem (hnew rfl)
      rw [hall, ← hnonempty]
      simp only [Ended, hread₂, hevents]
      constructor
      · rintro (hstarted | ⟨-, result, hresult, ev, hev, -, htype⟩)
        · cases hstarted
        · obtain rfl : AttemptResult.failed = result := Option.some.inj hresult
          rcases List.mem_append.mp hev with hev | hev
          · rw [hacc ev hev] at htype
            cases htype
          · exact List.ne_nil_of_mem hev
      · intro hne
        obtain ⟨ev, hev⟩ := List.exists_mem_of_ne_nil out hne
        exact .inr ⟨rfl, .failed, rfl, ev, List.mem_append_right _ hev, hout ev hev⟩
  · rintro err w₁ ⟨hemitted₁, hstore₁, err', late, hraised₁⟩
    exact h.stuck hstore₁ hemitted₁ hraised₁ rfl

/-- The promotion, and what comes of the announcement after it. -/
theorem started_settled {w' : AgentWorld} {s : AttemptState} {sent : List AgentEvent}
    {new : List Raised} (hread : w'.store.read cmd.executionId = some s)
    (hphase : s.phase = .started) (hemitted : w'.emitted = w₀.emitted ++ sent)
    (hraised : w'.raised = w₀.raised ++ new) (hnew : new.all (foreseen cfg cmd) = true) :
    Settled cfg cmd w₀ w' :=
  ⟨sent, new, hemitted, hraised, fun _ => hnew, fun _ => ended_of_started hread hphase⟩

/-- Reserved, and promoted by `m`: announce the attempt as running. -/
theorem promoted_alone {w₁ : AgentWorld} {m : Mark} (h : Reserved cfg cmd w₀ w)
    (hm : ∀ s, (m.apply s).phase = .started) (hemitted₁ : w₁.emitted = w.emitted)
    (hstore₁ : w₁.store = w.store.mark cmd.executionId m) (hraised₁ : w₁.raised = w.raised)
    {ev : AgentEvent} (hev : ev.type = .running) :
    Alone cfg (emit cfg ev) (fun _ => Settled cfg cmd w₀) w₁ := by
  obtain ⟨⟨s, hread, -⟩, sent, old, hsent, -, hold, hfine⟩ := h
  refine (emit_alone cmd ev w₁).mono ?_
  rintro r w₂ ⟨hstore₂, out, new, hemitted₂, hraised₂, -, -, -, hnew, -⟩
  have hread₂ : w₂.store.read cmd.executionId = some (m.apply s) := by
    rw [hstore₂, hstore₁, StateStore.read_mark_self, hread]
    rfl
  have hemitted : w₂.emitted = w₀.emitted ++ (sent ++ out) := by
    rw [hemitted₂, hemitted₁, hsent, List.append_assoc]
  have hraised : w₂.raised = w₀.raised ++ (old ++ new) := by
    rw [hraised₂, hraised₁, hold, List.append_assoc]
  refine started_settled hread₂ (hm s) hemitted hraised ?_
  rw [List.all_append, hfine, hnew (.inl hev)]
  rfl

/-- What an operation that changes neither state nor events leads to. -/
theorem Reserved.note {x : Raised} {w' : AgentWorld} (h : Reserved cfg cmd w₀ w)
    (hx : foreseen cfg cmd x = true) (hstore : w'.store = w.store)
    (hemitted : w'.emitted = w.emitted) (hraised : w'.raised = w.raised ++ [x]) :
    Reserved cfg cmd w₀ w' := by
  obtain ⟨⟨s, hread, hphase⟩, sent, old, hsent, hacc, hold, hfine⟩ := h
  refine ⟨⟨s, hstore ▸ hread, hphase⟩, sent, old ++ [x], hemitted.trans hsent, hacc, ?_, ?_⟩
  · rw [hraised, hold, List.append_assoc]
  · rw [List.all_append, hfine]
    simp [hx]

theorem Reserved.same {w' : AgentWorld} (h : Reserved cfg cmd w₀ w) (hstore : w'.store = w.store)
    (hemitted : w'.emitted = w.emitted) (hraised : w'.raised = w.raised) :
    Reserved cfg cmd w₀ w' := by
  obtain ⟨⟨s, hread, hphase⟩, sent, old, hsent, hacc, hold, hfine⟩ := h
  exact ⟨⟨s, hstore ▸ hread, hphase⟩, sent, old, hemitted.trans hsent, hacc, hraised.trans hold,
    hfine⟩

/-- The context of a scrapy run is looked at when it is reserved, so an invalid one
leaves it so. -/
theorem runtimeContextEnv_alone (hkind : cmd.taskType = .scrapy) (h : Reserved cfg cmd w₀ w) :
    Alone cfg (runtimeContextEnv cmd.payload) (fun r w' => match r with
      | .ok _ => Reserved cfg cmd w₀ w'
      | .error _ => Settled cfg cmd w₀ w') w := by
  refine alone_call fun x r w' hp => ?_
  simp only [AgentOp.perform] at hp
  split at hp
  · cases hp
    exact h
  · cases hp
    exact h
  · rcases AgentWorld.fallible_cases hp with ⟨hnone, -, -⟩ | ⟨err, -, -, rfl, rfl⟩
    · cases hnone
    · refine h.stuck (AgentWorld.note_ite_store rfl) (AgentWorld.note_ite_emitted rfl)
        (AgentWorld.note_ite_raised rfl) ?_
      simp [foreseen, hkind]

theorem scheduleRun_alone (hkind : cmd.taskType = .scrapy)
    (hfresh : w₀.store.read cmd.executionId = none) (h : Reserved cfg cmd w₀ w)
    (project : String) (version : Option String) (parsed : ParsedScrapyCommand) :
    Alone cfg (scheduleRun cfg cmd project version parsed) (fun _ => Settled cfg cmd w₀) w := by
  refine alone_bind (runtimeContextEnv_alone hkind h) ?_ (fun _ _ herr => herr)
  intro context w₁ h₁
  refine alone_bind (P := fun r w' => ∃ res, r = .ok res ∧ Called cfg cmd w₀ w' res) ?_ ?_ ?_
  · refine Prog.safe_attempt.mpr (alone_ask_bind fun x r w' hp => ?_)
    rcases AgentWorld.fallible_cases hp with ⟨-, rfl, rfl⟩ | ⟨err, -, hforeign, rfl, rfl⟩
    · exact ⟨_, rfl, h₁.same rfl rfl rfl⟩
    · cases err with
      | scrapyd detail =>
          exact ⟨_, rfl, h₁.note rfl (AgentWorld.note_ite_store rfl)
            (AgentWorld.note_ite_emitted rfl) (AgentWorld.note_ite_raised rfl)⟩
      | artifactCache _ | wheelCache _ | runner _ => cases hforeign
      | wheelRunner _ _ | http | timeout | redis | os | other =>
          exact ⟨_, rfl, h₁.stuck (AgentWorld.note_ite_store rfl)
            (AgentWorld.note_ite_emitted rfl) (AgentWorld.note_ite_raised rfl) rfl⟩
  · rintro res w₂ ⟨res', hres, h₂⟩
    obtain rfl := Except.ok.inj hres
    rcases res with err | job
    · cases err with
      | runner detail => exact failRun_alone hfresh h₂ _ _ _
      | artifactCache _ | wheelCache _ | wheelRunner _ _ | scrapyd _ | http | timeout | redis | os
        | other => exact h₂
    · obtain ⟨⟨s, hread, -⟩, -⟩ := id h₂
      refine alone_bind (mark_alone hread) ?_ ?_
      · rintro promoted w₃ ⟨hemitted₃, rfl, hstore₃, hraised₃⟩
        exact promoted_alone h₂ (fun _ => rfl) hemitted₃ hstore₃ hraised₃ rfl
      · rintro err w₃ ⟨hemitted₃, hstore₃, err', late, hraised₃⟩
        exact h₂.stuck hstore₃ hemitted₃ hraised₃ rfl
  · rintro err w' ⟨_, hc, -⟩
    cases hc

/-- The acceptance is emitted. -/
theorem accepted_alone (h : Reserved cfg cmd w₀ w) :
    Alone cfg (emit cfg (event cmd.taskId cmd.executionId .accepted)) (fun r w' => match r with
      | .ok _ => Reserved cfg cmd w₀ w'
      | .error _ => Settled cfg cmd w₀ w') w := by
  obtain ⟨⟨s, hread, hphase⟩, sent, old, hsent, hacc, hold, hfine⟩ := id h
  refine (emit_alone cmd _ w).mono ?_
  rintro r w₁ ⟨hstore₁, out, new, hemitted₁, hraised₁, hout, -, -, -, hnew⟩
  have hemitted : w₁.emitted = w₀.emitted ++ (sent ++ out) := by
    rw [hemitted₁, hsent, List.append_assoc]
  have hraised : w₁.raised = w₀.raised ++ (old ++ new) := by
    rw [hraised₁, hold, List.append_assoc]
  have hfine₁ : (old ++ new).all (foreseen cfg cmd) = true ↔ ∃ u, r = .ok u := by
    rw [List.all_append, hfine, Bool.true_and]
    exact hnew rfl
  cases r with
  | ok u =>
      refine ⟨⟨s, hstore₁ ▸ hread, hphase⟩, sent ++ out, old ++ new, hemitted, ?_, hraised,
        hfine₁.mpr ⟨u, rfl⟩⟩
      intro ev hev
      rcases List.mem_append.mp hev with hev | hev
      · exact hacc ev hev
      · exact (hout ev hev).2
  | error err =>
      refine ⟨sent ++ out, old ++ new, hemitted, hraised, fun hended => ?_, fun hc => ?_⟩
      · exact (not_ended_of_reserved (hstore₁ ▸ hread) hphase hended).elim
      · obtain ⟨u, hu⟩ := hfine₁.mp hc
        cases hu

/-- What a cache leads to where the attempt is reserved. -/
theorem Careful.reserved {α : Type} {r : Except AgentError α} {w' : AgentWorld}
    (h : Reserved cfg cmd w₀ w) (hr : Careful cfg cmd w r w') :
    (match r with
      | .ok _ => Reserved cfg cmd w₀ w'
      | .error err => CacheError cmd err ∧ Reserved cfg cmd w₀ w' ∨
          ¬ CacheError cmd err ∧ Settled cfg cmd w₀ w') := by
  obtain ⟨new, rfl, hr⟩ := hr
  have hfine : new.all (foreseen cfg cmd) = true →
      Reserved cfg cmd w₀ { w with raised := w.raised ++ new } := by
    obtain ⟨hstate, sent, old, hsent, hacc, hold, hfine⟩ := h
    intro hnew
    refine ⟨hstate, sent, old ++ new, hsent, hacc, ?_, ?_⟩
    · rw [← List.append_assoc, ← hold]
    · rw [List.all_append, hfine, hnew]
      rfl
  cases r with
  | ok a => exact hfine hr
  | error err =>
      rcases hr with ⟨hcache, hnew⟩ | ⟨hother, hnew⟩
      · exact .inl ⟨hcache, hfine hnew⟩
      · exact .inr ⟨hother, h.stuck rfl rfl rfl hnew⟩

theorem prepareRun_alone (hkind : cmd.taskType = .scrapy)
    (hfresh : w₀.store.read cmd.executionId = none) (h : Reserved cfg cmd w₀ w)
    (artifact : ArtifactRef) (parsed : Except Detail ParsedScrapyCommand) :
    Alone cfg (prepareRun cfg cmd artifact parsed) (fun _ => Settled cfg cmd w₀) w := by
  refine alone_bind (accepted_alone h) ?_ (fun _ _ herr => herr)
  intro _ w₁ h₁
  cases parsed with
  | error detail => exact failRun_alone hfresh h₁ _ _ _
  | ok parsed =>
      show Alone cfg (if artifact.project = "" then _ else if artifact.hash = none then _ else
        if cfg.artifactCache = false then _ else _) _ w₁
      by_cases hproject : artifact.project = ""
      · rw [if_pos hproject]
        exact failRun_alone hfresh h₁ _ _ _
      rw [if_neg hproject]
      by_cases hhash : artifact.hash = none
      · rw [if_pos hhash]
        exact scheduleRun_alone hkind hfresh h₁ _ _ _
      rw [if_neg hhash]
      by_cases hcache : cfg.artifactCache = false
      · rw [if_pos hcache]
        exact failRun_alone hfresh h₁ _ _ _
      rw [if_neg hcache]
      refine alone_bind (P := fun r w' => ∃ res, r = .ok res ∧ Careful cfg cmd w₁ res w') ?_ ?_ ?_
      · refine Prog.safe_attempt.mpr ((ensureEgg_careful hkind artifact w₁).mono ?_)
        exact fun r w' hr => ⟨r, rfl, hr⟩
      · rintro res w₂ ⟨res', hres, h₂⟩
        obtain rfl := Except.ok.inj hres
        have h₂ := h₂.reserved h₁
        rcases res with err | u
        · cases err with
          | artifactCache detail =>
              rcases h₂ with ⟨-, h₂⟩ | ⟨hc, -⟩
              · exact failRun_alone hfresh h₂ _ _ _
              · exact (hc hkind).elim
          | wheelCache _ | runner _ | wheelRunner _ _ | scrapyd _ | http | timeout | redis | os
            | other =>
              rcases h₂ with ⟨hc, -⟩ | ⟨-, h₂⟩
              · simp [CacheError, hkind] at hc
              · exact h₂
        · exact scheduleRun_alone hkind hfresh h₂ _ _ _
      · rintro err w' ⟨_, hc, -⟩
        cases hc

theorem startWheelRun_alone (hfresh : w₀.store.read cmd.executionId = none)
    (h : Reserved cfg cmd w₀ w) (installPath : String) (context : List (String × String)) :
    Alone cfg (startWheelRun cfg cmd installPath context) (fun _ => Settled cfg cmd w₀) w := by
  refine alone_ask_bind fun x r w₁ hp => ?_
  rcases AgentWorld.atomically_cases hp with ⟨-, rfl, rfl⟩ | ⟨err, -, hforeign, rfl, rfl⟩
  · have h₁ : Reserved cfg cmd w₀ { w with
        children := w.children.insert w.nextChild { executionId := cmd.executionId }
        nextChild := w.nextChild + 1
        procs := Function.update w.procs cmd.executionId (some w.nextChild) } :=
      h.same rfl rfl rfl
    obtain ⟨⟨s, hread, -⟩, -⟩ := id h₁
    refine alone_bind (mark_alone hread) ?_ ?_
    · rintro promoted w₂ ⟨hemitted₂, rfl, hstore₂, hraised₂⟩
      refine alone_call_bind fun _ r w₃ hp => ?_
      cases hp
      refine alone_bind (P := fun _ => Settled cfg cmd w₀) ?_ ?_ (fun _ _ herr => herr)
      · have hrunning : (event cmd.taskId cmd.executionId .running).type = .running := rfl
        have hm : ∀ s, ((Mark.promoteStartedWheel x.started.pgid x.started.workspacePath
            x.started.logPath).apply s).phase = .started := fun _ => rfl
        refine promoted_alone h₁ hm ?_ ?_ ?_ hrunning
        · exact hemitted₂
        · exact hstore₂
        · exact hraised₂
      · rintro _ w₄ ⟨sent, new, hemitted₄, hraised₄, hended⟩
        refine alone_call fun _ r w₅ hp => ?_
        cases hp
        exact ⟨sent, new, hemitted₄, hraised₄, hended⟩
    · rintro err w₂ ⟨hemitted₂, hstore₂, err', late, hraised₂⟩
      exact h₁.stuck hstore₂ hemitted₂ hraised₂ rfl
  · cases err with
    | wheelRunner errorCode detail =>
        refine failRun_alone hfresh ?_ _ _ _
        exact h.note rfl rfl rfl rfl
    | artifactCache _ | wheelCache _ | runner _ => cases hforeign
    | scrapyd _ | http | timeout | redis | os | other => exact h.stuck rfl rfl rfl rfl

theorem prepareWheelRun_alone (hkind : cmd.taskType = .pythonWheel)
    (hfresh : w₀.store.read cmd.executionId = none) (h : Reserved cfg cmd w₀ w)
    (artifact : ArtifactRef) (context : List (String × String)) :
    Alone cfg (prepareWheelRun cfg cmd artifact context) (fun _ => Settled cfg cmd w₀) w := by
  refine alone_bind (accepted_alone h) ?_ (fun _ _ herr => herr)
  intro _ w₁ h₁
  by_cases hcommand : cmd.payload.shellCommand = ""
  · rw [if_pos hcommand]
    exact failRun_alone hfresh h₁ _ _ _
  rw [if_neg hcommand]
  by_cases hhash : artifact.hash = none
  · rw [if_pos hhash]
    exact failRun_alone hfresh h₁ _ _ _
  rw [if_neg hhash]
  by_cases hrunner : cfg.wheelRunner = false ∨ cfg.wheelCache = false
  · rw [if_pos hrunner]
    exact failRun_alone hfresh h₁ _ _ _
  rw [if_neg hrunner]
  refine alone_bind (P := fun r w' => ∃ res, r = .ok res ∧ Careful cfg cmd w₁ res w') ?_ ?_ ?_
  · refine Prog.safe_attempt.mpr ((ensureWheel_careful hkind artifact w₁).mono ?_)
    exact fun r w' hr => ⟨r, rfl, hr⟩
  · rintro res w₂ ⟨res', hres, h₂⟩
    obtain rfl := Except.ok.inj hres
    have h₂ := h₂.reserved h₁
    rcases res with err | installPath
    · cases err with
      | wheelCache detail =>
          rcases h₂ with ⟨-, h₂⟩ | ⟨hc, -⟩
          · exact failRun_alone hfresh h₂ _ _ _
          · exact (hc hkind).elim
      | artifactCache _ | runner _ | wheelRunner _ _ | scrapyd _ | http | timeout | redis | os
        | other =>
          rcases h₂ with ⟨hc, -⟩ | ⟨-, h₂⟩
          · simp [CacheError, hkind] at hc
          · exact h₂
    · exact startWheelRun_alone hfresh h₂ _ _
  · rintro err w' ⟨_, hc, -⟩
    cases hc

/-- The handling is over without a state file and without an acceptance. -/
theorem unaccepted_settled {w' : AgentWorld} {sent : List AgentEvent} {new : List Raised}
    (hfresh : w₀.store.read cmd.executionId = none)
    (hread : w'.store.read cmd.executionId = none) (hemitted : w'.emitted = w₀.emitted ++ sent)
    (hsent : ∀ ev ∈ sent, ev.type ≠ .accepted) (hraised : w'.raised = w₀.raised ++ new)
    (hnew : new.all (foreseen cfg cmd) = true) : Settled cfg cmd w₀ w' := by
  refine ⟨sent, new, hemitted, hraised, fun _ => hnew, fun _ => ?_⟩
  have hevents : attemptEvents w₀ w' cmd.executionId = sent := by
    rw [attemptEvents, hfresh, hemitted]
    exact List.drop_left
  simp only [Ended, hread, hevents]
  rintro ev hev ⟨-, htype⟩
  exact hsent ev hev htype

/-- The attempt to reserve a state file where there is none. -/
theorem createReserved_alone (s : AttemptState) (hfresh : w.store.read s.executionId = none) :
    Alone cfg (call (.createReserved s)) (fun r w' => w'.emitted = w.emitted ∧
      match r with
      | .ok reserved => w'.raised = w.raised ∧
          if reserved then w'.store.read s.executionId = some { s with phase := .reserved }
          else w'.store = w.store
      | .error _ => w'.store = w.store ∧
          ∃ err late, w'.raised = w.raised ++ [⟨.createReserved s, err, late⟩]) w := by
  obtain ⟨store, hstore⟩ : ∃ store, w.store.createReserved s = some store := by
    simp only [StateStore.createReserved, StateStore.read] at hfresh ⊢
    rw [hfresh]
    exact ⟨_, rfl⟩
  refine alone_call fun x r w' hp => ?_
  simp only [AgentOp.perform, hstore] at hp
  split at hp
  · -- a state file that does not parse
    cases hp
    exact ⟨rfl, rfl, rfl⟩
  split at hp
  · rename_i hlate
    rcases AgentWorld.fallible_cases hp with ⟨hnone, -, -⟩ | ⟨err, -, -, rfl, rfl⟩
    · rw [hnone] at hlate
      cases hlate.1
    · exact ⟨AgentWorld.note_ite_emitted rfl, AgentWorld.note_ite_store rfl, err, x.late,
        AgentWorld.note_ite_raised rfl⟩
  · rcases AgentWorld.atomically_cases hp with ⟨-, rfl, rfl⟩ | ⟨err, -, -, rfl, rfl⟩
    · refine ⟨rfl, rfl, ?_⟩
      rw [if_pos rfl]
      show store.read s.executionId = _
      rw [StateStore.read_createReserved hstore, if_pos rfl]
    · exact ⟨rfl, rfl, err, false, rfl⟩

/-- Nothing was emitted yet, and nothing unforeseen raised. -/
def Untouched (cfg : AgentConfig) (cmd : AgentCommand) (w₀ w : AgentWorld) : Prop :=
  w.store.read cmd.executionId = none ∧ w.emitted = w₀.emitted ∧
    ∃ new, w.raised = w₀.raised ++ new ∧ new.all (foreseen cfg cmd) = true

/-- Reserve a state file, and go on with `p` when that worked. -/
theorem reserve_alone {p : AgentProg Unit} {s : AttemptState}
    (hfresh : w₀.store.read cmd.executionId = none) (h : Untouched cfg cmd w₀ w)
    (hid : s.executionId = cmd.executionId)
    (hp : ∀ w', Reserved cfg cmd w₀ w' → Alone cfg p (fun _ => Settled cfg cmd w₀) w') :
    Alone cfg
      (do
        let reserved : Bool ← call (.createReserved s)
        if reserved then p else republishCurrent cfg cmd.taskId cmd.executionId)
      (fun _ => Settled cfg cmd w₀) w := by
  obtain ⟨hread, hemitted, new, hraised, hnew⟩ := h
  refine alone_bind (createReserved_alone s (hid ▸ hread)) ?_ ?_
  · rintro reserved w₁ ⟨hemitted₁, hraised₁, hres⟩
    cases reserved with
    | true =>
        rw [if_pos rfl, hid] at hres
        rw [if_pos rfl]
        refine hp w₁ ⟨⟨_, hres, rfl⟩, [], new, ?_, by simp, hraised₁.trans hraised, hnew⟩
        rw [hemitted₁, hemitted, List.append_nil]
    | false =>
        -- the file does not parse: the command is answered with `lost`
        rw [if_neg Bool.false_ne_true] at hres ⊢
        refine alone_call_bind fun _ r w₂ hp => ?_
        cases hp
        rw [hres, hread]
        refine (emit_alone cmd _ w₁).mono ?_
        rintro r w₂ ⟨hstore₂, sent, new₂, hemitted₂, hraised₂, hsent, -, -, hfine, -⟩
        have hread₂ : w₂.store.read cmd.executionId = none := by rw [hstore₂, hres, hread]
        have hemitted' : w₂.emitted = w₀.emitted ++ sent := by rw [hemitted₂, hemitted₁, hemitted]
        have hraised' : w₂.raised = w₀.raised ++ (new ++ new₂) := by
          rw [hraised₂, hraised₁, hraised, List.append_assoc]
        refine unaccepted_settled hfresh hread₂ hemitted' (fun ev hev => ?_) hraised' ?_
        · rw [(hsent ev hev).2]
          exact fun hc => by cases hc
        · rw [List.all_append, hnew, hfine (.inr rfl)]
          rfl
  · rintro err w₁ ⟨hemitted₁, hstore₁, err', late, hraised₁⟩
    have hread₁ : w₁.store.read cmd.executionId = none := by rw [hstore₁, hread]
    have hemitted' : w₁.emitted = w₀.emitted ++ [] := by
      rw [hemitted₁, hemitted, List.append_nil]
    have hraised' : w₁.raised = w₀.raised ++ (new ++ [⟨.createReserved s, err', late⟩]) := by
      rw [hraised₁, hraised, List.append_assoc]
    refine unaccepted_settled hfresh hread₁ hemitted' (by simp) hraised' ?_
    rw [List.all_append, hnew]
    rfl

theorem handleRunWheel_alone (hkind : cmd.taskType = .pythonWheel)
    (hfresh : w₀.store.read cmd.executionId = none) (h : Untouched cfg cmd w₀ w) :
    Alone cfg (handleRunWheel cfg cmd) (fun _ => Settled cfg cmd w₀) w := by
  refine alone_bind (P := fun r w' => match r with
    | .ok _ => Untouched cfg cmd w₀ w'
    | .error _ => Settled cfg cmd w₀ w') ?_ ?_ (fun _ _ herr => herr)
  · refine alone_call fun x r w' hp => ?_
    obtain ⟨hread, hemitted, new, hraised, hnew⟩ := id h
    simp only [AgentOp.perform] at hp
    split at hp
    · cases hp
      exact h
    · cases hp
      exact h
    · rcases AgentWorld.fallible_cases hp with ⟨hnone, -, -⟩ | ⟨err, -, -, rfl, rfl⟩
      · cases hnone
      · have hemitted' : w.emitted = w₀.emitted ++ [] := by rw [hemitted, List.append_nil]
        obtain ⟨bad, hbad, hfine⟩ : ∃ bad : Raised,
            bad = ⟨.validate cmd.payload.runtimeContext, err, false⟩ ∧
              foreseen cfg cmd bad = true := ⟨_, rfl, by simp [foreseen, hkind]⟩
        have hraised' : w.raised ++ [bad] = w₀.raised ++ (new ++ [bad]) := by
          rw [hraised, List.append_assoc]
        refine unaccepted_settled hfresh hread hemitted' (by simp) (hbad ▸ hraised') ?_
        rw [List.all_append, hnew, ← hbad]
        simp [hfine]
  · intro context w₁ h₁
    exact reserve_alone hfresh h₁ rfl fun w' hw' => prepareWheelRun_alone hkind hfresh hw' _ _

/-- A run of an execution that has no state. -/
theorem handleRun_fresh (hfresh : w₀.store.read cmd.executionId = none)
    (h : Untouched cfg cmd w₀ w) :
    Alone cfg (handleRun cfg cmd) (fun _ => Settled cfg cmd w₀) w := by
  refine alone_call_bind fun _ r w₁ hp => ?_
  cases hp
  rw [h.1]
  show Alone cfg (if false = true then _ else if cmd.taskType = .pythonWheel then _ else _) _ w
  rw [if_neg Bool.false_ne_true]
  by_cases hkind : cmd.taskType = .pythonWheel
  · rw [if_pos hkind]
    exact handleRunWheel_alone hkind hfresh h
  · rw [if_neg hkind]
    have hkind : cmd.taskType = .scrapy := by
      cases htype : cmd.taskType
      · rfl
      · exact (hkind htype).elim
    exact reserve_alone hfresh h rfl fun w' hw' => prepareRun_alone hkind hfresh hw' _ _

end Handling

/-! ### The claim -/

/-- The attempt that a run finds is in order, or can be reported again; a new one
meets nothing unforeseen. -/
def EndsWell (cfg : AgentConfig) (cmd : AgentCommand) (w : AgentWorld) (raised : List Raised) :
    Prop :=
  match w.store.read cmd.executionId with
  | none => raised.all (foreseen cfg cmd) = true
  | some s => s.phase = .started ∨ s.phase = .done ∧ ∃ result, s.result = some result ∧
      ((∃ ev ∈ w.emitted, ev.executionId = cmd.executionId ∧ ev.type = result.eventType) ∨
        raised.all (delivered cfg) = true)

/-- The execution ends as it should exactly when the handling goes well. -/
def Verdict (cfg : AgentConfig) (cmd : AgentCommand) (w₀ w : AgentWorld) : Prop :=
  Ended w₀ w cmd.executionId ↔ EndsWell cfg cmd w₀ (raisedSince w₀ w)

section Existing

variable {cfg : AgentConfig} {cmd : AgentCommand} {w₀ w : AgentWorld}

theorem Settled.verdict (hfresh : w₀.store.read cmd.executionId = none)
    (h : Settled cfg cmd w₀ w) : Verdict cfg cmd w₀ w := by
  obtain ⟨sent, new, -, hraised, hended⟩ := h
  have hsince : raisedSince w₀ w = new := by
    rw [raisedSince, hraised]
    exact List.drop_left
  rw [Verdict, EndsWell, hfresh, hsince]
  exact hended

/-- The operations of `republish_current`. -/
def Republishes : AgentOp → Prop
  | .read _ | .uuid | .persist _ | .xadd _ | .unlinkEvent _ | .listjobs .. | .logExists _ => True
  | _ => False

theorem emit_republishes (ev : AgentEvent) : (emit cfg ev).Only Republishes := by
  refine Prog.Only.bind (Prog.only_call.mpr trivial) fun id => ?_
  refine Prog.Only.bind (Prog.only_call.mpr trivial) fun queued => ⟨trivial, fun r => ?_⟩
  cases r with
  | error err =>
      cases queued
      · trivial
      · trivial
  | ok u =>
      cases queued
      · trivial
      · exact Prog.only_call.mpr trivial

theorem resolveStatus_republishes (s : AttemptState) : (resolveStatus s).Only Republishes := by
  refine ⟨trivial, fun r => ?_⟩
  cases r with
  | error err =>
      cases err with
      | artifactCache _ | wheelCache _ | runner _ | wheelRunner _ _ | scrapyd _ | http | timeout
        | redis | os | other => trivial
  | ok jobs =>
      show Prog.Only _ (if _ then _ else if _ then _ else if _ then _ else _)
      split
      · trivial
      split
      · trivial
      split
      · trivial
      · refine Prog.Only.bind (Prog.only_call.mpr trivial) fun ran => ?_
        cases ran
        · trivial
        · trivial

theorem republishCurrent_republishes (t : TaskId) (e : ExecutionId) :
    (republishCurrent cfg t e).Only Republishes := by
  refine Prog.Only.bind (Prog.only_call.mpr trivial) fun read => ?_
  rcases read with - | s
  · exact emit_republishes _
  · show Prog.Only _ (if _ then _ else if _ then _ else _)
    split
    · exact emit_republishes _
    split
    · trivial
    split
    · exact emit_republishes _
    · split
      · exact emit_republishes _
      · refine Prog.Only.bind ?_ fun status => ?_
        · refine Prog.Only.bind (Prog.only_call.mpr trivial) fun read => ?_
          rcases read with - | s
          · trivial
          · exact resolveStatus_republishes s
        · dsimp only
          split
          · exact emit_republishes _
          · exact emit_republishes _

/-- A run of an execution that has a state leaves the state as it is. -/
theorem republishCurrent_store (t : TaskId) (e : ExecutionId) :
    Alone cfg (republishCurrent cfg t e) (fun _ w' => w'.store = w.store) w := by
  have hop : ∀ op x w r w', Republishes op → op.perform cfg x w = some (r, w') →
      w'.store = w.store := by
    intro op x w r w' hop hp
    cases op with
    | read e | uuid =>
        cases hp
        rfl
    | persist ev =>
        simp only [AgentOp.perform] at hp
        split at hp
        · split at hp
          · cases hp
            rfl
          · rcases AgentWorld.fallible_cases hp with ⟨-, -, rfl⟩ | ⟨err, -, -, -, rfl⟩
            · rfl
            · exact AgentWorld.note_ite_store rfl
        · cases hp
          rfl
    | xadd ev =>
        have hsent : ((if cfg.eventOutbox then { w with stream := w.stream ++ [ev] }
            else { w with stream := w.stream ++ [ev] }.emit ev : AgentWorld)).store = w.store := by
          split
          · rfl
          · rfl
        rcases AgentWorld.fallible_cases hp with ⟨-, -, rfl⟩ | ⟨err, -, -, -, rfl⟩
        · exact hsent
        · exact AgentWorld.note_ite_store hsent
    | unlinkEvent ev | listjobs project job =>
        rcases AgentWorld.atomically_cases hp with ⟨-, -, rfl⟩ | ⟨err, -, -, -, rfl⟩
        · rfl
        · rfl
    | logExists path =>
        rcases AgentWorld.fallible_cases hp with ⟨-, -, rfl⟩ | ⟨err, -, -, -, rfl⟩
        · rfl
        · exact AgentWorld.note_ite_store rfl
    | _ => exact hop.elim
  refine Prog.Only.safe (R := fun w w' : AgentWorld => w'.store = w.store)
    (republishCurrent_republishes t e) (fun h h' => h'.trans h) ?_ ?_ rfl
  · rintro w _ rfl
    rfl
  · exact fun op x w r w' hrep _ hp => ⟨trivial, hop op x w r w' hrep hp⟩

/-- What a run of an execution with a state leads to. -/
theorem republishCurrent_alone {s : AttemptState} (hread : w₀.store.read cmd.executionId = some s)
    (hstore : w.store = w₀.store) (hemitted : w.emitted = w₀.emitted)
    (hraised : w.raised = w₀.raised) :
    Alone cfg (republishCurrent cfg cmd.taskId cmd.executionId)
      (fun _ => Verdict cfg cmd w₀) w := by
  by_cases hdone : s.phase = .done ∧ s.result.isSome = true
  · obtain ⟨hphase, hresult⟩ := hdone
    obtain ⟨result, hresult⟩ := Option.isSome_iff_exists.mp hresult
    refine alone_call_bind fun _ r w₁ hp => ?_
    cases hp
    rw [hstore, hread]
    show Alone cfg (if s.phase = .reserved then _ else
      if s.phase = .started ∧ s.stopRequestedAt.isSome then _ else _) _ w
    rw [hphase, if_neg (by decide), if_neg (by simp)]
    rw [hresult]
    refine (emit_alone cmd _ w).mono ?_
    rintro r w₂ ⟨hstore₂, sent, new, hemitted₂, hraised₂, hsent, hnonempty, -⟩
    have hread₂ : w₂.store.read cmd.executionId = some s := by rw [hstore₂, hstore, hread]
    have hevents : attemptEvents w₀ w₂ cmd.executionId = w₀.emitted ++ sent := by
      rw [attemptEvents, hread, hemitted₂, hemitted]
      rfl
    have hsince : raisedSince w₀ w₂ = new := by
      rw [raisedSince, hraised₂, hraised]
      exact List.drop_left
    simp only [Verdict, Ended, EndsWell, hread, hread₂, hevents, hsince, ← hnonempty]
    refine or_congr Iff.rfl (and_congr Iff.rfl (exists_congr fun result' => ?_))
    refine and_congr_right fun hresult' => ?_
    obtain rfl : result = result' := Option.some.inj (hresult.symm.trans hresult')
    constructor
    · rintro ⟨ev, hev, hid, htype⟩
      rcases List.mem_append.mp hev with hev | hev
      · exact .inl ⟨ev, hev, hid, htype⟩
      · exact .inr (List.ne_nil_of_mem hev)
    · rintro (⟨ev, hev, hid, htype⟩ | hne)
      · exact ⟨ev, List.mem_append_left _ hev, hid, htype⟩
      · obtain ⟨ev, hev⟩ := List.exists_mem_of_ne_nil sent hne
        exact ⟨ev, List.mem_append_right _ hev, hsent ev hev⟩
  · refine (republishCurrent_store _ _).mono fun r w₁ hstore₁ => ?_
    have hread₁ : w₁.store.read cmd.executionId = some s := by rw [hstore₁, hstore, hread]
    simp only [Verdict, Ended, EndsWell, hread, hread₁]
    refine or_congr Iff.rfl ⟨?_, ?_⟩
    · rintro ⟨hphase, result, hresult, -⟩
      exact (hdone ⟨hphase, by rw [hresult]; rfl⟩).elim
    · rintro ⟨hphase, result, hresult, -⟩
      exact (hdone ⟨hphase, by rw [hresult]; rfl⟩).elim

theorem handleRun_alone (hstore : w.store = w₀.store) (hemitted : w.emitted = w₀.emitted)
    (hraised : w.raised = w₀.raised) :
    Alone cfg (handleRun cfg cmd) (fun _ => Verdict cfg cmd w₀) w := by
  cases hread : w₀.store.read cmd.executionId with
  | none =>
      have h : Untouched cfg cmd w₀ w := by
        refine ⟨by rw [hstore, hread], hemitted, [], ?_, rfl⟩
        rw [hraised, List.append_nil]
      exact (handleRun_fresh hread h).mono fun _ _ h => h.verdict hread
  | some s =>
      refine alone_call_bind fun _ r w₁ hp => ?_
      cases hp
      rw [hstore, hread]
      exact republishCurrent_alone hread hstore hemitted hraised

end Existing

/-- **Where a run command leaves its execution.**  Whatever the handling of a run
command meets, when it is over the execution has no state and was not accepted,
or is started, or is done and reported, exactly when every exception on its way
was a foreseen one. -/
theorem run_ends (cfg : AgentConfig) (cmd : AgentCommand) (w : AgentWorld)
    (hrun : cmd.type = .run) :
    Alone cfg (processCommand cfg cmd)
      (fun _ w' => Ended w w' cmd.executionId ↔ EndsWell cfg cmd w (raisedSince w w')) w := by
  refine alone_call_bind fun x r w₁ hp => ?_
  simp only [AgentOp.perform] at hp
  split at hp
  · cases hp
    refine Prog.safe_tryFinally.mpr (Prog.safe_tryCatch.mpr ?_)
    rw [handleCommand, hrun]
    refine (handleRun_alone rfl rfl rfl).mono ?_
    have hfinish : ∀ w₂, Verdict cfg cmd w w₂ →
        Alone cfg (call (.finish cmd)) (fun _ => Verdict cfg cmd w) w₂ := by
      intro w₂ h
      refine alone_call fun _ r' w₃ hp => ?_
      cases hp
      exact h
    rintro r w₂ h
    cases r with
    | ok u =>
        refine (hfinish w₂ h).mono ?_
        rintro (_ | _) w' h'
        · exact h'
        · exact h'
    | error err =>
        refine (hfinish w₂ h).mono ?_
        rintro (_ | _) w' h'
        · exact h'
        · exact h'
  · cases hp

/-- An agent without an outbox, whose runs name a spider and nothing else. -/
def plainConfig : AgentConfig where
  agentId := 1
  eventOutbox := false
  maxOutboxFiles := 0
  artifactCache := false
  wheelCache := false
  wheelRunner := true
  maxJobLogBytes := 0
  floodKillAfter := 10
  stopKillAfter := 10
  stopConfirmTimeout := 60
  killRetryInterval := 10
  cachePolls := 3
  parseScrapyCommand := fun _ => .ok { spider := "quotes" }

/-- A run whose runtime context does not validate. -/
def badContextRun : AgentCommand where
  commandId := 1
  type := .run
  agentId := 1
  taskId := 7
  executionId := 1
  payload := { artifact := some { project := "shop" }, runtimeContext := .invalid }

theorem run_ends_sample :
    Alone plainConfig (processCommand plainConfig badContextRun)
      (fun _ w' => Ended .empty w' badContextRun.executionId ↔
        EndsWell plainConfig badContextRun .empty (raisedSince .empty w')) .empty :=
  run_ends plainConfig badContextRun .empty rfl

/-- The context is validated after the acceptance, and its error is not one the
handler knows: the attempt stays reserved. -/
theorem not_run_ends : ¬ ∀ (cfg : AgentConfig) (cmd : AgentCommand) (w : AgentWorld),
    cmd.type = .run →
      Alone cfg (processCommand cfg cmd) (fun _ w' => Ended w w' cmd.executionId) w := by
  intro h
  let run := (processCommand plainConfig badContextRun).exec
    { perform := AgentOp.perform plainConfig } (fun _ => {}) .empty
  have hreserved : (run.bind fun r => (r.2.store.read 1).map (·.phase)) = some .reserved := by
    decide +kernel
  obtain ⟨⟨r, w'⟩, hrun, hread⟩ := Option.bind_eq_some_iff.mp hreserved
  obtain ⟨s, hs, hphase⟩ := Option.map_eq_some_iff.mp hread
  have hended : Ended .empty w' 1 :=
    (h plainConfig badContextRun .empty rfl).exec_alone hrun
  exact not_ended_of_reserved hs hphase hended

end RunsEnd

end Dopilot
