/-
Dopilot/AgentSteps.lean

What one operation does to the agent's world, and the invariant that the rules
keep.

`Effect` lists the effects an operation can have; whatever is raised, the world
after an operation is one of them up to a note in the history.  From it come the
three things the verification of the programs rests on: the invariant `Inv` of
the state files, the jobs and the waiters is kept by every operation that the
rules allow; the history only grows; and the executions that one process holds
are left alone by the others.
-/
import Dopilot.AgentRules

namespace Dopilot

namespace Agent

/-! ### The effects of an operation -/

/-- What an operation can do to the world. -/
inductive Effect (cfg : AgentConfig) (x : AgentAnswer) (w : AgentWorld) :
    AgentOp → AgentWorld → Prop
  | none (op : AgentOp) : Effect cfg x w op w
  | created (s : AttemptState) (store : StateStore) (h : w.store.createReserved s = some store) :
      Effect cfg x w (.createReserved s)
        { w with store := store, reserving := some s.executionId }
  | torn (s : AttemptState) :
      Effect cfg x w (.createReserved s) { w with torn := s.executionId :: w.torn }
  | marked (e : ExecutionId) (m : Mark) (s : AttemptState) (h : w.store.read e = some s) :
      Effect cfg x w (.mark e m)
        { w with store := w.store.mark e m, unreported := w.unreportedAfter e m s }
  | deleted (e : ExecutionId) :
      Effect cfg x w (.delete e)
        { w with
          store := w.store.delete e
          torn := w.torn.filter (· ≠ e)
          unreported := w.unreported.filter (· ≠ e) }
  | numbered : Effect cfg x w .uuid { w with nextEvent := w.nextEvent + 1 }
  | persisted (ev : AgentEvent) (houtbox : cfg.eventOutbox = true) :
      Effect cfg x w (.persist ev)
        (({ w with outbox := AgentWorld.enforceOutboxCap cfg w.outbox ++ [ev] }).emit ev)
  | dropped (ev : AgentEvent) :
      Effect cfg x w (.persist ev) { w with outbox := AgentWorld.enforceOutboxCap cfg w.outbox }
  | landed (ev : AgentEvent) (houtbox : cfg.eventOutbox = true) :
      Effect cfg x w (.xadd ev) { w with stream := w.stream ++ [ev] }
  | sent (ev : AgentEvent) (houtbox : cfg.eventOutbox = false) :
      Effect cfg x w (.xadd ev) (({ w with stream := w.stream ++ [ev] }).emit ev)
  | unlinked (ev : AgentEvent) :
      Effect cfg x w (.unlinkEvent ev) { w with outbox := w.outbox.filter (· ≠ ev) }
  | scheduled (e : ExecutionId) (project spider : String) (version : Option String)
      (settings args : List (String × String)) :
      Effect cfg x w (.schedule e project spider version settings args)
        { w with
          jobs := w.jobs.insert w.nextJob { executionId := e, project := project }
          nextJob := w.nextJob + 1 }
  | signalled (e : ExecutionId) (project : String) (job : Option JobId) (kill : Bool)
      (sender : SignalSender) (acked : Bool) :
      Effect cfg x w (.cancel e project job kill sender)
        { w with signals := w.signals ++ [
          { executionId := e
            job := job
            kill := kill
            sender := sender
            acked := acked
            intent := (w.store.read e).bind (·.stopIntent)
            requestedAt := (w.store.read e).bind (·.stopRequestedAt)
            sentAt := w.now }] }
  | listed (project : String) (job : JobId) (herror : x.error = .none)
      (h : ¬ (job ∈ x.jobs.running ∨ job ∈ x.jobs.pending)) :
      Effect cfg x w (.listjobs project (some job)) { w with seenGone := job :: w.seenGone }
  | wheelStarted (e : ExecutionId) (shellCommand installPath : String)
      (workingDir : Option String) (env context : List (String × String)) :
      Effect cfg x w (.wheelStart e shellCommand installPath workingDir env context)
        { w with
          children := w.children.insert w.nextChild { executionId := e }
          nextChild := w.nextChild + 1
          procs := Function.update w.procs e (some w.nextChild) }
  | terminated (e : ExecutionId) :
      Effect cfg x w (.wheelTerminate e)
        { w with
          wheelCanceled := e :: w.wheelCanceled
          children :=
            match w.procs e with
            | some n => w.children.modify n fun c => { c with signalled := true }
            | .none => w.children }
  | inproc (e : ExecutionId) :
      Effect cfg x w (.addInproc e) { w with inprocWheel := e :: w.inprocWheel }
  | awaited (t : TaskId) (e : ExecutionId) (n : Nat) (h : w.procs e = some n) :
      Effect cfg x w (.spawnWait t e) { w with waiting := w.waiting ++ [⟨n, t, e⟩] }
  | released (e : ExecutionId) :
      Effect cfg x w (.releaseExecution e)
        { w with
          inprocWheel := w.inprocWheel.filter (· ≠ e)
          procs := Function.update w.procs e .none
          wheelCanceled := w.wheelCanceled.filter (· ≠ e) }
  | begun (cmd : AgentCommand) (h : w.locks cmd.executionId = .none) :
      Effect cfg x w (.begin cmd)
        { w with
          locks := Function.update w.locks cmd.executionId (some .consumer)
          handling := some cmd
          handled := w.handled ++ [cmd]
          begun := w.emitted.length
          reserving := .none }
  | finished (cmd : AgentCommand) :
      Effect cfg x w (.finish cmd)
        { w with
          locks := Function.update w.locks cmd.executionId .none
          handling := .none
          reserving := .none
          processed := w.processed ++ [(cmd, w.begun)] }
  | locked (n : Nat) (e : ExecutionId) (h : w.locks e = .none) :
      Effect cfg x w (.lockWait n e)
        { w with locks := Function.update w.locks e (some (.waiter n)) }
  | unlocked (e : ExecutionId) :
      Effect cfg x w (.unlockWait e) { w with locks := Function.update w.locks e .none }
  | entered : Effect cfg x w .enterLoop { w with running := true }

section Effects

variable {cfg : AgentConfig} {x : AgentAnswer} {w w' : AgentWorld} {op : AgentOp}

/-- The world after an operation, up to a note in the history. -/
def Leads (cfg : AgentConfig) (x : AgentAnswer) (w : AgentWorld) (op : AgentOp)
    (w' : AgentWorld) : Prop :=
  ∃ w₁, Effect cfg x w op w₁ ∧ (w' = w₁ ∨ ∃ y, w' = w₁.note y)

theorem leads_of_fallible {α : Type} {op' : AgentOp} {y : AgentAnswer} {a : α} {w₁ : AgentWorld}
    {r : Except AgentError α} (h : w.fallible op' y a w₁ = some (r, w'))
    (heffect : Effect cfg x w op w₁) : Leads cfg x w op w' := by
  rcases AgentWorld.fallible_cases h with ⟨-, -, rfl⟩ | ⟨err, -, -, -, rfl⟩
  · exact ⟨_, heffect, .inl rfl⟩
  · cases y.late
    · exact ⟨w, .none op, .inr ⟨_, rfl⟩⟩
    · exact ⟨_, heffect, .inr ⟨_, rfl⟩⟩

/-- Every operation has one of the listed effects. -/
theorem perform_leads {r : Except AgentError op.Res}
    (h : op.perform cfg x w = some (r, w')) : Leads cfg x w op w' := by
  cases op with
  | read e | heartbeat t e size | pidKill job | logSize path | logStats path | wheelActive e
  | terminatePgid pgid | rmtree path | inproc e | now =>
      cases h
      exact ⟨w, .none _, .inl rfl⟩
  | listExecutionIds | outboxEntries | logExists path | truncateLog path | unlinkLog path
  | cache hash step | setup => exact leads_of_fallible h (.none _)
  | uuid =>
      cases h
      exact ⟨_, .numbered, .inl rfl⟩
  | addInproc e =>
      cases h
      exact ⟨_, .inproc e, .inl rfl⟩
  | enterLoop =>
      cases h
      exact ⟨_, .entered, .inl rfl⟩
  | wheelTerminate e =>
      cases h
      exact ⟨_, .terminated e, .inl rfl⟩
  | releaseExecution e =>
      cases h
      exact ⟨_, .released e, .inl rfl⟩
  | finish cmd =>
      cases h
      exact ⟨_, .finished cmd, .inl rfl⟩
  | unlockWait e =>
      cases h
      exact ⟨_, .unlocked e, .inl rfl⟩
  | delete e => exact leads_of_fallible h (.deleted e)
  | unlinkEvent ev => exact leads_of_fallible h (.unlinked ev)
  | schedule e project spider version settings args =>
      exact leads_of_fallible h (.scheduled e project spider version settings args)
  | wheelStart e shellCommand installPath workingDir env context =>
      exact leads_of_fallible h (.wheelStarted e shellCommand installPath workingDir env context)
  | cancel e project job kill sender =>
      exact leads_of_fallible h (.signalled e project job kill sender x.error.isNone)
  | createReserved s =>
      simp only [AgentOp.perform] at h
      split at h
      · cases h
        exact ⟨w, .none _, .inl rfl⟩
      split at h
      · cases h
        exact ⟨w, .none _, .inl rfl⟩
      · rename_i store hstore
        split at h
        · exact leads_of_fallible h (.torn s)
        · exact leads_of_fallible h (.created s store hstore)
  | mark e m =>
      simp only [AgentOp.perform] at h
      split at h
      · cases h
        exact ⟨w, .none _, .inl rfl⟩
      · rename_i s hread
        exact leads_of_fallible h (.marked e m s hread)
  | persist ev =>
      simp only [AgentOp.perform] at h
      split at h
      · rename_i houtbox
        split at h
        · cases h
          exact ⟨_, .persisted ev houtbox, .inl rfl⟩
        · exact leads_of_fallible h (.dropped ev)
      · cases h
        exact ⟨w, .none _, .inl rfl⟩
  | xadd ev =>
      simp only [AgentOp.perform] at h
      split at h
      · rename_i houtbox
        exact leads_of_fallible h (.landed ev houtbox)
      · rename_i houtbox
        exact leads_of_fallible h (.sent ev (by simpa using houtbox))
  | listjobs project job =>
      simp only [AgentOp.perform] at h
      rcases AgentWorld.atomically_cases h with ⟨herror, -, rfl⟩ | ⟨err, -, -, -, rfl⟩
      · rcases job with - | job
        · exact ⟨w, .none _, .inl rfl⟩
        · by_cases hlist : job ∈ x.jobs.running ∨ job ∈ x.jobs.pending
          · exact ⟨w, .none _, .inl (by simp only [if_pos hlist])⟩
          · exact ⟨_, .listed project job herror hlist, .inl (by simp only [if_neg hlist])⟩
      · exact ⟨w, .none _, .inr ⟨_, rfl⟩⟩
  | validate context =>
      simp only [AgentOp.perform] at h
      split at h
      · cases h
        exact ⟨w, .none _, .inl rfl⟩
      · cases h
        exact ⟨w, .none _, .inl rfl⟩
      · exact leads_of_fallible h (.none _)
  | spawnWait t e =>
      simp only [AgentOp.perform] at h
      cases hproc : w.procs e with
      | none =>
          rw [hproc] at h
          cases h
          exact ⟨w, .none _, .inl rfl⟩
      | some n =>
          rw [hproc] at h
          cases h
          exact ⟨_, .awaited t e n hproc, .inl rfl⟩
  | wheelWait n =>
      simp only [AgentOp.perform] at h
      split at h
      · cases h
      · obtain ⟨code, -, hcode⟩ := Option.map_eq_some_iff.mp h
        cases hcode
        exact ⟨w, .none _, .inl rfl⟩
  | begin cmd =>
      simp only [AgentOp.perform] at h
      split at h
      · rename_i hlock
        cases h
        exact ⟨_, .begun cmd hlock, .inl rfl⟩
      · cases h
  | lockWait n e =>
      simp only [AgentOp.perform] at h
      split at h
      · rename_i hlock
        cases h
        exact ⟨_, .locked n e hlock, .inl rfl⟩
      · cases h

end Effects

/-! ### The history only grows -/

/-- What stays true for good, short of a crash. -/
structure Mono (w w' : AgentWorld) : Prop where
  emitted : w.emitted <+: w'.emitted
  stream : ∀ ev ∈ w.stream, ev ∈ w'.stream
  signals : w.signals <+: w'.signals
  raised : w.raised <+: w'.raised
  seenGone : ∀ job ∈ w.seenGone, job ∈ w'.seenGone
  now : w.now ≤ w'.now
  nextJob : w.nextJob ≤ w'.nextJob
  jobs : ∀ n job, w.jobs.get n = some job →
    ∃ job', w'.jobs.get n = some job' ∧ job'.executionId = job.executionId
  children : ∀ n c, w.children.get n = some c →
    ∃ c', w'.children.get n = some c' ∧ c'.executionId = c.executionId ∧
      (c.exited.isSome = true → c'.exited = c.exited)

namespace Mono

theorem refl (w : AgentWorld) : Mono w w where
  emitted := List.prefix_rfl
  stream _ h := h
  signals := List.prefix_rfl
  raised := List.prefix_rfl
  seenGone _ h := h
  now := le_rfl
  nextJob := le_rfl
  jobs _ job h := ⟨job, h, rfl⟩
  children _ c h := ⟨c, h, rfl, fun _ => rfl⟩

theorem trans {w₁ w₂ w₃ : AgentWorld} (h : Mono w₁ w₂) (h' : Mono w₂ w₃) : Mono w₁ w₃ where
  emitted := h.emitted.trans h'.emitted
  stream ev hev := h'.stream ev (h.stream ev hev)
  signals := h.signals.trans h'.signals
  raised := h.raised.trans h'.raised
  seenGone job hjob := h'.seenGone job (h.seenGone job hjob)
  now := h.now.trans h'.now
  nextJob := h.nextJob.trans h'.nextJob
  jobs n job hjob := by
    obtain ⟨job', hjob', hid⟩ := h.jobs n job hjob
    obtain ⟨job'', hjob'', hid'⟩ := h'.jobs n job' hjob'
    exact ⟨job'', hjob'', hid'.trans hid⟩
  children n c hc := by
    obtain ⟨c', hc', hid, hexited⟩ := h.children n c hc
    obtain ⟨c'', hc'', hid', hexited'⟩ := h'.children n c' hc'
    refine ⟨c'', hc'', hid'.trans hid, fun hsome => ?_⟩
    rw [hexited' (by rw [hexited hsome]; exact hsome), hexited hsome]

theorem note (w : AgentWorld) (y : Raised) : Mono w (w.note y) :=
  { refl w with raised := List.prefix_append _ _ }

end Mono

theorem mem_drop_of_prefix {α : Type} {xs ys : List α} {n : Nat} {a : α} (h : xs <+: ys)
    (ha : a ∈ xs.drop n) : a ∈ ys.drop n := by
  obtain ⟨more, rfl⟩ := h
  rw [List.drop_append]
  exact List.mem_append_left _ ha

theorem EmittedSince.mono {w w' : AgentWorld} {n : Nat} {e : ExecutionId} {type : AgentEventType}
    (h : EmittedSince n w e type) (hmono : Mono w w') : EmittedSince n w' e type := by
  obtain ⟨ev, hev, hid, htype⟩ := h
  exact ⟨ev, mem_drop_of_prefix hmono.emitted hev, hid, htype⟩

/-- What was emitted since later, was emitted since earlier. -/
theorem EmittedSince.earlier {w : AgentWorld} {n m : Nat} {e : ExecutionId}
    {type : AgentEventType} (h : EmittedSince n w e type) (hm : m ≤ n) :
    EmittedSince m w e type := by
  obtain ⟨ev, hev, hid, htype⟩ := h
  exact ⟨ev, List.drop_subset_drop_left _ hm hev, hid, htype⟩

theorem EmittedSince.reported {w : AgentWorld} {n : Nat} {e : ExecutionId}
    {type : AgentEventType} (h : EmittedSince n w e type) : w.reported e type = true := by
  obtain ⟨ev, hev, hid, htype⟩ := h
  exact List.any_eq_true.mpr ⟨ev, List.mem_of_mem_drop hev, by simp [hid, htype]⟩

theorem reported_mono {w w' : AgentWorld} {e : ExecutionId} {type : AgentEventType}
    (h : w.reported e type = true) (hmono : Mono w w') : w'.reported e type = true := by
  obtain ⟨ev, hev, hp⟩ := List.any_eq_true.mp h
  exact List.any_eq_true.mpr ⟨ev, hmono.emitted.subset hev, hp⟩

theorem Disturbed.mono {cfg : AgentConfig} {n : Nat} {w w' : AgentWorld} (h : Disturbed cfg n w)
    (hmono : Mono w w') : Disturbed cfg n w' := by
  obtain ⟨x, hx, hbad⟩ := h
  exact ⟨x, mem_drop_of_prefix hmono.raised hx, hbad⟩

/-! ### The invariant -/

/-- What holds of the agent's world in every state of every run. -/
structure Inv (cfg : AgentConfig) (kind : ExecutionId → RunnerType) (w : AgentWorld) : Prop where
  sound : ∀ e s, w.store.read e = some s → Sound (kind e) e s
  runner : ∀ e s, w.store.read e = some s → kind e = .pythonWheel → s.phase = .started →
    cfg.wheelRunner = true
  waiting : ∀ x ∈ w.waiting, kind x.executionId = .pythonWheel ∧ w.running = true ∧
    ∃ c, w.children.get x.child = some c ∧ c.executionId = x.executionId
  procs : ∀ e n, w.procs e = some n → ∃ c, w.children.get n = some c ∧ c.executionId = e
  children : ∀ n c, w.children.get n = some c → n < w.nextChild
  jobs : ∀ n job, w.jobs.get n = some job → n < w.nextJob
  scheduled : ∀ e s n, w.store.read e = some s → s.scrapydJobId = some n →
    ∃ job, w.jobs.get n = some job ∧ job.executionId = e
  signals : ∀ g ∈ w.signals, ∀ n, g.job = some n → n < w.nextJob
  begun : w.begun ≤ w.emitted.length
  processed : ∀ p ∈ w.processed, p.2 ≤ w.emitted.length
  asleep : w.running = false → w.handling = none ∧ w.reserving = none

/-- The parts of the world that the invariant speaks of are the same. -/
structure SameParts (w w' : AgentWorld) : Prop where
  store : w'.store = w.store
  waiting : w'.waiting = w.waiting
  running : w'.running = w.running
  procs : w'.procs = w.procs
  children : w'.children = w.children
  nextChild : w'.nextChild = w.nextChild
  jobs : w'.jobs = w.jobs
  nextJob : w'.nextJob = w.nextJob
  signals : w'.signals = w.signals
  begun : w'.begun = w.begun
  processed : w'.processed = w.processed
  emitted : w.emitted <+: w'.emitted
  handling : w'.handling = w.handling
  reserving : w'.reserving = w.reserving

section Invariant

variable {cfg : AgentConfig} {kind : ExecutionId → RunnerType} {K : Cond} {i : Owner}
  {x : AgentAnswer} {w w' : AgentWorld}

theorem Inv.same (h : Inv cfg kind w) (hsame : SameParts w w') : Inv cfg kind w' where
  sound e s hs := h.sound e s (hsame.store ▸ hs)
  runner e s hs := h.runner e s (hsame.store ▸ hs)
  waiting y hy := by
    rw [hsame.running, hsame.children]
    exact h.waiting y (hsame.waiting ▸ hy)
  procs e n hn := by
    rw [hsame.children]
    exact h.procs e n (hsame.procs ▸ hn)
  children n c hc := by
    rw [hsame.nextChild]
    exact h.children n c (hsame.children ▸ hc)
  jobs n job hjob := by
    rw [hsame.nextJob]
    exact h.jobs n job (hsame.jobs ▸ hjob)
  scheduled e s n hs hn := by
    rw [hsame.jobs]
    exact h.scheduled e s n (hsame.store ▸ hs) hn
  signals g hg n hn := by
    rw [hsame.nextJob]
    exact h.signals g (hsame.signals ▸ hg) n hn
  begun := by
    rw [hsame.begun]
    exact h.begun.trans hsame.emitted.length_le
  processed p hp := (h.processed p (hsame.processed ▸ hp)).trans hsame.emitted.length_le
  asleep hr := by
    rw [hsame.handling, hsame.reserving]
    exact h.asleep (hsame.running ▸ hr)

theorem Inv.note (h : Inv cfg kind w) (y : Raised) : Inv cfg kind (w.note y) :=
  h.same ⟨rfl, rfl, rfl, rfl, rfl, rfl, rfl, rfl, rfl, rfl, rfl, List.prefix_rfl, rfl, rfl⟩

/-! What a mark that the rules allow leaves of a sound state file, field by field. -/

section Sounds

variable {e : ExecutionId} {s : AttemptState} {m : Mark}

/-- What is not done has nothing recorded. -/
theorem MayMark.blank (h : MayMark cfg kind K i w e s m) (hs : Sound (kind e) e s) :
    (m.apply s).phase ≠ .done → Blank (m.apply s) := by
  have hblank := hs.blank
  cases h <;> simp only [Mark.apply] <;> grind [Blank]

theorem MayMark.reserved (h : MayMark cfg kind K i w e s m) (hs : Sound (kind e) e s) :
    (m.apply s).phase = .reserved →
      Unmeasured (m.apply s) ∧ Unstopped (m.apply s) ∧ (m.apply s).stopEscalation = none ∧
        (m.apply s).scrapydJobId = none ∧ (m.apply s).logFlood = false := by
  have hreserved := hs.reserved
  have hblank := hs.blank
  cases h <;> simp only [Mark.apply] <;> grind [Blank, Unmeasured, Unstopped, cleanupMustWait]

theorem MayMark.started (h : MayMark cfg kind K i w e s m) (hs : Sound (kind e) e s) :
    (m.apply s).phase = .started → kind e = .scrapy →
      (m.apply s).scrapydJobId.isSome = true := by
  have hstarted := hs.started
  cases h <;> simp only [Mark.apply] <;> grind

theorem MayMark.result (h : MayMark cfg kind K i w e s m) (hs : Sound (kind e) e s) :
    (m.apply s).phase = .done → (m.apply s).result.isSome = true := by
  have hresult := hs.result
  cases h <;> simp only [Mark.apply] <;> grind

/-- A cleanup waits for a stop in flight or for what comes after it. -/
theorem MayMark.cleanup (h : MayMark cfg kind K i w e s m) (hs : Sound (kind e) e s) :
    (m.apply s).cleanupPending = true →
      (m.apply s).phase = .done ∨ (m.apply s).stopRequestedAt.isSome = true := by
  have hcleanup := hs.cleanup
  have hblank := hs.blank
  have hreserved := hs.reserved
  cases h <;> simp only [Mark.apply] <;> grind [Blank, Unstopped, cleanupMustWait]

theorem MayMark.intent (h : MayMark cfg kind K i w e s m) (hs : Sound (kind e) e s) :
    (m.apply s).stopIntent.isSome = (m.apply s).stopRequestedAt.isSome := by
  have hintent := hs.intent
  cases h <;> simp only [Mark.apply] <;> grind

theorem MayMark.wheel (h : MayMark cfg kind K i w e s m) (hs : Sound (kind e) e s) :
    kind e = .pythonWheel → Unstopped (m.apply s) ∧ (m.apply s).killPending = false ∧
      (m.apply s).terminalPending = false := by
  have hwheel := hs.wheel
  cases h <;> simp only [Mark.apply] <;> grind [Unstopped, cleanupMustWait]

theorem MayMark.unmeasured (h : MayMark cfg kind K i w e s m) (hs : Sound (kind e) e s) :
    kind e = .pythonWheel → Unmeasured (m.apply s) := by
  have hunmeasured := hs.unmeasured
  cases h <;> simp only [Mark.apply] <;> grind [Unmeasured]

/-- The marks that the rules allow keep a state file sound. -/
theorem MayMark.sound (h : MayMark cfg kind K i w e s m) (hs : Sound (kind e) e s) :
    Sound (kind e) e (m.apply s) where
  executionId := (m.apply_ids s).2.1.trans hs.executionId
  runnerType := (m.apply_ids s).2.2.trans hs.runnerType
  blank := h.blank hs
  reserved := h.reserved hs
  started := h.started hs
  result := h.result hs
  cleanup := h.cleanup hs
  intent := h.intent hs
  wheel := h.wheel hs
  unmeasured := h.unmeasured hs

end Sounds

/-- Only a promotion starts an attempt. -/
theorem MayMark.starts {e : ExecutionId} {s : AttemptState} {m : Mark}
    (h : MayMark cfg kind K i w e s m) (hkind : kind e = .pythonWheel)
    (hstarted : (m.apply s).phase = .started) : s.phase = .started ∨ cfg.wheelRunner = true := by
  cases h <;> simp only [Mark.apply] at hstarted <;> grind

/-- A mark names no other job than the promotion's. -/
theorem MayMark.job {e : ExecutionId} {s : AttemptState} {m : Mark} {n : JobId}
    (h : MayMark cfg kind K i w e s m) (hjob : (m.apply s).scrapydJobId = some n) :
    s.scrapydJobId = some n ∨ ∃ job, w.jobs.get n = some job ∧ job.executionId = e := by
  cases h <;> simp only [Mark.apply] at hjob <;> grind

theorem Inv.marked (h : Inv cfg kind w) {e : ExecutionId} {m : Mark} {s : AttemptState}
    (hread : w.store.read e = some s) (hm : MayMark cfg kind K i w e s m) :
    Inv cfg kind
      { w with store := w.store.mark e m, unreported := w.unreportedAfter e m s } := by
  have hself : (w.store.mark e m).read e = some (m.apply s) := by
    rw [StateStore.read_mark_self, hread]
    rfl
  -- what is known of a state file after the mark
  have hstore : ∀ {P : ExecutionId → AttemptState → Prop}, (∀ e' s', w.store.read e' = some s' →
      P e' s') → P e (m.apply s) → ∀ e' s', (w.store.mark e m).read e' = some s' → P e' s' := by
    intro P hP hPe e' s' hs'
    by_cases he : e' = e
    · subst he
      rw [hself] at hs'
      cases hs'
      exact hPe
    · rw [StateStore.read_mark_ne _ _ he] at hs'
      exact hP e' s' hs'
  refine { h with sound := ?_, runner := ?_, scheduled := ?_ }
  · exact hstore h.sound (hm.sound (h.sound e s hread))
  · refine hstore (P := fun e s => kind e = .pythonWheel → s.phase = .started →
      cfg.wheelRunner = true) h.runner fun hkind hphase => ?_
    rcases hm.starts hkind hphase with hstarted | hrunner
    · exact h.runner e s hread hkind hstarted
    · exact hrunner
  · intro e' s' n hs' hn
    refine hstore (P := fun e s => ∀ n, s.scrapydJobId = some n →
      ∃ job, w.jobs.get n = some job ∧ job.executionId = e)
      (fun e s hs n hn => h.scheduled e s n hs hn) (fun n hn => ?_) e' s' hs' n hn
    rcases hm.job hn with hold | hjob
    · exact h.scheduled e s n hread hold
    · exact hjob

theorem Inv.created (h : Inv cfg kind w) {s : AttemptState} {store : StateStore}
    (hstore : w.store.createReserved s = some store)
    (hs : Sound (kind s.executionId) s.executionId { s with phase := .reserved })
    (hawake : w.running = true) :
    Inv cfg kind { w with store := store, reserving := some s.executionId } := by
  have hread := StateStore.read_createReserved hstore
  refine { h with sound := ?_, runner := ?_, scheduled := ?_, asleep := ?_ }
  · intro e s' hs'
    rw [hread] at hs'
    split at hs'
    · rename_i he
      cases hs'
      exact he ▸ hs
    · exact h.sound e s' hs'
  · intro e s' hs' hkind hphase
    rw [hread] at hs'
    split at hs'
    · cases hs'
      cases hphase
    · exact h.runner e s' hs' hkind hphase
  · intro e s' n hs' hn
    rw [hread] at hs'
    split at hs'
    · cases hs'
      rw [(hs.reserved rfl).2.2.2.1] at hn
      cases hn
    · exact h.scheduled e s' n hs' hn
  · intro hasleep
    rw [show w.running = false from hasleep] at hawake
    cases hawake

theorem Inv.deleted (h : Inv cfg kind w) (e : ExecutionId) :
    Inv cfg kind
      { w with
        store := w.store.delete e
        torn := w.torn.filter (· ≠ e)
        unreported := w.unreported.filter (· ≠ e) } := by
  have hread : ∀ e' s', (w.store.delete e).read e' = some s' → w.store.read e' = some s' := by
    intro e' s' hs'
    by_cases he : e' = e
    · subst he
      rw [StateStore.read_delete_self] at hs'
      cases hs'
    · rwa [StateStore.read_delete_ne _ he] at hs'
  exact { h with
    sound := fun e' s' hs' => h.sound e' s' (hread e' s' hs')
    runner := fun e' s' hs' => h.runner e' s' (hread e' s' hs')
    scheduled := fun e' s' n hs' => h.scheduled e' s' n (hread e' s' hs') }

theorem Inv.scheduledJob (h : Inv cfg kind w) (job : Job) :
    Inv cfg kind { w with jobs := w.jobs.insert w.nextJob job, nextJob := w.nextJob + 1 } := by
  have hfresh : w.jobs.get w.nextJob = none := by
    cases hget : w.jobs.get w.nextJob with
    | none => rfl
    | some job' => exact absurd (h.jobs _ job' hget) (lt_irrefl _)
  have hget := Table.get_insert w.jobs job hfresh
  refine { h with jobs := ?_, scheduled := ?_, signals := ?_ }
  · intro n job' hjob'
    rw [hget] at hjob'
    split at hjob'
    · rename_i hn
      rw [hn]
      exact Nat.lt_succ_self _
    · exact (h.jobs n job' hjob').trans (Nat.lt_succ_self _)
  · intro e s n hs hn
    obtain ⟨job', hjob', hid⟩ := h.scheduled e s n hs hn
    refine ⟨job', ?_, hid⟩
    rw [hget, if_neg (h.jobs n job' hjob').ne, hjob']
  · intro g hg n hn
    exact (h.signals g hg n hn).trans (Nat.lt_succ_self _)

theorem Inv.started (h : Inv cfg kind w) (e : ExecutionId) :
    Inv cfg kind
      { w with
        children := w.children.insert w.nextChild { executionId := e }
        nextChild := w.nextChild + 1
        procs := Function.update w.procs e (some w.nextChild) } := by
  have hfresh : w.children.get w.nextChild = none := by
    cases hget : w.children.get w.nextChild with
    | none => rfl
    | some c => exact absurd (h.children _ c hget) (lt_irrefl _)
  have hget := Table.get_insert w.children { executionId := e } hfresh
  have hkept : ∀ n c, w.children.get n = some c →
      (w.children.insert w.nextChild { executionId := e }).get n = some c := by
    intro n c hc
    rw [hget, if_neg (h.children n c hc).ne, hc]
  refine { h with waiting := ?_, procs := ?_, children := ?_ }
  · intro y hy
    obtain ⟨hkind, hrunning, c, hc, hid⟩ := h.waiting y hy
    exact ⟨hkind, hrunning, c, hkept _ c hc, hid⟩
  · intro e' n hn
    by_cases he : e' = e
    · subst he
      simp only [Function.update_self] at hn
      cases hn
      refine ⟨{ executionId := e' }, ?_, rfl⟩
      show (w.children.insert w.nextChild { executionId := e' }).get w.nextChild = _
      rw [hget, if_pos rfl]
    · simp only [Function.update_of_ne he] at hn
      obtain ⟨c, hc, hid⟩ := h.procs e' n hn
      exact ⟨c, hkept n c hc, hid⟩
  · intro n c hc
    rw [hget] at hc
    split at hc
    · rename_i hn
      rw [hn]
      exact Nat.lt_succ_self _
    · exact (h.children n c hc).trans (Nat.lt_succ_self _)

/-- Children may be marked, as long as each stays its execution's. -/
theorem Inv.childrenModified (h : Inv cfg kind w) {children : Table Nat Child}
    (hget : ∀ n, (∀ c', children.get n = some c' → ∃ c, w.children.get n = some c) ∧
      ∀ c, w.children.get n = some c → ∃ c', children.get n = some c' ∧
        c'.executionId = c.executionId) :
    Inv cfg kind { w with children := children } := by
  refine { h with waiting := ?_, procs := ?_, children := ?_ }
  · intro y hy
    obtain ⟨hkind, hrunning, c, hc, hid⟩ := h.waiting y hy
    obtain ⟨c', hc', hid'⟩ := (hget _).2 c hc
    exact ⟨hkind, hrunning, c', hc', hid'.trans hid⟩
  · intro e n hn
    obtain ⟨c, hc, hid⟩ := h.procs e n hn
    obtain ⟨c', hc', hid'⟩ := (hget n).2 c hc
    exact ⟨c', hc', hid'.trans hid⟩
  · intro n c hc
    obtain ⟨c', hc'⟩ := (hget n).1 c hc
    exact h.children n c' hc'

/-- **An operation that the rules allow keeps the invariant.** -/
theorem Inv.effect {op : AgentOp} (h : Inv cfg kind w) (hmay : May cfg kind K i w op)
    (heffect : Effect cfg x w op w') : Inv cfg kind w' := by
  cases heffect with
  | none => exact h
  | created s store hstore =>
      obtain ⟨-, -, ⟨cmd, hcmd, -⟩, hs⟩ := hmay
      refine h.created hstore hs ?_
      cases hrunning : w.running with
      | true => rfl
      | false =>
          rw [(h.asleep hrunning).1] at hcmd
          cases hcmd
  | marked e m s hread => exact h.marked hread (hmay.2 s hread)
  | deleted e => exact h.deleted e
  | scheduled e project spider version settings args => exact h.scheduledJob _
  | wheelStarted e shellCommand installPath workingDir env context => exact h.started e
  | terminated e =>
      have hcanceled : Inv cfg kind { w with wheelCanceled := e :: w.wheelCanceled } :=
        h.same
          ⟨rfl, rfl, rfl, rfl, rfl, rfl, rfl, rfl, rfl, rfl, rfl, List.prefix_rfl, rfl, rfl⟩
      refine hcanceled.childrenModified fun n => ?_
      cases w.procs e with
      | none => exact ⟨fun c hc => ⟨c, hc⟩, fun c hc => ⟨c, hc, rfl⟩⟩
      | some m =>
          simp only [Table.get_modify]
          split
          · cases w.children.get n with
            | none => simp
            | some c => simp
          · exact ⟨fun c hc => ⟨c, hc⟩, fun c hc => ⟨c, hc, rfl⟩⟩
  | signalled e project job kill sender acked =>
      refine { h with signals := ?_ }
      intro g hg n hn
      rcases List.mem_append.mp hg with hg | hg
      · exact h.signals g hg n hn
      · obtain rfl := List.mem_singleton.mp hg
        -- a signal goes to the job of a state file
        obtain ⟨-, -, s, hread, hjob, -⟩ := hmay
        obtain ⟨job', hget, -⟩ := h.scheduled e s n hread (hjob ▸ hn)
        exact h.jobs n job' hget
  | awaited t e n hproc =>
      refine { h with waiting := ?_ }
      intro y hy
      rcases List.mem_append.mp hy with hy | hy
      · exact h.waiting y hy
      · obtain rfl := List.mem_singleton.mp hy
        exact ⟨hmay.1, hmay.2, h.procs e n hproc⟩
  | released e =>
      refine { h with procs := ?_ }
      intro e' n hn
      by_cases he : e' = e
      · subst he
        simp only [Function.update_self] at hn
        cases hn
      · simp only [Function.update_of_ne he] at hn
        exact h.procs e' n hn
  | begun cmd hlock =>
      refine { h with begun := le_rfl, asleep := fun hasleep => ?_ }
      rw [show w.running = true from hmay.2] at hasleep
      cases hasleep
  | finished cmd =>
      refine { h with processed := ?_, asleep := fun _ => ⟨rfl, rfl⟩ }
      intro p hp
      rcases List.mem_append.mp hp with hp | hp
      · exact h.processed p hp
      · obtain rfl := List.mem_singleton.mp hp
        exact h.begun
  | persisted ev houtbox =>
      refine h.same ⟨rfl, rfl, rfl, rfl, rfl, rfl, rfl, rfl, rfl, rfl, rfl, ?_, rfl, rfl⟩
      exact List.prefix_append _ _
  | sent ev houtbox =>
      refine h.same ⟨rfl, rfl, rfl, rfl, rfl, rfl, rfl, rfl, rfl, rfl, rfl, ?_, rfl, rfl⟩
      exact List.prefix_append _ _
  | entered =>
      refine { h with waiting := ?_, asleep := fun hc => by cases hc }
      intro y hy
      obtain ⟨hkind, -, hchild⟩ := h.waiting y hy
      exact ⟨hkind, rfl, hchild⟩
  | torn s | numbered | dropped ev | landed ev houtbox | unlinked ev | listed project job herror hl
  | inproc e | locked n e hlock | unlocked e =>
      exact h.same
        ⟨rfl, rfl, rfl, rfl, rfl, rfl, rfl, rfl, rfl, rfl, rfl, List.prefix_rfl, rfl, rfl⟩

/-- What is allowed where the invariant holds leads to where it holds. -/
theorem Inv.perform {op : AgentOp} {r : Except AgentError op.Res} (h : Inv cfg kind w)
    (hmay : May cfg kind K i w op) (hp : op.perform cfg x w = some (r, w')) :
    Inv cfg kind w' := by
  obtain ⟨w₁, heffect, rfl | ⟨y, rfl⟩⟩ := perform_leads hp
  · exact h.effect hmay heffect
  · exact (h.effect hmay heffect).note y

theorem Mono.effect {op : AgentOp} (h : Inv cfg kind w) (heffect : Effect cfg x w op w') :
    Mono w w' := by
  cases heffect with
  | persisted ev houtbox => exact { Mono.refl w with emitted := List.prefix_append _ _ }
  | landed ev houtbox =>
      exact { Mono.refl w with stream := fun _ h => List.mem_append_left _ h }
  | sent ev houtbox =>
      exact { Mono.refl w with
        emitted := List.prefix_append _ _
        stream := fun _ h => List.mem_append_left _ h }
  | scheduled e project spider version settings args =>
      refine { Mono.refl w with nextJob := Nat.le_succ _, jobs := fun n job hjob => ?_ }
      refine ⟨job, ?_, rfl⟩
      have hfresh : w.jobs.get w.nextJob = none := by
        cases hget : w.jobs.get w.nextJob with
        | none => rfl
        | some job' => exact absurd (h.jobs _ job' hget) (lt_irrefl _)
      show (w.jobs.insert w.nextJob _).get n = some job
      rw [Table.get_insert w.jobs _ hfresh, if_neg (h.jobs n job hjob).ne, hjob]
  | signalled e project job kill sender acked =>
      exact { Mono.refl w with signals := List.prefix_append _ _ }
  | listed project job herror hl =>
      exact { Mono.refl w with seenGone := fun _ h => List.mem_cons_of_mem _ h }
  | wheelStarted e shellCommand installPath workingDir env context =>
      refine { Mono.refl w with children := fun n c hc => ?_ }
      refine ⟨c, ?_, rfl, fun _ => rfl⟩
      have hfresh : w.children.get w.nextChild = none := by
        cases hget : w.children.get w.nextChild with
        | none => rfl
        | some c' => exact absurd (h.children _ c' hget) (lt_irrefl _)
      show (w.children.insert w.nextChild _).get n = some c
      rw [Table.get_insert w.children _ hfresh, if_neg (h.children n c hc).ne, hc]
  | terminated e =>
      refine { Mono.refl w with children := fun n c hc => ?_ }
      cases w.procs e with
      | none => exact ⟨c, hc, rfl, fun _ => rfl⟩
      | some m =>
          simp only [Table.get_modify, hc]
          split
          · exact ⟨{ c with signalled := true }, rfl, rfl, fun _ => rfl⟩
          · exact ⟨c, rfl, rfl, fun _ => rfl⟩
  | _ => exact { Mono.refl w with }

theorem Mono.perform {op : AgentOp} {r : Except AgentError op.Res} (h : Inv cfg kind w)
    (hp : op.perform cfg x w = some (r, w')) : Mono w w' := by
  obtain ⟨w₁, heffect, rfl | ⟨y, rfl⟩⟩ := perform_leads hp
  · exact Mono.effect h heffect
  · exact (Mono.effect h heffect).trans (Mono.note _ y)

end Invariant

/-! ### What a process may count on -/

/-- The parts of the world that only the consumer changes. -/
structure Mine (w w' : AgentWorld) : Prop where
  handling : w'.handling = w.handling
  running : w'.running = w.running
  signals : w'.signals = w.signals
  begun : w'.begun = w.begun
  reserving : w'.reserving = w.reserving
  processed : w'.processed = w.processed

/-- What is left alone for a process while the others move. -/
structure Rely (kind : ExecutionId → RunnerType) (i : Owner) (w w' : AgentWorld) : Prop where
  mono : Mono w w'
  holds : ∀ e, Holds kind w i e → Holds kind w' i e
  read : ∀ e, Holds kind w i e → w'.store.read e = w.store.read e
  lock : ∀ e, w.locks e = some i → w'.locks e = some i
  running : w.running = true → w'.running = true
  mine : i = .consumer → Mine w w'

/-- What a process promises: an operation that the rules allow. -/
def guar (cfg : AgentConfig) (kind : ExecutionId → RunnerType) (K : Cond) (i : Owner)
    (w w' : AgentWorld) : Prop :=
  ∃ op x r, K.op op x w ∧ AgentOp.perform cfg op x w = some (r, w') ∧ May cfg kind K i w op

theorem Mine.refl (w : AgentWorld) : Mine w w := ⟨rfl, rfl, rfl, rfl, rfl, rfl⟩

theorem Mine.trans {w₁ w₂ w₃ : AgentWorld} (h : Mine w₁ w₂) (h' : Mine w₂ w₃) : Mine w₁ w₃ :=
  ⟨h'.handling.trans h.handling, h'.running.trans h.running, h'.signals.trans h.signals,
    h'.begun.trans h.begun, h'.reserving.trans h.reserving, h'.processed.trans h.processed⟩

namespace Rely

variable {kind : ExecutionId → RunnerType} {i j : Owner} {w w' w₁ w₂ w₃ : AgentWorld}

theorem refl (i : Owner) (w : AgentWorld) : Rely kind i w w where
  mono := Mono.refl w
  holds _ h := h
  read _ _ := rfl
  lock _ h := h
  running h := h
  mine _ := Mine.refl w

theorem trans (h : Rely kind i w₁ w₂) (h' : Rely kind i w₂ w₃) : Rely kind i w₁ w₃ where
  mono := h.mono.trans h'.mono
  holds e he := h'.holds e (h.holds e he)
  read e he := (h'.read e (h.holds e he)).trans (h.read e he)
  lock e he := h'.lock e (h.lock e he)
  running hr := h'.running (h.running hr)
  mine hi := (h.mine hi).trans (h'.mine hi)

/-- Nothing that a process counts on is touched. -/
theorem still (hmono : Mono w w') (hstore : w'.store = w.store) (hlocks : w'.locks = w.locks)
    (hmine : Mine w w') : Rely kind i w w' where
  mono := hmono
  holds e he := by
    cases i with
    | consumer => simpa only [Holds, hlocks, hmine.running] using he
    | waiter n => simpa only [Holds, hlocks, hmine.running] using he
  read e _ := by rw [hstore]
  lock e he := by rw [hlocks, he]
  running hr := by rw [hmine.running, hr]
  mine _ := hmine

theorem note (i : Owner) (w : AgentWorld) (y : Raised) : Rely kind i w (w.note y) :=
  still (Mono.note w y) rfl rfl ⟨rfl, rfl, rfl, rfl, rfl, rfl⟩

/-- A step of another process on an execution it holds. -/
theorem elsewhere {e : ExecutionId} (hij : j ≠ i) (hheld : Holds kind w j e) (hmono : Mono w w')
    (hstore : ∀ e', e' ≠ e → w'.store.read e' = w.store.read e') (hlocks : w'.locks = w.locks)
    (hrunning : w'.running = w.running) (hmine : i = .consumer → Mine w w') :
    Rely kind i w w' where
  mono := hmono
  holds e' he' := by
    cases i with
    | consumer => simpa only [Holds, hlocks, hrunning] using he'
    | waiter n => simpa only [Holds, hlocks, hrunning] using he'
  read e' he' := by
    refine hstore e' ?_
    rintro rfl
    exact hij (hheld.unique he')
  lock e' he' := by rw [hlocks, he']
  running hr := by rw [hrunning, hr]
  mine := hmine

/-- A change of a lock that the process does not hold. -/
theorem lockElsewhere {e : ExecutionId} {o : Option Owner} (hmono : Mono w w')
    (hlock : w.locks e ≠ some i) (hstore : w'.store = w.store)
    (hlocks : w'.locks = Function.update w.locks e o) (hrunning : w'.running = w.running)
    (hmine : i = .consumer → Mine w w') : Rely kind i w w' := by
  have hsame : ∀ e', w.locks e' = some i → w'.locks e' = some i := by
    intro e' he'
    have hne : e' ≠ e := by
      rintro rfl
      exact hlock he'
    rw [hlocks, Function.update_of_ne hne, he']
  refine ⟨hmono, ?_, fun e' _ => by rw [hstore], hsame, fun hr => by rw [hrunning, hr], hmine⟩
  intro e' he'
  cases i with
  | consumer =>
      rcases he' with h | h | h
      · exact .inl h
      · exact .inr (.inl (hsame e' h))
      · exact .inr (.inr (by rw [hrunning, h]))
  | waiter n => exact ⟨he'.1, hsame e' he'.2.1, by rw [hrunning, he'.2.2]⟩

end Rely

section Guarantee

variable {cfg : AgentConfig} {kind : ExecutionId → RunnerType} {K : Cond} {i j : Owner}
  {x : AgentAnswer} {w w' : AgentWorld}

/-- What an operation of one process leaves alone for another. -/
theorem Rely.effect {op : AgentOp} (h : Inv cfg kind w) (hmay : May cfg kind K i w op)
    (heffect : Effect cfg x w op w') (hij : j ≠ i) : Rely kind j w w' := by
  have hmono := Mono.effect h heffect
  cases heffect with
  | none => exact .refl j w
  | created s store hstore =>
      obtain ⟨rfl, hheld, -⟩ := hmay
      refine .elsewhere hij.symm hheld hmono (fun e' he' => ?_) rfl rfl fun hj => (hij hj).elim
      show store.read e' = _
      rw [StateStore.read_createReserved hstore, if_neg he']
  | marked e m s hread =>
      exact .elsewhere hij.symm hmay.1 hmono (fun e' he' => StateStore.read_mark_ne _ _ he') rfl rfl
        fun _ => ⟨rfl, rfl, rfl, rfl, rfl, rfl⟩
  | deleted e =>
      exact .elsewhere hij.symm hmay.1 hmono (fun e' he' => StateStore.read_delete_ne _ he') rfl rfl
        fun _ => ⟨rfl, rfl, rfl, rfl, rfl, rfl⟩
  | signalled e project job kill sender acked =>
      obtain ⟨rfl, hheld, -⟩ := hmay
      exact .elsewhere hij.symm hheld hmono (fun _ _ => rfl) rfl rfl fun hj => (hij hj).elim
  | begun cmd hlock =>
      obtain ⟨rfl, -⟩ := hmay
      refine .lockElsewhere hmono ?_ rfl rfl rfl fun hj => (hij hj).elim
      rw [hlock]
      exact fun hc => by cases hc
  | finished cmd =>
      obtain ⟨rfl, hlock, -⟩ := hmay
      refine .lockElsewhere hmono ?_ rfl rfl rfl fun hj => (hij hj).elim
      rw [hlock]
      exact fun hc => hij (Option.some.inj hc).symm
  | locked n e hlock =>
      obtain ⟨rfl, -⟩ := hmay
      refine .lockElsewhere hmono ?_ rfl rfl rfl fun _ => ⟨rfl, rfl, rfl, rfl, rfl, rfl⟩
      rw [hlock]
      exact fun hc => by cases hc
  | unlocked e =>
      obtain ⟨n, rfl, hlock, -⟩ := hmay
      refine .lockElsewhere hmono ?_ rfl rfl rfl fun _ => ⟨rfl, rfl, rfl, rfl, rfl, rfl⟩
      rw [hlock]
      exact fun hc => hij (Option.some.inj hc).symm
  | entered =>
      obtain rfl : i = .consumer := hmay
      refine ⟨hmono, ?_, fun _ _ => rfl, fun _ h => h, fun _ => rfl, fun hj => (hij hj).elim⟩
      intro e he
      cases j with
      | consumer => exact (hij rfl).elim
      | waiter n => exact ⟨he.1, he.2.1, rfl⟩
  | _ => exact .still hmono rfl rfl ⟨rfl, rfl, rfl, rfl, rfl, rfl⟩

/-- An operation that touches neither a state file nor a lock nor the consumer's
own parts. -/
def Silent : AgentOp → Prop
  | .createReserved _ | .mark .. | .delete _ | .cancel .. | .begin _ | .finish _ | .lockWait ..
  | .unlockWait _ | .enterLoop => False
  | _ => True

/-- A silent operation leaves everything alone also for the one who does it. -/
theorem Rely.silent {op : AgentOp} {r : Except AgentError op.Res} (h : Inv cfg kind w)
    (hp : op.perform cfg x w = some (r, w')) (hop : Silent op) : Rely kind j w w' := by
  obtain ⟨w₁, heffect, hw'⟩ := perform_leads hp
  have hrely : Rely kind j w w₁ := by
    have hmono := Mono.effect h heffect
    cases heffect with
    | none => exact .refl j w
    | created s store hstore | torn s | marked e m s hread | deleted e
    | signalled e project job kill sender acked | begun cmd hlock | finished cmd
    | locked n e hlock | unlocked e | entered => exact hop.elim
    | _ => exact .still hmono rfl rfl ⟨rfl, rfl, rfl, rfl, rfl, rfl⟩
  rcases hw' with rfl | ⟨y, rfl⟩
  · exact hrely
  · exact hrely.trans (.note j _ y)

theorem guar_step (h : Inv cfg kind w) (hguar : guar cfg kind K i w w') :
    Inv cfg kind w' ∧ ∀ j, j ≠ i → Rely kind j w w' := by
  obtain ⟨op, x, r, -, hp, hmay⟩ := hguar
  refine ⟨h.perform hmay hp, fun j hij => ?_⟩
  obtain ⟨w₁, heffect, rfl | ⟨y, rfl⟩⟩ := perform_leads hp
  · exact .effect h hmay heffect hij
  · exact (Rely.effect h hmay heffect hij).trans (.note j _ y)

/-! ### The surroundings -/

theorem move_step (h : Inv cfg kind w) (m : AgentMove) :
    Inv cfg kind (w.move m) ∧ ∀ i, Rely kind i w (w.move m) := by
  cases m with
  | tick dt =>
      refine ⟨h.same ⟨rfl, rfl, rfl, rfl, rfl, rfl, rfl, rfl, rfl, rfl, rfl, List.prefix_rfl, rfl,
        rfl⟩, fun i => .still ?_ rfl rfl ⟨rfl, rfl, rfl, rfl, rfl, rfl⟩⟩
      exact { Mono.refl w with now := Int.le_add_of_nonneg_right (Int.natCast_nonneg dt) }
  | eof e =>
      refine ⟨{ h with procs := ?_ }, fun i => .still ?_ rfl rfl ⟨rfl, rfl, rfl, rfl, rfl, rfl⟩⟩
      · intro e' n hn
        by_cases he : e' = e
        · subst he
          simp only [AgentWorld.move, Function.update_self] at hn
          cases hn
        · simp only [AgentWorld.move, Function.update_of_ne he] at hn
          exact h.procs e' n hn
      · exact { Mono.refl w with }
  | jobEnds job =>
      have hget : ∀ n j, w.jobs.get n = some j →
          ∃ j', (w.move (.jobEnds job)).jobs.get n = some j' ∧ j'.executionId = j.executionId := by
        intro n j hj
        simp only [AgentWorld.move, Table.get_modify, hj]
        split
        · refine ⟨_, rfl, ?_⟩
          by_cases halive : j.alive = true
          · simp [halive]
          · simp [halive]
        · exact ⟨j, rfl, rfl⟩
      refine ⟨{ h with jobs := ?_, scheduled := ?_ },
        fun i => .still { Mono.refl w with jobs := hget } rfl rfl ⟨rfl, rfl, rfl, rfl, rfl, rfl⟩⟩
      · intro n j hj
        cases hold : w.jobs.get n with
        | none =>
            simp only [AgentWorld.move, Table.get_modify, hold] at hj
            split at hj
            · cases hj
            · cases hj
        | some j' => exact h.jobs n j' hold
      · intro e s n hs hn
        obtain ⟨j, hj, hid⟩ := h.scheduled e s n hs hn
        obtain ⟨j', hj', hid'⟩ := hget n j hj
        exact ⟨j', hj', hid'.trans hid⟩
  | childExits child code =>
      have hget : ∀ n c, w.children.get n = some c →
          ∃ c', (w.move (.childExits child code)).children.get n = some c' ∧
            c'.executionId = c.executionId ∧ (c.exited.isSome = true → c'.exited = c.exited) := by
        intro n c hc
        simp only [AgentWorld.move, Table.get_modify, hc]
        split
        · refine ⟨_, rfl, ?_⟩
          cases hexited : c.exited with
          | none => simp [hexited]
          | some code' => simp [hexited]
        · exact ⟨c, rfl, rfl, fun _ => rfl⟩
      refine ⟨h.childrenModified fun n => ⟨?_, fun c hc => ?_⟩,
        fun i => .still { Mono.refl w with children := hget } rfl rfl
          ⟨rfl, rfl, rfl, rfl, rfl, rfl⟩⟩
      · intro c hc
        cases hold : w.children.get n with
        | none =>
            simp only [Table.get_modify, hold] at hc
            split at hc
            · cases hc
            · cases hc
        | some c' => exact ⟨c', rfl⟩
      · obtain ⟨c', hc', hid, -⟩ := hget n c hc
        exact ⟨c', hc', hid⟩

theorem Inv.crash (h : Inv cfg kind w) : Inv cfg kind w.crash :=
  { h with
    waiting := fun _ hx => by cases hx
    procs := fun _ _ hn => by cases hn
    asleep := fun _ => ⟨rfl, rfl⟩ }

theorem Inv.empty : Inv cfg kind .empty where
  sound _ _ hs := by cases hs
  runner _ _ hs := by cases hs
  waiting _ hx := by cases hx
  procs _ _ hn := by cases hn
  children _ _ hc := by cases hc
  jobs _ _ hj := by cases hj
  scheduled _ _ _ hs := by cases hs
  signals _ hg := by cases hg
  begun := le_rfl
  processed _ hp := by cases hp
  asleep _ := ⟨rfl, rfl⟩

end Guarantee

end Agent

end Dopilot
