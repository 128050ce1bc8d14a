/-
Dopilot/AgentTerminals.lean

Terminals, and agents that die.

An attempt is marked done by one write and its terminal is emitted by another.
The stop machine says so in the first: with `terminal_pending` the next tick
publishes what is outstanding.  The other exits do not (the end of a job or of a
child, a run that fails, an orphan that is given up), and an agent that dies
between the two writes leaves an attempt that is done and that nobody reports
(`not_survives`).

Such executions are noted in `unreported`, from the mark to the terminal.  Every
attempt that still owes its terminal is among them (`Noted`), so an agent that
dies while there are none leaves nothing behind (`survives`).
-/
import Dopilot.AgentCancels

namespace Dopilot

namespace Agent

section Terminals

variable {cfg : AgentConfig} {kind : ExecutionId → RunnerType} {K : Cond} {i : Owner}
  {w w' : AgentWorld} {e : ExecutionId} {s : AttemptState} {m : Mark} {ev : AgentEvent}
  {result : AttemptResult}

/-! ### What a state file promises -/

/-- The state file records a result that is to be reported: any but the `lost` of a
reclaim, which names no reason. -/
structure Reportable (s : AttemptState) (result : AttemptResult) : Prop where
  done : s.phase = .done
  recorded : s.result = some result
  reported : ¬ (result = .lost ∧ s.lostReason = none)

/-- A terminal for this result is in the outbox or in the stream. -/
def Delivered (w : AgentWorld) (e : ExecutionId) (result : AttemptResult) : Prop :=
  ∃ ev, w.durable ev ∧ ev.executionId = e ∧ ev.type = result.eventType

/-- Every result that is to be reported is delivered, or its terminal is outstanding. -/
def Covered (w : AgentWorld) : Prop :=
  ∀ e s result, w.store.read e = some s → Reportable s result →
    s.terminalPending = true ∨ Delivered w e result

/-- The next write to the outbox drops no terminal that has not got to the stream. -/
def KeepsTerminals (cfg : AgentConfig) (w : AgentWorld) : Prop :=
  ∀ ev ∈ w.outbox, ev.type.isTerminal = true →
    ev ∈ AgentWorld.enforceOutboxCap cfg w.outbox ∨ ev ∈ w.stream

/-- Runs in which the cap of the outbox costs no terminal, and in which the agent
does not die between the mark of an attempt and its terminal. -/
def Uninterrupted (cfg : AgentConfig) : Cond where
  env _ _ := True
  launch _ _ _ := True
  op op _ w := match op with
    | .persist _ => KeepsTerminals cfg w
    | _ => True
  crash w := w.unreported = []

/-! ### What is owed -/

theorem owes_iff :
    w.owes e s = true ↔ ∃ result, Reportable s result ∧ s.terminalPending = false ∧
      w.reported e result.eventType = false := by
  unfold AgentWorld.owes
  constructor
  · intro h
    split at h
    · rename_i result hdone hresult
      simp only [Bool.and_eq_true, Bool.not_eq_true', Bool.and_eq_false_iff,
        beq_eq_false_iff_ne] at h
      refine ⟨result, ⟨hdone, hresult, ?_⟩, h.1.1, h.2⟩
      rintro ⟨hlost, hreason⟩
      exact h.1.2.elim (fun hc => hc hlost) fun hc => hc hreason
    · cases h
  · rintro ⟨result, ⟨hdone, hresult, hlost⟩, hpending, hreported⟩
    rw [hdone, hresult]
    simp only [hpending, hreported, Bool.not_false, Bool.true_and, Bool.and_true]
    simpa [imp_iff_not_or, Option.isSome_iff_ne_none] using hlost

theorem not_owes_of_phase (h : s.phase ≠ .done) : w.owes e s = false := by
  by_contra hc
  obtain ⟨result, hs, -⟩ := owes_iff.mp (Bool.not_eq_false _ ▸ hc)
  exact h hs.done

/-- Nothing is owed once a terminal of the recorded type was emitted. -/
theorem not_owes_of_reported (hresult : s.result = some result)
    (h : w.reported e result.eventType = true) : w.owes e s = false := by
  by_contra hc
  obtain ⟨result', hs, -, hnone⟩ := owes_iff.mp (Bool.not_eq_false _ ▸ hc)
  obtain rfl := Option.some.inj (hresult.symm.trans hs.recorded)
  rw [h] at hnone
  cases hnone

/-- What is owed depends on what was emitted alone. -/
theorem owes_congr (h : w'.emitted = w.emitted) : w'.owes e s = w.owes e s := by
  unfold AgentWorld.owes AgentWorld.reported
  rw [h]

/-- What is owed after one more event was owed before. -/
theorem owes_of_emitted (hemitted : w'.emitted = w.emitted ++ [ev]) (h : w'.owes e s = true) :
    w.owes e s = true := by
  obtain ⟨result, hs, hpending, hreported⟩ := owes_iff.mp h
  refine owes_iff.mpr ⟨result, hs, hpending, ?_⟩
  unfold AgentWorld.reported at hreported ⊢
  rw [hemitted, List.any_append, Bool.or_eq_false_iff] at hreported
  exact hreported.1

/-- An event that was emitted is reported. -/
theorem reported_of_mem (h : ev ∈ w.emitted) : w.reported ev.executionId ev.type = true := by
  unfold AgentWorld.reported
  rw [List.any_eq_true]
  exact ⟨ev, h, by simp⟩

theorem AttemptResult.eventType_terminal (result : AttemptResult) :
    result.eventType.isTerminal = true := by
  cases result <;> rfl

/-! ### What is known of terminals -/

/-- Every attempt that owes its terminal is noted, and every terminal that was emitted
is durable. -/
structure Noted (w : AgentWorld) : Prop where
  owed : ∀ e s, w.store.read e = some s → w.owes e s = true → e ∈ w.unreported
  durable : ∀ ev ∈ w.emitted, ev.type.isTerminal = true → w.durable ev

theorem Noted.delivered (h : Noted w) (hreported : w.reported e result.eventType = true) :
    Delivered w e result := by
  unfold AgentWorld.reported at hreported
  obtain ⟨ev, hev, hmatch⟩ := List.any_eq_true.mp hreported
  simp only [Bool.and_eq_true, decide_eq_true_eq] at hmatch
  refine ⟨ev, h.durable ev hev ?_, hmatch.1, hmatch.2⟩
  rw [hmatch.2]
  exact AttemptResult.eventType_terminal result

/-- Where nothing is unreported everything is covered. -/
theorem Noted.covered (h : Noted w) (hnone : w.unreported = []) : Covered w := by
  intro e s result hread hs
  by_cases hpending : s.terminalPending = true
  · exact .inl hpending
  · right
    refine h.delivered ?_
    by_contra hreported
    have howed := h.owed e s hread
      (owes_iff.mpr ⟨result, hs, by simpa using hpending, by simpa using hreported⟩)
    rw [hnone] at howed
    cases howed

theorem Noted.congr (h : Noted w) (hstore : w'.store = w.store) (hemitted : w'.emitted = w.emitted)
    (hunreported : w'.unreported = w.unreported)
    (hdurable : ∀ ev ∈ w.emitted, ev.type.isTerminal = true → w.durable ev → w'.durable ev) :
    Noted w' where
  owed e s hread howes := by
    rw [hunreported]
    exact h.owed e s (hstore ▸ hread) (owes_congr hemitted ▸ howes)
  durable ev hev hterminal := by
    rw [hemitted] at hev
    exact hdurable ev hev hterminal (h.durable ev hev hterminal)

/-- A mark that is not `done` leaves nothing more owed than there was. -/
theorem MayMark.owed_before (h : MayMark cfg kind K i w e s m)
    (hnotDone : ∀ r l c x k t, m ≠ .done r l c x k t) (howes : w.owes e (m.apply s) = true) :
    w.owes e s = true := by
  obtain ⟨result, hs, hpending, hreported⟩ := owes_iff.mp howes
  cases h with
  | promoteStarted | promoteStartedWheel => cases hs.done
  | failed | aborted | orphaned | finished | waited | reclaimed | canceledStop | canceledNow
  | reclaimedWheel => exact absurd rfl (hnotDone _ _ _ _ _ _)
  | clearTerminalPending result' hphase hresult hreported' hprocessed =>
      rw [not_owes_of_reported (s := Mark.clearTerminalPending.apply s) hresult hreported'] at howes
      cases howes
  | stats | stopRequested | stopEscalation | cleanupPending | killAttempt | clearKillPending
  | canceled | logFlood | logCapped =>
      exact owes_iff.mpr ⟨result, ⟨hs.done, hs.recorded, hs.reported⟩, hpending, hreported⟩

theorem Noted.marked (h : Noted w) (hread : w.store.read e = some s)
    (hm : MayMark cfg kind K i w e s m) :
    Noted { w with store := w.store.mark e m, unreported := w.unreportedAfter e m s } where
  durable := h.durable
  owed e' s' hread' howes := by
    change w.owes e' s' = true at howes
    change (w.store.mark e m).read e' = some s' at hread'
    show e' ∈ w.unreportedAfter e m s
    by_cases he : e' = e
    · subst he
      rw [StateStore.read_mark_self, hread] at hread'
      obtain rfl := Option.some.inj hread'
      unfold AgentWorld.unreportedAfter
      split
      · rw [if_pos howes]
        exact List.mem_cons_self
      · rename_i hnotDone
        exact h.owed e' s hread (hm.owed_before (fun _ _ _ _ _ _ => hnotDone _ _ _ _ _ _) howes)
    · rw [StateStore.read_mark_ne _ _ he] at hread'
      have hin := h.owed e' s' hread' howes
      have hkept : e' ∈ w.unreported.filter (· ≠ e) :=
        List.mem_filter.mpr ⟨hin, by simpa using he⟩
      unfold AgentWorld.unreportedAfter
      split
      · split
        · exact List.mem_cons_of_mem _ hkept
        · exact hkept
      · exact hin

/-- A terminal that the rules allow is all its attempt owes. -/
theorem Reports.settles {o : Option AttemptState} (h : Reports kind K w ev o)
    (hread : o = some s) (hreported : w'.reported ev.executionId ev.type = true) :
    w'.owes ev.executionId s = false := by
  cases h with
  | missing htype => cases hread
  | canceled o htype hcmd hdone =>
      obtain ⟨-, hresult⟩ := hdone s hread
      rw [htype] at hreported
      exact not_owes_of_reported hresult hreported
  | aborted s' hphase hres hev =>
      obtain rfl := Option.some.inj hread
      exact not_owes_of_phase (by rw [hphase]; exact fun hc => by cases hc)
  | recorded s' hphase hev =>
      obtain rfl := Option.some.inj hread
      obtain ⟨result, hresult, htype⟩ := hev.type
      rw [htype] at hreported
      exact not_owes_of_reported hresult hreported
  | stopped s' hphase hresult hintent htype =>
      obtain rfl := Option.some.inj hread
      rw [htype] at hreported
      exact not_owes_of_reported hresult hreported
  | observed s' hkind hphase hstop hcmd hgone hres =>
      obtain rfl := Option.some.inj hread
      exact not_owes_of_phase (by rw [hphase]; exact fun hc => by cases hc)

/-- An event that is handed over, to a world that is otherwise like `w` but for its
outbox and its stream. -/
theorem Noted.emitted (h : Noted w) (hmay : MayEmit kind K i w ev)
    (hstore : w'.store = w.store) (hemitted : w'.emitted = w.emitted)
    (hunreported : w'.unreported = w.unreported) (hdurable : w'.durable ev)
    (hkept : ∀ ev' ∈ w.emitted, ev'.type.isTerminal = true → w.durable ev' → w'.durable ev') :
    Noted (w'.emit ev) where
  durable ev' hev' hterminal := by
    change ev' ∈ w'.emitted ++ [ev] at hev'
    show w'.durable ev'
    rcases List.mem_append.mp hev' with hbefore | hnew
    · rw [hemitted] at hbefore
      exact hkept ev' hbefore hterminal (h.durable ev' hbefore hterminal)
    · rw [List.mem_singleton.mp hnew]
      exact hdurable
  owed e s hread howes := by
    have hread : w.store.read e = some s := hstore ▸ hread
    have hall : (w'.emit ev).emitted = w.emitted ++ [ev] := by rw [← hemitted]; rfl
    have hin := h.owed e s hread (owes_of_emitted hall howes)
    show e ∈ if ev.type.isTerminal then w'.unreported.filter (· ≠ ev.executionId)
      else w'.unreported
    rw [hunreported]
    split
    · rename_i hterminal
      refine List.mem_filter.mpr ⟨hin, ?_⟩
      rw [decide_eq_true_eq]
      rintro rfl
      have hreported : (w'.emit ev).reported ev.executionId ev.type = true :=
        reported_of_mem (hall ▸ List.mem_append_right _ (List.mem_singleton_self ev))
      rw [(hmay hterminal).2.settles hread hreported] at howes
      cases howes
    · exact hin

theorem Noted.effect {op : AgentOp} {x : AgentAnswer} (h : Noted w)
    (hK : (Uninterrupted cfg).op op x w) (hmay : May cfg kind K i w op)
    (heffect : Effect cfg x w op w') : Noted w' := by
  -- the cap of the outbox spares what was emitted
  have hcap : KeepsTerminals cfg w → ∀ ev' : AgentEvent, ev'.type.isTerminal = true →
      w.durable ev' → ev' ∈ AgentWorld.enforceOutboxCap cfg w.outbox ∨ ev' ∈ w.stream := by
    rintro hkeeps ev' hterminal (hout | hstream)
    · exact hkeeps ev' hout hterminal
    · exact .inr hstream
  cases heffect with
  | created s store hstore =>
      refine ⟨fun e s' hread howes => ?_, h.durable⟩
      have hread' := StateStore.read_createReserved hstore e
      by_cases he : e = s.executionId
      · rw [if_pos he] at hread'
        obtain rfl := Option.some.inj (hread'.symm.trans hread)
        rw [not_owes_of_phase (fun hc => by cases hc)] at howes
        cases howes
      · rw [if_neg he] at hread'
        exact h.owed e s' (hread'.symm.trans hread) howes
  | marked e m s hread => exact h.marked hread (hmay.2 s hread)
  | deleted e =>
      refine ⟨fun e' s hread howes => ?_, h.durable⟩
      change (w.store.delete e).read e' = some s at hread
      by_cases he : e' = e
      · rw [he, StateStore.read_delete_self] at hread
        cases hread
      · rw [StateStore.read_delete_ne _ he] at hread
        exact List.mem_filter.mpr ⟨h.owed e' s hread howes, by simpa using he⟩
  | persisted ev houtbox =>
      refine h.emitted hmay rfl rfl rfl (.inl ?_) fun ev' _ hterminal hbefore => ?_
      · exact List.mem_append_right _ (List.mem_singleton_self ev)
      · exact (hcap hK ev' hterminal hbefore).imp_left (List.mem_append_left _)
  | dropped ev =>
      exact h.congr rfl rfl rfl fun ev' _ hterminal hbefore => hcap hK ev' hterminal hbefore
  | landed ev houtbox =>
      exact h.congr rfl rfl rfl fun ev' _ _ hbefore => hbefore.imp_right (List.mem_append_left _)
  | sent ev houtbox =>
      have hmay : MayEmit kind K i w ev := hmay.resolve_left fun hc => by
        rw [hc] at houtbox
        cases houtbox
      refine h.emitted hmay rfl rfl rfl (.inr ?_) fun ev' _ _ hbefore => ?_
      · exact List.mem_append_right _ (List.mem_singleton_self ev)
      · exact hbefore.imp_right (List.mem_append_left _)
  | unlinked ev =>
      -- what is unlinked has got to the stream
      refine h.congr rfl rfl rfl fun ev' _ _ hbefore => ?_
      rcases hbefore with hout | hstream
      · by_cases he : ev' = ev
        · rw [he]
          exact .inr hmay
        · exact .inl (List.mem_filter.mpr ⟨hout, by simpa using he⟩)
      · exact .inr hstream
  | _ => exact h.congr rfl rfl rfl fun _ _ _ hbefore => hbefore

theorem Noted.note (h : Noted w) (y : Raised) : Noted (w.note y) :=
  h.congr rfl rfl rfl fun _ _ _ hbefore => hbefore

theorem Noted.perform {op : AgentOp} {x : AgentAnswer} {r : Except AgentError op.Res}
    (h : Noted w) (hK : (Uninterrupted cfg).op op x w) (hmay : May cfg kind K i w op)
    (hp : op.perform cfg x w = some (r, w')) : Noted w' := by
  obtain ⟨w₁, heffect, rfl | ⟨y, rfl⟩⟩ := perform_leads hp
  · exact h.effect hK hmay heffect
  · exact (h.effect hK hmay heffect).note y

theorem noted_of_run {s : State}
    (h : StateMachine.RunOk (step cfg kind) (Uninterrupted cfg).Holds start s) :
    Noted s.world := by
  refine run_invariant ?_ ?_ ?_ ?_ h
  · exact ⟨fun _ _ hread => (by cases hread), fun _ hev => (by cases hev)⟩
  · intro w m _ hw _
    cases m <;> exact hw.congr rfl rfl rfl fun _ _ _ hbefore => hbefore
  · exact fun i op x r w w' _ hw hK hmay hp => hw.perform hK hmay hp
  · exact fun w _ hw _ => hw.congr rfl rfl rfl fun _ _ _ hbefore => hbefore

/-! ### What is outstanding -/

/-- A terminal is outstanding for cancels only. -/
def PendingCanceled (w : AgentWorld) : Prop :=
  ∀ e s, w.store.read e = some s → s.terminalPending = true → s.result = some .canceled

/-- An attempt whose terminal is outstanding is over. -/
theorem Sound.done_of_pending {kind : RunnerType} (hs : Sound kind e s)
    (h : s.terminalPending = true) : s.phase = .done := by
  by_contra hphase
  rw [(hs.blank hphase).terminalPending] at h
  cases h

theorem MayMark.pending_canceled (h : MayMark cfg kind K i w e s m) (hs : Sound (kind e) e s)
    (hresult : s.terminalPending = true → s.result = some .canceled)
    (hpending : (m.apply s).terminalPending = true) : (m.apply s).result = some .canceled := by
  have hdone : s.terminalPending = true → s.phase = .done := hs.done_of_pending
  cases h with
  | canceledStop | canceledNow => rfl
  | reclaimed | clearTerminalPending => cases hpending
  | reclaimedWheel hkind hcmd =>
      have hpending : s.terminalPending = true := hpending
      rw [(hs.wheel hkind).2.2] at hpending
      cases hpending
  | failed | aborted | orphaned | finished | waited =>
      -- the attempt was not over, so nothing was outstanding
      grind [Mark.apply]
  | promoteStarted | promoteStartedWheel | stats | stopRequested | stopEscalation | cleanupPending
  | killAttempt | clearKillPending | canceled | logFlood | logCapped => exact hresult hpending

theorem PendingCanceled.perform {op : AgentOp} {x : AgentAnswer} {r : Except AgentError op.Res}
    (h : PendingCanceled w) (hinv : Inv cfg kind w) (hmay : May cfg kind K i w op)
    (hp : op.perform cfg x w = some (r, w')) : PendingCanceled w' := by
  intro e s' hread' hpending
  have hfile := fileStep hmay hp e
  rw [hread'] at hfile
  generalize hread : w.store.read e = o at hfile
  cases hfile with
  | same => exact h e s' hread hpending
  | created s' hs hphase hcmd =>
      rw [(hs.blank (by rw [hphase]; exact fun hc => by cases hc)).terminalPending] at hpending
      cases hpending
  | marked m s hheld hm => exact hm.pending_canceled (hinv.sound e s hread) (h e s hread) hpending

theorem pendingCanceled_of_run {s : State}
    (h : StateMachine.RunOk (step cfg kind) K.Holds start s) : PendingCanceled s.world := by
  refine run_invariant ?_ ?_ ?_ ?_ h
  · exact fun _ _ hread => by cases hread
  · intro w m _ hw _
    cases m <;> exact hw
  · exact fun i op x r w w' hinv hw _ hmay hp => hw.perform hinv hmay hp
  · exact fun w _ hw _ => hw

/-- The attempt is canceled, and its terminal is outstanding. -/
structure Outstanding (s : AttemptState) : Prop where
  done : s.phase = .done
  result : s.result = some .canceled
  pending : s.terminalPending = true

/-- The terminal of a cancel is outstanding, or it was emitted. -/
def Promised (w : AgentWorld) (e : ExecutionId) : Prop :=
  (∃ s, w.store.read e = some s ∧ Outstanding s) ∨ w.reported e .canceled = true

theorem MayMark.outstanding (h : MayMark cfg kind K i w e s m) (hs : Sound (kind e) e s)
    (hout : Outstanding s) : Outstanding (m.apply s) ∨ w.reported e .canceled = true := by
  obtain ⟨hdone, hresult, hpending⟩ := hout
  cases h with
  | clearTerminalPending result hphase hresult' hreported hprocessed =>
      obtain rfl := Option.some.inj (hresult.symm.trans hresult')
      exact .inr hreported
  | reclaimedWheel hkind hcmd =>
      rw [(hs.wheel hkind).2.2] at hpending
      cases hpending
  | canceledNow => exact .inl ⟨rfl, rfl, hpending⟩
  | stopEscalation | cleanupPending | killAttempt | clearKillPending | canceled | logCapped =>
      exact .inl ⟨hdone, hresult, hpending⟩
  | promoteStarted | promoteStartedWheel | failed | aborted | orphaned | stats | finished | waited
  | stopRequested | reclaimed | canceledStop | logFlood =>
      -- not of an attempt that is over
      grind

theorem Promised.perform {op : AgentOp} {x : AgentAnswer} {r : Except AgentError op.Res}
    (h : Promised w e) (hinv : Inv cfg kind w) (hmay : May cfg kind K i w op)
    (hp : op.perform cfg x w = some (r, w')) : Promised w' e := by
  have hmono := Mono.perform hinv hp
  rcases h with ⟨s, hread, hout⟩ | hreported
  swap
  · exact .inr (reported_mono hreported hmono)
  have hfile := fileStep hmay hp e
  rw [hread] at hfile
  generalize hread' : w'.store.read e = o at hfile
  cases hfile with
  | same => exact .inl ⟨s, hread', hout⟩
  | marked m s hheld hm =>
      rcases hm.outstanding (hinv.sound e s hread) hout with hout' | hreported
      · exact .inl ⟨_, hread', hout'⟩
      · exact .inr (reported_mono hreported hmono)
  | deleted s hfree hasked =>
      simp [cleanupMustWait, hout.pending] at hfree

theorem Promised.run {s s' : State}
    (h : StateMachine.RunOk (step cfg kind) K.Holds s s') (hs : (verified cfg kind K).Good s)
    (hpromised : Promised s.world e) : Promised s'.world e := by
  refine ((verified cfg kind K).run_with (J := fun w => Promised w e) ?_ ?_ ?_ h hs
    hpromised).2
  · rintro w m w' - hw - hm
    obtain rfl := Option.some.inj hm
    cases m <;> exact hw
  · rintro i w w' hinv hw ⟨op, x, r, -, hp, hmay⟩
    exact hw.perform hinv hmay hp
  · exact fun w _ hw _ => hw

/-! ### Crashes -/

/-- **Terminals survive crashes.**  When the agent dies, every result on disk that is to
be reported has its terminal in the outbox or in the stream, or it is scheduled; and
what is scheduled is delivered by the next tick that nothing disturbs. -/
theorem survives (cfg : AgentConfig) (kind : ExecutionId → RunnerType) {s : State}
    (h : StateMachine.RunOk (step cfg kind) (Uninterrupted cfg).Holds start s) :
    (∀ s', (Uninterrupted cfg).Holds s .crash → step cfg kind s .crash = some s' →
      Covered s'.world) ∧
    (∀ s₂ e f result, TickOf cfg kind (Uninterrupted cfg) s s₂ → Undisturbed cfg s s₂ →
      s.world.store.read e = some f → Reportable f result → f.terminalPending = true →
      Delivered s₂.world e result) := by
  refine ⟨fun s' hnone hcrash => ?_, fun s₂ e f result htick hquiet hread hf hpending => ?_⟩
  · obtain rfl := Option.some.inj hcrash
    exact (noted_of_run h).covered hnone
  · have hgood := good_of_run h
    have hresult := pendingCanceled_of_run h e f hread hpending
    obtain rfl := Option.some.inj (hf.recorded.symm.trans hresult)
    obtain ⟨s₁, hstart, hrest⟩ := htick.run
    have htail : StateMachine.RunOk (step cfg kind) (Uninterrupted cfg).Holds s s₂ :=
      Relation.ReflTransGen.head ⟨.start .consumer .tick, trivial, hstart⟩
        (hrest.mono Sys.Cond.holds_of_within)
    have hscrapy : kind e = .scrapy := by
      cases hkind : kind e with
      | scrapy => rfl
      | pythonWheel =>
          rw [((hgood.1.sound e f hread).wheel hkind).2.2] at hpending
          cases hpending
    rcases Promised.run htail hgood (.inl ⟨f, hread, hf.done, hresult, hpending⟩) with
      ⟨f', hread', hout⟩ | hreported
    · -- a tick leaves nothing outstanding
      have hsettled := (htick.served hgood hquiet hscrapy).swept.settled f' hread'
      rw [hout.pending] at hsettled
      cases hsettled
    · exact (noted_of_run (h.trans htail)).delivered hreported

/-! ### Runs -/

instance (cfg : AgentConfig) (w : AgentWorld) : Decidable (KeepsTerminals cfg w) :=
  inferInstanceAs (Decidable (∀ ev ∈ w.outbox, ev.type.isTerminal = true →
    ev ∈ AgentWorld.enforceOutboxCap cfg w.outbox ∨ ev ∈ w.stream))

instance (cfg : AgentConfig) (op : AgentOp) (x : AgentAnswer) (w : AgentWorld) :
    Decidable ((Uninterrupted cfg).op op x w) := by
  cases op with
  | persist ev => exact inferInstanceAs (Decidable (KeepsTerminals cfg w))
  | _ => exact inferInstanceAs (Decidable True)

instance (cfg : AgentConfig) (s : State) (a : Action) :
    Decidable ((Uninterrupted cfg).Holds s a) :=
  have _ : ∀ w a, Decidable ((Uninterrupted cfg).env w a) := fun _ _ => .isTrue trivial
  have _ : ∀ w i inp, Decidable ((Uninterrupted cfg).launch w i inp) := fun _ _ _ => .isTrue trivial
  have _ : ∀ w, Decidable ((Uninterrupted cfg).crash w) := fun w =>
    inferInstanceAs (Decidable (w.unreported = []))
  inferInstance

instance (cfg : AgentConfig) (i : Owner) (s : State) (a : Action) :
    Decidable (((Uninterrupted cfg).within i).Holds s a) :=
  have _ : ∀ w a, Decidable ((Uninterrupted cfg).env w a) := fun _ _ => .isTrue trivial
  have _ : ∀ w i inp, Decidable ((Uninterrupted cfg).launch w i inp) := fun _ _ _ => .isTrue trivial
  inferInstance

/-- The job has ended, and scrapyd lists it as finished. -/
def sampleFinished : AgentAnswer := { jobs := { finished := [0] } }

/-- A job ends, and in the next tick the agent makes `n` operations. -/
def sampleEnding (n : Nat) : List Action :=
  sampleStarted ++ [.env (.jobEnds 0)] ++ runs .tick n sampleFinished

/-- A cancel is given up at its deadline, and the agent dies before it says so. -/
def sampleForsaken : List Action :=
  sampleOverdue ++ runs .tick 7 sampleRunning ++ [.crash] ++ runs .boot 8

/-- The attempt is done with this result, and its terminal is scheduled as said. -/
def checkDone (result : AttemptResult) (pending : Bool) (s : State) : Bool :=
  (s.world.store.read 7).any fun f =>
    f.phase == .done && f.result == some result && f.terminalPending == pending

theorem exists_of_checkDone {pending : Bool} {s : State} (h : checkDone result pending s = true)
    (hlost : result ≠ .lost) :
    ∃ f, s.world.store.read 7 = some f ∧ Reportable f result ∧ f.terminalPending = pending := by
  obtain ⟨f, hread, hf⟩ := (Option.any_eq_true _ _).mp h
  simp only [Bool.and_eq_true, beq_iff_eq] at hf
  exact ⟨f, hread, ⟨hf.1.1, hf.1.2, fun hc => hlost hc.1⟩, hf.2⟩

theorem survives_sample :
    (∃ s s' : State, step sampleConfig (fun _ => .scrapy) s .crash = some s' ∧
      checkDone .finished false s = true ∧ Delivered s'.world 7 .finished) ∧
    (∃ s s₂ : State, TickOf sampleConfig (fun _ => .scrapy) (Uninterrupted sampleConfig) s s₂ ∧
      checkDone .canceled true s = true ∧ Delivered s₂.world 7 .canceled) := by
  constructor
  · obtain ⟨s, hrun, hs⟩ := StateMachine.RunOk.exists_of_checkedRun
      (step sampleConfig fun _ => .scrapy) (Uninterrupted sampleConfig).Holds start
      (sampleEnding 12)
      (fun s => checkDone .finished false s && decide ((Uninterrupted sampleConfig).Holds s .crash))
      (by decide +kernel)
    simp only [Bool.and_eq_true, decide_eq_true_eq] at hs
    obtain ⟨hdone, hnone⟩ := hs
    obtain ⟨f, hread, hf, hpending⟩ := exists_of_checkDone hdone fun hc => by cases hc
    refine ⟨s, _, rfl, hdone, ?_⟩
    refine ((survives sampleConfig (fun _ => .scrapy) hrun).1 _ hnone rfl 7 f .finished hread
      hf).resolve_left ?_
    rw [hpending]
    exact Bool.false_ne_true
  · obtain ⟨s, s₂, hrun, htick, hs⟩ := exists_tick sampleConfig (fun _ => .scrapy)
      (Uninterrupted sampleConfig) sampleForsaken
      (List.replicate 19 (.op .consumer fun _ => sampleRunning))
      (fun s s₂ => checkDone .canceled true s && decide (Undisturbed sampleConfig s s₂))
      (by decide +kernel)
    simp only [Bool.and_eq_true, decide_eq_true_eq] at hs
    obtain ⟨hdone, hquiet⟩ := hs
    obtain ⟨f, hread, hf, hpending⟩ := exists_of_checkDone hdone fun hc => by cases hc
    exact ⟨s, s₂, htick, hdone, (survives sampleConfig (fun _ => .scrapy) hrun).2 s₂ 7 f .canceled
      htick hquiet hread hf hpending⟩

/-- **Terminals do not survive every crash**: an agent that dies between the mark and
the terminal leaves a job that is finished on disk, and nothing that would say so. -/
theorem not_survives : ¬ ∀ (cfg : AgentConfig) (kind : ExecutionId → RunnerType) (s s' : State),
    StateMachine.Run (step cfg kind) start s → step cfg kind s .crash = some s' →
      Covered s'.world := by
  intro h
  obtain ⟨s, hrun, hs⟩ := StateMachine.RunOk.exists_of_checkedRun
    (step sampleConfig fun _ => .scrapy) (fun _ _ => True) start (sampleEnding 10)
    (fun s => checkDone .finished false s &&
      (s.world.outbox ++ s.world.stream).all fun ev => ev.type != .finished) (by decide +kernel)
  simp only [Bool.and_eq_true] at hs
  obtain ⟨hdone, hmissing⟩ := hs
  obtain ⟨f, hread, hf, hpending⟩ := exists_of_checkDone hdone fun hc => by cases hc
  rcases h sampleConfig (fun _ => .scrapy) s _ hrun rfl 7 f .finished hread hf with
    hsome | ⟨ev, hdurable, -, htype⟩
  · rw [hpending] at hsome
    cases hsome
  · have hev := List.all_eq_true.mp hmissing ev (List.mem_append.mpr hdurable)
    rw [htype] at hev
    cases hev

end Terminals

end Agent

end Dopilot
