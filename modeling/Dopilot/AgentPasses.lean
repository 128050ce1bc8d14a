/-
Dopilot/AgentPasses.lean

The passes over the attempts keep to the rules.

A pass has one turn for each attempt.  `Swept` says what a turn that was not
disturbed leaves: no cleanup is outstanding that does not have to wait, no
terminal is outstanding at all, and no stop is in flight past its deadline.
Turns of other attempts leave that alone, so it holds of every attempt at the end
of the tick (`agentTick_follows`).
-/
import Dopilot.AgentPrograms
import Mathlib.Tactic.Linarith

namespace Dopilot

namespace Agent

open AgentOp (call ask)

/-! ### What a signal changes -/

/-- The runner's canceled mark aside, the state file is the one in hand. -/
def Marked (s f : AttemptState) : Prop := f = { s with canceled := f.canceled }

/-- What signals and their records change in a state file. -/
def Signalled (s f : AttemptState) : Prop :=
  f = { s with
    canceled := f.canceled
    stopEscalation := f.stopEscalation
    killLastAttemptAt := f.killLastAttemptAt }

theorem Marked.refl (s : AttemptState) : Marked s s := rfl

theorem Marked.signalled {s f : AttemptState} (h : Marked s f) : Signalled s f := by
  unfold Signalled
  rw [h]

theorem Snapshot.marked {w : AgentWorld} {e : ExecutionId} {s : AttemptState}
    (h : Snapshot w e s) : ∃ f, w.store.read e = some f ∧ Marked s f := by
  rcases h with h | h
  · exact ⟨s, h, rfl⟩
  · exact ⟨_, h, rfl⟩

namespace Signalled

variable {s f g : AttemptState}

theorem refl (s : AttemptState) : Signalled s s := rfl

theorem trans (h : Signalled s f) (h' : Signalled f g) : Signalled s g := by
  unfold Signalled at *
  rw [h', h]

theorem phase (h : Signalled s f) : f.phase = s.phase := congrArg (·.phase) h

theorem result (h : Signalled s f) : f.result = s.result := congrArg (·.result) h

theorem stopIntent (h : Signalled s f) : f.stopIntent = s.stopIntent := congrArg (·.stopIntent) h

theorem stopRequestedAt (h : Signalled s f) : f.stopRequestedAt = s.stopRequestedAt :=
  congrArg (·.stopRequestedAt) h

theorem cleanupPending (h : Signalled s f) : f.cleanupPending = s.cleanupPending :=
  congrArg (·.cleanupPending) h

theorem terminalPending (h : Signalled s f) : f.terminalPending = s.terminalPending :=
  congrArg (·.terminalPending) h

theorem cleanupMustWait (h : Signalled s f) :
    Dopilot.cleanupMustWait f = Dopilot.cleanupMustWait s := by
  rw [h]
  rfl

theorem mark_stopEscalation (s : AttemptState) (escalation : Escalation) :
    Signalled s ((Mark.stopEscalation escalation).apply s) := rfl

theorem mark_killAttempt (s : AttemptState) (t : Time) :
    Signalled s ((Mark.killAttempt t).apply s) := rfl

end Signalled

section Stops

variable {α β : Type} {cfg : AgentConfig} {kind : ExecutionId → RunnerType} {K : Cond} {w : AgentWorld}
  {e : ExecutionId} {n : Nat} {f s : AttemptState}

/-- A silent operation whose answer is not looked at. -/
theorem calm_plain (op : AgentOp) (hop : Silent op) (hmay : ∀ w, May cfg kind K .consumer w op)
    (hbad : ∀ err late, tolerable cfg ⟨op, err, late⟩ = false) (hn : n ≤ w.raised.length) :
    Follows cfg kind K .consumer (call op) (Calm cfg kind n w fun _ _ => True) w :=
  (calm_call hop hmay hbad hn).mono fun _ _ h => h.imp fun _ _ _ => trivial

/-- Sequencing after a part that touches nothing. -/
theorem ends_calm {p : AgentProg α} {q : α → AgentProg β} {R : α → AgentWorld → Prop}
    {R' : β → AgentWorld → Prop} (hp : Follows cfg kind K .consumer p (Calm cfg kind n w R) w)
    (hok : ∀ a w', Rely kind .consumer w w' → R a w' →
      Follows cfg kind K .consumer (q a) (Ends cfg kind e n w' R') w') :
    Follows cfg kind K .consumer (p >>= q) (Ends cfg kind e n w R') w :=
  calm_bind hp (fun a w' hw' h => (hok a w' hw' h).mono fun _ _ hr => hr.after (hw'.touches e))
    fun _ _ hw' hdisturbed => ⟨hw'.touches e, hdisturbed⟩

/-! ### Stops -/

/-- The state file is the one given, up to what signals change. -/
def Still (w : AgentWorld) (e : ExecutionId) (f : AttemptState) : Prop :=
  ∃ g, w.store.read e = some g ∧ Signalled f g

theorem sendStopSignal_follows {kill : Bool} {escalation : Escalation} {sender : SignalSender}
    (hheld : Holds kind w .consumer e) (hread : w.store.read e = some f)
    (hn : n ≤ w.raised.length) (hphase : f.phase ≠ .reserved)
    (hesc : escalation = .term → kill = false)
    (hmay : sender = .stopWatchdog → kill = true → f.stopEscalation = some .term ∧
      ∃ t, f.stopRequestedAt = some t ∧ t + cfg.stopKillAfter ≤ w.now) :
    Follows cfg kind K .consumer (sendStopSignal e kill escalation sender)
      (Ends cfg kind e n w fun _ w' => Still w' e f) w := by
  refine follows_bind (P := fun r w' => Touches kind e w w' ∧ ∃ res, r = .ok res ∧
    Snapshot w' e f ∧ ∀ resp : StopResponse, res = .ok resp → resp.reason ≠ some .cancelFailed →
      SignalledAs w' e kill f.stopRequestedAt) ?_ ?_ ?_
  · refine follows_attempt ((runnerStop_follows hheld hread hn hmay).mono ?_)
    rintro (err | resp) w₁ ⟨hsnap, htouch, h⟩
    · exact ⟨htouch, _, rfl, hsnap, fun resp hc => by cases hc⟩
    · refine ⟨htouch, _, rfl, hsnap, fun resp' hresp => ?_⟩
      obtain rfl := Except.ok.inj hresp
      exact h
  · rintro res w₁ ⟨htouch, res', hres, hsnap, hsent⟩
    obtain rfl := Except.ok.inj hres
    obtain ⟨g, hg, hmarked⟩ := hsnap.marked
    rcases res with err | resp
    · exact ⟨htouch, g, hg, hmarked.signalled⟩
    · show Follows cfg kind K .consumer (if resp.reason = some .cancelFailed then _ else _) _ w₁
      by_cases hfailed : resp.reason = some .cancelFailed
      · rw [if_pos hfailed]
        exact ⟨htouch, g, hg, hmarked.signalled⟩
      · rw [if_neg hfailed]
        obtain ⟨y, hy, hid, hkill, hacked, hat⟩ := hsent resp rfl hfailed
        have hn₁ : n ≤ w₁.raised.length := hn.trans htouch.mono.raised.length_le
        refine (ends_mark (R := fun _ w' => Still w' e f) (htouch.holds e hheld) hg hn₁
          (fun w₂ hw₂ => ?_) fun w₂ hw₂ hread₂ => ?_).mono fun r w' h => h.after htouch
        · refine .stopEscalation escalation ?_ fun hterm => ?_
          · rw [hmarked.signalled.phase]
            exact hphase
          · refine ⟨y, hw₂.mono.signals.subset hy, hid, hkill.trans (hesc hterm), hacked, ?_⟩
            rw [hat, hmarked.signalled.stopRequestedAt]
        · exact ⟨.refl e w₂, _, hread₂,
            hmarked.signalled.trans (.mark_stopEscalation g escalation)⟩
  · rintro err w' ⟨-, _, hc, -⟩
    cases hc

/-- A stop of this intent is in flight, by the state file. -/
def StopOf (w : AgentWorld) (e : ExecutionId) (intent : Option StopIntent) : Prop :=
  ∃ g, w.store.read e = some g ∧ g.phase = .started ∧ g.stopRequestedAt.isSome = true ∧
    g.stopIntent = intent

theorem beginStop_follows {intent : StopIntent} (hheld : Holds kind w .consumer e)
    (hid : s.executionId = e) (hread : w.store.read e = some s) (hn : n ≤ w.raised.length)
    (hkind : kind e = .scrapy) (hphase : s.phase = .started) (hcmd : Stopping w e intent) :
    Follows cfg kind K .consumer (beginStop s intent) (Ends cfg kind e n w fun _ w' =>
      StopOf w' e (if s.stopRequestedAt.isSome then s.stopIntent else some intent)) w := by
  show Follows cfg kind K .consumer (if s.stopRequestedAt.isSome then _ else _) _ w
  by_cases hstop : s.stopRequestedAt.isSome = true
  · rw [if_pos hstop, if_pos hstop]
    exact ⟨.refl e w, s, hread, hphase, hstop, rfl⟩
  rw [if_neg hstop, if_neg hstop]
  have hnone : s.stopRequestedAt = none := by simpa using hstop
  rw [hid]
  -- the clock is read before the mark
  refine follows_bind (P := fun r w' => Rely kind .consumer w w' ∧ ∃ t, r = .ok t ∧ t ≤ w'.now)
    ?_ ?_ ?_
  · refine follows_call fun w₁ hw₁ hinv => ⟨trivial, fun x r w₂ _ hp => ?_⟩
    cases hp
    exact ⟨hw₁, _, rfl, le_rfl⟩
  · rintro t w₁ ⟨hw₁, t', ht, hle⟩
    obtain rfl := Except.ok.inj ht
    have hheld₁ := hw₁.holds e hheld
    have hn₁ : n ≤ w₁.raised.length := hn.trans hw₁.mono.raised.length_le
    refine (ends_mark (R := fun _ w' => StopOf w' e (some intent)) hheld₁
      ((hw₁.read e hheld).trans hread) hn₁
      (fun w₂ hw₂ => ?_) fun w₂ hw₂ hread₂ => ?_).mono fun r w' h => h.after (hw₁.touches e)
    · refine .stopRequested intent t hkind hphase hnone (hle.trans hw₂.mono.now) ?_
      exact ((hw₁.trans hw₂).touches e).stopping hcmd
    · have hn₂ : n ≤ w₂.raised.length := hn₁.trans hw₂.mono.raised.length_le
      refine ends_bind (sendStopSignal_follows (hw₂.holds e hheld₁) hread₂ hn₂ ?_ (fun _ => rfl)
        fun hc => by cases hc) fun b w₃ hw₃ hstill => ?_
      · show s.phase ≠ .reserved
        rw [hphase]
        exact fun hc => by cases hc
      · obtain ⟨g, hg, hsame⟩ := hstill
        refine ⟨.refl e w₃, g, hg, hsame.phase.trans hphase, ?_, hsame.stopIntent⟩
        rw [hsame.stopRequestedAt]
        rfl
  · rintro err w' ⟨-, _, hc, -⟩
    cases hc

/-! ### The end of a stop -/

/-- What commands were promised lies in the past. -/
def Past (w : AgentWorld) : Prop := ∀ p ∈ w.processed, p.2 ≤ w.emitted.length

theorem Touches.past {w' : AgentWorld} (h : Touches kind e w w') (hpast : Past w) : Past w' := by
  intro p hp
  rw [h.processed] at hp
  exact (hpast p hp).trans h.mono.emitted.length_le

/-- The attempt is done or gone, unless its state file could not be written. -/
def Decided (n : Nat) (w : AgentWorld) (e : ExecutionId) : Prop :=
  (∀ s, w.store.read e = some s → s.phase = .done) ∨
    ∃ y ∈ w.raised.drop n, ∃ m, y.op = .mark e m

theorem Decided.of_read {w' : AgentWorld} (h : Decided n w e) (hmono : Mono w w')
    (hread : w'.store.read e = none ∨ w'.store.read e = w.store.read e) : Decided n w' e := by
  rcases h with hdone | ⟨y, hy, hop⟩
  · refine .inl fun s hs => ?_
    rcases hread with hnone | hsame
    · rw [hnone] at hs
      cases hs
    · exact hdone s (hsame ▸ hs)
  · exact .inr ⟨y, mem_drop_of_prefix hmono.raised hy, hop⟩

/-- After a mark that ends the attempt. -/
theorem decided_of_mark {m : Mark} (hdone : (m.apply f).phase = .done)
    (h : w.store.read e = some (m.apply f) ∨ w.store.read e = some f ∧
      ∃ y ∈ w.raised.drop n, y.op = .mark e m) : Decided n w e := by
  rcases h with hread | ⟨-, y, hy, hop⟩
  · refine .inl fun s hs => ?_
    obtain rfl := Option.some.inj (hread.symm.trans hs)
    exact hdone
  · exact .inr ⟨y, hy, m, hop⟩

/-- The attempt is done, its terminal is not outstanding, and its process is
still to be killed unless it is known to be gone. -/
def Closed (w : AgentWorld) (e : ExecutionId) (confirmed : Bool) : Prop :=
  ∃ g, w.store.read e = some g ∧ g.phase = .done ∧ g.terminalPending = false ∧
    g.killPending = !confirmed

/-- A terminal that was emitted is cleared. -/
theorem clearTerminalPending_follows (result : AttemptResult) (hheld : Holds kind w .consumer e)
    (hread : w.store.read e = some f) (hn : n ≤ w.raised.length) (hphase : f.phase = .done)
    (hresult : f.result = some result) {k : Nat} (hpast : ∀ p ∈ w.processed, p.2 ≤ k)
    (hsince : EmittedSince k w e result.eventType) :
    Follows cfg kind K .consumer (call (.mark e .clearTerminalPending))
      (fun r w' => Decided n w' e ∧ Ends cfg kind e n w (fun _ w' =>
        w'.store.read e = some (Mark.clearTerminalPending.apply f)) r w') w := by
  refine (mark_ends hheld hread hn fun w₁ hw₁ => ?_).mono ?_
  · refine .clearTerminalPending result hphase hresult
      (hsince.mono hw₁.mono).reported fun p hp => ?_
    rw [(hw₁.mine rfl).processed] at hp
    exact (hsince.mono hw₁.mono).earlier (hpast p hp)
  · rintro r w' ⟨hends, hkept⟩
    exact ⟨decided_of_mark (m := .clearTerminalPending) hphase hkept, hends.imp fun _ _ h => h.2⟩

theorem reportStop_follows {confirmed : Bool} (hheld : Holds kind w .consumer e)
    (hid : s.executionId = e) (hread : w.store.read e = some f) (hmarked : Marked s f)
    (hn : n ≤ w.raised.length) (hpast : Past w) (hkind : kind e = .scrapy)
    (hphase : s.phase = .started) (hstop : s.stopRequestedAt.isSome = true)
    (hintent : s.stopIntent.isSome = true) :
    Follows cfg kind K .consumer (reportStop cfg s confirmed)
      (fun r w' => Decided n w' e ∧ Ends cfg kind e n w (fun _ w' => Closed w' e confirmed)
        r w') w := by
  have hsig := hmarked.signalled
  have hphase' : f.phase = .started := hsig.phase.trans hphase
  have hstop' : f.stopRequestedAt.isSome = true := by rw [hsig.stopRequestedAt, hstop]
  show Follows cfg kind K .consumer (if s.stopIntent = some .reclaim then _ else _) _ w
  by_cases hreclaim : s.stopIntent = some .reclaim
  · rw [if_pos hreclaim, hid]
    refine follows_bind (mark_ends hheld hread hn fun w₁ _ =>
      .reclaimed confirmed hkind hphase' hstop' (hsig.stopIntent.trans hreclaim)) ?_ ?_
    · rintro g w₁ ⟨⟨htouch, -, hread₁⟩, hkept⟩
      exact ⟨decided_of_mark rfl hkept, htouch, _, hread₁, rfl, rfl, rfl⟩
    · rintro err w₁ ⟨⟨htouch, hdisturbed⟩, hkept⟩
      exact ⟨decided_of_mark rfl hkept, htouch, hdisturbed⟩
  · rw [if_neg hreclaim, hid]
    have hcancel : s.stopIntent = some .cancel := by
      obtain ⟨intent, hsome⟩ := Option.isSome_iff_exists.mp hintent
      cases intent with
      | cancel => exact hsome
      | reclaim => exact (hreclaim hsome).elim
    have hcancel' : f.stopIntent = some .cancel := hsig.stopIntent.trans hcancel
    refine follows_bind (mark_ends hheld hread hn fun w₁ _ =>
      .canceledStop confirmed hkind hphase' hstop' hcancel') ?_ ?_
    · rintro g w₁ ⟨⟨htouch, -, hread₁⟩, hkept⟩
      have hheld₁ := htouch.holds e hheld
      have hn₁ : n ≤ w₁.raised.length := hn.trans htouch.mono.raised.length_le
      have hdone : Decided n w₁ e := decided_of_mark rfl hkept
      refine follows_bind (emit_follows (k := w₁.emitted.length) hn₁ le_rfl fun _ w₂ hw₂ => ?_)
        ?_ ?_
      · show Holds kind w₂ .consumer e ∧ Reports kind K w₂ _ (w₂.store.read e)
        rw [hw₂.read e hheld₁, hread₁]
        exact ⟨hw₂.holds e hheld₁, .stopped _ rfl rfl hcancel' rfl⟩
      · rintro u w₂ ⟨hw₂, hsince⟩
        have hheld₂ := hw₂.holds e hheld₁
        have hread₂ := (hw₂.read e hheld₁).trans hread₁
        have hn₂ : n ≤ w₂.raised.length := hn₁.trans hw₂.mono.raised.length_le
        have htouch₂ := htouch.trans (hw₂.touches e)
        refine follows_bind (clearTerminalPending_follows .canceled
          (k := w₁.emitted.length) hheld₂ hread₂ hn₂ rfl rfl ?_ ?_) ?_ ?_
        · intro p hp
          rw [(hw₂.mine rfl).processed] at hp
          exact htouch.past hpast p hp
        · exact hsince
        · rintro g' w₃ ⟨hdecided, htouch₃, hread₃⟩
          exact ⟨hdecided, htouch₂.trans htouch₃, _, hread₃, rfl, rfl, rfl⟩
        · rintro err w₃ ⟨hdecided, htouch₃, hdisturbed⟩
          exact ⟨hdecided, htouch₂.trans htouch₃, hdisturbed⟩
      · rintro err w₂ ⟨hw₂, hdisturbed⟩
        exact ⟨hdone.of_read hw₂.mono (.inr (hw₂.read e hheld₁)), htouch.trans (hw₂.touches e),
          hdisturbed⟩
    · rintro err w₁ ⟨⟨htouch, hdisturbed⟩, hkept⟩
      exact ⟨decided_of_mark rfl hkept, htouch, hdisturbed⟩

/-- What a turn that was not disturbed leaves of an attempt.  A stop that is still
in flight was requested at a time of `D`. -/
structure Swept (n : Nat) (D : Time → Prop) (w : AgentWorld) (e : ExecutionId) : Prop where
  tidy : Tidy n w e
  settled : ∀ s, w.store.read e = some s → s.terminalPending = false
  decided : ∀ s t, w.store.read e = some s → s.phase = .started → s.stopRequestedAt = some t → D t

theorem Swept.same {D : Time → Prop} {w' : AgentWorld} (h : Swept n D w e) (hmono : Mono w w')
    (hread : w'.store.read e = w.store.read e) : Swept n D w' e where
  tidy := h.tidy.same hread hmono
  settled s hs := h.settled s (hread ▸ hs)
  decided s t hs := h.decided s t (hread ▸ hs)

theorem Swept.imp {D D' : Time → Prop} (h : Swept n D w e) (hD : ∀ t, D t → D' t) :
    Swept n D' w e where
  tidy := h.tidy
  settled := h.settled
  decided s t hs hphase hstop := hD t (h.decided s t hs hphase hstop)

/-- A stop in flight that was not past its deadline. -/
def Undue (cfg : AgentConfig) (now : Time) (s : AttemptState) (t : Time) : Prop :=
  s.stopRequestedAt = some t ∧ (0 < cfg.stopConfirmTimeout → now < t + cfg.stopConfirmTimeout)

theorem swept_of_missing {D : Time → Prop} (hread : w.store.read e = none) :
    Swept n D w e := by
  have hnone : ∀ s, w.store.read e ≠ some s := fun s hs => by
    rw [hread] at hs
    cases hs
  exact ⟨fun s hs => (hnone s hs).elim, fun s hs => (hnone s hs).elim,
    fun s t hs => (hnone s hs).elim⟩

/-- The state file of an attempt that is not running, and owes nothing. -/
theorem swept_of_idle {D : Time → Prop} {g : AttemptState} (hread : w.store.read e = some g)
    (hphase : g.phase ≠ .started) (hterminal : g.terminalPending = false) (htidy : Tidy n w e) :
    Swept n D w e := by
  refine ⟨htidy, fun s hs => ?_, fun s t hs hstarted => ?_⟩
  · obtain rfl := Option.some.inj (hread.symm.trans hs)
    exact hterminal
  · obtain rfl := Option.some.inj (hread.symm.trans hs)
    exact (hphase hstarted).elim

theorem not_started_of_done {g : AttemptState} (h : g.phase = .done) : g.phase ≠ .started := by
  rw [h]
  exact fun hc => by cases hc

/-- A stop in flight that is not past its deadline. -/
theorem swept_of_stopping {D : Time → Prop} (hstill : Still w e f) (hphase : f.phase = .started)
    (hterminal : f.terminalPending = false) (hstop : f.stopRequestedAt.isSome = true)
    (hdeadline : ∀ t, f.stopRequestedAt = some t → D t) : Swept n D w e := by
  obtain ⟨g, hread, hsame⟩ := hstill
  have hget : ∀ s, w.store.read e = some s → s = g := fun s hs =>
    Option.some.inj (hs.symm.trans hread)
  refine ⟨fun s hs _ => .inl ?_, fun s hs => ?_, fun s t hs _ ht => hdeadline t ?_⟩
  · rw [hget s hs, hsame.cleanupMustWait]
    simp [cleanupMustWait, hphase, hstop]
  · rw [hget s hs, hsame.terminalPending, hterminal]
  · rw [← hsame.stopRequestedAt, ← hget s hs, ht]

theorem finalizeStop_follows {confirmed : Bool} {D : Time → Prop} (hheld : Holds kind w .consumer e)
    (hid : s.executionId = e) (hread : w.store.read e = some f) (hmarked : Marked s f)
    (hn : n ≤ w.raised.length) (hpast : Past w) (hkind : kind e = .scrapy)
    (hphase : s.phase = .started) (hstop : s.stopRequestedAt.isSome = true)
    (hintent : s.stopIntent.isSome = true) :
    Follows cfg kind K .consumer (finalizeStop cfg s confirmed)
      (fun r w' => Decided n w' e ∧ Ends cfg kind e n w (fun _ w' => Swept n D w' e) r w')
      w := by
  refine follows_bind (reportStop_follows hheld hid hread hmarked hn hpast hkind hphase hstop
    hintent) ?_ fun err w' h => h
  rintro u w₁ ⟨hdecided, htouch, g, hread₁, hdone, hterminal, hkill⟩
  have hheld₁ := htouch.holds e hheld
  have hn₁ : n ≤ w₁.raised.length := hn.trans htouch.mono.raised.length_le
  cases confirmed with
  | false =>
      refine ⟨hdecided, htouch, swept_of_idle hread₁ (not_started_of_done hdone) hterminal
        fun s' hs' _ => .inl ?_⟩
      obtain rfl := Option.some.inj (hread₁.symm.trans hs')
      simp [cleanupMustWait, hkill]
  | true =>
      show Follows cfg kind K .consumer (runDeferredCleanup s.executionId) _ w₁
      rw [hid]
      refine (runDeferredCleanup_follows hheld₁ hn₁ fun s' hs' => ?_).mono ?_
      · obtain rfl := Option.some.inj (hread₁.symm.trans hs')
        exact not_started_of_done hdone
      · rintro (err | u) w₂ ⟨hkept, htouch₂, h⟩
        · exact ⟨hdecided.of_read htouch₂.mono hkept, htouch.trans htouch₂, h⟩
        · refine ⟨hdecided.of_read htouch₂.mono hkept, htouch.trans htouch₂, ?_⟩
          rcases hkept with hnone | hsame
          · exact swept_of_missing hnone
          · exact swept_of_idle (hsame.trans hread₁) (not_started_of_done hdone) hterminal h

/-- The watchdog's view of the time that a stop has taken. -/
theorem deadline_of_elapsed {t t₀ : Time} {limit : Nat}
    (h : ¬ (0 < limit ∧ (limit : Time) ≤ elapsedSince t₀ (some t))) (hpos : 0 < limit) :
    t₀ < t + limit := by
  have hlt : ¬ (limit : Time) ≤ t₀ - t := fun hc => h ⟨hpos, hc⟩
  linarith [not_le.mp hlt]

theorem stopWatchdog_follows (hheld : Holds kind w .consumer e) (hs : Sound (kind e) e f)
    (hread : w.store.read e = some f) (hmarked : Marked s f) (hn : n ≤ w.raised.length)
    (hpast : Past w) (hkind : kind e = .scrapy) (hphase : s.phase = .started)
    (hstop : s.stopRequestedAt.isSome = true) :
    Follows cfg kind K .consumer (stopWatchdog cfg s)
      (fun r w' => (∀ t, s.stopRequestedAt = some t → 0 < cfg.stopConfirmTimeout →
          t + cfg.stopConfirmTimeout ≤ w.now → Decided n w' e) ∧
        Ends cfg kind e n w (fun _ w' => Swept n (Undue cfg w.now s) w' e) r w') w := by
  have hsig := hmarked.signalled
  have hid : s.executionId = e := (congrArg (·.executionId) hmarked).symm.trans hs.executionId
  have hphase' : f.phase = .started := hsig.phase.trans hphase
  have hstop' : f.stopRequestedAt.isSome = true := by rw [hsig.stopRequestedAt, hstop]
  have hintent : s.stopIntent.isSome = true := by
    rw [← hsig.stopIntent, hs.intent, hstop']
  have hterminal : f.terminalPending = false := by
    refine (hs.blank ?_).terminalPending
    rw [hphase']
    exact fun hc => by cases hc
  obtain ⟨t, ht⟩ := Option.isSome_iff_exists.mp hstop
  -- the clock
  refine follows_bind (P := fun r w' => Rely kind .consumer w w' ∧ ∃ t₀, r = .ok t₀ ∧
    w.now ≤ t₀ ∧ t₀ ≤ w'.now) ?_ ?_ ?_
  · refine follows_call fun w₁ hw₁ hinv => ⟨trivial, fun x r w₂ _ hp => ?_⟩
    cases hp
    exact ⟨hw₁, _, rfl, hw₁.mono.now, le_rfl⟩
  swap
  · rintro err w' ⟨-, _, hc, -⟩
    cases hc
  rintro t₀ w₁ ⟨hw₁, t₁, ht₀, hlow, hhigh⟩
  obtain rfl := Except.ok.inj ht₀
  have hheld₁ := hw₁.holds e hheld
  have hread₁ := (hw₁.read e hheld).trans hread
  have hn₁ : n ≤ w₁.raised.length := hn.trans hw₁.mono.raised.length_le
  have htouch₁ := hw₁.touches e
  have hpast₁ : Past w₁ := htouch₁.past hpast
  -- a finalized stop, by whichever way it comes to that
  have hfinal : ∀ {w₂ : AgentWorld} (confirmed : Bool), Rely kind .consumer w₁ w₂ →
      Follows cfg kind K .consumer (finalizeStop cfg s confirmed)
        (fun r w' => (∀ t, s.stopRequestedAt = some t → 0 < cfg.stopConfirmTimeout →
            t + cfg.stopConfirmTimeout ≤ w.now → Decided n w' e) ∧
          Ends cfg kind e n w (fun _ w' => Swept n (Undue cfg w.now s) w' e) r w') w₂ := by
    intro w₂ confirmed hw₂
    refine (finalizeStop_follows (D := Undue cfg w.now s) (hw₂.holds e hheld₁) hid
      ((hw₂.read e hheld₁).trans hread₁) hmarked (hn₁.trans hw₂.mono.raised.length_le)
      ((hw₂.touches e).past hpast₁) hkind hphase hstop hintent).mono ?_
    rintro r w₃ ⟨hdecided, hends⟩
    exact ⟨fun _ _ _ _ => hdecided, hends.after (htouch₁.trans (hw₂.touches e))⟩
  show Follows cfg kind K .consumer (if 0 < cfg.stopConfirmTimeout ∧
    (cfg.stopConfirmTimeout : Time) ≤ elapsedSince t₀ s.stopRequestedAt then _ else _) _ w₁
  rw [ht]
  by_cases hover : 0 < cfg.stopConfirmTimeout ∧
      (cfg.stopConfirmTimeout : Time) ≤ elapsedSince t₀ (some t)
  · rw [if_pos hover]
    have h := hfinal false (Rely.refl .consumer w₁)
    rw [ht] at h
    exact h
  rw [if_neg hover]
  have hdeadline : ∀ t', some t = some t' → 0 < cfg.stopConfirmTimeout →
      t' + cfg.stopConfirmTimeout ≤ w.now → False := by
    intro t' ht' hpos hpassed
    obtain rfl := Option.some.inj ht'
    have hlt := deadline_of_elapsed hover hpos
    linarith
  have hwaits : ∀ {w₂ : AgentWorld}, Still w₂ e f → Swept n (Undue cfg w.now s) w₂ e := by
    intro w₂ hstill
    refine swept_of_stopping hstill hphase' hterminal hstop' fun t' ht' => ?_
    rw [hsig.stopRequestedAt, ht] at ht'
    obtain rfl := Option.some.inj ht'
    refine ⟨ht, fun hpos => ?_⟩
    have hlt := deadline_of_elapsed hover hpos
    linarith
  rw [hid]
  refine follows_bind (isJobAlive_follows hheld₁ hread₁ hn₁) ?_ ?_
  swap
  · rintro err w₂ ⟨hw₂, hdisturbed⟩
    exact ⟨fun t' ht' hpos hpassed => (hdeadline t' ht' hpos hpassed).elim,
      htouch₁.trans (hw₂.touches e), hdisturbed⟩
  rintro alive w₂ ⟨hw₂, -⟩
  have hread₂ := (hw₂.read e hheld₁).trans hread₁
  have hheld₂ := hw₂.holds e hheld₁
  have hn₂ : n ≤ w₂.raised.length := hn₁.trans hw₂.mono.raised.length_le
  have htouch₂ := htouch₁.trans (hw₂.touches e)
  -- nothing is decided here
  have hquiet : ∀ {p : AgentProg Unit}, Follows cfg kind K .consumer p
      (Ends cfg kind e n w₂ fun _ w' => Still w' e f) w₂ →
      Follows cfg kind K .consumer p (fun r w' => (∀ t', some t = some t' →
          0 < cfg.stopConfirmTimeout → t' + cfg.stopConfirmTimeout ≤ w.now → Decided n w' e) ∧
        Ends cfg kind e n w (fun _ w' => Swept n (Undue cfg w.now s) w' e) r w') w₂ := by
    intro p hp
    refine hp.mono fun r w₃ hends => ?_
    exact ⟨fun t' ht' hpos hpassed => (hdeadline t' ht' hpos hpassed).elim,
      (hends.after htouch₂).imp fun _ _ hstill => hwaits hstill⟩
  have hstill₂ : Still w₂ e f := ⟨f, hread₂, .refl f⟩
  have hnotReserved : f.phase ≠ .reserved := by
    rw [hphase']
    exact fun hc => by cases hc
  cases alive with
  | none => exact hquiet ⟨.refl e w₂, hstill₂⟩
  | some alive =>
      cases alive with
      | false =>
          have h := hfinal true hw₂
          rw [ht] at h
          exact h
      | true =>
          refine hquiet ?_
          show Follows cfg kind K .consumer (if s.stopEscalation = none then _ else
            if s.stopEscalation = some .term ∧
              (cfg.stopKillAfter : Time) ≤ elapsedSince t₀ (some t) then _ else _) _ w₂
          by_cases hterm : s.stopEscalation = none
          · rw [if_pos hterm]
            exact ends_bind (sendStopSignal_follows hheld₂ hread₂ hn₂ hnotReserved (fun _ => rfl)
              fun _ hc => by cases hc) fun _ w₃ _ h => ⟨.refl e w₃, h⟩
          rw [if_neg hterm]
          by_cases hkill : s.stopEscalation = some .term ∧
              (cfg.stopKillAfter : Time) ≤ elapsedSince t₀ (some t)
          · rw [if_pos hkill]
            have hescalation : f.stopEscalation = s.stopEscalation :=
              congrArg (·.stopEscalation) hmarked
            refine ends_bind (sendStopSignal_follows hheld₂ hread₂ hn₂ hnotReserved
              (fun hc => by cases hc) fun _ _ => ⟨hescalation.trans hkill.1, t, ?_, ?_⟩)
              fun _ w₃ _ h => ⟨.refl e w₃, h⟩
            · rw [hsig.stopRequestedAt, ht]
            · have hle : (cfg.stopKillAfter : Time) ≤ t₀ - t := hkill.2
              have hnow := hw₂.mono.now
              linarith
          · rw [if_neg hkill]
            exact ⟨.refl e w₂, hstill₂⟩

/-! ### Attempts that are over -/

/-- A deferred cleanup of an attempt that owes nothing. -/
theorem sweepCleanup_follows {D : Time → Prop} (hheld : Holds kind w .consumer e)
    (hread : w.store.read e = some s) (hn : n ≤ w.raised.length) (hphase : s.phase ≠ .started)
    (hterminal : s.terminalPending = false) :
    Follows cfg kind K .consumer (runDeferredCleanup e)
      (Ends cfg kind e n w fun _ w' => Swept n D w' e) w := by
  refine (runDeferredCleanup_follows hheld hn fun s' hs' => ?_).mono ?_
  · obtain rfl := Option.some.inj (hread.symm.trans hs')
    exact hphase
  · rintro r w' ⟨hkept, hends⟩
    refine hends.imp fun _ _ htidy => ?_
    rcases hkept with hnone | hsame
    · exact swept_of_missing hnone
    · exact swept_of_idle (hsame.trans hread) hphase hterminal htidy

/-- The file waits for a kill to be confirmed. -/
theorem swept_of_killPending {D : Time → Prop} (hstill : Still w e s) (hphase : s.phase ≠ .started)
    (hterminal : s.terminalPending = false) (hkill : s.killPending = true) :
    Swept n D w e := by
  obtain ⟨g, hread, hsame⟩ := hstill
  refine swept_of_idle hread ?_ (hsame.terminalPending.trans hterminal) fun s' hs' _ => .inl ?_
  · rw [hsame.phase]
    exact hphase
  · obtain rfl := Option.some.inj (hread.symm.trans hs')
    rw [hsame.cleanupMustWait]
    simp [cleanupMustWait, hkill]

theorem reclaimProcess_follows {D : Time → Prop} (hheld : Holds kind w .consumer e)
    (hs : Sound (kind e) e s) (hread : w.store.read e = some s) (hn : n ≤ w.raised.length)
    (hphase : s.phase ≠ .started) (hterminal : s.terminalPending = false) :
    Follows cfg kind K .consumer (reclaimProcess cfg s)
      (Ends cfg kind e n w fun _ w' => Swept n D w' e) w := by
  show Follows cfg kind K .consumer (if s.killPending then _ else
    if s.cleanupPending then _ else _) _ w
  by_cases hkill : s.killPending = true
  · rw [if_pos hkill, hs.executionId]
    have hdone : s.phase = .done := by
      by_contra hnot
      have hfalse := (hs.blank hnot).killPending
      rw [hkill] at hfalse
      cases hfalse
    refine ends_calm (isJobAlive_follows hheld hread hn) fun alive w₁ hw₁ _ => ?_
    have hheld₁ := hw₁.holds e hheld
    have hread₁ := (hw₁.read e hheld).trans hread
    have hn₁ : n ≤ w₁.raised.length := hn.trans hw₁.mono.raised.length_le
    have hwaits : ∀ {w' : AgentWorld}, Still w' e s → Swept n D w' e := fun hstill =>
      swept_of_killPending hstill hphase hterminal hkill
    cases alive with
    | none => exact ⟨.refl e w₁, hwaits ⟨s, hread₁, .refl s⟩⟩
    | some alive =>
        cases alive with
        | false =>
            refine ends_mark hheld₁ hread₁ hn₁ (fun w₂ _ => .clearKillPending hdone)
              fun w₂ hw₂ hread₂ => ?_
            exact sweepCleanup_follows (hw₂.holds e hheld₁) hread₂
              (hn₁.trans hw₂.mono.raised.length_le) hphase hterminal
        | true =>
            refine ends_step trivial (fun _ => trivial) (fun _ _ => rfl) hn₁ fun t w₂ hw₂ => ?_
            have hheld₂ := hw₂.holds e hheld₁
            have hread₂ := (hw₂.read e hheld₁).trans hread₁
            have hn₂ : n ≤ w₂.raised.length := hn₁.trans hw₂.mono.raised.length_le
            show Follows cfg kind K .consumer (if cfg.killRetryInterval = 0 ∨
              s.killLastAttemptAt = none ∨ (cfg.killRetryInterval : Time) ≤
                elapsedSince t s.killLastAttemptAt then _ else _) _ w₂
            split
            · refine ends_bind (sendStopSignal_follows hheld₂ hread₂ hn₂ ?_
                (fun hc => by cases hc) fun hc => by cases hc) fun _ w₃ hw₃ hstill => ?_
              · rw [hdone]
                exact fun hc => by cases hc
              obtain ⟨g, hread₃, hsame⟩ := hstill
              have hheld₃ := hw₃.holds e hheld₂
              have hn₃ : n ≤ w₃.raised.length := hn₂.trans hw₃.mono.raised.length_le
              refine ends_step trivial (fun _ => trivial) (fun _ _ => rfl) hn₃
                fun stamp w₄ hw₄ => ?_
              refine ends_mark (hw₄.holds e hheld₃) ((hw₄.read e hheld₃).trans hread₃)
                (hn₃.trans hw₄.mono.raised.length_le) (fun w₅ _ => .killAttempt stamp)
                fun w₅ hw₅ hread₅ => ?_
              exact ⟨.refl e w₅, hwaits ⟨_, hread₅, hsame.trans (.mark_killAttempt g stamp)⟩⟩
            · exact ⟨.refl e w₂, hwaits ⟨s, hread₂, .refl s⟩⟩
  · rw [if_neg hkill]
    by_cases hpending : s.cleanupPending = true
    · rw [if_pos hpending, hs.executionId]
      exact sweepCleanup_follows hheld hread hn hphase hterminal
    · rw [if_neg hpending]
      refine ⟨.refl e w, swept_of_idle hread hphase hterminal fun s' hs' hc => ?_⟩
      obtain rfl := Option.some.inj (hread.symm.trans hs')
      exact (hpending hc).elim

theorem reclaimWatchdog_follows {D : Time → Prop} (hheld : Holds kind w .consumer e)
    (hs : Sound (kind e) e s) (hread : w.store.read e = some s) (hn : n ≤ w.raised.length)
    (hpast : Past w) (hphase : s.phase ≠ .started) :
    Follows cfg kind K .consumer (reclaimWatchdog cfg s)
      (Ends cfg kind e n w fun _ w' => Swept n D w' e) w := by
  show Follows cfg kind K .consumer (if s.terminalPending then _ else _) _ w
  by_cases hterminal : s.terminalPending = true
  · rw [if_pos hterminal, hs.executionId]
    have hdone : s.phase = .done := by
      by_contra hnot
      have hfalse := (hs.blank hnot).terminalPending
      rw [hterminal] at hfalse
      cases hfalse
    obtain ⟨result, hresult⟩ := Option.isSome_iff_exists.mp (hs.result hdone)
    refine ends_calm (republishCurrent_follows (k := w.emitted.length) s.taskId hheld hn le_rfl
      (fun s' hs' hr => ?_) fun s' hs' hr => ?_) fun _ w₁ hw₁ hsince => ?_
    · obtain rfl := Option.some.inj (hread.symm.trans hs')
      rw [hdone] at hr
      cases hr
    · obtain rfl := Option.some.inj (hread.symm.trans hs')
      exact (hphase hr).elim
    have hheld₁ := hw₁.holds e hheld
    have hn₁ : n ≤ w₁.raised.length := hn.trans hw₁.mono.raised.length_le
    refine ends_bind ((clearTerminalPending_follows _ hheld₁ ((hw₁.read e hheld).trans hread) hn₁
      hdone hresult (k := w.emitted.length) ?_ (hsince s result hread hdone hresult)).mono
      fun _ _ h => h.2) fun _ w₂ hw₂ hread₂ => ?_
    · intro p hp
      rw [(hw₁.mine rfl).processed] at hp
      exact hpast p hp
    have hheld₂ := hw₂.holds e hheld₁
    refine ends_read hheld₂ fun w₃ hw₃ hinv => ?_
    have hread₃ := (hw₃.read e hheld₂).trans hread₂
    rw [hread₂]
    exact reclaimProcess_follows (hw₃.holds e hheld₂) (hinv.sound e _ hread₃) hread₃
      ((hn₁.trans hw₂.mono.raised.length_le).trans hw₃.mono.raised.length_le) hphase rfl
  · rw [if_neg hterminal]
    exact reclaimProcess_follows hheld hs hread hn hphase (by simpa using hterminal)

/-! ### Log floods -/

/-- What the flood watchdog records in a state file. -/
def Flooded (s f : AttemptState) : Prop :=
  f = { s with
    canceled := f.canceled
    logFlood := f.logFlood
    logFloodBytes := f.logFloodBytes
    logFloodRequestedAt := f.logFloodRequestedAt
    logFloodEscalation := f.logFloodEscalation }

theorem Flooded.refl (s : AttemptState) : Flooded s s := rfl

theorem Flooded.trans {s f g : AttemptState} (h : Flooded s f) (h' : Flooded f g) :
    Flooded s g := by
  unfold Flooded at *
  rw [h', h]

/-- The flood watchdog goes on with `s'`, which the state file agrees with. -/
def FloodSeen (w : AgentWorld) (e : ExecutionId) (s s' : AttemptState) : Prop :=
  ∃ f, w.store.read e = some f ∧ Marked s' f ∧ Flooded s s'

theorem truncateLocalLog_follows (s : AttemptState) (hn : n ≤ w.raised.length) :
    Follows cfg kind K .consumer (truncateLocalLog cfg s) (Calm cfg kind n w fun _ _ => True)
      w := by
  unfold truncateLocalLog
  split
  · exact ⟨.refl _ w, trivial⟩
  · exact calm_plain _ trivial (fun _ => trivial) (fun _ _ => rfl) hn

/-- Sending a signal for the flood watchdog. -/
theorem floodCancel_follows {kill : Bool} (hheld : Holds kind w .consumer e)
    (hid : s.executionId = e) (hread : w.store.read e = some s) (hn : n ≤ w.raised.length) :
    Follows cfg kind K .consumer (floodCancel s kill)
      (Ends cfg kind e n w fun _ w' => ∃ f, w'.store.read e = some f ∧ Marked s f) w := by
  show Follows cfg kind K .consumer ((runnerStop s.executionId kill .flood).attempt >>= _) _ w
  rw [hid]
  refine follows_bind (P := fun r w' => Touches kind e w w' ∧ Snapshot w' e s ∧
    ∃ res, r = .ok res) ?_ ?_ ?_
  · refine follows_attempt ((runnerStop_follows hheld hread hn fun hc => by cases hc).mono ?_)
    rintro (err | resp) w₁ ⟨hsnap, htouch, -⟩
    · exact ⟨htouch, hsnap, _, rfl⟩
    · exact ⟨htouch, hsnap, _, rfl⟩
  · rintro res w₁ ⟨htouch, hsnap, -⟩
    exact ⟨htouch, hsnap.marked⟩
  · rintro err w' ⟨-, -, _, hc⟩
    cases hc

theorem markLogFlood_follows {size : Nat} {escalation : Option Escalation}
    (hheld : Holds kind w .consumer e) (hid : s.executionId = e)
    (hread : w.store.read e = some s) (hn : n ≤ w.raised.length) (hkind : kind e = .scrapy)
    (hphase : s.phase = .started) :
    Follows cfg kind K .consumer (markLogFlood s size escalation)
      (Ends cfg kind e n w fun s' w' => w'.store.read e = some s' ∧ Flooded s s') w := by
  refine ends_step trivial (fun _ => trivial) (fun _ _ => rfl) hn fun t w₁ hw₁ => ?_
  rw [hid]
  refine ends_mark (hw₁.holds e hheld) ((hw₁.read e hheld).trans hread)
    (hn.trans hw₁.mono.raised.length_le) (fun w₂ _ => .logFlood size _ escalation hkind hphase)
    fun w₂ hw₂ hread₂ => ?_
  exact ⟨.refl e w₂, hread₂, rfl⟩

/-- The escalation of the flood watchdog. -/
theorem floodEscalate_follows {size : Nat} (hheld : Holds kind w .consumer e)
    (hid : s.executionId = e) (hread : w.store.read e = some s) (hn : n ≤ w.raised.length)
    (hkind : kind e = .scrapy) (hphase : s.phase = .started) :
    Follows cfg kind K .consumer (floodEscalate cfg s size)
      (Ends cfg kind e n w fun s' w' => FloodSeen w' e s s') w := by
  have hcancel : ∀ {w' : AgentWorld} (s' : AttemptState) (kill : Bool),
      Holds kind w' .consumer e → s'.executionId = e → w'.store.read e = some s' →
      n ≤ w'.raised.length → Flooded s s' →
      Follows cfg kind K .consumer (floodCancel s' kill >>= fun _ => return s')
        (Ends cfg kind e n w' fun s'' w'' => FloodSeen w'' e s s'') w' := by
    intro w' s' kill hheld' hid' hread' hn' hflooded
    exact ends_bind (floodCancel_follows hheld' hid' hread' hn') fun _ w'' _ h =>
      ⟨.refl e w'', h.imp fun _ hf => ⟨hf.1, hf.2, hflooded⟩⟩
  refine ends_step trivial (fun _ => trivial) (fun _ _ => rfl) hn fun t w₁ hw₁ => ?_
  have hheld₁ := hw₁.holds e hheld
  have hread₁ := (hw₁.read e hheld).trans hread
  have hn₁ : n ≤ w₁.raised.length := hn.trans hw₁.mono.raised.length_le
  show Follows cfg kind K .consumer (if 2 * (cfg.floodKillAfter : Time) ≤ floodElapsed t s then
    _ else if (cfg.floodKillAfter : Time) ≤ floodElapsed t s then _ else _) _ w₁
  split
  · -- the process itself is killed, once
    refine ends_calm (R := fun _ _ => True) ?_ fun killed w₂ hw₂ _ => ?_
    · unfold floodPidKill
      split
      · exact ⟨.refl _ w₁, trivial⟩
      · exact calm_plain _ trivial (fun _ => trivial) (fun _ _ => rfl) hn₁
    have hheld₂ := hw₂.holds e hheld₁
    have hread₂ := (hw₂.read e hheld₁).trans hread₁
    have hn₂ : n ≤ w₂.raised.length := hn₁.trans hw₂.mono.raised.length_le
    cases killed with
    | true =>
        refine (markLogFlood_follows hheld₂ hid hread₂ hn₂ hkind hphase).mono fun _ _ h =>
          h.imp fun s' _ hs' => ⟨s', hs'.1, .refl s', hs'.2⟩
    | false => exact hcancel s true hheld₂ hid hread₂ hn₂ (.refl s)
  · split
    · refine ends_bind (R := fun s' w' => w'.store.read e = some s' ∧ Flooded s s') ?_
        fun s' w₂ hw₂ hs' => ?_
      · unfold floodKillLevel
        split
        · exact ⟨.refl e w₁, hread₁, .refl s⟩
        · exact markLogFlood_follows hheld₁ hid hread₁ hn₁ hkind hphase
      · have hid' : s'.executionId = e := (congrArg (·.executionId) hs'.2).trans hid
        exact hcancel s' true (hw₂.holds e hheld₁) hid' hs'.1
          (hn₁.trans hw₂.mono.raised.length_le) hs'.2
    · exact hcancel s false hheld₁ hid hread₁ hn₁ (.refl s)

theorem floodWatchdog_follows (size : Option Nat) (hheld : Holds kind w .consumer e)
    (hid : s.executionId = e) (hread : w.store.read e = some s) (hn : n ≤ w.raised.length)
    (hkind : kind e = .scrapy) (hphase : s.phase = .started) :
    Follows cfg kind K .consumer (floodWatchdog cfg s size)
      (Ends cfg kind e n w fun s' w' => FloodSeen w' e s s') w := by
  have hsame : FloodSeen w e s s := ⟨s, hread, .refl s, .refl s⟩
  cases size with
  | none => exact ⟨.refl e w, hsame⟩
  | some size =>
      show Follows cfg kind K .consumer (if cfg.maxJobLogBytes = 0 ∨ s.logPath = "" then _ else
        if s.logFlood = false then (if size < cfg.maxJobLogBytes then _ else _) else _) _ w
      split
      · exact ⟨.refl e w, hsame⟩
      split
      · split
        · exact ⟨.refl e w, hsame⟩
        · refine ends_bind (markLogFlood_follows hheld hid hread hn hkind hphase)
            fun s' w₁ hw₁ hs' => ?_
          have hheld₁ := hw₁.holds e hheld
          have hn₁ : n ≤ w₁.raised.length := hn.trans hw₁.mono.raised.length_le
          refine ends_calm (truncateLocalLog_follows s' hn₁) fun _ w₂ hw₂ _ => ?_
          have hid' : s'.executionId = e := (congrArg (·.executionId) hs'.2).trans hid
          refine ends_bind (floodCancel_follows (hw₂.holds e hheld₁) hid'
            ((hw₂.read e hheld₁).trans hs'.1) (hn₁.trans hw₂.mono.raised.length_le))
            fun _ w₃ _ h => ?_
          obtain ⟨f, hf, hmarked⟩ := h
          exact ⟨.refl e w₃, f, hf, hmarked, hs'.2⟩
      · refine ends_calm (truncateLocalLog_follows s hn) fun _ w₁ hw₁ _ => ?_
        have hheld₁ := hw₁.holds e hheld
        have hread₁ := (hw₁.read e hheld).trans hread
        have hn₁ : n ≤ w₁.raised.length := hn.trans hw₁.mono.raised.length_le
        refine ends_bind (R := fun s' w' => w'.store.read e = some s' ∧ Flooded s s') ?_
          fun s' w₂ hw₂ hs' => ?_
        · unfold floodSize
          split
          · exact markLogFlood_follows hheld₁ hid hread₁ hn₁ hkind hphase
          · exact ⟨.refl e w₁, hread₁, .refl s⟩
        · have hid' : s'.executionId = e := (congrArg (·.executionId) hs'.2).trans hid
          have hphase' : s'.phase = .started := (congrArg (·.phase) hs'.2).trans hphase
          refine (floodEscalate_follows (hw₂.holds e hheld₁) hid' hs'.1
            (hn₁.trans hw₂.mono.raised.length_le) hkind hphase').mono fun _ _ h =>
            h.imp fun s'' _ hseen => ?_
          obtain ⟨f, hf, hmarked, hflooded⟩ := hseen
          exact ⟨f, hf, hmarked, hs'.2.trans hflooded⟩

end Stops

end Agent

end Dopilot
