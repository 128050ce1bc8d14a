/-
Dopilot/AgentTicks.lean

A tick keeps to the rules, and serves every attempt.

One turn of the pass reads a state file and goes on with the stop watchdog, with
the end of the job, or with what an attempt that is over still owes.  `Served`
compares the file before and after: it is `Swept`, and a cleanup that did not
have to wait any more was carried out.  The turns of other attempts leave a file
alone, so a tick that was not disturbed has served all of them
(`agentTick_follows`).
-/
import Dopilot.AgentPasses

namespace Dopilot

namespace Agent

open AgentOp (call ask)

section Turns

variable {cfg : AgentConfig} {kind : ExecutionId → RunnerType} {K : Cond} {w : AgentWorld}
  {e : ExecutionId} {n : Nat} {f s : AttemptState}

/-! ### The end of a job -/

theorem finishedResult_marked (hmarked : Marked s f) (terminal : AgentEventType) :
    finishedResult f terminal = finishedResult s terminal := by
  rw [hmarked]
  rfl

/-- A started attempt of which no stop was asked owes nothing. -/
theorem swept_of_unstopped {D : Time → Prop} (hs : Sound (kind e) e f)
    (hread : w.store.read e = some f) (hphase : f.phase = .started)
    (hstop : f.stopRequestedAt = none) : Swept n D w e := by
  have hget : ∀ s, w.store.read e = some s → s = f := fun s hs =>
    Option.some.inj (hs.symm.trans hread)
  refine ⟨fun s hs' hpending => ?_, fun s hs' => ?_, fun s t hs' _ ht => ?_⟩
  · rw [hget s hs'] at hpending
    rcases hs.cleanup hpending with hdone | hasked
    · rw [hphase] at hdone
      cases hdone
    · rw [hstop] at hasked
      cases hasked
  · rw [hget s hs']
    refine (hs.blank ?_).terminalPending
    rw [hphase]
    exact fun hc => by cases hc
  · rw [hget s hs', hstop] at ht
    cases ht

theorem finishScrapyAttempt_follows {terminal : AgentEventType} {D : Time → Prop}
    (hheld : Holds kind w .consumer e) (hs : Sound (kind e) e f)
    (hread : w.store.read e = some f) (hmarked : Marked s f) (hn : n ≤ w.raised.length)
    (hkind : kind e = .scrapy) (hphase : f.phase = .started) (hstop : f.stopRequestedAt = none)
    (hgone : ∀ job, s.scrapydJobId = some job → job ∈ w.seenGone) :
    Follows cfg kind K .consumer (finishScrapyAttempt cfg s terminal)
      (Ends cfg kind e n w fun _ w' => Swept n D w' e) w := by
  have hid : s.executionId = e := (congrArg (·.executionId) hmarked).symm.trans hs.executionId
  have hjob : f.scrapydJobId = s.scrapydJobId := congrArg (·.scrapydJobId) hmarked
  have hflood : f.logFlood = s.logFlood := congrArg (·.logFlood) hmarked
  have hterminal : f.terminalPending = false := by
    refine (hs.blank ?_).terminalPending
    rw [hphase]
    exact fun hc => by cases hc
  have hcleanup : f.cleanupPending = false := by
    by_contra hpending
    rcases hs.cleanup (by simpa using hpending) with hdone | hasked
    · rw [hphase] at hdone
      cases hdone
    · rw [hstop] at hasked
      cases hasked
  -- the log is looked at
  refine ends_step trivial (fun _ => trivial) (fun _ _ => rfl) hn fun stats w₁ hw₁ => ?_
  have hn₁ : n ≤ w₁.raised.length := hn.trans hw₁.mono.raised.length_le
  refine ends_step trivial (fun _ => trivial) (fun _ _ => rfl) hn₁ fun size w₂ hw₂ => ?_
  have hw₀₂ := hw₁.trans hw₂
  have hheld₂ := hw₀₂.holds e hheld
  have hn₂ : n ≤ w₂.raised.length := hn₁.trans hw₂.mono.raised.length_le
  rw [hid]
  refine ends_mark hheld₂ ((hw₀₂.read e hheld).trans hread) hn₂
    (fun w₃ _ => .stats _ _ _ _ hkind hphase hstop) fun w₃ hw₃ hread₃ => ?_
  have hheld₃ := hw₃.holds e hheld₂
  have hn₃ : n ≤ w₃.raised.length := hn₂.trans hw₃.mono.raised.length_le
  refine ends_calm (R := fun _ _ => True) ?_ fun _ w₄ hw₄ _ => ?_
  · unfold truncateFlooded
    split
    · exact truncateLocalLog_follows s hn₃
    · exact ⟨.refl _ w₃, trivial⟩
  have hheld₄ := hw₄.holds e hheld₃
  have hread₄ := (hw₄.read e hheld₃).trans hread₃
  have hn₄ : n ≤ w₄.raised.length := hn₃.trans hw₄.mono.raised.length_le
  -- the job was seen gone before
  have hgone₄ : ∃ job, f.scrapydJobId = some job ∧ job ∈ w₄.seenGone := by
    obtain ⟨job, hsome⟩ := Option.isSome_iff_exists.mp (hs.started hphase hkind)
    refine ⟨job, hsome, ?_⟩
    refine hw₄.mono.seenGone job (hw₃.mono.seenGone job (hw₀₂.mono.seenGone job ?_))
    exact hgone job (hjob.symm.trans hsome)
  refine ends_mark hheld₄ hread₄ hn₄ (fun w₅ hw₅ => ?_) fun w₅ hw₅ hread₅ => ?_
  · rw [← finishedResult_marked hmarked terminal, ← hflood]
    refine .finished terminal hkind hphase hstop ?_
    obtain ⟨job, hsome, hin⟩ := hgone₄
    exact ⟨job, hsome, hw₅.mono.seenGone job hin⟩
  have hheld₅ := hw₅.holds e hheld₄
  have hn₅ : n ≤ w₅.raised.length := hn₄.trans hw₅.mono.raised.length_le
  refine (emit_follows (k := 0) hn₅ (Nat.zero_le _) fun _ w₆ hw₆ => ?_).mono ?_
  · show Holds kind w₆ .consumer e ∧ Reports kind K w₆ _ (w₆.store.read e)
    rw [hw₆.read e hheld₅, hread₅]
    exact ⟨hw₆.holds e hheld₅, .recorded _ rfl ⟨⟨_, rfl, rfl⟩, rfl, rfl, rfl, rfl, rfl⟩⟩
  · rintro (err | u) w₆ ⟨hw₆, h⟩
    · exact ⟨hw₆.touches e, h⟩
    · refine ⟨hw₆.touches e, swept_of_idle ((hw₆.read e hheld₅).trans hread₅)
        (not_started_of_done rfl) hterminal fun s' hs' hpending => ?_⟩
      obtain rfl := Option.some.inj (((hw₆.read e hheld₅).trans hread₅).symm.trans hs')
      have hc : f.cleanupPending = true := hpending
      rw [hcleanup] at hc
      cases hc

/-! ### One turn -/

/-- The turn of a scrapy attempt of which no stop was asked. -/
theorem resolveAttempt_follows {D : Time → Prop} {size : Option Nat} (hheld : Holds kind w .consumer e)
    (hs : Sound (kind e) e f) (hread : w.store.read e = some f) (hmarked : Marked s f)
    (hn : n ≤ w.raised.length) (hkind : kind e = .scrapy) (hphase : f.phase = .started)
    (hstop : f.stopRequestedAt = none) :
    Follows cfg kind K .consumer
      (do
        let status ← runnerStatus e
        match status.terminal with
        | some terminal => finishScrapyAttempt cfg s terminal
        | none => if status = .running then call (.heartbeat s.taskId e size) else return ())
      (Ends cfg kind e n w fun _ w' => Swept n D w' e) w := by
  have hjob : f.scrapydJobId = s.scrapydJobId := congrArg (·.scrapydJobId) hmarked
  refine ends_calm (runnerStatus_follows hheld hread hn) fun status w₁ hw₁ hstatus => ?_
  have hheld₁ := hw₁.holds e hheld
  have hread₁ := (hw₁.read e hheld).trans hread
  have hn₁ : n ≤ w₁.raised.length := hn.trans hw₁.mono.raised.length_le
  have hswept : ∀ {w' : AgentWorld}, Rely kind .consumer w₁ w' → Swept n D w' e :=
    fun hw' => swept_of_unstopped hs ((hw'.read e hheld₁).trans hread₁) hphase hstop
  cases hterminal : status.terminal with
  | some terminal =>
      obtain ⟨-, hgone⟩ := hstatus (by rw [hterminal]; rfl)
      exact finishScrapyAttempt_follows hheld₁ hs hread₁ hmarked hn₁ hkind hphase hstop
        fun job hsome => hgone job (hjob.trans hsome)
  | none =>
      show Follows cfg kind K .consumer (if status = .running then _ else _) _ w₁
      split
      · refine (calm_plain (.heartbeat s.taskId e size) trivial (fun _ => trivial)
          (fun _ _ => rfl) hn₁).mono fun r w₂ h => ?_
        exact (h.imp fun _ hw₂ _ => hswept hw₂).ends
      · exact ⟨.refl e w₁, hswept (.refl _ w₁)⟩

/-- The file of the execution records a stop in flight that is not past its deadline. -/
def UndueIn (cfg : AgentConfig) (w : AgentWorld) (e : ExecutionId) (t : Time) : Prop :=
  ∃ f, w.store.read e = some f ∧ f.phase = .started ∧ Undue cfg w.now f t

/-- What a turn makes of the state file it found. -/
structure Served (cfg : AgentConfig) (n : Nat) (w w' : AgentWorld) (e : ExecutionId) : Prop where
  swept : Swept n (UndueIn cfg w e) w' e
  missing : w.store.read e = none → w'.store.read e = none
  cleared : ∀ s, w.store.read e = some s → s.cleanupPending = true → cleanupMustWait s = false →
    w'.store.read e = none ∨ w'.store.read e = some s ∧ Undeleted n w' e s

theorem UndueIn.earlier {w₁ w₂ : AgentWorld} {t : Time} (h : UndueIn cfg w₂ e t)
    (hread : w₂.store.read e = w₁.store.read e) (hmono : Mono w₁ w₂) : UndueIn cfg w₁ e t := by
  obtain ⟨f, hf, hphase, hstop, hdue⟩ := h
  exact ⟨f, hread.symm.trans hf, hphase, hstop, fun hpos => lt_of_le_of_lt hmono.now (hdue hpos)⟩

theorem Served.trans {w₁ w₂ w₃ : AgentWorld} (h : Served cfg n w₁ w₂ e)
    (h' : Served cfg n w₂ w₃ e) (hmono' : Mono w₂ w₃) : Served cfg n w₁ w₃ e where
  swept := h'.swept.imp fun t ht => by
    obtain ⟨f, hf, hphase, hstop, -⟩ := ht
    exact h.swept.decided f t hf hphase hstop
  missing hnone := h'.missing (h.missing hnone)
  cleared s hs hpending hfree := by
    rcases h.cleared s hs hpending hfree with hnone | ⟨hsame, hfailed⟩
    · exact .inl (h'.missing hnone)
    · rcases h'.cleared s hsame hpending hfree with hnone | ⟨hsame', -⟩
      · exact .inl hnone
      · exact .inr ⟨hsame', hfailed.mono hmono'⟩

/-- Before the turn and after it the file may be left alone. -/
theorem Served.around {w₁ w₂ w₃ w₄ : AgentWorld} (h : Served cfg n w₂ w₃ e)
    (hmono : Mono w₁ w₂) (hread : w₂.store.read e = w₁.store.read e) (hmono' : Mono w₃ w₄)
    (hread' : w₄.store.read e = w₃.store.read e) : Served cfg n w₁ w₄ e where
  swept := (h.swept.same hmono' hread').imp fun _ ht => ht.earlier hread hmono
  missing hnone := by rw [hread', h.missing (hread.trans hnone)]
  cleared s hs hpending hfree := by
    rw [hread']
    exact (h.cleared s (hread.trans hs) hpending hfree).imp_right fun hfailed =>
      ⟨hfailed.1, hfailed.2.mono hmono'⟩

theorem Marked.flooded (h : Marked s f) : Flooded s f := by
  unfold Flooded
  rw [h]

/-- What the flood watchdog records keeps a started attempt sound. -/
theorem Sound.flooded {kind : RunnerType} (hs : Sound kind e s) (hphase : s.phase = .started)
    (h : Flooded s f) : Sound kind e f := by
  have hstarted : f.phase = .started := (congrArg (·.phase) h).trans hphase
  have hundone : s.phase ≠ .done := by
    rw [hphase]
    exact fun hc => by cases hc
  obtain ⟨h₁, h₂, h₃, h₄, h₅, h₆⟩ := hs.blank hundone
  refine ⟨?_, ?_, fun _ => ?_, fun hc => ?_, fun _ hkind => ?_, fun hc => ?_, ?_, ?_, fun hkind => ?_,
    fun hkind => ?_⟩
  · exact (congrArg (·.executionId) h).trans hs.executionId
  · exact (congrArg (·.runnerType) h).trans hs.runnerType
  · rw [h]
    exact ⟨h₁, h₂, h₃, h₄, h₅, h₆⟩
  · rw [hstarted] at hc
    cases hc
  · rw [h]
    exact hs.started hphase hkind
  · rw [hstarted] at hc
    cases hc
  · rw [h]
    exact fun hpending => (hs.cleanup hpending).imp_left fun hc => hc
  · rw [h]
    exact hs.intent
  · obtain ⟨⟨g₁, g₂, g₃⟩, hrest⟩ := hs.wheel hkind
    rw [h]
    exact ⟨⟨g₁, g₂, g₃⟩, hrest⟩
  · obtain ⟨g₁, g₂, g₃, g₄⟩ := hs.unmeasured hkind
    rw [h]
    exact ⟨g₁, g₂, g₃, g₄⟩

/-- A cleanup that may go ahead is all a turn has to do. -/
theorem clearAttempt_follows (hheld : Holds kind w .consumer e) (hs : Sound (kind e) e s)
    (hread : w.store.read e = some s) (hn : n ≤ w.raised.length)
    (hpending : s.cleanupPending = true) (hfree : cleanupMustWait s = false) :
    Follows cfg kind K .consumer (reclaimWatchdog cfg s)
      (Ends cfg kind e n w fun _ w' =>
        w'.store.read e = none ∨ w'.store.read e = some s ∧ Undeleted n w' e s) w := by
  simp only [cleanupMustWait, Bool.or_eq_false_iff, Bool.and_eq_false_iff] at hfree
  obtain ⟨⟨hstop, hkill⟩, hterminal⟩ := hfree
  have hphase : s.phase ≠ .started := by
    intro hphase
    rcases hs.cleanup hpending with hdone | hasked
    · rw [hphase] at hdone
      cases hdone
    · rcases hstop with hnot | hnot
      · rw [hphase] at hnot
        cases hnot
      · rw [hasked] at hnot
        cases hnot
  show Follows cfg kind K .consumer (if s.terminalPending then _ else if s.killPending then _ else
    if s.cleanupPending then _ else _) _ w
  rw [if_neg (by simp [hterminal]), if_neg (by simp [hkill]), if_pos hpending, hs.executionId]
  refine (runDeferredCleanup_follows hheld hn fun s' hs' => ?_).mono ?_
  · obtain rfl := Option.some.inj (hread.symm.trans hs')
    exact hphase
  · rintro r w' ⟨hkept, hends⟩
    refine hends.imp fun _ _ htidy => ?_
    refine hkept.imp_right fun hsame => ⟨hsame.trans hread, ?_⟩
    rcases htidy s (hsame.trans hread) hpending with hwait | hfailed
    · simp only [cleanupMustWait, hkill, hterminal, Bool.or_false, Bool.and_eq_true,
        beq_iff_eq] at hwait
      exact (hphase hwait.1).elim
    · exact hfailed

/-- The turn of a scrapy attempt. -/
theorem reconcileAttempt_follows (hkind : kind e = .scrapy) (hn : n ≤ w.raised.length)
    (hpast : Past w) :
    Follows cfg kind K .consumer (reconcileAttempt cfg e)
      (Ends cfg kind e n w fun _ w' => Served cfg n w w' e) w := by
  have hheld : Holds kind w .consumer e := .inl hkind
  refine ends_read hheld fun w₁ hw₁ hinv => ?_
  have hheld₁ := hw₁.holds e hheld
  have hread₁ := hw₁.read e hheld
  have hn₁ : n ≤ w₁.raised.length := hn.trans hw₁.mono.raised.length_le
  have hpast₁ := (hw₁.touches e).past hpast
  cases hread : w.store.read e with
  | none =>
      have hnone := hread₁.trans hread
      refine ⟨.refl e w₁, swept_of_missing hnone, fun _ => hnone, fun s hs => ?_⟩
      rw [hread] at hs
      cases hs
  | some s =>
      have hsome := hread₁.trans hread
      have hs := hinv.sound e s hsome
      have hmissing : ∀ {w' : AgentWorld}, w.store.read e = none → w'.store.read e = none :=
        fun hc => by rw [hread] at hc; cases hc
      show Follows cfg kind K .consumer (if s.phase ≠ .started then _ else
        if s.runnerType = .pythonWheel then _ else _) _ w₁
      by_cases hphase : s.phase ≠ .started
      · rw [if_pos hphase]
        have hswept : Follows cfg kind K .consumer (reclaimWatchdog cfg s)
            (Ends cfg kind e n w₁ fun _ w' => Swept n (UndueIn cfg w e) w' e) w₁ :=
          reclaimWatchdog_follows hheld₁ hs hsome hn₁ hpast₁ hphase
        by_cases hclear : s.cleanupPending = true ∧ cleanupMustWait s = false
        · refine (hswept.and (clearAttempt_follows hheld₁ hs hsome hn₁ hclear.1 hclear.2)).mono ?_
          rintro (err | u) w₂ ⟨h, h'⟩
          · exact h
          · refine ⟨h.1, h.2, hmissing, fun s' hs' _ _ => ?_⟩
            obtain rfl := Option.some.inj (hread.symm.trans hs')
            exact h'.2
        · refine hswept.mono fun r w₂ h => h.imp fun _ _ hsw => ⟨hsw, hmissing, ?_⟩
          intro s' hs' hpending hfree
          obtain rfl := Option.some.inj (hread.symm.trans hs')
          exact (hclear ⟨hpending, hfree⟩).elim
      rw [if_neg hphase]
      have hphase : s.phase = .started := not_not.mp hphase
      have hwheel : s.runnerType ≠ .pythonWheel := by
        rw [hs.runnerType, hkind]
        exact fun hc => by cases hc
      rw [if_neg hwheel]
      -- what is started either waits for its stop or has no cleanup to wait for
      have hserved : ∀ {w' : AgentWorld}, Swept n (UndueIn cfg w e) w' e → Served cfg n w w' e := by
        refine fun hsw => ⟨hsw, hmissing, fun s' hs' hpending hfree => ?_⟩
        obtain rfl := Option.some.inj (hread.symm.trans hs')
        rcases hs.cleanup hpending with hdone | hasked
        · rw [hphase] at hdone
          cases hdone
        · simp [cleanupMustWait, hphase, hasked] at hfree
      refine ends_calm (R := fun _ _ => True) ?_ fun size w₂ hw₂ _ => ?_
      · unfold sampleLogSize
        split
        · exact ⟨.refl _ w₁, trivial⟩
        · exact calm_plain _ trivial (fun _ => trivial) (fun _ _ => rfl) hn₁
      have hheld₂ := hw₂.holds e hheld₁
      have hn₂ : n ≤ w₂.raised.length := hn₁.trans hw₂.mono.raised.length_le
      refine ends_bind (floodWatchdog_follows size hheld₂ hs.executionId
        ((hw₂.read e hheld₁).trans hsome) hn₂ hkind hphase) fun s' w₃ hw₃ hseen => ?_
      obtain ⟨f, hread₃, hmarked, hflooded⟩ := hseen
      have hheld₃ := hw₃.holds e hheld₂
      have hn₃ : n ≤ w₃.raised.length := hn₂.trans hw₃.mono.raised.length_le
      have hnow : w.now ≤ w₃.now := (hw₁.mono.now.trans hw₂.mono.now).trans hw₃.mono.now
      have hphase' : s'.phase = .started := (congrArg (·.phase) hflooded).trans hphase
      have hasked : s'.stopRequestedAt = s.stopRequestedAt :=
        congrArg (·.stopRequestedAt) hflooded
      have hsound : Sound (kind e) e f := hs.flooded hphase (hflooded.trans hmarked.flooded)
      show Follows cfg kind K .consumer (if s'.stopRequestedAt.isSome then _ else _) _ w₃
      by_cases hstop : s'.stopRequestedAt.isSome = true
      · rw [if_pos hstop]
        refine (stopWatchdog_follows hheld₃ hsound hread₃ hmarked hn₃
          (hw₃.past ((hw₂.touches e).past hpast₁)) hkind hphase' hstop).mono ?_
        rintro r w₄ ⟨-, h⟩
        refine h.imp fun _ _ hsw => hserved (hsw.imp fun t hdue => ?_)
        exact ⟨s, hread, hphase, hasked.symm.trans hdue.1, fun hpos => lt_of_le_of_lt hnow (hdue.2 hpos)⟩
      · rw [if_neg hstop]
        refine (resolveAttempt_follows (D := UndueIn cfg w e) hheld₃ hsound hread₃ hmarked hn₃ hkind
          ((congrArg (·.phase) hmarked).trans hphase') ?_).mono fun r w₄ h =>
          h.imp fun _ _ hsw => hserved hsw
        refine (congrArg (·.stopRequestedAt) hmarked).trans ?_
        simpa using hstop

/-- The turn of a wheel's attempt only looks. -/
theorem reconcileWheel_follows (hkind : kind e = .pythonWheel) (hn : n ≤ w.raised.length) :
    Follows cfg kind K .consumer (reconcileAttempt cfg e) (Calm cfg kind n w fun _ _ => True)
      w := by
  refine follows_bind (P := fun r w' => Rely kind .consumer w w' ∧ ∃ read, r = .ok read ∧
    ∀ s, read = some s → Sound (kind e) e s) ?_ ?_ ?_
  · refine follows_call fun w₁ hw₁ hinv => ⟨trivial, fun x r w₂ _ hp => ?_⟩
    cases hp
    exact ⟨hw₁, _, rfl, hinv.sound e⟩
  · rintro read w₁ ⟨hw₁, read', hr, hsound⟩
    obtain rfl := Except.ok.inj hr
    have hn₁ : n ≤ w₁.raised.length := hn.trans hw₁.mono.raised.length_le
    rcases read with - | s
    · exact ⟨hw₁, trivial⟩
    have hs := hsound s rfl
    obtain ⟨hunstopped, hkill, hterminal⟩ := hs.wheel hkind
    show Follows cfg kind K .consumer (if s.phase ≠ .started then _ else
      if s.runnerType = .pythonWheel then _ else _) _ w₁
    split
    · show Follows cfg kind K .consumer (if s.terminalPending then _ else if s.killPending then _
        else if s.cleanupPending then _ else _) _ w₁
      rw [if_neg (by simp [hterminal]), if_neg (by simp [hkill]),
        if_neg (by simp [hunstopped.cleanupPending])]
      exact ⟨hw₁, trivial⟩
    · rw [if_pos (hs.runnerType.trans hkind)]
      refine calm_step trivial (fun _ => trivial) (fun _ _ => rfl) hn₁ (fun inproc w₂ hw₂ => ?_)
        fun _ w₂ hw₂ hdisturbed => ⟨hw₁.trans hw₂, hdisturbed⟩
      have hn₂ : n ≤ w₂.raised.length := hn₁.trans hw₂.mono.raised.length_le
      refine calm_step trivial (fun _ => trivial) (fun _ _ => rfl) hn₂ (fun active w₃ hw₃ => ?_)
        fun _ w₃ hw₃ hdisturbed => ⟨(hw₁.trans hw₂).trans hw₃, hdisturbed⟩
      have hn₃ : n ≤ w₃.raised.length := hn₂.trans hw₃.mono.raised.length_le
      show Follows cfg kind K .consumer (if inproc && cfg.wheelRunner && active then _ else _) _ w₃
      split
      · refine (calm_plain (.heartbeat s.taskId e none) trivial (fun _ => trivial)
          (fun _ _ => rfl) hn₃).mono fun r w₄ h => ?_
        exact h.after ((hw₁.trans hw₂).trans hw₃)
      · exact ⟨(hw₁.trans hw₂).trans hw₃, trivial⟩
  · rintro err w' ⟨-, _, hc, -⟩
    cases hc

/-! ### The pass -/

theorem Rely.goes {w' : AgentWorld} (h : Rely kind .consumer w w') : Goes kind w w' where
  mono := h.mono
  holds := h.holds
  lock := h.lock
  handling := (h.mine rfl).handling
  running := (h.mine rfl).running
  begun := (h.mine rfl).begun
  processed := (h.mine rfl).processed
  reserving := (h.mine rfl).reserving

theorem Goes.trans {w₁ w₂ w₃ : AgentWorld} (h : Goes kind w₁ w₂) (h' : Goes kind w₂ w₃) :
    Goes kind w₁ w₃ where
  mono := h.mono.trans h'.mono
  holds e he := h'.holds e (h.holds e he)
  lock e he := h'.lock e (h.lock e he)
  handling := h'.handling.trans h.handling
  running := h'.running.trans h.running
  begun := h'.begun.trans h.begun
  processed := h'.processed.trans h.processed
  reserving := h'.reserving.trans h.reserving

/-- What a turn of the pass leaves for every scrapy attempt: that of the one it
is about is served, those of the others are as they were. -/
def TurnOf (cfg : AgentConfig) (kind : ExecutionId → RunnerType) (n : Nat) (e : ExecutionId)
    (w w' : AgentWorld) : Prop :=
  Goes kind w w' ∧ ∀ e', kind e' = .scrapy →
    if e' = e then Served cfg n w w' e' else w'.store.read e' = w.store.read e'

theorem turn_follows (e : ExecutionId) (hn : n ≤ w.raised.length) (hpast : Past w) :
    Follows cfg kind K .consumer (reconcileAttempt cfg e) (fun r w' => match r with
      | .ok _ => TurnOf cfg kind n e w w'
      | .error _ => Goes kind w w' ∧ Disturbed cfg n w') w := by
  cases hkind : kind e with
  | pythonWheel =>
      refine (reconcileWheel_follows hkind hn).mono ?_
      rintro (err | u) w₁ ⟨hw₁, h⟩
      · exact ⟨hw₁.goes, h⟩
      · refine ⟨hw₁.goes, fun e' hscrapy => ?_⟩
        have hne : e' ≠ e := by
          rintro rfl
          rw [hkind] at hscrapy
          cases hscrapy
        rw [if_neg hne]
        exact hw₁.read e' (.inl hscrapy)
  | scrapy =>
      refine (reconcileAttempt_follows hkind hn hpast).mono ?_
      rintro (err | u) w₁ ⟨hw₁, h⟩
      · exact ⟨hw₁.toGoes, h⟩
      · refine ⟨hw₁.toGoes, fun e' hscrapy => ?_⟩
        by_cases he : e' = e
        · rw [if_pos he, he]
          exact h
        · rw [if_neg he]
          exact hw₁.read e' he (.inl hscrapy)

/-- **The pass serves every attempt it comes to.** -/
theorem reconcileAttempts_follows (ids : List ExecutionId) (hn : n ≤ w.raised.length)
    (hpast : Past w) :
    Follows cfg kind K .consumer (reconcileAttempts cfg ids) (fun r w' => Goes kind w w' ∧
      match r with
      | .ok _ => ∀ e, kind e = .scrapy →
          if e ∈ ids then Served cfg n w w' e else w'.store.read e = w.store.read e
      | .error _ => Disturbed cfg n w') w := by
  induction ids generalizing w with
  | nil => exact ⟨(Rely.refl .consumer w).goes, fun _ _ => by simp⟩
  | cons e ids ih =>
      refine follows_bind (turn_follows e hn hpast) ?_ fun err w' h => h
      rintro u w₁ ⟨hgoes, hturn⟩
      have hn₁ : n ≤ w₁.raised.length := hn.trans hgoes.mono.raised.length_le
      have hpast₁ : Past w₁ := by
        intro p hp
        rw [hgoes.processed] at hp
        exact (hpast p hp).trans hgoes.mono.emitted.length_le
      refine (ih hn₁ hpast₁).mono ?_
      rintro (err | u) w₂ ⟨hgoes₂, h⟩
      · exact ⟨hgoes.trans hgoes₂, h⟩
      refine ⟨hgoes.trans hgoes₂, fun e' hscrapy => ?_⟩
      have hfirst := hturn e' hscrapy
      have hrest := h e' hscrapy
      -- the attempt has its turn now, later, both or neither
      by_cases he : e' = e
      · rw [if_pos he] at hfirst
        rw [if_pos (List.mem_cons.mpr (.inl he))]
        split at hrest
        · exact hfirst.trans hrest hgoes₂.mono
        · exact hfirst.around (.refl w) rfl hgoes₂.mono hrest
      · rw [if_neg he] at hfirst
        split at hrest
        · rename_i hmem
          rw [if_pos (List.mem_cons_of_mem _ hmem)]
          exact hrest.around hgoes.mono hfirst (.refl w₂) rfl
        · rename_i hmem
          rw [if_neg (by simp [he, hmem]), hrest, hfirst]

theorem mem_listExecutionIds {st : StateStore} {s : AttemptState} (h : st.read e = some s) :
    e ∈ st.listExecutionIds :=
  List.mem_map_of_mem (Table.mem_rows_iff.mpr h)

theorem reconcileStartedAttempts_follows (hn : n ≤ w.raised.length) (hpast : Past w) :
    Follows cfg kind K .consumer (reconcileStartedAttempts cfg) (fun r w' => Goes kind w w' ∧
      match r with
      | .ok _ => ∀ e, kind e = .scrapy → Served cfg n w w' e
      | .error _ => Disturbed cfg n w') w := by
  refine calm_bind (n := n) (calm_call trivial (fun _ => trivial) (fun _ _ => rfl) hn)
    (fun ids w₁ hw₁ h => ?_) fun err w₁ hw₁ h => ⟨hw₁.goes, h⟩
  obtain ⟨w₀, x, hw₀, hw₀₁, -, hp⟩ := h
  have hgoes := hw₁.goes
  have hn₁ : n ≤ w₁.raised.length := hn.trans hw₁.mono.raised.length_le
  refine (reconcileAttempts_follows ids hn₁ ((hw₁.touches 0).past hpast)).mono ?_
  rintro (err | u) w₂ ⟨hgoes₂, h⟩
  · exact ⟨hgoes.trans hgoes₂, h⟩
  refine ⟨hgoes.trans hgoes₂, fun e hscrapy => ?_⟩
  have hread : w₁.store.read e = w.store.read e := hw₁.read e (.inl hscrapy)
  have hserved := h e hscrapy
  split at hserved
  · exact hserved.around hw₁.mono hread (.refl w₂) rfl
  · -- a file that is not listed is not there
    rename_i hmem
    have hnone : w.store.read e = none := by
      cases hsome : w.store.read e with
      | none => rfl
      | some s =>
          refine (hmem ?_).elim
          rcases AgentWorld.fallible_cases hp with ⟨-, hids, -⟩ | ⟨err, -, -, hc, -⟩
          · obtain rfl := Except.ok.inj hids
            refine (List.mem_insertionSort _).mpr (List.mem_append_left _ ?_)
            exact mem_listExecutionIds ((hw₀.read e (.inl hscrapy)).trans hsome)
          · cases hc
    have hgone : w₂.store.read e = none := by rw [hserved, hread, hnone]
    exact ⟨swept_of_missing hgone, fun _ => hgone, fun _ _ _ _ => .inl hgone⟩

/-! ### The outbox, and the tick -/

theorem replayEntries_follows (entries : List AgentEvent) (houtbox : cfg.eventOutbox = true)
    (hn : n ≤ w.raised.length) :
    Follows cfg kind K .consumer (replayEntries entries) (Calm cfg kind n w fun _ _ => True)
      w := by
  induction entries generalizing w with
  | nil => exact ⟨.refl _ w, trivial⟩
  | cons ev rest ih =>
      refine follows_bind (P := fun r w' => Rely kind .consumer w w' ∧ ∃ res, r = .ok res ∧
        ∀ u, res = .ok u → ev ∈ w'.stream) ?_ ?_ ?_
      · refine follows_ask fun w₁ hw₁ hinv => ⟨.inl houtbox, fun x r w₂ _ hp => ?_⟩
        refine ⟨hw₁.trans (Rely.silent hinv hp trivial), r, rfl, fun u hr => ?_⟩
        subst hr
        rcases AgentWorld.fallible_cases hp with ⟨-, -, rfl⟩ | ⟨err, -, -, hc, -⟩
        · rw [if_pos houtbox]
          exact List.mem_append_right _ (List.mem_singleton_self _)
        · cases hc
      · rintro res w₁ ⟨hw₁, res', hres, hsent⟩
        obtain rfl := Except.ok.inj hres
        have hn₁ : n ≤ w₁.raised.length := hn.trans hw₁.mono.raised.length_le
        cases res with
        | error err => exact ⟨hw₁, trivial⟩
        | ok u =>
            refine follows_bind (P := Calm cfg kind n w fun _ _ => True) ?_ ?_ fun err w' h => h
            · refine follows_call fun w₂ hw₂ hinv =>
                ⟨hw₂.mono.stream ev (hsent u rfl), fun x r w₃ _ hp => ?_⟩
              have hw₃ := (hw₁.trans hw₂).trans (Rely.silent hinv hp trivial)
              cases r with
              | ok v => exact ⟨hw₃, trivial⟩
              | error err =>
                  exact ⟨hw₃, disturbed_of_error hp (hn₁.trans hw₂.mono.raised.length_le)
                    fun _ => rfl⟩
            · rintro v w₂ ⟨hw₂, -⟩
              exact (ih (hn.trans hw₂.mono.raised.length_le)).mono fun _ _ h => h.after hw₂
      · rintro err w' ⟨-, _, hc, -⟩
        cases hc

theorem replayOutbox_follows (hn : n ≤ w.raised.length) :
    Follows cfg kind K .consumer (replayOutbox cfg) (Calm cfg kind n w fun _ _ => True) w := by
  show Follows cfg kind K .consumer (if cfg.eventOutbox then _ else _) _ w
  split
  · rename_i houtbox
    refine calm_step trivial (fun _ => trivial) (fun _ _ => rfl) hn (fun entries w₁ hw₁ => ?_)
      fun _ _ hw₁ hdisturbed => ⟨hw₁, hdisturbed⟩
    exact (replayEntries_follows entries houtbox (hn.trans hw₁.mono.raised.length_le)).mono
      fun _ _ h => h.after hw₁
  · exact ⟨.refl _ w, trivial⟩

/-- What a tick leaves, if nothing disturbed it. -/
def Ticked (cfg : AgentConfig) (kind : ExecutionId → RunnerType) (w w' : AgentWorld) : Prop :=
  Goes kind w w' ∧ (Disturbed cfg w.raised.length w' ∨
    ∀ e, kind e = .scrapy → Served cfg w.raised.length w w' e)

/-- **A tick serves every attempt, unless it is disturbed.** -/
theorem agentTick_follows (hpast : Past w) :
    Follows cfg kind K .consumer (agentTick cfg) (fun _ w' => Ticked cfg kind w w') w := by
  refine Prog.safe_tryCatch.mpr ?_
  refine Prog.Safe.mono (Q := fun r w' => Goes kind w w' ∧ match r with
    | .ok _ => ∀ e, kind e = .scrapy → Served cfg w.raised.length w w' e
    | .error _ => Disturbed cfg w.raised.length w') ?_ ?_
  · refine calm_bind (replayOutbox_follows le_rfl) (fun _ w₁ hw₁ _ => ?_)
      fun _ w₁ hw₁ h => ⟨hw₁.goes, h⟩
    refine (reconcileStartedAttempts_follows hw₁.mono.raised.length_le
      ((hw₁.touches 0).past hpast)).mono ?_
    rintro (err | u) w₂ ⟨hgoes, h⟩
    · exact ⟨hw₁.goes.trans hgoes, h⟩
    · exact ⟨hw₁.goes.trans hgoes, fun e hscrapy =>
        (h e hscrapy).around hw₁.mono (hw₁.read e (.inl hscrapy)) (.refl w₂) rfl⟩
  · rintro (err | u) w₁ ⟨hgoes, h⟩
    · exact ⟨hgoes, .inl h⟩
    · exact ⟨hgoes, .inr h⟩

end Turns

end Agent

end Dopilot
