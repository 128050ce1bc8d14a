/-
Dopilot/AgentReclaims.lean

A reclaim neither fabricates a terminal nor discards one.

A job has ended of itself if it was gone before a reclaim had sent it a signal.
Whatever is recorded and reported of an attempt that nobody cancels is such an
end (`EndedAlone`), because the signals of a reclaim go out only after the state file
says so (`Told`), and from then on no end of the job is looked for.  A wheel's
waiter does not read what it waits for off the file, so it is the waiter that a
reclaim has to be in time for.

What an attempt that is over has recorded is kept and reported again
(`Repeated`), but for wheels: there the reclaim marks the attempt lost without
looking (`result_lost`).
-/
import Dopilot.AgentTerminals
import Dopilot.AgentVerdicts

namespace Dopilot

namespace Agent

open AgentOp (call ask)

section Reclaims

variable {cfg : AgentConfig} {kind : ExecutionId → RunnerType} {K : Cond} {i : Owner}
  {w w' : AgentWorld} {e : ExecutionId} {f s : AttemptState} {m : Mark} {ev : AgentEvent} {n : Nat}

/-! ### Ends -/

/-- The job is gone. -/
def Gone (w : AgentWorld) (n : JobId) : Prop :=
  ∃ job, w.jobs.get n = some job ∧ job.alive = false

/-- The job ended, and no reclaim had sent it a signal before. -/
def OwnJob (w : AgentWorld) (n : JobId) : Prop :=
  ∃ job, w.jobs.get n = some job ∧ job.alive = false ∧ job.own = true

/-- A child of the execution exited without having been sent a signal. -/
def OwnChild (w : AgentWorld) (e : ExecutionId) : Prop :=
  ∃ n c, w.children.get n = some c ∧ c.executionId = e ∧ c.exited.isSome = true ∧ c.own = true

/-- The same child, that may have been sent a signal since. -/
structure Later (c c' : Child) : Prop where
  executionId : c'.executionId = c.executionId
  exited : c'.exited = c.exited
  own : c'.own = c.own
  signalled : c.signalled = true → c'.signalled = true

theorem Later.refl (c : Child) : Later c c := ⟨rfl, rfl, rfl, fun h => h⟩

/-- The jobs that are gone and the children that have exited are the same. -/
structure SameEnds (w w' : AgentWorld) : Prop where
  jobs : ∀ n job, job.alive = false → (w'.jobs.get n = some job ↔ w.jobs.get n = some job)
  children : ∀ n c', w'.children.get n = some c' → c'.exited.isSome = true →
    ∃ c, w.children.get n = some c ∧ Later c c'
  kept : ∀ n c, w.children.get n = some c → c.exited.isSome = true →
    ∃ c', w'.children.get n = some c' ∧ Later c c'

theorem SameEnds.of_same (hjobs : w'.jobs = w.jobs) (hchildren : w'.children = w.children) :
    SameEnds w w' := by
  refine ⟨fun n job _ => by rw [hjobs], fun n c hc _ => ⟨c, ?_, .refl c⟩,
    fun n c hc _ => ⟨c, ?_, .refl c⟩⟩
  · rw [← hchildren]
    exact hc
  · rw [hchildren]
    exact hc

theorem OwnJob.same (h : OwnJob w n) (hw : SameEnds w w') : OwnJob w' n := by
  obtain ⟨job, hjob, hgone, hown⟩ := h
  exact ⟨job, (hw.jobs n job hgone).mpr hjob, hgone, hown⟩

theorem Gone.same (h : Gone w n) (hw : SameEnds w w') : Gone w' n := by
  obtain ⟨job, hjob, hgone⟩ := h
  exact ⟨job, (hw.jobs n job hgone).mpr hjob, hgone⟩

theorem OwnChild.same (h : OwnChild w e) (hw : SameEnds w w') : OwnChild w' e := by
  obtain ⟨n, c, hc, hid, hexited, hown⟩ := h
  obtain ⟨c', hc', hlater⟩ := hw.kept n c hc hexited
  exact ⟨n, c', hc', hlater.executionId.trans hid, by rw [hlater.exited, hexited],
    hlater.own.trans hown⟩

/-- A signal changes no child but for the note of it. -/
theorem signalled_get {children children' : Table Nat Child} (h : children' = children ∨
      ∃ n, children' = children.modify n fun c => { c with signalled := true }) (n : Nat) :
    (∀ c', children'.get n = some c' → ∃ c, children.get n = some c ∧ Later c c') ∧
      ∀ c, children.get n = some c → ∃ c', children'.get n = some c' ∧ Later c c' := by
  rcases h with rfl | ⟨m, rfl⟩
  · exact ⟨fun c hc => ⟨c, hc, .refl c⟩, fun c hc => ⟨c, hc, .refl c⟩⟩
  simp only [Table.get_modify]
  split
  · refine ⟨fun c' hc' => ?_, fun c hc => ⟨{ c with signalled := true }, by rw [hc]; rfl,
      ⟨rfl, rfl, rfl, fun _ => rfl⟩⟩⟩
    obtain ⟨c, hc, rfl⟩ := Option.map_eq_some_iff.mp hc'
    exact ⟨c, hc, ⟨rfl, rfl, rfl, fun _ => rfl⟩⟩
  · exact ⟨fun c hc => ⟨c, hc, .refl c⟩, fun c hc => ⟨c, hc, .refl c⟩⟩

/-- No operation ends a job or a child. -/
theorem sameEnds_effect {op : AgentOp} {x : AgentAnswer} (hinv : Inv cfg kind w)
    (heffect : Effect cfg x w op w') : SameEnds w w' := by
  cases heffect with
  | scheduled e project spider version settings args =>
      have hfresh : w.jobs.get w.nextJob = none := by
        cases hget : w.jobs.get w.nextJob with
        | none => rfl
        | some job => exact absurd (hinv.jobs _ job hget) (lt_irrefl _)
      refine ⟨fun n job hgone => ?_, fun n c hc _ => ⟨c, hc, .refl c⟩,
        fun n c hc _ => ⟨c, hc, .refl c⟩⟩
      show (w.jobs.insert w.nextJob _).get n = some job ↔ _
      rw [Table.get_insert w.jobs _ hfresh]
      split
      · rename_i hn
        rw [hn, hfresh]
        refine ⟨fun h => ?_, fun h => by cases h⟩
        rw [← Option.some.inj h] at hgone
        cases hgone
      · rfl
  | wheelStarted e shellCommand installPath workingDir env context =>
      have hfresh : w.children.get w.nextChild = none := by
        cases hget : w.children.get w.nextChild with
        | none => rfl
        | some c => exact absurd (hinv.children _ c hget) (lt_irrefl _)
      have hget := Table.get_insert w.children { executionId := e } hfresh
      refine ⟨fun n job _ => Iff.rfl, fun n c' hc' hexited => ?_, fun n c hc _ => ⟨c, ?_, .refl c⟩⟩
      · rw [hget] at hc'
        split at hc'
        · rw [← Option.some.inj hc'] at hexited
          cases hexited
        · exact ⟨c', hc', .refl c'⟩
      · rw [hget, if_neg (hinv.children n c hc).ne, hc]
  | terminated e =>
      refine ⟨fun n job _ => Iff.rfl, fun n c' hc' _ => (signalled_get ?_ n).1 c' hc',
        fun n c hc _ => (signalled_get ?_ n).2 c hc⟩
      · cases w.procs e with
        | none => exact .inl rfl
        | some m => exact .inr ⟨m, rfl⟩
      · cases w.procs e with
        | none => exact .inl rfl
        | some m => exact .inr ⟨m, rfl⟩
  | _ => exact .of_same rfl rfl

theorem sameEnds_perform {op : AgentOp} {x : AgentAnswer} {r : Except AgentError op.Res}
    (hinv : Inv cfg kind w) (hp : op.perform cfg x w = some (r, w')) : SameEnds w w' := by
  obtain ⟨w₁, heffect, rfl | ⟨y, rfl⟩⟩ := perform_leads hp
  · exact sameEnds_effect hinv heffect
  · have h := sameEnds_effect hinv heffect
    exact ⟨h.jobs, h.children, h.kept⟩

/-! ### What signals and state files say of each other -/

/-- Whoever holds the execution's lock does not wait for a child that was sent a signal. -/
def waitsUnsignalled (w : AgentWorld) (e : ExecutionId) : Bool :=
  match w.locks e with
  | some (.waiter n) => (w.children.get n).all fun c => !c.signalled
  | _ => true

theorem unsignalled_of_waits (h : waitsUnsignalled w e = true) (n : Nat)
    (hlock : w.locks e = some (.waiter n)) (c : Child) (hc : w.children.get n = some c) :
    c.signalled = false := by
  unfold waitsUnsignalled at h
  rw [hlock] at h
  simpa [hc] using h

/-- Runs in which scrapyd tells the truth about the jobs it is asked for, and no waiter
records the end of a child that a stop has signalled. -/
def Faithful (e : ExecutionId) : Cond where
  env _ _ := True
  launch _ _ _ := True
  op op x w := match op with
    | .listjobs _ (some job) =>
        x.error = none → ¬ (job ∈ x.jobs.running ∨ job ∈ x.jobs.pending) → Gone w job
    | .mark e' _ => e' = e → waitsUnsignalled w e = true
    | _ => True
  crash _ := True

/-- The history of the ends: the signals of a reclaim go to jobs whose state files record
it, and what ended before them ended of itself. -/
structure Told (w : AgentWorld) : Prop where
  ended : ∀ n job, w.jobs.get n = some job → job.alive = false →
    job.own = true ∨ w.reclaimSent n = true
  told : ∀ g ∈ w.signals, g.intent = some .reclaim → ∀ e f n, w.store.read e = some f →
    f.scrapydJobId = some n → g.job = some n → f.stopIntent = some .reclaim
  gone : ∀ n ∈ w.seenGone, Gone w n
  exited : ∀ n c, w.children.get n = some c → c.exited.isSome = true → c.signalled = false →
    c.own = true

theorem Told.of_same (h : Told w) (hjobs : w'.jobs = w.jobs) (hsignals : w'.signals = w.signals)
    (hstore : w'.store = w.store) (hgone : w'.seenGone = w.seenGone)
    (hchildren : w'.children = w.children) : Told w' where
  ended n job hjob halive := by
    unfold AgentWorld.reclaimSent
    rw [hsignals]
    exact h.ended n job (hjobs ▸ hjob) halive
  told g hg hintent e f n hread := h.told g (hsignals ▸ hg) hintent e f n (hstore ▸ hread)
  gone n hn := by
    obtain ⟨job, hjob, halive⟩ := h.gone n (hgone ▸ hn)
    exact ⟨job, hjobs ▸ hjob, halive⟩
  exited n c hc := h.exited n c (hchildren ▸ hc)

theorem reclaimSent_iff : w.reclaimSent n = true ↔
    ∃ g ∈ w.signals, g.job = some n ∧ g.intent = some .reclaim := by
  unfold AgentWorld.reclaimSent
  rw [List.any_eq_true]
  simp

/-- A mark changes the job or the intent of an attempt only where no reclaim has sent the
job a signal. -/
theorem MayMark.told (h : MayMark cfg kind K i w e s m) (hs : Sound (kind e) e s)
    (htold : ∀ g ∈ w.signals, g.intent = some .reclaim → ∀ n, s.scrapydJobId = some n →
      g.job = some n → s.stopIntent = some .reclaim) :
    ∀ g ∈ w.signals, g.intent = some .reclaim → ∀ n, (m.apply s).scrapydJobId = some n →
      g.job = some n → (m.apply s).stopIntent = some .reclaim := by
  intro g hg hintent n hjob hto
  cases h with
  | promoteStarted job logPath hkind hphase hres hfresh hsignals =>
      obtain rfl := Option.some.inj hjob
      exact absurd hto (hsignals g hg)
  | stopRequested intent t hkind hphase hstop hnow hcmd =>
      -- no stop was asked for, so no reclaim has sent anything
      have hbefore := htold g hg hintent n hjob hto
      have hsome := hs.intent
      rw [hbefore, hstop] at hsome
      cases hsome
  | _ => exact htold g hg hintent n hjob hto

/-- No mark changes a file so that a signal that was sent is not told of. -/
theorem Told.marked (h : Told w) (hinv : Inv cfg kind w) (hread : w.store.read e = some s)
    (hm : MayMark cfg kind K i w e s m) :
    Told { w with store := w.store.mark e m, unreported := w.unreportedAfter e m s } where
  ended := h.ended
  gone := h.gone
  exited := h.exited
  told g hg hintent e' f n hread' hjob hto := by
    change (w.store.mark e m).read e' = some f at hread'
    by_cases he : e' = e
    · subst he
      rw [StateStore.read_mark_self, hread] at hread'
      obtain rfl := Option.some.inj hread'
      exact hm.told (hinv.sound e' s hread)
        (fun g hg hintent n hjob hto => h.told g hg hintent e' s n hread hjob hto)
        g hg hintent n hjob hto
    · rw [StateStore.read_mark_ne _ _ he] at hread'
      exact h.told g hg hintent e' f n hread' hjob hto

/-- A child that has exited and was never sent a signal had exited before. -/
theorem Told.exited_of_same (h : Told w) (hsame : SameEnds w w') (n : Nat) (c' : Child)
    (hc' : w'.children.get n = some c') (hexited : c'.exited.isSome = true)
    (hsignalled : c'.signalled = false) : c'.own = true := by
  obtain ⟨c, hc, hlater⟩ := hsame.children n c' hc' hexited
  rw [hlater.own]
  refine h.exited n c hc (by rw [← hlater.exited]; exact hexited) ?_
  by_contra hsent
  rw [hlater.signalled (by simpa using hsent)] at hsignalled
  cases hsignalled

theorem Told.effect {op : AgentOp} {x : AgentAnswer} (h : Told w) (hinv : Inv cfg kind w)
    (hK : (Faithful e).op op x w) (hmay : May cfg kind K i w op)
    (heffect : Effect cfg x w op w') : Told w' := by
  have hsame := sameEnds_effect hinv heffect
  cases heffect with
  | created s store hstore =>
      obtain ⟨-, -, -, hs⟩ := hmay
      refine ⟨h.ended, fun g hg hintent e' f n hread hjob hto => ?_, h.gone, h.exited⟩
      have hread' := StateStore.read_createReserved hstore e'
      by_cases he : e' = s.executionId
      · rw [if_pos he] at hread'
        obtain rfl := Option.some.inj (hread'.symm.trans hread)
        rw [(hs.reserved rfl).2.2.2.1] at hjob
        cases hjob
      · rw [if_neg he] at hread'
        exact h.told g hg hintent e' f n (hread'.symm.trans hread) hjob hto
  | marked e' m s hread => exact h.marked hinv hread (hmay.2 s hread)
  | deleted e' =>
      refine ⟨h.ended, fun g hg hintent e₁ f n hread hjob hto => ?_, h.gone, h.exited⟩
      change (w.store.delete e').read e₁ = some f at hread
      by_cases he : e₁ = e'
      · rw [he, StateStore.read_delete_self] at hread
        cases hread
      · rw [StateStore.read_delete_ne _ he] at hread
        exact h.told g hg hintent e₁ f n hread hjob hto
  | scheduled e' project spider version settings args =>
      refine ⟨fun n job hjob halive => ?_, h.told, fun n hn => (h.gone n hn).same hsame, h.exited⟩
      exact h.ended n job ((hsame.jobs n job halive).mp hjob) halive
  | signalled e' project job kill sender acked =>
      obtain ⟨-, -, s, hread, hjob, -⟩ := hmay
      refine ⟨fun n job' hjob' halive => ?_, fun g hg hintent e₁ f n hread₁ hjob₁ hto => ?_, h.gone,
        h.exited⟩
      · refine (h.ended n job' hjob' halive).imp_right fun hsent => ?_
        obtain ⟨g, hg, hrest⟩ := reclaimSent_iff.mp hsent
        exact reclaimSent_iff.mpr ⟨g, List.mem_append_left _ hg, hrest⟩
      · rcases List.mem_append.mp hg with hg | hg
        · exact h.told g hg hintent e₁ f n hread₁ hjob₁ hto
        -- the job is that of one execution only
        obtain rfl := List.mem_singleton.mp hg
        obtain ⟨j, hj, hid⟩ := hinv.scheduled e₁ f n hread₁ hjob₁
        obtain ⟨j', hj', hid'⟩ := hinv.scheduled e' s n hread (hjob.symm.trans hto)
        obtain rfl := Option.some.inj (hj.symm.trans hj')
        obtain rfl := hid.symm.trans hid'
        obtain rfl := Option.some.inj (hread.symm.trans hread₁)
        simpa [hread] using hintent
  | listed project job herror hnot =>
      refine ⟨h.ended, h.told, fun n hn => ?_, h.exited⟩
      rcases List.mem_cons.mp hn with rfl | hn
      · exact hK herror hnot
      · exact h.gone n hn
  | wheelStarted e' shellCommand installPath workingDir env context =>
      exact ⟨h.ended, h.told, h.gone, h.exited_of_same hsame⟩
  | terminated e' =>
      exact ⟨h.ended, h.told, h.gone, h.exited_of_same hsame⟩
  | _ => exact h.of_same rfl rfl rfl rfl rfl

theorem Told.perform {op : AgentOp} {x : AgentAnswer} {r : Except AgentError op.Res}
    (h : Told w) (hinv : Inv cfg kind w) (hK : (Faithful e).op op x w)
    (hmay : May cfg kind K i w op) (hp : op.perform cfg x w = some (r, w')) : Told w' := by
  obtain ⟨w₁, heffect, rfl | ⟨y, rfl⟩⟩ := perform_leads hp
  · exact h.effect hinv hK hmay heffect
  · exact (h.effect hinv hK hmay heffect).of_same rfl rfl rfl rfl rfl

/-- What the end of a job makes of the jobs. -/
theorem jobEnds_get (w : AgentWorld) (job n : JobId) :
    (w.move (.jobEnds job)).jobs.get n = if n = job then (w.jobs.get n).map (fun j =>
      if j.alive then { j with alive := false, own := !w.reclaimSent job } else j)
    else w.jobs.get n :=
  Table.get_modify w.jobs job _ n

/-- A child after the exit of one: it is as it was, or it has exited now. -/
theorem childExits_get {child n : Nat} {code : Int} {c : Child}
    (h : (w.move (.childExits child code)).children.get n = some c) :
    w.children.get n = some c ∨ ∃ c₀, w.children.get n = some c₀ ∧ c₀.exited = none ∧
      c = { c₀ with exited := some code, own := !c₀.signalled } := by
  simp only [AgentWorld.move, Table.get_modify] at h
  split at h
  · obtain ⟨c₀, hc₀, rfl⟩ := Option.map_eq_some_iff.mp h
    cases hexited : c₀.exited with
    | none => exact .inr ⟨c₀, hc₀, hexited, rfl⟩
    | some code' => exact .inl hc₀
  · exact .inl h

theorem childExits_kept {child n : Nat} {code : Int} {c : Child} (h : w.children.get n = some c)
    (hexited : c.exited.isSome = true) :
    (w.move (.childExits child code)).children.get n = some c := by
  obtain ⟨code', hcode⟩ := Option.isSome_iff_exists.mp hexited
  simp only [AgentWorld.move, Table.get_modify, h]
  split
  · simp [hcode]
  · rfl

/-- What is gone is gone. -/
theorem Gone.move (h : Gone w n) (mv : AgentMove) : Gone (w.move mv) n := by
  obtain ⟨j, hj, halive⟩ := h
  cases mv with
  | jobEnds job =>
      refine ⟨j, ?_, halive⟩
      rw [jobEnds_get, hj]
      split
      · simp [halive]
      · rfl
  | tick | childExits | eof => exact ⟨j, hj, halive⟩

theorem OwnJob.move (h : OwnJob w n) (mv : AgentMove) : OwnJob (w.move mv) n := by
  obtain ⟨j, hj, halive, hown⟩ := h
  cases mv with
  | jobEnds job =>
      refine ⟨j, ?_, halive, hown⟩
      rw [jobEnds_get, hj]
      split
      · simp [halive]
      · rfl
  | tick | childExits | eof => exact ⟨j, hj, halive, hown⟩

theorem OwnChild.move (h : OwnChild w e) (mv : AgentMove) : OwnChild (w.move mv) e := by
  obtain ⟨n, c, hc, hid, hexited, hown⟩ := h
  cases mv with
  | childExits child code => exact ⟨n, c, childExits_kept hc hexited, hid, hexited, hown⟩
  | tick | jobEnds | eof => exact ⟨n, c, hc, hid, hexited, hown⟩

theorem Told.move (h : Told w) (mv : AgentMove) : Told (w.move mv) := by
  cases mv with
  | tick | eof => exact h.of_same rfl rfl rfl rfl rfl
  | jobEnds job =>
      refine ⟨fun n j hj halive => ?_, h.told, fun n hn => (h.gone n hn).move _, h.exited⟩
      show j.own = true ∨ w.reclaimSent n = true
      rw [jobEnds_get] at hj
      split at hj
      · rename_i hn
        obtain ⟨j₀, hj₀, rfl⟩ := Option.map_eq_some_iff.mp hj
        by_cases hbefore : j₀.alive = true
        · rw [if_pos hbefore, hn]
          cases w.reclaimSent job
          · exact .inl rfl
          · exact .inr rfl
        · rw [if_neg hbefore]
          exact h.ended n j₀ hj₀ (by simpa using hbefore)
      · exact h.ended n j hj halive
  | childExits child code =>
      refine ⟨h.ended, h.told, h.gone, fun n c hc hexited hsignalled => ?_⟩
      rcases childExits_get hc with hbefore | ⟨c₀, -, -, rfl⟩
      · exact h.exited n c hbefore hexited hsignalled
      · show (!c₀.signalled) = true
        rw [show c₀.signalled = false from hsignalled]
        rfl

theorem told_of_run {s : State}
    (h : StateMachine.RunOk (step cfg kind) (Faithful e).Holds start s) : Told s.world := by
  refine run_invariant ?_ ?_ ?_ ?_ h
  · exact ⟨fun _ _ hj => (by cases hj), fun _ hg => (by cases hg), fun _ hn => (by cases hn),
      fun _ _ hc => (by cases hc)⟩
  · exact fun w m _ hw _ => hw.move m
  · exact fun i op x r w w' hinv hw hK hmay hp => hw.perform hinv hK hmay hp
  · exact fun w _ hw _ => hw.of_same rfl rfl rfl rfl rfl

/-! ### What is recorded of an attempt -/

/-- The attempt was never started, or its job or its child had ended of itself. -/
structure EndedAlone (kind : ExecutionId → RunnerType) (w : AgentWorld) (e : ExecutionId)
    (f : AttemptState) : Prop where
  job : kind e = .scrapy → ∀ n, f.scrapydJobId = some n → OwnJob w n
  child : kind e = .pythonWheel → f.errorCode.isSome = true ∨ OwnChild w e

/-- The attempt was over before, with the result it has now. -/
def KeptFrom (f₀ : Option AttemptState) (f : AttemptState) : Prop :=
  f.phase = .done ∧ ∃ g, f₀ = some g ∧ g.phase = .done ∧ f.result = g.result

/-- What is recorded was so before, or is the end of an attempt that was left alone. -/
structure Untainted (kind : ExecutionId → RunnerType) (f₀ : Option AttemptState) (w : AgentWorld)
    (e : ExecutionId) (f : AttemptState) : Prop where
  intent : f.stopIntent = some .cancel → KeptFrom f₀ f
  done : f.phase = .done → KeptFrom f₀ f ∨ f.result = some .lost ∨ EndedAlone kind w e f

/-- A job that is gone while no stop was asked for has ended of itself. -/
theorem Told.ownJob (h : Told w) (hs : Sound (kind e) e s) (hread : w.store.read e = some s)
    (hstop : s.stopRequestedAt = none)
    (hgone : ∃ job, s.scrapydJobId = some job ∧ job ∈ w.seenGone) (n : JobId)
    (hn : s.scrapydJobId = some n) : OwnJob w n := by
  obtain ⟨job, hjob, hin⟩ := hgone
  obtain rfl := Option.some.inj (hjob.symm.trans hn)
  obtain ⟨j, hj, halive⟩ := h.gone job hin
  refine ⟨j, hj, halive, (h.ended job j hj halive).resolve_right fun hsent => ?_⟩
  obtain ⟨g, hg, hto, hintent⟩ := reclaimSent_iff.mp hsent
  have hsome := hs.intent
  rw [h.told g hg hintent e s job hread hn hto, hstop] at hsome
  cases hsome

theorem KeptFrom.of_same {f₀ : Option AttemptState} (h : KeptFrom f₀ s) (hphase : f.phase = s.phase)
    (hresult : f.result = s.result) : KeptFrom f₀ f := by
  obtain ⟨hdone, g, hg, hgdone, hsame⟩ := h
  exact ⟨hphase.trans hdone, g, hg, hgdone, hresult.trans hsame⟩

/-- A mark that changes nothing of what is recorded. -/
theorem Untainted.of_same {f₀ : Option AttemptState} (h : Untainted kind f₀ w e s)
    (hphase : f.phase = s.phase) (hresult : f.result = s.result)
    (hintent : f.stopIntent = s.stopIntent) (hjob : f.scrapydJobId = s.scrapydJobId)
    (herror : f.errorCode = s.errorCode) : Untainted kind f₀ w e f where
  intent hc := (h.intent (hintent.symm.trans hc)).of_same hphase hresult
  done hdone := by
    rcases h.done (hphase.symm.trans hdone) with hkept | hlost | hended
    · exact .inl (hkept.of_same hphase hresult)
    · exact .inr (.inl (hresult.trans hlost))
    · have hjobs := fun hkind n hn => hended.job hkind n (hjob.symm.trans hn)
      refine .inr (.inr ⟨hjobs, fun hkind => ?_⟩)
      rw [herror]
      exact hended.child hkind

/-- No cancel is recorded of an attempt that is not over. -/
theorem Untainted.no_cancel {f₀ : Option AttemptState} (h : Untainted kind f₀ w e s)
    (hphase : s.phase ≠ .done) : s.stopIntent ≠ some .cancel :=
  fun hc => hphase (h.intent hc).1

/-- A mark that says how an attempt ended which was not over. -/
theorem Untainted.ends {f₀ : Option AttemptState} (h : Untainted kind f₀ w e s)
    (hphase : s.phase ≠ .done) (hintent : f.stopIntent = s.stopIntent)
    (hdone : f.result = some .lost ∨ EndedAlone kind w e f) : Untainted kind f₀ w e f where
  intent hc := absurd (hintent.symm.trans hc) (h.no_cancel hphase)
  done _ := .inr hdone

theorem MayMark.untainted {f₀ : Option AttemptState} (h : MayMark cfg kind K i w e s m)
    (hinv : Inv cfg kind w) (htold : Told w) (hread : w.store.read e = some s)
    (hheld : Holds kind w i e)
    (hchild : ∀ n, w.locks e = some (.waiter n) → ∀ c, w.children.get n = some c →
      c.signalled = false)
    (huncanceled : ¬ Stopping w e .cancel) (hf : Untainted kind f₀ w e s) :
    Untainted kind f₀ w e (m.apply s) := by
  have hs := hinv.sound e s hread
  have hstarted : s.phase = .started → s.phase ≠ .done := fun hphase => by
    rw [hphase]
    exact fun hc => by cases hc
  have hreserved : s.phase = .reserved → s.phase ≠ .done := fun hphase => by
    rw [hphase]
    exact fun hc => by cases hc
  -- an attempt that is reserved has no job
  have hnojob : s.phase = .reserved → ∀ n, s.scrapydJobId = some n → OwnJob w n :=
    fun hphase n hn => by
      rw [(hs.reserved hphase).2.2.2.1] at hn
      cases hn
  cases h with
  | failed errorCode lostReason hphase =>
      exact hf.ends (hreserved hphase) rfl (.inr ⟨fun _ => hnojob hphase, fun _ => .inl rfl⟩)
  | aborted hphase =>
      exact hf.ends (hreserved hphase) rfl (.inr ⟨fun _ => hnojob hphase, fun _ => .inl rfl⟩)
  | orphaned hkind hphase => exact hf.ends (hstarted hphase) rfl (.inl rfl)
  | finished terminal hkind hphase hstop hgone =>
      have hown : ∀ n, s.scrapydJobId = some n → OwnJob w n := htold.ownJob hs hread hstop hgone
      refine hf.ends (hstarted hphase) rfl (.inr ⟨fun _ => hown, ?_⟩)
      rw [hkind]
      exact fun hc => by cases hc
  | waited child c result exitCode hi hkind hphase hget hown hexited hresult =>
      refine hf.ends hphase rfl (.inr ⟨?_, fun _ => .inr ⟨child, c, hget, hown, hexited, ?_⟩⟩)
      · rw [hkind]
        exact fun hc => by cases hc
      · subst hi
        exact htold.exited child c hget hexited (hchild child hheld.2.1 c hget)
  | reclaimed confirmed hkind hphase => exact hf.ends (hstarted hphase) rfl (.inl rfl)
  | canceledStop confirmed hkind hphase hstop hintent =>
      exact absurd hintent (hf.no_cancel (hstarted hphase))
  | canceledNow hphase hcmd => exact absurd hcmd huncanceled
  | reclaimedWheel hkind =>
      refine ⟨fun hc => ?_, fun _ => .inr (.inl rfl)⟩
      have hnone : s.stopIntent = none := (hs.wheel hkind).1.stopIntent
      rw [show (Mark.apply _ s).stopIntent = s.stopIntent from rfl, hnone] at hc
      cases hc
  | promoteStarted job logPath hkind hphase =>
      exact ⟨fun hc => absurd hc (hf.no_cancel (hreserved hphase)), fun hc => by cases hc⟩
  | promoteStartedWheel pgid workspacePath logPath hkind hrunner hphase =>
      exact ⟨fun hc => absurd hc (hf.no_cancel (hreserved hphase)), fun hc => by cases hc⟩
  | stopRequested intent t hkind hphase hstop hnow hcmd =>
      refine ⟨fun hc => ?_, fun hc => absurd hc (hstarted hphase)⟩
      obtain rfl := Option.some.inj hc
      exact absurd hcmd huncanceled
  | stats | stopEscalation | cleanupPending | killAttempt | clearKillPending
  | clearTerminalPending | canceled | logFlood | logCapped =>
      exact hf.of_same rfl rfl rfl rfl rfl

theorem EndedAlone.imp (h : EndedAlone kind w e f)
    (hjob : ∀ n, OwnJob w n → OwnJob w' n) (hchild : OwnChild w e → OwnChild w' e) :
    EndedAlone kind w' e f :=
  ⟨fun hkind n hn => hjob n (h.job hkind n hn), fun hkind => (h.child hkind).imp_right hchild⟩

theorem Untainted.imp {f₀ : Option AttemptState} (h : Untainted kind f₀ w e f)
    (hjob : ∀ n, OwnJob w n → OwnJob w' n) (hchild : OwnChild w e → OwnChild w' e) :
    Untainted kind f₀ w' e f :=
  ⟨h.intent, fun hdone => (h.done hdone).imp_right fun hrest =>
    hrest.imp_right fun hended => hended.imp hjob hchild⟩

/-- What the state file of the execution records is untainted. -/
def Clean (kind : ExecutionId → RunnerType) (f₀ : Option AttemptState) (e : ExecutionId)
    (w : AgentWorld) : Prop :=
  ∀ f, w.store.read e = some f → Untainted kind f₀ w e f

theorem Clean.imp {f₀ : Option AttemptState} (h : Clean kind f₀ e w) (hstore : w'.store = w.store)
    (hjob : ∀ n, OwnJob w n → OwnJob w' n) (hchild : OwnChild w e → OwnChild w' e) :
    Clean kind f₀ e w' :=
  fun f hread => (h f (hstore ▸ hread)).imp hjob hchild

theorem Clean.effect {f₀ : Option AttemptState} {op : AgentOp} {x : AgentAnswer}
    (h : Clean kind f₀ e w) (hinv : Inv cfg kind w) (htold : Told w)
    (hK : (Faithful e).op op x w) (huncanceled : ¬ Stopping w e .cancel)
    (hmay : May cfg kind K i w op) (heffect : Effect cfg x w op w') : Clean kind f₀ e w' := by
  have hsame := sameEnds_effect hinv heffect
  have hjob : ∀ n, OwnJob w n → OwnJob w' n := fun _ hown => hown.same hsame
  have hchild : OwnChild w e → OwnChild w' e := fun hown => hown.same hsame
  cases heffect with
  | created s store hstore =>
      intro f hread
      have hread' := StateStore.read_createReserved hstore e
      by_cases he : e = s.executionId
      · rw [if_pos he] at hread'
        obtain rfl := Option.some.inj (hread'.symm.trans hread)
        refine ⟨fun hc => ?_, fun hc => by cases hc⟩
        obtain ⟨-, -, -, hs⟩ := hmay
        have hnone := (hs.reserved rfl).2.1.stopIntent
        rw [hnone] at hc
        cases hc
      · rw [if_neg he] at hread'
        exact (h f (hread'.symm.trans hread)).imp hjob hchild
  | marked e' m s hread =>
      intro f hread'
      change (w.store.mark e' m).read e = some f at hread'
      by_cases he : e = e'
      · subst he
        rw [StateStore.read_mark_self, hread] at hread'
        obtain rfl := Option.some.inj hread'
        exact ((hmay.2 s hread).untainted hinv htold hread hmay.1 (unsignalled_of_waits (hK rfl))
          huncanceled (h s hread)).imp hjob hchild
      · rw [StateStore.read_mark_ne _ _ he] at hread'
        exact (h f hread').imp hjob hchild
  | deleted e' =>
      intro f hread
      change (w.store.delete e').read e = some f at hread
      by_cases he : e = e'
      · rw [he, StateStore.read_delete_self] at hread
        cases hread
      · rw [StateStore.read_delete_ne _ he] at hread
        exact (h f hread).imp hjob hchild
  | _ => exact h.imp rfl hjob hchild

theorem Clean.perform {f₀ : Option AttemptState} {op : AgentOp} {x : AgentAnswer}
    {r : Except AgentError op.Res} (h : Clean kind f₀ e w) (hinv : Inv cfg kind w) (htold : Told w)
    (hK : (Faithful e).op op x w) (huncanceled : ¬ Stopping w e .cancel)
    (hmay : May cfg kind K i w op) (hp : op.perform cfg x w = some (r, w')) :
    Clean kind f₀ e w' := by
  obtain ⟨w₁, heffect, rfl | ⟨y, rfl⟩⟩ := perform_leads hp
  · exact h.effect hinv htold hK huncanceled hmay heffect
  · exact (h.effect hinv htold hK huncanceled hmay heffect).imp rfl (fun _ hown => hown)
      fun hown => hown

/-! ### What is reported -/

/-- The event repeats the result that was recorded before, or it says how an attempt ended
that was never started or was left alone. -/
def Genuine (kind : ExecutionId → RunnerType) (f₀ : Option AttemptState) (w : AgentWorld)
    (ev : AgentEvent) : Prop :=
  (∃ g result, f₀ = some g ∧ g.phase = .done ∧ g.result = some result ∧
      ev.type = result.eventType) ∨
    ∃ f, w.store.read ev.executionId = some f ∧
      (f.phase = .reserved ∨ EndedAlone kind w ev.executionId f)

theorem KeptFrom.genuine {f₀ : Option AttemptState} {result : AttemptResult} (h : KeptFrom f₀ f)
    (hresult : f.result = some result) (htype : ev.type = result.eventType) :
    Genuine kind f₀ w ev := by
  obtain ⟨-, g, hg, hdone, hsame⟩ := h
  exact .inl ⟨g, result, hg, hdone, hsame.symm.trans hresult, htype⟩

theorem Clean.genuine {f₀ : Option AttemptState} (h : Clean kind f₀ ev.executionId w)
    (hinv : Inv cfg kind w) (htold : Told w) (huncanceled : ¬ Stopping w ev.executionId .cancel)
    (hreports : Reports kind K w ev (w.store.read ev.executionId))
    (hhard : ev.type.isAuthoritativeTerminal = true) : Genuine kind f₀ w ev := by
  generalize hread : w.store.read ev.executionId = o at hreports
  cases hreports with
  | missing htype =>
      rw [htype] at hhard
      cases hhard
  | canceled o htype hcmd => exact absurd hcmd huncanceled
  | aborted f hphase => exact .inr ⟨f, hread, .inl hphase⟩
  | recorded f hphase hev =>
      obtain ⟨result, hresult, htype⟩ := hev.type
      rcases (h f hread).done hphase with hkept | hlost | hended
      · exact hkept.genuine hresult htype
      · obtain rfl := Option.some.inj (hresult.symm.trans hlost)
        rw [htype] at hhard
        cases hhard
      · exact .inr ⟨f, hread, .inr hended⟩
  | stopped f hphase hresult hintent htype =>
      exact ((h f hread).intent hintent).genuine hresult htype
  | observed f hkind hphase hstop hcmd hgone hres =>
      refine .inr ⟨f, hread, .inr ⟨fun _ => ?_, ?_⟩⟩
      · exact htold.ownJob (hinv.sound _ f hread) hread hstop hgone
      · rw [hkind]
        exact fun hc => by cases hc

/-- A step that is not taken while a cancel of the execution is in hand. -/
def Uncanceled (e : ExecutionId) (s : State) (a : Action) : Prop :=
  (Faithful e).Holds s a ∧ ¬ Stopping s.world e .cancel

theorem Clean.step {f₀ : Option AttemptState} {s s' : State} {a : Action}
    (hs : (verified cfg kind (Faithful e)).Good s) (htold : Told s.world)
    (h : Clean kind f₀ e s.world) (hok : Uncanceled e s a)
    (hstep : step cfg kind s a = some s') : Clean kind f₀ e s'.world := by
  cases a with
  | env m =>
      obtain rfl := Option.some.inj
        (show some { s with world := s.world.move m } = some s' from hstep)
      refine h.imp ?_ (fun _ hown => hown.move m) fun hown => hown.move m
      cases m <;> rfl
  | start i inp =>
      simp only [Agent.step, Sys.step] at hstep
      split at hstep
      · cases hstep
      · obtain ⟨p, -, rfl⟩ := Option.map_eq_some_iff.mp hstep
        exact h
  | op i answer =>
      obtain ⟨op, x, r, hK, hp, hmay⟩ := (verified cfg kind (Faithful e)).step_guar hs hok.1 hstep
      exact h.perform hs.1 htold hK hok.2 hmay hp
  | crash =>
      obtain rfl := Option.some.inj hstep
      exact h.imp rfl (fun _ hown => hown) fun hown => hown

theorem clean_of_run {s s' : State}
    (h : StateMachine.RunOk (step cfg kind) (Faithful e).Holds start s)
    (hcancel : ∀ f, s.world.store.read e = some f → f.phase = .started →
      f.stopIntent ≠ some .cancel)
    (hrun : StateMachine.RunOk (step cfg kind) (Uncanceled e) s s') :
    Clean kind (s.world.store.read e) e s'.world := by
  have hstart : Clean kind (s.world.store.read e) e s.world := by
    intro f hread
    have hkept : f.phase = .done → KeptFrom (s.world.store.read e) f := fun hdone =>
      ⟨hdone, f, hread, hdone, rfl⟩
    refine ⟨fun hc => ?_, fun hdone => .inl (hkept hdone)⟩
    cases hphase : f.phase with
    | done => exact hkept hphase
    | started => exact absurd hc (hcancel f hread hphase)
    | reserved =>
        rw [(((good_of_run h).1.sound e f hread).reserved hphase).2.1.stopIntent] at hc
        cases hc
  refine (hrun.invariant (I := fun t =>
    StateMachine.RunOk (step cfg kind) (Faithful e).Holds start t ∧
      Clean kind (s.world.store.read e) e t.world) (fun t a t' ht hok hstep => ?_)
    ⟨h, hstart⟩).2
  exact ⟨ht.1.tail ⟨a, hok.1, hstep⟩,
    ht.2.step (good_of_run ht.1) (told_of_run ht.1) hok hstep⟩

/-- The step that emits an event is an operation that the rules allow. -/
theorem emitting_step {s s' : State} {a : Action} (hs : (verified cfg kind K).Good s)
    (hok : K.Holds s a) (hstep : step cfg kind s a = some s')
    (hemitted : s'.world.emitted = s.world.emitted ++ [ev]) :
    ∃ i, MayEmit kind K i s.world ev := by
  have hnot : s'.world.emitted ≠ s.world.emitted := by
    rw [hemitted]
    exact fun hc => by simpa using congrArg List.length hc
  cases a with
  | env m =>
      obtain rfl := Option.some.inj
        (show some { s with world := s.world.move m } = some s' from hstep)
      refine absurd ?_ hnot
      cases m <;> rfl
  | start i inp =>
      simp only [Agent.step, Sys.step] at hstep
      split at hstep
      · cases hstep
      · obtain ⟨p, -, rfl⟩ := Option.map_eq_some_iff.mp hstep
        exact absurd rfl hnot
  | op i answer =>
      obtain ⟨op, x, r, -, hp, hmay⟩ := (verified cfg kind K).step_guar hs hok hstep
      rcases emitted_step hmay hp with hsame | ⟨-, ev', hemitted', hmayEmit⟩
      · exact absurd hsame hnot
      · obtain rfl := (List.cons.inj (List.append_cancel_left (hemitted.symm.trans hemitted'))).1
        exact ⟨i, hmayEmit⟩
  | crash =>
      obtain rfl := Option.some.inj hstep
      exact absurd rfl hnot

/-! ### Results that are there -/

/-- A step without a stop of the execution in hand, after which its state file is there. -/
def Unstopping (cfg : AgentConfig) (kind : ExecutionId → RunnerType) (K : Cond) (e : ExecutionId)
    (s : State) (a : Action) : Prop :=
  K.Holds s a ∧ ¬ Handling s.world e .stop ∧
    ∀ s' ∈ step cfg kind s a, (s'.world.store.read e).isSome = true

/-- The attempt is over with this result. -/
def Over (w : AgentWorld) (e : ExecutionId) (result : AttemptResult) : Prop :=
  ∃ f, w.store.read e = some f ∧ f.phase = .done ∧ f.result = some result

/-- Only a stop changes the result of an attempt that is over. -/
theorem MayMark.over {result : AttemptResult} (h : MayMark cfg kind K i w e s m)
    (hdone : s.phase = .done) (hresult : s.result = some result) (hstop : ¬ Handling w e .stop) :
    (m.apply s).phase = .done ∧ (m.apply s).result = some result := by
  have hnot : ∀ {intent : StopIntent}, ¬ Stopping w e intent := by
    rintro intent ⟨cmd, hcmd, hid, htype, -⟩
    exact hstop ⟨cmd, hcmd, hid, htype⟩
  cases h with
  | canceledNow hphase hcmd => exact absurd hcmd hnot
  | reclaimedWheel hkind hcmd => exact absurd hcmd hnot
  | stopEscalation | cleanupPending | killAttempt | clearKillPending | clearTerminalPending
  | canceled | logCapped => exact ⟨hdone, hresult⟩
  | promoteStarted | promoteStartedWheel | failed | aborted | orphaned | stats | finished | waited
  | stopRequested | reclaimed | canceledStop | logFlood =>
      -- not of an attempt that is over
      grind

theorem Over.step {s s' : State} {a : Action} {result : AttemptResult}
    (hs : (verified cfg kind K).Good s) (h : Over s.world e result)
    (hok : Unstopping cfg kind K e s a) (hstep : step cfg kind s a = some s') :
    Over s'.world e result := by
  obtain ⟨f, hread, hdone, hresult⟩ := h
  cases a with
  | env m =>
      obtain rfl := Option.some.inj
        (show some { s with world := s.world.move m } = some s' from hstep)
      refine ⟨f, ?_, hdone, hresult⟩
      cases m <;> exact hread
  | start i inp =>
      simp only [Agent.step, Sys.step] at hstep
      split at hstep
      · cases hstep
      · obtain ⟨p, -, rfl⟩ := Option.map_eq_some_iff.mp hstep
        exact ⟨f, hread, hdone, hresult⟩
  | op i answer =>
      have hstays := hok.2.2 s' hstep
      obtain ⟨op, x, r, -, hp, hmay⟩ := (verified cfg kind K).step_guar hs hok.1 hstep
      have hfile := fileStep hmay hp e
      rw [hread] at hfile
      generalize hread' : s'.world.store.read e = o at hfile
      cases hfile with
      | same => exact ⟨f, hread', hdone, hresult⟩
      | marked m f hheld hm => exact ⟨_, hread', hm.over hdone hresult hok.2.1⟩
      | deleted f hfree hasked =>
          rw [hread'] at hstays
          cases hstays
  | crash =>
      obtain rfl := Option.some.inj hstep
      exact ⟨f, hread, hdone, hresult⟩

/-- What an attempt that is over has recorded is kept. -/
theorem over_of_run {s s' : State} {result : AttemptResult} (hs : (verified cfg kind K).Good s)
    (h : Over s.world e result)
    (hrun : StateMachine.RunOk (step cfg kind) (Unstopping cfg kind K e) s s') :
    Over s'.world e result :=
  (hrun.invariant (I := fun t => (verified cfg kind K).Good t ∧ Over t.world e result)
    (fun t a t' ht hok hstep => ⟨(verified cfg kind K).good_step t a t' ht.1 hok.1 hstep,
      ht.2.step ht.1 hok hstep⟩) ⟨hs, h⟩).2

/-- The reclaim of an attempt that is over keeps its result, and reports it again. -/
def Repeated (cfg : AgentConfig) (n k : Nat) (e : ExecutionId) (result : AttemptResult)
    (w : AgentWorld) : Prop :=
  Over w e result ∧ (Disturbed cfg n w ∨ EmittedSince k w e result.eventType)

theorem Repeated.rely {k : Nat} {result : AttemptResult} (h : Repeated cfg n k e result w)
    (hkind : kind e = .scrapy) (hw : Rely kind .consumer w w') : Repeated cfg n k e result w' := by
  obtain ⟨⟨f, hread, hf⟩, hrest⟩ := h
  refine ⟨⟨f, (hw.read e (.inl hkind)).trans hread, hf⟩, ?_⟩
  exact hrest.imp (fun hd => hd.mono hw.mono) fun hs => hs.mono hw.mono

theorem handleReclaim_repeats {k : Nat} {cmd : AgentCommand} {result : AttemptResult}
    (hkind : kind cmd.executionId = .scrapy) (hcmd : InHand w cmd)
    (hover : Over w cmd.executionId result) (hn : n ≤ w.raised.length)
    (hk : k ≤ w.emitted.length) :
    Follows cfg kind K .consumer (handleReclaim cfg cmd)
      (fun _ w' => InHand w' cmd ∧ Repeated cfg n k cmd.executionId result w') w := by
  obtain ⟨f, hread, hdone, hresult⟩ := hover
  have hheld : Holds kind w .consumer cmd.executionId := .inl hkind
  have hstarted : f.phase ≠ .started := by
    rw [hdone]
    exact fun hc => by cases hc
  refine read_step hheld fun w₁ hw₁ hinv => ?_
  have hread₁ := (hw₁.read _ hheld).trans hread
  have hs := hinv.sound _ f hread₁
  rw [hread]
  show Follows cfg kind K .consumer (if isWheel cfg (some f) then _ else
    if f.phase ≠ .started then if f.result.isSome then _ else _ else _) _ w₁
  have hwheel : ¬ isWheel cfg (some f) = true := by
    simp [isWheel, hs.runnerType, hkind]
  rw [if_neg hwheel, if_pos hstarted, if_pos (by rw [hresult]; rfl)]
  have hn₁ : n ≤ w₁.raised.length := hn.trans hw₁.mono.raised.length_le
  have hk₁ : k ≤ w₁.emitted.length := hk.trans hw₁.mono.emitted.length_le
  have hfile : ∀ s', w₁.store.read cmd.executionId = some s' → s' = f := fun s' hs' =>
    Option.some.inj (hs'.symm.trans hread₁)
  refine (republishCurrent_follows cmd.taskId (.inl hkind) hn₁ hk₁ (fun s' hs' hphase => ?_)
    fun s' hs' hphase => ?_).mono ?_
  · rw [hfile s' hs', hdone] at hphase
    cases hphase
  · rw [hfile s' hs', hdone] at hphase
    cases hphase
  · rintro (err | u) w₂ ⟨hw₂, h⟩
    · exact ⟨(hcmd.rely hw₁).rely hw₂,
        ⟨f, (hw₂.read _ (.inl hkind)).trans hread₁, hdone, hresult⟩, .inl h⟩
    · exact ⟨(hcmd.rely hw₁).rely hw₂,
        ⟨f, (hw₂.read _ (.inl hkind)).trans hread₁, hdone, hresult⟩,
        .inr (h f result hread₁ hdone hresult)⟩

theorem reclaim_repeats {cmd : AgentCommand} {result : AttemptResult}
    (hkind : kind cmd.executionId = .scrapy) (htype : cmd.type = .stop)
    (hintent : cmd.intent ≠ some .cancel) (hrunning : w.running = true)
    (hover : Over w cmd.executionId result) :
    Follows cfg kind K .consumer (processCommand cfg cmd) (fun _ w' =>
      Repeated cfg w.raised.length w.emitted.length cmd.executionId result w') w := by
  refine follows_bind (P := fun r w' => (∀ u, r = .ok u → InHand w' cmd) ∧
    Over w' cmd.executionId result ∧ w.raised.length ≤ w'.raised.length ∧
    w.emitted.length ≤ w'.emitted.length ∧ ∃ u, r = .ok u) ?_ ?_ ?_
  · refine follows_call fun w₁ hw₁ hinv => ?_
    have hrunning₁ : w₁.running = true := hw₁.running hrunning
    refine ⟨⟨rfl, hrunning₁⟩, fun x r w₂ _ hp => ?_⟩
    obtain ⟨f, hread, hf⟩ := hover
    simp only [AgentOp.perform] at hp
    split at hp
    · cases hp
      exact ⟨fun _ _ => ⟨rfl, Function.update_self _ _ _, hrunning₁⟩,
        ⟨f, (hw₁.read _ (.inl hkind)).trans hread, hf⟩, hw₁.mono.raised.length_le,
        hw₁.mono.emitted.length_le, _, rfl⟩
    · cases hp
  · rintro u w₁ ⟨hcmd, hover₁, hn, hk, -⟩
    have hcmd := hcmd u rfl
    refine Prog.safe_tryFinally.mpr (Prog.safe_tryCatch.mpr ?_)
    have hhandler : Follows cfg kind K .consumer (handleCommand cfg cmd) (fun _ w' =>
        InHand w' cmd ∧ Repeated cfg w.raised.length w.emitted.length cmd.executionId result w')
        w₁ := by
      unfold handleCommand
      rw [htype]
      show Follows cfg kind K .consumer (if cmd.intent = some .cancel then _ else _) _ w₁
      rw [if_neg hintent]
      exact handleReclaim_repeats hkind hcmd hover₁ hn hk
    refine hhandler.mono fun r w₂ h => ?_
    obtain ⟨hcmd₂, hrepeated⟩ := h
    have hfinish : Follows cfg kind K .consumer (call (.finish cmd)) (fun _ w' =>
        Repeated cfg w.raised.length w.emitted.length cmd.executionId result w') w₂ := by
      refine follows_call fun w₃ hw₃ hinv => ⟨?_, fun x r' w₄ _ hp => ?_⟩
      · have hcmd₃ := hcmd₂.rely hw₃
        exact ⟨rfl, hcmd₃.lock, hcmd₃.handling, fun _ hc => (hintent hc).elim⟩
      · have hrepeated₃ := hrepeated.rely hkind hw₃
        cases hp
        exact hrepeated₃
    cases r with
    | ok v => exact hfinish.mono fun r' _ h => by cases r' <;> exact h
    | error err => exact hfinish.mono fun r' _ h => by cases r' <;> exact h
  · rintro err w' ⟨-, -, -, -, _, hc⟩
    cases hc

/-! ### The commands -/

/-- The consumer, idle in `s`, handles a command and has come to its end in `s₂`. -/
structure CommandOf (cfg : AgentConfig) (kind : ExecutionId → RunnerType) (K : Cond)
    (cmd : AgentCommand) (s s₂ : State) : Prop where
  run : ∃ s₁, step cfg kind s (.start .consumer (.command cmd)) = some s₁ ∧
    StateMachine.RunOk (step cfg kind) (K.within .consumer).Holds s₁ s₂
  idle : s₂.procs .consumer = none

/-- What a reclaim leaves of an attempt that is over. -/
theorem CommandOf.repeated {s s₂ : State} {cmd : AgentCommand} {result : AttemptResult}
    (h : CommandOf cfg kind K cmd s s₂) (hs : (verified cfg kind K).Good s)
    (hkind : kind cmd.executionId = .scrapy) (htype : cmd.type = .stop)
    (hintent : cmd.intent ≠ some .cancel) (hover : Over s.world cmd.executionId result) :
    Repeated cfg s.world.raised.length s.world.emitted.length cmd.executionId result s₂.world := by
  obtain ⟨s₁, hstart, hrun⟩ := h.run
  refine (verified cfg kind K).ended (Q := Repeated cfg s.world.raised.length
    s.world.emitted.length cmd.executionId result) hs (fun p hp => ?_)
    (fun _ _ hq hw => hq.rely hkind hw) hstart hrun h.idle
  simp only [spec, launch] at hp
  split at hp
  · rename_i hcmd
    obtain rfl := Option.some.inj hp
    exact reclaim_repeats hkind htype hintent hcmd.1 hover
  · cases hp

/-- **A reclaim neither fabricates a terminal nor discards one.** -/
theorem reclaim_genuine (cfg : AgentConfig) (kind : ExecutionId → RunnerType) (e : ExecutionId)
    {s : State} (h : StateMachine.RunOk (step cfg kind) (Faithful e).Holds start s) :
    -- a hard terminal is an end of its own, or was recorded before
    ((∀ f, s.world.store.read e = some f → f.phase = .started → f.stopIntent ≠ some .cancel) →
      ∀ s₁ a s₂ ev, StateMachine.RunOk (step cfg kind) (Uncanceled e) s s₁ → Uncanceled e s₁ a →
        step cfg kind s₁ a = some s₂ → s₂.world.emitted = s₁.world.emitted ++ [ev] →
        ev.executionId = e → ev.type.isAuthoritativeTerminal = true →
        Genuine kind (s.world.store.read e) s₁.world ev) ∧
    -- a reclaim reports again what is recorded
    (∀ cmd s₂ result, CommandOf cfg kind (Faithful e) cmd s s₂ → Undisturbed cfg s s₂ →
      cmd.executionId = e → cmd.type = .stop → cmd.intent ≠ some .cancel → kind e = .scrapy →
      Over s.world e result → Over s₂.world e result ∧
        EmittedSince s.world.emitted.length s₂.world e result.eventType) ∧
    -- and nothing but a stop changes it
    (∀ s' result, StateMachine.RunOk (step cfg kind) (Unstopping cfg kind (Faithful e) e) s s' →
      Over s.world e result → Over s'.world e result) := by
  refine ⟨fun hcancel s₁ a s₂ ev hrun hok hstep hemitted hid hhard => ?_,
    fun cmd s₂ result hcmd hquiet hid htype hintent hkind hover => ?_,
    fun s' result hrun hover => over_of_run (good_of_run h) hover hrun⟩
  · have hrun₁ : StateMachine.RunOk (step cfg kind) (Faithful e).Holds start s₁ :=
      h.trans (hrun.mono fun _ _ hok => hok.1)
    have hgood := good_of_run hrun₁
    obtain ⟨i, hmay⟩ := emitting_step hgood hok.1 hstep hemitted
    have hclean := clean_of_run h hcancel hrun
    subst hid
    exact hclean.genuine hgood.1 (told_of_run hrun₁) hok.2
      (hmay (AgentEventType.isTerminal_of_isAuthoritativeTerminal hhard)).2 hhard
  · subst hid
    obtain ⟨hover₂, hrest⟩ := hcmd.repeated (good_of_run h) hkind htype hintent hover
    exact ⟨hover₂, hrest.resolve_left hquiet⟩

/-! ### Runs -/

instance (w : AgentWorld) (n : JobId) : Decidable (Gone w n) :=
  decidable_of_iff (∃ job ∈ w.jobs.get n, job.alive = false) Iff.rfl

instance (e : ExecutionId) (op : AgentOp) (x : AgentAnswer) (w : AgentWorld) :
    Decidable ((Faithful e).op op x w) :=
  match op with
  | .listjobs _ (some job) => inferInstanceAs (Decidable (x.error = none →
      ¬ (job ∈ x.jobs.running ∨ job ∈ x.jobs.pending) → Gone w job))
  | .mark e' _ => inferInstanceAs (Decidable (e' = e → waitsUnsignalled w e = true))
  | .listjobs _ none | .listExecutionIds | .read _ | .createReserved _ | .delete _ | .uuid
  | .persist _ | .xadd _ | .unlinkEvent _ | .outboxEntries | .heartbeat .. | .schedule ..
  | .cancel .. | .pidKill _ | .logExists _ | .logSize _ | .logStats _ | .truncateLog _
  | .unlinkLog _ | .wheelStart .. | .wheelTerminate _ | .wheelActive _ | .terminatePgid _
  | .rmtree _ | .cache .. | .validate _ | .addInproc _ | .inproc _ | .spawnWait .. | .wheelWait _
  | .releaseExecution _ | .now | .begin _ | .finish _ | .lockWait .. | .unlockWait _ | .setup
  | .enterLoop => .isTrue trivial

instance (e : ExecutionId) (s : State) (a : Action) : Decidable ((Faithful e).Holds s a) :=
  have _ : ∀ w a, Decidable ((Faithful e).env w a) := fun _ _ => .isTrue trivial
  have _ : ∀ w i inp, Decidable ((Faithful e).launch w i inp) := fun _ _ _ => .isTrue trivial
  have _ : ∀ w, Decidable ((Faithful e).crash w) := fun _ => .isTrue trivial
  inferInstance

instance (e : ExecutionId) (i : Owner) (s : State) (a : Action) :
    Decidable (((Faithful e).within i).Holds s a) :=
  have _ : ∀ w a, Decidable ((Faithful e).env w a) := fun _ _ => .isTrue trivial
  have _ : ∀ w i inp, Decidable ((Faithful e).launch w i inp) := fun _ _ _ => .isTrue trivial
  inferInstance

instance (i : Owner) (s : State) (a : Action) :
    Decidable (((Sys.Cond.always : Cond).within i).Holds s a) :=
  have _ : ∀ w a, Decidable ((Sys.Cond.always : Cond).env w a) := fun _ _ => .isTrue trivial
  have _ : ∀ w i inp, Decidable ((Sys.Cond.always : Cond).launch w i inp) := fun _ _ _ =>
    .isTrue trivial
  have _ : ∀ op x w, Decidable ((Sys.Cond.always : Cond).op op x w) := fun _ _ _ => .isTrue trivial
  inferInstance

instance (e : ExecutionId) (s : State) (a : Action) : Decidable (Uncanceled e s a) :=
  inferInstanceAs (Decidable ((Faithful e).Holds s a ∧ ¬ Stopping s.world e .cancel))

instance (w : AgentWorld) (e : ExecutionId) (result : AttemptResult) :
    Decidable (Over w e result) :=
  decidable_of_iff (∃ f ∈ w.store.read e, f.phase = .done ∧ f.result = some result) Iff.rfl

/-- A command is exhibited by executing it. -/
theorem exists_command (cfg : AgentConfig) (kind : ExecutionId → RunnerType) (K : Cond)
    [∀ (s : State) (a : Action), Decidable (K.Holds s a)]
    [∀ (s : State) (a : Action), Decidable ((K.within .consumer).Holds s a)]
    (cmd : AgentCommand) (as bs : List Action) (P : State → State → Bool)
    (h : ((StateMachine.checkedRun (step cfg kind) K.Holds start as).any fun s =>
      ((step cfg kind s (.start .consumer (.command cmd))).bind fun s₁ =>
        StateMachine.checkedRun (step cfg kind) (K.within .consumer).Holds s₁ bs).any fun s₂ =>
          (s₂.procs .consumer).isNone && P s s₂) = true) :
    ∃ s s₂, StateMachine.RunOk (step cfg kind) K.Holds start s ∧ CommandOf cfg kind K cmd s s₂ ∧
      P s s₂ = true := by
  obtain ⟨s, hs, h⟩ := (Option.any_eq_true _ _).mp h
  obtain ⟨s₂, hs₂, h⟩ := (Option.any_eq_true _ _).mp h
  obtain ⟨s₁, hs₁, hs₂⟩ := Option.bind_eq_some_iff.mp hs₂
  simp only [Bool.and_eq_true, Option.isNone_iff_eq_none] at h
  have hrun : StateMachine.RunOk (step cfg kind) K.Holds start s := .of_checkedRun hs
  have hcmd : StateMachine.RunOk (step cfg kind) (K.within .consumer).Holds s₁ s₂ :=
    .of_checkedRun hs₂
  exact ⟨s, s₂, hrun, ⟨⟨s₁, hs₁, hcmd⟩, h.1⟩, h.2⟩

/-- A job has ended, and a reclaim finds it so. -/
def sampleReclaimed : List Action :=
  sampleStarted ++ [.env (.jobEnds 0)] ++ runs (.command sampleReclaim) 13 sampleFinished

/-- The last event of the second state is a hard terminal of the execution, and new. -/
def emitsTerminal (e : ExecutionId) (s₁ s₂ : State) : Bool :=
  s₂.world.emitted.getLast?.any fun ev => decide (s₂.world.emitted = s₁.world.emitted ++ [ev]) &&
    ev.executionId == e && ev.type.isAuthoritativeTerminal

theorem reclaim_genuine_sample :
    (∃ (s s₁ s₂ : State) (a : Action) (ev : AgentEvent),
      step sampleConfig (fun _ => .scrapy) s₁ a = some s₂ ∧
        s₂.world.emitted = s₁.world.emitted ++ [ev] ∧
        Genuine (fun _ => .scrapy) (s.world.store.read 7) s₁.world ev) ∧
    (∃ s s₂ : State, CommandOf sampleConfig (fun _ => .scrapy) (Faithful 7) sampleReclaim s s₂ ∧
      Over s₂.world 7 .finished ∧
      EmittedSince s.world.emitted.length s₂.world 7 .finished) := by
  constructor
  · obtain ⟨s, hrun, h⟩ := StateMachine.RunOk.exists_of_checkedRun
      (step sampleConfig fun _ => .scrapy) (Faithful 7).Holds start
      (sampleStarted ++ [.env (.jobEnds 0)])
      (fun s => (s.world.store.read 7).any (fun f => f.stopIntent == none) &&
        (StateMachine.checkedRun (step sampleConfig fun _ => .scrapy) (Uncanceled 7) s
          (runs (.command sampleReclaim) 9 sampleFinished)).any fun s₁ =>
            decide (Uncanceled 7 s₁ (.op .consumer fun _ => sampleFinished)) &&
              (step sampleConfig (fun _ => .scrapy) s₁ (.op .consumer fun _ => sampleFinished)).any
                (emitsTerminal 7 s₁)) (by decide +kernel)
    simp only [Bool.and_eq_true] at h
    obtain ⟨f, hread, hintent⟩ := (Option.any_eq_true _ _).mp h.1
    obtain ⟨s₁, hs₁, h⟩ := (Option.any_eq_true _ _).mp h.2
    simp only [Bool.and_eq_true, decide_eq_true_eq] at h
    obtain ⟨s₂, hstep, hlast⟩ := (Option.any_eq_true _ _).mp h.2
    obtain ⟨ev, -, hev⟩ := (Option.any_eq_true _ _).mp hlast
    simp only [Bool.and_eq_true, decide_eq_true_eq, beq_iff_eq] at hev hintent
    obtain ⟨hgenuine, -, -⟩ := reclaim_genuine sampleConfig (fun _ => .scrapy) 7 hrun
    refine ⟨s, s₁, s₂, _, ev, hstep, hev.1.1, hgenuine (fun f' hread' _ => ?_) s₁ _ s₂ ev
      (.of_checkedRun hs₁) h.1 hstep hev.1.1 hev.1.2 hev.2⟩
    obtain rfl := Option.some.inj (hread.symm.trans hread')
    rw [hintent]
    exact fun hc => by cases hc
  · obtain ⟨s, s₂, hrun, hcmd, h⟩ := exists_command sampleConfig (fun _ => .scrapy) (Faithful 7)
      sampleReclaim sampleReclaimed (List.replicate 8 (.op .consumer fun _ => sampleFinished))
      (fun s s₂ => decide (Over s.world 7 .finished) && decide (Undisturbed sampleConfig s s₂))
      (by decide +kernel)
    simp only [Bool.and_eq_true, decide_eq_true_eq] at h
    obtain ⟨-, hrepeats, -⟩ := reclaim_genuine sampleConfig (fun _ => .scrapy) 7 hrun
    exact ⟨s, s₂, hcmd, hrepeats sampleReclaim s₂ .finished hcmd h.2 rfl rfl
      (fun hc => by cases hc) rfl h.1⟩

/-- A command that runs a wheel. -/
def sampleWheelRun : AgentCommand :=
  { sampleRun with
    taskType := .pythonWheel
    payload := { artifact := some { hash := some "digest" }, shellCommand := "run" } }

/-- A wheel runs to its end, and its waiter says so. -/
def sampleWheel : List Action :=
  runs .boot 5 ++ runs (.command sampleWheelRun) 20 ++ [.env (.childExits 0 0)] ++
    .start (.waiter 0) .wait :: List.replicate 9 (.op (.waiter 0) fun _ => {})

/-- **A reclaim discards what a wheel has ended with**, and does not report it again. -/
theorem result_lost : ¬ ∀ (cfg : AgentConfig) (kind : ExecutionId → RunnerType)
    (e : ExecutionId) (s s₂ : State) (cmd : AgentCommand) (result : AttemptResult),
    StateMachine.Run (step cfg kind) start s → CommandOf cfg kind .always cmd s s₂ →
    Undisturbed cfg s s₂ → cmd.executionId = e → cmd.type = .stop → cmd.intent ≠ some .cancel →
    Over s.world e result → result.eventType.isAuthoritativeTerminal = true →
    Over s₂.world e result ∧
      EmittedSince s.world.emitted.length s₂.world e result.eventType := by
  intro h
  obtain ⟨s, s₂, hrun, hcmd, hs⟩ := exists_command sampleConfig (fun _ => .pythonWheel) .always
    sampleReclaim sampleWheel (List.replicate 5 (.op .consumer fun _ => {}))
    (fun s s₂ => decide (Over s.world 7 .finished) && decide (Undisturbed sampleConfig s s₂) &&
      !decide (Over s₂.world 7 .finished)) (by decide +kernel)
  simp only [Bool.and_eq_true, decide_eq_true_eq, Bool.not_eq_true', decide_eq_false_iff_not] at hs
  exact hs.2 (h sampleConfig (fun _ => .pythonWheel) 7 s s₂ sampleReclaim .finished
    (hrun.mono fun _ _ _ => trivial) hcmd hs.1.2 rfl rfl (fun hc => by cases hc) hs.1.1 rfl).1

end Reclaims

end Agent

end Dopilot
