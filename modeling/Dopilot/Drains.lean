/-
Dopilot/Drains.lean

Rounds of a stream consumer while no operation fails.

Such a round is determined by what handling an entry ends in, its `Verdict`: the
entry is applied and acknowledged, skipped and acknowledged, or it raises, which
ends the round.  `PageRun` says what a page leads to, `Drift` what any number of
operations can at most do to the stream.
-/
import Dopilot.Consumers

namespace Dopilot

namespace Drains

variable {β σ χ : Type} {cfg : ConsumerConfig} {A : AppModel β σ χ} {x : χ}

/-! ### Verdicts -/

/-- What becomes of an entry that is given to the handler. -/
inductive Verdict where
  | applies
  | skips
  | raises
  deriving DecidableEq, Repr

/-- `one` treats an entry as its verdict says, as long as no operation fails. -/
structure Treats (cfg : ConsumerConfig) (A : AppModel β σ χ) (x : χ)
    (one : Nat → β → ConsumerProg β Unit) (verdict : Nat → β → Verdict) : Prop where
  applies : ∀ {id b} (w : Inbox β σ), verdict id b = .applies → ∃ app,
    (one id b).exec { perform := ConsumerOp.perform cfg A } (noFaults x) w
      = some (.ok (), { w with
          stream := w.stream.xack id, app := app, processed := w.processed ++ [id] })
  skips : ∀ {id b} (w : Inbox β σ), verdict id b = .skips → ∃ app,
    (one id b).exec { perform := ConsumerOp.perform cfg A } (noFaults x) w
      = some (.ok (), { w with stream := w.stream.xack id, app := app })
  raises : ∀ {id b} (w : Inbox β σ), verdict id b = .raises → ∃ e app,
    (one id b).exec { perform := ConsumerOp.perform cfg A } (noFaults x) w
      = some (.error e, { w with app := app })

/-- An entry the server's event consumer does not decode is skipped. -/
def eventVerdict (bad : Nat → AgentEvent → Bool) (id : Nat) : Option AgentEvent → Verdict
  | none => .skips
  | some ev => if bad id ev then .raises else .applies

/-- An entry the server's log consumer does not decode raises. -/
def logVerdict (bad : Nat → AgentLogEvent → Bool) (id : Nat) : Option AgentLogEvent → Verdict
  | none => .raises
  | some ev => if bad id ev then .raises else .applies

/-- The handler's work on an entry and its acknowledgement. -/
theorem exec_handle_ack (id : Nat) (b : β) (w : Inbox β σ) :
    (do ConsumerOp.call (.handle id b); ConsumerOp.call (.xack id) : ConsumerProg β Unit).exec
        { perform := ConsumerOp.perform cfg A } (noFaults x) w
      = some (match A.handle x id b w.app with
        | (true, app) => (.ok (), { w with
            stream := w.stream.xack id, app := app, processed := w.processed ++ [id] })
        | (false, app) => (.error .handler, { w with app := app })) := by
  show ((ConsumerOp.handle id b).perform cfg A (noFaults x (.handle id b)) w).bind _ = _
  rcases hrun : A.handle x id b w.app with ⟨ok, app⟩
  cases ok with
  | true =>
      simp only [ConsumerOp.perform, noFaults, hrun, Option.bind_some]
      rfl
  | false =>
      simp only [ConsumerOp.perform, noFaults, hrun, Option.bind_some]
      rfl

/-- Without a fault, an entry that is handled and acknowledged is applied unless
the handler raises. -/
theorem treats_handled (cfg : ConsumerConfig) {bad : Bool} {id : Nat} {b : β} {w : Inbox β σ}
    (hA : (A.handle x id b w.app).1 = !bad) :
    ∃ app, (do ConsumerOp.call (.handle id b); ConsumerOp.call (.xack id) :
        ConsumerProg β Unit).exec { perform := ConsumerOp.perform cfg A } (noFaults x) w
      = some (if bad then (.error .handler, { w with app := app }) else (.ok (), { w with
          stream := w.stream.xack id, app := app, processed := w.processed ++ [id] })) := by
  rcases hrun : A.handle x id b w.app with ⟨ok, app⟩
  rw [hrun] at hA
  obtain rfl : ok = !bad := hA
  refine ⟨app, ?_⟩
  rw [exec_handle_ack, hrun]
  cases bad with
  | true => rfl
  | false => rfl

theorem event_treats {A : AppModel (Option AgentEvent) σ χ} {bad : Nat → AgentEvent → Bool}
    (hA : ∀ id ev app, (A.handle x id (some ev) app).1 = !bad id ev) :
    Treats cfg A x EventConsumer.applyOne (eventVerdict bad) where
  applies {id b} w h := by
    rcases b with - | ev
    · cases h
    · obtain ⟨app, hexec⟩ := treats_handled cfg (hA id ev w.app)
      cases hbad : bad id ev with
      | true => simp [eventVerdict, hbad] at h
      | false => exact ⟨app, by rw [hbad] at hexec; exact hexec⟩
  skips {id b} w h := by
    rcases b with - | ev
    · exact ⟨w.app, rfl⟩
    · cases hbad : bad id ev with
      | true => simp [eventVerdict, hbad] at h
      | false => simp [eventVerdict, hbad] at h
  raises {id b} w h := by
    rcases b with - | ev
    · cases h
    · obtain ⟨app, hexec⟩ := treats_handled cfg (hA id ev w.app)
      cases hbad : bad id ev with
      | true => exact ⟨.handler, app, by rw [hbad] at hexec; exact hexec⟩
      | false => simp [eventVerdict, hbad] at h

theorem log_treats {A : AppModel (Option AgentLogEvent) σ χ} {bad : Nat → AgentLogEvent → Bool}
    (hA : ∀ id ev app, (A.handle x id (some ev) app).1 = !bad id ev) :
    Treats cfg A x LogConsumer.applyOne (logVerdict bad) where
  applies {id b} w h := by
    rcases b with - | ev
    · cases h
    · obtain ⟨app, hexec⟩ := treats_handled cfg (hA id ev w.app)
      cases hbad : bad id ev with
      | true => simp [logVerdict, hbad] at h
      | false => exact ⟨app, by rw [hbad] at hexec; exact hexec⟩
  skips {id b} w h := by
    rcases b with - | ev
    · cases h
    · cases hbad : bad id ev with
      | true => simp [logVerdict, hbad] at h
      | false => simp [logVerdict, hbad] at h
  raises {id b} w h := by
    rcases b with - | ev
    · exact ⟨.decode, w.app, rfl⟩
    · obtain ⟨app, hexec⟩ := treats_handled cfg (hA id ev w.app)
      cases hbad : bad id ev with
      | true => exact ⟨.handler, app, by rw [hbad] at hexec; exact hexec⟩
      | false => simp [logVerdict, hbad] at h

/-! ### Pages -/

/-- The part of a page before the first entry that raises. -/
def settled (verdict : Nat → β → Verdict) (page : List (Nat × β)) : List (Nat × β) :=
  page.takeWhile fun y => verdict y.1 y.2 ≠ .raises

/-- What the treatment of a page leads to. -/
structure PageRun (verdict : Nat → β → Verdict) (page : List (Nat × β)) (w : Inbox β σ)
    (r : Except ConsumerError Unit) (w' : Inbox β σ) : Prop where
  stream : w'.stream = w.stream.ackAll ((settled verdict page).map Prod.fst)
  now : w'.now = w.now
  kept : w.handed ⊆ w'.handed
  handed : ∀ y ∈ settled verdict page, y.1 ∈ w'.handed
  processed : ∀ i, i ∈ w'.processed ↔
    i ∈ w.processed ∨ ∃ y ∈ settled verdict page, y.1 = i ∧ verdict y.1 y.2 = .applies
  outcome : match r with
    | .ok _ => settled verdict page = page
    | .error _ => settled verdict page ≠ page

/-- A part of a consumer, run while no operation fails. -/
abbrev Steady (cfg : ConsumerConfig) (A : AppModel β σ χ) (x : χ) {α : Type}
    (p : ConsumerProg β α) (Q : Except ConsumerError α → Inbox β σ → Prop) (w : Inbox β σ) : Prop :=
  p.Safe { perform := ConsumerOp.perform cfg A } (Prog.Contract.given (noFaults x)) Q w

variable {one : Nat → β → ConsumerProg β Unit} {verdict : Nat → β → Verdict}

theorem steady_of_exec {α : Type} {p : ConsumerProg β α}
    {Q : Except ConsumerError α → Inbox β σ → Prop} {w w' : Inbox β σ}
    {r : Except ConsumerError α}
    (he : p.exec { perform := ConsumerOp.perform cfg A } (noFaults x) w = some (r, w'))
    (hQ : Q r w') : Steady cfg A x p Q w := by
  refine Prog.safe_given.mpr fun r' w'' he' => ?_
  obtain ⟨rfl, rfl⟩ := Prod.mk.inj (Option.some.inj (he.symm.trans he'))
  exact hQ

/-- The treatment of a page. -/
theorem handlePage_run (htreats : Treats cfg A x one verdict) (page : List (Nat × β))
    (w : Inbox β σ) : Steady cfg A x (handlePage one page) (PageRun verdict page w) w := by
  induction page generalizing w with
  | nil =>
      exact
        { stream := rfl
          now := rfl
          kept := fun _ hi => hi
          handed := by simp [settled]
          processed := by simp [settled]
          outcome := rfl }
  | cons y rest ih =>
      refine Prog.safe_bind.mpr (Prog.safe_call.mpr ?_)
      rintro _ rfl _ r w₁ rfl hp
      cases hp
      refine ⟨trivial, Prog.safe_bind.mpr ?_⟩
      -- an entry that does not raise is acknowledged, and the page goes on
      have hgo : ∀ w₂ : Inbox β σ, verdict y.1 y.2 ≠ .raises →
          w₂.stream = w.stream.xack y.1 → w₂.now = w.now → w₂.handed = w.handed ++ [y.1] →
          (∀ i, i ∈ w₂.processed ↔ i ∈ w.processed ∨ y.1 = i ∧ verdict y.1 y.2 = .applies) →
          Steady cfg A x (handlePage one rest) (PageRun verdict (y :: rest) w) w₂ := by
        intro w₂ hne hstream hnow hhanded hprocessed
        have hsettled : settled verdict (y :: rest) = y :: settled verdict rest :=
          List.takeWhile_cons_of_pos (by simpa using hne)
        refine (ih w₂).mono fun r w₃ hr => ?_
        refine ⟨?_, hr.now.trans hnow, ?_, ?_, fun i => ?_, ?_⟩
        · rw [hr.stream, hstream, hsettled]
          rfl
        · intro i hi
          exact hr.kept (hhanded ▸ List.mem_append_left _ hi)
        · intro z hz
          rw [hsettled] at hz
          rcases List.mem_cons.mp hz with rfl | hz'
          · exact hr.kept (hhanded ▸ List.mem_append_right _ (List.mem_singleton.mpr rfl))
          · exact hr.handed z hz'
        · rw [hr.processed i, hprocessed i, hsettled]
          simp only [List.mem_cons, exists_eq_or_imp, or_assoc]
        · have hout := hr.outcome
          cases r with
          | ok _ => exact hsettled.trans (congrArg _ hout)
          | error e =>
              intro heq
              rw [hsettled] at heq
              exact hout (List.cons.inj heq).2
      rcases hv : verdict y.1 y.2 with - | - | -
      · obtain ⟨app, hexec⟩ := htreats.applies
          { w with handed := w.handed ++ [y.1], mine := w.mine ++ [y.1] } hv
        refine steady_of_exec hexec (hgo _ (by simp [hv]) rfl rfl rfl fun i => ?_)
        simp [hv, eq_comm]
      · obtain ⟨app, hexec⟩ := htreats.skips
          { w with handed := w.handed ++ [y.1], mine := w.mine ++ [y.1] } hv
        refine steady_of_exec hexec (hgo _ (by simp [hv]) rfl rfl rfl fun i => ?_)
        simp [hv]
      · obtain ⟨e, app, hexec⟩ := htreats.raises
          { w with handed := w.handed ++ [y.1], mine := w.mine ++ [y.1] } hv
        have hsettled : settled verdict (y :: rest) = [] :=
          List.takeWhile_cons_of_neg (by simpa using hv)
        refine steady_of_exec hexec ?_
        show PageRun verdict (y :: rest) w (.error e) _
        refine ⟨by rw [hsettled]; rfl, rfl, List.subset_append_left _ _, ?_, fun i => ?_, ?_⟩
        · rw [hsettled]
          simp
        · rw [hsettled]
          simp
        · show settled verdict (y :: rest) ≠ y :: rest
          rw [hsettled]
          exact (List.cons_ne_nil _ _).symm

/-! ### Rounds -/

theorem perform_isSome (op : ConsumerOp β) (w : Inbox β σ) :
    (op.perform cfg A (noFaults x op) w).isSome := by
  cases op with
  | xautoclaim start =>
      simp only [ConsumerOp.perform]
      split
      · rfl
      · rfl
  | xreadgroup =>
      simp only [ConsumerOp.perform]
      split
      · rfl
      · rfl
  | handle id b =>
      simp only [ConsumerOp.perform]
      split
      · rfl
      · rfl
  | ensureGroup | xack _ | hand _ | chore _ | enterLoop => rfl

/-- A round leads to what its program leads to. -/
theorem round_of_steady {p : ConsumerProg β Unit}
    {Q : Except ConsumerError Unit → Inbox β σ → Prop} {w : Inbox β σ} {dt : Nat}
    (h : Steady cfg A x p Q (w.move (.tick dt))) : ∃ r, Q r (round cfg A p x w dt) := by
  obtain ⟨⟨r, w'⟩, hexec⟩ : ∃ left, p.exec { perform := ConsumerOp.perform cfg A } (noFaults x)
      (w.move (.tick dt)) = some left :=
    Option.isSome_iff_exists.mp (Prog.exec_isSome perform_isSome p _)
  have hround : round cfg A p x w dt = w' := by
    unfold round
    dsimp only
    rw [hexec]
  exact ⟨r, hround ▸ Prog.safe_given.mp h r w' hexec⟩

theorem rounds_cons (p : ConsumerProg β Unit) (w : Inbox β σ) (dt : Nat) (dts : List Nat) :
    rounds cfg A p x w (dt :: dts) = rounds cfg A p x (round cfg A p x w dt) dts := rfl

/-- An error does not leave a guarded program. -/
theorem guarded_run {p : ConsumerProg β Unit} {Q : Inbox β σ → Prop} {w : Inbox β σ}
    (h : Steady cfg A x p (fun _ => Q) w) : Steady cfg A x (guarded p) (fun _ => Q) w := by
  refine Prog.safe_tryCatch.mpr (h.mono fun r w' hw' => ?_)
  cases r with
  | ok _ => exact hw'
  | error e => exact hw'

/-! ### What operations can do at most -/

/-- Without `XGROUP CREATE`, entries only pass from what is new to what is pending
and from there out of sight. -/
structure Drift (w w' : Inbox β σ) : Prop where
  entries : w'.stream.entries = w.stream.entries
  group : w'.stream.group.isSome = w.stream.group.isSome
  news : w'.stream.news.Sublist w.stream.news
  pending : ∀ i ∈ w'.stream.pending.map Prod.fst,
    i ∈ w.stream.pending.map Prod.fst ∨ i ∈ w.stream.news.map Prod.fst
  handed : w.handed ⊆ w'.handed
  processed : w.processed ⊆ w'.processed

theorem Drift.refl (w : Inbox β σ) : Drift w w :=
  ⟨rfl, rfl, List.Sublist.refl _, fun _ hi => .inl hi, fun _ hi => hi, fun _ hi => hi⟩

theorem Drift.trans {w₁ w₂ w₃ : Inbox β σ} (h : Drift w₁ w₂) (h' : Drift w₂ w₃) :
    Drift w₁ w₃ where
  entries := h'.entries.trans h.entries
  group := h'.group.trans h.group
  news := h'.news.trans h.news
  pending i hi := by
    rcases h'.pending i hi with hpending | hnews
    · exact h.pending i hpending
    · exact .inr ((h.news.map Prod.fst).subset hnews)
  handed _ hi := h'.handed (h.handed hi)
  processed _ hi := h'.processed (h.processed hi)

/-- Only the stream has changed, and it within bounds. -/
theorem Drift.of_stream {w : Inbox β σ} {stream : RedisStream β}
    (hentries : stream.entries = w.stream.entries)
    (hgroup : stream.group.isSome = w.stream.group.isSome)
    (hnews : stream.news.Sublist w.stream.news)
    (hpending : ∀ i ∈ stream.pending.map Prod.fst,
      i ∈ w.stream.pending.map Prod.fst ∨ i ∈ w.stream.news.map Prod.fst) :
    Drift w { w with stream := stream } :=
  ⟨hentries, hgroup, hnews, hpending, fun _ hi => hi, fun _ hi => hi⟩

theorem perform_drift {op : ConsumerOp β} {a : ConsumerAnswer χ} {w w' : Inbox β σ}
    {r : Except ConsumerError op.Res} (hop : op ≠ .ensureGroup)
    (h : op.perform cfg A a w = some (r, w')) : Drift w w' := by
  cases op with
  | ensureGroup => exact absurd rfl hop
  | xautoclaim start =>
      simp only [ConsumerOp.perform] at h
      split at h
      · cases h
        exact Drift.refl w
      · rename_i page stream hclaim
        obtain ⟨hentries, hgroup, hnews⟩ := RedisStream.xautoclaim_news hclaim
        refine Prog.withFault_rel (R := Drift) (Drift.refl w) ?_ h
        refine Drift.of_stream hentries hgroup (hnews ▸ List.Sublist.refl _) fun i hi => ?_
        exact .inl ((RedisStream.pending_xautoclaim hclaim).subset hi)
  | xreadgroup =>
      simp only [ConsumerOp.perform] at h
      split at h
      · cases h
        exact Drift.refl w
      · rename_i page stream hread
        obtain ⟨hentries, hgroup, hnews⟩ := RedisStream.xreadgroup_news hread
        obtain ⟨hpage, hpending⟩ := RedisStream.xreadgroup_page hread
        have hsome : w.stream.group.isSome := by
          obtain ⟨g, hg, -⟩ := Option.map_eq_some_iff.mp hread
          rw [hg]
          rfl
        refine Prog.withFault_rel (R := Drift) (Drift.refl w) ?_ h
        refine Drift.of_stream hentries (hgroup.trans hsome.symm)
          (hnews ▸ List.drop_sublist _ _) fun i hi => ?_
        rw [hpending, List.map_append] at hi
        rcases List.mem_append.mp hi with hold | hnew
        · exact .inl hold
        · obtain ⟨p, hp, rfl⟩ := List.mem_map.mp hnew
          obtain ⟨y, hy, rfl⟩ := List.mem_map.mp hp
          rw [hpage] at hy
          exact .inr (List.mem_map.mpr ⟨y, List.mem_of_mem_take hy, rfl⟩)
  | xack id =>
      refine Prog.withFault_rel (R := Drift) (Drift.refl w) ?_ h
      refine Drift.of_stream rfl (RedisStream.xack_group_isSome _ _)
        (by rw [RedisStream.xack_news]) fun i hi => ?_
      rw [RedisStream.pending_xack] at hi
      exact .inl ((List.Sublist.map Prod.fst List.filter_sublist).subset hi)
  | hand id =>
      cases h
      exact ⟨rfl, rfl, List.Sublist.refl _, fun _ hi => .inl hi, List.subset_append_left _ _,
        fun _ hi => hi⟩
  | handle id b =>
      simp only [ConsumerOp.perform] at h
      split at h
      · cases h
        exact ⟨rfl, rfl, List.Sublist.refl _, fun _ hi => .inl hi, fun _ hi => hi,
          List.subset_append_left _ _⟩
      · cases h
        exact ⟨rfl, rfl, List.Sublist.refl _, fun _ hi => .inl hi, fun _ hi => hi, fun _ hi => hi⟩
  | chore c =>
      refine Prog.withFault_rel (R := Drift) (Drift.refl w) ?_ h
      exact ⟨rfl, rfl, List.Sublist.refl _, fun _ hi => .inl hi, fun _ hi => hi, fun _ hi => hi⟩
  | enterLoop =>
      cases h
      exact ⟨rfl, rfl, List.Sublist.refl _, fun _ hi => .inl hi, fun _ hi => hi, fun _ hi => hi⟩

/-- A program without `XGROUP CREATE`. -/
abbrev Groupless {α : Type} (p : ConsumerProg β α) : Prop := p.Only (· ≠ .ensureGroup)

theorem handlePage_groupless (hone : ∀ id b, Groupless (one id b)) (page : List (Nat × β)) :
    Groupless (handlePage one page) := by
  induction page with
  | nil => trivial
  | cons y rest ih =>
      refine Prog.Only.bind (Prog.only_call.mpr (by simp)) fun _ => ?_
      exact (hone y.1 y.2).bind fun _ => ih

theorem claimPages_groupless (hone : ∀ id b, Groupless (one id b)) (n start : Nat) :
    Groupless (claimPages one n start) := by
  induction n generalizing start with
  | zero => trivial
  | succ n ih =>
      refine Prog.Only.bind (Prog.only_call.mpr (by simp)) fun page => ?_
      refine (handlePage_groupless hone page.2).bind fun _ => ?_
      show Groupless (if page.2 = [] ∨ page.1 = 0 then .ret () else claimPages one n page.1)
      split
      · trivial
      · exact ih page.1

/-- `drain_once` with a claim: the claimed pages, then one read. -/
theorem drainOnce_true (one : Nat → β → ConsumerProg β Unit) :
    drainOnce one true = (claimPending one).bind fun _ =>
      Prog.bind (ConsumerOp.call .xreadgroup) fun page : List (Nat × β) => handlePage one page :=
  rfl

theorem drain_groupless (hone : ∀ id b, Groupless (one id b)) :
    Groupless (guarded (drainOnce one true)) := by
  refine Prog.Only.tryCatch ?_ fun _ => trivial
  rw [drainOnce_true]
  refine (claimPages_groupless hone 1000 0).bind fun _ => ?_
  exact Prog.Only.bind (Prog.only_call.mpr (by simp)) fun page => handlePage_groupless hone page

theorem event_groupless (id : Nat) (b : Option AgentEvent) :
    Groupless (EventConsumer.applyOne id b) := by
  cases b with
  | none => exact Prog.only_call.mpr (by simp)
  | some ev =>
      refine Prog.Only.bind (Prog.only_call.mpr (by simp)) fun _ => ?_
      exact Prog.only_call.mpr (by simp)

theorem log_groupless (id : Nat) (b : Option AgentLogEvent) :
    Groupless (LogConsumer.applyOne id b) := by
  cases b with
  | none => trivial
  | some ev =>
      refine Prog.Only.bind (Prog.only_call.mpr (by simp)) fun _ => ?_
      exact Prog.only_call.mpr (by simp)

/-- Rounds without `XGROUP CREATE` only let the stream drift. -/
theorem rounds_drift {p : ConsumerProg β Unit} (hp : Groupless p) (w : Inbox β σ)
    (dts : List Nat) : Drift w (rounds cfg A p x w dts) := by
  induction dts generalizing w with
  | nil => exact Drift.refl w
  | cons dt dts ih =>
      have hmoved : Drift w (w.move (.tick dt)) :=
        ⟨rfl, rfl, List.Sublist.refl _, fun _ hi => .inl hi, fun _ hi => hi, fun _ hi => hi⟩
      have hround : Drift w (round cfg A p x w dt) := by
        simp only [round]
        split
        · rename_i r w' hexec
          refine hmoved.trans (Prog.exec_rel Drift.refl Drift.trans hp ?_ hexec)
          exact fun op w r w' hop h => perform_drift hop h
        · exact hmoved
      exact hround.trans (ih _)

/-! ### One read -/

/-- What reading and treating the next page leads to. -/
def ReadRun (cfg : ConsumerConfig) (verdict : Nat → β → Verdict) (w : Inbox β σ)
    (r : Except ConsumerError Unit) (w' : Inbox β σ) : Prop :=
  ∃ stream : RedisStream β, stream.entries = w.stream.entries ∧ stream.group.isSome ∧
    stream.news = w.stream.news.drop cfg.batch ∧
    stream.pending
      = w.stream.pending ++ (w.stream.nextPage cfg.batch).map (fun y => (y.1, w.now)) ∧
    PageRun verdict (w.stream.nextPage cfg.batch) { w with stream := stream } r w'

theorem read_run (htreats : Treats cfg A x one verdict) {w : Inbox β σ}
    (hgroup : w.stream.group.isSome) :
    Steady cfg A x (Prog.bind (ConsumerOp.call .xreadgroup) fun page : List (Nat × β) =>
      handlePage one page) (ReadRun cfg verdict w) w := by
  refine Prog.safe_bind.mpr (Prog.safe_call.mpr ?_)
  rintro _ rfl _ r w₁ rfl hp
  refine ⟨trivial, ?_⟩
  simp only [ConsumerOp.perform] at hp
  split at hp
  · rename_i hnone
    rw [Option.map_eq_none_iff.mp hnone] at hgroup
    cases hgroup
  · rename_i page stream hread
    cases hp
    obtain ⟨hentries, hsome, hnews⟩ := RedisStream.xreadgroup_news hread
    obtain ⟨rfl, hpending⟩ := RedisStream.xreadgroup_page hread
    refine (handlePage_run htreats _ _).mono fun r w' hr => ?_
    exact ⟨stream, hentries, hsome, hnews, hpending, hr⟩

end Drains

end Dopilot
