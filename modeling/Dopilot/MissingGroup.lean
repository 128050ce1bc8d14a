/-
Dopilot/MissingGroup.lean

What the consumers make of a missing group, and of a start-up that failed.

The group is created once, at start-up, and an error there is swallowed; the
loops only ever read.  `Sound` is what holds of a stream and the entries handed
to the handler over every history of outages, errors, deletions and restarts.
From it and a ranking of the rounds: once nothing fails any more, a consumer of
the server gets every entry to its handler if and only if the group is there,
and the agent's consumer if and only if, besides, nothing it never looked at is
pending, and its last start-up recovered what was left behind
(`recovers_iff`).  A failing `XGROUP CREATE` at start-up is enough for none of
the three to recover (`not_recovers_after_setup_error`).
-/
import Dopilot.CommandLoop
import Dopilot.Drains

namespace Dopilot

open StateMachine Drains

namespace MissingGroup

variable {β σ χ : Type} {cfg : ConsumerConfig} {A : AppModel β σ χ} {x : χ}
variable {one : Nat → β → ConsumerProg β Unit}

/-! ### What holds over every history -/

/-- With a group, every entry was handed to the handler, is pending or new;
nothing was handed out in the future or beyond the end of the stream. -/
structure Sound (w : Inbox β σ) : Prop where
  seen : w.stream.group.isSome → ∀ z ∈ w.stream.entries,
    z.1 ∈ w.handed ∨ z.1 ∈ w.stream.pending.map Prod.fst ∨ z ∈ w.stream.news
  times : ∀ p ∈ w.stream.pending, p.2 ≤ w.now
  bound : w.stream.lastDelivered ≤ w.stream.lastId

theorem Sound.move {w : Inbox β σ} (h : Sound w) (m : InboxMove β) : Sound (w.move m) := by
  cases m with
  | xadd b =>
      refine ⟨fun hgroup z hz => ?_, h.times, Nat.le_succ_of_le h.bound⟩
      rcases List.mem_append.mp hz with hold | hnew
      · refine (h.seen hgroup z hold).imp_right fun hrest => hrest.imp_right fun hnews => ?_
        obtain ⟨-, -, hlt⟩ := RedisStream.mem_news_iff.mp hnews
        exact RedisStream.mem_news_iff.mpr ⟨hgroup, hz, hlt⟩
      · refine .inr (.inr (RedisStream.mem_news_iff.mpr ⟨hgroup, hz, ?_⟩))
        obtain rfl := List.mem_singleton.mp hnew
        exact Nat.lt_succ_of_le h.bound
  | trim n =>
      refine ⟨fun hgroup z hz => ?_, h.times, h.bound⟩
      have hz' : z ∈ w.stream.entries := List.mem_of_mem_drop hz
      refine (h.seen hgroup z hz').imp_right fun hrest => hrest.imp_right fun hnews => ?_
      obtain ⟨-, -, hlt⟩ := RedisStream.mem_news_iff.mp hnews
      exact RedisStream.mem_news_iff.mpr ⟨hgroup, hz, hlt⟩
  | delete =>
      refine ⟨fun hgroup => ?_, fun p hp => ?_, Nat.zero_le _⟩
      · cases hgroup
      · cases hp
  | tick dt =>
      refine ⟨h.seen, fun p hp => ?_, h.bound⟩
      have hle := h.times p hp
      show p.2 ≤ w.now + dt
      omega

/-- An operation that does not acknowledge what was not handed keeps the books. -/
theorem perform_sound (op : ConsumerOp β) {a : ConsumerAnswer χ} {w w' : Inbox β σ}
    {r : Except ConsumerError op.Res} (hop : ∀ i, op = .xack i → i ∈ w.handed) (h : Sound w)
    (hp : op.perform cfg A a w = some (r, w')) : Sound w' := by
  have hfault : ∀ {α : Type} {r : α} {r' : Except ConsumerError α} {w₁ : Inbox β σ}
      {e : ConsumerError}, Sound w₁ → Prog.withFault a.fault e w r w₁ = some (r', w') →
      Sound w' := fun hmove h' =>
    Prog.withFault_rel (R := fun _ w' : Inbox β σ => Sound w') h hmove h'
  cases op with
  | ensureGroup =>
      refine hfault ?_ hp
      rcases hg : w.stream.group with - | g
      · -- a new group starts at the beginning
        have hfresh : w.stream.ensureGroup.group = some .fresh := by
          simp [RedisStream.ensureGroup, hg]
        refine ⟨fun _ z hz => .inr (.inr ?_), ?_, ?_⟩
        · rw [RedisStream.news_fresh hfresh]
          exact hz
        · show ∀ p ∈ w.stream.ensureGroup.pending, p.2 ≤ w.now
          rw [RedisStream.pending_ensureGroup]
          exact h.times
        · show w.stream.ensureGroup.lastDelivered ≤ w.stream.lastId
          rw [RedisStream.lastDelivered, hfresh]
          exact Nat.zero_le _
      · have hsame : w.stream.ensureGroup = w.stream := by
          rw [RedisStream.ensureGroup, hg, Option.getD_some, ← hg]
        rw [hsame]
        exact h
  | xautoclaim start =>
      simp only [ConsumerOp.perform] at hp
      split at hp
      · cases hp
        exact h
      · rename_i page stream hclaim
        refine hfault ?_ hp
        obtain ⟨hentries, hgroup, hnews⟩ := RedisStream.xautoclaim_news hclaim
        obtain ⟨hlast, hid, htimes⟩ := RedisStream.xautoclaim_frame hclaim
        refine ⟨fun hsome z hz => ?_, fun p hp' => ?_, ?_⟩
        · have hz' : z ∈ w.stream.entries := hentries ▸ hz
          refine (h.seen (hgroup ▸ hsome) z hz').imp_right ?_
          rintro (hpending | hnew)
          · obtain ⟨p, hp', hpz⟩ := List.mem_map.mp hpending
            rcases RedisStream.xautoclaim_covers hclaim p hp' with hkept | hgone
            · exact .inl (hpz ▸ hkept)
            · rw [hpz, RedisStream.lookup_of_mem hz'] at hgone
              cases hgone
          · exact .inr (hnews ▸ hnew)
        · rcases htimes p hp' with hold | hnow
          · exact h.times p hold
          · exact Int.le_of_eq hnow
        · show stream.lastDelivered ≤ stream.lastId
          rw [hlast, hid]
          exact h.bound
  | xreadgroup =>
      simp only [ConsumerOp.perform] at hp
      split at hp
      · cases hp
        exact h
      · rename_i page stream hread
        refine hfault ?_ hp
        obtain ⟨hentries, -, hnews⟩ := RedisStream.xreadgroup_news hread
        obtain ⟨hpage, hpending⟩ := RedisStream.xreadgroup_page hread
        obtain ⟨-, hbound⟩ := RedisStream.xreadgroup_frame hread
        have hsome : w.stream.group.isSome := by
          obtain ⟨g, hg, -⟩ := Option.map_eq_some_iff.mp hread
          rw [hg]
          rfl
        refine ⟨fun _ z hz => ?_, fun p hp' => ?_, hbound h.bound⟩
        · show z.1 ∈ w.handed ∨ z.1 ∈ stream.pending.map Prod.fst ∨ z ∈ stream.news
          rw [hpending, hnews, List.map_append, List.mem_append]
          rcases h.seen hsome z (hentries ▸ hz) with hhanded | hold | hnew
          · exact .inl hhanded
          · exact .inr (.inl (.inl hold))
          · rw [← List.take_append_drop cfg.batch w.stream.news] at hnew
            rcases List.mem_append.mp hnew with htake | hdrop
            · refine .inr (.inl (.inr (List.mem_map.mpr ⟨(z.1, w.now), ?_, rfl⟩)))
              exact List.mem_map.mpr ⟨z, hpage ▸ htake, rfl⟩
            · exact .inr (.inr hdrop)
        · have hp'' : p ∈ w.stream.pending ++ page.map fun y => (y.1, w.now) := hpending ▸ hp'
          rcases List.mem_append.mp hp'' with hold | hnew
          · exact h.times p hold
          · obtain ⟨y, -, rfl⟩ := List.mem_map.mp hnew
            exact Int.le_refl _
  | xack i =>
      refine hfault ?_ hp
      refine ⟨fun hsome z hz => ?_, fun p hp' => ?_, ?_⟩
      · rw [RedisStream.xack_group_isSome] at hsome
        show z.1 ∈ w.handed ∨ z.1 ∈ (w.stream.xack i).pending.map Prod.fst ∨
          z ∈ (w.stream.xack i).news
        rw [RedisStream.xack_news, RedisStream.pending_xack]
        rcases h.seen hsome z hz with hhanded | hpending | hnew
        · exact .inl hhanded
        · by_cases hi : z.1 = i
          · exact .inl (hi ▸ hop i rfl)
          · obtain ⟨p, hp', hpz⟩ := List.mem_map.mp hpending
            refine .inr (.inl (List.mem_map.mpr ⟨p, List.mem_filter.mpr ⟨hp', ?_⟩, hpz⟩))
            simpa [hpz] using hi
        · exact .inr (.inr hnew)
      · rw [RedisStream.pending_xack] at hp'
        exact h.times p (List.mem_filter.mp hp').1
      · have hlast : (w.stream.xack i).lastDelivered = w.stream.lastDelivered := by
          rcases hg : w.stream.group with - | g
          · simp [RedisStream.lastDelivered, RedisStream.xack, hg]
          · simp [RedisStream.lastDelivered, RedisStream.xack, hg, RedisGroup.ack]
        show (w.stream.xack i).lastDelivered ≤ w.stream.lastId
        rw [hlast]
        exact h.bound
  | hand i =>
      cases hp
      exact ⟨fun hsome z hz => (h.seen hsome z hz).imp_left (List.mem_append_left _), h.times,
        h.bound⟩
  | handle i b =>
      simp only [ConsumerOp.perform] at hp
      split at hp
      · cases hp
        exact ⟨h.seen, h.times, h.bound⟩
      · cases hp
        exact ⟨h.seen, h.times, h.bound⟩
  | chore c =>
      refine hfault ?_ hp
      exact ⟨h.seen, h.times, h.bound⟩
  | enterLoop =>
      cases hp
      exact ⟨h.seen, h.times, h.bound⟩

theorem perform_handed {op : ConsumerOp β} {a : ConsumerAnswer χ} {w w' : Inbox β σ}
    {r : Except ConsumerError op.Res} (hp : op.perform cfg A a w = some (r, w')) :
    w.handed ⊆ w'.handed := by
  by_cases hop : op = .ensureGroup
  · subst hop
    refine Prog.withFault_rel (R := fun w w' : Inbox β σ => w.handed ⊆ w'.handed) ?_ ?_ hp
    · exact fun _ hi => hi
    · exact fun _ hi => hi
  · exact (perform_drift hop hp).handed

/-! ### The contract of a consumer -/

abbrev contract : Prog.Contract (ConsumerOp β) (fun _ => ConsumerAnswer χ) (Inbox β σ) :=
  Sys.contract
    (Sys.Cond.always : Sys.Cond Unit (ConsumerOp β) (fun _ => ConsumerAnswer χ) (Inbox β σ)
      (InboxMove β) Unit)
    Sound (fun w w' => w.handed ⊆ w'.handed) (fun _ w' => Sound w') fun h h' _ hi => h' (h hi)

/-- A part of a consumer that keeps the books and forgets no entry it handed on. -/
abbrev Keeps (cfg : ConsumerConfig) (A : AppModel β σ χ) {α : Type} (p : ConsumerProg β α)
    (w : Inbox β σ) : Prop :=
  p.Safe { perform := ConsumerOp.perform cfg A } contract (fun _ w' => w.handed ⊆ w'.handed) w

theorem keeps_call {op : ConsumerOp β} {w : Inbox β σ} (hop : ∀ i, op = .xack i → i ∈ w.handed) :
    Keeps cfg A (ConsumerOp.call op) w := by
  refine Prog.safe_call.mpr fun w₁ hrely a r w₂ hok hp => ?_
  refine ⟨perform_sound op (fun i hi => hrely (hop i hi)) hok.2 hp, fun i hi => ?_⟩
  exact perform_handed hp (hrely hi)

theorem keeps_bind {α γ : Type} {p : ConsumerProg β α} {f : α → ConsumerProg β γ} {w : Inbox β σ}
    (hp : Keeps cfg A p w) (hf : ∀ a w', w.handed ⊆ w'.handed → Keeps cfg A (f a) w') :
    Keeps cfg A (p.bind f) w := by
  refine Prog.safe_bind.mpr (hp.mono fun r w' hw' => ?_)
  cases r with
  | ok a => exact (hf a w' hw').mono fun _ _ h _ hi => h (hw' hi)
  | error e => exact hw'

theorem keeps_catch {α : Type} {p : ConsumerProg β α} {h : ConsumerError → ConsumerProg β α}
    {w : Inbox β σ} (hp : Keeps cfg A p w)
    (hh : ∀ e w', w.handed ⊆ w'.handed → Keeps cfg A (h e) w') :
    Keeps cfg A (p.tryCatch h) w := by
  refine Prog.safe_tryCatch.mpr (hp.mono fun r w' hw' => ?_)
  cases r with
  | ok a => exact hw'
  | error e => exact (hh e w' hw').mono fun _ _ h _ hi => h (hw' hi)

theorem keeps_return {w : Inbox β σ} : Keeps cfg A (.ret () : ConsumerProg β Unit) w :=
  fun _ hi => hi

theorem keeps_guarded {p : ConsumerProg β Unit} {w : Inbox β σ} (hp : Keeps cfg A p w) :
    Keeps cfg A (guarded p) w := keeps_catch hp fun _ _ _ => keeps_return

/-- `one` acknowledges nothing but the entry it was given. -/
abbrev Honest (cfg : ConsumerConfig) (A : AppModel β σ χ) (one : Nat → β → ConsumerProg β Unit) :
    Prop := ∀ id b (w : Inbox β σ), id ∈ w.handed → Keeps cfg A (one id b) w

theorem handlePage_keeps (hone : Honest cfg A one) (page : List (Nat × β)) (w : Inbox β σ) :
    Keeps cfg A (handlePage one page) w := by
  induction page generalizing w with
  | nil => exact keeps_return
  | cons y rest ih =>
      refine Prog.safe_bind.mpr (Prog.safe_call.mpr fun w₁ hrely a r w₂ hok hp => ?_)
      have hp' : (ConsumerOp.hand y.1).perform cfg A a w₁ = some (r, w₂) := hp
      refine ⟨perform_sound _ (by simp) hok.2 hp', ?_⟩
      have hkept : w.handed ⊆ w₂.handed := fun i hi => perform_handed hp' (hrely hi)
      have hy : y.1 ∈ w₂.handed := by
        cases hp
        simp
      cases r with
      | error e => exact hkept
      | ok _ =>
          refine (keeps_bind (hone y.1 y.2 w₂ hy) fun _ w₃ _ => ih w₃).mono ?_
          exact fun _ _ h _ hi => h (hkept hi)

theorem claimPages_keeps (hone : Honest cfg A one) (n start : Nat) (w : Inbox β σ) :
    Keeps cfg A (claimPages one n start) w := by
  induction n generalizing start w with
  | zero => exact keeps_return
  | succ n ih =>
      refine keeps_bind (keeps_call (by simp)) fun page w₁ _ => ?_
      refine keeps_bind (handlePage_keeps hone _ w₁) fun _ w₂ _ => ?_
      show Keeps cfg A (if page.2 = [] ∨ page.1 = 0 then .ret () else claimPages one n page.1) w₂
      split
      · exact keeps_return
      · exact ih page.1 w₂

theorem drain_keeps (hone : Honest cfg A one) (w : Inbox β σ) :
    Keeps cfg A (guarded (drainOnce one true)) w := by
  refine keeps_guarded ?_
  rw [drainOnce_true]
  refine keeps_bind (claimPages_keeps hone 1000 0 w) fun _ w₁ _ => ?_
  exact keeps_bind (keeps_call (by simp)) fun page w₂ _ => handlePage_keeps hone page w₂

theorem event_honest {A : AppModel (Option AgentEvent) σ χ} :
    Honest cfg A EventConsumer.applyOne := by
  intro id b w hid
  cases b with
  | none => exact keeps_call fun i hi => by cases hi; exact hid
  | some ev =>
      refine keeps_bind (keeps_call (by simp)) fun _ w₁ hw₁ => ?_
      exact keeps_call fun i hi => by cases hi; exact hw₁ hid

theorem log_honest {A : AppModel (Option AgentLogEvent) σ χ} :
    Honest cfg A LogConsumer.applyOne := by
  intro id b w hid
  cases b with
  | none => exact fun _ hi => hi
  | some ev =>
      refine keeps_bind (keeps_call (by simp)) fun _ w₁ hw₁ => ?_
      exact keeps_call fun i hi => by cases hi; exact hw₁ hid

theorem process_honest {A : AppModel (Option AgentCommand) σ χ} :
    Honest cfg A CommandConsumer.process := by
  intro id b w hid
  cases b with
  | none => exact keeps_call fun i hi => by cases hi; exact hid
  | some cmd =>
      refine Prog.safe_tryFinally.mpr ?_
      have hbody : Keeps cfg A
          (Prog.tryCatch (ConsumerOp.call (.handle id (some cmd))) fun _ => .ret ()) w :=
        keeps_catch (keeps_call (by simp)) fun _ _ _ => keeps_return
      refine hbody.mono fun r w₁ hw₁ => ?_
      have hack : Keeps cfg A (ConsumerOp.call (.xack id)) w₁ :=
        keeps_call fun i hi => by cases hi; exact hw₁ hid
      refine hack.mono fun r' w₂ hw₂ => ?_
      cases r' with
      | ok _ => exact fun _ hi => hw₂ (hw₁ hi)
      | error e => exact fun _ hi => hw₂ (hw₁ hi)

theorem agentIterate_keeps {A : AppModel (Option AgentCommand) σ χ}
    (w : Inbox (Option AgentCommand) σ) : Keeps cfg A CommandConsumer.iterate w := by
  refine keeps_guarded ?_
  refine keeps_bind (keeps_call (by simp)) fun _ w₁ _ => ?_
  refine keeps_bind (keeps_call (by simp)) fun _ w₂ _ => ?_
  refine keeps_bind (keeps_call (by simp)) fun page w₃ _ => ?_
  exact handlePage_keeps process_honest page w₃

theorem agentBoot_keeps {A : AppModel (Option AgentCommand) σ χ}
    (w : Inbox (Option AgentCommand) σ) : Keeps cfg A CommandConsumer.boot w := by
  refine keeps_bind (keeps_guarded ?_) fun _ w₁ _ => keeps_call (by simp)
  refine keeps_bind (keeps_call (by simp)) fun _ w₁ _ => ?_
  refine keeps_bind (keeps_call (by simp)) fun _ w₂ _ => ?_
  refine keeps_bind (keeps_call (by simp)) fun _ w₃ _ => ?_
  refine keeps_bind (keeps_call (by simp)) fun _ w₄ _ => ?_
  exact claimPages_keeps process_honest 1000 0 w₄

theorem setup_keeps (w : Inbox β σ) :
    Keeps cfg A (guarded (ConsumerOp.call .ensureGroup) >>= fun _ => ConsumerOp.call .enterLoop)
      w :=
  keeps_bind (keeps_guarded (keeps_call (by simp))) fun _ _ _ => keeps_call (by simp)

/-- A consumer whose parts keep the books is sound over every history. -/
def verified {boot iterate : ConsumerProg β Unit} (crash : σ → σ)
    (hboot : ∀ w, Keeps cfg A boot w) (hiterate : ∀ w, Keeps cfg A iterate w) :
    Sys.Verified (consumerSpec cfg A boot iterate crash) Sys.Cond.always where
  Inv := Sound
  Idle _ _ := True
  rely _ w w' := w.handed ⊆ w'.handed
  guar _ _ w' := Sound w'
  rely_refl _ _ _ hi := hi
  rely_trans _ := fun h h' _ hi => h' (h hi)
  env_step := by
    intro w m w' hinv _ h
    obtain rfl : w.move m = w' := Option.some.inj h
    refine ⟨hinv.move m, fun _ i hi => ?_⟩
    cases m with
    | xadd b | trim n | delete | tick dt => exact hi
  launch_safe := by
    intro w _ _ p _ _ _ h
    obtain rfl : (if w.looping then iterate else boot) = p := Option.some.inj h
    have hkeeps : Keeps cfg A (if w.looping then iterate else boot) w := by
      split
      · exact hiterate w
      · exact hboot w
    exact hkeeps.mono fun _ _ _ => trivial
  guar_step _ _ _ _ h := ⟨h, fun j hj => absurd (Subsingleton.elim j _) hj⟩
  idle_stable _ _ _ _ _ := trivial
  crash_step w h _ := ⟨⟨h.seen, h.times, h.bound⟩, fun _ => trivial⟩

/-- Before anything has happened. -/
structure Start (s : Sys Unit (ConsumerOp β) ConsumerOp.Res ConsumerError (Inbox β σ)) : Prop where
  idle : s.procs () = none
  looping : s.world.looping = false
  stream : s.world.stream = RedisStream.empty

/-- Between two rounds. -/
structure LoopHead (s : Sys Unit (ConsumerOp β) ConsumerOp.Res ConsumerError (Inbox β σ)) :
    Prop where
  idle : s.procs () = none
  looping : s.world.looping = true

theorem sound_of_run {boot iterate : ConsumerProg β Unit} {crash : σ → σ}
    (hboot : ∀ w, Keeps cfg A boot w) (hiterate : ∀ w, Keeps cfg A iterate w)
    {s s' : Sys Unit (ConsumerOp β) ConsumerOp.Res ConsumerError (Inbox β σ)} (hs : Start s)
    (hrun : Run (Sys.step (consumerSpec cfg A boot iterate crash)) s s') : Sound s'.world := by
  have hgood : (verified crash hboot hiterate).Good s := by
    refine ⟨⟨fun hgroup => ?_, fun p hp => ?_, ?_⟩, fun i => ?_⟩
    · rw [hs.stream] at hgroup
      cases hgroup
    · rw [hs.stream] at hp
      cases hp
    · rw [hs.stream]
      exact Nat.le_refl _
    · rw [show s.procs i = none from hs.idle]
      trivial
  have hrun' : RunOk (Sys.step (consumerSpec cfg A boot iterate crash)) Sys.Cond.always.Holds
      s s' := hrun.mono fun s a _ => Sys.Cond.always_holds s a
  exact ((verified crash hboot hiterate).run hrun' hgood).1

/-! ### Pages while nothing fails -/

/-- `one` returns and acknowledges every entry of a kind, as long as no operation
fails. -/
def Passes (cfg : ConsumerConfig) (A : AppModel β σ χ) (x : χ)
    (one : Nat → β → ConsumerProg β Unit) (fine : β → Prop) : Prop :=
  ∀ id b (w : Inbox β σ), fine b → ∃ app processed,
    (one id b).exec { perform := ConsumerOp.perform cfg A } (noFaults x) w
      = some (.ok (), { w with stream := w.stream.xack id, app := app, processed := processed })

theorem event_passes {A : AppModel (Option AgentEvent) σ χ}
    (hA : ∀ id ev app, (A.handle x id (some ev) app).1 = true) :
    Passes cfg A x EventConsumer.applyOne fun _ => True := by
  intro id b w _
  cases b with
  | none => exact ⟨w.app, w.processed, rfl⟩
  | some ev =>
      have hgood : (A.handle x id (some ev) w.app).1 = !false := hA id ev w.app
      obtain ⟨app, hexec⟩ := treats_handled cfg hgood
      exact ⟨app, _, hexec⟩

theorem log_passes {A : AppModel (Option AgentLogEvent) σ χ}
    (hA : ∀ id ev app, (A.handle x id (some ev) app).1 = true) :
    Passes cfg A x LogConsumer.applyOne fun b => b.isSome := by
  intro id b w hb
  cases b with
  | none => cases hb
  | some ev =>
      have hgood : (A.handle x id (some ev) w.app).1 = !false := hA id ev w.app
      obtain ⟨app, hexec⟩ := treats_handled cfg hgood
      exact ⟨app, _, hexec⟩

theorem process_passes {A : AppModel (Option AgentCommand) σ χ} :
    Passes cfg A x CommandConsumer.process fun _ => True := by
  intro id b w _
  cases b with
  | none => exact ⟨w.app, w.processed, rfl⟩
  | some cmd =>
      rcases hrun : A.handle x id (some cmd) w.app with ⟨ok, app⟩
      cases ok with
      | true =>
          refine ⟨app, w.processed ++ [id], ?_⟩
          show ((ConsumerOp.handle id (some cmd)).perform cfg A
            (noFaults x (.handle id (some cmd))) w).bind _ = _
          simp only [ConsumerOp.perform, noFaults, hrun, Option.bind_some]
          rfl
      | false =>
          refine ⟨app, w.processed, ?_⟩
          show ((ConsumerOp.handle id (some cmd)).perform cfg A
            (noFaults x (.handle id (some cmd))) w).bind _ = _
          simp only [ConsumerOp.perform, noFaults, hrun, Option.bind_some]
          rfl

/-- What a page leads to that passes. -/
structure PagePassed (page : List (Nat × β)) (w : Inbox β σ) (r : Except ConsumerError Unit)
    (w' : Inbox β σ) : Prop where
  ok : r = .ok ()
  stream : w'.stream = w.stream.ackAll (page.map Prod.fst)
  now : w'.now = w.now
  kept : w.handed ⊆ w'.handed
  handed : ∀ y ∈ page, y.1 ∈ w'.handed

variable {fine : β → Prop}

theorem handlePage_pass (hone : Passes cfg A x one fine) (page : List (Nat × β))
    (hfine : ∀ y ∈ page, fine y.2) (w : Inbox β σ) :
    Steady cfg A x (handlePage one page) (PagePassed page w) w := by
  induction page generalizing w with
  | nil => exact ⟨rfl, rfl, rfl, fun _ hi => hi, by simp⟩
  | cons y rest ih =>
      refine Prog.safe_bind.mpr (Prog.safe_call.mpr ?_)
      rintro _ rfl _ r w₁ rfl hp
      cases hp
      refine ⟨trivial, Prog.safe_bind.mpr ?_⟩
      obtain ⟨app, processed, hexec⟩ := hone y.1 y.2
        { w with handed := w.handed ++ [y.1], mine := w.mine ++ [y.1] }
        (hfine y (List.mem_cons_self ..))
      refine steady_of_exec hexec ?_
      refine (ih (fun z hz => hfine z (List.mem_cons_of_mem _ hz)) _).mono fun r w₂ hr => ?_
      refine ⟨hr.ok, hr.stream, hr.now, fun i hi => ?_, fun z hz => ?_⟩
      · exact hr.kept (List.mem_append_left _ hi)
      · rcases List.mem_cons.mp hz with rfl | hz'
        · exact hr.kept (List.mem_append_right _ (List.mem_singleton.mpr rfl))
        · exact hr.handed z hz'

/-- What claimed pages lead to that pass: pending entries only go, and only into
the hands of the handler. -/
structure Claimed (w w' : Inbox β σ) : Prop where
  group : w'.stream.group.isSome = w.stream.group.isSome
  entries : w'.stream.entries = w.stream.entries
  news : w'.stream.news = w.stream.news
  pending : w'.stream.pending.Sublist w.stream.pending
  now : w'.now = w.now
  kept : w.handed ⊆ w'.handed
  covers : ∀ z ∈ w.stream.entries, z.1 ∈ w.stream.pending.map Prod.fst →
    z.1 ∈ w'.handed ∨ z.1 ∈ w'.stream.pending.map Prod.fst

theorem Claimed.refl (w : Inbox β σ) : Claimed w w :=
  ⟨rfl, rfl, rfl, List.Sublist.refl _, rfl, fun _ hi => hi, fun _ _ h => .inr h⟩

theorem Claimed.trans {w₁ w₂ w₃ : Inbox β σ} (h : Claimed w₁ w₂) (h' : Claimed w₂ w₃) :
    Claimed w₁ w₃ where
  group := h'.group.trans h.group
  entries := h'.entries.trans h.entries
  news := h'.news.trans h.news
  pending := h'.pending.trans h.pending
  now := h'.now.trans h.now
  kept _ hi := h'.kept (h.kept hi)
  covers z hz hmem := by
    rcases h.covers z hz hmem with hhanded | hpending
    · exact .inl (h'.kept hhanded)
    · exact h'.covers z (h.entries ▸ hz) hpending

theorem claimed_page {w w' : Inbox β σ} {start : Nat} {page : Nat × List (Nat × β)}
    {stream : RedisStream β} {r : Except ConsumerError Unit}
    (hclaim : w.stream.xautoclaim w.now cfg.pendingIdleMs start cfg.batch = some (page, stream))
    (hpage : PagePassed page.2 { w with stream := stream } r w') : Claimed w w' := by
  obtain ⟨hentries, hgroup, hnews⟩ := RedisStream.xautoclaim_news hclaim
  obtain ⟨hackEntries, hackGroup, hackNews, hackPending⟩ :=
    RedisStream.ackAll_frame stream (page.2.map Prod.fst)
  have hstream : w'.stream = stream.ackAll (page.2.map Prod.fst) := hpage.stream
  refine ⟨?_, ?_, ?_, ?_, hpage.now, hpage.kept, fun z hz hmem => ?_⟩
  · rw [hstream, hackGroup, hgroup]
  · rw [hstream, hackEntries, hentries]
  · rw [hstream, hackNews, hnews]
  · rw [hstream]
    exact RedisStream.xautoclaim_acked hclaim
  · obtain ⟨p, hp, hpz⟩ := List.mem_map.mp hmem
    rcases RedisStream.xautoclaim_covers hclaim p hp with hkept | hgone
    · by_cases hin : z.1 ∈ page.2.map Prod.fst
      · obtain ⟨y, hy, hyz⟩ := List.mem_map.mp hin
        exact .inl (hyz ▸ hpage.handed y hy)
      · right
        obtain ⟨q, hq, hqp⟩ := List.mem_map.mp hkept
        have hqz : q.1 = z.1 := hqp.trans hpz
        rw [hstream, hackPending]
        refine List.mem_map.mpr ⟨q, List.mem_filter.mpr ⟨hq, ?_⟩, hqz⟩
        rw [hqz]
        exact decide_eq_true hin
    · rw [hpz, RedisStream.lookup_of_mem hz] at hgone
      cases hgone

/-- The claims of a round: from the start of the list, they get on as soon as its
head is idle. -/
theorem claimPages_pass (hone : Passes cfg A x one fine) (n start : Nat) (w : Inbox β σ)
    (hgroup : w.stream.group.isSome) (hfine : ∀ z ∈ w.stream.entries, fine z.2) :
    Steady cfg A x (claimPages one n start) (fun r w' => r = .ok () ∧ Claimed w w' ∧
      (0 < n → start = 0 → ∀ p rest, w.stream.pending = p :: rest →
        cfg.pendingIdleMs ≤ w.now - p.2 →
        w'.stream.pending.length < w.stream.pending.length)) w := by
  induction n generalizing start w with
  | zero => exact ⟨rfl, Claimed.refl w, fun h => absurd h (Nat.lt_irrefl 0)⟩
  | succ n ih =>
      refine Prog.safe_bind.mpr (Prog.safe_call.mpr ?_)
      rintro _ rfl _ r w₁ rfl hp
      refine ⟨trivial, ?_⟩
      simp only [ConsumerOp.perform] at hp
      split at hp
      · rename_i hnone
        rw [Option.map_eq_none_iff.mp hnone] at hgroup
        cases hgroup
      · rename_i page stream hclaim
        cases hp
        have hpageFine : ∀ y ∈ page.2, fine y.2 := fun y hy =>
          hfine y (RedisStream.mem_entries_of_xautoclaim hclaim y hy)
        refine Prog.safe_bind.mpr ((handlePage_pass hone page.2 hpageFine _).mono ?_)
        intro r w₂ hpage
        have hclaimed := claimed_page hclaim hpage
        have hmoves : start = 0 → ∀ p rest, w.stream.pending = p :: rest →
            cfg.pendingIdleMs ≤ w.now - p.2 →
            w₂.stream.pending.length < w.stream.pending.length := by
          rintro rfl p rest hpending hidle
          rw [show w₂.stream = stream.ackAll (page.2.map Prod.fst) from hpage.stream]
          exact RedisStream.xautoclaim_moves hclaim hpending hidle cfg.batch_pos
        obtain rfl := hpage.ok
        show Steady cfg A x (if page.2 = [] ∨ page.1 = 0 then .ret ()
          else claimPages one n page.1) _ w₂
        split
        · exact ⟨rfl, hclaimed, fun _ => hmoves⟩
        · have hrest := ih page.1 w₂ (hclaimed.group ▸ hgroup) (hclaimed.entries ▸ hfine)
          refine hrest.mono fun r w₃ hr => ⟨hr.1, hclaimed.trans hr.2.1, ?_⟩
          intro _ hstart p rest hpending hidle
          exact Nat.lt_of_le_of_lt hr.2.1.pending.length_le (hmoves hstart p rest hpending hidle)

/-- What one read leads to that passes. -/
structure Read (cfg : ConsumerConfig) (w w' : Inbox β σ) : Prop where
  group : w'.stream.group.isSome
  entries : w'.stream.entries = w.stream.entries
  news : w'.stream.news = w.stream.news.drop cfg.batch
  pending : w'.stream.pending = w.stream.pending
  now : w'.now = w.now
  kept : w.handed ⊆ w'.handed
  covers : ∀ z ∈ w.stream.news, z.1 ∈ w'.handed ∨ z ∈ w'.stream.news

theorem read_pass (hone : Passes cfg A x one fine) (w : Inbox β σ)
    (hgroup : w.stream.group.isSome) (hfine : ∀ z ∈ w.stream.entries, fine z.2) :
    Steady cfg A x (Prog.bind (ConsumerOp.call .xreadgroup) fun page : List (Nat × β) =>
      handlePage one page) (fun _ => Read cfg w) w := by
  refine Prog.safe_bind.mpr (Prog.safe_call.mpr ?_)
  rintro _ rfl _ r w₁ rfl hp
  refine ⟨trivial, ?_⟩
  simp only [ConsumerOp.perform] at hp
  split at hp
  · rename_i hnone
    rw [Option.map_eq_none_iff.mp hnone] at hgroup
    cases hgroup
  · rename_i page stream hread
    cases hp
    obtain ⟨hentries, hsome, hnews⟩ := RedisStream.xreadgroup_news hread
    obtain ⟨rfl, hpending⟩ := RedisStream.xreadgroup_page hread
    have hpageFine : ∀ y ∈ w.stream.nextPage cfg.batch, fine y.2 := fun y hy =>
      hfine y (w.stream.news_sublist.subset (List.mem_of_mem_take hy))
    refine (handlePage_pass hone _ hpageFine _).mono fun r w' hpage => ?_
    obtain ⟨hackEntries, hackGroup, hackNews, hackPending⟩ :=
      RedisStream.ackAll_frame stream ((w.stream.nextPage cfg.batch).map Prod.fst)
    have hstream : w'.stream = stream.ackAll ((w.stream.nextPage cfg.batch).map Prod.fst) :=
      hpage.stream
    refine ⟨?_, ?_, ?_, ?_, hpage.now, hpage.kept, fun z hz => ?_⟩
    · rw [hstream, hackGroup]
      exact hsome
    · rw [hstream, hackEntries, hentries]
    · rw [hstream, hackNews, hnews]
    · -- what was read is acknowledged, and nothing older is
      rw [hstream, hackPending, hpending, List.filter_append]
      rw [List.filter_eq_self.mpr, List.filter_eq_nil_iff.mpr, List.append_nil]
      · intro p hp hin
        obtain ⟨y, hy, rfl⟩ := List.mem_map.mp hp
        exact of_decide_eq_true hin (List.mem_map.mpr ⟨y, hy, rfl⟩)
      · intro p hp
        refine decide_eq_true fun hin => ?_
        obtain ⟨y, hy, hyp⟩ := List.mem_map.mp hin
        have hlt := RedisStream.pending_lt_nextPage hp hy
        omega
    · rw [← List.take_append_drop cfg.batch w.stream.news] at hz
      rcases List.mem_append.mp hz with htake | hdrop
      · exact .inl (hpage.handed z htake)
      · right
        rw [hstream, hackNews, hnews]
        exact hdrop

/-! ### Rounds of the server's consumers -/

/-- With a group, every entry was handed on, is pending or new, and nothing was
handed out after `b`. -/
structure Ready (b : Time) (w : Inbox β σ) : Prop where
  group : w.stream.group.isSome
  seen : ∀ z ∈ w.stream.entries,
    z.1 ∈ w.handed ∨ z.1 ∈ w.stream.pending.map Prod.fst ∨ z ∈ w.stream.news
  times : ∀ p ∈ w.stream.pending, p.2 ≤ b

theorem Sound.ready {w : Inbox β σ} (h : Sound w) (hgroup : w.stream.group.isSome) :
    Ready w.now w := ⟨hgroup, h.seen hgroup, h.times⟩

/-- What is still to be handed on. -/
def load (w : Inbox β σ) : Nat := w.stream.pending.length + w.stream.news.length

/-- How long it takes until everything handed out by `b` is idle. -/
def wait (cfg : ConsumerConfig) (b : Time) (w : Inbox β σ) : Nat :=
  (cfg.pendingIdleMs - (w.now - b)).toNat

/-- A round hands on what it can. -/
structure Progress (cfg : ConsumerConfig) (b : Time) (w w' : Inbox β σ) : Prop where
  ready : Ready b w'
  entries : w'.stream.entries = w.stream.entries
  now : w'.now = w.now
  kept : w.handed ⊆ w'.handed
  le : load w' ≤ load w
  lt : wait cfg b w = 0 → 0 < load w → load w' < load w

theorem drain_progress (hone : Passes cfg A x one fine) {b : Time} {w : Inbox β σ}
    (h : Ready b w) (hfine : ∀ z ∈ w.stream.entries, fine z.2) :
    Steady cfg A x (drainOnce one true) (fun _ => Progress cfg b w) w := by
  rw [drainOnce_true]
  refine Prog.safe_bind.mpr ((claimPages_pass hone 1000 0 w h.group hfine).mono ?_)
  rintro r w₁ ⟨rfl, hclaimed, hmoves⟩
  have hgroup₁ : w₁.stream.group.isSome := hclaimed.group ▸ h.group
  refine (read_pass hone w₁ hgroup₁ (hclaimed.entries ▸ hfine)).mono fun r w' hread => ?_
  have hpending : w'.stream.pending.Sublist w.stream.pending :=
    hread.pending ▸ hclaimed.pending
  have hnews : w'.stream.news = w.stream.news.drop cfg.batch := by
    rw [hread.news, hclaimed.news]
  have hbatch := cfg.batch_pos
  refine ⟨⟨hread.group, fun z hz => ?_, fun p hp => h.times p (hpending.subset hp)⟩,
    hread.entries.trans hclaimed.entries, hread.now.trans hclaimed.now,
    fun _ hi => hread.kept (hclaimed.kept hi), ?_, fun hwait hload => ?_⟩
  · have hz' : z ∈ w.stream.entries := by
      rw [← hclaimed.entries, ← hread.entries]
      exact hz
    rcases h.seen z hz' with hhanded | hpend | hnew
    · exact .inl (hread.kept (hclaimed.kept hhanded))
    · rcases hclaimed.covers z hz' hpend with hhanded | hpend'
      · exact .inl (hread.kept hhanded)
      · exact .inr (.inl (hread.pending.symm ▸ hpend'))
    · have hnew' : z ∈ w₁.stream.news := hclaimed.news.symm ▸ hnew
      exact (hread.covers z hnew').imp_right .inr
  · have hlen := hpending.length_le
    rw [load, load, hnews, List.length_drop]
    omega
  · rw [load, load, hnews, List.length_drop]
    have hlen := hpending.length_le
    rcases hpend : w.stream.pending with - | ⟨p, rest⟩
    · rw [load, hpend, List.length_nil] at hload
      rw [hpend, List.length_nil] at hlen
      omega
    · have htime := h.times p (hpend ▸ List.mem_cons_self ..)
      have hidle : cfg.pendingIdleMs ≤ w.now - p.2 := by
        rw [wait, Int.toNat_eq_zero] at hwait
        omega
      have hlt := hmoves (by omega) rfl p rest hpend hidle
      rw [← hread.pending, hpend] at hlt
      omega

/-- With nothing left, every entry was handed on already. -/
theorem rounds_of_load_zero (hgroupless : ∀ id b, Groupless (one id b)) {b : Time}
    (dts : List Nat) {w : Inbox β σ} (h : Ready b w) (hload : load w = 0) :
    ∀ z ∈ w.stream.entries,
      z.1 ∈ (rounds cfg A (guarded (drainOnce one true)) x w dts).handed := by
  rw [load, Nat.add_eq_zero_iff, List.length_eq_zero_iff, List.length_eq_zero_iff] at hload
  obtain ⟨hpending, hnews⟩ := hload
  intro z hz
  apply (rounds_drift (drain_groupless hgroupless) w dts).handed
  rcases h.seen z hz with hhanded | hpend | hnew
  · exact hhanded
  · rw [hpending] at hpend
    cases hpend
  · rw [hnews] at hnew
    cases hnew

/-- Enough rounds hand on everything there is. -/
theorem rounds_clear (hone : Passes cfg A x one fine) (hgroupless : ∀ id b, Groupless (one id b))
    {b : Time} (dts : List Nat) {w : Inbox β σ} (h : Ready b w)
    (hfine : ∀ z ∈ w.stream.entries, fine z.2) (hpos : ∀ dt ∈ dts, 0 < dt)
    (hlen : load w + wait cfg b w ≤ dts.length) :
    ∀ z ∈ w.stream.entries,
      z.1 ∈ (rounds cfg A (guarded (drainOnce one true)) x w dts).handed := by
  induction dts generalizing w with
  | nil =>
      rw [List.length_nil] at hlen
      exact rounds_of_load_zero hgroupless [] h (by omega)
  | cons dt dts ih =>
      by_cases hload : load w = 0
      · exact rounds_of_load_zero hgroupless (dt :: dts) h hload
      · have hdt : 0 < dt := hpos dt (List.mem_cons_self ..)
        have hmoved : Ready b (w.move (.tick dt)) := ⟨h.group, h.seen, h.times⟩
        obtain ⟨-, hround⟩ := round_of_steady (guarded_run (drain_progress hone hmoved hfine))
        have hentries : (round cfg A (guarded (drainOnce one true)) x w dt).stream.entries
            = w.stream.entries := hround.entries
        -- either the clock comes nearer or the load gets lighter
        have hstep : load (round cfg A (guarded (drainOnce one true)) x w dt)
            + wait cfg b (round cfg A (guarded (drainOnce one true)) x w dt) ≤ dts.length := by
          have hnow : (round cfg A (guarded (drainOnce one true)) x w dt).now = w.now + dt :=
            hround.now
          have hle : load (round cfg A (guarded (drainOnce one true)) x w dt) ≤ load w :=
            hround.le
          have hlt : (cfg.pendingIdleMs - (w.now + dt - b)).toNat = 0 → 0 < load w →
              load (round cfg A (guarded (drainOnce one true)) x w dt) < load w := hround.lt
          rw [List.length_cons, wait] at hlen
          rw [wait, hnow]
          by_cases hwait : (cfg.pendingIdleMs - (w.now + dt - b)).toNat = 0
          · have hlighter := hlt hwait (by omega)
            omega
          · omega
        rw [rounds_cons, ← hentries]
        exact ih hround.ready (hentries ▸ hfine)
          (fun d hd => hpos d (List.mem_cons_of_mem _ hd)) hstep

/-! ### Rounds of the agent's consumer -/

/-- A chore changes the rest of the process only. -/
theorem chore_bind {c : Chore} {f : Unit → ConsumerProg β Unit}
    {Q : Except ConsumerError Unit → Inbox β σ → Prop} {w : Inbox β σ}
    (hf : ∀ app, Steady cfg A x (f ()) Q { w with app := app }) :
    Steady cfg A x (Prog.bind (ConsumerOp.call (.chore c)) f) Q w := by
  refine Prog.safe_bind.mpr (Prog.safe_call.mpr ?_)
  rintro _ rfl _ r w₁ rfl hp
  cases hp
  exact ⟨trivial, hf _⟩

/-- One round of the agent's loop hands on the next page, and only that. -/
theorem agentIterate_pass {A : AppModel (Option AgentCommand) σ χ}
    (w : Inbox (Option AgentCommand) σ) (hgroup : w.stream.group.isSome) :
    Steady cfg A x CommandConsumer.iterate (fun _ => Read cfg w) w := by
  refine guarded_run (chore_bind fun _ => chore_bind fun app => ?_)
  have hpasses : Passes cfg A x CommandConsumer.process fun _ => True := process_passes
  have hread := read_pass hpasses { w with app := app } hgroup fun _ _ => trivial
  show Steady cfg A x (Prog.bind (ConsumerOp.call .xreadgroup)
    fun page : List (Nat × Option AgentCommand) => handlePage CommandConsumer.process page) _ _
  refine hread.mono fun r w' h => ?_
  exact
    { group := h.group
      entries := h.entries
      news := h.news
      pending := h.pending
      now := h.now
      kept := h.kept
      covers := h.covers }

/-- The chores of start-up, and the creation of the group, are not the loop's. -/
def LoopOp : ConsumerOp (Option AgentCommand) → Prop
  | .ensureGroup | .chore .recoverReservedOrphans | .chore .recoverWheelOrphans => False
  | _ => True

theorem handlePage_loopOp (page : List (Nat × Option AgentCommand)) :
    (handlePage CommandConsumer.process page).Only LoopOp := by
  induction page with
  | nil => trivial
  | cons y rest ih =>
      refine Prog.Only.bind (Prog.only_call.mpr trivial) fun _ => Prog.Only.bind ?_ fun _ => ih
      rcases y with ⟨id, - | cmd⟩
      · exact Prog.only_call.mpr trivial
      · apply Prog.Only.tryFinally
        · exact Prog.Only.tryCatch (Prog.only_call.mpr trivial) fun _ => trivial
        · exact Prog.only_call.mpr trivial

theorem agentIterate_loopOp : CommandConsumer.iterate.Only LoopOp := by
  refine Prog.Only.tryCatch ?_ fun _ => trivial
  refine Prog.Only.bind (Prog.only_call.mpr trivial) fun _ => ?_
  refine Prog.Only.bind (Prog.only_call.mpr trivial) fun _ => ?_
  exact Prog.Only.bind (Prog.only_call.mpr trivial) fun page => handlePage_loopOp page

theorem agentIterate_groupless : Groupless CommandConsumer.iterate := by
  refine agentIterate_loopOp.mono fun op hop => ?_
  rintro rfl
  exact hop

/-- Enough rounds of the agent's loop hand on everything that is new. -/
theorem agent_rounds_clear {A : AppModel (Option AgentCommand) σ χ} (dts : List Nat)
    {w : Inbox (Option AgentCommand) σ} (hgroup : w.stream.group.isSome)
    (hseen : ∀ z ∈ w.stream.entries, z.1 ∈ w.handed ∨ z ∈ w.stream.news)
    (hlen : w.stream.news.length ≤ dts.length) :
    ∀ z ∈ w.stream.entries, z.1 ∈ (rounds cfg A CommandConsumer.iterate x w dts).handed := by
  induction dts generalizing w with
  | nil =>
      have hnil : w.stream.news = [] := List.length_eq_zero_iff.mp (Nat.le_zero.mp hlen)
      intro z hz
      refine (hseen z hz).resolve_right fun hnew => ?_
      rw [hnil] at hnew
      cases hnew
  | cons dt dts ih =>
      have hmoved : (w.move (.tick dt)).stream.group.isSome := hgroup
      have hiterate : Steady cfg A x CommandConsumer.iterate
        (fun _ => Read cfg (w.move (.tick dt))) (w.move (.tick dt)) := agentIterate_pass _ hmoved
      obtain ⟨-, hround⟩ := round_of_steady hiterate
      have hentries : (round cfg A CommandConsumer.iterate x w dt).stream.entries
          = w.stream.entries := hround.entries
      have hnews : (round cfg A CommandConsumer.iterate x w dt).stream.news
          = w.stream.news.drop cfg.batch := hround.news
      rw [rounds_cons, ← hentries]
      refine ih hround.group (fun z hz => ?_) ?_
      · rcases hseen z (hentries ▸ hz) with hhanded | hnew
        · exact .inl (hround.kept hhanded)
        · exact hround.covers z hnew
      · have hbatch := cfg.batch_pos
        rw [hnews, List.length_drop]
        rw [List.length_cons] at hlen
        omega

/-! ### The agent's recovery -/

/-- The agent's state files, the attempts its last death left behind, and those
the start-up since has given their recovery terminal. -/
structure Recovery where
  store : StateStore
  leftBehind : List ExecutionId
  recovered : List ExecutionId

/-- The attempts a predicate holds of. -/
def attempts (st : StateStore) (p : AttemptState → Bool) : List ExecutionId :=
  st.listExecutionIds.filter fun e => (st.read e).any p

/-- The attempts that `recover_reserved_orphans` finds. -/
def reservedOrphans (st : StateStore) : List ExecutionId := attempts st (·.phase = .reserved)

/-- The attempts that `recover_wheel_orphans` finds: after a restart no wheel
runs in this process. -/
def wheelOrphans (st : StateStore) : List ExecutionId :=
  attempts st fun s => s.runnerType = .pythonWheel ∧ s.phase = .started

/-- Mark each of some attempts. -/
def markAll (st : StateStore) (m : Mark) (es : List ExecutionId) : StateStore :=
  es.foldl (fun st e => st.mark e m) st

/-- The agent around its consumer; the handlers of commands, the outbox and the
reconciliation may do to the state files what they like. -/
def agentModel (handle : χ → Nat → Option AgentCommand → StateStore → Bool × StateStore)
    (reconcile : χ → StateStore → StateStore) :
    AppModel (Option AgentCommand) Recovery χ where
  handle x id b r := ((handle x id b r.store).1, { r with store := (handle x id b r.store).2 })
  chore
    | .replayOutbox, _, r => r
    | .recoverReservedOrphans, _, r =>
        { r with
          store := markAll r.store (.done .failed (some .spawnAborted) (some "spawn_aborted"))
            (reservedOrphans r.store)
          recovered := r.recovered ++ reservedOrphans r.store }
    | .recoverWheelOrphans, _, r =>
        { r with
          store := markAll r.store (.done .lost (some .runnerRecoveredUnknown))
            (wheelOrphans r.store)
          recovered := r.recovered ++ wheelOrphans r.store }
    | .reconcileStartedAttempts, x, r => { r with store := reconcile x r.store }

/-- The process dies: what is reserved or a running wheel is left behind. -/
def Recovery.crash (r : Recovery) : Recovery where
  store := r.store
  leftBehind := reservedOrphans r.store ++ wheelOrphans r.store
  recovered := []

section Agent

variable {handle : χ → Nat → Option AgentCommand → StateStore → Bool × StateStore}
variable {reconcile : χ → StateStore → StateStore}

/-- The operations of the loop recover nothing. -/
theorem perform_recovered {op : ConsumerOp (Option AgentCommand)} {a : ConsumerAnswer χ}
    {w w' : Inbox (Option AgentCommand) Recovery} {r : Except ConsumerError op.Res}
    (hop : LoopOp op) (h : op.perform cfg (agentModel handle reconcile) a w = some (r, w')) :
    w'.app.recovered = w.app.recovered := by
  have hfault : ∀ {α : Type} {r : α} {r' : Except ConsumerError α}
      {w₁ : Inbox (Option AgentCommand) Recovery} {e : ConsumerError},
      w₁.app.recovered = w.app.recovered → Prog.withFault a.fault e w r w₁ = some (r', w') →
      w'.app.recovered = w.app.recovered := fun hmove h' =>
    Prog.withFault_rel (R := fun w w' : Inbox (Option AgentCommand) Recovery =>
      w'.app.recovered = w.app.recovered) rfl hmove h'
  cases op with
  | ensureGroup => exact absurd hop id
  | xautoclaim start =>
      simp only [ConsumerOp.perform] at h
      split at h
      · cases h
        rfl
      · exact hfault (by rfl) h
  | xreadgroup =>
      simp only [ConsumerOp.perform] at h
      split at h
      · cases h
        rfl
      · exact hfault (by rfl) h
  | xack i => exact hfault (by rfl) h
  | hand i =>
      cases h
      rfl
  | handle i b =>
      simp only [ConsumerOp.perform, agentModel] at h
      split at h
      · rename_i heq
        obtain ⟨-, rfl⟩ := Prod.mk.inj heq
        cases h
        rfl
      · rename_i heq
        obtain ⟨-, rfl⟩ := Prod.mk.inj heq
        cases h
        rfl
  | chore c =>
      cases c with
      | replayOutbox | reconcileStartedAttempts => exact hfault (by rfl) h
      | recoverReservedOrphans | recoverWheelOrphans => exact absurd hop id
  | enterLoop =>
      cases h
      rfl

/-- The loop recovers nothing. -/
theorem rounds_recovered (dts : List Nat) (w : Inbox (Option AgentCommand) Recovery) :
    (rounds cfg (agentModel handle reconcile) CommandConsumer.iterate x w dts).app.recovered
      = w.app.recovered := by
  induction dts generalizing w with
  | nil => rfl
  | cons dt dts ih =>
      rw [rounds_cons, ih]
      simp only [round]
      split
      · rename_i r w' hexec
        show w'.app.recovered = (w.move (.tick dt)).app.recovered
        refine Prog.exec_rel (R := fun w w' : Inbox (Option AgentCommand) Recovery =>
          w'.app.recovered = w.app.recovered) ?_ ?_ agentIterate_loopOp ?_ hexec
        · exact fun _ => rfl
        · exact fun h h' => h'.trans h
        · exact fun op w r w' hop h => perform_recovered hop h
      · rfl

end Agent

/-! ### Recovery from a missing group -/

/-- After finitely many rounds there is a group, and every entry of the stream
was handed to the handler. -/
def Recovers (cfg : ConsumerConfig) (A : AppModel β σ χ) (x : χ) (p : ConsumerProg β Unit)
    (w : Inbox β σ) : Prop :=
  ∃ n, ∀ dts : List Nat, (∀ dt ∈ dts, 0 < dt) → n ≤ dts.length →
    (rounds cfg A p x w dts).stream.group.isSome ∧
      ∀ z ∈ w.stream.entries, z.1 ∈ (rounds cfg A p x w dts).handed

/-- The same for the agent, which also gives every attempt left behind its
recovery terminal. -/
def AgentRecovers (cfg : ConsumerConfig) (A : AppModel (Option AgentCommand) Recovery χ) (x : χ)
    (w : Inbox (Option AgentCommand) Recovery) : Prop :=
  ∃ n, ∀ dts : List Nat, (∀ dt ∈ dts, 0 < dt) → n ≤ dts.length →
    (rounds cfg A CommandConsumer.iterate x w dts).stream.group.isSome ∧
      (∀ z ∈ w.stream.entries, z.1 ∈ (rounds cfg A CommandConsumer.iterate x w dts).handed) ∧
      w.app.leftBehind ⊆ (rounds cfg A CommandConsumer.iterate x w dts).app.recovered

/-- What the agent's consumer needs to have been left by its start-up. -/
structure AgentReady (w : Inbox (Option AgentCommand) Recovery) : Prop where
  group : w.stream.group.isSome
  pending : ∀ z ∈ w.stream.entries, z.1 ∈ w.stream.pending.map Prod.fst → z.1 ∈ w.handed
  recovered : w.app.leftBehind ⊆ w.app.recovered

theorem positive_replicate (n : Nat) : ∀ dt ∈ List.replicate n 1, 0 < dt := by
  intro dt hdt
  rw [(List.mem_replicate.mp hdt).2]
  exact Nat.one_pos

/-- Without a group there is no way back. -/
theorem Recovers.group {p : ConsumerProg β Unit} (hp : Groupless p) {w : Inbox β σ}
    (h : Recovers cfg A x p w) : w.stream.group.isSome := by
  obtain ⟨n, hn⟩ := h
  obtain ⟨hgroup, -⟩ := hn (List.replicate n 1) (positive_replicate n)
    (List.length_replicate ..).ge
  rw [(rounds_drift hp w (List.replicate n 1)).group] at hgroup
  exact hgroup

/-- The server's consumers recover exactly if there is a group. -/
theorem server_recovers_iff (hone : Passes cfg A x one fine)
    (hgroupless : ∀ id b, Groupless (one id b)) {w : Inbox β σ} (h : Sound w)
    (hfine : ∀ z ∈ w.stream.entries, fine z.2) :
    Recovers cfg A x (guarded (drainOnce one true)) w ↔ w.stream.group.isSome := by
  constructor
  · exact fun hrecovers => hrecovers.group (drain_groupless hgroupless)
  · intro hgroup
    refine ⟨load w + wait cfg w.now w, fun dts hpos hlen => ⟨?_, ?_⟩⟩
    · rw [(rounds_drift (drain_groupless hgroupless) w dts).group]
      exact hgroup
    · exact rounds_clear hone hgroupless dts (h.ready hgroup) hfine hpos hlen

/-- The agent's consumer recovers exactly if its start-up left nothing to do. -/
theorem agent_recovers_iff
    {handle : χ → Nat → Option AgentCommand → StateStore → Bool × StateStore}
    {reconcile : χ → StateStore → StateStore} {w : Inbox (Option AgentCommand) Recovery}
    (h : Sound w) :
    AgentRecovers cfg (agentModel handle reconcile) x w ↔ AgentReady w := by
  constructor
  · intro hrecovers
    obtain ⟨n, hn⟩ := hrecovers
    obtain ⟨hgroup, hhanded, hrecovered⟩ := hn (List.replicate n 1) (positive_replicate n)
      (List.length_replicate ..).ge
    refine ⟨?_, fun z hz hpend => ?_, ?_⟩
    · rw [(rounds_drift agentIterate_groupless w _).group] at hgroup
      exact hgroup
    · exact (CommandLoop.rounds_untouched cfg _ x _ hpend).handed.mp (hhanded z hz)
    · rw [rounds_recovered] at hrecovered
      exact hrecovered
  · intro hready
    refine ⟨w.stream.news.length, fun dts _ hlen => ⟨?_, ?_, ?_⟩⟩
    · rw [(rounds_drift agentIterate_groupless w dts).group]
      exact hready.group
    · refine agent_rounds_clear dts hready.group (fun z hz => ?_) hlen
      rcases h.seen hready.group z hz with hhanded | hpend | hnew
      · exact .inl hhanded
      · exact .inl (hready.pending z hz hpend)
      · exact .inr hnew
    · rw [rounds_recovered]
      exact hready.recovered

/-! ### Histories -/

def sampleConfig : ConsumerConfig where
  batch := 2
  batch_pos := Nat.zero_lt_two
  pendingIdleMs := 60000

/-- A handler that never raises. -/
def sampleModel (β : Type) : AppModel β Unit Unit where
  handle _ _ _ _ := (true, ())
  chore _ _ _ := ()

def sampleWorld (β : Type) {σ : Type} (app : σ) : Inbox β σ where
  stream := RedisStream.empty
  now := 0
  app := app
  handed := []
  mine := []
  processed := []
  looping := false

/-- Nothing has happened yet. -/
def sampleStart (β : Type) {σ : Type} (app : σ) :
    Sys Unit (ConsumerOp β) ConsumerOp.Res ConsumerError (Inbox β σ) where
  world := sampleWorld β app
  procs _ := none

theorem sampleStart_start (β : Type) (app : σ) : Start (sampleStart β app) := ⟨rfl, rfl, rfl⟩

/-- One attempt was left reserved when the agent last died. -/
def sampleRecovery : Recovery where
  store := Table.empty.insert 7 { taskId := 3, executionId := 7, phase := .reserved }
  leftBehind := [7]
  recovered := []

/-- The agent's handlers and its reconciliation leave the state files alone. -/
def sampleAgent : AppModel (Option AgentCommand) Recovery Unit :=
  agentModel (fun _ _ _ st => (true, st)) fun _ st => st

/-- The next `n` operations succeed. -/
def steps (β : Type) (n : Nat) :
    List (Sys.Action Unit (ConsumerOp β) (fun _ => ConsumerAnswer Unit) (InboxMove β) Unit) :=
  List.replicate n (.op () fun _ => { app := () })

/-- Start-up finds Redis unreachable, and the consumer goes on to its loop. -/
def failedBoot (β : Type) :
    List (Sys.Action Unit (ConsumerOp β) (fun _ => ConsumerAnswer Unit) (InboxMove β) Unit) :=
  .start () () :: .op () (fun _ => { fault := .before, app := () }) :: steps β 1

/-- Whether the consumer is between two rounds of its loop. -/
def atLoopHead (s : Sys Unit (ConsumerOp β) ConsumerOp.Res ConsumerError (Inbox β σ)) : Bool :=
  (s.procs ()).isNone && s.world.looping

theorem loopHead_of_atLoopHead
    {s : Sys Unit (ConsumerOp β) ConsumerOp.Res ConsumerError (Inbox β σ)}
    (h : atLoopHead s = true) : LoopHead s := by
  rw [atLoopHead, Bool.and_eq_true, Option.isNone_iff_eq_none] at h
  exact ⟨h.1, h.2⟩

/-- **When the consumers recover.**  Over every history of outages, errors,
deletions and restarts, between two rounds: a consumer of the server recovers if
and only if its group is there, and the agent's if and only if, besides, what is
pending was handed on and its start-up recovered what was left behind. -/
theorem recovers_iff (cfg : ConsumerConfig) (x : χ) :
    (∀ (A : AppModel (Option AgentEvent) σ χ) (crash : σ → σ)
      (s s' : Sys Unit (ConsumerOp (Option AgentEvent)) ConsumerOp.Res ConsumerError
        (Inbox (Option AgentEvent) σ)),
      (∀ id ev app, (A.handle x id (some ev) app).1 = true) → Start s →
      Run (Sys.step (consumerSpec cfg A EventConsumer.boot EventConsumer.iterate crash)) s s' →
      LoopHead s' →
      (Recovers cfg A x EventConsumer.iterate s'.world ↔ s'.world.stream.group.isSome)) ∧
    (∀ (A : AppModel (Option AgentLogEvent) σ χ) (crash : σ → σ)
      (s s' : Sys Unit (ConsumerOp (Option AgentLogEvent)) ConsumerOp.Res ConsumerError
        (Inbox (Option AgentLogEvent) σ)),
      (∀ id ev app, (A.handle x id (some ev) app).1 = true) →
      (∀ z ∈ s'.world.stream.entries, z.2.isSome) → Start s →
      Run (Sys.step (consumerSpec cfg A LogConsumer.boot LogConsumer.iterate crash)) s s' →
      LoopHead s' →
      (Recovers cfg A x LogConsumer.iterate s'.world ↔ s'.world.stream.group.isSome)) ∧
    ∀ (handle : χ → Nat → Option AgentCommand → StateStore → Bool × StateStore)
      (reconcile : χ → StateStore → StateStore)
      (s s' : Sys Unit (ConsumerOp (Option AgentCommand)) ConsumerOp.Res ConsumerError
        (Inbox (Option AgentCommand) Recovery)), Start s →
      Run (Sys.step (consumerSpec cfg (agentModel handle reconcile) CommandConsumer.boot
        CommandConsumer.iterate Recovery.crash)) s s' → LoopHead s' →
      (AgentRecovers cfg (agentModel handle reconcile) x s'.world ↔ AgentReady s'.world) := by
  refine ⟨?_, ?_, ?_⟩
  · intro A crash s s' hA hs hrun _
    have hsound := sound_of_run setup_keeps (drain_keeps event_honest) hs hrun
    exact server_recovers_iff (event_passes hA) event_groupless hsound fun _ _ => trivial
  · intro A crash s s' hA hdecodes hs hrun _
    have hsound := sound_of_run setup_keeps (drain_keeps log_honest) hs hrun
    exact server_recovers_iff (log_passes hA) log_groupless hsound hdecodes
  · intro handle reconcile s s' hs hrun _
    have hsound := sound_of_run agentBoot_keeps agentIterate_keeps hs hrun
    exact agent_recovers_iff hsound

/-- After a start-up without Redis, a restart is enough for all three. -/
theorem recovers_iff_sample :
    (∃ w : Inbox (Option AgentEvent) Unit, w.stream.entries.length = 1 ∧
      Recovers sampleConfig (sampleModel _) () EventConsumer.iterate w) ∧
    (∃ w : Inbox (Option AgentLogEvent) Unit,
      Recovers sampleConfig (sampleModel _) () LogConsumer.iterate w) ∧
    ∃ w : Inbox (Option AgentCommand) Recovery, w.app.leftBehind = [7] ∧
      AgentRecovers sampleConfig sampleAgent () w := by
  obtain ⟨hevent, hlog, hagent⟩ := recovers_iff (σ := Unit) sampleConfig ()
  refine ⟨?_, ?_, ?_⟩
  · obtain ⟨s', hrun, hs'⟩ := RunOk.exists_of_checkedRun
      (Sys.step (consumerSpec sampleConfig (sampleModel _) EventConsumer.boot
        EventConsumer.iterate id)) (fun _ _ => True) (sampleStart (Option AgentEvent) ())
      (failedBoot _ ++ [.env (.xadd none), .crash, .start () ()] ++ steps _ 2)
      (fun s' => atLoopHead s' && s'.world.stream.group.isSome &&
        decide (s'.world.stream.entries.length = 1)) (by decide)
    simp only [Bool.and_eq_true, decide_eq_true_eq] at hs'
    obtain ⟨⟨hhead, hgroup⟩, hlength⟩ := hs'
    refine ⟨s'.world, hlength, ?_⟩
    exact (hevent _ _ _ _ (fun _ _ _ => rfl) (sampleStart_start _ _) hrun
      (loopHead_of_atLoopHead hhead)).mpr hgroup
  · obtain ⟨s', hrun, hs'⟩ := RunOk.exists_of_checkedRun
      (Sys.step (consumerSpec sampleConfig (sampleModel _) LogConsumer.boot
        LogConsumer.iterate id)) (fun _ _ => True) (sampleStart (Option AgentLogEvent) ())
      (failedBoot _ ++ [.crash, .start () ()] ++ steps _ 2)
      (fun s' => atLoopHead s' && s'.world.stream.group.isSome &&
        decide (∀ z ∈ s'.world.stream.entries, z.2.isSome)) (by decide)
    simp only [Bool.and_eq_true, decide_eq_true_eq] at hs'
    obtain ⟨⟨hhead, hgroup⟩, hdecodes⟩ := hs'
    refine ⟨s'.world, ?_⟩
    exact (hlog _ _ _ _ (fun _ _ _ => rfl) hdecodes (sampleStart_start _ _) hrun
      (loopHead_of_atLoopHead hhead)).mpr hgroup
  · obtain ⟨s', hrun, hs'⟩ := RunOk.exists_of_checkedRun
      (Sys.step (consumerSpec sampleConfig sampleAgent CommandConsumer.boot
        CommandConsumer.iterate Recovery.crash)) (fun _ _ => True)
      (sampleStart (Option AgentCommand) sampleRecovery)
      (failedBoot _ ++ [.env (.xadd none), .crash, .start () ()] ++ steps _ 6)
      (fun s' => atLoopHead s' && s'.world.stream.group.isSome &&
        decide (∀ z ∈ s'.world.stream.entries,
          z.1 ∈ s'.world.stream.pending.map Prod.fst → z.1 ∈ s'.world.handed) &&
        decide (s'.world.app.leftBehind = [7]) && decide (s'.world.app.recovered = [7]))
      (by decide)
    simp only [Bool.and_eq_true, decide_eq_true_eq] at hs'
    obtain ⟨⟨⟨⟨hhead, hgroup⟩, hpending⟩, hleft⟩, hrecovered⟩ := hs'
    refine ⟨s'.world, hleft, ?_⟩
    refine (hagent _ _ _ _ (sampleStart_start _ _) hrun (loopHead_of_atLoopHead hhead)).mpr ?_
    refine ⟨hgroup, hpending, ?_⟩
    rw [hleft, hrecovered]
    exact fun _ he => he

/-- **One failing `XGROUP CREATE`.**  Redis is unreachable while the consumer
starts; it answers again at once, and none of the three ever gets a group. -/
theorem not_recovers_after_setup_error :
    (¬ ∀ s s' : Sys Unit (ConsumerOp (Option AgentEvent)) ConsumerOp.Res ConsumerError
        (Inbox (Option AgentEvent) Unit), Start s →
      Run (Sys.step (consumerSpec sampleConfig (sampleModel _) EventConsumer.boot
        EventConsumer.iterate id)) s s' → LoopHead s' →
      Recovers sampleConfig (sampleModel _) () EventConsumer.iterate s'.world) ∧
    (¬ ∀ s s' : Sys Unit (ConsumerOp (Option AgentLogEvent)) ConsumerOp.Res ConsumerError
        (Inbox (Option AgentLogEvent) Unit), Start s →
      Run (Sys.step (consumerSpec sampleConfig (sampleModel _) LogConsumer.boot
        LogConsumer.iterate id)) s s' → LoopHead s' →
      Recovers sampleConfig (sampleModel _) () LogConsumer.iterate s'.world) ∧
    ¬ ∀ s s' : Sys Unit (ConsumerOp (Option AgentCommand)) ConsumerOp.Res ConsumerError
        (Inbox (Option AgentCommand) Recovery), Start s →
      Run (Sys.step (consumerSpec sampleConfig sampleAgent CommandConsumer.boot
        CommandConsumer.iterate Recovery.crash)) s s' → LoopHead s' →
      AgentRecovers sampleConfig sampleAgent () s'.world := by
  refine ⟨?_, ?_, ?_⟩
  · intro hclaim
    obtain ⟨s', hrun, hs'⟩ := RunOk.exists_of_checkedRun
      (Sys.step (consumerSpec sampleConfig (sampleModel _) EventConsumer.boot
        EventConsumer.iterate id)) (fun _ _ => True) (sampleStart (Option AgentEvent) ())
      (failedBoot _) (fun s' => atLoopHead s' && s'.world.stream.group.isNone) (by decide)
    simp only [Bool.and_eq_true, Option.isNone_iff_eq_none] at hs'
    obtain ⟨hhead, hnone⟩ := hs'
    have hgroup := (hclaim _ _ (sampleStart_start _ _) hrun (loopHead_of_atLoopHead hhead)).group
      (drain_groupless event_groupless)
    rw [hnone] at hgroup
    cases hgroup
  · intro hclaim
    obtain ⟨s', hrun, hs'⟩ := RunOk.exists_of_checkedRun
      (Sys.step (consumerSpec sampleConfig (sampleModel _) LogConsumer.boot
        LogConsumer.iterate id)) (fun _ _ => True) (sampleStart (Option AgentLogEvent) ())
      (failedBoot _) (fun s' => atLoopHead s' && s'.world.stream.group.isNone) (by decide)
    simp only [Bool.and_eq_true, Option.isNone_iff_eq_none] at hs'
    obtain ⟨hhead, hnone⟩ := hs'
    have hgroup := (hclaim _ _ (sampleStart_start _ _) hrun (loopHead_of_atLoopHead hhead)).group
      (drain_groupless log_groupless)
    rw [hnone] at hgroup
    cases hgroup
  · intro hclaim
    obtain ⟨s', hrun, hs'⟩ := RunOk.exists_of_checkedRun
      (Sys.step (consumerSpec sampleConfig sampleAgent CommandConsumer.boot
        CommandConsumer.iterate Recovery.crash)) (fun _ _ => True)
      (sampleStart (Option AgentCommand) sampleRecovery)
      (failedBoot _) (fun s' => atLoopHead s' && s'.world.stream.group.isNone) (by decide)
    simp only [Bool.and_eq_true, Option.isNone_iff_eq_none] at hs'
    obtain ⟨hhead, hnone⟩ := hs'
    obtain ⟨n, hn⟩ := hclaim _ _ (sampleStart_start _ _) hrun (loopHead_of_atLoopHead hhead)
    obtain ⟨hgroup, -⟩ := hn (List.replicate n 1) (positive_replicate n)
      (List.length_replicate ..).ge
    rw [(rounds_drift agentIterate_groupless _ _).group, hnone] at hgroup
    cases hgroup

end MissingGroup

end Dopilot
