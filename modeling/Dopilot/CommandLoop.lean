/-
Dopilot/CommandLoop.lean

Whether the agent's command consumer gets through everything it was handed.

The loop reads only new entries; pending ones are claimed once, at start-up, and
only those that have been idle for long enough.  An entry that was delivered and
not given to `_process` by the time a round ends is therefore not looked at
again before the next restart.  `lossless` lists where an error or a restart
must not fall while entries wait: a failing `XACK` inside a batch, a reply of
`XREADGROUP` lost after delivery, a start-up that fails or finds entries that are
not idle yet.  Main results: in every run that keeps to it, every pending entry
has been processed or given to `_process` by this process whenever the consumer
is between two rounds (`owed_are_handed`); one failing `XACK` in a batch of two
strands an entry for good (`owed_stranded_by_xack`).
-/
import Dopilot.Consumers

namespace Dopilot

open StateMachine

namespace CommandLoop

variable {σ χ : Type}

abbrev World (σ : Type) : Type := Inbox (Option AgentCommand) σ
abbrev Op : Type := ConsumerOp (Option AgentCommand)
abbrev State (σ : Type) : Type := Sys Unit Op ConsumerOp.Res ConsumerError (World σ)
abbrev Step (χ : Type) : Type :=
  Sys.Action Unit Op (fun _ => ConsumerAnswer χ) (InboxMove (Option AgentCommand)) Unit

variable (cfg : ConsumerConfig) (A : AppModel (Option AgentCommand) σ χ) (crash : σ → σ)

/-- The agent's consumer among everything else. -/
abbrev spec : Sys.Spec Unit Op ConsumerOp.Res (fun _ => ConsumerAnswer χ) ConsumerError
    (World σ) (InboxMove (Option AgentCommand)) Unit :=
  consumerSpec cfg A CommandConsumer.boot CommandConsumer.iterate crash

/-! ### Stranded entries -/

/-- Pending, not processed, and not given to `_process` since the process started. -/
def Stranded (w : World σ) (id : Nat) : Prop :=
  id ∈ w.stream.pending.map Prod.fst ∧ id ∉ w.processed ∧ id ∉ w.mine

/-- No entry is stranded. -/
def NoneStranded (w : World σ) : Prop :=
  ∀ p ∈ w.stream.pending, p.1 ∈ w.processed ∨ p.1 ∈ w.mine

theorem noneStranded_iff {w : World σ} : NoneStranded w ↔ ∀ id, ¬ Stranded w id := by
  constructor
  · rintro hnone id ⟨hid, hprocessed, hmine⟩
    obtain ⟨p, hp, rfl⟩ := List.mem_map.mp hid
    exact (hnone p hp).elim hprocessed hmine
  · intro hnone p hp
    by_contra hp'
    obtain ⟨hprocessed, hmine⟩ := not_or.mp hp'
    exact hnone p.1 ⟨List.mem_map.mpr ⟨p, hp, rfl⟩, hprocessed, hmine⟩

/-- The pending entries from an id on are all there to be claimed. -/
def Claimable (w : World σ) (start : Nat) : Prop :=
  ∀ p ∈ w.stream.pendingFrom start,
    (w.stream.lookup p.1).isSome ∧ cfg.pendingIdleMs ≤ w.now - p.2

/-- Where errors and restarts fall in a run that loses nothing. -/
def lossless : Sys.Cond Unit Op (fun _ => ConsumerAnswer χ) (World σ)
    (InboxMove (Option AgentCommand)) Unit where
  env _ _ := True
  launch w _ _ := NoneStranded w ∨ w.stream.pending.length ≤ 1000 * cfg.batch
  op
    | .xack _, x, w => x.fault = .none ∨ NoneStranded w
    | .xreadgroup, x, w => x.fault = .after → w.stream.nextPage cfg.batch = []
    | .xautoclaim start, x, w =>
        NoneStranded w ∨ x.fault = .none ∧ Claimable cfg w start
    | .ensureGroup, x, w => x.fault = .none ∨ NoneStranded w
    | .chore _, x, w => x.fault = .none ∨ NoneStranded w
    | _, _, _ => True
  crash _ := True

/-! ### What only calms -/

/-- Nothing that is pending or waits has been added. -/
structure Calmer (w w' : World σ) : Prop where
  pending : (w'.stream.pending.map Prod.fst).Sublist (w.stream.pending.map Prod.fst)
  mine : w.mine ⊆ w'.mine
  processed : w.processed ⊆ w'.processed

theorem Calmer.refl (w : World σ) : Calmer w w :=
  ⟨List.Sublist.refl _, fun _ h => h, fun _ h => h⟩

theorem Calmer.trans {w₁ w₂ w₃ : World σ} (h : Calmer w₁ w₂) (h' : Calmer w₂ w₃) :
    Calmer w₁ w₃ :=
  ⟨h'.pending.trans h.pending, fun _ hi => h'.mine (h.mine hi),
    fun _ hi => h'.processed (h.processed hi)⟩

theorem Calmer.stranded {w w' : World σ} (h : Calmer w w') {id : Nat} (hid : Stranded w' id) :
    Stranded w id :=
  ⟨h.pending.subset hid.1, fun hp => hid.2.1 (h.processed hp), fun hm => hid.2.2 (h.mine hm)⟩

theorem Calmer.noneStranded {w w' : World σ} (h : Calmer w w') (hw : NoneStranded w) :
    NoneStranded w' :=
  noneStranded_iff.mpr fun _ hid => noneStranded_iff.mp hw _ (h.stranded hid)

theorem Calmer.pendingFrom_length {w w' : World σ} (h : Calmer w w') (start : Nat) :
    (w'.stream.pendingFrom start).length ≤ (w.stream.pendingFrom start).length := by
  have hids : ∀ l : List (Nat × Time), (l.filter fun p => start ≤ p.1).length
      = ((l.map Prod.fst).filter fun i => start ≤ i).length := by
    intro l
    rw [List.filter_map, List.length_map]
    rfl
  rw [RedisStream.pendingFrom, RedisStream.pendingFrom, hids, hids]
  exact (h.pending.filter _).length_le

/-- Every operation but a read calms. -/
theorem perform_calmer (op : Op) {x : ConsumerAnswer χ} {w w' : World σ}
    {r : Except ConsumerError op.Res} (hop : op ≠ .xreadgroup)
    (h : op.perform cfg A x w = some (r, w')) : Calmer w w' := by
  cases op with
  | ensureGroup =>
      refine Prog.withFault_rel (R := Calmer) (Calmer.refl w) ?_ h
      refine ⟨?_, fun _ hi => hi, fun _ hi => hi⟩
      rw [RedisStream.pending_ensureGroup]
  | xautoclaim start =>
      simp only [ConsumerOp.perform] at h
      split at h
      · cases h
        exact Calmer.refl w
      · rename_i page stream hclaim
        refine Prog.withFault_rel (R := Calmer) (Calmer.refl w) ?_ h
        exact ⟨RedisStream.pending_xautoclaim hclaim, fun _ hi => hi, fun _ hi => hi⟩
  | xreadgroup => exact absurd rfl hop
  | xack id =>
      refine Prog.withFault_rel (R := Calmer) (Calmer.refl w) ?_ h
      refine ⟨?_, fun _ hi => hi, fun _ hi => hi⟩
      rw [RedisStream.pending_xack]
      exact List.Sublist.map _ List.filter_sublist
  | hand id =>
      cases h
      exact ⟨List.Sublist.refl _, List.subset_append_left _ _, fun _ hi => hi⟩
  | handle id b =>
      simp only [ConsumerOp.perform] at h
      split at h
      · cases h
        exact ⟨List.Sublist.refl _, fun _ hi => hi, List.subset_append_left _ _⟩
      · cases h
        exact ⟨List.Sublist.refl _, fun _ hi => hi, fun _ hi => hi⟩
  | chore c =>
      refine Prog.withFault_rel (R := Calmer) (Calmer.refl w) ?_ h
      exact ⟨List.Sublist.refl _, fun _ hi => hi, fun _ hi => hi⟩
  | enterLoop =>
      cases h
      exact ⟨List.Sublist.refl _, fun _ hi => hi, fun _ hi => hi⟩

/-- In a lossless run an error of an operation other than a read or the handler
finds nothing stranded. -/
theorem error_noneStranded (op : Op) {x : ConsumerAnswer χ} {w w' : World σ} {e : ConsumerError}
    (hread : op ≠ .xreadgroup) (hhandle : ∀ id b, op ≠ .handle id b)
    (hok : (lossless cfg).op op x w) (h : op.perform cfg A x w = some (.error e, w')) :
    NoneStranded w' := by
  have hcalm := perform_calmer cfg A op hread h
  have hfault : ∀ {α : Type} {r : α} {w₁ : World σ} {e' : ConsumerError},
      Prog.withFault x.fault e' w r w₁ = some (.error e, w') → x.fault ≠ .none := by
    intro α r w₁ e' hw hnone
    rw [hnone] at hw
    cases hw
  cases op with
  | ensureGroup => exact hcalm.noneStranded (hok.resolve_left (hfault h))
  | xautoclaim start =>
      simp only [ConsumerOp.perform] at h
      split at h
      · rename_i hclaim
        cases h
        have hgroup : w.stream.group = none := Option.map_eq_none_iff.mp hclaim
        intro p hp
        simp [RedisStream.pending, hgroup] at hp
      · exact hcalm.noneStranded (hok.resolve_right fun hx => hfault h hx.1)
  | xreadgroup => exact absurd rfl hread
  | xack id => exact hcalm.noneStranded (hok.resolve_left (hfault h))
  | hand id => cases h
  | handle id b => exact absurd rfl (hhandle id b)
  | chore c => exact hcalm.noneStranded (hok.resolve_left (hfault h))
  | enterLoop => cases h

/-! ### The contract of the consumer -/

/-- What happens beside the consumer strands nothing. -/
def Rely (w w' : World σ) : Prop := Calmer w w' ∧ w'.looping = w.looping

theorem Rely.trans {w₁ w₂ w₃ : World σ} (h : Rely w₁ w₂) (h' : Rely w₂ w₃) : Rely w₁ w₃ :=
  ⟨h.1.trans h'.1, h'.2.trans h.2⟩

abbrev contract : Prog.Contract Op (fun _ => ConsumerAnswer χ) (World σ) :=
  Sys.contract (lossless cfg) (fun _ => True) Rely (fun _ _ => True) Rely.trans

/-- A part of the consumer, run in a lossless run. -/
abbrev CSafe {α : Type} (p : ConsumerProg (Option AgentCommand) α)
    (Q : Except ConsumerError α → World σ → Prop) (w : World σ) : Prop :=
  p.Safe { perform := ConsumerOp.perform cfg A } (contract cfg) Q w

/-- The rule of an operation other than a read and the handler's. -/
theorem calm_call {op : Op} (hread : op ≠ .xreadgroup) (hhandle : ∀ id b, op ≠ .handle id b)
    {Q : Except ConsumerError op.Res → World σ → Prop} {w : World σ}
    (hok : ∀ r w', Calmer w w' → Q (.ok r) w')
    (herr : ∀ e w', NoneStranded w' → Q (.error e) w') :
    CSafe cfg A (ConsumerOp.call op) Q w := by
  refine Prog.safe_call.mpr fun w₁ hrely x r w₂ hcond hp => ⟨trivial, ?_⟩
  cases r with
  | ok r => exact hok r w₂ (hrely.1.trans (perform_calmer cfg A op hread hp))
  | error e => exact herr e w₂ (error_noneStranded cfg A op hread hhandle hcond.1 hp)

/-- The same, followed by the rest of the program. -/
theorem calm_bind {op : Op} (hread : op ≠ .xreadgroup) (hhandle : ∀ id b, op ≠ .handle id b)
    {α : Type} {f : op.Res → ConsumerProg (Option AgentCommand) α}
    {Q : Except ConsumerError α → World σ → Prop} {w : World σ}
    (hok : ∀ r w', Calmer w w' → CSafe cfg A (f r) Q w')
    (herr : ∀ e w', NoneStranded w' → Q (.error e) w') :
    CSafe cfg A ((ConsumerOp.call op).bind f) Q w :=
  Prog.safe_bind.mpr (calm_call cfg A hread hhandle hok herr)

/-! ### One entry and one page -/

/-- `_process` returns unless nothing is stranded. -/
def Settled (w : World σ) : Except ConsumerError Unit → World σ → Prop
  | .ok _, w' => Calmer w w'
  | .error _, w' => NoneStranded w'

theorem xack_safe (id : Nat) {w₀ w : World σ} (h : Calmer w₀ w) :
    CSafe cfg A (ConsumerOp.call (.xack id)) (Settled w₀) w :=
  calm_call cfg A (by simp) (by simp) (fun _ _ hw => h.trans hw) fun _ _ hw => hw

theorem process_safe (id : Nat) (b : Option AgentCommand) (w : World σ) :
    CSafe cfg A (CommandConsumer.process id b) (Settled w) w := by
  cases b with
  | none => exact xack_safe cfg A id (Calmer.refl w)
  | some cmd =>
      refine Prog.safe_tryFinally.mpr (Prog.safe_tryCatch.mpr (Prog.safe_call.mpr
        fun w₁ hrely x r w₂ hcond hp => ⟨trivial, ?_⟩))
      have hcalm : Calmer w w₂ :=
        hrely.1.trans (perform_calmer cfg A (.handle id (some cmd)) (by simp) hp)
      -- whatever the handler does, the entry is acknowledged next
      have hack : Prog.finallyPost { perform := ConsumerOp.perform cfg A } (contract cfg)
          (ConsumerOp.call (.xack id)) (Settled w) (.ok ()) w₂ := by
        refine (xack_safe cfg A id hcalm).mono fun r' w' hw' => ?_
        cases r' with
        | ok _ => exact hw'
        | error e => exact hw'
      cases r with
      | ok _ => exact hack
      | error e => exact hack

/-- What the treatment of a page leads to. -/
def PageDone (w : World σ) (page : List (Nat × Option AgentCommand)) :
    Except ConsumerError Unit → World σ → Prop
  | .ok _, w' => Calmer w w' ∧ ∀ x ∈ page, ¬ Stranded w' x.1
  | .error _, w' => NoneStranded w'

theorem handlePage_safe (page : List (Nat × Option AgentCommand)) (w : World σ) :
    CSafe cfg A (handlePage CommandConsumer.process page) (PageDone w page) w := by
  induction page generalizing w with
  | nil => exact ⟨Calmer.refl w, by simp⟩
  | cons y rest ih =>
      refine Prog.safe_bind.mpr (Prog.safe_call.mpr fun w₁ hrely x r w₂ _ hp => ⟨trivial, ?_⟩)
      have hcalm : Calmer w w₂ :=
        hrely.1.trans (perform_calmer cfg A (.hand y.1) (x := x) (by simp) hp)
      cases hp
      have hy : ∀ w', Calmer { w₁ with handed := w₁.handed ++ [y.1], mine := w₁.mine ++ [y.1] } w' →
          ¬ Stranded w' y.1 := fun w' hw' hstranded => hstranded.2.2 (hw'.mine (by simp))
      refine Prog.safe_bind.mpr ((process_safe cfg A y.1 y.2 _).mono fun r w₃ hr => ?_)
      cases r with
      | error e => exact hr
      | ok _ =>
          refine (ih w₃).mono fun r' w₄ hr' => ?_
          cases r' with
          | error e => exact hr'
          | ok _ =>
              obtain ⟨hcalm', hrest⟩ := hr'
              refine ⟨hcalm.trans (Calmer.trans hr hcalm'), fun z hz => ?_⟩
              rcases List.mem_cons.mp hz with rfl | hz'
              · exact hy w₄ (Calmer.trans hr hcalm')
              · exact hrest z hz'

/-! ### Claiming at start-up -/

/-- What waits can be claimed with `n` more pages from an id on. -/
def Ahead (n start : Nat) (w : World σ) : Prop :=
  ∀ id, Stranded w id → start ≤ id ∧ (w.stream.pendingFrom start).length ≤ n * cfg.batch

theorem Ahead.calmer {n start : Nat} {w w' : World σ} (h : Ahead cfg n start w)
    (hcalm : Calmer w w') : Ahead cfg n start w' := by
  intro id hid
  obtain ⟨hle, hlen⟩ := h id (hcalm.stranded hid)
  exact ⟨hle, Nat.le_trans (hcalm.pendingFrom_length start) hlen⟩

theorem ahead_of_noneStranded {n start : Nat} {w : World σ} (h : NoneStranded w) :
    Ahead cfg n start w := fun id hid => absurd hid (noneStranded_iff.mp h id)

theorem Ahead.noneStranded {start : Nat} {w : World σ} (h : Ahead cfg 0 start w) :
    NoneStranded w := by
  refine noneStranded_iff.mpr fun id hid => ?_
  obtain ⟨hle, hlen⟩ := h id hid
  obtain ⟨p, hp, rfl⟩ := List.mem_map.mp hid.1
  have hfrom : p ∈ w.stream.pendingFrom start := List.mem_filter.mpr ⟨hp, by simpa using hle⟩
  rw [Nat.zero_mul, Nat.le_zero, List.length_eq_zero_iff] at hlen
  rw [hlen] at hfrom
  cases hfrom

/-- After a claimed page that was treated, nothing waits or the next page starts
at what is left. -/
theorem Ahead.next {n start : Nat} {w w' w'' : World σ} (h : Ahead cfg (n + 1) start w)
    {page : Nat × List (Nat × Option AgentCommand)} {stream : RedisStream (Option AgentCommand)}
    (hclaim : w.stream.xautoclaim w.now cfg.pendingIdleMs start cfg.batch = some (page, stream))
    (hall : Claimable cfg w start) (hcalm : Calmer w w')
    (hdone : PageDone w' page.2 (.ok ()) w'') :
    (page.2 = [] ∨ page.1 = 0 → NoneStranded w'') ∧ Ahead cfg n page.1 w'' := by
  obtain ⟨hpage, hnext⟩ := RedisStream.xautoclaim_all_idle hclaim hall
  have hstranded : ∀ id, Stranded w'' id → Stranded w id := fun id hid =>
    hcalm.stranded (hdone.1.stranded hid)
  -- what still waits lies behind the page
  have hbehind : ∀ id, Stranded w'' id →
      ∃ p ∈ (w.stream.pendingFrom start).drop cfg.batch, p.1 = id := by
    intro id hid
    obtain ⟨p, hp, rfl⟩ := List.mem_map.mp (hstranded id hid).1
    have hle := (h p.1 (hstranded _ hid)).1
    have hfrom : p ∈ w.stream.pendingFrom start := List.mem_filter.mpr ⟨hp, by simpa using hle⟩
    rw [← List.take_append_drop cfg.batch (w.stream.pendingFrom start)] at hfrom
    rcases List.mem_append.mp hfrom with htake | hdrop
    · have hid' : p.1 ∈ page.2.map Prod.fst := hpage ▸ List.mem_map.mpr ⟨p, htake, rfl⟩
      obtain ⟨y, hy, hyp⟩ := List.mem_map.mp hid'
      exact absurd (hyp ▸ hid) (hdone.2 y hy)
    · exact ⟨p, hdrop, rfl⟩
  constructor
  · intro hend
    refine noneStranded_iff.mpr fun id hid => ?_
    obtain ⟨p, hp, rfl⟩ := hbehind id hid
    obtain ⟨-, hlen⟩ := h p.1 (hstranded _ hid)
    rcases hrest : (w.stream.pendingFrom start).drop cfg.batch with - | ⟨q, rest⟩
    · rw [hrest] at hp
      cases hp
    · rcases hend with hempty | hzero
      · have htake : (w.stream.pendingFrom start).take cfg.batch = [] := by
          rw [hempty] at hpage
          exact List.map_eq_nil_iff.mp hpage.symm
        have hlong : cfg.batch < (w.stream.pendingFrom start).length := by
          have hpos : 0 < ((w.stream.pendingFrom start).drop cfg.batch).length := by
            rw [hrest]
            exact Nat.succ_pos _
          rw [List.length_drop] at hpos
          omega
        rcases List.take_eq_nil_iff.mp htake with hbatch | hnil
        · rw [hbatch, Nat.mul_zero] at hlen
          omega
        · rw [hnil] at hlong
          exact absurd hlong (Nat.not_lt_zero _)
      · have hq : q ∈ w.stream.pendingFrom start :=
          List.mem_of_mem_drop (hrest ▸ List.mem_cons_self ..)
        have hpos := w.stream.pending_positive q (List.mem_filter.mp hq).1
        rw [hrest] at hnext
        have hq0 : page.1 = q.1 := hnext
        omega
  · intro id hid
    obtain ⟨p, hp, rfl⟩ := hbehind id hid
    obtain ⟨-, hlen⟩ := h p.1 (hstranded _ hid)
    rcases hrest : (w.stream.pendingFrom start).drop cfg.batch with - | ⟨q, rest⟩
    · rw [hrest] at hp
      cases hp
    · have hq : page.1 = q.1 := by
        rw [hrest] at hnext
        exact hnext
      have hfrom := RedisStream.pendingFrom_of_drop hrest
      constructor
      · rw [hrest, ← hfrom] at hp
        rw [hq]
        simpa using (List.mem_filter.mp hp).2
      · have hle := (hcalm.trans hdone.1).pendingFrom_length page.1
        have hdrop : ((w.stream.pendingFrom start).drop cfg.batch).length
            = (w.stream.pendingFrom page.1).length := by
          rw [hq, hfrom, hrest]
        rw [List.length_drop] at hdrop
        have hmul : (n + 1) * cfg.batch = n * cfg.batch + cfg.batch := Nat.succ_mul ..
        omega

theorem claimPages_safe (n start : Nat) (w : World σ) (h : Ahead cfg n start w) :
    CSafe cfg A (claimPages CommandConsumer.process n start) (fun _ w' => NoneStranded w') w := by
  induction n generalizing start w with
  | zero => exact h.noneStranded
  | succ n ih =>
      refine Prog.safe_bind.mpr (Prog.safe_call.mpr fun w₁ hrely x r w₂ hcond hp => ⟨trivial, ?_⟩)
      have hcalm : Calmer w₁ w₂ := perform_calmer cfg A (.xautoclaim start) (by simp) hp
      cases r with
      | error e =>
          exact error_noneStranded cfg A (.xautoclaim start) (by simp) (by simp) hcond.1 hp
      | ok page =>
          refine Prog.safe_bind.mpr ((handlePage_safe cfg A page.2 w₂).mono fun r w₃ hr => ?_)
          cases r with
          | error e => exact hr
          | ok _ =>
              have hnext : (page.2 = [] ∨ page.1 = 0 → NoneStranded w₃) ∧
                  Ahead cfg n page.1 w₃ := by
                rcases hcond.1 with hnone | ⟨hfault, hall⟩
                · have hnone' := (hcalm.trans hr.1).noneStranded hnone
                  exact ⟨fun _ => hnone', ahead_of_noneStranded cfg hnone'⟩
                · simp only [ConsumerOp.perform, hfault] at hp
                  split at hp
                  · cases hp
                  · rename_i hclaim
                    cases hp
                    exact (h.calmer cfg hrely.1).next cfg hclaim hall hcalm hr
              show CSafe cfg A (if page.2 = [] ∨ page.1 = 0 then .ret ()
                else claimPages CommandConsumer.process n page.1) _ w₃
              split
              · rename_i hend
                exact hnext.1 hend
              · exact ih page.1 w₃ hnext.2

/-! ### Start-up and rounds -/

theorem boot_safe {w : World σ} (h : Ahead cfg 1000 0 w) :
    CSafe cfg A CommandConsumer.boot (fun _ w' => NoneStranded w') w := by
  have hrecover : CSafe cfg A CommandConsumer.recover (fun _ w' => NoneStranded w') w := by
    refine calm_bind cfg A (by simp) (by simp) (fun _ w₁ h₁ => ?_) fun _ _ hw => hw
    refine calm_bind cfg A (by simp) (by simp) (fun _ w₂ h₂ => ?_) fun _ _ hw => hw
    refine calm_bind cfg A (by simp) (by simp) (fun _ w₃ h₃ => ?_) fun _ _ hw => hw
    refine calm_bind cfg A (by simp) (by simp) (fun _ w₄ h₄ => ?_) fun _ _ hw => hw
    exact claimPages_safe cfg A 1000 0 w₄
      (h.calmer cfg (((h₁.trans h₂).trans h₃).trans h₄))
  have henter : ∀ w', NoneStranded w' →
      CSafe cfg A (ConsumerOp.call .enterLoop) (fun _ w' => NoneStranded w') w' := by
    intro w' hw'
    exact calm_call cfg A (by simp) (by simp) (fun _ _ hcalm => hcalm.noneStranded hw')
      fun _ _ hw => hw
  refine Prog.safe_bind.mpr (Prog.safe_tryCatch.mpr (hrecover.mono fun r w' hw' => ?_))
  cases r with
  | ok _ => exact henter w' hw'
  | error e => exact henter w' hw'

theorem iterate_safe {w : World σ} (h : NoneStranded w) :
    CSafe cfg A CommandConsumer.iterate (fun _ w' => NoneStranded w') w := by
  have hbody : CSafe cfg A (do
      ConsumerOp.call (.chore .replayOutbox)
      ConsumerOp.call (.chore .reconcileStartedAttempts)
      let page : List (Nat × Option AgentCommand) ← ConsumerOp.call .xreadgroup
      handlePage CommandConsumer.process page) (fun _ w' => NoneStranded w') w := by
    refine calm_bind cfg A (by simp) (by simp) (fun _ w₁ h₁ => ?_) fun _ _ hw => hw
    refine calm_bind cfg A (by simp) (by simp) (fun _ w₂ h₂ => ?_) fun _ _ hw => hw
    have hnone := (h₁.trans h₂).noneStranded h
    refine Prog.safe_bind.mpr (Prog.safe_call.mpr fun w₃ hrely x r w₄ hcond hp => ⟨trivial, ?_⟩)
    have hnone₃ := hrely.1.noneStranded hnone
    simp only [ConsumerOp.perform] at hp
    split at hp
    · cases hp
      exact hnone₃
    · rename_i page stream hread
      obtain ⟨hpage, hpending⟩ := RedisStream.xreadgroup_page hread
      rcases Prog.withFault_cases hp with ⟨-, rfl, rfl⟩ | ⟨-, rfl, rfl⟩ | ⟨hfault, rfl, rfl⟩
      · -- the page is treated: what it added does not wait any more
        refine (handlePage_safe cfg A page _).mono fun r w₅ hr => ?_
        cases r with
        | error e => exact hr
        | ok _ =>
            obtain ⟨hcalm, hdone⟩ := hr
            refine noneStranded_iff.mpr fun id hid => ?_
            have hid' := hcalm.pending.subset hid.1
            rw [show ({ w₃ with stream := stream } : World σ).stream.pending
              = w₃.stream.pending ++ page.map fun y => (y.1, w₃.now) from hpending,
              List.map_append] at hid'
            rcases List.mem_append.mp hid' with hold | hnew
            · obtain ⟨p, hp', rfl⟩ := List.mem_map.mp hold
              rcases hnone₃ p hp' with hprocessed | hmine
              · exact hid.2.1 (hcalm.processed hprocessed)
              · exact hid.2.2 (hcalm.mine hmine)
            · obtain ⟨q, hq, rfl⟩ := List.mem_map.mp hnew
              obtain ⟨y, hy, rfl⟩ := List.mem_map.mp hq
              exact hdone y hy hid
      · exact hnone₃
      · have hnil : page = [] := hpage.trans (hcond.1 hfault)
        intro p hp'
        refine hnone₃ p ?_
        rw [hnil, List.map_nil, List.append_nil] at hpending
        exact hpending ▸ hp'
  refine Prog.safe_tryCatch.mpr (hbody.mono fun r w' hw' => ?_)
  cases r with
  | ok _ => exact hw'
  | error e => exact hw'

/-- The consumer in the runs that lose nothing. -/
def verified : Sys.Verified (spec cfg A crash) (lossless cfg) where
  Inv _ := True
  Idle _ w := w.looping = true → NoneStranded w
  rely _ := Rely
  guar _ _ _ := True
  rely_refl _ w := ⟨Calmer.refl w, rfl⟩
  rely_trans _ := Rely.trans
  env_step := by
    intro w m w' _ _ h
    obtain rfl : w.move m = w' := Option.some.inj h
    refine ⟨trivial, fun _ => ?_⟩
    cases m with
    | xadd b => exact ⟨⟨List.Sublist.refl _, fun _ hi => hi, fun _ hi => hi⟩, rfl⟩
    | trim n => exact ⟨⟨List.Sublist.refl _, fun _ hi => hi, fun _ hi => hi⟩, rfl⟩
    | delete => exact ⟨⟨List.nil_sublist _, fun _ hi => hi, fun _ hi => hi⟩, rfl⟩
    | tick dt => exact ⟨⟨List.Sublist.refl _, fun _ hi => hi, fun _ hi => hi⟩, rfl⟩
  launch_safe := by
    intro w _ _ p _ hidle hok h
    obtain rfl : (if w.looping then CommandConsumer.iterate else CommandConsumer.boot) = p :=
      Option.some.inj h
    by_cases hloop : w.looping
    · rw [if_pos hloop]
      exact (iterate_safe cfg A (hidle hloop)).mono fun _ _ hw _ => hw
    · rw [if_neg hloop]
      have hahead : Ahead cfg 1000 0 w := by
        rcases hok with hnone | hlen
        · exact ahead_of_noneStranded cfg hnone
        · refine fun id _ => ⟨Nat.zero_le id, Nat.le_trans ?_ hlen⟩
          exact List.length_filter_le _ _
      exact (boot_safe cfg A hahead).mono fun _ _ hw _ => hw
  guar_step _ _ _ _ _ := ⟨trivial, fun j hj => absurd (Subsingleton.elim j _) hj⟩
  idle_stable := by
    intro _ w w' hidle hrely hloop
    exact hrely.1.noneStranded (hidle (hrely.2 ▸ hloop))
  crash_step := by
    intro w _ _
    refine ⟨trivial, fun _ hloop => ?_⟩
    cases hloop

/-! ### Rounds without faults -/

/-- Between two rounds. -/
def LoopHead (s : State σ) : Prop := s.procs () = none ∧ s.world.looping = true

/-- Every pending entry that was not processed is given to `_process` by this
process, after finitely many rounds without faults. -/
def Redelivers (w : World σ) : Prop :=
  ∀ id, id ∈ w.stream.pending.map Prod.fst → id ∉ w.processed →
    ∃ n, ∀ (x : χ) (dts : List Nat), n ≤ dts.length →
      id ∈ (rounds cfg A CommandConsumer.iterate x w dts).mine

theorem perform_mine {op : Op} {x : ConsumerAnswer χ} {w w' : World σ}
    {r : Except ConsumerError op.Res} (h : op.perform cfg A x w = some (r, w')) :
    w.mine ⊆ w'.mine := by
  by_cases hop : op = .xreadgroup
  · subst hop
    simp only [ConsumerOp.perform] at h
    split at h
    · cases h
      exact fun _ hi => hi
    · refine Prog.withFault_rel (R := fun w w' : World σ => w.mine ⊆ w'.mine) ?_ ?_ h
      · exact fun _ hi => hi
      · exact fun _ hi => hi
  · exact (perform_calmer cfg A op hop h).mine

theorem round_mine (x : χ) (w : World σ) (dt : Nat) :
    w.mine ⊆ (round cfg A CommandConsumer.iterate x w dt).mine := by
  have hmoved : w.mine ⊆ (w.move (.tick dt)).mine := fun _ hi => hi
  simp only [round]
  split
  · rename_i r w' hexec
    refine fun _ hi => Prog.exec_rel (R := fun w w' : World σ => w.mine ⊆ w'.mine)
      (fun _ _ hi => hi) (fun h h' _ hi => h' (h hi)) (Prog.only_true _) ?_ hexec (hmoved hi)
    exact fun op w r w' _ h => perform_mine cfg A h
  · exact hmoved

theorem rounds_mine (x : χ) (w : World σ) (dts : List Nat) :
    w.mine ⊆ (rounds cfg A CommandConsumer.iterate x w dts).mine := by
  induction dts generalizing w with
  | nil => exact fun _ hi => hi
  | cons dt dts ih => exact fun _ hi => ih _ (round_mine cfg A x w dt hi)

/-- Where nothing is stranded, everything was given to `_process` already. -/
theorem NoneStranded.redelivers {w : World σ} (h : NoneStranded w) : Redelivers cfg A w := by
  intro id hid hprocessed
  refine ⟨0, fun x dts _ => rounds_mine cfg A x w dts ?_⟩
  obtain ⟨p, hp, rfl⟩ := List.mem_map.mp hid
  exact (h p hp).resolve_left hprocessed

/-- A pending entry that the consumer has not come across since. -/
structure Untouched (id : Nat) (w w' : World σ) : Prop where
  pending : id ∈ w'.stream.pending.map Prod.fst
  handed : id ∈ w'.handed ↔ id ∈ w.handed
  mine : id ∈ w'.mine ↔ id ∈ w.mine
  processed : id ∈ w'.processed ↔ id ∈ w.processed

theorem Untouched.refl {id : Nat} {w : World σ} (h : id ∈ w.stream.pending.map Prod.fst) :
    Untouched id w w := ⟨h, Iff.rfl, Iff.rfl, Iff.rfl⟩

theorem Untouched.trans {id : Nat} {w₁ w₂ w₃ : World σ} (h : Untouched id w₁ w₂)
    (h' : Untouched id w₂ w₃) : Untouched id w₁ w₃ :=
  ⟨h'.pending, h'.handed.trans h.handed, h'.mine.trans h.mine, h'.processed.trans h.processed⟩

theorem mem_append_singleton_of_ne {id i : Nat} {l : List Nat} (hne : id ≠ i) :
    id ∈ l ++ [i] ↔ id ∈ l := by simp [hne]

/-- Whether an operation may be about an entry that is pending. -/
def Concerns (id : Nat) : Op → Prop
  | .xack i | .hand i | .handle i _ => i = id
  | .xautoclaim _ => True
  | .ensureGroup | .xreadgroup | .chore _ | .enterLoop => False

/-- An operation leaves an entry alone that it is not about. -/
theorem perform_untouched (op : Op) {x : ConsumerAnswer χ} {w w' : World σ}
    {r : Except ConsumerError op.Res} {id : Nat} (hop : ¬ Concerns id op)
    (h : op.perform cfg A x w = some (r, w')) (hw : id ∈ w.stream.pending.map Prod.fst) :
    Untouched id w w' := by
  have hfault : ∀ {α : Type} {r : α} {r' : Except ConsumerError α} {w₁ : World σ}
      {e : ConsumerError}, Untouched id w w₁ → Prog.withFault x.fault e w r w₁ = some (r', w') →
      Untouched id w w' := fun hmove h' =>
    Prog.withFault_rel (R := Untouched id) (Untouched.refl hw) hmove h'
  cases op with
  | ensureGroup =>
      refine hfault ?_ h
      refine ⟨?_, Iff.rfl, Iff.rfl, Iff.rfl⟩
      rw [RedisStream.pending_ensureGroup]
      exact hw
  | xautoclaim start => exact absurd trivial hop
  | xreadgroup =>
      simp only [ConsumerOp.perform] at h
      split at h
      · cases h
        exact Untouched.refl hw
      · rename_i page stream hread
        refine hfault ?_ h
        refine ⟨?_, Iff.rfl, Iff.rfl, Iff.rfl⟩
        rw [(RedisStream.xreadgroup_page hread).2, List.map_append]
        exact List.mem_append_left _ hw
  | xack i =>
      refine hfault ?_ h
      refine ⟨?_, Iff.rfl, Iff.rfl, Iff.rfl⟩
      obtain ⟨p, hp, rfl⟩ := List.mem_map.mp hw
      have hne : p.1 ≠ i := fun heq => hop heq.symm
      rw [RedisStream.pending_xack]
      exact List.mem_map.mpr ⟨p, List.mem_filter.mpr ⟨hp, by simpa using hne⟩, rfl⟩
  | hand i =>
      cases h
      have hne : id ≠ i := fun heq => hop heq.symm
      exact ⟨hw, mem_append_singleton_of_ne hne, mem_append_singleton_of_ne hne, Iff.rfl⟩
  | handle i b =>
      have hne : id ≠ i := fun heq => hop heq.symm
      simp only [ConsumerOp.perform] at h
      split at h
      · cases h
        exact ⟨hw, Iff.rfl, Iff.rfl, mem_append_singleton_of_ne hne⟩
      · cases h
        exact ⟨hw, Iff.rfl, Iff.rfl, Iff.rfl⟩
  | chore c =>
      refine hfault ?_ h
      exact ⟨hw, Iff.rfl, Iff.rfl, Iff.rfl⟩
  | enterLoop =>
      cases h
      exact ⟨hw, Iff.rfl, Iff.rfl, Iff.rfl⟩

/-- A part of the consumer, run alone. -/
abbrev Alone {α : Type} (p : ConsumerProg (Option AgentCommand) α)
    (Q : Except ConsumerError α → World σ → Prop) (w : World σ) : Prop :=
  p.Safe { perform := ConsumerOp.perform cfg A } Prog.Contract.alone Q w

/-- The rule of an operation that leaves an entry alone. -/
theorem alone_call (op : Op) {id : Nat} {w₀ w : World σ} (hop : ¬ Concerns id op)
    (hw : Untouched id w₀ w) :
    Alone cfg A (ConsumerOp.call op) (fun _ w' => Untouched id w₀ w') w := by
  refine Prog.safe_call.mpr ?_
  rintro _ rfl x r w₂ - hp
  exact ⟨trivial, hw.trans (perform_untouched cfg A op hop hp hw.pending)⟩

theorem alone_bind {α β : Type} {p : ConsumerProg (Option AgentCommand) α}
    {f : α → ConsumerProg (Option AgentCommand) β} {Q : World σ → Prop} {w : World σ}
    (hp : Alone cfg A p (fun _ => Q) w) (hf : ∀ a w', Q w' → Alone cfg A (f a) (fun _ => Q) w') :
    Alone cfg A (p.bind f) (fun _ => Q) w := by
  refine Prog.safe_bind.mpr (hp.mono fun r w' hw' => ?_)
  cases r with
  | ok a => exact hf a w' hw'
  | error e => exact hw'

theorem process_alone {id i : Nat} (hne : i ≠ id) (b : Option AgentCommand) {w₀ w : World σ}
    (hw : Untouched id w₀ w) :
    Alone cfg A (CommandConsumer.process i b) (fun _ w' => Untouched id w₀ w') w := by
  have hack : ∀ w', Untouched id w₀ w' →
      Alone cfg A (ConsumerOp.call (.xack i)) (fun _ w' => Untouched id w₀ w') w' := fun w' hw' =>
    alone_call cfg A (.xack i) hne hw'
  cases b with
  | none => exact hack w hw
  | some cmd =>
      refine Prog.safe_tryFinally.mpr (Prog.safe_tryCatch.mpr ?_)
      refine (alone_call cfg A (.handle i (some cmd)) hne hw).mono fun r w' hw' => ?_
      have hfinally : Prog.finallyPost { perform := ConsumerOp.perform cfg A } Prog.Contract.alone
          (ConsumerOp.call (.xack i)) (fun _ w' => Untouched id w₀ w') (.ok ()) w' := by
        refine (hack w' hw').mono fun r' w'' hw'' => ?_
        cases r' with
        | ok _ => exact hw''
        | error e => exact hw''
      cases r with
      | ok _ => exact hfinally
      | error e => exact hfinally

theorem handlePage_alone {id : Nat} (page : List (Nat × Option AgentCommand))
    (hpage : ∀ y ∈ page, y.1 ≠ id) {w₀ w : World σ} (hw : Untouched id w₀ w) :
    Alone cfg A (handlePage CommandConsumer.process page)
      (fun _ w' => Untouched id w₀ w') w := by
  induction page generalizing w with
  | nil => exact hw
  | cons y rest ih =>
      have hy : y.1 ≠ id := hpage y (List.mem_cons_self ..)
      refine alone_bind cfg A (alone_call cfg A (.hand y.1) hy hw) fun _ w₁ hw₁ => ?_
      refine alone_bind cfg A (process_alone cfg A hy y.2 hw₁) fun _ w₂ hw₂ => ?_
      exact ih (fun z hz => hpage z (List.mem_cons_of_mem _ hz)) hw₂

/-- One round does not come across what is pending. -/
theorem iterate_alone {id : Nat} {w₀ w : World σ} (hw : Untouched id w₀ w) :
    Alone cfg A CommandConsumer.iterate (fun _ w' => Untouched id w₀ w') w := by
  have hbody : Alone cfg A (do
      ConsumerOp.call (.chore .replayOutbox)
      ConsumerOp.call (.chore .reconcileStartedAttempts)
      let page : List (Nat × Option AgentCommand) ← ConsumerOp.call .xreadgroup
      handlePage CommandConsumer.process page) (fun _ w' => Untouched id w₀ w') w := by
    refine alone_bind cfg A (alone_call cfg A (.chore .replayOutbox) not_false hw)
      fun _ w₁ hw₁ => ?_
    refine alone_bind cfg A (alone_call cfg A (.chore .reconcileStartedAttempts) not_false hw₁)
      fun _ w₂ hw₂ => ?_
    refine Prog.safe_bind.mpr (Prog.safe_call.mpr ?_)
    rintro _ rfl x r w₃ - hp
    have hw₃ := hw₂.trans (perform_untouched cfg A .xreadgroup not_false hp hw₂.pending)
    refine ⟨trivial, ?_⟩
    cases r with
    | error e => exact hw₃
    | ok page =>
        refine handlePage_alone cfg A page (fun y hy => ?_) hw₃
        -- a read hands out what comes after everything pending
        simp only [ConsumerOp.perform] at hp
        split at hp
        · cases hp
        · rename_i page' stream hread
          obtain ⟨hpage, -⟩ := RedisStream.xreadgroup_page hread
          rcases Prog.withFault_cases hp with ⟨-, heq, -⟩ | ⟨-, heq, -⟩ | ⟨-, heq, -⟩
          · cases heq
            obtain ⟨p, hpend, rfl⟩ := List.mem_map.mp hw₂.pending
            rw [hpage] at hy
            exact Nat.ne_of_gt (RedisStream.pending_lt_nextPage hpend hy)
          · cases heq
          · cases heq
  refine Prog.safe_tryCatch.mpr (hbody.mono fun r w' hw' => ?_)
  cases r with
  | ok _ => exact hw'
  | error e => exact hw'

/-- No number of rounds comes across an entry that is pending. -/
theorem rounds_untouched (x : χ) {id : Nat} (dts : List Nat) {w : World σ}
    (hw : id ∈ w.stream.pending.map Prod.fst) :
    Untouched id w (rounds cfg A CommandConsumer.iterate x w dts) := by
  induction dts generalizing w with
  | nil => exact Untouched.refl hw
  | cons dt dts ih =>
      have hmoved : Untouched id w (w.move (.tick dt)) := ⟨hw, Iff.rfl, Iff.rfl, Iff.rfl⟩
      have hround : Untouched id w (round cfg A CommandConsumer.iterate x w dt) := by
        simp only [round]
        split
        · rename_i r w' hexec
          exact (iterate_alone cfg A hmoved).exec_alone hexec
        · exact hmoved
      exact hround.trans (ih hround.pending)

/-- A stranded entry stays stranded: no number of rounds brings it back. -/
theorem Stranded.not_redelivers {w : World σ} {id : Nat} (h : Stranded w id) (x : χ) :
    ¬ Redelivers cfg A w := by
  intro hall
  obtain ⟨n, hn⟩ := hall id h.1 h.2.1
  have hmine := hn x (List.replicate n 0) (List.length_replicate ..).ge
  exact h.2.2 ((rounds_untouched cfg A x (List.replicate n 0) h.1).mine.mp hmine)

/-! ### Runs -/

instance (w : World σ) : Decidable (NoneStranded w) :=
  inferInstanceAs (Decidable (∀ p ∈ w.stream.pending, p.1 ∈ w.processed ∨ p.1 ∈ w.mine))

instance (w : World σ) (id : Nat) : Decidable (Stranded w id) :=
  inferInstanceAs (Decidable (_ ∧ _ ∧ _))

instance (w : World σ) (start : Nat) : Decidable (Claimable cfg w start) :=
  inferInstanceAs (Decidable (∀ p ∈ w.stream.pendingFrom start,
    (w.stream.lookup p.1).isSome ∧ cfg.pendingIdleMs ≤ w.now - p.2))

instance (op : Op) (x : ConsumerAnswer χ) (w : World σ) :
    Decidable ((lossless cfg).op op x w) :=
  match op with
  | .xack _ => inferInstanceAs (Decidable (_ ∨ _))
  | .xreadgroup => inferInstanceAs (Decidable (_ → _))
  | .xautoclaim _ => inferInstanceAs (Decidable (_ ∨ _))
  | .ensureGroup => inferInstanceAs (Decidable (_ ∨ _))
  | .chore _ => inferInstanceAs (Decidable (_ ∨ _))
  | .hand _ | .handle _ _ | .enterLoop => .isTrue trivial

instance (w : World σ) (i : Unit) (inp : Unit) :
    Decidable ((lossless (σ := σ) (χ := χ) cfg).launch w i inp) :=
  inferInstanceAs (Decidable (_ ∨ _))

instance (w : World σ) (m : InboxMove (Option AgentCommand)) :
    Decidable ((lossless (χ := χ) cfg).env w m) := .isTrue trivial

instance (w : World σ) : Decidable ((lossless (χ := χ) cfg).crash w) := .isTrue trivial

def sampleConfig : ConsumerConfig where
  batch := 2
  batch_pos := Nat.zero_lt_two
  pendingIdleMs := 60000

/-- A handler that does nothing. -/
def sampleModel : AppModel (Option AgentCommand) Unit Unit where
  handle _ _ _ _ := (true, ())
  chore _ _ _ := ()

def sampleCommand (e : ExecutionId) : AgentCommand where
  commandId := e
  type := .stopLogs
  agentId := 1
  taskId := 3
  executionId := e

/-- Two commands wait for an agent that starts. -/
def sampleStart : State Unit where
  world :=
    { stream := (RedisStream.empty.xadd (some (sampleCommand 7))).xadd (some (sampleCommand 8))
      now := 0
      app := ()
      handed := []
      mine := []
      processed := []
      looping := false }
  procs _ := none

/-- The next `n` operations of the consumer succeed. -/
def steps (n : Nat) : List (Step Unit) := List.replicate n (.op () fun _ => { app := () })

/-- The next operation takes effect, but its answer is lost. -/
def lostReply : Step Unit := .op () fun _ => { fault := .after, app := () }

/-! ### Nothing delivered is lost -/

/-- **Nothing delivered is lost.**  In every lossless run, whenever the consumer
is between two rounds, what is pending and not processed is given to `_process`
without another restart. -/
theorem owed_are_handed {s s' : State σ} (hidle : s.procs () = none)
    (hstart : s.world.looping = false)
    (hrun : RunOk (Sys.step (spec cfg A crash)) (lossless cfg).Holds s s') (hhead : LoopHead s') :
    Redelivers cfg A s'.world := by
  have hgood : (verified cfg A crash).Good s := by
    refine ⟨trivial, fun i => ?_⟩
    rw [show s.procs i = none from hidle]
    intro hloop
    rw [hstart] at hloop
    cases hloop
  obtain ⟨-, hprocs⟩ := (verified cfg A crash).run hrun hgood
  have hproc := hprocs ()
  rw [hhead.1] at hproc
  exact (hproc hhead.2).redelivers cfg A

/-- A run with a crash inside a batch and a lost answer to an `XACK`, in which
every command comes to be processed. -/
theorem owed_are_handed_sample :
    ∃ s' : State Unit, Redelivers sampleConfig sampleModel s'.world ∧
      s'.world.processed = [1, 2, 3] := by
  obtain ⟨s', hrun, hs'⟩ := RunOk.exists_of_checkedRun
    (Sys.step (spec sampleConfig sampleModel id)) (lossless sampleConfig).Holds sampleStart
    (.start () () :: steps 6 ++ .start () () :: steps 6
      ++ [.crash, .env (.tick 60000), .start () ()] ++ steps 9
      ++ [.env (.xadd (some (sampleCommand 9))), .start () ()] ++ steps 5 ++ [lostReply])
    (fun s' : State Unit => (s'.procs ()).isNone && s'.world.looping &&
      decide (s'.world.processed = [1, 2, 3])) (by decide)
  simp only [Bool.and_eq_true, Option.isNone_iff_eq_none, decide_eq_true_eq] at hs'
  obtain ⟨⟨hidle, hloop⟩, hprocessed⟩ := hs'
  exact ⟨s', owed_are_handed _ _ _ rfl rfl hrun ⟨hidle, hloop⟩, hprocessed⟩

/-- **One failing `XACK` strands an entry.**  Two commands are read in one batch;
the answer to the `XACK` of the first is lost, and the second is left behind
although the consumer goes on. -/
theorem owed_stranded_by_xack :
    ¬ ∀ (cfg : ConsumerConfig) (A : AppModel (Option AgentCommand) Unit Unit)
      (s s' : State Unit), s.procs () = none → s.world.looping = false →
      Run (Sys.step (spec cfg A id)) s s' → LoopHead s' → Redelivers cfg A s'.world := by
  intro hclaim
  obtain ⟨s', hrun, hs'⟩ := RunOk.exists_of_checkedRun
    (Sys.step (spec sampleConfig sampleModel id)) (fun _ _ => True) sampleStart
    (.start () () :: steps 6 ++ .start () () :: steps 5 ++ [lostReply])
    (fun s' : State Unit => (s'.procs ()).isNone && s'.world.looping &&
      decide (Stranded s'.world 2)) (by decide)
  simp only [Bool.and_eq_true, Option.isNone_iff_eq_none, decide_eq_true_eq] at hs'
  obtain ⟨⟨hidle, hloop⟩, hstranded⟩ := hs'
  exact hstranded.not_redelivers sampleConfig sampleModel ()
    (hclaim _ _ _ s' rfl rfl hrun ⟨hidle, hloop⟩)

end CommandLoop

end Dopilot
