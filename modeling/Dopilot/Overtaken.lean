/-
Dopilot/Overtaken.lean

A marker that is overtaken.

Two executions share the bucket.  One has come to its cap and owes its marker, the
other has content, and a tick brings one token.  The marker, whose turn comes first,
finds the bucket too low and is passed over; the content takes the token.  So the
next tick finds what this one found (`publishOnce_drains`), and this goes on for as
long as the neighbour has content: for ever, if its cursor cannot be read
(`exists_waiting`), and else until it has come to its own cap (`exists_faultless`).
-/
import Dopilot.PublishTurns

namespace Dopilot

open StateMachine

namespace PublishTurns

/-! ### A talkative neighbour -/

/-- The conditions of `presupposed`, and no operation of any execution fails. -/
def faultless (cfg : PublisherConfig) (e : ExecutionId) (ids : List ExecutionId) :
    Sys.Cond Unit LogOp (fun _ => LogAnswer) Watched LogAgent Nat where
  env _ a := scanned a = ids
  launch _ _ fuel := 2 * cfg.rate < fuel
  op op x w := Presupposed cfg e w op x ∧ x.fault = .none
  crash _ := False

section Talkative

/-- Execution 1 owes its marker, execution 2 all its content, and the bucket is dry. -/
def talkative (cfg : PublisherConfig) : State where
  world :=
    { agent :=
        { store := (Table.empty.insert 1 (tailed 1)).insert 2 (tailed 2)
          jobLogs := fun _ => List.replicate cfg.contentCap 97
          cursors := fun e => if e = 1 then some cfg.contentCap else some 0
          stream := []
          memory := { tokens := 0, lastRefill := 0, rotateFrom := 0, eofSent := [] } }
      waiting := 0
      passed := false
      unfollowed := false }
  procs _ := none

/-- The clock of a tick, and how the cursor file of execution 2 is read. -/
def answers (fault : Prog.Fault) (now : Rat) : LogOp → LogAnswer
  | .readCursor 2 => { fault := fault, now := now }
  | _ => { now := now }

/-- Execution 1 has waited for `k` ticks, and execution 2 has sent `c` bytes. -/
structure Drained (cfg : PublisherConfig) (k c : Nat) (t : Rat) (tokens : Nat) (w : Watched) :
    Prop where
  store : w.agent.store = (talkative cfg).world.agent.store
  jobLogs : w.agent.jobLogs = (talkative cfg).world.agent.jobLogs
  own : w.agent.cursors 1 = some cfg.contentCap
  other : w.agent.cursors 2 = some c
  tokens : w.agent.memory.tokens = tokens
  lastRefill : w.agent.memory.lastRefill = t
  rotateFrom : w.agent.memory.rotateFrom = 0
  eofSent : w.agent.memory.eofSent = []
  waiting : w.waiting = k
  unfollowed : w.unfollowed = false

variable {cfg : PublisherConfig} {fault : Prog.Fault} {k c tokens : Nat} {t now : Rat}
variable {w w' : Watched} {α : Type}

theorem Drained.owes (hcap : 0 < cfg.cap) (h : Drained cfg k c t tokens w) :
    owes cfg 1 w.agent = true := by
  have htail : tailable 1 w.agent = true := by
    rw [tailable, h.store]
    rfl
  have hat : atCap cfg (cursorOf 1 w.agent) = true := by
    rw [cursorOf, h.own]
    exact decide_eq_true ⟨hcap, Nat.le_refl _⟩
  rw [PublishTurns.owes, owesMarker, htail, hat]
  rfl

abbrev Drains (cfg : PublisherConfig) (fault : Prog.Fault) (now : Rat) (p : LogProg α)
    (Q : Except LogIoError α → Watched → Prop) (w : Watched) : Prop :=
  p.Reaches (spec cfg 1).iface (fun op w => Presupposed cfg 1 w op (answers fault now op))
    (answers fault now) Q w

/-- Execution 1 goes on owing its marker. -/
theorem Drained.perform_eq (hcap : 0 < cfg.cap) {op : LogOp} {x : LogAnswer} {v : op.Res}
    {a : LogAgent} (h : Drained cfg k c t tokens (w.record cfg 1 op true a))
    (hp : perform cfg op x w.agent = some (.ok v, a)) :
    (spec cfg 1).iface.perform op x w = some (.ok v, w.record cfg 1 op true a) := by
  have hsettle : (w.record cfg 1 op true a).settle cfg 1 = w.record cfg 1 op true a :=
    if_pos (h.owes hcap)
  show (perform cfg op x w.agent).map _ = _
  rw [hp, Option.map_some]
  exact congrArg (fun w' => some (Except.ok v, w')) hsettle

/-- The rule of an operation that is performed. -/
theorem drains_call (hcap : 0 < cfg.cap) (op : LogOp) (v : op.Res) {a : LogAgent}
    {f : op.Res → LogProg α} {Q : Except LogIoError α → Watched → Prop} {k' c' n' : Nat}
    {t' : Rat} (hpre : Presupposed cfg 1 w op (answers fault now op))
    (hp : perform cfg op (answers fault now op) w.agent = some (.ok v, a))
    (hnext : Drained cfg k' c' t' n' (w.record cfg 1 op true a))
    (h : ∀ w', Drained cfg k' c' t' n' w' → Drains cfg fault now (f v) Q w') :
    Drains cfg fault now (LogOp.call op >>= f) Q w :=
  ⟨hpre, .ok v, w.record cfg 1 op true a, hnext.perform_eq hcap hp, h _ hnext⟩

theorem drains_ask (hcap : 0 < cfg.cap) (op : LogOp) (v : op.Res) {a : LogAgent}
    {f : Except LogIoError op.Res → LogProg α} {Q : Except LogIoError α → Watched → Prop}
    {k' c' n' : Nat} {t' : Rat} (hpre : Presupposed cfg 1 w op (answers fault now op))
    (hp : perform cfg op (answers fault now op) w.agent = some (.ok v, a))
    (hnext : Drained cfg k' c' t' n' (w.record cfg 1 op true a))
    (h : ∀ w', Drained cfg k' c' t' n' w' → Drains cfg fault now (f (.ok v)) Q w') :
    Drains cfg fault now (LogOp.ask op >>= f) Q w :=
  ⟨hpre, .ok v, w.record cfg 1 op true a, hnext.perform_eq hcap hp, h _ hnext⟩

theorem Drained.allowance (hrate : 0 < cfg.rate) (h : Drained cfg k c t tokens w) :
    w.agent.memory.allowance cfg = tokens := by
  have hcast : ((tokens : Int) : Rat) = tokens := Int.cast_natCast tokens
  rw [PublisherMemory.allowance, if_neg (Nat.ne_of_gt hrate), h.tokens, ← hcast,
    Rat.floor_intCast, Int.toNat_natCast]

/-- The publisher looks at its bucket, which holds `n` tokens. -/
theorem drains_allowance (hrate : 0 < cfg.rate) (hcap : 0 < cfg.cap) {n : Nat} {f : Nat → LogProg α}
    {Q : Except LogIoError α → Watched → Prop} (hw : Drained cfg k c t n w)
    (h : ∀ w', Drained cfg k c t n w' → Drains cfg fault now (f n) Q w') :
    Drains cfg fault now (LogOp.call .allowance >>= f) Q w := by
  refine drains_call hcap .allowance n trivial ?_ hw h
  show some (Except.ok (w.agent.memory.allowance cfg), w.agent) = _
  rw [hw.allowance hrate]
  rfl

theorem Drained.perform_readState (h : Drained cfg k c t tokens w) {e : ExecutionId}
    (he : (talkative cfg).world.agent.store.read e = some (tailed e)) :
    perform cfg (.readState e) (answers fault now (.readState e)) w.agent
      = some (.ok (some (tailed e) : Option AttemptState), w.agent) := by
  show some (Except.ok (w.agent.store.read e), w.agent) = _
  rw [h.store, he]
  rfl

/-- That the turn of execution 1 has come is noted. -/
theorem Drained.noted (h : Drained cfg k c t tokens w) :
    Drained cfg k c t tokens (w.record cfg 1 (.readCursor 1) true w.agent) := by
  simp only [Watched.record]
  split
  · exact ⟨h.store, h.jobLogs, h.own, h.other, h.tokens, h.lastRefill, h.rotateFrom, h.eofSent,
      h.waiting, h.unfollowed⟩
  · exact h

/-- An entry of execution 2 is none of execution 1. -/
theorem Drained.sent (h : Drained cfg k c t tokens w) {ev : AgentLogEvent}
    (hev : ev.executionId ≠ 1) {stream : List AgentLogEvent} : Drained cfg k c t tokens
      (w.record cfg 1 (.xadd ev) true { w.agent with stream := stream }) := by
  have hrecord : w.record cfg 1 (.xadd ev) true { w.agent with stream := stream }
      = { w with agent := { w.agent with stream := stream } } :=
    if_neg fun hall => hev hall.2.1
  rw [hrecord]
  exact ⟨h.store, h.jobLogs, h.own, h.other, h.tokens, h.lastRefill, h.rotateFrom, h.eofSent,
    h.waiting, h.unfollowed⟩

theorem Drained.written (h : Drained cfg k c t tokens w) (offset : Nat) :
    Drained cfg k offset t tokens (w.record cfg 1 (.writeCursor 2 offset) true
      { w.agent with cursors := Function.update w.agent.cursors 2 (some offset) }) := by
  have hother : Function.update w.agent.cursors 2 (some offset) 2 = some offset :=
    Function.update_self _ _ _
  refine ⟨h.store, h.jobLogs, ?_, hother, h.tokens, h.lastRefill,
    h.rotateFrom, h.eofSent, h.waiting, h.unfollowed⟩
  show Function.update w.agent.cursors 2 (some offset) 1 = some cfg.contentCap
  rw [Function.update_of_ne (by decide)]
  exact h.own

theorem Drained.spent (hrate : 0 < cfg.rate) (h : Drained cfg k c t 1 w) :
    Drained cfg k c t 0 (w.record cfg 1 (.spend 1) true
      { w.agent with memory := w.agent.memory.spend cfg 1 }) := by
  have hspend : w.agent.memory.spend cfg 1
      = { w.agent.memory with tokens := max 0 (w.agent.memory.tokens - (1 : Nat)) } :=
    if_neg (Nat.ne_of_gt hrate)
  rw [hspend]
  refine ⟨h.store, h.jobLogs, h.own, h.other, ?_, h.lastRefill, h.rotateFrom, h.eofSent,
    h.waiting, h.unfollowed⟩
  show max 0 (w.agent.memory.tokens - (1 : Nat)) = (0 : Nat)
  rw [h.tokens, sub_self, max_self, Nat.cast_zero]

/-- A tick begins with one token. -/
theorem Drained.refilled (hrate : 0 < cfg.rate) (h : Drained cfg k c t 0 w) :
    Drained cfg (k + 1) c (t + 1 / cfg.rate) 1 (w.record cfg 1 .refill true
      { w.agent with memory := w.agent.memory.refill cfg (t + 1 / cfg.rate) }) := by
  have hpos : (0 : Rat) < cfg.rate := Nat.cast_pos.mpr hrate
  have htokens : min cfg.bucketCapacity (w.agent.memory.tokens
      + max 0 (t + 1 / cfg.rate - w.agent.memory.lastRefill) * cfg.rate) = (1 : Nat) := by
    have hone : (1 : Rat) ≤ cfg.rate := by exact_mod_cast hrate
    rw [h.tokens, h.lastRefill, add_sub_cancel_left, max_eq_right (one_div_pos.mpr hpos).le,
      one_div_mul_cancel hpos.ne', Nat.cast_zero, zero_add, Nat.cast_one,
      PublisherConfig.bucketCapacity]
    refine min_eq_right ?_
    linarith
  have hrefill : w.agent.memory.refill cfg (t + 1 / cfg.rate)
      = { w.agent.memory with
          lastRefill := t + 1 / cfg.rate
          tokens := min cfg.bucketCapacity (w.agent.memory.tokens
            + max 0 (t + 1 / cfg.rate - w.agent.memory.lastRefill) * cfg.rate) } :=
    if_neg (Nat.ne_of_gt hrate)
  rw [hrefill]
  refine ⟨h.store, h.jobLogs, h.own, h.other, htokens, rfl, h.rotateFrom, h.eofSent, ?_,
    h.unfollowed⟩
  show w.waiting + 1 = k + 1
  rw [h.waiting]

theorem Drained.rotated (h : Drained cfg k c t tokens w) : Drained cfg k c t tokens
    (w.record cfg 1 (.setRotateFrom 0) true
      { w.agent with memory := { w.agent.memory with rotateFrom := 0 } }) :=
  ⟨h.store, h.jobLogs, h.own, h.other, h.tokens, h.lastRefill, rfl, h.eofSent, h.waiting,
    h.unfollowed⟩

theorem drains_exit (hcap : 0 < cfg.cap) (h : Drained cfg k c t tokens w) {e : ExecutionId}
    {cursor total : Nat} : Drains cfg fault now (do
      publishEof cfg (tailed e) e cursor
      return total) (fun r w' => Drained cfg k c t tokens w' ∧ r = .ok total) w := by
  refine Prog.Reaches.bind (?_ : Drains cfg fault now (publishEof cfg (tailed e) e cursor) _ w)
  refine drains_call hcap (.eofSent e) false trivial ?_ h fun w₁ h₁ => ⟨h₁, rfl⟩
  show some (Except.ok (w.agent.memory.eofSent.contains e), w.agent) = _
  rw [h.eofSent]
  rfl

/-- Execution 1 is passed over. -/
theorem drains_own (hrate : 0 < cfg.rate) (hcap : 0 < cfg.cap) (h : Drained cfg k c t 1 w)
    (fuel : Nat) : Drains cfg fault now (publishAttempt cfg (fuel + 1) 1)
      (fun r w' => Drained cfg k c t 1 w' ∧ r = .ok 0) w := by
  refine drains_call hcap (.readState 1) (some (tailed 1)) trivial (h.perform_readState rfl) h
    fun w₁ h₁ => ?_
  refine drains_call hcap (.readCursor 1) cfg.contentCap (fun _ => rfl) ?_ h₁.noted
    fun w₂ h₂ => ?_
  · show some (Except.ok ((w₁.agent.cursors 1).getD 0), w₁.agent) = _
    rw [h₁.own]
    rfl
  refine Prog.Reaches.bind
    (?_ : Drains cfg fault now (tailLoop cfg 1 (fuel + 1) (tailed 1) cfg.contentCap 0) _ w₂)
  refine drains_allowance hrate hcap h₂ fun w₃ h₃ => ?_
  have hshort : cfg.markerAllowed 1 cfg.marker.length = false := by
    have hmarker := cfg.one_lt_marker_length
    rw [PublisherConfig.markerAllowed, beq_eq_false_iff_ne.mpr (Nat.ne_of_gt hrate),
      Bool.false_or, decide_eq_false (Nat.not_le_of_lt hmarker)]
  rw [if_neg Nat.one_ne_zero, if_pos ⟨hcap, Nat.le_refl _⟩, if_pos hshort]
  exact drains_exit hcap h₃

/-- What the cursor file of execution 2 is read as. -/
def readAs (fault : Prog.Fault) (c : Nat) : Nat := if fault = .none then c else 0

/-- Execution 2 sends a byte, and leaves nothing. -/
theorem drains_other (hrate : 0 < cfg.rate) (hmax : 0 < cfg.maxBytes) (hcap : 0 < cfg.cap)
    (h : Drained cfg k c t 1 w) (hc : readAs fault c < cfg.contentCap) (fuel : Nat) :
    Drains cfg fault now (publishAttempt cfg (fuel + 2) 2)
      (fun r w' => Drained cfg k (readAs fault c + 1) t 0 w' ∧ r = .ok 1) w := by
  refine drains_call hcap (.readState 2) (some (tailed 2)) trivial (h.perform_readState rfl) h
    fun w₁ h₁ => ?_
  refine drains_call hcap (.readCursor 2) (readAs fault c) (fun hown => absurd hown (by decide)) ?_
    h₁ fun w₂ h₂ => ?_
  · show some (Except.ok (w₁.agent.readCursor 2 fault), w₁.agent) = _
    rw [LogAgent.readCursor, h₁.other]
    rfl
  generalize readAs fault c = cursor at hc ⊢
  refine Prog.Reaches.bind
    (?_ : Drains cfg fault now (tailLoop cfg 2 (fuel + 2) (tailed 2) cursor 0) _ w₂)
  refine drains_allowance hrate hcap h₂ fun w₃ h₃ => ?_
  have hroom : ¬ (0 < cfg.cap ∧ cfg.contentCap ≤ cursor) := fun hat => Nat.not_le_of_lt hc hat.2
  have hwant : cfg.want 1 cursor = 1 := by
    unfold PublisherConfig.want
    dsimp only
    rw [if_pos hcap]
    omega
  rw [if_neg Nat.one_ne_zero, if_neg hroom, hwant]
  refine drains_call hcap (.readRaw 2 cursor 1) ([97] : Bytes)
    (fun hown => absurd hown (by decide)) ?_ h₃ fun w₄ h₄ => ?_
  · have hraw : (w₃.agent.jobLogs 2).drop cursor
        = 97 :: List.replicate (cfg.contentCap - cursor - 1) 97 := by
      rw [h₃.jobLogs]
      show (List.replicate cfg.contentCap 97).drop cursor = _
      rw [List.drop_replicate, ← List.replicate_succ]
      congr 1
      omega
    show some (Except.ok (((w₃.agent.jobLogs 2).drop cursor).take 1), w₃.agent) = _
    rw [hraw]
    rfl
  rw [if_neg (List.cons_ne_nil _ _)]
  have hother : (sliceEvent cfg (tailed 2) 2 cursor [97]).executionId ≠ 1 := by
    show (2 : Nat) ≠ 1
    decide
  refine drains_ask hcap (.xadd _) () (fun _ => rfl) rfl (h₄.sent hother) fun w₅ h₅ => ?_
  refine drains_call hcap (.writeCursor 2 (cursor + 1)) () trivial rfl (h₅.written _)
    fun w₆ h₆ => ?_
  refine drains_call hcap (.spend 1) () trivial rfl (h₆.spent hrate) fun w₇ h₇ => ?_
  rw [if_neg (show ¬ ([97] : Bytes).length < 1 from Nat.lt_irrefl 1)]
  refine drains_allowance hrate hcap h₇ fun w₈ h₈ => ?_
  rw [if_pos rfl]
  exact drains_exit hcap h₈

/-- **A tick** in which execution 1 sends nothing, and which leaves the bucket dry. -/
theorem publishOnce_drains (hrate : 0 < cfg.rate) (hmax : 0 < cfg.maxBytes) (hcap : 0 < cfg.cap)
    (h : Drained cfg k c t 0 w) (hc : readAs fault c < cfg.contentCap) (fuel : Nat) :
    Drains cfg fault (t + 1 / cfg.rate) (publishOnce cfg (fuel + 2))
      (fun _ w' => Drained cfg (k + 1) (readAs fault c + 1) (t + 1 / cfg.rate) 0 w') w := by
  have hgain : Presupposed cfg 1 w .refill (answers fault (t + 1 / cfg.rate) .refill) := by
    have hpos : (0 : Rat) < cfg.rate := Nat.cast_pos.mpr hrate
    show 1 ≤ (t + 1 / cfg.rate - w.agent.memory.lastRefill) * cfg.rate
    rw [h.lastRefill, add_sub_cancel_left, one_div_mul_cancel hpos.ne']
  refine drains_call hcap .refill () hgain rfl (h.refilled hrate) fun w₁ h₁ => ?_
  refine drains_call hcap .listExecutionIds [1, 2] trivial ?_ h₁ fun w₂ h₂ => ?_
  · show some (Except.ok (w₁.agent.store.listExecutionIds.insertionSort (· ≤ ·)), w₁.agent) = _
    rw [h₁.store]
    rfl
  rw [if_neg (List.cons_ne_nil _ _)]
  refine drains_call hcap .rotateFrom (0 : Nat) trivial ?_ h₂ fun w₃ h₃ => ?_
  · show some (Except.ok w₂.agent.memory.rotateFrom, w₂.agent) = _
    rw [h₂.rotateFrom]
    rfl
  refine Prog.Reaches.bind
    (?_ : Drains cfg fault (t + 1 / cfg.rate) (publishScan cfg (fuel + 2) 0 2 [1, 2] 0 0) _ w₃)
  refine drains_allowance hrate hcap h₃ fun w₄ h₄ => ?_
  rw [if_neg Nat.one_ne_zero]
  refine Prog.Reaches.bind (Prog.Reaches.tryCatch ((drains_own hrate hcap h₄ _).mono ?_))
  rintro _ w₅ ⟨h₅, rfl⟩
  refine drains_allowance hrate hcap h₅ fun w₆ h₆ => ?_
  rw [if_neg Nat.one_ne_zero]
  refine Prog.Reaches.bind (Prog.Reaches.tryCatch ((drains_other hrate hmax hcap h₆ hc _).mono ?_))
  rintro _ w₇ ⟨h₇, rfl⟩
  exact drains_call hcap (.setRotateFrom 0) () trivial rfl h₇.rotated fun w₈ h₈ => h₈

/-- **Execution 1 starves**, by induction on the ticks: as long as execution 2 has a byte to
send in each of them. -/
theorem exists_drained (K : Sys.Cond Unit LogOp (fun _ => LogAnswer) Watched LogAgent Nat)
    (fault : Prog.Fault) (hrate : 0 < cfg.rate) (hmax : 0 < cfg.maxBytes) (hcap : 0 < cfg.cap)
    (hlaunch : ∀ w fuel, 2 * cfg.rate < fuel → K.launch w () fuel)
    (hop : ∀ now op w, Presupposed cfg 1 w op (answers fault now op) →
      K.op op (answers fault now op) w)
    (hroom : ∀ c, c < k → readAs fault c < cfg.contentCap) :
    ∃ s' c t, RunOk (Sys.step (spec cfg 1)) K.Holds (talkative cfg) s' ∧ s'.procs () = none ∧
      c ≤ k ∧ Drained cfg k c t 0 s'.world := by
  induction k with
  | zero =>
      exact ⟨talkative cfg, 0, 0, RunOk.refl _, rfl, Nat.le_refl _,
        ⟨rfl, rfl, rfl, rfl, rfl, rfl, rfl, rfl, rfl, rfl⟩⟩
  | succ k ih =>
      obtain ⟨s, c, t, hrun, hidle, hc, h⟩ := ih fun c hc => hroom c (Nat.lt_succ_of_lt hc)
      have hbyte := hroom c (Nat.lt_succ_of_le hc)
      have hfuel : 2 * cfg.rate < 2 * cfg.rate + 2 := by omega
      obtain ⟨r, w', h', hmore⟩ := Sys.run_program (K := K) hidle rfl (hlaunch _ _ hfuel)
        ((publishOnce_drains hrate hmax hcap h hbyte _).weaken (hop _))
      refine ⟨_, readAs fault c + 1, _, Relation.ReflTransGen.trans hrun hmore, hidle, ?_, h'⟩
      have hle : readAs fault c ≤ c := by
        unfold readAs
        split
        · exact Nat.le_refl c
        · exact Nat.zero_le c
      omega

theorem talkative_start (cfg : PublisherConfig) : Start cfg [1, 2] (talkative cfg) :=
  ⟨rfl, rfl, ⟨le_refl _, mul_nonneg (by norm_num) (Nat.cast_nonneg _)⟩, rfl, rfl, rfl⟩

/-- A neighbour whose cursor is never read starves the execution for as long as one likes. -/
theorem exists_waiting (cfg : PublisherConfig) (hrate : 0 < cfg.rate) (hmax : 0 < cfg.maxBytes)
    (hcontent : 0 < cfg.contentCap) (k : Nat) :
    ∃ s', RunOk (Sys.step (spec cfg 1)) (presupposed cfg 1 [1, 2]).Holds (talkative cfg) s' ∧
      s'.world.waiting = k := by
  have hcap : 0 < cfg.cap := Nat.lt_of_lt_of_le hcontent (Nat.sub_le _ _)
  obtain ⟨s', c, t, hrun, -, -, h⟩ := exists_drained (presupposed cfg 1 [1, 2])
    .before (k := k) hrate hmax hcap (fun _ _ hfuel => hfuel) (fun _ _ _ hpre => hpre)
    fun _ _ => hcontent
  exact ⟨s', hrun, h.waiting⟩

/-- Where nothing fails, the neighbour's content is all that ends it. -/
theorem exists_faultless (cfg : PublisherConfig) (hrate : 0 < cfg.rate) (hmax : 0 < cfg.maxBytes)
    (hcap : 0 < cfg.cap) :
    ∃ s', RunOk (Sys.step (spec cfg 1)) (faultless cfg 1 [1, 2]).Holds (talkative cfg) s' ∧
      s'.world.waiting = cfg.contentCap := by
  have hnone : ∀ now op, (answers .none now op).fault = .none := by
    intro now op
    unfold answers
    split
    · rfl
    · rfl
  obtain ⟨s', c, t, hrun, -, -, h⟩ := exists_drained (faultless cfg 1 [1, 2])
    .none (k := cfg.contentCap) hrate hmax hcap (fun _ _ hfuel => hfuel)
    (fun now op _ hpre => ⟨hpre, hnone now op⟩) fun _ hc => hc
  exact ⟨s', hrun, h.waiting⟩

/-- The smallest rate a publisher with a marker of 55 bytes accepts. -/
def slowConfig : PublisherConfig where
  agentId := 1
  maxBytes := 100
  cap := 999
  rate := 28

/-- **The ticks that a marker waits for have no bound**, and without any failure they are
more than executions and bytes of the marker together. -/
theorem waiting_unbounded :
    (¬ ∃ bound : Nat → Nat → Nat, ∀ (cfg : PublisherConfig) (e : ExecutionId)
      (ids : List ExecutionId) (s s' : State), 0 < cfg.rate → cfg.marker.length ≤ 2 * cfg.rate →
      0 < cfg.maxBytes → e ∈ ids → Start cfg ids s →
      RunOk (Sys.step (spec cfg e)) (presupposed cfg e ids).Holds s s' →
      s'.world.waiting ≤ bound ids.length cfg.marker.length) ∧
    ∃ s', RunOk (Sys.step (spec slowConfig 1)) (faultless slowConfig 1 [1, 2]).Holds
      (talkative slowConfig) s' ∧ 2 + slowConfig.marker.length < s'.world.waiting := by
  have hmarker : slowConfig.marker.length = 55 := by decide +kernel
  have hcontent : slowConfig.contentCap = 944 := by decide +kernel
  refine ⟨?_, ?_⟩
  · rintro ⟨bound, hbound⟩
    obtain ⟨s', hrun, hwaiting⟩ := exists_waiting slowConfig (by decide) (by decide)
      (hcontent ▸ by decide) (bound 2 slowConfig.marker.length + 1)
    have hle := hbound slowConfig 1 [1, 2] (talkative slowConfig) s' (by decide)
      (hmarker ▸ by decide) (by decide) List.mem_cons_self (talkative_start slowConfig) hrun
    rw [hwaiting] at hle
    exact Nat.not_succ_le_self _ hle
  · obtain ⟨s', hrun, hwaiting⟩ := exists_faultless slowConfig (by decide) (by decide)
      (by decide)
    refine ⟨s', hrun, ?_⟩
    rw [hwaiting, hmarker, hcontent]
    decide

end Talkative

end PublishTurns

end Dopilot
