/-
Dopilot/Rounds.lean

A round of the agent's loop, attempt by attempt.

A round replays the events that were not delivered, passes over all attempts
and reads the new commands, and all of it stands under one handler: the first
attempt whose turn raises ends the round.  `roundLog` is the same round with a
record of how far it came (`round_eq`), and `Serves` says that every attempt but
the failing ones had its turn and that the commands were read.

The result is that a loop whose failing attempts fail in every round serves the
others exactly in the rounds that list no failing attempt (`served_iff`).  What
other processes do meanwhile does not matter: the contract is the one that
assumes nothing.
-/
import Dopilot.AgentCommands

namespace Prog

variable {Op : Type} {Res : Op → Type} {ε α β γ : Type}

/-! ### Handlers around a sequence -/

theorem bind_assoc (p : Prog Op Res ε α) (f : α → Prog Op Res ε β) (g : β → Prog Op Res ε γ) :
    (p.bind f).bind g = p.bind fun a => (f a).bind g := by
  induction p with
  | ret a => rfl
  | raise e => rfl
  | act op k ih =>
      show act op _ = act op _
      congr 1
      funext r
      exact ih r

theorem bind_ret (p : Prog Op Res ε α) : p.bind ret = p := by
  induction p with
  | ret a => rfl
  | raise e => rfl
  | act op k ih =>
      show act op _ = act op _
      congr 1
      funext r
      exact ih r

/-- **A handler around a sequence** looks at how its first part ended. -/
theorem bind_tryCatch (p : Prog Op Res ε α) (f : α → Prog Op Res ε β)
    (h : ε → Prog Op Res ε β) :
    (p.bind f).tryCatch h = p.attempt.bind fun r => match r with
      | .ok a => (f a).tryCatch h
      | .error e => h e := by
  induction p with
  | ret a => rfl
  | raise e => rfl
  | act op k ih =>
      show act op _ = act op _
      congr 1
      funext r
      exact ih r

variable {Ans : Op → Type} {W : Type} {F : Interface Op Res Ans ε W}

/-- The contract that assumes nothing of the others and promises them nothing. -/
def Contract.anything : Contract Op Ans W where
  ok _ _ _ := True
  rely _ _ := True
  guar _ _ := True
  rely_trans _ _ := trivial

/-- A program keeps the contract that promises nothing. -/
theorem safe_anything (p : Prog Op Res ε α) {Q : Except ε α → W → Prop}
    (h : ∀ r w, Q r w) (w : W) : p.Safe F Contract.anything Q w := by
  induction p generalizing w with
  | ret a => exact h _ _
  | raise e => exact h _ _
  | act op k ih =>
      intro w₁ _ x r w₂ _ _
      exact ⟨trivial, ih r w₂⟩

end Prog

namespace Dopilot

open AgentOp (call)

namespace Rounds

/-! ### The round -/

/-- The loop of `drain_once` over the entries that were read. -/
def processPage (cfg : AgentConfig) : List AgentCommand → AgentProg Unit
  | [] => return ()
  | cmd :: rest => do
      processCommand cfg cmd
      processPage cfg rest

/-- `drain_once`, of what the read answers. -/
def drainOnce (cfg : AgentConfig) : Except AgentError (List AgentCommand) → AgentProg Unit
  | .error err => throw err
  | .ok page => processPage cfg page

/-- One round of `_run`. -/
def round (cfg : AgentConfig) (read : Except AgentError (List AgentCommand)) : AgentProg Unit :=
  Prog.tryCatch
    (do
      replayOutbox cfg
      reconcileStartedAttempts cfg
      drainOnce cfg read)
    fun _ => return ()

/-- Without commands, a round is a tick. -/
theorem round_nil (cfg : AgentConfig) : round cfg (.ok []) = agentTick cfg := by
  show Prog.tryCatch (Prog.bind _ fun _ => Prog.bind _ fun _ => Prog.ret ()) _ = _
  have hunit : ∀ p : AgentProg Unit, (p.bind fun _ => Prog.ret ()) = p := Prog.bind_ret
  rw [hunit]
  rfl

/-! ### The record of a round -/

/-- How far a round came. -/
structure Round where
  /-- What the read of commands answers. -/
  read : Except AgentError (List AgentCommand)
  /-- The replay and the list of the state files raised nothing. -/
  opened : Bool := false
  listed : List ExecutionId := []
  /-- The attempts that had their turn, and how it ended. -/
  handled : List (ExecutionId × Except AgentError Unit) := []
  /-- How `drain_once` ended, if the round came to it. -/
  drained : Option (Except AgentError Unit) := none

/-- The pass over the attempts, with its record. -/
def passLog (cfg : AgentConfig) :
    List ExecutionId → AgentProg (List (ExecutionId × Except AgentError Unit))
  | [] => return []
  | e :: rest => do
      match ← (reconcileAttempt cfg e).attempt with
      | .error err => return [(e, .error err)]
      | .ok _ =>
          let log ← passLog cfg rest
          return (e, .ok ()) :: log

/-- Every turn of the record ended well. -/
def AllWell (log : List (ExecutionId × Except AgentError Unit)) : Bool := log.all (·.2.isOk)

/-- A round, with its record. -/
def roundLog (cfg : AgentConfig) (read : Except AgentError (List AgentCommand)) :
    AgentProg Round := do
  match ← (replayOutbox cfg).attempt with
  | .error _ => return { read := read }
  | .ok _ =>
      match ← (call .listExecutionIds).attempt with
      | .error _ => return { read := read }
      | .ok (ids : List ExecutionId) =>
          let log ← passLog cfg ids
          if AllWell log then
            let drained ← (drainOnce cfg read).attempt
            return { read := read, opened := true, listed := ids, handled := log,
                     drained := some drained }
          else return { read := read, opened := true, listed := ids, handled := log }

/-- The rounds of the loop, one for each read. -/
def roundsLog (cfg : AgentConfig) : List (Except AgentError (List AgentCommand)) →
    AgentProg (List Round)
  | [] => return []
  | read :: reads => do
      let x ← roundLog cfg read
      let xs ← roundsLog cfg reads
      return x :: xs

/-- A pass under a handler, with its record. -/
theorem reconcileAttempts_tryCatch (cfg : AgentConfig) (ids : List ExecutionId)
    (p : AgentProg Unit) :
    ((reconcileAttempts cfg ids).bind fun _ => p).tryCatch (fun _ => .ret ()) =
      (passLog cfg ids).bind fun log =>
        if AllWell log then p.tryCatch fun _ => .ret () else .ret () := by
  induction ids with
  | nil => rfl
  | cons e rest ih =>
      show (Prog.bind (Prog.bind (reconcileAttempt cfg e) fun _ => reconcileAttempts cfg rest)
        fun _ => p).tryCatch _ = _
      rw [Prog.bind_assoc, Prog.bind_tryCatch]
      show _ = Prog.bind (Prog.bind (reconcileAttempt cfg e).attempt _) _
      rw [Prog.bind_assoc]
      congr 1
      funext r
      cases r with
      | error err => rfl
      | ok u =>
          show Prog.tryCatch _ _ = Prog.bind (Prog.bind (passLog cfg rest) _) _
          rw [ih, Prog.bind_assoc]
          rfl

/-- **The record changes nothing.** -/
theorem round_eq (cfg : AgentConfig) (read : Except AgentError (List AgentCommand)) :
    round cfg read = (roundLog cfg read).bind fun _ => .ret () := by
  show Prog.tryCatch (Prog.bind (replayOutbox cfg) fun _ =>
    Prog.bind (Prog.bind (call .listExecutionIds) fun ids => reconcileAttempts cfg ids) fun _ =>
      drainOnce cfg read) (fun _ => .ret ()) = Prog.bind (Prog.bind _ _) _
  rw [Prog.bind_assoc, Prog.bind_tryCatch, Prog.bind_assoc]
  refine congrArg (Prog.bind _) (funext fun r => ?_)
  cases r with
  | error err => rfl
  | ok u =>
      show Prog.tryCatch _ _ = Prog.bind (Prog.bind (call .listExecutionIds).attempt _) _
      rw [Prog.bind_tryCatch, Prog.bind_assoc]
      refine congrArg (Prog.bind _) (funext fun r => ?_)
      cases r with
      | error err => rfl
      | ok ids =>
          show Prog.tryCatch _ _ = Prog.bind (Prog.bind (passLog cfg ids) _) _
          rw [reconcileAttempts_tryCatch, Prog.bind_assoc]
          congr 1
          funext log
          by_cases hwell : AllWell log = true
          · rw [if_pos hwell, if_pos hwell]
            show _ = Prog.bind (Prog.bind _ _) _
            have hdrain := Prog.bind_tryCatch (drainOnce cfg read) (fun _ => Prog.ret ())
              (fun _ : AgentError => Prog.ret ())
            have hunit : ∀ p : AgentProg Unit, (p.bind fun _ => Prog.ret ()) = p := Prog.bind_ret
            rw [hunit] at hdrain
            rw [hdrain, Prog.bind_assoc]
            congr 1
            funext r
            cases r with
            | error err => rfl
            | ok u => rfl
          · rw [if_neg hwell, if_neg hwell]
            rfl

/-! ### Attempts that fail -/

/-- The attempts of `bad` fail whenever they have their turn, and no others do. -/
def Round.Fails (x : Round) (bad : Set ExecutionId) : Prop :=
  ∀ y ∈ x.handled, y.2 = .ok () ↔ y.1 ∉ bad

/-- How `drain_once` ends: a page that was read is processed to its end. -/
def Round.settled (x : Round) : Except AgentError Unit := x.read.map fun _ => ()

/-- Every attempt with a state file that does not fail had its turn, and the
commands were read and processed. -/
structure Round.Serves (x : Round) (bad : Set ExecutionId) : Prop where
  others : ∀ e ∈ x.listed, e ∉ bad → (e, .ok ()) ∈ x.handled
  commands : x.drained = some x.settled

/-- How the pass over some attempts can go: all have their turn, or the last one
that has raises. -/
inductive Passed : List ExecutionId → List (ExecutionId × Except AgentError Unit) → Prop
  | nil : Passed [] []
  | ok {e : ExecutionId} {rest log} (h : Passed rest log) : Passed (e :: rest) ((e, .ok ()) :: log)
  | error {e : ExecutionId} {rest} (err : AgentError) : Passed (e :: rest) [(e, .error err)]

/-- What is true of the record of a round. -/
structure Round.Wf (x : Round) : Prop where
  handled : Passed x.listed x.handled
  drained : x.drained = if x.opened && AllWell x.handled then some x.settled else none

section Facts

variable {cfg : AgentConfig} {x : Round} {bad : Set ExecutionId}
variable {ids : List ExecutionId} {log : List (ExecutionId × Except AgentError Unit)}

/-- If all turns end well, all attempts had theirs. -/
theorem Passed.mem (h : Passed ids log) (hwell : AllWell log = true) :
    ∀ e ∈ ids, (e, .ok ()) ∈ log := by
  induction h with
  | nil =>
      intro e he
      cases he
  | @ok e rest log h ih =>
      intro e' he'
      have hrest : AllWell log = true := hwell
      rcases List.mem_cons.mp he' with rfl | he'
      · exact List.mem_cons_self
      · exact List.mem_cons_of_mem _ (ih hrest e' he')
  | error err => cases hwell

/-- If not, one of them raised. -/
theorem Passed.failed (h : Passed ids log) (hwell : AllWell log = false) :
    ∃ e ∈ ids, ∃ err, (e, .error err) ∈ log := by
  induction h with
  | nil => cases hwell
  | @ok e rest log h ih =>
      have hrest : AllWell log = false := hwell
      obtain ⟨e', he', err, hmem⟩ := ih hrest
      exact ⟨e', List.mem_cons_of_mem _ he', err, List.mem_cons_of_mem _ hmem⟩
  | @error e rest err => exact ⟨e, List.mem_cons_self, err, List.mem_cons_self⟩

/-- **A round serves the others** exactly if nothing raised before the pass and
no failing attempt is listed. -/
theorem Round.Wf.serves_iff (h : x.Wf) (hbad : x.Fails bad) :
    x.Serves bad ↔ x.opened = true ∧ ∀ e ∈ x.listed, e ∉ bad := by
  constructor
  · intro hserves
    have hdrained : (x.opened && AllWell x.handled) = true := by
      by_contra hnot
      have hnone := h.drained
      rw [if_neg hnot, hserves.commands] at hnone
      cases hnone
    obtain ⟨hopened, hwell⟩ := Bool.and_eq_true_iff.mp hdrained
    exact ⟨hopened, fun e he => (hbad _ (h.handled.mem hwell e he)).mp rfl⟩
  · rintro ⟨hopened, hgood⟩
    have hwell : AllWell x.handled = true := by
      by_contra hfailed
      obtain ⟨e, he, err, hmem⟩ := h.handled.failed (by simpa using hfailed)
      have hok : (Except.error err : Except AgentError Unit) = .ok () :=
        (hbad _ hmem).mpr (hgood e he)
      cases hok
    refine ⟨fun e he _ => h.handled.mem hwell e he, ?_⟩
    rw [h.drained, hopened, hwell]
    rfl

/-! ### Every run of the loop -/

/-- Run by the agent, with anything going on beside it. -/
abbrev Free (cfg : AgentConfig) {α : Type} (p : AgentProg α)
    (Q : Except AgentError α → AgentWorld → Prop) (w : AgentWorld) : Prop :=
  p.Safe { perform := AgentOp.perform cfg } Prog.Contract.anything Q w

theorem passLog_free (w : AgentWorld) :
    Free cfg (passLog cfg ids) (fun r _ => ∃ log, r = .ok log ∧ Passed ids log) w := by
  induction ids generalizing w with
  | nil => exact ⟨[], rfl, .nil⟩
  | cons e rest ih =>
      apply Prog.safe_bind.mpr
      apply Prog.safe_attempt.mpr
      apply Prog.safe_anything
      intro r w₁
      cases r with
      | error err => exact ⟨_, rfl, .error err⟩
      | ok u =>
          apply Prog.safe_bind.mpr
          apply (ih w₁).mono
          rintro r w₂ ⟨log, rfl, hpassed⟩
          exact ⟨_, rfl, .ok hpassed⟩

/-- A command never raises, whatever its handler does. -/
theorem processCommand_free (cmd : AgentCommand) (w : AgentWorld) :
    Free cfg (processCommand cfg cmd) (fun r _ => r = .ok ()) w := by
  have hfinish : ∀ w, Free cfg (call (.finish cmd)) (fun r _ => r = .ok ()) w := by
    intro w w₁ _ x r w₂ _ hp
    cases hp
    exact ⟨trivial, rfl⟩
  intro w₁ _ x r w₂ _ hp
  refine ⟨trivial, ?_⟩
  simp only [AgentOp.perform] at hp
  split at hp
  · cases hp
    apply Prog.safe_tryFinally.mpr
    apply Prog.safe_tryCatch.mpr
    apply Prog.safe_anything
    intro r w₃
    have hend : Prog.finallyPost { perform := AgentOp.perform cfg } Prog.Contract.anything
        (call (.finish cmd)) (fun r _ => r = .ok ()) (.ok ()) w₃ := by
      apply (hfinish w₃).mono
      rintro r w₄ rfl
      rfl
    cases r with
    | error err => exact hend
    | ok u => exact hend
  · cases hp

theorem drainOnce_free (read : Except AgentError (List AgentCommand)) (w : AgentWorld) :
    Free cfg (drainOnce cfg read) (fun r _ => r = read.map fun _ => ()) w := by
  cases read with
  | error err => rfl
  | ok page =>
      show Free cfg (processPage cfg page) (fun r _ => r = .ok ()) w
      induction page generalizing w with
      | nil => rfl
      | cons cmd rest ih =>
          apply Prog.safe_bind.mpr
          apply (processCommand_free cmd w).mono
          rintro r w₁ rfl
          exact ih w₁

theorem roundLog_free (read : Except AgentError (List AgentCommand)) (w : AgentWorld) :
    Free cfg (roundLog cfg read) (fun r _ => ∃ x, r = .ok x ∧ x.Wf) w := by
  have hclosed : Round.Wf { read := read } := ⟨.nil, rfl⟩
  apply Prog.safe_bind.mpr
  apply Prog.safe_attempt.mpr
  apply Prog.safe_anything
  intro r w₁
  cases r with
  | error err => exact ⟨_, rfl, hclosed⟩
  | ok u =>
      apply Prog.safe_bind.mpr
      apply Prog.safe_attempt.mpr
      apply Prog.safe_anything
      intro r w₂
      cases r with
      | error err => exact ⟨_, rfl, hclosed⟩
      | ok ids =>
          apply Prog.safe_bind.mpr
          apply (passLog_free w₂).mono
          rintro r w₃ ⟨log, rfl, hpassed⟩
          show Prog.Safe _ _ (if AllWell log then _ else _) _ w₃
          by_cases hwell : AllWell log = true
          · rw [if_pos hwell]
            apply Prog.safe_bind.mpr
            apply Prog.safe_attempt.mpr
            apply (drainOnce_free read w₃).mono
            rintro r w₄ rfl
            refine ⟨_, rfl, hpassed, ?_⟩
            show _ = if (true && AllWell log) = true then _ else _
            rw [hwell]
            rfl
          · rw [if_neg hwell]
            refine ⟨_, rfl, hpassed, ?_⟩
            show none = if (true && AllWell log) = true then _ else _
            rw [Bool.eq_false_of_not_eq_true hwell]
            rfl

/-- Every round of the loop has a record as it should be. -/
theorem roundsLog_free (reads : List (Except AgentError (List AgentCommand))) (w : AgentWorld) :
    Free cfg (roundsLog cfg reads) (fun r _ => ∃ xs, r = .ok xs ∧ ∀ x ∈ xs, Round.Wf x) w := by
  induction reads generalizing w with
  | nil => exact ⟨[], rfl, fun x hx => by cases hx⟩
  | cons read reads ih =>
      apply Prog.safe_bind.mpr
      apply (roundLog_free read w).mono
      rintro r w₁ ⟨x, rfl, hx⟩
      apply Prog.safe_bind.mpr
      apply (ih w₁).mono
      rintro r w₂ ⟨xs, rfl, hxs⟩
      refine ⟨_, rfl, fun y hy => ?_⟩
      rcases List.mem_cons.mp hy with rfl | hy
      · exact hx
      · exact hxs y hy

/-- **The rounds that serve everybody.**  Let the attempts of `bad` fail in every
round in which they have their turn, and no others.  Then every round of the loop
gives all others their turn and processes the commands if and only if no round fails
before its pass and none lists an attempt of `bad`. -/
theorem served_iff (cfg : AgentConfig) (reads : List (Except AgentError (List AgentCommand)))
    (bad : Set ExecutionId) (w : AgentWorld) :
    Free cfg (roundsLog cfg reads) (fun r _ => ∀ xs, r = .ok xs →
      (∀ x ∈ xs, x.Fails bad) → ((∀ x ∈ xs, x.Serves bad) ↔
        ∀ x ∈ xs, x.opened = true ∧ ∀ e ∈ x.listed, e ∉ bad)) w := by
  apply (roundsLog_free reads w).mono
  rintro r w' ⟨xs, rfl, hwf⟩ xs' hxs hbad
  obtain rfl := Except.ok.inj hxs
  exact forall₂_congr fun x hx => (hwf x hx).serves_iff (hbad x hx)

end Facts

/-! ### A log that cannot be cut -/

def sampleConfig : AgentConfig where
  agentId := 1
  eventOutbox := true
  maxOutboxFiles := 0
  artifactCache := false
  wheelCache := false
  wheelRunner := false
  maxJobLogBytes := 10
  floodKillAfter := 60
  stopKillAfter := 60
  stopConfirmTimeout := 600
  killRetryInterval := 60
  cachePolls := 1
  parseScrapyCommand := fun _ => .error []

/-- A started attempt with job `e`. -/
def sampleAttempt (e : ExecutionId) (logPath : String) : AttemptState where
  taskId := 7
  executionId := e
  scrapydJobId := some e
  project := "p"
  logPath := logPath

/-- Two jobs are running. -/
def sampleWorld : AgentWorld :=
  { AgentWorld.empty with
    store := ((AgentWorld.empty.store.insert 1 (sampleAttempt 1 "one.log")).insert 2
      (sampleAttempt 2 "two.log"))
    running := true }

/-- Scrapyd lists both jobs; the first log is over the cap, and cannot be cut. -/
def sampleAnswers : AgentOp → AgentAnswer
  | .listjobs .. => { jobs := { running := [1, 2] } }
  | .logSize path => { size := some (if path = "one.log" then 20 else 5) }
  | .truncateLog _ => { error := some .os }
  | _ => {}

/-- The same, and both logs are small. -/
def sampleCalm : AgentOp → AgentAnswer
  | .listjobs .. => { jobs := { running := [1, 2] } }
  | .logSize _ => { size := some 5 }
  | _ => {}

/-- What the loop records when nothing moves beside it. -/
def recorded (answers : AgentOp → AgentAnswer)
    (reads : List (Except AgentError (List AgentCommand))) : Option (List Round) :=
  ((roundsLog sampleConfig reads).exec (Agent.spec sampleConfig fun _ => .scrapy).iface answers
    sampleWorld).bind fun r => r.1.toOption

/-- A record of this run is a record of a run of the loop. -/
theorem free_recorded {answers : AgentOp → AgentAnswer}
    {reads : List (Except AgentError (List AgentCommand))} {xs : List Round}
    {Q : Except AgentError (List Round) → AgentWorld → Prop}
    (h : Free sampleConfig (roundsLog sampleConfig reads) Q sampleWorld)
    (hxs : recorded answers reads = some xs) : ∃ w, Q (.ok xs) w := by
  obtain ⟨⟨r, w⟩, hexec, hr⟩ := Option.bind_eq_some_iff.mp hxs
  refine ⟨w, ?_⟩
  cases r with
  | error err => cases hr
  | ok ys =>
      obtain rfl := Option.some.inj hr
      exact h.exec (fun _ => trivial) (fun _ _ => trivial) hexec

/-- Attempt 1 raises in every round; attempt 2 never has its turn. -/
theorem not_served : ¬ ∀ cfg reads bad w, Free cfg (roundsLog cfg reads) (fun r _ => ∀ xs,
    r = .ok xs → (∀ x ∈ xs, x.Fails bad) → ∀ x ∈ xs, x.opened = true → x.Serves bad) w := by
  intro h
  have hrec : (recorded sampleAnswers [.ok [], .ok []]).any (fun xs : List Round =>
      decide (xs ≠ [] ∧ ∀ x ∈ xs, x.opened = true ∧ x.drained.isSome = false ∧
        ∀ y ∈ x.handled, y.1 = 1 ∧ y.2.isOk = false)) = true := by
    decide +kernel
  cases hxs : recorded sampleAnswers [.ok [], .ok []] with
  | none =>
      rw [hxs] at hrec
      cases hrec
  | some xs =>
      rw [hxs] at hrec
      obtain ⟨hne, hall⟩ := of_decide_eq_true hrec
      obtain ⟨w, hserved⟩ := free_recorded (h sampleConfig _ {1} sampleWorld) hxs
      obtain ⟨x, hx⟩ := List.exists_mem_of_ne_nil xs hne
      have hfails : ∀ x ∈ xs, x.Fails {1} := by
        intro x hx y hy
        obtain ⟨hone, hraised⟩ := (hall x hx).2.2 y hy
        constructor
        · intro hok
          rw [hok] at hraised
          cases hraised
        · intro hgood
          exact absurd hone hgood
      have hcommands := (hserved xs rfl hfails x hx (hall x hx).1).commands
      have hnone := (hall x hx).2.1
      rw [hcommands] at hnone
      cases hnone

/-- Where nothing raises, both attempts have their turn in each round. -/
theorem served_iff_sample : ∃ xs, recorded sampleCalm [.ok [], .ok []] = some xs ∧
    (∃ x ∈ xs, x.listed = [1, 2]) ∧ ∀ x ∈ xs, x.Serves ∅ := by
  have hrec : (recorded sampleCalm [.ok [], .ok []]).any (fun xs : List Round =>
      decide ((∃ x ∈ xs, x.listed = [1, 2]) ∧ ∀ x ∈ xs, x.opened = true ∧
        ∀ y ∈ x.handled, y.2.isOk = true)) = true := by
    decide +kernel
  cases hxs : recorded sampleCalm [.ok [], .ok []] with
  | none =>
      rw [hxs] at hrec
      cases hrec
  | some xs =>
      rw [hxs] at hrec
      obtain ⟨hlisted, hall⟩ := of_decide_eq_true hrec
      obtain ⟨w, hiff⟩ := free_recorded
        (served_iff sampleConfig [.ok [], .ok []] ∅ sampleWorld) hxs
      have hfails : ∀ x ∈ xs, x.Fails ∅ := by
        intro x hx y hy
        have hwell := (hall x hx).2 y hy
        rcases hy2 : y.2 with err | u
        · rw [hy2] at hwell
          cases hwell
        · exact ⟨fun _ => id, fun _ => rfl⟩
      exact ⟨xs, rfl, hlisted,
        (hiff xs rfl hfails).mpr fun x hx => ⟨(hall x hx).1, fun _ _ => id⟩⟩

end Rounds

end Dopilot
