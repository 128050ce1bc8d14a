/-
Dopilot/EggCache.lean

The cache of Scrapy eggs of an agent, and the eviction of the janitor.

`ensure` fetches an egg, checks it, gives it to scrapyd and marks it as ready.
Of the calls for one content, and the janitor that evicts it, one at a time
works: who does has created the lock file of the content, and removes it when
it is done.  The mark stands for the content alone, though scrapyd knows an egg
by its project and version, and the lock file of an agent that crashed stays.

Calls and janitor take turns at every file they look at, which is more often
than they do on the event loop.  What the files of a content are beside the egg,
the mark and the lock (the temporary file of one call) is left out.
-/
import Dopilot.Protocol
import Dopilot.StateMachine
import Dopilot.Table
import Mathlib.Logic.Function.Basic

namespace Dopilot

namespace EggCache

/-! ### The cache -/

/-- What scrapyd knows an egg by. -/
structure Target where
  project : String
  version : String
  deriving DecidableEq, Repr

/-- What a run command says about its egg. -/
structure Artifact where
  sha256 : String
  target : Target
  deriving DecidableEq, Repr

/-- The artifact has a hash, a project and a version. -/
def Artifact.complete (a : Artifact) : Bool :=
  a.sha256 != "" && a.target.project != "" && a.target.version != ""

/-- The files of one content. -/
structure Cell where
  egg : Option Bytes := none
  ready : Bool := false
  lock : Bool := false
  /-- For what the mark was made, which no file says. -/
  markedFor : Option Target := none

/-- Where a call of `ensure` stands. -/
inductive Phase where
  /-- Before the look at the mark that precedes the loop. -/
  | arrived
  | looping
  | locking
  /-- The lock is held. -/
  | holding
  | fetching
  | reading
  | deploying (egg : Bytes)
  | marking
  | releasing (done : Bool)
  | returned
  | raised
  deriving DecidableEq, Repr

/-- The lock file is that of the call. -/
def Phase.holds : Phase → Bool
  | .holding | .fetching | .reading | .deploying _ | .marking | .releasing _ => true
  | .arrived | .looping | .locking | .returned | .raised => false

/-- The call is over. -/
def Phase.over : Phase → Bool
  | .returned | .raised => true
  | _ => false

structure Call where
  artifact : Artifact
  phase : Phase

/-- Where `_evict_locked` stands; it holds the lock. -/
inductive EvictPhase where
  | locked
  /-- The egg is removed, the mark is next. -/
  | eggDone
  | done
  deriving DecidableEq, Repr

abbrev CallId := Nat

structure World where
  cells : String → Cell := fun _ => {}
  /-- What scrapyd was given. -/
  given : List (Target × Bytes) := []
  calls : Table CallId Call := .empty
  janitor : Option (String × EvictPhase) := none

def start : World := {}

/-- What a call does next. -/
inductive CallStep where
  | look
  /-- `_try_lock`, and if there is a lock, the look at the clock. -/
  | tryLock (late : Bool)
  | openEgg
  /-- The server has answered with a content, or not. -/
  | fetched (answer : Option Bytes)
  | readEgg
  /-- `addversion`: whether the egg arrives, and whether scrapyd says so. -/
  | deploy (arrives confirmed : Bool)
  | mark
  | unlock
  /-- An exception, or the call is cancelled. -/
  | fail

/-- What the janitor does next. -/
inductive EvictStep where
  | lock (sha256 : String)
  /-- The content is referenced. -/
  | skip
  | removeEgg (ok : Bool)
  | removeReady (ok : Bool)
  | unlock

inductive Action where
  | call (i : CallId) (artifact : Artifact)
  | stepCall (i : CallId) (a : CallStep)
  | evict (a : EvictStep)
  /-- The agent dies and starts anew. -/
  | crash

/-! ### Steps -/

def World.setCell (w : World) (sha256 : String) (f : Cell → Cell) : World :=
  { w with cells := Function.update w.cells sha256 (f (w.cells sha256)) }

/-- The call goes on. -/
def World.goto (w : World) (i : CallId) (phase : Phase) : World :=
  { w with calls := w.calls.modify i fun c => { c with phase := phase } }

/-- `ensure` and `_fetch_verify_deploy`, one file or one answer at a time. -/
def stepCall (digest : Bytes → String) (w : World) (i : CallId) (c : Call) :
    CallStep → Option World
  | .look =>
      match c.phase with
      | .arrived =>
          some (w.goto i (if (w.cells c.artifact.sha256).ready then .returned else .looping))
      | .looping =>
          some (w.goto i (if (w.cells c.artifact.sha256).ready then .returned else .locking))
      | _ => none
  | .tryLock late =>
      match c.phase with
      | .locking =>
          if (w.cells c.artifact.sha256).lock then
            some (w.goto i (if late then .raised else .looping))
          else
            some ((w.setCell c.artifact.sha256 fun cell => { cell with lock := true }).goto i
              .holding)
      | _ => none
  | .openEgg =>
      match c.phase with
      | .holding =>
          some (w.goto i (if (w.cells c.artifact.sha256).egg.map digest = some c.artifact.sha256
            then .reading else .fetching))
      | _ => none
  | .fetched answer =>
      match c.phase, answer with
      | .fetching, none => some (w.goto i (.releasing false))
      | .fetching, some content =>
          if digest content = c.artifact.sha256 then
            some ((w.setCell c.artifact.sha256 fun cell => { cell with egg := some content }).goto i
              .reading)
          else some (w.goto i (.releasing false))
      | _, _ => none
  | .readEgg =>
      match c.phase with
      | .reading =>
          match (w.cells c.artifact.sha256).egg with
          | some egg => some (w.goto i (.deploying egg))
          | none => some (w.goto i (.releasing false))
      | _ => none
  | .deploy arrives confirmed =>
      match c.phase with
      | .deploying egg =>
          let given := if arrives || confirmed then (c.artifact.target, egg) :: w.given else w.given
          some ({ w with given := given }.goto i
            (if confirmed then .marking else .releasing false))
      | _ => none
  | .mark =>
      match c.phase with
      | .marking =>
          some ((w.setCell c.artifact.sha256 fun cell =>
            { cell with ready := true, markedFor := some c.artifact.target }).goto i
              (.releasing true))
      | _ => none
  | .unlock =>
      match c.phase with
      | .releasing done =>
          some ((w.setCell c.artifact.sha256 fun cell => { cell with lock := false }).goto i
            (if done then .returned else .raised))
      | _ => none
  | .fail =>
      match c.phase with
      | .arrived | .looping | .locking => some (w.goto i .raised)
      | .holding | .fetching | .reading | .deploying _ | .marking =>
          some (w.goto i (.releasing false))
      | .releasing _ | .returned | .raised => none

/-- `_evict_locked` and `_evict`, of an egg. -/
def stepEvict (w : World) : EvictStep → Option World
  | .lock sha256 =>
      if w.janitor = none ∧ (w.cells sha256).lock = false then
        some { w.setCell sha256 fun cell => { cell with lock := true } with
          janitor := some (sha256, .locked) }
      else none
  | .skip =>
      match w.janitor with
      | some (sha256, .locked) => some { w with janitor := some (sha256, .done) }
      | _ => none
  | .removeEgg ok =>
      match w.janitor with
      | some (sha256, .locked) =>
          some { w.setCell sha256 fun cell =>
              { cell with egg := if ok then none else cell.egg } with
            janitor := some (sha256, .eggDone) }
      | _ => none
  | .removeReady ok =>
      match w.janitor with
      | some (sha256, .eggDone) =>
          some { w.setCell sha256 fun cell =>
              { cell with ready := if ok then false else cell.ready } with
            janitor := some (sha256, .done) }
      | _ => none
  | .unlock =>
      match w.janitor with
      | some (sha256, .done) =>
          some { w.setCell sha256 fun cell => { cell with lock := false } with janitor := none }
      | _ => none

def step (digest : Bytes → String) (w : World) : Action → Option World
  | .call i artifact =>
      if (w.calls.get i).isSome then none
      else
        let phase : Phase := if artifact.complete then .arrived else .raised
        some { w with calls := w.calls.insert i ⟨artifact, phase⟩ }
  | .stepCall i a => (w.calls.get i).bind fun c => stepCall digest w i c a
  | .evict a => stepEvict w a
  | .crash => some { w with calls := .empty, janitor := none }

/-! ### The claim and the condition -/

/-- Scrapyd has the egg of this content under this project and version. -/
def Given (digest : Bytes → String) (w : World) (a : Artifact) : Prop :=
  ∃ egg, (a.target, egg) ∈ w.given ∧ digest egg = a.sha256

/-- Nobody is at work. -/
def Idle (w : World) : Prop :=
  w.janitor = none ∧ ∀ i c, w.calls.get i = some c → c.phase.over = true

/-- What a call does when it is alone and server and scrapyd are well; the server has
`content`, and `late` says whether the time to wait for a lock is over. -/
def healthyStep (content : Bytes) (late : Bool) : Phase → Option CallStep
  | .arrived | .looping => some .look
  | .locking => some (.tryLock late)
  | .holding => some .openEgg
  | .fetching => some (.fetched (some content))
  | .reading => some .readEgg
  | .deploying _ => some (.deploy true true)
  | .marking => some .mark
  | .releasing _ => some .unlock
  | .returned | .raised => none

/-- One call alone, for so many steps. -/
def runAlone (digest : Bytes → String) (content : Bytes) (late : Bool) (i : CallId) :
    Nat → World → World
  | 0, w => w
  | n + 1, w =>
      match (w.calls.get i).bind fun c =>
        (healthyStep content late c.phase).bind (stepCall digest w i c) with
      | none => w
      | some w' => runAlone digest content late i n w'

/-- The call has returned. -/
def ReturnedIn (w : World) (i : CallId) : Prop :=
  ∃ c, w.calls.get i = some c ∧ c.phase = .returned

/-- A new call, alone, returns. -/
def Succeeds (digest : Bytes → String) (w : World) (a : Artifact) : Prop :=
  ∀ i content late, w.calls.get i = none → digest content = a.sha256 →
    ∃ n w', step digest w (.call i a) = some w' ∧
      ReturnedIn (runAlone digest content late i n w') i

/-- Scrapyd has the egg of every call that has returned, and while nobody is at work
a call succeeds. -/
structure CacheOk (digest : Bytes → String) (w : World) : Prop where
  given : ∀ i c, w.calls.get i = some c → c.phase = .returned → Given digest w c.artifact
  succeeds : Idle w → ∀ a : Artifact, a.complete = true → Succeeds digest w a

/-- A mark that is found was made for the project and version of the call, and the
agent crashes only while every content that is locked has its mark. -/
def Sound (w : World) : Action → Prop
  | .stepCall i .look => ∀ c, w.calls.get i = some c →
      (w.cells c.artifact.sha256).ready = true →
      (w.cells c.artifact.sha256).markedFor = some c.artifact.target
  | .crash => ∀ sha256, (w.cells sha256).lock = true → (w.cells sha256).ready = true
  | _ => True

/-! ### What a run keeps -/

/-- The lock file of the content is that of the call, or of the janitor. -/
def Holds (w : World) (sha256 : String) : Option CallId → Prop
  | some i => ∃ c, w.calls.get i = some c ∧ c.artifact.sha256 = sha256 ∧ c.phase.holds = true
  | none => ∃ phase, w.janitor = some (sha256, phase)

/-- What a call relies on where it stands. -/
def PhaseOk (digest : Bytes → String) (w : World) (c : Call) : Prop :=
  match c.phase with
  | .reading => (w.cells c.artifact.sha256).egg.map digest = some c.artifact.sha256
  | .deploying egg => digest egg = c.artifact.sha256
  | .marking | .releasing true | .returned => Given digest w c.artifact
  | _ => True

structure Inv (digest : Bytes → String) (w : World) : Prop where
  /-- A mark is made behind the egg of its content. -/
  marked : ∀ sha256, (w.cells sha256).ready = true → ∃ target,
    (w.cells sha256).markedFor = some target ∧ Given digest w ⟨sha256, target⟩
  /-- A lock file has one owner at most. -/
  one : ∀ sha256 who who', Holds w sha256 who → Holds w sha256 who' → who = who'
  locked : ∀ sha256 who, Holds w sha256 who → (w.cells sha256).lock = true
  /-- A lock file without an owner does not matter. -/
  owned : ∀ sha256, (w.cells sha256).lock = true →
    (w.cells sha256).ready = true ∨ ∃ who, Holds w sha256 who
  phase : ∀ i c, w.calls.get i = some c → PhaseOk digest w c

section Steps

variable {digest : Bytes → String} {w w' : World} {i : CallId} {c : Call} {sha256 : String}
  {who : Option CallId}

theorem Given.mono {a : Artifact} (h : Given digest w a) (hgiven : ∀ r ∈ w.given, r ∈ w'.given) :
    Given digest w' a := by
  obtain ⟨egg, hmem, hdigest⟩ := h
  exact ⟨egg, hgiven _ hmem, hdigest⟩

/-- A call that does not read its egg relies on nothing that goes away. -/
theorem PhaseOk.frame (h : PhaseOk digest w c) (hgiven : ∀ r ∈ w.given, r ∈ w'.given)
    (hegg : c.phase.holds = true →
      w'.cells c.artifact.sha256 = w.cells c.artifact.sha256) : PhaseOk digest w' c := by
  obtain ⟨a, phase⟩ := c
  cases phase with
  | reading =>
      show (w'.cells a.sha256).egg.map digest = some a.sha256
      rw [hegg rfl]
      exact h
  | deploying egg => exact h
  | marking => exact Given.mono h hgiven
  | releasing done =>
      cases done with
      | true => exact Given.mono h hgiven
      | false => trivial
  | returned => exact Given.mono h hgiven
  | arrived | looping | locking | holding | fetching | raised => trivial

/-- One of those who work on contents has gone on, on this content. -/
structure Moves (w w' : World) (sha256 : String) (who : Option CallId) : Prop where
  cells : ∀ sha, sha ≠ sha256 → w'.cells sha = w.cells sha
  given : ∀ r ∈ w.given, r ∈ w'.given
  calls : ∀ i, some i ≠ who → w'.calls.get i = w.calls.get i
  janitor : who ≠ none → w'.janitor = w.janitor
  before : ∀ sha, Holds w sha who → sha = sha256
  after : ∀ sha, Holds w' sha who → sha = sha256

/-- The others own what they owned. -/
theorem Moves.others (hm : Moves w w' sha256 who) {who' : Option CallId} (hne : who' ≠ who)
    (sha : String) : Holds w' sha who' ↔ Holds w sha who' := by
  cases who' with
  | some i =>
      show (∃ c, w'.calls.get i = some c ∧ _) ↔ ∃ c, w.calls.get i = some c ∧ _
      rw [hm.calls i hne]
  | none =>
      show (∃ phase, w'.janitor = _) ↔ ∃ phase, w.janitor = _
      rw [hm.janitor hne.symm]

/-- **One step at one content.**  Who takes it answers for the content. -/
theorem Inv.move (h : Inv digest w) (hm : Moves w w' sha256 who)
    (hone : Holds w' sha256 who → ∀ who', who' ≠ who → ¬ Holds w sha256 who')
    (hlocked : ∀ who', Holds w' sha256 who' → (w'.cells sha256).lock = true)
    (howned : (w'.cells sha256).lock = true →
      (w'.cells sha256).ready = true ∨ ∃ who', Holds w' sha256 who')
    (hmarked : (w'.cells sha256).ready = true → ∃ target,
      (w'.cells sha256).markedFor = some target ∧ Given digest w' ⟨sha256, target⟩)
    (hkeep : (∃ who', who' ≠ who ∧ Holds w sha256 who') → w'.cells sha256 = w.cells sha256)
    (hphase : ∀ i c, who = some i → w'.calls.get i = some c → PhaseOk digest w' c) :
    Inv digest w' where
  marked := by
    intro sha hready
    by_cases hsha : sha = sha256
    · subst hsha
      exact hmarked hready
    · rw [hm.cells sha hsha] at hready ⊢
      obtain ⟨target, hfor, hgiven⟩ := h.marked sha hready
      exact ⟨target, hfor, hgiven.mono hm.given⟩
  one := by
    intro sha who₁ who₂ h₁ h₂
    by_cases hw₁ : who₁ = who
    · by_cases hw₂ : who₂ = who
      · rw [hw₁, hw₂]
      · subst hw₁
        obtain rfl := hm.after sha h₁
        exact absurd ((hm.others hw₂ sha).mp h₂) (hone h₁ who₂ hw₂)
    · by_cases hw₂ : who₂ = who
      · subst hw₂
        obtain rfl := hm.after sha h₂
        exact absurd ((hm.others hw₁ sha).mp h₁) (hone h₂ who₁ hw₁)
      · exact h.one sha who₁ who₂ ((hm.others hw₁ sha).mp h₁) ((hm.others hw₂ sha).mp h₂)
  locked := by
    intro sha who' hholds
    by_cases hsha : sha = sha256
    · subst hsha
      exact hlocked who' hholds
    · have hne : who' ≠ who := by
        rintro rfl
        exact hsha (hm.after sha hholds)
      rw [hm.cells sha hsha]
      exact h.locked sha who' ((hm.others hne sha).mp hholds)
  owned := by
    intro sha hlock
    by_cases hsha : sha = sha256
    · subst hsha
      exact howned hlock
    · rw [hm.cells sha hsha] at hlock ⊢
      rcases h.owned sha hlock with hready | ⟨who', hholds⟩
      · exact .inl hready
      · have hne : who' ≠ who := by
          rintro rfl
          exact hsha (hm.before sha hholds)
        exact .inr ⟨who', (hm.others hne sha).mpr hholds⟩
  phase := by
    intro i c hc
    by_cases hi : who = some i
    · exact hphase i c hi hc
    · rw [hm.calls i (Ne.symm hi)] at hc
      refine (h.phase i c hc).frame hm.given fun hholds => ?_
      by_cases hsha : c.artifact.sha256 = sha256
      · rw [hsha]
        exact hkeep ⟨some i, Ne.symm hi, c, hc, hsha, hholds⟩
      · exact hm.cells _ hsha

/-- **A step of the one who works at the content**, or begins to. -/
theorem Inv.alone (h : Inv digest w) (hm : Moves w w' sha256 who)
    (halone : ∀ who', who' ≠ who → ¬ Holds w sha256 who')
    (hlock : Holds w' sha256 who → (w'.cells sha256).lock = true)
    (hfree : (w'.cells sha256).lock = true → (w'.cells sha256).ready = true ∨ Holds w' sha256 who)
    (hmarked : (w'.cells sha256).ready = true → ∃ target,
      (w'.cells sha256).markedFor = some target ∧ Given digest w' ⟨sha256, target⟩)
    (hphase : ∀ i c, who = some i → w'.calls.get i = some c → PhaseOk digest w' c) :
    Inv digest w' := by
  refine h.move hm (fun _ => halone) ?_ ?_ hmarked ?_ hphase
  · intro who' hholds
    by_cases hne : who' = who
    · exact hlock (hne ▸ hholds)
    · exact absurd ((hm.others hne sha256).mp hholds) (halone who' hne)
  · intro hlock'
    rcases hfree hlock' with hready | hholds
    · exact .inl hready
    · exact .inr ⟨who, hholds⟩
  · rintro ⟨who', hne, hholds⟩
    exact absurd hholds (halone who' hne)

/-- **A step that leaves the files alone**, of a call that waits. -/
theorem Inv.idle (h : Inv digest w) (hm : Moves w w' sha256 who)
    (hcells : w'.cells sha256 = w.cells sha256) (hbefore : ¬ Holds w sha256 who)
    (hafter : ¬ Holds w' sha256 who)
    (hphase : ∀ i c, who = some i → w'.calls.get i = some c → PhaseOk digest w' c) :
    Inv digest w' := by
  refine h.move hm (fun hholds => absurd hholds hafter) ?_ ?_ ?_ (fun _ => hcells) hphase
  · intro who' hholds
    have hne : who' ≠ who := by
      rintro rfl
      exact hafter hholds
    rw [hcells]
    exact h.locked sha256 who' ((hm.others hne sha256).mp hholds)
  · rw [hcells]
    intro hlock
    rcases h.owned sha256 hlock with hready | ⟨who', hholds⟩
    · exact .inl hready
    · have hne : who' ≠ who := by
        rintro rfl
        exact hbefore hholds
      exact .inr ⟨who', (hm.others hne sha256).mpr hholds⟩
  · rw [hcells]
    intro hready
    obtain ⟨target, hfor, hgiven⟩ := h.marked sha256 hready
    exact ⟨target, hfor, hgiven.mono hm.given⟩

/-! ### The calls -/

theorem get_goto (hc : w.calls.get i = some c) (phase : Phase) :
    (w.goto i phase).calls.get i = some ⟨c.artifact, phase⟩ := by
  show (w.calls.modify i _).get i = _
  rw [Table.get_modify_self, hc]
  rfl

theorem holds_goto_iff (hc : w.calls.get i = some c) (phase : Phase) (sha : String) :
    Holds (w.goto i phase) sha (some i) ↔ c.artifact.sha256 = sha ∧ phase.holds = true := by
  constructor
  · rintro ⟨c', hc', hsha, hholds⟩
    rw [get_goto hc] at hc'
    obtain rfl := Option.some.inj hc'
    exact ⟨hsha, hholds⟩
  · rintro ⟨hsha, hholds⟩
    exact ⟨_, get_goto hc phase, hsha, hholds⟩

theorem holds_iff (hc : w.calls.get i = some c) (sha : String) :
    Holds w sha (some i) ↔ c.artifact.sha256 = sha ∧ c.phase.holds = true := by
  constructor
  · rintro ⟨c', hc', hsha, hholds⟩
    rw [hc] at hc'
    obtain rfl := Option.some.inj hc'
    exact ⟨hsha, hholds⟩
  · rintro ⟨hsha, hholds⟩
    exact ⟨c, hc, hsha, hholds⟩

/-- The files of one content may differ, and scrapyd may have more. -/
structure OffContent (w w₁ : World) (sha256 : String) : Prop where
  calls : w₁.calls = w.calls
  janitor : w₁.janitor = w.janitor
  given : ∀ r ∈ w.given, r ∈ w₁.given
  cells : ∀ sha, sha ≠ sha256 → w₁.cells sha = w.cells sha

theorem OffContent.refl (w : World) (sha256 : String) : OffContent w w sha256 :=
  ⟨rfl, rfl, fun _ hr => hr, fun _ _ => rfl⟩

theorem OffContent.setCell (w : World) (sha256 : String) (f : Cell → Cell) :
    OffContent w (w.setCell sha256 f) sha256 :=
  ⟨rfl, rfl, fun _ hr => hr, fun _ hsha => Function.update_of_ne hsha _ _⟩

theorem setCell_self (w : World) (f : Cell → Cell) :
    (w.setCell sha256 f).cells sha256 = f (w.cells sha256) := Function.update_self _ _ _

theorem OffContent.goto {w₁ : World} (hoff : OffContent w w₁ c.artifact.sha256)
    (hc : w.calls.get i = some c) (phase : Phase) :
    Moves w (w₁.goto i phase) c.artifact.sha256 (some i) where
  cells := hoff.cells
  given := hoff.given
  calls := by
    intro i' hi
    have hne : i' ≠ i := fun heq => hi (congrArg some heq)
    show (w₁.calls.modify i _).get i' = _
    rw [Table.get_modify_ne _ _ hne, hoff.calls]
  janitor := fun _ => hoff.janitor
  before := fun sha hholds => ((holds_iff hc sha).mp hholds).1.symm
  after := by
    intro sha hholds
    rw [← hoff.calls] at hc
    exact ((holds_goto_iff hc phase sha).mp hholds).1.symm

/-- A call that waits for the mark or the lock goes on waiting, or is over. -/
theorem Inv.gotoIdle (h : Inv digest w) (hc : w.calls.get i = some c)
    (hbefore : c.phase.holds = false) {phase : Phase} (hafter : phase.holds = false)
    (hphase : PhaseOk digest w ⟨c.artifact, phase⟩) : Inv digest (w.goto i phase) := by
  have hm := (OffContent.refl w c.artifact.sha256).goto hc phase
  refine h.idle hm rfl ?_ ?_ ?_
  · rw [holds_iff hc, hbefore]
    exact fun hholds => Bool.false_ne_true hholds.2
  · rw [holds_goto_iff hc, hafter]
    exact fun hholds => Bool.false_ne_true hholds.2
  · rintro i' c' hi hc'
    obtain rfl := Option.some.inj hi
    rw [get_goto hc] at hc'
    obtain rfl := Option.some.inj hc'
    exact hphase.frame hm.given fun _ => rfl

/-- Nobody works at a content whose lock file is that of this call. -/
theorem Inv.alone_of_holds (h : Inv digest w) (hholds : Holds w sha256 who) :
    ∀ who', who' ≠ who → ¬ Holds w sha256 who' :=
  fun who' hne hholds' => hne (h.one sha256 who' who hholds' hholds)

/-- Nobody works at a content that is not locked. -/
theorem Inv.alone_of_unlocked (h : Inv digest w) (hlock : (w.cells sha256).lock = false) :
    ∀ who', ¬ Holds w sha256 who' := by
  intro who' hholds
  have hlocked := h.locked sha256 who' hholds
  rw [hlock] at hlocked
  cases hlocked

/-- **A call at work** goes on, and leaves its lock file if it goes on working. -/
theorem Inv.gotoWork (h : Inv digest w) (hc : w.calls.get i = some c)
    (halone : ∀ who', who' ≠ some i → ¬ Holds w c.artifact.sha256 who') {w₁ : World}
    (hoff : OffContent w w₁ c.artifact.sha256) {phase : Phase}
    (hlock : (w₁.cells c.artifact.sha256).lock = phase.holds)
    (hmarked : (w₁.cells c.artifact.sha256).ready = true → ∃ target,
      (w₁.cells c.artifact.sha256).markedFor = some target ∧
        Given digest w₁ ⟨c.artifact.sha256, target⟩)
    (hphase : PhaseOk digest w₁ ⟨c.artifact, phase⟩) : Inv digest (w₁.goto i phase) := by
  have hm := hoff.goto hc phase
  rw [← hoff.calls] at hc
  refine h.alone hm halone ?_ ?_ hmarked ?_
  · intro hholds
    exact hlock.trans ((holds_goto_iff hc phase _).mp hholds).2
  · intro hlock'
    refine .inr ((holds_goto_iff hc phase _).mpr ⟨rfl, ?_⟩)
    rw [← hlock]
    exact hlock'
  · rintro i' c' hi hc'
    obtain rfl := Option.some.inj hi
    rw [get_goto hc] at hc'
    obtain rfl := Option.some.inj hc'
    exact hphase.frame (fun _ hr => hr) fun _ => rfl

/-- A call at work goes on without a change of its files. -/
theorem Inv.gotoSame (h : Inv digest w) (hc : w.calls.get i = some c)
    (hbefore : c.phase.holds = true) {phase : Phase} (hafter : phase.holds = true)
    (hphase : PhaseOk digest w ⟨c.artifact, phase⟩) : Inv digest (w.goto i phase) := by
  have hholds := (holds_iff hc _).mpr ⟨rfl, hbefore⟩
  refine h.gotoWork hc (h.alone_of_holds hholds) (OffContent.refl w _) ?_
    (h.marked c.artifact.sha256) hphase
  rw [hafter]
  exact h.locked _ _ hholds

/-- **The lock** is taken. -/
theorem Inv.acquire (h : Inv digest w) (hc : w.calls.get i = some c)
    (hlock : (w.cells c.artifact.sha256).lock = false) :
    Inv digest ((w.setCell c.artifact.sha256 fun cell => { cell with lock := true }).goto i
      .holding) := by
  refine h.gotoWork hc (fun who' _ => h.alone_of_unlocked hlock who') (OffContent.setCell w _ _)
    ?_ ?_ trivial
  · rw [setCell_self]
    rfl
  · rw [setCell_self]
    exact h.marked c.artifact.sha256

/-- A call of `ensure` takes its next step. -/
theorem Inv.stepCall (h : Inv digest w) (hc : w.calls.get i = some c) {a : CallStep}
    (ha : Sound w (.stepCall i a)) (hs : stepCall digest w i c a = some w') : Inv digest w' := by
  have hok := h.phase i c hc
  obtain ⟨a', phase⟩ := c
  cases a with
  | look =>
      -- the mark was made for this project and version
      have hready : (w.cells a'.sha256).ready = true → Given digest w a' := by
        intro hready
        have hfor := ha _ hc hready
        obtain ⟨target, hfor', hgiven⟩ := h.marked _ hready
        rw [hfor] at hfor'
        obtain rfl := Option.some.inj hfor'
        exact hgiven
      cases phase with
      | arrived =>
          obtain rfl := Option.some.inj hs
          split
          · rename_i hfound
            exact h.gotoIdle hc rfl rfl (hready hfound)
          · exact h.gotoIdle hc rfl rfl trivial
      | looping =>
          obtain rfl := Option.some.inj hs
          split
          · rename_i hfound
            exact h.gotoIdle hc rfl rfl (hready hfound)
          · exact h.gotoIdle hc rfl rfl trivial
      | locking | holding | fetching | reading | deploying _ | marking | releasing _ | returned
        | raised => cases hs
  | tryLock late =>
      cases phase with
      | locking =>
          simp only [EggCache.stepCall] at hs
          split at hs
          · obtain rfl := Option.some.inj hs
            cases late with
            | true => exact h.gotoIdle hc rfl rfl trivial
            | false => exact h.gotoIdle hc rfl rfl trivial
          · rename_i hlock
            obtain rfl := Option.some.inj hs
            exact h.acquire hc (eq_false_of_ne_true hlock)
      | arrived | looping | holding | fetching | reading | deploying _ | marking | releasing _
        | returned | raised => cases hs
  | openEgg =>
      cases phase with
      | holding =>
          obtain rfl := Option.some.inj hs
          split
          · rename_i hfound
            exact h.gotoSame hc rfl rfl hfound
          · exact h.gotoSame hc rfl rfl trivial
      | arrived | looping | locking | fetching | reading | deploying _ | marking | releasing _
        | returned | raised => cases hs
  | fetched answer =>
      cases phase with
      | fetching =>
          cases answer with
          | none =>
              obtain rfl := Option.some.inj hs
              exact h.gotoSame hc rfl rfl trivial
          | some content =>
              simp only [EggCache.stepCall] at hs
              split at hs
              · rename_i hdigest
                obtain rfl := Option.some.inj hs
                have hholds := (holds_iff hc _).mpr ⟨rfl, rfl⟩
                refine h.gotoWork hc (h.alone_of_holds hholds) (OffContent.setCell w _ _) ?_ ?_ ?_
                · rw [setCell_self]
                  exact h.locked _ _ hholds
                · rw [setCell_self]
                  exact h.marked a'.sha256
                · show ((w.setCell a'.sha256 _).cells a'.sha256).egg.map digest = _
                  rw [setCell_self]
                  exact congrArg some hdigest
              · obtain rfl := Option.some.inj hs
                exact h.gotoSame hc rfl rfl trivial
      | arrived | looping | locking | holding | reading | deploying _ | marking | releasing _
        | returned | raised => cases hs
  | readEgg =>
      cases phase with
      | reading =>
          change (w.cells a'.sha256).egg.map digest = some a'.sha256 at hok
          simp only [EggCache.stepCall] at hs
          split at hs
          · rename_i egg hegg
            obtain rfl := Option.some.inj hs
            rw [hegg] at hok
            exact h.gotoSame hc rfl rfl (Option.some.inj hok)
          · obtain rfl := Option.some.inj hs
            exact h.gotoSame hc rfl rfl trivial
      | arrived | looping | locking | holding | fetching | deploying _ | marking | releasing _
        | returned | raised => cases hs
  | deploy arrives confirmed =>
      cases phase with
      | deploying egg =>
          obtain rfl := Option.some.inj hs
          have hholds := (holds_iff hc _).mpr ⟨rfl, rfl⟩
          have hoff : OffContent w { w with given := if arrives || confirmed then
              (a'.target, egg) :: w.given else w.given } a'.sha256 := by
            refine ⟨rfl, rfl, fun r hr => ?_, fun _ _ => rfl⟩
            show r ∈ if arrives || confirmed then (a'.target, egg) :: w.given else w.given
            split
            · exact List.mem_cons_of_mem _ hr
            · exact hr
          refine h.gotoWork hc (h.alone_of_holds hholds) hoff ?_ ?_ ?_
          · have hlock := h.locked _ _ hholds
            cases confirmed with
            | true => exact hlock
            | false => exact hlock
          · intro hready
            obtain ⟨target, hfor, hold⟩ := h.marked _ hready
            exact ⟨target, hfor, hold.mono hoff.given⟩
          · cases confirmed with
            | true =>
                refine ⟨egg, ?_, hok⟩
                rw [Bool.or_true]
                exact List.mem_cons_self
            | false => trivial
      | arrived | looping | locking | holding | fetching | reading | marking | releasing _
        | returned | raised => cases hs
  | mark =>
      cases phase with
      | marking =>
          obtain rfl := Option.some.inj hs
          have hholds := (holds_iff hc _).mpr ⟨rfl, rfl⟩
          refine h.gotoWork hc (h.alone_of_holds hholds) (OffContent.setCell w _ _) ?_ ?_ hok
          · rw [setCell_self]
            exact h.locked _ _ hholds
          · rw [setCell_self]
            exact fun _ => ⟨a'.target, rfl, hok⟩
      | arrived | looping | locking | holding | fetching | reading | deploying _ | releasing _
        | returned | raised => cases hs
  | unlock =>
      cases phase with
      | releasing done =>
          obtain rfl := Option.some.inj hs
          have hholds := (holds_iff hc _).mpr ⟨rfl, rfl⟩
          refine h.gotoWork hc (h.alone_of_holds hholds) (OffContent.setCell w _ _) ?_ ?_ ?_
          · rw [setCell_self]
            cases done with
            | true => rfl
            | false => rfl
          · rw [setCell_self]
            exact h.marked a'.sha256
          · cases done with
            | true => exact hok
            | false => trivial
      | arrived | looping | locking | holding | fetching | reading | deploying _ | marking
        | returned | raised => cases hs
  | fail =>
      cases phase with
      | arrived | looping | locking =>
          obtain rfl := Option.some.inj hs
          exact h.gotoIdle hc rfl rfl trivial
      | holding | fetching | reading | deploying _ | marking =>
          obtain rfl := Option.some.inj hs
          exact h.gotoSame hc rfl rfl trivial
      | releasing _ | returned | raised => cases hs

/-! ### Janitor, arrivals and crashes -/

/-- The janitor goes on at one content, or begins or ends there. -/
theorem OffContent.evict {w₁ : World} (hoff : OffContent w w₁ sha256)
    {janitor : Option (String × EvictPhase)}
    (hbefore : ∀ sha phase, w.janitor = some (sha, phase) → sha = sha256)
    (hafter : ∀ sha phase, janitor = some (sha, phase) → sha = sha256) :
    Moves w { w₁ with janitor := janitor } sha256 none where
  cells := hoff.cells
  given := hoff.given
  calls := fun _ _ => congrArg (Table.get · _) hoff.calls
  janitor := fun hne => absurd rfl hne
  before := fun sha ⟨phase, hphase⟩ => hbefore sha phase hphase
  after := fun sha ⟨phase, hphase⟩ => hafter sha phase hphase

/-- **The janitor at work** goes on, and leaves its lock file if it goes on working. -/
theorem Inv.evictWork (h : Inv digest w) {f : Cell → Cell}
    {janitor : Option (String × EvictPhase)}
    (halone : ∀ who', who' ≠ none → ¬ Holds w sha256 who')
    (hbefore : ∀ sha phase, w.janitor = some (sha, phase) → sha = sha256)
    (hafter : ∀ sha phase, janitor = some (sha, phase) → sha = sha256)
    (hlock : (f (w.cells sha256)).lock = janitor.isSome)
    (hready : (f (w.cells sha256)).ready = true → (w.cells sha256).ready = true)
    (hfor : (f (w.cells sha256)).markedFor = (w.cells sha256).markedFor) :
    Inv digest { w.setCell sha256 f with janitor := janitor } := by
  have hm := (OffContent.setCell w sha256 f).evict hbefore hafter
  have hcell : ({ w.setCell sha256 f with janitor := janitor } : World).cells sha256 =
      f (w.cells sha256) := setCell_self w f
  refine h.alone hm halone ?_ ?_ ?_ nofun
  · rintro ⟨phase, hphase⟩
    rw [hcell, hlock]
    change janitor = _ at hphase
    rw [hphase]
    rfl
  · rw [hcell, hlock]
    intro hsome
    obtain ⟨⟨sha, phase⟩, hphase⟩ := Option.isSome_iff_exists.mp hsome
    obtain rfl := hafter sha phase hphase
    exact .inr ⟨phase, hphase⟩
  · rw [hcell, hfor]
    exact fun hmarked => h.marked sha256 (hready hmarked)

/-- The janitor that holds a lock file goes on. -/
theorem Inv.evictNext (h : Inv digest w) {phase : EvictPhase}
    (hjanitor : w.janitor = some (sha256, phase)) {f : Cell → Cell} {n : Option EvictPhase}
    (hlock : (f (w.cells sha256)).lock = (n.isSome && (w.cells sha256).lock))
    (hready : (f (w.cells sha256)).ready = true → (w.cells sha256).ready = true)
    (hfor : (f (w.cells sha256)).markedFor = (w.cells sha256).markedFor) :
    Inv digest { w.setCell sha256 f with janitor := n.map fun phase => (sha256, phase) } := by
  have hholds : Holds w sha256 none := ⟨phase, hjanitor⟩
  refine h.evictWork (h.alone_of_holds hholds) ?_ ?_ ?_ hready hfor
  · intro sha phase' hphase
    rw [hjanitor] at hphase
    exact (congrArg Prod.fst (Option.some.inj hphase)).symm
  · intro sha phase' hphase
    obtain ⟨_, _, hpair⟩ := Option.map_eq_some_iff.mp hphase
    exact (congrArg Prod.fst hpair).symm
  · rw [hlock, h.locked _ _ hholds, Bool.and_true, Option.isSome_map]

theorem Inv.stepEvict (h : Inv digest w) {a : EvictStep} (hs : stepEvict w a = some w') :
    Inv digest w' := by
  cases a with
  | lock sha256 =>
      simp only [EggCache.stepEvict] at hs
      split at hs
      · rename_i hguard
        obtain ⟨hnone, hlock⟩ := hguard
        obtain rfl := Option.some.inj hs
        refine h.evictWork (fun who' _ => h.alone_of_unlocked hlock who') ?_ ?_ rfl
          (fun hready => hready) rfl
        · intro sha phase hphase
          rw [hnone] at hphase
          cases hphase
        · intro sha phase hphase
          exact (congrArg Prod.fst (Option.some.inj hphase)).symm
      · cases hs
  | skip =>
      simp only [EggCache.stepEvict] at hs
      split at hs
      · rename_i sha256 hjanitor
        obtain rfl := Option.some.inj hs
        have hsame : w.setCell sha256 id = w := by
          show { w with cells := Function.update w.cells sha256 (w.cells sha256) } = w
          rw [Function.update_eq_self]
        have hnext := h.evictNext hjanitor (f := id) (n := some .done)
          (Bool.true_and _).symm (fun hready => hready) rfl
        rw [hsame] at hnext
        exact hnext
      · cases hs
  | removeEgg ok =>
      simp only [EggCache.stepEvict] at hs
      split at hs
      · rename_i sha256 hjanitor
        obtain rfl := Option.some.inj hs
        exact h.evictNext hjanitor (n := some .eggDone) (Bool.true_and _).symm
          (fun hready => hready) rfl
      · cases hs
  | removeReady ok =>
      simp only [EggCache.stepEvict] at hs
      split at hs
      · rename_i sha256 hjanitor
        obtain rfl := Option.some.inj hs
        refine h.evictNext hjanitor (n := some .done) (Bool.true_and _).symm ?_ rfl
        cases ok with
        | true => exact fun hready => (Bool.false_ne_true hready).elim
        | false => exact fun hready => hready
      · cases hs
  | unlock =>
      simp only [EggCache.stepEvict] at hs
      split at hs
      · rename_i sha256 hjanitor
        obtain rfl := Option.some.inj hs
        exact h.evictNext hjanitor (n := none) rfl (fun hready => hready) rfl
      · cases hs

/-- A call arrives. -/
theorem Inv.call (h : Inv digest w) (hnew : w.calls.get i = none) {a : Artifact} {phase : Phase}
    (hphase : phase = .arrived ∨ phase = .raised) :
    Inv digest { w with calls := w.calls.insert i ⟨a, phase⟩ } := by
  have hget : ∀ i' c, (w.calls.insert i ⟨a, phase⟩).get i' = some c →
      w.calls.get i' = some c ∨ c = ⟨a, phase⟩ := by
    intro i' c hc
    rw [Table.get_insert _ _ hnew] at hc
    split at hc
    · exact .inr (Option.some.inj hc).symm
    · exact .inl hc
  have hback : ∀ sha who, Holds { w with calls := w.calls.insert i ⟨a, phase⟩ } sha who →
      Holds w sha who := by
    intro sha who hholds
    cases who with
    | none => exact hholds
    | some i' =>
        obtain ⟨c, hc, hsha, hholds⟩ := hholds
        rcases hget i' c hc with hold | rfl
        · exact ⟨c, hold, hsha, hholds⟩
        · rcases hphase with rfl | rfl
          · cases hholds
          · cases hholds
  constructor
  case marked => exact h.marked
  case one =>
    exact fun sha who who' h₁ h₂ => h.one sha who who' (hback sha who h₁) (hback sha who' h₂)
  case locked => exact fun sha who hholds => h.locked sha who (hback sha who hholds)
  case owned =>
    intro sha hlock
    rcases h.owned sha hlock with hready | ⟨who, hholds⟩
    · exact .inl hready
    refine .inr ⟨who, ?_⟩
    cases who with
    | none => exact hholds
    | some i' =>
        obtain ⟨c, hc, hsha, hholds⟩ := hholds
        refine ⟨c, ?_, hsha, hholds⟩
        show (w.calls.insert i _).get i' = some c
        rw [Table.get_insert _ _ hnew, if_neg]
        · exact hc
        · rintro rfl
          rw [hnew] at hc
          cases hc
  case phase =>
    intro i' c hc
    rcases hget i' c hc with hold | rfl
    · exact (h.phase i' c hold).frame (fun _ hr => hr) fun _ => rfl
    · rcases hphase with rfl | rfl
      · trivial
      · trivial

/-- **A crash** leaves no lock file that matters if every locked content has its mark. -/
theorem Inv.crash (h : Inv digest w)
    (hsound : ∀ sha256, (w.cells sha256).lock = true → (w.cells sha256).ready = true) :
    Inv digest { w with calls := .empty, janitor := none } := by
  have hnobody : ∀ sha who, ¬ Holds { w with calls := .empty, janitor := none } sha who := by
    rintro sha (_ | i) hholds
    · obtain ⟨_, hphase⟩ := hholds
      cases hphase
    · obtain ⟨_, hc, -⟩ := hholds
      cases hc
  constructor
  case marked => exact h.marked
  case one => exact fun sha who _ hholds => absurd hholds (hnobody sha who)
  case locked => exact fun sha who hholds => absurd hholds (hnobody sha who)
  case owned => exact fun sha hlock => .inl (hsound sha hlock)
  case phase => exact fun i c hc => nomatch hc

/-- **Every step that meets the condition keeps what a run keeps.** -/
theorem Inv.step (h : Inv digest w) {a : Action} (ha : Sound w a)
    (hs : step digest w a = some w') : Inv digest w' := by
  cases a with
  | call i artifact =>
      simp only [EggCache.step] at hs
      split at hs
      · cases hs
      · rename_i hnew
        obtain rfl := Option.some.inj hs
        refine h.call (Option.not_isSome_iff_eq_none.mp hnew) ?_
        split
        · exact .inl rfl
        · exact .inr rfl
  | stepCall i a =>
      obtain ⟨c, hc, hstep⟩ := Option.bind_eq_some_iff.mp hs
      exact h.stepCall hc ha hstep
  | evict a => exact h.stepEvict hs
  | crash =>
      obtain rfl := Option.some.inj hs
      exact h.crash ha

theorem Inv.start : Inv digest start where
  marked := fun _ hready => nomatch hready
  one := by
    rintro sha (_ | i) who' hholds
    · obtain ⟨_, hphase⟩ := hholds
      cases hphase
    · obtain ⟨_, hc, -⟩ := hholds
      cases hc
  locked := by
    rintro sha (_ | i) hholds
    · obtain ⟨_, hphase⟩ := hholds
      cases hphase
    · obtain ⟨_, hc, -⟩ := hholds
      cases hc
  owned := fun _ hlock => nomatch hlock
  phase := fun _ _ hc => nomatch hc

/-! ### A call alone -/

/-- The call returns when it goes on alone. -/
def Returns (digest : Bytes → String) (content : Bytes) (late : Bool) (i : CallId) (w : World) :
    Prop :=
  ∃ n, ReturnedIn (runAlone digest content late i n w) i

variable {content : Bytes} {late : Bool} {a : Artifact}

/-- One step of a call alone, with what the rest of its way needs to know. -/
theorem Returns.goto (hc : w.calls.get i = some c) {b : CallStep}
    (hnext : healthyStep content late c.phase = some b) {w₁ : World} {p : Phase}
    (hs : EggCache.stepCall digest w i c b = some (w₁.goto i p)) (hcalls : w₁.calls = w.calls)
    (h : ∀ w', w'.calls.get i = some ⟨c.artifact, p⟩ → w'.cells = w₁.cells →
      Returns digest content late i w') : Returns digest content late i w := by
  have hc₁ : (w₁.goto i p).calls.get i = some ⟨c.artifact, p⟩ := get_goto (hcalls ▸ hc) p
  obtain ⟨n, hn⟩ := h (w₁.goto i p) hc₁ rfl
  have hgo : ((w.calls.get i).bind fun c =>
      (healthyStep content late c.phase).bind (EggCache.stepCall digest w i c)) =
        some (w₁.goto i p) := by
    rw [hc, Option.bind_some, hnext, Option.bind_some, hs]
  refine ⟨n + 1, ?_⟩
  rw [runAlone, hgo]
  exact hn

theorem Returns.of_returned (hc : w.calls.get i = some ⟨a, .returned⟩) :
    Returns digest content late i w := ⟨0, _, hc, rfl⟩

theorem Returns.of_releasing (hc : w.calls.get i = some ⟨a, .releasing true⟩) :
    Returns digest content late i w :=
  Returns.goto (p := .returned) hc rfl rfl rfl fun _ hc' _ => Returns.of_returned hc'

theorem Returns.of_marking (hc : w.calls.get i = some ⟨a, .marking⟩) :
    Returns digest content late i w :=
  Returns.goto hc rfl rfl rfl fun _ hc' _ => Returns.of_releasing hc'

theorem Returns.of_deploying {egg : Bytes} (hc : w.calls.get i = some ⟨a, .deploying egg⟩) :
    Returns digest content late i w :=
  Returns.goto (p := .marking) hc rfl rfl rfl fun _ hc' _ => Returns.of_marking hc'

theorem Returns.of_reading (hc : w.calls.get i = some ⟨a, .reading⟩)
    (hegg : (w.cells a.sha256).egg.isSome = true) : Returns digest content late i w := by
  obtain ⟨egg, hegg⟩ := Option.isSome_iff_exists.mp hegg
  have hread : EggCache.stepCall digest w i ⟨a, .reading⟩ .readEgg =
      some (w.goto i (.deploying egg)) := by
    simp only [EggCache.stepCall, hegg]
  exact Returns.goto hc rfl hread rfl fun _ hc' _ => Returns.of_deploying hc'

theorem Returns.of_fetching (hc : w.calls.get i = some ⟨a, .fetching⟩)
    (hdigest : digest content = a.sha256) : Returns digest content late i w := by
  have hfetched : EggCache.stepCall digest w i ⟨a, .fetching⟩ (.fetched (some content)) =
      some ((w.setCell a.sha256 fun cell => { cell with egg := some content }).goto i
        .reading) := by
    simp only [EggCache.stepCall, if_pos hdigest]
  refine Returns.goto hc rfl hfetched rfl fun w' hc' hcells => Returns.of_reading hc' ?_
  rw [hcells, setCell_self]
  rfl

theorem Returns.of_holding (hc : w.calls.get i = some ⟨a, .holding⟩)
    (hdigest : digest content = a.sha256) : Returns digest content late i w := by
  refine Returns.goto hc rfl rfl rfl fun w' hc' hcells => ?_
  split at hc'
  · rename_i hfound
    refine Returns.of_reading hc' ?_
    rw [hcells, ← Option.isSome_map (f := digest), hfound]
    rfl
  · exact Returns.of_fetching hc' hdigest

theorem Returns.of_locking (hc : w.calls.get i = some ⟨a, .locking⟩)
    (hdigest : digest content = a.sha256) (hlock : (w.cells a.sha256).lock = false) :
    Returns digest content late i w := by
  have htaken : EggCache.stepCall digest w i ⟨a, .locking⟩ (.tryLock late) =
      some ((w.setCell a.sha256 fun cell => { cell with lock := true }).goto i .holding) := by
    simp only [EggCache.stepCall, hlock, Bool.false_eq_true, if_false]
  exact Returns.goto hc rfl htaken rfl fun _ hc' _ => Returns.of_holding hc' hdigest

theorem Returns.of_looping (hc : w.calls.get i = some ⟨a, .looping⟩)
    (hdigest : digest content = a.sha256)
    (hfree : (w.cells a.sha256).ready = true ∨ (w.cells a.sha256).lock = false) :
    Returns digest content late i w := by
  refine Returns.goto hc rfl rfl rfl fun w' hc' hcells => ?_
  split at hc'
  · exact Returns.of_returned hc'
  · rename_i hready
    refine Returns.of_locking hc' hdigest ?_
    rw [hcells]
    exact hfree.resolve_left hready

/-- **A new call, alone, returns** if the content has its mark or is not locked. -/
theorem Returns.of_arrived (hc : w.calls.get i = some ⟨a, .arrived⟩)
    (hdigest : digest content = a.sha256)
    (hfree : (w.cells a.sha256).ready = true ∨ (w.cells a.sha256).lock = false) :
    Returns digest content late i w := by
  refine Returns.goto hc rfl rfl rfl fun w' hc' hcells => ?_
  split at hc'
  · exact Returns.of_returned hc'
  · refine Returns.of_looping hc' hdigest ?_
    rw [hcells]
    exact hfree

/-- A call that waits for a content that is locked and has no mark. -/
def Waits (a : Artifact) (w : World) (i : CallId) : Prop :=
  (w.cells a.sha256).ready = false ∧ (w.cells a.sha256).lock = true ∧
    ∃ phase, w.calls.get i = some ⟨a, phase⟩ ∧
      (phase = .arrived ∨ phase = .looping ∨ phase = .locking ∨ phase = .raised)

/-- **It waits until it gives up.** -/
theorem Waits.runAlone (h : Waits a w i) (n : Nat) :
    Waits a (runAlone digest content late i n w) i := by
  induction n generalizing w with
  | zero => exact h
  | succ n ih =>
      obtain ⟨hready, hlock, phase, hc, hphase⟩ := h
      have hgoto : ∀ phase', (phase' = .arrived ∨ phase' = .looping ∨ phase' = .locking ∨
          phase' = .raised) → Waits a (w.goto i phase') i :=
        fun phase' hphase' => ⟨hready, hlock, phase', get_goto hc phase', hphase'⟩
      rw [EggCache.runAlone, hc, Option.bind_some]
      rcases hphase with rfl | rfl | rfl | rfl
      · simp only [healthyStep, Option.bind_some, EggCache.stepCall, hready]
        exact ih (hgoto _ (.inr (.inl rfl)))
      · simp only [healthyStep, Option.bind_some, EggCache.stepCall, hready]
        exact ih (hgoto _ (.inr (.inr (.inl rfl))))
      · simp only [healthyStep, Option.bind_some, EggCache.stepCall, hlock, if_true]
        apply ih
        apply hgoto
        cases late with
        | true => exact .inr (.inr (.inr rfl))
        | false => exact .inr (.inl rfl)
      · simp only [healthyStep, Option.bind_none]
        exact ⟨hready, hlock, .raised, hc, .inr (.inr (.inr rfl))⟩

theorem Waits.not_returnedIn (h : Waits a w i) : ¬ ReturnedIn w i := by
  rintro ⟨c, hc', hreturned⟩
  obtain ⟨-, -, phase, hc, hphase⟩ := h
  rw [hc] at hc'
  obtain rfl := Option.some.inj hc'
  subst hreturned
  rcases hphase with hphase | hphase | hphase | hphase
  · cases hphase
  · cases hphase
  · cases hphase
  · cases hphase

/-- **When a new call, alone, succeeds**: the content has its mark, or is not locked. -/
theorem succeeds_iff (ha : a.complete = true)
    (hserver : ∃ i content, w.calls.get i = none ∧ digest content = a.sha256) :
    Succeeds digest w a ↔
      ((w.cells a.sha256).ready = true ∨ (w.cells a.sha256).lock = false) := by
  have hcall : ∀ i, w.calls.get i = none → step digest w (.call i a) =
      some { w with calls := w.calls.insert i ⟨a, .arrived⟩ } := by
    intro i hi
    simp only [EggCache.step, hi, ha, Option.isSome_none, Bool.false_eq_true, if_false, if_true]
  have hget : ∀ i, w.calls.get i = none →
      (w.calls.insert i ⟨a, .arrived⟩).get i = some ⟨a, .arrived⟩ := by
    intro i hi
    rw [Table.get_insert _ _ hi, if_pos rfl]
  constructor
  · intro h
    by_contra hstuck
    obtain ⟨hready, hlock⟩ := not_or.mp hstuck
    obtain ⟨i, content, hi, hdigest⟩ := hserver
    obtain ⟨n, w', hw', hreturned⟩ := h i content true hi hdigest
    rw [hcall i hi] at hw'
    obtain rfl := Option.some.inj hw'
    have hwaits : Waits a { w with calls := w.calls.insert i ⟨a, .arrived⟩ } i :=
      ⟨eq_false_of_ne_true hready, by simpa using hlock, .arrived, hget i hi, .inl rfl⟩
    exact (hwaits.runAlone n).not_returnedIn hreturned
  · intro hfree i content late hi hdigest
    have hreturns : Returns digest content late i
        { w with calls := w.calls.insert i ⟨a, .arrived⟩ } :=
      Returns.of_arrived (hget i hi) hdigest hfree
    obtain ⟨n, hn⟩ := hreturns
    exact ⟨n, _, hcall i hi, hn⟩

end Steps

/-! ### The claim -/

/-- **The cache and its condition.**  In every run in which a mark that is found was
made for the project and version of the call, and the agent crashes only while every
locked content has its mark, scrapyd has the egg of every call that returns, and a call
succeeds whenever nobody else is at work. -/
theorem cacheOk_of_sound (digest : Bytes → String) (w : World)
    (h : StateMachine.RunOk (step digest) Sound start w) : CacheOk digest w := by
  have hinv : Inv digest w :=
    h.invariant (fun s a s' hs ha hstep => hs.step ha hstep) Inv.start
  refine ⟨fun i c hc hreturned => ?_, fun hidle a ha i content late hi hdigest => ?_⟩
  · have hok := hinv.phase i c hc
    rw [PhaseOk, hreturned] at hok
    exact hok
  · refine (succeeds_iff ha ⟨i, content, hi, hdigest⟩).mpr ?_ i content late hi hdigest
    cases hlock : (w.cells a.sha256).lock with
    | false => exact .inr rfl
    | true =>
        rcases hinv.owned a.sha256 hlock with hready | ⟨who, hholds⟩
        · exact .inl hready
        -- nobody holds a lock while nobody is at work
        cases who with
        | none =>
            obtain ⟨phase, hphase⟩ := hholds
            rw [hidle.1] at hphase
            cases hphase
        | some i' =>
            obtain ⟨c, hc, -, hholds⟩ := hholds
            have hover := hidle.2 i' c hc
            cases hp : c.phase with
            | arrived | looping | locking | holding | fetching | reading | deploying _ | marking
              | releasing _ =>
                rw [hp] at hover
                cases hover
            | returned | raised =>
                rw [hp] at hholds
                cases hholds

/-- A call fetches the egg, gives it to scrapyd and marks it. -/
def ensureActions (i : CallId) (a : Artifact) (content : Bytes) : List Action :=
  [.call i a, .stepCall i .look, .stepCall i .look, .stepCall i (.tryLock false),
    .stepCall i .openEgg, .stepCall i (.fetched (some content)), .stepCall i .readEgg,
    .stepCall i (.deploy true true), .stepCall i .mark, .stepCall i .unlock]

/-- A digest for the examples. -/
def sampleDigest (content : Bytes) : String := if content = encode "egg" then "d4" else "00"

/-- Two artifacts of one content: it was uploaded again, for another project. -/
def sampleArtifact (project : String) : Artifact := ⟨"d4", project, "v1"⟩

/-- The condition, evaluated; it takes no crash. -/
def soundStep (w : World) : Action → Bool
  | .stepCall i .look => (w.calls.get i).all fun c =>
      !(w.cells c.artifact.sha256).ready ||
        decide ((w.cells c.artifact.sha256).markedFor = some c.artifact.target)
  | .crash => false
  | _ => true

theorem sound_of_soundStep {w : World} {a : Action} (h : soundStep w a = true) : Sound w a := by
  cases a with
  | stepCall i a =>
      cases a with
      | look =>
          intro c hc hready
          simpa [soundStep, hc, hready] using h
      | tryLock _ | openEgg | fetched _ | readEgg | deploy _ _ | mark | unlock | fail => trivial
  | crash => cases h
  | call _ _ | evict _ => trivial

/-- Two calls for one artifact: the first one deploys it, the second one finds the mark. -/
theorem cacheOk_of_sound_sample :
    ∃ w, StateMachine.RunOk (step sampleDigest) Sound start w ∧
      ((w.calls.get 0).map Call.phase = some .returned ∧
        (w.calls.get 1).map Call.phase = some .returned) ∧ CacheOk sampleDigest w := by
  let shop := sampleArtifact "shop"
  have hrun := StateMachine.RunOk.exists_of_checkedRun (step sampleDigest)
    (fun w a => soundStep w a = true) start
    (ensureActions 0 shop (encode "egg") ++ [.call 1 shop, .stepCall 1 .look])
    (fun w => decide ((w.calls.get 0).map Call.phase = some .returned ∧
      (w.calls.get 1).map Call.phase = some .returned)) (by decide +kernel)
  obtain ⟨w, hrun, hreturned⟩ := hrun
  have hsound : StateMachine.RunOk (step sampleDigest) Sound start w :=
    hrun.mono fun _ _ => sound_of_soundStep
  exact ⟨w, hsound, of_decide_eq_true hreturned, cacheOk_of_sound sampleDigest w hsound⟩

/-- The egg is deployed for one project, and a call for another one finds its mark; and
an agent crashes while it fetches an egg, and every later call for it gives up. -/
theorem not_cacheOk :
    (¬ ∀ digest w, StateMachine.Run (step digest) start w → ∀ i c, w.calls.get i = some c →
      c.phase = .returned → Given digest w c.artifact) ∧
    ¬ ∀ digest w, StateMachine.Run (step digest) start w → Idle w →
      ∀ a : Artifact, a.complete = true → Succeeds digest w a := by
  constructor
  · intro h
    let shop := sampleArtifact "shop"
    let blog := sampleArtifact "blog"
    let fooled (w : World) : Bool :=
      ((w.calls.get 1).any fun c => decide (c.phase = .returned ∧ c.artifact = blog)) &&
        w.given.all fun r => decide (r.1 = shop.target)
    obtain ⟨w, hrun, hw⟩ := StateMachine.RunOk.exists_of_checkedRun (step sampleDigest)
      (fun _ _ => True) start
      (ensureActions 0 shop (encode "egg") ++ [.call 1 blog, .stepCall 1 .look]) fooled
      (by decide +kernel)
    obtain ⟨hreturned, hgiven⟩ := Bool.and_eq_true_iff.mp hw
    obtain ⟨c, hc⟩ : ∃ c, w.calls.get 1 = some c := by
      cases hc : w.calls.get 1 with
      | none =>
          rw [hc] at hreturned
          cases hreturned
      | some c => exact ⟨c, rfl⟩
    rw [hc] at hreturned
    obtain ⟨hphase, hblog⟩ := of_decide_eq_true hreturned
    obtain ⟨egg, hmem, -⟩ := h sampleDigest w hrun 1 c hc hphase
    have htarget := of_decide_eq_true (List.all_eq_true.mp hgiven _ hmem)
    rw [hblog] at htarget
    have hne : blog.target ≠ shop.target := by decide
    exact hne htarget
  · intro h
    let shop := sampleArtifact "shop"
    let w : World :=
      { cells := Function.update (fun _ => {}) "d4" { lock := true } }
    have hrun : StateMachine.Run (step sampleDigest) start w := by
      have hlist : StateMachine.runList (step sampleDigest) start
          [.call 0 shop, .stepCall 0 .look, .stepCall 0 .look, .stepCall 0 (.tryLock false),
            .crash] = some w := rfl
      exact StateMachine.Run.of_runList hlist
    have hidle : Idle w := ⟨rfl, fun _ _ hc => nomatch hc⟩
    have hsucceeds := h sampleDigest w hrun hidle shop rfl
    rw [succeeds_iff rfl ⟨0, encode "egg", rfl, rfl⟩] at hsucceeds
    rcases hsucceeds with hready | hlock
    · cases hready
    · cases hlock

end EggCache

end Dopilot
