/-
Dopilot/AgentToken.lean

The one secret between server and agents.

If none is configured, the server generates a token and keeps it under its data
directory; the command line prints it.  Servers and command lines start at any
time, each in a process of its own, and any of them may die at any point.  A
file lock keeps them apart from the look at the file to the end of the write,
and the write goes to a temporary file that then takes the place of the other.

So all of them use one token (`tokens_agree`), and an agent that is given the
printed one is let in.
-/
import Dopilot.Templates
import Dopilot.StateMachine
import Mathlib

namespace Dopilot

open StateMachine

namespace AgentToken

abbrev Pid := Nat

/-- The characters of `secrets.token_urlsafe`. -/
def isUrlsafe (c : Char) : Bool :=
  ('a' ≤ c && c ≤ 'z') || ('A' ≤ c && c ≤ 'Z') || ('0' ≤ c && c ≤ '9') || c == '-' || c == '_'

/-- A token as `secrets.token_urlsafe` makes them. -/
def Urlsafe (token : Text) : Prop := token ≠ [] ∧ token.all isUrlsafe = true

instance (token : Text) : Decidable (Urlsafe token) :=
  inferInstanceAs (Decidable (token ≠ [] ∧ token.all isUrlsafe = true))

/-- `AgentTokenResult.source`. -/
inductive Source where
  | configured
  | disk
  | generated
  deriving DecidableEq, Repr

/-- `AgentTokenResult`. -/
structure AgentTokenResult where
  token : Text
  source : Source
  deriving DecidableEq, Repr

/-- `_read_existing`: a blank file counts as none. -/
def readExisting (file : Option Text) : Option Text :=
  (file.map Text.strip).filter fun token => !token.isEmpty

/-- What `_write_atomic` writes. -/
def tokenLine (token : Text) : Text := token ++ ['\n']

/-! ### The check of a request -/

/-- Why a request is refused, or fails. -/
inductive AuthError where
  | refused (e : ServiceError)
  /-- `compare_digest` takes only ASCII texts. -/
  | typeError
  deriving DecidableEq, Repr

def AuthError.unauthorized : AuthError :=
  .refused (.api 401 "auth.unauthorized" "errors.unauthorized" [])

def isAscii (t : Text) : Bool := t.all fun c => c.toNat < 128

/-- `_extract_bearer`. -/
def extractBearer (header : Option Text) : Option Text :=
  match header with
  | none => none
  | some header =>
      let scheme := header.takeWhile (· ≠ ' ')
      let value := (header.dropWhile (· ≠ ' ')).tail
      if scheme.map Char.toLower ≠ "bearer".toList ∨ value = [] then none
      else some (Text.strip value)

/-- `require_server_token`; `expected` is the token of the settings. -/
def requireServerToken (expected : Text) (header : Option Text) : Except AuthError Unit :=
  if expected = [] then .ok ()
  else
    match extractBearer header with
    | none => .error .unauthorized
    | some token =>
        if token = [] then .error .unauthorized
        else if isAscii token = false ∨ isAscii expected = false then .error .typeError
        else if token = expected then .ok ()
        else .error .unauthorized

/-- The header that an agent sends with its token. -/
def bearerHeader (token : Text) : Text := "Bearer ".toList ++ token

/-! ### Processes -/

/-- Where `resolve_agent_token` stands in a process. -/
inductive Phase where
  /-- It waits for the lock. -/
  | waiting
  /-- It has the lock, and looks at the file next. -/
  | locked
  /-- There is no token. -/
  | missing
  /-- It has written `data` to its temporary file. -/
  | writing (token data : Text)
  /-- The result is found, and the lock is still held. -/
  | leaving (result : AgentTokenResult)
  | returned (result : AgentTokenResult)
  deriving DecidableEq

def Phase.holdsLock : Phase → Bool
  | .locked | .missing | .writing .. | .leaving _ => true
  | .waiting | .returned _ => false

/-- The file of the token, its lock, and the processes that are alive. -/
structure State where
  file : Option Text
  lock : Option Pid := none
  procs : Pid → Option Phase := fun _ => none

def start (file : Option Text) : State := { file := file }

inductive Action where
  /-- A process resolves the token of its settings. -/
  | start (p : Pid) (configured : Option Text)
  | acquire (p : Pid)
  | read (p : Pid)
  /-- `secrets.token_urlsafe`, and `mkstemp`. -/
  | generate (p : Pid) (token : Text)
  /-- Some more characters reach the temporary file. -/
  | write (p : Pid) (n : Nat)
  /-- `os.replace`, when all is written. -/
  | replace (p : Pid)
  | release (p : Pid)
  /-- The process dies, or an exception ends it. -/
  | crash (p : Pid)

def State.setPhase (s : State) (p : Pid) (phase : Phase) : State :=
  { s with procs := Function.update s.procs p (some phase) }

/-- One step. -/
def step (s : State) : Action → Option State
  | .start p configured =>
      if (s.procs p).isSome then none
      else
        let configured := Text.strip (configured.getD [])
        if configured = [] then some (s.setPhase p .waiting)
        else some (s.setPhase p (.returned ⟨configured, .configured⟩))
  | .acquire p =>
      if s.procs p = some .waiting ∧ s.lock = none then
        some { s.setPhase p .locked with lock := some p }
      else none
  | .read p =>
      if s.procs p = some .locked then
        match readExisting s.file with
        | some token => some (s.setPhase p (.leaving ⟨token, .disk⟩))
        | none => some (s.setPhase p .missing)
      else none
  | .generate p token =>
      if s.procs p = some .missing ∧ Urlsafe token then some (s.setPhase p (.writing token []))
      else none
  | .write p n =>
      match s.procs p with
      | some (.writing token data) =>
          some (s.setPhase p (.writing token ((tokenLine token).take (data.length + n))))
      | _ => none
  | .replace p =>
      match s.procs p with
      | some (.writing token data) =>
          if data.length = (tokenLine token).length then
            some { s.setPhase p (.leaving ⟨token, .generated⟩) with file := some data }
          else none
      | _ => none
  | .release p =>
      match s.procs p with
      | some (.leaving result) => some { s.setPhase p (.returned result) with lock := none }
      | _ => none
  | .crash p =>
      match s.procs p with
      | some _ =>
          some
            { s with
              procs := Function.update s.procs p none
              lock := if s.lock = some p then none else s.lock }
      | none => none

/-! ### Texts -/

section Texts

variable {token : Text}

theorem toNat_of_isUrlsafe {c : Char} (h : isUrlsafe c = true) :
    45 ≤ c.toNat ∧ c.toNat ≤ 122 := by
  have hle : ∀ {a b : Char}, a ≤ b → a.toNat ≤ b.toNat := fun h => h
  simp only [isUrlsafe, Bool.or_eq_true, Bool.and_eq_true, decide_eq_true_eq, beq_iff_eq] at h
  rcases h with (((⟨h₁, h₂⟩ | ⟨h₁, h₂⟩) | ⟨h₁, h₂⟩) | rfl) | rfl
  · exact ⟨le_trans (by decide) (hle h₁), le_trans (hle h₂) (by decide)⟩
  · exact ⟨le_trans (by decide) (hle h₁), le_trans (hle h₂) (by decide)⟩
  · exact ⟨le_trans (by decide) (hle h₁), le_trans (hle h₂) (by decide)⟩
  · decide
  · decide

theorem isAscii_of_urlsafe (h : Urlsafe token) : isAscii token = true := by
  apply List.all_eq_true.mpr
  intro c hc
  have hval := toNat_of_isUrlsafe (List.all_eq_true.mp h.2 c hc)
  exact decide_eq_true (by omega)

theorem isSpace_of_isUrlsafe {c : Char} (h : isUrlsafe c = true) : Text.isSpace c = false := by
  have hval := toNat_of_isUrlsafe h
  simp only [Text.isSpace, List.contains_eq_mem, Bool.or_eq_false_iff, Bool.and_eq_false_iff,
    decide_eq_false_iff_not]
  refine ⟨⟨⟨?_, ?_⟩, ?_⟩, ?_⟩
  · omega
  · omega
  · omega
  · simp only [List.mem_cons, List.not_mem_nil, or_false]
    omega

theorem strip_tokenLine (h : Urlsafe token) : Text.strip (tokenLine token) = token := by
  have hall : ∀ c ∈ token, isUrlsafe c = true := List.all_eq_true.mp h.2
  obtain ⟨c, cs, rfl⟩ := List.exists_cons_of_ne_nil h.1
  have hc : ¬ Text.isSpace c = true := by
    rw [isSpace_of_isUrlsafe (hall c List.mem_cons_self)]
    exact Bool.false_ne_true
  have hfront : (tokenLine (c :: cs)).dropWhile Text.isSpace = tokenLine (c :: cs) :=
    List.dropWhile_cons_of_neg hc
  unfold Text.strip
  rw [hfront, tokenLine, List.rdropWhile_concat_pos _ _ _ (by decide)]
  rw [List.rdropWhile_eq_self_iff]
  intro hnil
  rw [isSpace_of_isUrlsafe (hall _ (List.getLast_mem hnil))]
  exact Bool.false_ne_true

theorem strip_of_urlsafe (h : Urlsafe token) : Text.strip token = token := by
  calc Text.strip token = Text.strip (Text.strip (tokenLine token)) := by rw [strip_tokenLine h]
    _ = Text.strip (tokenLine token) := Text.strip_strip _
    _ = token := strip_tokenLine h

/-- What was written is what is read. -/
theorem readExisting_tokenLine (h : Urlsafe token) : readExisting (some (tokenLine token)) = some token := by
  unfold readExisting
  rw [Option.map_some, strip_tokenLine h]
  simp [Option.filter, h.1]

/-- What is read is stripped, and not empty. -/
theorem readExisting_some {file : Option Text} (h : readExisting file = some token) :
    Text.strip token = token ∧ token ≠ [] := by
  unfold readExisting at h
  obtain ⟨hmap, hne⟩ := Option.filter_eq_some_iff.mp h
  obtain ⟨text, -, rfl⟩ := Option.map_eq_some_iff.mp hmap
  exact ⟨Text.strip_strip text, by simpa using hne⟩

/-- The header that bears a token. -/
theorem extractBearer_bearerHeader (hstrip : Text.strip token = token) (hne : token ≠ []) :
    extractBearer (some (bearerHeader token)) = some token := by
  have hheader : bearerHeader token = ['B', 'e', 'a', 'r', 'e', 'r', ' '] ++ token := rfl
  have hscheme : (bearerHeader token).takeWhile (· ≠ ' ') = ['B', 'e', 'a', 'r', 'e', 'r'] := by
    rw [hheader]
    simp
  have hvalue : ((bearerHeader token).dropWhile (· ≠ ' ')).tail = token := by
    rw [hheader]
    simp
  unfold extractBearer
  simp only [hscheme, hvalue, hstrip]
  rw [if_neg]
  rintro (hlower | hempty)
  · exact hlower (by decide)
  · exact hne hempty

/-- An agent with the token of the server is let in. -/
theorem requireServerToken_self (hstrip : Text.strip token = token) (hne : token ≠ [])
    (hascii : isAscii token = true) :
    requireServerToken token (some (bearerHeader token)) = .ok () := by
  unfold requireServerToken
  rw [if_neg hne, extractBearer_bearerHeader hstrip hne]
  simp [hne, hascii]

end Texts

/-! ### One token for all -/

/-- What a process has found, by what is in the file. -/
def Phase.Sound (file : Option Text) : Phase → Prop
  | .waiting | .locked => True
  | .missing => readExisting file = none
  | .writing token data =>
      readExisting file = none ∧ Urlsafe token ∧ data <+: tokenLine token
  | .leaving result | .returned result =>
      result.source ≠ .configured → readExisting file = some result.token

structure Inv (s : State) : Prop where
  lock : ∀ p phase, s.procs p = some phase → phase.holdsLock = true → s.lock = some p
  sound : ∀ p phase, s.procs p = some phase → phase.Sound s.file

section Run

variable {s s' : State} {a : Action} {p : Pid} {phase : Phase}

/-- A process moves, and the file stays. -/
theorem Inv.setPhase (h : Inv s) {lock : Option Pid}
    (hlock : ∀ q phase', q ≠ p → s.procs q = some phase' → phase'.holdsLock = true →
      lock = some q)
    (hself : phase.holdsLock = true → lock = some p) (hsound : phase.Sound s.file) :
    Inv { s.setPhase p phase with lock := lock } where
  lock := by
    intro q phase' hq hholds
    have hq : Function.update s.procs p (some phase) q = some phase' := hq
    by_cases hqp : q = p
    · subst hqp
      rw [Function.update_self] at hq
      obtain rfl := Option.some.inj hq
      exact hself hholds
    · rw [Function.update_of_ne hqp] at hq
      exact hlock q phase' hqp hq hholds
  sound := by
    intro q phase' hq
    have hq : Function.update s.procs p (some phase) q = some phase' := hq
    by_cases hqp : q = p
    · subst hqp
      rw [Function.update_self] at hq
      obtain rfl := Option.some.inj hq
      exact hsound
    · rw [Function.update_of_ne hqp] at hq
      exact h.sound q phase' hq

/-- A process moves, and keeps the lock if it has it. -/
theorem Inv.moves (h : Inv s) {phase' : Phase} (hp : s.procs p = some phase')
    (hholds : phase.holdsLock = true → phase'.holdsLock = true) (hsound : phase.Sound s.file) :
    Inv (s.setPhase p phase) :=
  have hother : ∀ q phase₂, q ≠ p → s.procs q = some phase₂ → phase₂.holdsLock = true →
      s.lock = some q := fun q phase₂ _ hq hq' => h.lock q phase₂ hq hq'
  h.setPhase hother (fun hself => h.lock p phase' hp (hholds hself)) hsound

/-- The file is replaced by the one process that holds the lock, which had found
no token in it. -/
theorem Inv.replace (h : Inv s) {token data : Text}
    (hp : s.procs p = some (.writing token data))
    (hlen : data.length = (tokenLine token).length) :
    Inv { s.setPhase p (.leaving ⟨token, .generated⟩) with file := some data } := by
  obtain ⟨hnone, hurlsafe, hprefix⟩ := h.sound p _ hp
  obtain rfl := hprefix.eq_of_length hlen
  have hread := readExisting_tokenLine hurlsafe
  have hlock := h.lock p _ hp rfl
  constructor
  · intro q phase hq hholds
    have hq : Function.update s.procs p (some (.leaving ⟨token, .generated⟩)) q = some phase := hq
    by_cases hqp : q = p
    · rw [hqp]
      exact hlock
    · rw [Function.update_of_ne hqp] at hq
      exact h.lock q phase hq hholds
  · intro q phase hq
    have hq : Function.update s.procs p (some (.leaving ⟨token, .generated⟩)) q = some phase := hq
    show phase.Sound (some (tokenLine token))
    by_cases hqp : q = p
    · subst hqp
      rw [Function.update_self] at hq
      obtain rfl := Option.some.inj hq
      exact fun _ => hread
    · rw [Function.update_of_ne hqp] at hq
      have hold := h.sound q phase hq
      -- nobody else holds the lock, and nobody has read a token before
      have hfree : phase.holdsLock = false := by
        by_contra hholds
        have hother := h.lock q phase hq (by simpa using hholds)
        rw [hlock] at hother
        exact hqp (Option.some.inj hother).symm
      cases phase with
      | waiting => trivial
      | locked | missing | writing | leaving => cases hfree
      | returned result =>
          intro hsource
          have hbefore := hold hsource
          rw [hnone] at hbefore
          cases hbefore

theorem Inv.step (h : Inv s) (hstep : step s a = some s') : Inv s' := by
  cases a with
  | start p configured =>
      simp only [AgentToken.step] at hstep
      split at hstep
      · cases hstep
      · rename_i hfree
        have hother : ∀ q phase', q ≠ p → s.procs q = some phase' → phase'.holdsLock = true →
            s.lock = some q := fun q phase' _ hq hq' => h.lock q phase' hq hq'
        split at hstep
        · obtain rfl := Option.some.inj hstep
          exact h.setPhase hother (fun hc => by cases hc) trivial
        · obtain rfl := Option.some.inj hstep
          exact h.setPhase hother (fun hc => by cases hc) fun hc => absurd rfl hc
  | acquire p =>
      simp only [AgentToken.step] at hstep
      split at hstep
      · rename_i hok
        obtain rfl := Option.some.inj hstep
        refine h.setPhase (fun q phase' _ hq hq' => ?_) (fun _ => rfl) trivial
        -- the lock was free
        have hheld := h.lock q phase' hq hq'
        rw [hok.2] at hheld
        cases hheld
      · cases hstep
  | read p =>
      simp only [AgentToken.step] at hstep
      split at hstep
      · rename_i hp
        split at hstep
        · rename_i token hread
          obtain rfl := Option.some.inj hstep
          exact h.moves hp (fun _ => rfl) fun _ => hread
        · rename_i hread
          obtain rfl := Option.some.inj hstep
          exact h.moves hp (fun _ => rfl) hread
      · cases hstep
  | generate p token =>
      simp only [AgentToken.step] at hstep
      split at hstep
      · rename_i hok
        obtain rfl := Option.some.inj hstep
        exact h.moves hok.1 (fun _ => rfl) ⟨h.sound p _ hok.1, hok.2, List.nil_prefix⟩
      · cases hstep
  | write p n =>
      simp only [AgentToken.step] at hstep
      split at hstep
      · rename_i token data hp
        obtain rfl := Option.some.inj hstep
        obtain ⟨hnone, hurlsafe, -⟩ := h.sound p _ hp
        exact h.moves hp (fun _ => rfl) ⟨hnone, hurlsafe, List.take_prefix _ _⟩
      · cases hstep
  | replace p =>
      simp only [AgentToken.step] at hstep
      split at hstep
      · rename_i token data hp
        split at hstep
        · rename_i hlen
          obtain rfl := Option.some.inj hstep
          exact h.replace hp hlen
        · cases hstep
      · cases hstep
  | release p =>
      simp only [AgentToken.step] at hstep
      split at hstep
      · rename_i result hp
        obtain rfl := Option.some.inj hstep
        have hsound : result.source ≠ .configured → readExisting s.file = some result.token :=
          h.sound p _ hp
        refine h.setPhase (fun q phase' hqp hq hq' => ?_) (fun hc => by cases hc) hsound
        -- two cannot hold it
        have hmine := h.lock p _ hp rfl
        rw [h.lock q phase' hq hq'] at hmine
        exact absurd (Option.some.inj hmine) hqp
      · cases hstep
  | crash p =>
      simp only [AgentToken.step] at hstep
      split at hstep
      · obtain rfl := Option.some.inj hstep
        have hget : ∀ {q phase}, Function.update s.procs p none q = some phase →
            q ≠ p ∧ s.procs q = some phase := by
          intro q phase hq
          by_cases hqp : q = p
          · rw [hqp, Function.update_self] at hq
            cases hq
          · rw [Function.update_of_ne hqp] at hq
            exact ⟨hqp, hq⟩
        refine ⟨fun q phase hq hholds => ?_, fun q phase hq => h.sound q phase (hget hq).2⟩
        obtain ⟨hqp, hq⟩ := hget hq
        -- a dead process gives back only a lock of its own
        have hlock := h.lock q phase hq hholds
        show (if s.lock = some p then none else s.lock) = some q
        rw [hlock, if_neg fun hc => hqp (Option.some.inj hc)]
      · cases hstep

theorem inv_of_run {file : Option Text} (h : Run step (start file) s) : Inv s :=
  h.invariant (fun _ _ _ hs _ hstep => hs.step hstep)
    ⟨fun _ _ hp => (by cases hp), fun _ _ hp => (by cases hp)⟩

/-- The file is as it was found, or it is one whole line with a generated token. -/
theorem file_whole {file : Option Text} (h : Run step (start file) s) :
    s.file = file ∨ readExisting file = none ∧
      ∃ token, Urlsafe token ∧ s.file = some (tokenLine token) := by
  have hinv := h.invariant (I := fun s => Run step (start file) s ∧ (s.file = file ∨
    readExisting file = none ∧ ∃ token, Urlsafe token ∧ s.file = some (tokenLine token))) ?_
    ⟨RunOk.refl _, .inl rfl⟩
  · exact hinv.2
  · rintro s a s' ⟨hrun, hfile⟩ - hstep
    refine ⟨Relation.ReflTransGen.tail hrun ⟨a, trivial, hstep⟩, ?_⟩
    have hsame : s'.file = s.file → s'.file = file ∨ readExisting file = none ∧
        ∃ token, Urlsafe token ∧ s'.file = some (tokenLine token) := fun h => by rwa [h]
    cases a with
    | replace p =>
        simp only [AgentToken.step] at hstep
        split at hstep
        · rename_i token data hp
          split at hstep
          · rename_i hlen
            obtain rfl := Option.some.inj hstep
            obtain ⟨hnone, hurlsafe, hprefix⟩ := (inv_of_run hrun).sound p _ hp
            obtain rfl := hprefix.eq_of_length hlen
            refine .inr ⟨?_, token, hurlsafe, rfl⟩
            rcases hfile with hfile | ⟨hblank, -⟩
            · rw [← hfile]
              exact hnone
            · exact hblank
          · cases hstep
        · cases hstep
    | start p configured =>
        simp only [AgentToken.step] at hstep
        split at hstep
        · cases hstep
        · split at hstep
          · obtain rfl := Option.some.inj hstep
            exact hsame rfl
          · obtain rfl := Option.some.inj hstep
            exact hsame rfl
    | acquire p | generate p token =>
        simp only [AgentToken.step] at hstep
        split at hstep
        · obtain rfl := Option.some.inj hstep
          exact hsame rfl
        · cases hstep
    | read p =>
        simp only [AgentToken.step] at hstep
        split at hstep
        · split at hstep
          · obtain rfl := Option.some.inj hstep
            exact hsame rfl
          · obtain rfl := Option.some.inj hstep
            exact hsame rfl
        · cases hstep
    | write p n | release p | crash p =>
        simp only [AgentToken.step] at hstep
        split at hstep
        · obtain rfl := Option.some.inj hstep
          exact hsame rfl
        · cases hstep

/-- **All processes use one token.**  Whoever finds no token configured returns
what is in the file, wherever others have died; the file is never seen half
written; and an agent with the token one process has returned is let in by
another, if the token is an ASCII text. -/
theorem tokens_agree (file : Option Text) (s : State) (h : Run step (start file) s) (p q : Pid)
    (r r' : AgentTokenResult) (hp : s.procs p = some (.returned r))
    (hq : s.procs q = some (.returned r')) (hr : r.source ≠ .configured)
    (hr' : r'.source ≠ .configured) :
    r.token = r'.token ∧ readExisting s.file = some r.token ∧
      (s.file = file ∨ readExisting file = none ∧
        ∃ token, Urlsafe token ∧ s.file = some (tokenLine token)) ∧
      (isAscii r.token = true →
        requireServerToken r.token (some (bearerHeader r'.token)) = .ok ()) := by
  have hinv := inv_of_run h
  have hread : readExisting s.file = some r.token := hinv.sound p _ hp hr
  have hread' : readExisting s.file = some r'.token := hinv.sound q _ hq hr'
  have hsame : r.token = r'.token := Option.some.inj (hread.symm.trans hread')
  obtain ⟨hstrip, hne⟩ := readExisting_some hread
  refine ⟨hsame, hread, file_whole h, fun hascii => ?_⟩
  rw [← hsame]
  exact requireServerToken_self hstrip hne hascii

/-- A server dies while it writes the token; the next one and the command line
agree on another. -/
def sampleStart : List Action :=
  [.start 1 none, .acquire 1, .read 1, .generate 1 ['a', 'a'], .write 1 1, .crash 1,
    .start 2 none, .start 3 none, .acquire 3, .read 3, .generate 3 ['b'], .write 3 2,
    .replace 3, .release 3, .acquire 2, .read 2, .release 2]

theorem tokens_agree_sample : ∃ s r r', Run step (start none) s ∧
    s.procs 2 = some (.returned r) ∧ s.procs 3 = some (.returned r') ∧ r.source = .disk ∧
      r'.source = .generated ∧ r.token = r'.token := by
  obtain ⟨s, hrun, hs⟩ := RunOk.exists_of_checkedRun step (fun _ _ => True) (start none) sampleStart
    (fun s => decide (s.procs 2 = some (.returned ⟨['b'], .disk⟩)) &&
      decide (s.procs 3 = some (.returned ⟨['b'], .generated⟩))) (by decide +kernel)
  obtain ⟨h₂, h₃⟩ := Bool.and_eq_true_iff.mp hs
  have h₂ := of_decide_eq_true h₂
  have h₃ := of_decide_eq_true h₃
  exact ⟨s, _, _, hrun, h₂, h₃, rfl, rfl,
    (tokens_agree none s hrun 2 3 _ _ h₂ h₃ (by decide) (by decide)).1⟩

end Run

end AgentToken

end Dopilot
