/-
Dopilot/AdminAuth.lean

Who is let in to the server.

There is one admin.  A login with the right name and password mints a random
token, of which only the keyed hash is stored, with the instant to which it is
good; a static token of the settings is good for ever.  If the settings do not
turn authentication off in so many words, the server does not start without the
three credentials.

The hash is HMAC-SHA256 under the secret of the settings; here it is any
function of secret and message.  Logins are kept in the state as a history that
no step reads.

* `admitted`  : who is let in has logged in not too long ago, or knows the
  static token, or someone has turned authentication off;
* `honoured`  : and a token is good exactly as long as it was said to be.
-/
import Dopilot.AgentToken
import Dopilot.StateMachine
import Mathlib

namespace Dopilot

open StateMachine

namespace AdminAuth

open AgentToken

/-- Instants are in microseconds. -/
def second : Nat := 1000000

/-! ### Settings -/

/-- `AuthSettings`. -/
structure AuthSettings where
  disabled : Bool := false
  adminUsername : Option Text := none
  adminPassword : Option Text := none
  tokenSecret : Option Text := none
  adminApiToken : Option Text := none
  accessTokenTtlMinutes : Int := 720
  streamTokenTtlSeconds : Int := 3600
  deriving DecidableEq, Repr

/-- `AuthSettings.enabled`. -/
def AuthSettings.enabled (s : AuthSettings) : Bool :=
  !s.disabled && (s.adminUsername.getD [] ≠ [] && s.adminPassword.getD [] ≠ [] &&
    s.tokenSecret.getD [] ≠ [])

/-- The settings that bear on who is let in. -/
structure Settings where
  auth : AuthSettings := {}
  agentToken : Option Text := none
  deriving DecidableEq, Repr

/-- The variables of the environment that are read for them. -/
inductive EnvVar where
  | adminUsername
  | adminPassword
  | adminApiToken
  | agentToken
  | accessTokenTtlMinutes
  | streamTokenTtlSeconds
  | authDisabled
  deriving DecidableEq, Repr

/-- `ConfigError`. -/
inductive ConfigError where
  | invalidInteger (var : EnvVar) (raw : Text)
  | invalidBoolean (var : EnvVar) (raw : Text)
  | adminApiTokenTooShort
  | agentTokenTooShort
  /-- Web admin auth is fail-closed: what is missing. -/
  | missingCredentials (names : List EnvVar) (tokenSecret : Bool)
  deriving DecidableEq, Repr

/-- Digits, with single underscores between them. -/
def intDigits (n : Nat) : Text → Option Nat
  | [] => some n
  | c :: t =>
      if c.isDigit then intDigits (n * 10 + (c.toNat - 48)) t
      else
        match c, t with
        | '_', d :: t => if d.isDigit then intDigits (n * 10 + (d.toNat - 48)) t else none
        | _, _ => none

/-- `int`, of a stripped text. -/
def intText : Text → Option Int
  | [] => none
  | c :: t =>
      if c = '-' ∨ c = '+' then
        match t with
        | [] => none
        | d :: t =>
            if d.isDigit then
              (intDigits 0 (d :: t)).map fun n => if c = '-' then -(n : Int) else n
            else none
      else if c.isDigit then (intDigits 0 (c :: t)).map fun n => (n : Int)
      else none

/-- `_parse_int`. -/
def parseInt (var : EnvVar) (raw : Text) : Except ConfigError Int :=
  match intText (Text.strip raw) with
  | some n => .ok n
  | none => .error (.invalidInteger var raw)

def trueWords : List Text := [['1'], ['t', 'r', 'u', 'e'], ['y', 'e', 's'], ['o', 'n']]

def falseWords : List Text := [['0'], ['f', 'a', 'l', 's', 'e'], ['n', 'o'], ['o', 'f', 'f']]

/-- `_parse_bool`. -/
def parseBool (var : EnvVar) (raw : Text) : Except ConfigError Bool :=
  let value := (Text.strip raw).map Char.toLower
  if trueWords.contains value then .ok true
  else if falseWords.contains value then .ok false
  else .error (.invalidBoolean var raw)

section Load

variable (env : EnvVar → Option Text)

/-- A value of the file, unless the environment has one. -/
def override {α : Type} (parse : EnvVar → Text → Except ConfigError α) (var : EnvVar) (old : α) :
    Except ConfigError α :=
  match env var with
  | some raw => parse var raw
  | none => .ok old

/-- `_apply_env_overrides`. -/
def applyEnvOverrides (s : Settings) : Except ConfigError Settings := do
  let ttl ← override env parseInt .accessTokenTtlMinutes s.auth.accessTokenTtlMinutes
  let streamTtl ← override env parseInt .streamTokenTtlSeconds s.auth.streamTokenTtlSeconds
  let disabled ← override env parseBool .authDisabled s.auth.disabled
  return {
    auth :=
      { disabled := disabled
        adminUsername := (env .adminUsername).or s.auth.adminUsername
        adminPassword := (env .adminPassword).or s.auth.adminPassword
        tokenSecret := s.auth.tokenSecret
        adminApiToken := (env .adminApiToken).or s.auth.adminApiToken
        accessTokenTtlMinutes := ttl
        streamTokenTtlSeconds := streamTtl }
    agentToken := (env .agentToken).or s.agentToken }

/-- `_ADMIN_API_TOKEN_MIN_LEN`, and `_AGENT_TOKEN_MIN_LEN`. -/
def tokenMinLen : Nat := 16

/-- A token that is set is long enough. -/
def validateToken (error : ConfigError) (token : Option Text) : Except ConfigError Unit :=
  let token := Text.strip (token.getD [])
  if token ≠ [] ∧ token.length < tokenMinLen then .error error else .ok ()

/-- `_validate_admin_api_token`. -/
def validateAdminApiToken (s : Settings) : Except ConfigError Unit :=
  validateToken .adminApiTokenTooShort s.auth.adminApiToken

/-- `_validate_agent_token`. -/
def validateAgentToken (s : Settings) : Except ConfigError Unit :=
  validateToken .agentTokenTooShort s.agentToken

/-- Nothing but spaces. -/
def blank (t : Option Text) : Bool := Text.strip (t.getD []) = []

/-- `_enforce_fail_closed_auth`. -/
def enforceFailClosedAuth (s : Settings) : Except ConfigError Unit :=
  if s.auth.disabled then .ok ()
  else
    let names := (if blank s.auth.adminUsername then [EnvVar.adminUsername] else []) ++
      if blank s.auth.adminPassword then [EnvVar.adminPassword] else []
    if names = [] ∧ blank s.auth.tokenSecret = false then .ok ()
    else .error (.missingCredentials names (blank s.auth.tokenSecret))

/-- `load_settings`, from what the file says. -/
def loadSettings (file : Settings) : Except ConfigError Settings := do
  let s ← applyEnvOverrides env file
  validateAdminApiToken s
  validateAgentToken s
  enforceFailClosedAuth s
  return s

end Load

/-! ### Tokens of the admin -/

/-- A row of `auth_tokens`. -/
structure AuthToken where
  tokenHash : Text
  expiresAt : Int
  revoked : Bool := false
  deriving DecidableEq, Repr

/-- The table; the hashes are unique. -/
structure AuthTokens where
  rows : List AuthToken
  unique : (rows.map AuthToken.tokenHash).Nodup

def AuthTokens.empty : AuthTokens := ⟨[], List.nodup_nil⟩

/-- An insert, which fails on a hash that is there. -/
def AuthTokens.insert? (t : AuthTokens) (row : AuthToken) : Option AuthTokens :=
  if h : ∃ r ∈ t.rows, r.tokenHash = row.tokenHash then none
  else
    some
      { rows := row :: t.rows
        unique := List.nodup_cons.mpr ⟨fun hm => h (List.mem_map.mp hm), t.unique⟩ }

def AuthTokens.byHash (t : AuthTokens) (hash : Text) : Option AuthToken :=
  t.rows.find? fun row => row.tokenHash = hash

/-- `hexdigest`. -/
def hexdigest (bytes : Bytes) : Text :=
  bytes.flatMap fun b => [Nat.digitChar (b.toNat / 16), Nat.digitChar (b.toNat % 16)]

def invalidCredentials : AuthError :=
  .refused (.api 401 "auth.invalid_credentials" "errors.invalidCredentials" [])

inductive Mode where
  | on
  | off
  deriving DecidableEq, Repr

/-- `AdminContext`. -/
structure AdminContext where
  mode : Mode
  username : Option Text
  authenticated : Bool
  expiresAt : Option Int
  deriving DecidableEq, Repr

section Requests

variable (hmac : Text → Text → Bytes) (settings : AuthSettings)

/-- `hash_token`, under the secret of the settings. -/
def hashToken (token : Text) : Text := hexdigest (hmac (settings.tokenSecret.getD []) token)

/-- The row that `issue_token` adds. -/
def tokenRow (token : Text) (now : Nat) : AuthToken where
  tokenHash := hashToken hmac settings token
  expiresAt := now + settings.accessTokenTtlMinutes * 60 * second

/-- `get_token_record`. -/
def getTokenRecord (tokens : AuthTokens) (now : Nat) (token : Text) : Option AuthToken :=
  if token = [] then none
  else
    (tokens.byHash (hashToken hmac settings token)).filter fun row =>
      !row.revoked && decide ((now : Int) < row.expiresAt)

/-- The static token, stripped. -/
def apiToken : Text := Text.strip (settings.adminApiToken.getD [])

/-- `get_current_admin`. -/
def getCurrentAdmin (tokens : AuthTokens) (now : Nat) (header : Option Text) :
    Except AuthError AdminContext :=
  if settings.enabled = false then .ok ⟨.off, some ['a', 'd', 'm', 'i', 'n'], true, none⟩
  else
    let token := (extractBearer header).getD []
    if apiToken settings ≠ [] ∧ token ≠ [] ∧
        (isAscii token = false ∨ isAscii (apiToken settings) = false) then .error .typeError
    else if apiToken settings ≠ [] ∧ token ≠ [] ∧ token = apiToken settings then
      .ok ⟨.on, settings.adminUsername, true, none⟩
    else
      match getTokenRecord hmac settings tokens now token with
      | none => .error .unauthorized
      | some row => .ok ⟨.on, settings.adminUsername, true, some row.expiresAt⟩

/-- The check of `login`. -/
def checkCredentials (username password : Text) : Except AuthError Unit :=
  if username = settings.adminUsername.getD [] ∧ password = settings.adminPassword.getD [] then
    .ok ()
  else .error invalidCredentials

/-! ### The server over time -/

/-- A login that was answered with a token. -/
structure Login where
  username : Text
  password : Text
  token : Text
  time : Nat
  deriving DecidableEq

structure State where
  now : Nat
  tokens : AuthTokens
  /-- History. -/
  logins : List Login

def start (now : Nat) : State := ⟨now, .empty, []⟩

inductive Action where
  | tick (elapsed : Nat)
  /-- `login`; `token` is what `secrets.token_urlsafe` draws. -/
  | login (username password token : Text)

def step (s : State) : Action → Option State
  | .tick elapsed => some { s with now := s.now + elapsed }
  | .login username password token =>
      if ¬ Urlsafe token then none
      else if settings.enabled = false then some s
      else
        match checkCredentials settings username password with
        | .error _ => some s
        | .ok () =>
            match s.tokens.insert? (tokenRow hmac settings token s.now) with
            -- the commit fails, and the request with it
            | none => some s
            | some tokens =>
                some
                  { s with
                    tokens := tokens
                    logins := ⟨username, password, token, s.now⟩ :: s.logins }

end Requests

/-! ### Starting up -/

section Startup

variable {env : EnvVar → Option Text} {file s : Settings}

theorem validateToken_ok {error : ConfigError} {token : Option Text}
    (h : validateToken error token = .ok ()) :
    Text.strip (token.getD []) = [] ∨ tokenMinLen ≤ (Text.strip (token.getD [])).length := by
  unfold validateToken at h
  simp only at h
  split at h
  · cases h
  · rename_i hok
    by_cases hne : Text.strip (token.getD []) = []
    · exact .inl hne
    · exact .inr (not_lt.mp fun hlt => hok ⟨hne, hlt⟩)

theorem ne_nil_of_not_blank {t : Option Text} (h : ¬ blank t = true) : t.getD [] ≠ [] := by
  intro hnil
  apply h
  rw [blank, hnil]
  rfl

/-- Authentication that is not turned off is on, once the server runs. -/
theorem enabled_of_enforce (h : enforceFailClosedAuth s = .ok ()) :
    s.auth.disabled = true ∨ s.auth.enabled = true := by
  by_cases hdisabled : s.auth.disabled = true
  · exact .inl hdisabled
  right
  simp only [enforceFailClosedAuth, hdisabled] at h
  by_cases husername : blank s.auth.adminUsername = true
  · simp [husername] at h
  by_cases hpassword : blank s.auth.adminPassword = true
  · simp [hpassword] at h
  by_cases hsecret : blank s.auth.tokenSecret = true
  · simp [hsecret] at h
  simp [AuthSettings.enabled, hdisabled, ne_nil_of_not_blank husername,
    ne_nil_of_not_blank hpassword, ne_nil_of_not_blank hsecret]

/-- Someone has turned authentication off, in the environment or in the file. -/
def TurnedOff (env : EnvVar → Option Text) (file : Settings) : Prop :=
  (∃ raw, env .authDisabled = some raw ∧ parseBool .authDisabled raw = .ok true) ∨
    env .authDisabled = none ∧ file.auth.disabled = true

theorem bind_eq_ok {α β : Type} {x : Except ConfigError α} {f : α → Except ConfigError β} {b : β}
    (h : x >>= f = .ok b) : ∃ a, x = .ok a ∧ f a = .ok b := by
  cases x with
  | error e => cases h
  | ok a => exact ⟨a, rfl, h⟩

theorem turnedOff_of_overrides (h : applyEnvOverrides env file = .ok s)
    (hs : s.auth.disabled = true) : TurnedOff env file := by
  obtain ⟨ttl, -, h⟩ := bind_eq_ok h
  obtain ⟨streamTtl, -, h⟩ := bind_eq_ok h
  obtain ⟨disabled, hdisabled, h⟩ := bind_eq_ok h
  obtain rfl := Except.ok.inj h
  have hs : disabled = true := hs
  rw [hs] at hdisabled
  unfold override at hdisabled
  split at hdisabled
  · rename_i raw hraw
    exact .inl ⟨raw, hraw, hdisabled⟩
  · rename_i hnone
    exact .inr ⟨hnone, Except.ok.inj hdisabled⟩

/-- What is known of the settings of a server that runs. -/
theorem loadSettings_ok (h : loadSettings env file = .ok s) :
    (s.auth.enabled = true ∨ s.auth.disabled = true ∧ TurnedOff env file) ∧
      (apiToken s.auth = [] ∨ tokenMinLen ≤ (apiToken s.auth).length) := by
  obtain ⟨s₁, hs, h⟩ := bind_eq_ok h
  obtain ⟨_, hapi, h⟩ := bind_eq_ok h
  obtain ⟨_, -, h⟩ := bind_eq_ok h
  obtain ⟨_, henforce, h⟩ := bind_eq_ok h
  obtain rfl := Except.ok.inj h
  refine ⟨?_, validateToken_ok hapi⟩
  rcases enabled_of_enforce henforce with hdisabled | henabled
  · exact .inr ⟨hdisabled, turnedOff_of_overrides hs hdisabled⟩
  · exact .inl henabled

end Startup

/-! ### Every reachable state -/

section Run

variable {hmac : Text → Text → Bytes} {settings : AuthSettings}
variable {s s' : State} {a : Action}

/-- A token that a login has returned, and that is good at `now`. -/
def LoggedIn (hmac : Text → Text → Bytes) (settings : AuthSettings) (logins : List Login)
    (now : Nat) (token : Text) : Prop :=
  ∃ l ∈ logins, hashToken hmac settings l.token = hashToken hmac settings token ∧
    l.username = settings.adminUsername.getD [] ∧ l.password = settings.adminPassword.getD [] ∧
    l.time ≤ now ∧ (now : Int) < l.time + settings.accessTokenTtlMinutes * 60 * second

/-- The header bears the static token, or one of a login. -/
def Admitted (hmac : Text → Text → Bytes) (settings : AuthSettings) (logins : List Login)
    (now : Nat) (header : Option Text) : Prop :=
  ∃ token, extractBearer header = some token ∧ token ≠ [] ∧
    (token = apiToken settings ∨ LoggedIn hmac settings logins now token)

structure Inv (hmac : Text → Text → Bytes) (settings : AuthSettings) (s : State) : Prop where
  logins : ∀ l ∈ s.logins, settings.enabled = true ∧ l.time ≤ s.now ∧ Urlsafe l.token ∧
    l.username = settings.adminUsername.getD [] ∧ l.password = settings.adminPassword.getD [] ∧
    tokenRow hmac settings l.token l.time ∈ s.tokens.rows
  rows : ∀ row ∈ s.tokens.rows, ∃ l ∈ s.logins, row = tokenRow hmac settings l.token l.time

/-- A row is found by its hash. -/
theorem AuthTokens.byHash_of_mem {t : AuthTokens} {row : AuthToken} (h : row ∈ t.rows) :
    t.byHash row.tokenHash = some row := by
  cases hfind : t.byHash row.tokenHash with
  | none =>
      have hnone := List.find?_eq_none.mp hfind row h
      simp at hnone
  | some found =>
      have hmem := List.mem_of_find?_eq_some hfind
      have hhash : found.tokenHash = row.tokenHash := by simpa using List.find?_some hfind
      rw [List.inj_on_of_nodup_map t.unique hmem h hhash]

theorem mem_of_byHash {t : AuthTokens} {row : AuthToken} {hash : Text}
    (h : t.byHash hash = some row) : row ∈ t.rows ∧ row.tokenHash = hash :=
  ⟨List.mem_of_find?_eq_some h, by simpa using List.find?_some h⟩

/-- Whom the server takes for the admin has logged in, or has the static token. -/
theorem admitted_of_ok {header : Option Text} {ctx : AdminContext} (hinv : Inv hmac settings s)
    (henabled : settings.enabled = true)
    (h : getCurrentAdmin hmac settings s.tokens s.now header = .ok ctx) :
    Admitted hmac settings s.logins s.now header := by
  unfold getCurrentAdmin at h
  rw [if_neg (by simp [henabled])] at h
  simp only at h
  have hbearer : (extractBearer header).getD [] ≠ [] →
      extractBearer header = some ((extractBearer header).getD []) := by
    intro hne
    cases hb : extractBearer header with
    | none => exact absurd (by rw [hb]; rfl) hne
    | some token => rfl
  split at h
  · cases h
  · split at h
    · rename_i hapi
      exact ⟨_, hbearer hapi.2.1, hapi.2.1, .inl hapi.2.2⟩
    · split at h
      · cases h
      · rename_i row hrow
        unfold getTokenRecord at hrow
        split at hrow
        · cases hrow
        · rename_i hne
          obtain ⟨hfind, hlive⟩ := Option.filter_eq_some_iff.mp hrow
          obtain ⟨hmem, hhash⟩ := mem_of_byHash hfind
          obtain ⟨l, hl, rfl⟩ := hinv.rows row hmem
          obtain ⟨-, htime, -, husername, hpassword, -⟩ := hinv.logins l hl
          have hlive : (s.now : Int) < l.time + settings.accessTokenTtlMinutes * 60 * second :=
            of_decide_eq_true (Bool.and_eq_true_iff.mp hlive).2
          exact ⟨_, hbearer hne, hne,
            .inr ⟨l, hl, hhash, husername, hpassword, htime, hlive⟩⟩

theorem Inv.step (h : Inv hmac settings s) (hstep : step hmac settings s a = some s') :
    Inv hmac settings s' := by
  cases a with
  | tick elapsed =>
      obtain rfl := Option.some.inj hstep
      refine ⟨fun l hl => ?_, h.rows⟩
      obtain ⟨henabled, htime, hrest⟩ := h.logins l hl
      exact ⟨henabled, le_trans htime (Nat.le_add_right _ _), hrest⟩
  | login username password token =>
      simp only [AdminAuth.step] at hstep
      split at hstep
      · cases hstep
      rename_i hurlsafe
      -- authentication is off, the credentials are wrong, or the hash is taken
      split at hstep
      · obtain rfl := Option.some.inj hstep
        exact h
      rename_i henabled
      have henabled : settings.enabled = true := by simpa using henabled
      split at hstep
      · obtain rfl := Option.some.inj hstep
        exact h
      rename_i hcheck
      split at hstep
      · obtain rfl := Option.some.inj hstep
        exact h
      rename_i tokens hinsert
      obtain rfl := Option.some.inj hstep
      have hright : username = settings.adminUsername.getD [] ∧
          password = settings.adminPassword.getD [] := by
        unfold checkCredentials at hcheck
        split at hcheck
        · rename_i hright
          exact hright
        · cases hcheck
      have hrows : tokens.rows = tokenRow hmac settings token s.now :: s.tokens.rows := by
        unfold AuthTokens.insert? at hinsert
        split at hinsert
        · cases hinsert
        · rw [← Option.some.inj hinsert]
      constructor
      · intro l hl
        rcases List.mem_cons.mp hl with rfl | hl
        · refine ⟨henabled, le_rfl, not_not.mp hurlsafe, hright.1, hright.2, ?_⟩
          rw [hrows]
          exact List.mem_cons_self
        · obtain ⟨-, htime, hsafe, husername, hpassword, hrow⟩ := h.logins l hl
          refine ⟨henabled, htime, hsafe, husername, hpassword, ?_⟩
          rw [hrows]
          exact List.mem_cons_of_mem _ hrow
      · intro row hrow
        rw [hrows] at hrow
        rcases List.mem_cons.mp hrow with rfl | hrow
        · exact ⟨_, List.mem_cons_self, rfl⟩
        · obtain ⟨l, hl, heq⟩ := h.rows row hrow
          exact ⟨l, List.mem_cons_of_mem _ hl, heq⟩

theorem inv_of_run {now : Nat} (h : Run (step hmac settings) (start now) s) :
    Inv hmac settings s :=
  h.invariant (fun _ _ _ hs _ hstep => hs.step hstep)
    ⟨fun _ hl => (by cases hl), fun _ hrow => (by cases hrow)⟩

/-- What HMAC-SHA256 gives under the key `k` for the token `t`. -/
def sampleHmac (secret message : Text) : Bytes :=
  if secret = ['k'] ∧ message = ['t'] then
    [231, 252, 188, 22, 248, 38, 173, 150, 72, 94, 172, 238, 254, 3, 160, 217, 84, 97, 109,
      250, 190, 31, 82, 59, 214, 59, 183, 98, 27, 94, 11, 213]
  else []

def sampleFile : Settings where
  auth := { adminUsername := some ['u'], adminPassword := some ['p'], tokenSecret := some ['k'] }

def sampleRun : List Action :=
  [.login ['u'] ['x'] ['s'], .login ['u'] ['p'] ['t'], .tick second]

/-- **Nobody else is let in.**  If the settings of the server are what it loads
from its file and environment, then a request that is taken for the admin's
bears the static token, which is not a short one, or a token with the hash of
one that a login with the right name and password was given, less than its time
to live ago; or else someone has turned authentication off. -/
theorem admitted (hmac : Text → Text → Bytes) (env : EnvVar → Option Text) (file loaded : Settings)
    (hload : loadSettings env file = .ok loaded) (now : Nat) (s : State)
    (h : Run (step hmac loaded.auth) (start now) s) (header : Option Text) (ctx : AdminContext)
    (hok : getCurrentAdmin hmac loaded.auth s.tokens s.now header = .ok ctx) :
    loaded.auth.disabled = true ∧ TurnedOff env file ∨
      ∃ token, extractBearer header = some token ∧
        (token = apiToken loaded.auth ∧ tokenMinLen ≤ token.length ∨
          LoggedIn hmac loaded.auth s.logins s.now token) := by
  obtain ⟨henabled | hoff, hlong⟩ := loadSettings_ok hload
  · right
    obtain ⟨token, hbearer, hne, htoken | hlogin⟩ := admitted_of_ok (inv_of_run h) henabled hok
    · refine ⟨token, hbearer, .inl ⟨htoken, ?_⟩⟩
      rcases hlong with hempty | hlong
      · exact absurd (htoken.trans hempty) hne
      · rw [htoken]
        exact hlong
    · exact ⟨token, hbearer, .inr hlogin⟩
  · exact .inl hoff

theorem admitted_sample : ∃ s ctx, Run (step sampleHmac sampleFile.auth) (start 0) s ∧
    getCurrentAdmin sampleHmac sampleFile.auth s.tokens s.now (some (bearerHeader ['t'])) = .ok ctx ∧
      (sampleFile.auth.disabled = true ∧ TurnedOff (fun _ => none) sampleFile ∨
        ∃ token, extractBearer (some (bearerHeader ['t'])) = some token ∧
          (token = apiToken sampleFile.auth ∧ tokenMinLen ≤ token.length ∨
            LoggedIn sampleHmac sampleFile.auth s.logins s.now token)) := by
  obtain ⟨s, hrun, hs⟩ := RunOk.exists_of_checkedRun (step sampleHmac sampleFile.auth)
    (fun _ _ => True) (start 0) sampleRun
    (fun s => (getCurrentAdmin sampleHmac sampleFile.auth s.tokens s.now
      (some (bearerHeader ['t']))).isOk) (by decide +kernel)
  cases hok : getCurrentAdmin sampleHmac sampleFile.auth s.tokens s.now
      (some (bearerHeader ['t'])) with
  | error e =>
      rw [hok] at hs
      cases hs
  | ok ctx =>
      exact ⟨s, ctx, hrun, hok, admitted sampleHmac (fun _ => none) sampleFile sampleFile
        (by decide +kernel) 0 s hrun _ ctx hok⟩

/-- **A token is good as long as it was said to be.**  In every reachable state,
the token of each login is taken for the admin's until its time to live is over,
and not from then on, if the static token, which is for ever, is another one and
can be compared. -/
theorem honoured (hmac : Text → Text → Bytes) (settings : AuthSettings) (now : Nat) (s : State)
    (h : Run (step hmac settings) (start now) s) (hascii : isAscii (apiToken settings) = true)
    (l : Login) (hl : l ∈ s.logins) (hother : l.token ≠ apiToken settings) :
    getCurrentAdmin hmac settings s.tokens s.now (some (bearerHeader l.token)) =
      if (s.now : Int) < l.time + settings.accessTokenTtlMinutes * 60 * second then
        .ok ⟨.on, settings.adminUsername, true,
          some (l.time + settings.accessTokenTtlMinutes * 60 * second)⟩
      else .error .unauthorized := by
  obtain ⟨henabled, -, hsafe, -, -, hrow⟩ := (inv_of_run h).logins l hl
  have hbearer := extractBearer_bearerHeader (strip_of_urlsafe hsafe) hsafe.1
  have hfind : s.tokens.byHash (hashToken hmac settings l.token) =
      some (tokenRow hmac settings l.token l.time) := AuthTokens.byHash_of_mem hrow
  have hrecord : getTokenRecord hmac settings s.tokens s.now l.token =
      if (s.now : Int) < l.time + settings.accessTokenTtlMinutes * 60 * second then
        some (tokenRow hmac settings l.token l.time) else none := by
    unfold getTokenRecord
    rw [if_neg hsafe.1, hfind]
    show (if (!false && decide _) = true then _ else none) = _
    simp only [Bool.not_false, Bool.true_and, decide_eq_true_eq]
    rfl
  -- both texts are ASCII, so `compare_digest` does not raise
  have hcompared : ¬ (apiToken settings ≠ [] ∧ l.token ≠ [] ∧
      (isAscii l.token = false ∨ isAscii (apiToken settings) = false)) := by
    rw [isAscii_of_urlsafe hsafe, hascii]
    simp
  unfold getCurrentAdmin
  rw [if_neg (by simp [henabled]), hbearer]
  simp only [Option.getD_some]
  rw [if_neg hcompared, if_neg fun hsame => hother hsame.2.2, hrecord]
  by_cases hlive : (s.now : Int) < l.time + settings.accessTokenTtlMinutes * 60 * second
  · rw [if_pos hlive, if_pos hlive]
    rfl
  · rw [if_neg hlive, if_neg hlive]

theorem honoured_sample : ∃ s, Run (step sampleHmac sampleFile.auth) (start 0) s ∧
    ∃ l ∈ s.logins, getCurrentAdmin sampleHmac sampleFile.auth s.tokens s.now
      (some (bearerHeader l.token)) =
        if (s.now : Int) < l.time + 720 * 60 * second then
          .ok ⟨.on, some ['u'], true, some (l.time + 720 * 60 * second)⟩
        else .error .unauthorized := by
  obtain ⟨s, hrun, hs⟩ := RunOk.exists_of_checkedRun (step sampleHmac sampleFile.auth)
    (fun _ _ => True) (start 0) sampleRun (fun s => decide (∃ l ∈ s.logins, l.token ≠ []))
    (by decide +kernel)
  obtain ⟨l, hl, hne⟩ := of_decide_eq_true hs
  exact ⟨s, hrun, l, hl, honoured sampleHmac sampleFile.auth 0 s hrun (by decide) l hl hne⟩

end Run

end AdminAuth

end Dopilot
