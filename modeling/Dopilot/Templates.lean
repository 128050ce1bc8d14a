/-
Dopilot/Templates.lean

Build artifacts, execution templates and what a template runs.

A template binds one artifact, and the type of the artifact says how a command
is read: a Scrapy egg takes a `scrapy crawl` command, a wheel any text that is
not blank, as a command for a shell.  `buildRunRequest` puts a template, its
artifact and the overrides of a schedule together; the command that is run is
the override where there is one.

The services check what they are given and fail with the error that the API
answers.  An id that names no row stands for every string that is no id.
-/
import Dopilot.Schedules
import Dopilot.ScrapyCommand

namespace Dopilot

/-! ### Errors -/

/-- A value in the detail of an error. -/
inductive ErrorValue where
  | null
  | text (t : Text)
  | texts (ts : List Text)
  | number (n : Int)
  | ref (id : Nat)
  deriving DecidableEq, Repr

/-- How a service fails. -/
inductive ServiceError where
  /-- `ApiError`. -/
  | api (status : Nat) (code messageKey : String) (detail : List (String × ErrorValue))
  /-- A constraint of the database, when the row is written. -/
  | integrity
  deriving DecidableEq, Repr

abbrev Service (α : Type) : Type := Except ServiceError α

/-- A service that returned went through all of its steps. -/
theorem Service.bind_ok {α β : Type} {x : Service α} {f : α → Service β} {b : β}
    (h : x >>= f = .ok b) : ∃ a, x = .ok a ∧ f a = .ok b := by
  cases x with
  | error e => cases h
  | ok a => exact ⟨a, rfl, h⟩

theorem Service.pure_ok {α : Type} {a b : α} (h : (pure a : Service α) = .ok b) : a = b :=
  Except.ok.inj h

/-- `value or fallback`, of an optional text. -/
def Text.orElse (t : Option Text) (fallback : Text) : Text :=
  match t with
  | none => fallback
  | some t => if t.isEmpty then fallback else t

/-! ### Artifacts -/

/-- `ARTIFACT_TYPES`. -/
inductive ArtifactType where
  | scrapy
  | pythonWheel
  | dockerImage
  deriving DecidableEq, Repr

namespace ArtifactType

def text : ArtifactType → String
  | .scrapy => "scrapy"
  | .pythonWheel => "python_wheel"
  | .dockerImage => "docker_image"

/-- `RUNNABLE_ARTIFACT_TYPES`. -/
def runnable : ArtifactType → Bool
  | .dockerImage => false
  | _ => true

end ArtifactType

/-- One row of `build_artifacts`, with what its metadata says. -/
structure BuildArtifact where
  artifactType : ArtifactType
  name : Text := []
  project : Option Text := none
  version : Option Text := none
  spiders : List Text := []
  archivedAt : Option Time := none
  deriving DecidableEq, Repr

/-! ### Commands -/

open ScrapyCommand (Parsed parseScrapyCommand)

/-- `validate_command`. -/
def validateCommand (command : Option Text) : Service Parsed :=
  match parseScrapyCommand command with
  | .ok parsed => .ok parsed
  | .error e =>
      .error (.api 400 "command.invalid" "errors.invalidCommand"
        (e.detail.map fun d => (d.1, .text d.2)))

/-- `validate_wheel_command`. -/
def validateWheelCommand (command : Option Text) : Service Text :=
  let stripped := Text.strip (command.getD [])
  if stripped.isEmpty then
    .error (.api 400 "template.invalid_params" "errors.invalidParams"
      [("missing", .texts ["command".toList])])
  else .ok stripped

/-- `validate_command_by_type`. -/
def validateCommandByType (command : Option Text) (artifactType : ArtifactType) : Service Unit :=
  if artifactType = .scrapy then do
    let _ ← validateCommand command
  else do
    let _ ← validateWheelCommand command

/-- `ensure_spider_in_artifact`. -/
def ensureSpiderInArtifact (spider : Text) (spiders : List Text) : Service Unit :=
  if spiders ≠ [] ∧ spider ∉ spiders then
    .error (.api 400 "command.unknown_spider" "errors.unknownSpider"
      [("spider", .text spider), ("spiders", .texts spiders)])
  else .ok ()

/-- `_validate_command_for_artifact`. -/
def validateCommandForArtifact (artifact : BuildArtifact) (command : Text) : Service Unit :=
  if artifact.artifactType = .scrapy then do
    let parsed ← validateCommand (some command)
    ensureSpiderInArtifact parsed.spider artifact.spiders
  else do
    let _ ← validateWheelCommand (some command)

/-- A command for a shell only has to say something. -/
theorem validateWheelCommand_ok {c : Text} :
    validateWheelCommand (some c) = .ok (Text.strip c) ↔ Text.strip c ≠ [] := by
  show (if (Text.strip c).isEmpty = true then _ else _) = _ ↔ _
  by_cases hc : Text.strip c = []
  · simp [hc]
  · simp [hc]

theorem validateWheelCommand_isOk {c : Text} :
    (∃ t, validateWheelCommand (some c) = .ok t) ↔ Text.strip c ≠ [] := by
  constructor
  · rintro ⟨t, ht⟩ hc
    simp [validateWheelCommand, hc] at ht
  · intro hc
    exact ⟨_, validateWheelCommand_ok.mpr hc⟩

/-! ### Overrides -/

/-- A payload of overrides; a key that is absent is `none`. -/
structure Overrides where
  buildArtifactId : Option Text := none
  command : Option Text := none
  nodeStrategy : Option Text := none
  nodeIds : Option (List Text) := none
  deriving DecidableEq, Repr

/-- The branch of `sanitize_overrides` for a command; a blank one is absent. -/
def sanitizeCommand (artifactType : ArtifactType) : Option Text → Service (Option Text)
  | none => .ok none
  | some command =>
      let command := Text.strip command
      if command.isEmpty then .ok none
      else do
        validateCommandByType (some command) artifactType
        return some command

/-- `sanitize_overrides`. -/
def sanitizeOverrides (data : Option Overrides) (artifactType : ArtifactType) :
    Service Overrides :=
  let data := data.getD {}
  if data.buildArtifactId.isSome then
    .error (.api 400 "schedule.artifact_override_forbidden" "errors.artifactOverrideForbidden" [])
  else do
    let command ← sanitizeCommand artifactType data.command
    return { data with command := command }

/-- What `sanitize_overrides` leaves of a payload, apart from the type of the artifact. -/
def Overrides.Clean (o : Overrides) : Prop :=
  o.buildArtifactId = none ∧ ∀ c, o.command = some c → Text.strip c = c ∧ c ≠ []

/-- `validate_command_by_type` accepts the command of the overrides. -/
def Overrides.AcceptedBy (o : Overrides) (artifactType : ArtifactType) : Prop :=
  ∀ c, o.command = some c → validateCommandByType (some c) artifactType = .ok ()

instance (o : Overrides) (artifactType : ArtifactType) : Decidable (o.AcceptedBy artifactType) :=
  match h : o.command with
  | none => isTrue fun c hc => by rw [h] at hc; cases hc
  | some c =>
      decidable_of_iff (validateCommandByType (some c) artifactType = .ok ())
        ⟨fun hok c' hc' => by rw [h] at hc'; cases hc'; exact hok, fun hall => hall c h⟩

section Overrides

variable {data : Option Overrides} {o : Overrides} {artifactType : ArtifactType}

theorem sanitizeCommand_ok {command kept : Option Text}
    (h : sanitizeCommand artifactType command = .ok kept) {c : Text} (hc : kept = some c) :
    (Text.strip c = c ∧ c ≠ []) ∧ validateCommandByType (some c) artifactType = .ok () := by
  subst hc
  cases command with
  | none => cases h
  | some command =>
      by_cases hblank : Text.strip command = []
      · simp [sanitizeCommand, hblank] at h
      · rw [sanitizeCommand, if_neg (by simpa using hblank)] at h
        obtain ⟨u, hvalid, hret⟩ := Service.bind_ok h
        obtain rfl : Text.strip command = c := Option.some.inj (Service.pure_ok hret)
        exact ⟨⟨Text.strip_strip command, hblank⟩, hvalid⟩

/-- **What `sanitize_overrides` keeps is clean, and its command is accepted.** -/
theorem sanitizeOverrides_ok (h : sanitizeOverrides data artifactType = .ok o) :
    o.Clean ∧ o.AcceptedBy artifactType := by
  unfold sanitizeOverrides at h
  by_cases hbuild : (data.getD {}).buildArtifactId.isSome = true
  · rw [if_pos hbuild] at h
    cases h
  · rw [if_neg hbuild] at h
    obtain ⟨command, hcommand, hret⟩ := Service.bind_ok h
    obtain rfl := Service.pure_ok hret
    refine ⟨⟨by simpa using hbuild, ?_⟩, ?_⟩
    · intro c hc
      exact (sanitizeCommand_ok hcommand hc).1
    · intro c hc
      exact (sanitizeCommand_ok hcommand hc).2

/-- **Clean overrides pass unchanged** where their command is accepted. -/
theorem sanitizeOverrides_clean (hclean : o.Clean) (hok : o.AcceptedBy artifactType) :
    sanitizeOverrides (some o) artifactType = .ok o := by
  obtain ⟨hbuild, hcommand⟩ := hclean
  have hkept : sanitizeCommand artifactType o.command = .ok o.command := by
    cases hc : o.command with
    | none => rfl
    | some c =>
        obtain ⟨hstrip, hne⟩ := hcommand c hc
        rw [sanitizeCommand, hstrip, if_neg (by simpa using hne), hok c hc]
        rfl
  show (if o.buildArtifactId.isSome = true then _ else _) = _
  rw [hbuild, if_neg (by simp), Option.getD_some, hkept]
  rfl

/-- A shell takes every clean command. -/
theorem acceptedBy_shell (hclean : o.Clean) (htype : artifactType ≠ .scrapy) :
    o.AcceptedBy artifactType := by
  intro c hc
  obtain ⟨hstrip, hne⟩ := hclean.2 c hc
  obtain ⟨t, ht⟩ := validateWheelCommand_isOk.mpr (by rwa [hstrip])
  rw [validateCommandByType, if_neg htype, ht]
  rfl

end Overrides

/-! ### Templates -/

/-- One row of `execution_templates`; a blank `build_artifact_id` is `none`. -/
structure ExecutionTemplate where
  name : Text
  description : Option Text := none
  buildArtifactId : Option ArtifactId := none
  project : Option Text := none
  version : Option Text := none
  command : Option Text := none
  nodeStrategy : Text := "all".toList
  nodeIds : List Text := []
  deriving DecidableEq, Repr

/-- `ExecutionTemplateCreateRequest`. -/
structure TemplateCreate where
  name : Text
  description : Option Text := none
  buildArtifactId : Option ArtifactId
  command : Text
  nodeStrategy : Text := "all".toList
  nodeIds : List Text := []

/-- `ExecutionTemplateUpdateRequest`; a field that is not set is `none`. -/
structure TemplateUpdate where
  name : Option (Option Text) := none
  description : Option (Option Text) := none
  buildArtifactId : Option (Option ArtifactId) := none
  command : Option (Option Text) := none
  nodeStrategy : Option (Option Text) := none
  nodeIds : Option (Option (List Text)) := none

/-- `VALID_NODE_STRATEGIES`. -/
def validNodeStrategies : List Text := ["all".toList, "random".toList, "selected".toList]

/-- `_validate_basics`. -/
def validateBasics (name command nodeStrategy : Option Text) : Service Unit :=
  let strategy := Text.orElse nodeStrategy "all".toList
  let missing := ([("name", name), ("command", command)].filter fun field =>
    (Text.strip (field.2.getD [])).isEmpty).map fun field => field.1.toList
  if strategy ∉ validNodeStrategies then
    .error (.api 400 "template.invalid_node_strategy" "errors.invalidNodeStrategy"
      [("node_strategy", .text strategy)])
  else if missing ≠ [] then
    .error (.api 400 "template.invalid_params" "errors.invalidParams" [("missing", .texts missing)])
  else .ok ()

section Bindings

variable (artifacts : Table ArtifactId BuildArtifact)

/-- `get_runnable_artifact_or_404`. -/
def getRunnableArtifact (id : ArtifactId) : Service BuildArtifact :=
  match artifacts.get id with
  | none =>
      .error (.api 404 "artifact.not_found" "errors.artifactNotFound" [("artifact_id", .ref id)])
  | some artifact =>
      if artifact.artifactType.runnable then .ok artifact
      else
        .error (.api 400 "artifact.not_runnable" "errors.artifactNotRunnable"
          [("artifact_id", .ref id), ("artifact_type", .text artifact.artifactType.text.toList)])

/-- `get_bindable_artifact_or_404`. -/
def getBindableArtifact (id : ArtifactId) : Service BuildArtifact := do
  let artifact ← getRunnableArtifact artifacts id
  if artifact.archivedAt.isSome then
    .error (.api 400 "artifact.archived" "errors.artifactArchived" [("artifact_id", .ref id)])
  else .ok artifact

/-- The binding is looked up where there is one. -/
def requireBinding (lookup : ArtifactId → Service BuildArtifact) :
    Option ArtifactId → Service (ArtifactId × BuildArtifact)
  | none =>
      .error (.api 400 "template.build_artifact_required" "errors.buildArtifactRequired" [])
  | some id => do
      let artifact ← lookup id
      return (id, artifact)

/-- `_require_artifact`. -/
def requireArtifact : Option ArtifactId → Service (ArtifactId × BuildArtifact) :=
  requireBinding (getRunnableArtifact artifacts)

/-- `_require_bindable_artifact`. -/
def requireBindableArtifact : Option ArtifactId → Service (ArtifactId × BuildArtifact) :=
  requireBinding (getBindableArtifact artifacts)

/-- The artifact of an updated template: only a new binding has to be to one that
is not archived. -/
def updatedBinding (current new : Option ArtifactId) : Service (ArtifactId × BuildArtifact) :=
  if new ≠ current then requireBindableArtifact artifacts new else requireArtifact artifacts new

/-- `artifact_type_for_template`. -/
def artifactTypeForTemplate (template : ExecutionTemplate) : ArtifactType :=
  match template.buildArtifactId with
  | none => .scrapy
  | some id => (artifacts.get id).elim .scrapy BuildArtifact.artifactType

end Bindings

/-- `_ensure_unique_name`: no other row has the name. -/
def ensureUniqueTemplateName (templates : Table TemplateId ExecutionTemplate) (name : Text)
    (exclude : Option TemplateId) : Service Unit :=
  if templates.rows.any fun r => r.2.name == name && exclude != some r.1 then
    .error (.api 409 "template.name_conflict" "errors.templateNameConflict"
      [("name", .text name)])
  else .ok ()

/-- `get_template_or_404`. -/
def getTemplate (templates : Table TemplateId ExecutionTemplate) (id : Option TemplateId) :
    Service (TemplateId × ExecutionTemplate) :=
  match id.bind fun id => (templates.get id).map fun t => (id, t) with
  | some found => .ok found
  | none =>
      .error (.api 404 "template.not_found" "errors.templateNotFound"
        [("execution_template_id", id.elim .null .ref)])

section Services

variable (artifacts : Table ArtifactId BuildArtifact)
variable (templates : Table TemplateId ExecutionTemplate)

/-- `create_template`. -/
def createTemplate (data : TemplateCreate) : Service ExecutionTemplate := do
  validateBasics (some data.name) (some data.command) (some data.nodeStrategy)
  let name := Text.strip data.name
  ensureUniqueTemplateName templates name none
  let (id, artifact) ← requireBindableArtifact artifacts data.buildArtifactId
  validateCommandForArtifact artifact (Text.strip data.command)
  return {
    name := name
    description := data.description
    buildArtifactId := some id
    project := artifact.project
    version := artifact.version
    command := some (Text.strip data.command)
    nodeStrategy := Text.orElse (some data.nodeStrategy) "all".toList
    nodeIds := data.nodeIds }

/-- `update_template`. -/
def updateTemplate (id : TemplateId) (template : ExecutionTemplate) (data : TemplateUpdate) :
    Service ExecutionTemplate := do
  let name := data.name.getD (some template.name)
  let command := data.command.getD template.command
  let nodeStrategy := data.nodeStrategy.getD (some template.nodeStrategy)
  validateBasics name command nodeStrategy
  let newName := Text.strip (name.getD [])
  ensureUniqueTemplateName templates newName (some id)
  let (artifactId, artifact) ← updatedBinding artifacts template.buildArtifactId
    (data.buildArtifactId.getD template.buildArtifactId)
  validateCommandForArtifact artifact (Text.strip (command.getD []))
  match nodeStrategy with
  | none => .error .integrity
  | some nodeStrategy =>
      return {
        name := newName
        description := data.description.getD template.description
        buildArtifactId := some artifactId
        project := artifact.project
        version := artifact.version
        command := some (Text.strip (command.getD []))
        nodeStrategy := nodeStrategy
        nodeIds := (data.nodeIds.map fun ids => ids.getD []).getD template.nodeIds }

end Services

/-! ### What is run -/

/-- `ExecutionRunRequest.params`: a command for a shell, or a crawl. -/
inductive RunParams where
  | shell (shellCommand : Text) (version : Option Text)
  | crawl (command : Text) (project version : Option Text) (spider : Text)
  deriving DecidableEq, Repr

/-- `ExecutionRunRequest`. -/
structure ExecutionRunRequest where
  artifactType : ArtifactType
  target : Text
  nodeStrategy : Text
  nodeIds : List Text
  params : RunParams
  deriving DecidableEq, Repr

/-- A text, as a format string writes it. -/
def formatText (t : Option Text) : Text := t.getD "None".toList

/-- `overrides.get("command") or defaults.get("command")`. -/
def resolveCommand (template : ExecutionTemplate) (overrides : Overrides) : Option Text :=
  match overrides.command with
  | none => template.command
  | some c => if c.isEmpty then template.command else some c

/-- `a or b`, of two optional texts. -/
def firstText (a b : Option Text) : Option Text := if (a.getD []).isEmpty then b else a

/-- `resolve_run`. -/
def resolveRun (artifact : BuildArtifact) (template : ExecutionTemplate) (overrides : Overrides)
    (name : Text) : Service ExecutionRunRequest := do
  let project := firstText artifact.project template.project
  let version := firstText artifact.version template.version
  let command := resolveCommand template overrides
  let nodeStrategy := Text.orElse (firstText overrides.nodeStrategy template.nodeStrategy)
    "all".toList
  let nodeIds := overrides.nodeIds.getD template.nodeIds
  if artifact.artifactType = .pythonWheel then do
    let shellCommand ← validateWheelCommand command
    return {
      artifactType := artifact.artifactType
      target := Text.orElse (some name) (Text.orElse (some artifact.name) "python_wheel".toList)
      nodeStrategy := nodeStrategy
      nodeIds := nodeIds
      params := .shell shellCommand version }
  else do
    let parsed ← validateCommand command
    ensureSpiderInArtifact parsed.spider artifact.spiders
    return {
      artifactType := artifact.artifactType
      target := Text.orElse (some name) (formatText project ++ ':' :: parsed.spider)
      nodeStrategy := nodeStrategy
      nodeIds := nodeIds
      params := .crawl (command.getD []) project version parsed.spider }

/-- `build_run_request`. -/
def buildRunRequest (artifacts : Table ArtifactId BuildArtifact) (template : ExecutionTemplate)
    (overrides : Option Overrides) : Service ExecutionRunRequest := do
  let (_, artifact) ← requireArtifact artifacts template.buildArtifactId
  let overrides ← sanitizeOverrides overrides artifact.artifactType
  resolveRun artifact template overrides template.name

/-! ### What the services leave -/

section Services

variable {artifacts : Table ArtifactId BuildArtifact}
variable {templates : Table TemplateId ExecutionTemplate}
variable {binding : Option ArtifactId} {id : ArtifactId} {artifact : BuildArtifact}

theorem getRunnableArtifact_ok (h : getRunnableArtifact artifacts id = .ok artifact) :
    artifacts.get id = some artifact ∧ artifact.artifactType.runnable = true := by
  unfold getRunnableArtifact at h
  cases hrow : artifacts.get id with
  | none =>
      rw [hrow] at h
      cases h
  | some row =>
      rw [hrow] at h
      by_cases hrun : row.artifactType.runnable = true
      · obtain rfl : row = artifact := by simpa [hrun] using h
        exact ⟨rfl, hrun⟩
      · simp [hrun] at h

theorem getBindableArtifact_ok (h : getBindableArtifact artifacts id = .ok artifact) :
    getRunnableArtifact artifacts id = .ok artifact ∧ artifact.archivedAt = none := by
  obtain ⟨row, hrow, hret⟩ := Service.bind_ok h
  by_cases harchived : row.archivedAt.isSome = true
  · rw [if_pos harchived] at hret
    cases hret
  · rw [if_neg harchived] at hret
    obtain rfl : row = artifact := by simpa using hret
    exact ⟨hrow, by simpa using harchived⟩

theorem requireBinding_ok {lookup : ArtifactId → Service BuildArtifact}
    (h : requireBinding lookup binding = .ok (id, artifact)) :
    binding = some id ∧ lookup id = .ok artifact := by
  cases binding with
  | none => cases h
  | some a =>
      obtain ⟨row, hrow, hret⟩ := Service.bind_ok h
      obtain ⟨rfl, rfl⟩ : a = id ∧ row = artifact := Prod.mk.inj (Service.pure_ok hret)
      exact ⟨rfl, hrow⟩

/-- A new template is bound to an artifact that can be run. -/
theorem createTemplate_ok {data : TemplateCreate} {template : ExecutionTemplate}
    (h : createTemplate artifacts templates data = .ok template) :
    ∃ id artifact, template.buildArtifactId = some id ∧ artifacts.get id = some artifact ∧
      artifact.artifactType.runnable = true := by
  obtain ⟨-, -, h⟩ := Service.bind_ok h
  obtain ⟨-, -, h⟩ := Service.bind_ok h
  obtain ⟨⟨id, artifact⟩, hbound, h⟩ := Service.bind_ok h
  obtain ⟨-, -, h⟩ := Service.bind_ok h
  obtain ⟨-, hlookup⟩ := requireBinding_ok hbound
  obtain ⟨hget, hrun⟩ := getRunnableArtifact_ok (getBindableArtifact_ok hlookup).1
  cases h
  exact ⟨id, artifact, rfl, hget, hrun⟩

/-- An updated template is bound to what the request says, else to what it was. -/
theorem updateTemplate_ok {tid : TemplateId} {template template' : ExecutionTemplate}
    {data : TemplateUpdate}
    (h : updateTemplate artifacts templates tid template data = .ok template') :
    ∃ id artifact, template'.buildArtifactId = some id ∧ artifacts.get id = some artifact ∧
      artifact.artifactType.runnable = true ∧
      data.buildArtifactId.getD template.buildArtifactId = some id := by
  obtain ⟨-, -, h⟩ := Service.bind_ok h
  obtain ⟨-, -, h⟩ := Service.bind_ok h
  obtain ⟨⟨id, artifact⟩, hbound, h⟩ := Service.bind_ok h
  obtain ⟨-, -, h⟩ := Service.bind_ok h
  have hfound : data.buildArtifactId.getD template.buildArtifactId = some id ∧
      getRunnableArtifact artifacts id = .ok artifact := by
    unfold updatedBinding at hbound
    split at hbound
    · obtain ⟨hid, hlookup⟩ := requireBinding_ok hbound
      exact ⟨hid, (getBindableArtifact_ok hlookup).1⟩
    · exact requireBinding_ok hbound
  obtain ⟨hget, hrun⟩ := getRunnableArtifact_ok hfound.2
  split at h
  · cases h
  · cases h
    exact ⟨id, artifact, rfl, hget, hrun, hfound.1⟩

theorem artifactTypeForTemplate_eq {template : ExecutionTemplate}
    (hid : template.buildArtifactId = some id) (hget : artifacts.get id = some artifact) :
    artifactTypeForTemplate artifacts template = artifact.artifactType := by
  rw [artifactTypeForTemplate, hid]
  show (artifacts.get id).elim .scrapy BuildArtifact.artifactType = artifact.artifactType
  rw [hget]
  rfl

end Services

end Dopilot
