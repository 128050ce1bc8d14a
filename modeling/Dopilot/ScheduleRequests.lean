/-
Dopilot/ScheduleRequests.lean

The requests that write schedules.

A schedule names a template, says when it fires, and may override the command
and the nodes of the template.  A request is checked against the rows as they
are and then writes one row, or fails and writes none.  Which crontab
expressions the timer's library reads is a parameter, `crontab`.
-/
import Dopilot.Templates

namespace Dopilot

/-! ### Rows and requests -/

/-- One row of `schedules`, with what its requests write. -/
structure ScheduleRow extends Schedule where
  name : Text
  description : Option Text := none
  triggerType : Text := "interval".toList
  intervalSeconds : Option Int := none
  cron : Option Text := none
  overrides : Overrides := {}
  createdAt : Time
  deriving DecidableEq, Repr

/-- `ScheduleCreateRequest`. -/
structure ScheduleCreate where
  name : Text
  description : Option Text := none
  enabled : Bool := false
  maxConcurrency : Int := 1
  executionTemplateId : TemplateId
  triggerType : Text := "interval".toList
  intervalSeconds : Option Int := none
  cron : Option Text := none
  overrides : Option Overrides := none

/-- `ScheduleUpdateRequest`; a field that is not set is `none`. -/
structure ScheduleUpdate where
  name : Option Text := none
  description : Option (Option Text) := none
  enabled : Option (Option Bool) := none
  maxConcurrency : Option (Option Int) := none
  executionTemplateId : Option (Option TemplateId) := none
  triggerType : Option (Option Text) := none
  intervalSeconds : Option (Option Int) := none
  cron : Option (Option Text) := none
  overrides : Option (Option Overrides) := none

/-- The tables that the requests read and write. -/
structure AdminDb where
  artifacts : Table ArtifactId BuildArtifact
  templates : Table TemplateId ExecutionTemplate
  schedules : Table ScheduleId ScheduleRow

/-! ### Checks -/

/-- `VALID_TRIGGER_TYPES`. -/
def validTriggerTypes : List Text := ["interval".toList, "cron".toList]

/-- `_validate_trigger`: the type it takes the trigger to be of. -/
def validateTrigger (crontab : Text → Bool) (triggerType : Option Text)
    (intervalSeconds : Option Int) (cron : Option Text) : Service Text :=
  let triggerType := Text.orElse triggerType "interval".toList
  if !validTriggerTypes.contains triggerType then
    .error (.api 400 "schedule.invalid_trigger_type" "errors.invalidTriggerType"
      [("trigger_type", .text triggerType)])
  else if triggerType = "interval".toList then
    if intervalSeconds.all (· ≤ 0) then
      .error (.api 400 "schedule.invalid_interval" "errors.invalidInterval"
        [("interval_seconds", intervalSeconds.elim .null .number)])
    else .ok triggerType
  else if crontab (Text.strip (cron.getD [])) then .ok triggerType
  else
    .error (.api 400 "schedule.invalid_cron" "errors.invalidCron"
      [("cron", cron.elim .null .text)])

def maxConcurrencyCeiling : Int := 2147483647

/-- `_validate_max_concurrency`. -/
def validateMaxConcurrency : Option Int → Service Nat
  | none =>
      .error (.api 400 "schedule.invalid_max_concurrency" "errors.invalidMaxConcurrency"
        [("max_concurrency", .null)])
  | some value =>
      if value < 0 ∨ maxConcurrencyCeiling < value then
        .error (.api 400 "schedule.invalid_max_concurrency" "errors.invalidMaxConcurrency"
          [("max_concurrency", .number value), ("max", .number maxConcurrencyCeiling)])
      else .ok value.toNat

/-- A schedule is created with a name. -/
def requireName (name : Text) : Service Unit :=
  if (Text.strip name).isEmpty then
    .error (.api 400 "schedule.invalid_params" "errors.invalidParams"
      [("missing", .texts ["name".toList])])
  else .ok ()

/-- `_ensure_unique_name`: no other row has the name. -/
def ensureUniqueScheduleName (schedules : Table ScheduleId ScheduleRow) (name : Text)
    (exclude : Option ScheduleId) : Service Unit :=
  if schedules.rows.any fun r => r.2.name == name && exclude != some r.1 then
    .error (.api 409 "schedule.name_conflict" "errors.scheduleNameConflict"
      [("name", .text name)])
  else .ok ()

/-- `get_schedule_or_404`. -/
def getScheduleRow (schedules : Table ScheduleId ScheduleRow) (sid : ScheduleId) :
    Service ScheduleRow :=
  match schedules.get sid with
  | some row => .ok row
  | none =>
      .error (.api 404 "schedule.not_found" "errors.scheduleNotFound"
        [("schedule_id", .ref sid)])

/-! ### Services -/

section Services

variable (crontab : Text → Bool) (db : AdminDb)

/-- `create_schedule`. -/
def createSchedule (now : Time) (data : ScheduleCreate) : Service ScheduleRow := do
  requireName data.name
  ensureUniqueScheduleName db.schedules (Text.strip data.name) none
  let (_, template) ← getTemplate db.templates (some data.executionTemplateId)
  let triggerType ← validateTrigger crontab (some data.triggerType) data.intervalSeconds data.cron
  let maxConcurrency ← validateMaxConcurrency (some data.maxConcurrency)
  let overrides ← sanitizeOverrides data.overrides (artifactTypeForTemplate db.artifacts template)
  return {
    name := Text.strip data.name
    description := data.description
    maxConcurrency := maxConcurrency
    enabled := data.enabled
    executionTemplateId := data.executionTemplateId
    triggerType := triggerType
    intervalSeconds := if triggerType = "interval".toList then data.intervalSeconds else none
    cron := if triggerType = "cron".toList then some (Text.strip (data.cron.getD [])) else none
    overrides := overrides
    createdAt := now }

/-- The steps of `update_schedule`, each for the fields it writes. -/
def updateTemplateId (data : ScheduleUpdate) (row : ScheduleRow) : Service ScheduleRow :=
  match data.executionTemplateId with
  | none => .ok row
  | some id => do
      let (id, _) ← getTemplate db.templates id
      return { row with executionTemplateId := id }

def updateName (sid : ScheduleId) (data : ScheduleUpdate) (row : ScheduleRow) :
    Service ScheduleRow :=
  let name := Text.strip (data.name.getD [])
  if name.isEmpty then .ok row
  else do
    ensureUniqueScheduleName db.schedules name (some sid)
    return { row with name := name }

def updateMaxConcurrency (data : ScheduleUpdate) (row : ScheduleRow) : Service ScheduleRow :=
  match data.maxConcurrency with
  | none => .ok row
  | some value => do
      let maxConcurrency ← validateMaxConcurrency value
      return { row with maxConcurrency := maxConcurrency }

/-- To enable a disabled schedule starts a new generation (`Schedule.setEnabled`). -/
def updateEnabled (data : ScheduleUpdate) (row : ScheduleRow) : ScheduleRow :=
  match data.enabled with
  | none => row
  | some enabled => { row with toSchedule := row.toSchedule.setEnabled (enabled.getD false) }

def updateOverrides (data : ScheduleUpdate) (row : ScheduleRow) : Service ScheduleRow :=
  match data.overrides with
  | none => .ok row
  | some overrides => do
      let (_, template) ← getTemplate db.templates (some row.executionTemplateId)
      let overrides ← sanitizeOverrides overrides (artifactTypeForTemplate db.artifacts template)
      return { row with overrides := overrides }

/-- The fields of a trigger are written together, as one request leaves them. -/
def writeTrigger (triggerType : Option Text) (intervalSeconds : Option Int) (cron : Option Text)
    (row : ScheduleRow) : Service ScheduleRow := do
  let _ ← validateTrigger crontab triggerType intervalSeconds cron
  match triggerType with
  | none => .error .integrity
  | some triggerType =>
      if triggerType = "interval".toList then
        return { row with
          triggerType := triggerType, intervalSeconds := intervalSeconds, cron := none }
      else
        return { row with
          triggerType := triggerType
          intervalSeconds := none
          cron := some (Text.strip (formatText cron)) }

def updateTrigger (data : ScheduleUpdate) (row : ScheduleRow) : Service ScheduleRow :=
  if data.triggerType.isNone && data.intervalSeconds.isNone && data.cron.isNone then .ok row
  else
    writeTrigger crontab (data.triggerType.getD (some row.triggerType))
      (data.intervalSeconds.getD row.intervalSeconds) (data.cron.getD row.cron) row

/-- `update_schedule`. -/
def updateSchedule (sid : ScheduleId) (data : ScheduleUpdate) (row : ScheduleRow) :
    Service ScheduleRow := do
  let row ← updateTemplateId db data row
  let row ← updateName db sid data row
  let row := { row with description := data.description.getD row.description }
  let row ← updateMaxConcurrency data row
  let row ← updateOverrides db data (updateEnabled data row)
  updateTrigger crontab data row

end Services

/-- `disable_all_schedules`. -/
def disableAllSchedules (schedules : Table ScheduleId ScheduleRow) :
    Table ScheduleId ScheduleRow :=
  schedules.updateAll fun _ row =>
    if row.enabled then { row with enabled := false } else row

/-! ### Requests -/

/-- The requests, each with the id or the clock it draws. -/
inductive AdminRequest where
  | createSchedule (sid : ScheduleId) (now : Time) (data : ScheduleCreate)
  | updateSchedule (sid : ScheduleId) (data : ScheduleUpdate)
  | deleteSchedule (sid : ScheduleId)
  | disableAllSchedules
  | createTemplate (tid : TemplateId) (data : TemplateCreate)
  | updateTemplate (tid : TemplateId) (data : TemplateUpdate)
  | deleteTemplate (tid : TemplateId)
  /-- An upload or an archiving; the type of an artifact is part of its key. -/
  | storeArtifact (id : ArtifactId) (artifact : BuildArtifact)

/-- A new row is written under a key that is not in use. -/
def insertRow {κ ρ : Type} [DecidableEq κ] (t : Table κ ρ) (k : κ) (r : ρ) :
    Service (Table κ ρ) :=
  if (t.get k).isSome then .error .integrity else .ok (t.insert k r)

/-- `delete_template` refuses a template that a schedule names. -/
def ensureUnused (schedules : Table ScheduleId ScheduleRow) (tid : TemplateId) : Service Unit :=
  if schedules.rows.any fun r => r.2.executionTemplateId == tid then
    .error (.api 409 "template.in_use" "errors.templateInUse" [("execution_template_id", .ref tid)])
  else .ok ()

/-- An artifact row is written, or refreshed under its type. -/
def storeArtifact (artifacts : Table ArtifactId BuildArtifact) (id : ArtifactId)
    (artifact : BuildArtifact) : Table ArtifactId BuildArtifact :=
  if (artifacts.get id).isSome then
    artifacts.modify id fun old => { artifact with artifactType := old.artifactType }
  else artifacts.insert id artifact

/-- One request: its service, and the commit. -/
def AdminDb.serve (crontab : Text → Bool) (db : AdminDb) : AdminRequest → Service AdminDb
  | .createSchedule sid now data => do
      let row ← createSchedule crontab db now data
      let schedules ← insertRow db.schedules sid row
      return { db with schedules := schedules }
  | .updateSchedule sid data => do
      let row ← getScheduleRow db.schedules sid
      let row ← updateSchedule crontab db sid data row
      return { db with schedules := db.schedules.modify sid fun _ => row }
  | .deleteSchedule sid => do
      let _ ← getScheduleRow db.schedules sid
      return { db with schedules := db.schedules.erase sid }
  | .disableAllSchedules => .ok { db with schedules := disableAllSchedules db.schedules }
  | .createTemplate tid data => do
      let template ← createTemplate db.artifacts db.templates data
      let templates ← insertRow db.templates tid template
      return { db with templates := templates }
  | .updateTemplate tid data => do
      let (_, template) ← getTemplate db.templates (some tid)
      let template ← updateTemplate db.artifacts db.templates tid template data
      return { db with templates := db.templates.modify tid fun _ => template }
  | .deleteTemplate tid => do
      let _ ← getTemplate db.templates (some tid)
      ensureUnused db.schedules tid
      return { db with templates := db.templates.erase tid }
  | .storeArtifact id artifact =>
      .ok { db with artifacts := storeArtifact db.artifacts id artifact }

/-! ### What the services leave -/

section Services

variable {crontab : Text → Bool} {db : AdminDb} {now : Time} {sid : ScheduleId}
variable {row row' : ScheduleRow}

theorem getTemplate_ok {id : Option TemplateId} {tid : TemplateId} {template : ExecutionTemplate}
    (h : getTemplate db.templates id = .ok (tid, template)) :
    id = some tid ∧ db.templates.get tid = some template := by
  cases id with
  | none => cases h
  | some k =>
      unfold getTemplate at h
      cases hrow : db.templates.get k with
      | none => simp [hrow] at h
      | some t =>
          obtain ⟨rfl, rfl⟩ : k = tid ∧ t = template := by simpa [hrow] using h
          exact ⟨rfl, hrow⟩

theorem insertRow_ok {κ ρ : Type} [DecidableEq κ] {t t' : Table κ ρ} {k : κ} {r : ρ}
    (h : insertRow t k r = .ok t') : t.get k = none ∧ t' = t.insert k r := by
  unfold insertRow at h
  by_cases hk : (t.get k).isSome = true
  · rw [if_pos hk] at h
    cases h
  · rw [if_neg hk] at h
    exact ⟨by simpa using hk, (Except.ok.inj h).symm⟩

theorem getScheduleRow_ok {t : Table ScheduleId ScheduleRow} (h : getScheduleRow t sid = .ok row) :
    t.get sid = some row := by
  unfold getScheduleRow at h
  cases hrow : t.get sid with
  | none =>
      rw [hrow] at h
      cases h
  | some r =>
      rw [hrow] at h
      obtain rfl := Except.ok.inj h
      rfl

/-- A schedule is created for a template that exists, with overrides that pass
for the type of its artifact. -/
theorem createSchedule_ok {data : ScheduleCreate}
    (h : createSchedule crontab db now data = .ok row) :
    row.executionTemplateId = data.executionTemplateId ∧
      ∃ template, db.templates.get data.executionTemplateId = some template ∧
        sanitizeOverrides data.overrides (artifactTypeForTemplate db.artifacts template) =
          .ok row.overrides := by
  obtain ⟨-, -, h⟩ := Service.bind_ok h
  obtain ⟨-, -, h⟩ := Service.bind_ok h
  obtain ⟨⟨tid, template⟩, htemplate, h⟩ := Service.bind_ok h
  obtain ⟨_, -, h⟩ := Service.bind_ok h
  obtain ⟨_, -, h⟩ := Service.bind_ok h
  obtain ⟨overrides, hoverrides, h⟩ := Service.bind_ok h
  obtain rfl := Service.pure_ok h
  obtain ⟨htid, hget⟩ := getTemplate_ok htemplate
  obtain rfl := Option.some.inj htid
  exact ⟨rfl, template, hget, hoverrides⟩

theorem updateTemplateId_ok {data : ScheduleUpdate} (h : updateTemplateId db data row = .ok row') :
    row'.overrides = row.overrides ∧
      (data.executionTemplateId = none ∧ row'.executionTemplateId = row.executionTemplateId ∨
        data.executionTemplateId = some (some row'.executionTemplateId) ∧
          ∃ template, db.templates.get row'.executionTemplateId = some template) := by
  unfold updateTemplateId at h
  cases hid : data.executionTemplateId with
  | none =>
      rw [hid] at h
      obtain rfl := Except.ok.inj h
      exact ⟨rfl, Or.inl ⟨rfl, rfl⟩⟩
  | some id =>
      rw [hid] at h
      obtain ⟨⟨tid, template⟩, htemplate, h⟩ := Service.bind_ok h
      obtain rfl := Service.pure_ok h
      obtain ⟨rfl, hget⟩ := getTemplate_ok htemplate
      exact ⟨rfl, Or.inr ⟨rfl, template, hget⟩⟩

theorem updateName_ok {data : ScheduleUpdate} (h : updateName db sid data row = .ok row') :
    row'.overrides = row.overrides ∧ row'.executionTemplateId = row.executionTemplateId := by
  unfold updateName at h
  dsimp only at h
  split at h
  · obtain rfl := Except.ok.inj h
    exact ⟨rfl, rfl⟩
  · obtain ⟨-, -, h⟩ := Service.bind_ok h
    obtain rfl := Service.pure_ok h
    exact ⟨rfl, rfl⟩

theorem updateMaxConcurrency_ok {data : ScheduleUpdate}
    (h : updateMaxConcurrency data row = .ok row') :
    row'.overrides = row.overrides ∧ row'.executionTemplateId = row.executionTemplateId := by
  unfold updateMaxConcurrency at h
  split at h
  · obtain rfl := Except.ok.inj h
    exact ⟨rfl, rfl⟩
  · obtain ⟨_, -, h⟩ := Service.bind_ok h
    obtain rfl := Service.pure_ok h
    exact ⟨rfl, rfl⟩

theorem updateEnabled_overrides (data : ScheduleUpdate) (row : ScheduleRow) :
    (updateEnabled data row).overrides = row.overrides ∧
      (updateEnabled data row).executionTemplateId = row.executionTemplateId := by
  cases h : data.enabled with
  | none =>
      rw [updateEnabled, h]
      exact ⟨rfl, rfl⟩
  | some enabled =>
      rw [updateEnabled, h]
      refine ⟨rfl, ?_⟩
      show (row.toSchedule.setEnabled (enabled.getD false)).executionTemplateId = _
      unfold Schedule.setEnabled
      split
      · rfl
      · rfl

theorem updateOverrides_ok {data : ScheduleUpdate} (h : updateOverrides db data row = .ok row') :
    row'.executionTemplateId = row.executionTemplateId ∧
      (data.overrides = none ∧ row'.overrides = row.overrides ∨
        ∃ given template, data.overrides = some given ∧
          db.templates.get row.executionTemplateId = some template ∧
          sanitizeOverrides given (artifactTypeForTemplate db.artifacts template) =
            .ok row'.overrides) := by
  unfold updateOverrides at h
  cases hgiven : data.overrides with
  | none =>
      rw [hgiven] at h
      obtain rfl := Except.ok.inj h
      exact ⟨rfl, Or.inl ⟨rfl, rfl⟩⟩
  | some given =>
      rw [hgiven] at h
      obtain ⟨⟨tid, template⟩, htemplate, h⟩ := Service.bind_ok h
      obtain ⟨overrides, hoverrides, h⟩ := Service.bind_ok h
      obtain rfl := Service.pure_ok h
      obtain ⟨htid, hget⟩ := getTemplate_ok htemplate
      obtain rfl := Option.some.inj htid
      exact ⟨rfl, Or.inr ⟨given, template, rfl, hget, hoverrides⟩⟩

theorem updateTrigger_ok {data : ScheduleUpdate} (h : updateTrigger crontab data row = .ok row') :
    row'.overrides = row.overrides ∧ row'.executionTemplateId = row.executionTemplateId := by
  unfold updateTrigger at h
  split at h
  · obtain rfl := Except.ok.inj h
    exact ⟨rfl, rfl⟩
  · obtain ⟨-, -, h⟩ := Service.bind_ok h
    split at h
    · cases h
    · split at h
      · obtain rfl := Service.pure_ok h
        exact ⟨rfl, rfl⟩
      · obtain rfl := Service.pure_ok h
        exact ⟨rfl, rfl⟩

/-- **What an update does to the template and to the overrides.**  Overrides that
are given have to pass for the template the schedule then has; overrides that are
not given are kept, whatever template that is. -/
theorem updateSchedule_ok {data : ScheduleUpdate}
    (h : updateSchedule crontab db sid data row = .ok row') :
    (data.executionTemplateId = none ∧ row'.executionTemplateId = row.executionTemplateId ∨
        data.executionTemplateId = some (some row'.executionTemplateId) ∧
          ∃ template, db.templates.get row'.executionTemplateId = some template) ∧
      (data.overrides = none ∧ row'.overrides = row.overrides ∨
        ∃ given template, data.overrides = some given ∧
          db.templates.get row'.executionTemplateId = some template ∧
          sanitizeOverrides given (artifactTypeForTemplate db.artifacts template) =
            .ok row'.overrides) := by
  obtain ⟨row₁, htemplate, h⟩ := Service.bind_ok h
  obtain ⟨row₂, hname, h⟩ := Service.bind_ok h
  obtain ⟨row₃, hmax, h⟩ := Service.bind_ok h
  obtain ⟨row₄, hoverrides, htrigger⟩ := Service.bind_ok h
  obtain ⟨hkept₁, htemplate⟩ := updateTemplateId_ok htemplate
  obtain ⟨hkept₂, htid₂⟩ := updateName_ok hname
  obtain ⟨hkept₃, htid₃⟩ := updateMaxConcurrency_ok hmax
  obtain ⟨hkeptE, htidE⟩ := updateEnabled_overrides data row₃
  obtain ⟨htid₄, hoverrides⟩ := updateOverrides_ok hoverrides
  obtain ⟨hkept₅, htid₅⟩ := updateTrigger_ok htrigger
  have htid : row'.executionTemplateId = row₁.executionTemplateId :=
    calc row'.executionTemplateId = row₄.executionTemplateId := htid₅
      _ = (updateEnabled data row₃).executionTemplateId := htid₄
      _ = row₃.executionTemplateId := htidE
      _ = row₂.executionTemplateId := htid₃
      _ = row₁.executionTemplateId := htid₂
  have hkept : (updateEnabled data row₃).overrides = row.overrides :=
    calc (updateEnabled data row₃).overrides = row₃.overrides := hkeptE
      _ = row₂.overrides := hkept₃
      _ = row₁.overrides := hkept₂
      _ = row.overrides := hkept₁
  rw [htid, hkept₅]
  refine ⟨htemplate, ?_⟩
  rcases hoverrides with ⟨hnone, hsame⟩ | ⟨given, template, hgiven, hget, hpass⟩
  · exact Or.inl ⟨hnone, hsame.trans hkept⟩
  · refine Or.inr ⟨given, template, hgiven, ?_, hpass⟩
    rw [← hget, htidE, htid₃, htid₂]

end Services

end Dopilot
