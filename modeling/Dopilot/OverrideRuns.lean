/-
Dopilot/OverrideRuns.lean

Overrides of schedules, while templates and schedules change.

A command override is checked for the artifact of the schedule's template when
it is given.  Later the schedule may move to another template, and a template
may be bound to another artifact; neither looks at the overrides that stay.

`Fits` says which overrides may stay: those the new type accepts too, and, where
they were given as a crawl, no shell may be the one to read them.  As long as
what every request leaves in place fits (`Sound`) each schedule stays valid, and
the first request for which it does not leaves a schedule that is not
(`overrides_valid`).
-/
import Dopilot.ScheduleRequests
import Dopilot.StateMachine

namespace Dopilot

/-- The type of a template's artifact. -/
def AdminDb.typeOf (db : AdminDb) (tid : TemplateId) : Option ArtifactType :=
  (db.templates.get tid).map (artifactTypeForTemplate db.artifacts)

namespace OverrideRuns

/-! ### Requests -/

/-- The tables, and for which type the overrides of a schedule were last checked. -/
structure State where
  db : AdminDb
  acceptedAs : ScheduleId → ArtifactType := fun _ => .scrapy

/-- Before there is a template or a schedule. -/
def start (artifacts : Table ArtifactId BuildArtifact) : State where
  db := { artifacts := artifacts, templates := .empty, schedules := .empty }

/-- The type of a schedule's template. -/
def scheduleType (db : AdminDb) (sid : ScheduleId) : ArtifactType :=
  ((db.schedules.get sid).bind fun row => db.typeOf row.executionTemplateId).getD .scrapy

/-- A request that gives overrides has them checked for the template it leaves. -/
def State.accepted (s : State) (db : AdminDb) : AdminRequest → ScheduleId → ArtifactType
  | .createSchedule sid _ _ => Function.update s.acceptedAs sid (scheduleType db sid)
  | .updateSchedule sid data =>
      if data.overrides.isSome then Function.update s.acceptedAs sid (scheduleType db sid)
      else s.acceptedAs
  | _ => s.acceptedAs

def serve (crontab : Text → Bool) (s : State) (r : AdminRequest) : Service State := do
  let db ← s.db.serve crontab r
  return { db := db, acceptedAs := s.accepted db r }

/-- The requests that succeed are the steps; one that fails leaves the tables as they are. -/
def step (crontab : Text → Bool) (s : State) (r : AdminRequest) : Option State :=
  (serve crontab s r).toOption

/-! ### Valid overrides -/

/-- The overrides of a schedule are valid for the template it has. -/
structure RowValid (db : AdminDb) (acceptedAs : ArtifactType) (row : ScheduleRow)
    (template : ExecutionTemplate) : Prop where
  accepted : row.overrides.AcceptedBy (artifactTypeForTemplate db.artifacts template)
  /-- A firing takes them as they are stored. -/
  fires : ∀ id artifact,
    requireArtifact db.artifacts template.buildArtifactId = .ok (id, artifact) →
      sanitizeOverrides (some row.overrides) artifact.artifactType = .ok row.overrides
  /-- A command that was given as a crawl is run as one. -/
  crawls : acceptedAs = .scrapy → ∀ c, row.overrides.command = some c → ∀ request,
    buildRunRequest db.artifacts template (some row.overrides) = .ok request →
      ∃ project version spider, request.params = .crawl c project version spider

/-- **The stored overrides are valid.** -/
def Valid (s : State) : Prop :=
  ∀ sid row template, s.db.schedules.get sid = some row →
    s.db.templates.get row.executionTemplateId = some template →
      RowValid s.db (s.acceptedAs sid) row template

/-- Overrides that may stay with a schedule whose template has an artifact of a type. -/
def Fits (acceptedAs : ArtifactType) (o : Overrides) (artifactType : ArtifactType) : Prop :=
  o.AcceptedBy artifactType ∧
    (o.command.isSome = true → acceptedAs = .scrapy → artifactType = .scrapy)

/-- What a request leaves in place fits: the overrides of a schedule it moves without
giving it new ones, and those of every schedule of a template it binds anew. -/
def Sound (s : State) : AdminRequest → Prop
  | .updateSchedule sid data => data.overrides = none → ∀ row tid artifactType,
      s.db.schedules.get sid = some row → data.executionTemplateId = some (some tid) →
        s.db.typeOf tid = some artifactType → Fits (s.acceptedAs sid) row.overrides artifactType
  | .updateTemplate tid data => ∀ id artifact, data.buildArtifactId = some (some id) →
      s.db.artifacts.get id = some artifact → ∀ sid row, s.db.schedules.get sid = some row →
        row.executionTemplateId = tid →
          Fits (s.acceptedAs sid) row.overrides artifact.artifactType
  | _ => True

/-! ### What the requests keep -/

/-- The references of the tables, and the shape of what is stored. -/
structure Wf (db : AdminDb) : Prop where
  bound : ∀ tid template, db.templates.get tid = some template → ∃ id artifact,
    template.buildArtifactId = some id ∧ db.artifacts.get id = some artifact ∧
      artifact.artifactType.runnable = true
  named : ∀ sid row, db.schedules.get sid = some row →
    ∃ template, db.templates.get row.executionTemplateId = some template
  clean : ∀ sid row, db.schedules.get sid = some row → row.overrides.Clean

section Valid

variable {db : AdminDb} {acceptedAs : ArtifactType} {row : ScheduleRow}
variable {template : ExecutionTemplate}

/-- A template that is bound can be looked up for a run. -/
theorem requireArtifact_bound {id : ArtifactId} {artifact : BuildArtifact}
    (hid : template.buildArtifactId = some id) (hget : db.artifacts.get id = some artifact)
    (hrun : artifact.artifactType.runnable = true) :
    requireArtifact db.artifacts template.buildArtifactId = .ok (id, artifact) := by
  rw [hid]
  show (getRunnableArtifact db.artifacts id >>= fun artifact => pure (id, artifact)) = _
  rw [getRunnableArtifact, hget]
  show (if artifact.artifactType.runnable = true then _ else _) >>= _ = _
  rw [if_pos hrun]
  rfl

/-- Where the command of an override is not blank it is the command. -/
theorem resolveCommand_override {o : Overrides} {c : Text} (hc : o.command = some c)
    (hne : c ≠ []) :
    resolveCommand template o = some c := by
  rw [resolveCommand, hc]
  show (if c.isEmpty = true then _ else _) = _
  rw [if_neg (by simpa using hne)]

/-- An egg runs a crawl of the command. -/
theorem resolveRun_crawl {artifact : BuildArtifact} {o : Overrides} {name c : Text}
    {request : ExecutionRunRequest} (htype : artifact.artifactType = .scrapy)
    (hc : o.command = some c) (hne : c ≠ [])
    (h : resolveRun artifact template o name = .ok request) :
    ∃ project version spider, request.params = .crawl c project version spider := by
  unfold resolveRun at h
  rw [htype, if_neg (by decide)] at h
  obtain ⟨parsed, -, h⟩ := Service.bind_ok h
  obtain ⟨-, -, h⟩ := Service.bind_ok h
  obtain rfl := Service.pure_ok h
  rw [resolveCommand_override hc hne]
  exact ⟨_, _, _, rfl⟩

/-- A wheel runs the command in a shell. -/
theorem resolveRun_shell {artifact : BuildArtifact} {o : Overrides} {c : Text}
    (template : ExecutionTemplate) (name : Text) (htype : artifact.artifactType = .pythonWheel)
    (hc : o.command = some c) (hne : c ≠ [])
    (hstrip : Text.strip c = c) :
    ∃ request version, resolveRun artifact template o name = .ok request ∧
      request.params = .shell c version := by
  have hvalid : validateWheelCommand (resolveCommand template o) = .ok c := by
    have hsame : resolveCommand template o = some c := resolveCommand_override hc hne
    have hok := validateWheelCommand_ok.mpr (hstrip.symm ▸ hne)
    rwa [hstrip, ← hsame] at hok
  unfold resolveRun
  rw [if_pos htype, hvalid]
  exact ⟨_, _, rfl, rfl⟩

/-- What is run, where the overrides may stay. -/
theorem buildRunRequest_eq {id : ArtifactId} {artifact : BuildArtifact} {o : Overrides}
    (hbound : requireArtifact db.artifacts template.buildArtifactId = .ok (id, artifact))
    (hpass : sanitizeOverrides (some o) artifact.artifactType = .ok o) :
    buildRunRequest db.artifacts template (some o) =
      resolveRun artifact template o template.name := by
  unfold buildRunRequest
  rw [hbound]
  show (sanitizeOverrides (some o) artifact.artifactType >>= fun o =>
    resolveRun artifact template o template.name) = _
  rw [hpass]
  rfl

/-- **Overrides are valid exactly where they fit** the artifact of the template. -/
theorem rowValid_iff {id : ArtifactId} {artifact : BuildArtifact}
    (hid : template.buildArtifactId = some id) (hget : db.artifacts.get id = some artifact)
    (hrun : artifact.artifactType.runnable = true) (hclean : row.overrides.Clean) :
    RowValid db acceptedAs row template ↔
      Fits acceptedAs row.overrides artifact.artifactType := by
  have htype := artifactTypeForTemplate_eq hid hget
  have hbound := requireArtifact_bound hid hget hrun
  constructor
  · intro h
    have hok : row.overrides.AcceptedBy artifact.artifactType := htype ▸ h.accepted
    refine ⟨hok, fun hsome hacc => ?_⟩
    obtain ⟨c, hc⟩ := Option.isSome_iff_exists.mp hsome
    obtain ⟨hstrip, hne⟩ := hclean.2 c hc
    cases hart : artifact.artifactType with
    | scrapy => rfl
    | dockerImage =>
        rw [hart] at hrun
        cases hrun
    | pythonWheel =>
        -- a wheel would run the crawl in a shell
        obtain ⟨request, version, hresolve, hshell⟩ :=
          resolveRun_shell template template.name hart hc hne hstrip
        rw [← buildRunRequest_eq hbound (sanitizeOverrides_clean hclean hok)] at hresolve
        obtain ⟨project, version', spider, hcrawl⟩ := h.crawls hacc c hc request hresolve
        rw [hshell] at hcrawl
        cases hcrawl
  · rintro ⟨hok, hcrawl⟩
    have hpass := sanitizeOverrides_clean hclean hok
    refine ⟨htype.symm ▸ hok, ?_, ?_⟩
    · intro id' artifact' h'
      rw [hbound] at h'
      obtain ⟨rfl, rfl⟩ := Prod.mk.inj (Except.ok.inj h')
      exact hpass
    · intro hacc c hc request hrequest
      have hscrapy := hcrawl (by rw [hc]; rfl) hacc
      rw [buildRunRequest_eq hbound hpass] at hrequest
      exact resolveRun_crawl hscrapy hc (hclean.2 c hc).2 hrequest

/-- Every schedule's overrides fit the type of its template. -/
def AllFit (s : State) : Prop :=
  ∀ sid row artifactType, s.db.schedules.get sid = some row →
    s.db.typeOf row.executionTemplateId = some artifactType →
      Fits (s.acceptedAs sid) row.overrides artifactType

theorem valid_iff {s : State} (hwf : Wf s.db) : Valid s ↔ AllFit s := by
  have hfit : ∀ sid row template, s.db.schedules.get sid = some row →
      s.db.templates.get row.executionTemplateId = some template →
      (RowValid s.db (s.acceptedAs sid) row template ↔
        Fits (s.acceptedAs sid) row.overrides
          (artifactTypeForTemplate s.db.artifacts template)) := by
    intro sid row template hrow htemplate
    obtain ⟨id, artifact, hid, hget, hrun⟩ := hwf.bound _ _ htemplate
    rw [artifactTypeForTemplate_eq hid hget]
    exact rowValid_iff hid hget hrun (hwf.clean sid row hrow)
  constructor
  · intro h sid row artifactType hrow htype
    obtain ⟨template, htemplate, rfl⟩ := Option.map_eq_some_iff.mp htype
    exact (hfit sid row template hrow htemplate).mp (h sid row template hrow htemplate)
  · intro h sid row template hrow htemplate
    refine (hfit sid row template hrow htemplate).mpr (h sid row _ hrow ?_)
    rw [AdminDb.typeOf, htemplate]
    rfl

end Valid

/-! ### Steps -/

section Steps

variable {crontab : Text → Bool} {s s' : State}

/-- What a request has to keep: the references, and, if it is sound, what fits. -/
def Keeps (s : State) (r : AdminRequest) (s' : State) : Prop :=
  Wf s.db → Wf s'.db ∧ (AllFit s → (AllFit s' ↔ Sound s r))

/-- What a request that succeeds has done. -/
theorem serve_ok {r : AdminRequest} (h : serve crontab s r = .ok s') :
    ∃ db, s.db.serve crontab r = .ok db ∧ s' = ⟨db, s.accepted db r⟩ := by
  obtain ⟨db, hdb, h⟩ := Service.bind_ok h
  exact ⟨db, hdb, (Service.pure_ok h).symm⟩

theorem scheduleType_eq {db : AdminDb} {sid : ScheduleId} {row : ScheduleRow}
    {artifactType : ArtifactType} (hrow : db.schedules.get sid = some row)
    (htype : db.typeOf row.executionTemplateId = some artifactType) :
    scheduleType db sid = artifactType := by
  rw [scheduleType, hrow]
  show (db.typeOf row.executionTemplateId).getD .scrapy = artifactType
  rw [htype]
  rfl

/-- Schedules whose rows name templates and are clean may be written. -/
theorem Wf.withSchedules {db : AdminDb} (h : Wf db) {t : Table ScheduleId ScheduleRow}
    (hrows : ∀ sid row, t.get sid = some row →
      (∃ template, db.templates.get row.executionTemplateId = some template) ∧
        row.overrides.Clean) : Wf { db with schedules := t } where
  bound := h.bound
  named := fun sid row hrow => (hrows sid row hrow).1
  clean := fun sid row hrow => (hrows sid row hrow).2

theorem accepted_kept {db : AdminDb} {sid : ScheduleId} {data : ScheduleUpdate}
    (h : data.overrides = none) : s.accepted db (.updateSchedule sid data) = s.acceptedAs := by
  rw [State.accepted, h]
  rfl

theorem accepted_given {db : AdminDb} {sid : ScheduleId} {data : ScheduleUpdate}
    {given : Option Overrides} (h : data.overrides = some given) :
    s.accepted db (.updateSchedule sid data) =
      Function.update s.acceptedAs sid (scheduleType db sid) := by
  rw [State.accepted, h]
  rfl

theorem createSchedule_keeps {sid : ScheduleId} {now : Time} {data : ScheduleCreate}
    (h : serve crontab s (.createSchedule sid now data) = .ok s') :
    Keeps s (.createSchedule sid now data) s' := by
  intro hwf
  obtain ⟨db, hdb, rfl⟩ := serve_ok h
  obtain ⟨row, hcreate, hdb⟩ := Service.bind_ok hdb
  obtain ⟨schedules, hinsert, hdb⟩ := Service.bind_ok hdb
  obtain rfl := Service.pure_ok hdb
  obtain ⟨hnew, rfl⟩ := insertRow_ok hinsert
  obtain ⟨htid, template, htemplate, hpass⟩ := createSchedule_ok hcreate
  obtain ⟨hclean, hok⟩ := sanitizeOverrides_ok hpass
  have htype : s.db.typeOf row.executionTemplateId =
      some (artifactTypeForTemplate s.db.artifacts template) := by
    rw [AdminDb.typeOf, htid, htemplate]
    rfl
  refine ⟨hwf.withSchedules ?_, fun hfit => iff_of_true ?_ trivial⟩
  · intro k r hr
    rw [Table.get_insert _ _ hnew] at hr
    split at hr
    · obtain rfl := Option.some.inj hr
      exact ⟨⟨template, htid ▸ htemplate⟩, hclean⟩
    · exact ⟨hwf.named k r hr, hwf.clean k r hr⟩
  · intro k r artifactType hr htyper
    have hself : (s.db.schedules.insert sid row).get sid = some row := by
      rw [Table.get_insert _ _ hnew, if_pos rfl]
    show Fits (Function.update s.acceptedAs sid _ k) _ _
    have hchecked : scheduleType { s.db with schedules := s.db.schedules.insert sid row } sid = _ :=
      scheduleType_eq hself htype
    rw [hchecked]
    rw [Table.get_insert _ _ hnew] at hr
    split at hr
    · rename_i hk
      obtain rfl := Option.some.inj hr
      obtain rfl : artifactTypeForTemplate s.db.artifacts template = artifactType :=
        Option.some.inj (htype.symm.trans htyper)
      refine ⟨hok, fun _ hacc => ?_⟩
      rwa [hk, Function.update_self] at hacc
    · rename_i hk
      rw [Function.update_of_ne hk]
      exact hfit k r artifactType hr htyper

theorem updateSchedule_keeps {sid : ScheduleId} {data : ScheduleUpdate}
    (h : serve crontab s (.updateSchedule sid data) = .ok s') :
    Keeps s (.updateSchedule sid data) s' := by
  intro hwf
  obtain ⟨db, hdb, rfl⟩ := serve_ok h
  obtain ⟨row, hrow, hdb⟩ := Service.bind_ok hdb
  obtain ⟨row', hupdate, hdb⟩ := Service.bind_ok hdb
  obtain rfl := Service.pure_ok hdb
  have hget := getScheduleRow_ok hrow
  obtain ⟨hmoved, hwritten⟩ := updateSchedule_ok hupdate
  have hself : (s.db.schedules.modify sid fun _ => row').get sid = some row' := by
    rw [Table.get_modify_self, hget]
    rfl
  have hnamed : ∃ template, s.db.templates.get row'.executionTemplateId = some template := by
    rcases hmoved with ⟨-, hsame⟩ | ⟨-, hex⟩
    · rw [hsame]
      exact hwf.named sid row hget
    · exact hex
  have hclean : row'.overrides.Clean := by
    rcases hwritten with ⟨-, hsame⟩ | ⟨_, _, -, -, hpass⟩
    · rw [hsame]
      exact hwf.clean sid row hget
    · exact (sanitizeOverrides_ok hpass).1
  refine ⟨hwf.withSchedules ?_, fun hfit => ⟨?_, ?_⟩⟩
  · intro k r hr
    rw [Table.get_modify] at hr
    split at hr
    · rename_i hk
      subst hk
      rw [hget] at hr
      obtain rfl := Option.some.inj hr
      exact ⟨hnamed, hclean⟩
    · exact ⟨hwf.named k r hr, hwf.clean k r hr⟩
  · -- what was moved without being checked shows in the state that is left
    intro hfit' hnone r tid artifactType hr htid htype
    obtain rfl : row = r := Option.some.inj (hget.symm.trans hr)
    rcases hmoved with ⟨hstay, -⟩ | ⟨hmove, -⟩
    · rw [hstay] at htid
      cases htid
    · obtain rfl : tid = row'.executionTemplateId :=
        Option.some.inj (Option.some.inj (htid.symm.trans hmove))
      have hnow := hfit' sid row' artifactType hself htype
      rcases hwritten with ⟨-, hsame⟩ | ⟨_, _, hgiven, -⟩
      · have hkept : Fits (s.accepted _ (.updateSchedule sid data) sid) _ _ := hnow
        rwa [hsame, accepted_kept hnone] at hkept
      · rw [hnone] at hgiven
        cases hgiven
  · intro hsound k r artifactType hr htype
    rw [Table.get_modify] at hr
    split at hr
    · rename_i hk
      subst hk
      rw [hget] at hr
      obtain rfl := Option.some.inj hr
      rcases hwritten with ⟨hnone, hsame⟩ | ⟨given, template, hgiven, htemplate, hpass⟩
      · -- the overrides stay
        show Fits (s.accepted _ (.updateSchedule k data) k) _ _
        rw [accepted_kept hnone, hsame]
        rcases hmoved with ⟨-, hstay⟩ | ⟨hmove, -⟩
        · exact hfit k row artifactType hget (hstay ▸ htype)
        · exact hsound hnone row _ artifactType hget hmove htype
      · -- the overrides are new, and checked for this type
        have htyped : s.db.typeOf row'.executionTemplateId =
            some (artifactTypeForTemplate s.db.artifacts template) := by
          rw [AdminDb.typeOf, htemplate]
          rfl
        obtain rfl : artifactTypeForTemplate s.db.artifacts template = artifactType :=
          Option.some.inj (htyped.symm.trans htype)
        refine ⟨(sanitizeOverrides_ok hpass).2, fun _ hacc => ?_⟩
        have hchecked : scheduleType
            { s.db with schedules := s.db.schedules.modify k fun _ => row' } k = _ :=
          scheduleType_eq hself htyped
        have hthen : s.accepted _ (.updateSchedule k data) k = .scrapy := hacc
        rwa [accepted_given hgiven, Function.update_self, hchecked] at hthen
    · rename_i hk
      have hold := hfit k r artifactType hr htype
      show Fits (s.accepted _ (.updateSchedule sid data) k) _ _
      cases hgiven : data.overrides with
      | none =>
          rw [accepted_kept hgiven]
          exact hold
      | some given =>
          rw [accepted_given hgiven, Function.update_of_ne hk]
          exact hold

theorem deleteSchedule_keeps {sid : ScheduleId}
    (h : serve crontab s (.deleteSchedule sid) = .ok s') : Keeps s (.deleteSchedule sid) s' := by
  intro hwf
  obtain ⟨db, hdb, rfl⟩ := serve_ok h
  obtain ⟨row, -, hdb⟩ := Service.bind_ok hdb
  obtain rfl := Service.pure_ok hdb
  have hkept : ∀ k r, (s.db.schedules.erase sid).get k = some r →
      s.db.schedules.get k = some r := by
    intro k r hr
    rw [Table.get_erase] at hr
    split at hr
    · cases hr
    · exact hr
  refine ⟨hwf.withSchedules fun k r hr => ?_, fun hfit => iff_of_true ?_ trivial⟩
  · exact ⟨hwf.named k r (hkept k r hr), hwf.clean k r (hkept k r hr)⟩
  · exact fun k r artifactType hr htype => hfit k r artifactType (hkept k r hr) htype

theorem disableAllSchedules_keeps
    (h : serve crontab s .disableAllSchedules = .ok s') : Keeps s .disableAllSchedules s' := by
  intro hwf
  obtain ⟨db, hdb, rfl⟩ := serve_ok h
  obtain rfl := Except.ok.inj hdb
  have hkept : ∀ k r, (disableAllSchedules s.db.schedules).get k = some r →
      ∃ old, s.db.schedules.get k = some old ∧ r.overrides = old.overrides ∧
        r.executionTemplateId = old.executionTemplateId := by
    intro k r hr
    rw [disableAllSchedules, Table.get_updateAll] at hr
    obtain ⟨old, hold, rfl⟩ := Option.map_eq_some_iff.mp hr
    refine ⟨old, hold, ?_⟩
    split
    · exact ⟨rfl, rfl⟩
    · exact ⟨rfl, rfl⟩
  refine ⟨hwf.withSchedules fun k r hr => ?_, fun hfit => iff_of_true ?_ trivial⟩
  · obtain ⟨old, hold, hover, htid⟩ := hkept k r hr
    rw [hover, htid]
    exact ⟨hwf.named k old hold, hwf.clean k old hold⟩
  · intro k r artifactType hr htype
    obtain ⟨old, hold, hover, htid⟩ := hkept k r hr
    rw [hover]
    exact hfit k old artifactType hold (htid ▸ htype)

theorem createTemplate_keeps {tid : TemplateId} {data : TemplateCreate}
    (h : serve crontab s (.createTemplate tid data) = .ok s') :
    Keeps s (.createTemplate tid data) s' := by
  intro hwf
  obtain ⟨db, hdb, rfl⟩ := serve_ok h
  obtain ⟨template, hcreate, hdb⟩ := Service.bind_ok hdb
  obtain ⟨templates, hinsert, hdb⟩ := Service.bind_ok hdb
  obtain rfl := Service.pure_ok hdb
  obtain ⟨hnew, rfl⟩ := insertRow_ok hinsert
  -- no schedule names a template that is only now created
  have hother : ∀ k r, s.db.schedules.get k = some r → r.executionTemplateId ≠ tid := by
    rintro k r hr rfl
    obtain ⟨template', h'⟩ := hwf.named k r hr
    rw [hnew] at h'
    cases h'
  have hsame : ∀ k r, s.db.schedules.get k = some r →
      (s.db.templates.insert tid template).get r.executionTemplateId =
        s.db.templates.get r.executionTemplateId := by
    intro k r hr
    rw [Table.get_insert _ _ hnew, if_neg (hother k r hr)]
  refine ⟨⟨?_, ?_, hwf.clean⟩, fun hfit => iff_of_true ?_ trivial⟩
  · intro k t ht
    rw [Table.get_insert _ _ hnew] at ht
    split at ht
    · obtain rfl := Option.some.inj ht
      exact createTemplate_ok hcreate
    · exact hwf.bound k t ht
  · intro k r hr
    show ∃ t, (s.db.templates.insert tid template).get _ = some t
    rw [hsame k r hr]
    exact hwf.named k r hr
  · intro k r artifactType hr htype
    refine hfit k r artifactType hr ?_
    rw [← htype]
    show _ = ((s.db.templates.insert tid template).get _).map _
    rw [hsame k r hr]
    rfl

theorem updateTemplate_keeps {tid : TemplateId} {data : TemplateUpdate}
    (h : serve crontab s (.updateTemplate tid data) = .ok s') :
    Keeps s (.updateTemplate tid data) s' := by
  intro hwf
  obtain ⟨db, hdb, rfl⟩ := serve_ok h
  obtain ⟨⟨tid', template⟩, hget, hdb⟩ := Service.bind_ok hdb
  obtain ⟨template', hupdate, hdb⟩ := Service.bind_ok hdb
  obtain rfl := Service.pure_ok hdb
  obtain ⟨htid, hget⟩ := getTemplate_ok hget
  obtain rfl := Option.some.inj htid
  obtain ⟨id, artifact, hid, hartifact, hrun, hwanted⟩ := updateTemplate_ok hupdate
  have hself : (s.db.templates.modify tid fun _ => template').get tid = some template' := by
    rw [Table.get_modify_self, hget]
    rfl
  have htype : ((s.db.templates.modify tid fun _ => template').get tid).map
      (artifactTypeForTemplate s.db.artifacts) = some artifact.artifactType := by
    rw [hself, Option.map_some, artifactTypeForTemplate_eq hid hartifact]
  refine ⟨⟨?_, ?_, hwf.clean⟩, fun hfit => ⟨?_, ?_⟩⟩
  · intro k t ht
    rw [Table.get_modify] at ht
    split at ht
    · rename_i hk
      rw [hk, hget] at ht
      obtain rfl := Option.some.inj ht
      exact ⟨id, artifact, hid, hartifact, hrun⟩
    · exact hwf.bound k t ht
  · intro k r hr
    obtain ⟨t, ht⟩ := hwf.named k r hr
    by_cases hk : r.executionTemplateId = tid
    · exact ⟨template', hk ▸ hself⟩
    · exact ⟨t, (Table.get_modify_ne _ _ hk).trans ht⟩
  · rintro hfit' id' artifact' hnew hartifact' k r hr rfl
    rw [hnew] at hwanted
    obtain rfl : id' = id := Option.some.inj hwanted
    obtain rfl : artifact' = artifact := Option.some.inj (hartifact'.symm.trans hartifact)
    exact hfit' k r _ hr htype
  · intro hsound k r artifactType hr hnow
    by_cases hk : r.executionTemplateId = tid
    · subst hk
      obtain rfl : artifact.artifactType = artifactType := Option.some.inj (htype.symm.trans hnow)
      cases hnew : data.buildArtifactId with
      | some binding =>
          rw [hnew] at hwanted
          exact hsound id artifact (by rw [hnew]; exact congrArg some hwanted) hartifact k r hr rfl
      | none =>
          -- the binding stays, and so does the type
          rw [hnew] at hwanted
          refine hfit k r _ hr ?_
          rw [AdminDb.typeOf, hget, Option.map_some, artifactTypeForTemplate_eq hwanted hartifact]
    · refine hfit k r artifactType hr ?_
      rw [← hnow]
      show _ = ((s.db.templates.modify tid fun _ => template').get _).map _
      rw [Table.get_modify_ne _ _ hk]
      rfl

theorem deleteTemplate_keeps {tid : TemplateId}
    (h : serve crontab s (.deleteTemplate tid) = .ok s') : Keeps s (.deleteTemplate tid) s' := by
  intro hwf
  obtain ⟨db, hdb, rfl⟩ := serve_ok h
  obtain ⟨_, -, hdb⟩ := Service.bind_ok hdb
  obtain ⟨_, hunused, hdb⟩ := Service.bind_ok hdb
  obtain rfl := Service.pure_ok hdb
  have hother : ∀ k r, s.db.schedules.get k = some r → r.executionTemplateId ≠ tid := by
    intro k r hr htid
    have hany : (s.db.schedules.rows.any fun r => r.2.executionTemplateId == tid) = true :=
      List.any_eq_true.mpr ⟨(k, r), Table.mem_rows_iff.mpr hr, by simpa using htid⟩
    rw [ensureUnused, if_pos hany] at hunused
    cases hunused
  refine ⟨⟨?_, ?_, hwf.clean⟩, fun hfit => iff_of_true ?_ trivial⟩
  · intro k t ht
    rw [Table.get_erase] at ht
    split at ht
    · cases ht
    · exact hwf.bound k t ht
  · intro k r hr
    obtain ⟨t, ht⟩ := hwf.named k r hr
    refine ⟨t, ?_⟩
    show (s.db.templates.erase tid).get _ = some t
    rw [Table.get_erase, if_neg (hother k r hr), ht]
  · intro k r artifactType hr htype
    refine hfit k r artifactType hr ?_
    rw [← htype]
    show _ = ((s.db.templates.erase tid).get _).map _
    rw [Table.get_erase, if_neg (hother k r hr)]
    rfl

/-- An artifact that is stored again has the type it had. -/
theorem storeArtifact_get {artifacts : Table ArtifactId BuildArtifact} {k : ArtifactId}
    {old : BuildArtifact} (id : ArtifactId) (artifact : BuildArtifact)
    (h : artifacts.get k = some old) :
    ∃ new, (storeArtifact artifacts id artifact).get k = some new ∧
      new.artifactType = old.artifactType := by
  unfold storeArtifact
  split
  · rw [Table.get_modify, h]
    split
    · exact ⟨_, rfl, rfl⟩
    · exact ⟨old, rfl, rfl⟩
  · rename_i hnew
    have hnone : artifacts.get id = none := by simpa using hnew
    rw [Table.get_insert _ _ hnone]
    split
    · rename_i hk
      rw [hk, hnone] at h
      cases h
    · exact ⟨old, h, rfl⟩

theorem storeArtifact_keeps {id : ArtifactId} {artifact : BuildArtifact}
    (h : serve crontab s (.storeArtifact id artifact) = .ok s') :
    Keeps s (.storeArtifact id artifact) s' := by
  intro hwf
  obtain ⟨db, hdb, rfl⟩ := serve_ok h
  obtain rfl := Except.ok.inj hdb
  refine ⟨⟨?_, hwf.named, hwf.clean⟩, fun hfit => iff_of_true ?_ trivial⟩
  · intro k t ht
    obtain ⟨a, old, ha, hold, hrun⟩ := hwf.bound k t ht
    obtain ⟨new, hnew, htype⟩ := storeArtifact_get id artifact hold
    exact ⟨a, new, ha, hnew, htype ▸ hrun⟩
  · intro k r artifactType hr htype
    refine hfit k r artifactType hr ?_
    obtain ⟨t, ht, rfl⟩ := Option.map_eq_some_iff.mp htype
    obtain ⟨a, old, ha, hold, -⟩ := hwf.bound _ t ht
    obtain ⟨new, hnew, hsame⟩ := storeArtifact_get id artifact hold
    have hbefore := artifactTypeForTemplate_eq ha hold
    have hafter := artifactTypeForTemplate_eq ha hnew
    rw [AdminDb.typeOf, show s.db.templates.get _ = some t from ht, Option.map_some, hbefore,
      ← hsame]
    exact congrArg some hafter.symm

/-- **Every request keeps the references, and what fits exactly if it is sound.** -/
theorem serve_keeps {r : AdminRequest} (h : serve crontab s r = .ok s') : Keeps s r s' := by
  cases r with
  | createSchedule sid now data => exact createSchedule_keeps h
  | updateSchedule sid data => exact updateSchedule_keeps h
  | deleteSchedule sid => exact deleteSchedule_keeps h
  | disableAllSchedules => exact disableAllSchedules_keeps h
  | createTemplate tid data => exact createTemplate_keeps h
  | updateTemplate tid data => exact updateTemplate_keeps h
  | deleteTemplate tid => exact deleteTemplate_keeps h
  | storeArtifact id artifact => exact storeArtifact_keeps h

theorem step_keeps {r : AdminRequest} (h : step crontab s r = some s') : Keeps s r s' := by
  cases hserve : serve crontab s r with
  | error e =>
      rw [step, hserve] at h
      cases h
  | ok s₁ =>
      rw [step, hserve] at h
      obtain rfl : s₁ = s' := Option.some.inj h
      exact serve_keeps hserve

end Steps

/-! ### Runs -/

/-- **Overrides are valid as long as what stays fits.** -/
theorem overrides_valid (crontab : Text → Bool) (artifacts : Table ArtifactId BuildArtifact)
    {s : State} (hrun : StateMachine.RunOk (step crontab) Sound (start artifacts) s) :
    Valid s ∧ ∀ r s', step crontab s r = some s' → (Valid s' ↔ Sound s r) := by
  have hinv : Wf s.db ∧ AllFit s := by
    refine StateMachine.RunOk.invariant (I := fun s => Wf s.db ∧ AllFit s) ?_ hrun ?_
    · rintro s r s' ⟨hwf, hfit⟩ hsound hstep
      obtain ⟨hwf', hkeeps⟩ := step_keeps hstep hwf
      exact ⟨hwf', (hkeeps hfit).mpr hsound⟩
    · refine ⟨⟨?_, ?_, ?_⟩, ?_⟩
      · intro tid template h
        cases h
      · intro sid row h
        cases h
      · intro sid row h
        cases h
      · intro sid row artifactType h
        cases h
  obtain ⟨hwf, hfit⟩ := hinv
  refine ⟨(valid_iff hwf).mpr hfit, fun r s' hstep => ?_⟩
  obtain ⟨hwf', hkeeps⟩ := step_keeps hstep hwf
  rw [valid_iff hwf', hkeeps hfit]

/-- A request that checks whatever it touches: a schedule is updated with new
overrides, or a template keeps its binding. -/
def checks : AdminRequest → Bool
  | .updateSchedule _ data => data.overrides.isSome
  | .updateTemplate _ data => data.buildArtifactId.isNone
  | _ => true

theorem sound_of_checks {s : State} {r : AdminRequest} (h : checks r = true) : Sound s r := by
  cases r with
  | updateSchedule sid data =>
      intro hnone
      rw [checks, hnone] at h
      cases h
  | updateTemplate tid data =>
      intro id artifact hnew
      rw [checks, hnew] at h
      cases h
  | _ => trivial

/-! ### A schedule that moves -/

/-- An egg and a wheel. -/
def sampleArtifacts : Table ArtifactId BuildArtifact :=
  (Table.empty.insert 1 { artifactType := .scrapy, spiders := ["quotes".toList] }).insert 2
    { artifactType := .pythonWheel }

/-- A template for each, and a schedule of the wheel with an override for its shell. -/
def sampleRequests : List AdminRequest :=
  [.createTemplate 1
    { name := "eggs".toList, buildArtifactId := some 1, command := "scrapy crawl quotes".toList },
    .createTemplate 2
      { name := "wheels".toList, buildArtifactId := some 2, command := "python run.py".toList },
    .createSchedule 1 0
      { name := "nightly".toList
        executionTemplateId := 2
        intervalSeconds := some 60
        overrides := some { command := some "python job.py".toList } }]

/-- The schedule moves to the egg; what it overrides is not mentioned. -/
def sampleMove : AdminRequest := .updateSchedule 1 { executionTemplateId := some (some 1) }

/-- The schedule moves to the egg with an override for it. -/
def sampleCheckedMove : AdminRequest :=
  .updateSchedule 1
    { executionTemplateId := some (some 1)
      overrides := some (some { command := some "scrapy crawl quotes -s A=1".toList }) }

/-- A schedule whose override is not accepted for the type of its template. -/
def rejects (s : State) (sid : ScheduleId) : Bool :=
  (s.db.schedules.get sid).any fun row =>
    (s.db.typeOf row.executionTemplateId).any fun artifactType =>
      !decide (row.overrides.AcceptedBy artifactType)

theorem not_valid_of_rejects {s : State} {sid : ScheduleId} (h : rejects s sid = true) :
    ¬ Valid s := by
  intro hvalid
  obtain ⟨row, hrow, h⟩ := (Option.any_eq_true _ _).mp h
  obtain ⟨artifactType, htype, h⟩ := (Option.any_eq_true _ _).mp h
  obtain ⟨template, htemplate, rfl⟩ := Option.map_eq_some_iff.mp htype
  have haccepted := (hvalid sid row template hrow htemplate).accepted
  simp [haccepted] at h

/-- With new overrides the schedule may move. -/
theorem overrides_valid_sample : ∃ s : State, Valid s ∧
    (s.db.schedules.get 1).any (fun row => row.executionTemplateId == 1) = true := by
  obtain ⟨s, hrun, hs⟩ := StateMachine.RunOk.exists_of_checkedRun (step fun _ => true)
    (fun _ r => checks r = true) (start sampleArtifacts) (sampleRequests ++ [sampleCheckedMove])
    (fun s => (s.db.schedules.get 1).any fun row => row.executionTemplateId == 1)
    (by decide +kernel)
  have hsound := hrun.mono fun s r hr => sound_of_checks (s := s) hr
  exact ⟨s, (overrides_valid (fun _ => true) sampleArtifacts hsound).1, hs⟩

/-- **A schedule takes an override along that the new template does not accept.** -/
theorem not_overrides_valid : ¬ ∀ (crontab : Text → Bool)
    (artifacts : Table ArtifactId BuildArtifact) (s : State),
    StateMachine.Run (step crontab) (start artifacts) s → Valid s := by
  intro h
  have hmoved : ((StateMachine.runList (step fun _ => true) (start sampleArtifacts)
      (sampleRequests ++ [sampleMove])).any fun s => rejects s 1) = true := by
    decide +kernel
  obtain ⟨s, hs, hrejects⟩ := (Option.any_eq_true _ _).mp hmoved
  exact not_valid_of_rejects hrejects
    (h (fun _ => true) sampleArtifacts s (StateMachine.Run.of_runList hs))

end OverrideRuns

end Dopilot
