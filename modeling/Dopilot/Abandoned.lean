/-
Dopilot/Abandoned.lean

An abandoned run command and its execution.

A run row that becomes `failed`, or is discarded because its task is terminal,
starts nothing any more; its execution then has to be terminal, or it stays
`pending` for good (`Attended`).  The periodic pass fails the executions of the
rows it gives up, and an executor that sent nothing fails its whole task.  But
an executor that sent one row and failed another leaves the other's execution
pending, and a discarded row fails nothing.

`Wholly` excludes the commits that do either while the execution goes on, and
`attended` is the property in every run without them; `not_attended` is an
executor with two nodes, one of which could not be reached.
-/
import Dopilot.Rollup

namespace Dopilot

open StateMachine

namespace Dispatch

/-! ### The property -/

/-- The execution is terminal. -/
def Over (db : ServerDb) (e : ExecutionId) : Prop :=
  (db.execStatus e).any (fun y => y.2.terminal) = true

/-- A cancel has issued a stop for the execution. -/
def Withdrawn (db : ServerDb) (e : ExecutionId) : Prop :=
  ∃ c row, db.outbox.get c = some row ∧ row.type = .stop ∧ row.intent = some .cancel ∧
    row.executionId = e

/-- A run command of the execution is deliverable, or has been sent. -/
def Deliverable (db : ServerDb) (e : ExecutionId) : Prop :=
  ∃ c row, db.outbox.get c = some row ∧ row.type = .run ∧ row.executionId = e ∧
    (row.status.dispatchable = true ∨ row.status = .sent)

/-- A session writes this row for good, and fails no execution for it: the row
is discarded, or one of several rows of an executor that has sent another. -/
def Abandons (x : Session) (new : CommandOutbox) : Prop :=
  new.status = .canceled ∨ new.status = .failed ∧ x.kind ≠ .tick ∧ x.anySent = true

/-- A commit abandons only the run rows of executions that are terminal. -/
def Wholly (s : State) : Action → Prop
  | .commit i _ _ => ∀ x, s.sessions.get i = some x → ∀ w ∈ x.writes,
      match w with
      | .row _ loaded new => loaded.type = .run → Abandons x new → Over s.db loaded.executionId
      | .timeout .. => True
  | _ => True

/-! ### What a session delivers -/

/-- An executor delivers the run rows of its task, a cancel no run row. -/
def SessionKind.Serves (kind : SessionKind) (row : CommandOutbox) : Prop :=
  match kind with
  | .executor t _ => row.type = .run ∧ row.taskId = t
  | .tick => True
  | .cancel => row.type ≠ .run

/-- A written row is one the session delivers, and the periodic pass times out
the execution of a run row it fails. -/
structure Written (x : Session) (loaded new : CommandOutbox) : Prop where
  serves : x.kind.Serves loaded
  settled : new.status ≠ .dispatching
  failed : new.status = .failed → x.kind = .tick → loaded.type = .run →
    loaded.executionId ∈ x.timeouts.map Prod.snd

structure Serving (x : Session) : Prop where
  todo : ∀ r ∈ x.todo, x.kind.Serves r.2
  sending : ∀ c row, x.sending = some (c, row) → x.kind.Serves row
  writes : ∀ c loaded new, Write.row c loaded new ∈ x.writes → Written x loaded new

section Serving

variable {x x' : Session} {db : ServerDb} {now : Time}

theorem SessionKind.Serves.same {kind : SessionKind} {row row' : CommandOutbox}
    (h : kind.Serves row) (hsame : SameCommand row row') : kind.Serves row' := by
  cases kind with
  | executor t last => exact ⟨hsame.type.trans h.1, hsame.taskId.trans h.2⟩
  | tick => trivial
  | cancel =>
      intro hrun
      exact h (hsame.type.symm.trans hrun)

/-- The row read again is the row that was to be delivered. -/
theorem Serving.refreshed_row (h : Serving x) (hwf : SessionWf db x) {c : CommandId}
    {loaded row : CommandOutbox} {todo : List (CommandId × CommandOutbox)}
    (htodo : x.todo = (c, loaded) :: todo) (hrow : (x.view db).outbox.get c = some row) :
    x.kind.Serves row := by
  have hmem : (c, loaded) ∈ x.todo := by
    rw [htodo]
    exact List.mem_cons_self
  obtain ⟨row₀, hrow₀, hsame⟩ := hwf.todo _ hmem
  obtain ⟨row₁, hrow₁, hsame₁, -⟩ := applyWrites_get hrow
  obtain rfl : row₀ = row₁ := Option.some.inj (hrow₀.symm.trans hrow₁)
  exact (h.todo _ hmem).same (hsame.symm.trans hsame₁)

/-- More timeouts keep what is written. -/
theorem Written.more {loaded new : CommandOutbox} (h : Written x loaded new)
    (hkind : x'.kind = x.kind) (htimeouts : ∀ te ∈ x.timeouts, te ∈ x'.timeouts) :
    Written x' loaded new where
  serves := hkind ▸ h.serves
  settled := h.settled
  failed := by
    intro hfailed htick hrun
    obtain ⟨te, hte, he⟩ := List.mem_map.mp (h.failed hfailed (hkind ▸ htick) hrun)
    exact List.mem_map.mpr ⟨te, htimeouts te hte, he⟩

/-- Another row is written, beside timeouts. -/
theorem Serving.write (h : Serving x) (hkind : x'.kind = x.kind) {c : CommandId}
    {loaded new : CommandOutbox} {tail : List Write}
    (hwrites : x'.writes = x.writes ++ .row c loaded new :: tail)
    (htail : ∀ c loaded new, Write.row c loaded new ∉ tail) (hnew : Written x' loaded new) :
    ∀ c loaded new, Write.row c loaded new ∈ x'.writes → Written x' loaded new := by
  intro c' loaded' new' hw
  rw [hwrites] at hw
  rcases List.mem_append.mp hw with hw | hw
  · refine (h.writes c' loaded' new' hw).more hkind fun te hte => ?_
    unfold Session.timeouts
    rw [hwrites, timeoutsOf_append]
    exact List.mem_append_left _ hte
  · rcases List.mem_cons.mp hw with hw | hw
    · cases hw
      exact hnew
    · exact absurd hw (htail c' loaded' new')

theorem Serving.refreshed (h : Serving x) (hwf : SessionWf db x)
    (hx : Session.Refreshed x db now x') : Serving x' := by
  cases hx with
  | sent _ htodo _ _ =>
      refine ⟨fun r hr => h.todo r ?_, h.sending, fun c loaded new hw =>
        (h.writes c loaded new hw).more rfl fun _ => id⟩
      rw [htodo]
      exact List.mem_cons_of_mem _ hr
  | canceled _ htodo _ _ =>
      refine ⟨fun r hr => h.todo r ?_, h.sending, fun c loaded new hw =>
        (h.writes c loaded new hw).more rfl fun _ => id⟩
      rw [htodo]
      exact List.mem_cons_of_mem _ hr
  | notDispatchable _ htodo hrow _ _ _ _ =>
      refine ⟨fun r hr => h.todo r ?_, h.sending,
        h.write rfl rfl (fun _ _ _ => List.not_mem_nil) ?_⟩
      · rw [htodo]
        exact List.mem_cons_of_mem _ hr
      · exact ⟨h.refreshed_row hwf htodo hrow, by simp [CommandOutbox.discard],
          by simp [CommandOutbox.discard]⟩
  | send _ htodo hrow _ _ _ =>
      refine ⟨fun r hr => h.todo r ?_, ?_, fun c loaded new hw =>
        (h.writes c loaded new hw).more rfl fun _ => id⟩
      · rw [htodo]
        exact List.mem_cons_of_mem _ hr
      · intro c' row' hsending
        obtain ⟨rfl, rfl⟩ := Prod.mk.inj (Option.some.inj hsending)
        exact h.refreshed_row hwf htodo hrow

/-- The periodic pass times out the execution of a run row it fails. -/
theorem mem_timeouts_failed {c : CommandId} {loaded new : CommandOutbox} {ws : List Write}
    (hrun : loaded.type = .run) : loaded.executionId ∈ (timeoutsOf
      (ws ++ .row c loaded new :: Session.timeoutWrites .tick now loaded)).map Prod.snd := by
  rw [timeoutsOf_append, timeoutsOf_row]
  refine List.mem_map.mpr ⟨(loaded.taskId, loaded.executionId), ?_, rfl⟩
  exact List.mem_append_right _ (mem_timeoutWrites.mpr ⟨rfl, hrun, rfl⟩)

theorem Serving.appended (h : Serving x) {msg : Option MessageId}
    (hx : Session.Appended x now msg x') : Serving x' := by
  cases hx with
  | sent m hsending =>
      refine ⟨h.todo, (by intro _ _ hc; cases hc),
        h.write rfl rfl (fun _ _ _ => List.not_mem_nil) ?_⟩
      exact ⟨h.sending _ _ hsending, by simp [CommandOutbox.markSent],
        by simp [CommandOutbox.markSent]⟩
  | retry hsending _ =>
      refine ⟨h.todo, (by intro _ _ hc; cases hc),
        h.write rfl rfl (fun _ _ _ => List.not_mem_nil) ?_⟩
      exact ⟨h.sending _ _ hsending, by simp [CommandOutbox.markUnavailable],
        by simp [CommandOutbox.markUnavailable]⟩
  | @failed c row hsending =>
      refine ⟨h.todo, (by intro _ _ hc; cases hc), h.write rfl rfl not_mem_timeoutWrites ?_⟩
      refine ⟨h.sending _ _ hsending, by simp [CommandOutbox.markUnavailable], ?_⟩
      intro _ htick hrun
      have htick : x.kind = .tick := htick
      unfold Session.timeouts
      simp only [htick]
      exact mem_timeouts_failed hrun

theorem Serving.gaveUp (h : Serving x) (hx : x.giveUp now = some x') : Serving x' := by
  obtain ⟨c, loaded, todo, hkind, -, htodo, -, rfl⟩ := Session.gaveUp hx
  refine ⟨fun r hr => h.todo r ?_, h.sending, h.write rfl rfl not_mem_timeoutWrites ?_⟩
  · rw [htodo]
    exact List.mem_cons_of_mem _ hr
  · refine ⟨?_, by simp [CommandOutbox.giveUp], fun _ _ hrun => mem_timeouts_failed hrun⟩
    rw [hkind]
    trivial

end Serving

/-! ### Attended rows -/

/-- A run row that starts nothing any more has a terminal execution, or was
withdrawn. -/
structure RowOk (db : ServerDb) (row : CommandOutbox) : Prop where
  failed : row.status = .failed → Over db row.executionId
  canceled : row.status = .canceled → Over db row.executionId ∨ Withdrawn db row.executionId
  settled : row.status ≠ .dispatching

structure Attended (db : ServerDb) : Prop where
  rows : ∀ c row, db.outbox.get c = some row → row.type = .run → RowOk db row
  served : ∀ e t st, db.execStatus e = some (t, st) →
    ∃ c row, db.outbox.get c = some row ∧ row.type = .run ∧ row.executionId = e

section Attended

variable {db db' : ServerDb} {e : ExecutionId} {row row' : CommandOutbox} {now : Time} {t : TaskId}

theorem over_iff : Over db e ↔ ∃ t st, db.execStatus e = some (t, st) ∧ st.terminal = true := by
  unfold Over
  rcases h : db.execStatus e with - | ⟨t, st⟩
  · simp
  · constructor
    · intro hst
      exact ⟨t, st, rfl, hst⟩
    · rintro ⟨t', st', heq, hst⟩
      obtain ⟨rfl, rfl⟩ := Prod.mk.inj (Option.some.inj heq)
      exact hst

theorem Over.onward (h : Over db e) (hon : db.Onward db') : Over db' e := by
  obtain ⟨t, st, he, hst⟩ := over_iff.mp h
  obtain ⟨st', he', hadv⟩ := hon.target he
  exact over_iff.mpr ⟨t, st', he', hadv.terminal hst⟩

theorem Withdrawn.grow (h : Withdrawn db e) (hg : Grows db db') : Withdrawn db' e := by
  obtain ⟨c, row, hrow, htype, hintent, he⟩ := h
  obtain ⟨row', hrow', hsame⟩ := hg.rows c row hrow
  exact ⟨c, row', hrow', hsame.type.trans htype, hsame.intent.trans hintent,
    hsame.executionId.trans he⟩

/-- A row whose status stays as it is. -/
theorem RowOk.kept (h : RowOk db row) (hg : Grows db db') (hover : ∀ e, Over db e → Over db' e)
    (hsame : SameCommand row row') (hstatus : row'.status = row.status) : RowOk db' row' where
  failed := by
    intro hfailed
    rw [hsame.executionId]
    exact hover _ (h.failed (hstatus.symm.trans hfailed))
  canceled := by
    intro hcanceled
    rw [hsame.executionId]
    exact (h.canceled (hstatus.symm.trans hcanceled)).imp (hover _) fun hw => hw.grow hg
  settled := by
    rw [hstatus]
    exact h.settled

theorem RowOk.of_pending (h : row.status = .pending) : RowOk db row where
  failed := fun hc => by
    rw [h] at hc
    cases hc
  canceled := fun hc => by
    rw [h] at hc
    cases hc
  settled := fun hc => by
    rw [h] at hc
    cases hc

/-- Rows are added, and those that are there keep their statuses. -/
theorem Attended.of_adds {P : CommandOutbox → Prop} (h : Attended db) (hadds : Adds P db db')
    (hP : ∀ row, P row → row.status = .pending) (hg : Grows db db')
    (hover : ∀ e, Over db e → Over db' e)
    (hexec : ∀ e t st, db'.execStatus e = some (t, st) → (∃ st₀, db.execStatus e = some (t, st₀)) ∨
      ∃ c row, db'.outbox.get c = some row ∧ row.type = .run ∧ row.executionId = e) :
    Attended db' where
  rows := by
    intro c row hrow hrun
    rcases hadds.adds c row hrow with hold | ⟨-, hnew⟩
    · exact (h.rows c row hold hrun).kept hg hover (.refl row) rfl
    · exact .of_pending (hP row hnew)
  served := by
    intro e t st he
    rcases hexec e t st he with ⟨st₀, he₀⟩ | hnew
    · obtain ⟨c, row, hrow, hrun, hre⟩ := h.served e t st₀ he₀
      exact ⟨c, row, hadds.keeps c row hrow, hrun, hre⟩
    · exact hnew

/-! Tasks are created. -/

/-- Every execution of a new task gets a run row. -/
theorem createExecutions_rows (db : ServerDb) (now : Time) (t : TaskId) (taskType : RunnerType)
    (payload : CommandPayload) {nodes : List (ExecutionId × AgentId)}
    (hfresh : ∀ c row, db.outbox.get c = some row → c < db.nextCommand) :
    ∀ n ∈ nodes, ∃ c row, (nodes.foldl (fun db node => db.createExecution now t taskType payload node)
      db).outbox.get c = some row ∧ row.type = .run ∧ row.executionId = n.1 := by
  induction nodes generalizing db with
  | nil =>
      intro n hn
      cases hn
  | cons m nodes ih =>
      have hadds : Adds (NewRun t [m.1]) db (db.createExecution now t taskType payload m) :=
        createExecution_adds m
      intro n hn
      rcases List.mem_cons.mp hn with rfl | hn
      · -- its row is inserted under the next id, and stays
        obtain ⟨row, hrow, hrun, hre⟩ : ∃ row,
            (db.createExecution now t taskType payload n).outbox.get db.nextCommand = some row ∧
              row.type = .run ∧ row.executionId = n.1 := by
          have hnone : db.outbox.get db.nextCommand = none := by
            rcases hget : db.outbox.get db.nextCommand with - | row
            · rfl
            · exact absurd (hfresh _ row hget) (Nat.lt_irrefl _)
          refine ⟨_, (Table.get_insert db.outbox _ hnone _).trans (if_pos rfl), rfl, rfl⟩
        refine ⟨db.nextCommand, row, ?_, hrun, hre⟩
        rw [List.foldl_cons]
        have hrest : ∀ (l : List (ExecutionId × AgentId)) (db₁ : ServerDb),
            db₁.outbox.get db.nextCommand = some row →
            (l.foldl (fun db node => db.createExecution now t taskType payload node)
              db₁).outbox.get db.nextCommand = some row := by
          intro l
          induction l with
          | nil => exact fun _ h => h
          | cons k l ihl =>
              intro db₁ h
              have hk : Adds (NewRun t [k.1]) db₁ (db₁.createExecution now t taskType payload k) :=
                createExecution_adds k
              exact ihl _ (hk.keeps _ row h)
        exact hrest nodes _ hrow
      · exact ih _ (hadds.fresh hfresh) n hn

theorem createTask_rows (db : ServerDb) (now : Time) (t : TaskId) (task : Task)
    (taskType : RunnerType) (payload : CommandPayload) {nodes : List (ExecutionId × AgentId)}
    (hfresh : ∀ c row, db.outbox.get c = some row → c < db.nextCommand) :
    ∀ e ∈ nodes.map Prod.fst, ∃ c row,
      (db.createTask now t task taskType payload nodes).outbox.get c = some row ∧
        row.type = .run ∧ row.executionId = e := by
  intro e he
  obtain ⟨n, hn, rfl⟩ := List.mem_map.mp he
  unfold ServerDb.createTask
  simp only
  rw [if_neg (List.ne_nil_of_mem hn)]
  exact createExecutions_rows _ now t taskType payload (by exact hfresh) n hn

theorem Attended.createTask (h : Attended db)
    (hfresh : ∀ c row, db.outbox.get c = some row → c < db.nextCommand) (task : Task)
    (taskType : RunnerType) (payload : CommandPayload) {nodes : List (ExecutionId × AgentId)}
    (htask : db.tasks.get t = none) (hnew : ∀ n ∈ nodes, db.executions.get n.1 = none)
    (hnodup : (nodes.map Prod.fst).Nodup)
    (hg : Grows db (db.createTask now t task taskType payload nodes)) :
    Attended (db.createTask now t task taskType payload nodes) := by
  obtain ⟨hadds, hexec, -⟩ := createTask_spec db now t task taskType payload htask hnew hnodup
  refine h.of_adds hadds (fun row hrow => hrow.2.2.2.1) hg (fun e he => ?_) fun e t' st he => ?_
  · obtain ⟨t', st, he', hst⟩ := over_iff.mp he
    have hnot : e ∉ nodes.map Prod.fst := fun hmem => by
      obtain ⟨n, hn, rfl⟩ := List.mem_map.mp hmem
      unfold ServerDb.execStatus at he'
      rw [hnew n hn] at he'
      cases he'
    refine over_iff.mpr ⟨t', st, (hexec e).trans ?_, hst⟩
    rw [if_neg hnot]
    exact he'
  · by_cases hmem : e ∈ nodes.map Prod.fst
    · exact .inr (createTask_rows db now t task taskType payload hfresh e hmem)
    · rw [hexec, if_neg hmem] at he
      exact .inl ⟨st, he⟩

/-! Tasks are canceled. -/

/-- The stops of a cancel are all in the outbox. -/
theorem createStops_rows (db : ServerDb) (now : Time) (t : TaskId)
    (l : List (ExecutionId × Execution))
    (hfresh : ∀ c row, db.outbox.get c = some row → c < db.nextCommand) :
    ∀ r ∈ l, Withdrawn (l.foldl
      (fun db r => db.createStopOutbox now .cancel t r.1 r.2.agentId) db) r.1 := by
  induction l generalizing db with
  | nil =>
      intro r hr
      cases hr
  | cons m l ih =>
      have hadds : Adds Plain db (db.createStopOutbox now .cancel t m.1 m.2.agentId) :=
        adds_createStopOutbox (.refl db)
      intro r hr
      rcases List.mem_cons.mp hr with rfl | hr
      · obtain ⟨row, hrow, htype, hintent, hre⟩ : ∃ row,
            (db.createStopOutbox now .cancel t r.1 r.2.agentId).outbox.get db.nextCommand =
              some row ∧ row.type = .stop ∧ row.intent = some .cancel ∧ row.executionId = r.1 := by
          have hnone : db.outbox.get db.nextCommand = none := by
            rcases hget : db.outbox.get db.nextCommand with - | row
            · rfl
            · exact absurd (hfresh _ row hget) (Nat.lt_irrefl _)
          exact ⟨_, (Table.get_insert db.outbox _ hnone _).trans (if_pos rfl), rfl, rfl, rfl⟩
        obtain ⟨hrest, -, -⟩ := createStops_adds
          (db.createStopOutbox now .cancel t r.1 r.2.agentId) now t l
        exact ⟨db.nextCommand, row, hrest.keeps _ row hrow, htype, hintent, hre⟩
      · exact ih _ (hadds.fresh hfresh) r hr

theorem Attended.requestCancel (h : Attended db)
    (howned : ∀ c row, db.outbox.get c = some row → Owned db row)
    (hfresh : ∀ c row, db.outbox.get c = some row → c < db.nextCommand)
    (hg : Grows db (db.requestCancel now t)) : Attended (db.requestCancel now t) := by
  obtain ⟨hadds, hexec, -⟩ := requestCancel_spec db now t
  have hover : ∀ e, Over db e → Over (db.requestCancel now t) e := by
    intro e he
    unfold Over
    rw [hexec]
    exact he
  refine ⟨fun c row hrow hrun => ?_, fun e t' st he => ?_⟩
  · rcases hadds.adds c row hrow with hold | ⟨-, hnew⟩
    · obtain ⟨row₀, hrow₀, rfl⟩ := Option.map_eq_some_iff.mp
        ((Table.get_updateAll _ _ c).symm.trans hold)
      by_cases hunsent : row₀.taskId = t ∧ row₀.status.unresolved = true
      · -- the row is canceled: its execution is terminal, or gets a stop
        rw [if_pos hunsent] at hrun ⊢
        obtain ⟨st, hst⟩ := howned c row₀ hrow₀ hrun
        have hcanceled : Over (db.requestCancel now t) row₀.executionId ∨
            Withdrawn (db.requestCancel now t) row₀.executionId := by
          by_cases hterm : st.terminal = true
          · exact .inl (hover _ (over_iff.mpr ⟨_, st, hst, hterm⟩))
          · obtain ⟨x, hx, hview⟩ := Option.map_eq_some_iff.mp hst
            obtain ⟨hxt, hxs⟩ := Prod.mk.inj hview
            have hactive : x.status.active = true := by
              rw [hxs]
              simpa [ExecStatus.terminal] using hterm
            have hcs : ∀ c row, (db.cancelUnsentOutbox now t).outbox.get c = some row →
                c < (db.cancelUnsentOutbox now t).nextCommand := by
              intro c row hrow
              obtain ⟨row₁, hrow₁, -⟩ := Option.map_eq_some_iff.mp
                ((Table.get_updateAll _ _ c).symm.trans hrow)
              exact hfresh c row₁ hrow₁
            exact .inr (createStops_rows _ now t _ hcs (row₀.executionId, x)
              (List.mem_filter.mpr ⟨ServerDb.mem_listExecutions.mpr
                ⟨hx, hxt.trans hunsent.1⟩, hactive⟩))
        exact ⟨(by intro hc; cases hc), fun _ => hcanceled, (by intro hc; cases hc)⟩
      · rw [if_neg hunsent] at hrun ⊢
        exact (h.rows c row₀ hrow₀ hrun).kept hg hover (.refl row₀) rfl
    · exact absurd hrun hnew.1
  · rw [hexec] at he
    obtain ⟨c, row, hrow, hrun, hre⟩ := h.served e t' st he
    obtain ⟨row', hrow', hsame⟩ := hg.rows c row hrow
    exact ⟨c, row', hrow', hsame.type.trans hrun, hsame.executionId.trans hre⟩

end Attended

/-! ### Commits -/

section Commits

variable {s s' : State} {a : Action} {db : ServerDb} {x : Session} {now : Time}

theorem mem_rowWrites {c : CommandId} {ws : List Write} {p : CommandOutbox × CommandOutbox} :
    p ∈ rowWrites c ws ↔ Write.row c p.1 p.2 ∈ ws := by
  unfold rowWrites
  rw [List.mem_filterMap]
  constructor
  · rintro ⟨w, hw, hp⟩
    cases w with
    | timeout now t e => cases hp
    | row c' loaded new =>
        simp only at hp
        split at hp
        · rename_i hc
          obtain rfl := Option.some.inj hp
          rw [← hc]
          exact hw
        · cases hp
  · intro hw
    exact ⟨_, hw, if_pos rfl⟩

/-- A merged row has the status it had, or one that was written. -/
theorem mergeAll_status (ps : List (CommandOutbox × CommandOutbox)) (row : CommandOutbox) :
    (mergeAll ps row).status = row.status ∨
      ∃ p ∈ ps, (mergeAll ps row).status = p.2.status := by
  induction ps generalizing row with
  | nil => exact .inl rfl
  | cons p ps ih =>
      rcases ih (p.1.merge p.2 row) with h | ⟨q, hq, h⟩
      · by_cases hp : p.2.status = p.1.status
        · refine .inl (h.trans ?_)
          exact if_pos hp
        · refine .inr ⟨p, List.mem_cons_self, h.trans ?_⟩
          exact CommandOutbox.merge_status hp
      · exact .inr ⟨q, List.mem_cons_of_mem _ hq, h⟩

/-- The executions that writes time out are terminal. -/
theorem over_of_timeouts {ws : List Write} {e : ExecutionId} {t : TaskId} {st : ExecStatus}
    (he : db.execStatus e = some (t, st)) (h : e ∈ (timeoutsOf ws).map Prod.snd) :
    Over (applyWrites db ws) e := by
  refine over_iff.mpr ⟨t, _, (applyWrites_execStatus e).trans (congrArg _ he), ?_⟩
  simp only
  by_cases hactive : st.active = true
  · rw [if_pos ⟨h, hactive⟩]
    rfl
  · rw [if_neg fun hc => hactive hc.2]
    simpa [ExecStatus.terminal] using hactive

/-- What an executor that sent nothing leaves of its task. -/
theorem over_unavailable {held : HeldRows} {t : TaskId} {e : ExecutionId} {st : ExecStatus}
    (he : db.execStatus e = some (t, st)) : Over (db.failDispatchUnavailable held now t) e := by
  refine over_iff.mpr ⟨t, _, (failDispatchUnavailable_execStatus e).trans (congrArg _ he), ?_⟩
  simp only
  by_cases hactive : ((held.status e).getD st).active = true
  · rw [if_pos ⟨trivial, hactive⟩]
    rfl
  · rw [if_neg fun hc => hactive hc.2]
    rcases hheld : held.status e with - | st₁
    · rw [hheld] at hactive
      simpa [ExecStatus.terminal] using hactive
    · rw [hheld] at hactive
      exact absurd (held.active _ _ hheld) hactive

theorem Over.unavailable {held : HeldRows} {t : TaskId} {e : ExecutionId} (h : Over db e) :
    Over (db.failDispatchUnavailable held now t) e := by
  obtain ⟨t', st, he, hst⟩ := over_iff.mp h
  refine over_iff.mpr ⟨t', _, (failDispatchUnavailable_execStatus e).trans (congrArg _ he), ?_⟩
  simp only
  split
  · rfl
  · exact hst

/-- A row after a commit is attended, if its execution is terminal whenever a
session has written a status that starts nothing. -/
theorem Attended.of_commit {db' : ServerDb} (h : Attended db) (hwf : SessionWf db x)
    (hserving : Serving x) (hg : Grows db db') (hover : ∀ e, Over db e → Over db' e)
    (houtbox : db'.outbox = (x.view db).outbox)
    (hexec : ∀ e t st, db'.execStatus e = some (t, st) → ∃ st₀, db.execStatus e = some (t, st₀))
    (hdone : ∀ c loaded new, Write.row c loaded new ∈ x.writes → loaded.type = .run →
      new.status = .failed ∨ new.status = .canceled → Over db' loaded.executionId) :
    Attended db' where
  rows := by
    intro c row hrow hrun
    rw [houtbox] at hrow
    obtain ⟨row₀, hrow₀, hsame, rfl⟩ := applyWrites_get hrow
    have hrun₀ : row₀.type = .run := hsame.type.symm.trans hrun
    rcases mergeAll_status (rowWrites c x.writes) row₀ with hstatus | ⟨p, hp, hstatus⟩
    · exact (h.rows c row₀ hrow₀ hrun₀).kept hg hover hsame hstatus
    · have hw := mem_rowWrites.mp hp
      obtain ⟨⟨row₁, hrow₁, hsame₁⟩, -⟩ := hwf.writes c p.1 p.2 hw
      obtain rfl : row₀ = row₁ := Option.some.inj (hrow₀.symm.trans hrow₁)
      have hfinal : p.2.status = .failed ∨ p.2.status = .canceled →
          Over db' (mergeAll (rowWrites c x.writes) row₀).executionId := by
        intro hfinal
        rw [hsame.executionId, ← hsame₁.executionId]
        exact hdone c p.1 p.2 hw (hsame₁.type.trans hrun₀) hfinal
      refine ⟨fun hfailed => hfinal (.inl (hstatus.symm.trans hfailed)),
        fun hcanceled => .inl (hfinal (.inr (hstatus.symm.trans hcanceled))), ?_⟩
      rw [hstatus]
      exact (hserving.writes c p.1 p.2 hw).settled
  served := by
    intro e t st he
    obtain ⟨st₀, he₀⟩ := hexec e t st he
    obtain ⟨c, row, hrow, hrun, hre⟩ := h.served e t st₀ he₀
    obtain ⟨row', hrow', hsame⟩ := hg.rows c row hrow
    exact ⟨c, row', hrow', hsame.type.trans hrun, hsame.executionId.trans hre⟩

/-! ### Runs -/

/-- What holds of every state reached by commits that abandon nothing. -/
structure AttendedInv (s : State) : Prop where
  wf : Wf s
  attended : Attended s.db
  serving : ∀ i x, s.sessions.get i = some x → Serving x

theorem step_serving (hwf : Wf s) (hserving : ∀ i x, s.sessions.get i = some x → Serving x)
    (h : step s a = some s') : ∀ i x, s'.sessions.get i = some x → Serving x := by
  cases step_cases h with
  | write _ => exact hserving
  | issue _ _ _ => exact hserving
  | noTarget _ => exact hserving
  | @create now t task taskType payload nodes last htask hnew hnodup _ =>
      obtain ⟨hadds, -, -⟩ := createTask_spec s.db now t task taskType payload htask hnew hnodup
      intro i x hx
      rcases addSession_cases hx with hx | ⟨-, rfl⟩
      · exact hserving i x hx
      · refine ⟨fun r hr => ?_, (by intro _ _ hc; cases hc), (by intro _ _ _ hc; cases hc)⟩
        obtain ⟨hrow, hlater⟩ := mem_newRows.mp hr
        rcases hadds.adds r.1 r.2 hrow with hold | ⟨-, hnew⟩
        · exact absurd (hwf.fresh _ _ hold) (Nat.not_lt.mpr hlater)
        · exact ⟨hnew.1, hnew.2.1⟩
  | @cancel now t =>
      obtain ⟨hadds, -, -⟩ := requestCancel_spec s.db now t
      intro i x hx
      rcases addSession_cases hx with hx | ⟨-, rfl⟩
      · exact hserving i x hx
      · refine ⟨fun r hr => ?_, (by intro _ _ hc; cases hc), (by intro _ _ _ hc; cases hc)⟩
        obtain ⟨hrow, hlater⟩ := mem_newRows.mp hr
        rcases hadds.adds r.1 r.2 hrow with hold | ⟨-, hnew⟩
        · obtain ⟨row₀, hrow₀, -⟩ := Option.map_eq_some_iff.mp
            ((Table.get_updateAll _ _ r.1).symm.trans hold)
          exact absurd (hwf.fresh _ _ hrow₀) (Nat.not_lt.mpr hlater)
        · exact hnew.1
  | @tick now requeued rows _ _ _ _ _ =>
      intro i x hx
      rcases addSession_cases hx with hx | ⟨-, rfl⟩
      · exact hserving i x hx
      · refine ⟨fun _ _ => trivial, (by intro _ _ hc; cases hc), fun c loaded new hw => ?_⟩
        obtain ⟨c', -, hc'⟩ := List.mem_filterMap.mp hw
        obtain ⟨row, -, heq⟩ := Option.map_eq_some_iff.mp hc'
        cases heq
        exact ⟨trivial, by simp [CommandOutbox.requeue], by simp [CommandOutbox.requeue]⟩
  | refresh hx hx' =>
      intro j y hy
      rcases sessions_cases hy with hy | ⟨-, rfl⟩
      · exact hserving j y hy
      · exact (hserving _ _ hx).refreshed (hwf.sessions _ _ hx) (Session.refreshed hx')
  | sent hx _ hx' =>
      intro j y hy
      rcases sessions_cases hy with hy | ⟨-, rfl⟩
      · exact hserving j y hy
      · exact (hserving _ _ hx).appended (Session.appended hx')
  | raised hx hx' =>
      intro j y hy
      rcases sessions_cases hy with hy | ⟨-, rfl⟩
      · exact hserving j y hy
      · exact (hserving _ _ hx).appended (Session.appended hx')
  | giveUp hx hx' =>
      intro j y hy
      rcases sessions_cases hy with hy | ⟨-, rfl⟩
      · exact hserving j y hy
      · exact (hserving _ _ hx).gaveUp hx'
  | commit _ _ => exact fun j y hy => hserving j y (eraseSession_cases hy)
  | abort => exact fun j y hy => hserving j y (eraseSession_cases hy)
  | vanish => exact hserving

/-- **The step.** -/
theorem step_attended (hinv : AttendedInv s) (hok : Wholly s a) (h : step s a = some s') :
    AttendedInv s' := by
  refine ⟨step_wf hinv.wf h, ?_, step_serving hinv.wf hinv.serving h⟩
  have hg := step_grows h
  have hatt := hinv.attended
  cases step_cases h with
  | @write w _ =>
      obtain ⟨hon, -⟩ := w.apply_onward s.db
      refine hatt.of_adds (writer_adds w) (fun _ hrow => hrow.2.1) hg (fun e he => he.onward hon)
        fun e t st he => ?_
      obtain ⟨st₀, he₀, -⟩ := hon.source he
      exact .inl ⟨st₀, he₀⟩
  | issue htype hstatus hmsg =>
      have hadds : Adds Plain s.db (s.db.addOutbox _) := .of_addOutbox ⟨htype, hstatus, hmsg⟩
      exact hatt.of_adds hadds (fun _ hrow => hrow.2.1) hg (fun _ he => he)
        fun e t st he => .inl ⟨st, he⟩
  | @noTarget now t task taskType payload htask =>
      exact hatt.createTask hinv.wf.fresh task taskType payload htask
        (fun n hn => absurd hn List.not_mem_nil) List.nodup_nil hg
  | @create now t task taskType payload nodes last htask hnew hnodup _ =>
      exact hatt.createTask hinv.wf.fresh task taskType payload htask hnew hnodup hg
  | cancel => exact hatt.requestCancel hinv.wf.rows hinv.wf.fresh hg
  | tick _ _ _ _ _ => exact hatt
  | refresh _ _ => exact hatt
  | sent _ _ _ => exact hatt
  | raised _ _ => exact hatt
  | giveUp _ _ => exact hatt
  | @commit i now held x db hx hdb =>
      have hxwf := hinv.wf.sessions i x hx
      have hserving := hinv.serving i x hx
      have hon : s.db.Onward (x.view s.db) := applyWrites_onward
      have hview : ∀ e t st, (x.view s.db).execStatus e = some (t, st) →
          ∃ st₀, s.db.execStatus e = some (t, st₀) := by
        intro e t st he
        obtain ⟨st₀, he₀, -⟩ := hon.source he
        exact ⟨st₀, he₀⟩
      have howner : ∀ c loaded new, Write.row c loaded new ∈ x.writes → loaded.type = .run →
          ∃ st, s.db.execStatus loaded.executionId = some (loaded.taskId, st) :=
        fun c loaded new hw hrun => (hxwf.writes c loaded new hw).1.owned hinv.wf.rows hrun
      cases Session.committed hdb with
      | done _ _ hsent =>
          refine hatt.of_commit hxwf hserving hg (fun e he => he.onward hon) rfl hview ?_
          intro c loaded new hw hrun hfinal
          by_cases hab : Abandons x new
          · exact (hok x hx _ hw hrun hab).onward hon
          · -- the periodic pass times out what it fails
            have hfailed : new.status = .failed := hfinal.resolve_right fun hc => hab (.inl hc)
            have htick : x.kind = .tick := by
              cases hkind : x.kind with
              | tick => rfl
              | executor t last =>
                  exact absurd (.inr ⟨hfailed, by simp [hkind], hsent ⟨t, last, hkind⟩⟩) hab
              | cancel =>
                  have hserves := (hserving.writes c loaded new hw).serves
                  rw [hkind] at hserves
                  exact absurd hrun hserves
            obtain ⟨st, hst⟩ := howner c loaded new hw hrun
            exact over_of_timeouts hst
              ((hserving.writes c loaded new hw).failed hfailed htick hrun)
      | @unavailable t last _ _ hkind _ _ =>
          refine hatt.of_commit hxwf hserving hg (fun e he => (he.onward hon).unavailable) rfl
            (fun e t' st he => ?_) fun c loaded new hw hrun _ => ?_
          · rw [failDispatchUnavailable_execStatus] at he
            obtain ⟨⟨t', st₀⟩, he₀, heq⟩ := Option.map_eq_some_iff.mp he
            obtain ⟨rfl, -⟩ := Prod.mk.inj heq
            exact hview e t' st₀ he₀
          · obtain ⟨st, hst⟩ := howner c loaded new hw hrun
            have hserves := (hserving.writes c loaded new hw).serves
            rw [hkind] at hserves
            obtain ⟨st', hst', -⟩ := hon.target hst
            rw [hserves.2] at hst'
            exact over_unavailable hst'
  | abort => exact hatt
  | vanish => exact hatt

theorem AttendedInv.start : AttendedInv State.start where
  wf := .start
  attended := ⟨(by intro _ _ hc; cases hc), by intro _ _ _ hc; cases hc⟩
  serving := by
    intro i x hx
    cases hx

/-- **An abandoned run command has failed its execution**, in every run whose
commits abandon no run row of an execution that goes on. -/
theorem attended (h : RunOk step Wholly State.start s) :
    (∀ c row, s.db.outbox.get c = some row → row.type = .run → row.status = .failed →
      Over s.db row.executionId) ∧
    ∀ e t, s.db.execStatus e = some (t, .pending) → Deliverable s.db e ∨ Withdrawn s.db e := by
  have hinv : AttendedInv s :=
    h.invariant (fun _ _ _ hi hok hs => step_attended hi hok hs) .start
  refine ⟨fun c row hrow hrun => (hinv.attended.rows c row hrow hrun).failed, ?_⟩
  intro e t he
  have hgoing : ¬ Over s.db e := by
    intro hover
    obtain ⟨t', st, he', hst⟩ := over_iff.mp hover
    rw [he] at he'
    obtain ⟨-, rfl⟩ := Prod.mk.inj (Option.some.inj he')
    cases hst
  obtain ⟨c, row, hrow, hrun, rfl⟩ := hinv.attended.served e t _ he
  have hok := hinv.attended.rows c row hrow hrun
  cases hstatus : row.status with
  | pending => exact .inl ⟨c, row, hrow, hrun, rfl, .inl (by rw [hstatus]; rfl)⟩
  | failedRetryable => exact .inl ⟨c, row, hrow, hrun, rfl, .inl (by rw [hstatus]; rfl)⟩
  | sent => exact .inl ⟨c, row, hrow, hrun, rfl, .inr hstatus⟩
  | dispatching => exact absurd hstatus hok.settled
  | failed => exact absurd (hok.failed hstatus) hgoing
  | canceled => exact .inr ((hok.canceled hstatus).resolve_left hgoing)

/-! ### One node out of two -/

instance (db : ServerDb) (e : ExecutionId) : Decidable (Over db e) :=
  inferInstanceAs (Decidable (_ = true))

instance (x : Session) (new : CommandOutbox) : Decidable (Abandons x new) :=
  inferInstanceAs (Decidable (_ ∨ _ ∧ _ ∧ _))

instance (s : State) (a : Action) : Decidable (Wholly s a) :=
  match a with
  | .commit i _ _ =>
      match hx : s.sessions.get i with
      | none => isTrue fun x h => by
          rw [hx] at h
          cases h
      | some x =>
          have : ∀ w : Write, Decidable (match w with
              | .row _ loaded new =>
                  loaded.type = .run → Abandons x new → Over s.db loaded.executionId
              | .timeout .. => True) := fun w =>
            match w with
            | .row _ loaded new => inferInstanceAs (Decidable (_ → _ → _))
            | .timeout .. => isTrue trivial
          decidable_of_iff (∀ w ∈ x.writes, match w with
              | .row _ loaded new =>
                  loaded.type = .run → Abandons x new → Over s.db loaded.executionId
              | .timeout .. => True)
            ⟨fun h y hy => by
              obtain rfl : x = y := Option.some.inj (hx.symm.trans hy)
              exact h, fun h => h x hx⟩
  | .write .. | .issue .. | .create .. | .cancel .. | .tick .. | .refresh .. | .append ..
  | .giveUp .. | .abort .. | .vanish .. => isTrue trivial

/-- The executor of task 7 reaches the first of two nodes, and not the second. -/
def sampleHalf : List Action :=
  [.create 0 7 {} .scrapy {} [(1, 1), (2, 2)], .refresh 0 0, .append 0 0 true, .refresh 0 0,
    .append 0 0 false, .commit 0 0 .none]

theorem not_attended : ¬ ∀ s, Run step State.start s →
    (∀ c row, s.db.outbox.get c = some row → row.type = .run → row.status = .failed →
      Over s.db row.executionId) ∧
    ∀ e t, s.db.execStatus e = some (t, .pending) → Deliverable s.db e ∨ Withdrawn s.db e := by
  intro h
  obtain ⟨s, hrun, hs⟩ := RunOk.exists_of_checkedRun step (fun _ _ => True) State.start
    sampleHalf (fun s => decide (∃ r ∈ s.db.outbox.rows, r.2.type = .run ∧
      r.2.status = .failed ∧ ¬ Over s.db r.2.executionId)) (by decide +kernel)
  obtain ⟨⟨c, row⟩, hmem, hrun', hfailed, hgoing⟩ := of_decide_eq_true hs
  exact hgoing ((h s hrun).1 c row (Table.mem_rows_iff.mp hmem) hrun' hfailed)

theorem attended_sample : ∃ s, RunOk step Wholly State.start s ∧
    s.db.execStatus 1 = some (7, .failed) ∧
      ∀ e t, s.db.execStatus e = some (t, .pending) → Deliverable s.db e ∨ Withdrawn s.db e := by
  obtain ⟨s, hrun, hs⟩ := RunOk.exists_of_checkedRun step Wholly State.start sampleClosed
    (fun s => decide (s.db.execStatus 1 = some (7, .failed))) (by decide +kernel)
  exact ⟨s, hrun, of_decide_eq_true hs, (attended hrun).2⟩

end Commits

end Dispatch

end Dopilot
