/-
Dopilot/Trimming.lean

The trimmed ledger, next to one that is never trimmed.

A run of `Breaker.lean` is tracked together with the ledger that the same
recordings write when nothing is dropped.  Every row of the trimmed ledger has
its like in the full one (`Part`), so the two decide alike whether a closed
breaker trips as long as the rows that decide it are still there
(`trips_as_untrimmed`).  What is kept are the newest rows of all generations,
though, and rows of older ones may push them out (`not_trips_as_untrimmed`).
-/
import Dopilot.Breaker
import Dopilot.Ranking

namespace Dopilot

open StateMachine

/-! ### The order of the ledger -/

instance : Std.Total newestFirst where
  total a b := by
    unfold newestFirst
    rcases lt_trichotomy a.2.finishedAt b.2.finishedAt with h | h | h
    · exact .inr (.inl h)
    · rcases Nat.le_total a.1 b.1 with hid | hid
      · exact .inr (.inr ⟨h.symm, hid⟩)
      · exact .inl (.inr ⟨h, hid⟩)
    · exact .inl (.inl h)

instance : IsTrans (LedgerId × ScheduleOutcomeLedger) newestFirst where
  trans a b c hab hbc := by
    unfold newestFirst at *
    rcases hab with hab | ⟨hab, hid⟩
    · rcases hbc with hbc | ⟨hbc, -⟩
      · exact .inl (hbc.trans hab)
      · exact .inl (hbc ▸ hab)
    · rcases hbc with hbc | ⟨hbc, hid'⟩
      · exact .inl (hab ▸ hbc)
      · exact .inr ⟨hab.trans hbc, hid'.trans hid⟩

theorem newestFirst_antisymm {a b : LedgerId × ScheduleOutcomeLedger} (hab : newestFirst a b)
    (hba : newestFirst b a) : a.1 = b.1 := by
  rcases hab with hab | ⟨hab, hid⟩
  · rcases hba with hba | ⟨hba, -⟩
    · exact absurd hab hba.asymm
    · rw [hba] at hab
      exact absurd hab (lt_irrefl _)
  · rcases hba with hba | ⟨-, hid'⟩
    · rw [hab] at hba
      exact absurd hba (lt_irrefl _)
    · exact Nat.le_antisymm hid' hid

namespace Ledger

variable {ledger full : Table LedgerId ScheduleOutcomeLedger} {sid : ScheduleId}
variable {r : LedgerId × ScheduleOutcomeLedger} {row : ScheduleOutcomeLedger}
variable {id : LedgerId} {keep generation : Nat}

/-! ### Rows -/

theorem mem_rowsOf : r ∈ rowsOf ledger sid ↔ r ∈ ledger.rows ∧ r.2.scheduleId = sid := by
  unfold rowsOf
  rw [List.mem_insertionSort, List.mem_filter, decide_eq_true_eq]

theorem mem_generationRows : r ∈ generationRows ledger sid generation ↔
    r ∈ ledger.rows ∧ r.2.scheduleId = sid ∧ r.2.generation = generation := by
  unfold generationRows
  rw [List.mem_filter, mem_rowsOf, decide_eq_true_eq, and_assoc]

theorem rowsOf_sorted : (rowsOf ledger sid).Pairwise newestFirst :=
  List.pairwise_insertionSort newestFirst _

theorem generationRows_sorted : (generationRows ledger sid generation).Pairwise newestFirst :=
  rowsOf_sorted.filter _

theorem rowsOf_ids : ((rowsOf ledger sid).map Prod.fst).Nodup := by
  have hperm := (List.perm_insertionSort newestFirst
    (ledger.rows.filter fun r => r.2.scheduleId = sid)).map Prod.fst
  exact hperm.nodup_iff.mpr (ledger.nodup.sublist (List.filter_sublist.map _))

/-- Rows of a table with one id are the same. -/
theorem eq_of_id {a b : LedgerId × ScheduleOutcomeLedger} (ha : a ∈ ledger.rows)
    (hb : b ∈ ledger.rows) (h : a.1 = b.1) : a = b := by
  have ha' := Table.mem_rows_iff.mp ha
  rw [h, Table.mem_rows_iff.mp hb] at ha'
  exact Prod.ext h (Option.some.inj ha').symm

/-- **What a trim keeps**: the newest rows of the schedule. -/
theorem mem_trim : r ∈ (trim ledger sid keep).rows ↔
    r ∈ ledger.rows ∧ (r.2.scheduleId = sid → r ∈ (rowsOf ledger sid).take keep) := by
  have hsplit := List.take_append_drop keep (rowsOf ledger sid)
  have hids : (((rowsOf ledger sid).take keep).map Prod.fst ++
      ((rowsOf ledger sid).drop keep).map Prod.fst).Nodup := by
    rw [← List.map_append, hsplit]
    exact rowsOf_ids
  rw [List.nodup_append] at hids
  show r ∈ ledger.rows.filter _ ↔ _
  rw [List.mem_filter]
  refine and_congr_right fun hmem => ?_
  rw [Bool.not_eq_true', List.contains_eq_mem, decide_eq_false_iff_not]
  constructor
  · intro hkeep hsid
    have hall : r ∈ (rowsOf ledger sid).take keep ++ (rowsOf ledger sid).drop keep := by
      rw [hsplit]
      exact mem_rowsOf.mpr ⟨hmem, hsid⟩
    rcases List.mem_append.mp hall with h | h
    · exact h
    · exact absurd (List.mem_map.mpr ⟨r, h, rfl⟩) hkeep
  · intro hkept hdrop
    obtain ⟨d, hd, hdr⟩ := List.mem_map.mp hdrop
    obtain ⟨hdmem, hdsid⟩ := mem_rowsOf.mp (List.mem_of_mem_drop hd)
    obtain rfl := eq_of_id hdmem hmem hdr
    exact hids.2.2 d.1 (List.mem_map.mpr ⟨d, hkept hdsid, rfl⟩) d.1 hdrop rfl

/-- **What an upsert writes**: the row of the task is written over, or a new one is added. -/
theorem mem_upsert (hid : ledger.get id = none) : r ∈ (upsert ledger id row).rows ↔
    (r ∈ ledger.rows ∧ r.2.taskId ≠ row.taskId) ∨
      (∃ old ∈ ledger.rows, old.2.taskId = row.taskId ∧
        r = (old.1, { row with scheduleId := old.2.scheduleId })) ∨
      ((∀ old ∈ ledger.rows, old.2.taskId ≠ row.taskId) ∧ r = (id, row)) := by
  unfold upsert
  by_cases hany : ledger.rows.any fun r => r.2.taskId = row.taskId
  · rw [if_pos hany]
    obtain ⟨old, hold, htask⟩ := List.any_eq_true.mp hany
    have htask : old.2.taskId = row.taskId := of_decide_eq_true htask
    show r ∈ ledger.rows.map (fun a => (a.1,
      if a.2.taskId = row.taskId then { row with scheduleId := a.2.scheduleId } else a.2)) ↔ _
    rw [List.mem_map]
    constructor
    · rintro ⟨a, ha, rfl⟩
      by_cases hat : a.2.taskId = row.taskId
      · exact .inr (.inl ⟨a, ha, hat, by rw [if_pos hat]⟩)
      · rw [if_neg hat]
        exact .inl ⟨ha, hat⟩
    · rintro (⟨hr, hne⟩ | ⟨a, ha, hat, rfl⟩ | ⟨hno, -⟩)
      · exact ⟨r, hr, by rw [if_neg hne]⟩
      · exact ⟨a, ha, by rw [if_pos hat]⟩
      · exact absurd htask (hno old hold)
  · rw [if_neg hany]
    have hno : ∀ old ∈ ledger.rows, old.2.taskId ≠ row.taskId := fun old hold htask =>
      hany (List.any_eq_true.mpr ⟨old, hold, decide_eq_true htask⟩)
    have hrow : r ∈ (ledger.insert id row).rows ↔ r ∈ ledger.rows ∨ r = (id, row) := by
      rcases r with ⟨i, c⟩
      rw [Table.mem_rows_iff, Table.get_insert _ _ hid, Table.mem_rows_iff, Prod.mk.injEq]
      by_cases hi : i = id
      · rw [if_pos hi, hi, hid]
        exact ⟨fun h => .inr ⟨rfl, (Option.some.inj h).symm⟩, fun h =>
          h.elim (fun h => by cases h) fun h => by rw [h.2]⟩
      · rw [if_neg hi]
        exact ⟨.inl, fun h => h.elim (fun h => h) fun h => absurd h.1 hi⟩
    rw [hrow]
    constructor
    · rintro (hr | rfl)
      · exact .inl ⟨hr, hno r hr⟩
      · exact .inr (.inr ⟨hno, rfl⟩)
    · rintro (⟨hr, -⟩ | ⟨old, hold, htask, -⟩ | ⟨-, rfl⟩)
      · exact .inl hr
      · exact absurd htask (hno old hold)
      · exact .inr rfl

/-! ### A part of a ledger -/

/-- A task has one row, as `task_id` is unique. -/
def TaskKey (ledger : Table LedgerId ScheduleOutcomeLedger) : Prop :=
  ∀ a ∈ ledger.rows, ∀ b ∈ ledger.rows, a.2.taskId = b.2.taskId → a = b

theorem TaskKey.upsert (h : TaskKey ledger) (hid : ledger.get id = none) :
    TaskKey (upsert ledger id row) := by
  intro a ha b hb htask
  rcases (mem_upsert hid).mp ha with ⟨ha, hane⟩ | ⟨a', ha', hat, rfl⟩ | ⟨hno, rfl⟩
  · rcases (mem_upsert hid).mp hb with ⟨hb, -⟩ | ⟨b', -, -, rfl⟩ | ⟨-, rfl⟩
    · exact h a ha b hb htask
    · exact absurd htask hane
    · exact absurd htask hane
  · rcases (mem_upsert hid).mp hb with ⟨-, hbne⟩ | ⟨b', hb', hbt, rfl⟩ | ⟨hno, -⟩
    · exact absurd htask.symm hbne
    · rw [h a' ha' b' hb' (hat.trans hbt.symm)]
    · exact absurd hat (hno a' ha')
  · rcases (mem_upsert hid).mp hb with ⟨-, hbne⟩ | ⟨b', hb', hbt, -⟩ | ⟨-, rfl⟩
    · exact absurd htask.symm hbne
    · exact absurd hbt (hno b' hb')
    · rfl

theorem TaskKey.trim (h : TaskKey ledger) : TaskKey (trim ledger sid keep) :=
  fun a ha b hb => h a (mem_trim.mp ha).1 b (mem_trim.mp hb).1

/-- **A part of a ledger**: every row has its like there, under this id or another. -/
structure Part (ledger full : Table LedgerId ScheduleOutcomeLedger) : Prop where
  taskKey : TaskKey ledger
  taskKey_full : TaskKey full
  rows : ∀ r ∈ ledger.rows, ∃ i, (i, r.2) ∈ full.rows

/-- An upsert into both, of a task whose rows are of the schedule. -/
theorem Part.upsert (h : Part ledger full) (hid : ledger.get id = none)
    (hid' : full.get id = none)
    (hsid : ∀ old ∈ full.rows, old.2.taskId = row.taskId → old.2.scheduleId = row.scheduleId) :
    Part (upsert ledger id row) (upsert full id row) where
  taskKey := h.taskKey.upsert hid
  taskKey_full := h.taskKey_full.upsert hid'
  rows r hr := by
    have hrow : ∃ i, (i, row) ∈ (Ledger.upsert full id row).rows := by
      by_cases hany : ∃ old ∈ full.rows, old.2.taskId = row.taskId
      · obtain ⟨old, hold, htask⟩ := hany
        refine ⟨old.1, (mem_upsert hid').mpr (.inr (.inl ⟨old, hold, htask, ?_⟩))⟩
        rw [hsid old hold htask]
      · exact ⟨id, (mem_upsert hid').mpr (.inr (.inr
          ⟨fun old hold htask => hany ⟨old, hold, htask⟩, rfl⟩))⟩
    rcases (mem_upsert hid).mp hr with ⟨hr, hne⟩ | ⟨old, hold, htask, rfl⟩ | ⟨-, rfl⟩
    · obtain ⟨i, hi⟩ := h.rows r hr
      exact ⟨i, (mem_upsert hid').mpr (.inl ⟨hi, hne⟩)⟩
    · obtain ⟨i, hi⟩ := h.rows old hold
      rw [hsid (i, old.2) hi htask]
      exact hrow
    · exact hrow

theorem Part.trim (h : Part ledger full) : Part (trim ledger sid keep) full where
  taskKey := h.taskKey.trim
  taskKey_full := h.taskKey_full
  rows r hr := h.rows r (mem_trim.mp hr).1

/-- The outcomes of a generation, newest first. -/
def outcomes (ledger : Table LedgerId ScheduleOutcomeLedger) (sid : ScheduleId)
    (generation : Nat) : List ScheduleOutcomeLedger :=
  (generationRows ledger sid generation).map Prod.snd

theorem mem_outcomes : row ∈ outcomes ledger sid generation ↔
    ∃ i, (i, row) ∈ ledger.rows ∧ row.scheduleId = sid ∧ row.generation = generation := by
  unfold outcomes
  rw [List.mem_map]
  constructor
  · rintro ⟨r, hr, rfl⟩
    exact ⟨r.1, mem_generationRows.mp hr⟩
  · rintro ⟨i, hi⟩
    exact ⟨(i, row), mem_generationRows.mpr hi, rfl⟩

theorem TaskKey.outcomes_nodup (h : TaskKey ledger) : (outcomes ledger sid generation).Nodup := by
  refine List.Nodup.map_on (fun a ha b hb hab => ?_) ((rowsOf_ids.of_map _).filter _)
  exact h a (mem_generationRows.mp ha).1 b (mem_generationRows.mp hb).1 (congrArg _ hab)

/-- **The first outcomes of a part** are those of the whole, if they are in it
and those that finished at one time with one of them have kept their ids. -/
theorem Part.take_outcomes (h : Part ledger full) (n : Nat)
    (hall : ∀ x ∈ (generationRows full sid generation).take n, ∃ i, (i, x.2) ∈ ledger.rows)
    (hties : ∀ x ∈ (generationRows full sid generation).take n, ∀ r ∈ ledger.rows,
      r.2.scheduleId = sid → r.2.generation = generation →
      r.2.finishedAt = x.2.finishedAt → r.2.taskId ≠ x.2.taskId →
        r ∈ full.rows ∧ x ∈ ledger.rows) :
    (outcomes ledger sid generation).take n = (outcomes full sid generation).take n := by
  have hx_full : ∀ {x}, x ∈ (generationRows full sid generation).take n →
      x ∈ full.rows ∧ x.2.scheduleId = sid ∧ x.2.generation = generation := fun hx =>
    mem_generationRows.mp (List.mem_of_mem_take hx)
  refine Ranking.take_eq_of_ranked
    (r := fun c d => ∃ i j, (i, c) ∈ full.rows ∧ (j, d) ∈ full.rows ∧ newestFirst (i, c) (j, d))
    ?_ ?_ h.taskKey_full.outcomes_nodup h.taskKey.outcomes_nodup ?_ ?_ ?_
  · rintro c - d - ⟨i, j, hc, hd, hcd⟩ ⟨j', i', hd', hc', hdc⟩
    obtain rfl : i' = i := congrArg Prod.fst (h.taskKey_full _ hc' _ hc rfl)
    obtain rfl : j' = j := congrArg Prod.fst (h.taskKey_full _ hd' _ hd rfl)
    exact congrArg Prod.snd (eq_of_id hc hd (newestFirst_antisymm hcd hdc))
  · refine List.pairwise_map.mpr (generationRows_sorted.imp_of_mem fun {a b} ha hb hab => ?_)
    exact ⟨a.1, b.1, (mem_generationRows.mp ha).1, (mem_generationRows.mp hb).1, hab⟩
  · intro c hc
    obtain ⟨i, hi, hsid, hgen⟩ := mem_outcomes.mp hc
    obtain ⟨j, hj⟩ := h.rows (i, c) hi
    exact mem_outcomes.mpr ⟨j, hj, hsid, hgen⟩
  · intro c hc
    unfold outcomes at hc
    rw [← List.map_take] at hc
    obtain ⟨x, hx, rfl⟩ := List.mem_map.mp hc
    obtain ⟨i, hi⟩ := hall x hx
    exact mem_outcomes.mpr ⟨i, hi, (hx_full hx).2⟩
  · have hnodup : (generationRows ledger sid generation).Pairwise fun a b => a.2 ≠ b.2 :=
      List.pairwise_map.mp h.taskKey.outcomes_nodup
    refine List.pairwise_map.mpr ((generationRows_sorted.and hnodup).imp_of_mem ?_)
    rintro y z hy hz ⟨hyz, hne⟩ htake
    obtain ⟨hy, hysid, hygen⟩ := mem_generationRows.mp hy
    obtain ⟨hz, -⟩ := mem_generationRows.mp hz
    unfold outcomes at htake
    rw [← List.map_take] at htake
    obtain ⟨x, hx, hxz⟩ := List.mem_map.mp htake
    obtain ⟨j, hj⟩ := h.rows y hy
    refine ⟨j, x.1, hj, ?_, ?_⟩
    · rw [← hxz]
      exact (hx_full hx).1
    · rcases hyz with hlt | ⟨heq, hle⟩
      · exact .inl hlt
      · have htask : y.2.taskId ≠ x.2.taskId := fun hc => by
          rw [hxz] at hc
          exact hne (congrArg Prod.snd (h.taskKey y hy z hz hc))
        obtain ⟨hy', hx'⟩ := hties x hx y hy hysid hygen (by rw [hxz, heq]) htask
        obtain rfl : j = y.1 := congrArg Prod.fst (h.taskKey_full _ hj _ hy' rfl)
        have hxz' : x = z := h.taskKey _ hx' _ hz (by rw [hxz])
        rw [hxz']
        exact .inr ⟨heq, hle⟩

end Ledger

/-! ### The decision -/

/-- A closed breaker trips on an outcome of its generation, if the count is high enough. -/
theorem Schedule.driveBreaker_trips (sched : SchedulerSettings) (now : Time) (o : TaskOutcome)
    (rows : List (LedgerId × ScheduleOutcomeLedger)) (consecutive : Nat) (isCurrent : Bool)
    (s : Schedule) :
    (s.driveBreaker sched now o rows consecutive isCurrent).2 =
      (isCurrent && decide (s.breakerState = .closed) && s.trips sched consecutive) := by
  unfold driveBreaker
  cases isCurrent with
  | false => rfl
  | true =>
      rw [if_neg (by decide), Bool.true_and]
      by_cases hclosed : s.breakerState = .closed
      · rw [if_pos hclosed, decide_eq_true hclosed, Bool.true_and]
        split
        · rename_i htrips
          rw [htrips]
          dsimp only
          split
          · rfl
          · rfl
        · rename_i htrips
          rw [Bool.not_eq_true] at htrips
          rw [htrips]
      · rw [if_neg hclosed, decide_eq_false hclosed, Bool.false_and]
        split
        · rfl
        · split
          · rfl
          · dsimp only
            split
            · rfl
            · rfl
            · rfl
            · rfl

namespace Breaker

variable (sched : SchedulerSettings) (now : Time)

/-- Does the breaker trip on this outcome, with such a ledger? -/
def tripsOn (o : TaskOutcome) (ledger : Table LedgerId ScheduleOutcomeLedger) (sid : ScheduleId)
    (s : Schedule) : Bool :=
  let rows := Ledger.generationRows ledger sid s.outcomeGeneration
  let consecutive := countConsecutive rows
  ({ s with consecutiveErrorCount := consecutive }.driveBreaker sched now o rows consecutive
    (o.generation = s.outcomeGeneration)).2

/-- The newest rows that decide: those up to the first that is no error, and at
most as many as the threshold. -/
def decisive (ledger : Table LedgerId ScheduleOutcomeLedger) (sid : ScheduleId)
    (generation : Nat) : List (LedgerId × ScheduleOutcomeLedger) :=
  let rows := Ledger.generationRows ledger sid generation
  rows.take (min sched.autoDisableAfterErrors.toNat (countConsecutive rows + 1))

variable {sched now} in
theorem tripsOn_eq {o : TaskOutcome} {ledger full : Table LedgerId ScheduleOutcomeLedger}
    {sid : ScheduleId} {s : Schedule}
    (h : sched.autoDisableAfterErrors.toNat ≤
        countConsecutive (Ledger.generationRows ledger sid s.outcomeGeneration) ↔
      sched.autoDisableAfterErrors.toNat ≤
        countConsecutive (Ledger.generationRows full sid s.outcomeGeneration)) :
    tripsOn sched now o ledger sid s = tripsOn sched now o full sid s := by
  have htrips : ∀ m n : Nat, (sched.autoDisableAfterErrors.toNat ≤ m ↔
      sched.autoDisableAfterErrors.toNat ≤ n) → s.trips sched m = s.trips sched n := by
    intro m n hmn
    rw [Int.toNat_le, Int.toNat_le] at hmn
    unfold Schedule.trips
    rw [decide_eq_decide.mpr hmn]
  unfold tripsOn
  dsimp only
  rw [Schedule.driveBreaker_trips, Schedule.driveBreaker_trips]
  congr 1
  exact htrips _ _ h

/-! ### The machine -/

/-- A run, and the ledger without its trims. -/
structure Tracked where
  world : State
  full : Table LedgerId ScheduleOutcomeLedger

def Tracked.start : Tracked where
  world := .start
  full := .empty

/-- The row of a recording is written, and none is dropped. -/
def remember (w : State) (full : Table LedgerId ScheduleOutcomeLedger) (id : LedgerId)
    (o : TaskOutcome) : Table LedgerId ScheduleOutcomeLedger :=
  match o.task.scheduleId with
  | none => full
  | some sid =>
      if (w.db.schedules.get sid).isSome then Ledger.upsert full id (o.ledgerRow now sid) else full

/-- One transaction, on both.  An id is never used twice. -/
def track (w : Tracked) (a : Action) : Option Tracked :=
  match a with
  | .record now id t status finishedAt erroneous outcomeClass =>
      if (w.full.get id).isNone then
        (step sched w.world a).bind fun world =>
          (w.world.tasks.get t).map fun task =>
            { world := world
              full := remember now w.world w.full id
                (outcomeOf t task status finishedAt erroneous outcomeClass) }
      else none
  | a => (step sched w.world a).map fun world => { w with world := world }

/-- **The rows that decide are kept**: each is still in the ledger, the trim
leaves it there, and a row that finished at the same time has the id it had. -/
def Kept (w : Tracked) (id : LedgerId) (o : TaskOutcome) (sid : ScheduleId) (s : Schedule) : Prop :=
  let ledger := Ledger.upsert w.world.db.ledger id (o.ledgerRow now sid)
  let full := Ledger.upsert w.full id (o.ledgerRow now sid)
  ∀ x ∈ decisive sched full sid s.outcomeGeneration,
    (∃ r ∈ ledger.rows, r.2 = x.2 ∧
      (ledger.rows.countP fun y => decide (y.2.scheduleId = sid ∧ y ≠ r ∧ newestFirst y r))
        < ledgerKeep sched.autoDisableAfterErrors) ∧
    ∀ r ∈ ledger.rows, r.2.scheduleId = sid → r.2.generation = s.outcomeGeneration →
      r.2.finishedAt = x.2.finishedAt → r.2.taskId ≠ x.2.taskId → r ∈ full.rows ∧ x ∈ ledger.rows

instance (w : Tracked) (id : LedgerId) (o : TaskOutcome) (sid : ScheduleId) (s : Schedule) :
    Decidable (Kept sched now w id o sid s) :=
  @List.decidableBAll _ _ (fun _ => @instDecidableAnd _ _ inferInstance inferInstance) _

/-! ### What a step does to both ledgers -/

section Steps

variable {sched : SchedulerSettings} {w w' : State} {a : Action}

/-- Tasks stay as they were created. -/
theorem step_keeps_task (h : step sched w a = some w') {t : TaskId} {task : Task}
    (ht : w.tasks.get t = some task) : w'.tasks.get t = some task := by
  have hinsert : ∀ t' task', w.tasks.get t' = none →
      (w.tasks.insert t' task').get t = some task := by
    intro t' task' hnone
    rw [Table.get_insert _ _ hnone, if_neg, ht]
    rintro rfl
    rw [hnone] at ht
    cases ht
  cases a with
  | create sid enabled maxConcurrency template =>
      simp only [step] at h
      split at h
      · obtain rfl := Option.some.inj h
        exact ht
      · cases h
  | update sid data =>
      obtain ⟨s, -, rfl⟩ := Option.map_eq_some_iff.mp h
      exact ht
  | reset sid =>
      obtain ⟨s, -, rfl⟩ := Option.map_eq_some_iff.mp h
      exact ht
  | fireTimer now sid current t' task' =>
      simp only [step] at h
      split at h
      · rename_i hnone
        obtain ⟨s, -, h⟩ := Option.bind_eq_some_iff.mp h
        obtain ⟨s', -, rfl⟩ := Option.map_eq_some_iff.mp h
        exact hinsert t' _ (Option.isNone_iff_eq_none.mp hnone)
      · cases h
  | triggerNow sid t' task' =>
      simp only [step] at h
      split at h
      · rename_i hnone
        obtain ⟨s, -, rfl⟩ := Option.map_eq_some_iff.mp h
        exact hinsert t' _ (Option.isNone_iff_eq_none.mp hnone)
      · cases h
  | record now id t' status finishedAt erroneous outcomeClass =>
      simp only [step] at h
      split at h
      · obtain ⟨task', -, rfl⟩ := Option.map_eq_some_iff.mp h
        exact ht
      · cases h

/-- Only a recording writes the ledger. -/
theorem step_ledger (h : step sched w a = some w') :
    (∃ now id t status finishedAt erroneous outcomeClass task,
      a = .record now id t status finishedAt erroneous outcomeClass ∧
      w.db.ledger.get id = none ∧ w.tasks.get t = some task ∧
      w'.db.ledger = (w.db.recordLedger sched now id
        (outcomeOf t task status finishedAt erroneous outcomeClass)).1.ledger) ∨
    (∀ now id t status finishedAt erroneous outcomeClass,
      a ≠ .record now id t status finishedAt erroneous outcomeClass) ∧
      w'.db.ledger = w.db.ledger := by
  cases a with
  | create sid enabled maxConcurrency template =>
      simp only [step] at h
      split at h
      · obtain rfl := Option.some.inj h
        exact .inr ⟨by intros; simp, rfl⟩
      · cases h
  | update sid data =>
      obtain ⟨s, -, rfl⟩ := Option.map_eq_some_iff.mp h
      exact .inr ⟨by intros; simp, rfl⟩
  | reset sid =>
      obtain ⟨s, -, rfl⟩ := Option.map_eq_some_iff.mp h
      exact .inr ⟨by intros; simp, rfl⟩
  | fireTimer now sid current t task =>
      simp only [step] at h
      split at h
      · obtain ⟨s, -, h⟩ := Option.bind_eq_some_iff.mp h
        obtain ⟨s', -, rfl⟩ := Option.map_eq_some_iff.mp h
        exact .inr ⟨by intros; simp, rfl⟩
      · cases h
  | triggerNow sid t task =>
      simp only [step] at h
      split at h
      · obtain ⟨s, -, rfl⟩ := Option.map_eq_some_iff.mp h
        exact .inr ⟨by intros; simp, rfl⟩
      · cases h
  | record now id t status finishedAt erroneous outcomeClass =>
      simp only [step] at h
      split at h
      · rename_i hnone
        obtain ⟨task, htask, rfl⟩ := Option.map_eq_some_iff.mp h
        exact .inl ⟨now, id, t, status, finishedAt, erroneous, outcomeClass, task, rfl,
          Option.isNone_iff_eq_none.mp hnone, htask, rfl⟩
      · cases h

end Steps

/-! ### Runs -/

/-- What holds of both ledgers after any run. -/
structure TrackInv (w : Tracked) : Prop where
  part : Ledger.Part w.world.db.ledger w.full
  tasks : ∀ r ∈ w.full.rows, ∃ task, w.world.tasks.get r.2.taskId = some task ∧
    task.scheduleId = some r.2.scheduleId

section Runs

variable {sched : SchedulerSettings} {w w' : Tracked} {a : Action}

theorem TrackInv.start : TrackInv Tracked.start where
  part :=
    { taskKey := fun _ ha => absurd ha List.not_mem_nil
      taskKey_full := fun _ ha => absurd ha List.not_mem_nil
      rows := fun _ hr => absurd hr List.not_mem_nil }
  tasks _ hr := absurd hr List.not_mem_nil

/-- A recording writes a row of the schedule of the task. -/
theorem TrackInv.upsert (hinv : TrackInv w) {id : LedgerId} {t : TaskId} {task : Task}
    {sid : ScheduleId} (hid : w.world.db.ledger.get id = none) (hid' : w.full.get id = none)
    (row : ScheduleOutcomeLedger) (htask : w.world.tasks.get t = some task)
    (hsid : task.scheduleId = some sid) (hrow : row.taskId = t) (hrowsid : row.scheduleId = sid) :
    Ledger.Part (Ledger.upsert w.world.db.ledger id row) (Ledger.upsert w.full id row) ∧
      ∀ r ∈ (Ledger.upsert w.full id row).rows, ∃ task', w.world.tasks.get r.2.taskId = some task' ∧
        task'.scheduleId = some r.2.scheduleId := by
  have hold : ∀ old ∈ w.full.rows, old.2.taskId = row.taskId →
      old.2.scheduleId = row.scheduleId := by
    intro old hmem heq
    obtain ⟨task', htask', hsid'⟩ := hinv.tasks old hmem
    rw [heq, hrow, htask] at htask'
    obtain rfl := Option.some.inj htask'
    rw [hrowsid]
    exact Option.some.inj (hsid'.symm.trans hsid)
  refine ⟨hinv.part.upsert hid hid' hold, fun r hr => ?_⟩
  rcases (Ledger.mem_upsert hid').mp hr with ⟨hr, -⟩ | ⟨old, hmem, heq, rfl⟩ | ⟨-, rfl⟩
  · exact hinv.tasks r hr
  · refine ⟨task, hrow ▸ htask, ?_⟩
    rw [hold old hmem heq, hrowsid]
    exact hsid
  · exact ⟨task, hrow ▸ htask, hrowsid ▸ hsid⟩

/-- **The step.** -/
theorem TrackInv.next (hinv : TrackInv w) (h : track sched w a = some w') : TrackInv w' := by
  have hother : ∀ world, step sched w.world a = some world → world.db.ledger = w.world.db.ledger →
      TrackInv { w with world := world } := by
    intro world hstep hledger
    constructor
    · show Ledger.Part world.db.ledger w.full
      rw [hledger]
      exact hinv.part
    · intro r hr
      obtain ⟨task, htask, hsid⟩ := hinv.tasks r hr
      exact ⟨task, step_keeps_task hstep htask, hsid⟩
  cases a with
  | record now id t status finishedAt erroneous outcomeClass =>
      simp only [track] at h
      split at h
      · rename_i hid'
        have hid' := Option.isNone_iff_eq_none.mp hid'
        obtain ⟨world, hstep, h⟩ := Option.bind_eq_some_iff.mp h
        obtain ⟨task, htask, rfl⟩ := Option.map_eq_some_iff.mp h
        rcases step_ledger hstep with ⟨_, _, _, _, _, _, _, task', heq, hid, htask', hledger⟩ |
          ⟨hno, -⟩
        · cases heq
          obtain rfl := Option.some.inj (htask.symm.trans htask')
          rcases hsid : task.scheduleId with - | sid
          · have hrem : remember now w.world w.full id
                (outcomeOf t task status finishedAt erroneous outcomeClass) = w.full := by
              unfold remember
              simp only [outcomeOf, hsid]
            rw [hrem]
            refine hother world hstep (hledger.trans ?_)
            unfold ScheduleDb.recordLedger
            simp only [outcomeOf, hsid]
          · rcases hs : w.world.db.schedules.get sid with - | s
            · have hrem : remember now w.world w.full id
                  (outcomeOf t task status finishedAt erroneous outcomeClass) = w.full := by
                unfold remember
                simp only [outcomeOf, hsid, hs]
                rfl
              rw [hrem]
              refine hother world hstep (hledger.trans ?_)
              unfold ScheduleDb.recordLedger
              simp only [outcomeOf, hsid, hs]
            · have hrem : remember now w.world w.full id
                  (outcomeOf t task status finishedAt erroneous outcomeClass) =
                    Ledger.upsert w.full id
                      ((outcomeOf t task status finishedAt erroneous outcomeClass).ledgerRow
                        now sid) := by
                unfold remember
                simp only [outcomeOf, hsid, hs]
                rfl
              rw [hrem]
              obtain ⟨hpart, htasks⟩ := hinv.upsert hid hid'
                ((outcomeOf t task status finishedAt erroneous outcomeClass).ledgerRow now sid)
                htask hsid rfl rfl
              constructor
              · show Ledger.Part world.db.ledger _
                rw [hledger, (ScheduleDb.recordLedger_spec sched now id hsid hs).1]
                exact hpart.trim
              · intro r hr
                obtain ⟨task', htask'', hsid'⟩ := htasks r hr
                exact ⟨task', step_keeps_task hstep htask'', hsid'⟩
        · exact absurd rfl (hno _ _ _ _ _ _ _)
      · cases h
  | create | update | reset | fireTimer | triggerNow =>
      obtain ⟨world, hstep, rfl⟩ := Option.map_eq_some_iff.mp h
      refine hother world hstep ?_
      rcases step_ledger hstep with ⟨_, _, _, _, _, _, _, _, heq, -⟩ | ⟨-, hledger⟩
      · cases heq
      · exact hledger

theorem TrackInv.run (hrun : Run (track sched) Tracked.start w) : TrackInv w :=
  hrun.invariant (fun _ _ _ hinv _ h => hinv.next h) .start

/-- Few newer rows of the schedule: the trim keeps the row. -/
theorem mem_trim_of_countP {ledger : Table LedgerId ScheduleOutcomeLedger} {sid : ScheduleId}
    {r : LedgerId × ScheduleOutcomeLedger} {keep : Nat} (hr : r ∈ ledger.rows)
    (hcount : (ledger.rows.countP fun y => decide (y.2.scheduleId = sid ∧ y ≠ r ∧ newestFirst y r))
      < keep) : r ∈ (Ledger.trim ledger sid keep).rows := by
  refine Ledger.mem_trim.mpr ⟨hr, fun hsid => ?_⟩
  refine Ranking.mem_take_of_countP
    (p := fun y => decide (y.2.scheduleId = sid ∧ y ≠ r ∧ newestFirst y r))
    Ledger.rowsOf_sorted (Ledger.mem_rowsOf.mpr ⟨hr, hsid⟩) ?_ ?_
  · intro y hy hne hyr
    exact decide_eq_true ⟨(Ledger.mem_rowsOf.mp hy).2, hne, hyr⟩
  · unfold Ledger.rowsOf
    rw [(List.perm_insertionSort newestFirst _).countP_eq, List.countP_filter]
    refine lt_of_le_of_lt (List.countP_mono_left fun y _ hy => ?_) hcount
    exact (Bool.and_eq_true_iff.mp hy).1

theorem countConsecutive_outcomes (ledger : Table LedgerId ScheduleOutcomeLedger)
    (sid : ScheduleId) (generation : Nat) :
    countConsecutive (Ledger.generationRows ledger sid generation) =
      ((Ledger.outcomes ledger sid generation).takeWhile fun c => c.erroneous).length := by
  unfold Ledger.outcomes
  rw [countConsecutive_eq, List.takeWhile_map, List.length_map]
  rfl

/-- **Trimmed or not, the decision is the same**, when the rows that decide are
kept: after any run, a recording trips the breaker if and only if it does on the
ledger without trims. -/
theorem trips_as_untrimmed (hrun : Run (track sched) Tracked.start w) {now : Time} {id : LedgerId}
    {t : TaskId} {task : Task} {status : TaskStatus} {finishedAt : Option Time} {erroneous : Bool}
    {outcomeClass : OutcomeClass} {sid : ScheduleId} {s : Schedule}
    (h : track sched w (.record now id t status finishedAt erroneous outcomeClass) = some w')
    (htask : w.world.tasks.get t = some task) (hsid : task.scheduleId = some sid)
    (hs : w.world.db.schedules.get sid = some s)
    (hkept : Kept sched now w id (outcomeOf t task status finishedAt erroneous outcomeClass) sid s) :
    (w.world.db.recordLedger sched now id
        (outcomeOf t task status finishedAt erroneous outcomeClass)).2 =
      if tripsOn sched now (outcomeOf t task status finishedAt erroneous outcomeClass) w'.full sid s
      then some sid else none := by
  generalize ho : outcomeOf t task status finishedAt erroneous outcomeClass = o at *
  have hotask : o.taskId = t := by rw [← ho]; rfl
  have hosid : o.task.scheduleId = some sid := by rw [← ho]; exact hsid
  simp only [track] at h
  split at h
  · rename_i hid'
    have hid' := Option.isNone_iff_eq_none.mp hid'
    obtain ⟨world, hstep, h⟩ := Option.bind_eq_some_iff.mp h
    obtain ⟨task', htask', rfl⟩ := Option.map_eq_some_iff.mp h
    obtain rfl := Option.some.inj (htask.symm.trans htask')
    have hid : w.world.db.ledger.get id = none := by
      rcases step_ledger hstep with ⟨_, _, _, _, _, _, _, _, heq, hid, -⟩ | ⟨hno, -⟩
      · cases heq
        exact hid
      · exact absurd rfl (hno _ _ _ _ _ _ _)
    have hfull : remember now w.world w.full id o =
        Ledger.upsert w.full id (o.ledgerRow now sid) := by
      unfold remember
      simp only [hosid, hs]
      rfl
    show _ = if tripsOn sched now o (remember now w.world w.full id _) sid s then _ else _
    rw [ho, hfull]
    have hrec : (w.world.db.recordLedger sched now id o).2 =
        if tripsOn sched now o (w.world.db.recordedLedger sched now id o sid) sid s
        then some sid else none := by
      unfold ScheduleDb.recordLedger
      simp only [hosid, hs]
      rfl
    rw [hrec, tripsOn_eq]
    obtain ⟨hpart, -⟩ :=
      (TrackInv.run hrun).upsert hid hid' (o.ledgerRow now sid) htask hsid hotask rfl
    rw [countConsecutive_outcomes, countConsecutive_outcomes]
    refine Ranking.le_takeWhile_iff ?_
    rw [← countConsecutive_outcomes]
    refine hpart.trim.take_outcomes _ ?_ ?_
    · intro x hx
      obtain ⟨⟨r, hr, hrx, hcount⟩, -⟩ := hkept x hx
      exact ⟨r.1, hrx ▸ mem_trim_of_countP hr hcount⟩
    · intro x hx r hr hrsid hrgen hrfin hrtask
      have hr := (Ledger.mem_trim.mp hr).1
      obtain ⟨⟨r', hr', hrx, hcount⟩, hties⟩ := hkept x hx
      obtain ⟨hrfull, hxledger⟩ := hties r hr hrsid hrgen hrfin hrtask
      obtain rfl := hpart.taskKey r' hr' x hxledger (by rw [hrx])
      exact ⟨hrfull, mem_trim_of_countP hr' hcount⟩
  · cases h

/-- Two errors trip. -/
def twoErrors : SchedulerSettings := { sampleSettings with autoDisableAfterErrors := 2 }

theorem trips_as_untrimmed_sample :
    ∃ w w' task s, track twoErrors w (.record 20 1 1 .failed (some 12) true .transient) = some w' ∧
      (w.world.db.recordLedger twoErrors 20 1
        (outcomeOf 1 task .failed (some 12) true .transient)).2 =
        if tripsOn twoErrors 20 (outcomeOf 1 task .failed (some 12) true .transient) w'.full 0 s
        then some 0 else none := by
  obtain ⟨w, hrun, hw⟩ := RunOk.exists_of_checkedRun (track twoErrors) (fun _ _ => True)
    Tracked.start
    [.create 0 true 0 0, .triggerNow 0 0 {}, .triggerNow 0 1 {},
      .record 20 0 0 .failed (some 11) true .broken]
    (fun w => (track twoErrors w (.record 20 1 1 .failed (some 12) true .transient)).isSome &&
      (w.world.tasks.get 1).any fun task : Task => (w.world.db.schedules.get 0).any fun s =>
        decide (task.scheduleId = some 0 ∧
          Kept twoErrors 20 w 1 (outcomeOf 1 task .failed (some 12) true .transient) 0 s))
    (by decide +kernel)
  rw [Bool.and_eq_true] at hw
  obtain ⟨w', hw'⟩ := Option.isSome_iff_exists.mp hw.1
  obtain ⟨task, htask, hw⟩ := (Option.any_eq_true _ _).mp hw.2
  obtain ⟨s, hs, hw⟩ := (Option.any_eq_true _ _).mp hw
  obtain ⟨hsid, hkept⟩ := of_decide_eq_true hw
  exact ⟨w, w', task, s, hw', trips_as_untrimmed hrun hw' htask hsid hs hkept⟩

/-- A hundred runs are triggered, and the schedule is enabled again.  Then one
run of the new generation fails, and the hundred old ones finish after it. -/
def lateFinishers : List Action :=
  .create 0 false 0 0 ::
    ((List.range 100).map fun t => Action.triggerNow 0 t {}) ++
    [.update 0 { enabled := some true }, .triggerNow 0 100 {}, .triggerNow 0 101 {},
      .record 2000 100 100 .failed (some 1) true .transient] ++
    (List.range 100).map fun t => Action.record 2000 t t .complete (some (1000 - t)) false .ok

/-- **The trim can hide a trip.** -/
theorem not_trips_as_untrimmed :
    ∃ w w' task s, Run (track twoErrors) Tracked.start w ∧
      track twoErrors w (.record 2001 101 101 .failed (some 2000) true .transient) = some w' ∧
      w.world.tasks.get 101 = some task ∧ task.scheduleId = some 0 ∧
      w.world.db.schedules.get 0 = some s ∧
      (w.world.db.recordLedger twoErrors 2001 101
        (outcomeOf 101 task .failed (some 2000) true .transient)).2 = none ∧
      tripsOn twoErrors 2001 (outcomeOf 101 task .failed (some 2000) true .transient)
        w'.full 0 s = true := by
  obtain ⟨w, hrun, hw⟩ := RunOk.exists_of_checkedRun (track twoErrors) (fun _ _ => True)
    Tracked.start lateFinishers
    (fun w => (track twoErrors w (.record 2001 101 101 .failed (some 2000) true .transient)).any
      fun w' : Tracked => (w.world.tasks.get 101).any fun task : Task =>
        (w.world.db.schedules.get 0).any fun s =>
          decide (task.scheduleId = some 0 ∧ (w.world.db.recordLedger twoErrors 2001 101
            (outcomeOf 101 task .failed (some 2000) true .transient)).2 = none) &&
          tripsOn twoErrors 2001 (outcomeOf 101 task .failed (some 2000) true .transient)
            w'.full 0 s) (by decide +kernel)
  obtain ⟨w', hw', hw⟩ := (Option.any_eq_true _ _).mp hw
  obtain ⟨task, htask, hw⟩ := (Option.any_eq_true _ _).mp hw
  obtain ⟨s, hs, hw⟩ := (Option.any_eq_true _ _).mp hw
  rw [Bool.and_eq_true, decide_eq_true_eq] at hw
  exact ⟨w, w', task, s, hrun, hw', htask, hw.1.1, hs, hw.1.2, hw.2⟩

end Runs

end Breaker

end Dopilot
