/-
Dopilot/SentSweep.lean

Looking again at commands that were sent.

`reconcile_sent_once` reads a bounded page of the sent commands of active tasks
and requeues those whose message is no longer in its stream.  A cursor and a
boundary, both frozen between calls, take it through the table: a short page
ends the sweep, and an empty one starts the next sweep in the same call.

What is written between two calls is stamped with a time that is not earlier
than the first of them, so rows behind the boundary are only found again, and
every page takes its rows from what is left (`sent_covered`).
-/
import Dopilot.Dispatcher
import Dopilot.Paging
import Dopilot.Writers
import Mathlib.Data.Prod.Lex

namespace Dopilot

/-! ### One call -/

structure SentReconcileSettings where
  /-- `sent_reconcile_min_age_seconds`. -/
  minAge : Time
  /-- `sent_reconcile_batch_limit`. -/
  batchLimit : Nat

namespace SentReconcileSettings

def batch (cfg : SentReconcileSettings) : Nat := max 1 cfg.batchLimit

/-- Rows older than this are looked at. -/
def cutoff (cfg : SentReconcileSettings) (now : Time) : Time := now - max 0 cfg.minAge

end SentReconcileSettings

/-- `(updated_at, command_id)`. -/
abbrev SentKey := Time ×ₗ CommandId

def sentKey (r : CommandId × CommandOutbox) : SentKey := toLex (r.2.updatedAt, r.1)

/-- `_sent_reconcile_cursor` and `_sent_reconcile_hwm`. -/
structure SentSweep where
  cursor : Option SentKey := none
  hwm : Option Time := none

/-- The cursor and the boundary a call starts with. -/
def SentSweep.resume (s : SentSweep) (cutoff : Time) : Option SentKey × Time :=
  match s.cursor, s.hwm with
  | some cursor, some hwm => (some cursor, hwm)
  | _, _ => (none, cutoff)

namespace ServerDb

/-- A sent command of an active task. -/
def sentActive (db : ServerDb) (r : CommandId × CommandOutbox) : Bool :=
  r.2.status == .sent && (db.taskStatus r.2.taskId).any TaskStatus.active

/-- The rows that `_page_stmt` selects, without its limit. -/
def sentAfter (db : ServerDb) (cursor : Option SentKey) (hwm : Time) :
    List (CommandId × CommandOutbox) :=
  db.outbox.rows.filter fun r =>
    db.sentActive r && (decide (r.2.updatedAt < hwm) && cursor.all fun c => decide (c < sentKey r))

/-- `_page_stmt`. -/
def sentPage (db : ServerDb) (batch : Nat) (cursor : Option SentKey) (hwm : Time) :
    List (CommandId × CommandOutbox) :=
  Paging.page sentKey batch (db.sentAfter cursor hwm)

/-- The rows that were requeued, where `stamp` is the clock of the database. -/
def requeueSent (db : ServerDb) (now stamp : Time) (requeued : List CommandId) : ServerDb :=
  { db with outbox := db.outbox.updateAll fun c row =>
      if c ∈ requeued then { row.requeue now with updatedAt := stamp } else row }

end ServerDb

/-- What `XRANGE` answers about a message. -/
inductive XRange where
  | found
  | missing
  | raised
  deriving DecidableEq, Repr

/-- A call: the rows it has looked at, those it has requeued, and what it leaves. -/
structure SentReconcile where
  rows : List (CommandId × CommandOutbox)
  requeued : List CommandId
  db : ServerDb
  sweep : SentSweep

/-- `reconcile_sent_once`. -/
def reconcileSentOnce (cfg : SentReconcileSettings) (now stamp : Time) (redis : Bool)
    (xrange : CommandId → XRange) (s : SentSweep) (db : ServerDb) : SentReconcile :=
  let cutoff := cfg.cutoff now
  let (cursor, hwm) := s.resume cutoff
  let page := db.sentPage cfg.batch cursor hwm
  -- the boundary is reached: wrap around once
  let wraps := page.isEmpty && cursor.isSome
  let hwm := if wraps then cutoff else hwm
  let rows := if wraps then db.sentPage cfg.batch none cutoff else page
  let pageEnd := if rows.length = cfg.batch then rows.getLast?.map sentKey else none
  let requeued := (rows.filter fun r =>
    (db.taskStatus r.2.taskId).any (fun status => !status.terminal) && r.2.redisMsgId.isSome
      && redis && xrange r.1 == .missing).map Prod.fst
  { rows := rows
    requeued := requeued
    db := db.requeueSent now stamp requeued
    sweep := { cursor := pageEnd, hwm := if pageEnd.isSome then some hwm else none } }

/-! ### Call after call -/

/-- What happens to the outbox between two calls: what is written is stamped with
a time that is not earlier than the first of them, and no task becomes active
again. -/
structure ServerDb.Evolves (now : Time) (db db' : ServerDb) : Prop where
  stamped : ∀ c row, db'.outbox.get c = some row →
    db.outbox.get c = some row ∨ now ≤ row.updatedAt
  inactive : ∀ c row, db.outbox.get c = some row → db'.outbox.get c = some row →
    (db'.taskStatus row.taskId).any TaskStatus.active = true →
      (db.taskStatus row.taskId).any TaskStatus.active = true

/-- Calls one after the other, each with the database it finds. -/
structure SentCalls where
  db : Nat → ServerDb
  now : Nat → Time
  stamp : Nat → Time
  redis : Nat → Bool
  xrange : Nat → CommandId → XRange

namespace SentCalls

/-- What the calls before the `j`th have left. -/
def sweep (cfg : SentReconcileSettings) (E : SentCalls) : Nat → SentSweep
  | 0 => {}
  | j + 1 => (reconcileSentOnce cfg (E.now j) (E.stamp j) (E.redis j) (E.xrange j) (sweep cfg E j)
      (E.db j)).sweep

/-- The `j`th call. -/
def call (cfg : SentReconcileSettings) (E : SentCalls) (j : Nat) : SentReconcile :=
  reconcileSentOnce cfg (E.now j) (E.stamp j) (E.redis j) (E.xrange j) (E.sweep cfg j) (E.db j)

/-- The calls are in the order of their times, and between them the outbox evolves. -/
structure Ordered (cfg : SentReconcileSettings) (E : SentCalls) : Prop where
  clock : ∀ j, E.now j ≤ E.now (j + 1)
  evolves : ∀ j, (E.call cfg j).db.Evolves (E.now j) (E.db (j + 1))

/-- The sent rows of active tasks that the `k`th call finds old enough. -/
def eligible (cfg : SentReconcileSettings) (E : SentCalls) (k : Nat) : Nat :=
  (E.db k).outbox.rows.countP fun r =>
    (E.db k).sentActive r && decide (r.2.updatedAt < cfg.cutoff (E.now k))

/-- The call finds the row, and finds it sent and its task active. -/
def Finds (E : SentCalls) (j : Nat) (r : CommandId × CommandOutbox) : Prop :=
  r ∈ (E.db j).outbox.rows ∧ (E.db j).sentActive r = true

end SentCalls

section Facts

variable {cfg : SentReconcileSettings} {E : SentCalls} {i j k : Nat}
  {r : CommandId × CommandOutbox}

/-- Writers that stamp what they write let the outbox evolve: under them no task
becomes active again. -/
theorem ServerDb.Evolves.of_onward {now : Time} {db db' : ServerDb} (h : db.TasksOnward db')
    (hstamped : ∀ c row, db'.outbox.get c = some row →
      db.outbox.get c = some row ∨ now ≤ row.updatedAt) : db.Evolves now db' where
  stamped := hstamped
  inactive c row _ _ hactive := by
    cases hstatus : db.taskStatus row.taskId with
    | none =>
        have hrel := h row.taskId
        rw [hstatus] at hrel
        cases hrel' : db'.taskStatus row.taskId with
        | none =>
            rw [hrel'] at hactive
            cases hactive
        | some status' =>
            rw [hrel'] at hrel
            cases hrel
    | some status =>
        obtain ⟨status', hstatus', hadv⟩ := h.target hstatus
        rw [hstatus', Option.any_some] at hactive
        rw [Option.any_some]
        by_contra hinactive
        have hterminal : status.terminal = true := by
          rw [TaskStatus.terminal, Bool.eq_false_of_not_eq_true hinactive]
          rfl
        have hstays := hadv.terminal hterminal
        rw [TaskStatus.terminal, hactive] at hstays
        cases hstays

namespace SentCalls

/-! ### What a call reads -/

/-- The cursor and the boundary of the page that the call ends up with. -/
def aim (cfg : SentReconcileSettings) (E : SentCalls) (j : Nat) : Option SentKey × Time :=
  let start := (E.sweep cfg j).resume (cfg.cutoff (E.now j))
  if ((E.db j).sentPage cfg.batch start.1 start.2).isEmpty && start.1.isSome then
    (none, cfg.cutoff (E.now j))
  else start

theorem batch_pos (cfg : SentReconcileSettings) : 0 < cfg.batch := by
  unfold SentReconcileSettings.batch
  omega

theorem call_rows (cfg : SentReconcileSettings) (E : SentCalls) (j : Nat) :
    (E.call cfg j).rows =
      (E.db j).sentPage cfg.batch (E.aim cfg j).1 (E.aim cfg j).2 := by
  unfold call reconcileSentOnce aim
  dsimp only
  split
  · rfl
  · rfl

/-- A call reads the first page up to a new boundary, or goes on in its sweep. -/
theorem aim_cases (cfg : SentReconcileSettings) (E : SentCalls) (j : Nat) :
    E.aim cfg j = (none, cfg.cutoff (E.now j)) ∨
      ∃ a h, E.sweep cfg j = ⟨some a, some h⟩ ∧ E.aim cfg j = (some a, h) ∧
        (E.db j).sentAfter (some a) h ≠ [] := by
  have hfresh : ∀ p : Bool, (if (p && (none : Option SentKey).isSome) = true then
      ((none : Option SentKey), cfg.cutoff (E.now j)) else (none, cfg.cutoff (E.now j))) =
        (none, cfg.cutoff (E.now j)) := fun p => ite_self _
  unfold aim
  rcases E.sweep cfg j with ⟨a | a, h | h⟩
  · exact .inl (hfresh _)
  · exact .inl (hfresh _)
  · exact .inl (hfresh _)
  · by_cases hempty : ((E.db j).sentPage cfg.batch (some a) h).isEmpty = true
    · have hwraps : (((E.db j).sentPage cfg.batch (some a) h).isEmpty && true) = true := by
        rwa [Bool.and_true]
      exact .inl (if_pos hwraps)
    · have hgoes : ¬ (((E.db j).sentPage cfg.batch (some a) h).isEmpty && true) = true := by
        rwa [Bool.and_true]
      refine .inr ⟨a, h, rfl, if_neg hgoes, fun hc => hempty ?_⟩
      rw [List.isEmpty_iff]
      exact (Paging.page_eq_nil (batch_pos cfg)).mpr hc

/-- In a sweep with rows left, the call goes on. -/
theorem aim_of_left {a : SentKey} {h : Time} (hs : E.sweep cfg j = ⟨some a, some h⟩)
    (hleft : (E.db j).sentAfter (some a) h ≠ []) : E.aim cfg j = (some a, h) := by
  unfold aim
  rw [hs]
  show (if (((E.db j).sentPage cfg.batch (some a) h).isEmpty && true) = true then _ else
    (some a, h)) = _
  rw [Bool.and_true, if_neg]
  rw [List.isEmpty_iff]
  exact fun hc => hleft ((Paging.page_eq_nil (batch_pos cfg)).mp hc)

/-- A sweep that has ended starts again. -/
theorem aim_of_ended (hs : E.sweep cfg j = {}) : E.aim cfg j = (none, cfg.cutoff (E.now j)) := by
  rcases aim_cases cfg E j with haim | ⟨a, h, hs', -, -⟩
  · exact haim
  · rw [hs] at hs'
    cases hs'

/-- A sweep with nothing left wraps around. -/
theorem aim_of_nothing {a : SentKey} {h : Time} (hs : E.sweep cfg j = ⟨some a, some h⟩)
    (hleft : (E.db j).sentAfter (some a) h = []) :
    E.aim cfg j = (none, cfg.cutoff (E.now j)) := by
  rcases aim_cases cfg E j with haim | ⟨a', h', hs', -, hne⟩
  · exact haim
  · rw [hs] at hs'
    cases hs'
    exact (hne hleft).elim

theorem call_sweep (cfg : SentReconcileSettings) (E : SentCalls) (j : Nat) :
    E.sweep cfg (j + 1) =
      let pageEnd := if (E.call cfg j).rows.length = cfg.batch then
        (E.call cfg j).rows.getLast?.map sentKey else none
      { cursor := pageEnd, hwm := if pageEnd.isSome then some (E.aim cfg j).2 else none } := by
  have hhwm : (E.aim cfg j).2 =
      if (((E.db j).sentPage cfg.batch ((E.sweep cfg j).resume (cfg.cutoff (E.now j))).1
        ((E.sweep cfg j).resume (cfg.cutoff (E.now j))).2).isEmpty &&
          ((E.sweep cfg j).resume (cfg.cutoff (E.now j))).1.isSome) = true
      then cfg.cutoff (E.now j) else ((E.sweep cfg j).resume (cfg.cutoff (E.now j))).2 := by
    unfold aim
    dsimp only
    split
    · rfl
    · rfl
  rw [hhwm]
  rfl

theorem hwm_of_sweep {h : Time} (hh : (E.sweep cfg (j + 1)).hwm = some h) :
    h = (E.aim cfg j).2 := by
  rw [call_sweep] at hh
  exact (Option.some.inj (Option.ite_none_right_eq_some.mp hh).2).symm

/-- A full page moves the cursor to its last row and keeps the boundary. -/
theorem sweep_of_full (hfull : (E.call cfg j).rows.length = cfg.batch) :
    ∃ y, (E.call cfg j).rows.getLast? = some y ∧
      E.sweep cfg (j + 1) = { cursor := some (sentKey y), hwm := some (E.aim cfg j).2 } := by
  have hne : (E.call cfg j).rows ≠ [] := fun hc => by
    rw [hc] at hfull
    exact absurd (batch_pos cfg) (by rw [← hfull]; exact Nat.lt_irrefl 0)
  refine ⟨_, List.getLast?_eq_some_getLast hne, ?_⟩
  rw [call_sweep]
  dsimp only
  rw [if_pos hfull, List.getLast?_eq_some_getLast hne]
  rfl

/-- A short page ends the sweep. -/
theorem sweep_of_short (hshort : (E.call cfg j).rows.length ≠ cfg.batch) :
    E.sweep cfg (j + 1) = {} := by
  rw [call_sweep]
  dsimp only
  rw [if_neg hshort]
  rfl

theorem cutoff_mono (cfg : SentReconcileSettings) {now now' : Time} (h : now ≤ now') :
    cfg.cutoff now ≤ cfg.cutoff now' :=
  Int.sub_le_sub_right h _

theorem cutoff_le (cfg : SentReconcileSettings) (now : Time) : cfg.cutoff now ≤ now :=
  Int.sub_le_self _ (Int.le_max_left ..)

theorem Ordered.now_mono (hE : E.Ordered cfg) (hkj : k ≤ j) : E.now k ≤ E.now j := by
  induction j, hkj using Nat.le_induction with
  | base => exact le_refl _
  | succ j _ ih => exact le_trans ih (hE.clock j)

/-- The boundary of a sweep was the cutoff of a call. -/
theorem hwm_le (hE : E.Ordered cfg) {h : Time} (hh : (E.sweep cfg (j + 1)).hwm = some h) :
    h ≤ cfg.cutoff (E.now j) := by
  induction j generalizing h with
  | zero =>
      have hnew := hwm_of_sweep hh
      rw [aim_of_ended rfl] at hnew
      exact le_of_eq hnew
  | succ j ih =>
      have hnew := hwm_of_sweep hh
      rcases aim_cases cfg E (j + 1) with haim | ⟨a, h', hs, haim, -⟩
      · rw [haim] at hnew
        exact le_of_eq hnew
      · rw [haim] at hnew
        refine le_trans (ih ?_) (cutoff_mono cfg (hE.clock j))
        rw [hs, hnew]

/-! ### What is left -/

/-- What is requeued is no longer sent; the other rows are left alone. -/
theorem requeueSent_keeps {db : ServerDb} {now stamp : Time} {requeued : List CommandId}
    (hr : r ∈ (db.requeueSent now stamp requeued).outbox.rows)
    (hactive : (db.requeueSent now stamp requeued).sentActive r = true) :
    r ∈ db.outbox.rows ∧ db.sentActive r = true := by
  obtain ⟨c, row⟩ := r
  obtain ⟨row₀, hrow₀, hrow⟩ := Option.map_eq_some_iff.mp
    ((Table.get_updateAll ..).symm.trans (Table.mem_rows_iff.mp hr))
  by_cases hc : c ∈ requeued
  · rw [if_pos hc] at hrow
    obtain rfl := hrow
    cases (Bool.and_eq_true_iff.mp hactive).1
  · rw [if_neg hc] at hrow
    obtain rfl := hrow
    exact ⟨Table.mem_rows_iff.mpr hrow₀, hactive⟩

/-- A row that is older than a call was there when the call was made. -/
theorem finds_earlier (hE : E.Ordered cfg) (hkj : k ≤ j) (hr : E.Finds j r)
    (hold : r.2.updatedAt < E.now k) : E.Finds k r := by
  induction j, hkj using Nat.le_induction with
  | base => exact hr
  | succ j hkj ih =>
      refine ih ?_
      obtain ⟨c, row⟩ := r
      obtain ⟨hmem, hactive⟩ := hr
      have hrow := Table.mem_rows_iff.mp hmem
      -- it was written no later than by the call before
      have hrow' : (E.call cfg j).db.outbox.get c = some row := by
        rcases (hE.evolves j).stamped c row hrow with hsame | hlate
        · exact hsame
        · exact absurd (lt_of_lt_of_le hold (hE.now_mono hkj)) (not_lt.mpr hlate)
      refine requeueSent_keeps (Table.mem_rows_iff.mpr hrow') ?_
      unfold ServerDb.sentActive at hactive ⊢
      rw [Bool.and_eq_true] at hactive ⊢
      exact ⟨hactive.1, (hE.evolves j).inactive c row hrow' hrow hactive.2⟩

theorem updatedAt_le {r x : CommandId × CommandOutbox} (h : sentKey r ≤ sentKey x) :
    r.2.updatedAt ≤ x.2.updatedAt := by
  rcases Prod.Lex.toLex_le_toLex.mp h with hlt | ⟨heq, -⟩
  · exact le_of_lt hlt
  · exact le_of_eq heq

theorem mem_sentAfter {db : ServerDb} {cursor : Option SentKey} {hwm : Time} :
    r ∈ db.sentAfter cursor hwm ↔ r ∈ db.outbox.rows ∧ db.sentActive r = true ∧
      r.2.updatedAt < hwm ∧ ∀ c ∈ cursor, c < sentKey r := by
  unfold ServerDb.sentAfter
  rw [List.mem_filter, Bool.and_eq_true, Bool.and_eq_true, decide_eq_true_eq, Option.all_eq_true]
  simp only [decide_eq_true_eq, Option.mem_def]

/-! ### Up to a row -/

variable {x : CommandId × CommandOutbox}

/-- The page of the call starts in front of the row. -/
structure Ahead (cfg : SentReconcileSettings) (E : SentCalls) (x : CommandId × CommandOutbox)
    (j : Nat) : Prop where
  cursor : ∀ c ∈ (E.aim cfg j).1, c < sentKey x
  hwm : x.2.updatedAt < (E.aim cfg j).2

/-- The rows from the start of the page up to the row. -/
def leftTo (cfg : SentReconcileSettings) (E : SentCalls) (x : CommandId × CommandOutbox)
    (j : Nat) : Nat :=
  ((E.db j).sentAfter (E.aim cfg j).1 (E.aim cfg j).2).countP fun r =>
    decide (sentKey r ≤ sentKey x)

theorem leftTo_pos (hfind : E.Finds j x) (h : Ahead cfg E x j) : 0 < leftTo cfg E x j := by
  refine List.countP_pos_iff.mpr ⟨x, ?_, decide_eq_true (le_refl _)⟩
  exact mem_sentAfter.mpr ⟨hfind.1, hfind.2, h.hwm, h.cursor⟩

/-- **The step**: the row is on the page, or the page takes its rows from those in
front of it. -/
theorem ahead_step (hE : E.Ordered cfg) (hfind : E.Finds j x) (hfind' : E.Finds (j + 1) x)
    (hold : x.2.updatedAt < E.now j) (h : Ahead cfg E x j) :
    x ∈ (E.call cfg j).rows ∨
      leftTo cfg E x (j + 1) + cfg.batch ≤ leftTo cfg E x j ∧ Ahead cfg E x (j + 1) := by
  have hrows := call_rows cfg E j
  have hx : x ∈ (E.db j).sentAfter (E.aim cfg j).1 (E.aim cfg j).2 :=
    mem_sentAfter.mpr ⟨hfind.1, hfind.2, h.hwm, h.cursor⟩
  by_cases hmem : x ∈ (E.call cfg j).rows
  · exact .inl hmem
  refine .inr ?_
  rw [hrows] at hmem
  obtain ⟨hfull, hfront⟩ := (Paging.mem_page_or_full hx).resolve_left hmem
  have hfull' : (E.call cfg j).rows.length = cfg.batch := by
    rw [hrows]
    exact hfull
  obtain ⟨y, hlast, hsweep⟩ := sweep_of_full hfull'
  rw [hrows] at hlast
  have hy := List.mem_of_getLast? hlast
  obtain ⟨hytable, -, -, hycursor⟩ := mem_sentAfter.mp (Paging.mem_of_mem_page hy)
  -- the last row of the page is another one, and in front
  have hyx : sentKey y < sentKey x := by
    refine lt_of_le_of_ne (hfront y hy) fun hsame => hmem ?_
    have hkey : y.1 = x.1 := congrArg (fun p => (ofLex p).2) hsame
    have hrow : y.2 = x.2 := Option.some.inj
      ((Table.mem_rows_iff.mp hytable).symm.trans (hkey ▸ Table.mem_rows_iff.mp hfind.1))
    rwa [← Prod.ext hkey hrow]
  have hx' : x ∈ (E.db (j + 1)).sentAfter (some (sentKey y)) (E.aim cfg j).2 := by
    refine mem_sentAfter.mpr ⟨hfind'.1, hfind'.2, h.hwm, fun c hc => ?_⟩
    rwa [← Option.some.inj hc]
  have haim := aim_of_left hsweep (List.ne_nil_of_mem hx')
  constructor
  · refine le_trans (Nat.add_le_add_right ?_ _) (Paging.countP_after_page hfull hlast
      fun z hz => decide_eq_true (hfront z hz))
    unfold leftTo
    rw [haim]
    refine Paging.countP_le_of_found
      (((E.db (j + 1)).outbox.nodup.of_map _).filter _) fun z hz hzx => ?_
    obtain ⟨hztable, hzactive, hzhwm, hzcursor⟩ := mem_sentAfter.mp hz
    have hyz : sentKey y < sentKey z := hzcursor _ rfl
    have hle := of_decide_eq_true hzx
    obtain ⟨hztable', hzactive'⟩ := finds_earlier hE (Nat.le_succ j) ⟨hztable, hzactive⟩
      (lt_of_le_of_lt (updatedAt_le hle) hold)
    refine ⟨mem_sentAfter.mpr ⟨hztable', hzactive', hzhwm, fun c hc => ?_⟩, ?_⟩
    · exact lt_trans (hycursor c hc) hyz
    · rw [Bool.and_eq_true]
      exact ⟨hzx, decide_eq_true hyz⟩
  · exact ⟨fun c hc => by
      rw [haim] at hc
      rwa [← Option.some.inj hc], by
      rw [haim]
      exact h.hwm⟩

/-! ### To the end of a sweep -/

/-- **A sweep ends** within the calls that its rows have room for. -/
theorem wraps_within (hE : E.Ordered cfg) {n : Nat} {a : SentKey} {h : Time}
    (hs : E.sweep cfg i = ⟨some a, some h⟩) (hh : h ≤ E.now i)
    (hn : ((E.db i).sentAfter (some a) h).length ≤ n * cfg.batch) :
    ∃ j, i ≤ j ∧ j ≤ i + n ∧ E.aim cfg j = (none, cfg.cutoff (E.now j)) := by
  induction n generalizing i a with
  | zero =>
      refine ⟨i, le_refl i, le_refl i, aim_of_nothing hs (List.length_eq_zero_iff.mp ?_)⟩
      omega
  | succ n ih =>
      by_cases hleft : (E.db i).sentAfter (some a) h = []
      · exact ⟨i, le_refl i, Nat.le_add_right .., aim_of_nothing hs hleft⟩
      have haim := aim_of_left hs hleft
      have hrows : (E.call cfg i).rows =
          Paging.page sentKey cfg.batch ((E.db i).sentAfter (some a) h) := by
        rw [call_rows, haim]
        rfl
      by_cases hfull : (E.call cfg i).rows.length = cfg.batch
      swap
      · exact ⟨i + 1, Nat.le_succ i, by omega, aim_of_ended (sweep_of_short hfull)⟩
      obtain ⟨y, hlast, hsweep⟩ := sweep_of_full hfull
      rw [haim] at hsweep
      rw [hrows] at hfull hlast
      have hycursor := (mem_sentAfter.mp (Paging.mem_of_mem_page (List.mem_of_getLast? hlast))).2.2.2
      have htaken := Paging.countP_after_page (p := fun _ => true) hfull hlast fun _ _ => rfl
      rw [List.countP_true] at htaken
      have hfound : ((E.db (i + 1)).sentAfter (some (sentKey y)) h).length ≤
          ((E.db i).sentAfter (some a) h).countP fun z => true && decide (sentKey y < sentKey z) := by
        rw [← List.countP_true]
        refine Paging.countP_le_of_found
          (((E.db (i + 1)).outbox.nodup.of_map _).filter _) fun z hz _ => ?_
        obtain ⟨hztable, hzactive, hzhwm, hzcursor⟩ := mem_sentAfter.mp hz
        have hyz : sentKey y < sentKey z := hzcursor _ rfl
        obtain ⟨hztable', hzactive'⟩ := finds_earlier hE (Nat.le_succ i) ⟨hztable, hzactive⟩
          (lt_of_lt_of_le hzhwm hh)
        refine ⟨mem_sentAfter.mpr ⟨hztable', hzactive', hzhwm, fun c hc => ?_⟩, decide_eq_true hyz⟩
        exact lt_trans (hycursor c hc) hyz
      rw [Nat.succ_mul] at hn
      obtain ⟨j, hij, hj, hwraps⟩ := ih hsweep (le_trans hh (hE.clock i)) (by omega)
      exact ⟨j, by omega, by omega, hwraps⟩

/-! ### Both -/

theorem le_ceil_mul (N : Nat) {b : Nat} (hb : 0 < b) : N ≤ (N + b - 1) / b * b := by
  have := Nat.div_add_mod (N + b - 1) b
  have := Nat.mod_lt (N + b - 1) hb
  rw [Nat.mul_comm]
  omega

/-- **A sent command is looked at again** within `2 * ⌈N / batch⌉ + 1` calls, counted
from the call that finds it old enough or from the next one. -/
theorem sent_covered (cfg : SentReconcileSettings) (E : SentCalls) (hE : E.Ordered cfg) (k i : Nat)
    (hi : i = k ∨ i = k + 1) (x : CommandId × CommandOutbox)
    (hold : x.2.updatedAt < cfg.cutoff (E.now k))
    (hfinds : ∀ j, i ≤ j → j < i + (2 * ((E.eligible cfg k + cfg.batch - 1) / cfg.batch) + 1) →
      E.Finds j x) :
    ∃ j, i ≤ j ∧ j < i + (2 * ((E.eligible cfg k + cfg.batch - 1) / cfg.batch) + 1) ∧
      x ∈ (E.call cfg j).rows := by
  have hki : k ≤ i := by omega
  have hnow : ∀ {j}, i ≤ j → x.2.updatedAt < E.now j := fun hij =>
    lt_of_lt_of_le (lt_of_lt_of_le hold (cutoff_le cfg _)) (hE.now_mono (le_trans hki hij))
  have hceil := le_ceil_mul (E.eligible cfg k) (batch_pos cfg)
  generalize (E.eligible cfg k + cfg.batch - 1) / cfg.batch = n at hfinds hceil ⊢
  -- rows older than the cutoff of the call `k` are among those it found
  have hamong : ∀ {j cursor hwm} {p : CommandId × CommandOutbox → Bool}, i ≤ j →
      (∀ z ∈ (E.db j).sentAfter cursor hwm, p z = true → z.2.updatedAt < cfg.cutoff (E.now k)) →
      ((E.db j).sentAfter cursor hwm).countP p ≤ n * cfg.batch := by
    intro j cursor hwm p hij hp
    refine le_trans (Paging.countP_le_of_found (((E.db j).outbox.nodup.of_map _).filter _)
      fun z hz hpz => ?_) hceil
    obtain ⟨hztable, hzactive, -, -⟩ := mem_sentAfter.mp hz
    have hzold := hp z hz hpz
    obtain ⟨hztable', hzactive'⟩ := finds_earlier hE (le_trans hki hij) ⟨hztable, hzactive⟩
      (lt_of_lt_of_le hzold (cutoff_le cfg _))
    exact ⟨hztable', Bool.and_eq_true_iff.mpr ⟨hzactive', decide_eq_true hzold⟩⟩
  have hfront : ∀ j, i ≤ j → j ≤ i + n → Ahead cfg E x j →
      ∃ j', i ≤ j' ∧ j' < i + (2 * n + 1) ∧ x ∈ (E.call cfg j').rows := by
    intro j hij hj hahead
    have hleft : leftTo cfg E x j ≤ n * cfg.batch := hamong hij fun z _ hz =>
      lt_of_le_of_lt (updatedAt_le (of_decide_eq_true hz)) hold
    have hstep : ∀ j', j ≤ j' → j' < j + n → i ≤ j' ∧ E.Finds j' x ∧ Ahead cfg E x j' →
        x ∈ (E.call cfg j').rows ∨ leftTo cfg E x (j' + 1) + cfg.batch ≤ leftTo cfg E x j' ∧
          (i ≤ j' + 1 ∧ E.Finds (j' + 1) x ∧ Ahead cfg E x (j' + 1)) := by
      rintro j' hjj' hj' ⟨hij', hfind, hahead'⟩
      have hnext := hfinds (j' + 1) (by omega) (by omega)
      exact (ahead_step hE hfind hnext (hnow hij') hahead').imp_right fun hstep =>
        ⟨hstep.1, by omega, hnext, hstep.2⟩
    obtain ⟨j', hjj', hj', hmem⟩ := Paging.exists_within ⟨hij, hfinds j hij (by omega), hahead⟩
      hleft (fun j' h => leftTo_pos h.2.1 h.2.2) hstep
    exact ⟨j', by omega, by omega, hmem⟩
  have hfresh : ∀ j, i ≤ j → E.aim cfg j = (none, cfg.cutoff (E.now j)) → Ahead cfg E x j := by
    intro j hij haim
    refine ⟨fun c hc => ?_, ?_⟩
    · rw [haim] at hc
      cases hc
    · rw [haim]
      exact lt_of_lt_of_le hold (cutoff_mono cfg (hE.now_mono (le_trans hki hij)))
  rcases aim_cases cfg E i with haim | ⟨a, h, hs, -, -⟩
  · exact hfront i (le_refl i) (by omega) (hfresh i (le_refl i) haim)
  -- the boundary of the sweep is no later than the cutoff of the call `k`
  have hboundary : h ≤ cfg.cutoff (E.now k) := by
    cases i with
    | zero => cases hs
    | succ i =>
        have hle : i ≤ k := by omega
        exact le_trans (hwm_le hE (by rw [hs])) (cutoff_mono cfg (hE.now_mono hle))
  obtain ⟨j, hij, hj, hwraps⟩ := wraps_within hE hs
    (le_trans hboundary (le_trans (cutoff_le cfg _) (hE.now_mono hki))) (by
      rw [← List.countP_true]
      exact hamong (le_refl i) fun z hz _ => lt_of_lt_of_le (mem_sentAfter.mp hz).2.2.1 hboundary)
  exact hfront j hij hj (hfresh j hij hwraps)

/-- One row that stays, looked at one row a call. -/
def sampleCalls : SentCalls where
  db _ := { ServerDb.empty with
    tasks := Table.empty.insert 1 { status := .running }
    outbox := Table.empty.insert 1
      { agentId := 1, taskId := 1, executionId := 1, type := .run, status := .sent } }
  now _ := 10
  stamp _ := 10
  redis _ := true
  xrange _ _ := .found

theorem sampleCalls_ordered : sampleCalls.Ordered ⟨5, 1⟩ where
  clock _ := le_refl _
  evolves j := by
    have hnone : (sampleCalls.call ⟨5, 1⟩ j).requeued = [] := by
      show List.map Prod.fst (List.filter _ _) = []
      rw [List.map_eq_nil_iff, List.filter_eq_nil_iff]
      intro r _
      exact fun hc => by cases (Bool.and_eq_true_iff.mp hc).2
    refine ⟨fun c row hrow => .inl ?_, fun _ _ _ _ h => h⟩
    show ((sampleCalls.db j).requeueSent 10 10 (sampleCalls.call ⟨5, 1⟩ j).requeued).outbox.get c =
      some row
    rw [hnone]
    refine (Table.get_updateAll ..).trans ?_
    rw [show (sampleCalls.db j).outbox.get c = some row from hrow]
    rfl

theorem sent_covered_sample : ∃ j, 4 ≤ j ∧ j < 4 + (2 * ((1 + 1 - 1) / 1) + 1) ∧
    (1, { agentId := 1, taskId := 1, executionId := 1, type := .run, status := .sent }) ∈
      (sampleCalls.call ⟨5, 1⟩ j).rows :=
  sent_covered ⟨5, 1⟩ sampleCalls sampleCalls_ordered 3 4 (.inr rfl) _ (by decide)
    fun _ _ _ => ⟨List.mem_singleton.mpr rfl, rfl⟩

end SentCalls

end Facts

end Dopilot
