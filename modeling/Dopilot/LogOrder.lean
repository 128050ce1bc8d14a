/-
Dopilot/LogOrder.lean

The order in which the log consumer's increments take effect.

`LogConsumer` applies one entry after the other and acknowledges it once it is
committed.  An apply may raise before or after its bytes reached the disk, the
commit may fail or its reply may be lost, and so may the acknowledgement; the
entry then stays pending and comes again with a later `XAUTOCLAIM`.

`PageInOrder` says of a page that whoever is handed an increment is also handed,
before it, every older one of the same log that was not applied yet.  As long
as all pages are so, the increments of a log are applied in the order of the
stream: its row is the one an application without any failure leads to, and its
body holds every increment as it would be written then.  A failed attempt may
leave a start of the increment on the disk in front of it, which `torn` records.
-/
import Dopilot.Consumers
import Dopilot.ServerLogs

namespace Dopilot

namespace LogOrder

open Reassembly
open StateMachine (RunOk)

/-! ### The server behind the consumer -/

/-- Rows and bodies, with a record of what was applied.  `applied` lists the
increments whose apply was committed, in that order; `torn` is what failed
attempts at an entry left on the disk.  No program reads the record. -/
structure LogStore where
  server : LogServer
  applied : List (Nat × AgentLogEvent)
  torn : Nat → List Bytes

/-- How an attempt at an entry ends: where the apply raises, and the commit. -/
structure ApplyAnswer where
  fault : LogFault := .none
  commit : Prog.Fault := .none

/-- The transaction is committed. -/
def LogStore.commit (st : LogStore) (id : Nat) (ev : AgentLogEvent) (after : LogServer) :
    LogStore :=
  { st with
    server := after
    applied := if id ∈ st.applied.map Prod.fst then st.applied else st.applied ++ [(id, ev)] }

/-- The transaction is rolled back; what reached the disk stays. -/
def LogStore.rollback (st : LogStore) (id : Nat) (ev : AgentLogEvent) (after : LogServer) :
    LogStore :=
  let left := (after.bodies ev.key).drop (st.server.bodies ev.key).length
  { st with
    server := { after with rows := st.server.rows }
    torn := if left = [] then st.torn else Function.update st.torn id (st.torn id ++ [left]) }

/-- The session of `_apply_one`: `apply_log_event`, then the commit. -/
def applyAndCommit (logs : LogsSettings) (x : ApplyAnswer) (id : Nat) :
    Option AgentLogEvent → LogStore → Bool × LogStore
  | none, st => (false, st)
  | some ev, st =>
      let r := applyLogEvent logs x.fault ev st.server
      match r.2, x.commit with
      | .ok _, .none => (true, st.commit id ev r.1)
      | .ok _, .after => (false, st.commit id ev r.1)
      | .ok _, .before => (false, st.rollback id ev r.1)
      | .error _, _ => (false, st.rollback id ev r.1)

def logModel (logs : LogsSettings) : AppModel (Option AgentLogEvent) LogStore ApplyAnswer where
  handle x id b st := applyAndCommit logs x id b st
  chore _ _ st := st

abbrev World := Inbox (Option AgentLogEvent) LogStore

/-- The log consumer among everything else. -/
def spec (cfg : ConsumerConfig) (logs : LogsSettings) :
    Sys.Spec Unit (ConsumerOp (Option AgentLogEvent)) ConsumerOp.Res
      (fun _ => ConsumerAnswer ApplyAnswer) ConsumerError World
      (InboxMove (Option AgentLogEvent)) Unit :=
  consumerSpec cfg (logModel logs) LogConsumer.boot LogConsumer.iterate id

abbrev State :=
  Sys Unit (ConsumerOp (Option AgentLogEvent)) ConsumerOp.Res ConsumerError World

abbrev Step :=
  Sys.Action Unit (ConsumerOp (Option AgentLogEvent)) (fun _ => ConsumerAnswer ApplyAnswer)
    (InboxMove (Option AgentLogEvent)) Unit

/-! ### Increments of one log -/

/-- The increments of a log among entries. -/
def increments (k : LogKey) (entries : List (Nat × Option AgentLogEvent)) :
    List (Nat × AgentLogEvent) :=
  entries.filterMap fun x => x.2.bind fun ev => if ev.key = k then some (x.1, ev) else none

/-- The increments of a log that were applied, in that order. -/
def appliedTo (k : LogKey) (w : World) : List (Nat × AgentLogEvent) :=
  w.app.applied.filter fun x => x.2.key = k

/-- The entry was applied. -/
def Applied (w : World) (id : Nat) : Prop := id ∈ w.app.applied.map Prod.fst

instance (w : World) (id : Nat) : Decidable (Applied w id) :=
  inferInstanceAs (Decidable (id ∈ w.app.applied.map Prod.fst))

/-- The increments of a log that are in the stream and were not applied yet. -/
def outstanding (k : LogKey) (w : World) : List (Nat × AgentLogEvent) :=
  (increments k w.stream.entries).filter fun x => ¬ Applied w x.1

/-- All increments of a log, those that were applied first. -/
def history (k : LogKey) (w : World) : List (Nat × AgentLogEvent) :=
  appliedTo k w ++ outstanding k w

def sliceOf (ev : AgentLogEvent) : Slice UInt8 := ⟨ev.offset, ev.contentB64.getD []⟩

def slices (l : List (Nat × AgentLogEvent)) : List (Slice UInt8) := l.map fun x => sliceOf x.2

/-- A log file that was just created. -/
def start : Assembly UInt8 := ⟨0, [], 0⟩

/-- The content decodes, and its length is what the entry says. -/
def Decodes (ev : AgentLogEvent) : Prop := ev.contentB64.map List.length = some ev.sizeBytes

instance (ev : AgentLogEvent) : Decidable (Decodes ev) := by
  unfold Decodes
  infer_instance

/-! ### Conditions on runs -/

/-- What is assumed of a log: its entries decode, and none of them leaves the
stream before it was applied. -/
def assumed (k : LogKey) : Sys.Cond Unit (ConsumerOp (Option AgentLogEvent))
    (fun _ => ConsumerAnswer ApplyAnswer) World (InboxMove (Option AgentLogEvent)) Unit where
  env w
    | .xadd (some ev) => ev.key = k → Decodes ev
    | .trim n => outstanding k (w.move (.trim n)) = outstanding k w
    | .delete => outstanding k w = []
    | _ => True
  launch _ _ _ := True
  op _ _ _ := True
  crash _ := True

instance (k : LogKey) (w : World) :
    (m : InboxMove (Option AgentLogEvent)) → Decidable ((assumed k).env w m)
  | .xadd (some ev) => inferInstanceAs (Decidable (ev.key = k → Decodes ev))
  | .trim n => inferInstanceAs (Decidable (outstanding k (w.move (.trim n)) = outstanding k w))
  | .delete => inferInstanceAs (Decidable (outstanding k w = []))
  | .xadd none | .tick _ => inferInstanceAs (Decidable True)

instance (k : LogKey) (w : World) (i inp : Unit) : Decidable ((assumed k).launch w i inp) :=
  inferInstanceAs (Decidable True)

instance (k : LogKey) (w : World) : Decidable ((assumed k).crash w) :=
  inferInstanceAs (Decidable True)

instance (k : LogKey) (op : ConsumerOp (Option AgentLogEvent)) (x : ConsumerAnswer ApplyAnswer)
    (w : World) : Decidable ((assumed k).op op x w) :=
  inferInstanceAs (Decidable True)

/-- A page with an increment of the log holds the older ones as well. -/
def PageInOrder (k : LogKey) (w : World) (page : List (Nat × Option AgentLogEvent)) : Prop :=
  ∀ x ∈ increments k page, ¬ Applied w x.1 →
    ∀ y ∈ outstanding k w, y.1 < x.1 → y.1 ∈ page.map Prod.fst

instance (k : LogKey) (w : World) (page : List (Nat × Option AgentLogEvent)) :
    Decidable (PageInOrder k w page) := by
  unfold PageInOrder
  infer_instance

/-- The runs in which the pages of the log are in order and no limit cuts it. -/
def pagesInOrder (cfg : ConsumerConfig) (logs : LogsSettings) (k : LogKey) :
    Sys.Cond Unit (ConsumerOp (Option AgentLogEvent)) (fun _ => ConsumerAnswer ApplyAnswer) World
      (InboxMove (Option AgentLogEvent)) Unit :=
  { assumed k with
    op := fun
      | .xautoclaim start, x, w =>
          match w.stream.xautoclaim w.now cfg.pendingIdleMs start cfg.batch with
          | some (page, _) => x.fault = .none → PageInOrder k w page.2
          | none => True
      | .xreadgroup, x, w =>
          match w.stream.xreadgroup w.now cfg.batch with
          | some (page, _) => x.fault = .none → PageInOrder k w page
          | none => True
      | .handle id (some ev), _, w => ev.key = k → ¬ Applied w id → Admits logs w.app.server ev
      | _, _, _ => True }

section Decidability

variable (cfg : ConsumerConfig) (logs : LogsSettings) (k : LogKey) (w : World)

instance (m : InboxMove (Option AgentLogEvent)) : Decidable ((pagesInOrder cfg logs k).env w m) :=
  inferInstanceAs (Decidable ((assumed k).env w m))

instance (i inp : Unit) : Decidable ((pagesInOrder cfg logs k).launch w i inp) :=
  inferInstanceAs (Decidable True)

instance : Decidable ((pagesInOrder cfg logs k).crash w) := inferInstanceAs (Decidable True)

instance (x : ConsumerAnswer ApplyAnswer) :
    (op : ConsumerOp (Option AgentLogEvent)) → Decidable ((pagesInOrder cfg logs k).op op x w)
  | .xautoclaim start => by
      simp only [pagesInOrder]
      split
      · infer_instance
      · infer_instance
  | .xreadgroup => by
      simp only [pagesInOrder]
      split
      · infer_instance
      · infer_instance
  | .handle id (some ev) =>
      inferInstanceAs (Decidable (ev.key = k → ¬ Applied w id → Admits logs w.app.server ev))
  | .handle _ none | .ensureGroup | .xack _ | .hand _ | .chore _ | .enterLoop =>
      inferInstanceAs (Decidable True)

end Decidability

/-! ### What is claimed of a state -/

/-- The body: for each applied increment what failed attempts at it left and what
its apply wrote, then what attempts at the next one left. -/
def bodyOf (torn : Nat → List Bytes) (applied : List (Nat × AgentLogEvent))
    (next : Option (Nat × AgentLogEvent)) : Bytes :=
  (List.zipWith (fun x p => (torn x.1).flatten ++ p) applied
      (pieces gapMarker start (slices applied))).flatten
    ++ (next.map fun x => (torn x.1).flatten).getD []

/-- The log is what applying its increments in the order of the stream, without
any failure, makes of it; only starts of increments are repeated. -/
structure InOrder (k : LogKey) (w : World) : Prop where
  order : (history k w).Pairwise fun x y => x.1 < y.1
  row : ∃ f, w.app.server.rows.get k = some f ∧
    f.lastPulledOffset = (assemble gapMarker start (slices (appliedTo k w))).next ∧
    f.gapCount = (assemble gapMarker start (slices (appliedTo k w))).gaps
  body : w.app.server.bodies k = bodyOf w.app.torn (appliedTo k w) (outstanding k w).head?
  starts : ∀ n x, (history k w)[n]? = some x → ∀ r ∈ w.app.torn x.1,
    r <+: piece gapMarker (assemble gapMarker start (slices ((history k w).take n)))
      (sliceOf x.2)

/-- The log has no gap and its body is the concatenation of the increments, once
what failed attempts left is set aside. -/
structure Concatenated (k : LogKey) (w : World) : Prop where
  noGap : ∀ f, w.app.server.rows.get k = some f → f.gapCount = 0
  starts : ∀ x ∈ history k w, ∀ r ∈ w.app.torn x.1, r <+: (sliceOf x.2).data
  body : w.app.server.bodies k =
    (appliedTo k w).flatMap (fun x => (w.app.torn x.1).flatten ++ (sliceOf x.2).data)
      ++ ((outstanding k w).head?.map fun x => (w.app.torn x.1).flatten).getD []
  whole : (∀ x ∈ history k w, w.app.torn x.1 = []) →
    w.app.server.bodies k = (appliedTo k w).flatMap fun x => (sliceOf x.2).data

/-- The log is in order, and where the stream has no hole it has none either. -/
def OrderKept (k : LogKey) (w : World) : Prop :=
  InOrder k w ∧ (JoinedFrom 0 (slices (history k w)) → Concatenated k w)

/-- Every increment of the log was applied and acknowledged. -/
def Settled (k : LogKey) (w : World) : Prop :=
  outstanding k w = [] ∧ w.stream.pending = []

instance (k : LogKey) (w : World) : Decidable (Settled k w) := by
  unfold Settled
  infer_instance

/-- A run starts from a log file just created and a stream nothing was applied of. -/
structure Initial (k : LogKey) (s : State) : Prop where
  idle : s.procs () = none
  stream : s.world.stream = .empty
  applied : s.world.app.applied = []
  torn : s.world.app.torn = fun _ => []
  row : s.world.app.server.rows.get k = some {}
  body : s.world.app.server.bodies k = []

/-! ### Facts on increments -/

/-- The body depends on what is torn of the increments at hand only. -/
theorem bodyOf_congr {torn torn' : Nat → List Bytes} {applied : List (Nat × AgentLogEvent)}
    {next : Option (Nat × AgentLogEvent)} (happlied : ∀ x ∈ applied, torn x.1 = torn' x.1)
    (hnext : ∀ x ∈ next, torn x.1 = torn' x.1) :
    bodyOf torn applied next = bodyOf torn' applied next := by
  have hzip : ∀ ps : List Bytes, List.zipWith (fun x p => (torn x.1).flatten ++ p) applied ps
      = List.zipWith (fun x p => (torn' x.1).flatten ++ p) applied ps := by
    induction applied with
    | nil => exact fun ps => rfl
    | cons x rest ih =>
        intro ps
        cases ps with
        | nil => rfl
        | cons p ps =>
            rw [List.zipWith_cons_cons, List.zipWith_cons_cons,
              happlied x (List.mem_cons_self ..),
              ih fun y hy => happlied y (List.mem_cons_of_mem _ hy)]
  unfold bodyOf
  rw [hzip]
  cases next with
  | none => rfl
  | some x =>
      rw [Option.map_some, Option.map_some, hnext x rfl]


section Increments

variable {k : LogKey} {w w' : World}

theorem mem_increments {entries : List (Nat × Option AgentLogEvent)} {x : Nat × AgentLogEvent} :
    x ∈ increments k entries ↔ (x.1, some x.2) ∈ entries ∧ x.2.key = k := by
  unfold increments
  rw [List.mem_filterMap]
  constructor
  · rintro ⟨⟨id, b⟩, hmem, hx⟩
    obtain ⟨ev, rfl, hev⟩ := Option.bind_eq_some_iff.mp hx
    by_cases hk : ev.key = k
    · rw [if_pos hk] at hev
      obtain rfl := Option.some.inj hev
      exact ⟨hmem, hk⟩
    · rw [if_neg hk] at hev
      cases hev
  · rintro ⟨hmem, hk⟩
    exact ⟨(x.1, some x.2), hmem, by simp [hk]⟩

theorem increments_append (entries more : List (Nat × Option AgentLogEvent)) :
    increments k (entries ++ more) = increments k entries ++ increments k more :=
  List.filterMap_append

theorem increments_sorted {entries : List (Nat × Option AgentLogEvent)}
    (h : entries.Pairwise fun x y => x.1 < y.1) :
    (increments k entries).Pairwise fun x y => x.1 < y.1 := by
  refine List.Pairwise.filterMap _ ?_ h
  rintro ⟨id, b⟩ ⟨id', b'⟩ hlt x hx y hy
  obtain ⟨ev, -, hev⟩ := Option.bind_eq_some_iff.mp hx
  obtain ⟨ev', -, hev'⟩ := Option.bind_eq_some_iff.mp hy
  split at hev
  · obtain rfl := Option.some.inj hev
    split at hev'
    · obtain rfl := Option.some.inj hev'
      exact hlt
    · cases hev'
  · cases hev

theorem mem_outstanding {x : Nat × AgentLogEvent} :
    x ∈ outstanding k w ↔
      (x.1, some x.2) ∈ w.stream.entries ∧ x.2.key = k ∧ ¬ Applied w x.1 := by
  unfold outstanding
  rw [List.mem_filter, mem_increments, decide_eq_true_eq, and_assoc]

theorem mem_appliedTo {x : Nat × AgentLogEvent} :
    x ∈ appliedTo k w ↔ x ∈ w.app.applied ∧ x.2.key = k := by
  unfold appliedTo
  rw [List.mem_filter, decide_eq_true_eq]

theorem outstanding_sorted : (outstanding k w).Pairwise fun x y => x.1 < y.1 :=
  (increments_sorted w.stream.sorted).filter _

theorem outstanding_congr (hentries : w'.stream.entries = w.stream.entries)
    (happ : w'.app = w.app) : outstanding k w' = outstanding k w := by
  unfold outstanding
  rw [hentries]
  refine List.filter_congr fun x _ => decide_eq_decide.mpr (not_congr ?_)
  rw [Applied, Applied, happ]

theorem slices_append (l l' : List (Nat × AgentLogEvent)) :
    slices (l ++ l') = slices l ++ slices l' := List.map_append

/-- In a list with increasing ids an id stands at one place. -/
theorem index_unique {l : List (Nat × AgentLogEvent)} (h : l.Pairwise fun x y => x.1 < y.1)
    {n m : Nat} {x y : Nat × AgentLogEvent} (hn : l[n]? = some x) (hm : l[m]? = some y)
    (hid : x.1 = y.1) : n = m := by
  obtain ⟨hn', rfl⟩ := List.getElem?_eq_some_iff.mp hn
  obtain ⟨hm', rfl⟩ := List.getElem?_eq_some_iff.mp hm
  rw [List.pairwise_iff_getElem] at h
  rcases Nat.lt_trichotomy n m with hlt | heq | hgt
  · have := h n m hn' hm' hlt
    omega
  · exact heq
  · have := h m n hm' hn' hgt
    omega

/-- The oldest outstanding increment is the one with no older one. -/
theorem outstanding_eq_cons {x : Nat × AgentLogEvent} (hx : x ∈ outstanding k w)
    (holdest : ∀ y ∈ outstanding k w, ¬ y.1 < x.1) :
    ∃ rest, outstanding k w = x :: rest := by
  rcases hout : outstanding k w with - | ⟨y, rest⟩
  · rw [hout] at hx
    cases hx
  · rw [hout] at hx holdest
    rcases List.mem_cons.mp hx with rfl | hrest
    · exact ⟨rest, rfl⟩
    · have hlt := (List.pairwise_cons.mp (hout ▸ outstanding_sorted (k := k) (w := w))).1 x hrest
      exact absurd hlt (holdest y (List.mem_cons_self ..))

end Increments

/-! ### The invariant -/

/-- What holds of a log besides its order. -/
structure Inv (k : LogKey) (w : World) : Prop extends InOrder k w where
  decodes : ∀ x ∈ history k w, Decodes x.2
  recorded : ∀ x ∈ w.app.applied, x.1 ≤ w.stream.lastId ∧
    ∀ y ∈ w.stream.entries, y.1 = x.1 → y.2 = some x.2
  untouched : ∀ x ∈ (outstanding k w).tail, w.app.torn x.1 = []
  fresh : ∀ id, w.stream.lastId < id → w.app.torn id = []

section Invariant

variable {k : LogKey} {w w' : World}

theorem Inv.congr (h : Inv k w) (hentries : w'.stream.entries = w.stream.entries)
    (hlast : w'.stream.lastId = w.stream.lastId) (happ : w'.app = w.app) : Inv k w' := by
  have hout : outstanding k w' = outstanding k w := outstanding_congr hentries happ
  have hhist : history k w' = history k w := by
    unfold history appliedTo
    rw [hout, happ]
  have happlied : appliedTo k w' = appliedTo k w := by
    unfold appliedTo
    rw [happ]
  exact
    { order := hhist ▸ h.order
      row := by rw [happlied, happ]; exact h.row
      body := by rw [happlied, happ, hout]; exact h.body
      starts := by rw [hhist, happ]; exact h.starts
      decodes := hhist ▸ h.decodes
      recorded := by rw [happ, hentries, hlast]; exact h.recorded
      untouched := by rw [hout, happ]; exact h.untouched
      fresh := by rw [hlast, happ]; exact h.fresh }

theorem Inv.le_lastId (h : Inv k w) {x : Nat × AgentLogEvent} (hx : x ∈ history k w) :
    x.1 ≤ w.stream.lastId := by
  rcases List.mem_append.mp hx with happlied | hout
  · exact (h.recorded x (mem_appliedTo.mp happlied).1).1
  · exact w.stream.bounded _ (mem_outstanding.mp hout).1

/-- What others do to the stream: what is outstanding stays, and what is new comes later. -/
structure Rely (k : LogKey) (w w' : World) : Prop where
  app : w'.app = w.app
  lastId : w.stream.lastId ≤ w'.stream.lastId
  entries : ∀ y ∈ w'.stream.entries, y ∈ w.stream.entries ∨ w.stream.lastId < y.1
  outstanding : LogOrder.outstanding k w <+: LogOrder.outstanding k w'

theorem Rely.refl (w : World) : Rely k w w :=
  ⟨rfl, Nat.le_refl _, fun _ hy => .inl hy, List.prefix_rfl⟩

theorem Rely.trans {w₁ w₂ w₃ : World} (h : Rely k w₁ w₂) (h' : Rely k w₂ w₃) : Rely k w₁ w₃ where
  app := h'.app.trans h.app
  lastId := Nat.le_trans h.lastId h'.lastId
  entries y hy := by
    rcases h'.entries y hy with hold | hnew
    · exact h.entries y hold
    · exact .inr (Nat.lt_of_le_of_lt h.lastId hnew)
  outstanding := h.outstanding.trans h'.outstanding

/-- Later increments are added to the stream. -/
theorem Inv.extend (h : Inv k w) (hrely : Rely k w w') {new : List (Nat × AgentLogEvent)}
    (hout : outstanding k w' = outstanding k w ++ new)
    (hnew : ∀ x ∈ new, w.stream.lastId < x.1 ∧ Decodes x.2) : Inv k w' := by
  have happlied : appliedTo k w' = appliedTo k w := by
    unfold appliedTo
    rw [hrely.app]
  have hhist : history k w' = history k w ++ new := by
    unfold history
    rw [hout, happlied, List.append_assoc]
  have hfresh : ∀ x ∈ new, w.app.torn x.1 = [] := fun x hx => h.fresh _ (hnew x hx).1
  refine
    { order := ?_
      row := by rw [happlied, hrely.app]; exact h.row
      body := ?_
      starts := ?_
      decodes := ?_
      recorded := ?_
      untouched := ?_
      fresh := ?_ }
  · have hsorted := outstanding_sorted (k := k) (w := w')
    rw [hout] at hsorted
    rw [hhist]
    refine List.pairwise_append.mpr ⟨h.order, (List.pairwise_append.mp hsorted).2.1, ?_⟩
    exact fun x hx y hy => Nat.lt_of_le_of_lt (h.le_lastId hx) (hnew y hy).1
  · rw [happlied, hrely.app, hout, h.body]
    rcases hold : outstanding k w with - | ⟨x, rest⟩
    · rcases new with - | ⟨y, more⟩
      · rfl
      · simp [bodyOf, hfresh y (List.mem_cons_self ..)]
    · rfl
  · intro n x hx r hr
    rw [hhist] at hx ⊢
    rw [hrely.app] at hr
    by_cases hn : n < (history k w).length
    · rw [List.getElem?_append_left hn] at hx
      rw [List.take_append_of_le_length (Nat.le_of_lt hn)]
      exact h.starts n x hx r hr
    · rw [List.getElem?_append_right (Nat.not_lt.mp hn)] at hx
      rw [hfresh x (List.mem_of_getElem? hx)] at hr
      cases hr
  · intro x hx
    rw [hhist] at hx
    rcases List.mem_append.mp hx with hold | hmore
    · exact h.decodes x hold
    · exact (hnew x hmore).2
  · intro x hx
    rw [hrely.app] at hx
    obtain ⟨hle, hsame⟩ := h.recorded x hx
    refine ⟨Nat.le_trans hle hrely.lastId, fun y hy hid => ?_⟩
    rcases hrely.entries y hy with hold | hlater
    · exact hsame y hold hid
    · exact absurd hlater (by omega)
  · intro x hx
    rw [hrely.app]
    rw [hout] at hx
    rcases hold : outstanding k w with - | ⟨y, rest⟩
    · rw [hold] at hx
      exact hfresh x (List.mem_of_mem_tail hx)
    · rw [hold] at hx
      rcases List.mem_append.mp hx with hrest | hmore
      · refine h.untouched x ?_
        rw [hold]
        exact hrest
      · exact hfresh x hmore
  · intro id hid
    rw [hrely.app]
    exact h.fresh id (Nat.lt_of_le_of_lt hrely.lastId hid)

theorem not_applied_lastId_succ (h : Inv k w) : ¬ Applied w (w.stream.lastId + 1) := by
  intro hmem
  obtain ⟨x, hx, hid⟩ := List.mem_map.mp hmem
  have hle := (h.recorded x hx).1
  omega

/-- What an `XADD` adds to what is outstanding. -/
theorem outstanding_xadd (h : Inv k w) (b : Option AgentLogEvent) :
    outstanding k (w.move (.xadd b)) =
      outstanding k w ++ increments k [(w.stream.lastId + 1, b)] := by
  show ((increments k (w.stream.entries ++ [(w.stream.lastId + 1, b)])).filter fun x =>
    ¬ Applied w x.1) = _
  rw [increments_append, List.filter_append]
  refine congrArg (outstanding k w ++ ·) (List.filter_eq_self.mpr fun x hx => ?_)
  obtain ⟨hmem, -⟩ := mem_increments.mp hx
  obtain ⟨hid, -⟩ := Prod.mk.inj (List.mem_singleton.mp hmem)
  rw [hid]
  exact decide_eq_true (not_applied_lastId_succ h)

/-- A move of the environment. -/
theorem Inv.move (h : Inv k w) (m : InboxMove (Option AgentLogEvent))
    (hm : (assumed k).env w m) : Inv k (w.move m) ∧ Rely k w (w.move m) := by
  cases m with
  | xadd b =>
      have hout := outstanding_xadd h b
      have hrely : Rely k w (w.move (.xadd b)) := by
        refine ⟨rfl, Nat.le_succ _, fun y hy => ?_, ⟨_, hout.symm⟩⟩
        rcases List.mem_append.mp hy with hold | hnew
        · exact .inl hold
        · obtain rfl := List.mem_singleton.mp hnew
          exact .inr (Nat.lt_succ_self _)
      refine ⟨h.extend hrely hout fun x hx => ?_, hrely⟩
      obtain ⟨hmem, hk⟩ := mem_increments.mp hx
      obtain ⟨hid, rfl⟩ := Prod.mk.inj (List.mem_singleton.mp hmem)
      exact ⟨hid ▸ Nat.lt_succ_self _, hm hk⟩
  | trim n =>
      have hout : outstanding k (w.move (.trim n)) = outstanding k w := hm
      have hrely : Rely k w (w.move (.trim n)) :=
        ⟨rfl, Nat.le_refl _, fun y hy => .inl (List.mem_of_mem_drop hy), hout ▸ List.prefix_rfl⟩
      exact ⟨h.extend hrely (hout.trans (List.append_nil _).symm) (by simp), hrely⟩
  | delete =>
      have hout : outstanding k (w.move .delete) = outstanding k w := Eq.symm hm
      have hrely : Rely k w (w.move .delete) :=
        ⟨rfl, Nat.le_refl _, fun y hy => absurd hy List.not_mem_nil, hout ▸ List.prefix_rfl⟩
      exact ⟨h.extend hrely (hout.trans (List.append_nil _).symm) (by simp), hrely⟩
  | tick dt =>
      exact ⟨h.congr rfl rfl rfl, rfl, Nat.le_refl _, fun _ hy => .inl hy, List.prefix_rfl⟩

end Invariant

/-! ### One attempt -/

section Attempt

variable {k : LogKey} {w w' : World} {logs : LogsSettings}

/-- A session ends in a commit of an apply that returned, or is rolled back. -/
theorem applyAndCommit_cases (logs : LogsSettings) (x : ApplyAnswer) (id : Nat)
    (ev : AgentLogEvent) (st : LogStore) :
    applyAndCommit logs x id (some ev) st
        = (false, st.rollback id ev (applyLogEvent logs x.fault ev st.server).1) ∨
      ∃ ok applied, (applyLogEvent logs x.fault ev st.server).2 = .ok applied ∧
        applyAndCommit logs x id (some ev) st
          = (ok, st.commit id ev (applyLogEvent logs x.fault ev st.server).1) := by
  rcases hrun : applyLogEvent logs x.fault ev st.server with ⟨after, e | applied⟩
  · refine .inl ?_
    simp only [applyAndCommit, hrun]
  · cases hc : x.commit with
    | none => exact .inr ⟨true, applied, rfl, by simp only [applyAndCommit, hrun, hc]⟩
    | before => exact .inl (by simp only [applyAndCommit, hrun, hc])
    | after => exact .inr ⟨false, applied, rfl, by simp only [applyAndCommit, hrun, hc]⟩

/-- A session at an entry of another log. -/
theorem Inv.other (h : Inv k w) {id : Nat} {ev : AgentLogEvent} (hk : ev.key ≠ k)
    (hid : id ≤ w.stream.lastId) (hsame : ∀ y ∈ w.stream.entries, y.1 = id → y.2 = some ev)
    (hknown : ∀ y ∈ w.app.applied, y.1 = id → y.2 = ev) {app : LogStore}
    (hrow : app.server.rows.get k = w.app.server.rows.get k)
    (hbody : app.server.bodies k = w.app.server.bodies k)
    (happlied : app.applied = w.app.applied ∨ app.applied = w.app.applied ++ [(id, ev)])
    (htorn : ∀ i, i ≠ id → app.torn i = w.app.torn i)
    (hstream : w'.stream = w.stream) (happ : w'.app = app) : Inv k w' := by
  subst happ
  -- no increment of this log has the entry's id
  have hne : ∀ x ∈ history k w, x.1 ≠ id := by
    intro x hx heq
    rcases List.mem_append.mp hx with ha | ho
    · obtain ⟨hmem, hkey⟩ := mem_appliedTo.mp ha
      exact hk (hknown x hmem heq ▸ hkey)
    · obtain ⟨hmem, hkey, -⟩ := mem_outstanding.mp ho
      exact hk (Option.some.inj (hsame _ hmem heq) ▸ hkey)
  have hto : appliedTo k w' = appliedTo k w := by
    unfold appliedTo
    rcases happlied with heq | heq
    · rw [heq]
    · rw [heq, List.filter_append, List.filter_cons_of_neg (by simpa using hk), List.filter_nil,
        List.append_nil]
  have hout : outstanding k w' = outstanding k w := by
    unfold outstanding
    rw [hstream]
    refine List.filter_congr fun x hx => decide_eq_decide.mpr (not_congr ?_)
    unfold Applied
    rcases happlied with heq | heq
    · rw [heq]
    · rw [heq, List.map_append, List.mem_append]
      refine ⟨fun hmem => hmem.resolve_right fun hlast => ?_, .inl⟩
      obtain ⟨hmem, hkey⟩ := mem_increments.mp hx
      exact hk (Option.some.inj (hsame _ hmem (List.mem_singleton.mp hlast)) ▸ hkey)
  have hhist : history k w' = history k w := by
    unfold history
    rw [hout, hto]
  have htorn' : ∀ x ∈ history k w, w'.app.torn x.1 = w.app.torn x.1 :=
    fun x hx => htorn _ (hne x hx)
  have hhead : ∀ x ∈ (outstanding k w).head?, w'.app.torn x.1 = w.app.torn x.1 :=
    fun x hx => htorn' x (List.mem_append_right _ (List.mem_of_mem_head? hx))
  refine
    { order := hhist ▸ h.order
      row := by rw [hto, hrow]; exact h.row
      body := ?_
      starts := ?_
      decodes := hhist ▸ h.decodes
      recorded := ?_
      untouched := ?_
      fresh := ?_ }
  · rw [hbody, hto, hout, h.body]
    exact bodyOf_congr (fun x hx => (htorn' x (List.mem_append_left _ hx)).symm)
      fun x hx => (hhead x hx).symm
  · intro n x hx r hr
    rw [hhist] at hx ⊢
    rw [htorn' x (List.mem_of_getElem? hx)] at hr
    exact h.starts n x hx r hr
  · intro x hx
    rw [hstream]
    rcases happlied with heq | heq
    · exact h.recorded x (heq ▸ hx)
    · rw [heq] at hx
      rcases List.mem_append.mp hx with hold | hnew
      · exact h.recorded x hold
      · obtain rfl := List.mem_singleton.mp hnew
        exact ⟨hid, hsame⟩
  · intro x hx
    rw [hout] at hx
    rw [htorn' x (List.mem_append_right _ (List.mem_of_mem_tail hx))]
    exact h.untouched x hx
  · intro i hi
    rw [hstream] at hi
    rw [htorn i (by omega)]
    exact h.fresh i hi

/-- What the server's row has to do with the receiver of the applied slices. -/
theorem row_accept {f : ExecutionLogFile} {a : Assembly UInt8} (body : Bytes)
    (hnext : f.lastPulledOffset = a.next) (hgaps : f.gapCount = a.gaps) (sl : Slice UInt8) :
    (accept gapMarker (f.assembly body) sl).next = (accept gapMarker a sl).next ∧
      (accept gapMarker (f.assembly body) sl).gaps = (accept gapMarker a sl).gaps ∧
      piece gapMarker (f.assembly body) sl = piece gapMarker a sl :=
  accept_congr hnext hgaps sl

theorem Inv.lt_next (h : Inv k w) {x : Nat × AgentLogEvent} {rest : List (Nat × AgentLogEvent)}
    (hhead : outstanding k w = x :: rest) : ∀ y ∈ appliedTo k w, y.1 < x.1 := by
  intro y hy
  refine (List.pairwise_append.mp h.order).2.2 y hy x ?_
  rw [hhead]
  exact List.mem_cons_self ..

/-- The increment at hand, its row and its content. -/
theorem Inv.next_row (h : Inv k w) {x : Nat × AgentLogEvent} {rest : List (Nat × AgentLogEvent)}
    (hhead : outstanding k w = x :: rest) (hadm : Admits logs w.app.server x.2) :
    ∃ f raw, w.app.server.rows.get x.2.key = some f ∧ f.status.writable = true ∧
      f.logIntegrity ≠ .truncated ∧ x.2.contentB64 = some raw ∧ x.2.sizeBytes = raw.length ∧
      FitsWhole logs w.app.server f x.2 raw ∧
      f.lastPulledOffset = (assemble gapMarker start (slices (appliedTo k w))).next ∧
      f.gapCount = (assemble gapMarker start (slices (appliedTo k w))).gaps := by
  have hx : x ∈ outstanding k w := hhead ▸ List.mem_cons_self ..
  obtain ⟨-, hkey, -⟩ := mem_outstanding.mp hx
  obtain ⟨f, hf, hnext, hgaps⟩ := h.row
  have hdecodes := h.decodes x (List.mem_append_right _ hx)
  rw [← hkey] at hf
  unfold Admits at hadm
  rw [hf] at hadm
  cases hc : x.2.contentB64 with
  | none =>
      rw [hc] at hadm
      exact hadm.elim
  | some raw =>
      rw [hc] at hadm
      obtain ⟨hw, hi, hfits⟩ := hadm
      unfold Decodes at hdecodes
      rw [hc] at hdecodes
      exact ⟨f, raw, hf, hw, hi, rfl, (Option.some.inj hdecodes).symm, hfits, hnext, hgaps⟩

/-- What an attempt at the next increment that is rolled back leaves on the disk. -/
theorem Inv.rollback_left (h : Inv k w) {x : Nat × AgentLogEvent}
    {rest : List (Nat × AgentLogEvent)} (hhead : outstanding k w = x :: rest)
    (hadm : Admits logs w.app.server x.2) (fault : LogFault) :
    ∃ left, (applyLogEvent logs fault x.2 w.app.server).1.bodies k
        = w.app.server.bodies k ++ left ∧
      left <+: piece gapMarker (assemble gapMarker start (slices (appliedTo k w)))
        (sliceOf x.2) := by
  have hkey : x.2.key = k :=
    (mem_outstanding.mp (hhead ▸ List.mem_cons_self .. : x ∈ outstanding k w)).2.1
  obtain ⟨f, raw, hf, hw, hi, hc, hlen, hfits, hnext, hgaps⟩ := h.next_row hhead hadm
  have hslice : sliceOf x.2 = ⟨x.2.offset, raw⟩ := by
    unfold sliceOf
    rw [hc]
    rfl
  obtain ⟨-, -, hpiece⟩ := row_accept (w.app.server.bodies k) hnext hgaps (sliceOf x.2)
  rw [← hpiece, hslice, ← hkey]
  rcases applyLogEvent_attempt fault hf hw hi hc hlen hfits with
    ⟨e, left, -, hleft, hbody⟩ | heq
  · exact ⟨left, hbody, hleft⟩
  · obtain ⟨f', applied, hf', hassembly, -⟩ := applyLogEvent_accept hf hw hi hc hlen hfits
    refine ⟨_, ?_, List.prefix_rfl⟩
    rw [heq]
    exact (congrArg Assembly.body hassembly).trans (accept_body gapMarker _ _)

/-- **An attempt that is rolled back** leaves the log where it was, with a start
of the next increment on the disk. -/
theorem Inv.rollback (h : Inv k w) {x : Nat × AgentLogEvent} {rest : List (Nat × AgentLogEvent)}
    (hhead : outstanding k w = x :: rest) (hadm : Admits logs w.app.server x.2)
    (fault : LogFault) (hstream : w'.stream = w.stream)
    (happ : w'.app = w.app.rollback x.1 x.2 (applyLogEvent logs fault x.2 w.app.server).1) :
    Inv k w' := by
  have hx : x ∈ outstanding k w := hhead ▸ List.mem_cons_self ..
  have hkey : x.2.key = k := (mem_outstanding.mp hx).2.1
  obtain ⟨left, hbody, hleft⟩ := h.rollback_left hhead hadm fault
  have hto : appliedTo k w' = appliedTo k w := by
    unfold appliedTo
    rw [happ]
    rfl
  have hout : outstanding k w' = outstanding k w := by
    unfold outstanding
    rw [hstream]
    refine List.filter_congr fun y _ => decide_eq_decide.mpr (not_congr ?_)
    rw [Applied, Applied, happ]
    rfl
  have hhist : history k w' = history k w := by
    unfold history
    rw [hout, hto]
  have hdrop : ((applyLogEvent logs fault x.2 w.app.server).1.bodies x.2.key).drop
      (w.app.server.bodies x.2.key).length = left := by
    rw [hkey, hbody, List.drop_left]
  have htorn : ∀ i, i ≠ x.1 → w'.app.torn i = w.app.torn i := by
    intro i hi
    rw [happ]
    unfold LogStore.rollback
    simp only
    split
    · rfl
    · exact Function.update_of_ne hi _ _
  have hself : (w'.app.torn x.1).flatten = (w.app.torn x.1).flatten ++ left ∧
      ∀ r ∈ w'.app.torn x.1, r ∈ w.app.torn x.1 ∨ r = left := by
    rw [happ]
    unfold LogStore.rollback
    simp only [hdrop]
    by_cases hnil : left = []
    · rw [if_pos hnil, hnil, List.append_nil]
      exact ⟨rfl, fun r hr => .inl hr⟩
    · rw [if_neg hnil, Function.update_self, List.flatten_append, List.flatten_singleton]
      refine ⟨rfl, fun r hr => ?_⟩
      rcases List.mem_append.mp hr with hold | hnew
      · exact .inl hold
      · exact .inr (List.mem_singleton.mp hnew)
  have hlt := h.lt_next hhead
  refine
    { order := hhist ▸ h.order
      row := ?_
      body := ?_
      starts := ?_
      decodes := hhist ▸ h.decodes
      recorded := ?_
      untouched := ?_
      fresh := ?_ }
  · rw [hto, happ]
    exact h.row
  · rw [hto, hout, happ]
    show (applyLogEvent logs fault x.2 w.app.server).1.bodies k = _
    rw [← happ, hbody, h.body, hhead]
    have hcongr : bodyOf w'.app.torn (appliedTo k w) none
        = bodyOf w.app.torn (appliedTo k w) none :=
      bodyOf_congr (fun y hy => htorn _ (Nat.ne_of_lt (hlt y hy))) (by simp)
    unfold bodyOf at hcongr ⊢
    simp only [Option.map_none, Option.getD_none, List.append_nil] at hcongr
    simp only [List.head?_cons, Option.map_some, Option.getD_some]
    rw [hcongr, hself.1, List.append_assoc]
  · intro n y hy r hr
    rw [hhist] at hy ⊢
    by_cases heq : y.1 = x.1
    · -- ids are unique, so this is the next increment itself
      have hat : (history k w)[(appliedTo k w).length]? = some x := by
        unfold history
        rw [List.getElem?_append_right (Nat.le_refl _), Nat.sub_self, hhead]
        rfl
      have hlen : n = (appliedTo k w).length := index_unique h.order hy hat heq
      have hyx : y = x := Option.some.inj (hy.symm.trans (hlen ▸ hat))
      subst hyx
      rcases hself.2 r hr with hold | rfl
      · exact h.starts n y hy r hold
      · rw [hlen]
        unfold history
        rw [List.take_left]
        exact hleft
    · rw [htorn _ heq] at hr
      exact h.starts n y hy r hr
  · intro y hy
    rw [hstream]
    rw [happ] at hy
    exact h.recorded y hy
  · intro y hy
    rw [hout] at hy
    have hsorted := outstanding_sorted (k := k) (w := w)
    rw [hhead] at hsorted hy
    have hlater := (List.pairwise_cons.mp hsorted).1 y hy
    rw [htorn _ (by omega)]
    exact h.untouched y (hhead ▸ hy)
  · intro i hi
    rw [hstream] at hi
    have hle := h.le_lastId (List.mem_append_right _ hx)
    rw [htorn i (by omega)]
    exact h.fresh i hi

/-- **An attempt that is committed** is the next step of the receiver. -/
theorem Inv.commit (h : Inv k w) {x : Nat × AgentLogEvent} {rest : List (Nat × AgentLogEvent)}
    (hhead : outstanding k w = x :: rest) (hadm : Admits logs w.app.server x.2)
    {fault : LogFault} {applied : Dopilot.Applied}
    (hok : (applyLogEvent logs fault x.2 w.app.server).2 = .ok applied)
    (hstream : w'.stream = w.stream)
    (happ : w'.app = w.app.commit x.1 x.2 (applyLogEvent logs fault x.2 w.app.server).1) :
    Inv k w' := by
  have hx : x ∈ outstanding k w := hhead ▸ List.mem_cons_self ..
  obtain ⟨hmem, hkey, hfirst⟩ := mem_outstanding.mp hx
  obtain ⟨f, raw, hf, hw, hi, hc, hlen, hfits, hnext, hgaps⟩ := h.next_row hhead hadm
  have hslice : sliceOf x.2 = ⟨x.2.offset, raw⟩ := by
    unfold sliceOf
    rw [hc]
    rfl
  have heq : applyLogEvent logs fault x.2 w.app.server
      = applyLogEvent logs .none x.2 w.app.server := by
    rcases applyLogEvent_attempt fault hf hw hi hc hlen hfits with ⟨e, left, herror, -⟩ | heq
    · rw [hok] at herror
      cases herror
    · exact heq
  obtain ⟨f', done, hf', hassembly, -⟩ := applyLogEvent_accept hf hw hi hc hlen hfits
  rw [heq] at happ
  have happlied : w'.app.applied = w.app.applied ++ [x] := by
    rw [happ]
    exact if_neg hfirst
  have htorn : w'.app.torn = w.app.torn := by
    rw [happ]
    rfl
  have hto : appliedTo k w' = appliedTo k w ++ [x] := by
    unfold appliedTo
    rw [happlied, List.filter_append, List.filter_cons_of_pos (by simpa using hkey),
      List.filter_nil]
  have hout : outstanding k w' = rest := by
    have hfilter : outstanding k w' = (outstanding k w).filter fun y => y.1 ≠ x.1 := by
      unfold outstanding
      rw [hstream, List.filter_filter]
      refine List.filter_congr fun y _ => ?_
      rw [← Bool.decide_and]
      refine decide_eq_decide.mpr ?_
      rw [Applied, Applied, happlied, List.map_append, List.mem_append, not_or, and_comm]
      simp
    have hsorted := outstanding_sorted (k := k) (w := w)
    rw [hhead] at hsorted
    rw [hfilter, hhead, List.filter_cons_of_neg (by simp), List.filter_eq_self]
    intro y hy
    have hlater := (List.pairwise_cons.mp hsorted).1 y hy
    exact decide_eq_true (by omega)
  have hhist : history k w' = history k w := by
    unfold history
    rw [hto, hout, hhead, List.append_assoc]
    rfl
  obtain ⟨hn, hg, hp⟩ := row_accept (w.app.server.bodies k) hnext hgaps (sliceOf x.2)
  have hassemble : assemble gapMarker start (slices (appliedTo k w ++ [x]))
      = accept gapMarker (assemble gapMarker start (slices (appliedTo k w))) (sliceOf x.2) := by
    rw [slices_append, assemble_append]
    rfl
  have hserver : w'.app.server = (applyLogEvent logs .none x.2 w.app.server).1 := by
    rw [happ]
    rfl
  rw [hkey] at hf' hassembly
  rw [← hslice] at hassembly
  refine
    { order := hhist ▸ h.order
      row := ?_
      body := ?_
      starts := by rw [hhist, htorn]; exact h.starts
      decodes := hhist ▸ h.decodes
      recorded := ?_
      untouched := ?_
      fresh := by rw [hstream, htorn]; exact h.fresh }
  · refine ⟨f', hserver ▸ hf', ?_, ?_⟩
    · rw [hto, hassemble, ← hn]
      exact congrArg Assembly.next hassembly
    · rw [hto, hassemble, ← hg]
      exact congrArg Assembly.gaps hassembly
  · have hbody : w'.app.server.bodies k = w.app.server.bodies k
        ++ piece gapMarker (assemble gapMarker start (slices (appliedTo k w))) (sliceOf x.2) := by
      rw [hserver, ← hp]
      exact (congrArg Assembly.body hassembly).trans (accept_body gapMarker _ _)
    have hrest : (rest.head?.map fun y => (w.app.torn y.1).flatten).getD [] = [] := by
      rcases rest with - | ⟨y, more⟩
      · rfl
      · have hnone := h.untouched y (by rw [hhead]; exact List.mem_cons_self ..)
        simp [hnone]
    rw [hbody, h.body, hhead, hto, hout, htorn]
    unfold bodyOf
    rw [hrest, slices_append, pieces_append, List.zipWith_append (by simp [slices])]
    simp [slices, pieces]
  · intro y hy
    rw [hstream]
    rw [happlied] at hy
    rcases List.mem_append.mp hy with hold | hnew
    · exact h.recorded y hold
    · obtain rfl := List.mem_singleton.mp hnew
      refine ⟨w.stream.bounded _ hmem, fun z hz hid => ?_⟩
      have hz' := RedisStream.eq_of_mem_entries hz hmem hid
      rw [hz']
  · intro y hy
    rw [hout] at hy
    rw [htorn]
    exact h.untouched y (by rw [hhead]; exact List.mem_of_mem_tail hy)

end Attempt

/-! ### Pages -/

section Pages

variable {k : LogKey} {w w' : World} {logs : LogsSettings} {cfg : ConsumerConfig}

/-- What is known of the entries of a page that are still to be treated. -/
structure PageOk (k : LogKey) (page : List (Nat × Option AgentLogEvent)) (w : World) : Prop where
  sorted : page.Pairwise fun x y => x.1 < y.1
  bounded : ∀ x ∈ page, x.1 ≤ w.stream.lastId
  same : ∀ x ∈ page, ∀ y ∈ w.stream.entries, y.1 = x.1 → y = x
  known : ∀ x ∈ page, ∀ y ∈ w.app.applied, y.1 = x.1 → x.2 = some y.2
  held : ∀ x ∈ increments k page, ¬ Applied w x.1 → x ∈ outstanding k w
  covers : PageInOrder k w page

theorem PageOk.nil : PageOk k [] w where
  sorted := .nil
  bounded _ hx := absurd hx List.not_mem_nil
  same _ hx := absurd hx List.not_mem_nil
  known _ hx := absurd hx List.not_mem_nil
  held _ hx := absurd hx List.not_mem_nil
  covers _ hx := absurd hx List.not_mem_nil

/-- A page that comes from the stream and is in order. -/
theorem PageOk.of_stream (h : Inv k w) {page : List (Nat × Option AgentLogEvent)}
    (hsorted : page.Pairwise fun x y => x.1 < y.1) (hmem : ∀ x ∈ page, x ∈ w.stream.entries)
    (horder : PageInOrder k w page) : PageOk k page w where
  sorted := hsorted
  bounded x hx := w.stream.bounded x (hmem x hx)
  same x hx y hy hid := RedisStream.eq_of_mem_entries hy (hmem x hx) hid
  known x hx y hy hid := (h.recorded y hy).2 x (hmem x hx) hid.symm
  held x hx hfirst := by
    obtain ⟨hpage, hkey⟩ := mem_increments.mp hx
    exact mem_outstanding.mpr ⟨hmem _ hpage, hkey, hfirst⟩
  covers := horder

theorem PageOk.congr {page : List (Nat × Option AgentLogEvent)} (h : PageOk k page w)
    (hentries : w'.stream.entries = w.stream.entries)
    (hlast : w'.stream.lastId = w.stream.lastId) (happ : w'.app = w.app) : PageOk k page w' := by
  have hout : outstanding k w' = outstanding k w := outstanding_congr hentries happ
  exact
    { sorted := h.sorted
      bounded := by rw [hlast]; exact h.bounded
      same := by rw [hentries]; exact h.same
      known := by rw [happ]; exact h.known
      held := by
        rw [hout]
        unfold Applied
        rw [happ]
        exact h.held
      covers := by
        unfold PageInOrder Applied
        rw [hout, happ]
        exact h.covers }

theorem PageOk.stable {page : List (Nat × Option AgentLogEvent)} (h : PageOk k page w)
    (hr : Rely k w w') : PageOk k page w' where
  sorted := h.sorted
  bounded x hx := Nat.le_trans (h.bounded x hx) hr.lastId
  same x hx y hy hid := by
    rcases hr.entries y hy with hold | hnew
    · exact h.same x hx y hold hid
    · have := h.bounded x hx
      omega
  known := by rw [hr.app]; exact h.known
  held x hx hfirst := by
    rw [Applied, hr.app] at hfirst
    exact hr.outstanding.subset (h.held x hx hfirst)
  covers x hx hfirst y hy hlt := by
    rw [Applied, hr.app] at hfirst
    obtain ⟨hmem, hkey, hy'⟩ := mem_outstanding.mp hy
    rw [Applied, hr.app] at hy'
    rcases hr.entries _ hmem with hold | hnew
    · exact h.covers x hx hfirst y (mem_outstanding.mpr ⟨hold, hkey, hy'⟩) hlt
    · have := h.bounded _ (mem_increments.mp hx).1
      exact absurd hnew (by omega)

/-- Only the record of applied entries and the server behind it have changed. -/
theorem PageOk.rest {y : Nat × Option AgentLogEvent} {page : List (Nat × Option AgentLogEvent)}
    (h : PageOk k (y :: page) w) (hentries : w'.stream.entries = w.stream.entries)
    (hlast : w'.stream.lastId = w.stream.lastId)
    (happlied : w'.app.applied = w.app.applied ∨
      ∃ ev, y.2 = some ev ∧ w'.app.applied = w.app.applied ++ [(y.1, ev)])
    (hdone : ∀ ev, y.2 = some ev → ev.key = k → Applied w' y.1) : PageOk k page w' := by
  obtain ⟨hfirst, hsorted⟩ := List.pairwise_cons.mp h.sorted
  have hmono : ∀ i, Applied w i → Applied w' i := by
    intro i hi
    unfold Applied
    rcases happlied with heq | ⟨ev, -, heq⟩
    · rw [heq]
      exact hi
    · rw [heq, List.map_append]
      exact List.mem_append_left _ hi
  have hout : ∀ x, x ∈ outstanding k w' → x ∈ outstanding k w := by
    intro x hx
    obtain ⟨hmem, hkey, hx'⟩ := mem_outstanding.mp hx
    exact mem_outstanding.mpr ⟨hentries ▸ hmem, hkey, fun ha => hx' (hmono _ ha)⟩
  have hincrements : ∀ x ∈ increments k page, x ∈ increments k (y :: page) := by
    intro x hx
    obtain ⟨hmem, hkey⟩ := mem_increments.mp hx
    exact mem_increments.mpr ⟨List.mem_cons_of_mem _ hmem, hkey⟩
  refine
    { sorted := hsorted
      bounded := fun x hx => hlast ▸ h.bounded x (List.mem_cons_of_mem _ hx)
      same := fun x hx z hz => h.same x (List.mem_cons_of_mem _ hx) z (hentries ▸ hz)
      known := ?_
      held := ?_
      covers := ?_ }
  · intro x hx z hz hid
    rcases happlied with heq | ⟨ev, -, heq⟩
    · exact h.known x (List.mem_cons_of_mem _ hx) z (heq ▸ hz) hid
    · rw [heq] at hz
      rcases List.mem_append.mp hz with hold | hnew
      · exact h.known x (List.mem_cons_of_mem _ hx) z hold hid
      · obtain rfl := List.mem_singleton.mp hnew
        have := hfirst x hx
        exact absurd hid (by omega)
  · intro x hx hx'
    obtain ⟨hmem, hkey, -⟩ := mem_outstanding.mp
      (h.held x (hincrements x hx) fun ha => hx' (hmono _ ha))
    exact mem_outstanding.mpr ⟨hentries ▸ hmem, hkey, hx'⟩
  · intro x hx hx' z hz hlt
    have hz' := hout z hz
    have hin := h.covers x (hincrements x hx) (fun ha => hx' (hmono _ ha)) z hz' hlt
    rcases List.mem_cons.mp hin with hid | hrest
    · -- the entry just treated is applied, and no longer outstanding
      obtain ⟨hmem, hkey, -⟩ := mem_outstanding.mp hz'
      have hzy := h.same y (List.mem_cons_self ..) _ hmem hid
      obtain ⟨-, -, hopen⟩ := mem_outstanding.mp hz
      exact absurd (hid ▸ hdone z.2 (congrArg Prod.snd hzy).symm hkey) hopen
    · exact hrest

/-- An increment that was applied changes nothing when it comes again. -/
theorem applied_again (logs : LogsSettings) (h : Inv k w) {id : Nat} {ev : AgentLogEvent}
    (hkey : ev.key = k)
    (hmem : (id, ev) ∈ w.app.applied) (fault : LogFault) :
    (applyLogEvent logs fault ev w.app.server).1 = w.app.server := by
  have hto : (id, ev) ∈ appliedTo k w := mem_appliedTo.mpr ⟨hmem, hkey⟩
  obtain ⟨f, hf, hnext, -⟩ := h.row
  rw [← hkey] at hf
  have hdecodes := h.decodes (id, ev) (List.mem_append_left _ hto)
  obtain ⟨raw, hc, hlen⟩ := Option.map_eq_some_iff.mp hdecodes
  refine applyLogEvent_dropped hf hc ?_
  by_cases hnil : raw = []
  · exact .inl hnil
  · refine .inr ?_
    rw [hnext]
    have hslice : sliceOf ev ∈ slices (appliedTo k w) := List.mem_map.mpr ⟨(id, ev), hto, rfl⟩
    have hdata : (sliceOf ev).data = raw := by
      unfold sliceOf
      rw [hc]
      rfl
    exact offset_lt_of_mem hslice (hdata ▸ hnil)

/-- The increment of a page that was not applied is the oldest outstanding one. -/
theorem PageOk.head {id : Nat} {ev : AgentLogEvent} {page : List (Nat × Option AgentLogEvent)}
    (h : PageOk k ((id, some ev) :: page) w) (hkey : ev.key = k) (hfirst : ¬ Applied w id) :
    ∃ rest, outstanding k w = (id, ev) :: rest := by
  have hx : (id, ev) ∈ increments k ((id, some ev) :: page) :=
    mem_increments.mpr ⟨List.mem_cons_self .., hkey⟩
  refine outstanding_eq_cons (h.held _ hx hfirst) fun y hy hlt => ?_
  rcases List.mem_cons.mp (h.covers _ hx hfirst y hy hlt) with hid | hrest
  · exact absurd hid (Nat.ne_of_lt hlt)
  · obtain ⟨z, hz, hzy⟩ := List.mem_map.mp hrest
    have hlater : id < z.1 := (List.pairwise_cons.mp h.sorted).1 z hz
    have hlt' : y.1 < id := hlt
    omega

/-- **One session of the consumer** keeps the log in order. -/
theorem session_keeps (h : Inv k w) {id : Nat} {ev : AgentLogEvent}
    {page : List (Nat × Option AgentLogEvent)} (hpage : PageOk k ((id, some ev) :: page) w)
    (hadm : ev.key = k → ¬ Applied w id → Admits logs w.app.server ev) {x : ApplyAnswer}
    {ok : Bool} {app : LogStore} (hrun : applyAndCommit logs x id (some ev) w.app = (ok, app))
    (hstream : w'.stream = w.stream) (happ : w'.app = app) :
    Inv k w' ∧ (ok = true → PageOk k page w') := by
  have hentries : w'.stream.entries = w.stream.entries := congrArg RedisStream.entries hstream
  have hlast : w'.stream.lastId = w.stream.lastId := congrArg RedisStream.lastId hstream
  have hself := hpage.known (id, some ev) (List.mem_cons_self ..)
  by_cases hkey : ev.key = k
  · by_cases hfirst : Applied w id
    · -- it comes again: nothing changes
      obtain ⟨z, hz, hid⟩ := List.mem_map.mp hfirst
      have hz' : (id, ev) ∈ w.app.applied := by
        have hev := Option.some.inj (hself z hz hid)
        rw [← hid, hev]
        exact hz
      have hserver := applied_again logs h hkey hz' x.fault
      have hsame : app = w.app := by
        rcases applyAndCommit_cases logs x id ev w.app with heq | ⟨ok', applied, -, heq⟩
        · rw [hrun, hserver] at heq
          obtain ⟨-, rfl⟩ := Prod.mk.inj heq
          simp [LogStore.rollback]
        · rw [hrun, hserver] at heq
          obtain ⟨-, rfl⟩ := Prod.mk.inj heq
          unfold LogStore.commit
          rw [if_pos (show id ∈ w.app.applied.map Prod.fst from hfirst)]
      rw [hsame] at happ
      refine ⟨h.congr hentries hlast happ, fun _ => hpage.rest hentries hlast (.inl ?_) ?_⟩
      · rw [happ]
      · intro _ _ _
        rw [Applied, happ]
        exact hfirst
    · obtain ⟨rest, hhead⟩ := hpage.head hkey hfirst
      rcases applyAndCommit_cases logs x id ev w.app with heq | ⟨ok', applied, hok, heq⟩
      · rw [hrun] at heq
        obtain ⟨rfl, rfl⟩ := Prod.mk.inj heq
        have hinv := h.rollback hhead (hadm hkey hfirst) x.fault hstream happ
        exact ⟨hinv, fun hfalse => by cases hfalse⟩
      · rw [hrun] at heq
        obtain ⟨rfl, rfl⟩ := Prod.mk.inj heq
        have happlied : w'.app.applied = w.app.applied ++ [(id, ev)] := by
          rw [happ]
          exact if_neg hfirst
        refine ⟨h.commit hhead (hadm hkey hfirst) hok hstream happ, fun _ => ?_⟩
        refine hpage.rest hentries hlast (.inr ⟨ev, rfl, happlied⟩) fun _ _ _ => ?_
        show id ∈ w'.app.applied.map Prod.fst
        rw [happlied, List.map_append]
        exact List.mem_append_right _ (List.mem_singleton.mpr rfl)
  · -- another log: rows, bodies and the record of this one stay
    have hknown : ∀ y ∈ w.app.applied, y.1 = id → y.2 = ev :=
      fun y hy hid => (Option.some.inj (hself y hy hid)).symm
    have hsame : ∀ y ∈ w.stream.entries, y.1 = id → y.2 = some ev := fun y hy hid =>
      congrArg Prod.snd (hpage.same (id, some ev) (List.mem_cons_self ..) y hy hid)
    have hbound := hpage.bounded (id, some ev) (List.mem_cons_self ..)
    have hframe : (applyLogEvent logs x.fault ev w.app.server).1.rows.get k
          = w.app.server.rows.get k ∧
        (applyLogEvent logs x.fault ev w.app.server).1.bodies k = w.app.server.bodies k :=
      applyLogEvent_frame (Ne.symm hkey)
    obtain ⟨hrow, hbody⟩ := hframe
    have hother : ∀ ev', some ev = some ev' → ev'.key = k → Applied w' id := by
      intro ev' hev hkey'
      exact absurd (Option.some.inj hev ▸ hkey') hkey
    rcases applyAndCommit_cases logs x id ev w.app with heq | ⟨ok', applied, -, heq⟩
    · rw [hrun] at heq
      obtain ⟨-, rfl⟩ := Prod.mk.inj heq
      have hrow' : (w.app.rollback id ev
          (applyLogEvent logs x.fault ev w.app.server).1).server.rows.get k
            = w.app.server.rows.get k := rfl
      refine ⟨h.other hkey hbound hsame hknown hrow' hbody (.inl rfl) ?_ hstream happ, fun _ => ?_⟩
      · intro i hi
        unfold LogStore.rollback
        simp only
        split
        · rfl
        · exact Function.update_of_ne hi _ _
      · exact hpage.rest hentries hlast (.inl (by rw [happ]; rfl)) hother
    · rw [hrun] at heq
      obtain ⟨-, rfl⟩ := Prod.mk.inj heq
      have happlied : ((w.app.commit id ev (applyLogEvent logs x.fault ev w.app.server).1).applied
          = w.app.applied) ∨
          (w.app.commit id ev (applyLogEvent logs x.fault ev w.app.server).1).applied
            = w.app.applied ++ [(id, ev)] := by
        by_cases hfirst : Applied w id
        · exact .inl (if_pos hfirst)
        · exact .inr (if_neg hfirst)
      refine ⟨h.other hkey hbound hsame hknown hrow hbody happlied (fun _ _ => rfl) hstream happ,
        fun _ => hpage.rest hentries hlast ?_ hother⟩
      rcases happlied with heq | heq
      · exact .inl (by rw [happ]; exact heq)
      · exact .inr ⟨ev, rfl, by rw [happ]; exact heq⟩

end Pages

/-! ### The consumer's program -/

section Program

variable {k : LogKey} {cfg : ConsumerConfig} {logs : LogsSettings}

/-- The contract of the consumer: the others only add to the stream what comes
later, and its own operations keep the invariant. -/
abbrev orderContract (cfg : ConsumerConfig) (logs : LogsSettings) (k : LogKey) :=
  Sys.contract (pagesInOrder cfg logs k) (Inv k) (Rely k) (fun _ w' => Inv k w')
    (fun {_ _ _} h h' => Rely.trans h h')

abbrev Keeps (cfg : ConsumerConfig) (logs : LogsSettings) (k : LogKey) {α : Type}
    (p : ConsumerProg (Option AgentLogEvent) α)
    (Q : Except ConsumerError α → World → Prop) (w : World) : Prop :=
  p.Safe { perform := ConsumerOp.perform cfg (logModel logs) } (orderContract cfg logs k) Q w

/-- Only the state of the stream's group has changed. -/
theorem inv_stream {w : World} (h : Inv k w) {stream : RedisStream (Option AgentLogEvent)}
    (hentries : stream.entries = w.stream.entries) (hlast : stream.lastId = w.stream.lastId) :
    Inv k { w with stream := stream } := h.congr hentries hlast rfl

theorem ensureGroup_keeps (w : World) :
    Keeps cfg logs k (ConsumerOp.call .ensureGroup) (fun _ _ => True) w := by
  refine Prog.safe_call.mpr fun w₁ _ x r w₂ hok hp => ⟨?_, trivial⟩
  refine Prog.withFault_rel (R := fun _ w' => Inv k w') hok.2 ?_ hp
  exact inv_stream hok.2 rfl rfl

theorem xack_keeps {id : Nat} {page : List (Nat × Option AgentLogEvent)} {w : World}
    (hpage : PageOk k page w) :
    Keeps cfg logs k (ConsumerOp.call (.xack id)) (fun _ => PageOk k page) w := by
  refine Prog.safe_call.mpr fun w₁ hrely x r w₂ hok hp => ?_
  have hpage₁ := hpage.stable hrely
  have hmoved : PageOk k page { w₁ with stream := w₁.stream.xack id } := by
    refine ⟨hpage₁.sorted, hpage₁.bounded, hpage₁.same, hpage₁.known, hpage₁.held, hpage₁.covers⟩
  refine Prog.withFault_rel (R := fun _ w' => Inv k w' ∧ PageOk k page w') ⟨hok.2, hpage₁⟩ ?_ hp
  exact ⟨inv_stream hok.2 rfl rfl, hmoved⟩

/-- The session at the first entry of a page. -/
theorem handle_keeps {id : Nat} {ev : AgentLogEvent} {page : List (Nat × Option AgentLogEvent)}
    {w : World} (hpage : PageOk k ((id, some ev) :: page) w) :
    Keeps cfg logs k (ConsumerOp.call (.handle id (some ev)))
      (fun r w' => match r with | .ok _ => PageOk k page w' | .error _ => True) w := by
  refine Prog.safe_call.mpr fun w₁ hrely x r w₂ hok hp => ?_
  simp only [ConsumerOp.perform] at hp
  rcases hrun : (logModel logs).handle x.app id (some ev) w₁.app with ⟨ok, app⟩
  rw [hrun] at hp
  have hadm : ev.key = k → ¬ Applied w₁ id → Admits logs w₁.app.server ev := hok.1
  cases ok with
  | true =>
      cases hp
      have hkeeps : Inv k { w₁ with app := app, processed := w₁.processed ++ [id] } ∧
          (true = true → PageOk k page { w₁ with app := app, processed := w₁.processed ++ [id] }) :=
        session_keeps hok.2 (hpage.stable hrely) hadm hrun rfl rfl
      exact ⟨hkeeps.1, hkeeps.2 rfl⟩
  | false =>
      cases hp
      have hkeeps : Inv k { w₁ with app := app } ∧
          (false = true → PageOk k page { w₁ with app := app }) :=
        session_keeps hok.2 (hpage.stable hrely) hadm hrun rfl rfl
      exact ⟨hkeeps.1, trivial⟩

theorem handlePage_keeps (page : List (Nat × Option AgentLogEvent)) {w : World}
    (hpage : PageOk k page w) :
    Keeps cfg logs k (handlePage LogConsumer.applyOne page) (fun _ _ => True) w := by
  induction page generalizing w with
  | nil => trivial
  | cons y rest ih =>
      obtain ⟨id, b⟩ := y
      refine Prog.safe_bind.mpr (Prog.safe_call.mpr fun w₁ hrely x r w₂ hok hp => ?_)
      cases hp
      have hpage₁ := hpage.stable hrely
      have hinv : Inv k { w₁ with handed := w₁.handed ++ [id], mine := w₁.mine ++ [id] } :=
        hok.2.congr rfl rfl rfl
      have hpage₂ : PageOk k ((id, b) :: rest)
          { w₁ with handed := w₁.handed ++ [id], mine := w₁.mine ++ [id] } :=
        ⟨hpage₁.sorted, hpage₁.bounded, hpage₁.same, hpage₁.known, hpage₁.held, hpage₁.covers⟩
      refine ⟨hinv, Prog.safe_bind.mpr ?_⟩
      cases b with
      | none => trivial
      | some ev =>
          refine Prog.safe_bind.mpr ((handle_keeps hpage₂).mono fun r w' hr => ?_)
          cases r with
          | error e => trivial
          | ok _ =>
              refine (xack_keeps hr).mono fun r w'' hr' => ?_
              cases r with
              | error e => trivial
              | ok _ => exact ih hr'

theorem claimPages_keeps (n from_ : Nat) (w : World) :
    Keeps cfg logs k (claimPages LogConsumer.applyOne n from_) (fun _ _ => True) w := by
  induction n generalizing from_ w with
  | zero => trivial
  | succ n ih =>
      refine Prog.safe_bind.mpr (Prog.safe_call.mpr fun w₁ _ x r w₂ hok hp => ?_)
      obtain ⟨hcond, hinv⟩ := hok
      simp only [ConsumerOp.perform] at hp
      simp only [pagesInOrder] at hcond
      split at hp
      · cases hp
        exact ⟨hinv, trivial⟩
      · rename_i page stream hclaim
        rw [hclaim] at hcond
        obtain ⟨hentries, -, -⟩ := RedisStream.xautoclaim_news hclaim
        obtain ⟨-, hlast, -⟩ := RedisStream.xautoclaim_frame hclaim
        have hinv₂ : Inv k { w₁ with stream := stream } := inv_stream hinv hentries hlast
        rcases Prog.withFault_cases hp with ⟨hfault, rfl, rfl⟩ | ⟨-, rfl, rfl⟩ | ⟨-, rfl, rfl⟩
        · refine ⟨hinv₂, Prog.safe_bind.mpr ?_⟩
          have hpage : PageOk k page.2 w₁ := PageOk.of_stream hinv
            (RedisStream.xautoclaim_sorted hclaim) (RedisStream.mem_entries_of_xautoclaim hclaim)
            (hcond hfault)
          have hpage₂ : PageOk k page.2 { w₁ with stream := stream } :=
            hpage.congr hentries hlast rfl
          refine (handlePage_keeps page.2 hpage₂).mono fun r w' _ => ?_
          cases r with
          | error e => trivial
          | ok _ =>
              show Keeps cfg logs k (if page.2 = [] ∨ page.1 = 0 then .ret ()
                else claimPages LogConsumer.applyOne n page.1) (fun _ _ => True) w'
              split
              · trivial
              · exact ih page.1 w'
        · exact ⟨hinv, trivial⟩
        · exact ⟨hinv₂, trivial⟩

theorem drainOnce_keeps (w : World) :
    Keeps cfg logs k (drainOnce LogConsumer.applyOne true) (fun _ _ => True) w := by
  refine Prog.safe_bind.mpr ((claimPages_keeps 1000 0 w).mono fun r w' _ => ?_)
  cases r with
  | error e => trivial
  | ok _ =>
      refine Prog.safe_bind.mpr (Prog.safe_call.mpr fun w₁ _ x r w₂ hok hp => ?_)
      obtain ⟨hcond, hinv⟩ := hok
      simp only [ConsumerOp.perform] at hp
      simp only [pagesInOrder] at hcond
      split at hp
      · cases hp
        exact ⟨hinv, trivial⟩
      · rename_i page stream hread
        rw [hread] at hcond
        obtain ⟨hentries, -, -⟩ := RedisStream.xreadgroup_news hread
        obtain ⟨hlast, -⟩ := RedisStream.xreadgroup_frame hread
        obtain ⟨rfl, -⟩ := RedisStream.xreadgroup_page hread
        have hinv₂ : Inv k { w₁ with stream := stream } := inv_stream hinv hentries hlast
        rcases Prog.withFault_cases hp with ⟨hfault, rfl, rfl⟩ | ⟨-, rfl, rfl⟩ | ⟨-, rfl, rfl⟩
        · refine ⟨hinv₂, ?_⟩
          have hsub := (List.take_sublist cfg.batch _).trans w₁.stream.news_sublist
          have hpage : PageOk k (w₁.stream.nextPage cfg.batch) w₁ :=
            PageOk.of_stream hinv (w₁.stream.sorted.sublist hsub) (fun y hy => hsub.subset hy)
              (hcond hfault)
          have hpage₂ : PageOk k (w₁.stream.nextPage cfg.batch) { w₁ with stream := stream } :=
            hpage.congr hentries hlast rfl
          exact handlePage_keeps _ hpage₂
        · exact ⟨hinv, trivial⟩
        · exact ⟨hinv₂, trivial⟩

theorem guarded_keeps {p : ConsumerProg (Option AgentLogEvent) Unit} {w : World}
    (hp : Keeps cfg logs k p (fun _ _ => True) w) :
    Keeps cfg logs k (guarded p) (fun _ _ => True) w := by
  refine Prog.safe_tryCatch.mpr (hp.mono fun r w' _ => ?_)
  cases r with
  | ok _ => trivial
  | error e => trivial

theorem boot_keeps (w : World) :
    Keeps cfg logs k LogConsumer.boot (fun _ _ => True) w := by
  refine Prog.safe_bind.mpr ((guarded_keeps (ensureGroup_keeps w)).mono fun r w' _ => ?_)
  cases r with
  | error e => trivial
  | ok _ =>
      refine Prog.safe_call.mpr fun w₁ _ x r w₂ hok hp => ?_
      cases hp
      exact ⟨hok.2.congr rfl rfl rfl, trivial⟩

end Program

/-! ### Runs -/

/-- The consumer keeps every log in order in the runs whose pages are. -/
def verified (cfg : ConsumerConfig) (logs : LogsSettings) (k : LogKey) :
    Sys.Verified (spec cfg logs) (pagesInOrder cfg logs k) where
  Inv := Inv k
  Idle _ _ := True
  rely _ := Rely k
  guar _ _ w' := Inv k w'
  rely_refl _ := Rely.refl
  rely_trans _ := fun h h' => Rely.trans h h'
  env_step w m w' hinv hm h := by
    obtain rfl := Option.some.inj h
    obtain ⟨hinv', hrely⟩ := hinv.move m hm
    exact ⟨hinv', fun _ => hrely⟩
  launch_safe w i inp p hinv _ _ hp := by
    obtain rfl := Option.some.inj hp
    show Keeps cfg logs k (if w.looping then LogConsumer.iterate else LogConsumer.boot)
      (fun _ _ => True) w
    split
    · exact guarded_keeps (drainOnce_keeps w)
    · exact boot_keeps w
  guar_step i w w' _ h := ⟨h, fun j hj => absurd rfl hj⟩
  idle_stable _ _ _ _ _ := trivial
  crash_step w hinv _ := ⟨hinv.congr rfl rfl rfl, fun _ => trivial⟩

/-- Where the stream has no hole, a log in order is the concatenation of its increments. -/
theorem InOrder.concatenated {k : LogKey} {w : World} (h : InOrder k w)
    (hjoined : JoinedFrom 0 (slices (history k w))) : Concatenated k w := by
  have happlied : JoinedFrom start.next (slices (appliedTo k w)) := by
    unfold history at hjoined
    rw [slices_append] at hjoined
    exact joinedFrom_append hjoined
  obtain ⟨hgaps, hpieces⟩ := assemble_joined gapMarker happlied
  have hbody : w.app.server.bodies k =
      (appliedTo k w).flatMap (fun x => (w.app.torn x.1).flatten ++ (sliceOf x.2).data)
        ++ ((outstanding k w).head?.map fun x => (w.app.torn x.1).flatten).getD [] := by
    rw [h.body]
    unfold bodyOf
    rw [hpieces]
    unfold slices
    rw [List.map_map, List.zipWith_map_right, List.zipWith_self]
    rfl
  refine ⟨fun f hf => ?_, fun x hx r hr => ?_, hbody, fun hwhole => ?_⟩
  · obtain ⟨f', hf', -, hcount⟩ := h.row
    rw [hf] at hf'
    obtain rfl := Option.some.inj hf'
    exact hcount.trans hgaps
  · obtain ⟨n, hn⟩ := List.mem_iff_getElem?.mp hx
    have hstart := h.starts n x hn r hr
    obtain ⟨hlt, hget⟩ := List.getElem?_eq_some_iff.mp hn
    have hsplit : history k w
        = (history k w).take n ++ x :: (history k w).drop (n + 1) := by
      rw [← hget, List.getElem_cons_drop, List.take_append_drop]
    rw [hsplit, slices_append] at hjoined
    rw [piece_joined gapMarker (a := start) hjoined] at hstart
    exact hstart
  · rw [hbody]
    have hhead : ((outstanding k w).head?.map fun x => (w.app.torn x.1).flatten).getD [] = [] := by
      rcases hout : outstanding k w with - | ⟨x, rest⟩
      · rfl
      · have hmem : x ∈ history k w := List.mem_append_right _ (hout ▸ List.mem_cons_self ..)
        simp [hwhole x hmem]
    rw [hhead, List.append_nil]
    refine List.flatMap_congr fun x hx => ?_
    rw [hwhole x (List.mem_append_left _ hx)]
    rfl

theorem Initial.good {k : LogKey} {s : State} (h : Initial k s) (cfg : ConsumerConfig)
    (logs : LogsSettings) : (verified cfg logs k).Good s := by
  have hto : appliedTo k s.world = [] := by
    unfold appliedTo
    rw [h.applied]
    rfl
  have hout : outstanding k s.world = [] := by
    unfold outstanding
    rw [h.stream]
    rfl
  have hhist : history k s.world = [] := by
    unfold history
    rw [hto, hout]
    rfl
  refine ⟨{ order := ?_, row := ⟨{}, h.row, ?_, ?_⟩, body := ?_, starts := ?_, decodes := ?_
            recorded := ?_, untouched := ?_, fresh := ?_ }, fun i => ?_⟩
  · rw [hhist]
    exact .nil
  · rw [hto]
    rfl
  · rw [hto]
    rfl
  · rw [hto, hout, h.body]
    rfl
  · intro n x hx
    rw [hhist] at hx
    cases hx
  · intro x hx
    rw [hhist] at hx
    cases hx
  · intro x hx
    rw [h.applied] at hx
    cases hx
  · intro x hx
    rw [hout] at hx
    cases hx
  · intro id _
    rw [h.torn]
  · show (verified cfg logs k).ProcOk i _ (s.procs i)
    rw [h.idle]
    trivial

/-! ### A sample log -/

def sampleConfig : ConsumerConfig where
  batch := 2
  batch_pos := Nat.zero_lt_two
  pendingIdleMs := 5

/-- No limit on the size of a log. -/
def sampleLogs : LogsSettings where
  maxFileBytes := 0
  maxTotalBytes := 0

def sampleKey : LogKey := ⟨3, 7, .log⟩

/-- The log file of execution 7 of task 3 was just created. -/
def sampleStart : State where
  world :=
    { stream := .empty
      now := 0
      app :=
        { server := { rows := Table.empty.insert sampleKey {}, bodies := fun _ => [], gauge := none }
          applied := []
          torn := fun _ => [] }
      handed := []
      mine := []
      processed := []
      looping := false }
  procs := fun _ => none

/-- Two bytes of the log, at an offset. -/
def increment (offset : Nat) (a b : UInt8) : Step :=
  .env (.xadd (some
    { agentId := 1
      taskId := 3
      executionId := 7
      offset := offset
      contentB64 := some [a, b]
      sizeBytes := 2 }))

/-- The next `n` operations of the consumer succeed. -/
def steps (n : Nat) : List Step := List.replicate n (.op () fun _ => { app := {} })

/-- The consumer is started and then in its loop. -/
def booted : List Step := .start () () :: steps 2

/-- A session whose commit fails. -/
def lostCommit : Step := .op () fun _ => { app := { commit := .before } }

/-- A session that raises before it writes. -/
def lostApply : Step := .op () fun _ => { app := { fault := .lookup } }

/-- An `XACK` that raises. -/
def lostAck : Step := .op () fun _ => { fault := .before, app := {} }

theorem sampleStart_initial : Initial sampleKey sampleStart :=
  ⟨rfl, rfl, rfl, rfl, rfl, rfl⟩

/-! ### Log order -/

/-- **Log order under consumer failures.**  In every run whose pages hold, with
an increment of a log, the older outstanding ones, the increments take effect in
the order of the stream whatever attempts, commits and acknowledgements fail. -/
theorem order_kept {cfg : ConsumerConfig} {logs : LogsSettings} {k : LogKey} {s s' : State}
    (hinit : Initial k s)
    (hrun : RunOk (Sys.step (spec cfg logs)) (pagesInOrder cfg logs k).Holds s s') :
    OrderKept k s'.world := by
  have hinv := ((verified cfg logs k).run hrun (hinit.good cfg logs)).1.toInOrder
  exact ⟨hinv, hinv.concatenated⟩

/-- A run in which a commit and an acknowledgement fail and both increments come again. -/
theorem order_kept_sample :
    ∃ s' : State, OrderKept sampleKey s'.world ∧ Settled sampleKey s'.world ∧
      s'.world.app.server.bodies sampleKey = [1, 2, 1, 2, 3, 4] := by
  obtain ⟨s', hrun, hs'⟩ := RunOk.exists_of_checkedRun (Sys.step (spec sampleConfig sampleLogs))
    (pagesInOrder sampleConfig sampleLogs sampleKey).Holds sampleStart
    (increment 0 1 2 :: increment 2 3 4 :: booted
      ++ .start () () :: steps 3 ++ lostCommit :: [.env (.tick 9), .start () ()]
      ++ steps 3 ++ lostAck :: [.env (.tick 9), .start () ()] ++ steps 8)
    (fun s' : State => decide (Settled sampleKey s'.world ∧
      s'.world.app.server.bodies sampleKey = [1, 2, 1, 2, 3, 4])) (by decide)
  obtain ⟨hsettled, hbody⟩ := of_decide_eq_true hs'
  exact ⟨s', order_kept sampleStart_initial hrun, hsettled, hbody⟩

/-- The body is the concatenation of the increments and the row has no gap. -/
def Exact (k : LogKey) (w : World) : Prop :=
  (w.app.server.rows.get k).map ExecutionLogFile.gapCount = some 0 ∧
    w.app.server.bodies k = (appliedTo k w).flatMap fun x => (sliceOf x.2).data

instance (k : LogKey) (w : World) : Decidable (Exact k w) := by
  unfold Exact
  infer_instance

/-- A log of at most one byte. -/
def tinyLogs : LogsSettings where
  maxFileBytes := 1
  maxTotalBytes := 0

/-- A run from the sample log ends in a state with `P`, everything applied and
acknowledged. -/
def Reaches (logs : LogsSettings) (P : World → Prop) : Prop :=
  ∃ s' : State, RunOk (Sys.step (spec sampleConfig logs)) (assumed sampleKey).Holds sampleStart s' ∧
    Settled sampleKey s'.world ∧ P s'.world

theorem Reaches.of_steps {logs : LogsSettings} {P : World → Prop} [DecidablePred P]
    (l : List Step) (h : (StateMachine.checkedRun (Sys.step (spec sampleConfig logs))
      (assumed sampleKey).Holds sampleStart l).any
        (fun s' => decide (Settled sampleKey s'.world ∧ P s'.world)) = true) : Reaches logs P := by
  obtain ⟨s', hrun, hs'⟩ := RunOk.exists_of_checkedRun _ _ _ _ _ h
  exact ⟨s', hrun, of_decide_eq_true hs'⟩

/-- **What failures and limits do to a log.**  Every entry is applied and
acknowledged in the end, but the log is not the concatenation of its increments:
after a commit that failed, bytes are there twice; a limit cuts the file; and
after an apply that failed, a newer increment is applied before the older ones,
which are then dropped behind a false gap. -/
theorem order_lost :
    Initial sampleKey sampleStart ∧
    Reaches sampleLogs (fun w => ¬ Exact sampleKey w ∧
      w.app.server.bodies sampleKey = [1, 2, 1, 2]) ∧
    Reaches tinyLogs (fun w => ¬ Exact sampleKey w ∧
      w.app.server.bodies sampleKey = [1] ++ truncationMarker 1 .sizeCap) ∧
    Reaches sampleLogs (fun w => ¬ Exact sampleKey w ∧
      w.app.server.bodies sampleKey = gapMarker 0 4 ++ [5, 6]) := by
  refine ⟨sampleStart_initial, Reaches.of_steps ?_ ?_, Reaches.of_steps ?_ ?_,
    Reaches.of_steps ?_ ?_⟩
  · exact increment 0 1 2 :: booted ++ .start () () :: steps 3 ++ lostCommit
      :: [.env (.tick 9), .start () ()] ++ steps 5
  · decide
  · exact increment 0 1 2 :: booted ++ .start () () :: steps 5
  · decide
  · exact increment 0 1 2 :: increment 2 3 4 :: booted
      ++ .start () () :: steps 3 ++ lostApply :: increment 4 5 6 :: .start () () :: steps 5
      ++ [.env (.tick 9), .start () ()] ++ steps 8
  · decide

end LogOrder

end Dopilot
