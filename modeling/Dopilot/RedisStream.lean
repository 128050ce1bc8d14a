/-
Dopilot/RedisStream.lean

A Redis stream with one consumer group, read by one consumer.

The stream is a list of entries with increasing ids.  The group remembers the
last id it handed out and, for every entry handed out and not acknowledged, when
that was (its pending entries list).  `xreadgroup` hands out the next new
entries, `xautoclaim` hands out again pending entries that have been idle for
long enough, page by page, and `xack` forgets an entry.  Reading or claiming
without a group is refused; adding to a deleted stream recreates it without one.

Ids and pending lists are kept sorted by construction.  The lemmas say which
entries a page holds and what becomes of the pending list.
-/
import Mathlib.Data.List.Basic
import Mathlib.Data.List.Nodup
import Mathlib.Data.List.Pairwise
import Mathlib.Data.List.TakeWhile

/-- The state of a consumer group. -/
structure RedisGroup where
  lastDelivered : Nat
  /-- Entries handed out and not acknowledged, with the time of the last hand-out. -/
  pending : List (Nat × Int)
  sorted : pending.Pairwise fun p q => p.1 < q.1
  bounded : ∀ p ∈ pending, p.1 ≤ lastDelivered
  positive : ∀ p ∈ pending, 0 < p.1

/-- A stream and its group, if it has one. -/
structure RedisStream (β : Type) where
  entries : List (Nat × β)
  lastId : Nat
  group : Option RedisGroup
  sorted : entries.Pairwise fun x y => x.1 < y.1
  bounded : ∀ x ∈ entries, x.1 ≤ lastId
  positive : ∀ x ∈ entries, 0 < x.1

/-! ### Groups -/

namespace RedisGroup

/-- A group created at id 0: nothing was handed out. -/
def fresh : RedisGroup where
  lastDelivered := 0
  pending := []
  sorted := .nil
  bounded := by simp
  positive := by simp

/-- The ids of the pending entries. -/
def pendingIds (g : RedisGroup) : List Nat := g.pending.map Prod.fst

/-- `xack`. -/
def ack (g : RedisGroup) (id : Nat) : RedisGroup where
  lastDelivered := g.lastDelivered
  pending := g.pending.filter fun p => p.1 ≠ id
  sorted := g.sorted.filter _
  bounded := fun p hp => g.bounded p ((List.mem_filter.mp hp).1)
  positive := fun p hp => g.positive p ((List.mem_filter.mp hp).1)

@[simp] theorem mem_pendingIds_ack {g : RedisGroup} {id i : Nat} :
    i ∈ (g.ack id).pendingIds ↔ i ∈ g.pendingIds ∧ i ≠ id := by
  simp only [pendingIds, ack, List.mem_map, List.mem_filter, decide_eq_true_eq]
  constructor
  · rintro ⟨p, ⟨hp, hne⟩, rfl⟩
    exact ⟨⟨p, hp, rfl⟩, hne⟩
  · rintro ⟨⟨p, hp, rfl⟩, hne⟩
    exact ⟨p, ⟨hp, hne⟩, rfl⟩

theorem le_foldl_max (n : Nat) (l : List Nat) : n ≤ l.foldl max n := by
  induction l generalizing n with
  | nil => exact Nat.le_refl n
  | cons a l ih => exact Nat.le_trans (Nat.le_max_left n a) (ih _)

theorem mem_le_foldl_max {l : List Nat} {i : Nat} (hi : i ∈ l) (n : Nat) : i ≤ l.foldl max n := by
  induction l generalizing n with
  | nil => cases hi
  | cons a l ih =>
      rcases List.mem_cons.mp hi with rfl | hi'
      · exact Nat.le_trans (Nat.le_max_right n i) (le_foldl_max _ l)
      · exact ih hi' _

/-- Hand out entries that come after everything handed out so far. -/
def deliver (g : RedisGroup) (ids : List Nat) (now : Int)
    (hsorted : ids.Pairwise (· < ·)) (hnew : ∀ i ∈ ids, g.lastDelivered < i) : RedisGroup where
  lastDelivered := ids.foldl max g.lastDelivered
  pending := g.pending ++ ids.map fun i => (i, now)
  sorted := by
    refine List.pairwise_append.mpr ⟨g.sorted, List.pairwise_map.mpr hsorted, ?_⟩
    intro p hp q hq
    obtain ⟨i, hi, rfl⟩ := List.mem_map.mp hq
    exact Nat.lt_of_le_of_lt (g.bounded p hp) (hnew i hi)
  bounded := by
    intro p hp
    rcases List.mem_append.mp hp with hold | hnewp
    · exact Nat.le_trans (g.bounded p hold) (le_foldl_max _ _)
    · obtain ⟨i, hi, rfl⟩ := List.mem_map.mp hnewp
      exact mem_le_foldl_max hi _
  positive := by
    intro p hp
    rcases List.mem_append.mp hp with hold | hnewp
    · exact g.positive p hold
    · obtain ⟨i, hi, rfl⟩ := List.mem_map.mp hnewp
      exact Nat.lt_of_le_of_lt (Nat.zero_le _) (hnew i hi)

end RedisGroup

/-! ### Scanning the pending list -/

namespace RedisStream

variable {β : Type}

/-- A page of claimed entries, the pending list it leaves behind, and where the
next page starts (0 when the scan has reached the end). -/
structure Claim (β : Type) where
  kept : List (Nat × Int)
  claimed : List (Nat × β)
  next : Nat

/-- The scan of `XAUTOCLAIM`: at most `attempts` entries are looked at and at
most `count` of them claimed.  An entry that left the stream is dropped from the
pending list and counts as one of the `count`. -/
def claimScan (lookup : Nat → Option β) (now minIdle : Int) :
    (attempts count : Nat) → List (Nat × Int) → Claim β
  | _, _, [] => ⟨[], [], 0⟩
  | 0, _, p :: rest => ⟨p :: rest, [], p.1⟩
  | _ + 1, 0, p :: rest => ⟨p :: rest, [], p.1⟩
  | attempts + 1, count + 1, p :: rest =>
      match lookup p.1 with
      | none => claimScan lookup now minIdle attempts count rest
      | some b =>
          if now - p.2 < minIdle then
            let c := claimScan lookup now minIdle attempts (count + 1) rest
            { c with kept := p :: c.kept }
          else
            let c := claimScan lookup now minIdle attempts count rest
            { c with kept := (p.1, now) :: c.kept, claimed := (p.1, b) :: c.claimed }

/-- The ids a scan keeps are among the pending ones, in their order. -/
theorem claimScan_kept_sublist (lookup : Nat → Option β) (now minIdle : Int)
    (attempts count : Nat) (l : List (Nat × Int)) :
    ((claimScan lookup now minIdle attempts count l).kept.map Prod.fst).Sublist
      (l.map Prod.fst) := by
  fun_induction claimScan lookup now minIdle attempts count l with
  | case1 => exact List.Sublist.refl _
  | case2 => exact List.Sublist.refl _
  | case3 => exact List.Sublist.refl _
  | case4 attempts count p rest hlook ih => exact ih.cons _
  | case5 attempts count p rest b hlook hidle c ih => exact ih.cons_cons _
  | case6 attempts count p rest b hlook hidle c ih => exact ih.cons_cons _

/-- What is claimed is among what is kept, in its order. -/
theorem claimScan_claimed_sublist (lookup : Nat → Option β) (now minIdle : Int)
    (attempts count : Nat) (l : List (Nat × Int)) :
    ((claimScan lookup now minIdle attempts count l).claimed.map Prod.fst).Sublist
      ((claimScan lookup now minIdle attempts count l).kept.map Prod.fst) := by
  fun_induction claimScan lookup now minIdle attempts count l with
  | case1 => exact List.Sublist.refl _
  | case2 => exact List.nil_sublist _
  | case3 => exact List.nil_sublist _
  | case4 attempts count p rest hlook ih => exact ih
  | case5 attempts count p rest b hlook hidle c ih => exact ih.cons _
  | case6 attempts count p rest b hlook hidle c ih => exact ih.cons_cons _

/-- A claimed entry is the stream's. -/
theorem claimScan_claimed_lookup (lookup : Nat → Option β) (now minIdle : Int)
    (attempts count : Nat) (l : List (Nat × Int)) :
    ∀ x ∈ (claimScan lookup now minIdle attempts count l).claimed, lookup x.1 = some x.2 := by
  fun_induction claimScan lookup now minIdle attempts count l with
  | case1 => simp
  | case2 => simp
  | case3 => simp
  | case4 attempts count p rest hlook ih => exact ih
  | case5 attempts count p rest b hlook hidle c ih => exact ih
  | case6 attempts count p rest b hlook hidle c ih =>
      intro x hx
      rcases List.mem_cons.mp hx with rfl | hx'
      · exact hlook
      · exact ih x hx'

/-- Where every entry is there and idle, a page is the first `count` entries. -/
theorem claimScan_all_idle {lookup : Nat → Option β} {now minIdle : Int} {attempts count : Nat}
    {l : List (Nat × Int)} (hcount : count ≤ attempts)
    (hall : ∀ p ∈ l, (lookup p.1).isSome ∧ minIdle ≤ now - p.2) :
    (claimScan lookup now minIdle attempts count l).claimed.map Prod.fst
        = (l.take count).map Prod.fst ∧
      (claimScan lookup now minIdle attempts count l).next
        = ((l.drop count).head?.map Prod.fst).getD 0 ∧
      (claimScan lookup now minIdle attempts count l).kept.map Prod.fst = l.map Prod.fst := by
  fun_induction claimScan lookup now minIdle attempts count l with
  | case1 => simp
  | case2 count p rest =>
      obtain rfl : count = 0 := by omega
      simp
  | case3 => simp
  | case4 attempts count p rest hlook ih =>
      have hp := (hall p (List.mem_cons_self ..)).1
      rw [hlook] at hp
      cases hp
  | case5 attempts count p rest b hlook hidle c ih =>
      have hp := (hall p (List.mem_cons_self ..)).2
      omega
  | case6 attempts count p rest b hlook hidle c ih =>
      obtain ⟨hclaimed, hnext, hkept⟩ := ih (by omega) fun q hq =>
        hall q (List.mem_cons_of_mem _ hq)
      refine ⟨?_, ?_, ?_⟩
      · simpa using hclaimed
      · simpa using hnext
      · simpa using hkept

/-- What a scan leaves pending once its page is acknowledged was pending before,
with the time of its last hand-out unchanged. -/
theorem claimScan_acked_sublist (lookup : Nat → Option β) (now minIdle : Int)
    (attempts count : Nat) (l : List (Nat × Int)) (hsorted : l.Pairwise fun p q => p.1 < q.1) :
    ((claimScan lookup now minIdle attempts count l).kept.filter fun p =>
      p.1 ∉ (claimScan lookup now minIdle attempts count l).claimed.map Prod.fst).Sublist l := by
  fun_induction claimScan lookup now minIdle attempts count l with
  | case1 => exact List.Sublist.refl _
  | case2 => exact List.filter_sublist
  | case3 => exact List.filter_sublist
  | case4 attempts count p rest hlook ih => exact (ih (List.pairwise_cons.mp hsorted).2).cons _
  | case5 attempts count p rest b hlook hidle c ih =>
      have hrest := ih (List.pairwise_cons.mp hsorted).2
      rw [List.filter_cons]
      split
      · exact hrest.cons_cons p
      · exact hrest.cons p
  | case6 attempts count p rest b hlook hidle c ih =>
      have hrest := ih (List.pairwise_cons.mp hsorted).2
      rw [List.filter_cons_of_neg (by simp)]
      refine (List.Sublist.trans ?_ hrest).cons p
      refine List.monotone_filter_right _ fun q hq => ?_
      have hq' : q.1 ∉ p.1 :: c.claimed.map Prod.fst := of_decide_eq_true hq
      exact decide_eq_true fun hmem => hq' (List.mem_cons_of_mem _ hmem)

/-- A scan sets no time but the present one. -/
theorem claimScan_times (lookup : Nat → Option β) (now minIdle : Int)
    (attempts count : Nat) (l : List (Nat × Int)) :
    ∀ p ∈ (claimScan lookup now minIdle attempts count l).kept, p ∈ l ∨ p.2 = now := by
  fun_induction claimScan lookup now minIdle attempts count l with
  | case1 => simp
  | case2 => exact fun p hp => .inl hp
  | case3 => exact fun p hp => .inl hp
  | case4 attempts count p rest hlook ih =>
      exact fun q hq => (ih q hq).imp_left (List.mem_cons_of_mem _)
  | case5 attempts count p rest b hlook hidle c ih =>
      intro q hq
      rcases List.mem_cons.mp hq with rfl | hq'
      · exact .inl (List.mem_cons_self ..)
      · exact (ih q hq').imp_left (List.mem_cons_of_mem _)
  | case6 attempts count p rest b hlook hidle c ih =>
      intro q hq
      rcases List.mem_cons.mp hq with rfl | hq'
      · exact .inr rfl
      · exact (ih q hq').imp_left (List.mem_cons_of_mem _)

/-- A scan drops only what has left the stream. -/
theorem claimScan_covers (lookup : Nat → Option β) (now minIdle : Int)
    (attempts count : Nat) (l : List (Nat × Int)) :
    ∀ p ∈ l, p.1 ∈ (claimScan lookup now minIdle attempts count l).kept.map Prod.fst ∨
      lookup p.1 = none := by
  fun_induction claimScan lookup now minIdle attempts count l with
  | case1 => simp
  | case2 attempts p rest =>
      exact fun q hq => .inl (List.mem_map_of_mem hq)
  | case3 attempts p rest =>
      exact fun q hq => .inl (List.mem_map_of_mem hq)
  | case4 attempts count p rest hlook ih =>
      intro q hq
      rcases List.mem_cons.mp hq with rfl | hq'
      · exact .inr hlook
      · exact ih q hq'
  | case5 attempts count p rest b hlook hidle c ih =>
      intro q hq
      rcases List.mem_cons.mp hq with rfl | hq'
      · exact .inl (List.mem_cons_self ..)
      · exact (ih q hq').imp_left (List.mem_cons_of_mem _)
  | case6 attempts count p rest b hlook hidle c ih =>
      intro q hq
      rcases List.mem_cons.mp hq with rfl | hq'
      · exact .inl (List.mem_cons_self ..)
      · exact (ih q hq').imp_left (List.mem_cons_of_mem _)

/-- Acknowledging the page of a scan whose first entry is idle gets on. -/
theorem claimScan_acked_length {lookup : Nat → Option β} {now minIdle : Int}
    {attempts count : Nat} {p : Nat × Int} {rest : List (Nat × Int)}
    (hsorted : (p :: rest).Pairwise fun p q => p.1 < q.1) (hidle : minIdle ≤ now - p.2) :
    ((claimScan lookup now minIdle (attempts + 1) (count + 1) (p :: rest)).kept.filter fun q =>
      q.1 ∉ (claimScan lookup now minIdle (attempts + 1) (count + 1) (p :: rest)).claimed.map
        Prod.fst).length ≤ rest.length := by
  have hrest := (List.pairwise_cons.mp hsorted).2
  have hidle' : ¬ now - p.2 < minIdle := by omega
  rcases hlook : lookup p.1 with - | b
  · simp only [claimScan, hlook]
    exact (claimScan_acked_sublist lookup now minIdle attempts count rest hrest).length_le
  · simp only [claimScan, hlook, if_neg hidle', List.map_cons]
    rw [List.filter_cons_of_neg (by simp)]
    refine (List.Sublist.trans ?_
      (claimScan_acked_sublist lookup now minIdle attempts count rest hrest)).length_le
    refine List.monotone_filter_right _ fun q hq => ?_
    have hq' : q.1 ∉ p.1 :: _ := of_decide_eq_true hq
    exact decide_eq_true fun hmem => hq' (List.mem_cons_of_mem _ hmem)

/-! ### Commands -/

/-- The stream before its first entry. -/
def empty : RedisStream β where
  entries := []
  lastId := 0
  group := none
  sorted := .nil
  bounded := by simp
  positive := by simp

/-- The entry with an id, if the stream still holds it. -/
def lookup (s : RedisStream β) (id : Nat) : Option β :=
  (s.entries.find? fun x => x.1 = id).map Prod.snd

/-- `XADD`: recreates a deleted stream, but not its group. -/
def xadd (s : RedisStream β) (b : β) : RedisStream β where
  entries := s.entries ++ [(s.lastId + 1, b)]
  lastId := s.lastId + 1
  group := s.group
  sorted := by
    refine List.pairwise_append.mpr ⟨s.sorted, List.pairwise_singleton .., ?_⟩
    intro x hx y hy
    obtain rfl := List.mem_singleton.mp hy
    exact Nat.lt_succ_of_le (s.bounded x hx)
  bounded := by
    intro x hx
    rcases List.mem_append.mp hx with hold | hnew
    · exact Nat.le_succ_of_le (s.bounded x hold)
    · obtain rfl := List.mem_singleton.mp hnew
      exact Nat.le_refl _
  positive := by
    intro x hx
    rcases List.mem_append.mp hx with hold | hnew
    · exact s.positive x hold
    · obtain rfl := List.mem_singleton.mp hnew
      exact Nat.succ_pos _

/-- The stream is deleted, and its group with it. -/
def delete (s : RedisStream β) : RedisStream β where
  entries := []
  lastId := s.lastId
  group := none
  sorted := .nil
  bounded := by simp
  positive := by simp

/-- The oldest `n` entries are trimmed; the group keeps them pending. -/
def trim (s : RedisStream β) (n : Nat) : RedisStream β where
  entries := s.entries.drop n
  lastId := s.lastId
  group := s.group
  sorted := s.sorted.sublist (List.drop_sublist n _)
  bounded := fun x hx => s.bounded x (List.mem_of_mem_drop hx)
  positive := fun x hx => s.positive x (List.mem_of_mem_drop hx)

/-- `XGROUP CREATE ... 0 MKSTREAM`, an existing group left alone. -/
def ensureGroup (s : RedisStream β) : RedisStream β :=
  { s with group := some (s.group.getD .fresh) }

/-- The next new entries for a group. -/
def unread (s : RedisStream β) (g : RedisGroup) (count : Nat) : List (Nat × β) :=
  (s.entries.filter fun x => g.lastDelivered < x.1).take count

theorem unread_sublist (s : RedisStream β) (g : RedisGroup) (count : Nat) :
    (s.unread g count).Sublist s.entries :=
  (List.take_sublist _ _).trans List.filter_sublist

/-- The group after the next new entries were handed out. -/
def deliverTo (s : RedisStream β) (g : RedisGroup) (now : Int) (count : Nat) : RedisGroup :=
  g.deliver ((s.unread g count).map Prod.fst) now
    (List.pairwise_map.mpr (s.sorted.sublist (s.unread_sublist g count)))
    (by
      intro i hi
      obtain ⟨x, hx, rfl⟩ := List.mem_map.mp hi
      simpa using (List.mem_filter.mp (List.mem_of_mem_take hx)).2)

/-- `XREADGROUP ... >`; `none` without a group. -/
def xreadgroup (s : RedisStream β) (now : Int) (count : Nat) :
    Option (List (Nat × β) × RedisStream β) :=
  s.group.map fun g => (s.unread g count, { s with group := some (s.deliverTo g now count) })

/-- `XACK`; nothing to do without a group. -/
def xack (s : RedisStream β) (id : Nat) : RedisStream β :=
  { s with group := s.group.map (·.ack id) }

/-- The pending entries of the group, none without one. -/
def pending (s : RedisStream β) : List (Nat × Int) := (s.group.map (·.pending)).getD []

/-- The pending entries from an id on. -/
def pendingFrom (s : RedisStream β) (start : Nat) : List (Nat × Int) :=
  s.pending.filter fun p => start ≤ p.1

/-- The entries the group was not handed yet, none without a group. -/
def news (s : RedisStream β) : List (Nat × β) :=
  (s.group.map fun g => s.entries.filter fun x => g.lastDelivered < x.1).getD []

/-- The new entries the next read hands out. -/
def nextPage (s : RedisStream β) (count : Nat) : List (Nat × β) := s.news.take count

/-- Entries acknowledged one after the other. -/
def ackAll (s : RedisStream β) (ids : List Nat) : RedisStream β := ids.foldl xack s

/-- The scan of a group's pending entries from an id on. -/
def scan (s : RedisStream β) (g : RedisGroup) (now minIdle : Int) (start count : Nat) : Claim β :=
  claimScan s.lookup now minIdle (count * 10) count (g.pending.dropWhile fun p => p.1 < start)

/-- The pending list after a scan. -/
def pendingAfter (s : RedisStream β) (g : RedisGroup) (now minIdle : Int) (start count : Nat) :
    List (Nat × Int) :=
  (g.pending.takeWhile fun p => p.1 < start) ++ (s.scan g now minIdle start count).kept

/-- A scan can only drop ids from the pending list. -/
theorem pendingAfter_sublist (s : RedisStream β) (g : RedisGroup) (now minIdle : Int)
    (start count : Nat) :
    ((s.pendingAfter g now minIdle start count).map Prod.fst).Sublist g.pendingIds := by
  have hscan := claimScan_kept_sublist s.lookup now minIdle (count * 10) count
    (g.pending.dropWhile fun p => p.1 < start)
  have happ := (List.Sublist.refl
    ((g.pending.takeWhile fun p => p.1 < start).map Prod.fst)).append hscan
  rw [← List.map_append, ← List.map_append, List.takeWhile_append_dropWhile] at happ
  exact happ

/-- The group after a scan. -/
def claimFrom (s : RedisStream β) (g : RedisGroup) (now minIdle : Int) (start count : Nat) :
    RedisGroup where
  lastDelivered := g.lastDelivered
  pending := s.pendingAfter g now minIdle start count
  sorted := List.pairwise_map.mp
    ((List.pairwise_map.mpr g.sorted).sublist (s.pendingAfter_sublist g now minIdle start count))
  bounded := by
    intro p hp
    obtain ⟨q, hq, hqp⟩ := List.mem_map.mp ((s.pendingAfter_sublist g now minIdle start count).subset
      (List.mem_map.mpr ⟨p, hp, rfl⟩))
    exact hqp ▸ g.bounded q hq
  positive := by
    intro p hp
    obtain ⟨q, hq, hqp⟩ := List.mem_map.mp ((s.pendingAfter_sublist g now minIdle start count).subset
      (List.mem_map.mpr ⟨p, hp, rfl⟩))
    exact hqp ▸ g.positive q hq

/-- `XAUTOCLAIM`: the claimed page and where the next one starts; `none` without
a group. -/
def xautoclaim (s : RedisStream β) (now minIdle : Int) (start count : Nat) :
    Option ((Nat × List (Nat × β)) × RedisStream β) :=
  s.group.map fun g =>
    (((s.scan g now minIdle start count).next, (s.scan g now minIdle start count).claimed),
      { s with group := some (s.claimFrom g now minIdle start count) })

/-! ### Pages -/

theorem mem_of_lookup {s : RedisStream β} {id : Nat} {b : β} (h : s.lookup id = some b) :
    (id, b) ∈ s.entries := by
  obtain ⟨x, hx, rfl⟩ := Option.map_eq_some_iff.mp h
  have hid : x.1 = id := by simpa using List.find?_some hx
  rw [← hid]
  exact List.mem_of_find?_eq_some hx

theorem lookup_of_mem {s : RedisStream β} {x : Nat × β} (hx : x ∈ s.entries) :
    s.lookup x.1 = some x.2 := by
  have hsome : (s.entries.find? fun y => y.1 = x.1).isSome :=
    List.find?_isSome.mpr ⟨x, hx, decide_eq_true rfl⟩
  obtain ⟨y, hy⟩ := Option.isSome_iff_exists.mp hsome
  have hid : y.1 = x.1 := by simpa using List.find?_some hy
  have hnodup : (s.entries.map Prod.fst).Nodup :=
    (List.pairwise_map.mpr s.sorted).imp fun h => Nat.ne_of_lt h
  obtain rfl : y = x := List.inj_on_of_nodup_map hnodup (List.mem_of_find?_eq_some hy) hx hid
  rw [lookup, hy]
  rfl

/-- Ids determine entries. -/
theorem eq_of_mem_entries {s : RedisStream β} {x y : Nat × β} (hx : x ∈ s.entries)
    (hy : y ∈ s.entries) (h : x.1 = y.1) : x = y := by
  have hnodup : (s.entries.map Prod.fst).Nodup :=
    (List.pairwise_map.mpr s.sorted).imp fun h => Nat.ne_of_lt h
  exact List.inj_on_of_nodup_map hnodup hx hy h

/-- A claimed page is a sorted part of the stream. -/
theorem scan_claimed_sorted (s : RedisStream β) (g : RedisGroup) (now minIdle : Int)
    (start count : Nat) :
    (s.scan g now minIdle start count).claimed.Pairwise fun x y => x.1 < y.1 := by
  have hsub := (claimScan_claimed_sublist s.lookup now minIdle (count * 10) count
    (g.pending.dropWhile fun p => p.1 < start)).trans
    (claimScan_kept_sublist s.lookup now minIdle (count * 10) count
      (g.pending.dropWhile fun p => p.1 < start))
  have hdrop := (List.pairwise_map.mpr g.sorted).sublist
    ((List.dropWhile_sublist fun p : Nat × Int => decide (p.1 < start)).map Prod.fst)
  exact List.pairwise_map.mp (hdrop.sublist hsub)

theorem mem_entries_of_scan {s : RedisStream β} {g : RedisGroup} {now minIdle : Int}
    {start count : Nat} {x : Nat × β} (hx : x ∈ (s.scan g now minIdle start count).claimed) :
    x ∈ s.entries :=
  mem_of_lookup (claimScan_claimed_lookup _ _ _ _ _ _ x hx)

/-- From an id on, a sorted pending list is its entries not before the id. -/
theorem dropWhile_eq_filter {l : List (Nat × Int)} (hsorted : l.Pairwise fun p q => p.1 < q.1)
    (start : Nat) :
    (l.dropWhile fun p => p.1 < start) = l.filter fun p => start ≤ p.1 := by
  induction l with
  | nil => rfl
  | cons p rest ih =>
      obtain ⟨hp, hrest⟩ := List.pairwise_cons.mp hsorted
      by_cases hlt : p.1 < start
      · rw [List.dropWhile_cons_of_pos (by simpa using hlt),
          List.filter_cons_of_neg (by simpa using hlt)]
        exact ih hrest
      · rw [List.dropWhile_cons_of_neg (by simpa using hlt), eq_comm, List.filter_eq_self]
        intro q hq
        have hle : start ≤ p.1 := Nat.le_of_not_lt hlt
        rcases List.mem_cons.mp hq with rfl | hq'
        · simpa using hle
        · have hpq := hp q hq'
          simp only [decide_eq_true_eq]
          omega

/-! ### The pending list -/

@[simp] theorem pending_xadd (s : RedisStream β) (b : β) : (s.xadd b).pending = s.pending := rfl

@[simp] theorem pending_trim (s : RedisStream β) (n : Nat) : (s.trim n).pending = s.pending := rfl

@[simp] theorem pending_delete (s : RedisStream β) : s.delete.pending = [] := rfl

@[simp] theorem pending_ensureGroup (s : RedisStream β) : s.ensureGroup.pending = s.pending := by
  rcases hg : s.group with - | g
  · simp [pending, ensureGroup, hg, RedisGroup.fresh]
  · simp [pending, ensureGroup, hg]

@[simp] theorem pending_xack (s : RedisStream β) (id : Nat) :
    (s.xack id).pending = s.pending.filter fun p => p.1 ≠ id := by
  rcases hg : s.group with - | g
  · simp [pending, xack, hg]
  · simp [pending, xack, hg, RedisGroup.ack]

/-- A read hands out the next page and remembers it as pending. -/
theorem xreadgroup_page {s s' : RedisStream β} {now : Int} {count : Nat} {page : List (Nat × β)}
    (h : s.xreadgroup now count = some (page, s')) :
    page = s.nextPage count ∧ s'.pending = s.pending ++ page.map fun x => (x.1, now) := by
  obtain ⟨g, hg, heq⟩ := Option.map_eq_some_iff.mp h
  obtain ⟨rfl, rfl⟩ := Prod.mk.inj heq
  refine ⟨by simp [nextPage, news, unread, hg], ?_⟩
  simp [pending, hg, deliverTo, RedisGroup.deliver, Function.comp_def]

/-- A claim only drops ids from the pending list. -/
theorem pending_xautoclaim {s s' : RedisStream β} {now minIdle : Int} {start count : Nat}
    {page : Nat × List (Nat × β)} (h : s.xautoclaim now minIdle start count = some (page, s')) :
    (s'.pending.map Prod.fst).Sublist (s.pending.map Prod.fst) := by
  obtain ⟨g, hg, heq⟩ := Option.map_eq_some_iff.mp h
  obtain ⟨-, rfl⟩ := Prod.mk.inj heq
  simpa [pending, hg, RedisGroup.pendingIds, claimFrom] using
    s.pendingAfter_sublist g now minIdle start count

/-- Where everything from an id on can be claimed, the page is the first `count`
of them and the next one starts behind it. -/
theorem xautoclaim_all_idle {s s' : RedisStream β} {now minIdle : Int} {start count : Nat}
    {page : Nat × List (Nat × β)} (h : s.xautoclaim now minIdle start count = some (page, s'))
    (hall : ∀ p ∈ s.pendingFrom start, (s.lookup p.1).isSome ∧ minIdle ≤ now - p.2) :
    page.2.map Prod.fst = ((s.pendingFrom start).take count).map Prod.fst ∧
      page.1 = (((s.pendingFrom start).drop count).head?.map Prod.fst).getD 0 := by
  obtain ⟨g, hg, heq⟩ := Option.map_eq_some_iff.mp h
  obtain ⟨rfl, -⟩ := Prod.mk.inj heq
  have hfrom : s.pendingFrom start = g.pending.dropWhile fun p => p.1 < start := by
    rw [dropWhile_eq_filter g.sorted]
    simp [pendingFrom, pending, hg]
  rw [hfrom] at hall ⊢
  have hattempts : count ≤ count * 10 := by omega
  obtain ⟨hclaimed, hnext, -⟩ := claimScan_all_idle hattempts hall
  exact ⟨hclaimed, hnext⟩

theorem pending_sorted (s : RedisStream β) : s.pending.Pairwise fun p q => p.1 < q.1 := by
  rcases hg : s.group with - | g
  · simp [pending, hg]
  · simpa [pending, hg] using g.sorted

theorem pending_positive (s : RedisStream β) : ∀ p ∈ s.pending, 0 < p.1 := by
  rcases hg : s.group with - | g
  · simp [pending, hg]
  · simpa [pending, hg] using g.positive

/-- What is read comes after everything pending. -/
theorem pending_lt_nextPage {s : RedisStream β} {count : Nat} {p : Nat × Int} {x : Nat × β}
    (hp : p ∈ s.pending) (hx : x ∈ s.nextPage count) : p.1 < x.1 := by
  rcases hg : s.group with - | g
  · simp [pending, hg] at hp
  · have hp' : p ∈ g.pending := by simpa [pending, hg] using hp
    have hx' : x ∈ s.unread g count := by simpa [nextPage, news, unread, hg] using hx
    have hnew : g.lastDelivered < x.1 := by
      simpa using (List.mem_filter.mp (List.mem_of_mem_take hx')).2
    exact Nat.lt_of_le_of_lt (g.bounded p hp') hnew

/-- From the first entry behind a page on, the pending entries are the rest. -/
theorem pendingFrom_of_drop {s : RedisStream β} {start count : Nat} {q : Nat × Int}
    {rest : List (Nat × Int)} (h : (s.pendingFrom start).drop count = q :: rest) :
    s.pendingFrom q.1 = q :: rest := by
  have hq : start ≤ q.1 := by
    have hmem : q ∈ s.pendingFrom start :=
      List.mem_of_mem_drop (h ▸ List.mem_cons_self ..)
    simpa using (List.mem_filter.mp hmem).2
  have hsplit : s.pendingFrom start = (s.pendingFrom start).take count ++ q :: rest := by
    rw [← h, List.take_append_drop]
  have hsorted : ((s.pendingFrom start).take count ++ q :: rest).Pairwise fun p q => p.1 < q.1 :=
    hsplit ▸ s.pending_sorted.filter _
  obtain ⟨-, htail, hcross⟩ := List.pairwise_append.mp hsorted
  have hfilter : s.pendingFrom q.1 = (s.pendingFrom start).filter fun p => q.1 ≤ p.1 := by
    rw [pendingFrom, pendingFrom, List.filter_filter]
    refine List.filter_congr fun p _ => ?_
    rw [← Bool.decide_and, decide_eq_decide]
    omega
  rw [hfilter, hsplit, List.filter_append]
  have hpage : ((s.pendingFrom start).take count).filter (fun p => decide (q.1 ≤ p.1)) = [] := by
    refine List.filter_eq_nil_iff.mpr fun p hp => ?_
    have hlt := hcross p hp q (List.mem_cons_self ..)
    simpa using hlt
  have hrest : (q :: rest).filter (fun p => decide (q.1 ≤ p.1)) = q :: rest := by
    refine List.filter_eq_self.mpr fun p hp => ?_
    rcases List.mem_cons.mp hp with rfl | hp'
    · simp
    · exact decide_eq_true (Nat.le_of_lt ((List.pairwise_cons.mp htail).1 p hp'))
  rw [hpage, hrest, List.nil_append]

/-! ### What a group was not handed -/

/-- The last id the group was handed, 0 without one. -/
def lastDelivered (s : RedisStream β) : Nat := (s.group.map (·.lastDelivered)).getD 0

theorem mem_news_iff {s : RedisStream β} {x : Nat × β} :
    x ∈ s.news ↔ s.group.isSome ∧ x ∈ s.entries ∧ s.lastDelivered < x.1 := by
  rcases hg : s.group with - | g
  · simp [news, hg]
  · simp [news, lastDelivered, hg]

theorem foldl_max_lt {l : List Nat} {n k : Nat} (hn : n < k) (hl : ∀ i ∈ l, i < k) :
    l.foldl max n < k := by
  induction l generalizing n with
  | nil => exact hn
  | cons a l ih =>
      have ha : a < k := hl a (List.mem_cons_self ..)
      exact ih (Nat.max_lt.mpr ⟨hn, ha⟩) fun i hi => hl i (List.mem_cons_of_mem a hi)

theorem news_sublist (s : RedisStream β) : s.news.Sublist s.entries := by
  rcases hg : s.group with - | g
  · simp [news, hg]
  · simp [news, hg]

theorem news_sorted (s : RedisStream β) : s.news.Pairwise fun x y => x.1 < y.1 :=
  s.sorted.sublist s.news_sublist

/-- To a group at the start every entry is new. -/
theorem news_fresh {s : RedisStream β} (h : s.group = some .fresh) : s.news = s.entries := by
  simp only [news, h, Option.map_some, Option.getD_some]
  exact List.filter_eq_self.mpr fun x hx => decide_eq_true (s.positive x hx)

/-- A read takes the page off what is new. -/
theorem xreadgroup_news {s s' : RedisStream β} {now : Int} {count : Nat} {page : List (Nat × β)}
    (h : s.xreadgroup now count = some (page, s')) :
    s'.entries = s.entries ∧ s'.group.isSome ∧ s'.news = s.news.drop count := by
  obtain ⟨g, hg, heq⟩ := Option.map_eq_some_iff.mp h
  obtain ⟨rfl, rfl⟩ := Prod.mk.inj heq
  refine ⟨rfl, rfl, ?_⟩
  have hnews : s.news = s.entries.filter fun x => g.lastDelivered < x.1 := by simp [news, hg]
  have hunread : s.unread g count = s.news.take count := by rw [hnews, unread]
  have hsorted : (s.news.take count ++ s.news.drop count).Pairwise fun x y => x.1 < y.1 := by
    rw [List.take_append_drop, hnews]
    exact s.sorted.filter _
  obtain ⟨-, -, hcross⟩ := List.pairwise_append.mp hsorted
  have hlast : (s.deliverTo g now count).lastDelivered
      = ((s.news.take count).map Prod.fst).foldl max g.lastDelivered := by
    rw [← hunread]
    rfl
  have hle : g.lastDelivered ≤ (s.deliverTo g now count).lastDelivered :=
    hlast ▸ RedisGroup.le_foldl_max _ _
  show s.entries.filter (fun x => (s.deliverTo g now count).lastDelivered < x.1)
    = s.news.drop count
  have hfilter : s.entries.filter (fun x => (s.deliverTo g now count).lastDelivered < x.1)
      = s.news.filter fun x => (s.deliverTo g now count).lastDelivered < x.1 := by
    rw [hnews, List.filter_filter]
    refine List.filter_congr fun x _ => ?_
    rw [← Bool.decide_and, decide_eq_decide]
    omega
  have htake : (s.news.take count).filter
      (fun x => (s.deliverTo g now count).lastDelivered < x.1) = [] := by
    refine List.filter_eq_nil_iff.mpr fun x hx => ?_
    have hmem : x.1 ∈ (s.news.take count).map Prod.fst := List.mem_map.mpr ⟨x, hx, rfl⟩
    have hbound := RedisGroup.mem_le_foldl_max hmem g.lastDelivered
    rw [← hlast] at hbound
    simpa using hbound
  have hdrop : (s.news.drop count).filter
      (fun x => (s.deliverTo g now count).lastDelivered < x.1) = s.news.drop count := by
    refine List.filter_eq_self.mpr fun x hx => decide_eq_true ?_
    have hnew : g.lastDelivered < x.1 := by
      have hmem := List.mem_of_mem_drop hx
      rw [hnews] at hmem
      simpa using (List.mem_filter.mp hmem).2
    rw [hlast]
    refine foldl_max_lt hnew fun i hi => ?_
    obtain ⟨y, hy, rfl⟩ := List.mem_map.mp hi
    exact hcross y hy x hx
  rw [hfilter]
  conv_lhs => rw [← List.take_append_drop count s.news]
  rw [List.filter_append, htake, hdrop, List.nil_append]

/-- A claim hands out entries of the stream and takes nothing off what is new. -/
theorem xautoclaim_news {s s' : RedisStream β} {now minIdle : Int} {start count : Nat}
    {page : Nat × List (Nat × β)} (h : s.xautoclaim now minIdle start count = some (page, s')) :
    s'.entries = s.entries ∧ s'.group.isSome = s.group.isSome ∧ s'.news = s.news := by
  obtain ⟨g, hg, heq⟩ := Option.map_eq_some_iff.mp h
  obtain ⟨-, rfl⟩ := Prod.mk.inj heq
  simp [news, hg, claimFrom]

@[simp] theorem ackAll_nil (s : RedisStream β) : s.ackAll [] = s := rfl

@[simp] theorem ackAll_cons (s : RedisStream β) (id : Nat) (ids : List Nat) :
    s.ackAll (id :: ids) = (s.xack id).ackAll ids := rfl

@[simp] theorem xack_entries (s : RedisStream β) (id : Nat) : (s.xack id).entries = s.entries :=
  rfl

@[simp] theorem xack_group_isSome (s : RedisStream β) (id : Nat) :
    (s.xack id).group.isSome = s.group.isSome := by simp [xack]

@[simp] theorem xack_news (s : RedisStream β) (id : Nat) : (s.xack id).news = s.news := by
  rcases hg : s.group with - | g
  · simp [news, xack, hg]
  · simp [news, xack, hg, RedisGroup.ack]

/-- Acknowledging takes ids off the pending list and leaves the rest alone. -/
theorem ackAll_frame (s : RedisStream β) (ids : List Nat) :
    (s.ackAll ids).entries = s.entries ∧ (s.ackAll ids).group.isSome = s.group.isSome ∧
      (s.ackAll ids).news = s.news ∧
      (s.ackAll ids).pending = s.pending.filter fun p => p.1 ∉ ids := by
  induction ids generalizing s with
  | nil => simp
  | cons id ids ih =>
      obtain ⟨hentries, hgroup, hnews, hpending⟩ := ih (s.xack id)
      refine ⟨hentries, by simpa using hgroup, by simpa using hnews, ?_⟩
      rw [ackAll_cons, hpending, pending_xack, List.filter_filter]
      refine List.filter_congr fun p _ => ?_
      rw [← Bool.decide_and, decide_eq_decide]
      simp only [List.mem_cons, not_or]
      exact and_comm

/-- With nothing pending a claim finds nothing. -/
theorem xautoclaim_nil {s s' : RedisStream β} {now minIdle : Int} {start count : Nat}
    {page : Nat × List (Nat × β)} (h : s.xautoclaim now minIdle start count = some (page, s'))
    (hnil : s.pending = []) : page = (0, []) ∧ s'.pending = [] := by
  have hsub := pending_xautoclaim h
  rw [hnil, List.map_nil, List.sublist_nil, List.map_eq_nil_iff] at hsub
  obtain ⟨g, hg, heq⟩ := Option.map_eq_some_iff.mp h
  obtain ⟨rfl, -⟩ := Prod.mk.inj heq
  have hpending : g.pending = [] := by simpa [pending, hg] using hnil
  refine ⟨?_, hsub⟩
  simp [scan, hpending, claimScan]

/-- The first pending entry, once idle, heads the first claimed page. -/
theorem xautoclaim_head {s s' : RedisStream β} {now minIdle t : Int} {count i : Nat} {b : β}
    {rest : List (Nat × Int)} {page : Nat × List (Nat × β)}
    (h : s.xautoclaim now minIdle 0 count = some (page, s'))
    (hpending : s.pending = (i, t) :: rest) (hlook : s.lookup i = some b)
    (hidle : minIdle ≤ now - t) (hcount : 0 < count) :
    (∃ more, page.2 = (i, b) :: more) ∧ ∃ rest', s'.pending = (i, now) :: rest' := by
  obtain ⟨g, hg, heq⟩ := Option.map_eq_some_iff.mp h
  obtain ⟨rfl, rfl⟩ := Prod.mk.inj heq
  have hpend : g.pending = (i, t) :: rest := by simpa [pending, hg] using hpending
  obtain ⟨k, rfl⟩ : ∃ k, count = k + 1 := ⟨count - 1, by omega⟩
  have hidle' : ¬ now - t < minIdle := by omega
  have hscan : s.scan g now minIdle 0 (k + 1) = ⟨(i, now) :: (claimScan s.lookup now minIdle
      (k * 10 + 9) k rest).kept, (i, b) :: (claimScan s.lookup now minIdle
      (k * 10 + 9) k rest).claimed, (claimScan s.lookup now minIdle (k * 10 + 9) k rest).next⟩ := by
    rw [scan, hpend, show (k + 1) * 10 = (k * 10 + 9) + 1 by omega]
    simp [claimScan, hlook, hidle']
  refine ⟨⟨_, by rw [hscan]⟩, (claimScan s.lookup now minIdle (k * 10 + 9) k rest).kept, ?_⟩
  show (g.pending.takeWhile fun p => p.1 < 0) ++ (s.scan g now minIdle 0 (k + 1)).kept = _
  rw [hscan, hpend, List.takeWhile_cons_of_neg (by simp), List.nil_append]

/-- Once its page is acknowledged, a claim leaves pending what was pending. -/
theorem xautoclaim_acked {s s' : RedisStream β} {now minIdle : Int} {start count : Nat}
    {page : Nat × List (Nat × β)} (h : s.xautoclaim now minIdle start count = some (page, s')) :
    (s'.ackAll (page.2.map Prod.fst)).pending.Sublist s.pending := by
  obtain ⟨g, hg, heq⟩ := Option.map_eq_some_iff.mp h
  obtain ⟨rfl, rfl⟩ := Prod.mk.inj heq
  obtain ⟨-, -, -, hpending⟩ := ackAll_frame
    ({ s with group := some (s.claimFrom g now minIdle start count) } : RedisStream β)
    ((s.scan g now minIdle start count).claimed.map Prod.fst)
  rw [hpending]
  show ((s.pendingAfter g now minIdle start count).filter _).Sublist s.pending
  have hold : s.pending = (g.pending.takeWhile fun p => p.1 < start) ++
      g.pending.dropWhile fun p => p.1 < start := by
    rw [List.takeWhile_append_dropWhile]
    simp [pending, hg]
  rw [hold, pendingAfter, List.filter_append]
  refine List.filter_sublist.append (claimScan_acked_sublist _ _ _ _ _ _ ?_)
  exact g.sorted.sublist (List.dropWhile_sublist _)

/-- A claim drops from the pending list only what has left the stream. -/
theorem xautoclaim_covers {s s' : RedisStream β} {now minIdle : Int} {start count : Nat}
    {page : Nat × List (Nat × β)} (h : s.xautoclaim now minIdle start count = some (page, s')) :
    ∀ p ∈ s.pending, p.1 ∈ s'.pending.map Prod.fst ∨ s.lookup p.1 = none := by
  obtain ⟨g, hg, heq⟩ := Option.map_eq_some_iff.mp h
  obtain ⟨rfl, rfl⟩ := Prod.mk.inj heq
  intro p hp
  have hold : p ∈ (g.pending.takeWhile fun p => p.1 < start) ++
      g.pending.dropWhile fun p => p.1 < start := by
    rw [List.takeWhile_append_dropWhile]
    simpa [pending, hg] using hp
  show p.1 ∈ (s.pendingAfter g now minIdle start count).map Prod.fst ∨ _
  rw [pendingAfter, List.map_append, List.mem_append]
  rcases List.mem_append.mp hold with hfront | hback
  · exact .inl (.inl (List.mem_map_of_mem hfront))
  · exact (claimScan_covers _ _ _ _ _ _ p hback).imp_left .inr

/-- A claim from the start that finds the first pending entry idle gets on. -/
theorem xautoclaim_moves {s s' : RedisStream β} {now minIdle : Int} {count : Nat}
    {p : Nat × Int} {rest : List (Nat × Int)} {page : Nat × List (Nat × β)}
    (h : s.xautoclaim now minIdle 0 count = some (page, s')) (hpending : s.pending = p :: rest)
    (hidle : minIdle ≤ now - p.2) (hcount : 0 < count) :
    (s'.ackAll (page.2.map Prod.fst)).pending.length < s.pending.length := by
  obtain ⟨g, hg, heq⟩ := Option.map_eq_some_iff.mp h
  obtain ⟨rfl, rfl⟩ := Prod.mk.inj heq
  obtain ⟨-, -, -, hacked⟩ := ackAll_frame
    ({ s with group := some (s.claimFrom g now minIdle 0 count) } : RedisStream β)
    ((s.scan g now minIdle 0 count).claimed.map Prod.fst)
  have hpend : g.pending = p :: rest := by simpa [pending, hg] using hpending
  obtain ⟨k, rfl⟩ : ∃ k, count = k + 1 := ⟨count - 1, by omega⟩
  have hsorted : (p :: rest).Pairwise fun p q => p.1 < q.1 := hpend ▸ g.sorted
  rw [hacked, hpending]
  refine Nat.lt_succ_of_le ?_
  show ((s.pendingAfter g now minIdle 0 (k + 1)).filter _).length ≤ rest.length
  rw [pendingAfter, scan, hpend, List.takeWhile_cons_of_neg (by simp), List.nil_append,
    List.dropWhile_cons_of_neg (by simp), show (k + 1) * 10 = (k * 10 + 9) + 1 by omega]
  exact claimScan_acked_length hsorted hidle

theorem mem_entries_of_xautoclaim {s s' : RedisStream β} {now minIdle : Int} {start count : Nat}
    {page : Nat × List (Nat × β)} (h : s.xautoclaim now minIdle start count = some (page, s')) :
    ∀ x ∈ page.2, x ∈ s.entries := by
  obtain ⟨g, -, heq⟩ := Option.map_eq_some_iff.mp h
  obtain ⟨rfl, -⟩ := Prod.mk.inj heq
  exact fun x hx => mem_entries_of_scan hx

theorem xautoclaim_sorted {s s' : RedisStream β} {now minIdle : Int} {start count : Nat}
    {page : Nat × List (Nat × β)} (h : s.xautoclaim now minIdle start count = some (page, s')) :
    page.2.Pairwise fun x y => x.1 < y.1 := by
  obtain ⟨g, -, heq⟩ := Option.map_eq_some_iff.mp h
  obtain ⟨rfl, -⟩ := Prod.mk.inj heq
  exact scan_claimed_sorted s g now minIdle start count

/-- What a claim does to the rest of the stream. -/
theorem xautoclaim_frame {s s' : RedisStream β} {now minIdle : Int} {start count : Nat}
    {page : Nat × List (Nat × β)} (h : s.xautoclaim now minIdle start count = some (page, s')) :
    s'.lastDelivered = s.lastDelivered ∧ s'.lastId = s.lastId ∧
      ∀ p ∈ s'.pending, p ∈ s.pending ∨ p.2 = now := by
  obtain ⟨g, hg, heq⟩ := Option.map_eq_some_iff.mp h
  obtain ⟨-, rfl⟩ := Prod.mk.inj heq
  refine ⟨by simp [lastDelivered, hg, claimFrom], rfl, fun p hp => ?_⟩
  have hold : s.pending = g.pending := by simp [pending, hg]
  rw [hold]
  rcases List.mem_append.mp hp with hfront | hkept
  · exact .inl ((List.takeWhile_sublist _).subset hfront)
  · exact (claimScan_times _ _ _ _ _ _ p hkept).imp_left fun hp =>
      (List.dropWhile_sublist _).subset hp

/-- A read hands out nothing beyond the end of the stream. -/
theorem xreadgroup_frame {s s' : RedisStream β} {now : Int} {count : Nat} {page : List (Nat × β)}
    (h : s.xreadgroup now count = some (page, s')) :
    s'.lastId = s.lastId ∧
      (s.lastDelivered ≤ s.lastId → s'.lastDelivered ≤ s'.lastId) := by
  obtain ⟨g, hg, heq⟩ := Option.map_eq_some_iff.mp h
  obtain ⟨-, rfl⟩ := Prod.mk.inj heq
  refine ⟨rfl, fun hle => ?_⟩
  have hold : g.lastDelivered ≤ s.lastId := by simpa [lastDelivered, hg] using hle
  show ((s.unread g count).map Prod.fst).foldl max g.lastDelivered ≤ s.lastId
  refine Nat.le_of_lt_succ (foldl_max_lt (Nat.lt_succ_of_le hold) fun i hi => ?_)
  obtain ⟨y, hy, rfl⟩ := List.mem_map.mp hi
  exact Nat.lt_succ_of_le (s.bounded y ((s.unread_sublist g count).subset hy))

end RedisStream
