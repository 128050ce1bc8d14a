/-
Dopilot/Poison.lean

Entries that always raise, and the entries behind them.

An error ends a round of the server's consumers, and the entry it was raised at
stays pending.  What was read behind it in the same batch stays pending too, is
claimed again behind it, and fails again; and once the entry is idle at the
start of a round, the round does not get to reading at all.  Main results: from
a fresh group every other entry is applied and acknowledged after finitely many
drains, whatever the time between them, exactly when none of them stands behind
a raising one (`clears_iff_poison_last`); a batch of a raising and a good entry
is a case where it is not (`poison_blocks_batch`).
-/
import Dopilot.Drains

namespace Dopilot

open Drains

namespace Poison

variable {β σ χ : Type} {cfg : ConsumerConfig} {A : AppModel β σ χ} {x : χ}
variable {one : Nat → β → ConsumerProg β Unit} {verdict : Nat → β → Verdict}

/-! ### What is asked of a consumer -/

/-- The group is there, and nothing was handed out yet. -/
structure Fresh (w : Inbox β σ) : Prop where
  group : w.stream.group = some .fresh
  processed : w.processed = []

/-- Everything that can be applied is applied and acknowledged after finitely
many rounds, whatever the time between them. -/
def Clears (cfg : ConsumerConfig) (A : AppModel β σ χ) (x : χ) (p : ConsumerProg β Unit)
    (verdict : Nat → β → Verdict) (w : Inbox β σ) : Prop :=
  ∃ n, ∀ dts : List Nat, n ≤ dts.length → ∀ z ∈ w.stream.entries, verdict z.1 z.2 = .applies →
    z.1 ∈ (rounds cfg A p x w dts).processed ∧
      z.1 ∉ (rounds cfg A p x w dts).stream.pending.map Prod.fst

/-- No entry that can be applied stands behind one that raises. -/
def PoisonLast (verdict : Nat → β → Verdict) (w : Inbox β σ) : Prop :=
  ∀ y ∈ w.stream.entries, ∀ z ∈ w.stream.entries, verdict y.1 y.2 = .raises →
    verdict z.1 z.2 = .applies → z.1 < y.1

/-! ### A round with nothing pending -/

/-- How a read that finds nothing pending cuts what is new: a front part without
an entry that raises is treated, the rest of the page stays pending. -/
structure Cut (verdict : Nat → β → Verdict) (w w' : Inbox β σ)
    (treated left : List (Nat × β)) : Prop where
  news : w.stream.news = treated ++ left ++ w'.stream.news
  front : ∀ y ∈ treated, verdict y.1 y.2 ≠ .raises
  back : left = [] ∨ ∃ u rest, left = u :: rest ∧ verdict u.1 u.2 = .raises
  moves : w.stream.news ≠ [] → w'.stream.news.length < w.stream.news.length
  pending : w'.stream.pending = left.map fun y => (y.1, w.now)
  processed : ∀ i, i ∈ w'.processed ↔
    i ∈ w.processed ∨ ∃ y ∈ treated, y.1 = i ∧ verdict y.1 y.2 = .applies
  entries : w'.stream.entries = w.stream.entries
  group : w'.stream.group.isSome
  now : w'.now = w.now

theorem cut_of_readRun {w w' : Inbox β σ} {r : Except ConsumerError Unit}
    (h : ReadRun cfg verdict w r w') (hnil : w.stream.pending = []) :
    ∃ front back, Cut verdict w w' front back := by
  obtain ⟨stream, hentries, hgroup, hnews, hpending, hrun⟩ := h
  have hsplit := List.takeWhile_append_dropWhile (p := fun y : Nat × β =>
    decide (verdict y.1 y.2 ≠ .raises)) (l := w.stream.news.take cfg.batch)
  obtain ⟨hackEntries, hackGroup, hackNews, hackPending⟩ := RedisStream.ackAll_frame stream
    ((settled verdict (w.stream.nextPage cfg.batch)).map Prod.fst)
  have hrest : w'.stream.news = w.stream.news.drop cfg.batch := by
    rw [hrun.stream, hackNews, hnews]
  refine ⟨settled verdict (w.stream.nextPage cfg.batch),
    (w.stream.news.take cfg.batch).dropWhile fun y => decide (verdict y.1 y.2 ≠ .raises),
    { news := ?_, front := ?_, back := ?_, moves := ?_, pending := ?_,
      processed := hrun.processed, entries := ?_, group := ?_, now := hrun.now }⟩
  · rw [hrest, settled, RedisStream.nextPage, hsplit, List.take_append_drop]
  · intro y hy
    simpa using List.mem_takeWhile_imp hy
  · rcases hback : (w.stream.news.take cfg.batch).dropWhile
      (fun y => decide (verdict y.1 y.2 ≠ .raises)) with - | ⟨u, rest⟩
    · exact .inl hback
    · have hne : (w.stream.news.take cfg.batch).dropWhile
          (fun y => decide (verdict y.1 y.2 ≠ .raises)) ≠ [] := by
        rw [hback]
        exact List.cons_ne_nil _ _
      have hhead := List.head_dropWhile_not (fun y : Nat × β => decide (verdict y.1 y.2 ≠ .raises))
        hne
      refine .inr ⟨u, rest, hback, ?_⟩
      simp only [hback, List.head_cons] at hhead
      simpa using hhead
  · intro hne
    rw [hrest, List.length_drop]
    have hpos := List.length_pos_iff.mpr hne
    have hbatch := cfg.batch_pos
    omega
  · -- the treated part is acknowledged, and ids do not repeat
    rw [hrun.stream, hackPending, hpending, hnil, List.nil_append, List.filter_map]
    refine congrArg _ ?_
    have hsorted : (settled verdict (w.stream.nextPage cfg.batch) ++
        (w.stream.news.take cfg.batch).dropWhile
          fun y => decide (verdict y.1 y.2 ≠ .raises)).Pairwise fun y z => y.1 < z.1 := by
      rw [settled, RedisStream.nextPage, hsplit]
      exact w.stream.news_sorted.sublist (List.take_sublist _ _)
    have hcross := (List.pairwise_append.mp hsorted).2.2
    conv_lhs => rw [RedisStream.nextPage, ← hsplit, List.filter_append]
    rw [List.filter_eq_nil_iff.mpr, List.filter_eq_self.mpr, List.nil_append]
    · intro y hy
      refine decide_eq_true fun hmem => ?_
      obtain ⟨u, hu, huy⟩ := List.mem_map.mp hmem
      have hlt := hcross u (by rwa [RedisStream.nextPage, ← hsplit]) y hy
      have heq : u.1 = y.1 := huy
      omega
    · intro y hy hmem
      refine of_decide_eq_true hmem (List.mem_map.mpr ⟨y, ?_, rfl⟩)
      rw [hsplit]
      exact hy
  · rw [hrun.stream, hackEntries, hentries]
  · rw [hrun.stream, hackGroup]
    exact hgroup

/-- With nothing pending, a drain cuts what is new. -/
theorem drain_nil (htreats : Treats cfg A x one verdict) {w : Inbox β σ}
    (hgroup : w.stream.group.isSome) (hnil : w.stream.pending = []) :
    Steady cfg A x (drainOnce one true)
      (fun _ w' => ∃ front back, Cut verdict w w' front back) w := by
  rw [drainOnce_true]
  refine Prog.safe_bind.mpr (Prog.safe_bind.mpr (Prog.safe_call.mpr ?_))
  rintro _ rfl _ r w₁ rfl hp
  refine ⟨trivial, ?_⟩
  simp only [ConsumerOp.perform] at hp
  split at hp
  · rename_i hnone
    rw [Option.map_eq_none_iff.mp hnone] at hgroup
    cases hgroup
  · rename_i page stream hclaim
    cases hp
    obtain ⟨hentries, hsome, hnews⟩ := RedisStream.xautoclaim_news hclaim
    obtain ⟨rfl, hpending⟩ := RedisStream.xautoclaim_nil hclaim hnil
    -- the claim leaves what is new as it was
    have hsome' : ({ w with stream := stream } : Inbox β σ).stream.group.isSome :=
      hsome.trans hgroup
    refine (read_run htreats hsome').mono fun r w' hr => ?_
    obtain ⟨front, back, hcut⟩ := cut_of_readRun hr hpending
    refine ⟨front, back, ?_⟩
    exact
      { news := hnews ▸ hcut.news
        front := hcut.front
        back := hcut.back
        moves := hnews ▸ hcut.moves
        pending := hcut.pending
        processed := hcut.processed
        entries := hcut.entries.trans hentries
        group := hcut.group
        now := hcut.now }

/-- What is behind the first raising entry of a page comes after it. -/
theorem Cut.le_of_raises {w w' : Inbox β σ} {front back : List (Nat × β)}
    (h : Cut verdict w w' front back) {u : Nat × β} {rest : List (Nat × β)}
    (hback : back = u :: rest) {z : Nat × β} (hz : z ∈ back ∨ z ∈ w'.stream.news) :
    u.1 ≤ z.1 := by
  have hsorted : (front ++ (back ++ w'.stream.news)).Pairwise fun y z => y.1 < z.1 := by
    rw [← List.append_assoc, ← h.news]
    exact w.stream.news_sorted
  have htail := (List.pairwise_append.mp hsorted).2.1
  rw [hback, List.cons_append] at htail
  have hmem : z ∈ u :: (rest ++ w'.stream.news) := by
    rw [← List.cons_append, ← hback]
    exact List.mem_append.mpr hz
  rcases List.mem_cons.mp hmem with rfl | hz'
  · exact Nat.le_refl _
  · exact Nat.le_of_lt ((List.pairwise_cons.mp htail).1 z hz')

/-! ### Poison at the end does no harm -/

/-- Everything that can be applied is done or still new, and as long as some of
it is new, nothing is pending. -/
structure Clearing (verdict : Nat → β → Verdict) (w : Inbox β σ) : Prop where
  group : w.stream.group.isSome
  done : ∀ z ∈ w.stream.entries, verdict z.1 z.2 = .applies →
    z.1 ∈ w.processed ∧ z.1 ∉ w.stream.pending.map Prod.fst ∨ z ∈ w.stream.news
  calm : w.stream.pending = [] ∨ ∀ z ∈ w.stream.news, verdict z.1 z.2 ≠ .applies

theorem Fresh.clearing {w : Inbox β σ} (h : Fresh w) : Clearing verdict w where
  group := by
    rw [h.group]
    rfl
  done z hz _ := .inr (RedisStream.news_fresh h.group ▸ hz)
  calm := .inl (by simp [RedisStream.pending, h.group, RedisGroup.fresh])

/-- What is done stays done, once nothing to apply is new. -/
theorem Clearing.settle {w w' : Inbox β σ} (h : Clearing verdict w)
    (hnews : ∀ z ∈ w.stream.news, verdict z.1 z.2 ≠ .applies) (hdrift : Drift w w') :
    ∀ z ∈ w.stream.entries, verdict z.1 z.2 = .applies →
      z.1 ∈ w'.processed ∧ z.1 ∉ w'.stream.pending.map Prod.fst := by
  intro z hz happlies
  rcases h.done z hz happlies with ⟨hprocessed, hpending⟩ | hnew
  · refine ⟨hdrift.processed hprocessed, fun hmem => ?_⟩
    rcases hdrift.pending z.1 hmem with hold | hnew
    · exact hpending hold
    · obtain ⟨y, hy, hyz⟩ := List.mem_map.mp hnew
      obtain rfl := RedisStream.eq_of_mem_entries (w.stream.news_sublist.subset hy) hz hyz
      exact hnews y hy happlies
  · exact absurd happlies (hnews z hnew)

/-- A cut keeps what can be applied in front. -/
theorem Clearing.cut {w w' : Inbox β σ} {front back : List (Nat × β)}
    (h : Clearing verdict w) (hlast : PoisonLast verdict w) (hcut : Cut verdict w w' front back) :
    Clearing verdict w' := by
  have hin : ∀ z, z ∈ front ∨ z ∈ back ∨ z ∈ w'.stream.news → z ∈ w.stream.entries := by
    intro z hz
    refine w.stream.news_sublist.subset ?_
    rw [hcut.news]
    simpa [or_assoc] using hz
  have hbehind : ∀ z, z ∈ back ∨ back ≠ [] ∧ z ∈ w'.stream.news → verdict z.1 z.2 ≠ .applies := by
    intro z hz happlies
    rcases hcut.back with hnil | ⟨u, rest, hback, hraises⟩
    · simp [hnil] at hz
    · have hz' : z ∈ back ∨ z ∈ w'.stream.news := hz.imp_right And.right
      have hu : u ∈ w.stream.entries := hin u (.inr (.inl (hback ▸ List.mem_cons_self ..)))
      have hlt := hlast u hu z (hin z (.inr hz')) hraises happlies
      have hle := hcut.le_of_raises hback hz'
      omega
  have hpending : ∀ z ∈ w.stream.entries, verdict z.1 z.2 = .applies →
      z.1 ∉ w'.stream.pending.map Prod.fst := by
    intro z hz happlies hmem
    rw [hcut.pending, List.map_map] at hmem
    obtain ⟨y, hy, hyz⟩ := List.mem_map.mp hmem
    obtain rfl := RedisStream.eq_of_mem_entries (hin y (.inr (.inl hy))) hz hyz
    exact hbehind y (.inl hy) happlies
  refine ⟨hcut.group, fun z hz happlies => ?_, ?_⟩
  · rw [hcut.entries] at hz
    rcases h.done z hz happlies with ⟨hprocessed, -⟩ | hnew
    · exact .inl ⟨(hcut.processed z.1).mpr (.inl hprocessed), hpending z hz happlies⟩
    · rw [hcut.news, List.mem_append, List.mem_append] at hnew
      rcases hnew with (hfront | hback) | hnews
      · exact .inl ⟨(hcut.processed z.1).mpr (.inr ⟨z, hfront, rfl, happlies⟩),
          hpending z hz happlies⟩
      · exact absurd happlies (hbehind z (.inl hback))
      · exact .inr hnews
  · by_cases hnil : back = []
    · left
      rw [hcut.pending, hnil, List.map_nil]
    · exact .inr fun z hz => hbehind z (.inr ⟨hnil, hz⟩)

/-- Where no entry to be applied stands behind a raising one, all get through. -/
theorem Clearing.rounds (htreats : Treats cfg A x one verdict)
    (hone : ∀ id b, Groupless (one id b)) {w : Inbox β σ} (h : Clearing verdict w)
    (hlast : PoisonLast verdict w) (dts : List Nat) (hlen : w.stream.news.length ≤ dts.length) :
    ∀ z ∈ w.stream.entries, verdict z.1 z.2 = .applies →
      z.1 ∈ (rounds cfg A (guarded (drainOnce one true)) x w dts).processed ∧
        z.1 ∉ (rounds cfg A (guarded (drainOnce one true)) x w dts).stream.pending.map
          Prod.fst := by
  induction dts generalizing w with
  | nil =>
      have hnil : w.stream.news = [] := List.length_eq_zero_iff.mp (Nat.le_zero.mp hlen)
      refine h.settle (fun z hz => ?_) (Drift.refl w)
      rw [hnil] at hz
      cases hz
  | cons dt dts ih =>
      by_cases hnews : ∀ z ∈ w.stream.news, verdict z.1 z.2 ≠ .applies
      · exact h.settle hnews (rounds_drift (drain_groupless hone) w (dt :: dts))
      · have hne : w.stream.news ≠ [] := by
          rintro hnil
          simp [hnil] at hnews
        have hnil : w.stream.pending = [] := h.calm.resolve_right hnews
        have hmoved : Clearing verdict (w.move (.tick dt)) := ⟨h.group, h.done, h.calm⟩
        have hdrain := guarded_run ((drain_nil htreats (w := w.move (.tick dt)) h.group hnil))
        obtain ⟨-, treated, left, hcut⟩ := round_of_steady hdrain
        have hentries : (round cfg A (guarded (drainOnce one true)) x w dt).stream.entries
            = w.stream.entries := hcut.entries
        have hlast' : PoisonLast verdict
            (round cfg A (guarded (drainOnce one true)) x w dt) := by
          rw [PoisonLast, hentries]
          exact hlast
        have hshort := hcut.moves hne
        have hlen' : (round cfg A (guarded (drainOnce one true)) x w dt).stream.news.length
            ≤ dts.length := Nat.le_of_lt_succ (Nat.lt_of_lt_of_le hshort hlen)
        intro z hz happlies
        exact ih (hmoved.cut hlast hcut) hlast' hlen' z (hentries ▸ hz) happlies

/-! ### Poison in front blocks -/

/-- `z` is not applied: it stands behind an entry that raises, which is still to
be read or heads the pending list. -/
structure Blocked (verdict : Nat → β → Verdict) (z : Nat × β) (w : Inbox β σ) : Prop where
  group : w.stream.group.isSome
  waits : z.1 ∉ w.processed
  behind : (w.stream.pending = [] ∧ ∃ y ∈ w.stream.news, verdict y.1 y.2 = .raises ∧ y.1 ≤ z.1) ∨
    ∃ u t rest, w.stream.pending = (u.1, t) :: rest ∧ u ∈ w.stream.entries ∧
      verdict u.1 u.2 = .raises ∧ t ≤ w.now

/-- A cut does not treat what is behind a raising entry. -/
theorem Blocked.cut {z : Nat × β} {w w' : Inbox β σ} {treated left : List (Nat × β)}
    (hwaits : z.1 ∉ w.processed) {y : Nat × β} (hy : y ∈ w.stream.news)
    (hraises : verdict y.1 y.2 = .raises) (hle : y.1 ≤ z.1)
    (hcut : Cut verdict w w' treated left) : Blocked verdict z w' := by
  have hsorted := w.stream.news_sorted
  rw [hcut.news, List.append_assoc] at hsorted
  have hcross := (List.pairwise_append.mp hsorted).2.2
  have hynot : y ∉ treated := fun hmem => hcut.front y hmem hraises
  have hybehind : y ∈ left ++ w'.stream.news := by
    rw [hcut.news, List.append_assoc] at hy
    exact (List.mem_append.mp hy).resolve_left hynot
  refine ⟨hcut.group, fun hmem => ?_, ?_⟩
  · rcases (hcut.processed z.1).mp hmem with hold | ⟨v, hv, hvz, -⟩
    · exact hwaits hold
    · have hlt := hcross v hv y hybehind
      omega
  · rcases hcut.back with hnil | ⟨u, rest, hleft, hu⟩
    · left
      rw [hnil, List.nil_append] at hybehind
      exact ⟨by rw [hcut.pending, hnil, List.map_nil], y, hybehind, hraises, hle⟩
    · right
      refine ⟨u, w.now, rest.map fun v => (v.1, w.now), ?_, ?_, hu, Int.le_of_eq hcut.now.symm⟩
      · rw [hcut.pending, hleft, List.map_cons]
      · rw [hcut.entries]
        refine w.stream.news_sublist.subset ?_
        rw [hcut.news, hleft]
        simp

/-- A drain that finds a raising entry idle at the head of the pending list gets
no further. -/
theorem drain_blocked (htreats : Treats cfg A x one verdict) {w : Inbox β σ} {u : Nat × β}
    {t : Time} {rest : List (Nat × Time)} (hpending : w.stream.pending = (u.1, t) :: rest)
    (hu : u ∈ w.stream.entries) (hraises : verdict u.1 u.2 = .raises)
    (hidle : cfg.pendingIdleMs ≤ w.now - t) :
    Steady cfg A x (drainOnce one true) (fun _ w' => w'.processed ⊆ w.processed ∧
      w'.stream.group.isSome ∧ w'.stream.entries = w.stream.entries ∧ w'.now = w.now ∧
      ∃ rest', w'.stream.pending = (u.1, w.now) :: rest') w := by
  rw [drainOnce_true]
  refine Prog.safe_bind.mpr (Prog.safe_bind.mpr (Prog.safe_call.mpr ?_))
  rintro _ rfl _ r w₁ rfl hp
  refine ⟨trivial, ?_⟩
  simp only [ConsumerOp.perform] at hp
  split at hp
  · rename_i hnone
    simp [RedisStream.pending, Option.map_eq_none_iff.mp hnone] at hpending
  · rename_i page stream hclaim
    cases hp
    obtain ⟨hentries, hsome, hnews⟩ := RedisStream.xautoclaim_news hclaim
    obtain ⟨⟨more, hmore⟩, rest', hpending'⟩ := RedisStream.xautoclaim_head hclaim hpending
      (RedisStream.lookup_of_mem hu) hidle cfg.batch_pos
    have hgroup : w.stream.group.isSome := by
      rcases hg : w.stream.group with - | g
      · simp [RedisStream.pending, hg] at hpending
      · rfl
    have hsettled : settled verdict page.2 = [] := by
      rw [hmore, settled]
      exact List.takeWhile_cons_of_neg (by simpa using hraises)
    refine Prog.safe_bind.mpr ((handlePage_run htreats page.2 _).mono fun r w' hr => ?_)
    have hstream := hr.stream
    rw [hsettled, List.map_nil, RedisStream.ackAll_nil] at hstream
    cases r with
    | ok _ =>
        have hout : settled verdict page.2 = page.2 := hr.outcome
        rw [hsettled, hmore] at hout
        cases hout
    | error e =>
        refine ⟨fun i hi => ?_, ?_, ?_, hr.now, rest', ?_⟩
        · rcases (hr.processed i).mp hi with hold | ⟨v, hv, -⟩
          · exact hold
          · rw [hsettled] at hv
            cases hv
        · rw [hstream]
          exact hsome.trans hgroup
        · rw [hstream]
          exact hentries
        · rw [hstream]
          exact hpending'

theorem Blocked.round (htreats : Treats cfg A x one verdict) {z : Nat × β} {w : Inbox β σ}
    (h : Blocked verdict z w) {dt : Nat} (hdt : cfg.pendingIdleMs ≤ dt) :
    Blocked verdict z (round cfg A (guarded (drainOnce one true)) x w dt) := by
  rcases h.behind with ⟨hnil, y, hy, hraises, hle⟩ | ⟨u, t, rest, hpending, hu, hraises, ht⟩
  · have hdrain := guarded_run (drain_nil htreats (w := w.move (.tick dt)) h.group hnil)
    obtain ⟨-, treated, left, hcut⟩ := round_of_steady hdrain
    exact Blocked.cut (w := w.move (.tick dt)) h.waits hy hraises hle hcut
  · have hidle : cfg.pendingIdleMs ≤ (w.move (.tick dt)).now - t := by
      show cfg.pendingIdleMs ≤ w.now + dt - t
      omega
    have hdrain := guarded_run
      (drain_blocked htreats (w := w.move (.tick dt)) hpending hu hraises hidle)
    obtain ⟨-, hprocessed, hgroup, hentries, hnow, rest', hpending'⟩ := round_of_steady hdrain
    refine ⟨hgroup, fun hmem => h.waits (hprocessed hmem), .inr ?_⟩
    exact ⟨u, _, rest', hpending', hentries.symm ▸ hu, hraises, Int.le_of_eq hnow.symm⟩

theorem Blocked.rounds (htreats : Treats cfg A x one verdict) {z : Nat × β} (k : Nat)
    {w : Inbox β σ} (h : Blocked verdict z w) :
    Blocked verdict z (rounds cfg A (guarded (drainOnce one true)) x w
      (List.replicate k cfg.pendingIdleMs.toNat)) := by
  induction k generalizing w with
  | zero => exact h
  | succ k ih => exact ih (h.round htreats (Int.self_le_toNat _))

/-- An entry that stands behind a raising one is not applied by drains that each
find the raising one idle again. -/
theorem poison_blocks (htreats : Treats cfg A x one verdict) {w : Inbox β σ} (h : Fresh w)
    {y z : Nat × β} (hy : y ∈ w.stream.entries) (hz : z ∈ w.stream.entries)
    (hraises : verdict y.1 y.2 = .raises) (happlies : verdict z.1 z.2 = .applies)
    (hle : y.1 ≤ z.1) : ¬ Clears cfg A x (guarded (drainOnce one true)) verdict w := by
  rintro ⟨n, hn⟩
  have hstart : Blocked verdict z w := by
    refine ⟨by rw [h.group]; rfl, by rw [h.processed]; simp, .inl ⟨?_, y, ?_, hraises, hle⟩⟩
    · simp [RedisStream.pending, h.group, RedisGroup.fresh]
    · rw [RedisStream.news_fresh h.group]
      exact hy
  have hlen : n ≤ (List.replicate n cfg.pendingIdleMs.toNat).length :=
    (List.length_replicate ..).ge
  exact (hstart.rounds htreats n).waits (hn _ hlen z hz happlies).1

/-- From a fresh group, a consumer that claims and reads gets everything through
exactly when nothing stands behind a raising entry. -/
theorem clears_iff (htreats : Treats cfg A x one verdict) (hone : ∀ id b, Groupless (one id b))
    {w : Inbox β σ} (h : Fresh w) :
    Clears cfg A x (guarded (drainOnce one true)) verdict w ↔ PoisonLast verdict w := by
  constructor
  · intro hclears y hy z hz hraises happlies
    by_contra hlt
    exact poison_blocks htreats h hy hz hraises happlies (Nat.le_of_not_lt hlt) hclears
  · intro hlast
    exact ⟨w.stream.news.length, fun dts hlen =>
      h.clearing.rounds htreats hone hlast dts hlen⟩

/-! ### Two entries in one batch -/

def sampleConfig : ConsumerConfig where
  batch := 2
  batch_pos := Nat.zero_lt_two
  pendingIdleMs := 60000

/-- The handler raises at one entry. -/
def sampleModel (β : Type) (bad : Nat) : AppModel β Unit Unit where
  handle _ id _ _ := (id != bad, ())
  chore _ _ _ := ()

/-- A fresh group and two entries. -/
def sampleInbox (b : β) : Inbox β Unit where
  stream := ((RedisStream.empty.xadd b).xadd b).ensureGroup
  now := 0
  app := ()
  handed := []
  mine := []
  processed := []
  looping := true

def sampleEvent : AgentEvent where
  eventId := 5
  agentId := 1
  taskId := 3
  executionId := 7
  type := .running

def sampleIncrement : AgentLogEvent where
  agentId := 1
  taskId := 3
  executionId := 7
  offset := 0
  contentB64 := some [104, 105]
  sizeBytes := 2

theorem sampleInbox_fresh (b : β) : Fresh (sampleInbox b) := ⟨rfl, rfl⟩

/-! ### Poison entries -/

/-- **When a poison entry blocks no other.**  For both consumers of the server,
whatever the stream, the batch size and the entries that raise: every entry that
can be applied is applied and acknowledged after finitely many drains, whatever
the time between them, if and only if none of them stands behind a raising one. -/
theorem clears_iff_poison_last (cfg : ConsumerConfig) (x : χ) :
    (∀ (A : AppModel (Option AgentEvent) σ χ) (bad : Nat → AgentEvent → Bool)
      (w : Inbox (Option AgentEvent) σ),
      (∀ id ev app, (A.handle x id (some ev) app).1 = !bad id ev) → Fresh w →
      (Clears cfg A x EventConsumer.iterate (eventVerdict bad) w ↔
        PoisonLast (eventVerdict bad) w)) ∧
    ∀ (A : AppModel (Option AgentLogEvent) σ χ) (bad : Nat → AgentLogEvent → Bool)
      (w : Inbox (Option AgentLogEvent) σ),
      (∀ id ev app, (A.handle x id (some ev) app).1 = !bad id ev) → Fresh w →
      (Clears cfg A x LogConsumer.iterate (logVerdict bad) w ↔ PoisonLast (logVerdict bad) w) := by
  constructor
  · intro A bad w hA hfresh
    exact clears_iff (event_treats hA) event_groupless hfresh
  · intro A bad w hA hfresh
    exact clears_iff (log_treats hA) log_groupless hfresh

/-- A raising entry behind a good one does no harm. -/
theorem clears_iff_poison_last_sample :
    Clears sampleConfig (sampleModel (Option AgentEvent) 2) () EventConsumer.iterate
        (eventVerdict fun id _ => id == 2) (sampleInbox (some sampleEvent)) ∧
      Clears sampleConfig (sampleModel (Option AgentLogEvent) 2) () LogConsumer.iterate
        (logVerdict fun id _ => id == 2) (sampleInbox (some sampleIncrement)) := by
  obtain ⟨hevent, hlog⟩ := clears_iff_poison_last (σ := Unit) sampleConfig ()
  constructor
  · refine (hevent _ (fun id _ => id == 2) _ (fun _ _ _ => rfl) (sampleInbox_fresh _)).mpr ?_
    unfold PoisonLast
    decide
  · refine (hlog _ (fun id _ => id == 2) _ (fun _ _ _ => rfl) (sampleInbox_fresh _)).mpr ?_
    unfold PoisonLast
    decide

/-- **A batch of a raising and a good entry.**  Both are read in one batch, the
first raises, and the second is claimed again only behind it. -/
theorem poison_blocks_batch :
    (¬ ∀ (cfg : ConsumerConfig) (A : AppModel (Option AgentEvent) Unit Unit)
      (bad : Nat → AgentEvent → Bool) (w : Inbox (Option AgentEvent) Unit),
      (∀ id ev app, (A.handle () id (some ev) app).1 = !bad id ev) → Fresh w →
      Clears cfg A () EventConsumer.iterate (eventVerdict bad) w) ∧
    ¬ ∀ (cfg : ConsumerConfig) (A : AppModel (Option AgentLogEvent) Unit Unit)
      (bad : Nat → AgentLogEvent → Bool) (w : Inbox (Option AgentLogEvent) Unit),
      (∀ id ev app, (A.handle () id (some ev) app).1 = !bad id ev) → Fresh w →
      Clears cfg A () LogConsumer.iterate (logVerdict bad) w := by
  constructor
  · intro hclaim
    have hclears := hclaim sampleConfig (sampleModel _ 1) (fun id _ => id == 1)
      (sampleInbox (some sampleEvent)) (fun _ _ _ => rfl) (sampleInbox_fresh _)
    exact poison_blocks (event_treats fun _ _ _ => rfl) (sampleInbox_fresh _)
      (y := (1, some sampleEvent)) (z := (2, some sampleEvent)) (by decide) (by decide)
      (by decide) (by decide) (by decide) hclears
  · intro hclaim
    have hclears := hclaim sampleConfig (sampleModel _ 1) (fun id _ => id == 1)
      (sampleInbox (some sampleIncrement)) (fun _ _ _ => rfl) (sampleInbox_fresh _)
    exact poison_blocks (log_treats fun _ _ _ => rfl) (sampleInbox_fresh _)
      (y := (1, some sampleIncrement)) (z := (2, some sampleIncrement)) (by decide) (by decide)
      (by decide) (by decide) (by decide) hclears

end Poison

end Dopilot
