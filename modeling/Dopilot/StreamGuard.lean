/-
Dopilot/StreamGuard.lean

The byte budget of the log stream.

`enforce_once` measures the stream and trims it until it is within its budget:
each round keeps the share of the entries that the budget is of the usage, and a
bit less.  It gives up and clears the stream if a round got too little done or
if the rounds are used up.

The share is computed with floating point numbers, and so is the progress of a
round.  Neither matters here: the target is cut to what leaves the stream
shorter, and the rounds are counted.  So both are parameters (`Floats`), and what
is proved holds whatever they say (`enforced`).
-/
import Dopilot.RedisStream
import Dopilot.Loops
import Mathlib

namespace Dopilot

namespace StreamGuard

open RedisStream

/-- `MAX_ROUNDS`. -/
def maxRounds : Nat := 8

/-- What the guard computes with floating point numbers. -/
structure Floats where
  /-- `floor(length * (budget / usage) * SHRINK_FACTOR)`. -/
  scaled : (length budget usage : Nat) → Int
  /-- `(usage - new_usage) / usage < MIN_PROGRESS`. -/
  stuck : (usage newUsage : Nat) → Bool

variable {β : Type}

/-- `XTRIM MAXLEN`, exact: the newest entries stay. -/
def xtrim (s : RedisStream β) (maxlen : Nat) : RedisStream β := s.trim (s.entries.length - maxlen)

/-- The variables of `enforce_once`, beside the stream. -/
structure Pass (β : Type) where
  stream : RedisStream β
  usage : Nat
  length : Nat
  trimmedTotal : Nat := 0
  rounds : Nat := 0
  cleared : Bool := false
  /-- What each trim has removed, the last one first. -/
  trims : List Nat := []

section guarding

variable (floats : Floats) (usage : List (Nat × β) → Nat) (budget : Nat)

/-- `measure`. -/
def Pass.measure (p : Pass β) : Pass β :=
  { p with usage := usage p.stream.entries, length := p.stream.entries.length }

/-- `xtrim`, with what it returns added up, and the stream measured again. -/
def Pass.trim (p : Pass β) (maxlen : Nat) : Pass β :=
  Pass.measure usage
    { p with
      stream := xtrim p.stream maxlen
      trimmedTotal := p.trimmedTotal + (p.stream.entries.length - maxlen)
      trims := (p.stream.entries.length - maxlen) :: p.trims }

/-- The target of a round. -/
def target (p : Pass β) : Nat :=
  (max 0 (min (floats.scaled p.length budget p.usage) ((p.length : Int) - 1))).toNat

/-- A turn of the loop. -/
def next (p : Pass β) : Bool × Pass β :=
  if budget < p.usage ∧ p.rounds < maxRounds then
    let p' := Pass.trim usage { p with rounds := p.rounds + 1 } (target floats budget p)
    if p'.length = 0 then (false, { p' with cleared := true })
    else if budget < p'.usage ∧ floats.stuck p.usage p'.usage then
      (false, { p' with cleared := true })
    else (true, p')
  else (false, p)

/-- The variables when the loop is entered. -/
def start (s : RedisStream β) : Pass β :=
  { stream := s, usage := usage s.entries, length := s.entries.length }

/-- The loop. -/
def rounds (s : RedisStream β) : Pass β :=
  Loop.run (next floats usage budget) (maxRounds + 1) (start usage s)

/-- What follows the loop: the stream may have to be cleared. -/
def clear (p : Pass β) : Pass β :=
  let cleared := p.cleared || (decide (budget < p.usage) && decide (0 < p.length))
  if cleared ∧ 0 < p.length then { p.trim usage 0 with cleared := cleared }
  else { p with cleared := cleared }

/-- `enforce_once`. -/
def enforceOnce (s : RedisStream β) : Pass β :=
  if budget = 0 then { stream := s, usage := 0, length := 0 }
  else if usage s.entries ≤ budget ∨ s.entries.length = 0 then start usage s
  else clear usage budget (rounds floats usage budget s)

end guarding

/-! ### The loop -/

section rounds

variable {floats : Floats} {usage : List (Nat × β) → Nat} {budget : Nat}
variable {s : RedisStream β} {p q : Pass β}

/-- A trim leaves the newest entries. -/
theorem entries_xtrim (s : RedisStream β) (maxlen : Nat) :
    (xtrim s maxlen).entries = s.entries.drop (s.entries.length - maxlen) := rfl

theorem length_xtrim (s : RedisStream β) (maxlen : Nat) :
    (xtrim s maxlen).entries.length = min maxlen s.entries.length := by
  rw [entries_xtrim, List.length_drop]
  omega

/-- Cut to it, a stream that is not empty is shorter. -/
theorem target_lt (h : 0 < p.length) : target floats budget p < p.length := by
  unfold target
  omega

/-- The variables say what the stream is, and each round has removed something. -/
structure Measured (usage : List (Nat × β) → Nat) (s : RedisStream β) (p : Pass β) : Prop where
  usage : p.usage = usage p.stream.entries
  length : p.length = p.stream.entries.length
  oldest : p.stream.entries <:+ s.entries
  rounds : p.rounds = p.trims.length
  trimmedTotal : p.trimmedTotal = p.trims.sum
  removed : ∀ n ∈ p.trims, 0 < n

theorem Measured.start (s : RedisStream β) : Measured usage s (start usage s) where
  usage := rfl
  length := rfl
  oldest := List.suffix_rfl
  rounds := rfl
  trimmedTotal := rfl
  removed _ hn := absurd hn List.not_mem_nil

/-- A trim below the length removes something. -/
theorem Measured.round (h : Measured usage s p) {maxlen : Nat} (hlt : maxlen < p.length) :
    Measured usage s (Pass.trim usage { p with rounds := p.rounds + 1 } maxlen) where
  usage := rfl
  length := rfl
  oldest := (List.drop_suffix _ _).trans h.oldest
  rounds := congrArg (· + 1) h.rounds
  trimmedTotal := by
    show p.trimmedTotal + _ = List.sum (_ :: p.trims)
    rw [List.sum_cons, h.trimmedTotal, Nat.add_comm]
  removed n hn := by
    rcases List.mem_cons.mp hn with rfl | hn
    · exact Nat.sub_pos_of_lt (h.length ▸ hlt)
    · exact h.removed n hn

/-- Inside the loop: the stream is not empty, and nothing is cleared yet. -/
structure Going (usage : List (Nat × β) → Nat) (s : RedisStream β) (p : Pass β) : Prop
    extends Measured usage s p where
  nonempty : 0 < p.length
  uncleared : p.cleared = false
  inTime : p.rounds ≤ maxRounds

/-- **A turn that goes on.** -/
theorem Going.next (h : Going usage s p) (hnext : next floats usage budget p = (true, q)) :
    Going usage s q ∧ maxRounds - q.rounds < maxRounds - p.rounds := by
  unfold StreamGuard.next at hnext
  split at hnext
  case isFalse => cases hnext
  rename_i hguard
  simp only at hnext
  split at hnext
  · cases hnext
  rename_i hlength
  split at hnext
  · cases hnext
  obtain ⟨-, rfl⟩ := Prod.ext_iff.mp hnext
  refine ⟨⟨h.toMeasured.round (target_lt h.nonempty), Nat.pos_of_ne_zero hlength, h.uncleared,
    hguard.2⟩, ?_⟩
  show maxRounds - (p.rounds + 1) < maxRounds - p.rounds
  omega

/-- **The last turn**: the stream is within its budget, or it has to be cleared. -/
theorem Going.last (h : Going usage s p)
    (hnext : StreamGuard.next floats usage budget p = (false, q)) :
    Measured usage s q ∧ q.rounds ≤ maxRounds ∧ (q.cleared = false → 0 < q.length) := by
  unfold StreamGuard.next at hnext
  split at hnext
  · rename_i hguard
    have hround : Measured usage s (Pass.trim usage { p with rounds := p.rounds + 1 }
        (target floats budget p)) := h.toMeasured.round (target_lt h.nonempty)
    simp only at hnext
    split at hnext
    · obtain ⟨-, rfl⟩ := Prod.ext_iff.mp hnext
      exact ⟨⟨hround.usage, hround.length, hround.oldest, hround.rounds, hround.trimmedTotal,
        hround.removed⟩, hguard.2, fun hc => absurd hc (by simp)⟩
    split at hnext
    · obtain ⟨-, rfl⟩ := Prod.ext_iff.mp hnext
      exact ⟨⟨hround.usage, hround.length, hround.oldest, hround.rounds, hround.trimmedTotal,
        hround.removed⟩, hguard.2, fun hc => absurd hc (by simp)⟩
    · cases hnext
  · obtain ⟨-, rfl⟩ := Prod.ext_iff.mp hnext
    exact ⟨h.toMeasured, h.inTime, fun _ => h.nonempty⟩

/-- **The loop is left.** -/
theorem runs_rounds (floats : Floats) (usage : List (Nat × β) → Nat) (budget : Nat)
    (hs : 0 < s.entries.length) :
    Loop.Runs (next floats usage budget) (start usage s) (rounds floats usage budget s) := by
  refine Loop.Runs.of_measure (P := Going usage s) (fun p => maxRounds - p.rounds)
    (fun p q hp hnext => hp.next hnext) ⟨.start s, hs, rfl, Nat.zero_le _⟩ ?_
  exact Nat.lt_succ_self _

end rounds

/-! ### A pass -/

/-- What a pass does to a stream. -/
structure Enforced (usage : List (Nat × β) → Nat) (budget : Nat) (s : RedisStream β)
    (p : Pass β) : Prop where
  /-- Within the budget, or empty. -/
  settled : usage p.stream.entries ≤ budget ∨ p.stream.entries = []
  /-- A stream within its budget is left alone. -/
  untouched : usage s.entries ≤ budget → p.stream = s ∧ p.trims = []
  /-- The entries that are gone are the oldest. -/
  oldest : p.stream.entries <:+ s.entries
  /-- The trims: the rounds, each of which has removed something, and a clear at most. -/
  trims : ∃ clear rounds, p.trims = clear ++ rounds ∧ rounds.length = p.rounds ∧
    p.rounds ≤ maxRounds ∧ (∀ n ∈ rounds, 0 < n) ∧ clear.length ≤ 1 ∧
      (clear ≠ [] → p.stream.entries = [])
  /-- A stream with entries is reported cleared if it has none now. -/
  cleared : s.entries ≠ [] → (p.cleared = true ↔ p.stream.entries = [])
  /-- A stream without entries is not. -/
  empty : s.entries = [] → p.cleared = false

section enforce

variable {floats : Floats} {usage : List (Nat × β) → Nat} {budget : Nat}
variable {s : RedisStream β} {p : Pass β}

/-- A clear leaves nothing. -/
theorem entries_clear (p : Pass β) : (p.trim usage 0).stream.entries = [] := by
  show p.stream.entries.drop (p.stream.entries.length - 0) = []
  rw [Nat.sub_zero, List.drop_length]

/-- **What follows the loop** leaves the stream within its budget, or empty. -/
theorem Measured.within (h : Measured usage s p) (hrounds : p.rounds ≤ maxRounds)
    (hover : budget < usage s.entries) (hs : s.entries ≠ [])
    (hgoing : p.cleared = false → 0 < p.length) :
    Enforced usage budget s (clear usage budget p) := by
  have huntouched : usage s.entries ≤ budget → (clear usage budget p).stream = s ∧
      (clear usage budget p).trims = [] := fun hle => absurd hle (not_le.mpr hover)
  unfold clear at huntouched ⊢
  simp only at huntouched ⊢
  split
  · rename_i hclear
    have hempty : (p.trim usage 0).stream.entries = [] := entries_clear p
    refine ⟨.inr hempty, fun hle => absurd hle (not_le.mpr hover), hempty ▸ List.nil_suffix,
      ⟨[_], p.trims, rfl, h.rounds.symm, hrounds, h.removed, le_refl _, fun _ => hempty⟩,
      fun _ => ⟨fun _ => hempty, fun _ => hclear.1⟩, fun hnil => absurd hnil hs⟩
  · rename_i hclear
    have hlength : p.length = 0 ↔ p.stream.entries = [] := by
      rw [h.length, List.length_eq_zero_iff]
    have hkept : p.cleared = true ∨ budget < p.usage → p.length = 0 := by
      intro hc
      by_contra hne
      refine hclear ⟨?_, Nat.pos_of_ne_zero hne⟩
      rcases hc with hc | hc
      · rw [hc, Bool.true_or]
      · rw [decide_eq_true hc, decide_eq_true (Nat.pos_of_ne_zero hne)]
        exact Bool.or_true _
    refine ⟨?_, fun hle => absurd hle (not_le.mpr hover), h.oldest,
      ⟨[], p.trims, rfl, h.rounds.symm, hrounds, h.removed, Nat.zero_le _,
        fun hne => absurd rfl hne⟩, fun _ => ⟨fun hc => ?_, fun hnil => ?_⟩,
      fun hnil => absurd hnil hs⟩
    · rcases le_or_gt p.usage budget with hle | hlt
      · exact .inl (h.usage ▸ hle)
      · exact .inr (hlength.mp (hkept (.inr hlt)))
    · rcases (Bool.or_eq_true _ _).mp hc with hc | hc
      · exact hlength.mp (hkept (.inl hc))
      · obtain ⟨hlt, -⟩ := (Bool.and_eq_true _ _).mp hc
        exact hlength.mp (hkept (.inr (of_decide_eq_true hlt)))
    · cases hc : p.cleared with
      | true => rfl
      | false => exact absurd (hlength.mpr hnil) (hgoing hc).ne'

/-- **Enforcement of the budget.** -/
theorem enforced (floats : Floats) (usage : List (Nat × β) → Nat) (budget : Nat) (hb : 0 < budget)
    (s : RedisStream β) : Enforced usage budget s (enforceOnce floats usage budget s) := by
  unfold enforceOnce
  rw [if_neg hb.ne']
  split
  · rename_i hok
    refine ⟨hok.imp_right List.length_eq_zero_iff.mp, fun _ => ⟨rfl, rfl⟩, List.suffix_rfl,
      ⟨[], [], rfl, rfl, Nat.zero_le _, fun n hn => absurd hn List.not_mem_nil, Nat.zero_le _,
        fun hne => absurd rfl hne⟩, fun hs => ?_, fun _ => rfl⟩
    exact ⟨fun hc => absurd hc Bool.false_ne_true, fun hnil => absurd hnil hs⟩
  · rename_i hover
    obtain ⟨hover, hlength⟩ := not_or.mp hover
    have hpos := Nat.pos_of_ne_zero hlength
    -- the loop ends at a turn that is its last
    obtain ⟨p, hp, hlast⟩ := (runs_rounds floats usage budget hpos).invariant
      (P := Going usage s) ⟨.start s, hpos, rfl, Nat.zero_le _⟩ fun p q hp hnext => (hp.next hnext).1
    obtain ⟨hmeasured, hrounds, hgoing⟩ := hp.last hlast
    exact hmeasured.within hrounds (not_le.mp hover) (List.ne_nil_of_length_pos hpos) hgoing

/-- The floats as the numbers they stand for. -/
def exact : Floats where
  scaled length budget usage := ((length * budget * 8 / (usage * 10) : Nat) : Int)
  stuck usage newUsage := decide (((usage : Int) - newUsage) * 20 < usage)

/-- Three entries of ten bytes, and a budget for two. -/
def threeEntries : RedisStream Nat := ((RedisStream.empty.xadd 10).xadd 10).xadd 10

def totalBytes (entries : List (Nat × Nat)) : Nat := (entries.map Prod.snd).sum

theorem enforced_threeEntries :
    (enforceOnce exact totalBytes 20 threeEntries).stream.entries = [(3, 10)] ∧
      Enforced totalBytes 20 threeEntries (enforceOnce exact totalBytes 20 threeEntries) :=
  ⟨by decide, enforced exact totalBytes 20 (by decide) threeEntries⟩

/-- A stream that is empty from the start is not reported as cleared. -/
theorem not_cleared_iff_empty :
    ¬ ∀ (floats : Floats) (usage : List (Nat × Nat) → Nat) (budget : Nat) (s : RedisStream Nat),
      0 < budget → ((enforceOnce floats usage budget s).cleared = true ↔
        (enforceOnce floats usage budget s).stream.entries = []) := by
  intro h
  have hempty := (h exact totalBytes 1 .empty Nat.one_pos).mpr rfl
  exact absurd hempty (by decide)

end enforce

end StreamGuard

end Dopilot
