/-
Dopilot/StateMachine.lean

Runs of a state machine given by an executable step function, with a
condition on each step.

A machine is `step : σ → α → Option σ`: the actions are the labels, `none`
says that the action is not enabled.  `RunOk step ok` is the reflexive
transitive closure of the steps whose action meets `ok` in the state it is
taken from, so `RunOk step (fun _ _ => True)` is plain reachability, and a
theorem about `RunOk step ok` speaks of the runs all of whose steps meet `ok`.

`runList` executes a list of actions and `checkedRun` executes it while it
evaluates `ok`; both produce members of `RunOk`, which is how concrete runs
are exhibited.
-/
import Mathlib.Logic.Relation

namespace StateMachine

variable {σ α : Type*}
variable {step : σ → α → Option σ} {ok ok' : σ → α → Prop}

/-! ### Conditional reachability -/

/-- `s'` is reached from `s` by steps that each meet `ok` where they are taken. -/
def RunOk (step : σ → α → Option σ) (ok : σ → α → Prop) : σ → σ → Prop :=
  Relation.ReflTransGen fun s s' => ∃ a, ok s a ∧ step s a = some s'

/-- Reachability, with no condition on the steps. -/
abbrev Run (step : σ → α → Option σ) : σ → σ → Prop := RunOk step fun _ _ => True

theorem RunOk.refl (s : σ) : RunOk step ok s s := Relation.ReflTransGen.refl

theorem RunOk.head {s s₁ s' : σ} {a : α} (hok : ok s a) (hs : step s a = some s₁)
    (h : RunOk step ok s₁ s') : RunOk step ok s s' :=
  Relation.ReflTransGen.head ⟨a, hok, hs⟩ h

/-- A weaker condition admits more runs. -/
theorem RunOk.mono (h : ∀ s a, ok s a → ok' s a) {s s' : σ} (hrun : RunOk step ok s s') :
    RunOk step ok' s s' := by
  induction hrun with
  | refl => exact RunOk.refl s
  | tail _ hlast ih =>
      obtain ⟨a, hok, ha⟩ := hlast
      exact Relation.ReflTransGen.tail ih ⟨a, h _ a hok, ha⟩

/-- **The invariant rule.**  A predicate that holds at the start and that every
step meeting the condition preserves holds in every state reached. -/
theorem RunOk.invariant {I : σ → Prop}
    (hstep : ∀ s a s', I s → ok s a → step s a = some s' → I s')
    {s s' : σ} (h : RunOk step ok s s') (hs : I s) : I s' := by
  induction h with
  | refl => exact hs
  | tail _ hlast ih =>
      obtain ⟨a, hok, ha⟩ := hlast
      exact hstep _ a _ ih hok ha

/-- A condition that an invariant makes stronger. -/
theorem RunOk.strengthen {I : σ → Prop}
    (hstep : ∀ s a s', I s → ok s a → step s a = some s' → I s')
    (hok : ∀ s a, I s → ok s a → ok' s a) {s s' : σ} (h : RunOk step ok s s') (hs : I s) :
    RunOk step ok' s s' := by
  induction h with
  | refl => exact RunOk.refl s
  | tail hrun hlast ih =>
      obtain ⟨a, hok₁, ha⟩ := hlast
      have hI := RunOk.invariant hstep hrun hs
      exact Relation.ReflTransGen.tail ih ⟨a, hok _ a hI hok₁, ha⟩

/-- A run of a machine is a run of one that follows it, step by step or not at all. -/
theorem RunOk.follow {τ β : Type*} {step₂ : τ → β → Option τ} {ok₂ : τ → β → Prop} (f : σ → τ)
    (hstep : ∀ s a s', ok s a → step s a = some s' →
      f s' = f s ∨ ∃ b, ok₂ (f s) b ∧ step₂ (f s) b = some (f s'))
    {s s' : σ} (h : RunOk step ok s s') : RunOk step₂ ok₂ (f s) (f s') := by
  induction h with
  | refl => exact RunOk.refl (f s)
  | tail _ hlast ih =>
      obtain ⟨a, hok, ha⟩ := hlast
      rcases hstep _ a _ hok ha with hsame | ⟨b, hb, hnext⟩
      · rw [hsame]
        exact ih
      · exact Relation.ReflTransGen.tail ih ⟨b, hb, hnext⟩

/-! ### Executing a list of actions -/

/-- Take the listed actions in order; `none` if one of them is not enabled. -/
def runList (step : σ → α → Option σ) (s : σ) : List α → Option σ
  | [] => some s
  | a :: as => (step s a).bind fun s' => runList step s' as

/-- Take the listed actions in order, evaluating the condition at each. -/
def checkedRun (step : σ → α → Option σ) (ok : σ → α → Prop)
    [∀ s a, Decidable (ok s a)] (s : σ) : List α → Option σ
  | [] => some s
  | a :: as => if ok s a then (step s a).bind fun s' => checkedRun step ok s' as else none

theorem Run.of_runList {s s' : σ} {as : List α} (h : runList step s as = some s') :
    Run step s s' := by
  induction as generalizing s with
  | nil =>
      obtain rfl : s = s' := Option.some.inj h
      exact RunOk.refl s
  | cons a as ih =>
      obtain ⟨s₁, hs₁, hrest⟩ := Option.bind_eq_some_iff.mp h
      exact RunOk.head trivial hs₁ (ih hrest)

theorem RunOk.of_checkedRun [∀ s a, Decidable (ok s a)] {s s' : σ} {as : List α}
    (h : checkedRun step ok s as = some s') : RunOk step ok s s' := by
  induction as generalizing s with
  | nil =>
      obtain rfl : s = s' := Option.some.inj h
      exact RunOk.refl s
  | cons a as ih =>
      by_cases hok : ok s a
      · rw [checkedRun, if_pos hok] at h
        obtain ⟨s₁, hs₁, hrest⟩ := Option.bind_eq_some_iff.mp h
        exact RunOk.head hok hs₁ (ih hrest)
      · rw [checkedRun, if_neg hok] at h
        cases h

/-- A run is exhibited by executing its actions. -/
theorem RunOk.exists_of_checkedRun (step : σ → α → Option σ) (ok : σ → α → Prop)
    [∀ s a, Decidable (ok s a)] (s : σ) (as : List α) (P : σ → Bool)
    (h : (checkedRun step ok s as).any P = true) : ∃ s', RunOk step ok s s' ∧ P s' = true := by
  cases hrun : checkedRun step ok s as with
  | none =>
      rw [hrun] at h
      cases h
  | some s' =>
      rw [hrun] at h
      exact ⟨s', RunOk.of_checkedRun hrun, h⟩

/-- A run in two parts is exhibited by executing both. -/
theorem RunOk.exists_of_checkedRuns (step : σ → α → Option σ) (ok : σ → α → Prop)
    [∀ s a, Decidable (ok s a)] (s : σ) (as bs : List α) (P : σ → σ → Bool)
    (h : ((checkedRun step ok s as).any fun s₁ => (checkedRun step ok s₁ bs).any (P s₁)) = true) :
    ∃ s₁ s₂, RunOk step ok s s₁ ∧ RunOk step ok s₁ s₂ ∧ P s₁ s₂ = true := by
  obtain ⟨s₁, hrun₁, h₁⟩ := RunOk.exists_of_checkedRun step ok s as _ h
  obtain ⟨s₂, hrun₂, h₂⟩ := RunOk.exists_of_checkedRun step ok s₁ bs _ h₁
  exact ⟨s₁, s₂, hrun₁, hrun₂, h₂⟩

/-! ### Counting along a run -/

/-- The machine that counts beside its state what its steps add. -/
def counted (step : σ → α → Option σ) (adds : σ → α → Nat) (s : σ × Nat) (a : α) :
    Option (σ × Nat) :=
  (step s.1 a).map fun s' => (s', s.2 + adds s.1 a)

/-- Every run can be counted along. -/
theorem RunOk.exists_counted {adds : σ → α → Nat} {s s' : σ} (h : RunOk step ok s s') (n : Nat) :
    ∃ n', RunOk (counted step adds) (fun t => ok t.1) (s, n) (s', n') := by
  induction h with
  | refl => exact ⟨n, RunOk.refl _⟩
  | tail _ hlast ih =>
      obtain ⟨a, hok, ha⟩ := hlast
      obtain ⟨n₁, hrun⟩ := ih
      exact ⟨_, Relation.ReflTransGen.tail hrun ⟨a, hok, congrArg (Option.map _) ha⟩⟩

/-- A counted run is a run. -/
theorem RunOk.of_counted {adds : σ → α → Nat} {s s' : σ × Nat}
    (h : RunOk (counted step adds) (fun t => ok t.1) s s') : RunOk step ok s.1 s'.1 := by
  refine h.follow Prod.fst fun t a t' hok ha => ?_
  obtain ⟨s₁, hs₁, rfl⟩ := Option.map_eq_some_iff.mp ha
  exact .inr ⟨a, hok, hs₁⟩

end StateMachine
