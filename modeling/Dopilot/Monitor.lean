/-
Dopilot/Monitor.lean

Monitors: automata that watch the operations of a program.

A monitor moves with every operation and its answer, and `none` says that it
does not admit the operation.  A program is `Watched` from a state of a monitor
if the monitor admits whatever the program can come to, whatever is answered.
This is `Prog.Safe` over the world that consists of the monitor's state alone,
so the rules of that logic carry over.

In a system every process has a monitor.  `Sys.watched_run` is the rule: what
relates the world, the states of the monitors and a count of operations, and is
kept by every operation the monitors admit, holds in every state of every run.
The states of the monitors are no part of the system; they are found along the
run.
-/
import Dopilot.Process

/-- An automaton over the operations of a program. -/
structure Monitor (Op : Type) (Res : Op → Type) (ε S : Type) where
  init : S
  next : S → (op : Op) → Except ε (Res op) → Option S

namespace Monitor

variable {Op : Type} {Res : Op → Type} {ε S α β : Type} (M : Monitor Op Res ε S)

/-- Every answer is possible, and the monitor's state is the world. -/
def iface : Prog.Interface Op Res (fun op => Except ε (Res op)) ε (Option S) where
  perform op r o := some (r, o.bind fun σ => M.next σ op r)

/-- The operations are admitted. -/
def contract : Prog.Contract Op (fun op => Except ε (Res op)) (Option S) where
  ok _ _ _ := True
  rely := Eq
  guar o o' := o.isSome → o'.isSome
  rely_trans := Eq.trans

/-- The monitor admits what `p` does, and `Q` holds of its state in the end. -/
def Watched (p : Prog Op Res ε α) (Q : Except ε α → S → Prop) (σ : S) : Prop :=
  p.Safe M.iface contract (fun r o => ∃ σ', o = some σ' ∧ Q r σ') (some σ)

variable {M} {p : Prog Op Res ε α} {Q Q' : Except ε α → S → Prop} {σ : S}

/-! ### Rules -/

theorem watched_ret {a : α} (h : Q (.ok a) σ) : M.Watched (.ret a) Q σ := ⟨σ, rfl, h⟩

theorem watched_raise {e : ε} (h : Q (.error e) σ) : M.Watched (.raise e) Q σ := ⟨σ, rfl, h⟩

theorem watched_act {op : Op} {k : Except ε (Res op) → Prog Op Res ε α} :
    M.Watched (.act op k) Q σ ↔ ∀ r, ∃ σ', M.next σ op r = some σ' ∧ M.Watched (k r) Q σ' := by
  constructor
  · intro h r
    obtain ⟨hadmits, hrest⟩ := h _ rfl r r _ trivial rfl
    obtain ⟨σ', hσ'⟩ := Option.isSome_iff_exists.mp (hadmits rfl)
    have hnext : M.next σ op r = some σ' := hσ'
    refine ⟨σ', hnext, ?_⟩
    simp only [Option.bind_some, hnext] at hrest
    exact hrest
  · rintro h _ rfl x r o - hp
    obtain ⟨rfl, rfl⟩ : x = r ∧ (some σ).bind (fun σ => M.next σ op x) = o := by
      simpa [iface] using hp
    obtain ⟨σ', hnext, hrest⟩ := h x
    simp only [Option.bind_some, hnext]
    exact ⟨fun _ => rfl, hrest⟩

theorem Watched.mono (h : M.Watched p Q σ) (hQ : ∀ r σ', Q r σ' → Q' r σ') :
    M.Watched p Q' σ :=
  Prog.Safe.mono h fun r _ ⟨σ', ho, hr⟩ => ⟨σ', ho, hQ r σ' hr⟩

theorem Watched.bind {f : α → Prog Op Res ε β} {R : Except ε β → S → Prop}
    (hp : M.Watched p Q σ) (hok : ∀ a σ', Q (.ok a) σ' → M.Watched (f a) R σ')
    (herr : ∀ e σ', Q (.error e) σ' → R (.error e) σ') : M.Watched (p.bind f) R σ := by
  refine Prog.safe_bind.mpr (Prog.Safe.mono hp ?_)
  rintro r _ ⟨σ', rfl, hr⟩
  cases r with
  | ok a => exact hok a σ' hr
  | error e => exact ⟨σ', rfl, herr e σ' hr⟩

theorem Watched.attempt {R : Except ε (Except ε α) → S → Prop}
    (hp : M.Watched p (fun r σ' => R (.ok r) σ') σ) : M.Watched p.attempt R σ :=
  Prog.safe_attempt.mpr hp

theorem Watched.tryCatch {h : ε → Prog Op Res ε α} (hp : M.Watched p Q σ)
    (hok : ∀ a σ', Q (.ok a) σ' → Q' (.ok a) σ')
    (herr : ∀ e σ', Q (.error e) σ' → M.Watched (h e) Q' σ') : M.Watched (p.tryCatch h) Q' σ := by
  refine Prog.safe_tryCatch.mpr (Prog.Safe.mono hp ?_)
  rintro r _ ⟨σ', rfl, hr⟩
  cases r with
  | ok a => exact ⟨σ', rfl, hok a σ' hr⟩
  | error e => exact herr e σ' hr

theorem Watched.tryFinally {f : Prog Op Res ε Unit} (hp : M.Watched p Q σ)
    (hf : ∀ r σ', Q r σ' → M.Watched f (fun r' σ'' => match r' with
      | .ok _ => Q' r σ''
      | .error e => Q' (.error e) σ'') σ') : M.Watched (p.tryFinally f) Q' σ := by
  refine Prog.safe_tryFinally.mpr (Prog.Safe.mono hp ?_)
  rintro r _ ⟨σ', rfl, hr⟩
  refine Prog.Safe.mono (hf r σ' hr) ?_
  rintro (e | u) _ ⟨σ'', rfl, hr'⟩
  · exact ⟨σ'', rfl, hr'⟩
  · exact ⟨σ'', rfl, hr'⟩

/-- One operation, and what follows it. -/
theorem watched_step {op : Op} {f : Res op → Prog Op Res ε α}
    (h : ∀ r, ∃ σ', M.next σ op r = some σ' ∧ (∀ a, r = .ok a → M.Watched (f a) Q σ') ∧
      ∀ e, r = .error e → Q (.error e) σ') : M.Watched ((Prog.call op).bind f) Q σ := by
  refine watched_act.mpr fun r => ?_
  obtain ⟨σ', hnext, hok, herr⟩ := h r
  refine ⟨σ', hnext, ?_⟩
  cases r with
  | ok a => exact hok a rfl
  | error e => exact watched_raise (herr e rfl)

/-- A program all of whose operations keep the monitor in `I`. -/
theorem watched_of_only {P : Op → Prop} {I : S → Prop} (hp : p.Only P) (hσ : I σ)
    (hop : ∀ σ op r, I σ → P op → ∃ σ', M.next σ op r = some σ' ∧ I σ') :
    M.Watched p (fun _ σ' => I σ') σ := by
  induction p generalizing σ with
  | ret a => exact watched_ret hσ
  | raise e => exact watched_raise hσ
  | act op k ih =>
      refine watched_act.mpr fun r => ?_
      obtain ⟨σ', hnext, hσ'⟩ := hop σ op r hσ hp.1
      exact ⟨σ', hnext, ih r (hp.2 r) hσ'⟩

/-- What one monitor admits, another admits that follows it through the operations. -/
theorem Watched.transfer {S' : Type} {N : Monitor Op Res ε S'} {P : Op → Prop}
    {R : S → S' → Prop} {τ : S'} (h : M.Watched p Q σ) (hp : p.Only P) (hR : R σ τ)
    (hnext : ∀ σ τ op r σ', R σ τ → P op → M.next σ op r = some σ' →
      ∃ τ', N.next τ op r = some τ' ∧ R σ' τ') : N.Watched p (fun _ _ => True) τ := by
  induction p generalizing σ τ with
  | ret a => exact watched_ret trivial
  | raise e => exact watched_raise trivial
  | act op k ih =>
      refine watched_act.mpr fun r => ?_
      obtain ⟨σ', hσ', hrest⟩ := watched_act.mp h r
      obtain ⟨τ', hτ', hR'⟩ := hnext σ τ op r σ' hR hp.1 hσ'
      exact ⟨τ', hτ', ih r hrest (hp.2 r) hR'⟩

/-- The monitor that admits everything. -/
def top (σ : S) : Monitor Op Res ε S where
  init := σ
  next τ _ _ := some τ

theorem watched_top (τ : S) (p : Prog Op Res ε α) :
    (top τ).Watched p (fun _ _ => True) σ :=
  watched_of_only (I := fun _ => True) (Prog.only_true p) trivial fun τ _ _ _ _ =>
    ⟨τ, rfl, trivial⟩

end Monitor

/-! ### Monitors in a system -/

namespace Sys

variable {ι Op : Type} {Res Ans : Op → Type} {ε W Env In S : Type} [DecidableEq ι]

/-- What an action adds to a count of operations. -/
def adds (count : Op → Nat) (s : Sys ι Op Res ε W) : Action ι Op Ans Env In → Nat
  | .op i _ =>
      match s.procs i with
      | some (.act op _) => count op
      | _ => 0
  | _ => 0

/-- A system that counts operations as it takes them. -/
abbrev countedStep (M : Spec ι Op Res Ans ε W Env In) (count : Op → Nat) :
    Sys ι Op Res ε W × Nat → Action ι Op Ans Env In → Option (Sys ι Op Res ε W × Nat) :=
  StateMachine.counted (step M) (adds count)

/-- Every running program is watched from its monitor's state. -/
def Watching (mon : ι → Monitor Op Res ε S) (s : Sys ι Op Res ε W) (σ : ι → S) : Prop :=
  ∀ i p, s.procs i = some p → (mon i).Watched p (fun _ _ => True) (σ i)

/-- What has to be shown of a relation between the world, the states of the
monitors and the count. -/
structure Tallied (M : Spec ι Op Res Ans ε W Env In) (K : Cond ι Op Ans W Env In)
    (mon : ι → Monitor Op Res ε S) (count : Op → Nat) (J : W → (ι → S) → Nat → Prop) : Prop where
  launch_watched : ∀ w i inp p, K.launch w i inp → M.launch w i inp = some p →
    (mon i).Watched p (fun _ _ => True) (mon i).init
  start : ∀ w σ n i, J w σ n → J w (Function.update σ i (mon i).init) n
  env : ∀ w σ n a w', J w σ n → K.env w a → M.env w a = some w' → J w' σ n
  op : ∀ w σ n i op x r w' σ', J w σ n → K.op op x w → M.iface.perform op x w = some (r, w') →
    (mon i).next (σ i) op r = some σ' → J w' (Function.update σ i σ') (n + count op)
  crash : ∀ w σ n, J w σ n → K.crash w → J (M.crash w) (fun i => (mon i).init) n

namespace Tallied

variable {M : Spec ι Op Res Ans ε W Env In} {K : Cond ι Op Ans W Env In}
  {mon : ι → Monitor Op Res ε S} {count : Op → Nat} {J : W → (ι → S) → Nat → Prop}

omit [DecidableEq ι] in
/-- A program is watched also as what a process has left to run. -/
theorem watched_settle {N : Monitor Op Res ε S} {p q : Prog Op Res ε Unit} {σ : S}
    (h : N.Watched p (fun _ _ => True) σ) (hq : settle p = some q) :
    N.Watched q (fun _ _ => True) σ := by
  cases p with
  | ret a => cases hq
  | raise e => cases hq
  | act op k =>
      obtain rfl := Option.some.inj hq
      exact h

theorem step (h : Tallied M K mon count J) {s s' : Sys ι Op Res ε W} {n n' : Nat} {σ : ι → S}
    {a : Action ι Op Ans Env In} (hwatch : Watching mon s σ) (hJ : J s.world σ n)
    (hok : K.Holds s a) (hstep : countedStep M count (s, n) a = some (s', n')) :
    ∃ σ', Watching mon s' σ' ∧ J s'.world σ' n' := by
  obtain ⟨s₁, hs₁, hs'⟩ := Option.map_eq_some_iff.mp hstep
  obtain ⟨rfl, rfl⟩ := Prod.mk.inj hs'
  cases a with
  | env a =>
      obtain ⟨w, hw, rfl⟩ := Option.map_eq_some_iff.mp hs₁
      exact ⟨σ, hwatch, h.env _ σ n a w hJ hok hw⟩
  | start i inp =>
      simp only [Sys.step] at hs₁
      split at hs₁
      · cases hs₁
      · obtain ⟨p, hp, rfl⟩ := Option.map_eq_some_iff.mp hs₁
        refine ⟨_, fun j q hq => ?_, h.start _ σ n i hJ⟩
        by_cases hj : j = i
        · subst hj
          simp only [Function.update_self] at hq ⊢
          exact watched_settle (h.launch_watched _ j inp p hok hp) hq
        · simp only [Function.update_of_ne hj] at hq ⊢
          exact hwatch j q hq
  | op i answer =>
      simp only [Sys.step] at hs₁
      split at hs₁
      · rename_i op k hproc
        obtain ⟨⟨r, w⟩, hw, rfl⟩ := Option.map_eq_some_iff.mp hs₁
        simp only [Cond.Holds, hproc] at hok
        obtain ⟨σ', hnext, hrest⟩ := Monitor.watched_act.mp (hwatch i _ hproc) r
        have hJ' := h.op _ σ n i op (answer op) r w σ' hJ hok hw hnext
        simp only [adds, hproc]
        refine ⟨_, fun j q hq => ?_, hJ'⟩
        by_cases hj : j = i
        · subst hj
          simp only [Function.update_self] at hq ⊢
          exact watched_settle hrest hq
        · simp only [Function.update_of_ne hj] at hq ⊢
          exact hwatch j q hq
      · cases hs₁
  | crash =>
      obtain rfl := Option.some.inj hs₁
      have hidle : Watching mon { world := M.crash s.world, procs := fun _ => none }
          fun i => (mon i).init := by
        intro i q hq
        cases hq
      exact ⟨_, hidle, h.crash _ σ n hJ hok⟩

end Tallied

variable {M : Spec ι Op Res Ans ε W Env In} {K : Cond ι Op Ans W Env In}
  {mon : ι → Monitor Op Res ε S} {count : Op → Nat} {J : W → (ι → S) → Nat → Prop}

/-- **The rule for watched systems.** -/
theorem watched_run (h : Tallied M K mon count J) {s s' : Sys ι Op Res ε W} {n n' : Nat}
    {σ : ι → S} (hwatch : Watching mon s σ) (hJ : J s.world σ n)
    (hrun : StateMachine.RunOk (countedStep M count) (fun t => K.Holds t.1) (s, n) (s', n')) :
    ∃ σ', Watching mon s' σ' ∧ J s'.world σ' n' := by
  refine hrun.invariant
    (I := fun t => ∃ σ, Watching mon t.1 σ ∧ J t.1.world σ t.2) ?_ ⟨σ, hwatch, hJ⟩
  rintro ⟨s, n⟩ a ⟨s', n'⟩ ⟨σ, hwatch, hJ⟩ hok hstep
  exact h.step hwatch hJ hok hstep

end Sys
