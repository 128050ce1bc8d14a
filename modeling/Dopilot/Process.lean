/-
Dopilot/Process.lean

Processes running side by side over one world, with crashes.

A system holds the world and, for every process, the program it still has to
run.  Its actions are one move of the environment, the start of a program on an
idle process, one operation of a running program (with the environment's part
of the answer), and a crash, which stops every process wherever it stands and
keeps of the world what survives.

`Verified` collects what has to be shown of the parts: every started program is
`Safe` for its process's contract, and moves of the environment, crashes and
the other processes respect what a contract relies on.  `Verified.run` is the
rule the development rests on: the world's invariant then holds in every state
of every run, and every idle process satisfies its idle assertion.  What one
program leaves is read off its contract once it has ended (`Verified.ended`).
-/
import Dopilot.Program
import Dopilot.StateMachine
import Mathlib.Logic.Function.Basic

/-- The world together with what each process still has to run. -/
structure Sys (ι Op : Type) (Res : Op → Type) (ε W : Type) where
  world : W
  procs : ι → Option (Prog Op Res ε Unit)

namespace Sys

/-- One action of a system. -/
inductive Action (ι Op : Type) (Ans : Op → Type) (Env In : Type) where
  | env (a : Env)
  | start (i : ι) (inp : In)
  | op (i : ι) (answer : (op : Op) → Ans op)
  | crash

/-- The parts a system is made of. -/
structure Spec (ι Op : Type) (Res Ans : Op → Type) (ε W Env In : Type) where
  iface : Prog.Interface Op Res Ans ε W
  env : W → Env → Option W
  /-- The program a process runs on an input; `none` when it is not started. -/
  launch : W → ι → In → Option (Prog Op Res ε Unit)
  /-- What survives a crash. -/
  crash : W → W

/-- A condition on the actions of a run. -/
structure Cond (ι Op : Type) (Ans : Op → Type) (W Env In : Type) where
  env : W → Env → Prop
  launch : W → ι → In → Prop
  op : (op : Op) → Ans op → W → Prop
  crash : W → Prop

/-- No condition. -/
def Cond.always {ι Op : Type} {Ans : Op → Type} {W Env In : Type} : Cond ι Op Ans W Env In where
  env _ _ := True
  launch _ _ _ := True
  op _ _ _ := True
  crash _ := True

variable {ι Op : Type} {Res Ans : Op → Type} {ε W Env In : Type}

/-- What a process has left to run: a program that ended leaves it idle. -/
def settle : Prog Op Res ε Unit → Option (Prog Op Res ε Unit)
  | .act op k => some (.act op k)
  | _ => none

section Steps

variable [DecidableEq ι]

/-- The step function of a system. -/
def step (M : Spec ι Op Res Ans ε W Env In) (s : Sys ι Op Res ε W) :
    Action ι Op Ans Env In → Option (Sys ι Op Res ε W)
  | .env a => (M.env s.world a).map fun w => { s with world := w }
  | .start i inp =>
      match s.procs i with
      | some _ => none
      | none => (M.launch s.world i inp).map fun p =>
          { s with procs := Function.update s.procs i (settle p) }
  | .op i answer =>
      match s.procs i with
      | some (.act op k) => (M.iface.perform op (answer op) s.world).map fun r =>
          { world := r.2, procs := Function.update s.procs i (settle (k r.1)) }
      | _ => none
  | .crash => some { world := M.crash s.world, procs := fun _ => none }

/-- The condition an action meets where it is taken. -/
def Cond.Holds (K : Cond ι Op Ans W Env In) (s : Sys ι Op Res ε W) :
    Action ι Op Ans Env In → Prop
  | .env a => K.env s.world a
  | .start i inp => K.launch s.world i inp
  | .op i answer =>
      match s.procs i with
      | some (.act op _) => K.op op (answer op) s.world
      | _ => True
  | .crash => K.crash s.world

omit [DecidableEq ι] in
theorem Cond.always_holds (s : Sys ι Op Res ε W) (a : Action ι Op Ans Env In) :
    (Cond.always : Cond ι Op Ans W Env In).Holds s a := by
  cases a with
  | op i answer =>
      simp only [Holds]
      split
      · trivial
      · trivial
  | env a => trivial
  | start i inp => trivial
  | crash => trivial

instance (K : Cond ι Op Ans W Env In) [∀ w a, Decidable (K.env w a)]
    [∀ w i inp, Decidable (K.launch w i inp)] [∀ op x w, Decidable (K.op op x w)]
    [∀ w, Decidable (K.crash w)] (s : Sys ι Op Res ε W) :
    (a : Action ι Op Ans Env In) → Decidable (K.Holds s a)
  | .env a => inferInstanceAs (Decidable (K.env s.world a))
  | .start i inp => inferInstanceAs (Decidable (K.launch s.world i inp))
  | .op i answer =>
      match h : s.procs i with
      | some (.act op _) =>
          decidable_of_iff (K.op op (answer op) s.world) (by simp only [Cond.Holds, h])
      | some (.ret _) => isTrue (by simp only [Cond.Holds, h])
      | some (.raise _) => isTrue (by simp only [Cond.Holds, h])
      | none => isTrue (by simp only [Cond.Holds, h])
  | .crash => inferInstanceAs (Decidable (K.crash s.world))

end Steps

/-! ### The invariant rule -/

/-- The contract of a process of a verified system: operations are taken where
the condition and the world's invariant hold. -/
def contract (K : Cond ι Op Ans W Env In) (Inv : W → Prop) (rely guar : W → W → Prop)
    (trans : ∀ {w₁ w₂ w₃}, rely w₁ w₂ → rely w₂ w₃ → rely w₁ w₃) : Prog.Contract Op Ans W where
  ok op x w := K.op op x w ∧ Inv w
  rely := rely
  guar := guar
  rely_trans := trans

/-- What makes a system keep its invariant in the runs that meet `K`. -/
structure Verified (M : Spec ι Op Res Ans ε W Env In) (K : Cond ι Op Ans W Env In) where
  Inv : W → Prop
  Idle : ι → W → Prop
  rely : ι → W → W → Prop
  guar : ι → W → W → Prop
  rely_refl : ∀ i w, rely i w w
  rely_trans : ∀ i {w₁ w₂ w₃}, rely i w₁ w₂ → rely i w₂ w₃ → rely i w₁ w₃
  env_step : ∀ w a w', Inv w → K.env w a → M.env w a = some w' → Inv w' ∧ ∀ i, rely i w w'
  launch_safe : ∀ w i inp p, Inv w → Idle i w → K.launch w i inp →
    M.launch w i inp = some p →
    p.Safe M.iface (contract K Inv (rely i) (guar i) (rely_trans i)) (fun _ => Idle i) w
  guar_step : ∀ i w w', Inv w → guar i w w' → Inv w' ∧ ∀ j, j ≠ i → rely j w w'
  idle_stable : ∀ i w w', Idle i w → rely i w w' → Idle i w'
  crash_step : ∀ w, Inv w → K.crash w → Inv (M.crash w) ∧ ∀ i, Idle i (M.crash w)

namespace Verified

variable {M : Spec ι Op Res Ans ε W Env In} {K : Cond ι Op Ans W Env In} (V : Verified M K)

/-- The contract of process `i`. -/
def contractOf (i : ι) : Prog.Contract Op Ans W :=
  contract K V.Inv (V.rely i) (V.guar i) (V.rely_trans i)

/-- What is known of process `i` in a state of a run. -/
def ProcOk (i : ι) (w : W) : Option (Prog Op Res ε Unit) → Prop
  | none => V.Idle i w
  | some p => settle p = some p ∧ p.Safe M.iface (V.contractOf i) (fun _ => V.Idle i) w

/-- The invariant of a whole system state. -/
def Good (s : Sys ι Op Res ε W) : Prop :=
  V.Inv s.world ∧ ∀ i, V.ProcOk i s.world (s.procs i)

theorem procOk_settle {i : ι} {w : W} {p : Prog Op Res ε Unit}
    (h : p.Safe M.iface (V.contractOf i) (fun _ => V.Idle i) w) : V.ProcOk i w (settle p) := by
  cases p with
  | ret a => exact h
  | raise e => exact h
  | act op k => exact ⟨rfl, h⟩

theorem procOk_stable {i : ι} {w w' : W} {q : Option (Prog Op Res ε Unit)}
    (h : V.ProcOk i w q) (hr : V.rely i w w') : V.ProcOk i w' q := by
  rcases q with - | p
  · exact V.idle_stable i w w' h hr
  · obtain ⟨hp, hsafe⟩ := h
    cases p with
    | ret a => cases hp
    | raise e => cases hp
    | act op k => exact ⟨rfl, Prog.Safe.stable (C := V.contractOf i) hsafe hr⟩

variable [DecidableEq ι]

theorem good_step (s : Sys ι Op Res ε W) (a : Action ι Op Ans Env In) (s' : Sys ι Op Res ε W)
    (hs : V.Good s) (hok : K.Holds s a) (h : step M s a = some s') : V.Good s' := by
  obtain ⟨hinv, hprocs⟩ := hs
  cases a with
  | env a =>
      obtain ⟨w, hw, rfl⟩ := Option.map_eq_some_iff.mp h
      obtain ⟨hinv', hrely⟩ := V.env_step _ a w hinv hok hw
      exact ⟨hinv', fun i => V.procOk_stable (hprocs i) (hrely i)⟩
  | start i inp =>
      simp only [step] at h
      split at h
      · cases h
      · rename_i hidle
        obtain ⟨p, hp, rfl⟩ := Option.map_eq_some_iff.mp h
        refine ⟨hinv, fun j => ?_⟩
        by_cases hj : j = i
        · subst hj
          have hi : V.Idle j s.world := by
            have := hprocs j
            rwa [hidle] at this
          simp only [Function.update_self]
          exact V.procOk_settle (V.launch_safe _ j inp p hinv hi hok hp)
        · simp only [Function.update_of_ne hj]
          exact hprocs j
  | op i answer =>
      simp only [step] at h
      split at h
      · rename_i op k hp
        obtain ⟨⟨r, w⟩, hw, rfl⟩ := Option.map_eq_some_iff.mp h
        have hsafe := hprocs i
        rw [hp] at hsafe
        simp only [Cond.Holds, hp] at hok
        obtain ⟨hguar, hrest⟩ := hsafe.2 _ (V.rely_refl i _) (answer op) r w ⟨hok, hinv⟩ hw
        obtain ⟨hinv', hrely⟩ := V.guar_step i _ _ hinv hguar
        refine ⟨hinv', fun j => ?_⟩
        by_cases hj : j = i
        · subst hj
          simp only [Function.update_self]
          exact V.procOk_settle hrest
        · simp only [Function.update_of_ne hj]
          exact V.procOk_stable (hprocs j) (hrely j hj)
      · cases h
  | crash =>
      obtain rfl := Option.some.inj h
      obtain ⟨hinv', hidle⟩ := V.crash_step _ hinv hok
      exact ⟨hinv', hidle⟩

/-- **The invariant rule for systems.** -/
theorem run {s s' : Sys ι Op Res ε W} (h : StateMachine.RunOk (step M) K.Holds s s')
    (hs : V.Good s) : V.Good s' :=
  h.invariant V.good_step hs

/-- What a running process does is what its contract promises. -/
theorem step_guar {s s' : Sys ι Op Res ε W} {i : ι} {answer : (op : Op) → Ans op}
    (hs : V.Good s) (hok : K.Holds s (.op i answer)) (h : step M s (.op i answer) = some s') :
    V.guar i s.world s'.world := by
  obtain ⟨hinv, hprocs⟩ := hs
  simp only [step] at h
  split at h
  · rename_i op k hp
    obtain ⟨⟨r, w⟩, hw, rfl⟩ := Option.map_eq_some_iff.mp h
    have hsafe := hprocs i
    rw [hp] at hsafe
    simp only [Cond.Holds, hp] at hok
    exact (hsafe.2 _ (V.rely_refl i _) (answer op) r w ⟨hok, hinv⟩ hw).1
  · cases h

/-- A further invariant of the world, shown from what the processes promise. -/
theorem run_with {J : W → Prop}
    (henv : ∀ w a w', V.Inv w → J w → K.env w a → M.env w a = some w' → J w')
    (hguar : ∀ i w w', V.Inv w → J w → V.guar i w w' → J w')
    (hcrash : ∀ w, V.Inv w → J w → K.crash w → J (M.crash w)) {s s' : Sys ι Op Res ε W}
    (h : StateMachine.RunOk (step M) K.Holds s s') (hs : V.Good s) (hj : J s.world) :
    V.Good s' ∧ J s'.world := by
  refine h.invariant (I := fun s => V.Good s ∧ J s.world) ?_ ⟨hs, hj⟩
  rintro s a s' ⟨hgood, hj⟩ hok hstep
  refine ⟨V.good_step s a s' hgood hok hstep, ?_⟩
  cases a with
  | env a =>
      obtain ⟨w, hw, rfl⟩ := Option.map_eq_some_iff.mp hstep
      exact henv _ a w hgood.1 hj hok hw
  | start i inp =>
      simp only [step] at hstep
      split at hstep
      · cases hstep
      · obtain ⟨p, -, rfl⟩ := Option.map_eq_some_iff.mp hstep
        exact hj
  | op i answer => exact hguar i _ _ hgood.1 hj (V.step_guar hgood hok hstep)
  | crash =>
      obtain rfl := Option.some.inj hstep
      exact hcrash _ hgood.1 hj hok

end Verified

/-! ### Stronger conditions -/

/-- `K` admits the actions that `K'` admits. -/
structure Cond.Weaker (K K' : Cond ι Op Ans W Env In) : Prop where
  env : ∀ w a, K'.env w a → K.env w a
  launch : ∀ w i inp, K'.launch w i inp → K.launch w i inp
  op : ∀ op x w, K'.op op x w → K.op op x w
  crash : ∀ w, K'.crash w → K.crash w

theorem Cond.Weaker.holds {K K' : Cond ι Op Ans W Env In} (h : K.Weaker K')
    (s : Sys ι Op Res ε W) (a : Action ι Op Ans Env In) (ha : K'.Holds s a) : K.Holds s a := by
  cases a with
  | env a => exact h.env s.world a ha
  | start i inp => exact h.launch s.world i inp ha
  | op i answer =>
      simp only [Holds] at ha ⊢
      split
      · rename_i op k hp
        rw [hp] at ha
        exact h.op op (answer op) s.world ha
      · trivial
  | crash => exact h.crash s.world ha

namespace Verified

variable {M : Spec ι Op Res Ans ε W Env In} {K K' : Cond ι Op Ans W Env In} (V : Verified M K)

/-- A system verified under a condition is verified under a stronger one. -/
def strengthen (h : K.Weaker K') : Verified M K' where
  Inv := V.Inv
  Idle := V.Idle
  rely := V.rely
  guar := V.guar
  rely_refl := V.rely_refl
  rely_trans := V.rely_trans
  env_step w a w' hinv hK hw := V.env_step w a w' hinv (h.env w a hK) hw
  launch_safe w i inp p hinv hidle hK hp := by
    have hsafe := V.launch_safe w i inp p hinv hidle (h.launch w i inp hK) hp
    refine hsafe.strengthen (fun op x w hx => ?_) (fun _ _ hr => hr) fun _ _ hg => hg
    exact ⟨h.op op x w hx.1, hx.2⟩
  guar_step := V.guar_step
  idle_stable := V.idle_stable
  crash_step w hinv hK := V.crash_step w hinv (h.crash w hK)

theorem Good.strengthen {V : Verified M K} {s : Sys ι Op Res ε W} (hs : V.Good s)
    (h : K.Weaker K') : (V.strengthen h).Good s := by
  refine ⟨hs.1, fun i => ?_⟩
  have hproc := hs.2 i
  cases hq : s.procs i with
  | none =>
      rw [hq] at hproc
      exact hproc
  | some q =>
      rw [hq] at hproc
      refine ⟨hproc.1, hproc.2.strengthen (fun op x w hx => ?_) (fun _ _ hr => hr) fun _ _ hg => hg⟩
      exact ⟨h.op op x w hx.1, hx.2⟩

end Verified

/-! ### One program, to its end -/

/-- The condition of the actions between which process `i` runs one program: it
is not started anew, and nothing crashes. -/
def Cond.within (K : Cond ι Op Ans W Env In) (i : ι) : Cond ι Op Ans W Env In where
  env := K.env
  launch w j inp := K.launch w j inp ∧ j ≠ i
  op := K.op
  crash _ := False

instance (K : Cond ι Op Ans W Env In) (i : ι) [∀ w a, Decidable (K.env w a)] (w : W) (a : Env) :
    Decidable ((K.within i).env w a) := inferInstanceAs (Decidable (K.env w a))

instance (K : Cond ι Op Ans W Env In) (i : ι) [DecidableEq ι]
    [∀ w j inp, Decidable (K.launch w j inp)] (w : W) (j : ι) (inp : In) :
    Decidable ((K.within i).launch w j inp) := inferInstanceAs (Decidable (K.launch w j inp ∧ j ≠ i))

instance (K : Cond ι Op Ans W Env In) (i : ι) [∀ op x w, Decidable (K.op op x w)] (op : Op)
    (x : Ans op) (w : W) : Decidable ((K.within i).op op x w) :=
  inferInstanceAs (Decidable (K.op op x w))

instance (K : Cond ι Op Ans W Env In) (i : ι) (w : W) : Decidable ((K.within i).crash w) :=
  inferInstanceAs (Decidable False)

theorem Cond.holds_of_within [DecidableEq ι] {K : Cond ι Op Ans W Env In} {i : ι}
    (s : Sys ι Op Res ε W) (a : Action ι Op Ans Env In) (h : (K.within i).Holds s a) :
    K.Holds s a := by
  cases a with
  | env a => exact h
  | start j inp => exact h.1
  | op j answer =>
      simp only [Holds] at h ⊢
      split at h
      · exact h
      · trivial
  | crash => exact h.elim

namespace Verified

variable {M : Spec ι Op Res Ans ε W Env In} {K : Cond ι Op Ans W Env In} (V : Verified M K)

/-- The system while process `i` runs a program that ends in `Q`. -/
def within (i : ι) (Q : W → Prop) (hQ : ∀ w w', Q w → V.rely i w w' → Q w') :
    Verified M (K.within i) where
  Inv := V.Inv
  Idle j w := (j = i → Q w) ∧ (j ≠ i → V.Idle j w)
  rely := V.rely
  guar := V.guar
  rely_refl := V.rely_refl
  rely_trans := V.rely_trans
  env_step := V.env_step
  launch_safe w j inp p hinv hidle hK hp :=
    (V.launch_safe w j inp p hinv (hidle.2 hK.2) hK.1 hp).mono fun _ _ h =>
      ⟨fun hj => (hK.2 hj).elim, fun _ => h⟩
  guar_step := V.guar_step
  idle_stable j w w' hidle hr :=
    ⟨fun hj => hQ w w' (hidle.1 hj) (hj ▸ hr), fun hj => V.idle_stable j w w' (hidle.2 hj) hr⟩
  crash_step _ _ hK := hK.elim

variable [DecidableEq ι]

/-- **What a program that was started leaves once it has come to its end.** -/
theorem ended {s s₁ s₂ : Sys ι Op Res ε W} {i : ι} {inp : In} {Q : W → Prop} (hs : V.Good s)
    (hsafe : ∀ p, M.launch s.world i inp = some p →
      p.Safe M.iface (V.contractOf i) (fun _ => Q) s.world)
    (hstable : ∀ w w', Q w → V.rely i w w' → Q w')
    (hstart : step M s (.start i inp) = some s₁)
    (hrun : StateMachine.RunOk (step M) (K.within i).Holds s₁ s₂) (hend : s₂.procs i = none) :
    Q s₂.world := by
  have hgood : (V.within i Q hstable).Good s₁ := by
    obtain ⟨hinv, hprocs⟩ := hs
    simp only [step] at hstart
    split at hstart
    · cases hstart
    obtain ⟨p, hp, rfl⟩ := Option.map_eq_some_iff.mp hstart
    refine ⟨hinv, fun j => ?_⟩
    by_cases hj : j = i
    · subst hj
      simp only [Function.update_self]
      exact procOk_settle _ ((hsafe p hp).mono fun _ _ h => ⟨fun _ => h, fun hc => (hc rfl).elim⟩)
    · simp only [Function.update_of_ne hj]
      have hok := hprocs j
      cases hproc : s.procs j with
      | none =>
          rw [hproc] at hok
          exact ⟨fun hc => (hj hc).elim, fun _ => hok⟩
      | some q =>
          rw [hproc] at hok
          exact ⟨hok.1, hok.2.mono fun _ _ h => ⟨fun hc => (hj hc).elim, fun _ => h⟩⟩
  have hidle := ((V.within i Q hstable).run hrun hgood).2 i
  rw [hend] at hidle
  exact hidle.1 rfl

end Verified

/-! ### One program, run to its end -/

section Reaches

open StateMachine (RunOk)

variable [DecidableEq ι] {M : Spec ι Op Res Ans ε W Env In} {K : Cond ι Op Ans W Env In}
variable {answers : (op : Op) → Ans op} {i : ι}

/-- The actions of a program that comes to its end. -/
theorem run_of_reaches (i : ι) (procs : ι → Option (Prog Op Res ε Unit))
    {p : Prog Op Res ε Unit} {Q : Except ε Unit → W → Prop} {w : W}
    (h : p.Reaches M.iface (fun op w => K.op op (answers op) w) answers Q w) :
    ∃ r w', Q r w' ∧ RunOk (step M) K.Holds ⟨w, Function.update procs i (settle p)⟩
      ⟨w', Function.update procs i none⟩ := by
  induction p generalizing w with
  | ret a => exact ⟨_, w, h, RunOk.refl _⟩
  | raise e => exact ⟨_, w, h, RunOk.refl _⟩
  | act op k ih =>
      obtain ⟨hok, r, w₁, hp, hrest⟩ := h
      obtain ⟨r', w', hQ, hrun⟩ := ih r hrest
      have hproc : Function.update procs i (settle (Prog.act op k)) i = some (Prog.act op k) :=
        Function.update_self _ _ _
      refine ⟨r', w', hQ, RunOk.head (a := .op i answers) ?_ ?_ hrun⟩
      · simp only [Cond.Holds, hproc]
        exact hok
      · simp only [step, hproc, hp, Option.map_some, Function.update_idem]

/-- A process that is started runs its program to an end. -/
theorem run_program {p : Prog Op Res ε Unit} {Q : Except ε Unit → W → Prop}
    {s : Sys ι Op Res ε W} {inp : In} (hidle : s.procs i = none)
    (hlaunch : M.launch s.world i inp = some p) (hcond : K.launch s.world i inp)
    (h : p.Reaches M.iface (fun op w => K.op op (answers op) w) answers Q s.world) :
    ∃ r w', Q r w' ∧ RunOk (step M) K.Holds s { s with world := w' } := by
  obtain ⟨r, w', hQ, hrun⟩ := run_of_reaches i s.procs h
  rw [show Function.update s.procs i none = s.procs by rw [← hidle, Function.update_eq_self]]
    at hrun
  refine ⟨r, w', hQ, RunOk.head (a := .start i inp) hcond ?_ hrun⟩
  simp only [step, hidle, hlaunch, Option.map_some]

end Reaches

end Sys
