/-
Dopilot/Program.lean

Effectful programs as trees, and a rely/guarantee logic for them.

A `Prog Op Res ε α` is a program that either has returned, has raised, or asks
its environment to perform one operation and goes on with the answer, which may
be an error.  An `Interface` says what an operation does to the world: the part
of the answer the program cannot know beforehand (a clock, a remote party, a
fault) is an extra argument, and `none` says that the operation blocks.

`Safe` is the weakest-precondition reading of such a program run among others:
before every operation the rest of the world may move as the contract's `rely`
allows, every operation of the program must move the world as `guar` promises,
and the operation's outcomes are those the contract's `ok` admits.  Because the
obligation sits on every single operation, it also covers a program that stops
for good after any of them.

`Reaches` is what shows that a run exists: the one run against given answers, with
a condition on each of its operations.
-/

/-- Programs over the operations `Op`. -/
inductive Prog (Op : Type) (Res : Op → Type) (ε α : Type) : Type
  | ret (a : α)
  | raise (e : ε)
  | act (op : Op) (k : Except ε (Res op) → Prog Op Res ε α)

namespace Prog

variable {Op : Type} {Res : Op → Type} {ε α β : Type}

/-! ### Combinators -/

/-- Sequencing; an error skips the rest. -/
protected def bind : Prog Op Res ε α → (α → Prog Op Res ε β) → Prog Op Res ε β
  | ret a, f => f a
  | raise e, _ => raise e
  | act op k, f => act op fun r => (k r).bind f

/-- `try p except e: h e`. -/
protected def tryCatch : Prog Op Res ε α → (ε → Prog Op Res ε α) → Prog Op Res ε α
  | ret a, _ => ret a
  | raise e, h => h e
  | act op k, h => act op fun r => (k r).tryCatch h

/-- Run `p` and keep how it ended as a value. -/
def attempt : Prog Op Res ε α → Prog Op Res ε (Except ε α)
  | ret a => ret (.ok a)
  | raise e => ret (.error e)
  | act op k => act op fun r => (k r).attempt

/-- `try: p finally: f`; an error of `f` replaces the outcome of `p`. -/
def tryFinally : Prog Op Res ε α → Prog Op Res ε Unit → Prog Op Res ε α
  | ret a, f => f.bind fun _ => ret a
  | raise e, f => f.bind fun _ => raise e
  | act op k, f => act op fun r => (k r).tryFinally f

/-- One operation, its error raised. -/
def call (op : Op) : Prog Op Res ε (Res op) :=
  act op fun
    | .ok a => ret a
    | .error e => raise e

/-- One operation, its error kept as a value. -/
def ask (op : Op) : Prog Op Res ε (Except ε (Res op)) := act op ret

instance : Monad (Prog Op Res ε) where
  pure := ret
  bind := Prog.bind

instance : MonadExceptOf ε (Prog Op Res ε) where
  throw := raise
  tryCatch := Prog.tryCatch

@[simp] theorem pure_eq (a : α) : (pure a : Prog Op Res ε α) = ret a := rfl

@[simp] theorem bind_eq (p : Prog Op Res ε α) (f : α → Prog Op Res ε β) :
    p >>= f = p.bind f := rfl

@[simp] theorem throw_eq (e : ε) : (throw e : Prog Op Res ε α) = raise e := rfl

@[simp] theorem tryCatch_eq (p : Prog Op Res ε α) (h : ε → Prog Op Res ε α) :
    tryCatch p h = p.tryCatch h := rfl

@[simp] theorem ret_bind (a : α) (f : α → Prog Op Res ε β) :
    (ret a : Prog Op Res ε α).bind f = f a := rfl

@[simp] theorem raise_bind (e : ε) (f : α → Prog Op Res ε β) :
    (raise e : Prog Op Res ε α).bind f = raise e := rfl

/-! ### Contracts -/

/-- How an operation may fail: with or without having taken effect. -/
inductive Fault where
  | none
  | before
  | after
  deriving DecidableEq, Repr

/-- Run an effect that may fail before it or answer with an error after it. -/
def withFault (fault : Fault) (e : ε) {W : Type} (w : W) (r : α) (w' : W) :
    Option (Except ε α × W) :=
  match fault with
  | .none => some (.ok r, w')
  | .before => some (.error e, w)
  | .after => some (.error e, w')

/-- What an effect with a fault can end in. -/
theorem withFault_cases {fault : Fault} {e : ε} {W : Type} {w w' w'' : W} {r : α}
    {x : Except ε α} (h : withFault fault e w r w' = some (x, w'')) :
    (fault = .none ∧ x = .ok r ∧ w'' = w') ∨ (fault = .before ∧ x = .error e ∧ w'' = w) ∨
      (fault = .after ∧ x = .error e ∧ w'' = w') := by
  cases fault with
  | none =>
      cases h
      exact .inl ⟨rfl, rfl, rfl⟩
  | before =>
      cases h
      exact .inr (.inl ⟨rfl, rfl, rfl⟩)
  | after =>
      cases h
      exact .inr (.inr ⟨rfl, rfl, rfl⟩)

/-- Whatever the fault, the world has moved or not. -/
theorem withFault_rel {fault : Fault} {e : ε} {W : Type} {w w' w'' : W} {r : α}
    {x : Except ε α} {R : W → W → Prop} (hrefl : R w w) (hmove : R w w')
    (h : withFault fault e w r w' = some (x, w'')) : R w w'' := by
  rcases withFault_cases h with ⟨-, -, rfl⟩ | ⟨-, -, rfl⟩ | ⟨-, -, rfl⟩
  · exact hmove
  · exact hrefl
  · exact hmove

/-- What each operation does to the world, given what the environment decides. -/
structure Interface (Op : Type) (Res Ans : Op → Type) (ε W : Type) where
  perform : (op : Op) → Ans op → W → Option (Except ε (Res op) × W)

/-- The outcomes a program is verified for, what the others may do between two
of its operations, and what each of its operations promises to them. -/
structure Contract (Op : Type) (Ans : Op → Type) (W : Type) where
  ok : (op : Op) → Ans op → W → Prop
  rely : W → W → Prop
  guar : W → W → Prop
  rely_trans : ∀ {w₁ w₂ w₃}, rely w₁ w₂ → rely w₂ w₃ → rely w₁ w₃

variable {Ans : Op → Type} {W : Type}

/-- The contract of a program that runs alone: nothing else moves. -/
def Contract.alone : Contract Op Ans W where
  ok _ _ _ := True
  rely := Eq
  guar _ _ := True
  rely_trans := Eq.trans

/-- The contract of a program that runs alone against given answers. -/
def Contract.given (answers : (op : Op) → Ans op) : Contract Op Ans W where
  ok op x _ := x = answers op
  rely := Eq
  guar _ _ := True
  rely_trans := Eq.trans

/-- Run a program to its end, with the environment's answers given. -/
def exec (F : Interface Op Res Ans ε W) (answers : (op : Op) → Ans op) :
    Prog Op Res ε α → W → Option (Except ε α × W)
  | ret a, w => some (.ok a, w)
  | raise e, w => some (.error e, w)
  | act op k, w => (F.perform op (answers op) w).bind fun r => (k r.1).exec F answers r.2

variable (F : Interface Op Res Ans ε W) (C : Contract Op Ans W)

/-- Run from `w`, the program keeps its contract at every operation and ends
only in outcomes that satisfy `Q`. -/
def Safe : Prog Op Res ε α → (Except ε α → W → Prop) → W → Prop
  | ret a, Q, w => Q (.ok a) w
  | raise e, Q, w => Q (.error e) w
  | act op k, Q, w => ∀ w₁, C.rely w w₁ → ∀ x r w₂, C.ok op x w₁ →
      F.perform op x w₁ = some (r, w₂) → C.guar w₁ w₂ ∧ (k r).Safe Q w₂

/-- The postcondition of `p` that makes `p.bind f` end in `Q`. -/
def bindPost (f : α → Prog Op Res ε β) (Q : Except ε β → W → Prop) : Except ε α → W → Prop
  | .ok a, w => (f a).Safe F C Q w
  | .error e, w => Q (.error e) w

/-- The postcondition of `p` that makes `p.tryCatch h` end in `Q`. -/
def catchPost (h : ε → Prog Op Res ε α) (Q : Except ε α → W → Prop) : Except ε α → W → Prop
  | .ok a, w => Q (.ok a) w
  | .error e, w => (h e).Safe F C Q w

/-- The postcondition of `p` that makes `p.tryFinally f` end in `Q`. -/
def finallyPost (f : Prog Op Res ε Unit) (Q : Except ε α → W → Prop) : Except ε α → W → Prop :=
  fun r w => f.Safe F C (fun r' w' => match r' with
    | .ok _ => Q r w'
    | .error e => Q (.error e) w') w

variable {F C}

/-! ### Rules -/

@[simp] theorem safe_ret (a : α) (Q : Except ε α → W → Prop) (w : W) :
    (ret a : Prog Op Res ε α).Safe F C Q w ↔ Q (.ok a) w := Iff.rfl

@[simp] theorem safe_raise (e : ε) (Q : Except ε α → W → Prop) (w : W) :
    (raise e : Prog Op Res ε α).Safe F C Q w ↔ Q (.error e) w := Iff.rfl

theorem Safe.mono {p : Prog Op Res ε α} {Q Q' : Except ε α → W → Prop} {w : W}
    (h : p.Safe F C Q w) (hQ : ∀ r w, Q r w → Q' r w) : p.Safe F C Q' w := by
  induction p generalizing w with
  | ret a => exact hQ _ _ h
  | raise e => exact hQ _ _ h
  | act op k ih =>
      intro w₁ hw₁ x r w₂ hok hp
      obtain ⟨hg, hk⟩ := h w₁ hw₁ x r w₂ hok hp
      exact ⟨hg, ih r hk⟩

theorem Safe.and {p : Prog Op Res ε α} {Q Q' : Except ε α → W → Prop} {w : W}
    (h : p.Safe F C Q w) (h' : p.Safe F C Q' w) : p.Safe F C (fun r w => Q r w ∧ Q' r w) w := by
  induction p generalizing w with
  | ret a => exact ⟨h, h'⟩
  | raise e => exact ⟨h, h'⟩
  | act op k ih =>
      intro w₁ hw₁ x r w₂ hok hp
      obtain ⟨hg, hk⟩ := h w₁ hw₁ x r w₂ hok hp
      exact ⟨hg, ih r hk (h' w₁ hw₁ x r w₂ hok hp).2⟩

/-- A contract that admits fewer outcomes asks less. -/
theorem Safe.strengthen {C' : Contract Op Ans W} {p : Prog Op Res ε α}
    {Q : Except ε α → W → Prop} {w : W} (h : p.Safe F C Q w)
    (hok : ∀ op x w, C'.ok op x w → C.ok op x w)
    (hrely : ∀ w w', C'.rely w w' → C.rely w w') (hguar : ∀ w w', C.guar w w' → C'.guar w w') :
    p.Safe F C' Q w := by
  induction p generalizing w with
  | ret a => exact h
  | raise e => exact h
  | act op k ih =>
      intro w₁ hw₁ x r w₂ hx hp
      obtain ⟨hg, hk⟩ := h w₁ (hrely w w₁ hw₁) x r w₂ (hok op x w₁ hx) hp
      exact ⟨hguar w₁ w₂ hg, ih r hk⟩

/-- What every move respects, the program's and the others', holds between start
and end. -/
theorem Safe.tracks {p : Prog Op Res ε α} {Q : Except ε α → W → Prop} {R : W → W → Prop}
    {w₀ w : W} (h : p.Safe F C Q w) (htrans : ∀ {w₁ w₂ w₃}, R w₁ w₂ → R w₂ w₃ → R w₁ w₃)
    (hrely : ∀ w w', C.rely w w' → R w w') (hguar : ∀ w w', C.guar w w' → R w w')
    (hw : R w₀ w) : p.Safe F C (fun r w' => Q r w' ∧ R w₀ w') w := by
  induction p generalizing w with
  | ret a => exact ⟨h, hw⟩
  | raise e => exact ⟨h, hw⟩
  | act op k ih =>
      intro w₁ hw₁ x r w₂ hok hp
      obtain ⟨hg, hk⟩ := h w₁ hw₁ x r w₂ hok hp
      exact ⟨hg, ih r hk (htrans (htrans hw (hrely w w₁ hw₁)) (hguar w₁ w₂ hg))⟩

/-- A program that waits for an operation stays safe while the others move. -/
theorem Safe.stable {op : Op} {k : Except ε (Res op) → Prog Op Res ε α}
    {Q : Except ε α → W → Prop} {w w' : W} (h : (act op k).Safe F C Q w)
    (hr : C.rely w w') : (act op k).Safe F C Q w' :=
  fun w₁ hw₁ => h w₁ (C.rely_trans hr hw₁)

theorem safe_bind {p : Prog Op Res ε α} {f : α → Prog Op Res ε β}
    {Q : Except ε β → W → Prop} {w : W} :
    (p.bind f).Safe F C Q w ↔ p.Safe F C (bindPost F C f Q) w := by
  induction p generalizing w with
  | ret a => rfl
  | raise e => rfl
  | act op k ih =>
      simp only [Prog.bind, Safe]
      refine forall₄_congr fun w₁ _ x r => forall₃_congr fun w₂ _ _ => ?_
      rw [ih r]

theorem safe_tryCatch {p : Prog Op Res ε α} {h : ε → Prog Op Res ε α}
    {Q : Except ε α → W → Prop} {w : W} :
    (p.tryCatch h).Safe F C Q w ↔ p.Safe F C (catchPost F C h Q) w := by
  induction p generalizing w with
  | ret a => rfl
  | raise e => rfl
  | act op k ih =>
      simp only [Prog.tryCatch, Safe]
      refine forall₄_congr fun w₁ _ x r => forall₃_congr fun w₂ _ _ => ?_
      rw [ih r]

theorem safe_attempt {p : Prog Op Res ε α} {Q : Except ε (Except ε α) → W → Prop} {w : W} :
    p.attempt.Safe F C Q w ↔ p.Safe F C (fun r w' => Q (.ok r) w') w := by
  induction p generalizing w with
  | ret a => rfl
  | raise e => rfl
  | act op k ih =>
      simp only [attempt, Safe]
      refine forall₄_congr fun w₁ _ x r => forall₃_congr fun w₂ _ _ => ?_
      rw [ih r]

/-- A finalizer is followed by the outcome `p` that it was run for. -/
theorem bindPost_const (p : Prog Op Res ε β) (Q : Except ε β → W → Prop) :
    bindPost F C (fun _ : Unit => p) Q = fun r w => match r with
      | .ok _ => p.Safe F C Q w
      | .error e => Q (.error e) w := by
  funext r w
  cases r with
  | ok u => rfl
  | error e => rfl

theorem safe_tryFinally {p : Prog Op Res ε α} {f : Prog Op Res ε Unit}
    {Q : Except ε α → W → Prop} {w : W} :
    (p.tryFinally f).Safe F C Q w ↔ p.Safe F C (finallyPost F C f Q) w := by
  induction p generalizing w with
  | ret a =>
      rw [tryFinally, safe_bind, bindPost_const]
      rfl
  | raise e =>
      rw [tryFinally, safe_bind, bindPost_const]
      rfl
  | act op k ih =>
      simp only [tryFinally, Safe]
      refine forall₄_congr fun w₁ _ x r => forall₃_congr fun w₂ _ _ => ?_
      rw [ih r]

/-- What a safe program run to its end leads to. -/
theorem Safe.exec {p : Prog Op Res ε α} {Q : Except ε α → W → Prop} {answers : (op : Op) → Ans op}
    {w w' : W} {r : Except ε α} (h : p.Safe F C Q w) (hrefl : ∀ w, C.rely w w)
    (hok : ∀ op w, C.ok op (answers op) w) (he : p.exec F answers w = some (r, w')) : Q r w' := by
  induction p generalizing w with
  | ret a =>
      cases he
      exact h
  | raise e =>
      cases he
      exact h
  | act op k ih =>
      obtain ⟨⟨r₁, w₁⟩, hp, hrest⟩ := Option.bind_eq_some_iff.mp he
      exact ih r₁ (h w (hrefl w) _ r₁ w₁ (hok op w) hp).2 hrest

/-- What a program that is safe alone leads to. -/
theorem Safe.exec_alone {p : Prog Op Res ε α} {Q : Except ε α → W → Prop}
    {answers : (op : Op) → Ans op} {w w' : W} {r : Except ε α}
    (h : p.Safe F Contract.alone Q w) (he : p.exec F answers w = some (r, w')) : Q r w' :=
  h.exec (fun _ => rfl) (fun _ _ => trivial) he

/-- Being safe against given answers is a statement about the one run there is. -/
theorem safe_given {p : Prog Op Res ε α} {Q : Except ε α → W → Prop}
    {answers : (op : Op) → Ans op} {w : W} :
    p.Safe F (Contract.given answers) Q w ↔
      ∀ r w', p.exec F answers w = some (r, w') → Q r w' := by
  constructor
  · intro h r w' he
    exact h.exec (fun _ => rfl) (fun _ _ => rfl) he
  · intro h
    induction p generalizing w with
    | ret a => exact h _ _ rfl
    | raise e => exact h _ _ rfl
    | act op k ih =>
        rintro _ rfl _ r w₂ rfl hp
        refine ⟨trivial, ih r fun r' w' he => h r' w' ?_⟩
        rw [Prog.exec, hp]
        exact he

/-- A program whose operations never block comes to its end. -/
theorem exec_isSome {answers : (op : Op) → Ans op}
    (hop : ∀ op w, (F.perform op (answers op) w).isSome) (p : Prog Op Res ε α) (w : W) :
    (p.exec F answers w).isSome := by
  induction p generalizing w with
  | ret a => rfl
  | raise e => rfl
  | act op k ih =>
      obtain ⟨r, hr⟩ := Option.isSome_iff_exists.mp (hop op w)
      rw [Prog.exec, hr]
      exact ih r.1 r.2

/-! ### The operations of a program -/

/-- Every operation the program can come to satisfies `P`. -/
def Only (P : Op → Prop) : Prog Op Res ε α → Prop
  | ret _ => True
  | raise _ => True
  | act op k => P op ∧ ∀ r, (k r).Only P

theorem Only.mono {P Q : Op → Prop} (h : ∀ op, P op → Q op) {p : Prog Op Res ε α}
    (hp : p.Only P) : p.Only Q := by
  induction p with
  | ret a => trivial
  | raise e => trivial
  | act op k ih => exact ⟨h op hp.1, fun r => ih r (hp.2 r)⟩

theorem Only.bind {P : Op → Prop} {p : Prog Op Res ε α} {f : α → Prog Op Res ε β}
    (hp : p.Only P) (hf : ∀ a, (f a).Only P) : (p.bind f).Only P := by
  induction p with
  | ret a => exact hf a
  | raise e => trivial
  | act op k ih => exact ⟨hp.1, fun r => ih r (hp.2 r)⟩

theorem Only.tryCatch {P : Op → Prop} {p : Prog Op Res ε α} {h : ε → Prog Op Res ε α}
    (hp : p.Only P) (hh : ∀ e, (h e).Only P) : (p.tryCatch h).Only P := by
  induction p with
  | ret a => trivial
  | raise e => exact hh e
  | act op k ih => exact ⟨hp.1, fun r => ih r (hp.2 r)⟩

theorem Only.attempt {P : Op → Prop} {p : Prog Op Res ε α} (hp : p.Only P) :
    p.attempt.Only P := by
  induction p with
  | ret a => trivial
  | raise e => trivial
  | act op k ih => exact ⟨hp.1, fun r => ih r (hp.2 r)⟩

theorem Only.tryFinally {P : Op → Prop} {p : Prog Op Res ε α} {f : Prog Op Res ε Unit}
    (hp : p.Only P) (hf : f.Only P) : (p.tryFinally f).Only P := by
  induction p with
  | ret a => exact hf.bind fun _ => trivial
  | raise e => exact hf.bind fun _ => trivial
  | act op k ih => exact ⟨hp.1, fun r => ih r (hp.2 r)⟩

theorem only_call {P : Op → Prop} {op : Op} :
    (call op : Prog Op Res ε (Res op)).Only P ↔ P op := by
  refine ⟨fun h => h.1, fun h => ⟨h, fun r => ?_⟩⟩
  cases r with
  | ok a => trivial
  | error e => trivial

/-- A program is safe if each operation it can come to keeps the contract, and a
relation that each of them respects holds between start and end. -/
theorem Only.safe {P : Op → Prop} {p : Prog Op Res ε α} {R : W → W → Prop} (hp : p.Only P)
    (htrans : ∀ {w₁ w₂ w₃}, R w₁ w₂ → R w₂ w₃ → R w₁ w₃) (hrely : ∀ w w', C.rely w w' → R w w')
    (hop : ∀ op x w r w', P op → C.ok op x w → F.perform op x w = some (r, w') →
      C.guar w w' ∧ R w w') {w₀ w : W} (hw : R w₀ w) : p.Safe F C (fun _ w' => R w₀ w') w := by
  induction p generalizing w with
  | ret a => exact hw
  | raise e => exact hw
  | act op k ih =>
      intro w₁ hw₁ x r w₂ hok hperf
      obtain ⟨hguar, hstep⟩ := hop op x w₁ r w₂ hp.1 hok hperf
      exact ⟨hguar, ih r (hp.2 r) (htrans (htrans hw (hrely w w₁ hw₁)) hstep)⟩

/-- A relation that every operation a program can come to respects holds between
start and end. -/
theorem exec_rel {P : Op → Prop} {p : Prog Op Res ε α} {answers : (op : Op) → Ans op}
    {R : W → W → Prop} (hrefl : ∀ w, R w w)
    (htrans : ∀ {w₁ w₂ w₃}, R w₁ w₂ → R w₂ w₃ → R w₁ w₃) (hp : p.Only P)
    (hop : ∀ op w r w', P op → F.perform op (answers op) w = some (r, w') → R w w')
    {w w' : W} {r : Except ε α} (he : p.exec F answers w = some (r, w')) : R w w' := by
  induction p generalizing w with
  | ret a =>
      cases he
      exact hrefl _
  | raise e =>
      cases he
      exact hrefl _
  | act op k ih =>
      obtain ⟨⟨r₁, w₁⟩, hperf, hrest⟩ := Option.bind_eq_some_iff.mp he
      exact htrans (hop op w r₁ w₁ hp.1 hperf) (ih r₁ (hp.2 r₁) hrest)

theorem only_true (p : Prog Op Res ε α) : p.Only fun _ => True := by
  induction p with
  | ret a => trivial
  | raise e => trivial
  | act op k ih => exact ⟨trivial, ih⟩

/-- The rule of a single operation. -/
theorem safe_call {op : Op} {Q : Except ε (Res op) → W → Prop} {w : W} :
    (call op : Prog Op Res ε (Res op)).Safe F C Q w ↔
      ∀ w₁, C.rely w w₁ → ∀ x r w₂, C.ok op x w₁ → F.perform op x w₁ = some (r, w₂) →
        C.guar w₁ w₂ ∧ Q r w₂ := by
  simp only [call, Safe]
  refine forall₄_congr fun w₁ _ x r => forall₃_congr fun w₂ _ _ => ?_
  cases r with
  | ok a => rfl
  | error e => rfl

/-- The rule of a single operation whose error is kept. -/
theorem safe_ask {op : Op} {Q : Except ε (Except ε (Res op)) → W → Prop} {w : W} :
    (ask op : Prog Op Res ε (Except ε (Res op))).Safe F C Q w ↔
      ∀ w₁, C.rely w w₁ → ∀ x r w₂, C.ok op x w₁ → F.perform op x w₁ = some (r, w₂) →
        C.guar w₁ w₂ ∧ Q (.ok r) w₂ := Iff.rfl

/-! ### Runs to an end -/

section Reaches

variable {ok : Op → W → Prop} {answers : (op : Op) → Ans op}

/-- Against the given answers the program comes to an end in `Q`, and each of its operations
meets `ok` where it is performed. -/
def Reaches (F : Interface Op Res Ans ε W) (ok : Op → W → Prop) (answers : (op : Op) → Ans op) :
    Prog Op Res ε α → (Except ε α → W → Prop) → W → Prop
  | ret a, Q, w => Q (.ok a) w
  | raise e, Q, w => Q (.error e) w
  | act op k, Q, w => ok op w ∧ ∃ r w', F.perform op (answers op) w = some (r, w') ∧
      (k r).Reaches F ok answers Q w'

theorem Reaches.mono {p : Prog Op Res ε α} {Q Q' : Except ε α → W → Prop} {w : W}
    (h : p.Reaches F ok answers Q w) (hQ : ∀ r w, Q r w → Q' r w) :
    p.Reaches F ok answers Q' w := by
  induction p generalizing w with
  | ret a => exact hQ _ _ h
  | raise e => exact hQ _ _ h
  | act op k ih =>
      obtain ⟨hok, r, w', hp, hrest⟩ := h
      exact ⟨hok, r, w', hp, ih r hrest⟩

/-- A weaker condition is met as well. -/
theorem Reaches.weaken {ok' : Op → W → Prop} {p : Prog Op Res ε α} {Q : Except ε α → W → Prop}
    {w : W} (h : p.Reaches F ok answers Q w) (hok : ∀ op w, ok op w → ok' op w) :
    p.Reaches F ok' answers Q w := by
  induction p generalizing w with
  | ret a => exact h
  | raise e => exact h
  | act op k ih =>
      obtain ⟨hop, r, w', hp, hrest⟩ := h
      exact ⟨hok op w hop, r, w', hp, ih r hrest⟩

theorem Reaches.bind {p : Prog Op Res ε α} {f : α → Prog Op Res ε β}
    {Q : Except ε β → W → Prop} {w : W}
    (h : p.Reaches F ok answers (fun r w' => match r with
      | .ok a => (f a).Reaches F ok answers Q w'
      | .error e => Q (.error e) w') w) : (p.bind f).Reaches F ok answers Q w := by
  induction p generalizing w with
  | ret a => exact h
  | raise e => exact h
  | act op k ih =>
      obtain ⟨hok, r, w', hp, hrest⟩ := h
      exact ⟨hok, r, w', hp, ih r hrest⟩

/-- The handler goes on where an error was raised. -/
theorem Reaches.tryCatch {p : Prog Op Res ε α} {f : ε → Prog Op Res ε α}
    {Q : Except ε α → W → Prop} {w : W}
    (h : p.Reaches F ok answers (fun r w' => match r with
      | .ok a => Q (.ok a) w'
      | .error e => (f e).Reaches F ok answers Q w') w) :
    (p.tryCatch f).Reaches F ok answers Q w := by
  induction p generalizing w with
  | ret a => exact h
  | raise e => exact h
  | act op k ih =>
      obtain ⟨hok, r, w', hp, hrest⟩ := h
      exact ⟨hok, r, w', hp, ih r hrest⟩

end Reaches

end Prog
