/-
Dopilot/TokenReading.lean

How the tokenizer reads one token.

`Reads st text st' out` says that the tokenizer, inside a token, goes from one
state to another over a text and adds `out` to the token.  A token of the result
is what was read up to a space outside quotes or up to the end (`lexFrom_ok`).

What is read is counted: no character comes out more often than it went in
(`Reads.count_le`), one that means nothing to the tokenizer comes out as often
(`Reads.count_eq`), and where no single quote is used up, each double quote that
comes out has used up a backslash (`Reads.count_escapes`).
-/
import Dopilot.Quoting

namespace Dopilot

namespace ScrapyCommand

/-! ### Reading -/

/-- What a character adds to the token. -/
def lexOut : LexState → Char → Text
  | .blank, c => if isQuote c ∨ c = backslash then [] else [c]
  | .word, c => if isQuote c ∨ c = backslash then [] else [c]
  | .quote q, c => if c = q then [] else if c = backslash ∧ q = doubleQuote then [] else [c]
  | .escape none, c => [c]
  | .escape (some q), c => if c = backslash ∨ c = q then [c] else [backslash, c]

/-- In the state, a space ends the token. -/
def LexState.between : LexState → Bool
  | blank | word => true
  | quote _ | escape _ => false

/-- Within a token, from a state to a state, with what is added to the token. -/
inductive Reads : LexState → Text → LexState → Text → Prop
  | nil (st : LexState) : Reads st [] st []
  | cons {st st' : LexState} {c : Char} {cs out : Text}
      (hc : st.between = true → c ∉ lexSpace) (rest : Reads (lexNext st c) cs st' out) :
      Reads st (c :: cs) st' (lexOut st c ++ out)

theorem Reads.append {st st' st'' : LexState} {cs cs' out out' : Text} (h : Reads st cs st' out)
    (h' : Reads st' cs' st'' out') : Reads st (cs ++ cs') st'' (out ++ out') := by
  induction h with
  | nil => exact h'
  | cons hc rest ih =>
      rw [List.cons_append, List.append_assoc]
      exact .cons hc (ih h')

theorem Reads.one {st : LexState} {c : Char} (hc : st.between = true → c ∉ lexSpace) :
    Reads st [c] (lexNext st c) (lexOut st c) := by
  have h := Reads.cons hc (.nil (lexNext st c))
  rwa [List.append_nil] at h

/-- One character of a token. -/
theorem lexFrom_cons {st : LexState} {token : Text} {c : Char} {cs : Text}
    (hc : st.between = true → c ∉ lexSpace) (hblank : st = .blank → token = []) :
    lexFrom st token (c :: cs) = lexFrom (lexNext st c) (token ++ lexOut st c) cs := by
  cases st with
  | blank =>
      rw [hblank rfl]
      simp only [lexFrom, lexNext, lexOut, if_neg (hc rfl)]
      by_cases hb : c = backslash
      · subst hb
        simp
      · by_cases hq : isQuote c = true
        · simp [hb, hq]
        · simp [hb, hq]
  | word =>
      simp only [lexFrom, lexNext, lexOut, if_neg (hc rfl)]
      by_cases hq : isQuote c = true
      · simp [hq]
      · by_cases hb : c = backslash
        · simp [hb, not_isQuote_backslash]
        · simp [hq, hb]
  | quote q =>
      simp only [lexFrom, lexNext, lexOut]
      split
      · rw [List.append_nil]
      · split
        · rw [List.append_nil]
        · rfl
  | escape back =>
      cases back with
      | none => rfl
      | some q =>
          simp only [lexFrom, lexNext, lexOut]
          split <;> rfl

/-- The space between tokens is left once and for all. -/
theorem lexNext_ne_blank {st : LexState} {c : Char} (hc : st.between = true → c ∉ lexSpace) :
    lexNext st c ≠ .blank := by
  intro hnext
  cases st with
  | blank =>
      simp only [lexNext, if_neg (hc rfl)] at hnext
      split at hnext
      · cases hnext
      · split at hnext <;> cases hnext
  | word =>
      simp only [lexNext, if_neg (hc rfl)] at hnext
      split at hnext
      · cases hnext
      · split at hnext <;> cases hnext
  | quote q =>
      simp only [lexNext] at hnext
      split at hnext
      · cases hnext
      · split at hnext <;> cases hnext
  | escape back => cases back <;> cases hnext

/-- What is read is added to the token. -/
theorem Reads.lexFrom {st st' : LexState} {cs out : Text} (h : Reads st cs st' out)
    {token : Text} (hblank : st = .blank → token = []) (rest : Text) :
    lexFrom st token (cs ++ rest) = lexFrom st' (token ++ out) rest := by
  induction h generalizing token with
  | nil => rw [List.nil_append, List.append_nil]
  | @cons st st' c cs out hc hrest ih =>
      rw [List.cons_append, lexFrom_cons hc hblank, ih, List.append_assoc]
      exact fun hnext => absurd hnext (lexNext_ne_blank hc)

/-- What stands behind a token: nothing, or a space and the tokens to come. -/
def Behind (rest : Text) (tokens : List Text) : Prop :=
  (rest = [] ∧ tokens = []) ∨ ∃ c rest', c ∈ lexSpace ∧ rest = c :: rest' ∧
    lexFrom .blank [] rest' = .ok tokens

/-- **A token** of the result is what was read up to its end. -/
theorem lexFrom_ok {st : LexState} {token text : Text} {tokens : List Text} (hst : st ≠ .blank)
    (h : lexFrom st token text = .ok tokens) :
    ∃ used rest out tokens', text = used ++ rest ∧ Reads st used .word out ∧
      tokens = (token ++ out) :: tokens' ∧ Behind rest tokens' := by
  induction text generalizing st token with
  | nil =>
      rcases lexFrom_nil h with rfl | rfl
      · exact absurd rfl hst
      · refine ⟨[], [], [], [], rfl, .nil _, ?_, .inl ⟨rfl, rfl⟩⟩
        rw [List.append_nil]
        exact (Except.ok.inj h).symm
  | cons c cs ih =>
      by_cases hc : st.between = true → c ∉ lexSpace
      · rw [lexFrom_cons hc fun hb => absurd hb hst] at h
        obtain ⟨used, rest, out, tokens', htext, hreads, htokens, hbehind⟩ := ih (lexNext_ne_blank hc) h
        refine ⟨c :: used, rest, lexOut st c ++ out, tokens', ?_, .cons hc hreads, ?_, hbehind⟩
        · rw [htext, List.cons_append]
        · rw [htokens, List.append_assoc]
      · obtain ⟨hbetween, hspace⟩ := Classical.not_imp.mp hc
        rw [not_not] at hspace
        cases st with
        | blank => exact absurd rfl hst
        | word =>
            rw [lexFrom, if_pos hspace] at h
            cases hrest : lexFrom .blank [] cs with
            | error e =>
                rw [hrest] at h
                cases h
            | ok tokens' =>
                rw [hrest] at h
                refine ⟨[], c :: cs, [], tokens', rfl, .nil _, ?_,
                  .inr ⟨c, cs, hspace, rfl, hrest⟩⟩
                rw [List.append_nil]
                exact (Except.ok.inj h).symm
        | quote q => cases hbetween
        | escape back => cases hbetween

/-! ### Counting -/

/-- A character that means nothing to the tokenizer. -/
def inert (x : Char) : Bool := !isQuote x && x != backslash

theorem inert_iff {x : Char} : inert x = true ↔ isQuote x = false ∧ x ≠ backslash := by
  rw [inert, Bool.and_eq_true, Bool.not_eq_true', bne_iff_ne]

/-- A character adds an inert one only as itself. -/
theorem count_lexOut_inert {x : Char} (hx : inert x = true) (st : LexState) (c : Char)
    (hst : ∀ q, st = .quote q ∨ st = .escape (some q) → isQuote q = true) :
    (lexOut st c).count x = [c].count x := by
  obtain ⟨hquote, hslash⟩ := inert_iff.mp hx
  have hother : ∀ d : Char, isQuote d = true ∨ d = backslash → [d].count x = 0 := by
    intro d hd
    rw [List.count_eq_zero, List.mem_singleton]
    rintro rfl
    rcases hd with hd | hd
    · rw [hquote] at hd
      cases hd
    · exact hslash hd
  cases st with
  | blank =>
      simp only [lexOut]
      split
      · rename_i hc
        exact (hother c hc).symm
      · rfl
  | word =>
      simp only [lexOut]
      split
      · rename_i hc
        exact (hother c hc).symm
      · rfl
  | quote q =>
      simp only [lexOut]
      split
      · rename_i hc
        exact (hother c (.inl (hc ▸ hst q (.inl rfl)))).symm
      · split
        · rename_i hc
          exact (hother c (.inr hc.1)).symm
        · rfl
  | escape back =>
      cases back with
      | none => rfl
      | some q =>
          simp only [lexOut]
          split
          · rfl
          · rw [List.count_cons_of_ne fun h => hslash h.symm]

/-- The quotation a state is in is one of a quote. -/
def LexState.quoted (st : LexState) : Prop :=
  ∀ q, st = .quote q ∨ st = .escape (some q) → isQuote q = true

theorem quoted_lexNext {st : LexState} (h : st.quoted) (c : Char) : (lexNext st c).quoted := by
  intro q hq
  cases st with
  | blank =>
      simp only [lexNext] at hq
      split at hq
      · rcases hq with hq | hq <;> cases hq
      · split at hq
        · rcases hq with hq | hq <;> cases hq
        · split at hq
          · rename_i hc
            rcases hq with hq | hq <;> cases hq
            exact hc
          · rcases hq with hq | hq <;> cases hq
  | word =>
      simp only [lexNext] at hq
      split at hq
      · rcases hq with hq | hq <;> cases hq
      · split at hq
        · rename_i hc
          rcases hq with hq | hq <;> cases hq
          exact hc
        · split at hq <;> rcases hq with hq | hq <;> cases hq
  | quote q' =>
      simp only [lexNext] at hq
      split at hq
      · rcases hq with hq | hq <;> cases hq
      · split at hq <;> rcases hq with hq | hq <;> cases hq <;> exact h _ (.inl rfl)
  | escape back =>
      cases back with
      | none => rcases hq with hq | hq <;> cases hq
      | some q' =>
          rcases hq with hq | hq <;> cases hq
          exact h _ (.inr rfl)

/-- **An inert character comes out as often as it went in.** -/
theorem Reads.count_eq {st st' : LexState} {cs out : Text} (h : Reads st cs st' out)
    (hst : st.quoted) {x : Char} (hx : inert x = true) : out.count x = cs.count x := by
  induction h with
  | nil => rfl
  | @cons st st' c cs out hc rest ih =>
      rw [List.count_append, count_lexOut_inert hx st c hst, ih (quoted_lexNext hst c),
        ← List.count_append]
      rfl

/-- A character adds another one only if that is a backslash. -/
theorem count_lexOut_le {x : Char} (hx : x ≠ backslash) (st : LexState) (c : Char) :
    (lexOut st c).count x ≤ [c].count x := by
  cases st with
  | blank =>
      simp only [lexOut]
      split
      · exact Nat.zero_le _
      · exact le_refl _
  | word =>
      simp only [lexOut]
      split
      · exact Nat.zero_le _
      · exact le_refl _
  | quote q =>
      simp only [lexOut]
      split
      · exact Nat.zero_le _
      · split
        · exact Nat.zero_le _
        · exact le_refl _
  | escape back =>
      cases back with
      | none => exact le_refl _
      | some q =>
          simp only [lexOut]
          split
          · exact le_refl _
          · rw [List.count_cons_of_ne hx.symm]

/-- No character but the backslash comes out more often than it went in. -/
theorem Reads.count_le {st st' : LexState} {cs out : Text} (h : Reads st cs st' out) {x : Char}
    (hx : x ≠ backslash) : out.count x ≤ cs.count x := by
  induction h with
  | nil => exact le_refl _
  | @cons st st' c cs out hc rest ih =>
      calc (lexOut st c ++ out).count x = (lexOut st c).count x + out.count x := List.count_append
        _ ≤ [c].count x + cs.count x := Nat.add_le_add (count_lexOut_le hx st c) ih
        _ = ([c] ++ cs).count x := List.count_append.symm

/-- The backslash that a state has taken and not given out yet. -/
def LexState.pending : LexState → Nat
  | blank | word | quote _ => 0
  | escape _ => 1

/-- In the state, a single quote is not one that opened a quotation. -/
def LexState.double (st : LexState) : Prop :=
  ∀ q, st = .quote q ∨ st = .escape (some q) → q = doubleQuote

/-- One character, where no single quote is used up. -/
theorem escapes_step {st : LexState} {c : Char} (hst : st.double)
    (htight : (lexOut st c).count singleQuote = [c].count singleQuote) :
    (lexNext st c).double ∧
      (lexOut st c).count doubleQuote + (lexOut st c).count backslash + (lexNext st c).pending ≤
        [c].count backslash + st.pending := by
  have hword : ∀ st', st' = LexState.blank ∨ st' = .word ∨ st' = .escape none → st'.double := by
    rintro st' hst' q hq
    rcases hst' with rfl | rfl | rfl <;> rcases hq with hq | hq <;> cases hq
  have hopen : ∀ st', st' = LexState.quote doubleQuote ∨ st' = .escape (some doubleQuote) →
      st'.double := by
    rintro st' hst' q hq
    rcases hst' with rfl | rfl <;> rcases hq with hq | hq <;> cases hq <;> rfl
  -- outside quotes: a single quote would be used up
  have houtside : ∀ st' : LexState, st' = .blank ∨ st' = .word →
      (lexOut st' c).count singleQuote = [c].count singleQuote →
      (lexNext st' c).double ∧
        (lexOut st' c).count doubleQuote + (lexOut st' c).count backslash +
          (lexNext st' c).pending ≤ [c].count backslash + st'.pending := by
    intro st' hst' htight'
    by_cases hs : c ∈ lexSpace
    · have hq : isQuote c = false := not_isQuote_space hs
      have hb : c ≠ backslash := by
        rintro rfl
        exact absurd hs (by decide)
      have hd : c ≠ doubleQuote := by
        rintro rfl
        exact absurd hs (by decide)
      rcases hst' with rfl | rfl <;>
        simp [lexNext, lexOut, hs, hq, hb, hd, LexState.pending] <;>
        exact hword _ (by simp)
    by_cases hb : c = backslash
    · subst hb
      rcases hst' with rfl | rfl <;>
        simp [lexNext, lexOut, hs, not_isQuote_backslash, LexState.pending] <;>
        exact hword _ (by simp)
    by_cases hq : isQuote c = true
    · have hc : c = doubleQuote := by
        rcases (Bool.or_eq_true _ _).mp hq with hc | hc
        · rw [beq_iff_eq.mp hc] at htight'
          rcases hst' with rfl | rfl <;> exact absurd htight' (by decide)
        · exact beq_iff_eq.mp hc
      subst hc
      rcases hst' with rfl | rfl <;> exact ⟨hopen _ (.inl rfl), by decide⟩
    · have hd : c ≠ doubleQuote := by
        rintro rfl
        exact hq (by decide)
      rcases hst' with rfl | rfl <;>
        simp [lexNext, lexOut, hs, hq, hb, hd, LexState.pending] <;>
        exact hword _ (by simp)
  cases st with
  | blank => exact houtside .blank (.inl rfl) htight
  | word => exact houtside .word (.inr rfl) htight
  | quote q =>
      obtain rfl := hst q (.inl rfl)
      by_cases hd : c = doubleQuote
      · subst hd
        exact ⟨hword _ (.inr (.inl rfl)), by decide⟩
      by_cases hb : c = backslash
      · subst hb
        exact ⟨hopen _ (.inr rfl), by decide⟩
      · have hnext : lexNext (.quote doubleQuote) c = .quote doubleQuote := by
          simp [lexNext, hd, hb]
        have hout : lexOut (.quote doubleQuote) c = [c] := by simp [lexOut, hd, hb]
        rw [hnext, hout]
        refine ⟨hopen _ (.inl rfl), ?_⟩
        simp [LexState.pending, hd, hb]
  | escape back =>
      cases back with
      | none =>
          refine ⟨hword _ (.inr (.inl rfl)), ?_⟩
          show [c].count doubleQuote + [c].count backslash + 0 ≤ [c].count backslash + 1
          have hone : [c].count doubleQuote ≤ 1 := List.count_le_length
          omega
      | some q =>
          obtain rfl := hst q (.inr rfl)
          refine ⟨hopen _ (.inl rfl), ?_⟩
          by_cases hc : c = backslash ∨ c = doubleQuote
          · rw [lexOut, if_pos hc]
            show [c].count doubleQuote + [c].count backslash + 0 ≤ [c].count backslash + 1
            have hone : [c].count doubleQuote ≤ 1 := List.count_le_length
            omega
          · obtain ⟨hb, hd⟩ := not_or.mp hc
            rw [lexOut, if_neg hc]
            have hslash : backslash ≠ doubleQuote := by decide
            simp [lexNext, LexState.pending, hb, hd, hslash]

/-- **Where no single quote is used up, each double quote uses up a backslash.** -/
theorem Reads.count_escapes {st st' : LexState} {cs out : Text} (h : Reads st cs st' out)
    (hend : st' = .word) (hst : st.double)
    (htight : out.count singleQuote = cs.count singleQuote) :
    out.count doubleQuote + out.count backslash ≤ cs.count backslash + st.pending := by
  have hsb : singleQuote ≠ backslash := by decide
  induction h with
  | nil => exact Nat.zero_le _
  | @cons st st' c cs out hc rest ih =>
      have hcs : (c :: cs) = [c] ++ cs := rfl
      rw [hcs, List.count_append, List.count_append] at htight
      have hfirst := count_lexOut_le hsb st c
      have hrest := rest.count_le hsb
      obtain ⟨hnext, hstep⟩ := escapes_step hst (by omega : _ = [c].count singleQuote)
      have htail := ih hend hnext (by omega)
      rw [hcs, List.count_append, List.count_append, List.count_append]
      omega

end ScrapyCommand

end Dopilot
