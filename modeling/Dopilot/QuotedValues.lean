/-
Dopilot/QuotedValues.lean

Values in a command that is built.

`_quote` puts a value between double quotes if it is empty or has a space or a
metacharacter in it, and writes a backslash before each double quote of it; any
other value is left as it is.  The tokenizer reads back what was quoted where no
backslash of the value stands before a backslash, before a double quote or at
the end (`reads_quoted_iff`), and what was left alone where it has no quote
(`reads_bare_iff`).

A token of the right text is enough to say that the value was read so: what is
read is counted, and neither can the token end inside the value, nor can it take
in what stands behind it (`Reads.whole`).
-/
import Dopilot.TokenReading

namespace Dopilot

namespace ScrapyCommand

/-! ### Quoting -/

/-- `_quote` looks for what makes quotes necessary. -/
def needsQuotes (value : Text) : Bool :=
  value.isEmpty || value.any fun c => Text.isSpace c || decide (c ∈ unquotedMeta)

/-- A double quote, with a backslash before it. -/
def escapeChar (c : Char) : Text := if c = doubleQuote then [backslash, doubleQuote] else [c]

/-- `value.replace`. -/
def escapeQuotes (value : Text) : Text := value.flatMap escapeChar

/-- `_quote`. -/
def quote (value : Text) : Text :=
  if needsQuotes value then doubleQuote :: (escapeQuotes value ++ [doubleQuote]) else value

/-- The text starts with a character that no backslash escapes. -/
def startsOrdinary : Text → Bool
  | [] => false
  | c :: _ => c != backslash && c != doubleQuote

/-- Every backslash stands before a character that it does not escape. -/
def clean : Text → Bool
  | [] => true
  | c :: cs => (c != backslash || startsOrdinary cs) && clean cs

/-! ### Counting -/

theorem count_escapeQuotes {x : Char} (hd : x ≠ doubleQuote) (hb : x ≠ backslash) (v : Text) :
    (escapeQuotes v).count x = v.count x := by
  induction v with
  | nil => rfl
  | cons c cs ih =>
      have hcons : escapeQuotes (c :: cs) = escapeChar c ++ escapeQuotes cs := List.flatMap_cons
      have hcs : c :: cs = [c] ++ cs := rfl
      rw [hcons, hcs, List.count_append, List.count_append, ih]
      congr 1
      unfold escapeChar
      split
      · rename_i hc
        rw [hc, List.count_eq_zero.mpr, List.count_eq_zero.mpr]
        · simpa using hd
        · simpa using ⟨hb, hd⟩
      · rfl

theorem count_escapeQuotes_quote (v : Text) :
    (escapeQuotes v).count doubleQuote = v.count doubleQuote := by
  induction v with
  | nil => rfl
  | cons c cs ih =>
      have hcons : escapeQuotes (c :: cs) = escapeChar c ++ escapeQuotes cs := List.flatMap_cons
      have hcs : c :: cs = [c] ++ cs := rfl
      rw [hcons, hcs, List.count_append, List.count_append, ih]
      congr 1
      unfold escapeChar
      split
      · rename_i hc
        rw [hc]
        decide
      · rfl

theorem count_escapeQuotes_slash (v : Text) :
    (escapeQuotes v).count backslash = v.count backslash + v.count doubleQuote := by
  induction v with
  | nil => rfl
  | cons c cs ih =>
      have hcons : escapeQuotes (c :: cs) = escapeChar c ++ escapeQuotes cs := List.flatMap_cons
      have hcs : c :: cs = [c] ++ cs := rfl
      have hchar : (escapeChar c).count backslash = [c].count backslash + [c].count doubleQuote := by
        unfold escapeChar
        split
        · rename_i hc
          rw [hc]
          decide
        · rename_i hc
          rw [List.count_eq_zero.mpr (by simpa using Ne.symm hc : doubleQuote ∉ [c]), Nat.add_zero]
      rw [hcons, hcs, List.count_append, List.count_append, List.count_append, ih, hchar]
      omega

theorem count_quote {x : Char} (hx : inert x = true) (v : Text) : (quote v).count x = v.count x := by
  obtain ⟨hq, hb⟩ := inert_iff.mp hx
  have hd : x ≠ doubleQuote := by
    rintro rfl
    exact absurd hq (by decide)
  unfold quote
  split
  · rw [List.count_cons_of_ne hd.symm, List.count_append, count_escapeQuotes hd hb,
      List.count_eq_zero.mpr (by simpa using hd : x ∉ [doubleQuote]), Nat.add_zero]
  · rfl

theorem inert_of_space {c : Char} (h : c ∈ lexSpace) : inert c = true := by
  have hall : lexSpace.all inert = true := by decide
  exact List.all_eq_true.mp hall c h

theorem quoted_word : LexState.word.quoted := by
  intro q hq
  rcases hq with hq | hq <;> cases hq

/-- **A token that is the value was read over the value**, no less and no more. -/
theorem Reads.whole {v used rest rem : Text} (h : Reads .word used .word v)
    (htext : quote v ++ rest = used ++ rem) (hrest : rest = [] ∨ ∃ r, rest = ' ' :: r)
    (hrem : rem = [] ∨ ∃ c r, c ∈ lexSpace ∧ rem = c :: r) : used = quote v ∧ rem = rest := by
  have hcount : ∀ x, x ∈ lexSpace → used.count x = (quote v).count x := by
    intro x hx
    rw [count_quote (inert_of_space hx), h.count_eq quoted_word (inert_of_space hx)]
  rcases List.append_eq_append_iff.mp htext with ⟨as, hused, hrest'⟩ | ⟨bs, hquote, hrem'⟩
  · -- the token would take in the space behind the value
    rcases as with - | ⟨a, as⟩
    · exact ⟨by rw [hused, List.append_nil], by rw [hrest', List.nil_append]⟩
    · exfalso
      rcases hrest with hnil | ⟨r, hr⟩
      · rw [hnil] at hrest'
        cases hrest'
      · rw [hr, List.cons_append, List.cons.injEq] at hrest'
        have hone := hcount ' ' (by decide)
        rw [hused, List.count_append, ← hrest'.1, List.count_cons_self] at hone
        omega
  · -- the token would end at a space of the value
    rcases bs with - | ⟨b, bs⟩
    · rw [List.append_nil] at hquote
      rw [List.nil_append] at hrem'
      exact ⟨hquote.symm, hrem'⟩
    · exfalso
      rcases hrem with hnil | ⟨c, r, hc, hr⟩
      · rw [hnil] at hrem'
        cases hrem'
      · rw [hr, List.cons_append, List.cons.injEq] at hrem'
        have hone := hcount c hc
        rw [hquote, List.count_append, ← hrem'.1, List.count_cons_self] at hone
        omega

/-! ### What is read back -/

theorem Reads.of_cons {st st' : LexState} {c : Char} {cs out : Text}
    (h : Reads st (c :: cs) st' out) :
    ∃ out', out = lexOut st c ++ out' ∧ Reads (lexNext st c) cs st' out' := by
  cases h with
  | cons hc rest => exact ⟨_, rfl, rest⟩

theorem reads_cons_iff (st st' : LexState) (c : Char) (cs out : Text)
    (hc : st.between = true → c ∉ lexSpace) :
    Reads st (c :: cs) st' (lexOut st c ++ out) ↔ Reads (lexNext st c) cs st' out := by
  constructor
  · intro h
    obtain ⟨out', hout, h⟩ := h.of_cons
    rwa [List.append_cancel_left hout]
  · exact .cons hc

/-- Inside double quotes every character is one of the token. -/
theorem reads_quote_iff (c : Char) (cs out : Text) :
    Reads (.quote doubleQuote) (c :: cs) .word (lexOut (.quote doubleQuote) c ++ out) ↔
      Reads (lexNext (.quote doubleQuote) c) cs .word out :=
  reads_cons_iff _ _ c cs out fun hc => by cases hc

theorem reads_escape_iff (c : Char) (cs out : Text) :
    Reads (.escape (some doubleQuote)) (c :: cs) .word
        (lexOut (.escape (some doubleQuote)) c ++ out) ↔
      Reads (.quote doubleQuote) cs .word out :=
  reads_cons_iff _ _ c cs out fun hc => by cases hc

theorem Reads.of_nil {st st' : LexState} {out : Text} (h : Reads st [] st' out) :
    st' = st ∧ out = [] := by
  cases h with
  | nil => exact ⟨rfl, rfl⟩

/-- Inside quotes, with the quotation's end behind: more backslashes than
there are to use up cannot come out. -/
theorem Reads.not_ahead {st : LexState} {v out : Text} (hst : st.double) (hpending : st.pending = 0)
    (h : Reads st (escapeQuotes v ++ [doubleQuote]) .word out)
    (hsingle : out.count singleQuote = v.count singleQuote)
    (hahead : v.count doubleQuote + v.count backslash <
      out.count doubleQuote + out.count backslash) : False := by
  have hsd : singleQuote ≠ doubleQuote := by decide
  have hsb : singleQuote ≠ backslash := by decide
  have htight : out.count singleQuote = (escapeQuotes v ++ [doubleQuote]).count singleQuote := by
    rw [List.count_append, count_escapeQuotes hsd hsb, hsingle]
    rfl
  have hescapes := h.count_escapes rfl hst htight
  rw [List.count_append, count_escapeQuotes_slash, hpending] at hescapes
  have hlast : [doubleQuote].count backslash = 0 := by decide
  omega

theorem double_quote : (LexState.quote doubleQuote).double := by
  intro q hq
  rcases hq with hq | hq <;> cases hq
  rfl

theorem double_word : LexState.word.double := by
  intro q hq
  rcases hq with hq | hq <;> cases hq

/-- An ordinary character inside double quotes. -/
theorem reads_ordinary_iff {c : Char} {cs out : Text} (hd : c ≠ doubleQuote) (hb : c ≠ backslash) :
    Reads (.quote doubleQuote) (c :: cs) .word (c :: out) ↔
      Reads (.quote doubleQuote) cs .word out := by
  have hnext : lexNext (.quote doubleQuote) c = .quote doubleQuote := by simp [lexNext, hd, hb]
  have hout : lexOut (.quote doubleQuote) c = [c] := by simp [lexOut, hd, hb]
  have h := reads_quote_iff c cs out
  rwa [hnext, hout] at h

/-- An escaped character inside double quotes. -/
theorem reads_escaped {c : Char} {cs out : Text} (hc : c = backslash ∨ c = doubleQuote) :
    Reads (.quote doubleQuote) (backslash :: c :: cs) .word (c :: out) ↔
      Reads (.quote doubleQuote) cs .word out := by
  have h := reads_quote_iff backslash (c :: cs) (c :: out)
  have h' := reads_escape_iff c cs out
  have hout : lexOut (.escape (some doubleQuote)) c = [c] := if_pos hc
  rw [hout] at h'
  exact h.trans h'

/-- A backslash before an ordinary character. -/
theorem reads_kept {d : Char} {ds out : Text} (hd : d ≠ doubleQuote) (hb : d ≠ backslash) :
    Reads (.quote doubleQuote) (backslash :: d :: ds) .word (backslash :: d :: out) ↔
      Reads (.quote doubleQuote) ds .word out := by
  have h := reads_quote_iff backslash (d :: ds) (backslash :: d :: out)
  have h' := reads_escape_iff d ds out
  have hout : lexOut (.escape (some doubleQuote)) d = [backslash, d] :=
    if_neg (not_or.mpr ⟨hb, hd⟩)
  rw [hout] at h'
  exact h.trans h'

theorem escapeQuotes_cons (c : Char) (cs : Text) :
    escapeQuotes (c :: cs) = escapeChar c ++ escapeQuotes cs := List.flatMap_cons

theorem escapeChar_ordinary {c : Char} (hd : c ≠ doubleQuote) : escapeChar c = [c] := if_neg hd

/-- **A quoted value is read back if and only if it is clean.** -/
theorem reads_escapeQuotes_iff (v : Text) :
    Reads (.quote doubleQuote) (escapeQuotes v ++ [doubleQuote]) .word v ↔ clean v = true := by
  induction v with
  | nil => exact ⟨fun _ => rfl, fun _ => (reads_quote_iff doubleQuote [] []).mpr (.nil .word)⟩
  | cons c cs ih =>
      by_cases hd : c = doubleQuote
      · -- a double quote is escaped, and read back
        subst hd
        have hclean : clean (doubleQuote :: cs) = clean cs := by
          rw [clean, show (doubleQuote != backslash) = true by decide, Bool.true_or, Bool.true_and]
        rw [hclean]
        exact (reads_escaped (.inr rfl)).trans ih
      by_cases hb : c = backslash
      · subst hb
        rw [clean, show (backslash != backslash) = false by decide, Bool.false_or]
        rcases cs with - | ⟨d, ds⟩
        · -- the backslash escapes the closing quote
          refine ⟨fun h => ?_, fun h => by cases h⟩
          have h : Reads (.quote doubleQuote) [backslash, doubleQuote] .word [backslash] := h
          obtain ⟨out, -, h⟩ := h.of_cons
          obtain ⟨out', -, h⟩ := h.of_cons
          cases h.of_nil.1
        by_cases hdb : d = backslash
        · -- the two backslashes come out as one
          subst hdb
          refine ⟨fun h => ?_, fun h => by cases h⟩
          have hrest : Reads (.quote doubleQuote) (escapeQuotes ds ++ [doubleQuote]) .word
              (backslash :: ds) := (reads_escaped (.inl rfl)).mp h
          refine (hrest.not_ahead double_quote rfl ?_ ?_).elim
          · exact List.count_cons_of_ne (by decide)
          · rw [List.count_cons_self, List.count_cons_of_ne (by decide)]
            omega
        by_cases hdd : d = doubleQuote
        · -- the backslash escapes the escape, and the quote closes the quotation
          subst hdd
          refine ⟨fun h => ?_, fun h => by cases h⟩
          have hclosed : Reads (.quote doubleQuote)
              (doubleQuote :: (escapeQuotes ds ++ [doubleQuote])) .word (doubleQuote :: ds) :=
            (reads_escaped (.inl rfl)).mp h
          obtain ⟨out, hout, hrest⟩ := hclosed.of_cons
          have hout : doubleQuote :: ds = out := hout
          rw [← hout] at hrest
          refine (hrest.not_ahead double_word rfl ?_ ?_).elim
          · exact List.count_cons_of_ne (by decide)
          · rw [List.count_cons_self, List.count_cons_of_ne (by decide)]
            omega
        · have hstarts : startsOrdinary (d :: ds) = true := by
            rw [startsOrdinary, bne_iff_ne.mpr hdb, bne_iff_ne.mpr hdd]
            rfl
          rw [hstarts, Bool.true_and]
          refine Iff.trans ?_ ih
          rw [escapeQuotes_cons, escapeQuotes_cons, escapeChar_ordinary hdd,
            escapeChar_ordinary hd]
          exact (reads_kept hdd hdb).trans (reads_ordinary_iff hdd hdb).symm
      · have hclean : clean (c :: cs) = clean cs := by
          rw [clean, bne_iff_ne.mpr hb, Bool.true_or, Bool.true_and]
        rw [hclean, escapeQuotes_cons, escapeChar_ordinary hd]
        exact (reads_ordinary_iff hd hb).trans ih

/-- A value that is quoted. -/
theorem reads_quoted_iff {v : Text} (h : needsQuotes v = true) :
    Reads .word (quote v) .word v ↔ clean v = true := by
  rw [← reads_escapeQuotes_iff, quote, if_pos h]
  exact reads_cons_iff .word .word doubleQuote _ v fun _ => by decide

/-! ### Values that are left alone -/

/-- A character that needs no quotes and is none. -/
def ordinary (c : Char) : Bool :=
  decide (c ∉ lexSpace) && decide (c ∉ unquotedMeta) && !isQuote c

theorem ordinary_iff {c : Char} :
    ordinary c = true ↔ c ∉ lexSpace ∧ c ∉ unquotedMeta ∧ isQuote c = false := by
  rw [ordinary, Bool.and_eq_true, Bool.and_eq_true, decide_eq_true_eq, decide_eq_true_eq,
    Bool.not_eq_true', and_assoc]

theorem not_isQuote_of_ordinary {c : Char} (h : ordinary c = true) :
    ¬ (isQuote c = true ∨ c = backslash) := by
  obtain ⟨-, hmeta, hquote⟩ := ordinary_iff.mp h
  rintro (hq | rfl)
  · rw [hquote] at hq
    cases hq
  · exact hmeta backslash_mem_unquotedMeta

theorem lexNext_ordinary {c : Char} (h : ordinary c = true) : lexNext .word c = .word := by
  obtain ⟨hspace, -, hquote⟩ := ordinary_iff.mp h
  have hslash := (not_or.mp (not_isQuote_of_ordinary h)).2
  simp [lexNext, hspace, hquote, hslash]

/-- Ordinary characters are read as they are. -/
theorem reads_ordinary {w : Text} (h : ∀ c ∈ w, ordinary c = true) : Reads .word w .word w := by
  induction w with
  | nil => exact .nil _
  | cons c cs ih =>
      have hc := h c List.mem_cons_self
      have hrest := ih fun d hd => h d (List.mem_cons_of_mem c hd)
      have hstep := reads_cons_iff .word .word c cs cs fun _ => (ordinary_iff.mp hc).1
      rw [lexNext_ordinary hc, lexOut, if_neg (not_isQuote_of_ordinary hc)] at hstep
      exact hstep.mpr hrest

/-- What needs no quotes has nothing but quotes that is not ordinary. -/
theorem ordinary_of_bare {v : Text} (h : needsQuotes v = false) {c : Char} (hc : c ∈ v)
    (hq : isQuote c = false) : ordinary c = true := by
  have hany := (Bool.or_eq_false_iff.mp h).2
  have hno := List.any_eq_false.mp hany c hc
  rw [Bool.or_eq_true, not_or, decide_eq_true_eq] at hno
  refine ordinary_iff.mpr ⟨fun hs => hno.1 ?_, hno.2, hq⟩
  have hall : lexSpace.all Text.isSpace = true := by decide
  exact List.all_eq_true.mp hall c hs

/-- **A value that is left alone is read back if and only if it has no quote.** -/
theorem reads_bare_iff {v : Text} (h : needsQuotes v = false) :
    Reads .word (quote v) .word v ↔ ∀ c ∈ v, isQuote c = false := by
  have hquote : quote v = v := by
    rw [quote, h, if_neg Bool.false_ne_true]
  rw [hquote]
  constructor
  · intro hreads c hc
    have hmem : ∀ d ∈ v, isQuote d = false → ordinary d = true :=
      fun d hd hq => ordinary_of_bare h hd hq
    clear hquote h
    induction v with
    | nil => cases hc
    | cons d ds ih =>
        obtain ⟨out, hout, hrest⟩ := hreads.of_cons
        cases hd : isQuote d with
        | true =>
            -- the quote is used up, so it cannot come out often enough
            exfalso
            rw [lexOut, if_pos (.inl hd), List.nil_append] at hout
            have hslash : d ≠ backslash := by
              rintro rfl
              exact absurd hd (by decide)
            have hle := hrest.count_le hslash
            rw [← hout, List.count_cons_self] at hle
            exact absurd hle (Nat.not_succ_le_self _)
        | false =>
            have hord := hmem d List.mem_cons_self hd
            rw [lexOut, if_neg (not_isQuote_of_ordinary hord), List.singleton_append,
              List.cons.injEq] at hout
            rcases List.mem_cons.mp hc with rfl | hc
            · exact hd
            · refine ih ?_ hc fun e he => hmem e (List.mem_cons_of_mem d he)
              rwa [lexNext_ordinary hord, ← hout.2] at hrest
  · intro hno
    exact reads_ordinary fun c hc => ordinary_of_bare h hc (hno c hc)

end ScrapyCommand

end Dopilot
