/-
Dopilot/Quoting.lean

The two scanners of a command, side by side.

The guard against metacharacters keeps a quotation open up to the next quote of
its kind; the tokenizer lets a backslash escape a double quote inside double
quotes.  As long as no such quote is met, a command that both accept is quoted
alike for both (`Aligned`), and the guard sees every character that is outside
quotes.  The first escaped quote sets them apart, and only a backslash outside
quotes could bring them together again (`Apart`): so a command with an escaped
quote that is accepted has a metacharacter where the tokenizer sees no quotes.
-/
import Dopilot.ScrapyCommand

namespace Dopilot

namespace ScrapyCommand

/-! ### Reading along with the tokenizer -/

/-- The state behind a character. -/
def lexNext : LexState → Char → LexState
  | .blank, c =>
      if c ∈ lexSpace then .blank
      else if c = backslash then .escape none
      else if isQuote c then .quote c
      else .word
  | .word, c =>
      if c ∈ lexSpace then .blank
      else if isQuote c then .quote c
      else if c = backslash then .escape none
      else .word
  | .quote q, c =>
      if c = q then .word
      else if c = backslash ∧ q = doubleQuote then .escape (some q)
      else .quote q
  | .escape none, _ => .word
  | .escape (some q), _ => .quote q

/-- Outside quotes, an escape there included. -/
def LexState.outside : LexState → Bool
  | blank | word | escape none => true
  | quote _ | escape (some _) => false

/-- The characters that are met outside quotes. -/
def unquotedFrom : LexState → Text → Text
  | _, [] => []
  | st, c :: cs =>
      if st.outside then c :: unquotedFrom (lexNext st c) cs else unquotedFrom (lexNext st c) cs

/-- Inside double quotes, a double quote is met behind a backslash. -/
def escapedQuoteFrom : LexState → Text → Bool
  | _, [] => false
  | .escape (some q), c :: cs => c == q || escapedQuoteFrom (.quote q) cs
  | st, c :: cs => escapedQuoteFrom (lexNext st c) cs

/-- The characters of a command outside quotes, by the rules of the tokenizer. -/
def unquoted (command : Text) : Text := unquotedFrom .blank command

/-- The command escapes a double quote inside double quotes. -/
def escapesQuote (command : Text) : Bool := escapedQuoteFrom .blank command

/-- A tokenizer that comes to its end came to it from every state on the way. -/
theorem lexFrom_next {st : LexState} {token : Text} {c : Char} {cs : Text} {tokens : List Text}
    (h : lexFrom st token (c :: cs) = .ok tokens) :
    ∃ token' tokens', lexFrom (lexNext st c) token' cs = .ok tokens' := by
  cases st with
  | blank =>
      simp only [lexFrom] at h
      simp only [lexNext]
      split at h
      · rename_i hc
        exact ⟨_, _, by rw [if_pos hc, h]⟩
      rename_i hc
      rw [if_neg hc]
      split at h
      · rename_i hb
        exact ⟨_, _, by rw [if_pos hb, h]⟩
      rename_i hb
      rw [if_neg hb]
      split at h
      · rename_i hq
        exact ⟨_, _, by rw [if_pos hq, h]⟩
      · rename_i hq
        exact ⟨_, _, by rw [if_neg hq, h]⟩
  | word =>
      simp only [lexFrom] at h
      simp only [lexNext]
      split at h
      · rename_i hc
        rw [if_pos hc]
        cases hrest : lexFrom .blank [] cs with
        | error e =>
            rw [hrest] at h
            cases h
        | ok tokens' => exact ⟨_, _, hrest⟩
      rename_i hc
      rw [if_neg hc]
      split at h
      · rename_i hq
        exact ⟨_, _, by rw [if_pos hq, h]⟩
      rename_i hq
      rw [if_neg hq]
      split at h
      · rename_i hb
        exact ⟨_, _, by rw [if_pos hb, h]⟩
      · rename_i hb
        exact ⟨_, _, by rw [if_neg hb, h]⟩
  | quote q =>
      simp only [lexFrom] at h
      simp only [lexNext]
      split at h
      · rename_i hc
        exact ⟨_, _, by rw [if_pos hc, h]⟩
      rename_i hc
      rw [if_neg hc]
      split at h
      · rename_i hb
        exact ⟨_, _, by rw [if_pos hb, h]⟩
      · rename_i hb
        exact ⟨_, _, by rw [if_neg hb, h]⟩
  | escape back =>
      cases back with
      | none => exact ⟨_, _, h⟩
      | some q =>
          simp only [lexFrom] at h
          split at h
          · exact ⟨_, _, h⟩
          · exact ⟨_, _, h⟩

/-- A tokenizer that has ended was outside quotes. -/
theorem lexFrom_nil {st : LexState} {token : Text} {tokens : List Text}
    (h : lexFrom st token [] = .ok tokens) : st = .blank ∨ st = .word := by
  cases st with
  | blank => exact .inl rfl
  | word => exact .inr rfl
  | quote q => cases h
  | escape back => cases h

/-! ### Characters -/

theorem backslash_mem_unquotedMeta : backslash ∈ unquotedMeta := by decide

theorem not_isQuote_backslash : isQuote backslash = false := by decide

theorem not_isQuote_space {c : Char} (h : c ∈ lexSpace) : isQuote c = false := by
  have hall : lexSpace.all (fun c => !isQuote c) = true := by decide
  exact Bool.not_eq_true' _ ▸ List.all_eq_true.mp hall c h

/-! ### The scanners apart -/

/-- The guard and the tokenizer see different quotations. -/
inductive Apart : Option Char → LexState → Prop
  | unguarded (q : Char) (hq : isQuote q = true) : Apart none (.quote q)
  | blank (g : Char) (hg : isQuote g = true) : Apart (some g) .blank
  | word (g : Char) (hg : isQuote g = true) : Apart (some g) .word
  | quote (g q : Char) (hg : isQuote g = true) (hq : isQuote q = true) (hne : g ≠ q) :
      Apart (some g) (.quote q)
  | escape (g q : Char) (hg : isQuote g = true) (hq : isQuote q = true) (hne : g ≠ q) :
      Apart (some g) (.escape (some q))

/-- What the guard has left to accept behind a character. -/
def guardNext : Option Char → Char → Option Char
  | some q, c => if c = q then none else some q
  | none, c => if isQuote c then some c else none

/-- A guard that accepts has seen no metacharacter outside its quotes. -/
theorem rejectFrom_next {g : Option Char} {c : Char} {cs : Text}
    (h : rejectFrom g (c :: cs) = .ok ()) :
    rejectFrom (guardNext g c) cs = .ok () ∧ (g = none → isQuote c = false → c ∉ unquotedMeta) := by
  cases g with
  | some q => exact ⟨h, fun hc => by cases hc⟩
  | none =>
      simp only [rejectFrom] at h
      simp only [guardNext]
      split at h
      · rename_i hq
        rw [if_pos hq]
        exact ⟨h, fun _ hc => by rw [hq] at hc; cases hc⟩
      rename_i hq
      rw [if_neg hq]
      split at h
      · cases h
      · rename_i hm
        exact ⟨h, fun _ _ => hm⟩

/-- **Apart they stay**, but for a backslash outside quotes. -/
theorem Apart.next {g : Option Char} {st : LexState} {c : Char} (h : Apart g st)
    (hguard : g = none → isQuote c = false → c ∉ unquotedMeta) :
    (st.outside = true ∧ c = backslash) ∨ Apart (guardNext g c) (lexNext st c) := by
  have hopen : ∀ g : Char, isQuote g = true → isQuote c = true →
      Apart (guardNext (some g) c) (.quote c) := by
    intro g hg hc
    simp only [guardNext]
    split
    · exact .unguarded c hc
    · rename_i hne
      exact .quote g c hg hc (Ne.symm hne)
  have hkept : ∀ (g : Char) (st : LexState), isQuote g = true → isQuote c = false →
      Apart (some g) st → Apart (guardNext (some g) c) st := by
    intro g st hg hc hst
    have hne : c ≠ g := by
      rintro rfl
      rw [hc] at hg
      cases hg
    rwa [guardNext, if_neg hne]
  cases h with
  | unguarded q hq =>
      right
      simp only [lexNext, guardNext]
      by_cases hc : c = q
      · subst hc
        rw [if_pos hq, if_pos rfl]
        exact .word c hq
      rw [if_neg hc]
      cases hquote : isQuote c with
      | true =>
          have hb : c ≠ backslash := by
            rintro rfl
            rw [not_isQuote_backslash] at hquote
            cases hquote
          rw [if_pos rfl, if_neg fun hcb => hb hcb.1]
          exact .quote c q hquote hq hc
      | false =>
          have hb : c ≠ backslash := by
            rintro rfl
            exact hguard rfl hquote backslash_mem_unquotedMeta
          rw [if_neg Bool.false_ne_true, if_neg fun hcb => hb hcb.1]
          exact .unguarded q hq
  | blank g hg =>
      simp only [lexNext]
      split
      · rename_i hs
        exact .inr (hkept g _ hg (not_isQuote_space hs) (.blank g hg))
      split
      · rename_i hb
        exact .inl ⟨rfl, hb⟩
      split
      · rename_i hq
        exact .inr (hopen g hg hq)
      · rename_i hq
        exact .inr (hkept g _ hg (by simpa using hq) (.word g hg))
  | word g hg =>
      simp only [lexNext]
      split
      · rename_i hs
        exact .inr (hkept g _ hg (not_isQuote_space hs) (.blank g hg))
      split
      · rename_i hq
        exact .inr (hopen g hg hq)
      rename_i hq
      split
      · rename_i hb
        exact .inl ⟨rfl, hb⟩
      · exact .inr (hkept g _ hg (by simpa using hq) (.word g hg))
  | quote g q hg hq hne =>
      right
      simp only [lexNext, guardNext]
      by_cases hcg : c = g
      · subst hcg
        have hb : ¬ (c = backslash ∧ q = doubleQuote) := by
          rintro ⟨rfl, -⟩
          rw [not_isQuote_backslash] at hg
          cases hg
        rw [if_pos rfl, if_neg hne, if_neg hb]
        exact .unguarded q hq
      rw [if_neg hcg]
      split
      · exact .word g hg
      split
      · exact .escape g q hg hq hne
      · exact .quote g q hg hq hne
  | escape g q hg hq hne =>
      right
      simp only [lexNext, guardNext]
      split
      · exact .unguarded q hq
      · exact .quote g q hg hq hne

/-- **Scanners that are apart accept only a command with a metacharacter outside
quotes.** -/
theorem Apart.unquoted_meta {g : Option Char} {st : LexState} {token cs : Text}
    {tokens : List Text} (h : Apart g st) (hguard : rejectFrom g cs = .ok ())
    (hlex : lexFrom st token cs = .ok tokens) : ∃ c ∈ unquotedFrom st cs, c ∈ unquotedMeta := by
  induction cs generalizing g st token tokens with
  | nil =>
      have hst := lexFrom_nil hlex
      cases h with
      | unguarded q hq => rcases hst with hc | hc <;> cases hc
      | blank g hg => cases hguard
      | word g hg => cases hguard
      | quote g q hg hq hne => cases hguard
      | escape g q hg hq hne => cases hguard
  | cons c cs ih =>
      obtain ⟨hrest, hseen⟩ := rejectFrom_next hguard
      obtain ⟨token', tokens', hlex'⟩ := lexFrom_next hlex
      rcases h.next hseen with ⟨hout, rfl⟩ | hnext
      · refine ⟨backslash, ?_, backslash_mem_unquotedMeta⟩
        rw [unquotedFrom, if_pos hout]
        exact List.mem_cons_self
      · obtain ⟨m, hm, hmeta⟩ := ih hnext hrest hlex'
        refine ⟨m, ?_, hmeta⟩
        unfold unquotedFrom
        split
        · exact List.mem_cons_of_mem c hm
        · exact hm

/-! ### The scanners aligned -/

/-- The guard and the tokenizer see the same quotation. -/
inductive Aligned : Option Char → LexState → Prop
  | blank : Aligned none .blank
  | word : Aligned none .word
  | quote (q : Char) (hq : isQuote q = true) : Aligned (some q) (.quote q)
  | escape (q : Char) (hq : isQuote q = true) : Aligned (some q) (.escape (some q))

/-- A character that the guard lets pass, where no quote is escaped. -/
theorem Aligned.next {g : Option Char} {st : LexState} {c : Char} (h : Aligned g st)
    (hguard : g = none → isQuote c = false → c ∉ unquotedMeta)
    (hescape : ∀ q, st = .escape (some q) → c ≠ q) :
    Aligned (guardNext g c) (lexNext st c) ∧ (st.outside = true → c ∉ unquotedMeta) := by
  have hmeta : isQuote c = true → c ∉ unquotedMeta := by
    intro hq
    rcases (Bool.or_eq_true _ _).mp hq with hc | hc
    · rw [beq_iff_eq.mp hc]
      decide
    · rw [beq_iff_eq.mp hc]
      decide
  have hpass : g = none → c ∉ unquotedMeta := by
    intro hg
    cases hq : isQuote c with
    | true => exact hmeta hq
    | false => exact hguard hg hq
  have hslash : g = none → c ≠ backslash := by
    rintro hg rfl
    exact hpass hg backslash_mem_unquotedMeta
  cases h with
  | blank =>
      refine ⟨?_, fun _ => hpass rfl⟩
      simp only [lexNext, guardNext]
      by_cases hs : c ∈ lexSpace
      · rw [if_pos hs, not_isQuote_space hs, if_neg Bool.false_ne_true]
        exact .blank
      rw [if_neg hs, if_neg (hslash rfl)]
      by_cases hq : isQuote c = true
      · rw [if_pos hq, if_pos hq]
        exact .quote c hq
      · rw [if_neg hq, if_neg hq]
        exact .word
  | word =>
      refine ⟨?_, fun _ => hpass rfl⟩
      simp only [lexNext, guardNext]
      by_cases hs : c ∈ lexSpace
      · rw [if_pos hs, not_isQuote_space hs, if_neg Bool.false_ne_true]
        exact .blank
      rw [if_neg hs, if_neg (hslash rfl)]
      by_cases hq : isQuote c = true
      · rw [if_pos hq, if_pos hq]
        exact .quote c hq
      · rw [if_neg hq, if_neg hq]
        exact .word
  | quote q hq =>
      refine ⟨?_, fun hc => by cases hc⟩
      simp only [lexNext, guardNext]
      split
      · exact .word
      split
      · exact .escape q hq
      · exact .quote q hq
  | escape q hq =>
      refine ⟨?_, fun hc => by cases hc⟩
      simp only [lexNext, guardNext]
      rw [if_neg (hescape q rfl)]
      exact .quote q hq

/-- **Aligned scanners**: the metacharacters are all quoted if and only if no
double quote is escaped. -/
theorem Aligned.unquoted_iff {g : Option Char} {st : LexState} {token cs : Text}
    {tokens : List Text} (h : Aligned g st) (hguard : rejectFrom g cs = .ok ())
    (hlex : lexFrom st token cs = .ok tokens) :
    (∀ c ∈ unquotedFrom st cs, c ∉ unquotedMeta) ↔ escapedQuoteFrom st cs = false := by
  induction cs generalizing g st token tokens with
  | nil =>
      refine ⟨fun _ => by unfold escapedQuoteFrom; rfl, fun _ c hc => ?_⟩
      rw [unquotedFrom] at hc
      cases hc
  | cons c cs ih =>
      obtain ⟨hrest, hseen⟩ := rejectFrom_next hguard
      obtain ⟨token', tokens', hlex'⟩ := lexFrom_next hlex
      by_cases hescape : ∃ q, st = .escape (some q) ∧ c = q
      · -- the guard has left the quotation, the tokenizer has not
        obtain ⟨q, rfl, rfl⟩ := hescape
        cases h with
        | escape q hq =>
            have hapart : Apart (guardNext (some c) c) (.quote c) := by
              rw [guardNext, if_pos rfl]
              exact .unguarded c hq
            obtain ⟨m, hm, hmeta⟩ := hapart.unquoted_meta hrest hlex'
            have hbad : escapedQuoteFrom (.escape (some c)) (c :: cs) = true := by
              rw [escapedQuoteFrom, beq_self_eq_true, Bool.true_or]
            rw [hbad]
            exact ⟨fun hall => (hall m hm hmeta).elim, fun hc => by cases hc⟩
      · have hne : ∀ q, st = .escape (some q) → c ≠ q := fun q hst hc => hescape ⟨q, hst, hc⟩
        obtain ⟨hnext, hout⟩ := h.next hseen hne
        have hstep : escapedQuoteFrom st (c :: cs) = escapedQuoteFrom (lexNext st c) cs := by
          cases h with
          | blank => rfl
          | word => rfl
          | quote q hq => rfl
          | escape q hq =>
              rw [escapedQuoteFrom, beq_false_of_ne (hne q rfl), Bool.false_or]
              rfl
        rw [hstep, ← ih hnext hrest hlex', unquotedFrom]
        split
        · rename_i hst
          rw [List.forall_mem_cons]
          exact and_iff_right (hout hst)
        · rfl

/-! ### Commands -/

/-- What is accepted was accepted by both scanners. -/
theorem scanned_of_parsed {command : Text} {p : Parsed}
    (h : parseScrapyCommand (some command) = .ok p) :
    rejectUnquotedMetacharacters command = .ok () ∧
      ∃ tokens, shlexSplit command = .ok tokens := by
  have htokens : ∃ tokens, tokenize command = .ok tokens := by
    simp only [parseScrapyCommand, Option.getD_some] at h
    split at h
    · cases h
    · cases hrun : tokenize command with
      | error e =>
          rw [hrun] at h
          cases h
      | ok tokens => exact ⟨tokens, rfl⟩
  obtain ⟨tokens, htokens⟩ := htokens
  simp only [tokenize] at htokens
  cases hguard : rejectUnquotedMetacharacters command with
  | error e =>
      rw [hguard] at htokens
      cases htokens
  | ok u =>
      cases hlex : shlexSplit command with
      | error e =>
          rw [hguard, hlex] at htokens
          cases htokens
      | ok tokens' => exact ⟨rfl, tokens', rfl⟩

/-- **The metacharacters of an accepted command are all inside quotes if and only
if the command escapes no double quote inside double quotes.** -/
theorem metacharacters_quoted_iff (command : Text) (p : Parsed)
    (h : parseScrapyCommand (some command) = .ok p) :
    (∀ c ∈ unquoted command, c ∉ unquotedMeta) ↔ escapesQuote command = false := by
  obtain ⟨hguard, tokens, htokens⟩ := scanned_of_parsed h
  exact Aligned.blank.unquoted_iff hguard htokens

/-- A metacharacter inside double quotes. -/
def quotedCommand : Text :=
  "scrapy crawl s -a x=".toList ++ doubleQuote :: 'a' :: ';' :: 'b' :: [doubleQuote]

theorem metacharacters_quoted_iff_sample : ∃ p,
    parseScrapyCommand (some quotedCommand) = .ok p ∧
      ∀ c ∈ unquoted quotedCommand, c ∉ unquotedMeta := by
  have hok : (parseScrapyCommand (some quotedCommand)).isOk = true := by decide +kernel
  cases hp : parseScrapyCommand (some quotedCommand) with
  | error e =>
      rw [hp] at hok
      cases hok
  | ok p => exact ⟨p, rfl, (metacharacters_quoted_iff quotedCommand p hp).mpr (by decide +kernel)⟩

/-- The guard takes the escaped quote for the end of the quotation, and the
quote behind it for the start of one: a semicolon is let through that the
tokenizer sees outside quotes. -/
def smuggledCommand : Text :=
  "scrapy crawl s -a x=".toList ++
    doubleQuote :: 'a' :: backslash :: doubleQuote :: 'b' :: doubleQuote :: ';' ::
      backslash :: doubleQuote :: ['c']

theorem not_metacharacters_quoted :
    ¬ ∀ command p, parseScrapyCommand (some command) = .ok p →
      ∀ c ∈ unquoted command, c ∉ unquotedMeta := by
  intro h
  have hok : (parseScrapyCommand (some smuggledCommand)).isOk = true := by decide +kernel
  cases hp : parseScrapyCommand (some smuggledCommand) with
  | error e =>
      rw [hp] at hok
      cases hok
  | ok p => exact h smuggledCommand p hp ';' (by decide +kernel) (by decide +kernel)

end ScrapyCommand

end Dopilot
