/-
Dopilot/LogStats.lean

The stats that scrapy writes at the end of a job log.

`parse_scrapy_stats` looks for the last line with the marker in the tail of the
log, takes the lines behind it that look like those of a printed dict, up to one
that ends with a brace, and searches three of the dict's values in them.
-/
import Dopilot.AgentWorld
import Dopilot.Occurrences
import Dopilot.Utf8
import Mathlib.Data.List.DropRight

namespace Dopilot

namespace LogStats

/-! ### Bytes -/

/-- A bytes literal. -/
def ascii (s : String) : Bytes := s.toList.map fun c => UInt8.ofNat c.toNat

def newline : UInt8 := 10
def carriageReturn : UInt8 := 13
def quote : UInt8 := 39
def backslash : UInt8 := 92
def comma : UInt8 := 44
def openBrace : UInt8 := 123
def closeBrace : UInt8 := 125

/-- `\s`, and what `rstrip` takes away. -/
def isSpace (b : UInt8) : Bool := b = 32 ∨ 9 ≤ b ∧ b ≤ 13

/-- `\d`. -/
def isDigit (b : UInt8) : Bool := 48 ≤ b ∧ b ≤ 57

/-- `bytes.splitlines`. -/
def splitLines : Bytes → List Bytes
  | [] => []
  | b :: rest =>
      if b = newline then [] :: splitLines rest
      else if b = carriageReturn then
        match rest with
        | [] => [[]]
        | b' :: rest' =>
            -- the two are one line break
            if b' = newline then [] :: splitLines rest' else [] :: splitLines (b' :: rest')
      else
        match splitLines rest with
        | [] => [[b]]
        | line :: lines => (b :: line) :: lines

/-- What follows the first newline. -/
def afterLine (t : Bytes) : Option Bytes :=
  match t.dropWhile (· ≠ newline) with
  | [] => none
  | _ :: rest => some rest

/-- `b"\n".join`. -/
def joinLines (lines : List Bytes) : Bytes := [newline].intercalate lines

/-! ### The block -/

/-- `_STATS_BLOCK_MARKER`. -/
def marker : Bytes := ascii "Dumping Scrapy stats"

/-- `_RE_DICT_LINE`. -/
def isDictLine (line : Bytes) : Bool :=
  match line.dropWhile isSpace with
  | [] => false
  | b :: _ => b = openBrace || b = quote

/-- The line, without the white space at its end, ends with a brace. -/
def endsWithBrace (line : Bytes) : Bool := (line.rdropWhile isSpace).getLast? = some closeBrace

/-- The lines of the dict, and whether the last one closes it. -/
def dictLines : List Bytes → List Bytes × Bool
  | [] => ([], false)
  | line :: lines =>
      if isDictLine line then
        if endsWithBrace line then ([line], true)
        else (line :: (dictLines lines).1, (dictLines lines).2)
      else ([], false)

/-- The dict in the lines of a text. -/
def dictBlock (text : Bytes) : Bytes × Bool :=
  (joinLines (dictLines (splitLines text)).1, (dictLines (splitLines text)).2)

/-- `_last_stats_dict`. -/
def lastStatsDict (tail : Bytes) : Option (Bytes × Bool) :=
  (Occurrences.lastFrom marker tail).map fun found =>
    match afterLine found with
    | none => ([], false)
    | some text => dictBlock text

/-! ### The values -/

def errorCountKey : Bytes := ascii "log_count/ERROR"
def finishReasonKey : Bytes := ascii "finish_reason"
def outcomeClassKey : Bytes := ascii "outcome/class"

/-- `OUTCOME_CLASS_MAX_CHARS`. -/
def outcomeClassMaxChars : Nat := 64

/-- A key in quotes, and the colon. -/
def keyText (key : Bytes) : Bytes := quote :: key ++ ascii "':"

/-- `'key':\s*`. -/
def afterKey (key : Bytes) (t : Bytes) : Option Bytes :=
  if keyText key <+: t then some ((t.drop (keyText key).length).dropWhile isSpace) else none

/-- `_RE_ERROR_COUNT`, at one place. -/
def matchCount (t : Bytes) : Option Bytes :=
  (afterKey errorCountKey t).bind fun rest =>
    if rest.takeWhile isDigit = [] then none else some (rest.takeWhile isDigit)

/-- A text in quotes that is not empty. -/
def quoted : Bytes → Option Bytes
  | [] => none
  | b :: rest =>
      let value := rest.takeWhile (· ≠ quote)
      if b = quote ∧ value ≠ [] ∧ value.length < rest.length then some value else none

/-- `_RE_FINISH_REASON` and `_RE_OUTCOME_CLASS`, at one place. -/
def matchQuoted (key : Bytes) (t : Bytes) : Option Bytes := (afterKey key t).bind quoted

/-- The number that digits stand for. -/
def decimal (digits : Bytes) : Nat := digits.foldl (fun n b => n * 10 + (b.toNat - 48)) 0

/-- `int`: no more than 4300 digits are read. -/
def int (digits : Bytes) : Option Nat :=
  if digits.length ≤ 4300 then some (decimal digits) else none

/-- `decode("utf-8", errors="replace")`. -/
def decode (value : Bytes) : String := String.ofList (Utf8.decode value)

/-- The first characters of the text. -/
def decodeClass (value : Bytes) : String :=
  String.ofList ((Utf8.decode value).take outcomeClassMaxChars)

/-- The stats of a block; none if the counter has too many digits to be read. -/
def blockStats (block : Bytes) (closed : Bool) : Option ScrapyStats :=
  let stats : ScrapyStats :=
    { finishReason := (Occurrences.firstMatch (matchQuoted finishReasonKey) block).map decode
      outcomeClass := (Occurrences.firstMatch (matchQuoted outcomeClassKey) block).map decodeClass }
  match Occurrences.firstMatch matchCount block with
  | some digits => (int digits).map fun n => { stats with errorCount := some n }
  | none => some { stats with errorCount := if closed then some 0 else none }

/-- `parse_scrapy_stats`; none where it raises. -/
def parseScrapyStats (tail : Bytes) : Option ScrapyStats :=
  if tail = [] then some {}
  else
    match lastStatsDict tail with
    | none => some {}
    | some (block, closed) => blockStats block closed

/-! ### Lines -/

/-- Without a line break. -/
def Unbroken (line : Bytes) : Prop := newline ∉ line ∧ carriageReturn ∉ line

theorem Unbroken.append {a b : Bytes} (ha : Unbroken a) (hb : Unbroken b) : Unbroken (a ++ b) := by
  unfold Unbroken
  rw [List.mem_append, List.mem_append, not_or, not_or]
  exact ⟨⟨ha.1, hb.1⟩, ha.2, hb.2⟩

theorem Unbroken.subset {a b : Bytes} (hb : Unbroken b) (h : a ⊆ b) : Unbroken a :=
  ⟨fun hmem => hb.1 (h hmem), fun hmem => hb.2 (h hmem)⟩

theorem splitLines_cons {b : UInt8} {rest : Bytes} (hb : Unbroken [b]) :
    splitLines (b :: rest) = match splitLines rest with
      | [] => [[b]]
      | line :: lines => (b :: line) :: lines := by
  unfold Unbroken at hb
  rw [List.mem_singleton, List.mem_singleton] at hb
  rw [splitLines.eq_def]
  dsimp only
  rw [if_neg (Ne.symm hb.1), if_neg (Ne.symm hb.2)]

/-- A line, and what follows its line break. -/
theorem splitLines_line {line : Bytes} (h : Unbroken line) (rest : Bytes) :
    splitLines (line ++ newline :: rest) = line :: splitLines rest := by
  induction line with
  | nil =>
      rw [List.nil_append, splitLines.eq_def]
      exact if_pos rfl
  | cons b line ih =>
      have hline : Unbroken line := h.subset (List.subset_cons_self b line)
      have hb : Unbroken [b] :=
        h.subset (List.cons_subset.mpr ⟨List.mem_cons_self, List.nil_subset _⟩)
      rw [List.cons_append, splitLines_cons hb, ih hline]

/-- The last line. -/
theorem splitLines_last {line : Bytes} (h : Unbroken line) (hne : line ≠ []) :
    splitLines line = [line] := by
  induction line with
  | nil => exact absurd rfl hne
  | cons b line ih =>
      have hline : Unbroken line := h.subset (List.subset_cons_self b line)
      have hb : Unbroken [b] :=
        h.subset (List.cons_subset.mpr ⟨List.mem_cons_self, List.nil_subset _⟩)
      rw [splitLines_cons hb]
      by_cases hnil : line = []
      · rw [hnil]
        rfl
      · rw [ih hline hnil]

theorem isDictLine_ne_nil {line : Bytes} (h : isDictLine line = true) : line ≠ [] := by
  rintro rfl
  cases h

/-- A dict line goes on as one. -/
theorem isDictLine_append {line rest : Bytes} (h : isDictLine line = true) :
    isDictLine (line ++ rest) = true := by
  have hhead : (line ++ rest).dropWhile isSpace = line.dropWhile isSpace ++ rest := by
    rw [List.dropWhile_append, if_neg]
    intro hnil
    unfold isDictLine at h
    rw [List.isEmpty_iff.mp hnil] at h
    cases h
  unfold isDictLine at h ⊢
  rw [hhead]
  cases hline : line.dropWhile isSpace with
  | nil =>
      rw [hline] at h
      cases h
  | cons b line => rwa [hline] at h

/-! ### The lines of a dict -/

theorem joinLines_singleton (line : Bytes) : joinLines [line] = line := by
  unfold joinLines
  rw [List.intercalate_singleton]

section Block

variable {line rest : Bytes}

/-- One dict line, and nothing behind it. -/
theorem dictBlock_last (h : Unbroken line) (hline : isDictLine line = true) :
    dictBlock line = (line, endsWithBrace line) := by
  unfold dictBlock
  rw [splitLines_last h (isDictLine_ne_nil hline), dictLines, if_pos hline]
  cases hbrace : endsWithBrace line with
  | true => rw [if_pos rfl, joinLines_singleton]
  | false =>
      rw [if_neg Bool.false_ne_true]
      exact Prod.ext (joinLines_singleton line) rfl

/-- A dict line that closes the dict. -/
theorem dictBlock_close (h : Unbroken line) (hline : isDictLine line = true)
    (hbrace : endsWithBrace line = true) (rest : Bytes) :
    dictBlock (line ++ newline :: rest) = (line, true) := by
  unfold dictBlock
  rw [splitLines_line h, dictLines, if_pos hline, if_pos hbrace, joinLines_singleton]

/-- A dict line that does not, before one that is none. -/
theorem dictBlock_stop (h : Unbroken line) (hline : isDictLine line = true)
    (hbrace : endsWithBrace line = false) (hrest : dictLines (splitLines rest) = ([], false)) :
    dictBlock (line ++ newline :: rest) = (line, false) := by
  unfold dictBlock
  rw [splitLines_line h, dictLines, if_pos hline, if_neg (Bool.eq_false_iff.mp hbrace), hrest]
  exact Prod.ext (joinLines_singleton line) rfl

/-- A dict line that does not, before another one. -/
theorem dictBlock_line (h : Unbroken line) (hline : isDictLine line = true)
    (hbrace : endsWithBrace line = false) (hrest : (dictBlock rest).1 ≠ []) :
    dictBlock (line ++ newline :: rest) =
      (line ++ newline :: (dictBlock rest).1, (dictBlock rest).2) := by
  unfold dictBlock at hrest ⊢
  rw [splitLines_line h, dictLines, if_pos hline, if_neg (Bool.eq_false_iff.mp hbrace)]
  cases hlines : (dictLines (splitLines rest)).1 with
  | nil =>
      rw [hlines] at hrest
      exact absurd rfl hrest
  | cons line' lines =>
      rw [Prod.mk.injEq]
      refine ⟨?_, rfl⟩
      unfold joinLines
      rw [List.intercalate_cons_cons]
      simp

end Block

/-! ### The end of a text -/

section Ends

variable {a b : Bytes}

/-- What counts is the last byte that is no white space. -/
theorem endsWithBrace_append (hb : ∃ x ∈ b, isSpace x = false) :
    endsWithBrace (a ++ b) = endsWithBrace b := by
  obtain ⟨x, hx, hspace⟩ := hb
  have hne : b.rdropWhile isSpace ≠ [] := by
    intro hnil
    rw [List.rdropWhile_eq_nil_iff] at hnil
    rw [hnil x hx] at hspace
    cases hspace
  have happend : (a ++ b).rdropWhile isSpace = a ++ b.rdropWhile isSpace := by
    unfold List.rdropWhile
    rw [List.reverse_append, List.dropWhile_append, if_neg, List.reverse_append,
      List.reverse_reverse]
    intro hnil
    refine hne ?_
    unfold List.rdropWhile
    rw [List.isEmpty_iff.mp hnil]
    rfl
  unfold endsWithBrace
  rw [happend, List.getLast?_append_of_ne_nil a hne]

theorem endsWithBrace_concat {x : UInt8} (hx : isSpace x = false) :
    endsWithBrace (a ++ [x]) = decide (x = closeBrace) := by
  rw [endsWithBrace_append ⟨x, List.mem_singleton.mpr rfl, hx⟩]
  unfold endsWithBrace
  rw [List.rdropWhile_singleton, hx, if_neg Bool.false_ne_true]
  simp

/-- White space at the end does not count. -/
theorem endsWithBrace_spaces (hb : ∀ x ∈ b, isSpace x = true) :
    endsWithBrace (a ++ b) = endsWithBrace a := by
  have hdrop : (a ++ b).rdropWhile isSpace = a.rdropWhile isSpace := by
    unfold List.rdropWhile
    rw [List.reverse_append, List.dropWhile_append, if_pos]
    rw [List.isEmpty_iff, List.dropWhile_eq_nil_iff]
    exact fun x hx => hb x (List.mem_reverse.mp hx)
  unfold endsWithBrace
  rw [hdrop]

end Ends

end LogStats

end Dopilot
