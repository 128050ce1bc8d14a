/-
Dopilot/ScrapyCommand.lean

The commands of Scrapy runs.

A command is the one text that says what a template or a schedule runs:

    scrapy crawl <spider> [-a key=value]... [-s KEY=VALUE]...

It is no shell command.  `rejectUnquotedMetacharacters` scans it for characters
that would mean something to a shell, `shlexSplit` cuts it into tokens the way
the standard library does in POSIX mode, and what remains is the grammar above,
token by token.  The parser is shared by the server and the agents.

A text is the list of its characters; `strip` and the classes of characters are
those of the language of the source.
-/
import Dopilot.Table
import Mathlib.Data.List.DropRight

namespace Dopilot

/-- A string of the source: its code points. -/
abbrev Text := List Char

namespace Text

/-- `str.isspace`, of one character. -/
def isSpace (c : Char) : Bool :=
  (9 ≤ c.toNat && c.toNat ≤ 13) || (28 ≤ c.toNat && c.toNat ≤ 32) ||
    (0x2000 ≤ c.toNat && c.toNat ≤ 0x200A) ||
    [0x85, 0xA0, 0x1680, 0x2028, 0x2029, 0x202F, 0x205F, 0x3000].contains c.toNat

/-- `str.strip`. -/
def strip (t : Text) : Text := (t.dropWhile isSpace).rdropWhile isSpace

/-- A stripped text does not begin with a space. -/
theorem strip_cons {t : Text} {c : Char} {cs : Text} (h : strip t = c :: cs) :
    isSpace c = false := by
  obtain ⟨rest, hrest⟩ := List.rdropWhile_prefix isSpace (t.dropWhile isSpace)
  have hdrop : t.dropWhile isSpace = c :: (cs ++ rest) := by
    rw [← hrest, ← List.cons_append, ← h]
    rfl
  have hnot := List.head?_dropWhile_not isSpace t
  rw [hdrop, List.head?_cons] at hnot
  simpa using hnot

/-- **To strip a text twice is to strip it once.** -/
theorem strip_strip (t : Text) : strip (strip t) = strip t := by
  have hfront : (strip t).dropWhile isSpace = strip t := by
    rcases hs : strip t with - | ⟨c, cs⟩
    · rfl
    · have hc : ¬ isSpace c = true := by
        rw [strip_cons hs]
        exact Bool.false_ne_true
      exact List.dropWhile_cons_of_neg hc
  calc strip (strip t) = ((strip t).dropWhile isSpace).rdropWhile isSpace := rfl
    _ = (strip t).rdropWhile isSpace := by rw [hfront]
    _ = strip t := List.rdropWhile_idempotent _ _

end Text

namespace ScrapyCommand

/-! ### Errors -/

/-- `ScrapyCommandError.reason`. -/
inductive Reason where
  | empty
  | shellMetacharacter
  | unbalancedQuote
  | notScrapyCrawl
  | missingSpider
  | unsupportedFlag
  | missingValue
  | malformedPair
  | invalidKey
  | invalidValue
  deriving DecidableEq, Repr

/-- The text of a reason, which every detail carries. -/
def Reason.text : Reason → String
  | .empty => "empty"
  | .shellMetacharacter => "shell_metacharacter"
  | .unbalancedQuote => "unbalanced_quote"
  | .notScrapyCrawl => "not_scrapy_crawl"
  | .missingSpider => "missing_spider"
  | .unsupportedFlag => "unsupported_flag"
  | .missingValue => "missing_value"
  | .malformedPair => "malformed_pair"
  | .invalidKey => "invalid_key"
  | .invalidValue => "invalid_value"

/-- `ScrapyCommandError`: a reason, and what the detail says beside it. -/
structure Error where
  reason : Reason
  extra : List (String × Text) := []
  deriving DecidableEq, Repr

/-- `ScrapyCommandError.detail`. -/
def Error.detail (e : Error) : List (String × Text) :=
  ("reason", e.reason.text.toList) :: e.extra

/-! ### Scanning for metacharacters -/

/-- `_UNQUOTED_META`. -/
def unquotedMeta : Text := ";&|<>`$()\x7b\x7d\\!*?[]#~\n\r".toList

def singleQuote : Char := Char.ofNat 39

def doubleQuote : Char := Char.ofNat 34

def backslash : Char := Char.ofNat 92

def isQuote (c : Char) : Bool := c == singleQuote || c == doubleQuote

/-- The loop of `_reject_unquoted_metacharacters`, inside a quote or outside. -/
def rejectFrom : Option Char → Text → Except Error Unit
  | none, [] => .ok ()
  | some _, [] => .error { reason := .unbalancedQuote }
  | some q, c :: cs => rejectFrom (if c = q then none else some q) cs
  | none, c :: cs =>
      if isQuote c then rejectFrom (some c) cs
      else if c ∈ unquotedMeta then
        .error { reason := .shellMetacharacter, extra := [("char", [c])] }
      else rejectFrom none cs

/-- `_reject_unquoted_metacharacters`. -/
def rejectUnquotedMetacharacters (command : Text) : Except Error Unit := rejectFrom none command

/-! ### Tokens -/

/-- `shlex.state`: between two tokens, in one, in a quotation, or after an escape
that goes back to a quotation or to the token. -/
inductive LexState where
  | blank
  | word
  | quote (q : Char)
  | escape (back : Option Char)
  deriving DecidableEq, Repr

/-- `shlex.whitespace`. -/
def lexSpace : Text := " \t\r\n".toList

/-- `shlex.read_token`, again and again, with the token so far. -/
def lexFrom : LexState → Text → Text → Except String (List Text)
  | .blank, _, [] => .ok []
  | .word, token, [] => .ok [token]
  | .quote _, _, [] => .error "No closing quotation"
  | .escape _, _, [] => .error "No escaped character"
  | .blank, _, c :: cs =>
      if c ∈ lexSpace then lexFrom .blank [] cs
      else if c = backslash then lexFrom (.escape none) [] cs
      else if isQuote c then lexFrom (.quote c) [] cs
      else lexFrom .word [c] cs
  | .word, token, c :: cs =>
      -- a token of two quotes is a token too
      if c ∈ lexSpace then (lexFrom .blank [] cs).map (token :: ·)
      else if isQuote c then lexFrom (.quote c) token cs
      else if c = backslash then lexFrom (.escape none) token cs
      else lexFrom .word (token ++ [c]) cs
  | .quote q, token, c :: cs =>
      if c = q then lexFrom .word token cs
      else if c = backslash ∧ q = doubleQuote then lexFrom (.escape (some q)) token cs
      else lexFrom (.quote q) (token ++ [c]) cs
  | .escape none, token, c :: cs => lexFrom .word (token ++ [c]) cs
  | .escape (some q), token, c :: cs =>
      -- within quotes only the quote and the escape itself are escaped
      if c = backslash ∨ c = q then lexFrom (.quote q) (token ++ [c]) cs
      else lexFrom (.quote q) (token ++ [backslash, c]) cs

/-- `shlex.split`, in POSIX mode. -/
def shlexSplit (command : Text) : Except String (List Text) := lexFrom .blank [] command

/-- `_tokenize`. -/
def tokenize (command : Text) : Except Error (List Text) := do
  rejectUnquotedMetacharacters command
  match shlexSplit command with
  | .ok tokens => .ok tokens
  | .error e => .error { reason := .unbalancedQuote, extra := [("error", e.toList)] }

/-! ### The grammar -/

/-- `$` in a pattern also matches before a newline that ends the text. -/
def dropFinalNewline (t : Text) : Text := if t.getLast? = some '\n' then t.dropLast else t

/-- A pattern of one character and any number of further ones, up to `$`. -/
def matchesClass (first further : Char → Bool) (t : Text) : Bool :=
  match dropFinalNewline t with
  | [] => false
  | c :: cs => first c && cs.all further

/-- `_SPIDER_RE`. -/
def spiderRe : Text → Bool :=
  matchesClass Char.isAlphanum fun c => c.isAlphanum || c ∈ "._-".toList

/-- `_KEY_RE`. -/
def keyRe : Text → Bool :=
  matchesClass (fun c => c.isAlpha || c == '_') fun c => c.isAlphanum || c ∈ "_.-".toList

/-- `_CONTROL_RE`. -/
def isControl (c : Char) : Bool :=
  c.toNat ≤ 0x08 || c.toNat == 0x0b || c.toNat == 0x0c ||
    (0x0e ≤ c.toNat && c.toNat ≤ 0x1f) || c.toNat == 0x7f

/-- `_validate_value`. -/
def validateValue (value : Text) : Except Error Unit :=
  if value.any isControl then .error { reason := .invalidValue } else .ok ()

/-- An assignment to a key of a `dict`. -/
def assign (dict : Table Text Text) (key value : Text) : Table Text Text :=
  if (dict.get key).isSome then dict.modify key fun _ => value else dict.insert key value

/-- `ParsedScrapyCommand`. -/
structure Parsed where
  spider : Text
  args : Table Text Text := .empty
  settings : Table Text Text := .empty

/-- What one pair adds to the result, under its flag. -/
def Parsed.add (p : Parsed) (flag key value : Text) : Parsed :=
  if flag = "-a".toList then { p with args := assign p.args key value }
  else { p with settings := assign p.settings key value }

/-- The loop of `parse_scrapy_command` over the tokens behind the spider. -/
def parsePairs : List Text → Parsed → Except Error Parsed
  | [], p => .ok p
  | flag :: rest, p =>
      if flag ≠ "-a".toList ∧ flag ≠ "-s".toList then
        .error { reason := .unsupportedFlag, extra := [("flag", flag)] }
      else
        match rest with
        | [] => .error { reason := .missingValue, extra := [("flag", flag)] }
        | pair :: rest =>
            let key := pair.takeWhile (· ≠ '=')
            let value := (pair.dropWhile (· ≠ '=')).drop 1
            if '=' ∉ pair then
              .error { reason := .malformedPair, extra := [("flag", flag), ("pair", pair)] }
            else if key.isEmpty || !keyRe key then
              .error { reason := .invalidKey, extra := [("flag", flag), ("key", key)] }
            else
              match validateValue value with
              | .error e => .error e
              | .ok () => parsePairs rest (p.add flag key value)

/-- `parse_scrapy_command`. -/
def parseScrapyCommand (command : Option Text) : Except Error Parsed :=
  let text := command.getD []
  if (Text.strip text).isEmpty then .error { reason := .empty }
  else do
    match ← tokenize text with
    | scrapy :: crawl :: rest =>
        if scrapy ≠ "scrapy".toList ∨ crawl ≠ "crawl".toList then
          .error { reason := .notScrapyCrawl }
        else
          match rest with
          | [] => .error { reason := .missingSpider }
          | spider :: rest =>
              if spider.head? = some '-' ∨ spiderRe spider = false then
                .error { reason := .missingSpider, extra := [("spider", spider)] }
              else parsePairs rest { spider := spider }
    | _ => .error { reason := .notScrapyCrawl }

end ScrapyCommand

end Dopilot
