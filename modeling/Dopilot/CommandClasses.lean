/-
Dopilot/CommandClasses.lean

What an accepted command can hold.

The tokens of an accepted command are `scrapy`, `crawl`, the spider, and two
tokens for each of its pairs (`parsePairs_ok`); the result is what the pairs
write, the last one last (`get_args_foldl`, `get_settings_foldl`).

The classes of the spider and of the keys are what the patterns spell out.  A
pattern up to `$` also matches before a newline that ends the text, and a quoted
newline reaches it: so a spider or a key may end with a newline, and nothing else
gets past the classes (`accepted_iff`).
-/
import Dopilot.ScrapyCommand

namespace Dopilot

namespace ScrapyCommand

/-! ### Pairs -/

/-- A flag with a key and a value. -/
structure Pair where
  flag : Text
  key : Text
  value : Text

namespace Pair

/-- The two tokens of a pair. -/
def tokens (q : Pair) : List Text := [q.flag, q.key ++ '=' :: q.value]

end Pair

/-- The value last written for a key under a flag. -/
def lastWrite (flag key : Text) : List Pair → Option Text
  | [] => none
  | q :: pairs =>
      (lastWrite flag key pairs).or (if q.flag = flag ∧ q.key = key then some q.value else none)

/-- A pair that the loop takes. -/
structure Pair.Taken (q : Pair) : Prop where
  flag : q.flag = "-a".toList ∨ q.flag = "-s".toList
  key : keyRe q.key = true
  bare : '=' ∉ q.key
  value : q.value.any isControl = false

/-- A token with an equals sign is cut at the first one. -/
theorem cut_pair {pair : Text} (h : '=' ∈ pair) :
    pair = pair.takeWhile (· ≠ '=') ++ '=' :: (pair.dropWhile (· ≠ '=')).drop 1 := by
  have hrest : pair.dropWhile (· ≠ '=') ≠ [] := by
    intro hnil
    have hall := List.dropWhile_eq_nil_iff.mp hnil '=' h
    simp at hall
  have hhead : ∃ cs, pair.dropWhile (· ≠ '=') = '=' :: cs := by
    rcases hd : pair.dropWhile (· ≠ '=') with - | ⟨c, cs⟩
    · exact absurd hd hrest
    · have hnot := List.head?_dropWhile_not (· ≠ '=') pair
      rw [hd, List.head?_cons] at hnot
      have hc : c = '=' := by simpa using hnot
      exact ⟨cs, by rw [hc]⟩
  obtain ⟨cs, hcs⟩ := hhead
  rw [hcs, List.drop_one, List.tail_cons, ← hcs]
  exact (List.takeWhile_append_dropWhile ..).symm

/-- The part before the equals sign has none. -/
theorem not_mem_takeWhile (pair : Text) : '=' ∉ pair.takeWhile (· ≠ '=') := by
  intro h
  have hne := List.mem_takeWhile_imp h
  simp at hne

/-- **The loop** comes to its end only over pairs, and writes them in order. -/
theorem parsePairs_ok {tokens : List Text} {p₀ p : Parsed} (h : parsePairs tokens p₀ = .ok p) :
    ∃ pairs : List Pair, tokens = pairs.flatMap Pair.tokens ∧ (∀ q ∈ pairs, q.Taken) ∧
      p = pairs.foldl (fun p q => p.add q.flag q.key q.value) p₀ := by
  induction tokens, p₀ using parsePairs.induct with
  | case1 p₀ =>
      obtain rfl := Except.ok.inj h
      exact ⟨[], rfl, fun q hq => absurd hq List.not_mem_nil, rfl⟩
  | case2 flag rest p₀ hflag =>
      rw [parsePairs.eq_def] at h
      simp only [if_pos hflag] at h
      cases h
  | case3 flag p₀ hflag =>
      rw [parsePairs.eq_def] at h
      simp only [if_neg hflag] at h
      cases h
  | case4 flag p₀ hflag pair rest hpair =>
      rw [parsePairs.eq_def] at h
      simp only [if_neg hflag, if_pos hpair] at h
      cases h
  | case5 flag p₀ hflag pair rest key hpair hkey =>
      rw [parsePairs.eq_def] at h
      simp only [if_neg hflag, if_neg hpair] at h
      rw [if_pos hkey] at h
      cases h
  | case6 flag p₀ hflag pair rest key value hpair hkey e hvalue =>
      rw [parsePairs.eq_def] at h
      simp only [if_neg hflag, if_neg hpair] at h
      rw [if_neg hkey, hvalue] at h
      cases h
  | case7 flag p₀ hflag pair rest key value hpair hkey hvalue ih =>
      rw [parsePairs.eq_def] at h
      simp only [if_neg hflag, if_neg hpair] at h
      rw [if_neg hkey, hvalue] at h
      obtain ⟨pairs, htokens, htaken, hp⟩ := ih h
      have hmem : '=' ∈ pair := not_not.mp hpair
      refine ⟨⟨flag, key, value⟩ :: pairs, ?_, ?_, hp⟩
      · rw [List.flatMap_cons, ← htokens]
        show flag :: pair :: rest = flag :: (key ++ '=' :: value) :: rest
        rw [← cut_pair hmem]
      · intro q hq
        rcases List.mem_cons.mp hq with rfl | hq
        · refine ⟨?_, ?_, not_mem_takeWhile pair, ?_⟩
          · by_contra hno
            exact hflag (not_or.mp hno)
          · have hkey' : ¬ (key.isEmpty || !keyRe key) = true := hkey
            rw [Bool.or_eq_true, not_or] at hkey'
            simpa using hkey'.2
          · have hvalue' : validateValue value = .ok () := hvalue
            unfold validateValue at hvalue'
            split at hvalue'
            · cases hvalue'
            · rename_i hc
              simpa using hc
        · exact htaken q hq

/-! ### What the pairs write -/

theorem get_assign (dict : Table Text Text) (key value k : Text) :
    (assign dict key value).get k = if k = key then some value else dict.get k :=
  Table.get_put dict key value k

/-- The arguments: the last pair of a key counts. -/
theorem get_args_foldl (pairs : List Pair) (p₀ : Parsed) (k : Text) :
    (pairs.foldl (fun p q => p.add q.flag q.key q.value) p₀).args.get k =
      (lastWrite "-a".toList k pairs).or (p₀.args.get k) := by
  induction pairs generalizing p₀ with
  | nil => rfl
  | cons q pairs ih =>
      rw [List.foldl_cons, ih, lastWrite, Option.or_assoc]
      congr 1
      by_cases hflag : q.flag = "-a".toList
      · rw [Parsed.add, if_pos hflag, get_assign]
        by_cases hk : k = q.key
        · rw [if_pos hk, if_pos ⟨hflag, hk.symm⟩, Option.some_or]
        · rw [if_neg hk, if_neg fun hc => hk hc.2.symm, Option.none_or]
      · rw [Parsed.add, if_neg hflag, if_neg fun hc => hflag hc.1, Option.none_or]

/-- The settings: the last pair of a key counts. -/
theorem get_settings_foldl (pairs : List Pair) (hpairs : ∀ q ∈ pairs, q.Taken) (p₀ : Parsed)
    (k : Text) :
    (pairs.foldl (fun p q => p.add q.flag q.key q.value) p₀).settings.get k =
      (lastWrite "-s".toList k pairs).or (p₀.settings.get k) := by
  induction pairs generalizing p₀ with
  | nil => rfl
  | cons q pairs ih =>
      rw [List.foldl_cons, ih (fun q hq => hpairs q (List.mem_cons_of_mem _ hq)), lastWrite,
        Option.or_assoc]
      congr 1
      rcases (hpairs q List.mem_cons_self).flag with hflag | hflag
      · have hne : q.flag ≠ "-s".toList := by
          rw [hflag]
          decide
        rw [Parsed.add, if_pos hflag, if_neg fun hc => hne hc.1, Option.none_or]
      · have hne : q.flag ≠ "-a".toList := by
          rw [hflag]
          decide
        rw [Parsed.add, if_neg hne, get_assign]
        by_cases hk : k = q.key
        · rw [if_pos hk, if_pos ⟨hflag, hk.symm⟩, Option.some_or]
        · rw [if_neg hk, if_neg fun hc => hk hc.2.symm, Option.none_or]

theorem spider_foldl (pairs : List Pair) (p₀ : Parsed) :
    (pairs.foldl (fun p q => p.add q.flag q.key q.value) p₀).spider = p₀.spider := by
  induction pairs generalizing p₀ with
  | nil => rfl
  | cons q pairs ih =>
      rw [List.foldl_cons, ih, Parsed.add]
      split <;> rfl

theorem shlexSplit_of_tokenize {command : Text} {tokens : List Text}
    (h : tokenize command = .ok tokens) : shlexSplit command = .ok tokens := by
  unfold tokenize at h
  cases hguard : rejectUnquotedMetacharacters command with
  | error e =>
      rw [hguard] at h
      cases h
  | ok u =>
      cases hlex : shlexSplit command with
      | error e =>
          rw [hguard, hlex] at h
          cases h
      | ok tokens' =>
          rw [hguard, hlex] at h
          exact congrArg _ (Except.ok.inj h)

/-- **An accepted command**, token by token. -/
theorem parseScrapyCommand_ok {command : Text} {p : Parsed}
    (h : parseScrapyCommand (some command) = .ok p) :
    ∃ (spider : Text) (pairs : List Pair), shlexSplit command =
        .ok ("scrapy".toList :: "crawl".toList :: spider :: pairs.flatMap Pair.tokens) ∧
      spiderRe spider = true ∧ (∀ q ∈ pairs, q.Taken) ∧
      p = pairs.foldl (fun p q => p.add q.flag q.key q.value) { spider := spider } := by
  unfold parseScrapyCommand at h
  simp only [Option.getD_some] at h
  split at h
  · cases h
  cases htokens : tokenize command with
  | error e =>
      rw [htokens] at h
      cases h
  | ok tokens =>
      have hlex : shlexSplit command = .ok tokens := shlexSplit_of_tokenize htokens
      rw [htokens] at h
      rcases tokens with - | ⟨scrapy, - | ⟨crawl, rest⟩⟩
      · cases h
      · cases h
      dsimp only [bind, Except.bind] at h
      split at h
      · cases h
      rename_i hcrawl
      obtain ⟨hscrapy, hcrawl⟩ := not_or.mp hcrawl
      rw [not_not] at hscrapy hcrawl
      rcases rest with - | ⟨spider, rest⟩
      · cases h
      simp only at h
      split at h
      · cases h
      rename_i hspider
      obtain ⟨-, hspider⟩ := not_or.mp hspider
      obtain ⟨pairs, hrest, htaken, hp⟩ := parsePairs_ok h
      exact ⟨spider, pairs, by rw [hlex, hscrapy, hcrawl, hrest], by simpa using hspider, htaken, hp⟩

/-! ### Classes -/

/-- A first character and any number of further ones, and nothing else. -/
def inClass (first further : Char → Bool) : Text → Bool
  | [] => false
  | c :: cs => first c && cs.all further

/-- ASCII letters, digits, `.`, `_` and `-`, starting with a letter or a digit. -/
def spiderClass : Text → Bool :=
  inClass Char.isAlphanum fun c => c.isAlphanum || c ∈ "._-".toList

/-- ASCII letters, digits, `_`, `.` and `-`, starting with a letter or `_`. -/
def keyClass : Text → Bool :=
  inClass (fun c => c.isAlpha || c == '_') fun c => c.isAlphanum || c ∈ "_.-".toList

/-- The pattern admits the class, and a newline at the end beside it. -/
theorem inClass_iff {first further : Char → Bool} (hfirst : first '\n' = false)
    (hfurther : further '\n' = false) {t : Text} :
    inClass first further t = true ↔
      matchesClass first further t = true ∧ t.getLast? ≠ some '\n' := by
  constructor
  · intro h
    have hlast : t.getLast? ≠ some '\n' := by
      intro hlast
      have hmem : '\n' ∈ t := List.mem_of_getLast? hlast
      rcases t with - | ⟨c, cs⟩
      · cases hmem
      obtain ⟨hc, hcs⟩ := (Bool.and_eq_true _ _).mp h
      rcases List.mem_cons.mp hmem with rfl | hmem
      · rw [hfirst] at hc
        cases hc
      · have hn := List.all_eq_true.mp hcs _ hmem
        rw [hfurther] at hn
        cases hn
    refine ⟨?_, hlast⟩
    unfold matchesClass dropFinalNewline
    rw [if_neg hlast]
    cases t with
    | nil => exact h
    | cons c cs => exact h
  · rintro ⟨h, hlast⟩
    unfold matchesClass dropFinalNewline at h
    rw [if_neg hlast] at h
    cases t with
    | nil => exact h
    | cons c cs => exact h

/-- What a pattern matches. -/
theorem matchesClass_cases {first further : Char → Bool} {t : Text}
    (h : matchesClass first further t = true) :
    ∃ c cs, (t = c :: cs ∨ t = c :: cs ++ ['\n']) ∧ first c = true ∧
      ∀ d ∈ cs, further d = true := by
  unfold matchesClass at h
  rcases hd : dropFinalNewline t with - | ⟨c, cs⟩
  · rw [hd] at h
    cases h
  rw [hd] at h
  obtain ⟨hc, hcs⟩ := (Bool.and_eq_true _ _).mp h
  refine ⟨c, cs, ?_, hc, List.all_eq_true.mp hcs⟩
  unfold dropFinalNewline at hd
  split at hd
  · rename_i hlast
    right
    rw [← hd]
    exact (List.dropLast_append_getLast? _ hlast).symm
  · exact .inl hd

/-- A character outside a class is in no text that the pattern of the class matches. -/
theorem not_mem_of_matchesClass {first further : Char → Bool} {t : Text} {d : Char}
    (h : matchesClass first further t = true) (hfirst : first d = false)
    (hfurther : further d = false) (hd : d ≠ '\n') : d ∉ t := by
  obtain ⟨c, cs, ht, hc, hcs⟩ := matchesClass_cases h
  have hmem : d ∉ c :: cs := by
    intro hmem
    rcases List.mem_cons.mp hmem with rfl | hmem
    · rw [hfirst] at hc
      cases hc
    · have hn := hcs d hmem
      rw [hfurther] at hn
      cases hn
  rcases ht with rfl | rfl
  · exact hmem
  · intro hmem'
    rcases List.mem_append.mp hmem' with hmem' | hmem'
    · exact hmem hmem'
    · exact hd (List.mem_singleton.mp hmem')

theorem spiderClass_iff {t : Text} :
    spiderClass t = true ↔ spiderRe t = true ∧ t.getLast? ≠ some '\n' :=
  inClass_iff (by decide) (by decide)

theorem keyClass_iff {t : Text} :
    keyClass t = true ↔ keyRe t = true ∧ t.getLast? ≠ some '\n' :=
  inClass_iff (by decide) (by decide)

/-! ### Paths -/

/-- `Path / segment`, over the components of a path. -/
def joinPath (base : List Text) (segment : Text) : List Text :=
  let parts := (segment.splitOn '/').filter fun part => part ≠ [] ∧ part ≠ ['.']
  if segment.head? = some '/' then parts else base ++ parts

/-- `ScrapyRunner.log_path`. -/
def logPath (logsDir : List Text) (project spider job : Text) : List Text :=
  joinPath (joinPath (joinPath logsDir project) spider) (job ++ ".log".toList)

/-- A text that is one component of a path, and no step up. -/
def SafeComponent (t : Text) : Prop :=
  (∀ base, joinPath base t = base ++ [t]) ∧ t ≠ "..".toList

theorem SafeComponent.of_forall {t : Text} (hslash : '/' ∉ t) (hnil : t ≠ [])
    (hdot : t.head? ≠ some '.') : SafeComponent t := by
  have hne : t ≠ ['.'] := by
    rintro rfl
    exact hdot rfl
  refine ⟨fun base => ?_, ?_⟩
  · have hhead : t.head? ≠ some '/' := fun h => hslash (List.mem_of_head? h)
    unfold joinPath
    rw [List.splitOn_eq_singleton hslash, if_neg hhead]
    simp [hnil, hne]
  · rintro rfl
    exact hdot rfl

/-- A text that the pattern of spiders matches is a safe component. -/
theorem safeComponent_of_spiderRe {t : Text} (h : spiderRe t = true) : SafeComponent t := by
  obtain ⟨c, cs, ht, hc, -⟩ := matchesClass_cases h
  have hslash : '/' ∉ t := not_mem_of_matchesClass h (by decide) (by decide) (by decide)
  have hdot : c ≠ '.' := by
    rintro rfl
    exact absurd hc (by decide)
  rcases ht with rfl | rfl
  · exact .of_forall hslash (List.cons_ne_nil _ _) (by simpa using hdot)
  · exact .of_forall hslash (List.cons_ne_nil _ _) (by simpa using hdot)

/-! ### Accepted commands -/

/-- The result of a command, and the classes it keeps to. -/
structure Accepted (command : Text) (p : Parsed) : Prop where
  spider : spiderClass p.spider = true
  /-- The pairs of the command, in order. -/
  pairs : ∃ pairs : List Pair, shlexSplit command =
      .ok ("scrapy".toList :: "crawl".toList :: p.spider :: pairs.flatMap Pair.tokens) ∧
    (∀ q ∈ pairs, (q.flag = "-a".toList ∨ q.flag = "-s".toList) ∧ keyClass q.key = true ∧
      q.value.any isControl = false) ∧
    (∀ k, p.args.get k = lastWrite "-a".toList k pairs) ∧
    ∀ k, p.settings.get k = lastWrite "-s".toList k pairs
  /-- In the path of a log the spider is one component. -/
  path : p.spider ≠ "..".toList ∧ ∀ logsDir project job,
    logPath logsDir project p.spider job =
      joinPath (joinPath logsDir project ++ [p.spider]) (job ++ ".log".toList)

/-- No token has a newline at its end, or before its first equals sign. -/
def NoFinalNewline (command : Text) : Prop :=
  ∀ tokens, shlexSplit command = .ok tokens →
    ∀ t ∈ tokens, (t.takeWhile (· ≠ '=')).getLast? ≠ some '\n'

/-- The part of a token before its first equals sign. -/
theorem takeWhile_bare {t : Text} (h : '=' ∉ t) : t.takeWhile (· ≠ '=') = t := by
  rw [List.takeWhile_eq_self_iff]
  intro c hc
  have hne : c ≠ '=' := by
    rintro rfl
    exact h hc
  simpa using hne

theorem takeWhile_pair {key value : Text} (h : '=' ∉ key) :
    (key ++ '=' :: value).takeWhile (· ≠ '=') = key := by
  rw [List.takeWhile_append_of_pos]
  · simp
  · intro c hc
    have hne : c ≠ '=' := by
      rintro rfl
      exact h hc
    simpa using hne

theorem bare_of_spiderRe {t : Text} (h : spiderRe t = true) : '=' ∉ t :=
  not_mem_of_matchesClass h (by decide) (by decide) (by decide)

theorem bare_of_keyRe {t : Text} (h : keyRe t = true) : '=' ∉ t :=
  not_mem_of_matchesClass h (by decide) (by decide) (by decide)

/-- **An accepted command keeps to its classes if and only if no spider and no
key ends with a newline.** -/
theorem accepted_iff (command : Text) (p : Parsed) (h : parseScrapyCommand (some command) = .ok p) :
    Accepted command p ↔ NoFinalNewline command := by
  constructor
  · rintro ⟨hspider, ⟨pairs, hlex, hpairs, -, -⟩, -⟩ tokens htokens t ht
    rw [hlex, Except.ok.injEq] at htokens
    subst htokens
    rcases List.mem_cons.mp ht with rfl | ht
    · decide
    rcases List.mem_cons.mp ht with rfl | ht
    · decide
    rcases List.mem_cons.mp ht with rfl | ht
    · obtain ⟨hre, hlast⟩ := spiderClass_iff.mp hspider
      rwa [takeWhile_bare (bare_of_spiderRe hre)]
    obtain ⟨q, hq, ht⟩ := List.mem_flatMap.mp ht
    obtain ⟨hflag, hkey, -⟩ := hpairs q hq
    rcases List.mem_cons.mp ht with rfl | ht
    · rcases hflag with hflag | hflag <;> rw [hflag] <;> decide
    · obtain ⟨hre, hlast⟩ := keyClass_iff.mp hkey
      rw [List.mem_singleton.mp ht, takeWhile_pair (bare_of_keyRe hre)]
      exact hlast
  · intro hclean
    obtain ⟨spider, pairs, hlex, hspider, htaken, hp⟩ := parseScrapyCommand_ok h
    have hname : p.spider = spider := by rw [hp, spider_foldl]
    have hlast := hclean _ hlex
    rw [← hname] at hlex hspider hlast
    refine ⟨?_, ⟨pairs, hlex, fun q hq => ?_, fun k => ?_, fun k => ?_⟩, ?_, ?_⟩
    · have hend := hlast p.spider
        (List.mem_cons_of_mem _ (List.mem_cons_of_mem _ List.mem_cons_self))
      rw [takeWhile_bare (bare_of_spiderRe hspider)] at hend
      exact spiderClass_iff.mpr ⟨hspider, hend⟩
    · have hq' := htaken q hq
      have hend := hlast (q.key ++ '=' :: q.value)
        (List.mem_cons_of_mem _ (List.mem_cons_of_mem _ (List.mem_cons_of_mem _
          (List.mem_flatMap.mpr ⟨q, hq, List.mem_cons_of_mem _ List.mem_cons_self⟩))))
      rw [takeWhile_pair hq'.bare] at hend
      exact ⟨hq'.flag, keyClass_iff.mpr ⟨hq'.key, hend⟩, hq'.value⟩
    · rw [hp, get_args_foldl]
      exact Option.or_none
    · rw [hp, get_settings_foldl pairs htaken]
      exact Option.or_none
    · exact (safeComponent_of_spiderRe hspider).2
    · intro logsDir project job
      unfold logPath
      rw [(safeComponent_of_spiderRe hspider).1]

/-- A command with an argument and a setting. -/
def plainCommand : Text := "scrapy crawl s.1 -a page=1 -s A=2 -a page=3".toList

theorem accepted_iff_plain : ∃ p, parseScrapyCommand (some plainCommand) = .ok p ∧
    (Accepted plainCommand p ↔ NoFinalNewline plainCommand) := by
  have hok : (parseScrapyCommand (some plainCommand)).isOk = true := by decide +kernel
  cases hp : parseScrapyCommand (some plainCommand) with
  | error e =>
      rw [hp] at hok
      cases hok
  | ok p => exact ⟨p, rfl, accepted_iff plainCommand p hp⟩

/-- The spider is quoted, and ends with a newline. -/
def brokenCommand : Text :=
  "scrapy crawl ".toList ++ doubleQuote :: 's' :: '\n' :: [doubleQuote]

theorem not_accepted :
    ¬ ∀ command p, parseScrapyCommand (some command) = .ok p → Accepted command p := by
  intro h
  have hok : (parseScrapyCommand (some brokenCommand)).isOk = true := by decide +kernel
  cases hp : parseScrapyCommand (some brokenCommand) with
  | error e =>
      rw [hp] at hok
      cases hok
  | ok p =>
      obtain ⟨spider, pairs, hlex, -, -, hspider⟩ := parseScrapyCommand_ok hp
      have hname : p.spider = spider := by rw [hspider, spider_foldl]
      have htokens : shlexSplit brokenCommand =
          .ok ["scrapy".toList, "crawl".toList, ['s', '\n']] := by decide +kernel
      rw [htokens, Except.ok.injEq] at hlex
      have hbroken : spider = ['s', '\n'] := by
        simp only [List.cons.injEq, true_and] at hlex
        exact hlex.1.symm
      have hclass := (h brokenCommand p hp).spider
      rw [hname, hbroken] at hclass
      exact absurd hclass (by decide)

end ScrapyCommand

end Dopilot
