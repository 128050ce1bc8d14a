/-
Dopilot/CommandRoundTrip.lean

To build a command and to parse it again.

`build_scrapy_command` is meant to be the inverse of the parser.  It is for plain
values: where the tokenizer reads every value back as it was, the parser returns
what the command was built from.  It is for no others (`returns_iff`), which takes
an argument, for what went wrong in one value could be put right by another.  It
cannot: if the result is right, the pairs that were written have all been read,
there are no equals signs for others (`count_tokens`), and so each was read where
it was written (`readBack_of_tokens`).

A value with a double quote is read back by the tokenizer, and refused by the
guard, to whom the escaped quote is the end of the quotation.
-/
import Dopilot.QuotedValues
import Dopilot.CommandClasses
import Mathlib.Data.List.Perm.Subperm
import Mathlib.Algebra.BigOperators.Group.Multiset.Basic
import Mathlib.Algebra.Order.BigOperators.Group.Multiset
import Mathlib.Algebra.Order.Ring.Nat

namespace Dopilot

namespace ScrapyCommand

/-! ### Building -/

/-- The pairs of a dictionary, under a flag. -/
def pairsUnder (flag : Text) (dict : Table Text Text) : List Pair :=
  dict.rows.map fun r => { flag := flag, key := r.1, value := r.2 }

/-- The pairs of a command to be built, in order. -/
def pairsOf (args settings : Table Text Text) : List Pair :=
  pairsUnder "-a".toList args ++ pairsUnder "-s".toList settings

/-- `" ".join(parts)`. -/
def joinParts : List Text → Text
  | [] => []
  | part :: parts => part ++ parts.flatMap (' ' :: ·)

/-- The parts of a pair. -/
def Pair.parts (q : Pair) : List Text := [q.flag, q.key ++ '=' :: quote q.value]

/-- `build_scrapy_command`. -/
def buildScrapyCommand (spider : Text) (args settings : Table Text Text) : Text :=
  joinParts ("scrapy".toList :: "crawl".toList :: spider ::
    (pairsOf args settings).flatMap Pair.parts)

/-- A pair as it stands in a command. -/
def Pair.written (q : Pair) : Text := ' ' :: (q.flag ++ ' ' :: (q.key ++ '=' :: quote q.value))

theorem buildScrapyCommand_eq (spider : Text) (args settings : Table Text Text) :
    buildScrapyCommand spider args settings =
      "scrapy crawl ".toList ++ (spider ++ (pairsOf args settings).flatMap Pair.written) := by
  have hpairs : ∀ pairs : List Pair,
      (pairs.flatMap Pair.parts).flatMap (' ' :: ·) = pairs.flatMap Pair.written := by
    intro pairs
    rw [List.flatMap_assoc]
    refine congrArg (fun f => List.flatMap f pairs) (funext fun q => ?_)
    show ' ' :: q.flag ++ ((' ' :: (q.key ++ '=' :: quote q.value)) ++ []) = _
    rw [List.append_nil]
    rfl
  have hjoin : buildScrapyCommand spider args settings = "scrapy".toList ++
      ("crawl".toList :: spider :: (pairsOf args settings).flatMap Pair.parts).flatMap
        (' ' :: ·) := rfl
  rw [hjoin, List.flatMap_cons, List.flatMap_cons, hpairs]
  rfl

/-- The parser returns a spider and two dictionaries. -/
def Returns (p : Parsed) (spider : Text) (args settings : Table Text Text) : Prop :=
  p.spider = spider ∧ (∀ k, p.args.get k = args.get k) ∧ ∀ k, p.settings.get k = settings.get k

/-! ### Characters -/

theorem ordinary_of_alphanum {c : Char} (h : c.isAlphanum = true) : ordinary c = true := by
  have hno : ∀ (bad : Text), bad.all (fun d => !d.isAlphanum) = true → c ∉ bad := by
    intro bad hbad hc
    have hn := List.all_eq_true.mp hbad c hc
    rw [h] at hn
    cases hn
  refine ordinary_iff.mpr ⟨hno _ (by decide), hno _ (by decide), ?_⟩
  rw [isQuote, Bool.or_eq_false_iff, beq_eq_false_iff_ne, beq_eq_false_iff_ne]
  constructor
  · rintro rfl
    exact absurd h (by decide)
  · rintro rfl
    exact absurd h (by decide)

theorem ordinary_of_mem {c : Char} {good : Text} (hgood : good.all ordinary = true) (h : c ∈ good) :
    ordinary c = true := List.all_eq_true.mp hgood c h

theorem isAlphanum_of_isAlpha {c : Char} (h : c.isAlpha = true) : c.isAlphanum = true := by
  rw [Char.isAlphanum, h, Bool.true_or]

/-- The characters of a spider are ordinary. -/
theorem ordinary_of_spiderClass {t : Text} (h : spiderClass t = true) : ∀ c ∈ t, ordinary c = true := by
  rcases t with - | ⟨c, cs⟩
  · cases h
  obtain ⟨hc, hcs⟩ := (Bool.and_eq_true _ _).mp h
  intro d hd
  rcases List.mem_cons.mp hd with rfl | hd
  · exact ordinary_of_alphanum hc
  · rcases (Bool.or_eq_true _ _).mp (List.all_eq_true.mp hcs d hd) with hd | hd
    · exact ordinary_of_alphanum hd
    · exact ordinary_of_mem (by decide) (of_decide_eq_true hd)

/-- The characters of a key are ordinary. -/
theorem ordinary_of_keyClass {t : Text} (h : keyClass t = true) : ∀ c ∈ t, ordinary c = true := by
  rcases t with - | ⟨c, cs⟩
  · cases h
  obtain ⟨hc, hcs⟩ := (Bool.and_eq_true _ _).mp h
  intro d hd
  rcases List.mem_cons.mp hd with rfl | hd
  · rcases (Bool.or_eq_true _ _).mp hc with hc | hc
    · exact ordinary_of_alphanum (isAlphanum_of_isAlpha hc)
    · rw [beq_iff_eq.mp hc]
      decide
  · rcases (Bool.or_eq_true _ _).mp (List.all_eq_true.mp hcs d hd) with hd | hd
    · exact ordinary_of_alphanum hd
    · exact ordinary_of_mem (by decide) (of_decide_eq_true hd)

/-! ### Reading what was written -/

/-- What stands behind a value in a command: nothing, or a space. -/
def Spaced (rest : Text) : Prop := rest = [] ∨ ∃ r, rest = ' ' :: r

theorem spaced_written (pairs : List Pair) : Spaced (pairs.flatMap Pair.written) := by
  cases pairs with
  | nil => exact .inl rfl
  | cons q pairs => exact .inr ⟨_, rfl⟩

theorem space_mem : ' ' ∈ lexSpace := by decide

/-- Behind a token there is nothing, or a space and the tokens to come. -/
theorem lexFrom_word_spaced {t : Text} {rest : Text} (h : Spaced rest) (tokens : List Text) :
    lexFrom .word t rest = .ok tokens ↔
      ∃ tokens', tokens = t :: tokens' ∧ lexFrom .blank [] rest = .ok tokens' := by
  rcases h with rfl | ⟨r, rfl⟩
  · refine ⟨fun h => ⟨[], (Except.ok.inj h).symm, rfl⟩, ?_⟩
    rintro ⟨tokens', rfl, h⟩
    rw [← Except.ok.inj h]
    rfl
  · have hword : lexFrom .word t (' ' :: r) = (lexFrom .blank [] r).map (t :: ·) := by
      rw [lexFrom, if_pos space_mem]
    have hblank : lexFrom .blank [] (' ' :: r) = lexFrom .blank [] r := by
      rw [lexFrom, if_pos space_mem]
    rw [hword, hblank]
    cases lexFrom .blank [] r with
    | error e =>
        refine ⟨fun h => (by cases h), ?_⟩
        rintro ⟨_, _, h⟩
        cases h
    | ok tokens' =>
        refine ⟨fun h => ⟨tokens', (Except.ok.inj h).symm, rfl⟩, ?_⟩
        rintro ⟨tokens'', rfl, h⟩
        rw [← Except.ok.inj h]
        rfl

/-- A word of ordinary characters, met between tokens. -/
theorem lexFrom_ordinary {w : Text} (hw : ∀ c ∈ w, ordinary c = true) (hne : w ≠ []) (rest : Text) :
    lexFrom .blank [] (w ++ rest) = lexFrom .word w rest := by
  rcases w with - | ⟨c, cs⟩
  · exact absurd rfl hne
  have hc := hw c List.mem_cons_self
  obtain ⟨hspace, -, -⟩ := ordinary_iff.mp hc
  have hnot := not_or.mp (not_isQuote_of_ordinary hc)
  have hfirst : lexFrom .blank [] (c :: (cs ++ rest)) = lexFrom .word [c] (cs ++ rest) := by
    rw [lexFrom, if_neg hspace, if_neg hnot.2, if_neg hnot.1]
  rw [List.cons_append, hfirst]
  have hreads := reads_ordinary fun d hd => hw d (List.mem_cons_of_mem c hd)
  exact hreads.lexFrom (fun h => by cases h) rest

/-- The start of a command. -/
theorem lexFrom_start (rest : Text) :
    lexFrom .blank [] ("scrapy crawl ".toList ++ rest) =
      (lexFrom .blank [] rest).map fun tokens =>
        "scrapy".toList :: "crawl".toList :: tokens := by
  have hscrapy : lexFrom .blank [] ("scrapy crawl ".toList ++ rest) =
      lexFrom .word "scrapy".toList (' ' :: ("crawl".toList ++ ' ' :: rest)) :=
    lexFrom_ordinary (w := "scrapy".toList) (List.all_eq_true.mp (by decide)) (by decide) _
  have hcrawl : lexFrom .blank [] ("crawl".toList ++ ' ' :: rest) =
      lexFrom .word "crawl".toList (' ' :: rest) :=
    lexFrom_ordinary (w := "crawl".toList) (List.all_eq_true.mp (by decide)) (by decide) _
  rw [hscrapy, lexFrom, if_pos space_mem, hcrawl, lexFrom, if_pos space_mem]
  cases lexFrom .blank [] rest <;> rfl

/-- What a pair of a command is written with. -/
structure Pair.Writable (q : Pair) : Prop where
  flag : q.flag = "-a".toList ∨ q.flag = "-s".toList
  key : keyRe q.key = true

/-- A flag needs no quotes. -/
theorem Pair.Writable.ordinary_flag {q : Pair} (h : q.Writable) :
    (∀ c ∈ q.flag, ordinary c = true) ∧ q.flag ≠ [] := by
  rcases h.flag with hf | hf
  · rw [hf]
    exact ⟨List.all_eq_true.mp (by decide), by decide⟩
  · rw [hf]
    exact ⟨List.all_eq_true.mp (by decide), by decide⟩

/-- The value of a pair is read back. -/
def Pair.ReadBack (q : Pair) : Prop :=
  keyClass q.key = true ∧ Reads .word (quote q.value) .word q.value

/-- The flag of a pair, met between tokens. -/
theorem lexFrom_flag {q : Pair} (h : q.Writable) (rest : Text) :
    lexFrom .blank [] (q.written ++ rest) =
      (lexFrom .blank [] (q.key ++ ('=' :: quote q.value ++ rest))).map (q.flag :: ·) := by
  obtain ⟨hflag, hne⟩ := h.ordinary_flag
  have hwritten : q.written ++ rest =
      ' ' :: (q.flag ++ ' ' :: (q.key ++ ('=' :: quote q.value ++ rest))) := by
    unfold Pair.written
    simp only [List.cons_append, List.append_assoc]
  rw [hwritten, lexFrom, if_pos space_mem, lexFrom_ordinary hflag hne, lexFrom, if_pos space_mem]

/-- The key of a pair is read up to the value. -/
theorem lexFrom_key {key : Text} (h : keyClass key = true) (rest : Text) :
    lexFrom .blank [] (key ++ '=' :: rest) = lexFrom .word (key ++ ['=']) rest := by
  have hord : ∀ c ∈ key ++ ['='], ordinary c = true := by
    intro c hc
    rcases List.mem_append.mp hc with hc | hc
    · exact ordinary_of_keyClass h c hc
    · rw [List.mem_singleton.mp hc]
      decide
  have hsplit : key ++ '=' :: rest = (key ++ ['=']) ++ rest := by
    rw [List.append_assoc]
    rfl
  rw [hsplit, lexFrom_ordinary hord (by simp)]

/-- **Pairs that are read back** are the tokens of the command. -/
theorem lexFrom_pairs {pairs : List Pair} (hw : ∀ q ∈ pairs, q.Writable)
    (hread : ∀ q ∈ pairs, q.ReadBack) :
    lexFrom .blank [] (pairs.flatMap Pair.written) = .ok (pairs.flatMap Pair.tokens) := by
  induction pairs with
  | nil => rfl
  | cons q pairs ih =>
      have hrest := ih (fun q hq => hw q (List.mem_cons_of_mem _ hq))
        fun q hq => hread q (List.mem_cons_of_mem _ hq)
      obtain ⟨hkey, hvalue⟩ := hread q List.mem_cons_self
      rw [List.flatMap_cons, List.flatMap_cons, lexFrom_flag (hw q List.mem_cons_self),
        List.cons_append, lexFrom_key hkey, hvalue.lexFrom (fun h => by cases h),
        (lexFrom_word_spaced (spaced_written pairs) _).mpr ⟨_, rfl, hrest⟩, List.append_assoc]
      rfl

/-! ### The tokens counted -/

/-- **An inert character that is no space is in the tokens as often as in the text.** -/
theorem count_tokens {x : Char} (hx : inert x = true) (hspace : x ∉ lexSpace) {st : LexState}
    (hst : st.quoted) {token text : Text} {tokens : List Text} (hblank : st = .blank → token = [])
    (h : lexFrom st token text = .ok tokens) :
    tokens.flatten.count x = token.count x + text.count x := by
  induction text generalizing st token tokens with
  | nil =>
      rcases lexFrom_nil h with rfl | rfl
      · rw [hblank rfl, ← Except.ok.inj h]
        rfl
      · rw [← Except.ok.inj h, List.flatten_singleton]
        rfl
  | cons c cs ih =>
      by_cases hc : st.between = true → c ∉ lexSpace
      · rw [lexFrom_cons hc hblank] at h
        rw [ih (quoted_lexNext hst c) (fun hb => absurd hb (lexNext_ne_blank hc)) h,
          List.count_append, count_lexOut_inert hx st c hst, Nat.add_assoc, ← List.count_append]
        rfl
      · obtain ⟨hbetween, hmem⟩ := Classical.not_imp.mp hc
        rw [not_not] at hmem
        have hne : (c :: cs).count x = cs.count x := by
          refine List.count_cons_of_ne ?_
          rintro rfl
          exact hspace hmem
        have hquoted : LexState.blank.quoted := by
          intro q hq
          rcases hq with hq | hq <;> cases hq
        cases st with
        | blank =>
            rw [lexFrom, if_pos hmem] at h
            rw [hblank rfl, hne]
            exact ih hquoted (fun _ => rfl) h
        | word =>
            rw [lexFrom, if_pos hmem] at h
            cases hrest : lexFrom .blank [] cs with
            | error e =>
                rw [hrest] at h
                cases h
            | ok tokens' =>
                rw [hrest] at h
                have htokens : token :: tokens' = tokens := Except.ok.inj h
                rw [← htokens, List.flatten_cons, List.count_append,
                  ih hquoted (fun _ => rfl) hrest, hne]
                exact congrArg _ (Nat.zero_add _)
        | quote q => cases hbetween
        | escape back => cases hbetween

/-- The equals signs of a pair. -/
def Pair.weight (q : Pair) : Nat := 1 + q.value.count '='

/-- A pair with a bare key has the equals sign between its parts, and those of its value. -/
theorem count_pair_tokens {q : Pair} (hflag : '=' ∉ q.flag) (hkey : '=' ∉ q.key) :
    q.tokens.flatten.count '=' = q.weight := by
  show (q.flag ++ ((q.key ++ '=' :: q.value) ++ [])).count '=' = _
  rw [List.append_nil, List.count_append, List.count_append, List.count_eq_zero.mpr hflag,
    List.count_eq_zero.mpr hkey, List.count_cons_self, Pair.weight]
  omega

theorem count_pair_written {q : Pair} (hflag : '=' ∉ q.flag) (hkey : '=' ∉ q.key) :
    q.written.count '=' = q.weight := by
  unfold Pair.written
  rw [List.count_cons_of_ne (by decide), List.count_append, List.count_cons_of_ne (by decide),
    List.count_append, List.count_eq_zero.mpr hflag, List.count_eq_zero.mpr hkey,
    List.count_cons_self, count_quote (by decide), Pair.weight]
  omega

theorem Pair.Writable.bare {q : Pair} (h : q.Writable) : '=' ∉ q.flag ∧ '=' ∉ q.key := by
  refine ⟨?_, bare_of_keyRe h.key⟩
  rcases h.flag with hf | hf <;> rw [hf] <;> decide

theorem Pair.Taken.writable {q : Pair} (h : q.Taken) : q.Writable := ⟨h.flag, h.key⟩

theorem count_tokens_flatMap {pairs : List Pair} (h : ∀ q ∈ pairs, q.Writable) :
    (pairs.flatMap Pair.tokens).flatten.count '=' = (pairs.map Pair.weight).sum := by
  induction pairs with
  | nil => rfl
  | cons q pairs ih =>
      obtain ⟨hflag, hkey⟩ := (h q List.mem_cons_self).bare
      rw [List.flatMap_cons, List.flatten_append, List.count_append,
        count_pair_tokens hflag hkey, ih fun q hq => h q (List.mem_cons_of_mem _ hq),
        List.map_cons, List.sum_cons]

theorem count_written_flatMap {pairs : List Pair} (h : ∀ q ∈ pairs, q.Writable) :
    (pairs.flatMap Pair.written).count '=' = (pairs.map Pair.weight).sum := by
  induction pairs with
  | nil => rfl
  | cons q pairs ih =>
      obtain ⟨hflag, hkey⟩ := (h q List.mem_cons_self).bare
      rw [List.flatMap_cons, List.count_append, count_pair_written hflag hkey,
        ih fun q hq => h q (List.mem_cons_of_mem _ hq), List.map_cons, List.sum_cons]

/-- A list with the elements of another that has no duplicates, and no more
weight, has no other elements. -/
theorem subset_of_sum_le {α : Type*} {l₁ l₂ : List α} {w : α → Nat} (hnodup : l₁.Nodup)
    (hsub : l₁ ⊆ l₂) (hpos : ∀ x, 0 < w x) (hsum : (l₂.map w).sum ≤ (l₁.map w).sum) : l₂ ⊆ l₁ := by
  have hle : (l₁ : Multiset α) ≤ l₂ := Multiset.coe_le.mpr (List.subperm_of_subset hnodup hsub)
  obtain ⟨u, hu⟩ := Multiset.le_iff_exists_add.mp hle
  have hadd : (l₂.map w).sum = (l₁.map w).sum + (u.map w).sum := by
    have hmap := congrArg (fun m => (Multiset.map w m).sum) hu
    simpa using hmap
  have hnone : u = 0 := by
    rw [Multiset.eq_zero_iff_forall_notMem]
    intro x hx
    have hterm : w x ≤ (u.map w).sum :=
      Multiset.single_le_sum (fun _ _ => Nat.zero_le _) _ (Multiset.mem_map_of_mem w hx)
    have hx0 := hpos x
    omega
  intro x hx
  have hx' : x ∈ (l₂ : Multiset α) := hx
  rwa [hu, hnone, add_zero] at hx'

/-! ### The pairs of two dictionaries -/

theorem mem_pairsUnder {flag : Text} {dict : Table Text Text} {q : Pair} :
    q ∈ pairsUnder flag dict ↔ q.flag = flag ∧ dict.get q.key = some q.value := by
  rw [← Table.mem_rows_iff]
  constructor
  · intro h
    obtain ⟨r, hr, rfl⟩ := List.mem_map.mp h
    exact ⟨rfl, hr⟩
  · rintro ⟨rfl, h⟩
    exact List.mem_map.mpr ⟨(q.key, q.value), h, rfl⟩

theorem mem_pairsOf {args settings : Table Text Text} {q : Pair} :
    q ∈ pairsOf args settings ↔ (q.flag = "-a".toList ∧ args.get q.key = some q.value) ∨
      (q.flag = "-s".toList ∧ settings.get q.key = some q.value) := by
  rw [pairsOf, List.mem_append, mem_pairsUnder, mem_pairsUnder]

theorem flags_differ : "-a".toList ≠ "-s".toList := by decide

/-- A pair is known by its flag and its key. -/
theorem pairsOf_unique {args settings : Table Text Text} {q q' : Pair}
    (h : q ∈ pairsOf args settings) (h' : q' ∈ pairsOf args settings) (hflag : q.flag = q'.flag)
    (hkey : q.key = q'.key) : q.value = q'.value := by
  rcases mem_pairsOf.mp h with ⟨hf, hv⟩ | ⟨hf, hv⟩ <;>
    rcases mem_pairsOf.mp h' with ⟨hf', hv'⟩ | ⟨hf', hv'⟩
  · rw [hkey, hv'] at hv
    exact (Option.some.inj hv).symm
  · exact absurd (hf.symm.trans (hflag.trans hf')) flags_differ
  · exact absurd (hf'.symm.trans (hflag.symm.trans hf)) flags_differ
  · rw [hkey, hv'] at hv
    exact (Option.some.inj hv).symm

theorem nodup_pairsUnder (flag : Text) (dict : Table Text Text) :
    (pairsUnder flag dict).Nodup := by
  refine List.Nodup.of_map Pair.key ?_
  have hkeys : (pairsUnder flag dict).map Pair.key = dict.rows.map Prod.fst := by
    rw [pairsUnder, List.map_map]
    rfl
  rw [hkeys]
  exact dict.nodup

theorem nodup_pairsOf (args settings : Table Text Text) : (pairsOf args settings).Nodup := by
  refine List.nodup_append.mpr ⟨nodup_pairsUnder _ _, nodup_pairsUnder _ _, ?_⟩
  rintro q hq q' hq' rfl
  exact flags_differ ((mem_pairsUnder.mp hq).1.symm.trans (mem_pairsUnder.mp hq').1)

/-- What was last written was written. -/
theorem mem_of_lastWrite {flag key value : Text} {pairs : List Pair}
    (h : lastWrite flag key pairs = some value) :
    ({ flag := flag, key := key, value := value } : Pair) ∈ pairs := by
  induction pairs with
  | nil => cases h
  | cons q pairs ih =>
      rw [lastWrite] at h
      cases hrest : lastWrite flag key pairs with
      | some v =>
          rw [hrest, Option.some_or, Option.some.injEq] at h
          exact List.mem_cons_of_mem _ (ih (by rw [hrest, h]))
      | none =>
          rw [hrest, Option.none_or] at h
          split at h
          · rename_i hq
            obtain ⟨rfl, rfl⟩ := hq
            rw [← Option.some.inj h]
            exact List.mem_cons_self
          · cases h

theorem lastWrite_of_mem {q : Pair} {pairs : List Pair} (h : q ∈ pairs) :
    ∃ value, lastWrite q.flag q.key pairs = some value := by
  induction pairs with
  | nil => cases h
  | cons q' pairs ih =>
      rw [lastWrite]
      rcases List.mem_cons.mp h with rfl | h
      · cases lastWrite q.flag q.key pairs with
        | some v => exact ⟨v, rfl⟩
        | none => exact ⟨q.value, by rw [if_pos ⟨rfl, rfl⟩, Option.none_or]⟩
      · obtain ⟨v, hv⟩ := ih h
        exact ⟨v, by rw [hv, Option.some_or]⟩

/-- The pairs of two dictionaries write these. -/
theorem lastWrite_pairsOf {args settings : Table Text Text} {flag key value : Text} :
    lastWrite flag key (pairsOf args settings) = some value ↔
      ({ flag := flag, key := key, value := value } : Pair) ∈ pairsOf args settings := by
  constructor
  · exact mem_of_lastWrite
  · intro h
    obtain ⟨v, hv⟩ := lastWrite_of_mem h
    rw [hv, Option.some.injEq]
    exact pairsOf_unique (mem_of_lastWrite hv) h rfl rfl

theorem lastWrite_args (args settings : Table Text Text) (k : Text) :
    lastWrite "-a".toList k (pairsOf args settings) = args.get k := by
  refine Option.ext fun v => ?_
  rw [lastWrite_pairsOf, mem_pairsOf]
  constructor
  · rintro (⟨-, h⟩ | ⟨hflag, -⟩)
    · exact h
    · exact absurd hflag flags_differ
  · exact fun h => .inl ⟨rfl, h⟩

theorem lastWrite_settings (args settings : Table Text Text) (k : Text) :
    lastWrite "-s".toList k (pairsOf args settings) = settings.get k := by
  refine Option.ext fun v => ?_
  rw [lastWrite_pairsOf, mem_pairsOf]
  constructor
  · rintro (⟨hflag, -⟩ | ⟨-, h⟩)
    · exact absurd hflag.symm flags_differ
    · exact h
  · exact fun h => .inr ⟨rfl, h⟩

/-! ### Reading them back -/

/-- The first token of a key that ends with a newline ends there. -/
theorem lexFrom_broken {w : Text} (hw : ∀ c ∈ w, ordinary c = true) (hne : w ≠ []) {rest : Text}
    {tokens : List Text} (h : lexFrom .blank [] (w ++ '\n' :: rest) = .ok tokens) :
    ∃ tokens', tokens = w :: tokens' := by
  rw [lexFrom_ordinary hw hne, lexFrom, if_pos (by decide : '\n' ∈ lexSpace)] at h
  cases hrest : lexFrom .blank [] rest with
  | error e =>
      rw [hrest] at h
      cases h
  | ok tokens' =>
      rw [hrest] at h
      exact ⟨tokens', (Except.ok.inj h).symm⟩

/-- What a pattern matches is in the class, or is of the class but for a newline at the end. -/
theorem keyRe_cases {t : Text} (h : keyRe t = true) :
    keyClass t = true ∨ ∃ w, keyClass w = true ∧ t = w ++ ['\n'] := by
  obtain ⟨c, cs, ht, hc, hcs⟩ := matchesClass_cases h
  have hclass : keyClass (c :: cs) = true :=
    (Bool.and_eq_true _ _).mpr ⟨hc, List.all_eq_true.mpr hcs⟩
  rcases ht with rfl | rfl
  · exact .inl hclass
  · exact .inr ⟨c :: cs, hclass, rfl⟩

theorem spiderRe_cases {t : Text} (h : spiderRe t = true) :
    spiderClass t = true ∨ ∃ w, spiderClass w = true ∧ t = w ++ ['\n'] := by
  obtain ⟨c, cs, ht, hc, hcs⟩ := matchesClass_cases h
  have hclass : spiderClass (c :: cs) = true :=
    (Bool.and_eq_true _ _).mpr ⟨hc, List.all_eq_true.mpr hcs⟩
  rcases ht with rfl | rfl
  · exact .inl hclass
  · exact .inr ⟨c :: cs, hclass, rfl⟩

theorem ne_nil_of_keyClass {t : Text} (h : keyClass t = true) : t ≠ [] := by
  rintro rfl
  cases h

/-- Two texts cut at their first equals sign. -/
theorem cut_unique {key key' value value' : Text} (hkey : '=' ∉ key) (hkey' : '=' ∉ key')
    (h : key ++ '=' :: value = key' ++ '=' :: value') : key = key' ∧ value = value' := by
  have hcut : (key ++ '=' :: value).takeWhile (· ≠ '=') = key := takeWhile_pair hkey
  rw [h, takeWhile_pair hkey'] at hcut
  subst hcut
  exact ⟨rfl, (List.cons.inj (List.append_cancel_left h)).2⟩

/-- **The pairs are read where they were written**: if the tokens of the written
pairs are pairs, and none of these gives a written key another value, then every
value is read back. -/
theorem readBack_of_tokens {pairs read : List Pair} (hw : ∀ q ∈ pairs, q.Writable)
    (hread : ∀ q ∈ read, '=' ∉ q.key)
    (hright : ∀ q ∈ pairs, ∀ q' ∈ read, q'.flag = q.flag → q'.key = q.key → q'.value = q.value)
    (h : lexFrom .blank [] (pairs.flatMap Pair.written) = .ok (read.flatMap Pair.tokens)) :
    ∀ q ∈ pairs, q.ReadBack := by
  induction pairs generalizing read with
  | nil => exact fun q hq => absurd hq List.not_mem_nil
  | cons q pairs ih =>
      have hq := hw q List.mem_cons_self
      rw [List.flatMap_cons, lexFrom_flag hq] at h
      obtain ⟨tokens, hlex, htokens⟩ :
          ∃ tokens, lexFrom .blank [] (q.key ++ ('=' :: quote q.value ++
            pairs.flatMap Pair.written)) = .ok tokens ∧
            q.flag :: tokens = read.flatMap Pair.tokens := by
        cases hrest : lexFrom .blank [] (q.key ++ ('=' :: quote q.value ++
            pairs.flatMap Pair.written)) with
        | error e =>
            rw [hrest] at h
            cases h
        | ok tokens =>
            rw [hrest] at h
            exact ⟨tokens, rfl, Except.ok.inj h⟩
      rcases read with - | ⟨q', read⟩
      · cases htokens
      have hsplit : q.flag :: tokens =
          q'.flag :: (q'.key ++ '=' :: q'.value) :: read.flatMap Pair.tokens := htokens
      rw [List.cons.injEq] at hsplit
      obtain ⟨hflag, rfl⟩ := hsplit
      have hbare' := hread q' List.mem_cons_self
      -- the key has no newline at its end: the token there would have no equals sign
      have hkey : keyClass q.key = true := by
        rcases keyRe_cases hq.key with hkey | ⟨w, hclass, hbroken⟩
        · exact hkey
        · exfalso
          rw [hbroken, List.append_assoc] at hlex
          obtain ⟨tokens', htokens'⟩ :=
            lexFrom_broken (ordinary_of_keyClass hclass) (ne_nil_of_keyClass hclass) hlex
          have hw : q'.key ++ '=' :: q'.value = w := (List.cons.inj htokens').1
          have hmem : '=' ∈ w := by
            rw [← hw]
            exact List.mem_append_right _ List.mem_cons_self
          exact hq.bare.2 (hbroken ▸ List.mem_append_left _ hmem)
      rw [List.cons_append, lexFrom_key hkey] at hlex
      obtain ⟨used, rem, out, tokens', htext, hreads, hout, hbehind⟩ :=
        lexFrom_ok (fun hb => by cases hb) hlex
      rw [List.cons.injEq, List.append_assoc] at hout
      obtain ⟨hpair, rfl⟩ := hout
      obtain ⟨hkeys, hvalues⟩ := cut_unique hbare' hq.bare.2 hpair
      have hvalue := hright q List.mem_cons_self q' List.mem_cons_self hflag.symm hkeys
      have hout : q.value = out := hvalue.symm.trans hvalues
      rw [← hout] at hreads
      have hrem : rem = [] ∨ ∃ c r, c ∈ lexSpace ∧ rem = c :: r := by
        rcases hbehind with ⟨hrem, -⟩ | ⟨c, r, hc, hrem, -⟩
        · exact .inl hrem
        · exact .inr ⟨c, r, hc, hrem⟩
      obtain ⟨rfl, rfl⟩ := hreads.whole htext (spaced_written pairs) hrem
      have hrest : lexFrom .blank [] (pairs.flatMap Pair.written) =
          .ok (read.flatMap Pair.tokens) := by
        have hword : lexFrom .word (q.key ++ ['=']) (quote q.value ++ pairs.flatMap Pair.written) =
            lexFrom .word (q.key ++ ['='] ++ q.value) (pairs.flatMap Pair.written) :=
          hreads.lexFrom (fun hb => by cases hb) _
        rw [hword] at hlex
        obtain ⟨tokens'', hcons, hrest⟩ := (lexFrom_word_spaced (spaced_written pairs) _).mp hlex
        rw [(List.cons.inj hcons).2]
        exact hrest
      intro p hp
      rcases List.mem_cons.mp hp with rfl | hp
      · exact ⟨hkey, hreads⟩
      · exact ih (fun q hq => hw q (List.mem_cons_of_mem _ hq))
          (fun q hq => hread q (List.mem_cons_of_mem _ hq))
          (fun q hq q' hq' => hright q (List.mem_cons_of_mem _ hq) q' (List.mem_cons_of_mem _ hq'))
          hrest p hp

/-! ### What the guard makes of it -/

/-- The tokenizer goes over a text from a state to a state, meets no metacharacter
outside quotes, and meets an escaped quote or none. -/
structure Scans (st : LexState) (cs : Text) (st' : LexState) (escaped : Bool) : Prop where
  ends : cs.foldl lexNext st = st'
  tame : ∀ c ∈ unquotedFrom st cs, c ∉ unquotedMeta
  escaped : escapedQuoteFrom st cs = escaped

namespace Scans

variable {st st' st'' : LexState} {cs cs' : Text} {e e' : Bool}

theorem nil (st : LexState) : Scans st [] st false where
  ends := rfl
  tame c hc := by
    rw [unquotedFrom] at hc
    cases hc
  escaped := by
    unfold escapedQuoteFrom
    rfl

/-- A character that is not the quote of an escape. -/
theorem cons {c : Char} (hout : st.outside = true → c ∉ unquotedMeta)
    (hescape : ∀ q, st = .escape (some q) → c ≠ q) (h : Scans (lexNext st c) cs st' e) :
    Scans st (c :: cs) st' e where
  ends := h.ends
  tame d hd := by
    rw [unquotedFrom] at hd
    split at hd
    · rename_i hst
      rcases List.mem_cons.mp hd with rfl | hd
      · exact hout hst
      · exact h.tame d hd
    · exact h.tame d hd
  escaped := by
    rw [← h.escaped]
    cases st with
    | blank => rfl
    | word => rfl
    | quote q => rfl
    | escape back =>
        cases back with
        | none => rfl
        | some q =>
            rw [escapedQuoteFrom, beq_false_of_ne (hescape q rfl), Bool.false_or]
            rfl

/-- A quote that is escaped. -/
theorem escape {q : Char} (h : Scans (.quote q) cs st' e) :
    Scans (.escape (some q)) (q :: cs) st' true where
  ends := h.ends
  tame d hd := h.tame d hd
  escaped := by rw [escapedQuoteFrom, beq_self_eq_true, Bool.true_or]

/-- The rest of the text, behind a character. -/
theorem rest {c : Char} (h : Scans st (c :: cs) st' e) :
    Scans (lexNext st c) cs st' (escapedQuoteFrom (lexNext st c) cs) where
  ends := h.ends
  tame d hd := by
    refine h.tame d ?_
    rw [unquotedFrom]
    split
    · exact List.mem_cons_of_mem c hd
    · exact hd
  escaped := rfl

/-- The first character. -/
theorem first {c : Char} (h : Scans st (c :: cs) st' e) (hst : st.outside = true) :
    c ∉ unquotedMeta := by
  refine h.tame c ?_
  rw [unquotedFrom, if_pos hst]
  exact List.mem_cons_self

/-- What is escaped behind a character that is not the quote of an escape. -/
theorem escaped_rest {c : Char} (h : Scans st (c :: cs) st' e)
    (hescape : ∀ q, st = .escape (some q) → c ≠ q) : escapedQuoteFrom (lexNext st c) cs = e := by
  rw [← h.escaped, (h.rest.cons (fun hst => h.first hst) hescape).escaped]

theorem append (h : Scans st cs st' e) (h' : Scans st' cs' st'' e') :
    Scans st (cs ++ cs') st'' (e || e') := by
  induction cs generalizing st e with
  | nil =>
      have hst : st = st' := h.ends
      have he : e = false := by
        rw [← h.escaped]
        unfold escapedQuoteFrom
        rfl
      rw [hst, he, Bool.false_or]
      exact h'
  | cons c cs ih =>
      by_cases hescape : ∃ q, st = .escape (some q) ∧ c = q
      · obtain ⟨q, rfl, rfl⟩ := hescape
        have he : e = true := by
          rw [← h.escaped, escapedQuoteFrom, beq_self_eq_true, Bool.true_or]
        rw [he, Bool.true_or]
        exact (ih h.rest).escape
      · have hne : ∀ q, st = .escape (some q) → c ≠ q := fun q hst hc => hescape ⟨q, hst, hc⟩
        rw [← h.escaped_rest hne]
        exact (ih h.rest).cons (fun hst => h.first hst) hne

/-- Ordinary characters, inside a token. -/
theorem ordinary {w : Text} (hw : ∀ c ∈ w, ScrapyCommand.ordinary c = true) :
    Scans .word w .word false := by
  induction w with
  | nil => exact .nil _
  | cons c cs ih =>
      have hc := hw c List.mem_cons_self
      refine .cons (fun _ => (ordinary_iff.mp hc).2.1) (fun q hq => by cases hq) ?_
      rw [lexNext_ordinary hc]
      exact ih fun d hd => hw d (List.mem_cons_of_mem c hd)

/-- A space, and a word of ordinary characters. -/
theorem spaceWord {w : Text} (hst : st = .blank ∨ st = .word)
    (hw : ∀ c ∈ w, ScrapyCommand.ordinary c = true) (hne : w ≠ []) :
    Scans st (' ' :: w) .word false := by
  have hnext : lexNext st ' ' = .blank := by
    rcases hst with rfl | rfl <;> rfl
  refine .cons (fun _ => by decide) (fun q hq => ?_) ?_
  · rcases hst with rfl | rfl <;> cases hq
  · rw [hnext]
    rcases w with - | ⟨c, cs⟩
    · exact absurd rfl hne
    have hc := hw c List.mem_cons_self
    have hfirst : lexNext .blank c = .word := by
      obtain ⟨hspace, -, -⟩ := ordinary_iff.mp hc
      have hnot := not_or.mp (not_isQuote_of_ordinary hc)
      simp [lexNext, hspace, hnot.1, hnot.2]
    refine .cons (fun _ => (ordinary_iff.mp hc).2.1) (fun q hq => by cases hq) ?_
    rw [hfirst]
    exact .ordinary fun d hd => hw d (List.mem_cons_of_mem c hd)

/-- **Inside quotes**, up to their end, a clean value has an escaped quote for each
double quote of it. -/
theorem escapeQuotes {v : Text} (h : clean v = true) :
    Scans (.quote doubleQuote) (ScrapyCommand.escapeQuotes v ++ [doubleQuote]) .word
      (decide (doubleQuote ∈ v)) := by
  induction v with
  | nil => exact .cons (fun hc => by cases hc) (fun q hq => by cases hq) (.nil _)
  | cons c cs ih =>
      obtain ⟨hslash, hcs⟩ := (Bool.and_eq_true _ _).mp h
      have hrest := ih hcs
      by_cases hd : c = doubleQuote
      · subst hd
        have hmem : decide (doubleQuote ∈ doubleQuote :: cs) = true :=
          decide_eq_true List.mem_cons_self
        rw [hmem]
        exact .cons (fun hc => by cases hc) (fun q hq => by cases hq) hrest.escape
      have hmem : decide (doubleQuote ∈ c :: cs) = decide (doubleQuote ∈ cs) := by
        simp [Ne.symm hd]
      rw [escapeQuotes_cons, escapeChar_ordinary hd, hmem]
      by_cases hb : c = backslash
      · -- behind the backslash the next character is kept, as it would be without
        subst hb
        have hstarts : startsOrdinary cs = true := by
          rw [show (backslash != backslash) = false by decide, Bool.false_or] at hslash
          exact hslash
        rcases cs with - | ⟨d, ds⟩
        · cases hstarts
        obtain ⟨hdb, hdd⟩ := (Bool.and_eq_true _ _).mp hstarts
        rw [bne_iff_ne] at hdb hdd
        rw [escapeQuotes_cons, escapeChar_ordinary hdd] at hrest ⊢
        have hinside : Scans (.quote doubleQuote)
            (d :: (ScrapyCommand.escapeQuotes ds ++ [doubleQuote])) .word
            (decide (doubleQuote ∈ d :: ds)) := hrest
        have hnext : lexNext (.quote doubleQuote) d = .quote doubleQuote := by
          simp [lexNext, hdb, hdd]
        have hbehind := hinside.rest
        rw [hinside.escaped_rest (fun q hq => by cases hq), hnext] at hbehind
        refine .cons (fun hc => by cases hc) (fun q hq => by cases hq) ?_
        refine .cons (fun hc => by cases hc) (fun q hq => ?_) hbehind
        cases hq
        exact hdd
      · refine .cons (fun hc => by cases hc) (fun q hq => by cases hq) ?_
        have hnext : lexNext (.quote doubleQuote) c = .quote doubleQuote := by
          simp [lexNext, hd, hb]
        rw [hnext]
        exact hrest

/-- A value that is read back. -/
theorem quote {v : Text} (h : Reads .word (ScrapyCommand.quote v) .word v) :
    Scans .word (ScrapyCommand.quote v) .word (decide (doubleQuote ∈ v)) := by
  cases hq : needsQuotes v with
  | true =>
      have hclean := (reads_quoted_iff hq).mp h
      rw [ScrapyCommand.quote, if_pos hq]
      exact .cons (fun _ => by decide) (fun q hq => by cases hq) (.escapeQuotes hclean)
  | false =>
      have hbare := (reads_bare_iff hq).mp h
      have hnone : decide (doubleQuote ∈ v) = false := by
        refine decide_eq_false fun hmem => ?_
        have hn := hbare _ hmem
        exact absurd hn (by decide)
      have hsame : ScrapyCommand.quote v = v := by
        rw [ScrapyCommand.quote, hq, if_neg Bool.false_ne_true]
      rw [hnone, hsame]
      exact .ordinary fun c hc => ordinary_of_bare hq hc (hbare c hc)

/-- The pairs of a command, each of them read back. -/
theorem pairs {pairs : List Pair} (hw : ∀ q ∈ pairs, q.Writable) (hread : ∀ q ∈ pairs, q.ReadBack) :
    Scans .word (pairs.flatMap Pair.written) .word
      (pairs.any fun q => decide (doubleQuote ∈ q.value)) := by
  induction pairs with
  | nil => exact .nil _
  | cons q pairs ih =>
      have hq := hw q List.mem_cons_self
      obtain ⟨hkey, hvalue⟩ := hread q List.mem_cons_self
      obtain ⟨hflag, hne⟩ := hq.ordinary_flag
      have hord : ∀ c ∈ q.key ++ ['='], ScrapyCommand.ordinary c = true := by
        intro c hc
        rcases List.mem_append.mp hc with hc | hc
        · exact ordinary_of_keyClass hkey c hc
        · rw [List.mem_singleton.mp hc]
          decide
      have hwritten : q.written =
          (' ' :: q.flag) ++ ((' ' :: (q.key ++ ['='])) ++ ScrapyCommand.quote q.value) := by
        unfold Pair.written
        simp
      have hrest := ih (fun q hq => hw q (List.mem_cons_of_mem _ hq))
        fun q hq => hread q (List.mem_cons_of_mem _ hq)
      rw [List.flatMap_cons, List.any_cons, hwritten]
      exact ((Scans.spaceWord (.inr rfl) hflag hne).append
        ((Scans.spaceWord (.inr rfl) hord (by simp)).append (.quote hvalue))).append hrest

end Scans

/-- A command, each of whose pairs is read back. -/
theorem scans_built {spider : Text} {pairs : List Pair} (hspider : spiderClass spider = true)
    (hw : ∀ q ∈ pairs, q.Writable) (hread : ∀ q ∈ pairs, q.ReadBack) :
    Scans .blank ("scrapy crawl ".toList ++ (spider ++ pairs.flatMap Pair.written)) .word
      (pairs.any fun q => decide (doubleQuote ∈ q.value)) := by
  have htame : (unquotedFrom .blank "scrapy crawl".toList).all
      (fun c => decide (c ∉ unquotedMeta)) = true := by decide
  have hstart : Scans .blank "scrapy crawl".toList .word false :=
    { ends := by decide
      tame := fun c hc => of_decide_eq_true (List.all_eq_true.mp htame c hc)
      escaped := by decide }
  have hne : spider ≠ [] := by
    rintro rfl
    cases hspider
  have hname := Scans.spaceWord (.inr rfl) (ordinary_of_spiderClass hspider) hne
  have hsplit : "scrapy crawl ".toList ++ (spider ++ pairs.flatMap Pair.written) =
      "scrapy crawl".toList ++ ((' ' :: spider) ++ pairs.flatMap Pair.written) := rfl
  rw [hsplit]
  exact hstart.append (hname.append (.pairs hw hread))

theorem tame_of_all {w : Text}
    (h : w.all (fun c => !isQuote c && decide (c ∉ unquotedMeta)) = true) :
    ∀ c ∈ w, isQuote c = false ∧ c ∉ unquotedMeta := by
  intro c hc
  obtain ⟨hquote, hmeta⟩ := Bool.and_eq_true_iff.mp (List.all_eq_true.mp h c hc)
  exact ⟨(Bool.not_eq_true' _).mp hquote, of_decide_eq_true hmeta⟩

/-- The guard goes past characters that mean nothing to it. -/
theorem rejectFrom_tame {w : Text} (hw : ∀ c ∈ w, isQuote c = false ∧ c ∉ unquotedMeta)
    (rest : Text) : rejectFrom none (w ++ rest) = rejectFrom none rest := by
  induction w with
  | nil => rfl
  | cons c cs ih =>
      obtain ⟨hquote, hmeta⟩ := hw c List.mem_cons_self
      rw [List.cons_append, rejectFrom, hquote, if_neg Bool.false_ne_true, if_neg hmeta]
      exact ih fun d hd => hw d (List.mem_cons_of_mem c hd)

/-- The guard goes past a quotation. -/
theorem rejectFrom_quotation {v : Text} {q : Char} (hq : q ∉ v) (rest : Text) :
    rejectFrom (some q) (v ++ q :: rest) = rejectFrom none rest := by
  induction v with
  | nil =>
      rw [List.nil_append, rejectFrom, if_pos rfl]
  | cons c cs ih =>
      have hc : c ≠ q := by
        rintro rfl
        exact hq List.mem_cons_self
      rw [List.cons_append, rejectFrom, if_neg hc]
      exact ih fun hmem => hq (List.mem_cons_of_mem c hmem)

theorem tame_of_ordinary {w : Text} (hw : ∀ c ∈ w, ordinary c = true) :
    ∀ c ∈ w, isQuote c = false ∧ c ∉ unquotedMeta := by
  intro c hc
  obtain ⟨-, hmeta, hquote⟩ := ordinary_iff.mp (hw c hc)
  exact ⟨hquote, hmeta⟩

/-! ### Plain values -/

/-- A value that comes back: no double quote, no two backslashes in a row, none at
the end, and a single quote only where something else asks for quotes. -/
structure Plain (v : Text) : Prop where
  unquoted : doubleQuote ∉ v
  single : ¬ [backslash, backslash] <:+: v
  last : v.getLast? ≠ some backslash
  covered : singleQuote ∈ v → needsQuotes v = true

/-- Without double quotes, what a backslash escapes is a backslash, or the end. -/
theorem clean_iff {v : Text} (hd : doubleQuote ∉ v) :
    clean v = true ↔ ¬ [backslash, backslash] <:+: v ∧ v.getLast? ≠ some backslash := by
  induction v with
  | nil =>
      rw [List.infix_nil]
      simp [clean]
  | cons c cs ih =>
      have hih := ih fun hmem => hd (List.mem_cons_of_mem c hmem)
      rw [clean, Bool.and_eq_true, hih, List.infix_cons_iff, not_or]
      rcases cs with - | ⟨d, ds⟩
      · simp [startsOrdinary]
      have hdd : d ≠ doubleQuote := by
        rintro rfl
        exact hd (List.mem_cons_of_mem c List.mem_cons_self)
      have hpair : [backslash, backslash] <+: c :: d :: ds ↔ c = backslash ∧ d = backslash := by
        simp [List.cons_prefix_cons, eq_comm]
      have hlast : (c :: d :: ds).getLast? = (d :: ds).getLast? := List.getLast?_cons_cons
      rw [hpair, hlast, Bool.or_eq_true, bne_iff_ne, startsOrdinary, Bool.and_eq_true, bne_iff_ne,
        bne_iff_ne]
      have hstep : c ≠ backslash ∨ d ≠ backslash ∧ d ≠ doubleQuote ↔
          ¬ (c = backslash ∧ d = backslash) := by
        rw [not_and_or]
        exact or_congr_right (and_iff_left hdd)
      rw [hstep, and_assoc]

theorem backslash_not_mem {v : Text} (h : needsQuotes v = false) : backslash ∉ v := by
  intro hmem
  have hord := ordinary_of_bare h hmem not_isQuote_backslash
  exact (ordinary_iff.mp hord).2.1 backslash_mem_unquotedMeta

/-- **A value is plain if the tokenizer reads it back and it has no double quote.** -/
theorem plain_iff (v : Text) : Plain v ↔ Reads .word (quote v) .word v ∧ doubleQuote ∉ v := by
  cases hq : needsQuotes v with
  | true =>
      rw [reads_quoted_iff hq]
      constructor
      · intro h
        exact ⟨(clean_iff h.unquoted).mpr ⟨h.single, h.last⟩, h.unquoted⟩
      · rintro ⟨hclean, hd⟩
        obtain ⟨hsingle, hlast⟩ := (clean_iff hd).mp hclean
        exact ⟨hd, hsingle, hlast, fun _ => hq⟩
  | false =>
      rw [reads_bare_iff hq]
      have hslash := backslash_not_mem hq
      constructor
      · intro h
        refine ⟨fun c hc => ?_, h.unquoted⟩
        rw [isQuote, Bool.or_eq_false_iff, beq_eq_false_iff_ne, beq_eq_false_iff_ne]
        constructor
        · rintro rfl
          have hcovered := h.covered hc
          rw [hq] at hcovered
          cases hcovered
        · rintro rfl
          exact h.unquoted hc
      · rintro ⟨hno, hd⟩
        refine ⟨hd, fun hpart => ?_, fun hlast => ?_, fun hmem => ?_⟩
        · exact hslash (hpart.subset List.mem_cons_self)
        · exact hslash (List.mem_of_mem_getLast? hlast)
        · exact absurd (hno _ hmem) (by decide)

/-- The guard goes past a plain value. -/
theorem rejectFrom_quote {v : Text} (h : Plain v) (rest : Text) :
    rejectFrom none (quote v ++ rest) = rejectFrom none rest := by
  obtain ⟨hreads, hd⟩ := (plain_iff v).mp h
  cases hq : needsQuotes v with
  | true =>
      have hsame : escapeQuotes v = v := by
        have hone : ∀ c ∈ v, escapeChar c = [c] := by
          intro c hc
          refine escapeChar_ordinary ?_
          rintro rfl
          exact hd hc
        rw [escapeQuotes, List.flatMap_congr hone, List.flatMap_singleton']
      have hsplit : doubleQuote :: (v ++ [doubleQuote]) ++ rest =
          doubleQuote :: (v ++ doubleQuote :: rest) := by simp
      rw [quote, if_pos hq, hsame, hsplit, rejectFrom, if_pos (by decide),
        rejectFrom_quotation hd]
  | false =>
      have hno := (reads_bare_iff hq).mp hreads
      rw [quote, hq, if_neg Bool.false_ne_true]
      exact rejectFrom_tame (tame_of_ordinary fun c hc => ordinary_of_bare hq hc (hno c hc)) rest

/-- The guard goes past pairs whose values are plain. -/
theorem rejectFrom_pairs {pairs : List Pair} (hw : ∀ q ∈ pairs, q.Writable)
    (hkeys : ∀ q ∈ pairs, keyClass q.key = true) (hplain : ∀ q ∈ pairs, Plain q.value) :
    rejectFrom none (pairs.flatMap Pair.written) = .ok () := by
  induction pairs with
  | nil => rfl
  | cons q pairs ih =>
      have hrest := ih (fun q hq => hw q (List.mem_cons_of_mem _ hq))
        (fun q hq => hkeys q (List.mem_cons_of_mem _ hq))
        fun q hq => hplain q (List.mem_cons_of_mem _ hq)
      obtain ⟨hflag, -⟩ := (hw q List.mem_cons_self).ordinary_flag
      have hkey := ordinary_of_keyClass (hkeys q List.mem_cons_self)
      have hsplit : (q :: pairs).flatMap Pair.written =
          [' '] ++ (q.flag ++ ([' '] ++ (q.key ++ (['='] ++
            (quote q.value ++ pairs.flatMap Pair.written))))) := by
        rw [List.flatMap_cons]
        unfold Pair.written
        simp
      rw [hsplit, rejectFrom_tame (tame_of_all (by decide)), rejectFrom_tame (tame_of_ordinary hflag),
        rejectFrom_tame (tame_of_all (by decide)), rejectFrom_tame (tame_of_ordinary hkey),
        rejectFrom_tame (tame_of_all (by decide)), rejectFrom_quote (hplain q List.mem_cons_self), hrest]

/-! ### The command parsed -/

/-- **The loop** takes pairs that it may take, one after the other. -/
theorem parsePairs_taken {pairs : List Pair} (h : ∀ q ∈ pairs, q.Taken) (p₀ : Parsed) :
    parsePairs (pairs.flatMap Pair.tokens) p₀ =
      .ok (pairs.foldl (fun p q => p.add q.flag q.key q.value) p₀) := by
  induction pairs generalizing p₀ with
  | nil => rfl
  | cons q pairs ih =>
      have hq := h q List.mem_cons_self
      have hflag : ¬ (q.flag ≠ "-a".toList ∧ q.flag ≠ "-s".toList) := by
        rintro ⟨ha, hs⟩
        exact hq.flag.elim ha hs
      have hmem : ¬ '=' ∉ q.key ++ '=' :: q.value :=
        not_not.mpr (List.mem_append_right _ List.mem_cons_self)
      have hcut : (q.key ++ '=' :: q.value).takeWhile (· ≠ '=') = q.key := takeWhile_pair hq.bare
      have hrest : ((q.key ++ '=' :: q.value).dropWhile (· ≠ '=')).drop 1 = q.value := by
        have hwhole := cut_pair (not_not.mp hmem)
        rw [hcut] at hwhole
        exact (List.cons.inj (List.append_cancel_left hwhole)).2.symm
      have hempty : ¬ (q.key.isEmpty || !keyRe q.key) = true := by
        have hne : q.key.isEmpty = false := by
          cases hkey : q.key with
          | nil =>
              have hmatch := hq.key
              rw [hkey] at hmatch
              cases hmatch
          | cons c cs => rfl
        rw [hne, hq.key]
        decide
      have hvalid : validateValue q.value = .ok () := by
        rw [validateValue, hq.value, if_neg Bool.false_ne_true]
      have htokens : (q :: pairs).flatMap Pair.tokens =
          q.flag :: (q.key ++ '=' :: q.value) :: pairs.flatMap Pair.tokens := rfl
      rw [htokens, parsePairs.eq_def]
      simp only [if_neg hflag, if_neg hmem]
      rw [hcut, if_neg hempty, hrest, hvalid, List.foldl_cons]
      exact ih (fun q hq => h q (List.mem_cons_of_mem _ hq)) _

/-- A command that starts with a letter is not blank. -/
theorem strip_ne_nil {c : Char} (cs : Text) (hc : Text.isSpace c = false) :
    (Text.strip (c :: cs)).isEmpty = false := by
  have hdrop : (c :: cs).dropWhile Text.isSpace = c :: cs :=
    List.dropWhile_cons_of_neg (by rw [hc]; exact Bool.false_ne_true)
  have hne : Text.strip (c :: cs) ≠ [] := by
    intro hnil
    rw [Text.strip, hdrop, List.rdropWhile_eq_nil_iff] at hnil
    have hspace := hnil c List.mem_cons_self
    rw [hc] at hspace
    cases hspace
  simpa using hne

/-- A spider is no flag. -/
theorem head_ne_of_spiderRe {t : Text} (h : spiderRe t = true) : t.head? ≠ some '-' := by
  obtain ⟨c, cs, ht, hc, -⟩ := matchesClass_cases h
  have hhead : t.head? = some c := by
    rcases ht with rfl | rfl <;> rfl
  rw [hhead]
  intro hdash
  rw [Option.some.inj hdash] at hc
  exact absurd hc (by decide)

/-- Tokens that the parser accepts. -/
theorem parseScrapyCommand_tokens {command spider : Text} {pairs : List Pair}
    (hstrip : (Text.strip command).isEmpty = false)
    (htokens : tokenize command =
      .ok ("scrapy".toList :: "crawl".toList :: spider :: pairs.flatMap Pair.tokens))
    (hspider : spiderRe spider = true) (htaken : ∀ q ∈ pairs, q.Taken) :
    parseScrapyCommand (some command) =
      .ok (pairs.foldl (fun p q => p.add q.flag q.key q.value) { spider := spider }) := by
  have hname : ¬ (spider.head? = some '-' ∨ spiderRe spider = false) := by
    rintro (hdash | hno)
    · exact head_ne_of_spiderRe hspider hdash
    · rw [hspider] at hno
      cases hno
  unfold parseScrapyCommand
  simp only [Option.getD_some, hstrip, if_neg Bool.false_ne_true, htokens]
  show (if "scrapy".toList ≠ "scrapy".toList ∨ "crawl".toList ≠ "crawl".toList then
      Except.error { reason := .notScrapyCrawl }
    else if spider.head? = some '-' ∨ spiderRe spider = false then
      .error { reason := .missingSpider, extra := [("spider", spider)] }
    else parsePairs (pairs.flatMap Pair.tokens) { spider := spider }) = _
  rw [if_neg (by simp), if_neg hname]
  exact parsePairs_taken htaken _

/-! ### The round trip -/

section RoundTrip

variable {spider : Text} {args settings : Table Text Text}

/-- The names that the grammar knows, and values without control characters. -/
structure Buildable (spider : Text) (args settings : Table Text Text) : Prop where
  spider : spiderRe spider = true
  keys : ∀ k v, args.get k = some v ∨ settings.get k = some v → keyRe k = true
  values : ∀ k v, args.get k = some v ∨ settings.get k = some v → v.any isControl = false

theorem Buildable.taken (h : Buildable spider args settings) :
    ∀ q ∈ pairsOf args settings, q.Taken := by
  intro q hq
  have hflag : q.flag = "-a".toList ∨ q.flag = "-s".toList :=
    (mem_pairsOf.mp hq).imp And.left And.left
  have hget : args.get q.key = some q.value ∨ settings.get q.key = some q.value :=
    (mem_pairsOf.mp hq).imp And.right And.right
  have hkey := h.keys q.key q.value hget
  exact ⟨hflag, hkey, bare_of_keyRe hkey, h.values q.key q.value hget⟩

/-- What is said of the entries is said of the pairs. -/
theorem forall_pairsOf {P : Text → Text → Prop} :
    (∀ q ∈ pairsOf args settings, P q.key q.value) ↔
      ∀ k v, args.get k = some v ∨ settings.get k = some v → P k v := by
  constructor
  · rintro h k v (hv | hv)
    · exact h ⟨"-a".toList, k, v⟩ (mem_pairsOf.mpr (.inl ⟨rfl, hv⟩))
    · exact h ⟨"-s".toList, k, v⟩ (mem_pairsOf.mpr (.inr ⟨rfl, hv⟩))
  · intro h q hq
    exact h q.key q.value ((mem_pairsOf.mp hq).imp And.right And.right)

/-- The tokens of a command, each of whose values is read back. -/
theorem shlexSplit_built {pairs : List Pair} (hspider : spiderClass spider = true)
    (hw : ∀ q ∈ pairs, q.Writable) (hread : ∀ q ∈ pairs, q.ReadBack) :
    shlexSplit ("scrapy crawl ".toList ++ (spider ++ pairs.flatMap Pair.written)) =
      .ok ("scrapy".toList :: "crawl".toList :: spider :: pairs.flatMap Pair.tokens) := by
  have hne : spider ≠ [] := by
    rintro rfl
    cases hspider
  have hname : lexFrom .blank [] (spider ++ pairs.flatMap Pair.written) =
      .ok (spider :: pairs.flatMap Pair.tokens) := by
    rw [lexFrom_ordinary (ordinary_of_spiderClass hspider) hne]
    exact (lexFrom_word_spaced (spaced_written pairs) _).mpr ⟨_, rfl, lexFrom_pairs hw hread⟩
  rw [shlexSplit, lexFrom_start, hname]
  rfl

/-- **A command of plain values is parsed to what it was built from.** -/
theorem returns_of_plain (h : Buildable spider args settings)
    (hspider : spiderClass spider = true)
    (hplain : ∀ q ∈ pairsOf args settings, keyClass q.key = true ∧ Plain q.value) :
    ∃ p, parseScrapyCommand (some (buildScrapyCommand spider args settings)) = .ok p ∧
      Returns p spider args settings := by
  have hw : ∀ q ∈ pairsOf args settings, q.Writable := fun q hq => (h.taken q hq).writable
  have hread : ∀ q ∈ pairsOf args settings, q.ReadBack :=
    fun q hq => ⟨(hplain q hq).1, ((plain_iff q.value).mp (hplain q hq).2).1⟩
  have hguard : rejectUnquotedMetacharacters ("scrapy crawl ".toList ++
      (spider ++ (pairsOf args settings).flatMap Pair.written)) = .ok () := by
    rw [rejectUnquotedMetacharacters, rejectFrom_tame (tame_of_all (by decide)),
      rejectFrom_tame (tame_of_ordinary (ordinary_of_spiderClass hspider)),
      rejectFrom_pairs hw (fun q hq => (hplain q hq).1) fun q hq => (hplain q hq).2]
  have hlex := shlexSplit_built hspider hw hread
  have htokens : tokenize ("scrapy crawl ".toList ++
      (spider ++ (pairsOf args settings).flatMap Pair.written)) =
      .ok ("scrapy".toList :: "crawl".toList :: spider ::
        (pairsOf args settings).flatMap Pair.tokens) := by
    unfold tokenize
    rw [hguard, hlex]
    rfl
  rw [buildScrapyCommand_eq]
  refine ⟨_, parseScrapyCommand_tokens (strip_ne_nil _ (by decide)) htokens h.spider h.taken,
    ?_, fun k => ?_, fun k => ?_⟩
  · rw [spider_foldl]
  · rw [get_args_foldl, lastWrite_args]
    exact Option.or_none
  · rw [get_settings_foldl _ h.taken, lastWrite_settings]
    exact Option.or_none

/-- The tokens of an accepted command that begins as it was built: the spider is
one of them, and the rest is that of the pairs. -/
theorem lexFrom_built {pairs read : List Pair} (hspider : spiderRe spider = true)
    (h : shlexSplit ("scrapy crawl ".toList ++ (spider ++ pairs.flatMap Pair.written)) =
      .ok ("scrapy".toList :: "crawl".toList :: spider :: read.flatMap Pair.tokens)) :
    spiderClass spider = true ∧
      lexFrom .blank [] (pairs.flatMap Pair.written) = .ok (read.flatMap Pair.tokens) := by
  have hlex : lexFrom .blank [] (spider ++ pairs.flatMap Pair.written) =
      .ok (spider :: read.flatMap Pair.tokens) := by
    rw [shlexSplit, lexFrom_start] at h
    cases hrest : lexFrom .blank [] (spider ++ pairs.flatMap Pair.written) with
    | error e =>
        rw [hrest] at h
        cases h
    | ok tokens =>
        rw [hrest] at h
        have hcons := Except.ok.inj h
        rw [(List.cons.inj (List.cons.inj hcons).2).2]
  rcases spiderRe_cases hspider with hclass | ⟨w, hclass, rfl⟩
  · have hne : spider ≠ [] := by
      rintro rfl
      cases hclass
    rw [lexFrom_ordinary (ordinary_of_spiderClass hclass) hne] at hlex
    obtain ⟨tokens, htokens, hrest⟩ := (lexFrom_word_spaced (spaced_written pairs) _).mp hlex
    rw [(List.cons.inj htokens).2]
    exact ⟨hclass, hrest⟩
  · -- the newline ends the token, which is not the spider
    exfalso
    have hne : w ≠ [] := by
      rintro rfl
      cases hclass
    rw [List.append_assoc] at hlex
    obtain ⟨tokens, htokens⟩ := lexFrom_broken (ordinary_of_spiderClass hclass) hne hlex
    have hlen := congrArg List.length (List.cons.inj htokens).1
    rw [List.length_append, List.length_singleton] at hlen
    omega

/-- **If the parser returns what the command was built from, each value was read
back where it was written.** -/
theorem readBack_of_returns {p : Parsed} (h : Buildable spider args settings)
    (hp : parseScrapyCommand (some (buildScrapyCommand spider args settings)) = .ok p)
    (hreturns : Returns p spider args settings) :
    spiderClass spider = true ∧ ∀ q ∈ pairsOf args settings, q.ReadBack := by
  have hw : ∀ q ∈ pairsOf args settings, q.Writable := fun q hq => (h.taken q hq).writable
  obtain ⟨spider', read, hlex, -, htaken, hfold⟩ := parseScrapyCommand_ok hp
  obtain ⟨hname, hargs, hsettings⟩ := hreturns
  rw [hfold, spider_foldl] at hname
  obtain rfl : spider' = spider := hname
  rw [buildScrapyCommand_eq] at hlex
  obtain ⟨hclass, hpairs⟩ := lexFrom_built h.spider hlex
  have hwread : ∀ q ∈ read, q.Writable := fun q hq => (htaken q hq).writable
  -- the parser has found every pair that was written
  have hfound : pairsOf args settings ⊆ read := by
    rintro ⟨flag, key, value⟩ hq
    rcases mem_pairsOf.mp hq with ⟨hflag, hget⟩ | ⟨hflag, hget⟩
    · simp only at hflag hget
      rw [← hargs key, hfold, get_args_foldl] at hget
      rw [hflag]
      exact mem_of_lastWrite (Option.or_none.symm.trans hget)
    · simp only at hflag hget
      rw [← hsettings key, hfold, get_settings_foldl read htaken] at hget
      rw [hflag]
      exact mem_of_lastWrite (Option.or_none.symm.trans hget)
  -- and there are no equals signs for others
  have hcount := count_tokens (x := '=') (by decide) (by decide)
    (fun q hq => (by rcases hq with hq | hq <;> cases hq)) (fun _ => rfl) hpairs
  rw [count_tokens_flatMap hwread, List.count_nil, Nat.zero_add, count_written_flatMap hw] at hcount
  have honly : read ⊆ pairsOf args settings :=
    subset_of_sum_le (nodup_pairsOf args settings) hfound (fun q => by rw [Pair.weight]; omega)
      (Nat.le_of_eq hcount)
  refine ⟨hclass, readBack_of_tokens hw (fun q hq => (htaken q hq).bare) ?_ hpairs⟩
  intro q hq q' hq' hflag hkey
  exact pairsOf_unique (honly hq') hq hflag hkey

/-- **The parser returns what a command was built from if and only if** neither
the spider nor a key ends with a newline and every value is plain. -/
theorem returns_iff (spider : Text) (args settings : Table Text Text)
    (h : Buildable spider args settings) :
    (∃ p, parseScrapyCommand (some (buildScrapyCommand spider args settings)) = .ok p ∧
      Returns p spider args settings) ↔
    spider.getLast? ≠ some '\n' ∧ ∀ k v, args.get k = some v ∨ settings.get k = some v →
      k.getLast? ≠ some '\n' ∧ Plain v := by
  constructor
  · rintro ⟨p, hp, hreturns⟩
    obtain ⟨hclass, hread⟩ := readBack_of_returns h hp hreturns
    refine ⟨(spiderClass_iff.mp hclass).2, forall_pairsOf.mp fun q hq => ?_⟩
    refine ⟨(keyClass_iff.mp (hread q hq).1).2, (plain_iff q.value).mpr ⟨(hread q hq).2, ?_⟩⟩
    -- the guard took no escaped quote for the end of a quotation
    have hscans := scans_built hclass (fun q hq => (h.taken q hq).writable) hread
    rw [← buildScrapyCommand_eq] at hscans
    have hnone := (metacharacters_quoted_iff _ p hp).mp hscans.tame
    have hany := hscans.escaped.symm.trans hnone
    have hq' := List.any_eq_false.mp hany q hq
    simpa using hq'
  · rintro ⟨hspider, hvalues⟩
    refine returns_of_plain h (spiderClass_iff.mpr ⟨h.spider, hspider⟩) fun q hq => ?_
    obtain ⟨hkey, hplain⟩ := forall_pairsOf.mpr hvalues q hq
    exact ⟨keyClass_iff.mpr ⟨(h.taken q hq).key, hkey⟩, hplain⟩

/-- One argument and nothing else. -/
def oneArgument (key value : Text) : Table Text Text := ⟨[(key, value)], by simp⟩

theorem get_oneArgument {key value k v : Text}
    (h : (oneArgument key value).get k = some v ∨ (Table.empty : Table Text Text).get k = some v) :
    k = key ∧ v = value := by
  rcases h with h | h
  · rw [← Table.mem_rows_iff] at h
    exact Prod.mk.inj (List.mem_singleton.mp h)
  · cases h

theorem buildable_oneArgument {spider key value : Text} (hspider : spiderRe spider = true)
    (hkey : keyRe key = true) (hvalue : value.any isControl = false) :
    Buildable spider (oneArgument key value) .empty where
  spider := hspider
  keys k v h := by
    rw [(get_oneArgument h).1]
    exact hkey
  values k v h := by
    rw [(get_oneArgument h).2]
    exact hvalue

/-- Blanks, an equals sign, a metacharacter and a backslash that escapes nothing. -/
def plainValue : Text := "a b=;".toList ++ singleQuote :: backslash :: ['n']

theorem returns_iff_plainValue :
    ∃ p, parseScrapyCommand (some (buildScrapyCommand ['s'] (oneArgument ['x'] plainValue)
      .empty)) = .ok p ∧ Returns p ['s'] (oneArgument ['x'] plainValue) .empty := by
  have h : Buildable ['s'] (oneArgument ['x'] plainValue) .empty :=
    buildable_oneArgument (by decide) (by decide) (by decide)
  refine (returns_iff ['s'] _ _ h).mpr ⟨by decide, fun k v hv => ?_⟩
  obtain ⟨rfl, rfl⟩ := get_oneArgument hv
  have hslashes : ¬ [backslash, backslash] <:+: plainValue := by decide
  exact ⟨by decide, ⟨by decide, hslashes, by decide, fun _ => by decide⟩⟩

/-- The value `a "b"`. -/
def quotedValue : Text := 'a' :: ' ' :: doubleQuote :: 'b' :: [doubleQuote]

/-- The guard does not know the escape that the builder writes. -/
theorem not_returns :
    ¬ ∀ spider args settings, Buildable spider args settings →
      ∃ p, parseScrapyCommand (some (buildScrapyCommand spider args settings)) = .ok p ∧
        Returns p spider args settings := by
  intro h
  obtain ⟨p, hp, -⟩ := h ['s'] (oneArgument ['x'] quotedValue) .empty
    (buildable_oneArgument (by decide) (by decide) (by decide))
  have herror : (parseScrapyCommand (some (buildScrapyCommand ['s']
      (oneArgument ['x'] quotedValue) .empty))).isOk = false := by decide +kernel
  rw [hp] at herror
  cases herror

end RoundTrip

end ScrapyCommand

end Dopilot
