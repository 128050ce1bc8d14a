/-
Dopilot/StatsRecords.lean

What is read of the stats that scrapy has written.

A record is the rest of the marker line and the dict as scrapy prints it: the items
`'key': value`, on one line or on several, between braces.  What it says is read
back if no line behind it has the marker (`reads_iff`): the last block is taken,
whoever has written it.

A record at the end of a log may be cut off.  Then a counter that lost digits is
read as a smaller one, and a block without a counter passes for a whole one if it
happens to end with a brace.
-/
import Dopilot.StatsItems

namespace Dopilot

namespace LogStats

open Occurrences

/-! ### Records -/

/-- What scrapy writes: the rest of the marker line, and the items. -/
structure StatsRecord where
  lineEnd : Bytes
  items : List Item
  lineEnd_plain : newline ∉ lineEnd ∧ ¬ marker <:+: lineEnd
  keys : (items.map Item.key).Nodup
  key_plain : ∀ e ∈ items, quote ∉ e.key ∧ newline ∉ e.key ∧ carriageReturn ∉ e.key ∧
    ¬ marker <:+: e.key
  value_plain : ∀ e ∈ items, newline ∉ e.value ∧ carriageReturn ∉ e.value ∧
    ¬ marker <:+: e.value ∧ ∀ key ∈ readKeys, ¬ keyText key <:+: e.value
  /-- The counter is a number. -/
  count : ∀ e ∈ items, e.key = errorCountKey →
    e.value ≠ [] ∧ e.value.length ≤ 4300 ∧ ∀ b ∈ e.value, isDigit b = true
  /-- The other two are strings, and nothing in them is escaped. -/
  strings : ∀ e ∈ items, e.key = finishReasonKey ∨ e.key = outcomeClassKey →
    ∃ s, e.value = quote :: s ++ [quote] ∧ s ≠ [] ∧ quote ∉ s ∧ backslash ∉ s

namespace StatsRecord

/-- The marker, and the rest of its line. -/
def head (r : StatsRecord) : Bytes := marker ++ r.lineEnd ++ [newline]

/-- The printed dict. -/
def text (r : StatsRecord) : Bytes := openBrace :: body (pieces r.items)

/-- What the first `n` bytes of the dict say. -/
def statsUpTo (r : StatsRecord) (n : Nat) : ScrapyStats where
  errorCount :=
    match valueUpTo errorCountKey (pieces r.items) (n - 1) with
    | some value => some (decimal value)
    | none => if r.text.length ≤ n then some 0 else none
  finishReason := (valueUpTo finishReasonKey (pieces r.items) (n - 1)).map fun value =>
    decode value.tail.dropLast
  outcomeClass := (valueUpTo outcomeClassKey (pieces r.items) (n - 1)).map fun value =>
    decodeClass value.tail.dropLast

/-- What the dict says. -/
def stats (r : StatsRecord) : ScrapyStats := r.statsUpTo r.text.length

/-- The counter is cut off behind its first digit. -/
def cutsCount (r : StatsRecord) (n : Nat) : Bool :=
  cutsValue errorCountKey (pieces r.items) (n - 1)

/-- The dict is cut off behind a brace of one of its items, and no counter is there. -/
def looksClosed (r : StatsRecord) (n : Nat) : Bool :=
  decide (n < r.text.length) && endsWithBrace (r.text.take n) &&
    (valueUpTo errorCountKey (pieces r.items) (n - 1)).isNone

end StatsRecord

/-! ### The block of a record -/

section Markers

variable {a b : Bytes} {rows : List (Bytes × Item)}

/-- The marker does not extend over a byte that it does not have. -/
theorem unmarked_append {d : UInt8} (hd : d ∉ marker) (ha : ¬ marker <:+: a)
    (hb : ¬ marker <:+: b) : ¬ marker <:+: a ++ d :: b := by
  rw [infix_append_of_stop hd (by decide), not_or]
  exact ⟨ha, hb⟩

theorem marker_eq : marker = 68 :: ascii "umping Scrapy stats" := by decide

/-- The marker does not begin where its first byte is not. -/
theorem marked_append (ha : 68 ∉ a) : marker <:+: a ++ b ↔ marker <:+: b := by
  rw [marker_eq]
  exact infix_append_of_head ha

/-- Items without the marker. -/
theorem unmarked_body (hlead : ∀ r ∈ rows, 68 ∉ r.1)
    (hitems : ∀ r ∈ rows, ¬ marker <:+: r.2.key ∧ ¬ marker <:+: r.2.value) (h : Printed rows) :
    ¬ marker <:+: body rows := by
  have hnil : ¬ marker <:+: [] := by
    rw [List.infix_nil]
    decide
  induction rows with
  | nil =>
      show ¬ marker <:+: [] ++ closeBrace :: []
      exact unmarked_append (by decide) hnil hnil
  | cons r rows ih =>
      obtain ⟨hkey, hvalue⟩ := hitems r List.mem_cons_self
      have hrest := ih (fun r' hr' => hlead r' (List.mem_cons_of_mem _ hr'))
        (fun r' hr' => hitems r' (List.mem_cons_of_mem _ hr')) h.tail
      have htext : body (r :: rows) = r.1 ++ ([] ++ quote :: (r.2.key ++ quote ::
          ([] ++ 58 :: ([32] ++ (r.2.value ++ body rows))))) := by
        rw [body_cons]
        unfold pieceText Item.text keyText
        simp [ascii, quote]
      obtain ⟨c, rest, hbody, hc⟩ := h.body_head
      have hcmarker : c ∉ marker := by
        rcases hc with rfl | rfl
        · decide
        · decide
      have hafter : ¬ marker <:+: r.2.value ++ body rows := by
        rw [hbody] at hrest ⊢
        refine unmarked_append hcmarker hvalue fun hin => hrest ?_
        exact List.infix_cons_iff.mpr (.inr hin)
      rw [htext, marked_append (hlead r List.mem_cons_self)]
      refine unmarked_append (by decide) hnil (unmarked_append (by decide) hkey ?_)
      refine unmarked_append (by decide) hnil ?_
      rw [marked_append (by decide)]
      exact hafter

end Markers

namespace StatsRecord

variable (r : StatsRecord)

theorem mem_pieces {items : List Item} {p : Bytes × Item} (hp : p ∈ pieces items) :
    p.2 ∈ items ∧ p.1 ∈ [[], ascii ", ", ascii ",\n "] := by
  cases items with
  | nil => cases hp
  | cons first rest =>
      rcases List.mem_cons.mp hp with rfl | hp
      · exact ⟨List.mem_cons_self, List.mem_cons_self⟩
      · obtain ⟨e, he, rfl⟩ := List.mem_map.mp hp
        refine ⟨List.mem_cons_of_mem _ he, List.mem_cons_of_mem _ ?_⟩
        cases e.newLine with
        | true => exact List.mem_cons_of_mem _ List.mem_cons_self
        | false => exact List.mem_cons_self

theorem pieces_keys (items : List Item) :
    (pieces items).map (fun p => p.2.key) = items.map Item.key := by
  cases items with
  | nil => rfl
  | cons first rest =>
      unfold pieces
      rw [List.map_cons, List.map_map, List.map_cons]
      rfl

theorem printed : Printed (pieces r.items) where
  lead p hp := (mem_pieces hp).2
  follow p hp := by
    cases hitems : r.items with
    | nil =>
        rw [hitems] at hp
        cases hp
    | cons first rest =>
        rw [hitems] at hp
        obtain ⟨e, -, rfl⟩ := List.mem_map.mp hp
        cases e.newLine with
        | true => exact (by decide : ascii ",\n " ≠ [])
        | false => exact (by decide : ascii ", " ≠ [])
  keys := by
    rw [pieces_keys]
    exact r.keys
  key p hp :=
    have h := r.key_plain p.2 (mem_pieces hp).1
    ⟨h.1, h.2.1, h.2.2.1⟩
  value p hp :=
    have h := r.value_plain p.2 (mem_pieces hp).1
    ⟨⟨h.1, h.2.1⟩, h.2.2.2⟩

/-- The marker is not in what is printed behind it. -/
theorem unmarked : ¬ marker <:+: r.text := by
  have hbody : ¬ marker <:+: body (pieces r.items) := by
    refine unmarked_body (fun p hp => ?_) (fun p hp => ?_) r.printed
    · have hleads : ∀ l ∈ [[], ascii ", ", ascii ",\n "], (68 : UInt8) ∉ l := by decide
      exact hleads p.1 (mem_pieces hp).2
    · exact ⟨(r.key_plain p.2 (mem_pieces hp).1).2.2.2,
        (r.value_plain p.2 (mem_pieces hp).1).2.2.1⟩
  show ¬ marker <:+: [] ++ openBrace :: body (pieces r.items)
  refine unmarked_append (by decide) ?_ hbody
  rw [List.infix_nil]
  decide

/-! ### Reading a record -/

/-- The last marker is that of the record if there is none behind it. -/
theorem parse_record (before : Bytes) {lineEnd x : Bytes} (hline : newline ∉ lineEnd)
    (hmark : ¬ marker <:+: lineEnd) (hx : ¬ marker <:+: x) :
    parseScrapyStats (before ++ (marker ++ lineEnd ++ [newline]) ++ x) =
      blockStats (dictBlock x).1 (dictBlock x).2 := by
  have hrest : ¬ marker <:+: lineEnd ++ newline :: x := unmarked_append (by decide) hmark hx
  have htail : before ++ (marker ++ lineEnd ++ [newline]) ++ x =
      before ++ (marker ++ (lineEnd ++ newline :: x)) := by
    simp
  have hlast : lastFrom marker (before ++ (marker ++ (lineEnd ++ newline :: x))) =
      some (marker ++ (lineEnd ++ newline :: x)) := by
    rw [lastFrom_append before (List.prefix_append _ _).isInfix]
    rw [marker_eq] at hrest ⊢
    exact lastFrom_self (by decide) hrest
  have hafter : afterLine (marker ++ (lineEnd ++ newline :: x)) = some x := by
    have hall : ∀ b ∈ marker ++ lineEnd, decide (b ≠ newline) = true := by
      intro b hb
      refine decide_eq_true ?_
      rintro rfl
      rcases List.mem_append.mp hb with h | h
      · exact absurd h (by decide)
      · exact hline h
    unfold afterLine
    rw [← List.append_assoc, List.dropWhile_append_of_pos hall,
      List.dropWhile_cons_of_neg (by simp)]
  have hne : before ++ (marker ++ (lineEnd ++ newline :: x)) ≠ [] :=
    List.append_ne_nil_of_right_ne_nil _ (by rw [marker_eq]; exact List.cons_ne_nil _ _)
  unfold parseScrapyStats lastStatsDict
  rw [htail, if_neg hne, hlast, Option.map_some, hafter]

theorem searchKey_brace {key : Bytes} {g : Bytes → Option Bytes} (t : Bytes) :
    searchKey key g (openBrace :: t) = searchKey key g t := by
  have hnone : (afterKey key (openBrace :: t)).bind g = none := by
    refine Decidable.byContradiction fun hsome => ?_
    obtain ⟨rest, hrest⟩ := afterKey_ne_none hsome
    have hhead : quote = openBrace := (List.cons.inj hrest).1
    exact absurd hhead (by decide)
  unfold searchKey
  rw [firstMatch, hnone, Option.none_or]

/-- The stats with the counter that was found. -/
def withCount (s : ScrapyStats) (closed : Bool) : Option Bytes → Option ScrapyStats
  | some found => (int found).map fun k => { s with errorCount := some k }
  | none => some { s with errorCount := if closed then some 0 else none }

theorem withCount_iff {s : ScrapyStats} {closed : Bool} :
    withCount s closed none = some s ↔ (if closed then some 0 else none) = s.errorCount := by
  unfold withCount
  cases s
  simp

theorem withCount_some_iff {s : ScrapyStats} {closed : Bool} {v : Bytes} (hv : v.length ≤ 4300) :
    withCount s closed (some v) = some s ↔ some (decimal v) = s.errorCount := by
  unfold withCount int
  cases s
  simp [hv]

/-- What is read of the items, up to where they are cut off. -/
theorem blockStats_body (n : Nat) (closed : Bool) :
    ∃ found, CountRead (pieces r.items) n found ∧
      blockStats (openBrace :: (body (pieces r.items)).take n) closed =
        withCount (r.statsUpTo (n + 1)) closed found := by
  have hcount : ∀ p ∈ pieces r.items, p.2.key = errorCountKey → IsNumber p.2.value :=
    fun p hp => r.count p.2 (mem_pieces hp).1
  have hstring : ∀ key, key = finishReasonKey ∨ key = outcomeClassKey →
      ∀ p ∈ pieces r.items, p.2.key = key → IsString p.2.value := by
    intro key hkey p hp hk
    obtain ⟨s, hs, hne, hquote, -⟩ := r.strings p.2 (mem_pieces hp).1 (by rwa [hk])
    exact ⟨s, hs, hne, hquote⟩
  have hreason := r.printed.string (by decide) (hstring finishReasonKey (.inl rfl)) n
  have hclass := r.printed.string (by decide) (hstring outcomeClassKey (.inr rfl)) n
  refine ⟨_, r.printed.count hcount n, ?_⟩
  rw [← searchKey_brace] at hreason hclass ⊢
  unfold blockStats
  rw [firstMatch_matchCount]
  have hmatch : ∀ key, firstMatch (matchQuoted key)
      (openBrace :: (body (pieces r.items)).take n) =
      searchKey key quoted (openBrace :: (body (pieces r.items)).take n) := fun _ => rfl
  rw [hmatch, hmatch, hreason, hclass]
  unfold statsUpTo
  rw [Nat.add_sub_cancel, Option.map_map, Option.map_map]
  rfl

/-- A value is cut off only before the end. -/
theorem cutsValue_length {key : Bytes} {rows : List (Bytes × Item)} {n : Nat}
    (h : cutsValue key rows n = true) : n < (body rows).length := by
  induction rows generalizing n with
  | nil => cases h
  | cons p rows ih =>
      rw [body_cons, List.length_append]
      rw [cutsValue] at h
      split at h
      · omega
      · have hrest := ih h
        omega

theorem upTo_zero (key : Bytes) (rows : List (Bytes × Item)) :
    valueUpTo key rows 0 = none ∧ cutsValue key rows 0 = false := by
  cases rows with
  | nil => exact ⟨rfl, rfl⟩
  | cons p rows =>
      have hlength := pieceText_length p
      have hshort : 0 < (pieceText p).length := by omega
      have hcuts : ¬ (pieceText p).length < 0 + p.2.value.length := by omega
      rw [valueUpTo, cutsValue, if_pos hshort, if_pos hshort, decide_eq_false hcuts, Bool.and_false]
      exact ⟨rfl, rfl⟩

/-- **The counter decides.**  What is read is right if no digit of it was lost, and
without it if the block passes for a whole one just in case it is one. -/
theorem withCount_eq_iff {n : Nat} {found : Option Bytes} {closed : Bool}
    (h : CountRead (pieces r.items) n found) :
    withCount (r.statsUpTo (n + 1)) closed found = some (r.statsUpTo (n + 1)) ↔
      cutsValue errorCountKey (pieces r.items) n = false ∧
        ((valueUpTo errorCountKey (pieces r.items) n).isSome = true ∨
          closed = decide (r.text.length ≤ n + 1)) := by
  have herror : (r.statsUpTo (n + 1)).errorCount =
      match valueUpTo errorCountKey (pieces r.items) n with
      | some value => some (decimal value)
      | none => if r.text.length ≤ n + 1 then some 0 else none := by
    unfold statsUpTo
    rw [Nat.add_sub_cancel]
  rcases h with ⟨v, hvalue, hcuts, rfl, hint⟩ | ⟨hvalue, hcase⟩
  · -- the counter is there
    rw [withCount_some_iff hint, herror, hcuts, hvalue]
    exact iff_of_true rfl ⟨rfl, .inl rfl⟩
  · rw [hvalue] at herror ⊢
    rcases hcase with ⟨hcuts, v, rfl, hint⟩ | ⟨hcuts, rfl⟩
    · -- it has lost digits
      have hlt := cutsValue_length hcuts
      have hlength : r.text.length = (body (pieces r.items)).length + 1 := rfl
      have hcut : ¬ r.text.length ≤ n + 1 := by omega
      dsimp only at herror
      rw [withCount_some_iff hint, herror, if_neg hcut, hcuts]
      refine iff_of_false (Option.some_ne_none _) fun hboth => ?_
      cases hboth.1
    · -- there is none
      dsimp only at herror
      rw [withCount_iff, herror, hcuts, Option.isSome_none, or_iff_right Bool.false_ne_true,
        and_iff_right rfl]
      by_cases hall : r.text.length ≤ n + 1
      · rw [if_pos hall, decide_eq_true hall]
        cases closed with
        | true => simp
        | false => simp
      · rw [if_neg hall, decide_eq_false hall]
        cases closed with
        | true => simp
        | false => simp

/-- **A record that is cut off.** -/
theorem parse_cut_iff (before : Bytes) (n : Nat) :
    parseScrapyStats (before ++ r.head ++ r.text.take n) = some (r.statsUpTo n) ↔
      r.cutsCount n = false ∧ r.looksClosed n = false := by
  cases n with
  | zero =>
      have hnil : ¬ marker <:+: [] := by
        rw [List.infix_nil]
        decide
      have hparse := parse_record before r.lineEnd_plain.1 r.lineEnd_plain.2 hnil
      have hstats : r.statsUpTo 0 = {} := by
        unfold statsUpTo
        rw [(upTo_zero _ _).1, (upTo_zero _ _).1, (upTo_zero _ _).1]
        rfl
      refine iff_of_true ?_ ⟨(upTo_zero _ _).2, ?_⟩
      · rw [hstats]
        exact hparse
      · unfold looksClosed
        rw [List.take_zero]
        simp [endsWithBrace]
  | succ n =>
      have hbrace : Unbroken [openBrace] := by
        unfold Unbroken
        decide
      obtain ⟨n', hblock, hsame⟩ := r.printed.block hbrace (by decide) n
      have htext : [openBrace] ++ (body (pieces r.items)).take n = r.text.take (n + 1) := rfl
      have hunmarked : ¬ marker <:+: r.text.take (n + 1) := fun hin =>
        r.unmarked (hin.trans (List.take_prefix _ _).isInfix)
      have hparse : parseScrapyStats (before ++ r.head ++ r.text.take (n + 1)) = _ :=
        parse_record before r.lineEnd_plain.1 r.lineEnd_plain.2 hunmarked
      obtain ⟨found, hcount, hstats⟩ := r.blockStats_body n' (endsWithBrace (r.text.take (n + 1)))
      -- nothing depends on the white space that the block lacks
      have hvalues : withCount (r.statsUpTo (n' + 1)) (endsWithBrace (r.text.take (n + 1))) found =
          withCount (r.statsUpTo (n + 1)) (endsWithBrace (r.text.take (n + 1))) found := by
        unfold withCount statsUpTo
        rw [Nat.add_sub_cancel, Nat.add_sub_cancel, (hsame finishReasonKey).1,
          (hsame outcomeClassKey).1]
      have hcount' : CountRead (pieces r.items) n found := by
        unfold CountRead at hcount ⊢
        rwa [(hsame errorCountKey).1, (hsame errorCountKey).2] at hcount
      rw [htext] at hblock
      rw [hparse, hblock, List.singleton_append, hstats, hvalues, r.withCount_eq_iff hcount']
      unfold cutsCount looksClosed
      rw [Nat.add_sub_cancel]
      refine and_congr_right fun _ => ?_
      by_cases hall : r.text.length ≤ n + 1
      · have hends : endsWithBrace (r.text.take (n + 1)) = true := by
          rw [List.take_of_length_le hall]
          exact endsWithBrace_body [openBrace] _
        rw [hends, decide_eq_true hall, decide_eq_false (not_lt.mpr hall)]
        simp
      · rw [decide_eq_false hall, decide_eq_true (not_le.mp hall)]
        cases valueUpTo errorCountKey (pieces r.items) n with
        | none => simp
        | some v => simp

/-- A whole record, and anything on the lines behind it. -/
theorem parse_whole (before : Bytes) {after : Bytes} (hafter : ¬ marker <:+: after) :
    parseScrapyStats (before ++ r.head ++ (r.text ++ newline :: after)) = some r.stats := by
  have hbrace : Unbroken [openBrace] := by
    unfold Unbroken
    decide
  have hunmarked : ¬ marker <:+: r.text ++ newline :: after :=
    unmarked_append (by decide) r.unmarked hafter
  have hblock : dictBlock (r.text ++ newline :: after) = (r.text, true) :=
    r.printed.block_whole hbrace (by decide) after
  have hparse : parseScrapyStats (before ++ r.head ++ (r.text ++ newline :: after)) = _ :=
    parse_record before r.lineEnd_plain.1 r.lineEnd_plain.2 hunmarked
  obtain ⟨found, hcount, hstats⟩ := r.blockStats_body (body (pieces r.items)).length true
  rw [List.take_length] at hstats
  rw [hparse, hblock]
  refine hstats.trans ((r.withCount_eq_iff hcount).mpr ⟨?_, .inr ?_⟩)
  · refine Bool.eq_false_iff.mpr fun hcuts => ?_
    exact lt_irrefl _ (cutsValue_length hcuts)
  · exact (decide_eq_true le_rfl).symm

/-- A record that ends within the line of the marker. -/
theorem parse_lineEnd (before : Bytes) (n : Nat) :
    parseScrapyStats (before ++ (marker ++ r.lineEnd.take n)) = some {} := by
  have hmark : ¬ marker <:+: r.lineEnd.take n := fun hin =>
    r.lineEnd_plain.2 (hin.trans (List.take_prefix _ _).isInfix)
  have hlast : lastFrom marker (before ++ (marker ++ r.lineEnd.take n)) =
      some (marker ++ r.lineEnd.take n) := by
    rw [lastFrom_append before (List.prefix_append _ _).isInfix]
    rw [marker_eq] at hmark ⊢
    exact lastFrom_self (by decide) hmark
  have hafter : afterLine (marker ++ r.lineEnd.take n) = none := by
    have hall : ∀ b ∈ marker ++ r.lineEnd.take n, decide (b ≠ newline) = true := by
      intro b hb
      refine decide_eq_true ?_
      rintro rfl
      rcases List.mem_append.mp hb with h | h
      · exact absurd h (by decide)
      · exact r.lineEnd_plain.1 (List.mem_of_mem_take h)
    unfold afterLine
    rw [List.dropWhile_eq_nil_iff.mpr hall]
  have hne : before ++ (marker ++ r.lineEnd.take n) ≠ [] :=
    List.append_ne_nil_of_right_ne_nil _ (by rw [marker_eq]; exact List.cons_ne_nil _ _)
  unfold parseScrapyStats lastStatsDict
  rw [if_neg hne, hlast, Option.map_some, hafter]
  rfl

end StatsRecord

/-- Only what follows the last marker is looked at. -/
theorem parse_append (before : Bytes) {after : Bytes} (h : marker <:+: after) :
    parseScrapyStats (before ++ after) = parseScrapyStats after := by
  have hne : after ≠ [] := h.ne_nil (by decide)
  unfold parseScrapyStats lastStatsDict
  rw [if_neg (List.append_ne_nil_of_right_ne_nil _ hne), if_neg hne, lastFrom_append before h]

/-! ### Two records -/

theorem strings_of_decidable {items : List Item}
    (h : ∀ e ∈ items, e.key = finishReasonKey ∨ e.key = outcomeClassKey →
      e.value = quote :: e.value.tail.dropLast ++ [quote] ∧ e.value.tail.dropLast ≠ [] ∧
        quote ∉ e.value.tail.dropLast ∧ backslash ∉ e.value.tail.dropLast) :
    ∀ e ∈ items, e.key = finishReasonKey ∨ e.key = outcomeClassKey →
      ∃ s, e.value = quote :: s ++ [quote] ∧ s ≠ [] ∧ quote ∉ s ∧ backslash ∉ s :=
  fun e he hk => ⟨_, h e he hk⟩

theorem count_of_decidable {items : List Item}
    (h : ∀ e ∈ items, e.key = errorCountKey →
      e.value ≠ [] ∧ e.value.length ≤ 4300 ∧ e.value.all isDigit = true) :
    ∀ e ∈ items, e.key = errorCountKey →
      e.value ≠ [] ∧ e.value.length ≤ 4300 ∧ ∀ b ∈ e.value, isDigit b = true := by
  intro e he hk
  obtain ⟨hne, hlength, hdigits⟩ := h e he hk
  exact ⟨hne, hlength, List.all_eq_true.mp hdigits⟩

/-- A run with 91 errors. -/
def erroneous : StatsRecord where
  lineEnd := ascii ":"
  items := [⟨finishReasonKey, ascii "'finished'", false⟩, ⟨ascii "item", ascii "'\x7ba\x7d'", true⟩,
    ⟨errorCountKey, ascii "91", true⟩]
  lineEnd_plain := by decide
  keys := by decide
  key_plain := by decide
  value_plain := by decide
  count := count_of_decidable (by decide)
  strings := strings_of_decidable (by decide)

/-- A run with none. -/
def clean : StatsRecord where
  lineEnd := ascii ":"
  items := [⟨finishReasonKey, ascii "'shutdown'", false⟩]
  lineEnd_plain := by decide
  keys := by decide
  key_plain := by decide
  value_plain := by decide
  count := count_of_decidable (by decide)
  strings := strings_of_decidable (by decide)

/-- A line of the spider with the marker, and one that looks like a dict. -/
def spiderLines : Bytes :=
  ascii "INFO: Dumping Scrapy stats\n\x7b'finish_reason': 'done'\x7d"

end LogStats

end Dopilot
