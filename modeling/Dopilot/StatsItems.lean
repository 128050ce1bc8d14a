/-
Dopilot/StatsItems.lean

The items of a printed dict, and how they are read.

An item is `'key': value`, and items stand on one line or on several.  A text that
begins with the first `n` bytes of them is searched for a key (`Printed.search`); the
value that is found is the one printed (`Printed.string`), but for a counter, of which
a part is read as well (`Printed.count`).  The block that the parser takes is what is
there of the items, up to white space at the end (`Printed.block`).
-/
import Dopilot.LogStats

namespace Dopilot

namespace LogStats

open Occurrences

/-! ### Items -/

/-- An item of the dict, as it is printed. -/
structure Item where
  key : Bytes
  value : Bytes
  /-- It begins a line. -/
  newLine : Bool
  deriving DecidableEq, Repr

/-- `'key': value`. -/
def Item.text (e : Item) : Bytes := keyText e.key ++ 32 :: e.value

/-- The items, with what stands before each of them. -/
def pieces : List Item → List (Bytes × Item)
  | [] => []
  | first :: rest =>
      ([], first) :: rest.map fun e => (ascii (if e.newLine then ",\n " else ", "), e)

/-- A piece of the printed dict. -/
def pieceText (r : Bytes × Item) : Bytes := r.1 ++ r.2.text

/-- The items after the brace that opens the dict. -/
def body (rows : List (Bytes × Item)) : Bytes := rows.flatMap pieceText ++ [closeBrace]

/-- The keys whose values are read. -/
def readKeys : List Bytes := [errorCountKey, finishReasonKey, outcomeClassKey]

/-- The value of a key, if it is printed within the first `n` bytes. -/
def valueUpTo (key : Bytes) : List (Bytes × Item) → Nat → Option Bytes
  | [], _ => none
  | r :: rows, n =>
      if n < (pieceText r).length then none
      else if r.2.key = key then some r.2.value
      else valueUpTo key rows (n - (pieceText r).length)

/-- The first `n` bytes end within the value of a key, behind its first byte. -/
def cutsValue (key : Bytes) : List (Bytes × Item) → Nat → Bool
  | [], _ => false
  | r :: rows, n =>
      if n < (pieceText r).length then
        r.2.key = key && decide ((pieceText r).length < n + r.2.value.length)
      else cutsValue key rows (n - (pieceText r).length)

/-! ### Keys -/

section Keys

variable {key k : Bytes}

theorem readKeys_plain : ∀ key ∈ readKeys, quote ∉ key ∧ 32 ∉ keyText key ∧ comma ∉ keyText key ∧
    closeBrace ∉ keyText key ∧ key ≠ [] ∧ key.head? ≠ some 58 := by decide

theorem keyText_eq (key : Bytes) : keyText key = quote :: (key ++ [quote, 58]) := rfl

/-- A key in quotes begins with another one only if they are the same. -/
theorem keyText_prefix_iff (hkey : quote ∉ key) (hk : quote ∉ k) :
    keyText key <+: keyText k ↔ key = k := by
  constructor
  · rintro ⟨rest, hrest⟩
    rw [keyText_eq, keyText_eq, List.cons_append, List.append_assoc] at hrest
    have hsame := congrArg (List.takeWhile (· ≠ quote)) (List.cons.inj hrest).2
    have htake : ∀ (a b : Bytes), quote ∉ a → (a ++ quote :: b).takeWhile (· ≠ quote) = a := by
      intro a b ha
      have hall : ∀ x ∈ a, decide (x ≠ quote) = true := by
        intro x hx
        refine decide_eq_true ?_
        rintro rfl
        exact ha hx
      rw [List.takeWhile_append_of_pos hall]
      simp
    exact (htake key _ hkey).symm.trans (hsame.trans (htake k _ hk))
  · rintro rfl
    exact List.prefix_rfl

/-- Nothing of a key in quotes stands where its quote does not. -/
theorem not_infix_of_head {t : Bytes} (h : ¬ keyText key <:+: t) {a : Bytes}
    (ha : quote ∉ a) : ¬ keyText key <:+: a ++ t := by
  rwa [keyText_eq, infix_append_of_head ha, ← keyText_eq]

/-- Another key in quotes, and what is printed with it. -/
theorem not_infix_pieceText (hkey : key ∈ readKeys) {r : Bytes × Item} (hlead : quote ∉ r.1)
    (hk : quote ∉ r.2.key) (hvalue : ¬ keyText key <:+: r.2.value) (hne : r.2.key ≠ key) :
    ¬ keyText key <:+: pieceText r := by
  obtain ⟨hquote, hspace, -, -, hnil, -⟩ := readKeys_plain key hkey
  have hkeyText : ¬ keyText key <:+: keyText r.2.key := by
    rw [keyText_eq r.2.key, List.infix_cons_iff, not_or, ← keyText_eq]
    refine ⟨fun h => hne ((keyText_prefix_iff hquote hk).mp h).symm, ?_⟩
    refine not_infix_of_head (fun h => ?_) hk
    have hlen := h.length_le
    rw [keyText_eq, List.length_cons, List.length_append] at hlen
    have hpos := List.length_pos_iff.mpr hnil
    simp only [List.length_cons, List.length_nil] at hlen
    omega
  refine not_infix_of_head ?_ hlead
  show ¬ keyText key <:+: keyText r.2.key ++ 32 :: r.2.value
  rw [infix_append_of_stop hspace (List.cons_ne_nil _ _), not_or]
  exact ⟨hkeyText, hvalue⟩

end Keys

/-! ### Searching the items -/

/-- Items as they are printed behind a brace. -/
structure Printed (rows : List (Bytes × Item)) : Prop where
  lead : ∀ r ∈ rows, r.1 ∈ [[], ascii ", ", ascii ",\n "]
  follow : ∀ r ∈ rows.tail, r.1 ≠ []
  keys : (rows.map fun r => r.2.key).Nodup
  key : ∀ r ∈ rows, quote ∉ r.2.key ∧ Unbroken r.2.key
  value : ∀ r ∈ rows, Unbroken r.2.value ∧ ∀ key ∈ readKeys, ¬ keyText key <:+: r.2.value

section Search

variable {key : Bytes} {r : Bytes × Item} {rows : List (Bytes × Item)}

theorem Printed.tail (h : Printed (r :: rows)) : Printed rows where
  lead r' hr' := h.lead r' (List.mem_cons_of_mem _ hr')
  follow r' hr' := h.follow r' (List.mem_of_mem_tail hr')
  keys := (List.nodup_cons.mp h.keys).2
  key r' hr' := h.key r' (List.mem_cons_of_mem _ hr')
  value r' hr' := h.value r' (List.mem_cons_of_mem _ hr')

/-- The other items have other keys. -/
theorem Printed.distinct (h : Printed (r :: rows)) : ∀ r' ∈ rows, r'.2.key ≠ r.2.key := by
  intro r' hr' heq
  exact (List.nodup_cons.mp h.keys).1 (List.mem_map.mpr ⟨r', hr', heq⟩)

theorem body_cons (r : Bytes × Item) (rows : List (Bytes × Item)) :
    body (r :: rows) = pieceText r ++ body rows := by
  unfold body
  rw [List.flatMap_cons, List.append_assoc]

/-- What stands behind a value. -/
theorem Printed.body_head (h : Printed (r :: rows)) :
    ∃ c rest, body rows = c :: rest ∧ (c = comma ∨ c = closeBrace) := by
  cases rows with
  | nil => exact ⟨closeBrace, [], rfl, .inr rfl⟩
  | cons r' rows =>
      have hlead := h.lead r' (List.mem_cons_of_mem _ List.mem_cons_self)
      have hne := h.follow r' List.mem_cons_self
      rw [body_cons]
      unfold pieceText
      rcases List.mem_cons.mp hlead with h₀ | hlead
      · exact absurd h₀ hne
      · rcases List.mem_cons.mp hlead with h₁ | hlead
        · rw [h₁]
          exact ⟨comma, _, rfl, .inl rfl⟩
        · rw [List.mem_singleton.mp hlead]
          exact ⟨comma, _, rfl, .inl rfl⟩

theorem Printed.quote_lead (h : Printed (r :: rows)) : quote ∉ r.1 := by
  have hleads : ∀ l ∈ [[], ascii ", ", ascii ",\n "], quote ∉ l := by decide
  exact hleads r.1 (h.lead r List.mem_cons_self)

theorem not_infix_of_stop (hkey : key ∈ readKeys) {c : UInt8} (hc : c = comma ∨ c = closeBrace) :
    c ∉ keyText key := by
  obtain ⟨-, -, hcomma, hbrace, -, -⟩ := readKeys_plain key hkey
  rcases hc with rfl | rfl
  · exact hcomma
  · exact hbrace

/-- An item with another key, and the items after it. -/
theorem Printed.piece (h : Printed (r :: rows)) (hkey : key ∈ readKeys) (hne : r.2.key ≠ key) :
    ¬ keyText key <:+: pieceText r :=
  not_infix_pieceText hkey h.quote_lead (h.key r List.mem_cons_self).1
    ((h.value r List.mem_cons_self).2 key hkey) hne

/-- A key that no item has. -/
theorem Printed.absent (h : Printed rows) (hkey : key ∈ readKeys)
    (hne : ∀ r ∈ rows, r.2.key ≠ key) : ¬ keyText key <:+: body rows := by
  induction rows with
  | nil =>
      intro hin
      have hlen := hin.length_le
      rw [keyText_eq, List.length_cons, List.length_append] at hlen
      simp only [body, List.flatMap_nil, List.nil_append, List.length_cons, List.length_nil] at hlen
      omega
  | cons r rows ih =>
      obtain ⟨c, rest, hbody, hc⟩ := h.body_head
      have hrest := ih h.tail fun r' hr' => hne r' (List.mem_cons_of_mem _ hr')
      rw [body_cons, hbody, infix_append_of_stop (not_infix_of_stop hkey hc) (List.cons_ne_nil _ _),
        not_or]
      refine ⟨h.piece hkey (hne r List.mem_cons_self), fun hin => hrest ?_⟩
      rw [hbody]
      exact List.infix_cons_iff.mpr (.inr hin)

/-- What the first `n` bytes have behind the key. -/
def foundUpTo (key : Bytes) : List (Bytes × Item) → Nat → Option Bytes
  | [], _ => none
  | r :: rows, n =>
      if r.2.key = key then
        if (r.1 ++ keyText key).length ≤ n then
          some ((32 :: r.2.value ++ body rows).take (n - (r.1 ++ keyText key).length))
        else none
      else foundUpTo key rows (n - (pieceText r).length)

/-- The search for a key, and something behind it. -/
def searchKey (key : Bytes) (g : Bytes → Option Bytes) (t : Bytes) : Option Bytes :=
  firstMatch (fun s => (afterKey key s).bind g) t

variable {g : Bytes → Option Bytes}

theorem afterKey_ne_none {s : Bytes} (h : (afterKey key s).bind g ≠ none) : keyText key <+: s := by
  unfold afterKey at h
  split at h
  · assumption
  · exact absurd rfl h

theorem search_of_not_infix {t : Bytes} (h : ¬ keyText key <:+: t) : searchKey key g t = none :=
  firstMatch_of_not_infix (fun _ hs => afterKey_ne_none hs) h

/-- At the key, once it has come. -/
theorem search_key (hkey : key ∈ readKeys) {a y : Bytes} (ha : quote ∉ a)
    (hy : ¬ keyText key <:+: y) :
    searchKey key g (a ++ (keyText key ++ y)) = g (y.dropWhile isSpace) := by
  obtain ⟨hquote, -, -, -, hnil, hcolon⟩ := readKeys_plain key hkey
  have hskip : searchKey key g (a ++ (keyText key ++ y)) = searchKey key g (keyText key ++ y) := by
    refine firstMatch_append fun s hs hne => Decidable.byContradiction fun hsome => ?_
    obtain ⟨rest, hrest⟩ := afterKey_ne_none hsome
    cases s with
    | nil => exact hne rfl
    | cons b s =>
        rw [keyText_eq, List.cons_append, List.cons_append] at hrest
        have hb : b = quote := (List.cons.inj hrest).1.symm
        exact ha (hs.subset (hb ▸ List.mem_cons_self))
  have hmatch : (afterKey key (keyText key ++ y)).bind g = g (y.dropWhile isSpace) := by
    unfold afterKey
    rw [if_pos (List.prefix_append _ _), List.drop_left]
    rfl
  have hlater : searchKey key g (key ++ ([quote, 58] ++ y)) = none := by
    refine search_of_not_infix (not_infix_of_head ?_ hquote)
    rw [List.cons_append, List.infix_cons_iff, not_or]
    refine ⟨?_, not_infix_of_head hy (by decide)⟩
    rintro ⟨rest, hrest⟩
    rw [keyText_eq, List.cons_append] at hrest
    have htail := (List.cons.inj hrest).2
    cases key with
    | nil => exact hnil rfl
    | cons b key => exact hcolon (congrArg some (List.cons.inj htail).1)
  have hcons : keyText key ++ y = quote :: (key ++ ([quote, 58] ++ y)) := by
    rw [keyText_eq, List.cons_append, List.append_assoc]
  rw [hskip, ← hmatch]
  unfold searchKey at hlater ⊢
  rw [hcons, firstMatch, hlater, Option.or_none]

theorem foundUpTo_zero (key : Bytes) (rows : List (Bytes × Item)) :
    foundUpTo key rows 0 = none := by
  induction rows with
  | nil => rfl
  | cons r rows ih =>
      rw [foundUpTo]
      split
      · rw [if_neg]
        rw [List.length_append, keyText_eq, List.length_cons]
        omega
      · rw [Nat.zero_sub]
        exact ih

/-- The item has the key. -/
theorem Printed.search_item (h : Printed (r :: rows)) (hkey : r.2.key ∈ readKeys) (n : Nat) :
    searchKey r.2.key g ((body (r :: rows)).take n) =
      (foundUpTo r.2.key (r :: rows) n).bind fun y => g (y.dropWhile isSpace) := by
  have htext : body (r :: rows) =
      r.1 ++ (keyText r.2.key ++ (32 :: r.2.value ++ body rows)) := by
    rw [body_cons]
    unfold pieceText Item.text
    rw [List.append_assoc, List.append_assoc]
  rw [htext, ← List.append_assoc, List.take_append, foundUpTo, if_pos rfl]
  by_cases hn : (r.1 ++ keyText r.2.key).length ≤ n
  · rw [if_pos hn, List.take_of_length_le hn, List.append_assoc]
    refine search_key hkey h.quote_lead fun hin => ?_
    obtain ⟨c, rest, hbody, hc⟩ := h.body_head
    have hwhole := hin.trans (List.take_prefix _ _).isInfix
    rw [hbody, infix_append_of_stop (not_infix_of_stop hkey hc) (List.cons_ne_nil _ _)] at hwhole
    rcases hwhole with hvalue | hrest
    · have hspace : quote ∉ ([32] : Bytes) := by decide
      exact not_infix_of_head ((h.value r List.mem_cons_self).2 _ hkey) hspace hvalue
    · refine h.tail.absent hkey h.distinct ?_
      rw [hbody]
      exact List.infix_cons_iff.mpr (.inr hrest)
  · have hnil : n - (r.1 ++ keyText r.2.key).length = 0 := by omega
    rw [if_neg hn, hnil, List.take_zero, List.append_nil, List.take_append]
    refine search_of_not_infix (not_infix_of_head (fun hin => ?_) fun hmem =>
      h.quote_lead (List.mem_of_mem_take hmem))
    have hlen := hin.length_le
    have hpos : 0 < (keyText r.2.key).length := Nat.succ_pos _
    rw [List.length_append] at hn
    rw [List.length_take] at hlen
    omega

/-- The item has another one. -/
theorem Printed.search_other (h : Printed (r :: rows)) (hkey : key ∈ readKeys) (hne : r.2.key ≠ key)
    (n : Nat) : searchKey key g ((body (r :: rows)).take n) =
      searchKey key g ((body rows).take (n - (pieceText r).length)) := by
  have hpiece := h.piece hkey hne
  have hhidden : ∀ s, s <:+ pieceText r → ¬ keyText key <+: s := fun s hs hbegins =>
    hpiece (hbegins.isInfix.trans hs.isInfix)
  rw [body_cons, List.take_append]
  by_cases hn : (pieceText r).length ≤ n
  · rw [List.take_of_length_le hn]
    refine firstMatch_append fun s hs hne => Decidable.byContradiction fun hsome => ?_
    have hbegins := afterKey_ne_none hsome
    obtain ⟨c, rest, hbody, hc⟩ := h.body_head
    rw [hbody] at hbegins
    cases hm : n - (pieceText r).length with
    | zero =>
        rw [hm, List.take_zero, List.append_nil] at hbegins
        exact hhidden s hs hbegins
    | succ m =>
        rw [hm, List.take_succ_cons, prefix_append_of_stop (not_infix_of_stop hkey hc)] at hbegins
        exact hhidden s hs hbegins
  · have hzero : n - (pieceText r).length = 0 := by omega
    rw [hzero, List.take_zero, List.append_nil, search_of_not_infix, search_of_not_infix]
    · rw [List.infix_nil]
      exact List.cons_ne_nil _ _
    · exact fun hin => hpiece (hin.trans (List.take_prefix _ _).isInfix)

/-- **The search in a dict that is cut off.** -/
theorem Printed.search (h : Printed rows) (hkey : key ∈ readKeys) (n : Nat) :
    searchKey key g ((body rows).take n) =
      (foundUpTo key rows n).bind fun y => g (y.dropWhile isSpace) := by
  induction rows generalizing n with
  | nil =>
      exact search_of_not_infix fun hin => h.absent hkey (fun _ hr => absurd hr List.not_mem_nil)
        (hin.trans (List.take_prefix _ _).isInfix)
  | cons r rows ih =>
      by_cases hk : r.2.key = key
      · subst hk
        exact h.search_item hkey n
      · rw [h.search_other hkey hk, foundUpTo, if_neg hk]
        exact ih h.tail _

end Search

/-! ### Reading a value -/

section Values

variable {key v rest : Bytes} {r : Bytes × Item} {rows : List (Bytes × Item)} {n m : Nat}

/-- The white space before a value. -/
theorem dropWhile_value {b : UInt8} (hb : isSpace b = false) (v : Bytes) (m : Nat) :
    ((32 :: b :: v).take m).dropWhile isSpace = (b :: v).take (m - 1) := by
  have hspace : isSpace 32 = true := by decide
  cases m with
  | zero => rfl
  | succ m =>
      rw [List.take_succ_cons, List.dropWhile_cons_of_pos hspace, Nat.add_sub_cancel]
      cases m with
      | zero => rfl
      | succ m =>
          rw [List.take_succ_cons, List.dropWhile_cons_of_neg (Bool.eq_false_iff.mp hb)]

theorem pieceText_length (r : Bytes × Item) :
    (pieceText r).length = (r.1 ++ keyText r.2.key).length + 1 + r.2.value.length := by
  unfold pieceText Item.text
  simp only [List.length_append, List.length_cons]
  omega

/-- What is found behind the key of the first item. -/
theorem foundUpTo_self (r : Bytes × Item) (rows : List (Bytes × Item)) (n : Nat) :
    foundUpTo r.2.key (r :: rows) n =
      if (r.1 ++ keyText r.2.key).length ≤ n then
        some ((32 :: r.2.value ++ body rows).take (n - (r.1 ++ keyText r.2.key).length))
      else none := if_pos rfl

theorem cutsValue_absent (h : ∀ r ∈ rows, r.2.key ≠ key) : cutsValue key rows n = false := by
  induction rows generalizing n with
  | nil => rfl
  | cons r rows ih =>
      rw [cutsValue]
      split
      · rw [decide_eq_false (h r List.mem_cons_self), Bool.false_and]
      · exact ih fun r' hr' => h r' (List.mem_cons_of_mem _ hr')

/-! ### The counter -/

/-- `(\d+)`. -/
def digits (rest : Bytes) : Option Bytes :=
  if rest.takeWhile isDigit = [] then none else some (rest.takeWhile isDigit)

theorem firstMatch_matchCount (t : Bytes) :
    firstMatch matchCount t = searchKey errorCountKey digits t := rfl

/-- Of digits, what is there is read. -/
theorem takeWhile_digits {c : UInt8} (hv : ∀ b ∈ v, isDigit b = true) (hc : isDigit c = false)
    (rest : Bytes) (m : Nat) : ((v ++ c :: rest).take m).takeWhile isDigit = v.take m := by
  rw [List.take_append, List.takeWhile_append_of_pos fun b hb => hv b (List.mem_of_mem_take hb)]
  cases m - v.length with
  | zero => rw [List.take_zero, List.takeWhile_nil, List.append_nil]
  | succ k =>
      rw [List.take_succ_cons, List.takeWhile_cons_of_neg (Bool.eq_false_iff.mp hc),
        List.append_nil]

theorem isDigit_not_space {b : UInt8} (h : isDigit b = true) : isSpace b = false := by
  unfold isDigit at h
  unfold isSpace
  rw [decide_eq_true_eq, UInt8.le_iff_toNat_le, UInt8.le_iff_toNat_le] at h
  rw [decide_eq_false_iff_not, UInt8.le_iff_toNat_le, UInt8.le_iff_toNat_le, ← UInt8.toNat_inj]
  simp only [UInt8.reduceToNat] at h ⊢
  omega

/-- A number as it is printed. -/
def IsNumber (v : Bytes) : Prop := v ≠ [] ∧ v.length ≤ 4300 ∧ ∀ b ∈ v, isDigit b = true

/-- What is read of the counter, and what is there of it. -/
def CountRead (rows : List (Bytes × Item)) (n : Nat) (found : Option Bytes) : Prop :=
  (∃ v, valueUpTo errorCountKey rows n = some v ∧ cutsValue errorCountKey rows n = false ∧
    found = some v ∧ v.length ≤ 4300) ∨
  valueUpTo errorCountKey rows n = none ∧
    ((cutsValue errorCountKey rows n = true ∧ ∃ v, found = some v ∧ v.length ≤ 4300) ∨
      cutsValue errorCountKey rows n = false ∧ found = none)

/-- What stands behind the key of the counter. -/
theorem Printed.digits_eq (h : Printed (r :: rows)) (hv : IsNumber r.2.value) (m : Nat) :
    digits (((32 :: r.2.value ++ body rows).take m).dropWhile isSpace) =
      if r.2.value.take (m - 1) = [] then none else some (r.2.value.take (m - 1)) := by
  obtain ⟨hne, -, hdigits⟩ := hv
  obtain ⟨c, rest, hbody, hc⟩ := h.body_head
  have hcdigit : isDigit c = false := by
    rcases hc with rfl | rfl
    · decide
    · decide
  obtain ⟨b, v, hcons⟩ := List.exists_cons_of_ne_nil hne
  have hb : isSpace b = false := isDigit_not_space (hdigits b (hcons ▸ List.mem_cons_self))
  have hdrop : ((32 :: r.2.value ++ body rows).take m).dropWhile isSpace =
      (r.2.value ++ c :: rest).take (m - 1) := by
    rw [hbody, hcons]
    exact dropWhile_value hb (v ++ c :: rest) m
  rw [hdrop]
  unfold digits
  rw [takeWhile_digits hdigits hcdigit]

theorem Printed.count_item (h : Printed (r :: rows)) (hk : r.2.key = errorCountKey)
    (hv : IsNumber r.2.value) (n : Nat) :
    CountRead (r :: rows) n (searchKey errorCountKey digits ((body (r :: rows)).take n)) := by
  have hlength := pieceText_length r
  have hpos : 0 < r.2.value.length := List.length_pos_iff.mpr hv.1
  have hread := h.digits_eq hv (n - (r.1 ++ keyText r.2.key).length)
  unfold CountRead
  rw [h.search (by decide), ← hk, foundUpTo_self, valueUpTo, cutsValue, if_pos rfl]
  by_cases hkey : (r.1 ++ keyText r.2.key).length ≤ n
  · rw [if_pos hkey, Option.bind_some, hread]
    by_cases hn : n < (pieceText r).length
    · rw [if_pos hn, if_pos hn, decide_eq_true rfl, Bool.true_and, decide_eq_true_eq,
        decide_eq_false_iff_not]
      refine .inr ⟨rfl, ?_⟩
      by_cases hcut : r.2.value.take (n - (r.1 ++ keyText r.2.key).length - 1) = []
      · rw [if_pos hcut]
        rw [List.take_eq_nil_iff] at hcut
        refine .inr ⟨?_, rfl⟩
        rcases hcut with hzero | hnil
        · omega
        · exact absurd hnil hv.1
      · rw [if_neg hcut]
        rw [List.take_eq_nil_iff, not_or] at hcut
        refine .inl ⟨?_, _, rfl, (List.length_take_le' _ _).trans hv.2.1⟩
        omega
    · have hall : r.2.value.take (n - (r.1 ++ keyText r.2.key).length - 1) = r.2.value :=
        List.take_of_length_le (by omega)
      rw [if_neg hn, if_neg hn, hall, if_neg hv.1]
      exact .inl ⟨r.2.value, rfl, cutsValue_absent h.distinct, rfl, hv.2.1⟩
  · have hn : n < (pieceText r).length := by omega
    rw [if_neg hkey, if_pos hn, if_pos hn, decide_eq_true rfl, Bool.true_and]
    refine .inr ⟨rfl, .inr ⟨decide_eq_false ?_, rfl⟩⟩
    omega

/-- **The counter.**  It is read if it is there, and a part of it if a part is. -/
theorem Printed.count (h : Printed rows)
    (hcount : ∀ r ∈ rows, r.2.key = errorCountKey → IsNumber r.2.value) (n : Nat) :
    CountRead rows n (searchKey errorCountKey digits ((body rows).take n)) := by
  induction rows generalizing n with
  | nil =>
      refine .inr ⟨rfl, .inr ⟨rfl, ?_⟩⟩
      rw [h.search (by decide)]
      rfl
  | cons r rows ih =>
      by_cases hk : r.2.key = errorCountKey
      · exact h.count_item hk (hcount r List.mem_cons_self hk) n
      · have hrest := ih h.tail (fun r' hr' => hcount r' (List.mem_cons_of_mem _ hr'))
          (n - (pieceText r).length)
        rw [h.search_other (by decide) hk]
        unfold CountRead at hrest ⊢
        rw [valueUpTo, cutsValue, if_neg hk]
        by_cases hn : n < (pieceText r).length
        · have hzero : n - (pieceText r).length = 0 := by omega
          rw [if_pos hn, if_pos hn, decide_eq_false hk, Bool.false_and, hzero,
            h.tail.search (by decide), foundUpTo_zero]
          exact .inr ⟨rfl, .inr ⟨rfl, rfl⟩⟩
        · rw [if_neg hn, if_neg hn]
          exact hrest

/-! ### The strings -/

/-- A string as it is printed. -/
def IsString (v : Bytes) : Prop := ∃ s, v = quote :: s ++ [quote] ∧ s ≠ [] ∧ quote ∉ s

/-- Of a string, what is read is all of it. -/
theorem quoted_take {s : Bytes} (hne : s ≠ []) (hs : quote ∉ s) (rest : Bytes) (m : Nat) :
    quoted ((quote :: (s ++ quote :: rest)).take m) =
      if s.length + 2 ≤ m then some s else none := by
  have hall : ∀ b ∈ s, decide (b ≠ quote) = true := by
    intro b hb
    refine decide_eq_true ?_
    rintro rfl
    exact hs hb
  cases m with
  | zero => rw [List.take_zero, if_neg (by omega)]; rfl
  | succ m =>
      rw [List.take_succ_cons, quoted]
      by_cases hm : s.length + 1 ≤ m
      · obtain ⟨k, rfl⟩ := Nat.exists_eq_add_of_le hm
        have htake : (s ++ quote :: rest).take (s.length + 1 + k) = s ++ quote :: rest.take k := by
          rw [Nat.add_assoc, List.take_append, List.take_of_length_le (by omega),
            Nat.add_sub_cancel_left, Nat.add_comm 1 k, List.take_succ_cons]
        have hvalue : (s ++ quote :: rest.take k).takeWhile (fun b => decide (b ≠ quote)) = s := by
          rw [List.takeWhile_append_of_pos hall]
          simp
        rw [htake, hvalue, if_pos, if_pos (by omega)]
        refine ⟨rfl, hne, ?_⟩
        rw [List.length_append, List.length_cons]
        omega
      · have htake : (s ++ quote :: rest).take m = s.take m :=
          List.take_append_of_le_length (by omega)
        have hvalue : (s.take m).takeWhile (fun b => decide (b ≠ quote)) = s.take m :=
          List.takeWhile_eq_self_iff.mpr fun b hb => hall b (List.mem_of_mem_take hb)
        rw [htake, hvalue, if_neg, if_neg (by omega)]
        rintro ⟨-, -, hlt⟩
        exact lt_irrefl _ hlt

theorem Printed.string_item (h : Printed (r :: rows)) (hkey : r.2.key ∈ readKeys)
    (hv : IsString r.2.value) (n : Nat) :
    searchKey r.2.key quoted ((body (r :: rows)).take n) =
      (valueUpTo r.2.key (r :: rows) n).map fun v => v.tail.dropLast := by
  obtain ⟨s, hs, hne, hquote⟩ := hv
  have hlength := pieceText_length r
  have hvalue : r.2.value.length = s.length + 2 := by
    rw [hs, List.length_append, List.length_cons]
    rfl
  have hinner : r.2.value.tail.dropLast = s := by
    rw [hs]
    exact List.dropLast_concat
  have hspace : isSpace quote = false := by decide
  have hread : ∀ m, quoted (((32 :: r.2.value ++ body rows).take m).dropWhile isSpace) =
      if s.length + 2 ≤ m - 1 then some s else none := by
    intro m
    have htext : 32 :: r.2.value ++ body rows = 32 :: quote :: (s ++ quote :: body rows) := by
      rw [hs]
      simp
    rw [htext, dropWhile_value hspace, quoted_take hne hquote]
  rw [h.search hkey, foundUpTo_self, valueUpTo, if_pos rfl]
  by_cases hkeyText : (r.1 ++ keyText r.2.key).length ≤ n
  · rw [if_pos hkeyText, Option.bind_some, hread]
    by_cases hn : n < (pieceText r).length
    · rw [if_pos hn, if_neg (by omega)]
      rfl
    · rw [if_neg hn, if_pos (by omega), Option.map_some, hinner]
  · rw [if_neg hkeyText, if_pos (by omega)]
    rfl

/-- **A string.**  It is read if all of it is there. -/
theorem Printed.string (h : Printed rows) (hkey : key ∈ readKeys)
    (hstring : ∀ r ∈ rows, r.2.key = key → IsString r.2.value) (n : Nat) :
    searchKey key quoted ((body rows).take n) =
      (valueUpTo key rows n).map fun v => v.tail.dropLast := by
  induction rows generalizing n with
  | nil =>
      rw [h.search hkey]
      rfl
  | cons r rows ih =>
      by_cases hk : r.2.key = key
      · subst hk
        exact h.string_item hkey (hstring r List.mem_cons_self rfl) n
      · have hrest := ih h.tail (fun r' hr' => hstring r' (List.mem_cons_of_mem _ hr'))
          (n - (pieceText r).length)
        rw [h.search_other hkey hk, hrest, valueUpTo, if_neg hk]
        by_cases hn : n < (pieceText r).length
        · have hzero : n - (pieceText r).length = 0 := by omega
          rw [if_pos hn, hzero, Option.map_none, Option.map_eq_none_iff]
          cases rows with
          | nil => rfl
          | cons r' rows =>
              rw [valueUpTo, if_pos]
              rw [pieceText_length]
              omega
        · rw [if_neg hn]

end Values

/-! ### The lines of the items -/

section Lines

variable {cur after : Bytes} {r : Bytes × Item} {rows : List (Bytes × Item)} {n n' : Nat}

/-- What stands before the first item of a line. -/
def lineLead : Bytes := [comma, newline, 32]

theorem Printed.lead_cases (h : Printed (r :: rows)) : Unbroken r.1 ∨ r.1 = lineLead := by
  have hleads : ∀ l ∈ [[], ascii ", ", ascii ",\n "],
      (newline ∉ l ∧ carriageReturn ∉ l) ∨ l = lineLead := by decide
  exact hleads r.1 (h.lead r List.mem_cons_self)

theorem Printed.unbroken (h : Printed (r :: rows)) : Unbroken r.2.text := by
  have hkey : Unbroken (keyText r.2.key) := by
    have hends : Unbroken [quote, 58] ∧ Unbroken [quote] := by
      unfold Unbroken
      decide
    exact hends.2.append ((h.key r List.mem_cons_self).2.append hends.1)
  have hspace : Unbroken [32] := by
    unfold Unbroken
    decide
  exact hkey.append (hspace.append (h.value r List.mem_cons_self).1)

/-- An item begins a dict line. -/
theorem isDictLine_item (e : Item) (n : Nat) : isDictLine (32 :: e.text.take (n + 1)) = true := by
  have hquote : isDictLine [32, quote] = true := by decide
  show isDictLine ([32, quote] ++ (e.key ++ ascii "':" ++ 32 :: e.value).take n) = true
  exact isDictLine_append hquote

theorem endsWithBrace_item (a b : Bytes) (e : Item) (n : Nat) :
    endsWithBrace (a ++ (32 :: e.text.take (n + 1) ++ b)) =
      endsWithBrace (32 :: e.text.take (n + 1) ++ b) := by
  refine endsWithBrace_append ⟨quote, ?_, by decide⟩
  exact List.mem_append_left b (List.mem_cons_of_mem _ List.mem_cons_self)

theorem endsWithBrace_comma (a : Bytes) : endsWithBrace (a ++ [comma]) = false :=
  (endsWithBrace_concat (by decide)).trans (decide_eq_false (by decide))

/-- The end of a dict closes it. -/
theorem endsWithBrace_body (a : Bytes) (rows : List (Bytes × Item)) :
    endsWithBrace (a ++ body rows) = true := by
  unfold body
  rw [← List.append_assoc]
  exact (endsWithBrace_concat (by decide)).trans (decide_eq_true rfl)

/-- For what they hold of the values, the first `n` bytes are as good as the first
`n'`. -/
def SameValues (rows : List (Bytes × Item)) (n n' : Nat) : Prop :=
  ∀ key, valueUpTo key rows n' = valueUpTo key rows n ∧ cutsValue key rows n' = cutsValue key rows n

/-- The rest of the items is to be looked at. -/
theorem SameValues.cons (h : SameValues rows (n - (pieceText r).length) n')
    (hn : (pieceText r).length ≤ n) : SameValues (r :: rows) n ((pieceText r).length + n') := by
  intro key
  obtain ⟨hvalue, hcuts⟩ := h key
  have hlong : ¬ n < (pieceText r).length := by omega
  have hlong' : ¬ (pieceText r).length + n' < (pieceText r).length := by omega
  constructor
  · rw [valueUpTo, if_neg hlong', valueUpTo, if_neg hlong, Nat.add_sub_cancel_left, hvalue]
  · rw [cutsValue, if_neg hlong', cutsValue, if_neg hlong, Nat.add_sub_cancel_left, hcuts]

/-- Nothing of the value of the first item is there. -/
theorem SameValues.lead (hn : n ≤ r.1.length) (hn' : n' ≤ r.1.length) :
    SameValues (r :: rows) n n' := by
  intro key
  have hlength := pieceText_length r
  rw [List.length_append] at hlength
  have hshort : ∀ m ≤ r.1.length, m < (pieceText r).length ∧
      ¬ (pieceText r).length < m + r.2.value.length := fun m hm => by omega
  constructor
  · rw [valueUpTo, if_pos (hshort n' hn').1, valueUpTo, if_pos (hshort n hn).1]
  · rw [cutsValue, if_pos (hshort n' hn').1, cutsValue, if_pos (hshort n hn).1,
      decide_eq_false (hshort n' hn').2, decide_eq_false (hshort n hn).2]

theorem unbroken_comma (hcur : Unbroken cur) : Unbroken (cur ++ [comma]) := by
  have hcomma : Unbroken [comma] := by
    unfold Unbroken
    decide
  exact hcur.append hcomma

/-- An item that is cut off, on the same line. -/
theorem Printed.block_same (h : Printed (r :: rows)) (hcur : Unbroken cur)
    (hline : isDictLine cur = true) (hlead : Unbroken r.1) (n : Nat) :
    dictBlock (cur ++ (pieceText r).take n) =
      (cur ++ (pieceText r).take n, endsWithBrace (cur ++ (pieceText r).take n)) := by
  have hpiece : Unbroken ((pieceText r).take n) :=
    (hlead.append h.unbroken).subset fun _ hx => List.mem_of_mem_take hx
  exact dictBlock_last (hcur.append hpiece) (isDictLine_append hline)

/-- An item that is cut off, on the next line. -/
theorem Printed.block_next (h : Printed (r :: rows)) (hcur : Unbroken cur)
    (hline : isDictLine cur = true) (n : Nat) :
    ∃ n', dictBlock (cur ++ (lineLead ++ r.2.text).take n) =
        (cur ++ (lineLead ++ r.2.text).take n',
          endsWithBrace (cur ++ (lineLead ++ r.2.text).take n)) ∧
      (n' = n ∨ n ≤ 3 ∧ n' ≤ 3) := by
  have hcomma := unbroken_comma hcur
  have hdict : isDictLine (cur ++ [comma]) = true := isDictLine_append hline
  have hopen := endsWithBrace_comma cur
  have hstop : ∀ b : Bytes, dictLines (splitLines b) = ([], false) →
      (∀ x ∈ b, isSpace x = true) → dictBlock (cur ++ [comma] ++ newline :: b) =
        (cur ++ [comma], endsWithBrace (cur ++ [comma] ++ newline :: b)) := by
    intro b hb hspaces
    have hends : endsWithBrace (cur ++ [comma] ++ newline :: b) = false := by
      rw [endsWithBrace_spaces, hopen]
      intro x hx
      rcases List.mem_cons.mp hx with rfl | hx
      · decide
      · exact hspaces x hx
    rw [hends]
    exact dictBlock_stop hcomma hdict hopen hb
  have hshort : n = 0 ∨ n = 1 ∨ n = 2 ∨ n = 3 ∨ ∃ k, n = k + 4 := by
    rcases Nat.lt_or_ge n 4 with hlt | hge
    · omega
    · exact .inr (.inr (.inr (.inr ⟨n - 4, by omega⟩)))
  rcases hshort with rfl | rfl | rfl | rfl | ⟨k, rfl⟩
  · refine ⟨0, ?_, .inl rfl⟩
    rw [List.take_zero, List.append_nil]
    exact dictBlock_last hcur hline
  · exact ⟨1, dictBlock_last hcomma hdict, .inl rfl⟩
  · refine ⟨1, ?_, .inr ⟨by decide, by decide⟩⟩
    have hline := hstop [] rfl (fun _ hx => absurd hx List.not_mem_nil)
    rw [List.append_assoc] at hline
    exact hline
  · refine ⟨1, ?_, .inr ⟨by decide, by decide⟩⟩
    have hline := hstop [32] (by decide) (List.forall_mem_singleton.mpr (by decide))
    rw [List.append_assoc] at hline
    exact hline
  · refine ⟨k + 4, ?_, .inl rfl⟩
    have hitem : Unbroken (32 :: r.2.text.take (k + 1)) := by
      have hspace : Unbroken [32] := by
        unfold Unbroken
        decide
      have htake : r.2.text.take (k + 1) ⊆ r.2.text := List.take_subset _ _
      exact hspace.append (h.unbroken.subset htake)
    have hlast := dictBlock_last hitem (isDictLine_item r.2 k)
    have hne : (dictBlock (32 :: r.2.text.take (k + 1))).1 ≠ [] := by
      rw [hlast]
      exact List.cons_ne_nil _ _
    have hblock := dictBlock_line hcomma hdict hopen hne
    have htext : cur ++ (lineLead ++ r.2.text).take (k + 4) =
        cur ++ [comma] ++ newline :: 32 :: r.2.text.take (k + 1) := by
      rw [List.append_assoc]
      rfl
    have hends : endsWithBrace (cur ++ [comma] ++ newline :: 32 :: r.2.text.take (k + 1)) =
        endsWithBrace (32 :: r.2.text.take (k + 1)) := by
      have hitem := endsWithBrace_item (cur ++ [comma] ++ [newline]) [] r.2 k
      rw [List.append_nil, List.append_assoc _ [newline]] at hitem
      exact hitem
    rw [htext, hblock, hlast, hends]

/-- An item that is cut off. -/
theorem Printed.block_item (h : Printed (r :: rows)) (hcur : Unbroken cur)
    (hline : isDictLine cur = true) (hn : n < (pieceText r).length) :
    ∃ n', dictBlock (cur ++ (body (r :: rows)).take n) = (cur ++ (body (r :: rows)).take n',
        endsWithBrace (cur ++ (body (r :: rows)).take n)) ∧
      SameValues (r :: rows) n n' := by
  have htake : ∀ m ≤ (pieceText r).length, (body (r :: rows)).take m = (pieceText r).take m := by
    intro m hm
    rw [body_cons, List.take_append_of_le_length hm]
  rw [htake n hn.le]
  rcases h.lead_cases with hlead | hlead
  · refine ⟨n, ?_, fun _ => ⟨rfl, rfl⟩⟩
    rw [htake n hn.le]
    exact h.block_same hcur hline hlead n
  · have htext : pieceText r = lineLead ++ r.2.text := by
      unfold pieceText
      rw [hlead]
    obtain ⟨n', hblock, hn'⟩ := h.block_next hcur hline n
    rw [← htext] at hblock
    rcases hn' with rfl | ⟨hn₃, hn'₃⟩
    · exact ⟨n', by rw [htake n' hn.le]; exact hblock, fun _ => ⟨rfl, rfl⟩⟩
    · have hlong : r.1.length = 3 := by
        rw [hlead]
        rfl
      refine ⟨n', ?_, .lead (by omega) (by omega)⟩
      rw [htake n']
      · exact hblock
      · have hlength := pieceText_length r
        rw [List.length_append] at hlength
        omega

/-- The line that is begun, after an item. -/
theorem Printed.line (h : Printed (r :: rows)) (hcur : Unbroken cur)
    (hline : isDictLine cur = true) :
    ∃ cur', Unbroken cur' ∧ isDictLine cur' = true ∧
      (∀ t b closed, dictBlock (cur' ++ t) = (cur' ++ b, closed) →
        dictBlock (cur ++ (pieceText r ++ t)) = (cur ++ (pieceText r ++ b), closed)) ∧
      ∀ t, endsWithBrace (cur ++ (pieceText r ++ t)) = endsWithBrace (cur' ++ t) := by
  rcases h.lead_cases with hlead | hlead
  · refine ⟨cur ++ pieceText r, hcur.append (hlead.append h.unbroken), isDictLine_append hline,
      fun t b closed hblock => ?_, fun t => ?_⟩
    · rw [← List.append_assoc, hblock, List.append_assoc]
    · rw [List.append_assoc]
  · have htext : ∀ t, cur ++ (pieceText r ++ t) =
        cur ++ [comma] ++ newline :: (32 :: r.2.text ++ t) := by
      intro t
      unfold pieceText
      rw [hlead, List.append_assoc cur]
      rfl
    have hlen : r.2.text.take (r.2.text.length - 1 + 1) = r.2.text :=
      List.take_of_length_le (by omega)
    have hspace : Unbroken [32] := by
      unfold Unbroken
      decide
    have hitem := isDictLine_item r.2 (r.2.text.length - 1)
    have hends := endsWithBrace_item (cur ++ [comma] ++ [newline])
    rw [hlen] at hitem
    refine ⟨32 :: r.2.text, hspace.append h.unbroken, hitem, fun t b closed hblock => ?_,
      fun t => ?_⟩
    · have hne : (dictBlock (32 :: r.2.text ++ t)).1 ≠ [] := by
        rw [hblock]
        exact List.cons_ne_nil _ _
      rw [htext, htext, dictBlock_line (unbroken_comma hcur) (isDictLine_append hline)
        (endsWithBrace_comma cur) hne, hblock]
    · have hends := hends t r.2 (r.2.text.length - 1)
      rw [hlen, List.append_assoc _ [newline]] at hends
      rw [htext]
      exact hends

/-- **The block of a dict that is cut off.** -/
theorem Printed.block (h : Printed rows) (hcur : Unbroken cur) (hline : isDictLine cur = true)
    (n : Nat) : ∃ n', dictBlock (cur ++ (body rows).take n) =
        (cur ++ (body rows).take n', endsWithBrace (cur ++ (body rows).take n)) ∧
      SameValues rows n n' := by
  induction rows generalizing cur n with
  | nil =>
      have hbrace : Unbroken (body []) := by
        unfold Unbroken
        decide
      refine ⟨n, ?_, fun _ => ⟨rfl, rfl⟩⟩
      exact dictBlock_last (hcur.append (hbrace.subset (List.take_subset _ _)))
        (isDictLine_append hline)
  | cons r rows ih =>
      by_cases hn : n < (pieceText r).length
      · exact h.block_item hcur hline hn
      · obtain ⟨cur', hcur', hline', hblock, hends⟩ := h.line hcur hline
        obtain ⟨n', hrest, hsame⟩ := ih h.tail hcur' hline' (n - (pieceText r).length)
        have htake : ∀ m, (body (r :: rows)).take ((pieceText r).length + m) =
            pieceText r ++ (body rows).take m := by
          intro m
          rw [body_cons, List.take_length_add_append]
        have hsplit : n = (pieceText r).length + (n - (pieceText r).length) := by omega
        refine ⟨(pieceText r).length + n', ?_, hsame.cons (not_lt.mp hn)⟩
        rw [hsplit, htake, htake, hends]
        exact hblock _ _ _ hrest

/-- **The block of a whole dict**, with anything on the lines behind it. -/
theorem Printed.block_whole (h : Printed rows) (hcur : Unbroken cur) (hline : isDictLine cur = true)
    (after : Bytes) :
    dictBlock (cur ++ (body rows ++ newline :: after)) = (cur ++ body rows, true) := by
  induction rows generalizing cur with
  | nil =>
      have hbrace : Unbroken (body []) := by
        unfold Unbroken
        decide
      rw [← List.append_assoc]
      exact dictBlock_close (hcur.append hbrace) (isDictLine_append hline)
        (endsWithBrace_body _ _) _
  | cons r rows ih =>
      obtain ⟨cur', hcur', hline', hblock, -⟩ := h.line hcur hline
      rw [body_cons, List.append_assoc]
      exact hblock _ _ _ (ih h.tail hcur' hline')

end Lines

end LogStats

end Dopilot
