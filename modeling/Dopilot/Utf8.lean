/-
Dopilot/Utf8.lean

Decoding of UTF-8 that replaces what is malformed.

A byte completes a character, goes on with one, or does neither.  The bytes of a
character that is not completed are replaced as one, up to the byte that does not
fit, which is then read as the first of another character.
-/
import Mathlib.Data.List.Basic

namespace Utf8

/-- A character that has begun: its value so far, the number of bytes it still
needs, and the range of the next one. -/
structure Begun where
  value : Nat
  missing : Nat
  lo : UInt8 := 0x80
  hi : UInt8 := 0xBF
  deriving DecidableEq, Repr

def replacement : Char := Char.ofNat 0xFFFD

/-- The first byte of a character: the characters it completes, and what it begins. -/
def first (b : UInt8) : List Char × Option Begun :=
  if b ≤ 0x7F then ([Char.ofNat b.toNat], none)
  else if 0xC2 ≤ b ∧ b ≤ 0xDF then ([], some ⟨b.toNat - 0xC0, 1, 0x80, 0xBF⟩)
  else if b = 0xE0 then ([], some ⟨0, 2, 0xA0, 0xBF⟩)
  -- no surrogates
  else if b = 0xED then ([], some ⟨0xD, 2, 0x80, 0x9F⟩)
  else if 0xE1 ≤ b ∧ b ≤ 0xEF then ([], some ⟨b.toNat - 0xE0, 2, 0x80, 0xBF⟩)
  else if b = 0xF0 then ([], some ⟨0, 3, 0x90, 0xBF⟩)
  else if 0xF1 ≤ b ∧ b ≤ 0xF3 then ([], some ⟨b.toNat - 0xF0, 3, 0x80, 0xBF⟩)
  else if b = 0xF4 then ([], some ⟨4, 3, 0x80, 0x8F⟩)
  else ([replacement], none)

/-- One byte. -/
def next (b : UInt8) : Option Begun → List Char × Option Begun
  | none => first b
  | some p =>
      if p.lo ≤ b ∧ b ≤ p.hi then
        let value := p.value * 64 + (b.toNat - 0x80)
        if p.missing ≤ 1 then ([Char.ofNat value], none)
        else ([], some { value := value, missing := p.missing - 1 })
      else
        let (done, begun) := first b
        (replacement :: done, begun)

def decodeFrom : Option Begun → List UInt8 → List Char
  | none, [] => []
  | some _, [] => [replacement]
  | begun, b :: bytes => (next b begun).1 ++ decodeFrom (next b begun).2 bytes

/-- `bytes.decode("utf-8", errors="replace")`. -/
def decode (bytes : List UInt8) : List Char := decodeFrom none bytes

/-- Something is completed or begun. -/
def Moves (r : List Char × Option Begun) : Prop := r.1 = [] → r.2.isSome = true

theorem first_moves (b : UInt8) : Moves (first b) := by
  have hdone : ∀ c, Moves ([c], none) := fun c h => absurd h (List.cons_ne_nil c [])
  have hbegun : ∀ p, Moves ([], some p) := fun _ _ => rfl
  unfold first
  repeat' split
  all_goals first
    | exact hdone _
    | exact hbegun _

theorem next_moves (b : UInt8) (begun : Option Begun) : Moves (next b begun) := by
  cases begun with
  | none => exact first_moves b
  | some p =>
      unfold next
      dsimp only
      split
      · split
        · exact fun h => absurd h (List.cons_ne_nil _ _)
        · exact fun _ => rfl
      · exact fun h => absurd h (List.cons_ne_nil _ _)

theorem decodeFrom_begun (p : Begun) (bytes : List UInt8) : decodeFrom (some p) bytes ≠ [] := by
  induction bytes generalizing p with
  | nil => exact List.cons_ne_nil _ _
  | cons b bytes ih =>
      intro h
      obtain ⟨hdone, hrest⟩ := List.append_eq_nil_iff.mp h
      obtain ⟨q, hq⟩ := Option.isSome_iff_exists.mp (next_moves _ _ hdone)
      rw [hq] at hrest
      exact ih q hrest

/-- Only no bytes decode to no text. -/
theorem decode_eq_nil {bytes : List UInt8} : decode bytes = [] ↔ bytes = [] := by
  constructor
  · intro h
    cases bytes with
    | nil => rfl
    | cons b bytes =>
        obtain ⟨hdone, hrest⟩ := List.append_eq_nil_iff.mp h
        obtain ⟨q, hq⟩ := Option.isSome_iff_exists.mp (next_moves _ _ hdone)
        rw [hq] at hrest
        exact absurd hrest (decodeFrom_begun q bytes)
  · rintro rfl
    rfl

end Utf8
