/-
Dopilot/CapMarkers.lean

The lines that say where a log was cut.

Agent and server cut a log file back to its cap and write one line behind it.
Whoever comes later knows a file that was cut by the line that starts at the
cap: `alreadyCapped` is the same on both sides, and takes the line of any of
them, whatever it says.
-/
import Dopilot.Protocol
import Mathlib.Data.List.Basic

namespace Dopilot

/-! ### The pattern -/

/-- `_MAX_MARKER_LEN`. -/
def maxMarkerLen : Nat := 160

/-- `_ANY_CAP_MARKER`: a truncation marker, and nothing else. -/
def isCapMarker (tail : Bytes) : Bool :=
  let text := (tail.dropPrefix? (encode "\n[dopilot:log-truncated ")).orElse fun _ =>
    tail.dropPrefix? (encode "\n[dopilot:job-log-truncated ")
  text.any fun text =>
    let inner := text.take (text.length - 2)
    text.drop (text.length - 2) == encode "]\n" && inner.all fun b => b ≠ 10 && b ≠ 93

/-- `_already_capped`, and `already_capped` of the agent; a tail that cannot be read is none. -/
def alreadyCapped (body : Bytes) (cap : Nat) (readable : Bool) : Bool :=
  decide (cap < body.length ∧ body.length - cap ≤ maxMarkerLen) && readable
    && isCapMarker (body.drop cap)

/-! ### What the lines say -/

/-- A number is written without the end of a line and without a bracket. -/
theorem mem_toString_ne {n : Nat} {b : UInt8} (h : b ∈ encode (toString n)) :
    b ≠ 10 ∧ b ≠ 93 := by
  obtain ⟨c, hc, rfl⟩ := List.mem_map.mp h
  have hdigit : c.isDigit = true := by
    apply Nat.isDigit_of_mem_toDigits (b := 10) (n := n) (by decide) (by decide)
    simpa using hc
  have hrange : 48 ≤ c.toNat ∧ c.toNat ≤ 57 := by
    simpa [Char.isDigit, UInt32.le_iff_toNat_le] using hdigit
  have hval : (UInt8.ofNat c.toNat).toNat = c.toNat := by
    rw [UInt8.toNat_ofNat']
    omega
  have hne : ∀ m : UInt8, m.toNat < 48 ∨ 57 < m.toNat → UInt8.ofNat c.toNat ≠ m := by
    rintro m hm rfl
    rw [hval] at hm
    omega
  exact ⟨hne 10 (by decide), hne 93 (by decide)⟩

/-- Bytes without the end of a line and without a bracket. -/
def plain (s : Bytes) : Bool := s.all fun b => b ≠ 10 ∧ b ≠ 93

theorem plain_mem {s : Bytes} (h : plain s = true) {b : UInt8} (hb : b ∈ s) : b ≠ 10 ∧ b ≠ 93 :=
  of_decide_eq_true (List.all_eq_true.mp h b hb)

/-- What a line says of its cap and its reason. -/
theorem plain_fields {reason : Bytes} (hreason : plain reason = true) (cap : Nat) :
    ∀ b ∈ encode "max_bytes=" ++ (encode (toString cap) ++ reason), b ≠ 10 ∧ b ≠ 93 := by
  have hkey : plain (encode "max_bytes=") = true := by decide
  intro b hb
  rcases List.mem_append.mp hb with hb | hb
  · exact plain_mem hkey hb
  rcases List.mem_append.mp hb with hb | hb
  · exact mem_toString_ne hb
  · exact plain_mem hreason hb

/-- A line of either kind matches the pattern, whatever it says. -/
theorem isCapMarker_fields (job : Bool) {fields : Bytes} (h : ∀ b ∈ fields, b ≠ 10 ∧ b ≠ 93) :
    isCapMarker (encode
      (if job then "\n[dopilot:job-log-truncated " else "\n[dopilot:log-truncated ") ++ (fields ++ encode "]\n")) = true := by
  have hlen : (fields ++ encode "]\n").length - 2 = fields.length := by
    rw [List.length_append]
    rfl
  have htext : ((fields ++ encode "]\n").drop ((fields ++ encode "]\n").length - 2) == encode "]\n" &&
      ((fields ++ encode "]\n").take ((fields ++ encode "]\n").length - 2)).all
        fun b => b ≠ 10 && b ≠ 93) = true := by
    rw [hlen, List.drop_left, List.take_left]
    simpa using h
  cases job with
  | false =>
      unfold isCapMarker
      rw [if_neg Bool.false_ne_true, List.dropPrefix?_append_of_beq _ (beq_self_eq_true _)]
      exact htext
  | true =>
      have hother : (encode "\n[dopilot:job-log-truncated " ++ (fields ++ encode "]\n")).dropPrefix?
          (encode "\n[dopilot:log-truncated ") = none := rfl
      unfold isCapMarker
      rw [if_pos rfl, hother, List.dropPrefix?_append_of_beq _ (beq_self_eq_true _)]
      exact htext

/-- A line ends as such lines do. -/
theorem exists_of_isCapMarker {tail : Bytes} (h : isCapMarker tail = true) :
    ∃ head, tail = head ++ encode "]\n" := by
  have hend : ∀ start text : Bytes, tail.dropPrefix? start = some text →
      (text.drop (text.length - 2) == encode "]\n") = true → ∃ head, tail = head ++ encode "]\n" := by
    intro start text hdrop hlast
    obtain ⟨start', htail, -⟩ := List.dropPrefix?_eq_some_iff.mp hdrop
    refine ⟨start' ++ text.take (text.length - 2), ?_⟩
    rw [← eq_of_beq hlast, List.append_assoc, List.take_append_drop]
    exact htail
  unfold isCapMarker at h
  cases hkind : tail.dropPrefix? (encode "\n[dopilot:log-truncated ") with
  | some text =>
      rw [hkind] at h
      exact hend _ text hkind (Bool.and_eq_true_iff.mp h).1
  | none =>
      cases hjob : tail.dropPrefix? (encode "\n[dopilot:job-log-truncated ") with
      | some text =>
          rw [hkind, hjob] at h
          exact hend _ text hjob (Bool.and_eq_true_iff.mp h).1
      | none =>
          rw [hkind, hjob] at h
          cases h

/-- A file that was cut already is its cap and the line. -/
theorem eq_of_alreadyCapped {cap : Nat} {body : Bytes} {readable : Bool}
    (h : alreadyCapped body cap readable = true) :
    ∃ line, isCapMarker line = true ∧ body = body.take cap ++ line ∧ cap < body.length := by
  unfold alreadyCapped at h
  obtain ⟨hlen, hmarker⟩ := Bool.and_eq_true_iff.mp h
  obtain ⟨hlen, -⟩ := Bool.and_eq_true_iff.mp hlen
  exact ⟨body.drop cap, hmarker, (List.take_append_drop cap body).symm, (of_decide_eq_true hlen).1⟩

end Dopilot
