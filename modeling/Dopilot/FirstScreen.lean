/-
Dopilot/FirstScreen.lean

The end of a body that is shown first.

`tail_screen` returns the last lines of a body or its last bytes, whichever is
less.  It reads the last bytes, splits them into lines, joins those it keeps, and
takes their length off the size to find where they start.  What it returns is the
body from there on (`tailChunk_eq`): from the later of the two limits, where the
lines may as well be looked for in the whole body (`tailChunk_start`).

`read_slice` returns what stands from an offset on, up to a number of bytes.  Read
on, each call where the one before has ended, it returns the body piece by piece
(`flatten_sliceChunks`).
-/
import Dopilot.LiveLog

namespace Dopilot

namespace LogFiles

open LiveLog (newline)

/-! ### Reading a path -/

/-- `size`, of a path and what is stored there. -/
def size (path : Option Bytes) : Nat := path.elim 0 List.length

/-- What `read_slice` reads, and where this begins. -/
def sliceChunk (path : Option Bytes) (offset maxBytes : Int) : Int × Bytes :=
  match path with
  | none => (offset, [])
  | some file =>
      let start := min (max offset 0) file.length
      (start, (file.drop start.toNat).take maxBytes.toNat)

/-- What is returned of a chunk, and of where it begins. -/
def returned (c : Int × Bytes) : Int × Int × List Char :=
  (c.1, c.1 + c.2.length, Utf8.decode c.2)

/-- `read_slice`. -/
def readSlice (path : Option Bytes) (offset maxBytes : Int) : Int × Int × List Char :=
  returned (sliceChunk path offset maxBytes)

/-- What `tail_screen` keeps of the body, and where this begins. -/
def tailChunk (path : Option Bytes) (maxLines maxBytes : Int) : Int × Bytes :=
  let fsize := size path
  if fsize = 0 then (0, [])
  else
    let byteStart := fsize - maxBytes.toNat
    let chunk := (path.getD []).drop byteStart
    match if 0 < maxLines then LiveLog.lastLines maxLines.toNat chunk else none with
    | none => (byteStart, chunk)
    | some trimmed => ((fsize : Int) - trimmed.length, trimmed)

/-- `tail_screen`. -/
def tailScreen (path : Option Bytes) (maxLines maxBytes : Int) : Int × Int × List Char :=
  let c := tailChunk path maxLines maxBytes
  (c.1, size path, Utf8.decode c.2)

/-- `read_slice` is called again and again, each time where it ended. -/
def readSlices (path : Option Bytes) (offset : Int) : List Int → List (Int × Int × List Char)
  | [] => []
  | maxBytes :: sizes =>
      let r := readSlice path offset maxBytes
      r :: readSlices path r.2.1 sizes

/-- What it reads. -/
def sliceChunks (path : Option Bytes) (offset : Int) : List Int → List (Int × Bytes)
  | [] => []
  | maxBytes :: sizes =>
      let c := sliceChunk path offset maxBytes
      c :: sliceChunks path (c.1 + c.2.length) sizes

theorem size_eq (path : Option Bytes) : size path = (path.getD []).length := by
  cases path with
  | none => rfl
  | some file => rfl

/-! The viewer's reads are these, of a body that is there. -/

theorem readSlice_liveLog (file : Bytes) (offset : Nat) (maxBytes : Int) :
    let r := LiveLog.readSlice file offset maxBytes
    readSlice (some file) offset maxBytes = ((r.1 : Int), (r.2.1 : Int), r.2.2) := by
  have hstart : min (max (offset : Int) 0) file.length = (min offset file.length : Nat) := by
    omega
  unfold readSlice sliceChunk returned LiveLog.readSlice
  dsimp only
  rw [hstart, Int.toNat_natCast, Int.natCast_add]

theorem tailScreen_liveLog (file : Bytes) (maxLines maxBytes : Int) :
    let ev := LiveLog.tailScreen file file.length maxLines maxBytes
    tailScreen (some file) maxLines maxBytes =
      (ev.startOffset, (ev.endOffset : Int), ev.content) := by
  unfold tailScreen tailChunk LiveLog.tailScreen size
  cases file with
  | nil =>
      have hnone : LiveLog.lastLines maxLines.toNat [] = none := rfl
      simp [hnone]
  | cons b file =>
      rw [if_neg (by simp)]
      dsimp only [Option.elim_some, Option.getD_some]
      generalize (if 0 < maxLines then LiveLog.lastLines maxLines.toNat
        ((b :: file).drop ((b :: file).length - maxBytes.toNat)) else none) = kept
      cases kept with
      | none => rfl
      | some trimmed => rfl

/-! ### The slices -/

theorem readSlices_eq (path : Option Bytes) (offset : Int) (sizes : List Int) :
    readSlices path offset sizes = (sliceChunks path offset sizes).map returned := by
  induction sizes generalizing offset with
  | nil => rfl
  | cons maxBytes sizes ih =>
      unfold readSlices sliceChunks
      rw [List.map_cons, ← ih]
      rfl

/-- A read from an offset within the body. -/
theorem sliceChunk_eq (path : Option Bytes) {start : Nat} (h : start ≤ (path.getD []).length)
    (maxBytes : Int) :
    sliceChunk path start maxBytes =
      ((start : Int), ((path.getD []).drop start).take maxBytes.toNat) := by
  cases path with
  | none => simp [sliceChunk]
  | some file =>
      have hle : start ≤ file.length := h
      have hstart : min (max (start : Int) 0) file.length = start := by
        omega
      unfold sliceChunk
      dsimp only
      rw [hstart, Int.toNat_natCast]
      rfl

/-- **The slices of a body**, read on from an offset, are the body from there on. -/
theorem flatten_sliceChunks (path : Option Bytes) (sizes : List Int) {start : Nat}
    (h : start ≤ (path.getD []).length) :
    ((sliceChunks path start sizes).map Prod.snd).flatten =
      ((path.getD []).drop start).take (sizes.map Int.toNat).sum := by
  induction sizes generalizing start with
  | nil => simp [sliceChunks]
  | cons maxBytes sizes ih =>
      have hlength : (((path.getD []).drop start).take maxBytes.toNat).length =
          min maxBytes.toNat ((path.getD []).length - start) := by
        rw [List.length_take, List.length_drop]
      have hnext : start + (((path.getD []).drop start).take maxBytes.toNat).length ≤
          (path.getD []).length := by
        omega
      have hrest := ih hnext
      -- where less is left than was asked for, nothing is left behind it
      have hdrop : (path.getD []).drop
          (start + (((path.getD []).drop start).take maxBytes.toNat).length) =
            ((path.getD []).drop start).drop maxBytes.toNat := by
        rw [List.drop_drop]
        rcases Nat.le_total maxBytes.toNat ((path.getD []).length - start) with hfull | hshort
        · rw [hlength, Nat.min_eq_left hfull]
        · rw [hlength, Nat.min_eq_right hshort, List.drop_eq_nil_of_le, List.drop_eq_nil_of_le]
          · omega
          · omega
      unfold sliceChunks
      rw [sliceChunk_eq path h, List.map_cons, List.flatten_cons, List.map_cons, List.sum_cons,
        List.take_add, ← hdrop]
      congr 1

/-! ### The first screen -/

/-- **What `tail_screen` keeps** is the body from where the last lines start within
the last bytes. -/
theorem tailChunk_eq (path : Option Bytes) {maxLines : Int} (hlines : 0 < maxLines)
    (maxBytes : Int) :
    let file := path.getD []
    let first := file.length - maxBytes.toNat
    let start := first + (Lines.nthLast newline maxLines.toNat (file.drop first)).getD 0
    tailChunk path maxLines maxBytes = ((start : Int), file.drop start) ∧ start ≤ file.length := by
  intro file first start
  have hfile : path.getD [] = file := rfl
  have hchunk : (file.drop first).length = file.length - first := List.length_drop
  have hle : start ≤ file.length := by
    cases hline : Lines.nthLast newline maxLines.toNat (file.drop first) with
    | none =>
        have hstart : start = first := by simp [start, hline]
        rw [hstart]
        exact Nat.sub_le _ _
    | some i =>
        have hlt := Lines.lt_of_nthLast hline
        have hstart : start = first + i := by simp [start, hline]
        omega
  refine ⟨?_, hle⟩
  have hkept := LiveLog.lastLines_eq (Int.pos_iff_toNat_pos.mp hlines) (file.drop first)
  have hdrop : (file.drop first).drop
      ((Lines.nthLast newline maxLines.toNat (file.drop first)).getD 0) = file.drop start :=
    List.drop_drop
  rw [hdrop] at hkept
  have hlength : (file.drop start).length = file.length - start := List.length_drop
  unfold tailChunk
  simp only [size_eq, hfile, if_pos hlines]
  by_cases hempty : file.length = 0
  · have hnil : file = [] := List.length_eq_zero_iff.mp hempty
    have hzero : start = 0 := by omega
    rw [if_pos hempty, hzero, hnil]
    rfl
  · rw [if_neg hempty]
    cases hcut : LiveLog.lastLines maxLines.toNat (file.drop first) with
    | none =>
        -- nothing is cut away
        rw [hcut, Option.getD_none] at hkept
        have hsame : start = first := by
          have hequal := congrArg List.length hkept
          omega
        rw [hsame]
    | some trimmed =>
        rw [hcut, Option.getD_some] at hkept
        have hstart : (file.length : Int) - (file.drop start).length = start := by
          omega
        rw [hkept]
        dsimp only
        rw [hstart]

theorem add_getD_eq_max (first : Nat) (line : Option Nat) :
    first + line.getD 0 = max first (line.elim 0 (first + ·)) := by
  cases line with
  | none => simp
  | some i => simp

/-- **The later of the two limits**: it does not matter whether the last lines are
looked for in the last bytes or in the whole body. -/
theorem tailChunk_start (path : Option Bytes) {maxLines : Int} (hlines : 0 < maxLines)
    (maxBytes : Int) :
    let file := path.getD []
    let start := max (file.length - maxBytes.toNat)
      ((Lines.nthLast newline maxLines.toNat file).getD 0)
    tailChunk path maxLines maxBytes = ((start : Int), file.drop start) := by
  intro file start
  have hfirst : (file.take (file.length - maxBytes.toNat)).length =
      file.length - maxBytes.toNat := by
    rw [List.length_take]
    exact Nat.min_eq_left (Nat.sub_le _ _)
  have hmax := Lines.max_nthLast_append newline maxLines.toNat
    (file.take (file.length - maxBytes.toNat)) (file.drop (file.length - maxBytes.toNat))
  rw [List.take_append_drop, hfirst, ← add_getD_eq_max] at hmax
  obtain ⟨hchunk, -⟩ := tailChunk_eq path hlines maxBytes
  have hstart : start = _ := hmax
  rw [hstart]
  exact hchunk

/-- **The first screen.**  Of a body of any content, `tail_screen` returns the bytes
from `start` to the end: `start` is the later of where the last `maxBytes` bytes
begin and where, within these, the `maxLines`-th last line starts, if there is one.
Read on in slices from `start`, the body comes out the same, whatever the slices
ask for, once they have asked for all of it. -/
theorem first_screen (path : Option Bytes) (maxLines maxBytes : Int) (hlines : 0 < maxLines) :
    let file := path.getD []
    let first := file.length - maxBytes.toNat
    let line := Lines.nthLast newline maxLines.toNat (file.drop first)
    ∃ start : Nat, start = max first (line.elim 0 (first + ·)) ∧ start ≤ file.length ∧
      tailChunk path maxLines maxBytes = ((start : Int), file.drop start) ∧
      tailScreen path maxLines maxBytes =
        ((start : Int), (file.length : Int), Utf8.decode (file.drop start)) ∧
      ∀ sizes : List Int, file.length - start ≤ (sizes.map Int.toNat).sum →
        readSlices path start sizes = (sliceChunks path start sizes).map returned ∧
          ((sliceChunks path start sizes).map Prod.snd).flatten = file.drop start := by
  intro file first line
  obtain ⟨hchunk, hle⟩ := tailChunk_eq path hlines maxBytes
  refine ⟨first + line.getD 0, add_getD_eq_max first line, hle, hchunk, ?_, fun sizes hall => ?_⟩
  · unfold tailScreen
    rw [hchunk, size_eq]
  · refine ⟨readSlices_eq path _ sizes, ?_⟩
    rw [flatten_sliceChunks path sizes hle]
    apply List.take_of_length_le
    rw [List.length_drop]
    exact hall

/-- Four lines, of which the last nine bytes are wanted, but no more than two lines. -/
theorem first_screen_fourLines :
    let path : Option Bytes := some [108, 49, 10, 108, 50, 10, 108, 51, 10, 108, 52, 10]
    (0 : Int) < 2 ∧ ∃ start : Nat, start = 6 ∧ tailScreen path 2 9 = (6, 12, "l3\nl4\n".toList) ∧
      ((sliceChunks path start [4, 4]).map Prod.snd).flatten = [108, 51, 10, 108, 52, 10] := by
  intro path
  obtain ⟨start, hstart, -, -, hscreen, hslices⟩ := first_screen path 2 9 (by decide)
  have hsix : start = 6 := hstart.trans (by decide)
  subst hsix
  refine ⟨by decide, 6, rfl, hscreen.trans (by decide), ?_⟩
  exact (hslices [4, 4] (by decide)).2

end LogFiles

end Dopilot
