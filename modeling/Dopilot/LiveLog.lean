/-
Dopilot/LiveLog.lean

The live view of a log.

The consumer appends an increment to the body on disk and then publishes it to
the queue of the viewer.  The viewer subscribes, sends the first screen or
resumes behind what it was sent before, reads the body in slices up to the size
it has found, and from then on takes what is queued, unless it ends at or before
its cursor.

The bytes that are sent are those of their spans, and the spans follow each other
without gap and overlap (`spans_exactly_once`), under three conditions: the body
does not grow between the two readings of the first screen, the backfill does
not end inside an increment that is still to come, and no increment that has
reached the disk stays unpublished.  `not_spans_exactly_once` has a run without
the second.
-/
import Dopilot.Lines
import Dopilot.ServerLogs
import Dopilot.Spans
import Dopilot.StateMachine
import Dopilot.Utf8
import Mathlib.Data.Int.Order.Basic
import Mathlib.Data.Nat.Basic

namespace Dopilot

namespace LiveLog

/-! ### Reading the body -/

/-- An event `log` of the stream. -/
structure Event where
  startOffset : Int
  endOffset : Nat
  content : List Char
  deriving DecidableEq, Repr

/-- `settings.logs`, what the viewer and the consumer read of it. -/
structure Settings where
  maxFileBytes : Nat
  maxTailBytesPerPull : Int
  firstScreenMaxLines : Int
  firstScreenMaxBytes : Int

def newline : UInt8 := 10

/-- `read_slice`, of a body that is on disk. -/
def readSlice (file : Bytes) (offset : Nat) (maxBytes : Int) : Nat × Nat × List Char :=
  let start := min offset file.length
  let chunk := (file.drop start).take maxBytes.toNat
  (start, start + chunk.length, Utf8.decode chunk)

/-- The last lines of a chunk, if it has more; a newline at its end is no line. -/
def lastLines (maxLines : Nat) (chunk : Bytes) : Option Bytes :=
  let lines := chunk.splitOn newline
  let trailing := lines.getLast? = some []
  let body := if trailing then lines.dropLast else lines
  if maxLines < body.length then
    some ([newline].intercalate (body.drop (body.length - maxLines)) ++
      if trailing then [newline] else [])
  else none

/-- `tail_screen` behind its `stat`, which has found the size `fsize`. -/
def tailScreen (file : Bytes) (fsize : Nat) (maxLines maxBytes : Int) : Event :=
  let byteStart := fsize - maxBytes.toNat
  let chunk := file.drop byteStart
  match if 0 < maxLines then lastLines maxLines.toNat chunk else none with
  | none => ⟨byteStart, fsize, Utf8.decode chunk⟩
  | some trimmed => ⟨(fsize : Int) - trimmed.length, fsize, Utf8.decode trimmed⟩

/-! ### The machine -/

/-- An increment that the consumer writes, and how much of it is on disk. -/
structure Append where
  startOffset : Nat
  data : Bytes
  landed : Nat := 0

/-- What is published of it. -/
def Append.event (w : Append) : Event :=
  ⟨w.startOffset, w.startOffset + w.data.length, Utf8.decode w.data⟩

/-- The event of a span that an apply publishes. -/
def Event.ofSpan (span : SseSpan) : Event :=
  ⟨span.startOffset, span.endOffset, Utf8.decode span.content⟩

/-- This is what `apply_log_event` publishes of a write that succeeds. -/
theorem writeIncrement_event (cfg : LogsSettings) (ev : AgentLogEvent) (raw : Bytes)
    (f : ExecutionLogFile) (s : LogServer) {toWrite : Bytes}
    (hplan : (planWrite (s.bodies ev.key).length (payloadOf f ev raw) cfg.maxFileBytes
      s.gauge).toWrite = toWrite) (hne : toWrite ≠ []) :
    ∃ disk applied, writeIncrement cfg .none ev raw f s = (disk, .ok applied) ∧
      applied.sse.map Event.ofSpan = some (Append.event ⟨(s.bodies ev.key).length, toWrite, 0⟩) := by
  refine ⟨_, _, rfl, ?_⟩
  have hend : (s.bodies ev.key ++ toWrite.take toWrite.length).length =
      (s.bodies ev.key).length + toWrite.length := by
    rw [List.take_length, List.length_append]
  dsimp only [LogFault.landed, writeSettled, Option.getD_none]
  rw [hplan, if_neg hne, hend]
  rfl

/-- Where the viewer stands. -/
inductive Phase where
  | idle
  /-- Subscribed; the first screen comes next. -/
  | opened
  /-- The first screen has found the size `fsize`. -/
  | screen (fsize : Nat)
  | sizing (cursor : Nat)
  | backfill (cursor sizeNow : Nat)
  | backfilled (cursor : Nat)
  /-- The events of the queue are sent. -/
  | live (cursor : Nat)
  deriving DecidableEq

def Phase.isLive : Phase → Bool
  | .live _ => true
  | _ => false

/-- `unpublished` is the end of the bytes that have reached the disk and will not
be published, as far as the viewer has been subscribed. -/
structure State where
  file : Bytes
  append : Option Append := none
  phase : Phase := .idle
  queue : List Event := []
  emitted : List Event := []
  unpublished : Nat := 0

def start (file : Bytes) : State where
  file := file

inductive Action where
  /-- The consumer plans an increment. -/
  | begin (payload : Bytes) (gauge : Option LogsDirGauge)
  | land (n : Nat)
  | publish
  /-- The write, or what comes between it and the publication, raises. -/
  | raise
  /-- The viewer subscribes, to the tail or behind an offset it was sent. -/
  | subscribe (resume : Option Nat)
  | stat
  | readScreen
  | size
  | slice
  | serve
  | deliver
  | close

def State.emit (s : State) (ev : Event) : State := { s with emitted := s.emitted ++ [ev] }

def step (cfg : Settings) (s : State) : Action → Option State
  | .begin payload gauge =>
      if s.append.isSome then none
      else
        let toWrite := (planWrite s.file.length payload cfg.maxFileBytes gauge).toWrite
        if toWrite = [] then some s
        else some { s with append := some ⟨s.file.length, toWrite, 0⟩ }
  | .land n => s.append.map fun w =>
      let chunk := (w.data.drop w.landed).take n
      { s with
        file := s.file ++ chunk
        append := some { w with landed := w.landed + chunk.length } }
  | .publish =>
      match s.append with
      | none => none
      | some w =>
          if w.landed < w.data.length then none
          else
            some { s with
              append := none
              queue := if s.phase = .idle then s.queue else s.queue ++ [w.event] }
  | .raise => s.append.map fun w =>
      { s with
        append := none
        unpublished := if w.landed = 0 then s.unpublished else s.file.length }
  | .subscribe resume =>
      if s.phase ≠ .idle ∨ s.file.length < resume.getD 0 then none
      else
        some { s with
          phase := match resume with
            | none => .opened
            | some offset => .sizing offset
          queue := []
          emitted := []
          unpublished := 0 }
  | .stat =>
      match s.phase with
      | .opened =>
          some { s with phase := if s.file.length = 0 then .sizing 0 else .screen s.file.length }
      | _ => none
  | .readScreen =>
      match s.phase with
      | .screen fsize =>
          let ev := tailScreen s.file fsize cfg.firstScreenMaxLines cfg.firstScreenMaxBytes
          let s := { s with phase := .sizing fsize }
          some (if ev.content = [] then s else s.emit ev)
      | _ => none
  | .size =>
      match s.phase with
      | .sizing cursor => some { s with phase := .backfill cursor s.file.length }
      | _ => none
  | .slice =>
      match s.phase with
      | .backfill cursor sizeNow =>
          if cursor < sizeNow then
            let (first, last, text) := readSlice s.file cursor cfg.maxTailBytesPerPull
            if last ≤ cursor then some { s with phase := .backfilled cursor }
            else some ({ s with phase := .backfill last sizeNow }.emit ⟨first, last, text⟩)
          else some { s with phase := .backfilled cursor }
      | _ => none
  | .serve =>
      match s.phase with
      | .backfilled cursor => some { s with phase := .live cursor }
      | _ => none
  | .deliver =>
      match s.phase, s.queue with
      | .live cursor, ev :: queue =>
          if ev.endOffset ≤ cursor then some { s with queue := queue }
          else some ({ s with queue := queue, phase := .live ev.endOffset }.emit ev)
      | _, _ => none
  | .close => some { s with phase := .idle }

/-- What is queued or will be. -/
def State.coming (s : State) : List Event := s.queue ++ (s.append.map Append.event).toList

/-- The body has the size that the first screen has found, the backfill does not
end inside an increment that is still to come, and what has reached the disk is
published once the viewer relies on it. -/
def Undisturbed (s : State) : Action → Prop
  | .readScreen => ∀ fsize, s.phase = .screen fsize → s.file.length = fsize
  | .serve => ∀ cursor, s.phase = .backfilled cursor → s.unpublished ≤ cursor ∧
      ∀ ev ∈ s.coming, ¬ (ev.startOffset < cursor ∧ cursor < ev.endOffset)
  | .raise => ∀ w, s.append = some w → s.phase.isLive = true → w.landed = 0
  | _ => True

/-! ### The spans that are sent -/

/-- The content is that of the bytes of the span. -/
def Event.Faithful (file : Bytes) (ev : Event) : Prop :=
  ∃ first : Nat, ev.startOffset = first ∧ first < ev.endOffset ∧ ev.endOffset ≤ file.length ∧
    ev.content = Utf8.decode ((file.drop first).take (ev.endOffset - first))

/-- The events lead from one offset to another. -/
abbrev Chained (a : Int) (l : List Event) (b : Int) : Prop :=
  Spans.Chained Event.startOffset (fun ev => (ev.endOffset : Int)) a l b

theorem Event.Faithful.append {file : Bytes} {ev : Event} (h : ev.Faithful file) (more : Bytes) :
    ev.Faithful (file ++ more) := by
  obtain ⟨first, hstart, hlt, hle, hcontent⟩ := h
  refine ⟨first, hstart, hlt, ?_, ?_⟩
  · rw [List.length_append]
    omega
  · have hdrop : first ≤ file.length := by omega
    rw [hcontent, List.drop_append_of_le_length hdrop, List.take_append_of_le_length]
    rw [List.length_drop]
    exact Nat.sub_le_sub_right hle first

/-- A slice that is not empty is faithful, and begins at the cursor. -/
theorem readSlice_faithful {file : Bytes} {cursor : Nat} {maxBytes : Int}
    (hcursor : cursor ≤ file.length) (h : cursor < (readSlice file cursor maxBytes).2.1) :
    (readSlice file cursor maxBytes).1 = cursor ∧
      Event.Faithful file ⟨(readSlice file cursor maxBytes).1, (readSlice file cursor maxBytes).2.1,
        (readSlice file cursor maxBytes).2.2⟩ := by
  have hstart : min cursor file.length = cursor := Nat.min_eq_left hcursor
  have hlength : ((file.drop cursor).take maxBytes.toNat).length ≤ file.length - cursor := by
    rw [List.length_take, List.length_drop]
    exact Nat.min_le_right _ _
  unfold readSlice at h ⊢
  simp only [hstart] at h ⊢
  refine ⟨trivial, cursor, rfl, h, ?_, ?_⟩
  · show cursor + _ ≤ file.length
    omega
  · show Utf8.decode _ = Utf8.decode ((file.drop cursor).take (cursor + _ - cursor))
    rw [Nat.add_sub_cancel_left]
    refine congrArg Utf8.decode (List.take_eq_take_iff.mpr ?_)
    rw [List.length_take, Nat.min_assoc, Nat.min_self]

/-- A slice that is not empty was asked for. -/
theorem readSlice_pos {file : Bytes} {cursor : Nat} {maxBytes : Int}
    (h : cursor < (readSlice file cursor maxBytes).2.1) : 0 < maxBytes := by
  by_contra hnot
  have hzero : maxBytes.toNat = 0 := Int.toNat_of_nonpos (Int.not_lt.mp hnot)
  unfold readSlice at h
  rw [hzero] at h
  exact absurd h (Nat.not_lt.mpr (Nat.min_le_left _ _))

theorem readSlice_lt {file : Bytes} {cursor : Nat} {maxBytes : Int}
    (hcursor : cursor < file.length) (h : 0 < maxBytes) :
    cursor < (readSlice file cursor maxBytes).2.1 := by
  show cursor < min cursor file.length + _
  have hpos : 0 < maxBytes.toNat := Int.pos_iff_toNat_pos.mp h
  rw [Nat.min_eq_left hcursor.le, List.length_take, List.length_drop]
  omega

/-! ### The first screen -/

/-- The lines that are kept, with the newlines between them, and the one at the end. -/
theorem intercalate_body {lines : List Bytes} {k : Nat}
    (hk : k < (if lines.getLast? = some [] then lines.dropLast else lines).length) :
    [newline].intercalate
        ((if lines.getLast? = some [] then lines.dropLast else lines).drop k) ++
      (if lines.getLast? = some [] then [newline] else []) =
        [newline].intercalate (lines.drop k) := by
  by_cases htrailing : lines.getLast? = some []
  · rw [if_pos htrailing] at hk ⊢
    rw [if_pos htrailing]
    have hlines : lines.dropLast ++ [[]] = lines := List.dropLast_append_getLast? [] htrailing
    have hdrop : lines.dropLast.drop k ≠ [] := fun hnil =>
      absurd hk (Nat.not_lt.mpr (List.drop_eq_nil_iff.mp hnil))
    have hwhole : lines.drop k = lines.dropLast.drop k ++ [[]] := by
      rw [← List.drop_append_of_le_length hk.le, hlines]
    rw [hwhole, Lines.intercalate_append hdrop (List.cons_ne_nil [] []),
      List.intercalate_singleton, List.append_nil]
  · rw [if_neg htrailing] at hk ⊢
    rw [if_neg htrailing, List.append_nil]

/-- **The last lines of a chunk** begin where the first of them starts. -/
theorem lastLines_eq {maxLines : Nat} (hpos : 0 < maxLines) (chunk : Bytes) :
    (lastLines maxLines chunk).getD chunk =
      chunk.drop ((Lines.nthLast newline maxLines chunk).getD 0) := by
  have hchunk : [newline].intercalate (chunk.splitOn newline) = chunk :=
    List.intercalate_splitOn newline
  have hpieces : ∀ l ∈ chunk.splitOn newline, newline ∉ l :=
    fun l hl => Lines.notMem_of_mem_splitOn hl
  have hcount := Lines.length_starts_intercalate hpieces (List.splitOn_ne_nil newline chunk)
  unfold lastLines
  generalize chunk.splitOn newline = lines at hchunk hpieces hcount
  rw [hchunk] at hcount
  simp only
  -- the lines that the source counts are those that start somewhere
  have hbody : (if lines.getLast? = some [] then lines.dropLast else lines).length =
      (Lines.starts newline chunk).length := by
    rw [hcount]
    split
    · exact List.length_dropLast
    · rfl
  by_cases hmore : maxLines < (Lines.starts newline chunk).length
  · have hk : (Lines.starts newline chunk).length - maxLines <
        (if lines.getLast? = some [] then lines.dropLast else lines).length := by
      rw [hbody]
      exact Nat.sub_lt (Nat.zero_lt_of_lt hmore) hpos
    have hsum : (Lines.starts newline chunk).length =
        ((Lines.starts newline chunk).length - maxLines) + maxLines :=
      (Nat.sub_add_cancel hmore.le).symm
    have hlast := Lines.drop_nthLast_intercalate hpieces (Nat.sub_pos_of_lt hmore) hpos
      (by rwa [hchunk])
    rw [hchunk] at hlast
    rw [hbody, if_pos hmore, Option.getD_some, intercalate_body hk, hlast]
  · rw [hbody, if_neg hmore, Option.getD_none]
    rcases Lines.nthLast_of_le (Nat.not_lt.mp hmore) hpos with hnone | hzero
    · rw [hnone]
      rfl
    · rw [hzero]
      rfl

/-- The lines that are kept are the end of the chunk. -/
theorem lastLines_suffix {maxLines : Nat} {chunk trimmed : Bytes} (hpos : 0 < maxLines)
    (h : lastLines maxLines chunk = some trimmed) : trimmed <:+ chunk := by
  have hkept := lastLines_eq hpos chunk
  rw [h, Option.getD_some] at hkept
  rw [hkept]
  exact List.drop_suffix _ chunk

/-- The end of a body is faithful under the offsets of its end. -/
theorem suffix_faithful {file tail : Bytes} (h : tail <:+ file) (hne : tail ≠ []) :
    Event.Faithful file ⟨(file.length : Int) - tail.length, file.length, Utf8.decode tail⟩ := by
  obtain ⟨front, rfl⟩ := h
  have hpos : 0 < tail.length := List.length_pos_of_ne_nil hne
  refine ⟨front.length, ?_, ?_, le_refl _, ?_⟩
  · show ((front ++ tail).length : Int) - tail.length = front.length
    rw [List.length_append]
    omega
  · show front.length < (front ++ tail).length
    rw [List.length_append]
    omega
  · show Utf8.decode tail = _
    rw [List.drop_left, List.length_append, Nat.add_sub_cancel_left, List.take_length]

/-- **The first screen** of a body that has not grown is faithful. -/
theorem tailScreen_faithful {file : Bytes} {maxLines maxBytes : Int}
    (h : (tailScreen file file.length maxLines maxBytes).content ≠ []) :
    Event.Faithful file (tailScreen file file.length maxLines maxBytes) := by
  have hchunk : file.drop (file.length - maxBytes.toNat) <:+ file := List.drop_suffix _ _
  have hlength : (file.length : Int) - (file.drop (file.length - maxBytes.toNat)).length =
      (file.length - maxBytes.toNat : Nat) := by
    rw [List.length_drop]
    omega
  unfold tailScreen at h ⊢
  dsimp only at h ⊢
  split at h
  · rename_i hcut
    rw [← hlength]
    exact suffix_faithful hchunk fun hnil => h (Utf8.decode_eq_nil.mpr hnil)
  · rename_i trimmed hcut
    split at hcut
    · rename_i hpos
      have htrimmed := lastLines_suffix (Int.pos_iff_toNat_pos.mp hpos) hcut
      exact suffix_faithful (htrimmed.trans hchunk) fun hnil => h (Utf8.decode_eq_nil.mpr hnil)
    · cases hcut

/-! ### What a run keeps -/

/-- The offset behind which the consumer goes on. -/
def State.frontier (s : State) : Nat :=
  match s.append with
  | none => s.file.length
  | some w => w.startOffset + w.data.length

/-- What is on disk of an increment is the end of the body. -/
structure InFlight (file : Bytes) (w : Append) : Prop where
  length : w.startOffset + w.landed = file.length
  landed_le : w.landed ≤ w.data.length
  pos : 0 < w.data.length
  bytes : file.drop w.startOffset = w.data.take w.landed

/-- The bytes of the phase's cursor are on disk. -/
def Placed (s : State) : Phase → Prop
  | .idle => True
  | .opened => s.emitted = []
  | .screen fsize => s.emitted = [] ∧ fsize ≤ s.file.length
  | .sizing cursor | .backfilled cursor | .live cursor => cursor ≤ s.file.length
  | .backfill cursor sizeNow => cursor ≤ s.file.length ∧ sizeNow ≤ s.file.length

/-- The viewer has no use for events up to here: either it has sent what they
have, or it will read it. -/
def State.passed (s : State) : Nat :=
  match s.phase with
  | .live cursor => cursor
  | _ => s.unpublished

/-- Where the events to come lead on from: behind what the backfill is to read,
and behind the cursor once something was sent. -/
def Reach (limit : Int) (s : State) (a : Int) : Phase → Prop
  | .idle => True
  | .opened => a ≤ s.file.length
  | .screen fsize => a ≤ max fsize s.unpublished
  | .sizing cursor =>
      a ≤ s.file.length ∧ (s.emitted = [] ∨ a ≤ max cursor s.unpublished)
  | .backfill cursor sizeNow => a ≤ max sizeNow s.unpublished ∧
      (s.emitted = [] ∨ 0 < limit ∨ a ≤ max cursor s.unpublished)
  | .backfilled cursor => s.emitted = [] ∨ a ≤ max cursor s.unpublished
  | .live cursor => s.emitted = [] ∨ a = cursor

/-- Some events to come are passed; the others lead from `a` to the frontier. -/
def Tail (s : State) (a : Int) : Prop :=
  ∃ dup rest, s.coming = dup ++ rest ∧ (∀ ev ∈ dup, ev.endOffset ≤ s.passed) ∧
    Chained a rest s.frontier

def Phase.cursor? : Phase → Option Nat
  | .sizing cursor | .backfill cursor _ | .backfilled cursor | .live cursor => some cursor
  | _ => none

structure Inv (limit : Int) (s : State) : Prop where
  append : ∀ w, s.append = some w → InFlight s.file w
  queued : ∀ ev ∈ s.queue, ev.Faithful s.file
  emitted : ∀ ev ∈ s.emitted, ev.Faithful s.file
  unpublished : s.unpublished ≤ s.file.length
  placed : Placed s s.phase
  tail : s.phase ≠ .idle → ∃ a, Tail s a ∧ Reach limit s a s.phase
  sent : ∃ a b, Chained a s.emitted b ∧
    ∀ cursor, s.phase.cursor? = some cursor → s.emitted = [] ∨ b = cursor

section Steps

variable {limit : Int} {cfg : Settings} {s : State}

/-- The consumer has gone on and the body has grown. -/
theorem Placed.grow {s' : State} (h : Placed s s.phase) (hphase : s'.phase = s.phase)
    (hemitted : s'.emitted = s.emitted) (hlength : s.file.length ≤ s'.file.length) :
    Placed s' s'.phase := by
  rw [hphase]
  generalize s.phase = phase at h ⊢
  cases phase with
  | idle => trivial
  | opened => exact hemitted.trans h
  | screen fsize => exact ⟨hemitted.trans h.1, h.2.trans hlength⟩
  | sizing cursor => exact Nat.le_trans h hlength
  | backfill cursor sizeNow => exact ⟨h.1.trans hlength, h.2.trans hlength⟩
  | backfilled cursor => exact Nat.le_trans h hlength
  | live cursor => exact Nat.le_trans h hlength

theorem Reach.grow {s' : State} {a : Int} (h : Reach limit s a s.phase)
    (hphase : s'.phase = s.phase) (hemitted : s'.emitted = s.emitted)
    (hlength : s.file.length ≤ s'.file.length) (hunpublished : s'.unpublished = s.unpublished) :
    Reach limit s' a s'.phase := by
  rw [hphase]
  generalize s.phase = phase at h ⊢
  have hle : (s.file.length : Int) ≤ s'.file.length := Int.ofNat_le.mpr hlength
  cases phase with
  | idle => trivial
  | opened => exact Int.le_trans h hle
  | screen fsize =>
      rw [Reach, hunpublished]
      exact h
  | sizing cursor =>
      rw [Reach, hemitted, hunpublished]
      exact ⟨h.1.trans hle, h.2⟩
  | backfill cursor sizeNow =>
      rw [Reach, hemitted, hunpublished]
      exact h
  | backfilled cursor =>
      rw [Reach, hemitted, hunpublished]
      exact h
  | live cursor =>
      rw [Reach, hemitted]
      exact h

/-- **The consumer plans an increment** behind the frontier. -/
theorem Inv.begin (h : Inv limit s) (hnone : s.append = none) {data : Bytes} (hdata : data ≠ []) :
    Inv limit { s with append := some ⟨s.file.length, data, 0⟩ } where
  append := by
    intro w hw
    obtain rfl := Option.some.inj hw
    exact ⟨rfl, Nat.zero_le _, List.length_pos_of_ne_nil hdata, List.drop_length⟩
  queued := h.queued
  emitted := h.emitted
  unpublished := h.unpublished
  placed := h.placed.grow rfl rfl (le_refl _)
  sent := h.sent
  tail := by
    intro hphase
    obtain ⟨a, ⟨dup, rest, hcoming, hdup, hchain⟩, hreach⟩ := h.tail hphase
    have hfrontier : s.frontier = s.file.length := by rw [State.frontier, hnone]
    rw [hfrontier] at hchain
    refine ⟨a, ⟨dup, rest ++ [Append.event ⟨s.file.length, data, 0⟩], ?_, hdup, ?_⟩,
      hreach.grow rfl rfl (le_refl _) rfl⟩
    · rw [State.coming, hnone] at hcoming
      rw [← List.append_assoc, ← hcoming]
      simp [State.coming]
    · refine hchain.append (Spans.Chained.single rfl ?_)
      show (s.file.length : Int) < (s.file.length + data.length : Nat)
      have hpos : 0 < data.length := List.length_pos_of_ne_nil hdata
      omega

/-- **Bytes reach the disk.** -/
theorem Inv.land (h : Inv limit s) {w : Append} (hw : s.append = some w) (n : Nat) :
    Inv limit { s with
      file := s.file ++ (w.data.drop w.landed).take n
      append := some { w with landed := w.landed + ((w.data.drop w.landed).take n).length } } where
  append := by
    intro w' hw'
    obtain rfl := Option.some.inj hw'
    obtain ⟨hlength, hle, hpos, hbytes⟩ := h.append w hw
    refine ⟨?_, ?_, hpos, ?_⟩
    · show w.startOffset + (w.landed + _) = _
      rw [List.length_append, ← hlength, Nat.add_assoc]
    · show w.landed + _ ≤ w.data.length
      rw [List.length_take, List.length_drop]
      omega
    · show (s.file ++ _).drop w.startOffset = w.data.take (w.landed + _)
      have hdrop : w.startOffset ≤ s.file.length := by omega
      rw [List.drop_append_of_le_length hdrop, hbytes, List.take_add, List.length_take]
      refine congrArg _ (List.take_eq_take_iff.mpr ?_)
      rw [Nat.min_assoc, Nat.min_self]
  queued := fun ev hev => (h.queued ev hev).append _
  emitted := fun ev hev => (h.emitted ev hev).append _
  unpublished := by
    show s.unpublished ≤ (s.file ++ _).length
    rw [List.length_append]
    exact h.unpublished.trans (Nat.le_add_right _ _)
  placed := by
    refine h.placed.grow rfl rfl ?_
    rw [List.length_append]
    exact Nat.le_add_right _ _
  sent := h.sent
  tail := by
    intro hphase
    obtain ⟨a, ⟨dup, rest, hcoming, hdup, hchain⟩, hreach⟩ := h.tail hphase
    refine ⟨a, ⟨dup, rest, ?_, hdup, ?_⟩, hreach.grow rfl rfl ?_ rfl⟩
    · rw [← hcoming, State.coming, State.coming, hw]
      rfl
    · have hfrontier : s.frontier = w.startOffset + w.data.length := by rw [State.frontier, hw]
      rw [hfrontier] at hchain
      exact hchain
    · rw [List.length_append]
      exact Nat.le_add_right _ _

/-- **An increment is published** when all of it is on disk. -/
theorem Inv.publish (h : Inv limit s) {w : Append} (hw : s.append = some w)
    (hlanded : ¬ w.landed < w.data.length) :
    Inv limit { s with
      append := none
      queue := if s.phase = .idle then s.queue else s.queue ++ [w.event] } := by
  obtain ⟨hlength, hle, hpos, hbytes⟩ := h.append w hw
  have hall : w.landed = w.data.length := le_antisymm hle (not_lt.mp hlanded)
  have hfaithful : w.event.Faithful s.file := by
    refine ⟨w.startOffset, rfl, Nat.lt_add_of_pos_right hpos, ?_, ?_⟩
    · show w.startOffset + w.data.length ≤ s.file.length
      omega
    · show Utf8.decode w.data = _
      rw [hbytes, hall, List.take_length]
      show _ = Utf8.decode (w.data.take (w.startOffset + w.data.length - w.startOffset))
      rw [Nat.add_sub_cancel_left, List.take_length]
  constructor
  case append =>
    intro w' hw'
    cases hw'
  case queued =>
    intro ev hev
    dsimp only at hev
    split at hev
    · exact h.queued ev hev
    · rcases List.mem_append.mp hev with hev | hev
      · exact h.queued ev hev
      · obtain rfl := List.mem_singleton.mp hev
        exact hfaithful
  case emitted => exact h.emitted
  case unpublished => exact h.unpublished
  case placed => exact h.placed.grow rfl rfl (le_refl _)
  case sent => exact h.sent
  case tail =>
    intro hphase
    obtain ⟨a, ⟨dup, rest, hcoming, hdup, hchain⟩, hreach⟩ := h.tail hphase
    refine ⟨a, ⟨dup, rest, ?_, hdup, ?_⟩, hreach.grow rfl rfl (le_refl _) rfl⟩
    · rw [← hcoming, State.coming, State.coming, hw]
      dsimp only
      rw [if_neg hphase]
      exact List.append_nil _
    · have hfrontier : s.frontier = s.file.length := by
        rw [State.frontier, hw]
        show w.startOffset + w.data.length = s.file.length
        omega
      rw [hfrontier] at hchain
      exact hchain

theorem Inv.passed_le (h : Inv limit s) : s.passed ≤ s.file.length := by
  have hplaced := h.placed
  unfold State.passed
  generalize s.phase = phase at hplaced ⊢
  cases phase with
  | live cursor => exact hplaced
  | idle | opened | screen _ | sizing _ | backfill _ _ | backfilled _ => exact h.unpublished

/-- **An increment fails** of which nothing has reached the disk. -/
theorem Inv.raise_none (h : Inv limit s) {w : Append} (hw : s.append = some w)
    (hlanded : w.landed = 0) : Inv limit { s with append := none } where
  append := by
    intro w' hw'
    cases hw'
  queued := h.queued
  emitted := h.emitted
  unpublished := h.unpublished
  placed := h.placed.grow rfl rfl (le_refl _)
  sent := h.sent
  tail := by
    intro hphase
    obtain ⟨a, ⟨dup, rest, hcoming, hdup, hchain⟩, hreach⟩ := h.tail hphase
    obtain ⟨hlength, -, hpos, -⟩ := h.append w hw
    rw [State.coming, hw] at hcoming
    change s.queue ++ [w.event] = dup ++ rest at hcoming
    rcases List.eq_nil_or_concat rest with rfl | ⟨rest, last, rfl⟩
    · -- the increment ends behind the body, and is not passed
      exfalso
      rw [List.append_nil] at hcoming
      have hend : w.startOffset + w.data.length ≤ s.passed :=
        hdup w.event (hcoming ▸ List.mem_append_right _ (List.mem_singleton_self _))
      have hle := h.passed_le
      omega
    · rw [List.concat_eq_append, ← List.append_assoc] at hcoming
      obtain ⟨hqueue, hlast⟩ := List.append_inj' hcoming rfl
      obtain rfl := (List.cons.inj hlast).1
      rw [List.concat_eq_append] at hchain
      obtain ⟨b, hrest, hb, -⟩ := hchain.split
      refine ⟨a, ⟨dup, rest, ?_, hdup, ?_⟩, hreach.grow rfl rfl (le_refl _) rfl⟩
      · rw [← hqueue]
        exact List.append_nil _
      · have hfrontier : b = s.file.length := by
          rw [← hb]
          show (w.startOffset : Int) = _
          omega
        rw [hfrontier] at hrest
        exact hrest

/-- **An increment fails** of which something has reached the disk: whoever still
backfills will read it. -/
theorem Inv.raise_some (h : Inv limit s) (hlive : ∀ cursor, s.phase ≠ .live cursor) :
    Inv limit { s with append := none, unpublished := s.file.length } where
  append := by
    intro w' hw'
    cases hw'
  queued := h.queued
  emitted := h.emitted
  unpublished := le_refl _
  placed := h.placed.grow rfl rfl (le_refl _)
  sent := h.sent
  tail := by
    intro _
    refine ⟨s.file.length, ⟨s.queue, [], rfl, ?_, .refl _⟩, ?_⟩
    · intro ev hev
      obtain ⟨first, -, -, hle, -⟩ := h.queued ev hev
      refine hle.trans (le_of_eq ?_)
      unfold State.passed
      generalize s.phase = phase at hlive ⊢
      cases phase with
      | live cursor => exact absurd rfl (hlive cursor)
      | idle | opened | screen _ | sizing _ | backfill _ _ | backfilled _ => rfl
    · have hmax : ∀ n : Nat, (s.file.length : Int) ≤ (max n s.file.length : Nat) :=
        fun n => Int.ofNat_le.mpr (Nat.le_max_right n _)
      show Reach limit _ _ s.phase
      generalize s.phase = phase at hlive ⊢
      cases phase with
      | idle => trivial
      | opened => exact le_refl _
      | screen fsize => exact hmax fsize
      | sizing cursor => exact ⟨le_refl _, .inr (hmax cursor)⟩
      | backfill cursor sizeNow => exact ⟨hmax sizeNow, .inr (.inr (hmax cursor))⟩
      | backfilled cursor => exact .inr (hmax cursor)
      | live cursor => exact absurd rfl (hlive cursor)

/-- **The viewer subscribes.**  What is being written will come. -/
theorem Inv.subscribe (h : Inv limit s) {phase : Phase}
    (hphase : phase = .opened ∨ ∃ offset, phase = .sizing offset ∧ offset ≤ s.file.length) :
    Inv limit { s with phase := phase, queue := [], emitted := [], unpublished := 0 } where
  append := h.append
  queued := fun ev hev => absurd hev List.not_mem_nil
  emitted := fun ev hev => absurd hev List.not_mem_nil
  unpublished := Nat.zero_le _
  placed := by
    rcases hphase with rfl | ⟨offset, rfl, hoffset⟩
    · rfl
    · exact hoffset
  sent := ⟨0, 0, rfl, fun _ _ => .inl rfl⟩
  tail := by
    intro _
    have hreach : ∀ a : Int, a ≤ s.file.length →
        Reach limit { s with phase := phase, queue := [], emitted := [], unpublished := 0 } a
          phase := by
      intro a ha
      rcases hphase with rfl | ⟨offset, rfl, -⟩
      · exact ha
      · exact ⟨ha, .inl rfl⟩
    cases hw : s.append with
    | none =>
        exact ⟨s.file.length, ⟨[], [], rfl, fun ev hev => absurd hev List.not_mem_nil, .refl _⟩,
          hw ▸ hreach _ (le_refl _)⟩
    | some w =>
        obtain ⟨hlength, -, hpos, -⟩ := h.append w hw
        refine ⟨w.startOffset, ⟨[], [w.event], rfl, fun ev hev => absurd hev List.not_mem_nil, ?_⟩,
          hw ▸ hreach _ ?_⟩
        · refine Spans.Chained.single rfl ?_
          show (w.startOffset : Int) < (w.startOffset + w.data.length : Nat)
          omega
        · omega

/-- **The viewer goes on** before it serves the queue. -/
theorem Inv.advance (h : Inv limit s) {phase : Phase} (emitted : List Event)
    (hbefore : s.phase ≠ .idle ∧ ∀ cursor, s.phase ≠ .live cursor ∧ phase ≠ .live cursor)
    (hemitted : ∀ ev ∈ emitted, ev.Faithful s.file)
    (hplaced : Placed { s with phase := phase, emitted := emitted } phase)
    (hreach : ∀ a, Reach limit s a s.phase →
      Reach limit { s with phase := phase, emitted := emitted } a phase)
    (hsent : ∃ a b, Chained a emitted b ∧
      ∀ cursor, phase.cursor? = some cursor → emitted = [] ∨ b = cursor) :
    Inv limit { s with phase := phase, emitted := emitted } where
  append := h.append
  queued := h.queued
  emitted := hemitted
  unpublished := h.unpublished
  placed := hplaced
  sent := hsent
  tail := by
    intro _
    obtain ⟨hidle, hlive⟩ := hbefore
    obtain ⟨a, ⟨dup, rest, hcoming, hdup, hchain⟩, ha⟩ := h.tail hidle
    have hpassed : ∀ {s : State}, (∀ cursor, s.phase ≠ .live cursor) → s.passed = s.unpublished := by
      intro s hs
      unfold State.passed
      split
      · rename_i cursor hcursor
        exact absurd hcursor (hs cursor)
      · rfl
    refine ⟨a, ⟨dup, rest, hcoming, ?_, hchain⟩, hreach a ha⟩
    rw [hpassed fun cursor => (hlive cursor).1] at hdup
    rw [hpassed fun cursor => (hlive cursor).2]
    exact hdup

theorem Inv.stat (h : Inv limit s) (hphase : s.phase = .opened) :
    Inv limit { s with
      phase := if s.file.length = 0 then .sizing 0 else .screen s.file.length } := by
  have hnone : s.emitted = [] := by
    have hplaced := h.placed
    rw [hphase] at hplaced
    exact hplaced
  refine h.advance s.emitted ⟨?_, fun cursor => ⟨?_, ?_⟩⟩ h.emitted ?_ ?_
    ⟨0, 0, ?_, fun _ _ => .inl hnone⟩
  · rw [hphase]
    exact Phase.noConfusion
  · rw [hphase]
    exact Phase.noConfusion
  · split
    · exact Phase.noConfusion
    · exact Phase.noConfusion
  · split
    · exact Nat.zero_le _
    · exact ⟨hnone, le_refl _⟩
  · intro a ha
    rw [hphase] at ha
    split
    · exact ⟨ha, .inl hnone⟩
    · exact Int.le_trans ha (Int.ofNat_le.mpr (Nat.le_max_left _ _))
  · rw [hnone]
    exact .refl 0

/-- **The first screen** is read from a body that has not grown. -/
theorem Inv.readScreen (h : Inv limit s) {fsize : Nat} (hphase : s.phase = .screen fsize)
    (hsize : s.file.length = fsize) {maxLines maxBytes : Int} {ev : Event}
    (hev : ev = tailScreen s.file fsize maxLines maxBytes) :
    Inv limit (if ev.content = [] then { s with phase := .sizing fsize }
      else { s with phase := .sizing fsize }.emit ev) := by
  have hnone : s.emitted = [] := by
    have hplaced := h.placed
    rw [hphase] at hplaced
    exact hplaced.1
  have hbefore : s.phase ≠ .idle ∧
      ∀ cursor, s.phase ≠ .live cursor ∧ Phase.sizing fsize ≠ .live cursor := by
    rw [hphase]
    exact ⟨Phase.noConfusion, fun _ => ⟨Phase.noConfusion, Phase.noConfusion⟩⟩
  have hreach : ∀ (emitted : List Event) (a : Int), Reach limit s a s.phase →
      Reach limit { s with phase := .sizing fsize, emitted := emitted } a (.sizing fsize) := by
    intro emitted a ha
    rw [hphase] at ha
    refine ⟨Int.le_trans ha (Int.ofNat_le.mpr ?_), .inr ha⟩
    exact Nat.max_le.mpr ⟨hsize.ge, h.unpublished⟩
  split
  · refine h.advance s.emitted hbefore h.emitted hsize.ge (hreach s.emitted)
      ⟨0, 0, ?_, fun _ _ => .inl hnone⟩
    rw [hnone]
    exact .refl 0
  · rename_i hcontent
    have hfaithful : ev.Faithful s.file := by
      subst hev hsize
      exact tailScreen_faithful hcontent
    have hend : ev.endOffset = fsize := by
      rw [hev, tailScreen]
      split
      · rfl
      · rfl
    refine h.advance (s.emitted ++ [ev]) hbefore ?_ hsize.ge (hreach _)
      ⟨ev.startOffset, ev.endOffset, ?_, ?_⟩
    · rw [hnone]
      intro ev' hev'
      obtain rfl := List.mem_singleton.mp hev'
      exact hfaithful
    · obtain ⟨first, hfirst, hlt, -⟩ := hfaithful
      rw [hnone]
      refine Spans.Chained.single rfl ?_
      rw [hfirst]
      exact Int.ofNat_lt.mpr hlt
    · intro cursor hcursor
      obtain rfl := Option.some.inj hcursor
      exact .inr (congrArg _ hend)

theorem Inv.size (h : Inv limit s) {cursor : Nat} (hphase : s.phase = .sizing cursor) :
    Inv limit { s with phase := .backfill cursor s.file.length } := by
  have hplaced := h.placed
  have hsent := h.sent
  rw [hphase] at hplaced hsent
  refine h.advance s.emitted ?_ h.emitted ⟨hplaced, le_refl _⟩ ?_ hsent
  · rw [hphase]
    exact ⟨Phase.noConfusion, fun _ => ⟨Phase.noConfusion, Phase.noConfusion⟩⟩
  · intro a ha
    rw [hphase] at ha
    obtain ⟨hle, hcursor⟩ := ha
    refine ⟨Int.le_trans hle (Int.ofNat_le.mpr (Nat.le_max_left _ _)), ?_⟩
    rcases hcursor with hnone | hcursor
    · exact .inl hnone
    · exact .inr (.inr hcursor)

/-- **The backfill** sends a slice, which begins at the cursor. -/
theorem Inv.slice (h : Inv limit s) {cursor sizeNow first last : Nat} {text : List Char}
    (hphase : s.phase = .backfill cursor sizeNow) (hlimit : cursor < last → 0 < limit)
    (hslice : cursor < last → first = cursor ∧ Event.Faithful s.file ⟨first, last, text⟩)
    (hlast : cursor < last) :
    Inv limit ({ s with phase := .backfill last sizeNow }.emit ⟨first, last, text⟩) := by
  have hplaced := h.placed
  obtain ⟨a, b, hchain, hb⟩ := h.sent
  rw [hphase] at hplaced hb
  obtain ⟨rfl, hfaithful⟩ := hslice hlast
  have hone : Chained first [⟨first, last, text⟩] last :=
    Spans.Chained.single rfl (Int.ofNat_lt.mpr hlast)
  refine h.advance (s.emitted ++ [_]) ?_ ?_ ⟨?_, hplaced.2⟩ ?_ ?_
  · rw [hphase]
    exact ⟨Phase.noConfusion, fun _ => ⟨Phase.noConfusion, Phase.noConfusion⟩⟩
  · intro ev hev
    rcases List.mem_append.mp hev with hev | hev
    · exact h.emitted ev hev
    · obtain rfl := List.mem_singleton.mp hev
      exact hfaithful
  · obtain ⟨-, -, -, hle, -⟩ := hfaithful
    exact hle
  · intro a ha
    rw [hphase] at ha
    exact ⟨ha.1, .inr (.inl (hlimit hlast))⟩
  · have hcursor : ∀ cursor, (Phase.backfill last sizeNow).cursor? = some cursor →
        s.emitted ++ [⟨first, last, text⟩] = [] ∨ (last : Int) = cursor := by
      intro cursor hcursor
      obtain rfl := Option.some.inj hcursor
      exact .inr rfl
    rcases hb first rfl with hnone | rfl
    · refine ⟨first, last, ?_, hcursor⟩
      rw [hnone]
      exact hone
    · exact ⟨a, last, hchain.append hone, hcursor⟩

/-- The backfill ends at the size it was to reach, unless it reads nothing. -/
theorem Inv.endBackfill (h : Inv limit s) {cursor sizeNow : Nat}
    (hphase : s.phase = .backfill cursor sizeNow) (hend : sizeNow ≤ cursor ∨ ¬ 0 < limit) :
    Inv limit { s with phase := .backfilled cursor } := by
  have hplaced := h.placed
  have hsent := h.sent
  rw [hphase] at hplaced hsent
  refine h.advance s.emitted ?_ h.emitted hplaced.1 ?_ hsent
  · rw [hphase]
    exact ⟨Phase.noConfusion, fun _ => ⟨Phase.noConfusion, Phase.noConfusion⟩⟩
  · intro a ha
    rw [hphase] at ha
    obtain ⟨hsize, hnone | hlimit | hcursor⟩ := ha
    · exact .inl hnone
    · refine .inr (Int.le_trans hsize (Int.ofNat_le.mpr ?_))
      have hle : sizeNow ≤ cursor := hend.resolve_right fun hnot => hnot hlimit
      exact Nat.max_le.mpr ⟨hle.trans (Nat.le_max_left _ _), Nat.le_max_right _ _⟩
    · exact .inr hcursor

/-- **The viewer turns to the queue** where no event to come is cut. -/
theorem Inv.serve (h : Inv limit s) {cursor : Nat} (hphase : s.phase = .backfilled cursor)
    (hpublished : s.unpublished ≤ cursor)
    (hcut : ∀ ev ∈ s.coming, ¬ (ev.startOffset < cursor ∧ cursor < ev.endOffset)) :
    Inv limit { s with phase := .live cursor } := by
  have hplaced := h.placed
  have hsent := h.sent
  have hidle : s.phase ≠ .idle := by
    rw [hphase]
    exact Phase.noConfusion
  obtain ⟨a, ⟨dup, rest, hcoming, hdup, hchain⟩, hreach⟩ := h.tail hidle
  rw [State.passed, hphase] at hdup
  rw [hphase] at hplaced hsent hreach
  have hpassed : ∀ ev ∈ dup, ev.endOffset ≤ cursor := fun ev hev => (hdup ev hev).trans hpublished
  refine { h with placed := hplaced, sent := hsent, tail := fun _ => ?_ }
  by_cases ha : a ≤ cursor
  · have hfrontier : (cursor : Int) ≤ s.frontier := by
      have hle : s.file.length ≤ s.frontier := by
        unfold State.frontier
        split
        · exact le_refl _
        · rename_i w hw
          obtain ⟨hlength, hlanded, -, -⟩ := h.append w hw
          omega
      exact Int.ofNat_le.mpr (Nat.le_trans hplaced hle)
    obtain ⟨l₁, l₂, rfl, h₁, h₂⟩ := hchain.cut ha hfrontier fun ev hev hlt => by
      refine hcut ev (hcoming ▸ List.mem_append_right dup hev) ⟨hlt.1, ?_⟩
      exact Int.ofNat_lt.mp hlt.2
    refine ⟨cursor, ⟨dup ++ l₁, l₂, ?_, ?_, h₂⟩, .inr rfl⟩
    · rw [List.append_assoc]
      exact hcoming
    · intro ev hev
      rcases List.mem_append.mp hev with hev | hev
      · exact hpassed ev hev
      · exact Int.ofNat_le.mp (h₁.stop_le hev)
  · -- nothing was sent, and the events to come begin behind the cursor
    refine ⟨a, ⟨dup, rest, hcoming, hpassed, hchain⟩, .inl ?_⟩
    refine hreach.resolve_right fun hle => ha ?_
    rw [Nat.max_eq_left hpublished] at hle
    exact hle

/-- **An event of the queue** is passed or sent. -/
theorem Inv.deliver (h : Inv limit s) {cursor : Nat} {ev : Event} {queue : List Event}
    (hphase : s.phase = .live cursor) (hqueue : s.queue = ev :: queue) :
    Inv limit (if ev.endOffset ≤ cursor then { s with queue := queue }
      else { s with queue := queue, phase := .live ev.endOffset }.emit ev) := by
  have hplaced := h.placed
  obtain ⟨b, c, hsent, hc⟩ := h.sent
  have hqueued : ∀ ev' ∈ queue, ev'.Faithful s.file := fun ev' hev' =>
    h.queued ev' (hqueue ▸ List.mem_cons_of_mem ev hev')
  have hfaithful : ev.Faithful s.file := h.queued ev (hqueue ▸ List.mem_cons_self)
  have hidle : s.phase ≠ .idle := by
    rw [hphase]
    exact Phase.noConfusion
  obtain ⟨a, ⟨dup, rest, hcoming, hdup, hchain⟩, hreach⟩ := h.tail hidle
  have hpassed : s.passed = cursor := by rw [State.passed, hphase]
  rw [hpassed] at hdup
  rw [State.coming, hqueue, List.cons_append] at hcoming
  split
  · rename_i hle
    have hpassed' : State.passed { s with queue := queue } = cursor := hpassed
    refine { h with queued := hqueued, tail := fun _ => ?_ }
    cases dup with
    | cons d dup =>
        obtain ⟨rfl, htail⟩ := List.cons.inj hcoming
        refine ⟨a, ⟨dup, rest, htail, fun ev' hev' => ?_, hchain⟩,
          hreach.grow rfl rfl (le_refl _) rfl⟩
        rw [hpassed']
        exact hdup ev' (List.mem_cons_of_mem ev hev')
    | nil =>
        cases rest with
        | nil => cases hcoming
        | cons x rest =>
            obtain ⟨rfl, htail⟩ := List.cons.inj hcoming
            obtain ⟨-, hlt, hrest⟩ := hchain
            refine ⟨ev.endOffset, ⟨[], rest, htail, fun ev' hev' => absurd hev' List.not_mem_nil,
              hrest⟩, ?_⟩
            show Reach limit _ _ s.phase
            rw [hphase] at hreach ⊢
            rcases hreach with hnone | rfl
            · exact .inl hnone
            · exact absurd hle (Nat.not_le.mpr (Int.ofNat_lt.mp hlt))
  · rename_i hle
    cases dup with
    | cons d dup =>
        obtain ⟨rfl, -⟩ := List.cons.inj hcoming
        exact absurd (hdup ev List.mem_cons_self) hle
    | nil =>
        cases rest with
        | nil => cases hcoming
        | cons x rest =>
            obtain ⟨rfl, htail⟩ := List.cons.inj hcoming
            obtain ⟨hstart, hlt, hrest⟩ := hchain
            rw [hphase] at hreach hc
            have hone : Chained a [ev] ev.endOffset := Spans.Chained.single hstart hlt
            obtain ⟨first, -, -, hend, -⟩ := hfaithful
            have hfaithful := h.queued ev (hqueue ▸ List.mem_cons_self)
            constructor
            case append => exact h.append
            case queued => exact hqueued
            case unpublished => exact h.unpublished
            case placed => exact hend
            case emitted =>
              intro ev' hev'
              rcases List.mem_append.mp hev' with hev' | hev'
              · exact h.emitted ev' hev'
              · obtain rfl := List.mem_singleton.mp hev'
                exact hfaithful
            case tail =>
              intro _
              exact ⟨ev.endOffset, ⟨[], rest, htail,
                fun ev' hev' => absurd hev' List.not_mem_nil, hrest⟩, .inr rfl⟩
            case sent =>
              have hcursor : ∀ cursor, (Phase.live ev.endOffset).cursor? = some cursor →
                  s.emitted ++ [ev] = [] ∨ (ev.endOffset : Int) = cursor := by
                intro cursor hcursor
                obtain rfl := Option.some.inj hcursor
                exact .inr rfl
              by_cases hnone : s.emitted = []
              · refine ⟨a, ev.endOffset, ?_, hcursor⟩
                show Chained a (s.emitted ++ [ev]) _
                rw [hnone]
                exact hone
              · -- what was sent ends at the cursor, where the event begins
                obtain rfl := hreach.resolve_left hnone
                obtain rfl := (hc cursor rfl).resolve_left hnone
                exact ⟨b, ev.endOffset, hsent.append hone, hcursor⟩

/-- The viewer leaves. -/
theorem Inv.close (h : Inv limit s) : Inv limit { s with phase := .idle } where
  append := h.append
  queued := h.queued
  emitted := h.emitted
  unpublished := h.unpublished
  placed := trivial
  tail := fun hidle => absurd rfl hidle
  sent := by
    obtain ⟨a, b, hchain, -⟩ := h.sent
    exact ⟨a, b, hchain, fun cursor hcursor => by cases hcursor⟩

/-- **One step** that meets the conditions keeps the invariant. -/
theorem Inv.step (h : Inv cfg.maxTailBytesPerPull s) {a : Action} (ha : Undisturbed s a)
    {s' : State} (hs : step cfg s a = some s') : Inv cfg.maxTailBytesPerPull s' := by
  cases a with
  | begin payload gauge =>
      rw [LiveLog.step] at hs
      split at hs
      · cases hs
      · rename_i hnone
        dsimp only at hs
        split at hs
        · obtain rfl := Option.some.inj hs
          exact h
        · rename_i hdata
          obtain rfl := Option.some.inj hs
          exact h.begin (Option.not_isSome_iff_eq_none.mp hnone) hdata
  | land n =>
      obtain ⟨w, hw, rfl⟩ := Option.map_eq_some_iff.mp hs
      exact h.land hw n
  | publish =>
      rw [LiveLog.step] at hs
      split at hs
      · cases hs
      · rename_i w hw
        split at hs
        · cases hs
        · rename_i hlanded
          obtain rfl := Option.some.inj hs
          exact h.publish hw hlanded
  | raise =>
      obtain ⟨w, hw, rfl⟩ := Option.map_eq_some_iff.mp hs
      split
      · rename_i hlanded
        exact h.raise_none hw hlanded
      · rename_i hlanded
        exact h.raise_some fun cursor hlive => hlanded (ha w hw (by rw [hlive]; rfl))
  | subscribe resume =>
      unfold LiveLog.step at hs
      dsimp only at hs
      split at hs
      · cases hs
      · rename_i hguard
        obtain ⟨-, hoffset⟩ := not_or.mp hguard
        obtain rfl := Option.some.inj hs
        refine h.subscribe ?_
        cases resume with
        | none => exact .inl rfl
        | some offset => exact .inr ⟨offset, rfl, Nat.le_of_not_lt hoffset⟩
  | stat =>
      rw [LiveLog.step] at hs
      split at hs
      · rename_i hphase
        obtain rfl := Option.some.inj hs
        exact h.stat hphase
      · cases hs
  | readScreen =>
      rw [LiveLog.step] at hs
      split at hs
      · rename_i fsize hphase
        obtain rfl := Option.some.inj hs
        exact h.readScreen hphase (ha fsize hphase) rfl
      · cases hs
  | size =>
      rw [LiveLog.step] at hs
      split at hs
      · rename_i cursor hphase
        obtain rfl := Option.some.inj hs
        exact h.size hphase
      · cases hs
  | slice =>
      rw [LiveLog.step] at hs
      split at hs
      · rename_i cursor sizeNow hphase
        have hplaced := h.placed
        rw [hphase] at hplaced
        split at hs
        · rename_i hmore
          dsimp only at hs
          split at hs
          · rename_i hlast
            obtain rfl := Option.some.inj hs
            -- a slice of positive length is not empty
            refine h.endBackfill hphase (.inr fun hlimit => ?_)
            exact absurd (readSlice_lt (Nat.lt_of_lt_of_le hmore hplaced.2) hlimit)
              (Nat.not_lt.mpr hlast)
          · rename_i hlast
            obtain rfl := Option.some.inj hs
            exact h.slice hphase readSlice_pos (readSlice_faithful hplaced.1)
              (Nat.lt_of_not_le hlast)
        · rename_i hdone
          obtain rfl := Option.some.inj hs
          exact h.endBackfill hphase (.inl (Nat.le_of_not_lt hdone))
      · cases hs
  | serve =>
      rw [LiveLog.step] at hs
      split at hs
      · rename_i cursor hphase
        obtain rfl := Option.some.inj hs
        obtain ⟨hpublished, hcut⟩ := ha cursor hphase
        exact h.serve hphase hpublished hcut
      · cases hs
  | deliver =>
      rw [LiveLog.step] at hs
      split at hs
      · rename_i cursor ev queue hphase hqueue
        have hstep := h.deliver hphase hqueue
        split at hs
        · rename_i hle
          obtain rfl := Option.some.inj hs
          rw [if_pos hle] at hstep
          exact hstep
        · rename_i hle
          obtain rfl := Option.some.inj hs
          rw [if_neg hle] at hstep
          exact hstep
      · cases hs
  | close =>
      obtain rfl := Option.some.inj hs
      exact h.close

end Steps

/-! ### Runs -/

theorem Inv.start (limit : Int) (file : Bytes) : Inv limit (start file) where
  append := by
    intro w hw
    cases hw
  queued := fun ev hev => absurd hev List.not_mem_nil
  emitted := fun ev hev => absurd hev List.not_mem_nil
  unpublished := Nat.zero_le _
  placed := trivial
  tail := fun hidle => absurd rfl hidle
  sent := ⟨0, 0, rfl, fun _ _ => .inl rfl⟩

/-- **Every byte is sent once**, from the first that is sent to the last. -/
structure ExactlyOnce (file : Bytes) (l : List Event) : Prop where
  /-- Each event begins where the one before it has ended. -/
  contiguous : ∃ a b, Chained a l b
  once : ∀ x y, l.head? = some x → l.getLast? = some y → ∀ n : Int, x.startOffset ≤ n →
    n < y.endOffset →
      l.countP (Spans.covers Event.startOffset (fun ev => (ev.endOffset : Int)) n) = 1
  faithful : ∀ ev ∈ l, ev.Faithful file

/-- **What a viewer is sent has contiguous spans, and the bytes of its spans.** -/
theorem spans_exactly_once (cfg : Settings) (file : Bytes) {s : State}
    (hrun : StateMachine.RunOk (step cfg) Undisturbed (start file) s) :
    ExactlyOnce s.file s.emitted := by
  have hinv : Inv cfg.maxTailBytesPerPull s :=
    hrun.invariant (fun _ _ _ h ha hs => h.step ha hs) (Inv.start _ file)
  obtain ⟨a, b, hchain, -⟩ := hinv.sent
  refine ⟨⟨a, b, hchain⟩, ?_, hinv.emitted⟩
  intro x y hx hy n hxn hny
  exact hchain.count_eq_one ((hchain.head_eq hx).symm.trans_le hxn)
    (hny.trans_eq (hchain.last_eq hy))

/-! ### A slice that cuts an increment -/

instance (s : State) : (a : Action) → Decidable (Undisturbed s a)
  | .readScreen =>
      match h : s.phase with
      | .screen fsize =>
          decidable_of_iff (s.file.length = fsize)
            ⟨fun hsize fsize' h' => by
              obtain rfl := Phase.screen.inj (h.symm.trans h')
              exact hsize, fun hall => hall fsize h⟩
      | .idle | .opened | .sizing _ | .backfill _ _ | .backfilled _ | .live _ =>
          isTrue fun fsize h' => by
            rw [h] at h'
            cases h'
  | .serve =>
      match h : s.phase with
      | .backfilled cursor =>
          decidable_of_iff (s.unpublished ≤ cursor ∧
              ∀ ev ∈ s.coming, ¬ (ev.startOffset < cursor ∧ cursor < ev.endOffset))
            ⟨fun hcut cursor' h' => by
              obtain rfl := Phase.backfilled.inj (h.symm.trans h')
              exact hcut, fun hall => hall cursor h⟩
      | .idle | .opened | .screen _ | .sizing _ | .backfill _ _ | .live _ =>
          isTrue fun cursor h' => by
            rw [h] at h'
            cases h'
  | .raise =>
      match h : s.append with
      | none => isTrue fun w h' => by
          rw [h] at h'
          cases h'
      | some w =>
          decidable_of_iff (s.phase.isLive = true → w.landed = 0)
            ⟨fun hlanded w' h' => by
              obtain rfl := Option.some.inj (h.symm.trans h')
              exact hlanded, fun hall => hall w h⟩
  | .begin _ _ | .land _ | .publish | .subscribe _ | .stat | .size | .slice | .deliver | .close =>
      inferInstanceAs (Decidable True)

/-- Slices of two bytes. -/
def sampleSettings : Settings where
  maxFileBytes := 0
  maxTailBytesPerPull := 2
  firstScreenMaxLines := 2000
  firstScreenMaxBytes := 1048576

/-- An increment of three bytes is written and published. -/
def sampleIncrement : List Action := [.begin [100, 101, 102] none, .land 3, .publish]

/-- A body of three bytes is sent, and what comes after it. -/
theorem spans_exactly_once_sample : ∃ s : State, ExactlyOnce s.file s.emitted ∧
    s.emitted.map (fun ev => (ev.startOffset, ev.endOffset)) = [(0, 2), (2, 3), (3, 6)] := by
  obtain ⟨s, hrun, hs⟩ := StateMachine.RunOk.exists_of_checkedRun (step sampleSettings) Undisturbed
    (start [97, 98, 99])
    ([.subscribe (some 0), .size, .slice, .slice, .slice, .serve] ++ sampleIncrement ++ [.deliver])
    (fun s => decide (s.emitted.map (fun ev => (ev.startOffset, ev.endOffset)) =
      [(0, 2), (2, 3), (3, 6)])) (by decide +kernel)
  exact ⟨s, spans_exactly_once sampleSettings [97, 98, 99] hrun, of_decide_eq_true hs⟩

/-- **An increment that arrives during the backfill is cut by its last slice, and
then sent as a whole.** -/
theorem not_spans_exactly_once : ¬ ∀ (cfg : Settings) (file : Bytes) (s : State),
    StateMachine.Run (step cfg) (start file) s → ExactlyOnce s.file s.emitted := by
  intro h
  have hrun : ((StateMachine.runList (step sampleSettings) (start [97, 98, 99])
      ([.subscribe (some 0), .size] ++ sampleIncrement ++
        [.slice, .slice, .slice, .serve, .deliver])).any fun s => decide (s.emitted =
          [⟨0, 2, ['a', 'b']⟩, ⟨2, 4, ['c', 'd']⟩, ⟨3, 6, ['d', 'e', 'f']⟩])) = true := by
    decide +kernel
  obtain ⟨s, hs, hemitted⟩ := (Option.any_eq_true _ _).mp hrun
  obtain ⟨a, b, hchain⟩ :=
    (h sampleSettings [97, 98, 99] s (StateMachine.Run.of_runList hs)).contiguous
  rw [of_decide_eq_true hemitted] at hchain
  obtain ⟨-, -, -, -, hstart, -⟩ := hchain
  cases hstart

end LiveLog

end Dopilot
