/-
Dopilot/JobLogs.lean

The local `job.log` of an attempt, and those who keep it within its cap.

The flood watchdog and the janitor cut a file that is too long back to its cap
and write a line behind it.  They differ in when they find it too long, at the
cap or above it, and in which line they take for one of theirs.  The output of
a wheel's child is capped as it is written: `drain` reads the child's pipe and
writes what it reads, up to the cap.
-/
import Dopilot.CapMarkers

namespace Dopilot

namespace JobLogs

/-! ### Truncation -/

/-- The line behind a job log that was cut: `_flood_marker` of the watchdog,
`_LOG_CAP_MARKER` of the janitor, `_job_log_truncation_marker` of the wheel runner. -/
def jobLogMarker (cap : Nat) : Bytes :=
  encode ("\n[dopilot:job-log-truncated max_bytes=" ++ toString cap ++ " reason=size-cap]\n")

/-- The line is one that `already_capped` knows. -/
theorem isCapMarker_jobLogMarker (cap : Nat) : isCapMarker (jobLogMarker cap) = true := by
  have hline : jobLogMarker cap = encode "\n[dopilot:job-log-truncated " ++
      ((encode "max_bytes=" ++ (encode (toString cap) ++ encode " reason=size-cap")) ++
        encode "]\n") := by
    have hhead : encode "\n[dopilot:job-log-truncated max_bytes=" =
        encode "\n[dopilot:job-log-truncated " ++ encode "max_bytes=" := by decide +kernel
    have htail : encode " reason=size-cap]\n" = encode " reason=size-cap" ++ encode "]\n" := by
      decide +kernel
    simp only [jobLogMarker, encode_append, hhead, htail, List.append_assoc]
  rw [hline]
  exact isCapMarker_fields true (plain_fields (by decide) cap)

/-- Cut the file at the cap and write the line. -/
def cutBack (cap : Nat) (body : Bytes) : Bytes := body.take cap ++ jobLogMarker cap

/-- `_truncate_local_log`, of the flood watchdog; `none` is a file whose size cannot be told. -/
def truncateLocalLog (cap : Nat) : Option Bytes → Option Bytes
  | none => none
  | some body =>
      if cap = 0 then some body
      else if body.length < cap then some body
      else if body.length = cap + (jobLogMarker cap).length ∧
          (body.drop cap).take (jobLogMarker cap).length = jobLogMarker cap then
        -- already exactly cap + marker
        some body
      else some (cutBack cap body)

/-- `_truncate_log`, of the janitor: the file, and its length if it was cut. -/
def truncateLog (cap : Nat) : Option Bytes → Option Bytes × Nat
  | none => (none, 0)
  | some body =>
      if body.length ≤ cap ∨ alreadyCapped body cap true = true then (some body, 0)
      else (some (cutBack cap body), cap + (jobLogMarker cap).length)

/-- Who cuts. -/
inductive Truncator where
  | watchdog
  | janitor
  deriving DecidableEq, Repr

/-- One pass of a truncator over a file. -/
def pass (cap : Nat) : Truncator → Option Bytes → Option Bytes
  | .watchdog, file => truncateLocalLog cap file
  | .janitor, file => (truncateLog cap file).1

/-- Passes one after the other. -/
def passes (cap : Nat) (order : List Truncator) (file : Option Bytes) : Option Bytes :=
  order.foldl (fun file who => pass cap who file) file

/-- A pass leaves the file alone or cuts it back, and cuts no file that is short of the cap. -/
inductive PassStep (cap : Nat) (body : Bytes) : Bytes → Prop
  | same : PassStep cap body body
  | cut (h : cap ≤ body.length) : PassStep cap body (cutBack cap body)

section Passes

variable {cap : Nat} {body : Bytes} {who : Truncator}

theorem pass_none : pass cap who none = none := by
  cases who <;> rfl

/-- **What a pass does.** -/
theorem exists_pass (cap : Nat) (who : Truncator) (body : Bytes) :
    ∃ body', pass cap who (some body) = some body' ∧ PassStep cap body body' := by
  cases who with
  | watchdog =>
      show ∃ body', truncateLocalLog cap (some body) = some body' ∧ _
      simp only [truncateLocalLog]
      split
      · exact ⟨body, rfl, .same⟩
      split
      · exact ⟨body, rfl, .same⟩
      rename_i hlen
      split
      · exact ⟨body, rfl, .same⟩
      · exact ⟨_, rfl, .cut (Nat.le_of_not_lt hlen)⟩
  | janitor =>
      show ∃ body', (truncateLog cap (some body)).1 = some body' ∧ _
      simp only [truncateLog]
      split
      · exact ⟨body, rfl, .same⟩
      · rename_i hskip
        exact ⟨_, rfl, .cut (Nat.le_of_lt (Nat.lt_of_not_le (not_or.mp hskip).1))⟩

theorem cutBack_take (h : cap ≤ body.length) : (cutBack cap body).take cap = body.take cap := by
  have hlen : (body.take cap).length = cap := List.length_take_of_le h
  rw [cutBack, List.take_append_of_le_length (Nat.le_of_eq hlen.symm),
    List.take_of_length_le (Nat.le_of_eq hlen)]

theorem cutBack_length (h : cap ≤ body.length) :
    (cutBack cap body).length = cap + (jobLogMarker cap).length := by
  rw [cutBack, List.length_append, List.length_take_of_le h]

theorem cutBack_drop (h : cap ≤ body.length) : (cutBack cap body).drop cap = jobLogMarker cap := by
  have hlen : (body.take cap).length = cap := List.length_take_of_le h
  rw [cutBack, List.drop_left' hlen]

/-- To cut back what was cut back changes nothing. -/
theorem cutBack_cutBack (h : cap ≤ body.length) :
    cutBack cap (cutBack cap body) = cutBack cap body := by
  show (cutBack cap body).take cap ++ jobLogMarker cap = _
  rw [cutBack_take h]
  rfl

theorem PassStep.take {body' : Bytes} (h : PassStep cap body body') :
    body'.take cap = body.take cap := by
  cases h with
  | same => rfl
  | cut hlen => exact cutBack_take hlen

/-- A file that was cut back is left alone by both. -/
theorem pass_cutBack (h : cap ≤ body.length) :
    pass cap who (some (cutBack cap body)) = some (cutBack cap body) := by
  obtain ⟨body', hpass, hstep⟩ := exists_pass cap who (cutBack cap body)
  rw [hpass]
  cases hstep with
  | same => rfl
  | cut _ => rw [cutBack_cutBack h]

/-- **A second pass of the same kind changes nothing.** -/
theorem pass_pass (cap : Nat) (who : Truncator) (file : Option Bytes) :
    pass cap who (pass cap who file) = pass cap who file := by
  cases file with
  | none => rw [pass_none, pass_none]
  | some body =>
      obtain ⟨body', hpass, hstep⟩ := exists_pass cap who body
      rw [hpass]
      cases hstep with
      | same => exact hpass
      | cut hlen => exact pass_cutBack hlen

/-- Up to the cap, or the cap and one line. -/
def Within (cap : Nat) (body : Bytes) : Prop :=
  body.length ≤ cap ∨ ∃ line, isCapMarker line = true ∧ body = body.take cap ++ line

theorem within_cutBack (h : cap ≤ body.length) : Within cap (cutBack cap body) := by
  refine .inr ⟨jobLogMarker cap, isCapMarker_jobLogMarker cap, ?_⟩
  rw [cutBack_take h]
  rfl

/-- **A pass leaves the cap and one line at most.** -/
theorem within_pass (hcap : 0 < cap) {body' : Bytes} (h : pass cap who (some body) = some body') :
    Within cap body' := by
  cases who with
  | watchdog =>
      replace h : truncateLocalLog cap (some body) = some body' := h
      simp only [truncateLocalLog, if_neg (Nat.pos_iff_ne_zero.mp hcap)] at h
      split at h
      · rename_i hlen
        obtain rfl := Option.some.inj h
        exact .inl (Nat.le_of_lt hlen)
      rename_i hlen
      split at h
      · rename_i hdone
        obtain rfl := Option.some.inj h
        obtain ⟨hlength, htail⟩ := hdone
        have hdrop : body.drop cap = jobLogMarker cap := by
          rw [← htail, List.take_of_length_le]
          rw [List.length_drop, hlength]
          omega
        refine .inr ⟨jobLogMarker cap, isCapMarker_jobLogMarker cap, ?_⟩
        rw [← hdrop, List.take_append_drop]
      · obtain rfl := Option.some.inj h
        exact within_cutBack (Nat.le_of_not_lt hlen)
  | janitor =>
      replace h : (truncateLog cap (some body)).1 = some body' := h
      simp only [truncateLog] at h
      split at h
      · rename_i hskip
        obtain rfl := Option.some.inj h
        rcases hskip with hlen | hdone
        · exact .inl hlen
        · obtain ⟨line, hline, hbody, -⟩ := eq_of_alreadyCapped hdone
          exact .inr ⟨line, hline, hbody⟩
      · rename_i hskip
        obtain rfl := Option.some.inj h
        exact within_cutBack (Nat.le_of_lt (Nat.lt_of_not_le (not_or.mp hskip).1))

/-- **After a pass of the watchdog nobody changes the file.** -/
theorem pass_watchdog (hcap : 0 < cap) (who : Truncator) (file : Option Bytes) :
    pass cap who (pass cap .watchdog file) = pass cap .watchdog file := by
  cases file with
  | none => rw [pass_none, pass_none]
  | some body =>
      show pass cap who (truncateLocalLog cap (some body)) = truncateLocalLog cap (some body)
      simp only [truncateLocalLog, if_neg (Nat.pos_iff_ne_zero.mp hcap)]
      have hshort : ∀ body : Bytes, body.length < cap → pass cap who (some body) = some body := by
        intro body hlen
        obtain ⟨body', hpass, hstep⟩ := exists_pass cap who body
        rw [hpass]
        cases hstep with
        | same => rfl
        | cut hle => exact (Nat.not_lt_of_le hle hlen).elim
      split
      · rename_i hlen
        exact hshort body hlen
      rename_i hlen
      split
      · rename_i hdone
        have hcut : body = cutBack cap body := by
          obtain ⟨hlength, htail⟩ := hdone
          have hdrop : body.drop cap = jobLogMarker cap := by
            rw [← htail, List.take_of_length_le]
            rw [List.length_drop, hlength]
            omega
          rw [cutBack, ← hdrop, List.take_append_drop]
        rw [hcut]
        exact pass_cutBack (Nat.le_of_not_lt hlen)
      · exact pass_cutBack (Nat.le_of_not_lt hlen)

/-- **The truncators agree.**  Whatever passes came before, a pass keeps the first
`cap` bytes, leaves at most those and one line, and changes nothing when it is made
twice; after one pass of the watchdog no passes change the file. -/
theorem truncators_agree (cap : Nat) (hcap : 0 < cap) (body : Bytes) (order : List Truncator)
    (who : Truncator) :
    (∃ before after, passes cap order (some body) = some before ∧
      pass cap who (some before) = some after ∧ before.take cap = body.take cap ∧
      after.take cap = body.take cap ∧ Within cap after ∧
      pass cap who (some after) = some after) ∧
    ∀ later, passes cap later (pass cap .watchdog (passes cap order (some body))) =
      pass cap .watchdog (passes cap order (some body)) := by
  have hreach : ∃ before, passes cap order (some body) = some before ∧
      before.take cap = body.take cap := by
    induction order generalizing body with
    | nil => exact ⟨body, rfl, rfl⟩
    | cons who' order ih =>
        obtain ⟨first, hpass, hstep⟩ := exists_pass cap who' body
        obtain ⟨before, hbefore, htake⟩ := ih first
        refine ⟨before, ?_, htake.trans hstep.take⟩
        show passes cap order (pass cap who' (some body)) = some before
        rw [hpass, hbefore]
  obtain ⟨before, hbefore, htake⟩ := hreach
  obtain ⟨after, hpass, hstep⟩ := exists_pass cap who before
  refine ⟨⟨before, after, hbefore, hpass, htake, hstep.take.trans htake, within_pass hcap hpass, ?_⟩,
    fun later => ?_⟩
  · rw [← hpass, pass_pass]
  · induction later with
    | nil => rfl
    | cons who' later ih =>
        show passes cap later (pass cap who' (pass cap .watchdog _)) = _
        rw [pass_watchdog hcap who', ih]

/-- A file one byte too long, which a janitor and then a watchdog find. -/
theorem truncators_agree_sample :
    pass 4 .watchdog (passes 4 [.janitor] (some (encode "hello"))) =
      some (encode "hell" ++ jobLogMarker 4) ∧
    passes 4 [.janitor, .watchdog, .janitor]
      (pass 4 .watchdog (passes 4 [.janitor] (some (encode "hello")))) =
      some (encode "hell" ++ jobLogMarker 4) := by
  have hpass : pass 4 .watchdog (passes 4 [.janitor] (some (encode "hello"))) =
      some (encode "hell" ++ jobLogMarker 4) := by decide +kernel
  refine ⟨hpass, ?_⟩
  rw [(truncators_agree 4 (by decide) (encode "hello") [.janitor] .janitor).2]
  exact hpass

end Passes

/-! ### The drain of a wheel -/

/-- `_DRAIN_CHUNK`. -/
def drainChunk : Nat := 65536

/-- What one read of the pipe returns before its end. -/
abbrev Chunk := { chunk : Bytes // chunk ≠ [] ∧ chunk.length ≤ drainChunk }

/-- How a write to the unbuffered file ends: the bytes land, only the first of them
do and the write returns, or it raises and has landed the first of them. -/
inductive WriteEnd where
  | full
  | short (landed : Nat)
  | raises (landed : Nat)
  deriving DecidableEq, Repr

namespace WriteEnd

/-- The bytes in the file. -/
def landed : WriteEnd → Bytes → Bytes
  | .full, bytes => bytes
  | .short n, bytes => bytes.take n
  | .raises n, bytes => bytes.take n

/-- The write raised. -/
def raised : WriteEnd → Bool
  | .raises _ => true
  | _ => false

@[simp] theorem landed_full (bytes : Bytes) : WriteEnd.full.landed bytes = bytes := rfl

@[simp] theorem raised_full : WriteEnd.full.raised = false := rfl

end WriteEnd

/-- The locals of `_drain`, and the file it writes. -/
structure Drain where
  written : Nat
  truncated : Bool
  jobLog : Bytes
  deriving DecidableEq, Repr

/-- The body of the loop for one chunk, and whether an exception left it. -/
def drainStep (cap : Nat) (d : Drain) (chunk : Bytes) (write : WriteEnd) : Drain × Bool :=
  if d.truncated then
    -- cap reached: keep draining, discard
    (d, false)
  else if cap = 0 then ({ d with jobLog := d.jobLog ++ write.landed chunk }, write.raised)
  else if chunk.length ≤ cap - d.written then
    ({ d with
        jobLog := d.jobLog ++ write.landed chunk
        written := if write.raised then d.written else d.written + chunk.length },
      write.raised)
  else
    ({ d with
        jobLog := d.jobLog ++ write.landed (chunk.take (cap - d.written) ++ jobLogMarker cap)
        truncated := !write.raised },
      write.raised)

/-- What the child writes, in the chunks that are read, and how the write of each of
them ends if there is one. -/
abbrev Reads := List (Chunk × WriteEnd)

/-- The output of the child. -/
def output (reads : Reads) : Bytes := reads.flatMap fun read => read.1.val

/-- The loop: where it ends, and the chunks it leaves in the pipe. -/
def drainLoop (cap : Nat) : Drain → Reads → Drain × Reads
  | d, [] => (d, [])
  | d, (chunk, write) :: reads =>
      match drainStep cap d chunk.val write with
      | (d, true) => (d, reads)
      | (d, false) => drainLoop cap d reads

/-- `_drain`, over an empty file. -/
def drain (cap : Nat) (reads : Reads) : Drain × Reads := drainLoop cap ⟨0, false, []⟩ reads

/-- The child's output within the cap. -/
def cappedOutput (cap : Nat) (out : Bytes) : Bytes :=
  if cap = 0 ∨ out.length ≤ cap then out else out.take cap ++ jobLogMarker cap

/-- Every chunk is read, and the file has what it should if no write failed. -/
def DrainOk (cap : Nat) (reads : Reads) : Prop :=
  (drain cap reads).2 = [] ∧
    ((∀ read ∈ reads, read.2 = .full) →
      (drain cap reads).1.jobLog = cappedOutput cap (output reads))

/-- No write raises while output is left: neither a write within the cap nor the one
that takes the file over it. -/
def RaisesLast (cap : Nat) (reads : Reads) : Prop :=
  ∀ before chunk write after, reads = before ++ (chunk, write) :: after →
    cap = 0 ∨ (output before).length ≤ cap → write.raised = true → after = []

section Drain

variable {cap : Nat} {d d' : Drain} {chunk : Bytes} {write : WriteEnd} {reads : Reads}

theorem output_cons (read : Chunk × WriteEnd) (reads : Reads) :
    output (read :: reads) = read.1.val ++ output reads := List.flatMap_cons

/-- What the locals say about the output so far. -/
structure Counts (cap : Nat) (out : Bytes) (d : Drain) : Prop where
  /-- The cap was not reached: what is written counts. -/
  hopen : d.truncated = false → cap = 0 ∨ out.length ≤ cap ∧ d.written = out.length
  /-- The cap was passed. -/
  hover : d.truncated = true → cap ≠ 0 ∧ cap < out.length

theorem Counts.nil (cap : Nat) : Counts cap [] ⟨0, false, []⟩ :=
  ⟨fun _ => .inr ⟨Nat.zero_le cap, rfl⟩, nofun⟩

/-- A chunk is written as long as the output so far is within the cap. -/
theorem Counts.truncated_eq_false_iff {out : Bytes} (h : Counts cap out d) :
    d.truncated = false ↔ cap = 0 ∨ out.length ≤ cap := by
  constructor
  · intro hopen
    rcases h.hopen hopen with hcap | ⟨hlen, -⟩
    · exact .inl hcap
    · exact .inr hlen
  · intro hroom
    cases htruncated : d.truncated with
    | false => rfl
    | true =>
        obtain ⟨hcap, hover⟩ := h.hover htruncated
        rcases hroom with hzero | hlen
        · exact (hcap hzero).elim
        · exact (Nat.not_le_of_lt hover hlen).elim

/-- **One turn of the loop.**  It is left when a write is made and raises; else the
locals count the chunk. -/
theorem drainStep_cases {out : Bytes} (h : Counts cap out d)
    (hstep : drainStep cap d chunk write = (d', raised)) :
    (raised = true ↔ (cap = 0 ∨ out.length ≤ cap) ∧ write.raised = true) ∧
      (raised = false → Counts cap (out ++ chunk) d') := by
  unfold drainStep at hstep
  split at hstep
  · rename_i htruncated
    obtain ⟨rfl, rfl⟩ := Prod.mk.inj hstep
    obtain ⟨hcap, hover⟩ := h.hover htruncated
    refine ⟨⟨nofun, fun ⟨hroom, _⟩ => ?_⟩, fun _ => ⟨fun hopen => ?_, fun _ => ⟨hcap, ?_⟩⟩⟩
    · omega
    · rw [htruncated] at hopen
      cases hopen
    · rw [List.length_append]
      omega
  rename_i htruncated
  have hopen : d.truncated = false := eq_false_of_ne_true htruncated
  have hroom := h.truncated_eq_false_iff.mp hopen
  split at hstep
  · rename_i hcap
    obtain ⟨rfl, rfl⟩ := Prod.mk.inj hstep
    refine ⟨⟨fun hraised => ⟨hroom, hraised⟩, And.right⟩, fun _ => ⟨fun _ => .inl hcap, ?_⟩⟩
    intro hover
    rw [hopen] at hover
    cases hover
  rename_i hcap
  obtain ⟨hlen, hwritten⟩ := (h.hopen hopen).resolve_left hcap
  split at hstep
  · rename_i hfits
    obtain ⟨rfl, rfl⟩ := Prod.mk.inj hstep
    refine ⟨⟨fun hraised => ⟨hroom, hraised⟩, And.right⟩,
      fun hraised => ⟨fun _ => .inr ⟨?_, ?_⟩, ?_⟩⟩
    · rw [List.length_append]
      omega
    · simp only [hraised, Bool.false_eq_true, if_false, hwritten, List.length_append]
    · intro hover
      rw [hopen] at hover
      cases hover
  · rename_i hfits
    obtain ⟨rfl, rfl⟩ := Prod.mk.inj hstep
    refine ⟨⟨fun hraised => ⟨hroom, hraised⟩, And.right⟩,
      fun hraised => ⟨fun hopen => ?_, fun _ => ⟨hcap, ?_⟩⟩⟩
    · simp [hraised] at hopen
    · rw [List.length_append]
      omega

/-- **What a write that does not fail leaves in the file.** -/
theorem drainStep_jobLog {out : Bytes} (chunk : Bytes) (h : Counts cap out d)
    (hlog : d.jobLog = cappedOutput cap out) :
    (drainStep cap d chunk .full).1.jobLog = cappedOutput cap (out ++ chunk) := by
  unfold drainStep
  split
  · rename_i htruncated
    obtain ⟨hcap, hover⟩ := h.hover htruncated
    have hover' : ¬ (cap = 0 ∨ (out ++ chunk).length ≤ cap) := by
      rw [List.length_append]
      omega
    rw [hlog, cappedOutput, cappedOutput, if_neg (by omega), if_neg hover',
      List.take_append_of_le_length (Nat.le_of_lt hover)]
  rename_i htruncated
  have hopen : d.truncated = false := eq_false_of_ne_true htruncated
  rw [cappedOutput, if_pos (h.truncated_eq_false_iff.mp hopen)] at hlog
  split
  · rename_i hcap
    rw [cappedOutput, if_pos (.inl hcap), ← hlog]
    rfl
  rename_i hcap
  obtain ⟨hlen, hwritten⟩ := (h.hopen hopen).resolve_left hcap
  split
  · rename_i hfits
    have hwithin : (out ++ chunk).length ≤ cap := by
      rw [List.length_append]
      omega
    have houtput : cappedOutput cap (out ++ chunk) = out ++ chunk := if_pos (.inr hwithin)
    rw [houtput, ← hlog]
    rfl
  · rename_i hfits
    have hover : ¬ (cap = 0 ∨ (out ++ chunk).length ≤ cap) := by
      rw [List.length_append]
      omega
    have htake : (out ++ chunk).take cap = out ++ chunk.take (cap - d.written) := by
      rw [List.take_append, List.take_of_length_le hlen, hwritten]
    rw [cappedOutput, if_neg hover, htake, List.append_assoc, ← hlog]
    rfl

/-- The condition, behind output that was read. -/
def RaisesLastFrom (cap : Nat) (out : Bytes) (reads : Reads) : Prop :=
  ∀ before chunk write after, reads = before ++ (chunk, write) :: after →
    cap = 0 ∨ (out ++ output before).length ≤ cap → write.raised = true → after = []

theorem raisesLastFrom_nil (out : Bytes) : RaisesLastFrom cap out [] := by
  intro before chunk write after hsplit
  cases before with
  | nil => cases hsplit
  | cons _ _ => cases hsplit

/-- The condition for the first chunk and for those behind it. -/
theorem raisesLastFrom_cons {out : Bytes} {chunk : Chunk} :
    RaisesLastFrom cap out ((chunk, write) :: reads) ↔
      (cap = 0 ∨ out.length ≤ cap → write.raised = true → reads = []) ∧
        RaisesLastFrom cap (out ++ chunk.val) reads := by
  constructor
  · intro h
    refine ⟨fun hroom => h [] chunk write reads rfl ?_, ?_⟩
    · simpa [output] using hroom
    · rintro before chunk' write' after rfl hroom
      refine h ((chunk, write) :: before) chunk' write' after rfl ?_
      rwa [output_cons, ← List.append_assoc]
  · rintro ⟨hfirst, hrest⟩ before chunk' write' after hsplit hroom
    cases before with
    | nil =>
        obtain ⟨hread, rfl⟩ := List.cons.inj hsplit
        obtain ⟨rfl, rfl⟩ := Prod.mk.inj hread
        apply hfirst
        simpa [output] using hroom
    | cons read before =>
        obtain ⟨rfl, hreads⟩ := List.cons.inj hsplit
        refine hrest before chunk' write' after hreads ?_
        rwa [output_cons, ← List.append_assoc] at hroom

/-- **When the loop reads on to the end.** -/
theorem drainLoop_unread_iff {out : Bytes} (h : Counts cap out d) :
    (drainLoop cap d reads).2 = [] ↔ RaisesLastFrom cap out reads := by
  induction reads generalizing d out with
  | nil => exact ⟨fun _ => raisesLastFrom_nil out, fun _ => rfl⟩
  | cons read reads ih =>
      obtain ⟨chunk, write⟩ := read
      rw [raisesLastFrom_cons]
      cases hstep : drainStep cap d chunk.val write with
      | mk d' raised =>
          obtain ⟨hraised, hcounts⟩ := drainStep_cases h hstep
          cases raised with
          | true =>
              obtain ⟨hroom, hwrite⟩ := hraised.mp rfl
              have hleft : drainLoop cap d ((chunk, write) :: reads) = (d', reads) := by
                simp only [drainLoop, hstep]
              rw [hleft]
              constructor
              · rintro rfl
                exact ⟨fun _ _ => rfl, raisesLastFrom_nil _⟩
              · rintro ⟨hfirst, -⟩
                exact hfirst hroom hwrite
          | false =>
              have hon : drainLoop cap d ((chunk, write) :: reads) = drainLoop cap d' reads := by
                simp only [drainLoop, hstep]
              rw [hon, ih (hcounts rfl)]
              refine ⟨fun hrest => ⟨fun hroom hwrite => ?_, hrest⟩, And.right⟩
              cases hraised.mpr ⟨hroom, hwrite⟩

/-- **What the loop leaves in the file.** -/
theorem drainLoop_jobLog {out : Bytes} (h : Counts cap out d)
    (hlog : d.jobLog = cappedOutput cap out) (hfull : ∀ read ∈ reads, read.2 = .full) :
    (drainLoop cap d reads).1.jobLog = cappedOutput cap (out ++ output reads) := by
  induction reads generalizing d out with
  | nil => simpa [output, drainLoop] using hlog
  | cons read reads ih =>
      obtain ⟨chunk, write⟩ := read
      obtain ⟨hwrite, hrest⟩ := List.forall_mem_cons.mp hfull
      obtain rfl : write = .full := hwrite
      have hlog' := drainStep_jobLog chunk.val h hlog
      cases hstep : drainStep cap d chunk.val .full with
      | mk d' raised =>
          obtain ⟨hraised, hcounts⟩ := drainStep_cases h hstep
          obtain rfl : raised = false := by
            cases raised with
            | false => rfl
            | true => cases (hraised.mp rfl).2
          have hon : drainLoop cap d ((chunk, WriteEnd.full) :: reads) = drainLoop cap d' reads := by
            simp only [drainLoop, hstep]
          rw [hstep] at hlog'
          rw [hon, ih (hcounts rfl) hlog' hrest, output_cons, List.append_assoc]

/-- **When the drain does not stall its child.**  It reads every chunk, and has the
output within the cap in the file if no write failed, just if no write raises while
output is left. -/
theorem drainOk_iff (cap : Nat) (reads : Reads) : DrainOk cap reads ↔ RaisesLast cap reads := by
  have hcounts := Counts.nil cap
  have hunread : (drain cap reads).2 = [] ↔ RaisesLast cap reads := drainLoop_unread_iff hcounts
  refine ⟨fun h => hunread.mp h.1, fun h => ⟨hunread.mpr h, fun hfull => ?_⟩⟩
  exact drainLoop_jobLog hcounts (by simp [cappedOutput]) hfull

/-- A write raises, and what the child writes next stays in the pipe. -/
theorem not_drainOk : ¬ ∀ cap reads, DrainOk cap reads := by
  intro h
  let first : Chunk := ⟨encode "a", by decide⟩
  let second : Chunk := ⟨encode "b", by decide⟩
  have hread : drain 0 [(first, .raises 0), (second, .full)] =
      (⟨0, false, []⟩, [(second, .full)]) := rfl
  have hunread := (h 0 [(first, .raises 0), (second, .full)]).1
  rw [hread] at hunread
  cases hunread

end Drain

end JobLogs

end Dopilot
