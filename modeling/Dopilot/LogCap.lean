/-
Dopilot/LogCap.lean

The cap on a crawler's log, from inside of the crawler.

The handler of the log file counts what it writes.  With the record that reaches
the cap it writes a marker, asks its process to stop, and writes nothing more;
no other handler is touched (`log_capped`).  A file is a text that only its
handler writes to.
-/
import Dopilot.AdminAuth

namespace Dopilot

namespace LogCap

/-- The settings of a command line, each `-s key=value` or `-skey=value`. -/
def settings : List Text → List (Text × Text)
  | [] => []
  | tok :: rest =>
      let value :=
        if tok = ['-', 's'] then rest.headD []
        else if ['-', 's'].isPrefixOf tok then tok.drop 2
        else []
      if value.contains '=' then
        (value.takeWhile (· ≠ '='), (value.dropWhile (· ≠ '=')).tail) :: settings rest
      else settings rest

def settingName : Text :=
  ['D', 'O', 'P', 'I', 'L', 'O', 'T', '_', 'J', 'O', 'B', '_', 'L', 'O', 'G', '_', 'C', 'A', 'P',
    '_', 'B', 'Y', 'T', 'E', 'S']

def logFileSetting : Text := ['L', 'O', 'G', '_', 'F', 'I', 'L', 'E']

/-- `parse_crawler_argv`; of two settings with one name the later one counts. -/
def parseCrawlerArgv (argv : List Text) : Option (Nat × Text) :=
  if argv.contains ['c', 'r', 'a', 'w', 'l'] &&
      argv.any fun a => ['_', 'j', 'o', 'b', '='] <:+: a then
    match (settings argv).reverse.lookup settingName,
        (settings argv).reverse.lookup logFileSetting with
    | some raw, some logFile =>
        if raw = [] ∨ logFile = [] then none
        else
          match AdminAuth.intText (Text.strip raw) with
          | some cap => if 0 < cap then some (cap.toNat, logFile) else none
          | none => none
    | _, _ => none
  else none

/-- The bytes of a text. -/
def size (t : Text) : Nat := (t.map Char.utf8Size).sum

@[simp] theorem size_append (t u : Text) : size (t ++ u) = size t + size u := by
  simp [size]

def truncationMarker (cap : Nat) : Text :=
  "\n[dopilot:job-log-truncated max_bytes=".toList ++ (Nat.repr cap).toList ++
    " reason=size-cap]\n".toList

/-- What the hook adds to a handler of the log file. -/
structure Count where
  cap : Nat
  written : Nat
  capped : Bool

/-- A handler, with its file and the signals it has sent. -/
structure FileHandler where
  stream : Text
  count : Option Count
  sigterms : Nat

/-- `_patched_init`, where the hook is installed with `parsed`. -/
def patchedInit (parsed : Option (Nat × Text)) (baseFilename existing : Text) : FileHandler :=
  match parsed with
  | some (cap, logFile) =>
      if baseFilename = logFile then ⟨existing, some ⟨cap, size existing, false⟩, 0⟩
      else ⟨existing, none, 0⟩
  | none => ⟨existing, none, 0⟩

/-- `_patched_emit`; a record that cannot be formatted is not written. -/
def patchedEmit (h : FileHandler) (record : Option Text) : FileHandler :=
  let rendered := record.getD []
  match h.count with
  | none => { h with stream := h.stream ++ rendered }
  | some c =>
      if c.capped then h
      else
        let written := c.written + size rendered
        if written < c.cap then
          { h with stream := h.stream ++ rendered, count := some { c with written := written } }
        else
          { stream := h.stream ++ rendered ++ truncationMarker c.cap
            count := some ⟨c.cap, written, true⟩
            sigterms := h.sigterms + 1 }

/-- A log file with its records, up to the one that reaches the cap, and the marker then. -/
def capOff (cap : Nat) (log : Text) : List (Option Text) → Text × Bool
  | [] => (log, false)
  | r :: rs =>
      let log := log ++ r.getD []
      if size log < cap then capOff cap log rs else (log ++ truncationMarker cap, true)

section Runs

variable (cap : Nat) (log : Text) (records : List (Option Text))

/-- After the marker, nothing. -/
theorem foldl_capped (h : FileHandler) {c : Count} (hc : h.count = some c)
    (hcapped : c.capped = true) : records.foldl patchedEmit h = h := by
  induction records with
  | nil => rfl
  | cons r rs ih =>
      have hr : patchedEmit h r = h := by simp [patchedEmit, hc, hcapped]
      rw [List.foldl_cons, hr]
      exact ih

/-- The counter is right: it stands at the size of the file. -/
theorem foldl_counted :
    let h := records.foldl patchedEmit ⟨log, some ⟨cap, size log, false⟩, 0⟩
    (h.stream, decide (h.sigterms = 1)) = capOff cap log records ∧ h.sigterms ≤ 1 := by
  induction records generalizing log with
  | nil => exact ⟨rfl, Nat.zero_le 1⟩
  | cons r rs ih =>
      rw [List.foldl_cons]
      by_cases hsize : size (log ++ r.getD []) < cap
      · have hr : patchedEmit ⟨log, some ⟨cap, size log, false⟩, 0⟩ r =
            ⟨log ++ r.getD [], some ⟨cap, size (log ++ r.getD []), false⟩, 0⟩ := by
          rw [size_append] at hsize
          simp [patchedEmit, hsize]
        rw [hr]
        simpa only [capOff, if_pos hsize] using ih (log ++ r.getD [])
      · have hr : patchedEmit ⟨log, some ⟨cap, size log, false⟩, 0⟩ r =
            ⟨log ++ r.getD [] ++ truncationMarker cap,
              some ⟨cap, size (log ++ r.getD []), true⟩, 1⟩ := by
          rw [size_append] at hsize
          simp [patchedEmit, hsize]
        -- the record that reaches the cap is the last one
        rw [hr, foldl_capped rs _ rfl rfl]
        simp only [capOff, if_neg hsize]
        exact ⟨rfl, le_refl 1⟩

/-- A handler that the hook leaves alone writes everything. -/
theorem foldl_plain :
    records.foldl patchedEmit ⟨log, none, 0⟩ =
      ⟨log ++ records.flatMap fun r => r.getD [], none, 0⟩ := by
  induction records generalizing log with
  | nil => simp
  | cons r rs ih =>
      rw [List.foldl_cons, List.flatMap_cons, ← List.append_assoc]
      exact ih (log ++ r.getD [])

theorem size_capOff (k : Nat) (hk : ∀ r ∈ records, size (r.getD []) ≤ k) :
    size (capOff cap log records).1 ≤ max (size log) cap + k + size (truncationMarker cap) := by
  induction records generalizing log with
  | nil =>
      show size log ≤ _
      omega
  | cons r rs ih =>
      have hr := hk r List.mem_cons_self
      have ih := ih (log ++ r.getD []) fun r hr => hk r (List.mem_cons_of_mem _ hr)
      simp only [capOff]
      split
      · omega
      · simp only [size_append]
        omega

end Runs

end LogCap

end Dopilot
