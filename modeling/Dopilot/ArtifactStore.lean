/-
Dopilot/ArtifactStore.lean

The stores of uploaded artifacts and the rows of `build_artifacts`.

An upload publishes a body and then its manifest, writes the row and commits.
All that happens under a lock of the content, and when it fails, the upload
removes what it has newly published.  A list request takes no lock: it reads the
manifests that are on disk and writes the rows that are missing.

A committed row has its body and its manifest on disk (`rows_stored`) as long as
an upload that has newly published does not fail once a listing has read its
manifest.  `not_rows_stored` has a listing that is faster than the upload: its row
makes the upload's insert fail, and the upload removes the body.
-/
import Dopilot.Protocol
import Dopilot.StateMachine
import Dopilot.Table
import Mathlib.Logic.Function.Basic

namespace Dopilot

namespace ArtifactStore

/-! ### Disk and rows -/

/-- The stores: eggs are `scrapy`, wheels are `python_wheel`. -/
inductive Kind where
  | egg
  | wheel
  deriving DecidableEq, Repr

/-- `(artifact_type, content_hash)`. -/
structure Key where
  kind : Kind
  sha256 : Nat
  deriving DecidableEq, Repr

/-- A manifest; the title is the project of an egg, the distribution of a wheel. -/
structure Manifest where
  filename : List Char
  title : List Char
  version : List Char
  spiders : List (List Char) := []
  sizeBytes : Nat
  uploadedAt : Time

/-- One row of `build_artifacts`, but for its key. -/
structure Row where
  name : List Char
  filename : List Char
  sizeBytes : Nat
  title : List Char
  version : List Char
  spiders : List (List Char)

/-- What `upsert_scrapy` and `upsert_wheel` write. -/
def Manifest.row (m : Manifest) : Row where
  name := if m.title = [] then m.filename else m.title
  filename := m.filename
  sizeBytes := m.sizeBytes
  title := m.title
  version := m.version
  spiders := m.spiders

/-! ### Requests -/

/-- Where an upload stands.  `stored` is what it has found under the lock. -/
inductive UploadPhase where
  | staged
  | locked
  | checked (stored : Bool)
  /-- `save_from_path` has validated the body and looked again. -/
  | validated (stored preExisted : Bool)
  /-- The body has been moved into the store. -/
  | bodied (stored preExisted : Bool)
  | published (stored : Bool)
  /-- The row has been looked up. -/
  | selected (stored existing : Bool)
  /-- `remove_stored`: the body comes first, the manifest second. -/
  | removing (second : Bool)
  deriving DecidableEq, Repr

structure Upload where
  key : Key
  manifest : Manifest
  phase : UploadPhase := .staged

/-- Where the reconciliation of one store stands. -/
inductive ListPhase where
  | globbing
  | reading (todo : List Key) (found : List (Key × Manifest))
  /-- The rows that are missing so far. -/
  | backfilling (todo missing : List (Key × Manifest))

/-- A list request, at the store of one kind. -/
structure Listing where
  kind : Kind := .egg
  phase : ListPhase := .globbing

/-- The manifests that a listing has read and may write rows of. -/
def Listing.held (l : Listing) : List (Key × Manifest) :=
  match l.phase with
  | .globbing => []
  | .reading _ found => found
  | .backfilling todo missing => todo ++ missing

/-- What becomes of a commit: it may also be reported as failed though it is not. -/
inductive CommitOutcome where
  | ok
  | failed
  | lost
  deriving DecidableEq, Repr

abbrev RequestId := Nat

structure State where
  bodies : Key → Bool := fun _ => false
  manifests : Table Key Manifest := .empty
  rows : Table Key Row := .empty
  uploads : Table RequestId Upload := .empty
  lists : Table RequestId Listing := .empty

def start : State := {}

/-- The lock of the content is held. -/
def UploadPhase.holds : UploadPhase → Bool
  | .staged => false
  | _ => true

/-- The upload has published what was not there. -/
def UploadPhase.publishedAnew : UploadPhase → Bool
  | .published stored | .selected stored _ => !stored
  | _ => false

def UploadPhase.isRemoving : UploadPhase → Bool
  | .removing _ => true
  | _ => false

/-- What an upload does next. -/
inductive UploadStep where
  | acquire
  | check
  | validate
  | placeBody
  | placeManifest (ok : Bool)
  | select
  | commit (outcome : CommitOutcome)
  /-- Validation, quota, the look-up or the upsert fails. -/
  | fail
  | unlink (ok : Bool)

/-- What a list request does next. -/
inductive ListStep where
  | glob
  | read
  | lookup
  | commit (outcome : CommitOutcome)
  | fail

inductive Action where
  | upload (i : RequestId) (key : Key) (manifest : Manifest)
  | list (j : RequestId)
  | stepUpload (i : RequestId) (a : UploadStep)
  | stepList (j : RequestId) (a : ListStep)

/-! ### Steps -/

/-- The upload goes on. -/
def State.goto (s : State) (i : RequestId) (phase : UploadPhase) : State :=
  { s with uploads := s.uploads.modify i fun u => { u with phase := phase } }

/-- The upload has ended, and its lock is free. -/
def State.finish (s : State) (i : RequestId) : State := { s with uploads := s.uploads.erase i }

/-- A failure behind the publication: what was newly published is removed. -/
def State.rollback (s : State) (i : RequestId) (stored : Bool) : State :=
  if stored then s.finish i else s.goto i (.removing false)

/-- The insert meets a row of the same key. -/
def State.clash (s : State) (key : Key) (existing : Bool) : Bool :=
  !existing && (s.rows.get key).isSome

/-- The next store, or the end of the request. -/
def State.nextStore (s : State) (j : RequestId) (kind : Kind) : State :=
  match kind with
  | .egg => { s with lists := s.lists.modify j fun _ => { kind := .wheel } }
  | .wheel => { s with lists := s.lists.erase j }

def State.gotoList (s : State) (j : RequestId) (phase : ListPhase) : State :=
  { s with lists := s.lists.modify j fun l => { l with phase := phase } }

def stepUpload (s : State) (i : RequestId) (u : Upload) : UploadStep → Option State
  | .acquire =>
      if u.phase = .staged ∧ s.uploads.rows.all fun r =>
          !(r.2.phase.holds && decide (r.2.key.sha256 = u.key.sha256)) then
        some (s.goto i .locked)
      else none
  | .check =>
      if u.phase = .locked then some (s.goto i (.checked (s.bodies u.key))) else none
  | .validate =>
      match u.phase with
      | .checked stored => some (s.goto i (.validated stored (s.bodies u.key)))
      | _ => none
  | .placeBody =>
      match u.phase with
      | .validated stored preExisted =>
          some ({ s with bodies := Function.update s.bodies u.key true }.goto i
            (.bodied stored preExisted))
      | _ => none
  | .placeManifest ok =>
      match u.phase with
      | .bodied stored preExisted =>
          if ok then
            some ({ s with manifests := s.manifests.put u.key u.manifest }.goto i
              (.published stored))
          else some (s.rollback i preExisted)
      | _ => none
  | .select =>
      match u.phase with
      | .published stored => some (s.goto i (.selected stored (s.rows.get u.key).isSome))
      | _ => none
  | .commit outcome =>
      match u.phase with
      | .selected stored existing =>
          if outcome = .failed ∨ s.clash u.key existing then some (s.rollback i stored)
          else
            let s := { s with rows := s.rows.put u.key u.manifest.row }
            some (if outcome = .lost then s.rollback i stored else s.finish i)
      | _ => none
  | .fail =>
      match u.phase with
      | .staged | .locked | .checked _ | .validated _ _ => some (s.finish i)
      | .published stored | .selected stored _ => some (s.rollback i stored)
      | .bodied _ _ | .removing _ => none
  | .unlink ok =>
      match u.phase with
      | .removing false =>
          let s := if ok then { s with bodies := Function.update s.bodies u.key false } else s
          some (s.goto i (.removing true))
      | .removing true =>
          let s := if ok then { s with manifests := s.manifests.erase u.key } else s
          some (s.finish i)
      | _ => none

/-- The rows that are missing. -/
def backfill (rows : Table Key Row) (missing : List (Key × Manifest)) : Table Key Row :=
  missing.foldl (fun rows r => rows.put r.1 r.2.row) rows

def stepList (s : State) (j : RequestId) (l : Listing) : ListStep → Option State
  | .glob =>
      match l.phase with
      | .globbing =>
          let keys := (s.manifests.rows.map Prod.fst).filter fun k => k.kind = l.kind
          some (s.gotoList j (.reading keys []))
      | _ => none
  | .read =>
      match l.phase with
      | .reading (k :: todo) found =>
          -- a manifest that is gone is skipped
          some (s.gotoList j (.reading todo
            (found ++ ((s.manifests.get k).map fun m => (k, m)).toList)))
      | .reading [] found =>
          let sorted := found.mergeSort fun x y => decide (y.2.uploadedAt ≤ x.2.uploadedAt)
          some (s.gotoList j (.backfilling sorted []))
      | _ => none
  | .lookup =>
      match l.phase with
      | .backfilling (r :: todo) missing =>
          some (s.gotoList j (.backfilling todo
            (if (s.rows.get r.1).isSome then missing else missing ++ [r])))
      | _ => none
  | .commit outcome =>
      match l.phase with
      | .backfilling [] missing =>
          if missing = [] then some (s.nextStore j l.kind)
          else if outcome = .failed ∨ missing.any fun r => (s.rows.get r.1).isSome then
            some { s with lists := s.lists.erase j }
          else
            let s := { s with rows := backfill s.rows missing }
            some (if outcome = .lost then { s with lists := s.lists.erase j }
              else s.nextStore j l.kind)
      | _ => none
  | .fail => some { s with lists := s.lists.erase j }

def step (s : State) : Action → Option State
  | .upload i key manifest =>
      if (s.uploads.get i).isSome then none
      else some { s with uploads := s.uploads.insert i { key := key, manifest := manifest } }
  | .list j =>
      if (s.lists.get j).isSome then none else some { s with lists := s.lists.insert j {} }
  | .stepUpload i a => (s.uploads.get i).bind fun u => stepUpload s i u a
  | .stepList j a => (s.lists.get j).bind fun l => stepList s j l a

/-! ### The condition -/

/-- The artifact has a row, or a listing may write one. -/
def State.taken (s : State) (key : Key) : Prop :=
  (s.rows.get key).isSome = true ∨
    ∃ j l, s.lists.get j = some l ∧ key ∈ l.held.map Prod.fst

/-- An upload that has newly published fails only while nothing is taken, and
its commit is not reported as failed when it is not; no listing reads a manifest
that is being removed; and a manifest is removed if its body is. -/
def Undisturbed (s : State) : Action → Prop
  | .stepUpload i .fail => ∀ u, s.uploads.get i = some u → u.phase.publishedAnew = true →
      ¬ s.taken u.key
  | .stepUpload i (.commit outcome) => ∀ u existing, s.uploads.get i = some u →
      u.phase = .selected false existing →
      outcome = .ok ∧ s.clash u.key existing = false ∨ outcome = .failed ∧ ¬ s.taken u.key
  | .stepUpload i (.unlink ok) => ∀ u, s.uploads.get i = some u →
      u.phase = .removing true → ok = true ∨ s.bodies u.key = true
  | .stepList j .read => ∀ l key todo found, s.lists.get j = some l →
      l.phase = .reading (key :: todo) found →
      ∀ i u, s.uploads.get i = some u → u.phase.isRemoving = true → u.key ≠ key
  | _ => True

/-! ### What a run keeps -/

/-- The artifact has its body and its manifest on disk. -/
def Stored (s : State) (key : Key) : Prop :=
  s.bodies key = true ∧ (s.manifests.get key).isSome = true

/-- What an upload relies on where it stands. -/
def PhaseOk (s : State) (key : Key) : UploadPhase → Prop
  | .staged | .locked => True
  | .checked stored => s.bodies key = stored ∧ (stored = false → s.manifests.get key = none)
  | .validated stored preExisted => preExisted = stored ∧ s.bodies key = stored ∧
      (stored = false → s.manifests.get key = none)
  | .bodied stored preExisted => preExisted = stored ∧ s.bodies key = true ∧
      (stored = false → s.manifests.get key = none)
  | .published _ | .selected _ _ => Stored s key
  | .removing _ => ¬ s.taken key

structure Inv (s : State) : Prop where
  taken : ∀ k, s.taken k → Stored s k
  /-- Only an upload that removes its artifact leaves a manifest without a body. -/
  manifest : ∀ k, (s.manifests.get k).isSome = true → s.bodies k = true ∨
    ∃ i u, s.uploads.get i = some u ∧ u.key = k ∧ u.phase = .removing true
  /-- The lock of a content has one holder. -/
  lock : ∀ i i' u u', s.uploads.get i = some u → s.uploads.get i' = some u' →
    u.phase.holds = true → u'.phase.holds = true → u.key.sha256 = u'.key.sha256 → i = i'
  phase : ∀ i u, s.uploads.get i = some u → PhaseOk s u.key u.phase

section Steps

variable {s s₁ s' : State} {i : RequestId} {u : Upload} {after : Option UploadPhase}

theorem PhaseOk.frame {key : Key} {phase : UploadPhase} (h : PhaseOk s key phase)
    (hbody : s'.bodies key = s.bodies key)
    (hmanifest : s'.manifests.get key = s.manifests.get key)
    (htaken : s'.taken key → s.taken key) : PhaseOk s' key phase := by
  cases phase with
  | staged => trivial
  | locked => trivial
  | checked stored =>
      rw [PhaseOk, hbody, hmanifest]
      exact h
  | validated stored preExisted =>
      rw [PhaseOk, hbody, hmanifest]
      exact h
  | bodied stored preExisted =>
      rw [PhaseOk, hbody, hmanifest]
      exact h
  | published stored =>
      rw [PhaseOk, Stored, hbody, hmanifest]
      exact h
  | selected stored existing =>
      rw [PhaseOk, Stored, hbody, hmanifest]
      exact h
  | removing second => exact fun h' => h (htaken h')

/-- Disk and rows differ at one key at most. -/
structure OffKey (key : Key) (s s' : State) : Prop where
  lists : s'.lists = s.lists
  uploads : s'.uploads = s.uploads
  bodies : ∀ k, k ≠ key → s'.bodies k = s.bodies k
  manifests : ∀ k, k ≠ key → s'.manifests.get k = s.manifests.get k
  rows : ∀ k, k ≠ key → s'.rows.get k = s.rows.get k

theorem OffKey.refl (key : Key) (s : State) : OffKey key s s where
  lists := rfl
  uploads := rfl
  bodies := fun _ _ => rfl
  manifests := fun _ _ => rfl
  rows := fun _ _ => rfl

/-- One upload has gone on or has ended. -/
structure Moves (s s' : State) (i : RequestId) (u : Upload) (after : Option UploadPhase) :
    Prop where
  lists : s'.lists = s.lists
  self : s'.uploads.get i = after.map fun phase => { u with phase := phase }
  others : ∀ i', i' ≠ i → s'.uploads.get i' = s.uploads.get i'
  bodies : ∀ k, k ≠ u.key → s'.bodies k = s.bodies k
  manifests : ∀ k, k ≠ u.key → s'.manifests.get k = s.manifests.get k
  rows : ∀ k, k ≠ u.key → s'.rows.get k = s.rows.get k

theorem OffKey.goto (h : OffKey u.key s s₁) (hu : s.uploads.get i = some u)
    (phase : UploadPhase) : Moves s (s₁.goto i phase) i u (some phase) where
  lists := h.lists
  self := by
    show (s₁.uploads.modify i _).get i = _
    rw [Table.get_modify_self, h.uploads, hu]
    rfl
  others := by
    intro i' hi
    show (s₁.uploads.modify i _).get i' = _
    rw [Table.get_modify_ne _ _ hi, h.uploads]
  bodies := h.bodies
  manifests := h.manifests
  rows := h.rows

theorem OffKey.finish (h : OffKey u.key s s₁) : Moves s (s₁.finish i) i u none where
  lists := h.lists
  self := by
    show (s₁.uploads.erase i).get i = _
    rw [Table.get_erase, if_pos rfl]
    rfl
  others := by
    intro i' hi
    show (s₁.uploads.erase i).get i' = _
    rw [Table.get_erase, if_neg hi, h.uploads]
  bodies := h.bodies
  manifests := h.manifests
  rows := h.rows

/-- Off its key an upload takes nothing. -/
theorem Moves.taken_off (h : Moves s s' i u after) {k : Key} (hk : k ≠ u.key) :
    s'.taken k → s.taken k := by
  rintro (hrow | ⟨j, l, hl, hmem⟩)
  · rw [h.rows k hk] at hrow
    exact .inl hrow
  · rw [h.lists] at hl
    exact .inr ⟨j, l, hl, hmem⟩

/-- **An upload that holds its lock** has to answer for its own key only. -/
theorem Inv.move (h : Inv s) (hu : s.uploads.get i = some u) (hholds : u.phase.holds = true)
    (hm : Moves s s' i u after) (htaken : s'.taken u.key → Stored s' u.key)
    (hmanifest : (s'.manifests.get u.key).isSome = true →
      s'.bodies u.key = true ∨ after = some (.removing true))
    (hphase : ∀ phase, after = some phase → PhaseOk s' u.key phase) : Inv s' where
  taken := by
    intro k hk
    by_cases hkey : k = u.key
    · subst hkey
      exact htaken hk
    · obtain ⟨hbody, hmani⟩ := h.taken k (hm.taken_off hkey hk)
      exact ⟨(hm.bodies k hkey).trans hbody, (hm.manifests k hkey).symm ▸ hmani⟩
  manifest := by
    intro k hk
    by_cases hkey : k = u.key
    · subst hkey
      rcases hmanifest hk with hbody | hremoving
      · exact .inl hbody
      · refine .inr ⟨i, { u with phase := .removing true }, ?_, rfl, rfl⟩
        rw [hm.self, hremoving]
        rfl
    · rw [hm.manifests k hkey] at hk
      rcases h.manifest k hk with hbody | ⟨i', u', hu', hk', hremoving⟩
      · exact .inl ((hm.bodies k hkey).trans hbody)
      · refine .inr ⟨i', u', ?_, hk', hremoving⟩
        rw [hm.others i', hu']
        rintro rfl
        rw [hu] at hu'
        obtain rfl := Option.some.inj hu'
        exact hkey hk'.symm
  lock := by
    -- the upload held the lock before
    have hold : ∀ i' u', s'.uploads.get i' = some u' → u'.phase.holds = true →
        ∃ v, s.uploads.get i' = some v ∧ v.phase.holds = true ∧ v.key = u'.key := by
      intro i' u' hu' hh
      by_cases hi : i' = i
      · subst hi
        rw [hm.self] at hu'
        obtain ⟨phase, -, rfl⟩ := Option.map_eq_some_iff.mp hu'
        exact ⟨u, hu, hholds, rfl⟩
      · rw [hm.others i' hi] at hu'
        exact ⟨u', hu', hh, rfl⟩
    intro i₁ i₂ u₁ u₂ h₁ h₂ hh₁ hh₂ hsha
    obtain ⟨v₁, hv₁, hvh₁, hk₁⟩ := hold i₁ u₁ h₁ hh₁
    obtain ⟨v₂, hv₂, hvh₂, hk₂⟩ := hold i₂ u₂ h₂ hh₂
    refine h.lock i₁ i₂ v₁ v₂ hv₁ hv₂ hvh₁ hvh₂ ?_
    rw [hk₁, hk₂]
    exact hsha
  phase := by
    intro i' u' hu'
    by_cases hi : i' = i
    · subst hi
      rw [hm.self] at hu'
      obtain ⟨phase, hafter, rfl⟩ := Option.map_eq_some_iff.mp hu'
      exact hphase phase hafter
    · rw [hm.others i' hi] at hu'
      have hok := h.phase i' u' hu'
      by_cases hh : u'.phase.holds = true
      · -- it works on another content
        have hkey : u'.key ≠ u.key := by
          intro heq
          exact hi (h.lock i' i u' u hu' hu hh hholds (congrArg Key.sha256 heq))
        exact hok.frame (hm.bodies _ hkey) (hm.manifests _ hkey) (hm.taken_off hkey)
      · cases hp : u'.phase with
        | staged => trivial
        | locked | checked _ | validated _ _ | bodied _ _ | published _ | selected _ _
          | removing _ =>
            rw [hp] at hh
            exact absurd rfl hh

/-- Nothing is taken of an artifact that is not stored. -/
theorem Inv.not_taken (h : Inv s) {k : Key} (hnone : s.manifests.get k = none) : ¬ s.taken k := by
  intro htaken
  have hsome := (h.taken k htaken).2
  rw [hnone] at hsome
  cases hsome

theorem Inv.acquire (h : Inv s) (hu : s.uploads.get i = some u)
    (hfree : ∀ i' u', s.uploads.get i' = some u' → u'.phase.holds = true →
      u'.key.sha256 ≠ u.key.sha256) (hstaged : u.phase = .staged) : Inv (s.goto i .locked) where
  taken := h.taken
  manifest := by
    intro k hk
    rcases h.manifest k hk with hbody | ⟨i', u', hu', hkey, hremoving⟩
    · exact .inl hbody
    · refine .inr ⟨i', u', ?_, hkey, hremoving⟩
      have hi : i' ≠ i := by
        rintro rfl
        rw [hu] at hu'
        obtain rfl := Option.some.inj hu'
        rw [hstaged] at hremoving
        cases hremoving
      exact ((OffKey.refl u.key s).goto hu .locked).others i' hi ▸ hu'
  lock := by
    have hm := (OffKey.refl u.key s).goto hu .locked
    have hself : ∀ u', (s.goto i .locked).uploads.get i = some u' → u'.key = u.key := by
      intro u' hu'
      rw [hm.self] at hu'
      obtain ⟨phase, -, rfl⟩ := Option.map_eq_some_iff.mp hu'
      rfl
    intro i₁ i₂ u₁ u₂ h₁ h₂ hh₁ hh₂ hsha
    by_cases hi₁ : i₁ = i
    · by_cases hi₂ : i₂ = i
      · rw [hi₁, hi₂]
      · subst hi₁
        rw [hm.others i₂ hi₂] at h₂
        rw [hself u₁ h₁] at hsha
        exact absurd hsha.symm (hfree i₂ u₂ h₂ hh₂)
    · rw [hm.others i₁ hi₁] at h₁
      by_cases hi₂ : i₂ = i
      · subst hi₂
        rw [hself u₂ h₂] at hsha
        exact absurd hsha (hfree i₁ u₁ h₁ hh₁)
      · rw [hm.others i₂ hi₂] at h₂
        exact h.lock i₁ i₂ u₁ u₂ h₁ h₂ hh₁ hh₂ hsha
  phase := by
    have hm := (OffKey.refl u.key s).goto hu .locked
    intro i' u' hu'
    by_cases hi : i' = i
    · subst hi
      rw [hm.self] at hu'
      obtain ⟨phase, hp, rfl⟩ := Option.map_eq_some_iff.mp hu'
      obtain rfl := Option.some.inj hp
      trivial
    · rw [hm.others i' hi] at hu'
      exact (h.phase i' u' hu').frame rfl rfl fun ht => ht

/-- An upload waits for its lock. -/
theorem Inv.upload (h : Inv s) (hnew : s.uploads.get i = none) {key : Key} {m : Manifest} :
    Inv { s with uploads := s.uploads.insert i { key := key, manifest := m } } := by
  have hget : ∀ i' u', (s.uploads.insert i { key := key, manifest := m }).get i' = some u' →
      s.uploads.get i' = some u' ∨ u'.phase = .staged := by
    intro i' u' hu'
    rw [Table.get_insert _ _ hnew] at hu'
    split at hu'
    · obtain rfl := Option.some.inj hu'
      exact .inr rfl
    · exact .inl hu'
  constructor
  case taken => exact h.taken
  case manifest =>
    intro k hk
    rcases h.manifest k hk with hbody | ⟨i', u', hu', hkey, hp⟩
    · exact .inl hbody
    · refine .inr ⟨i', u', ?_, hkey, hp⟩
      show (s.uploads.insert i _).get i' = some u'
      rw [Table.get_insert _ _ hnew, if_neg]
      · exact hu'
      · rintro rfl
        rw [hnew] at hu'
        cases hu'
  case lock =>
    intro i₁ i₂ u₁ u₂ h₁ h₂ hh₁ hh₂
    rcases hget i₁ u₁ h₁ with hold₁ | hstaged
    · rcases hget i₂ u₂ h₂ with hold₂ | hstaged
      · exact h.lock i₁ i₂ u₁ u₂ hold₁ hold₂ hh₁ hh₂
      · rw [hstaged] at hh₂
        cases hh₂
    · rw [hstaged] at hh₁
      cases hh₁
  case phase =>
    intro i' u' hu'
    rcases hget i' u' hu' with hold | hstaged
    · exact (h.phase i' u' hold).frame rfl rfl fun ht => ht
    · rw [hstaged]
      trivial

/-- An upload that has published nothing, or nothing new, ends. -/
theorem Inv.finish (h : Inv s) (hu : s.uploads.get i = some u)
    (hremoving : u.phase ≠ .removing true) : Inv (s.finish i) := by
  have hold : ∀ i' u', (s.finish i).uploads.get i' = some u' → s.uploads.get i' = some u' := by
    intro i' u' hu'
    change (s.uploads.erase i).get i' = some u' at hu'
    rw [Table.get_erase] at hu'
    split at hu'
    · cases hu'
    · exact hu'
  constructor
  case taken => exact h.taken
  case manifest =>
    intro k hk
    rcases h.manifest k hk with hbody | ⟨i', u', hu', hkey, hp⟩
    · exact .inl hbody
    · refine .inr ⟨i', u', ?_, hkey, hp⟩
      show (s.uploads.erase i).get i' = some u'
      rw [Table.get_erase, if_neg]
      · exact hu'
      · rintro rfl
        rw [hu] at hu'
        obtain rfl := Option.some.inj hu'
        exact hremoving hp
  case lock =>
    intro i₁ i₂ u₁ u₂ h₁ h₂
    exact h.lock i₁ i₂ u₁ u₂ (hold i₁ u₁ h₁) (hold i₂ u₂ h₂)
  case phase =>
    intro i' u' hu'
    exact (h.phase i' u' (hold i' u' hu')).frame rfl rfl fun ht => ht

/-- An upload goes on without touching the disk. -/
theorem Inv.goto (h : Inv s) (hu : s.uploads.get i = some u) (hholds : u.phase.holds = true)
    (hremoving : u.phase ≠ .removing true) {phase : UploadPhase}
    (hphase : PhaseOk s u.key phase) : Inv (s.goto i phase) := by
  refine h.move hu hholds ((OffKey.refl u.key s).goto hu phase) (h.taken u.key) ?_ ?_
  · intro hsome
    rcases h.manifest u.key hsome with hbody | ⟨i', u', hu', hkey, hremoving'⟩
    · exact .inl hbody
    · have hi : i' = i := h.lock i' i u' u hu' hu (by rw [hremoving']; rfl) hholds
        (congrArg Key.sha256 hkey)
      subst hi
      rw [hu] at hu'
      obtain rfl := Option.some.inj hu'
      exact absurd hremoving' hremoving
  · intro p hp
    obtain rfl := Option.some.inj hp
    exact hphase.frame rfl rfl fun ht => ht

/-- **A failure** is rolled back where nothing is taken. -/
theorem Inv.rollback (h : Inv s) (hu : s.uploads.get i = some u) (hholds : u.phase.holds = true)
    (hremoving : u.phase ≠ .removing true) {stored : Bool}
    (hfree : stored = false → ¬ s.taken u.key) : Inv (s.rollback i stored) := by
  cases stored with
  | true => exact h.finish hu hremoving
  | false => exact h.goto hu hholds hremoving (hfree rfl)

theorem Inv.placeBody (h : Inv s) (hu : s.uploads.get i = some u) {stored preExisted : Bool}
    (hphase : u.phase = .validated stored preExisted) :
    Inv ({ s with bodies := Function.update s.bodies u.key true }.goto i
      (.bodied stored preExisted)) := by
  have hok := h.phase i u hu
  rw [hphase] at hok
  obtain ⟨hpre, -, hnone⟩ := hok
  have hbody : Function.update s.bodies u.key true u.key = true := Function.update_self _ _ _
  have hoff : OffKey u.key s { s with bodies := Function.update s.bodies u.key true } :=
    { OffKey.refl u.key s with bodies := fun k hk => Function.update_of_ne hk _ _ }
  refine h.move hu (by rw [hphase]; rfl) (hoff.goto hu _) ?_ (fun _ => .inl hbody) ?_
  · exact fun ht => ⟨hbody, (h.taken u.key ht).2⟩
  · intro p hp
    obtain rfl := Option.some.inj hp
    exact ⟨hpre, hbody, hnone⟩

theorem Inv.placeManifest (h : Inv s) (hu : s.uploads.get i = some u) {stored preExisted : Bool}
    (hphase : u.phase = .bodied stored preExisted) :
    Inv ({ s with manifests := s.manifests.put u.key u.manifest }.goto i
      (.published stored)) := by
  have hok := h.phase i u hu
  rw [hphase] at hok
  obtain ⟨-, hbody, -⟩ := hok
  have hput : ((s.manifests.put u.key u.manifest).get u.key).isSome = true := by
    rw [Table.get_put, if_pos rfl]
    rfl
  have hoff : OffKey u.key s { s with manifests := s.manifests.put u.key u.manifest } :=
    { OffKey.refl u.key s with manifests := fun k hk =>
        (Table.get_put s.manifests u.key u.manifest k).trans (if_neg hk) }
  refine h.move hu (by rw [hphase]; rfl) (hoff.goto hu _) (fun _ => ⟨hbody, hput⟩)
    (fun _ => .inl hbody) ?_
  intro p hp
  obtain rfl := Option.some.inj hp
  exact ⟨hbody, hput⟩

/-- **The commit** writes the row of a stored artifact. -/
theorem Inv.commit (h : Inv s) (hu : s.uploads.get i = some u) {stored existing : Bool}
    (hphase : u.phase = .selected stored existing) (row : Row) :
    Inv ({ s with rows := s.rows.put u.key row }.finish i) := by
  have hok := h.phase i u hu
  rw [hphase] at hok
  have hoff : OffKey u.key s { s with rows := s.rows.put u.key row } :=
    { OffKey.refl u.key s with rows := fun k hk =>
        (Table.get_put s.rows u.key row k).trans (if_neg hk) }
  exact h.move hu (by rw [hphase]; rfl) hoff.finish (fun _ => hok) (fun _ => .inl hok.1)
    fun p hp => by cases hp

/-- **The body is removed** of an artifact that is not taken. -/
theorem Inv.unlinkBody (h : Inv s) (hu : s.uploads.get i = some u)
    (hphase : u.phase = .removing false) (ok : Bool) :
    Inv ((if ok then { s with bodies := Function.update s.bodies u.key false } else s).goto i
      (.removing true)) := by
  have hok : ¬ s.taken u.key := by
    have hok := h.phase i u hu
    rw [hphase] at hok
    exact hok
  have hoff : OffKey u.key s
      (if ok then { s with bodies := Function.update s.bodies u.key false } else s) := by
    split
    · exact { OffKey.refl u.key s with bodies := fun k hk => Function.update_of_ne hk _ _ }
    · exact OffKey.refl u.key s
  have htaken : State.taken ((if ok then
      { s with bodies := Function.update s.bodies u.key false } else s).goto i (.removing true))
      u.key → s.taken u.key := by
    split
    · exact fun ht => ht
    · exact fun ht => ht
  refine h.move hu (by rw [hphase]; rfl) (hoff.goto hu _) (fun ht => absurd (htaken ht) hok)
    (fun _ => .inr rfl) ?_
  intro p hp
  obtain rfl := Option.some.inj hp
  exact fun ht => hok (htaken ht)

/-- **The manifest is removed** with its body. -/
theorem Inv.unlinkManifest (h : Inv s) (hu : s.uploads.get i = some u)
    (hphase : u.phase = .removing true) {ok : Bool} (hdone : ok = true ∨ s.bodies u.key = true) :
    Inv ((if ok then { s with manifests := s.manifests.erase u.key } else s).finish i) := by
  have hok : ¬ s.taken u.key := by
    have hok := h.phase i u hu
    rw [hphase] at hok
    exact hok
  cases ok with
  | false =>
      refine h.move hu (by rw [hphase]; rfl) (OffKey.refl u.key s).finish
        (fun ht => absurd ht hok) (fun _ => .inl ?_) fun p hp => by cases hp
      exact hdone.resolve_left Bool.false_ne_true
  | true =>
      have hgone : (s.manifests.erase u.key).get u.key = none := by
        rw [Table.get_erase, if_pos rfl]
      have hoff : OffKey u.key s { s with manifests := s.manifests.erase u.key } :=
        { OffKey.refl u.key s with manifests := fun k hk =>
            (Table.get_erase s.manifests u.key k).trans (if_neg hk) }
      refine h.move hu (by rw [hphase]; rfl) hoff.finish (fun ht => absurd ht hok) ?_
        fun p hp => by cases hp
      intro hsome
      change ((s.manifests.erase u.key).get u.key).isSome = true at hsome
      rw [hgone] at hsome
      cases hsome

/-! ### Listings -/

/-- A listing may take what is stored and is not being removed. -/
def Free (s : State) (key : Key) : Prop :=
  Stored s key ∧ ∀ i u, s.uploads.get i = some u → u.phase.isRemoving = true → u.key ≠ key

/-- **A listing** leaves the disk and the uploads as they are. -/
theorem Inv.listed (h : Inv s) (hbodies : s'.bodies = s.bodies)
    (hmanifests : s'.manifests = s.manifests) (huploads : s'.uploads = s.uploads)
    (htaken : ∀ k, s'.taken k → s.taken k ∨ Free s k) : Inv s' where
  taken := by
    intro k hk
    rw [Stored, hbodies, hmanifests]
    rcases htaken k hk with hold | hfree
    · exact h.taken k hold
    · exact hfree.1
  manifest := by
    rw [hbodies, hmanifests, huploads]
    exact h.manifest
  lock := by
    rw [huploads]
    exact h.lock
  phase := by
    intro i u hu
    rw [huploads] at hu
    have hok := h.phase i u hu
    have hbody : s'.bodies u.key = s.bodies u.key := by rw [hbodies]
    have hmanifest : s'.manifests.get u.key = s.manifests.get u.key := by rw [hmanifests]
    cases hp : u.phase with
    | removing second =>
        intro ht
        rw [hp] at hok
        rcases htaken u.key ht with hold | hfree
        · exact hok hold
        · exact hfree.2 i u hu (by rw [hp]; rfl) rfl
    | staged | locked => trivial
    | checked _ | validated _ _ | bodied _ _ | published _ | selected _ _ =>
        rw [hp] at hok
        simp only [PhaseOk, Stored, hbody, hmanifest] at hok ⊢
        exact hok

theorem Inv.relisted (h : Inv s) {lists : Table RequestId Listing}
    (hheld : ∀ j l, lists.get j = some l → s.lists.get j = some l ∨
      ∀ k ∈ l.held.map Prod.fst, s.taken k ∨ Free s k) : Inv { s with lists := lists } := by
  refine h.listed rfl rfl rfl fun k hk => ?_
  rcases hk with hrow | ⟨j, l, hl, hmem⟩
  · exact .inl (.inl hrow)
  · rcases hheld j l hl with hold | hnew
    · exact .inl (.inr ⟨j, l, hold, hmem⟩)
    · exact hnew k hmem

variable {j : RequestId} {l : Listing}

theorem Inv.gotoList (h : Inv s) (hl : s.lists.get j = some l) {phase : ListPhase}
    (hheld : ∀ k ∈ Listing.held { l with phase := phase } |>.map Prod.fst,
      k ∈ l.held.map Prod.fst ∨ Free s k) : Inv (s.gotoList j phase) := by
  refine h.relisted fun j' l' hl' => ?_
  rw [Table.get_modify] at hl'
  split at hl'
  · rename_i hj
    rw [hj, hl] at hl'
    obtain rfl := Option.some.inj hl'
    refine .inr fun k hk => ?_
    rcases hheld k hk with hold | hfree
    · exact .inl (.inr ⟨j, l, hl, hold⟩)
    · exact .inr hfree
  · exact .inl hl'

theorem Inv.eraseList (h : Inv s) (j : RequestId) :
    Inv { s with lists := s.lists.erase j } := by
  refine h.relisted fun j' l' hl' => .inl ?_
  rw [Table.get_erase] at hl'
  split at hl'
  · cases hl'
  · exact hl'

theorem Inv.nextStore (h : Inv s) (j : RequestId) (kind : Kind) : Inv (s.nextStore j kind) := by
  cases kind with
  | wheel => exact h.eraseList j
  | egg =>
      refine h.relisted fun j' l' hl' => ?_
      rw [Table.get_modify] at hl'
      split at hl'
      · obtain ⟨l, -, rfl⟩ := Option.map_eq_some_iff.mp hl'
        exact .inr fun k hk => absurd hk List.not_mem_nil
      · exact .inl hl'

theorem backfill_isSome {rows : Table Key Row} {missing : List (Key × Manifest)} {k : Key}
    (h : ((backfill rows missing).get k).isSome = true) :
    (rows.get k).isSome = true ∨ k ∈ missing.map Prod.fst := by
  induction missing generalizing rows with
  | nil => exact .inl h
  | cons r missing ih =>
      rw [List.map_cons, List.mem_cons]
      rcases ih h with hput | hmem
      · rw [Table.get_put] at hput
        split at hput
        · rename_i hk
          exact .inr (.inl hk)
        · exact .inl hput
      · exact .inr (.inr hmem)

/-- **A listing writes rows** of what it holds. -/
theorem Inv.backfill (h : Inv s) (hl : s.lists.get j = some l)
    {missing : List (Key × Manifest)} (hphase : l.phase = .backfilling [] missing) :
    Inv { s with rows := backfill s.rows missing } := by
  have hheld : l.held = missing := by rw [Listing.held, hphase]; rfl
  refine h.listed rfl rfl rfl fun k hk => .inl ?_
  rcases hk with hrow | hlist
  · rcases backfill_isSome hrow with hold | hmem
    · exact .inl hold
    · exact .inr ⟨j, l, hl, hheld ▸ hmem⟩
  · exact .inr hlist

/-! ### Steps of a run -/

theorem Inv.stepUpload (h : Inv s) (hu : s.uploads.get i = some u) {a : UploadStep}
    (ha : Undisturbed s (.stepUpload i a)) (hs : stepUpload s i u a = some s') : Inv s' := by
  have hok := h.phase i u hu
  cases a with
  | acquire =>
      rw [ArtifactStore.stepUpload] at hs
      split at hs
      · rename_i hguard
        obtain ⟨hstaged, hall⟩ := hguard
        obtain rfl := Option.some.inj hs
        refine h.acquire hu (fun i' u' hu' hholds hsha => ?_) hstaged
        have hone := List.all_eq_true.mp hall (i', u') (Table.mem_rows_iff.mpr hu')
        simp [hholds, hsha] at hone
      · cases hs
  | check =>
      rw [ArtifactStore.stepUpload] at hs
      split at hs
      · rename_i hlocked
        obtain rfl := Option.some.inj hs
        have hholds : u.phase.holds = true := by rw [hlocked]; rfl
        have hremoving : u.phase ≠ .removing true := by rw [hlocked]; exact UploadPhase.noConfusion
        refine h.goto hu hholds hremoving ⟨rfl, fun hbody => ?_⟩
        -- a manifest without its body would be another upload's
        cases hm : s.manifests.get u.key with
        | none => rfl
        | some m =>
            rcases h.manifest u.key (by rw [hm]; rfl) with hsome | ⟨i', u', hu', hkey, hp⟩
            · rw [hbody] at hsome
              cases hsome
            · have hi : i' = i := h.lock i' i u' u hu' hu (by rw [hp]; rfl) hholds
                (congrArg Key.sha256 hkey)
              subst hi
              rw [hu] at hu'
              obtain rfl := Option.some.inj hu'
              exact absurd hp hremoving
      · cases hs
  | validate =>
      rw [ArtifactStore.stepUpload] at hs
      split at hs
      · rename_i stored hp
        obtain rfl := Option.some.inj hs
        rw [hp] at hok
        exact h.goto hu (by rw [hp]; rfl) (by rw [hp]; exact UploadPhase.noConfusion)
          ⟨hok.1, hok.1, hok.2⟩
      · cases hs
  | placeBody =>
      rw [ArtifactStore.stepUpload] at hs
      split at hs
      · rename_i stored preExisted hp
        obtain rfl := Option.some.inj hs
        exact h.placeBody hu hp
      · cases hs
  | placeManifest ok =>
      rw [ArtifactStore.stepUpload] at hs
      split at hs
      · rename_i stored preExisted hp
        split at hs
        · obtain rfl := Option.some.inj hs
          exact h.placeManifest hu hp
        · obtain rfl := Option.some.inj hs
          rw [hp] at hok
          obtain ⟨rfl, -, hnone⟩ := hok
          exact h.rollback hu (by rw [hp]; rfl) (by rw [hp]; exact UploadPhase.noConfusion)
            fun hstored => h.not_taken (hnone hstored)
      · cases hs
  | select =>
      rw [ArtifactStore.stepUpload] at hs
      split at hs
      · rename_i stored hp
        obtain rfl := Option.some.inj hs
        rw [hp] at hok
        exact h.goto hu (by rw [hp]; rfl) (by rw [hp]; exact UploadPhase.noConfusion) hok
      · cases hs
  | commit outcome =>
      rw [ArtifactStore.stepUpload] at hs
      split at hs
      · rename_i stored existing hp
        have hholds : u.phase.holds = true := by rw [hp]; rfl
        have hremoving : u.phase ≠ .removing true := by rw [hp]; exact UploadPhase.noConfusion
        split at hs
        · rename_i hfails
          obtain rfl := Option.some.inj hs
          refine h.rollback hu hholds hremoving fun hstored => ?_
          subst hstored
          rcases ha u existing hu hp with ⟨rfl, hclash⟩ | ⟨-, hfree⟩
          · rw [hclash] at hfails
            rcases hfails with hfailed | hclash
            · cases hfailed
            · cases hclash
          · exact hfree
        · rename_i hfails
          have hdone : Inv ({ s with rows := s.rows.put u.key u.manifest.row }.finish i) :=
            h.commit hu hp u.manifest.row
          dsimp only at hs
          split at hs
          · rename_i hlost
            obtain rfl := Option.some.inj hs
            cases stored with
            | true => exact hdone
            | false =>
                rcases ha u existing hu hp with ⟨rfl, -⟩ | ⟨hfailed, -⟩
                · cases hlost
                · exact absurd (.inl hfailed) hfails
          · obtain rfl := Option.some.inj hs
            exact hdone
      · cases hs
  | fail =>
      have hfree : ∀ stored, u.phase = .published stored ∨ (∃ existing,
          u.phase = .selected stored existing) → stored = false → ¬ s.taken u.key := by
        rintro stored (hp | ⟨existing, hp⟩) rfl
        · exact ha u hu (by rw [hp]; rfl)
        · exact ha u hu (by rw [hp]; rfl)
      rw [ArtifactStore.stepUpload] at hs
      cases hp : u.phase with
      | staged | locked | checked _ | validated _ _ =>
          rw [hp] at hs
          obtain rfl := Option.some.inj hs
          exact h.finish hu (by rw [hp]; exact UploadPhase.noConfusion)
      | published stored =>
          rw [hp] at hs
          obtain rfl := Option.some.inj hs
          exact h.rollback hu (by rw [hp]; rfl) (by rw [hp]; exact UploadPhase.noConfusion)
            (hfree stored (.inl hp))
      | selected stored existing =>
          rw [hp] at hs
          obtain rfl := Option.some.inj hs
          exact h.rollback hu (by rw [hp]; rfl) (by rw [hp]; exact UploadPhase.noConfusion)
            (hfree stored (.inr ⟨existing, hp⟩))
      | bodied _ _ | removing _ =>
          rw [hp] at hs
          cases hs
  | unlink ok =>
      rw [ArtifactStore.stepUpload] at hs
      split at hs
      · rename_i hp
        obtain rfl := Option.some.inj hs
        exact h.unlinkBody hu hp ok
      · rename_i hp
        obtain rfl := Option.some.inj hs
        exact h.unlinkManifest hu hp (ha u hu hp)
      · cases hs

theorem Inv.stepList (h : Inv s) (hl : s.lists.get j = some l) {a : ListStep}
    (ha : Undisturbed s (.stepList j a)) (hs : stepList s j l a = some s') : Inv s' := by
  cases a with
  | glob =>
      rw [ArtifactStore.stepList] at hs
      split at hs
      · obtain rfl := Option.some.inj hs
        exact h.gotoList hl fun k hk => absurd hk List.not_mem_nil
      · cases hs
  | read =>
      rw [ArtifactStore.stepList] at hs
      split at hs
      · rename_i key todo found hp
        have hheld : l.held = found := by rw [Listing.held, hp]
        obtain rfl := Option.some.inj hs
        refine h.gotoList hl fun k hk => ?_
        change k ∈ (found ++ _).map Prod.fst at hk
        rw [List.map_append, List.mem_append] at hk
        rcases hk with hold | hnew
        · exact .inl (hheld ▸ hold)
        · -- the manifest is on disk, and nobody removes it
          cases hm : s.manifests.get key with
          | none =>
              rw [hm] at hnew
              cases hnew
          | some m =>
              rw [hm] at hnew
              obtain rfl : k = key := List.mem_singleton.mp hnew
              have hfree := ha l k todo found hl hp
              refine .inr ⟨⟨?_, by rw [hm]; rfl⟩, hfree⟩
              rcases h.manifest k (by rw [hm]; rfl) with hbody | ⟨i, u, hu, hkey, hremoving⟩
              · exact hbody
              · exact absurd hkey (hfree i u hu (by rw [hremoving]; rfl))
      · rename_i found hp
        have hheld : l.held = found := by rw [Listing.held, hp]
        obtain rfl := Option.some.inj hs
        refine h.gotoList hl fun k hk => .inl ?_
        change k ∈ (found.mergeSort _ ++ []).map Prod.fst at hk
        rw [List.append_nil] at hk
        obtain ⟨r, hr, rfl⟩ := List.mem_map.mp hk
        rw [hheld]
        exact List.mem_map.mpr ⟨r, List.mem_mergeSort.mp hr, rfl⟩
      · cases hs
  | lookup =>
      rw [ArtifactStore.stepList] at hs
      split at hs
      · rename_i r todo missing hp
        have hheld : l.held = r :: todo ++ missing := by rw [Listing.held, hp]
        obtain rfl := Option.some.inj hs
        refine h.gotoList hl fun k hk => .inl ?_
        obtain ⟨x, hx, rfl⟩ := List.mem_map.mp hk
        rw [hheld]
        refine List.mem_map.mpr ⟨x, ?_, rfl⟩
        rcases List.mem_append.mp hx with hx | hx
        · exact List.mem_append_left _ (List.mem_cons_of_mem r hx)
        · split at hx
          · exact List.mem_append_right _ hx
          · rcases List.mem_append.mp hx with hx | hx
            · exact List.mem_append_right _ hx
            · obtain rfl := List.mem_singleton.mp hx
              exact List.mem_append_left _ List.mem_cons_self
      · cases hs
  | commit outcome =>
      rw [ArtifactStore.stepList] at hs
      split at hs
      · rename_i missing hp
        split at hs
        · obtain rfl := Option.some.inj hs
          exact h.nextStore j l.kind
        · split at hs
          · obtain rfl := Option.some.inj hs
            exact h.eraseList j
          · have hrows := h.backfill hl hp
            dsimp only at hs
            split at hs
            · obtain rfl := Option.some.inj hs
              exact hrows.eraseList j
            · obtain rfl := Option.some.inj hs
              exact hrows.nextStore j l.kind
      · cases hs
  | fail =>
      obtain rfl := Option.some.inj hs
      exact h.eraseList j

/-- **One step** that meets the condition keeps the invariant. -/
theorem Inv.step (h : Inv s) {a : Action} (ha : Undisturbed s a) (hs : step s a = some s') :
    Inv s' := by
  cases a with
  | upload i key manifest =>
      rw [ArtifactStore.step] at hs
      split at hs
      · cases hs
      · rename_i hnew
        obtain rfl := Option.some.inj hs
        exact h.upload (Option.not_isSome_iff_eq_none.mp hnew)
  | list j =>
      rw [ArtifactStore.step] at hs
      split at hs
      · cases hs
      · rename_i hnew
        obtain rfl := Option.some.inj hs
        refine h.relisted fun j' l' hl' => ?_
        rw [Table.get_insert _ _ (Option.not_isSome_iff_eq_none.mp hnew)] at hl'
        split at hl'
        · obtain rfl := Option.some.inj hl'
          exact .inr fun k hk => absurd hk List.not_mem_nil
        · exact .inl hl'
  | stepUpload i a =>
      obtain ⟨u, hu, hs⟩ := Option.bind_eq_some_iff.mp hs
      exact h.stepUpload hu ha hs
  | stepList j a =>
      obtain ⟨l, hl, hs⟩ := Option.bind_eq_some_iff.mp hs
      exact h.stepList hl ha hs

end Steps

/-! ### Runs -/

theorem Inv.start : Inv start where
  taken := by
    rintro k (hrow | ⟨j, l, hl, -⟩)
    · cases hrow
    · cases hl
  manifest := by
    intro k hk
    cases hk
  lock := by
    intro i i' u u' hu
    cases hu
  phase := by
    intro i u hu
    cases hu

theorem rollback_rows (s : State) (i : RequestId) (stored : Bool) :
    (s.rollback i stored).rows = s.rows := by
  cases stored with
  | true => rfl
  | false => rfl

theorem nextStore_rows (s : State) (j : RequestId) (kind : Kind) :
    (s.nextStore j kind).rows = s.rows := by
  cases kind with
  | egg => rfl
  | wheel => rfl

theorem put_isSome {rows : Table Key Row} {k : Key} (h : (rows.get k).isSome = true) (key : Key)
    (row : Row) : ((rows.put key row).get k).isSome = true := by
  rw [Table.get_put]
  split
  · rfl
  · exact h

theorem backfill_keeps {rows : Table Key Row} {k : Key} (h : (rows.get k).isSome = true)
    (missing : List (Key × Manifest)) : ((backfill rows missing).get k).isSome = true := by
  induction missing generalizing rows with
  | nil => exact h
  | cons r missing ih => exact ih (put_isSome h r.1 r.2.row)

/-- Rows are never deleted. -/
theorem rows_kept {s s' : State} {a : Action} (hs : step s a = some s') {k : Key}
    (h : (s.rows.get k).isSome = true) : (s'.rows.get k).isSome = true := by
  cases a with
  | upload i key manifest =>
      rw [step] at hs
      split at hs
      · cases hs
      · obtain rfl := Option.some.inj hs
        exact h
  | list j =>
      rw [step] at hs
      split at hs
      · cases hs
      · obtain rfl := Option.some.inj hs
        exact h
  | stepUpload i a =>
      obtain ⟨u, -, hs⟩ := Option.bind_eq_some_iff.mp hs
      cases a with
      | commit outcome =>
          rw [stepUpload] at hs
          split at hs
          · split at hs
            · obtain rfl := Option.some.inj hs
              rw [rollback_rows]
              exact h
            · dsimp only at hs
              obtain rfl := Option.some.inj hs
              split
              · rw [rollback_rows]
                exact put_isSome h u.key _
              · exact put_isSome h u.key _
          · cases hs
      | placeManifest ok =>
          rw [stepUpload] at hs
          split at hs
          · split at hs
            · obtain rfl := Option.some.inj hs
              exact h
            · obtain rfl := Option.some.inj hs
              rw [rollback_rows]
              exact h
          · cases hs
      | fail =>
          rw [stepUpload] at hs
          cases hp : u.phase with
          | staged | locked | checked _ | validated _ _ =>
              rw [hp] at hs
              obtain rfl := Option.some.inj hs
              exact h
          | published _ | selected _ _ =>
              rw [hp] at hs
              obtain rfl := Option.some.inj hs
              rw [rollback_rows]
              exact h
          | bodied _ _ | removing _ =>
              rw [hp] at hs
              cases hs
      | unlink ok =>
          rw [stepUpload] at hs
          split at hs
          · obtain rfl := Option.some.inj hs
            cases ok with
            | true => exact h
            | false => exact h
          · obtain rfl := Option.some.inj hs
            cases ok with
            | true => exact h
            | false => exact h
          · cases hs
      | acquire | check | validate | placeBody | select =>
          rw [stepUpload] at hs
          split at hs
          · obtain rfl := Option.some.inj hs
            exact h
          · cases hs
  | stepList j a =>
      obtain ⟨l, -, hs⟩ := Option.bind_eq_some_iff.mp hs
      cases a with
      | glob | lookup =>
          rw [stepList] at hs
          split at hs
          · obtain rfl := Option.some.inj hs
            exact h
          · cases hs
      | read =>
          rw [stepList] at hs
          split at hs
          · obtain rfl := Option.some.inj hs
            exact h
          · obtain rfl := Option.some.inj hs
            exact h
          · cases hs
      | commit outcome =>
          rw [stepList] at hs
          split at hs
          · split at hs
            · obtain rfl := Option.some.inj hs
              rw [nextStore_rows]
              exact h
            · split at hs
              · obtain rfl := Option.some.inj hs
                exact h
              · dsimp only at hs
                obtain rfl := Option.some.inj hs
                split
                · exact backfill_keeps h _
                · rw [nextStore_rows]
                  exact backfill_keeps h _
          · cases hs
      | fail =>
          obtain rfl := Option.some.inj hs
          exact h

/-- **Every committed row has its body and its manifest on disk**, and no request
removes the body of one. -/
theorem rows_stored {s : State} (hrun : StateMachine.RunOk step Undisturbed start s) {key : Key}
    {row : Row} (hrow : s.rows.get key = some row) :
    Stored s key ∧ ∀ a s', Undisturbed s a → step s a = some s' → s'.bodies key = true := by
  have hinv : Inv s := hrun.invariant (fun _ _ _ h ha hs => h.step ha hs) Inv.start
  have hsome : (s.rows.get key).isSome = true := by rw [hrow]; rfl
  refine ⟨hinv.taken key (.inl hsome), ?_⟩
  intro a s' ha hs
  exact ((hinv.step ha hs).taken key (.inl (rows_kept hs hsome))).1

/-! ### A listing that is faster than the upload -/

def sampleKey : Key := ⟨.egg, 1⟩

def sampleManifest : Manifest where
  filename := "crawler.egg".toList
  title := "crawler".toList
  version := "sha256-1".toList
  sizeBytes := 3
  uploadedAt := 0

/-- An upload publishes its artifact and finds no row. -/
def sampleUpload : List Action :=
  .upload 0 sampleKey sampleManifest ::
    [UploadStep.acquire, .check, .validate, .placeBody, .placeManifest true, .select].map
      (.stepUpload 0)

/-- A list request goes through both stores. -/
def sampleListing : List Action :=
  .list 0 :: [ListStep.glob, .read, .read, .lookup, .commit .ok, .glob, .read, .commit .ok].map
    (.stepList 0)

/-- A sufficient condition that can be evaluated: no upload fails. -/
def calm (s : State) : Action → Bool
  | .stepUpload _ .fail => false
  | .stepUpload i (.commit outcome) => decide (outcome = .ok) &&
      (s.uploads.get i).all fun u => !(s.rows.get u.key).isSome
  | .stepUpload _ (.unlink ok) => ok
  | .stepList _ .read => s.uploads.rows.all fun r => !r.2.phase.isRemoving
  | _ => true

theorem calm_undisturbed {s : State} {a : Action} (h : calm s a = true) : Undisturbed s a := by
  cases a with
  | upload | list => trivial
  | stepUpload i a =>
      cases a with
      | fail => cases h
      | commit outcome =>
          intro u existing hu hp
          obtain ⟨hok, hnone⟩ := Bool.and_eq_true_iff.mp h
          rw [hu, Option.all_some, Bool.not_eq_true'] at hnone
          refine .inl ⟨of_decide_eq_true hok, ?_⟩
          rw [State.clash, hnone, Bool.and_false]
      | unlink ok => exact fun _ _ _ => .inl h
      | acquire | check | validate | placeBody | placeManifest _ | select => trivial
  | stepList j a =>
      cases a with
      | read =>
          intro l key todo found hl hp i u hu hremoving
          have hone := List.all_eq_true.mp h (i, u) (Table.mem_rows_iff.mpr hu)
          simp [hremoving] at hone
      | glob | lookup | commit _ | fail => trivial

/-- The upload commits, and the listing finds its row. -/
theorem rows_stored_sample : ∃ s : State, Stored s sampleKey ∧
    (s.rows.get sampleKey).isSome = true := by
  obtain ⟨s, hrun, hs⟩ := StateMachine.RunOk.exists_of_checkedRun step
    (fun s a => calm s a = true) start
    (sampleUpload ++ [.stepUpload 0 (.commit .ok)] ++ sampleListing)
    (fun s => (s.rows.get sampleKey).isSome) (by decide +kernel)
  obtain ⟨row, hrow⟩ := Option.isSome_iff_exists.mp hs
  exact ⟨s, (rows_stored (hrun.mono fun _ _ h => calm_undisturbed h) hrow).1, hs⟩

/-- **A listing that commits first makes the upload fail, which then removes the
body of the listing's row.** -/
theorem not_rows_stored : ¬ ∀ (s : State) (key : Key) (row : Row),
    StateMachine.Run step start s → s.uploads.rows = [] → s.lists.rows = [] →
      s.rows.get key = some row → Stored s key := by
  intro h
  have hrun : ((StateMachine.runList step start (sampleUpload ++ sampleListing ++
      [UploadStep.commit .ok, .unlink true, .unlink true].map (.stepUpload 0))).any fun s =>
        s.uploads.rows.isEmpty && s.lists.rows.isEmpty && (s.rows.get sampleKey).isSome &&
          !s.bodies sampleKey) = true := by decide +kernel
  obtain ⟨s, hs, hend⟩ := (Option.any_eq_true _ _).mp hrun
  simp only [Bool.and_eq_true, List.isEmpty_iff, Bool.not_eq_true'] at hend
  obtain ⟨⟨⟨huploads, hlists⟩, hrow⟩, hbody⟩ := hend
  obtain ⟨row, hrow⟩ := Option.isSome_iff_exists.mp hrow
  have hstored := h s sampleKey row (StateMachine.Run.of_runList hs) huploads hlists hrow
  rw [Stored, hbody] at hstored
  cases hstored.1

end ArtifactStore

end Dopilot
