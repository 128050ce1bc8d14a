/-
Dopilot/ArtifactQuota.lean

The quota of the artifact store.

Before an upload publishes new bytes it asks for them: what is stored, what others
have asked for and its own size must fit the quota.  What is stored is a sum over
the committed rows, what others have asked for is kept in memory until their
requests are over.  The steps of uploads and listings are those of
`ArtifactStore`; beside them runs the admission of every upload.

The total of the rows stays within the quota as long as every row that is new was
asked for, and nobody who has committed gives his bytes back between another
one's look at the total and his own reservation (`storedTotal_le`).
`not_storedTotal_le` has a crash between publication and commit: the body that is
left is counted by the next listing, and nobody has asked for it.
-/
import Dopilot.ArtifactStore
import Mathlib

namespace Dopilot

namespace ArtifactQuota

open ArtifactStore (Key Manifest Row RequestId UploadPhase Listing)

/-! ### Admission -/

/-- Where `reserve_quota` stands for an upload. -/
inductive Admission where
  | waiting
  /-- `_quota_lock` is held and the total is read; `counted` are the artifacts in it. -/
  | summed (current : Nat) (counted : Finset Key)
  /-- The answer, with a reservation or without. -/
  | admitted (reserved : Bool)

/-- The admission of one upload, until its request is over. -/
structure Ticket where
  key : Key
  admission : Admission := .waiting

def Ticket.isSummed (t : Ticket) : Bool :=
  match t.admission with
  | .summed _ _ => true
  | _ => false

def Ticket.isAdmitted (t : Ticket) : Bool :=
  match t.admission with
  | .admitted _ => true
  | _ => false

/-- The ticket is in `_in_flight`. -/
def Ticket.isReserved (t : Ticket) : Bool :=
  match t.admission with
  | .admitted reserved => reserved
  | _ => false

/-- The upload ends without an answer. -/
def Ticket.abandon (t : Ticket) : Ticket :=
  match t.admission with
  | .waiting | .summed _ _ => { t with admission := .admitted false }
  | .admitted _ => t

structure State where
  store : ArtifactStore.State
  tickets : Table RequestId Ticket := .empty

inductive Action where
  | store (a : ArtifactStore.Action)
  /-- `reserve_quota` up to the answer of `stored_total_bytes`. -/
  | sum (i : RequestId)
  /-- The rest of `reserve_quota`. -/
  | reserve (i : RequestId)
  /-- `release_quota`, behind everything else the request does. -/
  | release (i : RequestId)
  /-- The server dies and starts anew. -/
  | crash

/-- `stored_total_bytes`. -/
def storedTotal (rows : Table Key Row) : Nat := (rows.rows.map fun r => r.2.sizeBytes).sum

/-- The artifacts that have rows. -/
def rowKeys (rows : Table Key Row) : Finset Key := (rows.rows.map Prod.fst).toFinset

section Machine

/- A content determines its size. -/
variable (size : Key → Nat) (quota : Nat)

/-- `sum(_in_flight.values())`. -/
def State.inFlight (s : State) : Nat :=
  ((s.tickets.rows.filter fun r => r.2.isReserved).map fun r => size r.2.key).sum

/-- An upload goes on behind its check when it is admitted. -/
def State.permits (s : State) : ArtifactStore.Action → Bool
  | .upload i key manifest =>
      (s.tickets.get i).isNone && decide (manifest.sizeBytes = size key)
  | .stepUpload i .validate => (s.tickets.get i).any Ticket.isAdmitted
  | _ => true

def State.ticketsAfter (s : State) : ArtifactStore.Action → Table RequestId Ticket
  | .upload i key _ => s.tickets.insert i { key := key }
  | .stepUpload i .fail => s.tickets.modify i Ticket.abandon
  | _ => s.tickets

def State.answer (s : State) (i : RequestId) (admission : Admission) : State :=
  { s with tickets := s.tickets.modify i fun t => { t with admission := admission } }

def step (s : State) : Action → Option State
  | .store a =>
      if s.permits size a then
        (ArtifactStore.step s.store a).map fun store =>
          { store := store, tickets := s.ticketsAfter a }
      else none
  | .sum i =>
      match s.store.uploads.get i, s.tickets.get i with
      | some ⟨key, _, .checked stored⟩, some ⟨_, .waiting⟩ =>
          if quota = 0 ∨ stored = true ∨ size key = 0 then some (s.answer i (.admitted false))
          else if s.tickets.rows.any fun r => r.2.isSummed then none
          else some (s.answer i (.summed (storedTotal s.store.rows) (rowKeys s.store.rows)))
      | _, _ => none
  | .reserve i =>
      match s.store.uploads.get i, s.tickets.get i with
      | some u, some ⟨_, .summed current _⟩ =>
          if current + s.inFlight size + size u.key ≤ quota then some (s.answer i (.admitted true))
          else
            -- 507
            some { s.answer i (.admitted false) with store := s.store.finish i }
      | _, _ => none
  | .release i =>
      if (s.tickets.get i).isSome ∧ (s.store.uploads.get i).isNone then
        some { s with tickets := s.tickets.erase i }
      else none
  | .crash =>
      some { store := { s.store with uploads := .empty, lists := .empty }, tickets := .empty }

/-- Somebody has asked for the bytes of the artifact, or it has none. -/
def State.Asked (s : State) (key : Key) : Prop :=
  size key = 0 ∨ ∃ i t, s.tickets.get i = some t ∧ t.key = key ∧ t.isReserved = true

end Machine

/-- The step may write a row of this key. -/
def Writes (s : ArtifactStore.State) (key : Key) : ArtifactStore.Action → Prop
  | .stepUpload i (.commit outcome) => outcome ≠ .failed ∧ ∃ u stored existing,
      s.uploads.get i = some u ∧ u.phase = .selected stored existing ∧ u.key = key
  | .stepList j (.commit outcome) => outcome ≠ .failed ∧ ∃ l missing,
      s.lists.get j = some l ∧ l.phase = .backfilling [] missing ∧ key ∈ missing.map Prod.fst
  | _ => False

/-- A row that is new was asked for; and whoever has committed keeps his reservation
while another one has read a total without his row. -/
def Covered (size : Key → Nat) (s : State) : Action → Prop
  | .store a => ∀ key, Writes s.store key a → s.store.rows.get key = none → s.Asked size key
  | .release i => ∀ t, s.tickets.get i = some t → t.isReserved = true →
      (s.store.rows.get t.key).isSome = true → ∀ i' t' current counted,
        s.tickets.get i' = some t' → t'.admission = .summed current counted → t.key ∈ counted
  | _ => True

/-! ### What is written is of its own size -/

/-- Whatever says how large an artifact is says so truly. -/
structure Sized (size : Key → Nat) (s : ArtifactStore.State) : Prop where
  rows : ∀ k r, s.rows.get k = some r → r.sizeBytes = size k
  manifests : ∀ k m, s.manifests.get k = some m → m.sizeBytes = size k
  uploads : ∀ i u, s.uploads.get i = some u → u.manifest.sizeBytes = size u.key
  lists : ∀ j l, s.lists.get j = some l → ∀ r ∈ l.held, r.2.sizeBytes = size r.1

section Sizes

variable {size : Key → Nat} {s s' : ArtifactStore.State} {i j : RequestId} {key : Key}
  {u : ArtifactStore.Upload} {l : Listing}

/-- Rows and manifests change, uploads go on or end. -/
theorem Sized.worked (h : Sized size s) (hrows : ∀ k r, s'.rows.get k = some r →
      s.rows.get k = some r ∨ r.sizeBytes = size k)
    (hmanifests : ∀ k m, s'.manifests.get k = some m →
      s.manifests.get k = some m ∨ m.sizeBytes = size k)
    (huploads : ∀ i u, s'.uploads.get i = some u → ∃ v, s.uploads.get i = some v ∧
      v.key = u.key ∧ v.manifest = u.manifest)
    (hlists : s'.lists = s.lists) : Sized size s' where
  rows := by
    intro k r hr
    rcases hrows k r hr with hold | hnew
    · exact h.rows k r hold
    · exact hnew
  manifests := by
    intro k m hm
    rcases hmanifests k m hm with hold | hnew
    · exact h.manifests k m hold
    · exact hnew
  uploads := by
    intro i u hu
    obtain ⟨v, hv, hkey, hmanifest⟩ := huploads i u hu
    rw [← hkey, ← hmanifest]
    exact h.uploads i v hv
  lists := by
    rw [hlists]
    exact h.lists

theorem uploads_goto (s : ArtifactStore.State) (i : RequestId) (phase : UploadPhase) :
    ∀ i' u, (s.goto i phase).uploads.get i' = some u → ∃ v, s.uploads.get i' = some v ∧
      v.key = u.key ∧ v.manifest = u.manifest := by
  intro i' u hu
  change (s.uploads.modify i _).get i' = some u at hu
  rw [Table.get_modify] at hu
  split at hu
  · rename_i hi
    obtain ⟨v, hv, rfl⟩ := Option.map_eq_some_iff.mp hu
    exact ⟨v, hi ▸ hv, rfl, rfl⟩
  · exact ⟨u, hu, rfl, rfl⟩

theorem uploads_finish (s : ArtifactStore.State) (i : RequestId) :
    ∀ i' u, (s.finish i).uploads.get i' = some u → ∃ v, s.uploads.get i' = some v ∧
      v.key = u.key ∧ v.manifest = u.manifest := by
  intro i' u hu
  change (s.uploads.erase i).get i' = some u at hu
  rw [Table.get_erase] at hu
  split at hu
  · cases hu
  · exact ⟨u, hu, rfl, rfl⟩

theorem uploads_rollback (s : ArtifactStore.State) (i : RequestId) (stored : Bool) :
    ∀ i' u, (s.rollback i stored).uploads.get i' = some u → ∃ v, s.uploads.get i' = some v ∧
      v.key = u.key ∧ v.manifest = u.manifest := by
  cases stored with
  | true => exact uploads_finish s i
  | false => exact uploads_goto s i _

/-- What a step of an upload or a listing may change beside the rows it writes. -/
structure Steps (size : Key → Nat) (s s' : ArtifactStore.State) (a : ArtifactStore.Action) :
    Prop where
  sized : Sized size s'
  rows : ∀ k, (s'.rows.get k).isSome = true → (s.rows.get k).isSome = true ∨ Writes s k a
  uploads : ∀ i u, s'.uploads.get i = some u →
    (∃ v, s.uploads.get i = some v ∧ v.key = u.key) ∨ ∃ m, a = .upload i u.key m

/-- A step that writes no row. -/
theorem Sized.steps (h : Sized size s) {a : ArtifactStore.Action} (hrows : s'.rows = s.rows)
    (hmanifests : ∀ k m, s'.manifests.get k = some m →
      s.manifests.get k = some m ∨ m.sizeBytes = size k)
    (huploads : ∀ i u, s'.uploads.get i = some u → ∃ v, s.uploads.get i = some v ∧
      v.key = u.key ∧ v.manifest = u.manifest)
    (hlists : s'.lists = s.lists) : Steps size s s' a where
  sized := h.worked (fun _ _ hr => .inl (hrows ▸ hr)) hmanifests huploads hlists
  rows := by
    rw [hrows]
    exact fun _ hk => .inl hk
  uploads := by
    intro i u hu
    obtain ⟨v, hv, hkey, -⟩ := huploads i u hu
    exact .inl ⟨v, hv, hkey⟩

theorem Sized.stepUpload (h : Sized size s) (hu : s.uploads.get i = some u)
    {a : ArtifactStore.UploadStep} (hs : ArtifactStore.stepUpload s i u a = some s') :
    Steps size s s' (.stepUpload i a) := by
  have hsame : ∀ k m, s.manifests.get k = some m → s.manifests.get k = some m ∨
      m.sizeBytes = size k := fun _ _ hm => .inl hm
  cases a with
  | acquire | check | validate | placeBody | select =>
      rw [ArtifactStore.stepUpload] at hs
      split at hs
      · obtain rfl := Option.some.inj hs
        exact h.steps rfl hsame (uploads_goto _ i _) rfl
      · cases hs
  | placeManifest ok =>
      rw [ArtifactStore.stepUpload] at hs
      split at hs
      · split at hs
        · obtain rfl := Option.some.inj hs
          refine h.steps rfl ?_ (uploads_goto _ i _) rfl
          intro k m hm
          change (s.manifests.put u.key u.manifest).get k = some m at hm
          rw [Table.get_put] at hm
          split at hm
          · rename_i hk
            obtain rfl := Option.some.inj hm
            rw [hk]
            exact .inr (h.uploads i u hu)
          · exact .inl hm
        · obtain rfl := Option.some.inj hs
          rename_i preExisted _ _
          cases preExisted with
          | true => exact h.steps rfl hsame (uploads_finish _ i) rfl
          | false => exact h.steps rfl hsame (uploads_goto _ i _) rfl
      · cases hs
  | fail =>
      rw [ArtifactStore.stepUpload] at hs
      cases hp : u.phase with
      | staged | locked | checked _ | validated _ _ =>
          rw [hp] at hs
          obtain rfl := Option.some.inj hs
          exact h.steps rfl hsame (uploads_finish _ i) rfl
      | published stored | selected stored _ =>
          rw [hp] at hs
          obtain rfl := Option.some.inj hs
          cases stored with
          | true => exact h.steps rfl hsame (uploads_finish _ i) rfl
          | false => exact h.steps rfl hsame (uploads_goto _ i _) rfl
      | bodied _ _ | removing _ =>
          rw [hp] at hs
          cases hs
  | unlink ok =>
      rw [ArtifactStore.stepUpload] at hs
      split at hs
      · obtain rfl := Option.some.inj hs
        cases ok with
        | true => exact h.steps rfl hsame (uploads_goto _ i _) rfl
        | false => exact h.steps rfl hsame (uploads_goto _ i _) rfl
      · obtain rfl := Option.some.inj hs
        cases ok with
        | true =>
            refine h.steps rfl ?_ (uploads_finish _ i) rfl
            intro k m hm
            change (s.manifests.erase u.key).get k = some m at hm
            rw [Table.get_erase] at hm
            split at hm
            · cases hm
            · exact .inl hm
        | false => exact h.steps rfl hsame (uploads_finish _ i) rfl
      · cases hs
  | commit outcome =>
      rw [ArtifactStore.stepUpload] at hs
      split at hs
      · rename_i stored existing hp
        split at hs
        · obtain rfl := Option.some.inj hs
          refine h.steps (ArtifactStore.rollback_rows s i stored) ?_ (uploads_rollback s i stored) ?_
          · cases stored with
            | true => exact hsame
            | false => exact hsame
          · cases stored with
            | true => rfl
            | false => rfl
        · rename_i hfails
          have hok : outcome ≠ .failed := fun hfailed => hfails (.inl hfailed)
          let written : ArtifactStore.State := { s with rows := s.rows.put u.key u.manifest.row }
          have hrow : ∀ k r, written.rows.get k = some r →
              s.rows.get k = some r ∨ k = u.key ∧ r.sizeBytes = size k := by
            intro k r hr
            change (s.rows.put u.key _).get k = some r at hr
            rw [Table.get_put] at hr
            split at hr
            · rename_i hk
              obtain rfl := Option.some.inj hr
              refine .inr ⟨hk, ?_⟩
              rw [hk]
              exact h.uploads i u hu
            · exact .inl hr
          have hsteps : ∀ s', s'.rows = written.rows → s'.manifests = s.manifests →
              s'.lists = s.lists → (∀ i u, s'.uploads.get i = some u →
                ∃ v, s.uploads.get i = some v ∧ v.key = u.key ∧ v.manifest = u.manifest) →
              Steps size s s' (.stepUpload i (.commit outcome)) := by
            intro s' hrows hmanifests hlists huploads
            refine ⟨h.worked ?_ (by rw [hmanifests]; exact hsame) huploads hlists, ?_, ?_⟩
            · intro k r hr
              rw [hrows] at hr
              exact (hrow k r hr).imp_right And.right
            · intro k hk
              rw [hrows] at hk
              obtain ⟨r, hr⟩ := Option.isSome_iff_exists.mp hk
              rcases hrow k r hr with hold | ⟨rfl, -⟩
              · rw [hold]
                exact .inl rfl
              · exact .inr ⟨hok, u, stored, existing, hu, hp, rfl⟩
            · intro i u hu
              obtain ⟨v, hv, hkey, -⟩ := huploads i u hu
              exact .inl ⟨v, hv, hkey⟩
          dsimp only at hs
          obtain rfl := Option.some.inj hs
          split
          · cases stored with
            | true => exact hsteps _ rfl rfl rfl (uploads_finish _ i)
            | false => exact hsteps _ rfl rfl rfl (uploads_goto _ i _)
          · exact hsteps _ rfl rfl rfl (uploads_finish _ i)
      · cases hs

/-- Listings go on or end. -/
theorem Sized.listed (h : Sized size s) {a : ArtifactStore.Action} (hrows : s'.rows = s.rows)
    (hmanifests : s'.manifests = s.manifests) (huploads : s'.uploads = s.uploads)
    (hlists : ∀ j l, s'.lists.get j = some l → s.lists.get j = some l ∨
      ∀ r ∈ l.held, r.2.sizeBytes = size r.1) : Steps size s s' a where
  sized := {
    rows := hrows ▸ h.rows
    manifests := hmanifests ▸ h.manifests
    uploads := huploads ▸ h.uploads
    lists := fun j l hl => (hlists j l hl).elim (h.lists j l) id }
  rows := by
    rw [hrows]
    exact fun _ hk => .inl hk
  uploads := by
    rw [huploads]
    exact fun i u hu => .inl ⟨u, hu, rfl⟩

theorem lists_gotoList (hl : s.lists.get j = some l) {phase : ArtifactStore.ListPhase}
    (hheld : ∀ r ∈ Listing.held { l with phase := phase }, r.2.sizeBytes = size r.1) :
    ∀ j' l', (s.gotoList j phase).lists.get j' = some l' → s.lists.get j' = some l' ∨
      ∀ r ∈ l'.held, r.2.sizeBytes = size r.1 := by
  intro j' l' hl'
  change (s.lists.modify j _).get j' = some l' at hl'
  rw [Table.get_modify] at hl'
  split at hl'
  · rename_i hj
    rw [hj, hl, Option.map_some] at hl'
    obtain rfl := Option.some.inj hl'
    exact .inr hheld
  · exact .inl hl'

theorem lists_nextStore (s : ArtifactStore.State) (j : RequestId) (kind : ArtifactStore.Kind) :
    ∀ j' l', (s.nextStore j kind).lists.get j' = some l' → s.lists.get j' = some l' ∨
      ∀ r ∈ l'.held, r.2.sizeBytes = size r.1 := by
  intro j' l' hl'
  cases kind with
  | egg =>
      change (s.lists.modify j _).get j' = some l' at hl'
      rw [Table.get_modify] at hl'
      split at hl'
      · obtain ⟨_, -, rfl⟩ := Option.map_eq_some_iff.mp hl'
        exact .inr fun r hr => absurd hr List.not_mem_nil
      · exact .inl hl'
  | wheel =>
      change (s.lists.erase j).get j' = some l' at hl'
      rw [Table.get_erase] at hl'
      split at hl'
      · cases hl'
      · exact .inl hl'

theorem lists_erase (s : ArtifactStore.State) (j : RequestId) :
    ∀ j' l', (s.lists.erase j).get j' = some l' → s.lists.get j' = some l' ∨
      ∀ r ∈ l'.held, r.2.sizeBytes = size r.1 := by
  intro j' l' hl'
  rw [Table.get_erase] at hl'
  split at hl'
  · cases hl'
  · exact .inl hl'

/-- A row behind a listing was there, or is one of those that were missing. -/
theorem get_backfill {rows : Table Key Row} {missing : List (Key × Manifest)} {k : Key} {row : Row}
    (h : (ArtifactStore.backfill rows missing).get k = some row) :
    rows.get k = some row ∨ ∃ m, (k, m) ∈ missing ∧ row = m.row := by
  induction missing generalizing rows with
  | nil => exact .inl h
  | cons r missing ih =>
      rcases ih h with hput | ⟨m, hm, rfl⟩
      · rw [Table.get_put] at hput
        split at hput
        · rename_i hk
          obtain rfl := Option.some.inj hput
          refine .inr ⟨r.2, ?_, rfl⟩
          rw [hk]
          exact List.mem_cons_self
        · exact .inl hput
      · exact .inr ⟨m, List.mem_cons_of_mem r hm, rfl⟩

theorem Sized.stepList (h : Sized size s) (hl : s.lists.get j = some l)
    {a : ArtifactStore.ListStep} (hs : ArtifactStore.stepList s j l a = some s') :
    Steps size s s' (.stepList j a) := by
  have hheld := h.lists j l hl
  cases a with
  | glob =>
      rw [ArtifactStore.stepList] at hs
      split at hs
      · obtain rfl := Option.some.inj hs
        refine h.listed rfl rfl rfl (lists_gotoList hl fun r hr => ?_)
        exact absurd hr List.not_mem_nil
      · cases hs
  | read =>
      rw [ArtifactStore.stepList] at hs
      split at hs
      · rename_i key todo found hp
        rw [Listing.held, hp] at hheld
        obtain rfl := Option.some.inj hs
        refine h.listed rfl rfl rfl (lists_gotoList hl fun r hr => ?_)
        change r ∈ found ++ _ at hr
        rcases List.mem_append.mp hr with hold | hnew
        · exact hheld r hold
        · obtain ⟨m, hm, rfl⟩ := Option.map_eq_some_iff.mp (Option.mem_toList.mp hnew)
          exact h.manifests key m hm
      · rename_i found hp
        rw [Listing.held, hp] at hheld
        obtain rfl := Option.some.inj hs
        refine h.listed rfl rfl rfl (lists_gotoList hl fun r hr => ?_)
        change r ∈ found.mergeSort _ ++ [] at hr
        rw [List.append_nil] at hr
        exact hheld r (List.mem_mergeSort.mp hr)
      · cases hs
  | lookup =>
      rw [ArtifactStore.stepList] at hs
      split at hs
      · rename_i r todo missing hp
        rw [Listing.held, hp] at hheld
        obtain rfl := Option.some.inj hs
        refine h.listed rfl rfl rfl (lists_gotoList hl fun x hx => hheld x ?_)
        change x ∈ todo ++ _ at hx
        rcases List.mem_append.mp hx with hx | hx
        · exact List.mem_append_left _ (List.mem_cons_of_mem r hx)
        · split at hx
          · exact List.mem_append_right _ hx
          · rcases List.mem_append.mp hx with hx | hx
            · exact List.mem_append_right _ hx
            · rw [List.mem_singleton.mp hx]
              exact List.mem_append_left _ List.mem_cons_self
      · cases hs
  | commit outcome =>
      rw [ArtifactStore.stepList] at hs
      split at hs
      · rename_i missing hp
        rw [Listing.held, hp] at hheld
        split at hs
        · obtain rfl := Option.some.inj hs
          refine h.listed (ArtifactStore.nextStore_rows s j l.kind) ?_ ?_
            (lists_nextStore s j l.kind)
          · cases l.kind with
            | egg => rfl
            | wheel => rfl
          · cases l.kind with
            | egg => rfl
            | wheel => rfl
        · split at hs
          · obtain rfl := Option.some.inj hs
            exact h.listed rfl rfl rfl (lists_erase s j)
          · rename_i hfails
            have hok : outcome ≠ .failed := fun hfailed => hfails (.inl hfailed)
            -- the rows first, then the listing
            have hwritten : Steps size s { s with rows := ArtifactStore.backfill s.rows missing }
                (.stepList j (.commit outcome)) := by
              refine ⟨⟨?_, h.manifests, h.uploads, h.lists⟩, ?_, fun i u hu => .inl ⟨u, hu, rfl⟩⟩
              · intro k r hr
                rcases get_backfill hr with hold | ⟨m, hm, rfl⟩
                · exact h.rows k r hold
                · exact hheld (k, m) hm
              · intro k hk
                obtain ⟨r, hr⟩ := Option.isSome_iff_exists.mp hk
                rcases get_backfill hr with hold | ⟨m, hm, rfl⟩
                · rw [hold]
                  exact .inl rfl
                · exact .inr ⟨hok, l, missing, hl, hp, List.mem_map.mpr ⟨(k, m), hm, rfl⟩⟩
            have hthen : ∀ s', s'.rows = ArtifactStore.backfill s.rows missing →
                s'.manifests = s.manifests → s'.uploads = s.uploads →
                (∀ j' l', s'.lists.get j' = some l' → s.lists.get j' = some l' ∨
                  ∀ r ∈ l'.held, r.2.sizeBytes = size r.1) →
                Steps size s s' (.stepList j (.commit outcome)) := by
              intro s' hrows hmanifests huploads hlists
              have hafter : Steps size { s with rows := ArtifactStore.backfill s.rows missing } s'
                  (.stepList j (.commit outcome)) :=
                hwritten.sized.listed hrows hmanifests huploads hlists
              refine ⟨hafter.sized, fun k hk => ?_, fun i u hu => ?_⟩
              · rw [hrows] at hk
                exact hwritten.rows k hk
              · rw [huploads] at hu
                exact .inl ⟨u, hu, rfl⟩
            dsimp only at hs
            obtain rfl := Option.some.inj hs
            split
            · exact hthen _ rfl rfl rfl (lists_erase s j)
            · refine hthen _ (ArtifactStore.nextStore_rows _ j l.kind) ?_ ?_
                (lists_nextStore _ j l.kind)
              · cases l.kind with
                | egg => rfl
                | wheel => rfl
              · cases l.kind with
                | egg => rfl
                | wheel => rfl
      · cases hs
  | fail =>
      obtain rfl := Option.some.inj hs
      exact h.listed rfl rfl rfl (lists_erase s j)

/-- **What one step of the store may change.** -/
theorem Sized.step (h : Sized size s) {a : ArtifactStore.Action}
    (hsize : ∀ i key m, a = .upload i key m → m.sizeBytes = size key)
    (hs : ArtifactStore.step s a = some s') : Steps size s s' a := by
  cases a with
  | upload i key manifest =>
      rw [ArtifactStore.step] at hs
      split at hs
      · cases hs
      · rename_i hnew
        obtain rfl := Option.some.inj hs
        have hget := Table.get_insert s.uploads
          ({ key := key, manifest := manifest } : ArtifactStore.Upload)
          (Option.not_isSome_iff_eq_none.mp hnew)
        refine ⟨⟨h.rows, h.manifests, ?_, h.lists⟩, fun _ hk => .inl hk, ?_⟩
        · intro i' u hu
          rw [hget] at hu
          split at hu
          · obtain rfl := Option.some.inj hu
            exact hsize i key manifest rfl
          · exact h.uploads i' u hu
        · intro i' u hu
          rw [hget] at hu
          split at hu
          · rename_i hi
            obtain rfl := Option.some.inj hu
            rw [hi]
            exact .inr ⟨manifest, rfl⟩
          · exact .inl ⟨u, hu, rfl⟩
  | list j =>
      rw [ArtifactStore.step] at hs
      split at hs
      · cases hs
      · rename_i hnew
        obtain rfl := Option.some.inj hs
        refine h.listed rfl rfl rfl fun j' l hl => ?_
        rw [Table.get_insert _ _ (Option.not_isSome_iff_eq_none.mp hnew)] at hl
        split at hl
        · obtain rfl := Option.some.inj hl
          exact .inr fun r hr => absurd hr List.not_mem_nil
        · exact .inl hl
  | stepUpload i a =>
      obtain ⟨u, hu, hs⟩ := Option.bind_eq_some_iff.mp hs
      exact h.stepUpload hu hs
  | stepList j a =>
      obtain ⟨l, hl, hs⟩ := Option.bind_eq_some_iff.mp hs
      exact h.stepList hl hs

end Sizes

/-! ### What is stored or asked for -/

/-- The artifacts somebody has asked for. -/
def reservedKeys (tickets : Table RequestId Ticket) : Finset Key :=
  ((tickets.rows.filter fun r => r.2.isReserved).map fun r => r.2.key).toFinset

/-- The artifacts the quota has to hold. -/
def charged (s : State) : Finset Key := rowKeys s.store.rows ∪ reservedKeys s.tickets

structure Inv (size : Key → Nat) (quota : Nat) (s : State) : Prop where
  sized : Sized size s.store
  bound : ∑ k ∈ charged s, size k ≤ quota
  ticket : ∀ i u t, s.store.uploads.get i = some u → s.tickets.get i = some t → t.key = u.key
  /-- What a total that was read does not count was asked for, and still is. -/
  counted : ∀ i t current counted, s.tickets.get i = some t →
    t.admission = .summed current counted → ∑ k ∈ counted, size k ≤ current ∧
      ∀ k, (s.store.rows.get k).isSome = true → k ∉ counted → s.Asked size k

section Quota

variable {size : Key → Nat} {quota : Nat} {s s' : State} {i : RequestId} {k : Key}

theorem mem_rowKeys {rows : Table Key Row} : k ∈ rowKeys rows ↔ (rows.get k).isSome = true := by
  rw [rowKeys, List.mem_toFinset, Table.mem_keys_iff, Option.isSome_iff_exists]

theorem mem_reservedKeys {tickets : Table RequestId Ticket} : k ∈ reservedKeys tickets ↔
    ∃ i t, tickets.get i = some t ∧ t.key = k ∧ t.isReserved = true := by
  rw [reservedKeys, List.mem_toFinset]
  constructor
  · intro hmem
    obtain ⟨⟨i, t⟩, hmem, hkey⟩ := List.mem_map.mp hmem
    obtain ⟨hrow, hreserved⟩ := List.mem_filter.mp hmem
    exact ⟨i, t, Table.mem_rows_iff.mp hrow, hkey, hreserved⟩
  · rintro ⟨i, t, hget, hkey, hreserved⟩
    exact List.mem_map.mpr ⟨(i, t), List.mem_filter.mpr ⟨Table.mem_rows_iff.mpr hget, hreserved⟩,
      hkey⟩

theorem asked_iff : s.Asked size k ↔ size k = 0 ∨ k ∈ reservedKeys s.tickets := by
  rw [mem_reservedKeys]
  rfl

theorem mem_charged : k ∈ charged s ↔
    (s.store.rows.get k).isSome = true ∨ k ∈ reservedKeys s.tickets := by
  rw [charged, Finset.mem_union, mem_rowKeys]

/-- The total of the rows is that of their artifacts. -/
theorem storedTotal_eq {store : ArtifactStore.State} (h : Sized size store) :
    storedTotal store.rows = ∑ k ∈ rowKeys store.rows, size k := by
  rw [rowKeys, List.sum_toFinset _ store.rows.nodup, List.map_map, storedTotal]
  congr 1
  apply List.map_congr_left
  rintro ⟨k, r⟩ hmem
  exact h.rows k r (Table.mem_rows_iff.mp hmem)

theorem sum_toFinset_le (f : Key → Nat) (l : List Key) :
    ∑ k ∈ l.toFinset, f k ≤ (l.map f).sum := by
  induction l with
  | nil => exact Nat.le_refl 0
  | cons k l ih =>
      rw [List.toFinset_cons, List.map_cons, List.sum_cons]
      by_cases hk : k ∈ l.toFinset
      · rw [Finset.insert_eq_of_mem hk]
        omega
      · rw [Finset.sum_insert hk]
        omega

theorem sum_union_le (f : Key → Nat) (a b : Finset Key) :
    ∑ k ∈ a ∪ b, f k ≤ ∑ k ∈ a, f k + ∑ k ∈ b, f k := by
  rw [← Finset.sum_union_inter]
  exact Nat.le_add_right _ _

theorem sum_insert_le (f : Key → Nat) (k : Key) (a : Finset Key) :
    ∑ k ∈ insert k a, f k ≤ f k + ∑ k ∈ a, f k := by
  rw [Finset.insert_eq]
  refine (sum_union_le f {k} a).trans ?_
  rw [Finset.sum_singleton]

/-- What is in flight covers what was asked for. -/
theorem sum_reservedKeys_le (s : State) :
    ∑ k ∈ reservedKeys s.tickets, size k ≤ s.inFlight size := by
  have h := sum_toFinset_le size
    ((s.tickets.rows.filter fun r => r.2.isReserved).map fun r => r.2.key)
  rw [List.map_map] at h
  exact h

/-- What is charged may lose artifacts, and gain some of no size. -/
theorem Inv.bound_of (h : Inv size quota s)
    (hsub : ∀ k, k ∈ charged s' → size k ≠ 0 → k ∈ charged s) :
    ∑ k ∈ charged s', size k ≤ quota :=
  (Finset.sum_le_sum_of_ne_zero hsub).trans h.bound

/-- The tickets change without a reservation made or given back. -/
structure SameTickets (tickets tickets' : Table RequestId Ticket) : Prop where
  reserved : reservedKeys tickets' = reservedKeys tickets
  summed : ∀ i t' current counted, tickets'.get i = some t' →
    t'.admission = .summed current counted →
    ∃ t, tickets.get i = some t ∧ t.admission = .summed current counted

/-- One ticket changes that is reserved as before. -/
theorem reservedKeys_modify {tickets : Table RequestId Ticket} (i : RequestId)
    {f : Ticket → Ticket} (hkey : ∀ t, (f t).key = t.key)
    (hreserved : ∀ t, tickets.get i = some t → (f t).isReserved = t.isReserved) :
    reservedKeys (tickets.modify i f) = reservedKeys tickets := by
  ext k
  rw [mem_reservedKeys, mem_reservedKeys]
  constructor
  · rintro ⟨i', t', hget, hkey', hres⟩
    rw [Table.get_modify] at hget
    split at hget
    · rename_i hi
      obtain ⟨t, ht, rfl⟩ := Option.map_eq_some_iff.mp hget
      rw [hi] at ht
      rw [hkey] at hkey'
      rw [hreserved t ht] at hres
      exact ⟨i, t, ht, hkey', hres⟩
    · exact ⟨i', t', hget, hkey', hres⟩
  · rintro ⟨i', t, hget, hkey', hres⟩
    by_cases hi : i' = i
    · subst hi
      refine ⟨i', f t, ?_, (hkey t).trans hkey', (hreserved t hget).trans hres⟩
      rw [Table.get_modify_self, hget]
      rfl
    · exact ⟨i', t, by rw [Table.get_modify_ne _ _ hi, hget], hkey', hres⟩

theorem SameTickets.modify {tickets : Table RequestId Ticket} (i : RequestId)
    {f : Ticket → Ticket} (hkey : ∀ t, (f t).key = t.key)
    (hreserved : ∀ t, tickets.get i = some t → (f t).isReserved = t.isReserved)
    (hsummed : ∀ t current counted, (f t).admission = .summed current counted →
      t.admission = .summed current counted) : SameTickets tickets (tickets.modify i f) where
  reserved := reservedKeys_modify i hkey hreserved
  summed := by
    intro i' t' current counted hget hadm
    rw [Table.get_modify] at hget
    split at hget
    · obtain ⟨t, ht, rfl⟩ := Option.map_eq_some_iff.mp hget
      exact ⟨t, ht, hsummed t current counted hadm⟩
    · exact ⟨t', hget, hadm⟩

/-- **A step of the store** that writes nothing that nobody has asked for. -/
theorem Inv.ofStore (h : Inv size quota s) {a : ArtifactStore.Action}
    (hsteps : Steps size s.store s'.store a) (htickets : SameTickets s.tickets s'.tickets)
    (hasked : ∀ key, Writes s.store key a → s.store.rows.get key = none → s.Asked size key)
    (hticket : ∀ i u t, s'.store.uploads.get i = some u → s'.tickets.get i = some t →
      t.key = u.key) : Inv size quota s' where
  sized := hsteps.sized
  bound := by
    refine h.bound_of fun k hk hsize => ?_
    rw [mem_charged, htickets.reserved] at hk
    rw [mem_charged]
    rcases hk with hrow | hreserved
    · rcases hsteps.rows k hrow with hold | hwrites
      · exact .inl hold
      · cases hnone : s.store.rows.get k with
        | some r => exact .inl rfl
        | none =>
            exact .inr ((asked_iff.mp (hasked k hwrites hnone)).resolve_left hsize)
    · exact .inr hreserved
  ticket := hticket
  counted := by
    intro i t' current counted hget hadm
    obtain ⟨t, ht, hadm'⟩ := htickets.summed i t' current counted hget hadm
    obtain ⟨hsum, hrest⟩ := h.counted i t current counted ht hadm'
    refine ⟨hsum, fun k hrow hk => ?_⟩
    rw [asked_iff, htickets.reserved, ← asked_iff]
    rcases hsteps.rows k hrow with hold | hwrites
    · exact hrest k hold hk
    · cases hnone : s.store.rows.get k with
      | some r => exact hrest k (by rw [hnone]; rfl) hk
      | none => exact hasked k hwrites hnone

theorem Ticket.abandon_key (t : Ticket) : t.abandon.key = t.key := by
  obtain ⟨key, admission⟩ := t
  cases admission with
  | waiting | summed _ _ | admitted _ => rfl

theorem Ticket.abandon_isReserved (t : Ticket) : t.abandon.isReserved = t.isReserved := by
  obtain ⟨key, admission⟩ := t
  cases admission with
  | waiting | summed _ _ | admitted _ => rfl

theorem Ticket.abandon_summed (t : Ticket) (current : Nat) (counted : Finset Key) :
    t.abandon.admission ≠ .summed current counted := by
  obtain ⟨key, admission⟩ := t
  cases admission with
  | waiting | summed _ _ | admitted _ => exact Admission.noConfusion

theorem Inv.stepStore (h : Inv size quota s) {a : ArtifactStore.Action}
    (ha : Covered size s (.store a)) (hs : step size quota s (.store a) = some s') :
    Inv size quota s' := by
  rw [ArtifactQuota.step] at hs
  split at hs
  case isFalse => cases hs
  rename_i hpermits
  obtain ⟨store, hstore, rfl⟩ := Option.map_eq_some_iff.mp hs
  have hsize : ∀ i key m, a = .upload i key m → m.sizeBytes = size key := by
    rintro i key m rfl
    exact of_decide_eq_true (Bool.and_eq_true_iff.mp hpermits).2
  have hsteps := h.sized.step hsize hstore
  by_cases hupload : ∃ i key m, a = .upload i key m
  · obtain ⟨i, key, m, rfl⟩ := hupload
    have hnone : s.tickets.get i = none :=
      Option.isNone_iff_eq_none.mp (Bool.and_eq_true_iff.mp hpermits).1
    have hget := Table.get_insert s.tickets ({ key := key } : Ticket) hnone
    rw [ArtifactStore.step] at hstore
    split at hstore
    · cases hstore
    rename_i hnew
    obtain rfl := Option.some.inj hstore
    have huget := Table.get_insert s.store.uploads
      ({ key := key, manifest := m } : ArtifactStore.Upload)
      (Option.not_isSome_iff_eq_none.mp hnew)
    refine h.ofStore hsteps ⟨?_, ?_⟩ ha ?_
    · ext k
      rw [mem_reservedKeys, mem_reservedKeys]
      constructor
      · rintro ⟨i', t, ht, hkey, hres⟩
        change (s.tickets.insert i _).get i' = some t at ht
        rw [hget] at ht
        split at ht
        · obtain rfl := Option.some.inj ht
          cases hres
        · exact ⟨i', t, ht, hkey, hres⟩
      · rintro ⟨i', t, ht, hkey, hres⟩
        refine ⟨i', t, ?_, hkey, hres⟩
        show (s.tickets.insert i _).get i' = some t
        rw [hget, if_neg]
        · exact ht
        · rintro rfl
          rw [hnone] at ht
          cases ht
    · intro i' t current counted ht hadm
      change (s.tickets.insert i _).get i' = some t at ht
      rw [hget] at ht
      split at ht
      · obtain rfl := Option.some.inj ht
        cases hadm
      · exact ⟨t, ht, hadm⟩
    · intro i' u t hu ht
      change (s.store.uploads.insert i _).get i' = some u at hu
      change (s.tickets.insert i _).get i' = some t at ht
      rw [huget] at hu
      rw [hget] at ht
      split at ht
      · rename_i hi
        rw [if_pos hi] at hu
        obtain rfl := Option.some.inj ht
        obtain rfl := Option.some.inj hu
        rfl
      · rename_i hi
        rw [if_neg hi] at hu
        exact h.ticket i' u t hu ht
  · -- the uploads are those that were there
    have hold : ∀ i u, store.uploads.get i = some u →
        ∃ v, s.store.uploads.get i = some v ∧ v.key = u.key := by
      intro i u hu
      rcases hsteps.uploads i u hu with hold | ⟨m, rfl⟩
      · exact hold
      · exact absurd ⟨_, _, _, rfl⟩ hupload
    have hticket : ∀ i u t, store.uploads.get i = some u → s.tickets.get i = some t →
        t.key = u.key := by
      intro i u t hu ht
      obtain ⟨v, hv, hkey⟩ := hold i u hu
      exact (h.ticket i v t hv ht).trans hkey
    by_cases hfail : ∃ i, a = .stepUpload i .fail
    · obtain ⟨i, rfl⟩ := hfail
      refine h.ofStore hsteps (SameTickets.modify i Ticket.abandon_key
        (fun t _ => t.abandon_isReserved) ?_) ha ?_
      · exact fun t current counted hadm => absurd hadm (t.abandon_summed current counted)
      · intro i' u t hu ht
        change (s.tickets.modify i _).get i' = some t at ht
        rw [Table.get_modify] at ht
        split at ht
        · obtain ⟨t₀, ht₀, rfl⟩ := Option.map_eq_some_iff.mp ht
          rw [t₀.abandon_key]
          exact hticket i' u t₀ hu ht₀
        · exact hticket i' u t hu ht
    · have hsame : s.ticketsAfter a = s.tickets := by
        cases a with
        | upload i key m => exact absurd ⟨i, key, m, rfl⟩ hupload
        | list j | stepList j a => rfl
        | stepUpload i a =>
            cases a with
            | fail => exact absurd ⟨i, rfl⟩ hfail
            | acquire | check | validate | placeBody | placeManifest _ | select | commit _
              | unlink _ => rfl
      have htickets : SameTickets s.tickets (s.ticketsAfter a) := by
        rw [hsame]
        exact ⟨rfl, fun _ t _ _ ht hadm => ⟨t, ht, hadm⟩⟩
      refine h.ofStore hsteps htickets ha fun i u t hu ht => ?_
      change (s.ticketsAfter a).get i = some t at ht
      rw [hsame] at ht
      exact hticket i u t hu ht

/-! ### Reservations -/

theorem get_answer {t : Ticket} (ht : s.tickets.get i = some t) (admission : Admission)
    (i' : RequestId) : (s.answer i admission).tickets.get i' =
      if i' = i then some { t with admission := admission } else s.tickets.get i' := by
  show (s.tickets.modify i _).get i' = _
  rw [Table.get_modify]
  split
  · rename_i hi
    rw [hi, ht]
    rfl
  · rfl

/-- The tickets stay those of their uploads. -/
theorem ticket_answer (h : Inv size quota s) (admission : Admission) :
    ∀ i' u t, s.store.uploads.get i' = some u →
      (s.answer i admission).tickets.get i' = some t → t.key = u.key := by
  intro i' u t hu ht
  change (s.tickets.modify i _).get i' = some t at ht
  rw [Table.get_modify] at ht
  split at ht
  · obtain ⟨t₀, ht₀, rfl⟩ := Option.map_eq_some_iff.mp ht
    exact h.ticket i' u t₀ hu ht₀
  · exact h.ticket i' u t hu ht

/-- An answer without a reservation, to one who has none; a total that is read counts
every row there is. -/
theorem Inv.answer (h : Inv size quota s) {t : Ticket} (ht : s.tickets.get i = some t)
    (hfree : t.isReserved = false) {admission : Admission}
    (hplain : Ticket.isReserved ⟨t.key, admission⟩ = false)
    (hcounted : ∀ current counted, admission = .summed current counted →
      ∑ k ∈ counted, size k ≤ current ∧
        ∀ k, (s.store.rows.get k).isSome = true → k ∈ counted) :
    Inv size quota (s.answer i admission) := by
  have hreserved : reservedKeys (s.answer i admission).tickets = reservedKeys s.tickets := by
    refine reservedKeys_modify i (fun _ => rfl) fun t' ht' => ?_
    rw [ht] at ht'
    obtain rfl := Option.some.inj ht'
    exact hplain.trans hfree.symm
  constructor
  case sized => exact h.sized
  case bound =>
    refine h.bound_of fun k hk _ => ?_
    rw [mem_charged, hreserved] at hk
    exact mem_charged.mpr hk
  case ticket => exact ticket_answer h admission
  case counted =>
    intro i' t' current counted hget hadm
    have hasked : ∀ k, (s.answer i admission).Asked size k ↔ s.Asked size k := by
      intro k
      rw [asked_iff, asked_iff, hreserved]
    rw [get_answer ht] at hget
    split at hget
    · obtain rfl := Option.some.inj hget
      obtain ⟨hsum, hall⟩ := hcounted current counted hadm
      exact ⟨hsum, fun k hrow hk => absurd (hall k hrow) hk⟩
    · obtain ⟨hsum, hrest⟩ := h.counted i' t' current counted hget hadm
      exact ⟨hsum, fun k hrow hk => (hasked k).mpr (hrest k hrow hk)⟩

/-- **A reservation** of what the quota has room for. -/
theorem Inv.reserve (h : Inv size quota s) {t : Ticket} (ht : s.tickets.get i = some t)
    {current : Nat} {counted : Finset Key} (hadm : t.admission = .summed current counted)
    (hroom : current + s.inFlight size + size t.key ≤ quota) :
    Inv size quota (s.answer i (.admitted true)) := by
  obtain ⟨hsum, hrest⟩ := h.counted i t current counted ht hadm
  have hmem : ∀ k, k ∈ reservedKeys (s.answer i (.admitted true)).tickets ↔
      k = t.key ∨ k ∈ reservedKeys s.tickets := by
    intro k
    rw [mem_reservedKeys, mem_reservedKeys]
    constructor
    · rintro ⟨i', t', hget, hkey, hres⟩
      rw [get_answer ht] at hget
      split at hget
      · obtain rfl := Option.some.inj hget
        exact .inl hkey.symm
      · exact .inr ⟨i', t', hget, hkey, hres⟩
    · rintro (rfl | ⟨i', t', hget, hkey, hres⟩)
      · refine ⟨i, { t with admission := .admitted true }, ?_, rfl, rfl⟩
        rw [get_answer ht, if_pos rfl]
      · refine ⟨i', t', ?_, hkey, hres⟩
        rw [get_answer ht, if_neg]
        · exact hget
        · rintro rfl
          rw [ht] at hget
          obtain rfl := Option.some.inj hget
          rw [Ticket.isReserved, hadm] at hres
          cases hres
  have hasked : ∀ k, s.Asked size k → (s.answer i (.admitted true)).Asked size k := by
    intro k hk
    rw [asked_iff] at hk ⊢
    exact hk.imp_right fun hreserved => (hmem k).mpr (.inr hreserved)
  constructor
  case sized => exact h.sized
  case bound =>
    have hcharged : ∀ k, k ∈ charged (s.answer i (.admitted true)) → size k ≠ 0 →
        k ∈ counted ∪ insert t.key (reservedKeys s.tickets) := by
      intro k hk hsize
      rw [Finset.mem_union, Finset.mem_insert]
      rcases mem_charged.mp hk with hrow | hreserved
      · by_cases hin : k ∈ counted
        · exact .inl hin
        · exact .inr (.inr ((asked_iff.mp (hrest k hrow hin)).resolve_left hsize))
      · exact .inr ((hmem k).mp hreserved)
    have hreserved : ∑ k ∈ reservedKeys s.tickets, size k ≤ s.inFlight size :=
      sum_reservedKeys_le s
    calc ∑ k ∈ charged (s.answer i (.admitted true)), size k
        ≤ ∑ k ∈ counted ∪ insert t.key (reservedKeys s.tickets), size k :=
          Finset.sum_le_sum_of_ne_zero hcharged
      _ ≤ ∑ k ∈ counted, size k + ∑ k ∈ insert t.key (reservedKeys s.tickets), size k :=
          sum_union_le _ _ _
      _ ≤ ∑ k ∈ counted, size k + (size t.key + ∑ k ∈ reservedKeys s.tickets, size k) :=
          Nat.add_le_add_left (sum_insert_le _ _ _) _
      _ ≤ quota := by omega
  case ticket => exact ticket_answer h _
  case counted =>
    intro i' t' current' counted' hget hadm'
    rw [get_answer ht] at hget
    split at hget
    · obtain rfl := Option.some.inj hget
      cases hadm'
    · obtain ⟨hsum', hrest'⟩ := h.counted i' t' current' counted' hget hadm'
      exact ⟨hsum', fun k hrow hk => hasked k (hrest' k hrow hk)⟩

/-- **A reservation is given back** when nobody has read a total without its row. -/
theorem Inv.release (h : Inv size quota s) (hsound : Covered size s (.release i)) :
    Inv size quota { s with tickets := s.tickets.erase i } := by
  have hget : ∀ i' t, (s.tickets.erase i).get i' = some t → i' ≠ i ∧ s.tickets.get i' = some t := by
    intro i' t ht
    rw [Table.get_erase] at ht
    split at ht
    · cases ht
    · rename_i hi
      exact ⟨hi, ht⟩
  constructor
  case sized => exact h.sized
  case bound =>
    refine h.bound_of fun k hk _ => mem_charged.mpr ((mem_charged.mp hk).imp_right fun hmem => ?_)
    obtain ⟨i', t, ht, hkey, hres⟩ := mem_reservedKeys.mp hmem
    exact mem_reservedKeys.mpr ⟨i', t, (hget i' t ht).2, hkey, hres⟩
  case ticket => exact fun i' u t hu ht => h.ticket i' u t hu (hget i' t ht).2
  case counted =>
    intro i' t' current counted ht' hadm
    have ht'' := (hget i' t' ht').2
    obtain ⟨hsum, hrest⟩ := h.counted i' t' current counted ht'' hadm
    refine ⟨hsum, fun k hrow hk => ?_⟩
    rcases hrest k hrow hk with hzero | ⟨i'', t, ht, rfl, hres⟩
    · exact .inl hzero
    · refine .inr ⟨i'', t, ?_, rfl, hres⟩
      show (s.tickets.erase i).get i'' = some t
      rw [Table.get_erase, if_neg]
      · exact ht
      · rintro rfl
        exact hk (hsound t ht hres hrow i' t' current counted ht'' hadm)

/-- The upload is refused. -/
theorem Inv.refuse (h : Inv size quota s) (i : RequestId) :
    Inv size quota { s with store := s.store.finish i } where
  sized := h.sized.worked (fun _ _ hr => .inl hr) (fun _ _ hm => .inl hm)
    (uploads_finish s.store i) rfl
  bound := h.bound
  ticket := by
    intro i' u t hu ht
    obtain ⟨v, hv, hkey, -⟩ := uploads_finish s.store i i' u hu
    exact (h.ticket i' v t hv ht).trans hkey
  counted := h.counted

/-- **Every step that meets the condition** keeps what a run keeps. -/
theorem Inv.step (h : Inv size quota s) {a : Action} (ha : Covered size s a)
    (hs : step size quota s a = some s') : Inv size quota s' := by
  cases a with
  | store a => exact h.stepStore ha hs
  | sum i =>
      rw [ArtifactQuota.step] at hs
      split at hs
      · rename_i key m stored key' hu ht
        split at hs
        · obtain rfl := Option.some.inj hs
          exact h.answer ht rfl rfl fun _ _ hc => by cases hc
        · split at hs
          · cases hs
          · obtain rfl := Option.some.inj hs
            refine h.answer ht rfl rfl fun current counted hadm => ?_
            obtain ⟨rfl, rfl⟩ := Admission.summed.inj hadm
            exact ⟨Nat.le_of_eq (storedTotal_eq h.sized).symm, fun k hrow => mem_rowKeys.mpr hrow⟩
      · cases hs
  | reserve i =>
      rw [ArtifactQuota.step] at hs
      split at hs
      · rename_i u key current counted hu ht
        have hkey : key = u.key := h.ticket i u _ hu ht
        split at hs
        · rename_i hroom
          obtain rfl := Option.some.inj hs
          rw [← hkey] at hroom
          exact h.reserve ht rfl hroom
        · obtain rfl := Option.some.inj hs
          have hrefused : Inv size quota (s.answer i (.admitted false)) :=
            h.answer ht rfl rfl fun _ _ hc => by cases hc
          exact hrefused.refuse i
      · cases hs
  | release i =>
      rw [ArtifactQuota.step] at hs
      split at hs
      · obtain rfl := Option.some.inj hs
        exact h.release ha
      · cases hs
  | crash =>
      obtain rfl := Option.some.inj hs
      constructor
      case sized =>
        refine { h.sized with uploads := ?_, lists := ?_ }
        · intro i u hu
          cases hu
        · intro i l hl
          cases hl
      case bound =>
        refine h.bound_of fun k hk _ => ?_
        refine mem_charged.mpr ((mem_charged.mp hk).imp_right fun hmem => ?_)
        obtain ⟨_, _, ht, -⟩ := mem_reservedKeys.mp hmem
        cases ht
      case ticket =>
        intro i m stored hu
        cases hu
      case counted =>
        intro i key p total ht
        cases ht

/-! ### Runs -/

/-- The server starts over the store and the rows that are there. -/
structure Start (size : Key → Nat) (s : State) : Prop where
  sized : Sized size s.store
  uploads : s.store.uploads = .empty
  tickets : s.tickets = .empty

/-- **The quota.**  In every run in which what is written was asked for, the committed
total stays within the quota. -/
theorem storedTotal_le (size : Key → Nat) (quota : Nat) (s s' : State)
    (hstart : Start size s) (hle : storedTotal s.store.rows ≤ quota)
    (hrun : StateMachine.RunOk (step size quota) (Covered size) s s') :
    storedTotal s'.store.rows ≤ quota := by
  have hinv : Inv size quota s := by
    have hcharged : charged s = rowKeys s.store.rows := by
      rw [charged, hstart.tickets]
      exact Finset.union_empty _
    refine ⟨hstart.sized, ?_, ?_, ?_⟩
    · rw [hcharged, ← storedTotal_eq hstart.sized]
      exact hle
    · intro i u t hu
      rw [hstart.uploads] at hu
      cases hu
    · intro i t current counted ht
      rw [hstart.tickets] at ht
      cases ht
  have hinv' : Inv size quota s' := hrun.invariant (fun _ _ _ h ha hs => h.step ha hs) hinv
  rw [storedTotal_eq hinv'.sized]
  refine le_trans (Finset.sum_le_sum_of_subset ?_) hinv'.bound
  exact Finset.subset_union_left

end Quota

/-! ### Samples -/

/-- A sufficient condition that can be evaluated: no listing commits. -/
def coveredStep (s : State) : Action → Bool
  | .store (.stepUpload i (.commit _)) => (s.store.uploads.get i).all fun u =>
      s.tickets.rows.any fun r => r.2.isReserved && decide (r.2.key = u.key)
  | .store (.stepList _ (.commit _)) => false
  | .release _ => s.tickets.rows.all fun r => !r.2.isSummed
  | _ => true

theorem covered_of_coveredStep {size : Key → Nat} {s : State} {a : Action}
    (h : coveredStep s a = true) : Covered size s a := by
  cases a with
  | store a =>
      intro key hwrites _
      cases a with
      | upload | list => cases hwrites
      | stepUpload i a =>
          cases a with
          | commit outcome =>
              obtain ⟨-, u, stored, existing, hu, -, rfl⟩ := hwrites
              rw [coveredStep, hu, Option.all_some, List.any_eq_true] at h
              obtain ⟨⟨i', t⟩, hmem, ht⟩ := h
              obtain ⟨hres, hkey⟩ := Bool.and_eq_true_iff.mp ht
              exact .inr ⟨i', t, Table.mem_rows_iff.mp hmem, of_decide_eq_true hkey, hres⟩
          | acquire | check | validate | placeBody | placeManifest _ | select | fail | unlink _ =>
              cases hwrites
      | stepList j a =>
          cases a with
          | commit outcome => cases h
          | glob | read | lookup | fail => cases hwrites
  | release i =>
      intro t _ _ _ i' t' current counted ht' hadm
      have hone := List.all_eq_true.mp h (i', t') (Table.mem_rows_iff.mpr ht')
      rw [Ticket.isSummed, hadm] at hone
      cases hone
  | sum _ | reserve _ | crash => trivial

/-- An empty store. -/
def sampleStart : State := { store := ArtifactStore.start }

theorem sampleStart_start (size : Key → Nat) : Start size sampleStart where
  sized := by
    constructor
    · exact fun _ _ hr => nomatch hr
    · exact fun _ _ hm => nomatch hm
    · exact fun _ _ hu => nomatch hu
    · exact fun _ _ hl => nomatch hl
  uploads := rfl
  tickets := rfl

/-- An upload of three bytes up to its publication. -/
def publishActions (i : RequestId) (key : Key) : List Action :=
  .store (.upload i key ArtifactStore.sampleManifest) ::
    (([.acquire, .check] : List ArtifactStore.UploadStep).map fun a => .store (.stepUpload i a)) ++
    [.sum i, .reserve i] ++
    ([.validate, .placeBody, .placeManifest true] : List ArtifactStore.UploadStep).map fun a =>
      .store (.stepUpload i a)

/-- The rest of it. -/
def commitActions (i : RequestId) : List Action :=
  [.store (.stepUpload i .select), .store (.stepUpload i (.commit .ok)), .release i]

/-- An upload under a quota that it fills. -/
theorem storedTotal_le_sample : ∃ s : State, storedTotal s.store.rows = 3 ∧
    storedTotal s.store.rows ≤ 3 := by
  obtain ⟨s, hrun, hs⟩ := StateMachine.RunOk.exists_of_checkedRun (step (fun _ => 3) 3)
    (fun s a => coveredStep s a = true) sampleStart
    (publishActions 0 ArtifactStore.sampleKey ++ commitActions 0)
    (fun s => decide (storedTotal s.store.rows = 3)) (by decide +kernel)
  have hcovered : StateMachine.RunOk (step (fun _ => 3) 3) (Covered fun _ => 3) sampleStart s :=
    hrun.mono fun _ _ h => covered_of_coveredStep h
  exact ⟨s, of_decide_eq_true hs, storedTotal_le (fun _ => 3) 3 sampleStart s
    (sampleStart_start _) (Nat.zero_le 3) hcovered⟩

/-- **A body that a crash has left** is counted by a listing, and nobody has asked for it. -/
theorem not_storedTotal_le : ¬ ∀ (size : Key → Nat) (quota : Nat) (s s' : State), 0 < quota →
    Start size s → storedTotal s.store.rows ≤ quota →
      StateMachine.Run (step size quota) s s' → storedTotal s'.store.rows ≤ quota := by
  intro h
  let listing : List Action := .store (.list 0) ::
    (([.glob, .read, .read, .lookup, .commit .ok] :
      List ArtifactStore.ListStep).map fun a => .store (.stepList 0 a))
  obtain ⟨s, hrun, hs⟩ := StateMachine.RunOk.exists_of_checkedRun (step (fun _ => 3) 3)
    (fun _ _ => True) sampleStart
    (publishActions 0 ArtifactStore.sampleKey ++ [.crash] ++ publishActions 1 ⟨.wheel, 2⟩ ++
      commitActions 1 ++ listing)
    (fun s => decide (3 < storedTotal s.store.rows)) (by decide +kernel)
  have hle := h (fun _ => 3) 3 sampleStart s (by decide) (sampleStart_start _) (Nat.zero_le 3) hrun
  exact Nat.not_lt_of_le hle (of_decide_eq_true hs)

end ArtifactQuota

end Dopilot
