/-
Dopilot/Notifications.lean

The notification center.

A notification with a dedupe key folds into the unread row of its type and key, if
there is one: `notify` raises the count and the severity in one upsert, reads the
row, and then stores the payload merged in the session, so that sticky flags stay.
These are three statements, and other sessions run between them.

What keeps them apart is the database.  An upsert takes the lock of its type and
key (it waits for the index entry of another session, or for the unread row), a
row that is marked read or deleted takes the same lock, and all are held to the
end of the transaction.  An object of a row is not kept behind `notify`: nothing
else refers to it, and the session does not.  So the row that is read is the one
that was written (`Notifications.folded`).

`history` records what was committed, for the statements only: no step reads it.
-/
import Dopilot.Overlays
import Dopilot.StateMachine
import Dopilot.Protocol

namespace Dopilot

namespace Notifications

open StateMachine

/-! ### Payloads -/

/-- A value of a payload. -/
inductive Json where
  | null
  | bool (b : Bool)
  | number (n : Rat)
  | string (s : String)
  | array (values : List Json)
  | object (entries : List (String × Json))

/-- `dict[str, Any]`. -/
abbrev Payload := Table String Json

/-- `STICKY_FLAGS`. -/
def stickyFlags : List String := ["cleared"]

/-- `payload.get(flag) is True`. -/
def sets (p : Payload) (flag : String) : Bool :=
  match p.get flag with
  | some (.bool true) => true
  | _ => false

/-- The payload of a row with that of a later notification folded in. -/
def merge (old new : Payload) : Payload :=
  (stickyFlags.filter (sets old)).foldl (fun m flag => m.put flag (.bool true)) (old.updated new)

/-- A sticky flag stays. -/
theorem sets_merge {old new : Payload} {flag : String} (hflag : flag ∈ stickyFlags)
    (h : sets old flag = true ∨ sets new flag = true) : sets (merge old new) flag = true := by
  rw [sets, merge, Table.get_foldl_put_same]
  by_cases hold : sets old flag = true
  · rw [if_pos (List.mem_filter.mpr ⟨hflag, hold⟩)]
  · have hno : flag ∉ stickyFlags.filter (sets old) := fun hmem => hold (List.mem_filter.mp hmem).2
    have hnew := h.resolve_left hold
    rw [if_neg hno, Table.get_updated]
    unfold sets at hnew
    cases hget : new.get flag with
    | none =>
        rw [hget] at hnew
        cases hnew
    | some v =>
        rw [hget] at hnew
        exact hnew

/-! ### Rows -/

inductive Severity where
  | info
  | warning
  | error
  deriving DecidableEq, Repr

/-- `SEVERITY_RANK`. -/
def Severity.rank : Severity → Nat
  | .info => 0
  | .warning => 1
  | .error => 2

/-- The severity is only ever raised. -/
def Severity.raise (old new : Severity) : Severity := if old.rank < new.rank then new else old

theorem Severity.rank_raise (old new : Severity) :
    (old.raise new).rank = max old.rank new.rank := by
  unfold raise
  split
  · omega
  · omega

abbrev NotificationId := Nat

abbrev SessionId := Nat

/-- A type and a dedupe key. -/
abbrev Key := String × String

/-- A row of `notifications`. -/
structure Row where
  type : String
  severity : Severity
  payload : Payload
  dedupeKey : Option String
  count : Nat
  readAt : Option Time
  createdAt : Time
  updatedAt : Time
  lastSeenAt : Time

/-- The row is in the partial index, under a key. -/
def Row.unread (k : Key) (r : Row) : Bool :=
  r.type == k.1 && r.dedupeKey == some k.2 && r.readAt.isNone

theorem Row.unread_iff {k : Key} {r : Row} :
    r.unread k = true ↔ r.type = k.1 ∧ r.dedupeKey = some k.2 ∧ r.readAt = none := by
  rw [unread, Bool.and_eq_true, Bool.and_eq_true, beq_iff_eq, beq_iff_eq, Option.isNone_iff_eq_none,
    and_assoc]

/-- A row is unread under one key at most. -/
theorem Row.unread_unique {k k' : Key} {r : Row} (h : r.unread k = true) (h' : r.unread k' = true) :
    k = k' := by
  obtain ⟨ht, hk, -⟩ := unread_iff.mp h
  obtain ⟨ht', hk', -⟩ := unread_iff.mp h'
  exact Prod.ext (ht.symm.trans ht') (Option.some.inj (hk.symm.trans hk'))

/-- What a statement that writes a row waits for. -/
inductive Lock where
  | unread (k : Key)
  | row (id : NotificationId)
  deriving DecidableEq, Repr

/-- The lock of a row: that of its entry in the index, if it has one. -/
def Row.lock (id : NotificationId) (r : Row) : Lock :=
  match r.dedupeKey, r.readAt with
  | some key, none => .unread (r.type, key)
  | _, _ => .row id

theorem Row.lock_of_unread {id : NotificationId} {k : Key} {r : Row} (h : r.unread k = true) :
    r.lock id = .unread k := by
  obtain ⟨ht, hk, hread⟩ := unread_iff.mp h
  rw [lock, hk, hread, ht]

theorem Row.unread_of_lock {id : NotificationId} {k : Key} {r : Row} (h : r.lock id = .unread k) :
    r.unread k = true := by
  unfold lock at h
  split at h
  · rename_i key hkey hread
    rw [unread_iff, ← Lock.unread.inj h]
    exact ⟨rfl, hkey, hread⟩
  · cases h

/-! ### Sessions -/

/-- The arguments of a call of `notify` with a dedupe key. -/
structure Notify where
  type : String
  severity : Severity
  payload : Payload
  dedupeKey : String

def Notify.key (n : Notify) : Key := (n.type, n.dedupeKey)

/-- What a transaction did. -/
inductive Event where
  | notified (n : Notify)
  /-- The unread row of a key was marked read, or deleted. -/
  | ended (k : Key)

def Event.key : Event → Key
  | .notified n => n.key
  | .ended k => k

/-- The writes of a transaction that is not committed, and what it did. -/
structure Tx where
  own : Table NotificationId (Option Row)
  log : List Event

def Tx.empty : Tx := ⟨.empty, []⟩

/-- What a `notify` is undone to: the transaction before it, and whether the lock
was taken by it. -/
structure Savepoint where
  tx : Tx
  key : Key
  fresh : Bool

/-- How far a call of `notify` has come. -/
inductive Call where
  | idle
  /-- The upsert is done. -/
  | upserted (n : Notify) (newId : NotificationId) (before : Savepoint)
  /-- The row was read, and its object has the merged payload. -/
  | loaded (id : NotificationId) (payload : Payload) (before : Savepoint)

structure Session where
  tx : Tx
  call : Call

structure State where
  rows : Table NotificationId Row
  nextId : NotificationId
  holder : Lock → Option SessionId
  sessions : SessionId → Session
  /-- What was committed. -/
  history : List Event

def init : State where
  rows := .empty
  nextId := 0
  holder := fun _ => none
  sessions := fun _ => ⟨.empty, .idle⟩
  history := []

/-! ### Statements -/

inductive Act where
  /-- The upsert of `notify`. -/
  | upsert (s : SessionId) (n : Notify) (now : Time)
  /-- Its `select`, and the merge. -/
  | select (s : SessionId)
  /-- Its last `flush`. -/
  | flush (s : SessionId) (now : Time)
  /-- It is undone to a savepoint. -/
  | undo (s : SessionId)
  /-- `notify` without a dedupe key. -/
  | add (s : SessionId) (type : String) (severity : Severity) (payload : Payload) (now : Time)
  /-- One row of an `update` that marks rows read. -/
  | mark (s : SessionId) (id : NotificationId) (now : Time)
  /-- One row of a `delete`. -/
  | delete (s : SessionId) (id : NotificationId)
  | commit (s : SessionId)
  | rollback (s : SessionId)

/-- The session need not wait for the lock. -/
def State.canTake (st : State) (s : SessionId) (l : Lock) : Bool :=
  st.holder l == none || st.holder l == some s

/-- The locks, with one of them taken. -/
def take (holder : Lock → Option SessionId) (s : SessionId) (l : Lock) : Lock → Option SessionId :=
  Function.update holder l (some s)

/-- The locks, without those of a session. -/
def release (holder : Lock → Option SessionId) (s : SessionId) (l : Lock) : Option SessionId :=
  if holder l = some s then none else holder l

def State.setSession (st : State) (s : SessionId) (x : Session) : State :=
  { st with sessions := Function.update st.sessions s x }

/-- The row of a new notification. -/
def Notify.row (n : Notify) (now : Time) : Row where
  type := n.type
  severity := n.severity
  payload := n.payload
  dedupeKey := some n.dedupeKey
  count := 1
  readAt := none
  createdAt := now
  updatedAt := now
  lastSeenAt := now

/-- `on_conflict_do_update`. -/
def Row.counted (r : Row) (n : Notify) (now : Time) : Row :=
  { r with
    count := r.count + 1
    lastSeenAt := now
    updatedAt := now
    severity := r.severity.raise n.severity }

/-- The upsert, in the transaction: it folds into the unread row of the key, or
inserts its own. -/
def Tx.upsert (tx : Tx) (rows : Table NotificationId Row) (n : Notify) (newId : NotificationId)
    (now : Time) : Tx where
  own :=
    match rows.seek tx.own (Row.unread n.key) with
    | some (id, r) => tx.own.put id (some (r.counted n now))
    | none => tx.own.put newId (some (n.row now))
  log := tx.log ++ [.notified n]

/-- The event of an unread row that is read or gone. -/
def Row.ending (r : Row) : List Event :=
  match r.dedupeKey, r.readAt with
  | some key, none => [.ended (r.type, key)]
  | _, _ => []

/-- A row gets a version, under its lock. -/
def State.write (st : State) (s : SessionId) (id : NotificationId) (r : Row) (v : Option Row) :
    State :=
  let tx := (st.sessions s).tx
  { st with
    holder := take st.holder s (r.lock id)
    sessions := Function.update st.sessions s
      { tx := { own := tx.own.put id v, log := tx.log ++ r.ending }, call := .idle } }

/-- One statement of a session, or the end of its transaction. -/
def step (st : State) : Act → Option State
  | .upsert s n now =>
      let x := st.sessions s
      match x.call with
      | .idle =>
          if st.canTake s (.unread n.key) then
            some { st with
              nextId := st.nextId + 1
              holder := take st.holder s (.unread n.key)
              sessions := Function.update st.sessions s
                { tx := x.tx.upsert st.rows n st.nextId now
                  call := .upserted n st.nextId
                    { tx := x.tx, key := n.key
                      fresh := st.holder (.unread n.key) == none } } }
          else none
      | _ => none
  | .select s =>
      let x := st.sessions s
      match x.call with
      | .upserted n newId before =>
          match st.rows.seek x.tx.own (Row.unread n.key) with
          | some (id, r) =>
              if id = newId then some (st.setSession s { x with call := .idle })
              else
                some (st.setSession s
                  { x with call := .loaded id (merge r.payload n.payload) before })
          | none => none
      | _ => none
  | .flush s now =>
      let x := st.sessions s
      match x.call with
      | .loaded id payload _ =>
          match st.rows.see x.tx.own id with
          | some r =>
              some (st.setSession s
                { tx := { x.tx with
                    own := x.tx.own.put id (some { r with payload := payload, updatedAt := now }) }
                  call := .idle })
          | none => none
      | _ => none
  | .undo s =>
      let x := st.sessions s
      match x.call with
      | .upserted _ _ before | .loaded _ _ before =>
          some { st with
            holder :=
              if before.fresh then Function.update st.holder (.unread before.key) none
              else st.holder
            sessions := Function.update st.sessions s { tx := before.tx, call := .idle } }
      | .idle => none
  | .add s type severity payload now =>
      let x := st.sessions s
      match x.call with
      | .idle =>
          let r : Row :=
            { type := type, severity := severity, payload := payload, dedupeKey := none, count := 1
              readAt := none, createdAt := now, updatedAt := now, lastSeenAt := now }
          some { st with
            nextId := st.nextId + 1
            sessions := Function.update st.sessions s
              { tx := { x.tx with own := x.tx.own.put st.nextId (some r) }, call := .idle } }
      | _ => none
  | .mark s id now =>
      let x := st.sessions s
      match x.call with
      | .idle =>
          match st.rows.see x.tx.own id with
          | some r =>
              if r.readAt ≠ none then some st
              else if st.canTake s (r.lock id) then
                some (st.write s id r (some { r with readAt := some now, updatedAt := now }))
              else none
          | none => some st
      | _ => none
  | .delete s id =>
      let x := st.sessions s
      match x.call with
      | .idle =>
          match st.rows.see x.tx.own id with
          | some r =>
              if st.canTake s (r.lock id) then some (st.write s id r none) else none
          | none => some st
      | _ => none
  | .commit s =>
      let x := st.sessions s
      match x.call with
      | .idle =>
          some { st with
            rows := st.rows.overlaid x.tx.own
            holder := release st.holder s
            sessions := Function.update st.sessions s ⟨.empty, .idle⟩
            history := st.history ++ x.tx.log }
      | _ => none
  | .rollback s =>
      some { st with
        holder := release st.holder s
        sessions := Function.update st.sessions s ⟨.empty, .idle⟩ }

/-- `mark_read`: the rows of the ids, one after the other. -/
def markRead (s : SessionId) (ids : List NotificationId) (now : Time) : List Act :=
  ids.map fun id => .mark s id now

/-- `mark_all_read`: the rows that are unread when the statement starts. -/
def markAllRead (st : State) (s : SessionId) (now : Time) : List Act :=
  let x := st.sessions s
  markRead s ((x.tx.own.rows.map Prod.fst ++ st.rows.rows.map Prod.fst).filter fun id =>
    (st.rows.see x.tx.own id).any fun r => r.readAt.isNone) now

/-! ### What is due to a key -/

/-- What happened since the last end, with one more event. -/
def sinceNext (k : Key) (since : List Notify) : Event → List Notify
  | .notified n => if n.key = k then since ++ [n] else since
  | .ended k' => if k' = k then [] else since

/-- The notifications of a key since its row was last read or pruned. -/
def since (k : Key) (events : List Event) : List Notify := events.foldl (sinceNext k) []

theorem foldl_quiet {k : Key} {events : List Event} (h : ∀ e ∈ events, e.key ≠ k)
    (ns : List Notify) : events.foldl (sinceNext k) ns = ns := by
  induction events generalizing ns with
  | nil => rfl
  | cons e events ih =>
      have he : sinceNext k ns e = ns := by
        have hne := h e List.mem_cons_self
        cases e with
        | notified n => exact if_neg hne
        | ended k' => exact if_neg hne
      rw [List.foldl_cons, he]
      exact ih (fun e he => h e (List.mem_cons_of_mem _ he)) ns

/-- Events of other keys are nothing to a key. -/
theorem since_quiet {k : Key} {events : List Event} (h : ∀ e ∈ events, e.key ≠ k)
    (before behind : List Event) : since k (before ++ events ++ behind) = since k (before ++ behind) := by
  rw [since, since, List.foldl_append, List.foldl_append, List.foldl_append, foldl_quiet h]

theorem since_append (k : Key) (before : List Event) (e : Event) :
    since k (before ++ [e]) = sinceNext k (since k before) e := by
  rw [since, List.foldl_append]
  rfl

/-- The row of a key after its notifications. -/
structure Folded (r : Row) (ns : List Notify) : Prop where
  count : r.count = ns.length
  severity : ∀ n ∈ ns, n.severity.rank ≤ r.severity.rank
  raised : ∃ n ∈ ns, n.severity = r.severity
  sticky : ∀ flag ∈ stickyFlags, (∃ n ∈ ns, sets n.payload flag = true) →
    sets r.payload flag = true

/-- One unread row for the notifications of a key, or none where there are none. -/
def Matches (see : NotificationId → Option Row) (k : Key) (ns : List Notify) : Prop :=
  (ns = [] ∧ ∀ id r, see id = some r → r.unread k = false) ∨
    ∃ id r, see id = some r ∧ r.unread k = true ∧ Folded r ns ∧
      ∀ id' r', see id' = some r' → r'.unread k = true → id' = id

namespace Matches

variable {see see' : NotificationId → Option Row} {k : Key} {ns : List Notify}

/-- Only the unread rows of the key matter. -/
theorem congr (h : Matches see k ns)
    (hsee : ∀ id r, r.unread k = true → (see' id = some r ↔ see id = some r)) :
    Matches see' k ns := by
  rcases h with ⟨hns, hnone⟩ | ⟨id, r, hr, hunread, hfolded, hunique⟩
  · refine .inl ⟨hns, fun id r hr => ?_⟩
    by_contra hu
    rw [Bool.not_eq_false] at hu
    rw [hnone id r ((hsee id r hu).mp hr)] at hu
    cases hu
  · refine .inr ⟨id, r, (hsee id r hunread).mpr hr, hunread, hfolded, fun id' r' hr' hu' => ?_⟩
    exact hunique id' r' ((hsee id' r' hu').mp hr') hu'

/-- The unread row of the key. -/
theorem of_unread (h : Matches see k ns) {id : NotificationId} {r : Row} (hr : see id = some r)
    (hu : r.unread k = true) :
    Folded r ns ∧ ∀ id' r', see id' = some r' → r'.unread k = true → id' = id := by
  rcases h with ⟨-, hnone⟩ | ⟨id₀, r₀, hr₀, hu₀, hfolded, hunique⟩
  · rw [hnone id r hr] at hu
    cases hu
  · obtain rfl := hunique id r hr hu
    obtain rfl := Option.some.inj (hr₀.symm.trans hr)
    exact ⟨hfolded, hunique⟩

/-- Where no row of the key is unread nothing is due to it. -/
theorem of_none (h : Matches see k ns) (hnone : ∀ id r, see id = some r → r.unread k = false) :
    ns = [] := by
  rcases h with ⟨hns, -⟩ | ⟨id, r, hr, hu, -, -⟩
  · exact hns
  · rw [hnone id r hr] at hu
    cases hu

/-- The unread row is written over. -/
theorem fold (h : Matches see k ns) {id : NotificationId} {r r' : Row} (hr : see id = some r)
    (hu : r.unread k = true) (hu' : r'.unread k = true) {ns' : List Notify}
    (hfolded : Folded r' ns') : Matches (Function.update see id (some r')) k ns' := by
  obtain ⟨-, hunique⟩ := h.of_unread hr hu
  refine .inr ⟨id, r', Function.update_self .., hu', hfolded, fun id' r'' hr'' hu'' => ?_⟩
  by_cases hid : id' = id
  · exact hid
  · rw [Function.update_of_ne hid] at hr''
    exact hunique id' r'' hr'' hu''

/-- A first row is inserted. -/
theorem insert (hnone : ∀ id r, see id = some r → r.unread k = false) (id : NotificationId)
    {r : Row} (hu : r.unread k = true) {ns' : List Notify} (hfolded : Folded r ns') :
    Matches (Function.update see id (some r)) k ns' := by
  refine .inr ⟨id, r, Function.update_self .., hu, hfolded, fun id' r' hr' hu' => ?_⟩
  by_cases hid : id' = id
  · exact hid
  · rw [Function.update_of_ne hid] at hr'
    rw [hnone id' r' hr'] at hu'
    cases hu'

/-- The unread row is read, or deleted. -/
theorem ended (h : Matches see k ns) {id : NotificationId} {r : Row} (hr : see id = some r)
    (hu : r.unread k = true) {v : Option Row} (hv : ∀ r', v = some r' → r'.unread k = false) :
    Matches (Function.update see id v) k [] := by
  obtain ⟨-, hunique⟩ := h.of_unread hr hu
  refine .inl ⟨rfl, fun id' r' hr' => ?_⟩
  by_cases hid : id' = id
  · rw [hid, Function.update_self] at hr'
    exact hv r' hr'
  · rw [Function.update_of_ne hid] at hr'
    by_contra hu'
    rw [Bool.not_eq_false] at hu'
    exact hid (hunique id' r' hr' hu')

end Matches

/-- The first notification. -/
theorem Folded.first (n : Notify) (now : Time) : Folded (n.row now) [n] where
  count := rfl
  severity m hm := by
    rw [List.mem_singleton.mp hm]
    exact Nat.le_refl _
  raised := ⟨n, List.mem_singleton.mpr rfl, rfl⟩
  sticky flag _ h := by
    obtain ⟨m, hm, hset⟩ := h
    rw [List.mem_singleton.mp hm] at hset
    exact hset

/-- **One more notification**, counted in the upsert and merged behind it. -/
theorem Folded.next {r : Row} {ns : List Notify} (h : Folded r ns) (n : Notify) (now now' : Time) :
    Folded { r.counted n now with payload := merge r.payload n.payload, updatedAt := now' }
      (ns ++ [n]) where
  count := by
    rw [List.length_append, ← h.count]
    rfl
  severity m hm := by
    show m.severity.rank ≤ (r.severity.raise n.severity).rank
    rw [Severity.rank_raise]
    rcases List.mem_append.mp hm with hm | hm
    · exact Nat.le_trans (h.severity m hm) (Nat.le_max_left _ _)
    · rw [List.mem_singleton.mp hm]
      exact Nat.le_max_right _ _
  raised := by
    show ∃ m ∈ ns ++ [n], m.severity = r.severity.raise n.severity
    unfold Severity.raise
    split
    · exact ⟨n, List.mem_append_right _ (List.mem_singleton.mpr rfl), rfl⟩
    · obtain ⟨m, hm, hsev⟩ := h.raised
      exact ⟨m, List.mem_append_left _ hm, hsev⟩
  sticky flag hflag hset := by
    obtain ⟨m, hm, hset⟩ := hset
    refine sets_merge hflag ?_
    rcases List.mem_append.mp hm with hm | hm
    · exact .inl (h.sticky flag hflag ⟨m, hm, hset⟩)
    · rw [List.mem_singleton.mp hm] at hset
      exact .inr hset

/-! ### Transactions -/

/-- What a transaction has done to the keys whose lock it holds, and that it has
not touched the others. -/
structure TxOk (rows : Table NotificationId Row) (history : List Event) (held : Lock → Prop)
    (tx : Tx) : Prop where
  folded : ∀ k, held (.unread k) → Matches (rows.see tx.own) k (since k (history ++ tx.log))
  quiet : ∀ k, ¬ held (.unread k) → ∀ e ∈ tx.log, e.key ≠ k
  away : ∀ k, ¬ held (.unread k) → ∀ id v, tx.own.get id = some v →
    (∀ r, v = some r → r.unread k = false) ∧ ∀ r, rows.get id = some r → r.unread k = false
  locked : ∀ id v r, tx.own.get id = some v → rows.get id = some r → held (r.lock id)

namespace TxOk

variable {rows : Table NotificationId Row} {history : List Event} {held : Lock → Prop} {tx : Tx}

/-- The unread rows of a key that is not held are those below. -/
theorem see_iff (h : TxOk rows history held tx) {k : Key} (hk : ¬ held (.unread k))
    {id : NotificationId} {r : Row} (hu : r.unread k = true) :
    rows.see tx.own id = some r ↔ rows.get id = some r := by
  cases hown : tx.own.get id with
  | none => rw [Table.see_of_none hown]
  | some v =>
      obtain ⟨hv, hbelow⟩ := h.away k hk id v hown
      rw [Table.see_of_some hown]
      constructor
      · intro hr
        rw [hv r hr] at hu
        cases hu
      · intro hr
        rw [hbelow r hr] at hu
        cases hu

/-- What a transaction sees of a key, held or not. -/
theorem sees (h : TxOk rows history held tx)
    (hrows : ∀ k, Matches rows.get k (since k history)) (k : Key) :
    Matches (rows.see tx.own) k (since k (history ++ tx.log)) := by
  by_cases hk : held (.unread k)
  · exact h.folded k hk
  · have hsince : since k (history ++ tx.log) = since k history := by
      have hquiet := since_quiet (h.quiet k hk) history []
      rwa [List.append_nil, List.append_nil] at hquiet
    rw [hsince]
    exact (hrows k).congr fun id r hu => h.see_iff hk hu

theorem empty : TxOk rows history held .empty ↔
    ∀ k, held (.unread k) → Matches rows.get k (since k history) := by
  constructor
  · intro h k hk
    have hk' := h.folded k hk
    rwa [show history ++ Tx.empty.log = history from List.append_nil _] at hk'
  · intro h
    refine ⟨fun k hk => ?_, fun k _ e he => ?_, fun k _ id v hv => ?_, fun id v r hv => ?_⟩
    · rw [show history ++ Tx.empty.log = history from List.append_nil _]
      exact h k hk
    · cases he
    · cases hv
    · cases hv

/-- **A write under a lock**: the transaction takes one lock more, and writes a row
that is of no other key. -/
theorem write (h : TxOk rows history held tx) (hrows : ∀ k, Matches rows.get k (since k history))
    {l : Lock} {id : NotificationId} {v : Option Row} {events : List Event}
    (hlock : ∀ r, tx.own.get id = none → rows.get id = some r → r.lock id = l)
    (hother : ∀ k, l ≠ .unread k → (∀ r, v = some r → r.unread k = false) ∧
      (∀ r, rows.see tx.own id = some r → r.unread k = false) ∧ ∀ e ∈ events, e.key ≠ k)
    (htarget : ∀ k, l = .unread k → Matches (Function.update (rows.see tx.own) id v) k
      (since k (history ++ (tx.log ++ events)))) :
    TxOk rows history (fun l' => held l' ∨ l' = l)
      { own := tx.own.put id v, log := tx.log ++ events } := by
  refine ⟨fun k hk => ?_, fun k hk e he => ?_, fun k hk id' v' hv' => ?_, fun id' v' r hv' hr => ?_⟩
  · rw [Table.see_put]
    by_cases hl : l = .unread k
    · exact htarget k hl
    · obtain ⟨hv, hsee, hevents⟩ := hother k hl
      have hsince := since_quiet hevents (history ++ tx.log) []
      rw [List.append_nil, List.append_nil, List.append_assoc] at hsince
      show Matches _ k (since k (history ++ (tx.log ++ events)))
      rw [hsince]
      refine (h.sees hrows k).congr fun id' r hu => ?_
      by_cases hid : id' = id
      · rw [hid, Function.update_self]
        constructor
        · intro hr
          rw [hv r hr] at hu
          cases hu
        · intro hr
          rw [hsee r hr] at hu
          cases hu
      · rw [Function.update_of_ne hid]
  · obtain ⟨hheld, hl⟩ := not_or.mp hk
    rcases List.mem_append.mp he with he | he
    · exact h.quiet k hheld e he
    · exact (hother k (Ne.symm hl)).2.2 e he
  · obtain ⟨hheld, hl⟩ := not_or.mp hk
    obtain ⟨hv, hsee, -⟩ := hother k (Ne.symm hl)
    rw [Table.get_put] at hv'
    by_cases hid : id' = id
    · subst hid
      rw [if_pos rfl, Option.some.injEq] at hv'
      subst hv'
      refine ⟨hv, fun r hr => ?_⟩
      cases hown : tx.own.get id' with
      | none => exact hsee r ((Table.see_of_none hown).trans hr)
      | some v₀ => exact (h.away k hheld id' v₀ hown).2 r hr
    · rw [if_neg hid] at hv'
      exact h.away k hheld id' v' hv'
  · rw [Table.get_put] at hv'
    by_cases hid : id' = id
    · subst hid
      cases hown : tx.own.get id' with
      | none => exact .inr (hlock r hown hr)
      | some v₀ => exact .inl (h.locked id' v₀ r hown hr)
    · rw [if_neg hid] at hv'
      exact .inl (h.locked id' v' r hv' hr)

/-- **A notification is written**, into a row that is unread under its key or new. -/
theorem notified (h : TxOk rows history held tx) (hrows : ∀ k, Matches rows.get k (since k history))
    {n : Notify} {id : NotificationId} {r' : Row} (hu' : r'.unread n.key = true)
    (hid : ∀ r, rows.see tx.own id = some r → r.unread n.key = true)
    (hmatch : Matches (Function.update (rows.see tx.own) id (some r')) n.key
      (since n.key (history ++ tx.log) ++ [n])) :
    TxOk rows history (fun l' => held l' ∨ l' = .unread n.key)
      { own := tx.own.put id (some r'), log := tx.log ++ [.notified n] } := by
  have hother : ∀ (r : Row), r.unread n.key = true → ∀ k, Lock.unread n.key ≠ .unread k →
      r.unread k = false := by
    intro r hu k hne
    by_contra hk
    rw [Bool.not_eq_false] at hk
    exact hne (congrArg Lock.unread (Row.unread_unique hu hk))
  refine h.write hrows (fun r hown hr => ?_) (fun k hne => ⟨fun r hr => ?_, fun r hr => ?_, ?_⟩)
    fun k hk => ?_
  · exact Row.lock_of_unread (hid r ((Table.see_of_none hown).trans hr))
  · rw [← Option.some.inj hr]
    exact hother r' hu' k hne
  · exact hother r (hid r hr) k hne
  · intro e he heq
    rw [List.mem_singleton.mp he] at heq
    exact hne (congrArg Lock.unread heq)
  · obtain rfl := Lock.unread.inj hk
    rw [← List.append_assoc, since_append]
    show Matches _ n.key (if n.key = n.key then _ else _)
    rw [if_pos rfl]
    exact hmatch

/-- **The commit of another transaction** is nothing to this one. -/
theorem stable (h : TxOk rows history held tx) {held' : Lock → Prop} {tx' : Tx}
    (h' : TxOk rows history held' tx') (hheld : ∀ l, held l → ¬ held' l)
    (hown : ∀ id v, tx.own.get id = some v → tx'.own.get id = none) :
    TxOk (rows.overlaid tx'.own) (history ++ tx'.log) held tx := by
  have hget : ∀ id v, tx.own.get id = some v → (rows.overlaid tx'.own).get id = rows.get id := by
    intro id v hv
    rw [Table.get_overlaid, Table.see_of_none (hown id v hv)]
  refine ⟨fun k hk => ?_, h.quiet, fun k hk id v hv => ?_, fun id v r hv hr => ?_⟩
  · rw [since_quiet (h'.quiet k (hheld _ hk)) history tx.log]
    refine (h.folded k hk).congr fun id r hu => ?_
    cases hv : tx.own.get id with
    | none =>
        rw [Table.see_of_none hv, Table.see_of_none hv, Table.get_overlaid]
        exact h'.see_iff (hheld _ hk) hu
    | some v => rw [Table.see_of_some hv, Table.see_of_some hv]
  · rw [hget id v hv]
    exact h.away k hk id v hv
  · rw [hget id v hv] at hr
    exact h.locked id v r hv hr

/-- Only the rows that are seen matter, and which locks are held. -/
theorem congr (h : TxOk rows history held tx) {held' : Lock → Prop} {tx' : Tx}
    (hheld : ∀ l, held l ↔ held' l) (hget : ∀ id, tx'.own.get id = tx.own.get id)
    (hlog : tx'.log = tx.log) : TxOk rows history held' tx' := by
  have hsee : rows.see tx'.own = rows.see tx.own := by
    funext id
    rw [Table.see, Table.see, hget]
  refine ⟨fun k hk => ?_, fun k hk => ?_, fun k hk id v hv => ?_, fun id v r hv hr => ?_⟩
  · rw [hsee, hlog]
    exact h.folded k ((hheld _).mpr hk)
  · rw [hlog]
    exact h.quiet k fun hno => hk ((hheld _).mp hno)
  · rw [hget] at hv
    exact h.away k (fun hno => hk ((hheld _).mp hno)) id v hv
  · rw [hget] at hv
    exact (hheld _).mp (h.locked id v r hv hr)

/-- The lock of a row that is not there yet need not be held. -/
theorem unlock {id : NotificationId} (h : TxOk rows history (fun l => held l ∨ l = .row id) tx)
    (hid : rows.get id = none) : TxOk rows history held tx := by
  have hunread : ∀ k, ¬ held (.unread k) → ¬ (held (.unread k) ∨ Lock.unread k = .row id) := by
    rintro k hk (hno | hno)
    · exact hk hno
    · cases hno
  refine ⟨fun k hk => h.folded k (.inl hk), fun k hk => h.quiet k (hunread k hk),
    fun k hk => h.away k (hunread k hk), fun id' v r hv hr => ?_⟩
  rcases h.locked id' v r hv hr with hl | hl
  · exact hl
  · have hid' : id' = id := by
      unfold Row.lock at hl
      split at hl
      · cases hl
      · exact Lock.row.inj hl
    rw [hid', hid] at hr
    cases hr

end TxOk

/-! ### Sessions in a call -/

/-- What a call is undone to. -/
structure SavepointOk (rows : Table NotificationId Row) (history : List Event)
    (held : Lock → Prop) (tx : Tx) (before : Savepoint) : Prop where
  saved : TxOk rows history (fun l => held l ∧ (before.fresh = true → l ≠ .unread before.key))
    before.tx
  own : ∀ id v, before.tx.own.get id = some v → ∃ v', tx.own.get id = some v'
  taken : before.fresh = true → held (.unread before.key)

/-- The transaction with a row written over. -/
def Tx.rewrite (tx : Tx) (id : NotificationId) (r : Row) : Tx :=
  { tx with own := tx.own.put id (some r) }

/-- A session is sound, once its call is brought to its end. -/
def CallOk (rows : Table NotificationId Row) (history : List Event) (held : Lock → Prop) (tx : Tx) :
    Call → Prop
  | .idle => TxOk rows history held tx
  | .upserted n newId before => SavepointOk rows history held tx before ∧
      ∃ id r, tx.own.get id = some (some r) ∧ r.unread n.key = true ∧
        (id = newId → TxOk rows history held tx) ∧
        (id ≠ newId → ∀ now, TxOk rows history held
          (tx.rewrite id { r with payload := merge r.payload n.payload, updatedAt := now }))
  | .loaded id payload before => SavepointOk rows history held tx before ∧
      ∃ r, tx.own.get id = some (some r) ∧ ∀ now, TxOk rows history held
        (tx.rewrite id { r with payload := payload, updatedAt := now })

abbrev SessionOk (rows : Table NotificationId Row) (history : List Event) (held : Lock → Prop)
    (x : Session) : Prop := CallOk rows history held x.tx x.call

section SessionOk

variable {rows : Table NotificationId Row} {history : List Event} {held : Lock → Prop}
variable {x : Session}

/-- To write over a row that a transaction has written does not widen what it wrote. -/
theorem own_put {own : Table NotificationId (Option Row)} {id : NotificationId}
    {v v' : Option Row} (hid : own.get id = some v) {id' : NotificationId} {u : Option Row}
    (h : (own.put id v').get id' = some u) : ∃ u', own.get id' = some u' := by
  rw [Table.get_put] at h
  split at h
  · rename_i heq
    rw [heq]
    exact ⟨v, hid⟩
  · exact ⟨u, h⟩

theorem SavepointOk.map {held' : Lock → Prop} {rows' : Table NotificationId Row}
    {history' : List Event} {tx : Tx} {before : Savepoint}
    (h : SavepointOk rows history held tx before) (hheld : ∀ l, held l ↔ held' l)
    (htx : ∀ held₁ tx₁, (∀ l, held₁ l → held l) →
      (∀ id v, tx₁.own.get id = some v → ∃ v', tx.own.get id = some v') →
      TxOk rows history held₁ tx₁ → TxOk rows' history' held₁ tx₁) :
    SavepointOk rows' history' held' tx before where
  saved := (htx _ before.tx (fun _ hl => hl.1) h.own h.saved).congr
    (fun l => and_congr_left' (hheld l)) (fun _ => rfl) rfl
  own := h.own
  taken hfresh := (hheld _).mp (h.taken hfresh)

/-- What every transaction survives that writes no more than a session has written
and holds no more than it holds, the session survives. -/
theorem SessionOk.map {held' : Lock → Prop} {rows' : Table NotificationId Row}
    {history' : List Event} (h : SessionOk rows history held x) (hheld : ∀ l, held l ↔ held' l)
    (htx : ∀ held₁ tx₁, (∀ l, held₁ l → held l) →
      (∀ id v, tx₁.own.get id = some v → ∃ v', x.tx.own.get id = some v') →
      TxOk rows history held₁ tx₁ → TxOk rows' history' held₁ tx₁) :
    SessionOk rows' history' held' x := by
  have hheld' : ∀ tx₁, (∀ id v, tx₁.own.get id = some v → ∃ v', x.tx.own.get id = some v') →
      TxOk rows history held tx₁ → TxOk rows' history' held' tx₁ := fun tx₁ hown htx₁ =>
    (htx held tx₁ (fun _ hl => hl) hown htx₁).congr hheld (fun _ => rfl) rfl
  obtain ⟨tx, call⟩ := x
  cases call with
  | idle => exact hheld' tx (fun _ v hv => ⟨v, hv⟩) h
  | upserted n newId before =>
      obtain ⟨hbefore, id, r, hid, hu, hown, hother⟩ := h
      refine ⟨hbefore.map hheld htx, id, r, hid, hu, fun he => ?_, fun he now => ?_⟩
      · exact hheld' tx (fun _ v hv => ⟨v, hv⟩) (hown he)
      · exact hheld' _ (fun _ _ hv => own_put hid hv) (hother he now)
  | loaded id payload before =>
      obtain ⟨hbefore, r, hid, hother⟩ := h
      refine ⟨hbefore.map hheld htx, r, hid, fun now => ?_⟩
      exact hheld' _ (fun _ _ hv => own_put hid hv) (hother now)

/-- Whatever the session is at, it holds the locks of the rows it has written. -/
theorem SessionOk.locked (h : SessionOk rows history held x) {id : NotificationId} {v : Option Row}
    {r : Row} (hv : x.tx.own.get id = some v) (hr : rows.get id = some r) : held (r.lock id) := by
  have hput : ∀ id' v', ∃ u, (x.tx.own.put id' v').get id = some u := by
    intro id' v'
    rw [Table.get_put]
    split
    · exact ⟨v', rfl⟩
    · exact ⟨v, hv⟩
  obtain ⟨tx, call⟩ := x
  cases call with
  | idle => exact TxOk.locked h id v r hv hr
  | upserted n newId before =>
      obtain ⟨-, id', r', -, -, hown, hother⟩ := h
      by_cases he : id' = newId
      · exact (hown he).locked id v r hv hr
      · obtain ⟨u, hu⟩ := hput id' (some { r' with
          payload := merge r'.payload n.payload, updatedAt := r'.updatedAt })
        exact (hother he r'.updatedAt).locked id u r hu hr
  | loaded id' payload before =>
      obtain ⟨-, r', -, hother⟩ := h
      obtain ⟨u, hu⟩ := hput id' (some { r' with payload := payload, updatedAt := r'.updatedAt })
      exact (hother r'.updatedAt).locked id u r hu hr

end SessionOk

/-! ### The invariant -/

/-- The locks of a session. -/
def State.held (st : State) (s : SessionId) (l : Lock) : Prop := st.holder l = some s

structure Inv (st : State) : Prop where
  rows : ∀ k, Matches st.rows.get k (since k st.history)
  session : ∀ s, SessionOk st.rows st.history (st.held s) (st.sessions s)
  fresh : ∀ id, st.nextId ≤ id → st.rows.get id = none ∧
    ∀ s v, (st.sessions s).tx.own.get id ≠ some v
  apart : ∀ s t id v v', (st.sessions s).tx.own.get id = some v →
    (st.sessions t).tx.own.get id = some v' → s = t

theorem inv_init : Inv init where
  rows k := .inl ⟨rfl, fun id r hr => (by cases hr)⟩
  session s := by
    show TxOk _ _ _ Tx.empty
    exact TxOk.empty.mpr fun k hk => (by cases hk)
  fresh id _ := ⟨rfl, fun s v hv => (by cases hv)⟩
  apart s t id v v' hv := by cases hv

section Locks

variable {holder : Lock → Option SessionId} {s t : SessionId} {l l' : Lock}

theorem take_self : take holder s l l' = some s ↔ holder l' = some s ∨ l' = l := by
  unfold take
  by_cases hl : l' = l
  · rw [hl, Function.update_self]
    exact ⟨fun _ => .inr rfl, fun _ => rfl⟩
  · rw [Function.update_of_ne hl]
    exact (or_iff_left hl).symm

theorem take_other (h : holder l = none ∨ holder l = some s) (ht : t ≠ s) :
    take holder s l l' = some t ↔ holder l' = some t := by
  unfold take
  by_cases hl : l' = l
  · rw [hl, Function.update_self]
    constructor
    · intro hs
      exact absurd (Option.some.inj hs).symm ht
    · intro hs
      rcases h with h | h
      · rw [h] at hs
        cases hs
      · rw [h] at hs
        exact absurd (Option.some.inj hs).symm ht
  · rw [Function.update_of_ne hl]

theorem release_other (ht : t ≠ s) : release holder s l = some t ↔ holder l = some t := by
  unfold release
  split
  · rename_i hs
    constructor
    · intro hno
      cases hno
    · intro hno
      rw [hs] at hno
      exact absurd (Option.some.inj hno).symm ht
  · rfl

theorem release_self : release holder s l ≠ some s := by
  unfold release
  split
  · intro hno
    cases hno
  · assumption

theorem canTake_iff {st : State} : st.canTake s l = true ↔
    st.holder l = none ∨ st.holder l = some s := by
  rw [State.canTake, Bool.or_eq_true, beq_iff_eq, beq_iff_eq]

end Locks

namespace Inv

variable {st : State}

/-- **A statement of one session**: the others keep their locks and what they wrote. -/
theorem alone (h : Inv st) {s : SessionId} {x : Session} {holder : Lock → Option SessionId}
    {nextId : NotificationId}
    (hothers : ∀ t, t ≠ s → ∀ l, st.holder l = some t ↔ holder l = some t)
    (hx : SessionOk st.rows st.history (fun l => holder l = some s) x) (hle : st.nextId ≤ nextId)
    (hown : ∀ id v, x.tx.own.get id = some v → id < nextId ∧
      ∀ t v', t ≠ s → (st.sessions t).tx.own.get id ≠ some v') :
    Inv { st with
      nextId := nextId
      holder := holder
      sessions := Function.update st.sessions s x } where
  rows := h.rows
  session t := by
    by_cases ht : t = s
    · subst ht
      show SessionOk st.rows st.history _ (Function.update st.sessions t x t)
      rw [Function.update_self]
      exact hx
    · show SessionOk st.rows st.history _ (Function.update st.sessions s x t)
      rw [Function.update_of_ne ht]
      exact (h.session t).map (hothers t ht) fun _ _ _ _ htx => htx
  fresh id hid := by
    obtain ⟨hrows, hsessions⟩ := h.fresh id (Nat.le_trans hle hid)
    refine ⟨hrows, fun t v hv => ?_⟩
    by_cases ht : t = s
    · subst ht
      simp only [Function.update_self] at hv
      exact absurd (hown id v hv).1 (Nat.not_lt.mpr hid)
    · simp only [Function.update_of_ne ht] at hv
      exact hsessions t v hv
  apart t t' id v v' hv hv' := by
    by_cases ht : t = s
    · by_cases ht' : t' = s
      · rw [ht, ht']
      · subst ht
        simp only [Function.update_self, Function.update_of_ne ht'] at hv hv'
        exact absurd hv' ((hown id v hv).2 t' v' ht')
    · by_cases ht' : t' = s
      · subst ht'
        simp only [Function.update_self, Function.update_of_ne ht] at hv hv'
        exact absurd hv ((hown id v' hv').2 t v ht)
      · simp only [Function.update_of_ne ht, Function.update_of_ne ht'] at hv hv'
        exact h.apart t t' id v v' hv hv'

/-- What a session wrote is its own. -/
theorem own_known (h : Inv st) {s : SessionId} {id : NotificationId} {v : Option Row}
    (hv : (st.sessions s).tx.own.get id = some v) : id < st.nextId ∧
      ∀ t v', t ≠ s → (st.sessions t).tx.own.get id ≠ some v' := by
  refine ⟨?_, fun t v' ht hv' => ht (h.apart t s id v' v hv' hv)⟩
  by_contra hid
  exact (h.fresh id (Nat.not_lt.mp hid)).2 s v hv

/-- A row that a session sees, and whose lock it can take, is no other's. -/
theorem seen_known (h : Inv st) {s : SessionId} {id : NotificationId} {r : Row}
    (hr : st.rows.see (st.sessions s).tx.own id = some r)
    (hlock : st.holder (r.lock id) = none ∨ st.holder (r.lock id) = some s) :
    id < st.nextId ∧ ∀ t v', t ≠ s → (st.sessions t).tx.own.get id ≠ some v' := by
  cases hown : (st.sessions s).tx.own.get id with
  | some v => exact h.own_known hown
  | none =>
      rw [Table.see_of_none hown] at hr
      refine ⟨?_, fun t v' ht hv' => ?_⟩
      · by_contra hid
        rw [(h.fresh id (Nat.not_lt.mp hid)).1] at hr
        cases hr
      · have hheld : st.holder (r.lock id) = some t := (h.session t).locked hv' hr
        rcases hlock with hlock | hlock
        · rw [hlock] at hheld
          cases hheld
        · rw [hlock] at hheld
          exact ht (Option.some.inj hheld).symm

/-- What a session has written and what it writes now. -/
theorem put_known (h : Inv st) {s : SessionId} {id : NotificationId} {v : Option Row}
    {nextId : NotificationId} (hle : st.nextId ≤ nextId)
    (hid : id < nextId ∧ ∀ t v', t ≠ s → (st.sessions t).tx.own.get id ≠ some v')
    {id' : NotificationId} {v' : Option Row}
    (hv' : ((st.sessions s).tx.own.put id v).get id' = some v') :
    id' < nextId ∧ ∀ t u, t ≠ s → (st.sessions t).tx.own.get id' ≠ some u := by
  rw [Table.get_put] at hv'
  split at hv'
  · rename_i heq
    rw [heq]
    exact hid
  · obtain ⟨hlt, hothers⟩ := h.own_known hv'
    exact ⟨Nat.lt_of_lt_of_le hlt hle, hothers⟩

/-- No session has an id that is not issued. -/
theorem next_known (h : Inv st) (s : SessionId) : st.nextId < st.nextId + 1 ∧
    ∀ t v', t ≠ s → (st.sessions t).tx.own.get st.nextId ≠ some v' :=
  ⟨Nat.lt_succ_self _, fun t v' _ => (h.fresh st.nextId (Nat.le_refl _)).2 t v'⟩

theorem see_next (h : Inv st) (s : SessionId) :
    st.rows.see (st.sessions s).tx.own st.nextId = none := by
  obtain ⟨hrows, hsessions⟩ := h.fresh st.nextId (Nat.le_refl _)
  cases hown : (st.sessions s).tx.own.get st.nextId with
  | none => rwa [Table.see_of_none hown]
  | some v => exact absurd hown (hsessions s v)

theorem idle (h : Inv st) {s : SessionId} (hcall : (st.sessions s).call = .idle) :
    TxOk st.rows st.history (st.held s) (st.sessions s).tx := by
  have hs := h.session s
  rwa [SessionOk, hcall] at hs

/-- What an upsert is undone to. -/
theorem savepoint (h : Inv st) {s : SessionId} {k : Key} (hcall : (st.sessions s).call = .idle)
    (hfree : st.holder (.unread k) = none ∨ st.holder (.unread k) = some s) {tx : Tx}
    (hown : ∀ id v, (st.sessions s).tx.own.get id = some v → ∃ v', tx.own.get id = some v') :
    SavepointOk st.rows st.history (fun l => take st.holder s (.unread k) l = some s) tx
      { tx := (st.sessions s).tx, key := k, fresh := st.holder (.unread k) == none } := by
  refine ⟨(h.idle hcall).congr (fun l => ?_) (fun _ => rfl) rfl, hown, fun _ =>
    take_self.mpr (.inr rfl)⟩
  rw [take_self]
  constructor
  · intro hl
    refine ⟨.inl hl, fun hfresh heq => ?_⟩
    have hno : st.holder l = some s := hl
    rw [heq, beq_iff_eq.mp hfresh] at hno
    cases hno
  · rintro ⟨hl | hl, hne⟩
    · exact hl
    · rcases hfree with hnone | hsome
      · exact absurd hl (hne (by rw [beq_iff_eq]; exact hnone))
      · rw [hl]
        exact hsome

/-- **The upsert.** -/
theorem upsert (h : Inv st) {s : SessionId} {n : Notify} {now : Time}
    (hcall : (st.sessions s).call = .idle) (htake : st.canTake s (.unread n.key) = true) :
    Inv { st with
      nextId := st.nextId + 1
      holder := take st.holder s (.unread n.key)
      sessions := Function.update st.sessions s
        { tx := (st.sessions s).tx.upsert st.rows n st.nextId now
          call := .upserted n st.nextId
            { tx := (st.sessions s).tx, key := n.key
              fresh := st.holder (.unread n.key) == none } } } := by
  have hfree := canTake_iff.mp htake
  have htx := h.idle hcall
  have hsees := htx.sees h.rows n.key
  have hheld : ∀ l, (st.held s l ∨ l = .unread n.key) ↔
      take st.holder s (.unread n.key) l = some s := fun l => take_self.symm
  have hwider : ∀ id v id' v', (st.sessions s).tx.own.get id' = some v' →
      ∃ u, ((st.sessions s).tx.own.put id v).get id' = some u := by
    intro id v id' v' hv'
    rw [Table.get_put]
    split
    · exact ⟨v, rfl⟩
    · exact ⟨v', hv'⟩
  have hself : ∀ (own : Table NotificationId (Option Row)) id v, (own.put id v).get id = some v := by
    intro own id v
    rw [Table.get_put, if_pos rfl]
  unfold Tx.upsert
  cases hseek : st.rows.seek (st.sessions s).tx.own (Row.unread n.key) with
  | some found =>
      obtain ⟨id, r⟩ := found
      obtain ⟨hr, hu⟩ := Table.seek_some hseek
      obtain ⟨hfolded, -⟩ := hsees.of_unread hr hu
      have hnew : id ≠ st.nextId := by
        rintro rfl
        rw [h.see_next s] at hr
        cases hr
      have hid : ∀ r', st.rows.see (st.sessions s).tx.own id = some r' → r'.unread n.key = true := by
        intro r' hr'
        rw [← Option.some.inj (hr.symm.trans hr')]
        exact hu
      have hknown := h.seen_known hr (by rwa [Row.lock_of_unread hu])
      refine h.alone (fun t ht l => (take_other hfree ht).symm) ?_ (Nat.le_succ _) fun id' v' hv' =>
        h.put_known (Nat.le_succ _) ⟨Nat.lt_succ_of_lt hknown.1, hknown.2⟩ hv'
      refine ⟨h.savepoint hcall hfree (hwider id _), id, r.counted n now, hself _ _ _, hu,
        fun he => absurd he hnew, fun _ now' => ?_⟩
      have hu' : ({ r.counted n now with
          payload := merge r.payload n.payload, updatedAt := now' } : Row).unread n.key = true := hu
      refine (htx.notified h.rows hu' hid
        (hsees.fold hr hu hu' (hfolded.next n now now'))).congr hheld (fun id' => ?_) rfl
      show (((st.sessions s).tx.own.put id _).put id _).get id' = _
      rw [Table.get_put, Table.get_put, Table.get_put]
      split <;> rfl
  | none =>
      have hnone : ∀ id r, st.rows.see (st.sessions s).tx.own id = some r →
          r.unread n.key = false := fun id r hr => Table.seek_none hseek hr
      have hu : (n.row now).unread n.key = true := Row.unread_iff.mpr ⟨rfl, rfl, rfl⟩
      have hsince := hsees.of_none hnone
      refine h.alone (fun t ht l => (take_other hfree ht).symm) ?_ (Nat.le_succ _) fun id' v' hv' =>
        h.put_known (Nat.le_succ _) (h.next_known s) hv'
      refine ⟨h.savepoint hcall hfree (hwider _ _), st.nextId, n.row now, hself _ _ _, hu,
        fun _ => ?_, fun he => absurd rfl he⟩
      refine (htx.notified h.rows hu (fun r hr => ?_) ?_).congr hheld (fun _ => rfl) rfl
      · rw [h.see_next s] at hr
        cases hr
      · rw [hsince]
        exact .insert hnone st.nextId hu (.first n now)

/-- **The row that is read is the one that was written.** -/
theorem select (h : Inv st) {s : SessionId} {n : Notify} {newId id : NotificationId}
    {before : Savepoint} {r : Row} (hcall : (st.sessions s).call = .upserted n newId before)
    (hseek : st.rows.seek (st.sessions s).tx.own (Row.unread n.key) = some (id, r)) :
    SessionOk st.rows st.history (st.held s) { (st.sessions s) with
      call := if id = newId then .idle else .loaded id (merge r.payload n.payload) before } := by
  obtain ⟨hr, hu⟩ := Table.seek_some hseek
  have hs := h.session s
  rw [SessionOk, hcall] at hs
  obtain ⟨hbefore, id', r', hown, hu', hnew, hother⟩ := hs
  have hsame : id = id' := by
    by_cases he : id' = newId
    · have hunique := ((hnew he).sees h.rows n.key).of_unread (Table.see_of_some hown) hu'
      exact hunique.2 id r hr hu
    · -- the payload does not matter for what is unread
      have htx := (hother he r'.updatedAt).sees h.rows n.key
      have hsee : st.rows.see ((st.sessions s).tx.rewrite id' { r' with
          payload := merge r'.payload n.payload, updatedAt := r'.updatedAt }).own =
          Function.update (st.rows.see (st.sessions s).tx.own) id' (some { r' with
            payload := merge r'.payload n.payload, updatedAt := r'.updatedAt }) :=
        Table.see_put ..
      rw [hsee] at htx
      by_contra hne
      have hunique := (htx.of_unread (Function.update_self ..) hu').2 id r
        ((Function.update_of_ne hne _ _).trans hr) hu
      exact hne hunique
  subst hsame
  obtain rfl : r = r' := by
    rw [Table.see_of_some hown] at hr
    exact (Option.some.inj hr).symm
  by_cases he : id = newId
  · rw [if_pos he]
    exact hnew he
  · rw [if_neg he]
    exact ⟨hbefore, r, hown, hother he⟩

/-- A session goes on, without a lock. -/
theorem onward (h : Inv st) {s : SessionId} {x : Session}
    (hx : SessionOk st.rows st.history (st.held s) x)
    (hown : ∀ id v, x.tx.own.get id = some v → ∃ v', (st.sessions s).tx.own.get id = some v') :
    Inv (st.setSession s x) := by
  refine h.alone (fun t _ l => Iff.rfl) hx (Nat.le_refl _) fun id v hv => ?_
  obtain ⟨v', hv'⟩ := hown id v hv
  exact h.own_known hv'

/-- **The merged payload is stored.** -/
theorem flush (h : Inv st) {s : SessionId} {id : NotificationId} {payload : Payload}
    {before : Savepoint} {r : Row} (hcall : (st.sessions s).call = .loaded id payload before)
    (hr : st.rows.see (st.sessions s).tx.own id = some r) (now : Time) :
    Inv (st.setSession s
      { tx := (st.sessions s).tx.rewrite id { r with payload := payload, updatedAt := now }
        call := .idle }) := by
  have hs := h.session s
  rw [SessionOk, hcall] at hs
  obtain ⟨-, r', hown, hother⟩ := hs
  obtain rfl : r = r' := by
    rw [Table.see_of_some hown] at hr
    exact (Option.some.inj hr).symm
  exact h.onward (hother now) fun id' v hv => own_put hown hv

/-- **A call is undone.** -/
theorem undo (h : Inv st) {s : SessionId} {before : Savepoint}
    (hbefore : SavepointOk st.rows st.history (st.held s) (st.sessions s).tx before) :
    Inv { st with
      holder :=
        if before.fresh then Function.update st.holder (.unread before.key) none else st.holder
      sessions := Function.update st.sessions s { tx := before.tx, call := .idle } } := by
  have hholder : ∀ l, (if before.fresh then Function.update st.holder (.unread before.key) none
      else st.holder) l =
      if before.fresh = true ∧ l = .unread before.key then none else st.holder l := by
    intro l
    cases hfresh : before.fresh with
    | false => simp
    | true =>
        by_cases hl : l = .unread before.key
        · simp [hl]
        · simp [hl]
  refine h.alone (fun t ht l => ?_) ?_ (Nat.le_refl _) fun id v hv => ?_
  · rw [hholder]
    split
    · rename_i hl
      rw [hl.2, hbefore.taken hl.1]
      constructor
      · intro hno
        exact absurd (Option.some.inj hno).symm ht
      · intro hno
        cases hno
    · rfl
  · refine hbefore.saved.congr (fun l => ?_) (fun _ => rfl) rfl
    rw [hholder]
    constructor
    · rintro ⟨hl, hne⟩
      rw [if_neg fun hboth => hne hboth.1 hboth.2]
      exact hl
    · intro hl
      split at hl
      · cases hl
      · rename_i hne
        exact ⟨hl, fun hfresh heq => hne ⟨hfresh, heq⟩⟩
  · obtain ⟨v', hv'⟩ := hbefore.own id v hv
    exact h.own_known hv'

/-- **A row without a key** is inserted. -/
theorem add (h : Inv st) {s : SessionId} (hcall : (st.sessions s).call = .idle) {r : Row}
    (hr : r.dedupeKey = none) :
    Inv { st with
      nextId := st.nextId + 1
      sessions := Function.update st.sessions s
        { tx := { (st.sessions s).tx with
            own := (st.sessions s).tx.own.put st.nextId (some r) }
          call := .idle } } := by
  have hno : ∀ k, r.unread k = false := by
    intro k
    by_contra hu
    rw [Bool.not_eq_false, Row.unread_iff, hr] at hu
    cases hu.2.1
  have hwrite : TxOk st.rows st.history (fun l => st.held s l ∨ l = .row st.nextId)
      { own := (st.sessions s).tx.own.put st.nextId (some r)
        log := (st.sessions s).tx.log ++ [] } := by
    refine (h.idle hcall).write h.rows (fun r' _ hr' => ?_) (fun k _ => ⟨fun r' hr' => ?_,
      fun r' hr' => ?_, fun e he => (by cases he)⟩) fun k hk => (by cases hk)
    · rw [(h.fresh st.nextId (Nat.le_refl _)).1] at hr'
      cases hr'
    · rw [← Option.some.inj hr']
      exact hno k
    · rw [h.see_next s] at hr'
      cases hr'
  refine h.alone (fun t _ l => Iff.rfl) ?_ (Nat.le_succ _) fun id v hv =>
    h.put_known (Nat.le_succ _) (h.next_known s) hv
  exact (hwrite.unlock (h.fresh st.nextId (Nat.le_refl _)).1).congr (fun _ => Iff.rfl)
    (fun _ => rfl) (List.append_nil _).symm

theorem ending_of_unread {k : Key} {r : Row} (hu : r.unread k = true) : r.ending = [.ended k] := by
  obtain ⟨ht, hk, hread⟩ := Row.unread_iff.mp hu
  rw [Row.ending, hk, hread, ht]

theorem unread_of_ending {r : Row} {e : Event} (he : e ∈ r.ending) : r.unread e.key = true := by
  unfold Row.ending at he
  split at he
  · rename_i key hkey hread
    rw [List.mem_singleton.mp he]
    exact Row.unread_iff.mpr ⟨rfl, hkey, hread⟩
  · cases he

/-- **A row is marked read, or deleted.** -/
theorem write (h : Inv st) {s : SessionId} {id : NotificationId} {r : Row} {v : Option Row}
    (hcall : (st.sessions s).call = .idle)
    (hr : st.rows.see (st.sessions s).tx.own id = some r)
    (htake : st.canTake s (r.lock id) = true)
    (hv : ∀ k r', v = some r' → r'.unread k = false) : Inv (st.write s id r v) := by
  have hfree := canTake_iff.mp htake
  have hsame : ∀ r', st.rows.see (st.sessions s).tx.own id = some r' → r' = r :=
    fun r' hr' => (Option.some.inj (hr.symm.trans hr')).symm
  have hwrite : TxOk st.rows st.history (fun l => st.held s l ∨ l = r.lock id)
      { own := (st.sessions s).tx.own.put id v, log := (st.sessions s).tx.log ++ r.ending } := by
    have hno : ∀ k, r.lock id ≠ .unread k → r.unread k = false := by
      intro k hne
      by_contra hu
      rw [Bool.not_eq_false] at hu
      exact hne (Row.lock_of_unread hu)
    refine (h.idle hcall).write h.rows (fun r' hown hr' => ?_) (fun k hne => ⟨hv k,
      fun r' hr' => ?_, fun e he heq => ?_⟩) fun k hk => ?_
    · rw [hsame r' ((Table.see_of_none hown).trans hr')]
    · rw [hsame r' hr']
      exact hno k hne
    · have hu := unread_of_ending he
      rw [heq, hno k hne] at hu
      cases hu
    · have hu := Row.unread_of_lock hk
      have hsince : since k (st.history ++ ((st.sessions s).tx.log ++ r.ending)) = [] := by
        rw [ending_of_unread hu, ← List.append_assoc, since_append]
        exact if_pos rfl
      rw [hsince]
      exact ((h.idle hcall).sees h.rows k).ended hr hu (hv k)
  refine h.alone (fun t ht l => (take_other hfree ht).symm) ?_ (Nat.le_refl _) fun id' v' hv' =>
    h.put_known (Nat.le_refl _) (h.seen_known hr hfree) hv'
  exact hwrite.congr (fun l => take_self.symm) (fun _ => rfl) rfl

/-- A session without a transaction. -/
theorem empty_session (rows : Table NotificationId Row) (history : List Event)
    {held : Lock → Prop} (hheld : ∀ l, ¬ held l) :
    SessionOk rows history held ⟨.empty, .idle⟩ :=
  TxOk.empty.mpr fun k hk => absurd hk (hheld (.unread k))

/-- **A transaction is given up.** -/
theorem rollback (h : Inv st) (s : SessionId) :
    Inv { st with
      holder := release st.holder s
      sessions := Function.update st.sessions s ⟨.empty, .idle⟩ } := by
  refine h.alone (fun t ht l => (release_other ht).symm) (empty_session _ _ fun l => release_self)
    (Nat.le_refl _) fun id v hv => ?_
  cases hv

/-- **A transaction is committed.** -/
theorem commit (h : Inv st) {s : SessionId} (hcall : (st.sessions s).call = .idle) :
    Inv { st with
      rows := st.rows.overlaid (st.sessions s).tx.own
      holder := release st.holder s
      sessions := Function.update st.sessions s ⟨.empty, .idle⟩
      history := st.history ++ (st.sessions s).tx.log } where
  rows k := by
    have hget : (st.rows.overlaid (st.sessions s).tx.own).get =
        st.rows.see (st.sessions s).tx.own := funext (Table.get_overlaid _ _)
    show Matches (st.rows.overlaid (st.sessions s).tx.own).get k _
    rw [hget]
    exact (h.idle hcall).sees h.rows k
  session t := by
    by_cases ht : t = s
    · subst ht
      show SessionOk _ _ _ (Function.update st.sessions t ⟨.empty, .idle⟩ t)
      rw [Function.update_self]
      exact empty_session _ _ fun l => release_self
    · show SessionOk _ _ _ (Function.update st.sessions s ⟨.empty, .idle⟩ t)
      rw [Function.update_of_ne ht]
      refine (h.session t).map (fun l => (release_other ht).symm) fun held₁ tx₁ hheld hown htx => ?_
      refine htx.stable (h.idle hcall) (fun l hl hl' => ?_) fun id v hv => ?_
      · have hl₁ : st.holder l = some t := hheld l hl
        have hl₂ : st.holder l = some s := hl'
        rw [hl₁, Option.some.injEq] at hl₂
        exact ht hl₂
      · obtain ⟨v', hv'⟩ := hown id v hv
        cases hs : (st.sessions s).tx.own.get id with
        | none => rfl
        | some u => exact absurd (h.apart t s id v' u hv' hs) ht
  fresh id hid := by
    obtain ⟨hrows, hsessions⟩ := h.fresh id hid
    refine ⟨?_, fun t v hv => ?_⟩
    · show (st.rows.overlaid (st.sessions s).tx.own).get id = none
      rw [Table.get_overlaid]
      cases hs : (st.sessions s).tx.own.get id with
      | none => rwa [Table.see_of_none hs]
      | some u => exact absurd hs (hsessions s u)
    · by_cases ht : t = s
      · subst ht
        simp only [Function.update_self] at hv
        cases hv
      · simp only [Function.update_of_ne ht] at hv
        exact hsessions t v hv
  apart t t' id v v' hv hv' := by
    by_cases ht : t = s
    · subst ht
      simp only [Function.update_self] at hv
      cases hv
    · by_cases ht' : t' = s
      · subst ht'
        simp only [Function.update_self] at hv'
        cases hv'
      · simp only [Function.update_of_ne ht, Function.update_of_ne ht'] at hv hv'
        exact h.apart t t' id v v' hv hv'

/-- **Every statement.** -/
theorem step {st st' : State} {a : Act} (h : Inv st) (hstep : Notifications.step st a = some st') :
    Inv st' := by
  cases a with
  | upsert s n now =>
      simp only [Notifications.step] at hstep
      split at hstep
      · rename_i hcall
        split at hstep
        · rename_i htake
          rw [← Option.some.inj hstep]
          exact h.upsert hcall htake
        · cases hstep
      · cases hstep
  | select s =>
      simp only [Notifications.step] at hstep
      split at hstep
      · rename_i n newId before hcall
        split at hstep
        · rename_i id r hseek
          have hnext := h.select hcall hseek
          split at hstep
          · rename_i he
            rw [if_pos he] at hnext
            rw [← Option.some.inj hstep]
            exact h.onward hnext fun _ v hv => ⟨v, hv⟩
          · rename_i he
            rw [if_neg he] at hnext
            rw [← Option.some.inj hstep]
            exact h.onward hnext fun _ v hv => ⟨v, hv⟩
        · cases hstep
      · cases hstep
  | flush s now =>
      simp only [Notifications.step] at hstep
      split at hstep
      · rename_i id payload before hcall
        split at hstep
        · rename_i r hr
          rw [← Option.some.inj hstep]
          exact h.flush hcall hr now
        · cases hstep
      · cases hstep
  | undo s =>
      simp only [Notifications.step] at hstep
      have hs := h.session s
      split at hstep
      · rename_i n newId before hcall
        rw [SessionOk, hcall] at hs
        rw [← Option.some.inj hstep]
        exact h.undo hs.1
      · rename_i id payload before hcall
        rw [SessionOk, hcall] at hs
        rw [← Option.some.inj hstep]
        exact h.undo hs.1
      · cases hstep
  | add s type severity payload now =>
      simp only [Notifications.step] at hstep
      split at hstep
      · rename_i hcall
        rw [← Option.some.inj hstep]
        exact h.add hcall rfl
      · cases hstep
  | mark s id now =>
      simp only [Notifications.step] at hstep
      split at hstep
      · rename_i hcall
        split at hstep
        · rename_i r hr
          split at hstep
          · rw [← Option.some.inj hstep]
            exact h
          · split at hstep
            · rename_i htake
              rw [← Option.some.inj hstep]
              refine h.write hcall hr htake fun k r' hr' => ?_
              rw [← Option.some.inj hr']
              by_contra hu
              rw [Bool.not_eq_false, Row.unread_iff] at hu
              cases hu.2.2
            · cases hstep
        · rw [← Option.some.inj hstep]
          exact h
      · cases hstep
  | delete s id =>
      simp only [Notifications.step] at hstep
      split at hstep
      · rename_i hcall
        split at hstep
        · rename_i r hr
          split at hstep
          · rename_i htake
            rw [← Option.some.inj hstep]
            exact h.write hcall hr htake fun k r' hr' => (by cases hr')
          · cases hstep
        · rw [← Option.some.inj hstep]
          exact h
      · cases hstep
  | commit s =>
      simp only [Notifications.step] at hstep
      split at hstep
      · rename_i hcall
        rw [← Option.some.inj hstep]
        exact h.commit hcall
      · cases hstep
  | rollback s =>
      rw [← Option.some.inj hstep]
      exact h.rollback s

end Inv

/-! ### Folding -/

/-- **Notifications fold**: whatever the order of the sessions, there is at most one
unread row for a type and a key, and if there is one, its count is the number of
the committed notifications since the last read or pruning, its severity is the
greatest of theirs, and a sticky flag that one of them set is set.  If there is
none, no notification was committed since. -/
theorem folded (st : State) (h : Run step init st) (k : Key) :
    (∀ id id' r r', st.rows.get id = some r → r.unread k = true → st.rows.get id' = some r' →
      r'.unread k = true → id = id') ∧
    (∀ id r, st.rows.get id = some r → r.unread k = true →
      r.count = (since k st.history).length ∧
      (∀ n ∈ since k st.history, n.severity.rank ≤ r.severity.rank) ∧
      (∃ n ∈ since k st.history, n.severity = r.severity) ∧
      ∀ flag ∈ stickyFlags, (∃ n ∈ since k st.history, sets n.payload flag = true) →
        sets r.payload flag = true) ∧
    ((∀ id r, st.rows.get id = some r → r.unread k = false) → since k st.history = []) := by
  have hinv : Inv st := h.invariant (fun _ _ _ hs _ hstep => hs.step hstep) inv_init
  have hk := hinv.rows k
  refine ⟨fun id id' r r' hr hu hr' hu' => ?_, fun id r hr hu => ?_, hk.of_none⟩
  · exact ((hk.of_unread hr hu).2 id' r' hr' hu').symm
  · have hfolded := (hk.of_unread hr hu).1
    exact ⟨hfolded.count, hfolded.severity, hfolded.raised, hfolded.sticky⟩

/-- The stream was cleared. -/
def cleared : Notify where
  type := "redis_stream_over_budget"
  severity := .error
  payload := Table.empty.insert "cleared" (.bool true)
  dedupeKey := "logs"

/-- It was trimmed. -/
def trimmed : Notify := { cleared with severity := .warning, payload := .empty }

/-- Two sessions raise the same alert, one of them twice; the second waits. -/
def twoSessions : List Act :=
  [.upsert 1 cleared 1, .select 1, .upsert 1 trimmed 2, .select 1, .flush 1 2, .commit 1,
    .upsert 2 trimmed 3, .select 2, .mark 3 7 3, .flush 2 3, .commit 2]

theorem folded_twoSessions : ∃ st r, runList step init twoSessions = some st ∧
    st.rows.get 0 = some r ∧ r.count = 3 ∧ r.severity = .error ∧ sets r.payload "cleared" = true ∧
    (r.unread cleared.key = true → r.count = (since cleared.key st.history).length) := by
  have hrun : ∃ st r, runList step init twoSessions = some st ∧ st.rows.get 0 = some r ∧
      r.count = 3 ∧ r.severity = .error ∧ sets r.payload "cleared" = true := by
    refine ⟨_, _, rfl, rfl, ?_, ?_, ?_⟩ <;> rfl
  obtain ⟨st, r, hst, hr, hcount, hseverity, hcleared⟩ := hrun
  refine ⟨st, r, hst, hr, hcount, hseverity, hcleared, fun hu => ?_⟩
  exact ((folded st (Run.of_runList hst) cleared.key).2.1 0 r hr hu).1

end Notifications

end Dopilot
