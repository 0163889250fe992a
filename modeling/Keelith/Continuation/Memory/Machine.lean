import Keelith.Continuation.Memory.StoreLemmas
import Keelith.Lib.Run

/-!
# The in-memory Store under concurrent callers

The store's methods as one machine (`machine`): an input is a call with the store clock's reading.
A store starts empty or from restored snapshots, and its clock does not go back. Each method locks
the store, so every interleaving of every caller is a `machine.Run`.

* Events: `ClaimGrants`, `AcquireGrants`, `CommandAccepted`, `Expires`, `Commits`, `Removes` and
  `Creates` say what happened to a call's record.
* `effect`: **all that one event can do to the record and the lease of a call**. Invariants of runs
  are proved by cases on it.
-/

namespace Keelith.Continuation.Memory

/-- A call of a method of the store. -/
inductive Op
  | create (ctx : Context) (snapshot : Snapshot)
  | load (ctx : Context) (callID : CallID)
  | acquire (ctx : Context) (callID : CallID) (expectedRevision : UInt64)
  | transition (ctx : Context) (request : CommitRequest)
  | listReady (ctx : Context) (limit : Int)
  | submitSignal (ctx : Context) (request : CommandRequest)
  | requestCancel (ctx : Context) (request : CommandRequest)
  | claim (ctx : Context) (request : ClaimRequest)
  | renew (ctx : Context) (request : LeaseRequest)
  | release (ctx : Context) (request : LeaseRequest)
  | pruneFrames (ctx : Context) (callID : CallID) (floor : UInt64)
  | expire (ctx : Context) (request : ExpireRequest)
  | deleteExpired (ctx : Context) (before : Time) (limit : Int)

/-- The command that the call submits. -/
def Op.command : Op → Option CommandRequest
  | .submitSignal _ request | .requestCancel _ request => some request
  | _ => none

/-- A call and the reading of the store's clock during it. -/
structure Input where
  now : Time
  op : Op

/-- What a call returns. -/
inductive Output
  | snapshot (result : Except Error Snapshot)
  | snapshots (result : Except Error (List Snapshot))
  | lease (result : Except Error Lease)
  | released (result : Except Error Unit)
  | deleted (result : Except Error Nat)

/-- One call. -/
@[simp] def Store.exec (s : Store) (i : Input) : Output × Store :=
  match i.op with
  | .create ctx snapshot => (.snapshot (s.create ctx snapshot).1, (s.create ctx snapshot).2)
  | .load ctx callID => (.snapshot (s.load ctx callID), s)
  | .acquire ctx callID revision =>
    (.snapshot (s.acquire i.now ctx callID revision).1, (s.acquire i.now ctx callID revision).2)
  | .transition ctx request =>
    (.snapshot (s.transition i.now ctx request).1, (s.transition i.now ctx request).2)
  | .listReady ctx limit => (.snapshots (s.listReady i.now ctx limit), s)
  | .submitSignal ctx request =>
    (.snapshot (s.submitSignal ctx request).1, (s.submitSignal ctx request).2)
  | .requestCancel ctx request =>
    (.snapshot (s.requestCancel ctx request).1, (s.requestCancel ctx request).2)
  | .claim ctx request => (.lease (s.claim i.now ctx request).1, (s.claim i.now ctx request).2)
  | .renew ctx request => (.lease (s.renew i.now ctx request).1, (s.renew i.now ctx request).2)
  | .release ctx request => (.released (s.release ctx request).1, (s.release ctx request).2)
  | .pruneFrames ctx callID floor =>
    (.snapshot (s.pruneFrames ctx callID floor).1, (s.pruneFrames ctx callID floor).2)
  | .expire ctx request => (.snapshot (s.expire ctx request).1, (s.expire ctx request).2)
  | .deleteExpired ctx before limit =>
    (.deleted (s.deleteExpired ctx before limit).1, (s.deleteExpired ctx before limit).2)

/-- The store as a machine: `New` (no snapshots) or `NewFromSnapshots`, with a clock that does not
go back. -/
def machine : Machine Store Input Output where
  init s := ∃ snapshots, newFromSnapshots snapshots = .ok s
  exec := Store.exec
  may history _ i := ∀ e ∈ history, e.input.now ≤ i.now

@[simp] theorem machine_exec (s : Store) (i : Input) : machine.exec s i = s.exec i := rfl

/-- An event of the store. -/
abbrev StoreEvent := Event Store Input Output

/-! ## Events -/

/-- A `Claim` by `owner` that is not a replay: it returns a snapshot that was not the record. -/
def ClaimGrants (key owner : String) (fence : UInt64) (e : StoreEvent) : Prop :=
  ∃ ctx request lease, e.input.op = .claim ctx request ∧ request.callID = key ∧
    request.ownerID = owner ∧ e.output = .lease (.ok lease) ∧
    e.pre.records.lookup key ≠ some lease.snapshot ∧ lease.snapshot.fence = fence

/-- A successful `Acquire`. -/
def AcquireGrants (key : String) (fence : UInt64) (e : StoreEvent) : Prop :=
  ∃ ctx revision snapshot, e.input.op = .acquire ctx key revision ∧
    e.output = .snapshot (.ok snapshot) ∧ snapshot.fence = fence

/-- A successful `Claim` or `Acquire` that allocates the fence. -/
def Grants (key : String) (fence : UInt64) (e : StoreEvent) : Prop :=
  (∃ owner, ClaimGrants key owner fence e) ∨ AcquireGrants key fence e

/-- A command that is accepted and is not a replay. -/
def CommandAccepted (key : String) (e : StoreEvent) : Prop :=
  ∃ ctx request snapshot, (e.input.op = .submitSignal ctx request ∨
      e.input.op = .requestCancel ctx request) ∧ request.callID = key ∧
    e.output = .snapshot (.ok snapshot) ∧ e.pre.records.lookup key ≠ some snapshot

/-- An `Expire` that ends the call. -/
def Expires (key : String) (e : StoreEvent) : Prop :=
  ∃ ctx request snapshot, e.input.op = .expire ctx request ∧ request.callID = key ∧
    e.output = .snapshot (.ok snapshot) ∧ e.pre.records.lookup key ≠ some snapshot

/-- A `Transition` for `owner` (empty: without a lease) that commits under the fence. -/
def Commits (key owner : String) (fence : UInt64) (e : StoreEvent) : Prop :=
  ∃ ctx request snapshot, e.input.op = .transition ctx request ∧ request.leaseOwner = owner ∧
    request.snapshot.callID = key ∧ request.fence = fence ∧ e.output = .snapshot (.ok snapshot)

/-- A `Renew` that returns a lease until the deadline. -/
def Renews (key : String) (deadline : Time) (e : StoreEvent) : Prop :=
  ∃ ctx request lease, e.input.op = .renew ctx request ∧ request.callID = key ∧
    e.output = .lease (.ok lease) ∧ lease.deadline = deadline

/-- A successful `Release`. -/
def Releases (key : String) (e : StoreEvent) : Prop :=
  ∃ ctx request, e.input.op = .release ctx request ∧ request.callID = key ∧
    e.output = .released (.ok ())

/-- No lease of the call is live. -/
def Over (key : String) (e : StoreEvent) : Prop :=
  ∀ lease, e.pre.leases.lookup key = some lease → lease.deadline ≤ e.input.now

/-- The call's record is deleted. -/
def Removes (key : String) (e : StoreEvent) : Prop :=
  e.pre.records.lookup key ≠ none ∧ e.post.records.lookup key = none

/-- The call's record is created. -/
def Creates (key : String) (e : StoreEvent) : Prop :=
  e.pre.records.lookup key = none ∧ e.post.records.lookup key ≠ none

/-- An event that ends the right of an earlier claim to commit. -/
def Interferes (key : String) (e : StoreEvent) : Prop :=
  (∃ fence, Grants key fence e) ∨ CommandAccepted key e ∨ Expires key e ∨
    (∃ fence, Commits key "" fence e) ∨ Removes key e ∨ Creates key e

/-- The call submits a command of the request, as this transition. -/
def Submits (op : Op) (ctx : Context) (request : CommandRequest) (transition : Transition) : Prop :=
  (op = .submitSignal ctx request ∧
    transition = signal request.commandID [⟨0, .signal, request.payload⟩]) ∨
  (op = .requestCancel ctx request ∧
    transition = cancel request.commandID [⟨0, .cancelRequested, request.payload⟩])

/-! ## The effect of an event on one call -/

/-- What an event does to the record and the lease of the call `key`. -/
inductive Effect (key : String) (e : StoreEvent) : Prop
  /-- The record stays; the lease stays, is dropped, or is renewed while it is live. -/
  | still (record : e.post.records.lookup key = e.pre.records.lookup key)
      (lease : e.post.leases.lookup key = e.pre.leases.lookup key ∨
        (e.post.leases.lookup key = none ∧ (Releases key e ∨ Over key e)) ∨
        ∃ l deadline, e.pre.leases.lookup key = some l ∧ e.input.now < l.deadline ∧
          e.post.leases.lookup key = some { l with deadline } ∧ Renews key deadline e)
  | create (ctx : Context) (snapshot : Snapshot) (op : e.input.op = .create ctx snapshot)
      (callID : snapshot.callID = key) (initial : initialSnapshot snapshot = true)
      (before : e.pre.records.lookup key = none)
      (after : e.post.records.lookup key = some snapshot)
      (lease : e.post.leases.lookup key = e.pre.leases.lookup key)
  | remove (before : e.pre.records.lookup key ≠ none) (after : e.post.records.lookup key = none)
      (lease : e.post.leases.lookup key = none)
      (op : ∃ ctx time limit, e.input.op = .deleteExpired ctx time limit)
  | claim (owner : String) (current next : Snapshot) (deadline : Time)
      (event : ClaimGrants key owner next.fence e)
      (granted : Store.Granted e.input.now current next) (free : Over key e)
      (before : e.pre.records.lookup key = some current)
      (after : e.post.records.lookup key = some next)
      (lease : e.post.leases.lookup key = some
        { owner, deadline, revision := next.revision, fence := next.fence,
          previousRevision := current.revision })
  /-- `Acquire`, an accepted command or `Expire`: the record advances, the lease is dropped. -/
  | advance (transition : Transition) (current next : Snapshot)
      (command : (transition.command = .none ∧ e.input.op.command = none) ∨
        ∃ ctx request, Submits e.input.op ctx request transition)
      (apply : Continuation.apply current transition = .ok next)
      (revision : next.revision ≠ current.revision)
      (event : (∃ fence, AcquireGrants key fence e) ∨ CommandAccepted key e ∨
        next.status = .expired)
      (before : e.pre.records.lookup key = some current)
      (after : e.post.records.lookup key = some next)
      (lease : e.post.leases.lookup key = none)
  | commit (ctx : Context) (request : CommitRequest) (current : Snapshot)
      (op : e.input.op = .transition ctx request) (callID : request.snapshot.callID = key)
      (output : e.output = .snapshot (.ok request.snapshot))
      (commits : Store.Commits e.pre e.input.now ctx request current)
      (post : e.post = e.pre.committed request)
  | prune (ctx : Context) (callID : CallID) (floor : UInt64) (current pruned : Snapshot)
      (op : e.input.op = .pruneFrames ctx callID floor)
      (pruneSnapshot : Continuation.pruneSnapshot current floor = .ok pruned)
      (before : e.pre.records.lookup key = some current)
      (after : e.post.records.lookup key = some pruned)
      (lease : e.post.leases.lookup key = e.pre.leases.lookup key)

namespace Effect

variable {key : String} {e : StoreEvent}

theorem of_post_eq (h : e.post = e.pre) : Effect key e :=
  .still (by rw [h]) (.inl (by rw [h]))

end Effect

/-- The call is one that the operation may change. -/
def Op.On (key : String) : Op → Prop
  | .load .. | .listReady .. => False
  | .create _ snapshot => snapshot.callID = key
  | .acquire _ callID _ | .pruneFrames _ callID _ => callID = key
  | .transition _ request => request.snapshot.callID = key
  | .submitSignal _ request | .requestCancel _ request => request.callID = key
  | .claim _ request => request.callID = key
  | .renew _ request | .release _ request => request.callID = key
  | .expire _ request => request.callID = key
  | .deleteExpired .. => True

theorem newFrame_ok {kind : FrameKind} {payload : List UInt8} {frame : Frame}
    (h : newFrame kind payload = .ok frame) : frame = ⟨0, kind, payload⟩ :=
  (Except.ok.inj (guard_eq_ok.mp h).2).symm

/-- A snapshot at another revision is not the record. -/
theorem lookup_ne (s : Store) {key : String} {current next : Snapshot}
    (hc : s.records.lookup key = some current)
    (hr : next.revision ≠ current.revision) : s.records.lookup key ≠ some next := by
  rintro hn
  exact hr (congrArg Snapshot.revision (Option.mem_unique hn hc))

section

variable (s : Store) (now : Time) (ctx : Context)

theorem command_frame {key : String} {request : CommandRequest} (hk : key ≠ request.callID)
    (transition : Transition) :
    (s.command ctx request transition).2.records.lookup key = s.records.lookup key ∧
      (s.command ctx request transition).2.leases.lookup key = s.leases.lookup key := by
  rcases Store.command_cases s ctx request transition with
    ⟨err, h⟩ | ⟨_, -, ⟨-, h⟩ | ⟨next, -, -, -, h⟩⟩ <;> simp [h, hk]

/-- An operation on another call leaves the record and the lease. -/
theorem exec_frame {key : String} {op : Op} (hop : ¬ op.On key) :
    (s.exec ⟨now, op⟩).2.records.lookup key = s.records.lookup key ∧
      (s.exec ⟨now, op⟩).2.leases.lookup key = s.leases.lookup key := by
  have hne : ∀ callID, ¬ callID = key → key ≠ callID := fun _ => Ne.symm
  cases op with
  | load | listReady => exact ⟨rfl, rfl⟩
  | deleteExpired => exact absurd trivial hop
  | create ctx snapshot =>
    have hk := hne _ hop
    rcases Store.create_cases s ctx snapshot with ⟨err, h⟩ | ⟨-, -, h⟩ <;> simp [h, hk]
  | acquire ctx callID revision =>
    have hk := hne _ hop
    rcases Store.acquire_cases s now ctx callID revision with
      ⟨err, h⟩ | ⟨_, -, -, -, ⟨err, h⟩ | ⟨next, -, h⟩⟩ <;> simp [h, hk]
  | transition ctx request =>
    have hk := hne _ hop
    rcases Store.transition_cases s now ctx request with ⟨err, h⟩ | ⟨_, -, h⟩
    · simp [h]
    · by_cases hs : request.snapshot.status = .running <;>
        simp [h, Store.committed, hk, hs]
  | submitSignal ctx request | requestCancel ctx request =>
    simp only [Store.exec, Store.submitSignal, Store.requestCancel]
    split
    · exact ⟨rfl, rfl⟩
    · exact command_frame s ctx (hne _ hop) _
  | claim ctx request =>
    have hk := hne _ hop
    rcases Store.claim_cases s now ctx request with
      ⟨err, h⟩ | ⟨-, _, -, ⟨_, -, -, -, -, h⟩ | ⟨-, -, next, -, h⟩⟩ <;> simp [h, hk]
  | renew ctx request =>
    have hk := hne _ hop
    rcases Store.renew_cases s now ctx request with ⟨err, h⟩ | ⟨_, _, -, -, -, h⟩ <;>
      simp [h, hk]
  | release ctx request =>
    have hk := hne _ hop
    rcases Store.release_cases s ctx request with ⟨err, h⟩ | h <;> simp [h, hk]
  | pruneFrames ctx callID floor =>
    have hk := hne _ hop
    rcases Store.pruneFrames_cases s ctx callID floor with ⟨err, h⟩ | ⟨_, _, -, -, -, h⟩ <;>
      simp [h, hk]
  | expire ctx request =>
    have hk := hne _ hop
    rcases Store.expire_cases s ctx request with ⟨err, h⟩ | ⟨_, -, ⟨-, h⟩ | ⟨_, _, -, -, h⟩⟩ <;>
      simp [h, hk]

theorem create_effect (snapshot : Snapshot) :
    Effect snapshot.callID (machine.event s ⟨now, .create ctx snapshot⟩) := by
  rcases Store.create_cases s ctx snapshot with ⟨err, h⟩ | ⟨hi, hn, h⟩
  · exact .of_post_eq (by simp [h])
  · exact .create ctx snapshot rfl rfl hi hn (by simp [h])
      (by simp [h])

theorem acquire_effect (callID : CallID) (revision : UInt64) :
    Effect callID (machine.event s ⟨now, .acquire ctx callID revision⟩) := by
  rcases Store.acquire_cases s now ctx callID revision with
    ⟨err, h⟩ | ⟨current, hc, -, hover, ⟨err, h⟩ | ⟨next, hg, h⟩⟩
  · exact .of_post_eq (by simp [h])
  · exact .still (by simp [h]) (.inr (.inl ⟨by simp [h], .inr hover⟩))
  · refine .advance _ current next (.inl ⟨rfl, rfl⟩) hg.apply ?_
      (.inl ⟨next.fence, ctx, revision, next, rfl, by simp [h], rfl⟩) hc
      (by simp [h]) (by simp [h])
    rw [hg.revision]
    exact succ_ne_self _

theorem transition_effect (request : CommitRequest) :
    Effect request.snapshot.callID (machine.event s ⟨now, .transition ctx request⟩) := by
  rcases Store.transition_cases s now ctx request with ⟨err, h⟩ | ⟨current, hc, h⟩
  · exact .of_post_eq (by simp [h])
  · exact .commit ctx request current rfl rfl (by simp [h]) hc
      (by simp [h])

/-- `SubmitSignal` and `RequestCancel` refuse the payload or try the command. -/
theorem exec_command {op : Op} {request : CommandRequest}
    (hop : op = .submitSignal ctx request ∨ op = .requestCancel ctx request) :
    (∃ err, s.exec ⟨now, op⟩ = (.snapshot (.error err), s)) ∨
    ∃ transition, Submits op ctx request transition ∧ s.exec ⟨now, op⟩ =
      (.snapshot (s.command ctx request transition).1, (s.command ctx request transition).2) := by
  rcases hop with rfl | rfl
  · cases hf : newFrame .signal request.payload with
    | error err => exact .inl ⟨err, by simp [Store.submitSignal, hf]⟩
    | ok frame =>
      obtain rfl := newFrame_ok hf
      exact .inr ⟨_, .inl ⟨rfl, rfl⟩, by simp only [Store.exec, Store.submitSignal, hf]⟩
  · cases hf : newFrame .cancelRequested request.payload with
    | error err => exact .inl ⟨err, by simp [Store.requestCancel, hf]⟩
    | ok frame =>
      obtain rfl := newFrame_ok hf
      exact .inr ⟨_, .inr ⟨rfl, rfl⟩, by simp only [Store.exec, Store.requestCancel, hf]⟩

theorem command_effect {op : Op} {request : CommandRequest}
    (hop : op = .submitSignal ctx request ∨ op = .requestCancel ctx request) :
    Effect request.callID (machine.event s ⟨now, op⟩) := by
  rcases exec_command s now ctx hop with ⟨err, h⟩ | ⟨transition, hsubmits, hexec⟩
  · exact .of_post_eq (by simp [h, -Store.exec])
  rcases Store.command_cases s ctx request transition with
    ⟨err, h⟩ | ⟨current, hc, ⟨-, h⟩ | ⟨next, ha, hr, -, h⟩⟩
  · exact .of_post_eq (by simp [hexec, h, -Store.exec])
  · exact .of_post_eq (by simp [hexec, h, -Store.exec])
  · exact .advance transition current next (.inr ⟨ctx, request, hsubmits⟩) ha hr
      (.inr (.inl ⟨ctx, request, next, hop, rfl, by simp [hexec, h, -Store.exec],
        lookup_ne s hc hr⟩)) hc (by simp [hexec, h, -Store.exec]) (by simp [hexec, h, -Store.exec])

theorem claim_effect (request : ClaimRequest) :
    Effect request.callID (machine.event s ⟨now, .claim ctx request⟩) := by
  rcases Store.claim_cases s now ctx request with
    ⟨err, h⟩ | ⟨-, current, hc, ⟨lease, -, -, -, -, h⟩ | ⟨hover, -, next, hg, h⟩⟩
  · exact .of_post_eq (by simp [h])
  · exact .of_post_eq (by simp [h])
  · have hne := lookup_ne s hc (by rw [hg.revision]; exact succ_ne_self _)
    exact .claim request.ownerID current next (now + request.leaseDuration)
      ⟨ctx, request, ⟨next, request.ownerID, now + request.leaseDuration⟩, rfl, rfl, rfl,
        by simp [h], hne, rfl⟩ hg hover hc
      (by simp [h]) (by simp [h])

theorem renew_effect (request : LeaseRequest) :
    Effect request.callID (machine.event s ⟨now, .renew ctx request⟩) := by
  rcases Store.renew_cases s now ctx request with ⟨err, h⟩ | ⟨current, lease, -, hl, hn, h⟩
  · exact .of_post_eq (by simp [h])
  · exact .still (by simp [h]) (.inr (.inr ⟨lease, now + request.leaseDuration, hl, hn, by simp [h],
      ctx, request, ⟨current, lease.owner, now + request.leaseDuration⟩, rfl,
        rfl, by simp [h], rfl⟩))

theorem release_effect (request : LeaseRequest) :
    Effect request.callID (machine.event s ⟨now, .release ctx request⟩) := by
  rcases Store.release_cases s ctx request with ⟨err, h⟩ | h
  · exact .of_post_eq (by simp [h])
  · exact .still (by simp [h])
      (.inr (.inl ⟨by simp [h], .inl ⟨ctx, request, rfl, rfl, by simp [h]⟩⟩))

theorem pruneFrames_effect (callID : CallID) (floor : UInt64) :
    Effect callID (machine.event s ⟨now, .pruneFrames ctx callID floor⟩) := by
  rcases Store.pruneFrames_cases s ctx callID floor with
    ⟨err, h⟩ | ⟨current, pruned, hc, -, hp, h⟩
  · exact .of_post_eq (by simp [h])
  · exact .prune ctx callID floor current pruned rfl hp hc
      (by simp [h]) (by simp [h])

theorem expire_effect (request : ExpireRequest) :
    Effect request.callID (machine.event s ⟨now, .expire ctx request⟩) := by
  rcases Store.expire_cases s ctx request with
    ⟨err, h⟩ | ⟨current, hc, ⟨-, h⟩ | ⟨frame, expired, -, ha, h⟩⟩
  · exact .of_post_eq (by simp [h])
  · exact .of_post_eq (by simp [h])
  · obtain ⟨-, -, ⟨hr, -⟩ | ⟨-, -, rfl⟩⟩ := apply_ok_iff.mp ha
    · exact absurd rfl hr.command
    · exact .advance _ current _ (.inl ⟨rfl, rfl⟩) ha (succ_ne_self _) (.inr (.inr rfl)) hc
        (by simp [h]) (by simp [h])

theorem deleteExpired_effect (key : String) (before : Time) (limit : Int) :
    Effect key (machine.event s ⟨now, .deleteExpired ctx before limit⟩) := by
  rcases Store.deleteExpired_cases s ctx before limit with ⟨err, h⟩ | ⟨keys, hcol, h⟩
  · exact .of_post_eq (by simp [h])
  · by_cases hk : key ∈ keys
    · refine .remove ?_ (by simp [h, hk])
        (by simp [h, hk]) ⟨ctx, before, limit, rfl⟩
      -- a collected key has a record: `collectable` reads its status
      intro hnone
      have hc := hcol key hk
      rw [Machine.event_pre] at hnone
      simp [Store.collectable, hnone] at hc
    · exact .still (by simp [h, hk])
        (.inl (by simp [h, hk]))

end

/-- **All that one event can do to a call.** -/
theorem effect (s : Store) (i : Input) (key : String) : Effect key (machine.event s i) := by
  obtain ⟨now, op⟩ := i
  by_cases hop : op.On key
  · cases op with
    | load | listReady => exact .of_post_eq rfl
    | create ctx snapshot => exact hop ▸ create_effect s now ctx snapshot
    | acquire ctx callID revision => exact hop ▸ acquire_effect s now ctx callID revision
    | transition ctx request => exact hop ▸ transition_effect s now ctx request
    | submitSignal ctx request => exact hop ▸ command_effect s now ctx (.inl rfl)
    | requestCancel ctx request => exact hop ▸ command_effect s now ctx (.inr rfl)
    | claim ctx request => exact hop ▸ claim_effect s now ctx request
    | renew ctx request => exact hop ▸ renew_effect s now ctx request
    | release ctx request => exact hop ▸ release_effect s now ctx request
    | pruneFrames ctx callID floor => exact hop ▸ pruneFrames_effect s now ctx callID floor
    | expire ctx request => exact hop ▸ expire_effect s now ctx request
    | deleteExpired ctx before limit => exact deleteExpired_effect s now ctx key before limit
  · have hframe := exec_frame s now hop
    exact .still hframe.1 (.inl hframe.2)

end Keelith.Continuation.Memory
