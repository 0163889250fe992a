import Keelith.Continuation.State

/-!
# The in-memory Store

`programmable/continuation/memory`: `store.go`, `restore.go` and the mutating half of `admin.go`
(`PruneFrames`, `Expire`, `DeleteExpired`), with the request types of `store.go`, `lease.go` and
`admin.go`. `ListCalls` and `GetCall`, which only summarize records, are left out.

A method holds the store's mutex from its first read to its last write, so one call is one step: a
function from the store to its result and the next store. The store's clock is read at most once
in a call; the reading is the argument `now`. A nil receiver and a nil context are excluded by the
types.
-/

namespace Keelith.Continuation

/-! ## Requests -/

/-- `CommitRequest`. -/
structure CommitRequest where
  expectedRevision : UInt64
  fence : UInt64
  leaseOwner : String
  expiresAt : Time
  snapshot : Snapshot

/-- `CommandRequest`. -/
structure CommandRequest where
  callID : CallID
  expectedRevision : UInt64
  commandID : String
  payload : List UInt8

/-- `ClaimRequest`. -/
structure ClaimRequest where
  callID : CallID
  expectedRevision : UInt64
  ownerID : String
  leaseDuration : Duration

/-- `Lease`: one fence-owned execution claim. -/
structure Lease where
  snapshot : Snapshot
  ownerID : String
  deadline : Time

/-- `LeaseRequest`. -/
structure LeaseRequest where
  callID : CallID
  revision : UInt64
  fence : UInt64
  ownerID : String
  leaseDuration : Duration

/-- `ExpireRequest`. -/
structure ExpireRequest where
  callID : CallID
  expectedRevision : UInt64
  expiresAt : Time

def maxLeaseOwnerBytes : Nat := 256

def maxLeaseDuration : Duration := 24 * hour

def validLeaseOwner (owner : String) : Bool :=
  owner != "" && owner.utf8ByteSize ≤ maxLeaseOwnerBytes && trimSpace owner == owner &&
    owner.toList.all fun r => !isControl r

/-- `ClaimRequest.Validate` succeeds. -/
def ClaimRequest.validate (r : ClaimRequest) : Bool :=
  validIdentity r.callID && r.expectedRevision != 0 && validLeaseOwner r.ownerID &&
    0 < r.leaseDuration && r.leaseDuration ≤ maxLeaseDuration

/-- `LeaseRequest.Validate` succeeds. -/
def LeaseRequest.validate (r : LeaseRequest) (renew : Bool) : Bool :=
  validIdentity r.callID && r.revision != 0 && r.fence != 0 && validLeaseOwner r.ownerID &&
    (!renew || (0 < r.leaseDuration && r.leaseDuration ≤ maxLeaseDuration))

/-! ## The store -/

namespace Memory

/-- `leaseRecord`. -/
structure LeaseRecord where
  owner : String := ""
  deadline : Time := Time.zero
  revision : UInt64 := 0
  fence : UInt64 := 0
  previousRevision : UInt64 := 0
  deriving DecidableEq

/-- `Store`, without its mutex and clock (module doc). -/
structure Store where
  records : Map String Snapshot
  leases : Map String LeaseRecord
  expires : Map String Time

/-- `New`. -/
def newStore : Store := ⟨∅, ∅, ∅⟩

/-- `ready`: a status that an executor can claim. -/
def ready : Status → Bool
  | .accepted | .running | .suspended | .cancelRequested => true
  | _ => false

def initialSnapshot (snapshot : Snapshot) : Bool :=
  snapshot.callID != "" && snapshot.operation != "" && snapshot.status == .accepted &&
    snapshot.revision == 1 && snapshot.fence == 0 &&
    ((snapshot.sequence == 0 && snapshot.frames.length == 0) ||
     (snapshot.sequence == 1 && snapshot.frames.length == 1 &&
      snapshot.frames.all fun frame => frame.sequence == 1 && frame.kind == .accepted))

def equalFrame (first second : Frame) : Bool :=
  first.sequence == second.sequence && first.kind == second.kind &&
    first.payload == second.payload

/-- The last loop of `validSuccessor`: the frame at `index` has the sequence `index+1`. -/
def newFramesNumbered (index : Nat) : List Frame → Bool
  | [] => true
  | frame :: frames =>
    frame.sequence == UInt64.ofNat (index + 1) && newFramesNumbered (index + 1) frames

def validSuccessor (current next : Snapshot) (fence : UInt64) : Bool :=
  next.callID == current.callID && next.operation == current.operation &&
    next.revision == current.revision + 1 && next.fence == fence &&
    !(next.sequence < current.sequence) && current.frames.length ≤ next.frames.length &&
    ((current.frames.zip next.frames).all fun pair => equalFrame pair.1 pair.2) &&
    newFramesNumbered current.frames.length (next.frames.drop current.frames.length)

/-- The transition that `Claim` and `Acquire` apply: a new fence. -/
def grantTransition (current : Snapshot) : Transition :=
  move (if current.status = .cancelRequested then .cancelRequested else .running)
    (current.fence + 1) []

namespace Store

variable (s : Store)

def create (ctx : Context) (snapshot : Snapshot) : Except Error Snapshot × Store :=
  if !initialSnapshot snapshot then (.error (.sentinel .errInvalidStore), s)
  else match ctx.cause with
    | some cause => (.error cause, s)
    | none =>
      if (s.records.lookup snapshot.callID).isSome then
        (.error (.sentinel .errAlreadyExists), s)
      else (.ok snapshot, { s with records := s.records.insert snapshot.callID snapshot })

def load (ctx : Context) (callID : CallID) : Except Error Snapshot :=
  if callID == "" then .error (.sentinel .errInvalidStore)
  else match ctx.cause with
    | some cause => .error cause
    | none => match s.records.lookup callID with
      | none => .error (.sentinel .errNotFound)
      | some snapshot => .ok snapshot

/-- The checks and the step that `Claim` and `Acquire` make on a call without a live lease. -/
def grant (now : Time) (current : Snapshot) : Except Error Snapshot :=
  if !ready current.status then .error (.sentinel .errNotReady)
  else match timerNotReady current now with
    | .error err => .error err
    | .ok () =>
      if current.fence == maxUint64 then .error (.sentinel .errStaleFence)
      else apply current (grantTransition current)

/-- `Acquire`. An expired lease is deleted even if a later check fails. -/
def acquire (now : Time) (ctx : Context) (callID : CallID) (expectedRevision : UInt64) :
    Except Error Snapshot × Store :=
  if callID == "" || expectedRevision == 0 then (.error (.sentinel .errInvalidStore), s)
  else match ctx.cause with
    | some cause => (.error cause, s)
    | none => match s.records.lookup callID with
      | none => (.error (.sentinel .errNotFound), s)
      | some current =>
        if current.revision != expectedRevision then (.error (.sentinel .errConflict), s)
        else if (s.leases.lookup callID).any fun lease => now < lease.deadline then
          (.error (.sentinel .errLeaseHeld), s)
        else
          let s := { s with leases := s.leases.erase callID }
          match grant now current with
          | .error err => (.error err, s)
          | .ok next => (.ok next, { s with records := s.records.insert callID next })

/-- The lease test of `Transition`: an owner needs its live lease at the expected revision and
fence; without an owner no live lease may exist. -/
def leaseAdmits (lease : Option LeaseRecord) (now : Time) (request : CommitRequest) : Bool :=
  if request.leaseOwner != "" then
    lease.any fun lease => lease.owner == request.leaseOwner &&
      lease.revision == request.expectedRevision && lease.fence == request.fence &&
      now < lease.deadline
  else !lease.any fun lease => now < lease.deadline

/-- `Transition`. A running result keeps the lease record (the zero record if there is none). -/
def transition (now : Time) (ctx : Context) (request : CommitRequest) :
    Except Error Snapshot × Store :=
  let next := request.snapshot
  if request.expectedRevision == 0 || request.fence == 0 || next.callID == "" ||
      (!request.expiresAt.isZero && !next.status.terminal) then
    (.error (.sentinel .errInvalidStore), s)
  else match ctx.cause with
    | some cause => (.error cause, s)
    | none => match s.records.lookup next.callID with
      | none => (.error (.sentinel .errNotFound), s)
      | some current =>
        let lease := s.leases.lookup next.callID
        if !leaseAdmits lease now request then (.error (.sentinel .errLeaseLost), s)
        else if request.fence != current.fence then (.error (.sentinel .errStaleFence), s)
        else if request.expectedRevision != current.revision then
          (.error (.sentinel .errConflict), s)
        else if !validSuccessor current next request.fence then
          (.error (.sentinel .errInvalidStore), s)
        else (.ok next,
          { records := s.records.insert next.callID next
            expires := if next.status.terminal && !request.expiresAt.isZero then
                s.expires.insert next.callID request.expiresAt
              else s.expires.erase next.callID
            leases := if next.status = .running then
                s.leases.insert next.callID
                  { lease.getD {} with revision := next.revision, fence := next.fence }
              else s.leases.erase next.callID })

def leaseActive (key : String) (now : Time) : Bool :=
  (s.leases.lookup key).any fun lease => now < lease.deadline

/-- A call that `ListReady` lists. -/
def listable (now : Time) (key : String) : Bool :=
  (s.records.lookup key).any fun snapshot =>
    ready snapshot.status && snapshot.timerDue now && !s.leaseActive key now

def listReady (now : Time) (ctx : Context) (limit : Int) : Except Error (List Snapshot) :=
  if limit ≤ 0 || limit > 10000 then .error (.sentinel .errInvalidStore)
  else match ctx.cause with
    | some cause => .error cause
    | none =>
      let keys := (s.records.keys.filter fun key => s.listable now key).sort
      .ok ((keys.take limit.toNat).filterMap fun key => s.records.lookup key)

/-- `command`: dedupe by `apply`, then compare the revision. -/
def command (ctx : Context) (request : CommandRequest) (transition : Transition) :
    Except Error Snapshot × Store :=
  if request.callID == "" || request.expectedRevision == 0 then
    (.error (.sentinel .errInvalidStore), s)
  else match ctx.cause with
    | some cause => (.error cause, s)
    | none => match s.records.lookup request.callID with
      | none => (.error (.sentinel .errNotFound), s)
      | some current => match apply current transition with
        | .error err => (.error err, s)
        | .ok next =>
          if next.revision == current.revision then (.ok current, s)
          else if request.expectedRevision != current.revision then
            (.error (.sentinel .errConflict), s)
          else (.ok next,
            { s with
              records := s.records.insert request.callID next
              leases := s.leases.erase request.callID })

def submitSignal (ctx : Context) (request : CommandRequest) : Except Error Snapshot × Store :=
  match newFrame .signal request.payload with
  | .error err => (.error err, s)
  | .ok frame => s.command ctx request (signal request.commandID [frame])

def requestCancel (ctx : Context) (request : CommandRequest) : Except Error Snapshot × Store :=
  match newFrame .cancelRequested request.payload with
  | .error err => (.error err, s)
  | .ok frame => s.command ctx request (cancel request.commandID [frame])

/-- `Claim`. The owner of a live lease that repeats its claim gets the current record. -/
def claim (now : Time) (ctx : Context) (request : ClaimRequest) : Except Error Lease × Store :=
  if !request.validate then (.error (.sentinel .errInvalidStore), s)
  else match ctx.cause with
    | some cause => (.error cause, s)
    | none => match s.records.lookup request.callID with
      | none => (.error (.sentinel .errNotFound), s)
      | some current =>
        match (s.leases.lookup request.callID).filter fun lease => now < lease.deadline with
        | some lease =>
          if lease.owner == request.ownerID &&
              lease.previousRevision == request.expectedRevision then
            (.ok { snapshot := current, ownerID := lease.owner, deadline := lease.deadline }, s)
          else (.error (.sentinel .errLeaseHeld), s)
        | none =>
          if current.revision != request.expectedRevision then
            (.error (.sentinel .errConflict), s)
          else match grant now current with
            | .error err => (.error err, s)
            | .ok next =>
              let deadline := now + request.leaseDuration
              (.ok { snapshot := next, ownerID := request.ownerID, deadline },
                { s with
                  records := s.records.insert request.callID next
                  leases := s.leases.insert request.callID
                    { owner := request.ownerID, deadline, revision := next.revision,
                      fence := next.fence, previousRevision := current.revision } })

def renew (now : Time) (ctx : Context) (request : LeaseRequest) : Except Error Lease × Store :=
  if !request.validate true then (.error (.sentinel .errInvalidStore), s)
  else match ctx.cause with
    | some cause => (.error cause, s)
    | none => match s.records.lookup request.callID with
      | none => (.error (.sentinel .errNotFound), s)
      | some current => match s.leases.lookup request.callID with
        | none => (.error (.sentinel .errLeaseLost), s)
        | some lease =>
          if lease.owner != request.ownerID || lease.revision != request.revision ||
              lease.fence != request.fence || !(now < lease.deadline) then
            (.error (.sentinel .errLeaseLost), s)
          else
            let deadline := now + request.leaseDuration
            (.ok { snapshot := current, ownerID := lease.owner, deadline },
              { s with leases := s.leases.insert request.callID { lease with deadline } })

def release (ctx : Context) (request : LeaseRequest) : Except Error Unit × Store :=
  if !request.validate false then (.error (.sentinel .errInvalidStore), s)
  else match ctx.cause with
    | some cause => (.error cause, s)
    | none => match s.records.lookup request.callID with
      | none => (.error (.sentinel .errNotFound), s)
      | some _ => match s.leases.lookup request.callID with
        | none => (.error (.sentinel .errLeaseLost), s)
        | some lease =>
          if lease.owner != request.ownerID || lease.revision != request.revision ||
              lease.fence != request.fence then
            (.error (.sentinel .errLeaseLost), s)
          else (.ok (), { s with leases := s.leases.erase request.callID })

/-! ## Administration -/

/-- `PruneFrames`: only a terminal call loses frames. -/
def pruneFrames (ctx : Context) (callID : CallID) (floor : UInt64) :
    Except Error Snapshot × Store :=
  if callID == "" then (.error (.sentinel .errInvalidRetention), s)
  else match ctx.cause with
    | some cause => (.error cause, s)
    | none => match s.records.lookup callID with
      | none => (.error (.sentinel .errNotFound), s)
      | some current =>
        if !current.status.terminal then (.error (.sentinel .errNotReady), s)
        else match pruneSnapshot current floor with
          | .error err => (.error err, s)
          | .ok pruned => (.ok pruned, { s with records := s.records.insert callID pruned })

/-- `Expire`. An expired call is returned as it is. -/
def expire (ctx : Context) (request : ExpireRequest) : Except Error Snapshot × Store :=
  if request.callID == "" || request.expectedRevision == 0 || request.expiresAt.isZero then
    (.error (.sentinel .errInvalidRetention), s)
  else match ctx.cause with
    | some cause => (.error cause, s)
    | none => match s.records.lookup request.callID with
      | none => (.error (.sentinel .errNotFound), s)
      | some current =>
        if current.status = .expired then (.ok current, s)
        else if current.status.terminal then (.error (.sentinel .errTerminal), s)
        else if current.revision != request.expectedRevision then
          (.error (.sentinel .errConflict), s)
        else match newFrame .expired [] with
          | .error err => (.error err, s)
          | .ok frame => match apply current (move .expired current.fence [frame]) with
            | .error err => (.error err, s)
            | .ok expired => (.ok expired,
              { records := s.records.insert request.callID expired
                expires := s.expires.insert request.callID request.expiresAt
                leases := s.leases.erase request.callID })

/-- A terminal call whose expiration is not after `before`. -/
def collectable (before : Time) (key : String) : Bool :=
  (s.expires.lookup key).any fun expiresAt =>
    (s.records.lookup key).any fun snapshot =>
      snapshot.status.terminal && !(before < expiresAt)

/-- The deletion loop of `DeleteExpired`. -/
def deleteAll (keys : List String) : Store :=
  keys.foldl (fun s key =>
    { records := s.records.erase key, leases := s.leases.erase key,
      expires := s.expires.erase key }) s

def deleteExpired (ctx : Context) (before : Time) (limit : Int) : Except Error Nat × Store :=
  if before.isZero || limit < 1 || limit > 1000 then (.error (.sentinel .errInvalidRetention), s)
  else match ctx.cause with
    | some cause => (.error cause, s)
    | none =>
      let keys :=
        ((s.expires.keys.filter fun key => s.collectable before key).sort).take limit.toNat
      (.ok keys.length, s.deleteAll keys)

end Store

/-- The loop body of `NewFromSnapshots`. -/
def restore (s : Store) (snapshot : Snapshot) : Except Error Store :=
  match validateSnapshot snapshot with
  | .error _ => .error (.wrapped "restored snapshot" (.sentinel .errInvalidStore))
  | .ok () =>
    if (s.records.lookup snapshot.callID).isSome then .error (.sentinel .errAlreadyExists)
    else .ok { s with records := s.records.insert snapshot.callID snapshot }

def newFromSnapshots (snapshots : List Snapshot) : Except Error Store :=
  snapshots.foldlM restore newStore

end Memory

end Keelith.Continuation
