import Keelith.Lib.Run
import Keelith.Topology.Model

/-!
# The epoch manager

`programmable/topology/manager.go` and `manager_control.go`: the epochs of a process, which of them
get new calls, and the leases of the calls.

- **The heap**: the `idle` channel of an epoch and a `*Lease` are numbers, in the order of
  allocation. `idleClosed` tells the closed channels, `leaseAt` the leases with their `sync.Once`.
- **`Stop`** is two sections under the lock, with a wait between them. A call that waits has its
  epoch and the channel (`StopCall`). A closed channel stays closed, so that it wakes up and takes
  the lock is one step (`stopIdle`); `stopCanceled` is the other case of its `select`.
- **Leases** are counted in a `uint64`. Each one is an object in memory, so that the count does not
  wrap is a condition on the callers (`LeasesFit`).
- **Selection** uses the score of a key (`Topology/Traffic.lean`), a parameter.

`rollout` tells the operations of a rollout from those of a shutdown.
-/

namespace Keelith.Topology

/-- `EpochState`. -/
inductive EpochState where
  | staging
  | ready
  | draining
  | stopped
  deriving DecidableEq

/-- `managedEpoch`. -/
structure ManagedEpoch where
  snapshot : Snapshot
  state : EpochState
  leases : UInt64
  idle : Nat

/-- `Lease`. -/
structure Lease where
  epoch : UInt64
  snapshot : Snapshot
  released : Bool := false

/-- The errors of the manager. -/
inductive ManagerError where
  /-- `ErrInvalidEpoch`: the snapshot is not activated. -/
  | notActivated
  /-- `ErrInvalidEpoch`. -/
  | notNewer (epoch maximum : UInt64)
  | errEpochNotFound (epoch : UInt64)
  /-- `ErrInvalidEpochTransition` of `Ready`. -/
  | cannotBecomeReady (epoch : UInt64) (state : EpochState)
  | errInvalidTraffic (err : TrafficError)
  /-- `ErrInvalidEpochTransition` of `Ready`. -/
  | trafficNotReady (epoch : UInt64)
  /-- `ErrInvalidEpochTransition` of `Drain`, `DrainActive` and `DrainForShutdown`. -/
  | cannotDrain (epoch : UInt64) (state : EpochState)
  | errSuccessorNotReady (epoch : UInt64)
  | errEpochHasTraffic (epoch : UInt64) (basisPoints : UInt16)
  /-- `ErrInvalidEpochTransition` of `Discard`. -/
  | cannotDiscard (epoch : UInt64) (state : EpochState)
  /-- `ErrInvalidEpochTransition` of `Stop`. -/
  | cannotStop (epoch : UInt64) (state : EpochState)
  /-- `ErrInvalidEpochTransition` of `Stop`. -/
  | changedWhileStopping (epoch : UInt64)
  | errNoReadyEpoch
  /-- `ErrNoReadyEpoch` and the error of the selection. -/
  | noSelection (err : TrafficError)
  deriving DecidableEq

/-- `Manager` and its heap. -/
structure Manager where
  epochs : Map UInt64 ManagedEpoch
  active : UInt64
  maximum : UInt64
  traffic : Option TrafficSelector
  idleClosed : Nat → Bool
  idleCount : Nat
  leaseAt : Nat → Lease
  leaseCount : Nat

namespace Manager

/-- `NewManager`. -/
def new : Manager where
  epochs := ∅
  active := 0
  maximum := 0
  traffic := none
  idleClosed _ := false
  idleCount := 0
  leaseAt _ := ⟨0, ⟨0, "", ∅, ∅, ∅, none⟩, true⟩
  leaseCount := 0

/-- The manager with an epoch in another state. -/
def setState (m : Manager) (epoch : UInt64) (entry : ManagedEpoch) (state : EpochState) : Manager :=
  { m with epochs := m.epochs.insert epoch { entry with state } }

/-- The epoch exists and is ready. -/
def isReady (m : Manager) (epoch : UInt64) : Bool :=
  match m.epochs.lookup epoch with
  | some entry => entry.state == .ready
  | none => false

/-- The weight of an epoch in the current table. -/
def currentWeight (m : Manager) (epoch : UInt64) : UInt16 :=
  match m.traffic with
  | some ts => ts.basisPoints epoch
  | none => 0

/-! ## Rollout -/

def stage (m : Manager) (snapshot : Snapshot) : Except ManagerError Unit × Manager :=
  let epoch := snapshot.epoch
  if epoch = 0 ∨ snapshot.hash = "" then (.error .notActivated, m)
  else if epoch ≤ m.maximum then (.error (.notNewer epoch m.maximum), m)
  else
    (.ok (), { m with
      epochs := m.epochs.insert epoch
        { snapshot, state := .staging, leases := 0, idle := m.idleCount }
      idleClosed := Function.update m.idleClosed m.idleCount true
      idleCount := m.idleCount + 1
      maximum := epoch })

def ready (m : Manager) (epoch : UInt64) : Except ManagerError Unit × Manager :=
  match m.epochs.lookup epoch with
  | none => (.error (.errEpochNotFound epoch), m)
  | some entry =>
    if entry.state ≠ .staging ∨ epoch ≤ m.active then
      (.error (.cannotBecomeReady epoch entry.state), m)
    else match newTrafficSelector entry.snapshot.effectiveTraffic with
      | .error err => (.error (.errInvalidTraffic err), m)
      | .ok selector =>
        match selector.weights.find? fun weight =>
            weight.basisPoints ≠ 0 ∧ weight.epoch ≠ epoch ∧ m.isReady weight.epoch = false with
        | some weight => (.error (.trafficNotReady weight.epoch), m)
        | none =>
          (.ok (), { m.setState epoch entry .ready with active := epoch, traffic := some selector })

def drain (m : Manager) (epoch : UInt64) : Except ManagerError Unit × Manager :=
  match m.epochs.lookup epoch with
  | none => (.error (.errEpochNotFound epoch), m)
  | some entry =>
    if entry.state ≠ .ready then (.error (.cannotDrain epoch entry.state), m)
    else if m.active ≤ epoch ∨ m.isReady m.active =
      false then (.error (.errSuccessorNotReady epoch), m)
    else if m.currentWeight epoch ≠ 0 then
      (.error (.errEpochHasTraffic epoch (m.currentWeight epoch)), m)
    else (.ok (), m.setState epoch entry .draining)

def drainable (m : Manager) : List UInt64 :=
  (m.epochs.keys.filter fun epoch =>
    epoch ≠ m.active ∧ m.isReady epoch = true ∧ m.currentWeight epoch = 0).sort (· ≤ ·)

def discard (m : Manager) (epoch : UInt64) : Except ManagerError Unit × Manager :=
  match m.epochs.lookup epoch with
  | none => (.error (.errEpochNotFound epoch), m)
  | some entry =>
    if entry.state = .stopped then (.ok (), m)
    else if entry.state ≠ .staging ∨ entry.leases ≠ 0 then
      (.error (.cannotDiscard epoch entry.state), m)
    else (.ok (), m.setState epoch entry .stopped)

/-! ## Leases -/

/-- The leases on an epoch that are not released. -/
def unreleased (m : Manager) (epoch : UInt64) : Finset Nat :=
  (Finset.range m.leaseCount).filter fun n =>
    (m.leaseAt n).released = false ∧ (m.leaseAt n).epoch = epoch

/-- There can be one more lease on any epoch. -/
def LeasesFit (m : Manager) : Prop := ∀ epoch, (m.unreleased epoch).card + 1 < 2 ^ 64

/-- The manager with one more lease on an epoch. -/
def lease (m : Manager) (epoch : UInt64) (entry : ManagedEpoch) : Manager :=
  let m :=
    if entry.leases = 0 then
      { m with
        epochs := m.epochs.insert epoch { entry with leases := 1, idle := m.idleCount }
        idleClosed := Function.update m.idleClosed m.idleCount false
        idleCount := m.idleCount + 1 }
    else { m with epochs := m.epochs.insert epoch { entry with leases := entry.leases + 1 } }
  { m with
    leaseAt := Function.update m.leaseAt m.leaseCount { epoch, snapshot := entry.snapshot }
    leaseCount := m.leaseCount + 1 }

/-- `acquire`: the number of the lease. `Acquire` has the empty key. -/
def acquire (score : ℚ → UInt16 → ℚ) (m : Manager) (key : Bytes) :
    Except ManagerError Nat × Manager :=
  match m.traffic with
  | none => (.error .errNoReadyEpoch, m)
  | some ts =>
    match ts.select score key with
    | (.error err, ts) => (.error (.noSelection err), { m with traffic := some ts })
    | (.ok epoch, ts) =>
      let m := { m with traffic := some ts }
      match m.epochs.lookup epoch with
      | none => (.error .errNoReadyEpoch, m)
      | some entry =>
        if entry.state ≠ .ready then (.error .errNoReadyEpoch, m)
        else (.ok m.leaseCount, m.lease epoch entry)

/-- `release`. -/
def releaseEpoch (m : Manager) (epoch : UInt64) : Manager :=
  match m.epochs.lookup epoch with
  | none => m
  | some entry =>
    if entry.leases = 0 then m
    else
      { m with
        epochs := m.epochs.insert epoch { entry with leases := entry.leases - 1 }
        idleClosed :=
          if entry.leases - 1 = 0 then Function.update m.idleClosed entry.idle true else
            m.idleClosed }

/-- `Lease.Release`. -/
def release (m : Manager) (n : Nat) : Manager :=
  if (m.leaseAt n).released then m
  else
    releaseEpoch
      { m with leaseAt := Function.update m.leaseAt n { m.leaseAt n with released := true } }
      (m.leaseAt n).epoch

/-! ## Stop -/

/-- The first section of `Stop`: the channel for which it waits, or none if the epoch is stopped. -/
def stop (m : Manager) (epoch : UInt64) : Except ManagerError (Option Nat) :=
  match m.epochs.lookup epoch with
  | none => .error (.errEpochNotFound epoch)
  | some entry =>
    match entry.state with
    | .stopped => .ok none
    | .draining => .ok (some entry.idle)
    | state => .error (.cannotStop epoch state)

/-- The second section of `Stop`. -/
def finishStop (m : Manager) (epoch : UInt64) : Except ManagerError Unit × Manager :=
  match m.epochs.lookup epoch with
  -- an epoch is never removed
  | none => (.error (.errEpochNotFound epoch), m)
  | some entry =>
    if entry.state = .stopped then (.ok (), m)
    else if entry.state ≠ .draining ∨ entry.leases ≠ 0 then
      (.error (.changedWhileStopping epoch), m)
    else (.ok (), m.setState epoch entry .stopped)

/-! ## Shutdown -/

/-- The manager with a drained epoch, without traffic if it was the active one. -/
def drainForShutdown (m : Manager) (epoch : UInt64) : Except ManagerError Unit × Manager :=
  match m.epochs.lookup epoch with
  | none => (.error (.errEpochNotFound epoch), m)
  | some entry =>
    if entry.state ≠ .ready then (.error (.cannotDrain epoch entry.state), m)
    else
      let drained := m.setState epoch entry .draining
      (.ok (), if m.active = epoch then { drained with active := 0, traffic := none } else drained)

def drainActive (m : Manager) (epoch : UInt64) : Except ManagerError Unit × Manager :=
  match m.epochs.lookup epoch with
  | none => (.error (.errEpochNotFound epoch), m)
  | some entry =>
    if entry.state ≠ .ready ∨ m.active ≠ epoch then (.error (.cannotDrain epoch entry.state), m)
    else (.ok (), { m.setState epoch entry .draining with active := 0, traffic := none })

end Manager

/-! ## The machine -/

/-- A call of `Stop` that waits. -/
structure StopCall where
  epoch : UInt64
  idle : Nat

/-- A manager and the calls of `Stop` that wait. -/
structure ManagerState where
  manager : Manager
  stops : List StopCall

/-- The steps of the callers. -/
inductive ManagerOp where
  | stage (snapshot : Snapshot)
  | ready (epoch : UInt64)
  | drain (epoch : UInt64)
  | discard (epoch : UInt64)
  | acquire (key : Bytes)
  | release (lease : Nat)
  | stop (epoch : UInt64)
  /-- A call of `Stop` finds its channel closed. -/
  | stopIdle (call : Nat)
  /-- A call of `Stop` finds its context done. -/
  | stopCanceled (call : Nat)
  | drainForShutdown (epoch : UInt64)
  | drainActive (epoch : UInt64)

/-- What a call returns, if it returns. -/
inductive ManagerReply where
  | ok
  | lease (n : Nat)
  | waits
  /-- The cause of the context. -/
  | canceled
  | failed (err : ManagerError)
  deriving DecidableEq

/-- The operations of a rollout. -/
def ManagerOp.rollout : ManagerOp → Bool
  | .drainForShutdown _ | .drainActive _ => false
  | _ => true

/-- The reply of a call without a value. -/
def reply : Except ManagerError Unit → ManagerReply
  | .ok () => .ok
  | .error err => .failed err

namespace ManagerState

/-- A step. -/
def exec (score : ℚ → UInt16 → ℚ) (s : ManagerState) : ManagerOp → ManagerReply × ManagerState
  | .stage snapshot => update (s.manager.stage snapshot)
  | .ready epoch => update (s.manager.ready epoch)
  | .drain epoch => update (s.manager.drain epoch)
  | .discard epoch => update (s.manager.discard epoch)
  | .acquire key =>
    match s.manager.acquire score key with
    | (.ok n, manager) => (.lease n, { s with manager })
    | (.error err, manager) => (.failed err, { s with manager })
  | .release lease => (.ok, { s with manager := s.manager.release lease })
  | .stop epoch =>
    match s.manager.stop epoch with
    | .error err => (.failed err, s)
    | .ok none => (.ok, s)
    | .ok (some idle) => (.waits, { s with stops := s.stops ++ [⟨epoch, idle⟩] })
  | .stopIdle call =>
    match s.stops[call]? with
    | none => (.waits, s)
    | some waiting =>
      let (result, manager) := s.manager.finishStop waiting.epoch
      (reply result, { manager, stops := s.stops.eraseIdx call })
  | .stopCanceled call => (.canceled, { s with stops := s.stops.eraseIdx call })
  | .drainForShutdown epoch => update (s.manager.drainForShutdown epoch)
  | .drainActive epoch => update (s.manager.drainActive epoch)
where
  update (result : Except ManagerError Unit × Manager) : ManagerReply × ManagerState :=
    (reply result.1, { s with manager := result.2 })

/-- The steps that callers can take. -/
def May (s : ManagerState) : ManagerOp → Prop
  | .acquire _ => s.manager.LeasesFit
  | .release lease => lease < s.manager.leaseCount
  | .stopIdle call => ∃ waiting ∈ s.stops[call]?, s.manager.idleClosed waiting.idle = true
  | .stopCanceled call => call < s.stops.length
  | _ => True

end ManagerState

/-- A manager and its callers. -/
def managerMachine (score : ℚ → UInt16 → ℚ) : Machine ManagerState ManagerOp ManagerReply where
  init s := s = ⟨.new, []⟩
  exec s op := s.exec score op
  may _ s op := s.May op

end Keelith.Topology
