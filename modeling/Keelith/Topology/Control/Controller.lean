import Keelith.Lib.Run
import Keelith.Topology.Control.Source

/-!
# The topology controller

`programmable/topology/control/controller.go`: candidates are applied one after another to a target,
and the last good one is kept.

- **Sections**: `Apply` holds the lock `apply` for the whole call and calls the target in between. A
  call that waits for the target is `Applying`: its candidate, its copy of the status, and the call
  of the target that it waits for (`Phase`). A step goes on to the next call of the target. Inside a
  step only `sourceFailure` of another goroutine could write the status, in fields that `Apply` does
  not read.
- **The target** may return anything. Whether it is a `DrainPlanner` is part of the configuration.
- **The calls** that a step makes of the target and of the observer are in its reply (`Call`), with
  what `Apply` returns if it ends.

Errors of the target and causes of contexts are their texts. The timeouts and the loops of `Run` and
`Sync`, which call `Apply` and `sourceFailure`, are not in the model.
-/

namespace Keelith.Topology.Control

/-- `EventKind`. -/
inductive EventKind where
  | observed
  | applied
  | rejected
  | reconnect
  deriving DecidableEq

/-- `FailureClass`. -/
inductive FailureClass where
  | none
  | source
  | signature
  | revision
  | epoch
  | stage
  | ready
  | drain
  deriving DecidableEq

/-- `Event` of the package. -/
structure ControlEvent where
  kind : EventKind
  revision : UInt64 := 0
  epoch : UInt64 := 0
  failureClass : FailureClass := .none

/-- `Status`. -/
structure Status where
  observedRevision : UInt64 := 0
  appliedRevision : UInt64 := 0
  epoch : UInt64 := 0
  hash : String := ""
  reconnects : UInt64 := 0
  degraded : Bool := false
  failureClass : FailureClass := .none

/-- `ControllerConfig` that `NewController` accepts: there is a verifier, or candidates may be
unsigned. -/
structure ControllerConfig where
  verifier : Option Verifier
  allowUnsigned : Bool
  /-- The target is a `DrainPlanner`. -/
  planner : Bool
  exclusive : allowUnsigned = verifier.isNone

/-- The errors of `Apply`. -/
inductive ApplyError where
  | errInvalidController
  | canceled (cause : String)
  | errInvalidSignature (err : VerifyError)
  | errRevisionRollback
  | errRevisionConflict
  | errEpochRollback
  | stage (err : String)
  | ready (err : String)
  | planDrain (err : String)
  | drain (epoch : UInt64) (err : String)

/-- A call of the target or of the observer. -/
inductive Call where
  | stage (snapshot : Snapshot)
  | ready (epoch : UInt64)
  | drainable
  | drain (epoch : UInt64)
  | observe (event : ControlEvent)

/-- The call of the target that `Apply` waits for. -/
inductive Phase where
  | stage
  | ready
  | drainable
  | drain (epoch : UInt64) (rest : List UInt64)

/-- A call of `Apply` that waits. -/
structure Applying where
  candidate : Candidate
  /-- The variable `status`. -/
  status : Status
  phase : Phase

/-- `Controller`, and the call of `Apply` that holds its lock. -/
structure Controller where
  seenHash : String := ""
  status : Status := {}
  applying : Option Applying := none

/-- What a step calls, and what `Apply` returns for its candidate if it ends. -/
structure ControlReply where
  calls : List Call := []
  returned : Option (Candidate × Except ApplyError Unit) := none

/-- The call of the verifier, if there is one. -/
def ControllerConfig.verify (config : ControllerConfig) (verified : Except VerifyError Unit) :
    Except VerifyError Unit :=
  if config.allowUnsigned then .ok () else verified

namespace Controller

variable (config : ControllerConfig) (c : Controller)

/-- `reject` and `fail`, and the return with this error. -/
def reject (candidate : Candidate) (failureClass : FailureClass) (err : ApplyError) :
    ControlReply × Controller :=
  (⟨[.observe ⟨.rejected, candidate.revision, candidate.epoch, failureClass⟩],
    some (candidate, .error err)⟩,
    { c with status := { c.status with degraded := true, failureClass }, applying := none })

def sourceFailure : ControlReply × Controller :=
  (⟨[.observe ⟨.reconnect, 0, 0, .source⟩], none⟩,
    { c with status := { c.status with degraded := true, failureClass := .source,
                                       reconnects := c.status.reconnects + 1 } })

/-- A newer candidate is observed and staged. -/
def observe (candidate : Candidate) : ControlReply × Controller :=
  (⟨[.observe ⟨.observed, candidate.revision, candidate.epoch, .none⟩, .stage candidate.snapshot],
    none⟩,
    { seenHash := candidate.hash
      status := { c.status with observedRevision := candidate.revision }
      applying := some ⟨candidate, c.status, .stage⟩ })

/-- `Apply` up to the call of `Stage`, in a context with this cause; `verified` is what the verifier
returns. -/
def apply (candidate : Candidate) (cause : Option String) (verified : Except VerifyError Unit) :
    ControlReply × Controller :=
  if candidate.revision = 0 ∨ candidate.hash = "" then
    (⟨[], some (candidate, .error .errInvalidController)⟩, c)
  else
    match cause, config.verify verified with
    | some cause, _ => (⟨[], some (candidate, .error (.canceled cause))⟩, c)
    | none, .error err => c.reject candidate .signature (.errInvalidSignature err)
    | none, .ok () =>
      if candidate.revision < c.status.observedRevision then
        c.reject candidate .revision .errRevisionRollback
      else if candidate.revision = c.status.observedRevision then
        if candidate.hash = c.seenHash then (⟨[], some (candidate, .ok ())⟩, c)
        else c.reject candidate .revision .errRevisionConflict
      else if c.status.epoch ≠ 0 ∧ candidate.epoch ≤ c.status.epoch then
        c.reject candidate .epoch .errEpochRollback
      else c.observe candidate

/-- After `Stage`. -/
def staged (call : Applying) : Except String Unit → ControlReply × Controller
  | .error err => c.reject call.candidate .stage (.stage err)
  | .ok () =>
    (⟨[.ready call.candidate.epoch], none⟩,
      { c with applying := some { call with phase := .ready } })

/-- The loop over `drainEpochs`, after these calls. -/
def drainNext (call : Applying) (calls : List Call) : List UInt64 → ControlReply × Controller
  | [] => (⟨calls, some (call.candidate, .ok ())⟩, { c with applying := none })
  | epoch :: rest =>
    (⟨calls ++ [.drain epoch], none⟩,
      { c with applying := some { call with phase := .drain epoch rest } })

/-- The controller with the status of a ready candidate. -/
def publish (candidate : Candidate) : Controller :=
  { c with status := { c.status with
      appliedRevision := candidate.revision, epoch := candidate.epoch, hash := candidate.hash
      degraded := false, failureClass := .none } }

/-- After `Ready`, which returns the previous epoch. -/
def readied (call : Applying) : Except String UInt64 → ControlReply × Controller
  | .error err => c.reject call.candidate .ready (.ready err)
  | .ok previous =>
    let applied := .observe ⟨.applied, call.candidate.revision, call.candidate.epoch, .none⟩
    let drainEpochs := if previous ≠ 0 ∧ previous ≠ call.candidate.epoch then [previous] else []
    if config.planner then
      (⟨[applied, .drainable], none⟩,
        { c.publish call.candidate with applying := some { call with phase := .drainable } })
    else (c.publish call.candidate).drainNext call [applied] drainEpochs

/-- After `Drainable`. -/
def planned (call : Applying) : Except String (List UInt64) → ControlReply × Controller
  | .error err => c.reject call.candidate .drain (.planDrain err)
  | .ok drainEpochs => c.drainNext call [] drainEpochs

/-- After `Drain` of an epoch. -/
def drained (call : Applying) (epoch : UInt64) (rest : List UInt64) :
    Except String Unit → ControlReply × Controller
  | .error err => c.reject call.candidate .drain (.drain epoch err)
  | .ok () => c.drainNext call [] rest

end Controller

/-! ## The machine -/

/-- The steps: a call of `Apply`, a return of the target, a failure of the source. -/
inductive ControllerOp where
  | apply (candidate : Candidate) (cause : Option String) (verified : Except VerifyError Unit)
  | staged (result : Except String Unit)
  | readied (result : Except String UInt64)
  | planned (result : Except String (List UInt64))
  | drained (result : Except String Unit)
  | sourceFailure

namespace Controller

/-- A step. A return of the target that no call waits for does not happen (`May`). -/
def exec (config : ControllerConfig) (c : Controller) : ControllerOp → ControlReply × Controller
  | .apply candidate cause verified => c.apply config candidate cause verified
  | .staged result =>
    match c.applying with
    | some ⟨candidate, status, .stage⟩ => c.staged ⟨candidate, status, .stage⟩ result
    | _ => ({}, c)
  | .readied result =>
    match c.applying with
    | some ⟨candidate, status, .ready⟩ => c.readied config ⟨candidate, status, .ready⟩ result
    | _ => ({}, c)
  | .planned result =>
    match c.applying with
    | some ⟨candidate, status, .drainable⟩ => c.planned ⟨candidate, status, .drainable⟩ result
    | _ => ({}, c)
  | .drained result =>
    match c.applying with
    | some ⟨candidate, status, .drain epoch rest⟩ =>
      c.drained ⟨candidate, status, .drain epoch rest⟩ epoch rest result
    | _ => ({}, c)
  | .sourceFailure => c.sourceFailure

/-- The steps that can happen: the lock `apply` is free for a candidate that gets to it, the
verifier returns what it may return, and the target returns from the call that was made. -/
def May (config : ControllerConfig) (c : Controller) : ControllerOp → Prop
  | .apply candidate _ verified =>
    (candidate.revision ≠ 0 → candidate.hash ≠ "" → c.applying = none) ∧
      ∀ verifier ∈ config.verifier, verifier candidate verified
  | .staged _ => ∃ candidate status, c.applying = some ⟨candidate, status, .stage⟩
  | .readied _ => ∃ candidate status, c.applying = some ⟨candidate, status, .ready⟩
  | .planned _ => ∃ candidate status, c.applying = some ⟨candidate, status, .drainable⟩
  | .drained _ => ∃ candidate status epoch rest,
      c.applying = some ⟨candidate, status, .drain epoch rest⟩
  | .sourceFailure => True

end Controller

/-- A controller, its callers and its target. -/
def controllerMachine (config : ControllerConfig) :
    Machine Controller ControllerOp ControlReply where
  init c := c = {}
  exec c op := c.exec config op
  may _ c op := c.May config op

/-- An event of the controller. -/
abbrev ControllerEvent := Event Controller ControllerOp ControlReply

end Keelith.Topology.Control
