import Keelith.Lib.Run
import Keelith.Saga.Memory

/-!
# The saga engine

`saga/engine.go`: `Run` takes an instance on from its durable record, under a lease.

- **An owner** (`Owner`) is a call of `Run` that has got its lease. It is named by the fence of the
  lease, which the coordinator promises to increase from one lease to the next. It goes on in steps:
  a call of the repository, the start and the return of a handler, the head of the loop (`Control`).
- **Interleaving**: the owners of one instance share the repository. A lease may end at any time,
  and its owner goes on until it finds its context done. An owner that crashes takes no more steps,
  and neither does one whose `Save` was stored while its answer was lost.
- **Contexts, clocks and handlers** may answer anything: their answers are in the steps.

The counters of `Description` and the budgets of time are not in the model.
-/

namespace Keelith.Saga

/-- `Engine`, as `New` accepts it. -/
structure Engine where
  definition : Definition
  maxCompensationAttempts : Nat
  valid : definition.validate = .ok ()
  attempts : 1 ≤ maxCompensationAttempts ∧ maxCompensationAttempts ≤ 1000

/-- `Result`. -/
structure Result where
  record : Record := {}
  actions : Nat := 0
  compensated : Nat := 0

/-- The errors of `Run` after it has its lease. -/
inductive RunError where
  | loadOrCreate (err : Error)
  | save (err : Error)
  | canceled (cause : String)
  | invalid (err : Error)
  | errDefinitionMismatch
  | errCompensated
  /-- `ErrFailed`, with the error of the compensation if it failed in this call. -/
  | errFailed (err : Option String)
  | compensate (step err : String)
  /-- The panic of an index that is out of range. -/
  | indexOutOfRange

/-- What `Run` does after a `Save`. -/
inductive AfterSave where
  /-- The next turn of the loop, by `continue`. -/
  | again
  /-- The next turn of the loop, with the record in the result. -/
  | next
  | invoke (phase : Phase)
  /-- The compensation of a step has failed. -/
  | compensationFailed (step err : String)

/-- Where a call of `Run` is. -/
inductive Control where
  | loading
  | creating
  /-- At the head of the loop. -/
  | loop (record : Record)
  | saving (record : Record) (after : AfterSave)
  /-- Before a handler is called. -/
  | invoking (record : Record) (phase : Phase)
  /-- While a handler runs. -/
  | handling (record : Record) (phase : Phase)
  | returned (err : Option RunError)

/-- A call of `Run` with a lease. -/
structure Owner where
  control : Control := .loading
  result : Result := {}

/-- What a handler does. -/
inductive HandlerResult where
  | returned (err : Option String)
  | panicked
  deriving DecidableEq

/-- The steps of an owner. -/
inductive OwnerOp where
  | load (failure : Option String)
  | create (now : Time) (failure : Option String)
  /-- The head of the loop, in a context with this cause. -/
  | turn (cause : Option String)
  | save (now : Time) (failure : Option String)
  | invoke
  /-- The handler ends; `expired` is the cause of the context of the step, `cause` that of the run,
  and `reason` is what `ClassifyFailure` makes of an error. -/
  | handled (result : HandlerResult) (expired cause : Option String) (reason : String)

/-- What a step shows. -/
inductive SagaReply where
  | silent
  | contended
  | invoked (invocation : Invocation)
  /-- A handler has ended, with the error that `invoke` returns. -/
  | handled (phase : Phase) (index : Nat) (result : HandlerResult) (err : Option String)

/-- `failureReason`, of what the classifier returns. -/
def failureReason (reason : String) : String :=
  if !validIdentity reason maxIdentityBytes then "internal" else reason

/-- The error of `invoke`: a handler that returns nil too late has failed. -/
def invokeError (result : HandlerResult) (expired : Option String) : Option String :=
  match result with
  | .returned none => expired
  | .returned (some err) => some err
  | .panicked => some "saga: handler panicked"

/-- The index of the step that a record is at. -/
def Record.stepIndex (record : Record) : Phase → Nat
  | .action => record.nextStep
  | .compensation => record.compensationIndex.toNat

namespace Engine

variable (engine : Engine)

/-- The name of the step at an index. -/
def stepName (index : Nat) : String := (engine.definition.steps[index]?.map Step.name).getD ""

def invocation (record : Record) (phase : Phase) (fence : UInt64) : Invocation where
  sagaID := record.id
  definition := record.definition
  version := record.version
  step := engine.stepName (record.stepIndex phase)
  stepIndex := record.stepIndex phase
  phase := phase
  attempt := record.attempt
  fence := fence
  idempotencyKey := idempotencyKey record.id record.definition record.version
    (engine.stepName (record.stepIndex phase)) phase

/-- The record that `loadOrCreate` creates. -/
def newRecord (id : String) (now : Time) : Record where
  id := id
  definition := engine.definition.name
  version := engine.definition.version
  status := .running
  compensationIndex := -1
  updatedAt := now

/-- The checks of `loadOrCreate`. -/
def accept (record : Record) : Except RunError Record :=
  if record.definition ≠ engine.definition.name ∨ record.version ≠ engine.definition.version then
    .error .errDefinitionMismatch
  else
    match record.validate with
    | .error err => .error (.invalid err)
    | .ok () =>
      if engine.definition.steps.length < record.nextStep ∨
          (engine.definition.steps.length : Int) ≤ record.compensationIndex then
        .error (.invalid (.errInvalidOption "step position"))
      else .ok record

end Engine

namespace Owner

variable (engine : Engine) (owner : Owner)

/-- `Run` returns its result so far. -/
def stop (err : RunError) : Owner := { owner with control := .returned (some err) }

/-- `Run` returns with a record. -/
def finish (record : Record) (err : Option RunError) : Owner :=
  { control := .returned err, result := { owner.result with record } }

/-- `Run` saves a record next. -/
def saves (record : Record) (after : AfterSave) : Owner :=
  { owner with control := .saving record after }

/-- `loadOrCreate` has this result. -/
def loaded : Except Error Record → Owner
  | .error err => owner.stop (.loadOrCreate err)
  | .ok record =>
    match engine.accept record with
    | .error err => owner.stop err
    | .ok record => { control := .loop record, result := { owner.result with record } }

/-- A turn of the loop up to its first `save`. -/
def turn (record : Record) (cause : Option String) : Owner :=
  match cause with
  | some cause => owner.stop (.canceled cause)
  | none =>
    match record.status with
    | .completed => owner.finish record none
    | .compensated => owner.finish record (some .errCompensated)
    | .failed => owner.finish record (some (.errFailed none))
    | .running =>
      if engine.definition.steps.length ≤ record.nextStep then
        owner.saves { record with status := .completed, attempt := 0 } .again
      else owner.saves { record with attempt := record.attempt + 1 } (.invoke .action)
    | .compensating =>
      if record.compensationIndex < 0 then
        owner.saves { record with status := .compensated, attempt := 0 } .again
      else
        match engine.definition.steps[record.compensationIndex.toNat]? with
        | none => owner.stop .indexOutOfRange
        | some step =>
          if !step.compensate then
            owner.saves
              { record with compensationIndex := record.compensationIndex - 1, attempt := 0 } .again
          else owner.saves { record with attempt := record.attempt + 1 } (.invoke .compensation)
    | .other _ => owner.stop (.invalid (.errInvalidOption "record status"))

/-- `save` has this result. -/
def saved (result : Except Error Record) (after : AfterSave) : Owner :=
  match result, after with
  | .error err, .compensationFailed _ _ => owner.finish {} (some (.save err))
  | .error err, _ => owner.stop (.save err)
  | .ok record, .again => { owner with control := .loop record }
  | .ok record, .next => { control := .loop record, result := { owner.result with record } }
  | .ok record, .invoke phase => { owner with control := .invoking record phase }
  | .ok record, .compensationFailed step err =>
    owner.finish record (some (if record.status = .failed then .errFailed (some err)
      else .compensate step err))

/-- A handler has ended: the record that is saved next. -/
def handled (record : Record) (phase : Phase) (err cause : Option String) (reason : String) :
    Owner :=
  match phase, err, cause with
  | _, some _, some cause => owner.stop (.canceled cause)
  | .action, some _, none =>
    owner.saves { record with
      status := .compensating
      compensationIndex := record.nextStep - 1
      attempt := 0
      failureReason := failureReason reason
      causeReason := failureReason reason } .again
  | .action, none, _ =>
    { owner with result := { owner.result with actions := owner.result.actions + 1 } }.saves
      { record with nextStep := record.nextStep + 1, attempt := 0, failureReason := "" } .next
  | .compensation, some err, none =>
    owner.saves { record with
      failureReason := failureReason reason
      status := if engine.maxCompensationAttempts ≤ record.attempt then .failed else record.status }
      (.compensationFailed (engine.stepName (record.stepIndex .compensation)) err)
  | .compensation, none, _ =>
    { owner with result := { owner.result with compensated := owner.result.compensated + 1 } }.saves
      { record with
        compensationIndex := record.compensationIndex - 1
        attempt := 0
        failureReason := record.causeReason } .next

/-- A step of the owner with this fence. A step that is not the next one of the owner does
nothing. -/
def exec (id : String) (fence : UInt64) (r : Repository) (op : OwnerOp) :
    SagaReply × Repository × Owner :=
  match owner.control, op with
  | .loading, .load failure =>
    match r.load id failure with
    | .error .errNotFound => (.silent, r, { owner with control := .creating })
    | result => (.silent, r, owner.loaded engine result)
  | .creating, .create now failure =>
    let (result, r) := r.create (engine.newRecord id now) fence failure
    (.silent, r, owner.loaded engine result)
  | .loop record, .turn cause => (.silent, r, owner.turn engine record cause)
  | .saving record after, .save now failure =>
    let (result, r) := r.save { record with updatedAt := now } record.revision fence failure
    (.silent, r, owner.saved result after)
  | .invoking record phase, .invoke =>
    (.invoked (engine.invocation record phase fence), r,
      { owner with control := .handling record phase })
  | .handling record phase, .handled result expired cause reason =>
    let err := invokeError result expired
    (.handled phase (record.stepIndex phase) result err, r,
      owner.handled engine record phase err cause reason)
  | _, _ => (.silent, r, owner)

end Owner

/-! ## The machine -/

/-- The owners of an instance, their leases and their repository. -/
structure SagaState where
  repository : Repository
  /-- The owner whose lease has not ended. -/
  holder : Option UInt64
  /-- The last fence of the coordinator. -/
  lastFence : UInt64
  owners : UInt64 → Option Owner

/-- The steps. -/
inductive SagaOp where
  /-- A call of `Run` asks for a lease; this is the fence if it gets one. -/
  | acquire (fence : UInt64)
  /-- The lease is released or lost. -/
  | leaseEnds
  | step (fence : UInt64) (op : OwnerOp)

namespace SagaState

/-- A step. -/
def exec (engine : Engine) (id : String) (s : SagaState) : SagaOp → SagaReply × SagaState
  | .acquire fence =>
    if !validIdentity id maxIdentityBytes then (.silent, s)
    else if s.holder.isSome then (.contended, s)
    else (.silent, { s with holder := some fence, lastFence := fence
                            owners := Function.update s.owners fence (some {}) })
  | .leaseEnds => (.silent, { s with holder := none })
  | .step fence op =>
    match s.owners fence with
    | none => (.silent, s)
    | some owner =>
      let (reply, repository, owner) := owner.exec engine id fence s.repository op
      (reply, { s with repository, owners := Function.update s.owners fence (some owner) })

/-- The coordinator increases its fences. -/
def May (s : SagaState) : SagaOp → Prop
  | .acquire fence => s.lastFence < fence
  | _ => True

end SagaState

/-- The runs of one instance. -/
def sagaMachine (engine : Engine) (id : String) : Machine SagaState SagaOp SagaReply where
  init s := s = ⟨.new, none, 0, fun _ => none⟩
  exec s op := s.exec engine id op
  may _ s op := s.May op

/-- An event of the machine. -/
abbrev SagaEvent := Event SagaState SagaOp SagaReply

end Keelith.Saga
