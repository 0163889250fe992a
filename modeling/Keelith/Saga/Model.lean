import Keelith.Lib.Text
import Keelith.Lib.Time

/-!
# Sagas

`saga/saga.go`: definitions, durable records and the identity of a call of a handler.

- **Handlers** are code of the user: a `Step` tells whether they are set.
- **Texts** are valid UTF-8 in Lean, so `utf8.ValidString` is no check.
- **Positions**: `NextStep` and `Attempt` are counted up from 0, natural numbers here;
  `CompensationIndex` goes down to -1.
-/

namespace Keelith.Saga

def maxIdentityBytes : Nat := 256

def maxSteps : Nat := 128

/-- The errors of the package, and others by their text. -/
inductive Error where
  | errInvalidOption (text : String)
  | errNotFound
  | errAlreadyExists
  | errConflict
  | errStaleFence
  | errDefinitionMismatch
  | other (text : String)
  deriving DecidableEq

def validIdentity (value : String) (maximum : Nat) : Bool :=
  value != "" && value.utf8ByteSize ≤ maximum && trimSpace value == value &&
    value.toList.all fun r => !isControl r

/-- `Status`; `other` is a value outside the declared constants. -/
inductive Status where
  | running
  | compensating
  | completed
  | compensated
  | failed
  | other (text : String)
  deriving DecidableEq

/-- `Phase`. -/
inductive Phase where
  | action
  | compensation
  deriving DecidableEq

/-- The string of a phase. -/
def Phase.text : Phase → String
  | .action => "action"
  | .compensation => "compensation"

/-! ## Definitions -/

/-- `Step`: its name, and which of its handlers are set. -/
structure Step where
  name : String
  action : Bool
  compensate : Bool
  deriving DecidableEq

/-- `Definition`. -/
structure Definition where
  name : String
  version : String
  steps : List Step

namespace Definition

/-- The loop of `Definition.Validate`, at an index with the names seen so far. -/
def validateSteps (index : Nat) (seen : List String) : List Step → Except Error Unit
  | [] => .ok ()
  | step :: rest =>
    if !validIdentity step.name maxIdentityBytes || !step.action then
      .error (.errInvalidOption s!"step {index}")
    else if step.name ∈ seen then .error (.errInvalidOption ("duplicate step " ++ step.name.quote))
    else validateSteps (index + 1) (step.name :: seen) rest

def validate (definition : Definition) : Except Error Unit :=
  if !validIdentity definition.name maxIdentityBytes ||
    !validIdentity definition.version maxIdentityBytes ||
      definition.steps.length = 0 || maxSteps < definition.steps.length then
    .error (.errInvalidOption "definition identity or step count")
  else validateSteps 0 [] definition.steps

/-- The step at an index has a compensation. -/
def compensates (definition : Definition) (index : Nat) : Bool :=
  definition.steps[index]?.any Step.compensate

end Definition

/-! ## Records -/

/-- `Record`; the defaults are those of the zero value. -/
structure Record where
  id : String := ""
  definition : String := ""
  version : String := ""
  status : Status := .other ""
  nextStep : Nat := 0
  compensationIndex : Int := 0
  attempt : Nat := 0
  causeReason : String := ""
  failureReason : String := ""
  revision : UInt64 := 0
  updatedAt : Time := Time.zero
  deriving DecidableEq

namespace Record

def validate (record : Record) : Except Error Unit :=
  if !validIdentity record.id maxIdentityBytes ||
    !validIdentity record.definition maxIdentityBytes ||
      !validIdentity record.version maxIdentityBytes || record.revision = 0 ||
      record.compensationIndex < -1 ||
      (record.causeReason != "" && !validIdentity record.causeReason maxIdentityBytes) ||
      (record.failureReason != "" && !validIdentity record.failureReason maxIdentityBytes) ||
      record.updatedAt.isZero then .error (.errInvalidOption "invalid durable record")
  else
    match record.status with
    | .running | .compensating | .completed | .compensated | .failed => .ok ()
    | .other _ => .error (.errInvalidOption "invalid status")

theorem validate_revision {record : Record} (h : record.validate = .ok ()) :
    record.revision ≠ 0 := by
  intro hzero
  simp [validate, hzero] at h

end Record

/-! ## Calls of handlers -/

def idempotencyKey (id definition version step : String) (phase : Phase) : String :=
  "saga:v1:" ++ hexEncode (sha256 (bytesOf
    (String.intercalate "\x00" [id, definition, version, step, phase.text])))

/-- `Invocation`. -/
structure Invocation where
  sagaID : String
  definition : String
  version : String
  step : String
  stepIndex : Nat
  phase : Phase
  attempt : Nat
  fence : UInt64
  idempotencyKey : String

end Keelith.Saga
