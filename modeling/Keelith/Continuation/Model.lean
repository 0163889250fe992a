import Keelith.Lib.Counter
import Keelith.Lib.Map
import Keelith.Lib.Text
import Keelith.Lib.Time

/-!
# The durable state model of continuable calls

The types of `programmable/continuation` (`model.go`, `decision.go`, `timer.go`, the state types
of `workflow.go`) and their own checks.

- **Identities** (`validIdentity`, `validOperation`): `CallID` and `Operation` wrap a string; the
  empty string is their zero value. A Go string that is not valid UTF-8 fails the first check of
  both functions and has no counterpart here.
- **Enumerations** (`Status`, `FrameKind`, `CommandKind`, the workflow enumerations): string types
  in the source. The constructor `other` is a string outside the declared constants, which the
  `valid` methods reject.
- **Errors** (`Error`): a sentinel (`errors.New`), the typed errors that wrap one, an error with a
  context text (`fmt.Errorf` with `%w`), a cancelation cause, and an error of application code.
  `Error.is` is `errors.Is`.
- **Calls** (`Frame`, `Snapshot`, `Transition`) and **workflow states** (`WorkflowNodeState`,
  `WorkflowSnapshotState`).
-/

namespace Keelith.Continuation

/-! ## Identities -/

def maxIdentityBytes : Nat := 512

def maxPayloadBytes : Nat := 1024 * 1024

abbrev CallID := String

abbrev Operation := String

def validIdentity (value : String) : Bool :=
  value != "" && value.utf8ByteSize ≤ maxIdentityBytes && trimSpace value == value &&
    value.toList.all fun r => !isControl r

/-- `validOperation`: `/service/method`, both parts valid identities. -/
def validOperation (value : String) : Bool :=
  validIdentity value && value.toList.head? == some '/' &&
    (let parts := (value.toList.drop 1).splitOn '/'
     parts.length == 2 && parts.all fun part => validIdentity (String.ofList part))

/-! ## Enumerations -/

/-- `Status`: the lifecycle state of one call. -/
inductive Status where
  | accepted
  | running
  | waiting
  | suspended
  | cancelRequested
  | completed
  | failed
  | canceled
  | expired
  | other (text : String)
  deriving DecidableEq

def Status.terminal : Status → Bool
  | .completed | .failed | .canceled | .expired => true
  | _ => false

def Status.valid : Status → Bool
  | .other _ => false
  | _ => true

/-- The string of a status. -/
def Status.text : Status → String
  | .accepted => "accepted"
  | .running => "running"
  | .waiting => "waiting"
  | .suspended => "suspended"
  | .cancelRequested => "cancel_requested"
  | .completed => "completed"
  | .failed => "failed"
  | .canceled => "canceled"
  | .expired => "expired"
  | .other text => text

/-- `FrameKind`: one durable protocol observation. -/
inductive FrameKind where
  | accepted
  | event
  | waiting
  | signal
  | suspended
  | cancelRequested
  | completed
  | failed
  | canceled
  | expired
  | workflowChild
  | other (text : String)
  deriving DecidableEq

def FrameKind.valid : FrameKind → Bool
  | .other _ => false
  | _ => true

/-- The string of a frame kind. -/
def FrameKind.text : FrameKind → String
  | .accepted => "accepted"
  | .event => "event"
  | .waiting => "waiting"
  | .signal => "signal"
  | .suspended => "suspended"
  | .cancelRequested => "cancel_requested"
  | .completed => "completed"
  | .failed => "failed"
  | .canceled => "canceled"
  | .expired => "expired"
  | .workflowChild => "workflow_child"
  | .other text => text

/-- `commandKind`; `none` is the empty string of a transition without a command. -/
inductive CommandKind where
  | none
  | signal
  | cancel
  | other (text : String)
  deriving DecidableEq

/-- `WorkflowNodeKind`. -/
inductive WorkflowNodeKind where
  | machine
  | timer
  | child
  | join
  | other (text : String)
  deriving DecidableEq

def WorkflowNodeKind.valid : WorkflowNodeKind → Bool
  | .other _ => false
  | _ => true

/-- The string of a node kind. -/
def WorkflowNodeKind.text : WorkflowNodeKind → String
  | .machine => "machine"
  | .timer => "timer"
  | .child => "child"
  | .join => "join"
  | .other text => text

/-- `WorkflowNodeStatus`: the lifecycle of one node. -/
inductive WorkflowNodeStatus where
  | pending
  | running
  | waiting
  | succeeded
  | failed
  | skipped
  | other (text : String)
  deriving DecidableEq

def WorkflowNodeStatus.valid : WorkflowNodeStatus → Bool
  | .other _ => false
  | _ => true

def WorkflowNodeStatus.terminal : WorkflowNodeStatus → Bool
  | .succeeded | .failed | .skipped => true
  | _ => false

/-! ## Errors -/

/-- The sentinel errors of the package. -/
inductive Sentinel where
  | errInvalidIdentity
  | errInvalidFrame
  | errTransition
  | errTerminal
  | errRevision
  | errFence
  | errSequence
  | errCommandConflict
  | errInvalidTimer
  | errTimerNotReady
  | errInvalidWorkflow
  | errWorkflowCycle
  | errWorkflowDefinitionMismatch
  | errWorkflowHandlerNotFound
  | errInvalidStore
  | errNotFound
  | errAlreadyExists
  | errConflict
  | errStaleFence
  | errNotReady
  | errLeaseHeld
  | errLeaseLost
  | errInvalidRetention
  | errInvalidAttach
  | errCursorAhead
  | errGap
  | errMachineNotFound
  deriving DecidableEq

/-- The errors of the package (module doc). -/
inductive Error where
  /-- A sentinel. -/
  | sentinel (kind : Sentinel)
  /-- `StateError`. -/
  | state (kind : Sentinel) (source target : Status)
  /-- `TimerNotReadyError`. -/
  | timerNotReady (readyAt : Time)
  /-- `CursorError`. -/
  | cursor (after current : UInt64)
  /-- `GapError`. -/
  | gap (after floor : UInt64)
  /-- `fmt.Errorf` with `%w` of `err`. -/
  | wrapped (context : String) (err : Error)
  /-- `errors.Join`. -/
  | joined (first second : Error)
  /-- A cancelation cause, or an error of application code. -/
  | external (text : String)
  deriving DecidableEq

/-- `errors.Is`. -/
def Error.is (target : Sentinel) : Error → Bool
  | .sentinel kind => kind == target
  | .state kind _ _ => kind == target
  | .timerNotReady _ => target == .errTimerNotReady
  | .cursor _ _ => target == .errCursorAhead
  | .gap _ _ => target == .errGap
  | .wrapped _ err => err.is target
  | .joined first second => first.is target || second.is target
  | .external _ => false

def stateError (kind : Sentinel) (source target : Status) : Error := .state kind source target

/-- A `context.Context`: the cause of its cancelation, if it is canceled. -/
structure Context where
  cause : Option Error
  deriving DecidableEq

/-- `context.Background()`. -/
def Context.background : Context := ⟨none⟩

/-! ## Calls -/

/-- `Frame`: one durable observation; the sequence is zero until `apply` accepts it. -/
structure Frame where
  sequence : UInt64
  kind : FrameKind
  payload : List UInt8
  deriving DecidableEq

def newFrame (kind : FrameKind) (payload : List UInt8) : Except Error Frame :=
  if !kind.valid || payload.length > maxPayloadBytes then .error (.sentinel .errInvalidFrame)
  else .ok { sequence := 0, kind, payload }

/-- `commandRecord`: the kind and the digest of an accepted command. -/
structure CommandRecord where
  kind : CommandKind
  digest : List UInt8
  deriving DecidableEq

/-- `workflowNodeState`. -/
structure WorkflowNodeState where
  id : String
  kind : WorkflowNodeKind
  status : WorkflowNodeStatus
  attempt : UInt32 := 0
  childCallID : CallID := ""
  readyAt : Time := Time.zero
  failureClass : String := ""
  deriving DecidableEq

/-- `workflowSnapshotState`. -/
structure WorkflowSnapshotState where
  version : String
  fingerprint : String
  startedAt : Time
  nodes : Map String WorkflowNodeState
  deriving DecidableEq

/-- `Snapshot`: the complete state of one call. -/
@[ext] structure Snapshot where
  callID : CallID
  operation : Operation
  status : Status
  readyAt : Time
  revision : UInt64
  fence : UInt64
  sequence : UInt64
  frameFloor : UInt64
  frames : List Frame
  commands : Map String CommandRecord
  workflow : Option WorkflowSnapshotState
  deriving DecidableEq

/-- `Transition`: one requested state change. -/
structure Transition where
  status : Status
  fence : UInt64 := 0
  frames : List Frame := []
  readyAt : Time := Time.zero
  timer : Bool := false
  workflow : Option WorkflowSnapshotState := none
  commandID : String := ""
  command : CommandKind := .none
  deriving DecidableEq

/-- `NewSnapshot`: an accepted call at revision one. -/
def newSnapshot (callID : CallID) (operation : Operation) : Except Error Snapshot :=
  if !validIdentity callID || !validOperation operation then
    .error (.wrapped "call ID or operation" (.sentinel .errInvalidIdentity))
  else
    .ok { callID, operation, status := .accepted, readyAt := Time.zero, revision := 1, fence := 0,
          sequence := 0, frameFloor := 1, frames := [], commands := ∅, workflow := none }

/-- `NewSnapshotWithInput`: the input is the frame of sequence one. -/
def newSnapshotWithInput (callID : CallID) (operation : Operation) (input : List UInt8) :
    Except Error Snapshot :=
  match newSnapshot callID operation with
  | .error err => .error err
  | .ok snapshot =>
    match newFrame .accepted input with
    | .error err => .error err
    | .ok frame => .ok { snapshot with sequence := 1, frames := [{ frame with sequence := 1 }] }

/-! ## Timers -/

/-- `normalizeReadyAt`: rounded up to a microsecond. -/
def normalizeReadyAt (value : Time) : Time :=
  if value.isZero then Time.zero
  else
    let truncated := value.truncate microsecond
    if truncated = value then value else truncated + microsecond

def Snapshot.timerDue (snapshot : Snapshot) (now : Time) : Bool :=
  snapshot.readyAt.isZero || !(now < snapshot.readyAt)

def timerNotReady (snapshot : Snapshot) (now : Time) : Except Error Unit :=
  if snapshot.timerDue now then .ok () else .error (.timerNotReady snapshot.readyAt)

theorem normalizeReadyAt_idem (value : Time) :
    normalizeReadyAt (normalizeReadyAt value) = normalizeReadyAt value := by
  have h0 : ∀ t : Time, t % 1000 = 0 → normalizeReadyAt t = t := by
    intro t ht
    unfold normalizeReadyAt Time.isZero Time.truncate microsecond Time.zero
    split
    · rename_i hz; exact (by simpa using hz : t = 0).symm
    · simp [ht]
  apply h0
  unfold normalizeReadyAt Time.isZero Time.truncate microsecond Time.zero
  simp only [Time] at *
  split
  · rfl
  · split <;> omega

/-! ## Decisions -/

/-- `Move`: an executor's transition. -/
def move (status : Status) (fence : UInt64) (frames : List Frame) : Transition :=
  { status, fence, frames }

/-- `Continue`: the call stays running. -/
def continue_ (frames : List Frame) : Transition := move .running 0 frames

/-- `Signal`: an idempotent waiting-to-accepted transition. -/
def signal (commandID : String) (frames : List Frame) : Transition :=
  { status := .accepted, frames, commandID, command := .signal }

/-- `Cancel`: an idempotent cancelation request. -/
def cancel (commandID : String) (frames : List Frame) : Transition :=
  { status := .cancelRequested, frames, commandID, command := .cancel }

end Keelith.Continuation
