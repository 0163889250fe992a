import Keelith.Continuation.Model

/-!
# `Apply` and the snapshot checks

`programmable/continuation/state.go` and `retention.go`, with the workflow checks of `workflow.go`
that they call.

- **Checks**: `validateSnapshot`, `validateWorkflowState`, `validateWorkflowSuccessor`.
- **The state machine**: `allowedTransition`, `apply`. `apply` first dedupes a command
  (`applyCommand`), then advances the call (`advance`), and last numbers and appends the frames
  (`appendFrames`).
- **Retention**: `pruneSnapshot`.

`cloneSnapshot`, `cloneFrame` and `cloneWorkflowState` copy mutable memory; a value of the model is
its own copy.
-/

namespace Keelith.Continuation

/-! ## Workflow states -/

def maxWorkflowNodes : Nat := 10000

def maxWorkflowFailureSize : Nat := 128

/-- The checks of `validateWorkflowState` on the node stored under `id`. -/
def workflowNodeValid (id : String) (node : WorkflowNodeState) : Bool :=
  id == node.id && validIdentity id && node.kind.valid && node.status.valid &&
    node.attempt ≤ 1000000 && node.failureClass.utf8ByteSize ≤ maxWorkflowFailureSize &&
    (node.failureClass == "" || validIdentity node.failureClass) &&
    (node.readyAt.isZero || node.readyAt == normalizeReadyAt node.readyAt) &&
    (node.childCallID == "" || validIdentity node.childCallID) &&
    (node.kind == .timer || node.readyAt.isZero) &&
    (node.kind == .child || node.childCallID == "") &&
    !(node.status == .waiting && node.kind == .timer && node.readyAt.isZero) &&
    !(node.status == .waiting && node.kind == .child && node.childCallID == "") &&
    (node.status == .failed || node.failureClass == "")

def validateWorkflowState : Option WorkflowSnapshotState → Except Error Unit
  | none => .ok ()
  | some state =>
    if !validIdentity state.version || state.fingerprint.utf8ByteSize != 64 ||
        state.startedAt.isZero || state.startedAt != normalizeReadyAt state.startedAt ||
        state.nodes.size == 0 || state.nodes.size > maxWorkflowNodes then
      .error (.sentinel .errInvalidWorkflow)
    else if !hexDecodes state.fingerprint then .error (.sentinel .errInvalidWorkflow)
    else if !state.nodes.all workflowNodeValid then .error (.sentinel .errInvalidWorkflow)
    else .ok ()

def allowedWorkflowNodeTransition (source target : WorkflowNodeStatus) : Bool :=
  if source.terminal then source == target
  else match source with
    | .pending => target == .pending || target == .running || target == .waiting ||
        target == .succeeded || target == .failed || target == .skipped
    | .running => target == .running || target == .waiting || target == .succeeded ||
        target == .failed || target == .skipped
    | .waiting => target == .waiting || target == .succeeded || target == .failed ||
        target == .skipped
    | _ => false

/-- The checks of `validateWorkflowSuccessor` on the node `previous` and its `candidate`. -/
def workflowNodeSuccessor (previous candidate : WorkflowNodeState) : Bool :=
  candidate.id == previous.id && candidate.kind == previous.kind &&
    previous.attempt ≤ candidate.attempt && candidate.attempt ≤ previous.attempt + 1 &&
    (previous.childCallID == "" || candidate.childCallID == previous.childCallID) &&
    (previous.readyAt.isZero || candidate.readyAt == previous.readyAt) &&
    allowedWorkflowNodeTransition previous.status candidate.status

/-- The loop of `validateWorkflowSuccessor` at the node stored under `id`. -/
def workflowNodeFollows (next : WorkflowSnapshotState) (id : String)
    (previous : WorkflowNodeState) : Bool :=
  match next.nodes.lookup id with
  | none => false
  | some candidate => workflowNodeSuccessor previous candidate

def validateWorkflowSuccessor (current : Option WorkflowSnapshotState)
    (next : WorkflowSnapshotState) : Except Error Unit :=
  match current with
  | none => .error (.sentinel .errInvalidWorkflow)
  | some current =>
    if !(validateWorkflowState (some current)).isOk || !(validateWorkflowState (some next)).isOk ||
        current.version != next.version || current.fingerprint != next.fingerprint ||
        current.startedAt != next.startedAt || current.nodes.size != next.nodes.size then
      .error (.sentinel .errInvalidWorkflow)
    else if !current.nodes.all (workflowNodeFollows next) then
      .error (.sentinel .errInvalidWorkflow)
    else .ok ()

/-! ## Snapshots -/

/-- The frame loop of `validateSnapshot`; `expected` is the sequence of the next frame. -/
def validFrames (expected : UInt64) : List Frame → Bool
  | [] => true
  | frame :: frames =>
    frame.sequence == expected && frame.kind.valid &&
      !(frame.kind == .accepted && frame.sequence != 1) &&
      frame.payload.length ≤ maxPayloadBytes && validFrames (expected + 1) frames

/-- The command check of `validateSnapshot`. -/
def validCommand (id : String) (record : CommandRecord) : Bool :=
  validIdentity id && (record.kind == .signal || record.kind == .cancel)

/-- The shape that `validateSnapshot` requires of a snapshot at revision one. -/
def initialShape (snapshot : Snapshot) : Bool :=
  snapshot.status == .accepted && snapshot.fence == 0 && snapshot.frameFloor == 1 &&
    snapshot.commands.size == 0 &&
    ((snapshot.sequence == 0 && snapshot.frames.length == 0) ||
     (snapshot.sequence == 1 && snapshot.frames.length == 1 &&
      snapshot.frames.all fun frame => frame.sequence == 1 && frame.kind == .accepted))

def validateSnapshot (snapshot : Snapshot) : Except Error Unit :=
  let fail (kind : Sentinel) : Except Error Unit :=
    .error (stateError kind snapshot.status snapshot.status)
  if !validIdentity snapshot.callID || !validOperation snapshot.operation ||
      !snapshot.status.valid then
    fail .errInvalidIdentity
  else if !(validateWorkflowState snapshot.workflow).isOk then fail .errInvalidWorkflow
  else if !snapshot.readyAt.isZero && (snapshot.status != .suspended ||
      snapshot.readyAt != normalizeReadyAt snapshot.readyAt) then
    fail .errInvalidTimer
  else if snapshot.revision == 0 || snapshot.frameFloor == 0 ||
      (snapshot.frameFloor > snapshot.sequence && snapshot.frameFloor != snapshot.sequence + 1) ||
      (snapshot.sequence - snapshot.frameFloor + 1).toNat != snapshot.frames.length then
    fail .errRevision
  else if snapshot.revision == 1 && !initialShape snapshot then fail .errRevision
  else if !validFrames snapshot.frameFloor snapshot.frames then fail .errSequence
  else if !snapshot.commands.all validCommand then fail .errInvalidIdentity
  else .ok ()

/-! ## Transitions -/

/-- `writeDigestPart`: a length-prefixed part. -/
def digestPart (value : List UInt8) : List UInt8 := Sha256.bigEndian 8 value.length ++ value

/-- The message that `commandDigest` hashes. -/
def commandMessage (frames : List Frame) : List UInt8 :=
  digestPart (bytesOf "continuation-command-v1") ++
    frames.flatMap fun frame => digestPart (bytesOf frame.kind.text) ++ digestPart frame.payload

def commandDigest (transition : Transition) : List UInt8 :=
  sha256 (commandMessage transition.frames)

/-- The record under which `apply` keeps the command of a transition. -/
def commandRecordOf (transition : Transition) : CommandRecord :=
  { kind := transition.command, digest := commandDigest transition }

def allowedTransition (source target : Status) (command : CommandKind) : Bool :=
  match command with
  | .signal => source == .waiting && target == .accepted
  | .cancel =>
    match source with
    | .accepted | .running | .waiting | .suspended => target == .cancelRequested
    | _ => false
  | .none =>
    match source with
    | .accepted => target == .running || target == .failed || target == .expired
    | .running => target == .running || target == .waiting || target == .suspended ||
        target == .completed || target == .failed || target == .expired
    | .waiting => target == .failed || target == .expired
    | .suspended => target == .accepted || target == .running || target == .failed ||
        target == .expired
    | .cancelRequested => target == .cancelRequested || target == .canceled ||
        target == .failed || target == .expired
    | _ => false
  | .other _ => false

/-- The frame loop of `Apply`: number the frames of a transition and append them. -/
def appendFrames (sequence : UInt64) (frames : List Frame) :
    List Frame → Except Sentinel (UInt64 × List Frame)
  | [] => .ok (sequence, frames)
  | frame :: rest =>
    if frame.sequence != 0 then .error .errSequence
    else if !frame.kind.valid || frame.kind == .accepted ||
        frame.payload.length > maxPayloadBytes then
      .error .errInvalidFrame
    else if sequence == maxUint64 then .error .errSequence
    else appendFrames (sequence + 1) (frames ++ [{ frame with sequence := sequence + 1 }]) rest

/-- The fence of the result: a transition with fence zero keeps the current one. -/
def nextFence (current : Snapshot) (transition : Transition) : UInt64 :=
  if transition.fence == 0 then current.fence else transition.fence

/-- The part of `Apply` after the command lookup. -/
def advance (current : Snapshot) (transition : Transition) : Except Error Snapshot :=
  let fail (kind : Sentinel) : Except Error Snapshot :=
    .error (stateError kind current.status transition.status)
  if current.status.terminal then fail .errTerminal
  else if !allowedTransition current.status transition.status transition.command then
    fail .errTransition
  else if current.revision == maxUint64 then fail .errRevision
  else
    let fence := nextFence current transition
    if fence < current.fence || (transition.status == .running && fence == 0) then fail .errFence
    else
      match appendFrames current.sequence current.frames transition.frames with
      | .error kind => fail kind
      | .ok (sequence, frames) => .ok
          { current with
            status := transition.status
            readyAt := if transition.status = .suspended then normalizeReadyAt transition.readyAt
              else Time.zero
            workflow := transition.workflow.or current.workflow
            revision := current.revision + 1
            fence, sequence, frames
            commands := if transition.command = .none then current.commands
              else current.commands.insert transition.commandID (commandRecordOf transition) }

/-- The command part of `Apply`: a known command is replayed or conflicts. -/
def applyCommand (current : Snapshot) (transition : Transition) : Except Error Snapshot :=
  let fail (kind : Sentinel) : Except Error Snapshot :=
    .error (stateError kind current.status transition.status)
  if transition.command = .none then advance current transition
  else if !validIdentity transition.commandID then fail .errInvalidIdentity
  else
    match current.commands.lookup transition.commandID with
    | some previous =>
      if previous != commandRecordOf transition then fail .errCommandConflict else .ok current
    | none => advance current transition

/-- A transition's timer fields do not fit. -/
def badTimer (transition : Transition) : Bool :=
  (transition.timer && transition.readyAt.isZero) ||
    (!transition.readyAt.isZero && transition.status != .suspended)

/-- A transition's workflow state is not a successor of the current one. -/
def badWorkflow (current : Snapshot) (transition : Transition) : Bool :=
  match transition.workflow with
  | none => false
  | some next => !(validateWorkflowSuccessor current.workflow next).isOk

def apply (current : Snapshot) (transition : Transition) : Except Error Snapshot :=
  let fail (kind : Sentinel) : Except Error Snapshot :=
    .error (stateError kind current.status transition.status)
  match validateSnapshot current with
  | .error err => .error err
  | .ok () =>
    if !transition.status.valid then fail .errTransition
    else if badTimer transition then fail .errInvalidTimer
    else if badWorkflow current transition then fail .errInvalidWorkflow
    else applyCommand current transition

/-! ## Retention -/

/-- `PruneSnapshot`: the frames below `floor` are removed. -/
def pruneSnapshot (snapshot : Snapshot) (floor : UInt64) : Except Error Snapshot :=
  if !(validateSnapshot snapshot).isOk then .error (.sentinel .errInvalidRetention)
  else if floor == 0 || (snapshot.sequence == maxUint64 && floor > snapshot.sequence) ||
      (snapshot.sequence < maxUint64 && floor > snapshot.sequence + 1) then
    .error (.sentinel .errInvalidRetention)
  else if floor ≤ snapshot.frameFloor then .ok snapshot
  else
    let offset := floor - snapshot.frameFloor
    if offset.toNat > snapshot.frames.length then .error (.sentinel .errInvalidRetention)
    else
      let pruned := { snapshot with
        frameFloor := floor
        frames := snapshot.frames.drop offset.toNat }
      if !(validateSnapshot pruned).isOk then .error (.sentinel .errInvalidRetention)
      else .ok pruned

end Keelith.Continuation
