import Keelith.Continuation.Workflow.Definition

/-!
# Planning a workflow

The state half of `workflow.go`: the state of a new parent, the commands that its node states allow,
and the outcome of its sinks.

- **Parents** (`newWorkflowSnapshot`): every node pending.
- **Plans** (`planWorkflowForParent`): one command for each pending node whose dependencies decide
  it: complete it (a decided join, a failed dependency) or start it.
- **Outcome** (`workflowDefinitionOutcome`): a workflow ends when every sink has ended.

A Go map read of a missing key gives the zero value (`WorkflowSnapshotState.node`).
-/

namespace Keelith.Continuation

/-! ## Parents -/

def newWorkflowSnapshotState (definition : WorkflowDefinition) (startedAt : Time) :
    WorkflowSnapshotState where
  version := definition.version
  fingerprint := definition.fingerprint
  startedAt := normalizeReadyAt startedAt
  nodes := definition.nodes.foldl (fun nodes node =>
    nodes.insert node.id { id := node.id, kind := node.kind, status := .pending }) ∅

def newWorkflowSnapshot (callID : CallID) (definition : WorkflowDefinition) (input : List UInt8)
    (startedAt : Time) : Except Error Snapshot :=
  if startedAt.isZero then .error (.sentinel .errInvalidWorkflow)
  else match newSnapshotWithInput callID definition.operation input with
    | .error err => .error err
    | .ok snapshot =>
      let snapshot :=
        { snapshot with workflow := some (newWorkflowSnapshotState definition startedAt) }
      match validateSnapshot snapshot with
      | .error err => .error err
      | .ok () => .ok snapshot

/-- `state.Nodes[id]`. -/
def WorkflowSnapshotState.node (state : WorkflowSnapshotState) (id : String) : WorkflowNodeState :=
  (state.nodes.lookup id).getD { id := "", kind := .other "", status := .other "" }

/-- `state.Nodes[node.ID] = node`. -/
def WorkflowSnapshotState.setNode (state : WorkflowSnapshotState) (node : WorkflowNodeState) :
    WorkflowSnapshotState :=
  { state with nodes := state.nodes.insert node.id node }

/-- The loop body of `skipNonTerminalWorkflowNodes`. -/
def skipNode (node : WorkflowNodeState) : WorkflowNodeState :=
  if node.status.terminal then node else { node with status := .skipped }

def skipNonTerminalWorkflowNodes (state : WorkflowSnapshotState) : WorkflowSnapshotState :=
  { state with nodes := state.nodes.mapValues fun _ => skipNode }

def moveWorkflow (status : Status) (fence : UInt64) (state : WorkflowSnapshotState) (readyAt : Time)
    (frames : List Frame) : Transition :=
  let transition := { move status fence frames with workflow := some state }
  if status = .suspended ∧ readyAt.isZero = false then
    { transition with readyAt := normalizeReadyAt readyAt, timer := true }
  else transition

/-! ## Joins -/

/-- `EvaluateWorkflowJoin`: the status of the join, and if it is decided. -/
def evaluateWorkflowJoin (policy : WorkflowJoinPolicy) (states : List WorkflowNodeStatus) :
    WorkflowNodeStatus × Bool :=
  if !policy.valid || states.length == 0 then (.failed, true)
  else
    let succeeded := states.countP (· == .succeeded)
    let failed := states.countP fun status => status == .failed || status == .skipped
    let terminal := states.countP WorkflowNodeStatus.terminal
    match policy with
    | .all =>
      if failed > 0 then (.failed, true)
      else if succeeded == states.length then (.succeeded, true)
      else (.pending, false)
    | .any =>
      if succeeded > 0 then (.succeeded, true)
      else if terminal == states.length then (.failed, true)
      else (.pending, false)
    | _ => (.pending, false)

/-! ## Children -/

/-- The message that `DeriveChildCallID` hashes. -/
def childMessage (parent : CallID) (nodeID : String) (attempt : UInt32) : List UInt8 :=
  digestPart (bytesOf "keelith-workflow-child-v1") ++ digestPart (bytesOf parent) ++
    digestPart (bytesOf nodeID) ++ digestPart (Sha256.bigEndian 4 attempt.toNat)

def newCallID (value : String) : Except Error CallID :=
  if !validIdentity value then .error (.wrapped "call id" (.sentinel .errInvalidIdentity))
  else .ok value

def deriveChildCallID (parent : CallID) (nodeID : String) (attempt : UInt32) :
    Except Error CallID :=
  if !validIdentity parent || !validIdentity nodeID || attempt == 0 then
    .error (.sentinel .errInvalidWorkflow)
  else newCallID ("wf-child-" ++ hexEncode (sha256 (childMessage parent nodeID attempt)))

/-! ## Plans -/

/-- `workflowCommand`; `completeStatus` is none for the empty string. -/
structure WorkflowCommand where
  nodeID : String
  kind : WorkflowNodeKind
  operation : Operation := ""
  attempt : UInt32 := 0
  childCallID : CallID := ""
  readyAt : Time := Time.zero
  completeStatus : Option WorkflowNodeStatus := none
  deriving DecidableEq

/-- The command that starts a node. -/
def startCommand (state : WorkflowSnapshotState) (parent : CallID) (spec : WorkflowNodeSpec) :
    Except Error WorkflowCommand :=
  let attempt := (state.node spec.id).attempt + 1
  let command : WorkflowCommand :=
    { nodeID := spec.id, kind := spec.kind, operation := spec.operation, attempt }
  match spec.kind with
  | .timer => .ok { command with readyAt := normalizeReadyAt (state.startedAt + spec.delay) }
  | .child =>
    match deriveChildCallID parent spec.id attempt with
    | .error err => .error err
    | .ok childCallID => .ok { command with childCallID }
  | _ => .ok command

/-- The loop body of `planWorkflowForParent`: the command for one node, if there is one. -/
def planNode (state : WorkflowSnapshotState) (parent : CallID) (spec : WorkflowNodeSpec) :
    Except Error (Option WorkflowCommand) :=
  match state.nodes.lookup spec.id with
  | none => .error (.sentinel .errWorkflowDefinitionMismatch)
  | some node =>
    if node.kind ≠ spec.kind then .error (.sentinel .errWorkflowDefinitionMismatch)
    else if node.status ≠ .pending then .ok none
    else
      let dependencies := spec.dependsOn.map fun id => (state.node id).status
      let allSucceeded := dependencies.all (· == .succeeded)
      let allTerminal := dependencies.all WorkflowNodeStatus.terminal
      let failedDependency := dependencies.any (· == .failed)
      if spec.kind = .join then
        match evaluateWorkflowJoin spec.join dependencies with
        | (status, true) =>
          .ok (some { nodeID := spec.id, kind := spec.kind, completeStatus := some status })
        | (_, false) => .ok none
      else if failedDependency && spec.failurePolicy = .failFast then
        .ok (some { nodeID := spec.id, kind := spec.kind, completeStatus := some .failed })
      else if spec.dependsOn.length > 0 && !allSucceeded &&
          (spec.failurePolicy ≠ .continue_ || !allTerminal) then
        .ok none
      else match startCommand state parent spec with
        | .error err => .error err
        | .ok command => .ok (some command)

/-- The loop of `planWorkflowForParent`. -/
def planNodes (state : WorkflowSnapshotState) (parent : CallID) :
    List WorkflowNodeSpec → Except Error (List WorkflowCommand)
  | [] => .ok []
  | spec :: specs =>
    match planNode state parent spec with
    | .error err => .error err
    | .ok command =>
      match planNodes state parent specs with
      | .error err => .error err
      | .ok commands => .ok (command.toList ++ commands)

def planWorkflowForParent (definition : WorkflowDefinition) (state : WorkflowSnapshotState)
    (parent : CallID) : Except Error (List WorkflowCommand) :=
  if !(validateWorkflowState (some state)).isOk || state.version != definition.version ||
      state.fingerprint != definition.fingerprint ||
      state.nodes.size != definition.nodes.length then
    .error (.sentinel .errWorkflowDefinitionMismatch)
  else planNodes state parent definition.nodes

/-! ## Outcome -/

/-- No node depends on `id`. -/
def WorkflowDefinition.sink (definition : WorkflowDefinition) (id : String) : Bool :=
  definition.nodes.all fun node => !node.dependsOn.contains id

/-- `workflowDefinitionOutcome`: if every sink has ended, and if one has failed. -/
def workflowDefinitionOutcome (definition : WorkflowDefinition) (state : WorkflowSnapshotState) :
    Bool × Bool :=
  let sinks := definition.nodes.filter fun spec => definition.sink spec.id
  let statuses := sinks.map fun spec => (state.node spec.id).status
  if statuses.all WorkflowNodeStatus.terminal then
    (0 < sinks.length, statuses.any (· == .failed))
  else (false, false)

end Keelith.Continuation
