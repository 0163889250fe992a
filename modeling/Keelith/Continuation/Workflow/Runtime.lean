import Keelith.Continuation.Attach
import Keelith.Continuation.Workflow.Plan

/-!
# One pass of the workflow runtime

`workflow_runtime.go`: `WorkflowRuntime.reconcile` and the functions it calls.

- **The world**: handlers, the child runtime and the clock are code outside the package. They are
  functions of a world `σ`, which is anything that they read or change. A canceled context shows as
  the errors that they return.
- **The pass** (`Pass`): what `reconcile` changes in place, also when it fails. `issued` is not in
  the source: it lists each node that was started, with the state that the command met.
- **Ending frames**: `NewFrame` accepts an empty payload, so the frames that end a parent are
  written out.
- **Map order**: `refreshWaitingChildren` and `nextWakeAt` range over a map; the order of their
  iterations is an argument.

`maxNodeActions` is a natural number: `NewWorkflowRuntime` accepts 1 to 10000.
-/

namespace Keelith.Continuation

/-- `WorkflowExecution`. -/
structure WorkflowExecution where
  parentCallID : CallID
  nodeID : String
  attempt : UInt32
  operation : Operation
  executionID : String

/-- `WorkflowNodeResult`. -/
structure WorkflowNodeResult where
  status : WorkflowNodeStatus
  failureClass : String
  deriving DecidableEq

abbrev WorkflowNodeHandler (σ : Type) := WorkflowExecution → σ → Except Error WorkflowNodeResult × σ

/-- `WorkflowChildRuntime`. -/
structure WorkflowChildRuntime (σ : Type) where
  startCall : CallID → Operation → List UInt8 → σ → Except Error Snapshot × σ
  attach : CallID → UInt64 → Int → σ → Except Error Attachment × σ

/-- `WorkflowRuntime`, what a pass uses of it. -/
structure WorkflowRuntime (σ : Type) where
  registry : Registry
  children : Option (WorkflowChildRuntime σ)
  handlers : Map String (WorkflowNodeHandler σ)
  pollInterval : Duration
  maxNodeActions : Nat
  now : σ → Time × σ

/-- `validateWorkflowNodeResult` succeeds. -/
def validateWorkflowNodeResult (result : WorkflowNodeResult) : Bool :=
  (result.status == .succeeded || result.status == .failed) &&
    result.failureClass.utf8ByteSize ≤ maxWorkflowFailureSize &&
    (result.failureClass == "" || validIdentity result.failureClass) &&
    !(result.status == .succeeded && result.failureClass != "")

def workflowExecutionID (parent : CallID) (nodeID : String) (attempt : UInt32) : String :=
  hexEncode (sha256 (digestPart (bytesOf "keelith-workflow-execution-v1") ++
    digestPart (bytesOf parent) ++ digestPart (bytesOf nodeID) ++
    digestPart (Sha256.bigEndian 4 attempt.toNat)))

/-! ## The pass -/

/-- A node that was started: a handler called, a child started or a timer armed. -/
structure Issue where
  nodeID : String
  state : WorkflowSnapshotState

/-- What a pass changes in place (module doc). -/
structure Pass (σ : Type) where
  world : σ
  state : WorkflowSnapshotState
  frames : List Frame
  issued : List Issue

/-- The pass with the node written back. -/
def Pass.setNode {σ : Type} (p : Pass σ) (node : WorkflowNodeState) : Pass σ :=
  { p with state := p.state.setNode node }

/-- The node is started from the current state. -/
def Pass.issue {σ : Type} (p : Pass σ) (nodeID : String) : Pass σ :=
  { p with issued := p.issued ++ [⟨nodeID, p.state⟩] }

variable {σ : Type} (rt : WorkflowRuntime σ)

/-- The payload of a `workflow_child` frame. -/
def childPayload (nodeID : String) (childID : CallID) (status : Status) : List UInt8 :=
  bytesOf ("\x7b\"node_id\":" ++ jsonString nodeID ++ ",\"child_id\":" ++ jsonString childID ++
    ",\"status\":" ++ jsonString status.text ++ "\x7d")

/-- A waiting node after its child has ended with `status`. -/
def observedNode (node : WorkflowNodeState) (status : Status) : WorkflowNodeState :=
  if status = .completed then { node with status := .succeeded }
  else { node with status := .failed, failureClass := "CHILD_TERMINAL_FAILURE" }

def refreshChild (nodeID : String) (p : Pass σ) : Except Error Unit × Pass σ :=
  match rt.children with
  | none => (.error (.sentinel .errWorkflowHandlerNotFound), p)
  | some children =>
    let node := p.state.node nodeID
    match children.attach node.childCallID 0 1 p.world with
    | (.error err, world) =>
      let p := { p with world }
      if err.is .errNotFound then (.ok (), p)
      else (.error (.wrapped "continuation: attach child" err), p)
    | (.ok attachment, world) =>
      let p := { p with world }
      let status := attachment.snapshot.status
      if !status.terminal then (.ok (), p)
      else
        let p := { p with state := { p.state with
          nodes := p.state.nodes.insert nodeID (observedNode node status) } }
        match newFrame .workflowChild (childPayload nodeID node.childCallID status) with
        | .error err => (.error err, p)
        | .ok frame => (.ok (), { p with frames := p.frames ++ [frame] })

/-- `refreshWaitingChildren`, over the nodes in the order `order`. -/
def refreshWaitingChildren (order : List String) (p : Pass σ) : Except Error Unit × Pass σ :=
  match order with
  | [] => (.ok (), p)
  | id :: order =>
    let node := p.state.node id
    if node.kind = .child ∧ node.status = .waiting then
      match refreshChild rt id p with
      | (.error err, p) => (.error err, p)
      | (.ok (), p) => refreshWaitingChildren order p
    else refreshWaitingChildren order p

/-- The timer loop of `reconcile`, at one node. -/
def fireTimer (authoritativeWake : Time) (node : WorkflowNodeState) : WorkflowNodeState :=
  if node.kind = .timer ∧ node.status = .waiting ∧ authoritativeWake.isZero = false ∧
      ¬ authoritativeWake < node.readyAt then
    { node with status := .succeeded }
  else node

/-- The timer loop of `reconcile`. -/
def fireTimers (authoritativeWake : Time) (p : Pass σ) : Pass σ :=
  { p with state := { p.state with
    nodes := p.state.nodes.mapValues fun _ => fireTimer authoritativeWake } }

/-- The machine case of `executeCommand`. -/
def executeMachine (parent : CallID) (command : WorkflowCommand) (node : WorkflowNodeState)
    (p : Pass σ) : Except Error Unit × Pass σ :=
  match rt.handlers.lookup command.operation with
  | none => (.error (.sentinel .errWorkflowHandlerNotFound), p)
  | some handler =>
    let node := { node with status := .running }
    let p := (p.issue command.nodeID).setNode node
    let execution : WorkflowExecution :=
      { parentCallID := parent, nodeID := node.id, attempt := command.attempt,
        operation := command.operation,
        executionID := workflowExecutionID parent node.id command.attempt }
    match handler execution p.world with
    | (.error _, world) =>
      (.ok (), { p with world }.setNode
        { node with status := .failed, failureClass := "HANDLER_ERROR" })
    | (.ok result, world) =>
      let p := { p with world }
      if !validateWorkflowNodeResult result then (.error (.sentinel .errInvalidWorkflow), p)
      else (.ok (), p.setNode
        { node with status := result.status, failureClass := result.failureClass })

/-- The child case of `executeCommand`. -/
def executeChild (command : WorkflowCommand) (node : WorkflowNodeState) (p : Pass σ) :
    Except Error Unit × Pass σ :=
  match rt.children with
  | none => (.error (.sentinel .errWorkflowHandlerNotFound), p)
  | some children =>
    let p := (p.issue command.nodeID).setNode
      { node with status := .waiting, childCallID := command.childCallID }
    match children.startCall command.childCallID command.operation [] p.world with
    | (.error err, world) =>
      let p := { p with world }
      if err.is .errAlreadyExists then refreshChild rt node.id p
      else (.error (.wrapped "continuation: start child" err), p)
    | (.ok _, world) => refreshChild rt node.id { p with world }

def executeCommand (parent : CallID) (command : WorkflowCommand) (p : Pass σ) :
    Except Error Unit × Pass σ :=
  let node := p.state.node command.nodeID
  match command.completeStatus with
  | some status =>
    let node := { node with status }
    (.ok (), p.setNode
      (if status = .failed then { node with failureClass := "DEPENDENCY_FAILED" } else node))
  | none =>
    let node := { node with attempt := command.attempt }
    match command.kind with
    | .timer => (.ok (), (p.issue command.nodeID).setNode
        { node with status := .waiting, readyAt := command.readyAt })
    | .child => executeChild rt command node p
    | .machine => executeMachine rt parent command node p
    | .join | .other _ => (.error (.sentinel .errInvalidWorkflow), p)

/-- The inner loop of `reconcile`; `actions` commands were executed before. -/
def executeCommands (parent : CallID) (actions : Nat) (p : Pass σ) :
    List WorkflowCommand → Except Error Nat × Pass σ
  | [] => (.ok actions, p)
  | command :: commands =>
    if actions ≥ rt.maxNodeActions then (.ok actions, p)
    else match executeCommand rt parent command p with
      | (.error err, p) => (.error err, p)
      | (.ok (), p) => executeCommands parent (actions + 1) p commands

/-- The outer loop of `reconcile`: plan, then execute the plan. -/
def reconcileBody (definition : WorkflowDefinition) (parent : CallID) (s : Nat × Pass σ) :
    (Nat × Pass σ) ⊕ (Except Error Unit × Pass σ) :=
  if s.1 < rt.maxNodeActions then
    match planWorkflowForParent definition s.2.state parent with
    | .error err => .inr (.error err, s.2)
    | .ok [] => .inr (.ok (), s.2)
    | .ok (command :: commands) =>
      match executeCommands rt parent s.1 s.2 (command :: commands) with
      | (.error err, p) => .inr (.error err, p)
      | (.ok actions, p) => .inl (actions, p)
  else .inr (.ok (), s.2)

variable {rt}

theorem executeCommands_le {parent : CallID} {actions actions' : Nat} {p p' : Pass σ}
    {commands : List WorkflowCommand}
    (h : executeCommands rt parent actions p commands = (.ok actions', p')) :
    actions ≤ actions' := by
  induction commands generalizing actions p with
  | nil =>
    obtain ⟨h, -⟩ := Prod.mk.inj h
    exact le_of_eq (Except.ok.inj h)
  | cons command commands ih =>
    unfold executeCommands at h
    split at h
    · obtain ⟨h, -⟩ := Prod.mk.inj h
      exact le_of_eq (Except.ok.inj h)
    · split at h
      · cases h
      · exact Nat.le_of_succ_le (ih h)

variable (rt)

/-- The outer loop of `reconcile` ends: each iteration executes a command. -/
def reconcileBody_terminating (definition : WorkflowDefinition) (parent : CallID) :
    Loop.Terminating (reconcileBody rt definition parent) where
  measure s := rt.maxNodeActions - s.1
  decreases := by
    intro s s' h
    unfold reconcileBody at h
    split at h
    · rename_i hlt
      split at h
      · cases h
      · cases h
      · rename_i command commands _
        split at h
        · cases h
        · rename_i actions p hexec
          obtain rfl := Sum.inl.inj h
          -- the budget is not used up, so the first command of the plan is executed
          rw [executeCommands, if_neg (by omega)] at hexec
          split at hexec
          · cases hexec
          · have := executeCommands_le hexec
            show rt.maxNodeActions - actions < rt.maxNodeActions - s.1
            omega
    · cases h

/-! ## Reconcile -/

/-- The loop of `nextWakeAt` at one node. -/
def earlierWake (state : WorkflowSnapshotState) (wakeAt : Time) (id : String) : Time :=
  let node := state.node id
  if node.kind = .timer ∧ node.status = .waiting ∧
    (wakeAt.isZero = true ∨ node.readyAt < wakeAt) then
    node.readyAt
  else wakeAt

/-- `nextWakeAt`, over the nodes in the order `order`. -/
def nextWakeAt (order : List String) (state : WorkflowSnapshotState) (world : σ) : Time × σ :=
  let (now, world) := rt.now world
  (order.foldl (earlierWake state) (normalizeReadyAt (now + rt.pollInterval)), world)

/-- The orders in which a pass ranges over the nodes. -/
structure MapOrders where
  children : List String
  wake : List String

/-- The part of `reconcile` before its plans: ended children are observed, due timers fire. -/
def refresh (orders : MapOrders) (authoritativeWake : Time) (p : Pass σ) :
    Except Error Unit × Pass σ :=
  match refreshWaitingChildren rt orders.children p with
  | (.error err, p) => (.error err, p)
  | (.ok (), p) => (.ok (), fireTimers authoritativeWake p)

/-- The part of `reconcile` after its plans: the transition that it applies. -/
def conclude (orders : MapOrders) (definition : WorkflowDefinition) (current : Snapshot)
    (p : Pass σ) : Transition × Pass σ :=
  match workflowDefinitionOutcome definition p.state with
  | (true, failed) =>
    let p := { p with state := skipNonTerminalWorkflowNodes p.state }
    let frame : Frame := ⟨0, if failed then .failed else .completed, []⟩
    (moveWorkflow (if failed then .failed else .completed) current.fence p.state Time.zero
      (p.frames ++ [frame]), p)
  | (false, _) =>
    let (wakeAt, world) := nextWakeAt rt orders.wake p.state p.world
    (moveWorkflow .suspended current.fence p.state wakeAt p.frames, { p with world })

/-- The transition that `reconcile` builds for the parent `current` with the workflow `state`. -/
def reconcileTransition (orders : MapOrders) (current : Snapshot) (state : WorkflowSnapshotState)
    (authoritativeWake : Time) (world : σ) : Except Error Transition × Pass σ :=
  let p : Pass σ := ⟨world, state, [], []⟩
  match rt.registry.resolveWorkflow current.operation state.version with
  | none => (.error (.sentinel .errWorkflowDefinitionMismatch), p)
  | some definition =>
    if definition.fingerprint != state.fingerprint then
      (.error (.sentinel .errWorkflowDefinitionMismatch), p)
    else if current.status = .cancelRequested then
      let p := { p with state := skipNonTerminalWorkflowNodes p.state }
      (.ok (moveWorkflow .canceled current.fence p.state Time.zero [⟨0, .canceled, []⟩]), p)
    else match refresh rt orders authoritativeWake p with
      | (.error err, p) => (.error err, p)
      | (.ok (), p) =>
        match Loop.eval (reconcileBody_terminating rt definition current.callID) (0, p) with
        | (.error err, p) => (.error err, p)
        | (.ok (), p) =>
          let (transition, p) := conclude rt orders definition current p
          (.ok transition, p)

/-- `reconcile`, on a parent with the workflow `state`: `RunOnce` passes over other calls. -/
def reconcile (orders : MapOrders) (current : Snapshot) (state : WorkflowSnapshotState)
    (authoritativeWake : Time) (world : σ) : Except Error Snapshot × Pass σ :=
  match reconcileTransition rt orders current state authoritativeWake world with
  | (.error err, p) => (.error err, p)
  | (.ok transition, p) => (apply current transition, p)

end Keelith.Continuation
