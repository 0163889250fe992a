import Keelith.Continuation.Workflow.NodeLemmas

/-!
# What a command does

* `ChildEnds`, `HandlerEnds`: how the code outside the package ends a node.
* `Executes`: the node that a command leaves behind.
* `executeCommand_effect`: a command changes its own node only, and starts at most that node.
-/

namespace Keelith.Continuation

variable {σ : Type} (rt : WorkflowRuntime σ)

/-! ## Results -/

/-- The child runtime shows the call with the terminal status. -/
def ChildEnds (childCallID : CallID) (status : Status) : Prop :=
  status.terminal = true ∧ ∃ children attachment world world', rt.children = some children ∧
    children.attach childCallID 0 1 world = (.ok attachment, world') ∧
    attachment.snapshot.status = status

/-- The handler of the node ends it with the status. -/
inductive HandlerEnds (parent : CallID) (nodeID : String) (command : WorkflowCommand) :
    WorkflowNodeStatus → String → Prop
  | error {handler err world world'}
      (handler_eq : rt.handlers.lookup command.operation = some handler)
      (call : handler ⟨parent, nodeID, command.attempt, command.operation,
        workflowExecutionID parent nodeID command.attempt⟩ world = (.error err, world')) :
      HandlerEnds parent nodeID command .failed "HANDLER_ERROR"
  | result {handler world world'} {result : WorkflowNodeResult}
      (handler_eq : rt.handlers.lookup command.operation = some handler)
      (call : handler ⟨parent, nodeID, command.attempt, command.operation,
        workflowExecutionID parent nodeID command.attempt⟩ world = (.ok result, world'))
      (valid : validateWorkflowNodeResult result = true) :
      HandlerEnds parent nodeID command result.status result.failureClass

/-- The node completed by the plan. -/
def completedNode (node : WorkflowNodeState) (status : WorkflowNodeStatus) : WorkflowNodeState :=
  let node := { node with status }
  if status = .failed then { node with failureClass := "DEPENDENCY_FAILED" } else node

/-- The node that waits for its child. -/
def waitingNode (node : WorkflowNodeState) (command : WorkflowCommand) : WorkflowNodeState :=
  { node with attempt := command.attempt, status := .waiting, childCallID := command.childCallID }

/-- What the command makes of the node. -/
inductive Executes (parent : CallID) (command : WorkflowCommand) (node : WorkflowNodeState) :
    WorkflowNodeState → Prop
  | complete {status} (h : command.completeStatus = some status) :
      Executes parent command node (completedNode node status)
  | arm (h : command.completeStatus = none) (kind : command.kind = .timer) :
      Executes parent command node
        { node with attempt := command.attempt, status := .waiting, readyAt := command.readyAt }
  | wait (h : command.completeStatus = none) (kind : command.kind = .child) :
      Executes parent command node (waitingNode node command)
  | observe {status} (h : command.completeStatus = none) (kind : command.kind = .child)
      (ends : ChildEnds rt command.childCallID status) :
      Executes parent command node (observedNode (waitingNode node command) status)
  | handle {status failureClass} (h : command.completeStatus = none)
      (kind : command.kind = .machine)
      (ends : HandlerEnds rt parent node.id command status failureClass) :
      Executes parent command node
        { node with attempt := command.attempt, status, failureClass }

variable {rt}

@[simp] theorem observedNode_id (node : WorkflowNodeState) (status : Status) :
    (observedNode node status).id = node.id := by
  unfold observedNode
  split <;> rfl

@[simp] theorem completedNode_id (node : WorkflowNodeState) (status : WorkflowNodeStatus) :
    (completedNode node status).id = node.id := by
  unfold completedNode
  split <;> rfl

variable {command : WorkflowCommand} {parent : CallID} {node node' : WorkflowNodeState} {p : Pass σ}

theorem Executes.id (h : Executes rt parent command node node') : node'.id = node.id := by
  cases h with
  | complete => exact completedNode_id ..
  | observe => exact observedNode_id ..
  | _ => rfl

@[simp] theorem node_setNode (state : WorkflowSnapshotState)
    (node : WorkflowNodeState) (id : String) :
    (state.setNode node).node id = if id = node.id then node else state.node id := by
  unfold WorkflowSnapshotState.node WorkflowSnapshotState.setNode
  rw [Map.lookup_insert_eq]
  split <;> rfl

theorem setNode_setNode (state : WorkflowSnapshotState) (h : node'.id = node.id) :
    (state.setNode node).setNode node' = state.setNode node' := by
  unfold WorkflowSnapshotState.setNode
  rw [h, Finmap.insert_insert]

/-- The frames of a pass that `p` has and `p'` adds. -/
def AddsFrames (p p' : Pass σ) : Prop :=
  ∀ frame ∈ p'.frames, frame ∈ p.frames ∨ Appendable frame

theorem newFrame_appendable {payload : List UInt8} {frame : Frame}
    (h : newFrame .workflowChild payload = .ok frame) : Appendable frame := by
  unfold newFrame at h
  split at h
  · cases h
  · rename_i hsize
    obtain rfl := Except.ok.inj h
    simp only [FrameKind.valid, Bool.not_true, Bool.false_or, decide_eq_true_eq, not_lt] at hsize
    exact ⟨rfl, rfl, by simp, hsize⟩

/-- `refreshChild` starts no node. It leaves the node, or writes what the child's end makes of
it. -/
theorem refreshChild_effect (rt : WorkflowRuntime σ) (nodeID : String) (p : Pass σ) :
    (refreshChild rt nodeID p).2.issued = p.issued ∧
      ((refreshChild rt nodeID p).1 = .ok () → AddsFrames p (refreshChild rt nodeID p).2 ∧
        ((refreshChild rt nodeID p).2.state = p.state ∨
          ∃ status, ChildEnds rt (p.state.node nodeID).childCallID status ∧
            (refreshChild rt nodeID p).2.state = { p.state with
              nodes :=
                p.state.nodes.insert nodeID (observedNode (p.state.node nodeID) status) })) := by
  fun_cases refreshChild rt nodeID p with
  | case1 | case3 | case5 => exact ⟨rfl, nofun⟩
  | case2 | case4 => exact ⟨rfl, fun _ => ⟨fun _ => .inl, .inl rfl⟩⟩
  | case6 children hchildren node attachment world hattach p' status hterminal q frame hframe =>
    refine ⟨rfl, fun _ => ⟨List.forall_mem_append.mpr ⟨fun _ => .inl, ?_⟩,
      .inr ⟨status, ⟨by simpa using hterminal, ?_⟩, rfl⟩⟩⟩
    · exact List.forall_mem_singleton.mpr (.inr (newFrame_appendable hframe))
    · exact ⟨children, attachment, p.world, world, hchildren, hattach, rfl⟩

/-! ## Effects -/

/-- What the command for `node` does to the pass `p`. It starts its node or none, and it changes
that node alone. -/
structure CommandEffect (rt : WorkflowRuntime σ) (parent : CallID) (command : WorkflowCommand)
    (node : WorkflowNodeState) (p : Pass σ) (result : Except Error Unit × Pass σ) : Prop where
  issued : result.2.issued = p.issued ∨ (command.completeStatus = none ∧
    result.2.issued = p.issued ++ [⟨command.nodeID, p.state⟩])
  frames : result.1 = .ok () → AddsFrames p result.2
  state : result.1 = .ok () → ∃ node', Executes rt parent command node node' ∧
    result.2.state = p.state.setNode node'

/-- A refresh right after the node was written: it waits, or its child has ended. -/
theorem refreshChild_written (hnone : command.completeStatus = none)
    (hkind : command.kind = .child) (world : σ) :
    CommandEffect rt parent command node p (refreshChild rt node.id
      { (p.issue command.nodeID).setNode (waitingNode node command) with world }) := by
  generalize hq : { (p.issue command.nodeID).setNode (waitingNode node command) with world } = q
  have hstate : q.state = p.state.setNode (waitingNode node command) := by rw [← hq]; rfl
  have hframes : q.frames = p.frames := by rw [← hq]; rfl
  have hissued : q.issued = p.issued ++ [⟨command.nodeID, p.state⟩] := by rw [← hq]; rfl
  have hnode : q.state.node node.id = waitingNode node command := by
    rw [hstate, node_setNode]
    exact if_pos rfl
  obtain ⟨hissued', heffect⟩ := refreshChild_effect rt node.id q
  refine ⟨.inr ⟨hnone, hissued'.trans hissued⟩, fun hok => ?_, fun hok => ?_⟩
  · have hadds := (heffect hok).1
    rwa [AddsFrames, hframes] at hadds
  rcases (heffect hok).2 with hsame | ⟨status, hends, hchanged⟩
  · exact ⟨_, .wait hnone hkind, hsame.trans hstate⟩
  · rw [hnode] at hends hchanged
    refine ⟨_, .observe hnone hkind hends, ?_⟩
    rw [hchanged, ← setNode_setNode p.state
      (observedNode_id (waitingNode node command) status), ← hstate]
    unfold WorkflowSnapshotState.setNode
    rw [observedNode_id]
    rfl

theorem executeChild_effect (hnone : command.completeStatus = none)
    (hkind : command.kind = .child) : CommandEffect rt parent command node p
      (executeChild rt command { node with attempt := command.attempt } p) := by
  unfold executeChild
  split
  · exact ⟨.inl rfl, nofun, nofun⟩
  dsimp only
  split
  · split
    · exact refreshChild_written hnone hkind _
    · exact ⟨.inr ⟨hnone, rfl⟩, nofun, nofun⟩
  · exact refreshChild_written hnone hkind _

theorem executeMachine_effect
    (hnone : command.completeStatus = none) (hkind : command.kind = .machine) :
    CommandEffect rt parent command node p
      (executeMachine rt parent command { node with attempt := command.attempt } p) := by
  unfold executeMachine
  split
  · exact ⟨.inl rfl, nofun, nofun⟩
  rename_i handler hhandler
  dsimp only
  split
  · rename_i err world hcall
    refine ⟨.inr ⟨hnone, rfl⟩, fun _ _ => .inl,
      fun _ => ⟨_, .handle hnone hkind (.error hhandler hcall), ?_⟩⟩
    exact setNode_setNode _ rfl
  · rename_i result world hcall
    split
    · exact ⟨.inr ⟨hnone, rfl⟩, nofun, nofun⟩
    · rename_i hvalid
      refine ⟨.inr ⟨hnone, rfl⟩, fun _ _ => .inl,
        fun _ => ⟨_, .handle hnone hkind (.result hhandler hcall (by simpa using hvalid)), ?_⟩⟩
      exact setNode_setNode _ rfl

/-- **The effect of a command.** -/
theorem executeCommand_effect (rt : WorkflowRuntime σ) (parent : CallID)
    (command : WorkflowCommand) (p : Pass σ) :
    CommandEffect rt parent command (p.state.node command.nodeID) p
      (executeCommand rt parent command p) := by
  unfold executeCommand
  split
  · rename_i status hstatus
    exact ⟨.inl rfl, fun _ _ => .inl, fun _ => ⟨_, .complete hstatus, rfl⟩⟩
  rename_i hnone
  split
  · rename_i hkind
    exact ⟨.inr ⟨hnone, rfl⟩, fun _ _ => .inl, fun _ => ⟨_, .arm hnone hkind, rfl⟩⟩
  · exact executeChild_effect hnone ‹_›
  · exact executeMachine_effect hnone ‹_›
  · exact ⟨.inl rfl, nofun, nofun⟩
  · exact ⟨.inl rfl, nofun, nofun⟩

end Keelith.Continuation
