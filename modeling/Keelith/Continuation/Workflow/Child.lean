import Keelith.Continuation.Memory.Successor
import Keelith.Continuation.Runtime
import Keelith.Continuation.Workflow.Parent

/-!
# Parents that wait for a child

`refreshChild` reads the child through `Runtime.Attach`, after cursor zero. Only the status of the
record matters to the parent, but `Attach` fails if the frame of sequence one is not retained.

* `attach_first`, `attach_first_gap`: what `Attach` after cursor zero returns.
* `refreshChild_ended`: a node whose child is attached and has ended moves.
* `child_observed_iff`: a pass observes an ended child if and only if the child's frames were never
  pruned and the parent is not to be canceled.
* `pruned_child_fails`: a pruned child fails every pass of its parent.
* `prunedChild_blocks`: such a parent and its child.
-/

namespace Keelith.Continuation

open Memory (Store StoreEvent apiMachine newStore)

/-! ## Reading the child -/

theorem length_bytesOf (s : String) : (bytesOf s).length = s.utf8ByteSize := rfl

/-- The frame of an observed child fits. -/
theorem length_childPayload {nodeID : String} {childID : CallID} {status : Status}
    (hnode : validIdentity nodeID = true) (hchild : validIdentity childID = true)
    (hstatus : status.valid = true) :
    (childPayload nodeID childID status).length ≤ maxPayloadBytes := by
  have hsize : ∀ {s : String}, validIdentity s = true → s.utf8ByteSize ≤ 512 := by
    intro s hs
    simp only [validIdentity, Bool.and_eq_true, decide_eq_true_eq] at hs
    exact hs.1.1.2
  have htext : status.text.utf8ByteSize ≤ 100 := by
    cases status <;> first | decide | cases hstatus
  have h1 := utf8ByteSize_jsonString nodeID
  have h2 := utf8ByteSize_jsonString childID
  have h3 := utf8ByteSize_jsonString status.text
  have h4 := hsize hnode
  have h5 := hsize hchild
  have hconst : ("\x7b\"node_id\":".utf8ByteSize + ",\"child_id\":".utf8ByteSize +
      ",\"status\":".utf8ByteSize + "\x7d".utf8ByteSize) ≤ 100 := by decide
  unfold childPayload maxPayloadBytes
  simp only [length_bytesOf, String.utf8ByteSize_append]
  omega

variable {child : Snapshot}

/-- `Attach` after cursor zero reads a call whose first frame is retained. -/
theorem attach_first (h : SnapshotOk child) {callID : CallID}
    (hid : validIdentity callID = true) (hfloor : child.frameFloor = 1) :
    ∃ a, attach (.ok child) callID 0 1 = .ok a ∧ a.snapshot = child := by
  obtain ⟨a, ha⟩ := exists_attach h hid 0 1 (by decide) UInt64.zero_le (by rw [hfloor]; decide)
  obtain ⟨snapshot, hsnapshot, hpage⟩ := attach_ok ha
  exact ⟨a, ha, hpage.source.trans (Except.ok.inj hsnapshot).symm⟩

/-- Without it, it reports a gap. -/
theorem attach_first_gap (h : SnapshotOk child) {callID : CallID}
    (hid : validIdentity callID = true) (hfloor : child.frameFloor ≠ 1) :
    attach (.ok child) callID 0 1 = .error (.gap 0 child.frameFloor) := by
  rcases attach_cases h hid 0 1 (by decide) with ⟨hlt, -⟩ | ⟨-, hgap⟩ | ⟨-, hle, -⟩
  · exact absurd hlt (UInt64.not_lt.mpr UInt64.zero_le)
  · exact hgap
  · have hone : child.frameFloor.toNat = (1 : UInt64).toNat := Nat.le_antisymm hle h.floor
    exact absurd (UInt64.toNat_inj.mp hone) hfloor

section

variable {σ : Type} {rt : WorkflowRuntime σ} {children : WorkflowChildRuntime σ} {p q : Pass σ}

/-- A node whose child has ended moves. -/
theorem refreshChild_ended (nodeID : String) {a : Attachment}
    (hchildren : rt.children = some children)
    (hattach : (children.attach (p.state.node nodeID).childCallID 0 1 p.world).1 = .ok a)
    (hterminal : a.snapshot.status.terminal = true) (hnode : validIdentity nodeID = true)
    (hchild : validIdentity (p.state.node nodeID).childCallID = true) :
    (refreshChild rt nodeID p).1 = .ok () ∧
      (refreshChild rt nodeID p).2.state.node nodeID =
        observedNode (p.state.node nodeID) a.snapshot.status := by
  have hvalid : a.snapshot.status.valid = true := by
    cases hs : a.snapshot.status <;> rw [hs] at hterminal <;> first | rfl | cases hterminal
  have hframe : newFrame .workflowChild (childPayload nodeID (p.state.node nodeID).childCallID
      a.snapshot.status) = .ok ⟨0, .workflowChild, childPayload nodeID
        (p.state.node nodeID).childCallID a.snapshot.status⟩ := by
    unfold newFrame
    have hlen := length_childPayload hnode hchild hvalid
    simpa [FrameKind.valid] using hlen
  rcases hr : children.attach (p.state.node nodeID).childCallID 0 1 p.world with ⟨result, world⟩
  rw [hr] at hattach
  obtain rfl : result = .ok a := hattach
  unfold refreshChild
  simp only [hchildren, hr, hterminal, hframe, Bool.not_true, Bool.false_eq_true,
    if_false, true_and]
  apply node_of_lookup
  rw [Finmap.lookup_insert]

/-- An error of the child runtime fails the pass, unless the child does not exist. -/
theorem refreshChild_error (nodeID : String) {err : Error} (hchildren : rt.children = some children)
    (hattach : (children.attach (p.state.node nodeID).childCallID 0 1 p.world).1 = .error err)
    (hfound : err.is .errNotFound = false) :
    (refreshChild rt nodeID p).1 = .error (.wrapped "continuation: attach child" err) := by
  rcases hr : children.attach (p.state.node nodeID).childCallID 0 1 p.world with ⟨result, world⟩
  rw [hr] at hattach
  obtain rfl : result = .error err := hattach
  unfold refreshChild
  simp [hchildren, hr, hfound]

theorem refreshWaitingChildren_cons (rt : WorkflowRuntime σ) (id : String) (order : List String)
    (p : Pass σ) : refreshWaitingChildren rt (id :: order) p =
      if (p.state.node id).kind = .child ∧ (p.state.node id).status = .waiting then
        match refreshChild rt id p with
        | (.error err, p) => (.error err, p)
        | (.ok (), p) => refreshWaitingChildren rt order p
      else refreshWaitingChildren rt order p := rfl

/-- The loop over the children, at one of them. -/
theorem refreshWaitingChildren_append {before : List String}
    (hbefore : refreshWaitingChildren rt before p = (.ok (), q)) (rest : List String) :
    refreshWaitingChildren rt (before ++ rest) p = refreshWaitingChildren rt rest q := by
  induction before generalizing p with
  | nil =>
    obtain ⟨-, rfl⟩ := Prod.mk.inj hbefore
    rfl
  | cons id before ih =>
    rw [refreshWaitingChildren_cons] at hbefore
    rw [List.cons_append, refreshWaitingChildren_cons]
    split at hbefore
    · rename_i hwaits
      rw [if_pos hwaits]
      split at hbefore
      · cases hbefore
      · exact ih hbefore
    · rename_i hwaits
      rw [if_neg hwaits]
      exact ih hbefore

/-- The loop changes only nodes that it visits. -/
theorem refreshWaitingChildren_node {order : List String} {id : String} (hid : id ∉ order)
    (h : refreshWaitingChildren rt order p = (.ok (), q)) : q.state.node id = p.state.node id := by
  induction order generalizing p with
  | nil =>
    obtain ⟨-, rfl⟩ := Prod.mk.inj h
    rfl
  | cons other order ih =>
    rw [List.mem_cons, not_or] at hid
    rw [refreshWaitingChildren_cons] at h
    split at h
    · split at h
      · cases h
      · rename_i p' hr
        rw [ih hid.2 h]
        have heffect := ((refreshChild_effect rt other p).2 (by rw [hr])).2
        rw [hr] at heffect
        rcases heffect with hsame | ⟨status, -, hchanged⟩
        · rw [hsame]
        · rw [hchanged]
          unfold WorkflowSnapshotState.node
          rw [Map.lookup_insert_eq, if_neg hid.1]
    · exact ih hid.2 h

end

/-! ## The pass -/

section

variable {σ : Type} {d : WorkflowDefinition} {s : Snapshot} {state : WorkflowSnapshotState}

section

variable {rt : WorkflowRuntime σ} {orders : MapOrders} {wake : Time} {world : σ}
  (hresolve : rt.registry.resolveWorkflow d.operation d.version = some d) (h : ParentInv d s state)

include hresolve h

/-- What a pass builds has evolved from what it made of the children. -/
theorem reconcileTransition_refreshed {t : Transition} {p : Pass σ} (hd : DefinitionOk d)
    (hlive : s.status ≠ .cancelRequested)
    (ht : reconcileTransition rt orders s state wake world = (.ok t, p)) :
    ∃ q next, refreshWaitingChildren rt orders.children ⟨world, state, [], []⟩ = (.ok (), q) ∧
      t.workflow = some next ∧ StateEvolves q.state next := by
  unfold reconcileTransition at ht
  rw [h.operation, h.nodes.version, hresolve] at ht
  simp only [h.nodes.fingerprint, bne_self_eq_false, Bool.false_eq_true, if_false, if_neg hlive]
    at ht
  unfold refresh at ht
  have hchildren := refreshWaitingChildren_ok rt (p := ⟨world, state, [], []⟩) hd h.nodes
    orders.children
  generalize hq : refreshWaitingChildren rt orders.children ⟨world, state, [], []⟩ = refreshed
    at ht hchildren
  obtain ⟨result, q⟩ := refreshed
  cases result with
  | error err => cases ht
  | ok u =>
    dsimp only at ht
    have hinv := ((hchildren.reaches u rfl).evolves hd h.nodes).1
    have hfire : PassOk rt d s.callID q (.ok (), fireTimers wake q) :=
      ⟨fun _ => .inl, fun _ _ _ => .inl, fun _ _ => .single (.fire wake)⟩
    have hloop := hfire.trans
      (reconcileLoop_ok rt hd ((hfire.reaches () rfl).evolves hd hinv).1 0)
    split at ht
    · cases ht
    rename_i q' hl
    rw [hl] at hloop
    have hbuilds := (conclude_builds rt orders hd hinv hlive (hloop.reaches () rfl) fun f hf =>
      ((hchildren.trans hloop).frames () rfl f hf).resolve_left (by simp)).1
    obtain ⟨next, hnext, -, hev, -⟩ := hbuilds.evolves hd hinv
      (h.skipped.reaches hd h.nodes (hchildren.reaches u rfl))
    obtain ⟨ht, -⟩ := Prod.mk.inj ht
    obtain rfl := Except.ok.inj ht
    exact ⟨q, next, rfl, hnext, hev⟩

/-- An error of the loop over the children fails the pass. -/
theorem reconcileTransition_error {err : Error} (hlive : s.status ≠ .cancelRequested)
    (herror : (refreshWaitingChildren rt orders.children ⟨world, state, [], []⟩).1 = .error err) :
    (reconcileTransition rt orders s state wake world).1 = .error err := by
  unfold reconcileTransition refresh
  rw [h.operation, h.nodes.version, hresolve]
  simp only [h.nodes.fingerprint, bne_self_eq_false, if_neg hlive]
  generalize refreshWaitingChildren rt orders.children ⟨world, state, [], []⟩ =
    refreshed at herror ⊢
  obtain ⟨result, q⟩ := refreshed
  obtain rfl : result = .error err := herror
  rfl

variable (orders wake world) in
/-- A pass over a parent to be canceled skips its nodes. -/
theorem reconcileTransition_canceled (hcanceled : s.status = .cancelRequested) :
    ∃ t p, reconcileTransition rt orders s state wake world = (.ok t, p) ∧
      t.workflow = some (skipNonTerminalWorkflowNodes state) := by
  refine ⟨_, ⟨world, skipNonTerminalWorkflowNodes state, [], []⟩, ?_,
    (moveWorkflow_fields .canceled s.fence Time.zero [⟨0, .canceled, []⟩]).1⟩
  unfold reconcileTransition
  rw [h.operation, h.nodes.version, hresolve]
  simp [h.nodes.fingerprint, if_pos hcanceled]

end

/-- The parent `s` waits at the node of `spec` for the call `child`, which has ended. In `world`,
`Runtime.Attach` reads the record of the child in `store`. -/
structure WaitsFor (d : WorkflowDefinition) (s : Snapshot) (state : WorkflowSnapshotState)
    (spec : WorkflowNodeSpec) (input : PassInput σ) (world : σ) (store : Store)
    (child : Snapshot) : Prop where
  workflow : s.workflow = some state
  mem : spec ∈ d.nodes
  kind : spec.kind = .child
  waiting : (state.node spec.id).status = .waiting
  record : store.records.lookup (state.node spec.id).childCallID = some child
  ended : child.status.terminal = true
  registered : input.runtime.registry.resolveWorkflow d.operation d.version = some d
  reads : ∃ children, input.runtime.children = some children ∧
    (children.attach (state.node spec.id).childCallID 0 1 world).1 =
      attach (store.load .background (state.node spec.id).childCallID)
        (state.node spec.id).childCallID 0 1

variable {definitionSpec : WorkflowDefinitionSpec}
  {history : List (Event Snapshot (ParentInput σ) ParentOutput)} {input : PassInput σ}
  {storeHistory : List StoreEvent} {store : Store} {spec : WorkflowNodeSpec}
  {child : Snapshot} {before after : List String} {q : Pass σ}

/-- The pass comes to the child with the node as it was, and reads a valid record. -/
theorem WaitsFor.visit (hwaits : WaitsFor d s state spec input q.world store child)
    (h : ParentInv d s state) (hstore : apiMachine.Run storeHistory store)
    (hnodup : input.orders.children.Nodup)
    (horder : input.orders.children = before ++ spec.id :: after)
    (hreached : refreshWaitingChildren input.runtime before ⟨input.world, state, [], []⟩ =
      (.ok (), q)) :
    q.state.node spec.id = state.node spec.id ∧ spec.id ∉ after ∧ SnapshotOk child ∧
      validIdentity (state.node spec.id).childCallID = true ∧
      ∃ children, input.runtime.children = some children ∧
        (children.attach (q.state.node spec.id).childCallID 0 1 q.world).1 =
          attach (.ok child) (state.node spec.id).childCallID 0 1 := by
  have hnode := h.nodes.node spec hwaits.mem
  have hid : validIdentity (state.node spec.id).childCallID = true := by
    rcases hnode.waiting hwaits.waiting with ⟨htimer, -⟩ | ⟨-, hne⟩
    · rw [hwaits.kind] at htimer
      cases htimer
    · exact validIdentity_of_derive (hnode.child.resolve_left hne).2
  rw [horder] at hnodup
  -- the nodes before it leave the node as it is
  have hsame : q.state.node spec.id = state.node spec.id :=
    refreshWaitingChildren_node (fun hin => (List.nodup_append.mp hnodup).2.2 _ hin _ (by simp) rfl)
      hreached
  have hload : store.load .background (state.node spec.id).childCallID = .ok child := by
    simp [Store.load, ne_empty_of_validIdentity hid, Context.background, hwaits.record]
  obtain ⟨children, hchildren, hreads⟩ := hwaits.reads
  rw [hload] at hreads
  exact ⟨hsame, (List.nodup_cons.mp (List.nodup_append.mp hnodup).2.1).1,
    (Memory.recordsOk_of_run hstore _ child hwaits.record).1, hid, children, hchildren,
    by rw [hsame, hreads]⟩

/-- **A pruned child fails every pass of its parent.** -/
theorem pruned_child_fails (hd : DefinitionOk d) (hrun : (parentMachine σ d).Run history s)
    (hmay : (parentMachine σ d).may history s (.pass input))
    (hstore : apiMachine.Run storeHistory store)
    (hwaits : WaitsFor d s state spec input q.world store child)
    (horder : input.orders.children = before ++ spec.id :: after)
    (hreached : refreshWaitingChildren input.runtime before ⟨input.world, state, [], []⟩ =
      (.ok (), q))
    (hfloor : child.frameFloor ≠ 1) (hlive : s.status ≠ .cancelRequested) :
    (reconcileTransition input.runtime input.orders s state input.wake input.world).1 =
      .error (.wrapped "continuation: attach child" (.gap 0 child.frameFloor)) := by
  obtain ⟨state', hinv⟩ := parent_of_run hd hrun
  obtain rfl : state' = state := Option.mem_unique hinv.parent.workflow hwaits.workflow
  obtain ⟨hsame, -, hchildOk, hid, children, hchildren, hattach⟩ :=
    hwaits.visit hinv.parent hstore (hmay.2.2 state' hwaits.workflow).1.nodup horder hreached
  have hvisit := refreshChild_error spec.id hchildren
    (hattach.trans (attach_first_gap hchildOk hid hfloor)) rfl
  have hnode := hinv.parent.nodes.node spec hwaits.mem
  have hloop : (refreshWaitingChildren input.runtime input.orders.children
      ⟨input.world, state', [], []⟩).1 =
        .error (.wrapped "continuation: attach child" (.gap 0 child.frameFloor)) := by
    rw [horder, refreshWaitingChildren_append hreached, refreshWaitingChildren_cons,
      if_pos (by rw [hsame]; exact ⟨hnode.kind.trans hwaits.kind, hwaits.waiting⟩)]
    generalize refreshChild input.runtime spec.id q = visited at hvisit
    obtain ⟨result, q'⟩ := visited
    obtain rfl : result = _ := hvisit
    rfl
  exact reconcileTransition_error hwaits.registered hinv.parent hlive hloop

/-- **When a parent observes an ended child.** The pass comes to the child after the nodes `before`
of its map order. It gets past the child, and what it builds has the node ended like the child, if
and only if the child's first frame is retained and the parent is not to be canceled. -/
theorem child_observed_iff (hd : newWorkflowDefinition definitionSpec = .ok d)
    (hrun : (parentMachine σ d).Run history s)
    (hmay : (parentMachine σ d).may history s (.pass input))
    (hstore : apiMachine.Run storeHistory store)
    (hwaits : WaitsFor d s state spec input q.world store child)
    (horder : input.orders.children = before ++ spec.id :: after)
    (hreached : refreshWaitingChildren input.runtime before ⟨input.world, state, [], []⟩ =
      (.ok (), q)) :
    ((refreshChild input.runtime spec.id q).1 = .ok () ∧
      ∀ t p, reconcileTransition input.runtime input.orders s state input.wake input.world =
          (.ok t, p) →
        ∃ next, t.workflow = some next ∧ (next.node spec.id).status =
          if child.status = .completed then .succeeded else .failed) ↔
      child.frameFloor = 1 ∧ s.status ≠ .cancelRequested := by
  have hok := newWorkflowDefinition_ok hd
  obtain ⟨state', hinv⟩ := parent_of_run hok hrun
  obtain rfl : state' = state := Option.mem_unique hinv.parent.workflow hwaits.workflow
  obtain ⟨hsame, hafter, hchildOk, hid, children, hchildren, hattach⟩ :=
    hwaits.visit hinv.parent hstore (hmay.2.2 state' hwaits.workflow).1.nodup horder hreached
  have hnode := hinv.parent.nodes.node spec hwaits.mem
  constructor
  · rintro ⟨hvisit, hbuilt⟩
    refine ⟨?_, fun hcanceled => ?_⟩
    · by_contra hfloor
      rw [refreshChild_error spec.id hchildren
        (hattach.trans (attach_first_gap hchildOk hid hfloor)) rfl] at hvisit
      cases hvisit
    · obtain ⟨t, p, ht, hskipped⟩ := reconcileTransition_canceled input.orders
        input.wake input.world hwaits.registered hinv.parent hcanceled
      obtain ⟨next, hnext, hstatus⟩ := hbuilt t p ht
      obtain rfl := Option.mem_unique hskipped hnext
      have hskip : (skipNode (state'.node spec.id)).status = .skipped := by
        rw [skipNode, hwaits.waiting]
        rfl
      rw [(skipNonTerminalWorkflowNodes_inv hinv.parent.nodes).2.2 spec hwaits.mem,
        hskip] at hstatus
      split at hstatus <;> cases hstatus
  · rintro ⟨hfloor, hlive⟩
    obtain ⟨a, ha, rfl⟩ := attach_first hchildOk hid hfloor
    obtain ⟨hvisit, hmoved⟩ := refreshChild_ended spec.id hchildren (hattach.trans ha) hwaits.ended
      (hok.node spec hwaits.mem).id (by rw [hsame]; exact hid)
    refine ⟨hvisit, fun t p ht => ?_⟩
    obtain ⟨q', next, hloop, hnext, hev⟩ :=
      reconcileTransition_refreshed hwaits.registered hinv.parent hok hlive ht
    refine ⟨next, hnext, ?_⟩
    -- the rest of the loop and of the pass keep the ended node
    have hended : (observedNode (state'.node spec.id) a.snapshot.status).status.terminal = true :=
      (observedNode_evolves hnode (by rw [hwaits.waiting]; rfl) _).2.2
    have hq' : q'.state.node spec.id = observedNode (state'.node spec.id) a.snapshot.status := by
      rw [horder, refreshWaitingChildren_append hreached, refreshWaitingChildren_cons,
        if_pos (by rw [hsame]; exact ⟨hnode.kind.trans hwaits.kind, hwaits.waiting⟩)] at hloop
      rcases hr : refreshChild input.runtime spec.id q with ⟨result, q₂⟩
      rw [hr] at hloop hvisit hmoved
      obtain rfl : result = .ok () := hvisit
      rw [refreshWaitingChildren_node hafter hloop, ← hsame]
      exact hmoved
    have hlast := hev.node spec.id
    rw [hq'] at hlast
    rw [hlast.ended hended]
    unfold observedNode
    split <;> rfl

end

/-! ## One child

A parent of one child call. The child has completed; then `PruneFrames` removes its only frame. -/

namespace OneChild

/-- A workflow of one child. -/
def definitionSpec : WorkflowDefinitionSpec :=
  ⟨"/svc/flow", "v1", [{ id := "c", kind := .child, operation := "/svc/job" }]⟩

/-- The node of the child. -/
def spec : WorkflowNodeSpec :=
  { id := "c", kind := .child, operation := "/svc/job", failurePolicy := .failFast }

/-- The definition of `definitionSpec`. -/
def definition : WorkflowDefinition where
  operation := "/svc/flow"
  version := "v1"
  fingerprint := "7096b7301aa628e16dd81a2cdd13482c65df57718b89fe436433fc2de564401a"
  nodes := [spec]

/-- The derived call of the child. -/
def childID : CallID := "wf-child-c16b9d35ff8af3865c7e8468216c5d24684c2f8a9302ff27a1604d981df9bb91"

/-- A runtime with a machine for the child. -/
def runtime : Runtime := ⟨{"/svc/job"}⟩

/-- A pass whose child runtime has its calls in `store`. -/
def passInput (store : Store) : PassInput Store where
  runtime :=
    { registry := ⟨(∅ : Map String (Map String WorkflowDefinition)).insert "/svc/flow"
        ((∅ : Map String WorkflowDefinition).insert "v1" definition)⟩
      children := some (runtime.children .background)
      handlers := ∅
      pollInterval := second
      maxNodeActions := 5
      now := fun world => (second, world) }
  orders := ⟨["c"], ["c"]⟩
  wake := Time.zero
  world := store
  committed := true

/-- A claim. -/
def claim (fence : UInt64) : ParentInput Store := .move (move .running fence [])

/-- A new parent. -/
def created : Snapshot where
  callID := "parent"
  operation := "/svc/flow"
  status := .accepted
  readyAt := Time.zero
  revision := 1
  fence := 0
  sequence := 1
  frameFloor := 1
  frames := [⟨1, .accepted, []⟩]
  commands := ∅
  workflow := some (newWorkflowSnapshotState definition second)

/-- The parent claimed for its first pass. -/
def claimed : Snapshot := { created with status := .running, revision := 2, fence := 1 }

/-- The workflow state once the child is started. -/
def waitingState : WorkflowSnapshotState :=
  (newWorkflowSnapshotState definition second).setNode
    { id := "c", kind := .child, status := .waiting, attempt := 1, childCallID := childID }

/-- The parent after the pass that starts the child. -/
def started : Snapshot := { created with
  status := .suspended, readyAt := second + second, revision := 3, fence := 1,
  workflow := some waitingState }

/-- The parent claimed again. -/
def reclaimed : Snapshot := { created with
  status := .running, revision := 4, fence := 2, workflow := some waitingState }

/-- The child, completed. -/
def completedChild : Snapshot where
  callID := childID
  operation := "/svc/job"
  status := .completed
  readyAt := Time.zero
  revision := 3
  fence := 1
  sequence := 1
  frameFloor := 1
  frames := [⟨1, .accepted, []⟩]
  commands := ∅
  workflow := none

/-- The child after `PruneFrames`. -/
def prunedChild : Snapshot := { completedChild with frameFloor := 2, frames := [] }

/-- A store with the completed child. -/
def restored : Store := { newStore with
  records := (∅ : Map String Snapshot).insert childID completedChild }

/-- The store after `PruneFrames`. -/
def pruned : Store := (restored.pruneFrames .background childID 2).2

/-- The definition, the steps of the parent and the stores of the child, evaluated. -/
theorem evaluated : newWorkflowDefinition definitionSpec = .ok definition ∧
    (passInput newStore).runtime.registry.resolveWorkflow definition.operation
      definition.version = some definition ∧
    (newWorkflowSnapshot "parent" definition [] second = .ok created ∧
      (parentExec created (claim 1)).2 = claimed ∧
      (parentExec claimed (.pass (passInput newStore))).2 = started ∧
      (parentExec started (claim 2)).2 = reclaimed) ∧
    ((waitingState.node spec.id).status = .waiting ∧
      (waitingState.node spec.id).childCallID = childID) ∧
    validateSnapshot completedChild = .ok () ∧ pruned.records.lookup childID =
      some prunedChild := by
  decide +kernel

theorem definition_eq : newWorkflowDefinition definitionSpec = .ok definition := evaluated.1

theorem restored_run : apiMachine.Run [] restored := by
  have hvalid : validateSnapshot completedChild = .ok () := evaluated.2.2.2.2.1
  refine .init ⟨[completedChild], ?_⟩
  show Memory.restore newStore completedChild >>= pure = .ok restored
  rw [Memory.restore, hvalid]
  rfl

theorem pruned_run : ∃ history, apiMachine.Run history pruned :=
  restored_run.next ⟨1, .pruneFrames .background childID 2⟩ ⟨by simp [Memory.machine], trivial⟩ rfl

theorem registered (store : Store) :
    (passInput store).runtime.registry.resolveWorkflow definition.operation definition.version =
      some definition := evaluated.2.1

theorem passInput_may {history : List (Event Snapshot (ParentInput Store) ParentOutput)}
    {s : Snapshot} (hrun : (parentMachine Store definition).Run history s)
    (hs : s.status = .running) (store : Store) :
    ParentMay definition s (.pass (passInput store)) :=
  pass_may (newWorkflowDefinition_ok definition_eq) hrun (.inl hs)
    (fun _ hresolve _ => Option.some.inj (hresolve.symm.trans (registered store))) rfl rfl

theorem reclaimed_run : ∃ history, (parentMachine Store definition).Run history reclaimed := by
  obtain ⟨hnew, hclaim, hpass, hreclaim⟩ := evaluated.2.2.1
  have hinit : (parentMachine Store definition).Run [] created :=
    .init ⟨"parent", [], second, hnew⟩
  have hclaimed : ∃ history, (parentMachine Store definition).Run history claimed :=
    hinit.next (claim 1) rfl hclaim
  obtain ⟨history, hrun⟩ := hclaimed
  have hstarted : ∃ history, (parentMachine Store definition).Run history started :=
    hrun.next (.pass (passInput newStore)) (passInput_may hrun rfl _) hpass
  obtain ⟨history, hrun⟩ := hstarted
  exact hrun.next (claim 2) rfl hreclaim

theorem waitsFor {store : Store}
    (hrecord : store.records.lookup childID = some child) (hended : child.status.terminal = true) :
    WaitsFor definition reclaimed waitingState spec (passInput store) store store child where
  workflow := rfl
  mem := List.mem_singleton_self _
  kind := rfl
  waiting := evaluated.2.2.2.1.1
  record := by
    rw [evaluated.2.2.2.1.2]
    exact hrecord
  ended := hended
  registered := registered store
  reads := ⟨runtime.children .background, rfl, rfl⟩

theorem lookup_restored : restored.records.lookup childID = some completedChild :=
  Finmap.lookup_insert _

theorem lookup_pruned : pruned.records.lookup childID = some prunedChild :=
  evaluated.2.2.2.2.2

/-- The loop over the children begins. -/
theorem reached_first (store : Store) :
    refreshWaitingChildren (passInput store).runtime [] ⟨store, waitingState, [], []⟩ =
      (.ok (), ⟨store, waitingState, [], []⟩) :=
  rfl

/-- **A completed child whose frames were pruned fails the pass of its parent.** -/
theorem prunedChild_blocks : newWorkflowDefinition definitionSpec = .ok definition ∧
    (∃ history, (parentMachine Store definition).Run history reclaimed ∧
      (parentMachine Store definition).may history reclaimed (.pass (passInput pruned))) ∧
    (∃ history, apiMachine.Run history pruned) ∧
    WaitsFor definition reclaimed waitingState spec (passInput pruned) pruned pruned prunedChild ∧
    (reconcileTransition (passInput pruned).runtime (passInput pruned).orders reclaimed waitingState
      (passInput pruned).wake (passInput pruned).world).1 =
        .error (.wrapped "continuation: attach child" (.gap 0 2)) := by
  obtain ⟨history, hrun⟩ := reclaimed_run
  obtain ⟨storeHistory, hstore⟩ := pruned_run
  have hmay := passInput_may hrun rfl pruned
  have hwaits := waitsFor lookup_pruned rfl
  exact ⟨definition_eq, ⟨history, hrun, hmay⟩, ⟨storeHistory, hstore⟩, hwaits,
    pruned_child_fails (newWorkflowDefinition_ok definition_eq) hrun hmay hstore hwaits rfl
      (reached_first pruned) (by decide) (by decide)⟩

/-- A child whose frames are retained is observed. -/
theorem completedChild_observed :
    (refreshChild (passInput restored).runtime "c" ⟨restored, waitingState, [], []⟩).1 = .ok () ∧
      ∀ t p, reconcileTransition (passInput restored).runtime (passInput restored).orders reclaimed
          waitingState (passInput restored).wake (passInput restored).world = (.ok t, p) →
        ∃ next, t.workflow = some next ∧ (next.node "c").status = .succeeded := by
  obtain ⟨history, hrun⟩ := reclaimed_run
  have hiff := child_observed_iff definition_eq hrun (passInput_may hrun rfl restored) restored_run
    (waitsFor lookup_restored rfl) rfl (reached_first restored)
  exact hiff.mpr ⟨rfl, by decide⟩

end OneChild

end Keelith.Continuation
