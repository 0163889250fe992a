import Keelith.Continuation.Workflow.PlanLemmas
import Keelith.Continuation.Workflow.Runtime

/-!
# The life of a workflow node

* `NodeInv`: what holds of a node of an accepted definition between the steps of a pass. A running
  node is seen only inside a step.
* `Evolves`: how a node may change, in a step, in a pass or over many passes.
* `StateInv`, `StateEvolves`: the same of all nodes of a parent. A state that keeps them is a
  successor that `validateWorkflowSuccessor` accepts (`workflowStep_of_evolves`).
-/

namespace Keelith.Continuation

/-- The invariant of the node of `spec`. -/
structure NodeInv (startedAt : Time) (parent : CallID) (spec : WorkflowNodeSpec)
    (node : WorkflowNodeState) : Prop where
  id : node.id = spec.id
  kind : node.kind = spec.kind
  status : node.status.valid = true ∧ node.status ≠ .running
  attempt : node.attempt = 0 ∨ node.attempt = 1
  pending : node.status = .pending →
    node.attempt = 0 ∧ node.childCallID = "" ∧ node.readyAt = Time.zero
  readyAt : node.readyAt = Time.zero ∨
    (spec.kind = .timer ∧ node.readyAt = deadline startedAt spec)
  child : node.childCallID = "" ∨
    (spec.kind = .child ∧ deriveChildCallID parent spec.id 1 = .ok node.childCallID)
  waiting : node.status = .waiting →
    (spec.kind = .timer ∧ node.readyAt = deadline startedAt spec) ∨
    (spec.kind = .child ∧ node.childCallID ≠ "")
  failure : node.failureClass = "" ∨ (node.status = .failed ∧
    node.failureClass.utf8ByteSize ≤ maxWorkflowFailureSize ∧
    validIdentity node.failureClass = true)

/-- How a node may change. -/
structure Evolves (previous next : WorkflowNodeState) : Prop where
  id : next.id = previous.id
  kind : next.kind = previous.kind
  ended : previous.status.terminal = true → next = previous
  attempt : previous.attempt ≤ next.attempt
  child : previous.childCallID ≠ "" → next.childCallID = previous.childCallID
  readyAt : previous.readyAt.isZero = false → next.readyAt = previous.readyAt
  pending : next.status = .pending → previous.status = .pending
  waiting : next.status = .waiting → previous.status = .pending ∨ previous.status = .waiting

namespace Evolves

variable {a b c : WorkflowNodeState}

theorem refl (a : WorkflowNodeState) : Evolves a a :=
  ⟨rfl, rfl, fun _ => rfl, UInt32.le_refl _, fun _ => rfl, fun _ => rfl, fun h => h, .inr⟩

theorem trans (h : Evolves a b) (h' : Evolves b c) : Evolves a c := by
  refine ⟨h'.id.trans h.id, h'.kind.trans h.kind, fun ht => ?_,
    UInt32.le_trans h.attempt h'.attempt,
    fun hc => ?_, fun hr => ?_, fun hp => h.pending (h'.pending hp), fun hw => ?_⟩
  · obtain rfl := h.ended ht
    exact h'.ended ht
  · have hb := h.child hc
    rw [h'.child (by rwa [hb]), hb]
  · have hb := h.readyAt hr
    rw [h'.readyAt (by rwa [hb]), hb]
  · rcases h'.waiting hw with hp | hw
    · exact .inl (h.pending hp)
    · exact h.waiting hw

end Evolves

/-! ## Single changes -/

section

variable {startedAt : Time} {parent : CallID} {spec : WorkflowNodeSpec} {node : WorkflowNodeState}

section

variable (h : NodeInv startedAt parent spec node)

include h

/-- A node of the invariant is pending, waiting or ended. -/
theorem NodeInv.status_cases :
    node.status = .pending ∨ node.status = .waiting ∨ node.status.terminal = true := by
  obtain ⟨hv, hr⟩ := h.status
  cases hs : node.status <;> simp_all [WorkflowNodeStatus.valid, WorkflowNodeStatus.terminal]

theorem NodeInv.next_attempt : node.attempt + 1 ≠ 0 := by
  rcases h.attempt with ha | ha <;> rw [ha] <;> decide

/-- A node that has not ended ends without another change than its failure class. -/
theorem NodeInv.finish
    (hlive : node.status.terminal = false) (status : WorkflowNodeStatus) (failureClass : String)
    (hterminal : status.terminal = true)
    (hfailure : failureClass = "" ∨ (status = .failed ∧
      failureClass.utf8ByteSize ≤ maxWorkflowFailureSize ∧ validIdentity failureClass = true)) :
    NodeInv startedAt parent spec { node with status, failureClass } ∧
      Evolves node { node with status, failureClass } := by
  have hvalid : status.valid = true ∧ status ≠ .running := by
    rcases terminal_iff.mp hterminal with rfl | rfl | rfl <;> exact ⟨rfl, nofun⟩
  have hnot : status ≠ .pending ∧ status ≠ .waiting := by
    rcases terminal_iff.mp hterminal with rfl | rfl | rfl <;> exact ⟨nofun, nofun⟩
  refine ⟨⟨h.id, h.kind, hvalid, h.attempt, fun hp => absurd hp hnot.1, h.readyAt, h.child,
    fun hw => absurd hw hnot.2, hfailure⟩, ?_⟩
  exact ⟨rfl, rfl, fun ht => absurd (hlive.symm.trans ht) Bool.false_ne_true, UInt32.le_refl _,
    fun _ => rfl, fun _ => rfl, fun hp => absurd hp hnot.1, fun hw => absurd hw hnot.2⟩

theorem NodeInv.failure_live (hlive : node.status.terminal = false) : node.failureClass = "" := by
  rcases h.failure with hf | ⟨hf, -⟩
  · exact hf
  · rw [hf] at hlive
    cases hlive

theorem observedNode_evolves (hlive : node.status.terminal = false) (status : Status) :
    NodeInv startedAt parent spec (observedNode node status) ∧
      Evolves node (observedNode node status) ∧
      (observedNode node status).status.terminal = true := by
  unfold observedNode
  split
  · obtain ⟨hinv, hev⟩ := h.finish hlive .succeeded _ rfl (.inl (h.failure_live hlive))
    exact ⟨hinv, hev, rfl⟩
  · obtain ⟨hinv, hev⟩ := h.finish hlive .failed "CHILD_TERMINAL_FAILURE" rfl
      (.inr ⟨rfl, by decide, by decide⟩)
    exact ⟨hinv, hev, rfl⟩

theorem fireTimer_evolves (wake : Time) :
    NodeInv startedAt parent spec (fireTimer wake node) ∧ Evolves node (fireTimer wake node) := by
  unfold fireTimer
  split
  · rename_i hfire
    have hlive : node.status.terminal = false := by rw [hfire.2.1]; rfl
    exact h.finish hlive .succeeded _ rfl (.inl (h.failure_live hlive))
  · exact ⟨h, .refl _⟩

theorem skipNode_evolves :
    NodeInv startedAt parent spec (skipNode node) ∧ Evolves node (skipNode node) ∧
      (skipNode node).status.terminal = true := by
  unfold skipNode
  split
  · rename_i hterminal
    exact ⟨h, .refl _, hterminal⟩
  · rename_i hlive
    have hlive : node.status.terminal = false := by simpa using hlive
    obtain ⟨hinv, hev⟩ := h.finish hlive .skipped _ rfl (.inl (h.failure_live hlive))
    exact ⟨hinv, hev, rfl⟩

end

end

/-! ## All nodes of a parent -/

/-- The invariant of the workflow state of `parent`. -/
structure StateInv (d : WorkflowDefinition) (parent : CallID) (state : WorkflowSnapshotState) :
    Prop where
  version : state.version = d.version
  fingerprint : state.fingerprint = d.fingerprint
  started : state.startedAt.isZero = false
  startedNormal : state.startedAt = normalizeReadyAt state.startedAt
  keys : ∀ id, id ∈ state.nodes ↔ id ∈ d.nodes.map WorkflowNodeSpec.id
  node : ∀ spec ∈ d.nodes, NodeInv state.startedAt parent spec (state.node spec.id)

/-- How a workflow state may change. -/
structure StateEvolves (previous next : WorkflowSnapshotState) : Prop where
  version : next.version = previous.version
  fingerprint : next.fingerprint = previous.fingerprint
  startedAt : next.startedAt = previous.startedAt
  keys : ∀ id, id ∈ next.nodes ↔ id ∈ previous.nodes
  node : ∀ id, Evolves (previous.node id) (next.node id)

theorem StateEvolves.refl (state : WorkflowSnapshotState) : StateEvolves state state :=
  ⟨rfl, rfl, rfl, fun _ => Iff.rfl, fun _ => .refl _⟩

theorem StateEvolves.trans {a b c : WorkflowSnapshotState} (h : StateEvolves a b)
    (h' : StateEvolves b c) : StateEvolves a c :=
  ⟨h'.version.trans h.version, h'.fingerprint.trans h.fingerprint, h'.startedAt.trans h.startedAt,
    fun id => (h'.keys id).trans (h.keys id), fun id => (h.node id).trans (h'.node id)⟩

/-- No waiting timer is due at the zero time, which stands for no deadline. -/
def ProperDeadlines (state : WorkflowSnapshotState) : Prop :=
  ∀ id node, state.nodes.lookup id = some node → node.status = .waiting → node.kind = .timer →
    node.readyAt.isZero = false

section

variable {d : WorkflowDefinition} {parent : CallID} {state next : WorkflowSnapshotState}

variable {id : String} {node : WorkflowNodeState} {spec : WorkflowNodeSpec}

theorem node_of_lookup
    (h : state.nodes.lookup id = some node) : state.node id = node := by
  rw [WorkflowSnapshotState.node, h, Option.getD_some]

theorem lookup_node (h : id ∈ state.nodes) :
    state.nodes.lookup id = some (state.node id) := by
  obtain ⟨node, hnode⟩ := Finmap.mem_iff.mp h
  rw [node_of_lookup hnode, hnode]

theorem StateInv.lookup (h : StateInv d parent state)
    (hspec : spec ∈ d.nodes) : state.nodes.lookup spec.id = some (state.node spec.id) :=
  lookup_node ((h.keys _).mpr (List.mem_map_of_mem hspec))

theorem StateInv.spec_of_lookup (h : StateInv d parent state)
    (hlookup : state.nodes.lookup id = some node) :
    ∃ spec ∈ d.nodes, spec.id = id ∧ NodeInv state.startedAt parent spec node := by
  obtain ⟨spec, hspec, rfl⟩ := List.mem_map.mp ((h.keys id).mp (Map.mem_of_lookup hlookup))
  refine ⟨spec, hspec, rfl, ?_⟩
  rw [← node_of_lookup hlookup]
  exact h.node spec hspec

theorem StateInv.size (hd : DefinitionOk d) (h : StateInv d parent state) :
    state.nodes.size = d.nodes.length := by
  have hkeys : state.nodes.keys = (d.nodes.map WorkflowNodeSpec.id).toFinset := by
    ext id
    rw [List.mem_toFinset]
    exact h.keys id
  rw [Map.size, hkeys, List.toFinset_card_of_nodup hd.nodup, List.length_map]

theorem workflowNodeValid_of_inv {startedAt : Time}
    (hspec : SpecOk spec) (h : NodeInv startedAt parent spec node)
    (hdeadline : node.status = .waiting → node.kind = .timer → node.readyAt.isZero = false) :
    workflowNodeValid spec.id node = true := by
  have hattempt : node.attempt ≤ 1000000 := by
    rcases h.attempt with ha | ha <;> rw [ha] <;> decide
  have hfailure : node.failureClass.utf8ByteSize ≤ maxWorkflowFailureSize ∧
      (node.failureClass = "" ∨ validIdentity node.failureClass = true) ∧
      (node.status = .failed ∨ node.failureClass = "") := by
    rcases h.failure with hf | ⟨hs, hsize, hv⟩
    · rw [hf]
      exact ⟨by decide, .inl rfl, .inr rfl⟩
    · exact ⟨hsize, .inr hv, .inl hs⟩
  have hready : (node.readyAt.isZero = true ∨ node.readyAt = normalizeReadyAt node.readyAt) ∧
      (node.kind = .timer ∨ node.readyAt.isZero = true) := by
    rcases h.readyAt with hr | ⟨hk, hr⟩
    · rw [hr]
      exact ⟨.inl rfl, .inr rfl⟩
    · refine ⟨.inr ?_, .inl (h.kind.trans hk)⟩
      rw [hr]
      exact (normalizeReadyAt_idem _).symm
  have hchild : (node.childCallID = "" ∨ validIdentity node.childCallID = true) ∧
      (node.kind = .child ∨ node.childCallID = "") := by
    rcases h.child with hc | ⟨hk, hc⟩
    · exact ⟨.inl hc, .inr hc⟩
    · exact ⟨.inr (validIdentity_of_derive hc), .inl (h.kind.trans hk)⟩
  have hwaiting : node.status = .waiting → node.kind = .child → node.childCallID ≠ "" := by
    intro hw hk
    rcases h.waiting hw with ⟨htimer, -⟩ | ⟨-, hc⟩
    · rw [h.kind, htimer] at hk
      cases hk
    · exact hc
  have hkind : node.kind.valid = true := by
    rw [h.kind]
    exact hspec.kind
  simp only [workflowNodeValid, h.id, hspec.id, h.status.1, Bool.and_eq_true]
  grind

/-- A state of the invariant passes its check. -/
theorem StateInv.workflowOk (hd : DefinitionOk d) (h : StateInv d parent state)
    (hdeadlines : ProperDeadlines state) : WorkflowOk state := by
  have hsize := h.size hd
  refine ⟨by rw [h.version]; exact hd.version, by rw [h.fingerprint]; exact hd.digest, h.started,
    h.startedNormal, by rw [hsize]; exact hd.size, fun id node hlookup => ?_⟩
  obtain ⟨spec, hspec, rfl, hinv⟩ := h.spec_of_lookup hlookup
  exact workflowNodeValid_of_inv (hd.node spec hspec) hinv (hdeadlines spec.id node hlookup)

theorem WorkflowOk.properDeadlines (h : WorkflowOk state) : ProperDeadlines state := by
  intro id node hlookup hwaiting hkind
  have hvalid := h.node id node hlookup
  simp only [workflowNodeValid, hwaiting, hkind, Bool.and_eq_true] at hvalid
  simpa using hvalid.1.1.2

theorem workflowNodeSuccessor_of_evolves {startedAt : Time}
    {previous candidate : WorkflowNodeState} (h : NodeInv startedAt parent spec previous)
    (h' : NodeInv startedAt parent spec candidate) (hev : Evolves previous candidate) :
    workflowNodeSuccessor previous candidate = true := by
  have hattempt : candidate.attempt ≤ previous.attempt + 1 := by
    rcases h.attempt with ha | ha <;> rcases h'.attempt with hb | hb <;> rw [ha, hb] <;> decide
  have hchild : previous.childCallID = "" ∨ candidate.childCallID = previous.childCallID :=
    or_iff_not_imp_left.mpr hev.child
  have hready : previous.readyAt.isZero = true ∨ candidate.readyAt = previous.readyAt := by
    cases hz : previous.readyAt.isZero with
    | true => exact .inl rfl
    | false => exact .inr (hev.readyAt hz)
  have hallowed : allowedWorkflowNodeTransition previous.status candidate.status = true := by
    rcases h.status_cases with hs | hs | hs
    · obtain ⟨hv, hr⟩ := h'.status
      cases hc : candidate.status <;> simp_all [allowedWorkflowNodeTransition,
        WorkflowNodeStatus.valid, WorkflowNodeStatus.terminal]
    · have hp : candidate.status ≠ .pending := fun hp =>
        absurd (hs.symm.trans (hev.pending hp)) (by simp)
      rw [hs]
      rcases h'.status_cases with hc | hc | hc
      · exact absurd hc hp
      · rw [hc]; rfl
      · rcases terminal_iff.mp hc with hc | hc | hc <;> rw [hc] <;> rfl
    · rw [hev.ended hs]
      unfold allowedWorkflowNodeTransition
      rw [if_pos hs, beq_self_eq_true]
  simp only [workflowNodeSuccessor, hev.id, hev.kind, hev.attempt, hattempt, hallowed,
    Bool.and_eq_true, Bool.or_eq_true, beq_iff_eq, decide_eq_true_eq, and_true, true_and]
  exact ⟨hchild, hready⟩

/-- **A state that the invariant and its evolution lead to is a successor.** -/
theorem workflowStep_of_evolves (hd : DefinitionOk d) (h : StateInv d parent state)
    (h' : StateInv d parent next) (hev : StateEvolves state next) (hok : WorkflowOk state)
    (hdeadlines : ProperDeadlines next) : WorkflowStep state next := by
  have hnext : WorkflowOk next := h'.workflowOk hd hdeadlines
  refine ⟨hok, hnext, hev.version.symm, hev.fingerprint.symm, hev.startedAt.symm,
    by rw [h.size hd, h'.size hd], fun id previous hlookup => ?_⟩
  obtain ⟨spec, hspec, rfl, hinv⟩ := h.spec_of_lookup hlookup
  refine ⟨next.node spec.id, h'.lookup hspec, ?_⟩
  have hinv' := h'.node spec hspec
  have hnode := hev.node spec.id
  rw [hev.startedAt] at hinv'
  rw [node_of_lookup hlookup] at hnode
  exact workflowNodeSuccessor_of_evolves hinv hinv' hnode

end

end Keelith.Continuation
