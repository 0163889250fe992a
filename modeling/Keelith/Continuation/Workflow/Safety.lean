import Keelith.Continuation.Workflow.Parent

/-!
# Safety and progress of workflow parents

* `workflow_never_deadlocks`: the loop of a pass ends, no stored node is running, and a parent whose
  sinks have not all ended has a command, or a timer or a child that it waits for.
* `workflow_order`: a node is started only when it is pending and its dependencies allow it, an
  ended node never changes, and `apply` accepts what a pass builds, up to exhausted counters and a
  timer whose deadline is the zero time.
* `zeroDeadline_rejected`: a parent of two timers, started one hour before the zero time.
-/

namespace Keelith.Continuation

section

variable {σ : Type} {spec : WorkflowDefinitionSpec} {d : WorkflowDefinition}
  {history : List (Event Snapshot (ParentInput σ) ParentOutput)} {s : Snapshot}

/-- **A workflow never deadlocks.** -/
theorem workflow_never_deadlocks (hd : newWorkflowDefinition spec = .ok d)
    (hrun : (parentMachine σ d).Run history s) :
    (∀ (rt : WorkflowRuntime σ) (p : Pass σ),
      (Loop.run (reconcileBody rt d s.callID) (rt.maxNodeActions + 1) (0, p)).isSome = true) ∧
    ∃ state, s.workflow = some state ∧
      (∀ id node, state.nodes.lookup id = some node → node.status ≠ .running) ∧
      ((∃ sink ∈ d.nodes, d.sink sink.id = true ∧ (state.node sink.id).status.terminal = false) →
        (∃ command commands, planWorkflowForParent d state s.callID = .ok (command :: commands)) ∨
        ∃ id node, state.nodes.lookup id = some node ∧ node.status = .waiting ∧
          (node.kind = .timer ∨ node.kind = .child)) := by
  have hok := newWorkflowDefinition_ok hd
  obtain ⟨state, hinv⟩ := parent_of_run hok hrun
  refine ⟨fun rt p => ?_, state, hinv.parent.workflow, fun id node hlookup => ?_, ?_⟩
  · exact (reconcileBody_terminating rt d s.callID).run_isSome (0, p) (Nat.lt_succ_self _)
  · obtain ⟨spec, -, -, hnode⟩ := hinv.parent.nodes.spec_of_lookup hlookup
    exact hnode.status.2
  · rintro ⟨sink, hsink, -, hlive⟩
    exact workflow_progress hok hinv.parent ⟨sink, hsink, hlive⟩

/-- **Order and single execution.** -/
theorem workflow_order (hd : newWorkflowDefinition spec = .ok d)
    (hrun : (parentMachine σ d).Run history s) :
    (∀ e ∈ history, ∀ issue ∈ e.output.issued, Startable d issue) ∧
    (∀ e ∈ history, ∀ old, e.pre.workflow = some old → ∀ id node,
      old.nodes.lookup id = some node → node.status.terminal = true →
        ∃ state, s.workflow = some state ∧ state.nodes.lookup id = some node) ∧
    (∀ input state, (parentMachine σ d).may history s (.pass input) → s.workflow = some state →
      ∀ t p, reconcileTransition input.runtime input.orders s state input.wake input.world =
          (.ok t, p) →
        ((∃ next, apply s t = .ok next) ↔
          s.revision ≠ maxUint64 ∧ s.sequence.toNat + t.frames.length < 2 ^ 64 ∧
            ∀ next, t.workflow = some next → ProperDeadlines next)) := by
  have hok := newWorkflowDefinition_ok hd
  obtain ⟨state, hinv⟩ := parent_of_run hok hrun
  refine ⟨hinv.issued, fun e he old hold id node hlookup hended => ?_,
    fun input st hmay hst t p ht => ?_⟩
  · obtain ⟨old', hold', hev⟩ := hinv.evolves e he
    obtain rfl : old' = old := Option.mem_unique hold' hold
    have hmem : id ∈ state.nodes := (hev.keys id).mpr (Map.mem_of_lookup hlookup)
    have hnode := hev.node id
    rw [node_of_lookup hlookup] at hnode
    refine ⟨state, hinv.parent.workflow, ?_⟩
    rw [lookup_node hmem, hnode.ended hended]
  · obtain rfl : state = st := Option.mem_unique hinv.parent.workflow hst
    obtain ⟨hstatus, hregistry, -⟩ := hmay
    have hbuilds := (reconcileTransition_ok input.runtime hok hinv.parent.operation hregistry
      hinv.parent.nodes input.orders input.wake input.world).2 t (by rw [ht])
    exact hbuilds.accepted_iff hok hinv.parent.ok hst hinv.parent.nodes hinv.parent.skipped hstatus

end

/-! ## Two timers

A parent of two timers, created one second after the zero time, or one hour before it. -/

namespace TwoTimers

/-- A workflow of two timers of one hour, one after the other. -/
def definitionSpec : WorkflowDefinitionSpec :=
  ⟨"/svc/flow", "v1", [{ id := "t", kind := .timer, delay := hour },
    { id := "u", kind := .timer, dependsOn := ["t"], delay := hour }]⟩

/-- The definition of `definitionSpec`. -/
def definition : WorkflowDefinition where
  operation := "/svc/flow"
  version := "v1"
  fingerprint := "774078df5e7fbcec2b6bc7ab0a60f6a0473dda75eead5175d39291ed20111c99"
  nodes := [{ id := "t", kind := .timer, failurePolicy := .failFast, delay := hour },
    { id := "u", kind := .timer, dependsOn := ["t"], failurePolicy := .failFast, delay := hour }]

/-- A new parent, before its creation in a store. -/
def created (startedAt : Time) : Snapshot where
  callID := "parent"
  operation := "/svc/flow"
  status := .accepted
  readyAt := Time.zero
  revision := 1
  fence := 0
  sequence := 1
  frameFloor := 1
  frames := [⟨1, .accepted, []⟩]
  commands := ∅
  workflow := some (newWorkflowSnapshotState definition startedAt)

/-- The parent claimed by a runtime. -/
def claimed (startedAt : Time) : Snapshot := advanced (created startedAt) (move .running 1 [])

/-- A runtime with the definition, whose passes execute one command. -/
def runtime : WorkflowRuntime Unit where
  registry := ⟨(∅ : Map String (Map String WorkflowDefinition)).insert "/svc/flow"
    ((∅ : Map String WorkflowDefinition).insert "v1" definition)⟩
  children := none
  handlers := ∅
  pollInterval := second
  maxNodeActions := 1
  now := fun world => (second, world)

/-- A pass of `runtime`. -/
def passInput : PassInput Unit where
  runtime := runtime
  orders := ⟨["t", "u"], ["t", "u"]⟩
  wake := Time.zero
  world := ()
  committed := true

/-- The transition that the pass builds for the claimed parent. -/
def built (startedAt : Time) : Transition :=
  moveWorkflow .suspended 1 ((newWorkflowSnapshotState definition startedAt).setNode
    { id := "t", kind := .timer, status := .waiting, attempt := 1,
      readyAt := normalizeReadyAt (startedAt + hour) })
    (if (normalizeReadyAt (startedAt + hour)) < 2 * second then normalizeReadyAt (startedAt + hour)
     else 2 * second) []

/-- One hour before the zero time. -/
def early : Time := -hour

/-- The parent that waits for its timer. -/
def waiting : Snapshot := (parentExec (claimed second) (.pass passInput)).2

/-- The transition that a pass of the claimed parent builds. -/
def Builds (startedAt : Time) : Prop :=
  (reconcileTransition runtime passInput.orders (claimed startedAt)
    (newWorkflowSnapshotState definition startedAt) Time.zero ()).1 = .ok (built startedAt)

instance (startedAt : Time) : Decidable (Builds startedAt) := inferInstanceAs (Decidable (_ = _))

/-- The definition and the two parents, evaluated. -/
theorem evaluated : newWorkflowDefinition definitionSpec = .ok definition ∧
    runtime.registry.resolveWorkflow definition.operation definition.version = some definition ∧
    (∀ startedAt ∈ [second, early],
      newWorkflowSnapshot "parent" definition [] startedAt = .ok (created startedAt) ∧
      apply (created startedAt) (move .running 1 []) = .ok (claimed startedAt) ∧ Builds startedAt) ∧
    apply (claimed early) (built early) =
      .error (stateError .errInvalidWorkflow .running .suspended) ∧
    waiting.workflow.map (fun st => (st.node "u").status) = some .pending ∧
    (built second).workflow.map validateWorkflowState = some (.ok ()) := by
  decide +kernel

theorem definition_eq : newWorkflowDefinition definitionSpec = .ok definition := evaluated.1

variable {startedAt : Time}

theorem claimed_run (h : startedAt ∈ [second, early]) :
    ∃ history, (parentMachine Unit definition).Run history (claimed startedAt) := by
  obtain ⟨hnew, hclaim, -⟩ := evaluated.2.2.1 startedAt h
  have hinit : (parentMachine Unit definition).Run [] (created startedAt) :=
    .init ⟨"parent", [], startedAt, hnew⟩
  exact hinit.next (.move (move .running 1 [])) rfl (parentExec_move Unit hclaim)

theorem passInput_may {history : List (Event Snapshot (ParentInput Unit) ParentOutput)}
    (hrun : (parentMachine Unit definition).Run history (claimed startedAt)) :
    ParentMay definition (claimed startedAt) (.pass passInput) := by
  refine pass_may (newWorkflowDefinition_ok definition_eq) hrun (.inl rfl) (fun d' hresolve _ => ?_)
    rfl rfl
  exact Option.some.inj (hresolve.symm.trans evaluated.2.1)

theorem builds (h : startedAt ∈ [second, early]) : Builds startedAt :=
  (evaluated.2.2.1 startedAt h).2.2

theorem waiting_run : ∃ history, (parentMachine Unit definition).Run history waiting := by
  obtain ⟨history, hrun⟩ := claimed_run (List.mem_cons_self : second ∈ [second, early])
  exact hrun.next (.pass passInput) (passInput_may hrun) rfl

/-- **A pass builds a transition that `apply` rejects.** The timer is armed for the zero time, which
`validateWorkflowState` reads as a missing deadline. -/
theorem zeroDeadline_rejected :
    newWorkflowDefinition definitionSpec = .ok definition ∧
    (∃ history, (parentMachine Unit definition).Run history (claimed early) ∧
      (parentMachine Unit definition).may history (claimed early) (.pass passInput)) ∧
    (reconcileTransition runtime passInput.orders (claimed early)
      (newWorkflowSnapshotState definition early) Time.zero ()).1 = .ok (built early) ∧
    apply (claimed early) (built early) =
      .error (stateError .errInvalidWorkflow .running .suspended) := by
  have hearly : early ∈ [second, early] := List.mem_cons_of_mem _ (List.mem_singleton_self _)
  obtain ⟨history, hrun⟩ := claimed_run hearly
  exact ⟨definition_eq, ⟨history, hrun, passInput_may hrun⟩, builds hearly, evaluated.2.2.2.1⟩

/-- After the pass the last node is pending, and the parent has a command or waits. -/
theorem twoTimers_never_deadlock :
    ∃ history, (parentMachine Unit definition).Run history waiting ∧
      ∃ state, waiting.workflow = some state ∧ (state.node "u").status = .pending ∧
        ((∃ command commands,
          planWorkflowForParent definition state waiting.callID = .ok (command :: commands)) ∨
        ∃ id node, state.nodes.lookup id = some node ∧ node.status = .waiting ∧
          (node.kind = .timer ∨ node.kind = .child)) := by
  obtain ⟨history, hrun⟩ := waiting_run
  obtain ⟨-, state, hstate, -, hprogress⟩ := workflow_never_deadlocks definition_eq hrun
  have hpending := evaluated.2.2.2.2.1
  rw [hstate] at hpending
  have hpending : (state.node "u").status = .pending := Option.some.inj hpending
  exact ⟨history, hrun, state, hstate, hpending, hprogress
    ⟨_, List.mem_of_getLast? rfl, by
      decide, (congrArg WorkflowNodeStatus.terminal hpending).trans rfl⟩⟩

/-- Created after the zero time, the parent commits its first pass. -/
theorem twoTimers_accepted :
    (reconcileTransition runtime passInput.orders (claimed second)
      (newWorkflowSnapshotState definition second) Time.zero ()).1 = .ok (built second) ∧
    ∃ next, apply (claimed second) (built second) = .ok next := by
  have hsecond : second ∈ [second, early] := List.mem_cons_self
  obtain ⟨history, hrun⟩ := claimed_run hsecond
  obtain ⟨-, -, haccepted⟩ := workflow_order definition_eq hrun
  have hok : ∀ next, (built second).workflow = some next → ProperDeadlines next := by
    rintro next hnext
    have hvalid := evaluated.2.2.2.2.2
    rw [hnext] at hvalid
    exact (validateWorkflowState_ok_iff.mp (Option.some.inj hvalid)).properDeadlines
  refine ⟨builds hsecond, (haccepted passInput _ (passInput_may hrun) rfl _ _
    (Prod.ext (builds hsecond) rfl)).mpr ⟨by decide, by decide, hok⟩⟩

end TwoTimers

end Keelith.Continuation
