import Keelith.Continuation.Workflow.PassLemmas
import Keelith.Lib.Run

/-!
# Parents over whole runs

The stored snapshot of one workflow parent as a machine (`parentMachine`): the store's own changes
(claims, signals, cancelations, expiries, prunes) and the passes of any runtimes, in any order. Two
passes of a run share nothing but the snapshot: each has its own runtime, world and map orders, so
handlers and children may answer differently every time. A pass that fails, or whose result the
store rejects, leaves the snapshot as it is.

* `ParentInv`: the invariant; `ParentEffect`: what one input does.
* `parent_of_run`: every parent that a run reaches keeps the invariant.
* `workflow_progress`: an unfinished parent has a command or waits.
-/

namespace Keelith.Continuation

/-! ## The machine -/

/-- One pass of a runtime over the parent; `committed`: the store accepts the result. -/
structure PassInput (σ : Type) where
  runtime : WorkflowRuntime σ
  orders : MapOrders
  wake : Time
  world : σ
  committed : Bool

/-- What may happen to a stored parent. -/
inductive ParentInput (σ : Type) where
  /-- A claim, a signal, a cancelation or an expiry. -/
  | move (transition : Transition)
  | prune (floor : UInt64)
  | pass (input : PassInput σ)

/-- The result of an input and the nodes that it started. -/
structure ParentOutput where
  result : Except Error Snapshot
  issued : List Issue

/-- The snapshot after an operation with this result. -/
def settle (s : Snapshot) : Except Error Snapshot → Snapshot
  | .ok next => next
  | .error _ => s

/-- The input executed on the stored snapshot `s`. -/
def parentExec {σ : Type} (s : Snapshot) : ParentInput σ → ParentOutput × Snapshot
  | .move transition => (⟨apply s transition, []⟩, settle s (apply s transition))
  | .prune floor => (⟨pruneSnapshot s floor, []⟩, settle s (pruneSnapshot s floor))
  | .pass input =>
    match s.workflow with
    | none => (⟨.ok s, []⟩, s)
    | some state =>
      let (result, p) :=
        reconcile input.runtime input.orders s state input.wake input.world
      (⟨result, p.issued⟩, if input.committed then settle s result else s)

/-- The inputs that a parent of `d` meets in the snapshot `s`. Only passes write workflow states; a
pass runs on a claimed call, with the definition that the fingerprint names. -/
def ParentMay {σ : Type} (d : WorkflowDefinition) (s : Snapshot) : ParentInput σ → Prop
  | .move transition => transition.workflow = none
  | .prune _ => True
  | .pass input => (s.status = .running ∨ s.status = .cancelRequested) ∧
      input.runtime.registry.Identifies d ∧
      ∀ state, s.workflow = some state → Map.Ranges input.orders.children state.nodes ∧
        Map.Ranges input.orders.wake state.nodes

/-- The machine of a parent of `d`. -/
def parentMachine (σ : Type) (d : WorkflowDefinition) :
    Machine Snapshot (ParentInput σ) ParentOutput where
  init s := ∃ callID input startedAt, newWorkflowSnapshot callID d input startedAt = .ok s
  exec := parentExec
  may _ s i := ParentMay d s i

theorem parentExec_move (σ : Type) {s next : Snapshot} {t : Transition}
    (ha : apply s t = .ok next) : (parentExec s (.move t : ParentInput σ)).2 = next := by
  simp only [parentExec, ha, settle]

/-! ## Transitions of a pass -/

section

variable {σ : Type} {rt : WorkflowRuntime σ} {d : WorkflowDefinition} {current : Snapshot}
  {state : WorkflowSnapshotState} {t : Transition}

/-- Nodes are skipped together, when the parent ends. -/
def SkippedTogether (d : WorkflowDefinition) (state : WorkflowSnapshotState) : Prop :=
  (∀ spec ∈ d.nodes, (state.node spec.id).status ≠ .skipped) ∨
    ∀ spec ∈ d.nodes, (state.node spec.id).status.terminal = true

variable {parent : CallID}

theorem SkippedTogether.reaches (hd : DefinitionOk d) (h : StateInv d parent state)
    (hskipped : SkippedTogether d state) {last : WorkflowSnapshotState}
    (hreaches : Reaches rt d parent state last) : SkippedTogether d last := by
  rcases hskipped with hunskipped | hended
  · exact .inl fun spec hspec => hreaches.unskipped (hunskipped spec hspec)
  · refine .inr fun spec hspec => ?_
    rw [((hreaches.evolves hd h).2.node spec.id).ended (hended spec hspec)]
    exact hended spec hspec

theorem skipNonTerminalWorkflowNodes_inv (h : StateInv d parent state) :
    StateInv d parent (skipNonTerminalWorkflowNodes state) ∧
      StateEvolves state (skipNonTerminalWorkflowNodes state) ∧
      ∀ spec ∈ d.nodes,
        (skipNonTerminalWorkflowNodes state).node spec.id = skipNode (state.node spec.id) := by
  obtain ⟨hinv, hev⟩ := h.mapNodes (f := skipNode) fun spec _ hnode =>
    ⟨(skipNode_evolves hnode).1, (skipNode_evolves hnode).2.1⟩
  exact ⟨hinv, hev, fun _ => h.node_mapValues skipNode⟩

@[simp] theorem moveWorkflow_fields (status : Status) (fence : UInt64) (readyAt : Time)
    (frames : List Frame) : (moveWorkflow status fence state readyAt frames).workflow = some state ∧
      (moveWorkflow status fence state readyAt frames).status = status ∧
      (moveWorkflow status fence state readyAt frames).command = .none ∧
      (moveWorkflow status fence state readyAt frames).fence = fence ∧
      (moveWorkflow status fence state readyAt frames).frames = frames := by
  unfold moveWorkflow
  split <;> exact ⟨rfl, rfl, rfl, rfl, rfl⟩

/-- A wake time that is its own normal form fits. -/
theorem badTimer_moveWorkflow {status : Status} {fence : UInt64} {readyAt : Time}
    {frames : List Frame} (h : normalizeReadyAt readyAt = readyAt) :
    badTimer (moveWorkflow status fence state readyAt frames) = false := by
  unfold moveWorkflow
  split
  · rename_i hs
    simp [badTimer, h, hs.1, hs.2, move]
  · simp [badTimer, move, Time.zero, Time.isZero]

/-- The workflow state that a pass writes. -/
theorem Builds.evolves (hd : DefinitionOk d) (h : StateInv d current.callID state)
    (hskipped : SkippedTogether d state) (hb : Builds rt d current state t) :
    ∃ next, t.workflow = some next ∧ StateInv d current.callID next ∧ StateEvolves state next ∧
      SkippedTogether d next := by
  have hskip : ∀ last, StateInv d current.callID last →
      SkippedTogether d (skipNonTerminalWorkflowNodes last) := by
    intro last hlast
    refine .inr fun spec hspec => ?_
    rw [(skipNonTerminalWorkflowNodes_inv hlast).2.2 spec hspec]
    exact (skipNode_evolves (hlast.node spec hspec)).2.2
  cases hb with
  | cancel =>
    obtain ⟨hinv, hev, -⟩ := skipNonTerminalWorkflowNodes_inv h
    exact ⟨_, by simp, hinv, hev, hskip state h⟩
  | @finish last failed frames live reaches =>
    obtain ⟨hlast, hevLast⟩ := reaches.evolves hd h
    obtain ⟨hinv, hev, -⟩ := skipNonTerminalWorkflowNodes_inv hlast
    exact ⟨_, by simp, hinv, hevLast.trans hev, hskip last hlast⟩
  | @suspend last wakeAt frames live reaches =>
    obtain ⟨hlast, hev⟩ := reaches.evolves hd h
    exact ⟨last, by simp, hlast, hev, hskipped.reaches hd h reaches⟩

/-- What `apply` checks of a transition apart from its workflow state. -/
structure Fits (current : Snapshot) (t : Transition) : Prop where
  command : t.command = .none
  fence : t.fence = current.fence
  status : t.status.valid = true
  notRunning : t.status ≠ .running
  allowed : allowedTransition current.status t.status .none = true
  timer : badTimer t = false
  frames : ∀ frame ∈ t.frames, Appendable frame

theorem Builds.fits (hstatus : current.status = .running ∨ current.status = .cancelRequested)
    (hb : Builds rt d current state t) : Fits current t := by
  have hending : ∀ kind : FrameKind, kind.valid = true → kind ≠ .accepted →
      Appendable ⟨0, kind, []⟩ := fun kind hv hne => ⟨rfl, hv, hne, Nat.zero_le _⟩
  cases hb with
  | cancel canceled =>
    refine ⟨by simp, by simp, by rfl, by simp, by simp [canceled]; rfl,
      badTimer_moveWorkflow rfl, fun f hf => ?_⟩
    simp only [moveWorkflow_fields, List.mem_singleton] at hf
    rw [hf]
    exact hending _ rfl nofun
  | @finish last failed frames live reaches appendable =>
    have hrunning := hstatus.resolve_right live
    refine ⟨by simp, by simp, ?_, ?_, ?_, badTimer_moveWorkflow rfl, fun f hf => ?_⟩
    · cases failed <;> rfl
    · cases failed <;> exact nofun
    · simp only [hrunning]
      cases failed <;> rfl
    · simp only [moveWorkflow_fields, List.mem_append, List.mem_singleton] at hf
      rcases hf with hf | rfl
      · exact appendable f hf
      · cases failed <;> exact hending _ rfl nofun
  | @suspend last wakeAt frames live reaches appendable outcome normal =>
    have hrunning := hstatus.resolve_right live
    refine ⟨by simp, by simp, by simp; rfl, by simp, by simp [hrunning]; rfl,
      badTimer_moveWorkflow normal, fun f hf => ?_⟩
    simp only [moveWorkflow_fields] at hf
    exact appendable f hf

/-- **When `apply` accepts the transition of a pass.** -/
theorem Builds.accepted_iff (hd : DefinitionOk d) (hok : SnapshotOk current)
    (hworkflow : current.workflow = some state) (h : StateInv d current.callID state)
    (hskipped : SkippedTogether d state)
    (hstatus : current.status = .running ∨ current.status = .cancelRequested)
    (hb : Builds rt d current state t) :
    (∃ next, apply current t = .ok next) ↔
      current.revision ≠ maxUint64 ∧ current.sequence.toNat + t.frames.length < 2 ^ 64 ∧
        ∀ next, t.workflow = some next → ProperDeadlines next := by
  have hfits := hb.fits hstatus
  obtain ⟨last, hlast, hinv, hev, -⟩ := hb.evolves hd h hskipped
  have hfence : nextFence current t = current.fence := by
    unfold nextFence
    rw [hfits.fence]
    split <;> rfl
  constructor
  · rintro ⟨next, hnext⟩
    obtain ⟨-, ht, ⟨hreplay, -⟩ | ⟨-, hadvances, -⟩⟩ := apply_ok_iff.mp hnext
    · exact absurd hfits.command hreplay.command
    refine ⟨hadvances.revision, hadvances.sequence, fun state' hstate' => ?_⟩
    have hstep := ht.workflow
    simp only [badWorkflow, hstate', hworkflow, Bool.not_eq_false', isOk_iff,
      validateWorkflowSuccessor_ok_iff] at hstep
    exact hstep.nextOk.properDeadlines
  · rintro ⟨hrevision, hsequence, hdeadlines⟩
    have hstep := workflowStep_of_evolves hd h hinv hev (hok.workflow state hworkflow)
      (hdeadlines last hlast)
    refine ⟨_, apply_ok_iff.mpr ⟨hok, ⟨hfits.status, hfits.timer, ?_⟩,
      .inr ⟨.inl hfits.command, ?_, rfl⟩⟩⟩
    · simpa [badWorkflow, hlast, hworkflow, isOk_iff,
        validateWorkflowSuccessor_ok_iff] using hstep
    · refine ⟨?_, by rw [hfits.command]; exact hfits.allowed, hrevision,
        by rw [hfence]; exact UInt64.le_refl _, fun hr => absurd hr hfits.notRunning, hfits.frames,
        hsequence⟩
      rcases hstatus with hs | hs <;> rw [hs] <;> rfl

end

/-! ## The invariant -/

/-- The invariant of a stored parent with the workflow `state`. -/
structure ParentInv (d : WorkflowDefinition) (s : Snapshot) (state : WorkflowSnapshotState) :
    Prop where
  ok : SnapshotOk s
  operation : s.operation = d.operation
  workflow : s.workflow = some state
  skipped : SkippedTogether d state
  nodes : StateInv d s.callID state

/-- What an input does to the parent. -/
inductive ParentEffect {σ : Type} (d : WorkflowDefinition) (s : Snapshot)
    (state : WorkflowSnapshotState) : ParentInput σ → Snapshot → Prop
  | stay {i} : ParentEffect d s state i s
  | move {t} (workflow : t.workflow = none) (accepted : apply s t = .ok (advanced s t)) :
      ParentEffect d s state (.move t) (advanced s t)
  | prune {floor next} (pruned : pruneSnapshot s floor = .ok next) :
      ParentEffect d s state (.prune floor) next
  | pass {input t} (builds : Builds input.runtime d s state t)
      (accepted : apply s t = .ok (advanced s t)) :
      ParentEffect d s state (.pass input) (advanced s t)

section

variable {σ : Type} {d : WorkflowDefinition} {s : Snapshot} {state : WorkflowSnapshotState}

theorem settle_apply (s : Snapshot) (t : Transition) : settle s (apply s t) = s ∨
    (settle s (apply s t) = advanced s t ∧ apply s t = .ok (advanced s t)) := by
  cases ha : apply s t with
  | error err => exact .inl rfl
  | ok next =>
    obtain ⟨-, -, ⟨-, rfl⟩ | ⟨-, -, rfl⟩⟩ := apply_ok_iff.mp ha
    · exact .inl rfl
    · exact .inr ⟨rfl, rfl⟩

section

variable (hd : DefinitionOk d)

include hd

variable {i : ParentInput σ} {callID : CallID} {input : List UInt8} {startedAt : Time}
  {history : List (Event Snapshot (ParentInput σ) ParentOutput)}

/-- **What an input does and starts.** -/
theorem parentExec_effect (h : ParentInv d s state) (hmay : ParentMay d s i) :
    ParentEffect d s state i (parentExec s i).2 ∧
      ∀ issue ∈ (parentExec s i).1.issued, Startable d issue := by
  cases i with
  | move t =>
    refine ⟨?_, nofun⟩
    show ParentEffect d s state _ (settle s (apply s t))
    rcases settle_apply s t with hs | ⟨hs, ha⟩
    · rw [hs]
      exact .stay
    · rw [hs]
      exact .move hmay ha
  | prune floor =>
    refine ⟨?_, nofun⟩
    cases hp : pruneSnapshot s floor with
    | error err =>
      simp only [parentExec, hp]
      exact .stay
    | ok next =>
      simp only [parentExec, hp]
      exact .prune hp
  | pass input =>
    obtain ⟨-, hregistry, -⟩ := hmay
    obtain ⟨hissued, hbuilds⟩ := reconcileTransition_ok input.runtime hd h.operation hregistry
      h.nodes input.orders input.wake input.world
    simp only [parentExec, h.workflow, reconcile]
    generalize reconcileTransition input.runtime input.orders s state input.wake input.world = built
      at hissued hbuilds ⊢
    obtain ⟨result, p⟩ := built
    cases result with
    | error err => exact ⟨by cases input.committed <;> exact .stay, hissued⟩
    | ok t =>
      refine ⟨?_, hissued⟩
      cases input.committed with
      | false => exact .stay
      | true =>
        rcases settle_apply s t with hs | ⟨hs, ha⟩
        · rw [hs]
          exact .stay
        · rw [hs]
          exact .pass (hbuilds t rfl) ha

/-- The parent after an input. -/
theorem ParentEffect.inv (h : ParentInv d s state)
    {next : Snapshot} (heffect : ParentEffect d s state i next) :
    next.callID = s.callID ∧ ∃ state', ParentInv d next state' ∧ StateEvolves state state' := by
  cases heffect with
  | stay => exact ⟨rfl, state, h, .refl _⟩
  | move workflow accepted =>
    refine ⟨rfl, state, ⟨apply_valid accepted, h.operation, ?_, h.skipped, h.nodes⟩, .refl _⟩
    simp [advanced, workflow, h.workflow]
  | prune pruned =>
    obtain ⟨-, hok, floor', n, rfl⟩ := pruneSnapshot_ok pruned
    exact ⟨rfl, state, { h with ok := hok }, .refl _⟩
  | pass builds accepted =>
    obtain ⟨last, hlast, hinv, hev, hskipped⟩ := builds.evolves hd h.nodes h.skipped
    refine ⟨rfl, last, ⟨apply_valid accepted, h.operation, ?_, hskipped, hinv⟩, hev⟩
    simp [advanced, hlast]

/-! ## New parents -/

theorem lookup_newNodes (startedAt : Time) :
    (∀ spec ∈ d.nodes, (newWorkflowSnapshotState d startedAt).nodes.lookup spec.id =
      some { id := spec.id, kind := spec.kind, status := .pending }) ∧
    ∀ id ∉ d.nodes.map WorkflowNodeSpec.id,
      (newWorkflowSnapshotState d startedAt).nodes.lookup id = none :=
  Map.lookup_foldl_insert hd.nodup ∅

theorem newWorkflowSnapshot_pending (h : newWorkflowSnapshot callID d input startedAt = .ok s) :
    s.status = .accepted ∧ ∀ spec ∈ d.nodes,
      ((newWorkflowSnapshotState d startedAt).node spec.id).status = .pending := by
  refine ⟨?_, fun spec hspec => ?_⟩
  · unfold newWorkflowSnapshot newSnapshotWithInput newSnapshot at h
    grind
  · rw [node_of_lookup ((lookup_newNodes hd startedAt).1 spec hspec)]

theorem newWorkflowSnapshot_inv (h : newWorkflowSnapshot callID d input startedAt = .ok s) :
    ParentInv d s (newWorkflowSnapshotState d startedAt) := by
  unfold newWorkflowSnapshot at h
  split at h
  · cases h
  split at h
  · cases h
  rename_i base hbase
  dsimp only at h
  split at h
  · cases h
  rename_i hvalid
  obtain rfl := Except.ok.inj h
  have hok := validateSnapshot_ok_iff.mp hvalid
  obtain ⟨hmem, hother⟩ := lookup_newNodes hd startedAt
  have hnode : ∀ spec ∈ d.nodes, (newWorkflowSnapshotState d startedAt).node spec.id =
      { id := spec.id, kind := spec.kind, status := .pending } :=
    fun spec hspec => node_of_lookup (hmem spec hspec)
  refine ⟨hok, ?_, rfl, .inl fun spec hspec => ?_, ⟨rfl, rfl, (hok.workflow _ rfl).started,
    (hok.workflow _ rfl).startedNormal, fun id => ?_, fun spec hspec => ?_⟩⟩
  · unfold newSnapshotWithInput newSnapshot at hbase
    grind
  · rw [hnode spec hspec]
    simp
  · constructor
    · intro hin
      by_contra hnot
      rw [← Finmap.lookup_isSome] at hin
      rw [hother id hnot] at hin
      cases hin
    · intro hin
      obtain ⟨spec, hspec, rfl⟩ := List.mem_map.mp hin
      exact Map.mem_of_lookup (hmem spec hspec)
  · rw [hnode spec hspec]
    exact ⟨rfl, rfl, ⟨rfl, by simp⟩, .inl rfl, fun _ => ⟨rfl, rfl, rfl⟩, .inl rfl,
      .inl rfl, by simp,
      .inl rfl⟩

/-! ## Runs -/

/-- What holds after a run: the parent keeps its invariant, its nodes have evolved from those of
every earlier snapshot, and only startable nodes were started. -/
structure RunInv (d : WorkflowDefinition)
    (history : List (Event Snapshot (ParentInput σ) ParentOutput))
    (s : Snapshot) (state : WorkflowSnapshotState) : Prop where
  parent : ParentInv d s state
  evolves : ∀ e ∈ history, ∃ old, e.pre.workflow = some old ∧ StateEvolves old state
  issued : ∀ e ∈ history, ∀ issue ∈ e.output.issued, Startable d issue

/-- **Every run keeps the invariant.** -/
theorem parent_of_run (h : (parentMachine σ d).Run history s) :
    ∃ state, RunInv d history s state := by
  refine h.invariant (I := fun history s => ∃ state, RunInv d history s state) ?_ ?_
  · rintro s ⟨callID, input, startedAt, hnew⟩
    exact ⟨_, newWorkflowSnapshot_inv hd hnew, by simp, by simp⟩
  · rintro history s i ⟨state, hinv⟩ hmay
    obtain ⟨heffect, hissued⟩ := parentExec_effect hd hinv.parent hmay
    obtain ⟨-, next, hnext, hev⟩ := heffect.inv hd hinv.parent
    refine ⟨next, hnext, forall_mem_snoc.mpr ⟨fun e he => ?_, state, hinv.parent.workflow, hev⟩,
      forall_mem_snoc.mpr ⟨hinv.issued, hissued⟩⟩
    obtain ⟨old, hold, hevOld⟩ := hinv.evolves e he
    exact ⟨old, hold, hevOld.trans hev⟩

/-- A pass that ranges over the nodes in the order of the definition. -/
theorem pass_may (hrun : (parentMachine σ d).Run history s) {input : PassInput σ}
    (hstatus : s.status = .running ∨ s.status = .cancelRequested)
    (hregistry : input.runtime.registry.Identifies d)
    (hchildren : input.orders.children = d.nodes.map WorkflowNodeSpec.id)
    (hwake : input.orders.wake = d.nodes.map WorkflowNodeSpec.id) :
    ParentMay d s (.pass input) := by
  obtain ⟨state, hinv⟩ := parent_of_run hd hrun
  refine ⟨hstatus, hregistry, fun st hst => ?_⟩
  obtain rfl : state = st := Option.mem_unique hinv.parent.workflow hst
  have hranges : Map.Ranges (d.nodes.map WorkflowNodeSpec.id) state.nodes :=
    ⟨hd.nodup, fun id => (hinv.parent.nodes.keys id).symm⟩
  rw [hchildren, hwake]
  exact ⟨hranges, hranges⟩

/-! ## Progress -/

/-- Planning an unfinished parent does not fail. -/
theorem planWorkflowForParent_isOk (h : ParentInv d s state) :
    ∃ commands, planWorkflowForParent d state s.callID = .ok commands ∧
      ∀ spec ∈ d.nodes, ∀ command, planNode state s.callID spec = .ok (some command) →
        command ∈ commands := by
  have hvalid : (validateWorkflowState (some state)).isOk = true := by
    rw [isOk_iff, validateWorkflowState_ok_iff]
    exact h.ok.workflow state h.workflow
  obtain ⟨commands, hplan, hmem⟩ := planNodes_isOk
    fun spec hspec => planNode_isOk (hd.node spec hspec) h.ok.callID (h.nodes.lookup hspec)
      (h.nodes.node spec hspec).kind (h.nodes.node spec hspec).next_attempt
  refine ⟨commands, ?_, hmem⟩
  unfold planWorkflowForParent
  simp [hvalid, h.nodes.version, h.nodes.fingerprint, h.nodes.size hd, hplan]

/-- **An unfinished parent has a command, or a timer or a child that it waits for.** -/
theorem workflow_progress (h : ParentInv d s state)
    (hlive : ∃ spec ∈ d.nodes, (state.node spec.id).status.terminal = false) :
    (∃ command commands, planWorkflowForParent d state s.callID = .ok (command :: commands)) ∨
      ∃ id node, state.nodes.lookup id = some node ∧ node.status = .waiting ∧
        (node.kind = .timer ∨ node.kind = .child) := by
  -- the first node that has not ended: all its dependencies have
  obtain ⟨spec, hspec, hnot, hdeps⟩ := hd.ordered.first
    (P := fun spec => (state.node spec.id).status.terminal = true) (by simpa using hlive)
  have hunskipped := h.skipped.resolve_right fun hended => hnot (hended spec hspec)
  have hinv := h.nodes.node spec hspec
  rcases hinv.status_cases with hpending | hwaiting | hended
  · have hsettled : ∀ id ∈ spec.dependsOn,
        (state.node id).status = .succeeded ∨ (state.node id).status = .failed := by
      intro id hid
      obtain ⟨dep, hdep, rfl, hterminal⟩ := hdeps id hid
      rcases terminal_iff.mp hterminal with hs | hs | hs
      · exact .inl hs
      · exact .inr hs
      · exact absurd hs (hunskipped dep hdep)
    obtain ⟨command, hcommand⟩ := planNode_ready (hd.node spec hspec) h.ok.callID
      (h.nodes.lookup hspec) hinv.kind hpending hinv.next_attempt hsettled
    obtain ⟨commands, hplan, hmem⟩ := planWorkflowForParent_isOk hd h
    cases commands with
    | nil => exact absurd (hmem spec hspec command hcommand) List.not_mem_nil
    | cons first rest => exact .inl ⟨first, rest, hplan⟩
  · refine .inr ⟨spec.id, _, h.nodes.lookup hspec, hwaiting, ?_⟩
    rw [hinv.kind]
    exact (hinv.waiting hwaiting).imp And.left And.left
  · exact absurd hended hnot

end

end

end Keelith.Continuation
