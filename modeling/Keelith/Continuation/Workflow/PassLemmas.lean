import Keelith.Continuation.Workflow.CommandLemmas
import Mathlib.Logic.Relation

/-!
# What a pass does

* `PassStep`: the changes of a workflow state in a pass: a child is observed, timers fire, a planned
  command is executed. They keep the invariant (`PassStep.evolves`).
* `PassOk`: what holds of a part of a pass, also of one that fails; parts compose (`PassOk.trans`).
* `reconcileLoop_ok`: the loop of `reconcile`. A command of a plan is still planned when its turn
  comes, as the commands before it change other nodes and end them for good.
* `Builds`, `reconcileTransition_ok`: the transitions that a pass builds.
-/

namespace Keelith.Continuation

variable {σ : Type} {rt : WorkflowRuntime σ}

/-! ## Steps of a workflow state -/

/-- One change of the workflow state of `parent` in a pass. -/
inductive PassStep (rt : WorkflowRuntime σ) (d : WorkflowDefinition) (parent : CallID)
    (state : WorkflowSnapshotState) : WorkflowSnapshotState → Prop
  | observe {spec status} (mem : spec ∈ d.nodes) (kind : spec.kind = .child)
      (waiting : (state.node spec.id).status = .waiting)
      (ends : ChildEnds rt (state.node spec.id).childCallID status) :
      PassStep rt d parent state (state.setNode (observedNode (state.node spec.id) status))
  | fire (wake : Time) : PassStep rt d parent state
      { state with nodes := state.nodes.mapValues fun _ => fireTimer wake }
  | execute {spec command node'} (mem : spec ∈ d.nodes)
      (pending : (state.node spec.id).status = .pending)
      (planned : Planned state parent spec command)
      (executes : Executes rt parent command (state.node spec.id) node') :
      PassStep rt d parent state (state.setNode node')

section

variable {d : WorkflowDefinition} {parent : CallID} {state state' : WorkflowSnapshotState}

variable {spec : WorkflowNodeSpec} {command : WorkflowCommand} {node node' : WorkflowNodeState}
  {id : String}

/-- What holds of every node and of the new one holds after it is written. -/
theorem DefinitionOk.forall_setNode (hd : DefinitionOk d)
    {P : WorkflowNodeSpec → WorkflowNodeState → Prop}
    (hspec : spec ∈ d.nodes) (hid : node'.id = spec.id)
    (h : ∀ other ∈ d.nodes, P other (state.node other.id))
    (hnode : P spec node') : ∀ other ∈ d.nodes, P other ((state.setNode node').node other.id) := by
  intro other hother
  rw [node_setNode]
  split
  · rename_i heq
    obtain rfl : other = spec := List.inj_on_of_nodup_map hd.nodup hother hspec (heq.trans hid)
    exact hnode
  · exact h other hother

/-- Writing one node keeps the invariant if the node does. -/
theorem StateInv.setNode (hd : DefinitionOk d) (h : StateInv d parent state)
    (hspec : spec ∈ d.nodes) (hinv : NodeInv state.startedAt parent spec node')
    (hev : Evolves (state.node spec.id) node') :
    StateInv d parent (state.setNode node') ∧ StateEvolves state (state.setNode node') := by
  have hmem : node'.id ∈ state.nodes := by
    rw [hinv.id]
    exact (h.keys _).mpr (List.mem_map_of_mem hspec)
  have hkeys : ∀ id, id ∈ (state.setNode node').nodes ↔ id ∈ state.nodes := by
    intro id
    rw [← Finmap.mem_keys, ← Finmap.mem_keys, WorkflowSnapshotState.setNode,
      Map.keys_insert_of_mem hmem]
  refine ⟨{ h with
      keys := fun id => (hkeys id).trans (h.keys id)
      node := hd.forall_setNode hspec hinv.id h.node hinv }, rfl, rfl, rfl, hkeys, fun id => ?_⟩
  rw [node_setNode]
  split
  · rename_i hid
    rw [hid, hinv.id]
    exact hev
  · exact .refl _

theorem StateInv.node_mapValues (h : StateInv d parent state)
    (f : WorkflowNodeState → WorkflowNodeState)
    (hspec : spec ∈ d.nodes) : WorkflowSnapshotState.node
      { state with nodes := state.nodes.mapValues fun _ => f } spec.id =
        f (state.node spec.id) := by
  apply node_of_lookup
  rw [Map.lookup_mapValues, h.lookup hspec, Option.map_some]

/-- A change of every node keeps the invariant if it does at each. -/
theorem StateInv.mapNodes (h : StateInv d parent state) {f : WorkflowNodeState → WorkflowNodeState}
    (hf : ∀ spec ∈ d.nodes, NodeInv state.startedAt parent spec (state.node spec.id) →
      NodeInv state.startedAt parent spec (f (state.node spec.id)) ∧
        Evolves (state.node spec.id) (f (state.node spec.id))) :
    StateInv d parent { state with nodes := state.nodes.mapValues fun _ => f } ∧
      StateEvolves state { state with nodes := state.nodes.mapValues fun _ => f } := by
  have hkeys : ∀ id, id ∈ state.nodes.mapValues (fun _ => f) ↔ id ∈ state.nodes := by
    intro id
    rw [Finmap.mem_iff, Finmap.mem_iff]
    simp
  refine ⟨{ h with
      keys := fun id => (hkeys id).trans (h.keys id)
      node := fun spec hspec => ?_ }, rfl, rfl, rfl, hkeys, fun id => ?_⟩
  · rw [h.node_mapValues f hspec]
    exact (hf spec hspec (h.node spec hspec)).1
  · by_cases hid : id ∈ d.nodes.map WorkflowNodeSpec.id
    · obtain ⟨spec, hspec, rfl⟩ := List.mem_map.mp hid
      rw [h.node_mapValues f hspec]
      exact (hf spec hspec (h.node spec hspec)).2
    · have hnone : state.nodes.lookup id = none :=
        Finmap.lookup_eq_none.mpr fun hm => hid ((h.keys id).mp hm)
      unfold WorkflowSnapshotState.node
      rw [Map.lookup_mapValues, hnone]
      exact .refl _

theorem JoinDecided.terminal {policy : WorkflowJoinPolicy} {states : List WorkflowNodeStatus}
    {status : WorkflowNodeStatus} (h : JoinDecided policy states status) :
    status = .succeeded ∨ status = .failed := by
  cases h with
  | allFailed | anyFailed => exact .inr rfl
  | allSucceeded | anySucceeded => exact .inl rfl

theorem Planned.completeStatus (h : Planned state parent spec command) {status : WorkflowNodeStatus}
    (hstatus : command.completeStatus = some status) : status = .succeeded ∨ status = .failed := by
  cases h with
  | join kind decided =>
    cases hstatus
    exact decided.terminal
  | failFast => exact .inr (Option.some.inj hstatus).symm
  | start kind met starts =>
    rw [starts.complete] at hstatus
    cases hstatus

theorem Planned.starts
    (h : Planned state parent spec command) (hnone : command.completeStatus = none) :
    DependenciesMet state spec ∧ Starts state parent spec command := by
  cases h with
  | join | failFast => cases hnone
  | start kind met starts => exact ⟨met, starts⟩

theorem HandlerEnds.status {nodeID : String} {status : WorkflowNodeStatus} {failureClass : String}
    (h : HandlerEnds rt parent nodeID command status failureClass) :
    (status = .succeeded ∨ status = .failed) ∧ (failureClass = "" ∨ (status = .failed ∧
      failureClass.utf8ByteSize ≤ maxWorkflowFailureSize ∧ validIdentity failureClass = true)) := by
  cases h with
  | error => exact ⟨.inr rfl, .inr ⟨rfl, by decide, by decide⟩⟩
  | @result _ _ _ result _ _ valid =>
    simp only [validateWorkflowNodeResult, Bool.and_eq_true, Bool.or_eq_true, beq_iff_eq,
      decide_eq_true_eq, Bool.not_eq_true', Bool.and_eq_false_iff, beq_eq_false_iff_ne,
        bne_eq_false_iff_eq] at valid
    obtain ⟨⟨⟨hstatus, hsize⟩, hvalid⟩, hclean⟩ := valid
    refine ⟨hstatus, ?_⟩
    rcases hclean with hs | hempty
    · rcases hvalid with hempty | hvalid
      · exact .inl hempty
      · exact .inr ⟨hstatus.resolve_left hs, hsize, hvalid⟩
    · exact .inl hempty

/-- A pending node may become any node of its identity. -/
theorem NodeInv.evolves_of_pending {startedAt : Time} (h : NodeInv startedAt parent spec node)
    (hpending : node.status = .pending) (hid : node'.id = node.id)
    (hkind : node'.kind = node.kind) : Evolves node node' := by
  obtain ⟨hattempt, hchild, hready⟩ := h.pending hpending
  refine ⟨hid, hkind, fun ht => ?_, ?_, fun hc => absurd hchild hc, fun hr => ?_,
    fun _ => hpending, fun _ => .inl hpending⟩
  · rw [hpending] at ht
    cases ht
  · rw [hattempt]
    exact UInt32.zero_le
  · rw [hready] at hr
    cases hr

/-- The node that waits for its child, from a pending one. -/
theorem NodeInv.waitingNode (h : NodeInv state.startedAt parent spec (state.node spec.id))
    (hpending : (state.node spec.id).status = .pending)
    (hstarts : Starts state parent spec command) (hkind : command.kind = .child) :
    NodeInv state.startedAt parent spec (waitingNode (state.node spec.id) command) := by
  obtain ⟨hattempt, -, hready⟩ := h.pending hpending
  have hattempt' : command.attempt = 1 := by rw [hstarts.attempt, hattempt]; rfl
  have hchild : spec.kind = .child := hstarts.kind.symm.trans hkind
  have hderive := hstarts.child hchild
  have hne := ne_empty_of_validIdentity (validIdentity_of_derive hderive)
  rw [hattempt'] at hderive
  exact ⟨h.id, h.kind, ⟨rfl, nofun⟩, .inr hattempt', nofun, .inl hready, .inr ⟨hchild, hderive⟩,
    fun _ => .inr ⟨hchild, hne⟩, .inl (h.failure_live (by rw [hpending]; rfl))⟩

/-- A planned command keeps the invariant of its node. -/
theorem Executes.nodeInv (hexec : Executes rt parent command (state.node spec.id) node')
    (h : NodeInv state.startedAt parent spec (state.node spec.id))
    (hpending : (state.node spec.id).status = .pending)
    (hplanned : Planned state parent spec command) : NodeInv state.startedAt parent spec node' := by
  have hlive : (state.node spec.id).status.terminal = false := by rw [hpending]; rfl
  obtain ⟨hattempt, hchild, hready⟩ := h.pending hpending
  have hattempt' : Starts state parent spec command → command.attempt = 1 := by
    intro hstarts
    rw [hstarts.attempt, hattempt]
    rfl
  cases hexec with
  | @complete status hstatus =>
    rcases hplanned.completeStatus hstatus with rfl | rfl
    · exact (h.finish hlive .succeeded _ rfl (.inl (h.failure_live hlive))).1
    · exact (h.finish hlive .failed "DEPENDENCY_FAILED" rfl (.inr ⟨rfl, by decide, by decide⟩)).1
  | arm hnone kind =>
    obtain ⟨-, hstarts⟩ := hplanned.starts hnone
    have htimer : spec.kind = .timer := hstarts.kind.symm.trans kind
    exact ⟨h.id, h.kind, ⟨rfl, nofun⟩, .inr (hattempt' hstarts), nofun,
      .inr ⟨htimer, hstarts.timer htimer⟩, .inl hchild,
      fun _ => .inl ⟨htimer, hstarts.timer htimer⟩, .inl (h.failure_live hlive)⟩
  | wait hnone kind => exact h.waitingNode hpending (hplanned.starts hnone).2 kind
  | @observe status hnone kind ends =>
    exact (observedNode_evolves (h.waitingNode hpending (hplanned.starts hnone).2 kind)
      rfl status).1
  | @handle status failureClass hnone kind ends =>
    obtain ⟨-, hstarts⟩ := hplanned.starts hnone
    obtain ⟨hstatus, hfailure⟩ := ends.status
    have hterminal : status.terminal = true := by rcases hstatus with rfl | rfl <;> rfl
    obtain ⟨hfinish, -⟩ := h.finish hlive status failureClass hterminal hfailure
    refine { hfinish with attempt := .inr (hattempt' hstarts), pending := fun hp => ?_ }
    rw [show status = .pending from hp] at hterminal
    cases hterminal

theorem Executes.kind (h : Executes rt parent command node node') : node'.kind = node.kind := by
  cases h with
  | complete =>
    unfold completedNode
    split <;> rfl
  | observe =>
    unfold observedNode
    split <;> rfl
  | _ => rfl

/-- **A step of a pass keeps the invariant.** -/
theorem PassStep.evolves (hd : DefinitionOk d) (h : StateInv d parent state)
    (hstep : PassStep rt d parent state state') :
    StateInv d parent state' ∧ StateEvolves state state' := by
  cases hstep with
  | @observe spec status mem kind waiting ends =>
    obtain ⟨hinv, hev, -⟩ :=
      observedNode_evolves (h.node spec mem) (by rw [waiting]; rfl) status
    exact h.setNode hd mem hinv hev
  | fire wake => exact h.mapNodes fun spec _ hinv => fireTimer_evolves hinv wake
  | @execute spec command node' mem pending planned executes =>
    have hnode := h.node spec mem
    exact h.setNode hd mem (executes.nodeInv hnode pending planned)
      (hnode.evolves_of_pending pending executes.id executes.kind)

/-- A command skips no node. -/
theorem Executes.unskipped (h : Executes rt parent command node node')
    (hplanned : Planned state parent spec command) : node'.status ≠ .skipped := by
  cases h with
  | @complete status hstatus =>
    rcases hplanned.completeStatus hstatus with rfl | rfl <;> exact nofun
  | arm | wait => exact nofun
  | observe =>
    unfold observedNode
    split <;> exact nofun
  | @handle status _ _ _ ends =>
    rcases ends.status.1 with rfl | rfl <;> exact nofun

/-- A pass skips no node before it ends the parent. -/
theorem PassStep.unskipped (hstep : PassStep rt d parent state state')
    (h : (state.node id).status ≠ .skipped) : (state'.node id).status ≠ .skipped := by
  cases hstep with
  | observe =>
    rw [node_setNode]
    split
    · unfold observedNode
      split <;> exact nofun
    · exact h
  | fire wake =>
    cases hl : state.nodes.lookup id with
    | none =>
      unfold WorkflowSnapshotState.node
      rw [Map.lookup_mapValues, hl]
      exact nofun
    | some node =>
      rw [node_of_lookup (by simp [hl] : _ = some (fireTimer wake node))]
      rw [node_of_lookup hl] at h
      unfold fireTimer
      split
      · exact nofun
      · exact h
  | execute _ _ planned executes =>
    rw [node_setNode]
    split
    · exact executes.unskipped planned
    · exact h

/-- The states that steps of a pass lead to. -/
abbrev Reaches (rt : WorkflowRuntime σ) (d : WorkflowDefinition) (parent : CallID) :
    WorkflowSnapshotState → WorkflowSnapshotState → Prop :=
  Relation.ReflTransGen (PassStep rt d parent)

theorem Reaches.evolves (hd : DefinitionOk d) (h : StateInv d parent state)
    (hreaches : Reaches rt d parent state state') :
    StateInv d parent state' ∧ StateEvolves state state' := by
  induction hreaches with
  | refl => exact ⟨h, .refl _⟩
  | tail _ hstep ih =>
    obtain ⟨hinv, hev⟩ := hstep.evolves hd ih.1
    exact ⟨hinv, ih.2.trans hev⟩

theorem Reaches.unskipped (hreaches : Reaches rt d parent state state')
    (h : (state.node id).status ≠ .skipped) : (state'.node id).status ≠ .skipped := by
  induction hreaches with
  | refl => exact h
  | tail _ hstep ih => exact hstep.unskipped ih

end

/-! ## Parts of a pass -/

/-- A node of the definition may be started: it is pending, every dependency has ended, and all have
succeeded unless the node's policy is to continue. -/
def Startable (d : WorkflowDefinition) (issue : Issue) : Prop :=
  ∃ spec ∈ d.nodes, spec.id = issue.nodeID ∧ (issue.state.node spec.id).status = .pending ∧
    (∀ id ∈ spec.dependsOn, (issue.state.node id).status.terminal = true) ∧
    (spec.failurePolicy ≠ .continue_ →
      ∀ id ∈ spec.dependsOn, (issue.state.node id).status = .succeeded)

/-- What a part of a pass does, from the pass `p`. What it started also holds of one that fails. -/
structure PassOk {α : Type} (rt : WorkflowRuntime σ) (d : WorkflowDefinition) (parent : CallID)
    (p : Pass σ) (result : Except Error α × Pass σ) : Prop where
  issued : ∀ issue ∈ result.2.issued, issue ∈ p.issued ∨ Startable d issue
  frames : ∀ a, result.1 = .ok a → AddsFrames p result.2
  reaches : ∀ a, result.1 = .ok a → Reaches rt d parent p.state result.2.state

namespace PassOk

variable {α β : Type} {d : WorkflowDefinition} {parent : CallID} {p p' : Pass σ}

theorem ok (a : α) : PassOk rt d parent p (.ok a, p) :=
  ⟨fun _ => .inl, fun _ _ _ => .inl, fun _ _ => .refl⟩

theorem error {err err' : Error} (h : PassOk rt d parent p ((.error err : Except Error α), p')) :
    PassOk rt d parent p ((.error err' : Except Error β), p') :=
  ⟨h.issued, nofun, nofun⟩

theorem trans {a : α} {result : Except Error β × Pass σ} (h : PassOk rt d parent p (.ok a, p'))
    (h' : PassOk rt d parent p' result) : PassOk rt d parent p result := by
  refine ⟨fun issue hissue => ?_, fun b hb frame hframe => ?_,
    fun b hb => (h.reaches a rfl).trans (h'.reaches b hb)⟩
  · rcases h'.issued issue hissue with hi | hi
    · exact h.issued issue hi
    · exact .inr hi
  · rcases h'.frames b hb frame hframe with hf | hf
    · exact h.frames a rfl frame hf
    · exact .inr hf

end PassOk

section

variable {d : WorkflowDefinition} {parent : CallID} {p : Pass σ}

variable {state : WorkflowSnapshotState} {commands : List WorkflowCommand}

variable {id : String} {current : Snapshot}

/-- A waiting node is a node of the definition. -/
theorem StateInv.spec_of_waiting (h : StateInv d parent state)
    (hwaiting : (state.node id).status = .waiting) : ∃ spec ∈ d.nodes, spec.id = id := by
  have hmem : id ∈ state.nodes := by
    by_contra hnot
    rw [WorkflowSnapshotState.node, Finmap.lookup_eq_none.mpr hnot] at hwaiting
    cases hwaiting
  obtain ⟨spec, hspec, hid⟩ := List.mem_map.mp ((h.keys id).mp hmem)
  exact ⟨spec, hspec, hid⟩

variable (rt)

/-- Observing a waiting child. -/
theorem refreshChild_ok (h : StateInv d parent p.state)
    (hkind : (p.state.node id).kind = .child) (hwaiting : (p.state.node id).status = .waiting) :
    PassOk rt d parent p (refreshChild rt id p) := by
  obtain ⟨hissued, heffect⟩ := refreshChild_effect rt id p
  obtain ⟨spec, hspec, rfl⟩ := h.spec_of_waiting hwaiting
  have hinv := h.node spec hspec
  refine ⟨fun issue hissue => .inl (hissued ▸ hissue), fun _ hok => (heffect hok).1,
    fun _ hok => ?_⟩
  rcases (heffect hok).2 with hsame | ⟨status, hends, hstate⟩
  · rw [hsame]
  · refine Relation.ReflTransGen.single ?_
    rw [hstate]
    have hstep : PassStep rt d parent _ _ :=
      .observe hspec (hinv.kind.symm.trans hkind) hwaiting hends
    unfold WorkflowSnapshotState.setNode at hstep
    rwa [observedNode_id, hinv.id] at hstep

/-- Commands that a plan for the state may hold. -/
structure PlanOk (d : WorkflowDefinition) (parent : CallID) (state : WorkflowSnapshotState)
    (commands : List WorkflowCommand) : Prop where
  planned : ∀ command ∈ commands, ∃ spec ∈ d.nodes, (state.node spec.id).status = .pending ∧
    Planned state parent spec command
  nodup : (commands.map WorkflowCommand.nodeID).Nodup

theorem planWorkflowForParent_ok (hd : DefinitionOk d)
    (h : planWorkflowForParent d state parent = .ok commands) : PlanOk d parent state commands := by
  unfold planWorkflowForParent at h
  split at h
  · cases h
  obtain ⟨hplanned, hsublist⟩ := planNodes_ok hd.node h
  refine ⟨fun command hcommand => ?_, hd.nodup.sublist hsublist⟩
  obtain ⟨spec, hspec, node, hlookup, hpending, hp⟩ := hplanned command hcommand
  rw [← node_of_lookup hlookup] at hpending
  exact ⟨spec, hspec, hpending, hp⟩

theorem Starts.startable {spec : WorkflowNodeSpec} {command : WorkflowCommand}
    (hspec : spec ∈ d.nodes) (hstarts : Starts state parent spec command)
    (hpending : (state.node spec.id).status = .pending) (hmet : DependenciesMet state spec) :
    Startable d ⟨command.nodeID, state⟩ := by
  refine ⟨spec, hspec, hstarts.nodeID.symm, hpending, ?_⟩
  rcases hmet with hall | ⟨hpolicy, hall⟩
  · exact ⟨fun id hid => by rw [hall id hid]; rfl, fun _ => hall⟩
  · exact ⟨hall, fun hne => absurd hpolicy hne⟩

section

variable (hd : DefinitionOk d) (h : StateInv d parent p.state)

include hd h

theorem refreshWaitingChildren_ok (order : List String) :
    PassOk rt d parent p (refreshWaitingChildren rt order p) := by
  induction order generalizing p with
  | nil => exact .ok ()
  | cons id order ih =>
    unfold refreshWaitingChildren
    dsimp only
    split
    · rename_i hwaits
      have hchild := refreshChild_ok rt h hwaits.1 hwaits.2
      split
      · rename_i err p' hr
        rw [hr] at hchild
        exact hchild.error
      · rename_i p' hr
        rw [hr] at hchild
        exact hchild.trans (ih ((hchild.reaches () rfl).evolves hd h).1)
    · exact ih h

theorem refresh_ok (orders : MapOrders) (wake : Time) :
    PassOk rt d parent p (refresh rt orders wake p) := by
  have hchildren := refreshWaitingChildren_ok rt hd h orders.children
  unfold refresh
  split
  · rename_i err p' hr
    rw [hr] at hchildren
    exact hchildren.error
  · rename_i p' hr
    rw [hr] at hchildren
    exact hchildren.trans ⟨fun _ => .inl, fun _ _ _ => .inl, fun _ _ => .single (.fire wake)⟩

/-- The first command of a plan is executed, and the rest is still planned. -/
theorem executeCommand_ok {command : WorkflowCommand}
    (hplan : PlanOk d parent p.state (command :: commands)) :
    PassOk rt d parent p (executeCommand rt parent command p) ∧
      ((executeCommand rt parent command p).1 = .ok () →
        PlanOk d parent (executeCommand rt parent command p).2.state commands) := by
  obtain ⟨spec, hspec, hpending, hplanned⟩ := hplan.planned command (by simp)
  have heffect := executeCommand_effect rt parent command p
  rw [hplanned.nodeID] at heffect
  have hstep : (executeCommand rt parent command p).1 = .ok () →
      PassStep rt d parent p.state (executeCommand rt parent command p).2.state := by
    intro hok
    obtain ⟨node', hexec, hstate⟩ := heffect.state hok
    rw [hstate]
    exact .execute hspec hpending hplanned hexec
  refine ⟨⟨fun issue hissue => ?_, fun _ => heffect.frames, fun _ hok => .single (hstep hok)⟩,
    fun hok => ⟨fun other hother => ?_, (List.nodup_cons.mp hplan.nodup).2⟩⟩
  · rcases heffect.issued with hsame | ⟨hnone, hstarted⟩
    · exact .inl (hsame ▸ hissue)
    · rw [hstarted] at hissue
      rcases List.mem_append.mp hissue with hissue | hissue
      · exact .inl hissue
      · rw [List.mem_singleton.mp hissue]
        obtain ⟨hmet, hstarts⟩ := hplanned.starts hnone
        exact .inr (hstarts.startable hspec hpending hmet)
  · -- the command writes its own node, which is not the node of another command
    obtain ⟨spec', hspec', hpending', hplanned'⟩ := hplan.planned other (by simp [hother])
    obtain ⟨-, hev⟩ := (hstep hok).evolves hd h
    obtain ⟨node', hexec, hstate⟩ := heffect.state hok
    have hne : spec'.id ≠ spec.id := by
      rw [← hplanned.nodeID, ← hplanned'.nodeID]
      intro heq
      exact (List.nodup_cons.mp hplan.nodup).1 (heq ▸ List.mem_map_of_mem hother)
    have hsame : (executeCommand rt parent command p).2.state.node spec'.id =
        p.state.node spec'.id := by
      rw [hstate, node_setNode, if_neg]
      rwa [hexec.id, (h.node spec hspec).id]
    refine ⟨spec', hspec', by
      rw [hsame]; exact hpending', hplanned'.of_settled ?_ hsame hev.startedAt⟩
    intro id _ hterminal
    rw [(hev.node id).ended hterminal]

theorem executeCommands_ok (actions : Nat) (hplan : PlanOk d parent p.state commands) :
    PassOk rt d parent p (executeCommands rt parent actions p commands) := by
  induction commands generalizing p actions with
  | nil => exact .ok _
  | cons command commands ih =>
    obtain ⟨hfirst, hrest⟩ := executeCommand_ok rt hd h hplan
    unfold executeCommands
    split
    · exact .ok _
    split
    · rename_i err p' hr
      rw [hr] at hfirst
      exact hfirst.error
    · rename_i p' hr
      rw [hr] at hfirst hrest
      exact hfirst.trans (ih ((hfirst.reaches () rfl).evolves hd h).1 _ (hrest rfl))

/-- **The loop of `reconcile`.** -/
theorem reconcileLoop_ok (actions : Nat) :
    PassOk rt d parent p (Loop.eval (reconcileBody_terminating rt d parent) (actions, p)) := by
  refine Loop.eval_spec _ (fun s => PassOk rt d parent p (.ok s.1, s.2)) (PassOk rt d parent p)
    (fun s s' hs hbody => ?_) (fun s r hs hbody => ?_) (.ok actions)
  · have hinv := ((hs.reaches _ rfl).evolves hd h).1
    unfold reconcileBody at hbody
    split at hbody
    · split at hbody
      · cases hbody
      · cases hbody
      · rename_i hplan
        have hcommands := executeCommands_ok rt hd hinv s.1 (planWorkflowForParent_ok hd hplan)
        split at hbody
        · cases hbody
        · rename_i hexec
          obtain rfl := Sum.inl.inj hbody
          rw [hexec] at hcommands
          exact hs.trans hcommands
    · cases hbody
  · have hinv := ((hs.reaches _ rfl).evolves hd h).1
    unfold reconcileBody at hbody
    split at hbody
    · split at hbody
      · obtain rfl := Sum.inr.inj hbody
        exact hs.trans ⟨fun _ => .inl, by simp, by simp⟩
      · obtain rfl := Sum.inr.inj hbody
        exact hs.trans (.ok ())
      · rename_i hplan
        have hcommands := executeCommands_ok rt hd hinv s.1 (planWorkflowForParent_ok hd hplan)
        split at hbody
        · rename_i hexec
          obtain rfl := Sum.inr.inj hbody
          rw [hexec] at hcommands
          exact hs.trans hcommands.error
        · cases hbody
    · obtain rfl := Sum.inr.inj hbody
      exact hs.trans (.ok ())

end

/-! ## The transition of a pass -/

/-- The transitions that a pass builds for the parent `current` with the workflow `state`. -/
inductive Builds (d : WorkflowDefinition) (current : Snapshot) (state : WorkflowSnapshotState) :
    Transition → Prop
  | cancel (canceled : current.status = .cancelRequested) :
      Builds d current state (moveWorkflow .canceled current.fence
        (skipNonTerminalWorkflowNodes state) Time.zero [⟨0, .canceled, []⟩])
  | finish {last failed frames} (live : current.status ≠ .cancelRequested)
      (reaches : Reaches rt d current.callID state last) (appendable : ∀ f ∈ frames, Appendable f)
      (outcome : workflowDefinitionOutcome d last = (true, failed)) :
      Builds d current state (moveWorkflow (if failed then .failed else .completed) current.fence
        (skipNonTerminalWorkflowNodes last) Time.zero
        (frames ++ [⟨0, if failed then .failed else .completed, []⟩]))
  | suspend {last wakeAt frames} (live : current.status ≠ .cancelRequested)
      (reaches : Reaches rt d current.callID state last) (appendable : ∀ f ∈ frames, Appendable f)
      (outcome : (workflowDefinitionOutcome d last).1 = false)
      (normal : normalizeReadyAt wakeAt = wakeAt) :
      Builds d current state (moveWorkflow .suspended current.fence last wakeAt frames)

theorem nextWakeAt_normal (order : List String) (h : StateInv d parent state) (world : σ) :
    normalizeReadyAt (nextWakeAt rt order state world).1 = (nextWakeAt rt order state world).1 := by
  unfold nextWakeAt
  refine List.foldlRecOn order (earlierWake state) (motive := fun t => normalizeReadyAt t = t)
    (normalizeReadyAt_idem _) fun t ht id _ => ?_
  unfold earlierWake
  dsimp only
  split
  · rename_i htimer
    obtain ⟨spec, hspec, rfl⟩ := h.spec_of_waiting htimer.2.1
    have hinv := h.node spec hspec
    rcases hinv.waiting htimer.2.1 with ⟨-, hready⟩ | ⟨hchild, -⟩
    · rw [hready]
      exact normalizeReadyAt_idem _
    · rw [hinv.kind, hchild] at htimer
      cases htimer.1
  · exact ht

theorem conclude_builds (orders : MapOrders)
    (hd : DefinitionOk d) (h : StateInv d current.callID state)
    (hlive : current.status ≠ .cancelRequested)
    (hreaches : Reaches rt d current.callID state p.state)
    (hframes : ∀ f ∈ p.frames, Appendable f) :
    Builds rt d current state (conclude rt orders d current p).1 ∧
      (conclude rt orders d current p).2.issued = p.issued := by
  unfold conclude
  split
  · rename_i failed houtcome
    exact ⟨.finish hlive hreaches hframes houtcome, rfl⟩
  · rename_i failed houtcome
    have hinv := (hreaches.evolves hd h).1
    refine ⟨.suspend hlive hreaches hframes (by rw [houtcome]) ?_, rfl⟩
    exact nextWakeAt_normal rt _ hinv _

/-- The definition of a registry that a parent of `d` meets is `d`, if the fingerprint is. -/
def Registry.Identifies (registry : Registry) (d : WorkflowDefinition) : Prop :=
  ∀ d', registry.resolveWorkflow d.operation d.version = some d' →
    d'.fingerprint = d.fingerprint → d' = d

/-- **What a pass builds and starts**, also one that fails. -/
theorem reconcileTransition_ok (hd : DefinitionOk d) (hoperation : current.operation = d.operation)
    (hregistry : rt.registry.Identifies d) (h : StateInv d current.callID state)
    (orders : MapOrders) (wake : Time) (world : σ) :
    (∀ issue ∈ (reconcileTransition rt orders current state wake world).2.issued,
      Startable d issue) ∧
    ∀ t, (reconcileTransition rt orders current state wake world).1 = .ok t →
      Builds rt d current state t := by
  unfold reconcileTransition
  rw [hoperation, h.version]
  dsimp only
  split
  · exact ⟨by simp, by simp⟩
  rename_i d' hresolve
  split
  · exact ⟨by simp, by simp⟩
  rename_i hfingerprint
  rw [h.fingerprint, bne_iff_ne, not_not] at hfingerprint
  obtain rfl := hregistry d' hresolve hfingerprint
  split
  · rename_i hcanceled
    refine ⟨by simp, fun t ht => ?_⟩
    cases ht
    exact .cancel hcanceled
  rename_i hlive
  have hrefresh := refresh_ok rt (p := ⟨world, state, [], []⟩) hd h orders wake
  split
  · rename_i hr
    rw [hr] at hrefresh
    exact ⟨fun issue hi => (hrefresh.issued issue hi).resolve_left (by simp), by simp⟩
  rename_i p' hr
  rw [hr] at hrefresh
  have hloop := hrefresh.trans
    (reconcileLoop_ok rt hd ((hrefresh.reaches () rfl).evolves hd h).1 0)
  split
  · rename_i hl
    rw [hl] at hloop
    exact ⟨fun issue hi => (hloop.issued issue hi).resolve_left (by simp), by simp⟩
  · rename_i p'' hl
    rw [hl] at hloop
    obtain ⟨hbuilds, hissued⟩ := conclude_builds rt orders hd h hlive (hloop.reaches () rfl)
      fun f hf => (hloop.frames () rfl f hf).resolve_left (by simp)
    refine ⟨fun issue hi => ?_, fun t ht => ?_⟩
    · rw [hissued] at hi
      exact (hloop.issued issue hi).resolve_left (by simp)
    · cases ht
      exact hbuilds

end

end Keelith.Continuation
