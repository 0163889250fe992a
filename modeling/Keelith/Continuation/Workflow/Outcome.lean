import Keelith.Continuation.Workflow.Parent

/-!
# The outcome of a workflow does not depend on its schedule

Fix what the code outside the package makes of the nodes: a result for each machine, a terminal
status for each child (`Assignment`). Evaluating the nodes along the definition gives each an
outcome (`Assignment.outcome`).

* `Agrees`: every node that has ended has its outcome, and a node that waits was not stopped by a
  dependency. Eager joins and fail-fast nodes end early, but with the status that their last
  dependency would give (`JoinDecided.of_settled`).
* `outcome_of_run`: the parent's status and the sinks of an ended parent are those of the outcome.
* `outcome_schedule_independent`: any two runs end alike.
-/

namespace Keelith.Continuation

/-! ## Outcomes -/

/-- What the code outside the package makes of the nodes. -/
structure Assignment where
  machine : String → Except Error WorkflowNodeResult
  child : String → Status

/-- The status of a node that is started. -/
def Assignment.status (a : Assignment) (spec : WorkflowNodeSpec) : WorkflowNodeStatus :=
  match spec.kind with
  | .timer => .succeeded
  | .machine =>
    match a.machine spec.id with
    | .error _ => .failed
    | .ok result => result.status
  | .child => if a.child spec.id = .completed then .succeeded else .failed
  | _ => .failed

/-- The status of a join whose dependencies have all ended. -/
def joinStatus (policy : WorkflowJoinPolicy) (states : List WorkflowNodeStatus) :
    WorkflowNodeStatus :=
  let succeeds : Bool := match policy with
    | .any => states.any (· == .succeeded)
    | _ => states.all (· == .succeeded)
  if succeeds then .succeeded else .failed

/-- The outcome of a node from the outcomes of its dependencies. -/
def Assignment.settle (a : Assignment) (spec : WorkflowNodeSpec)
    (env : String → WorkflowNodeStatus) : WorkflowNodeStatus :=
  if spec.kind = .join then joinStatus spec.join (spec.dependsOn.map env)
  else if spec.failurePolicy = .failFast ∧ .failed ∈ spec.dependsOn.map env then .failed
  else a.status spec

/-- The outcomes of the nodes. -/
def Assignment.outcome (a : Assignment) (d : WorkflowDefinition) : String → WorkflowNodeStatus :=
  Dag.eval WorkflowNodeSpec.id a.settle (fun _ => .pending) d.nodes

/-- The status of the parent: failed if a sink is. -/
def Assignment.parentStatus (a : Assignment) (d : WorkflowDefinition) : Status :=
  if d.nodes.any fun spec => d.sink spec.id && a.outcome d spec.id == .failed then .failed
  else .completed

variable {a : Assignment} {d : WorkflowDefinition}

theorem outcome_eq (hd : DefinitionOk d) {spec : WorkflowNodeSpec} (hspec : spec ∈ d.nodes) :
    a.outcome d spec.id = a.settle spec (a.outcome d) := by
  refine Dag.eval_eq hd.ordered hd.nodup (fun node e e' he => ?_) spec hspec
  have hmap : node.dependsOn.map e = node.dependsOn.map e' := List.map_congr_left he
  rw [Assignment.settle, Assignment.settle, hmap]

variable {status : WorkflowNodeStatus}

/-- A decided join has the status of the full one. -/
theorem JoinDecided.joinStatus_eq {policy : WorkflowJoinPolicy} {states : List WorkflowNodeStatus}
    (h : JoinDecided policy states status) : joinStatus policy states = status := by
  cases h with
  | @allFailed _ st hm hst =>
    have hall : states.all (· == .succeeded) = false := by
      rw [Bool.eq_false_iff, ne_eq, List.all_eq_true]
      intro hall
      have hs := hall st hm
      rcases hst with rfl | rfl <;> exact absurd hs (by decide)
    simp [joinStatus, hall]
  | allSucceeded _ hall => simpa [joinStatus] using hall
  | anySucceeded hm => simpa [joinStatus] using hm
  | anyFailed _ hall =>
    have hany : states.any (· == .succeeded) = false := by
      rw [Bool.eq_false_iff, ne_eq, List.any_eq_true]
      rintro ⟨st, hm, hs⟩
      rcases hall st hm with rfl | rfl <;> exact absurd hs (by decide)
    simp [joinStatus, hany]

/-! ## Steps -/

/-- The runtime gives the assigned results to the nodes of `parent`. A handler may also return a
result that fails the pass, and a child may show a status that is not terminal, or an error. -/
structure Consistent {σ : Type} (a : Assignment) (d : WorkflowDefinition) (parent : CallID)
    (rt : WorkflowRuntime σ) : Prop where
  machine : ∀ spec ∈ d.nodes, spec.kind = .machine →
    ∀ handler, rt.handlers.lookup spec.operation = some handler →
    ∀ execution world, execution.parentCallID = parent → execution.nodeID = spec.id →
      (handler execution world).1 = a.machine spec.id ∨
      ∃ result, (handler execution world).1 = .ok result ∧ validateWorkflowNodeResult result = false
  child : ∀ spec ∈ d.nodes, spec.kind = .child →
    ∀ id children attachment world world', deriveChildCallID parent spec.id 1 = .ok id →
    rt.children = some children → children.attach id 0 1 world = (.ok attachment, world') →
    attachment.snapshot.status.terminal = true → attachment.snapshot.status = a.child spec.id

/-- The nodes that have ended have their outcome, and the nodes that wait are not stopped. -/
structure Agrees (a : Assignment) (d : WorkflowDefinition) (state : WorkflowSnapshotState) :
    Prop where
  ended : ∀ spec ∈ d.nodes, (state.node spec.id).status.terminal = true →
    (state.node spec.id).status = a.outcome d spec.id
  waiting : ∀ spec ∈ d.nodes, (state.node spec.id).status = .waiting →
    a.outcome d spec.id = a.status spec

section

variable {σ : Type} {rt : WorkflowRuntime σ} {parent : CallID}
  {state state' : WorkflowSnapshotState} {spec : WorkflowNodeSpec}

variable {command : WorkflowCommand} (hspec : spec ∈ d.nodes)

section

variable (hcons : Consistent a d parent rt)

include hcons hspec

theorem Consistent.status_of_child (hkind : spec.kind = .child) {id : CallID}
    (hid : deriveChildCallID parent spec.id 1 = .ok id)
    {status : Status} (hends : ChildEnds rt id status) (node : WorkflowNodeState) :
    (observedNode node status).status = a.status spec := by
  obtain ⟨hterminal, children, attachment, world, world', hchildren, hattach, rfl⟩ := hends
  have hstatus := hcons.child spec hspec hkind id children attachment world world' hid hchildren
    hattach hterminal
  unfold observedNode Assignment.status
  rw [hkind, hstatus]
  split <;> rfl

theorem Consistent.status_of_handler (hkind : spec.kind = .machine)
    (hoperation : command.operation = spec.operation)
    {failureClass : String} (hends : HandlerEnds rt parent spec.id command status failureClass) :
    a.status spec = status := by
  have hmachine := fun handler hhandler world => hcons.machine spec hspec hkind handler
    (hoperation ▸ hhandler) ⟨parent, spec.id, command.attempt, command.operation,
      workflowExecutionID parent spec.id command.attempt⟩ world rfl rfl
  unfold Assignment.status
  rw [hkind]
  cases hends with
  | @error handler err world world' handler_eq call =>
    rcases hmachine handler handler_eq world with hresult | ⟨result, hresult, -⟩
    · rw [call] at hresult
      rw [← hresult]
    · rw [call] at hresult
      cases hresult
  | @result handler world world' result handler_eq call valid =>
    rcases hmachine handler handler_eq world with hresult | ⟨other, hresult, hinvalid⟩
    · rw [call] at hresult
      rw [← hresult]
    · rw [call] at hresult
      cases hresult
      rw [valid] at hinvalid
      cases hinvalid

end

/-- Firing the timers keeps agreement. -/
theorem Agrees.fire (hinv : StateInv d parent state) (h : Agrees a d state) (wake : Time) :
    Agrees a d { state with nodes := state.nodes.mapValues fun _ => fireTimer wake } := by
  refine ⟨fun spec hspec => ?_, fun spec hspec => ?_⟩
  · rw [hinv.node_mapValues _ hspec]
    unfold fireTimer
    split
    · rename_i hfire
      have hkind : spec.kind = .timer := (hinv.node spec hspec).kind.symm.trans hfire.1
      intro _
      rw [h.waiting spec hspec hfire.2.1, Assignment.status, hkind]
    · exact h.ended spec hspec
  · rw [hinv.node_mapValues _ hspec]
    unfold fireTimer
    split
    · exact nofun
    · exact h.waiting spec hspec

variable (hd : DefinitionOk d)

include hd

section

variable (h : Agrees a d state)

include h hspec

theorem Agrees.dependency {id : String} (hid : id ∈ spec.dependsOn)
    (hended : (state.node id).status.terminal = true) :
    a.outcome d id = (state.node id).status := by
  obtain ⟨dep, hdep, rfl⟩ := hd.ordered.mem_of_dep hspec hid
  exact (h.ended dep hdep hended).symm

/-- A node that may start has the outcome of its start. -/
theorem Agrees.outcome_of_met (hkind : spec.kind ≠ .join) (hmet : DependenciesMet state spec) :
    a.outcome d spec.id = a.status spec := by
  rw [outcome_eq hd hspec, Assignment.settle, if_neg hkind, if_neg]
  rintro ⟨hpolicy, hfailed⟩
  rcases hmet with hall | ⟨hcontinue, -⟩
  · obtain ⟨id, hid, hout⟩ := List.mem_map.mp hfailed
    have hs := hall id hid
    rw [h.dependency hspec hd hid (by rw [hs]; rfl), hs] at hout
    cases hout
  · rw [hcontinue] at hpolicy
    cases hpolicy

theorem Planned.outcome (hplanned : Planned state parent spec command)
    (hnone : command.completeStatus = none) : a.outcome d spec.id = a.status spec := by
  cases hplanned with
  | join | failFast => cases hnone
  | start kind met starts => exact h.outcome_of_met hspec hd kind met

/-- A node that the plan completes has its outcome. -/
theorem Agrees.outcome_of_complete (hplanned : Planned state parent spec command)
    (hstatus : command.completeStatus = some status) : a.outcome d spec.id = status := by
  rw [outcome_eq hd hspec, Assignment.settle]
  cases hplanned with
  | join kind decided =>
    cases hstatus
    rw [if_pos kind]
    exact (decided.of_settled fun id hid => h.dependency hspec hd hid).joinStatus_eq
  | @failFast id kind policy dependency failed =>
    cases hstatus
    rw [if_neg kind, if_pos]
    refine ⟨policy, List.mem_map.mpr ⟨id, dependency, ?_⟩⟩
    rw [h.dependency hspec hd dependency (by rw [failed]; rfl), failed]
  | start kind met starts =>
    rw [starts.complete] at hstatus
    cases hstatus

/-- Writing one node keeps agreement if the node has it. -/
theorem Agrees.setNode {node' : WorkflowNodeState} (hid : node'.id = spec.id)
    (hended : node'.status.terminal = true → node'.status = a.outcome d spec.id)
    (hwaiting : node'.status = .waiting → a.outcome d spec.id = a.status spec) :
    Agrees a d (state.setNode node') := by
  constructor
  · exact hd.forall_setNode
      (P := fun spec node => node.status.terminal = true → node.status = a.outcome d spec.id)
      hspec hid h.ended hended
  · exact hd.forall_setNode
      (P := fun spec node => node.status = .waiting → a.outcome d spec.id = a.status spec)
      hspec hid h.waiting hwaiting

end

variable (hinv : StateInv d parent state)

include hinv

variable (hcons : Consistent a d parent rt) (h : Agrees a d state)

include hcons h

include hspec in
/-- A planned command gives its node the outcome, or leaves it waiting. -/
theorem Executes.agrees {node' : WorkflowNodeState}
    (hpending : (state.node spec.id).status = .pending)
    (hplanned : Planned state parent spec command)
    (hexec : Executes rt parent command (state.node spec.id) node') :
    Agrees a d (state.setNode node') := by
  have hid := hexec.id.trans (hinv.node spec hspec).id
  cases hexec with
  | @complete status hstatus =>
    have hout := h.outcome_of_complete hspec hd hplanned hstatus
    have hnode : (completedNode (state.node spec.id) status).status = status := by
      unfold completedNode
      split <;> rfl
    refine h.setNode hspec hd hid (fun _ => hnode.trans hout.symm) fun hw => ?_
    rcases hplanned.completeStatus hstatus with hs | hs <;> rw [hs] at hw <;> cases hw
  | arm hnone | wait hnone =>
    exact h.setNode hspec hd hid nofun fun _ => hplanned.outcome hspec hd h hnone
  | @observe status hnone kind ends =>
    have hstarts := (hplanned.starts hnone).2
    have hout := hplanned.outcome hspec hd h hnone
    have hchild := hstarts.child (hstarts.kind.symm.trans kind)
    rw [hstarts.attempt, ((hinv.node spec hspec).pending hpending).1] at hchild
    refine h.setNode hspec hd hid (fun _ => ?_) fun _ => hout
    rw [hout]
    exact hcons.status_of_child hspec (hstarts.kind.symm.trans kind) hchild ends _
  | @handle status failureClass hnone kind ends =>
    have hstarts := (hplanned.starts hnone).2
    have hout := hplanned.outcome hspec hd h hnone
    rw [(hinv.node spec hspec).id] at ends
    refine h.setNode hspec hd hid (fun _ => ?_) fun _ => hout
    rw [hout]
    exact (hcons.status_of_handler hspec (hstarts.kind.symm.trans kind) hstarts.operation ends).symm

/-- **A step of a pass keeps agreement.** -/
theorem PassStep.agrees (hstep : PassStep rt d parent state state') : Agrees a d state' := by
  cases hstep with
  | @observe spec status mem kind waiting ends =>
    have hnode := hinv.node spec mem
    have hid : deriveChildCallID parent spec.id 1 = .ok (state.node spec.id).childCallID := by
      rcases hnode.waiting waiting with ⟨htimer, -⟩ | ⟨-, hne⟩
      · rw [kind] at htimer
        cases htimer
      · exact (hnode.child.resolve_left hne).2
    have hstatus := hcons.status_of_child mem kind hid ends (state.node spec.id)
    have hout := h.waiting spec mem waiting
    exact h.setNode mem hd ((observedNode_id ..).trans hnode.id)
      (fun _ => hstatus.trans hout.symm) fun _ => hout
  | fire wake => exact h.fire hinv wake
  | execute mem pending planned executes =>
    exact executes.agrees mem hd hinv hcons h pending planned

theorem Reaches.agrees (hreaches : Reaches rt d parent state state') : Agrees a d state' := by
  induction hreaches with
  | refl => exact h
  | tail hbefore hstep ih => exact hstep.agrees hd (Reaches.evolves hd hinv hbefore).1 hcons ih

end

/-! ## Runs -/

/-- The inputs under the assignment: nothing but passes ends the parent, nobody asks to cancel it,
and the passes give the assigned results. -/
def Assigned {σ : Type} (a : Assignment) (d : WorkflowDefinition) (s : Snapshot) :
    ParentInput σ → Prop
  | .move t => t.status.terminal = false ∧ t.status ≠ .cancelRequested
  | .prune _ => True
  | .pass input => Consistent a d s.callID input.runtime

/-- The machine of a parent of `d` under the assignment. -/
def assignedMachine (σ : Type) (a : Assignment) (d : WorkflowDefinition) :
    Machine Snapshot (ParentInput σ) ParentOutput :=
  (parentMachine σ d).restrict (Assigned a d)

/-- An unfinished parent agrees with the outcome; a finished one has it. -/
structure OutcomeInv (a : Assignment) (d : WorkflowDefinition) (s : Snapshot)
    (state : WorkflowSnapshotState) : Prop where
  live : s.status.terminal = false → s.status ≠ .cancelRequested ∧ Agrees a d state
  ended : s.status.terminal = true → s.status = a.parentStatus d ∧
    ∀ spec ∈ d.nodes, d.sink spec.id = true → (state.node spec.id).status = a.outcome d spec.id

section

variable {σ : Type} {rt : WorkflowRuntime σ} {s : Snapshot} {state : WorkflowSnapshotState}

variable {failed : Bool}

theorem workflowDefinitionOutcome_true (h : workflowDefinitionOutcome d state = (true, failed)) :
    (∀ spec ∈ d.nodes, d.sink spec.id = true → (state.node spec.id).status.terminal = true) ∧
      failed = d.nodes.any fun spec => d.sink spec.id &&
        (state.node spec.id).status == .failed := by
  unfold workflowDefinitionOutcome at h
  dsimp only at h
  split at h
  · rename_i hall
    obtain ⟨-, rfl⟩ := Prod.mk.inj h
    rw [List.all_map, List.all_eq_true] at hall
    refine ⟨fun spec hspec hsink => hall spec (List.mem_filter.mpr ⟨hspec, hsink⟩), ?_⟩
    rw [List.any_map, List.any_filter]
    rfl
  · cases h

/-- What a parent is that a pass finishes. -/
theorem Agrees.finish (hinv : StateInv d s.callID state) (h : Agrees a d state)
    (houtcome : workflowDefinitionOutcome d state = (true, failed)) :
    (if failed then Status.failed else Status.completed) = a.parentStatus d ∧
      ∀ spec ∈ d.nodes, d.sink spec.id = true →
        ((skipNonTerminalWorkflowNodes state).node spec.id).status = a.outcome d spec.id := by
  obtain ⟨hsinks, hfailed⟩ := workflowDefinitionOutcome_true houtcome
  have hstatus : ∀ spec ∈ d.nodes, d.sink spec.id = true →
      (state.node spec.id).status = a.outcome d spec.id :=
    fun spec hspec hsink => h.ended spec hspec (hsinks spec hspec hsink)
  refine ⟨?_, fun spec hspec hsink => ?_⟩
  · have hany : failed = d.nodes.any fun spec =>
      d.sink spec.id && a.outcome d spec.id == .failed := by
      rw [hfailed, Bool.eq_iff_iff, List.any_eq_true, List.any_eq_true]
      refine exists_congr fun spec => and_congr_right fun hspec => ?_
      rw [Bool.and_eq_true, Bool.and_eq_true]
      refine and_congr_right fun hsink => ?_
      rw [hstatus spec hspec hsink]
    rw [Assignment.parentStatus, ← hany]
  · rw [(skipNonTerminalWorkflowNodes_inv hinv).2.2 spec hspec, skipNode,
      if_pos (hsinks spec hspec hsink)]
    exact hstatus spec hspec hsink

/-- **A step keeps the outcome.** -/
theorem OutcomeInv.step (hd : DefinitionOk d) (hparent : ParentInv d s state)
    (h : OutcomeInv a d s state) {i : ParentInput σ} (hassigned : Assigned a d s i)
    {next : Snapshot} (heffect : ParentEffect d s state i next) :
    ∃ state', ParentInv d next state' ∧ OutcomeInv a d next state' := by
  obtain ⟨-, state', hparent', -⟩ := heffect.inv hd hparent
  refine ⟨state', hparent', ?_⟩
  have hsame : next.workflow = s.workflow → state' = state := fun hw =>
    Option.some.inj (hparent'.workflow.symm.trans (hw.trans hparent.workflow))
  cases heffect with
  | stay =>
    rw [hsame rfl]
    exact h
  | @move t workflow accepted =>
    obtain ⟨-, -, ⟨-, heq⟩ | ⟨-, hadvances, -⟩⟩ := apply_ok_iff.mp accepted
    · rw [heq] at hparent' ⊢
      rw [Option.mem_unique hparent'.workflow hparent.workflow]
      exact h
    rw [hsame (by simp [advanced, workflow])]
    refine ⟨fun _ => ⟨hassigned.2, (h.live hadvances.live).2⟩, fun hended => ?_⟩
    rw [show (advanced s t).status = t.status from rfl, hassigned.1] at hended
    cases hended
  | prune pruned =>
    obtain ⟨-, -, floor', n, rfl⟩ := pruneSnapshot_ok pruned
    rw [hsame rfl]
    exact ⟨h.live, h.ended⟩
  | @pass input t builds accepted =>
    have hlive : s.status.terminal = false := by
      obtain ⟨-, -, ⟨hreplay, -⟩ | ⟨-, hadvances, -⟩⟩ := apply_ok_iff.mp accepted
      · cases builds <;> exact absurd (by simp) hreplay.command
      · exact hadvances.live
    obtain ⟨huncanceled, hagrees⟩ := h.live hlive
    have hnext : ∀ last, t.workflow = some last → state' = last := fun last hlast =>
      Option.some.inj (hparent'.workflow.symm.trans (by simp [advanced, hlast]))
    cases builds with
    | cancel canceled => exact absurd canceled huncanceled
    | @finish last failed frames live reaches appendable outcome =>
      obtain ⟨hlast, -⟩ := reaches.evolves hd hparent.nodes
      have hfinish := (reaches.agrees hd hparent.nodes hassigned hagrees).finish hlast outcome
      rw [hnext _ (moveWorkflow_fields ..).1]
      refine ⟨fun hl => ?_, fun _ => ⟨?_, hfinish.2⟩⟩
      · cases failed <;> cases hl
      · simp only [advanced, moveWorkflow_fields]
        exact hfinish.1
    | @suspend last wakeAt frames live reaches =>
      rw [hnext _ (moveWorkflow_fields ..).1]
      refine ⟨fun _ => ⟨?_, reaches.agrees hd hparent.nodes hassigned hagrees⟩, fun hended => ?_⟩
      · simp [advanced, moveWorkflow_fields]
      · simp only [advanced, moveWorkflow_fields] at hended
        cases hended

/-- **Every run agrees with the outcome.** -/
theorem outcome_of_run (hd : DefinitionOk d)
    {history : List (Event Snapshot (ParentInput σ) ParentOutput)}
    (h : (assignedMachine σ a d).Run history s) :
    ∃ state, ParentInv d s state ∧ OutcomeInv a d s state := by
  refine h.invariant (I := fun _ s => ∃ state, ParentInv d s state ∧ OutcomeInv a d s state) ?_ ?_
  · rintro s ⟨callID, input, startedAt, hnew⟩
    have hparent := newWorkflowSnapshot_inv hd hnew
    obtain ⟨hstatus, hpending⟩ := newWorkflowSnapshot_pending hd hnew
    refine ⟨_, hparent, fun _ => ⟨?_, ?_, ?_⟩, ?_⟩
    · rw [hstatus]
      exact nofun
    · intro spec hspec hended
      rw [hpending spec hspec] at hended
      cases hended
    · intro spec hspec hwaiting
      rw [hpending spec hspec] at hwaiting
      cases hwaiting
    · rw [hstatus]
      exact nofun
  · rintro history s i ⟨state, hparent, hinv⟩ ⟨hmay, hassigned⟩
    exact hinv.step hd hparent hassigned (parentExec_effect hd hparent hmay).1

/-- **The outcome does not depend on the schedule.** -/
theorem outcome_schedule_independent {definitionSpec : WorkflowDefinitionSpec}
    (hd : newWorkflowDefinition definitionSpec = .ok d) (a : Assignment) {σ₁ σ₂ : Type}
    {history₁ : List (Event Snapshot (ParentInput σ₁) ParentOutput)} {s₁ : Snapshot}
    {history₂ : List (Event Snapshot (ParentInput σ₂) ParentOutput)} {s₂ : Snapshot}
    (hrun₁ : (assignedMachine σ₁ a d).Run history₁ s₁)
    (hrun₂ : (assignedMachine σ₂ a d).Run history₂ s₂)
    (hend₁ : s₁.status.terminal = true) (hend₂ : s₂.status.terminal = true) :
    s₁.status = s₂.status ∧ (s₁.status = .completed ∨ s₁.status = .failed) ∧
      ∃ state₁ state₂, s₁.workflow = some state₁ ∧ s₂.workflow = some state₂ ∧
        ∀ sink ∈ d.nodes, d.sink sink.id = true →
          (state₁.node sink.id).status = (state₂.node sink.id).status := by
  have hok := newWorkflowDefinition_ok hd
  obtain ⟨state₁, hparent₁, hinv₁⟩ := outcome_of_run hok hrun₁
  obtain ⟨state₂, hparent₂, hinv₂⟩ := outcome_of_run hok hrun₂
  obtain ⟨hstatus₁, hsinks₁⟩ := hinv₁.ended hend₁
  obtain ⟨hstatus₂, hsinks₂⟩ := hinv₂.ended hend₂
  refine ⟨hstatus₁.trans hstatus₂.symm, ?_, state₁, state₂, hparent₁.workflow, hparent₂.workflow,
    fun sink hsink hs => (hsinks₁ sink hsink hs).trans (hsinks₂ sink hsink hs).symm⟩
  rw [hstatus₁]
  unfold Assignment.parentStatus
  split
  · exact .inr rfl
  · exact .inl rfl

end

/-! ## A machine and a join

One run executes both nodes in one pass, the other one node in each of two passes. -/

namespace AnyJoin

/-- A machine that fails, and a join of policy ANY. -/
def definitionSpec : WorkflowDefinitionSpec :=
  ⟨"/svc/flow", "v1", [
    { id := "a", kind := .machine, operation := "/svc/work" },
    { id := "j", kind := .join, dependsOn := ["a"], join := .any }]⟩

/-- The definition of `definitionSpec`. -/
def definition : WorkflowDefinition where
  operation := "/svc/flow"
  version := "v1"
  fingerprint := "b956d60ae5ada61aa47cd697e0207b0a4ab9385c63c9f0d2dfe0d2c18a40e7ae"
  nodes := [
    { id := "a", kind := .machine, operation := "/svc/work", failurePolicy := .failFast },
    { id := "j", kind := .join, dependsOn := ["a"], join := .any, failurePolicy := .failFast }]

/-- The handler of every machine returns an error. -/
def results : Assignment where
  machine _ := .error (.external "down")
  child _ := .completed

/-- A pass of at most `maxNodeActions` commands. -/
def passInput (maxNodeActions : Nat) : PassInput Unit where
  runtime :=
    { registry := ⟨(∅ : Map String (Map String WorkflowDefinition)).insert "/svc/flow"
        ((∅ : Map String WorkflowDefinition).insert "v1" definition)⟩
      children := none
      handlers := (∅ : Map String (WorkflowNodeHandler Unit)).insert "/svc/work"
        fun execution world => (results.machine execution.nodeID, world)
      pollInterval := second
      maxNodeActions
      now := fun world => (second, world) }
  orders := ⟨["a", "j"], ["a", "j"]⟩
  wake := Time.zero
  world := ()
  committed := true

/-- A claim. -/
def claim (fence : UInt64) : ParentInput Unit := .move (move .running fence [])

/-- A new parent. -/
def created : Snapshot where
  callID := "parent"
  operation := "/svc/flow"
  status := .accepted
  readyAt := Time.zero
  revision := 1
  fence := 0
  sequence := 1
  frameFloor := 1
  frames := [⟨1, .accepted, []⟩]
  commands := ∅
  workflow := some (newWorkflowSnapshotState definition second)

/-- The snapshot after an input. -/
def after (s : Snapshot) (i : ParentInput Unit) : Snapshot :=
  ((assignedMachine Unit results definition).exec s i).2

/-- The parent claimed for its first pass. -/
def claimed : Snapshot := after created (claim 1)

/-- The parent after one pass of all commands. -/
def finishedAtOnce : Snapshot := after claimed (.pass (passInput 5))

/-- The parent after a pass of one command, claimed again. -/
def reclaimed : Snapshot := after (after claimed (.pass (passInput 1))) (claim 2)

/-- The parent after the second pass. -/
def finishedLater : Snapshot := after reclaimed (.pass (passInput 1))

/-- The definition, the new parent and the two runs, evaluated. -/
theorem evaluated : newWorkflowDefinition definitionSpec = .ok definition ∧
    (passInput 1).runtime.registry.resolveWorkflow definition.operation definition.version =
      some definition ∧
    newWorkflowSnapshot "parent" definition [] second = .ok created ∧
    claimed.status = .running ∧ reclaimed.status = .running ∧
    finishedAtOnce.status.terminal = true ∧ finishedLater.status.terminal = true := by
  decide +kernel

theorem definition_eq : newWorkflowDefinition definitionSpec = .ok definition := evaluated.1

theorem statuses : claimed.status = .running ∧ reclaimed.status = .running ∧
    finishedAtOnce.status.terminal = true ∧ finishedLater.status.terminal = true :=
  evaluated.2.2.2

theorem consistent (parent : CallID) (n : Nat) :
    Consistent results definition parent (passInput n).runtime where
  machine spec hspec hkind handler hhandler execution world _ hid := by
    refine .inl ?_
    have hoperation : spec.operation = "/svc/work" := by
      revert hkind
      simp only [definition, List.mem_cons, List.not_mem_nil, or_false] at hspec
      rcases hspec with rfl | rfl <;> simp
    rw [hoperation, passInput, Map.lookup_insert_eq] at hhandler
    cases hhandler
    rfl
  child _ _ _ _ _ _ _ _ _ hchildren := by cases hchildren

variable {history : List (Event Snapshot (ParentInput Unit) ParentOutput)} {s : Snapshot}

theorem passInput_may
    (hrun : (assignedMachine Unit results definition).Run history s) (hs : s.status = .running)
    (n : Nat) : (assignedMachine Unit results definition).may history s (.pass (passInput n)) := by
  refine ⟨pass_may (newWorkflowDefinition_ok definition_eq) hrun.of_restrict (.inl hs)
    (fun d' hresolve _ => ?_) rfl rfl, consistent s.callID n⟩
  have hregistry : (passInput n).runtime.registry.resolveWorkflow definition.operation
      definition.version = some definition := evaluated.2.1
  exact Option.mem_unique hresolve hregistry

theorem claim_may (history : List (Event Snapshot (ParentInput Unit) ParentOutput)) (s : Snapshot)
    (fence : UInt64) : (assignedMachine Unit results definition).may history s (claim fence) :=
  ⟨rfl, rfl, nofun⟩

theorem run_after (hrun : (assignedMachine Unit results definition).Run history s)
    (i : ParentInput Unit) (hmay : (assignedMachine Unit results definition).may history s i) :
    ∃ history, (assignedMachine Unit results definition).Run history (after s i) :=
  hrun.next i hmay rfl

theorem claimed_run : ∃ history, (assignedMachine Unit results definition).Run history claimed := by
  have hinit : (assignedMachine Unit results definition).Run [] created :=
    .init ⟨"parent", [], second, evaluated.2.2.1⟩
  exact run_after hinit (claim 1) (claim_may ..)

theorem finishedAtOnce_run :
    ∃ history, (assignedMachine Unit results definition).Run history finishedAtOnce := by
  obtain ⟨history, hrun⟩ := claimed_run
  exact run_after hrun (.pass (passInput 5)) (passInput_may hrun statuses.1 5)

theorem finishedLater_run :
    ∃ history, (assignedMachine Unit results definition).Run history finishedLater := by
  obtain ⟨history, hrun⟩ := claimed_run
  obtain ⟨history, hrun⟩ := run_after hrun (.pass (passInput 1)) (passInput_may hrun statuses.1 1)
  obtain ⟨history, hrun⟩ := run_after hrun (claim 2) (claim_may ..)
  exact run_after hrun (.pass (passInput 1)) (passInput_may hrun statuses.2.1 1)

/-- The two runs end alike. -/
theorem anyJoin_schedule_independent :
    finishedAtOnce.status.terminal = true ∧ finishedLater.status.terminal = true ∧
    finishedAtOnce.status = finishedLater.status := by
  obtain ⟨history₁, hrun₁⟩ := finishedAtOnce_run
  obtain ⟨history₂, hrun₂⟩ := finishedLater_run
  obtain ⟨-, -, hend₁, hend₂⟩ := statuses
  exact ⟨hend₁, hend₂,
    (outcome_schedule_independent definition_eq results hrun₁ hrun₂ hend₁ hend₂).1⟩

end AnyJoin

end Keelith.Continuation
