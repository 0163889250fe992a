import Keelith.Continuation.Workflow.DefinitionLemmas
import Keelith.Continuation.Workflow.Plan

/-!
# What a plan commands

* `Planned`: why a node has the command that it has: a decided join, a failed dependency, or
  dependencies that let it start.
* `Planned.of_settled`: a command stays planned while other nodes go on.
* `planNode_ready`: a pending node whose dependencies have all ended has a command.
-/

namespace Keelith.Continuation

/-! ## Derived calls -/

theorem plain_wfChild : Plain "wf-child-".toList := plain_of_all (by decide)

variable {attempt : UInt32} {parent : CallID} {status : WorkflowNodeStatus}
  {policy : WorkflowJoinPolicy} {ids : List String}

/-- The derived identity is valid. -/
theorem deriveChildCallID_ok {nodeID : String}
    (hp : validIdentity parent = true) (hn : validIdentity nodeID = true) (ha : attempt ≠ 0) :
    ∃ id, deriveChildCallID parent nodeID attempt = .ok id := by
  generalize hdigits : hexDigits (sha256 (childMessage parent nodeID attempt)) = digits
  have hplain : Plain ("wf-child-".toList ++ digits) :=
    plain_wfChild.append (hdigits ▸ hexDigits_plain _)
  have hlen : digits.length = 64 := by rw [← hdigits, length_hexDigits, Sha256.length_sha256]
  have htext : "wf-child-" ++ hexEncode (sha256 (childMessage parent nodeID attempt)) =
      String.ofList ("wf-child-".toList ++ digits) := by
    rw [hexEncode, hdigits, String.ofList_append, String.ofList_toList]
  have hvalid : validIdentity (String.ofList ("wf-child-".toList ++ digits)) = true := by
    have hsize := utf8ByteSize_of_plain hplain
    rw [List.length_append, hlen] at hsize
    simp only [validIdentity, Bool.and_eq_true, bne_iff_ne, beq_iff_eq,
      List.all_eq_true, Bool.not_eq_true', String.toList_ofList]
    refine ⟨⟨⟨fun hempty => ?_, ?_⟩, trimSpace_of_plain hplain⟩, fun c hc => ?_⟩
    · rw [hempty] at hsize
      exact absurd hsize (by decide)
    · rw [hsize]
      decide
    · exact isControl_of_plain (hplain c hc)
  refine ⟨String.ofList ("wf-child-".toList ++ digits), ?_⟩
  simp only [deriveChildCallID, hp, hn, ha, beq_iff_eq, Bool.not_true, Bool.false_or, htext,
    newCallID, hvalid]
  rfl

theorem validIdentity_of_derive {id : CallID} {nodeID : String}
    (h : deriveChildCallID parent nodeID attempt = .ok id) : validIdentity id = true := by
  unfold deriveChildCallID at h
  split at h
  · cases h
  unfold newCallID at h
  split at h
  · cases h
  · rename_i hv
    cases h
    simpa using hv

/-! ## Joins -/

/-- A join on these states has ended with `status`. -/
inductive JoinDecided : WorkflowJoinPolicy → List WorkflowNodeStatus → WorkflowNodeStatus → Prop
  | allFailed {states status} : status ∈ states → status = .failed ∨ status = .skipped →
      JoinDecided .all states .failed
  | allSucceeded {states} : states ≠ [] → (∀ status ∈ states, status = .succeeded) →
      JoinDecided .all states .succeeded
  | anySucceeded {states} : .succeeded ∈ states → JoinDecided .any states .succeeded
  | anyFailed {states} : states ≠ [] → (∀ status ∈ states, status = .failed ∨ status = .skipped) →
      JoinDecided .any states .failed

theorem terminal_iff : status.terminal = true ↔
    status = .succeeded ∨ status = .failed ∨ status = .skipped := by
  cases status <;> simp [WorkflowNodeStatus.terminal]

theorem evaluateWorkflowJoin_decided {states : List WorkflowNodeStatus}
    (hvalid : policy.valid = true) (hne : states ≠ []) :
    evaluateWorkflowJoin policy states = (status, true) ↔ JoinDecided policy states status := by
  have hlen : states.length ≠ 0 := by simpa using hne
  simp only [evaluateWorkflowJoin, hvalid, Bool.not_true, Bool.false_or, beq_iff_eq, hlen, if_false]
  cases policy with
  | none | other => cases hvalid
  | all =>
    simp only [List.countP_eq_length, beq_iff_eq, List.countP_pos_iff, Bool.or_eq_true]
    constructor
    · intro h
      split at h
      · rename_i hex
        obtain ⟨s, hs, hf⟩ := hex
        obtain ⟨rfl, -⟩ := Prod.mk.inj h
        exact .allFailed hs hf
      · split at h
        · rename_i hall
          obtain ⟨rfl, -⟩ := Prod.mk.inj h
          exact .allSucceeded hne hall
        · cases h
    · intro h
      cases h with
      | allFailed hs hf => rw [if_pos ⟨_, hs, hf⟩]
      | allSucceeded _ hall =>
        rw [if_neg, if_pos hall]
        rintro ⟨s, hs, hf⟩
        rw [hall s hs] at hf
        rcases hf with hf | hf <;> cases hf
  | any =>
    simp only [List.countP_eq_length, List.countP_pos_iff, beq_iff_eq, exists_eq_right,
      terminal_iff]
    constructor
    · intro h
      split at h
      · rename_i hs
        obtain ⟨rfl, -⟩ := Prod.mk.inj h
        exact .anySucceeded hs
      · rename_i hs
        split at h
        · rename_i hall
          obtain ⟨rfl, -⟩ := Prod.mk.inj h
          refine .anyFailed hne fun s hm => (hall s hm).resolve_left ?_
          rintro rfl
          exact hs hm
        · cases h
    · intro h
      cases h with
      | anySucceeded hs => rw [if_pos hs]
      | anyFailed _ hall =>
        rw [if_neg, if_pos fun s hs => .inr (hall s hs)]
        intro hs
        rcases hall _ hs with hf | hf <;> cases hf

/-- A decided join stays decided while its dependencies go on. -/
theorem JoinDecided.of_settled {f g : String → WorkflowNodeStatus}
    (h : JoinDecided policy (ids.map f) status)
    (hfg : ∀ d ∈ ids, (f d).terminal = true → g d = f d) :
    JoinDecided policy (ids.map g) status := by
  have hmem : ∀ st, st.terminal = true → st ∈ ids.map f → st ∈ ids.map g := by
    intro st hst hm
    obtain ⟨d, hd, rfl⟩ := List.mem_map.mp hm
    exact List.mem_map.mpr ⟨d, hd, hfg d hd hst⟩
  have hall : ∀ P : WorkflowNodeStatus → Prop, (∀ st, P st → st.terminal = true) →
      (∀ st ∈ ids.map f, P st) → ∀ st ∈ ids.map g, P st := by
    intro P hP hf st hm
    obtain ⟨d, hd, rfl⟩ := List.mem_map.mp hm
    have hfd := hf (f d) (List.mem_map_of_mem hd)
    rw [hfg d hd (hP _ hfd)]
    exact hfd
  have hne : ids.map f ≠ [] → ids.map g ≠ [] := by simp
  cases h with
  | allFailed hm hf =>
    exact .allFailed (hmem _ (terminal_iff.mpr (.inr hf)) hm) hf
  | allSucceeded hn hs =>
    exact .allSucceeded (hne hn) (hall (· = .succeeded) (fun st h => terminal_iff.mpr (.inl h)) hs)
  | anySucceeded hm => exact .anySucceeded (hmem _ rfl hm)
  | anyFailed hn hf =>
    exact .anyFailed (hne hn) (hall (fun st => st = .failed ∨ st = .skipped)
      (fun st h => terminal_iff.mpr (.inr h)) hf)

/-- A join whose dependencies have all succeeded or failed is decided. -/
theorem joinDecided_of_ended
    {f : String → WorkflowNodeStatus} (hvalid : policy.valid = true) (hne : ids ≠ [])
    (hended : ∀ d ∈ ids, f d = .succeeded ∨ f d = .failed) :
    ∃ status, JoinDecided policy (ids.map f) status := by
  have hne' : ids.map f ≠ [] := by simpa using hne
  have hterminal : ∀ st ∈ ids.map f, st = .succeeded ∨ st = .failed := by simpa using hended
  cases policy with
  | none | other => cases hvalid
  | all =>
    by_cases hf : .failed ∈ ids.map f
    · exact ⟨_, .allFailed hf (.inl rfl)⟩
    · refine ⟨_, .allSucceeded hne' fun st hst => (hterminal st hst).resolve_right ?_⟩
      rintro rfl
      exact hf hst
  | any =>
    by_cases hs : .succeeded ∈ ids.map f
    · exact ⟨_, .anySucceeded hs⟩
    · refine ⟨_, .anyFailed hne' fun st hst => .inl ((hterminal st hst).resolve_left ?_)⟩
      rintro rfl
      exact hs hst

/-! ## Commands -/

/-- The deadline of a timer. -/
def deadline (startedAt : Time) (spec : WorkflowNodeSpec) : Time :=
  normalizeReadyAt (startedAt + spec.delay)

/-- The command starts the node. -/
structure Starts (state : WorkflowSnapshotState) (parent : CallID) (spec : WorkflowNodeSpec)
    (command : WorkflowCommand) : Prop where
  nodeID : command.nodeID = spec.id
  kind : command.kind = spec.kind
  operation : command.operation = spec.operation
  attempt : command.attempt = (state.node spec.id).attempt + 1
  complete : command.completeStatus = none
  timer : spec.kind = .timer → command.readyAt = deadline state.startedAt spec
  child : spec.kind = .child →
    deriveChildCallID parent spec.id command.attempt = .ok command.childCallID

theorem startCommand_ok {state : WorkflowSnapshotState} {spec : WorkflowNodeSpec}
    {command : WorkflowCommand} (h : startCommand state parent spec = .ok command) :
    Starts state parent spec command := by
  unfold startCommand at h
  dsimp only at h
  split at h
  · rename_i hk
    cases h
    exact ⟨rfl, rfl, rfl, rfl, rfl, fun _ => rfl, fun hc => (by rw [hk] at hc; cases hc)⟩
  · rename_i hk
    split at h
    · cases h
    rename_i id hid
    cases h
    exact ⟨rfl, rfl, rfl, rfl, rfl, fun ht => (by rw [hk] at ht; cases ht), fun _ => hid⟩
  · rename_i ht hc
    cases h
    exact ⟨rfl, rfl, rfl, rfl, rfl, fun h => absurd h ht, fun h => absurd h hc⟩

/-- Every dependency lets the node start: it has succeeded, or it has ended and the node's policy is
to continue. -/
def DependenciesMet (state : WorkflowSnapshotState) (spec : WorkflowNodeSpec) : Prop :=
  (∀ d ∈ spec.dependsOn, (state.node d).status = .succeeded) ∨
    (spec.failurePolicy = .continue_ ∧ ∀ d ∈ spec.dependsOn, (state.node d).status.terminal = true)

/-- Why the pending node of `spec` has the command. -/
inductive Planned (state : WorkflowSnapshotState) (parent : CallID) (spec : WorkflowNodeSpec) :
    WorkflowCommand → Prop
  | join {status : WorkflowNodeStatus} (kind : spec.kind = .join)
      (decided : JoinDecided spec.join (spec.dependsOn.map fun d => (state.node d).status) status) :
      Planned state parent spec
        { nodeID := spec.id, kind := spec.kind, completeStatus := some status }
  | failFast {d : String} (kind : spec.kind ≠ .join) (policy : spec.failurePolicy = .failFast)
      (dependency : d ∈ spec.dependsOn) (failed : (state.node d).status = .failed) :
      Planned state parent spec
        { nodeID := spec.id, kind := spec.kind, completeStatus := some .failed }
  | start {command : WorkflowCommand} (kind : spec.kind ≠ .join) (met : DependenciesMet state spec)
      (starts : Starts state parent spec command) : Planned state parent spec command

section

variable {state state' : WorkflowSnapshotState} {spec : WorkflowNodeSpec}
  {command : WorkflowCommand}

theorem Planned.nodeID (h : Planned state parent spec command) : command.nodeID = spec.id := by
  cases h with
  | join => rfl
  | failFast => rfl
  | start _ _ starts => exact starts.nodeID

/-- A command stays planned while other nodes go on. -/
theorem Planned.of_settled (h : Planned state parent spec command)
    (hdeps : ∀ d ∈ spec.dependsOn, (state.node d).status.terminal = true →
      (state'.node d).status = (state.node d).status)
    (hown : state'.node spec.id = state.node spec.id)
    (hstarted : state'.startedAt = state.startedAt) : Planned state' parent spec command := by
  cases h with
  | join kind decided => exact .join kind (decided.of_settled hdeps)
  | failFast kind policy dependency failed =>
    refine .failFast kind policy dependency ?_
    rw [hdeps _ dependency (by rw [failed]; rfl), failed]
  | start kind met starts =>
    refine .start kind ?_ ?_
    · rcases met with hall | ⟨hpolicy, hall⟩
      · refine .inl fun d hd => ?_
        rw [hdeps d hd (by rw [hall d hd]; rfl), hall d hd]
      · refine .inr ⟨hpolicy, fun d hd => ?_⟩
        rw [hdeps d hd (hall d hd), hall d hd]
    · exact ⟨starts.nodeID, starts.kind, starts.operation, by rw [hown, starts.attempt],
        starts.complete, fun ht => by rw [hstarted, starts.timer ht], starts.child⟩

theorem joinPolicy_valid (h : SpecOk spec) (hk : spec.kind = .join) :
    spec.join.valid = true ∧ spec.dependsOn ≠ [] := by
  have hshape := h.shape
  simp only [validWorkflowNodeShape, hk, Bool.and_eq_true, decide_eq_true_eq] at hshape
  exact ⟨hshape.2, List.ne_nil_of_length_pos hshape.1.2⟩

/-- A node that has a command is pending, and the command is planned. -/
theorem planNode_ok (hspec : SpecOk spec) (h : planNode state parent spec = .ok (some command)) :
    ∃ node, state.nodes.lookup spec.id = some node ∧ node.status = .pending ∧
      Planned state parent spec command := by
  unfold planNode at h
  split at h
  · cases h
  rename_i node hlookup
  split at h
  · cases h
  split at h
  · cases h
  rename_i hpending
  refine ⟨node, hlookup, not_not.mp hpending, ?_⟩
  dsimp only at h
  split at h
  · rename_i hk
    obtain ⟨hvalid, hne⟩ := joinPolicy_valid hspec hk
    split at h
    · rename_i status heval
      obtain rfl := Option.some.inj (Except.ok.inj h)
      exact .join hk ((evaluateWorkflowJoin_decided hvalid (by simpa using hne)).mp heval)
    · cases h
  rename_i hk
  split at h
  · rename_i hfail
    simp only [List.any_map, Bool.and_eq_true, List.any_eq_true, Function.comp_apply, beq_iff_eq,
      decide_eq_true_eq] at hfail
    obtain ⟨⟨d, hd, hf⟩, hpolicy⟩ := hfail
    obtain rfl := Option.some.inj (Except.ok.inj h)
    exact .failFast hk hpolicy hd hf
  split at h
  · cases h
  rename_i hmet
  split at h
  · cases h
  rename_i c hstart
  obtain rfl := Option.some.inj (Except.ok.inj h)
  refine .start hk ?_ (startCommand_ok hstart)
  simp only [List.all_map, Bool.and_eq_true, decide_eq_true_eq, Bool.not_eq_true', Bool.or_eq_true,
    Bool.eq_false_iff,
    List.all_eq_true, Function.comp_apply, beq_iff_eq, not_and_or, not_or, not_not] at hmet
  rcases hmet with (hnil | hall) | hcontinue
  · exact .inl fun d hd => absurd (List.length_pos_of_mem hd) hnil
  · exact .inl hall
  · exact .inr hcontinue

theorem startCommand_isOk (hspec : SpecOk spec) (hparent : validIdentity parent = true)
    (hattempt : (state.node spec.id).attempt + 1 ≠ 0) :
    ∃ command, startCommand state parent spec = .ok command := by
  obtain ⟨id, hid⟩ := deriveChildCallID_ok hparent hspec.id hattempt
  unfold startCommand
  dsimp only
  split
  · exact ⟨_, rfl⟩
  · rw [hid]
    exact ⟨_, rfl⟩
  · exact ⟨_, rfl⟩

variable {node : WorkflowNodeState} {specs : List WorkflowNodeSpec}

section

variable (hspec : SpecOk spec) (hparent : validIdentity parent = true)
  (hlookup : state.nodes.lookup spec.id = some node) (hkind : node.kind = spec.kind)

include hspec hparent hlookup hkind

/-- Planning a node does not fail. -/
theorem planNode_isOk (hattempt : (state.node spec.id).attempt + 1 ≠ 0) :
    ∃ command, planNode state parent spec = .ok command := by
  obtain ⟨start, hstart⟩ := startCommand_isOk hspec hparent hattempt
  unfold planNode
  rw [hlookup]
  simp only [hkind, ne_eq, not_true_eq_false, if_false, hstart]
  repeat' split
  all_goals exact ⟨_, rfl⟩

/-- A pending node whose dependencies have all ended, and not been skipped, has a command. -/
theorem planNode_ready (hpending : node.status = .pending)
    (hattempt : (state.node spec.id).attempt + 1 ≠ 0)
    (hdeps : ∀ d ∈ spec.dependsOn,
      (state.node d).status = .succeeded ∨ (state.node d).status = .failed) :
    ∃ command, planNode state parent spec = .ok (some command) := by
  obtain ⟨start, hstart⟩ := startCommand_isOk hspec hparent hattempt
  have hterminal : ∀ d ∈ spec.dependsOn, (state.node d).status.terminal = true := by
    intro d hd
    rcases hdeps d hd with h | h <;> rw [h] <;> rfl
  unfold planNode
  rw [hlookup]
  simp only [hkind, hpending, ne_eq, not_true_eq_false, if_false]
  by_cases hjoin : spec.kind = .join
  · obtain ⟨hvalid, hne⟩ := joinPolicy_valid hspec hjoin
    obtain ⟨status, hdecided⟩ := joinDecided_of_ended hvalid hne hdeps
    rw [if_pos hjoin, (evaluateWorkflowJoin_decided hvalid (by simpa using hne)).mpr hdecided]
    exact ⟨_, rfl⟩
  · rw [if_neg hjoin]
    split
    · exact ⟨_, rfl⟩
    rename_i hfail
    rw [if_neg, hstart]
    · exact ⟨_, rfl⟩
    -- without a failed dependency all have succeeded; with one, the policy is to continue
    intro hblocked
    simp only [Bool.and_eq_true, List.all_map, Bool.not_eq_true', Bool.or_eq_true, ne_eq,
      Bool.eq_false_iff, List.all_eq_true] at hfail hblocked
    obtain ⟨⟨-, hns⟩, hpolicy | hnt⟩ := hblocked
    · push Not at hns
      obtain ⟨d, hd, hns⟩ := hns
      have hvalid := hspec.policy
      cases hp : spec.failurePolicy <;> simp_all [WorkflowFailurePolicy.valid]
    · exact hnt hterminal

end

/-! ## Plans -/

theorem planNodes_ok {commands : List WorkflowCommand}
    (hspecs : ∀ spec ∈ specs, SpecOk spec) (h : planNodes state parent specs = .ok commands) :
    (∀ command ∈ commands, ∃ spec ∈ specs, ∃ node, state.nodes.lookup spec.id = some node ∧
      node.status = .pending ∧ Planned state parent spec command) ∧
    (commands.map WorkflowCommand.nodeID).Sublist (specs.map WorkflowNodeSpec.id) := by
  induction specs generalizing commands with
  | nil =>
    cases h
    simp
  | cons spec specs ih =>
    unfold planNodes at h
    split at h
    · cases h
    rename_i command hcommand
    split at h
    · cases h
    rename_i rest hrest
    cases h
    obtain ⟨hplanned, hsublist⟩ := ih (fun s hs => hspecs s (by simp [hs])) hrest
    have hlater : ∀ c ∈ rest, ∃ s ∈ spec :: specs, ∃ node, state.nodes.lookup s.id = some node ∧
        node.status = .pending ∧ Planned state parent s c := by
      intro c hc
      obtain ⟨s, hs, hrest⟩ := hplanned c hc
      exact ⟨s, by simp [hs], hrest⟩
    cases command with
    | none => exact ⟨hlater, hsublist.cons _⟩
    | some c =>
      obtain ⟨node, hnode⟩ := planNode_ok (hspecs spec (by simp)) hcommand
      refine ⟨fun c' hc' => ?_, ?_⟩
      · rcases List.mem_cons.mp hc' with rfl | hc'
        · exact ⟨spec, by simp, node, hnode⟩
        · exact hlater c' hc'
      · show (c.nodeID :: rest.map WorkflowCommand.nodeID).Sublist _
        rw [hnode.2.2.nodeID]
        exact hsublist.cons_cons _

/-- The plan has the command of every node. -/
theorem planNodes_isOk (h : ∀ spec ∈ specs, ∃ command, planNode state parent spec = .ok command) :
    ∃ commands, planNodes state parent specs = .ok commands ∧
      ∀ spec ∈ specs, ∀ command, planNode state parent spec = .ok (some command) →
        command ∈ commands := by
  induction specs with
  | nil => exact ⟨[], rfl, by simp⟩
  | cons spec specs ih =>
    obtain ⟨command, hcommand⟩ := h spec (by simp)
    obtain ⟨rest, hrest, hmem⟩ := ih fun s hs => h s (by simp [hs])
    refine ⟨command.toList ++ rest, by simp [planNodes, hcommand, hrest], fun s hs c hc => ?_⟩
    rcases List.mem_cons.mp hs with rfl | hs
    · rw [hcommand] at hc
      obtain rfl := Except.ok.inj hc
      simp
    · simp [hmem s hs c hc]

end

end Keelith.Continuation
