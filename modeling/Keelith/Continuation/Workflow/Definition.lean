import Keelith.Continuation.State
import Keelith.Lib.Json
import Keelith.Lib.Loop
import Mathlib.Data.List.Sort

/-!
# Workflow definitions

The definition half of `workflow.go`, and the lookup of definitions in `registry.go`.

- **Specs** (`WorkflowNodeSpec`, `WorkflowDefinitionSpec`): what an application writes.
- **Checks** (`checkNodes`, `validWorkflowNodeShape`): the loops of `NewWorkflowDefinition`.
- **Order** (`topologicalWorkflowNodes`): repeatedly the smallest node whose dependencies are all
  placed.
- **Fingerprint** (`workflowFingerprint`): the digest of the canonical JSON document.

`WorkflowDefinition.byID` is left out: nothing reads it after `NewWorkflowDefinition`.
-/

namespace Keelith.Continuation

def maxWorkflowEdges : Nat := 100000

def maxWorkflowTimerDelay : Duration := 365 * 24 * hour

/-! ## Specs -/

/-- `WorkflowJoinPolicy`; `none` is the empty string. -/
inductive WorkflowJoinPolicy where
  | none
  | all
  | any
  | other (text : String)
  deriving DecidableEq

def WorkflowJoinPolicy.valid : WorkflowJoinPolicy → Bool
  | .all | .any => true
  | _ => false

/-- `WorkflowFailurePolicy`; `none` is the empty string. -/
inductive WorkflowFailurePolicy where
  | none
  | failFast
  | continue_
  | other (text : String)
  deriving DecidableEq

def WorkflowFailurePolicy.normalized : WorkflowFailurePolicy → WorkflowFailurePolicy
  | .none => .failFast
  | policy => policy

def WorkflowFailurePolicy.valid : WorkflowFailurePolicy → Bool
  | .failFast | .continue_ => true
  | _ => false

/-- `WorkflowNodeSpec`. -/
structure WorkflowNodeSpec where
  id : String
  kind : WorkflowNodeKind
  operation : Operation := ""
  dependsOn : List String := []
  join : WorkflowJoinPolicy := .none
  failurePolicy : WorkflowFailurePolicy := .none
  delay : Duration := 0
  deriving DecidableEq

/-- `WorkflowDefinitionSpec`. -/
structure WorkflowDefinitionSpec where
  operation : Operation
  version : String
  nodes : List WorkflowNodeSpec

/-- `WorkflowDefinition` (module doc). -/
structure WorkflowDefinition where
  operation : Operation
  version : String
  fingerprint : String
  nodes : List WorkflowNodeSpec
  deriving DecidableEq

/-! ## Checks -/

def validWorkflowNodeShape (node : WorkflowNodeSpec) : Bool :=
  match node.kind with
  | .machine | .child => validOperation node.operation && node.delay == 0 && node.join == .none
  | .timer => node.operation == "" && 0 < node.delay && node.delay ≤ maxWorkflowTimerDelay &&
      node.join == .none
  | .join => node.operation == "" && node.delay == 0 && 0 < node.dependsOn.length &&
      node.join.valid
  | .other _ => false

/-- The dependency loop of `NewWorkflowDefinition`; `seen` are the earlier dependencies. -/
def validDependencies (id : String) (seen : List String) : List String → Bool
  | [] => true
  | dependency :: rest =>
    validIdentity dependency && dependency != id && !seen.contains dependency &&
      validDependencies id (dependency :: seen) rest

/-- The first loop of `NewWorkflowDefinition`, over the nodes from `index` on: the index of each
node by its ID, unless a node is refused. -/
def checkNodes (index edges : Nat) (byID : Map String Nat) :
    List WorkflowNodeSpec → Option (Map String Nat)
  | [] => some byID
  | node :: nodes =>
    let edges := edges + node.dependsOn.length
    if !validIdentity node.id || !node.kind.valid || !node.failurePolicy.valid then none
    else if (byID.lookup node.id).isSome then none
    else if edges > maxWorkflowEdges || !validWorkflowNodeShape node then none
    else if !validDependencies node.id [] node.dependsOn then none
    else checkNodes (index + 1) edges (byID.insert node.id index) nodes

/-! ## Order -/

/-- `sort.Strings`. -/
def sortStrings (values : List String) : List String := values.insertionSort (· ≤ ·)

/-- The number of dependencies of each node. -/
def indegrees (nodes : List WorkflowNodeSpec) : Map String Int :=
  nodes.foldl (fun m node => m.insert node.id (node.dependsOn.length : Int)) ∅

/-- One edge of the `dependents` map. -/
def addDependent (id : String) (m : Map String (List String)) (dependency : String) :
    Map String (List String) :=
  m.insert dependency ((m.lookup dependency).getD [] ++ [id])

/-- The nodes that depend on each node. -/
def dependents (nodes : List WorkflowNodeSpec) : Map String (List String) :=
  nodes.foldl (fun m node => node.dependsOn.foldl (addDependent node.id) m) ∅

/-- The state of the loop of `topologicalWorkflowNodes`. -/
structure Placing where
  ready : List String
  indegree : Map String Int
  result : List WorkflowNodeSpec

/-- The inner loop: a dependent of the node that was placed. -/
def release (s : Placing) (dependent : String) : Placing :=
  let degree := (s.indegree.lookup dependent).getD 0 - 1
  { s with
    indegree := s.indegree.insert dependent degree
    ready := if degree = 0 then sortStrings (s.ready ++ [dependent]) else s.ready }

/-- The loop of `topologicalWorkflowNodes`: place the first ready node. -/
def place (nodes : List WorkflowNodeSpec) (byID : Map String Nat) (s : Placing) :
    Placing ⊕ List WorkflowNodeSpec :=
  match s.ready with
  | [] => .inr s.result
  | id :: ready =>
    .inl (((dependents nodes).lookup id).getD [] |>.foldl release
      { s with ready, result := s.result ++ nodes[(byID.lookup id).getD 0]?.toList })

/-- The dependents of a node, with one entry for each edge. -/
theorem lookup_dependents (nodes : List WorkflowNodeSpec) (d : String) :
    ((dependents nodes).lookup d).getD [] =
      nodes.flatMap fun node => List.replicate (node.dependsOn.count d) node.id := by
  have hinner : ∀ (id : String) (deps : List String) (m : Map String (List String)),
      ((deps.foldl (addDependent id) m).lookup d).getD [] =
        (m.lookup d).getD [] ++ List.replicate (deps.count d) id := by
    intro id deps
    induction deps with
    | nil => simp
    | cons dep deps ih =>
      intro m
      rw [List.foldl_cons, ih, addDependent, Map.lookup_insert_eq]
      by_cases h : d = dep
      · subst h
        simp [List.replicate_succ]
      · rw [if_neg h, List.count_cons_of_ne (Ne.symm h)]
  have houter : ∀ (nodes : List WorkflowNodeSpec) (m : Map String (List String)),
      ((nodes.foldl (fun m node => node.dependsOn.foldl (addDependent node.id) m) m).lookup
        d).getD [] = (m.lookup d).getD [] ++
          nodes.flatMap fun node => List.replicate (node.dependsOn.count d) node.id := by
    intro nodes
    induction nodes with
    | nil => simp
    | cons node nodes ih =>
      intro m
      rw [List.foldl_cons, ih, hinner, List.flatMap_cons, List.append_assoc]
  rw [dependents, houter]
  rfl

/-- The open edges of the nodes. -/
def openEdges (nodes : List WorkflowNodeSpec) (indegree : Map String Int) : Nat :=
  (nodes.map fun node => ((indegree.lookup node.id).getD 0).toNat).sum

variable {nodes : List WorkflowNodeSpec}

theorem openEdges_insert (indegree : Map String Int) {id : String}
    (hid : id ∈ nodes.map (·.id)) :
    openEdges nodes (indegree.insert id ((indegree.lookup id).getD 0 - 1)) +
      (if (indegree.lookup id).getD 0 - 1 = 0 then 1 else 0) ≤ openEdges nodes indegree := by
  generalize hn : (indegree.lookup id).getD 0 = n
  -- every term falls or stays; the term of `id` falls if its degree was one
  have hterm : ∀ node : WorkflowNodeSpec,
      (((indegree.insert id (n - 1)).lookup node.id).getD 0).toNat ≤
        ((indegree.lookup node.id).getD 0).toNat := by
    intro node
    rw [Map.lookup_insert_eq]
    split
    · rename_i h
      rw [h, Option.getD_some]
      omega
    · exact le_refl _
  have hle : ∀ nodes, openEdges nodes (indegree.insert id (n - 1)) ≤ openEdges nodes indegree := by
    intro nodes
    induction nodes with
    | nil => exact le_refl _
    | cons node nodes ih =>
      have := hterm node
      simp only [openEdges, List.map_cons, List.sum_cons] at ih ⊢
      omega
  induction nodes with
  | nil => simp at hid
  | cons node nodes ih =>
    have h1 := hle nodes
    simp only [openEdges, List.map_cons, List.sum_cons] at ih h1 ⊢
    by_cases h : node.id = id
    · rw [h, Finmap.lookup_insert, Option.getD_some]
      split <;> omega
    · have h2 := hterm node
      have h3 := ih (by simpa [Ne.symm h] using hid)
      omega

/-- The measure of the loop: the ready nodes and the open edges. -/
def Placing.measure (nodes : List WorkflowNodeSpec) (s : Placing) : Nat :=
  s.ready.length + openEdges nodes s.indegree

theorem release_measure {s : Placing} {dependent : String}
    (h : dependent ∈ nodes.map (·.id)) :
    (release s dependent).measure nodes ≤ s.measure nodes := by
  have hedges := openEdges_insert s.indegree h
  simp only [release, Placing.measure]
  split
  · rename_i hzero
    rw [if_pos hzero] at hedges
    simp only [sortStrings, List.length_insertionSort, List.length_append, List.length_singleton]
    omega
  · rename_i hzero
    omega

/-- The loop of `topologicalWorkflowNodes` ends: a placed node leaves `ready`, and a node that
enters it closes an edge. -/
def place_terminating (nodes : List WorkflowNodeSpec) (byID : Map String Nat) :
    Loop.Terminating (place nodes byID) where
  measure := Placing.measure nodes
  decreases := by
    intro s s' hbody
    unfold place at hbody
    split at hbody
    · cases hbody
    rename_i id ready hready
    obtain rfl := Sum.inl.inj hbody
    have hfold : ∀ (ids : List String) (s : Placing), (∀ i ∈ ids, i ∈ nodes.map (·.id)) →
        (ids.foldl release s).measure nodes ≤ s.measure nodes := by
      intro ids
      induction ids with
      | nil => exact fun s _ => le_refl _
      | cons i ids ih =>
        intro s hids
        exact (ih _ fun j hj => hids j (by simp [hj])).trans (release_measure (hids i (by simp)))
    refine lt_of_le_of_lt (hfold _ _ ?_) ?_
    · rw [lookup_dependents]
      intro i hi
      obtain ⟨node, hnode, hi⟩ := List.mem_flatMap.mp hi
      exact List.mem_map.mpr ⟨node, hnode, (List.eq_of_mem_replicate hi).symm⟩
    · simp [Placing.measure, hready]

def topologicalWorkflowNodes (nodes : List WorkflowNodeSpec) (byID : Map String Nat) :
    Except Error (List WorkflowNodeSpec) :=
  let indegree := indegrees nodes
  -- the keys of degree zero, appended in the order of the map and then sorted
  let ready := (indegree.keys.filter fun id => indegree.lookup id = some 0).sort
  let result := Loop.eval (place_terminating nodes byID) { ready, indegree, result := [] }
  if result.length != nodes.length then .error (.sentinel .errWorkflowCycle) else .ok result

/-! ## Fingerprint -/

/-- The string of a join policy. -/
def WorkflowJoinPolicy.text : WorkflowJoinPolicy → String
  | .none => ""
  | .all => "all"
  | .any => "any"
  | .other text => text

/-- The string of a failure policy. -/
def WorkflowFailurePolicy.text : WorkflowFailurePolicy → String
  | .none => ""
  | .failFast => "fail_fast"
  | .continue_ => "continue"
  | .other text => text

/-- The JSON object of a node. -/
def fingerprintNode (node : WorkflowNodeSpec) : String :=
  "\x7b\"id\":" ++ jsonString node.id ++ ",\"kind\":" ++ jsonString node.kind.text ++
    ",\"operation\":" ++ jsonString node.operation ++
    ",\"depends_on\":" ++ jsonStrings (sortStrings node.dependsOn) ++
    ",\"join\":" ++ jsonString node.join.text ++
    ",\"failure_policy\":" ++ jsonString node.failurePolicy.text ++
    ",\"delay_nanos\":" ++ toString node.delay ++ "\x7d"

/-- The document that `workflowFingerprint` hashes: the nodes in the order of their IDs. -/
def fingerprintDocument (operation : Operation) (version : String) (nodes : List WorkflowNodeSpec) :
    String :=
  let canonical := nodes.insertionSort fun left right => left.id ≤ right.id
  "\x7b\"operation\":" ++ jsonString operation ++ ",\"version\":" ++ jsonString version ++
    ",\"nodes\":[" ++ jsonElements (canonical.map fingerprintNode) ++ "]\x7d"

def workflowFingerprint (operation : Operation) (version : String) (nodes : List WorkflowNodeSpec) :
    String :=
  hexEncode (sha256 (bytesOf (fingerprintDocument operation version nodes)))

/-! ## Definitions -/

def newWorkflowDefinition (spec : WorkflowDefinitionSpec) : Except Error WorkflowDefinition :=
  if !validOperation spec.operation || !validIdentity spec.version || spec.nodes.length == 0 ||
      spec.nodes.length > maxWorkflowNodes then
    .error (.sentinel .errInvalidWorkflow)
  else
    let nodes := spec.nodes.map fun node =>
      { node with failurePolicy := node.failurePolicy.normalized }
    match checkNodes 0 0 ∅ nodes with
    | none => .error (.sentinel .errInvalidWorkflow)
    | some byID =>
      if !nodes.all fun node => node.dependsOn.all fun id => (byID.lookup id).isSome then
        .error (.sentinel .errInvalidWorkflow)
      else match topologicalWorkflowNodes nodes byID with
        | .error err => .error err
        | .ok topological => .ok
          { operation := spec.operation, version := spec.version,
            fingerprint := workflowFingerprint spec.operation spec.version nodes,
            nodes := topological }

/-- `Registry`, its workflows. -/
structure Registry where
  workflows : Map String (Map String WorkflowDefinition)

def Registry.resolveWorkflow (registry : Registry) (operation : Operation) (version : String) :
    Option WorkflowDefinition :=
  if !validOperation operation || !validIdentity version then none
  else (registry.workflows.lookup operation).bind fun versions => versions.lookup version

end Keelith.Continuation
